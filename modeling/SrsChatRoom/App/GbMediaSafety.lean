import SrsChatRoom.App.PackSearch
import SrsChatRoom.Kernel.PsSafety
import SrsChatRoom.Lib.System

/-!
# A media connection and hostile packets

A round faults in four ways. The packet is read behind the reserved bytes without a look at the
end of the buffer; the header extension of the RTP packet, a system header, and the pack field of
a PES header go by lengths that are not compared with what is there. In every run without those
(`Fits`) each round ends, and no more than 128 bytes are reserved.
-/

namespace SrsChatRoom.App.GbMedia

open SrsChatRoom.Kernel
open SrsChatRoom.Kernel.Ps
open SrsChatRoom.Kernel.Rtp (rtpDecode RtpPacket rtpDecode_returns_at rtpDecode_raw
  rtpDecode_refused rtpDecode_returns_iff ExtensionFits)
open SrsChatRoom.Prog (refuse optional zoom modify attempt)
open SrsChatRoom.Kernel.Cursor

variable {bytes : List UInt8} {s : SrsRecoverablePsContext} {F : Prop}

/-! ## Recover mode -/

/-- The head is inside the buffer, and the context is between two turns. -/
def Idle (bytes : List UInt8) (s : SrsRecoverablePsContext) : Prop :=
  Within bytes s.decoder.stream ∧ Pending s.decoder.ctx

theorem onBytes_ends {α : Type} {x : PsIo α} {Q : α → ℕ → Prop}
    (h : EndsAt x bytes s.decoder.stream.pos Q F) (hin : Within bytes s.decoder.stream) :
    (onBytes x).Ends s
      (fun a t => ∃ q ≤ bytes.length,
        t = { s with decoder := { s.decoder with stream := ⟨bytes, q⟩ } } ∧ Q a q)
      (fun t => Within bytes t.decoder.stream) F := by
  apply Prog.Ends.zoom
  refine (onStream_ends h hin).mono ?_ (fun _ he => he) fun hf => hf
  intro a d hd
  obtain ⟨q, hq, hd, ha⟩ := hd
  exact ⟨q, hq, by rw [hd], ha⟩

theorem enterRecoverMode_ends {pos : ℕ} (e : PsError) (hin : Within bytes s.decoder.stream)
    (hpos : pos ≤ bytes.length) :
    (enterRecoverMode pos e).Ends s (fun _ t => Idle bytes t) (fun _ => True) F := by
  apply Prog.Ends.bind_modify
  set u : SrsRecoverablePsContext := { s with recover := s.recover + 1 }
  have hback : EndsAt (do
      let posNow ← Cursor.pos
      skip (pos - posNow) : PsIo Unit) bytes u.decoder.stream.pos (fun _ q => q = pos) F := by
    apply endsAt_bind_pos
    apply endsAt_skip
    · intro q hq _
      omega
    · intro hout
      omega
  apply Prog.Ends.bind
  refine (onBytes_ends hback hin).mono ?_ (fun _ _ => trivial) fun hf => hf
  rintro _ t ⟨q, hq, rfl, rfl⟩
  apply Prog.Ends.bind_read
  refine Prog.Ends.bind_refuse (fun _ => trivial) fun _ => ?_
  apply Prog.Ends.bind_read
  refine Prog.Ends.bind_refuse (fun _ => trivial) fun _ => ?_
  apply Prog.Ends.modify
  exact ⟨⟨rfl, le_refl _⟩, Or.inl rfl⟩

/-- The search for a pack header ends. -/
theorem srsSkipUtilPack_ends {p : ℕ} (fuel : ℕ) (hfuel : bytes.length - p < fuel) :
    EndsAt (srsSkipUtilPack fuel) bytes p (fun _ _ => True) F := by
  intro hp
  unfold Prog.Ends
  rcases findsPack_of_fuel hp hfuel with ⟨n, -, hend, hrun⟩ | ⟨-, q, -, hq, hrun⟩
  · rw [hrun]
    exact ⟨⟨rfl, by dsimp only; omega⟩, trivial⟩
  · rw [hrun]
    exact ⟨⟨rfl, hq⟩, trivial⟩

/-- The decoding of a payload comes to no pack that faults: in the recover mode it starts at the
next pack header, if there is one. -/
def PayloadFits (handler : PsHandler) (s : SrsRecoverablePsContext) : Prop :=
  (s.recover = 0 → ∀ n, TurnsFit handler n s.decoder) ∧
  (s.recover ≠ 0 → ∀ b,
    srsSkipUtilPack (s.decoder.stream.bytes.length + 1) s.decoder.stream = .ok true b →
      ∀ n, TurnsFit handler n { s.decoder with stream := b })

theorem decodePackets_ends (handler : PsHandler) (hidle : Idle bytes s)
    (hfits : ∀ n, TurnsFit handler n s.decoder) :
    (decodePackets handler).Ends s (fun _ t => Idle bytes t) (fun _ => True) False := by
  apply Prog.Ends.bind
  apply Prog.Ends.attempt
  apply Prog.Ends.zoom
  refine (context_ends handler hidle.1 hidle.2 hfits).mono ?_ ?_ fun hf => hf
  · intro _ d hd
    exact Prog.Ends.pure hd
  · intro d hd e
    have hpos : EndsAt (Cursor.pos : PsIo ℕ) bytes d.stream.pos (fun a q => a = q) False :=
      endsAt_pos rfl
    apply Prog.Ends.bind
    refine (onBytes_ends (s := { s with decoder := d }) hpos hd).mono ?_ (fun _ _ => trivial)
      fun hf => hf
    rintro pos t ⟨q, hq, rfl, rfl⟩
    exact enterRecoverMode_ends _ ⟨rfl, hq⟩ hq

/-- The bytes up to the pack header that has been found are gone. -/
theorem skipToPack_ends {p : ℕ} (hin : Within bytes s.decoder.stream)
    (hp : s.decoder.stream.pos = p) :
    skipToPack.Ends s
      (fun found t => ∃ q ≤ bytes.length,
        t = { s with decoder := { s.decoder with stream := ⟨bytes, q⟩ } } ∧
        (found = true →
          srsSkipUtilPack (bytes.length + 1) ⟨bytes, p⟩ = .ok true ⟨bytes, q⟩))
      (fun t => Within bytes t.decoder.stream) F := by
  refine onBytes_ends ?_ hin
  rw [hp]
  apply endsAt_bind_pos
  apply EndsAt.bind
  apply endsAt_read
  apply EndsAt.bind
  have hsearch : EndsAt (srsSkipUtilPack (bytes.length + 1)) bytes p (fun _ _ => True) F :=
    srsSkipUtilPack_ends _ (by omega)
  refine hsearch.run.mono ?_ fun hf => hf
  intro found q hq hrun
  apply EndsAt.bind
  apply endsAt_optional
  · intro hnone
    apply endsAt_bind_pos
    apply endsAt_skip
    · intro r _ _
      apply endsAt_pure
      intro hfound
      rw [hfound] at hnone
      cases hnone
    · intro hout
      have hle : p ≤ bytes.length := hp ▸ hin.2
      omega
  · intro hfound
    apply endsAt_pure
    intro _
    cases found with
    | true => exact hrun
    | false => cases hfound

theorem decodeRecovering_ends (handler : PsHandler) (hidle : Idle bytes s)
    (hrecover : s.recover ≠ 0) (hfits : PayloadFits handler s) :
    (decodeRecovering handler).Ends s (fun _ t => Idle bytes t) (fun _ => True) False := by
  have hpos : EndsAt (Cursor.pos : PsIo ℕ) bytes s.decoder.stream.pos
      (fun a q => a = s.decoder.stream.pos ∧ q = s.decoder.stream.pos) False :=
    endsAt_pos ⟨rfl, rfl⟩
  apply Prog.Ends.bind
  refine (onBytes_ends hpos hidle.1).mono ?_ (fun _ _ => trivial) fun hf => hf
  rintro _ t ⟨q, hq, rfl, rfl, rfl⟩
  set u : SrsRecoverablePsContext :=
    { s with decoder := { s.decoder with stream := ⟨bytes, s.decoder.stream.pos⟩ } }
  have huin : Within bytes u.decoder.stream := ⟨rfl, hq⟩
  apply Prog.Ends.bind
  refine (skipToPack_ends huin rfl).mono ?_ (fun _ _ => trivial) fun hf => hf
  rintro found t ⟨r, hr, rfl, hfound⟩
  apply Prog.Ends.ite
  · intro hpack
    have hturns := hfits.2 hrecover ⟨bytes, r⟩ (by
      rw [show s.decoder.stream = ⟨bytes, s.decoder.stream.pos⟩ from by rw [← hidle.1.1]]
      exact hfound hpack)
    apply Prog.Ends.bind_modify
    exact decodePackets_ends handler ⟨⟨rfl, hr⟩, hidle.2⟩ hturns
  · intro _
    exact enterRecoverMode_ends _ ⟨rfl, hr⟩ hq

/-- A payload is decoded to the end. -/
theorem decode_ends (handler : PsHandler) (hidle : Idle bytes s) (hfits : PayloadFits handler s) :
    (decode handler).Ends s (fun _ t => Idle bytes t) (fun _ => True) False := by
  apply Prog.Ends.bind_read
  apply Prog.Ends.bind_read
  apply Prog.Ends.ite
  · intro _
    exact Prog.Ends.pure hidle
  · intro _
    apply Prog.Ends.ite
    · intro hnormal
      exact decodePackets_ends handler hidle (hfits.1 hnormal)
    · intro hrecover
      exact decodeRecovering_ends handler hidle hrecover hfits

/-! ## A packet -/

variable {reserved : List UInt8}

/-- The reserved bytes are moved in front of the payload. -/
theorem moveBack_run {b : SrsBuffer} (hbegins : reserved <+: b.bytes)
    (hle : reserved.length ≤ b.pos) (hpos : b.pos ≤ b.bytes.length) :
    ∃ moved : SrsBuffer, (Prog.optional (reserved.length > 0) (do
        moveReserved reserved.length
        skip (-1 * reserved.length)) : PsIo Unit) b = .ok () moved ∧
      moved.rest = reserved ++ b.rest ∧ moved.pos ≤ moved.bytes.length := by
  by_cases hsome : reserved.length > 0
  · have htake : b.bytes.take reserved.length = reserved := (List.prefix_iff_eq_take.mp hbegins).symm
    have hfront : (b.bytes.take (b.pos - reserved.length)).length = b.pos - reserved.length := by
      rw [List.length_take]
      omega
    set data := b.bytes.take (b.pos - reserved.length) ++ b.bytes.take reserved.length ++
      b.bytes.drop b.pos with hdata
    have hlength : data.length = b.bytes.length := by
      rw [hdata, List.length_append, List.length_append, hfront, htake, List.length_drop]
      omega
    have hmove : moveReserved reserved.length b = .ok () ⟨data, b.pos⟩ := if_pos hle
    have hskip : (skip (-1 * reserved.length) : PsIo Unit) ⟨data, b.pos⟩ =
        .ok () ⟨data, b.pos - reserved.length⟩ := by
      unfold skip
      dsimp only
      rw [if_pos (by omega)]
      have hback : ((b.pos : ℤ) + -1 * reserved.length).toNat = b.pos - reserved.length := by omega
      rw [hback]
    refine ⟨⟨data, b.pos - reserved.length⟩, ?_, ?_, ?_⟩
    · have hthere : (Prog.optional (reserved.length > 0) (do
          moveReserved reserved.length
          skip (-1 * reserved.length)) : PsIo Unit) = (do
          moveReserved reserved.length
          skip (-1 * reserved.length)) := if_pos (decide_eq_true hsome)
      rw [hthere, Prog.bind_ok hmove, hskip]
    · show data.drop (b.pos - reserved.length) = _
      rw [hdata, List.append_assoc, List.drop_left' hfront, htake]
      rfl
    · show b.pos - reserved.length ≤ data.length
      omega
  · have hnone : reserved = [] := List.eq_nil_of_length_eq_zero (by omega)
    refine ⟨b, ?_, ?_, hpos⟩
    · have hthere : (Prog.optional (reserved.length > 0) (do
          moveReserved reserved.length
          skip (-1 * reserved.length)) : PsIo Unit) = pure () := if_neg (by simpa using hsome)
      rw [hthere]
      rfl
    · rw [hnone]
      rfl

/-- The context, whatever the buffer is. -/
def Ready (s : SrsRecoverablePsContext) : Prop := Pending s.decoder.ctx

theorem decodePayload_ends (handler : PsHandler)
    (hbegins : reserved <+: s.decoder.stream.bytes)
    (hle : reserved.length ≤ s.decoder.stream.pos)
    (hpos : s.decoder.stream.pos ≤ s.decoder.stream.bytes.length) (hready : Ready s)
    (hfits : PayloadFits handler { s with decoder := { s.decoder with
      stream := ⟨reserved ++ s.decoder.stream.rest, 0⟩ } }) :
    (decodePayload handler reserved.length).Ends s (fun _ t => Ready t) (fun _ => True) False := by
  obtain ⟨moved, hrun, hrest, hmoved⟩ := moveBack_run hbegins hle hpos
  set u : SrsRecoverablePsContext := { s with decoder := { s.decoder with stream := moved } }
  have hmove : onBytes (Prog.optional (reserved.length > 0) (do
      moveReserved reserved.length
      skip (-1 * reserved.length))) s = .ok () u := by
    unfold onBytes onDecoder Ps.onStream zoom
    rw [hrun]
  apply Prog.Ends.bind
  refine Prog.ends_of_ok hmove ?_
  apply Prog.Ends.bind_read
  have hpayload : u.decoder.stream.bytes.drop u.decoder.stream.pos =
      reserved ++ s.decoder.stream.rest := hrest
  rw [hpayload]
  generalize hdata : reserved ++ s.decoder.stream.rest = payload at hfits hrest
  have hlength : moved.pos + payload.length = moved.bytes.length := by
    rw [← hrest, SrsBuffer.length_rest]
    omega
  set v : SrsRecoverablePsContext :=
    { s with decoder := { s.decoder with stream := ⟨payload, 0⟩ } } with hv
  have hends : (decode handler).Ends v (fun _ t => Idle payload t) (fun _ => True) False :=
    decode_ends handler ⟨⟨rfl, Nat.zero_le _⟩, hready⟩ hfits
  apply Prog.Ends.bind
  apply Prog.Ends.wrap
  unfold Prog.Ends at hends ⊢
  unfold onPayload
  rw [show ({ u with decoder := { u.decoder with stream := ⟨payload, 0⟩ } } :
    SrsRecoverablePsContext) = v from rfl]
  cases hdecode : decode handler v with
  | ok a t =>
    rw [hdecode] at hends
    have hhead : t.decoder.stream.pos ≤ payload.length := hends.1.2
    have hskip : (skip t.decoder.stream.pos : PsIo Unit) moved =
        .ok () ⟨moved.bytes, moved.pos + t.decoder.stream.pos⟩ := by
      unfold skip
      rw [if_pos (by omega)]
      rfl
    have hrun : onBytes (skip t.decoder.stream.pos)
        { t with decoder := { t.decoder with stream := moved } } = .ok ()
          { t with decoder := { t.decoder with
            stream := ⟨moved.bytes, moved.pos + t.decoder.stream.pos⟩ } } := by
      unfold onBytes onDecoder Ps.onStream zoom
      rw [hskip]
    exact Prog.ends_of_ok hrun hends.2
  | err e t => trivial
  | fault =>
    rw [hdecode] at hends
    exact hends
  | hang =>
    rw [hdecode] at hends
    exact hends

/-- What the payload of the packet at `reserved.length` has to meet, with the reserved bytes in
front of it. -/
def PacketFits (handler : PsHandler) (reserved : List UInt8) (s : SrsRecoverablePsContext) :
    Prop :=
  ∀ rtp b, rtpDecode rtpConfig ⟨s.decoder.stream.bytes, reserved.length⟩ = .ok rtp b →
    PayloadFits handler { s with decoder := { s.decoder with stream := ⟨reserved ++ b.rest, 0⟩ } }

theorem decodeRtp_ends (handler : PsHandler) {packet : List UInt8}
    (hstream : s.decoder.stream = ⟨reserved ++ packet, 0⟩) (hready : Ready s)
    (hextension : ExtensionFits rtpConfig packet) (hfits : PacketFits handler reserved s) :
    (decodeRtp handler reserved.length).Ends s (fun _ t => Ready t) (fun _ => True) False := by
  generalize hbytes : reserved ++ packet = bytes at hstream
  have hle : reserved.length ≤ bytes.length := by
    rw [← hbytes, List.length_append]
    omega
  have hin : Within bytes s.decoder.stream := by
    rw [hstream]
    exact ⟨rfl, Nat.zero_le _⟩
  have hfront : EndsAt (skip reserved.length : PsIo Unit) bytes s.decoder.stream.pos
      (fun _ q => q = reserved.length) False := by
    rw [hstream]
    apply endsAt_skip
    · intro q hq _
      dsimp only at hq
      omega
    · intro hout
      dsimp only at hout
      omega
  apply Prog.Ends.bind
  refine (onBytes_ends hfront hin).mono ?_ (fun _ _ => trivial) fun hf => hf
  rintro _ t ⟨q, hq, rfl, rfl⟩
  set u : SrsRecoverablePsContext :=
    { s with decoder := { s.decoder with stream := ⟨bytes, reserved.length⟩ } } with hu
  apply Prog.Ends.bind
  have hpos : EndsAt (Cursor.pos : PsIo ℕ) bytes u.decoder.stream.pos
      (fun a q => a = reserved.length ∧ q = reserved.length) False := endsAt_pos ⟨rfl, rfl⟩
  refine (onBytes_ends hpos ⟨rfl, hle⟩).mono ?_ (fun _ _ => trivial) fun hf => hf
  rintro _ t ⟨q, _, rfl, rfl, rfl⟩
  -- the packet itself is decoded to the end
  have hreturns : (rtpDecode rtpConfig).Returns ⟨bytes, reserved.length⟩ := by
    rw [rtpDecode_returns_at rtpConfig hle]
    have hrest : (⟨bytes, reserved.length⟩ : SrsBuffer).rest = packet := by
      show bytes.drop reserved.length = packet
      rw [← hbytes, List.drop_left]
    rw [hrest]
    exact hextension
  have hfits : ∀ rtp b, rtpDecode rtpConfig ⟨bytes, reserved.length⟩ = .ok rtp b →
      PayloadFits handler
        { s with decoder := { s.decoder with stream := ⟨reserved ++ b.rest, 0⟩ } } := by
    unfold PacketFits at hfits
    rw [hstream] at hfits
    exact hfits
  apply Prog.Ends.bind
  unfold Prog.Ends attempt onBytes onDecoder Ps.onStream zoom Prog.mapErr
  dsimp only
  unfold Prog.Returns Prog.Safe at hreturns
  cases hrun : rtpDecode rtpConfig ⟨bytes, reserved.length⟩ with
  | ok rtp b =>
    obtain ⟨hraw, hbegins, hhead, hinside⟩ := rtpDecode_raw rfl hle hrun
    have hreserved : reserved <+: b.bytes := by
      refine List.prefix_of_prefix_length_le (List.prefix_append reserved packet) ?_ ?_
      · rw [hbytes]
        exact hbegins
      · dsimp only at hhead
        omega
    dsimp only
    rw [hraw]
    have hhead : reserved.length + 12 ≤ b.pos := hhead
    exact decodePayload_ends handler hreserved (by
      show reserved.length ≤ b.pos
      omega) hinside hready (hfits rtp b hrun)
  | err e b =>
    have hkept : Within bytes b := rtpDecode_refused rfl hle hrun
    set v : SrsRecoverablePsContext := { s with decoder := { s.decoder with stream := b } }
    have hends : (enterRecoverMode reserved.length
        ((PsError.ofRtp e).wrap "decode rtp")).Ends v (fun _ t => Idle bytes t)
        (fun _ => True) False := enterRecoverMode_ends _ hkept hle
    exact hends.mono (fun _ _ ht => ht.2) (fun _ _ => trivial) fun hf => hf
  | fault =>
    rw [hrun] at hreturns
    exact hreturns
  | hang =>
    rw [hrun] at hreturns
    exact hreturns

/-! ## A round -/

namespace SrsGbMediaTcpConn

/-- The packet and what is decoded of it are where their lengths say. -/
structure Fits (handler : PsHandler) (s : SrsGbMediaTcpConn) (frame : Frame) : Prop where
  room : s.reserved.length + frame.bytes.length ≤ bufferSize
  extension : srsIsRtcp frame.bytes = false → ExtensionFits rtpConfig frame.bytes
  packet : srsIsRtcp frame.bytes = false → ∀ t, findSession frame s = .ok () t →
    t.hasSession = true → PacketFits handler s.reserved (s.enter frame)

/-- What holds between two rounds. -/
structure Ready (s : SrsGbMediaTcpConn) : Prop where
  reserved : s.reserved.length ≤ maxReserved
  pending : Pending s.ctx

end SrsGbMediaTcpConn

variable {c : SrsGbMediaTcpConn} {frame : Frame}

theorem length_keepReserved (left : List UInt8) : (keepReserved left).length ≤ maxReserved := by
  unfold keepReserved
  split
  · exact Nat.zero_le _
  · omega

/-- The packet is decoded to the end, to see whether it finds a session. -/
theorem findSession_run (c : SrsGbMediaTcpConn) (hextension : ExtensionFits rtpConfig frame.bytes) :
    ∃ found, findSession frame c = .ok () { c with hasSession := found } := by
  have hreturns : (rtpDecode rtpConfig).Returns ⟨frame.bytes, 0⟩ :=
    (rtpDecode_returns_iff rtpConfig frame.bytes).mpr hextension
  unfold Prog.Returns Prog.Safe at hreturns
  unfold findSession
  by_cases hsession : c.hasSession = true
  · exact ⟨c.hasSession, by rw [if_pos hsession]⟩
  · rw [if_neg hsession]
    cases hrtp : rtpDecode rtpConfig ⟨frame.bytes, 0⟩ with
    | ok rtp b => exact ⟨_, rfl⟩
    | err e b => exact ⟨c.hasSession, rfl⟩
    | fault =>
      rw [hrtp] at hreturns
      exact hreturns.elim
    | hang =>
      rw [hrtp] at hreturns
      exact hreturns.elim

theorem decodeFrame_ends (handler : PsHandler) (hready : c.Ready)
    (hextension : ExtensionFits rtpConfig frame.bytes)
    (hfits : PacketFits handler c.reserved (c.enter frame)) :
    (decodeFrame handler frame).Ends c (fun _ t => t.Ready) (fun _ => True) False := by
  have hends : (decodeRtp handler c.reserved.length).Ends (c.enter frame)
      (fun _ t => Ready t) (fun _ => True) False :=
    decodeRtp_ends handler rfl hready.pending hextension hfits
  unfold Prog.Ends at hends ⊢
  unfold decodeFrame
  cases hrun : decodeRtp handler c.reserved.length (c.enter frame) with
  | ok a t =>
    rw [hrun] at hends
    exact ⟨length_keepReserved _, hends⟩
  | err e t => trivial
  | fault =>
    rw [hrun] at hends
    exact hends
  | hang =>
    rw [hrun] at hends
    exact hends

/-- A round with a packet that fits ends, and a round that goes on is ready for the next one. -/
theorem doCycle_ends (handler : PsHandler) (hready : c.Ready) (hfits : c.Fits handler frame) :
    (doCycle handler frame).Ends c (fun _ t => t.Ready) (fun _ => True) False := by
  refine Prog.Ends.bind_refuse (fun _ => trivial) fun _ => ?_
  have hread : readFully frame c = .ok () c := if_pos hfits.room
  apply Prog.Ends.bind
  refine Prog.ends_of_ok hread ?_
  apply Prog.Ends.ite
  · intro _
    exact Prog.Ends.pure hready
  · intro hrtcp
    have hrtcp : srsIsRtcp frame.bytes = false := Bool.eq_false_iff.mpr hrtcp
    have hextension := hfits.extension hrtcp
    apply Prog.Ends.bind
    obtain ⟨found, hrun⟩ := findSession_run c hextension
    refine Prog.ends_of_ok hrun ?_
    apply Prog.Ends.bind_read
    apply Prog.Ends.ite
    · intro hsession
      exact decodeFrame_ends handler ⟨hready.reserved, hready.pending⟩ hextension
        (hfits.packet hrtcp _ hrun hsession)
    · intro _
      exact Prog.Ends.pure ⟨hready.reserved, hready.pending⟩

/-! ## Runs -/

theorem ready_of_reaches (handler : PsHandler) {s : SrsGbMediaTcpConn}
    (hrun : System.Reaches (SrsGbMediaTcpConn.step handler) (SrsGbMediaTcpConn.Fits handler) .init
      s) : s.Ready := by
  apply hrun.invariant (I := SrsGbMediaTcpConn.Ready)
  · intro s frame t hready hfits hstep
    unfold SrsGbMediaTcpConn.step at hstep
    split at hstep
    · next hok =>
      cases hstep
      exact (doCycle_ends handler hready hfits).ok hok
    · cases hstep
    · cases hstep
    · cases hstep
  · exact ⟨Nat.zero_le _, Or.inl rfl⟩

/-- An RTP header with the ssrc 1. -/
def rtpFront : List UInt8 := [0x80, 0x60, 0x00, 0x01, 0, 0, 0, 0, 0, 0, 0, 1]

/-- A pack header and a video packet with ten bytes of data. -/
def smallPack : List UInt8 :=
  [0x00, 0x00, 0x01, 0xba, 0x44, 0, 0, 0, 0, 0, 0, 0, 0, 0xf8] ++
    [0x00, 0x00, 0x01, 0xe0, 0x00, 0x0d, 0x80, 0x00, 0x00] ++ List.replicate 10 0x55

/-- A packet that finds a session. -/
def frameOf (payload : List UInt8) : Frame := ⟨rtpFront ++ payload, fun ssrc => ssrc = 1⟩

/-- The first packet of a connection, with a message that is complete. -/
theorem smallPack_fits : SrsGbMediaTcpConn.init.Fits (fun _ => none) (frameOf smallPack) := by
  have hrtp : rtpDecode rtpConfig ⟨(frameOf smallPack).bytes, 0⟩ =
      .ok ⟨⟨0, false, 96, 1, 0, 1, [], ⟨false, none, none⟩, 0⟩, 0, .raw smallPack⟩
        ⟨(frameOf smallPack).bytes, 12⟩ := rfl
  have hturns : ∀ n, TurnsFit (fun _ => none) n ⟨.init, ⟨smallPack, 0⟩, []⟩ := by
    intro n
    cases n with
    | zero => trivial
    | succ n =>
      refine Or.inr ⟨?_, fun t ht => ?_⟩
      · rintro ⟨-, -, -, hfaults⟩
        cases hfaults with
        | system h => exact absurd h.code (by decide)
        | pes _ _ h => exact absurd h.extension (by decide)
      · -- the turn takes all bytes
        have hturn : ∃ u, decodeTurn (fun _ => none) ⟨.init, ⟨smallPack, 0⟩, []⟩ = .ok () u ∧
            u.stream.empty = true := ⟨_, rfl, rfl⟩
        obtain ⟨u, hrun, hempty⟩ := hturn
        rw [hrun] at ht
        cases ht
        cases n with
        | zero => trivial
        | succ n =>
          left
          rw [hempty]
          rfl
  refine ⟨by decide, fun _ hlong hx => ?_, fun _ t ht _ rtp b hb => ?_⟩
  · cases hx
  · have hb : rtpDecode rtpConfig ⟨(frameOf smallPack).bytes, 0⟩ = .ok rtp b := hb
    rw [hrtp] at hb
    cases hb
    exact ⟨fun _ => hturns, fun hrecover => absurd rfl hrecover⟩

/-- A system header without any bytes behind its length. -/
def emptySystemHeader : List UInt8 :=
  [0x00, 0x00, 0x01, 0xbb, 0x00, 0x00] ++ List.replicate 27 0xff

/-- The front of a pack header. The bytes are reserved. -/
def packFront : List UInt8 := [0x00, 0x00, 0x01, 0xba]

end SrsChatRoom.App.GbMedia
