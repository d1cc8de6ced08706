import SrsChatRoom.Kernel.PsLayout

/-!
# Decoding a program stream ends

Each turn of the decoder takes at least a byte, and ends without a fault unless it comes to a
system header that is too short, or to a PES header whose pack field goes on behind the buffer
(`TurnOverruns`). Between the turns the message that is kept waits for more bytes, or there is
none.
-/

namespace SrsChatRoom.Kernel.Ps

open SrsChatRoom.Prog (refuse optional zoom modify)
open SrsChatRoom.Kernel.Cursor
open SrsChatRoom.Kernel.Ts (SrsMpegPES SrsTsMessage PesOverruns pesDataPos pes_ends)

variable {bytes : List UInt8} {s : PsDecoder} {F : Prop}

/-! ## Bytes for a message -/

/-- The bytes that the message takes of `left` bytes. -/
def wants (msg : SrsTsMessage) (left : ℕ) : ℕ :=
  if msg.pesPacketLength > 0 then min left (msg.pesPacketLength - msg.payload.length) else left

theorem wants_le (msg : SrsTsMessage) (left : ℕ) : wants msg left ≤ left := by
  unfold wants
  split
  · exact min_le_left _ _
  · exact le_refl _

/-- The message with what it takes of these bytes. -/
def withData (msg : SrsTsMessage) (data : List UInt8) : SrsTsMessage :=
  { msg with payload := msg.payload ++ data.take (wants msg data.length) }

theorem dump_at (msg : SrsTsMessage) {q : ℕ} (hq : q ≤ bytes.length) :
    msg.dump ⟨bytes, q⟩ =
      .ok (withData msg (bytes.drop q)) ⟨bytes, q + wants msg (bytes.drop q).length⟩ := by
  have hlen : (bytes.drop q).length = bytes.length - q := List.length_drop
  have hnb : (if msg.pesPacketLength > 0 then
      min (bytes.length - q : ℤ) (msg.pesPacketLength - msg.payload.length)
      else (bytes.length - q : ℤ)).toNat = wants msg (bytes.drop q).length := by
    rw [hlen, wants]
    split <;> omega
  have hle := wants_le msg (bytes.drop q).length
  have hrun : ∀ nbBytes : ℤ, nbBytes = (if msg.pesPacketLength > 0 then
      min (bytes.length - q : ℤ) (msg.pesPacketLength - msg.payload.length)
      else (bytes.length - q : ℤ)) →
      msg.dump ⟨bytes, q⟩ = (if nbBytes > 0 then do
        Ts.requires nbBytes .pse "ts: dump PSE bytes failed, requires=%dB"
        let data ← Ts.readBytes nbBytes
        return { msg with payload := msg.payload ++ data }
      else return msg : Ts.TsIo SrsTsMessage) ⟨bytes, q⟩ := by
    intro nbBytes h
    rw [h]
    rfl
  generalize (if msg.pesPacketLength > 0 then
      min (bytes.length - q : ℤ) (msg.pesPacketLength - msg.payload.length)
      else (bytes.length - q : ℤ)) = nbBytes at hnb hrun
  rw [hrun nbBytes rfl]
  unfold withData
  rw [← hnb] at hle ⊢
  by_cases hpos : nbBytes > 0
  · have hrequire : (⟨bytes, q⟩ : SrsBuffer).require nbBytes = true := by
      apply decide_eq_true
      unfold SrsBuffer.left
      dsimp only
      omega
    have hcheck : Ts.requires nbBytes .pse "ts: dump PSE bytes failed, requires=%dB" ⟨bytes, q⟩ =
        .ok () ⟨bytes, q⟩ := if_pos hrequire
    have hread : Ts.readBytes nbBytes ⟨bytes, q⟩ =
        .ok ((bytes.drop q).take nbBytes.toNat) ⟨bytes, q + nbBytes.toNat⟩ := by
      unfold Ts.readBytes Ts.access SrsBuffer.readBytes
      rw [if_pos hrequire]
      rfl
    rw [if_pos hpos, Prog.bind_ok hcheck, Prog.bind_ok hread]
    rfl
  · have hzero : nbBytes.toNat = 0 := by omega
    rw [if_neg hpos, hzero, List.take_zero, List.append_nil]
    rfl

/-- The state after `dumpLast`. -/
def PsDecoder.dumped (s : PsDecoder) : PsDecoder :=
  { s with
    ctx := s.ctx.setLast (withData s.ctx.last s.stream.rest)
    stream := s.stream.advance (wants s.ctx.last s.stream.rest.length) }

theorem dumpLast_run (hin : Within bytes s.stream) : dumpLast s = .ok () s.dumped := by
  have hdump : s.ctx.last.dump s.stream = .ok (withData s.ctx.last s.stream.rest)
      (s.stream.advance (wants s.ctx.last s.stream.rest.length)) :=
    dump_at s.ctx.last (hin.1 ▸ hin.2)
  have hstream : onStream (Prog.wrap (PsError.wrap "dump pes")
      (s.ctx.last.dump.mapErr PsError.ofTs)) s = .ok (withData s.ctx.last s.stream.rest)
        { s with stream := s.stream.advance (wants s.ctx.last s.stream.rest.length) } := by
    unfold onStream zoom Prog.wrap Prog.mapErr
    rw [hdump]
  unfold dumpLast
  rw [Prog.bind_ok (show lastMessage s = .ok s.ctx.last s from rfl), Prog.bind_ok hstream]
  rfl

/-- The message is complete, or it has taken all bytes and wants more. -/
def Taken (bytes : List UInt8) (t : PsDecoder) : Prop :=
  t.ctx.last.completed true = true ∨
    (t.ctx.last.payload.length < t.ctx.last.pesPacketLength ∧ t.stream.pos = bytes.length)

variable {msg : SrsTsMessage}

theorem completed_of_zero (h : msg.pesPacketLength = 0) : msg.completed true = true := by
  rw [SrsTsMessage.completed, if_pos h]

theorem completed_iff (h : 0 < msg.pesPacketLength) :
    msg.completed true = true ↔ msg.pesPacketLength ≤ msg.payload.length := by
  rw [SrsTsMessage.completed, if_neg h.ne', decide_eq_true_iff]

theorem taken_dumped (hin : Within bytes s.stream)
    (hless : s.ctx.last.payload.length ≤ s.ctx.last.pesPacketLength ∨
      s.ctx.last.pesPacketLength = 0) : Taken bytes s.dumped := by
  have hrest : s.stream.rest.length = bytes.length - s.stream.pos := by
    rw [SrsBuffer.length_rest, hin.1]
  have hpos := hin.2
  by_cases hzero : s.ctx.last.pesPacketLength = 0
  · exact Or.inl (completed_of_zero hzero)
  · have hpositive : 0 < s.ctx.last.pesPacketLength := Nat.pos_of_ne_zero hzero
    have hless := hless.resolve_right hzero
    have hwants : wants s.ctx.last s.stream.rest.length =
        min s.stream.rest.length (s.ctx.last.pesPacketLength - s.ctx.last.payload.length) :=
      if_pos hpositive
    have hpayload : s.dumped.ctx.last.payload.length =
        s.ctx.last.payload.length + wants s.ctx.last s.stream.rest.length := by
      show (s.ctx.last.payload ++ _).length = _
      rw [List.length_append, List.length_take]
      have hle := wants_le s.ctx.last s.stream.rest.length
      omega
    have hlength : s.dumped.ctx.last.pesPacketLength = s.ctx.last.pesPacketLength := rfl
    have hhead : s.dumped.stream.pos =
        s.stream.pos + wants s.ctx.last s.stream.rest.length := rfl
    by_cases henough : s.ctx.last.pesPacketLength - s.ctx.last.payload.length ≤
        s.stream.rest.length
    · left
      rw [completed_iff (by omega), hpayload, hlength, hwants, min_eq_right henough]
      omega
    · right
      rw [hpayload, hlength, hhead, hwants, min_eq_left (by omega)]
      omega

theorem within_dumped (hin : Within bytes s.stream) : Within bytes s.dumped.stream := by
  have hle := wants_le s.ctx.last s.stream.rest.length
  have hrest : s.stream.rest.length = bytes.length - s.stream.pos := by
    rw [SrsBuffer.length_rest, hin.1]
  have hpos := hin.2
  refine ⟨hin.1, ?_⟩
  show s.stream.pos + wants s.ctx.last s.stream.rest.length ≤ bytes.length
  omega

/-! ## Programs on the buffer -/

theorem onStream_ends {α : Type} {x : PsIo α} {Q : α → ℕ → Prop}
    (h : EndsAt x bytes s.stream.pos Q F) (hin : Within bytes s.stream) :
    (onStream x).Ends s
      (fun a t => ∃ q ≤ bytes.length, t = { s with stream := ⟨bytes, q⟩ } ∧ Q a q)
      (fun t => Within bytes t.stream) F := by
  have hstream : s.stream = ⟨bytes, s.stream.pos⟩ := by
    rw [← hin.1]
  apply Prog.Ends.zoom
  rw [hstream]
  refine (h hin.2).mono ?_ (fun _ he => he) (fun hf => hf)
  intro a b hb
  refine ⟨b.pos, hb.1.2, ?_, hb.2⟩
  rw [← hb.1.1]

/-! ## A PES packet -/

theorem start_payload (msg : SrsTsMessage) (pes : SrsMpegPES) :
    (msg.start pes).payload = msg.payload := by
  unfold SrsTsMessage.start
  dsimp only
  split <;> split <;> rfl

theorem start_length (msg : SrsTsMessage) (pes : SrsMpegPES) :
    (msg.start pes).pesPacketLength =
      if pes.hasPayload then pes.nbPayload else msg.pesPacketLength := by
  unfold SrsTsMessage.start
  dsimp only
  split <;> split <;> rfl

/-- A PES packet has a header. -/
theorem lt_pesDataPos (bytes : List UInt8) (p : ℕ) : p < pesDataPos bytes p := by
  unfold pesDataPos
  split <;> omega

theorem fresh_iff : msg.fresh = true ↔ msg.pesPacketLength = 0 ∧ msg.payload = [] := by
  rw [SrsTsMessage.fresh, decide_eq_true_iff, List.length_eq_zero_iff]

/-- The first packet of a message. -/
theorem pesPacket_ends (hin : Within bytes s.stream) (hlt : s.stream.pos + 4 ≤ bytes.length)
    (hfresh : s.ctx.last.fresh = true) :
    pesPacket.Ends s
      (fun _ t => Within bytes t.stream ∧ s.stream.pos < t.stream.pos ∧
        t.ctx.hasPack = s.ctx.hasPack ∧ Taken bytes t)
      (fun t => Within bytes t.stream) (PesOverruns bytes s.stream.pos) := by
  have hzero := (fresh_iff.mp hfresh).1
  have hempty := (fresh_iff.mp hfresh).2
  apply Prog.Ends.bind
  refine (onStream_ends ((pes_ends.mapErr PsError.ofTs).wrap _) hin).mono ?_ (fun _ he => he)
    fun hf => hf
  rintro pes t ⟨q, hq, rfl, hpayload, hnone⟩
  apply Prog.Ends.bind_read
  refine Prog.Ends.bind_refuse (fun _ => ⟨rfl, hq⟩) fun _ => ?_
  apply Prog.Ends.bind_modify
  apply Prog.Ends.optional
  · intro hhas
    have hpos : s.stream.pos < q := by
      rw [hpayload hhas]
      exact lt_pesDataPos bytes s.stream.pos
    set u : PsDecoder := { s with
      ctx := s.ctx.setLast (s.ctx.last.start pes), stream := ⟨bytes, q⟩ } with hu
    have huin : Within bytes u.stream := ⟨rfl, hq⟩
    refine Prog.ends_of_ok (dumpLast_run huin) ⟨within_dumped huin, ?_, rfl, ?_⟩
    · exact Nat.lt_of_lt_of_le hpos (Nat.le_add_right _ _)
    · apply taken_dumped huin
      show (s.ctx.last.start pes).payload.length ≤ (s.ctx.last.start pes).pesPacketLength ∨ _
      rw [start_payload, hempty]
      exact Or.inl (Nat.zero_le _)
  · intro hhas
    refine ⟨⟨rfl, hq⟩, ?_, rfl, Or.inl (completed_of_zero ?_)⟩
    · rw [(hnone hhas).1]
      show s.stream.pos < bytes.length
      omega
    · show (s.ctx.last.start pes).pesPacketLength = 0
      rw [start_length, hhas]
      exact hzero

/-- The packets behind the headers, from a state without a message: there is one at most. -/
theorem pesPackets_ends (fuel : ℕ) (hin : Within bytes s.stream)
    (hfresh : s.ctx.last.fresh = true) :
    (pesPackets (fuel + 2)).Ends s
      (fun _ t => Within bytes t.stream ∧ s.stream.pos ≤ t.stream.pos ∧
        (isPesCode (uintAt bytes s.stream.pos 4) = true → s.stream.pos < t.stream.pos) ∧
        t.ctx.hasPack = s.ctx.hasPack ∧ Taken bytes t)
      (fun t => Within bytes t.stream)
      (isPesCode (uintAt bytes s.stream.pos 4) = true ∧ PesOverruns bytes s.stream.pos) := by
  have hnothing : Taken bytes s := Or.inl (completed_of_zero (fresh_iff.mp hfresh).1)
  apply Prog.Ends.bind_read
  apply Prog.Ends.ite
  · intro hempty
    have hend : s.stream.pos = bytes.length := by
      have hend : s.stream.bytes.length ≤ s.stream.pos := of_decide_eq_true hempty
      rw [hin.1] at hend
      exact le_antisymm hin.2 hend
    refine Prog.Ends.pure ⟨hin, le_refl _, fun hpes => ?_, rfl, hnothing⟩
    rw [hend, uintAt_end] at hpes
    cases hpes
  · intro _
    apply Prog.Ends.bind
    refine (onStream_ends (endsAt_requires (Q := fun _ q => q = s.stream.pos ∧
      s.stream.pos + 4 ≤ bytes.length) fun _ hfour => ⟨rfl, by omega⟩) hin).mono ?_
      (fun _ he => he) fun hf => hf
    rintro _ t ⟨q, _, rfl, rfl, hfour⟩
    have hsame : { s with stream := ⟨bytes, s.stream.pos⟩ } = s := by
      rw [← hin.1]
    rw [hsame]
    apply Prog.Ends.bind_read
    have hcode : headCode s.stream = uintAt bytes s.stream.pos 4 := by
      rw [headCode, hin.1]
    rw [hcode]
    apply Prog.Ends.ite
    · intro hpes
      apply Prog.Ends.bind
      refine (pesPacket_ends hin hfour hfresh).mono ?_ (fun _ he => he) fun hf => ⟨hpes, hf⟩
      rintro _ t ⟨htin, hlt, hpack, htaken⟩
      apply Prog.Ends.bind_read
      apply Prog.Ends.ite
      · intro _
        exact Prog.Ends.pure ⟨htin, hlt.le, fun _ => hlt, hpack, htaken⟩
      · intro hmore
        -- the message has taken all bytes
        have hend : t.stream.pos = bytes.length := (htaken.resolve_left hmore).2
        have hempty : t.stream.empty = true := by
          apply decide_eq_true
          rw [htin.1, hend]
        apply Prog.Ends.bind_read
        rw [if_pos hempty]
        exact Prog.Ends.pure ⟨htin, hlt.le, fun _ => hlt, hpack, htaken⟩
    · intro hother
      exact Prog.Ends.pure ⟨hin, le_refl _, fun hpes => absurd hpes hother, rfl, hnothing⟩

/-! ## A turn -/

/-- A start code that is not one of the two headers is one of a PES packet. -/
theorem isPesCode_of_prefix {p : ℕ} (hfour : p + 4 ≤ bytes.length) (hstart : uintAt bytes p 3 = 1)
    (hpack : uintAt bytes p 4 ≠ packStartCode) (hsystem : uintAt bytes p 4 ≠ systemStartCode) :
    isPesCode (uintAt bytes p 4) = true := by
  have hadd : uintAt bytes p 4 = uintAt bytes p 3 * 256 ^ 1 + uintAt bytes (p + 3) 1 :=
    @uintAt_add bytes p 3 1 hfour
  have hlt := uintAt_lt bytes (p + 3) 1
  refine decide_eq_true ⟨?_, hpack, hsystem⟩
  rw [hadd, hstart]
  omega

/-- The headers take bytes, or there is none of them. -/
theorem headersEnd_cases (bytes : List UInt8) (p : ℕ) : p < headersEnd bytes p ∨
    (headersEnd bytes p = p ∧ uintAt bytes p 4 ≠ packStartCode ∧
      uintAt bytes p 4 ≠ systemStartCode) := by
  by_cases hpack : uintAt bytes p 4 = packStartCode
  · have hle : packsEnd bytes p ≤ headersEnd bytes p := by
      unfold headersEnd systemEnd
      split <;> omega
    have hend : packsEnd bytes p = packHeaderEnd bytes p := if_pos hpack
    unfold packHeaderEnd at hend
    omega
  · have hend : packsEnd bytes p = p := if_neg hpack
    unfold headersEnd
    rw [hend]
    by_cases hsystem : uintAt bytes p 4 = systemStartCode
    · rw [if_pos hsystem]
      unfold systemEnd
      omega
    · rw [if_neg hsystem]
      exact Or.inr ⟨rfl, hpack, hsystem⟩

/-- The pack at `p` goes by a length that is not that of what is there: the system header is too
short for its fields, or the pack field of the PES header behind the headers goes on behind the
buffer. -/
inductive PackFaults (bytes : List UInt8) (p : ℕ) : Prop
  | system (h : SystemOverruns bytes (packsEnd bytes p))
  | pes (headers : HeadersRead bytes p)
      (code : isPesCode (uintAt bytes (headersEnd bytes p) 4) = true)
      (h : PesOverruns bytes (headersEnd bytes p))

theorem packet_ends (hin : Within bytes s.stream) (hfresh : s.ctx.last.fresh = true)
    (hfour : s.stream.pos + 4 ≤ bytes.length) (hstart : uintAt bytes s.stream.pos 3 = 1) :
    SrsPsPacket.decode.Ends s
      (fun _ t => Within bytes t.stream ∧ s.stream.pos < t.stream.pos ∧
        t.ctx.hasPack = s.ctx.hasPack ∧ Taken bytes t)
      (fun t => Within bytes t.stream) (PackFaults bytes s.stream.pos) := by
  apply Prog.Ends.bind
  refine (onStream_ends decodeHeaders_ends hin).mono ?_ (fun _ he => he) fun hf => .system hf
  rintro _ t ⟨q, hq, rfl, rfl, hread⟩
  apply Prog.Ends.bind_read
  have hfuel : ∃ fuel, bytes.length + 1 = fuel + 2 := ⟨bytes.length - 1, by omega⟩
  obtain ⟨fuel, hfuel⟩ := hfuel
  show (pesPackets (bytes.length + 1)).Ends _ _ _ _
  rw [hfuel]
  set u : PsDecoder := { s with stream := ⟨bytes, headersEnd bytes s.stream.pos⟩ }
  have huin : Within bytes u.stream := ⟨rfl, hq⟩
  refine (pesPackets_ends fuel huin hfresh).mono ?_ (fun _ he => he) fun hf =>
    PackFaults.pes hread hf.1 hf.2
  rintro _ v ⟨hvin, hle, hpes, hpack, htaken⟩
  refine ⟨hvin, ?_, hpack, htaken⟩
  have hle : headersEnd bytes s.stream.pos ≤ v.stream.pos := hle
  have hpes : isPesCode (uintAt bytes (headersEnd bytes s.stream.pos) 4) = true →
    headersEnd bytes s.stream.pos < v.stream.pos := hpes
  rcases headersEnd_cases bytes s.stream.pos with hlt | ⟨hend, hnopack, hnosystem⟩
  · exact lt_of_lt_of_le hlt hle
  · have hcode := isPesCode_of_prefix hfour hstart hnopack hnosystem
    rw [hend] at hpes
    exact hpes hcode

/-- Between two turns the message that is kept waits for more bytes, and there is a pack. -/
def Pending (ctx : PsContext) : Prop :=
  ctx.last.fresh = true ∨
    (ctx.last.payload.length < ctx.last.pesPacketLength ∧ ctx.hasPack = true)

/-- The turn comes to a pack that faults. -/
def TurnFaults (s : PsDecoder) : Prop :=
  s.ctx.last.fresh = true ∧ s.stream.pos + 4 ≤ s.stream.bytes.length ∧
    uintAt s.stream.bytes s.stream.pos 3 = 1 ∧ PackFaults s.stream.bytes s.stream.pos

theorem decodeFresh_ends (hin : Within bytes s.stream) (hfresh : s.ctx.last.fresh = true) :
    decodeFresh.Ends s
      (fun _ t => Within bytes t.stream ∧ s.stream.pos < t.stream.pos ∧
        t.ctx.hasPack = true ∧ Taken bytes t)
      (fun t => Within bytes t.stream) (TurnFaults s) := by
  have hsame : { s with stream := ⟨bytes, s.stream.pos⟩ } = s := by
    rw [← hin.1]
  apply Prog.Ends.bind
  refine (onStream_ends (endsAt_requires (Q := fun _ q => q = s.stream.pos ∧
    s.stream.pos + 4 ≤ bytes.length) fun _ hfour => ⟨rfl, by omega⟩) hin).mono ?_
    (fun _ he => he) fun hf => hf
  rintro _ t ⟨q, _, rfl, rfl, hfour⟩
  rw [hsame]
  apply Prog.Ends.bind_read
  refine Prog.Ends.bind_refuse (fun _ => hin) fun hfound => ?_
  have hstart : uintAt bytes s.stream.pos 3 = 1 := by
    rw [← hin.1]
    exact of_decide_eq_true (Bool.not_eq_false _ ▸ hfound)
  apply Prog.Ends.bind_modify
  set u : PsDecoder := { s with ctx := { s.ctx with hasPack := true } }
  have hends : SrsPsPacket.decode.Ends u _ _ _ := packet_ends hin hfresh hfour hstart
  have hfaults : PackFaults bytes s.stream.pos → TurnFaults s := by
    intro hf
    unfold TurnFaults
    rw [hin.1]
    exact ⟨hfresh, hfour, hstart, hf⟩
  unfold Prog.Ends at hends ⊢
  unfold rewinding
  cases hrun : SrsPsPacket.decode u with
  | ok a t =>
    rw [hrun] at hends
    exact hends
  | err e t =>
    rw [hrun] at hends
    exact ⟨hends.1, hin.2⟩
  | fault =>
    rw [hrun] at hends
    exact hfaults hends
  | hang =>
    rw [hrun] at hends
    exact hends

/-- A part of the message, or a pack. -/
theorem doDecode_ends (hin : Within bytes s.stream) (hlt : s.stream.pos < bytes.length)
    (hpending : Pending s.ctx) :
    doDecode.Ends s
      (fun _ t => Within bytes t.stream ∧ s.stream.pos < t.stream.pos ∧
        t.ctx.hasPack = true ∧ Taken bytes t)
      (fun t => Within bytes t.stream) (TurnFaults s) := by
  apply Prog.Ends.bind_read
  apply Prog.Ends.ite
  · intro hfresh
    exact decodeFresh_ends hin hfresh
  · intro hfresh
    have hwaits := hpending.resolve_left hfresh
    have hrest : s.stream.rest.length = bytes.length - s.stream.pos := by
      rw [SrsBuffer.length_rest, hin.1]
    have hwants : wants s.ctx.last s.stream.rest.length =
        min s.stream.rest.length (s.ctx.last.pesPacketLength - s.ctx.last.payload.length) :=
      if_pos (by omega)
    refine Prog.ends_of_ok (dumpLast_run hin) ⟨within_dumped hin, ?_, hwaits.2, ?_⟩
    · show s.stream.pos < s.stream.pos + wants s.ctx.last s.stream.rest.length
      omega
    · exact taken_dumped hin (Or.inl hwaits.1.le)

theorem psmMessage_ends (msg : SrsTsMessage) (hin : Within bytes s.stream) :
    (psmMessage msg).Ends s
      (fun _ t => t.stream = s.stream ∧ t.ctx.last = s.ctx.last ∧ t.ctx.hasPack = s.ctx.hasPack)
      (fun t => Within bytes t.stream) F := by
  refine Prog.Ends.bind_refuse (fun _ => hin) fun _ => ?_
  apply Prog.Ends.bind
  apply Prog.Ends.wrap
  refine (onStream_ends (endsAt_onBuffer (Q := fun _ q => q = s.stream.pos)
    (psm_ends.mono (fun _ _ _ _ => rfl) fun hf => hf)) hin).mono ?_ (fun _ he => he) fun hf => hf
  rintro psm t ⟨q, _, rfl, rfl⟩
  apply Prog.Ends.modify
  refine ⟨?_, rfl, rfl⟩
  rw [← hin.1]

theorem onTsMessage_ends (handler : PsHandler) (msg : SrsTsMessage) (hin : Within bytes s.stream)
    (hpack : s.ctx.hasPack = true) :
    (onTsMessage handler msg).Ends s
      (fun _ t => t.stream = s.stream ∧ t.ctx.last = s.ctx.last ∧ t.ctx.hasPack = s.ctx.hasPack)
      (fun t => Within bytes t.stream) F := by
  apply Prog.Ends.bind_read
  apply Prog.Ends.bind
  apply Prog.Ends.optional
  · intro hnone
    rw [hpack] at hnone
    cases hnone
  · intro _
    apply Prog.Ends.bind_modify
    apply Prog.Ends.bind_read
    dsimp only
    split
    · exact Prog.Ends.throw hin
    · exact Prog.Ends.pure ⟨rfl, rfl, rfl⟩

theorem useMessage_ends (handler : PsHandler) (msg : SrsTsMessage) (hin : Within bytes s.stream)
    (hpack : s.ctx.hasPack = true) :
    (useMessage handler msg).Ends s
      (fun _ t => t.stream = s.stream ∧ t.ctx.last = s.ctx.last ∧ t.ctx.hasPack = s.ctx.hasPack)
      (fun t => Within bytes t.stream) F := by
  apply Prog.Ends.ite
  · intro _
    exact psmMessage_ends msg hin
  · intro _
    apply Prog.Ends.ite
    · intro _
      exact onTsMessage_ends handler msg hin hpack
    · intro _
      exact Prog.Ends.pure ⟨rfl, rfl, rfl⟩

/-- A turn takes a byte at least. -/
theorem decodeTurn_ends (handler : PsHandler) (hin : Within bytes s.stream)
    (hlt : s.stream.pos < bytes.length) (hpending : Pending s.ctx) :
    (decodeTurn handler).Ends s
      (fun _ t => Within bytes t.stream ∧ s.stream.pos < t.stream.pos ∧ Pending t.ctx)
      (fun t => Within bytes t.stream) (TurnFaults s) := by
  apply Prog.Ends.bind
  refine (Prog.Ends.wrap (doDecode_ends hin hlt hpending)).mono ?_ (fun _ he => he) fun hf => hf
  rintro _ t ⟨htin, htlt, hpack, htaken⟩
  apply Prog.Ends.bind_read
  apply Prog.Ends.ite
  · intro _
    apply Prog.Ends.bind_modify
    set u : PsDecoder := { t with ctx := t.ctx.setLast .init }
    have huse : (useMessage handler t.ctx.last).Ends u _ _ _ :=
      @useMessage_ends bytes u (TurnFaults s) handler t.ctx.last htin hpack
    refine huse.mono ?_ (fun _ he => he) fun hf => hf
    rintro _ v ⟨hstream, hlast, _⟩
    rw [hstream]
    refine ⟨htin, htlt, Or.inl ?_⟩
    rw [hlast]
    rfl
  · intro hmore
    exact Prog.Ends.pure ⟨htin, htlt, Or.inr ⟨(htaken.resolve_left hmore).1, hpack⟩⟩

/-! ## The loop -/

/-- None of the next `n` turns of the loop comes to a pack that faults. -/
def TurnsFit (handler : PsHandler) : ℕ → PsDecoder → Prop
  | 0, _ => True
  | n + 1, s => (s.stream.empty || stopsHere s) = true ∨
    ¬ TurnFaults s ∧ ∀ t, decodeTurn handler s = .ok () t → TurnsFit handler n t

/-- The loop ends, with a message that waits for more bytes or without one. -/
theorem decodeLoop_ends (handler : PsHandler) (fuel : ℕ) (hin : Within bytes s.stream)
    (hpending : Pending s.ctx) (hfuel : bytes.length - s.stream.pos < fuel)
    (hfits : ∀ n, TurnsFit handler n s) :
    (decodeLoop handler fuel).Ends s (fun _ t => Within bytes t.stream ∧ Pending t.ctx)
      (fun t => Within bytes t.stream) False := by
  induction fuel generalizing s with
  | zero => omega
  | succ fuel ih =>
    apply Prog.Ends.bind_read
    apply Prog.Ends.ite
    · intro _
      exact Prog.Ends.pure ⟨hin, hpending⟩
    · intro hmore
      have hlt : s.stream.pos < bytes.length := by
        by_contra hle
        apply hmore
        have hempty : s.stream.empty = true := by
          apply decide_eq_true
          rw [hin.1]
          exact not_lt.mp hle
        rw [hempty]
        rfl
      have hfit : ∀ n, ¬ TurnFaults s ∧
          ∀ t, decodeTurn handler s = .ok () t → TurnsFit handler n t := fun n =>
        (hfits (n + 1)).resolve_left hmore
      have hends := decodeTurn_ends handler hin hlt hpending
      apply Prog.Ends.bind
      cases hrun : decodeTurn handler s with
      | ok a t =>
        have ht := hends.ok hrun
        refine Prog.ends_of_ok hrun ?_
        exact ih ht.1 ht.2.2 (by omega) fun n => (hfit n).2 t hrun
      | err e t =>
        unfold Prog.Ends
        rw [hrun]
        exact hends.err hrun
      | fault =>
        exfalso
        unfold Prog.Ends at hends
        rw [hrun] at hends
        exact (hfit 0).1 hends
      | hang =>
        unfold Prog.Ends at hends
        rw [hrun] at hends
        exact hends.elim

theorem context_ends (handler : PsHandler) (hin : Within bytes s.stream)
    (hpending : Pending s.ctx) (hfits : ∀ n, TurnsFit handler n s) :
    (SrsPsContext.decode handler).Ends s (fun _ t => Within bytes t.stream ∧ Pending t.ctx)
      (fun t => Within bytes t.stream) False := by
  apply Prog.Ends.bind_read
  refine decodeLoop_ends handler _ hin hpending ?_ hfits
  rw [hin.1]
  omega

end SrsChatRoom.Kernel.Ps
