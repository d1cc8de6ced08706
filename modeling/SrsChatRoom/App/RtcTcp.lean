import SrsChatRoom.Lib.Dict
import SrsChatRoom.Lib.Framing
import SrsChatRoom.Lib.System

/-!
# RTC over TCP (`srs_app_rtc_network.cpp`)

A packet is sent by two writes to the socket, one for its length and one for its bytes. A write
to a socket may take several turns: it hands over what the socket takes and yields, and another
coroutine that has called `write` goes on in between. Nothing keeps a second call out while a
first one is between its bytes.

The peer reads a length and as many bytes. It gets the packets only if each frame is in one piece.
-/

namespace SrsChatRoom.App.RtcTcp

open SrsChatRoom.Framing

/-! ## The writer -/

/-- Which of the two writes a call is in. -/
inductive Stage
  | len
  | body
deriving DecidableEq, Repr

/-- A call of `SrsRtcTcpNetwork::write`: its packet, and the bytes that its current write to the
socket still has to hand over. -/
structure WriteCall where
  buf : List UInt8
  stage : Stage
  pending : List UInt8
deriving DecidableEq, Repr

/-- The bytes on the socket, the calls that have not returned by coroutine, and the packets of the
calls that have returned successfully. -/
structure RtcTcp where
  stream : List UInt8
  calls : Dict ℕ WriteCall
  sent : List (List UInt8)

def RtcTcp.init : RtcTcp := ⟨[], .empty, []⟩

/-- `uint8_t b[2] = {uint8_t(size>>8), uint8_t(size)}` -/
def lengthBytes (size : ℕ) : List UInt8 := [UInt8.ofNat (size / 256), UInt8.ofNat size]

/-- A coroutine calls `write`, or a call goes on: the socket takes `n` bytes more of its current
write, or refuses the write with an error. -/
inductive Action
  | call (coroutine : ℕ) (buf : List UInt8)
  | taken (coroutine n : ℕ)
  | failed (coroutine : ℕ)

/-- `SrsRtcTcpNetwork::write` up to its first write. A larger size fails its assertion. -/
def begin (s : RtcTcp) (coroutine : ℕ) (buf : List UInt8) : Option RtcTcp :=
  if s.calls.get? coroutine = none ∧ buf.length ≤ 65535 then
    some { s with calls := s.calls.set coroutine ⟨buf, .len, lengthBytes buf.length⟩ }
  else none

/-- What follows when the current write has handed over its last byte. A write of no bytes at all
is taken for an error of the socket. -/
def writeDone (s : RtcTcp) (coroutine : ℕ) (w : WriteCall) : RtcTcp :=
  match w.stage with
  | .len =>
    if w.buf = [] then { s with calls := s.calls.erase coroutine }
    else { s with calls := s.calls.set coroutine ⟨w.buf, .body, w.buf⟩ }
  | .body => { s with calls := s.calls.erase coroutine, sent := s.sent ++ [w.buf] }

/-- The socket takes `n` bytes of the current write of a call. -/
def take (s : RtcTcp) (coroutine n : ℕ) (w : WriteCall) : Option RtcTcp :=
  if 0 < n ∧ n ≤ w.pending.length then
    let s := { s with stream := s.stream ++ w.pending.take n }
    if w.pending.drop n = [] then some (writeDone s coroutine w)
    else some { s with calls := s.calls.set coroutine { w with pending := w.pending.drop n } }
  else none

/-- One step of one coroutine. -/
def step (s : RtcTcp) : Action → Option RtcTcp
  | .call coroutine buf => begin s coroutine buf
  | .taken coroutine n => (s.calls.get? coroutine).bind (take s coroutine n)
  | .failed coroutine =>
    (s.calls.get? coroutine).map fun _ => { s with calls := s.calls.erase coroutine }

/-! ## The reader -/

/-- The errors of `read_packet`. -/
inductive ReadError
  | readLen
  | invalidSize (npkt nbPkt : ℕ)
  | readBody
deriving DecidableEq, Repr

/-- `SrsRtcTcpConn::read_packet` with a buffer of `nb_pkt` bytes, on a stream that ends behind its
bytes. The packet, and the stream behind it. -/
def readPacket (nbPkt : ℕ) (stream : List UInt8) : Except ReadError (List UInt8 × List UInt8) :=
  match readFully 2 stream with
  | none => .error .readLen
  | some (b, rest) =>
    let npkt := ofBytesBE b
    if npkt > nbPkt then .error (.invalidSize npkt nbPkt)
    else match readFully npkt rest with
      | none => .error .readBody
      | some (pkt, rest) => .ok (pkt, rest)

/-- The packets of repeated calls, until one returns an error. -/
def readPackets (nbPkt : ℕ) : ℕ → List UInt8 → List (List UInt8)
  | 0, _ => []
  | fuel + 1, stream =>
    match readPacket nbPkt stream with
    | .error _ => []
    | .ok (pkt, rest) => pkt :: readPackets nbPkt fuel rest

variable {nbPkt : ℕ}

/-- A frame at the front of the stream is read as its packet. -/
theorem readPacket_frame {packet : List UInt8} (hsize : packet.length ≤ 65535)
    (hfits : packet.length ≤ nbPkt) (rest : List UInt8) :
    readPacket nbPkt (frame packet ++ rest) = .ok (packet, rest) := by
  have hlen : readFully 2 (frame packet ++ rest) =
      some (bytesBE 2 packet.length, packet ++ rest) := by
    have happend := readFully_append (bytesBE 2 packet.length) (packet ++ rest)
    rw [length_bytesBE] at happend
    rw [frame, List.append_assoc]
    exact happend
  rw [readPacket, hlen]
  dsimp only
  rw [ofBytesBE_length hsize, if_neg (not_lt.mpr hfits), readFully_append]

/-- Nothing is read from a stream that ends inside a frame. -/
theorem readPacket_part {packet part more : List UInt8}
    (hsize : packet.length ≤ 65535) (hframe : part ++ more = frame packet) (hmore : more ≠ []) :
    ∃ e, readPacket nbPkt part = .error e := by
  have hlength : part.length + more.length = 2 + packet.length := by
    have happend := congrArg List.length hframe
    rwa [List.length_append, frame, List.length_append, length_bytesBE] at happend
  have hmorePos : 0 < more.length := List.length_pos_of_ne_nil hmore
  by_cases hshort : part.length < 2
  · exact ⟨.readLen, by rw [readPacket, readFully_short hshort]⟩
  · -- the length is there, and too few bytes behind it
    have htake : part.take 2 = bytesBE 2 packet.length := by
      have happend := congrArg (List.take 2) hframe
      rwa [List.take_append_of_le_length (not_lt.mp hshort), frame,
        List.take_left' (length_bytesBE 2 packet.length)] at happend
    have hdrop : (part.drop 2).length < packet.length := by
      rw [List.length_drop]
      omega
    rw [readPacket, readFully, if_pos (not_lt.mp hshort), htake]
    dsimp only
    rw [ofBytesBE_length hsize, readFully_short hdrop]
    split
    · exact ⟨_, rfl⟩
    · exact ⟨_, rfl⟩

/-- The packets in complete frames are read, and nothing behind them. -/
theorem readPackets_frames {packets : List (List UInt8)} {part : List UInt8}
    (hsize : ∀ p ∈ packets, p.length ≤ 65535) (hfits : ∀ p ∈ packets, p.length ≤ nbPkt)
    (hpart : ∃ e, readPacket nbPkt part = .error e) {fuel : ℕ} (hfuel : packets.length ≤ fuel) :
    readPackets nbPkt fuel (frames packets ++ part) = packets := by
  induction packets generalizing fuel with
  | nil =>
    cases fuel with
    | zero => rfl
    | succ fuel =>
      obtain ⟨e, he⟩ := hpart
      rw [frames_nil, List.nil_append, readPackets, he]
  | cons packet packets ih =>
    rw [List.length_cons] at hfuel
    obtain ⟨more, rfl⟩ : ∃ more, fuel = more + 1 := ⟨fuel - 1, by omega⟩
    have hhead : packet ∈ packet :: packets := List.mem_cons_self
    rw [frames_cons, List.append_assoc, readPackets,
      readPacket_frame (hsize packet hhead) (hfits packet hhead)]
    dsimp only
    rw [ih (fun p hp => hsize p (List.mem_cons_of_mem packet hp))
      (fun p hp => hfits p (List.mem_cons_of_mem packet hp)) (by omega)]

/-! ## Frames in one piece -/

/-- The bytes of its frame that a call has not handed over yet. -/
def WriteCall.remaining (w : WriteCall) : List UInt8 :=
  match w.stage with
  | .len => w.pending ++ w.buf
  | .body => w.pending

/-- The call has handed over some bytes of its frame. -/
def WriteCall.begun (w : WriteCall) : Bool := w.stage = .body ∨ w.pending.length < 2

/-- Packets are not empty, a call hands over bytes only while no other call is between its own,
and a write fails only before the first byte of its frame. -/
def OneAtATime (s : RtcTcp) : Action → Prop
  | .call _ buf => buf ≠ []
  | .taken coroutine _ => ∀ e ∈ s.calls.entries, e.2.begun = true → e.1 = coroutine
  | .failed coroutine => ∀ e ∈ s.calls.entries, e.1 = coroutine → e.2.begun = false

instance (s : RtcTcp) (a : Action) : Decidable (OneAtATime s a) := by
  cases a <;> unfold OneAtATime <;> infer_instance

/-- What holds of a call that has not returned. -/
structure WriteCall.Valid (w : WriteCall) : Prop where
  nonempty : w.buf ≠ []
  size : w.buf.length ≤ 65535
  more : w.pending ≠ []
  short : w.stage = .len → w.pending.length ≤ 2
  whole : w.begun = false → w.remaining = frame w.buf

/-- The stream ends behind a frame, or inside the frame of the one call that has begun its own. -/
inductive Ends (s : RtcTcp) (part : List UInt8) : Prop
  | between (empty : part = [])
      (none : ∀ c w, s.calls.get? c = some w → w.begun = false)
  | inside (c : ℕ) (w : WriteCall) (call : s.calls.get? c = some w) (begun : w.begun = true)
      (frame : part ++ w.remaining = frame w.buf)
      (only : ∀ c' w', s.calls.get? c' = some w' → w'.begun = true → c' = c)

structure Inv (s : RtcTcp) : Prop where
  valid : ∀ c w, s.calls.get? c = some w → w.Valid
  sizes : ∀ p ∈ s.sent, p.length ≤ 65535
  framed : ∃ part, s.stream = frames s.sent ++ part ∧ Ends s part

theorem inv_init : Inv RtcTcp.init := by
  refine ⟨?_, ?_, [], rfl, .between rfl ?_⟩
  · intro c w h
    cases h
  · intro p h
    cases h
  · intro c w h
    cases h

variable {w : WriteCall}

theorem WriteCall.Valid.remaining_ne (h : w.Valid) : w.remaining ≠ [] := by
  unfold remaining
  cases w.stage with
  | len => exact List.append_ne_nil_of_left_ne_nil h.more _
  | body => exact h.more

variable {s : RtcTcp}

variable {c : ℕ}

/-- The calls after one of them has got a new value. -/
theorem valid_set (h : Inv s) (hw : w.Valid) (c' : ℕ)
    (w' : WriteCall) (hget : (s.calls.set c w).get? c' = some w') : w'.Valid := by
  rw [Dict.get?_set] at hget
  split at hget
  · cases hget
    exact hw
  · exact h.valid c' w' hget

theorem valid_erase (h : Inv s) (c c' : ℕ) (w' : WriteCall)
    (hget : (s.calls.erase c).get? c' = some w') : w'.Valid := by
  rw [Dict.get?_erase] at hget
  split at hget
  · cases hget
  · exact h.valid c' w' hget

variable {t : RtcTcp}

/-- A new call has nothing on the socket. -/
theorem Inv.begin (h : Inv s) {buf : List UInt8} (hbuf : buf ≠ [])
    (hstep : begin s c buf = some t) : Inv t := by
  unfold RtcTcp.begin at hstep
  split at hstep
  case isFalse => cases hstep
  case isTrue hfree =>
    cases hstep
    obtain ⟨hnone, hsize⟩ := hfree
    have hfresh : (WriteCall.mk buf .len (lengthBytes buf.length)).begun = false := rfl
    have hvalid : (WriteCall.mk buf .len (lengthBytes buf.length)).Valid := by
      refine ⟨hbuf, hsize, List.cons_ne_nil _ _, fun _ => le_refl 2, fun _ => ?_⟩
      show lengthBytes buf.length ++ buf = frame buf
      rw [frame, lengthBytes, bytesBE, bytesBE, bytesBE, pow_one, pow_zero, Nat.div_one]
    obtain ⟨part, hstream, hends⟩ := h.framed
    refine ⟨valid_set h hvalid, h.sizes, part, hstream, ?_⟩
    cases hends with
    | between empty none =>
      refine .between empty ?_
      intro c' w' hget
      rw [Dict.get?_set] at hget
      split at hget
      · cases hget
        exact hfresh
      · exact none c' w' hget
    | inside c₀ w call begun hframe only =>
      have hne : c ≠ c₀ := by
        intro heq
        rw [heq, call] at hnone
        cases hnone
      refine .inside c₀ w ?_ begun hframe ?_
      · exact (Dict.get?_set_ne _ hne _).trans call
      · intro c' w' hget hbegun
        rw [Dict.get?_set] at hget
        split at hget
        · cases hget
          rw [hfresh] at hbegun
          cases hbegun
        · exact only c' w' hget hbegun

/-- The call that is about to hand over bytes continues where the stream ends. -/
theorem Inv.turn (h : Inv s) (hw : s.calls.get? c = some w)
    (hturn : ∀ e ∈ s.calls.entries, e.2.begun = true → e.1 = c) :
    ∃ part, s.stream = frames s.sent ++ part ∧ part ++ w.remaining = frame w.buf := by
  obtain ⟨part, hstream, hends⟩ := h.framed
  refine ⟨part, hstream, ?_⟩
  cases hends with
  | between empty none =>
    rw [empty, List.nil_append]
    exact (h.valid c w hw).whole (none c w hw)
  | inside c₀ w₀ call begun hframe only =>
    have heq : c₀ = c := hturn (c₀, w₀) ((s.calls.mem_entries_iff c₀ w₀).mpr call) begun
    subst heq
    rw [call] at hw
    cases hw
    exact hframe

theorem Inv.taken (h : Inv s) {n : ℕ} (hw : s.calls.get? c = some w)
    (hturn : ∀ e ∈ s.calls.entries, e.2.begun = true → e.1 = c)
    (hstep : take s c n w = some t) : Inv t := by
  obtain ⟨part, hstream, hframe⟩ := h.turn hw hturn
  have hvalid : w.Valid := h.valid c w hw
  have honly : ∀ c' w', c ≠ c' → s.calls.get? c' = some w' → w'.begun = false := by
    intro c' w' hne hget
    apply Bool.eq_false_iff.mpr
    intro hbegun
    exact hne (hturn (c', w') ((s.calls.mem_entries_iff c' w').mpr hget) hbegun).symm
  -- the call has a new value, with some of its bytes on the socket
  have hset : ∀ (w' : WriteCall) (out : List UInt8), w'.Valid → w'.begun = true →
      part ++ out ++ w'.remaining = frame w'.buf →
      Inv ⟨s.stream ++ out, s.calls.set c w', s.sent⟩ := by
    intro w' out hvalid' hbegun hrest
    refine ⟨valid_set h hvalid', h.sizes, part ++ out, ?_, .inside c w' ?_ hbegun hrest ?_⟩
    · rw [hstream, List.append_assoc]
    · exact Dict.get?_set_self _ _ _
    · intro c' v hget hbegun'
      rw [Dict.get?_set] at hget
      split at hget
      case isTrue heq => exact heq.symm
      case isFalse hne =>
        rw [honly c' v hne hget] at hbegun'
        cases hbegun'
  unfold take at hstep
  split at hstep
  case isFalse => cases hstep
  case isTrue hn =>
    by_cases hend : w.pending.drop n = []
    · have hall : w.pending.take n = w.pending := by
        rw [← List.take_append_drop n w.pending, hend, List.append_nil, List.take_take, min_self]
      dsimp only at hstep
      rw [if_pos hend, hall] at hstep
      cases hstep
      unfold writeDone
      cases hstage : w.stage with
      | len =>
        dsimp only
        rw [if_neg hvalid.nonempty]
        have hremaining : w.remaining = w.pending ++ w.buf := by rw [WriteCall.remaining, hstage]
        refine hset ⟨w.buf, .body, w.buf⟩ w.pending ⟨hvalid.nonempty, hvalid.size,
          hvalid.nonempty, fun hlen => ?_, fun hbegun => ?_⟩ rfl ?_
        · cases hlen
        · cases hbegun
        · rw [List.append_assoc]
          exact hremaining ▸ hframe
      | body =>
        have hremaining : w.remaining = w.pending := by rw [WriteCall.remaining, hstage]
        refine ⟨valid_erase h c, ?_, [], ?_, .between rfl ?_⟩
        · intro p hp
          rw [List.mem_append, List.mem_singleton] at hp
          cases hp with
          | inl hold => exact h.sizes p hold
          | inr hnew => exact hnew ▸ hvalid.size
        · show s.stream ++ w.pending = frames (s.sent ++ [w.buf]) ++ []
          rw [frames_concat, List.append_nil, hstream, List.append_assoc, ← hremaining, hframe]
        · intro c' w' hget
          rw [Dict.get?_erase] at hget
          split at hget
          · cases hget
          · next hne => exact honly c' w' hne hget
    · dsimp only at hstep
      rw [if_neg hend] at hstep
      cases hstep
      have hless : (w.pending.drop n).length < w.pending.length := by
        rw [List.length_drop]
        omega
      have hbegun : ({ w with pending := w.pending.drop n } : WriteCall).begun = true := by
        apply decide_eq_true
        cases hstage : w.stage with
        | len =>
          right
          have hshort := hvalid.short hstage
          show (w.pending.drop n).length < 2
          omega
        | body => exact .inl rfl
      refine hset { w with pending := w.pending.drop n } (w.pending.take n)
        ⟨hvalid.nonempty, hvalid.size, hend, fun hstage => ?_, fun hnot => ?_⟩ hbegun ?_
      · exact hless.le.trans (hvalid.short hstage)
      · rw [hbegun] at hnot
        cases hnot
      · rw [← hframe]
        unfold WriteCall.remaining
        cases w.stage with
        | len =>
          show _ ++ (w.pending.drop n ++ w.buf) = _
          rw [List.append_assoc, ← List.append_assoc (w.pending.take n), List.take_append_drop]
        | body =>
          show _ ++ w.pending.drop n = _
          rw [List.append_assoc, List.take_append_drop]

/-- A write that fails before its first byte leaves nothing behind. -/
theorem Inv.failed (h : Inv s) (hfirst : ∀ e ∈ s.calls.entries, e.1 = c → e.2.begun = false) :
    Inv { s with calls := s.calls.erase c } := by
  obtain ⟨part, hstream, hends⟩ := h.framed
  refine ⟨valid_erase h c, h.sizes, part, hstream, ?_⟩
  have hkept : ∀ c' w', (s.calls.erase c).get? c' = some w' → s.calls.get? c' = some w' := by
    intro c' w' hget
    rw [Dict.get?_erase] at hget
    split at hget
    · cases hget
    · exact hget
  cases hends with
  | between empty none => exact .between empty fun c' w' hget => none c' w' (hkept c' w' hget)
  | inside c₀ w call begun hframe only =>
    have hne : c ≠ c₀ := by
      intro heq
      have hnot := hfirst (c₀, w) ((s.calls.mem_entries_iff c₀ w).mpr call) heq.symm
      rw [begun] at hnot
      cases hnot
    refine .inside c₀ w ?_ begun hframe fun c' w' hget => only c' w' (hkept c' w' hget)
    exact (Dict.get?_erase _ _ _).trans ((if_neg hne).trans call)

theorem Inv.step {a : Action} (h : Inv s) (hguard : OneAtATime s a)
    (hstep : step s a = some t) : Inv t := by
  cases a with
  | call c buf => exact h.begin hguard hstep
  | taken c n =>
    obtain ⟨w, hw, htake⟩ := Option.bind_eq_some_iff.mp hstep
    exact h.taken hw hguard htake
  | failed c =>
    obtain ⟨w, hw, rfl⟩ := Option.map_eq_some_iff.mp hstep
    exact h.failed hguard

/-- While each frame is handed over in one piece, the socket has the frames of the successful calls
and the front of at most one more, and the peer reads the packets of these calls. -/
theorem framing_of_oneAtATime {s : RtcTcp} (hrun : System.Reaches step OneAtATime .init s) :
    (∃ part, s.stream = frames s.sent ++ part ∧
      (part = [] ∨ ∃ c w more, s.calls.get? c = some w ∧ more ≠ [] ∧
        part ++ more = frame w.buf)) ∧
    ∀ nbPkt fuel, (∀ p ∈ s.sent, p.length ≤ nbPkt) → s.sent.length ≤ fuel →
      readPackets nbPkt fuel s.stream = s.sent := by
  have hinv : Inv s := hrun.invariant (fun _ _ _ h hguard hstep => h.step hguard hstep) inv_init
  obtain ⟨part, hstream, hends⟩ := hinv.framed
  cases hends with
  | between empty none =>
    refine ⟨⟨part, hstream, .inl empty⟩, fun nbPkt fuel hfits hfuel => ?_⟩
    have hpart : readPacket nbPkt part = .error .readLen := by
      rw [empty]
      rfl
    rw [hstream]
    exact readPackets_frames hinv.sizes hfits ⟨_, hpart⟩ hfuel
  | inside c w call begun hframe only =>
    have hmore : w.remaining ≠ [] := (hinv.valid c w call).remaining_ne
    refine ⟨⟨part, hstream, .inr ⟨c, w, w.remaining, call, hmore, hframe⟩⟩,
      fun nbPkt fuel hfits hfuel => ?_⟩
    rw [hstream]
    exact readPackets_frames hinv.sizes hfits
      (readPacket_part (hinv.valid c w call).size hframe hmore) hfuel

/-- Two calls one after the other, the first in three pieces. -/
def twoCalls : List Action :=
  [.call 0 [97, 98], .call 1 [99], .taken 0 1, .taken 0 1, .taken 0 2, .taken 1 2, .taken 1 1]

theorem framing_twoCalls : ∃ s : RtcTcp, s.sent = [[97, 98], [99]] ∧
    readPackets 1500 2 s.stream = [[97, 98], [99]] := by
  obtain ⟨s, hrun, -, hsent⟩ := System.reaches_of_observe step OneAtATime .init twoCalls
    RtcTcp.sent (b := [[97, 98], [99]]) rfl
  refine ⟨s, hsent, ?_⟩
  have hread := (framing_of_oneAtATime hrun).2 1500 2 (by rw [hsent]; decide) (by rw [hsent]; decide)
  exact hread.trans hsent

/-- Both calls have handed over their length before one of them hands over its body. -/
def crossedCalls : List Action :=
  [.call 0 [97], .call 1 [98], .taken 0 2, .taken 1 2, .taken 0 1, .taken 1 1]

/-- Both calls return successfully, and the socket does not have their frames: the peer takes a
byte of the second length for the first packet. -/
theorem crossedCalls_lose_framing : ∃ s, System.Reaches step System.anyStep .init s ∧
    s.calls.entries = [] ∧ s.sent = [[97], [98]] ∧ s.stream = [0, 1, 0, 1, 97, 98] ∧
    s.stream ≠ frames s.sent ∧ readPackets 1500 2 s.stream = [[0]] := by
  obtain ⟨s, hrun, -, hobs⟩ := System.reaches_of_observe step System.anyStep .init crossedCalls
    (fun s => (s.calls.entries, s.sent, s.stream)) (b := ([], [[97], [98]], [0, 1, 0, 1, 97, 98]))
    rfl
  obtain ⟨hcalls, hsent, hstream⟩ : s.calls.entries = [] ∧ s.sent = [[97], [98]] ∧
      s.stream = [0, 1, 0, 1, 97, 98] := by
    simpa using hobs
  refine ⟨s, hrun, hcalls, hsent, hstream, ?_, ?_⟩
  · rw [hsent, hstream]
    decide
  · rw [hstream]
    decide

end SrsChatRoom.App.RtcTcp
