import SrsChatRoom.Kernel.Rtp

/-!
# Payloads of RTP packets, written (`srs_kernel_rtc_rtp.cpp`)

What a packet is given to send: raw bytes, several NALUs with start codes between them, a `STAP-A`,
or a `FU-A` whose payload is one slice or a list of them. `encode_run` says that each `encode`
writes `toBytes`, which has the length that `nb_bytes` says, into a buffer with room for it.
-/

namespace SrsChatRoom.Kernel.Rtp

open SrsBuffer
open List (length_append length_cons length_singleton)

/-- `kNalTypeMask` -/
def kNalTypeMask : UInt8 := 0x1F

/-- `kStart`, the start bit of a FU header. -/
def kStart : UInt8 := 0x80

/-- `kEnd`, the end bit of a FU header. -/
def kEnd : UInt8 := 0x40

/-- `SrsRtpRawNALUs` -/
structure RawNalus where
  nalus : List (List UInt8)
  nnBytes : ℕ
  cursor : ℕ
deriving DecidableEq, Repr

/-- The fields that `SrsRtpFUAPayload` and `SrsRtpFUAPayload2` share. -/
structure FuFields where
  nri : UInt8
  start : Bool
  end_ : Bool
  naluType : UInt8
deriving DecidableEq, Repr

/-- `ISrsRtpPayloader`: `SrsRtpRawPayload`, `SrsRtpRawNALUs`, `SrsRtpSTAPPayload`,
`SrsRtpFUAPayload` and `SrsRtpFUAPayload2`. -/
inductive Payloader
  | raw (payload : List UInt8)
  | rawNalus (sent : RawNalus)
  | stap (nri : UInt8) (nalus : List (List UInt8))
  | fua (fu : FuFields) (nalus : List (List UInt8))
  | fua2 (fu : FuFields) (payload : List UInt8)
deriving DecidableEq, Repr

/-- `fu_indicate` -/
def FuFields.indicator (fu : FuFields) : UInt8 := UInt8.ofNat kFuA ||| (fu.nri &&& ~~~kNalTypeMask)

/-- `fu_header` -/
def FuFields.header (fu : FuFields) : UInt8 :=
  let fuHeader := fu.naluType
  let fuHeader := if fu.start then fuHeader ||| kStart else fuHeader
  if fu.end_ then fuHeader ||| kEnd else fuHeader

/-! ## NALUs read as one -/

namespace RawNalus

/-- `SrsRtpRawNALUs()` -/
def new : RawNalus := ⟨[], 0, 0⟩

/-- `push_back(sample)` -/
def pushBack (raw : RawNalus) (sample : List UInt8) : RawNalus :=
  if sample.length = 0 then raw
  else
    let raw := if raw.nalus ≠ [] then
        { raw with nnBytes := raw.nnBytes + 3, nalus := raw.nalus ++ [[0, 0, 1]] }
      else raw
    { raw with nnBytes := raw.nnBytes + sample.length, nalus := raw.nalus ++ [sample] }

/-- `skip_first_byte()` -/
def skipFirstByte : Prog RawNalus SrsError UInt8 := fun raw =>
  if 0 < raw.nnBytes ∧ raw.cursor < raw.nnBytes then
    match raw.nalus with
    | (v :: _) :: _ => .ok v { raw with cursor := raw.cursor + 1 }
    | _ => .fault
  else .fault

/-- The loop of `read_samples`. -/
def readSamplesLoop : List (List UInt8) → ℕ → ℕ → Option (List (List UInt8))
  | [], _, _ => some []
  | p :: rest, pos, left =>
    if left = 0 then some []
    else if pos ≠ 0 ∧ p.length ≤ pos then readSamplesLoop rest (pos - p.length) left
    else
      let nn := min left (p.length - pos)
      -- `srs_assert(nn > 0)`
      if nn = 0 then none
      else (readSamplesLoop rest 0 (left - nn)).map fun samples => (p.drop pos).take nn :: samples

/-- `read_samples(samples, packet_size)` -/
def readSamples (packetSize : ℕ) : Prog RawNalus SrsError (List (List UInt8)) := fun raw =>
  if raw.nnBytes < raw.cursor + packetSize then
    .err (srsErrorNew .rtcRtpMuxer ("cursor=" ++ toString raw.cursor ++ ", max=" ++
      toString raw.nnBytes ++ ", size=" ++ toString packetSize)) raw
  else
    match readSamplesLoop raw.nalus raw.cursor packetSize with
    | some samples => .ok samples { raw with cursor := raw.cursor + packetSize }
    | none => .fault

theorem skipFirstByte_run {sent : RawNalus} {v : UInt8} {p : List UInt8} {rest : List (List UInt8)}
    (hnalus : sent.nalus = (v :: p) :: rest) (hbytes : sent.cursor < sent.nnBytes) :
    skipFirstByte sent = .ok v { sent with cursor := sent.cursor + 1 } := by
  rw [skipFirstByte, if_pos ⟨by omega, hbytes⟩, hnalus]

theorem readSamplesLoop_eq (nalus : List (List UInt8)) (hne : ∀ p ∈ nalus, p ≠ []) (pos left : ℕ) :
    ∃ samples, readSamplesLoop nalus pos left = some samples ∧
      samples.flatten = (nalus.flatten.drop pos).take left := by
  induction nalus generalizing pos left with
  | nil => exact ⟨[], rfl, by simp⟩
  | cons p rest ih =>
    have hp : 0 < p.length := List.length_pos_of_ne_nil (hne p List.mem_cons_self)
    have hrest : ∀ q ∈ rest, q ≠ [] := fun q hq => hne q (List.mem_cons_of_mem _ hq)
    rw [readSamplesLoop, List.flatten_cons]
    by_cases hleft : left = 0
    · rw [if_pos hleft, hleft]
      exact ⟨[], rfl, by simp⟩
    · rw [if_neg hleft]
      by_cases hskip : pos ≠ 0 ∧ p.length ≤ pos
      · rw [if_pos hskip, List.drop_append, List.drop_of_length_le hskip.2, List.nil_append]
        exact ih hrest (pos - p.length) left
      · have hpos : pos < p.length := by omega
        have hnn : min left (p.length - pos) ≠ 0 := by omega
        obtain ⟨samples, hloop, hflat⟩ := ih hrest 0 (left - min left (p.length - pos))
        rw [if_neg hskip]
        simp only [if_neg hnn, hloop, Option.map_some]
        refine ⟨_, rfl, ?_⟩
        have hhead : (p.drop pos).take (min left (p.length - pos)) = (p.drop pos).take left := by
          rw [← List.length_drop]
          exact List.take_eq_take_min.symm
        have hrestDrop : left - min left (p.length - pos) = left - (p.drop pos).length := by
          rw [List.length_drop]
          omega
        have hzero : rest.flatten.drop (pos - p.length) = rest.flatten := by
          rw [Nat.sub_eq_zero_of_le hpos.le, List.drop_zero]
        rw [List.flatten_cons, hflat, hhead, hrestDrop, List.drop_zero, List.drop_append, hzero,
          List.take_append]

theorem intersperse_concat {α : Type} (sep : α) (xs : List α) (x : α) (hxs : xs ≠ []) :
    (xs ++ [x]).intersperse sep = xs.intersperse sep ++ [sep, x] := by
  induction xs with
  | nil => exact absurd rfl hxs
  | cons y ys ih =>
    cases ys with
    | nil => rfl
    | cons z zs =>
      have hrest := ih (List.cons_ne_nil z zs)
      show y :: sep :: ((z :: zs) ++ [x]).intersperse sep = _
      rw [hrest]
      rfl

/-- What `push_back` has joined: the samples with start codes between them. -/
structure Joins (sent : RawNalus) (samples : List (List UInt8)) : Prop where
  nalus : sent.nalus = samples.intersperse [0, 0, 1]
  nnBytes : sent.nnBytes = sent.nalus.flatten.length
  cursor : sent.cursor = 0
  ne_nil : ∀ p ∈ sent.nalus, p ≠ []

theorem joins_new : Joins new [] := ⟨rfl, rfl, rfl, fun _ hp => absurd hp List.not_mem_nil⟩

theorem Joins.pushBack {sent : RawNalus} {samples : List (List UInt8)} (h : Joins sent samples)
    (sample : List UInt8) :
    Joins (sent.pushBack sample) (samples ++ if sample = [] then [] else [sample]) := by
  unfold RawNalus.pushBack
  by_cases hempty : sample = []
  · rw [if_pos (by simp [hempty]), if_pos hempty, List.append_nil]
    exact h
  · have hlength : sample.length ≠ 0 := by simp [hempty]
    rw [if_neg hlength, if_neg hempty]
    by_cases hfirst : sent.nalus ≠ []
    · have hsamples : samples ≠ [] := by
        intro hnil
        rw [h.nalus, hnil] at hfirst
        exact hfirst rfl
      simp only [if_pos hfirst]
      refine ⟨?_, ?_, h.cursor, ?_⟩
      · rw [intersperse_concat _ _ _ hsamples, ← h.nalus, List.append_assoc]
        rfl
      · simp only [List.flatten_append, length_append, h.nnBytes, List.flatten_singleton]
        rfl
      · intro p hp
        simp only [List.mem_append, List.mem_singleton] at hp
        rcases hp with (hp | rfl) | rfl
        · exact h.ne_nil p hp
        · exact List.cons_ne_nil _ _
        · exact hempty
    · have hnalus : sent.nalus = [] := not_not.mp hfirst
      have hsamples : samples = [] := by
        have hlen := congrArg List.length (h.nalus.symm.trans hnalus)
        rw [List.length_intersperse, List.length_nil] at hlen
        exact List.length_eq_zero_iff.mp (by omega)
      simp only [if_neg hfirst]
      refine ⟨?_, ?_, h.cursor, ?_⟩
      · rw [hnalus, hsamples]
        rfl
      · simp only [List.flatten_append, length_append, h.nnBytes, List.flatten_singleton]
      · intro p hp
        rw [hnalus, List.nil_append, List.mem_singleton] at hp
        rw [hp]
        exact hempty

end RawNalus

namespace Payloader

/-- `nb_bytes()` -/
def nbBytes : Payloader → ℕ
  | raw payload => payload.length
  | rawNalus sent => (sent.nalus.map List.length).sum
  | stap _ nalus => 1 + (nalus.map fun p => 2 + p.length).sum
  | fua _ nalus => 2 + (nalus.map List.length).sum
  | fua2 _ payload => 2 + payload.length

/-- `if (!buf->require(n)) return srs_error_new(ERROR_RTC_RTP_MUXER, "requires %d bytes", m)` -/
def requireBytes (n m : ℕ) : Dec Unit :=
  checkRequire n .rtcRtpMuxer ("requires " ++ toString m ++ " bytes")

/-- The loop over the samples of `SrsRtpRawNALUs::encode` and `SrsRtpFUAPayload::encode`. -/
def encodeSamples : List (List UInt8) → Dec Unit
  | [] => return ()
  | p :: rest => do
    requireBytes p.length p.length
    writeBytes p
    encodeSamples rest

/-- The loop of `SrsRtpSTAPPayload::encode`. -/
def encodeSizedSamples : List (List UInt8) → Dec Unit
  | [] => return ()
  | p :: rest => do
    requireBytes (2 + p.length) (2 + p.length)
    writeUint 2 p.length
    writeBytes p
    encodeSizedSamples rest

/-- `encode(buf)` -/
def encode : Payloader → Dec Unit
  | raw payload =>
    if payload.length = 0 then return ()
    else do
      requireBytes payload.length payload.length
      writeBytes payload
  | rawNalus sent => encodeSamples sent.nalus
  | stap nri nalus => do
    requireBytes 1 1
    writeBytes [UInt8.ofNat kStapA ||| (nri &&& ~~~kNalTypeMask)]
    encodeSizedSamples nalus
  | fua fu nalus => do
    requireBytes 2 1
    writeBytes [fu.indicator]
    writeBytes [fu.header]
    encodeSamples nalus
  | fua2 fu payload => do
    requireBytes (2 + payload.length) 1
    writeBytes (fu.indicator :: fu.header :: payload)

/-! ## What is written -/

/-- A sample behind its size in two bytes. -/
def sized (p : List UInt8) : List UInt8 := bytesBE 2 p.length ++ p

/-- The bytes of the payload. -/
def toBytes : Payloader → List UInt8
  | raw payload => payload
  | rawNalus sent => sent.nalus.flatten
  | stap nri nalus =>
    (UInt8.ofNat kStapA ||| (nri &&& ~~~kNalTypeMask)) :: nalus.flatMap sized
  | fua fu nalus => fu.indicator :: fu.header :: nalus.flatten
  | fua2 fu payload => fu.indicator :: fu.header :: payload

theorem length_sized (p : List UInt8) : (sized p).length = 2 + p.length := by
  rw [sized, length_append]
  rfl

theorem length_toBytes (p : Payloader) : p.toBytes.length = p.nbBytes := by
  cases p with
  | raw payload => rfl
  | rawNalus sent => exact List.length_flatten
  | stap nri nalus =>
    have hsized : (nalus.map fun p => (sized p).length) = nalus.map fun p => 2 + p.length :=
      List.map_congr_left fun p _ => length_sized p
    rw [toBytes, nbBytes, length_cons, List.length_flatMap, hsized, Nat.add_comm]
  | fua fu nalus =>
    rw [toBytes, nbBytes, length_cons, length_cons, List.length_flatten, Nat.add_comm 2]
  | fua2 fu payload =>
    rw [toBytes, nbBytes, length_cons, length_cons, Nat.add_comm 2]

section Run

variable {b : SrsBuffer}

theorem requireBytes_run {n : ℕ} (h : b.pos + n ≤ b.bytes.length) (m : ℕ) :
    requireBytes n m b = .ok () b :=
  if_pos ((b.require_iff n).mpr h)

theorem encodeSamples_run (nalus : List (List UInt8))
    (hroom : b.pos + nalus.flatten.length ≤ b.bytes.length) :
    encodeSamples nalus b = .ok () (b.put nalus.flatten) := by
  induction nalus generalizing b with
  | nil => exact congrArg (Outcome.ok ()) b.put_nil.symm
  | cons p rest ih =>
    rw [List.flatten_cons] at hroom ⊢
    have hlength : (p ++ rest.flatten).length = p.length + rest.flatten.length :=
      length_append
    have hput : (b.put p).bytes.length = b.bytes.length := length_bytes_put (by omega)
    rw [encodeSamples, Prog.bind_ok (requireBytes_run (by omega) _)]
    refine write_then hroom (ih ?_)
    rw [hput, pos_put]
    omega

theorem encodeSizedSamples_run (nalus : List (List UInt8))
    (hroom : b.pos + (nalus.flatMap sized).length ≤ b.bytes.length) :
    encodeSizedSamples nalus b = .ok () (b.put (nalus.flatMap sized)) := by
  induction nalus generalizing b with
  | nil => exact congrArg (Outcome.ok ()) b.put_nil.symm
  | cons p rest ih =>
    rw [List.flatMap_cons] at hroom ⊢
    have hlength : (sized p ++ rest.flatMap sized).length =
        (sized p).length + (rest.flatMap sized).length := length_append
    have hsized := length_sized p
    have hput : (b.put (sized p)).bytes.length = b.bytes.length := length_bytes_put (by omega)
    have htwo : (bytesBE 2 p.length).length = 2 := rfl
    have hputTwo : (b.put (bytesBE 2 p.length)).bytes.length = b.bytes.length :=
      length_bytes_put (by omega)
    have hrest := ih (b := b.put (sized p)) (by
      rw [hput, pos_put]
      omega)
    have hsplit : b.put (sized p) = (b.put (bytesBE 2 p.length)).put p :=
      (put_put (by omega)).symm
    rw [encodeSizedSamples, Prog.bind_ok (requireBytes_run (by omega) _), writeUint,
      Prog.bind_ok (writeBytes_run (by omega)), Prog.bind_ok (writeBytes_run (by
        rw [hputTwo, pos_put]
        omega)), ← hsplit, hrest, put_put (by omega)]

/-- With room for `nb_bytes`, the payload is written as it stands. -/
theorem encode_run (p : Payloader) (hroom : b.pos + p.nbBytes ≤ b.bytes.length) :
    p.encode b = .ok () (b.put p.toBytes) := by
  rw [← length_toBytes] at hroom
  cases p with
  | raw payload =>
    rw [toBytes] at hroom ⊢
    rw [encode]
    by_cases hempty : payload.length = 0
    · rw [if_pos hempty, List.length_eq_zero_iff.mp hempty, put_nil]
      rfl
    · rw [if_neg hempty, Prog.bind_ok (requireBytes_run hroom _), writeBytes_run hroom]
  | rawNalus sent => exact encodeSamples_run sent.nalus hroom
  | stap nri nalus =>
    rw [toBytes] at hroom ⊢
    rw [length_cons] at hroom
    have hput : (b.put [UInt8.ofNat kStapA ||| (nri &&& ~~~kNalTypeMask)]).bytes.length =
        b.bytes.length := length_bytes_put (by rw [length_singleton]; omega)
    rw [encode, Prog.bind_ok (requireBytes_run (by omega) _)]
    refine @write_then b _ [_] _ hroom (encodeSizedSamples_run nalus ?_)
    rw [hput, pos_put, length_singleton]
    omega
  | fua fu nalus =>
    rw [toBytes] at hroom ⊢
    rw [length_cons, length_cons] at hroom
    have hput : (b.put [fu.indicator, fu.header]).bytes.length = b.bytes.length :=
      length_bytes_put (by
        show b.pos + 2 ≤ _
        omega)
    have hputOne : (b.put [fu.indicator]).bytes.length = b.bytes.length :=
      length_bytes_put (by rw [length_singleton]; omega)
    have hsplit : (b.put [fu.indicator]).put [fu.header] = b.put [fu.indicator, fu.header] :=
      put_put (by
        show b.pos + 1 + 1 ≤ _
        omega)
    have hrest := encodeSamples_run (b := b.put [fu.indicator, fu.header]) nalus (by
      rw [hput]
      show b.pos + 2 + _ ≤ _
      omega)
    rw [encode, Prog.bind_ok (requireBytes_run (by omega) _),
      Prog.bind_ok (writeBytes_run (by rw [length_singleton]; omega)),
      Prog.bind_ok (writeBytes_run (by
        rw [hputOne, pos_put, length_singleton, length_singleton]
        omega)), hsplit, hrest, put_put (by
        show b.pos + 2 + _ ≤ _
        omega)]
    rfl
  | fua2 fu payload =>
    rw [toBytes] at hroom ⊢
    have hlength : (fu.indicator :: fu.header :: payload).length = 2 + payload.length := by
      rw [length_cons, length_cons, Nat.add_comm 2]
    rw [encode, Prog.bind_ok (requireBytes_run (by omega) _), writeBytes_run hroom]

end Run

/-- The bytes that `encode` writes into a buffer of `nb_bytes`. -/
def written (p : Payloader) : List UInt8 :=
  match p.encode ⟨List.replicate p.nbBytes 0, 0⟩ with
  | .ok _ b => b.bytes
  | _ => []

theorem written_eq (p : Payloader) : p.written = p.toBytes := by
  have hroom : 0 + p.nbBytes ≤ (List.replicate p.nbBytes (0 : UInt8)).length := by simp
  have hrun := encode_run (b := ⟨List.replicate p.nbBytes 0, 0⟩) p hroom
  rw [written, hrun]
  show ([] ++ p.toBytes ++ (List.replicate p.nbBytes 0).drop (0 + p.toBytes.length)) = _
  rw [length_toBytes, List.drop_of_length_le (by simp), List.append_nil, List.nil_append]

end Payloader

end SrsChatRoom.Kernel.Rtp
