import SrsChatRoom.Lib.Bytes
import SrsChatRoom.Lib.Outcome

/-!
# The stream buffer (`srs_kernel_buffer.cpp`)

`SrsBuffer` reads from a piece of memory that it does not own. It never returns an error: each
access is behind an `srs_assert`, which ends the process (`fault` below). Callers look before
they read, with `require`.

A decoder is a program on a buffer. `Takes x k` says all there is to say about most of them:
`x` reads exactly `k` bytes, and faults when they are not there.
-/

namespace SrsChatRoom.Kernel

/-! ## Errors -/

/-- The error codes of the decoders and of the RTMP reader. -/
inductive ErrorCode
  | success
  | rtcRtcp
  | rtcRtcpEmptyRr
  | rtcRtp
  | rtcRtpMuxer
  | socketRead
  | readerBufferOverflow
  | rtmpChunkStart
  | rtmpPacketSize
  | rtmpAggregate
  | h264ApiNoPrefixed
  | aacAdtsHeader
  | aacRequiredAdts
  | hlsAacFrameLength
  | hlsAvcSampleSize
  | pbNoSpace
deriving DecidableEq, Repr

/-- `srs_error_t`: the code and the messages, the outermost first. -/
structure SrsError where
  code : ErrorCode
  messages : List String
deriving DecidableEq, Repr

/-- `srs_error_new` -/
def srsErrorNew (code : ErrorCode) (message : String) : SrsError := ⟨code, [message]⟩

/-- `srs_error_wrap` -/
def srsErrorWrap (message : String) (e : SrsError) : SrsError :=
  { e with messages := message :: e.messages }

/-! ## The buffer -/

/-- `SrsBuffer`: the memory from `bytes` up to `bytes + nb_bytes`, and `p - bytes`. -/
structure SrsBuffer where
  bytes : List UInt8
  pos : ℕ
deriving DecidableEq, Repr

/-- A program on a buffer. -/
abbrev Dec := Prog SrsBuffer SrsError

namespace SrsBuffer

/-- `left()` -/
def left (b : SrsBuffer) : ℤ := b.bytes.length - b.pos

/-- `empty()` -/
def empty (b : SrsBuffer) : Bool := b.bytes.length ≤ b.pos

/-- `require(required_size)` -/
def require (b : SrsBuffer) (requiredSize : ℤ) : Bool :=
  0 ≤ requiredSize ∧ requiredSize ≤ b.left

/-- The buffer with `p` moved forward. -/
def advance (b : SrsBuffer) (k : ℕ) : SrsBuffer := { b with pos := b.pos + k }

variable (b : SrsBuffer)

@[simp] theorem bytes_advance (k : ℕ) : (b.advance k).bytes = b.bytes := rfl

@[simp] theorem pos_advance (k : ℕ) : (b.advance k).pos = b.pos + k := rfl

theorem advance_advance (k m : ℕ) : (b.advance k).advance m = b.advance (k + m) := by
  simp [advance, Nat.add_assoc]

/-- `require` of a count that is not negative. -/
theorem require_iff (k : ℕ) : b.require k = true ↔ b.pos + k ≤ b.bytes.length := by
  rw [require, left, decide_eq_true_iff]
  constructor
  · rintro ⟨-, h⟩
    omega
  · intro h
    omega

/-- The bytes from the head on. -/
def rest (b : SrsBuffer) : List UInt8 := b.bytes.drop b.pos

theorem length_rest : b.rest.length = b.bytes.length - b.pos :=
  List.length_drop

theorem rest_advance (k : ℕ) : (b.advance k).rest = b.rest.drop k := by
  rw [rest, rest, List.drop_drop]
  rfl

theorem empty_eq : b.empty = decide (b.rest = []) := by
  rw [empty, decide_eq_decide, ← List.length_eq_zero_iff, length_rest]
  omega

/-! ## Reading -/

/-- `if (!buffer->require(n)) return srs_error_new(code, message)` -/
def checkRequire (n : ℤ) (code : ErrorCode) (message : String) : Dec Unit := fun b =>
  if b.require n then .ok () b else .err (srsErrorNew code message) b

/-- `skip(size)` -/
def skip (size : ℤ) : Dec Unit := fun b =>
  if 0 ≤ b.pos + size ∧ b.pos + size ≤ b.bytes.length then
    .ok () { b with pos := (b.pos + size).toNat }
  else .fault

/-- `read_bytes(data, size)` -/
def readBytes (size : ℤ) : Dec (List UInt8) := fun b =>
  if b.require size then .ok ((b.bytes.drop b.pos).take size.toNat) (b.advance size.toNat)
  else .fault

/-- `read_1bytes`, `read_2bytes` and so on: the `n` bytes as an unsigned integer. -/
def readUint (n : ℕ) : Dec ℕ := do
  let bytes ← readBytes n
  return ofBytesBE bytes

/-- `*(buffer->head() + i)`, a read that no assertion guards. -/
def peek (i : ℕ) : Dec UInt8 := fun b =>
  match b.bytes[b.pos + i]? with
  | some v => .ok v b
  | none => .fault

/-! ## Writing -/

/-- The buffer with these bytes at the head, which is behind them. -/
def put (b : SrsBuffer) (data : List UInt8) : SrsBuffer :=
  ⟨b.bytes.take b.pos ++ data ++ b.bytes.drop (b.pos + data.length), b.pos + data.length⟩

/-- `write_bytes(data, size)` -/
def writeBytes (data : List UInt8) : Dec Unit := fun b =>
  if b.require data.length then .ok () (b.put data) else .fault

/-- `write_1bytes`, `write_2bytes` and so on: the low `n` bytes. -/
def writeUint (n v : ℕ) : Dec Unit := writeBytes (bytesBE n v)

@[simp] theorem pos_put (data : List UInt8) :
    (b.put data).pos = b.pos + data.length := rfl

theorem length_bytes_put {b : SrsBuffer} {data : List UInt8}
    (h : b.pos + data.length ≤ b.bytes.length) : (b.put data).bytes.length = b.bytes.length := by
  simp only [put, List.length_append, List.length_take, List.length_drop]
  omega

/-- Two writes are one of both. -/
theorem put_put {b : SrsBuffer} {data more : List UInt8}
    (h : b.pos + data.length + more.length ≤ b.bytes.length) :
    (b.put data).put more = b.put (data ++ more) := by
  have hpos : (b.bytes.take b.pos).length = b.pos := by
    rw [List.length_take]
    omega
  have hhead : (b.bytes.take b.pos ++ data).length = b.pos + data.length := by
    rw [List.length_append, hpos]
  have htail : (b.bytes.take b.pos ++ data ++ b.bytes.drop (b.pos + data.length)).drop
      (b.pos + data.length + more.length) = b.bytes.drop (b.pos + (data ++ more).length) := by
    rw [List.drop_append, hhead, List.drop_of_length_le (by omega), List.nil_append,
      List.drop_drop, List.length_append]
    congr 1
    omega
  unfold put
  dsimp only
  rw [List.take_left' hhead, htail, List.length_append, Nat.add_assoc, List.append_assoc _ data]

theorem put_nil : b.put [] = b := by
  simp [put]

section Running

variable {b : SrsBuffer}

theorem writeBytes_run {data : List UInt8} (h : b.pos + data.length ≤ b.bytes.length) :
    writeBytes data b = .ok () (b.put data) :=
  if_pos ((b.require_iff data.length).mpr h)

/-- Writing some bytes and then others is writing both. -/
theorem write_then {x : Dec Unit} {data more : List UInt8}
    (hroom : b.pos + (data ++ more).length ≤ b.bytes.length)
    (hx : x (b.put data) = .ok () ((b.put data).put more)) :
    (writeBytes data >>= fun _ => x) b = .ok () (b.put (data ++ more)) := by
  rw [List.length_append] at hroom
  rw [Prog.bind_ok (writeBytes_run (by omega)), hx, put_put (by omega)]

variable {n : ℕ}

theorem checkRequire_pass (h : n ≤ b.rest.length) (hpos : b.pos ≤ b.bytes.length)
    (code : ErrorCode) (message : String) : checkRequire n code message b = .ok () b := by
  rw [length_rest] at h
  exact if_pos ((b.require_iff n).mpr (by omega))

theorem checkRequire_fail (h : b.rest.length < n) (code : ErrorCode) (message : String) :
    checkRequire n code message b = .err (srsErrorNew code message) b := by
  rw [length_rest] at h
  exact if_neg fun hr => by
    have := (b.require_iff n).mp hr
    omega

theorem readUint_run (h : n ≤ b.rest.length) (hpos : b.pos ≤ b.bytes.length) :
    readUint n b = .ok (ofBytesBE (b.rest.take n)) (b.advance n) := by
  rw [length_rest] at h
  have hread : readBytes n b = .ok (b.rest.take n) (b.advance n) :=
    if_pos ((b.require_iff n).mpr (by omega))
  rw [readUint, Prog.bind_ok hread]
  rfl

theorem skip_run (h : n ≤ b.rest.length) (hpos : b.pos ≤ b.bytes.length) :
    skip n b = .ok () (b.advance n) := by
  rw [length_rest] at h
  rw [skip, if_pos (by omega)]
  rfl

theorem skip_fault (h : b.rest.length < n) : skip n b = .fault := by
  rw [length_rest] at h
  rw [skip, if_neg (by omega)]

theorem peek_run {v : UInt8} {r : List UInt8} (h : b.rest = v :: r) : peek 0 b = .ok v b := by
  have hget : b.bytes[b.pos + 0]? = some v := by
    rw [← List.getElem?_drop, show b.bytes.drop b.pos = v :: r from h]
    rfl
  rw [peek, hget]

/-- Moving forward by no more than is left stays inside. -/
theorem pos_advance_le (h : n ≤ b.rest.length) (hpos : b.pos ≤ b.bytes.length) :
    (b.advance n).pos ≤ (b.advance n).bytes.length := by
  rw [length_rest] at h
  rw [pos_advance, bytes_advance]
  omega

/-! What comes after an access may count on what the access has checked. -/

variable {Q : Unit → SrsBuffer → Prop}

theorem safe_checkRequire {n : ℤ} {code : ErrorCode} {message : String}
    (h : b.require n = true → Q () b) :
    (checkRequire n code message).Safe b Q := by
  unfold Prog.Safe checkRequire
  by_cases hr : b.require n = true
  · rw [if_pos hr]
    exact h hr
  · rw [if_neg hr]
    trivial

theorem safe_readUint {Q : ℕ → SrsBuffer → Prop} (hn : b.pos + n ≤ b.bytes.length)
    (h : ∀ v, Q v (b.advance n)) : (readUint n).Safe b Q := by
  have hread : readUint n b = .ok (ofBytesBE (b.rest.take n)) (b.advance n) :=
    readUint_run (by rw [length_rest]; omega) (by omega)
  rw [Prog.Safe, hread]
  exact h _

theorem safe_skip {n : ℤ} (hn : b.require n = true)
    (h : Q () (b.advance n.toNat)) : (skip n).Safe b Q := by
  obtain ⟨hzero, hleft⟩ := of_decide_eq_true hn
  unfold left at hleft
  have hskip : skip n b = .ok () (b.advance n.toNat) := by
    have hto : (b.pos + n).toNat = b.pos + n.toNat := by omega
    rw [skip, if_pos (by omega), hto]
    rfl
  rw [Prog.Safe, hskip]
  exact h

theorem safe_peek {Q : UInt8 → SrsBuffer → Prop} (hempty : b.empty = false)
    (h : ∀ v, Q v b) : (peek 0).Safe b Q := by
  have hlt : b.pos < b.bytes.length := not_le.mp (of_decide_eq_false hempty)
  rw [Prog.Safe, peek, Nat.add_zero, List.getElem?_eq_getElem hlt]
  exact h _

end Running

end SrsBuffer

open SrsBuffer

/-! ## Decoders that take a fixed number of bytes -/

/-- `x` takes exactly `k` bytes when they are there, and faults when they are not. -/
def Takes {α : Type} (x : Dec α) (k : ℕ) : Prop :=
  ∀ b : SrsBuffer, (b.pos + k ≤ b.bytes.length → ∃ a, x b = .ok a (b.advance k)) ∧
    (b.pos ≤ b.bytes.length → b.bytes.length < b.pos + k → x b = .fault)

theorem takes_readBytes (n : ℕ) : Takes (readBytes n) n := by
  intro b
  have hrequire := b.require_iff n
  constructor
  · intro h
    refine ⟨(b.bytes.drop b.pos).take n, ?_⟩
    rw [readBytes, if_pos (hrequire.mpr h), Int.toNat_natCast]
  · intro _ h
    rw [readBytes, if_neg (fun hr => by have := hrequire.mp hr; omega)]

theorem takes_pure {α : Type} (a : α) : Takes (pure a) 0 := by
  intro b
  refine ⟨fun _ => ⟨a, rfl⟩, fun h h' => ?_⟩
  omega

theorem Takes.bind {α β : Type} {x : Dec α} {f : α → Dec β} {k m : ℕ} (hx : Takes x k)
    (hf : ∀ a, Takes (f a) m) : Takes (x >>= f) (k + m) := by
  intro b
  constructor
  · intro h
    obtain ⟨a, ha⟩ := (hx b).1 (by omega)
    obtain ⟨c, hc⟩ := (hf a (b.advance k)).1 (by simp only [pos_advance, bytes_advance]; omega)
    refine ⟨c, ?_⟩
    rw [Prog.bind_ok ha, hc, advance_advance]
  · intro hpos h
    by_cases hk : b.pos + k ≤ b.bytes.length
    · obtain ⟨a, ha⟩ := (hx b).1 hk
      rw [Prog.bind_ok ha]
      refine (hf a (b.advance k)).2 ?_ ?_ <;> simp only [pos_advance, bytes_advance] <;> omega
    · exact Prog.bind_fault ((hx b).2 hpos (by omega)) f

theorem takes_readUint (n : ℕ) : Takes (readUint n) n :=
  (takes_readBytes n).bind fun _ => takes_pure _

/-- `skip` of a count that is not negative. -/
theorem takes_skip (n : ℕ) : Takes (skip n) n := by
  intro b
  constructor
  · intro h
    refine ⟨(), ?_⟩
    rw [skip, if_pos (by omega)]
    rfl
  · intro _ h
    rw [skip, if_neg (by omega)]

end SrsChatRoom.Kernel
