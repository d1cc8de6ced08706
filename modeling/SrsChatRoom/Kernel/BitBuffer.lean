import SrsChatRoom.Lib.Bits
import SrsChatRoom.Kernel.Buffer
import SrsChatRoom.Lib.Endings

/-!
# Exp-Golomb codes (`srs_kernel_buffer.cpp`, `srs_kernel_utility.cpp`)

`SrsBitBuffer` reads a `SrsBuffer` bit by bit; what it still has to read is `remaining`. The three
readers of Exp-Golomb codes count the zeros up to a one, and read as many bits as there were zeros.
The count also ends where the bits do, and is one too low then, since the one is counted as well.
So a single zero bit at the end is read as the number 0: `readsCodes_iff` says that this is the
only thing that is read wrong.
-/

namespace SrsChatRoom.Kernel

open SrsChatRoom.Prog (bind_ok bind_err)

/-- The error codes of the readers. -/
inductive NaluErrorCode
  | avcNaluUev
  | hevcNaluUev
  | hevcNaluSev
deriving DecidableEq, Repr

/-- `srs_error_t`: the code and the messages, the outermost first. -/
structure NaluError where
  code : NaluErrorCode
  messages : List String
deriving DecidableEq, Repr

/-- `SrsBitBuffer`: the current byte, how many of its bits are left, and the bytes behind it. -/
structure SrsBitBuffer where
  cb : UInt8
  cbLeft : ℕ
  stream : SrsBuffer
deriving DecidableEq, Repr

namespace SrsBitBuffer

/-- `SrsBitBuffer(b)` -/
def new (stream : SrsBuffer) : SrsBitBuffer := ⟨0, 0, stream⟩

/-- `empty()` -/
def empty (b : SrsBitBuffer) : Bool := if b.cbLeft ≠ 0 then false else b.stream.empty

/-- `left_bits()` -/
def leftBits (b : SrsBitBuffer) : ℕ := b.cbLeft + b.stream.rest.length * 8

/-- The next bit of the current byte. -/
def nextBit (b : SrsBitBuffer) : Outcome SrsBitBuffer NaluError ℕ :=
  .ok (b.cb.toNat.testBit (b.cbLeft - 1)).toNat { b with cbLeft := b.cbLeft - 1 }

/-- `read_bit()` -/
def readBit : Prog SrsBitBuffer NaluError ℕ := fun b =>
  if b.cbLeft = 0 then
    match b.stream.rest with
    | [] => .fault
    | v :: _ => nextBit { b with cb := v, cbLeft := 8, stream := b.stream.advance 1 }
  else nextBit b

/-! ## The readers -/

/-- The loop that counts the zeros: `b` is the last bit, `leadingZeroBits` starts from -1. -/
def countZeros : ℕ → ℕ → ℤ → Prog SrsBitBuffer NaluError ℤ
  | 0, _, _ => fun _ => .hang
  | fuel + 1, b, leadingZeroBits => do
    if b = 0 ∧ (← Prog.read empty) = false then
      let b ← readBit
      countZeros fuel b (leadingZeroBits + 1)
    else return leadingZeroBits

/-- The loop that reads the bits, of which `k` are left. -/
def readInfo (code : NaluErrorCode) (leadingZeroBits : ℕ) : ℕ → ℕ → Prog SrsBitBuffer NaluError ℕ
  | 0, v => return v
  | k + 1, v => do
    if ← Prog.read empty then
      Prog.throw ⟨code, ["no bytes for leadingZeroBits=" ++ toString leadingZeroBits]⟩
    else
      let b ← readBit
      readInfo code leadingZeroBits k (v + b <<< k)

/-- What `read_bits_ue` and `srs_avc_nalu_read_uev` do. No value reaches 2^31. -/
def readUev (code : NaluErrorCode) : Prog SrsBitBuffer NaluError ℕ := do
  if ← Prog.read empty then Prog.throw ⟨code, ["empty stream"]⟩
  else
    let fuel ← Prog.read fun b => b.leftBits + 1
    let leadingZeroBits ← countZeros fuel 0 (-1)
    if 31 ≤ leadingZeroBits then
      Prog.throw ⟨code, [toString leadingZeroBits ++ "bits overflow 31bits"]⟩
    else readInfo code leadingZeroBits.toNat leadingZeroBits.toNat (1 <<< leadingZeroBits.toNat - 1)

/-- `read_bits_ue` -/
def readBitsUe : Prog SrsBitBuffer NaluError ℕ := readUev .hevcNaluUev

/-- `srs_avc_nalu_read_uev` -/
def avcNaluReadUev : Prog SrsBitBuffer NaluError ℕ := readUev .avcNaluUev

/-- `srs_avc_nalu_read_bit` -/
def avcNaluReadBit : Prog SrsBitBuffer NaluError ℕ := do
  if ← Prog.read empty then Prog.throw ⟨.avcNaluUev, ["empty stream"]⟩
  else readBit

/-- `read_bits_se` -/
def readBitsSe : Prog SrsBitBuffer NaluError ℤ := do
  if ← Prog.read empty then Prog.throw ⟨.hevcNaluSev, ["empty stream"]⟩
  else
    let val ← Prog.wrap (fun e => { e with messages := "read uev" :: e.messages }) readBitsUe
    if val % 2 = 1 then return (val + 1) / 2 else return -(val / 2 : ℕ)

/-! ## Bits that remain -/

/-- The bits that are still to be read. -/
def remaining (b : SrsBitBuffer) : List Bool :=
  bitsBE b.cbLeft b.cb.toNat ++ b.stream.rest.flatMap fun v => bitsBE 8 v.toNat

theorem length_remaining (b : SrsBitBuffer) : b.remaining.length = b.leftBits := by
  rw [remaining, leftBits, List.length_append, length_bitsBE, List.length_flatMap]
  simp

theorem empty_iff (b : SrsBitBuffer) : b.empty = true ↔ b.remaining = [] := by
  rw [← List.length_eq_zero_iff, length_remaining, leftBits, empty]
  by_cases hleft : b.cbLeft = 0
  · rw [if_neg (not_not_intro hleft), b.stream.empty_eq, decide_eq_true_iff,
      ← List.length_eq_zero_iff]
    omega
  · rw [if_pos hleft]
    exact iff_of_false Bool.false_ne_true (by omega)

variable {b : SrsBitBuffer} {bit : Bool} {bits rest : List Bool}

/-- The next bit is read, be it in the current byte or the first of the next one. -/
theorem readBit_run (h : b.remaining = bit :: bits) :
    ∃ b', readBit b = .ok bit.toNat b' ∧ b'.remaining = bits := by
  have hnext : ∀ b : SrsBitBuffer, b.cbLeft ≠ 0 → b.remaining = bit :: bits →
      ∃ b', nextBit b = .ok bit.toNat b' ∧ b'.remaining = bits := by
    intro b hleft hbits
    obtain ⟨k, hk⟩ := Nat.exists_eq_succ_of_ne_zero hleft
    rw [remaining, hk, bitsBE, List.cons_append] at hbits
    obtain ⟨hbit, hrest⟩ := List.cons.inj hbits
    refine ⟨{ b with cbLeft := k }, ?_, hrest⟩
    rw [nextBit, hk, Nat.succ_sub_one, hbit]
  rw [readBit]
  by_cases hleft : b.cbLeft = 0
  · rw [if_pos hleft]
    cases hstream : b.stream.rest with
    | nil =>
      rw [remaining, hleft, hstream] at h
      cases h
    | cons v r =>
      have hadvance : (b.stream.advance 1).rest = r := by
        rw [SrsBuffer.rest_advance, hstream, List.drop_one, List.tail_cons]
      refine hnext _ (Nat.succ_ne_zero 7) ?_
      rw [← h]
      show bitsBE 8 v.toNat ++ (b.stream.advance 1).rest.flatMap _ = _
      rw [hadvance, remaining, hleft, hstream]
      rfl
  · rw [if_neg hleft]
    exact hnext b hleft h

theorem read_empty_cons (h : b.remaining = bit :: bits) : b.empty = false := by
  rw [← Bool.not_eq_true, empty_iff, h]
  exact List.cons_ne_nil _ _

/-- A bit that is there is read, whatever the bits are. -/
theorem readBit_returns (h : b.empty = false) :
    ∃ v b', readBit b = .ok v b' ∧ b'.leftBits + 1 = b.leftBits := by
  cases hbits : b.remaining with
  | nil =>
    rw [b.empty_iff.mpr hbits] at h
    cases h
  | cons bit bits =>
    obtain ⟨b', hread, hrest⟩ := readBit_run hbits
    refine ⟨bit.toNat, b', hread, ?_⟩
    rw [← length_remaining, ← length_remaining, hrest, hbits, List.length_cons]

theorem avcNaluReadBit_total : avcNaluReadBit.Total := by
  apply Prog.Total.of_ends
  intro b
  apply Prog.Ends.bind_read
  apply Prog.Ends.ite
  · intro _
    exact Prog.Ends.throw trivial
  · intro hempty
    obtain ⟨v, b', hread, -⟩ := readBit_returns (Bool.eq_false_iff.mpr hempty)
    exact Prog.ends_of_ok hread trivial

/-! ## Counting zeros -/

/-- The loop ends where the bits do, if not before. -/
theorem countZeros_returns (fuel bit : ℕ) (z : ℤ) (hfuel : b.leftBits < fuel) :
    ∃ z' b', countZeros fuel bit z b = .ok z' b' := by
  induction fuel generalizing b bit z with
  | zero => omega
  | succ fuel ih =>
    rw [countZeros, bind_ok (Prog.read_apply _ _)]
    by_cases hmore : bit = 0 ∧ b.empty = false
    · obtain ⟨v, b', hread, hleft⟩ := readBit_returns hmore.2
      rw [if_pos hmore, bind_ok hread]
      exact ih v (z + 1) (by omega)
    · rw [if_neg hmore]
      exact ⟨z, b, rfl⟩

/-- Zeros up to a one are counted. -/
theorem countZeros_one (n fuel : ℕ) (z : ℤ) (hfuel : n + 1 < fuel)
    (h : b.remaining = List.replicate n false ++ true :: rest) :
    ∃ b', countZeros fuel 0 z b = .ok (z + n + 1) b' ∧ b'.remaining = rest := by
  induction n generalizing b fuel z with
  | zero =>
    obtain ⟨fuel, rfl⟩ : ∃ f, fuel = f + 2 := ⟨fuel - 2, by omega⟩
    obtain ⟨b', hread, hrest⟩ := readBit_run h
    have hempty := read_empty_cons h
    refine ⟨b', ?_, hrest⟩
    rw [countZeros, bind_ok (Prog.read_apply _ _), if_pos ⟨rfl, hempty⟩, bind_ok hread,
      countZeros, bind_ok (Prog.read_apply _ _), if_neg (by simp)]
    simp
  | succ n ih =>
    obtain ⟨fuel, rfl⟩ : ∃ f, fuel = f + 1 := ⟨fuel - 1, by omega⟩
    rw [List.replicate_succ, List.cons_append] at h
    obtain ⟨b₁, hread, hb₁⟩ := readBit_run h
    have hempty := read_empty_cons h
    obtain ⟨b', hcount, hrest⟩ := ih fuel (z + 1) (by omega) hb₁
    refine ⟨b', ?_, hrest⟩
    rw [countZeros, bind_ok (Prog.read_apply _ _), if_pos ⟨rfl, hempty⟩, bind_ok hread]
    have hsum : z + 1 + n + 1 = z + (n + 1 : ℕ) + 1 := by
      push_cast
      ring
    rw [← hsum]
    exact hcount

/-- Zeros up to the end are counted as well. -/
theorem countZeros_end (n fuel : ℕ) (z : ℤ) (hfuel : n < fuel)
    (h : b.remaining = List.replicate n false) :
    ∃ b', countZeros fuel 0 z b = .ok (z + n) b' ∧ b'.remaining = [] := by
  induction n generalizing b fuel z with
  | zero =>
    obtain ⟨fuel, rfl⟩ : ∃ f, fuel = f + 1 := ⟨fuel - 1, by omega⟩
    have hempty : b.empty = true := b.empty_iff.mpr h
    refine ⟨b, ?_, h⟩
    rw [countZeros, bind_ok (Prog.read_apply _ _), if_neg (by simp [hempty])]
    simp
  | succ n ih =>
    obtain ⟨fuel, rfl⟩ : ∃ f, fuel = f + 1 := ⟨fuel - 1, by omega⟩
    rw [List.replicate_succ] at h
    obtain ⟨b₁, hread, hb₁⟩ := readBit_run h
    have hempty := read_empty_cons h
    obtain ⟨b', hcount, hrest⟩ := ih fuel (z + 1) (by omega) hb₁
    refine ⟨b', ?_, hrest⟩
    rw [countZeros, bind_ok (Prog.read_apply _ _), if_pos ⟨rfl, hempty⟩, bind_ok hread]
    have hsum : z + 1 + n = z + (n + 1 : ℕ) := by
      push_cast
      ring
    rw [← hsum]
    exact hcount

/-! ## The bits behind the one -/

variable (code : NaluErrorCode)

/-- The bits are added up. -/
theorem readInfo_run (leadingZeroBits : ℕ) (info : List Bool) (v : ℕ)
    (h : b.remaining = info ++ rest) :
    ∃ b', readInfo code leadingZeroBits info.length v b = .ok (v + ofBitsBE info) b' ∧
      b'.remaining = rest := by
  induction info generalizing b v with
  | nil => exact ⟨b, rfl, h⟩
  | cons bit info ih =>
    rw [List.cons_append] at h
    obtain ⟨b₁, hread, hb₁⟩ := readBit_run h
    have hempty := read_empty_cons h
    obtain ⟨b', hinfo, hrest⟩ := ih (v + bit.toNat <<< info.length) hb₁
    refine ⟨b', ?_, hrest⟩
    rw [List.length_cons, readInfo, bind_ok (Prog.read_apply _ _), hempty,
      if_neg Bool.false_ne_true, bind_ok hread, hinfo, ofBitsBE, Nat.shiftLeft_eq,
      Nat.add_assoc]

theorem readInfo_total (leadingZeroBits k v : ℕ) : (readInfo code leadingZeroBits k v).Total := by
  induction k generalizing v with
  | zero => exact Prog.total_pure v
  | succ k ih =>
    apply Prog.Total.of_ends
    intro b
    apply Prog.Ends.bind_read
    apply Prog.Ends.ite
    · intro _
      exact Prog.Ends.throw trivial
    · intro hempty
      obtain ⟨bit, b', hread, -⟩ := readBit_returns (Bool.eq_false_iff.mpr hempty)
      apply Prog.Ends.bind
      exact Prog.ends_of_ok hread ((ih _).ends b')

/-- Too few bits are an error. -/
theorem readInfo_short (leadingZeroBits k v : ℕ) (info : List Bool)
    (hk : info.length < k) (h : b.remaining = info) :
    ∃ e b', readInfo code leadingZeroBits k v b = .err e b' := by
  induction info generalizing b k v with
  | nil =>
    obtain ⟨k, rfl⟩ := Nat.exists_eq_succ_of_ne_zero (by omega : k ≠ 0)
    have hempty : b.empty = true := b.empty_iff.mpr h
    rw [readInfo, bind_ok (Prog.read_apply _ _), hempty, if_pos rfl]
    exact ⟨_, _, rfl⟩
  | cons bit info ih =>
    obtain ⟨k, rfl⟩ := Nat.exists_eq_succ_of_ne_zero (by omega : k ≠ 0)
    obtain ⟨b₁, hread, hb₁⟩ := readBit_run h
    have hempty := read_empty_cons h
    rw [List.length_cons] at hk
    rw [readInfo, bind_ok (Prog.read_apply _ _), hempty, if_neg Bool.false_ne_true,
      bind_ok hread]
    exact ih k _ (by omega) hb₁

/-! ## The whole code -/

theorem readUev_start (hne : b.remaining ≠ []) {z : ℤ} {b' : SrsBitBuffer}
    (hcount : countZeros (b.leftBits + 1) 0 (-1) b = .ok z b') :
    readUev code b = (if 31 ≤ z then
      Prog.throw ⟨code, [toString z ++ "bits overflow 31bits"]⟩
      else readInfo code z.toNat z.toNat (1 <<< z.toNat - 1)) b' := by
  have hempty : b.empty = false := by
    rw [← Bool.not_eq_true, empty_iff]
    exact hne
  rw [readUev, bind_ok (Prog.read_apply _ _), hempty, if_neg Bool.false_ne_true,
    bind_ok (Prog.read_apply _ _), bind_ok hcount]

theorem readUev_total : (readUev code).Total := by
  apply Prog.Total.of_ends
  intro b
  apply Prog.Ends.bind_read
  apply Prog.Ends.ite
  · intro _
    exact Prog.Ends.throw trivial
  · intro _
    apply Prog.Ends.bind_read
    obtain ⟨z, b', hcount⟩ := countZeros_returns (b := b) (b.leftBits + 1) 0 (-1) (by omega)
    apply Prog.Ends.bind
    refine Prog.ends_of_ok hcount ?_
    apply Prog.Ends.ite
    · intro _
      exact Prog.Ends.throw trivial
    · intro _
      exact (readInfo_total code _ _ _).ends b'

/-- A code is read, and no bit behind it. -/
theorem readUev_code {v : ℕ} (hv : v ≤ 2147483646) (h : b.remaining = ueCode v ++ rest) :
    ∃ b', readUev code b = .ok v b' ∧ b'.remaining = rest := by
  have hzeros : leadingZeros v < 31 := leadingZeros_lt (by norm_num; omega)
  have hsplit : b.remaining = List.replicate (leadingZeros v) false ++
      true :: (bitsBE (leadingZeros v) (v + 1) ++ rest) := by
    rw [h, ueCode, List.append_assoc, List.cons_append]
  have hlength := b.length_remaining
  rw [hsplit, List.length_append, List.length_replicate, List.length_cons] at hlength
  obtain ⟨b₁, hcount, hb₁⟩ := countZeros_one (leadingZeros v) (b.leftBits + 1) (-1) (by omega)
    hsplit
  have hz : -1 + (leadingZeros v : ℤ) + 1 = leadingZeros v := by ring
  rw [hz] at hcount
  obtain ⟨b', hinfo, hrest⟩ := readInfo_run code (leadingZeros v)
    (bitsBE (leadingZeros v) (v + 1)) (1 <<< leadingZeros v - 1) hb₁
  rw [length_bitsBE, Nat.one_shiftLeft, ueCode_value] at hinfo
  have hne : b.remaining ≠ [] := by
    rw [hsplit]
    simp
  refine ⟨b', ?_, hrest⟩
  rw [readUev_start code hne hcount, if_neg (by omega), Int.toNat_natCast, Nat.one_shiftLeft]
  exact hinfo

/-- A strict prefix of a code is refused, unless it is a single zero. -/
theorem readUev_truncated {v : ℕ} (h : b.remaining <+: ueCode v)
    (hne : b.remaining ≠ ueCode v) (hzero : b.remaining ≠ [false]) :
    ∃ e b', readUev code b = .err e b' := by
  by_cases hempty : b.remaining = []
  · rw [readUev, bind_ok (Prog.read_apply _ _), b.empty_iff.mpr hempty, if_pos rfl]
    exact ⟨_, _, rfl⟩
  · have hlength := b.length_remaining
    have hfinish : ∀ {z : ℕ} {b₁ : SrsBitBuffer} {info : List Bool},
        countZeros (b.leftBits + 1) 0 (-1) b = .ok (z : ℤ) b₁ → b₁.remaining = info →
        info.length < z → ∃ e b', readUev code b = .err e b' := by
      intro z b₁ info hcount hb₁ hinfo
      rw [readUev_start code hempty hcount]
      by_cases hlarge : 31 ≤ (z : ℤ)
      · rw [if_pos hlarge]
        exact ⟨_, _, rfl⟩
      · rw [if_neg hlarge, Int.toNat_natCast]
        exact readInfo_short code z z _ info hinfo hb₁
    rcases strict_start_cases h hne with ⟨k, hk⟩ | ⟨k, info, hk, hinfo⟩
    · rw [hk, List.length_replicate] at hlength
      obtain ⟨b₁, hcount, hb₁⟩ := countZeros_end k (b.leftBits + 1) (-1) (by omega) hk
      -- the last zero is taken for the one
      obtain ⟨m, rfl⟩ : ∃ m, k = m + 2 := by
        match k with
        | 0 => exact absurd hk hempty
        | 1 => exact absurd hk hzero
        | m + 2 => exact ⟨m, rfl⟩
      have hz : -1 + ((m + 2 : ℕ) : ℤ) = (m + 1 : ℕ) := by
        push_cast
        ring
      rw [hz] at hcount
      exact hfinish hcount hb₁ (Nat.succ_pos m)
    · rw [hk, List.length_append, List.length_replicate, List.length_cons] at hlength
      obtain ⟨b₁, hcount, hb₁⟩ := countZeros_one k (b.leftBits + 1) (-1) (by omega) hk
      have hz : -1 + (k : ℤ) + 1 = k := by ring
      rw [hz] at hcount
      exact hfinish hcount hb₁ hinfo

/-! ## Signed values -/

/-- The number of a value gives the value. -/
theorem seNumber_cases (s : ℤ) :
    (seNumber s % 2 = 1 ∧ ((seNumber s + 1 : ℕ) : ℤ) / 2 = s) ∨
      (seNumber s % 2 ≠ 1 ∧ -((seNumber s / 2 : ℕ) : ℤ) = s) := by
  unfold seNumber
  split
  · left
    omega
  · right
    omega

theorem readBitsSe_code {s : ℤ} (hs : seNumber s ≤ 2147483646)
    (h : b.remaining = ueCode (seNumber s) ++ rest) :
    ∃ b', readBitsSe b = .ok s b' ∧ b'.remaining = rest := by
  obtain ⟨b', hread, hrest⟩ := readUev_code .hevcNaluUev hs h
  have hempty : b.empty = false := by
    rw [← Bool.not_eq_true, empty_iff, h, ueCode]
    simp
  refine ⟨b', ?_, hrest⟩
  rw [readBitsSe, bind_ok (Prog.read_apply _ _), hempty, if_neg Bool.false_ne_true, readBitsUe,
    bind_ok (Prog.wrap_ok hread _)]
  rcases seNumber_cases s with ⟨hodd, hvalue⟩ | ⟨heven, hvalue⟩
  · rw [if_pos hodd]
    push_cast at hvalue
    rw [hvalue]
    rfl
  · rw [if_neg heven, hvalue]
    rfl

theorem readBitsSe_truncated {v : ℕ} (h : b.remaining <+: ueCode v) (hne : b.remaining ≠ ueCode v)
    (hzero : b.remaining ≠ [false]) : ∃ e b', readBitsSe b = .err e b' := by
  obtain ⟨e, b', hread⟩ := readUev_truncated .hevcNaluUev h hne hzero
  rw [readBitsSe, bind_ok (Prog.read_apply _ _)]
  by_cases hempty : b.empty = true
  · rw [if_pos hempty]
    exact ⟨_, _, rfl⟩
  · rw [if_neg hempty, readBitsUe, bind_err (Prog.wrap_err hread _)]
    exact ⟨_, _, rfl⟩

/-! ## What is read right -/

/-- The readers invert the codes up to 2^31 - 2, and refuse a strict prefix of a code. -/
structure ReadsCodes (b : SrsBitBuffer) : Prop where
  ue : ∀ v rest, v ≤ 2147483646 → b.remaining = ueCode v ++ rest →
    ∃ b', readBitsUe b = .ok v b' ∧ b'.remaining = rest
  uev : ∀ v rest, v ≤ 2147483646 → b.remaining = ueCode v ++ rest →
    ∃ b', avcNaluReadUev b = .ok v b' ∧ b'.remaining = rest
  se : ∀ s rest, seNumber s ≤ 2147483646 → b.remaining = ueCode (seNumber s) ++ rest →
    ∃ b', readBitsSe b = .ok s b' ∧ b'.remaining = rest
  truncated : ∀ v, b.remaining <+: ueCode v → b.remaining ≠ ueCode v →
    (∃ e b', readBitsUe b = .err e b') ∧ (∃ e b', avcNaluReadUev b = .err e b') ∧
      ∃ e b', readBitsSe b = .err e b'

/-- A single zero at the end is read as 0. -/
theorem readUev_zero (h : b.remaining = [false]) : ∃ b', readUev code b = .ok 0 b' := by
  have hlength := b.length_remaining
  rw [h, List.length_singleton] at hlength
  obtain ⟨b', hcount, -⟩ := countZeros_end 1 (b.leftBits + 1) (-1) (by omega) h
  refine ⟨b', ?_⟩
  rw [readUev_start code (by simp [h]) hcount]
  rfl

/-- All is read right exactly where the bits are not a single zero. -/
theorem readsCodes_iff (b : SrsBitBuffer) : ReadsCodes b ↔ b.remaining ≠ [false] := by
  constructor
  · intro h hzero
    have hprefix : b.remaining <+: ueCode 1 := by
      rw [hzero]
      exact ⟨[true, false], rfl⟩
    obtain ⟨⟨e, b', herr⟩, -⟩ := h.truncated 1 hprefix (by rw [hzero]; decide)
    obtain ⟨b'', hok⟩ := readUev_zero .hevcNaluUev hzero
    rw [readBitsUe, hok] at herr
    cases herr
  · intro hzero
    exact {
      ue := fun _ _ hv h => readUev_code .hevcNaluUev hv h
      uev := fun _ _ hv h => readUev_code .avcNaluUev hv h
      se := fun _ _ hs h => readBitsSe_code hs h
      truncated := fun _ h hne => ⟨readUev_truncated .hevcNaluUev h hne hzero,
        readUev_truncated .avcNaluUev h hne hzero, readBitsSe_truncated h hne hzero⟩ }

/-- A byte of which seven bits have been read; the last one is zero. -/
def lastZero : SrsBitBuffer := ⟨0xFE, 1, ⟨[0xFE], 1⟩⟩

/-- The single zero is the start of the code of 1, and is read as 0. -/
theorem single_zero_is_read : ¬ ∀ b : SrsBitBuffer, ReadsCodes b := by
  intro h
  have hprefix : lastZero.remaining <+: ueCode 1 := ⟨[true, false], rfl⟩
  obtain ⟨⟨e, b', herr⟩, -⟩ := (h lastZero).truncated 1 hprefix (by decide)
  have hread : readBitsUe lastZero = .ok 0 { lastZero with cbLeft := 0 } := rfl
  rw [hread] at herr
  cases herr

end SrsBitBuffer

end SrsChatRoom.Kernel
