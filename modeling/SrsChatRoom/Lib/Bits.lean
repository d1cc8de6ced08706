import Mathlib.Tactic

/-!
# Numbers as bits

The low `n` bits of a number, the highest first, and back. An Exp-Golomb code (`ueCode`) has as
many zeros in front of a one as bits follow it; together the one and the bits are the number plus
one.
-/

namespace SrsChatRoom

/-- The low `n` bits, the highest first. -/
def bitsBE : ℕ → ℕ → List Bool
  | 0, _ => []
  | n + 1, v => v.testBit n :: bitsBE n v

/-- The number that some bits are, the highest first. -/
def ofBitsBE : List Bool → ℕ
  | [] => 0
  | b :: bits => b.toNat * 2 ^ bits.length + ofBitsBE bits

@[simp] theorem length_bitsBE (n v : ℕ) : (bitsBE n v).length = n := by
  induction n with
  | zero => rfl
  | succ n ih => rw [bitsBE, List.length_cons, ih]

theorem ofBitsBE_bitsBE (n v : ℕ) : ofBitsBE (bitsBE n v) = v % 2 ^ n := by
  induction n with
  | zero => rw [Nat.pow_zero, Nat.mod_one, bitsBE, ofBitsBE]
  | succ n ih =>
    rw [bitsBE, ofBitsBE, ih, length_bitsBE, Nat.toNat_testBit, Nat.mod_pow_succ]
    ring

/-- The lowest bit is the last one. -/
theorem bitsBE_succ_eq_append (n v : ℕ) :
    bitsBE (n + 1) v = bitsBE n (v >>> 1) ++ [v.testBit 0] := by
  induction n with
  | zero => rfl
  | succ n ih =>
    have hbit : v.testBit (n + 1) = (v >>> 1).testBit n := by
      rw [Nat.testBit_shiftRight, Nat.add_comm]
    rw [bitsBE, ih, hbit]
    rfl

theorem ofBitsBE_lt (bits : List Bool) : ofBitsBE bits < 2 ^ bits.length := by
  induction bits with
  | nil => exact Nat.one_pos
  | cons b bits ih =>
    have hb : b.toNat ≤ 1 := Bool.toNat_le b
    have hmul : b.toNat * 2 ^ bits.length ≤ 1 * 2 ^ bits.length := Nat.mul_le_mul_right _ hb
    rw [ofBitsBE, List.length_cons, Nat.pow_succ]
    omega

theorem bitsBE_congr {n v u : ℕ} (h : ∀ i < n, v.testBit i = u.testBit i) :
    bitsBE n v = bitsBE n u := by
  induction n with
  | zero => rfl
  | succ n ih => rw [bitsBE, bitsBE, h n n.lt_succ_self, ih fun i hi => h i (by omega)]

/-- Writing what has been read. -/
theorem bitsBE_ofBitsBE (bits : List Bool) : bitsBE bits.length (ofBitsBE bits) = bits := by
  induction bits with
  | nil => rfl
  | cons b bits ih =>
    have hlt : ofBitsBE bits < 2 ^ bits.length := ofBitsBE_lt bits
    have hhead : (b.toNat * 2 ^ bits.length + ofBitsBE bits).testBit bits.length = b := by
      rw [Nat.mul_comm, Nat.testBit_two_pow_mul_add _ hlt, if_neg (lt_irrefl _), Nat.sub_self]
      cases b <;> rfl
    have htail : bitsBE bits.length (b.toNat * 2 ^ bits.length + ofBitsBE bits) =
        bitsBE bits.length (ofBitsBE bits) := by
      apply bitsBE_congr
      intro i hi
      rw [Nat.mul_comm, Nat.testBit_two_pow_mul_add _ hlt, if_pos hi]
    rw [List.length_cons, bitsBE, ofBitsBE, hhead, htail, ih]

/-- The lowest bit behind the others. -/
theorem ofBitsBE_append_singleton (bits : List Bool) (b : Bool) :
    ofBitsBE (bits ++ [b]) = 2 * ofBitsBE bits + b.toNat := by
  induction bits with
  | nil =>
    show b.toNat * 2 ^ 0 + 0 = 2 * 0 + b.toNat
    omega
  | cons c bits ih =>
    rw [List.cons_append, ofBitsBE, ofBitsBE, ih, List.length_append, List.length_singleton,
      Nat.pow_succ]
    ring

theorem getElem?_bitsBE {n i : ℕ} (v : ℕ) (h : i < n) :
    (bitsBE n v)[i]? = some (v.testBit (n - 1 - i)) := by
  induction n generalizing i with
  | zero => omega
  | succ n ih =>
    cases i with
    | zero => rfl
    | succ i =>
      have hindex : n + 1 - 1 - (i + 1) = n - 1 - i := by omega
      rw [bitsBE, List.getElem?_cons_succ, ih (by omega), hindex]

/-! ## Reversed bits -/

/-- The low `w` bits in reverse order. -/
def reverseBits (w n : ℕ) : ℕ := ofBitsBE (bitsBE w n).reverse

theorem reverseBits_lt (w n : ℕ) : reverseBits w n < 2 ^ w := by
  have hlt := ofBitsBE_lt (bitsBE w n).reverse
  rwa [List.length_reverse, length_bitsBE] at hlt

theorem bitsBE_reverseBits (w n : ℕ) : bitsBE w (reverseBits w n) = (bitsBE w n).reverse := by
  have h := bitsBE_ofBitsBE (bitsBE w n).reverse
  rwa [List.length_reverse, length_bitsBE] at h

/-- Reversing twice keeps the low bits. -/
theorem reverseBits_reverseBits (w n : ℕ) : reverseBits w (reverseBits w n) = n % 2 ^ w := by
  rw [reverseBits, bitsBE_reverseBits, List.reverse_reverse, ofBitsBE_bitsBE]

theorem testBit_reverseBits (w n i : ℕ) :
    (reverseBits w n).testBit i = (decide (i < w) && n.testBit (w - 1 - i)) := by
  by_cases h : i < w
  · have hread := getElem?_bitsBE (reverseBits w n) (by omega : w - 1 - i < w)
    have hlength : w - 1 - i < (bitsBE w n).length := by
      rw [length_bitsBE]
      omega
    have hindex : (bitsBE w n).length - 1 - (w - 1 - i) = i := by
      rw [length_bitsBE]
      omega
    have hback : w - 1 - (w - 1 - i) = i := by omega
    rw [bitsBE_reverseBits, List.getElem?_reverse hlength, hindex, getElem?_bitsBE n h, hback]
      at hread
    rw [decide_eq_true h, Bool.true_and]
    exact (Option.some.inj hread).symm
  · have hlt : reverseBits w n < 2 ^ i :=
      (reverseBits_lt w n).trans_le (Nat.pow_le_pow_right (by omega) (by omega))
    rw [Nat.testBit_lt_two_pow hlt, decide_eq_false h, Bool.false_and]

theorem reverseBits_xor (w a b : ℕ) :
    reverseBits w (a ^^^ b) = reverseBits w a ^^^ reverseBits w b := by
  apply Nat.eq_of_testBit_eq
  intro i
  rw [Nat.testBit_xor, testBit_reverseBits, testBit_reverseBits, testBit_reverseBits,
    Nat.testBit_xor]
  cases decide (i < w) <;> rfl

/-! ## Exp-Golomb codes -/

/-- The number of zeros in front of the code of `v`. -/
def leadingZeros (v : ℕ) : ℕ := Nat.log2 (v + 1)

/-- The code of `v`: the zeros, a one, and the bits of `v + 1` below its highest. -/
def ueCode (v : ℕ) : List Bool :=
  List.replicate (leadingZeros v) false ++ true :: bitsBE (leadingZeros v) (v + 1)

/-- The bits behind the one, and the zeros, are the number. -/
theorem ueCode_value (v : ℕ) :
    2 ^ leadingZeros v - 1 + ofBitsBE (bitsBE (leadingZeros v) (v + 1)) = v := by
  have hlow : 2 ^ leadingZeros v ≤ v + 1 := Nat.log2_self_le (Nat.succ_ne_zero v)
  have hhigh : v + 1 < 2 ^ (leadingZeros v + 1) := Nat.lt_log2_self
  rw [Nat.pow_succ] at hhigh
  rw [ofBitsBE_bitsBE, Nat.mod_eq_sub_mod hlow, Nat.mod_eq_of_lt (by omega)]
  omega

theorem leadingZeros_lt {v k : ℕ} (h : v + 1 < 2 ^ k) : leadingZeros v < k :=
  (Nat.log2_lt (Nat.succ_ne_zero v)).mpr h

/-- The number of the code of a signed value. -/
def seNumber (s : ℤ) : ℕ := if 0 < s then (2 * s - 1).toNat else (-2 * s).toNat

/-- A strict prefix of a code: zeros only, or not all of the bits behind the one. -/
theorem strict_start_cases {bits : List Bool} {v : ℕ} (h : bits <+: ueCode v)
    (hne : bits ≠ ueCode v) :
    (∃ k, bits = List.replicate k false) ∨
      ∃ k info, bits = List.replicate k false ++ true :: info ∧ info.length < k := by
  obtain ⟨rest, hrest⟩ := h
  unfold ueCode at hrest
  rcases List.append_eq_append_iff.mp hrest with ⟨more, hzeros, -⟩ | ⟨tail, hbits, htail⟩
  · left
    have hstart : bits <+: List.replicate (leadingZeros v) false := ⟨more, hzeros.symm⟩
    exact ⟨bits.length, List.eq_replicate_of_mem fun b hb =>
      List.eq_of_mem_replicate (hstart.subset hb)⟩
  · cases tail with
    | nil =>
      left
      exact ⟨leadingZeros v, by rw [hbits, List.append_nil]⟩
    | cons b info =>
      right
      rw [List.cons_append] at htail
      obtain ⟨rfl, hinfo⟩ := List.cons.inj htail
      refine ⟨leadingZeros v, info, hbits, ?_⟩
      have hlength := congrArg List.length hinfo
      rw [length_bitsBE, List.length_append] at hlength
      have hrestne : rest ≠ [] := by
        rintro rfl
        rw [List.append_nil] at hrest
        exact hne hrest
      have hpos := List.length_pos_of_ne_nil hrestne
      omega

end SrsChatRoom
