import Mathlib.Data.LawfulXor.Basic
import SrsChatRoom.Lib.Bits

/-!
# Cyclic redundancy checks

A check takes the bits of a message into a register, one by one, and divides the register by the
polynomial (`crcShift`). `CrcModel` has the parameters by which checks differ.

A reflected check takes the lowest bit of each byte first, and keeps its register in reverse order:
there the division is `crcStep`. It is linear over exclusive or (`crcSteps_xor`), so that a byte of
the register can be looked up in a table (`crcByte_eq_table`, `crcShifts_byte`). Where the polynomial
is odd no step loses a bit (`crcStep_inj`), so that errors close together change the check
(`CrcModel.crc_ne`).
-/

namespace SrsChatRoom

/-! ## Exclusive or of numbers -/

/-- The numbers below a power of two and the multiples of it. -/
theorem xor_low_high (r n : ℕ) : r % 2 ^ n ^^^ (r >>> n) <<< n = r := by
  apply Nat.eq_of_testBit_eq
  intro i
  rw [Nat.testBit_xor, Nat.testBit_mod_two_pow, Nat.testBit_shiftLeft, Nat.testBit_shiftRight]
  by_cases h : i < n
  · have hle : ¬ i ≥ n := by omega
    simp [h, hle]
  · have hle : i ≥ n := by omega
    have hadd : n + (i - n) = i := by omega
    simp [h, hle, hadd]

/-- Exclusive or with a number twice. -/
theorem xor_xor_self (a b : ℕ) : a ^^^ b ^^^ b = a := by
  rw [Nat.xor_assoc, Nat.xor_self, Nat.xor_zero]

/-! ## The division -/

/-- One bit of the division by the polynomial. -/
def crcStep (poly r : ℕ) : ℕ := if r.testBit 0 then r >>> 1 ^^^ poly else r >>> 1

/-- A byte is taken into the register. -/
def crcByte (poly reg : ℕ) (b : UInt8) : ℕ := (crcStep poly)^[8] (reg ^^^ b.toNat)

/-- The register after a message. -/
def crcRegister (poly init : ℕ) (bytes : List UInt8) : ℕ := bytes.foldl (crcByte poly) init

/-- CRC-32: the register starts with ones, and is complemented at the end. -/
def crc32 (bytes : List UInt8) : ℕ := crcRegister 0xEDB88320 0xffffffff bytes ^^^ 0xffffffff

variable (poly : ℕ)

theorem crcStep_xor (a b : ℕ) : crcStep poly (a ^^^ b) = crcStep poly a ^^^ crcStep poly b := by
  unfold crcStep
  rw [Nat.testBit_xor, Nat.shiftRight_xor_distrib]
  cases ha : a.testBit 0 with
  | false =>
    cases hb : b.testBit 0 with
    | false => rfl
    | true => exact Nat.xor_assoc _ _ _
  | true =>
    cases hb : b.testBit 0 with
    | false =>
      show a >>> 1 ^^^ b >>> 1 ^^^ poly = a >>> 1 ^^^ poly ^^^ b >>> 1
      rw [Nat.xor_assoc, Nat.xor_comm (b >>> 1), Nat.xor_assoc]
    | true =>
      show a >>> 1 ^^^ b >>> 1 = a >>> 1 ^^^ poly ^^^ (b >>> 1 ^^^ poly)
      rw [Nat.xor_assoc, Nat.xor_comm poly, xor_xor_self]

theorem crcSteps_xor (n a b : ℕ) :
    (crcStep poly)^[n] (a ^^^ b) = (crcStep poly)^[n] a ^^^ (crcStep poly)^[n] b := by
  induction n generalizing a b with
  | zero => rfl
  | succ n ih =>
    rw [Function.iterate_succ_apply, Function.iterate_succ_apply, Function.iterate_succ_apply,
      crcStep_xor, ih]

/-- Zeros at the end only move the register. -/
theorem crcSteps_shiftLeft (n m : ℕ) : (crcStep poly)^[n] (m <<< n) = m := by
  induction n with
  | zero => rfl
  | succ n ih =>
    have heven : (m <<< (n + 1)).testBit 0 = false := by
      rw [Nat.testBit_shiftLeft]
      rfl
    have hshift : m <<< (n + 1) >>> 1 = m <<< n := by
      rw [Nat.shiftLeft_succ, Nat.shiftRight_one]
      omega
    rw [Function.iterate_succ_apply, crcStep, heven, if_neg Bool.false_ne_true, hshift, ih]

/-- The low byte of the register comes from the table, and the others are moved down. -/
theorem crcByte_eq_table (reg : ℕ) (b : UInt8) :
    crcByte poly reg b = (crcStep poly)^[8] ((reg ^^^ b.toNat) % 256) ^^^ reg >>> 8 := by
  have hb : b.toNat >>> 8 = 0 := by
    have hlt : b.toNat < 256 := b.toNat_lt
    rw [Nat.shiftRight_eq_div_pow]
    omega
  have hhigh : (reg ^^^ b.toNat) >>> 8 = reg >>> 8 := by
    rw [Nat.shiftRight_xor_distrib, hb, Nat.xor_zero]
  calc crcByte poly reg b
      = (crcStep poly)^[8] ((reg ^^^ b.toNat) % 2 ^ 8 ^^^ ((reg ^^^ b.toNat) >>> 8) <<< 8) := by
        rw [crcByte, xor_low_high]
    _ = (crcStep poly)^[8] ((reg ^^^ b.toNat) % 2 ^ 8) ^^^ reg >>> 8 := by
        rw [crcSteps_xor, crcSteps_shiftLeft, hhigh]

/-- The register keeps the width of the polynomial. -/
theorem crcStep_lt {w r : ℕ} (hpoly : poly < 2 ^ w) (h : r < 2 ^ w) : crcStep poly r < 2 ^ w := by
  have hshift : r >>> 1 < 2 ^ w := by
    rw [Nat.shiftRight_one]
    omega
  unfold crcStep
  split
  · exact Nat.xor_lt_two_pow hshift hpoly
  · exact hshift

theorem crcSteps_lt {w r : ℕ} (hpoly : poly < 2 ^ w) (n : ℕ) (h : r < 2 ^ w) :
    (crcStep poly)^[n] r < 2 ^ w := by
  induction n generalizing r with
  | zero => exact h
  | succ n ih =>
    rw [Function.iterate_succ_apply]
    exact ih (crcStep_lt poly hpoly h)

theorem crcRegister_lt {w init : ℕ} (hpoly : poly < 2 ^ w) (hw : 8 ≤ w) (h : init < 2 ^ w)
    (bytes : List UInt8) : crcRegister poly init bytes < 2 ^ w := by
  unfold crcRegister
  induction bytes generalizing init with
  | nil => exact h
  | cons b bytes ih =>
    have hb : b.toNat < 2 ^ w := b.toNat_lt.trans_le (Nat.pow_le_pow_right (by omega) hw)
    exact ih (crcSteps_lt poly hpoly 8 (Nat.xor_lt_two_pow h hb))

/-! ## The division bit by bit -/

/-- A bit of the message is taken into a register of `w` bits, and the polynomial is subtracted if
the bit that leaves the register is another one. -/
def crcShift (w poly reg : ℕ) (bit : Bool) : ℕ :=
  if reg.testBit (w - 1) = bit then 2 * reg % 2 ^ w else 2 * reg % 2 ^ w ^^^ poly

/-- The parameters of a check. -/
structure CrcModel where
  width : ℕ
  poly : ℕ
  reflectIn : Bool
  xorIn : ℕ
  reflectOut : Bool
  xorOut : ℕ

/-- The check of a message, bit by bit. -/
def CrcModel.crc (m : CrcModel) (bytes : List UInt8) : ℕ :=
  let bits := bytes.flatMap fun b =>
    if m.reflectIn then (bitsBE 8 b.toNat).reverse else bitsBE 8 b.toNat
  let reg := bits.foldl (crcShift m.width m.poly) m.xorIn
  (if m.reflectOut then reverseBits m.width reg else reg) ^^^ m.xorOut

section Division

variable {poly} {w reg : ℕ}

theorem crcShift_lt (hpoly : poly < 2 ^ w) (reg : ℕ) (bit : Bool) :
    crcShift w poly reg bit < 2 ^ w := by
  have hmod : 2 * reg % 2 ^ w < 2 ^ w := Nat.mod_lt _ (Nat.two_pow_pos w)
  unfold crcShift
  split
  · exact hmod
  · exact Nat.xor_lt_two_pow hmod hpoly

theorem crcShifts_lt (hpoly : poly < 2 ^ w) (bits : List Bool) (h : reg < 2 ^ w) :
    bits.foldl (crcShift w poly) reg < 2 ^ w := by
  induction bits generalizing reg with
  | nil => exact h
  | cons bit bits ih => exact ih (crcShift_lt hpoly reg bit)

/-- In reverse order a shift up is a shift down. -/
theorem reverseBits_double (reg : ℕ) :
    reverseBits w (2 * reg % 2 ^ w) = reverseBits w reg >>> 1 := by
  apply Nat.eq_of_testBit_eq
  intro i
  have htwice : 2 * reg = reg <<< 1 := by rw [Nat.shiftLeft_eq, Nat.pow_one, Nat.mul_comm]
  rw [Nat.testBit_shiftRight, testBit_reverseBits, testBit_reverseBits, Nat.testBit_mod_two_pow,
    htwice, Nat.testBit_shiftLeft]
  by_cases hi : 1 + i < w
  · have hlt : i < w := by omega
    have hin : w - 1 - i < w := by omega
    have hge : w - 1 - i ≥ 1 := by omega
    have hindex : w - 1 - i - 1 = w - 1 - (1 + i) := by omega
    simp [hi, hlt, hin, hge, hindex]
  · have hge : ¬ w - 1 - i ≥ 1 := by omega
    simp [hi, hge]

/-- In reverse order the division takes the lowest bit. -/
theorem reverseBits_crcShift (hw : 0 < w) (reg : ℕ) (bit : Bool) :
    reverseBits w (crcShift w poly reg bit) =
      crcStep (reverseBits w poly) (reverseBits w reg ^^^ bit.toNat) := by
  have hshift : bit.toNat >>> 1 = 0 := by cases bit <;> rfl
  have hbit : bit.toNat.testBit 0 = bit := by cases bit <;> rfl
  have hhigh : (reverseBits w reg).testBit 0 = reg.testBit (w - 1) := by
    rw [testBit_reverseBits, decide_eq_true hw, Bool.true_and, Nat.sub_zero]
  have hboth : (reverseBits w reg ^^^ bit.toNat) >>> 1 = reverseBits w reg >>> 1 := by
    rw [Nat.shiftRight_xor_distrib, hshift, Nat.xor_zero]
  unfold crcShift crcStep
  rw [Nat.testBit_xor, hhigh, hbit, hboth, ← reverseBits_double]
  by_cases h : reg.testBit (w - 1) = bit
  · rw [if_pos h, h, Bool.xor_self, if_neg Bool.false_ne_true]
  · have hxor : (reg.testBit (w - 1) ^^ bit) = true := by
      rw [Bool.eq_not.mpr h, Bool.not_xor, Bool.xor_self]
      rfl
    rw [if_neg h, if_pos hxor, reverseBits_xor]

/-- Bits that are taken one by one are taken at once, the first of them lowest. -/
theorem crcSteps_bits (poly reg : ℕ) (bits : List Bool) :
    bits.foldl (fun r bit => crcStep poly (r ^^^ bit.toNat)) reg =
      (crcStep poly)^[bits.length] (reg ^^^ ofBitsBE bits.reverse) := by
  induction bits generalizing reg with
  | nil => exact (Nat.xor_zero reg).symm
  | cons bit bits ih =>
    have hvalue : ofBitsBE (bit :: bits).reverse = ofBitsBE bits.reverse <<< 1 ^^^ bit.toNat := by
      have hodd : ofBitsBE bits.reverse <<< 1 ^^^ bit.toNat =
          2 ^ 1 * ofBitsBE bits.reverse + bit.toNat := by
        have hlt : bit.toNat < 2 ^ 1 := bit.toNat_lt
        rw [Nat.two_pow_add_eq_or_of_lt hlt, Nat.mul_comm, ← Nat.shiftLeft_eq]
        apply Nat.eq_of_testBit_eq
        intro i
        rw [Nat.testBit_xor, Nat.testBit_or, Nat.testBit_shiftLeft]
        cases i with
        | zero => cases bit <;> rfl
        | succ i =>
          have hzero : bit.toNat.testBit (i + 1) = false :=
            Nat.testBit_lt_two_pow (hlt.trans_le (Nat.pow_le_pow_right (by omega) (by omega)))
          rw [hzero, Bool.xor_false, Bool.or_false]
      rw [List.reverse_cons, ofBitsBE_append_singleton, hodd, Nat.pow_one]
    have hone : crcStep poly (ofBitsBE bits.reverse <<< 1) = ofBitsBE bits.reverse :=
      crcSteps_shiftLeft poly 1 (ofBitsBE bits.reverse)
    have hfirst : crcStep poly (reg ^^^ ofBitsBE (bit :: bits).reverse) =
        crcStep poly (reg ^^^ bit.toNat) ^^^ ofBitsBE bits.reverse := by
      rw [hvalue, Nat.xor_comm (ofBitsBE bits.reverse <<< 1), ← Nat.xor_assoc, crcStep_xor, hone]
    rw [List.foldl_cons, ih, List.length_cons, Function.iterate_succ_apply, hfirst]

/-- The register in reverse order. -/
theorem reverseBits_crcShifts (hw : 0 < w) (reg : ℕ) (bits : List Bool) :
    reverseBits w (bits.foldl (crcShift w poly) reg) =
      (crcStep (reverseBits w poly))^[bits.length]
        (reverseBits w reg ^^^ ofBitsBE bits.reverse) := by
  rw [← crcSteps_bits]
  induction bits generalizing reg with
  | nil => rfl
  | cons bit bits ih => rw [List.foldl_cons, List.foldl_cons, ih, reverseBits_crcShift hw]

/-- A check that takes the lowest bits first, by its register in reverse order. -/
theorem reverseBits_register (hw : 0 < w) (reg : ℕ) (bytes : List UInt8) :
    reverseBits w ((bytes.flatMap fun b => (bitsBE 8 b.toNat).reverse).foldl (crcShift w poly) reg) =
      crcRegister (reverseBits w poly) (reverseBits w reg) bytes := by
  induction bytes generalizing reg with
  | nil => rfl
  | cons b bytes ih =>
    have hb : b.toNat % 2 ^ 8 = b.toNat := Nat.mod_eq_of_lt b.toNat_lt
    have hbyte : reverseBits w ((bitsBE 8 b.toNat).reverse.foldl (crcShift w poly) reg) =
        crcByte (reverseBits w poly) (reverseBits w reg) b := by
      rw [reverseBits_crcShifts hw, List.reverse_reverse, ofBitsBE_bitsBE, hb, List.length_reverse,
        length_bitsBE]
      rfl
    rw [List.flatMap_cons, List.foldl_append, ih, hbyte]
    rfl

/-- The highest byte of a register comes from a table, and the others are moved up. -/
theorem crcShifts_byte (hpoly : poly < 2 ^ w) (hw : 8 ≤ w) (h : reg < 2 ^ w) (b : UInt8) :
    (bitsBE 8 b.toNat).foldl (crcShift w poly) reg =
      reverseBits w ((crcStep (reverseBits w poly))^[8]
        (reverseBits 8 (reg >>> (w - 8) ^^^ b.toNat))) ^^^ reg <<< 8 % 2 ^ w := by
  have hb : (UInt8.ofNat (reverseBits 8 b.toNat)).toNat = reverseBits 8 b.toNat := by
    rw [UInt8.toNat_ofNat', Nat.mod_eq_of_lt (reverseBits_lt 8 b.toNat)]
  have hlow : (reverseBits w reg ^^^ reverseBits 8 b.toNat) % 2 ^ 8 =
      reverseBits 8 (reg >>> (w - 8) ^^^ b.toNat) := by
    rw [reverseBits_xor, Nat.xor_mod_two_pow, Nat.mod_eq_of_lt (reverseBits_lt 8 b.toNat)]
    congr 1
    apply Nat.eq_of_testBit_eq
    intro i
    rw [Nat.testBit_mod_two_pow, testBit_reverseBits, testBit_reverseBits, Nat.testBit_shiftRight]
    by_cases hi : i < 8
    · have hlt : i < w := by omega
      have hindex : w - 8 + (8 - 1 - i) = w - 1 - i := by omega
      simp [hi, hlt, hindex]
    · simp [hi]
  have hup : reverseBits w (reverseBits w reg >>> 8) = reg <<< 8 % 2 ^ w := by
    apply Nat.eq_of_testBit_eq
    intro i
    rw [testBit_reverseBits, Nat.testBit_shiftRight, testBit_reverseBits, Nat.testBit_mod_two_pow,
      Nat.testBit_shiftLeft]
    by_cases hi : i < w
    · by_cases hge : i ≥ 8
      · have hlt : 8 + (w - 1 - i) < w := by omega
        have hindex : w - 1 - (8 + (w - 1 - i)) = i - 8 := by omega
        simp [hi, hge, hlt, hindex]
      · have hlt : ¬ 8 + (w - 1 - i) < w := by omega
        simp [hi, hge, hlt]
    · simp [hi]
  have htable := crcByte_eq_table (reverseBits w poly) (reverseBits w reg)
    (UInt8.ofNat (reverseBits 8 b.toNat))
  rw [crcByte, hb] at htable
  have hreverse := @reverseBits_crcShifts poly w (by omega) reg (bitsBE 8 b.toNat)
  rw [length_bitsBE] at hreverse
  calc (bitsBE 8 b.toNat).foldl (crcShift w poly) reg
      = reverseBits w (reverseBits w ((bitsBE 8 b.toNat).foldl (crcShift w poly) reg)) := by
        rw [reverseBits_reverseBits, Nat.mod_eq_of_lt (crcShifts_lt hpoly _ h)]
    _ = reverseBits w ((crcStep (reverseBits w poly))^[8]
          ((reverseBits w reg ^^^ reverseBits 8 b.toNat) % 2 ^ 8) ^^^ reverseBits w reg >>> 8) := by
        rw [hreverse]
        exact congrArg (reverseBits w) htable
    _ = _ := by rw [reverseBits_xor, hup, hlow]

end Division

/-! ## Bursts of errors -/

/-- The bits of some bytes, in the order in which the check takes them. -/
def CrcModel.bits (m : CrcModel) (bytes : List UInt8) : List Bool :=
  bytes.flatMap fun b => if m.reflectIn then (bitsBE 8 b.toNat).reverse else bitsBE 8 b.toNat

/-- Messages of one length that differ in their bits, but only within `n` bits in a row. -/
def CrcModel.Burst (m : CrcModel) (n : ℕ) (u v : List UInt8) : Prop :=
  ∃ front x y back, m.bits u = front ++ x ++ back ∧ m.bits v = front ++ y ++ back ∧
    x.length = y.length ∧ x.length ≤ n ∧ x ≠ y

/-- The polynomial fits the register, and its lowest bit is set. -/
structure CrcModel.Proper (m : CrcModel) : Prop where
  width_pos : 0 < m.width
  poly_lt : m.poly < 2 ^ m.width
  odd : (reverseBits m.width m.poly).testBit (m.width - 1) = true
  xorIn_lt : m.xorIn < 2 ^ m.width

section Burst

variable {w p a b : ℕ}

/-- Two registers that differ still differ after a step. -/
theorem crcStep_inj (hw : 0 < w) (hp : p.testBit (w - 1) = true) (ha : a < 2 ^ w) (hb : b < 2 ^ w)
    (h : crcStep p a = crcStep p b) : a = b := by
  have hd : a ^^^ b < 2 ^ (w - 1) * 2 := by
    rw [← Nat.pow_succ, Nat.succ_eq_add_one, Nat.sub_add_cancel hw]
    exact Nat.xor_lt_two_pow ha hb
  have hstep : crcStep p (a ^^^ b) = 0 := by rw [crcStep_xor, h, Nat.xor_self]
  apply xor_eq_zero_iff.mp
  generalize a ^^^ b = d at hd hstep
  unfold crcStep at hstep
  split at hstep
  · -- the polynomial would have no highest bit
    have hhalf : d >>> 1 < 2 ^ (w - 1) := by omega
    rw [xor_eq_zero_iff.mp hstep] at hhalf
    rw [Nat.testBit_lt_two_pow hhalf] at hp
    cases hp
  · next heven =>
    rw [Nat.testBit_zero, decide_eq_true_eq] at heven
    omega

theorem crcSteps_inj (hw : 0 < w) (hpoly : p < 2 ^ w) (hp : p.testBit (w - 1) = true) (n : ℕ)
    (ha : a < 2 ^ w) (hb : b < 2 ^ w) (h : (crcStep p)^[n] a = (crcStep p)^[n] b) : a = b := by
  induction n generalizing a b with
  | zero => exact h
  | succ n ih =>
    exact crcStep_inj hw hp ha hb (ih (crcStep_lt p hpoly ha) (crcStep_lt p hpoly hb) h)

/-- Registers that differ still differ after the same bits. -/
theorem crcShifts_inj (hw : 0 < w) (hodd : (reverseBits w p).testBit (w - 1) = true)
    (ha : a < 2 ^ w) (hb : b < 2 ^ w) {bits : List Bool}
    (h : bits.foldl (crcShift w p) a = bits.foldl (crcShift w p) b) : a = b := by
  have hsteps := congrArg (reverseBits w) h
  rw [reverseBits_crcShifts hw, reverseBits_crcShifts hw, crcSteps_xor, crcSteps_xor] at hsteps
  have hreverse := crcSteps_inj hw (reverseBits_lt w p) hodd _ (reverseBits_lt w a)
    (reverseBits_lt w b) ((xor_left_involutive _).injective hsteps)
  rw [← Nat.mod_eq_of_lt ha, ← Nat.mod_eq_of_lt hb, ← reverseBits_reverseBits, hreverse,
    reverseBits_reverseBits]

/-- Bits that differ and fit the register leave it different. -/
theorem crcShifts_bits_inj (hw : 0 < w) (hodd : (reverseBits w p).testBit (w - 1) = true)
    {l l' : List Bool} (hlen : l.length = l'.length) (hfits : l.length ≤ w)
    (h : l.foldl (crcShift w p) a = l'.foldl (crcShift w p) a) : l = l' := by
  have hlt : ∀ bits : List Bool, bits.length ≤ w → ofBitsBE bits.reverse < 2 ^ w := fun bits hle =>
    (ofBitsBE_lt _).trans_le (Nat.pow_le_pow_right (by omega) (by simpa using hle))
  have hsteps := congrArg (reverseBits w) h
  rw [reverseBits_crcShifts hw, reverseBits_crcShifts hw, crcSteps_xor, crcSteps_xor,
    ← hlen] at hsteps
  have hvalues := crcSteps_inj hw (reverseBits_lt w p) hodd _ (hlt l hfits)
    (hlt l' (hlen ▸ hfits)) ((xor_right_involutive _).injective hsteps)
  have hbits := congrArg (bitsBE l.reverse.length) hvalues
  rw [bitsBE_ofBitsBE, List.length_reverse, hlen, ← List.length_reverse, bitsBE_ofBitsBE] at hbits
  exact List.reverse_injective hbits

/-- A burst that fits the register changes the check. -/
theorem CrcModel.crc_ne {m : CrcModel} (hm : m.Proper) {u v : List UInt8}
    (h : m.Burst m.width u v) : m.crc u ≠ m.crc v := by
  obtain ⟨front, x, y, back, hu, hv, hlen, hfits, hne⟩ := h
  intro hcrc
  have hlt := fun l => crcShifts_lt hm.poly_lt l hm.xorIn_lt
  have hregister : (m.bits u).foldl (crcShift m.width m.poly) m.xorIn =
      (m.bits v).foldl (crcShift m.width m.poly) m.xorIn := by
    have hout := (xor_left_involutive m.xorOut).injective hcrc
    split at hout
    · have hreverse := congrArg (reverseBits m.width) hout
      rw [reverseBits_reverseBits, reverseBits_reverseBits] at hreverse
      rwa [Nat.mod_eq_of_lt (hlt _), Nat.mod_eq_of_lt (hlt _)] at hreverse
    · exact hout
  rw [hu, hv, List.foldl_append, @List.foldl_append _ _ _ _ _ back] at hregister
  have hfold := crcShifts_inj hm.width_pos hm.odd (hlt _) (hlt _) hregister
  rw [List.foldl_append, List.foldl_append] at hfold
  exact hne (crcShifts_bits_inj hm.width_pos hm.odd hlen hfits hfold)

end Burst

end SrsChatRoom
