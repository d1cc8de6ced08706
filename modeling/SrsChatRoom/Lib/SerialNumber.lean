import Mathlib.Tactic

/-!
# Serial numbers of 16 bits

A sender numbers its packets 0, 1, 2 and so on, and writes the low 16 bits of the number into each
packet (`seqOf`). The receiver compares two of them by the sign of their difference as a signed
integer of 16 bits (`seqDistance`). This is the difference of the numbers as long as they are less
than 2^15 apart (`seqDistance_near`).
-/

namespace SrsChatRoom

/-- The low 16 bits of a number. -/
def seqOf (n : ℤ) : UInt16 := UInt16.ofInt n

theorem toNat_seqOf (n : ℤ) : ((seqOf n).toNat : ℤ) = n % 65536 := by
  have hnonneg : 0 ≤ n % 65536 := Int.emod_nonneg n (by decide)
  have hlt : n % 65536 < 65536 := Int.emod_lt_of_pos n (by decide)
  show (((UInt16.ofNat (n % 2 ^ 16).toNat).toNat : ℕ) : ℤ) = _
  rw [UInt16.toNat_ofNat']
  omega

theorem seqOf_eq_iff (a b : ℤ) : seqOf a = seqOf b ↔ a % 65536 = b % 65536 := by
  rw [← UInt16.toNat_inj, ← toNat_seqOf, ← toNat_seqOf, Nat.cast_inj]

theorem seqOf_succ (n : ℤ) : seqOf (n + 1) = seqOf n + 1 := UInt16.ofInt_add n 1

/-- The difference as a signed integer of 16 bits. -/
def seqDistance (prev value : UInt16) : ℤ := (value - prev).toInt16.toInt

theorem seqDistance_seqOf (a b : ℤ) :
    seqDistance (seqOf a) (seqOf b) = (b - a + 32768) % 65536 - 32768 := by
  have ha := toNat_seqOf a
  have hb := toNat_seqOf b
  have hlt : (seqOf a).toNat < 65536 := (seqOf a).toNat_lt
  have hsub : (seqOf b - seqOf a).toNat =
      (65536 - (seqOf a).toNat + (seqOf b).toNat) % 65536 := UInt16.toNat_sub _ _
  have hsigned : seqDistance (seqOf a) (seqOf b) =
      if 2 * (seqOf b - seqOf a).toNat < 65536 then ((seqOf b - seqOf a).toNat : ℤ)
      else (seqOf b - seqOf a).toNat - 65536 := BitVec.toInt_eq_toNat_cond _
  rw [hsigned, hsub]
  split <;> omega

/-- Numbers that are less than 2^15 apart are compared as they should be. -/
theorem seqDistance_near {a b : ℤ} (hlow : -32768 ≤ b - a) (hhigh : b - a < 32768) :
    seqDistance (seqOf a) (seqOf b) = b - a := by
  rw [seqDistance_seqOf]
  omega

end SrsChatRoom
