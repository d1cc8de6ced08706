import Mathlib.Tactic

/-!
# Fixed-width integers as bytes

Unsigned integers in network byte order (`bytesBE`, `ofBytesBE`) and in little-endian order
(`bytesLE`, `ofBytesLE`), with the round trip and the value of a concatenation.
-/

namespace SrsChatRoom

/-- The unsigned integer that the bytes are in network byte order. -/
def ofBytesBE : List UInt8 → ℕ
  | [] => 0
  | b :: l => b.toNat * 256 ^ l.length + ofBytesBE l

/-- The low `n` bytes of `v` in network byte order. -/
def bytesBE : ℕ → ℕ → List UInt8
  | 0, _ => []
  | n + 1, v => UInt8.ofNat (v / 256 ^ n) :: bytesBE n v

/-- What holds of the 256 bytes holds of each byte. -/
theorem byte_cases {p : UInt8 → Prop} (h : ∀ n < 256, p (UInt8.ofNat n)) (c : UInt8) : p c := by
  have hc := h c.toNat c.toNat_lt
  rwa [UInt8.ofNat_toNat] at hc

theorem ofNat_eq_zero_iff (n : ℕ) : UInt8.ofNat n = 0 ↔ n % 256 = 0 := by
  rw [← UInt8.toNat_inj]
  simp

theorem ofNat_eq_one_iff (n : ℕ) : UInt8.ofNat n = 1 ↔ n % 256 = 1 := by
  rw [← UInt8.toNat_inj]
  simp

@[simp] theorem length_bytesBE (n v : ℕ) : (bytesBE n v).length = n := by
  induction n with
  | zero => rfl
  | succ n ih => rw [bytesBE, List.length_cons, ih]

theorem ofBytesBE_lt (l : List UInt8) : ofBytesBE l < 256 ^ l.length := by
  induction l with
  | nil => simp [ofBytesBE]
  | cons b l ih =>
    have hb : b.toNat < 256 := b.toNat_lt
    rw [ofBytesBE, List.length_cons, pow_succ]
    nlinarith

theorem ofBytesBE_append (l m : List UInt8) :
    ofBytesBE (l ++ m) = ofBytesBE l * 256 ^ m.length + ofBytesBE m := by
  induction l with
  | nil =>
    rw [List.nil_append, ofBytesBE]
    omega
  | cons b l ih =>
    rw [List.cons_append, ofBytesBE, ofBytesBE, ih, List.length_append, pow_add]
    ring

/-- Writing and reading back. -/
theorem ofBytesBE_bytesBE (n v : ℕ) : ofBytesBE (bytesBE n v) = v % 256 ^ n := by
  induction n with
  | zero => simp [bytesBE, ofBytesBE, Nat.mod_one]
  | succ n ih =>
    have hbyte : (UInt8.ofNat (v / 256 ^ n)).toNat = v / 256 ^ n % 256 := by simp
    rw [bytesBE, ofBytesBE, length_bytesBE, ih, hbyte, pow_succ, Nat.mod_mul]
    ring

/-- Zero is written as zeros. -/
theorem eq_zero_of_mem_bytesBE {n : ℕ} {b : UInt8} (h : b ∈ bytesBE n 0) : b = 0 := by
  induction n with
  | zero => cases h
  | succ n ih =>
    rw [bytesBE, Nat.zero_div, List.mem_cons] at h
    cases h with
    | inl hhead => exact hhead
    | inr htail => exact ih htail

/-- Only the low `n` bytes are written. -/
theorem bytesBE_mul_pow_add (n c v : ℕ) : bytesBE n (c * 256 ^ n + v) = bytesBE n v := by
  induction n generalizing c with
  | zero => rfl
  | succ n ih =>
    have hhead : (c * 256 ^ (n + 1) + v) / 256 ^ n = c * 256 + v / 256 ^ n := by
      rw [pow_succ', ← Nat.mul_assoc, Nat.mul_comm, Nat.mul_add_div (Nat.pow_pos (by decide))]
    have htail : bytesBE n (c * 256 ^ (n + 1) + v) = bytesBE n v := by
      rw [pow_succ', ← Nat.mul_assoc]
      exact ih (c * 256)
    rw [bytesBE, bytesBE, htail, hhead]
    congr 1
    apply UInt8.toNat_inj.mp
    simp

/-- Reading and writing back. -/
theorem bytesBE_ofBytesBE (l : List UInt8) : bytesBE l.length (ofBytesBE l) = l := by
  induction l with
  | nil => rfl
  | cons b l ih =>
    have hlt := ofBytesBE_lt l
    have hhead : (b.toNat * 256 ^ l.length + ofBytesBE l) / 256 ^ l.length = b.toNat := by
      rw [Nat.mul_comm, Nat.mul_add_div (Nat.pow_pos (by decide)), Nat.div_eq_of_lt hlt,
        Nat.add_zero]
    rw [List.length_cons, ofBytesBE, bytesBE, bytesBE_mul_pow_add, ih, hhead, UInt8.ofNat_toNat]

/-- A length below half of what its bytes can hold is read as it is. -/
theorem bmod_length {k n : ℕ} (h : 2 * n < 256 ^ k) : Int.bmod (n : ℤ) (256 ^ k) = n := by
  generalize 256 ^ k = m at h ⊢
  apply Int.bmod_eq_of_le_mul_two <;> omega

/-- One from half of that on is read as a negative number. -/
theorem bmod_length_neg {k n : ℕ} (hlt : n < 256 ^ k) (h : 256 ^ k ≤ 2 * n) :
    Int.bmod (n : ℤ) (256 ^ k) < 0 := by
  have heven : k = 0 ∨ 2 ∣ 256 ^ k := by
    cases k with
    | zero => exact .inl rfl
    | succ k => exact .inr ((by decide : 2 ∣ 256).trans (dvd_pow_self 256 (Nat.succ_ne_zero k)))
  generalize 256 ^ k = m at hlt h heven ⊢
  have hmod : (n : ℤ) % m = n := Int.emod_eq_of_lt (by omega) (by omega)
  rw [Int.bmod_neg] <;> omega

/-- The unsigned integer that the bytes are in little-endian order. -/
def ofBytesLE (l : List UInt8) : ℕ := ofBytesBE l.reverse

/-- The low `n` bytes of `v` in little-endian order. -/
def bytesLE (n v : ℕ) : List UInt8 := (bytesBE n v).reverse

@[simp] theorem length_bytesLE (n v : ℕ) : (bytesLE n v).length = n := by
  rw [bytesLE, List.length_reverse, length_bytesBE]

theorem ofBytesLE_bytesLE (n v : ℕ) : ofBytesLE (bytesLE n v) = v % 256 ^ n := by
  rw [ofBytesLE, bytesLE, List.reverse_reverse, ofBytesBE_bytesBE]

end SrsChatRoom
