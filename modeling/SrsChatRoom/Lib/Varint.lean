import SrsChatRoom.Lib.Bytes

/-!
# Base-128 numbers

A number in groups of seven bits, the lowest first. All bytes but the last have their high bit set.

* `decodeVarint_varint` - a number is read back;
* `length_varint_le` - no sequence of bytes that is read as the number is shorter.
-/

namespace SrsChatRoom

/-- The groups of a number. -/
def varint (v : ℕ) : List UInt8 :=
  if v < 128 then [UInt8.ofNat v] else UInt8.ofNat (v % 128 + 128) :: varint (v / 128)

/-- The number at the front, and what is behind it. -/
def decodeVarint : List UInt8 → Option (ℕ × List UInt8)
  | [] => none
  | b :: l =>
    if b.toNat < 128 then some (b.toNat, l)
    else (decodeVarint l).map fun found => (b.toNat - 128 + 128 * found.1, found.2)

variable {v : ℕ}

theorem varint_last (h : v < 128) : varint v = [UInt8.ofNat v] := by
  rw [varint, if_pos h]

theorem varint_more (h : 128 ≤ v) : varint v = UInt8.ofNat (v % 128 + 128) :: varint (v / 128) := by
  rw [varint, if_neg (by omega)]

/-- A number is read back, whatever is behind it. -/
theorem decodeVarint_varint (v : ℕ) (l : List UInt8) :
    decodeVarint (varint v ++ l) = some (v, l) := by
  induction v using Nat.strong_induction_on with
  | h v ih =>
    by_cases hlast : v < 128
    · have hbyte : (UInt8.ofNat v).toNat = v := by
        rw [UInt8.toNat_ofNat']
        omega
      rw [varint_last hlast, List.singleton_append, decodeVarint, hbyte, if_pos hlast]
    · have hbyte : (UInt8.ofNat (v % 128 + 128)).toNat = v % 128 + 128 := by
        rw [UInt8.toNat_ofNat']
        omega
      have hvalue : v % 128 + 128 - 128 + 128 * (v / 128) = v := by omega
      rw [varint_more (by omega), List.cons_append, decodeVarint, hbyte, if_neg (by omega),
        ih (v / 128) (by omega), Option.map_some, hvalue]

/-! ## Lengths -/

/-- The groups up to the highest are needed. -/
theorem lt_length_varint {k : ℕ} (h : 128 ^ k ≤ v) : k < (varint v).length := by
  induction k generalizing v with
  | zero =>
    unfold varint
    split <;> simp
  | succ k ih =>
    have hpos : 1 ≤ 128 ^ k := Nat.one_le_pow k 128 (by omega)
    rw [pow_succ] at h
    rw [varint_more (by omega), List.length_cons]
    have hrest := ih (v := v / 128) (by omega)
    omega

/-- No group is above the highest. -/
theorem length_varint_le_of_lt {k : ℕ} (h : v < 128 ^ (k + 1)) : (varint v).length ≤ k + 1 := by
  induction k generalizing v with
  | zero => rw [varint_last (by omega), List.length_singleton]
  | succ k ih =>
    by_cases hlast : v < 128
    · rw [varint_last hlast, List.length_singleton]
      omega
    · rw [pow_succ] at h
      rw [varint_more (by omega), List.length_cons]
      have hrest := ih (v := v / 128) (by omega)
      omega

/-- `n` bytes hold less than `128 ^ n`. -/
theorem decodeVarint_lt {l rest : List UInt8} (h : decodeVarint l = some (v, rest)) :
    v < 128 ^ l.length := by
  induction l generalizing v with
  | nil => cases h
  | cons b l ih =>
    have hb := b.toNat_lt
    have hpos : 0 < 128 ^ l.length := Nat.pow_pos (by omega)
    rw [List.length_cons, pow_succ]
    unfold decodeVarint at h
    split at h
    · cases h
      omega
    · obtain ⟨⟨w, rest'⟩, hw, heq⟩ := Option.map_eq_some_iff.mp h
      cases heq
      have hlt := ih hw
      dsimp only
      omega

/-- No sequence of bytes that is read as the number is shorter. -/
theorem length_varint_le {l rest : List UInt8} (h : decodeVarint l = some (v, rest)) :
    (varint v).length ≤ l.length := by
  have hlt := decodeVarint_lt h
  cases hl : l.length with
  | zero =>
    rw [List.length_eq_zero_iff.mp hl] at h
    cases h
  | succ k =>
    rw [hl] at hlt
    exact length_varint_le_of_lt hlt

end SrsChatRoom
