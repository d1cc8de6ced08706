import Mathlib.Data.List.TakeWhile
import Mathlib.Tactic

/-!
# Numbers in hexadecimal

* `showHex` - a number as `%x` prints it;
* `strtol16` - the number at the front of a text, read into 64 bits, and where it ends.
-/

namespace SrsChatRoom.Hex

/-- The value of a digit. -/
def digit (b : UInt8) : Option ℕ :=
  if 48 ≤ b ∧ b ≤ 57 then some (b.toNat - 48)
  else if 97 ≤ b ∧ b ≤ 102 then some (b.toNat - 87)
  else if 65 ≤ b ∧ b ≤ 70 then some (b.toNat - 55)
  else none

def isDigit (b : UInt8) : Bool := (digit b).isSome

/-- `snprintf("%x")` -/
def showHex (n : ℕ) : List UInt8 := (Nat.toDigits 16 n).map fun c => UInt8.ofNat c.toNat

/-- The number that digits are, behind some digits of the value `n`. -/
def ofDigits (n : ℕ) (s : List UInt8) : ℕ := s.foldl (fun n b => 16 * n + (digit b).getD 0) n

def isSpace (b : UInt8) : Bool := b = 32 ∨ 9 ≤ b ∧ b ≤ 13

/-- The length of the prefix `0x`, which is one only in front of a digit. -/
def prefixLength : List UInt8 → ℕ
  | 48 :: x :: b :: _ => if (x = 120 ∨ x = 88) ∧ isDigit b then 2 else 0
  | _ => 0

/-- `strtol(s, &end, 16)`: the value, `end - s`, and whether the value was out of range. -/
def strtol16 (s : List UInt8) : ℤ × ℕ × Bool :=
  let spaces := (s.takeWhile isSpace).length
  let signed := s.drop spaces
  let sign := if signed.head? = some 43 ∨ signed.head? = some 45 then 1 else 0
  let unsigned := signed.drop sign
  let digits := (unsigned.drop (prefixLength unsigned)).takeWhile isDigit
  let value : ℤ := if signed.head? = some 45 then -ofDigits 0 digits else ofDigits 0 digits
  if digits = [] then (0, 0, false)
  else if 2 ^ 63 ≤ value then (2 ^ 63 - 1, spaces + sign + prefixLength unsigned + digits.length, true)
  else if value < -2 ^ 63 then (-2 ^ 63, spaces + sign + prefixLength unsigned + digits.length, true)
  else (value, spaces + sign + prefixLength unsigned + digits.length, false)

/-! ## Writing and reading back -/

theorem digit_digitChar : ∀ d < 16, digit (UInt8.ofNat (Nat.digitChar d).toNat) = some d := by
  decide

variable {n : ℕ}

theorem showHex_of_lt (h : n < 16) : showHex n = [UInt8.ofNat (Nat.digitChar n).toNat] := by
  rw [showHex, Nat.toDigits_of_lt_base h]
  rfl

theorem showHex_of_le (h : 16 ≤ n) :
    showHex n = showHex (n / 16) ++ [UInt8.ofNat (Nat.digitChar (n % 16)).toNat] := by
  rw [showHex, Nat.toDigits_of_base_le (by decide) h, List.map_append]
  rfl

theorem showHex_ne_nil (n : ℕ) : showHex n ≠ [] := by
  rw [showHex, Ne, List.map_eq_nil_iff]
  exact Nat.toDigits_ne_nil

theorem isDigit_showHex (n : ℕ) : ∀ b ∈ showHex n, isDigit b = true := by
  induction n using Nat.strong_induction_on with
  | _ n ih =>
    by_cases h : n < 16
    · rw [showHex_of_lt h]
      intro b hb
      rw [List.mem_singleton.mp hb, isDigit, digit_digitChar n h]
      rfl
    · rw [showHex_of_le (not_lt.mp h)]
      intro b hb
      rcases List.mem_append.mp hb with hb | hb
      · exact ih (n / 16) (by omega) b hb
      · rw [List.mem_singleton.mp hb, isDigit, digit_digitChar _ (Nat.mod_lt _ (by decide))]
        rfl

theorem ofDigits_append (n : ℕ) (s t : List UInt8) :
    ofDigits n (s ++ t) = ofDigits (ofDigits n s) t := List.foldl_append

theorem ofDigits_showHex (n : ℕ) : ofDigits 0 (showHex n) = n := by
  induction n using Nat.strong_induction_on with
  | _ n ih =>
    by_cases h : n < 16
    · rw [showHex_of_lt h, ofDigits, List.foldl_cons, List.foldl_nil, digit_digitChar n h]
      simp
    · have hlast := digit_digitChar (n % 16) (Nat.mod_lt _ (by decide))
      have hfront := ih (n / 16) (by omega)
      rw [showHex_of_le (not_lt.mp h), ofDigits_append, hfront, ofDigits, List.foldl_cons,
        List.foldl_nil, hlast, Option.getD_some]
      omega

/-- A number of `k` digits at most is shown with `k` digits at most. -/
theorem length_showHex {k : ℕ} (hk : 0 < k) (h : n < 16 ^ k) : (showHex n).length ≤ k := by
  rw [showHex, List.length_map]
  exact (Nat.length_toDigits_le_iff (by decide) hk).mpr h

theorem not_isSpace_of_isDigit {b : UInt8} (h : isDigit b = true) :
    isSpace b = false ∧ b ≠ 43 ∧ b ≠ 45 ∧ b ≠ 120 ∧ b ≠ 88 := by
  have hall : ∀ k < 256, isDigit (UInt8.ofNat k) = true → isSpace (UInt8.ofNat k) = false ∧
      UInt8.ofNat k ≠ 43 ∧ UInt8.ofNat k ≠ 45 ∧ UInt8.ofNat k ≠ 120 ∧ UInt8.ofNat k ≠ 88 := by
    decide +kernel
  have hb := hall b.toNat b.toNat_lt
  rw [UInt8.ofNat_toNat] at hb
  exact hb h

theorem prefixLength_of_isDigit {s : List UInt8} (h : ∀ b ∈ s, isDigit b = true) :
    prefixLength s = 0 := by
  unfold prefixLength
  split
  · rename_i x b _
    have hx := not_isSpace_of_isDigit (h x (by simp))
    rw [if_neg]
    rintro ⟨hx120 | hx88, _⟩
    · exact hx.2.2.2.1 hx120
    · exact hx.2.2.2.2 hx88
  · rfl

/-- A number that has been shown is read back, up to its end. -/
theorem strtol16_showHex (h : n < 2 ^ 63) :
    strtol16 (showHex n) = ((n : ℤ), (showHex n).length, false) := by
  have hdigits := isDigit_showHex n
  obtain ⟨b, s, hshow⟩ := List.exists_cons_of_ne_nil (showHex_ne_nil n)
  have hb := not_isSpace_of_isDigit (hdigits b (by simp [hshow]))
  have hspaces : (showHex n).takeWhile isSpace = [] := by
    rw [hshow, List.takeWhile_cons, hb.1]
    rfl
  have hhead : ¬ ((showHex n).head? = some 43 ∨ (showHex n).head? = some 45) := by
    rw [hshow]
    simp [hb.2.1, hb.2.2.1]
  have hminus : (showHex n).head? ≠ some 45 := fun h => hhead (.inr h)
  have htake : (showHex n).takeWhile isDigit = showHex n :=
    List.takeWhile_eq_self_iff.mpr hdigits
  have hbegins := prefixLength_of_isDigit hdigits
  unfold strtol16
  simp only [hspaces, List.length_nil, List.drop_zero, if_neg hhead, hbegins, htake,
    if_neg hminus, if_neg (showHex_ne_nil n), ofDigits_showHex]
  rw [if_neg (by omega), if_neg (by omega)]
  simp

end SrsChatRoom.Hex
