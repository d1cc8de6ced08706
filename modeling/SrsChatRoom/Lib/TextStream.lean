import Mathlib.Data.List.TakeWhile
import Mathlib.Tactic

/-!
# Reading words and numbers from a text

A text is read from the front. What a reader leaves is the rest of the text, and a word or a
number that goes up to the end of the text leaves nothing: the stream is at its end then. A number
that is out of the range of its type is not read.

* `word`, `int`, `uint` - one value, after spaces;
* `upTo` - what stands in front of a delimiter;
* `readAll` - values as long as there are any;
* `lines`, `split` - the parts between delimiters;
* `showNat`, `showInt` - a number as it is written.
-/

namespace SrsChatRoom.TextStream

abbrev Text := List Char

/-- `isspace` -/
def isSpace (c : Char) : Bool :=
  c = ' ' ∨ 9 ≤ c.toNat ∧ c.toNat ≤ 13

def skipSpaces (s : Text) : Text := s.dropWhile isSpace

/-- A word, and what follows it. -/
def word (s : Text) : Option (Text × Text) :=
  match (skipSpaces s).takeWhile (! isSpace ·) with
  | [] => none
  | c :: cs => some (c :: cs, (skipSpaces s).dropWhile (! isSpace ·))

/-- The sign of a number, and what follows it. -/
def sign : Text → Bool × Text
  | [] => (false, [])
  | c :: s => if c = '-' then (true, s) else if c = '+' then (false, s) else (false, c :: s)

/-- A number in decimal digits: whether it is negative, and what follows it. -/
def number (s : Text) : Option (Bool × ℕ × Text) :=
  let (negative, s) := sign (skipSpaces s)
  match s.takeWhile Char.isDigit with
  | [] => none
  | d :: ds => some (negative, Nat.ofDigitChars 10 (d :: ds) 0, s.dropWhile Char.isDigit)

/-- A number with its sign. -/
def signed (negative : Bool) (n : ℕ) : ℤ := if negative then -n else n

/-- A signed number of some bits. -/
def int (bits : ℕ) (s : Text) : Option (ℤ × Text) :=
  match number s with
  | none => none
  | some (negative, n, rest) =>
    if -2 ^ (bits - 1) ≤ signed negative n ∧ signed negative n < 2 ^ (bits - 1) then
      some (signed negative n, rest)
    else none

/-- An unsigned number of some bits, where a negative one is taken from the end of the range. -/
def uint (bits : ℕ) (s : Text) : Option (ℕ × Text) :=
  match number s with
  | none => none
  | some (negative, n, rest) =>
    if n < 2 ^ bits then some (if negative then (2 ^ bits - n) % 2 ^ bits else n, rest) else none

/-- The text in front of a delimiter, and what follows the delimiter, if there is one. -/
def upTo (delim : Char) (s : Text) : Text × Option Text :=
  (s.takeWhile (· ≠ delim),
    match s.dropWhile (· ≠ delim) with
    | [] => none
    | _ :: rest => some rest)

/-- All values in front of the first one that cannot be read, at most `fuel`. -/
def readAllFuel {α : Type} (read : Text → Option (α × Text)) : ℕ → Text → List α
  | 0, _ => []
  | fuel + 1, s =>
    match read s with
    | none => []
    | some (v, rest) => v :: readAllFuel read fuel rest

def readAll {α : Type} (read : Text → Option (α × Text)) (s : Text) : List α :=
  readAllFuel read s.length s

/-- The lines of a text; the last one need not be ended. -/
def lines : Text → List Text
  | [] => []
  | c :: s =>
    if c = '\n' then [] :: lines s
    else
      match lines s with
      | [] => [[c]]
      | l :: ls => (c :: l) :: ls

/-- The parts of a text between the delimiters, one more than there are delimiters. -/
def split (delim : Char) : Text → List Text
  | [] => [[]]
  | c :: s =>
    if c = delim then [] :: split delim s
    else
      match split delim s with
      | [] => [[c]]
      | l :: ls => (c :: l) :: ls

/-- A number in decimal digits, as it is written. -/
def showNat (n : ℕ) : Text := Nat.toDigits 10 n

def showInt (z : ℤ) : Text := if z < 0 then '-' :: showNat z.natAbs else showNat z.natAbs

/-! ## What is left -/

section
variable {s rest : Text}

theorem length_skipSpaces_le (s : Text) : (skipSpaces s).length ≤ s.length :=
  (List.dropWhile_suffix _).length_le

/-- A word takes something away. -/
theorem length_word {w : Text} (h : word s = some (w, rest)) : rest.length < s.length := by
  have hsplit := congrArg List.length
    (List.takeWhile_append_dropWhile (p := (! isSpace ·)) (l := skipSpaces s))
  rw [List.length_append] at hsplit
  have hle := length_skipSpaces_le s
  unfold word at h
  split at h
  · cases h
  · next c cs hc =>
    cases h
    rw [hc, List.length_cons] at hsplit
    omega

theorem length_sign_le (s : Text) : (sign s).2.length ≤ s.length := by
  cases s with
  | nil => exact le_refl _
  | cons c s =>
    simp only [sign]
    split
    · exact Nat.le_succ _
    · split
      · exact Nat.le_succ _
      · exact le_refl _

theorem length_number {negative : Bool} {n : ℕ} (h : number s = some (negative, n, rest)) :
    rest.length < s.length := by
  have hsplit := congrArg List.length (List.takeWhile_append_dropWhile (p := Char.isDigit)
    (l := (sign (skipSpaces s)).2))
  rw [List.length_append] at hsplit
  have hle := (length_sign_le (skipSpaces s)).trans (length_skipSpaces_le s)
  simp only [number] at h
  split at h
  · cases h
  · next d ds hd =>
    cases h
    rw [hd, List.length_cons] at hsplit
    omega

theorem length_int {bits : ℕ} {v : ℤ} (h : int bits s = some (v, rest)) :
    rest.length < s.length := by
  unfold int at h
  split at h
  · cases h
  · next hnumber =>
    split at h
    · cases h
      exact length_number hnumber
    · cases h

end

variable {delim : Char}

theorem upTo_snd_eq_none : (upTo delim s).2 = none ↔ delim ∉ s := by
  have hnil : s.dropWhile (· ≠ delim) = [] ↔ delim ∉ s := by
    rw [List.dropWhile_eq_nil_iff]
    constructor
    · intro h hmem
      simpa using h delim hmem
    · intro h c hc
      have hne : c ≠ delim := by
        rintro rfl
        exact h hc
      simpa using hne
  rw [← hnil]
  unfold upTo
  dsimp only
  cases s.dropWhile (· ≠ delim) with
  | nil => exact iff_of_true rfl rfl
  | cons c cs => exact iff_of_false nofun nofun

variable {w : Text}

theorem upTo_append (hw : delim ∉ w) (s : Text) : upTo delim (w ++ delim :: s) = (w, some s) := by
  have hall : ∀ c ∈ w, decide (c ≠ delim) = true := by
    intro c hc
    have hne : c ≠ delim := by
      rintro rfl
      exact hw hc
    simpa using hne
  unfold upTo
  rw [List.takeWhile_append_of_pos hall, List.dropWhile_append_of_pos hall]
  simp

variable {n : ℕ} {c : Char}

/-- A number takes nothing away that is no space, sign or digit. -/
theorem mem_of_number {negative : Bool}
    (h : number s = some (negative, n, rest)) (hc : c ∈ s) (hspace : isSpace c = false)
    (hminus : c ≠ '-') (hplus : c ≠ '+') (hdigit : c.isDigit = false) : c ∈ rest := by
  have hdrop : ∀ (p : Char → Bool) (l : Text), p c = false → c ∈ l → c ∈ l.dropWhile p := by
    intro p l hp hl
    rw [← List.takeWhile_append_dropWhile (p := p) (l := l), List.mem_append] at hl
    rcases hl with hl | hl
    · rw [List.mem_takeWhile_imp hl] at hp
      cases hp
    · exact hl
  have hsign : ∀ l : Text, c ∈ l → c ∈ (sign l).2 := by
    intro l hl
    cases l with
    | nil => exact hl
    | cons d l =>
      simp only [sign]
      split
      · next hd => exact (List.mem_cons.1 hl).resolve_left fun heq => hminus (heq.trans hd)
      · split
        · next hd => exact (List.mem_cons.1 hl).resolve_left fun heq => hplus (heq.trans hd)
        · exact hl
  have hmem := hsign _ (hdrop _ s hspace hc)
  simp only [number] at h
  split at h
  · cases h
  · cases h
    exact hdrop _ _ hdigit hmem

variable {bits : ℕ}

theorem mem_of_uint (h : uint bits s = some (n, rest)) (hc : c ∈ s)
    (hspace : isSpace c = false) (hminus : c ≠ '-') (hplus : c ≠ '+')
    (hdigit : c.isDigit = false) : c ∈ rest := by
  unfold uint at h
  split at h
  · cases h
  · next hnumber =>
    split at h
    · cases h
      exact mem_of_number hnumber hc hspace hminus hplus hdigit
    · cases h

section
variable {α : Type} {read : Text → Option (α × Text)}

/-- More fuel than the text is long reads nothing more: the loop has come to its end. -/
theorem readAllFuel_of_le (hread : ∀ s v rest, read s = some (v, rest) → rest.length < s.length)
    {fuel : ℕ} {s : Text} (h : s.length ≤ fuel) : readAllFuel read fuel s = readAll read s := by
  have hsame : ∀ (n : ℕ) (s : Text) (fuel fuel' : ℕ), s.length = n → n ≤ fuel → n ≤ fuel' →
      readAllFuel read fuel s = readAllFuel read fuel' s := by
    intro n
    induction n using Nat.strong_induction_on with
    | _ n ih =>
      intro s fuel fuel' hn hfuel hfuel'
      cases hs : read s with
      | none =>
        cases fuel <;> cases fuel' <;> simp [readAllFuel, hs]
      | some p =>
        obtain ⟨v, rest⟩ := p
        have hlt := hread s v rest hs
        obtain ⟨fuel, rfl⟩ := Nat.exists_eq_succ_of_ne_zero (show fuel ≠ 0 by omega)
        obtain ⟨fuel', rfl⟩ := Nat.exists_eq_succ_of_ne_zero (show fuel' ≠ 0 by omega)
        simp only [readAllFuel, hs]
        rw [ih rest.length (by omega) rest fuel fuel' rfl (by omega) (by omega)]
  exact hsame s.length s fuel s.length rfl h (le_refl _)

/-- `readAll` is the loop without a bound. -/
theorem readAll_eq (hread : ∀ s v rest, read s = some (v, rest) → rest.length < s.length)
    (s : Text) :
    readAll read s = match read s with
      | none => []
      | some (v, rest) => v :: readAll read rest := by
  rw [← readAllFuel_of_le hread (Nat.le_succ s.length), readAllFuel]
  cases hs : read s with
  | none => rfl
  | some p =>
    obtain ⟨v, rest⟩ := p
    dsimp only
    rw [readAllFuel_of_le hread (le_of_lt (hread s v rest hs))]

end

/-! ## What is written is read -/

/-- A text without spaces. -/
def Solid (w : Text) : Prop := ∀ c ∈ w, isSpace c = false

/-- A text that `word` reads in one piece. -/
def IsWord (w : Text) : Prop := w ≠ [] ∧ Solid w

/-- Nothing that would go on with a word in front of it. -/
def Apart (s : Text) : Prop := ∀ c ∈ s.head?, isSpace c = true

instance (w : Text) : Decidable (Solid w) := List.decidableBAll (isSpace · = false) w

instance (w : Text) : Decidable (IsWord w) := inferInstanceAs (Decidable (_ ∧ _))

@[simp] theorem apart_nil : Apart [] := nofun

@[simp] theorem apart_space (s : Text) : Apart (' ' :: s) := by simp [Apart, isSpace]

@[simp] theorem skipSpaces_space (s : Text) : skipSpaces (' ' :: s) = skipSpaces s := by
  simp [skipSpaces, isSpace]

@[simp] theorem word_space (s : Text) : word (' ' :: s) = word s := by
  simp only [word, skipSpaces_space]

@[simp] theorem number_space (s : Text) : number (' ' :: s) = number s := by
  simp only [number, skipSpaces_space]

@[simp] theorem int_space (bits : ℕ) (s : Text) : int bits (' ' :: s) = int bits s := by
  simp only [int, number_space]

variable {s : Text}

/-- Where a condition ends is where its reader stops. -/
theorem span_append {p : Char → Bool} (hw : ∀ c ∈ w, p c = true) (hs : ∀ c ∈ s.head?, p c = false) :
    (w ++ s).takeWhile p = w ∧ (w ++ s).dropWhile p = s := by
  rw [List.takeWhile_append_of_pos hw, List.dropWhile_append_of_pos hw]
  cases s with
  | nil => simp
  | cons c s =>
    have hc : p c = false := hs c rfl
    simp [hc]

theorem skipSpaces_append (hw : IsWord w) : skipSpaces (w ++ s) = w ++ s := by
  cases w with
  | nil => exact absurd rfl hw.1
  | cons c w => simp [skipSpaces, hw.2 c List.mem_cons_self]

theorem word_append (hw : IsWord w) (hs : Apart s) : word (w ++ s) = some (w, s) := by
  have hspan := span_append (p := (! isSpace ·)) (w := w) (s := s)
    (fun c hc => by simp [hw.2 c hc]) (fun c hc => by simp [hs c hc])
  cases w with
  | nil => exact absurd rfl hw.1
  | cons c w => simp only [word, skipSpaces_append hw, hspan]

theorem word_self (hw : IsWord w) : word w = some (w, []) := by
  have h := word_append hw apart_nil
  rwa [List.append_nil] at h

/-- What is read is a word. -/
theorem isWord_of_word {rest : Text} (h : word s = some (w, rest)) : IsWord w := by
  unfold word at h
  split at h
  · cases h
  · next c cs hc =>
    cases h
    refine ⟨nofun, fun d hd => ?_⟩
    rw [← hc] at hd
    simpa using List.mem_takeWhile_imp hd

theorem isDigit_of_mem_showNat (h : c ∈ showNat n) : c.isDigit = true :=
  Nat.isDigit_of_mem_toDigits (by decide) (by decide) h

theorem isSpace_of_isDigit (h : c.isDigit = true) : isSpace c = false := by
  have hc : 48 ≤ c.toNat := by
    simp only [Char.isDigit, Bool.and_eq_true, decide_eq_true_eq] at h
    exact h.1
  have hne : c ≠ ' ' := by
    rintro rfl
    exact absurd hc (by decide)
  simp only [isSpace, hne, false_or, decide_eq_false_iff_not]
  omega

theorem isDigit_of_isSpace (h : isSpace c = true) : c.isDigit = false := by
  by_contra hdigit
  rw [isSpace_of_isDigit (by simpa using hdigit)] at h
  cases h

theorem isWord_showNat (n : ℕ) : IsWord (showNat n) :=
  ⟨Nat.toDigits_ne_nil, fun _ hc => isSpace_of_isDigit (isDigit_of_mem_showNat hc)⟩

theorem isWord_showInt (z : ℤ) : IsWord (showInt z) := by
  unfold showInt
  split
  · refine ⟨nofun, fun c hc => ?_⟩
    rcases List.mem_cons.1 hc with rfl | hc
    · rfl
    · exact (isWord_showNat _).2 c hc
  · exact isWord_showNat _

theorem number_showNat (hs : ∀ c ∈ s.head?, c.isDigit = false) :
    number (showNat n ++ s) = some (false, n, s) := by
  have hspan := span_append (p := Char.isDigit) (w := showNat n)
    (fun c hc => isDigit_of_mem_showNat hc) hs
  have hvalue : Nat.ofDigitChars 10 (showNat n) 0 = n := Nat.ofDigitChars_ten_toDigits
  have hskip := skipSpaces_append (s := s) (isWord_showNat n)
  cases hshow : showNat n with
  | nil => exact absurd hshow Nat.toDigits_ne_nil
  | cons d ds =>
    have hd : d.isDigit = true := isDigit_of_mem_showNat (n := n) (by simp [hshow])
    have hsign : sign (d :: ds ++ s) = (false, d :: ds ++ s) := by
      have hminus : d ≠ '-' := by
        rintro rfl
        cases hd
      have hplus : d ≠ '+' := by
        rintro rfl
        cases hd
      simp [sign, hminus, hplus]
    rw [hshow] at hspan hskip hvalue
    simp only [number, hskip, hsign, hspan, hvalue]

theorem number_minus_showNat (hs : ∀ c ∈ s.head?, c.isDigit = false) :
    number ('-' :: showNat n ++ s) = some (true, n, s) := by
  have hspan := span_append (p := Char.isDigit) (w := showNat n)
    (fun c hc => isDigit_of_mem_showNat hc) hs
  have hvalue : Nat.ofDigitChars 10 (showNat n) 0 = n := Nat.ofDigitChars_ten_toDigits
  have hskip : skipSpaces ('-' :: showNat n ++ s) = '-' :: showNat n ++ s := by
    simp [skipSpaces, isSpace]
  cases hshow : showNat n with
  | nil => exact absurd hshow Nat.toDigits_ne_nil
  | cons d ds =>
    have hsign : sign ('-' :: (d :: ds) ++ s) = (true, d :: ds ++ s) := rfl
    rw [hshow] at hspan hskip hvalue
    simp only [number, hskip, hsign, hspan, hvalue]

theorem mem_showInt {z : ℤ} (h : c ∈ showInt z) : c = '-' ∨ c.isDigit = true := by
  unfold showInt at h
  split at h
  · exact (List.mem_cons.1 h).imp_right isDigit_of_mem_showNat
  · exact .inr (isDigit_of_mem_showNat h)

theorem number_showInt {z : ℤ} (hs : ∀ c ∈ s.head?, c.isDigit = false) :
    number (showInt z ++ s) = some (decide (z < 0), z.natAbs, s) := by
  unfold showInt
  split
  · next hz => rw [number_minus_showNat hs, decide_eq_true hz]
  · next hz => rw [number_showNat hs, decide_eq_false hz]

theorem signed_natAbs (z : ℤ) : signed (decide (z < 0)) z.natAbs = z := by
  unfold signed
  split
  · next hz =>
    have hneg : z < 0 := of_decide_eq_true hz
    omega
  · next hz =>
    have hpos : ¬ z < 0 := by simpa using hz
    omega

/-- A number in its range is read as it was written. -/
theorem int_showInt {z : ℤ} (hlower : -2 ^ (bits - 1) ≤ z)
    (hupper : z < 2 ^ (bits - 1)) (hs : ∀ c ∈ s.head?, c.isDigit = false) :
    int bits (showInt z ++ s) = some (z, s) := by
  simp only [int, number_showInt hs, signed_natAbs, hlower, hupper, and_self, if_true]

theorem uint_showNat (h : n < 2 ^ bits)
    (hs : ∀ c ∈ s.head?, c.isDigit = false) : uint bits (showNat n ++ s) = some (n, s) := by
  simp [uint, number_showNat hs, h]

/-- Values with spaces in front of them are all read. -/
theorem readAll_flatMap {α : Type} {read : Text → Option (α × Text)} {write : α → Text}
    (hread : ∀ s v rest, read s = some (v, rest) → rest.length < s.length) (hend : read [] = none)
    {l : List α} (hl : ∀ v ∈ l, ∀ s, Apart s → read (' ' :: write v ++ s) = some (v, s)) :
    readAll read (l.flatMap fun v => ' ' :: write v) = l := by
  induction l with
  | nil => rw [List.flatMap_nil, readAll_eq hread, hend]
  | cons v l ih =>
    have hapart : Apart (l.flatMap fun v => ' ' :: write v) := by
      cases l with
      | nil => exact apart_nil
      | cons w l => exact apart_space _
    rw [List.flatMap_cons, readAll_eq hread, hl v List.mem_cons_self _ hapart]
    dsimp only
    rw [ih fun w hw => hl w (List.mem_cons_of_mem _ hw)]

theorem split_of_not_mem (hw : delim ∉ w) : split delim w = [w] := by
  induction w with
  | nil => rfl
  | cons c w ih =>
    rw [List.mem_cons, not_or] at hw
    rw [split, if_neg (Ne.symm hw.1), ih hw.2]

theorem split_append (hw : delim ∉ w) (s : Text) :
    split delim (w ++ delim :: s) = w :: split delim s := by
  induction w with
  | nil => exact if_pos rfl
  | cons c w ih =>
    rw [List.mem_cons, not_or] at hw
    rw [List.cons_append, split, if_neg (Ne.symm hw.1), ih hw.2]

theorem lines_append {l : Text} (hl : '\n' ∉ l) (s : Text) :
    lines (l ++ '\n' :: s) = l :: lines s := by
  induction l with
  | nil => exact if_pos rfl
  | cons c l ih =>
    rw [List.mem_cons, not_or] at hl
    rw [List.cons_append, lines, if_neg (Ne.symm hl.1), ih hl.2]

end SrsChatRoom.TextStream
