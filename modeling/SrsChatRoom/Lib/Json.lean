import SrsChatRoom.Lib.TextStream

/-!
# The grammar of JSON

A text is read from the front: `Reads s v r` says that `s` begins with a sentence of the grammar
that has the value `v`, and that `r` is what follows. Numbers are rational, and an object is the list
of its members.

* `Number` - the numbers, with their text and their value;
* `CharOf`, `Chars` - characters and strings, with their escapes;
* `Reads`, `JsonText` - the values;
* `Chars.eq_of_raw` - a string that is its own text has nothing to escape.
-/

namespace SrsChatRoom.Json

open TextStream (Text showNat showInt)

/-- The values. -/
inductive Value
  | null
  | bool (b : Bool)
  | number (q : ℚ)
  | string (s : Text)
  | array (elements : List Value)
  | object (members : List (Text × Value))

/-! ## Numbers -/

def Digits (t : Text) : Prop := t ≠ [] ∧ ∀ c ∈ t, c.isDigit = true

/-- The mark, the sign and the digits of an exponent. -/
structure Exponent where
  mark : Char
  sign : Option Char
  digits : Text
  mark_ok : mark = 'e' ∨ mark = 'E'
  sign_ok : ∀ c ∈ sign, c = '+' ∨ c = '-'
  digits_ok : Digits digits

/-- A number. An integer part of more than one digit does not begin with a zero. -/
structure Number where
  minus : Bool
  int : Text
  frac : Option Text
  exp : Option Exponent
  int_ok : Digits int
  zero_ok : int.head? = some '0' → int = ['0']
  frac_ok : ∀ t ∈ frac, Digits t

def Exponent.text (e : Exponent) : Text := e.mark :: e.sign.toList ++ e.digits

def Exponent.value (e : Exponent) : ℤ :=
  if e.sign = some '-' then -Nat.ofDigitChars 10 e.digits 0 else Nat.ofDigitChars 10 e.digits 0

def Number.text (n : Number) : Text :=
  (if n.minus then ['-'] else []) ++ n.int ++ n.frac.elim [] ('.' :: ·) ++
    n.exp.elim [] Exponent.text

def Number.value (n : Number) : ℚ :=
  (if n.minus then -1 else 1) *
    (Nat.ofDigitChars 10 n.int 0 +
      n.frac.elim 0 fun t => (Nat.ofDigitChars 10 t 0 : ℚ) / 10 ^ t.length) *
    n.exp.elim 1 fun e => 10 ^ e.value

/-- The characters that numbers are made of. -/
def isNumberChar (c : Char) : Bool := c.isDigit || c ∈ ['-', '+', '.', 'e', 'E']

/-- The number at the front of the text does not go on. -/
def Ends (r : Text) : Prop := ∀ c ∈ r.head?, isNumberChar c = false

variable {c : Char}

theorem isNumberChar_of_isDigit (h : c.isDigit = true) : isNumberChar c = true := by
  simp [isNumberChar, h]

theorem Exponent.isNumberChar (e : Exponent) : ∀ c ∈ e.text, isNumberChar c = true := by
  intro c hc
  simp only [Exponent.text, List.cons_append, List.mem_cons, List.mem_append,
    Option.mem_toList] at hc
  rcases hc with rfl | hc | hc
  · rcases e.mark_ok with h | h
    · rw [h]
      rfl
    · rw [h]
      rfl
  · rcases e.sign_ok c hc with rfl | rfl
    · rfl
    · rfl
  · exact isNumberChar_of_isDigit (e.digits_ok.2 c hc)

theorem Number.isNumberChar (n : Number) : ∀ c ∈ n.text, isNumberChar c = true := by
  intro c hc
  simp only [Number.text, List.mem_append] at hc
  rcases hc with ((hc | hc) | hc) | hc
  · split at hc
    · rw [List.mem_singleton.mp hc]
      rfl
    · cases hc
  · exact isNumberChar_of_isDigit (n.int_ok.2 c hc)
  · cases hfrac : n.frac with
    | none =>
      rw [hfrac] at hc
      cases hc
    | some t =>
      rw [hfrac] at hc
      rcases List.mem_cons.mp hc with rfl | hc
      · rfl
      · exact isNumberChar_of_isDigit ((n.frac_ok t hfrac).2 c hc)
  · cases hexp : n.exp with
    | none =>
      rw [hexp] at hc
      cases hc
    | some e =>
      rw [hexp] at hc
      exact e.isNumberChar c hc

variable {t : Text}

/-- A number goes as far as its characters do. -/
theorem takeWhile_number {r : Text} (ht : ∀ c ∈ t, isNumberChar c = true) (hr : Ends r) :
    (t ++ r).dropWhile isNumberChar = r :=
  (TextStream.span_append ht hr).2

/-- An integer in decimal does not begin with a zero. -/
theorem head_showNat {n : ℕ} (h : (showNat n).head? = some '0') : showNat n = ['0'] := by
  induction n using Nat.strong_induction_on with
  | _ n ih =>
    by_cases hn : n < 10
    · rw [showNat, Nat.toDigits_of_lt_base hn] at h ⊢
      simpa using h
    · have hsplit : showNat n = showNat (n / 10) ++ [Nat.digitChar (n % 10)] :=
        Nat.toDigits_of_base_le (by decide) (not_lt.mp hn)
      have hne : showNat (n / 10) ≠ [] := Nat.toDigits_ne_nil
      rw [hsplit, List.head?_append_of_ne_nil _ hne] at h
      have hzero := ih (n / 10) (by omega) h
      -- what is left of the last digit would be 0
      have hvalue : n / 10 = 0 := by
        have hdigits : Nat.ofDigitChars 10 (showNat (n / 10)) 0 = n / 10 :=
          Nat.ofDigitChars_ten_toDigits
        rw [hzero] at hdigits
        exact hdigits.symm.trans rfl
      omega

/-- An integer as a number. -/
def Number.ofInt (z : ℤ) : Number where
  minus := z < 0
  int := showNat z.natAbs
  frac := none
  exp := none
  int_ok := ⟨Nat.toDigits_ne_nil, fun _ hc => TextStream.isDigit_of_mem_showNat hc⟩
  zero_ok := head_showNat
  frac_ok := nofun

theorem Number.text_ofInt (z : ℤ) : (ofInt z).text = showInt z := by
  unfold Number.text ofInt showInt
  by_cases hz : z < 0
  · simp [hz]
  · simp [hz]

theorem Number.value_ofInt (z : ℤ) : (ofInt z).value = z := by
  have hdigits : Nat.ofDigitChars 10 (showNat z.natAbs) 0 = z.natAbs :=
    Nat.ofDigitChars_ten_toDigits
  unfold Number.value ofInt
  simp only [hdigits, Option.elim_none, add_zero, mul_one]
  by_cases hz : z < 0
  · have habs : ((z.natAbs : ℤ) : ℚ) = -z := by
      rw [Int.ofNat_natAbs_of_nonpos hz.le]
      push_cast
      ring
    simp only [hz, decide_true, if_true]
    rw [← Int.cast_natCast, habs]
    ring
  · have habs : ((z.natAbs : ℤ) : ℚ) = z := by
      rw [Int.natAbs_of_nonneg (not_lt.mp hz)]
    simp only [hz, decide_false, Bool.false_eq_true, if_false, one_mul]
    rw [← Int.cast_natCast, habs]

/-! ## Strings -/

/-- The letters of the short escapes, and what they stand for. -/
def escapes : List (Char × Char) :=
  [('"', '"'), ('\\', '\\'), ('/', '/'), ('b', '\x08'), ('f', '\x0c'), ('n', '\n'), ('r', '\r'),
   ('t', '\t')]

/-- The value of a hexadecimal digit. -/
def hexValue (c : Char) : Option ℕ :=
  if c.isDigit then some (c.toNat - 48)
  else if 'a' ≤ c ∧ c ≤ 'f' then some (c.toNat - 87)
  else if 'A' ≤ c ∧ c ≤ 'F' then some (c.toNat - 55)
  else none

/-- Four hexadecimal digits. -/
def hex4 : Text → Option ℕ
  | [a, b, c, d] => do
    return (((← hexValue a) * 16 + (← hexValue b)) * 16 + (← hexValue c)) * 16 + (← hexValue d)
  | _ => none

/-- A character may stand for itself. -/
def Raw (c : Char) : Prop := 0x20 ≤ c.toNat ∧ c ≠ '"' ∧ c ≠ '\\'

instance (c : Char) : Decidable (Raw c) := inferInstanceAs (Decidable (_ ∧ _))

/-- A character of a string, as it is written. -/
inductive CharOf : Text → Char → Prop
  | raw {c : Char} : Raw c → CharOf [c] c
  | short {e c : Char} : (e, c) ∈ escapes → CharOf ['\\', e] c
  | unicode {t : Text} {c : Char} : hex4 t = some c.toNat → CharOf ('\\' :: 'u' :: t) c
  | pair {t t' : Text} {c : Char} {n n' : ℕ} : hex4 t = some (0xd800 + n) → n < 0x400 →
      hex4 t' = some (0xdc00 + n') → n' < 0x400 → c.toNat = 0x10000 + n * 0x400 + n' →
      CharOf ('\\' :: 'u' :: (t ++ '\\' :: 'u' :: t')) c

/-- The characters of a string. -/
inductive Chars : Text → Text → Prop
  | nil : Chars [] []
  | cons {t b s : Text} {c : Char} : CharOf t c → Chars b s → Chars (t ++ b) (c :: s)

theorem not_mem_of_hex4 {n : ℕ} (h : hex4 t = some n) (hc : hexValue c = none) : c ∉ t := by
  intro hmem
  unfold hex4 at h
  split at h
  · simp only [Option.bind_eq_bind, Option.bind_eq_some_iff] at h
    obtain ⟨_, h1, _, h2, _, h3, _, h4, _⟩ := h
    simp only [List.mem_cons, List.not_mem_nil, or_false] at hmem
    rcases hmem with rfl | rfl | rfl | rfl
    · rw [h1] at hc
      cases hc
    · rw [h2] at hc
      cases hc
    · rw [h3] at hc
      cases hc
    · rw [h4] at hc
      cases hc
  · cases h

/-- The only way to write a quote with a quote. -/
theorem CharOf.quote (h : CharOf t c) (hq : '"' ∈ t) : t = ['\\', '"'] ∧ c = '"' := by
  cases h with
  | raw hraw => exact absurd (List.mem_singleton.mp hq).symm hraw.2.1
  | @short e c he =>
    have hquote : e = '"' := by simpa [eq_comm] using hq
    subst hquote
    have hc : c = '"' := by simpa [escapes] using he
    exact ⟨rfl, hc⟩
  | unicode ht =>
    have hnot := not_mem_of_hex4 (c := '"') ht rfl
    simp [hnot] at hq
  | pair ht _ ht' _ _ =>
    have hnot := not_mem_of_hex4 (c := '"') ht rfl
    have hnot' := not_mem_of_hex4 (c := '"') ht' rfl
    simp [hnot, hnot'] at hq

theorem CharOf.length_pos (h : CharOf t c) : 0 < t.length := by
  cases h <;> simp

theorem CharOf.eq_of_length (h : CharOf t c) (ht : t.length = 1) : t = [c] ∧ Raw c := by
  cases h with
  | raw hraw => exact ⟨rfl, hraw⟩
  | short _ => simp at ht
  | unicode _ => simp at ht
  | pair _ _ _ _ _ => simp at ht

variable {s : Text}

variable {b : Text}

theorem Chars.length_le (h : Chars b s) : s.length ≤ b.length := by
  induction h with
  | nil => exact le_refl _
  | cons hc _ ih =>
    have hpos := hc.length_pos
    simp only [List.length_append, List.length_cons]
    omega

/-- What is as long as the string it is for is the string itself. -/
theorem Chars.eq_of_length (h : Chars b s) (hlength : b.length = s.length) :
    b = s ∧ ∀ c ∈ s, Raw c := by
  induction h with
  | nil => exact ⟨rfl, nofun⟩
  | @cons t b s c hc hb ih =>
    have hpos := hc.length_pos
    have hle := hb.length_le
    simp only [List.length_append, List.length_cons] at hlength
    obtain ⟨rfl, hraw⟩ := hc.eq_of_length (by omega)
    obtain ⟨rfl, hrest⟩ := ih (by omega)
    refine ⟨rfl, ?_⟩
    intro d hd
    rcases List.mem_cons.mp hd with rfl | hd
    · exact hraw
    · exact hrest d hd

/-- A quote inside of a string stands for a quote further to the front. -/
theorem Chars.quote {pre post : Text} (h : Chars b s) (hb : b = pre ++ '"' :: post) :
    ∃ pre' post', s = pre' ++ '"' :: post' ∧ pre'.length < pre.length := by
  induction h generalizing pre with
  | nil => simp at hb
  | @cons t b s c hc _ ih =>
    rcases List.append_eq_append_iff.mp hb with ⟨more, hpre, hmore⟩ | ⟨more, ht, hmore⟩
    · -- the quote is behind this character
      obtain ⟨pre', post', rfl, hlt⟩ := ih hmore
      have hpos := hc.length_pos
      refine ⟨c :: pre', post', rfl, ?_⟩
      rw [hpre]
      simp only [List.length_append, List.length_cons]
      omega
    · cases more with
      | nil =>
        obtain ⟨pre', post', rfl, hlt⟩ := @ih [] hmore.symm
        simp at hlt
      | cons d more =>
        have hd : '"' = d := (List.cons.inj hmore).1
        subst hd
        obtain ⟨htext, rfl⟩ := hc.quote (by rw [ht]; simp)
        refine ⟨[], s, rfl, ?_⟩
        rw [htext] at ht
        cases pre with
        | nil => simp at ht
        | cons _ _ => simp

/-- A string that is written as it is, between quotes, has only raw characters in it, and it is read
up to the quote behind it. -/
theorem Chars.eq_of_raw {r r' : Text} (h : Chars b s) (heq : b ++ '"' :: r = s ++ '"' :: r') :
    b = s ∧ (∀ c ∈ s, Raw c) ∧ r = r' := by
  -- a quote in `b` would stand for one in `s`, hence in `b`, further to the front
  have hquote : ∀ n, ∀ pre post, pre.length = n → b ≠ pre ++ '"' :: post := by
    intro n
    induction n using Nat.strong_induction_on with
    | _ n ih =>
      intro pre post hn hb
      obtain ⟨pre', post', hs, hlt⟩ := h.quote hb
      have hprefix : b ++ '"' :: r = pre' ++ '"' :: (post' ++ '"' :: r') := by
        rw [heq, hs]
        simp
      rcases List.append_eq_append_iff.mp hprefix with ⟨more, hpre, _⟩ | ⟨more, hb', hmore⟩
      · have hlength : pre.length < b.length := by
          rw [hb]
          simp
        rw [hpre, List.length_append] at hlt
        omega
      · cases more with
        | nil =>
          have hlength : pre.length < b.length := by
            rw [hb]
            simp
          rw [hb', List.append_nil] at hlength
          omega
        | cons d more =>
          have hd : '"' = d := (List.cons.inj hmore).1
          subst hd
          exact ih pre'.length (by omega) pre' more rfl hb'
  have hlength : b.length = s.length := by
    apply le_antisymm _ h.length_le
    by_contra hlonger
    rcases List.append_eq_append_iff.mp heq with ⟨more, hs, _⟩ | ⟨more, hb, hmore⟩
    · rw [hs, List.length_append] at hlonger
      omega
    · cases more with
      | nil =>
        rw [hb, List.append_nil] at hlonger
        omega
      | cons d more =>
        have hd : '"' = d := (List.cons.inj hmore).1
        subst hd
        exact hquote s.length s more rfl hb
  obtain ⟨rfl, hraw⟩ := h.eq_of_length hlength
  have htail := List.append_cancel_left heq
  exact ⟨rfl, hraw, (List.cons.inj htail).2⟩

theorem Chars.of_raw (h : ∀ c ∈ s, Raw c) : Chars s s := by
  induction s with
  | nil => exact .nil
  | cons c s ih =>
    have hrest := ih fun d hd => h d (List.mem_cons_of_mem c hd)
    exact .cons (t := [c]) (.raw (h c List.mem_cons_self)) hrest

/-! ## Values -/

def isWs (c : Char) : Bool := c = ' ' ∨ c = '\t' ∨ c = '\n' ∨ c = '\r'

/-- Any number of spaces. -/
inductive Ws : Text → Text → Prop
  | done {r : Text} : Ws r r
  | skip {c : Char} {s r : Text} : isWs c = true → Ws s r → Ws (c :: s) r

mutual

/-- A value. -/
inductive Reads : Text → Value → Text → Prop
  | null {r : Text} : Reads ("null".toList ++ r) .null r
  | bool {b : Bool} {r : Text} :
      Reads ((if b then "true".toList else "false".toList) ++ r) (.bool b) r
  | number {n : Number} {r : Text} : Reads (n.text ++ r) (.number n.value) r
  | string {b s r : Text} : Chars b s → Reads ('"' :: (b ++ '"' :: r)) (.string s) r
  | array {s r : Text} {l : List Value} :
      ReadsElements s l (']' :: r) → Reads ('[' :: s) (.array l) r
  | object {s r : Text} {l : List (Text × Value)} :
      ReadsMembers s l ('}' :: r) → Reads ('{' :: s) (.object l) r

/-- The elements of an array. -/
inductive ReadsElements : Text → List Value → Text → Prop
  | nil {s r : Text} : Ws s r → ReadsElements s [] r
  | last {s s₁ s₂ r : Text} {v : Value} :
      Ws s s₁ → Reads s₁ v s₂ → Ws s₂ r → ReadsElements s [v] r
  | next {s s₁ s₂ s₃ r : Text} {v v' : Value} {l : List Value} :
      Ws s s₁ → Reads s₁ v s₂ → Ws s₂ (',' :: s₃) → ReadsElements s₃ (v' :: l) r →
      ReadsElements s (v :: v' :: l) r

/-- The members of an object. -/
inductive ReadsMembers : Text → List (Text × Value) → Text → Prop
  | nil {s r : Text} : Ws s r → ReadsMembers s [] r
  | last {s b s₁ s₂ s₃ s₄ r k : Text} {v : Value} :
      Ws s ('"' :: (b ++ '"' :: s₁)) → Chars b k → Ws s₁ (':' :: s₂) → Ws s₂ s₃ →
      Reads s₃ v s₄ → Ws s₄ r → ReadsMembers s [(k, v)] r
  | next {s b s₁ s₂ s₃ s₄ s₅ r k : Text} {v : Value} {m : Text × Value}
      {l : List (Text × Value)} :
      Ws s ('"' :: (b ++ '"' :: s₁)) → Chars b k → Ws s₁ (':' :: s₂) → Ws s₂ s₃ →
      Reads s₃ v s₄ → Ws s₄ (',' :: s₅) → ReadsMembers s₅ (m :: l) r →
      ReadsMembers s ((k, v) :: m :: l) r

end

/-- A text is a sentence of the grammar, with a value. -/
def JsonText (s : Text) (v : Value) : Prop :=
  ∃ s₁ s₂, Ws s s₁ ∧ Reads s₁ v s₂ ∧ Ws s₂ []

/-- Where there is no space, none is skipped. -/
theorem Ws.eq {r : Text} (h : Ws s r) (hs : ∀ c ∈ s.head?, isWs c = false) : r = s := by
  cases h with
  | done => rfl
  | skip hc _ =>
    rw [hs _ rfl] at hc
    cases hc

end SrsChatRoom.Json
