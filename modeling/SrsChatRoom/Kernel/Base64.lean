import SrsChatRoom.Lib.Bytes
import SrsChatRoom.Lib.Outcome

/-!
# Base64 (`srs_kernel_utility.cpp`)

`srs_av_base64_decode` reads quanta of four characters, and leaves out newlines before the first and
behind each character. A quantum ends early with padding, which is only allowed at the end of the
text. `quantum_strip` says that newlines change nothing but the positions that errors name, and
`base64_round_trip` which texts are read, and what is read from them.
-/

namespace SrsChatRoom.Kernel.Base64

open List (length_append length_cons range')

/-! ## Code -/

/-- `padding` -/
def padding : UInt8 := '='.toUInt8

/-- `encoder` -/
def encoder : List UInt8 :=
  "ABCDEFGHIJKLMNOPQRSTUVWXYZabcdefghijklmnopqrstuvwxyz0123456789+/".toList.map Char.toUInt8

/-- `decodeMap[c]` -/
def decodeMap (c : UInt8) : ℕ := (encoder.idxOf? c).getD 0xff

def isNewline (c : UInt8) : Bool := c = '\n'.toUInt8 || c = '\r'.toUInt8

/-- The loops that skip over newlines. -/
def skipNewlines (s : List UInt8) : List UInt8 := s.dropWhile isNewline

/-- What a round of the outer loop leaves: `dbuf`, `dlen`, `end`, the `err` of trailing garbage, and
the text behind. -/
structure Quantum where
  dbuf : List ℕ
  dlen : ℕ
  isEnd : Bool
  err : Option ℕ
  rest : List UInt8

/-- The end of a quantum with padding. An error is the position that it names. -/
def endQuantum (length : ℕ) (dbuf : List ℕ) (rest : List UInt8) : Quantum where
  dbuf := dbuf
  dlen := dbuf.length
  isEnd := true
  err := if rest = [] then none else some (length - rest.length)
  rest := rest

/-- The loop over `j`, with the characters that are left, behind those in `dbuf`. `length` is that of
the cipher. -/
def decodeQuantum (length : ℕ) : ℕ → List ℕ → List UInt8 → Except ℕ Quantum
  | 0, dbuf, s => .ok ⟨dbuf, 4, false, none, s⟩
  -- padding is not -1
  | _ + 1, _, [] => .error length
  | k + 1, dbuf, c :: s =>
    let s := skipNewlines s
    if c = padding then
      if dbuf.length < 2 then .error (length - s.length)
      else if dbuf.length = 2 then
        match s with
        | [] => .error length
        | d :: s =>
          if d ≠ padding then .error (length - (d :: s).length)
          else .ok (endQuantum length dbuf (skipNewlines s))
      else .ok (endQuantum length dbuf s)
    else if decodeMap c = 0xff then .error (length - s.length)
    else decodeQuantum length k (dbuf ++ [decodeMap c]) s

/-- `val`; what is not set in `dbuf` is 0. -/
def Quantum.val (q : Quantum) : ℕ :=
  q.dbuf.getD 0 0 <<< 18 ||| q.dbuf.getD 1 0 <<< 12 ||| q.dbuf.getD 2 0 <<< 6 ||| q.dbuf.getD 3 0

/-- Four characters are three bytes, of which `dlen` tells how many are appended. -/
def Quantum.plain (q : Quantum) : List UInt8 :=
  (if 2 ≤ q.dlen then [UInt8.ofNat (q.val >>> 16)] else []) ++
    (if 3 ≤ q.dlen then [UInt8.ofNat (q.val >>> 8)] else []) ++
    (if 4 ≤ q.dlen then [UInt8.ofNat q.val] else [])

/-- The outer loop: the state is `plaintext`. -/
def decodeLoop (length : ℕ) : ℕ → List UInt8 → Prog (List UInt8) ℕ Unit
  | 0, _ => fun _ => .hang
  | fuel + 1, s =>
    if s = [] then return ()
    else fun plaintext =>
      match decodeQuantum length 4 [] s with
      | .error e => .err e plaintext
      | .ok q =>
        if q.isEnd then
          match q.err with
          | some e => .err e (plaintext ++ q.plain)
          | none => .ok () (plaintext ++ q.plain)
        else decodeLoop length fuel q.rest (plaintext ++ q.plain)

/-- `srs_av_base64_decode` -/
def srsAvBase64Decode (cipher : List UInt8) : Prog (List UInt8) ℕ Unit :=
  decodeLoop cipher.length (cipher.length + 1) (skipNewlines cipher)

/-- `encoder[val>>shift&0x3f]` -/
def encodeSextet (val shift : ℕ) : UInt8 := encoder.getD (val >>> shift &&& 0x3f) 0

/-- `srs_av_base64_encode`: three bytes are four characters, and the remainder gets padding. -/
def srsAvBase64Encode : List UInt8 → List UInt8
  | a :: b :: c :: p =>
    let val := a.toNat <<< 16 ||| b.toNat <<< 8 ||| c.toNat
    encodeSextet val 18 :: encodeSextet val 12 :: encodeSextet val 6 :: encodeSextet val 0 ::
      srsAvBase64Encode p
  | [a, b] =>
    let val := a.toNat <<< 16 ||| b.toNat <<< 8
    [encodeSextet val 18, encodeSextet val 12, encodeSextet val 6, padding]
  | [a] =>
    let val := a.toNat <<< 16
    [encodeSextet val 18, encodeSextet val 12, padding, padding]
  | [] => []

attribute [local simp] decodeQuantum srsAvBase64Encode

/-! ## The texts of the format -/

/-- A text without its newlines. -/
def strip (s : List UInt8) : List UInt8 := s.filter fun c => !isNewline c

/-- Groups of four characters of the alphabet, of which the last may end with padding. -/
def IsBase64 (t : List UInt8) : Prop :=
  t.length % 4 = 0 ∧ ∃ letters pad, t = letters ++ pad ∧ (∀ c ∈ letters, c ∈ encoder) ∧
    (pad = [] ∨ pad = [padding] ∨ pad = [padding, padding])

/-- What is promised of the two functions. -/
structure RoundTrips : Prop where
  inverts : ∀ x cipher plaintext, strip cipher = srsAvBase64Encode x →
    srsAvBase64Decode cipher plaintext = .ok () (plaintext ++ x)
  refuses : ∀ cipher plaintext, ¬ IsBase64 (strip cipher) →
    ∃ e left, srsAvBase64Decode cipher plaintext = .err e left
  accepts : ∀ cipher plaintext, IsBase64 (strip cipher) →
    ∃ x, srsAvBase64Decode cipher plaintext = .ok () (plaintext ++ x)

/-! ## Newlines -/

/-- A text that does not begin with a newline. -/
def Clean (s : List UInt8) : Prop := skipNewlines s = s

theorem strip_skipNewlines (s : List UInt8) : strip (skipNewlines s) = strip s := by
  induction s with
  | nil => rfl
  | cons c s ih =>
    cases hc : isNewline c with
    | true =>
      have hskip : skipNewlines (c :: s) = skipNewlines s := List.dropWhile_cons_of_pos hc
      have hstrip : strip (c :: s) = strip s := List.filter_cons_of_neg (by rw [hc]; decide)
      rw [hskip, ih, hstrip]
    | false =>
      have hskip : skipNewlines (c :: s) = c :: s :=
        List.dropWhile_cons_of_neg (by rw [hc]; decide)
      rw [hskip]

theorem clean_skipNewlines (s : List UInt8) : Clean (skipNewlines s) := by
  unfold Clean
  induction s with
  | nil => rfl
  | cons c s ih =>
    cases hc : isNewline c with
    | true =>
      have hskip : skipNewlines (c :: s) = skipNewlines s := List.dropWhile_cons_of_pos hc
      rw [hskip, ih]
    | false =>
      have hskip : skipNewlines (c :: s) = c :: s :=
        List.dropWhile_cons_of_neg (by rw [hc]; decide)
      rw [hskip, hskip]

theorem length_skipNewlines_le (s : List UInt8) : (skipNewlines s).length ≤ s.length :=
  (List.dropWhile_suffix isNewline).length_le

/-- A text without newlines is clean, and so is what is left of it. -/
theorem clean_strip (s : List UInt8) : Clean (strip s) := by
  cases h : strip s with
  | nil => rfl
  | cons c t =>
    have hc : c ∈ strip s := by rw [h]; exact List.mem_cons_self
    have hnot : isNewline c = false := by
      have hfilter := (List.mem_filter.mp hc).2
      rwa [Bool.not_eq_true'] at hfilter
    exact List.dropWhile_cons_of_neg (by rw [hnot]; decide)

variable {c : UInt8} {s : List UInt8}

/-- The first character of a clean text is no newline. -/
theorem strip_cons (h : Clean (c :: s)) : strip (c :: s) = c :: strip (skipNewlines s) := by
  have hnot : isNewline c = false := by
    by_contra hc
    rw [Bool.not_eq_false] at hc
    have hskip : skipNewlines (c :: s) = skipNewlines s := List.dropWhile_cons_of_pos hc
    have hle := length_skipNewlines_le s
    rw [← hskip, h, length_cons] at hle
    omega
  rw [strip_skipNewlines]
  exact List.filter_cons_of_pos (by rw [hnot]; rfl)

/-- The rest of a quantum is behind its characters. -/
structure Quantum.Same (q q' : Quantum) : Prop where
  dbuf : q.dbuf = q'.dbuf
  dlen : q.dlen = q'.dlen
  isEnd : q.isEnd = q'.isEnd
  err : q.err.isSome = q'.err.isSome
  rest : strip q.rest = q'.rest
  clean : Clean q.rest

variable {q : Quantum}

theorem Quantum.Same.plain {q' : Quantum} (h : q.Same q') : q.plain = q'.plain := by
  unfold Quantum.plain Quantum.val
  rw [h.dbuf, h.dlen]

theorem Quantum.Same.err_none {q' : Quantum} (h : q.Same q') (herr : q'.err = none) :
    q.err = none := by
  have hsome := h.err
  rw [herr] at hsome
  exact Option.not_isSome_iff_eq_none.mp (by rw [hsome]; exact Bool.false_ne_true)

/-- Newlines change the positions of errors only. -/
theorem quantum_strip (n m k : ℕ) (dbuf : List ℕ) (hs : Clean s) :
    (∃ e e', decodeQuantum n k dbuf s = .error e ∧ decodeQuantum m k dbuf (strip s) = .error e') ∨
      ∃ q q', decodeQuantum n k dbuf s = .ok q ∧ decodeQuantum m k dbuf (strip s) = .ok q' ∧
        q.Same q' := by
  have hend : ∀ dbuf rest, (endQuantum n dbuf (skipNewlines rest)).Same
      (endQuantum m dbuf (strip (skipNewlines rest))) := by
    intro dbuf rest
    have herr : (endQuantum n dbuf (skipNewlines rest)).err.isSome =
        (endQuantum m dbuf (strip (skipNewlines rest))).err.isSome := by
      unfold endQuantum
      dsimp only
      cases hrest : skipNewlines rest with
      | nil => rfl
      | cons c rest' =>
        have hclean := clean_skipNewlines rest
        rw [hrest] at hclean
        rw [strip_cons hclean, if_neg (List.cons_ne_nil _ _), if_neg (List.cons_ne_nil _ _)]
        rfl
    exact ⟨rfl, rfl, rfl, herr, rfl, clean_skipNewlines rest⟩
  induction k generalizing dbuf s with
  | zero => exact .inr ⟨_, _, rfl, rfl, rfl, rfl, rfl, rfl, rfl, hs⟩
  | succ k ih =>
    cases s with
    | nil => exact .inl ⟨_, _, rfl, rfl⟩
    | cons c s =>
      have hskip : skipNewlines (strip (skipNewlines s)) = strip (skipNewlines s) :=
        clean_strip (skipNewlines s)
      rw [strip_cons hs, decodeQuantum, decodeQuantum, hskip]
      by_cases hc : c = padding
      · rw [if_pos hc, if_pos hc]
        by_cases hone : dbuf.length < 2
        · rw [if_pos hone, if_pos hone]
          exact .inl ⟨_, _, rfl, rfl⟩
        · rw [if_neg hone, if_neg hone]
          by_cases htwo : dbuf.length = 2
          · rw [if_pos htwo, if_pos htwo]
            cases hrest : skipNewlines s with
            | nil => exact .inl ⟨_, _, rfl, rfl⟩
            | cons d rest =>
              have hclean := clean_skipNewlines s
              rw [hrest] at hclean
              rw [strip_cons hclean]
              dsimp only
              by_cases hd : d ≠ padding
              · rw [if_pos hd, if_pos hd]
                exact .inl ⟨_, _, rfl, rfl⟩
              · have hmore : skipNewlines (strip (skipNewlines rest)) =
                    strip (skipNewlines rest) := clean_strip (skipNewlines rest)
                rw [if_neg hd, if_neg hd, hmore]
                exact .inr ⟨_, _, rfl, rfl, hend dbuf rest⟩
          · rw [if_neg htwo, if_neg htwo]
            exact .inr ⟨_, _, rfl, rfl, hend dbuf s⟩
      · rw [if_neg hc, if_neg hc]
        by_cases hbad : decodeMap c = 0xff
        · rw [if_pos hbad, if_pos hbad]
          exact .inl ⟨_, _, rfl, rfl⟩
        · rw [if_neg hbad, if_neg hbad]
          exact ih (dbuf ++ [decodeMap c]) (clean_skipNewlines s)

variable {n k : ℕ}

variable {dbuf : List ℕ}

/-- A quantum takes some characters. -/
theorem length_quantum
    (h : decodeQuantum n k dbuf s = .ok q) : q.rest.length + min k 1 ≤ s.length := by
  induction k generalizing dbuf s with
  | zero =>
    cases h
    exact Nat.le_refl s.length
  | succ k ih =>
    cases s with
    | nil => cases h
    | cons c s =>
      have hskip := length_skipNewlines_le s
      have hmin : min (k + 1) 1 = 1 := by omega
      rw [length_cons, hmin]
      rw [decodeQuantum] at h
      by_cases hc : c = padding
      · rw [if_pos hc] at h
        by_cases hone : dbuf.length < 2
        · rw [if_pos hone] at h
          cases h
        · rw [if_neg hone] at h
          by_cases htwo : dbuf.length = 2
          · rw [if_pos htwo] at h
            cases hrest : skipNewlines s with
            | nil =>
              rw [hrest] at h
              cases h
            | cons d rest =>
              rw [hrest] at h hskip
              dsimp only at h
              by_cases hd : d ≠ padding
              · rw [if_pos hd] at h
                cases h
              · rw [if_neg hd] at h
                cases h
                have hmore := length_skipNewlines_le rest
                rw [length_cons] at hskip
                show (skipNewlines rest).length + 1 ≤ s.length + 1
                omega
          · rw [if_neg htwo] at h
            cases h
            exact Nat.succ_le_succ hskip
      · rw [if_neg hc] at h
        by_cases hbad : decodeMap c = 0xff
        · rw [if_pos hbad] at h
          cases h
        · rw [if_neg hbad] at h
          have hle := ih h
          omega

/-! ## Characters -/

/-- The letters, the digits and two signs. -/
theorem encoder_eq : encoder =
    (range' 65 26 ++ range' 97 26 ++ range' 48 10 ++ [43, 47]).map UInt8.ofNat := by
  decide +kernel

theorem length_encoder : encoder.length = 64 := by
  rw [encoder_eq]
  rfl

/-- The characters that are decoded. -/
theorem decodeMap_eq_iff (c : UInt8) : decodeMap c = 0xff ↔ c ∉ encoder := by
  unfold decodeMap
  cases hplace : encoder.idxOf? c with
  | none => exact iff_of_true rfl (List.idxOf?_eq_none_iff.mp hplace)
  | some i =>
    obtain ⟨hi, hc, _⟩ := List.idxOf?_eq_some_iff.mp hplace
    have hmem : c ∈ encoder := hc ▸ List.getElem_mem hi
    refine iff_of_false (fun h => ?_) fun hnot => hnot hmem
    have hlast : i = 0xff := h
    rw [length_encoder] at hi
    omega

/-- The padding is not a letter, the letters are no newlines, and each stands for its place. -/
theorem encoder_facts : padding ∉ encoder ∧ (∀ c ∈ encoder, isNewline c = false) ∧
    ∀ v < 64, encoder.getD v 0 ∈ encoder ∧ decodeMap (encoder.getD v 0) = v := by
  unfold decodeMap
  rw [encoder_eq]
  decide +kernel

theorem padding_not_mem : padding ∉ encoder := encoder_facts.1

/-- A character of the alphabet is put into the quantum. -/
theorem quantum_letter (hc : c ∈ encoder) (hs : Clean s) : decodeQuantum n (k + 1) dbuf (c :: s) =
      decodeQuantum n k (dbuf ++ [decodeMap c]) s := by
  have hpad : c ≠ padding := by
    intro heq
    rw [heq] at hc
    exact padding_not_mem hc
  have hgood : ¬ decodeMap c = 0xff := fun hbad => (decodeMap_eq_iff c).mp hbad hc
  refine (if_neg hpad).trans ((if_neg hgood).trans ?_)
  rw [hs]

/-- Any other one is refused. -/
theorem quantum_other (hc : c ∉ encoder)
    (hpad : c ≠ padding) : ∃ e, decodeQuantum n (k + 1) dbuf (c :: s) = .error e := by
  exact ⟨_, (if_neg hpad).trans (if_pos ((decodeMap_eq_iff c).mpr hc))⟩

/-- Padding is refused for the first two characters. -/
theorem quantum_early (hc : c ∉ encoder)
    (hearly : dbuf.length < 2) : ∃ e, decodeQuantum n (k + 1) dbuf (c :: s) = .error e := by
  by_cases hpad : c = padding
  · exact ⟨_, (if_pos hpad).trans (if_pos hearly)⟩
  · exact quantum_other hc hpad

theorem quantum_one_pad (hs : Clean s) (hthree : dbuf.length = 3) :
    decodeQuantum n (k + 1) dbuf (padding :: s) = .ok (endQuantum n dbuf s) := by
  rw [decodeQuantum, if_pos rfl, if_neg (by omega), if_neg (by omega), hs]

theorem quantum_two_pads (hpads : Clean (padding :: s)) (hs : Clean s) (htwo : dbuf.length = 2) :
    decodeQuantum n (k + 1) dbuf (padding :: padding :: s) = .ok (endQuantum n dbuf s) := by
  rw [decodeQuantum, if_pos rfl, if_neg (by omega), if_pos htwo, hpads]
  dsimp only
  rw [if_neg (fun h => h rfl), hs]

variable {d : UInt8}

theorem quantum_lone_pad (hrest : Clean (d :: s)) (hd : d ≠ padding) (htwo : dbuf.length = 2) :
    ∃ e, decodeQuantum n (k + 1) dbuf (padding :: d :: s) = .error e := by
  refine ⟨n - (d :: s).length, ?_⟩
  rw [decodeQuantum, if_pos rfl, if_neg (by omega), if_pos htwo, hrest]
  dsimp only
  rw [if_pos hd]

/-! ## The format -/

variable {t : List UInt8}

theorem not_isBase64 (h : t.length % 4 ≠ 0) : ¬ IsBase64 t := fun ht => h ht.1

theorem IsBase64.mem (h : IsBase64 t) (hc : c ∈ t) : c ∈ encoder ∨ c = padding := by
  obtain ⟨-, letters, pad, ht, hletters, hpad⟩ := h
  rw [ht, List.mem_append] at hc
  cases hc with
  | inl hletter => exact .inl (hletters c hletter)
  | inr hc =>
    right
    rcases hpad with hpad | hpad | hpad
    · rw [hpad] at hc
      exact absurd hc List.not_mem_nil
    · rw [hpad] at hc
      exact List.mem_singleton.mp hc
    · rw [hpad] at hc
      simpa using hc

/-- Padding is at most two characters from the end. -/
theorem IsBase64.letter {front rest : List UInt8} (h : IsBase64 (front ++ c :: rest))
    (hrest : 2 ≤ rest.length) : c ∈ encoder := by
  obtain ⟨-, letters, pad, ht, hletters, hpad⟩ := h
  have hpadLength : pad.length ≤ 2 := by
    rcases hpad with hpad | hpad | hpad
    · rw [hpad]
      exact Nat.zero_le 2
    · rw [hpad]
      exact Nat.le_succ 1
    · rw [hpad]
      exact Nat.le_refl 2
  have hlength := congrArg List.length ht
  rw [length_append, length_append, length_cons] at hlength
  have hin : front.length < letters.length := by omega
  have hget : (letters ++ pad)[front.length]? = some c := by
    rw [← ht, List.getElem?_append_right (Nat.le_refl _), Nat.sub_self]
    rfl
  rw [List.getElem?_append_left hin] at hget
  exact hletters c (List.mem_of_getElem? hget)

/-- Behind padding there is only padding. -/
theorem IsBase64.last {front : List UInt8} (h : IsBase64 (front ++ [padding, d])) :
    d = padding := by
  obtain ⟨-, letters, pad, ht, hletters, hpad⟩ := h
  have hlast := congrArg List.getLast? ht
  have hfront : (front ++ [padding, d]).getLast? = some d := by
    rw [List.getLast?_append]
    rfl
  rw [hfront] at hlast
  rcases hpad with hpad | hpad | hpad
  · rw [hpad, List.append_nil] at ht
    have hmem : padding ∈ letters := by
      rw [← ht]
      simp
    exact absurd (hletters padding hmem) padding_not_mem
  · rw [hpad, List.getLast?_append] at hlast
    exact Option.some.inj hlast
  · rw [hpad, List.getLast?_append] at hlast
    exact Option.some.inj hlast

/-- A group in front of others. -/
theorem isBase64_group {a b : UInt8} (ha : a ∈ encoder) (hb : b ∈ encoder)
    (hc : c ∈ encoder) (hd : d ∈ encoder) : IsBase64 (a :: b :: c :: d :: t) ↔ IsBase64 t := by
  constructor
  · intro ⟨hmod, letters, pad, ht, hletters, hpad⟩
    rw [length_cons, length_cons, length_cons, length_cons] at hmod
    match letters, ht with
    | _ :: _ :: _ :: _ :: letters, ht =>
      have hrest : t = letters ++ pad :=
        (List.cons.inj (List.cons.inj (List.cons.inj (List.cons.inj ht).2).2).2).2
      refine ⟨by omega, letters, pad, hrest, ?_, hpad⟩
      intro e he
      apply hletters e
      simp [he]
    | [], ht =>
      rcases hpad with rfl | rfl | rfl
      · cases ht
      · cases ht
      · cases ht
    | [_], ht =>
      rcases hpad with rfl | rfl | rfl
      · cases ht
      · cases ht
      · cases ht
    | [_, _], ht =>
      rcases hpad with rfl | rfl | rfl
      · cases ht
      · cases ht
      · cases ht
        exact absurd hd padding_not_mem
    | [_, _, _], ht =>
      rcases hpad with rfl | rfl | rfl
      · cases ht
      · cases ht
        exact absurd hd padding_not_mem
      · cases ht
        exact absurd hd padding_not_mem
  · intro ⟨hmod, letters, pad, ht, hletters, hpad⟩
    refine ⟨?_, a :: b :: c :: d :: letters, pad, by rw [ht]; rfl, ?_, hpad⟩
    · rw [length_cons, length_cons, length_cons, length_cons]
      omega
    · intro e he
      simp only [List.mem_cons] at he
      rcases he with rfl | rfl | rfl | rfl | he
      · exact ha
      · exact hb
      · exact hc
      · exact hd
      · exact hletters e he

/-! ## A quantum -/

/-- A text without newlines. -/
def Free (t : List UInt8) : Prop := strip t = t

theorem Free.clean (h : Free t) : Clean t := by
  have hclean := clean_strip t
  rwa [h] at hclean

theorem Free.tail (h : Free (c :: t)) : Free t := by
  have hstrip := strip_cons h.clean
  rw [h, strip_skipNewlines] at hstrip
  exact (List.cons.inj hstrip).2.symm

theorem free_strip (s : List UInt8) : Free (strip s) := by
  unfold Free strip
  rw [List.filter_filter]
  simp only [Bool.and_self]

/-- The ways in which the first quantum of a text ends. -/
inductive FirstQuantum (n : ℕ) (t : List UInt8) : Prop
  | refused {e : ℕ} : decodeQuantum n 4 [] t = .error e → ¬ IsBase64 t → FirstQuantum n t
  | last {q : Quantum} : decodeQuantum n 4 [] t = .ok q → q.isEnd = true → q.err = none →
      IsBase64 t → FirstQuantum n t
  | garbage {q : Quantum} : decodeQuantum n 4 [] t = .ok q → q.isEnd = true →
      q.err.isSome = true → ¬ IsBase64 t → FirstQuantum n t
  | more {q : Quantum} : decodeQuantum n 4 [] t = .ok q → q.isEnd = false →
      (IsBase64 t ↔ IsBase64 q.rest) → FirstQuantum n t

section Characters

variable {n : ℕ} {dbuf : List ℕ} {a b c d : UInt8} {t : List UInt8}

/-- The fourth character. -/
theorem firstQuantum_fourth (ha : a ∈ encoder) (hb : b ∈ encoder) (hc : c ∈ encoder) (ht : Free t)
    (hdbuf : dbuf.length = 3)
    (hrun : decodeQuantum n 4 [] (a :: b :: c :: d :: t) = decodeQuantum n 1 dbuf (d :: t)) :
    FirstQuantum n (a :: b :: c :: d :: t) := by
  by_cases hd : d ∈ encoder
  · exact .more (hrun.trans (quantum_letter hd ht.clean)) rfl (isBase64_group ha hb hc hd)
  · by_cases hpad : d = padding
    · rw [hpad] at hrun ⊢
      have hend := hrun.trans (quantum_one_pad ht.clean hdbuf)
      match t with
      | [] =>
        have hletters : ∀ x ∈ [a, b, c], x ∈ encoder := by simp [ha, hb, hc]
        exact .last hend rfl rfl ⟨Nat.mod_self 4, [a, b, c], [padding], rfl, hletters, .inr (.inl rfl)⟩
      | [x] =>
        have hlength : [a, b, c, padding, x].length % 4 ≠ 0 := (by decide : 5 % 4 ≠ 0)
        exact .garbage hend rfl rfl (not_isBase64 hlength)
      | x :: y :: t =>
        refine .garbage hend rfl rfl fun h => padding_not_mem ?_
        exact @IsBase64.letter padding [a, b, c] (x :: y :: t) h (by simp)
    · obtain ⟨e, he⟩ := @quantum_other d t n 0 dbuf hd hpad
      refine .refused (hrun.trans he) fun h => ?_
      cases h.mem (by simp : d ∈ a :: b :: c :: d :: t) with
      | inl hmem => exact hd hmem
      | inr heq => exact hpad heq

/-- The third character. -/
theorem firstQuantum_third (ha : a ∈ encoder) (hb : b ∈ encoder) (ht : Free t)
    (hdbuf : dbuf.length = 2)
    (hrun : decodeQuantum n 4 [] (a :: b :: c :: t) = decodeQuantum n 2 dbuf (c :: t)) :
    FirstQuantum n (a :: b :: c :: t) := by
  by_cases hc : c ∈ encoder
  · have hnext := hrun.trans (quantum_letter hc ht.clean)
    match t, ht with
    | [], _ =>
      have hlength : [a, b, c].length % 4 ≠ 0 := Nat.succ_ne_zero 2
      exact .refused hnext (not_isBase64 hlength)
    | d :: t, ht =>
      have hlength : (dbuf ++ [decodeMap c]).length = 3 := by
        rw [length_append, hdbuf, List.length_singleton]
      exact firstQuantum_fourth ha hb hc ht.tail hlength hnext
  · by_cases hpad : c = padding
    · rw [hpad] at hrun ⊢
      match t, ht with
      | [], _ =>
        have hlength : [a, b, padding].length % 4 ≠ 0 := Nat.succ_ne_zero 2
        have hend : decodeQuantum n 2 dbuf [padding] = .error n := by
          rw [decodeQuantum, if_pos rfl, if_neg (by omega), if_pos hdbuf]
          rfl
        exact .refused (hrun.trans hend) (not_isBase64 hlength)
      | d :: t, ht =>
        by_cases hd : d = padding
        · rw [hd] at hrun ht ⊢
          have hend := hrun.trans (quantum_two_pads ht.clean ht.tail.clean hdbuf)
          match t with
          | [] =>
            have hletters : ∀ x ∈ [a, b], x ∈ encoder := by simp [ha, hb]
            exact .last hend rfl rfl
              ⟨Nat.mod_self 4, [a, b], [padding, padding], rfl, hletters, .inr (.inr rfl)⟩
          | x :: t =>
            refine .garbage hend rfl rfl fun h => padding_not_mem ?_
            exact @IsBase64.letter padding [a, b] (padding :: x :: t) h (by simp)
        · obtain ⟨e, he⟩ := @quantum_lone_pad t n 1 dbuf d ht.clean hd hdbuf
          refine .refused (hrun.trans he) fun h => ?_
          match t, h with
          | [], h => exact hd (@IsBase64.last d [a, b] h)
          | x :: t, h =>
            exact padding_not_mem (@IsBase64.letter padding [a, b] (d :: x :: t) h (by simp))
    · obtain ⟨e, he⟩ := @quantum_other c t n 1 dbuf hc hpad
      refine .refused (hrun.trans he) fun h => ?_
      cases h.mem (by simp : c ∈ a :: b :: c :: t) with
      | inl hmem => exact hc hmem
      | inr heq => exact hpad heq

/-- One of the first two characters is refused. -/
theorem firstQuantum_early {front : List UInt8} (hfront : front.length < 2) (hc : c ∉ encoder)
    (hdbuf : dbuf.length < 2) {k : ℕ}
    (hrun : decodeQuantum n 4 [] (front ++ c :: t) = decodeQuantum n (k + 1) dbuf (c :: t)) :
    FirstQuantum n (front ++ c :: t) := by
  obtain ⟨e, he⟩ := @quantum_early c t n k dbuf hc hdbuf
  refine .refused (hrun.trans he) fun h => ?_
  by_cases hlong : 2 ≤ t.length
  · exact hc (h.letter hlong)
  · have hmod := h.1
    rw [length_append, length_cons] at hmod
    have hfour : front.length + (t.length + 1) < 4 := by omega
    omega

theorem firstQuantum (ht : Free (a :: t)) : FirstQuantum n (a :: t) := by
  by_cases ha : a ∈ encoder
  · have hrun : decodeQuantum n 4 [] (a :: t) = decodeQuantum n 3 [decodeMap a] t :=
      quantum_letter ha ht.tail.clean
    match t, ht with
    | [], _ =>
      have hlength : [a].length % 4 ≠ 0 := Nat.one_ne_zero
      exact .refused hrun (not_isBase64 hlength)
    | b :: t, ht =>
      by_cases hb : b ∈ encoder
      · have hnext := hrun.trans (quantum_letter hb ht.tail.tail.clean)
        match t, ht with
        | [], _ =>
          have hlength : [a, b].length % 4 ≠ 0 := Nat.succ_ne_zero 1
          exact .refused hnext (not_isBase64 hlength)
        | c :: t, ht => exact firstQuantum_third ha hb ht.tail.tail.tail rfl hnext
      · exact @firstQuantum_early n [decodeMap a] b t [a] Nat.one_lt_two hb Nat.one_lt_two 2 hrun
  · exact @firstQuantum_early n [] a t [] Nat.two_pos ha Nat.two_pos 3 rfl

end Characters

/-! ## The loop -/

section Loop

variable {n : ℕ} {s : List UInt8}

/-- A quantum of the text without newlines is one of the text. -/
theorem exists_quantum (hs : Clean s) {q' : Quantum}
    (hq : decodeQuantum n 4 [] (strip s) = .ok q') :
    ∃ q, decodeQuantum n 4 [] s = .ok q ∧ q.Same q' ∧ q.rest.length < s.length := by
  rcases quantum_strip n n 4 [] hs with ⟨e, e', -, he⟩ | ⟨q, q'', hrun, hrun', hsame⟩
  · rw [hq] at he
    cases he
  · rw [hq] at hrun'
    cases hrun'
    have hlength := length_quantum hrun
    exact ⟨q, hrun, hsame, by omega⟩

theorem exists_refused (hs : Clean s) {e' : ℕ} (hq : decodeQuantum n 4 [] (strip s) = .error e') :
    ∃ e, decodeQuantum n 4 [] s = .error e := by
  rcases quantum_strip n n 4 [] hs with ⟨e, e'', he, -⟩ | ⟨q, q', -, hrun', -⟩
  · exact ⟨e, he⟩
  · rw [hq] at hrun'
    cases hrun'

section Rounds

variable {fuel : ℕ} {plaintext : List UInt8} {q : Quantum}

/-- The rounds of the loop. -/
theorem decodeLoop_error (hne : s ≠ []) {e : ℕ} (h : decodeQuantum n 4 [] s = .error e) :
    decodeLoop n (fuel + 1) s plaintext = .err e plaintext := by
  refine (congrFun (if_neg hne) plaintext).trans ?_
  rw [h]

theorem decodeLoop_last (hne : s ≠ []) (h : decodeQuantum n 4 [] s = .ok q)
    (hend : q.isEnd = true) (herr : q.err = none) :
    decodeLoop n (fuel + 1) s plaintext = .ok () (plaintext ++ q.plain) := by
  refine (congrFun (if_neg hne) plaintext).trans ?_
  rw [h]
  dsimp only
  rw [if_pos hend, herr]

theorem decodeLoop_garbage (hne : s ≠ []) (h : decodeQuantum n 4 [] s = .ok q)
    (hend : q.isEnd = true) {e : ℕ} (herr : q.err = some e) :
    decodeLoop n (fuel + 1) s plaintext = .err e (plaintext ++ q.plain) := by
  refine (congrFun (if_neg hne) plaintext).trans ?_
  rw [h]
  dsimp only
  rw [if_pos hend, herr]

theorem decodeLoop_more (hne : s ≠ []) (h : decodeQuantum n 4 [] s = .ok q)
    (hend : q.isEnd = false) : decodeLoop n (fuel + 1) s plaintext =
      decodeLoop n fuel q.rest (plaintext ++ q.plain) := by
  have hnot : ¬ q.isEnd = true := by
    rw [hend]
    exact Bool.false_ne_true
  refine (congrFun (if_neg hne) plaintext).trans ?_
  rw [h]
  dsimp only
  rw [if_neg hnot]

end Rounds

theorem isBase64_nil : IsBase64 [] :=
  ⟨rfl, [], [], rfl, fun _ h => absurd h List.not_mem_nil, .inl rfl⟩

/-- The loop reads exactly the texts of the format. -/
theorem decodeLoop_cases (fuel : ℕ) (hs : Clean s) (hfuel : s.length < fuel)
    (plaintext : List UInt8) :
    (IsBase64 (strip s) ∧ ∃ x, decodeLoop n fuel s plaintext = .ok () (plaintext ++ x)) ∨
      ¬ IsBase64 (strip s) ∧ ∃ e left, decodeLoop n fuel s plaintext = .err e left := by
  induction fuel generalizing s plaintext with
  | zero => omega
  | succ fuel ih =>
    cases s with
    | nil =>
      left
      refine ⟨isBase64_nil, [], ?_⟩
      rw [List.append_nil]
      rfl
    | cons c s =>
      have hne := List.cons_ne_nil c s
      have hfree := free_strip (c :: s)
      have hfirst : FirstQuantum n (strip (c :: s)) := by
        rw [strip_cons hs] at hfree ⊢
        exact firstQuantum hfree
      cases hfirst with
      | refused hq hnot =>
        obtain ⟨e, he⟩ := exists_refused hs hq
        exact .inr ⟨hnot, e, plaintext, decodeLoop_error hne he⟩
      | last hq hend herr hyes =>
        obtain ⟨q, hrun, hsame, -⟩ := exists_quantum hs hq
        have hnone : q.err = none := by
          have hsome := hsame.err
          rw [herr] at hsome
          exact Option.not_isSome_iff_eq_none.mp (by rw [hsome]; decide)
        exact .inl ⟨hyes, q.plain, decodeLoop_last hne hrun (hsame.isEnd.trans hend) hnone⟩
      | garbage hq hend herr hnot =>
        obtain ⟨q, hrun, hsame, -⟩ := exists_quantum hs hq
        obtain ⟨e, he⟩ := Option.isSome_iff_exists.mp (hsame.err.trans herr)
        exact .inr ⟨hnot, e, _, decodeLoop_garbage hne hrun (hsame.isEnd.trans hend) he⟩
      | more hq hend hiff =>
        obtain ⟨q, hrun, hsame, hlength⟩ := exists_quantum hs hq
        rw [hiff, ← hsame.rest, decodeLoop_more hne hrun (hsame.isEnd.trans hend)]
        rcases ih hsame.clean (by omega) (plaintext ++ q.plain) with ⟨hyes, x, hx⟩ | hnot
        · refine .inl ⟨hyes, q.plain ++ x, ?_⟩
          rw [hx, List.append_assoc]
        · exact .inr hnot

end Loop

/-! ## Encoding -/

theorem decodeMap_encodeSextet (val shift : ℕ) :
    decodeMap (encodeSextet val shift) = val / 2 ^ shift % 64 := by
  have hlt : val / 2 ^ shift % 64 < 64 := Nat.mod_lt _ (by decide)
  have hand : val >>> shift &&& 0x3f = val / 2 ^ shift % 64 := by
    rw [show (0x3f : ℕ) = 2 ^ 6 - 1 from rfl, Nat.and_two_pow_sub_one_eq_mod,
      Nat.shiftRight_eq_div_pow]
  rw [encodeSextet, hand, (encoder_facts.2.2 _ hlt).2]

theorem encodeSextet_mem (val shift : ℕ) : encodeSextet val shift ∈ encoder := by
  refine (encoder_facts.2.2 _ ?_).1
  rw [show (0x3f : ℕ) = 2 ^ 6 - 1 from rfl, Nat.and_two_pow_sub_one_eq_mod]
  exact Nat.mod_lt _ (by decide)

/-- Sextets are put together. -/
theorem sextets_eq {val : ℕ} (h : val < 2 ^ 24) :
    (val / 2 ^ 18 % 64) <<< 18 ||| (val / 2 ^ 12 % 64) <<< 12 ||| (val / 2 ^ 6 % 64) <<< 6 |||
      val / 2 ^ 0 % 64 = val := by
  have hzero : val / 2 ^ 0 % 64 < 2 ^ 6 := Nat.mod_lt _ (by decide)
  have hsix : 2 ^ 6 * (val / 2 ^ 6 % 64) + val / 2 ^ 0 % 64 < 2 ^ 12 := by omega
  have htwelve : 2 ^ 12 * (val / 2 ^ 12 % 64) +
      (2 ^ 6 * (val / 2 ^ 6 % 64) + val / 2 ^ 0 % 64) < 2 ^ 18 := by omega
  rw [Nat.shiftLeft_eq, Nat.shiftLeft_eq, Nat.shiftLeft_eq, Nat.or_assoc, Nat.or_assoc,
    Nat.mul_comm _ (2 ^ 6), Nat.mul_comm _ (2 ^ 12), Nat.mul_comm _ (2 ^ 18),
    ← Nat.two_pow_add_eq_or_of_lt hzero, ← Nat.two_pow_add_eq_or_of_lt hsix,
    ← Nat.two_pow_add_eq_or_of_lt htwelve]
  omega

theorem bytes_eq (a b c : UInt8) : a.toNat <<< 16 ||| b.toNat <<< 8 ||| c.toNat =
    a.toNat * 65536 + b.toNat * 256 + c.toNat := by
  have hc : c.toNat < 2 ^ 8 := c.toNat_lt
  have hb : b.toNat < 2 ^ 8 := b.toNat_lt
  have hlow : 2 ^ 8 * b.toNat + c.toNat < 2 ^ 16 := by omega
  rw [Nat.shiftLeft_eq, Nat.shiftLeft_eq, Nat.or_assoc, Nat.mul_comm _ (2 ^ 8),
    Nat.mul_comm _ (2 ^ 16), ← Nat.two_pow_add_eq_or_of_lt hc, ← Nat.two_pow_add_eq_or_of_lt hlow]
  omega

/-- The bytes of a number. -/
theorem ofNat_bytes (a b c : UInt8) :
    UInt8.ofNat ((a.toNat * 65536 + b.toNat * 256 + c.toNat) >>> 16) = a ∧
      UInt8.ofNat ((a.toNat * 65536 + b.toNat * 256 + c.toNat) >>> 8) = b ∧
      UInt8.ofNat (a.toNat * 65536 + b.toNat * 256 + c.toNat) = c := by
  have ha := a.toNat_lt
  have hb := b.toNat_lt
  have hc := c.toNat_lt
  refine ⟨?_, ?_, ?_⟩
  · apply UInt8.toNat_inj.mp
    rw [UInt8.toNat_ofNat', Nat.shiftRight_eq_div_pow]
    omega
  · apply UInt8.toNat_inj.mp
    rw [UInt8.toNat_ofNat', Nat.shiftRight_eq_div_pow]
    omega
  · apply UInt8.toNat_inj.mp
    rw [UInt8.toNat_ofNat']
    omega

section Groups

variable {n : ℕ} {val : ℕ}

/-- The number that sextets are. -/
theorem val_eq {q : Quantum} (h : val < 2 ^ 24) (hzero : q.dbuf.getD 0 0 = val / 2 ^ 18 % 64)
    (hone : q.dbuf.getD 1 0 = val / 2 ^ 12 % 64) (htwo : q.dbuf.getD 2 0 = val / 2 ^ 6 % 64)
    (hthree : q.dbuf.getD 3 0 = val / 2 ^ 0 % 64) : q.val = val := by
  rw [Quantum.val, hzero, hone, htwo, hthree, sextets_eq h]

variable {s : List UInt8}

/-- The first two characters of a group. -/
theorem quantum_two (hs : Free s) : decodeQuantum n 4 []
    (encodeSextet val 18 :: encodeSextet val 12 :: s) =
      decodeQuantum n 2 [val / 2 ^ 18 % 64, val / 2 ^ 12 % 64] s := by
  have hmore : Clean (encodeSextet val 12 :: s) := by
    apply List.dropWhile_cons_of_neg
    rw [encoder_facts.2.1 _ (encodeSextet_mem val 12)]
    exact Bool.false_ne_true
  rw [quantum_letter (encodeSextet_mem val 18) hmore, decodeMap_encodeSextet,
    quantum_letter (encodeSextet_mem val 12) hs.clean, decodeMap_encodeSextet]
  rfl

/-- What is encoded has no newlines. -/
theorem free_encode (x : List UInt8) : Free (srsAvBase64Encode x) := by
  have hcons : ∀ (c : UInt8) (s : List UInt8), isNewline c = false → Free s → Free (c :: s) := by
    intro c s hc hs
    have hkeep : strip (c :: s) = c :: strip s := List.filter_cons_of_pos (by rw [hc]; rfl)
    unfold Free
    rw [hkeep, hs]
  have hsextet : ∀ (val shift : ℕ) (s : List UInt8), Free s → Free (encodeSextet val shift :: s) :=
    fun val shift s => hcons _ s (encoder_facts.2.1 _ (encodeSextet_mem val shift))
  have hpad : ∀ s : List UInt8, Free s → Free (padding :: s) := fun s => hcons padding s (by decide)
  have hnil : Free [] := rfl
  induction x using srsAvBase64Encode.induct with
  | case1 a b c p ih =>
    exact hsextet _ _ _ (hsextet _ _ _ (hsextet _ _ _ (hsextet _ _ _ ih)))
  | case2 a b => exact hsextet _ _ _ (hsextet _ _ _ (hsextet _ _ _ (hpad _ hnil)))
  | case3 a => exact hsextet _ _ _ (hsextet _ _ _ (hpad _ (hpad _ hnil)))
  | case4 => exact hnil

theorem ne_nil_of_strip {t : List UInt8} {c : UInt8} (h : strip s = c :: t) : s ≠ [] := by
  intro hnil
  rw [hnil] at h
  cases h

/-- Three sextets end with two bytes. -/
theorem plain_end_two (h : val < 2 ^ 24) (hlow : val % 64 = 0) :
    (endQuantum n [val / 2 ^ 18 % 64, val / 2 ^ 12 % 64, val / 2 ^ 6 % 64] []).plain =
      [UInt8.ofNat (val >>> 16), UInt8.ofNat (val >>> 8)] := by
  have hval : (endQuantum n [val / 2 ^ 18 % 64, val / 2 ^ 12 % 64, val / 2 ^ 6 % 64] []).val =
      val := by
    apply val_eq h
    all_goals simp [endQuantum, hlow]
  rw [Quantum.plain, hval]
  rfl

/-- Two sextets end with one byte. -/
theorem plain_end_one (h : val < 2 ^ 24) (hlow : val % 64 = 0) (hmiddle : val / 2 ^ 6 % 64 = 0) :
    (endQuantum n [val / 2 ^ 18 % 64, val / 2 ^ 12 % 64] []).plain = [UInt8.ofNat (val >>> 16)] := by
  have hval : (endQuantum n [val / 2 ^ 18 % 64, val / 2 ^ 12 % 64] []).val = val := by
    apply val_eq h
    · simp [endQuantum]
    · simp [endQuantum]
    · rw [hmiddle]
      simp [endQuantum]
    · simp [endQuantum, hlow]
  rw [Quantum.plain, hval]
  rfl

/-- The quantum of three bytes. -/
theorem quantum_three (a b c : UInt8) (p : List UInt8) :
    ∃ q, decodeQuantum n 4 [] (srsAvBase64Encode (a :: b :: c :: p)) = .ok q ∧
      q.plain = [a, b, c] ∧ q.isEnd = false ∧ q.rest = srsAvBase64Encode p := by
  have hfree := free_encode (a :: b :: c :: p)
  obtain ⟨hfirst, hsecond, hthird⟩ := ofNat_bytes a b c
  have hlt : a.toNat * 65536 + b.toNat * 256 + c.toNat < 2 ^ 24 := by
    have ha := a.toNat_lt
    have hb := b.toNat_lt
    have hc := c.toNat_lt
    omega
  rw [← bytes_eq] at hfirst hsecond hthird hlt
  rw [srsAvBase64Encode] at hfree ⊢
  generalize a.toNat <<< 16 ||| b.toNat <<< 8 ||| c.toNat = val at *
  have hrest := hfree.tail.tail.tail.tail
  refine ⟨⟨[val / 2 ^ 18 % 64, val / 2 ^ 12 % 64, val / 2 ^ 6 % 64, val / 2 ^ 0 % 64], 4, false,
    none, srsAvBase64Encode p⟩, ?_, ?_, rfl, rfl⟩
  · rw [quantum_two hfree.tail.tail,
      quantum_letter (encodeSextet_mem val 6) hfree.tail.tail.tail.clean,
      quantum_letter (encodeSextet_mem val 0) hrest.clean, decodeMap_encodeSextet,
      decodeMap_encodeSextet]
    rfl
  · rw [Quantum.plain, val_eq hlt rfl rfl rfl rfl, hfirst, hsecond, hthird]
    rfl

/-- The quantum of the last two bytes. -/
theorem quantum_end_two (a b : UInt8) :
    ∃ q, decodeQuantum n 4 [] (srsAvBase64Encode [a, b]) = .ok q ∧
      q.plain = [a, b] ∧ q.isEnd = true ∧ q.err = none := by
  have hfree := free_encode [a, b]
  obtain ⟨hfirst, hsecond, -⟩ := ofNat_bytes a b 0
  have hlt : a.toNat * 65536 + b.toNat * 256 + 0 < 2 ^ 24 := by
    have ha := a.toNat_lt
    have hb := b.toNat_lt
    omega
  have hlow : (a.toNat * 65536 + b.toNat * 256 + 0) % 64 = 0 := by omega
  have hor : a.toNat <<< 16 ||| b.toNat <<< 8 = a.toNat * 65536 + b.toNat * 256 + 0 := by
    have h := bytes_eq a b 0
    rwa [show (0 : UInt8).toNat = 0 from rfl, Nat.or_zero] at h
  rw [srsAvBase64Encode, hor] at hfree ⊢
  rw [show (0 : UInt8).toNat = 0 from rfl] at hfirst hsecond
  generalize a.toNat * 65536 + b.toNat * 256 + 0 = val at *
  refine ⟨endQuantum n [val / 2 ^ 18 % 64, val / 2 ^ 12 % 64, val / 2 ^ 6 % 64] [], ?_, ?_, rfl,
    rfl⟩
  · rw [quantum_two hfree.tail.tail,
      quantum_letter (encodeSextet_mem val 6) hfree.tail.tail.tail.clean, decodeMap_encodeSextet]
    exact quantum_one_pad rfl rfl
  · rw [plain_end_two hlt hlow, hfirst, hsecond]

/-- The quantum of the last byte. -/
theorem quantum_end_one (a : UInt8) :
    ∃ q, decodeQuantum n 4 [] (srsAvBase64Encode [a]) = .ok q ∧
      q.plain = [a] ∧ q.isEnd = true ∧ q.err = none := by
  have hfree := free_encode [a]
  obtain ⟨hfirst, -, -⟩ := ofNat_bytes a 0 0
  have hlt : a.toNat * 65536 + 0 * 256 + 0 < 2 ^ 24 := by
    have ha := a.toNat_lt
    omega
  have hlow : (a.toNat * 65536 + 0 * 256 + 0) % 64 = 0 ∧
      (a.toNat * 65536 + 0 * 256 + 0) / 2 ^ 6 % 64 = 0 := by omega
  have hshift : a.toNat <<< 16 = a.toNat * 65536 + 0 * 256 + 0 := by
    rw [Nat.shiftLeft_eq]
    omega
  rw [srsAvBase64Encode, hshift] at hfree ⊢
  rw [show (0 : UInt8).toNat = 0 from rfl] at hfirst
  generalize a.toNat * 65536 + 0 * 256 + 0 = val at *
  refine ⟨endQuantum n [val / 2 ^ 18 % 64, val / 2 ^ 12 % 64] [], ?_, ?_, rfl, rfl⟩
  · rw [quantum_two hfree.tail.tail]
    exact quantum_two_pads hfree.tail.tail.tail.clean rfl rfl
  · rw [plain_end_one hlt hlow.1 hlow.2, hfirst]

/-- The loop gives back what has been encoded. -/
theorem decodeLoop_encode (x : List UInt8) (fuel : ℕ) (hs : Clean s)
    (hfuel : s.length < fuel) (hstrip : strip s = srsAvBase64Encode x) (plaintext : List UInt8) :
    decodeLoop n fuel s plaintext = .ok () (plaintext ++ x) := by
  cases fuel with
  | zero => omega
  | succ fuel =>
    induction x using srsAvBase64Encode.induct generalizing fuel s plaintext with
    | case1 a b c p ih =>
      obtain ⟨q', hquantum, hplain, hend, hrest⟩ := @quantum_three n a b c p
      rw [← hstrip] at hquantum
      obtain ⟨q, hrun, hsame, hlength⟩ := exists_quantum hs hquantum
      rw [srsAvBase64Encode] at hstrip
      rw [decodeLoop_more (ne_nil_of_strip hstrip) hrun (hsame.isEnd.trans hend), hsame.plain,
        hplain]
      cases fuel with
      | zero => omega
      | succ fuel =>
        rw [ih hsame.clean (hsame.rest.trans hrest) _ fuel (by omega), List.append_assoc]
        rfl
    | case2 a b =>
      obtain ⟨q', hquantum, hplain, hend, herr⟩ := @quantum_end_two n a b
      rw [← hstrip] at hquantum
      obtain ⟨q, hrun, hsame, -⟩ := exists_quantum hs hquantum
      rw [srsAvBase64Encode] at hstrip
      rw [decodeLoop_last (ne_nil_of_strip hstrip) hrun (hsame.isEnd.trans hend)
        (hsame.err_none herr), hsame.plain, hplain]
    | case3 a =>
      obtain ⟨q', hquantum, hplain, hend, herr⟩ := @quantum_end_one n a
      rw [← hstrip] at hquantum
      obtain ⟨q, hrun, hsame, -⟩ := exists_quantum hs hquantum
      rw [srsAvBase64Encode] at hstrip
      rw [decodeLoop_last (ne_nil_of_strip hstrip) hrun (hsame.isEnd.trans hend)
        (hsame.err_none herr), hsame.plain, hplain]
    | case4 =>
      cases s with
      | nil =>
        rw [List.append_nil]
        rfl
      | cons c s =>
        rw [strip_cons hs] at hstrip
        cases hstrip

end Groups

/-- Exactly the texts of the format are decoded. -/
theorem srsAvBase64Decode_cases (cipher plaintext : List UInt8) :
    (IsBase64 (strip cipher) ∧
        ∃ x, srsAvBase64Decode cipher plaintext = .ok () (plaintext ++ x)) ∨
      ¬ IsBase64 (strip cipher) ∧ ∃ e left, srsAvBase64Decode cipher plaintext = .err e left := by
  have hle := length_skipNewlines_le cipher
  have hcases := decodeLoop_cases (n := cipher.length) (cipher.length + 1)
    (clean_skipNewlines cipher) (by omega) plaintext
  rwa [strip_skipNewlines] at hcases

/-- Base64 is read back, with newlines anywhere, and no other text is read. -/
theorem base64_round_trip : RoundTrips where
  inverts x cipher plaintext h := by
    apply decodeLoop_encode x _ (clean_skipNewlines cipher)
    · have hle := length_skipNewlines_le cipher
      omega
    · rw [strip_skipNewlines, h]
  refuses cipher plaintext h := by
    rcases srsAvBase64Decode_cases cipher plaintext with ⟨hyes, -⟩ | ⟨-, hrun⟩
    · exact absurd hyes h
    · exact hrun
  accepts cipher plaintext h := by
    rcases srsAvBase64Decode_cases cipher plaintext with ⟨-, hrun⟩ | ⟨hnot, -⟩
    · exact hrun
    · exact absurd h hnot

end SrsChatRoom.Kernel.Base64
