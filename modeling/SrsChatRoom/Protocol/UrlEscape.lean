import SrsChatRoom.Lib.Bytes
import SrsChatRoom.Lib.Outcome

/-!
# Escaping of URLs (`srs_protocol_http_stack.cpp`)

`escape` writes a byte that a part of a URL may not have as `%` and two digits, and in a query a
space as `+`. `unescapse` first looks whether each `%` has its digits, and then puts the bytes back.
Both leave a text alone that has nothing to do.

* `Escaped` - what a text may become;
* `unescapse_isErr_iff` - the texts that are refused;
* `escape_round_trip` - queries and segments of a path are given back.
-/

namespace SrsChatRoom.Protocol.UrlEscape

/-! ## Code -/

/-- `EncodeMode` -/
inductive EncodeMode
  | path | pathSegment | host | zone | userPassword | queryComponent | fragment
deriving DecidableEq, Repr

/-- The bytes of some characters. -/
def bytesOf (text : String) : List UInt8 := text.toList.map Char.toUInt8

/-- Unreserved letters and digits. -/
def isAlphanum (c : UInt8) : Bool :=
  ('a'.toUInt8 ≤ c && c ≤ 'z'.toUInt8) || ('A'.toUInt8 ≤ c && c ≤ 'Z'.toUInt8) ||
    ('0'.toUInt8 ≤ c && c ≤ '9'.toUInt8)

/-- `should_escape` -/
def shouldEscape (c : UInt8) (mode : EncodeMode) : Bool :=
  if isAlphanum c then false
  else if (mode = .host || mode = .zone) && c ∈ bytesOf "!$&'()*+,;=:[]<>\"" then false
  else if c ∈ bytesOf "-_.~" then false
  else if c ∈ bytesOf "$&+,/:;=?@" && mode ≠ .host && mode ≠ .zone then
    match mode with
    | .path => c = '?'.toUInt8
    | .pathSegment => c ∈ bytesOf "/;,?"
    | .userPassword => c ∈ bytesOf "@/?:"
    | .queryComponent => true
    | .fragment => false
    | .host => true
    | .zone => true
  else if mode = .fragment && c ∈ bytesOf "!()*" then false
  else true

/-- `ishex` -/
def ishex (c : UInt8) : Bool :=
  ('0'.toUInt8 ≤ c && c ≤ '9'.toUInt8) || ('a'.toUInt8 ≤ c && c ≤ 'f'.toUInt8) ||
    ('A'.toUInt8 ≤ c && c ≤ 'F'.toUInt8)

/-- `hex_to_num` -/
def hexToNum (c : UInt8) : UInt8 :=
  if '0'.toUInt8 ≤ c && c ≤ '9'.toUInt8 then c - '0'.toUInt8
  else if 'a'.toUInt8 ≤ c && c ≤ 'f'.toUInt8 then c - 'a'.toUInt8 + 10
  else if 'A'.toUInt8 ≤ c && c ≤ 'F'.toUInt8 then c - 'A'.toUInt8 + 10
  else 0

/-- `ERROR_HTTP_URL_UNESCAPE`, by its messages: `invalid URL escape: %s`, `invalid URL escap: %s` and
`invalid character %u in host name`. -/
inductive UnescapeError
  | urlEscape (msg : List UInt8)
  | urlEscap (msg : List UInt8)
  | character (c : UInt8)
deriving DecidableEq

/-- The first loop of `unescapse`: the number of `%`, and `has_plus`. -/
def countEscapes (mode : EncodeMode) :
    ℕ → Bool → List UInt8 → Except UnescapeError (ℕ × Bool)
  | n, hasPlus, [] => .ok (n, hasPlus)
  | n, hasPlus, c :: s =>
    if c = '%'.toUInt8 then
      match s with
      | a :: b :: s =>
        if !ishex a || !ishex b then .error (.urlEscape [c, a, b])
        else if mode = .host && hexToNum a < 8 && [c, a, b] ≠ bytesOf "%25" then
          .error (.urlEscap [c, a, b])
        else if mode = .zone && [c, a, b] ≠ bytesOf "%25" &&
            hexToNum a <<< 4 ||| hexToNum b ≠ ' '.toUInt8 &&
            shouldEscape (hexToNum a <<< 4 ||| hexToNum b) .host then
          .error (.urlEscap [c, a, b])
        else countEscapes mode (n + 1) hasPlus s
      | [a] => .error (.urlEscape [c, a])
      | [] => .error (.urlEscape [c])
    else if c = '+'.toUInt8 then countEscapes mode n (mode = .queryComponent) s
    else if (mode = .host || mode = .zone) && c < 0x80 && shouldEscape c mode then
      .error (.character c)
    else countEscapes mode n hasPlus s

/-- The second loop. `at` throws behind the end of the text. -/
def putBack (mode : EncodeMode) : List UInt8 → Option (List UInt8)
  | [] => some []
  | c :: s =>
    if c = '%'.toUInt8 then
      match s with
      | a :: b :: s => (putBack mode s).map ((hexToNum a <<< 4 ||| hexToNum b) :: ·)
      | _ => none
    else if c = '+'.toUInt8 then
      (putBack mode s).map ((if mode = .queryComponent then ' '.toUInt8 else '+'.toUInt8) :: ·)
    else (putBack mode s).map (c :: ·)

/-- `unescapse(s, value, mode)`: the state is `value`. -/
def unescapse (s : List UInt8) (mode : EncodeMode) : Prog (List UInt8) UnescapeError Unit :=
  fun value =>
    match countEscapes mode 0 false s with
    | .error e => .err e value
    | .ok (n, hasPlus) =>
      if n = 0 && !hasPlus then .ok () s
      else
        match putBack mode s with
        | none => .fault
        | some value => .ok () value

/-- `escape_code` -/
def escapeCode : List UInt8 := bytesOf "0123456789ABCDEF"

/-- What the last loop of `escape` writes for a byte. -/
def escapeByte (mode : EncodeMode) (c : UInt8) : List UInt8 :=
  if c = ' '.toUInt8 && mode = .queryComponent then ['+'.toUInt8]
  else if shouldEscape c mode then
    ['%'.toUInt8, escapeCode.getD (c >>> 4).toNat 0, escapeCode.getD (c &&& 15).toNat 0]
  else [c]

/-- `escape(s, mode)` -/
def escape (s : List UInt8) (mode : EncodeMode) : List UInt8 :=
  let spaceCount := s.countP fun c =>
    shouldEscape c mode && (c = ' '.toUInt8 && mode = .queryComponent)
  let hexCount := s.countP fun c =>
    shouldEscape c mode && !(c = ' '.toUInt8 && mode = .queryComponent)
  if spaceCount = 0 && hexCount = 0 then s
  else if hexCount = 0 then s.map fun c => if c = ' '.toUInt8 then '+'.toUInt8 else c
  else s.flatMap (escapeByte mode)

/-- `SrsHttpUri::query_escape` -/
def queryEscape (s : List UInt8) : List UInt8 := escape s .queryComponent

/-- `SrsHttpUri::path_escape` -/
def pathEscape (s : List UInt8) : List UInt8 := escape s .pathSegment

/-- `SrsHttpUri::query_unescape` -/
def queryUnescape (s : List UInt8) : Prog (List UInt8) UnescapeError Unit :=
  unescapse s .queryComponent

/-- `SrsHttpUri::path_unescape` -/
def pathUnescape (s : List UInt8) : Prog (List UInt8) UnescapeError Unit := unescapse s .pathSegment

/-! ## Escaped texts -/

/-- The bytes that stand for themselves. -/
def isPlain (mode : EncodeMode) (c : UInt8) : Bool :=
  isAlphanum c || c ∈ bytesOf "-_.~" || (mode = .pathSegment && c ∈ bytesOf "$&+:=@")

/-- A text and what may be written for it. -/
inductive Escaped (mode : EncodeMode) : List UInt8 → List UInt8 → Prop
  | nil : Escaped mode [] []
  | plain {c : UInt8} {s t : List UInt8} : isPlain mode c = true → Escaped mode s t →
      Escaped mode (c :: s) (c :: t)
  | space {s t : List UInt8} : mode = .queryComponent → Escaped mode s t →
      Escaped mode (' '.toUInt8 :: s) ('+'.toUInt8 :: t)
  | hex {a b : UInt8} {s t : List UInt8} : ishex a = true → ishex b = true →
      Escaped mode s t →
      Escaped mode ((hexToNum a <<< 4 ||| hexToNum b) :: s) ('%'.toUInt8 :: a :: b :: t)

/-- Some `%` is not followed by two digits. -/
def HasBadEscape (s : List UInt8) : Prop :=
  ∃ front rest, s = front ++ '%'.toUInt8 :: rest ∧
    ¬ ∃ a b more, rest = a :: b :: more ∧ ishex a = true ∧ ishex b = true

/-- The modes of a query and of a segment of a path. -/
def EncodeMode.IsComponent (mode : EncodeMode) : Prop :=
  mode = .queryComponent ∨ mode = .pathSegment

/-- What is promised of a pair of functions. -/
structure RoundTrips (mode : EncodeMode) (escape : List UInt8 → List UInt8)
    (unescape : List UInt8 → Prog (List UInt8) UnescapeError Unit) : Prop where
  inverts : ∀ s value, unescape (escape s) value = .ok () s
  escaped : ∀ s, Escaped mode s (escape s)
  refuses : ∀ s value, (∃ e, unescape s value = .err e value) ↔ HasBadEscape s
  accepts : ∀ s value, ¬ HasBadEscape s → ∃ t, unescape s value = .ok () t

/-! ## Bytes -/

section Bytes

theorem shouldEscape_component (c : UInt8) :
    shouldEscape c .queryComponent = !isPlain .queryComponent c ∧
      shouldEscape c .pathSegment = !isPlain .pathSegment c :=
  byte_cases (p := fun c => shouldEscape c .queryComponent = !isPlain .queryComponent c ∧
    shouldEscape c .pathSegment = !isPlain .pathSegment c) (by decide +kernel) c

/-- The digits of a byte are read back. -/
theorem hex_escapeCode (c : UInt8) :
    ishex (escapeCode.getD (c >>> 4).toNat 0) = true ∧
      ishex (escapeCode.getD (c &&& 15).toNat 0) = true ∧
      hexToNum (escapeCode.getD (c >>> 4).toNat 0) <<< 4 |||
        hexToNum (escapeCode.getD (c &&& 15).toNat 0) = c :=
  byte_cases (p := fun c => ishex (escapeCode.getD (c >>> 4).toNat 0) = true ∧
    ishex (escapeCode.getD (c &&& 15).toNat 0) = true ∧
    hexToNum (escapeCode.getD (c >>> 4).toNat 0) <<< 4 |||
      hexToNum (escapeCode.getD (c &&& 15).toNat 0) = c) (by decide +kernel) c

theorem ne_percent_of_ishex {c : UInt8} (h : ishex c = true) : c ≠ '%'.toUInt8 := by
  intro hc
  rw [hc] at h
  exact absurd h (by decide)

end Bytes

variable {mode : EncodeMode}

theorem shouldEscape_eq (hmode : mode.IsComponent) (c : UInt8) :
    shouldEscape c mode = !isPlain mode c := by
  cases hmode with
  | inl hquery => rw [hquery, (shouldEscape_component c).1]
  | inr hsegment => rw [hsegment, (shouldEscape_component c).2]

variable {c : UInt8}

theorem ne_percent_of_isPlain (hmode : mode.IsComponent) (h : isPlain mode c = true) :
    c ≠ '%'.toUInt8 := by
  intro hc
  rw [hc] at h
  cases hmode with
  | inl hquery =>
    rw [hquery] at h
    exact absurd h (by decide)
  | inr hsegment =>
    rw [hsegment] at h
    exact absurd h (by decide)

/-- In a query no `+` stands for itself. -/
theorem segment_of_plus (h : isPlain mode '+'.toUInt8 = true) : mode ≠ .queryComponent := by
  intro hquery
  rw [hquery] at h
  exact absurd h (by decide)

/-! ## Escaping -/

/-- All ways through `escape` write each byte in its own way. -/
theorem escape_eq (s : List UInt8) : escape s mode = s.flatMap (escapeByte mode) := by
  have hcongr : ∀ f : UInt8 → UInt8, (∀ c ∈ s, escapeByte mode c = [f c]) →
      s.map f = s.flatMap (escapeByte mode) := by
    intro f hf
    rw [List.flatMap_congr hf, List.map_eq_flatMap]
  unfold escape
  dsimp only
  split
  · rename_i hnone
    rw [Bool.and_eq_true, decide_eq_true_eq, decide_eq_true_eq, List.countP_eq_zero,
      List.countP_eq_zero] at hnone
    rw [← hcongr id, List.map_id]
    intro c hc
    have hspace := hnone.1 c hc
    have hhex := hnone.2 c hc
    unfold escapeByte
    cases hplain : shouldEscape c mode with
    | true =>
      rw [hplain] at hspace hhex
      cases hq : decide (c = ' '.toUInt8) && decide (mode = .queryComponent) with
      | true =>
        rw [hq] at hspace
        exact absurd rfl hspace
      | false =>
        rw [hq] at hhex
        exact absurd rfl hhex
    | false =>
      have hnot : (decide (c = ' '.toUInt8) && decide (mode = .queryComponent)) = false := by
        by_contra hboth
        rw [Bool.not_eq_false, Bool.and_eq_true, decide_eq_true_eq, decide_eq_true_eq] at hboth
        rw [hboth.1, hboth.2] at hplain
        exact absurd hplain (by decide)
      rw [hnot, if_neg Bool.false_ne_true, if_neg Bool.false_ne_true]
      rfl
  · rename_i hsome
    split
    · rename_i hhex
      rw [List.countP_eq_zero] at hhex
      have hquery : mode = .queryComponent := by
        by_contra hmode
        apply hsome
        rw [Bool.and_eq_true, decide_eq_true_eq, decide_eq_true_eq, List.countP_eq_zero,
          List.countP_eq_zero]
        refine ⟨?_, hhex⟩
        intro c _
        rw [decide_eq_false hmode, Bool.and_false, Bool.and_false]
        exact Bool.false_ne_true
      apply hcongr
      intro c hc
      have hnot := hhex c hc
      unfold escapeByte
      by_cases hspace : c = ' '.toUInt8
      · rw [if_pos hspace, decide_eq_true hspace, decide_eq_true hquery, Bool.true_and, if_pos rfl]
      · rw [decide_eq_false hspace, Bool.false_and, Bool.not_false, Bool.and_true] at hnot
        rw [if_neg hspace, decide_eq_false hspace, Bool.false_and, if_neg Bool.false_ne_true,
          if_neg hnot]
    · rfl

theorem escaped_escape (hmode : mode.IsComponent) (s : List UInt8) :
    Escaped mode s (escape s mode) := by
  rw [escape_eq]
  induction s with
  | nil => exact .nil
  | cons c s ih =>
    rw [List.flatMap_cons, escapeByte]
    split
    · rename_i hspace
      rw [Bool.and_eq_true, decide_eq_true_eq, decide_eq_true_eq] at hspace
      rw [hspace.1]
      exact .space hspace.2 ih
    · split
      · obtain ⟨hhigh, hlow, hvalue⟩ := hex_escapeCode c
        have hstep := Escaped.hex hhigh hlow ih
        rwa [hvalue] at hstep
      · rename_i hplain
        rw [shouldEscape_eq hmode, Bool.not_eq_true, Bool.not_eq_false'] at hplain
        exact .plain hplain ih

/-! ## Unescaping -/

/-- The rounds of the first loop. -/
theorem countEscapes_other (hmode : mode.IsComponent) (n : ℕ) (hasPlus : Bool)
    (s : List UInt8) (hc : c ≠ '%'.toUInt8) : countEscapes mode n hasPlus (c :: s) =
      countEscapes mode n (if c = '+'.toUInt8 then mode = .queryComponent else hasPlus) s := by
  have hhost : (decide (mode = .host) || decide (mode = .zone)) = false := by
    cases hmode with
    | inl hquery =>
      rw [hquery]
      rfl
    | inr hsegment =>
      rw [hsegment]
      rfl
  rw [countEscapes.eq_def]
  dsimp only
  rw [if_neg hc]
  by_cases hplus : c = '+'.toUInt8
  · rw [if_pos hplus, if_pos hplus]
  · rw [if_neg hplus, if_neg hplus, hhost, Bool.false_and, Bool.false_and,
      if_neg Bool.false_ne_true]

theorem countEscapes_hex (hmode : mode.IsComponent) (n : ℕ) (hasPlus : Bool) {a b : UInt8}
    (s : List UInt8) (ha : ishex a = true) (hb : ishex b = true) :
    countEscapes mode n hasPlus ('%'.toUInt8 :: a :: b :: s) =
      countEscapes mode (n + 1) hasPlus s := by
  have hhost : decide (mode = .host) = false ∧ decide (mode = .zone) = false := by
    cases hmode with
    | inl hquery =>
      rw [hquery]
      exact ⟨rfl, rfl⟩
    | inr hsegment =>
      rw [hsegment]
      exact ⟨rfl, rfl⟩
  rw [countEscapes.eq_def]
  dsimp only
  rw [if_pos rfl, ha, hb, hhost.1, hhost.2]
  rfl

/-- Behind each `%` are two digits. -/
inductive WellEscaped : List UInt8 → Prop
  | nil : WellEscaped []
  | other {c : UInt8} {s : List UInt8} : c ≠ '%'.toUInt8 → WellEscaped s → WellEscaped (c :: s)
  | hex {a b : UInt8} {s : List UInt8} : ishex a = true → ishex b = true → WellEscaped s →
      WellEscaped ('%'.toUInt8 :: a :: b :: s)

variable {s : List UInt8}

variable {t : List UInt8}

theorem Escaped.wellEscaped (hmode : mode.IsComponent) (h : Escaped mode s t) : WellEscaped t := by
  induction h with
  | nil => exact .nil
  | plain hplain _ ih => exact .other (ne_percent_of_isPlain hmode hplain) ih
  | space _ _ ih => exact .other (by decide) ih
  | hex ha hb _ ih => exact .hex ha hb ih

/-- The first loop accepts such a text, and what it counts only grows. -/
theorem WellEscaped.counts (hmode : mode.IsComponent) (h : WellEscaped s) :
    ∀ n hasPlus, ∃ n' hasPlus', countEscapes mode n hasPlus s = .ok (n', hasPlus') ∧ n ≤ n' ∧
      (hasPlus = true → mode = .queryComponent → hasPlus' = true) := by
  induction h with
  | nil => exact fun n hasPlus => ⟨n, hasPlus, rfl, le_rfl, fun h _ => h⟩
  | @other c s hc _ ih =>
    intro n hasPlus
    obtain ⟨n', hasPlus', hrun, hle, hplus⟩ :=
      ih n (if c = '+'.toUInt8 then mode = .queryComponent else hasPlus)
    refine ⟨n', hasPlus', (countEscapes_other hmode n hasPlus s hc).trans hrun, hle, ?_⟩
    intro htrue hquery
    apply hplus _ hquery
    split
    · exact decide_eq_true hquery
    · exact htrue
  | @hex a b s ha hb _ ih =>
    intro n hasPlus
    obtain ⟨n', hasPlus', hrun, hle, hplus⟩ := ih (n + 1) hasPlus
    exact ⟨n', hasPlus', (countEscapes_hex hmode n hasPlus s ha hb).trans hrun, by omega, hplus⟩

theorem putBack_other (s : List UInt8) (hc : c ≠ '%'.toUInt8) :
    putBack mode (c :: s) = (putBack mode s).map
      ((if c = '+'.toUInt8 ∧ mode = .queryComponent then ' '.toUInt8 else c) :: ·) := by
  rw [putBack.eq_def]
  dsimp only
  rw [if_neg hc]
  by_cases hplus : c = '+'.toUInt8
  · by_cases hquery : mode = .queryComponent
    · rw [if_pos hplus, if_pos hquery, if_pos ⟨hplus, hquery⟩]
    · rw [if_pos hplus, if_neg hquery, if_neg (fun h => hquery h.2), hplus]
  · rw [if_neg hplus, if_neg (fun h => hplus h.1)]

theorem putBack_hex (a b : UInt8) (s : List UInt8) :
    putBack mode ('%'.toUInt8 :: a :: b :: s) =
      (putBack mode s).map ((hexToNum a <<< 4 ||| hexToNum b) :: ·) := by
  rw [putBack.eq_def]
  exact if_pos rfl

/-- What has been escaped is put back. -/
theorem Escaped.putsBack (hmode : mode.IsComponent) (h : Escaped mode s t) :
    putBack mode t = some s := by
  induction h with
  | nil => rfl
  | @plain c s t hplain _ ih =>
    have hnot : ¬(c = '+'.toUInt8 ∧ mode = .queryComponent) := by
      intro ⟨hplus, hquery⟩
      rw [hplus] at hplain
      exact segment_of_plus hplain hquery
    rw [putBack_other t (ne_percent_of_isPlain hmode hplain), ih, if_neg hnot]
    rfl
  | @space s t hquery _ ih =>
    rw [putBack_other t (by decide), ih, if_pos ⟨rfl, hquery⟩]
    rfl
  | hex _ _ _ ih =>
    rw [putBack_hex, ih]
    rfl

/-- A text in which nothing is counted is put back as it is. -/
theorem WellEscaped.unchanged (hmode : mode.IsComponent) (h : WellEscaped s)
    {n : ℕ} {hasPlus : Bool} (hcount : countEscapes mode n hasPlus s = .ok (0, false)) :
    putBack mode s = some s := by
  induction h generalizing n hasPlus with
  | nil => rfl
  | @other c s hc hs ih =>
    rw [countEscapes_other hmode n hasPlus s hc] at hcount
    have hnot : ¬(c = '+'.toUInt8 ∧ mode = .queryComponent) := by
      intro ⟨hplus, hquery⟩
      rw [if_pos hplus, decide_eq_true hquery] at hcount
      obtain ⟨n', hasPlus', hrun, -, htrue⟩ := hs.counts hmode n true
      rw [hcount] at hrun
      cases hrun
      exact absurd (htrue rfl hquery) Bool.false_ne_true
    rw [putBack_other s hc, ih hcount, if_neg hnot]
    rfl
  | @hex a b s ha hb hs ih =>
    rw [countEscapes_hex hmode n hasPlus s ha hb] at hcount
    obtain ⟨n', hasPlus', hrun, hle, -⟩ := hs.counts hmode (n + 1) hasPlus
    rw [hcount] at hrun
    cases hrun
    omega

/-- The second loop does not look behind the end of such a text. -/
theorem WellEscaped.puts (h : WellEscaped s) : ∃ t, putBack mode s = some t := by
  induction h with
  | nil => exact ⟨[], rfl⟩
  | @other c s hc _ ih =>
    obtain ⟨t, ht⟩ := ih
    exact ⟨_, by rw [putBack_other s hc, ht]; rfl⟩
  | @hex a b s _ _ _ ih =>
    obtain ⟨t, ht⟩ := ih
    exact ⟨_, by rw [putBack_hex, ht]; rfl⟩

/-- Such a text becomes what is put back. -/
theorem WellEscaped.unescapse_ok (hmode : mode.IsComponent)
    (h : WellEscaped s) (hputs : putBack mode s = some t) (value : List UInt8) :
    unescapse s mode value = .ok () t := by
  obtain ⟨n, hasPlus, hcount, -, -⟩ := h.counts hmode 0 false
  unfold unescapse
  rw [hcount]
  dsimp only
  split
  · rename_i hnone
    rw [Bool.and_eq_true, decide_eq_true_eq, Bool.not_eq_true'] at hnone
    rw [hnone.1, hnone.2] at hcount
    rw [h.unchanged hmode hcount] at hputs
    rw [Option.some.inj hputs]
  · rw [hputs]

/-! ## What is refused -/

theorem hasBadEscape_cons (h : HasBadEscape s) : HasBadEscape (c :: s) := by
  obtain ⟨front, rest, hs, hnot⟩ := h
  exact ⟨c :: front, rest, by rw [hs]; rfl, hnot⟩

/-- In such a text no `%` is without its digits. -/
theorem WellEscaped.not_bad (h : WellEscaped s) : ¬ HasBadEscape s := by
  induction h with
  | nil =>
    intro ⟨front, rest, hs, _⟩
    exact absurd hs.symm (List.append_ne_nil_of_right_ne_nil _ (List.cons_ne_nil _ _))
  | @other c s hc _ ih =>
    intro ⟨front, rest, hs, hnot⟩
    cases front with
    | nil => exact hc (List.cons.inj hs).1
    | cons d front => exact ih ⟨front, rest, (List.cons.inj hs).2, hnot⟩
  | @hex a b s ha hb _ ih =>
    intro ⟨front, rest, hs, hnot⟩
    -- the bad `%` is none of the first three bytes
    match front with
    | [] => exact hnot ⟨a, b, s, (List.cons.inj hs).2.symm, ha, hb⟩
    | [_] => exact ne_percent_of_ishex ha (List.cons.inj (List.cons.inj hs).2).1
    | [_, _] =>
      exact ne_percent_of_ishex hb (List.cons.inj (List.cons.inj (List.cons.inj hs).2).2).1
    | _ :: _ :: _ :: front =>
      exact ih ⟨front, rest, (List.cons.inj (List.cons.inj (List.cons.inj hs).2).2).2, hnot⟩

/-- A text that is not such a one is refused. -/
theorem wellEscaped_or_refused (hmode : mode.IsComponent) (s : List UInt8) : WellEscaped s ∨
    HasBadEscape s ∧ ∀ n hasPlus, ∃ e, countEscapes mode n hasPlus s = .error e := by
  induction hlength : s.length using Nat.strong_induction_on generalizing s with
  | _ k ih =>
    cases s with
    | nil => exact .inl .nil
    | cons c s =>
      rw [List.length_cons] at hlength
      by_cases hc : c = '%'.toUInt8
      · by_cases hdigits : ∃ a b more, s = a :: b :: more ∧ ishex a = true ∧ ishex b = true
        · obtain ⟨a, b, more, hs, ha, hb⟩ := hdigits
          rw [hs, List.length_cons, List.length_cons] at hlength
          rw [hc, hs]
          cases ih more.length (by omega) more rfl with
          | inl hwell => exact .inl (.hex ha hb hwell)
          | inr hbad =>
            right
            apply And.intro
            · exact hasBadEscape_cons (hasBadEscape_cons (hasBadEscape_cons hbad.1))
            · intro n hasPlus
              rw [countEscapes_hex hmode n hasPlus more ha hb]
              exact hbad.2 (n + 1) hasPlus
        · right
          rw [hc]
          apply And.intro
          · exact ⟨[], s, rfl, hdigits⟩
          · intro n hasPlus
            match s, hdigits with
            | [], _ => exact ⟨_, rfl⟩
            | [a], _ => exact ⟨_, rfl⟩
            | a :: b :: more, hdigits =>
              have hnot : (!ishex a || !ishex b) = true := by
                by_contra hboth
                apply hdigits
                refine ⟨a, b, more, rfl, ?_⟩
                rwa [Bool.not_eq_true, Bool.or_eq_false_iff, Bool.not_eq_false', Bool.not_eq_false']
                  at hboth
              refine ⟨.urlEscape ['%'.toUInt8, a, b], ?_⟩
              rw [countEscapes.eq_def]
              dsimp only
              rw [if_pos rfl, if_pos hnot]
      · cases ih s.length (by omega) s rfl with
        | inl hwell => exact .inl (.other hc hwell)
        | inr hbad =>
          right
          apply And.intro
          · exact hasBadEscape_cons hbad.1
          · intro n hasPlus
            rw [countEscapes_other hmode n hasPlus s hc]
            exact hbad.2 n _

theorem roundTrips_component (hmode : mode.IsComponent) :
    RoundTrips mode (escape · mode) (unescapse · mode) where
  inverts s value :=
    (escaped_escape hmode s).wellEscaped hmode |>.unescapse_ok hmode
      ((escaped_escape hmode s).putsBack hmode) value
  escaped s := escaped_escape hmode s
  refuses s value := by
    cases wellEscaped_or_refused hmode s with
    | inl hwell =>
      obtain ⟨t, ht⟩ := @WellEscaped.puts mode s hwell
      constructor
      · intro ⟨e, he⟩
        rw [hwell.unescapse_ok hmode ht] at he
        cases he
      · intro hbad
        exact absurd hbad hwell.not_bad
    | inr hbad =>
      obtain ⟨e, he⟩ := hbad.2 0 false
      constructor
      · intro _
        exact hbad.1
      · intro _
        refine ⟨e, ?_⟩
        unfold unescapse
        rw [he]
  accepts s value hgood := by
    cases wellEscaped_or_refused hmode s with
    | inl hwell =>
      obtain ⟨t, ht⟩ := @WellEscaped.puts mode s hwell
      exact ⟨t, hwell.unescapse_ok hmode ht value⟩
    | inr hbad => exact absurd hbad.1 hgood

/-- Queries and segments of a path are escaped and given back, and a text is refused exactly if some
`%` is not followed by two digits. -/
theorem escape_round_trip : RoundTrips .queryComponent queryEscape queryUnescape ∧
    RoundTrips .pathSegment pathEscape pathUnescape :=
  ⟨roundTrips_component (.inl rfl), roundTrips_component (.inr rfl)⟩

example : queryEscape (bytesOf "a b&c") = bytesOf "a+b%26c" := by decide

end SrsChatRoom.Protocol.UrlEscape
