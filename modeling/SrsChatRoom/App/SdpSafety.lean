import SrsChatRoom.App.Sdp

/-!
# Which texts the parser of descriptions can take

A line that is cut off after a number or a word makes the code take a tail that is not there
(`Truncated`), and so does a `y=` line that is longer than the buffer of `srs_fmt`. A `y=` line in
front of the first media section goes to a media description that is not there. No other line makes
`parse` throw, so `parse` returns exactly if none of these is reached.
-/

namespace SrsChatRoom.App.Sdp

open TextStream

/-! ## Parsers that return -/

/-- Parsing ends with success or an error: nothing is thrown, and no memory is read outside. -/
def Returns {α : Type} (p : Parsed α) : Prop :=
  p ≠ .error .outOfRange ∧ p ≠ .error .backOfEmpty

instance {α : Type} (p : Parsed α) : Decidable (Returns p) :=
  match p with
  | .ok _ => .isTrue ⟨nofun, nofun⟩
  | .error (.error _) => .isTrue ⟨nofun, nofun⟩
  | .error .outOfRange => .isFalse fun h => h.1 rfl
  | .error .backOfEmpty => .isFalse fun h => h.2 rfl

section
variable {α β : Type}

@[simp] theorem returns_ok (a : α) : Returns (.ok a : Parsed α) := ⟨nofun, nofun⟩

@[simp] theorem returns_fail (e : SdpError) : Returns (fail e : Parsed α) := ⟨nofun, nofun⟩

@[simp] theorem not_returns_outOfRange : ¬ Returns (.error .outOfRange : Parsed α) :=
  fun h => h.1 rfl

@[simp] theorem not_returns_backOfEmpty : ¬ Returns (.error .backOfEmpty : Parsed α) :=
  fun h => h.2 rfl

@[simp] theorem returns_fetch (o : Option (α × Text)) : Returns (fetch o) := by
  cases o with
  | none => exact returns_fail _
  | some p => exact returns_ok p

@[simp] theorem returns_tail {rest : Text} : Returns (tail rest) ↔ rest ≠ [] := by
  unfold tail
  split
  · next h => simp [h]
  · next h => simp [h]

/-- A sequence returns if its first part does, and what comes after a success. -/
@[simp] theorem returns_bind {p : Parsed α} {f : α → Parsed β} :
    Returns (p >>= f) ↔ Returns p ∧ ∀ a, p = .ok a → Returns (f a) := by
  cases p with
  | ok a =>
    show Returns (f a) ↔ _
    simp
  | error stop =>
    show Returns (.error stop) ↔ _
    simp [Returns]

theorem returns_ite {c : Prop} [Decidable c] {p q : Parsed α} (hp : Returns p) (hq : Returns q) :
    Returns (if c then p else q) := by
  split
  · exact hp
  · exact hq

end

/-! ## The attributes -/

theorem SrsSessionInfo.returns_parseAttribute (s : SrsSessionInfo) (attr value : Text) :
    Returns (s.parseAttribute attr value) := by
  unfold SrsSessionInfo.parseAttribute
  split_ifs <;> simp

namespace SrsMediaDesc

variable {m : SrsMediaDesc} {value : Text}

/-- The number of a payload is read, and the payload is there. -/
theorem fetchPayload_eq_ok {attr : Text} {p : ℤ × Text} :
    m.fetchPayload attr value = .ok p ↔
      int 32 value = some p ∧ (m.findPayload p.1).isSome := by
  unfold fetchPayload
  cases hint : int 32 value with
  | none =>
    show fail .fetchFailed = .ok p ↔ _
    simp [fail]
  | some q =>
    show (if _ then _ else _) = Except.ok p ↔ _
    split
    · next h =>
      simp only [Except.ok.injEq, Option.some.injEq]
      constructor
      · rintro rfl
        exact ⟨rfl, h⟩
      · rintro ⟨rfl, -⟩
        rfl
    · next h =>
      simp only [fail, reduceCtorEq, Option.some.injEq, false_iff]
      rintro ⟨rfl, hfound⟩
      exact h hfound

@[simp] theorem returns_fetchPayload (m : SrsMediaDesc) (attr value : Text) :
    Returns (m.fetchPayload attr value) := by
  simp only [fetchPayload, returns_bind, returns_fetch, true_and]
  intro a _
  split <;> simp

@[simp] theorem returns_setRtpmap (value : Text) (parts : List Text) :
    Returns (setRtpmap value parts) := by
  unfold setRtpmap
  split <;> simp

theorem returns_parseAttrExtmap (m : SrsMediaDesc) (value : Text) :
    Returns (m.parseAttrExtmap value) := by
  simp only [parseAttrExtmap, returns_bind, returns_fetch, true_and]
  intro a _
  split <;> simp

theorem returns_parseAttrMsid (m : SrsMediaDesc) (value : Text) :
    Returns (m.parseAttrMsid value) := by
  simp only [parseAttrMsid, returns_bind, returns_fetch, true_and]
  intro a _
  split <;> simp

/-- The payload is there, and nothing follows its number. -/
def CutRtcpFb (m : SrsMediaDesc) (value : Text) : Prop :=
  ∃ payloadType, int 32 value = some (payloadType, []) ∧ (m.findPayload payloadType).isSome

theorem returns_parseAttrRtcpFb : Returns (m.parseAttrRtcpFb value) ↔ ¬ m.CutRtcpFb value := by
  simp only [parseAttrRtcpFb, returns_bind, returns_fetchPayload, returns_tail, returns_ok,
    fetchPayload_eq_ok, implies_true, and_true, true_and, CutRtcpFb]
  constructor
  · rintro h ⟨payloadType, hint, hfound⟩
    exact h _ ⟨hint, hfound⟩ rfl
  · rintro h ⟨payloadType, is⟩ ⟨hint, hfound⟩ hnil
    dsimp only at hnil
    subst hnil
    exact h ⟨payloadType, hint, hfound⟩

/-- Something without a `:` follows the number. -/
def CutSsrc (value : Text) : Prop :=
  ∃ ssrc is, uint 32 value = some (ssrc, is) ∧ is ≠ [] ∧ ':' ∉ is

theorem returns_attributeAndTail {is : Text} :
    Returns (attributeAndTail is) ↔ ¬ (is ≠ [] ∧ ':' ∉ is) := by
  unfold attributeAndTail
  split
  · next h => simp [h]
  · next h =>
    have hnone := @upTo_snd_eq_none ':' is
    cases hupTo : upTo ':' is with
    | mk attr tail =>
      rw [hupTo] at hnone
      cases tail with
      | none => simp [h, hnone.1 rfl]
      | some value => simp [show ':' ∈ is by simpa using hnone]

theorem returns_parseAttrSsrc : Returns (m.parseAttrSsrc value) ↔ ¬ CutSsrc value := by
  simp only [parseAttrSsrc, returns_bind, returns_fetch, returns_attributeAndTail, returns_ok,
    fetch_eq_ok, implies_true, and_true, true_and, CutSsrc]
  constructor
  · rintro h ⟨ssrc, is, huint, hcut⟩
    exact h _ huint hcut
  · rintro h ⟨ssrc, is⟩ huint hcut
    exact h ⟨ssrc, is, huint, hcut⟩

/-- Nothing follows the first word. -/
def CutSsrcGroup (value : Text) : Prop :=
  ∃ semantics, word value = some (semantics, [])

theorem returns_parseAttrSsrcGroup :
    Returns (m.parseAttrSsrcGroup value) ↔ ¬ CutSsrcGroup value := by
  simp only [parseAttrSsrcGroup, returns_bind, returns_fetch, returns_tail, returns_ok,
    fetch_eq_ok, implies_true, and_true, true_and, CutSsrcGroup]
  constructor
  · rintro h ⟨semantics, hword⟩
    exact h _ hword rfl
  · rintro h ⟨semantics, is⟩ hword hnil
    dsimp only at hnil
    subst hnil
    exact h ⟨semantics, hword⟩

/-- The attribute is cut off where its tail is taken. -/
def Truncated (m : SrsMediaDesc) (content : Text) : Prop :=
  ((attributeOf content).1 = "rtcp-fb".toList ∧ m.CutRtcpFb (attributeOf content).2) ∨
  ((attributeOf content).1 = "ssrc".toList ∧ CutSsrc (attributeOf content).2) ∨
  ((attributeOf content).1 = "ssrc-group".toList ∧ CutSsrcGroup (attributeOf content).2)

theorem returns_parseAttribute {content : Text} :
    Returns (m.parseAttribute content) ↔ ¬ m.Truncated content := by
  unfold parseAttribute Truncated
  generalize attributeOf content = p
  obtain ⟨attr, value⟩ := p
  dsimp only
  by_cases hfb : attr = "rtcp-fb".toList
  · subst hfb
    simp [returns_parseAttrRtcpFb]
  by_cases hssrc : attr = "ssrc".toList
  · subst hssrc
    simp [returns_parseAttrSsrc]
  by_cases hgroup : attr = "ssrc-group".toList
  · subst hgroup
    simp [returns_parseAttrSsrcGroup]
  simp only [hfb, hssrc, hgroup, if_false, false_and, or_self, not_false_eq_true, iff_true]
  repeat' apply returns_ite
  all_goals simp [returns_parseAttrExtmap, returns_parseAttrMsid, parseAttrRtpmap, parseAttrFmtp,
    parseAttrMid, SrsSessionInfo.returns_parseAttribute]

/-- A line of an attribute. -/
theorem returns_parseLine {content : Text} :
    Returns (m.parseLine ('a' :: '=' :: content)) ↔ ¬ m.Truncated content :=
  returns_parseAttribute

/-- The lines of the form `y=` are not cut off: there is a `:` behind the number. -/
theorem not_truncated_ssrc (m : SrsMediaDesc) (h : ':' ∈ value) :
    ¬ m.Truncated ("ssrc:".toList ++ value) := by
  have hattr : attributeOf ("ssrc:".toList ++ value) = ("ssrc".toList, value) :=
    attributeOf_append "ssrc".toList (by decide) value
  unfold Truncated
  rw [hattr]
  rintro (⟨hname, -⟩ | ⟨-, ssrc, is, huint, -, hmem⟩ | ⟨hname, -⟩)
  · exact absurd hname (show "ssrc".toList ≠ "rtcp-fb".toList by decide)
  · exact hmem (mem_of_uint huint h (by decide) (by decide) (by decide) (by decide))
  · exact absurd hname (show "ssrc".toList ≠ "ssrc-group".toList by decide)

end SrsMediaDesc

/-! ## The lines of a description -/

namespace SrsSdp

variable {s : SrsSdp} {line : Text}

/-- A line of a media section is read if there is a media description that reads it. -/
theorem returns_parseMediaLine :
    Returns (s.parseMediaLine line) ↔
      ∃ m, s.mediaDescs.getLast? = some m ∧ Returns (m.parseLine line) := by
  unfold parseMediaLine
  cases s.mediaDescs.getLast? with
  | none => simp
  | some m => simp

/-- There is a media description after a line of a media section. -/
theorem mediaDescs_of_parseMediaLine {s' : SrsSdp}
    (h : s.parseMediaLine line = .ok s') : s'.mediaDescs ≠ [] := by
  unfold parseMediaLine at h
  split at h
  · cases h
  · obtain ⟨m, -, hs⟩ := bind_eq_ok.1 h
    cases hs
    simp

theorem srsFmt_of_lt {l : Text} (h : l.length < 8192) : srsFmt l = l := if_pos h

theorem srsFmt_of_le {l : Text} (h : 8192 ≤ l.length) : srsFmt l = [] := if_neg (by omega)

/-- A line of the form `y=` needs a media description, and has to fit the buffer. -/
theorem returns_parseGb28181Ssrc {content : Text} :
    Returns (s.parseGb28181Ssrc content) ↔
      s.mediaDescs ≠ [] ∧ (cStr content).length < 4089 := by
  have hcname : ("a=ssrc:".toList ++ cStr content ++ " cname:".toList ++ cStr content).length =
      14 + 2 * (cStr content).length := by
    simp only [List.length_append, show "a=ssrc:".toList.length = 7 from rfl,
      show " cname:".toList.length = 7 from rfl]
    omega
  have hlabel : ("a=ssrc:".toList ++ cStr content ++ " label:gb28181".toList).length =
      21 + (cStr content).length := by
    simp only [List.length_append, show "a=ssrc:".toList.length = 7 from rfl,
      show " label:gb28181".toList.length = 14 from rfl]
    omega
  simp only [parseGb28181Ssrc, returns_bind, returns_parseMediaLine]
  constructor
  · rintro ⟨⟨m, hlast, hm⟩, -⟩
    constructor
    · intro hnil
      rw [hnil] at hlast
      cases hlast
    · by_contra hlong
      rw [srsFmt_of_le (by omega)] at hm
      exact not_returns_outOfRange hm
  · rintro ⟨hne, hlen⟩
    rw [srsFmt_of_lt (by omega), srsFmt_of_lt (by omega)]
    constructor
    · refine ⟨s.mediaDescs.getLast hne, List.getLast?_eq_some_getLast hne, ?_⟩
      rw [List.append_assoc, List.append_assoc]
      exact SrsMediaDesc.returns_parseLine.2 (SrsMediaDesc.not_truncated_ssrc _ (by simp))
    · intro s' hs'
      have hne' := mediaDescs_of_parseMediaLine hs'
      refine ⟨s'.mediaDescs.getLast hne', List.getLast?_eq_some_getLast hne', ?_⟩
      rw [List.append_assoc]
      exact SrsMediaDesc.returns_parseLine.2 (SrsMediaDesc.not_truncated_ssrc _ (by simp))

/-- What is left of a line. -/
def contentOf (line : Text) : Text := (trimEnd line).drop 2

/-- A line that makes the code throw, or read the back of an empty vector. -/
def Truncated (s : SrsSdp) (line : Text) : Prop :=
  match line with
  | c :: '=' :: _ =>
    (c = 'a' ∧ ∃ m, s.mediaDescs.getLast? = some m ∧ m.Truncated (contentOf line)) ∨
    (c = 'y' ∧ (s.mediaDescs = [] ∨ 4089 ≤ (cStr (contentOf line)).length))
  | _ => False

/-- `in_media_session_` says that there is a media description. -/
def InSection (s : SrsSdp) : Prop := s.inMediaSession = true ↔ s.mediaDescs ≠ []

/-- The first two characters of a line stay. -/
theorem trimEnd_eq (c : Char) (l : Text) :
    trimEnd (c :: '=' :: l) = c :: '=' :: contentOf (c :: '=' :: l) := by
  have hspaces : ∀ l : Text, ∃ content,
      (c :: '=' :: l).rdropWhile (· = ' ') = c :: '=' :: content := by
    intro l
    induction l using List.reverseRecOn with
    | nil => exact ⟨[], by simp [List.rdropWhile]⟩
    | append_singleton l d ih =>
      by_cases hd : d = ' '
      · rw [show c :: '=' :: (l ++ [d]) = (c :: '=' :: l) ++ [d] from rfl,
          List.rdropWhile_concat_pos _ _ _ (by simpa using hd)]
        exact ih
      · rw [show c :: '=' :: (l ++ [d]) = (c :: '=' :: l) ++ [d] from rfl,
          List.rdropWhile_concat_neg _ _ _ (by simpa using hd)]
        exact ⟨l ++ [d], rfl⟩
  have htrim : ∃ content, trimEnd (c :: '=' :: l) = c :: '=' :: content := by
    unfold trimEnd
    split
    · next hlast =>
      cases l with
      | nil => cases hlast
      | cons d l => exact hspaces _
    · exact hspaces l
  obtain ⟨content, hcontent⟩ := htrim
  rw [contentOf, hcontent]
  rfl

theorem inSection_parseMediaLine (hs : s.InSection) :
    Ensures InSection (s.parseMediaLine line) := by
  intro s' h
  have hne' := mediaDescs_of_parseMediaLine h
  unfold parseMediaLine at h
  split at h
  · cases h
  · next m hlast =>
    obtain ⟨m', -, hs'⟩ := bind_eq_ok.1 h
    have hne : s.mediaDescs ≠ [] := by
      intro hnil
      rw [hnil] at hlast
      cases hlast
    cases hs'
    exact iff_of_true (hs.2 hne) hne'

theorem inSection_parseAttribute {content : Text} (hs : s.InSection) :
    Ensures InSection (s.parseAttribute content) := by
  unfold parseAttribute
  dsimp only
  apply ensures_ite
  · intro _
    apply ensures_ite
    · exact fun _ => ensures_ok.2 hs
    · exact fun _ => ensures_bind fun _ _ => ensures_ok.2 hs
  · intro _
    apply ensures_ite
    · exact fun _ => ensures_bind fun _ _ => ensures_ok.2 hs
    · exact fun _ => ensures_bind fun _ _ => ensures_ok.2 hs

/-- Every line keeps the agreement. -/
theorem inSection_parseLine (hs : s.InSection) : Ensures InSection (s.parseLine line) := by
  unfold parseLine
  split
  · apply ensures_ite <;> intro _
    · repeat (refine ensures_bind fun _ _ => ?_)
      exact ensures_ok.2 hs
    apply ensures_ite <;> intro _
    · exact ensures_bind fun _ _ => ensures_ok.2 hs
    apply ensures_ite <;> intro _
    · exact ensures_ok.2 hs
    apply ensures_ite <;> intro _
    · exact ensures_bind fun _ _ => ensures_bind fun _ _ => ensures_ok.2 hs
    apply ensures_ite <;> intro _
    · apply ensures_ite
      · exact fun _ => inSection_parseMediaLine hs
      · exact fun _ => inSection_parseAttribute hs
    apply ensures_ite <;> intro _
    · exact ensures_bind fun s' hs' => inSection_parseMediaLine (inSection_parseMediaLine hs s' hs')
    apply ensures_ite <;> intro _
    · refine ensures_bind fun _ _ => ensures_bind fun _ _ => ensures_bind fun _ _ => ?_
      exact ensures_ok.2 (iff_of_true rfl (by simp))
    · exact ensures_ok.2 hs
  · exact ensures_error _

theorem returns_parseAttribute (s : SrsSdp) (content : Text) :
    Returns (s.parseAttribute content) := by
  unfold parseAttribute
  dsimp only
  apply returns_ite
  · apply returns_ite <;> simp
  · apply returns_ite <;> simp [SrsSessionInfo.returns_parseAttribute]

/-- A line in a state with a media section, and in one without. -/
theorem returns_parseRawLine (hs : s.InSection) :
    Returns (s.parseRawLine line) ↔ ¬ s.Truncated line := by
  unfold parseRawLine Truncated
  split
  · next c l =>
    rw [trimEnd_eq]
    generalize contentOf (c :: '=' :: l) = content
    by_cases ha : c = 'a'
    · subst ha
      show Returns (if s.inMediaSession then _ else _) ↔ _
      split
      · next hsection =>
        have hlast := List.getLast?_eq_some_getLast (hs.1 hsection)
        rw [returns_parseMediaLine, hlast]
        simp [SrsMediaDesc.returns_parseLine]
      · next hsection =>
        have hnil : s.mediaDescs = [] := by
          by_contra hne
          exact hsection (hs.2 hne)
        simp [returns_parseAttribute, hnil]
    by_cases hy : c = 'y'
    · subst hy
      show Returns (s.parseGb28181Ssrc content) ↔ _
      rw [returns_parseGb28181Ssrc]
      simp only [show ¬ 'y' = 'a' by decide, false_and, true_and, false_or]
      rw [not_or, Nat.not_le]
    · simp only [ha, hy, false_and, or_self, not_false_eq_true, iff_true]
      unfold parseLine
      dsimp only
      simp only [ha, hy, if_false]
      repeat' apply returns_ite
      all_goals simp [parseOrigin, parseVersion, parseTiming, parseMediaDescription]
  · simp

/-! ## The whole text -/

/-- What is reached in front of a line. -/
theorem parseLines_cons (s : SrsSdp) (line : Text) (lines : List Text) :
    s.parseLines (line :: lines) = s.parseRawLine line >>= fun s' => s'.parseLines lines := by
  rw [parseLines]
  cases s.parseRawLine line with
  | ok s' => rfl
  | error stop => rfl

theorem parseLines_append (s : SrsSdp) (before after : List Text) :
    s.parseLines (before ++ after) = s.parseLines before >>= fun s' => s'.parseLines after := by
  induction before generalizing s with
  | nil => rfl
  | cons line before ih =>
    rw [List.cons_append, parseLines_cons, parseLines_cons]
    cases s.parseRawLine line with
    | ok s' => exact ih s'
    | error stop => rfl

theorem inSection_parseRawLine (hs : s.InSection) : Ensures InSection (s.parseRawLine line) := by
  unfold parseRawLine
  split
  · exact inSection_parseLine hs
  · exact ensures_fail _

/-- The lines are read unless one of them is reached that throws. -/
theorem returns_parseLines {lines : List Text} (hs : s.InSection) :
    Returns (s.parseLines lines) ↔
      ∀ before line after s', lines = before ++ line :: after →
        s.parseLines before = .ok s' → ¬ s'.Truncated line := by
  induction lines generalizing s with
  | nil =>
    simp [parseLines]
  | cons line lines ih =>
    rw [parseLines_cons, returns_bind, returns_parseRawLine hs]
    constructor
    · rintro ⟨hline, hlines⟩ before line' after s' heq hbefore
      cases before with
      | nil =>
        cases heq
        cases hbefore
        exact hline
      | cons first before =>
        cases heq
        rw [parseLines_cons] at hbefore
        obtain ⟨s₁, hs₁, hbefore⟩ := bind_eq_ok.1 hbefore
        exact (ih (inSection_parseRawLine hs s₁ hs₁)).1 (hlines s₁ hs₁) before line' after s' rfl
          hbefore
    · intro h
      constructor
      · exact h [] line lines s rfl rfl
      · intro s₁ hs₁
        apply (ih (inSection_parseRawLine hs s₁ hs₁)).2
        intro before line' after s' heq hbefore
        refine h (line :: before) line' after s' (by rw [heq]; rfl) ?_
        rw [parseLines_cons, bind_eq_ok]
        exact ⟨s₁, hs₁, hbefore⟩

/-- The parser returns exactly if no line is reached that throws in the state it is read in. -/
theorem returns_parse (text : Text) :
    Returns (parse text) ↔
      ∀ before line after s, lines text = before ++ line :: after →
        ({} : SrsSdp).parseLines before = .ok s → ¬ s.Truncated line := by
  have hstart : ({} : SrsSdp).InSection := iff_of_false nofun (fun h => h rfl)
  rw [← returns_parseLines hstart]
  simp [parse]

/-- A text whose first line is that of a source. -/
theorem source_without_media_throws :
    ¬ ∀ text, Returns (parse text) := by
  intro h
  exact absurd (h "y=1\n".toList) (by decide)

end SrsSdp

end SrsChatRoom.App.Sdp
