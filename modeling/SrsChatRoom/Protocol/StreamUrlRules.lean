import SrsChatRoom.Protocol.HttpUriParsing
import SrsChatRoom.Protocol.StreamUrl

/-!
# Which spellings of a stream URL agree

The host of the URL must not have an underscore. In a generated URL what counts is the query: a
slash in it moves its end into the path, a character that no URL has makes the URL unreadable, and
the vhost must be read where a key stands.

* `standardUrl_of_front`, `standardUrl_of_vhost` - the URL that is parsed;
* `TailPlain` - what may stand behind the stream;
* `found_iff` - when the target is found in a URL that is parsed.
-/

namespace SrsChatRoom.Protocol.StreamUrl

open HttpUri (SrsHttpUri srsHttpUriInitialize defaultVhost defaultHost safeHost parsingUrl urlText
  showPort PortOk IsRest isRestChar isUrlChar isHostChar queryOf)
open SubText (free_append free_of_head replace_append replace_eq_self splitLast_append Free replace splitLast)

/-! ## Tokens -/

section Tokens

variable {c : Char}

theorem isUrlChar_of_isTokenChar (h : isTokenChar c = true) : isUrlChar c = true := by
  simp only [isTokenChar, Bool.or_eq_true, decide_eq_true_eq] at h
  rcases h with ((h | rfl) | rfl) | rfl
  · exact HttpUri.isUrlChar_of_isAlphanum h
  all_goals decide

theorem isHostChar_of_isTokenChar (h : isTokenChar c = true) : isHostChar c = true ∨ c = '_' := by
  simp only [isTokenChar, Bool.or_eq_true, decide_eq_true_eq] at h
  rcases h with ((h | rfl) | rfl) | rfl
  · exact Or.inl (by simp [isHostChar, h])
  · exact Or.inl (by decide)
  · exact Or.inl (by decide)
  · exact Or.inr rfl

theorem Token.not_mem (t : Token) (h : isTokenChar c = false) : c ∉ t.text := by
  intro hc
  rw [t.chars c hc] at h
  cases h

theorem Token.ne_defaultVhost (t : Token) : t.text ≠ defaultVhost := by
  intro heq
  apply t.free defaultVhost (by simp [reserved])
  rw [heq]

variable {b : Text}

/-- A word of token characters that holds a reserved word does not begin in a token. -/
theorem Token.free_of_reserved (t : Token) {w : Text} (hw : w.all isTokenChar = true)
    (hreserved : ∃ r ∈ reserved, r <:+: w) (hb : ∀ c ∈ b.head?, isTokenChar c = false) :
    Free w t.text b := by
  apply SubText.free_of_kind (p := fun c => isTokenChar c = true) (List.all_eq_true.mp hw)
  · intro c hc
    simp [hb c hc]
  · intro hi
    obtain ⟨r, hr, hrw⟩ := hreserved
    exact t.free r hr (hrw.trans hi)

/-- A word of token characters that holds a reserved word is not the begin of what follows. -/
theorem Token.not_prefix (t : Token) {w : Text} (hw : w.all isTokenChar = true)
    (hreserved : ∃ r ∈ reserved, r <:+: w) (hb : ∀ c ∈ b.head?, isTokenChar c = false) :
    ¬ w <+: t.text ++ b := by
  intro hp
  have hb' : ∀ c ∈ b.head?, ¬ isTokenChar c = true := by
    intro c hc
    simp [hb c hc]
  obtain ⟨r, hr, hrw⟩ := hreserved
  have hpre := SubText.prefix_of_kind (p := fun c => isTokenChar c = true)
    (List.all_eq_true.mp hw) hb' hp
  exact t.free r hr (hrw.trans hpre.isInfix)

theorem head_showPort (port : Option ℤ) (hb : ∀ c ∈ b.head?, isTokenChar c = false) :
    ∀ c ∈ (showPort port ++ b).head?, isTokenChar c = false := by
  cases port with
  | none => exact hb
  | some z =>
    intro c hc
    cases hc
    decide

theorem head_pathText (segments : List Token) (hb : ∀ c ∈ b.head?, isTokenChar c = false) :
    ∀ c ∈ (pathText segments ++ b).head?, isTokenChar c = false := by
  cases segments with
  | nil => exact hb
  | cons t segments =>
    intro c hc
    cases hc
    decide

theorem mem_pathText {segments : List Token} (hc : c ∈ pathText segments) :
    c = '/' ∨ isTokenChar c = true := by
  obtain ⟨t, ht, hmem⟩ := List.mem_flatMap.mp hc
  rcases List.mem_cons.mp hmem with rfl | hmem
  · exact Or.inl rfl
  · exact Or.inr (t.chars c hmem)

theorem not_mem_showInt {z : ℤ} (hminus : c ≠ '-') (hdigit : c.isDigit = false) :
    c ∉ TextStream.showInt z := by
  have hnat : c ∉ TextStream.showNat z.natAbs := by
    intro hc
    rw [TextStream.isDigit_of_mem_showNat hc] at hdigit
    cases hdigit
  rw [TextStream.showInt]
  split
  · rw [List.mem_cons, not_or]
    exact ⟨hminus, hnat⟩
  · exact hnat

theorem not_mem_showPort {port : Option ℤ} (hcolon : c ≠ ':') (hminus : c ≠ '-')
    (hdigit : c.isDigit = false) : c ∉ showPort port := by
  cases port with
  | none => exact List.not_mem_nil
  | some z =>
    rw [showPort, List.mem_cons, not_or]
    exact ⟨hcolon, not_mem_showInt hminus hdigit⟩

end Tokens

/-! ## What does not occur in front of the query -/

section Front

variable {host : Token} {port : Option ℤ} {segments : List Token} {b : Text}

/-- Up to the path: the schema, the host and the port, and the parts of the path. -/
def frontText (host : Token) (port : Option ℤ) (segments : List Token) : Text :=
  HttpUri.rtmpHead ++ (host.text ++ (showPort port ++ pathText segments))

theorem free_definst_pathText (hb : ∀ c ∈ b.head?, isTokenChar c = false) :
    Free definst (pathText segments) b := by
  induction segments with
  | nil => trivial
  | cons t segments ih =>
    show Free definst ('/' :: t.text ++ pathText segments) b
    rw [free_append]
    refine ⟨⟨?_, ?_⟩, ih⟩
    · intro hp
      have hword := (List.cons_prefix_cons.mp hp).2
      refine t.not_prefix (by decide) ⟨definstWord, by decide, List.infix_refl _⟩
        (head_pathText segments hb) hword
    · exact free_of_head (t.not_mem (by decide))

/-- `/_definst_` does not begin in front of the query. -/
theorem free_definst (hb : ∀ c ∈ b.head?, isTokenChar c = false) :
    Free definst (frontText host port segments) b := by
  have hport : ∀ c ∈ (showPort port ++ (pathText segments ++ b)).head?, isTokenChar c = false :=
    head_showPort port (head_pathText segments hb)
  rw [frontText, free_append, free_append, free_append]
  refine ⟨?_, free_of_head (host.not_mem (by decide)),
    free_of_head (not_mem_showPort (by decide) (by decide) (by decide)),
    free_definst_pathText hb⟩
  have hslashes : HttpUri.rtmpHead = ['r', 't', 'm', 'p', ':'] ++ ['/', '/'] := rfl
  rw [hslashes, free_append]
  refine ⟨free_of_head (by decide), ?_, ?_, trivial⟩
  · intro hp
    have hword := (List.cons_prefix_cons.mp hp).2
    cases (List.cons_prefix_cons.mp hword).1
  · intro hp
    have hword := (List.cons_prefix_cons.mp hp).2
    rw [List.append_assoc, List.append_assoc, List.nil_append] at hword
    exact host.not_prefix (by decide) ⟨definstWord, by decide, List.infix_refl _⟩ hport hword

theorem free_defaultHost_pathText : Free defaultHost (pathText segments) b := by
  apply free_of_head
  intro hc
  rcases mem_pathText hc with h | h
  · cases h
  · cases h

/-- `://__defaultVhost__` does not begin in front of the query. -/
theorem free_defaultHost (hne : segments ≠ []) :
    Free defaultHost (frontText host port segments) b := by
  have hpath : ∀ c ∈ (pathText segments ++ b).head?, isTokenChar c = false := by
    cases segments with
    | nil => exact absurd rfl hne
    | cons t segments =>
      intro c hc
      cases hc
      decide
  have hport : ∀ c ∈ (showPort port ++ (pathText segments ++ b)).head?, isTokenChar c = false :=
    head_showPort port hpath
  rw [frontText, free_append, free_append, free_append]
  refine ⟨?_, free_of_head (host.not_mem (by decide)), ?_, free_defaultHost_pathText⟩
  · have hslashes : HttpUri.rtmpHead = ['r', 't', 'm', 'p'] ++ ([':'] ++ ['/', '/']) := rfl
    rw [hslashes, free_append, free_append]
    refine ⟨free_of_head (by decide), ⟨?_, trivial⟩, free_of_head (by decide)⟩
    intro hp
    have hfirst := (List.cons_prefix_cons.mp hp).2
    have hsecond := (List.cons_prefix_cons.mp hfirst).2
    have hword := (List.cons_prefix_cons.mp hsecond).2
    rw [List.append_assoc, List.append_assoc] at hword
    exact host.not_prefix (by decide) ⟨defaultVhost, by decide, List.infix_refl _⟩ hport hword
  · cases port with
    | none => trivial
    | some z =>
      refine ⟨?_, free_of_head (not_mem_showInt (by decide) (by decide))⟩
      intro hp
      have hslash := (List.cons_prefix_cons.mp hp).2
      cases hshow : TextStream.showInt z with
      | nil => exact absurd hshow (TextStream.isWord_showInt z).1
      | cons d ds =>
        rw [hshow] at hslash
        have hd : '/' = d := (List.cons_prefix_cons.mp hslash).1
        have hmem : '/' ∈ TextStream.showInt z := by
          rw [hshow, hd]
          exact List.mem_cons_self
        exact not_mem_showInt (by decide) (by decide) hmem

theorem free_dotted_pathText (hb : ∀ c ∈ b.head?, isTokenChar c = false) :
    Free dotted (pathText segments) b := by
  induction segments with
  | nil => trivial
  | cons t segments ih =>
    show Free dotted (['/'] ++ (t.text ++ pathText segments)) b
    rw [free_append, free_append]
    refine ⟨free_of_head (by decide), ?_, ih⟩
    exact t.free_of_reserved (by decide) ⟨dottedWord, by decide, by decide⟩
      (head_pathText segments hb)

theorem free_dotted_head (hb : ∀ c ∈ (pathText segments ++ b).head?, isTokenChar c = false)
    (hpath : Free dotted (pathText segments) b) :
    Free dotted (frontText host port segments) b := by
  rw [frontText, free_append, free_append, free_append]
  refine ⟨free_of_head (by decide), ?_,
    free_of_head (not_mem_showPort (by decide) (by decide) (by decide)), hpath⟩
  apply host.free_of_reserved (by decide) ⟨dottedWord, by decide, by decide⟩
  rw [List.append_assoc]
  exact head_showPort port hb

/-- `...vhost...` does not begin in front of the query. -/
theorem free_dotted (hb : ∀ c ∈ b.head?, isTokenChar c = false) :
    Free dotted (frontText host port segments) b :=
  free_dotted_head (head_pathText segments hb) (free_dotted_pathText hb)

/-- In front of `...vhost...` no part of a text begins another `...vhost...`. -/
theorem dottedWord_prefix {w b : Text} (hne : w ≠ []) (h : dotted <+: w ++ (dotted ++ b)) :
    dottedWord <+: w := by
  have hw : w <+: w ++ (dotted ++ b) := List.prefix_append w _
  have hword : dottedWord <+: dotted := List.prefix_append _ _
  by_cases hlong : 8 ≤ w.length
  · exact List.prefix_of_prefix_length_le (hword.trans h) hw hlong
  · exfalso
    -- the letters of `vhost` would stand where the next word has its dots
    have hlength : dotted.length = 11 := rfl
    obtain ⟨v, hv⟩ := List.prefix_of_prefix_length_le hw h (by omega)
    have hdrop : dotted.drop w.length = v := by
      rw [← hv]
      exact List.drop_left
    have hvb : v <+: dotted ++ b := by
      have hwv : w ++ v <+: w ++ (dotted ++ b) := by
        rw [hv]
        exact h
      exact (List.prefix_append_right_inj w).mp hwv
    have hvdotted : v <+: dotted := by
      apply List.prefix_of_prefix_length_le hvb (List.prefix_append dotted b)
      rw [← hdrop, List.length_drop]
      omega
    have hall : ∀ k < 8, 0 < k → ¬ dotted.drop k <+: dotted := by decide
    rw [← hdrop] at hvdotted
    exact hall w.length (by omega) (List.length_pos_iff.mpr hne) hvdotted

theorem Token.free_dotted_dotted (t : Token) (b : Text) : Free dotted t.text (dotted ++ b) := by
  have hsuffix : ∀ s : Text, s <:+ t.text → Free dotted s (dotted ++ b) := by
    intro s
    induction s with
    | nil => exact fun _ => trivial
    | cons c s ih =>
      intro hs
      refine ⟨?_, ih ((List.suffix_cons c s).trans hs)⟩
      intro hp
      apply t.free dottedWord (by decide)
      have hword := dottedWord_prefix (List.cons_ne_nil c s) hp
      exact hword.isInfix.trans hs.isInfix
  exact hsuffix t.text (List.suffix_refl _)

theorem free_dotted_pathText_dotted (segments : List Token) (b : Text) :
    Free dotted (pathText segments) (dotted ++ b) := by
  induction segments with
  | nil => trivial
  | cons t segments ih =>
    show Free dotted (['/'] ++ (t.text ++ pathText segments)) (dotted ++ b)
    rw [free_append, free_append]
    refine ⟨free_of_head (by decide), ?_, ih⟩
    cases segments with
    | nil => exact t.free_dotted_dotted b
    | cons t' segments =>
      apply t.free_of_reserved (by decide) ⟨dottedWord, by decide, by decide⟩
      intro c hc
      cases hc
      decide

end Front

/-! ## The URL that is parsed -/

section StandardUrl

variable {host : Token} {port : Option ℤ} {segments : List Token} {tail : Text}

theorem not_isQueryMark_front {c : Char} (hc : c ∈ frontText host port segments) :
    isQueryMark c = false := by
  have hne : ∀ b, b = '?' ∨ b = '#' → b ∉ frontText host port segments := by
    intro b hb hmem
    have htoken : isTokenChar b = false := by rcases hb with rfl | rfl <;> decide
    have hslash : b ≠ '/' := by rcases hb with rfl | rfl <;> decide
    rw [frontText] at hmem
    rcases List.mem_append.mp hmem with hmem | hmem
    · rcases hb with rfl | rfl <;> exact absurd hmem (by decide)
    · rcases List.mem_append.mp hmem with hmem | hmem
      · exact host.not_mem htoken hmem
      · rcases List.mem_append.mp hmem with hmem | hmem
        · revert hmem
          rcases hb with rfl | rfl <;>
            exact not_mem_showPort (by decide) (by decide) (by decide)
        · rcases mem_pathText hmem with h | h
          · exact hslash h
          · rw [htoken] at h
            cases h
  by_contra hmark
  rw [Bool.not_eq_false, isQueryMark, Bool.or_eq_true, decide_eq_true_eq, decide_eq_true_eq]
    at hmark
  exact hne c hmark hc

/-- The query begins where the front ends. -/
theorem moveQuery_front (htail : ∀ c ∈ tail.head?, isQueryMark c = true) :
    moveQuery (frontText host port segments ++ tail) =
      match splitLast '/' tail with
      | none => frontText host port segments ++ tail
      | some (query, stream) => frontText host port segments ++ ('/' :: stream ++ query) := by
  have hspan := TextStream.span_append (p := fun c => ! isQueryMark c)
    (w := frontText host port segments) (s := tail)
    (fun c hc => by rw [not_isQueryMark_front hc]; rfl)
    (fun c hc => by rw [htail c hc]; rfl)
  cases hsplit : splitLast '/' tail with
  | none => simp only [moveQuery, hspan.1, hspan.2, hsplit]
  | some split => simp only [moveQuery, hspan.1, hspan.2, hsplit]

theorem replace_definst_front (hb : ∀ c ∈ tail.head?, isTokenChar c = false) :
    replace definst [] (frontText host port segments ++ tail) =
      frontText host port segments ++ replace definst [] tail :=
  replace_append (free_definst hb)

theorem standardUrl_eq {tcUrl stream : Text} (hne : stream ≠ [])
    (hslash : stream.head? ≠ some '/') :
    standardUrl tcUrl stream [] =
      replace definst [] (moveQuery (replace dotted asQuery tcUrl ++ '/' :: stream)) := by
  unfold standardUrl
  dsimp only
  rw [if_neg hne, if_neg hslash, if_pos rfl, List.append_nil]
  by_cases hdefinst : definst <:+: moveQuery (replace dotted asQuery tcUrl ++ '/' :: stream)
  · rw [if_pos hdefinst]
  · rw [if_neg hdefinst, replace_eq_self hdefinst]

theorem Token.head_append (t : Token) (b : Text) : (t.text ++ b).head? ≠ some '/' := by
  cases htext : t.text with
  | nil => exact absurd htext t.ne_nil
  | cons c w =>
    intro hc
    rw [List.cons_append, List.head?_cons, Option.some.injEq] at hc
    apply t.not_mem (c := '/') (by decide)
    rw [htext, hc]
    exact List.mem_cons_self

theorem pathText_append (segments : List Token) (t : Token) :
    pathText (segments ++ [t]) = pathText segments ++ '/' :: t.text := by
  simp [pathText]

theorem frontText_append (host : Token) (port : Option ℤ) (segments : List Token) (t : Token)
    (tail : Text) :
    frontText host port (segments ++ [t]) ++ tail =
      frontText host port segments ++ '/' :: (t.text ++ tail) := by
  simp [frontText, pathText_append]

/-- The stream and its query behind a URL that has no query. -/
theorem standardUrl_of_front {t : Token} (htail : ∀ c ∈ tail.head?, isQueryMark c = true) :
    standardUrl (frontText host port segments) (t.text ++ tail) [] =
      frontText host port (segments ++ [t]) ++
        replace definst [] (match splitLast '/' tail with
          | none => tail
          | some (query, stream) => '/' :: stream ++ query) := by
  have hne : t.text ++ tail ≠ [] := by
    intro heq
    exact t.ne_nil (List.append_eq_nil_iff.mp heq).1
  have hsame : replace dotted asQuery (frontText host port segments) =
      frontText host port segments := by
    have hfree : Free dotted (frontText host port segments) [] := free_dotted nofun
    have heq : replace dotted asQuery (frontText host port segments ++ []) =
        frontText host port segments ++ replace dotted asQuery [] := replace_append hfree
    rw [List.append_nil] at heq
    rw [heq]
    exact List.append_nil _
  rw [standardUrl_eq hne (t.head_append tail), hsame, ← frontText_append, moveQuery_front htail]
  cases hsplit : splitLast '/' tail with
  | none =>
    apply replace_definst_front
    intro c hc
    have hmark := htail c hc
    rw [isQueryMark, Bool.or_eq_true, decide_eq_true_eq, decide_eq_true_eq] at hmark
    rcases hmark with rfl | rfl <;> decide
  | some split =>
    apply replace_definst_front
    intro c hc
    cases hc
    decide

/-- A vhost between the app and the stream. -/
theorem standardUrl_of_vhost {tcUrl : Text} {vhost t : Token}
    (htcUrl : replace dotted asQuery tcUrl =
      frontText host port segments ++ (asQuery ++ vhost.text)) :
    standardUrl tcUrl t.text [] =
      frontText host port (segments ++ [t]) ++ (asQuery ++ vhost.text) := by
  have hslash : '/' ∉ asQuery ++ vhost.text := by
    rw [List.mem_append, not_or]
    exact ⟨by decide, vhost.not_mem (by decide)⟩
  have hsplit := splitLast_append (asQuery ++ vhost.text) (t.not_mem (c := '/') (by decide))
  have hhead := t.head_append []
  rw [List.append_nil] at hhead
  rw [standardUrl_eq t.ne_nil hhead, htcUrl, List.append_assoc,
    moveQuery_front (by simp [asQuery, isQueryMark]), hsplit]
  dsimp only
  rw [List.cons_append, ← frontText_append, replace_definst_front (by simp [asQuery, isTokenChar])]
  rw [replace_eq_self]
  intro hi
  exact hslash (hi.subset List.mem_cons_self)

end StandardUrl

/-! ## What is found -/

section Discovery

variable {host : Token} {port : Option ℤ} {t : Target} {tail : Text}

/-- The vhost in a query, as `srs_parse_query_string` reads it. -/
def namedVhost (query : Text) : Text :=
  let values := HttpUri.srsParseQueryString (HttpUri.queryStr query)
  let vhost := (values.get? "vhost".toList).getD []
  if vhost = [] then (values.get? "domain".toList).getD [] else vhost

/-- What stands behind the stream in a URL leaves the path as it is, can be parsed, and names the
vhost, or no vhost if the host is the vhost. -/
structure TailPlain (host vhost tail : Text) : Prop where
  path : IsRest (replace defaultHost safeHost tail)
  clean : ∀ c ∈ replace defaultHost safeHost tail, isRestChar c = true
  vhost : chooseVhost (namedVhost (queryOf (replace defaultHost safeHost tail))) []
    (if defaultHost <:+: tail then defaultVhost else host) = vhost

theorem parsingUrl_eq (url : Text) : parsingUrl url = replace defaultHost safeHost url := by
  unfold parsingUrl
  by_cases h : defaultHost <:+: url
  · rw [if_pos h]
  · rw [if_neg h, replace_eq_self h]

theorem defaultHost_infix_iff {segments : List Token} (hne : segments ≠ []) :
    defaultHost <:+: frontText host port segments ++ tail ↔ defaultHost <:+: tail := by
  constructor
  · exact SubText.infix_of_free (free_defaultHost hne)
  · exact fun h => h.trans (List.suffix_append _ tail).isInfix

/-- The path up to the stream. -/
def Target.pathText (t : Target) : Text := t.appText ++ '/' :: t.stream.text

def Target.segments (t : Target) : List Token := t.app :: t.more ++ [t.stream]

theorem frontText_eq (host : Token) (port : Option ℤ) (t : Target) (rest : Text) :
    frontText host port t.segments ++ rest =
      urlText (host.text ++ showPort port) t.pathText rest := by
  simp [frontText, urlText, Target.segments, Target.pathText, Target.appText, pathText]

theorem isUrlChar_of_mem_pathText {c : Char} (hc : c ∈ t.pathText) : isUrlChar c = true := by
  have hmem : c ∈ StreamUrl.pathText t.segments := by
    have heq : StreamUrl.pathText t.segments = '/' :: t.pathText := by
      simp [Target.segments, Target.pathText, Target.appText, StreamUrl.pathText]
    rw [heq]
    exact List.mem_cons_of_mem _ hc
  rcases mem_pathText hmem with rfl | h
  · decide
  · exact isUrlChar_of_isTokenChar h

theorem Target.appText_ne_nil (t : Target) : t.appText ≠ [] := by
  intro heq
  exact t.app.ne_nil (List.append_eq_nil_iff.mp heq).1

theorem appOf_of_splitLast {path dirname basename : Text}
    (h : splitLast '/' path = some ('/' :: dirname, basename)) (hne : dirname ≠ []) :
    appOf path = dirname := by
  unfold appOf srsPathDirname
  rw [h]
  dsimp only
  rw [if_neg (List.cons_ne_nil _ _), List.head?_cons, if_pos rfl, List.tail_cons, if_neg hne]

theorem srsPathBasename_of_splitLast {path dirname basename : Text}
    (h : splitLast '/' path = some ('/' :: dirname, basename)) :
    srsPathBasename path = basename := by
  unfold srsPathBasename
  rw [h]
  dsimp only
  rw [if_neg]
  intro hlen
  rw [(SubText.eq_of_splitLast h).1, List.length_append, List.length_cons, List.length_cons] at hlen
  omega

/-- The app and the stream are those of the path only if the path ends there. -/
theorem path_found_iff (t : Target) (more : Text) :
    appOf ('/' :: (t.pathText ++ more)) = t.appText ∧
      srsPathBasename ('/' :: (t.pathText ++ more)) = t.stream.text ↔ more = [] := by
  have hpath : '/' :: (t.pathText ++ more) =
      '/' :: t.appText ++ '/' :: (t.stream.text ++ more) := by
    simp [Target.pathText]
  rw [hpath]
  have hstream : '/' ∉ t.stream.text := t.stream.not_mem (by decide)
  cases hsplit : splitLast '/' more with
  | none =>
    have hmore := (SubText.splitLast_eq_none_iff '/' more).mp hsplit
    have hboth : '/' ∉ t.stream.text ++ more := by
      rw [List.mem_append, not_or]
      exact ⟨hstream, hmore⟩
    have hlast := splitLast_append ('/' :: t.appText) hboth
    rw [appOf_of_splitLast hlast t.appText_ne_nil, srsPathBasename_of_splitLast hlast]
    simp
  | some split =>
    obtain ⟨hmore, hbase⟩ := SubText.eq_of_splitLast (a := split.1) (b := split.2) hsplit
    have hlong : '/' :: t.appText ++ '/' :: (t.stream.text ++ more) =
        '/' :: (t.appText ++ '/' :: (t.stream.text ++ split.1)) ++ '/' :: split.2 := by
      rw [hmore]
      simp
    have hlast := splitLast_append
      ('/' :: (t.appText ++ '/' :: (t.stream.text ++ split.1))) hbase
    rw [hlong, appOf_of_splitLast hlast (by simp [t.appText_ne_nil])]
    constructor
    · rintro ⟨happ, _⟩
      have hlength := congrArg List.length happ
      rw [List.length_append, List.length_cons] at hlength
      omega
    · intro hnil
      rw [hnil] at hsplit
      cases hsplit

/-- The vhost, the app and the stream of a target. -/
def Found (t : Target) (r : TcUrl) : Prop :=
  r.vhost = t.vhost.text ∧ r.app = t.appText ∧ r.stream = t.stream.text

variable {tcUrl stream : Text}

theorem not_found_of_none (h : srsHttpUriInitialize (standardUrl tcUrl stream []) = none) :
    ¬ Found t (srsDiscoveryTcUrl tcUrl (fresh stream)) := by
  have hsame : srsDiscoveryTcUrl tcUrl (fresh stream) = fresh stream := by
    unfold srsDiscoveryTcUrl
    rw [show standardUrl tcUrl (fresh stream).stream (fresh stream).param =
      standardUrl tcUrl stream [] from rfl, h]
  rintro ⟨hvhost, _, _⟩
  rw [hsame] at hvhost
  exact t.vhost.ne_nil hvhost.symm

theorem found_iff_of_uri {rest : Text} {uri : SrsHttpUri}
    (h : srsHttpUriInitialize (standardUrl tcUrl stream []) = some uri)
    (hvalues : uri.queryValues = HttpUri.srsParseQueryString (HttpUri.queryStr (queryOf rest)))
    {more : Text} (hpath : uri.path = '/' :: (t.pathText ++ more)) :
    Found t (srsDiscoveryTcUrl tcUrl (fresh stream)) ↔
      more = [] ∧ chooseVhost (namedVhost (queryOf rest)) [] uri.host = t.vhost.text := by
  have hnamed : vhostInQuery uri = namedVhost (queryOf rest) := by
    unfold vhostInQuery namedVhost SrsHttpUri.getQueryByKey
    rw [hvalues]
  have hfields : Found t (srsDiscoveryTcUrl tcUrl (fresh stream)) ↔
      chooseVhost (vhostInQuery uri) [] uri.host = t.vhost.text ∧
        appOf uri.path = t.appText ∧ srsPathBasename uri.path = t.stream.text := by
    unfold srsDiscoveryTcUrl
    rw [show standardUrl tcUrl (fresh stream).stream (fresh stream).param =
      standardUrl tcUrl stream [] from rfl, h]
    exact Iff.rfl
  rw [hfields, hnamed, hpath, path_found_iff, and_comm]

/-- What stands behind the path, with what it adds to the path in front. -/
theorem urlText_more (authority path more rest : Text) :
    urlText authority path (more ++ rest) = urlText authority (path ++ more) rest := by
  simp [urlText]

theorem isRest_iff (behind : Text) : IsRest behind ↔ behind.takeWhile (! isQueryMark ·) = [] := by
  cases behind with
  | nil => simp [IsRest]
  | cons c s =>
    rw [List.takeWhile_cons]
    cases hc : isQueryMark c with
    | true =>
      rw [isQueryMark, Bool.or_eq_true, decide_eq_true_eq, decide_eq_true_eq] at hc
      simp [IsRest, hc]
    | false =>
      rw [isQueryMark, Bool.or_eq_false_iff, decide_eq_false_iff_not, decide_eq_false_iff_not] at hc
      simp [IsRest, hc]

/-- When the target is found in a URL that is parsed. -/
theorem found_iff (hstd : standardUrl tcUrl stream [] = frontText host port t.segments ++ tail)
    (hlen : (parsingUrl (standardUrl tcUrl stream [])).length < 2 ^ 16) :
    Found t (srsDiscoveryTcUrl tcUrl (fresh stream)) ↔
      '_' ∉ host.text ∧ PortOk port ∧ TailPlain host.text t.vhost.text tail := by
  have hhostChars : ∀ c ∈ host.text, isHostChar c = true ∨ c = '_' :=
    fun c hc => isHostChar_of_isTokenChar (host.chars c hc)
  have hparsing : parsingUrl (standardUrl tcUrl stream []) =
      urlText (host.text ++ showPort port) t.pathText (replace defaultHost safeHost tail) := by
    have hfree : Free defaultHost (frontText host port t.segments) tail :=
      free_defaultHost (List.cons_ne_nil _ _)
    rw [parsingUrl_eq, hstd, replace_append hfree, frontText_eq]
  have hdefault : defaultHost <:+: standardUrl tcUrl stream [] ↔ defaultHost <:+: tail := by
    rw [hstd]
    exact defaultHost_infix_iff (List.cons_ne_nil _ _)
  by_cases hclean : ∀ c ∈ replace defaultHost safeHost tail, isRestChar c = true
  · -- what the text behind the stream adds to the path, and the rest
    have hsplit : (replace defaultHost safeHost tail).takeWhile (! isQueryMark ·) ++
        (replace defaultHost safeHost tail).dropWhile (! isQueryMark ·) =
        replace defaultHost safeHost tail := List.takeWhile_append_dropWhile
    have hisRest := isRest_iff (replace defaultHost safeHost tail)
    have hrest : IsRest ((replace defaultHost safeHost tail).dropWhile (! isQueryMark ·)) := by
      intro c hc
      have hnot := List.head?_dropWhile_not (! isQueryMark ·) (replace defaultHost safeHost tail)
      rw [Option.mem_def.mp hc] at hnot
      have hmark : isQueryMark c = true := by simpa using hnot
      rw [isQueryMark, Bool.or_eq_true, decide_eq_true_eq, decide_eq_true_eq] at hmark
      exact hmark
    have hmore : ∀ c ∈ t.pathText ++
        (replace defaultHost safeHost tail).takeWhile (! isQueryMark ·), isUrlChar c = true := by
      intro c hc
      rcases List.mem_append.mp hc with hc | hc
      · exact isUrlChar_of_mem_pathText hc
      · have hchar := hclean c ((List.takeWhile_prefix _).subset hc)
        have hmark := List.mem_takeWhile_imp hc
        simp only [isQueryMark, Bool.not_eq_true', Bool.or_eq_false_iff,
          decide_eq_false_iff_not] at hmark
        simpa [isRestChar, hmark] using hchar
    have hcleanRest : ∀ c ∈ (replace defaultHost safeHost tail).dropWhile (! isQueryMark ·),
        isRestChar c = true := fun c hc => hclean c ((List.dropWhile_suffix _).subset hc)
    have hparsing' := hparsing
    rw [← hsplit, urlText_more] at hparsing'
    by_cases hgood : '_' ∉ host.text ∧ PortOk port
    · have hhost : ∀ c ∈ host.text, isHostChar c = true := by
        intro c hc
        rcases hhostChars c hc with h | rfl
        · exact h
        · exact absurd hc hgood.1
      obtain ⟨uri, huri, hhostUri, hpathUri, hvalues⟩ := HttpUri.srsHttpUriInitialize_of_clean
        hparsing' hhost host.ne_nil hgood.2 hmore hrest hcleanRest hlen
      rw [found_iff_of_uri huri hvalues hpathUri, hhostUri]
      simp only [hdefault]
      constructor
      · rintro ⟨hnil, hvhost⟩
        rw [hnil, List.nil_append] at hsplit
        rw [hsplit] at hvhost
        exact ⟨hgood.1, hgood.2, hisRest.mpr hnil, hclean, hvhost⟩
      · rintro ⟨_, _, hplain⟩
        have hnil := hisRest.mp hplain.path
        rw [hnil, List.nil_append] at hsplit
        rw [hsplit]
        exact ⟨hnil, hplain.vhost⟩
    · have hbad : '_' ∈ host.text ∨ ¬ PortOk port := by
        by_contra hnot
        rw [not_or, not_not] at hnot
        exact hgood hnot
      have hnone :
          HttpUri.httpParserParseUrl (parsingUrl (standardUrl tcUrl stream [])) = none := by
        rw [hparsing']
        rw [hparsing'] at hlen
        apply HttpUri.httpParserParseUrl_eq_none hhostChars host.ne_nil hmore hrest hlen
        rcases hbad with h | h
        · exact Or.inl h
        · exact Or.inr (Or.inl h)
      apply iff_of_false (not_found_of_none (HttpUri.srsHttpUriInitialize_eq_none hnone))
      rintro ⟨h, hport, _⟩
      exact hgood ⟨h, hport⟩
  · apply iff_of_false
    · simp only [not_forall] at hclean
      obtain ⟨c, hc, hbad⟩ := hclean
      apply not_found_of_none
      apply HttpUri.srsHttpUriInitialize_eq_none
      apply HttpUri.httpParserParseUrl_of_unclean
      rw [hparsing]
      exact ⟨c, by simp [urlText, hc], Bool.eq_false_iff.mpr hbad⟩
    · rintro ⟨_, _, hplain⟩
      exact hclean hplain.clean

end Discovery

end SrsChatRoom.Protocol.StreamUrl
