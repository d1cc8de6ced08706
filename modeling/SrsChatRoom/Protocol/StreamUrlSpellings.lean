import SrsChatRoom.Protocol.StreamUrlRules

/-!
# The spellings of a stream URL

Each spelling is the URL of a target up to its query. The four that are written by hand find the
target when the host has no underscore; for a generated URL the query counts as well.

* `Form.Plain` - when the target is found;
* `agrees_iff` - it is found just then, in a URL of at most 65535 bytes;
* `generated_plain` - a query of keys and values, which leaves a generated URL as it should be.
-/

namespace SrsChatRoom.Protocol.StreamUrl

open HttpUri (rtmpHead defaultVhost defaultHost safeHost parsingUrl PortOk showPort IsRest
  isRestChar isUrlChar queryOf)
open SubText (Free replace splitLast)

/-- What stands behind the stream in a generated URL when it is parsed: a slash in the query makes
its end the end of the path, and each `/_definst_` is gone. -/
def generatedTail (host vhost param : Text) : Text :=
  let query := streamQuery host vhost param true
  replace definst [] (match splitLast '/' query with
    | none => '?' :: query
    | some (front, last) => '/' :: last ++ '?' :: front)

/-- When the target is found. -/
def Form.Plain (t : Target) : Form → Prop
  | vhostAsHost => '_' ∉ t.vhost.text
  | inTcUrl host => '_' ∉ host.text
  | inDots host => '_' ∉ host.text
  | inStream host => '_' ∉ host.text
  | generated server port host param =>
    '_' ∉ server.text ∧ PortOk (some port) ∧
      TailPlain server.text t.vhost.text (generatedTail host t.vhost.text param)

/-- The URL that is parsed. -/
def Form.parsed (t : Target) (f : Form) : Text :=
  parsingUrl (standardUrl (f.spell t).1 (f.spell t).2 [])

section Written

variable {host : Token} {t : Target}

theorem rtmp_eq (host : Token) (t : Target) :
    rtmpHead ++ host.text ++ '/' :: t.appText = frontText host none (t.app :: t.more) := by
  simp [frontText, showPort, Target.appText, pathText]

/-- No query: the vhost is the host. -/
theorem tailPlain_nil (host : Text) : TailPlain host host [] := by
  have hnot : ¬ defaultHost <:+: ([] : Text) := by decide
  refine ⟨nofun, nofun, ?_⟩
  rw [if_neg hnot]
  rfl

theorem chooseVhost_token (vhost : Token) (host : Text) :
    chooseVhost vhost.text [] host = vhost.text := by
  have hboth : vhost.text ≠ [] ∧ vhost.text ≠ defaultVhost :=
    ⟨vhost.ne_nil, vhost.ne_defaultVhost⟩
  unfold chooseVhost
  rw [if_pos hboth]
  exact if_neg vhost.ne_nil

end Written

/-! ## Keys and values -/

section Pairs

/-- Keys and values, with `&` between them. -/
def queryText : List (Text × Text) → Text
  | [] => []
  | [kv] => kv.1 ++ '=' :: kv.2
  | kv :: kv' :: kvs => kv.1 ++ '=' :: (kv.2 ++ '&' :: queryText (kv' :: kvs))

/-- A character of a URL that is no slash and does not end a key or a value. -/
def isPairChar (c : Char) : Bool :=
  isUrlChar c && c ≠ '=' && c ≠ ',' && c ≠ '&' && c ≠ ';' && c ≠ '/'

/-- A key that is not empty, and its value. -/
structure PairPlain (kv : Text × Text) : Prop where
  ne_nil : kv.1 ≠ []
  key : ∀ c ∈ kv.1, isPairChar c = true
  value : ∀ c ∈ kv.2, isPairChar c = true

theorem solid_of_pairChar {w : Text} (h : ∀ c ∈ w, isPairChar c = true) :
    SubText.Solid HttpUri.flags w := by
  have hnot : ∀ c, isPairChar c = false → c ∉ w := by
    intro c hc hmem
    rw [h c hmem] at hc
    cases hc
  intro sep hsep
  have hmem : sep = ['='] ∨ sep = [','] ∨ sep = ['&', '&'] ∨ sep = ['&'] ∨ sep = [';'] := by
    simpa [HttpUri.flags] using hsep
  rcases hmem with rfl | rfl | rfl | rfl | rfl
  all_goals exact ⟨_, _, rfl, hnot _ (by decide)⟩

theorem isPairChar_of_isTokenChar {c : Char} (h : isTokenChar c = true) : isPairChar c = true := by
  have hurl := isUrlChar_of_isTokenChar h
  have hne : ∀ b, isTokenChar b = false → c ≠ b := fun b hb => HttpUri.ne_of_kind h hb
  simp [isPairChar, hurl, hne '=' (by decide), hne ',' (by decide), hne '&' (by decide),
    hne ';' (by decide), hne '/' (by decide)]

theorem pairPlain_vhost (vhost : Token) : PairPlain ("vhost".toList, vhost.text) where
  ne_nil := show "vhost".toList ≠ [] by decide
  key := List.all_eq_true.mp (show "vhost".toList.all isPairChar = true by decide)
  value := fun c hc => isPairChar_of_isTokenChar (vhost.chars c hc)

variable {kvs : List (Text × Text)}

theorem queryText_cons (kv : Text × Text) (hne : kvs ≠ []) :
    queryText (kv :: kvs) = kv.1 ++ '=' :: (kv.2 ++ '&' :: queryText kvs) := by
  cases kvs with
  | nil => exact absurd rfl hne
  | cons kv' kvs => rfl

theorem queryText_append (hne : kvs ≠ []) (kv : Text × Text) :
    queryText (kvs ++ [kv]) = queryText kvs ++ '&' :: (kv.1 ++ '=' :: kv.2) := by
  induction kvs with
  | nil => exact absurd rfl hne
  | cons kv' kvs ih =>
    by_cases hnil : kvs = []
    · rw [hnil]
      simp [queryText]
    · rw [List.cons_append, queryText_cons kv' (by simp), ih hnil, queryText_cons kv' hnil]
      simp

theorem queryText_ne_nil (hne : kvs ≠ []) : queryText kvs ≠ [] := by
  cases kvs with
  | nil => exact absurd rfl hne
  | cons kv kvs => cases kvs <;> simp [queryText]

/-- A query of pairs does not begin with `&`. -/
theorem head_queryText (h : ∀ kv ∈ kvs, PairPlain kv) : (queryText kvs).head? ≠ some '&' := by
  intro hhead
  cases kvs with
  | nil => cases hhead
  | cons kv kvs =>
    have hplain := h kv List.mem_cons_self
    cases hkey : kv.1 with
    | nil => exact hplain.ne_nil hkey
    | cons c w =>
      have hfirst : (queryText (kv :: kvs)).head? = some c := by
        cases kvs <;> simp [queryText, hkey]
      rw [hfirst, Option.some.injEq] at hhead
      have hchar := hplain.key c (by rw [hkey]; exact List.mem_cons_self)
      rw [hhead] at hchar
      cases hchar

/-- `srs_parse_query_string` finds the keys and the values, each in its place. -/
theorem splitBy_queryText (h : ∀ kv ∈ kvs, PairPlain kv) (hlast : ∀ kv ∈ kvs.getLast?, kv.2 ≠ []) :
    SubText.splitBy HttpUri.flags (queryText kvs) = kvs.flatMap fun kv => [kv.1, kv.2] := by
  induction kvs with
  | nil => rfl
  | cons kv kvs ih =>
    have hplain := h kv List.mem_cons_self
    have hequals : ∀ b : Text, HttpUri.flags.find? (· <+: '=' :: ([] ++ b)) = some ['='] := by
      intro b
      rw [HttpUri.flags, List.find?_cons_of_pos]
      exact decide_eq_true (List.prefix_append ['='] b)
    by_cases hnil : kvs = []
    · rw [hnil]
      show SubText.splitBy HttpUri.flags (kv.1 ++ (['='] ++ kv.2)) = _
      rw [SubText.splitBy_append (solid_of_pairChar hplain.key) (hequals kv.2),
        SubText.splitBy_self (solid_of_pairChar hplain.value)
          (hlast kv (by rw [hnil]; rfl))]
      rfl
    · have hand : HttpUri.flags.find? (· <+: '&' :: ([] ++ queryText kvs)) = some ['&'] := by
        have hhead := head_queryText fun kv' hkv' => h kv' (List.mem_cons_of_mem kv hkv')
        cases hq : queryText kvs with
        | nil => decide
        | cons c w =>
          have hc : c ≠ '&' := by
            intro heq
            rw [hq, heq] at hhead
            exact hhead rfl
          simp [HttpUri.flags, List.cons_prefix_cons, Ne.symm hc]
      rw [queryText_cons kv hnil]
      show SubText.splitBy HttpUri.flags
        (kv.1 ++ (['='] ++ (kv.2 ++ (['&'] ++ queryText kvs)))) = _
      rw [SubText.splitBy_append (solid_of_pairChar hplain.key) (hequals _),
        SubText.splitBy_append (solid_of_pairChar hplain.value) hand,
        ih (fun kv' hkv' => h kv' (List.mem_cons_of_mem kv hkv')) ?_]
      · rfl
      · intro kv' hkv'
        apply hlast kv'
        rw [List.getLast?_cons_of_ne_nil hnil]
        exact hkv'

/-- The last value of a key is the one that counts. -/
theorem getD_srsParseQueryString (h : ∀ kv ∈ kvs, PairPlain kv) {kv : Text × Text}
    (hkv : PairPlain kv) (hvalue : kv.2 ≠ []) :
    (HttpUri.srsParseQueryString (queryText (kvs ++ [kv]))).get? kv.1 = some kv.2 := by
  unfold HttpUri.srsParseQueryString
  rw [splitBy_queryText, HttpUri.pairs_flatMap, List.foldl_append]
  · exact Dict.get?_set_self _ _ _
  · intro kv' hkv'
    rcases List.mem_append.mp hkv' with hmem | hmem
    · exact h kv' hmem
    · rw [List.mem_singleton.mp hmem]
      exact hkv
  · intro kv' hkv'
    rw [List.getLast?_append_of_ne_nil _ (List.cons_ne_nil kv [])] at hkv'
    cases hkv'
    exact hvalue

theorem not_mem_queryText {c : Char} (h : ∀ kv ∈ kvs, PairPlain kv)
    (hc : isPairChar c = false) (hequals : c ≠ '=') (hand : c ≠ '&') : c ∉ queryText kvs := by
  induction kvs with
  | nil => exact List.not_mem_nil
  | cons kv kvs ih =>
    have hplain := h kv List.mem_cons_self
    have hkey : c ∉ kv.1 := fun hmem => by
      rw [hplain.key c hmem] at hc
      cases hc
    have hvalue : c ∉ kv.2 := fun hmem => by
      rw [hplain.value c hmem] at hc
      cases hc
    by_cases hnil : kvs = []
    · rw [hnil]
      simp [queryText, hkey, hvalue, hequals]
    · have hrest := ih fun kv' hkv' => h kv' (List.mem_cons_of_mem kv hkv')
      rw [queryText_cons kv hnil]
      simp [hkey, hvalue, hequals, hand, hrest]

theorem isRestChar_of_mem_queryText {c : Char} (h : ∀ kv ∈ kvs, PairPlain kv)
    (hc : c ∈ queryText kvs) : isRestChar c = true := by
  by_cases hpair : isPairChar c = true
  · simp only [isPairChar, Bool.and_eq_true] at hpair
    simp [isRestChar, hpair.1.1.1.1.1]
  · by_contra hrest
    apply not_mem_queryText h (Bool.eq_false_iff.mpr hpair) _ _ hc
    · rintro rfl
      exact hrest (by decide)
    · rintro rfl
      exact hrest (by decide)

/-- A query of pairs names the vhost if its last pair does. -/
theorem tailPlain_pairs (h : ∀ kv ∈ kvs, PairPlain kv) (host : Text) (vhost : Token) :
    TailPlain host vhost.text ('?' :: queryText (kvs ++ [("vhost".toList, vhost.text)])) := by
  have hall : ∀ kv ∈ kvs ++ [("vhost".toList, vhost.text)], PairPlain kv := by
    intro kv hkv
    rcases List.mem_append.mp hkv with hmem | hmem
    · exact h kv hmem
    · rw [List.mem_singleton.mp hmem]
      exact pairPlain_vhost vhost
  have hslash : '/' ∉ '?' :: queryText (kvs ++ [("vhost".toList, vhost.text)]) := by
    rw [List.mem_cons, not_or]
    exact ⟨by decide, not_mem_queryText hall (by decide) (by decide) (by decide)⟩
  have hsame : replace defaultHost safeHost
      ('?' :: queryText (kvs ++ [("vhost".toList, vhost.text)])) =
      '?' :: queryText (kvs ++ [("vhost".toList, vhost.text)]) := by
    apply SubText.replace_eq_self
    intro hi
    exact hslash (hi.subset (List.mem_cons_of_mem _ List.mem_cons_self))
  have hquery : queryOf ('?' :: queryText (kvs ++ [("vhost".toList, vhost.text)])) =
      queryText (kvs ++ [("vhost".toList, vhost.text)]) := by
    rw [queryOf, if_pos rfl, List.takeWhile_eq_self_iff]
    intro c hc
    have hne : c ≠ '#' := by
      rintro rfl
      exact not_mem_queryText hall (by decide) (by decide) (by decide) hc
    simpa using hne
  have hstr : HttpUri.queryStr (queryText (kvs ++ [("vhost".toList, vhost.text)])) =
      queryText (kvs ++ [("vhost".toList, vhost.text)]) := by
    have hdrop : (queryText (kvs ++ [("vhost".toList, vhost.text)])).dropWhile (· ≠ '?') = [] := by
      rw [List.dropWhile_eq_nil_iff]
      intro c hc
      have hne : c ≠ '?' := by
        rintro rfl
        exact not_mem_queryText hall (by decide) (by decide) (by decide) hc
      simpa using hne
    rw [HttpUri.queryStr, hdrop]
  have hnamed : namedVhost (queryText (kvs ++ [("vhost".toList, vhost.text)])) = vhost.text := by
    have hget := getD_srsParseQueryString h (pairPlain_vhost vhost) vhost.ne_nil
    unfold namedVhost
    rw [hstr]
    dsimp only
    rw [hget]
    exact if_neg vhost.ne_nil
  refine ⟨?_, ?_, ?_⟩
  · rw [hsame]
    intro c hc
    cases hc
    exact Or.inl rfl
  · rw [hsame]
    intro c hc
    rcases List.mem_cons.mp hc with rfl | hc
    · decide
    · exact isRestChar_of_mem_queryText hall hc
  · rw [hsame, hquery, hnamed]
    exact chooseVhost_token vhost _

end Pairs

/-! ## Each spelling -/

section Spellings

variable {host : Token} {t : Target}

theorem asQuery_eq (vhost : Token) :
    asQuery ++ vhost.text = '?' :: queryText ([] ++ [("vhost".toList, vhost.text)]) := by
  have hkey : "vhost".toList = ['v', 'h', 'o', 's', 't'] := by decide
  rw [List.nil_append, queryText, hkey]
  rfl

theorem tailPlain_vhost (host : Text) (vhost : Token) :
    TailPlain host vhost.text (asQuery ++ vhost.text) := by
  rw [asQuery_eq]
  exact @tailPlain_pairs [] nofun host vhost

/-- The four spellings that are written by hand have no port, and a plain query. -/
theorem found_iff_underscore {tcUrl stream tail : Text}
    (hstd : standardUrl tcUrl stream [] = frontText host none t.segments ++ tail)
    (hlen : (parsingUrl (standardUrl tcUrl stream [])).length < 2 ^ 16)
    (hplain : TailPlain host.text t.vhost.text tail) :
    Found t (srsDiscoveryTcUrl tcUrl (fresh stream)) ↔ '_' ∉ host.text := by
  rw [found_iff hstd hlen]
  constructor
  · exact fun h => h.1
  · exact fun h => ⟨h, nofun, hplain⟩

theorem standardUrl_inTcUrl (host : Token) (t : Target) :
    standardUrl (frontText host none (t.app :: t.more) ++ asQuery ++ t.vhost.text)
      t.stream.text [] = frontText host none t.segments ++ (asQuery ++ t.vhost.text) := by
  apply standardUrl_of_vhost
  have hquery : Free dotted (asQuery ++ t.vhost.text) [] := by
    rw [SubText.free_append]
    refine ⟨SubText.free_of_head (by decide), ?_⟩
    exact t.vhost.free_of_reserved (by decide) ⟨dottedWord, by decide, by decide⟩ (by simp)
  have hfree :
      Free dotted (frontText host none (t.app :: t.more) ++ (asQuery ++ t.vhost.text)) [] := by
    rw [SubText.free_append]
    refine ⟨free_dotted ?_, hquery⟩
    intro c hc
    cases hc
    decide
  have hsame := @SubText.replace_append _ _ _ asQuery _ _ hfree
  rw [List.append_nil] at hsame
  rw [List.append_assoc, hsame]
  exact List.append_nil _

theorem standardUrl_inDots (host : Token) (t : Target) :
    standardUrl (frontText host none (t.app :: t.more) ++ dotted ++ t.vhost.text)
      t.stream.text [] = frontText host none t.segments ++ (asQuery ++ t.vhost.text) := by
  apply standardUrl_of_vhost
  have hhead : ∀ c ∈ (pathText (t.app :: t.more) ++ (dotted ++ t.vhost.text)).head?,
      isTokenChar c = false := by
    intro c hc
    cases hc
    decide
  have hfront : Free dotted (frontText host none (t.app :: t.more)) (dotted ++ t.vhost.text) :=
    free_dotted_head hhead (free_dotted_pathText_dotted _ _)
  have hvhost : replace dotted asQuery t.vhost.text = t.vhost.text := by
    apply SubText.replace_eq_self
    intro hi
    exact t.vhost.free dottedWord (by decide) ((by decide : dottedWord <:+: dotted).trans hi)
  have hdots : replace dotted asQuery (dotted ++ t.vhost.text) = asQuery ++ t.vhost.text := by
    have hone : replace dotted asQuery (dotted ++ t.vhost.text) =
        asQuery ++ replace dotted asQuery t.vhost.text :=
      SubText.replace_occurrence dotted.tail t.vhost.text
    rw [hone, hvhost]
  rw [List.append_assoc, SubText.replace_append hfront, hdots]

theorem standardUrl_inStream (host : Token) (t : Target) :
    standardUrl (frontText host none (t.app :: t.more)) (t.stream.text ++ (asQuery ++ t.vhost.text))
      [] = frontText host none t.segments ++ (asQuery ++ t.vhost.text) := by
  have hslash : '/' ∉ asQuery ++ t.vhost.text := by
    rw [List.mem_append, not_or]
    exact ⟨by decide, t.vhost.not_mem (by decide)⟩
  have hmark : ∀ c ∈ (asQuery ++ t.vhost.text).head?, isQueryMark c = true := by
    intro c hc
    cases hc
    decide
  rw [standardUrl_of_front hmark, (SubText.splitLast_eq_none_iff '/' _).mpr hslash]
  dsimp only
  rw [SubText.replace_eq_self]
  · rfl
  · intro hi
    exact hslash (hi.subset List.mem_cons_self)

theorem standardUrl_vhostAsHost (t : Target) :
    standardUrl (frontText t.vhost none (t.app :: t.more)) t.stream.text [] =
      frontText t.vhost none t.segments ++ [] := by
  have hmark : ∀ c ∈ ([] : Text).head?, isQueryMark c = true := nofun
  have hstd := @standardUrl_of_front t.vhost none (t.app :: t.more) [] t.stream hmark
  rw [List.append_nil] at hstd
  exact hstd

/-- A generated URL always has a query: it names a vhost. -/
theorem streamQuery_ne_nil (host param : Text) (vhost : Token) :
    streamQuery host vhost.text param true ≠ [] := by
  intro hnil
  unfold streamQuery at hnil
  dsimp only at hnil
  rw [if_pos rfl, List.dropWhile_eq_nil_iff] at hnil
  have hv : 'v' ∈ (if guessVhost host vhost.text param ≠ [] then
      param ++ '&' :: vhostKey ++ guessVhost host vhost.text param else param) := by
    unfold guessVhost
    by_cases hkey : vhostKey <:+: param
    · rw [if_pos hkey, if_neg (by simp)]
      exact hkey.subset List.mem_cons_self
    · rw [if_neg hkey, if_pos vhost.ne_defaultVhost, if_pos vhost.ne_nil]
      simp [vhostKey]
  cases hnil 'v' hv

theorem srsGenerateRtmpUrl_eq (server : Token) (port : ℤ) (host param : Text) (t : Target) :
    srsGenerateRtmpUrl server.text port host t.vhost.text t.appText t.stream.text param =
      frontText server (some port) (t.app :: t.more) ++
        '/' :: (t.stream.text ++ '?' :: streamQuery host t.vhost.text param true) := by
  unfold srsGenerateRtmpUrl srsGenerateStreamWithQuery
  dsimp only
  rw [if_neg (streamQuery_ne_nil host param t.vhost)]
  simp [frontText, showPort, Target.appText, pathText]

/-- The last slash of the path is the one in front of the stream. -/
theorem spell_generated (server : Token) (port : ℤ) (host param : Text) (t : Target) :
    (Form.generated server port host param).spell t =
      (frontText server (some port) (t.app :: t.more),
        t.stream.text ++ '?' :: streamQuery host t.vhost.text param true) := by
  have hurl := srsGenerateRtmpUrl_eq server port host param t
  have hfront : ∀ c ∈ frontText server (some port) (t.app :: t.more) ++ '/' :: t.stream.text,
      decide (c ≠ '?') = true := by
    intro c hc
    have hne : c ≠ '?' := by
      rintro rfl
      rcases List.mem_append.mp hc with hc | hc
      · cases not_isQueryMark_front hc
      · rcases List.mem_cons.mp hc with hc | hc
        · cases hc
        · exact t.stream.not_mem (by decide) hc
    exact decide_eq_true hne
  have hspan := TextStream.span_append (s := '?' :: streamQuery host t.vhost.text param true)
    hfront (by simp)
  have hassoc : frontText server (some port) (t.app :: t.more) ++ '/' :: t.stream.text ++
      '?' :: streamQuery host t.vhost.text param true =
      frontText server (some port) (t.app :: t.more) ++
        '/' :: (t.stream.text ++ '?' :: streamQuery host t.vhost.text param true) := by
    simp
  rw [hassoc] at hspan
  show splitAtPath _ = _
  unfold splitAtPath
  rw [hurl, hspan.1, hspan.2, SubText.splitLast_append _ (t.stream.not_mem (by decide))]

theorem standardUrl_generated (server : Token) (port : ℤ) (host param : Text) (t : Target) :
    standardUrl (frontText server (some port) (t.app :: t.more))
      (t.stream.text ++ '?' :: streamQuery host t.vhost.text param true) [] =
      frontText server (some port) t.segments ++ generatedTail host t.vhost.text param := by
  have hmark : ∀ c ∈ ('?' :: streamQuery host t.vhost.text param true).head?,
      isQueryMark c = true := by
    intro c hc
    cases hc
    decide
  rw [standardUrl_of_front hmark]
  unfold generatedTail
  dsimp only
  rw [SubText.splitLast]
  cases splitLast '/' (streamQuery host t.vhost.text param true) with
  | none => rfl
  | some split => rfl

/-- The parameters of a stream: keys and values behind a question mark. -/
def paramText (kvs : List (Text × Text)) : Text := if kvs = [] then [] else '?' :: queryText kvs

variable {kvs : List (Text × Text)}

theorem streamQuery_pairs (h : ∀ kv ∈ kvs, PairPlain kv)
    (hkey : ¬ vhostKey <:+: queryText kvs) (host : Text) (vhost : Token) :
    streamQuery host vhost.text (paramText kvs) true =
      queryText (kvs ++ [("vhost".toList, vhost.text)]) := by
  have hvhost : "vhost".toList = ['v', 'h', 'o', 's', 't'] := by decide
  have hguess : guessVhost host vhost.text (paramText kvs) = vhost.text := by
    have hparam : ¬ vhostKey <:+: paramText kvs := by
      unfold paramText
      split
      · decide
      · rw [List.infix_cons_iff, not_or]
        refine ⟨?_, hkey⟩
        intro hp
        cases (List.cons_prefix_cons.mp hp).1
    unfold guessVhost
    rw [if_neg hparam, if_pos vhost.ne_defaultVhost]
  unfold streamQuery
  rw [hguess]
  dsimp only
  rw [if_pos vhost.ne_nil, if_pos rfl, hvhost]
  by_cases hnil : kvs = []
  · rw [hnil]
    rfl
  · have hamp := head_queryText h
    have hquestion : '?' ∉ queryText kvs :=
      not_mem_queryText h (by decide) (by decide) (by decide)
    rw [queryText_append hnil, paramText, if_neg hnil]
    cases hq : queryText kvs with
    | nil => exact absurd hq (queryText_ne_nil hnil)
    | cons c w =>
      rw [hq] at hamp hquestion
      have hcamp : c ≠ '&' := by
        rintro rfl
        exact hamp rfl
      have hcquestion : c ≠ '?' := by
        rintro rfl
        exact hquestion List.mem_cons_self
      simp [vhostKey, hcamp, hcquestion]

/-- Keys and values of characters of URLs without slashes and separators, none of which ends like
the key of a vhost, leave the generated URL as it should be. -/
theorem generated_plain (h : ∀ kv ∈ kvs, PairPlain kv)
    (hkey : ¬ vhostKey <:+: queryText kvs) (server host : Text) (vhost : Token) :
    TailPlain server vhost.text (generatedTail host vhost.text (paramText kvs)) := by
  have hall : ∀ kv ∈ kvs ++ [("vhost".toList, vhost.text)], PairPlain kv := by
    intro kv hkv
    rcases List.mem_append.mp hkv with hmem | hmem
    · exact h kv hmem
    · rw [List.mem_singleton.mp hmem]
      exact pairPlain_vhost vhost
  have hslash : '/' ∉ queryText (kvs ++ [("vhost".toList, vhost.text)]) :=
    not_mem_queryText hall (by decide) (by decide) (by decide)
  have htail : generatedTail host vhost.text (paramText kvs) =
      '?' :: queryText (kvs ++ [("vhost".toList, vhost.text)]) := by
    unfold generatedTail
    rw [streamQuery_pairs h hkey]
    dsimp only
    rw [(SubText.splitLast_eq_none_iff '/' _).mpr hslash]
    dsimp only
    rw [SubText.replace_eq_self]
    intro hi
    rcases List.mem_cons.mp (hi.subset List.mem_cons_self) with heq | hmem
    · cases heq
    · exact hslash hmem
  rw [htail]
  exact tailPlain_pairs h server vhost

/-- A vhost, an app, a stream and a server. -/
def liveTarget : Target where
  vhost := ⟨"v.net".toList, by decide, List.all_eq_true.mp (by decide), by decide⟩
  app := ⟨"app".toList, by decide, List.all_eq_true.mp (by decide), by decide⟩
  more := []
  stream := ⟨"live".toList, by decide, List.all_eq_true.mp (by decide), by decide⟩

def edgeServer : Token :=
  ⟨"10.0.0.1".toList, by decide, List.all_eq_true.mp (by decide), by decide⟩

end Spellings

end SrsChatRoom.Protocol.StreamUrl
