import SrsChatRoom.Protocol.HttpUri

/-!
# The parts of an `rtmp://` URL

What `http_parser_parse_url` makes of `rtmp://`, a host and perhaps a port, a path, and what stands
behind the path.

* `scan_url` - the fields that the first automaton finds;
* `httpParseHost_authority` - the host and the port that the second one finds;
* `httpParserParseUrl_of_clean`, `httpParserParseUrl_eq_none` - both together;
* `srsHttpUriInitialize_of_clean`, `srsHttpUriInitialize_eq_none` - what is kept.
-/

namespace SrsChatRoom.Protocol.HttpUri

open FieldScan (Machine Scan Span Mark)
open TextStream (isDigit_of_mem_showNat showInt showNat Text)
open Function (update update_of_ne update_self)
open List (append_assoc length_append length_cons mem_cons_of_mem mem_cons_self)

/-- Nothing, a query or a fragment. -/
def IsRest (rest : Text) : Prop := ∀ c ∈ rest.head?, c = '?' ∨ c = '#'

/-- The query in what stands behind the path. -/
def queryOf : Text → Text
  | [] => []
  | c :: x => if c = '?' then x.takeWhile (· ≠ '#') else []

/-- `rtmp://`, a host with a port, a path and the rest. -/
def urlText (authority path rest : Text) : Text :=
  rtmpHead ++ (authority ++ ('/' :: path ++ rest))

theorem urlText_eq (authority path rest : Text) :
    urlText authority path rest = rtmpHead ++ authority ++ '/' :: path ++ rest := by
  unfold urlText
  rw [← append_assoc, ← append_assoc]

theorem urlText_ne_nil (authority path rest : Text) : urlText authority path rest ≠ [] :=
  List.cons_ne_nil _ _

theorem length_front (authority path : Text) :
    (rtmpHead ++ authority ++ '/' :: path).length =
      7 + authority.length + path.length + 1 := by
  rw [length_append, length_append, length_cons]
  rfl

/-! ## The first automaton -/

section Url

/-- `http_parser_parse_url` in front of the URL. -/
def urlStart : Scan (UrlState × Bool) UrlField :=
  ⟨(.spacesBeforeUrl, false), none, fun _ => none⟩

theorem step_path {c : Char} (h : isUrlChar c = true) :
    urlMachine.step (.path, false) c = (.path, false) := by
  show (parseUrlChar .path c, _) = _
  rw [parseUrlChar_path h]
  rfl

theorem step_server {c : Char} (h : isUserinfoChar c = true) :
    urlMachine.step (.server, false) c = (.server, false) := by
  show (parseUrlChar .server c, _) = _
  rw [parseUrlChar_server h]
  rfl

theorem step_serverStart {c : Char} (h : isUserinfoChar c = true) :
    urlMachine.step (.serverStart, false) c = (.server, false) := by
  show (parseUrlChar .serverStart c, _) = _
  rw [parseUrlChar_serverStart h]
  rfl

theorem step_query {c : Char} (h : isRestChar c = true) (hc : c ≠ '#') :
    urlMachine.step (.queryString, false) c = (.queryString, false) ∧
      urlMachine.step (.queryStringStart, false) c = (.queryString, false) := by
  have hquery := parseUrlChar_query h hc
  constructor
  · show (parseUrlChar .queryString c, _) = _
    rw [hquery.1]
    rfl
  · show (parseUrlChar .queryStringStart c, _) = _
    rw [hquery.2]
    rfl

/-- The schema and what stands behind it. -/
theorem scan_schema :
    urlMachine.scan 0 urlStart rtmpHead =
      some ⟨(.serverStart, false), some .schema,
        update (fun _ => none) .schema (some ⟨0, 4⟩)⟩ := by
  have hfield : urlMachine.scan 0 urlStart ['r', 't', 'm', 'p'] =
      some ⟨(.schema, false), some .schema,
        update (fun _ => none) .schema (some ⟨0, 4⟩)⟩ := by
    have hletters := List.all_eq_true.mp (by decide : ['t', 'm', 'p'].all Char.isAlpha = true)
    apply Machine.scan_field
    · rfl
    · intro b hb
      show (parseUrlChar .schema b, _) = _
      rw [parseUrlChar_schema (hletters b hb)]
      rfl
    · rfl
    · decide
    · decide
    · decide
  show urlMachine.scan 0 urlStart (['r', 't', 'm', 'p'] ++ [':', '/', '/']) = _
  rw [Machine.scan_append_of _ hfield]
  rfl

variable {authority : Text}

theorem scan_authority (h : ∀ c ∈ authority, isUserinfoChar c = true) (hne : authority ≠ [])
    (hlen : authority.length < 2 ^ 16) :
    urlMachine.scan 0 urlStart (rtmpHead ++ authority) =
      some ⟨(.server, false), some .host,
        update (update (fun _ => none) .schema (some ⟨0, 4⟩)) .host
          (some ⟨7, authority.length⟩)⟩ := by
  rw [Machine.scan_append_of _ scan_schema]
  cases authority with
  | nil => exact absurd rfl hne
  | cons c w =>
    apply Machine.scan_field
    · exact step_serverStart (h c mem_cons_self)
    · exact fun b hb => step_server (h b (mem_cons_of_mem c hb))
    · rfl
    · intro heq
      cases heq
    · decide
    · exact hlen

/-- The fields of the schema, the host and the path. -/
def frontFields (authority path : Text) : UrlField → Option Span :=
  Function.update
    (Function.update (Function.update (fun _ => none) .schema (some ⟨0, 4⟩)) .host
      (some ⟨7, authority.length⟩))
    .path (some ⟨7 + authority.length, path.length + 1⟩)

theorem scan_front (h : ∀ c ∈ authority, isUserinfoChar c = true) (hne : authority ≠ [])
    {path : Text} (hpath : ∀ c ∈ path, isUrlChar c = true)
    (hlen : 7 + authority.length + path.length + 1 < 2 ^ 16) :
    urlMachine.scan 0 urlStart (rtmpHead ++ authority ++ '/' :: path) =
      some ⟨(.path, false), some .path, frontFields authority path⟩ := by
  rw [Machine.scan_append_of _ (scan_authority h hne (by omega))]
  have hpos : 0 + (rtmpHead ++ authority).length = 7 + authority.length := by
    rw [length_append, Nat.zero_add]
    rfl
  rw [hpos]
  apply Machine.scan_field
  · rfl
  · exact fun b hb => step_path (hpath b hb)
  · rfl
  · intro heq
    cases heq
  · omega
  · omega

variable {c : Scan (UrlState × Bool) UrlField} {rest : Text}

/-- A fragment, or nothing, leaves the other fields as they are. -/
theorem scan_fragment (pos : ℕ)
    (hstate : urlMachine.step c.state '#' = (.fragmentStart, false)) (hat : c.state.2 = false)
    (hrest : ∀ b ∈ rest.head?, b = '#') (hclean : ∀ b ∈ rest, isRestChar b = true) :
    ∃ c', urlMachine.scan pos c rest = some c' ∧ c'.state.2 = false ∧
      ∀ f, f ≠ .fragment → c'.span f = c.span f := by
  cases rest with
  | nil => exact ⟨c, rfl, hat, fun _ _ => rfl⟩
  | cons b x =>
    obtain rfl : b = '#' := hrest b rfl
    rw [Machine.scan_skip pos x hstate rfl]
    obtain ⟨c', hscan, hP, hspan⟩ := Machine.scan_keeps (m := urlMachine)
      (P := fun s => s.2 = false ∧ (s.1 = .fragmentStart ∨ s.1 = .fragment))
      (F := fun f => f ≠ .fragment) (c := { c with state := (.fragmentStart, false) }) (w := x)
      (pos + 1)
      (by
        rintro ⟨s, found⟩ ⟨hfound, hs⟩ b hb
        dsimp only at hfound hs
        have hstep := parseUrlChar_fragment (hclean b (mem_cons_of_mem _ hb))
        have hnext : parseUrlChar s b = .fragmentStart ∨ parseUrlChar s b = .fragment := by
          rcases hs with rfl | rfl
          · exact hstep.2.symm
          · exact Or.inr hstep.1
        have hnot : parseUrlChar s b ≠ .serverWithAt := by
          rcases hnext with h | h <;> rw [h] <;> decide
        exact ⟨by simp [urlMachine, hfound, hnot], hnext⟩)
      ⟨rfl, Or.inl rfl⟩
      (by
        rintro ⟨s, found⟩ ⟨_, hs⟩
        dsimp only at hs
        rcases hs with rfl | rfl
        · exact ⟨fun h => (nomatch h), fun f _ h => (nomatch h)⟩
        · refine ⟨fun h => (nomatch h), fun f hf => ?_⟩
          show Mark.field UrlField.fragment ≠ Mark.field f
          rw [Ne, Mark.field.injEq]
          exact hf.symm)
    exact ⟨c', hscan, hP.1, fun f hf => by rw [hspan f hf]⟩

/-- What stands behind the path is the query and the fragment. -/
theorem scan_rest {pos : ℕ} (hstate : c.state = (.path, false)) (hlast : c.last = some .path)
    (hquery : c.span .query = none) (hrest : IsRest rest)
    (hclean : ∀ b ∈ rest, isRestChar b = true) (hlen : pos + rest.length < 2 ^ 16) :
    ∃ c', urlMachine.scan pos c rest = some c' ∧ c'.state.2 = false ∧
      (∀ f, f ≠ .query → f ≠ .fragment → c'.span f = c.span f) ∧
      c'.span .query =
        if queryOf rest = [] then none else some ⟨pos + 1, (queryOf rest).length⟩ := by
  cases rest with
  | nil => exact ⟨c, rfl, by rw [hstate], fun _ _ _ => rfl, hquery⟩
  | cons b x =>
    have hfragment : ∀ s, parseUrlChar s '#' = .fragmentStart →
        urlMachine.step (s, false) '#' = (.fragmentStart, false) := by
      intro s hs
      show (parseUrlChar s '#', _) = _
      rw [hs]
      rfl
    rcases hrest b rfl with rfl | rfl
    · -- a query, up to a fragment
      have hsplit : x.takeWhile (· ≠ '#') ++ x.dropWhile (· ≠ '#') = x :=
        List.takeWhile_append_dropWhile
      have htail : ∀ b ∈ (x.dropWhile (· ≠ '#')).head?, b = '#' := by
        intro b hb
        have hnot := List.head?_dropWhile_not (· ≠ '#') x
        rw [Option.mem_def.mp hb] at hnot
        simpa using hnot
      have htailClean : ∀ b ∈ x.dropWhile (· ≠ '#'), isRestChar b = true := fun b hb =>
        hclean b (mem_cons_of_mem _ ((List.dropWhile_suffix _).subset hb))
      have hskip : urlMachine.scan pos c ('?' :: x) =
          urlMachine.scan (pos + 1) { c with state := (.queryStringStart, false) } x :=
        Machine.scan_skip pos x (by rw [hstate]; rfl) rfl
      rw [hskip]
      rw [length_cons] at hlen
      cases hq : x.takeWhile (· ≠ '#') with
      | nil =>
        rw [hq, List.nil_append] at hsplit
        rw [hsplit] at htail
        obtain ⟨c', hscan, hat, hspan⟩ := scan_fragment
          (c := { c with state := (.queryStringStart, false) }) (pos + 1)
          (hfragment .queryStringStart rfl) rfl htail
          (fun b hb => hclean b (mem_cons_of_mem _ hb))
        refine ⟨c', hscan, hat, fun f _ hf => hspan f hf, ?_⟩
        have hqueryOf : queryOf ('?' :: x) = [] := by
          rw [queryOf, if_pos rfl, hq]
        rw [hspan .query (by decide), hqueryOf, if_pos rfl]
        exact hquery
      | cons a w =>
        have hquerychar : ∀ b ∈ a :: w, isRestChar b = true ∧ b ≠ '#' := by
          intro b hb
          rw [← hq] at hb
          refine ⟨hclean b (mem_cons_of_mem _ ((List.takeWhile_prefix _).subset hb)), ?_⟩
          have hp := List.mem_takeWhile_imp hb
          simpa using hp
        have hsub : (a :: w).length ≤ x.length := by
          rw [← hq]
          exact (List.takeWhile_prefix _).length_le
        rw [length_cons] at hsub
        have hfield : urlMachine.scan (pos + 1)
            { c with state := (.queryStringStart, false) } (a :: w) =
            some ⟨(.queryString, false), some .query,
              update c.span .query (some ⟨pos + 1, w.length + 1⟩)⟩ := by
          apply Machine.scan_field
          · have ha := hquerychar a mem_cons_self
            exact (step_query ha.1 ha.2).2
          · intro b hb
            have hb' := hquerychar b (mem_cons_of_mem a hb)
            exact (step_query hb'.1 hb'.2).1
          · rfl
          · show c.last ≠ _
            rw [hlast]
            decide
          · omega
          · omega
        rw [← hsplit, hq, Machine.scan_append_of _ hfield]
        obtain ⟨c', hscan, hat, hspan⟩ := scan_fragment
          (c := ⟨(.queryString, false), some .query,
            update c.span .query (some ⟨pos + 1, w.length + 1⟩)⟩)
          (pos + 1 + (a :: w).length) (hfragment .queryString rfl) rfl htail htailClean
        refine ⟨c', hscan, hat, fun f hne hf => ?_, ?_⟩
        · rw [hspan f hf]
          exact update_of_ne hne _ _
        · have hqueryOf : queryOf ('?' :: (a :: w ++ x.dropWhile (· ≠ '#'))) = a :: w := by
            rw [← hq, hsplit, queryOf, if_pos rfl]
          rw [hspan .query (by decide), hqueryOf, if_neg (List.cons_ne_nil a w)]
          exact update_self UrlField.query _ c.span
    · -- a fragment
      obtain ⟨c', hscan, hat, hspan⟩ := scan_fragment (c := c) pos
        (by rw [hstate]; rfl) (by rw [hstate]) (by simp) hclean
      refine ⟨c', hscan, hat, fun f _ hf => hspan f hf, ?_⟩
      rw [hspan .query (by decide), hquery]
      rfl

/-- The fields of a URL. -/
theorem scan_url (h : ∀ c ∈ authority, isUserinfoChar c = true) (hne : authority ≠ [])
    {path : Text} (hpath : ∀ c ∈ path, isUrlChar c = true) (hrest : IsRest rest)
    (hclean : ∀ b ∈ rest, isRestChar b = true)
    (hlen : (urlText authority path rest).length < 2 ^ 16) :
    ∃ c, urlMachine.scan 0 urlStart (urlText authority path rest) = some c ∧
      c.state.2 = false ∧
      (∀ f, f ≠ .query → f ≠ .fragment → c.span f = frontFields authority path f) ∧
      c.span .query =
        if queryOf rest = [] then none
        else some ⟨7 + authority.length + path.length + 1 + 1, (queryOf rest).length⟩ := by
  rw [urlText_eq, length_append, length_front] at hlen
  have hscan := scan_front h hne hpath (by omega)
  rw [urlText_eq, Machine.scan_append_of rest hscan, length_front, Nat.zero_add]
  exact scan_rest rfl rfl rfl hrest hclean hlen

/-- A character that no part of a URL may have. -/
theorem scan_url_eq_none {url : Text} (h : ∃ c ∈ url, isRestChar c = false) :
    urlMachine.scan 0 urlStart url = none := by
  obtain ⟨c, hc, hbad⟩ := h
  apply Machine.scan_eq_none (P := fun _ => True) 0 _ trivial _ hc
  · exact fun s _ b _ => Or.inr trivial
  · intro s _
    show urlMark (parseUrlChar s.1 c) = _
    rw [parseUrlChar_eq_dead hbad]
    rfl

end Url

/-! ## The second automaton -/

section Host

/-- A port behind a host. -/
def showPort : Option ℤ → Text
  | none => []
  | some z => ':' :: TextStream.showInt z

/-- There is no port, or it has 16 bits. -/
def PortOk (port : Option ℤ) : Prop := ∀ z ∈ port, 0 ≤ z ∧ z ≤ 0xffff

instance (port : Option ℤ) : Decidable (PortOk port) := by
  unfold PortOk
  infer_instance

theorem not_portOk {port : Option ℤ} (h : ¬ PortOk port) :
    ∃ z, port = some z ∧ (z < 0 ∨ 0xffff < z) := by
  unfold PortOk at h
  simp only [not_forall] at h
  obtain ⟨z, hz, hrange⟩ := h
  exact ⟨z, hz, by omega⟩

theorem portValue_eq {v : ℕ} (hv : v ≤ 0xffff) (s : Text) :
    portValue v s =
      if Nat.ofDigitChars 10 s v ≤ 0xffff then some (Nat.ofDigitChars 10 s v) else none := by
  induction s generalizing v with
  | nil => rw [portValue, Nat.ofDigitChars_nil, if_pos hv]
  | cons c s ih =>
    rw [portValue, Nat.ofDigitChars_cons, Nat.mul_comm 10 v]
    by_cases hbig : v * 10 + (c.toNat - '0'.toNat) > 0xffff
    · have hge : v * 10 + (c.toNat - '0'.toNat) ≤
          Nat.ofDigitChars 10 s (v * 10 + (c.toNat - '0'.toNat)) := by
        rw [Nat.ofDigitChars_eq_ofDigitChars_zero]
        have hpow : 0 < 10 ^ s.length := Nat.pow_pos (by decide)
        calc v * 10 + (c.toNat - '0'.toNat)
            ≤ 10 ^ s.length * (v * 10 + (c.toNat - '0'.toNat)) := Nat.le_mul_of_pos_left _ hpow
          _ ≤ _ := Nat.le_add_right _ _
      rw [if_pos hbig, if_neg (by omega)]
    · rw [if_neg hbig]
      exact ih (by omega)

theorem portValue_showNat (n : ℕ) :
    portValue 0 (showNat n) = if n ≤ 0xffff then some n else none := by
  have hvalue : Nat.ofDigitChars 10 (showNat n) 0 = n := Nat.ofDigitChars_ten_toDigits
  rw [portValue_eq (by decide), hvalue]

variable {h : Text} {fieldData : UrlField → Option Span}

theorem scan_host (hh : ∀ c ∈ h, isHostChar c = true) (hne : h ≠ []) {pos : ℕ}
    (hlen : pos + h.length < 2 ^ 16) :
    hostMachine.scan pos ⟨.hostStart, none, fieldData⟩ h =
      some ⟨.host, some .host, update fieldData .host (some ⟨pos, h.length⟩)⟩ := by
  cases h with
  | nil => exact absurd rfl hne
  | cons c w =>
    rw [length_cons] at hlen
    have hhost : ∀ b ∈ c :: w, httpParseHostChar .host b = .host := by
      intro b hb
      rw [httpParseHostChar]
      exact if_pos (hh b hb)
    apply Machine.scan_field
    · have hbracket : c ≠ '[' := ne_of_kind (hh c mem_cons_self) (by decide)
      show httpParseHostChar .hostStart c = .host
      rw [httpParseHostChar, if_neg hbracket, if_pos (hh c mem_cons_self)]
    · exact fun b hb => hhost b (mem_cons_of_mem c hb)
    · rfl
    · intro heq
      cases heq
    · omega
    · omega

theorem scan_port {digits : Text} (hdigits : ∀ c ∈ digits, c.isDigit = true) (hne : digits ≠ [])
    {pos : ℕ} (hlen : pos + 1 + digits.length < 2 ^ 16) :
    hostMachine.scan pos ⟨.host, some .host, fieldData⟩ (':' :: digits) =
      some ⟨.port, some .port,
        update fieldData .port (some ⟨pos + 1, digits.length⟩)⟩ := by
  cases digits with
  | nil => exact absurd rfl hne
  | cons c w =>
    rw [length_cons] at hlen
    rw [Machine.scan_skip (s := .portStart) pos _ rfl rfl]
    have hstep : ∀ b ∈ c :: w, httpParseHostChar .port b = .port := by
      intro b hb
      rw [httpParseHostChar]
      exact if_pos (hdigits b hb)
    apply Machine.scan_field
    · exact hstep c mem_cons_self
    · exact fun b hb => hstep b (mem_cons_of_mem c hb)
    · rfl
    · intro heq
      cases heq
    · omega
    · omega

/-- `http_parse_host` takes no underscore, though `parse_url_char` does. -/
theorem underscore_in_host (hh : ∀ c ∈ h, isHostChar c = true ∨ c = '_') (hbad : '_' ∈ h)
    (pos : ℕ) : hostMachine.scan pos ⟨.hostStart, none, fieldData⟩ h = none := by
  apply Machine.scan_eq_none (P := fun s => s = .hostStart ∨ s = .host) pos _ (Or.inl rfl) _ hbad
  · intro s hs b hb
    rcases hh b hb with hhost | rfl
    · right
      right
      have hbracket : b ≠ '[' := ne_of_kind hhost (by decide)
      rcases hs with rfl | rfl
      · show httpParseHostChar .hostStart b = .host
        simp [httpParseHostChar, hbracket, hhost]
      · show httpParseHostChar .host b = .host
        simp [httpParseHostChar, hhost]
    · left
      rcases hs with rfl | rfl <;> decide
  · rintro s (rfl | rfl) <;> decide

theorem showInt_of_nonneg {z : ℤ} (hz : 0 ≤ z) :
    showInt z = showNat z.toNat := by
  have habs : z.natAbs = z.toNat := by omega
  rw [showInt, if_neg (by omega), habs]

theorem isDigit_of_mem_port {z : ℤ} (hz : 0 ≤ z) {c : Char} (hc : c ∈ showInt z) :
    c.isDigit = true := by
  rw [showInt, if_neg (by omega)] at hc
  exact isDigit_of_mem_showNat hc

/-- A port that is negative is no number for `http_parse_host`. -/
theorem scan_negative {z : ℤ} (hz : z < 0) (pos : ℕ) :
    hostMachine.scan pos ⟨.host, some .host, fieldData⟩ (':' :: showInt z) = none := by
  rw [showInt, if_pos hz, Machine.scan_skip (s := .portStart) pos _ rfl rfl]
  rfl

end Host

/-! ## Both together -/

section Parse

variable {h path rest : Text} {port : Option ℤ}

theorem slice_authority (authority path rest : Text) :
    Span.slice ⟨7, authority.length⟩ (urlText authority path rest) = authority :=
  FieldScan.slice_append rtmpHead authority ('/' :: path ++ rest)

theorem slice_path (authority path rest : Text) :
    Span.slice ⟨7 + authority.length, path.length + 1⟩ (urlText authority path rest) =
      '/' :: path := by
  have hslice := FieldScan.slice_append (rtmpHead ++ authority) ('/' :: path) rest
  rw [length_append, length_cons, append_assoc] at hslice
  exact hslice

theorem slice_port (h : Text) (z : ℤ) (path rest : Text) :
    Span.slice ⟨7 + h.length + 1, (showInt z).length⟩
      (urlText (h ++ ':' :: showInt z) path rest) = showInt z := by
  have hslice := FieldScan.slice_append (rtmpHead ++ h ++ [':']) (showInt z)
    ('/' :: path ++ rest)
  have hurl : urlText (h ++ ':' :: showInt z) path rest =
      rtmpHead ++ h ++ [':'] ++ (showInt z ++ ('/' :: path ++ rest)) := by
    unfold urlText
    rw [append_assoc, append_assoc, append_assoc]
    rfl
  rw [← hurl, length_append, length_append] at hslice
  exact hslice

theorem portFits_port {z : ℤ} (hz : 0 ≤ z) (h path rest : Text)
    (span : UrlField → Option Span) :
    portFits (urlText (h ++ ':' :: showInt z) path rest)
      (update span .port
        (some ⟨7 + h.length + 1, (showInt z).length⟩)) = decide (z ≤ 0xffff) := by
  rw [portFits, update_self]
  dsimp only
  rw [slice_port, showInt_of_nonneg hz, portValue_showNat]
  by_cases hbig : z ≤ 0xffff
  · have hnat : z.toNat ≤ 0xffff := by omega
    rw [if_pos hnat, decide_eq_true hbig]
    rfl
  · have hnat : ¬ z.toNat ≤ 0xffff := by omega
    rw [if_neg hnat, decide_eq_false hbig]
    rfl

/-- The query begins behind the question mark. -/
theorem slice_query (authority path rest : Text) :
    Span.slice ⟨7 + authority.length + path.length + 1 + 1, (queryOf rest).length⟩
      (urlText authority path rest) = queryOf rest := by
  cases rest with
  | nil => rw [queryOf, List.length_nil, Span.slice, List.take_zero]
  | cons c x =>
    by_cases hc : c = '?'
    · have hslice := FieldScan.slice_append
        (rtmpHead ++ authority ++ '/' :: path ++ [c])
        (x.takeWhile (· ≠ '#')) (x.dropWhile (· ≠ '#'))
      rw [List.takeWhile_append_dropWhile, length_append, length_front, append_assoc]
        at hslice
      rw [urlText_eq, queryOf, if_pos hc]
      exact hslice
    · rw [queryOf, if_neg hc, List.length_nil, Span.slice, List.take_zero]

theorem isUserinfoChar_of_authority (hh : ∀ c ∈ h, isHostChar c = true ∨ c = '_')
    (port : Option ℤ) : ∀ c ∈ h ++ showPort port, isUserinfoChar c = true := by
  intro c hc
  rcases List.mem_append.mp hc with hc | hc
  · rcases hh c hc with hhost | rfl
    · exact isUserinfoChar_of_isHostChar hhost
    · decide
  · cases port with
    | none => cases hc
    | some z =>
      rcases List.mem_cons.mp hc with rfl | hc
      · decide
      · have hdigit : c.isDigit = true ∨ c = '-' := by
          rw [showInt] at hc
          split at hc
          · rcases List.mem_cons.mp hc with rfl | hc
            · exact Or.inr rfl
            · exact Or.inl (isDigit_of_mem_showNat hc)
          · exact Or.inl (isDigit_of_mem_showNat hc)
        rcases hdigit with hdigit | rfl
        · have halnum : c.isAlphanum = true := by rw [Char.isAlphanum, hdigit, Bool.or_true]
          simp [isUserinfoChar, halnum]
        · decide

variable {url : Text}

theorem httpParserParseUrl_of_scan {c : Scan (UrlState × Bool) UrlField}
    {host : Span} (hne : url ≠ []) (hscan : urlMachine.scan 0 urlStart url = some c)
    (hhost : c.span .host = some host) :
    httpParserParseUrl url =
      (httpParseHost url c.span host c.state.2).bind fun fieldData =>
        if portFits url fieldData then some fieldData else none := by
  unfold urlStart at hscan
  simp only [httpParserParseUrl, if_neg hne, hscan, hhost]
  cases httpParseHost url c.span host c.state.2 with
  | none => rfl
  | some fieldData => rfl

theorem httpParserParseUrl_of_unclean (h : ∃ c ∈ url, isRestChar c = false) :
    httpParserParseUrl url = none := by
  have hnone := scan_url_eq_none h
  unfold urlStart at hnone
  rw [httpParserParseUrl, hnone]
  split <;> rfl

variable {span : UrlField → Option Span}

theorem httpParseHost_of_slice {authority : Text}
    (hslice : Span.slice ⟨7, authority.length⟩ url = authority) :
    httpParseHost url span ⟨7, authority.length⟩ false =
      (hostMachine.scan 7 ⟨.hostStart, none, span⟩ authority).bind fun c =>
        if c.state.isEnd then some c.span else none := by
  have hstart : (if false = true then HostState.userinfoStart else HostState.hostStart) =
      HostState.hostStart := rfl
  simp only [httpParseHost, hslice, hstart]
  cases hostMachine.scan 7 ⟨.hostStart, none, span⟩ authority with
  | none => rfl
  | some c => rfl

/-- A host, and a port that has 16 bits, are taken. -/
theorem httpParseHost_authority (hh : ∀ c ∈ h, isHostChar c = true) (hne : h ≠ [])
    (hport : PortOk port) (hlen : 7 + (h ++ showPort port).length < 2 ^ 16)
    (hnone : span .port = none) (path rest : Text) :
    ∃ fieldData, httpParseHost (urlText (h ++ showPort port) path rest) span
        ⟨7, (h ++ showPort port).length⟩ false = some fieldData ∧
      portFits (urlText (h ++ showPort port) path rest) fieldData = true ∧
      fieldData .host = some ⟨7, h.length⟩ ∧ fieldData .path = span .path ∧
      fieldData .query = span .query := by
  have hhostLen : 7 + h.length < 2 ^ 16 := by
    rw [length_append] at hlen
    omega
  have hscanHost : hostMachine.scan 7 ⟨.hostStart, none, span⟩ h =
      some ⟨.host, some .host, update span .host (some ⟨7, h.length⟩)⟩ :=
    scan_host hh hne hhostLen
  rw [httpParseHost_of_slice (slice_authority _ path rest)]
  cases port with
  | none =>
    refine ⟨update span .host (some ⟨7, h.length⟩), ?_, ?_,
      update_self _ _ _, rfl, rfl⟩
    · rw [showPort, List.append_nil, hscanHost]
      rfl
    · rw [portFits, update_of_ne (by decide), hnone]
  | some z =>
    have hz := hport z rfl
    have hshow := showInt_of_nonneg hz.1
    have hdigits : ∀ c ∈ showInt z, c.isDigit = true :=
      fun c hc => isDigit_of_mem_port hz.1 hc
    have hnonempty : showInt z ≠ [] := by
      rw [hshow]
      exact Nat.toDigits_ne_nil
    rw [showPort, length_append, length_cons] at hlen
    have hscanPort := @scan_port (update span .host (some ⟨7, h.length⟩)) _ hdigits
      hnonempty (7 + h.length) (by omega)
    refine ⟨update (update span .host (some ⟨7, h.length⟩)) .port
      (some ⟨7 + h.length + 1, (showInt z).length⟩), ?_, ?_, rfl, rfl, rfl⟩
    · rw [showPort, Machine.scan_append_of _ hscanHost, hscanPort]
      rfl
    · rw [showPort, portFits_port hz.1]
      exact decide_eq_true hz.2

theorem httpParserParseUrl_of_clean (hh : ∀ c ∈ h, isHostChar c = true) (hne : h ≠ [])
    (hport : PortOk port) (hpath : ∀ c ∈ path, isUrlChar c = true) (hrest : IsRest rest)
    (hclean : ∀ b ∈ rest, isRestChar b = true)
    (hlen : (urlText (h ++ showPort port) path rest).length < 2 ^ 16) :
    ∃ fieldData, httpParserParseUrl (urlText (h ++ showPort port) path rest) = some fieldData ∧
      fieldData .host = some ⟨7, h.length⟩ ∧
      fieldData .path = some ⟨7 + (h ++ showPort port).length, path.length + 1⟩ ∧
      fieldData .query =
        if queryOf rest = [] then none
        else some ⟨7 + (h ++ showPort port).length + path.length + 1 + 1,
          (queryOf rest).length⟩ := by
  have huser := isUserinfoChar_of_authority (fun c hc => Or.inl (hh c hc)) port
  have hauthority : h ++ showPort port ≠ [] := by simp [hne]
  obtain ⟨c, hscan, hat, hspan, hquery⟩ := scan_url huser hauthority hpath hrest hclean hlen
  have hlong : 7 + (h ++ showPort port).length < 2 ^ 16 := by
    rw [urlText_eq, length_append, length_front] at hlen
    omega
  obtain ⟨fieldData, hparse, hfits, hhost, hpathSpan, hquerySpan⟩ :=
    httpParseHost_authority hh hne hport hlong (hspan .port (by decide) (by decide)) path rest
  refine ⟨fieldData, ?_, hhost, ?_, ?_⟩
  · have hhostSpan : c.span .host = some ⟨7, (h ++ showPort port).length⟩ :=
      hspan .host (by decide) (by decide)
    rw [httpParserParseUrl_of_scan (urlText_ne_nil _ path rest) hscan hhostSpan, hat, hparse,
      Option.bind_some, if_pos hfits]
  · rw [hpathSpan]
    exact hspan .path (by decide) (by decide)
  · rw [hquerySpan]
    exact hquery

/-- A host with an underscore, a port out of range, and a character that is not of a URL are
errors. -/
theorem httpParserParseUrl_eq_none (hh : ∀ c ∈ h, isHostChar c = true ∨ c = '_') (hne : h ≠ [])
    (hpath : ∀ c ∈ path, isUrlChar c = true) (hrest : IsRest rest)
    (hlen : (urlText (h ++ showPort port) path rest).length < 2 ^ 16)
    (hbad : '_' ∈ h ∨ ¬ PortOk port ∨ ∃ b ∈ rest, isRestChar b = false) :
    httpParserParseUrl (urlText (h ++ showPort port) path rest) = none := by
  by_cases hclean : ∀ b ∈ rest, isRestChar b = true
  · have huser := isUserinfoChar_of_authority hh port
    have hauthority : h ++ showPort port ≠ [] := by simp [hne]
    obtain ⟨c, hscan, hat, hspan, hquery⟩ := scan_url huser hauthority hpath hrest hclean hlen
    have hhost : c.span .host = some ⟨7, (h ++ showPort port).length⟩ :=
      hspan .host (by decide) (by decide)
    rw [urlText_eq, length_append, length_front, length_append] at hlen
    rw [httpParserParseUrl_of_scan (urlText_ne_nil _ path rest) hscan hhost, hat,
      httpParseHost_of_slice (slice_authority _ path rest)]
    by_cases hunder : '_' ∈ h
    · rw [Machine.scan_append, underscore_in_host hh hunder]
      rfl
    · have hhost' : ∀ c ∈ h, isHostChar c = true := by
        intro c hc
        rcases hh c hc with hc' | rfl
        · exact hc'
        · exact absurd hc hunder
      have hport : ¬ PortOk port := by
        rcases hbad with hbad | hbad | ⟨b, hb, hbad⟩
        · exact absurd hbad hunder
        · exact hbad
        · rw [hclean b hb] at hbad
          cases hbad
      obtain ⟨z, rfl, hz⟩ := not_portOk hport
      have hscanHost : hostMachine.scan 7 ⟨.hostStart, none, c.span⟩ h =
          some ⟨.host, some .host, update c.span .host (some ⟨7, h.length⟩)⟩ :=
        scan_host hhost' hne (by omega)
      rw [showPort, Machine.scan_append_of _ hscanHost]
      rcases hz with hneg | hbig
      · rw [scan_negative hneg, Option.bind_none, Option.bind_none]
      · have hshow := showInt_of_nonneg (show 0 ≤ z by omega)
        have hdigits : ∀ c ∈ showInt z, c.isDigit = true :=
          fun c hc => isDigit_of_mem_port (by omega) hc
        have hnonempty : showInt z ≠ [] := by
          rw [hshow]
          exact Nat.toDigits_ne_nil
        rw [showPort, length_cons] at hlen
        have hfits : ¬ z ≤ 0xffff := by omega
        rw [scan_port hdigits hnonempty (by omega), Option.bind_some,
          if_pos (show HostState.port.isEnd = true from rfl), Option.bind_some, portFits_port (by omega), decide_eq_false hfits]
        rfl
  · simp only [not_forall] at hclean
    obtain ⟨b, hb, hbad⟩ := hclean
    exact httpParserParseUrl_of_unclean ⟨b, by simp [urlText, hb], Bool.eq_false_iff.mpr hbad⟩

theorem slice_host (h more path rest : Text) :
    Span.slice ⟨7, h.length⟩ (urlText (h ++ more) path rest) = h := by
  have hslice := FieldScan.slice_append rtmpHead h (more ++ ('/' :: path ++ rest))
  unfold urlText
  rw [append_assoc]
  exact hslice

theorem srsHttpUriInitialize_of_clean
    (hurl : parsingUrl url = urlText (h ++ showPort port) path rest)
    (hh : ∀ c ∈ h, isHostChar c = true) (hne : h ≠ []) (hport : PortOk port)
    (hpath : ∀ c ∈ path, isUrlChar c = true) (hrest : IsRest rest)
    (hclean : ∀ b ∈ rest, isRestChar b = true) (hlen : (parsingUrl url).length < 2 ^ 16) :
    ∃ uri, srsHttpUriInitialize url = some uri ∧
      uri.host = (if defaultHost <:+: url then defaultVhost else h) ∧
      uri.path = '/' :: path ∧
      uri.queryValues = srsParseQueryString (queryStr (queryOf rest)) := by
  rw [hurl] at hlen
  obtain ⟨fieldData, hparse, hhost, hpathSpan, hquerySpan⟩ :=
    httpParserParseUrl_of_clean hh hne hport hpath hrest hclean hlen
  have hhostText : getUriField (urlText (h ++ showPort port) path rest) fieldData .host = h := by
    rw [getUriField, hhost]
    exact slice_host h _ path rest
  have hpathText : getUriField (urlText (h ++ showPort port) path rest) fieldData .path =
      '/' :: path := by
    rw [getUriField, hpathSpan]
    exact slice_path _ path rest
  have hqueryText : getUriField (urlText (h ++ showPort port) path rest) fieldData .query =
      queryOf rest := by
    rw [getUriField, hquerySpan]
    by_cases hquery : queryOf rest = []
    · rw [if_pos hquery, hquery]
    · rw [if_neg hquery]
      exact slice_query _ path rest
  unfold srsHttpUriInitialize
  rw [hurl, hparse]
  dsimp only
  refine ⟨_, rfl, ?_, hpathText, ?_⟩
  · dsimp only
    rw [hhostText]
  · dsimp only
    rw [hqueryText]
    by_cases hquery : queryOf rest = []
    · rw [if_pos hquery, hquery]
      rfl
    · rw [if_neg hquery]

theorem srsHttpUriInitialize_eq_none
    (h : httpParserParseUrl (parsingUrl url) = none) : srsHttpUriInitialize url = none := by
  unfold srsHttpUriInitialize
  rw [h]

end Parse

end SrsChatRoom.Protocol.HttpUri
