import SrsChatRoom.Lib.SortedMap
import Mathlib.Data.Char
import Mathlib.Data.List.Lex
import SrsChatRoom.Protocol.QueryString

/-!
# Stream ids of SRT (`srs_app_srt_utility.cpp`)

A stream id is parsed into a map, and its entries are put together again as `path?params`, in the
order of their keys. This is then cut at its first slash, which is in the path if an app is there,
and in a parameter otherwise. `streamid_iff` says which stream ids are understood.

The default app and the public address are parameters; the `tcUrl` is left out.
-/

namespace SrsChatRoom.App.SrtStreamId

open TextStream (Text)
open Protocol.HttpUri (flags pairs)

/-! ## Code -/

/-- `SrtMode` -/
inductive SrtMode
  | pull | push
deriving DecidableEq, Repr

/-- The variables of `srs_srt_streamid_info`. -/
structure Info where
  mode : SrtMode := .pull
  vhost : Text
  urlSubpath : Text := []
  params : Text := []

/-- `vhost=` -/
def vhostKey : Text := ['v', 'h', 'o', 's', 't']

/-- `publish` and `request` -/
def publishText : Text := ['p', 'u', 'b', 'l', 'i', 's', 'h']
def requestText : Text := ['r', 'e', 'q', 'u', 'e', 's', 't']

/-- `key=value&` -/
def paramOf (k v : Text) : Text := k ++ '=' :: (v ++ ['&'])

/-- A round of the loop over the query; `none` is `return false`. -/
def onQuery (info : Info) (it : Text × Text) : Option Info :=
  if it.1 = ['h'] then
    let front := it.2.takeWhile (· ≠ '/')
    let behind := (it.2.dropWhile (· ≠ '/')).drop 1
    if '/' ∈ it.2 then
      -- two slashes: there is a vhost in front
      if '/' ∈ behind then
        some { info with
          urlSubpath := behind
          params := info.params ++ paramOf vhostKey front
          vhost := front }
      else some { info with urlSubpath := it.2 }
    else some { info with params := info.params ++ paramOf vhostKey it.2, vhost := it.2 }
  else if it.1 = ['r'] then some { info with urlSubpath := it.2 }
  else if it.1 = ['m'] then
    let modeStr := it.2.map Char.toLower
    if modeStr = publishText then some { info with mode := .push }
    else if modeStr = requestText then some { info with mode := .pull }
    else none
  else some { info with params := info.params ++ paramOf it.1 it.2 }

/-- The loop. -/
def onQueries (info : Info) : List (Text × Text) → Option Info
  | [] => some info
  | it :: query =>
    match onQuery info it with
    | none => none
    | some info => onQueries info query

/-- The map of `srs_parse_query_string`, which is iterated in the order of the keys. -/
def parsedQuery (q : Text) : SortedMap Text Text :=
  SortedMap.empty.assignAll (pairs (SubText.splitBy flags q))

/-- `srs_srt_streamid_info(streamid, mode, vhost, url_subpath)` -/
def srsSrtStreamidInfo (defaultApp streamid vhost : Text) : Option Info :=
  if ¬ ['#', '!', ':', ':'] <+: streamid then
    if '/' ∈ streamid then some { vhost := vhost, urlSubpath := streamid }
    else some { vhost := vhost, urlSubpath := defaultApp ++ '/' :: streamid }
  else
    let realStreamid := SubText.replace ['?'] [','] (streamid.drop 4)
    match onQueries { vhost := vhost } (parsedQuery realStreamid).entries with
    | none => none
    | some info =>
      if info.urlSubpath = [] then none
      else if info.params ≠ [] then
        some { info with urlSubpath := (info.urlSubpath ++ '?' :: info.params).dropLast }
      else some info

/-- What is set in `SrsRequest`. -/
structure SrsRequest where
  vhost : Text := []
  app : Text := []
  stream : Text := []
  param : Text := []
  host : Text := []
deriving DecidableEq

/-- What stands in front of the first `c`, and what behind it, if there is one. -/
def cutAt (c : Char) (s : Text) : Option (Text × Text) :=
  if c ∈ s then some (s.takeWhile (· ≠ c), (s.dropWhile (· ≠ c)).drop 1) else none

/-- `srs_srt_streamid_to_request(streamid, mode, request)` -/
def srsSrtStreamidToRequest (defaultApp publicAddress streamid : Text) (request : SrsRequest) :
    Option (SrtMode × SrsRequest) :=
  match srsSrtStreamidInfo defaultApp streamid request.vhost with
  | none => none
  | some info =>
    let cut := (cutAt '/' info.urlSubpath).getD (defaultApp, info.urlSubpath)
    let streamAndParam := (cutAt '?' cut.2).getD (cut.2, request.param)
    some (info.mode,
      { vhost := if info.vhost = [] then publicAddress else info.vhost
        app := cut.1
        stream := streamAndParam.1
        param := streamAndParam.2
        host := publicAddress })

/-! ## Stream ids -/

/-- A character of a value. -/
def isValueChar (c : Char) : Bool :=
  c ≠ '=' && c ≠ ',' && c ≠ ';' && c ≠ '&' && c ≠ '?'

/-- A vhost, an app, a stream or a key. -/
structure Token where
  text : Text
  ne_nil : text ≠ []
  chars : ∀ c ∈ text, isValueChar c = true ∧ c ≠ '/'

/-- A value, which may have slashes. -/
structure Value where
  text : Text
  ne_nil : text ≠ []
  chars : ∀ c ∈ text, isValueChar c = true

/-- What a stream id says. -/
structure StreamId where
  vhost : Token
  app : Option Token
  stream : Token
  mode : SrtMode
  further : List (Token × Value)
  distinct : (further.map fun p => p.1.text).Nodup
  others : ∀ p ∈ further, p.1.text ≠ ['h'] ∧ p.1.text ≠ ['r'] ∧ p.1.text ≠ ['m']

namespace StreamId

variable (id : StreamId)

/-- `app/stream`, or the stream alone. -/
def resource : Text :=
  match id.app with
  | none => id.stream.text
  | some app => app.text ++ '/' :: id.stream.text

def modeText : Text :=
  match id.mode with
  | .push => publishText
  | .pull => requestText

def furtherPairs : List (Text × Text) := id.further.map fun p => (p.1.text, p.2.text)

/-- The pairs of a stream id. -/
def items : List (Text × Text) :=
  (['h'], id.vhost.text) :: (['r'], id.resource) :: (['m'], id.modeText) :: id.furtherPairs

/-- The pairs that the request should have. -/
def requested : List (Text × Text) := (vhostKey, id.vhost.text) :: id.furtherPairs

end StreamId

/-- `k=v` with something between them. -/
def joinPairs (sep : Char) : List (Text × Text) → Text
  | [] => []
  | [kv] => kv.1 ++ '=' :: kv.2
  | kv :: kvs => kv.1 ++ '=' :: (kv.2 ++ sep :: joinPairs sep kvs)

theorem joinPairs_cons (sep : Char) (kv kv' : Text × Text) (kvs : List (Text × Text)) :
    joinPairs sep (kv :: kv' :: kvs) =
      kv.1 ++ '=' :: (kv.2 ++ sep :: joinPairs sep (kv' :: kvs)) := rfl

/-- A stream id as it is written, with its pairs in some order. -/
structure Written where
  id : StreamId
  pairs : List (Text × Text)
  perm : pairs.Perm id.items

def Written.text (w : Written) : Text := ['#', '!', ':', ':'] ++ joinPairs ',' w.pairs

/-- The stream id is understood. -/
def Understood (defaultApp publicAddress : Text) (w : Written) : Prop :=
  ∃ request, srsSrtStreamidToRequest defaultApp publicAddress w.text {} =
      some (w.id.mode, request) ∧
    request.vhost = w.id.vhost.text ∧
    request.app = (w.id.app.map Token.text).getD defaultApp ∧
    request.stream = w.id.stream.text ∧
    ∃ l, l.Perm w.id.requested ∧ request.param = joinPairs '&' l

/-- There is an app, or no value with a slash. -/
def Unambiguous (id : StreamId) : Prop :=
  id.app.isSome = true ∨ ∀ p ∈ id.further, '/' ∉ p.2.text

/-! ## The map -/

/-- A pair of a stream id: nothing in it is cut. -/
structure Plain (kv : Text × Text) : Prop where
  key_ne : kv.1 ≠ []
  value_ne : kv.2 ≠ []
  key : ∀ c ∈ kv.1, isValueChar c = true
  value : ∀ c ∈ kv.2, isValueChar c = true

theorem plain_furtherPairs (id : StreamId) : ∀ kv ∈ id.furtherPairs, Plain kv := by
  intro kv hkv
  obtain ⟨p, -, rfl⟩ := List.mem_map.mp hkv
  exact ⟨p.1.ne_nil, p.2.ne_nil, fun c hc => (p.1.chars c hc).1, p.2.chars⟩

theorem isValueChar_resource (id : StreamId) : ∀ c ∈ id.resource, isValueChar c = true := by
  intro c hc
  unfold StreamId.resource at hc
  cases happ : id.app with
  | none =>
    rw [happ] at hc
    exact (id.stream.chars c hc).1
  | some app =>
    rw [happ] at hc
    cases List.mem_append.mp hc with
    | inl hin => exact (app.chars c hin).1
    | inr hin =>
      cases List.mem_cons.mp hin with
      | inl heq =>
        rw [heq]
        decide
      | inr hmem => exact (id.stream.chars c hmem).1

theorem resource_ne_nil (id : StreamId) : id.resource ≠ [] := by
  unfold StreamId.resource
  cases id.app with
  | none => exact id.stream.ne_nil
  | some app => exact List.append_ne_nil_of_left_ne_nil app.ne_nil _

theorem plain_items (id : StreamId) : ∀ kv ∈ id.items, Plain kv := by
  intro kv hkv
  simp only [StreamId.items, List.mem_cons] at hkv
  rcases hkv with rfl | rfl | rfl | hmem
  · exact ⟨List.cons_ne_nil _ _, id.vhost.ne_nil, List.forall_mem_singleton.mpr (by decide),
      fun c hc => (id.vhost.chars c hc).1⟩
  · exact ⟨List.cons_ne_nil _ _, resource_ne_nil id, List.forall_mem_singleton.mpr (by decide),
      isValueChar_resource id⟩
  · refine ⟨List.cons_ne_nil _ _, ?_, List.forall_mem_singleton.mpr (by decide), ?_⟩
    · show id.modeText ≠ []
      unfold StreamId.modeText
      cases id.mode with
      | push => decide
      | pull => decide
    · show ∀ c ∈ id.modeText, isValueChar c = true
      unfold StreamId.modeText
      cases id.mode with
      | push => exact List.all_eq_true.mp (by decide)
      | pull => exact List.all_eq_true.mp (by decide)
  · exact plain_furtherPairs id kv hmem

theorem nodup_items (id : StreamId) : (id.items.map Prod.fst).Nodup := by
  have hfurther : id.furtherPairs.map Prod.fst = id.further.map fun p => p.1.text := by
    rw [StreamId.furtherPairs, List.map_map]
    rfl
  have hnot : ∀ k ∈ id.further.map (fun p => p.1.text), k ≠ ['h'] ∧ k ≠ ['r'] ∧ k ≠ ['m'] := by
    intro k hk
    obtain ⟨p, hp, rfl⟩ := List.mem_map.mp hk
    exact id.others p hp
  simp only [StreamId.items, List.map_cons, hfurther, List.nodup_cons, List.mem_cons, not_or]
  refine ⟨⟨by decide, by decide, ?_⟩, ⟨by decide, ?_⟩, ?_, id.distinct⟩
  · exact fun h => (hnot _ h).1 rfl
  · exact fun h => (hnot _ h).2.1 rfl
  · exact fun h => (hnot _ h).2.2 rfl

theorem solid_flags {w : Text} (h : ∀ c ∈ w, isValueChar c = true) : SubText.Solid flags w := by
  apply Protocol.QueryString.solid_flags
  intro c hc
  have hchar := h c hc
  simp only [isValueChar, Bool.and_eq_true, decide_eq_true_eq] at hchar
  simp [Protocol.QueryString.isSeparator, hchar]

theorem find_comma (b : Text) : flags.find? (· <+: ',' :: ([] ++ b)) = some [','] := by
  simp [flags, List.cons_prefix_cons]

variable {kvs : List (Text × Text)}

/-- The id is cut into keys and values. -/
theorem splitBy_joinPairs (h : ∀ kv ∈ kvs, Plain kv) :
    SubText.splitBy flags (joinPairs ',' kvs) = kvs.flatMap fun kv => [kv.1, kv.2] := by
  induction kvs with
  | nil => rfl
  | cons kv kvs ih =>
    have hkv := h kv List.mem_cons_self
    have hrest := ih fun kv' hkv' => h kv' (List.mem_cons_of_mem kv hkv')
    cases kvs with
    | nil =>
      show SubText.splitBy flags (kv.1 ++ (['='] ++ kv.2)) = _
      rw [SubText.splitBy_append (solid_flags hkv.key) (Protocol.QueryString.find_equals _),
        SubText.splitBy_self (solid_flags hkv.value) hkv.value_ne]
      rfl
    | cons kv' kvs =>
      show SubText.splitBy flags
        (kv.1 ++ (['='] ++ (kv.2 ++ ([','] ++ joinPairs ',' (kv' :: kvs))))) = _
      rw [SubText.splitBy_append (solid_flags hkv.key) (Protocol.QueryString.find_equals _),
        SubText.splitBy_append (solid_flags hkv.value) (find_comma _), hrest]
      rfl

variable {c sep : Char}

/-- There is no question mark in the id. -/
theorem not_mem_joinPairs (hc : c ≠ '=') (hsep : c ≠ sep)
    (h : ∀ kv ∈ kvs, c ∉ kv.1 ∧ c ∉ kv.2) : c ∉ joinPairs sep kvs := by
  induction kvs with
  | nil => exact List.not_mem_nil
  | cons kv kvs ih =>
    have hkv := h kv List.mem_cons_self
    have hrest := ih fun kv' hkv' => h kv' (List.mem_cons_of_mem kv hkv')
    cases kvs with
    | nil => simp [joinPairs, hc, hkv.1, hkv.2]
    | cons kv' kvs =>
      rw [joinPairs_cons]
      simp [hc, hsep, hkv.1, hkv.2, hrest]

theorem not_mem_of_isValueChar {w : Text} (h : ∀ c ∈ w, isValueChar c = true) : '?' ∉ w := by
  intro hmem
  exact absurd (h '?' hmem) (by decide)

/-- The entries of the map are the pairs of the id. -/
theorem entries_perm (w : Written) :
    (parsedQuery (SubText.replace ['?'] [','] (w.text.drop 4))).entries.Perm w.id.items := by
  have hplain : ∀ kv ∈ w.pairs, Plain kv := fun kv hkv =>
    plain_items w.id kv (w.perm.mem_iff.mp hkv)
  have hdrop : w.text.drop 4 = joinPairs ',' w.pairs := rfl
  have hmark : '?' ∉ joinPairs ',' w.pairs := by
    apply not_mem_joinPairs (by decide) (by decide)
    intro kv hkv
    exact ⟨not_mem_of_isValueChar (hplain kv hkv).key, not_mem_of_isValueChar (hplain kv hkv).value⟩
  have hreplace : SubText.replace ['?'] [','] (joinPairs ',' w.pairs) = joinPairs ',' w.pairs := by
    apply SubText.replace_eq_self
    intro hfound
    exact hmark (hfound.subset List.mem_cons_self)
  have hnodup : (w.pairs.map Prod.fst).Nodup :=
    (w.perm.map Prod.fst).nodup_iff.mpr (nodup_items w.id)
  rw [hdrop, hreplace, parsedQuery, splitBy_joinPairs hplain, Protocol.HttpUri.pairs_flatMap]
  refine List.Perm.trans ?_ w.perm
  apply (List.perm_ext_iff_of_nodup (SortedMap.nodup_of_sorted (SortedMap.sorted _))
    (List.Nodup.of_map _ hnodup)).mpr
  intro e
  rw [SortedMap.mem_assignAll hnodup]
  simp [SortedMap.empty]

/-! ## The loop over the entries -/

/-- What becomes a parameter. -/
def kept (it : Text × Text) : Option (Text × Text) :=
  if it.1 = ['h'] then some (vhostKey, it.2)
  else if it.1 = ['r'] ∨ it.1 = ['m'] then none
  else some it

/-- Parameters with `&` behind each. -/
def paramsText (kvs : List (Text × Text)) : Text := kvs.flatMap fun kv => paramOf kv.1 kv.2

/-- What the loop has made of some entries. -/
structure Collected (id : StreamId) (info : Info) (query : List (Text × Text)) (info' : Info) :
    Prop where
  mode : info.mode = id.mode ∨ ['m'] ∈ query.map Prod.fst → info'.mode = id.mode
  vhost : info.vhost = id.vhost.text ∨ ['h'] ∈ query.map Prod.fst → info'.vhost = id.vhost.text
  url : info.urlSubpath = id.resource ∨ ['r'] ∈ query.map Prod.fst →
    info'.urlSubpath = id.resource
  params : info'.params = info.params ++ paramsText (query.filterMap kept)

section Loop

variable {id : StreamId}

theorem onQuery_vhost (info : Info) : onQuery info (['h'], id.vhost.text) =
    some { info with
      params := info.params ++ paramOf vhostKey id.vhost.text
      vhost := id.vhost.text } := by
  have hslash : '/' ∉ id.vhost.text := fun hmem => (id.vhost.chars '/' hmem).2 rfl
  rw [onQuery, if_pos rfl]
  exact if_neg hslash

theorem onQuery_mode (info : Info) :
    onQuery info (['m'], id.modeText) = some { info with mode := id.mode } := by
  have hpush : publishText.map Char.toLower = publishText := by decide
  have hpull : requestText.map Char.toLower = requestText := by decide
  have hne : ¬ requestText = publishText := by decide
  have hm : ¬ (['m'] : Text) = ['h'] ∧ ¬ (['m'] : Text) = ['r'] := by decide
  rw [onQuery, if_neg hm.1, if_neg hm.2, if_pos rfl]
  unfold StreamId.modeText
  cases hmode : id.mode with
  | push =>
    dsimp only
    rw [hpush, if_pos rfl]
  | pull =>
    dsimp only
    rw [hpull, if_neg hne, if_pos rfl]

/-- A round of the loop, by the pair. -/
theorem onQuery_item {it : Text × Text} (h : it ∈ id.items) (info : Info) :
    ∃ info', onQuery info it = some info' ∧ Collected id info [it] info' := by
  simp only [StreamId.items, List.mem_cons] at h
  have hparams : ∀ kv : Text × Text, paramsText [kv] = paramOf kv.1 kv.2 :=
    fun kv => List.append_nil _
  have hnot : ∀ {k k' : Text}, k ≠ k' → ∀ {v : Text} {P : Prop}, k ∈ [(k', v)].map Prod.fst → P :=
    fun hne _ _ hk => absurd (List.mem_singleton.mp hk) hne
  rcases h with rfl | rfl | rfl | hmem
  · refine ⟨_, onQuery_vhost info, ?_, fun _ => rfl, ?_, ?_⟩
    · exact fun h => h.elim (fun h => h) (hnot (by decide))
    · exact fun h => h.elim (fun h => h) (hnot (by decide))
    · exact congrArg (info.params ++ ·) (hparams (vhostKey, id.vhost.text)).symm
  · refine ⟨{ info with urlSubpath := id.resource }, rfl, ?_, ?_, fun _ => rfl, ?_⟩
    · exact fun h => h.elim (fun h => h) (hnot (by decide))
    · exact fun h => h.elim (fun h => h) (hnot (by decide))
    · exact (List.append_nil _).symm
  · refine ⟨_, onQuery_mode info, fun _ => rfl, ?_, ?_, ?_⟩
    · exact fun h => h.elim (fun h => h) (hnot (by decide))
    · exact fun h => h.elim (fun h => h) (hnot (by decide))
    · exact (List.append_nil _).symm
  · obtain ⟨p, hp, rfl⟩ := List.mem_map.mp hmem
    obtain ⟨hh, hr, hm⟩ := id.others p hp
    have hkept : kept (p.1.text, p.2.text) = some (p.1.text, p.2.text) := by
      rw [kept, if_neg hh, if_neg (not_or.mpr ⟨hr, hm⟩)]
    refine ⟨{ info with params := info.params ++ paramOf p.1.text p.2.text }, ?_, ?_, ?_, ?_, ?_⟩
    · rw [onQuery, if_neg hh, if_neg hr, if_neg hm]
    · exact fun h => h.elim (fun h => h) (hnot (Ne.symm hm))
    · exact fun h => h.elim (fun h => h) (hnot (Ne.symm hh))
    · exact fun h => h.elim (fun h => h) (hnot (Ne.symm hr))
    · rw [List.filterMap_cons_some hkept, List.filterMap_nil, hparams]

theorem onQueries_items {query : List (Text × Text)} (h : ∀ it ∈ query, it ∈ id.items)
    (info : Info) :
    ∃ info', onQueries info query = some info' ∧ Collected id info query info' := by
  induction query generalizing info with
  | nil =>
    refine ⟨info, rfl, ?_, ?_, ?_, (List.append_nil _).symm⟩
    · exact fun h => h.elim (fun h => h) fun h => absurd h List.not_mem_nil
    · exact fun h => h.elim (fun h => h) fun h => absurd h List.not_mem_nil
    · exact fun h => h.elim (fun h => h) fun h => absurd h List.not_mem_nil
  | cons it query ih =>
    obtain ⟨next, hnext, hone⟩ := onQuery_item (h it List.mem_cons_self) info
    obtain ⟨info', hrun, hmore⟩ := ih (fun it' hit' => h it' (List.mem_cons_of_mem it hit')) next
    have hsplit : ∀ {k : Text}, k ∈ (it :: query).map Prod.fst →
        k ∈ [it].map Prod.fst ∨ k ∈ query.map Prod.fst := by
      intro k hk
      rw [List.map_cons, List.mem_cons] at hk
      exact hk.imp List.mem_singleton.mpr fun h => h
    refine ⟨info', ?_, ?_, ?_, ?_, ?_⟩
    · rw [onQueries, hnext]
      exact hrun
    · intro hmode
      apply hmore.mode
      rcases hmode with hsame | hk
      · exact .inl (hone.mode (.inl hsame))
      · exact (hsplit hk).imp (fun h => hone.mode (.inr h)) fun h => h
    · intro hvhost
      apply hmore.vhost
      rcases hvhost with hsame | hk
      · exact .inl (hone.vhost (.inl hsame))
      · exact (hsplit hk).imp (fun h => hone.vhost (.inr h)) fun h => h
    · intro hurl
      apply hmore.url
      rcases hurl with hsame | hk
      · exact .inl (hone.url (.inl hsame))
      · exact (hsplit hk).imp (fun h => hone.url (.inr h)) fun h => h
    · have happend :
          (it :: query).filterMap kept = [it].filterMap kept ++ query.filterMap kept := by
        rw [← List.filterMap_append, List.singleton_append]
      have htext : ∀ a b, paramsText (a ++ b) = paramsText a ++ paramsText b :=
        fun a b => List.flatMap_append
      rw [hmore.params, hone.params, happend, htext, List.append_assoc]

end Loop

/-- The last `&` is removed. -/
theorem paramsText_eq (hne : kvs ≠ []) : paramsText kvs = joinPairs '&' kvs ++ ['&'] := by
  induction kvs with
  | nil => exact absurd rfl hne
  | cons kv kvs ih =>
    cases kvs with
    | nil => simp [paramsText, paramOf, joinPairs]
    | cons kv' kvs =>
      have hcons : paramsText (kv :: kv' :: kvs) =
          paramOf kv.1 kv.2 ++ paramsText (kv' :: kvs) := List.flatMap_cons
      rw [hcons, ih (List.cons_ne_nil _ _), joinPairs_cons, paramOf]
      simp

theorem kept_items (id : StreamId) : id.items.filterMap kept = id.requested := by
  have hkept : ∀ kv ∈ id.furtherPairs, kept kv = some kv := by
    intro kv hkv
    obtain ⟨p, hp, rfl⟩ := List.mem_map.mp hkv
    obtain ⟨hh, hr, hm⟩ := id.others p hp
    rw [kept, if_neg hh, if_neg (not_or.mpr ⟨hr, hm⟩)]
  have hfurther : id.furtherPairs.filterMap kept = id.furtherPairs :=
    (List.filterMap_congr hkept).trans List.filterMap_some
  show (vhostKey, id.vhost.text) :: id.furtherPairs.filterMap kept = _
  rw [hfurther]
  rfl

/-- The id is put together again. -/
theorem info_written (w : Written) (defaultApp : Text) :
    ∃ info l, srsSrtStreamidInfo defaultApp w.text [] = some info ∧ info.mode = w.id.mode ∧
      info.vhost = w.id.vhost.text ∧ l.Perm w.id.requested ∧
      info.urlSubpath = w.id.resource ++ '?' :: joinPairs '&' l := by
  have hperm := entries_perm w
  obtain ⟨info, hrun, hall⟩ := onQueries_items (fun it hit => hperm.mem_iff.mp hit) { vhost := [] }
  have hkeys : ∀ k ∈ w.id.items.map Prod.fst, k ∈
      (parsedQuery (SubText.replace ['?'] [','] (w.text.drop 4))).entries.map Prod.fst :=
    fun k hk => (hperm.map Prod.fst).mem_iff.mpr hk
  have hurl := hall.url (.inr (hkeys _ (by simp [StreamId.items])))
  have hkept : ((parsedQuery (SubText.replace ['?'] [','] (w.text.drop 4))).entries.filterMap
      kept).Perm w.id.requested := by
    rw [← kept_items]
    exact hperm.filterMap kept
  have hne : (parsedQuery (SubText.replace ['?'] [','] (w.text.drop 4))).entries.filterMap kept ≠
      [] := by
    intro hnil
    have hlength := hkept.length_eq
    rw [hnil] at hlength
    cases hlength
  have hparams := hall.params
  rw [paramsText_eq hne] at hparams
  have hparamsNe : info.params ≠ [] := by
    rw [hparams]
    simp
  have hhead : ¬¬['#', '!', ':', ':'] <+: w.text := not_not.mpr (List.prefix_append _ _)
  refine ⟨{ info with urlSubpath := (info.urlSubpath ++ '?' :: info.params).dropLast }, _, ?_,
    hall.mode (.inr (hkeys _ (by simp [StreamId.items]))),
    hall.vhost (.inr (hkeys _ (by simp [StreamId.items]))), hkept, ?_⟩
  · rw [srsSrtStreamidInfo, if_neg hhead]
    dsimp only
    rw [hrun]
    dsimp only
    rw [if_neg (by rw [hurl]; exact resource_ne_nil w.id), if_pos hparamsNe]
  · dsimp only
    have hassoc : ∀ (a b : Text), a ++ '?' :: (([] : Text) ++ (b ++ ['&'])) =
        (a ++ '?' :: b) ++ ['&'] := by simp
    rw [hparams, hurl, hassoc, List.dropLast_concat]

/-! ## The request -/

theorem cutAt_append {a : Text} (h : c ∉ a) (b : Text) : cutAt c (a ++ c :: b) = some (a, b) := by
  have hall : ∀ x ∈ a, decide (x ≠ c) = true := by
    intro x hx
    exact decide_eq_true fun heq => h (heq ▸ hx)
  rw [cutAt, if_pos (by simp), List.takeWhile_append_of_pos hall, List.dropWhile_append_of_pos hall]
  simp

theorem cutAt_eq_none {s : Text} (h : c ∉ s) : cutAt c s = none := if_neg h

theorem joinPairs_ne_nil (h : kvs ≠ []) : joinPairs sep kvs ≠ [] := by
  cases kvs with
  | nil => exact absurd rfl h
  | cons kv kvs => cases kvs <;> simp [joinPairs]

/-- A character of a value is in the text. -/
theorem mem_joinPairs {kv : Text × Text}
    (hkv : kv ∈ kvs) (h : c ∈ kv.2) : c ∈ joinPairs sep kvs := by
  induction kvs with
  | nil => exact absurd hkv List.not_mem_nil
  | cons first kvs ih =>
    cases kvs with
    | nil =>
      rw [← List.mem_singleton.mp hkv]
      simp [joinPairs, h]
    | cons kv' kvs =>
      rw [joinPairs_cons]
      cases List.mem_cons.mp hkv with
      | inl heq => simp [← heq, h]
      | inr hmem => simp [ih hmem]

section Request

variable {id : StreamId} {l : List (Text × Text)}

theorem plain_requested (id : StreamId) : ∀ kv ∈ id.requested, Plain kv := by
  intro kv hkv
  cases List.mem_cons.mp hkv with
  | inl heq =>
    rw [heq]
    exact ⟨List.cons_ne_nil _ _, id.vhost.ne_nil,
      (List.all_eq_true.mp (by decide) : ∀ c ∈ vhostKey, isValueChar c = true), fun c hc => (id.vhost.chars c hc).1⟩
  | inr hmem => exact plain_furtherPairs id kv hmem

theorem question_not_mem (hl : l.Perm id.requested) : '?' ∉ joinPairs '&' l := by
  apply not_mem_joinPairs (by decide) (by decide)
  intro kv hkv
  have hplain := plain_requested id kv (hl.mem_iff.mp hkv)
  exact ⟨not_mem_of_isValueChar hplain.key, not_mem_of_isValueChar hplain.value⟩

/-- The slashes of the parameters are those of the further values. -/
theorem slash_mem_iff (hl : l.Perm id.requested) :
    '/' ∈ joinPairs '&' l ↔ ∃ p ∈ id.further, '/' ∈ p.2.text := by
  constructor
  · intro hmem
    by_contra hnone
    push Not at hnone
    refine not_mem_joinPairs (by decide) (by decide) (fun kv hkv => ?_) hmem
    cases List.mem_cons.mp (hl.mem_iff.mp hkv) with
    | inl heq =>
      rw [heq]
      exact ⟨(by decide : '/' ∉ vhostKey), fun h => (id.vhost.chars '/' h).2 rfl⟩
    | inr hfurther =>
      obtain ⟨p, hp, rfl⟩ := List.mem_map.mp hfurther
      exact ⟨fun h => (p.1.chars '/' h).2 rfl, hnone p hp⟩
  · intro ⟨p, hp, hslash⟩
    have hkv : (p.1.text, p.2.text) ∈ l := by
      apply hl.mem_iff.mpr
      exact List.mem_cons_of_mem _ (List.mem_map.mpr ⟨p, hp, rfl⟩)
    exact mem_joinPairs hkv hslash

/-- The stream is in front of the question mark. -/
theorem cutAt_stream (id : StreamId) (params : Text) :
    cutAt '?' (id.stream.text ++ '?' :: params) = some (id.stream.text, params) := by
  apply cutAt_append
  exact not_mem_of_isValueChar fun c hc => (id.stream.chars c hc).1

/-- The slash in front of the stream is the first one. -/
theorem cutAt_app {app : Token} (h : id.app = some app) (params : Text) :
    cutAt '/' (id.resource ++ '?' :: params) =
      some (app.text, id.stream.text ++ '?' :: params) := by
  have hresource : id.resource = app.text ++ '/' :: id.stream.text := by
    rw [StreamId.resource, h]
  rw [hresource, List.append_assoc]
  exact cutAt_append (fun hmem => (app.chars '/' hmem).2 rfl) _

/-- There is no slash. -/
theorem cutAt_noApp (h : id.app = none) {params : Text} (hparams : '/' ∉ params) :
    cutAt '/' (id.resource ++ '?' :: params) = none := by
  have hresource : id.resource = id.stream.text := by rw [StreamId.resource, h]
  apply cutAt_eq_none
  rw [hresource]
  intro hmem
  cases List.mem_append.mp hmem with
  | inl hin => exact (id.stream.chars '/' hin).2 rfl
  | inr hin =>
    cases List.mem_cons.mp hin with
    | inl heq => exact absurd heq (by decide)
    | inr hin => exact hparams hin

/-- The first slash is in the parameters, and nothing behind it is a parameter any more. -/
theorem cutAt_param (h : id.app = none) {params : Text} (hparams : '/' ∈ params)
    (hmark : '?' ∉ params) : ∃ front behind,
      cutAt '/' (id.resource ++ '?' :: params) = some (front, behind) ∧ '?' ∉ behind := by
  obtain ⟨a, b, rfl, ha⟩ := List.eq_append_cons_of_mem hparams
  have hresource : id.resource = id.stream.text := by rw [StreamId.resource, h]
  refine ⟨id.stream.text ++ '?' :: a, b, ?_, fun hmem => hmark (by simp [hmem])⟩
  have hassoc : id.resource ++ '?' :: (a ++ '/' :: b) =
      (id.stream.text ++ '?' :: a) ++ '/' :: b := by
    rw [hresource]
    simp
  rw [hassoc]
  apply cutAt_append
  intro hmem
  cases List.mem_append.mp hmem with
  | inl hin => exact (id.stream.chars '/' hin).2 rfl
  | inr hin =>
    cases List.mem_cons.mp hin with
    | inl heq => exact absurd heq (by decide)
    | inr hin => exact ha hin

end Request

/-- The request, by what the url is cut into. -/
theorem request_written (defaultApp publicAddress : Text) (w : Written) :
    ∃ l, l.Perm w.id.requested ∧ ∀ {app rest stream param : Text},
      (cutAt '/' (w.id.resource ++ '?' :: joinPairs '&' l)).getD
        (defaultApp, w.id.resource ++ '?' :: joinPairs '&' l) = (app, rest) →
      (cutAt '?' rest).getD (rest, []) = (stream, param) →
      srsSrtStreamidToRequest defaultApp publicAddress w.text {} = some (w.id.mode,
        { vhost := w.id.vhost.text, app, stream, param, host := publicAddress }) := by
  obtain ⟨info, l, hinfo, hmode, hvhost, hperm, hurl⟩ := info_written w defaultApp
  refine ⟨l, hperm, fun {app rest stream param} hcut hquestion => ?_⟩
  have hgiven : ({} : SrsRequest).vhost = [] := rfl
  rw [srsSrtStreamidToRequest, hgiven, hinfo]
  dsimp only
  rw [hurl, hcut]
  dsimp only
  rw [hquestion, hmode, hvhost, if_neg w.id.vhost.ne_nil]

/-- Without an app, a slash in a value hides the parameters. -/
theorem not_understood {defaultApp publicAddress : Text} {w : Written} (happ : w.id.app = none)
    (hslash : ∃ p ∈ w.id.further, '/' ∈ p.2.text) : ¬Understood defaultApp publicAddress w := by
  obtain ⟨l, hperm, hrequest⟩ := request_written defaultApp publicAddress w
  obtain ⟨front, behind, hcut, hmark⟩ :=
    cutAt_param happ ((slash_mem_iff hperm).mpr hslash) (question_not_mem hperm)
  have hrun := hrequest (congrArg (fun cut => Option.getD cut _) hcut)
    (congrArg (fun cut => Option.getD cut _) (cutAt_eq_none hmark))
  intro ⟨request, hsome, _, _, _, l', hperm', hparam⟩
  rw [hrun] at hsome
  cases hsome
  -- there is at least the vhost
  have hne : l' ≠ [] := by
    intro hnil
    rw [hnil] at hperm'
    exact absurd hperm'.length_eq (by simp [StreamId.requested])
  exact joinPairs_ne_nil hne hparam.symm

/-- A stream id is understood if it has an app, or if there is no slash in its values. -/
theorem streamid_iff (defaultApp publicAddress : Text) (w : Written) :
    Understood defaultApp publicAddress w ↔ Unambiguous w.id := by
  obtain ⟨l, hperm, hrequest⟩ := request_written defaultApp publicAddress w
  have hstream := cutAt_stream w.id (joinPairs '&' l)
  cases happ : w.id.app with
  | some app =>
    apply iff_of_true
    · refine ⟨_, hrequest (congrArg (fun cut => Option.getD cut _) (cutAt_app happ _))
        (congrArg (fun cut => Option.getD cut _) hstream), rfl, ?_, rfl, l, hperm, rfl⟩
      rw [happ]
      rfl
    · left
      rw [happ]
      rfl
  | none =>
    have hunambiguous : Unambiguous w.id ↔ ¬∃ p ∈ w.id.further, '/' ∈ p.2.text := by
      rw [Unambiguous, happ]
      simp
    rw [hunambiguous]
    constructor
    · exact fun hunderstood hslash => not_understood happ hslash hunderstood
    · intro hslash
      have hnot : '/' ∉ joinPairs '&' l := fun hmem => hslash ((slash_mem_iff hperm).mp hmem)
      have hcut : (cutAt '/' (w.id.resource ++ '?' :: joinPairs '&' l)).getD
          (defaultApp, w.id.resource ++ '?' :: joinPairs '&' l) =
          (defaultApp, w.id.stream.text ++ '?' :: joinPairs '&' l) := by
        rw [cutAt_noApp happ hnot, StreamId.resource, happ]
        rfl
      refine ⟨_, hrequest hcut
        (congrArg (fun cut => Option.getD cut _) hstream), rfl, ?_, rfl, l, hperm, rfl⟩
      rw [happ]
      rfl

/-- A text of one character. -/
def Token.letter (c : Char) (h : isValueChar c = true ∧ c ≠ '/') : Token :=
  ⟨[c], List.cons_ne_nil _ _, List.forall_mem_singleton.mpr h⟩

/-- `#!::h=v,r=s,m=publish,k=a/b` -/
def slashInValue : Written where
  id := {
    vhost := .letter 'v' (by decide)
    app := none
    stream := .letter 's' (by decide)
    mode := .push
    further := [(.letter 'k' (by decide),
      ⟨['a', '/', 'b'], by decide, List.all_eq_true.mp (by decide)⟩)]
    distinct := by decide
    others := by decide }
  pairs := [(['h'], ['v']), (['r'], ['s']), (['m'], publishText), (['k'], ['a', '/', 'b'])]
  perm := List.Perm.refl _

/-- Its app is then `s?k=a`. -/
theorem slashInValue_not_understood :
    ¬Understood ['l', 'i', 'v', 'e'] ['1', '.', '2', '.', '3', '.', '4'] slashInValue := by
  apply not_understood rfl
  exact ⟨_, List.mem_singleton.mpr rfl, by decide⟩

end SrsChatRoom.App.SrtStreamId
