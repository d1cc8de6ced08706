import SrsChatRoom.Protocol.HttpUri

/-!
# Query strings (`srs_protocol_utility.cpp`)

`srs_parse_query_string` cuts a query at every separator and takes the parts two by two. A parameter
takes two parts, if its value has no separator in it and is not missing. `parse_iff` says for which
queries each key gets its own value.
-/

namespace SrsChatRoom.Protocol.QueryString

open TextStream (Text)
open HttpUri (flags pairs srsParseQueryString)

/-! ## Queries -/

/-- The characters at which a query is cut. -/
def isSeparator (c : Char) : Bool := c = '=' || c = ',' || c = ';' || c = '&'

/-- A parameter. One without a value has no `=`. -/
structure Param where
  key : Text
  value : Option Text
  key_ne : key ≠ []
  key_plain : ∀ c ∈ key, isSeparator c = false
  value_plain : ∀ c ∈ value.getD [], c ≠ '&'

/-- The value that a parameter has. -/
def Param.own (p : Param) : Text := p.value.getD []

/-- How a parameter is written. -/
def Param.text (p : Param) : Text :=
  p.key ++ match p.value with
    | none => []
    | some v => '=' :: v

/-- Parameters that are joined by `&`. -/
def joined : List Param → Text
  | [] => []
  | [p] => p.text
  | p :: ps => p.text ++ '&' :: joined ps

/-- A query: the keys of its parameters are distinct. -/
structure Query where
  params : List Param
  distinct : (params.map Param.key).Nodup

/-- Each key gets the value of its parameter. -/
def StoresOwn (q : Query) : Prop :=
  ∀ p ∈ q.params, (srsParseQueryString (joined q.params)).get? p.key = some p.own

/-- No value has a separator in it, and only the last parameter may have no `=`. -/
structure Paired (q : Query) : Prop where
  values : ∀ p ∈ q.params, ∀ c ∈ p.own, isSeparator c = false
  equals : ∀ p ∈ q.params.dropLast, p.value.isSome = true

/-! ## The parts -/

theorem solid_flags {w : Text} (h : ∀ c ∈ w, isSeparator c = false) : SubText.Solid flags w := by
  have hnot : ∀ c, isSeparator c = true → c ∉ w := by
    intro c hc hmem
    rw [h c hmem] at hc
    cases hc
  intro sep hsep
  have hmem : sep = ['='] ∨ sep = [','] ∨ sep = ['&', '&'] ∨ sep = ['&'] ∨ sep = [';'] := by
    simpa [flags] using hsep
  rcases hmem with rfl | rfl | rfl | rfl | rfl
  all_goals exact ⟨_, _, rfl, hnot _ (by decide)⟩

/-- The parts of the parameters. An empty one at the end is left out. -/
def parts : List Param → List Text
  | [] => []
  | [p] =>
    match p.value with
    | none => [p.key]
    | some v => if v = [] then [p.key] else [p.key, v]
  | p :: ps =>
    match p.value with
    | none => p.key :: parts ps
    | some v => p.key :: v :: parts ps

variable {ps : List Param}

theorem joined_cons (p : Param) (hne : ps ≠ []) :
    joined (p :: ps) = p.text ++ '&' :: joined ps := by
  cases ps with
  | nil => exact absurd rfl hne
  | cons p' ps => rfl

/-- Parameters do not begin with a separator. -/
theorem head_joined : (joined ps).head? ≠ some '&' := by
  intro hhead
  cases ps with
  | nil => cases hhead
  | cons p ps =>
    have hkey : (joined (p :: ps)).head? = p.key.head? := by
      cases hk : p.key with
      | nil => exact absurd hk p.key_ne
      | cons c w =>
        cases ps with
        | nil => simp [joined, Param.text, hk]
        | cons p' ps => simp [joined, Param.text, hk]
    rw [hkey] at hhead
    have hplain := p.key_plain '&' (List.mem_of_mem_head? hhead)
    exact absurd hplain (by decide)

theorem find_equals (b : Text) : flags.find? (· <+: '=' :: ([] ++ b)) = some ['='] := by
  rw [flags, List.find?_cons_of_pos]
  exact decide_eq_true (List.prefix_append ['='] b)

theorem find_and (ps : List Param) : flags.find? (· <+: '&' :: ([] ++ joined ps)) = some ['&'] := by
  have hhead := @head_joined ps
  cases hq : joined ps with
  | nil => decide
  | cons c w =>
    have hc : c ≠ '&' := by
      intro heq
      rw [hq, heq] at hhead
      exact hhead rfl
    simp [flags, List.cons_prefix_cons, Ne.symm hc]

/-- The parts of a query whose values have no separators. -/
theorem splitBy_joined (h : ∀ p ∈ ps, ∀ c ∈ p.own, isSeparator c = false) :
    SubText.splitBy flags (joined ps) = parts ps := by
  induction ps with
  | nil => rfl
  | cons p ps ih =>
    have hkey := solid_flags p.key_plain
    have hown := h p List.mem_cons_self
    have hrest := ih fun p' hp' => h p' (List.mem_cons_of_mem p hp')
    unfold Param.own at hown
    cases ps with
    | nil =>
      rw [joined, Param.text, parts]
      cases hvalue : p.value with
      | none =>
        dsimp only
        rw [List.append_nil, SubText.splitBy_self hkey p.key_ne]
      | some v =>
        rw [hvalue, Option.getD_some] at hown
        dsimp only
        show SubText.splitBy flags (p.key ++ (['='] ++ v)) = _
        rw [SubText.splitBy_append hkey (find_equals v)]
        by_cases hv : v = []
        · rw [if_pos hv, hv]
          rfl
        · rw [if_neg hv, SubText.splitBy_self (solid_flags hown) hv]
    | cons p' ps =>
      rw [joined_cons p (List.cons_ne_nil p' ps), Param.text, parts]
      · cases hvalue : p.value with
        | none =>
          dsimp only
          rw [List.append_nil]
          show SubText.splitBy flags (p.key ++ (['&'] ++ joined (p' :: ps))) = _
          rw [SubText.splitBy_append hkey (find_and _), hrest]
        | some v =>
          rw [hvalue, Option.getD_some] at hown
          dsimp only
          rw [List.append_assoc]
          show SubText.splitBy flags
            (p.key ++ (['='] ++ (v ++ (['&'] ++ joined (p' :: ps))))) = _
          rw [SubText.splitBy_append hkey (find_equals _),
            SubText.splitBy_append (solid_flags hown) (find_and _), hrest]
      · exact List.cons_ne_nil p' ps

/-! ## The pairs -/

theorem pairs_cons (k v : Text) (kvs : List Text) : pairs (k :: v :: kvs) = (k, v) :: pairs kvs := rfl

/-- With a `=` in all but the last, the parts of a parameter stay together. -/
theorem pairs_parts (h : ∀ p ∈ ps.dropLast, p.value.isSome = true) :
    pairs (parts ps) = ps.map fun p => (p.key, p.own) := by
  induction ps with
  | nil => rfl
  | cons p ps ih =>
    cases ps with
    | nil =>
      rw [parts, List.map_singleton, Param.own]
      cases p.value with
      | none => rfl
      | some v =>
        dsimp only
        rw [Option.getD_some]
        by_cases hv : v = []
        · rw [if_pos hv, hv]
          rfl
        · rw [if_neg hv]
          rfl
    | cons p' ps =>
      have hp : p.value.isSome = true := h p List.mem_cons_self
      have hrest := ih fun p'' hp'' => h p'' (List.mem_cons_of_mem p hp'')
      obtain ⟨v, hv⟩ := Option.isSome_iff_exists.mp hp
      have hown : p.own = v := by rw [Param.own, hv, Option.getD_some]
      rw [parts, hv]
      · dsimp only
        rw [pairs_cons, hrest, ← hown]
        rfl
      · exact List.cons_ne_nil p' ps

/-- Two by two there are at most as many pairs as parameters. -/
theorem length_pairs (kvs : List Text) : (pairs kvs).length = (kvs.length + 1) / 2 := by
  induction kvs using HttpUri.pairs.induct with
  | case1 => rfl
  | case2 k =>
    show 1 = (1 + 1) / 2
    omega
  | case3 k v kvs ih =>
    rw [pairs_cons, List.length_cons, ih, List.length_cons, List.length_cons]
    omega

theorem length_parts (ps : List Param) : (parts ps).length ≤ 2 * ps.length := by
  induction ps with
  | nil => exact Nat.le_refl 0
  | cons p ps ih =>
    cases ps with
    | nil =>
      rw [parts]
      cases p.value with
      | none => exact Nat.le_succ 1
      | some v =>
        dsimp only
        split
        · exact Nat.le_succ 1
        · exact Nat.le_refl 2
    | cons p' ps =>
      rw [parts, List.length_cons]
      · cases p.value with
        | none =>
          dsimp only
          rw [List.length_cons]
          omega
        | some v =>
          dsimp only
          rw [List.length_cons, List.length_cons]
          omega
      · exact List.cons_ne_nil p' ps

theorem mem_of_mem_pairs {k v : Text} {kvs : List Text} (h : (k, v) ∈ pairs kvs) :
    v ∈ kvs ∨ v = [] := by
  induction kvs using HttpUri.pairs.induct with
  | case1 => exact absurd h List.not_mem_nil
  | case2 k' =>
    right
    cases List.mem_singleton.mp h
    rfl
  | case3 k' v' kvs ih =>
    rw [pairs_cons] at h
    cases List.mem_cons.mp h with
    | inl heq =>
      cases heq
      exact .inl (List.mem_cons_of_mem _ List.mem_cons_self)
    | inr hmem =>
      cases ih hmem with
      | inl hin => exact .inl (List.mem_cons_of_mem _ (List.mem_cons_of_mem _ hin))
      | inr hnil => exact .inr hnil

/-- What is stored for a key. -/
theorem get?_srsParseQueryString (q k : Text) :
    (srsParseQueryString q).get? k = lastFor k (pairs (SubText.splitBy flags q)) := by
  unfold srsParseQueryString
  rw [Dict.get?_foldl, Dict.get?_empty, Option.or_none]

/-- No value with a separator is ever stored. -/
theorem plain_of_stored {q k v : Text} (h : (srsParseQueryString q).get? k = some v) :
    ∀ c ∈ v, isSeparator c = false := by
  intro c hc
  rw [get?_srsParseQueryString] at h
  cases mem_of_mem_pairs (mem_of_lastFor h) with
  | inl hmem =>
    have hnot : ∀ d, [d] ∈ flags → c ≠ d := by
      intro d hd heq
      rw [heq] at hc
      exact SubText.not_mem_of_mem_splitBy hd q v hmem hc
    have hequals := hnot '=' (by decide)
    have hcomma := hnot ',' (by decide)
    have hand := hnot '&' (by decide)
    have hsemicolon := hnot ';' (by decide)
    simp [isSeparator, hequals, hcomma, hand, hsemicolon]
  | inr hnil =>
    rw [hnil] at hc
    exact absurd hc List.not_mem_nil

/-! ## Parameters without a value -/

/-- The first parameter without `=`, if it is not the last one. -/
theorem exists_missing (h : ¬ ∀ p ∈ ps.dropLast, p.value.isSome = true) :
    ∃ front p p' back, ps = front ++ p :: p' :: back ∧ p.value = none ∧
      ∀ p'' ∈ front, p''.value.isSome = true := by
  induction ps with
  | nil => exact absurd (fun p hp => absurd hp List.not_mem_nil) h
  | cons p ps ih =>
    cases ps with
    | nil => exact absurd (fun p hp => absurd hp List.not_mem_nil) h
    | cons p' ps =>
      cases hvalue : p.value with
      | none => exact ⟨[], p, p', ps, rfl, hvalue, fun _ hp => absurd hp List.not_mem_nil⟩
      | some v =>
        have hrest : ¬ ∀ p'' ∈ (p' :: ps).dropLast, p''.value.isSome = true := by
          intro hall
          apply h
          intro p'' hp''
          cases List.mem_cons.mp hp'' with
          | inl heq =>
            rw [heq, hvalue]
            rfl
          | inr hmem => exact hall p'' hmem
        obtain ⟨front, m, m', back, hps, hm, hfront⟩ := ih hrest
        refine ⟨p :: front, m, m', back, by rw [hps]; rfl, hm, ?_⟩
        intro p'' hp''
        cases List.mem_cons.mp hp'' with
        | inl heq =>
          rw [heq, hvalue]
          rfl
        | inr hmem => exact hfront p'' hmem

/-- The pairs of parameters with values, and of what is behind them. -/
theorem pairs_append {front back : List Param} (hback : back ≠ [])
    (h : ∀ p ∈ front, p.value.isSome = true) :
    pairs (parts (front ++ back)) = front.map (fun p => (p.key, p.own)) ++ pairs (parts back) := by
  induction front with
  | nil => rfl
  | cons p front ih =>
    have hrest := ih fun p' hp' => h p' (List.mem_cons_of_mem p hp')
    obtain ⟨v, hv⟩ := Option.isSome_iff_exists.mp (h p List.mem_cons_self)
    have hown : p.own = v := by rw [Param.own, hv, Option.getD_some]
    have hne : front ++ back ≠ [] := List.append_ne_nil_of_right_ne_nil front hback
    rw [List.cons_append, parts, hv]
    · dsimp only
      rw [pairs_cons, hrest, List.map_cons, hown, List.cons_append]
    · exact hne

/-- A parameter without `=` gets the next key as its value, and what is left of the others has fewer
keys than they have. -/
theorem parts_missing {p p' : Param} {back : List Param} (hp : p.value = none) :
    ∃ rest, pairs (parts (p :: p' :: back)) = (p.key, p'.key) :: pairs rest ∧
      (pairs rest).length ≤ (p' :: back).length := by
  have hmissing : parts (p :: p' :: back) = p.key :: parts (p' :: back) := by
    rw [parts, hp]
    exact List.cons_ne_nil p' back
  have hlength := length_parts (p' :: back)
  have hfirst : ∃ rest, parts (p' :: back) = p'.key :: rest := by
    cases back with
    | nil =>
      rw [parts]
      cases p'.value with
      | none => exact ⟨[], rfl⟩
      | some v =>
        dsimp only
        split
        · exact ⟨[], rfl⟩
        · exact ⟨[v], rfl⟩
    | cons p'' back =>
      rw [parts]
      · cases p'.value with
        | none => exact ⟨_, rfl⟩
        | some v => exact ⟨_, rfl⟩
      · exact List.cons_ne_nil p'' back
  obtain ⟨rest, hrest⟩ := hfirst
  refine ⟨rest, by rw [hmissing, hrest, pairs_cons], ?_⟩
  rw [hrest, List.length_cons] at hlength
  rw [length_pairs]
  omega

/-! ## Each key and its own value -/

theorem storesOwn_of_paired {q : Query} (h : Paired q) : StoresOwn q := by
  intro p hp
  rw [get?_srsParseQueryString, splitBy_joined h.values, pairs_parts h.equals]
  apply lastFor_of_mem
  · rw [List.map_map]
    exact q.distinct
  · exact List.mem_map_of_mem hp

theorem paired_of_storesOwn {q : Query} (h : StoresOwn q) : Paired q := by
  have hvalues : ∀ p ∈ q.params, ∀ c ∈ p.own, isSeparator c = false :=
    fun p hp => plain_of_stored (h p hp)
  refine ⟨hvalues, ?_⟩
  by_contra hmissing
  obtain ⟨front, p, p', back, hparams, hp, hfront⟩ := exists_missing hmissing
  have hdistinct := q.distinct
  rw [hparams, List.map_append, List.map_cons] at hdistinct
  obtain ⟨rest, hpairs, hlength⟩ := @parts_missing p p' back hp
  have hall : ∀ k, (srsParseQueryString (joined q.params)).get? k =
      (lastFor k ((p.key, p'.key) :: pairs rest)).or
        (lastFor k (front.map fun p => (p.key, p.own))) := by
    intro k
    rw [get?_srsParseQueryString, splitBy_joined hvalues, hparams,
      pairs_append (List.cons_ne_nil _ _) hfront, hpairs, lastFor_append]
  obtain ⟨hback, hbefore⟩ := (List.nodup_append.mp hdistinct).2
  rw [List.nodup_cons] at hback
  -- the keys behind `p` are all stored behind `p`
  have hsubset : (p' :: back).map Param.key ⊆ (pairs rest).map Prod.fst := by
    intro k hk
    obtain ⟨m, hm, rfl⟩ := List.mem_map.mp hk
    have hstored := h m (by rw [hparams]; simp [List.mem_cons.mp hm])
    rw [hall, lastFor] at hstored
    have hnotFront : m.key ∉ (front.map fun p => (p.key, p.own)).map Prod.fst := by
      rw [List.map_map]
      intro hmem
      exact hbefore m.key hmem m.key (List.mem_cons_of_mem _ hk) rfl
    have hne : ¬ p.key = m.key := by
      intro heq
      rw [heq] at hback
      exact hback.1 hk
    rw [lastFor_eq_none hnotFront, Option.or_none, if_neg hne, Option.or_none] at hstored
    exact List.mem_map_of_mem (mem_of_lastFor hstored)
  -- so there is no place for `p` behind it
  have hnot : p.key ∉ (pairs rest).map Prod.fst := by
    intro hmem
    have hnodup : (p.key :: (p' :: back).map Param.key).Nodup := List.nodup_cons.mpr hback
    have hle := hnodup.length_le_of_subset (List.cons_subset.mpr ⟨hmem, hsubset⟩)
    rw [List.length_cons, List.length_map, List.length_map] at hle
    omega
  have hstored := h p (by rw [hparams]; simp)
  rw [hall, lastFor, lastFor_eq_none hnot, Option.none_or, if_pos rfl, Option.some_or] at hstored
  have hown : p.own = [] := by rw [Param.own, hp, Option.getD_none]
  rw [hown] at hstored
  exact p'.key_ne (Option.some.inj hstored)

/-- Each key gets its own value exactly if no value has a separator in it and no parameter but the
last is without `=`. -/
theorem parse_iff (q : Query) : StoresOwn q ↔ Paired q := ⟨paired_of_storesOwn, storesOwn_of_paired⟩

/-- A token in Base64, and another parameter. -/
def tokenParam : Param where
  key := ['t']
  value := some ['a', '=']
  key_ne := by decide
  key_plain := List.forall_mem_singleton.mpr (by decide)
  value_plain := List.forall_mem_cons.mpr ⟨by decide, List.forall_mem_singleton.mpr (by decide)⟩

def otherParam : Param where
  key := ['v']
  value := some ['b']
  key_ne := by decide
  key_plain := List.forall_mem_singleton.mpr (by decide)
  value_plain := List.forall_mem_singleton.mpr (by decide)

theorem token_not_stored : ¬ StoresOwn ⟨[tokenParam, otherParam], by decide⟩ := by
  intro h
  have hstored := plain_of_stored (h tokenParam List.mem_cons_self) '=' (by decide)
  exact absurd hstored (by decide)

end SrsChatRoom.Protocol.QueryString
