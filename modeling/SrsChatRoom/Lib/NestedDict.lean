import SrsChatRoom.Lib.Dict

/-!
# Dictionaries of dictionaries of dictionaries

A table over three keys, kept as dictionaries within dictionaries: an entry is put by making the
inner dictionaries that are missing, and deleted together with the inner dictionaries that have
become empty. `at?` is the only observation, and every operation comes with its value after it.
-/

namespace SrsChatRoom

/-- `{k: {i: {j: v}}}` -/
structure NestedDict (κ ι μ ν : Type*) where
  rows : Dict κ (Dict ι (Dict μ ν))

namespace Dict

variable {κ ι ν : Type*} [DecidableEq κ]

/-- Put an inner dictionary, or nothing where it is empty. -/
def setOrErase (d : Dict κ (Dict ι ν)) (k : κ) (e : Dict ι ν) : Dict κ (Dict ι ν) :=
  if e.size = 0 then d.erase k else d.set k e

/-- What is found through an inner dictionary that is made where it is missing. -/
theorem bind_getD_empty {β : Type*} (o : Option (Dict ι ν)) {f : Dict ι ν → Option β}
    (hf : f Dict.empty = none) : f (o.getD Dict.empty) = o.bind f := by
  cases o with
  | none => exact hf
  | some d => rfl

/-- What is found through an inner dictionary that was put or, being empty, removed. -/
theorem bind_get?_setOrErase [DecidableEq ι] {β : Type*} (d : Dict κ (Dict ι ν)) (k k' : κ)
    (e : Dict ι ν) {f : Dict ι ν → Option β} (hf : e.size = 0 → f e = none) :
    ((d.setOrErase k e).get? k').bind f = if k = k' then f e else (d.get? k').bind f := by
  unfold setOrErase
  by_cases hsize : e.size = 0
  · rw [if_pos hsize, get?_erase]
    by_cases hk : k = k'
    · rw [if_pos hk, if_pos hk, hf hsize]
      rfl
    · rw [if_neg hk, if_neg hk]
  · rw [if_neg hsize, get?_set]
    by_cases hk : k = k'
    · rw [if_pos hk, if_pos hk, Option.bind_some]
    · rw [if_neg hk, if_neg hk]

end Dict

namespace NestedDict

variable {κ ι μ ν : Type*} [DecidableEq κ] [DecidableEq ι] [DecidableEq μ]

/-- The table without entries. -/
def empty : NestedDict κ ι μ ν := ⟨Dict.empty⟩

/-- The entries under the first two keys. -/
def row (d : NestedDict κ ι μ ν) (k : κ) (i : ι) : Option (Dict μ ν) :=
  (d.rows.get? k).bind fun e => e.get? i

/-- The entry under three keys. -/
def at? (d : NestedDict κ ι μ ν) (k : κ) (i : ι) (j : μ) : Option ν :=
  (d.rows.get? k).bind fun e => (e.get? i).bind fun f => f.get? j

/-- `d.setdefault(k, {}).setdefault(i, {})[j] = v` -/
def put (d : NestedDict κ ι μ ν) (k : κ) (i : ι) (j : μ) (v : ν) : NestedDict κ ι μ ν :=
  let e := (d.rows.get? k).getD Dict.empty
  let f := (e.get? i).getD Dict.empty
  ⟨d.rows.set k (e.set i (f.set j v))⟩

/-- `del d[k][i][j]`, then `del d[k][i]` and `del d[k]` as far as they are empty; `none` where the
first raises a `KeyError`. -/
def del (d : NestedDict κ ι μ ν) (k : κ) (i : ι) (j : μ) : Option (NestedDict κ ι μ ν) :=
  match d.rows.get? k with
  | none => none
  | some e =>
    match e.get? i with
    | none => none
    | some f =>
      if f.contains j then some ⟨d.rows.setOrErase k (e.setOrErase i (f.erase j))⟩ else none

/-- An entry is one of its row. -/
theorem at?_eq_row (d : NestedDict κ ι μ ν) (k : κ) (i : ι) (j : μ) :
    d.at? k i j = (d.row k i).bind fun f => f.get? j := by
  rw [at?, row, Option.bind_assoc]

theorem at?_put (d : NestedDict κ ι μ ν) (k k' : κ) (i i' : ι) (j j' : μ) (v : ν) :
    (d.put k i j v).at? k' i' j' =
      if k = k' ∧ i = i' ∧ j = j' then some v else d.at? k' i' j' := by
  unfold at? put
  have hrow : ((((d.rows.get? k).getD Dict.empty).get? i).getD Dict.empty).get? j' =
      (((d.rows.get? k).getD Dict.empty).get? i).bind fun f => f.get? j' :=
    Dict.bind_getD_empty (((d.rows.get? k).getD Dict.empty).get? i) (f := fun f => f.get? j') rfl
  have hrows : ∀ i₁, (((d.rows.get? k).getD Dict.empty).get? i₁).bind (fun f => f.get? j') =
      (d.rows.get? k).bind fun e => (e.get? i₁).bind fun f => f.get? j' := by
    intro i₁
    exact Dict.bind_getD_empty (d.rows.get? k)
      (f := fun e : Dict ι (Dict μ ν) => (e.get? i₁).bind fun f => f.get? j') rfl
  rw [Dict.get?_set]
  by_cases hk : k = k'
  · rw [if_pos hk, Option.bind_some, Dict.get?_set]
    by_cases hi : i = i'
    · rw [if_pos hi, Option.bind_some, Dict.get?_set]
      by_cases hj : j = j'
      · rw [if_pos hj, if_pos ⟨hk, hi, hj⟩]
      · rw [if_neg hj, if_neg (fun hand => hj hand.2.2), hrow, hrows, hk, hi]
    · rw [if_neg hi, if_neg (fun hand => hi hand.2.1), hrows, hk]
  · rw [if_neg hk, if_neg (fun hand => hk hand.1)]

/-- A deletion succeeds exactly where there is an entry. -/
theorem del_isSome (d : NestedDict κ ι μ ν) (k : κ) (i : ι) (j : μ) :
    (d.del k i j).isSome = (d.at? k i j).isSome := by
  unfold del at?
  cases d.rows.get? k with
  | none => rfl
  | some e =>
    rw [Option.bind_some]
    cases he : e.get? i with
    | none => simp only [he, Option.isSome_none, Option.bind_none]
    | some f =>
      simp only [he, Option.bind_some]
      show _ = f.contains j
      split
      · next hmem => rw [hmem, Option.isSome_some]
      · next hmem => rw [Bool.eq_false_iff.mpr hmem, Option.isSome_none]

theorem at?_del {d d' : NestedDict κ ι μ ν} {k : κ} {i : ι} {j : μ} (h : d.del k i j = some d')
    (k' : κ) (i' : ι) (j' : μ) :
    d'.at? k' i' j' = if k = k' ∧ i = i' ∧ j = j' then none else d.at? k' i' j' := by
  unfold del at h
  split at h
  · cases h
  next e he =>
  split at h
  · cases h
  next f hf =>
  split at h
  · cases h
    have hrow : ((e.setOrErase i (f.erase j)).get? i').bind (fun f => f.get? j') =
        if i = i' then (f.erase j).get? j' else (e.get? i').bind fun f => f.get? j' := by
      apply Dict.bind_get?_setOrErase
      exact fun hsize => (Dict.size_eq_zero_iff _).mp hsize j'
    have hrows : ((d.rows.setOrErase k (e.setOrErase i (f.erase j))).get? k').bind
        (fun e => (e.get? i').bind fun f => f.get? j') =
        if k = k' then ((e.setOrErase i (f.erase j)).get? i').bind (fun f => f.get? j')
        else (d.rows.get? k').bind fun e => (e.get? i').bind fun f => f.get? j' := by
      apply Dict.bind_get?_setOrErase
      intro hsize
      rw [(Dict.size_eq_zero_iff _).mp hsize i']
      rfl
    unfold at?
    rw [hrows, hrow, Dict.get?_erase]
    by_cases hk : k = k'
    · rw [if_pos hk, ← hk, he, Option.bind_some]
      by_cases hi : i = i'
      · rw [if_pos hi, ← hi, hf, Option.bind_some]
        by_cases hj : j = j'
        · rw [if_pos hj, if_pos ⟨rfl, rfl, hj⟩]
        · rw [if_neg hj, if_neg (fun hand => hj hand.2.2)]
      · rw [if_neg hi, if_neg (fun hand => hi hand.2.1)]
    · rw [if_neg hk, if_neg (fun hand => hk hand.1)]
  · cases h

end NestedDict
end SrsChatRoom
