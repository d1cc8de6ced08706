import Mathlib.Data.List.Nodup
import Mathlib.Tactic

/-!
# Insertion-ordered dictionaries

The dictionaries of a scripting language: assigning to a key that is present replaces its
value in place, assigning to a new key appends it, and iteration runs in that order. The
keys are distinct by construction (`nodup`), so `get?` is the only observation the lemmas
below need; every operation comes with the value of `get?` after it.
-/

namespace SrsChatRoom

/-- A dictionary: its items in iteration order, no key twice. -/
structure Dict (κ ν : Type*) where
  entries : List (κ × ν)
  nodup : (entries.map Prod.fst).Nodup

namespace Dict

variable {κ ν μ : Type*} [DecidableEq κ]

/-! ## Operations on the item list -/

/-- The value at a key of an item list. -/
def lookup (k : κ) : List (κ × ν) → Option ν
  | [] => none
  | (k', v) :: l => if k' = k then some v else lookup k l

/-- Assign to a key of an item list: in place when present, at the end when not. -/
def assign (k : κ) (v : ν) : List (κ × ν) → List (κ × ν)
  | [] => [(k, v)]
  | (k', v') :: l => if k' = k then (k, v) :: l else (k', v') :: assign k v l

attribute [local simp] lookup assign

theorem lookup_eq_none_iff (k : κ) (l : List (κ × ν)) : lookup k l = none ↔ k ∉ l.map Prod.fst := by
  induction l with
  | nil => simp [lookup]
  | cons e l ih =>
    obtain ⟨k', v⟩ := e
    by_cases h : k' = k
    · simp [lookup, h]
    · simp [lookup, h, ih, Ne.symm h]

variable {l : List (κ × ν)}

theorem lookup_eq_some_iff (hl : (l.map Prod.fst).Nodup) (k : κ) (v : ν) :
    lookup k l = some v ↔ (k, v) ∈ l := by
  induction l with
  | nil => simp [lookup]
  | cons e l ih =>
    obtain ⟨k', v'⟩ := e
    rw [List.map_cons, List.nodup_cons] at hl
    by_cases h : k' = k
    · subst h
      have hnot : (k', v) ∉ l := fun hv => hl.1 (List.mem_map.mpr ⟨(k', v), hv, rfl⟩)
      simp [lookup, hnot, eq_comm]
    · simp [lookup, h, ih hl.2, Ne.symm h]

theorem lookup_assign (k k' : κ) (v : ν) (l : List (κ × ν)) :
    lookup k' (assign k v l) = if k = k' then some v else lookup k' l := by
  induction l with
  | nil => simp [assign, lookup]
  | cons e l ih =>
    obtain ⟨k₀, v₀⟩ := e
    by_cases h : k₀ = k
    · subst h
      by_cases h' : k₀ = k' <;> simp [assign, lookup, h']
    · by_cases h' : k₀ = k'
      · subst h'
        simp [assign, lookup, h, Ne.symm h]
      · simp [assign, lookup, h, h', ih]

theorem mem_keys_assign (k k' : κ) (v : ν) (l : List (κ × ν)) :
    k' ∈ (assign k v l).map Prod.fst ↔ k' = k ∨ k' ∈ l.map Prod.fst := by
  rw [← not_iff_not, not_or, ← lookup_eq_none_iff, ← lookup_eq_none_iff, lookup_assign]
  by_cases h : k = k'
  · simp [h]
  · simp [h, Ne.symm h]

theorem nodup_assign (k : κ) (v : ν) (hl : (l.map Prod.fst).Nodup) :
    ((assign k v l).map Prod.fst).Nodup := by
  induction l with
  | nil => simp [assign]
  | cons e l ih =>
    obtain ⟨k', v'⟩ := e
    rw [List.map_cons, List.nodup_cons] at hl
    by_cases h : k' = k
    · subst h
      simpa [assign] using hl
    · have hk : k' ∉ (assign k v l).map Prod.fst := by
        rw [mem_keys_assign]
        exact fun hor => hor.elim h hl.1
      simpa [assign, h] using And.intro (by simpa using hk) (ih hl.2)

/-! ## Dictionary operations -/

/-- The empty dictionary `{}`. -/
def empty : Dict κ ν := ⟨[], by simp⟩

instance : Inhabited (Dict κ ν) := ⟨empty⟩

/-- `d.get(k)` -/
def get? (d : Dict κ ν) (k : κ) : Option ν := lookup k d.entries

/-- `k in d` -/
def contains (d : Dict κ ν) (k : κ) : Bool := (d.get? k).isSome

/-- `list(d.keys())` -/
def keys (d : Dict κ ν) : List κ := d.entries.map Prod.fst

/-- `len(d)` -/
def size (d : Dict κ ν) : ℕ := d.entries.length

/-- `d[k] = v` -/
def set (d : Dict κ ν) (k : κ) (v : ν) : Dict κ ν :=
  ⟨assign k v d.entries, nodup_assign k v d.nodup⟩

/-- `{k: v for k, v in d.items() if p(k, v)}` -/
def filter (d : Dict κ ν) (p : κ → ν → Bool) : Dict κ ν :=
  ⟨d.entries.filter fun e => p e.1 e.2,
    d.nodup.sublist (List.filter_sublist.map Prod.fst)⟩

/-- `d.pop(k, None)` -/
def erase (d : Dict κ ν) (k : κ) : Dict κ ν := d.filter fun k' _ => k' ≠ k

/-- `{k: f(k, v) for k, v in d.items()}` -/
def mapVal (d : Dict κ ν) (f : κ → ν → μ) : Dict κ μ :=
  ⟨d.entries.map fun e => (e.1, f e.1 e.2), by
    have h : (d.entries.map fun e => (e.1, f e.1 e.2)).map Prod.fst = d.entries.map Prod.fst := by
      simp [List.map_map, Function.comp_def]
    rw [h]
    exact d.nodup⟩

/-- `for k, v in e.items(): d[k] = v` -/
def update (d e : Dict κ ν) : Dict κ ν :=
  e.entries.foldl (fun acc kv => acc.set kv.1 kv.2) d

/-- `d.setdefault(k, v)` for each item of `e`. -/
def updateDefault (d e : Dict κ ν) : Dict κ ν :=
  e.entries.foldl (fun acc kv => if acc.contains kv.1 then acc else acc.set kv.1 kv.2) d

/-! ## `get?` after each operation -/

@[simp] theorem get?_empty (k : κ) : (empty : Dict κ ν).get? k = none := rfl

variable (d : Dict κ ν)

theorem mem_entries_iff (k : κ) (v : ν) :
    (k, v) ∈ d.entries ↔ d.get? k = some v := (lookup_eq_some_iff d.nodup k v).symm

theorem mem_keys_iff (k : κ) : k ∈ d.keys ↔ ∃ v, d.get? k = some v := by
  rw [← not_iff_not, keys, ← lookup_eq_none_iff, Option.eq_none_iff_forall_ne_some]
  simp [get?]

theorem not_mem_keys_iff (k : κ) : k ∉ d.keys ↔ d.get? k = none :=
  (lookup_eq_none_iff k d.entries).symm

theorem contains_iff (k : κ) : d.contains k ↔ k ∈ d.keys := by
  rw [contains, mem_keys_iff, Option.isSome_iff_exists]

theorem get?_set (k k' : κ) (v : ν) :
    (d.set k v).get? k' = if k = k' then some v else d.get? k' := lookup_assign k k' v d.entries

@[simp] theorem get?_set_self (k : κ) (v : ν) : (d.set k v).get? k = some v := by
  rw [get?_set, if_pos rfl]

variable {k : κ}

theorem get?_set_ne {k' : κ} (h : k ≠ k') (v : ν) : (d.set k v).get? k' = d.get? k' := by
  rw [get?_set, if_neg h]

theorem get?_filter (p : κ → ν → Bool) (k : κ) : (d.filter p).get? k = (d.get? k).filter (p k) := by
  apply Option.ext
  intro v
  rw [← mem_entries_iff, Option.filter_eq_some_iff, ← mem_entries_iff]
  simp [filter]

theorem get?_erase (k k' : κ) : (d.erase k).get? k' = if k = k' then none else d.get? k' := by
  rw [erase, get?_filter]
  by_cases h : k = k'
  · subst h
    cases d.get? k <;> simp [Option.filter]
  · cases d.get? k' <;> simp [Option.filter, h, Ne.symm h]

@[simp] theorem get?_mapVal (f : κ → ν → μ) (k : κ) :
    (d.mapVal f).get? k = (d.get? k).map (f k) := by
  apply Option.ext
  intro w
  rw [← mem_entries_iff, Option.map_eq_some_iff]
  simp only [mapVal, List.mem_map, Prod.mk.injEq, Prod.exists]
  constructor
  · rintro ⟨k₀, v, hv, rfl, rfl⟩
    exact ⟨v, (mem_entries_iff d k₀ v).mp hv, rfl⟩
  · rintro ⟨v, hv, rfl⟩
    exact ⟨k, v, (mem_entries_iff d k v).mpr hv, rfl, rfl⟩

/-- Folding assignments over an item list: the list's own items win over the start. -/
private theorem get?_foldl_set (l : List (κ × ν)) (hl : (l.map Prod.fst).Nodup) (d : Dict κ ν)
    (k : κ) :
    (l.foldl (fun acc kv => acc.set kv.1 kv.2) d).get? k = (lookup k l).or (d.get? k) := by
  induction l generalizing d with
  | nil => simp [lookup]
  | cons e l ih =>
    obtain ⟨k', v⟩ := e
    rw [List.map_cons, List.nodup_cons] at hl
    rw [List.foldl_cons, ih hl.2, get?_set]
    by_cases h : k' = k
    · subst h
      simp [lookup, (lookup_eq_none_iff k' l).mpr hl.1]
    · simp [lookup, h]

theorem get?_update (d e : Dict κ ν) (k : κ) :
    (d.update e).get? k = (e.get? k).or (d.get? k) := get?_foldl_set e.entries e.nodup d k

private theorem get?_foldl_setDefault (l : List (κ × ν)) (d : Dict κ ν) (k : κ) :
    (l.foldl (fun acc kv => if acc.contains kv.1 then acc else acc.set kv.1 kv.2) d).get? k
      = (d.get? k).or (lookup k l) := by
  induction l generalizing d with
  | nil => simp [lookup]
  | cons e l ih =>
    obtain ⟨k', v⟩ := e
    rw [List.foldl_cons, ih]
    cases hd : d.get? k' with
    | some w =>
      rw [if_pos (by simp [contains, hd])]
      by_cases h : k' = k
      · subst h
        simp [hd]
      · simp [lookup, h]
    | none =>
      rw [if_neg (by simp [contains, hd]), get?_set]
      by_cases h : k' = k
      · subst h
        simp [lookup, hd]
      · simp [lookup, h]

theorem get?_updateDefault (d e : Dict κ ν) (k : κ) :
    (d.updateDefault e).get? k = (d.get? k).or (e.get? k) := get?_foldl_setDefault e.entries d k

/-- A dictionary of length 0 has no key. -/
theorem size_eq_zero_iff : d.size = 0 ↔ ∀ k, d.get? k = none := by
  rw [size, List.length_eq_zero_iff, List.eq_nil_iff_forall_not_mem]
  constructor
  · intro h k
    rw [Option.eq_none_iff_forall_ne_some]
    intro v hv
    exact h (k, v) ((mem_entries_iff d k v).mpr hv)
  · intro h e he
    have hsome : d.get? e.1 = some e.2 := (mem_entries_iff d e.1 e.2).mp he
    rw [h] at hsome
    cases hsome

/-- Popping a key that is not there changes nothing. -/
theorem erase_eq_self (h : d.get? k = none) : d.erase k = d := by
  have hkeep : ∀ e ∈ d.entries, decide (e.1 ≠ k) = true := by
    intro e he
    rw [decide_eq_true_iff]
    intro hk
    have hsome : d.get? e.1 = some e.2 := (mem_entries_iff d e.1 e.2).mp he
    rw [hk, h] at hsome
    cases hsome
  show (⟨d.entries.filter fun e => e.1 ≠ k, _⟩ : Dict κ ν) = d
  simp only [List.filter_eq_self.mpr hkeep]

/-! ## Keys after each operation -/

theorem mem_keys_set (k k' : κ) (v : ν) :
    k' ∈ (d.set k v).keys ↔ k' = k ∨ k' ∈ d.keys := mem_keys_assign k k' v d.entries

/-- Assigning to a key that is present changes no key. -/
theorem keys_set_of_mem {d : Dict κ ν} (h : k ∈ d.keys) (v : ν) : (d.set k v).keys = d.keys := by
  have hassign : ∀ l : List (κ × ν), k ∈ l.map Prod.fst →
      (assign k v l).map Prod.fst = l.map Prod.fst := by
    intro l hl
    induction l with
    | nil => cases hl
    | cons e l ih =>
      by_cases he : e.1 = k
      · simp [assign, he]
      · have hrest : k ∈ l.map Prod.fst := by
          cases List.mem_cons.mp hl with
          | inl heq => exact absurd heq.symm he
          | inr hmem => exact hmem
        simpa [assign, he] using ih hrest
  exact hassign d.entries h

theorem keys_erase (k : κ) : (d.erase k).keys = d.keys.filter fun k' => k' ≠ k := by
  unfold erase filter keys
  rw [List.filter_map]
  rfl

theorem mem_keys_erase (k k' : κ) : k' ∈ (d.erase k).keys ↔ k' ≠ k ∧ k' ∈ d.keys := by
  rw [mem_keys_iff, mem_keys_iff]
  by_cases h : k = k'
  · subst h
    simp [get?_erase]
  · simp [get?_erase, h, Ne.symm h]

omit [DecidableEq κ] in
/-! ## Counting values -/

/-- How many values satisfy `p`. -/
def count (p : ν → Bool) (d : Dict κ ν) : ℕ := d.entries.countP fun e => p e.2

theorem count_pos_iff (p : ν → Bool) (d : Dict κ ν) :
    0 < d.count p ↔ ∃ k v, d.get? k = some v ∧ p v = true := by
  rw [count, List.countP_pos_iff]
  constructor
  · rintro ⟨⟨k, v⟩, hmem, hp⟩
    exact ⟨k, v, (mem_entries_iff d k v).mp hmem, hp⟩
  · rintro ⟨k, v, hget, hp⟩
    exact ⟨(k, v), (mem_entries_iff d k v).mpr hget, hp⟩

theorem assign_of_lookup_eq_none (h : lookup k l = none) (v : ν) :
    assign k v l = l ++ [(k, v)] := by
  induction l with
  | nil => rfl
  | cons e l ih =>
    obtain ⟨k', v'⟩ := e
    by_cases hk : k' = k
    · simp [lookup, hk] at h
    · rw [lookup, if_neg hk] at h
      rw [assign, if_neg hk, ih h, List.cons_append]

/-- A new key counts if its value does. -/
theorem count_set_new (p : ν → Bool) {d : Dict κ ν} (h : d.get? k = none) (v : ν) :
    (d.set k v).count p = d.count p + if p v then 1 else 0 := by
  have hentries : (d.set k v).entries = d.entries ++ [(k, v)] := assign_of_lookup_eq_none h v
  rw [count, hentries, List.countP_append, List.countP_singleton]
  rfl

theorem countP_filter_key (p : ν → Bool) {v : ν}
    (hl : (l.map Prod.fst).Nodup) (h : lookup k l = some v) :
    (l.filter fun e => decide (e.1 ≠ k)).countP (fun e => p e.2) + (if p v then 1 else 0) =
      l.countP fun e => p e.2 := by
  induction l with
  | nil => cases h
  | cons e l ih =>
    obtain ⟨k', v'⟩ := e
    obtain ⟨hnot, hl⟩ := List.nodup_cons.mp hl
    by_cases hk : k' = k
    · rw [lookup, if_pos hk] at h
      cases h
      have hkeep : l.filter (fun e => decide (e.1 ≠ k)) = l := by
        rw [List.filter_eq_self]
        intro e he
        rw [decide_eq_true_iff]
        intro heq
        exact hnot (List.mem_map.mpr ⟨e, he, heq.trans hk.symm⟩)
      rw [List.filter_cons_of_neg (by simp [hk]), hkeep, List.countP_cons]
    · rw [lookup, if_neg hk] at h
      rw [List.filter_cons_of_pos (by simp [hk]), List.countP_cons, List.countP_cons, ← ih hl h]
      omega

/-- A key that is popped does not count any more. -/
theorem count_erase (p : ν → Bool) {d : Dict κ ν} {v : ν} (h : d.get? k = some v) :
    (d.erase k).count p + (if p v then 1 else 0) = d.count p := countP_filter_key p d.nodup h

end Dict
/-! ## Assignments to a partial function -/

section Assignments

variable {κ ν : Type*} [DecidableEq κ]

/-- The value that the last assignment to `k` gives it. -/
def lastFor (k : κ) : List (κ × ν) → Option ν
  | [] => none
  | e :: l => (lastFor k l).or (if e.1 = k then some e.2 else none)

/-- All assignments, the first of them first. -/
def assignAll (f : κ → Option ν) (l : List (κ × ν)) : κ → Option ν :=
  l.foldl (fun f e => Function.update f e.1 (some e.2)) f

theorem assignAll_apply (f : κ → Option ν) (l : List (κ × ν)) (k : κ) :
    assignAll f l k = (lastFor k l).or (f k) := by
  induction l generalizing f with
  | nil => rfl
  | cons e l ih =>
    show assignAll (Function.update f e.1 (some e.2)) l k = _
    rw [ih, lastFor, Option.or_assoc]
    by_cases hk : e.1 = k
    · subst hk
      rw [Function.update_self, if_pos rfl]
      rfl
    · rw [Function.update_of_ne (Ne.symm hk), if_neg hk]
      rfl

/-- Assignments change nothing where the last of them for each key gives it the value it has. -/
theorem assignAll_eq_self_iff (f : κ → Option ν) (l : List (κ × ν)) :
    assignAll f l = f ↔ ∀ k v, lastFor k l = some v → f k = some v := by
  constructor
  · intro h k v hlast
    have hk := congrFun h k
    rw [assignAll_apply, hlast] at hk
    exact hk.symm
  · intro h
    funext k
    rw [assignAll_apply]
    cases hlast : lastFor k l with
    | none => rfl
    | some v => exact (h k v hlast).symm

theorem lastFor_append (k : κ) (l l' : List (κ × ν)) :
    lastFor k (l ++ l') = (lastFor k l').or (lastFor k l) := by
  induction l with
  | nil => exact (Option.or_none).symm
  | cons e l ih => rw [List.cons_append, lastFor, ih, lastFor, Option.or_assoc]

variable {l : List (κ × ν)}

theorem mem_of_lastFor {k : κ} {v : ν} (h : lastFor k l = some v) : (k, v) ∈ l := by
  induction l with
  | nil => cases h
  | cons e l ih =>
    rw [lastFor] at h
    cases hl : lastFor k l with
    | some v' =>
      rw [hl, Option.some_or] at h
      exact List.mem_cons_of_mem e (ih (hl.trans h))
    | none =>
      rw [hl, Option.none_or] at h
      by_cases hk : e.1 = k
      · rw [if_pos hk] at h
        rw [← hk, ← Option.some.inj h]
        exact List.mem_cons_self
      · rw [if_neg hk] at h
        cases h

theorem lastFor_eq_none {k : κ} (h : k ∉ l.map Prod.fst) : lastFor k l = none := by
  cases hl : lastFor k l with
  | none => rfl
  | some v => exact absurd (List.mem_map_of_mem (mem_of_lastFor hl)) h

/-- With distinct keys every assignment is the last one. -/
theorem lastFor_of_mem {k : κ} {v : ν} (hl : (l.map Prod.fst).Nodup)
    (h : (k, v) ∈ l) : lastFor k l = some v := by
  induction l with
  | nil => exact absurd h List.not_mem_nil
  | cons e l ih =>
    rw [List.map_cons, List.nodup_cons] at hl
    rw [lastFor]
    cases List.mem_cons.mp h with
    | inl heq =>
      rw [← heq] at hl ⊢
      rw [lastFor_eq_none hl.1, Option.none_or, if_pos rfl]
    | inr hmem => rw [ih hl.2 hmem, Option.some_or]

/-- Items that are set one after the other. -/
theorem Dict.get?_foldl (l : List (κ × ν)) (d : Dict κ ν) (k : κ) :
    (l.foldl (fun acc kv => acc.set kv.1 kv.2) d).get? k = (lastFor k l).or (d.get? k) := by
  induction l generalizing d with
  | nil => rfl
  | cons e l ih =>
    rw [List.foldl_cons, ih, lastFor, Option.or_assoc, Dict.get?_set]
    by_cases hk : e.1 = k
    · rw [if_pos hk, if_pos hk, Option.some_or]
    · rw [if_neg hk, if_neg hk, Option.none_or]

end Assignments

end SrsChatRoom
