import Mathlib.Data.List.Pairwise
import Mathlib.Order.Lattice
import Mathlib.Tactic

/-!
# Sorted maps

A map that is iterated in the order of its keys, each key once. Two maps with the same entries are
equal, so a map that was filled in any order is known by what was put in.
-/

namespace SrsChatRoom

/-- The entries in the order of their keys. -/
structure SortedMap (κ ν : Type*) [LinearOrder κ] where
  entries : List (κ × ν)
  sorted : entries.Pairwise fun a b => a.1 < b.1

namespace SortedMap

variable {κ ν : Type*} [LinearOrder κ]

def empty : SortedMap κ ν := ⟨[], List.Pairwise.nil⟩

/-- The values in the order of their keys. -/
def values (m : SortedMap κ ν) : List ν := m.entries.map Prod.snd

/-- `m[k] = v` -/
def assign (m : SortedMap κ ν) (k : κ) (v : ν) : SortedMap κ ν where
  entries := m.entries.filter (fun e => e.1 < k) ++ (k, v) :: m.entries.filter (fun e => k < e.1)
  sorted := by
    rw [List.pairwise_append, List.pairwise_cons]
    refine ⟨m.sorted.filter _, ⟨?_, m.sorted.filter _⟩, ?_⟩
    · intro e he
      simpa using (List.mem_filter.mp he).2
    · intro a ha b hb
      have hbefore : a.1 < k := by simpa using (List.mem_filter.mp ha).2
      cases List.mem_cons.mp hb with
      | inl heq => rwa [heq]
      | inr hmem =>
        have hbehind : k < b.1 := by simpa using (List.mem_filter.mp hmem).2
        exact hbefore.trans hbehind

variable {m : SortedMap κ ν} {e : κ × ν}

variable {k : κ}

theorem mem_assign {v : ν} : e ∈ (m.assign k v).entries ↔ e = (k, v) ∨ e ∈ m.entries ∧ e.1 ≠ k := by
  unfold assign
  simp only [List.mem_append, List.mem_cons, List.mem_filter, decide_eq_true_eq]
  constructor
  · rintro (⟨hmem, hlt⟩ | rfl | ⟨hmem, hgt⟩)
    · exact .inr ⟨hmem, hlt.ne⟩
    · exact .inl rfl
    · exact .inr ⟨hmem, hgt.ne'⟩
  · rintro (rfl | ⟨hmem, hne⟩)
    · exact .inr (.inl rfl)
    · cases lt_or_gt_of_ne hne with
      | inl hlt => exact .inl ⟨hmem, hlt⟩
      | inr hgt => exact .inr (.inr ⟨hmem, hgt⟩)

/-- Assign entries one after the other. -/
def assignAll (m : SortedMap κ ν) (l : List (κ × ν)) : SortedMap κ ν :=
  l.foldl (fun m e => m.assign e.1 e.2) m

theorem assignAll_append (m : SortedMap κ ν) (a b : List (κ × ν)) :
    m.assignAll (a ++ b) = (m.assignAll a).assignAll b := List.foldl_append

/-- With different keys, all entries are there. -/
theorem mem_assignAll {l : List (κ × ν)} (hl : (l.map Prod.fst).Nodup) :
    e ∈ (m.assignAll l).entries ↔ e ∈ l ∨ e ∈ m.entries ∧ e.1 ∉ l.map Prod.fst := by
  induction l generalizing m with
  | nil => simp [assignAll]
  | cons x l ih =>
    obtain ⟨hx, hrest⟩ := List.nodup_cons.mp hl
    have hcons : m.assignAll (x :: l) = (m.assign x.1 x.2).assignAll l := rfl
    rw [hcons, ih hrest, mem_assign, List.mem_cons, List.map_cons, List.mem_cons]
    constructor
    · rintro (hmem | ⟨rfl | ⟨hmem, hne⟩, hnot⟩)
      · exact .inl (.inr hmem)
      · exact .inl (.inl rfl)
      · exact .inr ⟨hmem, fun h => h.elim hne hnot⟩
    · rintro ((rfl | hmem) | ⟨hmem, hnot⟩)
      · exact .inr ⟨.inl rfl, hx⟩
      · exact .inl hmem
      · exact .inr ⟨.inr ⟨hmem, fun h => hnot (.inl h)⟩, fun h => hnot (.inr h)⟩

theorem nodup_of_sorted {α : Type*} {key : α → κ} {a : List α}
    (h : a.Pairwise fun x y => key x < key y) : a.Nodup := by
  unfold List.Nodup
  apply h.imp
  intro x y hlt heq
  rw [heq] at hlt
  exact lt_irrefl _ hlt

/-- Lists in the order of a key are equal when they have the same members. -/
theorem eq_of_mem_iff {α : Type*} {key : α → κ} {a b : List α}
    (ha : a.Pairwise fun x y => key x < key y) (hb : b.Pairwise fun x y => key x < key y)
    (h : ∀ x, x ∈ a ↔ x ∈ b) : a = b := by
  have hperm : a.Perm b :=
    (List.perm_ext_iff_of_nodup (nodup_of_sorted ha) (nodup_of_sorted hb)).mpr h
  refine hperm.eq_of_pairwise ?_ ha hb
  intro x y _ _ hxy hyx
  exact absurd (hxy.trans hyx) (lt_irrefl _)

theorem nodup_keys (m : SortedMap κ ν) : (m.entries.map Prod.fst).Nodup := by
  rw [List.nodup_iff_pairwise_ne, List.pairwise_map]
  exact m.sorted.imp fun h => ne_of_lt h

/-- The entries of a map give the map again. -/
theorem assignAll_entries (m : SortedMap κ ν) : (empty : SortedMap κ ν).assignAll m.entries = m := by
  have hentries : (empty.assignAll m.entries).entries = m.entries := by
    apply eq_of_mem_iff (SortedMap.sorted _) m.sorted
    intro e
    rw [mem_assignAll m.nodup_keys]
    simp [empty]
  cases hm : empty.assignAll m.entries
  rw [hm] at hentries
  cases m
  congr

/-! ## Looking up -/

/-- `m.find(k)` -/
def get? (m : SortedMap κ ν) (k : κ) : Option ν :=
  (m.entries.find? fun e => e.1 = k).map Prod.snd

theorem get?_eq_some_iff {v : ν} : m.get? k = some v ↔ (k, v) ∈ m.entries := by
  rw [get?, Option.map_eq_some_iff]
  constructor
  · rintro ⟨⟨k', v'⟩, hfind, rfl⟩
    have hkey : k' = k := by simpa using List.find?_some hfind
    rw [← hkey]
    exact List.mem_of_find?_eq_some hfind
  · intro hmem
    cases hfind : m.entries.find? fun e => e.1 = k with
    | none =>
      have hnone := List.find?_eq_none.mp hfind (k, v) hmem
      simp at hnone
    | some e =>
      have hkey : e.1 = k := by simpa using List.find?_some hfind
      have hsame : e = (k, v) := by
        have hinj := List.inj_on_of_nodup_map m.nodup_keys
        exact hinj (List.mem_of_find?_eq_some hfind) hmem hkey
      rw [hsame]
      exact ⟨(k, v), rfl, rfl⟩

theorem get?_eq_none_iff : m.get? k = none ↔ ∀ e ∈ m.entries, e.1 ≠ k := by
  rw [get?, Option.map_eq_none_iff, List.find?_eq_none]
  simp

/-- An entry under a new key joins the others. -/
theorem assign_perm (v : ν) (hfree : m.get? k = none) :
    (m.assign k v).entries.Perm ((k, v) :: m.entries) := by
  have hnew := get?_eq_none_iff.mp hfree
  have hnodup : ((k, v) :: m.entries).Nodup := by
    apply List.nodup_cons.mpr
    exact ⟨fun hmem => hnew _ hmem rfl, nodup_of_sorted m.sorted⟩
  apply (List.perm_ext_iff_of_nodup (nodup_of_sorted (m.assign k v).sorted) hnodup).mpr
  intro e
  rw [mem_assign, List.mem_cons]
  apply or_congr_right
  exact ⟨fun h => h.1, fun h => ⟨h, hnew e h⟩⟩

/-- An entry under a key that is there takes the place of the other. -/
theorem length_assign_of_taken {v w : ν} (htaken : m.get? k = some w) :
    (m.assign k v).entries.length = m.entries.length := by
  have hthere : (k, w) ∈ m.entries := get?_eq_some_iff.mp htaken
  have hkeys : ((m.assign k v).entries.map Prod.fst).Perm (m.entries.map Prod.fst) := by
    apply (List.perm_ext_iff_of_nodup (nodup_keys _) m.nodup_keys).mpr
    intro k'
    rw [List.mem_map, List.mem_map]
    constructor
    · intro h
      obtain ⟨e, he, hkey⟩ := h
      cases mem_assign.mp he with
      | inl heq => exact ⟨(k, w), hthere, by rw [← hkey, heq]⟩
      | inr hmem => exact ⟨e, hmem.1, hkey⟩
    · intro h
      obtain ⟨e, he, hkey⟩ := h
      by_cases hsame : e.1 = k
      · exact ⟨(k, v), mem_assign.mpr (.inl rfl), by rw [← hkey, hsame]⟩
      · exact ⟨e, mem_assign.mpr (.inr ⟨he, hsame⟩), hkey⟩
  have hlength := hkeys.length_eq
  rwa [List.length_map, List.length_map] at hlength

/-- The first entry, and the map without it: `erase(begin())`. -/
def popFirst (m : SortedMap κ ν) : Option ((κ × ν) × SortedMap κ ν) :=
  match h : m.entries with
  | [] => none
  | e :: rest => some (e, ⟨rest, (List.pairwise_cons.mp (h ▸ m.sorted)).2⟩)

theorem popFirst_eq_none_iff : m.popFirst = none ↔ m.entries = [] := by
  unfold popFirst
  split
  · next h => exact iff_of_true rfl h
  · next h => exact iff_of_false (Option.some_ne_none _) (by rw [h]; exact List.cons_ne_nil _ _)

theorem entries_of_popFirst {m' : SortedMap κ ν} (h : m.popFirst = some (e, m')) :
    m.entries = e :: m'.entries := by
  unfold popFirst at h
  split at h
  · cases h
  · next hentries =>
    cases h
    exact hentries

/-- What leaves first has the least key. -/
theorem lt_of_popFirst {m' : SortedMap κ ν} (h : m.popFirst = some (e, m')) :
    ∀ e' ∈ m'.entries, e.1 < e'.1 := by
  have hsorted := m.sorted
  rw [entries_of_popFirst h] at hsorted
  exact (List.pairwise_cons.mp hsorted).1

end SortedMap

end SrsChatRoom
