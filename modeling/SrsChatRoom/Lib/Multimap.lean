import Mathlib.Data.List.Pairwise
import Mathlib.Tactic

/-!
# Sorted multimaps

A map that is iterated in the order of its keys, where a key may come several times. A new entry
goes behind the entries with the same key, so entries that arrive in the order of their keys keep
their own order, whatever else is inserted between them (`filter_insert_of_last`).
-/

namespace SrsChatRoom

/-- The entries in the order of their keys. -/
structure Multimap (κ ν : Type*) [LinearOrder κ] where
  entries : List (κ × ν)
  sorted : entries.Pairwise fun a b => a.1 ≤ b.1

namespace Multimap

variable {κ ν : Type*} [LinearOrder κ]

def empty : Multimap κ ν := ⟨[], List.Pairwise.nil⟩

/-- `insert(make_pair(k, v))` -/
def insert (m : Multimap κ ν) (k : κ) (v : ν) : Multimap κ ν where
  entries := m.entries.filter (fun e => e.1 ≤ k) ++ (k, v) :: m.entries.filter (fun e => k < e.1)
  sorted := by
    rw [List.pairwise_append, List.pairwise_cons]
    apply And.intro (m.sorted.filter _)
    apply And.intro
    · apply And.intro _ (m.sorted.filter _)
      intro e he
      exact (of_decide_eq_true (List.mem_filter.mp he).2).le
    · intro a ha b hb
      have hbefore : a.1 ≤ k := of_decide_eq_true (List.mem_filter.mp ha).2
      cases List.mem_cons.mp hb with
      | inl heq => rwa [heq]
      | inr hmem =>
        have hbehind : k < b.1 := of_decide_eq_true (List.mem_filter.mp hmem).2
        exact hbefore.trans hbehind.le

/-- The first entry, and the map without it: `erase(begin())`. -/
def popFirst (m : Multimap κ ν) : Option ((κ × ν) × Multimap κ ν) :=
  match h : m.entries with
  | [] => none
  | e :: rest => some (e, ⟨rest, (List.pairwise_cons.mp (h ▸ m.sorted)).2⟩)

variable {m : Multimap κ ν}

theorem popFirst_eq_none_iff : m.popFirst = none ↔ m.entries = [] := by
  unfold popFirst
  split
  · next h => exact iff_of_true rfl h
  · next h => exact iff_of_false (Option.some_ne_none _) (by rw [h]; exact List.cons_ne_nil _ _)

variable {e : κ × ν}

theorem entries_of_popFirst {m' : Multimap κ ν} (h : m.popFirst = some (e, m')) :
    m.entries = e :: m'.entries := by
  unfold popFirst at h
  split at h
  · cases h
  · next hentries =>
    cases h
    exact hentries

/-- What leaves first has the least key. -/
theorem le_of_popFirst {m' : Multimap κ ν} (h : m.popFirst = some (e, m')) :
    ∀ e' ∈ m.entries, e.1 ≤ e'.1 := by
  have hsorted := m.sorted
  rw [entries_of_popFirst h] at hsorted ⊢
  intro e' he'
  cases List.mem_cons.mp he' with
  | inl heq => rw [heq]
  | inr hmem => exact (List.pairwise_cons.mp hsorted).1 e' hmem

/-- A sorted list is what is up to a key and what is behind it. -/
theorem filter_le_append_lt {l : List (κ × ν)} (hsorted : l.Pairwise fun a b => a.1 ≤ b.1)
    (k : κ) : l.filter (fun e => e.1 ≤ k) ++ l.filter (fun e => k < e.1) = l := by
  induction l with
  | nil => rfl
  | cons e l ih =>
    have hhead := (List.pairwise_cons.mp hsorted).1
    have hrest := ih (List.pairwise_cons.mp hsorted).2
    by_cases hle : e.1 ≤ k
    · rw [List.filter_cons_of_pos (by rwa [decide_eq_true_eq])]
      rw [List.filter_cons_of_neg (by rw [decide_eq_true_eq]; exact not_lt_of_ge hle)]
      rw [List.cons_append, hrest]
    · -- everything behind this entry is behind the key too
      have hnone : l.filter (fun e => e.1 ≤ k) = [] := by
        rw [List.filter_eq_nil_iff]
        intro e' he'
        rw [decide_eq_true_eq, not_le]
        exact (lt_of_not_ge hle).trans_le (hhead e' he')
      rw [hnone, List.nil_append] at hrest
      rw [List.filter_cons_of_neg (by rwa [decide_eq_true_eq]), hnone, List.nil_append]
      rw [List.filter_cons_of_pos (by rw [decide_eq_true_eq]; exact lt_of_not_ge hle), hrest]

theorem insert_perm (m : Multimap κ ν) (k : κ) (v : ν) :
    (m.insert k v).entries.Perm ((k, v) :: m.entries) := by
  have hsplit := filter_le_append_lt m.sorted k
  have hmiddle : (m.insert k v).entries.Perm ((k, v) :: (m.entries.filter (fun e => e.1 ≤ k) ++
      m.entries.filter (fun e => k < e.1))) := List.perm_middle
  rwa [hsplit] at hmiddle

theorem mem_insert {k : κ} {v : ν} : e ∈ (m.insert k v).entries ↔ e = (k, v) ∨ e ∈ m.entries := by
  rw [(insert_perm m k v).mem_iff, List.mem_cons]

theorem filter_insert (m : Multimap κ ν) (k : κ) (v : ν) (p : κ × ν → Bool) :
    (m.insert k v).entries.filter p = (m.entries.filter (fun e => e.1 ≤ k)).filter p ++
      ((k, v) :: m.entries.filter (fun e => k < e.1)).filter p := List.filter_append _ _

variable {p : κ × ν → Bool}

/-- The entries of another kind stay as they are. -/
theorem filter_insert_of_neg {k : κ} {v : ν}
    (hp : ¬p (k, v) = true) : (m.insert k v).entries.filter p = m.entries.filter p := by
  rw [filter_insert, List.filter_cons_of_neg hp, ← List.filter_append, filter_le_append_lt m.sorted]

/-- An entry that is not before those of its kind is behind them. -/
theorem filter_insert_of_last {k : κ} {v : ν}
    (hp : p (k, v) = true) (hlast : ∀ e ∈ m.entries, p e = true → e.1 ≤ k) :
    (m.insert k v).entries.filter p = m.entries.filter p ++ [(k, v)] := by
  have hnone : (m.entries.filter (fun e => k < e.1)).filter p = [] := by
    rw [List.filter_eq_nil_iff]
    intro e he hpe
    have hgt : k < e.1 := of_decide_eq_true (List.mem_filter.mp he).2
    exact absurd (hlast e (List.mem_filter.mp he).1 hpe) (not_le_of_gt hgt)
  have hall : (m.entries.filter (fun e => e.1 ≤ k)).filter p = m.entries.filter p := by
    have hsplit := congrArg (List.filter p) (filter_le_append_lt m.sorted k)
    rwa [List.filter_append, hnone, List.append_nil] at hsplit
  rw [filter_insert, List.filter_cons_of_pos hp, hnone, hall]

end Multimap

end SrsChatRoom
