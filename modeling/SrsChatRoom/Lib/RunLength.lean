import Mathlib.Tactic

/-!
# Run lengths

A table of runs stands for a list of values. A reader asks for the values one after the other; it
keeps the run it is at, and the number of values up to the end of this run.
-/

namespace SrsChatRoom.RunLength

variable {α : Type*}

/-- So many values that are the same. -/
structure Run (α : Type*) where
  count : ℕ
  value : α
deriving DecidableEq, Repr

/-- The values of the runs. -/
def expand (runs : List (Run α)) : List α := runs.flatMap fun r => List.replicate r.count r.value

@[simp] theorem expand_nil : expand ([] : List (Run α)) = [] := rfl

@[simp] theorem expand_cons (r : Run α) (runs : List (Run α)) :
    expand (r :: runs) = List.replicate r.count r.value ++ expand runs := by
  simp [expand]

@[simp] theorem expand_append (a b : List (Run α)) : expand (a ++ b) = expand a ++ expand b := by
  simp [expand]

/-- The number of values in front of a run. -/
def before (runs : List (Run α)) (i : ℕ) : ℕ := (expand (runs.take i)).length

variable {runs : List (Run α)}

theorem before_succ {i : ℕ} {r : Run α} (hr : runs[i]? = some r) :
    before runs (i + 1) = before runs i + r.count := by
  unfold before
  rw [List.take_add_one, hr]
  simp

/-- The values of a run are behind those in front of it. -/
theorem expand_getElem {i : ℕ} {r : Run α} (hr : runs[i]? = some r)
    {k : ℕ} (hlow : before runs i ≤ k) (hhigh : k < before runs (i + 1)) :
    (expand runs)[k]? = some r.value := by
  have hi : i < runs.length := (List.getElem?_eq_some_iff.mp hr).1
  have hsplit : runs = runs.take i ++ r :: runs.drop (i + 1) := by
    have hget : runs[i] = r := (List.getElem?_eq_some_iff.mp hr).2
    rw [← hget, ← List.drop_eq_getElem_cons hi, List.take_append_drop]
  rw [before_succ hr] at hhigh
  unfold before at hlow hhigh
  rw [hsplit, expand_append, List.getElem?_append_right hlow, expand_cons,
    List.getElem?_append_left (by rw [List.length_replicate]; omega),
    List.getElem?_replicate_of_lt (by omega)]

theorem before_mono (runs : List (Run α)) {i j : ℕ} (h : i ≤ j) :
    before runs i ≤ before runs j := by
  unfold before expand
  rw [List.length_flatMap, List.length_flatMap]
  have htake : runs.take i = (runs.take j).take i := by
    rw [List.take_take, Nat.min_eq_left h]
  rw [htake]
  exact List.Sublist.sum_le_sum ((List.take_sublist i _).map _) fun _ _ => Nat.zero_le _

theorem before_length (runs : List (Run α)) : before runs runs.length = (expand runs).length := by
  rw [before, List.take_length]

/-! ## Reading -/

/-- A reader: the run it is at, and the number of values up to the end of this run. -/
structure Cursor where
  index : ℕ
  count : ℕ
deriving DecidableEq, Repr

/-- The reader is in front of value `k`, or behind the last value of its run. -/
structure Cursor.At (runs : List (Run α)) (c : Cursor) (k : ℕ) : Prop where
  index : c.index < runs.length
  count : c.count = before runs (c.index + 1)
  low : before runs c.index ≤ k
  high : k ≤ c.count

namespace Cursor.At

variable {runs : List (Run α)} {c : Cursor} {k : ℕ}

theorem first {r : Run α} {runs : List (Run α)} : Cursor.At (r :: runs) ⟨0, r.count⟩ 0 := by
  refine ⟨Nat.zero_lt_succ _, ?_, Nat.le_refl _, Nat.zero_le _⟩
  rw [before_succ rfl]
  exact (Nat.zero_add _).symm

/-- The value is in the run. -/
theorem value (h : Cursor.At runs c k) (hk : k < c.count) {r : Run α}
    (hr : runs[c.index]? = some r) : (expand runs)[k]? = some r.value :=
  expand_getElem hr h.low (h.count ▸ hk)

theorem advance (h : Cursor.At runs c k) (hk : k < c.count) : Cursor.At runs c (k + 1) :=
  ⟨h.index, h.count, h.low.trans (Nat.le_succ k), hk⟩

/-- The run is at its end, and the value is in the next one. -/
theorem next (h : Cursor.At runs c k) (hk : k = c.count) (hmore : k < (expand runs).length)
    (hpos : ∀ r ∈ runs, 0 < r.count) : ∃ r, runs[c.index + 1]? = some r ∧
      k < c.count + r.count ∧ Cursor.At runs ⟨c.index + 1, c.count + r.count⟩ k := by
  have hindex : c.index + 1 < runs.length := by
    by_contra hlast
    have hend : c.index + 1 = runs.length := by
      have hlt := h.index
      omega
    rw [← before_length, ← hend, ← h.count] at hmore
    omega
  have hr : runs[c.index + 1]? = some runs[c.index + 1] := List.getElem?_eq_getElem hindex
  refine ⟨runs[c.index + 1], hr, ?_, hindex, ?_, ?_, ?_⟩
  · have hcount := hpos _ (List.getElem_mem hindex)
    omega
  · show c.count + _ = before runs (c.index + 1 + 1)
    rw [before_succ hr, h.count]
  · show before runs (c.index + 1) ≤ k
    rw [← h.count, hk]
  · show k ≤ c.count + _
    omega

end Cursor.At

/-- A run up to a value has no more values than all runs. -/
theorem Cursor.At.count_le {c : Cursor} {k : ℕ} (h : Cursor.At runs c k) :
    c.count ≤ (expand runs).length := by
  rw [h.count, ← before_length]
  exact before_mono runs h.index

end SrsChatRoom.RunLength
