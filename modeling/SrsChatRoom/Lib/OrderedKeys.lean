import Mathlib.Tactic

/-!
# Sets and maps ordered by a comparison

A set that keeps its keys in the order of `less`, where keys that are neither before nor behind
each other count as the same. A comparison of serial numbers is an order only among numbers that
are near each other: `Ranks` says that on the keys of `W` it is the order of a rank.
-/

namespace SrsChatRoom

variable {α β : Type*}

/-- `insert(k)` -/
def insertKey (less : α → α → Bool) (k : α) : List α → List α
  | [] => [k]
  | x :: keys =>
    if less k x then k :: x :: keys
    else if less x k then x :: insertKey less k keys
    else x :: keys

/-- `map[k] = v` -/
def assignKey (less : α → α → Bool) (k : α) (v : β) : List (α × β) → List (α × β)
  | [] => [(k, v)]
  | x :: entries =>
    if less k x.1 then (k, v) :: x :: entries
    else if less x.1 k then x :: assignKey less k v entries
    else (x.1, v) :: entries

/-- The set after these keys. -/
def insertKeys (less : α → α → Bool) (keys added : List α) : List α :=
  added.foldl (fun keys k => insertKey less k keys) keys

theorem insertKeys_cons (less : α → α → Bool) (keys : List α) (k : α) (added : List α) :
    insertKeys less keys (k :: added) = insertKeys less (insertKey less k keys) added := rfl

/-- A key behind all others goes to the end. -/
theorem insertKey_end {less : α → α → Bool} {k : α} {keys : List α}
    (h : ∀ x ∈ keys, less x k = true ∧ less k x = false) : insertKey less k keys = keys ++ [k] := by
  induction keys with
  | nil => rfl
  | cons x keys ih =>
    obtain ⟨hbehind, hbefore⟩ := h x List.mem_cons_self
    rw [insertKey, if_neg (by rw [hbefore]; decide), if_pos hbehind,
      ih fun y hy => h y (List.mem_cons_of_mem x hy)]
    rfl

/-- On the keys of `W` the comparison is the order of `rank`. -/
structure Ranks (less : α → α → Bool) (rank : α → ℕ) (W : α → Prop) : Prop where
  less_iff : ∀ {a b}, W a → W b → (less a b = true ↔ rank a < rank b)
  inj : ∀ {a b}, W a → W b → rank a = rank b → a = b

section Ranked

variable {less : α → α → Bool} {rank : α → ℕ} {W : α → Prop} {k : α} {keys : List α}

/-- The keys are in order. -/
def Ascending (rank : α → ℕ) (keys : List α) : Prop := keys.Pairwise fun a b => rank a < rank b

theorem mem_insertKey (h : Ranks less rank W) (hk : W k) (hkeys : ∀ x ∈ keys, W x) (y : α) :
    y ∈ insertKey less k keys ↔ y = k ∨ y ∈ keys := by
  induction keys with
  | nil =>
    rw [insertKey, List.mem_singleton]
    simp
  | cons x keys ih =>
    have hx : W x := hkeys x List.mem_cons_self
    rw [insertKey]
    by_cases hbefore : less k x
    · rw [if_pos hbefore, List.mem_cons]
    · rw [if_neg hbefore]
      by_cases hbehind : less x k
      · rw [if_pos hbehind, List.mem_cons, ih fun z hz => hkeys z (List.mem_cons_of_mem x hz),
          List.mem_cons]
        tauto
      · -- neither before nor behind: the key is there
        have heq : k = x := by
          rw [h.less_iff hk hx] at hbefore
          rw [h.less_iff hx hk] at hbehind
          exact h.inj hk hx (by omega)
        rw [if_neg hbehind, List.mem_cons, heq]
        tauto

theorem ascending_insertKey (h : Ranks less rank W) (hk : W k) (hkeys : ∀ x ∈ keys, W x)
    (hsorted : Ascending rank keys) : Ascending rank (insertKey less k keys) := by
  induction keys with
  | nil => exact List.pairwise_singleton _ k
  | cons x keys ih =>
    have hx : W x := hkeys x List.mem_cons_self
    have hrest : ∀ z ∈ keys, W z := fun z hz => hkeys z (List.mem_cons_of_mem x hz)
    obtain ⟨hhead, htail⟩ := List.pairwise_cons.mp hsorted
    rw [insertKey]
    by_cases hbefore : less k x
    · rw [if_pos hbefore]
      rw [h.less_iff hk hx] at hbefore
      apply List.pairwise_cons.mpr
      refine ⟨?_, hsorted⟩
      intro z hz
      cases List.mem_cons.mp hz with
      | inl heq => rwa [heq]
      | inr hmem => exact hbefore.trans (hhead z hmem)
    · rw [if_neg hbefore]
      by_cases hbehind : less x k
      · rw [if_pos hbehind]
        rw [h.less_iff hx hk] at hbehind
        apply List.pairwise_cons.mpr
        refine ⟨?_, ih hrest htail⟩
        intro z hz
        cases (mem_insertKey h hk hrest z).mp hz with
        | inl heq => rwa [heq]
        | inr hmem => exact hhead z hmem
      · rw [if_neg hbehind]
        exact hsorted

/-- All keys are in the set, in order. -/
theorem insertKeys_spec (keys : List α) (h : Ranks less rank W) (added : List α) (hadded : ∀ x ∈ added, W x)
    (hkeys : ∀ x ∈ keys, W x) (hsorted : Ascending rank keys) :
    Ascending rank (insertKeys less keys added) ∧
      ∀ y, y ∈ insertKeys less keys added ↔ y ∈ added ∨ y ∈ keys := by
  induction added generalizing keys with
  | nil => exact ⟨hsorted, fun y => by simp [insertKeys]⟩
  | cons k added ih =>
    have hk : W k := hadded k List.mem_cons_self
    have hmem := mem_insertKey h hk hkeys
    have hinside : ∀ x ∈ insertKey less k keys, W x := by
      intro x hx
      cases (hmem x).mp hx with
      | inl heq => rwa [heq]
      | inr hx => exact hkeys x hx
    obtain ⟨hascending, hall⟩ := ih _ (fun x hx => hadded x (List.mem_cons_of_mem k hx)) hinside
      (ascending_insertKey h hk hkeys hsorted)
    rw [insertKeys_cons]
    refine ⟨hascending, ?_⟩
    intro y
    rw [hall, hmem, List.mem_cons]
    tauto

/-- Keys that come in order stay as they are. -/
theorem insertKeys_ascending (h : Ranks less rank W) (added : List α) (hadded : ∀ x ∈ added, W x)
    (hkeys : ∀ x ∈ keys, W x) (hsorted : Ascending rank (keys ++ added)) :
    insertKeys less keys added = keys ++ added := by
  induction added generalizing keys with
  | nil => exact (List.append_nil keys).symm
  | cons k added ih =>
    have hk : W k := hadded k List.mem_cons_self
    have hbehind : ∀ x ∈ keys, less x k = true ∧ less k x = false := by
      intro x hx
      have hlt : rank x < rank k :=
        (List.pairwise_append.mp hsorted).2.2 x hx k List.mem_cons_self
      refine ⟨(h.less_iff (hkeys x hx) hk).mpr hlt, ?_⟩
      rw [Bool.eq_false_iff, Ne, h.less_iff hk (hkeys x hx)]
      omega
    rw [insertKeys_cons, insertKey_end hbehind, ih, List.append_assoc]
    · rfl
    · exact fun x hx => hadded x (List.mem_cons_of_mem k hx)
    · intro x hx
      cases List.mem_append.mp hx with
      | inl hx => exact hkeys x hx
      | inr hx => exact List.mem_singleton.mp hx ▸ hk
    · rw [List.append_assoc]
      exact hsorted

end Ranked

end SrsChatRoom
