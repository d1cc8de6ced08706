import Mathlib.Data.List.Infix
import Mathlib.Data.List.TakeWhile
import Mathlib.Tactic

/-!
# Parts of a list

A list is searched for another one from the left, and what is found is replaced, or the list is cut
there. `Free old a b` says that no occurrence of `old` in `a ++ b` begins in `a`: such an `a` is
passed unchanged.

* `replace` - every occurrence, from left to right;
* `splitLast` - in front of and behind the last occurrence of an element;
* `splitBy` - the parts between separators.
-/

namespace SrsChatRoom.SubText

open List (append_assoc append_nil cons_append mem_cons)

variable {α : Type}

/-! ## Definitions -/

section Definitions

variable [DecidableEq α]

/-- Replaces what follows; the first `skip` elements belong to an occurrence that is replaced. -/
def replaceFrom (old new : List α) : ℕ → List α → List α
  | _, [] => []
  | skip + 1, _ :: s => replaceFrom old new skip s
  | 0, c :: s =>
    if old <+: c :: s then new ++ replaceFrom old new (old.length - 1) s
    else c :: replaceFrom old new 0 s

/-- Every occurrence of `old`, which is not empty, becomes `new`; what has been put in is not
searched again. -/
def replace (old new s : List α) : List α := replaceFrom old new 0 s

/-- What stands in front of the first occurrence, and what begins with it. -/
def splitFirst (old : List α) : List α → Option (List α × List α)
  | [] => if old = [] then some ([], []) else none
  | c :: s =>
    if old <+: c :: s then some ([], c :: s)
    else (splitFirst old s).map fun (a, b) => (c :: a, b)

/-- No occurrence begins in the first list. -/
def Free (old : List α) : List α → List α → Prop
  | [], _ => True
  | c :: a, b => ¬ old <+: c :: (a ++ b) ∧ Free old a b

/-- What stands in front of the last `c`, and what behind it. -/
def splitLast (c : α) : List α → Option (List α × List α)
  | [] => none
  | x :: s =>
    match splitLast c s with
    | some (a, b) => some (x :: a, b)
    | none => if x = c then some ([], s) else none

/-- The parts between separators; `part` is the part that is being read, backwards, and the first
`skip` elements belong to a separator. An empty part at the end is left out. -/
def splitFrom (seps : List (List α)) : ℕ → List α → List α → List (List α)
  | _, part, [] => if part = [] then [] else [part.reverse]
  | skip + 1, part, _ :: s => splitFrom seps skip part s
  | 0, part, c :: s =>
    match seps.find? (· <+: c :: s) with
    | some sep => part.reverse :: splitFrom seps (sep.length - 1) [] s
    | none => splitFrom seps 0 (c :: part) s

/-- Cuts at the first place where a separator stands, and goes on behind it. Of the separators that
stand at one place the first of the list is taken. -/
def splitBy (seps : List (List α)) (s : List α) : List (List α) := splitFrom seps 0 [] s

/-- The parts between the places where `sep`, which is not empty, stands. An empty part at the end is
kept. -/
def splitAllFrom (sep : List α) : ℕ → List α → List α → List (List α)
  | _, part, [] => [part.reverse]
  | skip + 1, part, _ :: s => splitAllFrom sep skip part s
  | 0, part, c :: s =>
    if sep <+: c :: s then part.reverse :: splitAllFrom sep (sep.length - 1) [] s
    else splitAllFrom sep 0 (c :: part) s

def splitAll (sep s : List α) : List (List α) := splitAllFrom sep 0 [] s

end Definitions

attribute [local simp] replaceFrom splitFirst Free splitLast splitFrom splitAllFrom

/-! ## Occurrences -/

section Occurrences

variable {old a b : List α}

theorem free_append (a₁ a₂ : List α) :
    Free old (a₁ ++ a₂) b ↔ Free old a₁ (a₂ ++ b) ∧ Free old a₂ b := by
  induction a₁ with
  | nil => simp [Free]
  | cons c a₁ ih =>
    rw [cons_append, Free, Free, ih, append_assoc]
    exact and_assoc.symm

theorem free_of_head {c : α} {t : List α} (h : c ∉ a) : Free (c :: t) a b := by
  induction a with
  | nil => trivial
  | cons x a ih =>
    rw [mem_cons, not_or] at h
    refine ⟨fun hp => h.1 ?_, ih h.2⟩
    exact (List.cons_prefix_cons.mp hp).1

/-- A prefix of elements of one kind does not go past an element of another kind. -/
theorem prefix_of_kind {p : α → Prop} (hold : ∀ c ∈ old, p c) (hb : ∀ c ∈ b.head?, ¬ p c)
    (h : old <+: a ++ b) : old <+: a := by
  induction old generalizing a with
  | nil => exact List.nil_prefix
  | cons x old ih =>
    cases a with
    | nil =>
      obtain ⟨t, ht⟩ := h
      have hx : x ∈ b.head? := by
        rw [List.nil_append] at ht
        rw [← ht]
        rfl
      exact absurd (hold x List.mem_cons_self) (hb x hx)
    | cons y a =>
      rw [cons_append, List.cons_prefix_cons] at h
      rw [List.cons_prefix_cons]
      exact ⟨h.1, ih (fun c hc => hold c (List.mem_cons_of_mem _ hc)) h.2⟩

theorem free_of_kind {p : α → Prop} (hold : ∀ c ∈ old, p c) (hb : ∀ c ∈ b.head?, ¬ p c)
    (h : ¬ old <:+: a) : Free old a b := by
  induction a with
  | nil => trivial
  | cons x a ih =>
    constructor
    · intro hp
      apply h
      rw [← cons_append] at hp
      exact (prefix_of_kind hold hb hp).isInfix
    · apply ih
      intro hi
      exact h (hi.trans (List.suffix_cons x a).isInfix)

theorem free_of_not_infix (h : ¬ old <:+: a ++ b) : Free old a b := by
  induction a with
  | nil => trivial
  | cons x a ih =>
    constructor
    · intro hp
      exact h hp.isInfix
    · apply ih
      intro hi
      exact h (hi.trans (List.suffix_cons x (a ++ b)).isInfix)

/-- What occurs, and does not begin in the first list, occurs in the second one. -/
theorem infix_of_free (h : Free old a b) (hi : old <:+: a ++ b) : old <:+: b := by
  induction a with
  | nil => exact hi
  | cons x a ih =>
    rw [cons_append, List.infix_cons_iff] at hi
    rcases hi with hp | hi
    · exact absurd hp h.1
    · exact ih h.2 hi

end Occurrences

/-! ## Neighbours -/

/-- An element does not stand twice in a row. -/
theorem isChain_iff_not_infix {c : α} {s : List α} :
    s.IsChain (fun a b => ¬(a = c ∧ b = c)) ↔ ¬[c, c] <:+: s := by
  rw [List.isChain_iff_forall_rel_of_append_cons_cons]
  constructor
  · intro h ⟨a, b, hs⟩
    exact @h c c a b (by simp [← hs]) ⟨rfl, rfl⟩
  · intro h a b l₁ l₂ hs ⟨ha, hb⟩
    subst ha hb
    exact h ⟨l₁, l₂, by simp [hs]⟩

/-! ## Replacing -/

section Replacing

variable [DecidableEq α] {old new : List α}

theorem replace_append {a b : List α} (h : Free old a b) :
    replace old new (a ++ b) = a ++ replace old new b := by
  unfold replace
  induction a with
  | nil => rfl
  | cons c a ih =>
    rw [cons_append, replaceFrom, if_neg h.1, ih h.2, cons_append]

/-- The elements that belong to an occurrence are passed. -/
theorem replaceFrom_length (w b : List α) :
    replaceFrom old new w.length (w ++ b) = replaceFrom old new 0 b := by
  induction w with
  | nil => rfl
  | cons c w ih => exact ih

theorem replace_occurrence {c : α} (w b : List α) :
    replace (c :: w) new (c :: w ++ b) = new ++ replace (c :: w) new b := by
  have hp : c :: w <+: c :: (w ++ b) := ⟨b, rfl⟩
  show replaceFrom (c :: w) new 0 (c :: (w ++ b)) = _
  rw [replaceFrom, if_pos hp, List.length_cons, Nat.add_sub_cancel, replaceFrom_length]
  rfl

theorem replace_eq_self {s : List α} (h : ¬ old <:+: s) : replace old new s = s := by
  have hfree : Free old s [] := by
    apply free_of_not_infix
    rwa [append_nil]
  have heq := @replace_append α _ old new s [] hfree
  rw [append_nil] at heq
  rw [heq]
  exact append_nil s

/-- What holds of neighbours still does, if it holds of those of `new` and at both its ends. -/
theorem isChain_replaceFrom {R : α → α → Prop} (hne : new ≠ []) (hnew : new.IsChain R)
    (hfront : ∀ a, ∀ b ∈ new.head?, R a b) (hend : ∀ a ∈ new.getLast?, ∀ b, R a b) (skip : ℕ)
    {s : List α} (h : s.IsChain R) : (replaceFrom old new skip s).IsChain R := by
  induction s generalizing skip with
  | nil => exact List.isChain_nil
  | cons c s ih =>
    have hs : s.IsChain R := (List.isChain_cons.mp h).2
    cases skip with
    | succ skip => exact ih skip hs
    | zero =>
      rw [replaceFrom]
      split
      · exact List.isChain_append.mpr ⟨hnew, ih _ hs, fun a ha b _ => hend a ha b⟩
      · refine List.isChain_cons.mpr ⟨?_, ih 0 hs⟩
        intro b hb
        cases s with
        | nil => cases hb
        | cons d s =>
          rw [replaceFrom] at hb
          split at hb
          · rw [List.head?_append_of_ne_nil _ hne] at hb
            exact hfront c b hb
          · exact (List.isChain_cons.mp h).1 b hb

end Replacing

/-! ## Splitting -/

section Splitting

variable [DecidableEq α]

theorem splitLast_eq_none_iff (c : α) (s : List α) : splitLast c s = none ↔ c ∉ s := by
  induction s with
  | nil => simp [splitLast]
  | cons x s ih =>
    rw [splitLast, mem_cons, not_or, ← ih]
    cases splitLast c s with
    | some ab => simp
    | none => simp [eq_comm]

variable {c : α} {b : List α}

theorem splitLast_append (a : List α) (h : c ∉ b) : splitLast c (a ++ c :: b) = some (a, b) := by
  induction a with
  | nil => simp [splitLast, (splitLast_eq_none_iff c b).mpr h]
  | cons x a ih => rw [cons_append, splitLast, ih]

variable {s : List α}

variable {a : List α}

theorem eq_of_splitLast (h : splitLast c s = some (a, b)) : s = a ++ c :: b ∧ c ∉ b := by
  induction s generalizing a with
  | nil => cases h
  | cons x s ih =>
    rw [splitLast] at h
    cases hs : splitLast c s with
    | some ab =>
      rw [hs] at h
      cases h
      have hrest := ih hs
      exact ⟨by rw [hrest.1]; rfl, hrest.2⟩
    | none =>
      rw [hs] at h
      by_cases hx : x = c
      · simp only [if_pos hx, Option.some.injEq, Prod.mk.injEq] at h
        rw [← h.1, ← h.2, hx]
        exact ⟨rfl, (splitLast_eq_none_iff c s).mp hs⟩
      · simp [hx] at h

variable {seps : List (List α)}

/-- No separator begins with an element of the list. -/
def Solid (seps : List (List α)) (w : List α) : Prop :=
  ∀ sep ∈ seps, ∃ c t, sep = c :: t ∧ c ∉ w

variable {w : List α}

theorem splitFrom_append (h : Solid seps w) (part b : List α) :
    splitFrom seps 0 part (w ++ b) = splitFrom seps 0 (w.reverse ++ part) b := by
  induction w generalizing part with
  | nil => rfl
  | cons x w ih =>
    have hfind : seps.find? (· <+: x :: (w ++ b)) = none := by
      apply List.find?_eq_none.mpr
      intro sep hsep hp
      obtain ⟨c, t, rfl, hc⟩ := h sep hsep
      have hx := (List.cons_prefix_cons.mp (of_decide_eq_true hp)).1
      exact hc (by rw [hx]; exact List.mem_cons_self)
    have hsolid : Solid seps w := by
      intro sep hsep
      obtain ⟨c, t, heq, hc⟩ := h sep hsep
      exact ⟨c, t, heq, fun hm => hc (List.mem_cons_of_mem x hm)⟩
    rw [cons_append, splitFrom, hfind]
    dsimp only
    rw [ih hsolid, List.reverse_cons, append_assoc]
    rfl

theorem splitFrom_length (w part b : List α) :
    splitFrom seps w.length part (w ++ b) = splitFrom seps 0 part b := by
  induction w with
  | nil => rfl
  | cons c w ih => exact ih

/-- A part in front of a separator. -/
theorem splitBy_append (h : Solid seps w) {t : List α}
    (hfind : seps.find? (· <+: c :: (t ++ b)) = some (c :: t)) :
    splitBy seps (w ++ (c :: t ++ b)) = w :: splitBy seps b := by
  unfold splitBy
  rw [splitFrom_append h, cons_append, splitFrom, hfind]
  dsimp only
  rw [List.length_cons, Nat.add_sub_cancel, splitFrom_length, append_nil, List.reverse_reverse]

/-- The last part. -/
theorem splitBy_self (h : Solid seps w) (hw : w ≠ []) : splitBy seps w = [w] := by
  have heq := splitFrom_append h [] []
  rw [append_nil, append_nil] at heq
  unfold splitBy
  rw [heq, splitFrom, if_neg (by simpa using hw), List.reverse_reverse]

/-- No part has a separator of one element. -/
theorem not_mem_of_mem_splitBy (hc : [c] ∈ seps) (s : List α) :
    ∀ part ∈ splitBy seps s, c ∉ part := by
  have hall : ∀ (s : List α) (skip : ℕ) (front : List α), c ∉ front →
      ∀ part ∈ splitFrom seps skip front s, c ∉ part := by
    intro s
    induction s with
    | nil =>
      intro skip front hfront part hpart
      rw [splitFrom] at hpart
      split at hpart
      · exact absurd hpart List.not_mem_nil
      · rw [List.mem_singleton.mp hpart, List.mem_reverse]
        exact hfront
    | cons x s ih =>
      intro skip front hfront part hpart
      cases skip with
      | succ skip => exact ih skip front hfront part hpart
      | zero =>
        rw [splitFrom] at hpart
        cases hfind : seps.find? (· <+: x :: s) with
        | some sep =>
          rw [hfind] at hpart
          cases List.mem_cons.mp hpart with
          | inl heq =>
            rw [heq, List.mem_reverse]
            exact hfront
          | inr hmem => exact ih _ [] List.not_mem_nil part hmem
        | none =>
          rw [hfind] at hpart
          have hx : c ≠ x := by
            intro heq
            have hnone := List.find?_eq_none.mp hfind [c] hc
            rw [heq] at hnone
            exact hnone (decide_eq_true (List.prefix_append [x] s))
          apply ih 0 (x :: front) _ part hpart
          intro hmem
          cases List.mem_cons.mp hmem with
          | inl heq => exact hx heq
          | inr hmem => exact hfront hmem
  exact hall s 0 [] List.not_mem_nil

theorem splitAllFrom_ne_nil (sep : List α) (skip : ℕ) (part s : List α) :
    splitAllFrom sep skip part s ≠ [] := by
  fun_induction splitAllFrom sep skip part s with
  | case1 => exact List.cons_ne_nil _ _
  | case2 _ _ _ _ ih => exact ih
  | case3 => exact List.cons_ne_nil _ _
  | case4 _ _ _ _ ih => exact ih

/-- Without a separator there is one part. -/
theorem splitAllFrom_self (h : c ∉ s) (part : List α) :
    splitAllFrom [c] 0 part s = [part.reverse ++ s] := by
  induction s generalizing part with
  | nil => rw [splitAllFrom, append_nil]
  | cons x s ih =>
    rw [mem_cons, not_or] at h
    have hnot : ¬ [c] <+: x :: s := fun hp => h.1 (List.cons_prefix_cons.mp hp).1
    rw [splitAllFrom, if_neg hnot, ih h.2, List.reverse_cons, append_assoc,
      List.singleton_append]

/-- The part in front of the first separator. -/
theorem splitAllFrom_append (h : c ∉ a) (part b : List α) :
    splitAllFrom [c] 0 part (a ++ c :: b) = (part.reverse ++ a) :: splitAll [c] b := by
  induction a generalizing part with
  | nil =>
    have hp : [c] <+: c :: b := List.prefix_append [c] b
    rw [List.nil_append, splitAllFrom, if_pos hp, append_nil]
    rfl
  | cons x a ih =>
    rw [mem_cons, not_or] at h
    have hnot : ¬ [c] <+: x :: (a ++ c :: b) := fun hp => h.1 (List.cons_prefix_cons.mp hp).1
    rw [cons_append, splitAllFrom, if_neg hnot, ih h.2, List.reverse_cons, append_assoc,
      List.singleton_append]

theorem splitAll_eq_singleton_iff {p : List α} : splitAll [c] s = [p] ↔ s = p ∧ c ∉ p := by
  unfold splitAll
  by_cases hc : c ∈ s
  · obtain ⟨a, b, rfl, ha⟩ := List.eq_append_cons_of_mem hc
    rw [splitAllFrom_append ha]
    constructor
    · intro h
      exact absurd (List.cons.inj h).2 (splitAllFrom_ne_nil [c] 0 [] b)
    · intro h
      exact absurd (h.1 ▸ hc) h.2
  · rw [splitAllFrom_self hc]
    constructor
    · intro h
      cases h
      exact ⟨rfl, hc⟩
    · intro h
      rw [h.1]
      rfl

/-- There are two parts where there is one separator. -/
theorem splitAll_eq_pair_iff {u p : List α} :
    splitAll [c] s = [u, p] ↔ s = u ++ c :: p ∧ c ∉ u ∧ c ∉ p := by
  by_cases hc : c ∈ s
  · obtain ⟨a, b, rfl, ha⟩ := List.eq_append_cons_of_mem hc
    have hsplit : splitAll [c] (a ++ c :: b) = a :: splitAll [c] b := splitAllFrom_append ha [] b
    rw [hsplit]
    constructor
    · intro h
      obtain ⟨rfl, hrest⟩ := List.cons.inj h
      obtain ⟨rfl, hp⟩ := splitAll_eq_singleton_iff.mp hrest
      exact ⟨rfl, ha, hp⟩
    · rintro ⟨heq, hu, hp⟩
      have hcopy := splitAllFrom_append ha [] b
      rw [heq, splitAllFrom_append hu] at hcopy
      exact hcopy.symm.trans (by rw [splitAll_eq_singleton_iff.mpr ⟨rfl, hp⟩]; rfl)
  · have hsplit : splitAll [c] s = [s] := splitAllFrom_self hc []
    rw [hsplit]
    constructor
    · intro h
      cases h
    · rintro ⟨heq, -, -⟩
      rw [heq] at hc
      exact absurd (List.mem_append_right u List.mem_cons_self) hc

/-- The first occurrence, if there is one. -/
theorem splitFirst_eq_none_iff {old : List α} : splitFirst old s = none ↔ ¬ old <:+: s := by
  induction s with
  | nil =>
    rw [splitFirst, List.infix_nil]
    split <;> simp_all
  | cons c s ih =>
    rw [splitFirst, List.infix_cons_iff, not_or]
    split
    · rename_i hp
      simp [hp]
    · rename_i hp
      rw [Option.map_eq_none_iff, ih]
      simp [hp]

theorem eq_of_splitFirst {old : List α} (h : splitFirst old s = some (a, b)) :
    s = a ++ b ∧ old <+: b := by
  induction s generalizing a with
  | nil =>
    rw [splitFirst] at h
    split at h
    · rename_i hold
      cases h
      exact ⟨rfl, hold ▸ List.nil_prefix⟩
    · cases h
  | cons c s ih =>
    rw [splitFirst] at h
    split at h
    · rename_i hp
      cases h
      exact ⟨rfl, hp⟩
    · obtain ⟨⟨a', b'⟩, hs, heq⟩ := Option.map_eq_some_iff.mp h
      cases heq
      obtain ⟨rfl, hp⟩ := ih hs
      exact ⟨rfl, hp⟩

end Splitting

end SrsChatRoom.SubText
