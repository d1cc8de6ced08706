import Mathlib.Logic.Relation
import Mathlib.Tactic

/-!
# Runs of a step function

A system is a step function `step : σ → α → Option σ`: in state `s` the action `a` either is
not possible (`none`) or leads to one next state. Which party acts, and when, is the choice of
the action, so a run over all action lists is a run over all interleavings.

Runs are taken under a `guard`: a condition on the state and the action before each step. The
unguarded runs are those of `fun _ _ => True`.
-/

namespace SrsChatRoom.System

variable {σ α : Type*} {step : σ → α → Option σ} {guard : σ → α → Prop}

/-- One step by some action that meets the guard. -/
def StepBy (step : σ → α → Option σ) (guard : σ → α → Prop) (s t : σ) : Prop :=
  ∃ a, guard s a ∧ step s a = some t

/-- `t` is reached from `s` by steps that all meet the guard. -/
def Reaches (step : σ → α → Option σ) (guard : σ → α → Prop) : σ → σ → Prop :=
  Relation.ReflTransGen (StepBy step guard)

/-- The guard that lets every step pass. -/
def anyStep : σ → α → Prop := fun _ _ => True

instance (s : σ) (a : α) : Decidable (anyStep s a) := inferInstanceAs (Decidable True)

variable {s t : σ}

/-- A run under a guard is one under any weaker guard. -/
theorem Reaches.mono {guard' : σ → α → Prop} (h : ∀ s a, guard s a → guard' s a)
    (hrun : Reaches step guard s t) : Reaches step guard' s t := by
  induction hrun with
  | refl => exact Relation.ReflTransGen.refl
  | tail _ hlast ih =>
    obtain ⟨a, hguard, ha⟩ := hlast
    exact ih.tail ⟨a, h _ a hguard, ha⟩

variable {I : σ → Prop}

/-- What every guarded step preserves, every guarded run preserves. -/
theorem Reaches.invariant (hstep : ∀ s a t, I s → guard s a → step s a = some t → I t)
    (hrun : Reaches step guard s t) (hs : I s) : I t := by
  induction hrun with
  | refl => exact hs
  | tail _ hlast ih =>
    obtain ⟨a, hguard, ha⟩ := hlast
    exact hstep _ a _ ih hguard ha

variable {P : σ → Prop}

/-- A relation to a fixed earlier state that every step from a state with the invariant keeps
holds along every run: the rule for "once ..., always ..." properties. -/
theorem Reaches.stable (hinv : ∀ s a t, I s → guard s a → step s a = some t → I t)
    (hstep : ∀ s a t, I s → P s → guard s a → step s a = some t → P t)
    (hrun : Reaches step guard s t) (hs : I s) (hp : P s) : P t := by
  have hboth : I t ∧ P t := by
    refine Reaches.invariant (I := fun x => I x ∧ P x) ?_ hrun ⟨hs, hp⟩
    intro x a y hx hguard ha
    exact ⟨hinv x a y hx.1 hguard ha, hstep x a y hx.1 hx.2 hguard ha⟩
  exact hboth.2

/-- Run a list of actions, as long as each meets the guard. -/
def exec (step : σ → α → Option σ) (guard : σ → α → Prop) [∀ s a, Decidable (guard s a)]
    (s : σ) : List α → Option σ
  | [] => some s
  | a :: as => if guard s a then (step s a).bind fun t => exec step guard t as else none

/-- A list of actions that runs through is a guarded run. -/
theorem reaches_of_exec [∀ s a, Decidable (guard s a)] (as : List α)
    (h : exec step guard s as = some t) : Reaches step guard s t := by
  induction as generalizing s with
  | nil =>
    cases Option.some.inj h
    exact Relation.ReflTransGen.refl
  | cons a as ih =>
    unfold exec at h
    split at h
    · next hguard =>
      obtain ⟨m, hm, hrest⟩ := Option.bind_eq_some_iff.mp h
      exact Relation.ReflTransGen.head ⟨a, hguard, hm⟩ (ih hrest)
    · cases h

/-- An observation of the state after a list of actions, as an observation of a reached state.
This is how a concrete run is evaluated: `h` is a closed equation. -/
theorem reaches_of_observe (step : σ → α → Option σ) (guard : σ → α → Prop)
    [∀ s a, Decidable (guard s a)] (s : σ) (as : List α) {β : Type*} (f : σ → β) {b : β}
    (h : (exec step guard s as).map f = some b) :
    ∃ t, Reaches step guard s t ∧ exec step guard s as = some t ∧ f t = b := by
  obtain ⟨t, ht, hf⟩ := Option.map_eq_some_iff.mp h
  exact ⟨t, reaches_of_exec as ht, ht, hf⟩

theorem exec_append [∀ s a, Decidable (guard s a)] (s : σ) (as bs : List α) :
    exec step guard s (as ++ bs) = (exec step guard s as).bind fun t => exec step guard t bs := by
  induction as generalizing s with
  | nil => rfl
  | cons a as ih =>
    simp only [List.cons_append, exec]
    split
    · cases step s a with
      | none => rfl
      | some t => exact ih t
    · rfl

/-- The same for a longer list of actions, from the state the shorter list reached. -/
theorem reaches_of_observe_append [∀ s a, Decidable (guard s a)] {β : Type*} {as : List α}
    (hs : exec step guard s as = some t) (bs : List α) (f : σ → β) {b : β}
    (h : (exec step guard s (as ++ bs)).map f = some b) :
    ∃ u, Reaches step guard t u ∧ exec step guard s (as ++ bs) = some u ∧ f u = b := by
  obtain ⟨u, hu, hf⟩ := Option.map_eq_some_iff.mp h
  refine ⟨u, reaches_of_exec bs ?_, hu, hf⟩
  rwa [exec_append, hs] at hu

/-! ## All states of a run -/

/-- `P` holds in every state of the run of these actions, as far as it goes. -/
def Always (step : σ → α → Option σ) (P : σ → Prop) (s : σ) : List α → Prop
  | [] => P s
  | a :: as => P s ∧ ∀ t, step s a = some t → Always step P t as

/-- Every step of the run of these actions meets the guard. -/
def Guarded (step : σ → α → Option σ) (guard : σ → α → Prop) (s : σ) : List α → Prop
  | [] => True
  | a :: as => ∀ t, step s a = some t → guard s a ∧ Guarded step guard t as

/-- Where the guarded steps keep an invariant that implies `P`, and a step that is not guarded
leads out of `P`, the runs on which `P` holds throughout are the guarded ones. -/
theorem always_iff_guarded (hgood : ∀ s, I s → P s)
    (hstep : ∀ s a t, I s → guard s a → step s a = some t → I t)
    (hbad : ∀ s a t, I s → ¬ guard s a → step s a = some t → ¬ P t) (hs : I s)
    (as : List α) : Always step P s as ↔ Guarded step guard s as := by
  have hhead : ∀ (as : List α) (t : σ), Always step P t as → P t := by
    intro as t h
    cases as with
    | nil => exact h
    | cons a as => exact h.1
  induction as generalizing s with
  | nil => exact iff_of_true (hgood s hs) trivial
  | cons a as ih =>
    constructor
    · intro h t ht
      have hnext := h.2 t ht
      have hguard : guard s a := by
        by_contra hnot
        exact hbad s a t hs hnot ht (hhead as t hnext)
      exact ⟨hguard, (ih (hstep s a t hs hguard ht)).mp hnext⟩
    · intro h
      refine ⟨hgood s hs, ?_⟩
      intro t ht
      obtain ⟨hguard, hnext⟩ := h t ht
      exact (ih (hstep s a t hs hguard ht)).mpr hnext

/-- What holds throughout a run holds where the run ends. -/
theorem Always.last {as : List α} (h : Always step P s as)
    (hrun : exec step anyStep s as = some t) : P t := by
  induction as generalizing s with
  | nil =>
    cases hrun
    exact h
  | cons a as ih =>
    unfold exec at hrun
    have hany : anyStep s a := trivial
    rw [if_pos hany] at hrun
    obtain ⟨m, hm, hrest⟩ := Option.bind_eq_some_iff.mp hrun
    exact ih (h.2 m hm) hrest

end SrsChatRoom.System
