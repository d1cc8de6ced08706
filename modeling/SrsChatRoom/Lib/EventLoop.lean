import SrsChatRoom.Lib.Dict
import SrsChatRoom.Lib.System

/-!
# An event loop with a blocking lock

Coroutines on one thread share a state and a lock that is not reentrant. Between two awaits a
coroutine runs alone. An await may let the others run, or it may be over at once; a coroutine that
asks for a lock that is taken blocks the thread, and with it every other coroutine.

What a coroutine does between two awaits is a `Section`. Where the sections take and give back the
lock in pairs (`Balanced`), the thread never blocks in a run in which no coroutine lets the others
run while it holds the lock (`unblocked`).
-/

namespace SrsChatRoom.EventLoop

/-! ## Sections -/

/-- The statements of a coroutine up to its next await, on a shared state `σ` and with await
points `κ`. -/
inductive Section (σ κ : Type)
  | done
  | await (point : κ)
  | acquire (rest : Section σ κ)
  | release (rest : Section σ κ)
  | update (f : σ → σ) (rest : Section σ κ)
  | read (f : σ → Section σ κ)

/-- How a section stops. -/
inductive Stop (κ : Type)
  | done
  | awaits (point : κ)
  | blocks

variable {σ κ ε ρ : Type}

/-- Run a section of the coroutine `t`, with the state and the holder of the lock. -/
def Section.run (t : ℕ) : Section σ κ → σ → Option ℕ → Stop κ × σ × Option ℕ
  | .done, s, holder => (.done, s, holder)
  | .await point, s, holder => (.awaits point, s, holder)
  | .acquire rest, s, none => rest.run t s (some t)
  | .acquire _, s, some holder => (.blocks, s, some holder)
  | .release rest, s, _ => rest.run t s none
  | .update f rest, s, holder => rest.run t (f s) holder
  | .read f, s, holder => (f s).run t s holder

/-- The lock is taken and given back in pairs; `held` says whether it is held at the start, and
`holds point` whether it is held at an await. -/
def Balanced (holds : κ → Bool) : Bool → Section σ κ → Prop
  | held, .done => held = false
  | held, .await point => holds point = held
  | held, .acquire rest => held = false ∧ Balanced holds true rest
  | held, .release rest => held = true ∧ Balanced holds false rest
  | held, .update _ rest => Balanced holds held rest
  | held, .read f => ∀ s, Balanced holds held (f s)

/-- The holder of the lock, when it is the coroutine `t` or nobody. -/
def heldBy (t : ℕ) (held : Bool) : Option ℕ := if held then some t else none

/-- A balanced section does not block, as far as its own coroutine goes, and leaves the lock as it
says. -/
theorem Balanced.run {holds : κ → Bool} {t : ℕ} {held : Bool} {sec : Section σ κ}
    (h : Balanced holds held sec) (s : σ) :
    ((sec.run t s (heldBy t held)).1 = .done ∧ (sec.run t s (heldBy t held)).2.2 = none) ∨
    ∃ point, (sec.run t s (heldBy t held)).1 = .awaits point ∧
      (sec.run t s (heldBy t held)).2.2 = heldBy t (holds point) := by
  induction sec generalizing held s with
  | done =>
    left
    rw [show held = false from h]
    exact ⟨rfl, rfl⟩
  | await point =>
    right
    rw [← show holds point = held from h]
    exact ⟨point, rfl, rfl⟩
  | acquire rest ih =>
    rw [show held = false from h.1]
    exact ih h.2 s
  | release rest ih => exact ih h.2 s
  | update f rest ih => exact ih h (f s)
  | read f ih => exact ih s (h s) s

/-! ## The loop -/

/-- The code of the coroutines: what they do first, and what they do after an await, depending on
its outcome. -/
structure Code (σ κ ε ρ : Type) where
  start : ε → Section σ κ
  resume : κ → ρ → Section σ κ

/-- The sections of the code are balanced. -/
structure Code.Paired (code : Code σ κ ε ρ) (holds : κ → Bool) : Prop where
  start : ∀ entry, Balanced holds false (code.start entry)
  resume : ∀ point outcome, Balanced holds (holds point) (code.resume point outcome)

/-- The state of the loop. `current` is a coroutine whose await is over at once, `blocked` the
coroutine that blocks the thread. -/
structure Loop (σ κ : Type) where
  shared : σ
  holder : Option ℕ
  waiting : Dict ℕ κ
  current : Option ℕ
  blocked : Option ℕ

/-- The loop at the start. -/
def Loop.init (s : σ) : Loop σ κ := ⟨s, none, Dict.empty, none, none⟩

/-- What can happen next. `suspends` says whether the next await lets the other coroutines run. -/
inductive Action (ε ρ : Type)
  | start (t : ℕ) (entry : ε) (suspends : Bool)
  | resume (t : ℕ) (outcome : ρ) (suspends : Bool)

/-- Whether the next await lets the other coroutines run. -/
def Action.suspends : Action ε ρ → Bool
  | .start _ _ suspends | .resume _ _ suspends => suspends

/-- The coroutine of the action. -/
def Action.coroutine : Action ε ρ → ℕ
  | .start t _ _ | .resume t _ _ => t

namespace Loop

/-- The section that an action runs, where the action is possible. -/
def next (code : Code σ κ ε ρ) (l : Loop σ κ) : Action ε ρ → Option (Section σ κ)
  | .start t entry _ =>
    if l.blocked = none ∧ l.current = none ∧ l.waiting.get? t = none then some (code.start entry)
    else none
  | .resume t outcome _ =>
    if l.blocked = none ∧ (l.current = none ∨ l.current = some t) then
      (l.waiting.get? t).map fun point => code.resume point outcome
    else none

/-- The loop after a section of the coroutine `t`. -/
def after (l : Loop σ κ) (t : ℕ) (suspends : Bool) (sec : Section σ κ) : Loop σ κ :=
  match sec.run t l.shared l.holder with
  | (.done, shared, holder) => ⟨shared, holder, l.waiting.erase t, none, none⟩
  | (.awaits point, shared, holder) =>
    ⟨shared, holder, l.waiting.set t point, if suspends then none else some t, none⟩
  | (.blocks, shared, holder) => ⟨shared, holder, l.waiting.erase t, none, some t⟩

/-- One section of one coroutine. -/
def step (code : Code σ κ ε ρ) (l : Loop σ κ) (a : Action ε ρ) : Option (Loop σ κ) :=
  (l.next code a).map (l.after a.coroutine a.suspends)

/-- A coroutine that others may run beside holds the lock, and another one blocks the thread
because of it. -/
def Deadlocked (l : Loop σ κ) : Prop :=
  ∃ t t', l.holder = some t ∧ (l.waiting.get? t).isSome ∧ l.current ≠ some t ∧
    l.blocked = some t' ∧ t' ≠ t

/-- The await point at which an action stops. -/
def stopsAt (code : Code σ κ ε ρ) (l : Loop σ κ) (a : Action ε ρ) : Option κ :=
  (l.next code a).bind fun sec =>
    match (sec.run a.coroutine l.shared l.holder).1 with
    | .awaits point => some point
    | _ => none

/-- An await at which the lock is held does not let the others run. -/
def HoldsAlone (code : Code σ κ ε ρ) (holds : κ → Bool) (l : Loop σ κ) (a : Action ε ρ) : Prop :=
  a.suspends = true → ∀ point ∈ l.stopsAt code a, holds point = false

instance (code : Code σ κ ε ρ) (holds : κ → Bool) (l : Loop σ κ) (a : Action ε ρ) :
    Decidable (HoldsAlone code holds l a) := inferInstanceAs (Decidable (_ → _))

/-- The lock is held by the coroutine that runs on alone, or by nobody. -/
structure Inv (holds : κ → Bool) (l : Loop σ κ) : Prop where
  unblocked : l.blocked = none
  alone : ∀ t point, l.waiting.get? t = some point → holds point = true → l.current = some t
  holder : l.holder = l.current.bind fun t =>
    heldBy t ((l.waiting.get? t).any holds)

section Steps

variable {code : Code σ κ ε ρ} {holds : κ → Bool} {l l' : Loop σ κ} {a : Action ε ρ}

/-- A section that can be run starts with the lock held by its own coroutine or by nobody, and no
other coroutine waits with the lock held. -/
theorem Inv.next (h : l.Inv holds) (hcode : code.Paired holds) {sec : Section σ κ}
    (hnext : l.next code a = some sec) :
    (∃ held, l.holder = heldBy a.coroutine held ∧ Balanced holds held sec) ∧
      ∀ t point, l.waiting.get? t = some point → t ≠ a.coroutine → holds point = false := by
  cases a with
  | start t entry suspends =>
    rw [Loop.next] at hnext
    split at hnext
    · next hfree =>
      cases hnext
      refine ⟨⟨false, ?_, hcode.start entry⟩, ?_⟩
      · rw [h.holder, hfree.2.1]
        rfl
      · intro t' point hpoint _
        by_contra hholds
        rw [Bool.not_eq_false] at hholds
        have hcurrent := h.alone t' point hpoint hholds
        rw [hfree.2.1] at hcurrent
        cases hcurrent
    · cases hnext
  | resume t outcome suspends =>
    rw [Loop.next] at hnext
    split at hnext
    · next hfree =>
      obtain ⟨point, hpoint, hsec⟩ := Option.map_eq_some_iff.mp hnext
      have hother : ∀ t' point', l.waiting.get? t' = some point' → t' ≠ t →
          holds point' = false := by
        intro t' point' hpoint' hne
        by_contra hholds
        rw [Bool.not_eq_false] at hholds
        have hcurrent := h.alone t' point' hpoint' hholds
        rcases hfree.2 with hnone | hself
        · rw [hnone] at hcurrent
          cases hcurrent
        · rw [hself] at hcurrent
          exact hne (Option.some.inj hcurrent).symm
      refine ⟨⟨holds point, ?_, hsec ▸ hcode.resume point outcome⟩, hother⟩
      show l.holder = heldBy t (holds point)
      rcases hfree.2 with hnone | hself
      · have hnot : holds point = false := by
          by_contra hholds
          rw [Bool.not_eq_false] at hholds
          have hcurrent := h.alone t point hpoint hholds
          rw [hnone] at hcurrent
          cases hcurrent
        rw [h.holder, hnone, hnot]
        rfl
      · rw [h.holder, hself, Option.bind_some, hpoint]
        rfl
    · cases hnext

theorem inv_init (s : σ) : (Loop.init s : Loop σ κ).Inv holds := by
  refine ⟨rfl, ?_, rfl⟩
  intro t point hpoint
  cases hpoint

/-- A step that does not let others run while the lock is held keeps the invariant. -/
theorem Inv.step (h : l.Inv holds) (hcode : code.Paired holds) (halone : l.HoldsAlone code holds a)
    (hstep : l.step code a = some l') : l'.Inv holds := by
  obtain ⟨sec, hnext, hafter⟩ := Option.map_eq_some_iff.mp hstep
  obtain ⟨⟨held, hholder, hbalanced⟩, hothers⟩ := h.next hcode hnext
  have hrun := hbalanced.run (t := a.coroutine) l.shared
  rw [← hholder] at hrun
  rw [← hafter, Loop.after]
  rcases hsec : sec.run a.coroutine l.shared l.holder with ⟨stop, shared, holder⟩
  rw [hsec] at hrun
  rcases hrun with hdone | hawaits
  · obtain ⟨hstop, hlock⟩ := hdone
    rw [show stop = .done from hstop, show holder = none from hlock]
    refine ⟨rfl, ?_, rfl⟩
    intro t point hpoint hholds
    have hold : (l.waiting.erase a.coroutine).get? t = some point := hpoint
    rw [Dict.get?_erase] at hold
    split at hold
    · cases hold
    · next hne =>
      rw [hothers t point hold (Ne.symm hne)] at hholds
      cases hholds
  · obtain ⟨point, hstop, hlock⟩ := hawaits
    rw [show stop = .awaits point from hstop, show holder = heldBy a.coroutine (holds point) from hlock]
    have hstops : l.stopsAt code a = some point := by
      rw [Loop.stopsAt, hnext, Option.bind_some, hsec, show stop = .awaits point from hstop]
    refine ⟨rfl, ?_, ?_⟩
    · intro t point' hpoint hholds
      show (if a.suspends then none else some a.coroutine) = some t
      have hold : (l.waiting.set a.coroutine point).get? t = some point' := hpoint
      rw [Dict.get?_set] at hold
      split at hold
      · next hself =>
        cases hold
        rw [if_neg, hself]
        intro hsuspends
        rw [halone hsuspends point hstops] at hholds
        cases hholds
      · next hne =>
        rw [hothers t point' hold (Ne.symm hne)] at hholds
        cases hholds
    · show heldBy a.coroutine (holds point) =
        (if a.suspends then none else some a.coroutine).bind fun t =>
          heldBy t (((l.waiting.set a.coroutine point).get? t).any holds)
      by_cases hsuspends : a.suspends = true
      · rw [if_pos hsuspends, halone hsuspends point hstops]
        rfl
      · rw [if_neg hsuspends, Option.bind_some, Dict.get?_set_self]
        rfl

/-- In every run in which no coroutine lets the others run while it holds the lock, the thread never
blocks. -/
theorem unblocked (hcode : code.Paired holds) {s : σ}
    (hrun : System.Reaches (Loop.step code) (Loop.HoldsAlone code holds) (Loop.init s) l) :
    l.blocked = none := by
  have hinv : l.Inv holds := by
    refine System.Reaches.invariant (I := fun l => l.Inv holds) ?_ hrun (inv_init s)
    intro l a l' hl halone hstep
    exact hl.step hcode halone hstep
  exact hinv.unblocked

theorem not_deadlocked_of_unblocked (h : l.blocked = none) : ¬ l.Deadlocked := by
  intro hdead
  obtain ⟨t, t', -, -, -, hblocked, -⟩ := hdead
  rw [h] at hblocked
  cases hblocked

end Steps

end Loop
end SrsChatRoom.EventLoop
