import Mathlib.Tactic

/-!
# Programs that can fail, abort or not terminate

A program works on a state `σ`. It returns a value, returns an error `ε` (with the state it
leaves behind, since a caller may go on), hits a failed assertion or an access outside its
memory (`fault`), or, where the model bounds a loop by fuel, runs out of it (`hang`).

`Prog.Safe` is the rule for "it neither faults nor hangs, and what it returns satisfies `Q`";
one rule per construct, so that a program is verified along its text.
-/

namespace SrsChatRoom

/-- The result of running a program. -/
inductive Outcome (σ ε α : Type*)
  | ok (value : α) (state : σ)
  | err (error : ε) (state : σ)
  | fault
  | hang

/-- The program has returned an error. -/
def Outcome.isErr {σ ε α : Type*} : Outcome σ ε α → Bool
  | .err _ _ => true
  | _ => false

theorem Outcome.exists_of_isErr {σ ε α : Type*} {o : Outcome σ ε α} (h : o.isErr = true) :
    ∃ e s, o = .err e s := by
  cases o with
  | err e s => exact ⟨e, s, rfl⟩
  | ok a s => cases h
  | fault => cases h
  | hang => cases h

/-- The state that an error leaves behind. -/
def Outcome.errState {σ ε α : Type*} : Outcome σ ε α → Option σ
  | .err _ s => some s
  | _ => none

theorem Outcome.exists_of_errState {σ ε α : Type*} {o : Outcome σ ε α} {s : σ}
    (h : o.errState = some s) : ∃ e, o = .err e s := by
  cases o with
  | err e t =>
    cases h
    exact ⟨e, rfl⟩
  | ok a t => cases h
  | fault => cases h
  | hang => cases h

/-- A program on a state. -/
def Prog (σ ε α : Type) : Type := σ → Outcome σ ε α

namespace Prog

variable {σ ε α β : Type}

/-- Return a value. -/
def ret (a : α) : Prog σ ε α := fun s => .ok a s

/-- Run a program and go on with its value. -/
def andThen (x : Prog σ ε α) (f : α → Prog σ ε β) : Prog σ ε β := fun s =>
  match x s with
  | .ok a s' => f a s'
  | .err e s' => .err e s'
  | .fault => .fault
  | .hang => .hang

instance : Monad (Prog σ ε) where
  pure := ret
  bind := andThen

/-- `return error` -/
def throw (e : ε) : Prog σ ε α := fun s => .err e s

/-- A failed assertion. -/
def abort : Prog σ ε α := fun _ => .fault

/-- Change the error a program returns. -/
def wrap (g : ε → ε) (x : Prog σ ε α) : Prog σ ε α := fun s =>
  match x s with
  | .err e s' => .err (g e) s'
  | o => o

/-- An observation of the state. -/
def read (f : σ → α) : Prog σ ε α := fun s => .ok (f s) s

/-! ## Running the constructs -/

@[simp] theorem pure_apply (a : α) (s : σ) : (pure a : Prog σ ε α) s = .ok a s := rfl

@[simp] theorem throw_apply (e : ε) (s : σ) : (throw e : Prog σ ε α) s = .err e s := rfl

@[simp] theorem read_apply (f : σ → α) (s : σ) : (read f : Prog σ ε α) s = .ok (f s) s := rfl

theorem bind_apply (x : Prog σ ε α) (f : α → Prog σ ε β) (s : σ) :
    (x >>= f) s = match x s with
      | .ok a s' => f a s'
      | .err e s' => .err e s'
      | .fault => .fault
      | .hang => .hang := rfl

variable {x : Prog σ ε α} {s s' : σ}

variable {a : α}

theorem bind_ok (h : x s = .ok a s') (f : α → Prog σ ε β) : (x >>= f) s = f a s' := by
  rw [bind_apply, h]

theorem bind_err {e : ε} (h : x s = .err e s') (f : α → Prog σ ε β) : (x >>= f) s = .err e s' := by
  rw [bind_apply, h]

theorem bind_fault (h : x s = .fault) (f : α → Prog σ ε β) : (x >>= f) s = .fault := by
  rw [bind_apply, h]

variable {f : α → Prog σ ε β}

/-- What a sequence that returns a value went through. -/
theorem ok_of_bind_ok {s'' : σ} {b : β}
    (h : (x >>= f) s = .ok b s'') : ∃ a s', x s = .ok a s' ∧ f a s' = .ok b s'' := by
  rw [bind_apply] at h
  cases hx : x s with
  | ok a s' =>
    rw [hx] at h
    exact ⟨a, s', rfl, h⟩
  | err e s' =>
    rw [hx] at h
    cases h
  | fault =>
    rw [hx] at h
    cases h
  | hang =>
    rw [hx] at h
    cases h

theorem wrap_ok (h : x s = .ok a s') (g : ε → ε) : x.wrap g s = .ok a s' := by
  rw [wrap, h]

theorem wrap_err {e : ε} (h : x s = .err e s') (g : ε → ε) : x.wrap g s = .err (g e) s' := by
  rw [wrap, h]

variable {g : ε → ε}

/-- Changing errors changes no value. -/
theorem wrap_ok_iff : x.wrap g s = .ok a s' ↔ x s = .ok a s' := by
  rw [wrap]
  cases x s with
  | ok b t => exact Iff.rfl
  | err e t => simp
  | fault => exact Iff.rfl
  | hang => exact Iff.rfl

/-! ## Safety -/

/-- The program neither faults nor hangs, and a value it returns satisfies `Q`. -/
def Safe (x : Prog σ ε α) (s : σ) (Q : α → σ → Prop) : Prop :=
  match x s with
  | .ok a s' => Q a s'
  | .err _ _ => True
  | .fault => False
  | .hang => False

theorem Safe.bind {Q : β → σ → Prop}
    (h : x.Safe s fun a s' => (f a).Safe s' Q) : (x >>= f).Safe s Q := by
  unfold Safe at h ⊢
  rw [bind_apply]
  cases hx : x s <;> rw [hx] at h <;> exact h

variable {Q : α → σ → Prop}

theorem Safe.mono {P : α → σ → Prop} (h : x.Safe s P)
    (hpq : ∀ a s', P a s' → Q a s') : x.Safe s Q := by
  unfold Safe at h ⊢
  cases hx : x s with
  | ok a s' =>
    rw [hx] at h
    exact hpq a s' h
  | err e s' => trivial
  | fault => rwa [hx] at h
  | hang => rwa [hx] at h

theorem Safe.pure (h : Q a s) :
    (pure a : Prog σ ε α).Safe s Q := h

theorem Safe.read {f : σ → α} (h : Q (f s) s) :
    (read f : Prog σ ε α).Safe s Q := h

theorem Safe.throw (e : ε) (s : σ) (Q : α → σ → Prop) : (throw e : Prog σ ε α).Safe s Q := trivial

theorem Safe.wrap (h : x.Safe s Q) : (x.wrap g).Safe s Q := by
  unfold Safe at h ⊢
  unfold Prog.wrap
  cases hx : x s <;> rw [hx] at h <;> exact h

/-- The program returns: a value or an error. -/
def Returns (x : Prog σ ε α) (s : σ) : Prop := x.Safe s fun _ _ => True

theorem returns_of_ok (h : x s = .ok a s') : x.Returns s := by
  rw [Returns, Safe, h]
  trivial

theorem returns_of_err {e : ε} (h : x s = .err e s') : x.Returns s := by
  rw [Returns, Safe, h]
  trivial

theorem not_returns_of_fault (h : x s = .fault) : ¬ x.Returns s := by
  rw [Returns, Safe, h]
  exact fun hf => hf

theorem returns_congr {y : Prog σ ε α} (h : x s = y s') : x.Returns s ↔ y.Returns s' := by
  rw [Returns, Returns, Safe, Safe, h]

/-- A program with a part after it that is always safe returns exactly when it does. -/
theorem returns_bind_iff
    (hf : ∀ a s', x s = .ok a s' → (f a).Returns s') : (x >>= f).Returns s ↔ x.Returns s := by
  unfold Returns Safe at *
  rw [bind_apply]
  cases hx : x s with
  | ok a s' => exact iff_of_true (hf a s' hx) trivial
  | err e s' => rfl
  | fault => rfl
  | hang => rfl

theorem returns_wrap_iff : (x.wrap g).Returns s ↔ x.Returns s := by
  unfold Returns Safe Prog.wrap
  cases x s <;> rfl

end Prog
end SrsChatRoom
