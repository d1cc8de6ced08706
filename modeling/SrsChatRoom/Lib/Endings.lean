import SrsChatRoom.Lib.Outcome

/-!
# The endings of a program

`x.Ends s Q E F` says how `x` may end when it is run on `s`: a value satisfies `Q`, a state that
an error leaves behind satisfies `E`, a fault happens only if `F`, and the program ends. With
`F := False` the program does not fault; with another `F` the rules collect what is known where it
does. There is one rule per construct, as for `Safe`.
-/

namespace SrsChatRoom.Prog

variable {σ τ ε α β : Type}

/-- How the program may end. -/
def Ends (x : Prog σ ε α) (s : σ) (Q : α → σ → Prop) (E : σ → Prop) (F : Prop) : Prop :=
  match x s with
  | .ok a s' => Q a s'
  | .err _ s' => E s'
  | .fault => F
  | .hang => False

section Rules

variable {s : σ} {Q : α → σ → Prop} {E : σ → Prop} {F : Prop}

variable {R : β → σ → Prop}

theorem Ends.bind {x : Prog σ ε α} {f : α → Prog σ ε β}
    (h : x.Ends s (fun a s' => (f a).Ends s' R E F) E F) : (x >>= f).Ends s R E F := by
  unfold Ends at h ⊢
  rw [bind_apply]
  cases hx : x s <;> rw [hx] at h <;> exact h

theorem Ends.mono {x : Prog σ ε α} {Q' : α → σ → Prop} {E' : σ → Prop} {F' : Prop}
    (h : x.Ends s Q E F) (hq : ∀ a s', Q a s' → Q' a s') (he : ∀ s', E s' → E' s')
    (hf : F → F') : x.Ends s Q' E' F' := by
  unfold Ends at h ⊢
  cases hx : x s with
  | ok a s' =>
    rw [hx] at h
    exact hq a s' h
  | err e s' =>
    rw [hx] at h
    exact he s' h
  | fault =>
    rw [hx] at h
    exact hf h
  | hang => rwa [hx] at h

theorem Ends.pure {a : α} (h : Q a s) : (pure a : Prog σ ε α).Ends s Q E F := h

theorem Ends.throw {e : ε} (h : E s) : (throw e : Prog σ ε α).Ends s Q E F := h

theorem Ends.read {f : σ → α} (h : Q (f s) s) : (read f : Prog σ ε α).Ends s Q E F := h

theorem Ends.bind_read {g : σ → α} {f : α → Prog σ ε β}
    (h : (f (g s)).Ends s R E F) : (Prog.read g >>= f).Ends s R E F :=
  Ends.bind (Ends.read h)

theorem Ends.wrap {g : ε → ε} {x : Prog σ ε α} (h : x.Ends s Q E F) : (x.wrap g).Ends s Q E F := by
  unfold Ends at h ⊢
  unfold Prog.wrap
  cases hx : x s <;> rw [hx] at h <;> exact h

/-- A branch is run where its condition holds. -/
theorem Ends.ite {c : Prop} [Decidable c] {x y : Prog σ ε α} (hx : c → x.Ends s Q E F)
    (hy : ¬ c → y.Ends s Q E F) : (if c then x else y).Ends s Q E F := by
  by_cases h : c
  · rw [if_pos h]
    exact hx h
  · rw [if_neg h]
    exact hy h

end Rules

/-! ## Two common parts of a program -/

/-- `if (c) return error` -/
def refuse (c : Prop) [Decidable c] (e : ε) : Prog σ ε Unit := if c then throw e else pure ()

/-- `if (flag) { x }` -/
def optional (flag : Bool) (x : Prog σ ε Unit) : Prog σ ε Unit := if flag then x else pure ()

variable {c : Prop}

theorem refuse_pass [Decidable c] (h : ¬ c) (e : ε) (s : σ) :
    (refuse c e : Prog σ ε Unit) s = .ok () s := by
  rw [refuse, if_neg h]
  rfl

theorem refuse_fail [Decidable c] (h : c) (e : ε) (s : σ) :
    (refuse c e : Prog σ ε Unit) s = .err e s := by
  rw [refuse, if_pos h]
  rfl

variable {s : σ} {E : σ → Prop} {F : Prop}

variable {e : ε}

theorem Ends.refuse [Decidable c] {Q : Unit → σ → Prop} (he : c → E s) (hq : ¬ c → Q () s) :
    (refuse c e).Ends s Q E F :=
  Ends.ite he hq

variable {f : Unit → Prog σ ε β}

variable {R : β → σ → Prop}

theorem Ends.bind_refuse [Decidable c] (he : c → E s) (hq : ¬ c → (f ()).Ends s R E F) :
    (Prog.refuse c e >>= f).Ends s R E F :=
  Ends.bind (Ends.refuse he hq)

theorem Ends.optional {flag : Bool} {x : Prog σ ε Unit} {Q : Unit → σ → Prop}
    (hx : flag = true → x.Ends s Q E F) (hq : flag = false → Q () s) :
    (optional flag x).Ends s Q E F :=
  Ends.ite hx fun h => hq (Bool.eq_false_iff.mpr h)

/-! ## A program on a part of the state -/

/-- Run a program on the part of the state that `get` reads and `set` replaces. -/
def zoom (get : σ → τ) (set : σ → τ → σ) (x : Prog τ ε α) : Prog σ ε α := fun s =>
  match x (get s) with
  | .ok a t => .ok a (set s t)
  | .err e t => .err e (set s t)
  | .fault => .fault
  | .hang => .hang

/-- Change the state. -/
def modify (f : σ → σ) : Prog σ ε Unit := fun s => .ok () (f s)

variable {Q : α → σ → Prop}

theorem Ends.zoom {get : σ → τ} {set : σ → τ → σ} {x : Prog τ ε α}
    (h : x.Ends (get s) (fun a t => Q a (set s t)) (fun t => E (set s t)) F) :
    (x.zoom get set).Ends s Q E F := by
  unfold Ends at h ⊢
  unfold Prog.zoom
  cases hx : x (get s) <;> rw [hx] at h <;> exact h

theorem Ends.modify {f : σ → σ} {Q : Unit → σ → Prop}
    (h : Q () (f s)) : (modify f : Prog σ ε Unit).Ends s Q E F := h

theorem Ends.bind_modify {g : σ → σ} (h : (f ()).Ends (g s) R E F) :
    (Prog.modify g >>= f).Ends s R E F :=
  Ends.bind (Ends.modify h)

/-! ## Errors -/

/-- Another type of errors. -/
def mapErr {δ : Type} (g : ε → δ) (x : Prog σ ε α) : Prog σ δ α := fun s =>
  match x s with
  | .ok a s' => .ok a s'
  | .err e s' => .err (g e) s'
  | .fault => .fault
  | .hang => .hang

/-- Run a program and go on with its error as a value. -/
def attempt (x : Prog σ ε α) : Prog σ ε (Except ε α) := fun s =>
  match x s with
  | .ok a s' => .ok (.ok a) s'
  | .err e s' => .ok (.error e) s'
  | .fault => .fault
  | .hang => .hang

variable {x : Prog σ ε α}

theorem Ends.mapErr {δ : Type} {g : ε → δ} (h : x.Ends s Q E F) : (x.mapErr g).Ends s Q E F := by
  unfold Ends at h ⊢
  unfold Prog.mapErr
  cases hx : x s <;> rw [hx] at h <;> exact h

theorem Ends.attempt {Q : Except ε α → σ → Prop}
    (h : x.Ends s (fun a t => Q (.ok a) t) (fun t => ∀ e, Q (.error e) t) F) :
    x.attempt.Ends s Q E F := by
  unfold Ends at h ⊢
  unfold Prog.attempt
  cases hx : x s with
  | ok a t =>
    rw [hx] at h
    exact h
  | err e t =>
    rw [hx] at h
    exact h e
  | fault =>
    rw [hx] at h
    exact h
  | hang =>
    rw [hx] at h
    exact h

/-! ## Endings and results -/

variable {s' : σ}

theorem Ends.ok {a : α} (h : x.Ends s Q E F) (hx : x s = .ok a s') : Q a s' := by
  unfold Ends at h
  rwa [hx] at h

theorem ends_of_ok {a : α} (hx : x s = .ok a s') (h : Q a s') : x.Ends s Q E F := by
  unfold Ends
  rwa [hx]

theorem ends_of_err (hx : x s = .err e s') (h : E s') : x.Ends s Q E F := by
  unfold Ends
  rwa [hx]

theorem Ends.err (h : x.Ends s Q E F) (hx : x s = .err e s') : E s' := by
  unfold Ends at h
  rwa [hx] at h

theorem Ends.returns (h : x.Ends s Q E F) (hf : ¬ F) : x.Returns s := by
  unfold Ends at h
  unfold Returns Safe
  cases hx : x s with
  | ok a s' => trivial
  | err e s' => trivial
  | fault =>
    rw [hx] at h
    exact hf h
  | hang => rwa [hx] at h

/-! ## Programs that always return -/

/-- From any state the program returns a value or an error. -/
def Total (x : Prog σ ε α) : Prop := ∀ s, x.Returns s

section Total

variable {x : Prog σ ε α}

theorem Total.of_ends (h : ∀ s, x.Ends s (fun _ _ => True) (fun _ => True) False) : x.Total :=
  fun s => (h s).returns id

theorem Total.ends (h : x.Total) (s : σ) : x.Ends s (fun _ _ => True) (fun _ => True) False := by
  have hs := h s
  unfold Returns Safe at hs
  unfold Ends
  cases hx : x s with
  | ok a s' => trivial
  | err e s' => trivial
  | fault => rwa [hx] at hs
  | hang => rwa [hx] at hs

theorem Total.bind {f : α → Prog σ ε β} (hx : x.Total) (hf : ∀ a, (f a).Total) : (x >>= f).Total :=
  Total.of_ends fun s => Ends.bind ((hx.ends s).mono (fun a s' _ => (hf a).ends s')
    (fun _ he => he) (fun h => h))

theorem total_pure (a : α) : (pure a : Prog σ ε α).Total := fun _ => trivial

theorem total_throw (e : ε) : (throw e : Prog σ ε α).Total := fun _ => trivial

theorem total_refuse (c : Prop) [Decidable c] (e : ε) : (refuse c e : Prog σ ε Unit).Total := by
  unfold refuse
  split
  · exact total_throw e
  · exact total_pure ()

theorem Total.ite {c : Prop} [Decidable c] {y : Prog σ ε α} (hx : x.Total) (hy : y.Total) :
    (if c then x else y).Total := by
  split
  · exact hx
  · exact hy

theorem Total.optional {flag : Bool} {y : Prog σ ε Unit} (hy : y.Total) :
    (optional flag y).Total := by
  cases flag with
  | true => exact hy
  | false => exact total_pure ()

theorem Total.mapErr {δ : Type} (h : x.Total) (g : ε → δ) : (x.mapErr g).Total :=
  Total.of_ends fun s => Ends.mapErr (h.ends s)

end Total

/-- Run a program on a state of its own. -/
def alone (x : Prog τ ε α) (t : τ) : Prog σ ε α := fun s =>
  match x t with
  | .ok a _ => .ok a s
  | .err e _ => .err e s
  | .fault => .fault
  | .hang => .hang

theorem alone_ok {x : Prog τ ε α} {t t' : τ} {a : α} (h : x t = .ok a t') (s : σ) :
    (x.alone t : Prog σ ε α) s = .ok a s := by
  rw [alone, h]

/-- A program on a state of its own leaves that of the caller as it is. -/
theorem Total.alone {x : Prog τ ε α} (h : x.Total) (t : τ) (s : σ) :
    (x.alone t : Prog σ ε α).Ends s (fun _ s' => s' = s) (fun s' => s' = s) False := by
  have ht := h.ends t
  unfold Ends at ht ⊢
  unfold Prog.alone
  cases hx : x t with
  | ok a t' => rfl
  | err e t' => rfl
  | fault => rwa [hx] at ht
  | hang => rwa [hx] at ht

end SrsChatRoom.Prog
