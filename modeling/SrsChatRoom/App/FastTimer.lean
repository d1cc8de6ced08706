import Mathlib.Data.List.Nodup
import SrsChatRoom.Lib.System

/-!
# The shared timer (`srs_app_hourglass.cpp`)

A round of `cycle` calls the handlers by their index in the live list, and callbacks subscribe and
unsubscribe handlers in the meantime. A handler that is unsubscribed moves those behind it one
place to the front: if it is not behind the handler that is being called, the loop variable then
skips the next one.

`Watch` keeps beside the timer what the operations say of each handler.
-/

namespace SrsChatRoom.App.FastTimer

/-! ## Code -/

/-- `SrsFastTimer`; the loop variable is there while a handler is being called. -/
structure SrsFastTimer (η : Type) where
  handlers : List η := []
  i : Option ℕ := none

namespace SrsFastTimer

variable {η : Type} [DecidableEq η]

def subscribe (t : SrsFastTimer η) (timer : η) : SrsFastTimer η :=
  if timer ∈ t.handlers then t else { t with handlers := t.handlers ++ [timer] }

def unsubscribe (t : SrsFastTimer η) (timer : η) : SrsFastTimer η :=
  { t with handlers := t.handlers.erase timer }

end SrsFastTimer

/-! ## Runs -/

/-- What is watched of the handlers. -/
structure Watch (η : Type) where
  /-- subscribed, and not unsubscribed since -/
  subscribed : η → Bool := fun _ => false
  /-- subscribed when the round began, and not unsubscribed in it -/
  throughout : η → Bool := fun _ => false
  /-- the calls of the round -/
  called : List η := []
  /-- the calls of handlers that were not subscribed -/
  strays : List η := []

structure State (η : Type) where
  timer : SrsFastTimer η := {}
  watch : Watch η := {}

/-- What happens next: a callback or another coroutine subscribes or unsubscribes a handler, the
timer wakes up, or a callback returns. -/
inductive Action (η : Type)
  | subscribe (timer : η)
  | unsubscribe (timer : η)
  | wake
  | ret

variable {η : Type} [DecidableEq η]

def Watch.onSubscribe (w : Watch η) (timer : η) : Watch η :=
  { w with subscribed := Function.update w.subscribed timer true }

def Watch.onUnsubscribe (w : Watch η) (inRound : Bool) (timer : η) : Watch η :=
  { w with
    subscribed := Function.update w.subscribed timer false
    throughout := if inRound then Function.update w.throughout timer false else w.throughout }

def Watch.onWake (w : Watch η) : Watch η := { w with throughout := w.subscribed, called := [] }

def Watch.onCall (w : Watch η) (timer : η) : Watch η :=
  { w with
    called := timer :: w.called
    strays := if w.subscribed timer then w.strays else timer :: w.strays }

/-- The loop of `cycle` at `i`: a handler is called, or the round is over. -/
def State.loop (s : State η) (i : ℕ) : State η :=
  match s.timer.handlers[i]? with
  | some timer => { timer := { s.timer with i := some i }, watch := s.watch.onCall timer }
  | none => { s with timer := { s.timer with i := none } }

def step (s : State η) : Action η → Option (State η)
  | .subscribe timer =>
    some { timer := s.timer.subscribe timer, watch := s.watch.onSubscribe timer }
  | .unsubscribe timer =>
    some { timer := s.timer.unsubscribe timer
           watch := s.watch.onUnsubscribe s.timer.i.isSome timer }
  | .wake =>
    match s.timer.i with
    | none => some ({ s with watch := s.watch.onWake }.loop 0)
    | some _ => none
  | .ret =>
    match s.timer.i with
    | none => none
    | some i => some (s.loop (i + 1))

/-- When a round is over, each handler that was subscribed throughout has been called once, and no
handler was ever called that was not subscribed. -/
structure Good (s : State η) : Prop where
  once : s.timer.i = none → ∀ x, s.watch.throughout x = true → s.watch.called.count x = 1
  strays : s.watch.strays = []

/-- A handler is unsubscribed during a round only if it is behind the one that is being called, or
if none behind that one was subscribed throughout. -/
def Proper (s : State η) : Action η → Prop
  | .unsubscribe timer => ∀ i ∈ s.timer.i, timer ∈ s.timer.handlers.take (i + 1) →
      ∀ x ∈ s.timer.handlers.drop (i + 1), s.watch.throughout x = false
  | _ => True

instance (s : State η) (a : Action η) : Decidable (Proper s a) := by
  cases a <;> simp only [Proper] <;> infer_instance

/-! ## Invariant -/

/-- The first `n` handlers have been called, as far as they were subscribed throughout, and these
stand in front of all others. -/
structure Round (s : State η) (n : ℕ) : Prop where
  served : ∀ x, s.watch.throughout x = true →
    x ∈ s.timer.handlers.take n ∧ s.watch.called.count x = 1 ∨
      x ∈ s.timer.handlers.drop n ∧ s.watch.called.count x = 0
  order : s.timer.handlers.Pairwise fun a b =>
    s.watch.throughout b = true → s.watch.throughout a = true

/-- The list holds the subscribed handlers, each once. -/
structure Listed (s : State η) : Prop where
  nodup : s.timer.handlers.Nodup
  subscribed : ∀ x, s.watch.subscribed x = true ↔ x ∈ s.timer.handlers
  strays : s.watch.strays = []

structure Inv (s : State η) : Prop where
  listed : Listed s
  round : ∀ i, s.timer.i = some i → Round s (i + 1)
  once : s.timer.i = none → ∀ x, s.watch.throughout x = true → s.watch.called.count x = 1

section Steps

variable {s : State η}

variable {n : ℕ}

theorem Round.mem (h : Round s n) {x : η} (hx : s.watch.throughout x = true) :
    x ∈ s.timer.handlers := by
  cases h.served x hx with
  | inl hdone => exact List.mem_of_mem_take hdone.1
  | inr hcome => exact List.mem_of_mem_drop hcome.1

omit [DecidableEq η] in
theorem loop_none (h : s.timer.handlers[n]? = none) :
    s.loop n = { s with timer := { s.timer with i := none } } := by
  rw [State.loop, h]

omit [DecidableEq η] in
theorem loop_some {timer : η} (h : s.timer.handlers[n]? = some timer) :
    s.loop n = { timer := { s.timer with i := some n }, watch := s.watch.onCall timer } := by
  rw [State.loop, h]

/-- A round of the loop. -/
theorem inv_loop (hlisted : Listed s) (hround : Round s n) : Inv (s.loop n) := by
  cases hget : s.timer.handlers[n]? with
  | none =>
    rw [loop_none hget]
    -- all handlers are among the first n
    have hlength : s.timer.handlers.length ≤ n := List.getElem?_eq_none_iff.mp hget
    refine ⟨⟨hlisted.nodup, hlisted.subscribed, hlisted.strays⟩, (fun i hi => nomatch hi), ?_⟩
    intro _ x hx
    cases hround.served x hx with
    | inl hdone => exact hdone.2
    | inr hcome =>
      rw [List.drop_eq_nil_of_le hlength] at hcome
      exact absurd hcome.1 List.not_mem_nil
  | some timer =>
    rw [loop_some hget]
    have hdrop : s.timer.handlers.drop n = timer :: s.timer.handlers.drop (n + 1) := by
      obtain ⟨hn, htimer⟩ := List.getElem?_eq_some_iff.mp hget
      rw [← htimer, List.drop_eq_getElem_cons hn]
    have htake : s.timer.handlers.take (n + 1) = s.timer.handlers.take n ++ [timer] := by
      rw [List.take_add_one, hget, Option.toList_some]
    have hsplit : (s.timer.handlers.take n ++ timer :: s.timer.handlers.drop (n + 1)).Nodup := by
      rw [← hdrop, List.take_append_drop]
      exact hlisted.nodup
    have hfresh : timer ∉ s.timer.handlers.take n := by
      intro hmem
      exact (List.nodup_append.mp hsplit).2.2 timer hmem timer List.mem_cons_self rfl
    have hmem : s.watch.subscribed timer = true := by
      rw [hlisted.subscribed]
      exact List.mem_of_getElem? hget
    refine ⟨⟨hlisted.nodup, hlisted.subscribed, ?_⟩, ?_, fun hi => nomatch hi⟩
    · show (if s.watch.subscribed timer then s.watch.strays else _) = []
      rw [if_pos hmem]
      exact hlisted.strays
    · intro i hi
      cases hi
      refine ⟨?_, hround.order⟩
      intro x hx
      show x ∈ s.timer.handlers.take (n + 1) ∧ (timer :: s.watch.called).count x = 1 ∨
        x ∈ s.timer.handlers.drop (n + 1) ∧ (timer :: s.watch.called).count x = 0
      rw [htake, List.mem_append, List.mem_singleton]
      cases hround.served x hx with
      | inl hdone =>
        have hne : timer ≠ x := fun heq => hfresh (heq ▸ hdone.1)
        rw [List.count_cons_of_ne hne]
        exact .inl ⟨.inl hdone.1, hdone.2⟩
      | inr hcome =>
        rw [hdrop, List.mem_cons] at hcome
        cases hcome.1 with
        | inl heq =>
          rw [heq, List.count_cons_self, ← heq, hcome.2]
          exact .inl ⟨.inr rfl, rfl⟩
        | inr hbehind =>
          have hne : timer ≠ x := by
            intro heq
            have hnodup := (List.nodup_append.mp hsplit).2.1
            exact (List.nodup_cons.mp hnodup).1 (heq ▸ hbehind)
          rw [List.count_cons_of_ne hne]
          exact .inr ⟨hbehind, hcome.2⟩

theorem listed_subscribe (h : Listed s) (timer : η) : Listed
    { timer := s.timer.subscribe timer, watch := s.watch.onSubscribe timer : State η } := by
  have hmem : ∀ x, Function.update s.watch.subscribed timer true x = true ↔
      x ∈ (s.timer.subscribe timer).handlers := by
    intro x
    rw [Function.update_apply, SrsFastTimer.subscribe]
    split
    · next heq =>
      rw [heq]
      split
      · next hmem => exact iff_of_true rfl hmem
      · exact iff_of_true rfl (by simp)
    · next hne =>
      rw [h.subscribed]
      split
      · rfl
      · simp [hne]
  refine ⟨?_, hmem, h.strays⟩
  show (s.timer.subscribe timer).handlers.Nodup
  unfold SrsFastTimer.subscribe
  split
  · exact h.nodup
  · next hnot =>
    refine List.nodup_append.mpr ⟨h.nodup, List.nodup_singleton timer, ?_⟩
    intro a ha b hb heq
    rw [heq, List.mem_singleton.mp hb] at ha
    exact hnot ha

/-- What is appended was not subscribed throughout. -/
theorem round_subscribe (h : Round s n) (timer : η) : Round
    { timer := s.timer.subscribe timer, watch := s.watch.onSubscribe timer : State η } n := by
  by_cases hmem : timer ∈ s.timer.handlers
  · have hsame : s.timer.subscribe timer = s.timer := if_pos hmem
    rw [hsame]
    exact ⟨h.served, h.order⟩
  · have happend : (s.timer.subscribe timer).handlers = s.timer.handlers ++ [timer] := by
      rw [SrsFastTimer.subscribe, if_neg hmem]
    refine ⟨fun x hx => ?_, ?_⟩
    · show x ∈ (s.timer.subscribe timer).handlers.take n ∧ _ ∨
        x ∈ (s.timer.subscribe timer).handlers.drop n ∧ _
      rw [happend, List.take_append, List.drop_append]
      cases h.served x hx with
      | inl hdone => exact .inl ⟨List.mem_append_left _ hdone.1, hdone.2⟩
      | inr hcome => exact .inr ⟨List.mem_append_left _ hcome.1, hcome.2⟩
    · show (s.timer.subscribe timer).handlers.Pairwise _
      rw [happend]
      refine List.pairwise_append.mpr ⟨h.order, List.pairwise_singleton _ _, ?_⟩
      intro a _ b hb hthroughout
      rw [List.mem_singleton.mp hb] at hthroughout
      exact absurd (h.mem hthroughout) hmem

theorem listed_unsubscribe (h : Listed s) (inRound : Bool) (timer : η) : Listed
    { timer := s.timer.unsubscribe timer
      watch := s.watch.onUnsubscribe inRound timer : State η } := by
  refine ⟨h.nodup.erase timer, ?_, h.strays⟩
  intro x
  show Function.update s.watch.subscribed timer false x = true ↔ x ∈ s.timer.handlers.erase timer
  rw [h.nodup.mem_erase_iff, ← h.subscribed, Function.update_apply]
  split
  · next heq => simp [heq]
  · next hne => simp [hne]

/-- What is called remains called, and what is yet to come remains so. -/
theorem round_unsubscribe {i : ℕ} (hnodup : s.timer.handlers.Nodup) (h : Round s (i + 1))
    {timer : η} (hproper : timer ∈ s.timer.handlers.take (i + 1) →
      ∀ x ∈ s.timer.handlers.drop (i + 1), s.watch.throughout x = false) : Round
    { timer := s.timer.unsubscribe timer
      watch := s.watch.onUnsubscribe true timer : State η } (i + 1) := by
  have hother : ∀ {x}, Function.update s.watch.throughout timer false x = true →
      x ≠ timer ∧ s.watch.throughout x = true := by
    intro x hx
    rw [Function.update_apply] at hx
    split at hx
    · cases hx
    · next hne => exact ⟨hne, hx⟩
  have hsplit : s.timer.handlers.take (i + 1) ++ s.timer.handlers.drop (i + 1) =
      s.timer.handlers := List.take_append_drop _ _
  refine ⟨fun x hx => ?_, ?_⟩
  · obtain ⟨hne, hthroughout⟩ := hother hx
    show x ∈ (s.timer.handlers.erase timer).take (i + 1) ∧ _ ∨
      x ∈ (s.timer.handlers.erase timer).drop (i + 1) ∧ _
    rw [← hsplit, List.erase_append]
    split
    · next hin =>
      -- the others move to the front, and none behind counts
      cases h.served x hthroughout with
      | inl hdone =>
        have hlength : ((s.timer.handlers.take (i + 1)).erase timer).length ≤ i + 1 :=
          List.length_erase_le.trans (List.length_take_le _ _)
        rw [List.take_append, List.take_of_length_le hlength]
        exact .inl ⟨List.mem_append_left _ ((List.mem_erase_of_ne hne).mpr hdone.1), hdone.2⟩
      | inr hcome =>
        rw [hproper hin x hcome.1] at hthroughout
        cases hthroughout
    · rw [List.take_append, List.take_of_length_le (List.length_take_le _ _), List.drop_append]
      cases h.served x hthroughout with
      | inl hdone => exact .inl ⟨List.mem_append_left _ hdone.1, hdone.2⟩
      | inr hcome =>
        have hlength : i + 1 - (s.timer.handlers.take (i + 1)).length = 0 := by
          have hpos := List.length_pos_of_mem hcome.1
          rw [List.length_drop] at hpos
          rw [List.length_take]
          omega
        rw [hlength, List.drop_zero]
        have hmem := (List.mem_erase_of_ne hne).mpr hcome.1
        exact .inr ⟨List.mem_append_right _ hmem, hcome.2⟩
  · show (s.timer.handlers.erase timer).Pairwise _
    refine (h.order.sublist List.erase_sublist).imp_of_mem ?_
    intro a b ha _ hab hb
    have hane : a ≠ timer := fun heq => (hnodup.mem_erase_iff.mp ha).1 heq
    show Function.update s.watch.throughout timer false a = true
    rw [Function.update_of_ne hane]
    exact hab (hother hb).2

/-- When the timer wakes up, none of the handlers has been called. -/
theorem round_wake (h : Listed s) : Round { s with watch := s.watch.onWake } 0 := by
  refine ⟨?_, ?_⟩
  · intro x hx
    exact .inr ⟨(h.subscribed x).mp hx, rfl⟩
  · have hall : s.timer.handlers.Pairwise fun _ _ => True :=
      List.pairwise_of_forall fun _ _ => trivial
    apply hall.imp_of_mem
    intro a b ha _ _ _
    exact (h.subscribed a).mpr ha

theorem inv_step {a : Action η} {t : State η} (h : Inv s) (hproper : Proper s a)
    (hstep : step s a = some t) : Inv t := by
  cases a with
  | subscribe timer =>
    cases hstep
    have hi : (s.timer.subscribe timer).i = s.timer.i := by
      unfold SrsFastTimer.subscribe
      split <;> rfl
    refine ⟨listed_subscribe h.listed timer, ?_, ?_⟩
    · intro i hrunning
      exact round_subscribe (h.round i (hi.symm.trans hrunning)) timer
    · intro hidle
      exact h.once (hi.symm.trans hidle)
  | unsubscribe timer =>
    cases hstep
    refine ⟨listed_unsubscribe h.listed _ timer, ?_, ?_⟩
    · intro i hrunning
      have hi : s.timer.i = some i := hrunning
      rw [hi]
      exact round_unsubscribe h.listed.nodup (h.round i hi) (hproper i hi)
    · intro hidle
      have hi : s.timer.i = none := hidle
      rw [hi]
      exact h.once hi
  | wake =>
    cases hi : s.timer.i with
    | some i =>
      simp only [step, hi] at hstep
      cases hstep
    | none =>
      simp only [step, hi, Option.some.injEq] at hstep
      rw [← hstep]
      apply inv_loop _ (round_wake h.listed)
      exact ⟨h.listed.nodup, h.listed.subscribed, h.listed.strays⟩
  | ret =>
    cases hi : s.timer.i with
    | none =>
      simp only [step, hi] at hstep
      cases hstep
    | some i =>
      simp only [step, hi, Option.some.injEq] at hstep
      rw [← hstep]
      exact inv_loop h.listed (h.round i hi)

end Steps

theorem inv_start : Inv ({} : State η) where
  listed := ⟨List.nodup_nil, fun x => by simp, rfl⟩
  round i hi := nomatch hi
  once _ x hx := nomatch hx

/-- In every run whose operations are proper, no handler is skipped, called twice or called after
it was unsubscribed. -/
theorem good_of_proper_run {s : State η} (hrun : System.Reaches step Proper {} s) : Good s := by
  have hinv : Inv s := hrun.invariant (fun _ _ _ h hproper hstep => inv_step h hproper hstep)
    inv_start
  exact ⟨hinv.once, hinv.listed.strays⟩

/-- A callback unsubscribes the next handler, and subscribes another one. -/
theorem good_of_next_unsubscribed : ∃ s : State ℕ, System.Reaches step Proper {} s ∧ Good s ∧
    s.timer.i = none ∧ s.watch.called = [4, 3, 1] := by
  have hobserve := System.reaches_of_observe step Proper ({} : State ℕ)
    [.subscribe 1, .subscribe 2, .subscribe 3, .wake, .unsubscribe 2, .subscribe 4, .ret, .ret,
      .ret] (fun s => (s.timer.i, s.watch.called)) (b := (none, [4, 3, 1])) (by decide +kernel)
  obtain ⟨s, hrun, -, hs⟩ := hobserve
  obtain ⟨hidle, hcalled⟩ := Prod.mk.inj hs
  exact ⟨s, hrun, good_of_proper_run hrun, hidle, hcalled⟩

/-- A callback unsubscribes its own handler, and the next one is not called. -/
theorem next_skipped : ∃ s : State ℕ, System.Reaches step System.anyStep {} s ∧ ¬Good s := by
  have hobserve := System.reaches_of_observe step System.anyStep ({} : State ℕ)
    [.subscribe 1, .subscribe 2, .wake, .unsubscribe 1, .ret]
    (fun s => (s.timer.i, s.watch.called, s.watch.throughout 2)) (b := (none, [1], true))
    (by decide +kernel)
  obtain ⟨s, hrun, -, hs⟩ := hobserve
  obtain ⟨hidle, hrest⟩ := Prod.mk.inj hs
  obtain ⟨hcalled, hthroughout⟩ := Prod.mk.inj hrest
  refine ⟨s, hrun, fun hgood => ?_⟩
  have honce := hgood.once hidle 2 hthroughout
  rw [hcalled] at honce
  cases honce

end SrsChatRoom.App.FastTimer
