import Mathlib.Data.List.TakeWhile
import Mathlib.Order.Interval.Set.Basic
import Mathlib.Tactic

/-!
# The delay before a reconnect (`SyncClient._run`)

A round of the loop of `_run` waits, if a connection was lost or refused before, and connects. The
delay is doubled before it is slept, but it is set back to a second in front of every attempt, not
when an attempt succeeds. The delays are therefore all the same, `delay_eq`.
-/

namespace SrsChatRoom.Server.SyncBackoff

/-! ## Code -/

/-- How the attempt of a round ends. A connection that was made is lost again before the next. -/
inductive Attempt
  | connected
  | failed
deriving DecidableEq

/-- A round, with what `random.uniform(0, 1)` gives in it. -/
structure Round where
  jitter : Set.Icc (0 : ℚ) 1
  attempt : Attempt

/-- `_reconnect_delay` and `_stats["reconnects"]` -/
structure Reconnect where
  reconnectDelay : ℚ
  reconnects : ℕ

namespace Reconnect

/-- `SyncClient()` -/
def init : Reconnect := ⟨1, 0⟩

/-- The head of a round: the delay that is slept. -/
def backOff (syncReconnectMax : ℤ) (jitter : Set.Icc (0 : ℚ) 1) (r : Reconnect) : Reconnect :=
  if r.reconnects > 0 then
    { r with reconnectDelay := min (r.reconnectDelay * 2 + jitter) syncReconnectMax }
  else r

/-- `self._reconnect_delay = 1.0` -/
def reset (r : Reconnect) : Reconnect := { r with reconnectDelay := 1 }

/-- The rest of a round, behind the reset. -/
def connect (attempt : Attempt) (r : Reconnect) : Reconnect :=
  match attempt with
  | .connected => { r with reconnects := 0 + 1 }
  | .failed => { r with reconnects := r.reconnects + 1 }

/-- A round. -/
def round (syncReconnectMax : ℤ) (r : Reconnect) (x : Round) : Reconnect :=
  ((r.backOff syncReconnectMax x.jitter).reset).connect x.attempt

/-- The rounds so far. -/
def after (syncReconnectMax : ℤ) (rounds : List Round) : Reconnect :=
  rounds.foldl (round syncReconnectMax) init

end Reconnect

open Reconnect

/-! ## What is expected of it -/

/-- The attempts that have failed in a row up to now. -/
def failures (rounds : List Round) : ℕ :=
  (rounds.reverse.takeWhile fun x => x.attempt = .failed).length

/-- The delay that the round `x` comes to, behind the rounds `done`. -/
def delay (syncReconnectMax : ℤ) (done : List Round) (x : Round) : ℚ :=
  ((after syncReconnectMax done).backOff syncReconnectMax x.jitter).reconnectDelay

/-- The delay grows with the failures, up to the maximum. -/
def Exponential (syncReconnectMax : ℤ) (done : List Round) (x : Round) : Prop :=
  1 ≤ failures done →
    min (2 ^ (failures done - 1)) (syncReconnectMax : ℚ) ≤ delay syncReconnectMax done x ∧
      delay syncReconnectMax done x ≤ syncReconnectMax

/-- The reset in a round changes the delay only if the last attempt has succeeded. -/
def ResetsOnSuccess (syncReconnectMax : ℤ) (done : List Round) (x : Round) : Prop :=
  delay syncReconnectMax done x ≠ 1 →
    done.getLast?.map Round.attempt = some .connected

/-- Every round of a run, behind those before it. -/
def EachRound (P : List Round → Round → Prop) (rounds : List Round) : Prop :=
  ∀ done x rest, rounds = done ++ x :: rest → P done x

theorem eachRound_congr {P Q : List Round → Round → Prop} (h : ∀ done x, P done x ↔ Q done x)
    (rounds : List Round) : EachRound P rounds ↔ EachRound Q rounds := by
  unfold EachRound
  simp only [h]

/-! ## The delay -/

variable (syncReconnectMax : ℤ)

theorem after_concat (done : List Round) (x : Round) :
    after syncReconnectMax (done ++ [x])
      = (after syncReconnectMax done).round syncReconnectMax x := by
  simp [after]

/-- Behind every round the delay is a second again, and there is one to be slept. -/
theorem after_eq (done : List Round) :
    (after syncReconnectMax done).reconnectDelay = 1 ∧
      (0 < (after syncReconnectMax done).reconnects ↔ done ≠ []) := by
  induction done using List.reverseRecOn with
  | nil => simp [after, init]
  | append_singleton done x ih =>
    rw [after_concat]
    unfold Reconnect.round connect
    cases x.attempt with
    | connected => simp [reset]
    | failed => simp [reset]

/-- The delay does not depend on how often the connection failed. -/
theorem delay_eq {done : List Round} (h : done ≠ []) (x : Round) :
    delay syncReconnectMax done x = min (2 + (x.jitter : ℚ)) syncReconnectMax := by
  obtain ⟨hdelay, hreconnects⟩ := after_eq syncReconnectMax done
  rw [delay, backOff, if_pos (hreconnects.mpr h)]
  simp only [hdelay, one_mul]

theorem delay_nil (x : Round) : delay syncReconnectMax [] x = 1 := rfl

theorem failures_concat (done : List Round) (x : Round) :
    failures (done ++ [x]) = if x.attempt = .failed then failures done + 1 else 0 := by
  unfold failures
  rw [List.reverse_append, List.reverse_singleton, List.singleton_append, List.takeWhile_cons]
  by_cases hx : x.attempt = .failed
  · simp [hx]
  · simp [hx]

/-- No failure is the last thing that happened: nothing has, or a connection was made. -/
theorem failures_eq_zero_iff (done : List Round) :
    failures done = 0 ↔ done = [] ∨ done.getLast?.map Round.attempt = some .connected := by
  induction done using List.reverseRecOn with
  | nil => simp [failures]
  | append_singleton done x ih =>
    rw [failures_concat, List.getLast?_append]
    cases hx : x.attempt with
    | connected => simp [hx]
    | failed => simp [hx]

theorem ne_nil_of_failures {done : List Round} (h : 1 ≤ failures done) : done ≠ [] := by
  intro hnil
  rw [hnil] at h
  exact absurd h (by decide)

/-! ## The result -/

/-- A power that stays below what is slept: there are two failures at most. -/
theorem pow_le_iff {n : ℕ} (hn : 1 ≤ n) (jitter : Set.Icc (0 : ℚ) 1) :
    (2 : ℚ) ^ (n - 1) ≤ 2 + jitter ↔ n ≤ 2 := by
  have hlow : (0 : ℚ) ≤ jitter := jitter.2.1
  have hhigh : (jitter : ℚ) ≤ 1 := jitter.2.2
  constructor
  · intro hle
    by_contra hmore
    have htwo : (2 : ℚ) ^ 2 ≤ 2 ^ (n - 1) := pow_le_pow_right₀ (by norm_num) (by omega)
    linarith
  · intro hle
    have htwo : (2 : ℚ) ^ (n - 1) ≤ 2 ^ 1 := pow_le_pow_right₀ (by norm_num) (by omega)
    linarith

theorem exponential_iff (done : List Round) (x : Round) :
    Exponential syncReconnectMax done x ↔
      failures done ≤ 2 ∨ (syncReconnectMax : ℚ) ≤ 2 + x.jitter := by
  unfold Exponential
  by_cases hfailed : 1 ≤ failures done
  · rw [delay_eq syncReconnectMax (ne_nil_of_failures hfailed), ← pow_le_iff hfailed x.jitter]
    constructor
    · intro h
      have hbound := (h hfailed).1
      rw [le_min_iff, min_le_iff, min_le_iff] at hbound
      exact hbound.1
    · intro h _
      refine ⟨le_min ?_ (min_le_right _ _), min_le_right _ _⟩
      exact min_le_iff.mpr h
  · have hfew : failures done ≤ 2 := by omega
    simp [hfailed, hfew]

theorem resetsOnSuccess_iff (done : List Round) (x : Round) :
    ResetsOnSuccess syncReconnectMax done x ↔ failures done = 0 ∨ syncReconnectMax = 1 := by
  unfold ResetsOnSuccess
  rw [failures_eq_zero_iff]
  by_cases hnil : done = []
  · rw [hnil, delay_nil]
    simp
  · -- what is slept is a second only if no more than a second is allowed
    have hone : delay syncReconnectMax done x = 1 ↔ syncReconnectMax = 1 := by
      have hlow : (0 : ℚ) ≤ x.jitter := x.jitter.2.1
      rw [delay_eq syncReconnectMax hnil]
      constructor
      · intro hmin
        have hlt : (syncReconnectMax : ℚ) ≤ 2 + x.jitter := by
          by_contra hmore
          rw [min_eq_left (le_of_not_ge hmore)] at hmin
          linarith
        rw [min_eq_right hlt] at hmin
        exact_mod_cast hmin
      · intro hmax
        rw [hmax, Int.cast_one, min_eq_right]
        linarith
    rw [ne_eq, hone]
    tauto

/-- In a run the delays grow with the failures exactly as long as there are two at most, or the
maximum is no more than what is slept anyway; and the delay is set back after a success only,
exactly if no attempt follows a failed one, or the maximum is a second. -/
theorem backs_off_iff (syncReconnectMax : ℤ) (rounds : List Round) :
    (EachRound (Exponential syncReconnectMax) rounds ↔
      EachRound (fun done x => failures done ≤ 2 ∨ (syncReconnectMax : ℚ) ≤ 2 + x.jitter) rounds) ∧
    (EachRound (ResetsOnSuccess syncReconnectMax) rounds ↔
      EachRound (fun done _ => failures done = 0 ∨ syncReconnectMax = 1) rounds) := by
  constructor
  · exact eachRound_congr (exponential_iff syncReconnectMax) rounds
  · exact eachRound_congr (resetsOnSuccess_iff syncReconnectMax) rounds

/-- A round that fails, with the least jitter. -/
def refused : Round := ⟨⟨0, by norm_num⟩, .failed⟩

/-- After three failures two seconds are slept instead of four, and the delay is set back. -/
theorem three_failures : ¬ EachRound (Exponential 300) [refused, refused, refused, refused] ∧
    ¬ EachRound (ResetsOnSuccess 300) [refused, refused, refused, refused] := by
  have hlast : [refused, refused, refused, refused]
      = [refused, refused, refused] ++ refused :: [] := rfl
  have hfailures : failures [refused, refused, refused] = 3 := by decide
  have hdelay : delay 300 [refused, refused, refused] refused = 2 := by
    rw [delay_eq 300 (by simp)]
    norm_num [refused]
  constructor
  · intro heach
    have hbound := (heach _ _ _ hlast (by omega)).1
    rw [hfailures, hdelay] at hbound
    norm_num at hbound
  · intro heach
    have hsuccess := heach _ _ _ hlast (by rw [hdelay]; norm_num)
    exact absurd hsuccess (by decide)

end SrsChatRoom.Server.SyncBackoff
