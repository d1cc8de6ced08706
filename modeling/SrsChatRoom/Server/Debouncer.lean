import SrsChatRoom.Lib.Dict
import SrsChatRoom.Lib.System

/-!
# Debounced sync events (`sync_client.py`)

`Debouncer.emit` puts an event into `_pending`, where it replaces what an earlier `emit` of the same
room and event left, and registers a timer. The timer's lambda looks up `self._flush`, which the
class does not have, so the timer ends in an `AttributeError` and nobody empties `_pending` or calls
the flush callback. A run fires the timers in any order.

- `calls_fullSync`: the flush callback is never called.
- `lossless_iff`: no event is lost exactly when none was emitted.
-/

namespace SrsChatRoom.Server.Sync

/-! ## Data -/

/-- The values in the bodies of the events. -/
inductive Json
  | str (s : String)
  | int (n : ℤ)
  | bool (b : Bool)
deriving DecidableEq

/-- A body: the items of a dictionary literal. -/
abbrev Body := List (String × Json)

/-- `SYNC_DEBOUNCE_MS` -/
def SYNC_DEBOUNCE_MS : ℕ := 100

/-- The arguments of a call of `emit`. -/
structure Emitted where
  roomId : String
  event : String
  body : Body
deriving DecidableEq

/-- The user that a member event is about: `body.get("user_id")`. -/
def Emitted.userId (e : Emitted) : Option Json := e.body.lookup "user_id"

/-- An entry of `_pending`, with its time in milliseconds. -/
structure Entry where
  body : Body
  fireAt : ℕ
  roomId : String
  event : String
deriving DecidableEq

/-- What a timer's lambda makes a task of. -/
inductive Timer
  | flush (key : String)
  | flushFull (roomId : String)
deriving DecidableEq

/-- The calls of the two callbacks. -/
inductive Call
  | onFlush (e : Emitted)
  | fullSync (roomId : String)
deriving DecidableEq

/-- The debouncer with what the event loop holds for it: the timers not yet fired, the tasks of
`_flush_full` not yet run and the exceptions of the lambdas; and the record of its calls. -/
structure Debouncer where
  pending : Dict String Entry
  fullPending : Dict String ℕ
  timers : List Timer
  tasks : List String
  unhandled : List String
  emitted : List Emitted
  calls : List Call

/-- What can happen, with the time at which it does. Timers and tasks are named by their index. -/
inductive Action
  | emit (e : Emitted) (now : ℕ)
  | emitFullSync (roomId : String) (now : ℕ)
  | fire (n : ℕ)
  | run (n : ℕ)
  | cancelAll
deriving DecidableEq

/-! ## Code -/

namespace Debouncer

/-- `Debouncer()` -/
def init : Debouncer := ⟨Dict.empty, Dict.empty, [], [], [], [], []⟩

/-- `_key` -/
def key (roomId event : String) : String := roomId ++ "::" ++ event

/-- The attributes of the class and of its instances. -/
def attributes : List String :=
  ["_key", "emit", "emit_full_sync", "_flush_full", "set_flush_callback", "cancel_all",
    "_deb", "_pending", "_full_pending", "_lock", "_on_flush"]

/-- `emit` -/
def emit (d : Debouncer) (e : Emitted) (now : ℕ) : Debouncer :=
  let key := key e.roomId e.event
  { d with
    pending := d.pending.set key ⟨e.body, now + SYNC_DEBOUNCE_MS, e.roomId, e.event⟩
    timers := d.timers ++ [.flush key]
    emitted := d.emitted ++ [e] }

/-- `emit_full_sync` -/
def emitFullSync (d : Debouncer) (roomId : String) (now : ℕ) : Debouncer :=
  let prev := (d.fullPending.get? roomId).getD 0
  { d with
    fullPending := d.fullPending.set roomId (max prev (now + 300))
    timers := d.timers ++ [.flushFull roomId] }

/-- The lambda of a timer: it makes a task of the method it finds. -/
def expire (d : Debouncer) : Timer → Debouncer
  | .flush _ =>
    if "_flush" ∈ attributes then d
    else { d with unhandled := d.unhandled ++ ["'Debouncer' object has no attribute '_flush'"] }
  | .flushFull roomId => { d with tasks := d.tasks ++ [roomId] }

/-- `_flush_full` -/
def flushFull (d : Debouncer) (roomId : String) : Debouncer :=
  { d with
    fullPending := d.fullPending.erase roomId
    calls := d.calls ++ [.fullSync roomId] }

/-- `cancel_all`, which leaves the timers. -/
def cancelAll (d : Debouncer) : Debouncer :=
  { d with pending := Dict.empty, fullPending := Dict.empty }

/-- One step of a run. -/
def step (d : Debouncer) : Action → Option Debouncer
  | .emit e now => some (d.emit e now)
  | .emitFullSync roomId now => some (d.emitFullSync roomId now)
  | .fire n => d.timers[n]?.map fun t => { d with timers := d.timers.eraseIdx n }.expire t
  | .run n => d.tasks[n]?.map fun roomId => { d with tasks := d.tasks.eraseIdx n }.flushFull roomId
  | .cancelAll => some d.cancelAll

end Debouncer

/-- The event reports of `SyncClient`: an `emit`, and for most of them a full sync of the room. -/
def report (enabled : Bool) (e : Emitted) (fullSync : Bool) (now : ℕ) : List Action :=
  if enabled then .emit e now :: if fullSync then [.emitFullSync e.roomId now] else [] else []

/-- `SyncClient.member_joined` -/
def memberJoined (enabled : Bool) (roomId userId role joinedAt lastActive : String) (now : ℕ) :
    List Action :=
  report enabled ⟨roomId, "member_joined", [("user_id", .str userId), ("role", .str role),
    ("joined_at", .str joinedAt), ("last_active", .str lastActive)]⟩ true now

namespace Debouncer

variable {d d' : Debouncer}

/-! ## What a step does -/

@[simp] theorem expire_pending (t : Timer) : (d.expire t).pending = d.pending := by
  cases t <;> rfl

@[simp] theorem expire_emitted (t : Timer) : (d.expire t).emitted = d.emitted := by
  cases t <;> rfl

@[simp] theorem expire_calls (t : Timer) : (d.expire t).calls = d.calls := by
  cases t <;> rfl

/-- Only `emit` adds to `_pending`, and only `_flush_full` calls back. -/
theorem step_cases {a : Action} (h : d.step a = some d') :
    (∃ e now, a = .emit e now ∧ d' = d.emit e now) ∨
    (d'.emitted = d.emitted ∧ (d'.pending = d.pending ∨ d'.pending = Dict.empty) ∧
      ∃ rooms : List String, d'.calls = d.calls ++ rooms.map Call.fullSync) := by
  cases a with
  | emit e now =>
    cases Option.some.inj h
    exact .inl ⟨e, now, rfl, rfl⟩
  | emitFullSync roomId now =>
    cases Option.some.inj h
    exact .inr ⟨rfl, .inl rfl, [], (List.append_nil _).symm⟩
  | fire n =>
    obtain ⟨t, -, rfl⟩ := Option.map_eq_some_iff.mp h
    exact .inr ⟨expire_emitted t, .inl (expire_pending t), [], by simp⟩
  | run n =>
    obtain ⟨roomId, -, rfl⟩ := Option.map_eq_some_iff.mp h
    exact .inr ⟨rfl, .inl rfl, [roomId], rfl⟩
  | cancelAll =>
    cases Option.some.inj h
    exact .inr ⟨rfl, .inr rfl, [], (List.append_nil _).symm⟩

/-! ## Every run -/

/-- The flush callback is never called. -/
theorem calls_fullSync (h : System.Reaches step System.anyStep init d) (e : Emitted) :
    Call.onFlush e ∉ d.calls := by
  refine System.Reaches.invariant (I := fun d : Debouncer => Call.onFlush e ∉ d.calls) ?_ h ?_
  · intro d a d' hd _ hstep
    obtain ⟨e', now, rfl, rfl⟩ | ⟨-, -, rooms, hcalls⟩ := step_cases hstep
    · exact hd
    · rw [hcalls, List.mem_append, not_or]
      exact ⟨hd, by simp⟩
  · exact List.not_mem_nil

/-- A later `emit` for the same room, event and `user_id`. -/
def Superseded (e : Emitted) (after : List Emitted) : Prop :=
  ∃ e' ∈ after, e'.roomId = e.roomId ∧ e'.event = e.event ∧ e'.userId = e.userId

/-- Each emitted event was passed to the flush callback or superseded. -/
def Lossless (d : Debouncer) : Prop :=
  ∀ before e after, d.emitted = before ++ e :: after → .onFlush e ∈ d.calls ∨ Superseded e after

theorem lossless_of_emitted_eq_nil (h : d.emitted = []) : d.Lossless := by
  intro before e after hemitted
  rw [h] at hemitted
  cases before <;> cases hemitted

/-- The last event is neither superseded nor passed to the callback. -/
theorem not_lossless (h : System.Reaches step System.anyStep init d) (hne : d.emitted ≠ []) :
    ¬ d.Lossless := by
  intro hlossless
  have hlast : d.emitted = d.emitted.dropLast ++ d.emitted.getLast hne :: [] :=
    (List.dropLast_append_getLast hne).symm
  obtain hcalled | ⟨e', he', -⟩ := hlossless _ _ _ hlast
  · exact calls_fullSync h _ hcalled
  · cases he'

/-- In every state reached, with timers left or with all of them fired, no event is lost exactly
when none was emitted. -/
theorem lossless_iff (h : System.Reaches step System.anyStep init d) :
    d.Lossless ↔ d.emitted = [] := by
  constructor
  · intro hlossless
    by_contra hne
    exact not_lossless h hne hlossless
  · exact lossless_of_emitted_eq_nil

/-- A full sync with no event: nothing is lost. -/
theorem lossless_fullSync : ∃ d : Debouncer,
    d.calls = [.fullSync "r"] ∧ d.timers = [] ∧ d.tasks = [] ∧ d.Lossless := by
  obtain ⟨d, hrun, -, hobs⟩ := System.reaches_of_observe step System.anyStep init
    [.emitFullSync "r" 0, .fire 0, .run 0]
    (fun d => (d.calls, d.timers, d.tasks, d.emitted))
    (b := ([.fullSync "r"], [], [], [])) (by decide +kernel)
  obtain ⟨hcalls, hrest⟩ := Prod.mk.inj hobs
  obtain ⟨htimers, hrest⟩ := Prod.mk.inj hrest
  obtain ⟨htasks, hemitted⟩ := Prod.mk.inj hrest
  exact ⟨d, hcalls, htimers, htasks, (lossless_iff hrun).mpr hemitted⟩

/-- Two users join a room 10 ms apart and all timers fire: the only calls are the full syncs, and
neither event was delivered. -/
theorem member_joined_lost : ∃ d : Debouncer,
    System.Reaches step System.anyStep init d ∧ d.timers = [] ∧ d.tasks = [] ∧
      d.emitted.map Emitted.userId = [some (.str "alice"), some (.str "bob")] ∧
      d.calls = [.fullSync "r", .fullSync "r"] ∧ ¬ d.Lossless := by
  obtain ⟨d, hrun, -, hobs⟩ := System.reaches_of_observe step System.anyStep init
    (memberJoined true "r" "alice" "member" "" "" 0 ++ memberJoined true "r" "bob" "member" "" "" 10
      ++ [.fire 0, .fire 1, .fire 0, .run 0, .fire 0, .run 0])
    (fun d => (d.timers, d.tasks, d.emitted.map Emitted.userId, d.calls))
    (b := ([], [], [some (.str "alice"), some (.str "bob")], [.fullSync "r", .fullSync "r"]))
    (by decide +kernel)
  obtain ⟨htimers, hrest⟩ := Prod.mk.inj hobs
  obtain ⟨htasks, hrest⟩ := Prod.mk.inj hrest
  obtain ⟨hemitted, hcalls⟩ := Prod.mk.inj hrest
  have hne : d.emitted ≠ [] := by
    intro hnil
    rw [hnil] at hemitted
    cases hemitted
  exact ⟨d, hrun, htimers, htasks, hemitted, hcalls, not_lossless hrun hne⟩

end Debouncer

end SrsChatRoom.Server.Sync
