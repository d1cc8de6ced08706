import SrsChatRoom.Lib.System

/-!
# The sync link (`sync_client.py`)

The tasks of `SyncClient` on one event loop: `_run`, which connects, authenticates, receives and
connects again, the heartbeat, the full syncs, the debounced events and `stop`. A step takes one
task from one await to the next, so a run interleaves them in any order.

`_send_json` writes only while `_connected` is set, and `_run` sets it when `_connect` has returned,
that is behind `_send_auth`. The auth message is therefore never written (`auth_not_written`), and a
connection begins with whatever is sent on it next (`auth_first`).
-/

namespace SrsChatRoom.Server.SyncClient

/-! ## Data -/

/-- The frames of the link, by their `type`. -/
inductive Frame
  | auth
  | ping
  | pong
  | roomsSync
  | event
deriving DecidableEq

/-- The messages of the server, by what `_handle_msg` does with them. -/
inductive Message
  | ping
  | command
  | other
deriving DecidableEq

/-- How an await of `_run` ends. `takes` says whether the socket takes a frame sent next. -/
inductive Outcome
  | ok (takes : Bool)
  | failed
  | message (msg : Message) (takes : Bool)
deriving DecidableEq

/-- Where `_run` awaits. -/
inductive RunPoint
  | notStarted
  | created
  | sleeping
  | connecting
  | authenticating
  | receiving
  | handling
  | closing
  | ended
deriving DecidableEq

/-- Where the heartbeat and the full sync loop await. -/
inductive LoopPoint
  | notStarted
  | created
  | sleeping
  | collecting
  | sending
  | ended
deriving DecidableEq

/-- Where `stop` awaits. -/
inductive StopPoint
  | notCalled
  | closing
  | done
deriving DecidableEq

/-- The client with its tasks: `collecting` counts the calls of `_do_full_sync` that collect the
rooms. Connections are numbered in the order in which they open; `written` is what was written, with
the connection. -/
structure Client where
  enabled : Bool
  ws : Option ℕ
  connected : Bool
  shouldRun : Bool
  reconnects : ℕ
  opened : ℕ
  run : RunPoint
  heartbeat : LoopPoint
  fullSync : LoopPoint
  collecting : ℕ
  stopping : StopPoint
  written : List (ℕ × Frame)
deriving DecidableEq

/-- What can happen. -/
inductive Action
  | start
  | run (outcome : Outcome)
  | heartbeat (takes : Bool)
  | fullSync (states takes : Bool)
  | doFullSync
  | collected (states takes : Bool)
  | onFlushEvent (takes : Bool)
  | stop
  | stopClosed
deriving DecidableEq

namespace Client

/-- `SyncClient()` -/
def init (enabled : Bool) : Client :=
  ⟨enabled, none, false, false, 0, 0, .notStarted, .notStarted, .notStarted, 0, .notCalled, []⟩

/-! ## Code -/

/-- The test of `_send_json`. -/
def canSend (c : Client) : Bool := c.ws.isSome && c.connected

/-- `_send_json`: the socket may still refuse the frame, with an exception that is caught. -/
def sendJson (c : Client) (data : Frame) (takes : Bool) : Client :=
  match c.ws with
  | none => c
  | some ws => if c.connected && takes then { c with written := c.written ++ [(ws, data)] } else c

/-- The head of the loop of `_run`. -/
def runHead (c : Client) : Client :=
  if c.shouldRun then { c with run := if c.reconnects > 0 then .sleeping else .connecting }
  else { c with run := .ended }

/-- `_close_ws` in `_run`: there is an await in it only where there is a connection. -/
def closeWs (c : Client) : Client :=
  if c.ws.isSome then { c with run := .closing } else c.runHead

/-- What `_run` does behind its `try`. -/
def disconnected (c : Client) : Client :=
  { c with reconnects := c.reconnects + 1, connected := false }.closeWs

/-- The head of the loop of `_recv_loop`. -/
def recvHead (c : Client) : Client :=
  if c.shouldRun && c.ws.isSome then { c with run := .receiving } else c.disconnected

/-- What `_run` does when `_connect` has returned. -/
def nowConnected (c : Client) : Client := { c with connected := true, reconnects := 0 }.recvHead

/-- What `_connect` does with the connection it got. -/
def sendAuth (c : Client) (takes : Bool) : Client :=
  if c.canSend then { c.sendJson .auth takes with run := .authenticating } else c.nowConnected

/-- What `_handle_msg` does with a message, and `_recv_loop` behind it. -/
def handleMsg (c : Client) (takes : Bool) : Message → Client
  | .ping =>
    if c.canSend then { c.sendJson .pong takes with run := .handling } else c.recvHead
  | .command => { c with run := .handling }
  | .other => c.recvHead

/-- `_run`, from an await that returns to the next. -/
def proceed (c : Client) (takes : Bool) : Option Client :=
  match c.run with
  | .created => some c.runHead
  | .sleeping => some { c with run := .connecting }
  | .connecting => some ({ c with ws := some c.opened, opened := c.opened + 1 }.sendAuth takes)
  | .authenticating => some c.nowConnected
  | .handling => some c.recvHead
  | .closing => some { c with ws := none }.runHead
  | _ => none

/-- `_run`, from one await to the next. -/
def resumeRun (c : Client) : Outcome → Option Client
  | .ok takes => c.proceed takes
  | .failed => if c.run = .connecting ∨ c.run = .receiving then some c.disconnected else none
  | .message msg takes => if c.run = .receiving then some (c.handleMsg takes msg) else none

/-- The head of the loop of `_heartbeat_loop`. -/
def heartbeatHead (c : Client) : Client :=
  { c with heartbeat := if c.shouldRun then .sleeping else .ended }

/-- `_heartbeat_loop`, from one await to the next. -/
def resumeHeartbeat (c : Client) (takes : Bool) : Option Client :=
  match c.heartbeat with
  | .created | .sending => some c.heartbeatHead
  | .sleeping =>
    if c.canSend then some { c.sendJson .ping takes with heartbeat := .sending }
    else some c.heartbeatHead
  | _ => none

/-- The head of the loop of `_full_sync_loop`. -/
def fullSyncHead (c : Client) : Client :=
  { c with fullSync := if c.shouldRun then .sleeping else .ended }

/-- `_full_sync_loop`, from one await to the next. `states` says whether there are rooms. -/
def resumeFullSync (c : Client) (states takes : Bool) : Option Client :=
  match c.fullSync with
  | .created | .sending => some c.fullSyncHead
  | .sleeping => some (if c.connected then { c with fullSync := .collecting } else c.fullSyncHead)
  | .collecting =>
    if states && c.canSend then some { c.sendJson .roomsSync takes with fullSync := .sending }
    else some c.fullSyncHead
  | _ => none

/-- `_do_full_sync`, up to its await. -/
def doFullSync (c : Client) : Client :=
  if c.connected then { c with collecting := c.collecting + 1 } else c

/-- `_do_full_sync`, behind it. -/
def collected (c : Client) (states takes : Bool) : Option Client :=
  if c.collecting = 0 then none
  else if states then some { c.sendJson .roomsSync takes with collecting := c.collecting - 1 }
  else some { c with collecting := c.collecting - 1 }

/-- `start`, once. -/
def start (c : Client) : Option Client :=
  if c.run = .notStarted then
    some (if c.enabled then
      { c with shouldRun := true, run := .created, heartbeat := .created, fullSync := .created }
      else c)
  else none

/-- `stop`, up to its await: the two loops are cancelled, `_run` is not. -/
def stop (c : Client) : Option Client :=
  if c.stopping = .notCalled then
    some { c with
      shouldRun := false
      connected := false
      heartbeat := .ended
      fullSync := .ended
      stopping := if c.ws.isSome then .closing else .done }
  else none

/-- `stop`, behind it. -/
def stopClosed (c : Client) : Option Client :=
  if c.stopping = .closing then some { c with ws := none, stopping := .done } else none

/-- One step of a run. -/
def step (c : Client) : Action → Option Client
  | .start => c.start
  | .run outcome => c.resumeRun outcome
  | .heartbeat takes => c.resumeHeartbeat takes
  | .fullSync states takes => c.resumeFullSync states takes
  | .doFullSync => some c.doFullSync
  | .collected states takes => c.collected states takes
  | .onFlushEvent takes => some (c.sendJson .event takes)
  | .stop => c.stop
  | .stopClosed => c.stopClosed

/-! ## What the steps write -/

variable {c c' : Client}

@[simp] theorem sendJson_connected (data : Frame) (takes : Bool) :
    (c.sendJson data takes).connected = c.connected := by
  unfold sendJson
  split
  · rfl
  · split <;> rfl

@[simp] theorem sendJson_run (data : Frame) (takes : Bool) :
    (c.sendJson data takes).run = c.run := by
  unfold sendJson
  split
  · rfl
  · split <;> rfl

@[simp] theorem runHead_written : c.runHead.written = c.written := by
  unfold runHead
  split <;> rfl

@[simp] theorem runHead_connected : c.runHead.connected = c.connected := by
  unfold runHead
  split <;> rfl

@[simp] theorem closeWs_written : c.closeWs.written = c.written := by
  unfold closeWs
  split
  · rfl
  · exact runHead_written

@[simp] theorem closeWs_connected : c.closeWs.connected = c.connected := by
  unfold closeWs
  split
  · rfl
  · exact runHead_connected

@[simp] theorem disconnected_written : c.disconnected.written = c.written := closeWs_written

@[simp] theorem disconnected_connected : c.disconnected.connected = false := closeWs_connected

@[simp] theorem recvHead_written : c.recvHead.written = c.written := by
  unfold recvHead
  split
  · rfl
  · exact disconnected_written

@[simp] theorem nowConnected_written : c.nowConnected.written = c.written := recvHead_written

/-- The action comes to a `_send_json` of something other than auth, and the socket takes it. -/
def sends (c : Client) : Action → Bool
  | .run (.message .ping takes) => takes
  | .heartbeat takes => c.heartbeat = .sleeping && takes
  | .fullSync states takes => c.fullSync = .collecting && states && takes
  | .collected states takes => states && takes
  | .onFlushEvent takes => takes
  | _ => false

/-- From `c` to `c'` frames other than auth are written, at least one exactly when `b`. -/
def Writes (c c' : Client) (b : Bool) : Prop :=
  ∃ frames, c'.written = c.written ++ frames ∧ (∀ e ∈ frames, e.2 ≠ .auth) ∧
    (frames ≠ [] ↔ b = true)

theorem Writes.of_eq (h : c'.written = c.written) : Writes c c' false :=
  ⟨[], by rw [h, List.append_nil], nofun, by simp⟩

variable {a : Action}

theorem Writes.quiet (h : c'.written = c.written) (hsends : c.sends a = false) :
    Writes c c' (c.canSend && c.sends a) := by
  rw [hsends, Bool.and_false]
  exact .of_eq h

theorem Writes.sendJson {data : Frame} (hdata : data ≠ .auth) (takes : Bool)
    (h : c'.written = (c.sendJson data takes).written) : Writes c c' (c.canSend && takes) := by
  unfold Writes
  rw [h]
  unfold Client.sendJson canSend
  cases hws : c.ws with
  | none => exact ⟨[], by simp, nofun, by simp⟩
  | some ws =>
    by_cases htakes : (c.connected && takes) = true
    · refine ⟨[(ws, data)], by simp [htakes], ?_, by simpa using htakes⟩
      intro e he
      rw [List.mem_singleton.mp he]
      exact hdata
    · refine ⟨[], by simp [htakes], nofun, by simpa using htakes⟩

/-- `_connected` is set only while `_run` receives or handles a message. -/
def Inv (c : Client) : Prop := c.connected = true → c.run = .receiving ∨ c.run = .handling

theorem Inv.of_not_connected (h : c.connected = false) : c.Inv := by
  intro hconnected
  rw [h] at hconnected
  cases hconnected

theorem inv_recvHead : c.recvHead.Inv := by
  unfold recvHead
  split
  · exact fun _ => .inl rfl
  · exact .of_not_connected disconnected_connected

/-- `_connect` gets its connection while `_connected` is not set, so the auth message is dropped. -/
theorem sendAuth_eq (h : c.connected = false) (takes : Bool) :
    c.sendAuth takes = c.nowConnected := by
  unfold sendAuth canSend
  rw [h, Bool.and_false]
  rfl

theorem inv_sendAuth (h : c.connected = false) (takes : Bool) : (c.sendAuth takes).Inv := by
  rw [sendAuth_eq h]
  exact inv_recvHead

theorem sendAuth_written (h : c.connected = false) (takes : Bool) :
    (c.sendAuth takes).written = c.written := by
  rw [sendAuth_eq h]
  exact nowConnected_written

theorem Inv.not_connected (hinv : c.Inv) (h : c.run ≠ .receiving) (h' : c.run ≠ .handling) :
    c.connected = false := by
  by_contra hconnected
  obtain hrun | hrun := hinv (by simpa using hconnected)
  · exact h hrun
  · exact h' hrun

theorem writes_handleMsg (msg : Message) (takes : Bool) :
    Writes c (c.handleMsg takes msg) (c.canSend && c.sends (.run (.message msg takes))) := by
  cases msg with
  | ping =>
    show Writes c (if c.canSend then _ else _) (c.canSend && takes)
    split
    · exact .sendJson (by decide) takes rfl
    · next hsend =>
      rw [Bool.not_eq_true] at hsend
      rw [hsend]
      exact .of_eq recvHead_written
  | command => exact .quiet rfl rfl
  | other => exact .quiet recvHead_written rfl

variable {takes : Bool}

theorem proceed_written (hinv : c.Inv) (h : c.proceed takes = some c') :
    c'.written = c.written := by
  unfold proceed at h
  split at h
  · cases h
    exact runHead_written
  · cases h
    rfl
  · next hrun =>
    -- a connection is there, but the auth message does not pass `_send_json`
    have hconnected : c.connected = false :=
      hinv.not_connected (by rw [hrun]; decide) (by rw [hrun]; decide)
    cases h
    apply sendAuth_written
    exact hconnected
  · cases h
    exact nowConnected_written
  · cases h
    exact recvHead_written
  · cases h
    exact runHead_written
  · cases h

theorem writes_resumeHeartbeat (h : c.resumeHeartbeat takes = some c') :
    Writes c c' (c.canSend && c.sends (.heartbeat takes)) := by
  unfold resumeHeartbeat at h
  split at h
  · next hpoint =>
    cases h
    exact .quiet rfl (by rw [sends, hpoint]; rfl)
  · next hpoint =>
    cases h
    exact .quiet rfl (by rw [sends, hpoint]; rfl)
  · next hpoint =>
    rw [sends, hpoint]
    split at h
    · next hsend =>
      cases h
      exact .sendJson (by decide) takes rfl
    · next hsend =>
      cases h
      rw [Bool.not_eq_true] at hsend
      rw [hsend]
      exact .of_eq rfl
  · cases h

theorem writes_resumeFullSync {states : Bool} (h : c.resumeFullSync states takes = some c') :
    Writes c c' (c.canSend && c.sends (.fullSync states takes)) := by
  unfold resumeFullSync at h
  split at h
  · next hpoint =>
    cases h
    exact .quiet rfl (by rw [sends, hpoint]; rfl)
  · next hpoint =>
    cases h
    exact .quiet rfl (by rw [sends, hpoint]; rfl)
  · next hpoint =>
    cases h
    refine .quiet ?_ (by rw [sends, hpoint]; rfl)
    split <;> rfl
  · next hpoint =>
    rw [sends, hpoint]
    split at h
    · next hsend =>
      obtain ⟨hstates, hsend⟩ := Bool.and_eq_true_iff.mp hsend
      cases h
      rw [hstates]
      exact .sendJson (by decide) takes rfl
    · next hsend =>
      cases h
      have hquiet : (c.canSend && (states && takes)) = false := by
        rw [← Bool.and_assoc, Bool.and_comm c.canSend, Bool.eq_false_iff.mpr hsend]
        rfl
      show Writes c _ (c.canSend && (states && takes))
      rw [hquiet]
      exact .of_eq rfl
  · cases h

/-- What one step writes. -/
theorem step_writes (hinv : c.Inv) (h : c.step a = some c') :
    Writes c c' (c.canSend && c.sends a) := by
  cases a with
  | run outcome =>
    rw [step] at h
    cases outcome with
    | ok takes => exact .quiet (proceed_written hinv h) rfl
    | failed =>
      obtain ⟨-, h⟩ := Option.ite_none_right_eq_some.mp h
      cases h
      exact .quiet disconnected_written rfl
    | message msg takes =>
      obtain ⟨-, h⟩ := Option.ite_none_right_eq_some.mp h
      cases h
      exact writes_handleMsg msg takes
  | heartbeat takes => exact writes_resumeHeartbeat h
  | fullSync states takes => exact writes_resumeFullSync h
  | collected states takes =>
    rw [step, collected] at h
    split at h
    · cases h
    · split at h
      · next hstates =>
        cases h
        rw [sends, hstates]
        exact .sendJson (by decide) takes rfl
      · next hstates =>
        cases h
        rw [Bool.not_eq_true] at hstates
        exact .quiet rfl (by rw [sends, hstates]; rfl)
  | onFlushEvent takes =>
    cases h
    exact .sendJson (by decide) takes rfl
  | start =>
    obtain ⟨-, h⟩ := Option.ite_none_right_eq_some.mp h
    cases h
    refine .quiet ?_ rfl
    split <;> rfl
  | doFullSync =>
    cases h
    refine .quiet ?_ rfl
    unfold doFullSync
    split <;> rfl
  | stop =>
    obtain ⟨-, h⟩ := Option.ite_none_right_eq_some.mp h
    cases h
    exact .quiet rfl rfl
  | stopClosed =>
    obtain ⟨-, h⟩ := Option.ite_none_right_eq_some.mp h
    cases h
    exact .quiet rfl rfl

theorem inv_handleMsg (msg : Message) (takes : Bool) : (c.handleMsg takes msg).Inv := by
  cases msg with
  | ping =>
    show Inv (if c.canSend then _ else _)
    split
    · exact fun _ => .inr rfl
    · exact inv_recvHead
  | command => exact fun _ => .inr rfl
  | other => exact inv_recvHead

theorem inv_proceed (hinv : c.Inv) (h : c.proceed takes = some c') : c'.Inv := by
  have hconnected : c.run ≠ .receiving → c.run ≠ .handling → c.connected = false :=
    hinv.not_connected
  unfold proceed at h
  split at h
  all_goals cases h
  · next hrun =>
    apply Inv.of_not_connected
    rw [runHead_connected]
    exact hconnected (by rw [hrun]; decide) (by rw [hrun]; decide)
  · next hrun => exact .of_not_connected (hconnected (by rw [hrun]; decide) (by rw [hrun]; decide))
  · next hrun =>
    apply inv_sendAuth
    exact hconnected (by rw [hrun]; decide) (by rw [hrun]; decide)
  · exact inv_recvHead
  · exact inv_recvHead
  · next hrun =>
    apply Inv.of_not_connected
    rw [runHead_connected]
    exact hconnected (by rw [hrun]; decide) (by rw [hrun]; decide)

/-- A step of the other tasks leaves `_run` and `_connected`. -/
theorem Inv.frame (hinv : c.Inv) (hrun : c'.run = c.run) (hconnected : c'.connected = c.connected) :
    c'.Inv := by
  unfold Inv
  rw [hrun, hconnected]
  exact hinv

/-- What one step does to `_connected`. -/
theorem Inv.step (hinv : c.Inv) (h : c.step a = some c') : c'.Inv := by
  cases a with
  | run outcome =>
    rw [Client.step] at h
    cases outcome with
    | ok takes => exact inv_proceed hinv h
    | failed =>
      obtain ⟨-, h⟩ := Option.ite_none_right_eq_some.mp h
      cases h
      exact .of_not_connected disconnected_connected
    | message msg takes =>
      obtain ⟨-, h⟩ := Option.ite_none_right_eq_some.mp h
      cases h
      exact inv_handleMsg msg takes
  | heartbeat takes =>
    rw [Client.step, resumeHeartbeat] at h
    split at h
    · cases h
      exact hinv.frame rfl rfl
    · cases h
      exact hinv.frame rfl rfl
    · split at h
      · cases h
        exact hinv.frame (sendJson_run _ _) (sendJson_connected _ _)
      · cases h
        exact hinv.frame rfl rfl
    · cases h
  | fullSync states takes =>
    rw [Client.step, resumeFullSync] at h
    split at h
    · cases h
      exact hinv.frame rfl rfl
    · cases h
      exact hinv.frame rfl rfl
    · cases h
      split <;> exact hinv.frame rfl rfl
    · split at h
      · cases h
        exact hinv.frame (sendJson_run _ _) (sendJson_connected _ _)
      · cases h
        exact hinv.frame rfl rfl
    · cases h
  | collected states takes =>
    rw [Client.step, collected] at h
    split at h
    · cases h
    · split at h
      · cases h
        exact hinv.frame (sendJson_run _ _) (sendJson_connected _ _)
      · cases h
        exact hinv.frame rfl rfl
  | onFlushEvent takes =>
    cases h
    exact hinv.frame (sendJson_run _ _) (sendJson_connected _ _)
  | start =>
    obtain ⟨hrun, h⟩ := Option.ite_none_right_eq_some.mp h
    cases h
    apply Inv.of_not_connected
    have hclear : c.connected = false :=
      hinv.not_connected (by rw [hrun]; decide) (by rw [hrun]; decide)
    split
    · exact hclear
    · exact hclear
  | doFullSync =>
    cases h
    unfold doFullSync
    split
    · exact hinv.frame rfl rfl
    · exact hinv
  | stop =>
    obtain ⟨-, h⟩ := Option.ite_none_right_eq_some.mp h
    cases h
    exact .of_not_connected rfl
  | stopClosed =>
    obtain ⟨-, h⟩ := Option.ite_none_right_eq_some.mp h
    cases h
    exact hinv.frame rfl rfl

/-! ## Every run -/

theorem inv_init (enabled : Bool) : (init enabled).Inv := .of_not_connected rfl

/-- The auth message is on no connection, in any run. -/
theorem auth_not_written {enabled : Bool}
    (h : System.Reaches step System.anyStep (init enabled) c) : ∀ e ∈ c.written, e.2 ≠ .auth := by
  have hboth : c.Inv ∧ ∀ e ∈ c.written, e.2 ≠ .auth := by
    refine System.Reaches.invariant
      (I := fun c : Client => c.Inv ∧ ∀ e ∈ c.written, e.2 ≠ .auth) ?_ h ⟨inv_init enabled, nofun⟩
    intro c a c' hc _ hstep
    obtain ⟨frames, hwritten, hframes, -⟩ := step_writes hc.1 hstep
    refine ⟨hc.1.step hstep, ?_⟩
    rw [hwritten]
    intro e he
    obtain he | he := List.mem_append.mp he
    · exact hc.2 e he
    · exact hframes e he
  exact hboth.2

/-- On each connection the first frame is the auth message. -/
def AuthFirst (written : List (ℕ × Frame)) : Prop :=
  ∀ ws e, written.find? (fun e => e.1 = ws) = some e → e.2 = .auth

/-- Where no frame is the auth message, that is so only where there is no frame. -/
theorem authFirst_iff {written : List (ℕ × Frame)} (h : ∀ e ∈ written, e.2 ≠ .auth) :
    AuthFirst written ↔ written = [] := by
  constructor
  · intro hfirst
    cases written with
    | nil => rfl
    | cons e rest => exact absurd (hfirst e.1 e (by simp)) (h e List.mem_cons_self)
  · rintro rfl ws e he
    cases he

/-- No frame other than auth is sent and taken while the connection is open and `_connected` set. -/
def Quiet (c : Client) (a : Action) : Prop := (c.canSend && c.sends a) = false

instance (c : Client) (a : Action) : Decidable (Quiet c a) :=
  inferInstanceAs (Decidable (_ = false))

/-- In every run in which nothing else is sent, each connection begins with the auth message; the
first step that does send something leaves a connection that does not. -/
theorem auth_first {enabled : Bool} (h : System.Reaches step Quiet (init enabled) c) :
    AuthFirst c.written ∧
      ∀ a c', c.step a = some c' → ¬ Quiet c a → ¬ AuthFirst c'.written := by
  have hany : System.Reaches step System.anyStep (init enabled) c :=
    h.mono fun _ _ _ => trivial
  have hboth : c.Inv ∧ c.written = [] := by
    refine System.Reaches.invariant (I := fun c : Client => c.Inv ∧ c.written = []) ?_ h
      ⟨inv_init enabled, rfl⟩
    intro c a c' hc hquiet hstep
    obtain ⟨frames, hwritten, -, hnonempty⟩ := step_writes hc.1 hstep
    refine ⟨hc.1.step hstep, ?_⟩
    rw [Quiet] at hquiet
    rw [hquiet] at hnonempty
    have hframes : frames = [] := by simpa using hnonempty
    rw [hwritten, hc.2, hframes]
    rfl
  constructor
  · rw [authFirst_iff (auth_not_written hany)]
    exact hboth.2
  · intro a c' hstep hloud
    have hreach : System.Reaches step System.anyStep (init enabled) c' :=
      hany.tail ⟨a, trivial, hstep⟩
    rw [authFirst_iff (auth_not_written hreach)]
    obtain ⟨frames, hwritten, -, hnonempty⟩ := step_writes hboth.1 hstep
    have hframes : frames ≠ [] := hnonempty.mpr (by simpa [Quiet] using hloud)
    rw [hwritten, hboth.2]
    exact hframes

/-- Started and connected, after one failed attempt. -/
def connects : List Action :=
  [.start, .run (.ok true), .run .failed, .run (.ok true), .run (.ok true), .heartbeat true,
    .fullSync true true]

/-- Connected with no frame sent: nothing precedes the auth message. -/
theorem auth_first_connected : ∃ c : Client, c.ws = some 0 ∧ c.connected = true ∧
    AuthFirst c.written := by
  obtain ⟨c, hrun, -, hobs⟩ := System.reaches_of_observe step Quiet (init true) connects
    (fun c => (c.ws, c.connected)) (b := (some 0, true)) (by decide +kernel)
  obtain ⟨hws, hconnected⟩ := Prod.mk.inj hobs
  exact ⟨c, hws, hconnected, (auth_first hrun).1⟩

/-- Then the heartbeat wakes up: its ping is the first frame of the connection. -/
theorem ping_first : ∃ c : Client, System.Reaches step System.anyStep (init true) c ∧
    c.written = [(0, .ping)] ∧ ¬ AuthFirst c.written := by
  obtain ⟨c, hrun, -, hwritten⟩ := System.reaches_of_observe step System.anyStep (init true)
    (connects ++ [.heartbeat true]) written (b := [(0, .ping)]) (by decide +kernel)
  refine ⟨c, hrun, hwritten, ?_⟩
  rw [authFirst_iff (auth_not_written hrun), hwritten]
  exact List.cons_ne_nil _ _

end Client

end SrsChatRoom.Server.SyncClient
