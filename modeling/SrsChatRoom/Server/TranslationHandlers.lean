import SrsChatRoom.Server.TranslationManager

/-!
# The translation handlers (`server_fastapi.py`)

`start_translation` stops the request it finds at its place, sleeps for a second, creates its own
request and starts a process for it, and waits for a broadcast before it returns the id. Handlers
run on one event loop, so that others come in between at these two waits only. Behind its wait
`stop_translation` does nothing more, and the heartbeat has none.

`known_and_one_running`: every id that is returned is that of a known request, as long as no handler
wakes up to find an active request at its place; `add_request` refuses such a handler, whose id is
then unknown. A place never has more than one process that was not told to stop.

The `uuid`, the process id and the clock are arguments of the step that uses them. A process may end
by itself at any time.
-/

namespace SrsChatRoom.Server.Translation

/-! ## Data -/

/-- `TranslationStartRequest`, where an absent `source_lang` or `target_lang` is the empty one. -/
structure TranslationStartRequest where
  roomId : String
  sourceUser : String
  targetUser : String
  sourceLang : String
  targetLang : String
  toLang : String
deriving DecidableEq

namespace TranslationStartRequest

/-- `actual_source_lang` -/
def actualSourceLang (req : TranslationStartRequest) : String :=
  if req.sourceLang ≠ "" then req.sourceLang else "auto"

/-- `actual_target_lang` -/
def actualTargetLang (req : TranslationStartRequest) : String :=
  if req.targetLang ≠ "" then req.targetLang else req.toLang

/-- The place of the translation that is asked for. -/
def place (req : TranslationStartRequest) : Place :=
  ⟨req.roomId, req.sourceUser, req.actualTargetLang⟩

end TranslationStartRequest

/-- A translation process that is running, and whether it was told to stop. -/
structure Process where
  pid : ℕ
  requestId : String
  place : Place
  told : Bool
deriving DecidableEq

/-- Where a `start_translation` waits. -/
inductive Task
  | sleeping (req : TranslationStartRequest)
  | broadcasting (requestId : String)
deriving DecidableEq

/-- The manager, the tables of processes, the processes themselves and the handlers that wait.
`returned` records the ids that were returned, and whether the manager knew them. -/
structure World where
  manager : TranslationManager
  processes : Dict ℕ String
  byStream : Dict String String
  streamToPid : Dict String ℕ
  running : List Process
  tasks : Dict ℕ Task
  returned : List (String × Bool)

/-- The server at the start. -/
def World.init : World :=
  ⟨TranslationManager.init, Dict.empty, Dict.empty, Dict.empty, [], Dict.empty, []⟩

/-! ## Processes -/

namespace World

/-- `start_translation_service`, where `popen` is the new process, if it can be started. -/
def startTranslationService (requestId : String) (popen : Option ℕ) (w : World) : World :=
  match w.manager.getRequest requestId, popen with
  | some req, some pid =>
    let streamKey := req.roomId ++ "_" ++ req.sourceUser
    { w with
      processes := w.processes.set pid requestId
      byStream := w.byStream.set streamKey requestId
      streamToPid := w.streamToPid.set streamKey pid
      running := ⟨pid, requestId, req.place, false⟩ :: w.running }
  | _, _ => w

/-- `os.kill(pid, signal.SIGTERM)`, for each process that the table has for the request. -/
def tell (w : World) (requestId : String) (p : Process) : Process :=
  if w.processes.get? p.pid = some requestId then { p with told := true } else p

/-- `stop_translation_service` -/
def stopTranslationService (requestId : String) (w : World) : World :=
  { w with
    processes := w.processes.filter fun _ rid => rid ≠ requestId
    byStream := w.byStream.filter fun _ rid => rid ≠ requestId
    streamToPid := w.streamToPid.filter fun sk _ => w.byStream.get? sk ≠ some requestId
    running := w.running.map (w.tell requestId) }

/-! ## Handlers -/

/-- Both handlers stop a request in this way. -/
def stopRequest (requestId : String) (w : World) : World :=
  let w := w.stopTranslationService requestId
  { w with manager := (w.manager.stopTranslationByRequest requestId).2 }

/-- `start_translation` between its waits, with the id of the new request. -/
def create (req : TranslationStartRequest) (hex : String) (popen : Option ℕ) (now : ℕ)
    (w : World) : String × World :=
  let (requestId, manager) := w.manager.startTranslation hex req.roomId req.sourceUser
    req.targetUser req.actualTargetLang req.actualSourceLang "rtmp://localhost:1935" now
  (requestId, { w with manager }.startTranslationService requestId popen)

/-- `start_translation` up to its first wait. -/
def handleStart (task : ℕ) (req : TranslationStartRequest) (hex : String) (popen : Option ℕ)
    (now : ℕ) (w : World) : World :=
  match w.manager.getRequestBySource req.roomId req.sourceUser req.actualTargetLang with
  | some (_, oldReq) =>
    let w := w.stopRequest oldReq.requestId
    { w with tasks := w.tasks.set task (.sleeping req) }
  | none =>
    let (requestId, w) := w.create req hex popen now
    { w with tasks := w.tasks.set task (.broadcasting requestId) }

/-- `stop_translation` up to its wait. -/
def handleStop (requestId : String) (roomId sourceUser : Option String) (toLang : String)
    (w : World) : World :=
  let found := roomId.bind fun roomId => sourceUser.bind fun sourceUser =>
    (w.manager.getRequestBySource roomId sourceUser toLang).map fun found => found.2.requestId
  let requestId := if requestId ≠ "" then requestId else found.getD ""
  if requestId = "" then w else w.stopRequest requestId

/-- `translation_heartbeat` -/
def handleHeartbeat (requestId roomId sourceUser toLang : String) (now : ℕ) (w : World) : World :=
  { w with manager := if requestId ≠ "" then (w.manager.updateRequesterHeartbeat requestId now).2
      else (w.manager.updateRequesterHeartbeatBySource roomId sourceUser toLang now).2 }

end World

/-! ## The system -/

/-- What can happen next. -/
inductive Action
  | start (task : ℕ) (req : TranslationStartRequest) (hex : String) (popen : Option ℕ) (now : ℕ)
  | wake (task : ℕ) (hex : String) (popen : Option ℕ) (now : ℕ)
  | finish (task : ℕ) (sent : Bool)
  | stop (requestId : String) (roomId sourceUser : Option String) (toLang : String)
  | heartbeat (requestId roomId sourceUser toLang : String) (now : ℕ)
  | exit (pid : ℕ)
deriving DecidableEq

/-- The request of a handler that sleeps. -/
def World.sleeper (w : World) (task : ℕ) : Option TranslationStartRequest :=
  match w.tasks.get? task with
  | some (.sleeping req) => some req
  | _ => none

/-- A handler up to its next wait, or the end of a process. A broadcast that fails makes the
handler return an error. -/
def stepTranslation (w : World) : Action → Option World
  | .start task req hex popen now =>
    if w.tasks.contains task then none else some (w.handleStart task req hex popen now)
  | .wake task hex popen now =>
    match w.sleeper task with
    | some req =>
      let (requestId, w) := w.create req hex popen now
      some { w with tasks := w.tasks.set task (.broadcasting requestId) }
    | none => none
  | .finish task sent =>
    match w.tasks.get? task with
    | some (.broadcasting requestId) => some { w with
        tasks := w.tasks.erase task
        returned := if sent then (requestId, (w.manager.getRequest requestId).isSome) :: w.returned
          else w.returned }
    | _ => none
  | .stop requestId roomId sourceUser toLang =>
    some (w.handleStop requestId roomId sourceUser toLang)
  | .heartbeat requestId roomId sourceUser toLang now =>
    some (w.handleHeartbeat requestId roomId sourceUser toLang now)
  | .exit pid => some { w with running := w.running.filter fun p => p.pid ≠ pid }

/-- The `uuid` gives an id that no request has had, and a new process has a pid of its own. -/
def FreshDraw (w : World) : Action → Prop
  | .start _ _ hex popen _ | .wake _ hex popen _ =>
    (∀ request ∈ w.manager.heap, request.requestId ≠ "trans_" ++ hex) ∧
      ∀ pid ∈ popen, ∀ p ∈ w.running, p.pid ≠ pid
  | _ => True

/-- The request at the place is active. -/
def Busy (w : World) (p : Place) : Prop :=
  (w.manager.existing p).map TranslationRequest.status = some .active

/-- The condition: a handler that wakes up does not find an active request at its place. -/
def WakesFree (w : World) : Action → Prop
  | .wake task _ _ _ => ∀ req ∈ w.sleeper task, ¬ Busy w req.place
  | _ => True

instance (w : World) (a : Action) : Decidable (FreshDraw w a) := by
  cases a <;> unfold FreshDraw <;> infer_instance

instance (w : World) (p : Place) : Decidable (Busy w p) := inferInstanceAs (Decidable (_ = _))

instance (w : World) (a : Action) : Decidable (WakesFree w a) := by
  cases a <;> unfold WakesFree <;> infer_instance

/-- The running processes for a place that were not told to stop. -/
def World.untold (w : World) (place : Place) : ℕ :=
  w.running.countP fun p => p.place = place && !p.told

end SrsChatRoom.Server.Translation
