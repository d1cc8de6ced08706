import SrsChatRoom.Lib.NestedDict
import SrsChatRoom.Lib.System

/-!
# Translation requests (`translation_manager.py`)

`TranslationManager` finds a request in two ways: at its room, source user and language in
`_requests`, and by its id in `_requests_by_id`. Both hold references to the same mutable objects,
so the objects live on a `heap` and the two tables hold their addresses.

The clock is the argument `now`, in microseconds. The stop callback is an argument too: whether
there is one, and for which ids it returns. The lists for display (`get_pullers`,
`get_user_streams`, `get_active_translations`) and `requester_heartbeat` by client are left out: no
operation reads them.
-/

namespace SrsChatRoom.Server.Translation

/-! ## Data -/

/-- `TranslationStatus` -/
inductive TranslationStatus
  | pending
  | active
  | stopped
deriving DecidableEq, Repr

/-- The place of a request in `_requests`. -/
structure Place where
  roomId : String
  sourceUser : String
  toLang : String
deriving DecidableEq, Repr

/-- `TranslationRequest` -/
structure TranslationRequest where
  requestId : String
  roomId : String
  sourceUser : String
  targetUser : String
  toLang : String
  sourceLang : String
  status : TranslationStatus
  streamUrl : String
  createdAt : ℕ
  pullers : Dict String ℕ
  lastSourceStreamSeen : ℕ
  sourceStreamActive : Bool
  stopReason : String
  noPullerSince : Option ℕ
  lastRequesterHeartbeat : ℕ

/-- The place of the request. -/
def TranslationRequest.place (request : TranslationRequest) : Place :=
  ⟨request.roomId, request.sourceUser, request.toLang⟩

/-- `TranslationManager` -/
structure TranslationManager where
  heap : List TranslationRequest
  requests : NestedDict String String String ℕ
  requestsById : Dict String ℕ

/-- The manager at the start. -/
def TranslationManager.init : TranslationManager := ⟨[], NestedDict.empty, Dict.empty⟩

/-- `heartbeat_timeout` -/
def heartbeatTimeout : ℕ := 15 * 10 ^ 6

/-- `source_stream_timeout` -/
def sourceStreamTimeout : ℕ := 1800 * 10 ^ 6

/-- `requester_heartbeat_timeout` -/
def requesterHeartbeatTimeout : ℕ := 30 * 10 ^ 6

/-- An entry of the result of `check_and_cleanup`. -/
structure CleanupInfo where
  requestId : String
  roomId : String
  sourceUser : String
  toLang : String
  pullersRemoved : List String
  stopped : Bool
  stopReason : String
deriving DecidableEq, Repr

namespace TranslationRequest

/-- A puller whose last heartbeat is too long ago. -/
def late (now : ℕ) (_ : String) (lastHeartbeat : ℕ) : Bool := lastHeartbeat + heartbeatTimeout < now

/-- The reason for `check_and_cleanup` to stop the request, if there is one. The requester's
heartbeat is checked last. -/
def stopReasonAt (now : ℕ) (request : TranslationRequest) : Option String :=
  if max request.lastRequesterHeartbeat request.createdAt + requesterHeartbeatTimeout < now then
    some "requester_heartbeat_timeout"
  else if !request.sourceStreamActive && request.lastSourceStreamSeen + sourceStreamTimeout < now then
    some "source_stream_timeout"
  else none

/-- Remove the pullers that are late. -/
def dropLate (now : ℕ) (request : TranslationRequest) : TranslationRequest :=
  { request with pullers := request.pullers.filter fun pullerId last => !late now pullerId last }

/-- Stop the request, if there is a reason to. -/
def stopFor (request : TranslationRequest) : Option String → TranslationRequest
  | some stopReason => { request with status := .stopped, stopReason }
  | none => request

/-- What `check_and_cleanup` does to a request that is not stopped. -/
def expire (now : ℕ) (request : TranslationRequest) : TranslationRequest :=
  (request.dropLate now).stopFor ((request.dropLate now).stopReasonAt now)

/-- What `check_and_cleanup` reports about a request that is not stopped. -/
def cleanupInfo (callback : Option (String → Bool)) (now : ℕ) (request : TranslationRequest) :
    CleanupInfo where
  requestId := request.requestId
  roomId := request.roomId
  sourceUser := request.sourceUser
  toLang := request.toLang
  pullersRemoved := (request.pullers.filter (late now)).keys
  stopped := (request.stopReasonAt now).isSome && callback.all fun call => call request.requestId
  stopReason := (request.stopReasonAt now).getD ""

/-- The body of the loop of `update_source_stream_active`. -/
def setStreamActive (active : Bool) (now : ℕ) (request : TranslationRequest) :
    TranslationRequest :=
  if request.sourceStreamActive ≠ active then
    { request with
      sourceStreamActive := active
      lastSourceStreamSeen := now
      noPullerSince := none }
  else request

end TranslationRequest

/-- The exception of `del` for a key that is missing. -/
inductive PyError
  | keyError
deriving DecidableEq, Repr

namespace TranslationManager

/-! ## Lookups -/

/-- `self._requests[room_id][source_user].get(to_lang)` -/
def at? (m : TranslationManager) (p : Place) : Option ℕ :=
  m.requests.at? p.roomId p.sourceUser p.toLang

/-- The request at a place. -/
def existing (m : TranslationManager) (p : Place) : Option TranslationRequest :=
  (m.at? p).bind fun ref => m.heap[ref]?

/-- `self._requests_by_id.get(request_id)`, with the address. -/
def find (m : TranslationManager) (requestId : String) : Option (ℕ × TranslationRequest) :=
  (m.requestsById.get? requestId).bind fun ref => (m.heap[ref]?).map fun request => (ref, request)

/-- `get_request` -/
def getRequest (m : TranslationManager) (requestId : String) : Option TranslationRequest :=
  (m.find requestId).map Prod.snd

/-- `get_request_by_source`, with the address. Without a language it gives the first active
request. -/
def getRequestBySource (m : TranslationManager) (roomId sourceUser toLang : String) :
    Option (ℕ × TranslationRequest) :=
  if toLang ≠ "" then
    (m.at? ⟨roomId, sourceUser, toLang⟩).bind fun ref =>
      (m.heap[ref]?).map fun request => (ref, request)
  else
    (m.requests.row roomId sourceUser).bind fun langs =>
      (langs.entries.filterMap fun e => (m.heap[e.2]?).map fun request => (e.2, request)).find?
        fun found => found.2.status = .active

/-- Change the object at an address. -/
def modify (m : TranslationManager) (ref : ℕ) (f : TranslationRequest → TranslationRequest) :
    TranslationManager :=
  { m with heap := m.heap.modify ref f }

/-! ## Operations -/

/-- `add_request` -/
def addRequest (request : TranslationRequest) (m : TranslationManager) :
    Bool × TranslationManager :=
  if (m.existing request.place).map TranslationRequest.status = some .active then (false, m)
  else
    (true,
      { heap := m.heap ++ [request]
        requests := m.requests.put request.roomId request.sourceUser request.toLang m.heap.length
        requestsById := m.requestsById.set request.requestId m.heap.length })

/-- `remove_request` -/
def removeRequest (requestId : String) (m : TranslationManager) :
    Except PyError Bool × TranslationManager :=
  match m.getRequest requestId with
  | none => (.ok false, m)
  | some request =>
    match m.requests.del request.roomId request.sourceUser request.toLang with
    | none => (.error .keyError, m)
    | some requests =>
      (.ok true, { m with requests, requestsById := m.requestsById.erase requestId })

/-- `update_status` -/
def updateStatus (requestId : String) (status : TranslationStatus) (m : TranslationManager) :
    Bool × TranslationManager :=
  match m.find requestId with
  | none => (false, m)
  | some (ref, _) => (true, m.modify ref fun request => { request with status })

/-- `stop_translation_by_request` -/
def stopTranslationByRequest (requestId : String) (m : TranslationManager) :
    Bool × TranslationManager :=
  match m.getRequest requestId with
  | none => (false, m)
  | some _ => (true, (m.updateStatus requestId .stopped).2)

/-- `register_puller`: whether the request is known, and whether it was restored. -/
def registerPuller (requestId pullerId : String) (now : ℕ) (m : TranslationManager) :
    (Bool × Bool) × TranslationManager :=
  match m.find requestId with
  | none => ((false, false), m)
  | some (ref, request) =>
    ((true, request.status = .stopped), m.modify ref fun request =>
      let request := if request.status = .stopped then
          { request with status := .active, stopReason := "", pullers := Dict.empty }
        else request
      { request with pullers := request.pullers.set pullerId now, noPullerSince := none })

/-- `unregister_puller` -/
def unregisterPuller (requestId pullerId : String) (m : TranslationManager) :
    Bool × TranslationManager :=
  match m.find requestId with
  | none => (false, m)
  | some (ref, request) =>
    if request.pullers.contains pullerId then
      (true, m.modify ref fun request => { request with pullers := request.pullers.erase pullerId })
    else (false, m)

/-- `heartbeat_puller` -/
def heartbeatPuller (requestId pullerId : String) (now : ℕ) (m : TranslationManager) :
    Bool × TranslationManager :=
  match m.find requestId with
  | none => (false, m)
  | some (ref, _) =>
    (true, m.modify ref fun request => { request with
      pullers := request.pullers.set pullerId now
      noPullerSince := if request.pullers.contains pullerId then request.noPullerSince else none })

/-- `update_source_stream_active` -/
def updateSourceStreamActive (roomId sourceUser : String) (active : Bool) (now : ℕ)
    (m : TranslationManager) : TranslationManager :=
  match m.requests.row roomId sourceUser with
  | none => m
  | some langs => langs.entries.foldl (fun m e => m.modify e.2 (.setStreamActive active now)) m

/-- `update_requester_heartbeat` -/
def updateRequesterHeartbeat (requestId : String) (now : ℕ) (m : TranslationManager) :
    Bool × TranslationManager :=
  match m.find requestId with
  | none => (false, m)
  | some (ref, _) => (true, m.modify ref fun request => { request with
      lastRequesterHeartbeat := now })

/-- `update_requester_heartbeat_by_source` -/
def updateRequesterHeartbeatBySource (roomId sourceUser toLang : String) (now : ℕ)
    (m : TranslationManager) : Bool × TranslationManager :=
  match m.getRequestBySource roomId sourceUser toLang with
  | none => (false, m)
  | some (ref, _) => (true, m.modify ref fun request => { request with
      lastRequesterHeartbeat := now })

/-- The body of the loop of `check_and_cleanup`, with the results so far. -/
def cleanUp (callback : Option (String → Bool)) (now : ℕ)
    (acc : List CleanupInfo × TranslationManager) (requestId : String) :
    List CleanupInfo × TranslationManager :=
  match acc.2.find requestId with
  | none => acc
  | some (ref, request) =>
    if request.status = .stopped then acc
    else
      let info := request.cleanupInfo callback now
      (if info.pullersRemoved ≠ [] ∨ info.stopped then acc.1 ++ [info] else acc.1,
        acc.2.modify ref (.expire now))

/-- `check_and_cleanup` -/
def checkAndCleanup (callback : Option (String → Bool)) (now : ℕ) (m : TranslationManager) :
    List CleanupInfo × TranslationManager :=
  m.requestsById.keys.foldl (cleanUp callback now) ([], m)

/-- `start_translation`, with the hexadecimal digits of the `uuid`. -/
def startTranslation (hex roomId sourceUser targetUser toLang sourceLang srsUrl : String)
    (now : ℕ) (m : TranslationManager) : String × TranslationManager :=
  let requestId := "trans_" ++ hex
  let request : TranslationRequest :=
    { requestId, roomId, sourceUser, targetUser, toLang, sourceLang
      status := .active
      streamUrl := srsUrl ++ "/app/translation_" ++ sourceUser ++ "_" ++ toLang
      createdAt := now
      pullers := Dict.empty
      lastSourceStreamSeen := now
      sourceStreamActive := false
      stopReason := ""
      noPullerSince := none
      lastRequesterHeartbeat := now }
  (requestId, (m.addRequest request).2)

end TranslationManager

end SrsChatRoom.Server.Translation
