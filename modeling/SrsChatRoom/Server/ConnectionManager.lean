import SrsChatRoom.Lib.EventLoop

/-!
# WebSocket connections (`server_fastapi.py`)

The coroutines that take `native_ws_lock`: the endpoint, which connects, subscribes and disconnects,
the two broadcasts, and the status request. The lock is a `threading.Lock`, so that whoever asks for
it while it is taken blocks the event loop. `broadcast_to_room` copies the list of connections and
sends without the lock; `broadcast_to_room_exclude` awaits its sends with the lock held.

`no_deadlock`: the loop does not deadlock on the lock as long as no send of
`broadcast_to_room_exclude` lets other coroutines run; once one does, the next broadcast deadlocks.
A websocket is a number, and the messages themselves are left out.
-/

namespace SrsChatRoom.Server.Connections

open EventLoop

/-! ## Data -/

/-- The tables of `ConnectionManager`, and the members of the rooms of `user_manager`. -/
structure Tables where
  activeConnections : Dict String (List ℕ)
  userConnections : Dict String ℕ
  members : Dict String (List String)

/-- The tables at the start. -/
def Tables.init : Tables := ⟨Dict.empty, Dict.empty, Dict.empty⟩

/-- A message of a client, by its `type`. -/
inductive WsMessage
  | ping
  | subscribe (roomId : Option String)
  | other
deriving DecidableEq

/-- How an await ends. -/
inductive Outcome
  | ok
  | failed
  | message (data : WsMessage)
deriving DecidableEq

/-- Where the coroutines await, with the local variables they need behind it. -/
inductive Point
  | closing
  | accepting (websocket : ℕ) (roomId userId : String)
  | connecting (websocket : ℕ) (roomId userId : String)
  | receiving (websocket : ℕ) (roomId userId : String)
  | ponging (websocket : ℕ) (roomId userId : String)
  | resubscribing (websocket : ℕ) (roomId newRoom userId : String)
  | broadcasting (roomId : String) (websocket : ℕ) (connections disconnected : List ℕ)
  | excluding (roomId : String) (excludeUserIds : List String) (uid : String)
      (connections : List (String × ℕ))
deriving DecidableEq

/-- The coroutines. `setMembers` stands for the handlers that change the members of a room. -/
inductive Entry
  | websocketEndpoint (websocket : ℕ) (roomId userId : String)
  | broadcastToRoom (roomId : String)
  | broadcastToRoomExclude (roomId : String) (excludeUserIds : List String)
  | wsStatus
  | setMembers (roomId : String) (userIds : List String)
deriving DecidableEq

namespace Tables

/-- `self.active_connections[room_id].append(websocket)`, for a new list where there is none. -/
def append (websocket : ℕ) (roomId : String) (s : Tables) : Tables :=
  let connections := (s.activeConnections.get? roomId).getD [] ++ [websocket]
  { s with activeConnections := s.activeConnections.set roomId connections }

/-- `self.user_connections[user_id] = websocket`, for a user with an id. -/
def setUser (websocket : ℕ) (userId : String) (s : Tables) : Tables :=
  if userId ≠ "" then { s with userConnections := s.userConnections.set userId websocket } else s

/-- What `disconnect` does with the lock held. -/
def remove (websocket : ℕ) (roomId : String) (s : Tables) : Tables :=
  match s.activeConnections.get? roomId with
  | none => s
  | some connections =>
    let connections := connections.erase websocket
    { s with activeConnections := if connections = [] then s.activeConnections.erase roomId
        else s.activeConnections.set roomId connections }

/-- What `disconnect` does without it. -/
def dropUser (websocket : ℕ) (s : Tables) : Tables :=
  { s with userConnections := s.userConnections.filter fun _ ws => ws ≠ websocket }

/-- `del self.user_connections[uid]` -/
def delUser (uid : String) (s : Tables) : Tables :=
  { s with userConnections := s.userConnections.erase uid }

end Tables

/-! ## Code -/

/-- `connect`, up to its await. -/
def connect (websocket : ℕ) (roomId userId : String) (next : Point) : Section Tables Point :=
  .acquire (.update (.append websocket roomId) (.release (.update (.setUser websocket userId)
    (.await next))))

/-- `disconnect` -/
def disconnect (websocket : ℕ) (roomId : String) (rest : Section Tables Point) :
    Section Tables Point :=
  .acquire (.update (.remove websocket roomId) (.release (.update (.dropUser websocket) rest)))

/-- The end of `broadcast_to_room`. -/
def disconnectAll (roomId : String) : List ℕ → Section Tables Point
  | [] => .done
  | ws :: disconnected => disconnect ws roomId (disconnectAll roomId disconnected)

/-- The loop of `broadcast_to_room`. -/
def broadcastLoop (roomId : String) (disconnected : List ℕ) : List ℕ → Section Tables Point
  | [] => disconnectAll roomId disconnected
  | ws :: connections => .await (.broadcasting roomId ws connections disconnected)

/-- The loop of `broadcast_to_room_exclude`. -/
def excludeLoop (roomId : String) (excludeUserIds : List String) :
    List (String × ℕ) → Section Tables Point
  | [] => .release .done
  | (uid, _) :: connections =>
    if uid ∈ excludeUserIds then excludeLoop roomId excludeUserIds connections
    else .read fun s =>
      if uid ∈ (s.members.get? roomId).getD [] then
        .await (.excluding roomId excludeUserIds uid connections)
      else excludeLoop roomId excludeUserIds connections

/-- What each coroutine does up to its first await. -/
def start : Entry → Section Tables Point
  | .websocketEndpoint websocket roomId userId =>
    if roomId = "" then .await .closing else .await (.accepting websocket roomId userId)
  | .broadcastToRoom roomId => .acquire (.read fun s => .release
      (broadcastLoop roomId [] ((s.activeConnections.get? roomId).getD [])))
  | .broadcastToRoomExclude roomId excludeUserIds => .acquire (.read fun s =>
      excludeLoop roomId excludeUserIds s.userConnections.entries)
  | .wsStatus => .acquire (.release .done)
  | .setMembers roomId userIds =>
    .update (fun s => { s with members := s.members.set roomId userIds }) .done

/-- What each coroutine does behind an await. In the `try` of the endpoint a failure leads to
`disconnect`, for the room of before a subscription that fails. -/
def resume : Point → Outcome → Section Tables Point
  | .closing, _ => .done
  | .accepting _ _ _, .failed => .done
  | .accepting websocket roomId userId, _ =>
    connect websocket roomId userId (.connecting websocket roomId userId)
  | .connecting _ _ _, .failed => .done
  | .connecting websocket roomId userId, _ => .await (.receiving websocket roomId userId)
  | .receiving websocket roomId _, .failed => disconnect websocket roomId .done
  | .receiving websocket roomId userId, .message .ping => .await (.ponging websocket roomId userId)
  | .receiving websocket roomId userId, .message (.subscribe newRoom) =>
    disconnect websocket roomId (connect websocket (newRoom.getD roomId) userId
      (.resubscribing websocket roomId (newRoom.getD roomId) userId))
  | .receiving websocket roomId userId, _ => .await (.receiving websocket roomId userId)
  | .ponging websocket roomId _, .failed => disconnect websocket roomId .done
  | .ponging websocket roomId userId, _ => .await (.receiving websocket roomId userId)
  | .resubscribing websocket roomId _ _, .failed => disconnect websocket roomId .done
  | .resubscribing websocket _ newRoom userId, _ => .await (.receiving websocket newRoom userId)
  | .broadcasting roomId ws connections disconnected, .failed =>
    broadcastLoop roomId (disconnected ++ [ws]) connections
  | .broadcasting roomId _ connections disconnected, _ =>
    broadcastLoop roomId disconnected connections
  | .excluding roomId excludeUserIds uid connections, .failed => .read fun s =>
      if s.userConnections.contains uid then
        .update (.delUser uid) (excludeLoop roomId excludeUserIds connections)
      else .release .done
  | .excluding roomId excludeUserIds _ connections, _ =>
    excludeLoop roomId excludeUserIds connections

/-- The coroutines of the connection manager. -/
def code : Code Tables Point Entry Outcome := ⟨start, resume⟩

/-- The awaits inside `with native_ws_lock`. -/
def holdsLock : Point → Bool
  | .excluding _ _ _ _ => true
  | _ => false

/-! ## The lock is taken and given back in pairs -/

theorem balanced_connect (websocket : ℕ) (roomId userId : String) {next : Point}
    (hnext : holdsLock next = false) :
    Balanced holdsLock false (connect websocket roomId userId next) :=
  ⟨rfl, rfl, hnext⟩

theorem balanced_disconnect (websocket : ℕ) (roomId : String) {rest : Section Tables Point}
    (hrest : Balanced holdsLock false rest) :
    Balanced holdsLock false (disconnect websocket roomId rest) :=
  ⟨rfl, rfl, hrest⟩

theorem balanced_broadcastLoop (roomId : String) (disconnected connections : List ℕ) :
    Balanced holdsLock false (broadcastLoop roomId disconnected connections) := by
  cases connections with
  | nil =>
    show Balanced holdsLock false (disconnectAll roomId disconnected)
    induction disconnected with
    | nil => exact rfl
    | cons ws disconnected ih => exact balanced_disconnect ws roomId ih
  | cons ws connections => exact rfl

theorem balanced_excludeLoop (roomId : String) (excludeUserIds : List String)
    (connections : List (String × ℕ)) :
    Balanced holdsLock true (excludeLoop roomId excludeUserIds connections) := by
  induction connections with
  | nil => exact ⟨rfl, rfl⟩
  | cons e connections ih =>
    unfold excludeLoop
    split
    · exact ih
    · intro s
      simp only
      split
      · exact rfl
      · exact ih

theorem code_paired : code.Paired holdsLock := by
  constructor
  · intro entry
    cases entry with
    | websocketEndpoint websocket roomId userId =>
      show Balanced holdsLock false (if roomId = "" then _ else _)
      split <;> exact rfl
    | broadcastToRoom roomId => exact ⟨rfl, fun s => ⟨rfl, balanced_broadcastLoop roomId [] _⟩⟩
    | broadcastToRoomExclude roomId excludeUserIds =>
      exact ⟨rfl, fun s => balanced_excludeLoop roomId excludeUserIds _⟩
    | wsStatus => exact ⟨rfl, rfl, rfl⟩
    | setMembers roomId userIds => exact rfl
  · intro point outcome
    cases point with
    | closing => exact rfl
    | accepting websocket roomId userId =>
      cases outcome with
      | failed => exact rfl
      | ok => exact balanced_connect websocket roomId userId rfl
      | message data => exact balanced_connect websocket roomId userId rfl
    | connecting websocket roomId userId => cases outcome <;> exact rfl
    | receiving websocket roomId userId =>
      cases outcome with
      | ok => exact rfl
      | failed => exact balanced_disconnect websocket roomId rfl
      | message data =>
        cases data with
        | ping => exact rfl
        | subscribe newRoom =>
          exact balanced_disconnect websocket roomId
            (balanced_connect websocket (newRoom.getD roomId) userId rfl)
        | other => exact rfl
    | ponging websocket roomId userId =>
      cases outcome with
      | failed => exact balanced_disconnect websocket roomId rfl
      | ok => exact rfl
      | message data => exact rfl
    | resubscribing websocket roomId newRoom userId =>
      cases outcome with
      | failed => exact balanced_disconnect websocket roomId rfl
      | ok => exact rfl
      | message data => exact rfl
    | broadcasting roomId ws connections disconnected =>
      cases outcome <;> exact balanced_broadcastLoop roomId _ connections
    | excluding roomId excludeUserIds uid connections =>
      cases outcome with
      | failed =>
        intro s
        show Balanced holdsLock true (if s.userConnections.contains uid then _ else _)
        split
        · exact balanced_excludeLoop roomId excludeUserIds connections
        · exact ⟨rfl, rfl⟩
      | ok => exact balanced_excludeLoop roomId excludeUserIds connections
      | message data => exact balanced_excludeLoop roomId excludeUserIds connections

/-! ## Every run -/

/-- In every run in which no send of `broadcast_to_room_exclude` lets other coroutines run, no
coroutine waits with the lock held while another one blocks for it. -/
theorem no_deadlock {l : Loop Tables Point}
    (h : System.Reaches (Loop.step code) (Loop.HoldsAlone code holdsLock) (Loop.init Tables.init) l) :
    ¬ l.Deadlocked :=
  Loop.not_deadlocked_of_unblocked (Loop.unblocked code_paired h)

/-- `bob` is connected and in the room. -/
def bobConnects : List (Action Entry Outcome) :=
  [.start 0 (.setMembers "r" ["alice", "bob"]) false, .start 1 (.websocketEndpoint 7 "r" "bob") true,
    .resume 1 .ok true, .resume 1 .ok true]

/-- The send to `bob` is over at once, and a further broadcast finds the lock free. -/
theorem no_deadlock_sent : ∃ l : Loop Tables Point,
    l.shared.activeConnections.get? "r" = some [7] ∧ (l.waiting.get? 3).isSome ∧ ¬ l.Deadlocked := by
  obtain ⟨l, hrun, -, hobs⟩ := System.reaches_of_observe (Loop.step code)
    (Loop.HoldsAlone code holdsLock) (Loop.init Tables.init)
    (bobConnects ++ [.start 2 (.broadcastToRoomExclude "r" ["alice"]) false, .resume 2 .ok true,
      .start 3 (.broadcastToRoom "r") true])
    (fun l => (l.shared.activeConnections.get? "r", (l.waiting.get? 3).isSome))
    (b := (some [7], true)) (by decide +kernel)
  obtain ⟨hconnections, hwaits⟩ := Prod.mk.inj hobs
  exact ⟨l, hconnections, hwaits, no_deadlock hrun⟩

/-- Without the condition: the send to `bob` waits, and a broadcast blocks the loop. -/
theorem send_deadlocks : ∃ l : Loop Tables Point,
    System.Reaches (Loop.step code) System.anyStep (Loop.init Tables.init) l ∧ l.Deadlocked := by
  obtain ⟨l, hrun, -, hobs⟩ := System.reaches_of_observe (Loop.step code) System.anyStep
    (Loop.init Tables.init)
    (bobConnects ++ [.start 2 (.broadcastToRoomExclude "r" ["alice"]) true,
      .start 3 (.broadcastToRoom "r") true])
    (fun l => (l.holder, (l.waiting.get? 2).isSome, l.current, l.blocked))
    (b := (some 2, true, none, some 3)) (by decide +kernel)
  obtain ⟨hholder, hrest⟩ := Prod.mk.inj hobs
  obtain ⟨hwaits, hrest⟩ := Prod.mk.inj hrest
  obtain ⟨hcurrent, hblocked⟩ := Prod.mk.inj hrest
  refine ⟨l, hrun, 2, 3, hholder, hwaits, ?_, hblocked, by decide⟩
  rw [hcurrent]
  nofun

end SrsChatRoom.Server.Connections
