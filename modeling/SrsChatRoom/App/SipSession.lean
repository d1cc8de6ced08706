import SrsChatRoom.Lib.Dict
import SrsChatRoom.Lib.System

/-!
# SIP registration of GB28181 devices (`srs_app_gb28181.cpp`)

A device talks SIP over TCP. Each connection has a state, driven by the messages that arrive and
by those that are sent. A session belongs to the device and outlives its connections: it is bound
to the latest one, which takes over the state of the one before. The session looks at this state in
a fixed interval, invites the device to send its media, and ends when the state is `bye`.

The manager finds a session by the id of the device. Timers are not modelled: whether a timeout
has passed is a part of each tick.
-/

namespace SrsChatRoom.App.SipSession

/-! ## Messages -/

inductive SipType
  | request
  | response
deriving DecidableEq, Repr

/-- The methods of requests: `HTTP_REGISTER` and so on. -/
inductive SipMethod
  | register
  | message
  | invite
  | ack
  | bye
  | other
deriving DecidableEq, Repr

/-- The fields of `SrsSipMessage` that the states depend on, with its defaults. -/
structure SrsSipMessage where
  type : SipType
  method : SipMethod := .other
  status : ℕ := 0
  cseqMethod : String := ""
  expires : ℕ := 4294967295
  deviceId : String := ""
deriving DecidableEq, Repr

namespace SrsSipMessage

variable (m : SrsSipMessage)

def isRegister : Bool := m.type = .request ∧ m.method = .register
def isMessage : Bool := m.type = .request ∧ m.method = .message
def isInvite : Bool := m.type = .request ∧ m.method = .invite
def isTrying : Bool := m.type = .response ∧ m.cseqMethod = "INVITE" ∧ m.status = 100
def isInviteOk : Bool := m.type = .response ∧ m.cseqMethod = "INVITE" ∧ m.status = 200
def isBye : Bool := m.type = .request ∧ m.method = .bye
def isByeOk : Bool := m.type = .response ∧ m.cseqMethod = "BYE" ∧ m.status = 200

end SrsSipMessage

/-! ## The state of a connection -/

/-- `SrsGbSipState`, in the order of its values. -/
inductive SipState
  | init
  | registered
  | inviting
  | trying
  | reinviting
  | stable
  | bye
deriving DecidableEq, Repr

/-- The value of the state in `SrsGbSipState`. -/
def SipState.value : SipState → ℕ
  | .init => 0
  | .registered => 1
  | .inviting => 2
  | .trying => 3
  | .reinviting => 4
  | .stable => 5
  | .bye => 6

/-- `is_registered()` -/
def SipState.isRegistered (s : SipState) : Bool :=
  SipState.registered.value ≤ s.value ∧ s.value ≤ SipState.stable.value

/-! The blocks of `SrsGbSipTcpConn::drive_state`, one for each state. The next block sees the
state that the block before has set. -/

def driveInit (m : SrsSipMessage) (s : SipState) : SipState :=
  if s = .init then
    let s := if m.isRegister ∧ m.expires > 0 then .registered else s
    let s := if m.isRegister ∧ m.expires = 0 then .bye else s
    if m.isMessage then .stable else s
  else s

def driveRegistered (m : SrsSipMessage) (s : SipState) : SipState :=
  if s = .registered then if m.isInvite then .inviting else s
  else s

/-- `reinvite` is `invite_request(NULL)`, which drives the state too. -/
def driveInviting (reinvite : SipState → SipState) (m : SrsSipMessage) (s : SipState) : SipState :=
  if s = .inviting then
    let s := if m.isTrying then .trying else s
    let s := if m.isInviteOk then .stable else s
    if m.isRegister then reinvite s else s
  else s

def driveTrying (m : SrsSipMessage) (s : SipState) : SipState :=
  if s = .trying then if m.isInviteOk then .stable else s
  else s

def driveStable (m : SrsSipMessage) (s : SipState) : SipState :=
  if s = .stable then
    let s := if m.isRegister ∧ m.expires = 0 then .bye else s
    if m.isBye then .bye else s
  else s

def driveReinviting (m : SrsSipMessage) (s : SipState) : SipState :=
  if s = .reinviting then if m.isByeOk then .inviting else s
  else s

def driveBlocks (reinvite : SipState → SipState) (m : SrsSipMessage) (s : SipState) : SipState :=
  driveReinviting m (driveStable m (driveTrying m (driveInviting reinvite m
    (driveRegistered m (driveInit m s)))))

/-- `enqueue_sip_message(msg)`: an outgoing message drives the state. It is never a REGISTER, so it
does not invite again. -/
def enqueueSipMessage (m : SrsSipMessage) (s : SipState) : SipState :=
  driveBlocks (fun s => s) m s

/-- `invite_request(pssrc)`. It sends nothing when it finds no SSRC or cannot write the SDP. -/
def inviteRequest (inviteOk : Bool) (s : SipState) : SipState :=
  if inviteOk then enqueueSipMessage { type := .request, method := .invite } s else s

/-- `SrsGbSipTcpConn::drive_state(msg)` -/
def driveState (inviteOk : Bool) (m : SrsSipMessage) (s : SipState) : SipState :=
  driveBlocks (inviteRequest inviteOk) m s

/-- The message that is sent for one that has arrived: `register_response`, `message_response`,
`invite_ack` or `bye_response`. The responses have no method of `CSeq` of their own. -/
def answerTo (m : SrsSipMessage) (s : SipState) : Option SrsSipMessage :=
  if m.isRegister then some { type := .response, status := 200, expires := m.expires }
  else if m.isMessage then
    some { type := .response, status := if s = .init then 403 else 200 }
  else if m.isInviteOk then some { type := .request, method := .ack }
  else if m.isBye then some { type := .response, status := 200 }
  else none

/-- The part of `on_sip_message` behind the lookup of the session. -/
def handleSipMessage (inviteOk : Bool) (m : SrsSipMessage) (s : SipState) : SipState :=
  let s := driveState inviteOk m s
  match answerTo m s with
  | some res => enqueueSipMessage res s
  | none => s

/-! ## Connections and sessions -/

/-- `SrsGbSessionState` -/
inductive SessionState
  | init
  | connecting
  | established
deriving DecidableEq, Repr

/-- A connection: its state, and the session it is bound to. -/
structure SrsGbSipTcpConn where
  state : SipState := .init
  session : Option ℕ := none

/-- A session: its state, the connection it is bound to, whether the media connection is
connected, the count of timeouts, whether its cycle has ended, and whether it has been freed. -/
structure SrsGbSession where
  state : SessionState := .init
  sip : Option ℕ := none
  mediaConnected : Bool := false
  nnTimeout : ℕ := 0
  ended : Bool := false
  freed : Bool := false

/-- The connections and the sessions by number, the number of the next session, the sessions that
the manager finds by the id of a device, and the message that was handled last. -/
structure Gb where
  conns : ℕ → SrsGbSipTcpConn
  sessions : ℕ → SrsGbSession
  nextSession : ℕ
  byId : Dict String ℕ
  answered : Option (ℕ × SrsSipMessage)

def Gb.init : Gb := ⟨fun _ => {}, fun _ => {}, 0, .empty, none⟩

def Gb.setConn (s : Gb) (c : ℕ) (conn : SrsGbSipTcpConn) : Gb :=
  { s with conns := Function.update s.conns c conn }

def Gb.setSession (s : Gb) (k : ℕ) (session : SrsGbSession) : Gb :=
  { s with sessions := Function.update s.sessions k session }

/-- The state of the connection that a session is bound to. A new session is bound to a new
connection object that nobody else has. -/
def Gb.sipState (s : Gb) (k : ℕ) : SipState :=
  match (s.sessions k).sip with
  | some c => (s.conns c).state
  | none => .init

/-- The rest of `bind_session`, behind the search for the session. -/
def bindTo (s : Gb) (c k : ℕ) : Gb :=
  let conn := s.conns c
  -- the state of the connection before, unless it is this one
  let state := if (s.sessions k).sip = some c then conn.state else s.sipState k
  (s.setConn c ⟨state, some k⟩).setSession k { s.sessions k with sip := some c }

/-- `SrsGbSipTcpConn::bind_session` -/
def bindSession (s : Gb) (c : ℕ) (m : SrsSipMessage) : Gb :=
  if m.deviceId = "" then s
  else if m.type ≠ .request ∨ m.method ≠ .register then s
  else match s.byId.get? m.deviceId with
    | some k => bindTo s c k
    | none =>
      let k := s.nextSession
      bindTo { s with nextSession := k + 1, byId := s.byId.set m.deviceId k } c k

/-- `SrsGbSipTcpConn::on_sip_message`. A message without a session is dropped. -/
def onSipMessage (s : Gb) (c : ℕ) (m : SrsSipMessage) (inviteOk : Bool) : Gb :=
  let s := if (s.conns c).session = none then bindSession s c m else s
  let conn := s.conns c
  match conn.session with
  | none => { s with answered := none }
  | some _ =>
    { s.setConn c { conn with state := handleSipMessage inviteOk m conn.state } with
      answered := some (c, m) }

/-! ## The cycle of a session -/

/-- What a tick depends on: whether the time to connect has passed, whether the time to wait for a
re-invite has, and whether an INVITE can be sent. -/
structure Clock where
  connectingTimeout : Bool
  reinviteTimeout : Bool
  inviteOk : Bool
deriving DecidableEq, Repr

/-- `SRS_GB_MAX_TIMEOUT` -/
def gbMaxTimeout : ℕ := 3

/-- A session and the state of its connection, while `drive_state` runs. -/
structure Drive where
  session : SrsGbSession
  sip : SipState

/-- The block of the state `init`; `none` is an error. -/
def sessionInit (clock : Clock) (d : Drive) : Option Drive :=
  if d.session.state = .init ∧ d.sip.isRegistered then
    let d := { d with session := { d.session with state := .connecting } }
    if ¬ d.session.mediaConnected then
      if clock.inviteOk then some { d with sip := inviteRequest true d.sip } else none
    else some d
  else some d

/-- The time to connect has passed: the session starts again, or fails after too many times. -/
def connectingTimedOut (d : Drive) : Option Drive :=
  if d.session.nnTimeout > gbMaxTimeout then none
  else some ⟨{ d.session with state := .init, nnTimeout := d.session.nnTimeout + 1 }, .registered⟩

/-- The media connection is there and the device has accepted the INVITE. -/
def connectingDone (d : Drive) : Drive :=
  if d.sip = .stable ∧ d.session.mediaConnected then
    { d with session := { d.session with state := .established } }
  else d

/-- The block of the state `connecting`. -/
def sessionConnecting (clock : Clock) (d : Drive) : Option Drive :=
  if d.session.state = .connecting then
    (if clock.connectingTimeout then connectingTimedOut d else some d).map connectingDone
  else some d

/-- The block of the state `established`. -/
def sessionEstablished (clock : Clock) (d : Drive) : Drive :=
  if d.session.state = .established then
    if d.sip = .bye then d
    else if ¬ d.session.mediaConnected ∧ clock.reinviteTimeout then
      ⟨{ d.session with state := .init }, .registered⟩
    else d
  else d

/-- `SrsGbSession::drive_state` -/
def sessionDriveState (clock : Clock) (d : Drive) : Option Drive :=
  ((sessionInit clock d).bind (sessionConnecting clock)).map (sessionEstablished clock)

/-- The state of the connection that the session is bound to, after `drive_state`. -/
def Gb.setSip (s : Gb) (k : ℕ) (state : SipState) : Gb :=
  match (s.sessions k).sip with
  | some c => s.setConn c { s.conns c with state := state }
  | none => s

/-- A round of `SrsGbSession::do_cycle`, behind the sleep. The cycle ends when the state is `bye` or
after an error. -/
def tick (s : Gb) (k : ℕ) (clock : Clock) : Gb :=
  let session := s.sessions k
  if s.sipState k = .bye then s.setSession k { session with ended := true }
  else match sessionDriveState clock ⟨session, s.sipState k⟩ with
    | none => s.setSession k { session with ended := true }
    | some d => (s.setSip k d.sip).setSession k d.session

/-! ## Runs -/

/-- A message arrives on a connection, a session does a round, its media connection changes, or
the manager frees a session that has ended. -/
inductive Action
  | message (c : ℕ) (m : SrsSipMessage) (inviteOk : Bool)
  | tick (k : ℕ) (clock : Clock)
  | media (k : ℕ) (connected : Bool)
  | free (k : ℕ)

def step (s : Gb) : Action → Option Gb
  | .message c m inviteOk =>
    if ∀ k ∈ (s.conns c).session, (s.sessions k).freed = false then
      some (onSipMessage s c m inviteOk)
    else none
  | .tick k clock =>
    if k < s.nextSession ∧ (s.sessions k).ended = false then
      some { tick s k clock with answered := none }
    else none
  | .media k connected =>
    some { s.setSession k { s.sessions k with mediaConnected := connected } with answered := none }
  | .free k =>
    if (s.sessions k).ended = true then
      some { s.setSession k { s.sessions k with freed := true } with
        byId := s.byId.filter fun _ k' => k' ≠ k, answered := none }
    else none

end SrsChatRoom.App.SipSession
