import SrsChatRoom.Server.UserManager

/-!
# The room handlers (`server_fastapi.py`)

The handlers that change who is in a room and in which role. Up to its first `await` a handler runs
alone on the event loop, and all of them but `delete_room` are done with the manager by then: each
is a `RoomOp` on the room it is for, and `delete_room` is one for the checks and one for the rest.

`jwtUserId` is the `request.state.user_id` of the caller. What a handler asks of another store (a
share link, an invitation, the streams of a room) is an argument. The data of a successful reply,
the account table, the events and the broadcasts are left out: no check below reads them.
-/

namespace SrsChatRoom.Server.Rooms

/-! ## Requests and replies -/

/-- `api_ok` and `api_err(code, message)` -/
inductive Reply
  | ok
  | err (code : ℕ) (message : String)
deriving DecidableEq, Repr

/-- `RoomCreateRequest`, with the room apart. -/
structure RoomCreateRequest where
  ownerId : String
  name : String
deriving DecidableEq

/-- `RoomJoinRequest`, where an empty `room_id` is none. -/
structure RoomJoinRequest where
  userId : String
  roomId : String
  role : String
deriving DecidableEq

/-- `KnockAcceptRequest` -/
structure KnockAcceptRequest where
  operatorId : String
  knockerId : String
  role : String
deriving DecidableEq

/-- `SetRoleRequest` -/
structure SetRoleRequest where
  role : String
  operatorId : String
deriving DecidableEq

/-- `role_map.get(role)` -/
def roleMap (role : String) : Option UserRole :=
  if role = "owner" then some .owner
  else if role = "admin" then some .admin
  else if role = "member" then some .member
  else if role = "guest" then some .guest
  else none

/-! ## Handlers -/

/-- `create_room` -/
def handleCreateRoom (now jwtUserId roomId : String) (req : RoomCreateRequest) : RoomOp Reply :=
  fun slot =>
    if jwtUserId = "" then (.err 401 "not authenticated", slot)
    else if req.ownerId ≠ "" ∧ req.ownerId ≠ jwtUserId then
      (.err 403 "owner_id must match current user", slot)
    else (.ok, (createRoom now roomId jwtUserId req.name slot).2)

/-- The room that `join_room` is for. -/
def RoomJoinRequest.actualRoomId (req : RoomJoinRequest) (roomId : String) : String :=
  if req.roomId ≠ "" then req.roomId else roomId

/-- `join_room`, on the room `actual_room_id`. -/
def handleJoinRoom (now jwtUserId actualRoomId : String) (req : RoomJoinRequest) : RoomOp Reply :=
  fun slot =>
    if jwtUserId = "" then (.err 401 "not authenticated", slot)
    else if req.userId ≠ "" ∧ req.userId ≠ jwtUserId then
      (.err 403 "user_id must match current user", slot)
    else
      let (existingRoom, slot) := getRoom slot
      if existingRoom.map Room.status = some .closed then (.err 400 "room is closed", slot)
      else
        let role := (roleMap req.role).getD .member
        match joinRoom now actualRoomId jwtUserId role slot with
        | (.error message, slot) => (.err 400 message, slot)
        | (.ok _, slot) => (.ok, (getRoom slot).2)

/-- `join_via_share_link`, on the room of the link; `linkValid` says that the link is there and
has not expired. -/
def handleShareJoin (now jwtUserId roomId : String) (linkValid : Bool) : RoomOp Reply := fun slot =>
  if jwtUserId = "" then (.err 401 "not authenticated", slot)
  else if !linkValid then (.err 410 "share link expired", slot)
  else
    match getRoom slot with
    | (none, slot) => (.err 404 "room not found or closed", slot)
    | (some room, slot) =>
      if room.status = .closed then (.err 404 "room not found or closed", slot)
      else if (getMember jwtUserId slot).isSome then (.ok, slot)
      else
        match joinRoom now roomId jwtUserId .member slot with
        | (.error message, slot) => (.err 500 message, slot)
        | (.ok _, slot) => (.ok, slot)

/-- What `accept_invitation` finds in the invitation store: the addressee, whether the invitation
is pending and not expired, and whether it can be marked as accepted. -/
structure InvitationLookup where
  inviteeId : String
  status : String
  expired : Bool
  marked : Bool
deriving DecidableEq

/-- `accept_invitation`, on the room of the invitation. -/
def handleAcceptInvitation (now jwtUserId roomId : String) (inv : Option InvitationLookup) :
    RoomOp Reply := fun slot =>
  if jwtUserId = "" then (.err 401 "not authenticated", slot)
  else
    match inv with
    | none => (.err 404 "invitation not found", slot)
    | some inv =>
      if inv.inviteeId ≠ jwtUserId then (.err 403 "not your invitation", slot)
      else if inv.status ≠ "pending" then
        (.err 400 ("invitation status is " ++ inv.status ++ ", not pending"), slot)
      else if inv.expired then (.err 400 "invitation expired", slot)
      else
        match getRoom slot with
        | (none, slot) => (.err 404 "room not found", slot)
        | (some _, slot) =>
          if (getMember jwtUserId slot).isSome then (.err 400 "invitee already in room", slot)
          else if !inv.marked then (.err 409 "invitation status changed, please retry", slot)
          else
            match joinRoom now roomId jwtUserId .member slot with
            | (.error message, slot) => (.err 500 message, slot)
            | (.ok _, slot) => (.ok, slot)

/-- `leave_room`, where `userId` is the one of the request. -/
def handleLeaveRoom (jwtUserId userId : String) : RoomOp Reply := fun slot =>
  if jwtUserId = "" then (.err 401 "not authenticated", slot)
  else if userId ≠ "" ∧ userId ≠ jwtUserId then (.err 403 "user_id must match current user", slot)
  else (.ok, (leaveRoom jwtUserId (getRoom slot).2).2)

/-- The check of `operator_id` that the handlers of the owner share. -/
def checkOperator (jwtUserId operatorId : String) (f : RoomOp Reply) : RoomOp Reply := fun slot =>
  if jwtUserId = "" then (.err 401 "not authenticated", slot)
  else if operatorId ≠ "" ∧ operatorId ≠ jwtUserId then (.err 403 "operator_id mismatch", slot)
  else f slot

/-- `kick_member` -/
def handleKickMember (jwtUserId roomId userId operatorId : String) : RoomOp Reply :=
  checkOperator jwtUserId operatorId fun slot =>
    match getRoom slot with
    | (none, slot) => (.err 404 ("Room not found: " ++ roomId), slot)
    | (some _, slot) =>
      if getMember userId slot = none then
        (.err 404 ("Member " ++ userId ++ " not found in room " ++ roomId), slot)
      else if !canKick jwtUserId userId slot then
        (.err 403 "权限不足：群主可踢任何人，admin 可踢普通成员", slot)
      else (.ok, (leaveRoom userId slot).2)

/-- `knock_accept` -/
def handleKnockAccept (now jwtUserId roomId : String) (req : KnockAcceptRequest) : RoomOp Reply :=
  checkOperator jwtUserId req.operatorId fun slot =>
    match getRoom slot with
    | (none, slot) => (.err 404 ("Room not found: " ++ roomId), slot)
    | (some room, slot) =>
      if jwtUserId ≠ room.ownerId then (.err 403 "权限不足，仅房主可操作", slot)
      else
        let role := (roleMap req.role).getD .member
        match joinRoom now roomId req.knockerId role slot with
        | (.error message, slot) => (.err 500 message, slot)
        | (.ok _, slot) => (.ok, slot)

/-- `set_member_role` -/
def handleSetMemberRole (jwtUserId roomId userId : String) (req : SetRoleRequest) : RoomOp Reply :=
  checkOperator jwtUserId req.operatorId fun slot =>
    match roleMap req.role with
    | none => (.err 400 ("无效的角色: " ++ req.role ++ "（可选 owner/admin/member/guest）"), slot)
    | some newRole =>
      match getRoom slot with
      | (none, slot) => (.err 404 ("Room not found: " ++ roomId), slot)
      | (some room, slot) =>
        if jwtUserId ≠ room.ownerId then (.err 403 "仅群主可设置成员角色", slot)
        else
          match updateUserRole userId newRole slot with
          | (false, slot) => (.err 400 "设置失败（不能修改群主角色或用户不存在）", slot)
          | (true, slot) => (.ok, slot)

/-- `delete_room` up to its first `await` behind the checks; `canDelete` is the answer of
`check_room_can_delete`. -/
def handleDeleteRoom (jwtUserId roomId : String) (canDelete : Bool) : RoomOp Reply := fun slot =>
  if jwtUserId = "" then (.err 401 "not authenticated", slot)
  else
    match getRoom slot with
    | (none, slot) => (.err 404 ("Room not found: " ++ roomId), slot)
    | (some room, slot) =>
      if room.ownerId ≠ jwtUserId then (.err 403 "只有群主可以关闭房间", slot)
      else if !canDelete then (.err 409 "房间内存在活跃资源，无法删除", slot)
      else (.ok, (getRoomMembers slot).2)

/-- The end of `delete_room`. -/
def handleDeleteRoomEnd (now jwtUserId : String) : RoomOp Reply := fun slot =>
  (.ok, (closeRoom now jwtUserId "owner_entered_another_room" slot).2)

/-! ## The system -/

/-- The manager, the `delete_room` calls that have passed their checks, and a record of who was
given the role of admin or owner by the owner of the room. -/
structure World where
  manager : UserManager
  closing : List (String × String)
  granted : List (String × String)

/-- The server at the start. -/
def World.init : World := ⟨UserManager.empty, [], []⟩

/-- A request. `roomId` is the room it is for. -/
inductive Request
  | create (now jwtUserId roomId : String) (req : RoomCreateRequest)
  | join (now jwtUserId roomId : String) (req : RoomJoinRequest)
  | shareJoin (now jwtUserId roomId : String) (linkValid : Bool)
  | acceptInvitation (now jwtUserId roomId : String) (inv : Option InvitationLookup)
  | leave (jwtUserId roomId userId : String)
  | kick (jwtUserId roomId userId operatorId : String)
  | knockAccept (now jwtUserId roomId : String) (req : KnockAcceptRequest)
  | setRole (jwtUserId roomId userId : String) (req : SetRoleRequest)
  | delete (jwtUserId roomId : String) (canDelete : Bool)
  | deleteEnd (now jwtUserId roomId : String)
deriving DecidableEq

namespace Request

/-- The room whose entry the request changes. -/
def room : Request → String
  | .join _ _ roomId req => req.actualRoomId roomId
  | .create _ _ roomId _ | .shareJoin _ _ roomId _ | .acceptInvitation _ _ roomId _
  | .leave _ roomId _ | .kick _ roomId _ _ | .knockAccept _ _ roomId _ | .setRole _ roomId _ _
  | .delete _ roomId _ | .deleteEnd _ _ roomId => roomId

/-- Who makes the request. -/
def actor : Request → String
  | .create _ jwtUserId _ _ | .join _ jwtUserId _ _ | .shareJoin _ jwtUserId _ _
  | .acceptInvitation _ jwtUserId _ _ | .leave jwtUserId _ _ | .kick jwtUserId _ _ _
  | .knockAccept _ jwtUserId _ _ | .setRole jwtUserId _ _ _ | .delete jwtUserId _ _
  | .deleteEnd _ jwtUserId _ => jwtUserId

/-- Whom the request is about. -/
def subject : Request → String
  | .kick _ _ userId _ | .setRole _ _ userId _ => userId
  | .knockAccept _ _ _ req => req.knockerId
  | .create _ jwtUserId _ _ | .join _ jwtUserId _ _ | .shareJoin _ jwtUserId _ _
  | .acceptInvitation _ jwtUserId _ _ | .leave jwtUserId _ _ | .delete jwtUserId _ _
  | .deleteEnd _ jwtUserId _ => jwtUserId

/-- The handler of the request, on its room. -/
def handle : Request → RoomOp Reply
  | .create now jwtUserId roomId req => handleCreateRoom now jwtUserId roomId req
  | .join now jwtUserId roomId req => handleJoinRoom now jwtUserId (req.actualRoomId roomId) req
  | .shareJoin now jwtUserId roomId linkValid => handleShareJoin now jwtUserId roomId linkValid
  | .acceptInvitation now jwtUserId roomId inv => handleAcceptInvitation now jwtUserId roomId inv
  | .leave jwtUserId _ userId => handleLeaveRoom jwtUserId userId
  | .kick jwtUserId roomId userId operatorId => handleKickMember jwtUserId roomId userId operatorId
  | .knockAccept now jwtUserId roomId req => handleKnockAccept now jwtUserId roomId req
  | .setRole jwtUserId roomId userId req => handleSetMemberRole jwtUserId roomId userId req
  | .delete jwtUserId roomId canDelete => handleDeleteRoom jwtUserId roomId canDelete
  | .deleteEnd now jwtUserId _ => handleDeleteRoomEnd now jwtUserId

end Request

/-- The role field of a member. -/
def roleIn (userId : String) (slot : Option Room) : Option UserRole :=
  (getMember userId slot).map User.role

/-- The roles that may manage members. -/
def UserRole.manages (role : UserRole) : Bool := role = .owner || role = .admin

/-- The request of the owner of the room gives its subject a role that manages members. -/
def Grants (a : Request) (before after : Option Room) : Prop :=
  before.map Room.ownerId = some a.actor ∧ roleIn a.subject after ≠ roleIn a.subject before ∧
    (roleIn a.subject after).any UserRole.manages

instance (a : Request) (before after : Option Room) : Decidable (Grants a before after) :=
  inferInstanceAs (Decidable (_ ∧ _ ∧ _))

/-- `delete_room` goes on only where its checks have passed. -/
def World.possible (w : World) : Request → Bool
  | .deleteEnd _ jwtUserId roomId => decide ((roomId, jwtUserId) ∈ w.closing)
  | _ => true

/-- The state after a request. -/
def World.after (w : World) (a : Request) : World :=
  let (reply, manager) := w.manager.onRoom a.room a.handle
  { manager
    closing := match a, reply with
      | .delete jwtUserId roomId _, .ok => (roomId, jwtUserId) :: w.closing
      | .deleteEnd _ jwtUserId roomId, _ => w.closing.erase (roomId, jwtUserId)
      | _, _ => w.closing
    granted :=
      if Grants a (w.manager.room a.room) (manager.room a.room) then
        (a.room, a.subject) :: w.granted
      else w.granted }

/-- One request. -/
def serve (w : World) (a : Request) : Option World := if w.possible a then some (w.after a) else none

end SrsChatRoom.Server.Rooms
