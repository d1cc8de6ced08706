import SrsChatRoom.Lib.Dict
import SrsChatRoom.Lib.System

/-!
# Rooms and members (`user_manager.py`)

`UserManager` holds the rooms by id, and every operation works on one room. An operation is
therefore a function on the entry of `_rooms` at one id (`RoomOp`): the room, or `none` where
there is no such room. `get?_onRoom` says that it leaves the other rooms alone.

Methods that raise `ValueError` return its text as `.error`, with the room as they leave it. The
clock is the argument `now`, in the format of `_get_current_time`. `_stream_to_user` is left out:
the class only writes it.
-/

namespace SrsChatRoom.Server.Rooms

/-! ## Data -/

/-- `UserRole` -/
inductive UserRole
  | owner
  | admin
  | member
  | guest
deriving DecidableEq, Repr

/-- `UserStatus` -/
inductive UserStatus
  | normal
  | muted
  | micOff
deriving DecidableEq, Repr

/-- `OwnerStatus` -/
inductive OwnerStatus
  | online
  | offline
deriving DecidableEq, Repr

/-- `RoomStatus` -/
inductive RoomStatus
  | active
  | closed
deriving DecidableEq, Repr

/-- `User` -/
structure User where
  userId : String
  roomId : String
  role : UserRole
  status : UserStatus
  joinedAt : String
  lastActive : String
  publishAllowed : Bool
deriving DecidableEq, Repr

/-- `Room` -/
structure Room where
  roomId : String
  name : String
  ownerId : String
  ownerStatus : OwnerStatus
  status : RoomStatus
  closedBy : String
  closedAt : String
  closeReason : String
  createdAt : String
  maxMembers : ℕ
  allowSpeak : Bool
  members : Dict String User

/-- `UserManager` -/
structure UserManager where
  rooms : Dict String Room

/-- The manager at the start. -/
def UserManager.empty : UserManager := ⟨Dict.empty⟩

/-- `User(user_id=..., room_id=..., role=..., joined_at=..., last_active=...)` -/
def User.new (now roomId userId : String) (role : UserRole) : User where
  userId := userId
  roomId := roomId
  role := role
  status := .normal
  joinedAt := now
  lastActive := now
  publishAllowed := true

/-- `Room(room_id=..., name=..., owner_id=..., created_at=...)` -/
def Room.new (now roomId ownerId name : String) : Room where
  roomId := roomId
  name := if name = "" then roomId else name
  ownerId := ownerId
  ownerStatus := .online
  status := .active
  closedBy := ""
  closedAt := ""
  closeReason := ""
  createdAt := now
  maxMembers := 100
  allowSpeak := true
  members := Dict.empty

/-! ## Operations on one room -/

/-- What a method does with `self._rooms[room_id]`: its result, and the entry it leaves. -/
def RoomOp (β : Type) : Type := Option Room → β × Option Room

/-- `room.members[user_id] = user` -/
def Room.setMember (room : Room) (userId : String) (user : User) : Room :=
  { room with members := room.members.set userId user }

/-- `room.members = members` -/
def Room.setMembers (room : Room) (members : Dict String User) : Room :=
  { room with members := members }

/-- `room.owner_id = owner_id` -/
def Room.setOwner (room : Room) (ownerId : String) : Room := { room with ownerId := ownerId }

/-- `_repair_room_if_needed` behind the removal of the member without id. -/
def Room.repairOwner (room : Room) : Room :=
  if room.ownerId ≠ "" ∧ room.members.contains room.ownerId then room
  else
    match room.members.entries with
    | [] => room.setOwner ""
    | (uid, member) :: _ =>
      match room.members.entries.find? fun e => e.2.role = .owner with
      | some (ownerUid, _) => room.setOwner ownerUid
      | none => (room.setOwner uid).setMember uid { member with role := .owner }

/-- `_repair_room_if_needed` -/
def Room.repair (room : Room) : Room := (room.setMembers (room.members.erase "")).repairOwner

/-- The room that `create_room` makes where there is none. -/
def Room.create (now roomId ownerId name : String) : Room :=
  let room := Room.new now roomId ownerId name
  if ownerId ≠ "" then room.setMember ownerId (User.new now roomId ownerId .owner) else room

/-- `create_room` -/
def createRoom (now roomId ownerId name : String) : RoomOp Room
  | some room => (room, some room)
  | none => (Room.create now roomId ownerId name, some (Room.create now roomId ownerId name))

/-- `get_or_create_room` -/
def getOrCreateRoom (now roomId creatorId : String) : RoomOp Room :=
  createRoom now roomId creatorId ""

/-- `get_room` -/
def getRoom : RoomOp (Option Room) := fun slot => (slot.map Room.repair, slot.map Room.repair)

/-- `get_room_members` -/
def getRoomMembers : RoomOp (List User)
  | some room => (room.repair.members.entries.map Prod.snd, some room.repair)
  | none => ([], none)

/-- `delete_room` -/
def deleteRoom : RoomOp Bool
  | some _ => (true, none)
  | none => (false, none)

/-- `close_room` -/
def closeRoom (now closedBy reason : String) : RoomOp Bool
  | some room => (true, some { room.setMembers (room.members.filter fun userId _ =>
        userId = room.ownerId) with
      status := .closed
      closedBy := closedBy
      closedAt := now
      closeReason := reason
      ownerStatus := .offline })
  | none => (false, none)

/-- `set_owner_online` and `set_owner_offline` -/
def setOwnerStatus (ownerStatus : OwnerStatus) : RoomOp Bool
  | some room => (true, some { room with ownerStatus := ownerStatus })
  | none => (false, none)

/-- `join_room` behind the repair of the room. -/
def Room.join (now roomId userId : String) (role : UserRole) (room : Room) :
    Except String User × Room :=
  if room.status = .closed then (.error ("Room " ++ roomId ++ " is closed"), room)
  else
    match room.members.get? userId with
    | some user =>
      let user := { user with lastActive := now }
      let room := room.setMember userId user
      (.ok user, if userId = room.ownerId then { room with ownerStatus := .online } else room)
    | none =>
      if room.maxMembers ≤ room.members.size then
        (.error ("Room " ++ roomId ++ " is full"), room)
      else
        -- the first to join a room without owner becomes the owner
        let first := room.ownerId = "" ∧ room.members.size = 0
        let user := User.new now roomId userId (if first then .owner else role)
        let room := if first then room.setOwner userId else room
        if room.ownerId = "" ∧ role = .owner then
          let user := { user with role := .owner }
          (.ok user, (room.setOwner userId).setMember userId user)
        else (.ok user, room.setMember userId user)

/-- `join_room` -/
def joinRoom (now roomId userId : String) (role : UserRole) : RoomOp (Except String User) :=
  fun slot =>
    let room := (slot.getD (Room.create now roomId "" "")).repair
    let (result, room) := room.join now roomId userId role
    (result, some room)

/-- `leave_room` for a member: the owner keeps the seat. -/
def Room.leave (room : Room) (userId : String) : Room :=
  if userId = room.ownerId then { room with ownerStatus := .offline }
  else room.setMembers (room.members.erase userId)

/-- `leave_room` -/
def leaveRoom (userId : String) : RoomOp Bool
  | some room =>
    if room.members.contains userId then
      (true, if (room.leave userId).members.size = 0 then none else some (room.leave userId))
    else (false, some room)
  | none => (false, none)

/-- `room.members[user_id].role = UserRole.MEMBER`, for a member. -/
def Room.demote (room : Room) (userId : String) : Room :=
  match room.members.get? userId with
  | some user => room.setMember userId { user with role := .member }
  | none => room

/-- `update_user_role` for a member of the room. -/
def Room.updateRole (room : Room) (userId : String) (user : User) (newRole : UserRole) : Room :=
  let room := room.setMember userId { user with role := newRole }
  -- the former owner becomes a member
  if newRole = .owner ∧ room.ownerId ≠ userId then (room.demote room.ownerId).setOwner userId
  else room

/-- `update_user_role` -/
def updateUserRole (userId : String) (newRole : UserRole) : RoomOp Bool
  | some room =>
    match room.members.get? userId with
    | some user =>
      if userId = room.ownerId ∧ newRole ≠ .owner then (false, some room)
      else (true, some (room.updateRole userId user newRole))
    | none => (false, some room)
  | none => (false, none)

/-! ## Mute and microphone -/

/-- What `mute_user` and `disable_mic` do, with the status they set. -/
def sanction (status : UserStatus) (userId : String) : RoomOp Bool
  | some room =>
    match room.members.get? userId with
    | some user =>
      if userId = room.ownerId then (false, some room)
      else (true, some (room.setMember userId
        { user with status := status, publishAllowed := false }))
    | none => (false, some room)
  | none => (false, none)

/-- What `unmute_user` and `enable_mic` do. -/
def restore (userId : String) : RoomOp Bool
  | some room =>
    match room.members.get? userId with
    | some user =>
      (true, some (room.setMember userId { user with status := .normal, publishAllowed := true }))
    | none => (false, some room)
  | none => (false, none)

/-- `mute_user` -/
def muteUser : String → RoomOp Bool := sanction .muted

/-- `unmute_user` -/
def unmuteUser : String → RoomOp Bool := restore

/-- `disable_mic` -/
def disableMic : String → RoomOp Bool := sanction .micOff

/-- `enable_mic` -/
def enableMic : String → RoomOp Bool := restore

/-- The body of the loop of `mute_all`. -/
def Room.muteMember (room : Room) (userId : String) (user : User) : User :=
  if userId ≠ room.ownerId then { user with status := .muted, publishAllowed := false } else user

/-- The body of the loop of `unmute_all`. -/
def User.unmuteMember (user : User) : User :=
  if user.status = .muted then { user with status := .normal, publishAllowed := true } else user

/-- `mute_all`, with the number of muted members. -/
def muteAll : RoomOp ℕ
  | some room =>
    ((room.members.filter fun userId _ => userId ≠ room.ownerId).size,
      some { room.setMembers (room.members.mapVal room.muteMember) with allowSpeak := false })
  | none => (0, none)

/-- `unmute_all`, with the number of unmuted members. -/
def unmuteAll : RoomOp ℕ
  | some room =>
    ((room.members.filter fun _ user => user.status = .muted).size,
      some { room.setMembers (room.members.mapVal fun _ user => user.unmuteMember) with
        allowSpeak := true })
  | none => (0, none)

/-! ## Observations -/

/-- `get_member` -/
def getMember (userId : String) (slot : Option Room) : Option User :=
  slot.bind fun room => room.members.get? userId

/-- `can_publish` -/
def canPublish (userId : String) : Option Room → Bool
  | none => true
  | some room =>
    match room.members.get? userId with
    | none => room.allowSpeak
    | some user => userId = room.ownerId || (room.allowSpeak && user.publishAllowed)

/-- `can_manage_members` -/
def canManageMembers (userId : String) (slot : Option Room) : Bool :=
  match getMember userId slot with
  | none => false
  | some user => user.role = .owner || user.role = .admin

/-- `can_kick` -/
def canKick (operatorId targetId : String) : Option Room → Bool
  | none => false
  | some room =>
    if operatorId = targetId then false
    else if operatorId = room.ownerId then true
    else
      match room.members.get? operatorId, room.members.get? targetId with
      | some operator, some target => operator.role = .admin && target.role = .member
      | _, _ => false

namespace UserManager

/-- `self._rooms.get(room_id)` -/
def room (m : UserManager) (roomId : String) : Option Room := m.rooms.get? roomId

/-- Call a method for a room. -/
def onRoom {β : Type} (m : UserManager) (roomId : String) (f : RoomOp β) : β × UserManager :=
  let (result, slot) := f (m.room roomId)
  match slot with
  | some room => (result, ⟨m.rooms.set roomId room⟩)
  | none => (result, ⟨m.rooms.erase roomId⟩)

/-- `find_room_for_user` -/
def findRoomForUser (m : UserManager) (userId : String) : Option String :=
  if userId = "" then none
  else (m.rooms.entries.find? fun e => e.2.members.contains userId).map Prod.fst

/-- A method changes the room it is called for, and no other. -/
theorem room_onRoom {β : Type} (m : UserManager) (roomId : String) (f : RoomOp β) (id : String) :
    (m.onRoom roomId f).2.room id = if roomId = id then (f (m.room roomId)).2 else m.room id := by
  unfold onRoom room
  cases hslot : (f (m.rooms.get? roomId)).2 with
  | some r =>
    simp only [hslot]
    exact Dict.get?_set _ _ _ _
  | none =>
    simp only [hslot]
    exact Dict.get?_erase _ _ _

theorem fst_onRoom {β : Type} (m : UserManager) (roomId : String) (f : RoomOp β) :
    (m.onRoom roomId f).1 = (f (m.room roomId)).1 := by
  unfold onRoom
  cases hslot : (f (m.room roomId)).2 with
  | some r => simp only [hslot]
  | none => simp only [hslot]

end UserManager

/-- `join_room` takes the user in as a further member of a room with an owner. -/
def TakesIn (userId : String) : Option Room → Prop
  | some room => room.ownerId ≠ "" ∧ room.status ≠ .closed ∧
      room.members.get? userId = none ∧ room.members.size < room.maxMembers
  | none => False

instance (userId : String) (slot : Option Room) : Decidable (TakesIn userId slot) := by
  cases slot <;> unfold TakesIn <;> infer_instance

/-- A further member has the role that was asked for. -/
theorem join_takesIn {room : Room} {userId : String} (h : TakesIn userId (some room))
    (now roomId : String) (role : UserRole) :
    room.join now roomId userId role = (.ok (User.new now roomId userId role),
      room.setMember userId (User.new now roomId userId role)) := by
  obtain ⟨howner, hopen, hmem, hroom⟩ := h
  have hfirst : ¬ (room.ownerId = "" ∧ room.members.size = 0) := fun hand => howner hand.1
  rw [Room.join, if_neg hopen, hmem]
  simp only [if_neg (not_le.mpr hroom), if_neg hfirst]
  rw [if_neg (fun hand => howner hand.1)]

/-! ## Calls -/

/-- A call of a method that may change a room. -/
inductive Call
  | createRoom (now ownerId name : String)
  | getOrCreateRoom (now creatorId : String)
  | getRoom
  | getRoomMembers
  | deleteRoom
  | closeRoom (now closedBy reason : String)
  | setOwnerStatus (ownerStatus : OwnerStatus)
  | joinRoom (now userId : String) (role : UserRole)
  | leaveRoom (userId : String)
  | updateUserRole (userId : String) (newRole : UserRole)
  | muteUser (userId : String)
  | unmuteUser (userId : String)
  | disableMic (userId : String)
  | enableMic (userId : String)
  | muteAll
  | unmuteAll
deriving DecidableEq

/-- The entry after a call for the room `roomId`. -/
def Call.run (roomId : String) (slot : Option Room) : Call → Option Room
  | .createRoom now ownerId name => (Rooms.createRoom now roomId ownerId name slot).2
  | .getOrCreateRoom now creatorId => (Rooms.getOrCreateRoom now roomId creatorId slot).2
  | .getRoom => (Rooms.getRoom slot).2
  | .getRoomMembers => (Rooms.getRoomMembers slot).2
  | .deleteRoom => (Rooms.deleteRoom slot).2
  | .closeRoom now closedBy reason => (Rooms.closeRoom now closedBy reason slot).2
  | .setOwnerStatus ownerStatus => (Rooms.setOwnerStatus ownerStatus slot).2
  | .joinRoom now userId role => (Rooms.joinRoom now roomId userId role slot).2
  | .leaveRoom userId => (Rooms.leaveRoom userId slot).2
  | .updateUserRole userId newRole => (Rooms.updateUserRole userId newRole slot).2
  | .muteUser userId => (Rooms.muteUser userId slot).2
  | .unmuteUser userId => (Rooms.unmuteUser userId slot).2
  | .disableMic userId => (Rooms.disableMic userId slot).2
  | .enableMic userId => (Rooms.enableMic userId slot).2
  | .muteAll => (Rooms.muteAll slot).2
  | .unmuteAll => (Rooms.unmuteAll slot).2

/-- The manager after a call for a room. -/
def UserManager.call (m : UserManager) (op : String × Call) : UserManager :=
  (m.onRoom op.1 fun slot => ((), op.2.run op.1 slot)).2

/-- Calls are always possible. -/
def step (m : UserManager) (op : String × Call) : Option UserManager := some (m.call op)

theorem room_call (m : UserManager) (op : String × Call) (id : String) :
    (m.call op).room id = if op.1 = id then op.2.run op.1 (m.room op.1) else m.room id :=
  m.room_onRoom op.1 _ id

end SrsChatRoom.Server.Rooms
