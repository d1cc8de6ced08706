import SrsChatRoom.Server.RoomHandlers
import SrsChatRoom.Server.RoomOwner

/-!
# Who may manage the members of a room

`can_manage_members` reads the role field of a member, and the handlers of the owner read
`owner_id`. `managers_appointed`: after every run of requests, who may manage the members of a room
is its owner, or was given the role of admin or owner by the owner of the room, as long as nobody
asks for such a role in a `join` request that takes in a new member. `join_room` hands the role of
the request to the manager as it is, so that such a request makes its user a manager of the members.
-/

namespace SrsChatRoom.Server.Rooms

/-! ## Rooms whose managers were appointed -/

/-- The owner is a member, and the members whose role manages members are the owner and those in
`granted`. -/
structure Room.Ruled (granted : List (String × String)) (roomId : String) (room : Room) : Prop where
  named : room.ownerId ≠ ""
  seated : room.roleOf room.ownerId ≠ none
  appointed : ∀ userId role, room.roleOf userId = some role → role.manages →
    userId = room.ownerId ∨ (roomId, userId) ∈ granted

section Ruled

variable {granted granted' : List (String × String)} {roomId userId : String} {room room' : Room}

theorem Room.Ruled.mono (h : room.Ruled granted roomId) (hsub : granted ⊆ granted') :
    room.Ruled granted' roomId := by
  refine ⟨h.named, h.seated, ?_⟩
  intro id role hid hmanages
  exact (h.appointed id role hid hmanages).imp_right fun hmem => hsub hmem

/-- The owner stays, and whoever comes to manage members is in `granted'`. -/
theorem Room.Ruled.change (h : room.Ruled granted roomId) (hsub : granted ⊆ granted')
    (howner : room'.ownerId = room.ownerId) (hseat : room'.roleOf room.ownerId ≠ none)
    (hroles : ∀ id role, room'.roleOf id = some role → role.manages →
      room.roleOf id = some role ∨ (roomId, id) ∈ granted') : room'.Ruled granted' roomId := by
  refine ⟨howner ▸ h.named, howner ▸ hseat, ?_⟩
  intro id role hid hmanages
  rw [howner]
  rcases hroles id role hid hmanages with hbefore | hnew
  · exact (h.appointed id role hbefore hmanages).imp_right fun hmem => hsub hmem
  · right
    exact hnew

/-- `Ruled` looks at nothing but the owner and the roles. -/
theorem Room.Ruled.congr (h : room.Ruled granted roomId) (howner : room'.ownerId = room.ownerId)
    (hroles : ∀ id, room'.roleOf id = room.roleOf id) : room'.Ruled granted roomId := by
  apply h.change (List.Subset.refl _) howner
  · rw [hroles]
    exact h.seated
  · intro id role hid hmanages
    left
    rw [← hroles, hid]

/-- Members other than the owner go. -/
theorem Room.Ruled.remove (h : room.Ruled granted roomId) (howner : room'.ownerId = room.ownerId)
    (hroles : ∀ id, room'.roleOf id = room.roleOf id ∨
      (id ≠ room.ownerId ∧ room'.roleOf id = none)) : room'.Ruled granted roomId := by
  apply h.change (List.Subset.refl _) howner
  · rcases hroles room.ownerId with hsame | hgone
    · rw [hsame]
      exact h.seated
    · exact absurd rfl hgone.1
  · intro id role hid hmanages
    left
    rcases hroles id with hsame | hgone
    · rw [← hsame, hid]
    · rw [hgone.2] at hid
      cases hid

/-- The repair of a ruled room removes the member without id. -/
theorem Room.Ruled.repair_eq (h : room.Ruled granted roomId) :
    room.repair = room.setMembers (room.members.erase "") := by
  have hseat : (room.members.erase "").contains room.ownerId = true := by
    rw [Dict.contains, Dict.get?_erase, if_neg (Ne.symm h.named), ← Option.isSome_map]
    exact Option.isSome_iff_ne_none.mpr h.seated
  rw [Room.repair, Room.repairOwner]
  exact if_pos ⟨h.named, hseat⟩

theorem Room.Ruled.roleOf_repair (h : room.Ruled granted roomId) (id : String) :
    room.repair.roleOf id = if "" = id then none else room.roleOf id := by
  rw [h.repair_eq, roleOf_setMembers, Dict.get?_erase]
  split <;> rfl

theorem Room.Ruled.ownerId_repair (h : room.Ruled granted roomId) :
    room.repair.ownerId = room.ownerId := by
  rw [h.repair_eq]
  rfl

theorem Room.Ruled.repair (h : room.Ruled granted roomId) : room.repair.Ruled granted roomId := by
  apply h.remove h.ownerId_repair
  intro id
  rw [h.roleOf_repair]
  by_cases hid : "" = id
  · right
    rw [if_pos hid]
    exact ⟨fun howner => h.named (hid.trans howner).symm, rfl⟩
  · left
    rw [if_neg hid]

theorem canManageMembers_eq :
    canManageMembers userId (some room) = (room.roleOf userId).any UserRole.manages := by
  have hmember : getMember userId (some room) = room.members.get? userId := rfl
  show canManageMembers userId (some room) = ((room.members.get? userId).map User.role).any _
  rw [canManageMembers, hmember]
  cases room.members.get? userId with
  | none => rfl
  | some user => rfl

/-! ## The operations of the manager -/

theorem ruled_create (now name : String) (hname : userId ≠ "") :
    (Room.create now roomId userId name).Ruled granted roomId := by
  have hroles : ∀ id, (Room.create now roomId userId name).roleOf id =
      if userId = id then some .owner else none := by
    intro id
    rw [Room.create, if_pos hname, roleOf_setMember]
    rfl
  have howner : (Room.create now roomId userId name).ownerId = userId := by
    rw [Room.create, if_pos hname]
    rfl
  refine ⟨?_, ?_, ?_⟩
  · rw [howner]
    exact hname
  · rw [howner, hroles, if_pos rfl]
    exact Option.some_ne_none _
  · intro id role hid hmanages
    left
    rw [hroles] at hid
    split at hid
    · next heq => rw [howner, heq]
    · cases hid

/-- A user joins who may have the role asked for, or is no further member. -/
theorem ruled_join (h : room.Ruled granted roomId) (now : String) (role : UserRole)
    (hmay : TakesIn userId (some room) → role.manages → (roomId, userId) ∈ granted) :
    (room.join now roomId userId role).2.Ruled granted roomId := by
  by_cases htakes : TakesIn userId (some room)
  · rw [join_takesIn htakes]
    have hne : userId ≠ room.ownerId := by
      intro hid
      exact h.seated (roleOf_eq_none_iff.mpr (hid ▸ htakes.2.2.1))
    show Room.Ruled _ _ (room.setMember userId (User.new now roomId userId role))
    refine h.change (List.Subset.refl _) rfl ?_ ?_
    · rw [roleOf_setMember, if_neg hne]
      exact h.seated
    · intro id role' hid hmanages
      rw [roleOf_setMember] at hid
      split at hid
      · next heq =>
        right
        cases hid
        exact heq ▸ hmay htakes hmanages
      · left
        exact hid
  · unfold Room.join
    by_cases hclosed : room.status = .closed
    · rw [if_pos hclosed]
      exact h
    rw [if_neg hclosed]
    cases hmem : room.members.get? userId with
    | some user =>
      have hset : (room.setMember userId { user with lastActive := now }).Ruled granted roomId := by
        refine h.congr rfl ?_
        intro id
        rw [roleOf_setMember]
        split
        · next heq => rw [← heq, roleOf_of_get? hmem]
        · rfl
      show (if userId = room.ownerId then _ else _ : Room).Ruled granted roomId
      split
      · exact hset.congr rfl fun _ => rfl
      · exact hset
    | none =>
      have hfull : room.maxMembers ≤ room.members.size := by
        by_contra hroom
        exact htakes ⟨h.named, hclosed, hmem, not_le.mp hroom⟩
      simp only [if_pos hfull]
      exact h

/-- A room with an owner keeps it when a user joins. -/
theorem ownerId_join {now : String} {role : UserRole} (hname : room.ownerId ≠ "") :
    (room.join now roomId userId role).2.ownerId = room.ownerId := by
  by_cases htakes : TakesIn userId (some room)
  · rw [join_takesIn htakes]
    rfl
  · unfold Room.join
    by_cases hclosed : room.status = .closed
    · rw [if_pos hclosed]
    rw [if_neg hclosed]
    cases hmem : room.members.get? userId with
    | some user =>
      show (if userId = room.ownerId then _ else _ : Room).ownerId = _
      split <;> rfl
    | none =>
      have hfull : room.maxMembers ≤ room.members.size := by
        by_contra hroom
        exact htakes ⟨hname, hclosed, hmem, not_le.mp hroom⟩
      simp only [if_pos hfull]

/-- The first to join a room becomes its owner. -/
theorem ruled_join_create (now : String) (role : UserRole) (hname : userId ≠ "") :
    (((Room.create now roomId "" "").repair.join now roomId userId role).2).Ruled
      granted roomId := by
  have hroom : (Room.create now roomId "" "").repair = Room.new now roomId "" "" := rfl
  have hjoin : ((Room.new now roomId "" "").join now roomId userId role).2 =
      ((Room.new now roomId "" "").setOwner userId).setMember userId
        (User.new now roomId userId .owner) := by
    have hsize : ¬ (Room.new now roomId "" "").maxMembers ≤
        (Room.new now roomId "" "").members.size := by
      show ¬ 100 ≤ 0
      omega
    have hopen : ¬ (Room.new now roomId "" "").status = .closed := by
      intro hclosed
      cases hclosed
    have hfirst : (Room.new now roomId "" "").ownerId = "" ∧
        (Room.new now roomId "" "").members.size = 0 := ⟨rfl, rfl⟩
    have hlate : ¬ (((Room.new now roomId "" "").setOwner userId).ownerId = "" ∧ role = .owner) :=
      fun hand => hname hand.1
    rw [Room.join, if_neg hopen]
    show (if _ then _ else _ : Except String User × Room).2 = _
    rw [if_neg hsize]
    simp only [if_pos hfirst, if_neg hlate]
  rw [hroom, hjoin]
  have hroles : ∀ id, (((Room.new now roomId "" "").setOwner userId).setMember userId
      (User.new now roomId userId .owner)).roleOf id =
        if userId = id then some .owner else none := by
    intro id
    rw [roleOf_setMember, roleOf_setOwner]
    rfl
  refine ⟨hname, ?_, ?_⟩
  · show Room.roleOf _ userId ≠ none
    rw [hroles, if_pos rfl]
    exact Option.some_ne_none _
  · intro id role' hid hmanages
    left
    rw [hroles] at hid
    split at hid
    · next heq => exact heq.symm
    · cases hid

theorem ruled_leave (h : room.Ruled granted roomId) (userId : String) :
    (room.leave userId).Ruled granted roomId := by
  unfold Room.leave
  split
  · exact h.congr rfl fun _ => rfl
  · next hne =>
    refine h.remove rfl ?_
    intro id
    rw [roleOf_setMembers, Dict.get?_erase]
    by_cases hid : userId = id
    · right
      rw [if_pos hid]
      exact ⟨fun howner => hne (hid.trans howner), rfl⟩
    · left
      rw [if_neg hid]
      rfl

/-- A member gets a role. The former owner of a room that is handed over is a plain member. -/
theorem ruled_updateRole (h : room.Ruled granted roomId) {user : User} {newRole : UserRole}
    (huser : room.members.get? userId = some user) (hname : userId ≠ "") :
    (room.updateRole userId user newRole).Ruled ((roomId, userId) :: granted) roomId := by
  have hset : (room.setMember userId { user with role := newRole }).Ruled
      ((roomId, userId) :: granted) roomId := by
    refine h.change (List.subset_cons_self _ _) rfl ?_ ?_
    · rw [roleOf_setMember]
      split
      · exact Option.some_ne_none _
      · exact h.seated
    · intro id role hid hmanages
      rw [roleOf_setMember] at hid
      split at hid
      · next heq =>
        right
        rw [heq]
        exact List.mem_cons_self
      · left
        exact hid
  unfold Room.updateRole
  by_cases htransfer : newRole = .owner ∧ room.ownerId ≠ userId
  · have hcond : newRole = .owner ∧
        (room.setMember userId { user with role := newRole }).ownerId ≠ userId := htransfer
    rw [if_pos hcond]
    show Room.Ruled _ _ (((room.setMember userId { user with role := newRole }).demote
      room.ownerId).setOwner userId)
    have hroles : ∀ id, (((room.setMember userId { user with role := newRole }).demote
        room.ownerId).setOwner userId).roleOf id =
        if room.ownerId = id then
          ((room.setMember userId { user with role := newRole }).roleOf id).map fun _ => .member
        else (room.setMember userId { user with role := newRole }).roleOf id := by
      intro id
      rw [roleOf_setOwner, roleOf_demote]
    refine ⟨hname, ?_, ?_⟩
    · show Room.roleOf _ userId ≠ none
      rw [hroles, if_neg htransfer.2, roleOf_setMember, if_pos rfl]
      exact Option.some_ne_none _
    · intro id role hid hmanages
      rw [hroles] at hid
      by_cases hformer : room.ownerId = id
      · rw [if_pos hformer] at hid
        obtain ⟨role', -, hrole⟩ := Option.map_eq_some_iff.mp hid
        rw [← hrole] at hmanages
        cases hmanages
      · rw [if_neg hformer] at hid
        rcases hset.appointed id role hid hmanages with howner | hmem
        · exact absurd howner.symm hformer
        · right
          exact hmem
  · have hcond : ¬ (newRole = .owner ∧
        (room.setMember userId { user with role := newRole }).ownerId ≠ userId) := htransfer
    rw [if_neg hcond]
    exact hset

/-- The owner is not changed by a new role for the owner. -/
theorem ownerId_updateRole_self (user : User) (newRole : UserRole) :
    (room.updateRole room.ownerId user newRole).ownerId = room.ownerId := by
  unfold Room.updateRole
  rw [if_neg (fun hand => hand.2 rfl)]
  rfl

/-- A second repair changes nothing. -/
theorem Room.Ruled.repair_repair (h : room.Ruled granted roomId) :
    room.repair.repair = room.repair := by
  have hname : room.repair.members.get? "" = none := by
    rw [← roleOf_eq_none_iff, h.roleOf_repair, if_pos rfl]
  rw [h.repair.repair_eq, Dict.erase_eq_self _ hname]
  rfl

end Ruled

/-! ## Entries of the manager -/

section Slots

variable {granted : List (String × String)} {roomId userId : String} {room : Room}
  {slot : Option Room}

/-- The room, if there is one, is ruled. -/
def RuledSlot (granted : List (String × String)) (roomId : String) (slot : Option Room) : Prop :=
  ∀ room, slot = some room → room.Ruled granted roomId

theorem ruledSlot_none : RuledSlot granted roomId none := by
  intro room h
  cases h

theorem ruledSlot_some (h : room.Ruled granted roomId) : RuledSlot granted roomId (some room) := by
  intro room' h'
  cases h'
  exact h

theorem ruledSlot_repair (h : RuledSlot granted roomId slot) :
    RuledSlot granted roomId (slot.map Room.repair) := by
  intro room hroom
  obtain ⟨before, hbefore, hrepair⟩ := Option.map_eq_some_iff.mp hroom
  rw [← hrepair]
  exact (h before hbefore).repair

theorem repair_repairSlot (h : RuledSlot granted roomId slot) :
    (slot.map Room.repair).map Room.repair = slot.map Room.repair := by
  cases slot with
  | none => rfl
  | some room => exact congrArg some (h room rfl).repair_repair

theorem ruled_joinRoom (h : RuledSlot granted roomId slot) (now : String) (role : UserRole)
    (hname : slot = none → userId ≠ "")
    (hmay : TakesIn userId (slot.map Room.repair) → role.manages → (roomId, userId) ∈ granted) :
    RuledSlot granted roomId (joinRoom now roomId userId role slot).2 := by
  apply ruledSlot_some
  cases slot with
  | none => exact ruled_join_create now role (hname rfl)
  | some room => exact ruled_join (h room rfl).repair now role hmay

theorem ruled_leaveRoom (h : RuledSlot granted roomId slot) (userId : String) :
    RuledSlot granted roomId (leaveRoom userId slot).2 := by
  cases slot with
  | none => exact ruledSlot_none
  | some room =>
    show RuledSlot granted roomId (if room.members.contains userId then _ else _ : Bool × Option Room).2
    split
    · show RuledSlot granted roomId
        (if (room.leave userId).members.size = 0 then none else some (room.leave userId))
      split
      · exact ruledSlot_none
      · exact ruledSlot_some (ruled_leave (h room rfl) userId)
    · exact h

theorem ruled_closeRoom (h : RuledSlot granted roomId slot) (now closedBy reason : String) :
    RuledSlot granted roomId (closeRoom now closedBy reason slot).2 := by
  cases slot with
  | none => exact ruledSlot_none
  | some room =>
    apply ruledSlot_some
    exact (h room rfl).remove rfl roleOf_keepOwner

theorem ruled_getRoomMembers (h : RuledSlot granted roomId slot) :
    RuledSlot granted roomId (getRoomMembers slot).2 := by
  cases slot with
  | none => exact ruledSlot_none
  | some room => exact ruledSlot_some (h room rfl).repair

end Slots

/-! ## The condition -/

/-- A `join` request that passes its checks takes its user in as a new member, with a role that
manages members and that no owner of the room has given this user. -/
def JoinsAsManager (granted : List (String × String)) (slot : Option Room) : Request → Prop
  | .join _ jwtUserId roomId req =>
    jwtUserId ≠ "" ∧ (req.userId = "" ∨ req.userId = jwtUserId) ∧
      (roleMap req.role).any UserRole.manages ∧ TakesIn jwtUserId (slot.map Room.repair) ∧
      (req.actualRoomId roomId, jwtUserId) ∉ granted
  | _ => False

local instance lawfulPairs : LawfulBEq (String × String) := inferInstance

instance (granted : List (String × String)) (slot : Option Room) (a : Request) :
    Decidable (JoinsAsManager granted slot a) := by
  unfold JoinsAsManager
  split <;> infer_instance

/-- The requests that `managers_appointed` is about. -/
def RoleGuard (w : World) (a : Request) : Prop :=
  ¬ JoinsAsManager w.granted (w.manager.room a.room) a

instance (w : World) (a : Request) : Decidable (RoleGuard w a) :=
  inferInstanceAs (Decidable (¬ _))

/-! ## One request -/

section Requests

variable {granted : List (String × String)} {roomId : String} {slot : Option Room} {a : Request}

theorem ruled_handleCreateRoom (h : RuledSlot granted roomId slot) (now jwtUserId : String)
    (req : RoomCreateRequest) :
    RuledSlot granted roomId (handleCreateRoom now jwtUserId roomId req slot).2 := by
  unfold handleCreateRoom
  split
  · exact h
  · next hname =>
    split
    · exact h
    · cases slot with
      | none => exact ruledSlot_some (ruled_create now req.name hname)
      | some room => exact h

theorem ruled_handleJoinRoom (h : RuledSlot granted roomId slot) (now jwtUserId : String)
    (req : RoomJoinRequest)
    (hmay : jwtUserId ≠ "" → (req.userId = "" ∨ req.userId = jwtUserId) →
      TakesIn jwtUserId (slot.map Room.repair) → ((roleMap req.role).getD .member).manages →
      (roomId, jwtUserId) ∈ granted) :
    RuledSlot granted roomId (handleJoinRoom now jwtUserId roomId req slot).2 := by
  unfold handleJoinRoom
  split
  · exact h
  · next hname =>
    split
    · exact h
    · next hsame =>
      have huser : req.userId = "" ∨ req.userId = jwtUserId := by
        by_contra hneither
        rw [not_or] at hneither
        exact hsame hneither
      show RuledSlot granted roomId
        (if (slot.map Room.repair).map Room.status = some .closed then _ else _ :
          Reply × Option Room).2
      split
      · exact ruledSlot_repair h
      · have hjoin : RuledSlot granted roomId (joinRoom now roomId jwtUserId
            ((roleMap req.role).getD .member) (slot.map Room.repair)).2 := by
          apply ruled_joinRoom (ruledSlot_repair h)
          · exact fun _ => hname
          · rw [repair_repairSlot h]
            exact hmay hname huser
        simp only
        split
        · next heq =>
          rw [heq] at hjoin
          exact hjoin
        · next heq =>
          rw [heq] at hjoin
          exact ruledSlot_repair hjoin

/-- The handlers that take a user in as a plain member. -/
theorem ruled_joinAsMember (h : RuledSlot granted roomId slot) (now : String) {userId : String}
    (hname : userId ≠ "") :
    RuledSlot granted roomId (joinRoom now roomId userId .member slot).2 := by
  apply ruled_joinRoom h
  · exact fun _ => hname
  · intro _ hmanages
    cases hmanages

theorem ruled_handleShareJoin (h : RuledSlot granted roomId slot) (now jwtUserId : String)
    (linkValid : Bool) :
    RuledSlot granted roomId (handleShareJoin now jwtUserId roomId linkValid slot).2 := by
  unfold handleShareJoin
  split
  · exact h
  · next hname =>
    split
    · exact h
    · have hroom : RuledSlot granted roomId (getRoom slot).2 := ruledSlot_repair h
      have hjoin := ruled_joinAsMember hroom now hname
      split
      · next heq =>
        rw [heq] at hroom
        exact hroom
      · next heq =>
        rw [heq] at hroom hjoin
        split
        · exact hroom
        · split
          · exact hroom
          · split
            · next hresult =>
              rw [hresult] at hjoin
              exact hjoin
            · next hresult =>
              rw [hresult] at hjoin
              exact hjoin

theorem ruled_handleAcceptInvitation (h : RuledSlot granted roomId slot) (now jwtUserId : String)
    (inv : Option InvitationLookup) :
    RuledSlot granted roomId (handleAcceptInvitation now jwtUserId roomId inv slot).2 := by
  unfold handleAcceptInvitation
  split
  · exact h
  · next hname =>
    split
    · exact h
    · split
      · exact h
      · split
        · exact h
        · split
          · exact h
          · have hroom : RuledSlot granted roomId (getRoom slot).2 := ruledSlot_repair h
            have hjoin := ruled_joinAsMember hroom now hname
            split
            · next heq =>
              rw [heq] at hroom
              exact hroom
            · next heq =>
              rw [heq] at hroom hjoin
              split
              · exact hroom
              · split
                · exact hroom
                · split
                  · next hresult =>
                    rw [hresult] at hjoin
                    exact hjoin
                  · next hresult =>
                    rw [hresult] at hjoin
                    exact hjoin

theorem ruled_handleLeaveRoom (h : RuledSlot granted roomId slot) (jwtUserId userId : String) :
    RuledSlot granted roomId (handleLeaveRoom jwtUserId userId slot).2 := by
  unfold handleLeaveRoom
  split
  · exact h
  · split
    · exact h
    · exact ruled_leaveRoom (ruledSlot_repair h) jwtUserId

theorem ruled_handleKickMember (h : RuledSlot granted roomId slot)
    (jwtUserId userId operatorId : String) :
    RuledSlot granted roomId (handleKickMember jwtUserId roomId userId operatorId slot).2 := by
  unfold handleKickMember checkOperator
  split
  · exact h
  · split
    · exact h
    · have hroom : RuledSlot granted roomId (getRoom slot).2 := ruledSlot_repair h
      simp only
      split
      · next heq =>
        rw [heq] at hroom
        exact hroom
      · next heq =>
        rw [heq] at hroom
        split
        · exact hroom
        · split
          · exact hroom
          · exact ruled_leaveRoom hroom userId

theorem ruled_handleDeleteRoom (h : RuledSlot granted roomId slot) (jwtUserId : String)
    (canDelete : Bool) :
    RuledSlot granted roomId (handleDeleteRoom jwtUserId roomId canDelete slot).2 := by
  unfold handleDeleteRoom
  split
  · exact h
  · have hroom : RuledSlot granted roomId (getRoom slot).2 := ruledSlot_repair h
    split
    · next heq =>
      rw [heq] at hroom
      exact hroom
    · next heq =>
      rw [heq] at hroom
      split
      · exact hroom
      · split
        · exact hroom
        · exact ruled_getRoomMembers hroom

/-- The record of appointments after a request. -/
def grantedAfter (granted : List (String × String)) (a : Request) (before after : Option Room) :
    List (String × String) :=
  if Grants a before after then (a.room, a.subject) :: granted else granted

theorem subset_grantedAfter (before after : Option Room) :
    granted ⊆ grantedAfter granted a before after := by
  unfold grantedAfter
  split
  · exact List.subset_cons_self _ _
  · exact List.Subset.refl _

/-- A request of the owner that appoints its subject is on the record. -/
theorem ruled_of_owner {room room' : Room} (h : room.Ruled granted a.room)
    (howner : room.ownerId = a.actor) (hafter : room'.Ruled ((a.room, a.subject) :: granted) a.room)
    (hself : a.subject = room.ownerId → room'.ownerId = room.ownerId) :
    room'.Ruled (grantedAfter granted a (some room) (some room')) a.room := by
  unfold grantedAfter
  by_cases hgrants : Grants a (some room) (some room')
  · rw [if_pos hgrants]
    exact hafter
  rw [if_neg hgrants]
  refine ⟨hafter.named, hafter.seated, ?_⟩
  intro id role hid hmanages
  rcases hafter.appointed id role hid hmanages with hnew | hmem
  · left
    exact hnew
  rcases List.mem_cons.mp hmem with heq | hold
  · -- nothing is recorded, so the subject has had the role before
    have hsubject : id = a.subject := (Prod.mk.inj heq).2
    have hsame : roleIn a.subject (some room) = some role := by
      by_contra hdiffers
      apply hgrants
      refine ⟨congrArg some howner, ?_, ?_⟩
      · show room'.roleOf a.subject ≠ _
        rw [← hsubject, hid, hsubject]
        exact Ne.symm hdiffers
      · show (room'.roleOf a.subject).any UserRole.manages
        rw [← hsubject, hid]
        exact hmanages
    rcases h.appointed a.subject role hsame hmanages with hseat | hmem
    · left
      rw [hsubject, hself hseat, hseat]
    · right
      rw [hsubject]
      exact hmem
  · right
    exact hold

/-- What the owner's `knock_accept` does to the room; every other one is refused. -/
theorem knockAccept_cases (now jwtUserId roomId : String) (req : KnockAcceptRequest)
    (slot : Option Room) :
    (handleKnockAccept now jwtUserId roomId req slot).2 = slot ∨
    (handleKnockAccept now jwtUserId roomId req slot).2 = slot.map Room.repair ∨
    ∃ room, slot = some room ∧ jwtUserId = room.repair.ownerId ∧
      (handleKnockAccept now jwtUserId roomId req slot).2 = some (room.repair.repair.join now roomId
        req.knockerId ((roleMap req.role).getD .member)).2 := by
  unfold handleKnockAccept checkOperator
  by_cases hname : jwtUserId = ""
  · left
    rw [if_pos hname]
  by_cases hsame : req.operatorId ≠ "" ∧ req.operatorId ≠ jwtUserId
  · left
    rw [if_neg hname, if_pos hsame]
  rw [if_neg hname, if_neg hsame]
  right
  cases slot with
  | none =>
    left
    rfl
  | some room =>
    by_cases howner : jwtUserId = room.repair.ownerId
    · right
      refine ⟨room, rfl, howner, ?_⟩
      show (if jwtUserId ≠ room.repair.ownerId then _ else _ : Reply × Option Room).2 = _
      rw [if_neg (not_not_intro howner)]
      simp only
      split
      · next heq => exact (congrArg Prod.snd heq).symm
      · next heq => exact (congrArg Prod.snd heq).symm
    · left
      show (if jwtUserId ≠ room.repair.ownerId then _ else _ : Reply × Option Room).2 = _
      rw [if_pos howner]

/-- What the owner's `set_member_role` does to the room; every other one is refused. -/
theorem setMemberRole_cases (jwtUserId roomId userId : String) (req : SetRoleRequest)
    (slot : Option Room) :
    (handleSetMemberRole jwtUserId roomId userId req slot).2 = slot ∨
    (handleSetMemberRole jwtUserId roomId userId req slot).2 = slot.map Room.repair ∨
    ∃ room user newRole, slot = some room ∧ jwtUserId = room.repair.ownerId ∧
      room.repair.members.get? userId = some user ∧
      (handleSetMemberRole jwtUserId roomId userId req slot).2 =
        some (room.repair.updateRole userId user newRole) := by
  unfold handleSetMemberRole checkOperator
  by_cases hname : jwtUserId = ""
  · left
    rw [if_pos hname]
  by_cases hsame : req.operatorId ≠ "" ∧ req.operatorId ≠ jwtUserId
  · left
    rw [if_neg hname, if_pos hsame]
  rw [if_neg hname, if_neg hsame]
  cases hrole : roleMap req.role with
  | none =>
    left
    rfl
  | some newRole =>
    right
    cases slot with
    | none =>
      left
      rfl
    | some room =>
      show (if jwtUserId ≠ room.repair.ownerId then _ else _ : Reply × Option Room).2 = _ ∨ _
      by_cases howner : jwtUserId = room.repair.ownerId
      · rw [if_neg (not_not_intro howner)]
        have hset : updateUserRole userId newRole (some room.repair) = (false, some room.repair) ∨
            ∃ user, room.repair.members.get? userId = some user ∧
              updateUserRole userId newRole (some room.repair) =
                (true, some (room.repair.updateRole userId user newRole)) := by
          rw [updateUserRole]
          cases huser : room.repair.members.get? userId with
          | none =>
            left
            rfl
          | some user =>
            simp only
            split
            · left
              rfl
            · right
              exact ⟨user, rfl, rfl⟩
        rcases hset with hrefused | hdone
        · left
          have hmapped : updateUserRole userId newRole ((some room).map Room.repair) =
              (false, some room.repair) := hrefused
          rw [hmapped]
          rfl
        · right
          obtain ⟨user, huser, hdone⟩ := hdone
          refine ⟨room, user, newRole, rfl, howner, huser, ?_⟩
          show (if jwtUserId ≠ room.repair.ownerId then _ else _ : Reply × Option Room).2 = _
          rw [if_neg (not_not_intro howner)]
          have hmapped : updateUserRole userId newRole ((some room).map Room.repair) =
              (true, some (room.repair.updateRole userId user newRole)) := hdone
          rw [hmapped]
      · left
        rw [if_pos howner]

variable {after : Option Room}

/-- The requests of the owner leave a ruled room, with the appointment on the record. -/
theorem ruled_handleKnockAccept (h : RuledSlot granted roomId slot) (now jwtUserId : String)
    (req : KnockAcceptRequest)
    (hafter : (handleKnockAccept now jwtUserId roomId req slot).2 = after) :
    RuledSlot (grantedAfter granted (.knockAccept now jwtUserId roomId req) slot after) roomId
      after := by
  have hkept : RuledSlot granted roomId after →
      RuledSlot (grantedAfter granted (.knockAccept now jwtUserId roomId req) slot after) roomId
        after := by
    intro hold room hroom
    exact (hold room hroom).mono (subset_grantedAfter slot after)
  rcases knockAccept_cases now jwtUserId roomId req slot with hsame | hrepair | hjoins
  · apply hkept
    rw [← hafter, hsame]
    exact h
  · apply hkept
    rw [← hafter, hrepair]
    exact ruledSlot_repair h
  · obtain ⟨room, hroom, howner, hjoin⟩ := hjoins
    subst hroom
    rw [hafter] at hjoin
    subst hjoin
    have hruled := h room rfl
    apply ruledSlot_some
    apply ruled_of_owner (a := .knockAccept now jwtUserId roomId req) hruled
    · rw [← hruled.ownerId_repair, ← howner]
      rfl
    · apply ruled_join (hruled.repair.repair.mono (List.subset_cons_self _ _))
      intro _ _
      exact List.mem_cons_self
    · intro _
      rw [ownerId_join hruled.repair.repair.named, hruled.repair.ownerId_repair,
        hruled.ownerId_repair]

theorem ruled_handleSetMemberRole (h : RuledSlot granted roomId slot)
    (jwtUserId userId : String) (req : SetRoleRequest)
    (hafter : (handleSetMemberRole jwtUserId roomId userId req slot).2 = after) :
    RuledSlot (grantedAfter granted (.setRole jwtUserId roomId userId req) slot after) roomId
      after := by
  have hkept : RuledSlot granted roomId after →
      RuledSlot (grantedAfter granted (.setRole jwtUserId roomId userId req) slot after) roomId
        after := by
    intro hold room hroom
    exact (hold room hroom).mono (subset_grantedAfter slot after)
  rcases setMemberRole_cases jwtUserId roomId userId req slot with hsame | hrepair | hsets
  · apply hkept
    rw [← hafter, hsame]
    exact h
  · apply hkept
    rw [← hafter, hrepair]
    exact ruledSlot_repair h
  · obtain ⟨room, user, newRole, hroom, howner, huser, hset⟩ := hsets
    subst hroom
    rw [hafter] at hset
    subst hset
    have hruled := h room rfl
    have hname : userId ≠ "" := by
      intro hid
      have hnone := hruled.roleOf_repair userId
      rw [if_pos hid.symm, roleOf_of_get? huser] at hnone
      cases hnone
    apply ruledSlot_some
    apply ruled_of_owner (a := .setRole jwtUserId roomId userId req) hruled
    · rw [← hruled.ownerId_repair, ← howner]
      rfl
    · exact ruled_updateRole hruled.repair huser hname
    · intro hself
      have hseat : userId = room.repair.ownerId := hself.trans hruled.ownerId_repair.symm
      rw [hseat, ownerId_updateRole_self, hruled.ownerId_repair]

/-- Every request that meets the condition leaves a ruled room. -/
theorem ruled_handle (h : RuledSlot granted a.room slot) (hplain : ¬ JoinsAsManager granted slot a)
    (hafter : (a.handle slot).2 = after) :
    RuledSlot (grantedAfter granted a slot after) a.room after := by
  have hkept : RuledSlot granted a.room after →
      RuledSlot (grantedAfter granted a slot after) a.room after := by
    intro hold room hroom
    exact (hold room hroom).mono (subset_grantedAfter slot after)
  cases a with
  | create now jwtUserId roomId req =>
    exact hkept (hafter ▸ ruled_handleCreateRoom h now jwtUserId req)
  | join now jwtUserId roomId req =>
    apply hkept
    rw [← hafter]
    apply ruled_handleJoinRoom h now jwtUserId req
    intro hname huser htakes hmanages
    by_contra hnew
    refine hplain ⟨hname, huser, ?_, htakes, hnew⟩
    cases hrole : roleMap req.role with
    | none =>
      rw [hrole] at hmanages
      cases hmanages
    | some role =>
      rw [hrole] at hmanages
      exact hmanages
  | shareJoin now jwtUserId roomId linkValid =>
    exact hkept (hafter ▸ ruled_handleShareJoin h now jwtUserId linkValid)
  | acceptInvitation now jwtUserId roomId inv =>
    exact hkept (hafter ▸ ruled_handleAcceptInvitation h now jwtUserId inv)
  | leave jwtUserId roomId userId =>
    exact hkept (hafter ▸ ruled_handleLeaveRoom h jwtUserId userId)
  | kick jwtUserId roomId userId operatorId =>
    exact hkept (hafter ▸ ruled_handleKickMember h jwtUserId userId operatorId)
  | knockAccept now jwtUserId roomId req => exact ruled_handleKnockAccept h now jwtUserId req hafter
  | setRole jwtUserId roomId userId req =>
    exact ruled_handleSetMemberRole h jwtUserId userId req hafter
  | delete jwtUserId roomId canDelete =>
    exact hkept (hafter ▸ ruled_handleDeleteRoom h jwtUserId canDelete)
  | deleteEnd now jwtUserId roomId =>
    exact hkept (hafter ▸ ruled_closeRoom h now jwtUserId "owner_entered_another_room")

end Requests

/-! ## Every run -/

/-- The rooms of the manager are ruled. -/
def World.Ruled (w : World) : Prop := ∀ id, RuledSlot w.granted id (w.manager.room id)

theorem granted_after (w : World) (a : Request) : (w.after a).granted =
    grantedAfter w.granted a (w.manager.room a.room) ((w.after a).manager.room a.room) := rfl

theorem room_after (w : World) (a : Request) (id : String) : (w.after a).manager.room id =
    if a.room = id then (a.handle (w.manager.room a.room)).2 else w.manager.room id :=
  w.manager.room_onRoom a.room a.handle id

theorem ruled_after {w : World} (h : w.Ruled) {a : Request} (hguard : RoleGuard w a) :
    (w.after a).Ruled := by
  intro id
  rw [granted_after]
  by_cases hid : a.room = id
  · rw [← hid]
    apply ruled_handle (h a.room) hguard
    rw [room_after, if_pos rfl]
  · rw [room_after w a id, if_neg hid]
    intro room hroom
    exact (h id room hroom).mono (subset_grantedAfter _ _)

/-- `alice` opens a room, `bob` joins it, and `alice` makes him an admin. -/
def appointed : List Request :=
  [.join "t" "alice" "r" ⟨"", "", ""⟩, .join "t" "bob" "r" ⟨"bob", "", "guest"⟩,
    .setRole "alice" "r" "bob" ⟨"admin", ""⟩]

end SrsChatRoom.Server.Rooms
