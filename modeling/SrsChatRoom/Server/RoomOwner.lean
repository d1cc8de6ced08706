import SrsChatRoom.Server.UserManager

/-!
# One owner per room

`owner_id` and the role fields of the members say the same thing twice. `one_owner`: they agree in
every room after every run of calls, and `_repair_room_if_needed` never has anything to do, as long
as nobody joins a room that has an owner with the role of owner. `join_room` does not refuse such a
call.
-/

namespace SrsChatRoom.Server.Rooms

/-! ## Roles -/

/-- The role field of a member. -/
def Room.roleOf (room : Room) (userId : String) : Option UserRole :=
  (room.members.get? userId).map User.role

/-- The room has no members and no owner; or its owner is a member, and the members with the role
of owner are the owner. -/
def Room.OneOwner (room : Room) : Prop :=
  (room.members.size = 0 ∧ room.ownerId = "") ∨
    (room.members.contains room.ownerId ∧
      ∀ userId user, room.members.get? userId = some user →
        (user.role = .owner ↔ userId = room.ownerId))

/-- A room without the member that the repair removes, and with one owner. -/
structure Room.Sound (room : Room) : Prop where
  named : room.roleOf "" = none
  oneOwner : room.OneOwner

section Roles

variable {room room' : Room} {userId : String}

theorem roleOf_eq_none_iff : room.roleOf userId = none ↔ room.members.get? userId = none :=
  Option.map_eq_none_iff

theorem contains_eq_isSome_roleOf : room.members.contains userId = (room.roleOf userId).isSome := by
  rw [Dict.contains, Room.roleOf, Option.isSome_map]

theorem roleOf_of_get? {user : User} (h : room.members.get? userId = some user) :
    room.roleOf userId = some user.role := by
  rw [Room.roleOf, h]
  rfl

@[simp] theorem roleOf_setMember (user : User) (id : String) :
    (room.setMember userId user).roleOf id =
      if userId = id then some user.role else room.roleOf id := by
  show ((room.members.set userId user).get? id).map User.role = _
  rw [Dict.get?_set]
  split <;> rfl

theorem roleOf_setMembers (members : Dict String User) (id : String) :
    (room.setMembers members).roleOf id = (members.get? id).map User.role := rfl

@[simp] theorem roleOf_setOwner (id : String) : (room.setOwner userId).roleOf id = room.roleOf id :=
  rfl

theorem roleOf_demote (id : String) : (room.demote userId).roleOf id =
    if userId = id then (room.roleOf id).map fun _ => .member else room.roleOf id := by
  unfold Room.demote
  by_cases hid : userId = id
  · rw [if_pos hid, ← hid]
    cases huser : room.members.get? userId with
    | some user =>
      rw [roleOf_of_get? huser]
      show (room.setMember userId _).roleOf userId = _
      rw [roleOf_setMember, if_pos rfl]
      rfl
    | none =>
      show room.roleOf userId = _
      rw [roleOf_eq_none_iff.mpr huser]
      rfl
  · rw [if_neg hid]
    cases room.members.get? userId with
    | some user =>
      show (room.setMember userId _).roleOf id = _
      rw [roleOf_setMember, if_neg hid]
    | none => rfl

/-- The same in terms of the role fields alone. -/
theorem oneOwner_iff : room.OneOwner ↔ ((∀ id, room.roleOf id = none) ∧ room.ownerId = "") ∨
    (room.roleOf room.ownerId = some .owner ∧
      ∀ id, room.roleOf id = some .owner → id = room.ownerId) := by
  have hempty : room.members.size = 0 ↔ ∀ id, room.roleOf id = none := by
    rw [Dict.size_eq_zero_iff]
    exact forall_congr' fun id => roleOf_eq_none_iff.symm
  unfold Room.OneOwner
  rw [hempty]
  apply or_congr Iff.rfl
  constructor
  · intro h
    obtain ⟨hmem, hrole⟩ := h
    rw [Dict.contains, Option.isSome_iff_exists] at hmem
    obtain ⟨owner, howner⟩ := hmem
    refine ⟨?_, ?_⟩
    · rw [roleOf_of_get? howner, (hrole _ owner howner).mpr rfl]
    · intro id hid
      obtain ⟨user, huser, hrole'⟩ := Option.map_eq_some_iff.mp hid
      exact (hrole id user huser).mp hrole'
  · intro h
    obtain ⟨howner, hrole⟩ := h
    refine ⟨by rw [contains_eq_isSome_roleOf, howner]; rfl, ?_⟩
    intro id user huser
    have hid : room.roleOf id = some user.role := roleOf_of_get? huser
    constructor
    · intro h
      exact hrole id (hid.trans (congrArg some h))
    · intro h
      rw [h, howner] at hid
      exact (Option.some.inj hid).symm

/-- `Sound` looks at nothing but the owner and the roles. -/
theorem Room.Sound.congr (h : room.Sound) (howner : room'.ownerId = room.ownerId)
    (hroles : ∀ id, room'.roleOf id = room.roleOf id) : room'.Sound := by
  refine ⟨(hroles "").trans h.named, ?_⟩
  rw [oneOwner_iff, howner]
  simp only [hroles]
  exact oneOwner_iff.mp h.oneOwner

/-- The roles after a change of every member that keeps the role. -/
theorem roleOf_mapVal {f : String → User → User} (hf : ∀ id user, (f id user).role = user.role)
    (id : String) : (room.setMembers (room.members.mapVal f)).roleOf id = room.roleOf id := by
  rw [roleOf_setMembers, Dict.get?_mapVal, Option.map_map, Room.roleOf]
  congr 1
  funext user
  exact hf id user

/-- The roles after everybody but the owner has gone. -/
theorem roleOf_keepOwner (id : String) :
    (room.setMembers (room.members.filter fun userId _ => userId = room.ownerId)).roleOf id =
        room.roleOf id ∨
      (id ≠ room.ownerId ∧ (room.setMembers (room.members.filter fun userId _ =>
        userId = room.ownerId)).roleOf id = none) := by
  rw [roleOf_setMembers, Dict.get?_filter, Room.roleOf]
  by_cases hid : id = room.ownerId
  · left
    cases room.members.get? id with
    | none => rfl
    | some user => simp [hid, Option.filter]
  · right
    refine ⟨hid, ?_⟩
    cases room.members.get? id with
    | none => rfl
    | some user => simp [hid, Option.filter]

/-- A change of one member that keeps the role. -/
theorem Room.Sound.setMember (h : room.Sound) {user user' : User}
    (huser : room.members.get? userId = some user) (hrole : user'.role = user.role) :
    (room.setMember userId user').Sound := by
  have hroles : ∀ id, (room.setMember userId user').roleOf id = room.roleOf id := by
    intro id
    rw [roleOf_setMember, hrole]
    split
    · next hid => rw [← hid, roleOf_of_get? huser]
    · rfl
  exact h.congr rfl hroles

/-- A room with an owner on the seat. -/
theorem Room.Sound.of_seat (hname : room.roleOf "" = none)
    (howner : room.roleOf room.ownerId = some .owner)
    (honly : ∀ id, room.roleOf id = some .owner → id = room.ownerId) : room.Sound :=
  ⟨hname, oneOwner_iff.mpr (Or.inr ⟨howner, honly⟩)⟩

/-- A room with a member has an owner among them. -/
theorem Room.Sound.owner (h : room.Sound) (hmem : room.roleOf userId ≠ none) :
    room.roleOf room.ownerId = some .owner ∧
      ∀ id, room.roleOf id = some .owner → id = room.ownerId := by
  rcases oneOwner_iff.mp h.oneOwner with hempty | howner
  · exact absurd (hempty.1 userId) hmem
  · exact howner

/-- The owner's id is empty exactly in a room without members. -/
theorem Room.Sound.ownerId_eq_empty_iff (h : room.Sound) :
    room.ownerId = "" ↔ room.members.size = 0 := by
  rcases h.oneOwner with hempty | howner
  · exact iff_of_true hempty.2 hempty.1
  · have hmem := howner.1
    have hne : room.ownerId ≠ "" := by
      intro hid
      rw [contains_eq_isSome_roleOf, hid, h.named] at hmem
      cases hmem
    apply iff_of_false hne
    intro hsize
    rw [Dict.contains, (Dict.size_eq_zero_iff _).mp hsize] at hmem
    cases hmem

/-- There is nothing to repair in a sound room. -/
theorem Room.Sound.repair_eq (h : room.Sound) : room.repair = room := by
  have hself : room.setMembers (room.members.erase "") = room := by
    rw [Dict.erase_eq_self _ (roleOf_eq_none_iff.mp h.named)]
    rfl
  rw [Room.repair, hself, Room.repairOwner]
  rcases h.oneOwner with hempty | howner
  · have hentries : room.members.entries = [] := List.length_eq_zero_iff.mp hempty.1
    rw [if_neg (fun hand => hand.1 hempty.2), hentries]
    show room.setOwner "" = room
    rw [← hempty.2]
    rfl
  · have hmem := howner.1
    have hne : room.ownerId ≠ "" := by
      intro hid
      rw [contains_eq_isSome_roleOf, hid, h.named] at hmem
      cases hmem
    rw [if_pos (And.intro hne hmem)]

end Roles

/-! ## The condition -/

/-- A further member asks for the role of owner. -/
def JoinsAsOwner (userId : String) (role : UserRole) (slot : Option Room) : Prop :=
  role = .owner ∧ TakesIn userId slot

instance (userId : String) (role : UserRole) (slot : Option Room) :
    Decidable (JoinsAsOwner userId role slot) := inferInstanceAs (Decidable (_ ∧ _))

/-- The user who joins has an id. -/
def Call.Named : Call → Prop
  | .joinRoom _ userId _ => userId ≠ ""
  | _ => True

/-- The call is not one that `JoinsAsOwner`. -/
def Call.KeepsOneOwner (slot : Option Room) : Call → Prop
  | .joinRoom _ userId role => ¬ JoinsAsOwner userId role slot
  | _ => True

instance (call : Call) : Decidable call.Named := by
  cases call <;> unfold Call.Named <;> infer_instance

instance (slot : Option Room) (call : Call) : Decidable (call.KeepsOneOwner slot) := by
  cases call <;> unfold Call.KeepsOneOwner <;> infer_instance

/-- The calls that `one_owner` is about. -/
def OwnerGuard (m : UserManager) (op : String × Call) : Prop :=
  op.2.Named ∧ op.2.KeepsOneOwner (m.room op.1)

instance (m : UserManager) (op : String × Call) : Decidable (OwnerGuard m op) :=
  inferInstanceAs (Decidable (_ ∧ _))

/-! ## One call -/

section Calls

variable {room : Room} {slot : Option Room}

/-- Every room there is, is sound. -/
def SoundSlot (slot : Option Room) : Prop := ∀ room, slot = some room → room.Sound

theorem soundSlot_none : SoundSlot none := by
  intro room h
  cases h

theorem soundSlot_some (h : room.Sound) : SoundSlot (some room) := by
  intro room' h'
  cases h'
  exact h

variable {userId : String}

variable {user : User}

/-- A further member whose role is not that of owner. -/
theorem Room.Sound.add (h : room.Sound) (hname : userId ≠ "")
    (hmem : room.roleOf userId = none) (howner : room.ownerId ≠ "") (hrole : user.role ≠ .owner) :
    (room.setMember userId user).Sound := by
  have hfull : room.roleOf room.ownerId ≠ none := by
    intro hnone
    rcases oneOwner_iff.mp h.oneOwner with hempty | hseat
    · exact howner hempty.2
    · rw [hseat.1] at hnone
      cases hnone
  have hseat := h.owner hfull
  have hne : userId ≠ room.ownerId := by
    intro hid
    rw [hid, hseat.1] at hmem
    cases hmem
  apply Room.Sound.of_seat
  · rw [roleOf_setMember, if_neg hname, h.named]
  · show Room.roleOf _ room.ownerId = _
    rw [roleOf_setMember, if_neg hne, hseat.1]
  · intro id hid
    rw [roleOf_setMember] at hid
    split at hid
    · exact absurd (Option.some.inj hid) hrole
    · exact hseat.2 id hid

/-- The first member, as the owner. -/
theorem Room.Sound.addFirst (h : room.Sound) (hname : userId ≠ "")
    (howner : room.ownerId = "") (hrole : user.role = .owner) :
    ((room.setOwner userId).setMember userId user).Sound := by
  have hempty : ∀ id, room.roleOf id = none := by
    intro id
    rw [roleOf_eq_none_iff]
    exact (Dict.size_eq_zero_iff _).mp (h.ownerId_eq_empty_iff.mp howner) id
  have hroles : ∀ id, ((room.setOwner userId).setMember userId user).roleOf id =
      if userId = id then some .owner else none := by
    intro id
    rw [roleOf_setMember, roleOf_setOwner, hrole, hempty]
  apply Room.Sound.of_seat
  · rw [hroles, if_neg hname]
  · exact (hroles userId).trans (if_pos rfl)
  · intro id hid
    rw [hroles] at hid
    split at hid
    · next hid' => exact hid'.symm
    · cases hid

theorem sound_create (now roomId ownerId name : String) :
    (Room.create now roomId ownerId name).Sound := by
  have hnew : ∀ owner, owner = "" → (Room.new now roomId owner name).Sound := by
    intro owner howner
    have hroles : ∀ id, (Room.new now roomId owner name).roleOf id = none := fun id => rfl
    exact ⟨hroles "", oneOwner_iff.mpr (Or.inl ⟨hroles, howner⟩)⟩
  unfold Room.create
  by_cases howner : ownerId = ""
  · rw [if_neg (not_not_intro howner)]
    exact hnew ownerId howner
  · rw [if_pos howner]
    exact (hnew "" rfl).addFirst howner rfl rfl

theorem sound_join (h : room.Sound) (now roomId : String) {role : UserRole}
    (hname : userId ≠ "") (hadmitted : ¬ JoinsAsOwner userId role (some room)) :
    (room.join now roomId userId role).2.Sound := by
  unfold Room.join
  by_cases hclosed : room.status = .closed
  · rw [if_pos hclosed]
    exact h
  rw [if_neg hclosed]
  cases hmem : room.members.get? userId with
  | some user =>
    have hset : (room.setMember userId { user with lastActive := now }).Sound :=
      h.setMember hmem rfl
    show (if userId = room.ownerId then _ else _ : Room).Sound
    split
    · exact hset.congr rfl fun _ => rfl
    · exact hset
  | none =>
    by_cases hfull : room.maxMembers ≤ room.members.size
    · simp only [if_pos hfull]
      exact h
    simp only [if_neg hfull]
    by_cases howner : room.ownerId = ""
    · -- without an owner the room is empty, and the user is the first
      have hfirst : room.ownerId = "" ∧ room.members.size = 0 :=
        ⟨howner, h.ownerId_eq_empty_iff.mp howner⟩
      simp only [if_pos hfirst]
      rw [if_neg (fun hand => hname hand.1)]
      exact h.addFirst hname howner rfl
    · have hfirst : ¬ (room.ownerId = "" ∧ room.members.size = 0) := fun hand => howner hand.1
      simp only [if_neg hfirst]
      rw [if_neg (fun hand => howner hand.1)]
      apply h.add hname (roleOf_eq_none_iff.mpr hmem) howner
      show role ≠ .owner
      intro hrole
      exact hadmitted ⟨hrole, howner, hclosed, hmem, not_le.mp hfull⟩

/-- Some member other than the owner goes, or none. -/
theorem Room.Sound.remove (h : room.Sound) {members : Dict String User}
    (hroles : ∀ id, (room.setMembers members).roleOf id = room.roleOf id ∨
      (id ≠ room.ownerId ∧ (room.setMembers members).roleOf id = none)) :
    (room.setMembers members).Sound := by
  have hnone : ∀ id, room.roleOf id = none → (room.setMembers members).roleOf id = none := by
    intro id hid
    rcases hroles id with hsame | hgone
    · rw [hsame, hid]
    · exact hgone.2
  refine ⟨hnone "" h.named, ?_⟩
  rw [oneOwner_iff]
  rcases oneOwner_iff.mp h.oneOwner with hempty | hseat
  · left
    exact ⟨fun id => hnone id (hempty.1 id), hempty.2⟩
  · right
    constructor
    · rcases hroles room.ownerId with hsame | hgone
      · exact hsame.trans hseat.1
      · exact absurd rfl hgone.1
    · intro id hid
      rcases hroles id with hsame | hgone
      · rw [hsame] at hid
        exact hseat.2 id hid
      · rw [hgone.2] at hid
        cases hid

theorem sound_leave (h : room.Sound) (userId : String) :
    SoundSlot (leaveRoom userId (some room)).2 := by
  have hrest : (room.leave userId).Sound := by
    unfold Room.leave
    split
    · exact h.congr rfl fun _ => rfl
    · next hne =>
      apply h.remove
      intro id
      rw [roleOf_setMembers, Dict.get?_erase]
      by_cases hid : userId = id
      · right
        rw [if_pos hid]
        exact ⟨fun h => hne (hid.trans h), rfl⟩
      · left
        rw [if_neg hid]
        rfl
  show SoundSlot (if room.members.contains userId then _ else _ : Bool × Option Room).2
  by_cases hmem : room.members.contains userId
  · rw [if_pos hmem]
    show SoundSlot (if (room.leave userId).members.size = 0 then none else some (room.leave userId))
    split
    · exact soundSlot_none
    · exact soundSlot_some hrest
  · rw [if_neg hmem]
    exact soundSlot_some h

theorem sound_close (h : room.Sound) (now closedBy reason : String) :
    SoundSlot (closeRoom now closedBy reason (some room)).2 := by
  have hkept : (room.setMembers (room.members.filter fun userId _ =>
      userId = room.ownerId)).Sound := by
    apply h.remove
    exact roleOf_keepOwner
  exact soundSlot_some (hkept.congr rfl fun _ => rfl)

theorem sound_updateRole (h : room.Sound) {newRole : UserRole}
    (huser : room.members.get? userId = some user)
    (hok : ¬ (userId = room.ownerId ∧ newRole ≠ .owner)) :
    (room.updateRole userId user newRole).Sound := by
  have hmem : room.roleOf userId = some user.role := roleOf_of_get? huser
  have hname : userId ≠ "" := by
    intro hid
    rw [hid, h.named] at hmem
    cases hmem
  have hfull : room.roleOf userId ≠ none := by
    rw [hmem]
    exact Option.some_ne_none _
  obtain ⟨howner, honly⟩ := h.owner hfull
  unfold Room.updateRole
  by_cases htransfer : newRole = .owner ∧ room.ownerId ≠ userId
  · obtain ⟨hrole, hne⟩ := htransfer
    have hroles : ∀ id, (((room.setMember userId { user with role := newRole }).demote
        room.ownerId).setOwner userId).roleOf id =
        if room.ownerId = id then some .member
        else if userId = id then some .owner else room.roleOf id := by
      intro id
      rw [roleOf_setOwner, roleOf_demote, roleOf_setMember, hrole]
      by_cases hid : room.ownerId = id
      · rw [if_pos hid, if_pos hid, if_neg (fun h => hne (hid.trans h.symm)), ← hid, howner]
        rfl
      · rw [if_neg hid, if_neg hid]
    have hcond : newRole = .owner ∧
        (room.setMember userId { user with role := newRole }).ownerId ≠ userId := ⟨hrole, hne⟩
    rw [if_pos hcond]
    show Room.Sound (((room.setMember userId { user with role := newRole }).demote
        room.ownerId).setOwner userId)
    have hownerName : room.ownerId ≠ "" := by
      intro hid
      rw [hid, h.named] at howner
      cases howner
    apply Room.Sound.of_seat
    · rw [hroles, if_neg hownerName, if_neg hname, h.named]
    · show Room.roleOf _ userId = _
      rw [hroles, if_neg hne, if_pos rfl]
    · intro id hid
      show id = userId
      rw [hroles] at hid
      split at hid
      · cases hid
      · next hformer' =>
        split at hid
        · next hid' => exact hid'.symm
        · exact absurd (honly id hid).symm hformer'
  · have hcond : ¬ (newRole = .owner ∧
        (room.setMember userId { user with role := newRole }).ownerId ≠ userId) := htransfer
    rw [if_neg hcond]
    by_cases hid : userId = room.ownerId
    · -- only the role of owner passes the check, and the owner has it already
      have hrole : newRole = .owner := by
        by_contra hne
        exact hok ⟨hid, hne⟩
      apply h.setMember huser
      rw [hid, howner] at hmem
      rw [hrole]
      exact Option.some.inj hmem
    · have hrole : newRole ≠ .owner := fun hr => htransfer ⟨hr, Ne.symm hid⟩
      apply Room.Sound.of_seat
      · rw [roleOf_setMember, if_neg hname, h.named]
      · show Room.roleOf _ room.ownerId = _
        rw [roleOf_setMember, if_neg hid, howner]
      · intro id hid'
        rw [roleOf_setMember] at hid'
        split at hid'
        · exact absurd (Option.some.inj hid') hrole
        · exact honly id hid'

/-- A sound room is given back as it is by the calls that repair it first. -/
theorem map_repair (h : SoundSlot slot) : slot.map Room.repair = slot := by
  cases slot with
  | none => rfl
  | some room => exact congrArg some (h room rfl).repair_eq

theorem sound_createRoom (h : SoundSlot slot) (now roomId ownerId name : String) :
    SoundSlot (createRoom now roomId ownerId name slot).2 := by
  cases slot with
  | none => exact soundSlot_some (sound_create now roomId ownerId name)
  | some room => exact h

theorem sound_joinRoom (h : SoundSlot slot) (now roomId : String)
    {role : UserRole} (hname : userId ≠ "") (hadmitted : ¬ JoinsAsOwner userId role slot) :
    SoundSlot (joinRoom now roomId userId role slot).2 := by
  have hroom : (slot.getD (Room.create now roomId "" "")).Sound := by
    cases slot with
    | none => exact sound_create now roomId "" ""
    | some room => exact h room rfl
  have hjoin : ((slot.getD (Room.create now roomId "" "")).join now roomId userId role).2.Sound := by
    apply sound_join hroom now roomId hname
    cases slot with
    -- the room that is made has no owner yet
    | none => exact fun hjoins => hjoins.2.1 rfl
    | some room => exact hadmitted
  apply soundSlot_some
  rw [hroom.repair_eq]
  exact hjoin

theorem sound_updateUserRole (h : SoundSlot slot) (userId : String) (newRole : UserRole) :
    SoundSlot (updateUserRole userId newRole slot).2 := by
  cases slot with
  | none => exact soundSlot_none
  | some room =>
    cases huser : room.members.get? userId with
    | none =>
      rw [updateUserRole, huser]
      exact h
    | some user =>
      rw [updateUserRole, huser]
      by_cases hrefused : userId = room.ownerId ∧ newRole ≠ .owner
      · simp only [if_pos hrefused]
        exact h
      · simp only [if_neg hrefused]
        exact soundSlot_some (sound_updateRole (h room rfl) huser hrefused)

theorem sound_sanction (h : SoundSlot slot) (status : UserStatus) (userId : String) :
    SoundSlot (sanction status userId slot).2 := by
  cases slot with
  | none => exact soundSlot_none
  | some room =>
    cases huser : room.members.get? userId with
    | none =>
      rw [sanction, huser]
      exact h
    | some user =>
      rw [sanction, huser]
      by_cases howner : userId = room.ownerId
      · simp only [if_pos howner]
        exact h
      · simp only [if_neg howner]
        exact soundSlot_some ((h room rfl).setMember huser rfl)

theorem sound_restore (h : SoundSlot slot) (userId : String) :
    SoundSlot (restore userId slot).2 := by
  cases slot with
  | none => exact soundSlot_none
  | some room =>
    cases huser : room.members.get? userId with
    | none =>
      rw [restore, huser]
      exact h
    | some user =>
      rw [restore, huser]
      exact soundSlot_some ((h room rfl).setMember huser rfl)

theorem sound_muteAll (h : SoundSlot slot) : SoundSlot (muteAll slot).2 := by
  cases slot with
  | none => exact soundSlot_none
  | some room =>
    have hroles : ∀ id user, (room.muteMember id user).role = user.role := by
      intro id user
      unfold Room.muteMember
      split <;> rfl
    exact soundSlot_some ((h room rfl).congr rfl fun id => roleOf_mapVal hroles id)

theorem sound_unmuteAll (h : SoundSlot slot) : SoundSlot (unmuteAll slot).2 := by
  cases slot with
  | none => exact soundSlot_none
  | some room =>
    have hroles : ∀ (id : String) (user : User), user.unmuteMember.role = user.role := by
      intro id user
      unfold User.unmuteMember
      split <;> rfl
    exact soundSlot_some ((h room rfl).congr rfl fun id => roleOf_mapVal hroles id)

/-- Every call that meets the condition leaves a sound room. -/
theorem sound_run (h : SoundSlot slot) (roomId : String) {call : Call} (hnamed : call.Named)
    (hone : call.KeepsOneOwner slot) : SoundSlot (call.run roomId slot) := by
  cases call with
  | createRoom now ownerId name => exact sound_createRoom h now roomId ownerId name
  | getOrCreateRoom now creatorId => exact sound_createRoom h now roomId creatorId ""
  | getRoom =>
    show SoundSlot (slot.map Room.repair)
    rw [map_repair h]
    exact h
  | getRoomMembers =>
    cases slot with
    | none => exact soundSlot_none
    | some room => exact soundSlot_some ((h room rfl).repair_eq.symm ▸ h room rfl)
  | deleteRoom => cases slot <;> exact soundSlot_none
  | closeRoom now closedBy reason =>
    cases slot with
    | none => exact soundSlot_none
    | some room => exact sound_close (h room rfl) now closedBy reason
  | setOwnerStatus ownerStatus =>
    cases slot with
    | none => exact soundSlot_none
    | some room => exact soundSlot_some ((h room rfl).congr rfl fun _ => rfl)
  | joinRoom now userId role => exact sound_joinRoom h now roomId hnamed hone
  | leaveRoom userId =>
    cases slot with
    | none => exact soundSlot_none
    | some room => exact sound_leave (h room rfl) userId
  | updateUserRole userId newRole => exact sound_updateUserRole h userId newRole
  | muteUser userId => exact sound_sanction h .muted userId
  | unmuteUser userId => exact sound_restore h userId
  | disableMic userId => exact sound_sanction h .micOff userId
  | enableMic userId => exact sound_restore h userId
  | muteAll => exact sound_muteAll h
  | unmuteAll => exact sound_unmuteAll h

end Calls

/-! ## Every run -/

/-- In every run whose calls meet the condition, every room has one owner, and the repair of the
room changes nothing. -/
theorem one_owner {m : UserManager} (h : System.Reaches step OwnerGuard UserManager.empty m)
    (roomId : String) (room : Room) (hroom : m.room roomId = some room) :
    room.OneOwner ∧ room.repair = room := by
  have hsound : ∀ id, SoundSlot (m.room id) := by
    refine System.Reaches.invariant (I := fun m => ∀ id, SoundSlot (m.room id)) ?_ h ?_
    · intro m op m' hm hguard hstep id
      cases hstep
      rw [room_call]
      split
      · exact sound_run (hm op.1) op.1 hguard.1 hguard.2
      · exact hm id
    · intro id
      exact soundSlot_none
  exact ⟨(hsound roomId room hroom).oneOwner, (hsound roomId room hroom).repair_eq⟩

/-- `alice` opens a room, `bob` joins and is made the owner. -/
def handOver : List (String × Call) :=
  [("r", .joinRoom "t" "alice" .member), ("r", .joinRoom "t" "bob" .member),
    ("r", .updateUserRole "bob" .owner)]

theorem one_owner_handOver : ∃ (m : UserManager) (room : Room), m.room "r" = some room ∧ room.ownerId = "bob" ∧
    room.OneOwner ∧ room.repair = room := by
  obtain ⟨m, hrun, -, howner⟩ := System.reaches_of_observe step OwnerGuard UserManager.empty
    handOver (fun m => (m.room "r").map Room.ownerId) (b := some "bob") (by decide +kernel)
  obtain ⟨room, hroom, hbob⟩ := Option.map_eq_some_iff.mp howner
  exact ⟨m, room, hroom, hbob, one_owner hrun "r" room hroom⟩

/-- Without the condition: `bob` asks for the role of owner in the room of `alice`. -/
theorem two_owners : ∃ (m : UserManager) (room : Room),
    System.Reaches step (fun _ op => op.2.Named) UserManager.empty m ∧
    m.room "r" = some room ∧ ¬ room.OneOwner := by
  obtain ⟨m, hrun, -, hroles⟩ := System.reaches_of_observe step (fun _ op => op.2.Named)
    UserManager.empty [("r", .joinRoom "t" "alice" .member), ("r", .joinRoom "t" "bob" .owner)]
    (fun m => (m.room "r").map fun room => (room.ownerId, room.roleOf "bob"))
    (b := some ("alice", some .owner)) (by decide +kernel)
  obtain ⟨room, hroom, hobs⟩ := Option.map_eq_some_iff.mp hroles
  obtain ⟨howner, hbob⟩ := Prod.mk.inj hobs
  refine ⟨m, room, hrun, hroom, ?_⟩
  intro hone
  rcases oneOwner_iff.mp hone with hempty | hone
  · rw [hempty.1 "bob"] at hbob
    cases hbob
  · have hsame := hone.2 "bob" hbob
    rw [howner] at hsame
    exact absurd hsame (by decide)

end SrsChatRoom.Server.Rooms
