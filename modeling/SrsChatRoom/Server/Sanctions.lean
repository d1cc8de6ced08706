import SrsChatRoom.Server.RoomOwner

/-!
# Sanctions on a member

`mute_user` and `disable_mic` forbid a member to publish. The reasons share one status field and
one flag, so that `enable_mic` lifts a mute, `unmute_user` gives the microphone back, and
`unmute_all` frees every member whose status is `MUTED`, whoever set it. `sanction_stays`: with none
of these calls in between, a sanctioned member cannot publish until the sanction itself is lifted.
-/

namespace SrsChatRoom.Server.Rooms

/-! ## The sanctions -/

/-- The sanctions on one member. -/
inductive Sanction
  | mute
  | micOff
deriving DecidableEq

/-- The method that imposes the sanction. -/
def Sanction.impose : Sanction → String → RoomOp Bool
  | .mute => muteUser
  | .micOff => disableMic

/-- The call that lifts the sanction. -/
def Sanction.lift : Sanction → String → Call
  | .mute => .unmuteUser
  | .micOff => .enableMic

/-- The other sanction. -/
def Sanction.other : Sanction → Sanction
  | .mute => .micOff
  | .micOff => .mute

/-- The user is a member of the room and not its owner. -/
def Seated (roomId userId : String) (m : UserManager) : Prop :=
  match m.room roomId with
  | some room => room.members.contains userId ∧ userId ≠ room.ownerId
  | none => False

instance (roomId userId : String) (m : UserManager) : Decidable (Seated roomId userId m) := by
  unfold Seated
  split <;> infer_instance

/-- The sanction is not lifted, and the user stays in the room without becoming its owner. A
member without id does not stay: the next repair removes it. -/
def InForce (k : Sanction) (roomId userId : String) (m : UserManager) (op : String × Call) : Prop :=
  userId ≠ "" ∧ op ≠ (roomId, k.lift userId) ∧ Seated roomId userId (m.call op)

/-- The condition: neither the other sanction of the user is lifted, nor is the whole room
unmuted while the status of the user is `MUTED`. -/
def Undisturbed (k : Sanction) (roomId userId : String) (m : UserManager)
    (op : String × Call) : Prop :=
  op ≠ (roomId, k.other.lift userId) ∧
    (op = (roomId, .unmuteAll) →
      (getMember userId (m.room roomId)).map User.status ≠ some .muted)

instance (k : Sanction) (roomId userId : String) (m : UserManager) (op : String × Call) :
    Decidable (InForce k roomId userId m op) := inferInstanceAs (Decidable (_ ∧ _ ∧ _))

instance (k : Sanction) (roomId userId : String) (m : UserManager) (op : String × Call) :
    Decidable (Undisturbed k roomId userId m op) := inferInstanceAs (Decidable (_ ∧ (_ → _)))

/-! ## One call -/

/-- The user, if a member of the room, may not publish. -/
def Room.Silent (room : Room) (userId : String) : Prop :=
  ∀ user, room.members.get? userId = some user → user.publishAllowed = false

section Calls

variable {room : Room} {userId : String}

theorem seated_iff {roomId : String} {m : UserManager} : Seated roomId userId m ↔
    ∃ room, m.room roomId = some room ∧ room.members.contains userId ∧ userId ≠ room.ownerId := by
  unfold Seated
  cases m.room roomId with
  | some room => simp
  | none => simp

variable {id : String}

variable {user : User}

theorem Room.Silent.setMember (h : room.Silent userId)
    (huser : id = userId → user.publishAllowed = false) : (room.setMember id user).Silent userId := by
  intro user' hget
  have hget' : (room.members.set id user).get? userId = some user' := hget
  rw [Dict.get?_set] at hget'
  split at hget'
  · next hid =>
    cases hget'
    exact huser hid
  · exact h user' hget'

/-- A change of one field of a member. -/
theorem Room.Silent.change (h : room.Silent userId) {user' : User}
    (huser : room.members.get? id = some user) (hsame : user'.publishAllowed = user.publishAllowed) :
    (room.setMember id user').Silent userId := by
  apply h.setMember
  intro hid
  rw [hsame]
  exact h user (hid ▸ huser)

/-- Members go, and the others stay as they are. -/
theorem Room.Silent.filter (h : room.Silent userId) (p : String → User → Bool) :
    (room.setMembers (room.members.filter p)).Silent userId := by
  intro user hget
  have hget' : (room.members.filter p).get? userId = some user := hget
  rw [Dict.get?_filter, Option.filter_eq_some_iff] at hget'
  exact h user hget'.1

/-- Every member is changed, and none is freed. -/
theorem Room.Silent.mapVal (h : room.Silent userId) {f : String → User → User}
    (hf : ∀ user, room.members.get? userId = some user →
      (f userId user).publishAllowed = user.publishAllowed ∨
        (f userId user).publishAllowed = false) :
    (room.setMembers (room.members.mapVal f)).Silent userId := by
  intro user' hget
  have hget' : (room.members.mapVal f).get? userId = some user' := hget
  rw [Dict.get?_mapVal, Option.map_eq_some_iff] at hget'
  obtain ⟨user, huser, hf'⟩ := hget'
  rw [← hf']
  rcases hf user huser with hsame | hsilent
  · rw [hsame]
    exact h user huser
  · exact hsilent

theorem silent_setOwner (h : room.Silent userId) (id : String) :
    (room.setOwner id).Silent userId := h

theorem silent_repairOwner (h : room.Silent userId) : room.repairOwner.Silent userId := by
  unfold Room.repairOwner
  split
  · exact h
  · split
    · exact h
    · next uid member rest hentries =>
      split
      · exact h
      · have hget : room.members.get? uid = some member := by
          rw [← Dict.mem_entries_iff, hentries]
          exact List.mem_cons_self
        exact (silent_setOwner h uid).change hget rfl

theorem silent_repair (h : room.Silent userId) : room.repair.Silent userId :=
  silent_repairOwner (h.filter _)

/-- The repair removes no member with an id. -/
theorem contains_repair (hname : userId ≠ "") (hmem : room.members.contains userId) :
    room.repair.members.contains userId := by
  have herase : (room.setMembers (room.members.erase "")).members.contains userId := by
    rw [Dict.contains_iff] at hmem ⊢
    exact (Dict.mem_keys_erase _ _ _).mpr ⟨hname, hmem⟩
  unfold Room.repair Room.repairOwner
  split
  · exact herase
  · split
    · exact herase
    · split
      · exact herase
      · show Dict.contains (Dict.set _ _ _) userId = true
        rw [Dict.contains_iff, Dict.mem_keys_set]
        right
        exact (Dict.contains_iff _ _).mp herase

/-- A member who joins again is let in as before. -/
theorem silent_join (h : room.Silent userId) (hmem : room.members.contains userId)
    (now roomId id : String) (role : UserRole) :
    (room.join now roomId id role).2.Silent userId := by
  unfold Room.join
  split
  · exact h
  · cases hget : room.members.get? id with
    | some user =>
      show (if id = room.ownerId then _ else _ : Room).Silent userId
      split
      · exact h.change hget rfl
      · exact h.change hget rfl
    | none =>
      have hne : id ≠ userId := by
        intro hid
        rw [Dict.contains, ← hid, hget] at hmem
        cases hmem
      by_cases hfull : room.maxMembers ≤ room.members.size
      · simp only [if_pos hfull]
        exact h
      simp only [if_neg hfull]
      by_cases hfirst : room.ownerId = "" ∧ room.members.size = 0
      · simp only [if_pos hfirst]
        split
        · exact (silent_setOwner h id).setMember fun hid => absurd hid hne
        · exact (silent_setOwner h id).setMember fun hid => absurd hid hne
      · simp only [if_neg hfirst]
        split
        · exact (silent_setOwner h id).setMember fun hid => absurd hid hne
        · exact h.setMember fun hid => absurd hid hne

theorem silent_demote (h : room.Silent userId) (id : String) : (room.demote id).Silent userId := by
  unfold Room.demote
  cases hget : room.members.get? id with
  | some user => exact h.change hget rfl
  | none => exact h

theorem silent_updateRole (h : room.Silent userId)
    (hget : room.members.get? id = some user) (newRole : UserRole) :
    (room.updateRole id user newRole).Silent userId := by
  have hset : (room.setMember id { user with role := newRole }).Silent userId := h.change hget rfl
  show (if newRole = .owner ∧ room.ownerId ≠ id then _ else _ : Room).Silent userId
  split
  · exact silent_demote hset _
  · exact hset

/-- Every room there is, keeps the user from publishing. -/
def SilentSlot (userId : String) (slot : Option Room) : Prop :=
  ∀ room, slot = some room → room.Silent userId

theorem silentSlot_some (h : room.Silent userId) : SilentSlot userId (some room) := by
  intro room' h'
  cases h'
  exact h

theorem silentSlot_none : SilentSlot userId none := by
  intro room h
  cases h

theorem silent_sanction (h : room.Silent userId) (status : UserStatus) (id : String) :
    SilentSlot userId (sanction status id (some room)).2 := by
  cases hget : room.members.get? id with
  | none =>
    rw [sanction, hget]
    exact silentSlot_some h
  | some user =>
    rw [sanction, hget]
    by_cases howner : id = room.ownerId
    · simp only [if_pos howner]
      exact silentSlot_some h
    · simp only [if_neg howner]
      exact silentSlot_some (h.setMember fun _ => rfl)

theorem silent_restore (h : room.Silent userId) (hne : id ≠ userId) :
    SilentSlot userId (restore id (some room)).2 := by
  cases hget : room.members.get? id with
  | none =>
    rw [restore, hget]
    exact silentSlot_some h
  | some user =>
    rw [restore, hget]
    exact silentSlot_some (h.setMember fun hid => absurd hid hne)

/-- A call frees a member only where it lifts one of the sanctions. -/
theorem silent_run (h : room.Silent userId) (hname : userId ≠ "")
    (hmem : room.members.contains userId) (roomId : String) {call : Call}
    (hunmute : call ≠ .unmuteUser userId) (henable : call ≠ .enableMic userId)
    (hall : call = .unmuteAll →
      ∀ user, room.members.get? userId = some user → user.status ≠ .muted) :
    SilentSlot userId (call.run roomId (some room)) := by
  cases call with
  | createRoom now ownerId name => exact silentSlot_some h
  | getOrCreateRoom now creatorId => exact silentSlot_some h
  | getRoom => exact silentSlot_some (silent_repair h)
  | getRoomMembers => exact silentSlot_some (silent_repair h)
  | deleteRoom => exact silentSlot_none
  | closeRoom now closedBy reason => exact silentSlot_some (h.filter _)
  | setOwnerStatus ownerStatus => exact silentSlot_some h
  | joinRoom now id role =>
    apply silentSlot_some
    exact silent_join (silent_repair h) (contains_repair hname hmem) now roomId id role
  | leaveRoom id =>
    have hleave : (room.leave id).Silent userId := by
      unfold Room.leave
      split
      · exact h
      · exact h.filter _
    show SilentSlot userId (if room.members.contains id then _ else _ : Bool × Option Room).2
    split
    · show SilentSlot userId (if (room.leave id).members.size = 0 then none else some (room.leave id))
      split
      · exact silentSlot_none
      · exact silentSlot_some hleave
    · exact silentSlot_some h
  | updateUserRole id newRole =>
    show SilentSlot userId (updateUserRole id newRole (some room)).2
    cases hget : room.members.get? id with
    | none =>
      rw [updateUserRole, hget]
      exact silentSlot_some h
    | some user =>
      rw [updateUserRole, hget]
      by_cases hrefused : id = room.ownerId ∧ newRole ≠ .owner
      · simp only [if_pos hrefused]
        exact silentSlot_some h
      · simp only [if_neg hrefused]
        exact silentSlot_some (silent_updateRole h hget newRole)
  | muteUser id => exact silent_sanction h .muted id
  | unmuteUser id => exact silent_restore h fun hid => hunmute (congrArg Call.unmuteUser hid)
  | disableMic id => exact silent_sanction h .micOff id
  | enableMic id => exact silent_restore h fun hid => henable (congrArg Call.enableMic hid)
  | muteAll =>
    apply silentSlot_some
    refine @Room.Silent.mapVal room userId h _ ?_
    intro user _
    unfold Room.muteMember
    split
    · exact Or.inr rfl
    · exact Or.inl rfl
  | unmuteAll =>
    apply silentSlot_some
    refine @Room.Silent.mapVal room userId h _ ?_
    intro user huser
    unfold User.unmuteMember
    rw [if_neg (hall rfl user huser)]
    exact Or.inl rfl

end Calls

/-! ## Every run -/

section Runs

variable {k : Sanction} {roomId userId : String} {m m' : UserManager}

/-- The user is seated and may not publish. -/
structure Held (roomId userId : String) (m : UserManager) : Prop where
  seated : Seated roomId userId m
  silent : SilentSlot userId (m.room roomId)

theorem canPublish_of_held (h : Held roomId userId m) :
    canPublish userId (m.room roomId) = false := by
  obtain ⟨room, hroom, hmem, howner⟩ := seated_iff.mp h.seated
  rw [Dict.contains, Option.isSome_iff_exists] at hmem
  obtain ⟨user, huser⟩ := hmem
  have hsilent : user.publishAllowed = false := h.silent room hroom user huser
  rw [hroom, canPublish, huser]
  simp [howner, hsilent]

/-- A successful `mute_user` or `disable_mic` is about a member that is not the owner, and holds
it from then on. -/
theorem held_impose (himpose : m.onRoom roomId (k.impose userId) = (true, m')) :
    Held roomId userId m' := by
  obtain ⟨status, hstatus⟩ : ∃ status, k.impose userId = sanction status userId := by
    cases k with
    | mute => exact ⟨.muted, rfl⟩
    | micOff => exact ⟨.micOff, rfl⟩
  rw [hstatus] at himpose
  have hresult : (sanction status userId (m.room roomId)).1 = true := by
    rw [← m.fst_onRoom, himpose]
  have hslot : m'.room roomId = (sanction status userId (m.room roomId)).2 := by
    have hroom := m.room_onRoom roomId (sanction status userId) roomId
    rwa [himpose, if_pos rfl] at hroom
  cases hroom : m.room roomId with
  | none =>
    rw [hroom] at hresult
    cases hresult
  | some room =>
    rw [hroom] at hresult hslot
    cases hget : room.members.get? userId with
    | none =>
      rw [sanction, hget] at hresult
      cases hresult
    | some user =>
      rw [sanction, hget] at hresult hslot
      by_cases howner : userId = room.ownerId
      · simp only [if_pos howner] at hresult
        cases hresult
      · simp only [if_neg howner] at hslot
        constructor
        · rw [seated_iff]
          refine ⟨_, hslot, ?_, howner⟩
          show Dict.contains (Dict.set _ _ _) userId = true
          rw [Dict.contains, Dict.get?_set_self]
          rfl
        · rw [hslot]
          apply silentSlot_some
          intro user' hget'
          have hself : (room.members.set userId { user with
              status := status, publishAllowed := false }).get? userId = some user' := hget'
          rw [Dict.get?_set_self] at hself
          cases hself
          rfl

theorem held_call {op : String × Call} (h : Held roomId userId m)
    (hforce : InForce k roomId userId m op) (hundisturbed : Undisturbed k roomId userId m op) :
    Held roomId userId (m.call op) := by
  obtain ⟨id, call⟩ := op
  obtain ⟨hname, hlift, hseated⟩ := hforce
  obtain ⟨hother, hall⟩ := hundisturbed
  refine ⟨hseated, ?_⟩
  rw [room_call]
  by_cases hid : id = roomId
  · obtain ⟨room, hroom, hmem, -⟩ := seated_iff.mp h.seated
    rw [if_pos hid]
    show SilentSlot userId (call.run id (m.room id))
    rw [hid, hroom]
    -- of the two lifting calls one is of this sanction and one of the other
    have hcalls : call ≠ .unmuteUser userId ∧ call ≠ .enableMic userId := by
      rw [hid] at hlift hother
      cases k with
      | mute => exact ⟨fun h => hlift (by rw [h]; rfl), fun h => hother (by rw [h]; rfl)⟩
      | micOff => exact ⟨fun h => hother (by rw [h]; rfl), fun h => hlift (by rw [h]; rfl)⟩
    refine silent_run (h.silent room hroom) hname hmem roomId hcalls.1 hcalls.2 ?_
    intro hcall user huser hmuted
    apply hall (by rw [hid, hcall])
    rw [hroom, getMember, Option.bind_some, huser, Option.map_some, hmuted]
  · rw [if_neg hid]
    exact h.silent

/-- A member whom `mute_user` has muted, or whose microphone `disable_mic` has turned off, cannot
publish in any state that comes after it, as long as the condition is met. -/
theorem sanction_stays {m₀ m₁ m : UserManager}
    (himpose : m₀.onRoom roomId (k.impose userId) = (true, m₁))
    (hrun : System.Reaches step (fun m op => InForce k roomId userId m op ∧
      Undisturbed k roomId userId m op) m₁ m) :
    canPublish userId (m.room roomId) = false := by
  have hheld : Held roomId userId m := by
    refine System.Reaches.invariant (I := Held roomId userId) ?_ hrun (held_impose himpose)
    intro m op m' hm hguard hstep
    cases hstep
    exact held_call hm hguard.1 hguard.2
  exact canPublish_of_held hheld

end Runs

/-- `alice` opens a room and `bob` joins it. -/
def aliceAndBob : UserManager :=
  (UserManager.empty.call ("r", .joinRoom "t" "alice" .member)).call
    ("r", .joinRoom "t" "bob" .member)

/-- `bob` is muted, then everybody, then the microphone of `bob` is turned off before the room is
unmuted. -/
theorem sanction_stays_mute_all : ∃ m : UserManager,
    ((m.room "r").map Room.allowSpeak = some true) ∧ canPublish "bob" (m.room "r") = false := by
  obtain ⟨m, hrun, -, hspeak⟩ := System.reaches_of_observe step
    (fun m op => InForce .mute "r" "bob" m op ∧ Undisturbed .mute "r" "bob" m op)
    (aliceAndBob.onRoom "r" (muteUser "bob")).2
    [("r", .muteAll), ("r", .disableMic "bob"), ("r", .unmuteAll)]
    (fun m => (m.room "r").map Room.allowSpeak) (b := some true) (by decide +kernel)
  have himposed : (aliceAndBob.onRoom "r" (muteUser "bob")).1 = true := by decide +kernel
  exact ⟨m, hspeak, sanction_stays (k := .mute) (Prod.ext himposed rfl) hrun⟩

/-- Without the condition: a mute does not survive `mute_all` and `unmute_all`, nor does a
microphone that was turned off survive `mute_user` and `unmute_user`. -/
theorem sanction_lifted_by_others :
    (∃ m₁ m : UserManager, aliceAndBob.onRoom "r" (muteUser "bob") = (true, m₁) ∧
      System.Reaches step (InForce .mute "r" "bob") m₁ m ∧
      canPublish "bob" (m.room "r") = true) ∧
    ∃ m₁ m : UserManager, aliceAndBob.onRoom "r" (disableMic "bob") = (true, m₁) ∧
      System.Reaches step (InForce .micOff "r" "bob") m₁ m ∧
      canPublish "bob" (m.room "r") = true := by
  constructor
  · have himposed : (aliceAndBob.onRoom "r" (muteUser "bob")).1 = true := by decide +kernel
    obtain ⟨m, hrun, -, hpublish⟩ := System.reaches_of_observe step (InForce .mute "r" "bob")
      (aliceAndBob.onRoom "r" (muteUser "bob")).2 [("r", .muteAll), ("r", .unmuteAll)]
      (fun m => canPublish "bob" (m.room "r")) (b := true) (by decide +kernel)
    exact ⟨_, m, Prod.ext himposed rfl, hrun, hpublish⟩
  · have himposed : (aliceAndBob.onRoom "r" (disableMic "bob")).1 = true := by decide +kernel
    obtain ⟨m, hrun, -, hpublish⟩ := System.reaches_of_observe step (InForce .micOff "r" "bob")
      (aliceAndBob.onRoom "r" (disableMic "bob")).2
      [("r", .muteUser "bob"), ("r", .unmuteUser "bob")]
      (fun m => canPublish "bob" (m.room "r")) (b := true) (by decide +kernel)
    exact ⟨_, m, Prod.ext himposed rfl, hrun, hpublish⟩

end SrsChatRoom.Server.Rooms
