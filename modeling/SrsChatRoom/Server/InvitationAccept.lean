import SrsChatRoom.Server.InvitationLifecycle
import SrsChatRoom.Server.UserManager

/-!
# Accepting an invitation (`accept_invitation`)

The handler marks the invitation as accepted and then has the user join the room. `join_room` raises
for a room that is closed or full, and what is behind it may raise too; the handler answers with an
error then, and the mark stays. `accept_atomic_iff` says from which states this cannot happen.
-/

namespace SrsChatRoom.Server.InvitationAccept

open Rooms Lifecycle

/-! ## Code -/

/-- The invitations and the rooms. -/
structure Service where
  store : Store
  manager : UserManager

namespace Service

variable (w : Service)

/-- `get_member`, without its result. -/
def isMember (roomId userId : String) : Bool := (getMember userId (w.manager.room roomId)).isSome

/-- `update_status`, without its result. -/
def updateStatus (id : String) (newStatus : Status) (extra : List (String × ℤ)) : Service :=
  { w with store := (w.store.updateStatus id newStatus extra).2 }

/-- A call of `user_manager`, without its result. -/
def onRoom {β : Type} (roomId : String) (f : RoomOp β) : Service :=
  { w with manager := (w.manager.onRoom roomId f).2 }

/-- `join_room` and what is behind it. `raises` is the text of the exception of the first call there
that raises, if one does. -/
def join (now jwtUserId roomId : String) (raises : Option String) : Reply × Service :=
  match (w.manager.onRoom roomId (joinRoom now roomId jwtUserId .member)).1 with
  | .error message =>
    (⟨500, message⟩, w.onRoom roomId (joinRoom now roomId jwtUserId .member))
  | .ok _ =>
    (raises.elim apiOk fun message => ⟨500, message⟩,
      w.onRoom roomId (joinRoom now roomId jwtUserId .member))

/-- The handler from `get_room` on, for an invitation that has not timed out. -/
def enter (time : ℤ) (now jwtUserId id : String) (inv : Invitation) (raises : Option String) :
    Reply × Service :=
  match (w.manager.onRoom inv.roomId getRoom).1 with
  | none => (⟨404, "room not found"⟩, (w.onRoom inv.roomId getRoom).updateStatus id .expired [])
  | some _ =>
    let w := w.onRoom inv.roomId getRoom
    if w.isMember inv.roomId jwtUserId then (⟨400, "invitee already in room"⟩, w)
    else if (w.store.updateStatus id .accepted [("accepted_at", time)]).1 then
      (w.updateStatus id .accepted [("accepted_at", time)]).join now jwtUserId inv.roomId raises
    else
      (⟨409, "invitation status changed, please retry"⟩,
        w.updateStatus id .accepted [("accepted_at", time)])

/-- `accept_invitation`. The time is `time` for the invitations and `now` for the rooms. -/
def acceptInvitation (time : ℤ) (now jwtUserId id : String) (raises : Option String) :
    Reply × Service :=
  if jwtUserId = "" then (⟨401, "not authenticated"⟩, w)
  else
    match checkInvitation jwtUserId (w.store.get id) with
    | .error reply => (reply, w)
    | .ok inv =>
      if inv.expiresAt ≤ time then (⟨400, "invitation expired"⟩, w.updateStatus id .expired [])
      else w.enter time now jwtUserId id inv raises

end Service

/-! ## What is expected of it -/

/-- The invitation has timed out, or its room is gone. -/
def Lapsed (time : ℤ) (id : String) (w : Service) : Prop :=
  ∃ inv, w.store.get id = some inv ∧ (inv.expiresAt ≤ time ∨ w.manager.room inv.roomId = none)

/-- Behind an error the user is in the same rooms, and the invitation is as it was or has expired
for a reason. It becomes accepted only with the user in the room. -/
structure Atomic (time : ℤ) (userId id : String) (w : Service) (o : Reply × Service) : Prop where
  membership : o.1.code ≠ 0 → ∀ roomId, o.2.isMember roomId userId = w.isMember roomId userId
  invitation : o.1.code ≠ 0 → o.2.store.get id = w.store.get id ∨
    Lapsed time id w ∧ ∃ inv, o.2.store.get id = some inv ∧ inv.status = .expired
  accepted : ∀ inv, o.2.store.get id = some inv → inv.status = .accepted →
    (w.store.get id).map Invitation.status ≠ some .accepted → o.2.isMember inv.roomId userId

/-- The handler gets to `join_room`: the invitation is the user's, pending and not timed out, and
the user is not in the room. -/
def Passes (time : ℤ) (userId id : String) (w : Service) (inv : Invitation) (room : Room) : Prop :=
  userId ≠ "" ∧ checkInvitation userId (w.store.get id) = .ok inv ∧ time < inv.expiresAt ∧
    w.manager.room inv.roomId = some room ∧ room.members.get? userId = none

/-- The room takes the user in, and nothing behind `join_room` raises. -/
def Admits (room : Room) (raises : Option String) : Prop :=
  room.status ≠ .closed ∧ (room.members.erase "").size < room.maxMembers ∧ raises = none

/-! ## Rooms -/

section
variable {room : Room} {userId : String}

/-- The repair removes the member without a name, and nobody else. -/
theorem keys_repair (room : Room) : room.repair.members.keys = (room.members.erase "").keys := by
  unfold Room.repair Room.repairOwner
  split
  · rfl
  · split
    · rfl
    · next uid member rest hentries =>
      split
      · rfl
      · -- the first member becomes the owner, at its own key
        apply Dict.keys_set_of_mem
        show uid ∈ List.map Prod.fst _
        rw [show ((room.setMembers (room.members.erase "")).setOwner uid).members.entries = _
          from hentries]
        exact List.mem_cons_self

theorem keys_repair_repair (room : Room) :
    room.repair.repair.members.keys = (room.members.erase "").keys := by
  rw [keys_repair, Dict.keys_erase, keys_repair, Dict.keys_erase, List.filter_filter]
  simp

theorem status_repair (room : Room) : room.repair.status = room.status := by
  unfold Room.repair Room.repairOwner
  split
  · rfl
  · split
    · rfl
    · split <;> rfl

theorem maxMembers_repair (room : Room) : room.repair.maxMembers = room.maxMembers := by
  unfold Room.repair Room.repairOwner
  split
  · rfl
  · split
    · rfl
    · split <;> rfl

theorem isSome_get?_iff {ν : Type} (d : Dict String ν) (userId : String) :
    (d.get? userId).isSome ↔ userId ∈ d.keys := Dict.contains_iff d userId

/-- Rooms with the same keys have the same members. -/
theorem isSome_get?_congr {room' : Room} (h : room'.members.keys = room.members.keys)
    (userId : String) :
    (room'.members.get? userId).isSome = (room.members.get? userId).isSome := by
  rw [Bool.eq_iff_iff, isSome_get?_iff, isSome_get?_iff, h]

theorem isSome_get?_erase (hname : userId ≠ "") :
    ((room.members.erase "").get? userId).isSome = (room.members.get? userId).isSome := by
  rw [Dict.get?_erase, if_neg hname.symm]

theorem isSome_get?_repair (hname : userId ≠ "") :
    (room.repair.members.get? userId).isSome = (room.members.get? userId).isSome := by
  have hrepair := @isSome_get?_congr (room.setMembers (room.members.erase "")) room.repair
    (keys_repair room) userId
  rw [hrepair]
  exact isSome_get?_erase hname

theorem size_eq_of_keys {d d' : Dict String User} (h : d.keys = d'.keys) : d.size = d'.size := by
  have hlength := congrArg List.length h
  simpa [Dict.keys, Dict.size] using hlength

/-- A user that is no member joins exactly if the room is open and not full. -/
theorem join_cases (hout : room.members.get? userId = none) (now roomId : String) :
    (room.status ≠ .closed ∧ room.members.size < room.maxMembers ∧
      (∃ user, (room.join now roomId userId .member).1 = .ok user) ∧
      ((room.join now roomId userId .member).2.members.get? userId).isSome) ∨
    ((room.status = .closed ∨ room.maxMembers ≤ room.members.size) ∧
      ∃ message, room.join now roomId userId .member = (.error message, room)) := by
  unfold Room.join
  by_cases hclosed : room.status = .closed
  · rw [if_pos hclosed]
    exact .inr ⟨.inl hclosed, _, rfl⟩
  · rw [if_neg hclosed, hout]
    by_cases hfull : room.maxMembers ≤ room.members.size
    · simp only [if_pos hfull]
      exact .inr ⟨.inr hfull, _, rfl⟩
    · refine .inl ⟨hclosed, not_le.mp hfull, ?_⟩
      simp only [if_neg hfull]
      split
      · simp [Room.setMember]
      · simp [Room.setMember]

end

/-! ## Invitations -/

/-- An invitation that is found can be marked. -/
theorem updateStatus_of_get {s : Store} {id : String} {inv : Invitation} (h : s.get id = some inv)
    {newStatus : Status} (hterminal : newStatus ≠ .pending) (extra : List (String × ℤ)) :
    (s.updateStatus id newStatus extra).1 = true ∧
      (s.updateStatus id newStatus extra).2.get id = some (inv.mark newStatus extra) := by
  obtain ⟨r, href, hr⟩ := Option.bind_eq_some_iff.mp h
  have hmark : (s.heap.modify r (Invitation.mark newStatus extra))[r]?
      = some (inv.mark newStatus extra) := by
    rw [List.getElem?_modify_eq, hr]
    rfl
  rw [Store.ref?, Option.or_eq_some_iff] at href
  unfold Store.updateStatus Store.updateStatusStmts
  cases hactive : s.active.get? id with
  | some r' =>
    rw [hactive] at href
    have hr' : r' = r := by simpa using href
    subst hr'
    simp only [(mem_terminalStatuses newStatus).mpr hterminal, if_true, Store.execAll_append]
    refine ⟨trivial, ?_⟩
    show Store.get ⟨_, s.active.erase id, s.archive.set id r'⟩ id = _
    rw [Store.get, Store.ref?, Dict.get?_erase, if_pos rfl, Option.none_or, Dict.get?_set_self]
    exact hmark
  | none =>
    rw [hactive] at href
    have harchive : s.archive.get? id = some r := by simpa using href
    simp only [harchive]
    refine ⟨trivial, ?_⟩
    show Store.get ⟨_, s.active, s.archive⟩ id = _
    rw [Store.get, Store.ref?, hactive, Option.none_or, harchive]
    exact hmark

/-! ## The result -/

section
variable {time : ℤ} {now userId id : String} {raises : Option String} {w : Service}

theorem isMember_onRoom {β : Type} (w : Service) (roomId : String) (f : RoomOp β) (id : String) :
    (w.onRoom roomId f).isMember id userId
      = if roomId = id then (getMember userId (f (w.manager.room roomId)).2).isSome
        else w.isMember id userId := by
  unfold Service.isMember Service.onRoom
  rw [UserManager.room_onRoom]
  split <;> rfl

/-- `get_room` leaves the members where they are. -/
theorem isMember_getRoom (hname : userId ≠ "") (roomId id : String) :
    (w.onRoom roomId getRoom).isMember id userId = w.isMember id userId := by
  rw [isMember_onRoom]
  split
  · next heq =>
    subst heq
    unfold Service.isMember getRoom
    cases w.manager.room roomId with
    | none => rfl
    | some room => exact isSome_get?_repair hname
  · rfl

/-- A handler that leaves the members and the invitation alone. -/
theorem Atomic.same {o : Reply × Service} (hstore : o.2.store.get id = w.store.get id)
    (hmember : ∀ roomId, o.2.isMember roomId userId = w.isMember roomId userId) :
    Atomic time userId id w o := by
  refine ⟨fun _ => hmember, fun _ => .inl hstore, ?_⟩
  intro inv hget haccepted hbefore
  rw [hstore] at hget
  rw [hget, Option.map_some, haccepted] at hbefore
  exact absurd rfl hbefore

variable {inv : Invitation}

/-- A handler that finds the invitation lapsed, and marks it. -/
theorem Atomic.expire {reply : Reply} {w' : Service}
    (hget : w.store.get id = some inv) (hstore : w'.store = w.store)
    (hlapsed : inv.expiresAt ≤ time ∨ w.manager.room inv.roomId = none)
    (hmember : ∀ roomId, w'.isMember roomId userId = w.isMember roomId userId) :
    Atomic time userId id w (reply, w'.updateStatus id .expired []) := by
  have hmark : (w'.updateStatus id .expired []).store.get id = some (inv.mark .expired []) := by
    show (w'.store.updateStatus id .expired []).2.get id = _
    rw [hstore]
    exact (updateStatus_of_get hget (by decide) []).2
  refine ⟨fun _ => hmember, fun _ => .inr ⟨⟨inv, hget, hlapsed⟩, _, hmark, rfl⟩, ?_⟩
  intro inv' hget' haccepted
  rw [hmark] at hget'
  rw [← Option.some.inj hget'] at haccepted
  cases haccepted

theorem get_of_checkInvitation {found : Option Invitation}
    (h : checkInvitation userId found = .ok inv) : found = some inv ∧ inv.status = .pending := by
  cases found with
  | none => cases h
  | some inv' =>
    rw [checkInvitation] at h
    split_ifs at h with huser hpending
    cases h
    exact ⟨rfl, not_not.mp hpending⟩

/-- With all checks passed the handler has the user join the room. -/
theorem accept_of_passes {room : Room} (h : Passes time userId id w inv room) :
    w.acceptInvitation time now userId id raises
      = ((w.onRoom inv.roomId getRoom).updateStatus id .accepted [("accepted_at", time)]).join
          now userId inv.roomId raises := by
  obtain ⟨hname, hcheck, htime, hroom, hout⟩ := h
  obtain ⟨hget, -⟩ := get_of_checkInvitation hcheck
  have hmember : (w.onRoom inv.roomId getRoom).isMember inv.roomId userId = false := by
    rw [isMember_getRoom hname]
    simp [Service.isMember, hroom, getMember, hout]
  have hmarked : ((w.onRoom inv.roomId getRoom).store.updateStatus id .accepted
      [("accepted_at", time)]).1 = true := (updateStatus_of_get hget (by decide) _).1
  rw [Service.acceptInvitation, if_neg hname, hcheck]
  simp only [if_neg (not_le.mpr htime)]
  rw [Service.enter, UserManager.fst_onRoom, hroom]
  simp only [getRoom, Option.map_some]
  rw [if_neg (by simp [hmember]), if_pos hmarked]

/-- What the user finds in the room: it joins, or it is refused and the room stays as it is. -/
theorem accept_join {room : Room} (h : Passes time userId id w inv room) :
    Atomic time userId id w (w.acceptInvitation time now userId id raises) ↔
      Admits room raises := by
  rw [accept_of_passes h]
  obtain ⟨hname, hcheck, htime, hroom, hout⟩ := h
  obtain ⟨hget, hpending⟩ := get_of_checkInvitation hcheck
  set w' := (w.onRoom inv.roomId getRoom).updateStatus id .accepted [("accepted_at", time)] with hw'
  have hmark : w'.store.get id = some (inv.mark .accepted [("accepted_at", time)]) :=
    (updateStatus_of_get hget (by decide) _).2
  have hroom' : w'.manager.room inv.roomId = some room.repair := by
    show (w.manager.onRoom inv.roomId getRoom).2.room inv.roomId = _
    rw [UserManager.room_onRoom, if_pos rfl, hroom]
    rfl
  -- the repaired room has no further members, and is open to as many
  have hout' : room.repair.repair.members.get? userId = none := by
    have hsome : (room.repair.repair.members.get? userId).isSome = false := by
      rw [isSome_get?_repair hname, isSome_get?_repair hname, hout]
      rfl
    simpa using hsome
  have hsize : room.repair.repair.members.size = (room.members.erase "").size :=
    size_eq_of_keys (keys_repair_repair room)
  have hbefore : w.isMember inv.roomId userId = false := by
    simp [Service.isMember, hroom, getMember, hout]
  have hresult : (w'.manager.onRoom inv.roomId (joinRoom now inv.roomId userId .member)).1
      = (room.repair.repair.join now inv.roomId userId .member).1 := by
    rw [UserManager.fst_onRoom, hroom']
    rfl
  have hafter : (w'.onRoom inv.roomId (joinRoom now inv.roomId userId .member)).isMember
      inv.roomId userId
      = ((room.repair.repair.join now inv.roomId userId .member).2.members.get? userId).isSome := by
    rw [isMember_onRoom, if_pos rfl, hroom']
    rfl
  unfold Admits Service.join
  rw [hresult, ← status_repair, ← status_repair room.repair, ← maxMembers_repair,
    ← maxMembers_repair room.repair, ← hsize]
  rcases join_cases hout' now inv.roomId with
    ⟨hopen, hfits, ⟨user, huser⟩, hin⟩ | ⟨hrefused, message, hjoin⟩
  · rw [huser]
    rw [hin] at hafter
    cases raises with
    | none =>
      refine iff_of_true ⟨fun hcode => absurd rfl hcode, fun hcode => absurd rfl hcode, ?_⟩
        ⟨hopen, hfits, rfl⟩
      intro inv' hget' _ _
      have hinv' : inv.mark .accepted [("accepted_at", time)] = inv' :=
        Option.some.inj (hmark.symm.trans hget')
      rw [← hinv']
      exact hafter
    | some message =>
      refine iff_of_false ?_ (fun h => Option.some_ne_none _ h.2.2)
      intro hatomic
      have hsame := hatomic.membership (by simp) inv.roomId
      rw [hbefore] at hsame
      exact Bool.false_ne_true (hsame.symm.trans hafter)
  · rw [hjoin]
    refine iff_of_false ?_ ?_
    · intro hatomic
      rcases hatomic.invitation (by simp) with hsame | ⟨-, inv', hexpired, hstatus⟩
      · have hboth : inv.mark .accepted [("accepted_at", time)] = inv :=
          Option.some.inj (hmark.symm.trans (hsame.trans hget))
        have hstatus := congrArg Invitation.status hboth
        rw [hpending] at hstatus
        cases hstatus
      · have hboth : inv.mark .accepted [("accepted_at", time)] = inv' :=
          Option.some.inj (hmark.symm.trans hexpired)
        rw [← hboth] at hstatus
        cases hstatus
    · rintro ⟨hopen, hfits, -⟩
      rcases hrefused with hclosed | hfull
      · exact hopen hclosed
      · omega

end

/-- Accepting an invitation is atomic exactly in the states in which, if the handler gets to
`join_room`, the room is open and not full, and nothing behind `join_room` raises. -/
theorem accept_atomic_iff (time : ℤ) (now userId id : String) (raises : Option String)
    (w : Service) :
    Atomic time userId id w (w.acceptInvitation time now userId id raises) ↔
      ∀ inv room, Passes time userId id w inv room → Admits room raises := by
  by_cases hpasses : ∃ inv room, Passes time userId id w inv room
  · obtain ⟨inv, room, h⟩ := hpasses
    rw [accept_join h]
    constructor
    · intro hadmits inv' room' h'
      obtain ⟨-, hcheck, -, hroom, -⟩ := h
      obtain ⟨-, hcheck', -, hroom', -⟩ := h'
      rw [hcheck] at hcheck'
      cases hcheck'
      rw [hroom] at hroom'
      cases hroom'
      exact hadmits
    · intro hall
      exact hall inv room h
  · refine iff_of_true ?_ (fun inv room h => absurd ⟨inv, room, h⟩ hpasses)
    -- the handler stops at one of its checks
    unfold Service.acceptInvitation
    split
    · exact .same rfl fun _ => rfl
    · next hname =>
      split
      · exact .same rfl fun _ => rfl
      · next inv hcheck =>
        obtain ⟨hget, -⟩ := get_of_checkInvitation hcheck
        split
        · next htime => exact .expire hget rfl (.inl htime) fun _ => rfl
        · next htime =>
          unfold Service.enter
          rw [UserManager.fst_onRoom]
          cases hroom : w.manager.room inv.roomId with
          | none =>
            exact .expire hget rfl (.inr hroom) fun roomId => isMember_getRoom hname _ _
          | some room =>
            have hin : w.isMember inv.roomId userId := by
              by_contra hout
              apply hpasses
              refine ⟨inv, room, hname, hcheck, not_le.mp htime, hroom, ?_⟩
              simpa [Service.isMember, hroom, getMember] using hout
            simp only [getRoom, Option.map_some]
            rw [if_pos (by rw [isMember_getRoom hname]; exact hin)]
            exact .same rfl fun roomId => isMember_getRoom hname _ _

/-! ## A room that is closed -/

/-- An invitation of `bob` to a room, and the room. -/
def invited (status : RoomStatus) : Service where
  store := Store.empty.put ⟨"inv_1", "room1", "alice", "bob", .pending, 100, Dict.empty⟩
  manager := ⟨Dict.empty.set "room1"
    { Room.create "t" "room1" "alice" "" with status := status }⟩

/-- In a closed room `bob` gets an error, and the invitation is accepted. -/
theorem accept_in_closed_room :
    ¬ Atomic 50 "bob" "inv_1" (invited .closed)
      ((invited .closed).acceptInvitation 50 "t" "bob" "inv_1" none) := by
  intro hatomic
  have hcode : ((invited .closed).acceptInvitation 50 "t" "bob" "inv_1" none).1.code = 500 := by
    decide +kernel
  have hbefore : ((invited .closed).store.get "inv_1").map Invitation.status = some .pending := by
    decide +kernel
  have hafter : (((invited .closed).acceptInvitation 50 "t" "bob" "inv_1" none).2.store.get
      "inv_1").map Invitation.status = some .accepted := by decide +kernel
  rcases hatomic.invitation (by rw [hcode]; decide) with hsame | ⟨-, inv, hget, hexpired⟩
  · rw [hsame, hbefore] at hafter
    cases hafter
  · rw [hget, Option.map_some, hexpired] at hafter
    cases hafter

end SrsChatRoom.Server.InvitationAccept
