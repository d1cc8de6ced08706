import SrsChatRoom.Lib.System
import SrsChatRoom.Server.InvitationInvariant

/-!
# The lifecycle of an invitation

The requests of `server_fastapi.py` on one `InvitationStore`: `create_invitation`,
`accept_invitation`, `reject_invitation`, and the cleanup worker that calls `sweep_expired`.
A handler reads the record in one critical section and calls `update_status` in another; any
other request may run in between, so a state of the system holds the copy each handler read.

`terminal_stays_and_updates_once` is the result: as long as no `update_status` finds its
invitation already archived and new invitations get new ids, a terminal status never changes
and `update_status` reports success once per invitation. Without that condition both fail,
because the archive branch of `update_status` overwrites (`archive_branch_overwrites`).
-/

namespace SrsChatRoom.Server.Lifecycle

/-! ## The handlers -/

/-- The text of a status in a reply. -/
def statusText : Status → String
  | .pending => "pending"
  | .accepted => "accepted"
  | .rejected => "rejected"
  | .expired => "expired"

/-- `code` and `message` of a response. -/
structure Reply where
  code : ℕ
  message : String
deriving DecidableEq, Repr

/-- `api_ok` -/
def apiOk : Reply := ⟨0, "success"⟩

/-- The checks both handlers make on the record that `get` returned. -/
def checkInvitation (userId : String) : Option Invitation → Except Reply Invitation
  | none => .error ⟨404, "invitation not found"⟩
  | some inv =>
    if inv.inviteeId ≠ userId then .error ⟨403, "not your invitation"⟩
    else if inv.status ≠ .pending then
      .error ⟨400, "invitation status is " ++ statusText inv.status ++ ", not pending"⟩
    else .ok inv

/-- What a handler leaves behind: its reply, whether its `update_status` returned `True`, and
the store. -/
structure Outcome where
  reply : Reply
  updated : Bool
  store : Store

/-- `accept_invitation` from the check of `expires_at` on. `roomExists` and `inRoom` are what
`user_manager.get_room` and `user_manager.get_member` answer. -/
def acceptRest (s : Store) (id : String) (inv : Invitation) (now : ℤ)
    (roomExists inRoom : Bool) : Outcome :=
  if inv.expiresAt ≤ now then
    let (updated, s) := s.updateStatus id .expired []
    ⟨⟨400, "invitation expired"⟩, updated, s⟩
  else if !roomExists then
    let (updated, s) := s.updateStatus id .expired []
    ⟨⟨404, "room not found"⟩, updated, s⟩
  else if inRoom then ⟨⟨400, "invitee already in room"⟩, false, s⟩
  else
    let (updated, s) := s.updateStatus id .accepted [("accepted_at", now)]
    ⟨if updated then apiOk else ⟨409, "invitation status changed, please retry"⟩, updated, s⟩

/-- `reject_invitation` after its checks. -/
def rejectRest (s : Store) (id : String) (now : ℤ) : Outcome :=
  let (updated, s) := s.updateStatus id .rejected [("rejected_at", now)]
  ⟨if updated then apiOk else ⟨409, "invitation status changed, please retry"⟩, updated, s⟩

/-- The part of a handler after its checks either leaves the store alone or makes one
`update_status` call, with a terminal status. -/
def Outcome.FromUpdate (o : Outcome) (s : Store) (id : String) : Prop :=
  (o.updated = false ∧ o.store = s) ∨
    ∃ st extra, st ≠ Status.pending ∧ (o.updated, o.store) = s.updateStatus id st extra

theorem acceptRest_fromUpdate (s : Store) (id : String) (inv : Invitation) (now : ℤ)
    (roomExists inRoom : Bool) : (acceptRest s id inv now roomExists inRoom).FromUpdate s id := by
  unfold acceptRest
  split
  · exact Or.inr ⟨.expired, [], by simp, rfl⟩
  · split
    · exact Or.inr ⟨.expired, [], by simp, rfl⟩
    · split
      · exact Or.inl ⟨rfl, rfl⟩
      · exact Or.inr ⟨.accepted, [("accepted_at", now)], by simp, rfl⟩

theorem rejectRest_fromUpdate (s : Store) (id : String) (now : ℤ) :
    (rejectRest s id now).FromUpdate s id :=
  Or.inr ⟨.rejected, [("rejected_at", now)], by simp, rfl⟩

/-! ## The system -/

/-- The two requests on an existing invitation. -/
inductive Kind
  | accept
  | reject
deriving DecidableEq, Repr

/-- A handler between its `get` and the rest. -/
structure Handler where
  kind : Kind
  id : String
  inv : Invitation

/-- The store, the handlers in flight, the replies given so far, and the ids for which an
`update_status` has returned `True`. -/
structure World where
  store : Store
  handlers : ℕ → Option Handler
  replies : List (ℕ × Reply)
  trues : List String

/-- Start of the process: `_load` and nothing in flight. -/
def World.init (activeFile archiveFile legacy : Dict String Invitation) : World :=
  ⟨Store.load activeFile archiveFile legacy, fun _ => none, [], []⟩

/-- One critical section of some party. -/
inductive Action
  /-- `put` of a new invitation -/
  | put (inv : Invitation)
  /-- handler `h`: `get` and the checks on the copy -/
  | get (h : ℕ) (kind : Kind) (id userId : String)
  /-- handler `h`: the rest of the request -/
  | rest (h : ℕ) (now : ℤ) (roomExists inRoom : Bool)
  /-- the cleanup worker -/
  | sweep (now : ℤ)

/-- The rest of a request, by its kind. -/
def Handler.rest (hd : Handler) (s : Store) (now : ℤ) (roomExists inRoom : Bool) : Outcome :=
  match hd.kind with
  | .accept => acceptRest s hd.id hd.inv now roomExists inRoom
  | .reject => rejectRest s hd.id now

theorem Handler.rest_fromUpdate (hd : Handler) (s : Store) (now : ℤ) (roomExists inRoom : Bool) :
    (hd.rest s now roomExists inRoom).FromUpdate s hd.id := by
  unfold Handler.rest
  split
  · exact acceptRest_fromUpdate s hd.id hd.inv now roomExists inRoom
  · exact rejectRest_fromUpdate s hd.id now

/-- One step of the system. `put` is only called with pending invitations. -/
def step (w : World) : Action → Option World
  | .put inv => if inv.status = .pending then some { w with store := w.store.put inv } else none
  | .get h kind id userId =>
    match w.handlers h with
    | some _ => none
    | none =>
      match checkInvitation userId (w.store.get id) with
      | .error reply => some { w with replies := (h, reply) :: w.replies }
      | .ok inv => some { w with handlers := Function.update w.handlers h (some ⟨kind, id, inv⟩) }
  | .rest h now roomExists inRoom =>
    match w.handlers h with
    | none => none
    | some hd =>
      let o := hd.rest w.store now roomExists inRoom
      some
        { store := o.store
          handlers := Function.update w.handlers h none
          replies := (h, o.reply) :: w.replies
          trues := if o.updated then hd.id :: w.trues else w.trues }
  | .sweep now => some { w with store := (w.store.sweepExpired now).2 }

/-- A new invitation gets an id that the store does not have. -/
def NewIds (w : World) : Action → Prop
  | .put inv => w.store.ref? inv.id = none
  | _ => True

/-- The invitation of a request in flight has not been archived since the request read it. -/
def NotArchived (w : World) : Action → Prop
  | .rest h _ _ _ => ∀ hd ∈ w.handlers h, w.store.archive.get? hd.id = none
  | _ => True

/-- The condition under which the lifecycle is one-way. -/
def LiveUpdates (w : World) (a : Action) : Prop := NewIds w a ∧ NotArchived w a

instance (w : World) (a : Action) : Decidable (NewIds w a) := by
  cases a <;> unfold NewIds <;> infer_instance

instance (w : World) (a : Action) : Decidable (NotArchived w a) := by
  cases a <;> unfold NotArchived <;> infer_instance

instance (w : World) (a : Action) : Decidable (LiveUpdates w a) :=
  inferInstanceAs (Decidable (_ ∧ _))

/-! ## What a step keeps -/

/-- The invariant: the store is well formed, `update_status` has returned `True` at most once
for each id, and where it has, the invitation is archived with a terminal status. -/
structure Inv (w : World) : Prop where
  wf : w.store.WF
  once : ∀ id, w.trues.count id ≤ 1
  done : ∀ id ∈ w.trues, ∃ st, st ≠ Status.pending ∧ w.store.Archived id st

theorem init_inv (activeFile archiveFile legacy : Dict String Invitation) :
    Inv (World.init activeFile archiveFile legacy) where
  wf := Store.load_wf activeFile archiveFile legacy
  once := by simp [World.init]
  done := by simp [World.init]

/-- The rest of a request whose invitation is not archived: nothing happens to the store, or
the pending record moves to the archive. -/
theorem rest_cases (hd : Handler) {s : Store} (now : ℤ) (roomExists inRoom : Bool)
    (hlive : s.archive.get? hd.id = none) :
    ((hd.rest s now roomExists inRoom).updated = false ∧
        (hd.rest s now roomExists inRoom).store = s) ∨
      ∃ r st extra, st ≠ Status.pending ∧ s.active.get? hd.id = some r ∧
        (hd.rest s now roomExists inRoom).updated = true ∧
        (hd.rest s now roomExists inRoom).store =
          s.execAll (Store.moveStmts hd.id r st extra) := by
  rcases hd.rest_fromUpdate s now roomExists inRoom with h | ⟨st, extra, hst, h⟩
  · exact Or.inl h
  · rcases s.updateStatus_cases extra hst hlive with hcase | ⟨r, hr, hcase⟩
    · exact Or.inl (Prod.mk.inj (h.trans hcase))
    · obtain ⟨hupd, hstore⟩ := Prod.mk.inj (h.trans hcase)
      exact Or.inr ⟨r, st, extra, hst, hr, hupd, hstore⟩

variable {w w' : World} {a : Action}

/-- Everything a step can do to the store and to the count of successes. -/
theorem step_cases (hstep : step w a = some w') :
    (∃ inv, a = .put inv ∧ inv.status = .pending ∧ w'.store = w.store.put inv ∧
      w'.trues = w.trues) ∨
    (∃ h kind id userId, a = .get h kind id userId ∧ w'.store = w.store ∧ w'.trues = w.trues) ∨
    (∃ h now roomExists inRoom hd, a = .rest h now roomExists inRoom ∧ w.handlers h = some hd ∧
      w'.store = (hd.rest w.store now roomExists inRoom).store ∧
      w'.trues = if (hd.rest w.store now roomExists inRoom).updated then hd.id :: w.trues
        else w.trues) ∨
    (∃ now, a = .sweep now ∧ w'.store = (w.store.sweepExpired now).2 ∧ w'.trues = w.trues) := by
  cases a with
  | put inv =>
    simp only [step] at hstep
    split at hstep
    · next hp =>
      cases hstep
      exact Or.inl ⟨inv, rfl, hp, rfl, rfl⟩
    · cases hstep
  | get h kind id userId =>
    simp only [step] at hstep
    refine Or.inr (Or.inl ⟨h, kind, id, userId, rfl, ?_⟩)
    split at hstep
    · cases hstep
    · split at hstep <;> cases hstep <;> exact ⟨rfl, rfl⟩
  | rest h now roomExists inRoom =>
    simp only [step] at hstep
    split at hstep
    · cases hstep
    · next hd hhd =>
      cases hstep
      exact Or.inr (Or.inr (Or.inl ⟨h, now, roomExists, inRoom, hd, rfl, hhd, rfl, rfl⟩))
  | sweep now =>
    cases hstep
    exact Or.inr (Or.inr (Or.inr ⟨now, rfl, rfl, rfl⟩))

/-- An archived invitation stays archived with its status over every guarded step. -/
theorem archived_step (hw : Inv w) (hguard : LiveUpdates w a)
    (hstep : step w a = some w') {id : String} {st : Status} (h : w.store.Archived id st) :
    w'.store.Archived id st := by
  obtain ⟨inv, -, -, hstore, -⟩ | ⟨_, _, _, _, -, hstore, -⟩ |
    ⟨k, now, roomExists, inRoom, hd, rfl, hhd, hstore, -⟩ | ⟨now, -, hstore, -⟩ :=
    step_cases hstep
  · exact hstore.symm ▸ h.put hw.wf inv
  · exact hstore.symm ▸ h
  · rw [hstore]
    rcases rest_cases hd now roomExists inRoom (hguard.2 hd hhd) with
      ⟨-, hsame⟩ | ⟨r, st', extra, -, hr, -, hmove⟩
    · exact hsame.symm ▸ h
    · exact hmove.symm ▸ h.move hw.wf hr
  · exact hstore.symm ▸ h.sweep hw.wf now

/-- Every guarded step keeps the invariant. -/
theorem inv_step (hw : Inv w) (hguard : LiveUpdates w a) (hstep : step w a = some w') : Inv w' := by
  have hdone : ∀ id ∈ w.trues, ∃ st, st ≠ Status.pending ∧ w'.store.Archived id st := by
    intro id hid
    obtain ⟨st, hst, h⟩ := hw.done id hid
    exact ⟨st, hst, archived_step hw hguard hstep h⟩
  obtain ⟨inv, rfl, hp, hstore, htrues⟩ | ⟨_, _, _, _, rfl, hstore, htrues⟩ |
    ⟨k, now, roomExists, inRoom, hd, rfl, hhd, hstore, htrues⟩ | ⟨now, rfl, hstore, htrues⟩ :=
    step_cases hstep
  · exact ⟨hstore.symm ▸ hw.wf.put hguard.1 hp, htrues.symm ▸ hw.once, htrues.symm ▸ hdone⟩
  · exact ⟨hstore.symm ▸ hw.wf, htrues.symm ▸ hw.once, htrues.symm ▸ hdone⟩
  · have hlive := hguard.2 hd hhd
    rcases rest_cases hd now roomExists inRoom hlive with
      ⟨hupd, hsame⟩ | ⟨r, st, extra, hst, hr, hupd, hmove⟩
    · rw [hupd, if_neg Bool.false_ne_true] at htrues
      rw [hsame] at hstore
      exact ⟨hstore.symm ▸ hw.wf, htrues.symm ▸ hw.once, htrues.symm ▸ hdone⟩
    · rw [hupd, if_pos rfl] at htrues
      rw [hmove] at hstore
      -- an id that was counted before is archived, so this one was not
      have hnew : hd.id ∉ w.trues := by
        intro hmem
        obtain ⟨_, -, r', -, hr', -⟩ := hw.done hd.id hmem
        rw [hlive] at hr'
        cases hr'
      refine ⟨hstore.symm ▸ hw.wf.move hr hst, ?_, ?_⟩ <;> rw [htrues]
      · intro id
        have := hw.once id
        rw [List.count_cons]
        by_cases hid : hd.id = id
        · subst hid
          simp [List.count_eq_zero_of_not_mem hnew]
        · simpa [hid] using this
      · intro id hid
        rcases List.mem_cons.mp hid with rfl | hid
        · exact ⟨st, hst, hstore.symm ▸ Store.archived_move hw.wf hr⟩
        · exact hdone id hid
  · exact ⟨hstore.symm ▸ hw.wf.sweep now, htrues.symm ▸ hw.once, htrues.symm ▸ hdone⟩

/-! ## Whole runs -/

/-- The lifecycle is one-way over every interleaving in which no request finds its invitation
archived: a terminal status is never changed again, and `update_status` returns `True` for at
most one caller per invitation. -/
theorem terminal_stays_and_updates_once (activeFile archiveFile legacy : Dict String Invitation)
    {s t : World}
    (hs : System.Reaches step LiveUpdates (World.init activeFile archiveFile legacy) s)
    (ht : System.Reaches step LiveUpdates s t) (id : String) :
    (∀ st, st ≠ .pending → s.store.statusOf id = some st → t.store.statusOf id = some st) ∧
      t.trues.count id ≤ 1 := by
  have hstep : ∀ s a t, Inv s → LiveUpdates s a → step s a = some t → Inv t :=
    fun _ _ _ hw hguard ha => inv_step hw hguard ha
  have hinv : Inv s := hs.invariant hstep (init_inv activeFile archiveFile legacy)
  have hinv' : Inv t := ht.invariant hstep hinv
  refine ⟨fun st hst hstatus => ?_, hinv'.once id⟩
  rw [hinv.wf.archived_iff id hst] at hstatus
  rw [hinv'.wf.archived_iff id hst]
  exact ht.stable (P := fun w => w.store.Archived id st) hstep
    (fun _ _ _ hw hp hguard ha => archived_step hw hguard ha hp) hinv hstatus

/-- An invitation to `bob` that runs out at 100. -/
def invitationToBob : Invitation :=
  { id := "inv_1", roomId := "room", inviterId := "alice", inviteeId := "bob"
    status := .pending, expiresAt := 100 }

/-- The start with no files. -/
def World.fresh : World := World.init Dict.empty Dict.empty Dict.empty

/-- A run that meets the condition: `bob` accepts, and the later sweep does not touch it. -/
theorem terminal_stays_and_updates_once_accept :
    ∃ s t : World, s.store.statusOf "inv_1" = some .accepted ∧
      t.store.statusOf "inv_1" = some .accepted ∧ t.trues.count "inv_1" ≤ 1 := by
  obtain ⟨s, hs, -, hobs⟩ := System.reaches_of_observe step LiveUpdates World.fresh
    [.put invitationToBob, .get 0 .accept "inv_1" "bob", .rest 0 50 true false] (fun w => w.store.statusOf "inv_1") (b := some .accepted) (by decide)
  have ht : System.Reaches step LiveUpdates s { s with store := (s.store.sweepExpired 200).2 } :=
    Relation.ReflTransGen.single ⟨.sweep 200, ⟨trivial, trivial⟩, rfl⟩
  have hstays := terminal_stays_and_updates_once Dict.empty Dict.empty Dict.empty hs ht "inv_1"
  exact ⟨s, _, hobs, hstays.1 .accepted (by decide) hobs, hstays.2⟩

/-- Both parts fail without the condition. Two requests of `bob` read the invitation while it
is pending, then the sweep expires it; the rejection turns `expired` into `rejected`, and the
acceptance, which sees that the invitation has run out, turns it into `expired` again. Both
calls of `update_status` return `True`. -/
theorem archive_branch_overwrites :
    ∃ s t u, System.Reaches step NewIds World.fresh s ∧ System.Reaches step NewIds s t ∧
      System.Reaches step NewIds t u ∧ s.store.statusOf "inv_1" = some .expired ∧
      t.store.statusOf "inv_1" = some .rejected ∧ u.store.statusOf "inv_1" = some .expired ∧
      u.trues.count "inv_1" = 2 := by
  obtain ⟨s, hs, hs', hexpired⟩ := System.reaches_of_observe step NewIds World.fresh
    [.put invitationToBob, .get 0 .reject "inv_1" "bob", .get 1 .accept "inv_1" "bob",
      .sweep 100] (fun w => w.store.statusOf "inv_1") (b := some .expired)
    (by decide)
  obtain ⟨t, ht, ht', hrejected⟩ := System.reaches_of_observe_append hs'
    [.rest 0 100 true false] (fun w => w.store.statusOf "inv_1") (b := some .rejected) (by decide)
  obtain ⟨u, hu, -, hagain⟩ := System.reaches_of_observe_append ht' [.rest 1 100 true false]
    (fun w => (w.store.statusOf "inv_1", w.trues.count "inv_1")) (b := (some .expired, 2))
    (by decide)
  obtain ⟨hstatus, hcount⟩ := Prod.mk.inj hagain
  exact ⟨s, t, u, hs, ht, hu, hexpired, hrejected, hstatus, hcount⟩

end SrsChatRoom.Server.Lifecycle
