import SrsChatRoom.Lib.Dict

/-!
# The invitation store (`invitation_store.py`)

`InvitationStore` keeps the pending invitations in `_active` and the finished ones in
`_archive`. Both dictionaries hold references to record objects: moving a record moves the
reference, and a snapshot `dict(self._active)` shares the records with the store. The model
therefore has a heap of records, and `active`, `archive` map ids to positions in it.

The operations are given twice, once as the list of statements each executes (which is what
the writer thread can interleave with, as it never takes the lock), and once as the whole
critical section, which is what another holder of the lock sees.
-/

namespace SrsChatRoom.Server

/-! ## Records -/

/-- The `status` of an invitation. -/
inductive Status
  | pending
  | accepted
  | rejected
  | expired
deriving DecidableEq, Repr

/-- `TERMINAL_STATUSES` -/
def terminalStatuses : List Status := [.accepted, .rejected, .expired]

/-- A status is terminal exactly when it is not `pending`. -/
theorem mem_terminalStatuses (st : Status) : st ∈ terminalStatuses ↔ st ≠ .pending := by
  cases st <;> simp [terminalStatuses]

/-- An invitation record. `stamps` holds the optional keys `accepted_at`, `rejected_at` and
`expired_at`. -/
structure Invitation where
  id : String
  roomId : String
  inviterId : String
  inviteeId : String
  status : Status
  expiresAt : ℤ
  stamps : Dict String ℤ := Dict.empty

/-- `rec["status"] = new_status` followed by `rec[k] = v` for the extra items. -/
def Invitation.mark (newStatus : Status) (extra : List (String × ℤ)) (inv : Invitation) :
    Invitation :=
  { inv with
    status := newStatus
    stamps := extra.foldl (fun d kv => d.set kv.1 kv.2) inv.stamps }

@[simp] theorem Invitation.status_mark (st : Status) (extra : List (String × ℤ))
    (inv : Invitation) : (inv.mark st extra).status = st := rfl

/-- `rec.get("status") == "pending" and int(rec.get("expires_at", 0)) <= now` -/
def Invitation.isExpired (now : ℤ) (inv : Invitation) : Bool :=
  inv.status = .pending ∧ inv.expiresAt ≤ now

/-! ## The store and its statements -/

/-- The in-memory shards of `InvitationStore`. A record object is its position in `heap`. -/
structure Store where
  heap : List Invitation
  active : Dict String ℕ
  archive : Dict String ℕ

/-- The two shards, each with a file of its own. -/
inductive Shard
  | active
  | archive
deriving DecidableEq, Repr

/-- The other shard. -/
def Shard.other : Shard → Shard
  | .active => .archive
  | .archive => .active

theorem Shard.eq_or_eq_other (sh sh' : Shard) : sh' = sh ∨ sh' = sh.other := by
  cases sh <;> cases sh' <;> simp [Shard.other]

theorem Shard.ne_other (sh : Shard) : sh ≠ sh.other := by
  cases sh <;> simp [Shard.other]

/-- The `op` of a queued marker. The writer only looks at the target. -/
inductive Op
  | put
  | update
  | move
deriving DecidableEq, Repr

/-- An item of `_write_queue`. -/
structure Marker where
  op : Op
  target : Shard
deriving DecidableEq, Repr

/-- The statements the store operations are made of. -/
inductive Stmt
  /-- `self._active[inv["id"]] = dict(inv)` -/
  | new (inv : Invitation)
  /-- `rec["status"] = ...` and the assignments of the extra items, on one record object -/
  | mark (rec : ℕ) (status : Status) (extra : List (String × ℤ))
  /-- `self._archive[inv_id] = rec` -/
  | setArchive (id : String) (rec : ℕ)
  /-- `del self._active[inv_id]` -/
  | delActive (id : String)
  /-- `self._write_queue.put(...)` -/
  | queue (marker : Marker)

namespace Store

/-- The store with nothing in it. -/
def empty : Store := ⟨[], Dict.empty, Dict.empty⟩

/-- The dictionary of a shard. -/
def shard (s : Store) : Shard → Dict String ℕ
  | .active => s.active
  | .archive => s.archive

/-- A new record object under `id` in a shard. -/
def add (s : Store) (sh : Shard) (id : String) (inv : Invitation) : Store :=
  match sh with
  | .active => { s with heap := s.heap ++ [inv], active := s.active.set id s.heap.length }
  | .archive => { s with heap := s.heap ++ [inv], archive := s.archive.set id s.heap.length }

@[simp] theorem heap_add (s : Store) (sh : Shard) (id : String) (inv : Invitation) :
    (s.add sh id inv).heap = s.heap ++ [inv] := by
  cases sh <;> rfl

theorem shard_add (s : Store) (sh sh' : Shard) (id : String) (inv : Invitation) :
    (s.add sh id inv).shard sh' =
      if sh = sh' then (s.shard sh').set id s.heap.length else s.shard sh' := by
  cases sh <;> cases sh' <;> rfl

/-- The effect of one statement on the two dictionaries and the records. -/
def exec (s : Store) : Stmt → Store
  | .new inv => s.add .active inv.id inv
  | .mark rec status extra => { s with heap := s.heap.modify rec (Invitation.mark status extra) }
  | .setArchive id rec => { s with archive := s.archive.set id rec }
  | .delActive id => { s with active := s.active.erase id }
  | .queue _ => s

/-- Statements in a row. -/
def execAll (s : Store) (stmts : List Stmt) : Store := stmts.foldl exec s

@[simp] theorem execAll_nil (s : Store) : s.execAll [] = s := rfl

@[simp] theorem execAll_cons (s : Store) (st : Stmt) (stmts : List Stmt) :
    s.execAll (st :: stmts) = (s.exec st).execAll stmts := rfl

theorem execAll_append (s : Store) (xs ys : List Stmt) :
    s.execAll (xs ++ ys) = (s.execAll xs).execAll ys := List.foldl_append

/-- The record object of an id: first `_active`, then `_archive`. -/
def ref? (s : Store) (id : String) : Option ℕ := (s.active.get? id).or (s.archive.get? id)

/-- `get`: a copy of the record. -/
def get (s : Store) (id : String) : Option Invitation := (s.ref? id).bind fun r => s.heap[r]?

/-! ## `put`, `update_status`, `sweep_expired` -/

/-- The locked part of `put`. -/
def putStmts (inv : Invitation) : List Stmt := [.new inv]

/-- What `put` queues after releasing the lock. -/
def putMarkers : List Marker := [⟨.put, .active⟩]

/-- The statements that move a record out of `_active`. -/
def moveStmts (id : String) (rec : ℕ) (status : Status) (extra : List (String × ℤ)) :
    List Stmt :=
  [.mark rec status extra, .setArchive id rec, .delActive id]

/-- `update_status`: its result and what it executes under the lock. The archive branch
writes the new status over the old one whatever that was. -/
def updateStatusStmts (s : Store) (id : String) (newStatus : Status)
    (extra : List (String × ℤ)) : Bool × List Stmt :=
  match s.active.get? id with
  | none =>
    match s.archive.get? id with
    | none => (false, [])
    | some rec => (true, [.mark rec newStatus extra, .queue ⟨.update, .archive⟩])
  | some rec =>
    if newStatus ∈ terminalStatuses then
      (true, moveStmts id rec newStatus extra ++
        [.queue ⟨.move, .active⟩, .queue ⟨.put, .archive⟩])
    else (true, [.mark rec newStatus extra, .queue ⟨.update, .active⟩])

/-- The `to_move` list of `sweep_expired`, with the records it will look up. -/
def toMove (s : Store) (now : ℤ) : List (String × ℕ) :=
  s.active.entries.filter fun e => (s.heap[e.2]?).any (Invitation.isExpired now)

/-- What `sweep_expired` executes under the lock. -/
def sweepStmts (s : Store) (now : ℤ) : List Stmt :=
  (s.toMove now).flatMap fun e => moveStmts e.1 e.2 .expired [("expired_at", now)]

/-- What `sweep_expired` queues after releasing the lock. -/
def sweepMarkers (s : Store) (now : ℤ) : List Marker :=
  if s.toMove now = [] then [] else [⟨.move, .active⟩, ⟨.put, .archive⟩]

/-- `put` as one critical section. -/
def put (s : Store) (inv : Invitation) : Store := s.execAll (putStmts inv)

/-- `update_status` as one critical section, with its result. -/
def updateStatus (s : Store) (id : String) (newStatus : Status) (extra : List (String × ℤ)) :
    Bool × Store :=
  ((s.updateStatusStmts id newStatus extra).1,
    s.execAll (s.updateStatusStmts id newStatus extra).2)

/-- `sweep_expired` as one critical section, with the number of moved records. -/
def sweepExpired (s : Store) (now : ℤ) : ℕ × Store :=
  ((s.toMove now).length, s.execAll (s.sweepStmts now))

/-! ## `_load` -/

/-- `merged` in `_load`: the active file, over it the archive file, and the legacy file for
ids in neither. -/
def merged (activeFile archiveFile legacy : Dict String Invitation) : Dict String Invitation :=
  ((Dict.empty.update activeFile).update archiveFile).updateDefault legacy

/-- One round of the loop of `_load` that fills the shards. -/
def loadRecord (s : Store) (e : String × Invitation) : Store :=
  s.add (if e.2.status = .pending then .active else .archive) e.1 e.2

/-- `_load`, where a file that does not exist reads as the empty dictionary. -/
def load (activeFile archiveFile legacy : Dict String Invitation) : Store :=
  (merged activeFile archiveFile legacy).entries.foldl loadRecord empty

end Store
end SrsChatRoom.Server
