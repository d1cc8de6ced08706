import SrsChatRoom.Lib.System
import SrsChatRoom.Server.InvitationInvariant

/-!
# The writer thread of the invitation store

The threads that call the store run their statements one at a time under the lock and queue
their `(op, target)` markers, some under the lock and some after releasing it. The writer
thread never takes the lock: it collects a batch of markers, and for each shard a marker names
it copies the shard's dictionary, serialises the records one by one and replaces the file. All
of this interleaves freely; `step` is one statement of one party.

Only the references are copied by `dict(self._active)`, so a record is serialised as it stands
when its turn comes.
-/

namespace SrsChatRoom.Server.Writer

open Store

/-! ## Operations as threads execute them -/

/-- A call that changes the store. -/
inductive Operation
  | put (inv : Invitation)
  | updateStatus (id : String) (newStatus : Status) (extra : List (String × ℤ))
  | sweepExpired (now : ℤ)

/-- What the call executes under the lock. -/
def Operation.stmts (s : Store) : Operation → List Stmt
  | .put inv => putStmts inv
  | .updateStatus id newStatus extra => (s.updateStatusStmts id newStatus extra).2
  | .sweepExpired now => s.sweepStmts now

/-- What the call queues after releasing the lock. -/
def Operation.markers (s : Store) : Operation → List Marker
  | .put _ => putMarkers
  | .updateStatus _ _ _ => []
  | .sweepExpired now => s.sweepMarkers now

/-- The marker a statement queues. -/
def queued : Stmt → List Marker
  | .queue m => [m]
  | _ => []

/-! ## The system -/

/-- Where `_writer_loop` is. -/
inductive Pc
  /-- at `while self._writer_running` -/
  | test
  /-- collecting `items` -/
  | gather (items : List Marker)
  /-- about to flush these shards -/
  | flush (todo : List Shard)
  /-- in `_flush_to` of `sh`: the records serialised so far, the rest of the snapshot, and the
  shards to flush after this one -/
  | write (sh : Shard) (dumped : Dict String Invitation) (rest : List (String × ℕ))
      (todo : List Shard)
  /-- the thread has ended -/
  | stopped

/-- The process: the store in memory, the statements and markers the holder of the lock still
has to execute, the markers other calls still have to queue, the queue, the two files, the
writer thread and `_writer_running`. -/
structure Process where
  store : Store
  holder : Option (List Stmt × List Marker)
  tails : List (List Marker)
  queue : List Marker
  activeFile : Dict String Invitation
  archiveFile : Dict String Invitation
  writer : Pc
  running : Bool

/-- `__init__` on the files the process finds. -/
def Process.init (activeFile archiveFile legacy : Dict String Invitation) : Process :=
  { store := load activeFile archiveFile legacy
    holder := none, tails := [], queue := []
    activeFile := activeFile, archiveFile := archiveFile
    writer := .test, running := true }

/-- The file of a shard. -/
def Process.file (p : Process) : Shard → Dict String Invitation
  | .active => p.activeFile
  | .archive => p.archiveFile

/-- `os.replace(tmp, path)` -/
def Process.replaceFile (p : Process) (sh : Shard) (d : Dict String Invitation) : Process :=
  match sh with
  | .active => { p with activeFile := d }
  | .archive => { p with archiveFile := d }

/-- The shards a batch makes dirty, in the order in which they are flushed. -/
def dirtyShards (items : List Marker) : List Shard :=
  (if items.any fun m => m.target = .active then [.active] else []) ++
    (if items.any fun m => m.target = .archive then [.archive] else [])

/-- `json.dump` of one item of the snapshot. -/
def dumpItem (heap : List Invitation) (d : Dict String Invitation) (e : String × ℕ) :
    Dict String Invitation :=
  match heap[e.2]? with
  | some inv => d.set e.1 inv
  | none => d

/-- One statement of one party. -/
inductive Action
  /-- a thread takes the lock for a call -/
  | start (op : Operation)
  /-- the holder of the lock executes its next statement -/
  | stmt
  /-- the holder releases the lock -/
  | release
  /-- the `i`-th call that is past its lock queues its next marker -/
  | enqueue (i : ℕ)
  /-- the writer tests `_writer_running` -/
  | test
  /-- the writer takes an item from the queue -/
  | take
  /-- the writer ends the batch: `queue.Empty`, or its window is over -/
  | close
  /-- the writer copies the dictionary of the next dirty shard -/
  | snapshot
  /-- the writer serialises the next record of the snapshot -/
  | dump
  /-- the writer replaces the file -/
  | replace
  /-- writing fails and `_flush_to` returns with the old file in place -/
  | fail
  /-- the batch is flushed -/
  | flushed
  /-- `stop()` -/
  | stop

/-- The next state, when the action is possible. -/
def step (p : Process) : Action → Option Process
  | .start op =>
    match p.holder with
    | none => some { p with holder := some (op.stmts p.store, op.markers p.store) }
    | some _ => none
  | .stmt =>
    match p.holder with
    | some (st :: rest, after) =>
      some { p with
        store := p.store.exec st
        holder := some (rest, after)
        queue := p.queue ++ queued st }
    | _ => none
  | .release =>
    match p.holder with
    | some ([], after) => some { p with holder := none, tails := after :: p.tails }
    | _ => none
  | .enqueue i =>
    match p.tails[i]? with
    | some (m :: ms) => some { p with tails := p.tails.set i ms, queue := p.queue ++ [m] }
    | _ => none
  | .test =>
    match p.writer with
    | .test => some { p with writer := if p.running then .gather [] else .stopped }
    | _ => none
  | .take =>
    match p.writer, p.queue with
    | .gather items, m :: ms => some { p with writer := .gather (items ++ [m]), queue := ms }
    | _, _ => none
  | .close =>
    match p.writer with
    | .gather items => some { p with writer := .flush (dirtyShards items) }
    | _ => none
  | .snapshot =>
    match p.writer with
    | .flush (sh :: todo) =>
      some { p with writer := .write sh Dict.empty (p.store.shard sh).entries todo }
    | _ => none
  | .dump =>
    match p.writer with
    | .write sh d (e :: rest) todo =>
      some { p with writer := .write sh (dumpItem p.store.heap d e) rest todo }
    | _ => none
  | .replace =>
    match p.writer with
    | .write sh d [] todo => some { p.replaceFile sh d with writer := .flush todo }
    | _ => none
  | .fail =>
    match p.writer with
    | .write _ _ _ todo => some { p with writer := .flush todo }
    | _ => none
  | .flushed =>
    match p.writer with
    | .flush [] => some { p with writer := .test }
    | _ => none
  | .stop => some { p with running := false }

/-- Every step, by its action: what it needs and what it changes. -/
inductive Change (p : Process) : Action → Process → Prop
  | start {op} (hholder : p.holder = none) :
    Change p (.start op) { p with holder := some (op.stmts p.store, op.markers p.store) }
  | stmt {st rest after} (hholder : p.holder = some (st :: rest, after)) :
    Change p .stmt { p with
      store := p.store.exec st, holder := some (rest, after), queue := p.queue ++ queued st }
  | release {after} (hholder : p.holder = some ([], after)) :
    Change p .release { p with holder := none, tails := after :: p.tails }
  | enqueue {i m ms} (htail : p.tails[i]? = some (m :: ms)) :
    Change p (.enqueue i) { p with tails := p.tails.set i ms, queue := p.queue ++ [m] }
  | test (hwriter : p.writer = .test) :
    Change p .test { p with writer := if p.running then .gather [] else .stopped }
  | take {items m ms} (hwriter : p.writer = .gather items) (hqueue : p.queue = m :: ms) :
    Change p .take { p with writer := .gather (items ++ [m]), queue := ms }
  | close {items} (hwriter : p.writer = .gather items) :
    Change p .close { p with writer := .flush (dirtyShards items) }
  | snapshot {sh todo} (hwriter : p.writer = .flush (sh :: todo)) :
    Change p .snapshot
      { p with writer := .write sh Dict.empty (p.store.shard sh).entries todo }
  | dump {sh d e rest todo} (hwriter : p.writer = .write sh d (e :: rest) todo) :
    Change p .dump { p with writer := .write sh (dumpItem p.store.heap d e) rest todo }
  | replace {sh d todo} (hwriter : p.writer = .write sh d [] todo) :
    Change p .replace { p.replaceFile sh d with writer := .flush todo }
  | fail {sh d rest todo} (hwriter : p.writer = .write sh d rest todo) :
    Change p .fail { p with writer := .flush todo }
  | flushed (hwriter : p.writer = .flush []) : Change p .flushed { p with writer := .test }
  | stop : Change p .stop { p with running := false }

theorem change_of_step {p q : Process} {a : Action} (h : step p a = some q) : Change p a q := by
  cases a <;> simp only [step] at h
  case stop =>
    cases h
    exact .stop
  all_goals split at h <;> cases h
  -- in the order of the actions
  · exact .start ‹_›
  · exact .stmt ‹_›
  · exact .release ‹_›
  · exact .enqueue ‹_›
  · exact .test ‹_›
  · exact .take ‹_› ‹_›
  · exact .close ‹_›
  · exact .snapshot ‹_›
  · exact .dump ‹_›
  · exact .replace ‹_›
  · exact .fail ‹_›
  · exact .flushed ‹_›

theorem file_replaceFile (p : Process) (sh sh' : Shard) (d : Dict String Invitation) :
    (p.replaceFile sh d).file sh' = if sh = sh' then d else p.file sh' := by
  cases sh <;> cases sh' <;> rfl

@[simp] theorem store_replaceFile (p : Process) (sh : Shard) (d : Dict String Invitation) :
    (p.replaceFile sh d).store = p.store := by
  cases sh <;> rfl

@[simp] theorem holder_replaceFile (p : Process) (sh : Shard) (d : Dict String Invitation) :
    (p.replaceFile sh d).holder = p.holder := by
  cases sh <;> rfl

/-! ## What a statement can change -/

/-- The statement writes to the dictionary of the shard or to a record of it. -/
def Touches (s : Store) (sh : Shard) : Stmt → Prop
  | .new _ => sh = .active
  | .mark rec _ _ => ∃ id, (s.shard sh).get? id = some rec
  | .setArchive _ _ => sh = .archive
  | .delActive _ => sh = .active
  | .queue _ => False

/-- References are valid. -/
def Bounded (s : Store) : Prop :=
  ∀ sh id r, (s.shard sh).get? id = some r → r < s.heap.length

/-- A statement that does not touch a shard leaves its dictionary and its records alone. -/
theorem untouched {s : Store} (hb : Bounded s) {sh : Shard} {st : Stmt}
    (h : ¬ Touches s sh st) :
    (s.exec st).shard sh = s.shard sh ∧
      ∀ id r, (s.shard sh).get? id = some r → (s.exec st).heap[r]? = s.heap[r]? := by
  cases st with
  | new inv =>
    cases sh with
    | active => exact absurd rfl h
    | archive =>
      refine ⟨rfl, fun id r hr => ?_⟩
      exact List.getElem?_append_left (hb .archive id r hr)
  | mark rec status extra =>
    refine ⟨by cases sh <;> rfl, fun id r hr => ?_⟩
    have hne : rec ≠ r := fun he => h ⟨id, he ▸ hr⟩
    exact List.getElem?_modify_ne _ _ hne
  | setArchive id rec =>
    cases sh with
    | active => exact ⟨rfl, fun _ _ _ => rfl⟩
    | archive => exact absurd rfl h
  | delActive id =>
    cases sh with
    | active => exact absurd rfl h
    | archive => exact ⟨rfl, fun _ _ _ => rfl⟩
  | queue m => exact ⟨by cases sh <;> rfl, fun _ _ _ => rfl⟩

/-- The heap only grows. -/
theorem length_heap_exec (s : Store) (st : Stmt) : s.heap.length ≤ (s.exec st).heap.length := by
  cases st <;> simp [Store.exec, Store.add]

/-- What has to hold where a call executes a statement: no id leaves the store, references
stay valid, and for each shard that it touches there is a marker still to come. -/
structure StmtOk (s : Store) (st : Stmt) (later : List Marker) : Prop where
  keeps : ∀ id, s.ref? id ≠ none → (s.exec st).ref? id ≠ none
  bounded : Bounded (s.exec st)
  marked : ∀ sh, Touches s sh st → ∃ m ∈ later, m.target = sh

/-- No record object is in a shard under two ids or in both shards. Calls keep this, even when
an id is used twice. -/
structure Owned (s : Store) : Prop where
  bounded : Bounded s
  inj : ∀ sh sh' {id id' r}, (s.shard sh).get? id = some r → (s.shard sh').get? id' = some r →
    id = id' ∧ sh = sh'

/-- The statements a call still has to execute, run from the state of the store: each is fine
where it executes, and the store they leave is `Owned`. -/
def Safe (after : List Marker) : Store → List Stmt → Prop
  | s, [] => Owned s
  | s, st :: rest => StmtOk s st (rest.flatMap queued ++ after) ∧ Safe after (s.exec st) rest

/-! ## Every call is safe -/

section Calls

variable {s : Store} {id : String} {r : ℕ}

theorem WF.owned (hs : s.WF) : Owned s := by
  refine ⟨fun sh id r h => hs.bound sh h, fun sh sh' id id' r h h' => ?_⟩
  obtain rfl := hs.inj sh sh' h h'
  refine ⟨rfl, ?_⟩
  cases sh <;> cases sh'
  · rfl
  · have := hs.disjoint h
    rw [show s.archive.get? id = some r from h'] at this
    cases this
  · have := hs.disjoint h'
    rw [show s.archive.get? id = some r from h] at this
    cases this
  · rfl

/-- An entry of the active shard after `_active[id] = dict(inv)`. -/
theorem get?_new (inv : Invitation) (sh : Shard) {id' : String} {r' : ℕ}
    (h : ((s.exec (.new inv)).shard sh).get? id' = some r') :
    (s.shard sh).get? id' = some r' ∨ (sh = .active ∧ id' = inv.id ∧ r' = s.heap.length) := by
  cases sh with
  | archive => exact Or.inl h
  | active =>
    have h' : (s.active.set inv.id s.heap.length).get? id' = some r' := h
    rw [Dict.get?_set] at h'
    split at h'
    · next hid => exact Or.inr ⟨rfl, hid.symm, (Option.some.inj h').symm⟩
    · exact Or.inl h'

theorem bounded_new (hb : Bounded s) (inv : Invitation) : Bounded (s.exec (.new inv)) := by
  intro sh id' r' h
  have hlen : (s.exec (.new inv)).heap.length = s.heap.length + 1 := by simp [Store.exec]
  rcases get?_new inv sh h with h | ⟨-, -, rfl⟩
  · have := hb sh id' r' h
    omega
  · omega

theorem owned_new (hs : Owned s) (inv : Invitation) : Owned (s.exec (.new inv)) := by
  refine ⟨bounded_new hs.bounded inv, fun sh sh' id₁ id₂ r' h₁ h₂ => ?_⟩
  rcases get?_new inv sh h₁ with h₁ | ⟨hsh₁, hid₁, hr₁⟩ <;>
    rcases get?_new inv sh' h₂ with h₂ | ⟨hsh₂, hid₂, hr₂⟩
  · exact hs.inj sh sh' h₁ h₂
  · have := hs.bounded sh id₁ r' h₁
    omega
  · have := hs.bounded sh' id₂ r' h₂
    omega
  · exact ⟨hid₁.trans hid₂.symm, hsh₁.trans hsh₂.symm⟩

theorem shard_mark (s : Store) (r : ℕ) (st : Status) (extra : List (String × ℤ)) (sh : Shard) :
    (s.exec (.mark r st extra)).shard sh = s.shard sh := by
  cases sh <;> rfl

theorem bounded_mark (hb : Bounded s) (r : ℕ) (st : Status) (extra : List (String × ℤ)) :
    Bounded (s.exec (.mark r st extra)) := by
  intro sh id' r' h
  rw [shard_mark] at h
  simpa [Store.exec] using hb sh id' r' h

theorem owned_mark (hs : Owned s) (r : ℕ) (st : Status) (extra : List (String × ℤ)) :
    Owned (s.exec (.mark r st extra)) := by
  refine ⟨bounded_mark hs.bounded r st extra, fun sh sh' id₁ id₂ r' h₁ h₂ => ?_⟩
  rw [shard_mark] at h₁ h₂
  exact hs.inj sh sh' h₁ h₂

theorem bounded_setArchive (hb : Bounded s) (hr : r < s.heap.length) :
    Bounded (s.exec (.setArchive id r)) := by
  intro sh id' r' h
  cases sh with
  | active => exact hb .active id' r' h
  | archive =>
    have h' : (s.archive.set id r).get? id' = some r' := h
    rw [Dict.get?_set] at h'
    split at h'
    · exact Option.some.inj h' ▸ hr
    · exact hb .archive id' r' h'

theorem bounded_delActive (hb : Bounded s) : Bounded (s.exec (.delActive id)) := by
  intro sh id' r' h
  cases sh with
  | archive => exact hb .archive id' r' h
  | active =>
    have h' : (s.active.erase id).get? id' = some r' := h
    rw [Dict.get?_erase] at h'
    split at h'
    · cases h'
    · exact hb .active id' r' h'

/-- A move keeps the records apart: the archive gets the one record, which leaves `_active`. -/
theorem owned_move (hs : Owned s) (hact : s.active.get? id = some r) (st : Status)
    (extra : List (String × ℤ)) : Owned (s.execAll (moveStmts id r st extra)) := by
  have hr : r < s.heap.length := hs.bounded .active id r hact
  have hcases : ∀ sh {id' r'},
      ((s.execAll (moveStmts id r st extra)).shard sh).get? id' = some r' →
      (r ≠ r' ∧ (s.shard sh).get? id' = some r') ∨ (sh = .archive ∧ id' = id ∧ r' = r) := by
    intro sh id' r' h
    rcases shard_move_cases sh h with ⟨hne, h⟩ | h
    · refine Or.inl ⟨fun he => hne ?_, h⟩
      exact (hs.inj .active sh hact (he ▸ h)).1
    · exact Or.inr h
  refine ⟨?_, fun sh sh' id₁ id₂ r' h₁ h₂ => ?_⟩
  · exact bounded_delActive (bounded_setArchive (bounded_mark hs.bounded r st extra)
      (by simpa [Store.exec] using hr))
  · rcases hcases sh h₁ with ⟨hne₁, h₁⟩ | ⟨hsh₁, hid₁, hr₁⟩ <;>
      rcases hcases sh' h₂ with ⟨hne₂, h₂⟩ | ⟨hsh₂, hid₂, hr₂⟩
    · exact hs.inj sh sh' h₁ h₂
    · exact absurd hr₂.symm hne₁
    · exact absurd hr₁.symm hne₂
    · exact ⟨hid₁.trans hid₂.symm, hsh₁.trans hsh₂.symm⟩

theorem ref?_ne_none_iff (s : Store) (id : String) :
    s.ref? id ≠ none ↔ ∃ sh r, (s.shard sh).get? id = some r := by
  unfold Store.ref?
  constructor
  · intro h
    rw [ne_eq, Option.or_eq_none_iff, not_and_or] at h
    rcases h with h | h
    · exact ⟨.active, Option.ne_none_iff_exists'.mp h⟩
    · exact ⟨.archive, Option.ne_none_iff_exists'.mp h⟩
  · rintro ⟨sh, r, h⟩ hnone
    obtain ⟨hact, harch⟩ := Option.or_eq_none_iff.mp hnone
    cases sh
    · rw [show s.active.get? id = some r from h] at hact
      cases hact
    · rw [show s.archive.get? id = some r from h] at harch
      cases harch

/-- `put` is safe: it only touches the active shard, and its marker follows. -/
theorem safe_put (hs : Owned s) (inv : Invitation) : Safe putMarkers s (putStmts inv) := by
  refine ⟨⟨fun id' h => ?_, bounded_new hs.bounded inv, fun sh h => ?_⟩, owned_new hs inv⟩
  · unfold Store.ref? at h ⊢
    have hset : (s.exec (.new inv)).active = s.active.set inv.id s.heap.length := rfl
    have harch : (s.exec (.new inv)).archive = s.archive := rfl
    rw [hset, harch, Dict.get?_set]
    by_cases hid : inv.id = id'
    · simp [hid]
    · simpa [hid] using h
  · exact ⟨⟨.put, .active⟩, by simp [putMarkers], h.symm⟩

variable {after : List Marker}

variable {rest : List Stmt}

/-- Overwriting a record of a shard is safe if the rest is and a marker of that shard is still
to come. -/
theorem safe_mark (hs : Owned s) (sh : Shard) (hr : (s.shard sh).get? id = some r) (st : Status)
    (extra : List (String × ℤ)) (hmarker : ∃ m ∈ rest.flatMap queued ++ after, m.target = sh)
    (hrest : Safe after (s.exec (.mark r st extra)) rest) :
    Safe after s (.mark r st extra :: rest) := by
  refine ⟨⟨fun _ h => h, bounded_mark hs.bounded r st extra, ?_⟩, hrest⟩
  rintro sh' ⟨id', hr'⟩
  obtain ⟨-, rfl⟩ := hs.inj sh sh' hr hr'
  exact hmarker

theorem safe_queue (hs : Owned s) (m : Marker)
    (hrest : Safe after s rest) : Safe after s (.queue m :: rest) :=
  ⟨⟨fun _ h => h, hs.bounded, fun _ h => h.elim⟩, hrest⟩

/-- A move is safe if the rest is and markers of both shards are still to come. -/
theorem safe_move (hs : Owned s) (hact : s.active.get? id = some r) (st : Status)
    (extra : List (String × ℤ)) (hmarker : ∀ sh, ∃ m ∈ rest.flatMap queued ++ after, m.target = sh)
    (hrest : Safe after (s.execAll (moveStmts id r st extra)) rest) :
    Safe after s (moveStmts id r st extra ++ rest) := by
  have hr : r < s.heap.length := hs.bounded .active id r hact
  have hb := bounded_mark hs.bounded r st extra
  have hb' : Bounded ((s.exec (.mark r st extra)).exec (.setArchive id r)) :=
    bounded_setArchive hb (by simpa [Store.exec] using hr)
  refine safe_mark hs .active hact st extra (hmarker .active) ?_
  refine ⟨⟨fun id' h => ?_, hb', fun sh _ => hmarker sh⟩, ?_⟩
  · unfold Store.ref? at h ⊢
    have harch : ((s.exec (.mark r st extra)).exec (.setArchive id r)).archive =
      s.archive.set id r := rfl
    rw [harch, Dict.get?_set]
    split
    · simp
    · exact h
  · refine ⟨⟨fun id' h => ?_, bounded_delActive hb', fun sh _ => hmarker sh⟩, hrest⟩
    rw [ref?_ne_none_iff] at h ⊢
    by_cases hid : id = id'
    · -- the moved id is in the archive by now
      refine ⟨.archive, r, ?_⟩
      show (s.archive.set id r).get? id' = some r
      rw [← hid, Dict.get?_set_self]
    · obtain ⟨sh, r', h⟩ := h
      refine ⟨sh, r', ?_⟩
      cases sh with
      | archive => exact h
      | active =>
        show (s.active.erase id).get? id' = some r'
        rw [Dict.get?_erase, if_neg hid]
        exact h

theorem safe_updateStatus (hs : Owned s) (id : String) (st : Status)
    (extra : List (String × ℤ)) : Safe [] s (s.updateStatusStmts id st extra).2 := by
  unfold updateStatusStmts
  split
  · split
    · exact hs
    · next harch =>
      exact safe_mark hs .archive harch st extra ⟨_, List.mem_cons_self, rfl⟩
        (safe_queue (owned_mark hs _ st extra) _ (owned_mark hs _ st extra))
  · next hact =>
    split
    · have hmoved := owned_move hs hact st extra
      refine safe_move hs hact st extra (fun sh => ?_)
        (safe_queue hmoved _ (safe_queue hmoved _ hmoved))
      cases sh
      · exact ⟨⟨.move, .active⟩, by simp [queued], rfl⟩
      · exact ⟨⟨.put, .archive⟩, by simp [queued], rfl⟩
    · exact safe_mark hs .active hact st extra ⟨_, List.mem_cons_self, rfl⟩
        (safe_queue (owned_mark hs _ st extra) _ (owned_mark hs _ st extra))

/-- The moves of `sweep_expired`, by induction on the ids still to move. -/
theorem safe_moves (hafter : ∀ sh, ∃ m ∈ after, m.target = sh) (st : Status)
    (extra : List (String × ℤ)) (l : List (String × ℕ)) (hl : (l.map Prod.fst).Nodup)
    (hs : Owned s) (hact : ∀ e ∈ l, s.active.get? e.1 = some e.2) :
    Safe after s (l.flatMap fun e => moveStmts e.1 e.2 st extra) := by
  induction l generalizing s with
  | nil => exact hs
  | cons e l ih =>
    rw [List.map_cons, List.nodup_cons] at hl
    have he := hact e List.mem_cons_self
    rw [List.flatMap_cons]
    refine safe_move hs he st extra (fun sh => ?_) (ih hl.2 (owned_move hs he st extra) ?_)
    · obtain ⟨m, hm, htarget⟩ := hafter sh
      exact ⟨m, List.mem_append_right _ hm, htarget⟩
    · intro e' he'
      have hne : e.1 ≠ e'.1 := fun h => hl.1 (List.mem_map.mpr ⟨e', he', h.symm⟩)
      rw [execAll_moveStmts]
      simpa [Dict.get?_erase, hne] using hact e' (List.mem_cons_of_mem e he')

theorem safe_sweepExpired (hs : Owned s) (now : ℤ) :
    Safe (s.sweepMarkers now) s (s.sweepStmts now) := by
  unfold sweepMarkers sweepStmts
  split
  · next hnil =>
    rw [hnil]
    exact hs
  · refine safe_moves (fun sh => ?_) .expired _ (s.toMove now) ?_ hs ?_
    · cases sh
      · exact ⟨⟨.move, .active⟩, by simp, rfl⟩
      · exact ⟨⟨.put, .archive⟩, by simp, rfl⟩
    · exact s.active.nodup.sublist (List.filter_sublist.map Prod.fst)
    · intro e he
      exact (Dict.mem_entries_iff s.active e.1 e.2).mp (List.mem_of_mem_filter he)

/-- Every call is safe where it takes the lock. -/
theorem safe_operation (hs : Owned s) (op : Operation) : Safe (op.markers s) s (op.stmts s) := by
  cases op with
  | put inv => exact safe_put hs inv
  | updateStatus id newStatus extra => exact safe_updateStatus hs id newStatus extra
  | sweepExpired now => exact safe_sweepExpired hs now

end Calls

/-- The invariant of the threads that call the store: references are valid, and whoever holds
the lock is safe; with nobody holding it the store is `Owned`. -/
structure CallersOk (p : Process) : Prop where
  bounded : Bounded p.store
  holder : match p.holder with
    | none => Owned p.store
    | some (stmts, after) => Safe after p.store stmts

theorem init_callersOk (activeFile archiveFile legacy : Dict String Invitation) :
    CallersOk (Process.init activeFile archiveFile legacy) := by
  have h : Owned (load activeFile archiveFile legacy) := WF.owned (load_wf _ _ _)
  exact ⟨h.bounded, h⟩

/-- The writer does not change the store, and the holder of the lock stays safe. -/
theorem callersOk_step {p q : Process} {a : Action} (hp : CallersOk p) (hstep : Change p a q) :
    CallersOk q := by
  have hholder := hp.holder
  cases hstep with
  | start h =>
    rw [h] at hholder
    exact ⟨hp.bounded, safe_operation hholder _⟩
  | stmt h =>
    rw [h] at hholder
    exact ⟨hholder.1.bounded, hholder.2⟩
  | release h =>
    rw [h] at hholder
    exact ⟨hp.bounded, hholder⟩
  | replace h =>
    exact ⟨by simpa using hp.bounded, by simpa using hholder⟩
  | _ => exact ⟨hp.bounded, hholder⟩

end SrsChatRoom.Server.Writer
