import SrsChatRoom.Server.InvitationWriter

/-!
# Crashes of the invitation store

A crash leaves the two files as they are, and `_load` reads them. `durable_ids_survive`: an
invitation that was once in one of the files is found after a crash at any later point, as
long as the writer never copies a shard while an invitation of that shard's file has been
moved to the other shard and has not reached the other file.

`_writer_loop` itself does nothing to make this so. It flushes the active shard first, and the
archive after it: when both markers of a move are in one batch, the record leaves the active
file before it is in the archive file (`moved_record_in_no_file`).
-/

namespace SrsChatRoom.Server.Writer

open Store

/-! ## Loading -/

theorem ref?_loadRecord (s : Store) (e : String × Invitation) (id : String) :
    (s.loadRecord e).ref? id ≠ none ↔ id = e.1 ∨ s.ref? id ≠ none := by
  have hset : ∀ d : Dict String ℕ, ∀ r, (d.set e.1 r).get? id ≠ none ↔
      id = e.1 ∨ d.get? id ≠ none := by
    intro d r
    rw [Dict.get?_set]
    by_cases h : e.1 = id
    · simp [h]
    · simp [h, Ne.symm h]
  unfold loadRecord Store.ref? Store.add
  split <;> simp only [ne_eq, Option.or_eq_none_iff, not_and_or] at hset ⊢ <;> rw [hset]
  · tauto
  · tauto

/-- After a load every id of the three files is in the store, and no other. -/
theorem ref?_load (activeFile archiveFile legacy : Dict String Invitation) (id : String) :
    (load activeFile archiveFile legacy).ref? id ≠ none ↔
      id ∈ activeFile.keys ∨ id ∈ archiveFile.keys ∨ id ∈ legacy.keys := by
  have key : ∀ (l : List (String × Invitation)) (s : Store),
      (l.foldl loadRecord s).ref? id ≠ none ↔ id ∈ l.map Prod.fst ∨ s.ref? id ≠ none := by
    intro l
    induction l with
    | nil => simp
    | cons e l ih =>
      intro s
      rw [List.foldl_cons, ih, ref?_loadRecord, List.map_cons, List.mem_cons]
      tauto
  have hmerged : id ∈ (merged activeFile archiveFile legacy).keys ↔
      id ∈ activeFile.keys ∨ id ∈ archiveFile.keys ∨ id ∈ legacy.keys := by
    simp only [Dict.mem_keys_iff, ← Option.ne_none_iff_exists', merged, Dict.get?_updateDefault,
      Dict.get?_update, Dict.get?_empty, ne_eq, Option.or_eq_none_iff]
    tauto
  have hload := key (merged activeFile archiveFile legacy).entries Store.empty
  rw [show (Store.empty.ref? id ≠ none) = False from eq_false (fun h => h rfl), or_false] at hload
  exact hload.trans hmerged

/-- What `get` finds after a load. -/
theorem get_load_isSome (activeFile archiveFile legacy : Dict String Invitation) {id : String}
    (h : (load activeFile archiveFile legacy).ref? id ≠ none) :
    ((load activeFile archiveFile legacy).get id).isSome := by
  obtain ⟨sh, r, hr⟩ := (ref?_ne_none_iff _ id).mp h
  obtain ⟨r', hr'⟩ := Option.ne_none_iff_exists'.mp h
  have hwf := load_wf activeFile archiveFile legacy
  have hlt : r' < (load activeFile archiveFile legacy).heap.length := by
    unfold Store.ref? at hr'
    rcases Option.or_eq_some_iff.mp hr' with hact | ⟨-, harch⟩
    · exact hwf.bound .active hact
    · exact hwf.bound .archive harch
  unfold Store.get
  rw [hr', Option.bind_some, List.getElem?_eq_getElem hlt]
  rfl

/-! ## The condition and the invariant -/

/-- The invitation is in the active file or in the archive file. -/
def Process.Durable (p : Process) (id : String) : Prop := ∃ sh, id ∈ (p.file sh).keys

/-- When the writer copies a shard, every invitation in the shard's file that is by now in the
other shard is still in this one or is already in the other file. -/
def MovedAreArchived (p : Process) : Action → Prop
  | .snapshot =>
    match p.writer with
    | .flush (sh :: _) =>
      ∀ id ∈ (p.file sh).keys, id ∈ (p.store.shard sh.other).keys →
        id ∈ (p.store.shard sh).keys ∨ id ∈ (p.file sh.other).keys
    | _ => True
  | _ => True

instance (p : Process) (a : Action) : Decidable (MovedAreArchived p a) := by
  unfold MovedAreArchived
  split
  · split <;> infer_instance
  · infer_instance

/-- Every id of a file is in the store; and while a file is being written, every id it has is
among the records dumped, the records still to dump, or the ids of the other file. -/
structure FilesOk (p : Process) : Prop where
  known : ∀ sh, ∀ id ∈ (p.file sh).keys, p.store.ref? id ≠ none
  writing : ∀ sh d rest todo, p.writer = .write sh d rest todo →
    (∀ id ∈ d.keys, p.store.ref? id ≠ none) ∧
    (∀ e ∈ rest, e.2 < p.store.heap.length ∧ p.store.ref? e.1 ≠ none) ∧
    ∀ id ∈ (p.file sh).keys, id ∈ d.keys ∨ id ∈ rest.map Prod.fst ∨ id ∈ (p.file sh.other).keys

theorem init_filesOk (activeFile archiveFile legacy : Dict String Invitation) :
    FilesOk (Process.init activeFile archiveFile legacy) := by
  refine ⟨fun sh id h => ?_, fun sh d rest todo h => ?_⟩
  · rw [Process.init, ref?_load]
    cases sh
    · exact Or.inl h
    · exact Or.inr (Or.inl h)
  · cases h

theorem mem_keys_dumpItem {heap : List Invitation} {e : String × ℕ} (he : e.2 < heap.length)
    (d : Dict String Invitation) (id : String) :
    id ∈ (dumpItem heap d e).keys ↔ id = e.1 ∨ id ∈ d.keys := by
  rw [dumpItem, List.getElem?_eq_getElem he]
  exact Dict.mem_keys_set d e.1 id _

/-- Every guarded step keeps the files consistent with the store. -/
theorem filesOk_step {p q : Process} {a : Action} (hc : CallersOk p) (hp : FilesOk p)
    (hguard : MovedAreArchived p a) (hstep : Change p a q) : FilesOk q := by
  have hcs := hc.holder
  cases hstep with
  | stmt h =>
    rw [h] at hcs
    refine ⟨fun sh id hid => hcs.1.keeps id (hp.known sh id hid), fun sh d rest todo hw => ?_⟩
    obtain ⟨hd, hrest, hfile⟩ := hp.writing sh d rest todo hw
    refine ⟨fun id hid => hcs.1.keeps id (hd id hid), fun e he => ?_, hfile⟩
    have hlen := length_heap_exec p.store ‹Stmt›
    exact ⟨Nat.lt_of_lt_of_le (hrest e he).1 hlen, hcs.1.keeps e.1 (hrest e he).2⟩
  | @snapshot sh₀ todo h =>
    refine ⟨hp.known, fun sh' d' rest' todo' hw => ?_⟩
    obtain ⟨rfl, rfl, rfl, rfl⟩ := Pc.write.inj hw
    refine ⟨fun id hid => ?_, fun e he => ?_, fun id hid => ?_⟩
    · rw [Dict.mem_keys_iff] at hid
      obtain ⟨v, hv⟩ := hid
      cases hv
    · have hget := (Dict.mem_entries_iff (p.store.shard _) e.1 e.2).mp he
      exact ⟨hc.bounded _ e.1 e.2 hget, (ref?_ne_none_iff p.store e.1).mpr ⟨_, e.2, hget⟩⟩
    · -- the guard speaks about the ids that have left the shard
      simp only [MovedAreArchived, h] at hguard
      obtain ⟨sh, r, hr⟩ := (ref?_ne_none_iff p.store id).mp (hp.known _ id hid)
      have hmem : id ∈ (p.store.shard sh).keys := (Dict.mem_keys_iff _ id).mpr ⟨r, hr⟩
      rcases sh₀.eq_or_eq_other sh with rfl | rfl
      · exact Or.inr (Or.inl hmem)
      · exact Or.inr (hguard id hid hmem)
  | dump h =>
    refine ⟨hp.known, fun sh' d' rest' todo' hw => ?_⟩
    obtain ⟨rfl, rfl, rfl, rfl⟩ := Pc.write.inj hw
    obtain ⟨hd, hrest, hfile⟩ := hp.writing _ _ _ _ h
    have he := hrest _ List.mem_cons_self
    refine ⟨fun id hid => ?_, fun e' he' => hrest e' (List.mem_cons_of_mem _ he'),
      fun id hid => ?_⟩
    · rcases (mem_keys_dumpItem he.1 _ id).mp hid with rfl | hid
      · exact he.2
      · exact hd id hid
    · rw [mem_keys_dumpItem he.1]
      have := hfile id hid
      rw [List.map_cons, List.mem_cons] at this
      tauto
  | @replace sh₀ d todo h =>
    obtain ⟨hd, -, -⟩ := hp.writing _ _ _ _ h
    refine ⟨fun sh id hid => ?_, fun sh' d' rest' todo' hw => by cases hw⟩
    change id ∈ ((p.replaceFile sh₀ d).file sh).keys at hid
    rw [file_replaceFile] at hid
    show (p.replaceFile sh₀ d).store.ref? id ≠ none
    rw [store_replaceFile]
    split at hid
    · exact hd id hid
    · exact hp.known sh id hid
  | start h => exact ⟨hp.known, hp.writing⟩
  | release h => exact ⟨hp.known, hp.writing⟩
  | enqueue h => exact ⟨hp.known, hp.writing⟩
  | stop => exact ⟨hp.known, hp.writing⟩
  | test h =>
    refine ⟨hp.known, fun sh d rest todo hw => ?_⟩
    simp only at hw
    split at hw <;> cases hw
  | take h => exact ⟨hp.known, fun _ _ _ _ hw => by cases hw⟩
  | close h => exact ⟨hp.known, fun _ _ _ _ hw => by cases hw⟩
  | fail h => exact ⟨hp.known, fun _ _ _ _ hw => by cases hw⟩
  | flushed h => exact ⟨hp.known, fun _ _ _ _ hw => by cases hw⟩

/-- What is in one of the files stays in one of the files over every guarded step. -/
theorem durable_step {p q : Process} {a : Action} (hp : FilesOk p) (hstep : Change p a q)
    {id : String} (h : p.Durable id) : q.Durable id := by
  cases hstep with
  | @replace sh d todo hw =>
    obtain ⟨-, -, hfile⟩ := hp.writing _ _ _ _ hw
    have hmem : ∀ sh', id ∈ ((p.replaceFile sh d).file sh').keys →
        Process.Durable { p.replaceFile sh d with writer := .flush todo } id :=
      fun sh' hid => ⟨sh', hid⟩
    -- either the record was dumped, or it is in the file that is not replaced
    have hother : id ∈ (p.file sh.other).keys →
        Process.Durable { p.replaceFile sh d with writer := .flush todo } id := by
      intro hid
      refine hmem sh.other ?_
      rwa [file_replaceFile, if_neg sh.ne_other]
    obtain ⟨sh', hid⟩ := h
    by_cases hsh : sh = sh'
    · subst hsh
      rcases hfile id hid with hd | hnil | hid
      · exact hmem sh (by rwa [file_replaceFile, if_pos rfl])
      · simp at hnil
      · exact hother hid
    · have : sh' = sh.other := (sh.eq_or_eq_other sh').resolve_left (Ne.symm hsh)
      exact hother (this ▸ hid)
  | _ => exact h

/-! ## Whole runs -/

/-- An invitation that is durable at some point of a run is found by `_load` on the files a
crash leaves at any later point, whatever a legacy file holds then. -/
theorem durable_ids_survive (activeFile archiveFile legacy : Dict String Invitation)
    {p q : Process}
    (hp : System.Reaches step MovedAreArchived (Process.init activeFile archiveFile legacy) p)
    (hq : System.Reaches step MovedAreArchived p q) {id : String} (hid : p.Durable id)
    (legacy' : Dict String Invitation) :
    ((load q.activeFile q.archiveFile legacy').get id).isSome := by
  have hinv : ∀ s a t, CallersOk s ∧ FilesOk s → MovedAreArchived s a → step s a = some t →
      CallersOk t ∧ FilesOk t := by
    intro s a t hs hguard ha
    have hstep := change_of_step ha
    exact ⟨callersOk_step hs.1 hstep, filesOk_step hs.1 hs.2 hguard hstep⟩
  have hpinv := hp.invariant hinv
    ⟨init_callersOk activeFile archiveFile legacy, init_filesOk activeFile archiveFile legacy⟩
  obtain ⟨sh, hmem⟩ := hq.stable (P := fun s => s.Durable id) hinv
    (fun s a t hs hd _ ha => durable_step hs.2 (change_of_step ha) hd) hpinv hid
  apply get_load_isSome
  rw [ref?_load]
  cases sh
  · exact Or.inl hmem
  · exact Or.inr (Or.inl hmem)

/-- An invitation to `bob`. -/
def invitation (id : String) : Invitation :=
  { id := id, roomId := "room", inviterId := "alice", inviteeId := "bob"
    status := .pending, expiresAt := 100 }

/-- A file with one invitation. -/
def fileWith (id : String) : Dict String Invitation := Dict.empty.set id (invitation id)

/-- `put` of an invitation, up to its marker. -/
def putCall (id : String) : List Action :=
  [.start (.put (invitation id)), .stmt, .release, .enqueue 0]

/-- `update_status(id, "accepted", accepted_at=50)` from taking the lock to releasing it. -/
def acceptCall (id : String) : List Action :=
  [.start (.updateStatus id .accepted [("accepted_at", 50)]), .stmt, .stmt, .stmt, .stmt,
    .stmt, .release]

/-- A run that meets the condition: `inv_1` is accepted after the writer has copied the active
shard for the batch of `inv_2`, so it reaches the archive file before it leaves the other. -/
theorem durable_ids_survive_accept :
    ∃ q : Process, "inv_1" ∉ q.activeFile.keys ∧
      ((load q.activeFile q.archiveFile Dict.empty).get "inv_1").isSome := by
  obtain ⟨q, hq, -, hobs⟩ := System.reaches_of_observe step MovedAreArchived
    (Process.init (fileWith "inv_1") Dict.empty Dict.empty)
    (putCall "inv_2" ++ acceptCall "inv_2" ++
      [.test, .take, .take, .take, .close, .snapshot, .dump, .replace] ++ acceptCall "inv_1" ++
      [.snapshot, .dump, .dump, .replace, .flushed, .test, .take, .take, .close, .snapshot,
        .replace])
    (fun q => decide ("inv_1" ∈ q.activeFile.keys)) (b := false) (by decide)
  exact ⟨q, of_decide_eq_false hobs, durable_ids_survive (fileWith "inv_1") Dict.empty Dict.empty
    Relation.ReflTransGen.refl hq ⟨.active, by decide⟩ Dict.empty⟩

/-- The claim fails in the run in which both markers of a move are in one batch: the active
file is replaced first, and a crash now loses the invitation. -/
theorem moved_record_in_no_file :
    ∃ p q : Process, p = Process.init (fileWith "inv_1") Dict.empty Dict.empty ∧
      System.Reaches step System.anyStep p q ∧ p.Durable "inv_1" ∧
      (load q.activeFile q.archiveFile Dict.empty).ref? "inv_1" = none := by
  obtain ⟨q, hq, -, hobs⟩ := System.reaches_of_observe step System.anyStep
    (Process.init (fileWith "inv_1") Dict.empty Dict.empty)
    (acceptCall "inv_1" ++ [.test, .take, .take, .close, .snapshot, .replace])
    (fun q => (load q.activeFile q.archiveFile Dict.empty).ref? "inv_1") (b := none) (by decide)
  exact ⟨_, q, rfl, hq, ⟨.active, by decide⟩, hobs⟩

end SrsChatRoom.Server.Writer
