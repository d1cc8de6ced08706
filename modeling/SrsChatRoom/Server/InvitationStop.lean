import SrsChatRoom.Server.InvitationWriter

/-!
# Stopping the writer thread

`stop()` clears `_writer_running` and joins the writer thread; its docstring says that the
thread drains the queue before it exits. `_writer_loop` tests the flag between two batches and
does not look at the queue there, so the markers that are queued at that moment are never
taken (`stop_leaves_marker`). `stopped_files_agree`: if no marker is queued or still to be
queued when the loop reads the cleared flag, the files end up equal to the maps.

The argument is per shard: either the writer still has to learn of a change of the shard (a
marker of it is pending somewhere, `Owed`), or the shard's file, or the file that is being
written, is the shard as it stands (`Fresh`).
-/

namespace SrsChatRoom.Server.Writer

open Store

/-! ## Shards as dictionaries of records -/

/-- The record a shard shows under an id. -/
def view (s : Store) (sh : Shard) (id : String) : Option Invitation :=
  ((s.shard sh).get? id).bind fun r => s.heap[r]?

/-- Serialising a list of items: what each id has afterwards. -/
theorem get?_foldl_dumpItem (heap : List Invitation) (l : List (String × ℕ))
    (hl : (l.map Prod.fst).Nodup) (d : Dict String Invitation) (id : String) :
    (l.foldl (dumpItem heap) d).get? id =
      ((Dict.lookup id l).bind fun r => heap[r]?).or (d.get? id) := by
  induction l generalizing d with
  | nil => rfl
  | cons e l ih =>
    obtain ⟨k, r⟩ := e
    rw [List.map_cons, List.nodup_cons] at hl
    rw [List.foldl_cons, ih hl.2, dumpItem]
    by_cases hk : k = id
    · subst hk
      have hnone : Dict.lookup k l = none := (Dict.lookup_eq_none_iff k l).mpr hl.1
      cases hr : heap[r]? <;> simp [Dict.lookup, hnone, hr]
    · cases hr : heap[r]? <;> simp [Dict.lookup, hk, Dict.get?_set]

/-- A snapshot that is serialised at once is the shard. -/
theorem get?_dump_shard (s : Store) (sh : Shard) (id : String) :
    ((s.shard sh).entries.foldl (dumpItem s.heap) Dict.empty).get? id = view s sh id := by
  rw [get?_foldl_dumpItem s.heap _ (s.shard sh).nodup, Dict.get?_empty, Option.or_none]
  rfl

/-- Serialising depends only on the records of the items. -/
theorem foldl_dumpItem_congr {heap heap' : List Invitation} {l : List (String × ℕ)}
    (h : ∀ e ∈ l, heap'[e.2]? = heap[e.2]?) (d : Dict String Invitation) :
    l.foldl (dumpItem heap') d = l.foldl (dumpItem heap) d := by
  induction l generalizing d with
  | nil => rfl
  | cons e l ih =>
    have he : dumpItem heap' d e = dumpItem heap d e := by
      rw [dumpItem, dumpItem, h e List.mem_cons_self]
    rw [List.foldl_cons, List.foldl_cons, he]
    exact ih (fun e' he' => h e' (List.mem_cons_of_mem e he')) _

/-! ## Markers on their way -/

/-- The markers that are queued or still to be queued by a call that has started. -/
def Process.pendingMarkers (p : Process) : List Marker :=
  (match p.holder with
    | none => []
    | some (stmts, after) => stmts.flatMap queued ++ after) ++ p.tails.flatten ++ p.queue

/-- A marker of the shard is pending, or the writer has taken one and not yet copied the
shard for it. -/
def Process.Owed (p : Process) (sh : Shard) : Prop :=
  (∃ m ∈ p.pendingMarkers, m.target = sh) ∨
    match p.writer with
    | .gather items => ∃ m ∈ items, m.target = sh
    | .flush todo => sh ∈ todo
    | .write _ _ _ todo => sh ∈ todo
    | _ => False

/-- The part of the snapshot of a shard that is still to be serialised. -/
def Process.snapshotRest (p : Process) (sh : Shard) : List (String × ℕ) :=
  match p.writer with
  | .write sh' _ rest _ => if sh' = sh then rest else []
  | _ => []

/-- The file of a shard once the write in progress is over. -/
def Process.comingFile (p : Process) (sh : Shard) : Dict String Invitation :=
  match p.writer with
  | .write sh' d rest _ => if sh' = sh then rest.foldl (dumpItem p.store.heap) d else p.file sh
  | _ => p.file sh

/-- The coming file of the shard is the shard as it stands, and what is left of a snapshot of
it is still in it. -/
structure Process.Fresh (p : Process) (sh : Shard) : Prop where
  rest : ∀ e ∈ p.snapshotRest sh, (p.store.shard sh).get? e.1 = some e.2
  agrees : ∀ id, (p.comingFile sh).get? id = view p.store sh id

theorem mem_dirtyShards {items : List Marker} {m : Marker} (hm : m ∈ items) :
    m.target ∈ dirtyShards items := by
  have hany : ∀ sh, m.target = sh → (items.any fun m => m.target = sh) = true :=
    fun sh h => List.any_eq_true.mpr ⟨m, hm, by simpa using h⟩
  unfold dirtyShards
  cases h : m.target with
  | active => simp [hany .active h]
  | archive => simp [hany .archive h]

/-! ## The condition and the invariant -/

/-- What the claim grants: no call starts after `stop()`, and every write succeeds. -/
def Graceful (p : Process) : Action → Prop
  | .start _ => p.running = true
  | .fail => False
  | _ => True

/-- When the loop reads the cleared flag, no marker is queued or still to be queued. -/
def Drained (p : Process) : Action → Prop
  | .test => p.running = false → p.pendingMarkers = []
  | _ => True

/-- Both conditions. -/
def GracefulDrained (p : Process) (a : Action) : Prop := Graceful p a ∧ Drained p a

instance (p : Process) (a : Action) : Decidable (Graceful p a) := by
  cases a <;> unfold Graceful <;> infer_instance

instance (p : Process) (a : Action) : Decidable (Drained p a) := by
  cases a <;> unfold Drained <;> infer_instance

instance (p : Process) (a : Action) : Decidable (GracefulDrained p a) :=
  inferInstanceAs (Decidable (_ ∧ _))

/-- Each shard is owed a flush or fresh, and nothing is pending once the writer has ended. -/
structure FlushInv (p : Process) : Prop where
  shards : ∀ sh, p.Owed sh ∨ p.Fresh sh
  ended : p.writer = .stopped → p.running = false ∧ p.pendingMarkers = []

variable {p q : Process}

/-- A step that leaves the writer alone and loses no pending marker keeps what is owed. -/
theorem owed_mono {sh : Shard} (h : p.Owed sh) (hwriter : q.writer = p.writer)
    (hpending : ∀ m ∈ p.pendingMarkers, m ∈ q.pendingMarkers) : q.Owed sh := by
  unfold Process.Owed at h ⊢
  rw [hwriter]
  refine h.imp_left ?_
  rintro ⟨m, hm, htarget⟩
  exact ⟨m, hpending m hm, htarget⟩

/-- A step that leaves the writer, the files, the shard and its records alone keeps a shard
fresh. -/
theorem fresh_mono {sh : Shard} (h : p.Fresh sh) (hwriter : q.writer = p.writer)
    (hfile : q.file sh = p.file sh) (hshard : q.store.shard sh = p.store.shard sh)
    (hheap : ∀ id r, (p.store.shard sh).get? id = some r →
      q.store.heap[r]? = p.store.heap[r]?) : q.Fresh sh := by
  have hview : ∀ id, view q.store sh id = view p.store sh id := by
    intro id
    unfold view
    rw [hshard]
    cases hr : (p.store.shard sh).get? id with
    | none => rfl
    | some r => exact hheap id r hr
  have hrest : q.snapshotRest sh = p.snapshotRest sh := by
    unfold Process.snapshotRest
    rw [hwriter]
  have hcoming : q.comingFile sh = p.comingFile sh := by
    have hcongr := h.rest
    unfold Process.snapshotRest at hcongr
    unfold Process.comingFile
    rw [hwriter, hfile]
    cases hw : p.writer with
    | write sh' d rest todo =>
      rw [hw] at hcongr
      dsimp only at hcongr ⊢
      split
      · next hsh =>
        rw [if_pos hsh] at hcongr
        exact foldl_dumpItem_congr (fun e he => hheap e.1 e.2 (hcongr e he)) d
      · rfl
    | _ => rfl
  refine ⟨fun e he => ?_, fun id => ?_⟩
  · rw [hshard]
    exact h.rest e (hrest ▸ he)
  · rw [hcoming, hview]
    exact h.agrees id

/-- Every step that meets both conditions keeps the invariant. -/
theorem flushInv_step {a : Action} (hc : CallersOk p) (hp : FlushInv p)
    (hguard : GracefulDrained p a) (hstep : Change p a q) : FlushInv q := by
  have hcs := hc.holder
  -- a step that changes neither the writer nor the store
  have hquiet : ∀ q : Process, q.writer = p.writer → q.store = p.store →
      (∀ sh, q.file sh = p.file sh) → (∀ m ∈ p.pendingMarkers, m ∈ q.pendingMarkers) →
      (p.writer = .stopped → q.running = false ∧ q.pendingMarkers = []) → FlushInv q := by
    intro q hwriter hstore hfile hpending hended
    refine ⟨fun sh => ?_, fun h => hended (hwriter ▸ h)⟩
    refine (hp.shards sh).imp (fun h => owed_mono h hwriter hpending) fun h => ?_
    exact fresh_mono h hwriter (hfile sh) (by rw [hstore]) (fun _ _ _ => by rw [hstore])
  -- a step of the writer that leaves every coming file as it is
  have hwrites : ∀ q : Process, q.store = p.store →
      (∀ sh, q.comingFile sh = p.comingFile sh) →
      (∀ sh, ∀ e ∈ q.snapshotRest sh, e ∈ p.snapshotRest sh) →
      (∀ sh, p.Owed sh → q.Owed sh) →
      (q.writer = .stopped → q.running = false ∧ q.pendingMarkers = []) → FlushInv q := by
    intro q hstore hcoming hrest howed hended
    refine ⟨fun sh => (hp.shards sh).imp (howed sh) fun h => ⟨fun e he => ?_, fun id => ?_⟩, hended⟩
    · rw [hstore]
      exact h.rest e (hrest sh e he)
    · rw [hstore, hcoming]
      exact h.agrees id
  cases hstep with
  | @start op h =>
    refine hquiet _ rfl rfl (fun sh => by cases sh <;> rfl) (fun m hm => ?_) fun hw => ?_
    · simp only [Process.pendingMarkers, h, List.nil_append, List.append_assoc,
        List.mem_append] at hm ⊢
      tauto
    · have hrun : p.running = true := hguard.1
      rw [(hp.ended hw).1] at hrun
      cases hrun
  | @stmt st rest after h =>
    have hpending : ∀ m, m ∈ Process.pendingMarkers { p with
        store := p.store.exec st, holder := some (rest, after), queue := p.queue ++ queued st } ↔
        m ∈ p.pendingMarkers := by
      intro m
      simp only [Process.pendingMarkers, h, List.flatMap_cons, List.mem_append]
      tauto
    refine ⟨fun sh => ?_, fun hw => ⟨(hp.ended hw).1, ?_⟩⟩
    · rw [h] at hcs
      by_cases htouch : Touches p.store sh st
      · -- the marker of a shard that is written to is still to come
        obtain ⟨m, hm, htarget⟩ := hcs.1.marked sh htouch
        refine Or.inl (Or.inl ⟨m, ?_, htarget⟩)
        simp only [Process.pendingMarkers, List.mem_append] at hm ⊢
        tauto
      · obtain ⟨hshard, hheap⟩ := untouched hc.bounded htouch
        rcases hp.shards sh with howed | hfresh
        · exact Or.inl (owed_mono howed rfl fun m hm => (hpending m).mpr hm)
        · exact Or.inr (fresh_mono hfresh rfl (by cases sh <;> rfl) hshard hheap)
    · refine List.eq_nil_iff_forall_not_mem.mpr fun m hm => ?_
      rw [hpending, (hp.ended hw).2] at hm
      cases hm
  | @release after h =>
    have hpending : ∀ m, m ∈ Process.pendingMarkers
        { p with holder := none, tails := after :: p.tails } ↔ m ∈ p.pendingMarkers := by
      intro m
      simp [Process.pendingMarkers, h]
    refine hquiet _ rfl rfl (fun sh => by cases sh <;> rfl) (fun m => (hpending m).mpr)
      fun hw => ⟨(hp.ended hw).1, ?_⟩
    refine List.eq_nil_iff_forall_not_mem.mpr fun m hm => ?_
    rw [hpending, (hp.ended hw).2] at hm
    cases hm
  | @enqueue i m ms h =>
    have hmem : m ∈ p.pendingMarkers := by
      have : m ∈ p.tails.flatten :=
        List.mem_flatten.mpr ⟨m :: ms, List.mem_of_getElem? h, List.mem_cons_self⟩
      simp [Process.pendingMarkers, this]
    refine hquiet _ rfl rfl (fun sh => by cases sh <;> rfl) (fun m' hm' => ?_) fun hw => ?_
    · have htails : m' ∈ p.tails.flatten → m' = m ∨ m' ∈ (p.tails.set i ms).flatten := by
        intro hflat
        obtain ⟨tail, htail, hm'⟩ := List.mem_flatten.mp hflat
        obtain ⟨j, hj⟩ := List.mem_iff_getElem?.mp htail
        by_cases hij : i = j
        · rw [← hij, h] at hj
          rw [← Option.some.inj hj, List.mem_cons] at hm'
          refine hm'.imp_right fun hms => List.mem_flatten.mpr ⟨ms, ?_, hms⟩
          exact List.mem_iff_getElem?.mpr
            ⟨i, List.getElem?_set_self (List.getElem?_eq_some_iff.mp h).1⟩
        · refine Or.inr (List.mem_flatten.mpr ⟨tail, ?_, hm'⟩)
          exact List.mem_iff_getElem?.mpr ⟨j, (List.getElem?_set_ne hij).trans hj⟩
      simp only [Process.pendingMarkers, List.mem_append, List.mem_singleton] at hm' ⊢
      tauto
    · rw [(hp.ended hw).2] at hmem
      cases hmem
  | stop =>
    refine hquiet _ rfl rfl (fun sh => by cases sh <;> rfl) (fun m hm => hm) fun hw => ?_
    exact ⟨rfl, (hp.ended hw).2⟩
  | fail h => exact hguard.1.elim
  | test h =>
    have howed : ∀ sh, p.Owed sh → ∃ m ∈ p.pendingMarkers, m.target = sh := by
      intro sh ho
      rw [Process.Owed, h] at ho
      exact ho.resolve_right (fun h => h)
    have hidle : ∀ w, (w = .gather [] ∨ w = .stopped) →
        (∀ sh, Process.comingFile { p with writer := w } sh = p.comingFile sh) ∧
        ∀ sh, ∀ e ∈ Process.snapshotRest { p with writer := w } sh, e ∈ p.snapshotRest sh := by
      rintro w (rfl | rfl) <;> refine ⟨fun sh => ?_, fun sh e he => ?_⟩
      all_goals first | cases he | (simp only [Process.comingFile, h]; cases sh <;> rfl)
    split
    · obtain ⟨hcoming, hrest⟩ := hidle _ (Or.inl rfl)
      exact hwrites _ rfl hcoming hrest (fun sh ho => Or.inl (howed sh ho)) fun hw => by cases hw
    · next hrun =>
      -- nothing is pending when the loop reads the cleared flag
      have hnil := hguard.2 (by simpa using hrun)
      obtain ⟨hcoming, hrest⟩ := hidle _ (Or.inr rfl)
      refine hwrites _ rfl hcoming hrest (fun sh ho => ?_) fun _ => ⟨by simpa using hrun, hnil⟩
      obtain ⟨m, hm, -⟩ := howed sh ho
      rw [hnil] at hm
      cases hm
  | @take items m ms h hqueue =>
    refine hwrites _ rfl (fun sh => ?_) (fun sh e he => by cases he) (fun sh ho => ?_)
      fun hw => by cases hw
    · simp only [Process.comingFile, h]
      cases sh <;> rfl
    · simp only [Process.Owed, Process.pendingMarkers, h, hqueue, List.mem_append, List.mem_cons,
        List.not_mem_nil, or_false] at ho ⊢
      rcases ho with ⟨m', (hm' | rfl | hm'), htarget⟩ | ⟨m', hm', htarget⟩
      · exact Or.inl ⟨m', Or.inl hm', htarget⟩
      · exact Or.inr ⟨m', Or.inr rfl, htarget⟩
      · exact Or.inl ⟨m', Or.inr hm', htarget⟩
      · exact Or.inr ⟨m', Or.inl hm', htarget⟩
  | @close items h =>
    refine hwrites _ rfl (fun sh => ?_) (fun sh e he => by cases he) (fun sh ho => ?_)
      fun hw => by cases hw
    · simp only [Process.comingFile, h]
      cases sh <;> rfl
    · rw [Process.Owed, h] at ho
      refine ho.imp_right ?_
      rintro ⟨m, hm, rfl⟩
      exact mem_dirtyShards hm
  | @snapshot sh₀ todo h =>
    refine ⟨fun sh => ?_, fun hw => by cases hw⟩
    by_cases hsh : sh₀ = sh
    · -- the shard being copied is fresh from here on
      subst hsh
      refine Or.inr ⟨fun e he => ?_, fun id => ?_⟩
      · simp only [Process.snapshotRest, if_true] at he
        exact (Dict.mem_entries_iff (p.store.shard sh₀) e.1 e.2).mp he
      · simp only [Process.comingFile, if_true]
        exact get?_dump_shard p.store sh₀ id
    · refine (hp.shards sh).imp (fun ho => ?_) fun hf => ⟨fun e he => ?_, fun id => ?_⟩
      · rw [Process.Owed, h] at ho
        refine ho.imp_right fun hmem => ?_
        exact (List.mem_cons.mp hmem).resolve_left (Ne.symm hsh)
      · simp only [Process.snapshotRest, if_neg hsh] at he
        cases he
      · have hagrees := hf.agrees id
        simp only [Process.comingFile, h, if_neg hsh] at hagrees ⊢
        rw [← hagrees]
        cases sh <;> rfl
  | @dump sh₀ d e rest todo h =>
    refine hwrites _ rfl (fun sh => ?_) (fun sh e' he' => ?_) (fun sh ho => ?_)
      fun hw => by cases hw
    · simp only [Process.comingFile, h]
      split
      · rfl
      · cases sh <;> rfl
    · simp only [Process.snapshotRest, h] at he' ⊢
      split
      · next hsh =>
        rw [if_pos hsh] at he'
        exact List.mem_cons_of_mem e he'
      · next hsh =>
        rw [if_neg hsh] at he'
        exact he'
    · rw [Process.Owed, h] at ho
      exact ho
  | @replace sh₀ d todo h =>
    refine hwrites _ (store_replaceFile p sh₀ d) (fun sh => ?_) (fun sh e he => by cases he)
      (fun sh ho => ?_) fun hw => by cases hw
    · simp only [Process.comingFile, h]
      exact file_replaceFile p sh₀ sh d
    · rw [Process.Owed, h] at ho
      refine ho.imp_left ?_
      cases sh₀ <;> exact id
  | flushed h =>
    refine hwrites _ rfl (fun sh => ?_) (fun sh e he => by cases he) (fun sh ho => ?_)
      fun hw => by cases hw
    · simp only [Process.comingFile, h]
      cases sh <;> rfl
    · rw [Process.Owed, h] at ho
      exact Or.inl (ho.resolve_right (by simp))

/-! ## Whole runs -/

/-- Over every interleaving in which no marker is queued or still to be queued when the loop
reads the cleared flag, no call starts after `stop()` and every write succeeds: once the writer
thread has ended, both files equal the maps. The files are taken to equal the maps at the
start, that is, `_load` found nothing to sort into the other shard and no legacy file. -/
theorem stopped_files_agree (activeFile archiveFile legacy : Dict String Invitation)
    (hload : ∀ sh id, ((Process.init activeFile archiveFile legacy).file sh).get? id =
      view (load activeFile archiveFile legacy) sh id)
    {p : Process}
    (hp : System.Reaches step GracefulDrained (Process.init activeFile archiveFile legacy) p)
    (hended : p.writer = .stopped) (sh : Shard) (id : String) :
    (p.file sh).get? id = view p.store sh id := by
  have hinit : FlushInv (Process.init activeFile archiveFile legacy) :=
    ⟨fun sh => Or.inr ⟨fun e he => (by cases he), fun id => hload sh id⟩, fun h => (by cases h)⟩
  have hinv := hp.invariant (I := fun s => CallersOk s ∧ FlushInv s)
    (fun s a t hs hguard ha => ⟨callersOk_step hs.1 (change_of_step ha),
      flushInv_step hs.1 hs.2 hguard (change_of_step ha)⟩)
    ⟨init_callersOk activeFile archiveFile legacy, hinit⟩
  obtain ⟨-, hflush⟩ := hinv
  rcases hflush.shards sh with howed | hfresh
  · rw [Process.Owed, hended, (hflush.ended hended).2] at howed
    obtain ⟨m, hm, -⟩ := howed.resolve_right (fun h => h)
    cases hm
  · have hagrees := hfresh.agrees id
    rwa [Process.comingFile, hended] at hagrees

/-- An invitation to `bob`. -/
def pendingInvitation : Invitation :=
  { id := "inv_1", roomId := "room", inviterId := "alice", inviteeId := "bob"
    status := .pending, expiresAt := 100 }

/-- The start with no files. -/
def Process.fresh : Process := Process.init Dict.empty Dict.empty Dict.empty

/-- `put` with its marker. -/
def putPending : List Action := [.start (.put pendingInvitation), .stmt, .release, .enqueue 0]

/-- A run that meets the condition: the marker of the `put` is taken before `stop()`. -/
theorem stopped_files_agree_put :
    ∃ p : Process, p.writer = .stopped ∧
      (p.activeFile.get? "inv_1").map Invitation.status = some .pending ∧
      p.activeFile.get? "inv_1" = view p.store .active "inv_1" := by
  obtain ⟨p, hp, -, hobs⟩ := System.reaches_of_observe step GracefulDrained Process.fresh
    (putPending ++ [.test, .take, .close, .snapshot, .stop, .dump, .replace, .flushed, .test])
    (fun p => (p.writer matches .stopped,
      (p.activeFile.get? "inv_1").map Invitation.status)) (b := (true, some .pending)) (by decide)
  obtain ⟨hstopped, hstatus⟩ := Prod.mk.inj hobs
  have hended : p.writer = .stopped := by
    split at hstopped
    · assumption
    · cases hstopped
  have hload : ∀ sh id, (Process.fresh.file sh).get? id =
      view (load Dict.empty Dict.empty Dict.empty) sh id := by
    intro sh id
    cases sh <;> rfl
  exact ⟨p, hended, hstatus,
    stopped_files_agree Dict.empty Dict.empty Dict.empty hload hp hended .active "inv_1"⟩

/-- The claim fails when `stop()` comes while a marker is queued: the loop ends without taking
it, and the new invitation is in no file. -/
theorem stop_leaves_marker :
    ∃ p : Process, System.Reaches step Graceful Process.fresh p ∧ p.writer = .stopped ∧
      p.activeFile.get? "inv_1" ≠ view p.store .active "inv_1" := by
  obtain ⟨p, hp, -, hobs⟩ := System.reaches_of_observe step Graceful Process.fresh
    ([.test] ++ putPending.take 3 ++ [.close, .enqueue 0, .flushed, .stop, .test])
    (fun p => (p.writer matches .stopped, (p.activeFile.get? "inv_1").isSome,
      (view p.store .active "inv_1").isSome)) (b := (true, false, true)) (by decide)
  obtain ⟨hstopped, hobs⟩ := Prod.mk.inj hobs
  obtain ⟨hfile, hmap⟩ := Prod.mk.inj hobs
  refine ⟨p, hp, ?_, fun h => ?_⟩
  · split at hstopped
    · assumption
    · cases hstopped
  · rw [h, hmap] at hfile
    cases hfile

end SrsChatRoom.Server.Writer
