import SrsChatRoom.Server.InvitationStore

/-!
# The invariant of the invitation store

Between two critical sections the two shards split the records by status, no id is in both
and no two ids share a record object. Every operation keeps this (`WF.put`, `WF.move`,
`WF.sweep`), loading establishes it (`load_wf`), and an archived record stays what it is as
long as `update_status` does not find it in the archive (`Archived.put`, `Archived.move`,
`Archived.sweep`).
-/

namespace SrsChatRoom.Server

/-! ## Well-formed stores -/

namespace Store

/-- What the shards of a store satisfy between two critical sections: references are valid,
no two ids share a record, no id is in both shards, and the shards split by status. -/
structure WF (s : Store) : Prop where
  bound : ∀ sh {id r}, (s.shard sh).get? id = some r → r < s.heap.length
  inj : ∀ sh sh' {id id' r}, (s.shard sh).get? id = some r → (s.shard sh').get? id' = some r →
    id = id'
  disjoint : ∀ {id r}, s.active.get? id = some r → s.archive.get? id = none
  split : ∀ sh {id r inv}, (s.shard sh).get? id = some r → s.heap[r]? = some inv →
    (inv.status = .pending ↔ sh = .active)

/-- The status that `get` shows for an id. -/
def statusOf (s : Store) (id : String) : Option Status := (s.get id).map Invitation.status

/-- `id` is archived with status `st`. -/
def Archived (s : Store) (id : String) (st : Status) : Prop :=
  ∃ r inv, s.archive.get? id = some r ∧ s.heap[r]? = some inv ∧ inv.status = st

theorem empty_wf : WF empty := by
  have hnone : ∀ sh id, (empty.shard sh).get? id = none := by
    intro sh id
    cases sh <;> rfl
  constructor
  · intro sh id r h
    rw [hnone] at h
    cases h
  · intro sh sh' id id' r h
    rw [hnone] at h
    cases h
  · intro id r h
    cases h
  · intro sh id r inv h
    rw [hnone] at h
    cases h

variable {s : Store} {st : Status}

/-- In a well-formed store a terminal status is the status of an archived record. -/
theorem WF.archived_iff (hs : s.WF) (id : String)
    (hst : st ≠ .pending) : s.statusOf id = some st ↔ s.Archived id st := by
  unfold statusOf get ref? Archived
  cases ha : s.active.get? id with
  | some r =>
    have hlt := hs.bound .active ha
    have hp := (hs.split .active ha (List.getElem?_eq_getElem hlt)).mpr rfl
    simp [hs.disjoint ha, List.getElem?_eq_getElem hlt, hp, Ne.symm hst]
  | none =>
    cases hr : s.archive.get? id with
    | none => simp
    | some r => simp

variable {id : String}

theorem Archived.keep {t : Store} (h : s.Archived id st)
    (harch : ∀ r, s.archive.get? id = some r → t.archive.get? id = some r)
    (hheap : ∀ r inv, s.archive.get? id = some r → s.heap[r]? = some inv →
      t.heap[r]? = some inv) : t.Archived id st := by
  obtain ⟨r, inv, hr, hinv, hst⟩ := h
  exact ⟨r, inv, harch r hr, hheap r inv hr hinv, hst⟩

/-! ### New records -/

/-- A new record under a new id, in the shard its status belongs to, keeps the store well
formed. -/
theorem WF.add (hs : s.WF) (sh : Shard) {inv : Invitation}
    (hfresh : s.ref? id = none) (hsh : inv.status = .pending ↔ sh = .active) :
    (s.add sh id inv).WF := by
  have hnone : ∀ sh', (s.shard sh').get? id = none := by
    obtain ⟨hact, harch⟩ := Option.or_eq_none_iff.mp hfresh
    rintro (- | -)
    · exact hact
    · exact harch
  -- an entry of the new store is an old entry, or the new record in its shard
  have hcases : ∀ sh' {id' r}, ((s.add sh id inv).shard sh').get? id' = some r →
      ((s.shard sh').get? id' = some r ∧ id' ≠ id) ∨
        (sh' = sh ∧ id' = id ∧ r = s.heap.length) := by
    intro sh' id' r h
    rw [shard_add] at h
    by_cases hid : id = id'
    · subst hid
      by_cases he : sh = sh'
      · rw [if_pos he, Dict.get?_set_self, Option.some.injEq] at h
        exact Or.inr ⟨he.symm, rfl, h.symm⟩
      · rw [if_neg he, hnone] at h
        cases h
    · left
      refine ⟨?_, Ne.symm hid⟩
      by_cases he : sh = sh'
      · rwa [if_pos he, Dict.get?_set_ne _ hid] at h
      · rwa [if_neg he] at h
  constructor
  · intro sh' id' r h
    rw [heap_add, List.length_append, List.length_singleton]
    rcases hcases _ h with ⟨h, -⟩ | ⟨-, -, rfl⟩
    · have := hs.bound _ h
      omega
    · omega
  · intro sh₁ sh₂ id₁ id₂ r h₁ h₂
    rcases hcases _ h₁ with ⟨h₁, -⟩ | ⟨-, hid₁, hr₁⟩ <;>
      rcases hcases _ h₂ with ⟨h₂, -⟩ | ⟨-, hid₂, hr₂⟩
    · exact hs.inj _ _ h₁ h₂
    · have := hs.bound _ h₁
      omega
    · have := hs.bound _ h₂
      omega
    · rw [hid₁, hid₂]
  · intro id' r h
    cases hn : ((s.add sh id inv).shard .archive).get? id' with
    | none => exact hn
    | some r' =>
      rcases hcases .active h with ⟨h, hne⟩ | ⟨hsh', hid, -⟩ <;>
        rcases hcases .archive hn with ⟨hn, hne'⟩ | ⟨hsh'', hid', -⟩
      · have := hs.disjoint h
        rw [show s.archive.get? id' = some r' from hn] at this
        cases this
      · exact absurd hid' hne
      · exact absurd hid hne'
      · rw [← hsh'] at hsh''
        cases hsh''
  · intro sh' id' r x h hx
    rw [heap_add] at hx
    rcases hcases _ h with ⟨h, -⟩ | ⟨rfl, -, rfl⟩
    · rw [List.getElem?_append_left (hs.bound _ h)] at hx
      exact hs.split _ h hx
    · rw [List.getElem?_concat_length, Option.some.injEq] at hx
      exact hx ▸ hsh

/-- A new pending record under a new id keeps the store well formed. -/
theorem WF.put (hs : s.WF) {inv : Invitation} (hfresh : s.ref? inv.id = none)
    (hp : inv.status = .pending) : (s.put inv).WF :=
  hs.add .active hfresh (by simp [hp])

theorem Archived.put (hs : s.WF) (h : s.Archived id st)
    (inv : Invitation) : (s.put inv).Archived id st := by
  refine h.keep (fun r hr => hr) fun r x hr hx => ?_
  show (s.heap ++ [inv])[r]? = some x
  rwa [List.getElem?_append_left (hs.bound .archive hr)]

/-- A loaded store is well formed, whatever the files held. -/
theorem load_wf (activeFile archiveFile legacy : Dict String Invitation) :
    (load activeFile archiveFile legacy).WF := by
  have key : ∀ (l : List (String × Invitation)) (t : Store), (l.map Prod.fst).Nodup → t.WF →
      (∀ e ∈ l, t.ref? e.1 = none) → (l.foldl loadRecord t).WF := by
    intro l
    induction l with
    | nil => exact fun t _ ht _ => ht
    | cons e l ih =>
      intro t hnd ht hfresh
      rw [List.map_cons, List.nodup_cons] at hnd
      refine ih _ hnd.2 (ht.add _ (hfresh e (by simp)) ?_) ?_
      · by_cases hp : e.2.status = .pending <;> simp [hp]
      · intro e' he'
        have hne : e.1 ≠ e'.1 := fun h => hnd.1 (List.mem_map.mpr ⟨e', he', h.symm⟩)
        obtain ⟨hact, harch⟩ := Option.or_eq_none_iff.mp (hfresh e' (by simp [he']))
        unfold loadRecord ref? Store.add
        split <;> simp [Dict.get?_set_ne _ hne, hact, harch]
  exact key _ empty (Dict.nodup _) empty_wf (fun e _ => rfl)

/-! ### Moving a record to the archive -/

/-- The store after the three statements of a move. -/
theorem execAll_moveStmts (s : Store) (id : String) (r : ℕ) (st : Status)
    (extra : List (String × ℤ)) :
    s.execAll (moveStmts id r st extra) =
      ⟨s.heap.modify r (Invitation.mark st extra), s.active.erase id, s.archive.set id r⟩ := rfl

section Move

variable {s : Store} {id : String} {r : ℕ} {st : Status} {extra : List (String × ℤ)}

variable {id' : String}

theorem shard_move_cases (sh : Shard) {r' : ℕ}
    (h : ((s.execAll (moveStmts id r st extra)).shard sh).get? id' = some r') :
    (id ≠ id' ∧ (s.shard sh).get? id' = some r') ∨ (sh = .archive ∧ id' = id ∧ r' = r) := by
  rw [execAll_moveStmts] at h
  by_cases hid : id = id'
  · subst hid
    cases sh <;> simp_all [shard, Dict.get?_erase]
  · refine Or.inl ⟨hid, ?_⟩
    cases sh <;> simpa [shard, Dict.get?_erase, Dict.get?_set, hid] using h

/-- A move writes to no record but its own. -/
theorem WF.getElem?_move (hs : s.WF) (hact : s.active.get? id = some r) (sh : Shard)
    {r' : ℕ} (h : (s.shard sh).get? id' = some r') (hne : id ≠ id') :
    (s.execAll (moveStmts id r st extra)).heap[r']? = s.heap[r']? := by
  have hr : r ≠ r' := fun he => hne (hs.inj .active _ hact (he ▸ h))
  rw [execAll_moveStmts, List.getElem?_modify_ne _ _ hr]

/-- Moving a record with a terminal status keeps the store well formed. -/
theorem WF.move (hs : s.WF) (hact : s.active.get? id = some r) (hst : st ≠ .pending) :
    (s.execAll (moveStmts id r st extra)).WF := by
  have hid : ∀ {sh id' r'}, ((s.execAll (moveStmts id r st extra)).shard sh).get? id' = some r' →
      ∃ sh₀, (s.shard sh₀).get? id' = some r' := by
    intro sh id' r' h
    rcases shard_move_cases _ h with ⟨-, h⟩ | ⟨-, rfl, rfl⟩
    · exact ⟨sh, h⟩
    · exact ⟨.active, hact⟩
  constructor
  · intro sh id' r' h
    obtain ⟨sh₀, h₀⟩ := hid h
    rw [execAll_moveStmts, List.length_modify]
    exact hs.bound _ h₀
  · intro sh₁ sh₂ id₁ id₂ r' h₁ h₂
    obtain ⟨sh₁', h₁'⟩ := hid h₁
    obtain ⟨sh₂', h₂'⟩ := hid h₂
    exact hs.inj _ _ h₁' h₂'
  · intro id' r' h
    rcases shard_move_cases .active h with ⟨hne, h⟩ | ⟨hsh, -, -⟩
    · rw [execAll_moveStmts]
      simpa [Dict.get?_set, hne] using hs.disjoint h
    · cases hsh
  · intro sh id' r' x h hx
    rcases shard_move_cases _ h with ⟨hne, h⟩ | ⟨rfl, rfl, rfl⟩
    · rw [hs.getElem?_move hact _ h hne] at hx
      exact hs.split _ h hx
    · rw [execAll_moveStmts, List.getElem?_modify_eq, Option.map_eq_map,
        Option.map_eq_some_iff] at hx
      obtain ⟨y, -, rfl⟩ := hx
      simp [hst]

/-- A move leaves every archived record as it was. -/
theorem Archived.move {st' : Status} (h : s.Archived id' st') (hs : s.WF)
    (hact : s.active.get? id = some r) :
    (s.execAll (moveStmts id r st extra)).Archived id' st' := by
  have hne : id ≠ id' := by
    rintro rfl
    obtain ⟨r', -, hr', -⟩ := h
    rw [hs.disjoint hact] at hr'
    cases hr'
  refine h.keep (fun r' hr' => ?_) fun r' x hr' hx => ?_
  · rw [execAll_moveStmts]
    simpa [Dict.get?_set, hne] using hr'
  · rwa [hs.getElem?_move hact .archive hr' hne]

/-- A move archives its record with the new status. -/
theorem archived_move (hs : s.WF) (hact : s.active.get? id = some r) :
    (s.execAll (moveStmts id r st extra)).Archived id st := by
  have hlt := hs.bound .active hact
  refine ⟨r, s.heap[r].mark st extra, ?_, ?_, rfl⟩
  · simp [execAll_moveStmts]
  · simp [execAll_moveStmts, List.getElem?_eq_getElem hlt]

end Move

/-! ### `update_status` and `sweep_expired` -/

/-- What a terminal `update_status` does when its id is not archived: it fails and changes
nothing, or it moves the pending record. -/
theorem updateStatus_cases (s : Store) (extra : List (String × ℤ))
    (hst : st ≠ .pending) (hlive : s.archive.get? id = none) :
    s.updateStatus id st extra = (false, s) ∨
      ∃ r, s.active.get? id = some r ∧
        s.updateStatus id st extra = (true, s.execAll (moveStmts id r st extra)) := by
  unfold updateStatus updateStatusStmts
  cases hact : s.active.get? id with
  | none => simp [hlive]
  | some r =>
    refine Or.inr ⟨r, rfl, ?_⟩
    simp only [(mem_terminalStatuses st).mpr hst, if_true, execAll_append]
    rfl

/-- The moves of `sweep_expired`, taken one by one. -/
theorem sweep_induction {P : Store → Prop} (now : ℤ)
    (hmove : ∀ (s : Store) (id : String) (r : ℕ), s.WF → P s → s.active.get? id = some r →
    P (s.execAll (moveStmts id r .expired [("expired_at", now)]))) (hs : s.WF) (hp : P s) :
    (s.sweepExpired now).2.WF ∧ P (s.sweepExpired now).2 := by
  have key : ∀ (l : List (String × ℕ)) (t : Store), (l.map Prod.fst).Nodup → t.WF → P t →
      (∀ e ∈ l, t.active.get? e.1 = some e.2) →
      (t.execAll (l.flatMap fun e => moveStmts e.1 e.2 .expired [("expired_at", now)])).WF ∧
      P (t.execAll (l.flatMap fun e => moveStmts e.1 e.2 .expired [("expired_at", now)])) := by
    intro l
    induction l with
    | nil => exact fun t _ ht hpt _ => ⟨ht, hpt⟩
    | cons e l ih =>
      intro t hnd ht hpt hact
      rw [List.map_cons, List.nodup_cons] at hnd
      have he := hact e (by simp)
      rw [List.flatMap_cons, execAll_append]
      refine ih _ hnd.2 (ht.move he (by simp)) (hmove t e.1 e.2 ht hpt he) ?_
      intro e' he'
      have hne : e.1 ≠ e'.1 := fun h => hnd.1 (List.mem_map.mpr ⟨e', he', h.symm⟩)
      rw [execAll_moveStmts]
      simpa [Dict.get?_erase, hne] using hact e' (by simp [he'])
  refine key (s.toMove now) s ?_ hs hp ?_
  · exact s.active.nodup.sublist (List.filter_sublist.map Prod.fst)
  · intro e he
    exact (Dict.mem_entries_iff s.active e.1 e.2).mp (List.mem_of_mem_filter he)

theorem WF.sweep (hs : s.WF) (now : ℤ) : (s.sweepExpired now).2.WF :=
  (sweep_induction (P := fun _ => True) now (fun _ _ _ _ _ _ => trivial) hs trivial).1

theorem Archived.sweep (h : s.Archived id st)
    (hs : s.WF) (now : ℤ) : (s.sweepExpired now).2.Archived id st :=
  (sweep_induction (P := fun t => t.Archived id st) now
    (fun _ _ _ ht hp hact => hp.move ht hact) hs h).2

end Store
end SrsChatRoom.Server
