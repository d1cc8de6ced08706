import SrsChatRoom.Server.TranslationHandlers
import SrsChatRoom.Server.TranslationIndexes

/-!
# Runs of the translation handlers

The invariant: a process that was not told to stop belongs to the active request at its place.
-/

namespace SrsChatRoom.Server.Translation

open TranslationManager

/-! ## The manager -/

section Manager

variable {m : TranslationManager} {id : String} {ref : ℕ}

/-- A known id is the id of the object it stands for. -/
def TranslationManager.OwnIds (m : TranslationManager) : Prop :=
  ∀ id ref, m.requestsById.get? id = some ref →
    ∃ request, m.heap[ref]? = some request ∧ request.requestId = id

/-- The id is known, its request is active and at its place. -/
def TranslationManager.Serves (m : TranslationManager) (id : String) (p : Place) : Prop :=
  ∃ ref request, m.requestsById.get? id = some ref ∧ m.at? p = some ref ∧
    m.heap[ref]? = some request ∧ request.status = .active

theorem find_eq (h : m.OwnIds) (hid : m.requestsById.get? id = some ref) :
    ∃ request, m.find id = some (ref, request) ∧ request.requestId = id := by
  obtain ⟨request, hget, hown⟩ := h id ref hid
  refine ⟨request, ?_, hown⟩
  rw [find, hid, Option.bind_some, hget]
  rfl

theorem isSome_getRequest (h : m.OwnIds) :
    (m.getRequest id).isSome = (m.requestsById.get? id).isSome := by
  cases hid : m.requestsById.get? id with
  | none =>
    rw [getRequest, find, hid]
    rfl
  | some ref =>
    obtain ⟨request, hfind, -⟩ := find_eq h hid
    rw [getRequest, hfind]
    rfl

variable {f : TranslationRequest → TranslationRequest}

/-- A change of one object that keeps its id. -/
theorem ownIds_modify (h : m.OwnIds) (ref : ℕ)
    (hf : ∀ request, (f request).requestId = request.requestId) : (m.modify ref f).OwnIds := by
  intro id ref' hid
  obtain ⟨request, hget, hown⟩ := h id ref' hid
  show ∃ request, (m.heap.modify ref f)[ref']? = some request ∧ _
  rw [List.getElem?_modify, hget]
  refine ⟨if ref = ref' then f request else request, rfl, ?_⟩
  split
  · rw [hf, hown]
  · exact hown

variable {p : Place}

/-- A change of one object that does not stop it, or of an object other than that of the id. -/
theorem serves_modify (h : m.Serves id p) (ref : ℕ)
    (hf : m.requestsById.get? id = some ref → ∀ request, (f request).status = request.status) :
    (m.modify ref f).Serves id p := by
  obtain ⟨ref', request, hid, hp, hget, hactive⟩ := h
  refine ⟨ref', if ref = ref' then f request else request, hid, hp, ?_, ?_⟩
  · show (m.heap.modify ref f)[ref']? = _
    rw [List.getElem?_modify, hget]
    rfl
  · by_cases href : ref = ref'
    · rw [if_pos href, hf (href ▸ hid), hactive]
    · rw [if_neg href, hactive]

theorem stopTranslationByRequest_cases (m : TranslationManager) (id : String) :
    (m.stopTranslationByRequest id).2 = m ∨
    ∃ ref request, m.find id = some (ref, request) ∧ (m.stopTranslationByRequest id).2 =
      m.modify ref fun request => { request with status := .stopped } := by
  unfold stopTranslationByRequest updateStatus getRequest
  cases hfind : m.find id with
  | none =>
    left
    rfl
  | some found =>
    right
    exact ⟨found.1, found.2, rfl, rfl⟩

variable {request : TranslationRequest}

theorem requestsById_of_find (h : m.find id = some (ref, request)) :
    m.requestsById.get? id = some ref := by
  obtain ⟨ref', hid, hget⟩ := Option.bind_eq_some_iff.mp h
  obtain ⟨request', -, hpair⟩ := Option.map_eq_some_iff.mp hget
  rw [hid, (Prod.mk.inj hpair).1]

/-- Stopping a request keeps every other one in service. -/
theorem serves_stop {id' : String} (h : m.OwnIds) (hserves : m.Serves id p)
    (hne : id ≠ id') : (m.stopTranslationByRequest id').2.Serves id p := by
  rcases stopTranslationByRequest_cases m id' with hsame | hstops
  · rw [hsame]
    exact hserves
  · obtain ⟨ref, request, hfind, hstops⟩ := hstops
    rw [hstops]
    apply serves_modify hserves
    intro hid
    exfalso
    apply hne
    -- the two ids would stand for one object
    obtain ⟨own, hget, hown⟩ := h id ref hid
    obtain ⟨own', hget', hown'⟩ := h id' ref (requestsById_of_find hfind)
    rw [hget] at hget'
    rw [← hown, ← hown', Option.some.inj hget']

theorem ownIds_stop (h : m.OwnIds) (id : String) : (m.stopTranslationByRequest id).2.OwnIds := by
  rcases stopTranslationByRequest_cases m id with hsame | hstops
  · rw [hsame]
    exact h
  · obtain ⟨ref, request, -, hstops⟩ := hstops
    rw [hstops]
    exact ownIds_modify h ref fun request => rfl

/-- What `stop_translation_by_request` does not change. -/
theorem requestsById_stop (m : TranslationManager) (id id' : String) :
    (m.stopTranslationByRequest id).2.requestsById.get? id' = m.requestsById.get? id' := by
  rcases stopTranslationByRequest_cases m id with hsame | hstops
  · rw [hsame]
  · obtain ⟨ref, request, -, hstops⟩ := hstops
    rw [hstops]
    rfl

/-- A request that is added to a place that is not busy. -/
theorem addRequest_free (hactive : request.status = .active)
    (hfree : (m.existing request.place).map TranslationRequest.status ≠ some .active) :
    (m.addRequest request).2.Serves request.requestId request.place := by
  obtain ⟨-, hids, hplaces⟩ := added_eq m request hfree
  refine ⟨m.heap.length, request, ?_, ?_, ?_, hactive⟩
  · rw [hids, if_pos rfl]
  · rw [hplaces, if_pos rfl]
  · rw [addRequest, if_neg hfree]
    show (m.heap ++ [request])[m.heap.length]? = some request
    rw [List.getElem?_append_right (Nat.le_refl _), Nat.sub_self]
    rfl

/-- A place that is not busy has no request in service. -/
theorem not_serves_of_free
    (hfree : (m.existing p).map TranslationRequest.status ≠ some .active) : ¬ m.Serves id p := by
  intro hserves
  obtain ⟨ref, request, -, hp, hget, hactive⟩ := hserves
  apply hfree
  rw [existing, hp, Option.bind_some, hget, Option.map_some, hactive]

/-- A request that is added leaves those in service at other places. -/
theorem serves_addRequest (hserves : m.Serves id p)
    (hid : request.requestId ≠ id) : (m.addRequest request).2.Serves id p := by
  by_cases hbusy : (m.existing request.place).map TranslationRequest.status = some .active
  · rw [addRequest, if_pos hbusy]
    exact hserves
  · have hplace : request.place ≠ p := by
      intro hsame
      exact not_serves_of_free (hsame ▸ hbusy) hserves
    obtain ⟨-, hids, hplaces⟩ := added_eq m request hbusy
    obtain ⟨ref, old, hold, hp, hget, hactive⟩ := hserves
    refine ⟨ref, old, ?_, ?_, ?_, hactive⟩
    · rw [hids, if_neg hid, hold]
    · rw [hplaces, if_neg hplace, hp]
    · rw [addRequest, if_neg hbusy]
      show (m.heap ++ [request])[ref]? = some old
      rw [List.getElem?_append_left (List.getElem?_eq_some_iff.mp hget).1, hget]

theorem ownIds_addRequest (h : m.OwnIds) (request : TranslationRequest) :
    (m.addRequest request).2.OwnIds := by
  by_cases hbusy : (m.existing request.place).map TranslationRequest.status = some .active
  · rw [addRequest, if_pos hbusy]
    exact h
  · obtain ⟨-, hids, -⟩ := added_eq m request hbusy
    have hheap : (m.addRequest request).2.heap = m.heap ++ [request] := by
      rw [addRequest, if_neg hbusy]
    intro id ref hid
    rw [hids] at hid
    rw [hheap]
    split at hid
    · next hown =>
      cases hid
      refine ⟨request, ?_, hown⟩
      rw [List.getElem?_append_right (Nat.le_refl _), Nat.sub_self]
      rfl
    · obtain ⟨old, hget, hown⟩ := h id ref hid
      refine ⟨old, ?_, hown⟩
      rw [List.getElem?_append_left (List.getElem?_eq_some_iff.mp hget).1, hget]

/-- An id that no object has is not known. -/
theorem requestsById_of_fresh (h : m.OwnIds)
    (hfresh : ∀ request ∈ m.heap, request.requestId ≠ id) : m.requestsById.get? id = none := by
  rw [Option.eq_none_iff_forall_ne_some]
  intro ref hid
  obtain ⟨request, hget, hown⟩ := h id ref hid
  exact hfresh request (List.mem_of_getElem? hget) hown

/-- A request that is added is known by its id. -/
theorem getRequest_addRequest_free
    (hfree : (m.existing request.place).map TranslationRequest.status ≠ some .active) :
    (m.addRequest request).2.getRequest request.requestId = some request := by
  obtain ⟨-, hids, -⟩ := added_eq m request hfree
  have hget : (m.addRequest request).2.heap[m.heap.length]? = some request := by
    rw [addRequest, if_neg hfree]
    show (m.heap ++ [request])[m.heap.length]? = some request
    rw [List.getElem?_append_right (Nat.le_refl _), Nat.sub_self]
    rfl
  rw [getRequest, find, hids, if_pos rfl, Option.bind_some, hget]
  rfl

/-- A request that is refused leaves its id unknown. -/
theorem getRequest_addRequest_busy (h : m.OwnIds)
    (hfresh : ∀ other ∈ m.heap, other.requestId ≠ request.requestId)
    (hbusy : (m.existing request.place).map TranslationRequest.status = some .active) :
    (m.addRequest request).2.getRequest request.requestId = none := by
  rw [addRequest, if_pos hbusy]
  have hknown : (m.getRequest request.requestId).isSome
      = (m.requestsById.get? request.requestId).isSome := isSome_getRequest h
  rw [requestsById_of_fresh h hfresh] at hknown
  exact Option.isNone_iff_eq_none.mp (by rw [← Option.not_isSome, hknown]; rfl)

/-- Known ids stay known. -/
theorem known_addRequest (request : TranslationRequest) (hknown : (m.requestsById.get? id).isSome) :
    ((m.addRequest request).2.requestsById.get? id).isSome := by
  by_cases hbusy : (m.existing request.place).map TranslationRequest.status = some .active
  · rw [addRequest, if_pos hbusy]
    exact hknown
  · obtain ⟨-, hids, -⟩ := added_eq m request hbusy
    rw [hids]
    split
    · rfl
    · exact hknown

/-- A handler that finds no request does not find its place busy. -/
theorem free_of_getRequestBySource {roomId sourceUser toLang : String}
    (hnone : m.getRequestBySource roomId sourceUser toLang = none) :
    (m.existing ⟨roomId, sourceUser, toLang⟩).map TranslationRequest.status ≠ some .active := by
  intro hbusy
  obtain ⟨request, hrequest, hactive⟩ := Option.map_eq_some_iff.mp hbusy
  obtain ⟨ref, hp, hget⟩ := Option.bind_eq_some_iff.mp hrequest
  unfold getRequestBySource at hnone
  by_cases hlang : toLang = ""
  · -- without a language the active request would be found among those of the row
    rw [if_neg (not_not_intro hlang)] at hnone
    have hrow : m.requests.at? roomId sourceUser toLang = some ref := hp
    rw [NestedDict.at?_eq_row] at hrow
    obtain ⟨langs, hlangs, hentry⟩ := Option.bind_eq_some_iff.mp hrow
    rw [hlangs, Option.bind_some, List.find?_eq_none] at hnone
    refine hnone (ref, request) (List.mem_filterMap.mpr ⟨(toLang, ref), ?_, ?_⟩) ?_
    · exact (Dict.mem_entries_iff langs toLang ref).mpr hentry
    · show (m.heap[ref]?).map _ = _
      rw [hget]
      rfl
    · exact decide_eq_true hactive
  · rw [if_pos hlang, hp, Option.bind_some, hget] at hnone
    cases hnone

end Manager

/-! ## The invariant -/

/-- A process that was not told to stop is in the table, and its request is in service. -/
structure Inv (w : World) : Prop where
  ownIds : w.manager.OwnIds
  backed : ∀ p ∈ w.running, p.told = false →
    w.processes.get? p.pid = some p.requestId ∧ w.manager.Serves p.requestId p.place
  one : ∀ place, w.untold place ≤ 1

section Steps

variable {w : World}

/-- A place that is not busy has no process that was not told to stop. -/
theorem untold_of_free (h : Inv w) {place : Place} (hfree : ¬ Busy w place) :
    w.untold place = 0 := by
  rw [World.untold, List.countP_eq_zero]
  intro p hp hcount
  rw [Bool.and_eq_true, decide_eq_true_iff, Bool.not_eq_true'] at hcount
  have hserves := (h.backed p hp hcount.2).2
  rw [hcount.1] at hserves
  exact not_serves_of_free hfree hserves

/-- A process is told to stop or stays as it is. -/
theorem tell_eq_self {requestId : String} {p : Process} (h : (w.tell requestId p).told = false) :
    w.tell requestId p = p ∧ w.processes.get? p.pid ≠ some requestId := by
  unfold World.tell at h ⊢
  split at h
  · cases h
  · next hother => exact ⟨if_neg hother, hother⟩

theorem inv_stopRequest (h : Inv w) (requestId : String) : Inv (w.stopRequest requestId) := by
  refine ⟨ownIds_stop h.ownIds requestId, ?_, ?_⟩
  · intro q hq huntold
    obtain ⟨p, hp, hpq⟩ := List.mem_map.mp hq
    rw [← hpq] at huntold ⊢
    obtain ⟨hself, hother⟩ := tell_eq_self huntold
    rw [hself] at huntold ⊢
    obtain ⟨htable, hserves⟩ := h.backed p hp huntold
    have hne : p.requestId ≠ requestId := by
      intro hsame
      exact hother (hsame ▸ htable)
    constructor
    · show (w.processes.filter fun _ rid => rid ≠ requestId).get? p.pid = _
      rw [Dict.get?_filter, htable, Option.filter_eq_some_iff]
      exact ⟨rfl, decide_eq_true hne⟩
    · exact serves_stop h.ownIds hserves hne
  · intro place
    show (w.running.map (w.tell requestId)).countP _ ≤ 1
    rw [List.countP_map]
    refine Nat.le_trans (List.countP_mono_left ?_) (h.one place)
    intro p hp hcount
    rw [Function.comp_apply, Bool.and_eq_true, Bool.not_eq_true'] at hcount
    rw [(tell_eq_self hcount.2).1] at hcount
    rw [Bool.and_eq_true, Bool.not_eq_true']
    exact hcount

/-- The request that a handler creates. -/
theorem create_eq (w : World) (req : TranslationStartRequest) (hex : String) (popen : Option ℕ)
    (now : ℕ) : ∃ request : TranslationRequest, request.requestId = "trans_" ++ hex ∧
      request.place = req.place ∧ request.status = .active ∧
      w.create req hex popen now = ("trans_" ++ hex,
        { w with manager := (w.manager.addRequest request).2 }.startTranslationService
          ("trans_" ++ hex) popen) :=
  ⟨_, rfl, rfl, rfl, rfl⟩

theorem manager_startTranslationService (requestId : String) (popen : Option ℕ) (w : World) :
    (w.startTranslationService requestId popen).manager = w.manager := by
  unfold World.startTranslationService
  split <;> rfl

theorem tasks_startTranslationService (requestId : String) (popen : Option ℕ) (w : World) :
    (w.startTranslationService requestId popen).tasks = w.tasks := by
  unfold World.startTranslationService
  split <;> rfl

theorem returned_startTranslationService (requestId : String) (popen : Option ℕ) (w : World) :
    (w.startTranslationService requestId popen).returned = w.returned := by
  unfold World.startTranslationService
  split <;> rfl

theorem inv_addRequest (h : Inv w) {request : TranslationRequest}
    (hfresh : ∀ other ∈ w.manager.heap, other.requestId ≠ request.requestId) :
    Inv { w with manager := (w.manager.addRequest request).2 } := by
  refine ⟨ownIds_addRequest h.ownIds request, ?_, h.one⟩
  intro p hp huntold
  obtain ⟨htable, hserves⟩ := h.backed p hp huntold
  refine ⟨htable, serves_addRequest hserves ?_⟩
  intro hsame
  have hnone := requestsById_of_fresh h.ownIds hfresh
  obtain ⟨ref, -, hid, -⟩ := hserves
  rw [hsame, hid] at hnone
  cases hnone

variable {popen : Option ℕ}

/-- A process is started for a request in service whose place has none. -/
theorem inv_startTranslationService (h : Inv w) {requestId : String}
    (hserves : ∀ request, w.manager.getRequest requestId = some request →
      w.manager.Serves requestId request.place ∧ w.untold request.place = 0)
    (hpid : ∀ pid ∈ popen, ∀ p ∈ w.running, p.pid ≠ pid) :
    Inv (w.startTranslationService requestId popen) := by
  unfold World.startTranslationService
  cases hrequest : w.manager.getRequest requestId with
  | none => exact h
  | some request =>
    cases popen with
    | none => exact h
    | some pid =>
      obtain ⟨hserves, hnone⟩ := hserves request hrequest
      refine ⟨h.ownIds, ?_, ?_⟩
      · intro p hp huntold
        rcases List.mem_cons.mp hp with hnew | hold
        · rw [hnew]
          exact ⟨Dict.get?_set_self _ _ _, hserves⟩
        · obtain ⟨htable, hbacked⟩ := h.backed p hold huntold
          refine ⟨?_, hbacked⟩
          show (w.processes.set pid requestId).get? p.pid = _
          rw [Dict.get?_set_ne _ (Ne.symm (hpid pid rfl p hold)), htable]
      · intro place
        show (List.countP _ (_ :: w.running)) ≤ 1
        rw [List.countP_cons]
        by_cases hplace : request.place = place
        · have hold : w.untold place = 0 := hplace ▸ hnone
          rw [World.untold] at hold
          rw [hold]
          split <;> omega
        · rw [if_neg (by simp [hplace])]
          exact h.one place

variable {req : TranslationStartRequest}

variable {hex : String}

theorem inv_create (h : Inv w)
    (now : ℕ) (hfresh : ∀ request ∈ w.manager.heap, request.requestId ≠ "trans_" ++ hex)
    (hpid : ∀ pid ∈ popen, ∀ p ∈ w.running, p.pid ≠ pid) :
    Inv (w.create req hex popen now).2 := by
  obtain ⟨request, hid, hplace, hactive, hcreate⟩ := create_eq w req hex popen now
  rw [hcreate]
  rw [← hid] at hfresh ⊢
  apply inv_startTranslationService (inv_addRequest h hfresh)
  · intro found hfound
    by_cases hbusy : Busy w request.place
    · have hnone := getRequest_addRequest_busy h.ownIds hfresh hbusy
      have hsome : (w.manager.addRequest request).2.getRequest request.requestId = some found :=
        hfound
      rw [hnone] at hsome
      cases hsome
    · have hsome : (w.manager.addRequest request).2.getRequest request.requestId = some found :=
        hfound
      rw [getRequest_addRequest_free hbusy] at hsome
      cases hsome
      exact ⟨addRequest_free hactive hbusy, untold_of_free h hbusy⟩
  · exact hpid

variable {w' : World}

/-- `Inv` looks at the manager, the processes and their table. -/
theorem Inv.congr (h : Inv w) (hmanager : w'.manager = w.manager)
    (hprocesses : w'.processes = w.processes) (hrunning : w'.running = w.running) : Inv w' := by
  refine ⟨hmanager ▸ h.ownIds, ?_, ?_⟩
  · intro p hp huntold
    rw [hrunning] at hp
    rw [hmanager, hprocesses]
    exact h.backed p hp huntold
  · intro place
    rw [World.untold, hrunning]
    exact h.one place

/-- A heartbeat changes one field of one request. -/
theorem inv_handleHeartbeat (h : Inv w) (requestId roomId sourceUser toLang : String) (now : ℕ) :
    Inv (w.handleHeartbeat requestId roomId sourceUser toLang now) := by
  have hmodify : ∀ ref, Inv { w with manager := w.manager.modify ref fun request =>
      { request with lastRequesterHeartbeat := now } } := by
    intro ref
    refine ⟨ownIds_modify h.ownIds ref fun request => rfl, ?_, h.one⟩
    intro p hp huntold
    obtain ⟨htable, hserves⟩ := h.backed p hp huntold
    exact ⟨htable, serves_modify hserves ref fun _ request => rfl⟩
  unfold World.handleHeartbeat updateRequesterHeartbeat updateRequesterHeartbeatBySource
  split
  · split
    · exact h
    · exact hmodify _
  · split
    · exact h
    · exact hmodify _

variable {task : ℕ}

/-- What a step does to the world. -/
theorem step_start {now : ℕ} (hstep : stepTranslation w (.start task req hex popen now) = some w') :
    w' = w.handleStart task req hex popen now := by
  rw [stepTranslation] at hstep
  split at hstep
  · cases hstep
  · exact (Option.some.inj hstep).symm

theorem step_wake {now : ℕ} (hstep : stepTranslation w (.wake task hex popen now) = some w') :
    ∃ req, w.sleeper task = some req ∧ w' = { (w.create req hex popen now).2 with
      tasks := (w.create req hex popen now).2.tasks.set task
        (.broadcasting (w.create req hex popen now).1) } := by
  rw [stepTranslation] at hstep
  cases hsleeper : w.sleeper task with
  | none =>
    rw [hsleeper] at hstep
    cases hstep
  | some req =>
    rw [hsleeper] at hstep
    exact ⟨req, rfl, (Option.some.inj hstep).symm⟩

theorem step_finish {sent : Bool} (hstep : stepTranslation w (.finish task sent) = some w') :
    ∃ requestId, w.tasks.get? task = some (.broadcasting requestId) ∧
      w' = { w with
        tasks := w.tasks.erase task
        returned := if sent then (requestId, (w.manager.getRequest requestId).isSome) :: w.returned
          else w.returned } := by
  rw [stepTranslation] at hstep
  split at hstep
  · next requestId htask => exact ⟨requestId, htask, (Option.some.inj hstep).symm⟩
  · cases hstep

theorem handleStop_eq (w : World) (requestId : String) (roomId sourceUser : Option String)
    (toLang : String) : w.handleStop requestId roomId sourceUser toLang = w ∨
      ∃ id, w.handleStop requestId roomId sourceUser toLang = w.stopRequest id := by
  unfold World.handleStop
  simp only
  generalize (if requestId ≠ "" then requestId else _ : String) = id
  by_cases hid : id = ""
  · left
    rw [if_pos hid]
  · right
    exact ⟨id, if_neg hid⟩

theorem inv_step (h : Inv w) {a : Action} (hfresh : FreshDraw w a)
    (hstep : stepTranslation w a = some w') : Inv w' := by
  cases a with
  | start task req hex popen now =>
    rw [step_start hstep]
    unfold World.handleStart
    split
    · exact (inv_stopRequest h _).congr rfl rfl rfl
    · exact (inv_create h now hfresh.1 hfresh.2).congr rfl rfl rfl
  | wake task hex popen now =>
    obtain ⟨req, -, hwake⟩ := step_wake hstep
    rw [hwake]
    exact (inv_create h now hfresh.1 hfresh.2).congr rfl rfl rfl
  | finish task sent =>
    obtain ⟨requestId, -, hfinish⟩ := step_finish hstep
    rw [hfinish]
    exact h.congr rfl rfl rfl
  | stop requestId roomId sourceUser toLang =>
    cases hstep
    rcases handleStop_eq w requestId roomId sourceUser toLang with hsame | hstops
    · rw [hsame]
      exact h
    · obtain ⟨id, hstops⟩ := hstops
      rw [hstops]
      exact inv_stopRequest h id
  | heartbeat requestId roomId sourceUser toLang now =>
    cases hstep
    exact inv_handleHeartbeat h requestId roomId sourceUser toLang now
  | exit pid =>
    cases hstep
    refine ⟨h.ownIds, ?_, ?_⟩
    · intro p hp huntold
      exact h.backed p (List.mem_of_mem_filter hp) huntold
    · intro place
      show (w.running.filter fun p => p.pid ≠ pid).countP _ ≤ 1
      exact Nat.le_trans (List.Sublist.countP_le List.filter_sublist) (h.one place)

/-! ## Known ids -/

/-- The handlers that wait for their broadcast, and those that have returned, have known ids. -/
structure Known (w : World) : Prop where
  waiting : ∀ task id, w.tasks.get? task = some (.broadcasting id) →
    (w.manager.getRequest id).isSome
  returned : ∀ e ∈ w.returned, e.2 = true

theorem tasks_create (w : World) (req : TranslationStartRequest) (hex : String) (popen : Option ℕ)
    (now : ℕ) : (w.create req hex popen now).2.tasks = w.tasks := by
  obtain ⟨request, -, -, -, hcreate⟩ := create_eq w req hex popen now
  rw [hcreate, tasks_startTranslationService]

theorem returned_create (w : World) (req : TranslationStartRequest) (hex : String)
    (popen : Option ℕ) (now : ℕ) : (w.create req hex popen now).2.returned = w.returned := by
  obtain ⟨request, -, -, -, hcreate⟩ := create_eq w req hex popen now
  rw [hcreate, returned_startTranslationService]

/-- A handler that creates its request at a free place knows its id. -/
theorem getRequest_create_free (hfree : ¬ Busy w req.place)
    (hex : String) (popen : Option ℕ) (now : ℕ) :
    ((w.create req hex popen now).2.manager.getRequest
      (w.create req hex popen now).1).isSome := by
  obtain ⟨request, hid, hplace, -, hcreate⟩ := create_eq w req hex popen now
  rw [← hplace] at hfree
  rw [hcreate, manager_startTranslationService, ← hid]
  show ((w.manager.addRequest request).2.getRequest request.requestId).isSome
  rw [getRequest_addRequest_free hfree]
  rfl

/-- No step takes an id from the manager. -/
theorem known_step (a : Action) (hstep : stepTranslation w a = some w') (id : String)
    (hknown : (w.manager.requestsById.get? id).isSome) :
    (w'.manager.requestsById.get? id).isSome := by
  have hcreate : ∀ req hex popen now,
      ((w.create req hex popen now).2.manager.requestsById.get? id).isSome := by
    intro req hex popen now
    obtain ⟨request, -, -, -, hcreate⟩ := create_eq w req hex popen now
    rw [hcreate, manager_startTranslationService]
    exact known_addRequest request hknown
  have hstop : ∀ requestId, ((w.stopRequest requestId).manager.requestsById.get? id).isSome := by
    intro requestId
    show ((w.manager.stopTranslationByRequest requestId).2.requestsById.get? id).isSome
    rw [requestsById_stop]
    exact hknown
  cases a with
  | start task req hex popen now =>
    rw [step_start hstep]
    unfold World.handleStart
    split
    · exact hstop _
    · exact hcreate req hex popen now
  | wake task hex popen now =>
    obtain ⟨req, -, hwake⟩ := step_wake hstep
    rw [hwake]
    exact hcreate req hex popen now
  | finish task sent =>
    obtain ⟨requestId, -, hfinish⟩ := step_finish hstep
    rw [hfinish]
    exact hknown
  | stop requestId roomId sourceUser toLang =>
    cases hstep
    rcases handleStop_eq w requestId roomId sourceUser toLang with hsame | hstops
    · rw [hsame]
      exact hknown
    · obtain ⟨requestId, hstops⟩ := hstops
      rw [hstops]
      exact hstop requestId
  | heartbeat requestId roomId sourceUser toLang now =>
    cases hstep
    unfold World.handleHeartbeat updateRequesterHeartbeat updateRequesterHeartbeatBySource
    split
    · split <;> exact hknown
    · split <;> exact hknown
  | exit pid =>
    cases hstep
    exact hknown

theorem known_world_step (h : Inv w) (hknown : Known w) {a : Action} (hfresh : FreshDraw w a)
    (hfree : WakesFree w a) (hstep : stepTranslation w a = some w') : Known w' := by
  have hinv := inv_step h hfresh hstep
  have hkeeps : ∀ id, (w.manager.getRequest id).isSome → (w'.manager.getRequest id).isSome := by
    intro id
    rw [isSome_getRequest h.ownIds, isSome_getRequest hinv.ownIds]
    exact known_step a hstep id
  -- the waiting handlers are those of before, or one more that knows its id
  have hone : ∀ task id, (w'.manager.getRequest id).isSome →
      w'.tasks = w.tasks.set task (.broadcasting id) → w'.returned = w.returned → Known w' := by
    intro task id hid htasks hreturned
    refine ⟨?_, ?_⟩
    · intro task' id' htask
      rw [htasks, Dict.get?_set] at htask
      split at htask
      · cases htask
        exact hid
      · exact hkeeps id' (hknown.waiting task' id' htask)
    · rw [hreturned]
      exact hknown.returned
  have hsame : w'.tasks = w.tasks → w'.returned = w.returned → Known w' := by
    intro htasks hreturned
    refine ⟨?_, hreturned ▸ hknown.returned⟩
    intro task id htask
    rw [htasks] at htask
    exact hkeeps id (hknown.waiting task id htask)
  cases a with
  | start task req hex popen now =>
    have hstart := step_start hstep
    cases hfound : w.manager.getRequestBySource req.roomId req.sourceUser req.actualTargetLang with
    | some found =>
      rw [World.handleStart, hfound] at hstart
      refine ⟨?_, ?_⟩
      · intro task' id htask
        rw [hstart] at htask
        have htask' : (w.tasks.set task (.sleeping req)).get? task' =
            some (.broadcasting id) := htask
        rw [Dict.get?_set] at htask'
        split at htask'
        · cases htask'
        · exact hkeeps id (hknown.waiting task' id htask')
      · rw [hstart]
        exact hknown.returned
    | none =>
      rw [World.handleStart, hfound] at hstart
      have hid := getRequest_create_free (w := w) (free_of_getRequestBySource hfound) hex popen now
      apply hone task (w.create req hex popen now).1
      · rw [hstart]
        exact hid
      · rw [hstart]
        show (w.create req hex popen now).2.tasks.set task _ = _
        rw [tasks_create]
      · rw [hstart]
        exact returned_create w req hex popen now
  | wake task hex popen now =>
    obtain ⟨req, hsleeper, hwake⟩ := step_wake hstep
    have hid := getRequest_create_free (hfree req hsleeper) hex popen now
    apply hone task (w.create req hex popen now).1
    · rw [hwake]
      exact hid
    · rw [hwake, tasks_create]
    · rw [hwake]
      exact returned_create w req hex popen now
  | finish task sent =>
    obtain ⟨requestId, htask, hfinish⟩ := step_finish hstep
    rw [hfinish]
    refine ⟨?_, ?_⟩
    · intro task' id htask'
      have hold : (w.tasks.erase task).get? task' = some (.broadcasting id) := htask'
      rw [Dict.get?_erase] at hold
      split at hold
      · cases hold
      · exact hknown.waiting task' id hold
    · intro e he
      have hmem : e ∈ (if sent then (requestId, (w.manager.getRequest requestId).isSome) ::
          w.returned else w.returned) := he
      split at hmem
      · rcases List.mem_cons.mp hmem with hnew | hold
        · rw [hnew]
          exact hknown.waiting task requestId htask
        · exact hknown.returned e hold
      · exact hknown.returned e hmem
  | stop requestId roomId sourceUser toLang =>
    cases hstep
    rcases handleStop_eq w requestId roomId sourceUser toLang with hnothing | hstops
    · rw [hnothing]
      exact hknown
    · obtain ⟨requestId, hstops⟩ := hstops
      exact hsame (by rw [hstops]; rfl) (by rw [hstops]; rfl)
  | heartbeat requestId roomId sourceUser toLang now =>
    cases hstep
    exact hsame rfl rfl
  | exit pid =>
    cases hstep
    exact hsame rfl rfl

end Steps

/-! ## Every run -/

theorem inv_init : Inv World.init := by
  refine ⟨?_, ?_, ?_⟩
  · intro id ref hid
    cases hid
  · intro p hp
    cases hp
  · intro place
    exact Nat.zero_le 1

/-- A place never has two processes that were not told to stop, with or without the condition. -/
theorem one_running {w : World} (h : System.Reaches stepTranslation FreshDraw World.init w)
    (place : Place) : w.untold place ≤ 1 := by
  have hinv : Inv w := by
    refine System.Reaches.invariant (I := Inv) ?_ h inv_init
    intro w a w' hw hfresh hstep
    exact inv_step hw hfresh hstep
  exact hinv.one place

/-- In every run that meets the condition, the ids that are returned are known to the manager at
that moment, and at every place at most one process is running that was not told to stop. -/
theorem known_and_one_running {w : World}
    (h : System.Reaches stepTranslation (fun w a => FreshDraw w a ∧ WakesFree w a) World.init w) :
    (∀ e ∈ w.returned, e.2 = true) ∧ ∀ place, w.untold place ≤ 1 := by
  have hinit : Known World.init := by
    refine ⟨?_, ?_⟩
    · intro task id htask
      cases htask
    · intro e he
      cases he
  have hknown : Known w := by
    refine System.Reaches.stable (I := Inv) ?_ ?_ h inv_init hinit
    · intro w a w' hw hguard hstep
      exact inv_step hw hguard.1 hstep
    · intro w a w' hw hknown hguard hstep
      exact known_world_step hw hknown hguard.1 hguard.2 hstep
  exact ⟨hknown.returned, one_running (h.mono fun w a hguard => hguard.1)⟩

/-- A request of `bob` to hear `alice` in Chinese. -/
def aliceForBob : TranslationStartRequest := ⟨"r", "alice", "bob", "", "zh", ""⟩

/-- The second start replaces the translation of the first. -/
theorem known_and_one_running_replaced : ∃ w : World,
    w.returned.map Prod.fst = ["trans_2", "trans_1"] ∧ w.running.length = 2 ∧
    (∀ e ∈ w.returned, e.2 = true) ∧ ∀ place, w.untold place ≤ 1 := by
  obtain ⟨w, hrun, -, hobs⟩ := System.reaches_of_observe stepTranslation
    (fun w a => FreshDraw w a ∧ WakesFree w a) World.init
    [.start 1 aliceForBob "1" (some 101) 0, .finish 1 true, .start 2 aliceForBob "-" none 5,
      .heartbeat "trans_1" "" "" "" 6, .wake 2 "2" (some 102) 7, .finish 2 true]
    (fun w => (w.returned.map Prod.fst, w.running.length)) (b := (["trans_2", "trans_1"], 2))
    (by decide +kernel)
  obtain ⟨hreturned, hrunning⟩ := Prod.mk.inj hobs
  exact ⟨w, hreturned, hrunning, known_and_one_running hrun⟩

/-- Without the condition: two handlers find the same request and sleep, the first to wake creates
its request, and the second returns an id that the manager does not know. -/
theorem unknown_id_returned : ∃ w : World,
    System.Reaches stepTranslation FreshDraw World.init w ∧ ("trans_3", false) ∈ w.returned := by
  obtain ⟨w, hrun, -, hobs⟩ := System.reaches_of_observe stepTranslation FreshDraw World.init
    [.start 1 aliceForBob "1" (some 101) 0, .finish 1 true, .start 2 aliceForBob "-" none 5,
      .start 3 aliceForBob "-" none 5, .wake 2 "2" (some 102) 6, .wake 3 "3" (some 103) 6,
      .finish 3 true]
    (fun w => w.returned.head?) (b := some ("trans_3", false)) (by decide +kernel)
  exact ⟨w, hrun, List.mem_of_head? hobs⟩

end SrsChatRoom.Server.Translation
