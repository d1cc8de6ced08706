import SrsChatRoom.Server.TranslationManager

/-!
# The two tables of requests agree

`indexes_agree`: after every run of operations with fresh ids, `_requests` and `_requests_by_id`
hold the same requests, each at its own place, at most one request for a place is active, and
`remove_request` removes its own request and does not raise, as long as no request is added at the
place of one that is not active. `add_request` puts such a request out of `_requests` only.
-/

namespace SrsChatRoom.Server.Translation

/-! ## Operations -/

/-- An operation on the manager. -/
inductive Op
  | addRequest (request : TranslationRequest)
  | removeRequest (requestId : String)
  | updateStatus (requestId : String) (status : TranslationStatus)
  | stopTranslationByRequest (requestId : String)
  | registerPuller (requestId pullerId : String) (now : ℕ)
  | unregisterPuller (requestId pullerId : String)
  | heartbeatPuller (requestId pullerId : String) (now : ℕ)
  | updateSourceStreamActive (roomId sourceUser : String) (active : Bool) (now : ℕ)
  | updateRequesterHeartbeat (requestId : String) (now : ℕ)
  | updateRequesterHeartbeatBySource (roomId sourceUser toLang : String) (now : ℕ)
  | checkAndCleanup (callback : Option (String → Bool)) (now : ℕ)

/-- The manager after an operation. -/
def TranslationManager.after (m : TranslationManager) : Op → TranslationManager
  | .addRequest request => (m.addRequest request).2
  | .removeRequest requestId => (m.removeRequest requestId).2
  | .updateStatus requestId status => (m.updateStatus requestId status).2
  | .stopTranslationByRequest requestId => (m.stopTranslationByRequest requestId).2
  | .registerPuller requestId pullerId now => (m.registerPuller requestId pullerId now).2
  | .unregisterPuller requestId pullerId => (m.unregisterPuller requestId pullerId).2
  | .heartbeatPuller requestId pullerId now => (m.heartbeatPuller requestId pullerId now).2
  | .updateSourceStreamActive roomId sourceUser active now =>
    m.updateSourceStreamActive roomId sourceUser active now
  | .updateRequesterHeartbeat requestId now => (m.updateRequesterHeartbeat requestId now).2
  | .updateRequesterHeartbeatBySource roomId sourceUser toLang now =>
    (m.updateRequesterHeartbeatBySource roomId sourceUser toLang now).2
  | .checkAndCleanup callback now => (m.checkAndCleanup callback now).2

/-- Operations are always possible. -/
def step (m : TranslationManager) (op : Op) : Option TranslationManager := some (m.after op)

/-- A request that is added has an id that no request has had before. -/
def FreshId (m : TranslationManager) : Op → Prop
  | .addRequest request => ∀ other ∈ m.heap, other.requestId ≠ request.requestId
  | _ => True

/-- The condition: a request is not added at the place of one that is not active. -/
def ReplacesNone (m : TranslationManager) : Op → Prop
  | .addRequest request => ∀ other ∈ m.existing request.place, other.status = .active
  | _ => True

instance (m : TranslationManager) (op : Op) : Decidable (FreshId m op) := by
  cases op <;> unfold FreshId <;> infer_instance

instance (m : TranslationManager) (op : Op) : Decidable (ReplacesNone m op) := by
  cases op <;> unfold ReplacesNone <;> infer_instance

/-! ## The property -/

/-- What the tables go by: the id and the place of a request. -/
def TranslationRequest.key (request : TranslationRequest) : String × Place :=
  (request.requestId, request.place)

namespace TranslationManager

/-- The id and the place of the request at an address. -/
def keyOf (m : TranslationManager) (ref : ℕ) : Option (String × Place) :=
  (m.heap[ref]?).map TranslationRequest.key

/-- The tables hold the same requests, each at its own place. -/
structure Agree (m : TranslationManager) : Prop where
  place_of_id : ∀ id ref, m.requestsById.get? id = some ref →
    ∃ p, m.keyOf ref = some (id, p) ∧ m.at? p = some ref
  id_of_place : ∀ p ref, m.at? p = some ref →
    ∃ id, m.keyOf ref = some (id, p) ∧ m.requestsById.get? id = some ref

/-- The request at an address is in one of the tables. -/
def Known (m : TranslationManager) (ref : ℕ) : Prop :=
  (∃ id, m.requestsById.get? id = some ref) ∨ ∃ p, m.at? p = some ref

/-- At most one request for a place is active. -/
def OneActive (m : TranslationManager) : Prop :=
  ∀ ref ref' request request', m.Known ref → m.Known ref' →
    m.heap[ref]? = some request → m.heap[ref']? = some request' →
    request.status = .active → request'.status = .active →
    request.place = request'.place → ref = ref'

/-- `remove_request` does not raise, and the requests it leaves are those with another id. -/
def RemovesOwn (m : TranslationManager) (requestId : String) : Prop :=
  (∃ removed, (m.removeRequest requestId).1 = .ok removed) ∧
    ∀ ref, (m.removeRequest requestId).2.Known ref ↔
      m.Known ref ∧ (m.keyOf ref).map Prod.fst ≠ some requestId

variable {m m' : TranslationManager} {p : Place} {ref ref' : ℕ} {id id' : String}

theorem Agree.known_iff (h : m.Agree) : m.Known ref ↔ ∃ p, m.at? p = some ref := by
  constructor
  · intro hknown
    rcases hknown with hid | hplace
    · obtain ⟨id, hid⟩ := hid
      obtain ⟨p, -, hp⟩ := h.place_of_id id ref hid
      exact ⟨p, hp⟩
    · exact hplace
  · exact Or.inr

/-- A place has one request, so at most one of its requests is active. -/
theorem Agree.oneActive (h : m.Agree) : m.OneActive := by
  intro ref ref' request request' hknown hknown' hget hget' _ _ hsame
  have hplace : ∀ {ref request}, m.Known ref → m.heap[ref]? = some request →
      m.at? request.place = some ref := by
    intro ref request hknown hget
    obtain ⟨p, hp⟩ := h.known_iff.mp hknown
    obtain ⟨id, hkey, -⟩ := h.id_of_place p ref hp
    rw [keyOf, hget, Option.map_some, Option.some.injEq, TranslationRequest.key,
      Prod.mk.injEq] at hkey
    rw [hkey.2, hp]
  have hp := hplace hknown hget
  rw [hsame, hplace hknown' hget'] at hp
  exact (Option.some.inj hp).symm

variable {request : TranslationRequest}

theorem at?_removed {requests : NestedDict String String String ℕ}
    (h : m.requests.del request.roomId request.sourceUser request.toLang = some requests)
    (requestsById : Dict String ℕ) (p : Place) :
    (TranslationManager.mk m.heap requests requestsById).at? p =
      if request.place = p then none else m.at? p := by
  show requests.at? p.roomId p.sourceUser p.toLang = _
  rw [NestedDict.at?_del h]
  by_cases hp : request.place = p
  · rw [if_pos hp, if_pos]
    rw [← hp]
    exact ⟨rfl, rfl, rfl⟩
  · rw [if_neg hp, if_neg]
    · rfl
    · rintro ⟨hroom, hsource, hlang⟩
      exact hp (by rw [TranslationRequest.place, hroom, hsource, hlang])

/-- A successful removal, from tables that agree. -/
theorem Agree.remove_cases (h : m.Agree) (id : String) :
    (m.requestsById.get? id = none ∧ m.removeRequest id = (.ok false, m)) ∨
    ∃ ref p, m.requestsById.get? id = some ref ∧ m.keyOf ref = some (id, p) ∧
      m.at? p = some ref ∧ (m.removeRequest id).1 = .ok true ∧
      (m.removeRequest id).2.heap = m.heap ∧
      (m.removeRequest id).2.requestsById = m.requestsById.erase id ∧
      ∀ p', (m.removeRequest id).2.at? p' = if p = p' then none else m.at? p' := by
  cases hid : m.requestsById.get? id with
  | none =>
    left
    refine ⟨rfl, ?_⟩
    rw [removeRequest, getRequest, find, hid]
    rfl
  | some ref =>
    right
    obtain ⟨p, hkey, hp⟩ := h.place_of_id id ref hid
    obtain ⟨request, hget, hpair⟩ := Option.map_eq_some_iff.mp hkey
    obtain ⟨-, hplace⟩ := Prod.mk.inj hpair
    have hrequest : m.getRequest id = some request := by
      rw [getRequest, find, hid, Option.bind_some, hget]
      rfl
    have hsome : (m.requests.del request.roomId request.sourceUser request.toLang).isSome := by
      rw [NestedDict.del_isSome]
      have hat : m.requests.at? request.roomId request.sourceUser request.toLang = some ref := by
        rw [← hplace] at hp
        exact hp
      rw [hat]
      rfl
    obtain ⟨requests, hdel⟩ := Option.isSome_iff_exists.mp hsome
    have hremove : m.removeRequest id =
        (.ok true, ⟨m.heap, requests, m.requestsById.erase id⟩) := by
      rw [removeRequest, hrequest]
      simp only [hdel]
    rw [hremove]
    refine ⟨ref, p, rfl, hkey, hp, rfl, rfl, rfl, ?_⟩
    intro p'
    show (TranslationManager.mk m.heap requests (m.requestsById.erase id)).at? p' = _
    rw [at?_removed hdel, hplace]

/-! ## Adding and removing -/

theorem existing_eq_none_of_agree (h : m.Agree) (hnone : m.existing p = none) : m.at? p = none := by
  cases hp : m.at? p with
  | none => rfl
  | some ref =>
    obtain ⟨id, hkey, -⟩ := h.id_of_place p ref hp
    obtain ⟨request, hget, -⟩ := Option.map_eq_some_iff.mp hkey
    rw [existing, hp, Option.bind_some, hget] at hnone
    cases hnone

/-- The tables after a request has been added. -/
theorem added_eq (m : TranslationManager) (request : TranslationRequest)
    (hadded : (m.existing request.place).map TranslationRequest.status ≠ some .active) :
    (∀ ref, (m.addRequest request).2.keyOf ref =
      if ref = m.heap.length then some request.key else m.keyOf ref) ∧
    (∀ id, (m.addRequest request).2.requestsById.get? id =
      if request.requestId = id then some m.heap.length else m.requestsById.get? id) ∧
    (∀ p, (m.addRequest request).2.at? p =
      if request.place = p then some m.heap.length else m.at? p) := by
  rw [addRequest, if_neg hadded]
  refine ⟨?_, ?_, ?_⟩
  · intro ref
    show ((m.heap ++ [request])[ref]?).map _ = _
    by_cases href : ref = m.heap.length
    · rw [if_pos href, href, List.getElem?_append_right (Nat.le_refl _), Nat.sub_self]
      rfl
    · rw [if_neg href, keyOf]
      congr 1
      by_cases hlt : ref < m.heap.length
      · exact List.getElem?_append_left hlt
      · have hlength : (m.heap ++ [request]).length ≤ ref := by
          rw [List.length_append, List.length_singleton]
          omega
        rw [List.getElem?_eq_none hlength, List.getElem?_eq_none (not_lt.mp hlt)]
  · intro id
    exact Dict.get?_set _ _ _ _
  · intro p
    show (m.requests.put request.roomId request.sourceUser request.toLang m.heap.length).at?
      p.roomId p.sourceUser p.toLang = _
    rw [NestedDict.at?_put]
    by_cases hp : request.place = p
    · rw [if_pos hp, if_pos]
      rw [← hp]
      exact ⟨rfl, rfl, rfl⟩
    · rw [if_neg hp, if_neg]
      · rfl
      · intro hand
        apply hp
        rw [TranslationRequest.place, hand.1, hand.2.1, hand.2.2]

theorem keyOf_ne_none_of_lt (h : m.keyOf ref ≠ none) : ref < m.heap.length := by
  by_contra hge
  apply h
  rw [keyOf, List.getElem?_eq_none (by omega)]
  rfl

theorem agree_addRequest (h : m.Agree)
    (hfresh : FreshId m (.addRequest request)) (hfree : ReplacesNone m (.addRequest request)) :
    (m.addRequest request).2.Agree := by
  by_cases hactive : (m.existing request.place).map TranslationRequest.status = some .active
  · rw [addRequest, if_pos hactive]
    exact h
  have hplace : m.at? request.place = none := by
    apply existing_eq_none_of_agree h
    cases hother : m.existing request.place with
    | none => rfl
    | some other =>
      rw [hother, Option.map_some, hfree other hother] at hactive
      exact absurd rfl hactive
  have hnew : ∀ ref p, m.keyOf ref ≠ some (request.requestId, p) := by
    intro ref p hkey
    obtain ⟨other, hget, hpair⟩ := Option.map_eq_some_iff.mp hkey
    exact hfresh other (List.mem_of_getElem? hget) (Prod.mk.inj hpair).1
  obtain ⟨hkeys, hids, hplaces⟩ := added_eq m request hactive
  constructor
  · intro id ref hid
    rw [hids] at hid
    by_cases heq : request.requestId = id
    · rw [if_pos heq] at hid
      cases hid
      refine ⟨request.place, ?_, ?_⟩
      · rw [hkeys, if_pos rfl, TranslationRequest.key, heq]
      · rw [hplaces, if_pos rfl]
    · rw [if_neg heq] at hid
      obtain ⟨p, hkey, hp⟩ := h.place_of_id id ref hid
      have hlt : ref < m.heap.length := keyOf_ne_none_of_lt (by rw [hkey]; exact Option.some_ne_none _)
      refine ⟨p, ?_, ?_⟩
      · rw [hkeys, if_neg (by omega), hkey]
      · rw [hplaces, if_neg, hp]
        intro hsame
        rw [← hsame, hplace] at hp
        cases hp
  · intro p ref hp
    rw [hplaces] at hp
    by_cases heq : request.place = p
    · rw [if_pos heq] at hp
      cases hp
      refine ⟨request.requestId, ?_, ?_⟩
      · rw [hkeys, if_pos rfl, TranslationRequest.key, heq]
      · rw [hids, if_pos rfl]
    · rw [if_neg heq] at hp
      obtain ⟨id, hkey, hid⟩ := h.id_of_place p ref hp
      have hlt : ref < m.heap.length := keyOf_ne_none_of_lt (by rw [hkey]; exact Option.some_ne_none _)
      refine ⟨id, ?_, ?_⟩
      · rw [hkeys, if_neg (by omega), hkey]
      · rw [hids, if_neg, hid]
        intro hsame
        exact hnew ref p (by rw [hkey, hsame])

theorem keyOf_congr (hheap : m'.heap = m.heap) : m'.keyOf ref = m.keyOf ref := by
  rw [keyOf, keyOf, hheap]

theorem agree_removeRequest (h : m.Agree) (id : String) : (m.removeRequest id).2.Agree := by
  rcases h.remove_cases id with hnone | hsome
  · rw [hnone.2]
    exact h
  obtain ⟨ref, p, hid, hkey, hp, -, hheap, hids, hplaces⟩ := hsome
  constructor
  · intro id' ref' hid'
    rw [hids, Dict.get?_erase] at hid'
    split at hid'
    · cases hid'
    next hne =>
    obtain ⟨p', hkey', hp'⟩ := h.place_of_id id' ref' hid'
    refine ⟨p', ?_, ?_⟩
    · rw [keyOf_congr hheap, hkey']
    · rw [hplaces, if_neg, hp']
      intro hsame
      rw [← hsame, hp] at hp'
      cases hp'
      rw [hkey] at hkey'
      exact hne (Prod.mk.inj (Option.some.inj hkey')).1
  · intro p' ref' hp'
    rw [hplaces] at hp'
    split at hp'
    · cases hp'
    next hne =>
    obtain ⟨id', hkey', hid'⟩ := h.id_of_place p' ref' hp'
    refine ⟨id', ?_, ?_⟩
    · rw [keyOf_congr hheap, hkey']
    · rw [hids, Dict.get?_erase, if_neg, hid']
      intro hsame
      rw [← hsame, hid] at hid'
      cases hid'
      rw [hkey] at hkey'
      exact hne (Prod.mk.inj (Option.some.inj hkey')).2

theorem Agree.removesOwn (h : m.Agree) (id : String) : m.RemovesOwn id := by
  have hafter := agree_removeRequest h id
  rcases h.remove_cases id with hnone | hsome
  · obtain ⟨hid, hsame⟩ := hnone
    constructor
    · exact ⟨false, by rw [hsame]⟩
    · intro ref
      rw [hsame]
      constructor
      · intro hknown
        refine ⟨hknown, ?_⟩
        intro hkey
        obtain ⟨p, hp⟩ := h.known_iff.mp hknown
        obtain ⟨id', hkey', hid'⟩ := h.id_of_place p ref hp
        rw [hkey', Option.map_some, Option.some.injEq] at hkey
        rw [show id' = id from hkey, hid] at hid'
        cases hid'
      · exact And.left
  · obtain ⟨ref, p, hid, hkey, hp, hresult, hheap, hids, hplaces⟩ := hsome
    constructor
    · exact ⟨true, hresult⟩
    · intro ref'
      rw [hafter.known_iff, h.known_iff]
      constructor
      · intro hknown
        obtain ⟨p', hp'⟩ := hknown
        rw [hplaces] at hp'
        split at hp'
        · cases hp'
        next hne =>
        refine ⟨⟨p', hp'⟩, ?_⟩
        intro hkey'
        obtain ⟨id', hown, hid'⟩ := h.id_of_place p' ref' hp'
        rw [hown, Option.map_some, Option.some.injEq] at hkey'
        rw [show id' = id from hkey', hid] at hid'
        cases hid'
        rw [hkey] at hown
        exact hne (Prod.mk.inj (Option.some.inj hown)).2
      · intro hother
        obtain ⟨⟨p', hp'⟩, hkey'⟩ := hother
        refine ⟨p', ?_⟩
        rw [hplaces, if_neg, hp']
        intro hsame
        rw [← hsame, hp] at hp'
        cases hp'
        apply hkey'
        rw [hkey]
        rfl

/-! ## The operations on one object -/

/-- Neither the tables nor the ids and places of the requests have changed. -/
structure SameKeys (m m' : TranslationManager) : Prop where
  requests : m'.requests = m.requests
  requestsById : m'.requestsById = m.requestsById
  keyOf : ∀ ref, m'.keyOf ref = m.keyOf ref

theorem SameKeys.refl (m : TranslationManager) : m.SameKeys m := ⟨rfl, rfl, fun _ => rfl⟩

theorem SameKeys.trans {m'' : TranslationManager} (h : m.SameKeys m') (h' : m'.SameKeys m'') :
    m.SameKeys m'' := by
  refine ⟨h'.requests.trans h.requests, h'.requestsById.trans h.requestsById, ?_⟩
  intro ref
  rw [h'.keyOf, h.keyOf]

variable {f : TranslationRequest → TranslationRequest}

/-- A change of an object that keeps its id and its place. -/
theorem sameKeys_modify (m : TranslationManager) (ref : ℕ)
    (hf : ∀ request, (f request).key = request.key) :
    m.SameKeys (m.modify ref f) := by
  refine ⟨rfl, rfl, ?_⟩
  intro ref'
  show ((m.heap.modify ref f)[ref']?).map _ = (m.heap[ref']?).map _
  rw [List.getElem?_modify]
  cases m.heap[ref']? with
  | none => rfl
  | some request =>
    show some (if ref = ref' then f request else request).key = some request.key
    split
    · rw [hf]
    · rfl

theorem sameKeys_foldl {α : Type} {f : TranslationManager → α → TranslationManager}
    (hf : ∀ m a, SameKeys m (f m a)) (l : List α) (m : TranslationManager) :
    m.SameKeys (l.foldl f m) := by
  induction l generalizing m with
  | nil => exact SameKeys.refl m
  | cons a l ih => exact (hf m a).trans (ih (f m a))

theorem SameKeys.agree (h : m.SameKeys m') (hagree : m.Agree) : m'.Agree := by
  have hat : ∀ p, m'.at? p = m.at? p := by
    intro p
    rw [at?, at?, h.requests]
  constructor
  · intro id ref hid
    rw [h.requestsById] at hid
    obtain ⟨p, hkey, hp⟩ := hagree.place_of_id id ref hid
    exact ⟨p, by rw [h.keyOf, hkey], by rw [hat, hp]⟩
  · intro p ref hp
    rw [hat] at hp
    obtain ⟨id, hkey, hid⟩ := hagree.id_of_place p ref hp
    exact ⟨id, by rw [h.keyOf, hkey], by rw [h.requestsById, hid]⟩

theorem agree_modify (h : m.Agree) (ref : ℕ)
    (hf : ∀ request, (f request).key = request.key) : (m.modify ref f).Agree :=
  (sameKeys_modify m ref hf).agree h

theorem sameKeys_updateStatus (m : TranslationManager) (id : String) (status : TranslationStatus) :
    m.SameKeys (m.updateStatus id status).2 := by
  unfold updateStatus
  split
  · exact SameKeys.refl m
  · apply sameKeys_modify
    exact fun request => rfl

theorem sameKeys_registerPuller (m : TranslationManager) (id pullerId : String) (now : ℕ) :
    m.SameKeys (m.registerPuller id pullerId now).2 := by
  unfold registerPuller
  split
  · exact SameKeys.refl m
  · apply sameKeys_modify
    intro request
    by_cases hstopped : request.status = .stopped
    · simp only [if_pos hstopped, TranslationRequest.key]
      rfl
    · simp only [if_neg hstopped, TranslationRequest.key]
      rfl

theorem key_expire (now : ℕ) (request : TranslationRequest) :
    (request.expire now).key = request.key := by
  have hstop : ∀ (request : TranslationRequest) (reason : Option String),
      (request.stopFor reason).key = request.key := by
    intro request reason
    cases reason <;> rfl
  rw [TranslationRequest.expire, hstop]
  rfl

theorem sameKeys_cleanUp (callback : Option (String → Bool)) (now : ℕ)
    (acc : List CleanupInfo × TranslationManager) (id : String) :
    acc.2.SameKeys (cleanUp callback now acc id).2 := by
  unfold cleanUp
  split
  · exact SameKeys.refl acc.2
  · split
    · exact SameKeys.refl acc.2
    · apply sameKeys_modify
      exact key_expire now

theorem sameKeys_checkAndCleanup (m : TranslationManager) (callback : Option (String → Bool))
    (now : ℕ) : m.SameKeys (m.checkAndCleanup callback now).2 := by
  have hfold : ∀ (ids : List String) (acc : List CleanupInfo × TranslationManager),
      acc.2.SameKeys (ids.foldl (cleanUp callback now) acc).2 := by
    intro ids
    induction ids with
    | nil => exact fun acc => SameKeys.refl acc.2
    | cons id ids ih =>
      exact fun acc => (sameKeys_cleanUp callback now acc id).trans (ih _)
  exact hfold m.requestsById.keys ([], m)

/-- Every operation but `add_request` and `remove_request` works on the objects alone. -/
theorem agree_after (h : m.Agree) {op : Op} (hfresh : FreshId m op) (hfree : ReplacesNone m op) :
    (m.after op).Agree := by
  cases op with
  | addRequest request => exact agree_addRequest h hfresh hfree
  | removeRequest id => exact agree_removeRequest h id
  | updateStatus id status => exact (sameKeys_updateStatus m id status).agree h
  | stopTranslationByRequest id =>
    show (m.stopTranslationByRequest id).2.Agree
    unfold stopTranslationByRequest
    split
    · exact h
    · exact (sameKeys_updateStatus m id .stopped).agree h
  | registerPuller id pullerId now => exact (sameKeys_registerPuller m id pullerId now).agree h
  | unregisterPuller id pullerId =>
    show (m.unregisterPuller id pullerId).2.Agree
    unfold unregisterPuller
    split
    · exact h
    · split
      · exact agree_modify h _ fun request => rfl
      · exact h
  | heartbeatPuller id pullerId now =>
    show (m.heartbeatPuller id pullerId now).2.Agree
    unfold heartbeatPuller
    split
    · exact h
    · exact agree_modify h _ fun request => rfl
  | updateSourceStreamActive roomId sourceUser active now =>
    show (m.updateSourceStreamActive roomId sourceUser active now).Agree
    unfold updateSourceStreamActive
    split
    · exact h
    · refine (sameKeys_foldl ?_ _ m).agree h
      intro m e
      apply sameKeys_modify
      intro request
      unfold TranslationRequest.setStreamActive
      split <;> rfl
  | updateRequesterHeartbeat id now =>
    show (m.updateRequesterHeartbeat id now).2.Agree
    unfold updateRequesterHeartbeat
    split
    · exact h
    · exact agree_modify h _ fun request => rfl
  | updateRequesterHeartbeatBySource roomId sourceUser toLang now =>
    show (m.updateRequesterHeartbeatBySource roomId sourceUser toLang now).2.Agree
    unfold updateRequesterHeartbeatBySource
    split
    · exact h
    · exact agree_modify h _ fun request => rfl
  | checkAndCleanup callback now => exact (sameKeys_checkAndCleanup m callback now).agree h

end TranslationManager

/-! ## Every run -/

open TranslationManager

/-- In every run with fresh ids that meets the condition the tables hold the same requests, one
request for a place is active at most, and a removal removes its own request. -/
theorem indexes_agree {m : TranslationManager}
    (h : System.Reaches step (fun m op => FreshId m op ∧ ReplacesNone m op)
      TranslationManager.init m) :
    m.Agree ∧ m.OneActive ∧ ∀ id, m.RemovesOwn id := by
  have hagree : m.Agree := by
    refine System.Reaches.invariant (I := Agree) ?_ h ?_
    · intro m op m' hm hguard hstep
      cases hstep
      exact agree_after hm hguard.1 hguard.2
    · constructor
      · intro id ref hid
        cases hid
      · intro p ref hp
        cases hp
  exact ⟨hagree, hagree.oneActive, hagree.removesOwn⟩

/-- A request of `bob` to hear `alice` in a language. -/
def aliceInChinese (requestId : String) : TranslationRequest where
  requestId := requestId
  roomId := "r"
  sourceUser := "alice"
  targetUser := "bob"
  toLang := "zh"
  sourceLang := "auto"
  status := .active
  streamUrl := ""
  createdAt := 0
  pullers := Dict.empty
  lastSourceStreamSeen := 0
  sourceStreamActive := false
  stopReason := ""
  noPullerSince := none
  lastRequesterHeartbeat := 0

/-- A request is stopped and removed before the next one comes. -/
theorem indexes_agree_removed : ∃ m : TranslationManager, m.at? ⟨"r", "alice", "zh"⟩ = some 1 ∧
    m.Agree ∧ m.OneActive ∧ ∀ id, m.RemovesOwn id := by
  obtain ⟨m, hrun, -, hobs⟩ := System.reaches_of_observe step
    (fun m op => FreshId m op ∧ ReplacesNone m op) TranslationManager.init
    [.addRequest (aliceInChinese "a"), .stopTranslationByRequest "a", .removeRequest "a",
      .addRequest (aliceInChinese "b"), .checkAndCleanup none 0]
    (fun m => m.at? ⟨"r", "alice", "zh"⟩) (b := some 1) (by decide +kernel)
  exact ⟨m, hobs, indexes_agree hrun⟩

/-- Without the condition: a stopped request is replaced and then revived by a puller, so that two
requests for one place are active; the removal of the first takes the second out of `_requests`,
and the removal of the second raises. -/
theorem revived_request :
    (∃ m : TranslationManager, System.Reaches step FreshId TranslationManager.init m ∧
      ¬ m.Agree ∧ ¬ m.OneActive) ∧
    ∃ m : TranslationManager, System.Reaches step FreshId TranslationManager.init m ∧
      ¬ m.RemovesOwn "b" := by
  constructor
  · obtain ⟨m, hrun, -, hobs⟩ := System.reaches_of_observe step FreshId TranslationManager.init
      [.addRequest (aliceInChinese "a"), .stopTranslationByRequest "a",
        .addRequest (aliceInChinese "b"), .registerPuller "a" "bob" 0]
      (fun m => (m.requestsById.get? "a", m.requestsById.get? "b",
        m.heap.map TranslationRequest.status, m.heap.map TranslationRequest.place))
      (b := (some 0, some 1, [.active, .active],
        [⟨"r", "alice", "zh"⟩, ⟨"r", "alice", "zh"⟩])) (by decide +kernel)
    obtain ⟨ha, hrest⟩ := Prod.mk.inj hobs
    obtain ⟨hb, hrest⟩ := Prod.mk.inj hrest
    obtain ⟨hstatus, hplace⟩ := Prod.mk.inj hrest
    have hfound : ∀ ref, ref < 2 → ∃ request, m.heap[ref]? = some request ∧
        request.status = .active ∧ request.place = ⟨"r", "alice", "zh"⟩ := by
      intro ref href
      have hlength : m.heap.length = 2 := by
        rw [← List.length_map TranslationRequest.status, hstatus]
        rfl
      have hlt : ref < m.heap.length := by omega
      refine ⟨m.heap[ref], List.getElem?_eq_getElem hlt, ?_, ?_⟩
      · have hmem : m.heap[ref].status ∈ m.heap.map TranslationRequest.status :=
          List.mem_map_of_mem (List.getElem_mem hlt)
        rw [hstatus] at hmem
        simpa using hmem
      · have hmem : m.heap[ref].place ∈ m.heap.map TranslationRequest.place :=
          List.mem_map_of_mem (List.getElem_mem hlt)
        rw [hplace] at hmem
        simpa using hmem
    have hnot : ¬ m.OneActive := by
      intro hone
      obtain ⟨request, hget, hactive, hat⟩ := hfound 0 (by omega)
      obtain ⟨request', hget', hactive', hat'⟩ := hfound 1 (by omega)
      have hsame := hone 0 1 request request' (Or.inl ⟨"a", ha⟩) (Or.inl ⟨"b", hb⟩) hget hget'
        hactive hactive' (hat.trans hat'.symm)
      omega
    exact ⟨m, hrun, fun hagree => hnot hagree.oneActive, hnot⟩
  · obtain ⟨m, hrun, -, hobs⟩ := System.reaches_of_observe step FreshId TranslationManager.init
      [.addRequest (aliceInChinese "a"), .stopTranslationByRequest "a",
        .addRequest (aliceInChinese "b"), .removeRequest "a"]
      (fun m => (m.removeRequest "b").1) (b := .error .keyError) (by decide +kernel)
    refine ⟨m, hrun, ?_⟩
    intro hown
    obtain ⟨removed, hremoved⟩ := hown.1
    rw [hobs] at hremoved
    cases hremoved

end SrsChatRoom.Server.Translation
