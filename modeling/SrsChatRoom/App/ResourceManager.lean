import SrsChatRoom.Lib.Dict
import SrsChatRoom.Lib.System

/-!
# The resource manager (`srs_app_conn.cpp`)

The manager knows its resources by an id, by a name, and by a 64-bit id, the fast id. In front of
the map of the fast ids there is a table of items, one for all ids of one index. An item that is
available answers a lookup of its own id. A removed resource is a zombie until `clear` disposes it,
and with it all it is bound to.

A resource is a number here. One that is disposed is freed, so it is not added or removed again.
-/

namespace SrsChatRoom.App.ResourceManager

abbrev Resource := ℕ

/-- The item of the ids of one index. -/
structure SrsResourceFastIdItem where
  available : Bool := false
  nnCollisions : ℤ := 0
  fastId : UInt64 := 0
  impl : Option Resource := none
deriving DecidableEq

structure SrsResourceManager where
  zombies : List Resource
  conns : List Resource
  connsId : Dict String Resource
  connsFastId : Dict UInt64 Resource
  level0Cache : ℕ → SrsResourceFastIdItem
  connsName : Dict String Resource

/-- `nn_level0_cache_` -/
def nnLevel0Cache : ℕ := 100000

/-- `(id | id>>32) % nn_level0_cache_` -/
def level0Index (id : UInt64) : ℕ := (id ||| id >>> 32).toNat % nnLevel0Cache

namespace SrsResourceManager

def new : SrsResourceManager := ⟨[], [], .empty, .empty, fun _ => {}, .empty⟩

def setItem (m : SrsResourceManager) (i : ℕ) (item : SrsResourceFastIdItem) :
    SrsResourceManager :=
  { m with level0Cache := Function.update m.level0Cache i item }

/-- `add(conn, &exists)`: the manager, and `exists`. -/
def add (m : SrsResourceManager) (conn : Resource) : SrsResourceManager × Bool :=
  if conn ∈ m.conns then (m, true) else ({ m with conns := m.conns ++ [conn] }, false)

/-- `add_with_id(id, conn)` -/
def addWithId (m : SrsResourceManager) (id : String) (conn : Resource) : SrsResourceManager :=
  let m := (m.add conn).1
  { m with connsId := m.connsId.set id conn }

/-- `add_with_name(name, conn)` -/
def addWithName (m : SrsResourceManager) (name : String) (conn : Resource) : SrsResourceManager :=
  let m := (m.add conn).1
  { m with connsName := m.connsName.set name conn }

/-- `item->fast_id && item->fast_id == id` -/
def holds (item : SrsResourceFastIdItem) (id : UInt64) : Bool :=
  item.fastId ≠ 0 ∧ item.fastId = id

/-- A fresh item, and the count of a collision. -/
def buildItem (item : SrsResourceFastIdItem) (id : UInt64) (conn : Resource) :
    SrsResourceFastIdItem :=
  let item := if item.fastId = 0 then ⟨true, 1, id, some conn⟩ else item
  if item.fastId ≠ id then
    { item with nnCollisions := item.nnCollisions + 1, available := false }
  else item

/-- The level-0 cache, for a new resource. -/
def buildLevel0 (m : SrsResourceManager) (id : UInt64) (conn : Resource) : SrsResourceManager :=
  let item := m.level0Cache (level0Index id)
  if holds item id then m else m.setItem (level0Index id) (buildItem item id conn)

/-- `add_with_fast_id(id, conn)` -/
def addWithFastId (m : SrsResourceManager) (id : UInt64) (conn : Resource) :
    SrsResourceManager :=
  let (m, exists') := m.add conn
  let m := { m with connsFastId := m.connsFastId.set id conn }
  if exists' then m else m.buildLevel0 id conn

/-- `find_by_id(id)` -/
def findById (m : SrsResourceManager) (id : String) : Option Resource := m.connsId.get? id

/-- `find_by_name(name)` -/
def findByName (m : SrsResourceManager) (name : String) : Option Resource := m.connsName.get? name

/-- `find_by_fast_id(id)` -/
def findByFastId (m : SrsResourceManager) (id : UInt64) : Option Resource :=
  let item := m.level0Cache (level0Index id)
  if item.available ∧ item.fastId = id then item.impl else m.connsFastId.get? id

/-- `remove(c)`: a resource is a zombie once. -/
def remove (m : SrsResourceManager) (c : Resource) : SrsResourceManager :=
  if c ∈ m.zombies then m else { m with zombies := m.zombies ++ [c] }

/-- One fast id less in an item. -/
def release (item : SrsResourceFastIdItem) : SrsResourceFastIdItem :=
  let item := { item with nnCollisions := item.nnCollisions - 1 }
  if item.nnCollisions = 0 then { item with fastId := 0, available := false } else item

/-- The update of the level-0 cache for one fast id that is erased. -/
def releaseId (m : SrsResourceManager) (id : UInt64) : SrsResourceManager :=
  m.setItem (level0Index id) (release (m.level0Cache (level0Index id)))

/-- The fast ids that are bound to a resource. -/
def fastIdsOf (m : SrsResourceManager) (c : Resource) : List UInt64 :=
  (m.connsFastId.entries.filter fun e => e.2 = c).map Prod.fst

/-- The first two loops of `dispose(c)`: the names and the ids of the resource are erased. -/
def unbindNames (m : SrsResourceManager) (c : Resource) : SrsResourceManager :=
  { m with
    connsName := m.connsName.filter fun _ r => r ≠ c
    connsId := m.connsId.filter fun _ r => r ≠ c }

/-- `dispose(c)` -/
def dispose (m : SrsResourceManager) (c : Resource) : SrsResourceManager :=
  let m := (m.fastIdsOf c).foldl releaseId (m.unbindNames c)
  { m with
    connsFastId := m.connsFastId.filter fun _ r => r ≠ c
    conns := m.conns.erase c }

/-- `clear()`: what it has disposed it also frees. -/
def clear (m : SrsResourceManager) : SrsResourceManager :=
  m.zombies.foldl dispose { m with zombies := [] }

end SrsResourceManager

/-! ## Runs -/

/-- The calls of the manager. -/
inductive Call
  | add (conn : Resource)
  | addWithId (id : String) (conn : Resource)
  | addWithFastId (id : UInt64) (conn : Resource)
  | addWithName (name : String) (conn : Resource)
  | remove (conn : Resource)
  | clear
deriving DecidableEq

/-- The resource that a call is given. -/
def Call.resource : Call → Option Resource
  | .add conn => some conn
  | .addWithId _ conn => some conn
  | .addWithFastId _ conn => some conn
  | .addWithName _ conn => some conn
  | .remove conn => some conn
  | .clear => none

/-- The manager with the calls so far, the last one first, and the disposed resources. -/
structure Managed where
  manager : SrsResourceManager
  history : List Call
  disposed : List Resource

def Managed.init : Managed := ⟨.new, [], []⟩

/-- A call of the manager. -/
def SrsResourceManager.call (m : SrsResourceManager) : Call → SrsResourceManager
  | .add conn => (m.add conn).1
  | .addWithId id conn => m.addWithId id conn
  | .addWithFastId id conn => m.addWithFastId id conn
  | .addWithName name conn => m.addWithName name conn
  | .remove conn => m.remove conn
  | .clear => m.clear

/-- The resources that a call disposes. -/
def SrsResourceManager.disposes (m : SrsResourceManager) : Call → List Resource
  | .clear => m.zombies
  | _ => []

/-- A call with a resource that has not been freed. -/
def step (s : Managed) (c : Call) : Option Managed :=
  if ∀ conn ∈ c.resource, conn ∉ s.disposed then
    some ⟨s.manager.call c, c :: s.history, s.disposed ++ s.manager.disposes c⟩
  else none

/-- The resource of the latest `add_with_fast_id` for this id. -/
def latest (id : UInt64) : List Call → Option Resource
  | [] => none
  | .addWithFastId id' conn :: history => if id' = id then some conn else latest id history
  | _ :: history => latest id history

/-- What a lookup of a fast id should return: that resource, unless it has been disposed. -/
def Managed.bound (s : Managed) (id : UInt64) : Option Resource :=
  (latest id s.history).filter (· ∉ s.disposed)

/-- The calls that leave no stale item: when the item of `id` answers lookups of `id`, it has
`conn` already, or it is replaced, which happens for new resources with the id 0. -/
def KeepsItem (s : Managed) : Call → Prop
  | .addWithFastId id conn =>
    let item := s.manager.level0Cache (level0Index id)
    item.available = true → item.fastId = id →
      item.impl = some conn ∨ id = 0 ∧ conn ∉ s.manager.conns
  | _ => True

instance (s : Managed) (c : Call) : Decidable (KeepsItem s c) := by
  cases c <;> unfold KeepsItem <;> infer_instance

/-! ## The cache agrees with the map -/

/-- An available item is that of its id alone, and has the resource of the map. -/
structure ItemAgrees (connsFastId : Dict UInt64 Resource) (item : SrsResourceFastIdItem)
    (i : ℕ) : Prop where
  alone : item.nnCollisions = 1
  index : level0Index item.fastId = i
  impl : connsFastId.get? item.fastId = item.impl

def CacheAgrees (m : SrsResourceManager) : Prop :=
  ∀ i, (m.level0Cache i).available = true → ItemAgrees m.connsFastId (m.level0Cache i) i

namespace SrsResourceManager

variable {m : SrsResourceManager}

/-- A lookup through the cache is one in the map. -/
theorem findByFastId_eq (h : CacheAgrees m) (id : UInt64) :
    m.findByFastId id = m.connsFastId.get? id := by
  unfold findByFastId
  dsimp only
  split
  case isTrue hhit =>
    obtain ⟨havailable, hid⟩ := hhit
    have hitem := h (level0Index id) havailable
    rw [← hitem.impl, hid]
  case isFalse => rfl

@[simp] theorem level0Cache_add (conn : Resource) : (m.add conn).1.level0Cache = m.level0Cache := by
  unfold add
  split <;> rfl

@[simp] theorem connsFastId_add (conn : Resource) : (m.add conn).1.connsFastId = m.connsFastId := by
  unfold add
  split <;> rfl

theorem exists_add (conn : Resource) : (m.add conn).2 = decide (conn ∈ m.conns) := by
  unfold add
  split
  case isTrue h => exact (decide_eq_true h).symm
  case isFalse h => exact (decide_eq_false h).symm

theorem level0Cache_setItem (i j : ℕ) (item : SrsResourceFastIdItem) :
    (m.setItem i item).level0Cache j = if j = i then item else m.level0Cache j := by
  unfold setItem
  exact Function.update_apply _ _ _ _

variable {item : SrsResourceFastIdItem}

/-- An item that is available after it was built is that of its id and has the new resource. -/
theorem buildItem_available {id : UInt64} {conn : Resource}
    (hnot : holds item id = false) (h : (buildItem item id conn).available = true) :
    buildItem item id conn = ⟨true, 1, id, some conn⟩ := by
  unfold buildItem at h ⊢
  by_cases hzero : item.fastId = 0
  · rw [if_pos hzero]
    exact if_neg fun hne => hne rfl
  · have hne : item.fastId ≠ id := fun heq => of_decide_eq_false hnot ⟨hzero, heq⟩
    rw [if_neg hzero] at h
    dsimp only at h
    rw [if_pos hne] at h
    cases h

/-- What the map and the cache are after a resource has been bound to a fast id. -/
theorem connsFastId_addWithFastId (id : UInt64) (conn : Resource) :
    (m.addWithFastId id conn).connsFastId = m.connsFastId.set id conn := by
  unfold addWithFastId buildLevel0 setItem
  dsimp only
  split
  · rw [connsFastId_add]
  · split <;> rw [← connsFastId_add (m := m) conn]

theorem level0Cache_buildLevel0 (id : UInt64) (conn : Resource) (i : ℕ) :
    (m.buildLevel0 id conn).level0Cache i =
      if i = level0Index id ∧ holds (m.level0Cache i) id = false
      then buildItem (m.level0Cache i) id conn else m.level0Cache i := by
  unfold buildLevel0
  dsimp only
  by_cases hi : i = level0Index id
  · subst hi
    cases hholds : holds (m.level0Cache (level0Index id)) id with
    | true =>
      rw [if_pos rfl]
      exact (if_neg fun h => Bool.noConfusion h.2).symm
    | false =>
      rw [if_neg Bool.false_ne_true, level0Cache_setItem, if_pos rfl]
      exact (if_pos ⟨rfl, rfl⟩).symm
  · have hother : ¬ (i = level0Index id ∧ holds (m.level0Cache i) id = false) := fun h => hi h.1
    rw [if_neg hother]
    split
    · rfl
    · rw [level0Cache_setItem, if_neg hi]

theorem level0Cache_addWithFastId (id : UInt64) (conn : Resource) (i : ℕ) :
    (m.addWithFastId id conn).level0Cache i =
      if conn ∉ m.conns ∧ i = level0Index id ∧ holds (m.level0Cache i) id = false
      then buildItem (m.level0Cache i) id conn else m.level0Cache i := by
  have hexists := exists_add (m := m) conn
  have hcache := level0Cache_add (m := m) conn
  unfold addWithFastId
  generalize m.add conn = added at hexists hcache
  obtain ⟨m', b⟩ := added
  dsimp only at hexists hcache ⊢
  by_cases hmem : conn ∈ m.conns
  · rw [hexists, decide_eq_true hmem, if_pos rfl, if_neg fun h => h.1 hmem]
    exact congrFun hcache i
  · rw [hexists, decide_eq_false hmem, if_neg Bool.false_ne_true, level0Cache_buildLevel0]
    simp only [hcache, hmem, not_false_eq_true, true_and]

/-- The cache agrees with the map after a call that keeps the item. -/
theorem cacheAgrees_addWithFastId (h : CacheAgrees m) {id : UInt64} {conn : Resource}
    (hkeeps : (m.level0Cache (level0Index id)).available = true →
      (m.level0Cache (level0Index id)).fastId = id →
      (m.level0Cache (level0Index id)).impl = some conn ∨ id = 0 ∧ conn ∉ m.conns) :
    CacheAgrees (m.addWithFastId id conn) := by
  intro i havailable
  have hitem := level0Cache_addWithFastId (m := m) id conn i
  by_cases hbuilt : conn ∉ m.conns ∧ i = level0Index id ∧ holds (m.level0Cache i) id = false
  · rw [if_pos hbuilt] at hitem
    rw [hitem] at havailable
    rw [buildItem_available hbuilt.2.2 havailable] at hitem
    refine ⟨?_, ?_, ?_⟩
    · rw [hitem]
    · rw [hitem]
      exact hbuilt.2.1.symm
    · rw [hitem, connsFastId_addWithFastId, Dict.get?_set_self]
  · rw [if_neg hbuilt] at hitem
    rw [hitem] at havailable
    obtain ⟨halone, hindex, himpl⟩ := h i havailable
    refine ⟨?_, ?_, ?_⟩
    · rw [hitem, halone]
    · rw [hitem, hindex]
    · rw [hitem, connsFastId_addWithFastId, Dict.get?_set]
      by_cases hid : id = (m.level0Cache i).fastId
      · -- the item of this id has not been built anew, so it must have the resource
        have hi : i = level0Index id := by rw [hid, hindex]
        rw [if_pos hid]
        rw [hi] at havailable hid hbuilt
        cases hkeeps havailable hid.symm with
        | inl hsame => rw [hi, hsame]
        | inr hzero =>
          have hholds : holds (m.level0Cache (level0Index id)) id = false :=
            decide_eq_false fun hh => hh.1 (hid.symm.trans hzero.1)
          exact absurd ⟨hzero.2, rfl, hholds⟩ hbuilt
      · rw [if_neg hid, himpl]

/-- An item that answered lookups does not do so after one of its ids was released. -/
theorem available_release
    (h : item.available = true → item.nnCollisions = 1) : (release item).available = false := by
  unfold release
  dsimp only
  split
  case isTrue => rfl
  case isFalse hne =>
    cases hitem : item.available with
    | true =>
      rw [h hitem] at hne
      exact absurd rfl hne
    | false => rfl

/-- Releasing ids changes only the cache, and no item becomes available by it. -/
theorem foldl_releaseId (ids : List UInt64)
    (h : ∀ i, (m.level0Cache i).available = true → (m.level0Cache i).nnCollisions = 1) :
    ids.foldl releaseId m = { m with level0Cache := (ids.foldl releaseId m).level0Cache } ∧
    ∀ i, ((ids.foldl releaseId m).level0Cache i).available = true →
      (∀ id ∈ ids, level0Index id ≠ i) ∧
      (ids.foldl releaseId m).level0Cache i = m.level0Cache i := by
  induction ids generalizing m with
  | nil =>
    refine ⟨rfl, fun i _ => ⟨?_, rfl⟩⟩
    intro id hid
    cases hid
  | cons id ids ih =>
    have hunavailable : (release (m.level0Cache (level0Index id))).available = false :=
      available_release (h (level0Index id))
    have hitems : ∀ i, ((m.releaseId id).level0Cache i).available = true →
        i ≠ level0Index id ∧ (m.releaseId id).level0Cache i = m.level0Cache i := by
      intro i havailable
      unfold releaseId at havailable ⊢
      rw [level0Cache_setItem] at havailable ⊢
      split at havailable
      · rw [hunavailable] at havailable
        cases havailable
      · next hne => exact ⟨hne, if_neg hne⟩
    have hnext : ∀ i, ((m.releaseId id).level0Cache i).available = true →
        ((m.releaseId id).level0Cache i).nnCollisions = 1 := by
      intro i havailable
      have hsame := (hitems i havailable).2
      rw [hsame] at havailable ⊢
      exact h i havailable
    obtain ⟨hrest, hkept⟩ := ih hnext
    refine ⟨hrest, fun i havailable => ?_⟩
    obtain ⟨hothers, hsame⟩ := hkept i havailable
    have hitem := hitems i (hsame ▸ havailable)
    refine ⟨?_, hsame.trans hitem.2⟩
    intro id' hid'
    cases List.mem_cons.mp hid' with
    | inl heq => exact heq ▸ hitem.1.symm
    | inr hmem => exact hothers id' hmem

/-- What `dispose` leaves of the map and of the cache. -/
theorem connsFastId_dispose (h : CacheAgrees m) (c : Resource) :
    (m.dispose c).connsFastId = m.connsFastId.filter fun _ r => r ≠ c := by
  have hrest := (foldl_releaseId (m := m.unbindNames c) (m.fastIdsOf c)
    fun j hj => (h j hj).alone).1
  show ((m.fastIdsOf c).foldl releaseId (m.unbindNames c)).connsFastId.filter
    (fun _ r => r ≠ c) = _
  rw [hrest]
  rfl

/-- An item that survives the disposal of a resource is not that of an id of this resource. -/
theorem cacheAgrees_dispose (h : CacheAgrees m) (c : Resource) : CacheAgrees (m.dispose c) := by
  intro i havailable
  have hkept := (foldl_releaseId (m := m.unbindNames c) (m.fastIdsOf c)
    fun j hj => (h j hj).alone).2 i havailable
  have hitem : (m.dispose c).level0Cache i = m.level0Cache i := hkept.2
  rw [hitem] at havailable
  obtain ⟨hone, hindex, himpl⟩ := h i havailable
  refine ⟨?_, ?_, ?_⟩
  · rw [hitem, hone]
  · rw [hitem, hindex]
  · rw [hitem, connsFastId_dispose h, Dict.get?_filter]
    cases hget : m.connsFastId.get? (m.level0Cache i).fastId with
    | none => rw [← himpl, hget, Option.filter_none]
    | some r =>
      have hne : r ≠ c := by
        intro heq
        have hmem : ((m.level0Cache i).fastId, c) ∈ m.connsFastId.entries :=
          (Dict.mem_entries_iff _ _ _).mpr (heq ▸ hget)
        have hid : (m.level0Cache i).fastId ∈ m.fastIdsOf c :=
          List.mem_map.mpr ⟨_, List.mem_filter.mpr ⟨hmem, decide_eq_true rfl⟩, rfl⟩
        exact hkept.1 _ hid hindex
      rw [← himpl, hget, Option.filter_some, if_pos (decide_eq_true hne)]

theorem cacheAgrees_clear (h : CacheAgrees m) : CacheAgrees m.clear := by
  have hfold : ∀ (copy : List Resource) (m : SrsResourceManager), CacheAgrees m →
      CacheAgrees (copy.foldl dispose m) := by
    intro copy
    induction copy with
    | nil => exact fun m h => h
    | cons c copy ih => exact fun m h => ih (m.dispose c) (cacheAgrees_dispose h c)
  exact hfold m.zombies { m with zombies := [] } fun i hi => h i hi

end SrsResourceManager

/-! ## Disposed resources -/

/-- A map without the entries of some resources. -/
theorem get?_foldl_filter {κ : Type} [DecidableEq κ] (copy : List Resource) (d : Dict κ Resource)
    (k : κ) :
    (copy.foldl (fun d c => d.filter fun _ r => r ≠ c) d).get? k =
      (d.get? k).filter (· ∉ copy) := by
  induction copy generalizing d with
  | nil =>
    rw [List.foldl_nil]
    cases d.get? k with
    | none => rfl
    | some r => rfl
  | cons c copy ih =>
    rw [List.foldl_cons, ih, Dict.get?_filter, Option.filter_filter]
    congr 1
    funext r
    simp [List.mem_cons, not_or]

namespace SrsResourceManager

variable {m : SrsResourceManager}

/-- What is left of the three maps by `clear`. -/
theorem connsFastId_clear (h : CacheAgrees m) (id : UInt64) :
    m.clear.connsFastId.get? id = (m.connsFastId.get? id).filter (· ∉ m.zombies) := by
  have hfold : ∀ (copy : List Resource) (m : SrsResourceManager), CacheAgrees m →
      (copy.foldl dispose m).connsFastId =
        copy.foldl (fun d c => d.filter fun _ r => r ≠ c) m.connsFastId := by
    intro copy
    induction copy with
    | nil => exact fun m h => rfl
    | cons c copy ih =>
      intro m h
      rw [List.foldl_cons, ih (m.dispose c) (cacheAgrees_dispose h c), connsFastId_dispose h]
      rfl
  rw [clear, hfold m.zombies { m with zombies := [] } fun i hi => h i hi, get?_foldl_filter]

theorem connsId_releaseIds (ids : List UInt64) (m : SrsResourceManager) :
    (ids.foldl releaseId m).connsId = m.connsId ∧
      (ids.foldl releaseId m).connsName = m.connsName := by
  induction ids generalizing m with
  | nil => exact ⟨rfl, rfl⟩
  | cons id ids ih => exact ih (m.releaseId id)

theorem connsId_clear (id : String) :
    m.clear.connsId.get? id = (m.connsId.get? id).filter (· ∉ m.zombies) := by
  have hfold : ∀ (copy : List Resource) (m : SrsResourceManager),
      (copy.foldl dispose m).connsId =
        copy.foldl (fun d c => d.filter fun _ r => r ≠ c) m.connsId := by
    intro copy
    induction copy with
    | nil => exact fun m => rfl
    | cons c copy ih =>
      intro m
      have hone : (m.dispose c).connsId = m.connsId.filter fun _ r => r ≠ c :=
        (connsId_releaseIds (m.fastIdsOf c) (m.unbindNames c)).1
      rw [List.foldl_cons, ih, hone]
      rfl
  rw [clear, hfold, get?_foldl_filter]

theorem connsName_clear (name : String) :
    m.clear.connsName.get? name = (m.connsName.get? name).filter (· ∉ m.zombies) := by
  have hfold : ∀ (copy : List Resource) (m : SrsResourceManager),
      (copy.foldl dispose m).connsName =
        copy.foldl (fun d c => d.filter fun _ r => r ≠ c) m.connsName := by
    intro copy
    induction copy with
    | nil => exact fun m => rfl
    | cons c copy ih =>
      intro m
      have hone : (m.dispose c).connsName = m.connsName.filter fun _ r => r ≠ c :=
        (connsId_releaseIds (m.fastIdsOf c) (m.unbindNames c)).2
      rw [List.foldl_cons, ih, hone]
      rfl
  rw [clear, hfold, get?_foldl_filter]

end SrsResourceManager

/-! ## Lookups -/

/-- The cache agrees with the map, and the maps have what is bound and not disposed. -/
structure Inv (s : Managed) : Prop where
  cache : CacheAgrees s.manager
  fastIds : ∀ id, s.manager.connsFastId.get? id = s.bound id
  ids : ∀ id r, s.manager.findById id = some r → r ∉ s.disposed
  names : ∀ name r, s.manager.findByName name = some r → r ∉ s.disposed

theorem inv_init : Inv Managed.init := by
  refine ⟨?_, fun _ => rfl, ?_, ?_⟩
  · intro i h
    cases h
  · intro id r h
    cases h
  · intro name r h
    cases h

variable {s : Managed}

/-- The freed resources are what they were, and the three maps change by at most one binding of a
resource that is not freed. -/
theorem Inv.clear (h : Inv s) :
    Inv ⟨s.manager.clear, .clear :: s.history, s.disposed ++ s.manager.zombies⟩ := by
  refine ⟨SrsResourceManager.cacheAgrees_clear h.cache, ?_, ?_, ?_⟩
  · intro id
    show s.manager.clear.connsFastId.get? id =
      (latest id s.history).filter (· ∉ s.disposed ++ s.manager.zombies)
    rw [SrsResourceManager.connsFastId_clear h.cache, h.fastIds, Managed.bound,
      Option.filter_filter]
    congr 1
    funext r
    simp only [List.mem_append, not_or, Bool.decide_and]
  · intro id r hget
    have hfilter : (s.manager.connsId.get? id).filter (· ∉ s.manager.zombies) = some r :=
      (SrsResourceManager.connsId_clear id).symm.trans hget
    obtain ⟨hold, hzombie⟩ := Option.filter_eq_some_iff.mp hfilter
    intro hmem
    cases List.mem_append.mp hmem with
    | inl hdisposed => exact h.ids id r hold hdisposed
    | inr hnew => exact of_decide_eq_true hzombie hnew
  · intro name r hget
    have hfilter : (s.manager.connsName.get? name).filter (· ∉ s.manager.zombies) = some r :=
      (SrsResourceManager.connsName_clear name).symm.trans hget
    obtain ⟨hold, hzombie⟩ := Option.filter_eq_some_iff.mp hfilter
    intro hmem
    cases List.mem_append.mp hmem with
    | inl hdisposed => exact h.names name r hold hdisposed
    | inr hnew => exact of_decide_eq_true hzombie hnew

theorem maps_add (m : SrsResourceManager) (conn : Resource) :
    (m.add conn).1.connsId = m.connsId ∧ (m.add conn).1.connsName = m.connsName := by
  unfold SrsResourceManager.add
  split <;> exact ⟨rfl, rfl⟩

theorem Inv.addWithFastId (h : Inv s) {id : UInt64} {conn : Resource}
    (hlive : conn ∉ s.disposed) (hkeeps : KeepsItem s (.addWithFastId id conn)) :
    Inv ⟨s.manager.addWithFastId id conn, .addWithFastId id conn :: s.history, s.disposed⟩ := by
  have hids : (s.manager.addWithFastId id conn).connsId = s.manager.connsId ∧
      (s.manager.addWithFastId id conn).connsName = s.manager.connsName := by
    have hadd := maps_add s.manager conn
    unfold SrsResourceManager.addWithFastId
    generalize s.manager.add conn = added at hadd
    obtain ⟨m, b⟩ := added
    dsimp only at hadd ⊢
    split
    · exact hadd
    · unfold SrsResourceManager.buildLevel0
      dsimp only
      split
      · exact hadd
      · exact hadd
  refine ⟨SrsResourceManager.cacheAgrees_addWithFastId h.cache hkeeps, ?_, ?_, ?_⟩
  · intro id'
    show (s.manager.addWithFastId id conn).connsFastId.get? id' = _
    rw [SrsResourceManager.connsFastId_addWithFastId, Dict.get?_set, Managed.bound, latest]
    split
    · rw [Option.filter_some, if_pos (decide_eq_true hlive)]
    · exact h.fastIds id'
  · intro id' r hget
    apply h.ids id' r
    rw [← hget]
    show _ = (s.manager.addWithFastId id conn).connsId.get? id'
    rw [hids.1]
    rfl
  · intro name r hget
    apply h.names name r
    rw [← hget]
    show _ = (s.manager.addWithFastId id conn).connsName.get? name
    rw [hids.2]
    rfl

/-- The calls that bind no fast id and dispose nothing. -/
theorem Inv.frame (h : Inv s) {m : SrsResourceManager} {c : Call}
    (hlatest : ∀ id, latest id (c :: s.history) = latest id s.history)
    (hcache : m.level0Cache = s.manager.level0Cache) (hfast : m.connsFastId = s.manager.connsFastId)
    (hids : ∀ id r, m.findById id = some r → r ∉ s.disposed)
    (hnames : ∀ name r, m.findByName name = some r → r ∉ s.disposed) :
    Inv ⟨m, c :: s.history, s.disposed⟩ := by
  refine ⟨?_, ?_, hids, hnames⟩
  · intro i
    show (m.level0Cache i).available = true → ItemAgrees m.connsFastId (m.level0Cache i) i
    rw [hcache, hfast]
    exact h.cache i
  · intro id
    show m.connsFastId.get? id = (latest id (c :: s.history)).filter _
    rw [hfast, hlatest]
    exact h.fastIds id

section Live

variable {κ : Type} [DecidableEq κ] {d d' : Dict κ Resource} {disposed : List Resource}

theorem live_of_eq (h : ∀ k r, d.get? k = some r → r ∉ disposed) (heq : d' = d) :
    ∀ k r, d'.get? k = some r → r ∉ disposed := by
  rw [heq]
  exact h

/-- A dictionary with one more binding, to a resource that is not freed. -/
theorem live_set (h : ∀ k r, d.get? k = some r → r ∉ disposed) {conn : Resource}
    (hlive : conn ∉ disposed) (k : κ) :
    ∀ k' r, (d.set k conn).get? k' = some r → r ∉ disposed := by
  intro k' r hget
  rw [Dict.get?_set] at hget
  split at hget
  · cases hget
    exact hlive
  · exact h k' r hget

end Live

theorem Inv.step {t : Managed} {c : Call} (h : Inv s) (hguard : KeepsItem s c)
    (hstep : step s c = some t) : Inv t := by
  unfold ResourceManager.step at hstep
  split at hstep
  case isFalse => cases hstep
  case isTrue hresource =>
    cases hstep
    have hids := fun conn => live_of_eq h.ids (maps_add s.manager conn).1
    have hnames := fun conn => live_of_eq h.names (maps_add s.manager conn).2
    cases c with
    | add conn =>
      rw [show s.manager.disposes _ = [] from rfl, List.append_nil]
      exact h.frame (fun _ => rfl) (SrsResourceManager.level0Cache_add conn)
        (SrsResourceManager.connsFastId_add conn) (hids conn) (hnames conn)
    | addWithId id conn =>
      rw [show s.manager.disposes _ = [] from rfl, List.append_nil]
      exact h.frame (fun _ => rfl) (SrsResourceManager.level0Cache_add conn)
        (SrsResourceManager.connsFastId_add conn)
        (live_set (hids conn) (hresource conn rfl) id) (hnames conn)
    | addWithFastId id conn =>
      rw [show s.manager.disposes _ = [] from rfl, List.append_nil]
      exact h.addWithFastId (hresource conn rfl) hguard
    | addWithName name conn =>
      rw [show s.manager.disposes _ = [] from rfl, List.append_nil]
      exact h.frame (fun _ => rfl) (SrsResourceManager.level0Cache_add conn)
        (SrsResourceManager.connsFastId_add conn) (hids conn)
        (live_set (hnames conn) (hresource conn rfl) name)
    | remove conn =>
      rw [show s.manager.disposes _ = [] from rfl, List.append_nil]
      have hsame : ∃ zombies, s.manager.remove conn = { s.manager with zombies := zombies } := by
        unfold SrsResourceManager.remove
        split
        · exact ⟨s.manager.zombies, rfl⟩
        · exact ⟨_, rfl⟩
      obtain ⟨zombies, hzombies⟩ := hsame
      show Inv ⟨s.manager.remove conn, _, _⟩
      rw [hzombies]
      exact h.frame (fun _ => rfl) rfl rfl h.ids h.names
    | clear => exact h.clear

/-- In every run whose calls keep the items of the cache, a lookup by fast id returns the resource
that was bound last, if it has not been disposed, and no lookup returns a disposed resource. -/
theorem find_of_keepsItem {s : Managed} (hrun : System.Reaches step KeepsItem .init s) :
    (∀ id, s.manager.findByFastId id = s.bound id) ∧
    (∀ id r, s.manager.findByFastId id = some r → r ∉ s.disposed) ∧
    (∀ id r, s.manager.findById id = some r → r ∉ s.disposed) ∧
    (∀ name r, s.manager.findByName name = some r → r ∉ s.disposed) := by
  have hinv : Inv s := hrun.invariant (fun _ _ _ h hguard hstep => h.step hguard hstep) inv_init
  have hbound : ∀ id, s.manager.findByFastId id = s.bound id := fun id =>
    (SrsResourceManager.findByFastId_eq hinv.cache id).trans (hinv.fastIds id)
  refine ⟨hbound, ?_, hinv.ids, hinv.names⟩
  intro id r hget
  have hfilter : (latest id s.history).filter (· ∉ s.disposed) = some r := (hbound id).symm.trans hget
  exact of_decide_eq_true (Option.filter_eq_some_iff.mp hfilter).2

/-- Two ids of one index, one of them bound again, and a disposal. -/
def collidingCalls : List Call :=
  [.addWithFastId 5 1, .addWithFastId 100005 2, .addWithFastId 100005 3, .remove 1, .clear]

theorem find_collidingCalls : ∃ s : Managed, s.disposed = [1] ∧
    s.manager.findByFastId 100005 = some 3 ∧ s.manager.findByFastId 5 = none := by
  obtain ⟨s, hrun, -, hobs⟩ := System.reaches_of_observe step KeepsItem .init collidingCalls
    (fun s => (s.disposed, s.bound 100005, s.bound 5)) (b := ([1], some 3, none)) (by decide)
  obtain ⟨hdisposed, hsecond, hfirst⟩ :
      s.disposed = [1] ∧ s.bound 100005 = some 3 ∧ s.bound 5 = none := by
    simpa using hobs
  have hfind := (find_of_keepsItem hrun).1
  exact ⟨s, hdisposed, (hfind 100005).trans hsecond, (hfind 5).trans hfirst⟩

/-- An id is bound to a second resource, and then the first one is disposed. -/
def reboundCalls : List Call :=
  [.addWithFastId 5 1, .addWithFastId 5 2, .remove 1, .clear]

/-- The lookup returns the disposed resource, and not the one that was bound last. -/
theorem reboundCalls_stale : ∃ s, System.Reaches step System.anyStep .init s ∧
    s.bound 5 = some 2 ∧ s.manager.findByFastId 5 = some 1 ∧ 1 ∈ s.disposed := by
  obtain ⟨s, hrun, -, hobs⟩ := System.reaches_of_observe step System.anyStep .init reboundCalls
    (fun s => (s.bound 5, s.manager.findByFastId 5, s.disposed)) (b := (some 2, some 1, [1]))
    (by decide)
  obtain ⟨hbound, hfind, hdisposed⟩ :
      s.bound 5 = some 2 ∧ s.manager.findByFastId 5 = some 1 ∧ s.disposed = [1] := by
    simpa using hobs
  exact ⟨s, hrun, hbound, hfind, by rw [hdisposed]; decide⟩

end SrsChatRoom.App.ResourceManager
