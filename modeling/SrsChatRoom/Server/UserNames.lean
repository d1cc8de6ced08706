import SrsChatRoom.Server.LogoutAll

/-!
# Renaming a user (`UserStore.update_username`)

A record stays at the key it was created at, and its `username` is what a rename changes. Before
that, `update_username` compares the new name with the key, so a user who goes back to the name of
the key is told that it is done, and keeps the name of the last rename.
-/

namespace SrsChatRoom.Server.Accounts

open Auth (AuthError Token seconds)

/-! ## Code -/

/-- `_user_id_to_name`, as `_load` builds it: of two records with one id the later counts. -/
def userIdToName (users : Dict String Record) : Dict String String :=
  (users.entries.filter fun e => e.2.userId ≠ "").foldl (fun d e => d.set e.2.userId e.1) Dict.empty

/-- The scan at the end of `get_by_user_id`. -/
def scanUserId (users : Dict String Record) (userId : String) : Option Record :=
  (users.entries.find? fun e => e.2.userId = userId).map Prod.snd

/-- `get_by_user_id`, with the index. -/
def getByUserId (index : Dict String String) (users : Dict String Record) (userId : String) :
    Option Record :=
  match (index.get? userId).filter (· ≠ "") with
  | some name => (users.get? name).or (scanUserId users userId)
  | none => scanUserId users userId

/-- `get_by_user_id` behind a restart. -/
def UserStore.getAfterRestart (s : UserStore) (userId : String) : Option Record :=
  getByUserId (userIdToName (UserStore.load s.file).users) (UserStore.load s.file).users userId

/-! ## Looking up a user id -/

section
variable {users : Dict String Record} {key userId : String} {record : Record}

/-- No other record has the id. -/
def OnlyAt (users : Dict String Record) (key userId : String) : Prop :=
  ∀ key', ids users key' = some userId → key' = key

/-- The entry of an index at an id that one record has. -/
theorem get?_foldl_index (l : List (String × Record)) (d : Dict String String)
    (honly : ∀ e ∈ l, e.2.userId = userId → e.1 = key)
    (hd : d.get? userId = some key ∨ ∃ e ∈ l, e.2.userId = userId) :
    (l.foldl (fun d e => d.set e.2.userId e.1) d).get? userId = some key := by
  induction l generalizing d with
  | nil => simpa using hd
  | cons e l ih =>
    rw [List.foldl_cons]
    apply ih
    · intro x hx
      exact honly x (List.mem_cons_of_mem _ hx)
    · rw [Dict.get?_set]
      by_cases he : e.2.userId = userId
      · rw [if_pos he, honly e List.mem_cons_self he]
        exact .inl rfl
      · rw [if_neg he]
        simpa [he] using hd

theorem userIdToName_get? (hget : users.get? key = some record) (hid : record.userId = userId)
    (hne : userId ≠ "") (honly : OnlyAt users key userId) :
    (userIdToName users).get? userId = some key := by
  apply get?_foldl_index
  · intro e he hmatch
    have hmem := (List.mem_filter.mp he).1
    apply honly
    rw [ids_of_get? ((users.mem_entries_iff e.1 e.2).mp hmem), hmatch]
  · refine .inr ⟨(key, record), ?_, hid⟩
    exact List.mem_filter.mpr ⟨(users.mem_entries_iff _ _).mpr hget, by simpa [hid] using hne⟩

/-- The record of an id that one record has is found through the index. -/
theorem getByUserId_eq (hget : users.get? key = some record) (hid : record.userId = userId)
    (hne : userId ≠ "") (hkey : key ≠ "") (honly : OnlyAt users key userId) :
    getByUserId (userIdToName users) users userId = some record := by
  rw [getByUserId, userIdToName_get? hget hid hne honly, Option.filter_some,
    if_pos (by simpa using hkey)]
  simp [hget]

end

/-! ## The effect of a rename -/

/-- Every record of the user has the name, and there is one. -/
def Named (users : Dict String Record) (userId name : String) : Prop :=
  (∃ key record, users.get? key = some record ∧ record.userId = userId) ∧
    ∀ key record, users.get? key = some record → record.userId = userId → record.username = name

/-- The user has the name in memory, in the file, and for `get_by_user_id` behind a restart. -/
structure TakesEffect (s : UserStore) (userId name : String) : Prop where
  memory : Named s.users userId name
  file : Named (s.file.getD Dict.empty) userId name
  restarted : (s.getAfterRestart userId).map Record.username = some name

/-- Where the key of the user's record is the name, the record has it too. -/
def KeyNamed (users : Dict String Record) (userId name : String) : Prop :=
  ∀ record, users.get? name = some record → record.userId = userId → record.username = name

section
variable {users : Dict String Record} {key userId name : String} {record : Record}

theorem named_iff (hget : users.get? key = some record) (hid : record.userId = userId)
    (honly : OnlyAt users key userId) : Named users userId name ↔ record.username = name := by
  constructor
  · intro h
    exact h.2 key record hget hid
  · intro h
    refine ⟨⟨key, record, hget, hid⟩, ?_⟩
    intro key' record' hget' hid'
    have hkey : key' = key := honly key' (by rw [ids_of_get? hget', hid'])
    rw [hkey, hget] at hget'
    rw [← Option.some.inj hget', h]

/-- With one record of the user in memory and in the file, at the same key, only these count. -/
theorem takesEffect_iff {s : UserStore} {filed : Record} (hne : userId ≠ "") (hkey : key ≠ "")
    (hget : s.users.get? key = some record) (hid : record.userId = userId)
    (honly : OnlyAt s.users key userId) (hfiled : (s.file.getD Dict.empty).get? key = some filed)
    (hfiledId : filed.userId = userId) (hfiledOnly : OnlyAt (s.file.getD Dict.empty) key userId) :
    TakesEffect s userId name ↔ record.username = name ∧ filed.username = name := by
  have hrestart : s.getAfterRestart userId = some filed :=
    getByUserId_eq hfiled hfiledId hne hkey hfiledOnly
  constructor
  · rintro ⟨hmemory, hfile, -⟩
    exact ⟨(named_iff hget hid honly).mp hmemory, (named_iff hfiled hfiledId hfiledOnly).mp hfile⟩
  · rintro ⟨hmemory, hfile⟩
    refine ⟨(named_iff hget hid honly).mpr hmemory,
      (named_iff hfiled hfiledId hfiledOnly).mpr hfile, ?_⟩
    rw [hrestart, Option.map_some, hfile]

end

variable {userId : String}

/-- In a sound store a user that is found has one record, in memory and in the file. -/
theorem UserStore.Sound.user {s : UserStore} (hs : s.Sound) {e : String × Record}
    (hfind : s.users.entries.find? (fun e => e.2.userId = userId) = some e) :
    userId ≠ "" ∧ e.1 ≠ "" ∧ s.users.get? e.1 = some e.2 ∧ e.2.userId = userId ∧
      OnlyAt s.users e.1 userId ∧ OnlyAt (s.file.getD Dict.empty) e.1 userId ∧
      ∃ filed, (s.file.getD Dict.empty).get? e.1 = some filed ∧ filed.userId = userId := by
  have hget : s.users.get? e.1 = some e.2 :=
    (s.users.mem_entries_iff _ _).mp (List.mem_of_find?_eq_some hfind)
  have hid : e.2.userId = userId := by simpa using List.find?_some hfind
  have hids : ids s.users e.1 = some userId := by rw [ids_of_get? hget, hid]
  have honly : OnlyAt s.users e.1 userId := fun key' hids' => hs.unique key' e.1 userId hids' hids
  have hnamed := hs.named e.1 userId hids
  refine ⟨hnamed.2, hnamed.1, hget, hid, honly, ?_, ?_⟩
  · intro key' hids'
    exact honly key' (by rw [← hs.filed, hids'])
  · have hfiled : ids (s.file.getD Dict.empty) e.1 = some userId := by rw [hs.filed, hids]
    exact Option.map_eq_some_iff.mp hfiled

variable {users : Dict String Record}

theorem keyNamed_self {name : String} {record : Record}
    (hget : users.get? name = some record) (hid : record.userId = userId) :
    KeyNamed users userId name ↔ record.username = name := by
  constructor
  · intro h
    exact h record hget hid
  · intro h record' hget' _
    rw [hget] at hget'
    rw [← Option.some.inj hget', h]

theorem keyNamed_of_ne {key name : String}
    (honly : OnlyAt users key userId) (hne : key ≠ name) : KeyNamed users userId name := by
  intro record hget hid
  exact absurd (honly name (by rw [ids_of_get? hget, hid])).symm hne

/-- A record that is put back under the same id leaves its user at one key. -/
theorem OnlyAt.set {key : String} {record : Record}
    (honly : OnlyAt users key userId) : OnlyAt (users.set key record) key userId := by
  intro key' hids
  rw [ids_set] at hids
  split at hids
  · next heq => exact heq.symm
  · exact honly key' hids

/-- In every state that logins, renames and restarts lead to, a rename that is reported as done has
taken effect exactly if the new name is not the key of the user's record, or the record has this
name anyway, in memory and in the file. -/
theorem rename_takes_effect_iff {pbkdf2 : String → String → String} {now : ℕ} {w : World}
    (h : System.Reaches (step pbkdf2) System.anyStep (World.init now) w) {userId n : String}
    (htrue : (w.store.updateUsername userId n).2 = true) :
    TakesEffect (w.store.updateUsername userId n).1 userId (strip n) ↔
      KeyNamed w.store.users userId (strip n) ∧
        KeyNamed (w.store.file.getD Dict.empty) userId (strip n) := by
  unfold UserStore.updateUsername at htrue ⊢
  cases hfind : w.store.users.entries.find? (fun e => e.2.userId = userId) with
  | none =>
    rw [hfind] at htrue
    cases htrue
  | some e =>
    obtain ⟨oldUsername, record⟩ := e
    obtain ⟨hne, hkey, hget, hid, honly, honlyFiled, filed, hfiled, hfiledId⟩ :=
      (inv_reaches h).sound.user hfind
    dsimp only at hkey hget hid honly honlyFiled hfiled ⊢
    by_cases hsame : oldUsername = strip n
    · -- nothing is done: what was there decides
      rw [if_pos hsame, takesEffect_iff hne hkey hget hid honly hfiled hfiledId honlyFiled]
      rw [hsame] at hget hfiled
      rw [keyNamed_self hget hid, keyNamed_self hfiled hfiledId]
    · rw [if_neg hsame]
      let renamed : Record := { record with username := strip n }
      have hset : (w.store.users.set oldUsername renamed).get? oldUsername = some renamed :=
        Dict.get?_set_self _ _ _
      have hrenamed : renamed.userId = userId := hid
      have heffect : TakesEffect (w.store.put oldUsername renamed).flush userId (strip n) :=
        (takesEffect_iff (s := (w.store.put oldUsername renamed).flush) hne hkey hset hrenamed
          honly.set hset hrenamed honly.set).mpr ⟨rfl, rfl⟩
      constructor
      · intro _
        exact ⟨keyNamed_of_ne honly hsame, keyNamed_of_ne honlyFiled hsame⟩
      · intro _
        exact heffect

/-! ## A rename that works, and one that does not -/

/-- `alice`, whose key is this name, logs in as `carol`: the name is kept. -/
theorem rename_takes_effect_of_carol : ∃ w : World,
    TakesEffect (w.store.updateUsername "user_a" "carol").1 "user_a" (strip "carol") := by
  obtain ⟨w, hrun, -, hobs⟩ := System.reaches_of_observe (step noPassword) System.anyStep
    (World.init 0) [externalLogin "alice" "" "user_a" "t1"]
    (fun w => (w.store.users.get? "carol", (w.store.file.getD Dict.empty).get? "carol",
      (w.store.updateUsername "user_a" "carol").2))
    (b := (none, none, true)) (by decide +kernel)
  obtain ⟨hmemory, hrest⟩ := Prod.mk.inj hobs
  obtain ⟨hfile, htrue⟩ := Prod.mk.inj hrest
  have hstrip : strip "carol" = "carol" := by decide +kernel
  refine ⟨w, (rename_takes_effect_iff hrun htrue).mpr ⟨?_, ?_⟩⟩
  · intro record hget _
    rw [hstrip, hmemory] at hget
    cases hget
  · intro record hget _
    rw [hstrip, hfile] at hget
    cases hget

/-- `alice` becomes `bob` and goes back: the answer is `True`, and she is `bob` in memory, in the
file and behind a restart. -/
theorem rename_back_is_lost : ∃ w : World,
    System.Reaches (step noPassword) System.anyStep (World.init 0) w ∧
      strip "alice" ≠ "" ∧ (w.store.updateUsername "user_a" "alice").2 = true ∧
      ¬ TakesEffect (w.store.updateUsername "user_a" "alice").1 "user_a" (strip "alice") ∧
      ((w.store.updateUsername "user_a" "alice").1.getAfterRestart "user_a").map Record.username
        = some "bob" := by
  obtain ⟨w, hrun, -, hobs⟩ := System.reaches_of_observe (step noPassword) System.anyStep
    (World.init 0) [externalLogin "alice" "bob" "user_a" "t1"]
    (fun w => ((w.store.updateUsername "user_a" "alice").2,
      ((w.store.updateUsername "user_a" "alice").1.getAfterRestart "user_a").map Record.username))
    (b := (true, some "bob")) (by decide +kernel)
  obtain ⟨htrue, hrestart⟩ := Prod.mk.inj hobs
  refine ⟨w, hrun, by decide +kernel, htrue, ?_, hrestart⟩
  intro heffect
  have halice := heffect.restarted
  rw [hrestart] at halice
  exact absurd halice (by decide +kernel)

end SrsChatRoom.Server.Accounts
