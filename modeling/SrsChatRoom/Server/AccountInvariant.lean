import SrsChatRoom.Server.Accounts

/-!
# Who owns which key of the user table

Of a user table the proofs need the user id at each key (`ids`). Every operation leaves the ids as
they are or adds a key for a new id (`Grows`), so in every reachable state each token's user id is
at exactly one key (`Inv.own`), in memory and in the file alike.
-/

namespace SrsChatRoom.Server.Accounts

open Auth (AuthError Token seconds)

/-! ## The ids of a table -/

/-- The user id at a key. -/
def ids (users : Dict String Record) (key : String) : Option String :=
  (users.get? key).map Record.userId

variable {key : String} {record : Record}

theorem ids_of_get? {users : Dict String Record}
    (h : users.get? key = some record) : ids users key = some record.userId := by
  rw [ids, h]
  rfl

theorem ids_set (users : Dict String Record) (key : String) (record : Record) (key' : String) :
    ids (users.set key record) key'
      = if key = key' then some record.userId else ids users key' := by
  unfold ids
  rw [Dict.get?_set]
  split <;> rfl

namespace UserStore

variable {s s' s'' : UserStore}

/-- The file has the same ids at the same keys. -/
def Filed (s : UserStore) : Prop := ∀ key, ids (s.file.getD Dict.empty) key = ids s.users key

/-- The ids stay as they are. -/
structure Keeps (s s' : UserStore) : Prop where
  same : ∀ key, ids s'.users key = ids s.users key
  filed : s.Filed → s'.Filed

/-- The ids stay as they are, or a key is added for one more id. -/
structure Grows (s s' : UserStore) (userId : String) : Prop where
  added : (∀ key, ids s'.users key = ids s.users key) ∨
    ∃ key, key ≠ "" ∧ ids s.users key = none ∧
      ∀ key', ids s'.users key'
        = if key = key' then some userId else ids s.users key'
  filed : s.Filed → s'.Filed

theorem Keeps.refl (s : UserStore) : Keeps s s := ⟨fun _ => rfl, id⟩

theorem Keeps.trans (h : Keeps s s') (h' : Keeps s' s'') : Keeps s s'' := by
  constructor
  · intro key
    rw [h'.same, h.same]
  · exact fun hfiled => h'.filed (h.filed hfiled)

theorem Keeps.grows (h : Keeps s s') (userId : String) : Grows s s' userId := ⟨.inl h.same, h.filed⟩

theorem Grows.keeps {userId : String} (h : Grows s s' userId) (h' : Keeps s' s'') :
    Grows s s'' userId := by
  constructor
  · apply h.added.imp
    · intro hsame key
      rw [h'.same, hsame]
    · rintro ⟨key, hkey, hnone, hadd⟩
      refine ⟨key, hkey, hnone, ?_⟩
      intro key'
      rw [h'.same, hadd]
  · exact fun hfiled => h'.filed (h.filed hfiled)

/-! ## Each operation -/

theorem filed_flush (s : UserStore) : s.flush.Filed := fun _ => rfl

variable {record : Record} {key : String}

/-- A record is changed in place. -/
theorem keeps_put (h : ids s.users key = some record.userId) : Keeps s (s.put key record) := by
  have hids : ∀ key', ids (s.put key record).users key' = ids s.users key' := by
    intro key'
    show ids (s.users.set key record) key' = _
    rw [ids_set]
    split
    · next hkey => rw [← hkey, h]
    · rfl
  constructor
  · exact hids
  · intro hfiled key'
    rw [hids]
    exact hfiled key'

theorem keeps_flush (s : UserStore) : Keeps s s.flush := ⟨fun _ => rfl, fun _ => filed_flush s⟩

/-- A field other than the id is changed, and the table flushed. -/
theorem keeps_put_flush {record' : Record}
    (h : s.users.get? key = some record) (hid : record'.userId = record.userId) :
    Keeps s (s.put key record').flush := by
  have hids : ids s.users key = some record'.userId := by
    rw [hid]
    exact ids_of_get? h
  exact (keeps_put hids).trans (keeps_flush _)

/-- A record is put at a new key. -/
theorem grows_put_flush (hkey : key ≠ "")
    (hnew : s.users.get? key = none) : Grows s (s.put key record).flush record.userId := by
  constructor
  · refine .inr ⟨key, hkey, by rw [ids, hnew]; rfl, ?_⟩
    intro key'
    exact ids_set s.users key record key'
  · exact fun _ => filed_flush _

theorem keeps_updateUsername (userId newUsername : String) :
    Keeps s (s.updateUsername userId newUsername).1 := by
  unfold updateUsername
  split
  · exact .refl s
  · next oldUsername record hfind =>
    split
    · exact .refl s
    · have hget : s.users.get? oldUsername = some record :=
        (s.users.mem_entries_iff _ _).mp (List.mem_of_find?_eq_some hfind)
      exact keeps_put_flush hget rfl

theorem keeps_setRoom (username : String) (roomId : Option String) :
    Keeps s (s.setRoom username roomId) := by
  unfold setRoom
  split
  · exact .refl s
  · next record hget => exact keeps_put_flush hget rfl

theorem keeps_setRole (username role : String) : Keeps s (s.setRole username role) := by
  unfold setRole
  split
  · exact .refl s
  · next record hget => exact keeps_put_flush hget rfl

theorem keeps_load (h : s.Filed) : Keeps s (load s.file) := by
  constructor
  · exact h
  · exact fun _ _ => rfl

theorem register_spec {pbkdf2 : String → String → String} {username password salt userId : String}
    (h : s.register pbkdf2 username password salt userId = .ok (s', record)) :
    Grows s s' userId ∧ ∃ key, s'.users.get? key = some record := by
  unfold register at h
  split at h
  · cases h
  · next hname =>
    split at h
    · cases h
    · split at h
      · cases h
      · next hnew =>
        cases h
        have hkey : strip username ≠ "" := by
          intro hempty
          rw [hempty] at hname
          exact hname (by decide)
        have hget : s.users.get? (strip username) = none := by
          rw [Dict.contains, Bool.not_eq_true, Option.isSome_eq_false_iff] at hnew
          exact Option.isNone_iff_eq_none.mp hnew
        exact ⟨grows_put_flush hkey hget, strip username, Dict.get?_set_self _ _ _⟩

theorem updateUsername_false {userId newUsername : String}
    (h : s.updateUsername userId newUsername = (s', false)) : s' = s := by
  unfold updateUsername at h
  split at h
  · cases h
    rfl
  · split at h <;> cases h

/-- Each key and each id is there, and no id is at two keys. -/
structure Sound (s : UserStore) : Prop where
  filed : s.Filed
  named : ∀ key userId, ids s.users key = some userId → key ≠ "" ∧ userId ≠ ""
  unique : ∀ key key' userId, ids s.users key = some userId →
    ids s.users key' = some userId → key = key'

theorem Sound.completed_userId (h : s.Sound)
    (hget : s.users.get? key = some record) (userId : String) :
    (completed record userId).userId = record.userId := by
  obtain ⟨-, hid⟩ := h.named key record.userId (ids_of_get? hget)
  exact if_pos hid

theorem verify_spec (hs : s.Sound) (pbkdf2 : String → String → String)
    (username password userId : String) :
    Keeps s (s.verify pbkdf2 username password userId).1 ∧
      ∀ record, (s.verify pbkdf2 username password userId).2 = .ok record →
        (s.verify pbkdf2 username password userId).1.users.get? (strip username) = some record := by
  unfold verify
  have hrefused : ∀ (e : AuthError) (record : Record), Except.error e ≠ Except.ok record := by
    intro e record h
    cases h
  split
  · exact ⟨.refl s, fun _ h => absurd h (hrefused _ _)⟩
  · next record hget =>
    split
    · exact ⟨.refl s, fun _ h => absurd h (hrefused _ _)⟩
    · split
      · exact ⟨.refl s, fun _ h => absurd h (hrefused _ _)⟩
      · split
        · refine ⟨.refl s, ?_⟩
          rintro record' ⟨⟩
          exact hget
        · refine ⟨keeps_put_flush hget (hs.completed_userId hget userId), ?_⟩
          rintro record' ⟨⟩
          exact Dict.get?_set_self _ _ _

theorem getOrCreate_spec {username : String} (hname : username ≠ "") (userId : String) :
    Grows s (s.getOrCreateFromExternal username userId).1 userId ∧
      (s.getOrCreateFromExternal username userId).1.users.get? username
        = some (s.getOrCreateFromExternal username userId).2 := by
  unfold getOrCreateFromExternal
  split
  · next record hget => exact ⟨(Keeps.refl s).grows userId, hget⟩
  · next hnone => exact ⟨grows_put_flush hname hnone, Dict.get?_set_self _ _ _⟩

end UserStore

open UserStore (Keeps Grows)

variable {s : UserStore}

theorem applyName_spec {username : String} (finalUserName : String)
    (hget : s.users.get? username = some record) :
    Keeps s (applyName s username record finalUserName).1 ∧
      (applyName s username record finalUserName).1.users.get? username
        = some (applyName s username record finalUserName).2 := by
  have hupdate : Keeps s (s.updateUsername record.userId finalUserName).1 :=
    UserStore.keeps_updateUsername record.userId finalUserName
  unfold applyName
  split
  · split
    · next s₁ heq =>
      rw [heq] at hupdate
      have hids : ids s₁.users username = some record.userId := by
        rw [hupdate.same]
        exact ids_of_get? hget
      exact ⟨hupdate.trans (UserStore.keeps_put hids), Dict.get?_set_self _ _ _⟩
    · next s₁ heq =>
      cases UserStore.updateUsername_false heq
      exact ⟨.refl s, hget⟩
  · exact ⟨.refl s, hget⟩

/-- What a login does to the table, and that the record it returns is in it. -/
def LoginSpec (s : UserStore) (userId : String) (r : UserStore × LoginResult) : Prop :=
  Grows s r.1 userId ∧ ∀ record name, r.2 = .ok (record, name) →
    ∃ key, r.1.users.get? key = some record

variable {s' : UserStore} {userId : String}

theorem LoginSpec.error (h : Keeps s s') (e : AuthError) : LoginSpec s userId (s', .error e) :=
  ⟨h.grows userId, nofun⟩

theorem LoginSpec.ok
    (h : Grows s s' userId) (hget : s'.users.get? key = some record) (name : String) :
    LoginSpec s userId (s', .ok (record, name)) := by
  refine ⟨h, ?_⟩
  rintro record' name' ⟨⟩
  exact ⟨key, hget⟩

theorem loginExternal_spec (ext : ExtData) (userName userId : String) :
    LoginSpec s userId (loginExternal s ext userName userId) := by
  unfold loginExternal
  split
  · exact .error (.refl s) _
  · next hname =>
    split
    · exact .error (.refl s) _
    · next clientUserName _ =>
      obtain ⟨hcreated, hget⟩ := UserStore.getOrCreate_spec (s := s) hname userId
      obtain ⟨hnamed, hget⟩ := applyName_spec (orElse clientUserName (orElse ext.bizUserName
        (s.getOrCreateFromExternal ext.identity userId).2.userId)) hget
      exact .ok (hcreated.keeps hnamed) hget _

theorem loginInternal_spec (hs : s.Sound) (pbkdf2 : String → String → String)
    (username password userName userId : String) :
    LoginSpec s userId (loginInternal pbkdf2 s username password userName userId) := by
  obtain ⟨hverified, hget⟩ := UserStore.verify_spec hs pbkdf2 username password userId
  unfold loginInternal
  split
  · next s₁ e heq =>
    rw [heq] at hverified
    exact .error hverified e
  · next s₁ record heq =>
    rw [heq] at hverified hget
    have hget : s₁.users.get? (strip username) = some record := hget record rfl
    split
    · exact .error hverified _
    · split
      · refine .ok ((hverified.trans ?_).grows userId) (Dict.get?_set_self _ _ _) _
        exact UserStore.keeps_put_flush hget rfl
      · exact .ok (hverified.grows userId) hget _

theorem authLogin_spec (hs : s.Sound) (pbkdf2 : String → String → String) (req : LoginRequest)
    (ext : Except AuthError ExtData) (userId : String) :
    LoginSpec s userId (authLogin pbkdf2 s req ext userId) := by
  unfold authLogin
  split
  · split
    · exact .error (.refl s) _
    · exact loginExternal_spec _ _ _
  · split
    · exact .error (.refl s) _
    · exact loginInternal_spec hs pbkdf2 _ _ _ _

/-! ## The invariant -/

/-- The invariant of every run. -/
structure Inv (w : World) : Prop where
  listing : Auth.Listing w.auth
  issued : w.sessions.map Payload.toToken = w.auth.issued
  sound : w.store.Sound
  owned : ∀ p ∈ w.sessions, ∃ key, ids w.store.users key = some p.uid

variable {w w' : World}

theorem inv_init (now : ℕ) : Inv (World.init now) := by
  refine ⟨Auth.listing_init now, rfl, ⟨fun _ => rfl, ?_, ?_⟩, nofun⟩
  · intro key userId h
    cases h
  · intro key key' userId h
    cases h

/-- A new id is at no key. -/
theorem Fresh.ids_ne (h : Fresh w userId) (key : String) : ids w.store.users key ≠ some userId := by
  intro hids
  obtain ⟨record, hget, hid⟩ := Option.map_eq_some_iff.mp hids
  exact h.2 (key, record) ((w.store.users.mem_entries_iff key record).mpr hget) hid

/-- A table that grows keeps the ids it has. -/
theorem UserStore.Grows.mono {s : UserStore} (h : Grows s s' userId)
    {uid : String} (hids : ids s.users key = some uid) : ids s'.users key = some uid := by
  obtain hsame | ⟨key₀, -, hnone, hadd⟩ := h.added
  · rw [hsame]
    exact hids
  · have hne : key₀ ≠ key := by
      rintro rfl
      rw [hnone] at hids
      cases hids
    rw [hadd, if_neg hne]
    exact hids

theorem UserStore.Sound.grows (hs : s.Sound)
    (h : Grows s s' userId) (hne : userId ≠ "") (hfresh : ∀ key, ids s.users key ≠ some userId) :
    s'.Sound := by
  obtain hsame | ⟨key₀, hkey₀, -, hadd⟩ := h.added
  · refine ⟨h.filed hs.filed, ?_, ?_⟩
    · intro key uid
      rw [hsame]
      exact hs.named key uid
    · intro key key' uid
      rw [hsame, hsame]
      exact hs.unique key key' uid
  · refine ⟨h.filed hs.filed, ?_, ?_⟩
    · intro key uid hids
      rw [hadd] at hids
      split at hids
      · next hkey =>
        cases hids
        exact ⟨hkey ▸ hkey₀, hne⟩
      · exact hs.named key uid hids
    · intro key key' uid hids hids'
      rw [hadd] at hids hids'
      -- the new id is at the new key only
      by_cases hkey : key₀ = key
      · by_cases hkey' : key₀ = key'
        · exact hkey.symm.trans hkey'
        · rw [if_pos hkey] at hids
          rw [if_neg hkey', ← hids] at hids'
          exact absurd hids' (hfresh key')
      · by_cases hkey' : key₀ = key'
        · rw [if_pos hkey'] at hids'
          rw [if_neg hkey, ← hids'] at hids
          exact absurd hids (hfresh key)
        · rw [if_neg hkey] at hids
          rw [if_neg hkey'] at hids'
          exact hs.unique key key' uid hids hids'

theorem UserStore.Sound.keeps (hs : s.Sound) (h : Keeps s s') : s'.Sound := by
  refine ⟨h.filed hs.filed, ?_, ?_⟩
  · intro key uid
    rw [h.same]
    exact hs.named key uid
  · intro key key' uid
    rw [h.same, h.same]
    exact hs.unique key key' uid

/-- The table of users changes, and no token is issued. -/
theorem Inv.users (hw : Inv w) {store : UserStore} (h : Keeps w.store store) :
    Inv { w with store := store } := by
  refine ⟨hw.listing, hw.issued, hw.sound.keeps h, ?_⟩
  intro p hp
  obtain ⟨key, hkey⟩ := hw.owned p hp
  exact ⟨key, (h.same key).trans hkey⟩

/-- The clock or the revocation moves on, and no token is issued. -/
theorem Inv.tokens (hw : Inv w) {a : Auth.Action} {auth : Auth.World}
    (h : Auth.step w.auth a = some auth) (hissued : auth.issued = w.auth.issued) :
    Inv { w with auth := auth } :=
  ⟨hw.listing.step h, hw.issued.trans hissued.symm, hw.sound, hw.owned⟩

theorem Inv.login (hw : Inv w) {store : UserStore} (hfresh : Fresh w userId)
    (hgrows : Grows w.store store userId) : Inv { w with store := store } := by
  refine ⟨hw.listing, hw.issued, hw.sound.grows hgrows hfresh.1 hfresh.ids_ne, ?_⟩
  intro p hp
  obtain ⟨key, hkey⟩ := hw.owned p hp
  exact ⟨key, hgrows.mono hkey⟩

theorem Inv.issue (hw : Inv w) {name jti : String}
    (hget : w.store.users.get? key = some record) (h : issueToken w record name jti = some w') :
    Inv w' := by
  obtain ⟨auth, hauth, rfl⟩ := Option.map_eq_some_iff.mp h
  refine ⟨hw.listing.step hauth, ?_, hw.sound, ?_⟩
  · obtain ⟨-, hauth⟩ := Option.ite_none_right_eq_some.mp hauth
    cases hauth
    exact congrArg _ hw.issued
  · intro p hp
    obtain rfl | hp := List.mem_cons.mp hp
    · exact ⟨key, ids_of_get? hget⟩
    · exact hw.owned p hp

theorem issued_step {w w' : Auth.World} {a : Auth.Action} (h : Auth.step w a = some w')
    (ha : ∀ username jti, a ≠ .issue username jti) : w'.issued = w.issued := by
  cases a with
  | tick now =>
    obtain ⟨-, h⟩ := Option.ite_none_right_eq_some.mp h
    cases h
    rfl
  | issue username jti => exact absurd rfl (ha username jti)
  | revokeJti tok =>
    obtain ⟨-, h⟩ := Option.ite_none_right_eq_some.mp h
    cases h
    rfl
  | revokeUserAll username =>
    cases h
    rfl
  | restart =>
    cases h
    rfl

variable {pbkdf2 : String → String → String}

/-- Every step keeps the invariant. -/
theorem Inv.step {a : Action} (hw : Inv w) (h : step pbkdf2 w a = some w') : Inv w' := by
  cases a with
  | tick now =>
    obtain ⟨auth, hauth, rfl⟩ := Option.map_eq_some_iff.mp h
    exact hw.tokens hauth (issued_step hauth nofun)
  | register username password salt userId jti =>
    obtain ⟨hfresh, h⟩ := Option.ite_none_right_eq_some.mp h
    unfold stepRegister at h
    split at h
    · cases h
      exact hw
    · next store record heq =>
      obtain ⟨hgrows, key, hget⟩ := UserStore.register_spec heq
      exact (hw.login hfresh hgrows).issue hget h
  | login req ext userId jti =>
    obtain ⟨hfresh, h⟩ := Option.ite_none_right_eq_some.mp h
    obtain ⟨hgrows, hget⟩ := authLogin_spec hw.sound pbkdf2 req ext userId
    unfold stepLogin at h
    split at h
    · next store e heq =>
      cases h
      rw [heq] at hgrows
      exact hw.login hfresh hgrows
    · next store record name heq =>
      rw [heq] at hgrows hget
      obtain ⟨key, hget⟩ := hget record name rfl
      exact (hw.login hfresh hgrows).issue hget h
  | logout p liveRoom =>
    obtain ⟨-, h⟩ := Option.ite_none_right_eq_some.mp h
    unfold authLogout at h
    cases hstate : (dispatch w p liveRoom).toOption with
    | none =>
      rw [hstate] at h
      cases h
      exact hw
    | some state =>
      rw [hstate, Option.elim_some, logoutWith] at h
      split at h
      · cases h
        exact hw
      · obtain ⟨auth, hauth, rfl⟩ := Option.map_eq_some_iff.mp h
        exact hw.tokens hauth (issued_step hauth nofun)
  | logoutAll p liveRoom username =>
    obtain ⟨-, h⟩ := Option.ite_none_right_eq_some.mp h
    unfold authLogoutAll at h
    cases htarget : (logoutTarget w p liveRoom username).toOption with
    | none =>
      rw [htarget] at h
      cases h
      exact hw
    | some target =>
      rw [htarget, Option.elim_some, revokeAll] at h
      obtain ⟨auth, hauth, rfl⟩ := Option.map_eq_some_iff.mp h
      exact hw.tokens hauth (issued_step hauth nofun)
  | updateUsername userId newUsername =>
    cases h
    exact hw.users (UserStore.keeps_updateUsername userId newUsername)
  | setRole username role =>
    cases h
    exact hw.users (UserStore.keeps_setRole username role)
  | setRoom username roomId =>
    cases h
    exact hw.users (UserStore.keeps_setRoom username roomId)
  | restart =>
    rw [Accounts.step] at h
    obtain ⟨auth, hauth, rfl⟩ := Option.map_eq_some_iff.mp h
    exact (hw.tokens hauth (issued_step hauth nofun)).users (UserStore.keeps_load hw.sound.filed)

/-- The invariant holds in every reachable state. -/
theorem inv_reaches {now : ℕ}
    (h : System.Reaches (step pbkdf2) System.anyStep (World.init now) w) : Inv w :=
  h.invariant (fun _ _ _ hw _ hstep => hw.step hstep) (inv_init now)

/-- In every reachable state a token's user id is that of exactly one account. -/
theorem Inv.own (hw : Inv w) {p : Payload} (hp : p ∈ w.sessions) :
    ∃ key account, key ≠ "" ∧ w.store.users.get? key = some account ∧ account.userId = p.uid ∧
      ∀ key' account', w.store.users.get? key' = some account' → account'.userId = p.uid →
        key' = key := by
  obtain ⟨key, hids⟩ := hw.owned p hp
  obtain ⟨account, hget, hid⟩ := Option.map_eq_some_iff.mp hids
  refine ⟨key, account, (hw.sound.named key p.uid hids).1, hget, hid, ?_⟩
  intro key' account' hget' hid'
  apply hw.sound.unique key' key p.uid
  · rw [ids_of_get? hget', hid']
  · exact hids

end SrsChatRoom.Server.Accounts
