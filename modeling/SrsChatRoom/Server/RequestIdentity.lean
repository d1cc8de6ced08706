import SrsChatRoom.Server.LogoutAll

/-!
# The identity of a request (`server_fastapi.py`)

The middleware looks the account up by the `sub` of the token, a display name, in the table that is
keyed by login identity. `identity_of_own_account`: for a token of the account at `key`, role, name
and room of a request come from that account, whatever the rest of the table holds, exactly when
`sub` is `key` (or there is no `sub`, and the token says the same as the account).
-/

namespace SrsChatRoom.Server.Accounts

open Auth (AuthError Token seconds)

variable {pbkdf2 : String → String → String} {w : World}

/-- The server with another user table. -/
def World.withUsers (w : World) (users : Dict String Record) : World :=
  { w with store := { w.store with users := users } }

variable {p : Payload}

theorem dispatch_withUsers (h : Accepted w p) (users : Dict String Record)
    (liveRoom : Option String) :
    dispatch (w.withUsers users) p liveRoom = .ok (identity users p liveRoom) := by
  show (Auth.verifyToken w.auth.store w.auth.now (.signed p.toToken)).map _ = _
  rw [h]
  rfl

/-- With the user in a room, the account does not matter for the room. -/
theorem identityFrom_live {account account' : Option Record}
    (h : identityFrom account p none = identityFrom account' p none) (liveRoom : Option String) :
    identityFrom account p liveRoom = identityFrom account' p liveRoom := by
  cases liveRoom with
  | none => exact h
  | some room =>
    have hname := congrArg Identity.name h
    have hrole := congrArg Identity.role h
    simp only [identityFrom] at hname hrole ⊢
    rw [hname, hrole]

/-- The requests with a token take their identity from the account at `key`: in every table with
that account there, and wherever the user is. -/
def FromOwnAccount (w : World) (p : Payload) (key : String) (account : Record) : Prop :=
  ∀ users : Dict String Record, users.get? key = some account → ∀ liveRoom,
    dispatch (w.withUsers users) p liveRoom = .ok (identityFrom (some account) p liveRoom)

/-- Where `sub` names another key, the identity depends on who has that key. -/
theorem not_fromOwnAccount (hp : Accepted w p) {key : String} {account : Record}
    (hget : w.store.users.get? key = some account) (hkey : p.sub ≠ key) (hsub : p.sub ≠ "") :
    ¬ FromOwnAccount w p key account := by
  intro hown
  -- another account at that key gives its role to the request, whatever the role is
  have hrole : ∀ role, role ≠ "" → role = (identityFrom (some account) p none).role := by
    intro role hne
    have hother : (w.store.users.set p.sub { account with role := role }).get? key
        = some account := by
      rw [Dict.get?_set_ne _ hkey]
      exact hget
    have hsame := hown _ hother none
    rw [dispatch_withUsers hp] at hsame
    have heq : identity (w.store.users.set p.sub { account with role := role }) p none
        = identityFrom (some account) p none := Except.ok.inj hsame
    rw [← heq, identity, accountOf, if_pos hsub, Dict.get?_set_self]
    exact (if_pos hne).symm
  have hdiffer : "owner" = "member" :=
    (hrole "owner" (by decide)).trans (hrole "member" (by decide)).symm
  exact absurd hdiffer (by decide)

/-- In every reachable state a valid token's user id is that of one account, and the requests with
the token take their identity from that account, independently of all others, exactly when the `sub`
of the token is the key of the account, or is missing while the token agrees with the account. -/
theorem identity_of_own_account {now : ℕ}
    (h : System.Reaches (step pbkdf2) System.anyStep (World.init now) w) {p : Payload}
    (hp : p ∈ w.sessions) (hvalid : Accepted w p) :
    ∃ key account, w.store.users.get? key = some account ∧ account.userId = p.uid ∧
      (∀ key' account', w.store.users.get? key' = some account' → account'.userId = p.uid →
        key' = key) ∧
      (FromOwnAccount w p key account ↔ p.sub = key ∨
        p.sub = "" ∧ identityFrom none p none = identityFrom (some account) p none) := by
  obtain ⟨key, account, hne, hget, hid, hunique⟩ := (inv_reaches h).own hp
  refine ⟨key, account, hget, hid, hunique, ?_⟩
  constructor
  · intro hown
    by_cases hkey : p.sub = key
    · exact .inl hkey
    · by_cases hsub : p.sub = ""
      · refine .inr ⟨hsub, ?_⟩
        have hsame := hown _ hget none
        rw [dispatch_withUsers hvalid, identity, accountOf, if_neg (not_not.mpr hsub)] at hsame
        exact Except.ok.inj hsame
      · exact absurd hown (not_fromOwnAccount hvalid hget hkey hsub)
  · rintro (hkey | ⟨hsub, hagrees⟩) users husers liveRoom
    · rw [dispatch_withUsers hvalid, identity, accountOf, hkey, if_pos hne, husers]
    · rw [dispatch_withUsers hvalid, identity, accountOf, if_neg (not_not.mpr hsub)]
      exact congrArg _ (identityFrom_live hagrees liveRoom)

/-- `alice` logs in under her own name: her requests take their identity from her account. -/
theorem identity_of_own_account_alice : ∃ w : World, ∃ p ∈ w.sessions, ∃ account,
    p.uid = "user_a" ∧ account.userId = "user_a" ∧ FromOwnAccount w p "alice" account := by
  obtain ⟨w, hrun, -, hobs⟩ := System.reaches_of_observe (step noPassword) System.anyStep
    (World.init 0) [externalLogin "alice" "" "user_a" "t1", externalLogin "bob" "" "user_b" "t2"]
    (fun w => (decide (tokenAtZero "alice" "t1" "user_a" ∈ w.sessions),
      decide (Accepted w (tokenAtZero "alice" "t1" "user_a")), w.store.users.get? "alice"))
    (b := (true, true, some ⟨"alice", "user_a", none, "member", "", ""⟩)) (by decide +kernel)
  obtain ⟨hp, hrest⟩ := Prod.mk.inj hobs
  obtain ⟨hvalid, hget⟩ := Prod.mk.inj hrest
  have hmem : tokenAtZero "alice" "t1" "user_a" ∈ w.sessions := of_decide_eq_true hp
  obtain ⟨key, account, haccount, hid, hunique, hown⟩ :=
    identity_of_own_account hrun hmem (of_decide_eq_true hvalid)
  have hkey : "alice" = key := hunique _ _ hget rfl
  subst hkey
  exact ⟨w, _, hmem, account, rfl, hid, hown.mpr (.inl rfl)⟩

/-- `alice` logs in as `bob`, the key of another account: her requests have the role and the room of
that account. -/
theorem identity_of_other_account : ∃ w : World, ∃ p ∈ w.sessions, ∃ account,
    System.Reaches (step noPassword) System.anyStep (World.init 0) w ∧ p.uid = "user_a" ∧
      w.store.users.get? "alice" = some account ∧ account.userId = p.uid ∧
      account.role = "member" ∧ account.roomId = none ∧
      (∃ state, dispatch w p none = .ok state ∧ state.userId = "user_a" ∧ state.role = "owner" ∧
        state.roomId = some "r") ∧
      ¬ FromOwnAccount w p "alice" account := by
  obtain ⟨w, hrun, -, hobs⟩ := System.reaches_of_observe (step noPassword) System.anyStep
    (World.init 0) [externalLogin "bob" "" "user_b" "t1", externalLogin "alice" "bob" "user_a" "t2",
      .setRole "bob" "owner", .setRoom "bob" (some "r")]
    (fun w => (decide (tokenAtZero "bob" "t2" "user_a" ∈ w.sessions),
      decide (Accepted w (tokenAtZero "bob" "t2" "user_a")), w.store.users.get? "alice",
      (dispatch w (tokenAtZero "bob" "t2" "user_a") none).toOption))
    (b := (true, true, some ⟨"bob", "user_a", none, "member", "", ""⟩,
      some ⟨"bob", "bob", "user_a", some "r", "owner", "t2", 0, 604800⟩)) (by decide +kernel)
  obtain ⟨hp, hrest⟩ := Prod.mk.inj hobs
  obtain ⟨hvalid, hrest⟩ := Prod.mk.inj hrest
  obtain ⟨hget, hstate⟩ := Prod.mk.inj hrest
  exact ⟨w, _, of_decide_eq_true hp, _, hrun, rfl, hget, rfl, rfl, rfl,
    ⟨_, eq_ok_of_toOption hstate, rfl, rfl, rfl⟩,
    not_fromOwnAccount (of_decide_eq_true hvalid) hget (by decide) (by decide)⟩

/-- In every reachable state the accounts of the file have the keys and ids of those in memory, no id
is at two keys, and each session keeps its one account over a restart. -/
theorem accounts_survive_restart {now : ℕ}
    (h : System.Reaches (step pbkdf2) System.anyStep (World.init now) w) :
    (∀ key, ids (UserStore.load w.store.file).users key = ids w.store.users key) ∧
      (∀ key key' userId, ids w.store.users key = some userId →
        ids w.store.users key' = some userId → key = key') ∧
      ∀ p ∈ w.sessions, ∃! key, ids (UserStore.load w.store.file).users key = some p.uid := by
  have hinv := inv_reaches h
  have hfile : ∀ key, ids (UserStore.load w.store.file).users key = ids w.store.users key :=
    hinv.sound.filed
  refine ⟨hfile, hinv.sound.unique, fun p hp => ?_⟩
  simp only [hfile]
  obtain ⟨key, hkey⟩ := hinv.owned p hp
  exact ⟨key, hkey, fun key' hkey' => hinv.sound.unique key' key p.uid hkey' hkey⟩

/-- `alice` and `bob` log in. -/
theorem two_accounts_survive : ∃ w : World, w.sessions.length = 2 ∧
    ∀ p ∈ w.sessions, ∃! key, ids (UserStore.load w.store.file).users key = some p.uid := by
  obtain ⟨w, hrun, -, hobs⟩ := System.reaches_of_observe (step noPassword) System.anyStep
    (World.init 0) [externalLogin "alice" "" "user_a" "t1", externalLogin "bob" "" "user_b" "t2"]
    (fun w => w.sessions.length) (b := 2) (by decide +kernel)
  exact ⟨w, hobs, (accounts_survive_restart hrun).2.2⟩

end SrsChatRoom.Server.Accounts
