import SrsChatRoom.Server.AccountInvariant

/-!
# Logout of all sessions (`server_fastapi.py`)

`auth_logout_all` revokes the tokens that are listed under the `sub` of the caller's token, which is
the display name the caller's record had when the token was issued. `logout_all_complete_confined`:
it refuses all tokens of the caller's account and of nobody else exactly when, among the tokens
accepted at that time, those of the account are the unexpired ones with that `sub`.
-/

namespace SrsChatRoom.Server.Accounts

open Auth (AuthError Token seconds)

variable {pbkdf2 : String → String → String} {w w' : World}

variable {username target : String}

theorem ownName_eq {state : Identity}
    (h : ownName username state = .ok target) : target = state.username := by
  unfold ownName at h
  split at h
  · cases h
  · split at h
    · cases h
    · next hown =>
      cases h
      exact not_not.mp hown

variable {liveRoom : Option String}

/-- `auth_logout_all` can only be called for the name in the caller's own token. -/
theorem logoutTarget_eq {p : Payload}
    (h : logoutTarget w p liveRoom username = .ok target) : target = p.sub := by
  unfold logoutTarget dispatch at h
  cases hverdict : Auth.verifyToken w.auth.store w.auth.now (.signed p.toToken) with
  | error e =>
    rw [hverdict] at h
    cases h
  | ok tok =>
    rw [hverdict] at h
    exact ownName_eq h

/-- What is accepted behind `auth_logout_all`. -/
theorem accepted_logoutAll_iff (hw : Inv w) {caller : Payload}
    (hok : logoutTarget w caller liveRoom username = .ok target)
    (hstep : authLogoutAll w caller liveRoom username = some w') {p : Payload}
    (hp : p ∈ w.sessions) :
    Accepted w' p ↔ Accepted w p ∧ ¬ (p.sub = caller.sub ∧ seconds w.auth.now < p.exp) := by
  have hrevoke : revokeAll w target = some w' := by
    rw [authLogoutAll, hok] at hstep
    exact hstep
  obtain ⟨auth, hauth, rfl⟩ := Option.map_eq_some_iff.mp hrevoke
  rw [logoutTarget_eq hok] at hauth
  have hissued : p.toToken ∈ w.auth.issued := by
    rw [← hw.issued]
    exact List.mem_map_of_mem hp
  exact Auth.accepted_revokeUserAll_iff hw.listing hauth hissued

/-- Every token of the user is refused now, and no token of another user that was accepted. -/
def CompleteConfined (w w' : World) (uid : String) : Prop :=
  (∀ p ∈ w.sessions, p.uid = uid → ¬ Accepted w' p) ∧
    ∀ p ∈ w.sessions, p.uid ≠ uid → Accepted w p → Accepted w' p

/-- In every reachable state `auth_logout_all` refuses the tokens of the caller's account and no
others exactly when, of the tokens accepted so far, those of the account are the ones that carry the
caller's display name and have not expired. -/
theorem logout_all_complete_confined {now : ℕ}
    (h : System.Reaches (step pbkdf2) System.anyStep (World.init now) w) {caller : Payload}
    {liveRoom : Option String} {username target : String}
    (hok : logoutTarget w caller liveRoom username = .ok target)
    (hstep : authLogoutAll w caller liveRoom username = some w') :
    CompleteConfined w w' caller.uid ↔ ∀ p ∈ w.sessions, Accepted w p →
      (p.uid = caller.uid ↔ p.sub = caller.sub ∧ seconds w.auth.now < p.exp) := by
  have haccepted : ∀ p ∈ w.sessions, Accepted w' p ↔
      Accepted w p ∧ ¬ (p.sub = caller.sub ∧ seconds w.auth.now < p.exp) :=
    fun p hp => accepted_logoutAll_iff (inv_reaches h) hok hstep hp
  constructor
  · rintro ⟨hcomplete, hconfined⟩ p hp hbefore
    constructor
    · intro huid
      by_contra hspared
      exact hcomplete p hp huid ((haccepted p hp).mpr ⟨hbefore, hspared⟩)
    · intro hrevoked
      by_contra huid
      exact ((haccepted p hp).mp (hconfined p hp huid hbefore)).2 hrevoked
  · intro hsame
    constructor
    · intro p hp huid hafter
      obtain ⟨hbefore, hspared⟩ := (haccepted p hp).mp hafter
      exact hspared ((hsame p hp hbefore).mp huid)
    · intro p hp huid hbefore
      rw [haccepted p hp]
      exact ⟨hbefore, fun hrevoked => huid ((hsame p hp hbefore).mpr hrevoked)⟩

/-! ## Two runs -/

/-- A login by way of the business backend, where the user is known as `identity`. -/
def externalLogin (identity userName userId jti : String) : Action :=
  .login ⟨"external", "", "", userName⟩ (.ok ⟨identity, "", "", none, none⟩) userId jti

/-- A token issued at time 0. -/
def tokenAtZero (sub jti uid : String) : Payload :=
  ⟨⟨sub, jti, 0, 604800⟩, uid, sub, none, "member"⟩

/-- No password is checked in the runs below. -/
def noPassword : String → String → String := fun password _ => password

instance (w : World) (p : Payload) : Decidable (Accepted w p) :=
  inferInstanceAs (Decidable (_ = _))

theorem eq_ok_of_toOption {ε α : Type*} {e : Except ε α} {a : α} (h : e.toOption = some a) :
    e = .ok a := by
  cases e with
  | error e => cases h
  | ok b =>
    cases h
    rfl

/-- `alice` logs in twice under her own name, and logs out of both sessions; `bob` stays. -/
theorem logout_all_own_name : ∃ w w' : World,
    w.sessions = [tokenAtZero "alice" "t3" "user_a", tokenAtZero "bob" "t2" "user_b",
      tokenAtZero "alice" "t1" "user_a"] ∧ CompleteConfined w w' "user_a" := by
  obtain ⟨w, hrun, -, hobs⟩ := System.reaches_of_observe (step noPassword) System.anyStep
    (World.init 0) [externalLogin "alice" "" "user_a" "t1", externalLogin "bob" "" "user_b" "t2",
      externalLogin "alice" "" "user_c" "t3"]
    (fun w => (w.sessions, w.auth.now,
      (logoutTarget w (tokenAtZero "alice" "t1" "user_a") none "").toOption,
      (authLogoutAll w (tokenAtZero "alice" "t1" "user_a") none "").isSome))
    (b := ([tokenAtZero "alice" "t3" "user_a", tokenAtZero "bob" "t2" "user_b",
      tokenAtZero "alice" "t1" "user_a"], 0, some "alice", true)) (by decide +kernel)
  obtain ⟨hsessions, hrest⟩ := Prod.mk.inj hobs
  obtain ⟨hnow, hrest⟩ := Prod.mk.inj hrest
  obtain ⟨htarget, hstep⟩ := Prod.mk.inj hrest
  obtain ⟨w', hstep⟩ := Option.isSome_iff_exists.mp hstep
  refine ⟨w, w', hsessions, ?_⟩
  apply (logout_all_complete_confined hrun (eq_ok_of_toOption htarget) hstep).mpr
  rw [hsessions, hnow]
  intro p hp _
  fin_cases hp <;> decide

/-- `alice` logs in under her own name and again as `bob`, the name of another user. Her logout from
the second session spares the first one and ends the session of `bob`. -/
theorem logout_all_other_name : ∃ w w' : World, ∃ caller ∈ w.sessions,
    System.Reaches (step noPassword) System.anyStep (World.init 0) w ∧ caller.uid = "user_a" ∧
      logoutTarget w caller none "" = .ok "bob" ∧ authLogoutAll w caller none "" = some w' ∧
      (∃ p ∈ w.sessions, p.uid = "user_a" ∧ Accepted w' p) ∧
      (∃ p ∈ w.sessions, p.uid = "user_b" ∧ Accepted w p ∧ ¬ Accepted w' p) ∧
      ¬ CompleteConfined w w' "user_a" := by
  obtain ⟨w, hrun, -, hobs⟩ := System.reaches_of_observe (step noPassword) System.anyStep
    (World.init 0) [externalLogin "alice" "" "user_a" "t1", externalLogin "bob" "" "user_b" "t2",
      externalLogin "alice" "bob" "user_c" "t3"]
    (fun w => (w.sessions, w.auth.now,
      (logoutTarget w (tokenAtZero "bob" "t3" "user_a") none "").toOption,
      (authLogoutAll w (tokenAtZero "bob" "t3" "user_a") none "").isSome,
      decide (∀ p ∈ w.sessions, Accepted w p)))
    (b := ([tokenAtZero "bob" "t3" "user_a", tokenAtZero "bob" "t2" "user_b",
      tokenAtZero "alice" "t1" "user_a"], 0, some "bob", true, true)) (by decide +kernel)
  obtain ⟨hsessions, hrest⟩ := Prod.mk.inj hobs
  obtain ⟨hnow, hrest⟩ := Prod.mk.inj hrest
  obtain ⟨htarget, hrest⟩ := Prod.mk.inj hrest
  obtain ⟨hstep, haccepted⟩ := Prod.mk.inj hrest
  obtain ⟨w', hstep⟩ := Option.isSome_iff_exists.mp hstep
  have hok : logoutTarget w (tokenAtZero "bob" "t3" "user_a") none "" = .ok "bob" :=
    eq_ok_of_toOption htarget
  have hbefore : ∀ p ∈ w.sessions, Accepted w p := of_decide_eq_true haccepted
  have hmem : ∀ p ∈ [tokenAtZero "bob" "t3" "user_a", tokenAtZero "bob" "t2" "user_b",
      tokenAtZero "alice" "t1" "user_a"], p ∈ w.sessions := by
    rw [hsessions]
    exact fun _ hp => hp
  have hcaller : tokenAtZero "bob" "t3" "user_a" ∈ w.sessions := hmem _ (by decide)
  have hbob : tokenAtZero "bob" "t2" "user_b" ∈ w.sessions := hmem _ (by decide)
  have halice : tokenAtZero "alice" "t1" "user_a" ∈ w.sessions := hmem _ (by decide)
  have hspared : Accepted w' (tokenAtZero "alice" "t1" "user_a") := by
    rw [accepted_logoutAll_iff (inv_reaches hrun) hok hstep halice, hnow]
    exact ⟨hbefore _ halice, by decide⟩
  have hrefused : ¬ Accepted w' (tokenAtZero "bob" "t2" "user_b") := by
    rw [accepted_logoutAll_iff (inv_reaches hrun) hok hstep hbob, hnow]
    exact fun h => h.2 (by decide)
  refine ⟨w, w', _, hcaller, hrun, rfl, hok, hstep, ⟨_, halice, rfl, hspared⟩,
    ⟨_, hbob, rfl, hbefore _ hbob, hrefused⟩, ?_⟩
  intro hboth
  exact hboth.1 _ halice rfl hspared

end SrsChatRoom.Server.Accounts
