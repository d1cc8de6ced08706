import SrsChatRoom.Server.TokenRevocation

/-!
# What the revocation store lists (`auth.py`)

In every run, with restarts and revocations at any time, a token that has not expired is in
`_revoked_jtis` or among the active ones of the name it was issued to (`Listing`). Of the tokens
accepted so far, `revoke_user_all` therefore refuses exactly those issued to its name that have not
expired (`accepted_revokeUserAll_iff`).
-/

namespace SrsChatRoom.Server.Auth

namespace RevocationStore

variable {r : RevocationStore}

/-- `_active_jtis[username][jti]` -/
def activeAt (r : RevocationStore) (username jti : String) : Option ℕ :=
  (r.activeJtis.get? username).bind fun jtis => jtis.get? jti

/-! ## The lookups after each operation -/

theorem revokedAt_gc (now : ℕ) (jti : String) : (r.gc now).revokedJtis.get? jti
    = (r.revokedJtis.get? jti).filter fun exp => exp > now :=
  Dict.get?_filter _ _ jti

theorem activeAt_gc (now : ℕ) (username jti : String) :
    (r.gc now).activeAt username jti = (r.activeAt username jti).filter fun exp => exp > now := by
  unfold activeAt gc
  rw [Dict.get?_mapVal]
  cases r.activeJtis.get? username with
  | none => rfl
  | some jtis => exact Dict.get?_filter _ _ jti

theorem activeAt_register (username jti : String) (exp : ℕ) (username' jti' : String) :
    (r.register username jti exp).activeAt username' jti'
      = if username = username' ∧ jti = jti' then some exp else r.activeAt username' jti' := by
  unfold activeAt register
  rw [Dict.get?_set]
  by_cases hname : username = username'
  · subst hname
    rw [if_pos rfl, Option.bind_some, Dict.get?_set]
    by_cases hid : jti = jti'
    · rw [if_pos hid, if_pos ⟨rfl, hid⟩]
    · rw [if_neg hid, if_neg fun h => hid h.2]
      cases r.activeJtis.get? username <;> rfl
  · rw [if_neg hname, if_neg fun h => hname h.1]

theorem revokedAt_revokeJti (jti : String) (exp : ℕ) (jti' : String) :
    (r.revokeJti jti exp).revokedJtis.get? jti'
      = if jti = jti' then some exp else r.revokedJtis.get? jti' :=
  Dict.get?_set _ _ _ _

theorem activeAt_revokeJti (jti : String) (exp : ℕ) (username jti' : String) :
    (r.revokeJti jti exp).activeAt username jti'
      = if jti = jti' then none else r.activeAt username jti' := by
  unfold activeAt revokeJti
  rw [Dict.get?_mapVal]
  cases r.activeJtis.get? username with
  | none =>
    show none = if jti = jti' then none else none
    split <;> rfl
  | some jtis => exact Dict.get?_erase _ _ _

theorem get?_toRevoke (username jti : String) (now : ℕ) :
    (r.toRevoke username now).get? jti
      = (r.activeAt username jti).filter fun exp => exp > now := by
  unfold activeAt toRevoke
  rw [Dict.get?_filter]
  cases r.activeJtis.get? username <;> rfl

theorem revokedAt_revokeUserAll (username jti : String) (now : ℕ) :
    (r.revokeUserAll username now).2.revokedJtis.get? jti
      = ((r.activeAt username jti).filter fun exp => exp > now).or (r.revokedJtis.get? jti) := by
  rw [← get?_toRevoke]
  exact Dict.get?_update _ _ _

theorem activeAt_revokeUserAll (username : String) (now : ℕ) (username' jti : String) :
    (r.revokeUserAll username now).2.activeAt username' jti
      = if username = username' then none else r.activeAt username' jti := by
  unfold activeAt revokeUserAll
  rw [Dict.get?_erase]
  by_cases hname : username = username'
  · rw [if_pos hname, if_pos hname]
    rfl
  · rw [if_neg hname, if_neg hname]

end RevocationStore

/-! ## The invariant -/

variable {w w' : World} {r : RevocationStore}

/-- What a pair of dictionaries, in memory or in the file, lists of the issued tokens. -/
structure Lists (w : World) (r : RevocationStore) : Prop where
  live : ∀ tok ∈ w.issued, seconds w.now < tok.exp →
    r.revokedJtis.get? tok.jti = some tok.exp ∨ r.activeAt tok.sub tok.jti = some tok.exp
  sound : ∀ username jti exp, r.activeAt username jti = some exp →
    ∃ tok ∈ w.issued, tok.sub = username ∧ tok.jti = jti ∧ tok.exp = exp

/-- The invariant of every run. -/
structure Listing (w : World) : Prop where
  store : Lists w w.store
  file : Lists w (w.file.getD RevocationStore.empty)
  unique : ∀ tok ∈ w.issued, ∀ tok' ∈ w.issued, tok.jti = tok'.jti → tok = tok'
  named : ∀ tok ∈ w.issued, tok.jti ≠ ""

theorem listing_init (now : ℕ) : Listing (World.init now) := by
  have hlists : Lists (World.init now) RevocationStore.empty := by
    constructor
    · intro tok htok
      cases htok
    · intro username jti exp h
      cases h
  exact ⟨hlists, hlists, nofun, nofun⟩

/-- `Lists` only looks at the clock and the issued tokens. -/
theorem Lists.congr (h : Lists w r) (hnow : w'.now = w.now) (hissued : w'.issued = w.issued) :
    Lists w' r := by
  constructor
  · rw [hissued, hnow]
    exact h.live
  · rw [hissued]
    exact h.sound

theorem Lists.tick (h : Lists w r) {now : ℕ} (hnow : w.now ≤ now) :
    Lists { w with now := now } r := by
  constructor
  · intro tok htok hexp
    have hle : seconds w.now ≤ seconds now := Nat.div_le_div_right hnow
    apply h.live tok htok
    show seconds w.now < tok.exp
    exact lt_of_le_of_lt hle hexp
  · exact h.sound

/-- `_gc` drops only what has expired. -/
theorem Lists.gc (h : Lists w r) : Lists w (r.gc (seconds w.now)) := by
  constructor
  · intro tok htok hexp
    rw [RevocationStore.revokedAt_gc, RevocationStore.activeAt_gc]
    apply (h.live tok htok hexp).imp
    · intro hlisted
      rw [hlisted, Option.filter_some, if_pos (decide_eq_true hexp)]
    · intro hlisted
      rw [hlisted, Option.filter_some, if_pos (decide_eq_true hexp)]
  · intro username jti exp hj
    rw [RevocationStore.activeAt_gc, Option.filter_eq_some_iff] at hj
    exact h.sound username jti exp hj.1

theorem Lists.register (h : Lists w r) (username : String) {jti : String}
    (hjti : jti ∉ w.issued.map Token.jti) (file : Option RevocationStore)
    (store : RevocationStore) :
    Lists { w with
        store := store, file := file, issued := w.newToken username jti :: w.issued }
      (r.register username jti (w.newToken username jti).exp) := by
  constructor
  · intro tok htok hexp
    rw [RevocationStore.activeAt_register]
    obtain rfl | hold := List.mem_cons.mp htok
    · exact .inr (if_pos ⟨rfl, rfl⟩)
    · have hne : jti ≠ tok.jti := by
        rintro rfl
        exact hjti (List.mem_map_of_mem hold)
      rw [if_neg fun heq => hne heq.2]
      exact h.live tok hold hexp
  · intro username' jti' exp hj
    rw [RevocationStore.activeAt_register] at hj
    split at hj
    · next heq => exact ⟨_, List.mem_cons_self, heq.1, heq.2, Option.some.inj hj⟩
    · obtain ⟨tok, htok, hrest⟩ := h.sound username' jti' exp hj
      exact ⟨tok, List.mem_cons_of_mem _ htok, hrest⟩

theorem Lists.revokeJti (h : Lists w r) (hw : Listing w) {tok₀ : Token} (htok₀ : tok₀ ∈ w.issued) :
    Lists w (r.revokeJti tok₀.jti tok₀.exp) := by
  constructor
  · intro tok htok hexp
    rw [RevocationStore.revokedAt_revokeJti, RevocationStore.activeAt_revokeJti]
    by_cases hid : tok₀.jti = tok.jti
    · rw [if_pos hid, hw.unique tok₀ htok₀ tok htok hid]
      exact .inl rfl
    · rw [if_neg hid, if_neg hid]
      exact h.live tok htok hexp
  · intro username jti exp hj
    rw [RevocationStore.activeAt_revokeJti] at hj
    split at hj
    · cases hj
    · exact h.sound username jti exp hj

/-- An active entry of an issued token's id is the token's own. -/
theorem Lists.of_active (h : Lists w r) (hw : Listing w) {tok : Token} (htok : tok ∈ w.issued)
    {username : String} {exp : ℕ} (hj : r.activeAt username tok.jti = some exp) :
    tok.sub = username ∧ tok.exp = exp := by
  obtain ⟨tok', htok', hsub, hid, hexp⟩ := h.sound username tok.jti exp hj
  cases hw.unique tok' htok' tok htok hid
  exact ⟨hsub, hexp⟩

theorem Lists.revokeUserAll (h : Lists w r) (hw : Listing w) (username : String) :
    Lists w (r.revokeUserAll username (seconds w.now)).2 := by
  constructor
  · intro tok htok hexp
    rw [RevocationStore.revokedAt_revokeUserAll, RevocationStore.activeAt_revokeUserAll]
    cases hactive : r.activeAt username tok.jti with
    | some exp =>
      obtain ⟨-, rfl⟩ := h.of_active hw htok hactive
      rw [Option.filter_some, if_pos (decide_eq_true hexp)]
      exact .inl rfl
    | none =>
      rw [Option.filter_none, Option.none_or]
      apply (h.live tok htok hexp).imp_right
      intro hlisted
      have hname : username ≠ tok.sub := by
        rintro rfl
        rw [hactive] at hlisted
        cases hlisted
      rw [if_neg hname]
      exact hlisted
  · intro username' jti exp hj
    rw [RevocationStore.activeAt_revokeUserAll] at hj
    split at hj
    · cases hj
    · exact h.sound username' jti exp hj

/-- Every step keeps the invariant. -/
theorem Listing.step {a : Action} (hw : Listing w) (hstep : step w a = some w') : Listing w' := by
  cases a with
  | tick now =>
    obtain ⟨hnow, hstep⟩ := Option.ite_none_right_eq_some.mp hstep
    cases hstep
    exact ⟨hw.store.tick hnow, hw.file.tick hnow, hw.unique, hw.named⟩
  | issue username jti =>
    obtain ⟨hnew, hstep⟩ := Option.ite_none_right_eq_some.mp hstep
    cases hstep
    have hlists := hw.store.register username hnew.2
    have hold : ∀ tok ∈ w.issued, tok.jti ≠ jti := by
      rintro tok htok rfl
      exact hnew.2 (List.mem_map_of_mem htok)
    refine ⟨hlists _ _, hlists _ _, ?_, ?_⟩
    · intro tok htok tok' htok' hid
      obtain rfl | htok := List.mem_cons.mp htok
      · obtain rfl | htok' := List.mem_cons.mp htok'
        · rfl
        · exact absurd hid.symm (hold tok' htok')
      · obtain rfl | htok' := List.mem_cons.mp htok'
        · exact absurd hid (hold tok htok)
        · exact hw.unique tok htok tok' htok' hid
    · intro tok htok
      obtain rfl | htok := List.mem_cons.mp htok
      · exact hnew.1
      · exact hw.named tok htok
  | revokeJti tok₀ =>
    obtain ⟨htok₀, hstep⟩ := Option.ite_none_right_eq_some.mp hstep
    cases hstep
    have hlists := hw.store.revokeJti hw htok₀
    exact ⟨hlists.congr rfl rfl, hlists.congr rfl rfl, hw.unique, hw.named⟩
  | revokeUserAll username =>
    cases hstep
    have hlists := hw.store.revokeUserAll hw username
    exact ⟨hlists.congr rfl rfl, hlists.congr rfl rfl, hw.unique, hw.named⟩
  | restart =>
    cases hstep
    have hload : RevocationStore.load w.file (seconds w.now) =
        (w.file.getD RevocationStore.empty).gc (seconds w.now) := by
      cases w.file <;> rfl
    have hgc := hw.file.gc
    rw [← hload] at hgc
    exact ⟨hgc.congr rfl rfl, hw.file.congr rfl rfl, hw.unique, hw.named⟩

/-! ## What `revoke_user_all` refuses -/

/-- `verify_token` accepts the token. -/
def Accepted (w : World) (tok : Token) : Prop := verifyToken w.store w.now (.signed tok) = .ok tok

/-- Of the tokens accepted so far, `revoke_user_all` refuses those issued to its name that have not
expired. -/
theorem accepted_revokeUserAll_iff (hw : Listing w) {username : String}
    (hstep : step w (.revokeUserAll username) = some w') {tok : Token} (htok : tok ∈ w.issued) :
    Accepted w' tok ↔ Accepted w tok ∧ ¬ (tok.sub = username ∧ seconds w.now < tok.exp) := by
  cases hstep
  unfold Accepted
  rw [verifyToken_eq_ok_iff _ _ (hw.named tok htok), verifyToken_eq_ok_iff _ _ (hw.named tok htok)]
  show _ ∧ (w.store.revokeUserAll username (seconds w.now)).2.revokedJtis.get? tok.jti = none ↔ _
  rw [RevocationStore.revokedAt_revokeUserAll, Option.or_eq_none_iff]
  constructor
  · rintro ⟨hdead, hfilter, hrevoked⟩
    refine ⟨⟨hdead, hrevoked⟩, ?_⟩
    rintro ⟨rfl, hexp⟩
    -- not revoked so far, so it is listed as active
    obtain hlisted | hlisted := hw.store.live tok htok hexp
    · rw [hrevoked] at hlisted
      cases hlisted
    · rw [hlisted, Option.filter_some, if_pos (decide_eq_true hexp)] at hfilter
      cases hfilter
  · rintro ⟨⟨hdead, hrevoked⟩, hspared⟩
    refine ⟨hdead, ?_, hrevoked⟩
    cases hactive : w.store.activeAt username tok.jti with
    | none => rfl
    | some exp =>
      obtain ⟨hsub, rfl⟩ := hw.store.of_active hw htok hactive
      rw [Option.filter_some, if_neg]
      intro hexp
      exact hspared ⟨hsub, of_decide_eq_true hexp⟩

end SrsChatRoom.Server.Auth
