import SrsChatRoom.Lib.Dict
import SrsChatRoom.Lib.System

/-!
# Token revocation (`auth.py`)

`issue_token`, `verify_token` and `TokenRevocationStore`: the revoked token ids and the active
ones of each user, both with the expiry of the token, and the file both are flushed to. A
restart loads the file and drops what has expired (`_gc`).

The verifier accepts a token until `JWT_LEEWAY_SECONDS` after its expiry, while `_gc` and
`revoke_user_all` treat it as dead from the expiry on. `revoked_stays_revoked`: a revoked token
is never accepted again if the process does not restart inside that window of a revoked token
and no `revoke_user_all` comes inside that window of one of the user's tokens.

The clock counts microseconds, so `int(time.time())` is `seconds now`. Only the claims of a
token that the code below reads are modelled.
-/

namespace SrsChatRoom.Server.Auth

/-! ## Tokens -/

/-- `JWT_TTL_SECONDS` -/
def jwtTtlSeconds : ℕ := 7 * 24 * 3600

/-- `JWT_LEEWAY_SECONDS` -/
def jwtLeewaySeconds : ℕ := 30

/-- `int(time.time())` -/
def seconds (now : ℕ) : ℕ := now / 1000000

/-- The payload of a signed token. -/
structure Token where
  sub : String
  jti : String
  iat : ℕ
  exp : ℕ
deriving DecidableEq, Repr

/-- `AuthError` -/
structure AuthError where
  code : ℕ
  message : String
deriving DecidableEq, Repr

/-- A bearer string: empty, one that `jwt.decode` refuses for another reason than its expiry,
or a token that this server signed. -/
inductive Bearer
  | missing
  | malformed (reason : String)
  | signed (payload : Token)

/-- `exp <= now - leeway`, on which `jwt.decode` raises `ExpiredSignatureError`. -/
def Token.dead (tok : Token) (now : ℕ) : Bool := (tok.exp + jwtLeewaySeconds) * 1000000 ≤ now

/-! ## `TokenRevocationStore` -/

/-- `_revoked_jtis` and `_active_jtis`. The file holds the same two dictionaries. -/
structure RevocationStore where
  revokedJtis : Dict String ℕ
  activeJtis : Dict String (Dict String ℕ)

namespace RevocationStore

/-- The store without a file. -/
def empty : RevocationStore := ⟨Dict.empty, Dict.empty⟩

/-- `_gc`, where `now` is `int(time.time())`. -/
def gc (r : RevocationStore) (now : ℕ) : RevocationStore where
  revokedJtis := r.revokedJtis.filter fun _ exp => exp > now
  activeJtis := r.activeJtis.mapVal fun _ jtis => jtis.filter fun _ exp => exp > now

/-- `_load` -/
def load (file : Option RevocationStore) (now : ℕ) : RevocationStore :=
  match file with
  | none => empty
  | some r => r.gc now

/-- `register` -/
def register (r : RevocationStore) (username jti : String) (exp : ℕ) : RevocationStore :=
  { r with
    activeJtis := r.activeJtis.set username
      (((r.activeJtis.get? username).getD Dict.empty).set jti exp) }

/-- `revoke_jti` -/
def revokeJti (r : RevocationStore) (jti : String) (exp : ℕ) : RevocationStore where
  revokedJtis := r.revokedJtis.set jti exp
  activeJtis := r.activeJtis.mapVal fun _ jtis => jtis.erase jti

/-- The active token ids of a user that `revoke_user_all` revokes. -/
def toRevoke (r : RevocationStore) (username : String) (now : ℕ) : Dict String ℕ :=
  ((r.activeJtis.get? username).getD Dict.empty).filter fun _ exp => exp > now

/-- `revoke_user_all`, with the count it returns. -/
def revokeUserAll (r : RevocationStore) (username : String) (now : ℕ) : ℕ × RevocationStore :=
  ((r.toRevoke username now).size,
    { revokedJtis := r.revokedJtis.update (r.toRevoke username now)
      activeJtis := r.activeJtis.erase username })

/-- `is_revoked` -/
def isRevoked (r : RevocationStore) (jti : String) : Bool :=
  jti ≠ "" && r.revokedJtis.contains jti

end RevocationStore

/-- `verify_token` -/
def verifyToken (r : RevocationStore) (now : ℕ) : Bearer → Except AuthError Token
  | .missing => .error ⟨401, "missing token"⟩
  | .malformed reason => .error ⟨401, "invalid token: " ++ reason⟩
  | .signed tok =>
    if tok.dead now then .error ⟨401, "token expired"⟩
    else if r.isRevoked tok.jti then .error ⟨401, "token revoked"⟩
    else .ok tok

/-! ## The system -/

/-- The server process, its file and its clock, with the tokens issued so far. `revoked` is a
record of what has been revoked: it changes only where a revocation is called for. -/
structure World where
  now : ℕ
  store : RevocationStore
  file : Option RevocationStore
  issued : List Token
  revoked : List Token

/-- The first start, at any time. -/
def World.init (now : ℕ) : World := ⟨now, RevocationStore.load none (seconds now), none, [], []⟩

/-- What can happen. `verify_token` changes nothing and is not among the actions. -/
inductive Action
  /-- the clock moves on -/
  | tick (now : ℕ)
  /-- `issue_token`, where `uuid4` gives `jti` -/
  | issue (username jti : String)
  /-- `revoke_jti` with the id and the expiry of a token -/
  | revokeJti (tok : Token)
  /-- `revoke_user_all` -/
  | revokeUserAll (username : String)
  /-- the process ends and starts again -/
  | restart

/-- `_flush` of a changed store. -/
def World.flush (w : World) (r : RevocationStore) : World := { w with store := r, file := some r }

/-- The token `issue_token` signs. -/
def World.newToken (w : World) (username jti : String) : Token :=
  { sub := username, jti := jti, iat := seconds w.now, exp := seconds w.now + jwtTtlSeconds }

/-- The next state, when the action is possible: the clock does not go back, and `uuid4` gives
an id that no token has. -/
def step (w : World) : Action → Option World
  | .tick now => if w.now ≤ now then some { w with now := now } else none
  | .issue username jti =>
    if jti ≠ "" ∧ jti ∉ w.issued.map Token.jti then
      let tok := w.newToken username jti
      some { w.flush (w.store.register username jti tok.exp) with issued := tok :: w.issued }
    else none
  | .revokeJti tok =>
    if tok ∈ w.issued then
      some { w.flush (w.store.revokeJti tok.jti tok.exp) with revoked := tok :: w.revoked }
    else none
  | .revokeUserAll username =>
    some { w.flush (w.store.revokeUserAll username (seconds w.now)).2 with
      revoked := w.issued.filter (fun tok => tok.sub = username) ++ w.revoked }
  | .restart => some { w with store := RevocationStore.load w.file (seconds w.now) }

/-- The token has expired and the verifier still accepts it. -/
def Token.InLeeway (tok : Token) (now : ℕ) : Prop := tok.exp ≤ seconds now ∧ tok.dead now = false

instance (tok : Token) (now : ℕ) : Decidable (tok.InLeeway now) :=
  inferInstanceAs (Decidable (_ ∧ _))

/-- The condition: no restart inside the leeway of a revoked token, and no `revoke_user_all`
inside the leeway of a token of the user that has not been revoked before. -/
def OutsideLeeway (w : World) : Action → Prop
  | .restart => ∀ tok ∈ w.revoked, ¬ tok.InLeeway w.now
  | .revokeUserAll username =>
    ∀ tok ∈ w.issued, tok.sub = username → tok ∉ w.revoked → ¬ tok.InLeeway w.now
  | _ => True

instance (w : World) (a : Action) : Decidable (OutsideLeeway w a) := by
  cases a <;> unfold OutsideLeeway <;> infer_instance

/-! ## The invariant -/

/-- What a pair of dictionaries, in memory or in the file, says about the tokens: it lists
every revoked token the verifier would still accept and every unrevoked token that has not
expired, and nothing that is not so. -/
structure Covers (w : World) (r : RevocationStore) : Prop where
  revoked : ∀ tok ∈ w.revoked, tok.dead w.now = false → r.revokedJtis.get? tok.jti = some tok.exp
  active : ∀ tok ∈ w.issued, tok ∉ w.revoked → seconds w.now < tok.exp →
    ∃ jtis, r.activeJtis.get? tok.sub = some jtis ∧ jtis.get? tok.jti = some tok.exp
  activeSound : ∀ username jtis jti exp, r.activeJtis.get? username = some jtis →
    jtis.get? jti = some exp → ∃ tok ∈ w.issued, tok.sub = username ∧ tok.jti = jti ∧ tok.exp = exp
  revokedSound : ∀ jti exp, r.revokedJtis.get? jti = some exp → ∃ tok ∈ w.revoked, tok.jti = jti

/-- The invariant of the system. -/
structure Inv (w : World) : Prop where
  store : Covers w w.store
  file : Covers w (w.file.getD RevocationStore.empty)
  unique : ∀ tok ∈ w.issued, ∀ tok' ∈ w.issued, tok.jti = tok'.jti → tok = tok'
  named : ∀ tok ∈ w.issued, tok.jti ≠ ""
  revokedIssued : ∀ tok ∈ w.revoked, tok ∈ w.issued

theorem init_inv (now : ℕ) : Inv (World.init now) := by
  have hcovers : Covers (World.init now) RevocationStore.empty :=
    ⟨by simp [World.init], by simp [World.init], by simp [RevocationStore.empty],
      by simp [RevocationStore.empty]⟩
  exact ⟨hcovers, hcovers, by simp [World.init], by simp [World.init], by simp [World.init]⟩

section Steps

variable {w : World} {r : RevocationStore}

/-- `Covers` only looks at the clock and the tokens. -/
theorem Covers.congr (h : Covers w r) {w' : World} (hnow : w'.now = w.now)
    (hissued : w'.issued = w.issued) (hrevoked : w'.revoked = w.revoked) : Covers w' r := by
  constructor
  · rw [hrevoked, hnow]
    exact h.revoked
  · rw [hissued, hrevoked, hnow]
    exact h.active
  · rw [hissued]
    exact h.activeSound
  · rw [hrevoked]
    exact h.revokedSound

/-- Time passes. -/
theorem Covers.tick (h : Covers w r) {now : ℕ} (hnow : w.now ≤ now) :
    Covers { w with now := now } r := by
  refine ⟨fun tok htok hdead => ?_, fun tok htok hrev hexp => ?_, h.activeSound, h.revokedSound⟩
  · refine h.revoked tok htok ?_
    simp only [Token.dead, decide_eq_false_iff_not, not_le] at hdead ⊢
    omega
  · refine h.active tok htok hrev ?_
    have hle : seconds w.now ≤ seconds now := Nat.div_le_div_right hnow
    simp only at hexp
    omega

/-- `_gc` outside the leeway of the revoked tokens forgets nothing that matters. -/
theorem Covers.gc (h : Covers w r) (hguard : ∀ tok ∈ w.revoked, ¬ tok.InLeeway w.now) :
    Covers w (r.gc (seconds w.now)) := by
  have hactive : ∀ username, (r.gc (seconds w.now)).activeJtis.get? username =
      (r.activeJtis.get? username).map fun jtis => jtis.filter fun _ exp => exp > seconds w.now :=
    fun username => Dict.get?_mapVal _ _ username
  have hrevoked : ∀ jti, (r.gc (seconds w.now)).revokedJtis.get? jti =
      (r.revokedJtis.get? jti).filter fun exp => exp > seconds w.now :=
    fun jti => Dict.get?_filter _ _ jti
  refine ⟨fun tok htok hdead => ?_, fun tok htok hrev hexp => ?_,
    fun username jtis jti exp hu hj => ?_, fun jti exp hj => ?_⟩
  · have hlive : tok.exp > seconds w.now := by
      by_contra hle
      exact hguard tok htok ⟨by omega, hdead⟩
    rw [hrevoked, h.revoked tok htok hdead]
    simp [Option.filter, hlive]
  · obtain ⟨jtis, hu, hj⟩ := h.active tok htok hrev hexp
    refine ⟨_, by rw [hactive, hu]; rfl, ?_⟩
    rw [Dict.get?_filter, hj]
    simp [Option.filter, hexp]
  · rw [hactive] at hu
    obtain ⟨jtis', hu', rfl⟩ := Option.map_eq_some_iff.mp hu
    rw [Dict.get?_filter, Option.filter_eq_some_iff] at hj
    exact h.activeSound username jtis' jti exp hu' hj.1
  · rw [hrevoked, Option.filter_eq_some_iff] at hj
    exact h.revokedSound jti exp hj.1

/-- `issue_token` registers the new token. -/
theorem Covers.register (h : Covers w r) (username : String) {jti : String}
    (hjti : jti ∉ w.issued.map Token.jti) (file : Option RevocationStore)
    (store : RevocationStore) :
    Covers { w with
        store := store, file := file, issued := w.newToken username jti :: w.issued }
      (r.register username jti (w.newToken username jti).exp) := by
  have hget : ∀ username', (r.register username jti (w.newToken username jti).exp).activeJtis.get?
      username' = if username = username' then
        some (((r.activeJtis.get? username).getD Dict.empty).set jti (w.newToken username jti).exp)
      else r.activeJtis.get? username' := fun username' => Dict.get?_set _ _ _ _
  have hold : ∀ tok ∈ w.issued, tok.jti ≠ jti :=
    fun tok htok he => hjti (List.mem_map.mpr ⟨tok, htok, he⟩)
  refine ⟨h.revoked, fun tok htok hrev hexp => ?_, fun username' jtis jti' exp hu hj => ?_,
    h.revokedSound⟩
  · rcases List.mem_cons.mp htok with rfl | htok
    · exact ⟨_, (hget username).trans (if_pos rfl), Dict.get?_set_self _ _ _⟩
    · obtain ⟨jtis, hu, hj⟩ := h.active tok htok hrev hexp
      by_cases hname : username = tok.sub
      · refine ⟨_, by rw [hget, if_pos hname], ?_⟩
        rw [hname, hu, Option.getD_some, Dict.get?_set_ne _ (Ne.symm (hold tok htok)), hj]
      · exact ⟨jtis, by rw [hget, if_neg hname, hu], hj⟩
  · rw [hget] at hu
    by_cases hname : username = username'
    · rw [if_pos hname] at hu
      cases hu
      rw [Dict.get?_set] at hj
      by_cases hid : jti = jti'
      · rw [if_pos hid] at hj
        exact ⟨_, List.mem_cons_self, hname, hid, Option.some.inj hj⟩
      · rw [if_neg hid] at hj
        cases hact : r.activeJtis.get? username with
        | none =>
          rw [hact] at hj
          cases hj
        | some jtis =>
          rw [hact] at hj
          obtain ⟨tok, htok, hsub, hrest⟩ := h.activeSound username jtis jti' exp hact hj
          exact ⟨tok, List.mem_cons_of_mem _ htok, hsub.trans hname, hrest⟩
    · rw [if_neg hname] at hu
      obtain ⟨tok, htok, hrest⟩ := h.activeSound username' jtis jti' exp hu hj
      exact ⟨tok, List.mem_cons_of_mem _ htok, hrest⟩

/-- `revoke_jti` of an issued token. -/
theorem Covers.revokeJti (h : Covers w r) (hw : Inv w) {tok₀ : Token} (htok₀ : tok₀ ∈ w.issued)
    (file : Option RevocationStore) (store : RevocationStore) :
    Covers { w with store := store, file := file, revoked := tok₀ :: w.revoked }
      (r.revokeJti tok₀.jti tok₀.exp) := by
  have hactive : ∀ username, (r.revokeJti tok₀.jti tok₀.exp).activeJtis.get? username =
      (r.activeJtis.get? username).map fun jtis => jtis.erase tok₀.jti :=
    fun username => Dict.get?_mapVal _ _ username
  have hrevoked : ∀ jti, (r.revokeJti tok₀.jti tok₀.exp).revokedJtis.get? jti =
      if tok₀.jti = jti then some tok₀.exp else r.revokedJtis.get? jti :=
    fun jti => Dict.get?_set _ _ _ _
  refine ⟨fun tok htok hdead => ?_, fun tok htok hrev hexp => ?_,
    fun username jtis jti exp hu hj => ?_, fun jti exp hj => ?_⟩
  · rw [hrevoked]
    rcases List.mem_cons.mp htok with rfl | htok
    · exact if_pos rfl
    · split
      · next hid => rw [hw.unique tok₀ htok₀ tok (hw.revokedIssued tok htok) hid]
      · exact h.revoked tok htok hdead
  · have hne : tok₀.jti ≠ tok.jti := by
      intro hid
      exact hrev (hw.unique tok₀ htok₀ tok htok hid ▸ List.mem_cons_self)
    obtain ⟨jtis, hu, hj⟩ := h.active tok htok (fun hmem => hrev (List.mem_cons_of_mem _ hmem)) hexp
    refine ⟨_, by rw [hactive, hu]; rfl, ?_⟩
    rw [Dict.get?_erase, if_neg hne, hj]
  · rw [hactive] at hu
    obtain ⟨jtis', hu', rfl⟩ := Option.map_eq_some_iff.mp hu
    rw [Dict.get?_erase] at hj
    split at hj
    · cases hj
    · exact h.activeSound username jtis' jti exp hu' hj
  · rw [hrevoked] at hj
    split at hj
    · next hid => exact ⟨tok₀, List.mem_cons_self, hid⟩
    · obtain ⟨tok, htok, hid⟩ := h.revokedSound jti exp hj
      exact ⟨tok, List.mem_cons_of_mem _ htok, hid⟩

/-- The token ids `revoke_user_all` revokes are those of tokens of the user that have not
expired. -/
theorem Covers.toRevoke (h : Covers w r) {username jti : String} {exp : ℕ}
    (hj : (r.toRevoke username (seconds w.now)).get? jti = some exp) :
    seconds w.now < exp ∧ ∃ tok ∈ w.issued, tok.sub = username ∧ tok.jti = jti ∧ tok.exp = exp := by
  rw [RevocationStore.toRevoke, Dict.get?_filter, Option.filter_eq_some_iff] at hj
  obtain ⟨hj, hexp⟩ := hj
  cases hu : r.activeJtis.get? username with
  | none =>
    rw [hu] at hj
    cases hj
  | some jtis =>
    rw [hu] at hj
    exact ⟨of_decide_eq_true hexp, h.activeSound username jtis jti exp hu hj⟩

/-- `revoke_user_all` outside the leeway of the user's unrevoked tokens. -/
theorem Covers.revokeUserAll (h : Covers w r) (hw : Inv w) {username : String}
    (hguard : ∀ tok ∈ w.issued, tok.sub = username → tok ∉ w.revoked → ¬ tok.InLeeway w.now)
    (file : Option RevocationStore) (store : RevocationStore) :
    Covers { w with
        store := store, file := file
        revoked := w.issued.filter (fun tok => tok.sub = username) ++ w.revoked }
      (r.revokeUserAll username (seconds w.now)).2 := by
  have hactive : ∀ username', (r.revokeUserAll username (seconds w.now)).2.activeJtis.get?
      username' = if username = username' then none else r.activeJtis.get? username' :=
    fun username' => Dict.get?_erase _ _ _
  have hrevoked : ∀ jti, (r.revokeUserAll username (seconds w.now)).2.revokedJtis.get? jti =
      ((r.toRevoke username (seconds w.now)).get? jti).or (r.revokedJtis.get? jti) :=
    fun jti => Dict.get?_update _ _ _
  have hmem : ∀ tok : Token,
      tok ∈ w.issued.filter (fun tok => tok.sub = username) ++ w.revoked ↔
        (tok ∈ w.issued ∧ tok.sub = username) ∨ tok ∈ w.revoked := by
    simp [List.mem_append, List.mem_filter]
  refine ⟨fun tok htok hdead => ?_, fun tok htok hrev hexp => ?_,
    fun username' jtis jti exp hu hj => ?_, fun jti exp hj => ?_⟩
  · have hissued : tok ∈ w.issued := by
      rcases (hmem tok).mp htok with ⟨htok, -⟩ | htok
      · exact htok
      · exact hw.revokedIssued tok htok
    rw [hrevoked]
    cases hto : (r.toRevoke username (seconds w.now)).get? tok.jti with
    | some exp =>
      obtain ⟨-, tok', htok', -, hid, hexp⟩ := h.toRevoke hto
      rw [Option.some_or, ← hexp, hw.unique tok' htok' tok hissued hid]
    | none =>
      rw [Option.none_or]
      by_cases hrev : tok ∈ w.revoked
      · exact h.revoked tok hrev hdead
      · -- the token has not expired, so it is still among the active ones
        have hsub : tok.sub = username := ((hmem tok).mp htok).resolve_right hrev |>.2
        have hlive : seconds w.now < tok.exp := by
          by_contra hle
          exact hguard tok hissued hsub hrev ⟨by omega, hdead⟩
        obtain ⟨jtis, hu, hj⟩ := h.active tok hissued hrev hlive
        rw [RevocationStore.toRevoke, ← hsub, hu, Option.getD_some, Dict.get?_filter, hj] at hto
        simp [Option.filter, hlive] at hto
  · have hsub : tok.sub ≠ username := fun hsub => hrev ((hmem tok).mpr (Or.inl ⟨htok, hsub⟩))
    obtain ⟨jtis, hu, hj⟩ := h.active tok htok (fun hr => hrev ((hmem tok).mpr (Or.inr hr))) hexp
    exact ⟨jtis, by rw [hactive, if_neg (Ne.symm hsub), hu], hj⟩
  · rw [hactive] at hu
    split at hu
    · cases hu
    · exact h.activeSound username' jtis jti exp hu hj
  · rw [hrevoked] at hj
    cases hto : (r.toRevoke username (seconds w.now)).get? jti with
    | some exp' =>
      obtain ⟨-, tok, htok, hsub, hid, -⟩ := h.toRevoke hto
      exact ⟨tok, (hmem tok).mpr (Or.inl ⟨htok, hsub⟩), hid⟩
    | none =>
      rw [hto, Option.none_or] at hj
      obtain ⟨tok, htok, hid⟩ := h.revokedSound jti exp hj
      exact ⟨tok, (hmem tok).mpr (Or.inr htok), hid⟩

end Steps

variable {w : World}

/-- Every guarded step keeps the invariant. -/
theorem inv_step {w' : World} {a : Action} (hw : Inv w) (hguard : OutsideLeeway w a)
    (hstep : step w a = some w') : Inv w' := by
  cases a with
  | tick now =>
    simp only [step] at hstep
    split at hstep
    · next hnow =>
      cases hstep
      exact ⟨hw.store.tick hnow, hw.file.tick hnow, hw.unique, hw.named, hw.revokedIssued⟩
    · cases hstep
  | issue username jti =>
    simp only [step] at hstep
    split at hstep
    · next hnew =>
      cases hstep
      have hcovers := hw.store.register username hnew.2
      refine ⟨hcovers _ _, hcovers _ _, fun tok htok tok' htok' hid => ?_, fun tok htok => ?_,
        fun tok htok => List.mem_cons_of_mem _ (hw.revokedIssued tok htok)⟩
      · have hold : ∀ tok ∈ w.issued, tok.jti ≠ jti :=
          fun tok htok he => hnew.2 (List.mem_map.mpr ⟨tok, htok, he⟩)
        rcases List.mem_cons.mp htok with rfl | htok <;>
          rcases List.mem_cons.mp htok' with rfl | htok'
        · rfl
        · exact absurd hid.symm (hold tok' htok')
        · exact absurd hid (hold tok htok)
        · exact hw.unique tok htok tok' htok' hid
      · rcases List.mem_cons.mp htok with rfl | htok
        · exact hnew.1
        · exact hw.named tok htok
    · cases hstep
  | revokeJti tok₀ =>
    simp only [step] at hstep
    split at hstep
    · next htok₀ =>
      cases hstep
      have hcovers := hw.store.revokeJti hw htok₀
      refine ⟨hcovers _ _, hcovers _ _, hw.unique, hw.named, fun tok htok => ?_⟩
      rcases List.mem_cons.mp htok with rfl | htok
      · exact htok₀
      · exact hw.revokedIssued tok htok
    · cases hstep
  | revokeUserAll username =>
    cases hstep
    have hcovers := hw.store.revokeUserAll hw hguard
    refine ⟨hcovers _ _, hcovers _ _, hw.unique, hw.named, fun tok htok => ?_⟩
    rcases List.mem_append.mp htok with htok | htok
    · exact List.mem_of_mem_filter htok
    · exact hw.revokedIssued tok htok
  | restart =>
    cases hstep
    have hload : RevocationStore.load w.file (seconds w.now) =
        (w.file.getD RevocationStore.empty).gc (seconds w.now) := by
      cases w.file <;> rfl
    have hgc := hw.file.gc hguard
    rw [← hload] at hgc
    exact ⟨hgc.congr rfl rfl rfl, hw.file.congr rfl rfl rfl, hw.unique, hw.named,
      hw.revokedIssued⟩

variable {tok : Token}

/-- What has been revoked stays in the record of what has been revoked. -/
theorem mem_revoked_step {w' : World} {a : Action} (hstep : step w a = some w')
    (htok : tok ∈ w.revoked) : tok ∈ w'.revoked := by
  cases a <;> simp only [step] at hstep <;> try split at hstep
  all_goals cases hstep
  all_goals simp [World.flush, htok]

/-! ## The verifier -/

/-- When the verifier accepts a signed token. -/
theorem verifyToken_eq_ok_iff (r : RevocationStore) (now : ℕ) (hjti : tok.jti ≠ "") :
    verifyToken r now (.signed tok) = .ok tok ↔
      tok.dead now = false ∧ r.revokedJtis.get? tok.jti = none := by
  have hrevoked : r.isRevoked tok.jti = (r.revokedJtis.get? tok.jti).isSome := by
    simp [RevocationStore.isRevoked, Dict.contains, hjti]
  rw [verifyToken, hrevoked]
  cases tok.dead now <;> cases r.revokedJtis.get? tok.jti <;> simp

/-- A revoked token is refused in every state that satisfies the invariant. -/
theorem Inv.refuses (hw : Inv w) (htok : tok ∈ w.revoked) :
    verifyToken w.store w.now (.signed tok) ≠ .ok tok := by
  intro hok
  have hjti := hw.named tok (hw.revokedIssued tok htok)
  obtain ⟨hdead, hnone⟩ := (verifyToken_eq_ok_iff w.store w.now hjti).mp hok
  rw [hw.store.revoked tok htok hdead] at hnone
  cases hnone

/-! ## Whole runs -/

/-- Over every run that meets the condition: once a token has been revoked, by its id or with
all tokens of its user, `verify_token` refuses it in every later state. -/
theorem revoked_stays_revoked (now : ℕ) {w w' : World}
    (hw : System.Reaches step OutsideLeeway (World.init now) w)
    (hw' : System.Reaches step OutsideLeeway w w') {tok : Token} (htok : tok ∈ w.revoked) :
    verifyToken w'.store w'.now (.signed tok) ≠ .ok tok := by
  have hstep : ∀ s a t, Inv s → OutsideLeeway s a → step s a = some t → Inv t :=
    fun _ _ _ hs hguard ha => inv_step hs hguard ha
  have hinv := hw.invariant hstep (init_inv now)
  have hlater : tok ∈ w'.revoked := hw'.stable (P := fun s => tok ∈ s.revoked) hstep
    (fun _ _ _ _ hmem _ ha => mem_revoked_step ha hmem) hinv htok
  exact (hw'.invariant hstep hinv).refuses hlater

/-- The token issued to `bob` at time 0. -/
def tokenOfBob : Token := { sub := "bob", jti := "t1", iat := 0, exp := 604800 }

/-- A run that meets the condition: the restart comes before the expiry. -/
theorem revoked_stays_revoked_restart :
    ∃ w : World, w.now = 604800 * 1000000 + 1 ∧
      verifyToken w.store w.now (.signed tokenOfBob) ≠ .ok tokenOfBob := by
  obtain ⟨w, hw, hrun, hrevoked⟩ := System.reaches_of_observe step OutsideLeeway (World.init 0)
    [.issue "bob" "t1", .revokeJti tokenOfBob] (fun w => decide (tokenOfBob ∈ w.revoked))
    (b := true) (by decide)
  obtain ⟨w', hw', -, hnow⟩ := System.reaches_of_observe_append hrun
    [.tick 1000000, .restart, .tick (604800 * 1000000 + 1)] (fun w => w.now)
    (b := 604800 * 1000000 + 1) (by decide)
  exact ⟨w', hnow, revoked_stays_revoked 0 hw hw' (of_decide_eq_true hrevoked)⟩

/-- `bob`'s token is revoked, and the process restarts just after its expiry. -/
def restartInLeeway : List Action :=
  [.issue "bob" "t1", .revokeJti tokenOfBob, .tick (604800 * 1000000 + 1), .restart]

/-- `bob` revokes all his tokens just after the expiry of the one he has. -/
def revokeAllInLeeway : List Action :=
  [.issue "bob" "t1", .tick (604800 * 1000000 + 1), .revokeUserAll "bob"]

/-- The property fails inside the leeway, both ways: a restart forgets the revoked token, and
`revoke_user_all` does not revoke it in the first place. -/
theorem revoked_token_accepted_in_leeway :
    (∃ w : World, System.exec step System.anyStep (World.init 0) restartInLeeway = some w ∧
      tokenOfBob ∈ w.revoked ∧
      verifyToken w.store w.now (.signed tokenOfBob) = .ok tokenOfBob) ∧
    ∃ w : World, System.exec step System.anyStep (World.init 0) revokeAllInLeeway = some w ∧
      tokenOfBob ∈ w.revoked ∧
      verifyToken w.store w.now (.signed tokenOfBob) = .ok tokenOfBob := by
  have hverdict : ∀ actions : List Action,
      (System.exec step System.anyStep (World.init 0) actions).map (fun w =>
        (decide (tokenOfBob ∈ w.revoked), tokenOfBob.dead w.now, w.store.isRevoked "t1")) =
          some (true, false, false) →
      ∃ w : World, System.exec step System.anyStep (World.init 0) actions = some w ∧
        tokenOfBob ∈ w.revoked ∧
        verifyToken w.store w.now (.signed tokenOfBob) = .ok tokenOfBob := by
    intro actions hobs
    obtain ⟨w, -, hrun, hobs⟩ := System.reaches_of_observe _ _ _ actions _ hobs
    simp only [Prod.mk.injEq, decide_eq_true_eq] at hobs
    obtain ⟨hmem, hdead, hrev⟩ := hobs
    refine ⟨w, hrun, hmem, ?_⟩
    simp [verifyToken, hdead, show tokenOfBob.jti = "t1" from rfl, hrev]
  exact ⟨hverdict restartInLeeway (by decide), hverdict revokeAllInLeeway (by decide)⟩

end SrsChatRoom.Server.Auth
