import SrsChatRoom.App.SipSession

/-!
# When a registration is honoured

A REGISTER should leave the connection registered, and one with `Expires: 0` or a BYE should end
the session. What a message does to the state of a connection is a small table; the state it meets
is that of a connection which may have been taken over from another one.
-/

namespace SrsChatRoom.App.SipSession

/-! ## The table of `drive_state` -/

/-- A message that none of the blocks looks at. -/
structure Quiet (m : SrsSipMessage) : Prop where
  register : m.isRegister = false
  message : m.isMessage = false
  invite : m.isInvite = false
  trying : m.isTrying = false
  inviteOk : m.isInviteOk = false
  bye : m.isBye = false
  byeOk : m.isByeOk = false

variable {m : SrsSipMessage}

theorem enqueue_quiet (h : Quiet m) (s : SipState) : enqueueSipMessage m s = s := by
  unfold enqueueSipMessage driveBlocks driveInit driveRegistered driveInviting driveTrying
    driveStable driveReinviting
  simp [h.register, h.message, h.invite, h.trying, h.inviteOk, h.bye, h.byeOk]

/-- What is sent for a message does not change the state. -/
theorem quiet_answerTo {res : SrsSipMessage} {s : SipState} (h : answerTo m s = some res) :
    Quiet res := by
  unfold answerTo at h
  split at h
  · cases h
    exact ⟨rfl, rfl, rfl, rfl, rfl, rfl, rfl⟩
  · split at h
    · cases h
      exact ⟨rfl, rfl, rfl, rfl, rfl, rfl, rfl⟩
    · split at h
      · cases h
        exact ⟨rfl, rfl, rfl, rfl, rfl, rfl, rfl⟩
      · split at h
        · cases h
          exact ⟨rfl, rfl, rfl, rfl, rfl, rfl, rfl⟩
        · cases h

theorem handle_eq_drive (inviteOk : Bool) (m : SrsSipMessage) (s : SipState) :
    handleSipMessage inviteOk m s = driveState inviteOk m s := by
  unfold handleSipMessage
  dsimp only
  cases hres : answerTo m (driveState inviteOk m s) with
  | none => rfl
  | some res => exact enqueue_quiet (quiet_answerTo hres) _

/-- A second INVITE does not change the state. -/
theorem inviteRequest_inviting (inviteOk : Bool) : inviteRequest inviteOk .inviting = .inviting := by
  cases inviteOk <;> rfl

section Drive

attribute [local simp] driveState driveBlocks driveInit driveRegistered driveInviting driveTrying
  driveStable driveReinviting SrsSipMessage.isRegister SrsSipMessage.isMessage
  SrsSipMessage.isInvite SrsSipMessage.isTrying SrsSipMessage.isInviteOk SrsSipMessage.isBye
  SrsSipMessage.isByeOk

/-- What a REGISTER does. -/
theorem drive_register {m : SrsSipMessage} (h : m.isRegister = true) (inviteOk : Bool)
    (s : SipState) :
    driveState inviteOk m s =
      match s with
      | .init => if m.expires = 0 then .bye else .registered
      | .stable => if m.expires = 0 then .bye else .stable
      | s => s := by
  obtain ⟨htype, hmethod⟩ := of_decide_eq_true h
  have hpos : 0 < m.expires ↔ ¬ m.expires = 0 := Nat.pos_iff_ne_zero
  cases s <;> simp [htype, hmethod, hpos, inviteRequest_inviting]
  by_cases hexpires : m.expires = 0 <;> simp [hexpires]

/-- What a BYE does. -/
theorem drive_bye {m : SrsSipMessage} (h : m.isBye = true) (inviteOk : Bool) (s : SipState) :
    driveState inviteOk m s = if s = .stable then .bye else s := by
  obtain ⟨htype, hmethod⟩ := of_decide_eq_true h
  cases s <;> simp [htype, hmethod]

end Drive

/-- No message leads out of the state `bye`. -/
theorem drive_from_bye (inviteOk : Bool) (m : SrsSipMessage) :
    driveState inviteOk m .bye = .bye := rfl

/-! ## The conditions -/

/-- A REGISTER with `Expires` above zero. -/
def Registers (m : SrsSipMessage) : Prop := m.isRegister = true ∧ m.expires > 0

/-- A REGISTER with `Expires: 0`, or a BYE. -/
def Unregisters (m : SrsSipMessage) : Prop :=
  m.isRegister = true ∧ m.expires = 0 ∨ m.isBye = true

instance (m : SrsSipMessage) : Decidable (Registers m) := by unfold Registers; infer_instance
instance (m : SrsSipMessage) : Decidable (Unregisters m) := by unfold Unregisters; infer_instance

/-- The states in which an unregistering message leads to `bye`. -/
def LeadsToBye (m : SrsSipMessage) (s : SipState) : Prop :=
  s = .bye ∨ s = .stable ∨ s = .init ∧ m.isRegister = true

instance (m : SrsSipMessage) (s : SipState) : Decidable (LeadsToBye m s) := by
  unfold LeadsToBye; infer_instance

/-- Every step but the ticks of one session. -/
def NoTick (k : ℕ) (_ : Gb) (a : Action) : Prop := ∀ clock, a ≠ .tick k clock

/-- Whatever happens until then, the next tick of the session ends it. -/
def EndsAtNextTick (s : Gb) (k : ℕ) : Prop :=
  ∀ u, System.Reaches step (NoTick k) s u → ∀ clock t, step u (.tick k clock) = some t →
    (t.sessions k).ended = true

/-- What the last message that was handled asks for has been done. -/
def Honoured (s : Gb) : Prop :=
  ∀ c m, s.answered = some (c, m) →
    (Registers m → (s.conns c).state.isRegistered = true) ∧
    (Unregisters m → (s.conns c).state = .bye ∧
      ∀ k, (s.conns c).session = some k → EndsAtNextTick s k)

/-- The session that handles a message on a connection, with the state that the message meets: its
own, or for the first REGISTER of the connection that of the session's connection. -/
def Gb.meets (s : Gb) (c : ℕ) (m : SrsSipMessage) : Option (Option ℕ × SipState) :=
  match (s.conns c).session with
  | some k => some (some k, (s.conns c).state)
  | none =>
    if m.deviceId ≠ "" ∧ m.isRegister = true then
      match s.byId.get? m.deviceId with
      | some k => some (some k, s.sipState k)
      | none => some (none, .init)
    else none

/-- The session looks at this connection, or has no need to: the connection is its current one,
or it becomes it now, or the current one is in the state `bye`, or the session has ended. -/
def Gb.watches (s : Gb) (c : ℕ) : Option ℕ → Prop
  | none => True
  | some k => (s.conns c).session = none ∨ (s.sessions k).sip = some c ∨ s.sipState k = .bye ∨
    (s.sessions k).ended = true

instance (s : Gb) (c : ℕ) (k : Option ℕ) : Decidable (s.watches c k) := by
  cases k <;> unfold Gb.watches <;> infer_instance

/-- A REGISTER does not meet the state `bye`. An unregistering message meets a state that leads to
`bye`, on a connection that the session looks at. -/
def InTime (s : Gb) : Action → Prop
  | .message c m _ => ∀ met ∈ s.meets c m,
      (Registers m → met.2 ≠ .bye) ∧ (Unregisters m → LeadsToBye m met.2 ∧ s.watches c met.1)
  | _ => True

instance (s : Gb) (a : Action) : Decidable (InTime s a) := by
  cases a <;> unfold InTime <;> infer_instance

/-! ## Connections and their sessions -/

/-- The connection of a session is bound to it, and sessions have numbers that were given out. -/
structure Inv (s : Gb) : Prop where
  bound : ∀ k c, (s.sessions k).sip = some c → (s.conns c).session = some k
  number : ∀ c k, (s.conns c).session = some k → k < s.nextSession
  found : ∀ id k, s.byId.get? id = some k → k < s.nextSession

theorem inv_init : Inv Gb.init := by
  refine ⟨?_, ?_, ?_⟩
  · intro k c h
    cases h
  · intro c k h
    cases h
  · intro id k h
    cases h

section Fields

variable (s : Gb) (c k : ℕ)

theorem conns_setConn (conn : SrsGbSipTcpConn) (c' : ℕ) :
    (s.setConn c conn).conns c' = if c' = c then conn else s.conns c' :=
  Function.update_apply _ _ _ _

theorem sessions_setSession (session : SrsGbSession) (k' : ℕ) :
    (s.setSession k session).sessions k' = if k' = k then session else s.sessions k' :=
  Function.update_apply _ _ _ _

theorem conns_bindTo (c' : ℕ) : (bindTo s c k).conns c' = if c' = c then
    ⟨if (s.sessions k).sip = some c then (s.conns c).state else s.sipState k, some k⟩
    else s.conns c' :=
  conns_setConn _ _ _ _

theorem sessions_bindTo (k' : ℕ) : (bindTo s c k).sessions k' =
    if k' = k then { s.sessions k with sip := some c } else s.sessions k' :=
  sessions_setSession _ _ _ _

/-- The state that a session sees is a matter of its connection only. -/
theorem sipState_of_sip {c : ℕ} (h : (s.sessions k).sip = some c) :
    s.sipState k = (s.conns c).state := by
  rw [Gb.sipState, h]

end Fields

variable {s : Gb}

/-- A session whose number is not given out has no connection. -/
theorem Inv.sip_fresh (h : Inv s) : (s.sessions s.nextSession).sip = none := by
  cases hsip : (s.sessions s.nextSession).sip with
  | none => rfl
  | some c => exact absurd (h.number c _ (h.bound _ c hsip)) (lt_irrefl _)

variable {c : ℕ}

/-- An unbound connection is that of no session. -/
theorem Inv.sip_ne (h : Inv s) (hc : (s.conns c).session = none) (k : ℕ) :
    (s.sessions k).sip ≠ some c := by
  intro hsip
  rw [h.bound k c hsip] at hc
  cases hc

variable {k : ℕ}

theorem Inv.bindTo (h : Inv s) (hc : (s.conns c).session = none)
    (hk : k < s.nextSession) : Inv (bindTo s c k) := by
  refine ⟨?_, ?_, h.found⟩
  · intro k' c' hsip
    rw [sessions_bindTo] at hsip
    rw [conns_bindTo]
    split at hsip
    case isTrue heq =>
      cases hsip
      rw [if_pos rfl, heq]
    case isFalse hne =>
      have hother : c' ≠ c := by
        rintro rfl
        exact h.sip_ne hc k' hsip
      rw [if_neg hother]
      exact h.bound k' c' hsip
  · intro c' k' hsession
    rw [conns_bindTo] at hsession
    split at hsession
    · cases hsession
      exact hk
    · exact h.number c' k' hsession

theorem Inv.newSession (h : Inv s) (id : String) :
    Inv { s with nextSession := s.nextSession + 1, byId := s.byId.set id s.nextSession } := by
  refine ⟨h.bound, fun c k hk => (h.number c k hk).trans (Nat.lt_succ_self _), ?_⟩
  intro id' k hk
  rw [Dict.get?_set] at hk
  split at hk
  · cases hk
    exact Nat.lt_succ_self _
  · exact (h.found id' k hk).trans (Nat.lt_succ_self _)

/-- What binding a connection leads to. -/
theorem bindSession_cases (h : Inv s) (hc : (s.conns c).session = none) :
    (s.meets c m = none ∧ bindSession s c m = s) ∨
    ∃ k s', Inv s' ∧ k < s'.nextSession ∧ s'.conns = s.conns ∧ s'.sessions = s.sessions ∧
      bindSession s c m = bindTo s' c k ∧
      ((s.meets c m = some (some k, s.sipState k)) ∨
        s.meets c m = some (none, .init) ∧ (s.sessions k).sip = none) := by
  unfold bindSession Gb.meets
  rw [hc]
  dsimp only
  by_cases hid : m.deviceId = ""
  · left
    rw [if_neg fun hm => hm.1 hid, if_pos hid]
    exact ⟨rfl, rfl⟩
  · by_cases hregister : m.isRegister = true
    · obtain ⟨htype, hmethod⟩ := of_decide_eq_true hregister
      have hnot : ¬ (m.type ≠ .request ∨ m.method ≠ .register) := by
        rw [not_or, not_not, not_not]
        exact ⟨htype, hmethod⟩
      have hboth : m.deviceId ≠ "" ∧ m.isRegister = true := ⟨hid, hregister⟩
      right
      rw [if_pos hboth, if_neg hid, if_neg hnot]
      cases hget : s.byId.get? m.deviceId with
      | some k => exact ⟨k, s, h, h.found _ k hget, rfl, rfl, rfl, .inl rfl⟩
      | none =>
        exact ⟨s.nextSession, _, h.newSession m.deviceId, Nat.lt_succ_self _, rfl, rfl, rfl,
          .inr ⟨rfl, h.sip_fresh⟩⟩
    · left
      have hskip : m.type ≠ .request ∨ m.method ≠ .register := by
        rw [← not_and_or]
        exact fun hm => hregister (decide_eq_true hm)
      rw [if_neg fun hm => hregister hm.2, if_neg hid, if_pos hskip]
      exact ⟨rfl, rfl⟩

theorem Inv.bindSession (h : Inv s) (m : SrsSipMessage)
    (hc : (s.conns c).session = none) : Inv (bindSession s c m) := by
  cases bindSession_cases (m := m) h hc with
  | inl hskip =>
    rw [hskip.2]
    exact h
  | inr hbind =>
    obtain ⟨k, s', hinv, hk, hconns, -, heq, -⟩ := hbind
    rw [heq]
    exact hinv.bindTo (hconns ▸ hc) hk

variable {t : Gb}

/-- A change of the states of connections and of what sessions have but their connection. -/
theorem Inv.frame (h : Inv s) (hsip : ∀ k, (t.sessions k).sip = (s.sessions k).sip)
    (hsession : ∀ c, (t.conns c).session = (s.conns c).session)
    (hnext : t.nextSession = s.nextSession)
    (hbyId : ∀ id k, t.byId.get? id = some k → s.byId.get? id = some k) : Inv t := by
  refine ⟨?_, ?_, ?_⟩
  · intro k c hget
    rw [hsession]
    exact h.bound k c ((hsip k).symm.trans hget)
  · intro c k hget
    rw [hnext]
    exact h.number c k ((hsession c).symm.trans hget)
  · intro id k hget
    rw [hnext]
    exact h.found id k (hbyId id k hget)

/-- The state of a connection changes, not the session it is bound to. -/
theorem session_setState (s : Gb) (c : ℕ) (state : SipState) (c' : ℕ) :
    ((s.setConn c { s.conns c with state := state }).conns c').session =
      (s.conns c').session := by
  rw [conns_setConn]
  split
  case isTrue heq => rw [heq]
  case isFalse => rfl

/-- The connection has handled a message. -/
def Gb.handled (s : Gb) (c : ℕ) (m : SrsSipMessage) (inviteOk : Bool) : Gb :=
  { s.setConn c { s.conns c with state := driveState inviteOk m (s.conns c).state } with
    answered := some (c, m) }

/-- A message is dropped or handled, once the connection has been looked at. -/
theorem onSipMessage_cases (s : Gb) (c : ℕ) (m : SrsSipMessage) (inviteOk : Bool) :
    ∃ s', s' = (if (s.conns c).session = none then bindSession s c m else s) ∧
      (((s'.conns c).session = none ∧ onSipMessage s c m inviteOk = { s' with answered := none }) ∨
        ∃ k, (s'.conns c).session = some k ∧
          onSipMessage s c m inviteOk = s'.handled c m inviteOk) := by
  refine ⟨_, rfl, ?_⟩
  unfold onSipMessage
  dsimp only
  generalize (if (s.conns c).session = none then bindSession s c m else s) = s'
  cases hsession : (s'.conns c).session with
  | none => exact .inl ⟨rfl, rfl⟩
  | some k =>
    right
    refine ⟨k, rfl, ?_⟩
    simp only [Gb.handled, handle_eq_drive, hsession]

theorem Inv.onSipMessage (h : Inv s) (c : ℕ) (m : SrsSipMessage) (inviteOk : Bool) :
    Inv (onSipMessage s c m inviteOk) := by
  obtain ⟨s', hs', hcases⟩ := onSipMessage_cases s c m inviteOk
  have hinv : Inv s' := by
    rw [hs']
    split
    case isTrue hc => exact h.bindSession m hc
    case isFalse => exact h
  cases hcases with
  | inl hdrop =>
    rw [hdrop.2]
    exact hinv.frame (fun _ => rfl) (fun _ => rfl) rfl fun _ _ hk => hk
  | inr hhandled =>
    obtain ⟨k, -, heq⟩ := hhandled
    rw [heq]
    exact hinv.frame (fun _ => rfl) (fun c' => session_setState s' c _ c') rfl fun _ _ hk => hk

/-- A change of a session that keeps its connection. -/
theorem sip_setSession (s : Gb) (k : ℕ) (session : SrsGbSession)
    (h : session.sip = (s.sessions k).sip) (k' : ℕ) :
    ((s.setSession k session).sessions k').sip = (s.sessions k').sip := by
  rw [sessions_setSession]
  split
  case isTrue heq => rw [heq, h]
  case isFalse => rfl

/-- Driving a session keeps its connection, and does not end it. -/
theorem sessionDriveState_keeps {clock : Clock} {d d' : Drive}
    (h : sessionDriveState clock d = some d') :
    d'.session.sip = d.session.sip ∧ d'.session.ended = d.session.ended := by
  obtain ⟨e, he, rfl⟩ := Option.map_eq_some_iff.mp h
  obtain ⟨i, hi, hconnecting⟩ := Option.bind_eq_some_iff.mp he
  have hinit : i.session.sip = d.session.sip ∧ i.session.ended = d.session.ended := by
    unfold sessionInit at hi
    dsimp only at hi
    split at hi
    · split at hi
      · split at hi
        · cases hi
          exact ⟨rfl, rfl⟩
        · cases hi
      · cases hi
        exact ⟨rfl, rfl⟩
    · cases hi
      exact ⟨rfl, rfl⟩
  have hnext : e.session.sip = i.session.sip ∧ e.session.ended = i.session.ended := by
    unfold sessionConnecting at hconnecting
    split at hconnecting
    case isTrue =>
      obtain ⟨f, hf, rfl⟩ := Option.map_eq_some_iff.mp hconnecting
      have htimeout : f.session.sip = i.session.sip ∧ f.session.ended = i.session.ended := by
        unfold connectingTimedOut at hf
        split at hf
        · split at hf
          · cases hf
          · cases hf
            exact ⟨rfl, rfl⟩
        · cases hf
          exact ⟨rfl, rfl⟩
      unfold connectingDone
      split <;> exact htimeout
    case isFalse =>
      cases hconnecting
      exact ⟨rfl, rfl⟩
  have hlast : (sessionEstablished clock e).session.sip = e.session.sip ∧
      (sessionEstablished clock e).session.ended = e.session.ended := by
    unfold sessionEstablished
    repeat' split <;> try exact ⟨rfl, rfl⟩
  exact ⟨hlast.1.trans (hnext.1.trans hinit.1), hlast.2.trans (hnext.2.trans hinit.2)⟩

/-- What a tick changes: the session, and the state of its connection. -/
theorem tick_cases (s : Gb) (k : ℕ) (clock : Clock) :
    (tick s k clock = s.setSession k { s.sessions k with ended := true }) ∨
    ∃ d : Drive, s.sipState k ≠ .bye ∧ d.session.sip = (s.sessions k).sip ∧
      d.session.ended = (s.sessions k).ended ∧
      tick s k clock = (s.setSip k d.sip).setSession k d.session := by
  unfold tick
  dsimp only
  split
  case isTrue => exact .inl rfl
  case isFalse hbye =>
    cases hdrive : sessionDriveState clock ⟨s.sessions k, s.sipState k⟩ with
    | none => exact .inl rfl
    | some d =>
      obtain ⟨hsip, hended⟩ := sessionDriveState_keeps hdrive
      exact .inr ⟨d, hbye, hsip, hended, rfl⟩

theorem sessions_setSip (s : Gb) (k : ℕ) (state : SipState) :
    (s.setSip k state).sessions = s.sessions := by
  unfold Gb.setSip
  split <;> rfl

theorem session_setSip (s : Gb) (k : ℕ) (state : SipState) (c : ℕ) :
    ((s.setSip k state).conns c).session = (s.conns c).session := by
  unfold Gb.setSip
  split
  · exact session_setState s _ state c
  · rfl

/-- Only the connection of the session changes. -/
theorem conns_setSip (s : Gb) (state : SipState) (h : (s.sessions k).sip ≠ some c) :
    (s.setSip k state).conns c = s.conns c := by
  unfold Gb.setSip
  cases hsip : (s.sessions k).sip with
  | none => rfl
  | some c' =>
    have hne : c ≠ c' := by
      rintro rfl
      exact h hsip
    dsimp only
    rw [conns_setConn, if_neg hne]

theorem Inv.tick (h : Inv s) (k : ℕ) (clock : Clock) : Inv (tick s k clock) := by
  cases tick_cases s k clock with
  | inl hend =>
    rw [hend]
    exact h.frame (sip_setSession s k _ rfl) (fun _ => rfl) rfl fun _ _ hk => hk
  | inr hdrive =>
    obtain ⟨d, -, hsip, -, heq⟩ := hdrive
    rw [heq]
    refine h.frame ?_ (fun c => session_setSip s k d.sip c) ?_ ?_
    · intro k'
      rw [sip_setSession _ k d.session (by rw [sessions_setSip, hsip]), sessions_setSip]
    · show (s.setSip k d.sip).nextSession = s.nextSession
      unfold Gb.setSip
      split <;> rfl
    · intro id k' hk
      have hsame : (s.setSip k d.sip).byId = s.byId := by
        unfold Gb.setSip
        split <;> rfl
      exact hsame ▸ hk

/-- Being answered is no part of the invariant. -/
theorem Inv.answered (h : Inv s) (answered : Option (ℕ × SrsSipMessage)) :
    Inv { s with answered := answered } :=
  ⟨h.bound, h.number, h.found⟩

theorem Inv.step {a : Action} (h : Inv s) (hstep : step s a = some t) : Inv t := by
  unfold SipSession.step at hstep
  cases a with
  | message c m inviteOk =>
    dsimp only at hstep
    split at hstep
    · cases hstep
      exact h.onSipMessage c m inviteOk
    · cases hstep
  | tick k clock =>
    dsimp only at hstep
    split at hstep
    · cases hstep
      exact (h.tick k clock).answered none
    · cases hstep
  | media k connected =>
    cases hstep
    have hsip := sip_setSession s k { s.sessions k with mediaConnected := connected } rfl
    exact (h.frame hsip (fun _ => rfl) rfl fun _ _ hk => hk).answered none
  | free k =>
    dsimp only at hstep
    split at hstep
    · cases hstep
      refine h.frame (sip_setSession s k { s.sessions k with freed := true } rfl)
        (fun _ => rfl) rfl ?_
      intro id k' hk
      have hfilter : (s.byId.filter fun _ k' => k' ≠ k).get? id = some k' := hk
      rw [Dict.get?_filter] at hfilter
      exact (Option.filter_eq_some_iff.mp hfilter).1
    · cases hstep

/-! ## The state `bye` lasts until the next tick -/

/-- The session has ended, or sees the state `bye`. -/
def Over (s : Gb) (k : ℕ) : Prop := (s.sessions k).ended = true ∨ s.sipState k = .bye

/-- A step that keeps the sessions' connections and the state of this one's. -/
theorem Over.frame (h : Over s k) (hended : (t.sessions k).ended = (s.sessions k).ended)
    (hsip : (t.sessions k).sip = (s.sessions k).sip)
    (hstate : ∀ c, (s.sessions k).sip = some c → (s.conns c).state = .bye →
      (t.conns c).state = .bye) : Over t k := by
  cases h with
  | inl hend => exact .inl (hended.trans hend)
  | inr hbye =>
    right
    unfold Gb.sipState at hbye ⊢
    rw [hsip]
    cases hc : (s.sessions k).sip with
    | none =>
      rw [hc] at hbye
      cases hbye
    | some c =>
      rw [hc] at hbye
      exact hstate c hc hbye

/-- A connection that is bound to a session takes over the state that the session saw. -/
theorem Over.bindTo (h : Inv s) (hc : (s.conns c).session = none) {k' : ℕ}
    (hover : Over s k') : Over (bindTo s c k) k' := by
  by_cases hk : k' = k
  · subst hk
    have hsession : (SipSession.bindTo s c k').sessions k' = { s.sessions k' with sip := some c } := by
      rw [sessions_bindTo, if_pos rfl]
    cases hover with
    | inl hend =>
      left
      rw [hsession]
      exact hend
    | inr hbye =>
      right
      have hsip : ((SipSession.bindTo s c k').sessions k').sip = some c := by rw [hsession]
      rw [sipState_of_sip _ _ hsip, conns_bindTo, if_pos rfl, if_neg (h.sip_ne hc k')]
      exact hbye
  · refine hover.frame ?_ ?_ ?_
    · rw [sessions_bindTo, if_neg hk]
    · rw [sessions_bindTo, if_neg hk]
    · intro c' hsip hbye
      have hne : c' ≠ c := by
        rintro rfl
        exact h.sip_ne hc k' hsip
      rw [conns_bindTo, if_neg hne]
      exact hbye

theorem Over.bindSession (h : Inv s) (m : SrsSipMessage)
    (hc : (s.conns c).session = none) (hover : Over s k) :
    Over (bindSession s c m) k := by
  cases bindSession_cases (m := m) h hc with
  | inl hskip =>
    rw [hskip.2]
    exact hover
  | inr hbind =>
    obtain ⟨k', s', hinv, -, hconns, hsessions, heq, -⟩ := hbind
    have hover' : Over s' k := by
      refine hover.frame ?_ ?_ ?_
      · rw [hsessions]
      · rw [hsessions]
      · intro c' _ hbye
        rw [hconns]
        exact hbye
    rw [heq]
    exact hover'.bindTo hinv (hconns ▸ hc)

theorem Over.onSipMessage (h : Inv s) (hover : Over s k) (c : ℕ)
    (m : SrsSipMessage) (inviteOk : Bool) : Over (onSipMessage s c m inviteOk) k := by
  obtain ⟨s', hs', hcases⟩ := onSipMessage_cases s c m inviteOk
  have hover' : Over s' k := by
    rw [hs']
    split
    case isTrue hc => exact hover.bindSession h m hc
    case isFalse => exact hover
  cases hcases with
  | inl hdrop =>
    rw [hdrop.2]
    exact hover'
  | inr hhandled =>
    obtain ⟨k', -, heq⟩ := hhandled
    rw [heq]
    refine hover'.frame rfl rfl ?_
    intro c' _ hbye
    show ((s'.setConn c _).conns c').state = .bye
    rw [conns_setConn]
    split
    case isTrue hc' =>
      dsimp only
      rw [← hc', hbye]
      exact drive_from_bye inviteOk m
    case isFalse => exact hbye

theorem Over.step {a : Action} (h : Inv s) (hover : Over s k)
    (hguard : NoTick k s a) (hstep : step s a = some t) : Over t k := by
  unfold SipSession.step at hstep
  cases a with
  | message c m inviteOk =>
    dsimp only at hstep
    split at hstep
    · cases hstep
      exact hover.onSipMessage h c m inviteOk
    · cases hstep
  | tick k' clock =>
    have hk : k ≠ k' := by
      rintro rfl
      exact hguard clock rfl
    dsimp only at hstep
    split at hstep
    case isFalse => cases hstep
    case isTrue =>
      cases hstep
      show Over (tick s k' clock) k
      cases tick_cases s k' clock with
      | inl hend =>
        rw [hend]
        refine hover.frame ?_ ?_ fun c _ hbye => hbye
        · rw [sessions_setSession, if_neg hk]
        · rw [sessions_setSession, if_neg hk]
      | inr hdrive =>
        obtain ⟨d, -, -, -, heq⟩ := hdrive
        rw [heq]
        refine hover.frame ?_ ?_ ?_
        · rw [sessions_setSession, if_neg hk, sessions_setSip]
        · rw [sessions_setSession, if_neg hk, sessions_setSip]
        · intro c hsip hbye
          -- a connection belongs to one session, so another session's tick leaves it alone
          have hother : (s.sessions k').sip ≠ some c := by
            intro hsip'
            have hsame := (h.bound k c hsip).symm.trans (h.bound k' c hsip')
            exact hk (Option.some.inj hsame)
          show ((s.setSip k' d.sip).conns c).state = .bye
          rw [conns_setSip s d.sip hother]
          exact hbye
  | media k' connected =>
    cases hstep
    refine hover.frame ?_
      (sip_setSession s k' { s.sessions k' with mediaConnected := connected } rfl k)
      fun c _ hbye => hbye
    show ((s.setSession k' _).sessions k).ended = _
    rw [sessions_setSession]
    split
    case isTrue heq => rw [heq]
    case isFalse => rfl
  | free k' =>
    dsimp only at hstep
    split at hstep
    case isFalse => cases hstep
    case isTrue =>
      cases hstep
      refine hover.frame ?_ (sip_setSession s k' { s.sessions k' with freed := true } rfl k)
        fun c _ hbye => hbye
      show ((s.setSession k' _).sessions k).ended = _
      rw [sessions_setSession]
      split
      case isTrue heq => rw [heq]
      case isFalse => rfl

/-- A session that is over ends at its next tick, and no other session does. -/
theorem endsAtNextTick_iff (h : Inv s) (hk : k < s.nextSession) :
    EndsAtNextTick s k ↔ Over s k := by
  constructor
  · intro hends
    by_contra hnot
    obtain ⟨hended, hbye⟩ := not_or.mp hnot
    -- the next tick comes at once, with no timeout and an INVITE that can be sent
    have hlive : (s.sessions k).ended = false := Bool.eq_false_iff.mpr hended
    have htick : step s (.tick k ⟨false, false, true⟩) =
        some { tick s k ⟨false, false, true⟩ with answered := none } := if_pos ⟨hk, hlive⟩
    have hdone := hends s Relation.ReflTransGen.refl _ _ htick
    have hdrive : ∃ d, sessionDriveState ⟨false, false, true⟩ ⟨s.sessions k, s.sipState k⟩ =
        some d := by
      have hinit : ∃ i, sessionInit ⟨false, false, true⟩ ⟨s.sessions k, s.sipState k⟩ = some i := by
        unfold sessionInit
        dsimp only
        repeat' split <;> try exact ⟨_, rfl⟩
      obtain ⟨i, hi⟩ := hinit
      have hconnecting : ∃ e, sessionConnecting ⟨false, false, true⟩ i = some e := by
        unfold sessionConnecting
        split <;> exact ⟨_, rfl⟩
      obtain ⟨e, he⟩ := hconnecting
      refine ⟨sessionEstablished ⟨false, false, true⟩ e, ?_⟩
      rw [sessionDriveState, hi, Option.bind_some, he, Option.map_some]
    obtain ⟨d, hd⟩ := hdrive
    have hkept := (sessionDriveState_keeps hd).2
    have heq : tick s k ⟨false, false, true⟩ = (s.setSip k d.sip).setSession k d.session := by
      unfold tick
      dsimp only
      rw [if_neg hbye, hd]
    have hdone' : ((tick s k ⟨false, false, true⟩).sessions k).ended = true := hdone
    rw [heq, sessions_setSession, if_pos rfl, hkept] at hdone'
    exact hended hdone'
  · intro hover u hrun clock t hstep
    have hu : Inv u ∧ Over u k := by
      refine System.Reaches.invariant (I := fun x => Inv x ∧ Over x k) ?_ hrun ⟨h, hover⟩
      intro x a y hx hguard hxy
      exact ⟨hx.1.step hxy, hx.2.step hx.1 hguard hxy⟩
    unfold SipSession.step at hstep
    dsimp only at hstep
    split at hstep
    case isFalse => cases hstep
    case isTrue hlive =>
      cases hstep
      have hbye : u.sipState k = .bye := by
        cases hu.2 with
        | inl hend =>
          rw [hlive.2] at hend
          cases hend
        | inr hbye => exact hbye
      show ((tick u k clock).sessions k).ended = true
      unfold tick
      dsimp only
      rw [if_pos hbye, sessions_setSession, if_pos rfl]

/-! ## Registrations that are honoured -/

/-- A REGISTER leaves every state registered but `bye`. -/
theorem isRegistered_drive_iff (h : Registers m) (inviteOk : Bool)
    (s : SipState) : (driveState inviteOk m s).isRegistered = true ↔ s ≠ .bye := by
  have hexpires : ¬ m.expires = 0 := Nat.pos_iff_ne_zero.mp h.2
  rw [drive_register h.1]
  cases s <;> simp [hexpires, SipState.isRegistered, SipState.value]

theorem drive_eq_bye_iff (h : Unregisters m) (inviteOk : Bool)
    (s : SipState) : driveState inviteOk m s = .bye ↔ LeadsToBye m s := by
  unfold LeadsToBye
  cases h with
  | inl hregister =>
    obtain ⟨hregister, hexpires⟩ := hregister
    rw [drive_register hregister]
    cases s <;> simp [hexpires, hregister]
  | inr hbye =>
    have hnot : m.isRegister = false := by
      obtain ⟨htype, hmethod⟩ := of_decide_eq_true hbye
      simp [SrsSipMessage.isRegister, hmethod]
    rw [drive_bye hbye]
    cases s <;> simp [hnot]

/-- The session looks at the connection, once the connection is bound to it. -/
def Watched (s : Gb) (c k : ℕ) : Prop := (s.sessions k).sip = some c ∨ Over s k

/-- What the message meets. -/
theorem meets_spec (h : Inv s) (c : ℕ) (m : SrsSipMessage) {s' : Gb}
    (hs' : s' = if (s.conns c).session = none then bindSession s c m else s) :
    ((s'.conns c).session = none → s.meets c m = none) ∧
    ∀ k, (s'.conns c).session = some k → ∃ met, s.meets c m = some met ∧
      met.2 = (s'.conns c).state ∧ (s.watches c met.1 ↔ Watched s' c k) := by
  cases hc : (s.conns c).session with
  | some k =>
    rw [hc, if_neg (Option.some_ne_none k)] at hs'
    subst hs'
    rw [hc]
    refine ⟨fun hnone => absurd hnone (Option.some_ne_none k), fun k' hk' => ?_⟩
    cases hk'
    refine ⟨(some k, (s'.conns c).state), by rw [Gb.meets, hc], rfl, ?_⟩
    unfold Gb.watches Watched Over
    rw [hc]
    constructor
    · rintro (hnone | hsip | hbye | hend)
      · cases hnone
      · exact .inl hsip
      · exact .inr (.inr hbye)
      · exact .inr (.inl hend)
    · rintro (hsip | hend | hbye)
      · exact .inr (.inl hsip)
      · exact .inr (.inr (.inr hend))
      · exact .inr (.inr (.inl hbye))
  | none =>
    rw [hc, if_pos rfl] at hs'
    subst hs'
    cases bindSession_cases (m := m) h hc with
    | inl hskip =>
      rw [hskip.2, hc]
      exact ⟨fun _ => hskip.1, fun k hk => absurd hk.symm (Option.some_ne_none k)⟩
    | inr hbind =>
      obtain ⟨k, s', hinv, -, hconns, hsessions, heq, hmeets⟩ := hbind
      have hc' : (s'.conns c).session = none := by rw [hconns, hc]
      have hconn : (bindTo s' c k).conns c = ⟨s'.sipState k, some k⟩ := by
        rw [conns_bindTo, if_pos rfl, if_neg (hinv.sip_ne hc' k)]
      have hsip : ((bindTo s' c k).sessions k).sip = some c := by
        rw [sessions_bindTo, if_pos rfl]
      have hstate : s'.sipState k = s.sipState k := by
        unfold Gb.sipState
        rw [hsessions, hconns]
      rw [heq, hconn]
      refine ⟨fun hnone => absurd hnone (Option.some_ne_none k), fun k' hk' => ?_⟩
      cases hk'
      cases hmeets with
      | inl hfound => exact ⟨_, hfound, hstate.symm, iff_of_true (.inl hc) (.inl hsip)⟩
      | inr hnew =>
        refine ⟨_, hnew.1, ?_, iff_of_true trivial (.inl hsip)⟩
        show SipState.init = s'.sipState k
        rw [hstate, Gb.sipState, hnew.2]

section Handled

variable {s : Gb} {c k : ℕ} {m : SrsSipMessage} {inviteOk : Bool}

theorem conns_handled (c' : ℕ) : (s.handled c m inviteOk).conns c' =
    if c' = c then { s.conns c with state := driveState inviteOk m (s.conns c).state }
    else s.conns c' :=
  conns_setConn _ _ _ _

/-- With the connection in the state `bye`, a session that looks at it is over. -/
theorem over_handled_iff (hbye : ((s.handled c m inviteOk).conns c).state = .bye) :
    Over (s.handled c m inviteOk) k ↔ Watched s c k := by
  by_cases hsip : (s.sessions k).sip = some c
  · have hsees : (s.handled c m inviteOk).sipState k = .bye :=
      (sipState_of_sip (s.handled c m inviteOk) k hsip).trans hbye
    exact iff_of_true (.inr hsees) (.inl hsip)
  · have hsame : (s.handled c m inviteOk).sipState k = s.sipState k := by
      show (match (s.sessions k).sip with
        | some c' => ((s.handled c m inviteOk).conns c').state
        | none => SipState.init) = s.sipState k
      unfold Gb.sipState
      cases hc' : (s.sessions k).sip with
      | none => rfl
      | some c' =>
        have hne : c' ≠ c := by
          rintro rfl
          exact hsip hc'
        dsimp only
        rw [conns_handled, if_neg hne]
    unfold Watched Over
    rw [hsame]
    constructor
    · exact .inr
    · rintro (h | h)
      · exact absurd h hsip
      · exact h

/-- A handled message is honoured when the state it met and the connection were right for it. -/
theorem honoured_handled_iff (hinv : Inv (s.handled c m inviteOk))
    (hk : (s.conns c).session = some k) :
    Honoured (s.handled c m inviteOk) ↔ (Registers m → (s.conns c).state ≠ .bye) ∧
      (Unregisters m → LeadsToBye m (s.conns c).state ∧ Watched s c k) := by
  have hstate : ((s.handled c m inviteOk).conns c).state =
      driveState inviteOk m (s.conns c).state := by
    rw [conns_handled, if_pos rfl]
  have hsession : ((s.handled c m inviteOk).conns c).session = some k := by
    rw [conns_handled, if_pos rfl]
    exact hk
  have hends : EndsAtNextTick (s.handled c m inviteOk) k ↔ Over (s.handled c m inviteOk) k :=
    endsAtNextTick_iff hinv (hinv.number c k hsession)
  constructor
  · intro hhonoured
    obtain ⟨hregisters, hunregisters⟩ := hhonoured c m rfl
    refine ⟨fun hm => ?_, fun hm => ?_⟩
    · have hregistered := hregisters hm
      rw [hstate] at hregistered
      exact (isRegistered_drive_iff hm inviteOk _).mp hregistered
    · obtain ⟨hbye, hover⟩ := hunregisters hm
      refine ⟨?_, (over_handled_iff hbye).mp (hends.mp (hover k hsession))⟩
      rw [hstate] at hbye
      exact (drive_eq_bye_iff hm inviteOk _).mp hbye
  · rintro ⟨hregisters, hunregisters⟩ c' m' hanswered
    cases hanswered
    refine ⟨fun hm => ?_, fun hm => ?_⟩
    · rw [hstate]
      exact (isRegistered_drive_iff hm inviteOk _).mpr (hregisters hm)
    · obtain ⟨hleads, hwatched⟩ := hunregisters hm
      have hbye : ((s.handled c m inviteOk).conns c).state = .bye := by
        rw [hstate]
        exact (drive_eq_bye_iff hm inviteOk _).mpr hleads
      refine ⟨hbye, fun k' hk' => ?_⟩
      rw [hsession] at hk'
      cases hk'
      exact hends.mpr ((over_handled_iff hbye).mpr hwatched)

end Handled

/-- What a message asks for is done exactly when the message is in time. -/
theorem honoured_message_iff (h : Inv s) (c : ℕ) (m : SrsSipMessage) (inviteOk : Bool) :
    Honoured (onSipMessage s c m inviteOk) ↔ InTime s (.message c m inviteOk) := by
  obtain ⟨s', hs', hcases⟩ := onSipMessage_cases s c m inviteOk
  have hmeets := meets_spec h c m hs'
  cases hcases with
  | inl hdrop =>
    rw [hdrop.2]
    refine iff_of_true ?_ ?_
    · intro c' m' hnone
      cases hnone
    · intro met hmet
      rw [hmeets.1 hdrop.1] at hmet
      cases hmet
  | inr hhandled =>
    obtain ⟨k, hk, heq⟩ := hhandled
    obtain ⟨met, hmet, hstate, hwatches⟩ := hmeets.2 k hk
    have hinv : Inv (s'.handled c m inviteOk) := heq ▸ h.onSipMessage c m inviteOk
    rw [heq, honoured_handled_iff hinv hk]
    show _ ↔ ∀ met' ∈ s.meets c m, (Registers m → met'.2 ≠ .bye) ∧
      (Unregisters m → LeadsToBye m met'.2 ∧ s.watches c met'.1)
    rw [hmet, ← hstate]
    constructor
    · intro hright met' hmet'
      cases hmet'
      exact ⟨hright.1, fun hm => ⟨(hright.2 hm).1, hwatches.mpr (hright.2 hm).2⟩⟩
    · intro hintime
      obtain ⟨hregisters, hunregisters⟩ := hintime met rfl
      exact ⟨hregisters, fun hm => ⟨(hunregisters hm).1, hwatches.mp (hunregisters hm).2⟩⟩

theorem inv_of_run (hrun : System.Reaches step System.anyStep .init s) : Inv s :=
  hrun.invariant (fun _ _ _ h _ hstep => h.step hstep) inv_init

/-- In a run whose messages are all in time, every message that was handled is honoured; and in
any run a message is honoured exactly when it is in time. -/
theorem honoured_of_run {s : Gb} (hrun : System.Reaches step System.anyStep .init s) :
    (System.Reaches step InTime .init s → Honoured s) ∧
    ∀ c m inviteOk t, step s (.message c m inviteOk) = some t →
      (Honoured t ↔ InTime s (.message c m inviteOk)) := by
  constructor
  · intro htimely
    have hboth : Inv s ∧ Honoured s := by
      refine System.Reaches.invariant (I := fun x => Inv x ∧ Honoured x) ?_ htimely
        ⟨inv_init, fun c m hanswered => by cases hanswered⟩
      intro x a y hx hguard hstep
      refine ⟨hx.1.step hstep, ?_⟩
      unfold SipSession.step at hstep
      cases a with
      | message c m inviteOk =>
        dsimp only at hstep
        split at hstep
        · cases hstep
          exact (honoured_message_iff hx.1 c m inviteOk).mpr hguard
        · cases hstep
      | tick k clock =>
        dsimp only at hstep
        split at hstep
        · cases hstep
          intro c m hanswered
          cases hanswered
        · cases hstep
      | media k connected =>
        cases hstep
        intro c m hanswered
        cases hanswered
      | free k =>
        dsimp only at hstep
        split at hstep
        · cases hstep
          intro c m hanswered
          cases hanswered
        · cases hstep
    exact hboth.2
  · intro c m inviteOk t hstep
    have hinv : Inv s := inv_of_run hrun
    unfold SipSession.step at hstep
    dsimp only at hstep
    split at hstep
    · cases hstep
      exact honoured_message_iff hinv c m inviteOk
    · cases hstep

/-! ## Runs of a device -/

def registerMsg (expires : ℕ) : SrsSipMessage :=
  { type := .request, method := .register, expires := expires, deviceId := "34" }

def inviteOkMsg : SrsSipMessage :=
  { type := .response, status := 200, cseqMethod := "INVITE", deviceId := "34" }

def byeMsg : SrsSipMessage := { type := .request, method := .bye, deviceId := "34" }

def quietClock : Clock := ⟨false, false, true⟩

/-- A device registers, is invited, registers again on a second connection, and says goodbye. -/
def orderlyRun : List Action :=
  [.message 0 (registerMsg 3600) true, .tick 0 quietClock, .message 0 inviteOkMsg true,
    .message 1 (registerMsg 3600) true, .message 1 byeMsg true]

theorem orderlyRun_honoured : ∃ s : Gb, (s.conns 1).state = .bye ∧ EndsAtNextTick s 0 := by
  obtain ⟨s, hrun, -, hobs⟩ := System.reaches_of_observe step InTime .init orderlyRun
    (fun s => (s.answered, (s.conns 1).session, decide (Unregisters byeMsg)))
    (b := (some (1, byeMsg), some 0, true)) rfl
  obtain ⟨hanswered, hsession, hbye⟩ : s.answered = some (1, byeMsg) ∧
      (s.conns 1).session = some 0 ∧ decide (Unregisters byeMsg) = true := by
    simpa using hobs
  have hany : System.Reaches step System.anyStep .init s := hrun.mono fun _ _ _ => trivial
  have hdone := (((honoured_of_run hany).1 hrun) 1 byeMsg hanswered).2 (of_decide_eq_true hbye)
  exact ⟨s, hdone.1, hdone.2 0 hsession⟩

/-- A device that was just invited unregisters. -/
def hastyRun : List Action :=
  [.message 0 (registerMsg 3600) true, .tick 0 quietClock, .message 0 (registerMsg 0) true]

/-- The connection stays in the state `inviting`, and the session goes on. -/
theorem hastyRun_not_honoured : ∃ s, System.Reaches step System.anyStep .init s ∧
    s.answered = some (0, registerMsg 0) ∧ (s.conns 0).state = .inviting ∧ ¬ Honoured s := by
  obtain ⟨s, hrun, -, hobs⟩ := System.reaches_of_observe step System.anyStep .init hastyRun
    (fun s => (s.answered, (s.conns 0).state, decide (Unregisters (registerMsg 0))))
    (b := (some (0, registerMsg 0), .inviting, true)) rfl
  obtain ⟨hanswered, hstate, hunregisters⟩ : s.answered = some (0, registerMsg 0) ∧
      (s.conns 0).state = .inviting ∧ decide (Unregisters (registerMsg 0)) = true := by
    simpa using hobs
  refine ⟨s, hrun, hanswered, hstate, fun hhonoured => ?_⟩
  have hbye := ((hhonoured 0 _ hanswered).2 (of_decide_eq_true hunregisters)).1
  rw [hstate] at hbye
  cases hbye

end SrsChatRoom.App.SipSession
