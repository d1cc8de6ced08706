import SrsChatRoom.Kernel.TsDemux

/-!
# Hostile transport streams

The calls of `SrsTsContext::decode` on one context, with any buffers. A call ends: a packet that is
decoded once more has cost a message, and any other takes bytes. It violates no assertion as long
as no packet goes by a length behind the end of the buffer, in one of the three places where the
reader does not look. What the handler is given is put together of packets whose counters follow
one another.
-/

namespace SrsChatRoom.Kernel.Ts

open SrsChatRoom.Prog (refuse optional zoom modify)

/-! ## One packet -/

/-- The packet at the head goes by a length behind the end of the buffer. -/
inductive PacketOverruns (s : TsDemuxer) : Prop
  | adaptationField : uintAt s.stream.bytes s.stream.pos 1 = 0x47 →
      hasAdaptationField (headerAt s.stream.bytes s.stream.pos).control = true →
      AfOverruns s.stream.bytes (headerAt s.stream.bytes s.stream.pos).control
        (s.stream.pos + 4) → PacketOverruns s
  | pesHeader {channel : SrsTsChannel} : uintAt s.stream.bytes s.stream.pos 1 = 0x47 →
      hasPayload (headerAt s.stream.bytes s.stream.pos).control = true →
      (hasAdaptationField (headerAt s.stream.bytes s.stream.pos).control = true →
        AfRead s.stream.bytes (headerAt s.stream.bytes s.stream.pos).control
          (s.stream.pos + 4)) →
      (headerAt s.stream.bytes s.stream.pos).pid ≠ 0 →
      s.pids.get? (headerAt s.stream.bytes s.stream.pos).pid = some channel →
      channel.apply = .video ∨ channel.apply = .audio →
      (∀ m, channel.msg = some m → m.fresh = true) →
      (headerAt s.stream.bytes s.stream.pos).unitStart = true →
      PesOverruns s.stream.bytes (payloadPos s.stream.bytes s.stream.pos) → PacketOverruns s

/-- What a packet may do. -/
inductive PacketStep (s : TsDemuxer) : Option (ℕ × SrsTsMessage) → TsDemuxer → Prop
  | passed {t : TsDemuxer} : Ahead s t → s.stream.pos + 4 ≤ t.stream.pos → PacketStep s none t
  | pes {result : Option SrsTsMessage} {t : TsDemuxer} :
      uintAt s.stream.bytes s.stream.pos 1 = 0x47 →
      hasPayload (headerAt s.stream.bytes s.stream.pos).control = true →
      s.stream.pos + 4 ≤ s.stream.bytes.length →
      PesStep s (payloadPos s.stream.bytes s.stream.pos)
        (headerAt s.stream.bytes s.stream.pos) result t →
      PacketStep s (result.map fun msg => ((headerAt s.stream.bytes s.stream.pos).pid, msg)) t

section Packet

variable {s : TsDemuxer}

/-- The payload, behind the header and the adaptation field. -/
theorem payloadDecode_ends {q : ℕ} {header : TsHeader} (hq : q ≤ s.stream.bytes.length)
    (hnear : s.stream.pos + 4 ≤ q) (hfar : q ≤ s.stream.pos + 188) :
    (payloadDecode s.stream.pos header).Ends (s.moveTo q)
      (fun result t => result = none ∧ Ahead s t ∧ s.stream.pos + 4 ≤ t.stream.pos ∨
        PesStep s q header result t) (NoneNew s)
      (∃ channel, header.pid ≠ 0 ∧ s.pids.get? header.pid = some channel ∧
        (channel.apply = .video ∨ channel.apply = .audio) ∧
        (∀ m, channel.msg = some m → m.fresh = true) ∧ header.unitStart = true ∧
        PesOverruns s.stream.bytes q) := by
  have hmove : Ahead s (s.moveTo q) := ahead_moveTo (by omega) hq
  have hpassed : ∀ {t : TsDemuxer}, Ahead (s.moveTo q) t →
      Ahead s t ∧ s.stream.pos + 4 ≤ t.stream.pos := fun ht =>
    ⟨hmove.trans ht, hnear.trans ht.forward⟩
  apply Prog.Ends.bind_read
  apply Prog.Ends.ite
  · intro _
    apply Prog.Ends.bind
    refine (psiDecode_ends hq fun sectionLength t ht =>
      patDecode_ends header.pid sectionLength ht.inside).mono ?_ ?_ (fun hf => hf)
    · rintro _ t ht
      exact Prog.Ends.pure (Or.inl ⟨rfl, hpassed ht⟩)
    · intro t ht
      exact (hmove.toSameMessages.trans ht).noneNew
  intro hpid
  apply Prog.Ends.ite
  · intro _
    apply Prog.Ends.bind
    refine (psiDecode_ends hq fun sectionLength t ht =>
      pmtDecode_ends header.pid sectionLength ht.inside).mono ?_ ?_ (fun hf => hf)
    · rintro _ t ht
      exact Prog.Ends.pure (Or.inl ⟨rfl, hpassed ht⟩)
    · intro t ht
      exact (hmove.toSameMessages.trans ht).noneNew
  intro _
  apply Prog.Ends.ite
  · intro happly
    cases hchannel : s.pids.get? header.pid with
    | none =>
      have hnone : ((s.moveTo q).pids.get? header.pid).map SrsTsChannel.apply = none := by
        show (s.pids.get? header.pid).map SrsTsChannel.apply = none
        rw [hchannel]
        rfl
      rw [hnone] at happly
      rcases happly with h | h <;> cases h
    | some channel =>
      have hsome : ((s.moveTo q).pids.get? header.pid).map SrsTsChannel.apply =
          some channel.apply := by
        show (s.pids.get? header.pid).map SrsTsChannel.apply = some channel.apply
        rw [hchannel]
        rfl
      have hmessage : s.pids.message header.pid = channel.msg := by
        unfold Pids.message
        rw [hchannel]
        rfl
      rw [hsome] at happly
      refine (pesDecode_ends hchannel hq).mono (fun _ _ h => Or.inr h) (fun _ he => he) ?_
      rintro ⟨hfresh, hunit, hover⟩
      refine ⟨channel, hpid, rfl, ?_, fun m hm => hfresh m (hmessage.trans hm), hunit, hover⟩
      exact happly.imp Option.some.inj Option.some.inj
  · intro _
    apply Prog.Ends.bind
    refine (onStream_ends (s := s.moveTo q) (Q := fun _ r => q ≤ r) ?_ hq).mono ?_ ?_
      (fun hf => hf)
    · apply endsAt_bind_pos
      apply EndsAt.bind
      apply endsAt_left
      apply endsAt_skip
      · intro r hr _
        show q ≤ r
        have hr : (r : ℤ) = q + min (s.stream.bytes.length - q : ℤ) (188 - (q - s.stream.pos)) := hr
        omega
      · intro hout
        have hout : (q : ℤ) + min (s.stream.bytes.length - q : ℤ) (188 - (q - s.stream.pos)) < 0 ∨
          (s.stream.bytes.length : ℤ) <
            q + min (s.stream.bytes.length - q : ℤ) (188 - (q - s.stream.pos)) := hout
        omega
    · rintro _ t ⟨r, hr, rfl, hle⟩
      exact Prog.Ends.pure (Or.inl ⟨rfl, hpassed (ahead_moveTo hle hr)⟩)
    · rintro t ⟨r, _, rfl⟩
      exact (sameMessages_moveTo s r).noneNew

/-- `SrsTsPacket::decode` -/
theorem packet_ends (hp : s.stream.pos ≤ s.stream.bytes.length) :
    SrsTsPacket.decode.Ends s (PacketStep s) (NoneNew s) (PacketOverruns s) := by
  have hback : ∀ {t : TsDemuxer}, (∃ q ≤ s.stream.bytes.length, t = s.moveTo q) →
      NoneNew s t := by
    rintro t ⟨q, -, rfl⟩
    exact (sameMessages_moveTo s q).noneNew
  apply Prog.Ends.bind
  refine (onStream_ends (endsAt_pos (Q := fun a q => a = s.stream.pos ∧ q = s.stream.pos)
    ⟨rfl, rfl⟩) hp).mono ?_ (fun _ he => hback he) (fun hf => hf)
  rintro start t ⟨q, -, rfl, rfl, rfl⟩
  show Prog.Ends _ s _ _ _
  apply Prog.Ends.bind
  refine (onStream_ends packetHeader_ends hp).mono ?_ (fun _ he => hback he) (fun hf => hf)
  rintro header t ⟨q, hfour, rfl, rfl, rfl, hsync⟩
  -- the adaptation field
  apply Prog.Ends.bind
  have hfield : EndsAt (optional
      (hasAdaptationField (headerAt s.stream.bytes s.stream.pos).control)
      (Prog.wrap (TsError.wrap "ts: demux af field")
        (SrsTsAdaptationField.decode (headerAt s.stream.bytes s.stream.pos).control)))
      s.stream.bytes (s.stream.pos + 4)
      (fun _ q => q = payloadPos s.stream.bytes s.stream.pos ∧
        (hasAdaptationField (headerAt s.stream.bytes s.stream.pos).control = true →
          AfRead s.stream.bytes (headerAt s.stream.bytes s.stream.pos).control
            (s.stream.pos + 4))) (PacketOverruns s) := by
    apply endsAt_optional
    · intro hhas
      refine ((adaptationField_ends _).wrap _).mono ?_ ?_
      · rintro _ q _ ⟨rfl, hread, -⟩
        refine ⟨?_, fun _ => hread⟩
        rw [payloadPos, if_pos hhas]
        omega
      · exact PacketOverruns.adaptationField hsync hhas
    · intro hhas
      refine ⟨?_, fun h => ?_⟩
      · rw [payloadPos, if_neg (Bool.eq_false_iff.mp hhas)]
      · rw [hhas] at h
        cases h
  refine (onStream_ends (s := s.moveTo (s.stream.pos + 4)) hfield hfour).mono ?_
    (fun _ he => hback he) (fun hf => hf)
  rintro _ t ⟨q, hq, rfl, rfl, hread⟩
  show Prog.Ends _ (s.moveTo (payloadPos s.stream.bytes s.stream.pos)) _ _ _
  have hnear := add_four_le_payloadPos s.stream.bytes s.stream.pos
  apply Prog.Ends.ite
  · intro hpayload
    have hfar : payloadPos s.stream.bytes s.stream.pos ≤ s.stream.pos + 188 := by
      unfold payloadPos
      split
      · next hhas =>
        have hthree : (headerAt s.stream.bytes s.stream.pos).control = 3 := by
          have h1 := of_decide_eq_true hhas
          have h2 := of_decide_eq_true hpayload
          omega
        have hle := (hread hhas).both hthree
        omega
      · omega
    apply Prog.Ends.bind
    refine (Prog.Ends.wrap (payloadDecode_ends (s := s) hq hnear hfar)).mono ?_ (fun _ he => he) ?_
    · rintro result t (⟨rfl, hahead, hle⟩ | hstep)
      · exact Prog.Ends.pure (PacketStep.passed hahead hle)
      · exact Prog.Ends.pure (PacketStep.pes hsync hpayload hfour hstep)
    · rintro ⟨channel, hpid, hchannel, happly, hfresh, hunit, hover⟩
      exact PacketOverruns.pesHeader hsync hpayload hread hpid hchannel happly hfresh hunit hover
  · intro _
    exact Prog.Ends.pure (PacketStep.passed (ahead_moveTo (by omega) hq) hnear)

end Packet

/-! ## Messages and the packets they come from -/

/-- At `p` there is a packet with a payload of this pid, with these bytes for a message. -/
structure ChunkAt (bytes : List UInt8) (p pid : ℕ) (unitStart : Bool) (counter : ℕ)
    (data : List UInt8) : Prop where
  inside : p + 4 ≤ bytes.length
  sync : uintAt bytes p 1 = 0x47
  payload : hasPayload (headerAt bytes p).control = true
  pid : (headerAt bytes p).pid = pid
  unitStart : (headerAt bytes p).unitStart = unitStart
  counter : (headerAt bytes p).continuityCounter = counter
  data : data <+: bytes.drop (dataPos bytes p)

/-- The payload is put together of packets of the pid in the buffers of the calls. The first starts
a unit, and no other; each is in a later call than the one before, and has the next counter. The
last is in the call `call` and has this counter. -/
inductive Assembles (calls : List (List UInt8)) (pid : ℕ) : ℕ → ℕ → List UInt8 → Prop
  | start {call p counter : ℕ} {bytes data : List UInt8} : calls[call]? = some bytes →
      ChunkAt bytes p pid true counter data → Assembles calls pid call counter data
  | next {call call' p counter counter' : ℕ} {bytes payload data : List UInt8} :
      Assembles calls pid call counter payload → call < call' → calls[call']? = some bytes →
      counter' = (counter + 1) % 16 → ChunkAt bytes p pid false counter' data →
      Assembles calls pid call' counter' (payload ++ data)

variable {calls : List (List UInt8)}

/-- Later calls do not matter. -/
theorem Assembles.append {pid call counter : ℕ}
    {payload : List UInt8} (h : Assembles calls pid call counter payload)
    (more : List (List UInt8)) : Assembles (calls ++ more) pid call counter payload := by
  have hget : ∀ {i : ℕ} {bytes : List UInt8}, calls[i]? = some bytes →
      (calls ++ more)[i]? = some bytes := by
    intro i bytes hi
    obtain ⟨hlt, -⟩ := List.getElem?_eq_some_iff.mp hi
    rw [List.getElem?_append_left hlt, hi]
  induction h with
  | start hcall hchunk => exact Assembles.start (hget hcall) hchunk
  | next _ hlt hcall hcounter hchunk ih => exact Assembles.next ih hlt (hget hcall) hcounter hchunk

/-- What the handler has been given is put together of packets. -/
def Delivers (calls : List (List UInt8)) (delivered : List (ℕ × SrsTsMessage)) : Prop :=
  ∀ d ∈ delivered, ∃ call counter, Assembles calls d.1 call counter d.2.payload

/-- The messages that are kept, too, up to a packet before the call `bound`. -/
def Keeps (calls : List (List UInt8)) (pids : Pids) (bound : ℕ) : Prop :=
  ∀ pid m, pids.message pid = some m → m.fresh = false →
    ∃ call < bound, Assembles calls pid call m.continuityCounter m.payload

/-- The state in the call with this buffer: while bytes are left, no message has a packet of it. -/
structure InCall (calls : List (List UInt8)) (bytes : List UInt8) (s : TsDemuxer) : Prop where
  memory : s.stream.bytes = bytes
  inside : s.stream.pos ≤ bytes.length
  delivers : Delivers (calls ++ [bytes]) s.delivered
  keeps : Keeps (calls ++ [bytes]) s.pids (calls.length + 1)
  keepsOld : s.stream.pos < bytes.length → Keeps (calls ++ [bytes]) s.pids calls.length

/-- The state after the call. -/
structure AfterCall (calls : List (List UInt8)) (s : TsDemuxer) : Prop where
  delivers : Delivers calls s.delivered
  keeps : Keeps calls s.pids calls.length

/-- The state with the messages that a packet gives to the handler. -/
def TsDemuxer.deliver (s : TsDemuxer) (result : Option (ℕ × SrsTsMessage)) : TsDemuxer :=
  { s with delivered := s.delivered ++ result.toList }

section Call

variable {calls : List (List UInt8)} {bytes : List UInt8} {s t : TsDemuxer}

variable {bound : ℕ}

theorem Keeps.mono {bound' : ℕ} {pids : Pids} (h : Keeps calls pids bound)
    (hle : bound ≤ bound') : Keeps calls pids bound' := by
  intro pid m hm hold
  obtain ⟨call, hlt, hcall⟩ := h pid m hm hold
  exact ⟨call, hlt.trans_le hle, hcall⟩

theorem Keeps.noneNew (h : Keeps calls s.pids bound) (hnew : NoneNew s t) :
    Keeps calls t.pids bound :=
  fun pid m hm hold => h pid m (hnew.message pid m hm hold) hold

theorem Delivers.append {delivered : List (ℕ × SrsTsMessage)} (h : Delivers calls delivered)
    {pid call counter : ℕ} {msg : SrsTsMessage}
    (hmsg : Assembles calls pid call counter msg.payload) :
    Delivers calls (delivered ++ [(pid, msg)]) := by
  intro d hd
  rcases List.mem_append.mp hd with hold | hnew
  · exact h d hold
  · cases List.mem_singleton.mp hnew
    exact ⟨call, counter, hmsg⟩

/-- A call that ends leaves the state for the next one. -/
theorem InCall.after (h : InCall calls bytes s) : AfterCall (calls ++ [bytes]) s where
  delivers := h.delivers
  keeps := by
    rw [List.length_append]
    exact h.keeps

/-- An error leaves the messages as they were, or none of them. -/
theorem InCall.after_noneNew (h : InCall calls bytes s) (hnew : NoneNew s t) :
    AfterCall (calls ++ [bytes]) t where
  delivers := by
    rw [hnew.delivered]
    exact h.delivers
  keeps := h.after.keeps.noneNew hnew

/-- The message with the data of the packet at the head. -/
theorem InCall.assembles (h : InCall calls bytes s) (hlt : s.stream.pos < bytes.length)
    (hsync : uintAt bytes s.stream.pos 1 = 0x47)
    (hpayload : hasPayload (headerAt bytes s.stream.pos).control = true)
    (hfour : s.stream.pos + 4 ≤ bytes.length) {m : SrsTsMessage} {data : List UInt8}
    (hm : (headerAt bytes s.stream.pos).unitStart = true ∧ m.payload = [] ∨
      (headerAt bytes s.stream.pos).unitStart = false ∧
        s.pids.message (headerAt bytes s.stream.pos).pid = some m ∧ m.fresh = false ∧
          isNext m (headerAt bytes s.stream.pos).continuityCounter = true)
    (hdata : data <+: bytes.drop (dataPos bytes s.stream.pos)) :
    Assembles (calls ++ [bytes]) (headerAt bytes s.stream.pos).pid calls.length
      (headerAt bytes s.stream.pos).continuityCounter (m.payload ++ data) := by
  have hcall : (calls ++ [bytes])[calls.length]? = some bytes := by
    rw [List.getElem?_append_right (le_refl _), Nat.sub_self]
    rfl
  rcases hm with ⟨hunit, hempty⟩ | ⟨hunit, hkept, hold, hnext⟩
  · rw [hempty, List.nil_append]
    exact Assembles.start hcall ⟨hfour, hsync, hpayload, rfl, hunit, rfl, hdata⟩
  · obtain ⟨call, hbefore, hprevious⟩ := h.keepsOld hlt _ m hkept hold
    exact Assembles.next hprevious hbefore hcall (of_decide_eq_true hnext).symm
      ⟨hfour, hsync, hpayload, rfl, hunit, rfl, hdata⟩

/-- The message of one pid is replaced. -/
theorem Keeps.set {pid : ℕ} {msg : Option SrsTsMessage}
    (h : Keeps calls s.pids bound) (hset : SetMessage s t pid msg)
    (hmsg : ∀ m, msg = some m → m.fresh = false →
      ∃ call < bound, Assembles calls pid call m.continuityCounter m.payload) :
    Keeps calls t.pids bound := by
  intro other m hm hold
  rw [hset other] at hm
  by_cases ho : pid = other
  · rw [if_pos ho] at hm
    exact ho ▸ hmsg m hm hold
  · rw [if_neg ho] at hm
    exact h other m hm hold

/-- One packet. -/
theorem InCall.step {result : Option (ℕ × SrsTsMessage)} (h : InCall calls bytes s)
    (hlt : s.stream.pos < bytes.length) (hstep : PacketStep s result t) :
    InCall calls bytes (t.deliver result) := by
  have hold := h.keepsOld hlt
  obtain rfl := h.memory
  cases hstep with
  | passed hahead _ =>
    have hkeeps := hold.noneNew hahead.toSameMessages.noneNew
    have hdeliver : t.deliver none = t := by
      unfold TsDemuxer.deliver
      rw [Option.toList_none, List.append_nil]
    rw [hdeliver]
    exact {
      memory := hahead.bytes
      inside := hahead.bytes ▸ hahead.inside
      delivers := by
        rw [hahead.delivered]
        exact h.delivers
      keeps := hkeeps.mono (Nat.le_succ _)
      keepsOld := fun _ => hkeeps }
  | @pes msg _ hsync hpayload hfour hpes =>
    cases hpes with
    | skipped hnew hstream =>
      have hkeeps := hold.noneNew hnew
      exact {
        memory := by
          show t.stream.bytes = _
          rw [hstream]
        inside := by
          show t.stream.pos ≤ _
          rw [hstream]
        delivers := by
          show Delivers _ (t.delivered ++ [])
          rw [List.append_nil, hnew.delivered]
          exact h.delivers
        keeps := hkeeps.mono (Nat.le_succ _)
        keepsOld := fun _ => hkeeps }
    | @reset _ m _ hm hmold hresult hdelivered hset hstream =>
      have hkeeps : Keeps (calls ++ [s.stream.bytes]) t.pids calls.length :=
        hold.set hset fun m hm => by cases hm
      exact {
        memory := by
          show t.stream.bytes = _
          rw [hstream]
        inside := by
          show t.stream.pos ≤ _
          rw [hstream]
          exact Nat.zero_le _
        delivers := by
          obtain ⟨call, -, hcall⟩ := hold _ m hm hmold
          rcases hresult with rfl | rfl
          · show Delivers _ (t.delivered ++ [])
            rw [List.append_nil, hdelivered]
            exact h.delivers
          · show Delivers _ (t.delivered ++ [_])
            rw [hdelivered]
            exact h.delivers.append hcall
        keeps := hkeeps.mono (Nat.le_succ _)
        keepsOld := fun _ => hkeeps }
    | @took _ m _ hm htook =>
      obtain ⟨more, data, hcounter, hdata, hmore, hresult⟩ := htook.result
      have hassembles := h.assembles hlt hsync hpayload hfour hm hdata
      rw [← show more.payload = m.payload ++ data from hmore] at hassembles
      rcases hresult with ⟨rfl, hset, hend⟩ | ⟨rfl, hset⟩
      · exact {
          memory := htook.bytes
          inside := htook.inside
          delivers := by
            show Delivers _ (t.delivered ++ [])
            rw [List.append_nil, htook.delivered]
            exact h.delivers
          keeps := (hold.mono (Nat.le_succ _)).set hset fun m hm _ => by
            cases hm
            refine ⟨calls.length, Nat.lt_succ_self _, ?_⟩
            rw [hcounter]
            exact hassembles
          keepsOld := fun hmore => by
            have hmore : t.stream.pos < s.stream.bytes.length := hmore
            omega }
      · have hkeeps : Keeps (calls ++ [s.stream.bytes]) t.pids calls.length :=
          hold.set hset fun m hm => by cases hm
        exact {
          memory := htook.bytes
          inside := htook.inside
          delivers := by
            show Delivers _ (t.delivered ++ [_])
            rw [htook.delivered]
            exact h.delivers.append hassembles
          keeps := hkeeps.mono (Nat.le_succ _)
          keepsOld := fun _ => hkeeps }

end Call

/-! ## Calls end -/

/-- The pids that have a message with packets. -/
def unfinished (pids : Pids) : Finset ℕ :=
  pids.keys.toFinset.filter fun pid => (pids.message pid).map SrsTsMessage.fresh = some false

theorem mem_unfinished {pids : Pids} {pid : ℕ} :
    pid ∈ unfinished pids ↔ ∃ m, pids.message pid = some m ∧ m.fresh = false := by
  unfold unfinished
  rw [Finset.mem_filter, Option.map_eq_some_iff]
  constructor
  · rintro ⟨-, h⟩
    exact h
  · rintro ⟨m, hm, hold⟩
    refine ⟨?_, m, hm, hold⟩
    rw [List.mem_toFinset, Dict.mem_keys_iff]
    obtain ⟨channel, hchannel, -⟩ := Option.bind_eq_some_iff.mp hm
    exact ⟨channel, hchannel⟩

/-- A bound on the turns of the loop that are left. -/
def TsDemuxer.turns (s : TsDemuxer) : ℕ :=
  if s.stream.empty then 0
  else (unfinished s.pids).card * (s.stream.bytes.length + 1) +
    (s.stream.bytes.length - s.stream.pos) + 1

variable {s : TsDemuxer}

theorem unfinished_subset {t : TsDemuxer} (h : NoneNew s t) :
    unfinished t.pids ⊆ unfinished s.pids := by
  intro pid hpid
  obtain ⟨m, hm, hold⟩ := mem_unfinished.mp hpid
  exact mem_unfinished.mpr ⟨m, h.message pid m hm hold, hold⟩

section Turns

variable {s t : TsDemuxer}

theorem turns_of_empty (h : s.stream.bytes.length ≤ s.stream.pos) : s.turns = 0 :=
  if_pos (decide_eq_true h)

theorem turns_of_not_empty (h : s.stream.pos < s.stream.bytes.length) :
    s.turns = (unfinished s.pids).card * (s.stream.bytes.length + 1) +
      (s.stream.bytes.length - s.stream.pos) + 1 :=
  if_neg fun he => absurd (of_decide_eq_true he) (not_le.mpr h)

/-- Going on with no more messages than before. -/
theorem turns_lt_of_forward (hlt : s.stream.pos < s.stream.bytes.length)
    (hbytes : t.stream.bytes = s.stream.bytes) (hpos : s.stream.pos < t.stream.pos)
    (hsubset : unfinished t.pids ⊆ unfinished s.pids) : t.turns < s.turns := by
  rw [turns_of_not_empty hlt]
  by_cases hempty : t.stream.bytes.length ≤ t.stream.pos
  · rw [turns_of_empty hempty]
    omega
  · rw [turns_of_not_empty (not_le.mp hempty), hbytes]
    have hcard := Nat.mul_le_mul_right (s.stream.bytes.length + 1) (Finset.card_le_card hsubset)
    omega

/-- Going back to the front with a message less. -/
theorem turns_lt_of_reset (hlt : s.stream.pos < s.stream.bytes.length)
    (hbytes : t.stream.bytes = s.stream.bytes)
    (hsubset : unfinished t.pids ⊂ unfinished s.pids) : t.turns < s.turns := by
  rw [turns_of_not_empty hlt]
  by_cases hempty : t.stream.bytes.length ≤ t.stream.pos
  · rw [turns_of_empty hempty]
    omega
  · rw [turns_of_not_empty (not_le.mp hempty), hbytes]
    have hcard := Nat.mul_le_mul_right (s.stream.bytes.length + 1)
      (Nat.succ_le_of_lt (Finset.card_lt_card hsubset))
    rw [Nat.succ_mul] at hcard
    omega

theorem SetMessage.unfinished_subset {pid : ℕ} (h : SetMessage s t pid none) :
    unfinished t.pids ⊆ unfinished s.pids := by
  intro other hother
  obtain ⟨m, hm, hold⟩ := mem_unfinished.mp hother
  rw [h other] at hm
  by_cases ho : pid = other
  · rw [if_pos ho] at hm
    cases hm
  · rw [if_neg ho] at hm
    exact mem_unfinished.mpr ⟨m, hm, hold⟩

/-- Each packet leaves fewer turns. -/
theorem PacketStep.turns_lt {result : Option (ℕ × SrsTsMessage)}
    (hlt : s.stream.pos < s.stream.bytes.length) (hstep : PacketStep s result t) :
    (t.deliver result).turns < s.turns := by
  show t.turns < s.turns
  cases hstep with
  | passed hahead hfour =>
    exact turns_lt_of_forward hlt hahead.bytes (by omega)
      (unfinished_subset hahead.toSameMessages.noneNew)
  | pes _ _ _ hpes =>
    cases hpes with
    | skipped _ hstream =>
      rw [turns_of_empty (by rw [hstream]), turns_of_not_empty hlt]
      omega
    | reset hm hold _ _ hset hstream =>
      refine turns_lt_of_reset hlt (by rw [hstream]) ⟨hset.unfinished_subset, fun hsub => ?_⟩
      have hgone := mem_unfinished.mp (hsub (mem_unfinished.mpr ⟨_, hm, hold⟩))
      obtain ⟨m', hm', -⟩ := hgone
      rw [hset, if_pos rfl] at hm'
      cases hm'
    | took _ htook =>
      obtain ⟨more, data, -, -, -, ⟨-, -, hend⟩ | ⟨-, hset⟩⟩ := htook.result
      · rw [turns_of_empty (by rw [hend, htook.bytes]), turns_of_not_empty hlt]
        omega
      · have hnear := add_four_le_payloadPos s.stream.bytes s.stream.pos
        have hforward := htook.forward
        exact turns_lt_of_forward hlt htook.bytes (by omega) hset.unfinished_subset

end Turns

/-! ## Calls -/

/-- No packet that the loop comes to in its next `n` turns goes by a length behind the end of the
buffer. -/
def PacketsFit (handler : TsHandler) : ℕ → TsDemuxer → Prop
  | 0, _ => True
  | n + 1, s => s.stream.empty = true ∨
    ¬ PacketOverruns s ∧ ∀ t, decodeTurn handler s = .ok () t → PacketsFit handler n t

theorem decodeTurn_ends (handler : TsHandler) (hp : s.stream.pos ≤ s.stream.bytes.length) :
    (decodeTurn handler).Ends s
      (fun _ t => ∃ result u, PacketStep s result u ∧ t = u.deliver result)
      (fun t => NoneNew s t ∨ ∃ result u, PacketStep s result u ∧ t = u.deliver result)
      (PacketOverruns s) := by
  apply Prog.Ends.bind
  refine (Prog.Ends.wrap (packet_ends hp)).mono ?_ (fun _ he => Or.inl he) (fun hf => hf)
  intro result u hstep
  cases result with
  | none =>
    have hdeliver : u.deliver none = u := by
      unfold TsDemuxer.deliver
      rw [Option.toList_none, List.append_nil]
    exact Prog.Ends.pure ⟨none, u, hstep, hdeliver.symm⟩
  | some message =>
    apply Prog.Ends.bind_modify
    apply Prog.Ends.bind_read
    have hgiven : ∃ result v, PacketStep s result v ∧ u.deliver (some message) = v.deliver result :=
      ⟨some message, u, hstep, rfl⟩
    dsimp only
    split
    · exact Prog.Ends.throw (Or.inr hgiven)
    · exact Prog.Ends.pure hgiven

/-- The loop, from a state in which the packets fit: it ends, and leaves the state of the end of a
call. -/
theorem decodeLoop_ends (handler : TsHandler) {bytes : List UInt8}
    (fuel : ℕ) (h : InCall calls bytes s) (hfuel : s.turns < fuel)
    (hfits : ∀ n, PacketsFit handler n s) :
    (decodeLoop handler fuel).Ends s (fun _ t => AfterCall (calls ++ [bytes]) t)
      (AfterCall (calls ++ [bytes])) False := by
  induction fuel generalizing s with
  | zero => omega
  | succ fuel ih =>
    apply Prog.Ends.bind_read
    apply Prog.Ends.ite
    · intro _
      exact Prog.Ends.pure h.after
    · intro hempty
      have hlt : s.stream.pos < s.stream.bytes.length := by
        by_contra hle
        exact hempty (decide_eq_true (not_lt.mp hle))
      have hlt' : s.stream.pos < bytes.length := h.memory ▸ hlt
      have hfit : ∀ n, ¬ PacketOverruns s ∧
          ∀ t, decodeTurn handler s = .ok () t → PacketsFit handler n t := fun n =>
        (hfits (n + 1)).resolve_left hempty
      apply Prog.Ends.bind
      cases hrun : decodeTurn handler s with
      | ok a t =>
        refine Prog.ends_of_ok hrun ?_
        obtain ⟨result, u, hstep, rfl⟩ := (decodeTurn_ends handler hlt.le).ok hrun
        have hturns := hstep.turns_lt hlt
        exact ih (h.step hlt' hstep) (by omega) fun n => (hfit n).2 _ hrun
      | err e t =>
        unfold Prog.Ends
        rw [hrun]
        rcases (decodeTurn_ends handler hlt.le).err hrun with hnew | ⟨result, u, hstep, rfl⟩
        · exact h.after_noneNew hnew
        · exact (h.step hlt' hstep).after
      | fault =>
        exfalso
        have hends := decodeTurn_ends handler hlt.le
        unfold Prog.Ends at hends
        rw [hrun] at hends
        exact (hfit 0).1 hends
      | hang =>
        exfalso
        have hends := decodeTurn_ends handler hlt.le
        unfold Prog.Ends at hends
        rwa [hrun] at hends

/-! ## Runs -/

/-- The context between the calls, what the handler has been given, and the buffers so far. -/
structure TsSession where
  pids : Pids
  pureAudio : Bool
  delivered : List (ℕ × SrsTsMessage)
  calls : List (List UInt8)

namespace TsSession

/-- `SrsTsContext::SrsTsContext` -/
def init : TsSession := ⟨Dict.empty, false, [], []⟩

/-- The state in front of a call with a buffer. -/
def enter (s : TsSession) (buffer : List UInt8) : TsDemuxer :=
  ⟨s.pids, s.pureAudio, ⟨buffer, 0⟩, s.delivered⟩

/-- A call with a buffer of 188 bytes, and a bound on its turns. What a call that returns an error
leaves behind is there in the next call. -/
def step (handler : TsHandler) (s : TsSession) (call : List UInt8 × ℕ) : Option TsSession :=
  if call.1.length = 188 then
    match SrsTsContext.decode handler call.2 call.1 (s.enter []) with
    | .ok _ t => some ⟨t.pids, t.pureAudio, t.delivered, s.calls ++ [call.1]⟩
    | .err _ t => some ⟨t.pids, t.pureAudio, t.delivered, s.calls ++ [call.1]⟩
    | .fault => none
    | .hang => none
  else none

/-- No packet that the call comes to goes by a length behind the end of the buffer. -/
def Fits (handler : TsHandler) (s : TsSession) (buffer : List UInt8) : Prop :=
  ∀ n, PacketsFit handler n (s.enter buffer)

/-- Enough turns are enough for the call to return, with or without an error. -/
def Returns (handler : TsHandler) (s : TsSession) (buffer : List UInt8) : Prop :=
  ∃ turns, ∀ fuel ≥ turns, (SrsTsContext.decode handler fuel buffer).Returns (s.enter [])

end TsSession

/-- A loop that has ended does not need the turns that are left. -/
theorem decodeLoop_mono (handler : TsHandler) {n m : ℕ} (hle : n ≤ m)
    (hn : decodeLoop handler n s ≠ .hang) :
    decodeLoop handler m s = decodeLoop handler n s := by
  induction n generalizing m s with
  | zero => exact absurd rfl hn
  | succ n ih =>
    obtain ⟨m, rfl⟩ : ∃ k, m = k + 1 := ⟨m - 1, by omega⟩
    have hunfold : ∀ k, decodeLoop handler (k + 1) s =
        if s.stream.empty then .ok () s
        else (decodeTurn handler >>= fun _ => decodeLoop handler k) s := by
      intro k
      show (if s.stream.empty then _ else _ : TsDecode Unit) s = _
      split <;> rfl
    rw [hunfold] at hn
    rw [hunfold, hunfold]
    by_cases hempty : s.stream.empty = true
    · rw [if_pos hempty, if_pos hempty]
    · rw [if_neg hempty] at hn ⊢
      rw [if_neg hempty]
      rw [Prog.bind_apply] at hn ⊢
      rw [Prog.bind_apply]
      cases hturn : decodeTurn handler s with
      | ok a t =>
        rw [hturn] at hn
        exact ih (Nat.le_of_succ_le_succ hle) hn
      | err e t => rfl
      | fault => rfl
      | hang => rfl

/-- A call, from the invariant to the invariant. -/
theorem decode_ends (handler : TsHandler) {s : TsSession} {buffer : List UInt8} {fuel : ℕ}
    (h : AfterCall s.calls (s.enter [])) (hfits : s.Fits handler buffer)
    (hfuel : (s.enter buffer).turns < fuel) :
    (SrsTsContext.decode handler fuel buffer).Ends (s.enter [])
      (fun _ t => AfterCall (s.calls ++ [buffer]) t) (AfterCall (s.calls ++ [buffer])) False := by
  have hin : InCall s.calls buffer (s.enter buffer) := {
    memory := rfl
    inside := Nat.zero_le _
    delivers := fun d hd => by
      obtain ⟨call, counter, hd⟩ := h.delivers d hd
      exact ⟨call, counter, hd.append _⟩
    keeps := fun pid m hm hold => by
      obtain ⟨call, hlt, hcall⟩ := h.keeps pid m hm hold
      exact ⟨call, hlt.trans (Nat.lt_succ_self _), hcall.append _⟩
    keepsOld := fun _ pid m hm hold => by
      obtain ⟨call, hlt, hcall⟩ := h.keeps pid m hm hold
      exact ⟨call, hlt, hcall.append _⟩ }
  apply Prog.Ends.bind_modify
  exact decodeLoop_ends handler fuel hin hfuel hfits

/-- The result of a call that has returned is that with any more turns. -/
theorem decode_mono (handler : TsHandler) {s : TsSession} {buffer : List UInt8} {n m : ℕ}
    (hle : n ≤ m) (hn : SrsTsContext.decode handler n buffer (s.enter []) ≠ .hang) :
    SrsTsContext.decode handler m buffer (s.enter []) =
      SrsTsContext.decode handler n buffer (s.enter []) :=
  decodeLoop_mono handler hle hn

/-- Between the calls of a run, the messages are put together of packets. -/
theorem afterCall_of_reaches (handler : TsHandler) {s : TsSession}
    (hrun : System.Reaches (TsSession.step handler) (fun s call => s.Fits handler call.1)
      TsSession.init s) : AfterCall s.calls (s.enter []) := by
  refine hrun.invariant (I := fun s => AfterCall s.calls (s.enter [])) ?_ ?_
  · rintro s ⟨buffer, fuel⟩ t hs hfits hstep
    have hends := decode_ends handler hs hfits
      (Nat.lt_of_lt_of_le (Nat.lt_succ_self _) (Nat.le_add_left _ fuel))
    have hmore := @decode_mono handler s buffer _ _
      (Nat.le_add_right fuel ((s.enter buffer).turns + 1))
    unfold TsSession.step at hstep
    split at hstep
    · split at hstep
      · next hok =>
        cases hstep
        have hok := (hmore (by rw [hok]; rintro ⟨⟩)).trans hok
        obtain ⟨hdelivers, hkeeps⟩ := hends.ok hok
        exact ⟨hdelivers, hkeeps⟩
      · next herr =>
        cases hstep
        have herr := (hmore (by rw [herr]; rintro ⟨⟩)).trans herr
        obtain ⟨hdelivers, hkeeps⟩ := hends.err herr
        exact ⟨hdelivers, hkeeps⟩
      · cases hstep
      · cases hstep
    · cases hstep
  · refine ⟨fun d hd => ?_, fun pid m hm => ?_⟩
    · cases hd
    · cases hm

/-- A packet with the extension of an adaptation field that says it has 255 bytes. -/
def longExtension : List UInt8 :=
  [0x47, 0x00, 0x50, 0x20, 0xb7, 0x01, 0xff] ++ List.replicate 181 0x00

end SrsChatRoom.Kernel.Ts
