import SrsChatRoom.Kernel.TsLayout
import SrsChatRoom.Lib.System

/-!
# Reading a transport stream

What one packet does to the messages of the channels, and from it what a whole run does: a message
that the handler is given is put together of the data of packets of its pid, from one that starts
a unit on, with the continuity counters one after the other.
-/

namespace SrsChatRoom.Kernel.Ts

open SrsChatRoom.Prog (refuse optional zoom modify)

/-! ## The messages of the channels -/

/-- The message of the channel of a pid. -/
def Pids.message (pids : Pids) (pid : ℕ) : Option SrsTsMessage :=
  (pids.get? pid).bind SrsTsChannel.msg

@[simp] theorem Pids.message_setApply (pids : Pids) (pid : ℕ) (apply : SrsTsPidApply)
    (stream : SrsTsStream) (other : ℕ) :
    (pids.setApply pid apply stream).message other = pids.message other := by
  unfold message setApply
  rw [Dict.get?_set]
  by_cases h : pid = other
  · subst h
    rw [if_pos rfl]
    cases pids.get? pid <;> rfl
  · rw [if_neg h]

@[simp] theorem Pids.message_setStream (pids : Pids) (pid streamType other : ℕ) :
    (pids.setStream pid streamType).message other = pids.message other := by
  unfold setStream
  cases SrsTsStream.ofByte streamType with
  | none => rfl
  | some stream =>
    cases happly : stream.apply with
    | none => simp only [happly]
    | some apply =>
      simp only [happly]
      exact message_setApply pids pid apply stream other

variable {pids : Pids} {channel : SrsTsChannel}

theorem Pids.message_setMsg {pid : ℕ}
    (h : pids.get? pid = some channel) (msg : Option SrsTsMessage) (other : ℕ) :
    (pids.setMsg pid msg).message other = if pid = other then msg else pids.message other := by
  unfold message setMsg
  rw [h]
  dsimp only
  rw [Dict.get?_set]
  by_cases ho : pid = other
  · rw [if_pos ho, if_pos ho]
    rfl
  · rw [if_neg ho, if_neg ho]

/-- A channel stays one. -/
theorem Pids.get?_setMsg {pid : ℕ} (h : pids.get? pid = some channel) (msg : Option SrsTsMessage) :
    (pids.setMsg pid msg).get? pid = some { channel with msg := msg } := by
  unfold setMsg
  rw [h]
  exact Dict.get?_set_self pids pid _

/-! ## Parts that leave the messages alone -/

/-- The same state, with the head at another position. -/
def TsDemuxer.moveTo (s : TsDemuxer) (q : ℕ) : TsDemuxer := { s with stream := ⟨s.stream.bytes, q⟩ }

/-- The messages are the same, and the handler has been given nothing more. -/
structure SameMessages (s t : TsDemuxer) : Prop where
  message : ∀ pid, t.pids.message pid = s.pids.message pid
  delivered : t.delivered = s.delivered

/-- The messages are the same, and the head has not gone back. -/
structure Ahead (s t : TsDemuxer) : Prop extends SameMessages s t where
  bytes : t.stream.bytes = s.stream.bytes
  inside : t.stream.pos ≤ t.stream.bytes.length
  forward : s.stream.pos ≤ t.stream.pos

variable {s t : TsDemuxer}

theorem SameMessages.trans {u : TsDemuxer} (h : SameMessages s t) (h' : SameMessages t u) :
    SameMessages s u :=
  ⟨fun pid => (h'.message pid).trans (h.message pid), h'.delivered.trans h.delivered⟩

theorem Ahead.trans {u : TsDemuxer} (h : Ahead s t) (h' : Ahead t u) : Ahead s u where
  toSameMessages := h.toSameMessages.trans h'.toSameMessages
  bytes := h'.bytes.trans h.bytes
  inside := h'.inside
  forward := h.forward.trans h'.forward

theorem sameMessages_moveTo (s : TsDemuxer) (q : ℕ) : SameMessages s (s.moveTo q) :=
  ⟨fun _ => rfl, rfl⟩

theorem ahead_moveTo {q : ℕ} (hle : s.stream.pos ≤ q)
    (hin : q ≤ s.stream.bytes.length) : Ahead s (s.moveTo q) where
  toSameMessages := sameMessages_moveTo s q
  bytes := rfl
  inside := hin
  forward := hle

theorem Ahead.setPids (h : Ahead s t)
    (hpids : ∀ pid, pids.message pid = t.pids.message pid) : Ahead s { t with pids := pids } where
  message := fun pid => (hpids pid).trans (h.message pid)
  delivered := h.delivered
  bytes := h.bytes
  inside := h.inside
  forward := h.forward

section Parts

variable {s : TsDemuxer} {F : Prop}

theorem onStream_ends {α : Type} {x : TsIo α} {Q : α → ℕ → Prop}
    (h : EndsAt x s.stream.bytes s.stream.pos Q F) (hp : s.stream.pos ≤ s.stream.bytes.length) :
    (onStream x).Ends s (fun a t => ∃ q ≤ s.stream.bytes.length, t = s.moveTo q ∧ Q a q)
      (fun t => ∃ q ≤ s.stream.bytes.length, t = s.moveTo q) F := by
  apply Prog.Ends.zoom
  refine (h hp).mono ?_ ?_ (fun hf => hf)
  · rintro a ⟨_, q⟩ ⟨⟨rfl, hq⟩, hqa⟩
    exact ⟨q, hq, rfl, hqa⟩
  · rintro ⟨_, q⟩ ⟨rfl, hq⟩
    exact ⟨q, hq, rfl⟩

theorem onStream_run {α : Type} {x : TsIo α} {a : α} {b : SrsBuffer}
    (h : x s.stream = .ok a b) : onStream x s = .ok a { s with stream := b } := by
  unfold onStream zoom
  rw [h]

/-- A program on the buffer that does not go back. -/
theorem onStream_ahead {α : Type} {x : TsIo α}
    (h : EndsAt x s.stream.bytes s.stream.pos (fun _ q => s.stream.pos ≤ q) F)
    (hp : s.stream.pos ≤ s.stream.bytes.length) :
    (onStream x).Ends s (fun _ t => Ahead s t) (SameMessages s) F := by
  refine (onStream_ends h hp).mono ?_ ?_ (fun hf => hf)
  · rintro _ t ⟨q, hq, rfl, hle⟩
    exact ahead_moveTo hle hq
  · rintro t ⟨q, _, rfl⟩
    exact sameMessages_moveTo s q

/-- A part, and what comes after it. -/
theorem Ahead.bind {α β : Type} {x : TsDecode α} {f : α → TsDecode β}
    (hx : x.Ends s (fun _ t => Ahead s t) (SameMessages s) F)
    (hf : ∀ a t, Ahead s t → (f a).Ends t (fun _ u => Ahead t u) (SameMessages t) F) :
    (x >>= f).Ends s (fun _ t => Ahead s t) (SameMessages s) F := by
  apply Prog.Ends.bind
  refine hx.mono ?_ (fun _ he => he) (fun hf => hf)
  intro a t ht
  exact (hf a t ht).mono (fun _ u hu => ht.trans hu) (fun u hu => ht.toSameMessages.trans hu)
    fun hf => hf

theorem ahead_refl (hp : s.stream.pos ≤ s.stream.bytes.length) : Ahead s s :=
  ahead_moveTo (le_refl _) hp

/-- A change of the pids that leaves the messages alone. -/
theorem onPids_ahead {f : Pids → Pids} (hp : s.stream.pos ≤ s.stream.bytes.length)
    (h : ∀ pid, (f s.pids).message pid = s.pids.message pid) :
    (onPids f).Ends s (fun _ t => Ahead s t) (SameMessages s) F := by
  apply Prog.Ends.modify
  exact (ahead_refl hp).setPids h

theorem onPmtParsed_ahead (hp : s.stream.pos ≤ s.stream.bytes.length) :
    onPmtParsed.Ends s (fun _ t => Ahead s t) (SameMessages s) F := by
  apply Prog.Ends.modify
  exact ⟨⟨fun _ => rfl, rfl⟩, rfl, hp, le_refl _⟩

/-! ## The program tables -/

theorem patProgram_ends (hp : s.stream.pos ≤ s.stream.bytes.length) :
    patProgram.Ends s (fun _ t => Ahead s t) (SameMessages s) F := by
  refine Ahead.bind (onStream_ahead ?_ hp) fun v t ht => ?_
  · refine endsAt_bind_requires fun _ hle => ?_
    apply endsAt_readUint
    · intro _
      omega
    · intro hlt
      omega
  · exact onPids_ahead ht.inside fun pid => Pids.message_setApply _ _ _ _ _

theorem patPrograms_ends (n : ℕ) (hp : s.stream.pos ≤ s.stream.bytes.length) :
    (patPrograms n).Ends s (fun _ t => Ahead s t) (SameMessages s) F := by
  induction n generalizing s with
  | zero => exact Prog.Ends.pure (ahead_refl hp)
  | succ n ih => exact Ahead.bind (Prog.Ends.wrap (patProgram_ends hp)) fun _ t ht => ih ht.inside

theorem patDecode_ends (pid sectionLength : ℕ) (hp : s.stream.pos ≤ s.stream.bytes.length) :
    (patDecode pid sectionLength).Ends s (fun _ t => Ahead s t) (SameMessages s) F := by
  refine Ahead.bind (onStream_ahead ?_ hp) fun programBytes t ht => ?_
  · refine endsAt_bind_requires fun _ hle => ?_
    apply endsAt_bind_pos
    refine endsAt_bind_readUint (by omega) ?_
    refine endsAt_bind_readUint (by omega) ?_
    refine endsAt_bind_readUint (by omega) ?_
    refine endsAt_bind_readUint (by omega) ?_
    apply endsAt_bind_pos
    exact endsAt_pure (by omega)
  · refine Ahead.bind (patPrograms_ends _ ht.inside) fun _ u hu => ?_
    refine Ahead.bind (onPids_ahead hu.inside fun pid => Pids.message_setApply _ _ _ _ _)
      fun _ v hv => ?_
    exact onPmtParsed_ahead hv.inside

/-- An entry of the PMT has at least 5 bytes. -/
theorem pmtEsInfo_ends {bytes : List UInt8} {p : ℕ} :
    EndsAt pmtEsInfo bytes p (fun _ q => p + 5 ≤ q) F := by
  refine endsAt_bind_requires fun _ hle => ?_
  refine endsAt_bind_readUint (by omega) ?_
  refine endsAt_bind_readUint (by omega) ?_
  refine endsAt_bind_readUint (by omega) ?_
  apply EndsAt.ite
  · intro _
    refine endsAt_bind_requires fun _ hinfo => ?_
    apply EndsAt.bind
    apply endsAt_readBytes
    · intro _
      exact endsAt_pure (by omega)
    · intro hlt
      omega
  · intro _
    exact endsAt_pure (by omega)

/-- The loop ends, since each of its turns takes bytes. -/
theorem pmtInfos_ends (esEofPos : ℤ) (fuel : ℕ) (hp : s.stream.pos ≤ s.stream.bytes.length)
    (hfuel : s.stream.bytes.length < s.stream.pos + fuel) :
    (pmtInfos esEofPos fuel).Ends s (fun _ t => Ahead s t) (SameMessages s) F := by
  induction fuel generalizing s with
  | zero => omega
  | succ fuel ih =>
    apply Prog.Ends.bind
    refine (onStream_ends (endsAt_pos (Q := fun _ q => q = s.stream.pos) rfl) hp).mono ?_ ?_
      (fun hf => hf)
    · rintro posNow t ⟨q, hq, rfl, rfl⟩
      apply Prog.Ends.ite
      · intro _
        apply Prog.Ends.bind
        refine (Prog.Ends.wrap (onStream_ends pmtEsInfo_ends hp)).mono ?_ ?_ (fun hf => hf)
        · rintro ⟨streamType, pid⟩ t ⟨r, hr, rfl, hfive⟩
          have hset : Ahead s { s.moveTo r with pids := s.pids.setStream pid streamType } :=
            (ahead_moveTo (by omega) hr).setPids (Pids.message_setStream s.pids pid streamType)
          apply Prog.Ends.bind_modify
          refine (ih hr ?_).mono (fun _ u hu => hset.trans hu)
            (fun u hu => hset.toSameMessages.trans hu) (fun hf => hf)
          show s.stream.bytes.length < r + fuel
          omega
        · rintro t ⟨r, _, rfl⟩
          exact sameMessages_moveTo s r
      · intro _
        exact Prog.Ends.pure (ahead_refl hp)
    · rintro t ⟨q, _, rfl⟩
      exact sameMessages_moveTo s q

theorem pmtDecode_ends (pid sectionLength : ℕ) (hp : s.stream.pos ≤ s.stream.bytes.length) :
    (pmtDecode pid sectionLength).Ends s (fun _ t => Ahead s t) (SameMessages s) F := by
  refine Ahead.bind (onStream_ahead ?_ hp) fun esEofPos t ht => ?_
  · refine endsAt_bind_requires fun _ hle => ?_
    refine endsAt_bind_readUint (by omega) ?_
    refine endsAt_bind_readUint (by omega) ?_
    refine endsAt_bind_readUint (by omega) ?_
    refine endsAt_bind_readUint (by omega) ?_
    refine endsAt_bind_readUint (by omega) ?_
    refine endsAt_bind_readUint (by omega) ?_
    apply EndsAt.ite
    · intro _
      refine endsAt_bind_requires fun _ hinfo => ?_
      apply EndsAt.bind
      apply endsAt_readBytes
      · intro _
        apply endsAt_bind_pos
        exact endsAt_pure (by omega)
      · intro hlt
        omega
    · intro _
      apply endsAt_bind_pos
      exact endsAt_pure (by omega)
  · apply Prog.Ends.bind_read
    refine Ahead.bind (pmtInfos_ends _ _ ht.inside (by omega)) fun _ u hu => ?_
    exact onPids_ahead hu.inside fun pid => Pids.message_setApply _ _ _ _ _

/-- A section is read forwards, whatever its table does with the pids. -/
theorem psiDecode_ends {unitStart : Bool} {decodeSection : ℕ → TsDecode Unit}
    (hp : s.stream.pos ≤ s.stream.bytes.length)
    (hsection : ∀ sectionLength t, Ahead s t →
      (decodeSection sectionLength).Ends t (fun _ u => Ahead t u) (SameMessages t) F) :
    (psiDecode unitStart decodeSection).Ends s (fun _ t => Ahead s t) (SameMessages s) F := by
  refine Ahead.bind (onStream_ahead ?_ hp) ?_
  · refine EndsAt.bind (EndsAt.mono (Q := fun _ q => s.stream.pos ≤ q)
      (endsAt_optional (fun _ => ?_) fun _ => le_refl _) (fun _ q _ hq => ?_) (fun hf => hf))
    · refine endsAt_bind_requires fun _ hone => ?_
      refine endsAt_bind_readUint (by omega) ?_
      exact endsAt_pure (by omega)
    · apply endsAt_bind_pos
      refine endsAt_bind_requires fun _ hthree => ?_
      refine endsAt_bind_readUint (by omega) ?_
      refine endsAt_bind_readUint (by omega) ?_
      exact endsAt_pure (by omega)
  · rintro ⟨sectionLength, patPos⟩ t ht
    apply Prog.Ends.ite
    · intro _
      exact Prog.Ends.pure (ahead_refl ht.inside)
    · intro _
      refine Ahead.bind (onStream_ahead (Cursor.endsAt_requires fun _ _ => le_refl _) ht.inside)
        fun _ u hu => ?_
      refine Ahead.bind (Prog.Ends.wrap (hsection _ _ (ht.trans hu))) fun _ v hv => ?_
      refine onStream_ahead ?_ hv.inside
      refine endsAt_bind_requires fun _ hfour => ?_
      apply EndsAt.bind
      refine endsAt_readUint (fun hle => ?_) fun hlt => by omega
      apply EndsAt.bind
      intro hpos
      apply Prog.Ends.read
      refine ⟨⟨rfl, hpos⟩, ?_⟩
      refine endsAt_bind_refuse fun _ => ?_
      exact endsAt_skipAll (by omega)

end Parts

/-! ## A packet of a message -/

/-- What stays as it is in a packet. -/
structure SameRun (s t : TsDemuxer) : Prop where
  delivered : t.delivered = s.delivered
  bytes : t.stream.bytes = s.stream.bytes
  inside : t.stream.pos ≤ s.stream.bytes.length

/-- The messages are those of before, with that of one pid replaced. -/
def SetMessage (s t : TsDemuxer) (pid : ℕ) (msg : Option SrsTsMessage) : Prop :=
  ∀ other, t.pids.message other = if pid = other then msg else s.pids.message other

/-- No message is there, other than fresh ones, that was not there before. -/
structure NoneNew (s t : TsDemuxer) : Prop where
  delivered : t.delivered = s.delivered
  message : ∀ pid m, t.pids.message pid = some m → m.fresh = false →
    s.pids.message pid = some m

theorem SameMessages.noneNew (h : SameMessages s t) : NoneNew s t where
  delivered := h.delivered
  message := fun pid _ hm _ => (h.message pid).symm.trans hm

theorem SetMessage.noneNew {pid : ℕ} {msg : Option SrsTsMessage}
    (h : SetMessage s t pid msg) (hdelivered : t.delivered = s.delivered)
    (hfresh : ∀ m, msg = some m → m.fresh = true) : NoneNew s t where
  delivered := hdelivered
  message := fun other m hm hnew => by
    rw [h other] at hm
    by_cases ho : pid = other
    · rw [if_pos ho] at hm
      rw [hfresh m hm] at hnew
      cases hnew
    · rwa [if_neg ho] at hm

/-- The bytes that a message takes off the buffer: all of them, unless it is complete then. -/
theorem dump_run (msg : SrsTsMessage) {bytes : List UInt8} {q : ℕ} (hq : q ≤ bytes.length) :
    ∃ data r, msg.dump ⟨bytes, q⟩ =
        .ok { msg with payload := msg.payload ++ data } ⟨bytes, r⟩ ∧
      data <+: bytes.drop q ∧ q ≤ r ∧ r ≤ bytes.length ∧
      (r = bytes.length ∨ 0 < msg.pesPacketLength ∧
        msg.pesPacketLength ≤ (msg.payload ++ data).length) := by
  have hbind : ∀ nbBytes : ℤ, nbBytes = (if msg.pesPacketLength > 0 then
      min (bytes.length - q : ℤ) (msg.pesPacketLength - msg.payload.length)
      else (bytes.length - q : ℤ)) →
      msg.dump ⟨bytes, q⟩ = (if nbBytes > 0 then do
        requires nbBytes .pse "ts: dump PSE bytes failed, requires=%dB"
        let data ← readBytes nbBytes
        return { msg with payload := msg.payload ++ data }
      else return msg : TsIo SrsTsMessage) ⟨bytes, q⟩ := by
    rintro nbBytes rfl
    rfl
  generalize hnb : (if msg.pesPacketLength > 0 then
    min (bytes.length - q : ℤ) (msg.pesPacketLength - msg.payload.length)
    else (bytes.length - q : ℤ)) = nbBytes at hbind
  rw [hbind nbBytes rfl]
  have hle : nbBytes ≤ bytes.length - q := by
    rw [← hnb]
    split
    · exact min_le_left _ _
    · exact le_refl _
  by_cases hpos : nbBytes > 0
  · obtain ⟨n, rfl⟩ := Int.eq_ofNat_of_zero_le hpos.le
    have hrequire : (⟨bytes, q⟩ : SrsBuffer).require n = true := by
      rw [SrsBuffer.require_iff]
      show q + n ≤ bytes.length
      omega
    have hread : readBytes n ⟨bytes, q⟩ =
        .ok ((bytes.drop q).take n) ⟨bytes, q + n⟩ := by
      unfold readBytes access SrsBuffer.readBytes
      rw [if_pos hrequire]
      rfl
    have hchecked : requires n .pse "ts: dump PSE bytes failed, requires=%dB" ⟨bytes, q⟩ =
        .ok () ⟨bytes, q⟩ := if_pos hrequire
    refine ⟨(bytes.drop q).take n, q + n, ?_, List.take_prefix _ _, by omega, by omega, ?_⟩
    · rw [if_pos hpos, Prog.bind_ok hchecked, Prog.bind_ok hread]
      rfl
    · rw [List.length_append, List.length_take, List.length_drop]
      split at hnb
      · omega
      · omega
  · refine ⟨[], q, ?_, List.nil_prefix, le_refl _, hq, ?_⟩
    · rw [if_neg hpos, List.append_nil]
      rfl
    · rw [List.append_nil]
      split at hnb
      · omega
      · omega

section PesPacket

variable {s : TsDemuxer} {q : ℕ} {header : TsHeader} {msg : SrsTsMessage}

/-- The data of a packet whose payload is at `q`. -/
def payloadDataPos (bytes : List UInt8) (q : ℕ) (unitStart : Bool) : ℕ :=
  if unitStart then pesDataPos bytes q else q

/-- The message has taken the data of the packet, all that is left unless it is complete. -/
structure HasTaken (s : TsDemuxer) (q : ℕ) (header : TsHeader) (msg more : SrsTsMessage)
    (t : TsDemuxer) : Prop extends SameRun s t where
  forward : q ≤ t.stream.pos
  channel : ∃ channel, t.pids.get? header.pid = some channel
  others : ∀ other, header.pid ≠ other → t.pids.message other = s.pids.message other
  counter : more.continuityCounter = msg.continuityCounter
  data : ∃ data, data <+: s.stream.bytes.drop (payloadDataPos s.stream.bytes q header.unitStart) ∧
    more.payload = msg.payload ++ data
  all : t.stream.pos = s.stream.bytes.length ∨
    0 < more.pesPacketLength ∧ more.pesPacketLength ≤ more.payload.length

variable {channel : SrsTsChannel}

/-- What is left behind when the header of a message is refused: the message, still fresh. -/
theorem noneNew_keep (hchannel : s.pids.get? header.pid = some channel)
    (hfresh : msg.fresh = true) (r : ℕ) :
    NoneNew s { s.moveTo r with pids := s.pids.setMsg header.pid (some msg) } := by
  have hset : SetMessage s { s.moveTo r with pids := s.pids.setMsg header.pid (some msg) }
      header.pid (some msg) := Pids.message_setMsg hchannel (some msg)
  refine hset.noneNew rfl ?_
  rintro m ⟨⟩
  exact hfresh

/-- The first packet of a message: behind its header come its data. -/
theorem firstPacket_ends
    (hchannel : s.pids.get? header.pid = some channel) (hq : q ≤ s.stream.bytes.length)
    (hunit : header.unitStart = true) (hfresh : msg.fresh = true) :
    (firstPacket header.pid msg).Ends
      { s.moveTo q with pids := s.pids.setMsg header.pid (some msg) }
      (fun more t => HasTaken s q header msg more t) (NoneNew s)
      (PesOverruns s.stream.bytes q) := by
  have hstart : payloadDataPos s.stream.bytes q header.unitStart = pesDataPos s.stream.bytes q :=
    if_pos hunit
  have hget := Pids.get?_setMsg hchannel (some msg)
  apply Prog.Ends.bind
  refine (Prog.Ends.wrap (onStream_ends pes_ends hq)).mono ?_ ?_ (fun hf => hf)
  · rintro pes t ⟨r, hr, rfl, hdata, hnone⟩
    have hsame : (msg.start pes).payload = msg.payload ∧
        (msg.start pes).continuityCounter = msg.continuityCounter := by
      unfold SrsTsMessage.start
      dsimp only
      split
      · split <;> exact ⟨rfl, rfl⟩
      · split <;> exact ⟨rfl, rfl⟩
    have hlater : ∀ (m : Option SrsTsMessage) (other : ℕ), header.pid ≠ other →
        ((s.pids.setMsg header.pid (some msg)).setMsg header.pid m).message other =
          s.pids.message other := by
      intro m other ho
      rw [Pids.message_setMsg hget, if_neg ho, Pids.message_setMsg hchannel, if_neg ho]
    apply Prog.Ends.bind_modify
    apply Prog.Ends.ite
    · intro hhas
      obtain rfl : r = pesDataPos s.stream.bytes q := hdata hhas
      obtain ⟨data, r, hrun, hbegins, hle, hin, hall⟩ := dump_run (msg.start pes) hr
      apply Prog.Ends.wrap
      refine Prog.ends_of_ok (onStream_run hrun) ?_
      exact {
        delivered := rfl
        bytes := rfl
        inside := hin
        forward := (le_pesDataPos _ _).trans hle
        channel := ⟨_, Pids.get?_setMsg hget _⟩
        others := hlater _
        counter := hsame.2
        data := ⟨data, hstart ▸ hbegins, by rw [hsame.1]⟩
        all := hall }
    · intro hhas
      obtain ⟨rfl, -⟩ := hnone (Bool.eq_false_iff.mpr hhas)
      exact Prog.Ends.pure {
        delivered := rfl
        bytes := rfl
        inside := le_refl _
        forward := hq
        channel := ⟨_, Pids.get?_setMsg hget _⟩
        others := hlater _
        counter := hsame.2
        data := ⟨[], List.nil_prefix, by rw [hsame.1, List.append_nil]⟩
        all := Or.inl rfl }
  · rintro t ⟨r, _, rfl⟩
    exact noneNew_keep hchannel hfresh r

/-- The message with the data of the packet, kept or given to the caller. -/
structure Took (s : TsDemuxer) (q : ℕ) (header : TsHeader) (msg : SrsTsMessage)
    (result : Option SrsTsMessage) (t : TsDemuxer) : Prop extends SameRun s t where
  forward : q ≤ t.stream.pos
  result : ∃ more data : _, more.continuityCounter = msg.continuityCounter ∧
    data <+: s.stream.bytes.drop (payloadDataPos s.stream.bytes q header.unitStart) ∧
    more.payload = msg.payload ++ data ∧
    (result = none ∧ SetMessage s t header.pid (some more) ∧
        t.stream.pos = s.stream.bytes.length ∨
      result = some more ∧ SetMessage s t header.pid none)

theorem takePacket_ends
    (hchannel : s.pids.get? header.pid = some channel) (hq : q ≤ s.stream.bytes.length)
    (hfresh : header.unitStart = true → msg.fresh = true) :
    (takePacket header msg).Ends (s.moveTo q) (Took s q header msg) (NoneNew s)
      (header.unitStart = true ∧ PesOverruns s.stream.bytes q) := by
  have hget := Pids.get?_setMsg hchannel (some msg)
  apply Prog.Ends.bind_modify
  -- the bytes of the packet
  apply Prog.Ends.bind
  refine Prog.Ends.mono (Q := fun more t => HasTaken s q header msg more t) (E := NoneNew s)
    (F := header.unitStart = true ∧ PesOverruns s.stream.bytes q) ?_ ?_ (fun _ he => he)
    (fun hf => hf)
  · apply Prog.Ends.ite
    · intro hunit
      exact (firstPacket_ends hchannel hq hunit (hfresh hunit)).mono (fun _ _ h => h)
        (fun _ he => he) fun hf => ⟨hunit, hf⟩
    · intro hunit
      obtain ⟨data, r, hrun, hbegins, hle, hin, hall⟩ := dump_run msg hq
      apply Prog.Ends.wrap
      refine Prog.ends_of_ok (onStream_run hrun) ?_
      have hstart : payloadDataPos s.stream.bytes q header.unitStart = q := if_neg hunit
      exact {
        delivered := rfl
        bytes := rfl
        inside := hin
        forward := hle
        channel := ⟨_, hget⟩
        others := fun other ho => (Pids.message_setMsg hchannel _ other).trans (if_neg ho)
        counter := rfl
        data := ⟨data, hstart.symm ▸ hbegins, rfl⟩
        all := hall }
  rintro more t htaken
  obtain ⟨channel', hchannel'⟩ := htaken.channel
  obtain ⟨data, hbegins, hpayload⟩ := htaken.data
  have hkept : SetMessage s { t with pids := t.pids.setMsg header.pid (some more) } header.pid
      (some more) := by
    intro other
    refine (Pids.message_setMsg hchannel' _ other).trans ?_
    by_cases ho : header.pid = other
    · rw [if_pos ho, if_pos ho]
    · rw [if_neg ho, if_neg ho, htaken.others other ho]
  have hkeep : t.stream.pos = s.stream.bytes.length →
      Took s q header msg none { t with pids := t.pids.setMsg header.pid (some more) } :=
    fun hend => {
      delivered := htaken.delivered
      bytes := htaken.bytes
      inside := htaken.inside
      forward := htaken.forward
      result := ⟨more, data, htaken.counter, hbegins, hpayload, Or.inl ⟨rfl, hkept, hend⟩⟩ }
  apply Prog.Ends.bind_modify
  apply Prog.Ends.ite
  · rintro ⟨-, hzero⟩
    apply Prog.Ends.pure
    apply hkeep
    rcases htaken.all with hend | ⟨hpos, -⟩
    · exact hend
    · omega
  · intro _
    apply Prog.Ends.ite
    · intro _
      apply Prog.Ends.bind_modify
      refine Prog.Ends.pure {
        delivered := htaken.delivered
        bytes := htaken.bytes
        inside := htaken.inside
        forward := htaken.forward
        result := ⟨more, data, htaken.counter, hbegins, hpayload, Or.inr ⟨rfl, ?_⟩⟩ }
      intro other
      refine (Pids.message_setMsg (Pids.get?_setMsg hchannel' _) _ other).trans ?_
      by_cases ho : header.pid = other
      · rw [if_pos ho, if_pos ho]
      · rw [if_neg ho, if_neg ho]
        exact (hkept other).trans (if_neg ho)
    · intro hincomplete
      apply Prog.Ends.pure
      apply hkeep
      rcases htaken.all with hend | ⟨hpos, hle⟩
      · exact hend
      · exfalso
        apply hincomplete
        unfold SrsTsMessage.completed
        rw [if_neg (by omega)]
        exact decide_eq_true hle

/-- What a packet does to the message of its pid. -/
inductive PesStep (s : TsDemuxer) (q : ℕ) (header : TsHeader) :
    Option SrsTsMessage → TsDemuxer → Prop
  | skipped {t : TsDemuxer} : NoneNew s t → t.stream = ⟨s.stream.bytes, s.stream.bytes.length⟩ →
      PesStep s q header none t
  | reset {t : TsDemuxer} {m : SrsTsMessage} {result : Option SrsTsMessage} :
      s.pids.message header.pid = some m → m.fresh = false →
      result = none ∨ result = some { m with continuityCounter := header.continuityCounter } →
      t.delivered = s.delivered → SetMessage s t header.pid none →
      t.stream = ⟨s.stream.bytes, 0⟩ → PesStep s q header result t
  | took {t : TsDemuxer} {m : SrsTsMessage} {result : Option SrsTsMessage} :
      (header.unitStart = true ∧ m.payload = [] ∨
        header.unitStart = false ∧ s.pids.message header.pid = some m ∧ m.fresh = false ∧
          isNext m header.continuityCounter = true) →
      Took s q header { m with continuityCounter := header.continuityCounter } result t →
      PesStep s q header result t

theorem reparse_ends {E : TsDemuxer → Prop} {F : Prop} {pid : ℕ}
    (hp : s.stream.pos ≤ s.stream.bytes.length) :
    (reparse pid).Ends s (fun _ t => t = { s with
      pids := s.pids.setMsg pid none, stream := ⟨s.stream.bytes, 0⟩ }) E F := by
  apply Prog.Ends.bind_modify
  have hrun : (do
      let posNow ← pos
      skip (-posNow) : TsIo Unit) s.stream = .ok () ⟨s.stream.bytes, 0⟩ := by
    show access (SrsBuffer.skip (-(s.stream.pos : ℤ))) s.stream = _
    unfold access SrsBuffer.skip
    rw [if_pos (by omega)]
    simp
  exact Prog.ends_of_ok (onStream_run hrun) rfl

theorem skipAll_run (b : SrsBuffer) (hp : b.pos ≤ b.bytes.length) :
    skipAll b = .ok () ⟨b.bytes, b.bytes.length⟩ := by
  show access (SrsBuffer.skip b.left) b = _
  unfold access SrsBuffer.skip SrsBuffer.left
  rw [if_pos (by omega)]
  simp

theorem continueMessage_ends
    (hchannel : s.pids.get? header.pid = some channel) (hq : q ≤ s.stream.bytes.length)
    (hmsg : msg.fresh = false → s.pids.message header.pid = some msg) :
    (continueMessage header msg).Ends
      { s.moveTo q with pids := s.pids.setMsg header.pid (some msg) }
      (PesStep s q header) (NoneNew s)
      (msg.fresh = true ∧ header.unitStart = true ∧ PesOverruns s.stream.bytes q) := by
  have hget := Pids.get?_setMsg hchannel (some msg)
  have hkept : ∀ other, (s.pids.setMsg header.pid (some msg)).message other =
      if header.pid = other then some msg else s.pids.message other :=
    Pids.message_setMsg hchannel (some msg)
  have hset : ∀ (m : Option SrsTsMessage) (other : ℕ),
      ((s.pids.setMsg header.pid (some msg)).setMsg header.pid m).message other =
        if header.pid = other then m else s.pids.message other := by
    intro m other
    rw [Pids.message_setMsg hget]
    by_cases ho : header.pid = other
    · rw [if_pos ho, if_pos ho]
    · rw [if_neg ho, if_neg ho, hkept, if_neg ho]
  have hreset : ∀ result : Option SrsTsMessage, msg.fresh = false →
      (result = none ∨ result = some { msg with
        continuityCounter := header.continuityCounter }) →
      (do
        reparse header.pid
        return result : TsDecode (Option SrsTsMessage)).Ends
        { s.moveTo q with pids := s.pids.setMsg header.pid (some msg) }
        (PesStep s q header) (NoneNew s)
        (msg.fresh = true ∧ header.unitStart = true ∧ PesOverruns s.stream.bytes q) := by
    intro result hold hresult
    apply Prog.Ends.bind
    refine (reparse_ends hq).mono ?_ (fun _ he => he) (fun hf => hf)
    rintro _ t rfl
    exact Prog.Ends.pure (PesStep.reset (hmsg hold) hold hresult rfl (hset none) rfl)
  apply Prog.Ends.ite
  · rintro ⟨hfresh, -⟩
    apply Prog.Ends.bind
    refine Prog.ends_of_ok (onStream_run (skipAll_run _ hq)) ?_
    apply Prog.Ends.bind_modify
    refine Prog.Ends.pure (PesStep.skipped ?_ rfl)
    refine @SetMessage.noneNew _ _ header.pid none (hset none) rfl ?_
    intro m hm
    cases hm
  intro hfirst
  apply Prog.Ends.ite
  · rintro ⟨hold, -⟩
    exact hreset none (Bool.eq_false_iff.mpr hold) (Or.inl rfl)
  intro hrestart
  apply Prog.Ends.ite
  · rintro ⟨hold, -⟩
    apply Prog.Ends.bind
    refine Prog.ends_of_ok (onStream_run (skipAll_run _ hq)) ?_
    refine Prog.Ends.pure (PesStep.skipped ⟨rfl, ?_⟩ rfl)
    intro other m hm hnew
    have hm := (hkept other).symm.trans hm
    by_cases ho : header.pid = other
    · rw [if_pos ho] at hm
      cases hm
      exact ho ▸ hmsg hnew
    · rwa [if_neg ho] at hm
  intro _
  apply Prog.Ends.ite
  · rintro ⟨hold, -⟩
    exact hreset none (Bool.eq_false_iff.mpr hold) (Or.inl rfl)
  intro hnext
  apply Prog.Ends.ite
  · rintro ⟨hold, -⟩
    exact hreset _ (Bool.eq_false_iff.mpr hold) (Or.inr rfl)
  intro hincomplete
  -- a unit starts only on a fresh message: one of unknown length would be complete
  have hfresh : header.unitStart = true → msg.fresh = true := by
    intro hunit
    by_contra hold
    have hopen : ¬ msg.completed header.unitStart = true := fun hc => hincomplete ⟨hold, hc⟩
    have hzero : msg.pesPacketLength = 0 := by
      by_contra hne
      exact hrestart ⟨hold, by omega, hopen, hunit⟩
    apply hopen
    unfold SrsTsMessage.completed
    rw [if_pos hzero]
    exact hunit
  have hnew : ∀ other m, (s.pids.setMsg header.pid (some msg)).message other = some m →
      m.fresh = false → s.pids.message other = some m := by
    intro other m hm hold
    rw [hkept] at hm
    by_cases ho : header.pid = other
    · rw [if_pos ho] at hm
      cases hm
      exact ho ▸ hmsg hold
    · rwa [if_neg ho] at hm
  have htake := @takePacket_ends { s with pids := s.pids.setMsg header.pid (some msg) } q header
    { msg with continuityCounter := header.continuityCounter } _ hget hq hfresh
  refine htake.mono ?_ ?_ ?_
  · intro result t htook
    refine PesStep.took (m := msg) ?_ {
      delivered := htook.delivered
      bytes := htook.bytes
      inside := htook.inside
      forward := htook.forward
      result := ?_ }
    · cases hunit : header.unitStart with
      | true =>
        obtain ⟨-, hempty⟩ := of_decide_eq_true (hfresh hunit)
        exact Or.inl ⟨rfl, List.length_eq_zero_iff.mp hempty⟩
      | false =>
        have hold : msg.fresh = false := by
          by_contra hf
          exact hfirst ⟨Bool.not_eq_false _ ▸ hf, hunit⟩
        refine Or.inr ⟨rfl, hmsg hold, hold, ?_⟩
        by_contra hn
        exact hnext ⟨Bool.eq_false_iff.mp hold, hn⟩
    · have hreplace : ∀ x, SetMessage { s with pids := s.pids.setMsg header.pid (some msg) } t
          header.pid x → SetMessage s t header.pid x := by
        intro x hx other
        refine (hx other).trans ?_
        by_cases ho : header.pid = other
        · rw [if_pos ho, if_pos ho]
        · rw [if_neg ho, if_neg ho]
          exact (hkept other).trans (if_neg ho)
      obtain ⟨more, data, hcounter, hbegins, hpayload, hresult⟩ := htook.result
      refine ⟨more, data, hcounter, hbegins, hpayload, ?_⟩
      rcases hresult with ⟨hnone, hkeep, hend⟩ | ⟨hsome, hdone⟩
      · exact Or.inl ⟨hnone, hreplace _ hkeep, hend⟩
      · exact Or.inr ⟨hsome, hreplace _ hdone⟩
  · intro t ht
    exact ⟨ht.delivered, fun other m hm hold => hnew other m (ht.message other m hm hold) hold⟩
  · rintro ⟨hunit, hover⟩
    exact ⟨hfresh hunit, hunit, hover⟩

/-- `SrsTsPayloadPES::decode`, of a packet of a pid with a channel. -/
theorem pesDecode_ends
    (hchannel : s.pids.get? header.pid = some channel) (hq : q ≤ s.stream.bytes.length) :
    (pesDecode header).Ends (s.moveTo q) (PesStep s q header) (NoneNew s)
      ((∀ m, s.pids.message header.pid = some m → m.fresh = true) ∧ header.unitStart = true ∧
        PesOverruns s.stream.bytes q) := by
  have hmessage : s.pids.message header.pid = channel.msg := by
    unfold Pids.message
    rw [hchannel]
    rfl
  apply Prog.Ends.bind_read
  have hfound : (s.moveTo q).pids.get? header.pid = some channel := hchannel
  rw [hfound]
  apply Prog.Ends.bind_modify
  refine (continueMessage_ends hchannel hq ?_).mono (fun _ _ h => h) (fun _ he => he) ?_
  · intro hold
    rw [hmessage]
    cases hmsg : channel.msg with
    | none =>
      rw [hmsg] at hold
      cases hold
    | some m => rfl
  · rintro ⟨hfresh, hunit, hover⟩
    refine ⟨?_, hunit, hover⟩
    intro m hm
    rw [hmessage.symm.trans hm] at hfresh
    exact hfresh

end PesPacket

end SrsChatRoom.Kernel.Ts
