import SrsChatRoom.App.GbMuxerQueue
import SrsChatRoom.Lib.System

/-!
# Sequence headers in front of the frames

On each connection a frame should follow a sequence header with the parameter sets that were
received last before the frame, and no slice should be lost once the parameter sets are complete.
The muxer keeps this up as long as its flags and its stored parameter sets tell the truth about
the open connection.
-/

namespace SrsChatRoom.App.GbMuxer

open Function (update update_of_ne update_self)

/-! ## What a connection shows -/

/-- The parameter sets of the last sequence header. The packets are given the last first. -/
def lastHeader (codec : Codec) : List Packet → Option Sets
  | [] => none
  | .header codec' sets :: older => if codec' = codec then some sets else lastHeader codec older
  | _ :: older => lastHeader codec older

/-- In front of each frame, the last sequence header has the parameter sets that were received last
before it. -/
def Led (packets : List Packet) : Prop :=
  ∀ newer codec nalu latest older, packets = newer ++ .frame codec nalu latest :: older →
    lastHeader codec older = some latest

/-- The connections show every frame behind its parameter sets, no slice is lost, what was handed
over is what waits and what was sent, in this order, and the process goes on. -/
structure Decodable (r : Run) : Prop where
  led : ∀ conn ∈ r.muxer.sent :: r.muxer.past, Led conn
  kept : r.lost = []
  handed : r.muxer.handed =
    (videos r.muxer.queue.msgs).reverse ++ r.muxer.sent ++ r.muxer.past.flatten
  alive : r.aborted = false

/-- A sequence header is in front of each frame. -/
def selfLed : List Packet → Bool
  | [] => true
  | .frame codec _ _ :: older => (lastHeader codec older).isSome && selfLed older
  | _ :: older => selfLed older

/-! ## The condition -/

/-- The muxer refuses this NALU, and with it the rest of the message. -/
def refuses (m : SrsGbMuxer) (codec : Codec) (n : Nalu) : Bool :=
  match codec with
  | .h264 => ¬ avcKnown n.avcType ∨ (n.kind .h264 = .slice ∧ ¬ m.h264SpsPpsSent)
  | .h265 => (n.kind .h265 = .slice ∨
      n.kind .h265 = .other ∧ ¬ (n.hevcType = 39 ∨ n.hevcType = 40 ∨ n.hevcType = 35)) ∧
      ¬ m.vpsSpsPpsSent

/-- The muxer says that a sequence header was sent. -/
def headerSent (m : SrsGbMuxer) : Codec → Bool
  | .h264 => m.h264SpsPpsSent
  | .h265 => m.vpsSpsPpsSent

/-- The muxer writes a sequence header for this NALU. -/
def writesHeader (m : SrsGbMuxer) (codec : Codec) (n : Nalu) : Bool :=
  match codec, n.kind codec with
  | .h264, .sps => m.h264Sps ≠ spsDemux n ∧ m.h264PpsChanged
  | .h264, .pps => m.h264Pps ≠ n.bytes ∧ m.h264SpsChanged
  | .h265, .vps => m.h265Vps ≠ n.bytes ∧ m.h265Sps ≠ [] ∧ m.h265Pps ≠ []
  | .h265, .sps => m.h265Sps ≠ spsDemux n ∧ m.h265Vps ≠ [] ∧ m.h265Pps ≠ []
  | .h265, .pps => m.h265Pps ≠ n.bytes ∧ m.h265Vps ≠ [] ∧ m.h265Sps ≠ []
  | _, _ => false

/-- The muxer writes a frame for this NALU. -/
def writesFrame (m : SrsGbMuxer) (codec : Codec) (n : Nalu) : Bool :=
  match codec with
  | .h264 => n.kind .h264 = .slice ∧ m.h264SpsPpsSent
  | .h265 => (n.kind .h265 = .slice ∨
      n.kind .h265 = .other ∧ ¬ (n.hevcType = 39 ∨ n.hevcType = 40 ∨ n.hevcType = 35)) ∧
      m.vpsSpsPpsSent

/-- The connection may be closed when the message behind `i` others cannot be sent: no change of
H.264 parameter sets is under way, none of H.265 are stored, and the frames that wait have
sequence headers that wait in front of them. -/
def MayClose (m : SrsGbMuxer) (dts : ℕ) (p : Packet) (i : ℕ) : Prop :=
  m.h264SpsChanged = false ∧ m.h264PpsChanged = false ∧
    m.h265Vps = [] ∧ m.h265Sps = [] ∧ m.h265Pps = [] ∧
    selfLed (videos ((m.queue.push dts p).msgs.drop (i + 1))).reverse = true

instance (m : SrsGbMuxer) (dts : ℕ) (p : Packet) (i : ℕ) : Decidable (MayClose m dts p i) := by
  unfold MayClose; infer_instance

/-- The condition for muxing a NALU with `rest` behind it. -/
structure CarefulNalu (r : Run) (parsed : Bool) (fails : Option ℕ) (n : Nalu)
    (rest : List Nalu) : Prop where
  /-- packets leave the queue in the order in which they came -/
  order : writesHeader r.muxer r.codec n = true ∨ writesFrame r.muxer r.codec n = true →
    InOrder r.muxer.queue r.dts
  /-- an SPS has four bytes -/
  sps : n.kind r.codec = .sps → 4 ≤ n.bytes.length
  /-- nothing that is needed is behind a NALU that ends the loop -/
  refused : refuses r.muxer r.codec n = true → ∀ n' ∈ rest, n'.kind r.codec = .other ∨
    n'.kind r.codec = .slice ∧ headerSent r.muxer r.codec = false
  /-- a frame does not follow a change of one of the H.264 parameter sets alone -/
  changed : r.codec = .h264 → writesFrame r.muxer .h264 n = true →
    r.muxer.h264SpsChanged = false ∧ r.muxer.h264PpsChanged = false
  /-- the H.265 parameter sets can be parsed -/
  parsed : r.codec = .h265 → writesHeader r.muxer .h265 n = true → parsed = true
  /-- a packet that cannot be sent finds a state in which the connection may be closed -/
  close : ∀ i ∈ fails, r.codec = .h264 ∧ writesFrame r.muxer .h264 n = true ∧
    MayClose r.muxer r.dts (.frame .h264 n (((r.hear n).latest) .h264)) i

def Careful (r : Run) : Action → Prop
  | .video _ _ _ _ => True
  | .nalu parsed fails =>
    match r.pending with
    | [] => True
    | n :: rest => CarefulNalu r parsed fails n rest
  | .audio dts connects fails => r.muxer.connected = true ∨ connects = true →
    Free r.muxer.queue dts ∧ ∀ i ∈ fails, MayClose r.muxer dts .audio i

theorem carefulNalu_iff (r : Run) (parsed : Bool) (fails : Option ℕ) (n : Nalu)
    (rest : List Nalu) : CarefulNalu r parsed fails n rest ↔
      ((writesHeader r.muxer r.codec n = true ∨ writesFrame r.muxer r.codec n = true →
        InOrder r.muxer.queue r.dts) ∧
      (n.kind r.codec = .sps → 4 ≤ n.bytes.length) ∧
      (refuses r.muxer r.codec n = true → ∀ n' ∈ rest, n'.kind r.codec = .other ∨
        n'.kind r.codec = .slice ∧ headerSent r.muxer r.codec = false) ∧
      (r.codec = .h264 → writesFrame r.muxer .h264 n = true →
        r.muxer.h264SpsChanged = false ∧ r.muxer.h264PpsChanged = false) ∧
      (r.codec = .h265 → writesHeader r.muxer .h265 n = true → parsed = true) ∧
      ∀ i ∈ fails, r.codec = .h264 ∧ writesFrame r.muxer .h264 n = true ∧
        MayClose r.muxer r.dts (.frame .h264 n (((r.hear n).latest) .h264)) i) :=
  ⟨fun h => ⟨h.order, h.sps, h.refused, h.changed, h.parsed, h.close⟩,
    fun h => ⟨h.1, h.2.1, h.2.2.1, h.2.2.2.1, h.2.2.2.2.1, h.2.2.2.2.2⟩⟩

instance (r : Run) (parsed : Bool) (fails : Option ℕ) (n : Nalu) (rest : List Nalu) :
    Decidable (CarefulNalu r parsed fails n rest) :=
  decidable_of_iff _ (carefulNalu_iff r parsed fails n rest).symm

instance (r : Run) (a : Action) : Decidable (Careful r a) := by
  cases a with
  | video codec dts nalus connects => exact inferInstanceAs (Decidable True)
  | nalu parsed fails =>
    unfold Careful
    dsimp only
    split <;> infer_instance
  | audio dts connects fails => unfold Careful; infer_instance

/-! ## Frames and their headers -/

theorem led_nil : Led [] := by
  intro newer codec nalu latest older h
  cases newer <;> cases h

variable {codec : Codec}

theorem led_frame {nalu : Nalu} {latest : Sets} {older : List Packet}
    (hlast : lastHeader codec older = some latest) (h : Led older) :
    Led (.frame codec nalu latest :: older) := by
  intro newer codec' nalu' latest' older' heq
  cases newer with
  | nil =>
    cases heq
    exact hlast
  | cons p newer =>
    cases heq
    exact h newer codec' nalu' latest' older' rfl

theorem led_header {sets : Sets} {older : List Packet} (h : Led older) :
    Led (.header codec sets :: older) := by
  intro newer codec' nalu' latest' older' heq
  cases newer with
  | nil => cases heq
  | cons p newer =>
    cases heq
    exact h newer codec' nalu' latest' older' rfl

/-- What was sent first is led by itself. -/
theorem Led.older {newer older : List Packet} (h : Led (newer ++ older)) : Led older := by
  intro newer' codec nalu latest older' heq
  apply h (newer ++ newer') codec nalu latest older'
  rw [heq, List.append_assoc]

variable {p : Packet}

theorem Led.tail {older : List Packet} (h : Led (p :: older)) : Led older :=
  @Led.older [p] older h

/-- A header in front of the frame is the last header, whatever was in front of that. -/
theorem lastHeader_append {newer : List Packet} (older : List Packet)
    (h : (lastHeader codec newer).isSome = true) :
    lastHeader codec (newer ++ older) = lastHeader codec newer := by
  induction newer with
  | nil => cases h
  | cons p newer ih =>
    cases p with
    | audio => exact ih h
    | frame codec' nalu latest => exact ih h
    | header codec' sets =>
      unfold lastHeader at h
      rw [List.cons_append, lastHeader, lastHeader]
      split
      case isTrue => rfl
      case isFalse hne =>
        rw [if_neg hne] at h
        exact ih h

/-- What was sent last is led by itself when each of its frames has a header there. -/
theorem Led.newer {newer older : List Packet} (h : Led (newer ++ older))
    (hself : selfLed newer = true) : Led newer := by
  induction newer with
  | nil => exact led_nil
  | cons p newer ih =>
    cases p with
    | audio =>
      have htail := ih h.tail hself
      intro newer' codec nalu latest older' heq
      cases newer' with
      | nil => cases heq
      | cons p newer' =>
        cases heq
        exact htail newer' codec nalu latest older' rfl
    | header codec sets => exact led_header (ih h.tail hself)
    | frame codec nalu latest =>
      unfold selfLed at hself
      rw [Bool.and_eq_true] at hself
      have hlast := h [] codec nalu latest (newer ++ older) rfl
      rw [lastHeader_append older hself.1] at hlast
      exact led_frame hlast (ih h.tail hself.2)

/-! ## Writing a packet -/

/-- The video packets of the open connection, the last first: those that wait, and those that
were sent. -/
def onConnection (m : SrsGbMuxer) : List Packet := (videos m.queue.msgs).reverse ++ m.sent

/-- The packet as a part of the video. -/
def videoPart (p : Packet) : List Packet := if p.isVideo then [p] else []

/-- The muxer has handed a packet to the queue, and sent what was ready. -/
structure Wrote (m : SrsGbMuxer) (p : Packet) (m' : SrsGbMuxer) : Prop where
  same : m' = { m with queue := m'.queue, handed := m'.handed, sent := m'.sent }
  queue : QueueOk m'.queue
  order : onConnection m' = videoPart p ++ onConnection m
  handed : m'.handed = videoPart p ++ m.handed

variable {m : SrsGbMuxer}

variable {dts : ℕ}

theorem wrote_log (hq : QueueOk m.queue)
    (hfree : Free m.queue dts) (horder : p.isVideo = true → InOrder m.queue dts)
    {sent : List Packet} {queue : SrsMpegpsQueue} (hok : QueueOk queue)
    (hsent : sent ++ queue.msgs.map Prod.snd = (m.queue.push dts p).msgs.map Prod.snd) :
    Wrote m p (logSent (logHanded m p) sent queue) := by
  have hvideos : videos (m.queue.push dts p).msgs = videos m.queue.msgs ++ videoPart p := by
    unfold videoPart
    cases hp : p.isVideo with
    | true => exact videos_push_video hq (horder hp) hp
    | false =>
      cases p with
      | audio =>
        rw [videos_push_audio hq hfree]
        exact (List.append_nil _).symm
      | header codec sets => cases hp
      | frame codec nalu latest => cases hp
  refine ⟨rfl, hok, ?_, ?_⟩
  · show (videos queue.msgs).reverse ++ ((sent.filter Packet.isVideo).reverse ++ m.sent) = _
    have hall : sent.filter Packet.isVideo ++ videos queue.msgs =
        videos (m.queue.push dts p).msgs := by
      unfold videos
      rw [← List.filter_append, hsent]
    have hpart : (videoPart p).reverse = videoPart p := by
      unfold videoPart
      split <;> rfl
    rw [← List.append_assoc, ← List.reverse_append, hall, hvideos, List.reverse_append, hpart,
      List.append_assoc]
    rfl
  · show (if p.isVideo then p :: m.handed else m.handed) = videoPart p ++ m.handed
    unfold videoPart
    split <;> rfl

variable {fails : Option ℕ}

theorem write_cases (hq : QueueOk m.queue)
    (hfree : Free m.queue dts) (horder : p.isVideo = true → InOrder m.queue dts)
    {w : Write} (h : rtmpWritePacket m dts p fails = some w) :
    (∃ m', w = .ok m' ∧ fails = none ∧ Wrote m p m') ∨
    ∃ m' i, w = .failed m'.close ∧ fails = some i ∧ Wrote m p m' ∧
      m'.queue.msgs = (m.queue.push dts p).msgs.drop (i + 1) := by
  obtain ⟨d, hd, rfl⟩ := Option.map_eq_some_iff.mp h
  cases drained (hq.push hfree p) hd with
  | done none ok order => exact .inl ⟨_, rfl, none, wrote_log hq hfree horder ok order⟩
  | failed some ok order behind =>
    exact .inr ⟨_, _, rfl, some, wrote_log hq hfree horder ok order, behind⟩

/-! ## The invariant -/

/-- What the muxer knows of H.264: `last` is the last sequence header on the open connection, `L`
the parameter sets that were received last, and `C` those of the open connection. -/
structure AvcInv (m : SrsGbMuxer) (last : Option Sets) (L C : Sets) : Prop where
  sps : C.sps = m.h264Sps
  pps : C.pps = m.h264Pps
  spsLatest : m.h264Sps ≠ [] → L.sps = m.h264Sps
  ppsLatest : m.h264Pps ≠ [] → L.pps = m.h264Pps
  vpsLatest : L.vps = []
  spsChanged : m.h264SpsChanged = true → m.h264Sps ≠ []
  ppsChanged : m.h264PpsChanged = true → m.h264Pps ≠ []
  notBoth : m.h264SpsChanged = false ∨ m.h264PpsChanged = false
  unsent : m.h264SpsPpsSent = false → (m.h264Sps ≠ [] → m.h264SpsChanged = true) ∧
    (m.h264Pps ≠ [] → m.h264PpsChanged = true)
  sent : m.h264SpsPpsSent = true → m.h264Sps ≠ [] ∧ m.h264Pps ≠ [] ∧
    (m.h264SpsChanged = false → m.h264PpsChanged = false →
      last = some ⟨[], m.h264Sps, m.h264Pps⟩)
  spsLength : m.h264Sps ≠ [] → 4 ≤ m.h264Sps.length

/-- The same for H.265. -/
structure HevcInv (m : SrsGbMuxer) (last : Option Sets) (L C : Sets) : Prop where
  conn : C = ⟨m.h265Vps, m.h265Sps, m.h265Pps⟩
  vpsLatest : m.h265Vps ≠ [] → L.vps = m.h265Vps
  spsLatest : m.h265Sps ≠ [] → L.sps = m.h265Sps
  ppsLatest : m.h265Pps ≠ [] → L.pps = m.h265Pps
  done : m.h265Vps ≠ [] → m.h265Sps ≠ [] → m.h265Pps ≠ [] → m.vpsSpsPpsSent = true
  sent : m.vpsSpsPpsSent = true → m.h265Vps ≠ [] ∧ m.h265Sps ≠ [] ∧ m.h265Pps ≠ [] ∧
    last = some ⟨m.h265Vps, m.h265Sps, m.h265Pps⟩

/-- What holds of the muxer, with the parameter sets received at all and on the connection. -/
structure Good (m : SrsGbMuxer) (latest onConn : Codec → Sets) : Prop where
  queue : QueueOk m.queue
  led : Led (onConnection m)
  past : ∀ conn ∈ m.past, Led conn
  handed : m.handed = onConnection m ++ m.past.flatten
  avc : AvcInv m (lastHeader .h264 (onConnection m)) (latest .h264) (onConn .h264)
  hevc : HevcInv m (lastHeader .h265 (onConnection m)) (latest .h265) (onConn .h265)

structure Inv (r : Run) : Prop where
  good : Good r.muxer r.latest r.onConn
  kept : r.lost = []
  alive : r.aborted = false
  idle : r.muxer.connected = false →
    r.muxer.sent = [] ∧ r.pending = [] ∧ r.onConn = fun _ => {}

variable {r : Run}

theorem Inv.decodable (h : Inv r) : Decodable r := by
  refine ⟨?_, h.kept, h.good.handed, h.alive⟩
  intro conn hconn
  cases List.mem_cons.mp hconn with
  | inl hsent =>
    rw [hsent]
    exact h.good.led.older
  | inr hpast => exact h.good.past conn hpast

theorem inv_init : Inv Run.init := by
  refine ⟨⟨?_, led_nil, ?_, rfl, ?_, ?_⟩, rfl, rfl, fun _ => ⟨rfl, rfl, rfl⟩⟩
  · exact ⟨List.Pairwise.nil, rfl, rfl⟩
  · intro conn h
    cases h
  · constructor <;> simp [Run.init, SrsGbMuxer.new]
  · constructor <;> simp [Run.init, SrsGbMuxer.new]

/-! A packet that was written leaves the fields of the muxer as they are. -/

variable {m' : SrsGbMuxer}

variable {L C : Sets}

theorem AvcInv.frame {last : Option Sets} (h : AvcInv m last L C)
    (hsame : m' = { m with queue := m'.queue, handed := m'.handed, sent := m'.sent }) :
    AvcInv m' last L C := by
  rw [hsame]
  exact ⟨h.sps, h.pps, h.spsLatest, h.ppsLatest, h.vpsLatest, h.spsChanged, h.ppsChanged,
    h.notBoth, h.unsent, h.sent, h.spsLength⟩

theorem HevcInv.frame {last : Option Sets} (h : HevcInv m last L C)
    (hsame : m' = { m with queue := m'.queue, handed := m'.handed, sent := m'.sent }) :
    HevcInv m' last L C := by
  rw [hsame]
  exact ⟨h.conn, h.vpsLatest, h.spsLatest, h.ppsLatest, h.done, h.sent⟩

theorem Wrote.past (h : Wrote m p m') : m'.past = m.past := by
  rw [h.same]

theorem Wrote.connected (h : Wrote m p m') : m'.connected = m.connected := by
  rw [h.same]

variable {n : Nalu}

/-- What the connection shows after a packet. -/
theorem Wrote.lastHeader_frame {s : Sets} (h : Wrote m (.frame codec n s) m') (c : Codec) :
    lastHeader c (onConnection m') = lastHeader c (onConnection m) := by
  rw [h.order]
  rfl

theorem Wrote.lastHeader_audio (h : Wrote m .audio m') (c : Codec) :
    lastHeader c (onConnection m') = lastHeader c (onConnection m) := by
  rw [h.order]
  rfl

theorem Wrote.lastHeader_header {s : Sets}
    (h : Wrote m (.header codec s) m') (c : Codec) : lastHeader c (onConnection m') =
      if codec = c then some s else lastHeader c (onConnection m) := by
  rw [h.order]
  rfl

/-- A packet that keeps the connection led: a header, audio, or a frame that follows its header. -/
def Follows (m : SrsGbMuxer) : Packet → Prop
  | .frame codec _ latest => lastHeader codec (onConnection m) = some latest
  | _ => True

theorem Wrote.led (h : Wrote m p m') (hled : Led (onConnection m))
    (hp : Follows m p) : Led (onConnection m') := by
  rw [h.order]
  cases p with
  | audio => exact hled
  | header codec sets => exact led_header hled
  | frame codec nalu latest => exact led_frame hp hled

theorem Wrote.allHanded (h : Wrote m p m') (hm : m.handed = onConnection m ++ m.past.flatten) :
    m'.handed = onConnection m' ++ m'.past.flatten := by
  rw [h.handed, h.order, h.past, hm, List.append_assoc]

variable {latest onConn : Codec → Sets}

/-- A frame or a packet of audio keeps all that is known. -/
theorem Good.wrote (h : Good m latest onConn) (hw : Wrote m p m') (hp : Follows m p)
    (hlast : ∀ c, lastHeader c (onConnection m') = lastHeader c (onConnection m)) :
    Good m' latest onConn := by
  refine ⟨hw.queue, hw.led h.led hp, ?_, hw.allHanded h.handed, ?_, ?_⟩
  · rw [hw.past]
    exact h.past
  · rw [hlast]
    exact h.avc.frame hw.same
  · rw [hlast]
    exact h.hevc.frame hw.same

/-- The connection is closed after a packet that could not be sent. -/
theorem Good.broken {i : ℕ}
    (h : Good m latest onConn) (hw : Wrote m p m') (hp : Follows m p) (hclose : MayClose m dts p i)
    (hbehind : m'.queue.msgs = (m.queue.push dts p).msgs.drop (i + 1)) :
    Good m'.close latest fun _ => {} := by
  obtain ⟨hsps, hpps, hvps5, hsps5, hpps5, hself⟩ := hclose
  have hled : Led (onConnection m') := hw.led h.led hp
  have honly : onConnection m'.close = (videos m'.queue.msgs).reverse := List.append_nil _
  refine ⟨hw.queue, ?_, ?_, ?_, ?_, ?_⟩
  · rw [honly]
    refine @Led.newer _ m'.sent hled ?_
    rw [hbehind]
    exact hself
  · intro conn hconn
    cases List.mem_cons.mp hconn with
    | inl hsent =>
      rw [hsent]
      exact hled.older
    | inr hpast => exact h.past conn (hw.past ▸ hpast)
  · have hhanded := hw.allHanded h.handed
    show m'.handed = onConnection m'.close ++ (m'.sent :: m'.past).flatten
    rw [hhanded, honly, onConnection, List.flatten_cons, List.append_assoc]
  · have hflags : m'.h264SpsChanged = false ∧ m'.h264PpsChanged = false := by
      rw [hw.same]
      exact ⟨hsps, hpps⟩
    refine ⟨rfl, rfl, fun hne => absurd rfl hne, fun hne => absurd rfl hne, h.avc.vpsLatest,
      ?_, ?_, .inl hflags.1, fun _ => ⟨fun hne => absurd rfl hne, fun hne => absurd rfl hne⟩, ?_,
      fun hne => absurd rfl hne⟩
    · intro hchanged
      exact absurd (hchanged.symm.trans hflags.1) Bool.noConfusion
    · intro hchanged
      exact absurd (hchanged.symm.trans hflags.2) Bool.noConfusion
    · intro hsent
      cases hsent
  · have hstored : m'.h265Vps = [] ∧ m'.h265Sps = [] ∧ m'.h265Pps = [] := by
      rw [hw.same]
      exact ⟨hvps5, hsps5, hpps5⟩
    obtain ⟨hv, hs, hp5⟩ := hstored
    have hnot : m'.vpsSpsPpsSent = false := by
      apply Bool.eq_false_iff.mpr
      intro hsent
      have hold : m.vpsSpsPpsSent = true := by
        rw [hw.same] at hsent
        exact hsent
      exact (h.hevc.sent hold).1 hvps5
    refine ⟨?_, fun hne => absurd hv hne, fun hne => absurd hs hne, fun hne => absurd hp5 hne,
      fun hne => absurd hv hne, fun hsent => ?_⟩
    · show ({} : Sets) = ⟨m'.h265Vps, m'.h265Sps, m'.h265Pps⟩
      rw [hv, hs, hp5]
    · exact absurd (hsent.symm.trans hnot) Bool.noConfusion

/-! ## Muxing a NALU -/

/-- A NALU that is no parameter set changes nothing of what was received. -/
theorem hear_other {s : Sets}
    (h : n.kind codec = .slice ∨ n.kind codec = .other) : s.hear codec n = s := by
  unfold Sets.hear
  cases h with
  | inl hslice => rw [hslice]
  | inr hother => rw [hother]

theorem run_hear_other (h : n.kind r.codec = .slice ∨ n.kind r.codec = .other) : r.hear n = r := by
  unfold Run.hear
  rw [hear_other h, hear_other h, Function.update_eq_self, Function.update_eq_self, ite_self]

/-- The outcomes of muxing a NALU of a careful run. -/
inductive Muxed (r : Run) (n : Nalu) : Step → Prop
  | goOn {m : SrsGbMuxer} (connected : m.connected = true)
      (good : Good m (r.hear n).latest (r.hear n).onConn) : Muxed r n (.goOn m)
  | refused (refuses : refuses r.muxer r.codec n = true) : Muxed r n (.refused r.muxer)
  | broken {m : SrsGbMuxer} (closed : m.connected = false) (nothing : m.sent = [])
      (good : Good m (r.hear n).latest fun _ => {}) : Muxed r n (.broken m)

/-- In a step that sends nothing, no message can fail to be sent. -/
theorem unsent_eq {s t : Step} (h : unsent fails s = some t) : t = s := by
  unfold unsent at h
  split at h
  · exact (Option.some.inj h).symm
  · cases h

theorem nalu_bytes_ne (n : Nalu) : n.bytes ≠ [] := List.cons_ne_nil _ _

theorem spsDemux_of_le (h : 4 ≤ n.bytes.length) : spsDemux n = n.bytes :=
  if_neg (not_lt.mpr h)

section Avc

variable {m : SrsGbMuxer} {last : Option Sets} {L C : Sets} {b : List UInt8}

/-- A parameter set that is stored already. -/
theorem AvcInv.sameSps (h : AvcInv m last L C) (hb : m.h264Sps = b) :
    AvcInv m last { L with sps := b } { C with sps := b } :=
  ⟨hb.symm, h.pps, fun _ => hb.symm, h.ppsLatest, h.vpsLatest, h.spsChanged, h.ppsChanged,
    h.notBoth, h.unsent, h.sent, h.spsLength⟩

theorem AvcInv.samePps (h : AvcInv m last L C) (hb : m.h264Pps = b) :
    AvcInv m last { L with pps := b } { C with pps := b } :=
  ⟨h.sps, hb.symm, h.spsLatest, fun _ => hb.symm, h.vpsLatest, h.spsChanged, h.ppsChanged,
    h.notBoth, h.unsent, h.sent, h.spsLength⟩

/-- A new SPS, while no new PPS waits for one. -/
theorem AvcInv.newSps (h : AvcInv m last L C) (hb : 4 ≤ b.length)
    (hpps : m.h264PpsChanged = false) :
    AvcInv { m with h264SpsChanged := true, h264Sps := b } last { L with sps := b }
      { C with sps := b } := by
  have hne : b ≠ [] := List.ne_nil_of_length_pos (by omega)
  refine ⟨rfl, h.pps, fun _ => rfl, h.ppsLatest, h.vpsLatest, fun _ => hne, h.ppsChanged,
    .inr hpps, fun hsent => ⟨fun _ => rfl, (h.unsent hsent).2⟩, fun hsent => ?_, fun _ => hb⟩
  refine ⟨hne, (h.sent hsent).2.1, fun hchanged => ?_⟩
  cases hchanged

theorem AvcInv.newPps (h : AvcInv m last L C) (hb : b ≠ []) (hsps : m.h264SpsChanged = false) :
    AvcInv { m with h264PpsChanged := true, h264Pps := b } last { L with pps := b }
      { C with pps := b } := by
  refine ⟨h.sps, rfl, h.spsLatest, fun _ => rfl, h.vpsLatest, h.spsChanged, fun _ => hb,
    .inl hsps, fun hsent => ⟨(h.unsent hsent).1, fun _ => rfl⟩, fun hsent => ?_, h.spsLength⟩
  refine ⟨(h.sent hsent).1, hb, fun _ hchanged => ?_⟩
  cases hchanged

/-- The sequence header with both parameter sets has been written. -/
theorem AvcInv.headerSent {m' : SrsGbMuxer} (hsame : m' = { m with
      queue := m'.queue, handed := m'.handed, sent := m'.sent })
    (hsps : C.sps = m.h264Sps) (hpps : C.pps = m.h264Pps) (hspsL : L.sps = m.h264Sps)
    (hppsL : L.pps = m.h264Pps) (hvps : L.vps = []) (hsps0 : 4 ≤ m.h264Sps.length)
    (hpps0 : m.h264Pps ≠ []) (hlast : last = some ⟨[], m.h264Sps, m.h264Pps⟩) :
    AvcInv { m' with
      h264SpsChanged := false, h264PpsChanged := false, h264SpsPpsSent := true } last L C := by
  rw [hsame]
  have hne : m.h264Sps ≠ [] := List.ne_nil_of_length_pos (by omega)
  refine ⟨hsps, hpps, fun _ => hspsL, fun _ => hppsL, hvps, ?_, ?_, .inl rfl, ?_, fun _ =>
    ⟨hne, hpps0, fun _ _ => hlast⟩, fun _ => hsps0⟩
  · intro hchanged
    cases hchanged
  · intro hchanged
    cases hchanged
  · intro hsent
    cases hsent

end Avc

/-- Changes of the fields of H.264 leave what is known of H.265. -/
theorem Good.avcFields (h : Good m latest onConn) (hqueue : m'.queue = m.queue)
    (hsent : m'.sent = m.sent) (hpast : m'.past = m.past) (hhanded : m'.handed = m.handed)
    (havc : AvcInv m' (lastHeader .h264 (onConnection m)) L C)
    (hhevc : HevcInv m' (lastHeader .h265 (onConnection m)) (latest .h265) (onConn .h265)) :
    Good m' (update latest .h264 L) (update onConn .h264 C) := by
  have honConn : onConnection m' = onConnection m := by
    unfold onConnection
    rw [hqueue, hsent]
  refine ⟨hqueue ▸ h.queue, honConn ▸ h.led, hpast ▸ h.past, ?_, ?_, ?_⟩
  · rw [hhanded, honConn, hpast, h.handed]
  · rw [honConn, update_self, update_self]
    exact havc
  · rw [honConn, update_of_ne (by decide), update_of_ne (by decide)]
    exact hhevc

/-- Both H.264 parameter sets are new: the sequence header is written. -/
theorem Good.avcHeader {m₁ : SrsGbMuxer}
    (h : Good m latest onConn) (hw : Wrote m₁ (.header .h264 ⟨[], m₁.h264Sps, m₁.h264Pps⟩) m')
    (hfields : m₁ = { m with
      h264SpsChanged := m₁.h264SpsChanged, h264PpsChanged := m₁.h264PpsChanged
      h264Sps := m₁.h264Sps, h264Pps := m₁.h264Pps })
    (hsps : C.sps = m₁.h264Sps) (hpps : C.pps = m₁.h264Pps) (hspsL : L.sps = m₁.h264Sps)
    (hppsL : L.pps = m₁.h264Pps) (hvps : L.vps = []) (hsps0 : 4 ≤ m₁.h264Sps.length)
    (hpps0 : m₁.h264Pps ≠ []) :
    Good { m' with h264SpsChanged := false, h264PpsChanged := false, h264SpsPpsSent := true }
      (update latest .h264 L) (update onConn .h264 C) := by
  have honConn : onConnection m₁ = onConnection m := by rw [hfields]; rfl
  have hled : Led (onConnection m') := hw.led (honConn ▸ h.led) trivial
  have hall := hw.allHanded (show m₁.handed = onConnection m₁ ++ m₁.past.flatten by
    rw [honConn, hfields]
    exact h.handed)
  refine ⟨hw.queue, hled, ?_, hall, ?_, ?_⟩
  · show ∀ conn ∈ m'.past, Led conn
    rw [hw.past, hfields]
    exact h.past
  · rw [update_self, update_self]
    refine AvcInv.headerSent hw.same hsps hpps hspsL hppsL hvps hsps0 hpps0 ?_
    exact (hw.lastHeader_header .h264).trans (if_pos rfl)
  · rw [update_of_ne (by decide), update_of_ne (by decide)]
    have hlast : lastHeader .h265 (onConnection m') = lastHeader .h265 (onConnection m) := by
      rw [hw.lastHeader_header, if_neg (by decide), honConn]
    have hold : HevcInv m₁ (lastHeader .h265 (onConnection m)) (latest .h265) (onConn .h265) := by
      rw [hfields]
      exact ⟨h.hevc.conn, h.hevc.vpsLatest, h.hevc.spsLatest, h.hevc.ppsLatest, h.hevc.done,
        h.hevc.sent⟩
    have hnew := hold.frame hw.same
    show HevcInv _ (lastHeader .h265 (onConnection m')) _ _
    rw [hlast]
    exact ⟨hnew.conn, hnew.vpsLatest, hnew.spsLatest, hnew.ppsLatest, hnew.done, hnew.sent⟩

section Heard

variable {r : Run} {n : Nalu}

theorem hear_latest {codec : Codec} (hcodec : r.codec = codec) :
    (r.hear n).latest = update r.latest codec ((r.latest codec).hear codec n) := by
  rw [Run.hear, hcodec]

theorem hear_onConn {codec : Codec} (hcodec : r.codec = codec)
    (hconnected : r.muxer.connected = true) :
    (r.hear n).onConn = update r.onConn codec ((r.onConn codec).hear codec n) := by
  rw [Run.hear, hcodec, hconnected, if_pos rfl]

end Heard

variable {parsed : Bool} {rest : List Nalu}

/-- A header that is written in a careful run is also sent. -/
theorem CarefulNalu.no_failure (h : CarefulNalu r parsed fails n rest)
    (hframe : writesFrame r.muxer .h264 n = false) (i : ℕ) : fails ≠ some i := by
  intro hfails
  have hclose := (h.close i hfails).2.1
  rw [hframe] at hclose
  cases hclose

/-- The write of the H.264 sequence header, where the parameter sets are new. -/
theorem writeH264SpsPps_muxed
    {m₁ : SrsGbMuxer} {st : Step} (h : Good r.muxer r.latest r.onConn)
    (hconnected : r.muxer.connected = true) (hcodec : r.codec = .h264)
    (hc : CarefulNalu r parsed fails n rest) (hframe : writesFrame r.muxer .h264 n = false)
    (hheader : m₁.h264SpsChanged = true → m₁.h264PpsChanged = true →
      writesHeader r.muxer .h264 n = true ∧ 4 ≤ m₁.h264Sps.length ∧ m₁.h264Pps ≠ [])
    (hfields : m₁ = { r.muxer with
      h264SpsChanged := m₁.h264SpsChanged, h264PpsChanged := m₁.h264PpsChanged
      h264Sps := m₁.h264Sps, h264Pps := m₁.h264Pps })
    (hone : m₁.h264SpsChanged = false ∨ m₁.h264PpsChanged = false →
      Good m₁ (r.hear n).latest (r.hear n).onConn)
    (hC : ((r.onConn .h264).hear .h264 n) = ⟨(r.onConn .h264).vps, m₁.h264Sps, m₁.h264Pps⟩)
    (hL : m₁.h264SpsChanged = true → m₁.h264PpsChanged = true →
      ((r.latest .h264).hear .h264 n) = ⟨[], m₁.h264Sps, m₁.h264Pps⟩)
    (hwrite : writeH264SpsPps m₁ r.dts fails = some st) : Muxed r n st := by
  have hsame : m₁.connected = true ∧ m₁.queue = r.muxer.queue := by
    rw [hfields]
    exact ⟨hconnected, rfl⟩
  unfold writeH264SpsPps at hwrite
  split at hwrite
  case isTrue hflags =>
    rw [unsent_eq hwrite]
    refine .goOn hsame.1 (hone ?_)
    simpa using hflags
  case isFalse hflags =>
    have hboth : m₁.h264SpsChanged = true ∧ m₁.h264PpsChanged = true := by simpa using hflags
    obtain ⟨hwrites, hlength, hpps⟩ := hheader hboth.1 hboth.2
    rw [if_neg (not_lt.mpr hlength)] at hwrite
    obtain ⟨w, hw, rfl⟩ := Option.map_eq_some_iff.mp hwrite
    have horder : InOrder m₁.queue r.dts := by
      rw [hsame.2]
      exact hc.order (.inl (hcodec ▸ hwrites))
    cases write_cases (hsame.2 ▸ h.queue) horder.1 (fun _ => horder) hw with
    | inl hok =>
      obtain ⟨m', rfl, -, hwrote⟩ := hok
      refine .goOn (hwrote.connected.trans hsame.1) ?_
      rw [hear_latest hcodec, hear_onConn hcodec hconnected]
      have hLeq := hL hboth.1 hboth.2
      exact h.avcHeader hwrote hfields (by rw [hC]) (by rw [hC]) (by rw [hLeq]) (by rw [hLeq])
        (by rw [hLeq]) hlength hpps
    | inr hfailed =>
      obtain ⟨m', i, -, hfails, -, -⟩ := hfailed
      exact absurd hfails (hc.no_failure hframe i)

theorem kind_avc_sps (h : n.avcType = 7) : n.kind .h264 = .sps := by
  unfold Nalu.kind
  rw [h]
  rfl

theorem kind_avc_pps (h : n.avcType = 8) : n.kind .h264 = .pps := by
  unfold Nalu.kind
  rw [h]
  rfl

theorem muxH264_muxed
    {st : Step} (h : Good r.muxer r.latest r.onConn) (hconnected : r.muxer.connected = true)
    (hcodec : r.codec = .h264) (hc : CarefulNalu r parsed fails n rest)
    (hmux : muxH264 r.muxer r.dts n ((r.hear n).latest .h264) fails = some st) :
    Muxed r n st := by
  unfold muxH264 at hmux
  dsimp only at hmux
  split at hmux
  case isTrue hunknown =>
    rw [unsent_eq hmux]
    refine .refused ?_
    unfold refuses
    rw [hcodec]
    exact decide_eq_true (.inl hunknown)
  case isFalse hknown =>
  split at hmux
  case isTrue hother =>
    -- SEI and access unit delimiters
    rw [unsent_eq hmux]
    have hkind : n.kind .h264 = .other := by
      unfold Nalu.kind
      cases hother with
      | inl hsei => rw [hsei]; rfl
      | inr haud => rw [haud]; rfl
    refine .goOn hconnected ?_
    rw [run_hear_other (.inr (hcodec ▸ hkind))]
    exact h
  case isFalse hnotOther =>
  split at hmux
  case isTrue hnt =>
    have hkind := kind_avc_sps hnt
    have hfour : 4 ≤ n.bytes.length := hc.sps (hcodec ▸ hkind)
    have hhear : ∀ s : Sets, s.hear .h264 n = { s with sps := n.bytes } := by
      intro s
      rw [Sets.hear, hkind]
    have hframe : writesFrame r.muxer .h264 n = false := by
      unfold writesFrame
      rw [hkind]
      rfl
    rw [spsDemux_of_le hfour] at hmux
    split at hmux
    case isTrue hold =>
      rw [unsent_eq hmux]
      refine .goOn hconnected ?_
      rw [hear_latest hcodec, hear_onConn hcodec hconnected, hhear, hhear]
      exact h.avcFields rfl rfl rfl rfl (h.avc.sameSps hold) h.hevc
    case isFalse hnew =>
      refine writeH264SpsPps_muxed h hconnected hcodec hc hframe ?_ rfl ?_ ?_ ?_ hmux
      · intro _ hpps
        refine ⟨?_, hfour, h.avc.ppsChanged hpps⟩
        unfold writesHeader
        rw [hkind]
        rw [← spsDemux_of_le hfour] at hnew
        exact decide_eq_true ⟨hnew, hpps⟩
      · intro hone
        have hpps : r.muxer.h264PpsChanged = false := by
          cases hone with
          | inl hsps => cases hsps
          | inr hpps => exact hpps
        rw [hear_latest hcodec, hear_onConn hcodec hconnected, hhear, hhear]
        refine h.avcFields rfl rfl rfl rfl (h.avc.newSps hfour hpps) ?_
        exact ⟨h.hevc.conn, h.hevc.vpsLatest, h.hevc.spsLatest, h.hevc.ppsLatest, h.hevc.done,
          h.hevc.sent⟩
      · rw [hhear, ← h.avc.pps]
      · intro _ hpps
        rw [hhear, h.avc.vpsLatest, h.avc.ppsLatest (h.avc.ppsChanged hpps)]
  case isFalse hnotSps =>
  split at hmux
  case isTrue hnt =>
    have hkind := kind_avc_pps hnt
    have hhear : ∀ s : Sets, s.hear .h264 n = { s with pps := n.bytes } := by
      intro s
      rw [Sets.hear, hkind]
    have hframe : writesFrame r.muxer .h264 n = false := by
      unfold writesFrame
      rw [hkind]
      rfl
    split at hmux
    case isTrue hold =>
      rw [unsent_eq hmux]
      refine .goOn hconnected ?_
      rw [hear_latest hcodec, hear_onConn hcodec hconnected, hhear, hhear]
      exact h.avcFields rfl rfl rfl rfl (h.avc.samePps hold) h.hevc
    case isFalse hnew =>
      refine writeH264SpsPps_muxed h hconnected hcodec hc hframe ?_ rfl ?_ ?_ ?_ hmux
      · intro hsps _
        refine ⟨?_, h.avc.spsLength (h.avc.spsChanged hsps), nalu_bytes_ne n⟩
        unfold writesHeader
        rw [hkind]
        exact decide_eq_true ⟨hnew, hsps⟩
      · intro hone
        have hsps : r.muxer.h264SpsChanged = false := by
          cases hone with
          | inl hsps => exact hsps
          | inr hpps => cases hpps
        rw [hear_latest hcodec, hear_onConn hcodec hconnected, hhear, hhear]
        refine h.avcFields rfl rfl rfl rfl (h.avc.newPps (nalu_bytes_ne n) hsps) ?_
        exact ⟨h.hevc.conn, h.hevc.vpsLatest, h.hevc.spsLatest, h.hevc.ppsLatest, h.hevc.done,
          h.hevc.sent⟩
      · rw [hhear, ← h.avc.sps]
      · intro hsps _
        rw [hhear, h.avc.vpsLatest, h.avc.spsLatest (h.avc.spsChanged hsps)]
  case isFalse hnotPps =>
    have hkind : n.kind .h264 = .slice := by
      have hslice : n.avcType = 1 ∨ n.avcType = 5 := by
        unfold avcKnown at hknown
        simp only [decide_eq_true_eq, not_not] at hknown
        omega
      unfold Nalu.kind
      cases hslice with
      | inl hp => rw [hp]; rfl
      | inr hidr => rw [hidr]; rfl
    have hsame : r.hear n = r := run_hear_other (.inl (hcodec ▸ hkind))
    unfold writeH264IpbFrame at hmux
    split at hmux
    case isTrue hunsent =>
      rw [unsent_eq hmux]
      refine .refused ?_
      unfold refuses
      rw [hcodec]
      exact decide_eq_true (.inr ⟨hkind, hunsent⟩)
    case isFalse hsent =>
      have hsent' : r.muxer.h264SpsPpsSent = true := not_not.mp hsent
      have hframe : writesFrame r.muxer .h264 n = true := decide_eq_true ⟨hkind, hsent'⟩
      obtain ⟨hspsFlag, hppsFlag⟩ := hc.changed hcodec hframe
      obtain ⟨hsps, hpps, hlast⟩ := h.avc.sent hsent'
      have hlatest : r.latest .h264 = ⟨[], r.muxer.h264Sps, r.muxer.h264Pps⟩ := by
        rw [← h.avc.spsLatest hsps, ← h.avc.ppsLatest hpps, ← h.avc.vpsLatest]
      have hfollows : Follows r.muxer (.frame .h264 n (r.latest .h264)) := by
        rw [hlatest]
        exact hlast hspsFlag hppsFlag
      have horder : InOrder r.muxer.queue r.dts := hc.order (.inr (hcodec ▸ hframe))
      rw [hsame] at hmux
      obtain ⟨w, hw, rfl⟩ := Option.map_eq_some_iff.mp hmux
      cases write_cases h.queue horder.1 (fun _ => horder) hw with
      | inl hok =>
        obtain ⟨m', rfl, -, hwrote⟩ := hok
        refine .goOn (hwrote.connected.trans hconnected) ?_
        rw [hsame]
        exact h.wrote hwrote hfollows hwrote.lastHeader_frame
      | inr hfailed =>
        obtain ⟨m', i, rfl, hfails, hwrote, hbehind⟩ := hfailed
        have hclose := (hc.close i hfails).2.2
        rw [hsame] at hclose
        refine .broken rfl rfl ?_
        rw [hsame]
        exact h.broken hwrote hfollows hclose hbehind

end SrsChatRoom.App.GbMuxer
