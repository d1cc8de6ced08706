import Mathlib.Tactic

/-!
# The muxer of GB28181 (`srs_app_gb28181.cpp`)

The video of a device comes in messages of NALUs, and is published on an RTMP connection: frames,
and in front of them a sequence header with the parameter sets. The packets pass a queue that
orders them by time and mixes them with the audio. When a packet cannot be sent the connection is
closed, and opened again for the next message.

Packets are not encoded here: a sequence header is its parameter sets, and a frame its NALU. Audio
is a packet without content. Whether a connection opens, whether a packet is sent, and whether the
parameter sets of H.265 can be parsed are parts of each step.
-/

namespace SrsChatRoom.App.GbMuxer

/-! ## NALUs -/

inductive Codec
  | h264
  | h265
deriving DecidableEq, Repr

/-- A NALU has a first byte, with its type. -/
structure Nalu where
  first : UInt8
  more : List UInt8
deriving DecidableEq, Repr

def Nalu.bytes (n : Nalu) : List UInt8 := n.first :: n.more

/-- `frame[0] & 0x1f` -/
def Nalu.avcType (n : Nalu) : ℕ := n.first.toNat % 32

/-- `SrsHevcNaluTypeParse(frame[0])` -/
def Nalu.hevcType (n : Nalu) : ℕ := n.first.toNat % 128 / 2

/-- The parameter sets of a stream, each empty while there is none. H.264 has no VPS. -/
structure Sets where
  vps : List UInt8 := []
  sps : List UInt8 := []
  pps : List UInt8 := []
deriving DecidableEq, Repr

/-- A packet of the connection. A frame is noted with the parameter sets that were received last
before it. -/
inductive Packet
  | audio
  | header (codec : Codec) (sets : Sets)
  | frame (codec : Codec) (nalu : Nalu) (latest : Sets)
deriving DecidableEq, Repr

def Packet.isAudio : Packet → Bool
  | .audio => true
  | _ => false

def Packet.isVideo (p : Packet) : Bool := !p.isAudio

/-! ## The queue -/

/-- `SrsMpegpsQueue`: the messages by their timestamps, in order. -/
structure SrsMpegpsQueue where
  nbAudios : ℤ
  nbVideos : ℤ
  msgs : List (ℕ × Packet)

namespace SrsMpegpsQueue

def new : SrsMpegpsQueue := ⟨0, 0, []⟩

/-- `msgs.find(timestamp) != msgs.end()` -/
def taken (q : SrsMpegpsQueue) (timestamp : ℕ) : Bool := (q.msgs.map Prod.fst).contains timestamp

/-- The first timestamp from `timestamp` on that is not taken, after at most `tries` steps. -/
def adjust (q : SrsMpegpsQueue) : ℕ → ℕ → ℕ
  | 0, timestamp => timestamp
  | tries + 1, timestamp =>
    if q.taken timestamp then q.adjust tries (timestamp + 1) else timestamp

/-- The timestamp of a message in the queue. -/
def slot (q : SrsMpegpsQueue) (timestamp : ℕ) : ℕ := q.adjust 10 timestamp

/-- `msgs[timestamp] = msg` -/
def assign (msgs : List (ℕ × Packet)) (timestamp : ℕ) (p : Packet) : List (ℕ × Packet) :=
  msgs.filter (fun e => e.1 < timestamp) ++ (timestamp, p) ::
    msgs.filter (fun e => timestamp < e.1)

/-- `push(msg)` -/
def push (q : SrsMpegpsQueue) (timestamp : ℕ) (p : Packet) : SrsMpegpsQueue where
  nbAudios := if p.isAudio then q.nbAudios + 1 else q.nbAudios
  nbVideos := if p.isVideo then q.nbVideos + 1 else q.nbVideos
  msgs := assign q.msgs (q.slot timestamp) p

/-- `av_ok || av_overflow` -/
def ready (nbAudios nbVideos : ℤ) : Bool :=
  (nbVideos ≥ 2 ∧ nbAudios ≥ 2) ∨ nbVideos > 100 ∨ nbAudios > 300

end SrsMpegpsQueue

/-- What came of sending the messages that are ready: all were sent, or the last of these could
not be sent, or there was no message where the counts said so. -/
inductive Drain
  | done (sent : List Packet) (queue : SrsMpegpsQueue)
  | failed (sent : List Packet) (queue : SrsMpegpsQueue)
  | fault

def Drain.prepend (p : Packet) : Drain → Drain
  | .done sent queue => .done (p :: sent) queue
  | .failed sent queue => .failed (p :: sent) queue
  | .fault => .fault

/-- The loop of `dequeue` and `send_and_free_message`. With `fails = some i` the message after `i`
others cannot be sent; there is no such run when fewer are ready. -/
def drain (fails : Option ℕ) (nbAudios nbVideos : ℤ) : List (ℕ × Packet) → Option Drain
  | [] =>
    if SrsMpegpsQueue.ready nbAudios nbVideos then some .fault
    else if fails = none then some (.done [] ⟨nbAudios, nbVideos, []⟩) else none
  | e :: msgs =>
    if SrsMpegpsQueue.ready nbAudios nbVideos then
      let nbAudios := if e.2.isAudio then nbAudios - 1 else nbAudios
      let nbVideos := if e.2.isVideo then nbVideos - 1 else nbVideos
      match fails with
      | some 0 => some (.failed [e.2] ⟨nbAudios, nbVideos, msgs⟩)
      | some (i + 1) => (drain (some i) nbAudios nbVideos msgs).map (Drain.prepend e.2)
      | none => (drain none nbAudios nbVideos msgs).map (Drain.prepend e.2)
    else if fails = none then some (.done [] ⟨nbAudios, nbVideos, e :: msgs⟩) else none

/-! ## The muxer -/

/-- `SrsGbMuxer`, with a log: the video packets that were handed to the queue, and for the open
connection and for those before it the video packets that were sent on it, the last first. -/
structure SrsGbMuxer where
  connected : Bool
  h264SpsChanged : Bool
  h264PpsChanged : Bool
  h264SpsPpsSent : Bool
  h264Sps : List UInt8
  h264Pps : List UInt8
  vpsSpsPpsChange : Bool
  vpsSpsPpsSent : Bool
  h265Vps : List UInt8
  h265Sps : List UInt8
  h265Pps : List UInt8
  queue : SrsMpegpsQueue
  handed : List Packet
  sent : List Packet
  past : List (List Packet)

namespace SrsGbMuxer

def new : SrsGbMuxer :=
  ⟨false, false, false, false, [], [], false, false, [], [], [], .new, [], [], []⟩

/-- `close()`. The AAC configuration is not a part of the model. -/
def close (m : SrsGbMuxer) : SrsGbMuxer :=
  { m with
    connected := false
    h264SpsPpsSent := false
    h264Sps := []
    h264Pps := []
    sent := []
    past := m.sent :: m.past }

end SrsGbMuxer

/-- What came of writing a packet. -/
inductive Write
  | ok (m : SrsGbMuxer)
  | failed (m : SrsGbMuxer)
  | fault

/-- The log with the packets that have been sent now. -/
def logSent (m : SrsGbMuxer) (sent : List Packet) (queue : SrsMpegpsQueue) : SrsGbMuxer :=
  { m with queue := queue, sent := (sent.filter Packet.isVideo).reverse ++ m.sent }

/-- The log with a packet for the queue. -/
def logHanded (m : SrsGbMuxer) (p : Packet) : SrsGbMuxer :=
  { m with handed := if p.isVideo then p :: m.handed else m.handed }

/-- `rtmp_write_packet` on an open connection. -/
def rtmpWritePacket (m : SrsGbMuxer) (dts : ℕ) (p : Packet) (fails : Option ℕ) : Option Write :=
  let queue := m.queue.push dts p
  (drain fails queue.nbAudios queue.nbVideos queue.msgs).map fun
    | .done sent queue => .ok (logSent (logHanded m p) sent queue)
    | .failed sent queue => .failed (logSent (logHanded m p) sent queue).close
    | .fault => .fault

/-- What came of a NALU: the loop goes on; it ends and no packet was written; a packet could not be
sent; or an assertion failed. -/
inductive Step
  | goOn (m : SrsGbMuxer)
  | refused (m : SrsGbMuxer)
  | broken (m : SrsGbMuxer)
  | fault

/-- A step in which nothing is sent. -/
def unsent (fails : Option ℕ) (s : Step) : Option Step := if fails = none then some s else none

/-- A step that ends with writing a packet. -/
def Write.step (after : SrsGbMuxer → SrsGbMuxer) : Write → Step
  | .ok m => .goOn (after m)
  | .failed m => .broken m
  | .fault => .fault

/-- `write_h264_sps_pps`. Muxing the sequence header asserts four bytes of SPS. -/
def writeH264SpsPps (m : SrsGbMuxer) (dts : ℕ) (fails : Option ℕ) : Option Step :=
  if ¬ m.h264SpsChanged ∨ ¬ m.h264PpsChanged then unsent fails (.goOn m)
  else if m.h264Sps.length < 4 then unsent fails .fault
  else (rtmpWritePacket m dts (.header .h264 ⟨[], m.h264Sps, m.h264Pps⟩) fails).map
    (Write.step fun m =>
      { m with h264SpsChanged := false, h264PpsChanged := false, h264SpsPpsSent := true })

/-- `write_h264_ipb_frame` -/
def writeH264IpbFrame (m : SrsGbMuxer) (dts : ℕ) (n : Nalu) (latest : Sets)
    (fails : Option ℕ) : Option Step :=
  if ¬ m.h264SpsPpsSent then unsent fails (.refused m)
  else (rtmpWritePacket m dts (.frame .h264 n latest) fails).map (Write.step id)

/-- `sps_demux`: an SPS of less than four bytes is read as an empty one. -/
def spsDemux (n : Nalu) : List UInt8 := if n.bytes.length < 4 then [] else n.bytes

/-- The types that `mux_h264` does not ignore. -/
def avcKnown (nt : ℕ) : Bool := nt = 7 ∨ nt = 8 ∨ nt = 5 ∨ nt = 1 ∨ nt = 6 ∨ nt = 9

/-- A round of the loop of `mux_h264`. A type that it ignores ends the loop. -/
def muxH264 (m : SrsGbMuxer) (dts : ℕ) (n : Nalu) (latest : Sets) (fails : Option ℕ) :
    Option Step :=
  let nt := n.avcType
  if ¬ avcKnown nt then unsent fails (.refused m)
  else if nt = 6 ∨ nt = 9 then unsent fails (.goOn m)
  else if nt = 7 then
    if m.h264Sps = spsDemux n then unsent fails (.goOn m)
    else writeH264SpsPps { m with h264SpsChanged := true, h264Sps := spsDemux n } dts fails
  else if nt = 8 then
    if m.h264Pps = n.bytes then unsent fails (.goOn m)
    else writeH264SpsPps { m with h264PpsChanged := true, h264Pps := n.bytes } dts fails
  else writeH264IpbFrame m dts n latest fails

/-- `write_h265_vps_sps_pps`; `parsed` is whether the sequence header can be muxed. -/
def writeH265VpsSpsPps (m : SrsGbMuxer) (dts : ℕ) (parsed : Bool) (fails : Option ℕ) :
    Option Step :=
  if ¬ m.vpsSpsPpsChange then unsent fails (.goOn m)
  else if m.h265Vps = [] ∨ m.h265Sps = [] ∨ m.h265Pps = [] then unsent fails (.goOn m)
  else if ¬ parsed then unsent fails (.refused m)
  else (rtmpWritePacket m dts (.header .h265 ⟨m.h265Vps, m.h265Sps, m.h265Pps⟩) fails).map
    (Write.step fun m => { m with vpsSpsPpsChange := false, vpsSpsPpsSent := true })

/-- `write_h265_ipb_frame` -/
def writeH265IpbFrame (m : SrsGbMuxer) (dts : ℕ) (n : Nalu) (latest : Sets)
    (fails : Option ℕ) : Option Step :=
  if ¬ m.vpsSpsPpsSent then unsent fails (.refused m)
  else (rtmpWritePacket m dts (.frame .h265 n latest) fails).map (Write.step id)

/-- A round of the loop of `mux_h265`. -/
def muxH265 (m : SrsGbMuxer) (dts : ℕ) (n : Nalu) (latest : Sets) (parsed : Bool)
    (fails : Option ℕ) : Option Step :=
  let nt := n.hevcType
  if nt = 39 ∨ nt = 40 ∨ nt = 35 then unsent fails (.goOn m)
  else if nt = 32 then
    if m.h265Vps = n.bytes then unsent fails (.goOn m)
    else writeH265VpsSpsPps { m with vpsSpsPpsChange := true, h265Vps := n.bytes } dts parsed fails
  else if nt = 33 then
    if m.h265Sps = spsDemux n then unsent fails (.goOn m)
    else writeH265VpsSpsPps { m with vpsSpsPpsChange := true, h265Sps := spsDemux n } dts parsed
      fails
  else if nt = 34 then
    if m.h265Pps = n.bytes then unsent fails (.goOn m)
    else writeH265VpsSpsPps { m with vpsSpsPpsChange := true, h265Pps := n.bytes } dts parsed fails
  else writeH265IpbFrame m dts n latest fails

def muxNalu (m : SrsGbMuxer) (codec : Codec) (dts : ℕ) (n : Nalu) (latest : Sets) (parsed : Bool)
    (fails : Option ℕ) : Option Step :=
  match codec with
  | .h264 => muxH264 m dts n latest fails
  | .h265 => muxH265 m dts n latest parsed fails

/-! ## Runs -/

/-- What a NALU is to a decoder. -/
inductive NaluKind
  | vps
  | sps
  | pps
  | slice
  | other
deriving DecidableEq, Repr

def Nalu.kind (n : Nalu) : Codec → NaluKind
  | .h264 =>
    if n.avcType = 7 then .sps
    else if n.avcType = 8 then .pps
    else if n.avcType = 1 ∨ n.avcType = 5 then .slice
    else .other
  | .h265 =>
    if n.hevcType = 32 then .vps
    else if n.hevcType = 33 then .sps
    else if n.hevcType = 34 then .pps
    else if n.hevcType < 32 then .slice
    else .other

/-- The parameter sets with that of a NALU, if it is one. -/
def Sets.hear (s : Sets) (codec : Codec) (n : Nalu) : Sets :=
  match n.kind codec with
  | .vps => { s with vps := n.bytes }
  | .sps => { s with sps := n.bytes }
  | .pps => { s with pps := n.bytes }
  | _ => s

/-- All parameter sets of the codec are there. -/
def Sets.complete (s : Sets) (codec : Codec) : Bool :=
  (codec = .h264 ∨ s.vps ≠ []) ∧ s.sps ≠ [] ∧ s.pps ≠ []

/-- The muxer with the rest of the message it is at; the parameter sets that were received last, at
all and on the open connection; the slices that were received after complete parameter sets on
the open connection and were not handed to the queue; and whether the process has ended. -/
structure Run where
  muxer : SrsGbMuxer
  codec : Codec
  dts : ℕ
  pending : List Nalu
  latest : Codec → Sets
  onConn : Codec → Sets
  lost : List Nalu
  aborted : Bool

def Run.init : Run := ⟨.new, .h264, 0, [], fun _ => {}, fun _ => {}, [], false⟩

/-- A NALU of the message has been received. -/
def Run.hear (r : Run) (n : Nalu) : Run :=
  { r with
    latest := Function.update r.latest r.codec ((r.latest r.codec).hear r.codec n)
    onConn := if r.muxer.connected
      then Function.update r.onConn r.codec ((r.onConn r.codec).hear r.codec n) else r.onConn }

/-- NALUs that are received and not muxed. -/
def Run.skip (r : Run) : List Nalu → Run
  | [] => r
  | n :: rest =>
    let r := r.hear n
    let due := n.kind r.codec = .slice ∧ r.muxer.connected ∧ (r.onConn r.codec).complete r.codec
    Run.skip { r with lost := if due then n :: r.lost else r.lost } rest

/-- A video message arrives, the next NALU of it is muxed, or a packet of audio is written. -/
inductive Action
  | video (codec : Codec) (dts : ℕ) (nalus : List Nalu) (connects : Bool)
  | nalu (parsed : Bool) (fails : Option ℕ)
  | audio (dts : ℕ) (connects : Bool) (fails : Option ℕ)

/-- `connect()`: an open connection is kept, a new one has nothing on it. -/
def Run.connect (r : Run) : Run :=
  if r.muxer.connected then r
  else { r with muxer := { r.muxer.close with connected := true }, onConn := fun _ => {} }

/-- The next NALU. -/
def stepNalu (r : Run) (parsed : Bool) (fails : Option ℕ) (n : Nalu) (rest : List Nalu) :
    Option Run :=
  let heard := r.hear n
  (muxNalu r.muxer r.codec r.dts n (heard.latest r.codec) parsed fails).map fun
    | .goOn m => { heard with muxer := m, pending := rest }
    | .refused m => Run.skip { r with muxer := m, pending := [] } (n :: rest)
    | .broken m =>
      Run.skip { heard with muxer := m, pending := [], onConn := fun _ => {} } rest
    | .fault => { heard with aborted := true, pending := [] }

def stepAudio (r : Run) (dts : ℕ) (fails : Option ℕ) : Option Run :=
  (rtmpWritePacket r.muxer dts .audio fails).map fun
    | .ok m => { r with muxer := m }
    | .failed m => { r with muxer := m, onConn := fun _ => {} }
    | .fault => { r with aborted := true }

def step (r : Run) : Action → Option Run
  | .video codec dts nalus connects =>
    if r.aborted = false ∧ r.pending = [] then
      let r := { r with codec := codec, dts := dts }
      if r.muxer.connected ∨ connects then some { r.connect with pending := nalus }
      else some (Run.skip { r with muxer := r.muxer.close } nalus)
    else none
  | .nalu parsed fails =>
    match r.pending with
    | [] => none
    | n :: rest => stepNalu r parsed fails n rest
  | .audio dts connects fails =>
    if r.aborted = false ∧ r.pending = [] then
      if r.muxer.connected ∨ connects then stepAudio r.connect dts fails
      else some { r with muxer := r.muxer.close }
    else none

end SrsChatRoom.App.GbMuxer
