import SrsChatRoom.Kernel.PsContext
import SrsChatRoom.Kernel.Rtp

/-!
# The media connection of a GB28181 device (`srs_app_gb28181.cpp`)

A device sends RTP packets over TCP, each behind its length of two bytes. `do_cycle` reads a packet
into its buffer of 65535 bytes, behind the bytes that the last round has left (`reserved`), takes
the RTP header off, and gives the decoder of the program stream the reserved bytes followed by the
payload. On an error of the decoder the context enters the recover mode: the message and the rest
of the packet are dropped, and the following packets up to the next pack header, too. It gives up
for a packet above 1500 bytes, and after 16 attempts.

The rounds in which the socket or the coroutine fails end the connection, and are left out; so are
the warnings and the counters.
-/

namespace SrsChatRoom.App.GbMedia

open SrsChatRoom.Kernel
open SrsChatRoom.Kernel.Ps
open SrsChatRoom.Kernel.Rtp (rtpDecode Config RtpPacket Payload)
open SrsChatRoom.Prog (refuse optional zoom modify attempt)
open SrsChatRoom.Kernel.Cursor

/-! ## Recover mode -/

/-- `SRS_GB_MAX_RECOVER` -/
def srsGbMaxRecover : ℕ := 16

/-- `SRS_GB_LARGE_PACKET` -/
def srsGbLargePacket : ℕ := 1500

/-- `SrsRecoverablePsContext`, with the buffer of the call and what the handler has been told. -/
structure SrsRecoverablePsContext where
  recover : ℕ
  decoder : PsDecoder

/-- A program of the recoverable context. -/
abbrev PsRecover := Prog SrsRecoverablePsContext PsError

/-- A program of the context. -/
def onDecoder {α : Type} (x : PsDecode α) : PsRecover α :=
  zoom SrsRecoverablePsContext.decoder (fun s d => { s with decoder := d }) x

/-- A program on the buffer. -/
def onBytes {α : Type} (x : PsIo α) : PsRecover α := onDecoder (onStream x)

/-- The steps of `srs_skip_util_pack`, 0 where the pack header is. -/
def packDistance (b : SrsBuffer) : ℕ :=
  let p := b.bytes.drop b.pos
  if p.getD 0 0 ≠ 0 ∧ p.getD 1 0 ≠ 0 ∧ p.getD 2 0 ≠ 0 ∧ p.getD 3 0 ≠ 0 then 4
  else if p.getD 0 0 ≠ 0 ∧ p.getD 1 0 ≠ 0 ∧ p.getD 2 0 ≠ 0 then 3
  else if p.getD 0 0 ≠ 0 ∧ p.getD 1 0 ≠ 0 then 2
  else if headCode b = packStartCode then 0
  else 1

/-- The loop of `srs_skip_util_pack`. -/
def srsSkipUtilPack : ℕ → PsIo Bool
  | 0 => fun _ => .hang
  | fuel + 1 => do
    let b ← Prog.read id
    if b.require 4 then
      if packDistance b = 0 then return true
      else do
        skip (packDistance b)
        srsSkipUtilPack fuel
    else return false

/-- The context after `enter_recover_mode`: the message is gone, and all bytes are skipped. -/
def SrsRecoverablePsContext.recovering (s : SrsRecoverablePsContext) : SrsRecoverablePsContext where
  recover := s.recover
  decoder := {
    ctx := s.decoder.ctx.setLast .init
    stream := { s.decoder.stream with pos := s.decoder.stream.bytes.length }
    events := s.decoder.events ++ [.recoverMode s.recover] }

/-- `SrsRecoverablePsContext::enter_recover_mode` -/
def enterRecoverMode (pos : ℕ) (e : PsError) : PsRecover Unit := do
  modify fun s => { s with recover := s.recover + 1 }
  onBytes (do
    let posNow ← Cursor.pos
    skip (pos - posNow))
  let size ← Prog.read fun s => s.decoder.stream.bytes.length
  refuse (size > srsGbLargePacket) (e.wrap "no recover for large packet length=%dB")
  let recover ← Prog.read SrsRecoverablePsContext.recover
  refuse (recover > srsGbMaxRecover) (e.wrap "exceed max recover, pack=%u, pack-seq=%u, seq=%u")
  modify SrsRecoverablePsContext.recovering

/-- The bytes up to the pack header are dropped. The answer is whether there is one. -/
def skipToPack : PsRecover Bool := onBytes (do
  let pos ← Cursor.pos
  let size ← Prog.read fun b => b.bytes.length
  let found ← srsSkipUtilPack (size + 1)
  optional (!found) (do
    let posNow ← Cursor.pos
    skip (pos - posNow))
  return found)

/-- The last part of `SrsRecoverablePsContext::decode`. -/
def decodePackets (handler : PsHandler) : PsRecover Unit := do
  let result ← attempt (onDecoder (SrsPsContext.decode handler))
  match result with
  | .ok _ => return ()
  | .error e => do
    let pos ← onBytes Cursor.pos
    enterRecoverMode pos (e.wrap "decode pack")

/-- The part of `SrsRecoverablePsContext::decode` for the recover mode. -/
def decodeRecovering (handler : PsHandler) : PsRecover Unit := do
  let pos ← onBytes Cursor.pos
  let found ← skipToPack
  if found then do
    modify fun s => { s with recover := 0 }
    decodePackets handler
  else enterRecoverMode pos (headerError "no pack")

/-- `SrsRecoverablePsContext::decode` -/
def decode (handler : PsHandler) : PsRecover Unit := do
  let empty ← Prog.read fun s => s.decoder.stream.empty
  let recover ← Prog.read SrsRecoverablePsContext.recover
  if empty then return ()
  else if recover = 0 then decodePackets handler
  else decodeRecovering handler

/-! ## RTP packets -/

/-- An `SrsRtpPacket` without extension types and without a decode handler. -/
def rtpConfig : Config := ⟨none, false, false, none⟩

/-- `memmove(stream->head() - reserved, stream->data(), reserved)`: the reserved bytes in front of
the payload, which have to lie inside the buffer. -/
def moveReserved (reserved : ℕ) : PsIo Unit := fun b =>
  if reserved ≤ b.pos then
    .ok () { b with
      bytes := b.bytes.take (b.pos - reserved) ++ b.bytes.take reserved ++ b.bytes.drop b.pos }
  else .fault

/-- Run a program of the context on a buffer of its own. The result is where it has come to. -/
def onPayload (payload : List UInt8) (x : PsRecover Unit) : PsRecover ℕ := fun s =>
  match x { s with decoder := { s.decoder with stream := ⟨payload, 0⟩ } } with
  | .ok _ t => .ok t.decoder.stream.pos
      { t with decoder := { t.decoder with stream := s.decoder.stream } }
  | .err e t => .err e { t with decoder := { t.decoder with stream := s.decoder.stream } }
  | .fault => .fault
  | .hang => .hang

/-- The payload, with the reserved bytes in front of it. -/
def decodePayload (handler : PsHandler) (reserved : ℕ) : PsRecover Unit := do
  onBytes (optional (reserved > 0) (do
    moveReserved reserved
    skip (-1 * reserved)))
  let payload ← Prog.read fun s => s.decoder.stream.bytes.drop s.decoder.stream.pos
  let pos ← Prog.wrap (PsError.wrap "decode") (onPayload payload (decode handler))
  onBytes (skip pos)

/-- `SrsRecoverablePsContext::decode_rtp` -/
def decodeRtp (handler : PsHandler) (reserved : ℕ) : PsRecover Unit := do
  onBytes (skip reserved)
  let pos ← onBytes Cursor.pos
  let result ← attempt (onBytes ((rtpDecode rtpConfig).mapErr PsError.ofRtp))
  match result with
  | .error e => enterRecoverMode pos (e.wrap "decode rtp")
  | .ok rtp =>
    match rtp.payload with
    | .raw _ => decodePayload handler reserved
    | _ => Prog.abort

/-! ## The connection -/

/-- The bytes of `buffer_`. -/
def bufferSize : ℕ := 65535

/-- The most bytes that may be reserved. -/
def maxReserved : ℕ := 128

/-- `SrsGbMediaTcpConn` between two rounds: the reserved bytes, which are at the front of the
buffer, and whether there is a session. -/
structure SrsGbMediaTcpConn where
  reserved : List UInt8
  hasSession : Bool
  recover : ℕ
  ctx : PsContext
  events : List PsEvent

/-- The connection when `do_cycle` starts. -/
def SrsGbMediaTcpConn.init : SrsGbMediaTcpConn := ⟨[], false, 0, .init, []⟩

/-- A packet, and which ssrc the manager has a session for. -/
structure Frame where
  bytes : List UInt8
  sessions : ℕ → Bool

/-- `srs_is_rtcp` -/
def srsIsRtcp (data : List UInt8) : Bool :=
  data.length ≥ 12 ∧ (data.getD 0 0).toNat.testBit 7 ∧ 192 ≤ data.getD 1 0 ∧ data.getD 1 0 ≤ 223

/-- A program of a round. -/
abbrev Round := Prog SrsGbMediaTcpConn PsError

/-- `conn_->read_fully(buffer_ + reserved, length, NULL)`, which has to stay in the buffer. -/
def readFully (frame : Frame) : Round Unit := fun s =>
  if s.reserved.length + frame.bytes.length ≤ bufferSize then .ok () s else .fault

/-- `bind_session` -/
def bindSession (frame : Frame) (ssrc : ℕ) : Bool := ssrc ≠ 0 ∧ frame.sessions ssrc

/-- Where there is no session, the ssrc of the packet may find one. -/
def findSession (frame : Frame) : Round Unit := fun s =>
  if s.hasSession then .ok () s
  else
    match rtpDecode rtpConfig ⟨frame.bytes, 0⟩ with
    | .ok rtp _ => .ok () { s with hasSession := bindSession frame rtp.header.ssrc }
    | .err _ _ => .ok () s
    | .fault => .fault
    | .hang => .hang

/-- The state in front of `decode_rtp`. -/
def SrsGbMediaTcpConn.enter (s : SrsGbMediaTcpConn) (frame : Frame) : SrsRecoverablePsContext :=
  ⟨s.recover, ⟨s.ctx, ⟨s.reserved ++ frame.bytes, 0⟩, s.events⟩⟩

/-- The bytes that are left are reserved, unless they are too many. -/
def keepReserved (left : List UInt8) : List UInt8 :=
  if left.length > maxReserved then [] else left

/-- The state after `decode_rtp`. -/
def SrsGbMediaTcpConn.leave (s : SrsGbMediaTcpConn) (t : SrsRecoverablePsContext) :
    SrsGbMediaTcpConn :=
  { s with
    reserved := keepReserved (t.decoder.stream.bytes.drop t.decoder.stream.pos)
    recover := t.recover
    ctx := t.decoder.ctx
    events := t.decoder.events }

/-- The packet is decoded. -/
def decodeFrame (handler : PsHandler) (frame : Frame) : Round Unit := fun s =>
  match decodeRtp handler s.reserved.length (s.enter frame) with
  | .ok _ t => .ok () (s.leave t)
  | .err e t => .err (e.wrap "decode pack") (s.leave t)
  | .fault => .fault
  | .hang => .hang

/-- The media of a packet. Where there is still no session, the packet is ignored. -/
def useFrame (handler : PsHandler) (frame : Frame) : Round Unit := do
  findSession frame
  let hasSession ← Prog.read SrsGbMediaTcpConn.hasSession
  if hasSession then decodeFrame handler frame
  else return ()

/-- A round of the loop of `SrsGbMediaTcpConn::do_cycle`, with a packet. RTCP packets are
dropped. An error ends the loop. -/
def doCycle (handler : PsHandler) (frame : Frame) : Round Unit := do
  refuse (frame.bytes.length = 0) (PsError.new .gbPsMedia "Invalid length")
  readFully frame
  if srsIsRtcp frame.bytes then return ()
  else useFrame handler frame

namespace SrsGbMediaTcpConn

/-- A round that does not end the connection. -/
def step (handler : PsHandler) (s : SrsGbMediaTcpConn) (frame : Frame) :
    Option SrsGbMediaTcpConn :=
  match doCycle handler frame s with
  | .ok _ t => some t
  | .err _ _ => none
  | .fault => none
  | .hang => none

end SrsGbMediaTcpConn

end SrsChatRoom.App.GbMedia
