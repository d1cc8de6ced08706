import SrsChatRoom.Kernel.Crc
import SrsChatRoom.Kernel.TsFormat
import SrsChatRoom.Lib.Dict

/-!
# Transport streams: the context and the reader (`srs_kernel_ts.cpp`)

`SrsTsContext` knows the pids of a stream. A PAT or a PMT packet says what a pid is used for; a
pid for audio or video has a channel, where the message that is being put together is kept. The
reader decodes packet after packet until the buffer is empty. A packet that ends a message of
unknown length, or that does not go with the message that is kept, is decoded once more from the
front of the buffer, without that message.

H.265 is enabled, as in the default build.
-/

namespace SrsChatRoom.Kernel.Ts

open SrsChatRoom.Prog (refuse optional zoom modify)

/-! ## Channels -/

/-- `SrsTsPidApply`: what a pid is used for. -/
inductive SrsTsPidApply
  | reserved
  | pat
  | pmt
  | video
  | audio
  deriving DecidableEq

/-- `SrsTsStream`: the stream types that the reader and the writer know. -/
inductive SrsTsStream
  | reserved
  | audioMp3
  | audioAAC
  | videoMpeg4
  | videoH264
  | videoHEVC
  | audioAC3
  | audioDTS
  deriving DecidableEq

/-- The number of a stream type. -/
def SrsTsStream.code : SrsTsStream → ℕ
  | .reserved => 0x00
  | .audioMp3 => 0x03
  | .audioAAC => 0x0f
  | .videoMpeg4 => 0x10
  | .videoH264 => 0x1b
  | .videoHEVC => 0x24
  | .audioAC3 => 0x81
  | .audioDTS => 0x8a

/-- The use of a pid with this type of stream, in the `switch` of the PMT. -/
def SrsTsStream.apply : SrsTsStream → Option SrsTsPidApply
  | .videoH264 | .videoHEVC | .videoMpeg4 => some .video
  | .audioAAC | .audioAC3 | .audioDTS | .audioMp3 => some .audio
  | .reserved => none

/-- The type that a byte of the PMT stands for. The byte is signed, so that it is never `0x81` or
`0x8a`. -/
def SrsTsStream.ofByte (v : ℕ) : Option SrsTsStream :=
  [SrsTsStream.videoH264, .videoHEVC, .videoMpeg4, .audioAAC, .audioAC3, .audioDTS,
    .audioMp3].find? fun stream => (stream.code : ℤ) = Int.bmod v 256

/-- `SrsTsMessage` -/
structure SrsTsMessage where
  sid : ℕ
  dts : ℤ
  pts : ℤ
  continuityCounter : ℕ
  pesPacketLength : ℕ
  payload : List UInt8
  isDiscontinuity : Bool
  writePcr : Bool
  deriving DecidableEq

/-- `SrsTsMessage::SrsTsMessage` -/
def SrsTsMessage.init : SrsTsMessage := ⟨0, 0, 0, 0, 0, [], false, false⟩

/-- `SrsTsChannel` -/
structure SrsTsChannel where
  apply : SrsTsPidApply
  stream : SrsTsStream
  msg : Option SrsTsMessage
  continuityCounter : ℕ

/-- `SrsTsChannel::SrsTsChannel` -/
def SrsTsChannel.init : SrsTsChannel := ⟨.reserved, .reserved, none, 0⟩

/-- `SrsTsContext::pids` -/
abbrev Pids := Dict ℕ SrsTsChannel

/-- `SrsTsContext::set` -/
def Pids.setApply (pids : Pids) (pid : ℕ) (apply : SrsTsPidApply) (stream : SrsTsStream) : Pids :=
  let channel := (pids.get? pid).getD .init
  pids.set pid { channel with apply := apply, stream := stream }

/-- `SrsTsContext::on_pmt_parsed`: whether no channel is for video. -/
def Pids.pureAudio (pids : Pids) : Bool := pids.entries.all fun e => e.2.apply ≠ .video

/-- `channel->msg = msg` -/
def Pids.setMsg (pids : Pids) (pid : ℕ) (msg : Option SrsTsMessage) : Pids :=
  match pids.get? pid with
  | some channel => pids.set pid { channel with msg := msg }
  | none => pids

/-! ## The reader -/

/-- `SrsTsContext`, the buffer of the call, and what the handler has been given, with the pids. -/
structure TsDemuxer where
  pids : Pids
  pureAudio : Bool
  stream : SrsBuffer
  delivered : List (ℕ × SrsTsMessage)

/-- A program of the reader. -/
abbrev TsDecode := Prog TsDemuxer TsError

/-- A program on the buffer. -/
def onStream {α : Type} (x : TsIo α) : TsDecode α :=
  zoom TsDemuxer.stream (fun s b => { s with stream := b }) x

/-- A change of the pids. -/
def onPids (f : Pids → Pids) : TsDecode Unit := modify fun s => { s with pids := f s.pids }

/-- `SrsTsContext::on_pmt_parsed` -/
def onPmtParsed : TsDecode Unit := modify fun s => { s with pureAudio := s.pids.pureAudio }

/-! ## Program tables -/

/-- An entry of the table of `srs_crc32_mpegts`, by `__crc32_make_table`. -/
def crc32Entry (i : ℕ) : BitVec 32 :=
  Nat.iterate (fun reg : BitVec 32 => if reg.msb then (reg <<< 1) ^^^ 0x04C11DB7 else reg <<< 1) 8
    (BitVec.ofNat 32 i <<< 24)

/-- `srs_crc32_mpegts` -/
def srsCrc32Mpegts (buf : List UInt8) : BitVec 32 :=
  buf.foldl (fun reg b => crc32Entry ((reg >>> 24).toNat ^^^ b.toNat) ^^^ (reg <<< 8)) 0xffffffff

/-- `SrsTsPayloadPATProgram::decode`, and the pid of the program. -/
def patProgram : TsDecode Unit := do
  let v ← onStream (do
    requires 4 .pat "ts: demux PAT"
    readUint 4)
  onPids fun pids => pids.setApply (v % 2 ^ 13) .pmt .reserved

/-- The loop for the programs, of which `n` are left. -/
def patPrograms : ℕ → TsDecode Unit
  | 0 => return ()
  | n + 1 => do
    Prog.wrap (TsError.wrap "demux PAT program") patProgram
    patPrograms n

/-- `SrsTsPayloadPAT::psi_decode`. The loop is `for (int i = 0; i < program_bytes; i += 4)`. -/
def patDecode (pid sectionLength : ℕ) : TsDecode Unit := do
  let programBytes : ℤ ← onStream (do
    requires 5 .pat "ts: demux PAT"
    let start ← pos
    let _ ← readUint 2
    let _ ← readUint 1
    let _ ← readUint 1
    let _ ← readUint 1
    let posNow ← pos
    return (sectionLength - 4 - (posNow - start) : ℤ))
  patPrograms ((programBytes + 3) / 4).toNat
  onPids fun pids => pids.setApply pid .pat .reserved
  onPmtParsed

/-- `SrsTsPayloadPMTESInfo::decode`: the stream type and the pid. -/
def pmtEsInfo : TsIo (ℕ × ℕ) := do
  requires 5 .pmt "ts: demux PMT"
  let streamType ← readUint 1
  let epv ← readUint 2
  let eilv ← readUint 2
  let esInfoLength : ℕ := eilv % 2 ^ 12
  if esInfoLength > 0 then do
    requires esInfoLength .pmt "ts: demux PMT ES_info"
    let _ ← readBytes esInfoLength
    return (streamType, epv % 2 ^ 13)
  else return (streamType, epv % 2 ^ 13)

/-- The `switch` on the stream type. -/
def Pids.setStream (pids : Pids) (pid streamType : ℕ) : Pids :=
  match SrsTsStream.ofByte streamType with
  | some stream =>
    match stream.apply with
    | some apply => pids.setApply pid apply stream
    | none => pids
  | none => pids

/-- The loop `while (stream->pos() < ES_EOF_pos)`. -/
def pmtInfos (esEofPos : ℤ) : ℕ → TsDecode Unit
  | 0 => fun _ => .hang
  | fuel + 1 => do
    let posNow ← onStream pos
    if (posNow : ℤ) < esEofPos then do
      let (streamType, pid) ← Prog.wrap (TsError.wrap "demux PMT program info") (onStream pmtEsInfo)
      onPids fun pids => pids.setStream pid streamType
      pmtInfos esEofPos fuel
    else return ()

/-- `SrsTsPayloadPMT::psi_decode`. A turn of the loop takes at least 5 bytes. -/
def pmtDecode (pid sectionLength : ℕ) : TsDecode Unit := do
  let esEofPos : ℤ ← onStream (do
    requires 9 .pmt "ts: demux PMT"
    let _ ← readUint 2
    let _ ← readUint 1
    let _ ← readUint 1
    let _ ← readUint 1
    let _ ← readUint 2
    let pilv ← readUint 2
    let programInfoLength : ℕ := pilv % 2 ^ 12
    if programInfoLength > 0 then do
      requires programInfoLength .pmt "ts: demux PMT program info"
      let _ ← readBytes programInfoLength
      let posNow ← pos
      return (posNow + sectionLength - 4 - 9 - programInfoLength : ℤ)
    else do
      let posNow ← pos
      return (posNow + sectionLength - 4 - 9 - programInfoLength : ℤ))
  let size ← Prog.read fun s => s.stream.bytes.length
  pmtInfos esEofPos (size + 1)
  onPids fun pids => pids.setApply pid .pmt .reserved

/-- `SrsTsPayloadPSI::decode`, up to the section: its length and where it starts. -/
def psiHeader (unitStart : Bool) : TsIo (ℕ × ℕ) := do
  optional unitStart (do
    requires 1 .psi "ts: demux PSI"
    let _ ← readUint 1)
  let patPos ← pos
  requires 3 .psi "ts: demux PSI"
  let _ ← readUint 1
  let slv ← readUint 2
  return (slv % 2 ^ 12, patPos)

/-- `SrsTsPayloadPSI::decode`, behind the section. -/
def psiTrailer (patPos : ℕ) : TsIo Unit := do
  requires 4 .psi "ts: demux PSI crc32"
  let crc32 ← readUint 4
  let computed ← Prog.read fun b : SrsBuffer =>
    srsCrc32Mpegts ((b.bytes.drop patPos).take (b.pos - patPos - 4))
  refuse (computed.toNat ≠ crc32) (TsError.new .psi "ts: verify PSI crc32")
  skipAll

/-- `SrsTsPayloadPSI::decode` -/
def psiDecode (unitStart : Bool) (decodeSection : ℕ → TsDecode Unit) : TsDecode Unit := do
  let (sectionLength, patPos) ← onStream (psiHeader unitStart)
  if sectionLength = 0 then return ()
  else do
    onStream (requires sectionLength .psi "ts: demux PSI section")
    Prog.wrap (TsError.wrap "demux PSI") (decodeSection sectionLength)
    onStream (psiTrailer patPos)

/-! ## PES packets -/

/-- `SrsTsMessage::fresh` -/
def SrsTsMessage.fresh (msg : SrsTsMessage) : Bool :=
  msg.pesPacketLength = 0 ∧ msg.payload.length = 0

/-- `SrsTsMessage::completed` -/
def SrsTsMessage.completed (msg : SrsTsMessage) (unitStart : Bool) : Bool :=
  if msg.pesPacketLength = 0 then unitStart else msg.payload.length ≥ msg.pesPacketLength

/-- `SrsTsMessage::dump` -/
def SrsTsMessage.dump (msg : SrsTsMessage) : TsIo SrsTsMessage := do
  let left ← Prog.read SrsBuffer.left
  let nbBytes : ℤ :=
    if msg.pesPacketLength > 0 then min left (msg.pesPacketLength - msg.payload.length) else left
  if nbBytes > 0 then do
    requires nbBytes .pse "ts: dump PSE bytes failed, requires=%dB"
    let data ← readBytes nbBytes
    return { msg with payload := msg.payload ++ data }
  else return msg

/-- The header of a packet, as far as it is used. -/
structure TsHeader where
  pid : ℕ
  unitStart : Bool
  control : ℕ
  continuityCounter : ℕ

/-- Late or duplicated: the counter is not above that of the message. -/
def isLate (msg : SrsTsMessage) (counter : ℕ) : Bool :=
  msg.continuityCounter ≥ counter ∧ (msg.continuityCounter + 1) % 16 > counter

/-- The counter is the next one. -/
def isNext (msg : SrsTsMessage) (counter : ℕ) : Bool := (msg.continuityCounter + 1) % 16 = counter

/-- `channel->msg = msg` -/
def keep (pid : ℕ) (msg : Option SrsTsMessage) : TsDecode Unit :=
  onPids fun pids => pids.setMsg pid msg

/-- Forget the message and go back to the front of the buffer. -/
def reparse (pid : ℕ) : TsDecode Unit := do
  keep pid none
  onStream (do
    let posNow ← pos
    skip (-posNow))

/-- The message, after the header of its first packet. -/
def SrsTsMessage.start (msg : SrsTsMessage) (pes : SrsMpegPES) : SrsTsMessage :=
  let msg := { msg with sid := pes.streamId }
  let msg := if pes.ptsDtsFlags = 2 ∨ pes.ptsDtsFlags = 3 then
    { msg with dts := pes.dts, pts := pes.pts } else msg
  if pes.hasPayload then { msg with pesPacketLength := pes.nbPayload } else msg

/-- The first packet of a message. -/
def firstPacket (pid : ℕ) (msg : SrsTsMessage) : TsDecode SrsTsMessage := do
  let pes ← Prog.wrap (TsError.wrap "header") (onStream SrsMpegPES.decode)
  keep pid (some (msg.start pes))
  if pes.hasPayload then
    Prog.wrap (TsError.wrap "dump pes") (onStream (msg.start pes).dump)
  else return msg.start pes

/-- The bytes of a packet for the message. -/
def takeBytes (header : TsHeader) (msg : SrsTsMessage) : TsDecode SrsTsMessage :=
  if header.unitStart then firstPacket header.pid msg
  else Prog.wrap (TsError.wrap "ts: pes dump") (onStream msg.dump)

/-- The message with the bytes of the packet is given to the caller when it is complete. -/
def takePacket (header : TsHeader) (msg : SrsTsMessage) : TsDecode (Option SrsTsMessage) := do
  keep header.pid (some msg)
  let more ← takeBytes header msg
  keep header.pid (some more)
  if msg.fresh ∧ more.pesPacketLength = 0 then return none
  else if more.completed header.unitStart then do
    keep header.pid none
    return some more
  else return none

/-- `SrsTsPayloadPES::decode`, with the message of the channel. -/
def continueMessage (header : TsHeader) (msg : SrsTsMessage) : TsDecode (Option SrsTsMessage) :=
  if msg.fresh ∧ header.unitStart = false then do
    onStream skipAll
    keep header.pid none
    return none
  else if ¬ msg.fresh ∧ msg.pesPacketLength > 0 ∧ ¬ msg.completed header.unitStart ∧
      header.unitStart then do
    reparse header.pid
    return none
  else if ¬ msg.fresh ∧ isLate msg header.continuityCounter then do
    onStream skipAll
    return none
  else if ¬ msg.fresh ∧ ¬ isNext msg header.continuityCounter then do
    reparse header.pid
    return none
  else if ¬ msg.fresh ∧ msg.completed header.unitStart then do
    reparse header.pid
    return some { msg with continuityCounter := header.continuityCounter }
  else takePacket header { msg with continuityCounter := header.continuityCounter }

/-- `SrsTsPayloadPES::decode` -/
def pesDecode (header : TsHeader) : TsDecode (Option SrsTsMessage) := do
  let channel ← Prog.read fun s => s.pids.get? header.pid
  match channel with
  | none => Prog.throw (TsError.new .pse "ts: demux PES no channel for pid=%#x")
  | some channel => do
    let msg := channel.msg.getD .init
    keep header.pid (some msg)
    continueMessage header msg

/-! ## Packets -/

/-- The header of four bytes. -/
def packetHeader : TsIo TsHeader := do
  requires 4 .header "ts: decode packet"
  let syncByte ← readUint 1
  refuse (syncByte ≠ 0x47) (TsError.new .syncByte "ts: sync_bytes must be 0x47, actual=%#x")
  let pidv ← readUint 2
  let ccv ← readUint 1
  return ⟨pidv % 2 ^ 13, pidv.testBit 14, ccv / 16 % 4, ccv % 16⟩

/-- The payload, by what the pid is used for. -/
def payloadDecode (start : ℕ) (header : TsHeader) : TsDecode (Option SrsTsMessage) := do
  let apply ← Prog.read fun s => (s.pids.get? header.pid).map SrsTsChannel.apply
  if header.pid = 0 then do
    psiDecode header.unitStart (patDecode header.pid)
    return none
  else if apply = some .pmt then do
    psiDecode header.unitStart (pmtDecode header.pid)
    return none
  else if apply = some .video ∨ apply = some .audio then pesDecode header
  else do
    onStream (do
      let posNow ← pos
      let left ← Prog.read SrsBuffer.left
      skip (min left (188 - (posNow - start : ℤ))))
    return none

/-- `SrsTsPacket::decode`. A message comes with the pid of its channel. -/
def SrsTsPacket.decode : TsDecode (Option (ℕ × SrsTsMessage)) := do
  let start ← onStream pos
  let header ← onStream packetHeader
  onStream (optional (hasAdaptationField header.control)
    (Prog.wrap (TsError.wrap "ts: demux af field") (SrsTsAdaptationField.decode header.control)))
  if hasPayload header.control then do
    let msg ← Prog.wrap (TsError.wrap "ts: demux payload") (payloadDecode start header)
    return msg.map fun msg => (header.pid, msg)
  else return none

/-- What `handler->on_ts_message` answers may depend on all messages that it was given. -/
abbrev TsHandler := List (ℕ × SrsTsMessage) → Option TsError

/-- `handler->on_ts_message(msg)` -/
def onTsMessage (handler : TsHandler) (pid : ℕ) (msg : SrsTsMessage) : TsDecode Unit := do
  modify fun s => { s with delivered := s.delivered ++ [(pid, msg)] }
  let answer ← Prog.read fun s => handler s.delivered
  match answer with
  | some e => Prog.throw (e.wrap "ts: handle ts message")
  | none => return ()

/-- A turn of the loop of `SrsTsContext::decode`. -/
def decodeTurn (handler : TsHandler) : TsDecode Unit := do
  let msg ← Prog.wrap (TsError.wrap "ts: ts packet decode") SrsTsPacket.decode
  match msg with
  | some (pid, msg) => onTsMessage handler pid msg
  | none => return ()

/-- The loop of `SrsTsContext::decode`, until the buffer is empty. -/
def decodeLoop (handler : TsHandler) : ℕ → TsDecode Unit
  | 0 => fun _ => .hang
  | fuel + 1 => do
    let empty ← Prog.read fun s => s.stream.empty
    if empty then return ()
    else do
      decodeTurn handler
      decodeLoop handler fuel

/-- `SrsTsContext::decode`, with a bound on the turns. -/
def SrsTsContext.decode (handler : TsHandler) (fuel : ℕ) (buffer : List UInt8) : TsDecode Unit := do
  modify fun s => { s with stream := ⟨buffer, 0⟩ }
  decodeLoop handler fuel

end SrsChatRoom.Kernel.Ts
