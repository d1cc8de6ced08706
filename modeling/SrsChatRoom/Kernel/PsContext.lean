import SrsChatRoom.Kernel.PsFormat

/-!
# Program streams: the context (`srs_kernel_ps.cpp`)

The context keeps the message that is being put together. While it has one, the bytes of the
buffer belong to it; else they have to start with a start code. A message that is complete is
taken out: a program stream map changes the types of the streams, audio and video are given to the
handler, and others are dropped.

Where the buffer ends in the middle of a header, the decoder returns an error. The reader of a
connection therefore asks it to leave the last bytes alone when they start with a start code and
are no more than 32 (`stopsHere`).
-/

namespace SrsChatRoom.Kernel.Ps

open SrsChatRoom.Prog (refuse optional zoom modify)
open SrsChatRoom.Kernel.Cursor
open SrsChatRoom.Kernel.Ts (SrsMpegPES SrsTsMessage)

/-! ## The state -/

/-- `SrsPsContext`. Of the pack it is known whether there is one (`current_`, `helper_.ps_`). -/
structure PsContext where
  last : SrsTsMessage
  hasPack : Bool
  detectPsIntegrity : Bool
  videoStreamType : ℕ
  audioStreamType : ℕ

/-- `SrsPsContext::SrsPsContext`, and `set_detect_ps_integrity(true)`. -/
def PsContext.init : PsContext := ⟨.init, false, true, 0, 0⟩

/-- What the handler is told. -/
inductive PsEvent
  | message (msg : SrsTsMessage)
  | recoverMode (recover : ℕ)
  deriving DecidableEq

/-- What `handler->on_ts_message` answers may depend on all that it was told. -/
abbrev PsHandler := List PsEvent → Option PsError

/-- The context, the buffer of the call, and what the handler has been told. -/
structure PsDecoder where
  ctx : PsContext
  stream : SrsBuffer
  events : List PsEvent

/-- A program of the decoder. -/
abbrev PsDecode := Prog PsDecoder PsError

/-- A program on the buffer. -/
def onStream {α : Type} (x : PsIo α) : PsDecode α :=
  zoom PsDecoder.stream (fun s b => { s with stream := b }) x

/-- `last()` -/
def lastMessage : PsDecode SrsTsMessage := Prog.read fun s => s.ctx.last

/-- The context with another message. -/
def PsContext.setLast (ctx : PsContext) (msg : SrsTsMessage) : PsContext :=
  { ctx with last := msg }

/-- A change of `last()`. -/
def setLast (msg : SrsTsMessage) : PsDecode Unit := modify fun s =>
  { s with ctx := s.ctx.setLast msg }

/-- `srs_freep(current_); current_ = new SrsPsPacket(this)` -/
def setPack : PsDecode Unit := modify fun s => { s with ctx := { s.ctx with hasPack := true } }

/-! ## A pack -/

/-- `last()->dump(stream, NULL)` -/
def dumpLast : PsDecode Unit := do
  let last ← lastMessage
  let more ← onStream (Prog.wrap (PsError.wrap "dump pes") (last.dump.mapErr PsError.ofTs))
  setLast more

/-- The start code of a PES packet. -/
def isPesCode (code : ℕ) : Bool :=
  code / 256 = 1 ∧ code ≠ packStartCode ∧ code ≠ systemStartCode

/-- A PES packet, in the loop of `SrsPsPacket::decode`. -/
def pesPacket : PsDecode Unit := do
  let pes ← onStream
    (Prog.wrap (PsError.wrap "decode pes") (SrsMpegPES.decode.mapErr PsError.ofTs))
  let last ← lastMessage
  refuse (last.sid ≠ 0 ∧ last.sid ≠ pes.streamId)
    (PsError.new .gbPsPse "PS stream id change from %#x to %#x")
  setLast (last.start pes)
  optional pes.hasPayload dumpLast

/-- The loop of `SrsPsPacket::decode`, until a message is complete. -/
def pesPackets : ℕ → PsDecode Unit
  | 0 => fun _ => .hang
  | fuel + 1 => do
    let empty ← Prog.read fun s => s.stream.empty
    if empty then return ()
    else do
      onStream (requires 4 (headerError "requires 4 only %d bytes"))
      let code ← Prog.read fun s => headCode s.stream
      if isPesCode code then do
        pesPacket
        let last ← lastMessage
        if last.completed true then return ()
        else pesPackets fuel
      else return ()

/-- `SrsPsPacket::decode` -/
def SrsPsPacket.decode : PsDecode Unit := do
  onStream decodeHeaders
  let size ← Prog.read fun s => s.stream.bytes.length
  pesPackets (size + 1)

/-! ## The context -/

/-- `stream->skip(pos - stream->pos())` where there is an error. -/
def rewinding (x : PsDecode Unit) : PsDecode Unit := fun s =>
  match x s with
  | .err e t => .err (e.wrap "decode start=%d, pos=%d, left=%d")
      { t with stream := { t.stream with pos := s.stream.pos } }
  | o => o

/-- The part of `SrsPsContext::do_decode` for a new message. -/
def decodeFresh : PsDecode Unit := do
  onStream (requires 4 (headerError "requires 4 only %d bytes"))
  let found ← Prog.read fun s => atPrefix s.stream
  refuse (found = false) (headerError "Invalid PS stream %#x %#x %#x")
  setPack
  rewinding SrsPsPacket.decode

/-- `SrsPsContext::do_decode` -/
def doDecode : PsDecode Unit := do
  let last ← lastMessage
  if last.fresh then decodeFresh
  else dumpLast

/-- `SRS_PS_MIN_REQUIRED` -/
def srsPsMinRequired : ℤ := 32

/-- The bytes that are left wait for more. -/
def stopsHere (s : PsDecoder) : Bool :=
  s.ctx.detectPsIntegrity ∧ s.stream.left ≥ 4 ∧ atPrefix s.stream ∧
    s.stream.left ≤ srsPsMinRequired

/-- `SrsTsMessage::is_video` -/
def isVideo (msg : SrsTsMessage) : Bool := msg.sid / 16 % 16 = 0x0e

/-- `SrsTsMessage::is_audio` -/
def isAudio (msg : SrsTsMessage) : Bool := msg.sid / 32 % 8 = 0x06

/-- A message of the program stream map. -/
def psmMessage (msg : SrsTsMessage) : PsDecode Unit := do
  refuse (msg.payload = []) (headerError "empty PSM payload")
  let psm ← Prog.wrap (PsError.wrap "decode psm")
    (onStream (onBuffer msg.payload SrsPsPsmPacket.decode))
  modify fun s => { s with ctx := { s.ctx with
    videoStreamType := psm.videoStreamType, audioStreamType := psm.audioStreamType } }

/-- `handler->on_ts_message(msg)`, which asserts that there is a pack. -/
def onTsMessage (handler : PsHandler) (msg : SrsTsMessage) : PsDecode Unit := do
  let hasPack ← Prog.read fun s => s.ctx.hasPack
  optional (!hasPack) Prog.abort
  modify fun s => { s with events := s.events ++ [.message msg] }
  let answer ← Prog.read fun s => handler s.events
  match answer with
  | some e => Prog.throw (e.wrap "handle PS message")
  | none => return ()

/-- What is done with a message. -/
def useMessage (handler : PsHandler) (msg : SrsTsMessage) : PsDecode Unit :=
  if msg.sid = 0xbc then psmMessage msg
  else if isVideo msg ∨ isAudio msg then onTsMessage handler msg
  else return ()

/-- A turn of the loop of `SrsPsContext::decode`. -/
def decodeTurn (handler : PsHandler) : PsDecode Unit := do
  Prog.wrap (PsError.wrap "decode") doDecode
  let last ← lastMessage
  if last.completed true then do
    setLast .init
    useMessage handler last
  else return ()

/-- The loop of `SrsPsContext::decode`. -/
def decodeLoop (handler : PsHandler) : ℕ → PsDecode Unit
  | 0 => fun _ => .hang
  | fuel + 1 => do
    let done ← Prog.read fun s => s.stream.empty || stopsHere s
    if done then return ()
    else do
      decodeTurn handler
      decodeLoop handler fuel

/-- `SrsPsContext::decode` -/
def SrsPsContext.decode (handler : PsHandler) : PsDecode Unit := do
  let size ← Prog.read fun s => s.stream.bytes.length
  decodeLoop handler (size + 1)

end SrsChatRoom.Kernel.Ps
