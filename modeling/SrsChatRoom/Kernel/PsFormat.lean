import SrsChatRoom.Kernel.Cursor
import SrsChatRoom.Kernel.TsContext

/-!
# Program streams: headers (`srs_kernel_ps.cpp`)

A program stream is a sequence of packs. A pack has a header, it may have a system header, and PES
packets follow. The decoder uses nothing of both headers but their lengths; the packet of the
program stream map it reads for the types of the streams.
-/

namespace SrsChatRoom.Kernel.Ps

open SrsChatRoom.Prog (refuse optional)
open SrsChatRoom.Kernel.Cursor
open SrsChatRoom.Kernel.Ts (SrsMpegPES SrsTsMessage SrsTsStream TsErrorCode TsError)

/-! ## Errors -/

/-- `ERROR_GB_PS_HEADER` and so on, with the codes of what the decoder calls. -/
inductive PsErrorCode
  | gbPsHeader
  | gbPsPse
  | gbPsMedia
  | ts (code : TsErrorCode)
  | rtp (code : ErrorCode)
  | handler
  deriving DecidableEq

/-- An error: the code and the messages, the outermost first. -/
structure PsError where
  code : PsErrorCode
  messages : List String

def PsError.new (code : PsErrorCode) (message : String) : PsError := ⟨code, [message]⟩

def PsError.wrap (message : String) (e : PsError) : PsError :=
  { e with messages := message :: e.messages }

def PsError.ofTs (e : TsError) : PsError := ⟨.ts e.code, e.messages⟩

def PsError.ofRtp (e : SrsError) : PsError := ⟨.rtp e.code, e.messages⟩

/-- `srs_error_new(ERROR_GB_PS_HEADER, ...)` -/
def headerError (message : String) : PsError := .new .gbPsHeader message

/-- A program that reads a buffer. -/
abbrev PsIo := Prog SrsBuffer PsError

/-- `srs_assert(c)` -/
def srsAssert (c : Prop) [Decidable c] : PsIo Unit := if c then pure () else Prog.abort

/-! ## Start codes -/

/-- The four bytes at the head. -/
def headCode (b : SrsBuffer) : ℕ := uintAt b.bytes b.pos 4

/-- `p[0] == 0x00 && p[1] == 0x00 && p[2] == 0x01` -/
def atPrefix (b : SrsBuffer) : Bool := uintAt b.bytes b.pos 3 = 1

/-- The start code of a pack. -/
def packStartCode : ℕ := 0x000001ba

/-- The start code of a system header. -/
def systemStartCode : ℕ := 0x000001bb

/-- A header that is there if the start code is. -/
def withStartCode (code : ℕ) (x : PsIo Unit) : PsIo Unit := do
  let found ← Prog.read headCode
  optional (found = code) x

/-! ## The pack header -/

/-- `SrsPsPacket::decode_pack` -/
def decodePack : PsIo Unit := do
  requires 14 (headerError "ps requires 14 only %d bytes")
  let startCode ← readUint 4
  srsAssert (startCode = packStartCode)
  let _ ← readUint 4
  let _ ← readUint 2
  let _ ← readUint 3
  let stuffing ← readUint 1
  let stuffingLength : ℕ := stuffing % 8
  requires stuffingLength (headerError "requires %d only %d bytes")
  skip stuffingLength

/-! ## The system header -/

/-- The loop goes on: there is a byte, and its bit `0x80` is set. -/
def hasSystemStream (b : SrsBuffer) : Bool :=
  match b.bytes[b.pos]? with
  | some r2 => 128 ≤ r2.toNat
  | none => false

/-- The loop for the streams. -/
def systemStreams : ℕ → PsIo Unit
  | 0 => fun _ => .hang
  | fuel + 1 => do
    let more ← Prog.read hasSystemStream
    if more then do
      requires 3 (headerError "requires 3 only %d bytes")
      let _ ← readUint 1
      let _ ← readUint 2
      systemStreams fuel
    else return ()

/-- What is read from the buffer over the header. The first six bytes are read unseen. -/
def systemFields : PsIo Unit := do
  let _ ← readUint 3
  let _ ← readUint 1
  let _ ← readUint 1
  let _ ← readUint 1
  let size ← Prog.read fun b => b.bytes.length
  systemStreams (size + 1)

/-- `SrsPsPacket::decode_system` -/
def decodeSystem : PsIo Unit := do
  let startCode ← readUint 4
  srsAssert (startCode = systemStartCode)
  requires 8 (headerError "requires 8 only %d bytes")
  let headerLength ← readUint 2
  requires headerLength (headerError "requires %d only %d bytes")
  let header ← ahead headerLength
  skip headerLength
  onBuffer header systemFields

/-- Both headers, at the front of `SrsPsPacket::decode`. -/
def decodeHeaders : PsIo Unit := do
  requires 4 (headerError "requires 4 only %d bytes")
  withStartCode packStartCode (Prog.wrap (PsError.wrap "pack") decodePack)
  let empty ← Prog.read SrsBuffer.empty
  if empty then return ()
  else do
    requires 4 (headerError "requires 4 only %d bytes")
    withStartCode systemStartCode (Prog.wrap (PsError.wrap "system") decodeSystem)

/-! ## The program stream map -/

/-- `SrsPsPsmPacket`, as far as it is used: the types of the streams, 0 for none. -/
structure SrsPsPsmPacket where
  videoStreamType : ℕ
  audioStreamType : ℕ

/-- A stream of the map. -/
def SrsPsPsmPacket.setStream (psm : SrsPsPsmPacket) (streamType : ℕ) : SrsPsPsmPacket :=
  if streamType = SrsTsStream.videoH264.code ∨ streamType = SrsTsStream.videoHEVC.code then
    { psm with videoStreamType := streamType }
  else if streamType = SrsTsStream.audioAAC.code then { psm with audioStreamType := streamType }
  else psm

/-- The loop for the streams of the map. -/
def elementaryStreams : ℕ → SrsPsPsmPacket → PsIo SrsPsPsmPacket
  | 0, _ => fun _ => .hang
  | fuel + 1, psm => do
    let empty ← Prog.read SrsBuffer.empty
    if empty then return psm
    else do
      requires 4 (headerError "requires 4 only %d bytes")
      let streamType ← readUint 1
      let _ ← readUint 1
      let infoLength ← readUint 2
      requires infoLength (headerError "requires %d only %d bytes")
      skip infoLength
      elementaryStreams fuel (psm.setStream streamType)

/-- `SrsPsPsmPacket::decode` -/
def SrsPsPsmPacket.decode : PsIo SrsPsPsmPacket := do
  requires 4 (headerError "requires 4 only %d bytes")
  let r0 ← readUint 1
  refuse (r0 / 128 % 2 = 0) (headerError "invalid indicator of 0x%#x")
  let r1 ← readUint 1
  refuse (r1 % 2 ≠ 1) (headerError "invalid marker of 0x%#x")
  let infoLength ← readUint 2
  requires infoLength (headerError "requires %d only %d bytes")
  skip infoLength
  requires 2 (headerError "requires 2 only %d bytes")
  let mapLength ← readUint 2
  requires mapLength (headerError "requires %d only %d bytes")
  let map ← ahead mapLength
  skip mapLength
  let psm ← onBuffer map (elementaryStreams (mapLength + 1) ⟨0, 0⟩)
  requires 4 (headerError "requires 4 only %d bytes")
  let _ ← readUint 4
  return psm

end SrsChatRoom.Kernel.Ps
