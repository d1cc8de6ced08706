import SrsChatRoom.Lib.Endings
import SrsChatRoom.Protocol.Amf0

/-!
# The bodies of RTMP packets (`srs_protocol_rtmp_stack.cpp`)

A packet is a structure with its default values. `getSize` is the size of the buffer that
`encodePacket` gets, and `decode` reads into a packet with the default values. A string that is
read into a field leaves the field as it is if it has no bytes.

The command object of most commands is a field that is neither written nor read: the writer puts a
null, and the reader wants one.
-/

namespace SrsChatRoom.Protocol

open SrsChatRoom.Kernel

/-! ## Errors -/

/-- The codes of AMF0, `ERROR_RTMP_MESSAGE_DECODE` and `ERROR_RTMP_MESSAGE_ENCODE`. -/
inductive RtmpErrorCode
  | amf0 (code : Amf0ErrorCode)
  | messageDecode
  | messageEncode
  deriving DecidableEq

/-- An error: the code and the messages, the outermost first. -/
structure RtmpError where
  code : RtmpErrorCode
  messages : List String

/-- A program that reads or writes a packet. -/
abbrev RtmpIo := Prog SrsBuffer RtmpError

variable {α : Type}

/-- `if ((err = x) != srs_success) return srs_error_wrap(err, message)` -/
def amf0 (message : String) (x : Amf0Io α) : RtmpIo α :=
  x.mapErr fun e => ⟨.amf0 e.code, message :: e.messages⟩

/-- `srs_error_new(ERROR_RTMP_AMF0_DECODE, message)` -/
def amf0Invalid (message : String) : RtmpError := ⟨.amf0 .decode, [message]⟩

/-- `if (!stream->require(n)) return srs_error_new(code, message)` -/
def packetRequires (n : ℕ) (code : RtmpErrorCode) (message : String) : RtmpIo Unit := fun b =>
  if b.require n then .ok () b else .err ⟨code, [message]⟩ b

/-- An access of the buffer, which returns no error. -/
def packetAccess (x : Dec α) : RtmpIo α := x.mapErr fun e => ⟨.messageDecode, e.messages⟩

/-- What is read unless the buffer is empty. -/
def unlessEmpty (x : RtmpIo α) : RtmpIo (Option α) := do
  let empty ← Prog.read SrsBuffer.empty
  if empty then return none
  else do
    let a ← x
    return some a

/-! ## Texts and constants -/

/-- The bytes of a text. -/
def ascii (text : String) : List UInt8 := text.toList.map fun c => UInt8.ofNat c.toNat

def commandConnect : List UInt8 := ascii "connect"
def commandCreateStream : List UInt8 := ascii "createStream"
def commandPlay : List UInt8 := ascii "play"
def commandResult : List UInt8 := ascii "_result"
def commandReleaseStream : List UInt8 := ascii "releaseStream"
def commandFcPublish : List UInt8 := ascii "FCPublish"
def commandUnpublish : List UInt8 := ascii "FCUnpublish"
def commandPublish : List UInt8 := ascii "publish"
def setDataFrame : List UInt8 := ascii "@setDataFrame"
def onMetaData : List UInt8 := ascii "onMetaData"

/-- The doubles of the defaults, `-2`, `-1`, `1` and `2`. -/
def minusTwo : BitVec 64 := 0xC000000000000000
def minusOne : BitVec 64 := 0xBFF0000000000000
def one : BitVec 64 := 0x3FF0000000000000
def two : BitVec 64 := 0x4000000000000000

/-- `SrsPCUCFmsEvent0` -/
def fmsEvent0 : BitVec 16 := 0x1a

/-- `SrcPCUCSetBufferLength` -/
def setBufferLength : BitVec 16 := 0x03

/-! ## Fields of AMF0 -/

/-- `srs_amf0_read_string(stream, value)`: the value stays if the string is empty. -/
def readStringInto (value : List UInt8) : Amf0Io (List UInt8) := do
  let text ← readString
  return if text = [] then value else text

/-- `srs_amf0_read_null` -/
def readNull : Amf0Io Unit :=
  readMarker .null "requires 1 only %d bytes" "Null invalid marker=%#x"

/-- `srs_amf0_read_undefined` -/
def readUndefined : Amf0Io Unit :=
  readMarker .undefined "requires 1 only %d bytes" "Undefined invalid marker=%#x"

/-- `value->read(stream)`, of a new value of the kind. -/
def readNew (kind : Amf0Kind) : Amf0Io Amf0Any := fun b => readKind (readAny b.rest.length) kind b

/-- `SrsAmf0Any::discovery` and `read` of what it made. -/
def discoverAndRead (discovered read : String) : RtmpIo Amf0Any := do
  let kind ← amf0 discovered discovery
  amf0 read (readNew kind)

/-- `srs_amf0_write_string`, `srs_amf0_write_number` and so on. -/
def writeString (value : List UInt8) : Amf0Io Unit := (Amf0Any.string value).write
def writeNull : Amf0Io Unit := Amf0Any.null.write
def writeUndefined : Amf0Io Unit := Amf0Any.undefined.write

/-- `SrsAmf0Size::str`, `SrsAmf0Size::number` and so on. -/
def Amf0Size.str (value : List UInt8) : ℕ := 1 + Amf0Size.utf8 value
def Amf0Size.number : ℕ := 1 + 8
def Amf0Size.null : ℕ := 1
def Amf0Size.undefined : ℕ := 1
def Amf0Size.boolean : ℕ := 1 + 1
def Amf0Size.object (properties : Properties) : ℕ := (Amf0Any.object properties).totalSize

/-- `SrsAmf0Size::any` and the sizes of what may be missing. -/
def Amf0Size.any : Option Amf0Any → ℕ
  | some value => value.totalSize
  | none => 0

/-! ## The start of a command -/

/-- Each command starts with its name, which is read over the default, and its transaction. -/
def readCommand (commandName : List UInt8) (accepts : List UInt8 → Bool) (invalid : String) :
    RtmpIo (List UInt8 × BitVec 64) := do
  let name ← amf0 "command_name" (readStringInto commandName)
  if accepts name then do
    let transactionId ← amf0 "transaction_id" readNumber
    return (name, transactionId)
  else Prog.throw (amf0Invalid invalid)

def writeCommand (commandName : List UInt8) (transactionId : BitVec 64) : RtmpIo Unit := do
  amf0 "command_name" (writeString commandName)
  amf0 "transaction_id" (writeNumber transactionId)

def commandSize (commandName : List UInt8) : ℕ := Amf0Size.str commandName + Amf0Size.number

/-! ## `connect` -/

structure SrsConnectAppPacket where
  commandName : List UInt8 := commandConnect
  transactionId : BitVec 64 := one
  commandObject : Properties := []
  args : Option Properties := none

namespace SrsConnectAppPacket

/-- `if (!any->is_object()) srs_freep(any); else args = any->to_object()` -/
def objectOnly : Option Amf0Any → Option Properties
  | some (.object properties) => some properties
  | _ => none

/-- `command_object->read(stream)`, which reads the properties of an object. -/
def readCommandObject : RtmpIo Properties := do
  let object ← amf0 "command_object" (readNew .object)
  match object with
  | .object properties => return properties
  | _ => return []

def decode : RtmpIo SrsConnectAppPacket := do
  let (name, transactionId) ← readCommand commandConnect
    (fun name => name ≠ [] ∧ name = commandConnect) "invalid command_name=%s"
  let object ← readCommandObject
  let args ← unlessEmpty (discoverAndRead "args" "args")
  return ⟨name, transactionId, object, objectOnly args⟩

def getSize (p : SrsConnectAppPacket) : ℕ :=
  commandSize p.commandName + Amf0Size.object p.commandObject +
    Amf0Size.any (p.args.map .object)

def encodePacket (p : SrsConnectAppPacket) : RtmpIo Unit := do
  writeCommand p.commandName p.transactionId
  amf0 "command_object" (Amf0Any.object p.commandObject).write
  match p.args with
  | some args => amf0 "args" (Amf0Any.object args).write
  | none => pure ()

end SrsConnectAppPacket

/-! ## `call` -/

structure SrsCallPacket where
  commandName : List UInt8 := []
  transactionId : BitVec 64 := 0
  commandObject : Option Amf0Any := none
  arguments : Option Amf0Any := none

namespace SrsCallPacket

def decode : RtmpIo SrsCallPacket := do
  let (name, transactionId) ← readCommand [] (fun name => name ≠ []) "empty command_name"
  let object ← discoverAndRead "discovery command_object" "command_object"
  let arguments ← unlessEmpty (discoverAndRead "discovery args" "read args")
  return ⟨name, transactionId, some object, arguments⟩

def getSize (p : SrsCallPacket) : ℕ :=
  commandSize p.commandName + Amf0Size.any p.commandObject + Amf0Size.any p.arguments

/-- `if (value && (err = value->write(stream)) != srs_success)` -/
def writeOptional (message : String) : Option Amf0Any → RtmpIo Unit
  | some value => amf0 message value.write
  | none => pure ()

def encodePacket (p : SrsCallPacket) : RtmpIo Unit := do
  writeCommand p.commandName p.transactionId
  writeOptional "command_object" p.commandObject
  writeOptional "args" p.arguments

end SrsCallPacket

/-! ## `createStream` and its response -/

structure SrsCreateStreamPacket where
  commandName : List UInt8 := commandCreateStream
  transactionId : BitVec 64 := two
  commandObject : Amf0Any := .null

namespace SrsCreateStreamPacket

def decode : RtmpIo SrsCreateStreamPacket := do
  let (name, transactionId) ← readCommand commandCreateStream
    (fun name => name ≠ [] ∧ name = commandCreateStream) "invalid command_name=%s"
  amf0 "command_object" readNull
  return ⟨name, transactionId, .null⟩

def getSize (p : SrsCreateStreamPacket) : ℕ := commandSize p.commandName + Amf0Size.null

def encodePacket (p : SrsCreateStreamPacket) : RtmpIo Unit := do
  writeCommand p.commandName p.transactionId
  amf0 "command_object" writeNull

end SrsCreateStreamPacket

/-- The arguments of the constructor are the two numbers. -/
structure SrsCreateStreamResPacket where
  commandName : List UInt8 := commandResult
  transactionId : BitVec 64
  commandObject : Amf0Any := .null
  streamId : BitVec 64

namespace SrsCreateStreamResPacket

def decode : RtmpIo SrsCreateStreamResPacket := do
  let (name, transactionId) ← readCommand commandResult
    (fun name => name ≠ [] ∧ name = commandResult) "invalid command_name=%s"
  amf0 "command_object" readNull
  let streamId ← amf0 "stream_id" readNumber
  return ⟨name, transactionId, .null, streamId⟩

def getSize (p : SrsCreateStreamResPacket) : ℕ :=
  commandSize p.commandName + Amf0Size.null + Amf0Size.number

def encodePacket (p : SrsCreateStreamResPacket) : RtmpIo Unit := do
  writeCommand p.commandName p.transactionId
  amf0 "command_object" writeNull
  amf0 "stream_id" (writeNumber p.streamId)

end SrsCreateStreamResPacket

/-! ## `releaseStream`, `FCPublish` and `FCUnpublish`, and their response -/

structure SrsFMLEStartPacket where
  commandName : List UInt8 := commandReleaseStream
  transactionId : BitVec 64 := 0
  commandObject : Amf0Any := .null
  streamName : List UInt8 := []

namespace SrsFMLEStartPacket

def decode : RtmpIo SrsFMLEStartPacket := do
  let (name, transactionId) ← readCommand commandReleaseStream
    (fun name => name ≠ [] ∧ (name = commandReleaseStream ∨ name = commandFcPublish ∨
      name = commandUnpublish)) "invalid command_name=%s"
  amf0 "command_object" readNull
  let streamName ← amf0 "stream_name" (readStringInto [])
  return ⟨name, transactionId, .null, streamName⟩

def getSize (p : SrsFMLEStartPacket) : ℕ :=
  commandSize p.commandName + Amf0Size.null + Amf0Size.str p.streamName

def encodePacket (p : SrsFMLEStartPacket) : RtmpIo Unit := do
  writeCommand p.commandName p.transactionId
  amf0 "command_object" writeNull
  amf0 "stream_name" (writeString p.streamName)

end SrsFMLEStartPacket

structure SrsFMLEStartResPacket where
  commandName : List UInt8 := commandResult
  transactionId : BitVec 64
  commandObject : Amf0Any := .null
  args : Amf0Any := .undefined

namespace SrsFMLEStartResPacket

def decode : RtmpIo SrsFMLEStartResPacket := do
  let (name, transactionId) ← readCommand commandResult
    (fun name => name ≠ [] ∧ name = commandResult) "invalid command_name=%s"
  amf0 "command_object" readNull
  amf0 "stream_id" readUndefined
  return ⟨name, transactionId, .null, .undefined⟩

def getSize (p : SrsFMLEStartResPacket) : ℕ :=
  commandSize p.commandName + Amf0Size.null + Amf0Size.undefined

def encodePacket (p : SrsFMLEStartResPacket) : RtmpIo Unit := do
  writeCommand p.commandName p.transactionId
  amf0 "command_object" writeNull
  amf0 "args" writeUndefined

end SrsFMLEStartResPacket

/-! ## `publish` -/

structure SrsPublishPacket where
  commandName : List UInt8 := commandPublish
  transactionId : BitVec 64 := 0
  commandObject : Amf0Any := .null
  streamName : List UInt8 := []
  type : List UInt8 := ascii "live"

namespace SrsPublishPacket

def decode : RtmpIo SrsPublishPacket := do
  let (name, transactionId) ← readCommand commandPublish
    (fun name => name ≠ [] ∧ name = commandPublish) "invalid command_name=%s"
  amf0 "command_object" readNull
  let streamName ← amf0 "stream_name" (readStringInto [])
  let type ← unlessEmpty (amf0 "publish type" (readStringInto (ascii "live")))
  return ⟨name, transactionId, .null, streamName, type.getD (ascii "live")⟩

def getSize (p : SrsPublishPacket) : ℕ :=
  commandSize p.commandName + Amf0Size.null + Amf0Size.str p.streamName + Amf0Size.str p.type

def encodePacket (p : SrsPublishPacket) : RtmpIo Unit := do
  writeCommand p.commandName p.transactionId
  amf0 "command_object" writeNull
  amf0 "stream_name" (writeString p.streamName)
  amf0 "type" (writeString p.type)

end SrsPublishPacket

/-! ## `play` -/

structure SrsPlayPacket where
  commandName : List UInt8 := commandPlay
  transactionId : BitVec 64 := 0
  commandObject : Amf0Any := .null
  streamName : List UInt8 := []
  start : BitVec 64 := minusTwo
  duration : BitVec 64 := minusOne
  reset : Bool := true

namespace SrsPlayPacket

/-- `reset` is a boolean, or a number that is compared with `0`, which is `-0` too. -/
def readReset : RtmpIo Bool := do
  let value ← amf0 "reset" srsAmf0ReadAny
  match value with
  | .boolean value => return value
  | .number value => return value ≠ 0 ∧ value ≠ 0x8000000000000000
  | _ => Prog.throw (amf0Invalid "invalid marker=%#x")

def decode : RtmpIo SrsPlayPacket := do
  let (name, transactionId) ← readCommand commandPlay
    (fun name => name ≠ [] ∧ name = commandPlay) "invalid command_name=%s"
  amf0 "command_object" readNull
  let streamName ← amf0 "stream_name" (readStringInto [])
  let start ← unlessEmpty (amf0 "start" readNumber)
  let duration ← unlessEmpty (amf0 "duration" readNumber)
  let reset ← unlessEmpty readReset
  return ⟨name, transactionId, .null, streamName, start.getD minusTwo, duration.getD minusOne,
    reset.getD true⟩

/-- `start != -2 || duration != -1 || !reset` -/
def hasStart (p : SrsPlayPacket) : Bool := p.start ≠ minusTwo ∨ p.duration ≠ minusOne ∨ !p.reset

/-- `duration != -1 || !reset` -/
def hasDuration (p : SrsPlayPacket) : Bool := p.duration ≠ minusOne ∨ !p.reset

def getSize (p : SrsPlayPacket) : ℕ :=
  commandSize p.commandName + Amf0Size.null + Amf0Size.str p.streamName +
    (if p.hasStart then Amf0Size.number else 0) +
    (if p.hasDuration then Amf0Size.number else 0) + (if !p.reset then Amf0Size.boolean else 0)

def encodePacket (p : SrsPlayPacket) : RtmpIo Unit := do
  writeCommand p.commandName p.transactionId
  amf0 "command_object" writeNull
  amf0 "stream_name" (writeString p.streamName)
  Prog.optional p.hasStart (amf0 "start" (writeNumber p.start))
  Prog.optional p.hasDuration (amf0 "duration" (writeNumber p.duration))
  Prog.optional (!p.reset) (amf0 "reset" (writeBoolean p.reset))

end SrsPlayPacket

/-! ## `onMetaData` -/

structure SrsOnMetaDataPacket where
  name : List UInt8 := onMetaData
  metadata : Properties := []

namespace SrsOnMetaDataPacket

/-- The name, behind the one that encoders put in front. -/
def readName : RtmpIo (List UInt8) := do
  let name ← amf0 "name" (readStringInto onMetaData)
  if name = setDataFrame then amf0 "name" (readStringInto name)
  else return name

/-- An object is taken, the properties of an ECMA array are set one by one. -/
def metadataOf : Option Amf0Any → Properties
  | some (.object properties) => properties
  | some (.ecmaArray _ properties) =>
    properties.foldl (fun metadata pair => Properties.set metadata pair.1 (some pair.2)) []
  | _ => []

def decode : RtmpIo SrsOnMetaDataPacket := do
  let name ← readName
  let any ← unlessEmpty (amf0 "metadata" srsAmf0ReadAny)
  return ⟨name, metadataOf any⟩

def getSize (p : SrsOnMetaDataPacket) : ℕ := Amf0Size.str p.name + Amf0Size.object p.metadata

def encodePacket (p : SrsOnMetaDataPacket) : RtmpIo Unit := do
  amf0 "name" (writeString p.name)
  amf0 "metadata" (Amf0Any.object p.metadata).write

end SrsOnMetaDataPacket

/-! ## Packets of four bytes -/

/-- The three packets of the protocol with one number. -/
def readFourBytes : RtmpIo (BitVec 32) := do
  packetRequires 4 .messageDecode "requires 4 only %d bytes"
  let value ← packetAccess (SrsBuffer.readUint 4)
  return BitVec.ofNat 32 value

def writeFourBytes (value : BitVec 32) : RtmpIo Unit := do
  packetRequires 4 .messageEncode "requires 4 only %d bytes"
  packetAccess (SrsBuffer.writeUint 4 value.toNat)

structure SrsSetWindowAckSizePacket where
  ackowledgementWindowSize : BitVec 32 := 0

structure SrsAcknowledgementPacket where
  sequenceNumber : BitVec 32 := 0

structure SrsSetChunkSizePacket where
  chunkSize : BitVec 32 := 128

namespace SrsSetWindowAckSizePacket

def decode : RtmpIo SrsSetWindowAckSizePacket := do return ⟨← readFourBytes⟩

def getSize (_ : SrsSetWindowAckSizePacket) : ℕ := 4

def encodePacket (p : SrsSetWindowAckSizePacket) : RtmpIo Unit :=
  writeFourBytes p.ackowledgementWindowSize

end SrsSetWindowAckSizePacket

namespace SrsAcknowledgementPacket

def decode : RtmpIo SrsAcknowledgementPacket := do return ⟨← readFourBytes⟩

def getSize (_ : SrsAcknowledgementPacket) : ℕ := 4

def encodePacket (p : SrsAcknowledgementPacket) : RtmpIo Unit := writeFourBytes p.sequenceNumber

end SrsAcknowledgementPacket

namespace SrsSetChunkSizePacket

def decode : RtmpIo SrsSetChunkSizePacket := do return ⟨← readFourBytes⟩

def getSize (_ : SrsSetChunkSizePacket) : ℕ := 4

def encodePacket (p : SrsSetChunkSizePacket) : RtmpIo Unit := writeFourBytes p.chunkSize

end SrsSetChunkSizePacket

/-! ## User control -/

structure SrsUserControlPacket where
  eventType : BitVec 16 := 0
  eventData : BitVec 32 := 0
  extraData : BitVec 32 := 0

namespace SrsUserControlPacket

/-- `event_data` is one byte, with its sign, or four. -/
def readEventData (eventType : BitVec 16) : RtmpIo (BitVec 32) :=
  if eventType = fmsEvent0 then do
    packetRequires 1 .messageDecode "requires 1 only %d bytes"
    let value ← packetAccess (SrsBuffer.readUint 1)
    return (BitVec.ofNat 8 value).signExtend 32
  else readFourBytes

/-- `extra_data`, for one type only. The code of its error is that of the encoder. -/
def readExtraData (eventType : BitVec 16) : RtmpIo (BitVec 32) :=
  if eventType = setBufferLength then do
    packetRequires 4 .messageEncode "requires 4 only %d bytes"
    let value ← packetAccess (SrsBuffer.readUint 4)
    return BitVec.ofNat 32 value
  else return 0

def decode : RtmpIo SrsUserControlPacket := do
  packetRequires 2 .messageDecode "requires 2 only %d bytes"
  let value ← packetAccess (SrsBuffer.readUint 2)
  let eventType := BitVec.ofNat 16 value
  let eventData ← readEventData eventType
  let extraData ← readExtraData eventType
  return ⟨eventType, eventData, extraData⟩

/-- The bytes of `event_data`. -/
def eventSize (eventType : BitVec 16) : ℕ := if eventType = fmsEvent0 then 1 else 4

def getSize (p : SrsUserControlPacket) : ℕ :=
  2 + eventSize p.eventType + (if p.eventType = setBufferLength then 4 else 0)

def encodePacket (p : SrsUserControlPacket) : RtmpIo Unit := do
  packetRequires p.getSize .messageEncode "requires %d only %d bytes"
  packetAccess (SrsBuffer.writeUint 2 p.eventType.toNat)
  packetAccess (SrsBuffer.writeUint (eventSize p.eventType) p.eventData.toNat)
  Prog.optional (p.eventType = setBufferLength)
    (packetAccess (SrsBuffer.writeUint 4 p.extraData.toNat))

end SrsUserControlPacket

/-! ## Packets -/

/-- The packets that are both decoded and encoded. -/
inductive SrsPacket
  | connect (p : SrsConnectAppPacket)
  | call (p : SrsCallPacket)
  | createStream (p : SrsCreateStreamPacket)
  | createStreamRes (p : SrsCreateStreamResPacket)
  | fmleStart (p : SrsFMLEStartPacket)
  | fmleStartRes (p : SrsFMLEStartResPacket)
  | publish (p : SrsPublishPacket)
  | play (p : SrsPlayPacket)
  | onMetaData (p : SrsOnMetaDataPacket)
  | setWindowAckSize (p : SrsSetWindowAckSizePacket)
  | acknowledgement (p : SrsAcknowledgementPacket)
  | setChunkSize (p : SrsSetChunkSizePacket)
  | userControl (p : SrsUserControlPacket)

namespace SrsPacket

/-- `get_size` -/
def getSize : SrsPacket → ℕ
  | connect p => p.getSize
  | call p => p.getSize
  | createStream p => p.getSize
  | createStreamRes p => p.getSize
  | fmleStart p => p.getSize
  | fmleStartRes p => p.getSize
  | publish p => p.getSize
  | play p => p.getSize
  | onMetaData p => p.getSize
  | setWindowAckSize p => p.getSize
  | acknowledgement p => p.getSize
  | setChunkSize p => p.getSize
  | userControl p => p.getSize

/-- `encode_packet` -/
def encodePacket : SrsPacket → RtmpIo Unit
  | connect p => p.encodePacket
  | call p => p.encodePacket
  | createStream p => p.encodePacket
  | createStreamRes p => p.encodePacket
  | fmleStart p => p.encodePacket
  | fmleStartRes p => p.encodePacket
  | publish p => p.encodePacket
  | play p => p.encodePacket
  | onMetaData p => p.encodePacket
  | setWindowAckSize p => p.encodePacket
  | acknowledgement p => p.encodePacket
  | setChunkSize p => p.encodePacket
  | userControl p => p.encodePacket

/-- `decode` of a new packet of the same class. -/
def decodeLike : SrsPacket → RtmpIo SrsPacket
  | connect _ => do return connect (← SrsConnectAppPacket.decode)
  | call _ => do return call (← SrsCallPacket.decode)
  | createStream _ => do return createStream (← SrsCreateStreamPacket.decode)
  | createStreamRes _ => do return createStreamRes (← SrsCreateStreamResPacket.decode)
  | fmleStart _ => do return fmleStart (← SrsFMLEStartPacket.decode)
  | fmleStartRes _ => do return fmleStartRes (← SrsFMLEStartResPacket.decode)
  | publish _ => do return publish (← SrsPublishPacket.decode)
  | play _ => do return play (← SrsPlayPacket.decode)
  | onMetaData _ => do return onMetaData (← SrsOnMetaDataPacket.decode)
  | setWindowAckSize _ => do return setWindowAckSize (← SrsSetWindowAckSizePacket.decode)
  | acknowledgement _ => do return acknowledgement (← SrsAcknowledgementPacket.decode)
  | setChunkSize _ => do return setChunkSize (← SrsSetChunkSizePacket.decode)
  | userControl _ => do return userControl (← SrsUserControlPacket.decode)

end SrsPacket

end SrsChatRoom.Protocol
