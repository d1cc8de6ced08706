import SrsChatRoom.Kernel.Buffer
import SrsChatRoom.Lib.Endings

/-!
# Transport streams: adaptation fields and PES headers (`srs_kernel_ts.cpp`)

A packet has 188 bytes. Behind its header of four bytes there may be an adaptation field, and the
payload. The payload of a packet that starts a message starts with the header of the message, the
PES header. Of the fields of both the reader uses only the times, the lengths and the id of the
stream; the others it reads and passes over.
-/

namespace SrsChatRoom.Kernel.Ts

open SrsChatRoom.Prog (refuse optional)

/-! ## Errors -/

/-- `ERROR_STREAM_CASTER_TS_HEADER` and so on. -/
inductive TsErrorCode
  | header
  | syncByte
  | af
  | pse
  | psi
  | pat
  | pmt
  | gbPsPse
  | hlsNoStream
  | contextNotReady
  | handler
  deriving DecidableEq

/-- An error: the code and the messages, the outermost first. -/
structure TsError where
  code : TsErrorCode
  messages : List String

def TsError.new (code : TsErrorCode) (message : String) : TsError := ⟨code, [message]⟩

def TsError.wrap (message : String) (e : TsError) : TsError :=
  { e with messages := message :: e.messages }

/-! ## Access to the buffer -/

/-- A program that reads or writes a buffer. -/
abbrev TsIo := Prog SrsBuffer TsError

/-- An access of the buffer, which returns no error. -/
def access {α : Type} (x : Dec α) : TsIo α := fun b =>
  match x b with
  | .ok a b' => .ok a b'
  | .err e b' => .err ⟨.header, e.messages⟩ b'
  | .fault => .fault
  | .hang => .hang

/-- `if (!stream->require(n)) return srs_error_new(code, message)` -/
def requires (n : ℤ) (code : TsErrorCode) (message : String) : TsIo Unit := fun b =>
  if b.require n then .ok () b else .err (TsError.new code message) b

/-- `stream->read_1bytes()` and so on. -/
def readUint (n : ℕ) : TsIo ℕ := access (SrsBuffer.readUint n)

/-- `stream->read_bytes(data, n)`, also `data()` and `skip(n)`. -/
def readBytes (n : ℤ) : TsIo (List UInt8) := access (SrsBuffer.readBytes n)

/-- `stream->skip(n)` -/
def skip (n : ℤ) : TsIo Unit := access (SrsBuffer.skip n)

/-- `stream->pos()` -/
def pos : TsIo ℕ := Prog.read SrsBuffer.pos

/-- `stream->skip(stream->size() - stream->pos())` -/
def skipAll : TsIo Unit := do
  let left ← Prog.read SrsBuffer.left
  skip left

/-! ## The adaptation field -/

/-- `adaption_field_control` has an adaptation field. -/
def hasAdaptationField (control : ℕ) : Bool := control = 2 ∨ control = 3

/-- `adaption_field_control` has a payload. -/
def hasPayload (control : ℕ) : Bool := control = 1 ∨ control = 3

/-- A field of `k` bytes that the reader does not use. -/
def field (k : ℕ) (message : String) : TsIo Unit := do
  requires k .af message
  let _ ← readBytes k

/-- The private data, behind its length. -/
def privateData : TsIo Unit := do
  requires 1 .af "ts: demux af transport_private_data_flag"
  let length ← readUint 1
  if length > 0 then field length "ts: demux af transport_private_data"
  else return ()

/-- The extension. Its length also counts the reserved bytes behind its fields. -/
def adaptationFieldExtension : TsIo Unit := do
  let posAfExt ← pos
  requires 2 .af "ts: demux af adaptation_field_extension_flag"
  let length ← readUint 1
  let ltwfv ← readUint 1
  optional (ltwfv.testBit 7) (field 2 "ts: demux af ltw_flag")
  optional (ltwfv.testBit 6) (field 3 "ts: demux af piecewise_rate_flag")
  optional (ltwfv.testBit 5) (field 5 "ts: demux af seamless_splice_flag")
  let posNow ← pos
  skip (length - (posNow - posAfExt : ℤ))

/-- The fields of the adaptation field, behind its length. -/
def adaptationFields (length : ℕ) : TsIo Unit := do
  let posAf ← pos
  let tmpv ← readUint 1
  optional (tmpv.testBit 4) (field 6 "ts: demux af PCR_flag")
  optional (tmpv.testBit 3) (field 6 "ts: demux af OPCR_flag")
  optional (tmpv.testBit 2) (field 1 "ts: demux af splicing_point_flag")
  optional (tmpv.testBit 1) privateData
  optional (tmpv.testBit 0) adaptationFieldExtension
  let posNow ← pos
  skip (length - (posNow - posAf : ℤ))

/-- `SrsTsAdaptationField::decode` -/
def SrsTsAdaptationField.decode (control : ℕ) : TsIo Unit := do
  requires 2 .af "ts: decode af"
  let length ← readUint 1
  refuse (control = 3 ∧ length > 182)
    (TsError.new .af "ts: demux af length failed, must in [0, 182], actual=%d")
  refuse (control = 2 ∧ length ≠ 183)
    (TsError.new .af "ts: demux af length failed, must be 183, actual=%d")
  if length = 0 then return ()
  else adaptationFields length

/-! ## The header of a PES packet -/

/-- What `SrsMpegPES` has decoded. -/
structure SrsMpegPES where
  streamId : ℕ
  pesPacketLength : ℕ
  ptsDtsFlags : ℕ
  pts : ℤ
  dts : ℤ
  hasPayload : Bool
  nbPayload : ℕ

/-- The streams whose packets have data at once: `SrsTsPESStreamIdProgramStreamMap` and so on. -/
def isDataStream (sid : ℕ) : Bool :=
  sid = 0xbc ∨ sid = 0xbf ∨ sid = 0xf0 ∨ sid = 0xf1 ∨ sid = 0xff ∨ sid = 0xf2 ∨ sid = 0xf8

/-- `SrsTsPESStreamIdPaddingStream` -/
def isPaddingStream (sid : ℕ) : Bool := sid = 0xbe

/-- `SrsMpegPES::decode_33bits_dts_pts` -/
def decode33bitsDtsPts : TsIo ℤ := do
  requires 5 .pse "ts: demux PSE dts/pts"
  let dtsPts30To32 ← readUint 1
  refuse (¬ dtsPts30To32.testBit 0) (TsError.new .pse "ts: demux PSE dts/pts 30-32")
  refuse (dtsPts30To32 / 16 = 0) (TsError.new .pse "ts: demux PSE dts/pts 30-32")
  let dtsPts15To29 ← readUint 2
  refuse (¬ dtsPts15To29.testBit 0) (TsError.new .pse "ts: demux PSE dts/pts 15-29")
  let dtsPts0To14 ← readUint 2
  refuse (¬ dtsPts0To14.testBit 0) (TsError.new .pse "ts: demux PSE dts/pts 0-14")
  return ((dtsPts30To32 / 2 % 8) * 2 ^ 30 + (dtsPts15To29 / 2) * 2 ^ 15 + dtsPts0To14 / 2 : ℕ)

/-- The presentation and the decoding time, as the flags say. -/
def timestamps (ptsDtsFlags : ℕ) : TsIo (ℤ × ℤ) :=
  if ptsDtsFlags = 2 then do
    let pts ← Prog.wrap (TsError.wrap "dts/pts") decode33bitsDtsPts
    return (pts, pts)
  else if ptsDtsFlags = 3 then do
    let pts ← Prog.wrap (TsError.wrap "dts/pts") decode33bitsDtsPts
    let dts ← Prog.wrap (TsError.wrap "dts/pts") decode33bitsDtsPts
    return (pts, dts)
  else return (0, 0)

/-- `flag ? n : 0` -/
def width (flag : Bool) (n : ℕ) : ℕ := if flag then n else 0

/-- `pack_field`. The bytes that are needed behind its length are taken as `16` fewer than those
of the fields from here on, as if the private data had been counted among them; that is so only
with `PES_private_data_flag`. -/
def packField (nbRequired : ℕ) : TsIo Unit := do
  let packFieldLength ← readUint 1
  if packFieldLength > 0 then do
    requires (nbRequired - 16 - 1 + packFieldLength : ℤ) .pse "ts: demux PSE ext pack"
    let _ ← readBytes packFieldLength
  else return ()

/-- `PES_extension_field`, behind its length of 7 bits. -/
def pesExtensionField : TsIo Unit := do
  let v ← readUint 1
  if v % 128 > 0 then do
    requires (v % 128 : ℕ) .pse "ts: demux PSE ext field"
    let _ ← readBytes (v % 128 : ℕ)
  else return ()

/-- The extension of the header. -/
def pesExtension : TsIo Unit := do
  let efv ← readUint 1
  let nbRequired := width (efv.testBit 7) 16 + width (efv.testBit 6) 1 + width (efv.testBit 5) 2 +
    width (efv.testBit 4) 2 + width (efv.testBit 0) 1
  requires nbRequired .pse "ts: demux PSE ext payload"
  optional (efv.testBit 7) (do let _ ← readBytes 16)
  optional (efv.testBit 6) (packField nbRequired)
  optional (efv.testBit 5) (do
    let _ ← readUint 1
    let _ ← readUint 1)
  optional (efv.testBit 4) (do let _ ← readUint 2)
  optional (efv.testBit 0) pesExtensionField

/-- The header of a stream that has flags, from the flags on. -/
def pesFlags (streamId pesPacketLength posPacket : ℕ) : TsIo SrsMpegPES := do
  requires 3 .pse "ts: demux PSE flags"
  let _ ← readUint 1
  let pefv ← readUint 1
  let pesHeaderDataLength ← readUint 1
  let posHeader ← pos
  let ptsDtsFlags := pefv / 64 % 4
  requires ((if ptsDtsFlags = 2 then 5 else 0) + (if ptsDtsFlags = 3 then 10 else 0) +
    width (pefv.testBit 5) 6 + width (pefv.testBit 4) 3 + width (pefv.testBit 3) 1 +
    width (pefv.testBit 2) 1 + width (pefv.testBit 1) 2 + width (pefv.testBit 0) 1 : ℕ)
    .pse "ts: demux PSE payload"
  let (pts, dts) ← timestamps ptsDtsFlags
  optional (pefv.testBit 5) (skip 6)
  optional (pefv.testBit 4) (do let _ ← readUint 3)
  optional (pefv.testBit 3) (do let _ ← readUint 1)
  optional (pefv.testBit 2) (do let _ ← readUint 1)
  optional (pefv.testBit 1) (do let _ ← readUint 2)
  optional (pefv.testBit 0) pesExtension
  let posFields ← pos
  let nbStuffings : ℤ := pesHeaderDataLength - (posFields - posHeader)
  optional (nbStuffings > 0) (do
    requires nbStuffings .pse "ts: demux PSE stuffings"
    skip nbStuffings)
  let posNow ← pos
  let nbPacket : ℤ := pesPacketLength - (posNow - posPacket)
  refuse (pesPacketLength > 0 ∧ nbPacket < 0)
    (TsError.new .pse "ts: Invalid PES_packet_length=%d, pos_packet=%d, pos=%d")
  return { streamId := streamId, pesPacketLength := pesPacketLength, ptsDtsFlags := ptsDtsFlags,
           pts := pts, dts := dts, hasPayload := true,
           nbPayload := if pesPacketLength > 0 then nbPacket.toNat else 0 }

/-- `SrsMpegPES::decode` -/
def SrsMpegPES.decode : TsIo SrsMpegPES := do
  requires 6 .pse "ts: demux PSE"
  let packetStartCodePrefix ← readUint 3
  let streamId ← readUint 1
  let pesPacketLength ← readUint 2
  refuse (packetStartCodePrefix ≠ 0x01)
    (TsError.new .pse "ts: demux PES start code failed, expect=0x01, actual=%#x")
  let posPacket ← pos
  if isDataStream streamId then do
    refuse (pesPacketLength = 0)
      (TsError.new .gbPsPse "ts: Invalid PES_packet_length=%d for PS")
    return ⟨streamId, pesPacketLength, 0, 0, 0, true, pesPacketLength⟩
  else if isPaddingStream streamId then do
    skipAll
    return ⟨streamId, pesPacketLength, 0, 0, 0, false, 0⟩
  else pesFlags streamId pesPacketLength posPacket

end SrsChatRoom.Kernel.Ts
