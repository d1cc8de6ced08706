import SrsChatRoom.Lib.Dict
import SrsChatRoom.Protocol.FastStream

/-!
# Receiving RTMP messages (`recv_interlaced_message`)

The receiver reads one chunk at a time. The basic header names the chunk stream, whose state has
the last message header, the message that is being put together if there is one, and the number
of chunks so far. A chunk of format 3 repeats nothing of the header but the extended timestamp;
since some peers leave that one out, the receiver puts back the four bytes it has read for it
when they are not the timestamp of the message.
-/

namespace SrsChatRoom.Protocol

open Kernel

/-! ## Chunk streams -/

/-- `RTMP_CID_ProtocolControl` -/
def cidProtocolControl : ℤ := 2

/-- `SrsMessageHeader` -/
structure MessageHeader where
  timestampDelta : ℕ
  payloadLength : ℕ
  messageType : Int8
  streamId : Int32
  timestamp : ℕ
  preferCid : ℤ

/-- `SrsMessageHeader()` -/
def MessageHeader.new : MessageHeader := ⟨0, 0, 0, 0, 0, cidProtocolControl⟩

/-- `SrsCommonMessage`, with the payload up to `size`. -/
structure CommonMessage where
  header : MessageHeader
  payload : List UInt8

/-- `SrsCommonMessage()` -/
def CommonMessage.new : CommonMessage := ⟨MessageHeader.new, []⟩

/-- `SrsChunkStream` -/
structure ChunkStream where
  cid : ℕ
  header : MessageHeader
  extendedTimestamp : Bool
  msg : Option CommonMessage
  msgCount : ℕ

/-- `SrsChunkStream(cid)`, with the prefer cid that is set right after it. -/
def ChunkStream.new (cid : ℕ) : ChunkStream :=
  ⟨cid, { MessageHeader.new with preferCid := cid }, false, none, 0⟩

/-! ## The basic header -/

/-- `read_basic_header`: the format and the chunk stream id. -/
def readBasicHeader : Prog Input SrsError (ℕ × ℕ) := do
  Prog.wrap (srsErrorWrap "basic header requires 1 bytes") (Input.grow 1)
  let v ← Input.read1Byte
  let fmt := v.toNat / 64
  let cid := v.toNat % 64
  if 1 < cid then return (fmt, cid)
  else if cid = 0 then
    Prog.wrap (srsErrorWrap "basic header requires 2 bytes") (Input.grow 1)
    let v ← Input.read1Byte
    return (fmt, 64 + v.toNat)
  else
    Prog.wrap (srsErrorWrap "basic header requires 3 bytes") (Input.grow 2)
    let v ← Input.read1Byte
    let w ← Input.read1Byte
    return (fmt, 64 + v.toNat + w.toNat * 256)

/-! ## The message header -/

/-- What `read_message_header` and `read_message_payload` work on. -/
structure ChunkInput where
  input : Input
  chunk : ChunkStream

/-- A program on a chunk stream and the input. -/
abbrev OnChunk := Prog ChunkInput SrsError

/-- A program that only reads. -/
def ofInput {α : Type} (x : Prog Input SrsError α) : OnChunk α := fun t =>
  match x t.input with
  | .ok a i => .ok a { t with input := i }
  | .err e i => .err e { t with input := i }
  | .fault => .fault
  | .hang => .hang

/-- The chunk stream. -/
def getChunk : OnChunk ChunkStream := Prog.read ChunkInput.chunk

/-- A change of the chunk stream. -/
def modifyChunk (f : ChunkStream → ChunkStream) : OnChunk Unit := fun t =>
  .ok () { t with chunk := f t.chunk }

theorem ofInput_ok {α : Type} {x : Prog Input SrsError α} {i i' : Input} {a : α}
    (h : x i = .ok a i') (chunk : ChunkStream) : ofInput x ⟨i, chunk⟩ = .ok a ⟨i', chunk⟩ := by
  rw [ofInput, h]

theorem ofInput_err {α : Type} {x : Prog Input SrsError α} {i i' : Input} {e : SrsError}
    (h : x i = .err e i') (chunk : ChunkStream) : ofInput x ⟨i, chunk⟩ = .err e ⟨i', chunk⟩ := by
  rw [ofInput, h]

@[simp] theorem getChunk_apply (t : ChunkInput) : getChunk t = .ok t.chunk t := rfl

@[simp] theorem modifyChunk_apply (f : ChunkStream → ChunkStream) (t : ChunkInput) :
    modifyChunk f t = .ok () { t with chunk := f t.chunk } := rfl

/-- The checks of the format: a fresh chunk stream starts with 0 or 1, and a new message does not
start inside another one. -/
def checkFmt (fmt : ℕ) : OnChunk Unit := do
  let chunk ← getChunk
  if chunk.msgCount = 0 ∧ fmt ≠ 0 ∧ fmt ≠ 1 then
    Prog.throw (srsErrorNew .rtmpChunkStart ("fresh chunk expect fmt=0, actual=" ++ toString fmt ++
      ", cid=" ++ toString chunk.cid))
  else if chunk.msg.isSome ∧ fmt = 0 then
    Prog.throw (srsErrorNew .rtmpChunkStart "for existed chunk, fmt should not be 0")
  else pure ()

/-- `if (!chunk->msg) chunk->msg = new SrsCommonMessage()` -/
def createMsg : OnChunk Unit :=
  modifyChunk fun chunk => { chunk with msg := some (chunk.msg.getD CommonMessage.new) }

/-- `mh_sizes` -/
def mhSize (fmt : ℕ) : ℕ := [11, 7, 3, 0].getD fmt 0

/-- The timestamp field of a header of format 0, 1 or 2. -/
def setTimestampDelta (fmt delta : ℕ) : OnChunk Unit := modifyChunk fun chunk =>
  let extended : Bool := 0xFFFFFF ≤ delta
  { chunk with
    extendedTimestamp := extended
    header := { chunk.header with
      timestampDelta := delta
      timestamp :=
        if extended then chunk.header.timestamp
        else if fmt = 0 then delta
        else chunk.header.timestamp + delta } }

/-- The payload length, the message type and, for format 0, the stream id of a header. -/
def setMessageFields (fmt : ℕ) (isFirst : Bool) (p : List UInt8) : OnChunk Unit := do
  let payloadLength := ofBytesBE ((p.drop 3).take 3)
  let chunk ← getChunk
  if !isFirst && chunk.header.payloadLength ≠ payloadLength then
    Prog.throw (srsErrorNew .rtmpPacketSize ("msg in chunk cache, size=" ++
      toString chunk.header.payloadLength ++ " cannot change to " ++ toString payloadLength))
  else
    modifyChunk fun chunk => { chunk with
      header := { chunk.header with
        payloadLength := payloadLength
        messageType := (p.getD 6 0).toInt8
        streamId :=
          if fmt = 0 then (UInt32.ofNat (ofBytesLE ((p.drop 7).take 4))).toInt32
          else chunk.header.streamId } }

/-- The part of `read_message_header` for the fields that the format has. -/
def readHeaderFields (fmt : ℕ) (isFirst : Bool) : OnChunk Unit :=
  if fmt ≤ 2 then do
    let p ← ofInput (Input.readSlice (mhSize fmt))
    setTimestampDelta fmt (ofBytesBE (p.take 3))
    if fmt ≤ 1 then setMessageFields fmt isFirst p else pure ()
  else
    modifyChunk fun chunk =>
      if isFirst && !chunk.extendedTimestamp then
        { chunk with header := { chunk.header with
            timestamp := chunk.header.timestamp + chunk.header.timestampDelta } }
      else chunk

/-- The part of `read_message_header` for the extended timestamp. -/
def readExtendedTimestamp (isFirst : Bool) : OnChunk Unit := do
  let chunk ← getChunk
  if chunk.extendedTimestamp then
    ofInput (Prog.wrap (srsErrorWrap "read 4 bytes ext timestamp") (Input.grow 4))
    let p ← ofInput (Input.readSlice 4)
    let timestamp := ofBytesBE p % 0x80000000
    let chunkTimestamp := chunk.header.timestamp % 0x100000000
    if !isFirst ∧ 0 < chunkTimestamp ∧ chunkTimestamp ≠ timestamp then
      ofInput (Input.skipBack 4)
    else
      modifyChunk fun chunk => { chunk with header := { chunk.header with timestamp := timestamp } }
  else pure ()

/-- The end of `read_message_header`: 31 bits of the timestamp, and the header goes to the
message. -/
def finishHeader : OnChunk Unit := modifyChunk fun chunk =>
  let header := { chunk.header with timestamp := chunk.header.timestamp % 0x80000000 }
  { chunk with
    header := header
    msg := chunk.msg.map fun msg => { msg with header := header }
    msgCount := chunk.msgCount + 1 }

/-- `read_message_header` -/
def readMessageHeader (fmt : ℕ) : OnChunk Unit := do
  let chunk ← getChunk
  let isFirst := chunk.msg.isNone
  checkFmt fmt
  createMsg
  ofInput (Prog.wrap (srsErrorWrap ("read " ++ toString (mhSize fmt) ++ " bytes message header"))
    (Input.grow (mhSize fmt)))
  readHeaderFields fmt isFirst
  readExtendedTimestamp isFirst
  finishHeader

/-! ## The payload -/

/-- The part of `read_message_payload` that takes the next piece of the payload. -/
def readPiece (payloadLength inChunkSize : ℕ) (msg : CommonMessage) : OnChunk CommonMessage := do
  let payloadSize := min (payloadLength - msg.payload.length) inChunkSize
  ofInput (Prog.wrap (srsErrorWrap ("read " ++ toString payloadSize ++ " bytes payload"))
    (Input.grow payloadSize))
  let piece ← ofInput (Input.readSlice payloadSize)
  return { msg with payload := msg.payload ++ piece }

/-- `read_message_payload`. The buffer that `create_payload` allocates has `payload_length` bytes,
as many as are copied to it. -/
def readMessagePayload (inChunkSize : ℕ) : OnChunk (Option CommonMessage) := do
  let chunk ← getChunk
  match chunk.msg with
  | none => Prog.abort
  | some msg =>
    if chunk.header.payloadLength = 0 then
      modifyChunk fun chunk => { chunk with msg := none }
      return some msg
    else if chunk.header.payloadLength < msg.payload.length then
      -- a negative size does not pass the assertion of `read_slice`
      Prog.abort
    else
      let msg ← readPiece chunk.header.payloadLength inChunkSize msg
      if chunk.header.payloadLength = msg.payload.length then
        modifyChunk fun chunk => { chunk with msg := none }
        return some msg
      else
        modifyChunk fun chunk => { chunk with msg := some msg }
        return none

/-! ## The receiver -/

/-- `SRS_PERF_CHUNK_STREAM_CACHE` -/
abbrev chunkStreamCache : ℕ := 16

/-- The receiving side of `SrsProtocol`. -/
structure Receiver where
  input : Input
  inChunkSize : ℕ
  csCache : Vector ChunkStream chunkStreamCache
  chunkStreams : Dict ℕ ChunkStream

/-- A new connection. -/
def Receiver.new (nbBuffer inChunkSize : ℕ) (skt : Socket) : Receiver where
  input := ⟨FastStream.new nbBuffer, skt⟩
  inChunkSize := inChunkSize
  csCache := Vector.ofFn fun cid => ChunkStream.new cid
  chunkStreams := Dict.empty

/-- A program of the receiver. -/
abbrev Recv := Prog Receiver SrsError

/-- A program that only reads. -/
def onInput {α : Type} (x : Prog Input SrsError α) : Recv α := fun r =>
  match x r.input with
  | .ok a i => .ok a { r with input := i }
  | .err e i => .err e { r with input := i }
  | .fault => .fault
  | .hang => .hang

/-- The chunk stream of an id, in the cache or in the map. -/
def Receiver.chunk (r : Receiver) (cid : ℕ) : ChunkStream :=
  if h : cid < chunkStreamCache then r.csCache[cid]
  else (r.chunkStreams.get? cid).getD (ChunkStream.new cid)

/-- Change what the pointer to the chunk stream of an id points to. -/
def Receiver.setChunk (r : Receiver) (cid : ℕ) (chunk : ChunkStream) : Receiver :=
  if h : cid < chunkStreamCache then { r with csCache := r.csCache.set cid chunk h }
  else { r with chunkStreams := r.chunkStreams.set cid chunk }

/-- A new chunk stream where the map has none for the id. -/
def createChunk (cid : ℕ) : Recv Unit := fun r =>
  if cid < chunkStreamCache ∨ r.chunkStreams.contains cid then .ok () r
  else .ok () { r with chunkStreams := r.chunkStreams.set cid (ChunkStream.new cid) }

/-- Run a program on the chunk stream of an id. -/
def onChunk {α : Type} (cid : ℕ) (x : OnChunk α) : Recv α := fun r =>
  match x ⟨r.input, r.chunk cid⟩ with
  | .ok a t => .ok a ({ r with input := t.input }.setChunk cid t.chunk)
  | .err e t => .err e ({ r with input := t.input }.setChunk cid t.chunk)
  | .fault => .fault
  | .hang => .hang

/-- `recv_interlaced_message`: reads one chunk; gives the message when it is complete. -/
def recvInterlacedMessage : Recv (Option CommonMessage) := do
  let (fmt, cid) ← onInput (Prog.wrap (srsErrorWrap "read basic header") readBasicHeader)
  createChunk cid
  onChunk cid (Prog.wrap (srsErrorWrap "read message header") (readMessageHeader fmt))
  let inChunkSize ← Prog.read Receiver.inChunkSize
  onChunk cid (Prog.wrap (srsErrorWrap "read message payload") (readMessagePayload inChunkSize))

/-- Some calls of `recv_interlaced_message`: the messages they give. -/
def recvMessages : ℕ → Recv (List CommonMessage)
  | 0 => return []
  | n + 1 => do
    let msg ← recvInterlacedMessage
    let msgs ← recvMessages n
    return msg.toList ++ msgs

/-! ## The chunk streams of the receiver -/

section Chunks

variable (r : Receiver) (cid : ℕ)

theorem chunk_setChunk (chunk : ChunkStream) (cid' : ℕ) :
    (r.setChunk cid chunk).chunk cid' = if cid' = cid then chunk else r.chunk cid' := by
  unfold Receiver.setChunk Receiver.chunk
  by_cases h : cid < chunkStreamCache
  · rw [dif_pos h]
    by_cases h' : cid' < chunkStreamCache
    · rw [dif_pos h', dif_pos h', Vector.getElem_set]
      simp only [eq_comm]
    · have hne : cid' ≠ cid := fun heq => h' (heq ▸ h)
      rw [dif_neg h', dif_neg h', if_neg hne]
  · rw [dif_neg h]
    by_cases h' : cid' < chunkStreamCache
    · have hne : cid' ≠ cid := fun heq => h (heq ▸ h')
      rw [dif_pos h', dif_pos h', if_neg hne]
    · rw [dif_neg h', dif_neg h', Dict.get?_set]
      by_cases heq : cid' = cid
      · rw [if_pos heq, if_pos heq.symm]
        rfl
      · rw [if_neg heq, if_neg (Ne.symm heq)]

@[simp] theorem input_setChunk (chunk : ChunkStream) : (r.setChunk cid chunk).input = r.input := by
  unfold Receiver.setChunk
  split <;> rfl

@[simp] theorem inChunkSize_setChunk (chunk : ChunkStream) :
    (r.setChunk cid chunk).inChunkSize = r.inChunkSize := by
  unfold Receiver.setChunk
  split <;> rfl

/-- A chunk stream that is created is what the map was taken to have. -/
theorem createChunk_run : ∃ r', createChunk cid r = .ok () r' ∧ r'.input = r.input ∧
    r'.inChunkSize = r.inChunkSize ∧ ∀ cid', r'.chunk cid' = r.chunk cid' := by
  unfold createChunk
  by_cases h : cid < chunkStreamCache ∨ r.chunkStreams.contains cid
  · exact ⟨r, if_pos h, rfl, rfl, fun _ => rfl⟩
  · refine ⟨_, if_neg h, rfl, rfl, fun cid' => ?_⟩
    unfold Receiver.chunk
    split
    · rfl
    · rw [Dict.get?_set]
      by_cases heq : cid = cid'
      · have hnone : r.chunkStreams.get? cid' = none := by
          rw [← heq, ← Dict.not_mem_keys_iff, ← Dict.contains_iff]
          exact fun hc => h (Or.inr hc)
        rw [if_pos heq, hnone, heq]
        rfl
      · rw [if_neg heq]

theorem chunk_new (nbBuffer inChunkSize : ℕ) (skt : Socket) :
    (Receiver.new nbBuffer inChunkSize skt).chunk cid = ChunkStream.new cid := by
  unfold Receiver.chunk Receiver.new
  split
  · simp
  · rw [Dict.get?_empty]
    rfl

end Chunks

end SrsChatRoom.Protocol
