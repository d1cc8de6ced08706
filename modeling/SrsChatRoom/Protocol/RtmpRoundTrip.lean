import SrsChatRoom.Protocol.RtmpRecv
import SrsChatRoom.Protocol.RtmpSend

/-!
# The RTMP chunk stream round trip

What `do_send_messages` writes, `recv_interlaced_message` turns back into the messages, however
the network cuts the bytes up. Between two chunks of a message the state of its chunk stream is
`midMessage`; each chunk adds its piece of the payload to it, and the last one gives the message.

Two kinds of messages are outside: the sender writes the low six bits of the prefer cid into a
basic header of one byte, where 0 and 1 announce a longer one; and the receiver takes the payload
of a chunk from its buffer, which has a fixed size.
-/

namespace SrsChatRoom.Protocol

open Kernel
open SrsChatRoom.Prog (bind_ok bind_err)
open List (append_assoc cons_append drop_left' length_append take_left')

/-! ## Reading what is there -/

section Input

variable {i : Input} {rest : List UInt8}

/-- `grow` and then `read_slice`, for bytes that come next. -/
theorem take_run {x : List UInt8} {n : ℕ} (hn : x.length = n) (hi : i.unread = x ++ rest)
    (hnb : n ≤ i.inBuffer.nbBuffer) :
    ∃ i₁ i₂, Input.grow n i = .ok () i₁ ∧ Input.readSlice n i₁ = .ok x i₂ ∧
      i₂.unread = rest ∧ i₂.inBuffer.nbBuffer = i.inBuffer.nbBuffer := by
  have hlen : n ≤ i.unread.length := by
    rw [hi, length_append]
    omega
  obtain ⟨i₁, hgrow, hunread, hsize, hnb₁⟩ := Input.grow_run hlen hnb
  obtain ⟨i₂, hread, hrest, hnb₂⟩ := Input.readSlice_run hsize
  rw [hunread, hi] at hread hrest
  rw [take_left' hn] at hread
  rw [drop_left' hn] at hrest
  exact ⟨i₁, i₂, hgrow, hread, hrest, hnb₂.trans hnb₁⟩

/-- A basic header of one byte. -/
theorem readBasicHeader_run {fmt cid : ℕ} (hfmt : fmt < 4) (hcid : 2 ≤ cid) (hcid' : cid < 64)
    (hi : i.unread = UInt8.ofNat (fmt * 64 + cid) :: rest) (hnb : 1 ≤ i.inBuffer.nbBuffer) :
    ∃ i', readBasicHeader i = .ok (fmt, cid) i' ∧ i'.unread = rest ∧
      i'.inBuffer.nbBuffer = i.inBuffer.nbBuffer := by
  obtain ⟨i₁, hgrow, hunread, hsize, hnb₁⟩ := Input.grow_run
    (show 1 ≤ i.unread.length by rw [hi, List.length_cons]; omega) hnb
  obtain ⟨i₂, hread, hrest, hnb₂⟩ := Input.read1Byte_run hsize (hunread.trans hi)
  have hbyte : (UInt8.ofNat (fmt * 64 + cid)).toNat = fmt * 64 + cid := by
    rw [UInt8.toNat_ofNat']
    omega
  have hhigh : (fmt * 64 + cid) / 64 = fmt := by omega
  have hlow : (fmt * 64 + cid) % 64 = cid := by omega
  refine ⟨i₂, ?_, hrest, hnb₂.trans hnb₁⟩
  rw [readBasicHeader, bind_ok (Prog.wrap_ok hgrow _), bind_ok hread, hbyte, hhigh, hlow,
    if_pos (by omega)]
  rfl

end Input

/-! ## Headers -/

section Header

variable (m : SharedPtrMessage) {i : Input} {rest : List UInt8}

/-- The timestamp field of the first header. -/
def SharedPtrMessage.timestampField : ℕ :=
  if m.timestamp32 < extendedTimestamp then m.timestamp32 else 0xFFFFFF

/-- The message header that the receiver has for a message. -/
def SharedPtrMessage.received (preferCid : ℤ) : MessageHeader where
  timestampDelta := m.timestampField
  payloadLength := m.payload.length
  messageType := m.messageType
  streamId := m.streamId
  timestamp := m.timestamp32 % 0x80000000
  preferCid := preferCid

/-- The chunk stream after `n` chunks, the last ones of which have brought `got` of a message. -/
def midMessage (chunk : ChunkStream) (n : ℕ) (got : List UInt8) : ChunkStream :=
  { chunk with
    header := m.received chunk.header.preferCid
    extendedTimestamp := extendedTimestamp ≤ m.timestamp32
    msg := some ⟨m.received chunk.header.preferCid, got⟩
    msgCount := n }

/-- The chunk stream before the extended timestamp of the first header. -/
def beforeExtended (chunk : ChunkStream) : ChunkStream :=
  { chunk with
    header := { m.received chunk.header.preferCid with
      timestamp := if extendedTimestamp ≤ m.timestamp32 then chunk.header.timestamp
        else m.timestamp32 }
    extendedTimestamp := extendedTimestamp ≤ m.timestamp32
    msg := some CommonMessage.new }

theorem timestampField_lt : m.timestampField < 256 ^ 3 := by
  unfold SharedPtrMessage.timestampField extendedTimestamp
  split <;> omega

theorem extendedTimestamp_le_iff :
    0xFFFFFF ≤ m.timestampField ↔ extendedTimestamp ≤ m.timestamp32 := by
  unfold SharedPtrMessage.timestampField extendedTimestamp
  split <;> omega

/-- The fields of the first header are what they were written from. -/
theorem readHeaderFields_run (hlen : m.payload.length < 2 ^ 24) {chunk : ChunkStream}
    (hsize : 11 ≤ i.inBuffer.size)
    (hi : i.unread = bytesBE 3 m.timestampField ++ (bytesBE 3 m.payload.length ++
      (m.messageType.toUInt8 :: (bytesLE 4 m.streamId.toUInt32.toNat ++ rest)))) :
    ∃ i', readHeaderFields 0 true ⟨i, { chunk with msg := some CommonMessage.new }⟩ =
        .ok () ⟨i', beforeExtended m chunk⟩ ∧ i'.unread = rest ∧
      i'.inBuffer.nbBuffer = i.inBuffer.nbBuffer := by
  obtain ⟨i', hread, hrest, hnb⟩ := Input.readSlice_run hsize
  set p := bytesBE 3 m.timestampField ++ (bytesBE 3 m.payload.length ++
    (m.messageType.toUInt8 :: bytesLE 4 m.streamId.toUInt32.toNat)) with hp
  have hplen : p.length = 11 := by simp [hp]
  have hi' : i.unread = p ++ rest := by
    rw [hi, hp]
    simp only [append_assoc, cons_append]
  rw [hi', take_left' hplen] at hread
  rw [hi', drop_left' hplen] at hrest
  have hslice : Input.readSlice (mhSize 0) i = .ok p i' := hread
  -- the pieces of the slice
  have hdelta : ofBytesBE (p.take 3) = m.timestampField := by
    rw [hp, take_left' (length_bytesBE _ _), ofBytesBE_bytesBE,
      Nat.mod_eq_of_lt (timestampField_lt m)]
  have hlength : ofBytesBE ((p.drop 3).take 3) = m.payload.length := by
    rw [hp, drop_left' (length_bytesBE _ _), take_left' (length_bytesBE _ _),
      ofBytesBE_bytesBE, Nat.mod_eq_of_lt (show _ < 256 ^ 3 from hlen)]
  have htype : (p.getD 6 0).toInt8 = m.messageType := by
    rw [hp, ← append_assoc, List.getD_eq_getElem?_getD, List.getElem?_append_right (by simp)]
    simp
  have hsid : (UInt32.ofNat (ofBytesLE ((p.drop 7).take 4))).toInt32 = m.streamId := by
    have hdrop : p.drop 7 = bytesLE 4 m.streamId.toUInt32.toNat := by
      rw [hp, List.append_cons, ← append_assoc, ← append_assoc,
        drop_left' (by simp)]
    have hmod : m.streamId.toUInt32.toNat % 256 ^ 4 = m.streamId.toUInt32.toNat :=
      Nat.mod_eq_of_lt (UInt32.toNat_lt _)
    rw [hdrop, List.take_of_length_le (by simp), ofBytesLE_bytesLE, hmod, UInt32.ofNat_toNat,
      Int32.toInt32_toUInt32]
  refine ⟨i', ?_, hrest, hnb⟩
  rw [readHeaderFields, if_pos (by omega), bind_ok (ofInput_ok hslice _), hdelta,
    setTimestampDelta, bind_ok (modifyChunk_apply _ _), if_pos (by omega), setMessageFields,
    bind_ok (getChunk_apply _), hlength, htype, hsid]
  have hext := extendedTimestamp_le_iff m
  by_cases h : extendedTimestamp ≤ m.timestamp32
  · simp [beforeExtended, SharedPtrMessage.received, h, hext.mpr h]
  · have hfield : m.timestampField = m.timestamp32 := if_pos (not_le.mp h)
    have hsmall : ¬ 0xFFFFFF ≤ m.timestamp32 := h
    simp only [beforeExtended, SharedPtrMessage.received, hfield, h, hsmall, if_true, if_false,
      decide_false]
    rfl

theorem timestamp32_lt : m.timestamp32 < 4294967296 := by
  unfold SharedPtrMessage.timestamp32
  omega

/-- The extended timestamp, where there is one, is read as the timestamp. The four bytes are put
back only where they differ from the timestamp of the message, and here they do not. -/
theorem readExtendedTimestamp_run {chunk : ChunkStream} {isFirst : Bool}
    (hext : chunk.extendedTimestamp = decide (extendedTimestamp ≤ m.timestamp32))
    (hsame : isFirst = false → chunk.header.timestamp = m.timestamp32 % 0x80000000)
    (hi : i.unread = extendedField m.timestamp32 ++ rest) (hnb : 4 ≤ i.inBuffer.nbBuffer) :
    ∃ i', readExtendedTimestamp isFirst ⟨i, chunk⟩ = .ok () ⟨i', { chunk with
        header := { chunk.header with
          timestamp := if extendedTimestamp ≤ m.timestamp32 then m.timestamp32 % 0x80000000
            else chunk.header.timestamp } }⟩ ∧
      i'.unread = rest ∧ i'.inBuffer.nbBuffer = i.inBuffer.nbBuffer := by
  unfold extendedField at hi
  rw [readExtendedTimestamp, bind_ok (getChunk_apply _)]
  by_cases h : extendedTimestamp ≤ m.timestamp32
  · rw [if_pos h] at hi
    rw [decide_eq_true h] at hext
    obtain ⟨i₁, i₂, hgrow, hread, hrest, hnb₂⟩ := take_run (length_bytesBE 4 _) hi hnb
    have hwrap := Prog.wrap_ok hgrow (srsErrorWrap "read 4 bytes ext timestamp")
    have hvalue : ofBytesBE (bytesBE 4 m.timestamp32) % 0x80000000 =
        m.timestamp32 % 0x80000000 := by
      rw [ofBytesBE_bytesBE, Nat.mod_eq_of_lt (show _ < 256 ^ 4 from timestamp32_lt m)]
    have hkeep : ¬ ((!isFirst) = true ∧ 0 < chunk.header.timestamp % 0x100000000 ∧
        chunk.header.timestamp % 0x100000000 ≠ m.timestamp32 % 0x80000000) := by
      rintro ⟨hfirst, -, hne⟩
      have htimestamp := hsame (by simpa using hfirst)
      rw [htimestamp] at hne
      omega
    refine ⟨i₂, ?_, hrest, hnb₂⟩
    rw [if_pos hext, bind_ok (ofInput_ok hwrap _), bind_ok (ofInput_ok hread _), hvalue,
      if_neg hkeep, modifyChunk_apply, if_pos h]
  · rw [if_neg h, List.nil_append] at hi
    rw [decide_eq_false h] at hext
    refine ⟨i, ?_, hi, rfl⟩
    rw [if_neg (by simp [hext]), if_neg h]
    rfl

/-- The bytes of the first header behind the basic header. -/
def SharedPtrMessage.headerFields : List UInt8 :=
  bytesBE 3 m.timestampField ++ (bytesBE 3 m.payload.length ++
    (m.messageType.toUInt8 :: (bytesLE 4 m.streamId.toUInt32.toNat ++
      extendedField m.timestamp32)))

/-- The chunk stream id that the sender writes. -/
def SharedPtrMessage.cid : ℕ := (m.preferCid % 64).toNat

theorem header_true : m.header true = UInt8.ofNat (0 * 64 + m.cid) :: m.headerFields := by
  rw [Nat.zero_mul, Nat.zero_add]
  rfl

theorem header_false : m.header false = UInt8.ofNat (3 * 64 + m.cid) :: extendedField m.timestamp32 :=
  rfl

theorem cid_lt : m.cid < 64 := by
  unfold SharedPtrMessage.cid
  omega

/-- The header of the first chunk, on a chunk stream without a partial message. -/
theorem readMessageHeader_first (hlen : m.payload.length < 2 ^ 24) {chunk : ChunkStream}
    (hmsg : chunk.msg = none) (hi : i.unread = m.headerFields ++ rest)
    (hnb : 11 ≤ i.inBuffer.nbBuffer) :
    ∃ i', readMessageHeader 0 ⟨i, chunk⟩ =
        .ok () ⟨i', midMessage m chunk (chunk.msgCount + 1) []⟩ ∧
      i'.unread = rest ∧ i'.inBuffer.nbBuffer = i.inBuffer.nbBuffer := by
  have hcheck : checkFmt 0 ⟨i, chunk⟩ = .ok () ⟨i, chunk⟩ := by
    rw [checkFmt, bind_ok (getChunk_apply _), if_neg (by simp), if_neg (by simp [hmsg])]
    rfl
  have hcreate : createMsg ⟨i, chunk⟩ =
      .ok () ⟨i, { chunk with msg := some CommonMessage.new }⟩ := by
    rw [createMsg, modifyChunk_apply, hmsg]
    rfl
  have hisFirst : chunk.msg.isNone = true := by rw [hmsg]; rfl
  have hbytes : i.unread = bytesBE 3 m.timestampField ++ (bytesBE 3 m.payload.length ++
      (m.messageType.toUInt8 :: (bytesLE 4 m.streamId.toUInt32.toNat ++
        (extendedField m.timestamp32 ++ rest)))) := by
    rw [hi, SharedPtrMessage.headerFields]
    simp only [append_assoc, cons_append]
  have hlong : mhSize 0 ≤ i.unread.length := by
    rw [hbytes]
    simp only [length_append, List.length_cons, length_bytesBE, length_bytesLE, mhSize,
      List.getD_cons_zero]
    omega
  obtain ⟨i₁, hgrow, hunread, hsize, hnb₁⟩ := Input.grow_run hlong hnb
  obtain ⟨i₂, hfields, hunread₂, hnb₂⟩ :=
    @readHeaderFields_run m _ _ hlen chunk hsize (hunread.trans hbytes)
  obtain ⟨i₃, hextended, hrest, hnb₃⟩ := @readExtendedTimestamp_run m _ _
    (beforeExtended m chunk) true rfl (by simp) hunread₂ (by omega)
  refine ⟨i₃, ?_, hrest, by omega⟩
  rw [readMessageHeader, bind_ok (getChunk_apply _), hisFirst, bind_ok hcheck,
    bind_ok hcreate, bind_ok (ofInput_ok (Prog.wrap_ok hgrow _) _),
    bind_ok hfields, bind_ok hextended, finishHeader, modifyChunk_apply]
  by_cases h : extendedTimestamp ≤ m.timestamp32
  · simp [beforeExtended, midMessage, SharedPtrMessage.received, CommonMessage.new, h]
  · simp [beforeExtended, midMessage, SharedPtrMessage.received, CommonMessage.new, h]

/-- The header of a further chunk repeats the extended timestamp. -/
theorem readMessageHeader_next {chunk : ChunkStream} {n : ℕ} (hn : n ≠ 0) (got : List UInt8)
    (hi : i.unread = extendedField m.timestamp32 ++ rest) (hnb : 11 ≤ i.inBuffer.nbBuffer) :
    ∃ i', readMessageHeader 3 ⟨i, midMessage m chunk n got⟩ =
        .ok () ⟨i', midMessage m chunk (n + 1) got⟩ ∧
      i'.unread = rest ∧ i'.inBuffer.nbBuffer = i.inBuffer.nbBuffer := by
  have hcheck : checkFmt 3 ⟨i, midMessage m chunk n got⟩ =
      .ok () ⟨i, midMessage m chunk n got⟩ := by
    rw [checkFmt, bind_ok (getChunk_apply _), if_neg (by simp [midMessage, hn]),
      if_neg (by simp)]
    rfl
  have hcreate : createMsg ⟨i, midMessage m chunk n got⟩ =
      .ok () ⟨i, midMessage m chunk n got⟩ := rfl
  have hgrow : Input.grow (mhSize 3) i = .ok () i := if_pos (Nat.zero_le _)
  have hfields : readHeaderFields 3 false ⟨i, midMessage m chunk n got⟩ =
      .ok () ⟨i, midMessage m chunk n got⟩ := rfl
  obtain ⟨i', hextended, hrest, hnb'⟩ := @readExtendedTimestamp_run m _ _
    (midMessage m chunk n got) false rfl (fun _ => rfl) hi (by omega)
  refine ⟨i', ?_, hrest, hnb'⟩
  have hisFirst : (midMessage m chunk n got).msg.isNone = false := rfl
  rw [readMessageHeader, bind_ok (getChunk_apply _), hisFirst, bind_ok hcheck,
    bind_ok hcreate, bind_ok (ofInput_ok (Prog.wrap_ok hgrow _) _),
    bind_ok hfields, bind_ok hextended, finishHeader, modifyChunk_apply]
  simp [midMessage, SharedPtrMessage.received]

end Header

/-! ## Payloads -/

section Payload

variable (m : SharedPtrMessage) {i : Input} {rest : List UInt8} {c : ℕ}

/-- A chunk brings the next piece of the payload; the last one gives the message. -/
theorem readMessagePayload_run {chunk : ChunkStream} {n : ℕ} {got p : List UInt8}
    (hp : p ≠ []) (hpayload : m.payload = got ++ p) (hi : i.unread = p.take c ++ rest)
    (hnb : min c p.length ≤ i.inBuffer.nbBuffer) :
    ∃ i', readMessagePayload c ⟨i, midMessage m chunk n got⟩ =
        (if p.length ≤ c then
          .ok (some ⟨m.received chunk.header.preferCid, m.payload⟩)
            ⟨i', { midMessage m chunk n got with msg := none }⟩
        else .ok none ⟨i', midMessage m chunk n (got ++ p.take c)⟩) ∧
      i'.unread = rest ∧ i'.inBuffer.nbBuffer = i.inBuffer.nbBuffer := by
  have hpos : 0 < p.length := List.length_pos_of_ne_nil hp
  have hlength : m.payload.length = got.length + p.length := by
    rw [hpayload, length_append]
  have hsize : min (m.payload.length - got.length) c = min c p.length := by
    rw [hlength, Nat.add_sub_cancel_left, min_comm]
  obtain ⟨i₁, i₂, hgrow, hread, hrest, hnb₂⟩ := take_run List.length_take hi hnb
  have hwrap := Prog.wrap_ok hgrow
    (srsErrorWrap ("read " ++ toString (min c p.length) ++ " bytes payload"))
  set header := m.received chunk.header.preferCid with hheader
  have hpiece : readPiece m.payload.length c ⟨header, got⟩ ⟨i, midMessage m chunk n got⟩ =
      .ok ⟨header, got ++ p.take c⟩ ⟨i₂, midMessage m chunk n got⟩ := by
    rw [readPiece]
    simp only [hsize]
    rw [bind_ok (ofInput_ok hwrap _), bind_ok (ofInput_ok hread _)]
    rfl
  refine ⟨i₂, ?_, hrest, hnb₂⟩
  rw [readMessagePayload, bind_ok (getChunk_apply _)]
  show (if m.payload.length = 0 then _ else if m.payload.length < got.length then Prog.abort
    else readPiece m.payload.length c ⟨header, got⟩ >>= _ : OnChunk (Option CommonMessage)) _ = _
  rw [if_neg (show ¬ m.payload.length = 0 by omega),
    if_neg (show ¬ m.payload.length < got.length by omega), bind_ok hpiece]
  show (if m.payload.length = (got ++ p.take c).length then _ else _ :
    OnChunk (Option CommonMessage)) _ = _
  by_cases hlast : p.length ≤ c
  · have hall : p.take c = p := List.take_of_length_le hlast
    rw [hall, if_pos (by rw [hpayload]), if_pos hlast, bind_ok (modifyChunk_apply _ _),
      ← hpayload]
    rfl
  · have hsome : m.payload.length ≠ (got ++ p.take c).length := by
      rw [hlength, length_append, List.length_take]
      omega
    rw [if_neg hsome, if_neg hlast, bind_ok (modifyChunk_apply _ _)]
    rfl

/-- A piece that the buffer cannot hold is refused. -/
theorem readMessagePayload_overflow {chunk : ChunkStream} {n : ℕ} (hp : m.payload ≠ [])
    (hnb : i.inBuffer.nbBuffer < min c m.payload.length) :
    ∃ e t, readMessagePayload c ⟨i, midMessage m chunk n []⟩ = .err e t := by
  have hpos : 0 < m.payload.length := List.length_pos_of_ne_nil hp
  obtain ⟨e, i', hgrow⟩ := Input.grow_overflow hnb
  rw [min_comm] at hgrow
  set header := m.received chunk.header.preferCid with hheader
  have hpiece : ∃ e t, readPiece m.payload.length c ⟨header, []⟩ ⟨i, midMessage m chunk n []⟩ =
      .err e t := by
    have hwrap := Prog.wrap_err hgrow (srsErrorWrap ("read " ++
      toString (min (m.payload.length - 0) c) ++ " bytes payload"))
    exact ⟨_, _, bind_err (ofInput_err hwrap _) _⟩
  obtain ⟨e', t, hpiece⟩ := hpiece
  refine ⟨e', t, ?_⟩
  rw [readMessagePayload, bind_ok (getChunk_apply _)]
  show (if m.payload.length = 0 then _ else if m.payload.length < 0 then Prog.abort
    else readPiece m.payload.length c ⟨header, []⟩ >>= _ : OnChunk (Option CommonMessage)) _ = _
  rw [if_neg (show ¬ m.payload.length = 0 by omega), if_neg (Nat.not_lt_zero _),
    bind_err hpiece]

end Payload

/-! ## Messages -/

section Messages

/-- What the receiver of a message gets. -/
structure Delivered (m : SharedPtrMessage) (msg : CommonMessage) : Prop where
  payload : msg.payload = m.payload
  messageType : msg.header.messageType = m.messageType
  streamId : msg.header.streamId = m.streamId
  timestamp : (msg.header.timestamp : ℤ) = m.timestamp % 2 ^ 31

/-- A message that the chunk stream can carry, to a receiver with a buffer of `nbBuffer` bytes. -/
structure Carried (c nbBuffer : ℕ) (m : SharedPtrMessage) : Prop where
  nonempty : m.payload ≠ []
  length_lt : m.payload.length < 2 ^ 24
  cid_ge : 2 ≤ m.preferCid % 64
  fits : min c m.payload.length ≤ nbBuffer

theorem delivered_received (m : SharedPtrMessage) (preferCid : ℤ) :
    Delivered m ⟨m.received preferCid, m.payload⟩ where
  payload := rfl
  messageType := rfl
  streamId := rfl
  timestamp := by
    show ((m.timestamp32 % 0x80000000 : ℕ) : ℤ) = _
    unfold SharedPtrMessage.timestamp32
    omega

variable {r : Receiver} {c nb : ℕ} {rest : List UInt8}

/-- What the receiver is set to, and the bytes that it has not taken yet. -/
structure At (r : Receiver) (c nb : ℕ) (bytes : List UInt8) : Prop where
  inChunkSize : r.inChunkSize = c
  nbBuffer : r.input.inBuffer.nbBuffer = nb
  unread : r.input.unread = bytes

/-- No chunk stream has a partial message. -/
def Idle (r : Receiver) : Prop := ∀ cid, (r.chunk cid).msg = none

variable {i₁ i₂ : Input}

/-- One call up to the payload, from what the reads of the headers do. -/
theorem recvInterlacedMessage_eq {fmt cid : ℕ} {chunk : ChunkStream}
    (hbasic : readBasicHeader r.input = .ok (fmt, cid) i₁)
    (hheader : readMessageHeader fmt ⟨i₁, r.chunk cid⟩ = .ok () ⟨i₂, chunk⟩) :
    ∃ r', recvInterlacedMessage r = onChunk cid (Prog.wrap (srsErrorWrap "read message payload")
        (readMessagePayload r.inChunkSize)) r' ∧ r'.input = i₂ ∧
      r'.inChunkSize = r.inChunkSize ∧
      ∀ cid', r'.chunk cid' = if cid' = cid then chunk else r.chunk cid' := by
  have hb : onInput (Prog.wrap (srsErrorWrap "read basic header") readBasicHeader) r =
      .ok (fmt, cid) { r with input := i₁ } := by
    rw [onInput, Prog.wrap_ok hbasic]
  obtain ⟨r₁, hcreate, hinput₁, hsize₁, hchunk₁⟩ := createChunk_run { r with input := i₁ } cid
  have hh : onChunk cid (Prog.wrap (srsErrorWrap "read message header") (readMessageHeader fmt)) r₁ =
      .ok () ({ r₁ with input := i₂ }.setChunk cid chunk) := by
    have hsame : (⟨r₁.input, r₁.chunk cid⟩ : ChunkInput) = ⟨i₁, r.chunk cid⟩ := by
      rw [hinput₁, hchunk₁]
      rfl
    rw [onChunk, hsame, Prog.wrap_ok hheader]
  have hsize : ({ r₁ with input := i₂ }.setChunk cid chunk).inChunkSize = r.inChunkSize := by
    rw [inChunkSize_setChunk]
    exact hsize₁
  refine ⟨{ r₁ with input := i₂ }.setChunk cid chunk, ?_, input_setChunk _ _ _, hsize,
    fun cid' => ?_⟩
  · rw [recvInterlacedMessage, bind_ok hb]
    show (createChunk cid >>= fun _ => _) _ = _
    rw [bind_ok hcreate, bind_ok hh, bind_ok (Prog.read_apply _ _), hsize]
  · rw [chunk_setChunk]
    by_cases h : cid' = cid
    · rw [if_pos h, if_pos h]
    · rw [if_neg h, if_neg h]
      exact hchunk₁ cid'

/-- One call, from what its three parts do. -/
theorem recvInterlacedMessage_run {fmt cid : ℕ} {i₃ : Input} {chunk₁ chunk₂ : ChunkStream}
    {result : Option CommonMessage} (hbasic : readBasicHeader r.input = .ok (fmt, cid) i₁)
    (hheader : readMessageHeader fmt ⟨i₁, r.chunk cid⟩ = .ok () ⟨i₂, chunk₁⟩)
    (hpayload : readMessagePayload r.inChunkSize ⟨i₂, chunk₁⟩ = .ok result ⟨i₃, chunk₂⟩) :
    ∃ r', recvInterlacedMessage r = .ok result r' ∧ r'.input = i₃ ∧
      r'.inChunkSize = r.inChunkSize ∧
      ∀ cid', r'.chunk cid' = if cid' = cid then chunk₂ else r.chunk cid' := by
  obtain ⟨r₂, heq, hinput, hsize, hchunk⟩ := recvInterlacedMessage_eq hbasic hheader
  refine ⟨{ r₂ with input := i₃ }.setChunk cid chunk₂, ?_, input_setChunk _ _ _, ?_,
    fun cid' => ?_⟩
  · have hsame : (⟨r₂.input, r₂.chunk cid⟩ : ChunkInput) = ⟨i₂, chunk₁⟩ := by
      rw [hinput, hchunk, if_pos rfl]
    rw [heq, onChunk, hsame, Prog.wrap_ok hpayload]
  · rw [inChunkSize_setChunk]
    exact hsize
  · rw [chunk_setChunk]
    by_cases h : cid' = cid
    · rw [if_pos h, if_pos h]
    · rw [if_neg h, if_neg h]
      exact (hchunk cid').trans (if_neg h)

variable {m : SharedPtrMessage} {p : List UInt8}

/-- Some chunks of a message have come, and `p` is what is left of its payload. -/
structure InMessage (r : Receiver) (c nb : ℕ) (m : SharedPtrMessage) (p rest : List UInt8) :
    Prop where
  at_ : At r c nb (chunks c m p ++ rest)
  chunk : ∃ chunk n got, n ≠ 0 ∧ got ≠ [] ∧ m.payload = got ++ p ∧
    r.chunk m.cid = midMessage m chunk n got
  others : ∀ cid, cid ≠ m.cid → (r.chunk cid).msg = none

/-- One call gives the message if this is its last chunk, and goes on with it if not. -/
def Progress (r : Receiver) (c nb : ℕ) (m : SharedPtrMessage) (p rest : List UInt8) : Prop :=
  (∃ cid r', recvInterlacedMessage r = .ok (some ⟨m.received cid, m.payload⟩) r' ∧ Idle r' ∧
    At r' c nb rest) ∨
  (c < p.length ∧ ∃ r', recvInterlacedMessage r = .ok none r' ∧
    InMessage r' c nb m (p.drop c) rest)

/-- The payload of a chunk behind its header. -/
theorem progress_of_header (hm : Carried c nb m) (hc : 0 < c) (hr : r.inChunkSize = c)
    (hothers : ∀ cid, cid ≠ m.cid → (r.chunk cid).msg = none) {fmt n : ℕ}
    {chunk : ChunkStream} {got : List UInt8} (hn : n ≠ 0) (hp : p ≠ [])
    (hpayload : m.payload = got ++ p) (hbasic : readBasicHeader r.input = .ok (fmt, m.cid) i₁)
    (hheader : readMessageHeader fmt ⟨i₁, r.chunk m.cid⟩ =
      .ok () ⟨i₂, midMessage m chunk n got⟩)
    (hunread : i₂.unread = p.take c ++ (chunks c m (p.drop c) ++ rest))
    (hnb : i₂.inBuffer.nbBuffer = nb) : Progress r c nb m p rest := by
  have hlen : m.payload.length = got.length + p.length := by
    rw [hpayload, length_append]
  have hfits : min c p.length ≤ i₂.inBuffer.nbBuffer := by
    have := hm.fits
    omega
  obtain ⟨i₃, hread, hrest, hnb₃⟩ :=
    @readMessagePayload_run m _ _ _ chunk n _ _ hp hpayload hunread hfits
  by_cases hlast : p.length ≤ c
  · rw [if_pos hlast] at hread
    rw [← hr] at hread
    obtain ⟨r', hrecv, hinput, hsize, hchunk⟩ := recvInterlacedMessage_run hbasic hheader hread
    have hdrop : p.drop c = [] := List.drop_eq_nil_of_le hlast
    rw [hdrop, chunks_nil, List.nil_append] at hrest
    refine Or.inl ⟨_, r', hrecv, fun cid => ?_, ?_⟩
    · rw [hchunk]
      by_cases hcid : cid = m.cid
      · rw [if_pos hcid]
      · rw [if_neg hcid]
        exact hothers cid hcid
    · exact ⟨hsize.trans hr, by rw [hinput, hnb₃, hnb], by rw [hinput, hrest]⟩
  · rw [if_neg hlast] at hread
    rw [← hr] at hread
    obtain ⟨r', hrecv, hinput, hsize, hchunk⟩ := recvInterlacedMessage_run hbasic hheader hread
    rw [hr] at hchunk
    refine Or.inr ⟨by omega, r', hrecv, ?_, ?_, fun cid hcid => ?_⟩
    · exact ⟨hsize.trans hr, by rw [hinput, hnb₃, hnb], by rw [hinput, hrest]⟩
    · have hsplit : m.payload = got ++ p.take c ++ p.drop c := by
        rw [append_assoc, List.take_append_drop]
        exact hpayload
      have hne : got ++ p.take c ≠ [] := by
        have htake : (p.take c).length = c := List.length_take_of_le (by omega)
        intro h
        rw [(List.append_eq_nil_iff.mp h).2] at htake
        simp only [List.length_nil] at htake
        omega
      exact ⟨chunk, n, _, hn, hne, hsplit, by rw [hchunk, if_pos rfl]⟩
    · rw [hchunk, if_neg hcid]
      exact hothers cid hcid

theorem carried_cid_ge (hm : Carried c nb m) : 2 ≤ m.cid := by
  have := hm.cid_ge
  unfold SharedPtrMessage.cid
  omega

/-- The first chunk of a message. -/
theorem progress_first (hm : Carried c nb m) (hc : 0 < c) (hnb : 11 ≤ nb) (hidle : Idle r)
    (hat : At r c nb (chunks c m m.payload ++ rest)) : Progress r c nb m m.payload rest := by
  have hunread := hat.unread
  rw [chunks_of_ne_nil hc m hm.nonempty, decide_eq_true rfl, header_true, append_assoc,
    append_assoc, cons_append] at hunread
  obtain ⟨i₁, hbasic, hunread₁, hnb₁⟩ := readBasicHeader_run (by decide) (carried_cid_ge hm)
    (cid_lt m) hunread (by rw [hat.nbBuffer]; omega)
  rw [hat.nbBuffer] at hnb₁
  obtain ⟨i₂, hheader, hunread₂, hnb₂⟩ := readMessageHeader_first m hm.length_lt (hidle m.cid)
    hunread₁ (by omega)
  exact progress_of_header hm hc hat.inChunkSize (fun cid _ => hidle cid) (Nat.succ_ne_zero _)
    hm.nonempty rfl hbasic hheader hunread₂ (hnb₂.trans hnb₁)

/-- A first chunk with a piece that the buffer cannot hold is refused. -/
theorem recv_overflow (hp : m.payload ≠ []) (hlen : m.payload.length < 2 ^ 24) (hcid : 2 ≤ m.cid)
    (hc : 0 < c) (hnb : 11 ≤ nb) (hlarge : nb < min c m.payload.length) (hidle : Idle r)
    (hat : At r c nb (chunks c m m.payload ++ rest)) :
    ∃ e r', recvInterlacedMessage r = .err e r' := by
  have hunread := hat.unread
  rw [chunks_of_ne_nil hc m hp, decide_eq_true rfl, header_true, append_assoc,
    append_assoc, cons_append] at hunread
  obtain ⟨i₁, hbasic, hunread₁, hnb₁⟩ := readBasicHeader_run (by decide) hcid (cid_lt m) hunread
    (by rw [hat.nbBuffer]; omega)
  rw [hat.nbBuffer] at hnb₁
  obtain ⟨i₂, hheader, -, hnb₂⟩ := readMessageHeader_first m hlen (hidle m.cid) hunread₁ (by omega)
  obtain ⟨e, t, hpayload⟩ := @readMessagePayload_overflow m i₂ c
    (r.chunk m.cid) ((r.chunk m.cid).msgCount + 1) hp (by omega)
  obtain ⟨r₂, heq, hinput, -, hchunk⟩ := recvInterlacedMessage_eq hbasic hheader
  have hsame : (⟨r₂.input, r₂.chunk m.cid⟩ : ChunkInput) =
      ⟨i₂, midMessage m (r.chunk m.cid) ((r.chunk m.cid).msgCount + 1) []⟩ := by
    rw [hinput, hchunk, if_pos rfl]
  refine ⟨srsErrorWrap "read message payload" e, { r₂ with input := t.input }.setChunk m.cid t.chunk, ?_⟩
  rw [heq, onChunk, hsame, hat.inChunkSize, Prog.wrap_err hpayload]

/-- A further chunk of a message. -/
theorem progress_next (hm : Carried c nb m) (hc : 0 < c) (hnb : 11 ≤ nb) (hp : p ≠ [])
    (h : InMessage r c nb m p rest) : Progress r c nb m p rest := by
  obtain ⟨chunk, n, got, hn, hgot, hpayload, hchunk⟩ := h.chunk
  have hat := h.at_
  have hunread := hat.unread
  have hlen : p.length ≠ m.payload.length := by
    have hpos : 0 < got.length := List.length_pos_of_ne_nil hgot
    rw [hpayload, length_append]
    omega
  rw [chunks_of_ne_nil hc m hp, decide_eq_false hlen, header_false, append_assoc,
    append_assoc, cons_append] at hunread
  obtain ⟨i₁, hbasic, hunread₁, hnb₁⟩ := readBasicHeader_run (by decide) (carried_cid_ge hm)
    (cid_lt m) hunread (by rw [hat.nbBuffer]; omega)
  rw [hat.nbBuffer] at hnb₁
  obtain ⟨i₂, hheader, hunread₂, hnb₂⟩ := @readMessageHeader_next m _ _ chunk _ hn got
    hunread₁ (by omega)
  rw [← hchunk] at hheader
  exact progress_of_header hm hc hat.inChunkSize h.others (Nat.succ_ne_zero _) hp hpayload hbasic
    hheader hunread₂ (hnb₂.trans hnb₁)

/-- Calls that give nothing, and one that gives a message. -/
inductive Receives : Receiver → CommonMessage → Receiver → Prop
  | last {r r' : Receiver} {msg : CommonMessage}
      (h : recvInterlacedMessage r = .ok (some msg) r') : Receives r msg r'
  | more {r r₁ r' : Receiver} {msg : CommonMessage} (h : recvInterlacedMessage r = .ok none r₁)
      (rest : Receives r₁ msg r') : Receives r msg r'

theorem Receives.recvMessages {msg : CommonMessage} {r' : Receiver} (h : Receives r msg r') :
    ∃ n, recvMessages n r = .ok [msg] r' := by
  induction h with
  | last h =>
    refine ⟨1, ?_⟩
    rw [Protocol.recvMessages, bind_ok h]
    rfl
  | more h _ ih =>
    obtain ⟨n, hrest⟩ := ih
    refine ⟨n + 1, ?_⟩
    rw [Protocol.recvMessages, bind_ok h, bind_ok hrest]
    rfl

theorem recvMessages_append {msgs msgs' : List CommonMessage} {n n' : ℕ} {r' r'' : Receiver}
    (h : recvMessages n r = .ok msgs r') (h' : recvMessages n' r' = .ok msgs' r'') :
    recvMessages (n + n') r = .ok (msgs ++ msgs') r'' := by
  induction n generalizing r msgs with
  | zero =>
    cases h
    rw [Nat.zero_add]
    exact h'
  | succ n ih =>
    rw [recvMessages] at h
    obtain ⟨result, r₁, hrecv, h⟩ := Prog.ok_of_bind_ok h
    obtain ⟨msgs₁, r₂, hrest, h⟩ := Prog.ok_of_bind_ok h
    cases h
    rw [Nat.add_right_comm, recvMessages, bind_ok hrecv, bind_ok (ih hrest),
      append_assoc]
    rfl

/-- The rest of a message, chunk by chunk. -/
theorem recv_rest (hm : Carried c nb m) (hc : 0 < c) (hnb : 11 ≤ nb) (len : ℕ)
    (hlen : p.length ≤ len) (hp : p ≠ []) (h : InMessage r c nb m p rest) :
    ∃ cid r', Receives r ⟨m.received cid, m.payload⟩ r' ∧ Idle r' ∧ At r' c nb rest := by
  induction len generalizing r p with
  | zero =>
    rw [Nat.le_zero, List.length_eq_zero_iff] at hlen
    exact absurd hlen hp
  | succ len ih =>
    rcases progress_next hm hc hnb hp h with ⟨cid, r', hrecv, hpost⟩ | ⟨hmore, r', hrecv, hnext⟩
    · exact ⟨cid, r', .last hrecv, hpost⟩
    · have hdrop : (p.drop c).length ≤ len := by
        rw [List.length_drop]
        omega
      have hne : p.drop c ≠ [] := by
        rw [Ne, List.drop_eq_nil_iff]
        omega
      obtain ⟨cid, r'', hrest, hpost⟩ := ih hdrop hne hnext
      exact ⟨cid, r'', .more hrecv hrest, hpost⟩

/-- A message, from a receiver without partial messages to such a receiver. -/
theorem recv_message (hm : Carried c nb m) (hc : 0 < c) (hnb : 11 ≤ nb) (hidle : Idle r)
    (hat : At r c nb (chunks c m m.payload ++ rest)) :
    ∃ cid r', Receives r ⟨m.received cid, m.payload⟩ r' ∧ Idle r' ∧ At r' c nb rest := by
  rcases progress_first hm hc hnb hidle hat with ⟨cid, r', hrecv, hpost⟩ | ⟨hmore, r', hrecv, hnext⟩
  · exact ⟨cid, r', .last hrecv, hpost⟩
  · have hne : m.payload.drop c ≠ [] := by
      rw [Ne, List.drop_eq_nil_iff]
      omega
    obtain ⟨cid, r'', hrest, hpost⟩ := recv_rest hm hc hnb _ le_rfl hne hnext
    exact ⟨cid, r'', .more hrecv hrest, hpost⟩

/-- The chunk stream of some messages gives the messages, in order. -/
theorem recv_chunkStream (hc : 0 < c) (hnb : 11 ≤ nb) (msgs : List SharedPtrMessage)
    (hmsgs : ∀ m ∈ msgs, Carried c nb m) (hidle : Idle r) (hat : At r c nb (chunkStream c msgs)) :
    ∃ n received r', recvMessages n r = .ok received r' ∧
      List.Forall₂ Delivered msgs received ∧ r'.input.unread = [] := by
  induction msgs generalizing r with
  | nil => exact ⟨0, [], r, rfl, .nil, hat.unread⟩
  | cons m msgs ih =>
    have hm := hmsgs m List.mem_cons_self
    obtain ⟨cid, r', hrecv, hidle', hat'⟩ := recv_message hm hc hnb hidle hat
    obtain ⟨n, hone⟩ := hrecv.recvMessages
    obtain ⟨n', received, r'', hrest, hreceived, hall⟩ :=
      ih (fun m' hm' => hmsgs m' (List.mem_cons_of_mem _ hm')) hidle' hat'
    exact ⟨n + n', _ :: received, r'', recvMessages_append hone hrest,
      .cons (delivered_received m cid) hreceived, hall⟩

end Messages

/-! ## The round trip -/

theorem reduceOption_map_some (msgs : List SharedPtrMessage) :
    (msgs.map some).reduceOption = msgs := by
  rw [List.reduceOption, List.filterMap_map]
  exact List.filterMap_some

/-- The sender writes the chunk stream of the messages, whatever the sizes of its cache and of its
writes; and a new receiver with the same chunk size, to which these bytes come in any pieces,
gives the messages in order and takes every byte. -/
def RoundTrips (cfg : SendConfig) (nbBuffer : ℕ) (msgs : List SharedPtrMessage) : Prop :=
  ∃ s, doSendMessages cfg (msgs.map some) Sender.new = .ok () s ∧
    s.written = chunkStream cfg.outChunkSize msgs ∧
    ∀ skt : Socket, skt.bytes = s.written →
      ∃ n received r,
        recvMessages n (Receiver.new nbBuffer cfg.outChunkSize skt) = .ok received r ∧
        List.Forall₂ Delivered msgs received ∧ r.input.unread = []

/-- The round trip of all messages that the chunk stream can carry. -/
theorem send_recv_round_trip {cfg : SendConfig} {nbBuffer : ℕ} {msgs : List SharedPtrMessage}
    (hcache : maxFmt0HeaderSize ≤ cfg.cacheMax) (hiov : 0 < cfg.iovMax)
    (hc : 128 ≤ cfg.outChunkSize) (hnb : FastStream.defaultRecvBufferSize ≤ nbBuffer)
    (hmsgs : ∀ m ∈ msgs, Carried cfg.outChunkSize nbBuffer m) : RoundTrips cfg nbBuffer msgs := by
  have hpos : 0 < cfg.outChunkSize := by omega
  have hnb11 : 11 ≤ nbBuffer := le_trans (by decide) hnb
  obtain ⟨s, hsend, hwritten⟩ := doSendMessages_run hcache hiov hpos (msgs.map some)
  rw [reduceOption_map_some] at hwritten
  refine ⟨s, hsend, hwritten, fun skt hskt => ?_⟩
  have hidle : Idle (Receiver.new nbBuffer cfg.outChunkSize skt) := fun cid => by
    rw [chunk_new]
    rfl
  have hat : At (Receiver.new nbBuffer cfg.outChunkSize skt) cfg.outChunkSize nbBuffer
      (chunkStream cfg.outChunkSize msgs) := ⟨rfl, rfl, hskt.trans hwritten⟩
  exact recv_chunkStream hpos hnb11 msgs hmsgs hidle hat

/-- A message of three chunks of 128 bytes, with an extended timestamp in each. -/
def threeChunkMessage : SharedPtrMessage := ⟨4, 0x7FFFFFFF, 8, 1, List.replicate 300 0⟩

/-- Two messages for two chunk streams, with a header cache that is dry after each chunk. -/
theorem send_recv_two_messages :
    RoundTrips ⟨16, 1024, 128⟩ 131072 [threeChunkMessage, ⟨6, 26, 9, 1, [0x17]⟩] := by
  have hlen : threeChunkMessage.payload.length = 300 := List.length_replicate
  have hthree : Carried 128 131072 threeChunkMessage :=
    ⟨List.ne_nil_of_length_pos (by omega), by omega, by decide, by omega⟩
  apply send_recv_round_trip (by decide) (by decide) (by decide) (by decide)
  intro m hm
  simp only [List.mem_cons, List.not_mem_nil, or_false] at hm
  rcases hm with rfl | rfl
  · exact hthree
  · exact ⟨by decide, by decide, by decide, by decide⟩

/-- A receiver that refuses the first chunk gives no message. -/
theorem not_roundTrips_of_refused {cfg : SendConfig} {nbBuffer : ℕ} {m : SharedPtrMessage}
    (h : ∃ skt : Socket, skt.bytes = chunkStream cfg.outChunkSize [m] ∧ ∃ e r,
      recvInterlacedMessage (Receiver.new nbBuffer cfg.outChunkSize skt) = .err e r) :
    ¬ RoundTrips cfg nbBuffer [m] := by
  rintro ⟨s, -, hwritten, hrecv⟩
  obtain ⟨skt, hskt, e, r, herr⟩ := h
  obtain ⟨n, received, r', hok, hreceived, -⟩ := hrecv skt (hskt.trans hwritten.symm)
  cases n with
  | zero =>
    cases hok
    cases hreceived
  | succ n =>
    rw [recvMessages, bind_err herr] at hok
    cases hok

/-- A socket to which all comes in one piece. -/
def Socket.whole (bytes : List UInt8) (h : bytes ≠ []) : Socket := ⟨[bytes], by simpa using h⟩

/-- A chunk that is larger than the receive buffer does not come through. -/
theorem not_roundTrips_of_overflow {cfg : SendConfig} {nbBuffer : ℕ} {m : SharedPtrMessage}
    (hlen : m.payload.length < 2 ^ 24) (hcid : 2 ≤ m.cid) (hnb : 11 ≤ nbBuffer)
    (hlarge : nbBuffer < min cfg.outChunkSize m.payload.length) :
    ¬ RoundTrips cfg nbBuffer [m] := by
  have hp : m.payload ≠ [] := List.ne_nil_of_length_pos (by omega)
  have hc : 0 < cfg.outChunkSize := by omega
  have hstream : chunkStream cfg.outChunkSize [m] = chunks cfg.outChunkSize m m.payload := by
    simp [chunkStream]
  have hne : chunkStream cfg.outChunkSize [m] ≠ [] := by
    rw [hstream, chunks_of_ne_nil hc _ hp]
    simp [header_ne_nil]
  set skt := Socket.whole (chunkStream cfg.outChunkSize [m]) hne with hskt
  have hbytes : skt.bytes = chunkStream cfg.outChunkSize [m] := by
    simp [hskt, Socket.whole, Socket.bytes]
  have hidle : Idle (Receiver.new nbBuffer cfg.outChunkSize skt) := fun cid => by
    rw [chunk_new]
    rfl
  have hat : At (Receiver.new nbBuffer cfg.outChunkSize skt) cfg.outChunkSize nbBuffer
      (chunks cfg.outChunkSize m m.payload ++ []) := by
    rw [List.append_nil, ← hstream, ← hbytes]
    exact ⟨rfl, rfl, rfl⟩
  exact not_roundTrips_of_refused
    ⟨skt, hbytes, recv_overflow hp hlen hcid hc hnb hlarge hidle hat⟩

/-- A message with prefer cid 64, whose low six bits are 0. -/
def cid64Message : SharedPtrMessage := ⟨64, 0, 9, 1, [0]⟩

/-- The chunk stream of it. -/
def cid64Socket : Socket := .whole [0, 0, 0, 0, 0, 0, 1, 9, 1, 0, 0, 0, 0] (List.cons_ne_nil _ _)

/-- A message that is one byte longer than the receive buffer. -/
def largeMessage : SharedPtrMessage := ⟨6, 0, 9, 1, List.replicate 131073 0⟩

/-- Neither comes through: the receiver looks for the rest of a basic header of two bytes, and it
cannot take the chunk. -/
theorem round_trip_fails_outside : ¬ RoundTrips ⟨4096, 1024, 128⟩ 131072 [cid64Message] ∧
    ¬ RoundTrips ⟨4096, 1024, 262144⟩ 131072 [largeMessage] := by
  constructor
  · apply not_roundTrips_of_refused
    have hstream : chunkStream 128 [cid64Message] =
        [0, 0, 0, 0, 0, 0, 1, 9, 1, 0, 0, 0, 0] := by
      simp only [chunkStream, List.flatMap_cons, List.flatMap_nil, List.append_nil]
      rw [chunks_of_ne_nil (by decide) _ (by decide)]
      have hdrop : cid64Message.payload.drop 128 = [] := rfl
      rw [hdrop, chunks_nil]
      rfl
    have herr : (recvInterlacedMessage (Receiver.new 131072 128 cid64Socket)).isErr = true := by
      decide +kernel
    exact ⟨cid64Socket, hstream.symm, Outcome.exists_of_isErr herr⟩
  · have hlen : largeMessage.payload.length = 131073 := List.length_replicate
    exact not_roundTrips_of_overflow (by rw [hlen]; decide) (by decide) (by decide)
      (by rw [hlen]; decide)

end SrsChatRoom.Protocol
