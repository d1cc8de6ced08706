import SrsChatRoom.Protocol.Amf0Writer
import SrsChatRoom.Protocol.RtmpPacket

/-!
# What is written for an RTMP packet

`bytes` are the bytes of a packet. `encodePacket` puts them into a buffer that has room for
`getSize` bytes, and they are as many (`puts_encodePacket`, `length_bytes`).
-/

namespace SrsChatRoom.Protocol

open SrsChatRoom.Kernel
open List (length_append length_nil)

/-! ## Writing -/

/-- The program writes these bytes if there is room for them. -/
def Puts (x : RtmpIo Unit) (data : List UInt8) : Prop :=
  ∀ b : SrsBuffer, b.pos + data.length ≤ b.bytes.length → x b = .ok () (b.put data)

theorem puts_pure : Puts (pure ()) [] := by
  intro b _
  rw [SrsBuffer.put_nil]
  rfl

variable {x : RtmpIo Unit} {data : List UInt8}

theorem Puts.bind {y : RtmpIo Unit} {more : List UInt8} (hx : Puts x data)
    (hy : Puts y more) : Puts (do x; y) (data ++ more) := by
  intro b hroom
  rw [length_append] at hroom
  have hput : (b.put data).bytes.length = b.bytes.length :=
    SrsBuffer.length_bytes_put (by omega)
  rw [Prog.bind_ok (hx b (by omega)), hy (b.put data) (by rw [hput, SrsBuffer.pos_put]; omega),
    SrsBuffer.put_put (by omega)]

theorem Puts.optional {flag : Bool} (h : Puts x data) :
    Puts (Prog.optional flag x) (if flag then data else []) := by
  cases flag with
  | true => exact h
  | false => exact puts_pure

theorem Writes.puts {x : Amf0Io Unit} (h : Writes x data)
    (message : String) : Puts (amf0 message x) data := by
  intro b hroom
  rw [amf0, Prog.mapErr, h b hroom]

theorem puts_writeUint (n v : ℕ) : Puts (packetAccess (SrsBuffer.writeUint n v)) (bytesBE n v) := by
  intro b hroom
  have hrun : SrsBuffer.writeUint n v b = .ok () (b.put (bytesBE n v)) :=
    SrsBuffer.writeBytes_run hroom
  rw [packetAccess, Prog.mapErr, hrun]

/-- A check that there is room for all that follows. -/
theorem Puts.checked {n : ℕ} (h : Puts x data)
    (hn : data.length = n) (code : RtmpErrorCode) (message : String) :
    Puts (do packetRequires n code message; x) data := by
  intro b hroom
  have hthere : packetRequires n code message b = .ok () b :=
    if_pos ((b.require_iff n).mpr (by omega))
  rw [Prog.bind_ok hthere, h b hroom]

/-! ## The bytes of the packets -/

/-- The bytes of a string, of a number and of an object. -/
def stringBytes (value : List UInt8) : List UInt8 := encode (.string value)
def numberBytes (value : BitVec 64) : List UInt8 := encode (.number value)
def objectBytes (properties : Properties) : List UInt8 := encode (.object properties)

/-- The bytes of a value, if there is one. -/
def optionalBytes : Option Amf0Any → List UInt8
  | some value => encode value
  | none => []

/-- The start of a command. -/
def commandBytes (commandName : List UInt8) (transactionId : BitVec 64) : List UInt8 :=
  stringBytes commandName ++ numberBytes transactionId

namespace SrsPacket

/-- The bytes of a packet. -/
def bytes : SrsPacket → List UInt8
  | connect p => commandBytes p.commandName p.transactionId ++
      (objectBytes p.commandObject ++ optionalBytes (p.args.map .object))
  | call p => commandBytes p.commandName p.transactionId ++
      (optionalBytes p.commandObject ++ optionalBytes p.arguments)
  | createStream p => commandBytes p.commandName p.transactionId ++ encode .null
  | createStreamRes p => commandBytes p.commandName p.transactionId ++
      (encode .null ++ numberBytes p.streamId)
  | fmleStart p => commandBytes p.commandName p.transactionId ++
      (encode .null ++ stringBytes p.streamName)
  | fmleStartRes p => commandBytes p.commandName p.transactionId ++
      (encode .null ++ encode .undefined)
  | publish p => commandBytes p.commandName p.transactionId ++
      (encode .null ++ (stringBytes p.streamName ++ stringBytes p.type))
  | play p => commandBytes p.commandName p.transactionId ++
      (encode .null ++ (stringBytes p.streamName ++
        ((if p.hasStart then numberBytes p.start else []) ++
          ((if p.hasDuration then numberBytes p.duration else []) ++
            (if !p.reset then encode (.boolean p.reset) else [])))))
  | onMetaData p => stringBytes p.name ++ objectBytes p.metadata
  | setWindowAckSize p => bytesBE 4 p.ackowledgementWindowSize.toNat
  | acknowledgement p => bytesBE 4 p.sequenceNumber.toNat
  | setChunkSize p => bytesBE 4 p.chunkSize.toNat
  | userControl p => bytesBE 2 p.eventType.toNat ++
      (bytesBE (SrsUserControlPacket.eventSize p.eventType) p.eventData.toNat ++
        (if p.eventType = setBufferLength then bytesBE 4 p.extraData.toNat else []))

end SrsPacket

theorem length_stringBytes (value : List UInt8) :
    (stringBytes value).length = Amf0Size.str value := length_encode (.string value)

theorem length_numberBytes (value : BitVec 64) :
    (numberBytes value).length = Amf0Size.number := length_encode (.number value)

theorem length_objectBytes (properties : Properties) :
    (objectBytes properties).length = Amf0Size.object properties :=
  length_encode (.object properties)

theorem length_optionalBytes (value : Option Amf0Any) :
    (optionalBytes value).length = Amf0Size.any value := by
  cases value with
  | none => rfl
  | some v => exact length_encode v

theorem length_commandBytes (name : List UInt8) (id : BitVec 64) :
    (commandBytes name id).length = commandSize name := by
  rw [commandBytes, length_append, length_stringBytes, length_numberBytes, commandSize]

theorem length_nullBytes : (encode .null).length = Amf0Size.null := rfl

theorem length_undefinedBytes : (encode .undefined).length = Amf0Size.undefined := rfl

theorem length_booleanBytes (value : Bool) : (encode (.boolean value)).length = Amf0Size.boolean :=
  length_encode (.boolean value)

/-- `get_size` is the size of what is written. -/
theorem SrsPacket.length_bytes (p : SrsPacket) : p.bytes.length = p.getSize := by
  cases p with
  | connect p =>
    rw [bytes, length_append, length_append, length_commandBytes, length_objectBytes,
      length_optionalBytes, getSize, SrsConnectAppPacket.getSize, Nat.add_assoc]
  | call p =>
    rw [bytes, length_append, length_append, length_commandBytes, length_optionalBytes,
      length_optionalBytes, getSize, SrsCallPacket.getSize, Nat.add_assoc]
  | createStream p =>
    rw [bytes, length_append, length_commandBytes, length_nullBytes]
    rfl
  | createStreamRes p =>
    rw [bytes, length_append, length_append, length_commandBytes, length_nullBytes,
      length_numberBytes]
    rfl
  | fmleStart p =>
    rw [bytes, length_append, length_append, length_commandBytes, length_nullBytes,
      length_stringBytes, getSize, SrsFMLEStartPacket.getSize, Nat.add_assoc]
  | fmleStartRes p =>
    rw [bytes, length_append, length_append, length_commandBytes, length_nullBytes,
      length_undefinedBytes]
    rfl
  | publish p =>
    rw [bytes, length_append, length_append, length_append, length_commandBytes,
      length_nullBytes, length_stringBytes, length_stringBytes, getSize,
      SrsPublishPacket.getSize]
    omega
  | play p =>
    have hstart : (if p.hasStart then numberBytes p.start else []).length =
        if p.hasStart then Amf0Size.number else 0 := by
      rw [apply_ite List.length, length_numberBytes, length_nil]
    have hduration : (if p.hasDuration then numberBytes p.duration else []).length =
        if p.hasDuration then Amf0Size.number else 0 := by
      rw [apply_ite List.length, length_numberBytes, length_nil]
    have hreset : (if !p.reset then encode (.boolean p.reset) else []).length =
        if !p.reset then Amf0Size.boolean else 0 := by
      rw [apply_ite List.length, length_booleanBytes, length_nil]
    simp only [bytes, length_append]
    rw [length_commandBytes, length_nullBytes, length_stringBytes, hstart, hduration, hreset,
      getSize, SrsPlayPacket.getSize]
    omega
  | onMetaData p =>
    rw [bytes, length_append, length_stringBytes, length_objectBytes]
    rfl
  | setWindowAckSize p => exact length_bytesBE 4 _
  | acknowledgement p => exact length_bytesBE 4 _
  | setChunkSize p => exact length_bytesBE 4 _
  | userControl p =>
    have hextra : (if p.eventType = setBufferLength then bytesBE 4 p.extraData.toNat
        else []).length = if p.eventType = setBufferLength then 4 else 0 := by
      rw [apply_ite List.length, length_bytesBE, length_nil]
    rw [bytes, length_append, length_append, length_bytesBE, length_bytesBE, hextra,
      getSize, SrsUserControlPacket.getSize, Nat.add_assoc]

/-! ## Writing them -/

theorem puts_writeCommand (name : List UInt8) (id : BitVec 64) :
    Puts (writeCommand name id) (commandBytes name id) :=
  ((writes_write (.string name)).puts _).bind ((writes_writeNumber id).puts _)

theorem puts_writeNull (message : String) : Puts (amf0 message writeNull) (encode .null) :=
  (writes_write .null).puts message

theorem puts_writeString (value : List UInt8) (message : String) :
    Puts (amf0 message (writeString value)) (stringBytes value) :=
  (writes_write (.string value)).puts message

theorem puts_writeNumber (value : BitVec 64) (message : String) :
    Puts (amf0 message (writeNumber value)) (numberBytes value) :=
  (writes_writeNumber value).puts message

theorem puts_writeOptional (message : String) (value : Option Amf0Any) :
    Puts (SrsCallPacket.writeOptional message value) (optionalBytes value) := by
  cases value with
  | none => exact puts_pure
  | some v => exact (writes_write v).puts message

theorem puts_writeFourBytes (value : BitVec 32) :
    Puts (writeFourBytes value) (bytesBE 4 value.toNat) :=
  (puts_writeUint 4 value.toNat).checked (length_bytesBE 4 _) _ _

/-- `encode_packet` writes the bytes of the packet. -/
theorem puts_encodePacket (p : SrsPacket) : Puts p.encodePacket p.bytes := by
  cases p with
  | connect p =>
    refine (puts_writeCommand _ _).bind (((writes_write (.object _)).puts _).bind ?_)
    cases p.args with
    | none => exact puts_pure
    | some args => exact (writes_write (.object args)).puts _
  | call p =>
    exact (puts_writeCommand _ _).bind
      ((puts_writeOptional _ p.commandObject).bind (puts_writeOptional _ p.arguments))
  | createStream p => exact (puts_writeCommand _ _).bind (puts_writeNull _)
  | createStreamRes p =>
    exact (puts_writeCommand _ _).bind ((puts_writeNull _).bind (puts_writeNumber _ _))
  | fmleStart p =>
    exact (puts_writeCommand _ _).bind ((puts_writeNull _).bind (puts_writeString _ _))
  | fmleStartRes p =>
    exact (puts_writeCommand _ _).bind
      ((puts_writeNull _).bind ((writes_write .undefined).puts _))
  | publish p =>
    exact (puts_writeCommand _ _).bind
      ((puts_writeNull _).bind ((puts_writeString _ _).bind (puts_writeString _ _)))
  | play p =>
    refine (puts_writeCommand _ _).bind ((puts_writeNull _).bind ((puts_writeString _ _).bind ?_))
    refine (puts_writeNumber p.start _).optional.bind ?_
    exact (puts_writeNumber p.duration _).optional.bind
      ((writes_writeBoolean p.reset).puts _).optional
  | onMetaData p => exact (puts_writeString _ _).bind ((writes_write (.object _)).puts _)
  | setWindowAckSize p => exact puts_writeFourBytes _
  | acknowledgement p => exact puts_writeFourBytes _
  | setChunkSize p => exact puts_writeFourBytes _
  | userControl p =>
    have hall := (puts_writeUint 2 p.eventType.toNat).bind
      ((puts_writeUint (SrsUserControlPacket.eventSize p.eventType) p.eventData.toNat).bind
        (@Puts.optional _ _ (p.eventType = setBufferLength)
          (puts_writeUint 4 p.extraData.toNat)))
    have hbytes : (SrsPacket.userControl p).bytes = bytesBE 2 p.eventType.toNat ++
        (bytesBE (SrsUserControlPacket.eventSize p.eventType) p.eventData.toNat ++
          (if decide (p.eventType = setBufferLength) = true then bytesBE 4 p.extraData.toNat
            else [])) := by
      simp only [decide_eq_true_eq]
      rfl
    rw [← hbytes] at hall
    exact hall.checked (SrsPacket.length_bytes (.userControl p)) _ _

/-- A buffer of `get_size` bytes is filled. -/
theorem encodePacket_fills (p : SrsPacket) {out : List UInt8} (h : out.length = p.getSize) :
    p.encodePacket ⟨out, 0⟩ = .ok () ⟨p.bytes, p.getSize⟩ := by
  have hlength := p.length_bytes
  have hput : (SrsBuffer.put ⟨out, 0⟩ p.bytes) = ⟨p.bytes, p.getSize⟩ := by
    unfold SrsBuffer.put
    dsimp only
    rw [List.take_zero, List.nil_append, Nat.zero_add, hlength, List.drop_of_length_le h.le,
      List.append_nil]
  have hroom : 0 + p.bytes.length ≤ out.length := by omega
  rw [← hput]
  exact puts_encodePacket p ⟨out, 0⟩ hroom

end SrsChatRoom.Protocol
