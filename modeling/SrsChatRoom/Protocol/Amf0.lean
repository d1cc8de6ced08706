import SrsChatRoom.Kernel.Buffer

/-!
# AMF0 values (`srs_protocol_amf0.cpp`)

A value of AMF0 is a tree: objects and ECMA arrays have properties, strict arrays have elements.
`SrsAmf0Any::read` and `write` recurse through it, and so does `total_size`, which says how large
the buffer for `write` must be. An object or an ECMA array ends with the three bytes `00 00 09`.
The reader looks for them before each property, and also before each value, where they are a value
of their own, `SrsAmf0ObjectEOF`. It goes on until it finds them or the buffer is empty.
-/

namespace SrsChatRoom.Protocol

open SrsChatRoom.Kernel

/-! ## Values -/

/-- `SrsAmf0Any`. A number and a date are kept as 64 bits, a name and a string as bytes. -/
inductive Amf0Any
  | string (value : List UInt8)
  | boolean (value : Bool)
  | number (value : BitVec 64)
  | null
  | undefined
  | date (value : BitVec 64) (timeZone : BitVec 16)
  | object (properties : List (List UInt8 × Amf0Any))
  | ecmaArray (count : BitVec 32) (properties : List (List UInt8 × Amf0Any))
  | strictArray (count : BitVec 32) (properties : List Amf0Any)
  | objectEof

/-- The properties of an object. -/
abbrev Properties := List (List UInt8 × Amf0Any)

/-- `SrsUnSortedHashtable::set`: the property goes to the end; without a value it is removed. -/
def Properties.set (properties : Properties) (key : List UInt8) (value : Option Amf0Any) :
    Properties :=
  let others := properties.eraseP fun p => p.1 == key
  match value with
  | some v => others ++ [(key, v)]
  | none => others

namespace Amf0Any

/-- `SrsAmf0Any::str` and so on: the constructors of the values that are not containers. -/
def str (value : List UInt8) : Amf0Any := .string value

/-- `SrsAmf0Any::date`: without a time zone. -/
def dateOf (value : BitVec 64) : Amf0Any := .date value 0

/-- `SrsAmf0Any::object` -/
def newObject : Amf0Any := .object []

/-- `SrsAmf0Any::ecma_array` -/
def newEcmaArray : Amf0Any := .ecmaArray 0 []

/-- `SrsAmf0Any::strict_array` -/
def newStrictArray : Amf0Any := .strictArray 0 []

/-- `SrsAmf0StrictArray::append`: the count is that of the elements. -/
def append (elems : List Amf0Any) (value : Amf0Any) : Amf0Any :=
  .strictArray (BitVec.ofNat 32 (elems ++ [value]).length) (elems ++ [value])

end Amf0Any

/-! ## Sizes -/

/-- `SrsAmf0Size::utf8` -/
def Amf0Size.utf8 (value : List UInt8) : ℕ := 2 + value.length

/-- `SrsAmf0Size::object_eof` -/
def Amf0Size.objectEof : ℕ := 2 + 1

mutual

/-- `total_size` -/
def Amf0Any.totalSize : Amf0Any → ℕ
  | .string value => 1 + Amf0Size.utf8 value
  | .boolean _ => 1 + 1
  | .number _ => 1 + 8
  | .null => 1
  | .undefined => 1
  | .date _ _ => 1 + 8 + 2
  | .object properties => 1 + propertiesSize properties + Amf0Size.objectEof
  | .ecmaArray _ properties => 1 + 4 + propertiesSize properties + Amf0Size.objectEof
  | .strictArray _ properties => 1 + 4 + elementsSize properties
  | .objectEof => Amf0Size.objectEof

/-- The loop for the properties of an object. -/
def propertiesSize : List (List UInt8 × Amf0Any) → ℕ
  | [] => 0
  | (name, value) :: properties =>
    Amf0Size.utf8 name + value.totalSize + propertiesSize properties

/-- The loop for the elements of a strict array. -/
def elementsSize : List Amf0Any → ℕ
  | [] => 0
  | value :: properties => value.totalSize + elementsSize properties

end

/-! ## Errors -/

/-- The codes `ERROR_RTMP_AMF0_DECODE`, `ERROR_RTMP_AMF0_ENCODE` and `ERROR_RTMP_AMF0_INVALID`. -/
inductive Amf0ErrorCode
  | decode
  | encode
  | invalid
  deriving DecidableEq

/-- An error: the code and the messages, the outermost first. -/
structure Amf0Error where
  code : Amf0ErrorCode
  messages : List String

def Amf0Error.new (code : Amf0ErrorCode) (message : String) : Amf0Error := ⟨code, [message]⟩

def Amf0Error.wrap (message : String) (e : Amf0Error) : Amf0Error :=
  { e with messages := message :: e.messages }

/-- A program that reads or writes values. -/
abbrev Amf0Io := Prog SrsBuffer Amf0Error

/-- An access of the buffer, which returns no error. -/
def access {α : Type} (x : Dec α) : Amf0Io α := fun b =>
  match x b with
  | .ok a b' => .ok a b'
  | .err e b' => .err ⟨.decode, e.messages⟩ b'
  | .fault => .fault
  | .hang => .hang

/-- `if (!stream->require(n)) return srs_error_new(code, message)` -/
def requires (n : ℤ) (code : Amf0ErrorCode) (message : String) : Amf0Io Unit := fun b =>
  if b.require n then .ok () b else .err (Amf0Error.new code message) b

/-! ## Markers -/

/-- The kinds of values that `SrsAmf0Any::discovery` makes. -/
inductive Amf0Kind
  | string
  | boolean
  | number
  | null
  | undefined
  | date
  | object
  | ecmaArray
  | strictArray
  | objectEof
  deriving DecidableEq

/-- `RTMP_AMF0_Number` and so on. -/
def Amf0Kind.marker : Amf0Kind → UInt8
  | .number => 0x00
  | .boolean => 0x01
  | .string => 0x02
  | .object => 0x03
  | .null => 0x05
  | .undefined => 0x06
  | .ecmaArray => 0x08
  | .objectEof => 0x09
  | .strictArray => 0x0A
  | .date => 0x0B

/-- The kinds by their markers. `RTMP_AMF0_ObjectEnd` alone is not one. -/
def Amf0Kind.ofMarker (marker : UInt8) : Option Amf0Kind :=
  if marker = 0x02 then some .string
  else if marker = 0x01 then some .boolean
  else if marker = 0x00 then some .number
  else if marker = 0x05 then some .null
  else if marker = 0x06 then some .undefined
  else if marker = 0x03 then some .object
  else if marker = 0x08 then some .ecmaArray
  else if marker = 0x0A then some .strictArray
  else if marker = 0x0B then some .date
  else none

/-! ## Writing -/

/-- Each `write` starts with its marker. -/
def writeMarker (kind : Amf0Kind) (message : String) : Amf0Io Unit := do
  requires 1 .encode message
  access (SrsBuffer.writeUint 1 kind.marker.toNat)

/-- `srs_amf0_write_utf8`: the length is cast to an `int16_t`. -/
def writeUtf8 (value : List UInt8) : Amf0Io Unit := do
  requires 2 .encode "requires 2 only %d bytes"
  access (SrsBuffer.writeUint 2 value.length)
  if value = [] then return ()
  else do
    requires value.length .encode "requires %lu only %d bytes"
    access (SrsBuffer.writeBytes value)

/-- `SrsAmf0ObjectEOF::write` -/
def writeObjectEof : Amf0Io Unit := do
  requires 2 .encode "EOF requires 2 only %d bytes"
  access (SrsBuffer.writeUint 2 0)
  requires 1 .encode "EOF requires 1 only %d bytes"
  access (SrsBuffer.writeUint 1 Amf0Kind.objectEof.marker.toNat)

/-- `write` of a date. -/
def writeDate (value : BitVec 64) (timeZone : BitVec 16) : Amf0Io Unit := do
  writeMarker .date "requires 1 only %d bytes"
  requires 8 .encode "requires 8 only %d bytes"
  access (SrsBuffer.writeUint 8 value.toNat)
  requires 2 .encode "requires 2 only %d bytes"
  access (SrsBuffer.writeUint 2 timeZone.toNat)

/-- `srs_amf0_write_boolean` -/
def writeBoolean (value : Bool) : Amf0Io Unit := do
  writeMarker .boolean "requires 1 only %d bytes"
  requires 1 .encode "requires 1 only %d bytes"
  access (SrsBuffer.writeUint 1 (if value then 1 else 0))

/-- `srs_amf0_write_number` -/
def writeNumber (value : BitVec 64) : Amf0Io Unit := do
  writeMarker .number "requires 1 only %d bytes"
  requires 8 .encode "requires 8 only %d bytes"
  access (SrsBuffer.writeUint 8 value.toNat)

/-- The count of an array. -/
def writeCount (count : BitVec 32) : Amf0Io Unit := do
  requires 4 .encode "requires 4 only %d bytes"
  access (SrsBuffer.writeUint 4 count.toNat)

mutual

/-- `write` -/
def Amf0Any.write : Amf0Any → Amf0Io Unit
  | .string value => do
    writeMarker .string "requires 1 only %d bytes"
    writeUtf8 value
  | .boolean value => writeBoolean value
  | .number value => writeNumber value
  | .null => writeMarker .null "requires 1 only %d bytes"
  | .undefined => writeMarker .undefined "requires 1 only %d bytes"
  | .date value timeZone => writeDate value timeZone
  | .object properties => do
    writeMarker .object "object requires 1 only %d bytes"
    writeProperties properties
    Prog.wrap (Amf0Error.wrap "write EOF") writeObjectEof
  | .ecmaArray count properties => do
    writeMarker .ecmaArray "requires 1 only %d bytes"
    writeCount count
    writeProperties properties
    Prog.wrap (Amf0Error.wrap "write EOF") writeObjectEof
  | .strictArray count properties => do
    writeMarker .strictArray "requires 1 only %d bytes"
    writeCount count
    writeElements properties
  | .objectEof => writeObjectEof

/-- The loop for the properties of an object. -/
def writeProperties : List (List UInt8 × Amf0Any) → Amf0Io Unit
  | [] => pure ()
  | (name, value) :: properties => do
    Prog.wrap (Amf0Error.wrap "write property name=%s") (writeUtf8 name)
    Prog.wrap (Amf0Error.wrap "write property value, name=%s") value.write
    writeProperties properties

/-- The loop for the elements of a strict array. -/
def writeElements : List Amf0Any → Amf0Io Unit
  | [] => pure ()
  | value :: properties => do
    Prog.wrap (Amf0Error.wrap "write property") value.write
    writeElements properties

end

/-! ## Reading -/

/-- `srs_amf0_is_object_eof`: a look at the next three bytes. -/
def isObjectEof : Amf0Io Bool := do
  let there ← Prog.read fun b : SrsBuffer => b.require 3
  if there then do
    let flag ← access (SrsBuffer.readUint 3)
    access (SrsBuffer.skip (-3))
    return flag == 0x09
  else return false

/-- `SrsAmf0Any::discovery`: the kind of the next value, which stays in the buffer. -/
def discovery : Amf0Io Amf0Kind := do
  let eof ← isObjectEof
  if eof then return .objectEof
  else do
    requires 1 .decode "marker requires 1 only %d bytes"
    let marker ← access (SrsBuffer.readUint 1)
    access (SrsBuffer.skip (-1))
    match Amf0Kind.ofMarker (UInt8.ofNat marker) with
    | some kind => return kind
    | none => Prog.throw (Amf0Error.new .invalid "invalid amf0 message, marker=%#x")

/-- `n` bytes that are checked to be there. -/
def readChecked (n : ℕ) (message : String) : Amf0Io ℕ := do
  requires n .decode message
  access (SrsBuffer.readUint n)

/-- Each `read` starts with its marker. -/
def readMarker (kind : Amf0Kind) (message invalid : String) : Amf0Io Unit := do
  let marker ← readChecked 1 message
  if UInt8.ofNat marker = kind.marker then return ()
  else Prog.throw (Amf0Error.new .decode invalid)

/-- `srs_amf0_read_utf8`: the length is an `int16_t`, and if it is negative the string is empty. -/
def readUtf8 : Amf0Io (List UInt8) := do
  let value ← readChecked 2 "requires 2 only %d bytes"
  let len := Int.bmod value (256 ^ 2)
  if len ≤ 0 then return []
  else do
    requires len .decode "requires %d only %d bytes"
    access (SrsBuffer.readBytes len)

/-- `SrsAmf0ObjectEOF::read` -/
def readObjectEof : Amf0Io Unit := do
  let temp ← readChecked 2 "EOF requires 2 only %d bytes"
  if temp = 0 then do
    let marker ← readChecked 1 "EOF requires 1 only %d bytes"
    if UInt8.ofNat marker = Amf0Kind.objectEof.marker then return ()
    else Prog.throw (Amf0Error.new .decode "EOF invalid marker=%#x")
  else Prog.throw (Amf0Error.new .decode "EOF invalid marker=%#x")

/-- `srs_amf0_read_string` -/
def readString : Amf0Io (List UInt8) := do
  readMarker .string "requires 1 only %d bytes" "String invalid marker=%#x"
  readUtf8

/-- `srs_amf0_read_boolean` -/
def readBoolean : Amf0Io Bool := do
  readMarker .boolean "requires 1 only %d bytes" "Boolean invalid marker=%#x"
  let value ← readChecked 1 "requires 1 only %d bytes"
  return value != 0

/-- `srs_amf0_read_number` -/
def readNumber : Amf0Io (BitVec 64) := do
  readMarker .number "requires 1 only %d bytes" "Number invalid marker=%#x"
  let value ← readChecked 8 "requires 8 only %d bytes"
  return BitVec.ofNat 64 value

/-- `SrsAmf0Date::read` -/
def readDate : Amf0Io (BitVec 64 × BitVec 16) := do
  readMarker .date "requires 1 only %d bytes" "Date invalid marker=%#x"
  let value ← readChecked 8 "requires 8 only %d bytes"
  let timeZone ← readChecked 2 "requires 2 only %d bytes"
  return (BitVec.ofNat 64 value, BitVec.ofNat 16 timeZone)

/-- The loop for the properties of an object, up to the end of it or of the buffer. -/
def readProperties (readAny : Amf0Io Amf0Any) : ℕ → Properties → Amf0Io Properties
  | 0, _ => fun _ => .hang
  | fuel + 1, properties => do
    let empty ← Prog.read SrsBuffer.empty
    if empty then return properties
    else do
      let eof ← isObjectEof
      if eof then do
        Prog.wrap (Amf0Error.wrap "read EOF") readObjectEof
        return properties
      else do
        let name ← Prog.wrap (Amf0Error.wrap "read property name") readUtf8
        let value ← Prog.wrap (Amf0Error.wrap "read property value, name=%s") readAny
        readProperties readAny fuel (properties.set name (some value))

/-- The loop for the elements of a strict array, up to its count or to the end of the buffer. -/
def readElements (readAny : Amf0Io Amf0Any) (count : ℤ) :
    ℕ → ℕ → List Amf0Any → Amf0Io (List Amf0Any)
  | 0, _, _ => fun _ => .hang
  | fuel + 1, i, properties => do
    let empty ← Prog.read SrsBuffer.empty
    if (i : ℤ) < count ∧ ¬ empty then do
      let elem ← Prog.wrap (Amf0Error.wrap "read property") readAny
      readElements readAny count fuel (i + 1) (properties ++ [elem])
    else return properties

/-- A loop of at most one round for each byte that is left. -/
def rounds : Amf0Io ℕ := Prog.read fun b => b.rest.length + 1

/-- `SrsAmf0Object::read` -/
def readObject (readAny : Amf0Io Amf0Any) : Amf0Io Amf0Any := do
  readMarker .object "object requires 1 only %d bytes" "object invalid marker=%#x"
  let fuel ← rounds
  let properties ← readProperties readAny fuel []
  return .object properties

/-- `SrsAmf0EcmaArray::read` -/
def readEcmaArray (readAny : Amf0Io Amf0Any) : Amf0Io Amf0Any := do
  readMarker .ecmaArray "requires 1 only %d bytes" "EcmaArray invalid marker=%#x"
  let count ← readChecked 4 "requires 4 only %d bytes"
  let fuel ← rounds
  let properties ← readProperties readAny fuel []
  return .ecmaArray (BitVec.ofNat 32 count) properties

/-- `SrsAmf0StrictArray::read` -/
def readStrictArray (readAny : Amf0Io Amf0Any) : Amf0Io Amf0Any := do
  readMarker .strictArray "requires 1 only %d bytes" "StrictArray invalid marker=%#x"
  let value ← readChecked 4 "requires 4 only %d bytes"
  let count := BitVec.ofNat 32 value
  let fuel ← rounds
  let properties ← readElements readAny count.toInt fuel 0 []
  return .strictArray count properties

/-- `(*ppvalue)->read(stream)` -/
def readKind (readAny : Amf0Io Amf0Any) : Amf0Kind → Amf0Io Amf0Any
  | .string => do return .string (← readString)
  | .boolean => do return .boolean (← readBoolean)
  | .number => do return .number (← readNumber)
  | .null => do
    readMarker .null "requires 1 only %d bytes" "Null invalid marker=%#x"
    return .null
  | .undefined => do
    readMarker .undefined "requires 1 only %d bytes" "Undefined invalid marker=%#x"
    return .undefined
  | .date => do
    let (value, timeZone) ← readDate
    return .date value timeZone
  | .object => readObject readAny
  | .ecmaArray => readEcmaArray readAny
  | .strictArray => readStrictArray readAny
  | .objectEof => do
    readObjectEof
    return .objectEof

/-- `srs_amf0_read_any`, up to a depth. -/
def readAny : ℕ → Amf0Io Amf0Any
  | 0 => fun _ => .hang
  | depth + 1 => do
    let kind ← Prog.wrap (Amf0Error.wrap "discovery") discovery
    Prog.wrap (Amf0Error.wrap "parse elem") (readKind (readAny depth) kind)

/-- `srs_amf0_read_any` -/
def srsAmf0ReadAny : Amf0Io Amf0Any := fun b => readAny (b.rest.length + 1) b

end SrsChatRoom.Protocol
