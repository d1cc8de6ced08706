import SrsChatRoom.Protocol.Amf0

/-!
# What is written for a value of AMF0

`encode v` are the bytes of a value. `write` puts them into a buffer that has room for
`total_size` bytes, and they are as many (`writes_write`, `length_encode`).
-/

namespace SrsChatRoom.Protocol

open SrsChatRoom.Kernel

/-! ## The bytes -/

/-- A name or a string: its length and its bytes. -/
def encodeUtf8 (value : List UInt8) : List UInt8 := bytesBE 2 value.length ++ value

/-- The end of an object. -/
def eofBytes : List UInt8 := [0, 0, 9]

mutual

/-- The bytes of a value. -/
def encode : Amf0Any → List UInt8
  | .string value => Amf0Kind.string.marker :: encodeUtf8 value
  | .boolean value => [Amf0Kind.boolean.marker, if value then 1 else 0]
  | .number value => Amf0Kind.number.marker :: bytesBE 8 value.toNat
  | .null => [Amf0Kind.null.marker]
  | .undefined => [Amf0Kind.undefined.marker]
  | .date value timeZone =>
    Amf0Kind.date.marker :: (bytesBE 8 value.toNat ++ bytesBE 2 timeZone.toNat)
  | .object properties => Amf0Kind.object.marker :: (encodeProperties properties ++ eofBytes)
  | .ecmaArray count properties =>
    Amf0Kind.ecmaArray.marker ::
      (bytesBE 4 count.toNat ++ (encodeProperties properties ++ eofBytes))
  | .strictArray count properties =>
    Amf0Kind.strictArray.marker :: (bytesBE 4 count.toNat ++ encodeElements properties)
  | .objectEof => eofBytes

/-- The bytes of the properties of an object. -/
def encodeProperties : List (List UInt8 × Amf0Any) → List UInt8
  | [] => []
  | (name, value) :: properties => encodeUtf8 name ++ (encode value ++ encodeProperties properties)

/-- The bytes of the elements of a strict array. -/
def encodeElements : List Amf0Any → List UInt8
  | [] => []
  | value :: properties => encode value ++ encodeElements properties

end

theorem length_encodeUtf8 (value : List UInt8) :
    (encodeUtf8 value).length = Amf0Size.utf8 value := by
  rw [encodeUtf8, List.length_append, length_bytesBE, Amf0Size.utf8]

mutual

/-- `total_size` is the size of what is written. -/
theorem length_encode : (v : Amf0Any) → (encode v).length = v.totalSize
  | .string value => by
    rw [encode, List.length_cons, length_encodeUtf8, Amf0Any.totalSize]
    omega
  | .boolean value => rfl
  | .number value => by
    rw [encode, List.length_cons, length_bytesBE, Amf0Any.totalSize]
  | .null => rfl
  | .undefined => rfl
  | .date value timeZone => by
    rw [encode, List.length_cons, List.length_append, length_bytesBE, length_bytesBE,
      Amf0Any.totalSize]
  | .object properties => by
    have hproperties := length_encodeProperties properties
    have heof : eofBytes.length = Amf0Size.objectEof := rfl
    rw [encode, List.length_cons, List.length_append, hproperties, heof, Amf0Any.totalSize]
    omega
  | .ecmaArray count properties => by
    have hproperties := length_encodeProperties properties
    have heof : eofBytes.length = Amf0Size.objectEof := rfl
    rw [encode, List.length_cons, List.length_append, List.length_append, length_bytesBE,
      hproperties, heof, Amf0Any.totalSize]
    omega
  | .strictArray count properties => by
    have helements := length_encodeElements properties
    rw [encode, List.length_cons, List.length_append, length_bytesBE, helements,
      Amf0Any.totalSize]
    omega
  | .objectEof => rfl

theorem length_encodeProperties :
    (properties : List (List UInt8 × Amf0Any)) →
      (encodeProperties properties).length = propertiesSize properties
  | [] => rfl
  | (name, value) :: properties => by
    have hvalue := length_encode value
    have hproperties := length_encodeProperties properties
    rw [encodeProperties, List.length_append, List.length_append, length_encodeUtf8, hvalue,
      hproperties, propertiesSize]
    omega

theorem length_encodeElements :
    (properties : List Amf0Any) → (encodeElements properties).length = elementsSize properties
  | [] => rfl
  | value :: properties => by
    have hvalue := length_encode value
    have helements := length_encodeElements properties
    rw [encodeElements, List.length_append, hvalue, helements, elementsSize]

end

/-! ## Writing them -/

/-- The program writes these bytes if there is room for them. -/
def Writes (x : Amf0Io Unit) (data : List UInt8) : Prop :=
  ∀ b : SrsBuffer, b.pos + data.length ≤ b.bytes.length → x b = .ok () (b.put data)

theorem writes_pure : Writes (pure ()) [] := by
  intro b _
  rw [SrsBuffer.put_nil]
  rfl

variable {data : List UInt8}

theorem Writes.bind {x y : Amf0Io Unit} {more : List UInt8} (hx : Writes x data)
    (hy : Writes y more) : Writes (do x; y) (data ++ more) := by
  intro b hroom
  rw [List.length_append] at hroom
  have hput : (b.put data).bytes.length = b.bytes.length :=
    SrsBuffer.length_bytes_put (by omega)
  rw [Prog.bind_ok (hx b (by omega)), hy (b.put data) (by rw [hput, SrsBuffer.pos_put]; omega),
    SrsBuffer.put_put (by omega)]

theorem Writes.wrap {x : Amf0Io Unit} (h : Writes x data)
    (g : Amf0Error → Amf0Error) : Writes (Prog.wrap g x) data :=
  fun b hroom => Prog.wrap_ok (h b hroom) g

/-- What is written is checked first. -/
theorem writes_checked {n : ℕ} (hn : data.length = n) (message : String)
    {x : Dec Unit} (hx : x = SrsBuffer.writeBytes data) :
    Writes (do requires n .encode message; access x) data := by
  intro b hroom
  have hthere : requires n .encode message b = .ok () b :=
    if_pos ((b.require_iff n).mpr (by omega))
  rw [Prog.bind_ok hthere, access, hx, SrsBuffer.writeBytes_run hroom]

/-- The same with something else behind it. -/
theorem Writes.checked {n : ℕ} {more : List UInt8} (hn : data.length = n) (message : String)
    {x : Dec Unit} (hx : x = SrsBuffer.writeBytes data) {y : Amf0Io Unit} (hy : Writes y more) :
    Writes (do requires n .encode message; access x; y) (data ++ more) := by
  intro b hroom
  have hboth := (writes_checked hn message hx).bind hy b hroom
  have hthere : requires n .encode message b = .ok () b := by
    rw [List.length_append] at hroom
    exact if_pos ((b.require_iff n).mpr (by omega))
  rw [Prog.bind_ok hthere]
  rw [Prog.bind_apply, Prog.bind_ok hthere] at hboth
  exact hboth

theorem writes_writeMarker (kind : Amf0Kind) (message : String) :
    Writes (writeMarker kind message) [kind.marker] := by
  refine writes_checked rfl message ?_
  rw [SrsBuffer.writeUint]
  congr 1
  cases kind <;> rfl

theorem writes_writeUtf8 (value : List UInt8) : Writes (writeUtf8 value) (encodeUtf8 value) := by
  refine Writes.checked (n := 2) (length_bytesBE 2 _) _ rfl ?_
  by_cases hnil : value = []
  · rw [if_pos hnil, hnil]
    exact writes_pure
  · rw [if_neg hnil]
    exact writes_checked rfl _ rfl

theorem writes_writeObjectEof : Writes writeObjectEof eofBytes :=
  Writes.checked (n := 2) (rfl : ([0, 0] : List UInt8).length = 2) _ rfl
    (writes_checked (n := 1) (rfl : ([9] : List UInt8).length = 1) _ rfl)

theorem writes_writeDate (value : BitVec 64) (timeZone : BitVec 16) :
    Writes (writeDate value timeZone)
      (Amf0Kind.date.marker :: (bytesBE 8 value.toNat ++ bytesBE 2 timeZone.toNat)) := by
  refine (writes_writeMarker .date _).bind ?_
  refine Writes.checked (n := 8) (length_bytesBE 8 _) _ rfl ?_
  exact writes_checked (n := 2) (length_bytesBE 2 _) _ rfl

theorem writes_writeBoolean (value : Bool) :
    Writes (writeBoolean value) [Amf0Kind.boolean.marker, if value then 1 else 0] := by
  refine (writes_writeMarker .boolean _).bind ?_
  refine writes_checked (n := 1) rfl _ ?_
  cases value <;> rfl

theorem writes_writeNumber (value : BitVec 64) :
    Writes (writeNumber value) (Amf0Kind.number.marker :: bytesBE 8 value.toNat) :=
  (writes_writeMarker .number _).bind (writes_checked (n := 8) (length_bytesBE 8 _) _ rfl)

theorem writes_writeCount (count : BitVec 32) : Writes (writeCount count) (bytesBE 4 count.toNat) :=
  writes_checked (n := 4) (length_bytesBE 4 _) _ rfl

mutual

/-- `write` writes the bytes of the value. -/
theorem writes_write : (v : Amf0Any) → Writes v.write (encode v)
  | .string value => (writes_writeMarker .string _).bind (writes_writeUtf8 value)
  | .boolean value => writes_writeBoolean value
  | .number value => writes_writeNumber value
  | .null => writes_writeMarker .null _
  | .undefined => writes_writeMarker .undefined _
  | .date value timeZone => writes_writeDate value timeZone
  | .object properties =>
    (writes_writeMarker .object _).bind
      ((writes_writeProperties properties).bind (writes_writeObjectEof.wrap _))
  | .ecmaArray count properties =>
    (writes_writeMarker .ecmaArray _).bind ((writes_writeCount count).bind
      ((writes_writeProperties properties).bind (writes_writeObjectEof.wrap _)))
  | .strictArray count properties =>
    (writes_writeMarker .strictArray _).bind
      ((writes_writeCount count).bind (writes_writeElements properties))
  | .objectEof => writes_writeObjectEof

theorem writes_writeProperties :
    (properties : List (List UInt8 × Amf0Any)) →
      Writes (writeProperties properties) (encodeProperties properties)
  | [] => writes_pure
  | (name, value) :: properties =>
    ((writes_writeUtf8 name).wrap _).bind
      (((writes_write value).wrap _).bind (writes_writeProperties properties))

theorem writes_writeElements :
    (properties : List Amf0Any) → Writes (writeElements properties) (encodeElements properties)
  | [] => writes_pure
  | value :: properties => ((writes_write value).wrap _).bind (writes_writeElements properties)

end

/-- A buffer of `total_size` bytes is filled. -/
theorem write_fills (v : Amf0Any) {out : List UInt8} (h : out.length = v.totalSize) :
    v.write ⟨out, 0⟩ = .ok () ⟨encode v, v.totalSize⟩ := by
  have hlength := length_encode v
  have hput : (SrsBuffer.put ⟨out, 0⟩ (encode v)) = ⟨encode v, v.totalSize⟩ := by
    unfold SrsBuffer.put
    dsimp only
    rw [List.take_zero, List.nil_append, Nat.zero_add, hlength, List.drop_of_length_le h.le,
      List.append_nil]
  have hroom : 0 + (encode v).length ≤ out.length := by omega
  rw [← hput]
  exact writes_write v ⟨out, 0⟩ hroom

end SrsChatRoom.Protocol
