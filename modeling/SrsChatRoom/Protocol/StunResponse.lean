import SrsChatRoom.Kernel.Crc
import SrsChatRoom.Protocol.Stun

/-!
# STUN binding responses (`srs_protocol_rtc_stun.cpp`)

The encoder writes two attributes, and then two checks of what is in front of them. For each check
it puts the length into the header first that the check has to cover: for `MESSAGE-INTEGRITY` the
length up to its end, for `FINGERPRINT` the length of the whole message.

HMAC-SHA1 is a parameter. Of the padding the encoder decides by the position in a buffer of its
own, where the attribute is alone.
-/

namespace SrsChatRoom.Protocol.Stun

open SrsChatRoom.Kernel
open SrsChatRoom.Kernel.Cursor (behind_written writeBytes_written writeUint_written written)
open SrsChatRoom.Prog (bind_ok)
open List (append_assoc append_nil length_append nil_append take_left')

/-- `kRtpPacketSize`, the size of the buffer that a response is encoded to. -/
def kRtpPacketSize : ℕ := 1500

def kStunMagicCookie : ℕ := 0x2112A442

/-- `BindingResponse` of `SrsStunMessageType`. -/
def bindingResponse : ℕ := 0x0101

/-- The types of `SrsStunMessageAttribute` that a response has besides the user name. -/
def attributeMessageIntegrity : ℕ := 0x0008
def attributeXorMappedAddress : ℕ := 0x0020
def attributeFingerprint : ℕ := 0x8028

/-- A program that writes a packet. -/
abbrev StunWriter := Prog SrsBuffer StunError

/-- HMAC-SHA1 of some data, with a key. -/
abbrev HmacSha1 := List UInt8 → List UInt8 → Vector UInt8 20

/-- `char buf[1460]`. Only what is written to it is used. -/
def scratch : SrsBuffer := ⟨List.replicate 1460 0, 0⟩

namespace SrsStunPacket

/-- `if (stream->pos() % 4 != 0) stream->write_bytes(padding, 4 - (stream->pos() % 4))` -/
def writePadding : StunWriter Unit := do
  let pos ← Cursor.pos
  if pos % 4 ≠ 0 then Cursor.writeBytes (List.replicate (4 - pos % 4) 0) else return ()

/-- `remote_ufrag + ":" + local_ufrag` -/
def userName (packet : SrsStunPacket) : List UInt8 :=
  packet.remoteUfrag ++ UInt8.ofNat 58 :: packet.localUfrag

/-- `SrsStunPacket::encode_username` -/
def encodeUsername (packet : SrsStunPacket) : StunWriter (List UInt8) :=
  Prog.alone (do
    let username := packet.userName
    Cursor.writeUint 2 attributeUsername
    Cursor.writeUint 2 username.length
    Cursor.writeBytes username
    writePadding
    Cursor.behind) scratch

/-- `SrsStunPacket::encode_mapped_address` -/
def encodeMappedAddress (packet : SrsStunPacket) : StunWriter (List UInt8) :=
  Prog.alone (do
    Cursor.writeUint 2 attributeXorMappedAddress
    Cursor.writeUint 2 8
    Cursor.writeUint 1 0
    Cursor.writeUint 1 1
    Cursor.writeUint 2 (packet.mappedPort.toNat ^^^ kStunMagicCookie >>> 16)
    Cursor.writeUint 4 (packet.mappedAddress.toNat ^^^ kStunMagicCookie)
    Cursor.behind) scratch

/-- `SrsStunPacket::encode_hmac` -/
def encodeHmac (hmacBuf : List UInt8) : StunWriter (List UInt8) :=
  Prog.alone (do
    Cursor.writeUint 2 attributeMessageIntegrity
    Cursor.writeUint 2 hmacBuf.length
    Cursor.writeBytes hmacBuf
    Cursor.behind) scratch

/-- `SrsStunPacket::encode_fingerprint` -/
def encodeFingerprint (crc32 : ℕ) : StunWriter (List UInt8) :=
  Prog.alone (do
    Cursor.writeUint 2 attributeFingerprint
    Cursor.writeUint 2 4
    Cursor.writeUint 4 crc32
    Cursor.behind) scratch

/-- `stream->data()[2] = (n & 0x0000FF00) >> 8; stream->data()[3] = (n & 0x000000FF);` -/
def pokeLength (n : ℕ) : StunWriter Unit := do
  Cursor.poke 2 ((n &&& 0x0000FF00) >>> 8)
  Cursor.poke 3 (n &&& 0x000000FF)

/-- `SrsStunPacket::encode_binding_response`. A position that 20 is taken from is past the header. -/
def encodeBindingResponse (hmacSha1 : HmacSha1) (packet : SrsStunPacket) (pwd : List UInt8) :
    StunWriter Unit := do
  let propertyUsername ← packet.encodeUsername
  let mappedAddress ← packet.encodeMappedAddress
  Cursor.writeUint 2 bindingResponse
  Cursor.writeUint 2 (propertyUsername.length + mappedAddress.length)
  Cursor.writeUint 4 kStunMagicCookie
  Cursor.writeBytes packet.transcationId
  Cursor.writeBytes propertyUsername
  Cursor.writeBytes mappedAddress
  let pos ← Cursor.pos
  pokeLength (pos - 20 + 20 + 4)
  let data ← Cursor.behind
  let hmac ← encodeHmac (hmacSha1 pwd data).toList
  Cursor.writeBytes hmac
  let pos ← Cursor.pos
  pokeLength (pos - 20 + 8)
  let data ← Cursor.behind
  let fingerprint ← encodeFingerprint (srsCrc32Ieee data 0 ^^^ 0x5354554E)
  Cursor.writeBytes fingerprint
  let pos ← Cursor.pos
  pokeLength (pos - 20)

/-- `SrsStunPacket::encode` -/
def encode (hmacSha1 : HmacSha1) (packet : SrsStunPacket) (pwd : List UInt8) : StunWriter Unit :=
  if packet.messageType = bindingResponse then encodeBindingResponse hmacSha1 packet pwd
  else Prog.throw ⟨"unknown stun type=%d"⟩

end SrsStunPacket

/-! ## Messages -/

/-- An attribute: its type and its value. -/
structure Attribute where
  type : ℕ
  value : List UInt8

/-- The attribute in a message. -/
def Attribute.bytes (a : Attribute) : List UInt8 :=
  bytesBE 2 a.type ++ bytesBE 2 a.value.length ++ a.value ++
    List.replicate (paddingLength a.value.length) 0

/-- The header of a response, with the length in it. -/
def header (id : List UInt8) (length : ℕ) : List UInt8 :=
  bytesBE 2 bindingResponse ++ bytesBE 2 length ++ bytesBE 4 kStunMagicCookie ++ id

/-- The type and the length are numbers of two bytes. -/
structure Attribute.Fits (a : Attribute) : Prop where
  type : a.type < 256 ^ 2
  length : a.value.length < 256 ^ 2

theorem Attribute.length_bytes (a : Attribute) :
    a.bytes.length = 4 + a.value.length + paddingLength a.value.length := by
  unfold Attribute.bytes
  rw [length_append, length_append, length_append, length_bytesBE, length_bytesBE,
    List.length_replicate]

/-- No padding is behind a value of a multiple of four bytes. -/
theorem Attribute.bytes_of_aligned {a : Attribute} (h : a.value.length % 4 = 0) :
    a.bytes = bytesBE 2 a.type ++ bytesBE 2 a.value.length ++ a.value := by
  rw [bytes, paddingLength, if_neg (not_not.mpr h), List.replicate_zero, append_nil]

/-- An attribute takes a multiple of four bytes. -/
theorem Attribute.length_bytes_mod (a : Attribute) : a.bytes.length % 4 = 0 := by
  rw [a.length_bytes]
  unfold paddingLength
  split <;> omega

theorem length_header {id : List UInt8} (hid : id.length = 12) (n : ℕ) :
    (header id n).length = 20 := by
  unfold header
  rw [length_append, length_append, length_append, length_bytesBE, length_bytesBE,
    length_bytesBE, hid]

/-! ## Reading the attributes -/

namespace SrsStunPacket

/-- A value in the middle of a message. -/
theorem uintAt_middle {n v : ℕ} (front back : List UInt8) (h : v < 256 ^ n) :
    uintAt (front ++ bytesBE n v ++ back) front.length n = v := by
  have htake : ((bytesBE n v ++ back).take n) = bytesBE n v := take_left' (length_bytesBE n v)
  rw [uintAt, append_assoc, List.drop_left, htake, ofBytesBE_bytesBE, Nat.mod_eq_of_lt h]

variable (packet : SrsStunPacket)

/-- An attribute in the middle of a message is read as it was written. -/
theorem decodeAttribute_bytes {a : Attribute} (ha : a.Fits) (front back : List UInt8) :
    decodeAttribute packet ⟨front ++ a.bytes ++ back, front.length⟩ =
      .ok (packet.setAttribute a.type a.value)
        ⟨front ++ a.bytes ++ back, (front ++ a.bytes).length⟩ := by
  obtain ⟨bytes, hbytes⟩ : ∃ bytes, bytes = front ++ a.bytes ++ back := ⟨_, rfl⟩
  have hlength : bytes.length = front.length + a.bytes.length + back.length := by
    rw [hbytes, length_append, length_append]
  have htype : uintAt bytes front.length 2 = a.type := by
    rw [hbytes, Attribute.bytes, append_assoc front, append_assoc (bytesBE 2 a.type ++ _),
      append_assoc (bytesBE 2 a.type), append_assoc (bytesBE 2 a.type),
      ← append_assoc front]
    exact uintAt_middle front _ ha.type
  have hvalueLength : valueLength bytes front.length = a.value.length := by
    have hfront : (front ++ bytesBE 2 a.type).length = front.length + 2 := by
      rw [length_append, length_bytesBE]
    have h := uintAt_middle (front ++ bytesBE 2 a.type)
      (a.value ++ List.replicate (paddingLength a.value.length) 0 ++ back) ha.length
    rw [hfront] at h
    rw [valueLength, hbytes, Attribute.bytes]
    simpa only [append_assoc] using h
  have hvalue : (bytes.drop (front.length + 4)).take a.value.length = a.value := by
    have hfront : (front ++ bytesBE 2 a.type ++ bytesBE 2 a.value.length).length =
        front.length + 4 := by
      rw [length_append, length_append, length_bytesBE, length_bytesBE]
    have hsplit : bytes = (front ++ bytesBE 2 a.type ++ bytesBE 2 a.value.length) ++
        (a.value ++ (List.replicate (paddingLength a.value.length) 0 ++ back)) := by
      rw [hbytes, Attribute.bytes]
      simp only [append_assoc]
    rw [hsplit, List.drop_left' hfront, List.take_left]
  have hend : valueEnd bytes front.length + paddingLength a.value.length =
      (front ++ a.bytes).length := by
    rw [valueEnd, hvalueLength, length_append, a.length_bytes]
    omega
  have hin : (front ++ a.bytes).length ≤ bytes.length := by
    rw [hlength, length_append]
    omega
  obtain ⟨padding, hpadding⟩ := readPadding_at (hend.trans_le hin)
  rw [← hbytes, decodeAttribute_value packet (by omega), hvalueLength, bind_ok hpadding, hend,
    htype, hvalue]
  rfl

/-- The loop reads a list of attributes. -/
theorem decodeAttributes_bytes {attributes : List Attribute}
    (h : ∀ a ∈ attributes, a.Fits) (front : List UInt8) {fuel : ℕ}
    (hfuel : attributes.length < fuel) :
    decodeAttributes fuel packet
        ⟨front ++ attributes.flatMap Attribute.bytes, front.length⟩ =
      .ok (attributes.foldl (fun p a => p.setAttribute a.type a.value) packet)
        ⟨front ++ attributes.flatMap Attribute.bytes,
          (front ++ attributes.flatMap Attribute.bytes).length⟩ := by
  induction attributes generalizing packet front fuel with
  | nil =>
    cases fuel with
    | zero => omega
    | succ fuel =>
      rw [List.flatMap_nil, append_nil]
      apply if_neg
      show ¬ (4 : ℤ) ≤ front.length - front.length
      omega
  | cons a attributes ih =>
    cases fuel with
    | zero => omega
    | succ fuel =>
      have hrun := decodeAttribute_bytes packet (h a List.mem_cons_self) front
        (attributes.flatMap Attribute.bytes)
      have hleft : (⟨front ++ a.bytes ++ attributes.flatMap Attribute.bytes,
          front.length⟩ : SrsBuffer).left ≥ 4 := by
        show (4 : ℤ) ≤ (front ++ a.bytes ++ attributes.flatMap Attribute.bytes).length - front.length
        rw [length_append, length_append, a.length_bytes]
        omega
      rw [List.flatMap_cons, ← append_assoc]
      refine (if_pos hleft).trans ?_
      rw [bind_ok hrun]
      exact ih (packet.setAttribute a.type a.value) (fun b hb => h b (List.mem_cons_of_mem a hb))
        (front ++ a.bytes) (Nat.lt_of_succ_lt_succ hfuel)

/-! ## Writing the attributes -/

def nameAttribute (packet : SrsStunPacket) : Attribute := ⟨attributeUsername, packet.userName⟩

def mappedAttribute (packet : SrsStunPacket) : Attribute :=
  ⟨attributeXorMappedAddress, bytesBE 1 0 ++ bytesBE 1 1 ++
    bytesBE 2 (packet.mappedPort.toNat ^^^ kStunMagicCookie >>> 16) ++
    bytesBE 4 (packet.mappedAddress.toNat ^^^ kStunMagicCookie)⟩

/-- The attribute that covers the bytes before it with a key. -/
def integrityAttribute (hmacSha1 : HmacSha1) (pwd before : List UInt8) : Attribute :=
  ⟨attributeMessageIntegrity, (hmacSha1 pwd before).toList⟩

/-- The attribute that covers the bytes before it with a checksum. -/
def fingerprintAttribute (before : List UInt8) : Attribute :=
  ⟨attributeFingerprint, bytesBE 4 (crc32 before ^^^ 0x5354554E)⟩

variable {out data : List UInt8}

theorem writePadding_written (h : data.length + paddingLength data.length ≤ out.length) :
    writePadding (written out data) =
      .ok () (written out (data ++ List.replicate (paddingLength data.length) 0)) := by
  have hrun : writePadding (written out data) =
      (if data.length % 4 ≠ 0 then Cursor.writeBytes (List.replicate (4 - data.length % 4) 0)
        else pure () : StunWriter Unit) (written out data) := rfl
  rw [hrun]
  unfold paddingLength at *
  by_cases hpos : data.length % 4 ≠ 0
  · rw [if_pos hpos] at h ⊢
    rw [if_pos hpos]
    apply writeBytes_written
    rwa [List.length_replicate]
  · rw [if_neg hpos, if_neg hpos, List.replicate_zero, append_nil]
    rfl

theorem fits_scratch {n : ℕ} (h : n ≤ 1460) : n ≤ (List.replicate 1460 (0 : UInt8)).length := by
  rwa [List.length_replicate]

/-- An attribute is what its encoder writes to the buffer of its own. -/
theorem alone_scratch {x : StunWriter (List UInt8)}
    (h : x (written (List.replicate 1460 0) []) = .ok data (written (List.replicate 1460 0) data))
    (b : SrsBuffer) : (x.alone scratch : StunWriter (List UInt8)) b = .ok data b :=
  Prog.alone_ok h b

theorem encodeUsername_run (h : packet.nameAttribute.bytes.length ≤ 1460) (b : SrsBuffer) :
    packet.encodeUsername b = .ok packet.nameAttribute.bytes b := by
  have hlength : packet.nameAttribute.bytes.length =
      4 + packet.userName.length + paddingLength packet.userName.length :=
    packet.nameAttribute.length_bytes
  have hhead : (bytesBE 2 attributeUsername ++ bytesBE 2 packet.userName.length).length = 4 := by
    rw [length_append, length_bytesBE, length_bytesBE]
  have hdata : (bytesBE 2 attributeUsername ++ bytesBE 2 packet.userName.length ++
      packet.userName).length = 4 + packet.userName.length := by
    rw [length_append, hhead]
  -- the header takes four bytes, so that the padding does not depend on it
  have hpadding : paddingLength (4 + packet.userName.length) =
      paddingLength packet.userName.length := by
    unfold paddingLength
    rw [Nat.add_mod_left]
  apply alone_scratch
  rw [bind_ok (writeUint_written _ (fits_scratch (by simp))), nil_append,
    bind_ok (writeUint_written _ (fits_scratch (by simp))),
    bind_ok (writeBytes_written (fits_scratch (by rw [hhead]; omega))),
    bind_ok (writePadding_written (fits_scratch (by rw [hdata, hpadding]; omega))), hdata,
    hpadding]
  exact behind_written

theorem mappedAttribute_bytes :
    packet.mappedAttribute.bytes = bytesBE 2 attributeXorMappedAddress ++ bytesBE 2 8 ++
      bytesBE 1 0 ++ bytesBE 1 1 ++
      bytesBE 2 (packet.mappedPort.toNat ^^^ kStunMagicCookie >>> 16) ++
      bytesBE 4 (packet.mappedAddress.toNat ^^^ kStunMagicCookie) := by
  have hlength : packet.mappedAttribute.value.length = 8 := by
    simp [mappedAttribute]
  rw [Attribute.bytes_of_aligned (by rw [hlength]), hlength]
  simp only [mappedAttribute, append_assoc]

theorem encodeMappedAddress_run (b : SrsBuffer) :
    packet.encodeMappedAddress b = .ok packet.mappedAttribute.bytes b := by
  apply alone_scratch
  rw [bind_ok (writeUint_written _ (fits_scratch (by simp))), nil_append,
    bind_ok (writeUint_written _ (fits_scratch (by simp))),
    bind_ok (writeUint_written _ (fits_scratch (by simp))),
    bind_ok (writeUint_written _ (fits_scratch (by simp))),
    bind_ok (writeUint_written _ (fits_scratch (by simp))),
    bind_ok (writeUint_written _ (fits_scratch (by simp))), mappedAttribute_bytes]
  exact behind_written

theorem encodeHmac_run (hmacSha1 : HmacSha1) (pwd before : List UInt8) (b : SrsBuffer) :
    encodeHmac (hmacSha1 pwd before).toList b =
      .ok (integrityAttribute hmacSha1 pwd before).bytes b := by
  have hlength : (integrityAttribute hmacSha1 pwd before).value.length = 20 := Vector.length_toList
  have hbytes := @Attribute.bytes_of_aligned (integrityAttribute hmacSha1 pwd before)
    (by rw [hlength])
  apply alone_scratch
  rw [bind_ok (writeUint_written _ (fits_scratch (by simp))), nil_append,
    bind_ok (writeUint_written _ (fits_scratch (by simp))),
    bind_ok (writeBytes_written (fits_scratch (by simp))), hbytes]
  exact behind_written

theorem encodeFingerprint_run (before : List UInt8) (b : SrsBuffer) :
    encodeFingerprint (crc32 before ^^^ 0x5354554E) b =
      .ok (fingerprintAttribute before).bytes b := by
  have hlength : (fingerprintAttribute before).value.length = 4 := length_bytesBE _ _
  have hbytes := @Attribute.bytes_of_aligned (fingerprintAttribute before) (by rw [hlength])
  rw [hlength] at hbytes
  apply alone_scratch
  rw [bind_ok (writeUint_written _ (fits_scratch (by simp))), nil_append,
    bind_ok (writeUint_written _ (fits_scratch (by simp))),
    bind_ok (writeUint_written _ (fits_scratch (by simp))), hbytes]
  exact behind_written

/-! ## The response -/

theorem pos_written :
    (Cursor.pos : StunWriter ℕ) (written out data) = .ok data.length (written out data) := rfl

/-- The two bytes of the length are replaced. -/
theorem pokeLength_header (id body out : List UInt8) (m n : ℕ) :
    pokeLength n (written out (header id m ++ body)) =
      .ok () (written out (header id n ++ body)) := by
  have hhigh : UInt8.ofNat ((n &&& 0x0000FF00) >>> 8) = UInt8.ofNat (n / 256 ^ 1) := by
    apply UInt8.toNat_inj.mp
    have hand : (n &&& 0x0000FF00) >>> 8 = n >>> 8 &&& (2 ^ 8 - 1) := by
      rw [Nat.shiftRight_and_distrib]
      rfl
    rw [hand, Nat.and_two_pow_sub_one_eq_mod, Nat.shiftRight_eq_div_pow, UInt8.toNat_ofNat',
      UInt8.toNat_ofNat']
    exact Nat.mod_mod _ _
  have hlow : UInt8.ofNat (n &&& 0x000000FF) = UInt8.ofNat (n / 256 ^ 0) := by
    apply UInt8.toNat_inj.mp
    rw [show n &&& 0x000000FF = n % 2 ^ 8 from Nat.and_two_pow_sub_one_eq_mod n 8,
      UInt8.toNat_ofNat', UInt8.toNat_ofNat', Nat.pow_zero, Nat.div_one]
    exact Nat.mod_mod _ _
  have hset : ((header id m ++ body).set 2 (UInt8.ofNat ((n &&& 0x0000FF00) >>> 8))).set 3
      (UInt8.ofNat (n &&& 0x000000FF)) = header id n ++ body := by
    rw [hhigh, hlow]
    rfl
  have hlength : 4 ≤ (header id m ++ body).length := by
    unfold header
    simp only [length_append, length_bytesBE]
    omega
  rw [pokeLength, bind_ok (Cursor.poke_written _ (by omega)),
    Cursor.poke_written _ (by rw [List.length_set]; omega), hset]

/-- The attributes that the checks cover. -/
def body (packet : SrsStunPacket) : List UInt8 :=
  packet.nameAttribute.bytes ++ packet.mappedAttribute.bytes

/-- The bytes before `MESSAGE-INTEGRITY`, with the length up to its end. -/
def covered (packet : SrsStunPacket) : List UInt8 :=
  header packet.transcationId (packet.body.length + 24) ++ packet.body

/-- The bytes before `FINGERPRINT`, with the length of the message. -/
def checked (hmacSha1 : HmacSha1) (packet : SrsStunPacket) (pwd : List UInt8) : List UInt8 :=
  header packet.transcationId (packet.body.length + 32) ++
    (packet.body ++ (integrityAttribute hmacSha1 pwd packet.covered).bytes)

/-- The response. -/
def response (hmacSha1 : HmacSha1) (packet : SrsStunPacket) (pwd : List UInt8) : List UInt8 :=
  packet.checked hmacSha1 pwd ++ (fingerprintAttribute (packet.checked hmacSha1 pwd)).bytes

/-- The bytes of a response, by the length of the user name. -/
def responseLength (packet : SrsStunPacket) : ℕ :=
  20 + (4 + packet.userName.length + paddingLength packet.userName.length) + 12 + 24 + 8

section Lengths

variable (hmacSha1 : HmacSha1) (packet : SrsStunPacket) (pwd before : List UInt8)

theorem length_mappedAttribute : packet.mappedAttribute.bytes.length = 12 := by
  rw [Attribute.length_bytes]
  simp [mappedAttribute, paddingLength]

theorem length_integrityAttribute : (integrityAttribute hmacSha1 pwd before).bytes.length = 24 := by
  rw [Attribute.length_bytes]
  simp [integrityAttribute, paddingLength]

theorem length_fingerprintAttribute : (fingerprintAttribute before).bytes.length = 8 := by
  rw [Attribute.length_bytes]
  simp [fingerprintAttribute, paddingLength]

theorem length_body : packet.body.length =
    4 + packet.userName.length + paddingLength packet.userName.length + 12 := by
  rw [body, length_append, length_mappedAttribute, Attribute.length_bytes]
  rfl

variable {packet} (hid : packet.transcationId.length = 12)
include hid

theorem length_covered : packet.covered.length = 20 + packet.body.length := by
  rw [covered, length_append, length_header hid]

theorem length_checked : (packet.checked hmacSha1 pwd).length = 20 + (packet.body.length + 24) := by
  rw [checked, length_append, length_append, length_header hid,
    length_integrityAttribute]

theorem length_response : (packet.response hmacSha1 pwd).length = packet.responseLength := by
  rw [response, length_append, length_checked hmacSha1 pwd hid, length_fingerprintAttribute,
    length_body, responseLength]
  omega

end Lengths

/-- What the encoder leaves in its buffer. -/
theorem encodeBindingResponse_run (hmacSha1 : HmacSha1) {packet : SrsStunPacket}
    (pwd : List UInt8) (hid : packet.transcationId.length = 12)
    (hroom : packet.responseLength ≤ out.length)
    (hname : packet.nameAttribute.bytes.length ≤ 1460) :
    encodeBindingResponse hmacSha1 packet pwd ⟨out, 0⟩ =
      .ok () (written out (packet.response hmacSha1 pwd)) := by
  obtain ⟨first, hfirst⟩ : ∃ n, n =
      packet.nameAttribute.bytes.length + packet.mappedAttribute.bytes.length := ⟨_, rfl⟩
  obtain ⟨integrity, hintegrity⟩ : ∃ bytes, bytes =
      (integrityAttribute hmacSha1 pwd packet.covered).bytes := ⟨_, rfl⟩
  have hbody := packet.length_body
  have hmapped := packet.length_mappedAttribute
  have hsum : packet.body.length = packet.nameAttribute.bytes.length + 12 := by
    rw [body, length_append, hmapped]
  have hcovered := length_covered hid
  have hchecked := length_checked hmacSha1 pwd hid
  have hintegrityLength : integrity.length = 24 := by
    rw [hintegrity, length_integrityAttribute]
  have hfingerprint := length_fingerprintAttribute (packet.checked hmacSha1 pwd)
  rw [responseLength] at hroom
  -- the header with the two attributes
  have hstart : [] ++ bytesBE 2 bindingResponse ++ bytesBE 2 first ++ bytesBE 4 kStunMagicCookie ++
      packet.transcationId ++ packet.nameAttribute.bytes ++ packet.mappedAttribute.bytes =
      header packet.transcationId first ++ packet.body := by
    rw [nil_append, header, body, ← append_assoc]
  have hstartLength : (header packet.transcationId first ++ packet.body).length =
      20 + packet.body.length := by
    rw [length_append, length_header hid]
  -- with the first check
  have hwith : packet.covered ++ integrity =
      header packet.transcationId (packet.body.length + 24) ++ (packet.body ++ integrity) := by
    rw [covered, append_assoc]
  have hwithLength : (packet.covered ++ integrity).length = 20 + (packet.body.length + 24) := by
    rw [length_append, hcovered, hintegrityLength]
    omega
  have hend : packet.checked hmacSha1 pwd = header packet.transcationId (packet.body.length + 32) ++
      (packet.body ++ integrity) := by
    rw [checked, hintegrity]
  have hresponse : packet.response hmacSha1 pwd =
      header packet.transcationId (packet.body.length + 32) ++ (packet.body ++ integrity ++
        (fingerprintAttribute (packet.checked hmacSha1 pwd)).bytes) := by
    rw [response, hend, append_assoc]
  have hresponseLength : (header packet.transcationId (packet.body.length + 32) ++ (packet.body ++
      integrity ++ (fingerprintAttribute (packet.checked hmacSha1 pwd)).bytes)).length =
      20 + (packet.body.length + 32) := by
    rw [length_append, length_append, length_append, length_header hid,
      hintegrityLength, hfingerprint]
  rw [encodeBindingResponse, bind_ok (encodeUsername_run packet hname _),
    bind_ok (encodeMappedAddress_run packet _), ← hfirst,
    show (⟨out, 0⟩ : SrsBuffer) = written out [] from rfl,
    bind_ok (writeUint_written _ (by simp; omega)),
    bind_ok (writeUint_written _ (by simp; omega)),
    bind_ok (writeUint_written _ (by simp; omega)),
    bind_ok (writeBytes_written (by simp; omega)),
    bind_ok (writeBytes_written (by simp; omega)),
    bind_ok (writeBytes_written (by simp; omega)), hstart]
  rw [bind_ok pos_written, hstartLength, show 20 + packet.body.length - 20 + 20 + 4 =
      packet.body.length + 24 by omega, bind_ok (pokeLength_header _ _ _ _ _), ← covered,
    bind_ok behind_written, bind_ok (encodeHmac_run hmacSha1 pwd _ _),
    ← hintegrity, bind_ok (writeBytes_written (by omega))]
  rw [bind_ok pos_written, hwithLength, hwith, show 20 + (packet.body.length + 24) - 20 + 8 =
      packet.body.length + 32 by omega, bind_ok (pokeLength_header _ _ _ _ _), ← hend,
    bind_ok behind_written, srsCrc32Ieee_eq, bind_ok (encodeFingerprint_run _ _),
    bind_ok (writeBytes_written (by omega)), ← response, bind_ok pos_written,
    hresponse, hresponseLength, show 20 + (packet.body.length + 32) - 20 =
      packet.body.length + 32 by omega]
  exact pokeLength_header _ _ _ _ _

/-! ## Well-formed responses -/

/-- The bytes of a message with another length in the header. -/
def withLength (n : ℕ) (bytes : List UInt8) : List UInt8 :=
  bytes.take 2 ++ bytesBE 2 n ++ bytes.drop 4

/-- The attributes of a response, whose last 32 bytes are the two checks. Each is computed from
the bytes in front of it: the first with the length up to its own end, the other with the length
that is there. -/
def attributes (hmacSha1 : HmacSha1) (packet : SrsStunPacket) (pwd bytes : List UInt8) :
    List Attribute :=
  [packet.nameAttribute, packet.mappedAttribute,
    integrityAttribute hmacSha1 pwd
      (withLength (bytes.length - 8 - 20) (bytes.take (bytes.length - 32))),
    fingerprintAttribute (bytes.take (bytes.length - 8))]

/-- What a response is. -/
structure WellFormed (hmacSha1 : HmacSha1) (packet : SrsStunPacket) (pwd bytes : List UInt8) :
    Prop where
  header : bytes.take 20 = Stun.header packet.transcationId (bytes.length - 20)
  length : 20 + uintAt bytes 2 2 = bytes.length
  attributes : bytes.drop 20 = (packet.attributes hmacSha1 pwd bytes).flatMap Attribute.bytes
  aligned : ∀ a ∈ packet.attributes hmacSha1 pwd bytes, a.bytes.length % 4 = 0
  port : uintAt bytes (20 + packet.nameAttribute.bytes.length + 6) 2 ^^^ kStunMagicCookie >>> 16 =
    packet.mappedPort.toNat
  address : uintAt bytes (20 + packet.nameAttribute.bytes.length + 8) 4 ^^^ kStunMagicCookie =
    packet.mappedAddress.toNat
  decodes : ∀ into : SrsStunPacket, ∃ decoded : SrsStunPacket,
    into.decode ⟨bytes, 0⟩ = .ok decoded ⟨bytes, bytes.length⟩ ∧
      decoded.messageType = bindingResponse ∧ decoded.transcationId = packet.transcationId ∧
      decoded.username = packet.remoteUfrag ++ UInt8.ofNat 58 :: packet.localUfrag

/-- A response that can be asked for: its id has twelve bytes, and it fits the buffer. -/
structure FittingResponse where
  packet : SrsStunPacket
  id : packet.transcationId.length = 12
  fits : packet.responseLength ≤ kRtpPacketSize

example : FittingResponse :=
  { packet := { transcationId := List.replicate 12 7, remoteUfrag := [97], localUfrag := [98] }
    id := rfl
    fits := by decide }

section WellFormed

variable (hmacSha1 : HmacSha1) (r : FittingResponse) (pwd : List UInt8)

theorem FittingResponse.length_name : r.packet.nameAttribute.bytes.length ≤ 1436 := by
  have hfits := r.fits
  have hname : r.packet.nameAttribute.bytes.length =
      4 + r.packet.userName.length + paddingLength r.packet.userName.length :=
    r.packet.nameAttribute.length_bytes
  unfold responseLength kRtpPacketSize at hfits
  omega

theorem FittingResponse.length_body : r.packet.body.length ≤ 1448 := by
  have hname := r.length_name
  rw [body, length_append, length_mappedAttribute]
  omega

/-- The response, by its header and its attributes. -/
theorem response_eq : r.packet.response hmacSha1 pwd =
    header r.packet.transcationId (r.packet.body.length + 32) ++
      [r.packet.nameAttribute, r.packet.mappedAttribute,
        integrityAttribute hmacSha1 pwd r.packet.covered,
        fingerprintAttribute (r.packet.checked hmacSha1 pwd)].flatMap Attribute.bytes := by
  rw [response, checked, body]
  simp only [List.flatMap_cons, List.flatMap_nil, append_nil, append_assoc]

/-- The checks of a response are over what is in front of them. -/
theorem attributes_response : r.packet.attributes hmacSha1 pwd (r.packet.response hmacSha1 pwd) =
    [r.packet.nameAttribute, r.packet.mappedAttribute,
      integrityAttribute hmacSha1 pwd r.packet.covered,
      fingerprintAttribute (r.packet.checked hmacSha1 pwd)] := by
  have hchecked := length_checked hmacSha1 pwd r.id
  have hlength : (r.packet.response hmacSha1 pwd).length = 20 + r.packet.body.length + 32 := by
    rw [response, length_append, hchecked, length_fingerprintAttribute]
    omega
  have hfingerprint : (r.packet.response hmacSha1 pwd).take (20 + r.packet.body.length + 32 - 8) =
      r.packet.checked hmacSha1 pwd := by
    rw [response]
    apply take_left'
    omega
  have hfront : (header r.packet.transcationId (r.packet.body.length + 32) ++
      r.packet.body).length = 20 + r.packet.body.length + 32 - 32 := by
    rw [length_append, length_header r.id]
    omega
  have hintegrity : (r.packet.response hmacSha1 pwd).take (20 + r.packet.body.length + 32 - 32) =
      header r.packet.transcationId (r.packet.body.length + 32) ++ r.packet.body := by
    rw [response, checked, append_assoc, append_assoc, ← append_assoc (header _ _)]
    exact take_left' hfront
  have hcovered : withLength (r.packet.body.length + 24)
      (header r.packet.transcationId (r.packet.body.length + 32) ++ r.packet.body) =
      r.packet.covered := rfl
  rw [attributes, hlength, hfingerprint, hintegrity,
    show 20 + r.packet.body.length + 32 - 8 - 20 = r.packet.body.length + 24 by omega, hcovered]

theorem fits_attributes : ∀ a ∈ [r.packet.nameAttribute, r.packet.mappedAttribute,
    integrityAttribute hmacSha1 pwd r.packet.covered,
    fingerprintAttribute (r.packet.checked hmacSha1 pwd)], a.Fits := by
  have hname := r.length_name
  rw [Attribute.length_bytes] at hname
  intro a ha
  simp only [List.mem_cons, List.not_mem_nil, or_false] at ha
  obtain rfl | rfl | rfl | rfl := ha
  · refine ⟨(by decide : attributeUsername < 256 ^ 2), ?_⟩
    show r.packet.nameAttribute.value.length < 65536
    omega
  · refine ⟨(by decide : attributeXorMappedAddress < 256 ^ 2), ?_⟩
    simp [mappedAttribute]
  · refine ⟨(by decide : attributeMessageIntegrity < 256 ^ 2), ?_⟩
    simp [integrityAttribute]
  · refine ⟨(by decide : attributeFingerprint < 256 ^ 2), ?_⟩
    simp [fingerprintAttribute]

theorem uintAt_header {id : List UInt8} {n : ℕ} (hn : n < 256 ^ 2) (rest : List UInt8) :
    uintAt (header id n ++ rest) 2 2 = n := by
  have h := uintAt_middle (bytesBE 2 bindingResponse) (bytesBE 4 kStunMagicCookie ++ id ++ rest) hn
  rw [length_bytesBE] at h
  rw [header]
  simpa only [append_assoc] using h

theorem setUsername_other (val : List UInt8) :
    (packet.setUsername val).messageType = packet.messageType ∧
      (packet.setUsername val).transcationId = packet.transcationId ∧
      (packet.setUsername val).username = val := by
  unfold setUsername
  cases val.idxOf? (UInt8.ofNat 58) with
  | none => exact ⟨rfl, rfl, rfl⟩
  | some p => exact ⟨rfl, rfl, rfl⟩

/-- The decoder takes the user name from a response, and looks at no other attribute of it. -/
theorem decode_response (into : SrsStunPacket) :
    ∃ decoded : SrsStunPacket, into.decode ⟨r.packet.response hmacSha1 pwd, 0⟩ =
        .ok decoded ⟨r.packet.response hmacSha1 pwd, (r.packet.response hmacSha1 pwd).length⟩ ∧
      decoded.messageType = bindingResponse ∧
      decoded.transcationId = r.packet.transcationId ∧
      decoded.username = r.packet.userName := by
  have hbody := r.length_body
  have hheader : (header r.packet.transcationId (r.packet.body.length + 32)).length = 20 :=
    length_header r.id _
  have heq := response_eq hmacSha1 r pwd
  obtain ⟨attributes, hattributes⟩ : ∃ attributes, attributes = [r.packet.nameAttribute,
      r.packet.mappedAttribute, integrityAttribute hmacSha1 pwd r.packet.covered,
      fingerprintAttribute (r.packet.checked hmacSha1 pwd)] := ⟨_, rfl⟩
  have hfits : ∀ a ∈ attributes, a.Fits := by
    rw [hattributes]
    exact fits_attributes hmacSha1 r pwd
  have hfour : attributes.length = 4 := by
    rw [hattributes]
    rfl
  rw [← hattributes] at heq
  have hlength : (r.packet.response hmacSha1 pwd).length = 20 + (r.packet.body.length + 32) := by
    rw [length_response hmacSha1 pwd r.id, responseLength, SrsStunPacket.length_body]
    omega
  have hsize : uintAt (r.packet.response hmacSha1 pwd) 2 2 = r.packet.body.length + 32 := by
    rw [heq]
    exact uintAt_header (by omega) _
  have htype : uintAt (r.packet.response hmacSha1 pwd) 0 2 = bindingResponse := by
    rw [heq]
    exact uintAt_middle [] _ (by decide : bindingResponse < 256 ^ 2)
  have hid : ((r.packet.response hmacSha1 pwd).drop 8).take 12 = r.packet.transcationId := by
    rw [heq]
    exact take_left' r.id
  have hcheck : ¬ ((r.packet.response hmacSha1 pwd).length : ℤ) - (0 : ℕ) < 20 := by omega
  have hstart : into.decode ⟨r.packet.response hmacSha1 pwd, 0⟩ =
      (decodeHeader into (r.packet.response hmacSha1 pwd).length >>=
        decodeAttributes (r.packet.response hmacSha1 pwd).length)
        ⟨r.packet.response hmacSha1 pwd, 0⟩ :=
    bind_ok (Prog.refuse_pass hcheck _ _) _
  have hrun := decodeHeader_run into (r.packet.response hmacSha1 pwd).length
    (by omega : 20 ≤ (r.packet.response hmacSha1 pwd).length)
  rw [if_neg (by omega), htype, hid] at hrun
  have hloop := decodeAttributes_bytes
    { into with messageType := bindingResponse, transcationId := r.packet.transcationId } hfits
    (header r.packet.transcationId (r.packet.body.length + 32))
    (by omega : attributes.length < (r.packet.response hmacSha1 pwd).length)
  rw [← heq, hheader] at hloop
  refine ⟨_, hstart.trans ((bind_ok hrun _).trans hloop), ?_⟩
  rw [hattributes]
  -- the types of the other attributes are none of those the decoder looks for
  exact setUsername_other _ r.packet.userName

/-- The mapped address is read back from a response. -/
theorem mapped_response :
    uintAt (r.packet.response hmacSha1 pwd) (20 + r.packet.nameAttribute.bytes.length + 6) 2 =
        r.packet.mappedPort.toNat ^^^ kStunMagicCookie >>> 16 ∧
      uintAt (r.packet.response hmacSha1 pwd) (20 + r.packet.nameAttribute.bytes.length + 8) 4 =
        r.packet.mappedAddress.toNat ^^^ kStunMagicCookie := by
  have hport : r.packet.mappedPort.toNat ^^^ kStunMagicCookie >>> 16 < 256 ^ 2 :=
    Nat.xor_lt_two_pow r.packet.mappedPort.toNat_lt (by decide : kStunMagicCookie >>> 16 < 2 ^ 16)
  have haddress : r.packet.mappedAddress.toNat ^^^ kStunMagicCookie < 256 ^ 4 :=
    Nat.xor_lt_two_pow r.packet.mappedAddress.toNat_lt (by decide : kStunMagicCookie < 2 ^ 32)
  obtain ⟨n, hn⟩ : ∃ n, n = r.packet.body.length + 32 := ⟨_, rfl⟩
  obtain ⟨front, hfront⟩ : ∃ front, front =
      header r.packet.transcationId n ++ r.packet.nameAttribute.bytes ++
        bytesBE 2 attributeXorMappedAddress ++ bytesBE 2 8 ++ bytesBE 1 0 ++ bytesBE 1 1 := ⟨_, rfl⟩
  have hlength : front.length = 20 + r.packet.nameAttribute.bytes.length + 6 := by
    rw [hfront]
    simp only [length_append, length_bytesBE, length_header r.id]
  have heq : ∃ back, r.packet.response hmacSha1 pwd =
      front ++ bytesBE 2 (r.packet.mappedPort.toNat ^^^ kStunMagicCookie >>> 16) ++
        bytesBE 4 (r.packet.mappedAddress.toNat ^^^ kStunMagicCookie) ++ back := by
    refine ⟨(integrityAttribute hmacSha1 pwd r.packet.covered).bytes ++
      (fingerprintAttribute (r.packet.checked hmacSha1 pwd)).bytes, ?_⟩
    rw [response, checked, ← hn, body, mappedAttribute_bytes, hfront]
    simp only [append_assoc]
  obtain ⟨back, heq⟩ := heq
  have hnext : (front ++ bytesBE 2 (r.packet.mappedPort.toNat ^^^ kStunMagicCookie >>> 16)).length =
      20 + r.packet.nameAttribute.bytes.length + 8 := by
    rw [length_append, hlength, length_bytesBE]
  rw [heq, ← hnext, ← hlength]
  constructor
  · rw [append_assoc]
    exact uintAt_middle front _ hport
  · exact uintAt_middle _ back haddress

/-- A response is written to the buffer of the caller, whatever was in it. -/
theorem encodeBindingResponse_wellFormed (out : Vector UInt8 kRtpPacketSize) :
    ∃ bytes, encodeBindingResponse hmacSha1 r.packet pwd ⟨out.toList, 0⟩ =
        .ok () (written out.toList bytes) ∧
      bytes.length = r.packet.responseLength ∧ WellFormed hmacSha1 r.packet pwd bytes := by
  have hbody := r.length_body
  have hname := r.length_name
  have hheader : (header r.packet.transcationId (r.packet.body.length + 32)).length = 20 :=
    length_header r.id _
  have hlength : (r.packet.response hmacSha1 pwd).length = 20 + (r.packet.body.length + 32) := by
    rw [length_response hmacSha1 pwd r.id, responseLength, SrsStunPacket.length_body]
    omega
  have hroom : r.packet.responseLength ≤ out.toList.length := by
    rw [Vector.length_toList]
    exact r.fits
  have heq := response_eq hmacSha1 r pwd
  have hmapped := mapped_response hmacSha1 r pwd
  refine ⟨r.packet.response hmacSha1 pwd, encodeBindingResponse_run hmacSha1 pwd r.id hroom
    (by omega), length_response hmacSha1 pwd r.id, ?_⟩
  constructor
  case header =>
    rw [hlength, Nat.add_sub_cancel_left, heq]
    exact List.take_left' hheader
  case length =>
    rw [hlength, heq, uintAt_header (by omega)]
  case attributes =>
    rw [attributes_response, heq]
    exact List.drop_left' hheader
  case aligned =>
    intro a _
    exact a.length_bytes_mod
  case port => rw [hmapped.1, xor_xor_self]
  case address => rw [hmapped.2, xor_xor_self]
  case decodes => exact decode_response hmacSha1 r pwd

end WellFormed

end SrsStunPacket
end SrsChatRoom.Protocol.Stun
