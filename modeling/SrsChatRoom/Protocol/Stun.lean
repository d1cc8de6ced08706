import SrsChatRoom.Kernel.Cursor

/-!
# STUN packets (`srs_protocol_rtc_stun.cpp`)

Behind a header of 20 bytes there are attributes: a type, the length of the value, the value, and
up to three bytes of padding. The decoder compares the length with the bytes that are left, and
does not count the padding there.
-/

namespace SrsChatRoom.Protocol.Stun

open SrsChatRoom.Kernel
open SrsChatRoom.Prog (bind_ok bind_err refuse)

/-- `srs_error_new(ERROR_RTC_STUN, message)` -/
structure StunError where
  message : String
deriving DecidableEq, Repr

/-- The types of `SrsStunMessageAttribute` that the decoder looks at. -/
def attributeUsername : ℕ := 0x0006
def attributeUseCandidate : ℕ := 0x0025
def attributeIceControlled : ℕ := 0x8029
def attributeIceControlling : ℕ := 0x802A

/-- `SrsStunPacket`. The decoder does not fill in the mapped address and port. -/
structure SrsStunPacket where
  messageType : ℕ := 0
  username : List UInt8 := []
  localUfrag : List UInt8 := []
  remoteUfrag : List UInt8 := []
  transcationId : List UInt8 := []
  mappedAddress : UInt32 := 0
  mappedPort : UInt16 := 0
  useCandidate : Bool := false
  iceControlled : Bool := false
  iceControlling : Bool := false
deriving DecidableEq, Repr

namespace SrsStunPacket

/-- The value of the `Username` attribute: both fragments, where it has a colon. -/
def setUsername (packet : SrsStunPacket) (val : List UInt8) : SrsStunPacket :=
  let packet := { packet with username := val }
  match val.idxOf? (UInt8.ofNat 58) with
  | some p => { packet with localUfrag := val.take p, remoteUfrag := val.drop (p + 1) }
  | none => packet

/-- The `switch` over the type of an attribute. -/
def setAttribute (packet : SrsStunPacket) (type : ℕ) (val : List UInt8) : SrsStunPacket :=
  if type = attributeUsername then packet.setUsername val
  else if type = attributeUseCandidate then { packet with useCandidate := true }
  else if type = attributeIceControlled then { packet with iceControlled := true }
  else if type = attributeIceControlling then { packet with iceControlling := true }
  else packet

/-- `if (len % 4 != 0) stream->read_string(4 - (len % 4))` -/
def readPadding (len : ℕ) : Prog SrsBuffer StunError (List UInt8) :=
  if len % 4 ≠ 0 then Cursor.readBytes (4 - len % 4 : ℕ) else return []

/-- One round of the loop: an attribute with its padding. -/
def decodeAttribute (packet : SrsStunPacket) : Prog SrsBuffer StunError SrsStunPacket := do
  let type ← Cursor.readUint 2
  let len ← Cursor.readUint 2
  let left ← Cursor.left
  refuse (left < len) ⟨"invalid stun packet"⟩
  let val ← Cursor.readBytes len
  let _ ← readPadding len
  return packet.setAttribute type val

/-- `while (stream->left() >= 4)` -/
def decodeAttributes : ℕ → SrsStunPacket → Prog SrsBuffer StunError SrsStunPacket
  | 0, _ => fun _ => .hang
  | fuel + 1, packet => fun b =>
    if b.left ≥ 4 then (decodeAttribute packet >>= decodeAttributes fuel) b
    else .ok packet b

/-- The header of 20 bytes, behind the check of the size. The magic cookie is not looked at. -/
def decodeHeader (packet : SrsStunPacket) (nbBuf : ℕ) :
    Prog SrsBuffer StunError SrsStunPacket := do
  let messageType ← Cursor.readUint 2
  let messageLen ← Cursor.readUint 2
  let _ ← Cursor.readBytes 4
  let transcationId ← Cursor.readBytes 12
  refuse (nbBuf ≠ 20 + messageLen) ⟨"invalid stun packet, message_len=%d, nb_buf=%d"⟩
  return { packet with messageType := messageType, transcationId := transcationId }

/-- `SrsStunPacket::decode`, on the buffer over the packet. A round of the loop takes four bytes at
least, so the number of bytes is fuel enough. -/
def decode (packet : SrsStunPacket) : Prog SrsBuffer StunError SrsStunPacket := do
  let left ← Cursor.left
  refuse (left < 20) ⟨"invalid stun packet, size=%d"⟩
  let nbBuf ← Prog.read fun stream => stream.bytes.length
  let packet ← decodeHeader packet nbBuf
  decodeAttributes nbBuf packet

end SrsStunPacket

/-! ## Where the padding is cut off -/

/-- The length of the value of the attribute at `p`. -/
def valueLength (bytes : List UInt8) (p : ℕ) : ℕ := uintAt bytes (p + 2) 2

/-- The padding behind a value of `len` bytes. -/
def paddingLength (len : ℕ) : ℕ := if len % 4 ≠ 0 then 4 - len % 4 else 0

/-- The end of the value of the attribute at `p`. -/
def valueEnd (bytes : List UInt8) (p : ℕ) : ℕ := p + 4 + valueLength bytes p

/-- The end of the attribute at `p`, its padding included. -/
def attributeEnd (bytes : List UInt8) (p : ℕ) : ℕ :=
  valueEnd bytes p + paddingLength (valueLength bytes p)

/-- Going over complete attributes from `p` on, one comes to an attribute whose value is there and
whose padding is not. -/
inductive PaddingCut (bytes : List UInt8) : ℕ → Prop
  | here {p : ℕ} (value : valueEnd bytes p ≤ bytes.length)
      (padding : bytes.length < attributeEnd bytes p) : PaddingCut bytes p
  | later {p : ℕ} (complete : attributeEnd bytes p ≤ bytes.length)
      (cut : PaddingCut bytes (attributeEnd bytes p)) : PaddingCut bytes p

/-- A packet with a header that the decoder accepts, and a cut in the padding of an attribute. -/
structure HasCutPadding (buf : List UInt8) : Prop where
  header : 20 ≤ buf.length
  size : buf.length = 20 + uintAt buf 2 2
  cut : PaddingCut buf 20

/-! ## The decoder at a position -/

namespace SrsStunPacket

variable {bytes : List UInt8} {p : ℕ} (packet : SrsStunPacket)

/-- A value that is not complete is an error. -/
theorem decodeAttribute_short (hheader : p + 4 ≤ bytes.length)
    (hvalue : bytes.length < valueEnd bytes p) :
    decodeAttribute packet ⟨bytes, p⟩ = .err ⟨"invalid stun packet"⟩ ⟨bytes, p + 4⟩ := by
  have htype : p + 2 ≤ bytes.length := by omega
  have hlen : p + 2 + 2 ≤ bytes.length := by omega
  have hleft : ((bytes.length : ℤ) - (p + 2 + 2 : ℕ)) < (valueLength bytes p : ℤ) := by
    unfold valueEnd at hvalue
    omega
  rw [decodeAttribute, bind_ok (Cursor.readUint_at htype),
    bind_ok (Cursor.readUint_at hlen), bind_ok Cursor.left_at]
  exact bind_err (Prog.refuse_fail hleft _ _) _

/-- What comes before the padding. -/
theorem decodeAttribute_value (hvalue : valueEnd bytes p ≤ bytes.length) :
    decodeAttribute packet ⟨bytes, p⟩ =
      (readPadding (valueLength bytes p) >>= fun _ => pure (packet.setAttribute
        (uintAt bytes p 2) ((bytes.drop (p + 4)).take (valueLength bytes p))))
        ⟨bytes, valueEnd bytes p⟩ := by
  have hend : p + 2 + 2 + valueLength bytes p ≤ bytes.length := hvalue
  have hlen : p + 2 + 2 ≤ bytes.length := by omega
  have htype : p + 2 ≤ bytes.length := by omega
  have hleft : ¬ ((bytes.length : ℤ) - (p + 2 + 2 : ℕ)) < (valueLength bytes p : ℤ) := by omega
  rw [decodeAttribute, bind_ok (Cursor.readUint_at htype),
    bind_ok (Cursor.readUint_at hlen), bind_ok Cursor.left_at]
  refine (bind_ok (Prog.refuse_pass hleft _ _) _).trans ?_
  exact bind_ok (Cursor.readBytes_at hend) _

theorem readPadding_at {len : ℕ} (h : p + paddingLength len ≤ bytes.length) :
    ∃ padding, readPadding len ⟨bytes, p⟩ = .ok padding ⟨bytes, p + paddingLength len⟩ := by
  unfold readPadding paddingLength at *
  by_cases hlen : len % 4 ≠ 0
  · rw [if_pos hlen] at h ⊢
    rw [if_pos hlen]
    exact ⟨_, Cursor.readBytes_at h⟩
  · rw [if_neg hlen, if_neg hlen]
    exact ⟨[], rfl⟩

theorem readPadding_beyond {len : ℕ} (hp : p ≤ bytes.length)
    (h : bytes.length < p + paddingLength len) : readPadding len ⟨bytes, p⟩ = .fault := by
  unfold readPadding paddingLength at *
  by_cases hlen : len % 4 ≠ 0
  · rw [if_pos hlen] at h ⊢
    exact Cursor.readBytes_beyond h
  · rw [if_neg hlen] at h
    omega

/-- A complete attribute is taken, with its padding. -/
theorem decodeAttribute_complete (h : attributeEnd bytes p ≤ bytes.length) :
    ∃ packet', decodeAttribute packet ⟨bytes, p⟩ = .ok packet' ⟨bytes, attributeEnd bytes p⟩ := by
  have hvalue : valueEnd bytes p ≤ bytes.length := (Nat.le_add_right _ _).trans h
  have hend : valueEnd bytes p + paddingLength (valueLength bytes p) ≤ bytes.length := h
  obtain ⟨padding, hpadding⟩ := readPadding_at hend
  refine ⟨packet.setAttribute (uintAt bytes p 2)
    ((bytes.drop (p + 4)).take (valueLength bytes p)), ?_⟩
  rw [decodeAttribute_value packet hvalue, bind_ok hpadding]
  rfl

/-- The padding is read without a look at what is left. -/
theorem decodeAttribute_cut (hvalue : valueEnd bytes p ≤ bytes.length)
    (hpadding : bytes.length < attributeEnd bytes p) :
    decodeAttribute packet ⟨bytes, p⟩ = .fault := by
  rw [decodeAttribute_value packet hvalue, Prog.bind_fault (readPadding_beyond hvalue hpadding)]

/-- The loop returns unless it comes to a cut padding. -/
theorem decodeAttributes_returns_iff (fuel : ℕ) (hp : p ≤ bytes.length)
    (hfuel : bytes.length < p + 4 * fuel) :
    (decodeAttributes fuel packet).Returns ⟨bytes, p⟩ ↔ ¬ PaddingCut bytes p := by
  induction fuel generalizing p packet with
  | zero => omega
  | succ fuel ih =>
    by_cases hleft : (⟨bytes, p⟩ : SrsBuffer).left ≥ 4
    · have hheader : p + 4 ≤ bytes.length := by
        unfold SrsBuffer.left at hleft
        dsimp only at hleft
        omega
      have hround : decodeAttributes (fuel + 1) packet ⟨bytes, p⟩ =
          (decodeAttribute packet >>= decodeAttributes fuel) ⟨bytes, p⟩ := if_pos hleft
      rw [Prog.returns_congr hround]
      have hvalueEnd : valueEnd bytes p ≤ attributeEnd bytes p := Nat.le_add_right _ _
      by_cases hvalue : valueEnd bytes p ≤ bytes.length
      · by_cases hcomplete : attributeEnd bytes p ≤ bytes.length
        · -- a complete attribute: the next round starts at least four bytes further on
          have hprogress : p + 4 ≤ attributeEnd bytes p := by
            unfold attributeEnd valueEnd
            omega
          obtain ⟨packet', hok⟩ := decodeAttribute_complete packet hcomplete
          rw [Prog.returns_congr (bind_ok hok (decodeAttributes fuel)),
            ih packet' hcomplete (by omega), not_iff_not]
          constructor
          · intro hcut
            exact .later hcomplete hcut
          · intro hcut
            cases hcut with
            | here value padding => omega
            | later complete cut => exact cut
        · have hpadding : bytes.length < attributeEnd bytes p := not_le.mp hcomplete
          have hfault := Prog.bind_fault (decodeAttribute_cut packet hvalue hpadding)
            (decodeAttributes fuel)
          exact iff_of_false (Prog.not_returns_of_fault hfault) fun h => h (.here hvalue hpadding)
      · have herr := bind_err (decodeAttribute_short packet hheader (not_le.mp hvalue))
          (decodeAttributes fuel)
        refine iff_of_true (Prog.returns_of_err herr) fun hcut => ?_
        cases hcut with
        | here value padding => exact hvalue value
        | later complete cut => omega
    · -- fewer than four bytes are left
      have hend : decodeAttributes (fuel + 1) packet ⟨bytes, p⟩ = .ok packet ⟨bytes, p⟩ :=
        if_neg hleft
      refine iff_of_true (Prog.returns_of_ok hend) fun hcut => hleft ?_
      have hheader : p + 4 ≤ bytes.length := by
        cases hcut with
        | here value padding =>
          unfold valueEnd at value
          omega
        | later complete cut =>
          unfold attributeEnd valueEnd at complete
          omega
      show (4 : ℤ) ≤ bytes.length - p
      omega

/-- The header, in a packet that has one. -/
theorem decodeHeader_run (nbBuf : ℕ) (h : 20 ≤ bytes.length) :
    decodeHeader packet nbBuf ⟨bytes, 0⟩ =
      if nbBuf ≠ 20 + uintAt bytes 2 2 then
        .err ⟨"invalid stun packet, message_len=%d, nb_buf=%d"⟩ ⟨bytes, 20⟩
      else .ok { packet with
        messageType := uintAt bytes 0 2, transcationId := (bytes.drop 8).take 12 }
        ⟨bytes, 20⟩ := by
  have htype : 0 + 2 ≤ bytes.length := by omega
  have hlen : 2 + 2 ≤ bytes.length := by omega
  have hcookie : 4 + 4 ≤ bytes.length := by omega
  have hid : 8 + 12 ≤ bytes.length := by omega
  have hfields : decodeHeader packet nbBuf ⟨bytes, 0⟩ =
      ((refuse (nbBuf ≠ 20 + uintAt bytes 2 2)
          ⟨"invalid stun packet, message_len=%d, nb_buf=%d"⟩ :
          Prog SrsBuffer StunError Unit) >>= fun _ =>
        (pure { packet with
          messageType := uintAt bytes 0 2, transcationId := (bytes.drop 8).take 12 } :
          Prog SrsBuffer StunError SrsStunPacket)) ⟨bytes, 20⟩ := by
    rw [decodeHeader, bind_ok (Cursor.readUint_at htype),
      bind_ok (Cursor.readUint_at hlen)]
    refine (bind_ok (Cursor.readBytes_at hcookie) _).trans ?_
    exact bind_ok (Cursor.readBytes_at hid) _
  rw [hfields]
  by_cases hsize : nbBuf ≠ 20 + uintAt bytes 2 2
  · rw [if_pos hsize]
    exact bind_err (Prog.refuse_fail hsize _ _) _
  · rw [if_neg hsize]
    exact bind_ok (Prog.refuse_pass hsize _ _) _

/-- Decoding a packet ends with a result or an error, and without a failed assertion, unless the
packet ends inside the padding of an attribute. -/
theorem decode_returns_iff (packet : SrsStunPacket) (buf : List UInt8) :
    packet.decode.Returns ⟨buf, 0⟩ ↔ ¬ HasCutPadding buf := by
  by_cases hheader : 20 ≤ buf.length
  · have hcheck : ¬ (buf.length : ℤ) - (0 : ℕ) < 20 := by omega
    have hstart : packet.decode ⟨buf, 0⟩ =
        (decodeHeader packet buf.length >>= decodeAttributes buf.length) ⟨buf, 0⟩ :=
      Prog.bind_ok (Prog.refuse_pass hcheck _ _) _
    rw [Prog.returns_congr hstart]
    have hrun := decodeHeader_run packet buf.length hheader
    by_cases hsize : buf.length = 20 + uintAt buf 2 2
    · rw [if_neg (not_not.mpr hsize)] at hrun
      rw [Prog.returns_congr (Prog.bind_ok hrun _),
        decodeAttributes_returns_iff _ buf.length hheader (by omega), not_iff_not]
      constructor
      · intro hcut
        exact ⟨hheader, hsize, hcut⟩
      · intro hcut
        exact hcut.cut
    · rw [if_pos hsize] at hrun
      exact iff_of_true (Prog.returns_of_err (Prog.bind_err hrun _)) fun h => hsize h.size
  · have hcheck : (buf.length : ℤ) - (0 : ℕ) < 20 := by omega
    have herr : packet.decode ⟨buf, 0⟩ = .err ⟨"invalid stun packet, size=%d"⟩ ⟨buf, 0⟩ :=
      Prog.bind_err (Prog.refuse_fail hcheck _ _) _
    exact iff_of_true (Prog.returns_of_err herr) fun h => hheader h.header

/-- A binding request with a user name of one byte and without its padding: 25 bytes. -/
def cutRequest : List UInt8 :=
  [0x00, 0x01, 0x00, 0x05, 0x21, 0x12, 0xA4, 0x42, 1, 2, 3, 4, 5, 6, 7, 8, 9, 10, 11, 12,
    0x00, 0x06, 0x00, 0x01, 0x61]

theorem cutRequest_faults : ¬ ({} : SrsStunPacket).decode.Returns ⟨cutRequest, 0⟩ := by
  have hfault : ({} : SrsStunPacket).decode ⟨cutRequest, 0⟩ = .fault := rfl
  exact Prog.not_returns_of_fault hfault

end SrsStunPacket
end SrsChatRoom.Protocol.Stun
