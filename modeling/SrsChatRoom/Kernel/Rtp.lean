import SrsChatRoom.Kernel.BufferPositions

/-!
# RTP packets (`srs_kernel_rtc_rtp.cpp`)

`SrsRtpPacket::decode` reads the fixed header, the `CSRC` list, the header extension if the X bit
is set, and the padding count from the last byte; then it cuts the padding off and decodes the
payload as a raw one, a `STAP-A` or a `FU-A`. All of it looks before it reads, except for two
places in the header extension: the area that its length field announces is skipped without a
check, and so is an element of a type that is not registered.

`rtpDecode_returns_iff` says that these two are the only ways to end the process
(`ExtensionFits`); `extension_longer_than_packet_aborts` is a packet that does.
-/

namespace SrsChatRoom.Kernel.Rtp

open SrsBuffer
open SrsChatRoom.Prog (bind_fault read_apply returns_congr returns_of_err bind_ok bind_err)

/-! ## Header extensions -/

/-- `SrsRtpExtensionType` -/
inductive ExtensionType
  | none
  | transportSequenceNumber
  | audioLevel
deriving DecidableEq, Repr

/-- `SrsRtpExtensionTypes`: the ids of the two types, 0 for one that is not registered. -/
structure ExtensionTypes where
  twccId : ℕ
  audioLevelId : ℕ

/-- `get_type` -/
def ExtensionTypes.getType (types : ExtensionTypes) (id : ℕ) : ExtensionType :=
  if types.twccId = id then .transportSequenceNumber
  else if types.audioLevelId = id then .audioLevel
  else .none

/-- What the decode handler knows of the stream of an ssrc. -/
inductive TrackKind
  | audio
  | video
  | unknown
deriving DecidableEq, Repr

/-- What the decoder is set up with: the registered types if any, whether the transport-wide
sequence number is decoded here, whether padding is ignored, and the decode handler if there is
one. -/
structure Config where
  types : Option ExtensionTypes
  decodeTwccExtension : Bool
  ignorePadding : Bool
  decodeHandler : Option (ℕ → TrackKind)

/-- `types_? types_->get_type(id) : kRtpExtensionNone` -/
def Config.typeOf (cfg : Config) (id : ℕ) : ExtensionType :=
  match cfg.types with
  | some types => types.getType id
  | none => .none

/-- `SrsRtpExtensionTwcc` and `SrsRtpExtensionOneByte` once decoded: the id and the value. -/
structure Element where
  id : ℕ
  value : ℕ
deriving DecidableEq, Repr

/-- `SrsRtpExtensions` -/
structure Extensions where
  hasExt : Bool
  twcc : Option Element
  audioLevel : Option Element
deriving DecidableEq, Repr

/-- `SrsRtpExtensions()` -/
def Extensions.new : Extensions := ⟨false, none, none⟩

/-- `(v & 0xF0) >> 4`, the id of an element. -/
def elementId (v : ℕ) : ℕ := v / 16

/-- `v & 0x0F`, the length of an element minus one. -/
def elementLen (v : ℕ) : ℕ := v % 16

/-- `SrsRtpExtensionTwcc::decode` -/
def decodeTwcc : Dec Element := do
  checkRequire 1 .rtcRtpMuxer "requires 1 bytes"
  let v ← readUint 1
  if elementId v = 0 ∨ elementLen v ≠ 1 then
    Prog.throw (srsErrorNew .rtcRtp ("invalid twcc id=" ++ toString (elementId v) ++ ", len=" ++
      toString (elementLen v)))
  else
    checkRequire 2 .rtcRtpMuxer "requires 2 bytes"
    let sn ← readUint 2
    return ⟨elementId v, sn⟩

/-- `SrsRtpExtensionOneByte::decode` -/
def decodeOneByte : Dec Element := do
  checkRequire 2 .rtcRtpMuxer "requires 2 bytes"
  let v ← readUint 1
  if elementId v = 0 ∨ elementLen v ≠ 0 then
    Prog.throw (srsErrorNew .rtcRtp ("invalid rtp extension id=" ++ toString (elementId v) ++
      ", len=" ++ toString (elementLen v)))
  else
    let value ← readUint 1
    return ⟨elementId v, value⟩

/-- One element of `decode_0xbede`, whose first byte is `v`. -/
def decodeElement (cfg : Config) (v : ℕ) (ext : Extensions) : Dec Extensions :=
  match cfg.typeOf (elementId v) with
  | .transportSequenceNumber =>
    if cfg.decodeTwccExtension then do
      let twcc ← Prog.wrap (srsErrorWrap "decode twcc extension") decodeTwcc
      return { ext with twcc := some twcc, hasExt := true }
    else do
      checkRequire (elementLen v + 1 + 1 : ℕ) .rtcRtpMuxer
        ("requires " ++ toString (elementLen v + 1 + 1) ++ " bytes")
      skip (elementLen v + 1 + 1 : ℕ)
      return ext
  | .audioLevel => do
    let level ← Prog.wrap (srsErrorWrap "decode audio level extension") decodeOneByte
    return { ext with audioLevel := some level, hasExt := true }
  | .none => do
    skip (1 + (elementLen v + 1) : ℕ)
    return ext

/-- `decode_0xbede` -/
def decode0xbede (cfg : Config) : ℕ → Extensions → Dec Extensions
  | 0, _ => fun _ => .hang
  | fuel + 1, ext => do
    if ← Prog.read SrsBuffer.empty then return ext
    else
      checkRequire 1 .rtcRtpMuxer "requires 1 bytes"
      let v ← peek 0
      if v = 0 then
        skip 1
        decode0xbede cfg fuel ext
      else
        let ext ← decodeElement cfg v.toNat ext
        decode0xbede cfg fuel ext

/-- Run a decoder on a buffer of its own. -/
def onBuffer {α : Type} (xbuf : SrsBuffer) (x : Dec α) : Dec α := fun b =>
  match x xbuf with
  | .ok a _ => .ok a b
  | .err e _ => .err e b
  | .fault => .fault
  | .hang => .hang

/-- `SrsRtpExtensions::decode`. The buffer `xbuf` over the area is built before `skip` checks
that the area is there. -/
def decodeExtensions (cfg : Config) : Dec Extensions := do
  checkRequire 4 .rtcRtpMuxer "requires 4 bytes"
  let profileId ← readUint 2
  let extensionLength ← readUint 2
  if profileId = 0xBEDE then
    let area ← Prog.read fun b : SrsBuffer => (b.bytes.drop b.pos).take (extensionLength * 4)
    skip (extensionLength * 4 : ℕ)
    onBuffer ⟨area, 0⟩ (decode0xbede cfg (area.length + 1) Extensions.new)
  else if profileId = 0x1000 then
    skip (extensionLength * 4 : ℕ)
    return Extensions.new
  else Prog.throw (srsErrorNew .rtcRtpMuxer "fail to parse extension")

/-! ## The header -/

/-- `SrsRtpHeader` -/
structure RtpHeader where
  cc : ℕ
  marker : Bool
  payloadType : ℕ
  sequence : ℕ
  timestamp : ℕ
  ssrc : ℕ
  csrc : List ℕ
  extensions : Extensions
  paddingLength : ℕ
deriving DecidableEq, Repr

/-- The `CSRC` list. -/
def readCsrcs : ℕ → Dec (List ℕ)
  | 0 => return []
  | n + 1 => do
    let csrc ← readUint 4
    let rest ← readCsrcs n
    return csrc :: rest

/-- `*(buf->data() + buf->size() - 1)` -/
def lastByte : Dec UInt8 := fun b =>
  match b.bytes.getLast? with
  | some v => .ok v b
  | none => .fault

/-- The padding count of `SrsRtpHeader::decode`. -/
def decodePadding (cfg : Config) (padding : Bool) : Dec ℕ := do
  if padding && !cfg.ignorePadding && !(← Prog.read SrsBuffer.empty) then
    let v ← lastByte
    checkRequire v.toNat .rtcRtpMuxer ("padding requires " ++ toString v.toNat ++ " bytes")
    return v.toNat
  else return 0

/-- `kRtpHeaderFixedSize` -/
def rtpHeaderFixedSize : ℕ := 12

/-- `parse_extensions`, which `SrsRtpHeader::decode` calls where the X bit is set. -/
def parseExtensions (cfg : Config) (hasExtension : Bool) : Dec Extensions :=
  if hasExtension then
    Prog.wrap (fun e => srsErrorWrap "fail to parse extension"
      (srsErrorWrap "decode rtp extension" e)) (decodeExtensions cfg)
  else pure Extensions.new

/-- `SrsRtpHeader::decode` -/
def decodeHeader (cfg : Config) : Dec RtpHeader := do
  checkRequire rtpHeaderFixedSize .rtcRtpMuxer "requires 12+ bytes"
  let first ← readUint 1
  let second ← readUint 1
  let sequence ← readUint 2
  let timestamp ← readUint 4
  let ssrc ← readUint 4
  let cc := first % 16
  checkRequire (cc * 4 : ℕ) .rtcRtpMuxer ("requires " ++ toString (cc * 4) ++ "+ bytes")
  let csrc ← readCsrcs cc
  let extensions ← parseExtensions cfg (first / 16 % 2 = 1)
  let paddingLength ← decodePadding cfg (first / 32 % 2 = 1)
  return {
    cc, sequence, timestamp, ssrc, csrc, extensions, paddingLength
    marker := second / 128 = 1
    payloadType := second % 128 }

/-! ## Payloads -/

/-- `SrsRtpRawPayload`, `SrsRtpSTAPPayload` and `SrsRtpFUAPayload2` -/
inductive Payload
  | raw (payload : List UInt8)
  | stap (nri : ℕ) (nalus : List (List UInt8))
  | fua (nri : ℕ) (start end_ : Bool) (naluType : ℕ) (payload : List UInt8)
deriving DecidableEq, Repr

/-- `int16_t` of two bytes. -/
def int16 (v : ℕ) : ℤ := if v < 32768 then v else v - 65536

/-- `SrsRtpRawPayload::decode`, which does not move the head. -/
def decodeRaw : Dec Payload :=
  Prog.read fun b => .raw (b.bytes.drop b.pos)

/-- The loop of `SrsRtpSTAPPayload::decode`. -/
def decodeNalus : ℕ → Dec (List (List UInt8))
  | 0 => fun _ => .hang
  | fuel + 1 => do
    if ← Prog.read SrsBuffer.empty then return []
    else
      checkRequire 2 .rtcRtpMuxer "requires 2 bytes"
      let v ← readUint 2
      let size := int16 v
      checkRequire size .rtcRtpMuxer ("requires " ++ toString size ++ " bytes")
      let sample ← Prog.read fun b : SrsBuffer => (b.bytes.drop b.pos).take size.toNat
      skip size
      let nalus ← decodeNalus fuel
      return sample :: nalus

/-- `SrsRtpSTAPPayload::decode` -/
def decodeStap : Dec Payload := do
  checkRequire 1 .rtcRtpMuxer "requires 1 bytes"
  let v ← readUint 1
  if v / 128 = 1 then
    Prog.throw (srsErrorNew .rtcRtpMuxer "forbidden_zero_bit should be zero")
  else
    let fuel ← Prog.read fun b : SrsBuffer => b.bytes.length + 1
    let nalus ← decodeNalus fuel
    return .stap (v - v % 32) nalus

/-- `SrsRtpFUAPayload2::decode` -/
def decodeFua : Dec Payload := do
  checkRequire 2 .rtcRtpMuxer "requires 2 bytes"
  let indicator ← readUint 1
  let header ← readUint 1
  checkRequire 1 .rtcRtpMuxer "requires 1 bytes"
  let payload ← Prog.read fun b : SrsBuffer => b.bytes.drop b.pos
  skip payload.length
  return .fua (indicator - indicator % 32) (header / 128 = 1) (header / 64 % 2 = 1) (header % 32)
    payload

/-- `kStapA` -/
def kStapA : ℕ := 24

/-- `kFuA` -/
def kFuA : ℕ := 28

/-- The payload decoder that `on_before_decode_payload` of a video track chooses. -/
def decodeByNaluType (naluType : ℕ) : Dec Payload :=
  if naluType = kStapA then decodeStap else if naluType = kFuA then decodeFua else decodeRaw

/-- `on_before_decode_payload` of the tracks, then `decode` of the payload, which is raw where
nothing was chosen. The result has the `nalu_type` that a video track sets. -/
def decodePayload (cfg : Config) (ssrc : ℕ) : Dec (ℕ × Payload) := do
  let isVideo := (cfg.decodeHandler.map fun handler => handler ssrc) = some TrackKind.video
  let empty ← Prog.read SrsBuffer.empty
  if isVideo ∧ empty = false then
    let v ← peek 0
    let payload ← decodeByNaluType (v.toNat % 32)
    return (v.toNat % 32, payload)
  else
    let payload ← decodeRaw
    return (0, payload)

/-- `SrsRtpPacket` -/
structure RtpPacket where
  header : RtpHeader
  naluType : ℕ
  payload : Payload
deriving DecidableEq, Repr

/-- The check of the padding in `SrsRtpPacket::decode`, which wraps the error it does not
have, and `set_size`. -/
def cutPadding (padding : ℕ) : Dec Unit := fun b =>
  if b.require padding then .ok () { b with bytes := b.bytes.take (b.bytes.length - padding) }
  else .err ⟨.success, ["requires padding " ++ toString padding ++ " bytes"]⟩ b

/-- `SrsRtpPacket::decode` -/
def rtpDecode (cfg : Config) : Dec RtpPacket := do
  let header ← Prog.wrap (srsErrorWrap "rtp header") (decodeHeader cfg)
  cutPadding header.paddingLength
  let (naluType, payload) ←
    Prog.wrap (srsErrorWrap "rtp payload") (decodePayload cfg header.ssrc)
  return { header, naluType, payload }

/-! ## The condition -/

/-- An element of a registered type is refused with an error. -/
def Refused (cfg : Config) (v : ℕ) (r : List UInt8) : Prop :=
  match cfg.typeOf (elementId v) with
  | .transportSequenceNumber =>
    if cfg.decodeTwccExtension then elementId v = 0 ∨ elementLen v ≠ 1 ∨ r.length < 2
    else r.length < elementLen v + 1
  | .audioLevel => elementId v = 0 ∨ elementLen v ≠ 0 ∨ r.length < 1
  | .none => False

/-- The number of bytes an element has after its first one. -/
def elementSize (cfg : Config) (v : ℕ) : ℕ :=
  match cfg.typeOf (elementId v) with
  | .transportSequenceNumber => if cfg.decodeTwccExtension then 2 else elementLen v + 1
  | .audioLevel => 1
  | .none => elementLen v + 1

/-- The elements of a `0xBEDE` area, up to one that is refused, stay inside the area. -/
inductive ElementsFit (cfg : Config) : List UInt8 → Prop
  | done : ElementsFit cfg []
  | padding {r} (h : ElementsFit cfg r) : ElementsFit cfg (0 :: r)
  | refused {v : UInt8} {r} (hv : v ≠ 0) (h : Refused cfg v.toNat r) : ElementsFit cfg (v :: r)
  | element {v : UInt8} {r} (hv : v ≠ 0) (hsize : elementSize cfg v.toNat ≤ r.length)
      (h : ElementsFit cfg (r.drop (elementSize cfg v.toNat))) : ElementsFit cfg (v :: r)

/-- What the header extension at the front of some bytes has to meet: the area that its length
field announces is there, and in a `0xBEDE` area the elements fit. -/
def AreaFits (cfg : Config) (x : List UInt8) : Prop :=
  let profileId := ofBytesBE (x.take 2)
  let size := ofBytesBE ((x.drop 2).take 2) * 4
  4 ≤ x.length → (profileId = 0xBEDE ∨ profileId = 0x1000 → 4 + size ≤ x.length) ∧
    (profileId = 0xBEDE → ElementsFit cfg ((x.drop 4).take size))

/-- The condition on the packet: where the X bit is set and the `CSRC` list is there, the header
extension behind it fits. -/
def ExtensionFits (cfg : Config) (bytes : List UInt8) : Prop :=
  let first := (bytes.getD 0 0).toNat
  let fixedSize := rtpHeaderFixedSize + first % 16 * 4
  fixedSize ≤ bytes.length → first / 16 % 2 = 1 → AreaFits cfg (bytes.drop fixedSize)

/-! ## Elements -/

section Elements

variable {b : SrsBuffer} {v : UInt8} {r : List UInt8}

theorem rest_advance_one (h : b.rest = v :: r) : (b.advance 1).rest = r := by
  rw [rest_advance, h, List.drop_one, List.tail_cons]

theorem readUint_one (h : b.rest = v :: r) (hpos : b.pos ≤ b.bytes.length) :
    readUint 1 b = .ok v.toNat (b.advance 1) := by
  have hlen : 1 ≤ b.rest.length := by simp [h]
  rw [readUint_run hlen hpos, h]
  simp [ofBytesBE]

theorem decodeTwcc_refused (h : b.rest = v :: r) (hpos : b.pos ≤ b.bytes.length)
    (href : elementId v.toNat = 0 ∨ elementLen v.toNat ≠ 1 ∨ r.length < 2) :
    ∃ e b', decodeTwcc b = .err e b' := by
  have hlen : 1 ≤ b.rest.length := by simp [h]
  have hcheck : checkRequire 1 .rtcRtpMuxer "requires 1 bytes" b = .ok () b :=
    checkRequire_pass (n := 1) hlen hpos _ _
  rw [decodeTwcc, bind_ok hcheck, bind_ok (readUint_one h hpos)]
  by_cases hbad : elementId v.toNat = 0 ∨ elementLen v.toNat ≠ 1
  · rw [if_pos hbad]
    exact ⟨_, _, rfl⟩
  · have hshort : (b.advance 1).rest.length < 2 := by
      rw [rest_advance_one h]
      tauto
    have hcheck2 : checkRequire 2 .rtcRtpMuxer "requires 2 bytes" (b.advance 1) = .err _ _ :=
      checkRequire_fail (n := 2) hshort _ _
    rw [if_neg hbad, bind_err hcheck2]
    exact ⟨_, _, rfl⟩

/-- An element of the transport sequence number. -/
theorem decodeTwcc_value (h : b.rest = v :: r) (hpos : b.pos ≤ b.bytes.length)
    (hid : elementId v.toNat ≠ 0) (hlen : elementLen v.toNat = 1) (hr : 2 ≤ r.length) :
    decodeTwcc b = .ok ⟨elementId v.toNat, ofBytesBE (r.take 2)⟩ (b.advance 3) := by
  have hone : 1 ≤ b.rest.length := by simp [h]
  have hpos' := pos_advance_le hone hpos
  have hrest := rest_advance_one h
  have htwo : 2 ≤ (b.advance 1).rest.length := by rw [hrest]; exact hr
  have hcheck : checkRequire 1 .rtcRtpMuxer "requires 1 bytes" b = .ok () b :=
    checkRequire_pass (n := 1) hone hpos _ _
  have hcheck2 : checkRequire 2 .rtcRtpMuxer "requires 2 bytes" (b.advance 1) = .ok () _ :=
    checkRequire_pass (n := 2) htwo hpos' _ _
  rw [decodeTwcc, bind_ok hcheck, bind_ok (readUint_one h hpos), if_neg (by tauto),
    bind_ok hcheck2, bind_ok (readUint_run (n := 2) htwo hpos'), advance_advance, hrest]
  rfl

theorem decodeTwcc_ok (h : b.rest = v :: r) (hpos : b.pos ≤ b.bytes.length)
    (hok : ¬ (elementId v.toNat = 0 ∨ elementLen v.toNat ≠ 1 ∨ r.length < 2)) :
    ∃ twcc, decodeTwcc b = .ok twcc (b.advance 3) := by
  obtain ⟨hid, hlen, hr⟩ : elementId v.toNat ≠ 0 ∧ elementLen v.toNat = 1 ∧ 2 ≤ r.length := by
    simp only [not_or, not_not, not_lt] at hok
    exact hok
  exact ⟨_, decodeTwcc_value h hpos hid hlen hr⟩

theorem decodeOneByte_refused (h : b.rest = v :: r) (hpos : b.pos ≤ b.bytes.length)
    (href : elementId v.toNat = 0 ∨ elementLen v.toNat ≠ 0 ∨ r.length < 1) :
    ∃ e b', decodeOneByte b = .err e b' := by
  have hlen : b.rest.length = r.length + 1 := by simp [h]
  rw [decodeOneByte]
  by_cases htwo : 2 ≤ b.rest.length
  · have hcheck : checkRequire 2 .rtcRtpMuxer "requires 2 bytes" b = .ok () b :=
      checkRequire_pass (n := 2) htwo hpos _ _
    have hbad : elementId v.toNat = 0 ∨ elementLen v.toNat ≠ 0 := by
      have hr : ¬ r.length < 1 := by omega
      tauto
    rw [bind_ok hcheck, bind_ok (readUint_one h hpos), if_pos hbad]
    exact ⟨_, _, rfl⟩
  · have hcheck : checkRequire 2 .rtcRtpMuxer "requires 2 bytes" b = .err _ _ :=
      checkRequire_fail (n := 2) (by omega) _ _
    rw [bind_err hcheck]
    exact ⟨_, _, rfl⟩

/-- An element of one byte. -/
theorem decodeOneByte_value {level : UInt8} (h : b.rest = v :: level :: r)
    (hpos : b.pos ≤ b.bytes.length) (hid : elementId v.toNat ≠ 0) (hlen : elementLen v.toNat = 0) :
    decodeOneByte b = .ok ⟨elementId v.toNat, level.toNat⟩ (b.advance 2) := by
  have htwo : 2 ≤ b.rest.length := by simp [h]
  have hpos' := pos_advance_le (n := 1) (by omega) hpos
  have hrest := rest_advance_one h
  have hcheck : checkRequire 2 .rtcRtpMuxer "requires 2 bytes" b = .ok () b :=
    checkRequire_pass (n := 2) htwo hpos _ _
  rw [decodeOneByte, bind_ok hcheck, bind_ok (readUint_one h hpos), if_neg (by tauto),
    bind_ok (readUint_one hrest hpos'), advance_advance]
  rfl

theorem decodeOneByte_ok (h : b.rest = v :: r) (hpos : b.pos ≤ b.bytes.length)
    (hok : ¬ (elementId v.toNat = 0 ∨ elementLen v.toNat ≠ 0 ∨ r.length < 1)) :
    ∃ level, decodeOneByte b = .ok level (b.advance 2) := by
  obtain ⟨hid, hlen, hr⟩ : elementId v.toNat ≠ 0 ∧ elementLen v.toNat = 0 ∧ 1 ≤ r.length := by
    simp only [not_or, not_not, not_lt] at hok
    exact hok
  obtain ⟨level, r', rfl⟩ := List.exists_cons_of_length_pos hr
  exact ⟨_, decodeOneByte_value h hpos hid hlen⟩

variable {cfg : Config}

theorem decodeElement_refused (h : b.rest = v :: r) (hpos : b.pos ≤ b.bytes.length)
    (href : Refused cfg v.toNat r) (ext : Extensions) :
    ∃ e b', decodeElement cfg v.toNat ext b = .err e b' := by
  have hlen : b.rest.length = r.length + 1 := by simp [h]
  unfold Refused at href
  unfold decodeElement
  cases htype : cfg.typeOf (elementId v.toNat) with
  | none =>
    rw [htype] at href
    exact href.elim
  | transportSequenceNumber =>
    simp only [htype] at href ⊢
    by_cases htwcc : cfg.decodeTwccExtension
    · rw [if_pos htwcc] at href ⊢
      obtain ⟨e, b', hdec⟩ := decodeTwcc_refused h hpos href
      exact ⟨_, b', bind_err (Prog.wrap_err hdec _) _⟩
    · rw [if_neg htwcc] at href ⊢
      exact ⟨_, _, bind_err (checkRequire_fail (by omega) _ _) _⟩
  | audioLevel =>
    simp only [htype] at href ⊢
    obtain ⟨e, b', hdec⟩ := decodeOneByte_refused h hpos href
    exact ⟨_, b', bind_err (Prog.wrap_err hdec _) _⟩

theorem decodeElement_fits (h : b.rest = v :: r) (hpos : b.pos ≤ b.bytes.length)
    (hok : ¬ Refused cfg v.toNat r) (hsize : elementSize cfg v.toNat ≤ r.length)
    (ext : Extensions) :
    ∃ ext', decodeElement cfg v.toNat ext b =
      .ok ext' (b.advance (1 + elementSize cfg v.toNat)) := by
  have hlen : b.rest.length = r.length + 1 := by simp [h]
  unfold Refused at hok
  unfold elementSize at hsize ⊢
  unfold decodeElement
  cases htype : cfg.typeOf (elementId v.toNat) with
  | none =>
    simp only [htype] at hsize ⊢
    exact ⟨_, bind_ok (skip_run (by omega) hpos) _⟩
  | transportSequenceNumber =>
    simp only [htype] at hok hsize ⊢
    by_cases htwcc : cfg.decodeTwccExtension
    · rw [if_pos htwcc] at hok hsize ⊢
      obtain ⟨twcc, hdec⟩ := decodeTwcc_ok h hpos hok
      rw [if_pos htwcc]
      exact ⟨_, bind_ok (Prog.wrap_ok hdec _) _⟩
    · rw [if_neg htwcc] at hok hsize ⊢
      have hbound : elementLen v.toNat + 1 + 1 ≤ b.rest.length := by omega
      have hskip := skip_run hbound hpos
      rw [if_neg htwcc, bind_ok (checkRequire_pass hbound hpos _ _), bind_ok hskip,
        Nat.add_comm 1]
      exact ⟨_, rfl⟩
  | audioLevel =>
    simp only [htype] at hok hsize ⊢
    obtain ⟨level, hdec⟩ := decodeOneByte_ok h hpos hok
    exact ⟨_, bind_ok (Prog.wrap_ok hdec _) _⟩

/-- Only an element of a type that is not registered is skipped unseen. -/
theorem decodeElement_outside (h : b.rest = v :: r)
    (hok : ¬ Refused cfg v.toNat r) (hsize : r.length < elementSize cfg v.toNat)
    (ext : Extensions) : decodeElement cfg v.toNat ext b = .fault := by
  have hlen : b.rest.length = r.length + 1 := by simp [h]
  unfold Refused at hok
  unfold elementSize at hsize
  unfold decodeElement
  cases htype : cfg.typeOf (elementId v.toNat) with
  | none =>
    simp only [htype] at hsize ⊢
    exact bind_fault (skip_fault (by omega)) _
  | transportSequenceNumber =>
    simp only [htype] at hok hsize
    split at hok
    · rename_i htwcc
      rw [if_pos htwcc] at hsize
      exact absurd (Or.inr (Or.inr hsize)) hok
    · rename_i htwcc
      rw [if_neg htwcc] at hsize
      exact absurd hsize hok
  | audioLevel =>
    simp only [htype] at hok hsize
    exact absurd (Or.inr (Or.inr hsize)) hok

theorem elementsFit_zero_iff : ElementsFit cfg (0 :: r) ↔ ElementsFit cfg r := by
  constructor
  · intro h
    cases h with
    | padding h => exact h
    | refused hv _ => exact absurd rfl hv
    | element hv _ _ => exact absurd rfl hv
  · exact .padding

theorem elementsFit_cons_iff (hv : v ≠ 0) : ElementsFit cfg (v :: r) ↔
    Refused cfg v.toNat r ∨ elementSize cfg v.toNat ≤ r.length ∧
      ElementsFit cfg (r.drop (elementSize cfg v.toNat)) := by
  constructor
  · intro h
    cases h with
    | padding _ => exact absurd rfl hv
    | refused _ h => exact Or.inl h
    | element _ hsize h => exact Or.inr ⟨hsize, h⟩
  · rintro (h | ⟨hsize, h⟩)
    · exact .refused hv h
    · exact .element hv hsize h

theorem decode0xbede_nil (h : b.rest = []) (fuel : ℕ) (ext : Extensions) :
    decode0xbede cfg (fuel + 1) ext b = .ok ext b := by
  have hempty : b.empty = true := by simp [empty_eq, h]
  rw [decode0xbede, bind_ok (read_apply _ _), hempty]
  rfl

/-- A zero byte is padding. -/
theorem decode0xbede_zero (h : b.rest = 0 :: r) (hpos : b.pos ≤ b.bytes.length) (fuel : ℕ)
    (ext : Extensions) :
    decode0xbede cfg (fuel + 1) ext b = decode0xbede cfg fuel ext (b.advance 1) := by
  have hempty : b.empty = false := by simp [empty_eq, h]
  have hlen : 1 ≤ b.rest.length := by simp [h]
  have hcheck : checkRequire 1 .rtcRtpMuxer "requires 1 bytes" b = .ok () b :=
    checkRequire_pass (n := 1) hlen hpos _ _
  have hskip : skip 1 b = .ok () (b.advance 1) := skip_run (n := 1) hlen hpos
  rw [decode0xbede, bind_ok (read_apply _ _), hempty, if_neg Bool.false_ne_true,
    bind_ok hcheck, bind_ok (peek_run h), if_pos rfl, bind_ok hskip]

theorem decode0xbede_cons (h : b.rest = v :: r) (hpos : b.pos ≤ b.bytes.length) (hv : v ≠ 0)
    (fuel : ℕ) (ext : Extensions) : decode0xbede cfg (fuel + 1) ext b =
      (decodeElement cfg v.toNat ext >>= decode0xbede cfg fuel) b := by
  have hempty : b.empty = false := by simp [empty_eq, h]
  have hlen : 1 ≤ b.rest.length := by simp [h]
  have hcheck : checkRequire 1 .rtcRtpMuxer "requires 1 bytes" b = .ok () b :=
    checkRequire_pass (n := 1) hlen hpos _ _
  rw [decode0xbede, bind_ok (read_apply _ _), hempty, if_neg Bool.false_ne_true,
    bind_ok hcheck, bind_ok (peek_run h), if_neg hv]

/-- With fuel for the bytes that are left, the loop returns exactly when the elements fit. -/
theorem decode0xbede_returns_iff (fuel : ℕ) (ext : Extensions) (hpos : b.pos ≤ b.bytes.length)
    (hfuel : b.rest.length < fuel) :
    (decode0xbede cfg fuel ext).Returns b ↔ ElementsFit cfg b.rest := by
  induction fuel generalizing b ext with
  | zero => omega
  | succ fuel ih =>
    cases h : b.rest with
    | nil => exact iff_of_true (Prog.returns_of_ok (decode0xbede_nil h fuel ext)) .done
    | cons v r =>
      have hlen : b.rest.length = r.length + 1 := by simp [h]
      by_cases hv : v = 0
      · subst hv
        have hrest := rest_advance_one h
        have hstep := ih (b := b.advance 1) ext (pos_advance_le (by omega) hpos)
          (by rw [hrest]; omega)
        rw [returns_congr (decode0xbede_zero h hpos fuel ext), hstep, hrest,
          elementsFit_zero_iff]
      · rw [returns_congr (decode0xbede_cons h hpos hv fuel ext), elementsFit_cons_iff hv]
        by_cases href : Refused cfg v.toNat r
        · obtain ⟨e, b', hdec⟩ := decodeElement_refused h hpos href ext
          exact iff_of_true (returns_of_err (bind_err hdec _)) (Or.inl href)
        · by_cases hsize : elementSize cfg v.toNat ≤ r.length
          · obtain ⟨ext', hdec⟩ := decodeElement_fits h hpos href hsize ext
            have hrest : (b.advance (1 + elementSize cfg v.toNat)).rest =
                r.drop (elementSize cfg v.toNat) := by
              rw [← advance_advance, rest_advance, rest_advance_one h]
            have hstep := ih (b := b.advance (1 + elementSize cfg v.toNat)) ext'
              (pos_advance_le (by omega) hpos) (by rw [hrest, List.length_drop]; omega)
            rw [returns_congr (bind_ok hdec _), hstep, hrest]
            tauto
          · have hfault := decodeElement_outside h href (by omega) ext
            refine iff_of_false (Prog.not_returns_of_fault (bind_fault hfault _)) ?_
            tauto

end Elements

/-! ## The header extension -/

section Header

variable {cfg : Config} {b : SrsBuffer}

theorem onBuffer_returns_iff {α : Type} (xbuf : SrsBuffer) (x : Dec α) :
    (onBuffer xbuf x).Returns b ↔ x.Returns xbuf := by
  unfold Prog.Returns Prog.Safe onBuffer
  cases x xbuf <;> rfl

/-- The profile and the length of an extension. -/
theorem extensionHeader_run {α : Type} (h4 : 4 ≤ b.rest.length) (hpos : b.pos ≤ b.bytes.length)
    (k : ℕ → ℕ → Dec α) : (do
      checkRequire 4 .rtcRtpMuxer "requires 4 bytes"
      let profileId ← readUint 2
      let length ← readUint 2
      k profileId length : Dec α) b =
    k (ofBytesBE (b.rest.take 2)) (ofBytesBE ((b.rest.drop 2).take 2)) (b.advance 4) := by
  have hlen2 : (b.advance 2).rest.length = b.rest.length - 2 := by
    rw [rest_advance, List.length_drop]
  have hpos2 := pos_advance_le (n := 2) (by omega) hpos
  have hlength := readUint_run (b := b.advance 2) (n := 2) (by omega) hpos2
  rw [advance_advance, rest_advance] at hlength
  have hcheck : checkRequire 4 .rtcRtpMuxer "requires 4 bytes" b = .ok () b :=
    checkRequire_pass (n := 4) h4 hpos _ _
  rw [bind_ok hcheck, bind_ok (readUint_run (n := 2) (by omega) hpos),
    bind_ok hlength]

/-- The extension returns exactly when the area fits in the bytes that are left. -/
theorem decodeExtensions_returns_iff (hpos : b.pos ≤ b.bytes.length) :
    (decodeExtensions cfg).Returns b ↔ AreaFits cfg b.rest := by
  unfold decodeExtensions AreaFits
  by_cases h4 : 4 ≤ b.rest.length
  · have hpos4 := pos_advance_le (n := 4) h4 hpos
    have hlen4 : (b.advance 4).rest.length = b.rest.length - 4 := by
      rw [rest_advance, List.length_drop]
    rw [returns_congr (extensionHeader_run h4 hpos _)]
    generalize ofBytesBE (b.rest.take 2) = profileId
    generalize ofBytesBE ((b.rest.drop 2).take 2) * 4 = size
    by_cases hbede : profileId = 0xBEDE
    · rw [if_pos hbede, returns_congr (bind_ok (read_apply _ _) _)]
      by_cases hfit : 4 + size ≤ b.rest.length
      · have hskip := skip_run (b := b.advance 4) (n := size) (by omega) hpos4
        have harea : ((b.advance 4).bytes.drop (b.advance 4).pos).take size =
            (b.rest.drop 4).take size := by
          rw [← rest_advance]
          rfl
        rw [returns_congr (bind_ok hskip _), onBuffer_returns_iff, harea,
          decode0xbede_returns_iff _ _ (Nat.zero_le _) (by simp [rest])]
        constructor
        · exact fun h _ => ⟨fun _ => hfit, fun _ => h⟩
        · exact fun h => (h h4).2 hbede
      · have hfault := skip_fault (b := b.advance 4) (n := size) (by omega)
        refine iff_of_false (Prog.not_returns_of_fault (bind_fault hfault _)) ?_
        intro h
        exact hfit ((h h4).1 (Or.inl hbede))
    · rw [if_neg hbede]
      by_cases happ : profileId = 0x1000
      · rw [if_pos happ]
        by_cases hfit : 4 + size ≤ b.rest.length
        · have hskip := skip_run (b := b.advance 4) (n := size) (by omega) hpos4
          refine iff_of_true (Prog.returns_of_ok (bind_ok hskip _)) ?_
          exact fun _ => ⟨fun _ => hfit, fun h => absurd h hbede⟩
        · have hfault := skip_fault (b := b.advance 4) (n := size) (by omega)
          refine iff_of_false (Prog.not_returns_of_fault (bind_fault hfault _)) ?_
          intro h
          exact hfit ((h h4).1 (Or.inr happ))
      · rw [if_neg happ]
        exact iff_of_true (returns_of_err (Prog.throw_apply _ _))
          fun _ => ⟨fun h => absurd h (by tauto), fun h => absurd h hbede⟩
  · have hcheck : checkRequire 4 .rtcRtpMuxer "requires 4 bytes" b = .err _ _ :=
      checkRequire_fail (n := 4) (by omega) _ _
    exact iff_of_true (returns_of_err (bind_err hcheck _)) fun h => absurd h h4

/-! ## What comes after the extension -/

theorem takes_readCsrcs (n : ℕ) : Takes (readCsrcs n) (4 * n) := by
  induction n with
  | zero => exact takes_pure _
  | succ n ih =>
    have h : 4 * (n + 1) = 4 + (4 * n + 0) := by omega
    rw [h]
    exact (takes_readUint 4).bind fun _ => ih.bind fun _ => takes_pure _

/-- The padding count is in the last byte, which exists where the buffer is not empty. -/
theorem decodePadding_returns (padding : Bool) : (decodePadding cfg padding).Returns b := by
  unfold decodePadding
  refine Prog.Safe.bind (Prog.Safe.read ?_)
  by_cases h : (padding && !cfg.ignorePadding && !b.empty) = true
  · have hempty : b.empty = false := by
      cases hb : b.empty
      · rfl
      · simp [hb] at h
    have hlt : b.pos < b.bytes.length := not_le.mp (of_decide_eq_false hempty)
    have hne : b.bytes ≠ [] := List.ne_nil_of_length_pos (by omega)
    have hlast : lastByte b = .ok (b.bytes.getLast hne) b := by
      rw [lastByte, List.getLast?_eq_some_getLast hne]
    rw [if_pos h]
    refine (returns_congr (bind_ok hlast _)).mpr ?_
    exact Prog.Safe.bind (safe_checkRequire fun _ => trivial)
  · rw [if_neg h]
    exact Prog.Safe.pure trivial

/-- The header returns exactly when its extension fits. -/
theorem decodeHeader_returns_iff {start : SrsBuffer} (hzero : start.pos ≤ start.bytes.length) :
    (decodeHeader cfg).Returns start ↔ ExtensionFits cfg start.rest := by
  generalize hrest : start.rest = bytes
  have hlength : bytes.length = start.bytes.length - start.pos := by
    rw [← hrest, length_rest]
  unfold decodeHeader ExtensionFits
  by_cases h12 : 12 ≤ bytes.length
  · -- the fixed header is there
    have hcheck : checkRequire rtpHeaderFixedSize .rtcRtpMuxer "requires 12+ bytes" start =
        .ok () start := checkRequire_pass (b := start) (n := 12) (hrest ▸ h12) hzero _ _
    have hfirst : readUint 1 start = .ok (bytes.getD 0 0).toNat (start.advance 1) := by
      obtain ⟨v, r, hbytes⟩ := List.exists_cons_of_length_pos (show 0 < bytes.length by omega)
      rw [readUint_one (hrest.trans hbytes) hzero, hbytes]
      rfl
    obtain ⟨second, hsecond⟩ := (takes_readUint 1 (start.advance 1)).1 (by
      show start.pos + 1 + 1 ≤ start.bytes.length
      omega)
    obtain ⟨sequence, hsequence⟩ := (takes_readUint 2 ((start.advance 1).advance 1)).1 (by
      show start.pos + 1 + 1 + 2 ≤ start.bytes.length
      omega)
    obtain ⟨timestamp, htimestamp⟩ :=
      (takes_readUint 4 (((start.advance 1).advance 1).advance 2)).1 (by
        show start.pos + 1 + 1 + 2 + 4 ≤ start.bytes.length
        omega)
    obtain ⟨ssrc, hssrc⟩ :=
      (takes_readUint 4 ((((start.advance 1).advance 1).advance 2).advance 4)).1 (by
        show start.pos + 1 + 1 + 2 + 4 + 4 ≤ start.bytes.length
        omega)
    have hfixed : ((((start.advance 1).advance 1).advance 2).advance 4).advance 4 =
        start.advance 12 := rfl
    rw [hfixed] at hssrc
    rw [returns_congr (bind_ok hcheck _), returns_congr (bind_ok hfirst _),
      returns_congr (bind_ok hsecond _), returns_congr (bind_ok hsequence _),
      returns_congr (bind_ok htimestamp _), returns_congr (bind_ok hssrc _)]
    generalize (bytes.getD 0 0).toNat = first
    have hpos12 : (start.advance 12).pos ≤ (start.advance 12).bytes.length := by
      show start.pos + 12 ≤ start.bytes.length
      omega
    have hlen12 : (start.advance 12).rest.length = bytes.length - 12 := by
      rw [rest_advance, hrest, List.length_drop]
    by_cases hcsrc : 12 + first % 16 * 4 ≤ bytes.length
    · -- the CSRC list is there
      have hcheckCsrc := checkRequire_pass (b := start.advance 12) (n := first % 16 * 4)
        (by omega) hpos12 .rtcRtpMuxer ("requires " ++ toString (first % 16 * 4) ++ "+ bytes")
      obtain ⟨csrc, hread⟩ := (takes_readCsrcs (first % 16) (start.advance 12)).1 (by
        show start.pos + 12 + 4 * (first % 16) ≤ start.bytes.length
        omega)
      rw [advance_advance, Nat.mul_comm 4] at hread
      rw [returns_congr (bind_ok hcheckCsrc _),
        returns_congr (bind_ok hread _)]
      rw [Prog.returns_bind_iff fun _ _ _ =>
        Prog.Safe.bind ((decodePadding_returns _).mono fun _ _ _ => Prog.Safe.pure trivial)]
      unfold parseExtensions
      by_cases hx : first / 16 % 2 = 1
      · have hpos : (start.advance (12 + first % 16 * 4)).pos ≤ start.bytes.length := by
          show start.pos + (12 + first % 16 * 4) ≤ start.bytes.length
          omega
        rw [if_pos (decide_eq_true hx), Prog.returns_wrap_iff, decodeExtensions_returns_iff hpos,
          rest_advance, hrest]
        exact ⟨fun h _ _ => h, fun h => h hcsrc hx⟩
      · rw [if_neg (by simpa using hx)]
        exact iff_of_true (Prog.Safe.pure trivial) fun _ h => absurd h hx
    · have hcheckCsrc := checkRequire_fail (b := start.advance 12) (n := first % 16 * 4)
        (by omega) .rtcRtpMuxer ("requires " ++ toString (first % 16 * 4) ++ "+ bytes")
      exact iff_of_true (returns_of_err (bind_err hcheckCsrc _))
        fun h => absurd h hcsrc
  · have hcheck : checkRequire rtpHeaderFixedSize .rtcRtpMuxer "requires 12+ bytes" start =
        .err _ _ := checkRequire_fail (n := 12) (by rw [hrest]; omega) _ _
    exact iff_of_true (returns_of_err (bind_err hcheck _))
      fun h => absurd (le_trans (Nat.le_add_right 12 _) h) h12

/-- Each sample of a `STAP-A` moves the head forward by two bytes at least. -/
theorem decodeNalus_returns (fuel : ℕ) (hfuel : b.bytes.length - b.pos < fuel) :
    (decodeNalus fuel).Returns b := by
  induction fuel generalizing b with
  | zero => omega
  | succ fuel ih =>
    rw [decodeNalus]
    refine Prog.Safe.bind (Prog.Safe.read ?_)
    cases hempty : b.empty with
    | true => exact Prog.Safe.pure trivial
    | false =>
      have hlt : b.pos < b.bytes.length := not_le.mp (of_decide_eq_false hempty)
      refine Prog.Safe.bind (safe_checkRequire fun htwo => ?_)
      have hpos2 := (b.require_iff 2).mp htwo
      refine Prog.Safe.bind (safe_readUint hpos2 fun v => ?_)
      -- a negative size does not pass the check
      refine Prog.Safe.bind (safe_checkRequire fun hsize => ?_)
      refine Prog.Safe.bind (Prog.Safe.read ?_)
      refine Prog.Safe.bind (safe_skip hsize ?_)
      have hrest : (decodeNalus fuel).Returns ((b.advance 2).advance (int16 v).toNat) := by
        refine ih ?_
        rw [bytes_advance, pos_advance, bytes_advance, pos_advance]
        omega
      exact Prog.Safe.bind (hrest.mono fun _ _ _ => Prog.Safe.pure trivial)

theorem decodeStap_returns : decodeStap.Returns b := by
  unfold decodeStap
  refine Prog.Safe.bind (safe_checkRequire fun hone => ?_)
  refine Prog.Safe.bind (safe_readUint ((b.require_iff 1).mp hone) fun v => ?_)
  by_cases hforbidden : v / 128 = 1
  · rw [if_pos hforbidden]
    trivial
  · rw [if_neg hforbidden]
    refine Prog.Safe.bind (Prog.Safe.read ?_)
    have hnalus := decodeNalus_returns (b := b.advance 1) ((b.advance 1).bytes.length + 1)
      (by omega)
    exact Prog.Safe.bind (hnalus.mono fun _ _ _ => Prog.Safe.pure trivial)

theorem decodeFua_returns : decodeFua.Returns b := by
  unfold decodeFua
  refine Prog.Safe.bind (safe_checkRequire fun htwo => ?_)
  have hpos2 := (b.require_iff 2).mp htwo
  refine Prog.Safe.bind (safe_readUint (by omega) fun indicator => ?_)
  have hpos1 : (b.advance 1).pos + 1 ≤ (b.advance 1).bytes.length := hpos2
  refine Prog.Safe.bind (safe_readUint hpos1 fun header => ?_)
  refine Prog.Safe.bind (safe_checkRequire fun hone => ?_)
  refine Prog.Safe.bind (Prog.Safe.read ?_)
  refine Prog.Safe.bind (safe_skip ?_ (Prog.Safe.pure trivial))
  -- the payload is all that is left
  have hpos3 := ((b.advance 1).advance 1).require_iff 1 |>.mp hone
  rw [require_iff, List.length_drop]
  omega

theorem decodePayload_returns (ssrc : ℕ) : (decodePayload cfg ssrc).Returns b := by
  unfold decodePayload
  refine Prog.Safe.bind (Prog.Safe.read ?_)
  split
  · rename_i hvideo
    refine Prog.Safe.bind (safe_peek hvideo.2 fun v => ?_)
    have hpayload : (decodeByNaluType (v.toNat % 32)).Returns b := by
      unfold decodeByNaluType
      split
      · exact decodeStap_returns
      · split
        · exact decodeFua_returns
        · exact trivial
    exact Prog.Safe.bind (hpayload.mono fun _ _ _ => Prog.Safe.pure trivial)
  · exact Prog.Safe.bind (Prog.Safe.read (Prog.Safe.pure trivial))

end Header

/-! ## The packet -/

/-- Which packets are decoded to the end, with success or an error, wherever in the buffer they
start. -/
theorem rtpDecode_returns_at (cfg : Config) {start : SrsBuffer}
    (hpos : start.pos ≤ start.bytes.length) :
    (rtpDecode cfg).Returns start ↔ ExtensionFits cfg start.rest := by
  have htail : ∀ (header : RtpHeader) (b : SrsBuffer),
      (do
        cutPadding header.paddingLength
        let (naluType, payload) ←
          Prog.wrap (srsErrorWrap "rtp payload") (decodePayload cfg header.ssrc)
        return { header, naluType, payload : RtpPacket } : Dec RtpPacket).Returns b := by
    intro header b
    by_cases hpadding : b.require header.paddingLength = true
    · have hcut : cutPadding header.paddingLength b = .ok () _ := if_pos hpadding
      refine (returns_congr (bind_ok hcut _)).mpr ?_
      exact Prog.Safe.bind (Prog.Safe.wrap ((decodePayload_returns _).mono fun _ _ _ => trivial))
    · have hcut : cutPadding header.paddingLength b = .err _ _ := if_neg hpadding
      exact returns_of_err (bind_err hcut _)
  unfold rtpDecode
  rw [Prog.returns_bind_iff fun header b _ => htail header b, Prog.returns_wrap_iff,
    decodeHeader_returns_iff hpos]

/-- Which packets are decoded to the end, with success or an error. -/
theorem rtpDecode_returns_iff (cfg : Config) (bytes : List UInt8) :
    (rtpDecode cfg).Returns ⟨bytes, 0⟩ ↔ ExtensionFits cfg bytes :=
  rtpDecode_returns_at cfg (Nat.zero_le _)

/-! ## Where the payload is -/

theorem forward_onBuffer {α : Type} (xbuf : SrsBuffer) (x : Dec α) :
    Forward (onBuffer xbuf x) 0 := by
  intro b hb
  unfold onBuffer
  cases x xbuf with
  | ok a b1 => exact forward_pure a b hb
  | err e b1 => exact forward_throw e 0 b hb
  | fault => exact ⟨fun a b' hok => (by cases hok), fun e b' herr => (by cases herr)⟩
  | hang => exact ⟨fun a b' hok => (by cases hok), fun e b' herr => (by cases herr)⟩

theorem forward_skip (n : ℕ) : Forward (skip n) 0 :=
  (forward_of_takes (takes_skip n)).mono (Nat.zero_le _)

theorem forward_decodeExtensions (cfg : Config) : Forward (decodeExtensions cfg) 0 := by
  refine (forward_checkRequire _ _ _).bind fun _ => ?_
  refine (forward_of_takes (takes_readUint 2)).bind fun profileId => ?_
  refine (forward_of_takes (takes_readUint 2)).bind fun extensionLength => ?_
  apply Forward.ite
  · refine (forward_read _).bind fun area => ?_
    exact (forward_skip _).bind fun _ => forward_onBuffer _ _
  · apply Forward.ite
    · exact (forward_skip _).bind fun _ => forward_pure _
    · exact forward_throw _ _

theorem forward_parseExtensions (cfg : Config) (hasExtension : Bool) :
    Forward (parseExtensions cfg hasExtension) 0 :=
  ((forward_decodeExtensions cfg).wrap _).ite (forward_pure _)

theorem forward_lastByte : Forward lastByte 0 := by
  intro b hb
  unfold lastByte
  split
  · exact forward_pure _ b hb
  · exact ⟨fun a b' hok => (by cases hok), fun e b' herr => (by cases herr)⟩

theorem forward_decodePadding (cfg : Config) (padding : Bool) :
    Forward (decodePadding cfg padding) 0 := by
  refine (forward_read _).bind fun empty => ?_
  apply Forward.ite
  · refine forward_lastByte.bind fun v => ?_
    exact (forward_checkRequire _ _ _).bind fun _ => forward_pure _
  · exact forward_pure _

/-- The header takes the twelve fixed bytes at least. -/
theorem forward_decodeHeader (cfg : Config) : Forward (decodeHeader cfg) 12 := by
  refine (forward_checkRequire _ _ _).bind fun _ => ?_
  refine (forward_of_takes (takes_readUint 1)).bind fun _ => ?_
  refine (forward_of_takes (takes_readUint 1)).bind fun _ => ?_
  refine (forward_of_takes (takes_readUint 2)).bind fun _ => ?_
  refine (forward_of_takes (takes_readUint 4)).bind fun _ => ?_
  refine (forward_of_takes (takes_readUint 4)).bind fun _ => ?_
  refine (forward_checkRequire _ _ _).bind fun _ => ?_
  refine ((forward_of_takes (takes_readCsrcs _)).mono (Nat.zero_le _)).bind fun _ => ?_
  refine (forward_parseExtensions _ _).bind fun _ => ?_
  exact (forward_decodePadding _ _).bind fun _ => forward_pure _

/-- Without a decode handler the payload is raw, and the head is where it starts, with the padding
cut off behind it. -/
theorem rtpDecode_raw {cfg : Config} (hcfg : cfg.decodeHandler = none) {b b' : SrsBuffer}
    {packet : RtpPacket} (hb : b.pos ≤ b.bytes.length) (h : rtpDecode cfg b = .ok packet b') :
    packet.payload = .raw b'.rest ∧ b'.bytes <+: b.bytes ∧ b.pos + 12 ≤ b'.pos ∧
      b'.pos ≤ b'.bytes.length := by
  obtain ⟨header, b1, hheader, h⟩ := Prog.ok_of_bind_ok h
  obtain ⟨_, b2, hcut, h⟩ := Prog.ok_of_bind_ok h
  obtain ⟨result, b3, hpayload, h⟩ := Prog.ok_of_bind_ok h
  have hforward :=
    ((forward_decodeHeader cfg).wrap (srsErrorWrap "rtp header") b hb).1 header b1 hheader
  -- the padding that is cut off is behind the head
  have hbytes : b2.bytes = b1.bytes.take (b1.bytes.length - header.paddingLength) ∧
      b2.pos = b1.pos ∧ b1.pos + header.paddingLength ≤ b1.bytes.length := by
    unfold cutPadding at hcut
    split at hcut
    · next hrequire =>
      cases hcut
      exact ⟨rfl, rfl, (b1.require_iff _).mp hrequire⟩
    · cases hcut
  have hraw : result.2 = .raw b2.rest ∧ b3 = b2 := by
    unfold decodePayload at hpayload
    rw [hcfg] at hpayload
    cases hpayload
    exact ⟨rfl, rfl⟩
  cases h
  refine ⟨?_, ?_, ?_, ?_⟩
  · rw [hraw.2]
    exact hraw.1
  · rw [hraw.2, hbytes.1, hforward.1]
    exact List.take_prefix _ _
  · rw [hraw.2, hbytes.2.1]
    exact hforward.2.1
  · rw [hraw.2, hbytes.2.1, hbytes.1, List.length_take]
    omega

/-- A packet that is refused is left in the memory. -/
theorem rtpDecode_refused {cfg : Config} (hcfg : cfg.decodeHandler = none) {b b' : SrsBuffer}
    {e : SrsError} (hb : b.pos ≤ b.bytes.length) (h : rtpDecode cfg b = .err e b') :
    Within b.bytes b' := by
  have hheader := (forward_decodeHeader cfg).wrap (srsErrorWrap "rtp header") b hb
  unfold rtpDecode at h
  rw [Prog.bind_apply] at h
  cases hrun : (decodeHeader cfg).wrap (srsErrorWrap "rtp header") b with
  | ok header b1 =>
    rw [hrun] at h
    have hbytes := hheader.1 header b1 hrun
    dsimp only at h
    rw [Prog.bind_apply] at h
    unfold cutPadding at h
    split at h
    · next _ b2 hcut =>
      -- a raw payload is not refused
      unfold decodePayload at h
      rw [hcfg] at h
      cases h
    · next _ b2 hcut =>
      split at hcut
      · cases hcut
      · cases hcut
        cases h
        exact ⟨hbytes.1, hbytes.2.2⟩
    · cases h
    · cases h
  | err e1 b1 =>
    rw [hrun] at h
    cases h
    exact hheader.2 _ _ hrun
  | fault =>
    rw [hrun] at h
    cases h
  | hang =>
    rw [hrun] at h
    cases h

/-- A packet with a `0xBEDE` extension of 4 bytes, behind which nothing comes. -/
def extensionLongerThanPacket : List UInt8 :=
  [0x90, 96, 0, 1, 0, 0, 0, 0, 0, 0, 0, 1, 0xBE, 0xDE, 0, 1]

/-- The failing input: the area that the length field announces is skipped unseen. -/
theorem extension_longer_than_packet_aborts :
    rtpDecode ⟨none, false, false, none⟩ ⟨extensionLongerThanPacket, 0⟩ = .fault ∧
      ¬ ExtensionFits ⟨none, false, false, none⟩ extensionLongerThanPacket := by
  refine ⟨rfl, ?_⟩
  rw [← rtpDecode_returns_iff]
  exact Prog.not_returns_of_fault rfl

end SrsChatRoom.Kernel.Rtp
