import SrsChatRoom.Kernel.BufferRules
import SrsChatRoom.Kernel.RtpHeader
import SrsChatRoom.Kernel.RtpPayloads

/-!
# RTP packets, written (`srs_kernel_rtc_rtp.cpp`)

What `SrsRtpPacket::encode` writes (`encode_writes`), and the size that `SrsRtpPacket::nb_bytes`
says. The size is worked out once and kept in `cached_payload_size`; after that only the two
setters of the padding change it, and `set_padding` takes the old padding from the header when the
new one is there already. `nbBytes_after` says by how much the size is behind in the end.
-/

namespace SrsChatRoom.Kernel.Rtp

open SrsBuffer
open Payloader (requireBytes)

/-! ## Extensions -/

/-- The zeros up to the next multiple of four. -/
def paddingCount (len : ℕ) : ℕ := if len % 4 = 0 then 0 else 4 - len % 4

namespace Extensions

/-- `twcc_.exists() ? twcc_.nb_bytes() : 0`, and `audio_level_.nb_bytes()` likewise. -/
def elementBytes (ext : Extensions) : ℕ :=
  (if ext.twcc.isSome then 3 else 0) + if ext.audioLevel.isSome then 2 else 0

/-- `SrsRtpExtensions::nb_bytes` -/
def nbBytes (ext : Extensions) : ℕ :=
  4 + ext.elementBytes + paddingCount (4 + ext.elementBytes)

/-- `len` of `SrsRtpExtensions::encode`, with the padding. -/
def len (ext : Extensions) : ℕ := ext.elementBytes + paddingCount ext.elementBytes

/-- `set_twcc_sequence_number(id, sn)` -/
def setTwccSequenceNumber (ext : Extensions) (id sn : ℕ) : Extensions :=
  { ext with hasExt := true, twcc := some ⟨id, sn⟩ }

end Extensions

/-- `SrsRtpExtensionTwcc::encode` -/
def encodeTwcc (e : Element) : Dec Unit := do
  requireBytes 3 3
  writeUint 1 ((e.id &&& 0x0F) <<< 4 ||| 0x01)
  writeUint 2 e.value

/-- `SrsRtpExtensionOneByte::encode` -/
def encodeOneByte (e : Element) : Dec Unit := do
  requireBytes 2 2
  writeUint 1 ((e.id &&& 0x0F) <<< 4 ||| 0x00)
  writeUint 1 e.value

/-- An element is written where it exists. -/
def encodeElement (message : String) (encode : Element → Dec Unit) : Option Element → Dec Unit
  | some e => Prog.wrap (srsErrorWrap message) (encode e)
  | none => return ()

/-- `SrsRtpExtensions::encode` -/
def encodeExtensions (ext : Extensions) : Dec Unit := do
  writeUint 2 0xBEDE
  requireBytes ext.len ext.len
  writeUint 2 (ext.len / 4)
  encodeElement "encode twcc extension" encodeTwcc ext.twcc
  encodeElement "encode audio level extension" encodeOneByte ext.audioLevel
  writeBytes (List.replicate (paddingCount ext.elementBytes) 0)

/-! ## The header -/

/-- `kRtpMarker` -/
def kRtpMarker : ℕ := 0x80

namespace RtpHeader

/-- `SrsRtpHeader::nb_bytes` -/
def nbBytes (header : RtpHeader) : ℕ :=
  rtpHeaderFixedSize + header.cc * 4 +
    if header.extensions.hasExt then header.extensions.nbBytes else 0

/-- `set_padding(v)`, where `v` becomes a `uint8_t`. -/
def setPadding (header : RtpHeader) (v : ℤ) : RtpHeader :=
  { header with paddingLength := (v % 256).toNat }

/-- `set_twcc_sequence_number(id, sn)` -/
def setTwccSequenceNumber (header : RtpHeader) (id sn : ℕ) : RtpHeader :=
  { header with extensions := header.extensions.setTwccSequenceNumber id sn }

/-- The version, padding, extension and `cc`. -/
def first (header : RtpHeader) : ℕ :=
  let v := 0x80 ||| header.cc
  let v := if 0 < header.paddingLength then v ||| 0x20 else v
  if header.extensions.hasExt then v ||| 0x10 else v

/-- The marker and payload type. -/
def second (header : RtpHeader) : ℕ :=
  if header.marker then header.payloadType ||| kRtpMarker else header.payloadType

end RtpHeader

/-- The `CSRC` list. -/
def writeCsrcs : List ℕ → Dec Unit
  | [] => return ()
  | csrc :: rest => do
    writeUint 4 csrc
    writeCsrcs rest

/-- The extensions of `SrsRtpHeader::encode`. -/
def encodeHeaderExtensions (ext : Extensions) : Dec Unit :=
  if ext.hasExt then Prog.wrap (srsErrorWrap "encode rtp extension") (encodeExtensions ext)
  else return ()

/-- `SrsRtpHeader::encode` -/
def encodeHeader (header : RtpHeader) : Dec Unit := do
  writeUint 1 header.first
  writeUint 1 header.second
  writeUint 2 header.sequence
  writeUint 4 header.timestamp
  writeUint 4 header.ssrc
  writeCsrcs (header.csrc.take header.cc)
  encodeHeaderExtensions header.extensions

/-! ## The packet -/

/-- `SrsRtpPacket` as it is sent: the header, `payload_` and `cached_payload_size`. -/
structure SrsRtpPacket where
  header : RtpHeader
  payload : Option Payloader
  cachedPayloadSize : ℤ

namespace SrsRtpPacket

/-- A packet whose size has not been asked for. -/
def new (header : RtpHeader) (payload : Option Payloader) : SrsRtpPacket := ⟨header, payload, 0⟩

/-- `payload_? payload_->nb_bytes():0` -/
def nnPayload (pkt : SrsRtpPacket) : ℕ :=
  match pkt.payload with
  | some p => p.nbBytes
  | none => 0

/-- `set_padding(size)` -/
def setPadding (pkt : SrsRtpPacket) (size : ℤ) : SrsRtpPacket :=
  let pkt := { pkt with header := pkt.header.setPadding size }
  if pkt.cachedPayloadSize ≠ 0 then
    { pkt with
      cachedPayloadSize := pkt.cachedPayloadSize + (size - pkt.header.paddingLength) }
  else pkt

/-- `add_padding(size)` -/
def addPadding (pkt : SrsRtpPacket) (size : ℤ) : SrsRtpPacket :=
  let pkt := { pkt with header := pkt.header.setPadding (pkt.header.paddingLength + size) }
  if pkt.cachedPayloadSize ≠ 0 then
    { pkt with cachedPayloadSize := pkt.cachedPayloadSize + size }
  else pkt

/-- `header.set_twcc_sequence_number(id, sn)` -/
def setTwccSequenceNumber (pkt : SrsRtpPacket) (id sn : ℕ) : SrsRtpPacket :=
  { pkt with header := pkt.header.setTwccSequenceNumber id sn }

/-- `nb_bytes()`: the size, and the packet that keeps it. -/
def nbBytes (pkt : SrsRtpPacket) : ℤ × SrsRtpPacket :=
  let pkt := if pkt.cachedPayloadSize = 0 then
      { pkt with cachedPayloadSize := pkt.header.nbBytes + pkt.nnPayload +
          pkt.header.paddingLength }
    else pkt
  (pkt.cachedPayloadSize, pkt)

/-- The payload, where there is one. -/
def encodePayload : Option Payloader → Dec Unit
  | some p => Prog.wrap (srsErrorWrap "rtp payload") p.encode
  | none => return ()

/-- The padding, each byte of which is its count. -/
def encodePadding (padding : ℕ) : Dec Unit :=
  if 0 < padding then do
    requireBytes padding padding
    writeBytes (List.replicate padding (UInt8.ofNat padding))
  else return ()

/-- `encode(buf)` -/
def encode (pkt : SrsRtpPacket) : Dec Unit := do
  Prog.wrap (srsErrorWrap "rtp header") (encodeHeader pkt.header)
  encodePayload pkt.payload
  encodePadding pkt.header.paddingLength

end SrsRtpPacket

/-! ## What is written -/

namespace Extensions

/-- The elements and their padding. -/
def elements (ext : Extensions) : List UInt8 :=
  let twcc := match ext.twcc with
    | some e => bytesBE 1 ((e.id &&& 0x0F) <<< 4 ||| 0x01) ++ bytesBE 2 e.value
    | none => []
  let audioLevel := match ext.audioLevel with
    | some e => bytesBE 1 ((e.id &&& 0x0F) <<< 4 ||| 0x00) ++ bytesBE 1 e.value
    | none => []
  twcc ++ (audioLevel ++ List.replicate (paddingCount ext.elementBytes) 0)

/-- The header extension. -/
def toBytes (ext : Extensions) : List UInt8 :=
  bytesBE 2 0xBEDE ++ (bytesBE 2 (ext.len / 4) ++ ext.elements)

/-- The header extension, where there is one. -/
def headerBytes (ext : Extensions) : List UInt8 := if ext.hasExt then ext.toBytes else []

end Extensions

/-- The bytes of the header. -/
def RtpHeader.toBytes (header : RtpHeader) : List UInt8 :=
  bytesBE 1 header.first ++ (bytesBE 1 header.second ++ (bytesBE 2 header.sequence ++
    (bytesBE 4 header.timestamp ++ (bytesBE 4 header.ssrc ++
      ((header.csrc.take header.cc).flatMap (bytesBE 4) ++ header.extensions.headerBytes)))))

namespace SrsRtpPacket

/-- The bytes of the payload. -/
def payloadBytes (pkt : SrsRtpPacket) : List UInt8 :=
  match pkt.payload with
  | some p => p.toBytes
  | none => []

/-- The bytes of the padding. -/
def paddingBytes (pkt : SrsRtpPacket) : List UInt8 :=
  List.replicate pkt.header.paddingLength (UInt8.ofNat pkt.header.paddingLength)

/-- The bytes of the packet. -/
def toBytes (pkt : SrsRtpPacket) : List UInt8 :=
  pkt.header.toBytes ++ (pkt.payloadBytes ++ pkt.paddingBytes)

end SrsRtpPacket

section Written

theorem length_elements (ext : Extensions) : ext.elements.length = ext.len := by
  unfold Extensions.elements Extensions.len
  simp only [List.length_append, List.length_replicate]
  unfold Extensions.elementBytes
  cases ext.twcc with
  | none =>
    cases ext.audioLevel with
    | none => simp
    | some e => simp
  | some e =>
    cases ext.audioLevel with
    | none => simp
    | some e => simp; omega

theorem writes_encodeTwcc (e : Element) : Writes (encodeTwcc e)
    (bytesBE 1 ((e.id &&& 0x0F) <<< 4 ||| 0x01) ++ bytesBE 2 e.value) := by
  apply Writes.checkRequire
  · exact (writes_writeUint 1 _).seq (writes_writeUint 2 _)
  · rw [List.length_append, length_bytesBE, length_bytesBE]

theorem writes_encodeOneByte (e : Element) : Writes (encodeOneByte e)
    (bytesBE 1 ((e.id &&& 0x0F) <<< 4 ||| 0x00) ++ bytesBE 1 e.value) := by
  apply Writes.checkRequire
  · exact (writes_writeUint 1 _).seq (writes_writeUint 1 _)
  · rw [List.length_append, length_bytesBE, length_bytesBE]

theorem writes_encodeExtensions (ext : Extensions) : Writes (encodeExtensions ext) ext.toBytes := by
  have hrest : Writes (do
      encodeElement "encode twcc extension" encodeTwcc ext.twcc
      encodeElement "encode audio level extension" encodeOneByte ext.audioLevel
      writeBytes (List.replicate (paddingCount ext.elementBytes) 0)) ext.elements := by
    apply Writes.seq
    · cases ext.twcc with
      | none => exact writes_pure
      | some e => exact (writes_encodeTwcc e).wrap _
    · apply Writes.seq
      · cases ext.audioLevel with
        | none => exact writes_pure
        | some e => exact (writes_encodeOneByte e).wrap _
      · exact writes_writeBytes _
  apply (writes_writeUint 2 0xBEDE).seq
  apply Writes.checkRequire
  · exact (writes_writeUint 2 _).seq hrest
  · rw [List.length_append, length_elements]
    omega

theorem writes_writeCsrcs (csrcs : List ℕ) :
    Writes (writeCsrcs csrcs) (csrcs.flatMap (bytesBE 4)) := by
  induction csrcs with
  | nil => exact writes_pure
  | cons csrc rest ih => exact (writes_writeUint 4 csrc).seq ih

theorem writes_encodeHeader (header : RtpHeader) : Writes (encodeHeader header) header.toBytes := by
  have hextensions : Writes (encodeHeaderExtensions header.extensions)
      header.extensions.headerBytes := by
    unfold encodeHeaderExtensions Extensions.headerBytes
    by_cases hext : header.extensions.hasExt = true
    · rw [if_pos hext, if_pos hext]
      exact (writes_encodeExtensions _).wrap _
    · rw [if_neg hext, if_neg hext]
      exact writes_pure
  exact (writes_writeUint 1 _).seq <| (writes_writeUint 1 _).seq <| (writes_writeUint 2 _).seq <|
    (writes_writeUint 4 _).seq <| (writes_writeUint 4 _).seq <|
      (writes_writeCsrcs _).seq hextensions

/-- `encode` writes the header, the payload and the padding. -/
theorem writes_encode (pkt : SrsRtpPacket) : Writes pkt.encode pkt.toBytes := by
  have hpayload : Writes (SrsRtpPacket.encodePayload pkt.payload) pkt.payloadBytes := by
    unfold SrsRtpPacket.payloadBytes
    cases pkt.payload with
    | none => exact writes_pure
    | some p =>
      apply Writes.wrap
      intro b hroom
      rw [Payloader.length_toBytes] at hroom
      exact Payloader.encode_run p hroom
  have hpadding : Writes (SrsRtpPacket.encodePadding pkt.header.paddingLength)
      pkt.paddingBytes := by
    unfold SrsRtpPacket.encodePadding SrsRtpPacket.paddingBytes
    by_cases hzero : 0 < pkt.header.paddingLength
    · rw [if_pos hzero]
      exact (writes_writeBytes _).checkRequire (by rw [List.length_replicate]) _ _
    · rw [if_neg hzero, Nat.eq_zero_of_not_pos hzero]
      exact writes_pure
  exact ((writes_encodeHeader _).wrap _).seq (hpayload.seq hpadding)

end Written

/-! ## Packets that are built, and the calls on them -/

/-- The ids that are registered for the two extensions. -/
structure ExtensionMap where
  twccId : ExtensionId
  audioLevelId : ExtensionId

/-- `SrsRtpExtensionTypes` with these ids. -/
def ExtensionMap.types (map : ExtensionMap) : ExtensionTypes :=
  ⟨map.twccId.id, map.audioLevelId.id⟩

/-- A header whose fields are in the range of their types, with a list of `cc` contributing
sources and extensions with the ids of the map. -/
structure Built (map : ExtensionMap) (header : RtpHeader) : Prop where
  cc : header.cc ≤ 15
  csrc : header.csrc.length = header.cc ∧ ∀ csrc ∈ header.csrc, csrc < 256 ^ 4
  payloadType : header.payloadType ≤ 127
  sequence : header.sequence < 256 ^ 2
  timestamp : header.timestamp < 256 ^ 4
  ssrc : header.ssrc < 256 ^ 4
  paddingLength : header.paddingLength < 256
  hasExt : header.extensions.hasExt =
    (header.extensions.twcc.isSome || header.extensions.audioLevel.isSome)
  twcc : ∀ e ∈ header.extensions.twcc, e.id = map.twccId.id ∧ e.value < 256 ^ 2
  audioLevel : ∀ e ∈ header.extensions.audioLevel, e.id = map.audioLevelId.id ∧ e.value < 256 ^ 1

/-- A header that is built. -/
structure BuiltHeader (map : ExtensionMap) where
  header : RtpHeader
  built : Built map header

/-- A call before the packet is encoded. -/
inductive Call
  | setPadding (size : UInt8)
  | addPadding (size : UInt8)
  | setTwccSequenceNumber (sn : UInt16)
  | nbBytes
deriving DecidableEq, Repr

namespace Call

/-- What the call makes of the packet. -/
def run (map : ExtensionMap) (pkt : SrsRtpPacket) : Call → SrsRtpPacket
  | setPadding size => pkt.setPadding size.toNat
  | addPadding size => pkt.addPadding size.toNat
  | setTwccSequenceNumber sn => pkt.setTwccSequenceNumber map.twccId.id sn.toNat
  | nbBytes => pkt.nbBytes.2

/-- What the call makes of the header. -/
def runHeader (map : ExtensionMap) (header : RtpHeader) : Call → RtpHeader
  | setPadding size => header.setPadding size.toNat
  | addPadding size => header.setPadding (header.paddingLength + size.toNat)
  | setTwccSequenceNumber sn => header.setTwccSequenceNumber map.twccId.id sn.toNat
  | nbBytes => header

/-- By how much the call leaves a size that is kept behind: the whole change of the padding where
it is set, a wrap of the count where it is increased, and the elements that a sequence number adds
to the header. -/
def lag (header : RtpHeader) : Call → ℤ
  | setPadding size => size.toNat - header.paddingLength
  | addPadding size => if 256 ≤ header.paddingLength + size.toNat then -256 else 0
  | setTwccSequenceNumber _ =>
    if header.extensions.twcc.isSome then 0
    else if header.extensions.audioLevel.isSome then 4 else 8
  | nbBytes => 0

/-- The sum of it over some calls. -/
def lags (map : ExtensionMap) : RtpHeader → List Call → ℤ
  | _, [] => 0
  | header, call :: rest => call.lag header + lags map (call.runHeader map header) rest

/-- The sum of it over the calls after the first `nb_bytes`. -/
def totalLag (map : ExtensionMap) : RtpHeader → List Call → ℤ
  | _, [] => 0
  | header, nbBytes :: rest => lags map header rest
  | header, call :: rest => totalLag map (call.runHeader map header) rest

end Call

/-- The packet after some calls. -/
def SrsRtpPacket.after (map : ExtensionMap) (pkt : SrsRtpPacket) (calls : List Call) :
    SrsRtpPacket :=
  calls.foldl (Call.run map) pkt

/-! ## The size -/

/-- The size of the packet as it is. -/
def SrsRtpPacket.size (pkt : SrsRtpPacket) : ℕ :=
  pkt.header.nbBytes + pkt.nnPayload + pkt.header.paddingLength

section Sizes

variable {map : ExtensionMap} {pkt : SrsRtpPacket} {header : RtpHeader} {call : Call}

theorem len_mod_four (n : ℕ) : (n + paddingCount n) % 4 = 0 := by
  unfold paddingCount
  by_cases h : n % 4 = 0
  · rw [if_pos h]
    omega
  · rw [if_neg h]
    omega

theorem Extensions.nbBytes_eq (ext : Extensions) : ext.nbBytes = 4 + ext.len := by
  unfold Extensions.nbBytes Extensions.len paddingCount
  rw [Nat.add_mod_left]
  omega

theorem length_headerToBytes (h : header.csrc.length = header.cc) :
    header.toBytes.length = header.nbBytes := by
  have hcsrc : ((header.csrc.take header.cc).flatMap (bytesBE 4)).length = 4 * header.cc := by
    rw [← h, List.take_length, List.length_flatMap]
    simp [Nat.mul_comm]
  have hext : header.extensions.headerBytes.length =
      if header.extensions.hasExt then header.extensions.nbBytes else 0 := by
    unfold Extensions.headerBytes
    by_cases hext : header.extensions.hasExt = true
    · rw [if_pos hext, if_pos hext, Extensions.nbBytes_eq, Extensions.toBytes,
        List.length_append, List.length_append, length_elements, length_bytesBE, length_bytesBE]
      omega
    · rw [if_neg hext, if_neg hext]
      rfl
  simp only [RtpHeader.toBytes, List.length_append, length_bytesBE, hcsrc, hext,
    RtpHeader.nbBytes, rtpHeaderFixedSize]
  omega

/-- The number of bytes that `encode` writes. -/
theorem length_toBytes (h : pkt.header.csrc.length = pkt.header.cc) :
    pkt.toBytes.length = pkt.size := by
  have hpayload : pkt.payloadBytes.length = pkt.nnPayload := by
    unfold SrsRtpPacket.payloadBytes SrsRtpPacket.nnPayload
    cases pkt.payload with
    | none => rfl
    | some p => exact Payloader.length_toBytes p
  rw [SrsRtpPacket.toBytes, List.length_append, List.length_append, length_headerToBytes h,
    hpayload, SrsRtpPacket.paddingBytes, List.length_replicate, SrsRtpPacket.size]
  omega

theorem Built.runHeader (h : Built map header) (call : Call) :
    Built map (call.runHeader map header) := by
  have hpadding : ∀ v : ℤ, Built map (header.setPadding v) := by
    intro v
    have hlt : (v % 256).toNat < 256 := by omega
    exact { h with paddingLength := hlt }
  cases call with
  | setPadding size => exact hpadding _
  | addPadding size => exact hpadding _
  | setTwccSequenceNumber sn =>
    refine { h with hasExt := rfl, twcc := ?_ }
    intro e he
    obtain rfl := Option.some.inj he
    exact ⟨rfl, sn.toNat_lt⟩
  | nbBytes => exact h

/-- A call changes the header as it does without the rest of the packet, and keeps the payload. -/
theorem run_header (map : ExtensionMap) (pkt : SrsRtpPacket) (call : Call) :
    (call.run map pkt).header = call.runHeader map pkt.header ∧
      (call.run map pkt).payload = pkt.payload := by
  cases call with
  | setPadding size =>
    unfold Call.run SrsRtpPacket.setPadding
    by_cases hzero : pkt.cachedPayloadSize ≠ 0
    · exact ⟨by simp [hzero, Call.runHeader], by simp [hzero]⟩
    · exact ⟨by simp [hzero, Call.runHeader], by simp [hzero]⟩
  | addPadding size =>
    unfold Call.run SrsRtpPacket.addPadding
    by_cases hzero : pkt.cachedPayloadSize ≠ 0
    · exact ⟨by simp [hzero, Call.runHeader], by simp [hzero]⟩
    · exact ⟨by simp [hzero, Call.runHeader], by simp [hzero]⟩
  | setTwccSequenceNumber sn => exact ⟨rfl, rfl⟩
  | nbBytes =>
    unfold Call.run SrsRtpPacket.nbBytes
    by_cases hzero : pkt.cachedPayloadSize = 0
    · exact ⟨by simp [hzero, Call.runHeader], by simp [hzero]⟩
    · exact ⟨by simp [hzero, Call.runHeader], by simp [hzero]⟩

/-- What a sequence number adds to the header. -/
theorem nbBytes_setTwccSequenceNumber (h : Built map header) (sn : UInt16) :
    ((header.setTwccSequenceNumber map.twccId.id sn.toNat).nbBytes : ℤ) =
      header.nbBytes + Call.lag header (.setTwccSequenceNumber sn) := by
  have hext := h.hasExt
  unfold Call.lag RtpHeader.nbBytes RtpHeader.setTwccSequenceNumber
    Extensions.setTwccSequenceNumber Extensions.nbBytes Extensions.elementBytes paddingCount
  simp only [hext]
  cases header.extensions.twcc with
  | some e =>
    cases header.extensions.audioLevel with
    | some e => simp
    | none => simp
  | none =>
    cases header.extensions.audioLevel with
    | some e => simp; omega
    | none => simp

/-- A call on a packet that keeps its size leaves it behind by the lag of the call. -/
theorem run_cached (h : Built map pkt.header) (hkept : 0 < pkt.cachedPayloadSize) (call : Call) :
    0 < (call.run map pkt).cachedPayloadSize ∧
      ((call.run map pkt).size : ℤ) - (call.run map pkt).cachedPayloadSize =
        pkt.size - pkt.cachedPayloadSize + call.lag pkt.header := by
  have hne : pkt.cachedPayloadSize ≠ 0 := hkept.ne'
  have hpadding := h.paddingLength
  cases call with
  | setPadding size =>
    have hsize : size.toNat < 256 := size.toNat_lt
    have hmod : (((size.toNat : ℤ) % 256).toNat : ℤ) = size.toNat := by omega
    have hrun : Call.run map pkt (.setPadding size) = { pkt with
        header := pkt.header.setPadding size.toNat } := by
      show pkt.setPadding size.toNat = _
      unfold SrsRtpPacket.setPadding
      rw [if_pos hne]
      simp only [RtpHeader.setPadding, hmod, sub_self, add_zero]
    rw [hrun]
    refine ⟨hkept, ?_⟩
    show ((pkt.header.nbBytes + pkt.nnPayload + ((size.toNat : ℤ) % 256).toNat : ℕ) : ℤ) -
        pkt.cachedPayloadSize =
      (pkt.header.nbBytes + pkt.nnPayload + pkt.header.paddingLength : ℕ) -
        pkt.cachedPayloadSize + ((size.toNat : ℤ) - pkt.header.paddingLength)
    omega
  | addPadding size =>
    have hsize : size.toNat < 256 := size.toNat_lt
    have hrun : Call.run map pkt (.addPadding size) = { pkt with
        header := pkt.header.setPadding (pkt.header.paddingLength + size.toNat)
        cachedPayloadSize := pkt.cachedPayloadSize + size.toNat } := by
      show pkt.addPadding size.toNat = _
      unfold SrsRtpPacket.addPadding
      rw [if_pos hne]
    rw [hrun]
    refine ⟨by show 0 < pkt.cachedPayloadSize + (size.toNat : ℤ); omega, ?_⟩
    show ((pkt.header.nbBytes + pkt.nnPayload +
        ((pkt.header.paddingLength + size.toNat : ℤ) % 256).toNat : ℕ) : ℤ) -
          (pkt.cachedPayloadSize + size.toNat) =
      (pkt.header.nbBytes + pkt.nnPayload + pkt.header.paddingLength : ℕ) -
        pkt.cachedPayloadSize + if 256 ≤ pkt.header.paddingLength + size.toNat then -256 else 0
    -- the count wraps at most once
    by_cases hwrap : 256 ≤ pkt.header.paddingLength + size.toNat
    · rw [if_pos hwrap]
      omega
    · rw [if_neg hwrap]
      omega
  | setTwccSequenceNumber sn =>
    refine ⟨hkept, ?_⟩
    have hgrow := nbBytes_setTwccSequenceNumber h sn
    show (((pkt.header.setTwccSequenceNumber map.twccId.id sn.toNat).nbBytes + pkt.nnPayload +
        pkt.header.paddingLength : ℕ) : ℤ) - pkt.cachedPayloadSize =
      (pkt.header.nbBytes + pkt.nnPayload + pkt.header.paddingLength : ℕ) -
        pkt.cachedPayloadSize + Call.lag pkt.header (.setTwccSequenceNumber sn)
    omega
  | nbBytes =>
    have hrun : Call.run map pkt .nbBytes = pkt := by
      show pkt.nbBytes.2 = pkt
      unfold SrsRtpPacket.nbBytes
      rw [if_neg hne]
    rw [hrun]
    exact ⟨hkept, (add_zero _).symm⟩

theorem after_cached (h : Built map pkt.header) (hkept : 0 < pkt.cachedPayloadSize)
    (calls : List Call) :
    0 < (pkt.after map calls).cachedPayloadSize ∧
      ((pkt.after map calls).size : ℤ) - (pkt.after map calls).cachedPayloadSize =
        pkt.size - pkt.cachedPayloadSize + Call.lags map pkt.header calls := by
  induction calls generalizing pkt with
  | nil => exact ⟨hkept, (add_zero _).symm⟩
  | cons call rest ih =>
    obtain ⟨hkept', hstep⟩ := run_cached h hkept call
    have hheader := (run_header map pkt call).1
    obtain ⟨hpos, hrest⟩ := ih (by rw [hheader]; exact h.runHeader call) hkept'
    refine ⟨hpos, ?_⟩
    rw [hheader] at hrest
    show (((call.run map pkt).after map rest).size : ℤ) -
      ((call.run map pkt).after map rest).cachedPayloadSize = _
    rw [hrest, hstep, Call.lags]
    omega

/-- The size that is said after some calls is behind by what they add up to after the first time
it was asked for. -/
theorem nbBytes_after (h : Built map header) (payload : Option Payloader) (calls : List Call) :
    (((SrsRtpPacket.new header payload).after map calls).nbBytes.1 : ℤ) =
      ((SrsRtpPacket.new header payload).after map calls).size - Call.totalLag map header calls := by
  have hunasked : ∀ header' : RtpHeader, (SrsRtpPacket.new header' payload).nbBytes =
      (((SrsRtpPacket.new header' payload).size : ℤ),
        ⟨header', payload, (SrsRtpPacket.new header' payload).size⟩) := by
    intro header'
    have hsize : ((SrsRtpPacket.new header' payload).size : ℤ) = header'.nbBytes +
        (SrsRtpPacket.new header' payload).nnPayload + header'.paddingLength := by
      push_cast [SrsRtpPacket.size]
      rfl
    rw [hsize]
    rfl
  induction calls generalizing header with
  | nil =>
    show ((SrsRtpPacket.new header payload).nbBytes).1 = _
    rw [hunasked]
    exact (sub_zero _).symm
  | cons call rest ih =>
    have hnext := ih (h.runHeader call)
    cases call with
    | setPadding size => exact hnext
    | addPadding size => exact hnext
    | setTwccSequenceNumber sn => exact hnext
    | nbBytes =>
      -- from here on the size is kept
      obtain ⟨kept, hkept⟩ : ∃ kept, kept = (SrsRtpPacket.new header payload).nbBytes.2 :=
        ⟨_, rfl⟩
      have hcached : kept.cachedPayloadSize = (SrsRtpPacket.new header payload).size := by
        rw [hkept, hunasked]
      have hheader : kept.header = header := by
        rw [hkept, hunasked]
      have hsize : kept.size = (SrsRtpPacket.new header payload).size := by
        rw [hkept, hunasked]
        rfl
      have hpos : 0 < kept.cachedPayloadSize := by
        have hfixed : 12 ≤ header.nbBytes := by
          unfold RtpHeader.nbBytes rtpHeaderFixedSize
          omega
        rw [hcached]
        show (0 : ℤ) < (header.nbBytes + _ + _ : ℕ)
        omega
      obtain ⟨hafter, hlag⟩ := @after_cached map kept (hheader.symm ▸ h) hpos rest
      show (((SrsRtpPacket.new header payload).nbBytes.2.after map rest).nbBytes).1 =
        (((SrsRtpPacket.new header payload).nbBytes.2.after map rest).size : ℤ) -
          Call.lags map header rest
      rw [← hkept]
      have hsaid : (kept.after map rest).nbBytes.1 =
          (kept.after map rest).cachedPayloadSize := by
        unfold SrsRtpPacket.nbBytes
        rw [if_neg hafter.ne']
      rw [hsaid]
      rw [hheader] at hlag
      omega

end Sizes

end SrsChatRoom.Kernel.Rtp
