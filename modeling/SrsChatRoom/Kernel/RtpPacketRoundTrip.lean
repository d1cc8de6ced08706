import SrsChatRoom.Kernel.RtpPacket

/-!
# RTP packets, written and read back (`srs_kernel_rtc_rtp.cpp`)

`decodeHeader_toBytes` says that the header of a packet that `encode` wrote is read back, unless
the two extensions have one id, and `decodePayload_toBytes` what comes back of its payload. With
the size of `nbBytes_after` they give `size_and_contents_iff`: when `nb_bytes` is the number of
bytes that are written, and decoding these gives back the packet.
-/

namespace SrsChatRoom.Kernel.Rtp

open SrsBuffer
open SrsChatRoom.Prog (ok_of_bind_ok read_apply bind_ok bind_err)
open List (append_assoc drop_left drop_left' flatMap_cons length_append take_left take_left')

/-- The decoder with the extension map of the sender, which decodes the transport sequence number
and does not ignore padding. -/
def ExtensionMap.config (map : ExtensionMap) (handler : Option (ℕ → TrackKind)) : Config where
  types := some map.types
  decodeTwccExtension := true
  ignorePadding := false
  decodeHandler := handler

/-- The two extensions can be told apart, or the audio level is not used. -/
def Distinct (map : ExtensionMap) (header : RtpHeader) : Prop :=
  header.extensions.audioLevel.isSome = true → map.twccId.id ≠ map.audioLevelId.id

/-! ## The extensions -/

section Extensions

variable {map : ExtensionMap} {handler : Option (ℕ → TrackKind)} {r : List UInt8}
  {ext ext' : Extensions}

theorem bytesBE_one (v : ℕ) : bytesBE 1 v = [UInt8.ofNat v] := by
  simp [bytesBE]

/-- The first byte of an element. -/
theorem elementByte (id : ExtensionId) {len : ℕ} (hlen : len < 2) :
    UInt8.ofNat ((id.id &&& 0x0F) <<< 4 ||| len) ≠ 0 ∧
      elementId (UInt8.ofNat ((id.id &&& 0x0F) <<< 4 ||| len)).toNat = id.id ∧
      elementLen (UInt8.ofNat ((id.id &&& 0x0F) <<< 4 ||| len)).toNat = len := by
  have hall : ∀ i < 15, 1 ≤ i → ∀ l < 2, UInt8.ofNat ((i &&& 0x0F) <<< 4 ||| l) ≠ 0 ∧
      elementId (UInt8.ofNat ((i &&& 0x0F) <<< 4 ||| l)).toNat = i ∧
      elementLen (UInt8.ofNat ((i &&& 0x0F) <<< 4 ||| l)).toNat = l := by decide
  exact hall id.id (Nat.lt_succ_of_le id.high) id.low len hlen

theorem accepts_zeros_iff (n : ℕ) (cfg : Config) :
    Accepts cfg (List.replicate n 0) ext ext' ↔ ext = ext' := by
  induction n with
  | zero => exact accepts_nil_iff
  | succ n ih =>
    rw [List.replicate_succ, accepts_zero_iff]
    exact ih

theorem accepts_twccBytes_iff {e : Element} (hid : e.id = map.twccId.id)
    (hvalue : e.value < 256 ^ 2) :
    Accepts (map.config handler)
        (bytesBE 1 ((e.id &&& 0x0F) <<< 4 ||| 0x01) ++ bytesBE 2 e.value ++ r) ext ext' ↔
      Accepts (map.config handler) r { ext with twcc := some e, hasExt := true } ext' := by
  obtain ⟨hv, helementId, helementLen⟩ := @elementByte map.twccId 1 (by decide)
  rw [← hid] at hv helementId helementLen
  have htype : (map.config handler).typeOf
      (elementId (UInt8.ofNat ((e.id &&& 0x0F) <<< 4 ||| 0x01)).toNat) =
      .transportSequenceNumber := by
    rw [helementId, hid]
    exact if_pos rfl
  have hread : ofBytesBE (bytesBE 2 e.value) = e.value := by
    rw [ofBytesBE_bytesBE, Nat.mod_eq_of_lt hvalue]
  have hzero : e.id ≠ 0 := by
    rw [hid]
    exact Nat.one_le_iff_ne_zero.mp map.twccId.low
  rw [bytesBE_one, append_assoc, List.singleton_append, accepts_twcc_iff hv htype,
    helementId, helementLen]
  constructor
  · rintro ⟨-, -, hi, lo, r', heq, h⟩
    obtain ⟨hbytes, rfl⟩ := List.append_inj (show bytesBE 2 e.value ++ r = [hi, lo] ++ r' from heq)
      (by rw [length_bytesBE]; rfl)
    rwa [← hbytes, hread] at h
  · intro h
    refine ⟨hzero, rfl, _, _, r, rfl, ?_⟩
    show Accepts _ r { ext with
      twcc := some ⟨e.id, ofBytesBE (bytesBE 2 e.value)⟩, hasExt := true } ext'
    rwa [hread]

theorem accepts_audioLevelBytes_iff {e : Element} (hid : e.id = map.audioLevelId.id)
    (hvalue : e.value < 256 ^ 1) (n : ℕ) :
    Accepts (map.config handler)
        (bytesBE 1 ((e.id &&& 0x0F) <<< 4 ||| 0x00) ++ bytesBE 1 e.value ++ List.replicate n 0)
        ext ext' ↔
      map.twccId.id ≠ map.audioLevelId.id ∧
        { ext with audioLevel := some e, hasExt := true } = ext' := by
  obtain ⟨hv, helementId, helementLen⟩ := @elementByte map.audioLevelId 0 (by decide)
  rw [← hid] at hv helementId helementLen
  have hread : (UInt8.ofNat e.value).toNat = e.value := by
    rw [UInt8.toNat_ofNat']
    exact Nat.mod_eq_of_lt hvalue
  have hzero : e.id ≠ 0 := by
    rw [hid]
    exact Nat.one_le_iff_ne_zero.mp map.audioLevelId.low
  rw [bytesBE_one, bytesBE_one, append_assoc, List.singleton_append, List.singleton_append]
  by_cases hsame : map.twccId.id = map.audioLevelId.id
  · -- the length is not that of a transport sequence number
    have htype : (map.config handler).typeOf
        (elementId (UInt8.ofNat ((e.id &&& 0x0F) <<< 4 ||| 0x00)).toNat) =
        .transportSequenceNumber := by
      rw [helementId, hid, ← hsame]
      exact if_pos rfl
    rw [accepts_twcc_iff hv htype, helementLen]
    exact iff_of_false (fun h => absurd h.2.1 (by decide)) fun h => h.1 hsame
  · have htype : (map.config handler).typeOf
        (elementId (UInt8.ofNat ((e.id &&& 0x0F) <<< 4 ||| 0x00)).toNat) = .audioLevel := by
      rw [helementId, hid]
      exact (if_neg hsame).trans (if_pos rfl)
    rw [accepts_audioLevel_iff hv htype, helementId, helementLen]
    constructor
    · rintro ⟨-, -, level, r', heq, h⟩
      obtain ⟨rfl, rfl⟩ := List.cons.inj heq
      rw [accepts_zeros_iff, hread] at h
      exact ⟨hsame, h⟩
    · rintro ⟨-, h⟩
      refine ⟨hzero, rfl, _, _, rfl, ?_⟩
      rw [accepts_zeros_iff, hread]
      exact h

/-- The elements set what was written, if their ids differ. -/
theorem accepts_elements_iff {header : RtpHeader} (h : Built map header)
    (hext : header.extensions.hasExt = true) :
    Accepts (map.config handler) header.extensions.elements Extensions.new ext' ↔
      Distinct map header ∧ header.extensions = ext' := by
  have hflag := h.hasExt
  have heta : ∀ twcc audioLevel, header.extensions.twcc = twcc →
      header.extensions.audioLevel = audioLevel →
      header.extensions = ⟨true, twcc, audioLevel⟩ := by
    rintro twcc audioLevel rfl rfl
    rw [← hext]
  rw [hext] at hflag
  unfold Distinct Extensions.elements
  cases htwcc : header.extensions.twcc with
  | some e =>
    obtain ⟨hid, hvalue⟩ := h.twcc e htwcc
    cases haudio : header.extensions.audioLevel with
    | some level =>
      obtain ⟨hid', hvalue'⟩ := h.audioLevel level haudio
      rw [heta _ _ htwcc haudio]
      refine (accepts_twccBytes_iff hid hvalue).trans ?_
      rw [accepts_audioLevelBytes_iff hid' hvalue']
      exact ⟨fun h => ⟨fun _ => h.1, h.2⟩, fun h => ⟨h.1 rfl, h.2⟩⟩
    | none =>
      rw [heta _ _ htwcc haudio]
      refine (accepts_twccBytes_iff hid hvalue).trans ?_
      rw [List.nil_append, accepts_zeros_iff]
      exact ⟨fun h => ⟨fun hnone => absurd hnone (by decide), h⟩, fun h => h.2⟩
  | none =>
    cases haudio : header.extensions.audioLevel with
    | some level =>
      obtain ⟨hid', hvalue'⟩ := h.audioLevel level haudio
      rw [heta _ _ htwcc haudio]
      refine (accepts_audioLevelBytes_iff hid' hvalue' _).trans ?_
      exact ⟨fun h => ⟨fun _ => h.1, h.2⟩, fun h => ⟨h.1 rfl, h.2⟩⟩
    | none =>
      rw [htwcc, haudio] at hflag
      cases hflag

end Extensions

/-! ## The header -/

section Header

variable {map : ExtensionMap} {handler : Option (ℕ → TrackKind)} {header : RtpHeader}
  {tail : List UInt8}

/-- The bits of the first byte. -/
theorem first_bits (h : header.cc ≤ 15) :
    (UInt8.ofNat header.first).toNat % 16 = header.cc ∧
      ((UInt8.ofNat header.first).toNat / 16 % 2 = 1 ↔ header.extensions.hasExt = true) ∧
      ((UInt8.ofNat header.first).toNat / 32 % 2 = 1 ↔ 0 < header.paddingLength) := by
  have hall : ∀ cc < 16, ∀ padding ext : Bool,
      let v := 0x80 ||| cc
      let v := if padding then v ||| 0x20 else v
      let v := if ext then v ||| 0x10 else v
      (UInt8.ofNat v).toNat % 16 = cc ∧ ((UInt8.ofNat v).toNat / 16 % 2 = 1 ↔ ext = true) ∧
        ((UInt8.ofNat v).toNat / 32 % 2 = 1 ↔ padding = true) := by decide
  have hfirst : header.first =
      (let v := 0x80 ||| header.cc
       let v := if decide (0 < header.paddingLength) then v ||| 0x20 else v
       if header.extensions.hasExt then v ||| 0x10 else v) := by
    unfold RtpHeader.first
    simp only [decide_eq_true_eq]
  obtain ⟨hcc, hext, hpadding⟩ := hall header.cc (Nat.lt_succ_of_le h)
    (decide (0 < header.paddingLength)) header.extensions.hasExt
  rw [hfirst]
  exact ⟨hcc, hext, hpadding.trans decide_eq_true_iff⟩

/-- The bits of the second one. -/
theorem second_bits (h : header.payloadType ≤ 127) :
    decide ((UInt8.ofNat header.second).toNat / 128 = 1) = header.marker ∧
      (UInt8.ofNat header.second).toNat % 128 = header.payloadType := by
  have hall : ∀ payloadType < 128, ∀ marker : Bool,
      let v := if marker then payloadType ||| kRtpMarker else payloadType
      decide ((UInt8.ofNat v).toNat / 128 = 1) = marker ∧
        (UInt8.ofNat v).toNat % 128 = payloadType := by decide +kernel
  exact hall header.payloadType (Nat.lt_succ_of_le h) header.marker

theorem uintAt_append (pre data post : List UInt8) :
    uintAt (pre ++ (data ++ post)) pre.length data.length = ofBytesBE data := by
  unfold uintAt
  rw [drop_left, take_left]

/-- The list of contributing sources is read back. -/
theorem csrcs_at (pre : List UInt8) (csrcs : List ℕ) (hcsrcs : ∀ csrc ∈ csrcs, csrc < 256 ^ 4)
    (post : List UInt8) :
    ((List.range csrcs.length).map fun i =>
        uintAt (pre ++ (csrcs.flatMap (bytesBE 4) ++ post)) (pre.length + 4 * i) 4) = csrcs := by
  induction csrcs generalizing pre with
  | nil => rfl
  | cons csrc rest ih =>
    have hhead : uintAt (pre ++ (((csrc :: rest).flatMap (bytesBE 4)) ++ post)) pre.length 4 =
        csrc := by
      rw [flatMap_cons, append_assoc]
      refine (uintAt_append pre (bytesBE 4 csrc) _).trans ?_
      rw [ofBytesBE_bytesBE, Nat.mod_eq_of_lt (hcsrcs csrc List.mem_cons_self)]
    have hrest := ih (pre ++ bytesBE 4 csrc) fun c hc => hcsrcs c (List.mem_cons_of_mem _ hc)
    have hpre : (pre ++ bytesBE 4 csrc).length = pre.length + 4 := by
      rw [length_append, length_bytesBE]
    rw [hpre] at hrest
    rw [List.length_cons, List.range_succ_eq_map, List.map_cons, List.map_map, Nat.mul_zero,
      Nat.add_zero, hhead]
    refine congrArg (csrc :: ·) (Eq.trans ?_ hrest)
    apply List.map_congr_left
    intro i _
    show uintAt _ (pre.length + 4 * (i + 1)) 4 = uintAt _ (pre.length + 4 + 4 * i) 4
    rw [flatMap_cons, append_assoc, append_assoc,
      show pre.length + 4 * (i + 1) = pre.length + 4 + 4 * i by omega]

/-- The fixed part of a header with what is behind it. -/
def fixedBytes (header : RtpHeader) : List UInt8 :=
  [UInt8.ofNat header.first, UInt8.ofNat header.second] ++ (bytesBE 2 header.sequence ++
    (bytesBE 4 header.timestamp ++ bytesBE 4 header.ssrc))

theorem toBytes_append (header : RtpHeader) (tail : List UInt8) :
    header.toBytes ++ tail = fixedBytes header ++
      ((header.csrc.take header.cc).flatMap (bytesBE 4) ++
        (header.extensions.headerBytes ++ tail)) := by
  simp only [RtpHeader.toBytes, fixedBytes, bytesBE_one, append_assoc, List.cons_append,
    List.nil_append]

/-- The fields of the header are read back. -/
theorem headerWith_toBytes (h : Built map header) (tail : List UInt8) :
    headerWith (header.toBytes ++ tail) header.extensions header.paddingLength = header := by
  obtain ⟨hcc, -, -⟩ := first_bits h.cc
  obtain ⟨hmarker, hpayloadType⟩ := second_bits h.payloadType
  have hfirst : firstByte (header.toBytes ++ tail) = (UInt8.ofNat header.first).toNat := by
    rw [toBytes_append]
    rfl
  have hsecond : uintAt (header.toBytes ++ tail) 1 1 = (UInt8.ofNat header.second).toNat := by
    rw [toBytes_append]
    refine (uintAt_append [UInt8.ofNat header.first] [UInt8.ofNat header.second] _).trans ?_
    simp [ofBytesBE]
  have hsequence : uintAt (header.toBytes ++ tail) 2 2 = header.sequence := by
    rw [toBytes_append, fixedBytes, append_assoc, append_assoc]
    refine (uintAt_append [_, _] (bytesBE 2 header.sequence) _).trans ?_
    rw [ofBytesBE_bytesBE, Nat.mod_eq_of_lt h.sequence]
  have htimestamp : uintAt (header.toBytes ++ tail) 4 4 = header.timestamp := by
    rw [toBytes_append, fixedBytes, ← append_assoc _ (bytesBE 2 _), append_assoc,
      append_assoc (bytesBE 4 _)]
    refine (uintAt_append (_ ++ bytesBE 2 header.sequence) (bytesBE 4 header.timestamp) _).trans ?_
    rw [ofBytesBE_bytesBE, Nat.mod_eq_of_lt h.timestamp]
  have hssrc : uintAt (header.toBytes ++ tail) 8 4 = header.ssrc := by
    rw [toBytes_append, fixedBytes, ← append_assoc _ (bytesBE 2 _),
      ← append_assoc _ (bytesBE 4 _), append_assoc]
    refine (uintAt_append (_ ++ bytesBE 2 header.sequence ++ bytesBE 4 header.timestamp)
      (bytesBE 4 header.ssrc) _).trans ?_
    rw [ofBytesBE_bytesBE, Nat.mod_eq_of_lt h.ssrc]
  have hcsrc : ((List.range header.cc).map fun i =>
      uintAt (header.toBytes ++ tail) (12 + 4 * i) 4) = header.csrc := by
    have hat := csrcs_at (fixedBytes header) header.csrc h.csrc.2
      (header.extensions.headerBytes ++ tail)
    rw [h.csrc.1] at hat
    rw [toBytes_append, ← h.csrc.1, List.take_length, h.csrc.1]
    exact hat
  unfold headerWith
  rw [hfirst, hcc, hsecond, hmarker, hpayloadType, hsequence, htimestamp, hssrc, hcsrc]

theorem len_le (ext : Extensions) : ext.len ≤ 8 := by
  unfold Extensions.len paddingCount Extensions.elementBytes
  cases ext.twcc.isSome with
  | true =>
    cases ext.audioLevel.isSome with
    | true => decide
    | false => decide
  | false =>
    cases ext.audioLevel.isSome with
    | true => decide
    | false => decide

theorem areaSizeOf_toBytes (ext : Extensions) (tail : List UInt8) :
    areaSizeOf (ext.toBytes ++ tail) = ext.len := by
  have hlen := len_le ext
  have hfour := len_mod_four ext.elementBytes
  rw [areaSizeOf, Extensions.toBytes, append_assoc, drop_left' (length_bytesBE 2 _),
    append_assoc, take_left' (length_bytesBE 2 _), ofBytesBE_bytesBE]
  unfold Extensions.len at hlen ⊢
  omega

theorem length_extensionToBytes (ext : Extensions) : ext.toBytes.length = 4 + ext.len := by
  rw [Extensions.toBytes, length_append, length_append, length_elements,
    length_bytesBE, length_bytesBE]
  omega

/-- The header extension is read back. -/
theorem extends_toBytes_iff (h : Built map header) (hext : header.extensions.hasExt = true)
    (ext' : Extensions) :
    Extends (map.config handler) (header.extensions.toBytes ++ tail) ext' ↔
      Distinct map header ∧ header.extensions = ext' := by
  have hprofile : profileOf (header.extensions.toBytes ++ tail) = 0xBEDE := by
    rw [profileOf, Extensions.toBytes, append_assoc, take_left' (length_bytesBE 2 _)]
    rfl
  have helements : ((header.extensions.toBytes ++ tail).drop 4).take header.extensions.len =
      header.extensions.elements := by
    have hdrop : (header.extensions.toBytes ++ tail).drop 4 =
        header.extensions.elements ++ tail := by
      rw [Extensions.toBytes, ← append_assoc (bytesBE 2 0xBEDE), append_assoc]
      exact drop_left' (by rw [length_append, length_bytesBE, length_bytesBE])
    rw [hdrop]
    exact take_left' (length_elements _)
  have hfits : 4 + header.extensions.len ≤ (header.extensions.toBytes ++ tail).length := by
    rw [length_append, length_extensionToBytes]
    omega
  unfold Extends
  rw [hprofile, areaSizeOf_toBytes, helements, accepts_elements_iff h hext]
  constructor
  · rintro ⟨-, ⟨-, haccepts⟩ | ⟨happ, -⟩⟩
    · exact haccepts
    · exact absurd happ (by decide)
  · exact fun haccepts => ⟨hfits, Or.inl ⟨rfl, haccepts⟩⟩

/-- The padding is read back. -/
theorem paddingIs_replicate_iff (hpadding : header.paddingLength < 256) (pre : List UInt8) (n : ℕ)
    {p : ℕ} (hp : p ≤ pre.length) :
    PaddingIs (map.config handler) (0 < header.paddingLength)
        (pre ++ List.replicate header.paddingLength (UInt8.ofNat header.paddingLength)) p n ↔
      n = header.paddingLength := by
  unfold PaddingIs
  by_cases hzero : 0 < header.paddingLength
  · obtain ⟨k, hk⟩ := Nat.exists_eq_succ_of_ne_zero hzero.ne'
    have hlength : (pre ++ List.replicate header.paddingLength
        (UInt8.ofNat header.paddingLength)).length = pre.length + header.paddingLength := by
      rw [length_append, List.length_replicate]
    have hlast : (pre ++ List.replicate header.paddingLength
        (UInt8.ofNat header.paddingLength)).getLast? = some (UInt8.ofNat header.paddingLength) := by
      rw [List.getLast?_append, List.getLast?_replicate, if_neg hzero.ne']
      rfl
    have hvalue : (UInt8.ofNat header.paddingLength).toNat = header.paddingLength := by
      rw [UInt8.toNat_ofNat']
      exact Nat.mod_eq_of_lt hpadding
    rw [if_pos ⟨decide_eq_true hzero, rfl, by omega⟩, hlast, hlength]
    simp only [Option.getD_some, hvalue]
    omega
  · rw [if_neg fun h => hzero (of_decide_eq_true h.1)]
    omega

/-- The header is read back, if the ids differ. -/
theorem decodeHeader_toBytes (h : Built map header) (payload : List UInt8) (header' : RtpHeader)
    (b' : SrsBuffer) {bytes : List UInt8}
    (hbytes : bytes = header.toBytes ++ (payload ++
      List.replicate header.paddingLength (UInt8.ofNat header.paddingLength))) :
    decodeHeader (map.config handler) ⟨bytes, 0⟩ = .ok header' b' ↔
      Distinct map header ∧ header' = header ∧ b' = ⟨bytes, header.toBytes.length⟩ := by
  obtain ⟨hcc, hextBit, hpaddingBit⟩ := first_bits h.cc
  have hfirst : firstByte bytes = (UInt8.ofNat header.first).toNat := by
    rw [hbytes, toBytes_append]
    rfl
  have hsize : fixedSize bytes = 12 + header.cc * 4 := by
    rw [fixedSize, hfirst, hcc]
    rfl
  have hcsrcs : ((header.csrc.take header.cc).flatMap (bytesBE 4)).length = header.cc * 4 := by
    rw [← h.csrc.1, List.take_length, List.length_flatMap]
    simp
  have hlength : header.toBytes.length = 12 + header.cc * 4 +
      header.extensions.headerBytes.length := by
    have happend := congrArg List.length (toBytes_append header [])
    simp only [List.append_nil, length_append, hcsrcs] at happend
    rw [happend, ← Nat.add_assoc]
    rfl
  have htotal : bytes.length = header.toBytes.length + (payload ++
      List.replicate header.paddingLength (UInt8.ofNat header.paddingLength)).length := by
    rw [hbytes, length_append]
  have hdrop : bytes.drop (fixedSize bytes) = header.extensions.headerBytes ++ (payload ++
      List.replicate header.paddingLength (UInt8.ofNat header.paddingLength)) := by
    rw [hsize, hbytes, toBytes_append, ← append_assoc]
    exact drop_left' (by rw [length_append, hcsrcs]; rfl)
  have hbit : (decide (firstByte bytes / 32 % 2 = 1)) = decide (0 < header.paddingLength) := by
    rw [decide_eq_decide, hfirst]
    exact hpaddingBit
  have hpadding : ∀ n, PaddingIs (map.config handler) (firstByte bytes / 32 % 2 = 1) bytes
      header.toBytes.length n ↔ n = header.paddingLength := by
    intro n
    rw [hbit, hbytes, ← append_assoc]
    exact paddingIs_replicate_iff h.paddingLength _ n (by rw [length_append]; omega)
  have hextensions : ∀ ext p, (if firstByte bytes / 16 % 2 = 1 then
        Extends (map.config handler) (bytes.drop (fixedSize bytes)) ext ∧
          p = fixedSize bytes + (4 + areaSizeOf (bytes.drop (fixedSize bytes)))
      else ext = Extensions.new ∧ p = fixedSize bytes) ↔
        Distinct map header ∧ ext = header.extensions ∧ p = header.toBytes.length := by
    intro ext p
    rw [hdrop]
    by_cases hext : header.extensions.hasExt = true
    · have hheaderBytes : header.extensions.headerBytes = header.extensions.toBytes := if_pos hext
      rw [if_pos (by rw [hfirst]; exact hextBit.mpr hext), hlength, hsize, hheaderBytes,
        areaSizeOf_toBytes, extends_toBytes_iff h hext, length_extensionToBytes]
      exact ⟨fun h => ⟨h.1.1, h.1.2.symm, h.2⟩, fun h => ⟨⟨h.1, h.2.1.symm⟩, h.2.2⟩⟩
    · have hheaderBytes : header.extensions.headerBytes = [] := if_neg hext
      have hnone : header.extensions.hasExt = false := Bool.eq_false_iff.mpr hext
      obtain ⟨htwcc, haudio⟩ : header.extensions.twcc = none ∧
          header.extensions.audioLevel = none := by
        have hflag := h.hasExt
        rw [hnone] at hflag
        simpa using hflag.symm
      have hnew : header.extensions = Extensions.new := by
        show (⟨header.extensions.hasExt, header.extensions.twcc,
          header.extensions.audioLevel⟩ : Extensions) = _
        rw [hnone, htwcc, haudio]
        rfl
      rw [if_neg (by rw [hfirst]; exact fun hbit => hext (hextBit.mp hbit)), hlength, hsize,
        hheaderBytes, hnew]
      have hdistinct : Distinct map header := by
        intro hsome
        rw [haudio] at hsome
        cases hsome
      exact ⟨fun h => ⟨hdistinct, h⟩, fun h => h.2⟩
  have hwith : headerWith bytes header.extensions header.paddingLength = header := by
    rw [hbytes]
    exact headerWith_toBytes h _
  rw [decodeHeader_ok_iff rfl]
  unfold HeaderIs
  constructor
  · rintro ⟨ext, n, p, ⟨-, hext, hpad⟩, rfl, rfl⟩
    obtain ⟨hdistinct, rfl, rfl⟩ := (hextensions ext p).mp hext
    obtain rfl := (hpadding n).mp hpad
    exact ⟨hdistinct, hwith, rfl⟩
  · rintro ⟨hdistinct, rfl, rfl⟩
    exact ⟨_, _, _, ⟨by omega, (hextensions _ _).mpr ⟨hdistinct, rfl, rfl⟩,
      (hpadding _).mpr rfl⟩, hwith.symm, rfl⟩

end Header

/-! ## The payload -/

/-- The decode handler takes the stream for video. -/
def isVideo (handler : Option (ℕ → TrackKind)) (ssrc : ℕ) : Prop :=
  (handler.map fun handler => handler ssrc) = some TrackKind.video

instance (handler : Option (ℕ → TrackKind)) (ssrc : ℕ) : Decidable (isVideo handler ssrc) :=
  inferInstanceAs (Decidable (_ = _))

/-- What the payload is for the decoder: its bytes, and for a video track an aggregation or a
fragment, whose NRI are the upper bits. -/
def Payloader.given (video : Bool) : Payloader → Payload
  | raw payload => .raw payload
  | rawNalus sent => .raw sent.nalus.flatten
  | stap nri nalus =>
    if video then .stap (nri &&& ~~~kNalTypeMask).toNat nalus else .raw (stap nri nalus).toBytes
  | fua fu nalus =>
    if video then
      .fua (fu.nri &&& ~~~kNalTypeMask).toNat fu.start fu.end_ fu.naluType.toNat nalus.flatten
    else .raw (fua fu nalus).toBytes
  | fua2 fu payload =>
    if video then
      .fua (fu.nri &&& ~~~kNalTypeMask).toNat fu.start fu.end_ fu.naluType.toNat payload
    else .raw (fua2 fu payload).toBytes

/-- The bytes are not those of an aggregation or a fragment. -/
def Single (bytes : List UInt8) : Prop :=
  ∀ v ∈ bytes.head?, v.toNat % 32 ≠ kStapA ∧ v.toNat % 32 ≠ kFuA

/-- The decoder of a video track finds the payload in its bytes: the NRI leave the forbidden bit
alone, the samples are shorter than a size that is read as negative, the type of a fragment is one
of the 32, and it is not empty. -/
def Payloader.Readable : Payloader → Prop
  | raw payload => Single payload
  | rawNalus sent => Single sent.nalus.flatten
  | stap nri nalus => nri.toNat < 128 ∧ ∀ p ∈ nalus, p.length < 32768
  | fua fu nalus => fu.naluType.toNat < 32 ∧ nalus.flatten ≠ []
  | fua2 fu payload => fu.naluType.toNat < 32 ∧ payload ≠ []

section Payload

variable {cfg : Config} {b : SrsBuffer} {v : UInt8} {r : List UInt8}

/-- The first byte of an aggregation or a fragment. -/
theorem typedByte (kind : ℕ) (hkind : kind = kStapA ∨ kind = kFuA) (nri : UInt8) :
    (UInt8.ofNat kind ||| (nri &&& ~~~kNalTypeMask)).toNat % 32 = kind ∧
      (UInt8.ofNat kind ||| (nri &&& ~~~kNalTypeMask)).toNat - kind =
        (nri &&& ~~~kNalTypeMask).toNat ∧
      ((UInt8.ofNat kind ||| (nri &&& ~~~kNalTypeMask)).toNat / 128 = 1 ↔
        128 ≤ nri.toNat) := by
  have hall : ∀ kind ∈ [kStapA, kFuA], ∀ n < 256,
      (UInt8.ofNat kind ||| (UInt8.ofNat n &&& ~~~kNalTypeMask)).toNat % 32 = kind ∧
        (UInt8.ofNat kind ||| (UInt8.ofNat n &&& ~~~kNalTypeMask)).toNat - kind =
          (UInt8.ofNat n &&& ~~~kNalTypeMask).toNat ∧
        ((UInt8.ofNat kind ||| (UInt8.ofNat n &&& ~~~kNalTypeMask)).toNat / 128 = 1 ↔
          128 ≤ n) := by decide +kernel
  have hnri := hall kind (by simpa using hkind) nri.toNat nri.toNat_lt
  rwa [UInt8.ofNat_toNat] at hnri

/-- The header of a fragment. -/
theorem fuHeader_bits (fu : FuFields) (h : fu.naluType.toNat < 32) :
    decide (fu.header.toNat / 128 = 1) = fu.start ∧
      decide (fu.header.toNat / 64 % 2 = 1) = fu.end_ ∧
      fu.header.toNat % 32 = fu.naluType.toNat := by
  have hall : ∀ n < 32, ∀ start end_ : Bool,
      decide ((FuFields.header ⟨0, start, end_, UInt8.ofNat n⟩).toNat / 128 = 1) = start ∧
        decide ((FuFields.header ⟨0, start, end_, UInt8.ofNat n⟩).toNat / 64 % 2 = 1) = end_ ∧
        (FuFields.header ⟨0, start, end_, UInt8.ofNat n⟩).toNat % 32 = n := by decide +kernel
  have hfu := hall fu.naluType.toNat h fu.start fu.end_
  rwa [UInt8.ofNat_toNat] at hfu

/-- The samples of an aggregation are read back if their sizes are read as positive. -/
theorem decodeNalus_sized_iff (nalus : List (List UInt8)) (fuel : ℕ) (hpos : b.pos ≤ b.bytes.length)
    (hrest : b.rest = nalus.flatMap Payloader.sized) (hfuel : nalus.length < fuel) :
    (∃ b', decodeNalus fuel b = .ok nalus b') ↔ ∀ p ∈ nalus, p.length < 32768 := by
  induction nalus generalizing b fuel with
  | nil =>
    obtain ⟨fuel, rfl⟩ := Nat.exists_eq_succ_of_ne_zero (Nat.ne_of_gt hfuel)
    have hempty : b.empty = true := by
      rw [empty_eq, hrest]
      rfl
    refine iff_of_true ⟨b, ?_⟩ fun p hp => absurd hp List.not_mem_nil
    rw [decodeNalus, bind_ok (read_apply _ _), if_pos hempty]
    rfl
  | cons p nalus ih =>
    obtain ⟨fuel, rfl⟩ := Nat.exists_eq_succ_of_ne_zero (Nat.ne_of_gt (Nat.zero_lt_of_lt hfuel))
    have hrest' : b.rest = bytesBE 2 p.length ++ (p ++ nalus.flatMap Payloader.sized) := by
      rw [hrest, flatMap_cons, Payloader.sized, append_assoc]
    have hlen : b.rest.length = 2 + (p ++ nalus.flatMap Payloader.sized).length := by
      rw [hrest', length_append, length_bytesBE]
    have hempty : ¬ b.empty = true := by
      rw [empty_eq, decide_eq_true_iff]
      intro hnil
      rw [hnil, List.length_nil] at hlen
      omega
    have hcheck : checkRequire 2 .rtcRtpMuxer "requires 2 bytes" b = .ok () b :=
      checkRequire_pass (n := 2) (by omega) hpos _ _
    have hread : readUint 2 b = .ok (p.length % 65536) (b.advance 2) := by
      rw [readUint_run (by omega) hpos, hrest', take_left' (length_bytesBE 2 _),
        ofBytesBE_bytesBE]
      rfl
    have hnext : (b.advance 2).rest = p ++ nalus.flatMap Payloader.sized := by
      rw [rest_advance, hrest']
      exact drop_left' (length_bytesBE 2 _)
    have hpos' := pos_advance_le (n := 2) (by omega) hpos
    rw [decodeNalus, bind_ok (read_apply _ _), if_neg hempty, bind_ok hcheck,
      bind_ok hread, List.forall_mem_cons]
    by_cases hshort : p.length < 32768
    · have hsize : int16 (p.length % 65536) = p.length := by
        rw [Nat.mod_eq_of_lt (by omega), int16, if_pos hshort]
      have hpass := checkRequire_pass (b := b.advance 2) (n := p.length)
        (by rw [hnext, length_append]; omega) hpos' .rtcRtpMuxer
        ("requires " ++ toString (int16 (p.length % 65536)) ++ " bytes")
      have hsample : ((b.advance 2).bytes.drop (b.advance 2).pos).take p.length = p := by
        show (b.advance 2).rest.take p.length = p
        rw [hnext]
        exact take_left
      have hskip := skip_run (b := b.advance 2) (n := p.length)
        (by rw [hnext, length_append]; omega) hpos'
      have hrun := ih (b := (b.advance 2).advance p.length) fuel
        (pos_advance_le (by rw [hnext, length_append]; omega) hpos')
        (by rw [rest_advance, hnext]; exact drop_left) (by simpa using hfuel)
      rw [hsize] at hpass ⊢
      rw [bind_ok hpass, bind_ok (read_apply _ _), Int.toNat_natCast, hsample,
        bind_ok hskip, and_iff_right hshort, ← hrun]
      constructor
      · rintro ⟨b', hok⟩
        obtain ⟨nalus', b1, hnalus, hok⟩ := ok_of_bind_ok hok
        obtain ⟨hcons, -⟩ := Outcome.ok.inj hok
        obtain ⟨-, rfl⟩ := List.cons.inj hcons
        exact ⟨b1, hnalus⟩
      · rintro ⟨b1, hnalus⟩
        exact ⟨b1, bind_ok hnalus _⟩
    · -- the size that is read is less than the sample has
      apply iff_of_false _ fun h => hshort h.1
      rintro ⟨b', hok⟩
      obtain ⟨-, b1, hrequire, hok⟩ := ok_of_bind_ok hok
      obtain ⟨sample, b2, hsample, hok⟩ := ok_of_bind_ok hok
      obtain ⟨rfl, rfl⟩ := Outcome.ok.inj hsample
      obtain ⟨-, b3, -, hok⟩ := ok_of_bind_ok hok
      obtain ⟨nalus', b4, -, hok⟩ := ok_of_bind_ok hok
      obtain ⟨hcons, -⟩ := Outcome.ok.inj hok
      have hlength := congrArg List.length (List.cons.inj hcons).1
      have hsize : (int16 (p.length % 65536)).toNat < 32768 := by
        unfold int16
        split
        · omega
        · omega
      rw [List.length_take] at hlength
      omega

theorem length_le_flatMap_sized (nalus : List (List UInt8)) :
    nalus.length ≤ (nalus.flatMap Payloader.sized).length := by
  induction nalus with
  | nil => exact Nat.zero_le _
  | cons p nalus ih =>
    rw [List.length_cons, flatMap_cons, length_append, Payloader.length_sized]
    omega

/-- An aggregation is read back. -/
theorem decodeStap_toBytes_iff (nri : UInt8) (nalus : List (List UInt8))
    (hpos : b.pos ≤ b.bytes.length) (hrest : b.rest = (Payloader.stap nri nalus).toBytes) :
    (∃ b', decodeStap b = .ok ((Payloader.stap nri nalus).given true) b') ↔
      nri.toNat < 128 ∧ ∀ p ∈ nalus, p.length < 32768 := by
  obtain ⟨hkind, hnri, hforbidden⟩ := typedByte kStapA (Or.inl rfl) nri
  rw [Payloader.toBytes] at hrest
  have hlen : 1 ≤ b.rest.length := by simp [hrest]
  have hcheck : checkRequire 1 .rtcRtpMuxer "requires 1 bytes" b = .ok () b :=
    checkRequire_pass (n := 1) hlen hpos _ _
  have hpos' := pos_advance_le hlen hpos
  have hnext := rest_advance_one hrest
  rw [decodeStap, bind_ok hcheck, bind_ok (readUint_one hrest hpos)]
  by_cases hbit : 128 ≤ nri.toNat
  · rw [if_pos (hforbidden.mpr hbit), Prog.throw_apply]
    exact iff_of_false (by simp) fun h => absurd h.1 (by omega)
  · have hfuel : nalus.length < (b.advance 1).bytes.length + 1 := by
      have hsized := length_le_flatMap_sized nalus
      rw [← hnext, length_rest] at hsized
      omega
    have hiff := decodeNalus_sized_iff nalus _ hpos' hnext hfuel
    rw [if_neg fun h => hbit (hforbidden.mp h), bind_ok (read_apply _ _), hkind, hnri,
      ← hiff, and_iff_right (by omega)]
    constructor
    · rintro ⟨b', hok⟩
      obtain ⟨nalus', b1, hnalus, hok⟩ := ok_of_bind_ok hok
      obtain ⟨hsame, -⟩ := Outcome.ok.inj hok
      obtain ⟨-, rfl⟩ := Payload.stap.inj hsame
      exact ⟨b1, hnalus⟩
    · rintro ⟨b1, hnalus⟩
      exact ⟨b1, bind_ok hnalus _⟩

/-- A fragment is read back. -/
theorem decodeFua_toBytes_iff (fu : FuFields) (payload : List UInt8)
    (hpos : b.pos ≤ b.bytes.length) (hrest : b.rest = fu.indicator :: fu.header :: payload) :
    (∃ b', decodeFua b = .ok ((Payloader.fua2 fu payload).given true) b') ↔
      fu.naluType.toNat < 32 ∧ payload ≠ [] := by
  obtain ⟨hkind, hnri, -⟩ := typedByte kFuA (Or.inr rfl) fu.nri
  have hlen : b.rest.length = payload.length + 2 := by simp [hrest]
  have hcheck : checkRequire 2 .rtcRtpMuxer "requires 2 bytes" b = .ok () b :=
    checkRequire_pass (n := 2) (by omega) hpos _ _
  have hpos1 := pos_advance_le (n := 1) (by omega) hpos
  have hnext1 := rest_advance_one hrest
  have hpos2 := pos_advance_le (n := 2) (by omega) hpos
  have hnext2 : (b.advance 2).rest = payload := by
    rw [rest_advance, hrest]
    rfl
  rw [decodeFua, bind_ok hcheck, bind_ok (readUint_one hrest hpos),
    bind_ok (readUint_one hnext1 hpos1), advance_advance]
  by_cases hempty : payload = []
  · have hfail : checkRequire 1 .rtcRtpMuxer "requires 1 bytes" (b.advance 2) = .err _ _ :=
      checkRequire_fail (n := 1) (by rw [hnext2, hempty]; exact Nat.one_pos) _ _
    rw [bind_err hfail]
    exact iff_of_false (by simp) fun h => h.2 hempty
  · have hpass : checkRequire 1 .rtcRtpMuxer "requires 1 bytes" (b.advance 2) = .ok () _ :=
      checkRequire_pass (n := 1)
        (by rw [hnext2]; exact List.length_pos_of_ne_nil hempty) hpos2 _ _
    have hpayload : (b.advance 2).bytes.drop (b.advance 2).pos = payload := hnext2
    have hskip := skip_run (b := b.advance 2) (n := payload.length) (by rw [hnext2]) hpos2
    rw [bind_ok hpass, bind_ok (read_apply _ _), hpayload, bind_ok hskip,
      and_iff_left hempty]
    have hindicator : fu.indicator.toNat - fu.indicator.toNat % 32 =
        (fu.nri &&& ~~~kNalTypeMask).toNat := by
      rw [show fu.indicator.toNat % 32 = kFuA from hkind]
      exact hnri
    rw [hindicator]
    constructor
    · rintro ⟨b', hok⟩
      obtain ⟨hsame, -⟩ := Outcome.ok.inj hok
      obtain ⟨-, -, -, htype, -⟩ := Payload.fua.inj hsame
      omega
    · intro htype
      obtain ⟨hstart, hend, hmasked⟩ := fuHeader_bits fu htype
      rw [hstart, hend, hmasked]
      exact ⟨_, rfl⟩

/-- The bytes of one NALU are read back as raw. -/
theorem decodeByNaluType_single_iff (hrest : b.rest = v :: r) :
    (∃ b', decodeByNaluType (v.toNat % 32) b = .ok (.raw (v :: r)) b') ↔ Single (v :: r) := by
  have hsingle : Single (v :: r) ↔ v.toNat % 32 ≠ kStapA ∧ v.toNat % 32 ≠ kFuA := by
    unfold Single
    simp
  rw [hsingle]
  unfold decodeByNaluType
  by_cases hstap : v.toNat % 32 = kStapA
  · rw [if_pos hstap]
    apply iff_of_false _ fun h => h.1 hstap
    rintro ⟨b', hok⟩
    obtain ⟨-, b1, -, hok⟩ := ok_of_bind_ok hok
    obtain ⟨n, b2, -, hok⟩ := ok_of_bind_ok hok
    split at hok
    · cases hok
    · obtain ⟨fuel, b3, -, hok⟩ := ok_of_bind_ok hok
      obtain ⟨nalus, b4, -, hok⟩ := ok_of_bind_ok hok
      cases hok
  · rw [if_neg hstap]
    by_cases hfua : v.toNat % 32 = kFuA
    · rw [if_pos hfua]
      apply iff_of_false _ fun h => h.2 hfua
      rintro ⟨b', hok⟩
      obtain ⟨-, b1, -, hok⟩ := ok_of_bind_ok hok
      obtain ⟨n, b2, -, hok⟩ := ok_of_bind_ok hok
      obtain ⟨m, b3, -, hok⟩ := ok_of_bind_ok hok
      obtain ⟨-, b4, -, hok⟩ := ok_of_bind_ok hok
      obtain ⟨payload, b5, -, hok⟩ := ok_of_bind_ok hok
      obtain ⟨-, b6, -, hok⟩ := ok_of_bind_ok hok
      cases hok
    · rw [if_neg hfua]
      refine iff_of_true ⟨b, ?_⟩ ⟨hstap, hfua⟩
      show Outcome.ok (Payload.raw b.rest) b = _
      rw [hrest]

/-- Where the handler does not look into the payload, or there is none, it is raw. -/
theorem decodePayload_raw (cfg : Config) (ssrc : ℕ)
    (h : ¬ (isVideo cfg.decodeHandler ssrc ∧ b.rest ≠ [])) :
    decodePayload cfg ssrc b = .ok (0, .raw b.rest) b := by
  have hcond : ¬ ((cfg.decodeHandler.map fun handler => handler ssrc) = some TrackKind.video ∧
      b.empty = false) := by
    intro hboth
    apply h
    rw [empty_eq, decide_eq_false_iff_not] at hboth
    exact hboth
  rw [decodePayload, bind_ok (read_apply _ _), if_neg hcond]
  rfl

/-- Otherwise its first byte says how it is decoded. -/
theorem decodePayload_video {cfg : Config} {ssrc : ℕ} (h : isVideo cfg.decodeHandler ssrc)
    (hrest : b.rest = v :: r) (given : Payload) :
    (∃ naluType b', decodePayload cfg ssrc b = .ok (naluType, given) b') ↔
      ∃ b', decodeByNaluType (v.toNat % 32) b = .ok given b' := by
  have hempty : b.empty = false := by
    rw [empty_eq, hrest]
    rfl
  have hcond : (cfg.decodeHandler.map fun handler => handler ssrc) = some TrackKind.video ∧
      b.empty = false := ⟨h, hempty⟩
  rw [decodePayload, bind_ok (read_apply _ _), if_pos hcond,
    bind_ok (peek_run hrest)]
  constructor
  · rintro ⟨naluType, b', hok⟩
    obtain ⟨payload, b1, hpayload, hok⟩ := ok_of_bind_ok hok
    obtain ⟨hsame, -⟩ := Outcome.ok.inj hok
    obtain ⟨-, rfl⟩ := Prod.mk.inj hsame
    exact ⟨b1, hpayload⟩
  · rintro ⟨b', hok⟩
    exact ⟨_, b', bind_ok hok _⟩

theorem decodePayload_single_iff {cfg : Config} {ssrc : ℕ} (h : isVideo cfg.decodeHandler ssrc) :
    (∃ naluType b', decodePayload cfg ssrc b = .ok (naluType, .raw b.rest) b') ↔
      Single b.rest := by
  cases hrest : b.rest with
  | nil =>
    have hraw := decodePayload_raw cfg ssrc (b := b) fun h => h.2 hrest
    rw [hrest] at hraw
    exact iff_of_true ⟨_, _, hraw⟩ fun v hv => by cases hv
  | cons v r => exact (decodePayload_video h hrest _).trans (decodeByNaluType_single_iff hrest)

/-- What comes back of a payload. -/
theorem decodePayload_toBytes (cfg : Config) (ssrc : ℕ) (p : Payloader)
    (hpos : b.pos ≤ b.bytes.length) (hrest : b.rest = p.toBytes) :
    (∃ naluType b', decodePayload cfg ssrc b =
        .ok (naluType, p.given (isVideo cfg.decodeHandler ssrc)) b') ↔
      (isVideo cfg.decodeHandler ssrc → p.Readable) := by
  by_cases hvideo : isVideo cfg.decodeHandler ssrc
  · rw [decide_eq_true hvideo, imp_iff_right hvideo]
    cases p with
    | raw payload =>
      rw [show payload = b.rest from hrest.symm]
      exact decodePayload_single_iff hvideo
    | rawNalus sent =>
      have hflat : sent.nalus.flatten = b.rest := hrest.symm
      show (∃ (naluType : ℕ) (b' : SrsBuffer), decodePayload cfg ssrc b =
        .ok (naluType, .raw sent.nalus.flatten) b') ↔ Single sent.nalus.flatten
      rw [hflat]
      exact decodePayload_single_iff hvideo
    | stap nri nalus =>
      obtain ⟨hkind, -, -⟩ := typedByte kStapA (Or.inl rfl) nri
      rw [decodePayload_video hvideo hrest, hkind]
      exact decodeStap_toBytes_iff nri nalus hpos hrest
    | fua fu nalus =>
      obtain ⟨hkind, -, -⟩ := typedByte kFuA (Or.inr rfl) fu.nri
      rw [decodePayload_video hvideo hrest, show fu.indicator.toNat % 32 = kFuA from hkind]
      exact decodeFua_toBytes_iff fu nalus.flatten hpos hrest
    | fua2 fu payload =>
      obtain ⟨hkind, -, -⟩ := typedByte kFuA (Or.inr rfl) fu.nri
      rw [decodePayload_video hvideo hrest, show fu.indicator.toNat % 32 = kFuA from hkind]
      exact decodeFua_toBytes_iff fu payload hpos hrest
  · have hraw := decodePayload_raw cfg ssrc (b := b) fun h => hvideo h.1
    rw [decide_eq_false hvideo]
    refine iff_of_true ⟨0, b, hraw.trans ?_⟩ fun h => absurd h hvideo
    rw [hrest]
    cases p with
    | raw payload => rfl
    | rawNalus sent => rfl
    | stap nri nalus => rfl
    | fua fu nalus => rfl
    | fua2 fu payload => rfl

end Payload

/-! ## The packet -/

/-- What the payload of the packet is for the decoder. -/
def SrsRtpPacket.given (handler : Option (ℕ → TrackKind)) (pkt : SrsRtpPacket) : Payload :=
  match pkt.payload with
  | some p => p.given (isVideo handler pkt.header.ssrc)
  | none => .raw []

/-- `nb_bytes` is the number of bytes that `encode` writes, and decoding these gives back the
header, with its extensions and its padding, and the payload. -/
def RoundTrips (map : ExtensionMap) (handler : Option (ℕ → TrackKind)) (pkt : SrsRtpPacket) :
    Prop :=
  ∃ bytes, Writes pkt.encode bytes ∧ pkt.nbBytes.1 = bytes.length ∧
    ∃ decoded b', rtpDecode (map.config handler) ⟨bytes, 0⟩ = .ok decoded b' ∧
      decoded.header = pkt.header ∧ decoded.payload = pkt.given handler

section Packet

variable {map : ExtensionMap} {handler : Option (ℕ → TrackKind)} {pkt : SrsRtpPacket}

/-- What comes back of a packet. -/
theorem rtpDecode_toBytes (h : Built map pkt.header) :
    (∃ decoded b', rtpDecode (map.config handler) ⟨pkt.toBytes, 0⟩ = .ok decoded b' ∧
        decoded.header = pkt.header ∧ decoded.payload = pkt.given handler) ↔
      Distinct map pkt.header ∧
        (isVideo handler pkt.header.ssrc → ∀ p ∈ pkt.payload, p.Readable) := by
  have hheader : ∀ header' b', decodeHeader (map.config handler) ⟨pkt.toBytes, 0⟩ =
      .ok header' b' ↔ Distinct map pkt.header ∧ header' = pkt.header ∧
        b' = ⟨pkt.toBytes, pkt.header.toBytes.length⟩ := fun header' b' =>
    decodeHeader_toBytes h pkt.payloadBytes header' b' rfl
  obtain ⟨b2, hb2⟩ : ∃ b2 : SrsBuffer, b2 =
      ⟨pkt.header.toBytes ++ pkt.payloadBytes, pkt.header.toBytes.length⟩ := ⟨_, rfl⟩
  have hcut : cutPadding pkt.header.paddingLength ⟨pkt.toBytes, pkt.header.toBytes.length⟩ =
      .ok () b2 := by
    have hlength : pkt.toBytes.length = (pkt.header.toBytes ++ pkt.payloadBytes).length +
        pkt.header.paddingLength := by
      simp only [SrsRtpPacket.toBytes, SrsRtpPacket.paddingBytes, length_append,
        List.length_replicate, Nat.add_assoc]
    have htake : pkt.toBytes.take (pkt.toBytes.length - pkt.header.paddingLength) =
        pkt.header.toBytes ++ pkt.payloadBytes := by
      rw [hlength, Nat.add_sub_cancel, SrsRtpPacket.toBytes, ← append_assoc]
      exact take_left
    have hroom : pkt.header.toBytes.length + pkt.header.paddingLength ≤ pkt.toBytes.length := by
      rw [hlength, length_append]
      omega
    rw [cutPadding, if_pos ((SrsBuffer.require_iff _ _).mpr hroom), hb2]
    exact congrArg (fun bytes => Outcome.ok () (⟨bytes, _⟩ : SrsBuffer)) htake
  have hpos : b2.pos ≤ b2.bytes.length := by
    rw [hb2]
    show pkt.header.toBytes.length ≤ (pkt.header.toBytes ++ pkt.payloadBytes).length
    rw [length_append]
    omega
  have hrest : b2.rest = pkt.payloadBytes := by
    rw [hb2]
    exact drop_left
  have hpayload : (∃ naluType b', decodePayload (map.config handler) pkt.header.ssrc b2 =
        .ok (naluType, pkt.given handler) b') ↔
      (isVideo handler pkt.header.ssrc → ∀ p ∈ pkt.payload, p.Readable) := by
    unfold SrsRtpPacket.payloadBytes at hrest
    unfold SrsRtpPacket.given
    cases hp : pkt.payload with
    | some p =>
      rw [hp] at hrest
      simp only [Option.mem_def, Option.some.injEq, forall_eq']
      exact decodePayload_toBytes (map.config handler) pkt.header.ssrc p hpos hrest
    | none =>
      rw [hp] at hrest
      have hraw := decodePayload_raw (map.config handler) pkt.header.ssrc (b := b2)
        fun h => h.2 hrest
      rw [hrest] at hraw
      exact iff_of_true ⟨_, _, hraw⟩ fun _ p hp => by cases hp
  rw [← hpayload]
  constructor
  · rintro ⟨decoded, b', hok, hsame, hgiven⟩
    obtain ⟨header, b1, hok1, hok⟩ := ok_of_bind_ok hok
    obtain ⟨hdistinct, rfl, rfl⟩ := (hheader header b1).mp (Prog.wrap_ok_iff.mp hok1)
    rw [bind_ok hcut] at hok
    obtain ⟨result, b3, hok2, hok⟩ := ok_of_bind_ok hok
    obtain ⟨rfl, -⟩ := Outcome.ok.inj hok
    refine ⟨hdistinct, result.1, b3, ?_⟩
    rw [← hgiven]
    exact Prog.wrap_ok_iff.mp hok2
  · rintro ⟨hdistinct, naluType, b', hok⟩
    have hok1 := (hheader pkt.header _).mpr ⟨hdistinct, rfl, rfl⟩
    refine ⟨⟨pkt.header, naluType, pkt.given handler⟩, b', ?_, rfl, rfl⟩
    rw [rtpDecode, bind_ok (Prog.wrap_ok_iff.mpr hok1)]
    exact (bind_ok hcut _).trans (bind_ok (Prog.wrap_ok_iff.mpr hok) _)

/-- What the calls keep of a packet. -/
theorem after_kept (h : Built map pkt.header) (calls : List Call) :
    Built map (pkt.after map calls).header ∧ (pkt.after map calls).payload = pkt.payload ∧
      (pkt.after map calls).header.ssrc = pkt.header.ssrc ∧
      (pkt.after map calls).header.extensions.audioLevel = pkt.header.extensions.audioLevel := by
  induction calls generalizing pkt with
  | nil => exact ⟨h, rfl, rfl, rfl⟩
  | cons call rest ih =>
    obtain ⟨hheader, hpayload⟩ := run_header map pkt call
    obtain ⟨hbuilt, hpayload', hssrc, haudio⟩ := ih (by rw [hheader]; exact h.runHeader call)
    rw [hheader] at hssrc haudio
    refine ⟨hbuilt, hpayload'.trans hpayload, hssrc.trans ?_, haudio.trans ?_⟩
    · cases call with
      | setPadding size => rfl
      | addPadding size => rfl
      | setTwccSequenceNumber sn => rfl
      | nbBytes => rfl
    · cases call with
      | setPadding size => rfl
      | addPadding size => rfl
      | setTwccSequenceNumber sn => rfl
      | nbBytes => rfl

/-- When the size and the contents of a packet are right after some calls. -/
theorem size_and_contents_iff (map : ExtensionMap) (handler : Option (ℕ → TrackKind))
    (header : BuiltHeader map) (payload : Option Payloader) (calls : List Call) :
    RoundTrips map handler ((SrsRtpPacket.new header.header payload).after map calls) ↔
      Call.totalLag map header.header calls = 0 ∧ Distinct map header.header ∧
        (isVideo handler header.header.ssrc → ∀ p ∈ payload, p.Readable) := by
  obtain ⟨pkt, hpkt⟩ : ∃ pkt, pkt = (SrsRtpPacket.new header.header payload).after map calls :=
    ⟨_, rfl⟩
  have hkept := @after_kept map (SrsRtpPacket.new header.header payload) header.built calls
  have hsize := nbBytes_after header.built payload calls
  rw [← hpkt] at hkept hsize ⊢
  obtain ⟨hbuilt, hpayload, hssrc, haudio⟩ := hkept
  have hdecode := @rtpDecode_toBytes map handler pkt hbuilt
  have hdistinct : Distinct map pkt.header ↔ Distinct map header.header := by
    unfold Distinct
    rw [haudio]
    rfl
  rw [hdistinct, hssrc, hpayload] at hdecode
  have hlength := length_toBytes hbuilt.csrc.1
  rw [show (SrsRtpPacket.new header.header payload).payload = payload from rfl,
    show (SrsRtpPacket.new header.header payload).header = header.header from rfl] at hdecode
  rw [← hdecode]
  constructor
  · rintro ⟨bytes, hwrites, hsaid, hread⟩
    obtain rfl := hwrites.unique (writes_encode pkt)
    exact ⟨by omega, hread⟩
  · rintro ⟨hlag, hread⟩
    exact ⟨_, writes_encode pkt, by omega, hread⟩

end Packet

/-- Two ids. -/
def twoIds : ExtensionMap := ⟨⟨1, by decide, by decide⟩, ⟨2, by decide, by decide⟩⟩

/-- A header without extensions. -/
def plainHeader : BuiltHeader twoIds where
  header := ⟨0, false, 96, 1, 2, 3, [], Extensions.new, 0⟩
  built :=
    { cc := by decide
      csrc := ⟨rfl, fun _ h => absurd h List.not_mem_nil⟩
      payloadType := by decide
      sequence := by decide
      timestamp := by decide
      ssrc := by decide
      paddingLength := by decide
      hasExt := rfl
      twcc := fun _ h => by cases h
      audioLevel := fun _ h => by cases h }

/-- Padding that is set after the size was asked for is not counted: 16 bytes are written, and the
size is still 12. -/
theorem set_padding_is_not_counted : ¬ RoundTrips twoIds none
    ((SrsRtpPacket.new plainHeader.header none).after twoIds [.nbBytes, .setPadding 4]) := by
  rintro ⟨bytes, hwrites, hsaid, -⟩
  obtain rfl := hwrites.unique (writes_encode _)
  exact absurd hsaid (by decide)

end SrsChatRoom.Kernel.Rtp
