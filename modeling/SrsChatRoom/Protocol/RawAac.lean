import SrsChatRoom.Kernel.BufferRules
import SrsChatRoom.Kernel.TsMessageCache

/-!
# Raw streams of AAC (`SrsRawAacStream`, `srs_protocol_raw_avc.cpp`)

`adts_demux` reads one frame with its ADTS header. The length in the header has thirteen bits and
counts the header, so that it is too small for the longest frames that `do_cache_aac` takes:
`adts_survives_iff`.
-/

namespace SrsChatRoom.Protocol.RawAac

open SrsChatRoom.Kernel SrsBuffer

/-! ## Code -/

/-- `SrsRawAacStreamCodec`, without the packet type. -/
structure SrsRawAacStreamCodec where
  protectionAbsent : ℕ
  aacObject : SrsAacObjectType
  samplingFrequencyIndex : ℕ
  channelConfiguration : ℕ
  frameLength : ℕ
  soundFormat : ℕ
  soundRate : ℕ
  soundSize : ℕ
  soundType : ℤ

/-- The header: where the fields are, and its size. -/
structure AdtsHeader where
  protectionAbsent : ℕ
  sfiv : ℕ
  abfv : ℕ
  size : ℕ

/-- The masks leave nothing of the sign of `sfiv`. -/
def AdtsHeader.frameLength (header : AdtsHeader) : ℕ :=
  header.sfiv <<< 11 &&& 0x1800 ||| header.abfv >>> 13 &&& 0x7ff

/-- `codec.sound_rate`, of a sampling frequency index. -/
def soundRate (samplingFrequencyIndex : ℕ) : ℕ :=
  if samplingFrequencyIndex ≤ 0x0c ∧ 0x0a < samplingFrequencyIndex then 0
  else if samplingFrequencyIndex ≤ 0x0a ∧ 0x07 < samplingFrequencyIndex then 1
  else if samplingFrequencyIndex ≤ 0x07 ∧ 0x04 < samplingFrequencyIndex then 2
  else 3

def AdtsHeader.codec (header : AdtsHeader) : SrsRawAacStreamCodec :=
  let channelConfiguration := header.sfiv >>> 6 &&& 0x07
  let samplingFrequencyIndex := header.sfiv >>> 10 &&& 0x0f
  { protectionAbsent := header.protectionAbsent
    aacObject := srsAacTs2rtmp (SrsAacProfile.ofValue (header.sfiv >>> 14 &&& 0x03))
    samplingFrequencyIndex
    channelConfiguration
    frameLength := header.frameLength
    soundFormat := 10
    soundRate := soundRate samplingFrequencyIndex
    soundSize := 1
    soundType := max 0 (min 1 ((channelConfiguration : ℤ) - 1)) }

/-- `srs_aac_startswith_adts` -/
def startsWithAdts : List UInt8 → Bool
  | a :: b :: _ => a == 0xff && (b &&& 0xf0) == 0xf0
  | _ => false

/-- `adts_error_check`, which is there if `protection_absent` is not; the size of the header. -/
def adtsErrorCheck (protectionAbsent : ℕ) : Dec ℕ :=
  if protectionAbsent = 0 then do
    checkRequire 2 .aacAdtsHeader "requires 2"
    let _ ← readUint 2
    return 9
  else return 7

/-- `adts_demux` up to the raw data. -/
def readAdtsHeader : Dec AdtsHeader := do
  checkRequire 7 .aacAdtsHeader "requires 7"
  let rest ← Prog.read SrsBuffer.rest
  if startsWithAdts rest = false then Prog.throw (srsErrorNew .aacRequiredAdts "not adts")
  else do
    let _ ← readUint 1
    let pav ← readUint 1
    let sfiv ← readUint 2
    let abfv ← readUint 3
    let size ← adtsErrorCheck (pav &&& 0x0f &&& 0x01)
    return { protectionAbsent := pav &&& 0x0f &&& 0x01, sfiv, abfv, size }

/-- A frame, and what its header says. -/
structure AdtsFrame where
  frame : List UInt8
  codec : SrsRawAacStreamCodec

/-- `adts_demux(stream, pframe, pnb_frame, codec)`; `none` is an empty stream. -/
def adtsDemux : Dec (Option AdtsFrame) := do
  let rest ← Prog.read SrsBuffer.rest
  if rest = [] then return none
  else do
    let header ← readAdtsHeader
    let rawDataSize : ℤ := header.frameLength - header.size
    checkRequire rawDataSize .aacAdtsHeader "requires raw data"
    let frame ← readBytes rawDataSize
    return some { frame, codec := header.codec }

/-- Demux until the stream is empty. -/
def demuxAll : ℕ → Dec (List (Option AdtsFrame))
  | 0 => fun _ => .hang
  | fuel + 1 => do
    let rest ← Prog.read SrsBuffer.rest
    if rest = [] then return []
    else do
      let frame ← adtsDemux
      let frames ← demuxAll fuel
      return frame :: frames

/-! ## Frames through the cache -/

/-- A codec whose fields have room in the header. -/
structure AacCodec extends SrsAudioCodecConfig where
  object : aacObject = .aacMain ∨ aacObject = .aacLC ∨ aacObject = .aacSSR
  rate : aacSampleRate ≤ 12
  channels : aacChannels ≤ 7

/-- Frames that `do_cache_aac` has taken, and what it has appended to the payload. -/
structure CachedAac (codec : AacCodec) where
  frames : List (List UInt8)
  payload : List UInt8
  appended : List UInt8
  taken : doCacheAac codec.toSrsAudioCodecConfig frames payload = .ok () (payload ++ appended)

/-- What is compared. -/
def AdtsFrame.said (d : AdtsFrame) : List UInt8 × SrsAacObjectType × ℕ × ℕ :=
  (d.frame, d.codec.aacObject, d.codec.samplingFrequencyIndex, d.codec.channelConfiguration)

/-- The frames come back from what was appended, up to its end, and on any bytes a call fails or
advances inside the buffer. -/
structure Survives {codec : AacCodec} (c : CachedAac codec) : Prop where
  frames : ∃ out, demuxAll (c.appended.length + 1) ⟨c.appended, 0⟩ =
      .ok out ⟨c.appended, c.appended.length⟩ ∧
    out.map (Option.map AdtsFrame.said) =
      c.frames.map fun f => some (f, codec.aacObject, codec.aacSampleRate, codec.aacChannels)
  advances : ∀ p, Sound adtsDemux p fun _ q => p ≠ [] → q.length < p.length

/-! ## Safety -/

section Safety

variable {α : Type} {p : List UInt8} {Q : α → List UInt8 → Prop}

theorem Sound.readUint_then {n : ℕ} {f : ℕ → Dec α} (h : n ≤ p.length)
    (hf : ∀ v, Sound (f v) (p.drop n) Q) : Sound (readUint n >>= f) p Q :=
  ((reads_readUint h).sound (Q := fun _ q => q = p.drop n) rfl).bind fun v _ hq => hq ▸ hf v

theorem Sound.rest_then {f : List UInt8 → Dec α} (hf : Sound (f p) p Q) :
    Sound (Prog.read SrsBuffer.rest >>= f) p Q :=
  ((reads_read fun _ _ hrest => hrest).sound (Q := fun rest q => rest = p ∧ q = p) ⟨rfl, rfl⟩).bind
    fun _ _ hq => hq.1 ▸ hq.2 ▸ hf

/-- A size that is negative is refused too. -/
theorem Sound.checkRequire_then {size : ℤ} {code : ErrorCode} {message : String} {f : Unit → Dec α}
    (hf : 0 ≤ size → size.toNat ≤ p.length → Sound (f ()) p Q) :
    Sound (checkRequire size code message >>= f) p Q := by
  intro b hpos hrest
  rw [Prog.bind_apply, checkRequire]
  by_cases hsize : b.require size = true
  · rw [if_pos hsize]
    obtain ⟨hzero, hleft⟩ : 0 ≤ size ∧ size ≤ b.left := of_decide_eq_true hsize
    have hlength := b.length_rest
    rw [hrest] at hlength
    rw [left] at hleft
    exact hf hzero (by omega) b hpos hrest
  · rw [if_neg hsize]
    exact ⟨rfl, hpos⟩

/-- A header has at least seven bytes. -/
theorem sound_readAdtsHeader (p : List UInt8) :
    Sound readAdtsHeader p fun _ q => q.length + 7 ≤ p.length := by
  apply Sound.checkRequire_then
  intro _ hlength
  have hseven : 7 ≤ p.length := hlength
  apply Sound.rest_then
  split
  · exact sound_throw
  · apply Sound.readUint_then (by omega)
    intro _
    apply Sound.readUint_then (by rw [List.length_drop]; omega)
    intro pav
    apply Sound.readUint_then (by simp only [List.length_drop]; omega)
    intro sfiv
    apply Sound.readUint_then (by simp only [List.length_drop]; omega)
    intro abfv
    simp only [List.drop_drop]
    apply Sound.bind (P := fun _ q => q.length + 7 ≤ p.length)
    · unfold adtsErrorCheck
      split
      · apply Sound.checkRequire_then
        intro _ htwo
        have hcrc : 2 ≤ (p.drop (1 + 1 + 2 + 3)).length := htwo
        apply Sound.readUint_then hcrc
        intro _
        apply sound_pure
        simp only [List.length_drop]
        omega
      · apply sound_pure
        rw [List.length_drop]
        omega
    · intro size q hq
      exact sound_pure hq

/-- A call fails or advances, and stays inside the buffer. -/
theorem sound_adtsDemux (p : List UInt8) :
    Sound adtsDemux p fun _ q => p ≠ [] → q.length < p.length := by
  apply Sound.rest_then
  split
  · next hnil => exact sound_pure fun hne => absurd hnil hne
  · apply (sound_readAdtsHeader p).bind
    intro header q hq
    apply Sound.checkRequire_then
    intro hsize hlength
    obtain ⟨n, hn⟩ := Int.eq_ofNat_of_zero_le hsize
    rw [hn] at hlength ⊢
    apply Sound.bind (P := fun _ r => r.length ≤ q.length)
    · apply (reads_readBytes hlength).sound
      rw [List.length_drop]
      omega
    · intro frame r hr
      apply sound_pure
      intro _
      omega

end Safety

/-! ## The bytes of a header -/

section Bits

theorem and_three (n : ℕ) : n &&& 0x03 = n % 4 := Nat.and_two_pow_sub_one_eq_mod n 2

/-- The low three bits of the length, and ones. -/
theorem low_byte (n : ℕ) : n <<< 5 &&& 0xe0 ||| 0x1f = n % 8 * 32 + 31 := by
  have hmask : 0xe0 = (2 ^ 3 - 1) <<< 5 := rfl
  have hlow : 31 < 2 ^ 5 := by decide
  rw [hmask, ← Nat.shiftLeft_and_distrib, Nat.and_two_pow_sub_one_eq_mod,
    ← Nat.shiftLeft_add_eq_or_of_lt hlow, Nat.shiftLeft_eq]

/-- The low two bits of the channels, and the high two of the length. -/
theorem middle_byte (c n : ℕ) :
    c <<< 6 &&& 0xc0 ||| n >>> 11 &&& 0x03 = c % 4 * 64 + n / 2048 % 4 := by
  have hmask : 0xc0 = (2 ^ 2 - 1) <<< 6 := rfl
  have hlow : n >>> 11 % 4 < 2 ^ 6 := by omega
  rw [and_three, hmask, ← Nat.shiftLeft_and_distrib, Nat.and_two_pow_sub_one_eq_mod,
    ← Nat.shiftLeft_add_eq_or_of_lt hlow, Nat.shiftLeft_eq, Nat.shiftRight_eq_div_pow]

theorem high_byte : ∀ profile < 4, ∀ rate < 16, ∀ c < 8,
    profile <<< 6 &&& 0xc0 ||| rate <<< 2 &&& 0x3c ||| c >>> 2 &&& 0x01 =
      profile * 64 + rate * 4 + c / 4 := by
  decide +kernel

theorem length_byte (n : ℕ) : n >>> 3 &&& 0xff = n / 8 % 256 := by
  rw [Nat.shiftRight_eq_div_pow]
  exact Nat.and_two_pow_sub_one_eq_mod _ 8

/-- The fields of a header, by arithmetic. -/
theorem frameLength_eq (header : AdtsHeader) :
    header.frameLength = header.sfiv % 4 * 2048 + header.abfv / 8192 % 2048 := by
  have hmask : 0x1800 = (2 ^ 2 - 1) <<< 11 := rfl
  have hlow : header.abfv >>> 13 &&& 0x7ff = header.abfv / 8192 % 2048 := by
    rw [Nat.shiftRight_eq_div_pow]
    exact Nat.and_two_pow_sub_one_eq_mod _ 11
  have hlt : header.abfv / 8192 % 2048 < 2 ^ 11 := by omega
  rw [AdtsHeader.frameLength, hlow, hmask, ← Nat.shiftLeft_and_distrib,
    Nat.and_two_pow_sub_one_eq_mod, ← Nat.shiftLeft_add_eq_or_of_lt hlt, Nat.shiftLeft_eq]

theorem field_eq (n k m : ℕ) : n >>> k &&& 2 ^ m - 1 = n / 2 ^ k % 2 ^ m := by
  rw [Nat.shiftRight_eq_div_pow, Nat.and_two_pow_sub_one_eq_mod]

end Bits

/-! ## One frame -/

theorem reads_adtsHeader (b₂ b₃ b₄ b₅ b₆ : UInt8) (p : List UInt8) :
    Reads readAdtsHeader (0xff :: 0xf9 :: b₂ :: b₃ :: b₄ :: b₅ :: b₆ :: p)
      ⟨1, ofBytesBE [b₂, b₃], ofBytesBE [b₄, b₅, b₆], 7⟩ p := by
  apply Reads.bind (reads_checkRequire (by simp) _ _)
  apply Reads.bind (reads_read fun _ _ hrest => hrest)
  have hstart : ¬startsWithAdts (0xff :: 0xf9 :: b₂ :: b₃ :: b₄ :: b₅ :: b₆ :: p) = false := by
    rw [startsWithAdts]
    decide
  rw [if_neg hstart]
  apply Reads.bind (reads_readUint (by simp))
  apply Reads.bind (reads_readUint (by simp))
  apply Reads.bind (reads_readUint (by simp))
  apply Reads.bind (reads_readUint (by simp))
  have hpav : ofBytesBE (List.take 1 (List.drop 1
      (0xff :: 0xf9 :: b₂ :: b₃ :: b₄ :: b₅ :: b₆ :: p))) &&& 0x0f &&& 0x01 = 1 := by
    show ofBytesBE [0xf9] &&& 0x0f &&& 0x01 = 1
    decide
  rw [hpav]
  have hcheck : Reads (adtsErrorCheck 1) p 7 p := reads_pure p 7
  exact Reads.bind hcheck (reads_pure _ _)

section Frame

variable (codec : AacCodec)

/-- The header of a frame. -/
def headerOf (size : ℕ) : AdtsHeader where
  protectionAbsent := 1
  sfiv := ((srsAacRtmp2ts codec.aacObject).value * 64 + codec.aacSampleRate * 4 +
    codec.aacChannels / 4) * 256 + (codec.aacChannels % 4 * 64 + (size + 7) / 2048 % 4)
  abfv := (size + 7) / 8 % 256 * 65536 + ((size + 7) % 8 * 32 + 31) * 256 + 0xfc
  size := 7

theorem value_lt (profile : SrsAacProfile) : profile.value < 4 := by
  cases profile <;> decide

theorem reads_header (size : ℕ) (p : List UInt8) :
    Reads readAdtsHeader (adtsHeader codec.toSrsAudioCodecConfig size ++ p)
      (headerOf codec size) p := by
  have hvalue := value_lt (srsAacRtmp2ts codec.aacObject)
  have hrate := codec.rate
  have hchannels := codec.channels
  have hheader := reads_adtsHeader
    (UInt8.ofNat ((srsAacRtmp2ts codec.aacObject).value <<< 6 &&& 0xc0 |||
      codec.aacSampleRate <<< 2 &&& 0x3c ||| codec.aacChannels >>> 2 &&& 0x01))
    (UInt8.ofNat (codec.aacChannels <<< 6 &&& 0xc0 ||| (size + 7) >>> 11 &&& 0x03))
    (UInt8.ofNat ((size + 7) >>> 3 &&& 0xff)) (UInt8.ofNat ((size + 7) <<< 5 &&& 0xe0 ||| 0x1f))
    0xfc p
  have hsfiv : ofBytesBE [UInt8.ofNat ((srsAacRtmp2ts codec.aacObject).value <<< 6 &&& 0xc0 |||
      codec.aacSampleRate <<< 2 &&& 0x3c ||| codec.aacChannels >>> 2 &&& 0x01),
      UInt8.ofNat (codec.aacChannels <<< 6 &&& 0xc0 ||| (size + 7) >>> 11 &&& 0x03)] =
      (headerOf codec size).sfiv := by
    rw [high_byte _ hvalue _ (by omega) _ (by omega), middle_byte]
    simp only [ofBytesBE, List.length_cons, List.length_nil, UInt8.toNat_ofNat', headerOf]
    omega
  have habfv : ofBytesBE [UInt8.ofNat ((size + 7) >>> 3 &&& 0xff),
      UInt8.ofNat ((size + 7) <<< 5 &&& 0xe0 ||| 0x1f), 0xfc] = (headerOf codec size).abfv := by
    rw [length_byte, low_byte]
    simp only [ofBytesBE, List.length_cons, List.length_nil, UInt8.toNat_ofNat', headerOf]
    have hlast : (0xfc : UInt8).toNat = 0xfc := rfl
    omega
  rw [hsfiv, habfv] at hheader
  exact hheader

/-- The length in the header, without its fourteenth bit. -/
theorem frameLength_headerOf (size : ℕ) :
    (headerOf codec size).frameLength = (size + 7) % 8192 := by
  rw [frameLength_eq]
  simp only [headerOf]
  omega

/-- What the header says of the codec. -/
theorem codec_headerOf (size : ℕ) :
    (headerOf codec size).codec.aacObject = codec.aacObject ∧
      (headerOf codec size).codec.samplingFrequencyIndex = codec.aacSampleRate ∧
      (headerOf codec size).codec.channelConfiguration = codec.aacChannels := by
  have hvalue := value_lt (srsAacRtmp2ts codec.aacObject)
  have hrate := codec.rate
  have hchannels := codec.channels
  have hprofile : (headerOf codec size).sfiv >>> 14 &&& 0x03 =
      (srsAacRtmp2ts codec.aacObject).value := by
    refine (field_eq _ 14 2).trans ?_
    simp only [headerOf]
    omega
  have hindex : (headerOf codec size).sfiv >>> 10 &&& 0x0f = codec.aacSampleRate := by
    refine (field_eq _ 10 4).trans ?_
    simp only [headerOf]
    omega
  have hconfiguration : (headerOf codec size).sfiv >>> 6 &&& 0x07 = codec.aacChannels := by
    refine (field_eq _ 6 3).trans ?_
    simp only [headerOf]
    omega
  refine ⟨?_, hindex, hconfiguration⟩
  show srsAacTs2rtmp (SrsAacProfile.ofValue ((headerOf codec size).sfiv >>> 14 &&& 0x03)) = _
  rw [hprofile]
  rcases codec.object with hobject | hobject | hobject
  · rw [hobject]
    rfl
  · rw [hobject]
    rfl
  · rw [hobject]
    rfl

variable {codec} {f : List UInt8}

/-- A frame that fits is read back. -/
theorem reads_frame (h : f.length ≤ 8184) (rest : List UInt8) :
    Reads adtsDemux (adtsHeader codec.toSrsAudioCodecConfig f.length ++ (f ++ rest))
      (some ⟨f, (headerOf codec f.length).codec⟩) rest := by
  have hsize : ((headerOf codec f.length).frameLength : ℤ) - (headerOf codec f.length).size =
      (f.length : ℕ) := by
    rw [frameLength_headerOf]
    simp only [headerOf]
    omega
  have hne : ¬adtsHeader codec.toSrsAudioCodecConfig f.length ++ (f ++ rest) = [] :=
    List.cons_ne_nil _ _
  apply Reads.bind (reads_read fun _ _ hrest => hrest)
  rw [if_neg hne]
  apply Reads.bind (reads_header codec f.length _)
  dsimp only
  rw [hsize]
  have hall : f.length ≤ (f ++ rest).length := by
    rw [List.length_append]
    omega
  apply Reads.bind (reads_checkRequire hall _ _)
  have hbytes := reads_readBytes hall
  rw [List.take_left, List.drop_left] at hbytes
  exact Reads.bind hbytes (reads_pure _ _)

/-- The length of a longer one does not even count its header. -/
theorem fails_on_frame (hlong : 8184 < f.length) (hmax : f.length ≤ 0x1fff) (rest : List UInt8)
    {b : SrsBuffer} (hpos : b.pos ≤ b.bytes.length)
    (hrest : b.rest = adtsHeader codec.toSrsAudioCodecConfig f.length ++ (f ++ rest)) :
    (adtsDemux b).isErr = true := by
  obtain ⟨b', hrun, hinside, -⟩ := reads_header codec f.length (f ++ rest) b hpos hrest
  have hsize :
      ((headerOf codec f.length).frameLength : ℤ) - (headerOf codec f.length).size < 0 := by
    rw [frameLength_headerOf]
    simp only [headerOf]
    omega
  have hrefused : ¬b'.require
      ((headerOf codec f.length).frameLength - (headerOf codec f.length).size : ℤ) = true := by
    intro hrequire
    have hbounds := of_decide_eq_true hrequire
    omega
  have hne : ¬b.rest = [] := by
    rw [hrest]
    exact List.cons_ne_nil _ _
  rw [adtsDemux, Prog.bind_ok (Prog.read_apply _ b), if_neg hne, Prog.bind_ok hrun, Prog.bind_apply,
    checkRequire, if_neg hrefused]
  rfl

end Frame

/-! ## All frames -/

/-- The frames with their headers. -/
def adtsStream (codec : AacCodec) (frames : List (List UInt8)) : List UInt8 :=
  frames.flatMap fun f => adtsHeader codec.toSrsAudioCodecConfig f.length ++ f

section Frames

variable {codec : AacCodec} {frames : List (List UInt8)}

theorem adtsStream_cons (f : List UInt8) : adtsStream codec (f :: frames) =
    adtsHeader codec.toSrsAudioCodecConfig f.length ++ (f ++ adtsStream codec frames) := by
  rw [adtsStream, List.flatMap_cons, List.append_assoc]
  rfl

/-- What `do_cache_aac` takes and appends. -/
theorem doCacheAac_iff (payload payload' : List UInt8) :
    doCacheAac codec.toSrsAudioCodecConfig frames payload = .ok () payload' ↔
      (∀ f ∈ frames, f ≠ [] ∧ f.length ≤ 0x1fff) ∧
        payload' = payload ++ adtsStream codec frames := by
  induction frames generalizing payload with
  | nil =>
    have hnil : adtsStream codec [] = [] := rfl
    rw [hnil, List.append_nil]
    constructor
    · intro h
      cases h
      exact ⟨fun _ hf => absurd hf List.not_mem_nil, rfl⟩
    · intro h
      rw [h.2]
      rfl
  | cons f frames ih =>
    rw [doCacheAac]
    by_cases hsize : f = [] ∨ 0x1fff < f.length
    · rw [if_pos hsize]
      apply iff_of_false
      · exact fun h => nomatch h
      · intro h
        obtain ⟨hne, hmax⟩ := h.1 f List.mem_cons_self
        exact hsize.elim hne fun hlong => by omega
    · rw [if_neg hsize]
      obtain ⟨hne, hmax⟩ := not_or.mp hsize
      have hstep : (do
          Prog.modify fun payload =>
            payload ++ adtsHeader codec.toSrsAudioCodecConfig f.length ++ f
          doCacheAac codec.toSrsAudioCodecConfig frames : Prog (List UInt8) SrsError Unit) payload =
          doCacheAac codec.toSrsAudioCodecConfig frames
            (payload ++ adtsHeader codec.toSrsAudioCodecConfig f.length ++ f) := rfl
      have hstream : payload ++ adtsHeader codec.toSrsAudioCodecConfig f.length ++ f ++
          adtsStream codec frames = payload ++ adtsStream codec (f :: frames) := by
        rw [adtsStream_cons, List.append_assoc, List.append_assoc]
      rw [hstep, ih, hstream, List.forall_mem_cons]
      exact and_congr_left fun _ => ⟨fun h => ⟨⟨hne, by omega⟩, h⟩, fun h => h.2⟩

/-- Every frame has a header. -/
theorem length_le_adtsStream : frames.length ≤ (adtsStream codec frames).length := by
  induction frames with
  | nil => exact Nat.zero_le _
  | cons f frames ih =>
    have hheader : 1 ≤ (adtsHeader codec.toSrsAudioCodecConfig f.length).length := by
      show 1 ≤ 7
      omega
    rw [adtsStream_cons, List.length_append, List.length_append, List.length_cons]
    omega

/-- Frames that fit are read back. -/
theorem reads_frames (fuel : ℕ) (hfuel : frames.length < fuel)
    (h : ∀ f ∈ frames, f.length ≤ 8184) : Reads (demuxAll fuel) (adtsStream codec frames)
      (frames.map fun f => some ⟨f, (headerOf codec f.length).codec⟩) [] := by
  induction frames generalizing fuel with
  | nil =>
    obtain ⟨fuel, rfl⟩ := Nat.exists_eq_succ_of_ne_zero (Nat.ne_of_gt hfuel)
    exact Reads.bind (reads_read fun _ _ hrest => hrest) (reads_pure _ _)
  | cons f frames ih =>
    obtain ⟨fuel, rfl⟩ := Nat.exists_eq_succ_of_ne_zero (Nat.ne_of_gt (Nat.zero_lt_of_lt hfuel))
    rw [adtsStream_cons]
    have hne : ¬adtsHeader codec.toSrsAudioCodecConfig f.length ++
        (f ++ adtsStream codec frames) = [] := List.cons_ne_nil _ _
    have hmore := ih fuel (Nat.lt_of_succ_lt_succ hfuel)
      fun f' hf' => h f' (List.mem_cons_of_mem f hf')
    apply Reads.bind (reads_read fun _ _ hrest => hrest)
    rw [if_neg hne]
    apply Reads.bind (reads_frame (h f List.mem_cons_self) _)
    exact Reads.bind hmore (reads_pure _ _)

/-- With a longer one among them there is an error. -/
theorem not_ok_of_long (fuel : ℕ) (hmax : ∀ f ∈ frames, f.length ≤ 0x1fff)
    (hlong : ∃ f ∈ frames, 8184 < f.length) {b b' : SrsBuffer} (hpos : b.pos ≤ b.bytes.length)
    (hrest : b.rest = adtsStream codec frames) {out : List (Option AdtsFrame)} :
    demuxAll fuel b ≠ .ok out b' := by
  induction frames generalizing fuel b out b' with
  | nil =>
    obtain ⟨f, hf, -⟩ := hlong
    cases hf
  | cons f frames ih =>
    intro hrun
    cases fuel with
    | zero => cases hrun
    | succ fuel =>
      rw [adtsStream_cons] at hrest
      have hne : ¬b.rest = [] := by
        rw [hrest]
        exact List.cons_ne_nil _ _
      rw [demuxAll, Prog.bind_ok (Prog.read_apply _ b), if_neg hne] at hrun
      by_cases hf : f.length ≤ 8184
      · obtain ⟨b₁, hframe, hinside, hleft⟩ := reads_frame hf _ b hpos hrest
        rw [Prog.bind_ok hframe] at hrun
        obtain ⟨out', b₂, hmore, -⟩ := Prog.ok_of_bind_ok hrun
        have hlater : ∃ f ∈ frames, 8184 < f.length := by
          obtain ⟨f', hf', hlong'⟩ := hlong
          cases List.mem_cons.mp hf' with
          | inl heq =>
            rw [heq] at hlong'
            omega
          | inr hmem => exact ⟨f', hmem, hlong'⟩
        have hmax' : ∀ f' ∈ frames, f'.length ≤ 0x1fff :=
          fun f' hf' => hmax f' (List.mem_cons_of_mem f hf')
        exact ih fuel hmax' hlater hinside.2 hleft hmore
      · obtain ⟨e, b₁, herr⟩ := Outcome.exists_of_isErr
          (fails_on_frame (by omega) (hmax f List.mem_cons_self) _ hpos hrest)
        rw [Prog.bind_err herr] at hrun
        cases hrun

end Frames

theorem not_survives {codec : AacCodec} {c : CachedAac codec}
    (hlong : ∃ f ∈ c.frames, 8184 < f.length) : ¬Survives c := by
  obtain ⟨hmax, happended⟩ := (doCacheAac_iff _ _).mp c.taken
  intro h
  obtain ⟨out, hrun, -⟩ := h.frames
  have hstream : (⟨c.appended, 0⟩ : SrsBuffer).rest = adtsStream codec c.frames :=
    List.append_cancel_left happended
  have hshort : ∀ f ∈ c.frames, f.length ≤ 0x1fff := fun f hf => (hmax f hf).2
  exact not_ok_of_long _ hshort hlong (Nat.zero_le _) hstream hrun

/-- The frames survive if none of them is longer than what the header can say, without its seven
bytes. -/
theorem adts_survives_iff {codec : AacCodec} (c : CachedAac codec) :
    Survives c ↔ ∀ f ∈ c.frames, f.length ≤ 8184 := by
  constructor
  · intro h f hf
    by_contra hlong
    exact not_survives ⟨f, hf, by omega⟩ h
  · intro hfits
    refine ⟨?_, sound_adtsDemux⟩
    obtain ⟨-, happended⟩ := (doCacheAac_iff _ _).mp c.taken
    have hstream : c.appended = adtsStream codec c.frames := List.append_cancel_left happended
    have hfuel : c.frames.length < c.appended.length + 1 := by
      rw [hstream]
      exact Nat.lt_succ_of_le length_le_adtsStream
    obtain ⟨b', hrun, hinside, hleft⟩ :=
      reads_frames _ hfuel hfits ⟨c.appended, 0⟩ (Nat.zero_le _) hstream
    have hend : b' = ⟨c.appended, c.appended.length⟩ :=
      hinside.eq_of_rest ⟨rfl, le_refl _⟩ (hleft.trans List.drop_length.symm)
    refine ⟨_, hend ▸ hrun, ?_⟩
    rw [List.map_map]
    apply List.map_congr_left
    intro f _
    obtain ⟨hobject, hindex, hchannels⟩ := codec_headerOf codec f.length
    show some (f, (headerOf codec f.length).codec.aacObject, _, _) = _
    rw [hobject, hindex, hchannels]

/-- LC at 44100 Hz with two channels. -/
def lcCodec : AacCodec := ⟨⟨.aacLC, 4, 2⟩, .inr (.inl rfl), by decide, by decide⟩

/-- A frame of 8185 bytes. -/
def longFrame : CachedAac lcCodec where
  frames := [List.replicate 8185 0]
  payload := []
  appended := adtsStream lcCodec [List.replicate 8185 0]
  taken := by
    apply (doCacheAac_iff _ _).mpr ⟨?_, rfl⟩
    intro f hf
    rw [List.mem_singleton.mp hf, List.length_replicate]
    exact ⟨List.cons_ne_nil _ _, by decide⟩

/-- Its header says that it has no bytes at all. -/
theorem longFrame_not_survives : ¬Survives longFrame := by
  apply not_survives
  refine ⟨_, List.mem_singleton.mpr rfl, ?_⟩
  rw [List.length_replicate]
  decide

end SrsChatRoom.Protocol.RawAac
