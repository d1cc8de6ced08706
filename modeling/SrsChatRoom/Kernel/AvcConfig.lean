import SrsChatRoom.Kernel.BitBuffer
import SrsChatRoom.Kernel.BufferRules
import SrsChatRoom.Kernel.Rbsp

/-!
# The sequence header of H.264 (`srs_kernel_codec.cpp`)

The decoder configuration record has the profile and the level, how many bytes the length of a NALU
takes, and the parameter sets. `avc_demux_sps_pps` puts them into the configuration of the codec;
of several parameter sets each that is not empty replaces the one before, so that the last stays.
Then the SPS that was kept is read for the width and the height of the video.
-/

namespace SrsChatRoom.Kernel.Avc

open SrsChatRoom.Prog (refuse optional zoom modify alone)
open SrsBuffer

/-! ## Errors and state -/

/-- `ERROR_HLS_DECODE_ERROR` and `ERROR_AVC_NALU_UEV` -/
inductive AvcErrorCode
  | hlsDecodeError
  | avcNaluUev
  deriving DecidableEq

/-- An error: the code and the messages, the outermost first. -/
structure AvcError where
  code : AvcErrorCode
  messages : List String

def AvcError.new (message : String) : AvcError := ⟨.hlsDecodeError, [message]⟩

def AvcError.wrap (message : String) (e : AvcError) : AvcError :=
  { e with messages := message :: e.messages }

/-- `SrsVideoCodecConfig`, as far as it comes from the sequence header. -/
structure SrsVideoCodecConfig where
  avcExtraData : List UInt8
  avcProfile : ℤ
  avcLevel : ℤ
  nalUnitLength : ℕ
  sequenceParameterSetNALUnit : List UInt8
  pictureParameterSetNALUnit : List UInt8
  width : ℤ
  height : ℤ

/-- `SrsFormat`, and the stream of the tag. -/
structure SrsFormat where
  vcodec : SrsVideoCodecConfig
  avcParseSps : Bool
  stream : SrsBuffer

/-- A program of the format. -/
abbrev AvcDecode := Prog SrsFormat AvcError

/-- A program on the stream, which returns no error. -/
def onStream {α : Type} (x : Dec α) : AvcDecode α :=
  zoom SrsFormat.stream (fun f b => { f with stream := b })
    (Prog.mapErr (fun e => ⟨.hlsDecodeError, e.messages⟩) x)

/-- `if (!stream->require(n)) return srs_error_new(ERROR_HLS_DECODE_ERROR, message)` -/
def requires (n : ℕ) (message : String) : AvcDecode Unit := do
  let there ← Prog.read fun f => f.stream.require n
  refuse (there = false) (AvcError.new message)

/-- A change of the configuration. -/
def onVcodec (g : SrsVideoCodecConfig → SrsVideoCodecConfig) : AvcDecode Unit :=
  modify fun f => { f with vcodec := g f.vcodec }

/-! ## The SPS -/

/-- A program on the bits of the SPS. -/
abbrev SpsDecode := Prog SrsBitBuffer AvcError

/-- `srs_avc_nalu_read_uev`, with the name of the field for the error. -/
def uev (name : String) : SpsDecode ℤ := do
  let v ← Prog.mapErr (fun e => AvcError.wrap ("read " ++ name) ⟨.avcNaluUev, e.messages⟩)
    SrsBitBuffer.avcNaluReadUev
  return v

/-- `srs_avc_nalu_read_bit` -/
def bit (name : String) : SpsDecode ℕ :=
  Prog.mapErr (fun e => AvcError.wrap ("read " ++ name) ⟨.avcNaluUev, e.messages⟩)
    SrsBitBuffer.avcNaluReadBit

/-- A loop that reads `n` fields and does not use them. -/
def times (x : SpsDecode Unit) : ℕ → SpsDecode Unit
  | 0 => return ()
  | n + 1 => do
    x
    times x n

/-- The profiles whose SPS have the chroma format. -/
def hasChromaFormat (profileIdc : ℕ) : Bool :=
  profileIdc = 100 ∨ profileIdc = 110 ∨ profileIdc = 122 ∨ profileIdc = 244 ∨ profileIdc = 44 ∨
    profileIdc = 83 ∨ profileIdc = 86 ∨ profileIdc = 118 ∨ profileIdc = 128

/-- The chroma format, the bit depths and the flags of the scaling matrices. -/
def chromaFormat : SpsDecode Unit := do
  let chromaFormatIdc ← uev "chroma_format_idc"
  optional (chromaFormatIdc = 3) (do let _ ← bit "separate_colour_plane_flag")
  let _ ← uev "bit_depth_luma_minus8"
  let _ ← uev "bit_depth_chroma_minus8"
  let _ ← bit "qpprime_y_zero_transform_bypass_flag"
  let seqScalingMatrixPresentFlag ← bit "seq_scaling_matrix_present_flag"
  optional (seqScalingMatrixPresentFlag ≠ 0)
    (times (do let _ ← bit "seq_scaling_matrix_present_flag_i")
      (if chromaFormatIdc ≠ 3 then 8 else 12))

/-- The fields for the type of the picture order count. -/
def picOrderCnt (picOrderCntType : ℤ) : SpsDecode Unit :=
  if picOrderCntType = 0 then do
    let _ ← uev "log2_max_pic_order_cnt_lsb_minus4"
  else if picOrderCntType = 1 then do
    let _ ← bit "delta_pic_order_always_zero_flag"
    let _ ← uev "offset_for_non_ref_pic"
    let _ ← uev "offset_for_top_to_bottom_field"
    let numRefFrames ← uev "num_ref_frames_in_pic_order_cnt_cycle"
    refuse (numRefFrames < 0) (AvcError.new "sps the num_ref_frames_in_pic_order_cnt_cycle")
    times (do let _ ← uev "offset_for_ref_frame_i") numRefFrames.toNat
  else return ()

/-- The offsets of the frame, when it is cropped: left, right, top and bottom. -/
def frameCrop (frameCroppingFlag : ℕ) : SpsDecode (ℤ × ℤ × ℤ × ℤ) :=
  if frameCroppingFlag ≠ 0 then do
    let left ← uev "frame_crop_left_offset"
    let right ← uev "frame_crop_right_offset"
    let top ← uev "frame_crop_top_offset"
    let bottom ← uev "frame_crop_bottom_offset"
    return (left, right, top, bottom)
  else return (0, 0, 0, 0)

/-- The fields of the SPS, behind its first three bytes: the width and the height. They are
computed with `int32_t`. -/
def spsFields (profileIdc : ℕ) : SpsDecode (ℤ × ℤ) := do
  let seqParameterSetId ← uev "seq_parameter_set_id"
  refuse (seqParameterSetId < 0) (AvcError.new "sps the seq_parameter_set_id invalid")
  optional (hasChromaFormat profileIdc) chromaFormat
  let _ ← uev "log2_max_frame_num_minus4"
  let picOrderCntType ← uev "pic_order_cnt_type"
  picOrderCnt picOrderCntType
  let _ ← uev "max_num_ref_frames"
  let _ ← bit "gaps_in_frame_num_value_allowed_flag"
  let picWidthInMbsMinus1 ← uev "pic_width_in_mbs_minus1"
  let picHeightInMapUnitsMinus1 ← uev "pic_height_in_map_units_minus1"
  let frameMbsOnlyFlag ← bit "frame_mbs_only_flag"
  optional (frameMbsOnlyFlag = 0) (do let _ ← bit "mb_adaptive_frame_field_flag")
  let _ ← bit "direct_8x8_inference_flag"
  let frameCroppingFlag ← bit "frame_cropping_flag"
  let (left, right, top, bottom) ← frameCrop frameCroppingFlag
  let _ ← bit "vui_parameters_present_flag"
  return (Int.bmod ((picWidthInMbsMinus1 + 1) * 16 - left * 2 - right * 2) (2 ^ 32),
    Int.bmod ((2 - frameMbsOnlyFlag) * (picHeightInMapUnitsMinus1 + 1) * 16 - top * 2 -
      bottom * 2) (2 ^ 32))

/-- `avc_demux_sps_rbsp` -/
def avcDemuxSpsRbsp (rbsp : List UInt8) : AvcDecode Unit := do
  let avcParseSps ← Prog.read SrsFormat.avcParseSps
  if avcParseSps then
    match rbsp with
    | profileIdc :: flags :: levelIdc :: rest => do
      refuse (profileIdc = 0) (AvcError.new "sps the profile_idc invalid")
      refuse (flags &&& 0x03 ≠ 0) (AvcError.new "sps the flags invalid")
      refuse (levelIdc = 0) (AvcError.new "sps the level_idc invalid")
      let size ← alone (spsFields profileIdc.toNat) (SrsBitBuffer.new ⟨rest, 0⟩)
      onVcodec fun vcodec => { vcodec with width := size.1, height := size.2 }
    | _ => Prog.throw (AvcError.new "sps shall atleast 3bytes")
  else return ()

/-- The bytes of the SPS without emulation bytes, in a vector of the size of the SPS. -/
def spsRbsp (sps : List UInt8) : AvcDecode (List UInt8) :=
  match Rbsp.removeEmulationBytes (sps.drop 1) (List.replicate sps.length 0) with
  | some (nbRbsp, rbsp) => return rbsp.take nbRbsp
  | none => Prog.abort

/-- `avc_demux_sps` -/
def avcDemuxSps : AvcDecode Unit := do
  let sps ← Prog.read fun f => f.vcodec.sequenceParameterSetNALUnit
  match sps with
  | [] => return ()
  | nutv :: _ => do
    refuse (nutv >>> 7 &&& 0x01 ≠ 0) (AvcError.new "forbidden_zero_bit shall be equal to 0")
    refuse (nutv >>> 5 &&& 0x03 = 0)
      (AvcError.new "for sps, nal_ref_idc shall be not be equal to 0")
    refuse (nutv &&& 0x1f ≠ 7) (AvcError.new "for sps, nal_unit_type shall be equal to 7")
    let rbsp ← spsRbsp sps
    avcDemuxSpsRbsp rbsp

/-! ## The record -/

/-- A turn of the loop for the parameter sets: the set, behind its length. -/
def parameterSet (name : String) : AvcDecode (List UInt8) := do
  requires 2 ("decode " ++ name ++ " size")
  let length ← onStream (readUint 2)
  requires length ("decode " ++ name ++ " data")
  onStream (readBytes length)

/-- The loop for the parameter sets, of which `n` are left. Those that are not empty are kept, one
in place of the other. -/
def parameterSets (name : String) (keep : List UInt8 → SrsVideoCodecConfig → SrsVideoCodecConfig) :
    ℕ → AvcDecode Unit
  | 0 => return ()
  | n + 1 => do
    let data ← parameterSet name
    optional (data ≠ []) (onVcodec (keep data))
    parameterSets name keep n

/-- `int8_t` of a byte. -/
@[irreducible] def signedByte (v : ℕ) : ℤ := Int.bmod v 256

def keepSps (data : List UInt8) (vcodec : SrsVideoCodecConfig) : SrsVideoCodecConfig :=
  { vcodec with sequenceParameterSetNALUnit := data }

def keepPps (data : List UInt8) (vcodec : SrsVideoCodecConfig) : SrsVideoCodecConfig :=
  { vcodec with pictureParameterSetNALUnit := data }

/-- `avc_demux_sps_pps` -/
def avcDemuxSpsPps : AvcDecode Unit := do
  let extra ← Prog.read fun f => f.stream.rest
  optional (extra ≠ []) (onVcodec fun vcodec => { vcodec with avcExtraData := extra })
  requires 6 "avc decode sequence header"
  let _ ← onStream (readUint 1)
  let avcProfile ← onStream (readUint 1)
  onVcodec fun vcodec => { vcodec with avcProfile := signedByte avcProfile }
  let _ ← onStream (readUint 1)
  let avcLevel ← onStream (readUint 1)
  onVcodec fun vcodec => { vcodec with avcLevel := signedByte avcLevel }
  let lengthSizeMinusOne ← onStream (readUint 1)
  onVcodec fun vcodec => { vcodec with nalUnitLength := lengthSizeMinusOne % 4 }
  refuse (lengthSizeMinusOne % 4 = 2)
    (AvcError.new "sps lengthSizeMinusOne should never be 2")
  requires 1 "decode SPS"
  let numOfSequenceParameterSets ← onStream (readUint 1)
  refuse (numOfSequenceParameterSets % 32 < 1) (AvcError.new "decode SPS")
  parameterSets "SPS" keepSps (numOfSequenceParameterSets % 32)
  requires 1 "decode PPS"
  let numOfPictureParameterSets ← onStream (readUint 1)
  refuse (numOfPictureParameterSets % 32 < 1) (AvcError.new "decode SPS")
  parameterSets "PPS" keepPps (numOfPictureParameterSets % 32)
  avcDemuxSps

/-! ## The SPS is read to its end or refused -/

theorem uev_total (name : String) : (uev name).Total :=
  ((SrsBitBuffer.readUev_total _).mapErr _).bind fun _ => Prog.total_pure _

theorem bit_total (name : String) : (bit name).Total := SrsBitBuffer.avcNaluReadBit_total.mapErr _

theorem times_total {x : SpsDecode Unit} (h : x.Total) (n : ℕ) : (times x n).Total := by
  induction n with
  | zero => exact Prog.total_pure ()
  | succ n ih => exact h.bind fun _ => ih

theorem chromaFormat_total : chromaFormat.Total := by
  apply (uev_total _).bind
  intro chromaFormatIdc
  apply ((bit_total _).bind fun _ => Prog.total_pure ()).optional.bind
  intro _
  apply (uev_total _).bind
  intro _
  apply (uev_total _).bind
  intro _
  apply (bit_total _).bind
  intro _
  apply (bit_total _).bind
  intro _
  exact (times_total ((bit_total _).bind fun _ => Prog.total_pure ()) _).optional

theorem picOrderCnt_total (picOrderCntType : ℤ) : (picOrderCnt picOrderCntType).Total := by
  apply Prog.Total.ite
  · exact (uev_total _).bind fun _ => Prog.total_pure ()
  · apply Prog.Total.ite
    · apply (bit_total _).bind
      intro _
      apply (uev_total _).bind
      intro _
      apply (uev_total _).bind
      intro _
      apply (uev_total _).bind
      intro numRefFrames
      apply (Prog.total_refuse _ _).bind
      intro _
      exact times_total ((uev_total _).bind fun _ => Prog.total_pure ()) _
    · exact Prog.total_pure ()

theorem frameCrop_total (frameCroppingFlag : ℕ) : (frameCrop frameCroppingFlag).Total := by
  apply Prog.Total.ite
  · apply (uev_total _).bind
    intro _
    apply (uev_total _).bind
    intro _
    apply (uev_total _).bind
    intro _
    apply (uev_total _).bind
    intro _
    exact Prog.total_pure _
  · exact Prog.total_pure _

theorem spsFields_total (profileIdc : ℕ) : (spsFields profileIdc).Total := by
  apply (uev_total _).bind
  intro _
  apply (Prog.total_refuse _ _).bind
  intro _
  apply chromaFormat_total.optional.bind
  intro _
  apply (uev_total _).bind
  intro _
  apply (uev_total _).bind
  intro picOrderCntType
  apply (picOrderCnt_total picOrderCntType).bind
  intro _
  apply (uev_total _).bind
  intro _
  apply (bit_total _).bind
  intro _
  apply (uev_total _).bind
  intro _
  apply (uev_total _).bind
  intro _
  apply (bit_total _).bind
  intro _
  apply ((bit_total _).bind fun _ => Prog.total_pure ()).optional.bind
  intro _
  apply (bit_total _).bind
  intro _
  apply (bit_total _).bind
  intro frameCroppingFlag
  apply (frameCrop_total frameCroppingFlag).bind
  rintro ⟨left, right, top, bottom⟩
  apply (bit_total _).bind
  intro _
  exact Prog.total_pure _

/-- Only the size of the video is not the same. -/
def SizeOnly (v v' : SrsVideoCodecConfig) : Prop :=
  ∃ width height, v' = { v with width := width, height := height }

theorem sizeOnly_refl (v : SrsVideoCodecConfig) : SizeOnly v v := ⟨v.width, v.height, rfl⟩

/-- The program returns, and what it leaves of the configuration, also with an error, satisfies
`P`. -/
def Leaves {α : Type} (x : AvcDecode α) (f : SrsFormat) (P : SrsVideoCodecConfig → Prop) : Prop :=
  x.Ends f (fun _ t => P t.vcodec) (fun t => P t.vcodec) False

variable {P Q : SrsVideoCodecConfig → Prop}

theorem Leaves.mono {α : Type} {x : AvcDecode α} {f : SrsFormat}
    (h : Leaves x f P) (hpq : ∀ v, P v → Q v) :
    Leaves x f Q :=
  Prog.Ends.mono h (fun _ t ht => hpq t.vcodec ht) (fun t ht => hpq t.vcodec ht) (fun hf => hf)

/-- What is left is one configuration, with all that is known of it. -/
theorem Leaves.and {α : Type} {x : AvcDecode α} {f : SrsFormat}
    (hp : Leaves x f P) (hq : Leaves x f Q) :
    ∃ v, P v ∧ Q v := by
  unfold Leaves Prog.Ends at hp hq
  cases hrun : x f with
  | ok a t =>
    rw [hrun] at hp hq
    exact ⟨t.vcodec, hp, hq⟩
  | err e t =>
    rw [hrun] at hp hq
    exact ⟨t.vcodec, hp, hq⟩
  | fault =>
    rw [hrun] at hp
    exact hp.elim
  | hang =>
    rw [hrun] at hp
    exact hp.elim

theorem avcDemuxSpsRbsp_leaves (rbsp : List UInt8) (f : SrsFormat) :
    Leaves (avcDemuxSpsRbsp rbsp) f (SizeOnly f.vcodec) := by
  have hsame := sizeOnly_refl f.vcodec
  apply Prog.Ends.bind_read
  apply Prog.Ends.ite
  · intro _
    match rbsp with
    | [] => exact Prog.Ends.throw hsame
    | [_] => exact Prog.Ends.throw hsame
    | [_, _] => exact Prog.Ends.throw hsame
    | profileIdc :: flags :: levelIdc :: rest =>
      refine Prog.Ends.bind_refuse (fun _ => hsame) fun _ => ?_
      refine Prog.Ends.bind_refuse (fun _ => hsame) fun _ => ?_
      refine Prog.Ends.bind_refuse (fun _ => hsame) fun _ => ?_
      apply Prog.Ends.bind
      refine ((spsFields_total profileIdc.toNat).alone _ f).mono ?_ ?_ (fun hf => hf)
      · rintro size t rfl
        exact Prog.Ends.modify ⟨size.1, size.2, rfl⟩
      · rintro t rfl
        exact hsame
  · intro _
    exact Prog.Ends.pure hsame

/-- Whatever the SPS is, it is read or refused, and the parameter sets stay. -/
theorem avcDemuxSps_leaves (f : SrsFormat) : Leaves avcDemuxSps f (SizeOnly f.vcodec) := by
  have hsame := sizeOnly_refl f.vcodec
  apply Prog.Ends.bind_read
  cases hsps : f.vcodec.sequenceParameterSetNALUnit with
  | nil => exact Prog.Ends.pure hsame
  | cons nutv sps =>
    refine Prog.Ends.bind_refuse (fun _ => hsame) fun _ => ?_
    refine Prog.Ends.bind_refuse (fun _ => hsame) fun _ => ?_
    refine Prog.Ends.bind_refuse (fun _ => hsame) fun _ => ?_
    apply Prog.Ends.bind
    -- the vector has room for the whole SPS
    have hroom : ((nutv :: sps).drop 1).length ≤
        (List.replicate (nutv :: sps).length (0 : UInt8)).length := by
      rw [List.length_replicate, List.length_drop]
      omega
    obtain ⟨nbRbsp, rbsp, hrun, -⟩ := Rbsp.removeEmulationBytes_run _ _ hroom
    have hrbsp : spsRbsp (nutv :: sps) f = .ok (rbsp.take nbRbsp) f := by
      unfold spsRbsp
      rw [hrun]
      rfl
    exact Prog.ends_of_ok hrbsp (avcDemuxSpsRbsp_leaves _ f)

/-! ## Reading a record -/

/-- On a format with the configuration `v`, and the bytes `p` left of the stream, the program goes
on as `y` does with `v'` and `q`. -/
def LeadsTo {α : Type} (x : AvcDecode α) (v : SrsVideoCodecConfig) (p : List UInt8)
    (y : AvcDecode α) (v' : SrsVideoCodecConfig) (q : List UInt8) : Prop :=
  ∀ f : SrsFormat, f.vcodec = v → f.stream.pos ≤ f.stream.bytes.length → f.stream.rest = p →
    ∃ b : SrsBuffer, x f = y { f with vcodec := v', stream := b } ∧ b.pos ≤ b.bytes.length ∧
      b.rest = q

section LeadsTo

variable {α β : Type} {x y z : AvcDecode α} {v v' v'' : SrsVideoCodecConfig}
  {p q r : List UInt8}

theorem LeadsTo.trans (h : LeadsTo x v p y v' q) (h' : LeadsTo y v' q z v'' r) :
    LeadsTo x v p z v'' r := by
  intro f hv hpos hrest
  obtain ⟨b, hrun, hb, hq⟩ := h f hv hpos hrest
  obtain ⟨b', hrun', hb', hr⟩ := h' { f with vcodec := v', stream := b } rfl hb hq
  exact ⟨b', hrun.trans hrun', hb', hr⟩

theorem leadsTo_refl (x : AvcDecode α) (v : SrsVideoCodecConfig) (p : List UInt8) :
    LeadsTo x v p x v p := by
  intro f hv hpos hrest
  subst hv
  exact ⟨f.stream, rfl, hpos, hrest⟩

variable {k : α → AvcDecode β}

/-- What comes next goes on from there. -/
theorem LeadsTo.bind {a : α} (h : LeadsTo x v p (pure a) v' q) :
    LeadsTo (x >>= k) v p (k a) v' q := by
  intro f hv hpos hrest
  obtain ⟨b, hrun, hb, hq⟩ := h f hv hpos hrest
  exact ⟨b, Prog.bind_ok hrun k, hb, hq⟩

/-- An error ends the program. -/
theorem LeadsTo.bind_throw {e : AvcError}
    (h : LeadsTo x v p (Prog.throw e) v' q) : LeadsTo (x >>= k) v p (Prog.throw e) v' q := by
  intro f hv hpos hrest
  obtain ⟨b, hrun, hb, hq⟩ := h f hv hpos hrest
  exact ⟨b, Prog.bind_err hrun k, hb, hq⟩

theorem onStream_leads {x : Dec α} {a : α} (h : Reads x p a q) (v : SrsVideoCodecConfig) :
    LeadsTo (onStream x) v p (pure a) v q := by
  intro f hv hpos hrest
  subst hv
  obtain ⟨b, hrun, hinside, hq⟩ := h f.stream hpos hrest
  refine ⟨b, ?_, hinside.2, hq⟩
  unfold onStream zoom Prog.mapErr
  rw [hrun]
  rfl

theorem requires_leads {n : ℕ} (h : n ≤ p.length) (message : String) (v : SrsVideoCodecConfig) :
    LeadsTo (requires n message) v p (pure ()) v p := by
  intro f hv hpos hrest
  subst hv
  refine ⟨f.stream, ?_, hpos, hrest⟩
  have hthere : f.stream.require n = true := by
    rw [← hrest, length_rest] at h
    rw [require_iff]
    omega
  have hnot : ¬ f.stream.require n = false := by
    simp [hthere]
  rw [requires, Prog.bind_ok (Prog.read_apply _ _), Prog.refuse_pass hnot]
  rfl

theorem onVcodec_leads (g : SrsVideoCodecConfig → SrsVideoCodecConfig) (v : SrsVideoCodecConfig)
    (p : List UInt8) : LeadsTo (onVcodec g) v p (pure ()) (g v) p := by
  intro f hv hpos hrest
  subst hv
  exact ⟨f.stream, rfl, hpos, hrest⟩

theorem refuse_leads {c : Prop} [Decidable c] (h : ¬ c) (e : AvcError) (v : SrsVideoCodecConfig)
    (p : List UInt8) : LeadsTo (refuse c e) v p (pure ()) v p := by
  unfold refuse
  rw [if_neg h]
  exact leadsTo_refl _ v p

theorem refused_leads {c : Prop} [Decidable c] (h : c) (e : AvcError) (v : SrsVideoCodecConfig)
    (p : List UInt8) : LeadsTo (refuse c e) v p (Prog.throw e) v p := by
  unfold refuse
  rw [if_pos h]
  exact leadsTo_refl _ v p

/-- What the program leaves is what the rest of it leaves. -/
theorem LeadsTo.leaves {P : SrsVideoCodecConfig → Prop} (h : LeadsTo x v p y v' q)
    (hy : ∀ f : SrsFormat, f.vcodec = v' → Leaves y f P) {f : SrsFormat} (hv : f.vcodec = v)
    (hpos : f.stream.pos ≤ f.stream.bytes.length) (hrest : f.stream.rest = p) :
    Leaves x f P := by
  obtain ⟨b, hrun, -, -⟩ := h f hv hpos hrest
  have hleaves := hy { f with vcodec := v', stream := b } rfl
  unfold Leaves Prog.Ends at hleaves ⊢
  rw [hrun]
  exact hleaves

end LeadsTo

/-! ## Parameter sets -/

/-- A parameter set, of a size that fits in two bytes. -/
structure ParameterSet where
  data : List UInt8
  short : data.length < 65536

/-- The set behind its length. -/
def ParameterSet.toBytes (set : ParameterSet) : List UInt8 :=
  bytesBE 2 set.data.length ++ set.data

/-- The first set that is not empty. -/
def firstNonEmpty (sets : List ParameterSet) : Option (List UInt8) :=
  (sets.map ParameterSet.data).find? fun data => data ≠ []

/-- The last set that is not empty. -/
def lastNonEmpty (sets : List ParameterSet) : Option (List UInt8) :=
  (sets.map ParameterSet.data).reverse.find? fun data => data ≠ []

/-- The configuration with the sets that are not empty kept, one in place of the other. -/
def keepAll (keep : List UInt8 → SrsVideoCodecConfig → SrsVideoCodecConfig)
    (sets : List ParameterSet) (v : SrsVideoCodecConfig) : SrsVideoCodecConfig :=
  sets.foldl (fun v set => if set.data ≠ [] then keep set.data v else v) v

section Sets

variable {v : SrsVideoCodecConfig} {q : List UInt8}

theorem parameterSet_leads (name : String) (set : ParameterSet) (v : SrsVideoCodecConfig)
    (q : List UInt8) :
    LeadsTo (parameterSet name) v (set.toBytes ++ q) (pure set.data) v q := by
  have hlength : set.data.length % 256 ^ 2 = set.data.length := Nat.mod_eq_of_lt set.short
  have hread := reads_bytesBE 2 set.data.length (set.data ++ q)
  rw [hlength] at hread
  have hdata : Reads (readBytes set.data.length) (set.data ++ q) set.data q := by
    have hread := reads_readBytes (n := set.data.length) (p := set.data ++ q) (by simp)
    rwa [List.take_left, List.drop_left] at hread
  unfold ParameterSet.toBytes
  rw [List.append_assoc]
  apply (requires_leads (by simp) _ _).bind.trans
  apply (onStream_leads hread v).bind.trans
  apply (requires_leads (by simp) _ _).bind.trans
  exact onStream_leads hdata v

theorem parameterSets_leads (name : String)
    (keep : List UInt8 → SrsVideoCodecConfig → SrsVideoCodecConfig) (sets : List ParameterSet)
    (v : SrsVideoCodecConfig) (q : List UInt8) :
    LeadsTo (parameterSets name keep sets.length) v (sets.flatMap ParameterSet.toBytes ++ q)
      (pure ()) (keepAll keep sets v) q := by
  induction sets generalizing v with
  | nil => exact leadsTo_refl _ v q
  | cons set sets ih =>
    rw [List.flatMap_cons, List.append_assoc]
    apply (parameterSet_leads name set v _).bind.trans
    have hkeep : LeadsTo (optional (set.data ≠ []) (onVcodec (keep set.data))) v
        (sets.flatMap ParameterSet.toBytes ++ q) (pure ())
        (if set.data ≠ [] then keep set.data v else v)
        (sets.flatMap ParameterSet.toBytes ++ q) := by
      by_cases hempty : set.data = []
      · rw [hempty]
        exact leadsTo_refl _ v _
      · rw [if_pos hempty, decide_eq_true hempty]
        exact onVcodec_leads _ v _
    apply hkeep.bind.trans
    exact ih _

theorem lastNonEmpty_append (sets : List ParameterSet) (set : ParameterSet) :
    lastNonEmpty (sets ++ [set]) =
      if set.data ≠ [] then some set.data else lastNonEmpty sets := by
  unfold lastNonEmpty
  rw [List.map_append, List.reverse_append]
  show List.find? (fun data => decide (data ≠ []))
    (set.data :: (sets.map ParameterSet.data).reverse) = _
  rw [List.find?_cons]
  by_cases hempty : set.data = []
  · rw [if_neg (not_not_intro hempty), decide_eq_false (not_not_intro hempty)]
  · rw [if_pos hempty, decide_eq_true hempty]

variable {sets : List ParameterSet}

theorem firstNonEmpty_ne_nil {data : List UInt8}
    (h : firstNonEmpty sets = some data) : data ≠ [] := by
  unfold firstNonEmpty at h
  simpa using List.find?_some h

/-- Without a first one there is no last one. -/
theorem lastNonEmpty_eq_none (h : firstNonEmpty sets = none) : lastNonEmpty sets = none := by
  unfold firstNonEmpty at h
  unfold lastNonEmpty
  rw [List.find?_eq_none] at h ⊢
  intro data hdata
  exact h data (List.mem_reverse.mp hdata)

theorem eq_some_of_getD {o : Option (List UInt8)} {data : List UInt8} (hne : data ≠ [])
    (h : data = o.getD []) : o = some data := by
  cases o with
  | none => exact absurd h hne
  | some data' => exact congrArg some h.symm

/-- Of the sets the last that is not empty is kept, and without one what was there. -/
theorem keepAll_eq (keep : List UInt8 → SrsVideoCodecConfig → SrsVideoCodecConfig)
    (hkeep : ∀ data data' v, keep data (keep data' v) = keep data v) (sets : List ParameterSet)
    (v : SrsVideoCodecConfig) :
    keepAll keep sets v = (lastNonEmpty sets).elim v fun data => keep data v := by
  induction sets using List.reverseRecOn with
  | nil => rfl
  | append_singleton sets set ih =>
    have hsnoc : keepAll keep (sets ++ [set]) v =
        if set.data ≠ [] then keep set.data (keepAll keep sets v) else keepAll keep sets v :=
      List.foldl_append
    rw [hsnoc, ih, lastNonEmpty_append]
    by_cases hempty : set.data = []
    · rw [if_neg (not_not_intro hempty), if_neg (not_not_intro hempty)]
    · rw [if_pos hempty, if_pos hempty]
      cases lastNonEmpty sets with
      | none => rfl
      | some data => exact hkeep set.data data v

end Sets

/-! ## Records -/

/-- A well-formed record: its reserved bits are set, a length takes 1, 2 or 4 bytes, there are no
more parameter sets than their counts can say, and anything may follow. -/
structure AvcRecord where
  avcProfileIndication : UInt8
  profileCompatibility : UInt8
  avcLevelIndication : UInt8
  lengthSizeMinusOne : ℕ
  spss : List ParameterSet
  ppss : List ParameterSet
  trailer : List UInt8
  lengthSize : lengthSizeMinusOne = 0 ∨ lengthSizeMinusOne = 1 ∨ lengthSizeMinusOne = 3
  fewSpss : spss.length < 32
  fewPpss : ppss.length < 256

namespace AvcRecord

/-- The six bytes in front of the parameter sets. -/
def header (r : AvcRecord) : List UInt8 :=
  [0x01, r.avcProfileIndication, r.profileCompatibility, r.avcLevelIndication,
    UInt8.ofNat (0xfc + r.lengthSizeMinusOne), UInt8.ofNat (0xe0 + r.spss.length)]

def toBytes (r : AvcRecord) : List UInt8 :=
  r.header ++ (r.spss.flatMap ParameterSet.toBytes ++ (UInt8.ofNat r.ppss.length ::
    (r.ppss.flatMap ParameterSet.toBytes ++ r.trailer)))

/-- The configuration with what the header says. -/
def configure (r : AvcRecord) (v : SrsVideoCodecConfig) : SrsVideoCodecConfig :=
  { v with
    avcExtraData := r.toBytes
    avcProfile := signedByte r.avcProfileIndication.toNat
    avcLevel := signedByte r.avcLevelIndication.toNat
    nalUnitLength := r.lengthSizeMinusOne }

/-- The PPS that are read: the count is taken from five bits of its byte. -/
def readPpss (r : AvcRecord) : List ParameterSet := r.ppss.take (r.ppss.length % 32)

end AvcRecord

section Records

variable (r : AvcRecord) (v : SrsVideoCodecConfig)

theorem reads_byte (b : UInt8) (q : List UInt8) : Reads (readUint 1) (b :: q) b.toNat q := by
  have hread := reads_readUint (n := 1) (p := b :: q) (by simp)
  have hone : ofBytesBE [b] = b.toNat := by
    simp [ofBytesBE]
  have htake : (b :: q).take 1 = [b] := rfl
  rw [htake, hone] at hread
  exact hread

theorem numOfSpss (r : AvcRecord) : (UInt8.ofNat (0xe0 + r.spss.length)).toNat % 32 =
    r.spss.length := by
  have hfew := r.fewSpss
  rw [UInt8.toNat_ofNat']
  omega

theorem numOfPpss (r : AvcRecord) : (UInt8.ofNat r.ppss.length).toNat % 32 = r.readPpss.length := by
  have hfew := r.fewPpss
  unfold AvcRecord.readPpss
  rw [UInt8.toNat_ofNat', List.length_take]
  omega

theorem lengthSize_mod (r : AvcRecord) :
    (UInt8.ofNat (0xfc + r.lengthSizeMinusOne)).toNat % 4 = r.lengthSizeMinusOne := by
  rw [UInt8.toNat_ofNat']
  rcases r.lengthSize with h | h | h <;> omega

/-- The header of the record, up to the count of the SPS. -/
theorem header_leads (r : AvcRecord) (v : SrsVideoCodecConfig) :
    LeadsTo avcDemuxSpsPps v r.toBytes (do
      refuse (r.spss.length < 1) (AvcError.new "decode SPS")
      parameterSets "SPS" keepSps r.spss.length
      requires 1 "decode PPS"
      let numOfPictureParameterSets ← onStream (readUint 1)
      refuse (numOfPictureParameterSets % 32 < 1) (AvcError.new "decode SPS")
      parameterSets "PPS" keepPps (numOfPictureParameterSets % 32)
      avcDemuxSps) (r.configure v) (r.spss.flatMap ParameterSet.toBytes ++
        (UInt8.ofNat r.ppss.length :: (r.ppss.flatMap ParameterSet.toBytes ++ r.trailer))) := by
  have hextra : LeadsTo (Prog.read (fun f : SrsFormat => f.stream.rest) : AvcDecode _) v r.toBytes
      (pure r.toBytes) v r.toBytes := by
    intro f hv hpos hrest
    subst hv
    exact ⟨f.stream, by rw [Prog.read_apply, hrest]; rfl, hpos, hrest⟩
  have hlength : 6 ≤ r.toBytes.length := by
    unfold AvcRecord.toBytes AvcRecord.header
    simp
  have hnotTwo : ¬ (UInt8.ofNat (0xfc + r.lengthSizeMinusOne)).toNat % 4 = 2 := by
    rw [lengthSize_mod]
    rcases r.lengthSize with h | h | h <;> omega
  apply hextra.bind.trans
  have hne : r.toBytes ≠ [] := by
    intro hnil
    rw [hnil] at hlength
    cases hlength
  rw [decide_eq_true hne]
  apply (onVcodec_leads (fun v => { v with avcExtraData := r.toBytes }) v _).bind.trans
  apply (requires_leads hlength _ _).bind.trans
  apply (onStream_leads (reads_byte _ _) _).bind.trans
  apply (onStream_leads (reads_byte _ _) _).bind.trans
  apply (onVcodec_leads _ _ _).bind.trans
  apply (onStream_leads (reads_byte _ _) _).bind.trans
  apply (onStream_leads (reads_byte _ _) _).bind.trans
  apply (onVcodec_leads _ _ _).bind.trans
  apply (onStream_leads (reads_byte _ _) _).bind.trans
  apply (onVcodec_leads _ _ _).bind.trans
  apply (refuse_leads hnotTwo _ _ _).bind.trans
  apply (requires_leads (by simp) _ _).bind.trans
  apply (onStream_leads (reads_byte _ _) _).bind.trans
  rw [numOfSpss, lengthSize_mod]
  dsimp only
  exact leadsTo_refl _ (r.configure v) _

/-- What a record leaves of the configuration `v`: what its header says, and of each kind the last
parameter set that is read and not empty. -/
structure Configured (r : AvcRecord) (v v' : SrsVideoCodecConfig) : Prop where
  avcProfile : v'.avcProfile = signedByte r.avcProfileIndication.toNat
  avcLevel : v'.avcLevel = signedByte r.avcLevelIndication.toNat
  nalUnitLength : v'.nalUnitLength = r.lengthSizeMinusOne
  sps : v'.sequenceParameterSetNALUnit =
    (lastNonEmpty r.spss).getD v.sequenceParameterSetNALUnit
  pps : v'.pictureParameterSetNALUnit =
    if r.spss = [] then v.pictureParameterSetNALUnit
    else (lastNonEmpty r.readPpss).getD v.pictureParameterSetNALUnit

theorem keepAll_keepSps (sets : List ParameterSet) (v : SrsVideoCodecConfig) :
    keepAll keepSps sets v =
      { v with sequenceParameterSetNALUnit :=
        (lastNonEmpty sets).getD v.sequenceParameterSetNALUnit } := by
  rw [keepAll_eq keepSps fun _ _ _ => rfl]
  cases lastNonEmpty sets with
  | none => rfl
  | some data => rfl

theorem keepAll_keepPps (sets : List ParameterSet) (v : SrsVideoCodecConfig) :
    keepAll keepPps sets v =
      { v with pictureParameterSetNALUnit :=
        (lastNonEmpty sets).getD v.pictureParameterSetNALUnit } := by
  rw [keepAll_eq keepPps fun _ _ _ => rfl]
  cases lastNonEmpty sets with
  | none => rfl
  | some data => rfl

/-- What the demuxer makes of a record, whether it accepts the SPS that it keeps or not. -/
theorem record_leaves (r : AvcRecord) {f : SrsFormat} (hpos : f.stream.pos ≤ f.stream.bytes.length)
    (hrest : f.stream.rest = r.toBytes) :
    Leaves avcDemuxSpsPps f (Configured r f.vcodec) := by
  generalize hv : f.vcodec = v
  have hheader := header_leads r v
  by_cases hnone : r.spss.length < 1
  · have hnil : r.spss = [] := List.length_eq_zero_iff.mp (by omega)
    refine (hheader.trans (refused_leads hnone _ _ _).bind_throw).leaves (fun g hg => ?_) hv hpos
      hrest
    apply Prog.Ends.throw
    rw [hg]
    exact ⟨rfl, rfl, rfl, by rw [hnil]; rfl, by rw [if_pos hnil]; rfl⟩
  · have hsome : r.spss ≠ [] := by
      intro hnil
      rw [hnil] at hnone
      exact hnone Nat.zero_lt_one
    have hspss := hheader.trans ((refuse_leads hnone _ _ _).bind.trans
      ((parameterSets_leads "SPS" keepSps r.spss _ _).bind.trans
        ((requires_leads (by simp) _ _).bind.trans (onStream_leads (reads_byte _ _) _).bind)))
    rw [numOfPpss, keepAll_keepSps] at hspss
    by_cases hmissing : r.readPpss.length < 1
    · have hnil : r.readPpss = [] := List.length_eq_zero_iff.mp (by omega)
      refine (hspss.trans (refused_leads hmissing _ _ _).bind_throw).leaves (fun g hg => ?_) hv hpos
        hrest
      apply Prog.Ends.throw
      rw [hg]
      exact ⟨rfl, rfl, rfl, rfl, by rw [if_neg hsome, hnil]; rfl⟩
    · have hsplit : r.ppss.flatMap ParameterSet.toBytes ++ r.trailer =
          r.readPpss.flatMap ParameterSet.toBytes ++
            ((r.ppss.drop (r.ppss.length % 32)).flatMap ParameterSet.toBytes ++ r.trailer) := by
        rw [← List.append_assoc, ← List.flatMap_append, AvcRecord.readPpss, List.take_append_drop]
      rw [hsplit] at hspss
      have hppss := hspss.trans ((refuse_leads hmissing _ _ _).bind.trans
        (parameterSets_leads "PPS" keepPps r.readPpss _ _).bind)
      rw [keepAll_keepPps] at hppss
      refine hppss.leaves (fun g hg => ?_) hv hpos hrest
      apply (avcDemuxSps_leaves g).mono
      rintro v' ⟨width, height, rfl⟩
      rw [hg]
      exact ⟨rfl, rfl, rfl, rfl, by rw [if_neg hsome]; rfl⟩

end Records

end SrsChatRoom.Kernel.Avc
