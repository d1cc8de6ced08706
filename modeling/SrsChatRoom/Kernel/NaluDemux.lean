import SrsChatRoom.Kernel.Buffer

/-!
# The NALUs of a video frame (`SrsFormat::video_nalu_demux`)

A frame of H.264 comes in one of two formats. In Annex-B a start code stands before each NALU; in
the ISO base media file format (IBMF) its length does, in as many bytes as the sequence header
says, which the code reads as a signed integer. The format is not announced: it is guessed at the
first frame, by trying one parser and, if it fails, the other, and then it is remembered. Samples
that the first parser has added before it failed stay in the frame.
-/

namespace SrsChatRoom.Kernel

/-! ## The frame and the codec -/

/-- `SrsVideoCodecId`, of the codecs that get this far. -/
inductive VideoCodecId
  | forbidden
  | avc
  | hevc
  deriving DecidableEq

/-- `SrsAvcPayloadFormat` -/
inductive PayloadFormat
  | guess
  | annexb
  | ibmf
  deriving DecidableEq

/-- The part of `SrsVideoCodecConfig` that the demuxer looks at. -/
structure VideoCodecConfig where
  id : VideoCodecId
  nalUnitLength : ℕ
  avcExtraData : List UInt8
  payloadFormat : PayloadFormat

/-- `is_avc_codec_ok()` -/
def VideoCodecConfig.isAvcCodecOk (c : VideoCodecConfig) : Bool := c.avcExtraData ≠ []

/-- `SrsMaxNbSamples` -/
def maxNbSamples : ℕ := 256

/-- `SrsVideoFrame`: the samples, by their bytes, and what is noted of them. -/
structure VideoFrame where
  samples : List (List UInt8)
  hasIdr : Bool
  hasAud : Bool
  hasSpsPps : Bool
  firstNaluType : UInt8

/-- `SrsFormat`, with the stream of the frame that is demuxed. -/
structure Format where
  vcodec : VideoCodecConfig
  video : VideoFrame
  stream : SrsBuffer

/-- An error `ERROR_HLS_DECODE_ERROR`: its texts, the outermost first. -/
structure HlsDecodeError where
  messages : List String

def hlsDecodeError (message : String) : HlsDecodeError := ⟨[message]⟩

def HlsDecodeError.wrap (message : String) (e : HlsDecodeError) : HlsDecodeError :=
  ⟨message :: e.messages⟩

/-- A program of the demuxer. -/
abbrev Demux := Prog Format HlsDecodeError

/-! ## `SrsVideoFrame::add_sample` -/

/-- What is noted of a NALU: of H.265 whether it is an IDR, of H.264 its type. -/
def VideoFrame.note (v : VideoFrame) (id : VideoCodecId) (header : UInt8) : VideoFrame :=
  if id = .hevc then
    let naluType := (header &&& 0x7E) >>> 1
    { v with hasIdr := 16 ≤ naluType && naluType ≤ 23 }
  else
    let naluType := header &&& 0x1F
    { v with
      hasIdr := v.hasIdr || naluType == 5
      hasSpsPps := v.hasSpsPps || naluType == 7 || naluType == 8
      hasAud := v.hasAud || naluType == 9
      firstNaluType := if v.firstNaluType = 0 then naluType else v.firstNaluType }

/-- The frame with one more sample. -/
def VideoFrame.push (v : VideoFrame) (id : VideoCodecId) (bytes : List UInt8) : VideoFrame :=
  ({ v with samples := v.samples ++ [bytes] }).note id (bytes.getD 0 0)

/-- `add_sample(bytes, size)`: an empty sample is ignored. -/
def addSample (bytes : List UInt8) : Demux Unit := fun f =>
  if bytes = [] then .ok () f
  else if maxNbSamples ≤ f.video.samples.length then
    .err ((hlsDecodeError "Frame samples overflow").wrap "add frame") f
  else .ok () { f with video := f.video.push f.vcodec.id bytes }

/-! ## Annex-B -/

/-- `srs_avc_startswith_annexb`: the size of the start code, `N[00] 00 00 01` with `N >= 0`. -/
def startsWithAnnexb : List UInt8 → Option ℕ
  | [] => none
  | a :: l =>
    match l with
    | b :: c :: _ =>
      if a ≠ 0 ∨ b ≠ 0 then none
      else if c = 1 then some 3
      else (startsWithAnnexb l).map (· + 1)
    | _ => none

/-- The bytes that the loop for the NALU skips, up to the next start code. -/
def untilStartCode : List UInt8 → List UInt8
  | [] => []
  | x :: l => if (startsWithAnnexb (x :: l)).isSome then [] else x :: untilStartCode l

/-- A program on the stream. -/
def onStream {α : Type} (x : Dec α) : Demux α := fun f =>
  match x f.stream with
  | .ok a b => .ok a { f with stream := b }
  | .err e b => .err ⟨e.messages⟩ { f with stream := b }
  | .fault => .fault
  | .hang => .hang

/-- The loop of `do_avc_demux_annexb_format`. -/
def annexbLoop : ℕ → Demux Unit
  | 0 => fun _ => .hang
  | fuel + 1 => do
    let rest ← Prog.read fun f : Format => f.stream.rest
    if rest = [] then return ()
    match startsWithAnnexb rest with
    | none => return ()
    | some nbStartCode =>
      onStream (SrsBuffer.skip nbStartCode)
      let nalu ← Prog.read fun f : Format => untilStartCode f.stream.rest
      onStream (SrsBuffer.skip nalu.length)
      Prog.wrap (HlsDecodeError.wrap "add video frame") (addSample nalu)
      annexbLoop fuel

/-- `do_avc_demux_annexb_format` -/
def doAvcDemuxAnnexbFormat : Demux Unit := do
  let rest ← Prog.read fun f : Format => f.stream.rest
  if (startsWithAnnexb rest).isNone then Prog.throw (hlsDecodeError "not annexb")
  else annexbLoop (rest.length + 1)

/-- The stream goes back to where it was if there is an error. -/
def restoring (x : Demux Unit) : Demux Unit := fun f =>
  match x f with
  | .err e f' =>
    match SrsBuffer.skip ((f.stream.pos : ℤ) - f'.stream.pos) f'.stream with
    | .ok _ b => .err e { f' with stream := b }
    | _ => .fault
  | o => o

/-- `avc_demux_annexb_format` -/
def avcDemuxAnnexbFormat : Demux Unit := restoring doAvcDemuxAnnexbFormat

/-! ## IBMF -/

/-- The bytes of a length. -/
def lengthSize (nalUnitLength : ℕ) : ℕ :=
  if nalUnitLength = 3 then 4 else if nalUnitLength = 1 then 2 else 1

/-- `read_4bytes`, `read_2bytes` or `read_1bytes`, as a signed integer. -/
def readLength (nalUnitLength : ℕ) : Demux ℤ := do
  let v ← onStream (SrsBuffer.readUint (lengthSize nalUnitLength))
  return Int.bmod v (256 ^ lengthSize nalUnitLength)

/-- `if (!stream->require(n)) return srs_error_new(...)` -/
def requireLeft (n : ℤ) (message : String) : Demux Unit := fun f =>
  if f.stream.require n then .ok () f else .err (hlsDecodeError message) f

/-- `if (n < 0) return srs_error_new(...)` -/
def requireNonneg (n : ℤ) (message : String) : Demux Unit := fun f =>
  if n < 0 then .err (hlsDecodeError message) f else .ok () f

/-- The length of the next NALU, which is all there. -/
def naluLength (nalUnitLength : ℕ) : Demux ℕ := do
  requireLeft (nalUnitLength + 1 : ℕ) "PictureLength:%d, i:%d, NaluLength:%d, left:%d"
  let length ← readLength nalUnitLength
  requireNonneg length "PictureLength:%d, i:%d, NaluLength:%d, left:%d, NALUnitLength:%d"
  requireLeft length "PictureLength:%d, i:%d, NaluLength:%d, left:%d, NALUnitLength:%d"
  return length.toNat

/-- The loop of `do_avc_demux_ibmf_format`. -/
def ibmfLoop (pictureLength : ℕ) : ℕ → ℕ → Demux Unit
  | 0, _ => fun _ => .hang
  | fuel + 1, i =>
    if pictureLength ≤ i then pure ()
    else do
      let nalUnitLength ← Prog.read fun f : Format => f.vcodec.nalUnitLength
      let length ← naluLength nalUnitLength
      let bytes ← Prog.read fun f : Format => f.stream.rest.take length
      Prog.wrap (HlsDecodeError.wrap "avc add video frame") (addSample bytes)
      onStream (SrsBuffer.skip length)
      ibmfLoop pictureLength fuel (i + (nalUnitLength + 1 + length))

/-- `do_avc_demux_ibmf_format`. It asserts that the length does not take three bytes. -/
def doAvcDemuxIbmfFormat : Demux Unit := do
  let pictureLength ← Prog.read fun f : Format => f.stream.rest.length
  let nalUnitLength ← Prog.read fun f : Format => f.vcodec.nalUnitLength
  if nalUnitLength = 2 then Prog.abort
  else ibmfLoop pictureLength (pictureLength + 1) 0

/-- `avc_demux_ibmf_format` -/
def avcDemuxIbmfFormat : Demux Unit := restoring doAvcDemuxIbmfFormat

/-! ## `video_nalu_demux` -/

/-- `vcodec->payload_format = format` -/
def setPayloadFormat (format : PayloadFormat) : Demux Unit := fun f =>
  .ok () { f with vcodec := { f.vcodec with payloadFormat := format } }

/-- Try one parser, then the other. -/
def guessFormat (first second : Demux Unit) (firstFormat secondFormat : PayloadFormat)
    (message : String) : Demux Unit := fun f =>
  match first f with
  | .ok _ f' => setPayloadFormat firstFormat f'
  | .err _ f' =>
    (do Prog.wrap (HlsDecodeError.wrap message) second; setPayloadFormat secondFormat : Demux Unit) f'
  | .fault => .fault
  | .hang => .hang

/-- `video_nalu_demux` -/
def videoNaluDemux (tryAnnexbFirst : Bool) : Demux Unit := do
  let vcodec ← Prog.read Format.vcodec
  if !vcodec.isAvcCodecOk then return ()
  if vcodec.id = .hevc then doAvcDemuxIbmfFormat
  else
    match vcodec.payloadFormat with
    | .ibmf => Prog.wrap (HlsDecodeError.wrap "avc demux ibmf") avcDemuxIbmfFormat
    | .annexb => Prog.wrap (HlsDecodeError.wrap "avc demux annexb") avcDemuxAnnexbFormat
    | .guess =>
      if tryAnnexbFirst then
        guessFormat avcDemuxAnnexbFormat avcDemuxIbmfFormat .annexb .ibmf
          "avc demux try_annexb_first=%d"
      else
        guessFormat avcDemuxIbmfFormat avcDemuxAnnexbFormat .ibmf .annexb
          "avc demux try_annexb_first=%d"

end SrsChatRoom.Kernel
