import SrsChatRoom.Kernel.NaluDemux
import SrsChatRoom.Lib.Endings

/-!
# Frames that are put into transport streams (`SrsTsMessageCache`)

A frame of AAC gets an ADTS header of seven bytes, which says how long the frame is with its
header. A frame of H.264 is written as NALUs in Annex-B, with an access unit delimiter in front,
and with the parameter sets of the codec in front of the first IDR, unless it brings its own.
-/

namespace SrsChatRoom.Kernel

/-! ## AAC -/

/-- `SrsAacObjectType` -/
inductive SrsAacObjectType
  | reserved | aacMain | aacLC | aacSSR | aacHE | aacHEV2
deriving DecidableEq

/-- `SrsAacProfile` -/
inductive SrsAacProfile
  | main | lc | ssr | reserved
deriving DecidableEq

def SrsAacProfile.value : SrsAacProfile → ℕ
  | .main => 0
  | .lc => 1
  | .ssr => 2
  | .reserved => 3

/-- `(SrsAacProfile)profile` -/
def SrsAacProfile.ofValue : ℕ → SrsAacProfile
  | 0 => .main
  | 1 => .lc
  | 2 => .ssr
  | _ => .reserved

/-- `srs_aac_ts2rtmp` -/
def srsAacTs2rtmp : SrsAacProfile → SrsAacObjectType
  | .main => .aacMain
  | .lc => .aacLC
  | .ssr => .aacSSR
  | .reserved => .reserved

/-- `srs_aac_rtmp2ts` -/
def srsAacRtmp2ts : SrsAacObjectType → SrsAacProfile
  | .aacMain => .main
  | .aacHE => .lc
  | .aacHEV2 => .lc
  | .aacLC => .lc
  | .aacSSR => .ssr
  | .reserved => .reserved

/-- The part of `SrsAudioCodecConfig` that is written into the header. -/
structure SrsAudioCodecConfig where
  aacObject : SrsAacObjectType
  aacSampleRate : ℕ
  aacChannels : ℕ

/-- `adts_header`, of a frame of `size` bytes. -/
def adtsHeader (codec : SrsAudioCodecConfig) (size : ℕ) : List UInt8 :=
  let frameLength := size + 7
  let aacProfile := (srsAacRtmp2ts codec.aacObject).value
  [0xff, 0xf9,
    UInt8.ofNat (aacProfile <<< 6 &&& 0xc0 ||| codec.aacSampleRate <<< 2 &&& 0x3c |||
      codec.aacChannels >>> 2 &&& 0x01),
    UInt8.ofNat (codec.aacChannels <<< 6 &&& 0xc0 ||| frameLength >>> 11 &&& 0x03),
    UInt8.ofNat (frameLength >>> 3 &&& 0xff),
    UInt8.ofNat (frameLength <<< 5 &&& 0xe0 ||| 0x1f),
    0xfc]

/-- `SrsTsMessageCache::do_cache_aac`, on the payload of the message. -/
def doCacheAac (codec : SrsAudioCodecConfig) :
    List (List UInt8) → Prog (List UInt8) SrsError Unit
  | [] => return ()
  | sample :: samples => do
    if sample = [] ∨ 0x1fff < sample.length then
      Prog.throw (srsErrorNew .hlsAacFrameLength "ts: invalid aac frame length")
    else do
      Prog.modify fun payload => payload ++ adtsHeader codec sample.length ++ sample
      doCacheAac codec samples

/-! ## H.264 -/

/-- `srs_avc_insert_aud`: `aud_inserted` is passed by value, so that it is `false` each time. -/
def srsAvcInsertAud (audInserted : Bool) (payload : List UInt8) : List UInt8 :=
  if audInserted then payload ++ [0, 0, 1] else payload ++ [0, 0, 0, 1]

/-- `default_aud_nalu` -/
def defaultAudNalu : List UInt8 := [0x09, 0xf0]

/-- The parameter sets of `SrsVideoCodecConfig`. -/
structure SrsVideoCodecConfig where
  sequenceParameterSetNALUnit : List UInt8
  pictureParameterSetNALUnit : List UInt8

/-- A NALU behind a start code. -/
def appendNalu (nalu : List UInt8) : Prog (List UInt8) SrsError Unit :=
  Prog.modify fun payload => srsAvcInsertAud false payload ++ nalu

/-- A parameter set, if it is there. -/
def appendParameterSet (nalu : List UInt8) : Prog (List UInt8) SrsError Unit :=
  Prog.optional (nalu ≠ []) (appendNalu nalu)

/-- The loop over the samples. -/
def cacheSamples (codec : SrsVideoCodecConfig) (hasSpsPps : Bool) :
    Bool → List (List UInt8) → Prog (List UInt8) SrsError Unit
  | _, [] => return ()
  | _, [] :: _ => Prog.throw (srsErrorNew .hlsAvcSampleSize "ts: invalid avc sample length")
  | isSpsPpsAppended, (header :: bytes) :: samples =>
    if header &&& 0x1f = 5 ∧ hasSpsPps = false ∧ isSpsPpsAppended = false then do
      appendParameterSet codec.sequenceParameterSetNALUnit
      appendParameterSet codec.pictureParameterSetNALUnit
      appendNalu (header :: bytes)
      cacheSamples codec hasSpsPps true samples
    else do
      appendNalu (header :: bytes)
      cacheSamples codec hasSpsPps isSpsPpsAppended samples

/-- `SrsTsMessageCache::do_cache_avc`, on the payload of the message. -/
def doCacheAvc (codec : SrsVideoCodecConfig) (frame : VideoFrame) :
    Prog (List UInt8) SrsError Unit := do
  Prog.optional (!frame.hasAud) (appendNalu defaultAudNalu)
  cacheSamples codec frame.hasSpsPps false frame.samples

end SrsChatRoom.Kernel
