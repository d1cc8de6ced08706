import SrsChatRoom.Protocol.RtmpSend

/-!
# What a message carries (`SrsFlvVideo`, `SrsFlvAudio`)

The live source looks at the type of a message and at the first bytes of its payload, to tell key
frames and sequence headers from the rest. `h265` says whether the server is built with
`SRS_H265`.
-/

namespace SrsChatRoom.Protocol

/-! ## The type of a message -/

/-- `is_audio()`: `RTMP_MSG_AudioMessage` -/
def SharedPtrMessage.isAudio (m : SharedPtrMessage) : Bool := m.messageType == 8

/-- `is_video()`: `RTMP_MSG_VideoMessage` -/
def SharedPtrMessage.isVideo (m : SharedPtrMessage) : Bool := m.messageType == 9

/-- `is_av()` -/
def SharedPtrMessage.isAv (m : SharedPtrMessage) : Bool := m.isAudio || m.isVideo

theorem SharedPtrMessage.isAudio_of_isVideo {m : SharedPtrMessage} (h : m.isVideo = true) :
    m.isAudio = false := by
  have htype : m.messageType = 9 := by simpa [isVideo] using h
  simp [isAudio, htype]

/-! ## Video -/

namespace FlvVideo

/-- `SrsFlvVideo::h264`: `SrsVideoCodecIdAVC` -/
def h264 (data : List UInt8) : Bool :=
  match data with
  | [] => false
  | b :: _ => b &&& 0x0F == 7

/-- `SrsFlvVideo::hevc`: `SrsVideoCodecIdHEVC`, or `hvc1` after an extended header. -/
def hevc (data : List UInt8) : Bool :=
  match data with
  | [] => false
  | b :: rest =>
    if b &&& 0x80 = 0 then b &&& 0x0F == 12
    else data.length ≥ 5 && rest.take 4 == [0x68, 0x76, 0x63, 0x31]

/-- `codec_ok` in `sh` and `SrsGopCache::cache`. -/
def codecOk (h265 : Bool) (data : List UInt8) : Bool := h264 data || (h265 && hevc data)

/-- `SrsFlvVideo::keyframe`: `SrsVideoAvcFrameTypeKeyFrame` -/
def keyframe (data : List UInt8) : Bool :=
  match data with
  | [] => false
  | b :: _ => (b &&& 0x7F) >>> 4 == 1

/-- `SrsFlvVideo::sh`: a key frame with the trait of a sequence header. An extended header has the
trait in its low bits. -/
def sh (h265 : Bool) (data : List UInt8) : Bool :=
  codecOk h265 data &&
    match data with
    | b :: b1 :: _ =>
      if b &&& 0x80 = 0 then b >>> 4 == 1 && b1 == 0
      else (b >>> 4) &&& 0x07 == 1 && b &&& 0x0F == 0
    | _ => false

end FlvVideo

/-! ## Audio -/

namespace FlvAudio

/-- `SrsFlvAudio::aac`: `SrsAudioCodecIdAAC` -/
def aac (data : List UInt8) : Bool :=
  match data with
  | [] => false
  | b :: _ => b >>> 4 == 10

/-- `SrsFlvAudio::sh`: `SrsAudioAacFrameTraitSequenceHeader` -/
def sh (data : List UInt8) : Bool :=
  aac data &&
    match data with
    | _ :: b1 :: _ => b1 == 0
    | _ => false

end FlvAudio

namespace SharedPtrMessage

/-- A video message with a key frame. -/
def isKeyFrame (m : SharedPtrMessage) : Bool := m.isVideo && FlvVideo.keyframe m.payload

/-- A video message with a sequence header. -/
def isVideoSh (h265 : Bool) (m : SharedPtrMessage) : Bool :=
  m.isVideo && FlvVideo.sh h265 m.payload

/-- An audio message with a sequence header. -/
def isAudioSh (m : SharedPtrMessage) : Bool := m.isAudio && FlvAudio.sh m.payload

end SharedPtrMessage

end SrsChatRoom.Protocol
