import SrsChatRoom.Lib.SortedMap
import SrsChatRoom.Lib.TextStream
import Mathlib.Data.List.DropRight

/-!
# Session descriptions (`srs_app_rtc_sdp.cpp`)

`parse` reads a description line by line, `encode` writes one. A line of a media section goes to the
last media description. The attributes read words and numbers with a string stream; where the code
takes the tail of a text from `tellg()` on, the stream must not have come to its end: `tellg()` is
-1 then, and `substr` throws. This is the stop `outOfRange` here, and `back()` of an empty vector
is the stop `backOfEmpty`.

All that is written ends with `kCRLF`, so a writer gives a list of lines. The groups of sources are
parsed but not written. What is negotiated, the search for a description
by its type or encoding, and the setters of all descriptions are left out.
-/

namespace SrsChatRoom.App.Sdp

open TextStream

/-! ## Data -/

structure SrsSessionInfo where
  iceUfrag : Text := []
  icePwd : Text := []
  iceOptions : Text := []
  fingerprintAlgo : Text := []
  fingerprint : Text := []
  setup : Text := []
deriving DecidableEq

structure SrsSSRCInfo where
  ssrc : ℕ := 0
  cname : Text := []
  msid : Text := []
  msidTracker : Text := []
  mslabel : Text := []
  label : Text := []
deriving DecidableEq

structure SrsSSRCGroup where
  semantic : Text
  ssrcs : List ℕ
deriving DecidableEq

structure SrsMediaPayloadType where
  payloadType : ℤ
  encodingName : Text := []
  clockRate : ℤ := 0
  encodingParam : Text := []
  rtcpFb : List Text := []
  formatSpecificParam : Text := []
deriving DecidableEq

structure SrsCandidate where
  protocol : Text
  ip : Text
  port : ℤ
  type : Text
deriving DecidableEq

structure SrsMediaDesc where
  type : Text
  sessionInfo : SrsSessionInfo := {}
  port : ℤ := 0
  rtcpMux : Bool := false
  rtcpRsize : Bool := false
  sendonly : Bool := false
  recvonly : Bool := false
  sendrecv : Bool := false
  inactive : Bool := false
  mid : Text := []
  msid : Text := []
  msidTracker : Text := []
  protos : Text := []
  payloadTypes : List SrsMediaPayloadType := []
  connection : Text := "c=IN IP4 0.0.0.0".toList
  candidates : List SrsCandidate := []
  ssrcGroups : List SrsSSRCGroup := []
  ssrcInfos : List SrsSSRCInfo := []
  extmaps : SortedMap ℤ Text := .empty

/-- `SrsSdp`; `in_media_session_` says that there is a media description. -/
structure SrsSdp where
  version : Text := []
  username : Text := []
  sessionId : Text := []
  sessionVersion : Text := []
  nettype : Text := []
  addrtype : Text := []
  unicastAddress : Text := []
  sessionName : Text := []
  startTime : ℤ := 0
  endTime : ℤ := 0
  connection : Text := []
  sessionInfo : SrsSessionInfo := {}
  groups : List Text := []
  groupPolicy : Text := []
  iceLite : Text := "a=ice-lite".toList
  msidSemantic : Text := []
  msids : List Text := []
  inMediaSession : Bool := false
  mediaDescs : List SrsMediaDesc := []

/-! ## Stops -/

/-- The errors, all with the code `ERROR_RTC_SDP_DECODE`. -/
inductive SdpError
  | fetchFailed
  | fetchWithDelimFailed
  | invalidLine (line : Text)
  | duplicateExtId (id : ℤ)
  | noPayload (payloadType : ℤ) (attr : Text)
  | invalidRtpmap (value : Text)
  | invalidSsrc
deriving DecidableEq

/-- Why parsing ends early. -/
inductive Stop
  | error (e : SdpError)
  | outOfRange
  | backOfEmpty
deriving DecidableEq

abbrev Parsed := Except Stop

def fail {α : Type} (e : SdpError) : Parsed α := .error (.error e)

/-- `FETCH(is, word)`, of what one reader gives. -/
def fetch {α : Type} : Option (α × Text) → Parsed (α × Text)
  | none => fail .fetchFailed
  | some p => .ok p

section
variable {α β : Type}

@[simp] theorem fetch_eq_ok {o : Option (α × Text)} {p : α × Text} :
    fetch o = .ok p ↔ o = some p := by
  cases o with
  | none => simp [fetch, fail]
  | some p => simp [fetch]

/-- What a sequence that succeeds went through. -/
@[simp] theorem bind_eq_ok {p : Parsed α} {f : α → Parsed β} {b : β} :
    p >>= f = .ok b ↔ ∃ a, p = .ok a ∧ f a = .ok b := by
  cases p with
  | ok a =>
    show f a = .ok b ↔ _
    simp
  | error stop =>
    show Except.error stop = .ok b ↔ _
    simp

end

/-- What is parsed satisfies `Q`, if anything is. -/
def Ensures {α : Type} (Q : α → Prop) (p : Parsed α) : Prop := ∀ a, p = .ok a → Q a

section
variable {α β : Type} {Q : α → Prop}

@[simp] theorem ensures_ok {a : α} : Ensures Q (.ok a) ↔ Q a := by simp [Ensures]

@[simp] theorem ensures_error (stop : Stop) : Ensures Q (.error stop) := by simp [Ensures]

@[simp] theorem ensures_fail (e : SdpError) : Ensures Q (fail e) := ensures_error _

theorem ensures_bind {p : Parsed β} {f : β → Parsed α} (h : ∀ b, p = .ok b → Ensures Q (f b)) :
    Ensures Q (p >>= f) := by
  intro a ha
  obtain ⟨b, hb, hf⟩ := bind_eq_ok.1 ha
  exact h b hb a hf

theorem ensures_ite {c : Prop} [Decidable c] {p q : Parsed α} (hp : c → Ensures Q p)
    (hq : ¬ c → Ensures Q q) : Ensures Q (if c then p else q) := by
  split
  · next h => exact hp h
  · next h => exact hq h

end

/-- `is.str().substr(is.tellg())` after something was read up to `rest`. -/
def tail (rest : Text) : Parsed Text := if rest = [] then .error .outOfRange else .ok rest

/-- `skip_first_spaces(str)` -/
def skipFirstSpaces (s : Text) : Text := s.dropWhile (· = ' ')

/-- `atoi`; a number out of range is cut like that of `strtol`. -/
def atoi (s : Text) : ℤ :=
  match number s with
  | none => 0
  | some (negative, n, _) =>
    (max (-2 ^ 63) (min (2 ^ 63 - 1) (signed negative n))).bmod (2 ^ 32)

/-- A text up to its first NUL. -/
def cStr (s : Text) : Text := s.takeWhile (· ≠ '\x00')

/-! ## Parsing the attributes of a session -/

/-- `SrsSessionInfo::parse_attribute(attribute, value)` -/
def SrsSessionInfo.parseAttribute (s : SrsSessionInfo) (attr value : Text) :
    Parsed SrsSessionInfo :=
  if attr = "ice-ufrag".toList then .ok { s with iceUfrag := value }
  else if attr = "ice-pwd".toList then .ok { s with icePwd := value }
  else if attr = "ice-options".toList then .ok { s with iceOptions := value }
  else if attr = "fingerprint".toList then do
    let (algo, is) ← fetch (word value)
    let (fingerprint, _) ← fetch (word is)
    .ok { s with fingerprintAlgo := algo, fingerprint := fingerprint }
  else if attr = "setup".toList then .ok { s with setup := value }
  else .ok s

/-! ## Parsing the attributes of a media description -/

namespace SrsMediaDesc

/-- `find_media_with_payload_type(payload_type)` -/
def findPayload (m : SrsMediaDesc) (payloadType : ℤ) : Option SrsMediaPayloadType :=
  m.payloadTypes.find? (·.payloadType = payloadType)

/-- Change the payload that `find_media_with_payload_type` finds. -/
def updatePayload (m : SrsMediaDesc) (payloadType : ℤ)
    (f : SrsMediaPayloadType → SrsMediaPayloadType) : SrsMediaDesc :=
  let rec go : List SrsMediaPayloadType → List SrsMediaPayloadType
    | [] => []
    | p :: ps => if p.payloadType = payloadType then f p :: ps else p :: go ps
  { m with payloadTypes := go m.payloadTypes }

/-- Change the source that `fetch_or_create_ssrc_info(ssrc)` gives. -/
def updateSsrc (m : SrsMediaDesc) (ssrc : ℕ) (f : SrsSSRCInfo → SrsSSRCInfo) : SrsMediaDesc :=
  let rec go : List SrsSSRCInfo → List SrsSSRCInfo
    | [] => [f { ssrc := ssrc }]
    | i :: is => if i.ssrc = ssrc then f i :: is else i :: go is
  { m with ssrcInfos := go m.ssrcInfos }

/-- `parse_attr_extmap(value)` -/
def parseAttrExtmap (m : SrsMediaDesc) (value : Text) : Parsed SrsMediaDesc := do
  let (id, is) ← fetch (int 32 value)
  if id ∈ m.extmaps.entries.map Prod.fst then fail (.duplicateExtId id)
  else
    let (ext, _) ← fetch (word is)
    .ok { m with extmaps := m.extmaps.assign id ext }

/-- The payload that an attribute names first, which has to be there. -/
def fetchPayload (m : SrsMediaDesc) (attr value : Text) : Parsed (ℤ × Text) := do
  let (payloadType, is) ← fetch (int 32 value)
  if (m.findPayload payloadType).isSome then .ok (payloadType, is)
  else fail (.noPayload payloadType attr)

/-- The parts of a `rtpmap`. -/
def setRtpmap (value : Text) (parts : List Text) :
    Parsed (SrsMediaPayloadType → SrsMediaPayloadType) :=
  match parts with
  | [name, rate, param] => .ok fun p =>
    { p with encodingName := name, clockRate := atoi rate, encodingParam := param }
  | name :: rate :: _ => .ok fun p => { p with encodingName := name, clockRate := atoi rate }
  | _ => fail (.invalidRtpmap value)

/-- `parse_attr_rtpmap(value)` -/
def parseAttrRtpmap (m : SrsMediaDesc) (value : Text) : Parsed SrsMediaDesc := do
  let (payloadType, is) ← m.fetchPayload "rtpmap".toList value
  let (w, _) ← fetch (word is)
  let f ← setRtpmap value (split '/' w)
  .ok (m.updatePayload payloadType f)

/-- `parse_attr_rtcp_fb(value)` -/
def parseAttrRtcpFb (m : SrsMediaDesc) (value : Text) : Parsed SrsMediaDesc := do
  let (payloadType, is) ← m.fetchPayload "rtcp-fb".toList value
  let rtcpFb ← tail is
  .ok (m.updatePayload payloadType fun p =>
    { p with rtcpFb := p.rtcpFb ++ [skipFirstSpaces rtcpFb] })

/-- `parse_attr_fmtp(value)` -/
def parseAttrFmtp (m : SrsMediaDesc) (value : Text) : Parsed SrsMediaDesc := do
  let (payloadType, is) ← m.fetchPayload "fmtp".toList value
  let (w, _) ← fetch (word is)
  .ok (m.updatePayload payloadType fun p => { p with formatSpecificParam := w })

/-- `parse_attr_mid(value)` -/
def parseAttrMid (m : SrsMediaDesc) (value : Text) : Parsed SrsMediaDesc := do
  let (mid, _) ← fetch (word value)
  .ok { m with mid := mid }

/-- `parse_attr_msid(value)`: the tracker is optional. -/
def parseAttrMsid (m : SrsMediaDesc) (value : Text) : Parsed SrsMediaDesc := do
  let (msid, is) ← fetch (word value)
  match word is with
  | none => .ok { m with msid := msid }
  | some (tracker, _) => .ok { m with msid := msid, msidTracker := tracker }

/-- What an attribute of a source sets. -/
def setSsrc (attr value : Text) (i : SrsSSRCInfo) : SrsSSRCInfo :=
  if attr = "cname".toList then { i with cname := value }
  else if attr = "msid".toList then
    match split ' ' value with
    | msid :: tracker :: _ => { i with msid := msid, msidTracker := tracker }
    | msid :: [] => { i with msid := msid }
    | [] => i
  else if attr = "mslabel".toList then { i with mslabel := value }
  else if attr = "label".toList then { i with label := value }
  else i

/-- `getline(is, word, ':')` and the tail behind the delimiter. -/
def attributeAndTail (is : Text) : Parsed (Text × Text) :=
  if is = [] then fail .fetchWithDelimFailed
  else
    match upTo ':' is with
    | (_, none) => .error .outOfRange
    | (attr, some value) => .ok (skipFirstSpaces attr, skipFirstSpaces value)

/-- `parse_attr_ssrc(value)` -/
def parseAttrSsrc (m : SrsMediaDesc) (value : Text) : Parsed SrsMediaDesc := do
  let (ssrc, is) ← fetch (uint 32 value)
  let (attr, ssrcValue) ← attributeAndTail is
  .ok (m.updateSsrc ssrc (setSsrc attr ssrcValue))

/-- A source of a group: 0 if it is no number, and the largest one if it is out of range. -/
def groupSsrc (s : Text) : ℕ :=
  match uint 32 s with
  | some (ssrc, _) => ssrc
  | none => if (number s).isSome then 2 ^ 32 - 1 else 0

/-- `parse_attr_ssrc_group(value)` -/
def parseAttrSsrcGroup (m : SrsMediaDesc) (value : Text) : Parsed SrsMediaDesc := do
  let (semantics, is) ← fetch (word value)
  let ids ← tail is
  .ok { m with ssrcGroups := m.ssrcGroups ++
    [⟨semantics, (split ' ' (skipFirstSpaces ids)).map groupSsrc⟩] }

/-- An attribute and its value, which is empty if there is none. -/
def attributeOf (content : Text) : Text × Text :=
  ((upTo ':' content).1, (upTo ':' content).2.getD [])

theorem attributeOf_append (name : Text) (h : ':' ∉ name) (value : Text) :
    attributeOf (name ++ ':' :: value) = (name, value) := by
  unfold attributeOf
  rw [upTo_append h]
  rfl

/-- `parse_attribute(content)` -/
def parseAttribute (m : SrsMediaDesc) (content : Text) : Parsed SrsMediaDesc :=
  let (attr, value) := attributeOf content
  if attr = "extmap".toList then m.parseAttrExtmap value
  else if attr = "rtpmap".toList then m.parseAttrRtpmap value
  else if attr = "rtcp".toList then .ok m
  else if attr = "rtcp-fb".toList then m.parseAttrRtcpFb value
  else if attr = "fmtp".toList then m.parseAttrFmtp value
  else if attr = "mid".toList then m.parseAttrMid value
  else if attr = "msid".toList then m.parseAttrMsid value
  else if attr = "ssrc".toList then m.parseAttrSsrc value
  else if attr = "ssrc-group".toList then m.parseAttrSsrcGroup value
  else if attr = "rtcp-mux".toList then .ok { m with rtcpMux := true }
  else if attr = "rtcp-rsize".toList then .ok { m with rtcpRsize := true }
  else if attr = "recvonly".toList then .ok { m with recvonly := true }
  else if attr = "sendonly".toList then .ok { m with sendonly := true }
  else if attr = "sendrecv".toList then .ok { m with sendrecv := true }
  else if attr = "inactive".toList then .ok { m with inactive := true }
  else do
    let info ← m.sessionInfo.parseAttribute attr value
    .ok { m with sessionInfo := info }

/-- `parse_line(line)` -/
def parseLine (m : SrsMediaDesc) (line : Text) : Parsed SrsMediaDesc :=
  match line with
  | c :: _ :: content => if c = 'a' then m.parseAttribute content else .ok m
  | _ => .error .outOfRange

end SrsMediaDesc

/-! ## Parsing a description -/

namespace SrsSdp

/-- `media_descs_.back().parse_line(line)` -/
def parseMediaLine (s : SrsSdp) (line : Text) : Parsed SrsSdp :=
  match s.mediaDescs.getLast? with
  | none => .error .backOfEmpty
  | some m => do
    let m ← m.parseLine line
    .ok { s with mediaDescs := s.mediaDescs.dropLast ++ [m] }

/-- `parse_origin(content)` -/
def parseOrigin (s : SrsSdp) (content : Text) : Parsed SrsSdp := do
  let (username, is) ← fetch (word content)
  let (sessionId, is) ← fetch (word is)
  let (sessionVersion, is) ← fetch (word is)
  let (nettype, is) ← fetch (word is)
  let (addrtype, is) ← fetch (word is)
  let (unicastAddress, _) ← fetch (word is)
  .ok { s with
    username := username
    sessionId := sessionId
    sessionVersion := sessionVersion
    nettype := nettype
    addrtype := addrtype
    unicastAddress := unicastAddress }

/-- `parse_version(content)` -/
def parseVersion (s : SrsSdp) (content : Text) : Parsed SrsSdp := do
  let (version, _) ← fetch (word content)
  .ok { s with version := version }

/-- `parse_timing(content)` -/
def parseTiming (s : SrsSdp) (content : Text) : Parsed SrsSdp := do
  let (startTime, is) ← fetch (int 64 content)
  let (endTime, _) ← fetch (int 64 is)
  .ok { s with startTime := startTime, endTime := endTime }

/-- `parse_attr_group(value)` -/
def parseAttrGroup (s : SrsSdp) (value : Text) : Parsed SrsSdp :=
  if "LS".toList.isPrefixOf value then .ok s
  else do
    let (policy, is) ← fetch (word value)
    .ok { s with groupPolicy := policy, groups := s.groups ++ readAll word is }

/-- `parse_attribute(content)`: what has no value is no attribute here. -/
def parseAttribute (s : SrsSdp) (content : Text) : Parsed SrsSdp :=
  let (attr, value) :=
    match upTo ':' content with
    | (attr, some value) => (attr, value)
    | (_, none) => ([], [])
  if attr = "group".toList then s.parseAttrGroup value
  else if attr = "msid-semantic".toList then do
    let (semantic, is) ← fetch (word value)
    .ok { s with msidSemantic := semantic, msids := s.msids ++ readAll word is }
  else do
    let info ← s.sessionInfo.parseAttribute attr value
    .ok { s with sessionInfo := info }

/-- `srs_fmt(fmt, ...)`: what does not fit its buffer is empty. -/
def srsFmt (s : Text) : Text := if s.length < 8192 then s else []

/-- `parse_gb28181_ssrc(content)` -/
def parseGb28181Ssrc (s : SrsSdp) (content : Text) : Parsed SrsSdp := do
  let ssrc := "a=ssrc:".toList ++ cStr content
  let s ← s.parseMediaLine (srsFmt (ssrc ++ " cname:".toList ++ cStr content))
  s.parseMediaLine (srsFmt (ssrc ++ " label:gb28181".toList))

/-- `parse_media_description(content)` -/
def parseMediaDescription (s : SrsSdp) (content : Text) : Parsed SrsSdp := do
  let (media, is) ← fetch (word content)
  let (port, is) ← fetch (int 32 is)
  let (proto, is) ← fetch (word is)
  let desc : SrsMediaDesc :=
    { type := media, port := port, protos := proto,
      payloadTypes := (readAll (int 32) is).map fun fmt => { payloadType := fmt } }
  .ok { s with mediaDescs := s.mediaDescs ++ [desc], inMediaSession := true }

/-- `parse_line(line)` -/
def parseLine (s : SrsSdp) (line : Text) : Parsed SrsSdp :=
  match line with
  | c :: _ :: content =>
    if c = 'o' then s.parseOrigin content
    else if c = 'v' then s.parseVersion content
    else if c = 's' then .ok { s with sessionName := content }
    else if c = 't' then s.parseTiming content
    else if c = 'a' then
      if s.inMediaSession then s.parseMediaLine line else s.parseAttribute content
    else if c = 'y' then s.parseGb28181Ssrc content
    else if c = 'm' then s.parseMediaDescription content
    else .ok s
  | _ => .error .outOfRange

/-- The end of a line without its `\r`, and then without spaces. -/
def trimEnd (line : Text) : Text :=
  (if line.getLast? = some '\r' then line.dropLast else line).rdropWhile (· = ' ')

/-- One line of the text. -/
def parseRawLine (s : SrsSdp) (line : Text) : Parsed SrsSdp :=
  match line with
  | _ :: '=' :: _ => s.parseLine (trimEnd line)
  | _ => fail (.invalidLine line)

/-- The lines of the text, one after the other. -/
def parseLines (s : SrsSdp) : List Text → Parsed SrsSdp
  | [] => .ok s
  | line :: lines =>
    match s.parseRawLine line with
    | .error e => .error e
    | .ok s => s.parseLines lines

/-- What a source does not say is that of its media description. -/
def fillSsrc (m : SrsMediaDesc) (i : SrsSSRCInfo) : SrsSSRCInfo :=
  { i with
    msid := if i.msid = [] then m.msid else i.msid
    msidTracker := if i.msidTracker = [] then m.msidTracker else i.msidTracker
    mslabel := if i.mslabel = [] then m.msid else i.mslabel
    label := if i.label = [] then m.msidTracker else i.label }

def fillMedia (m : SrsMediaDesc) : SrsMediaDesc :=
  { m with ssrcInfos := m.ssrcInfos.map (fillSsrc m) }

/-- `parse(sdp_str)` -/
def parse (sdpStr : Text) : Parsed SrsSdp := do
  let s ← ({} : SrsSdp).parseLines (lines sdpStr)
  .ok { s with mediaDescs := s.mediaDescs.map fillMedia }

end SrsSdp

/-! ## Writing -/

/-- A line that is left out if its value is empty. -/
def optional (value line : Text) : List Text := if value = [] then [] else [line]

/-- A word behind another one, with a space in front of it. -/
def spaced (w : Text) : Text := ' ' :: w

/-- A word behind another one that is left out if it is empty. -/
def optionalWord (w : Text) : Text := if w = [] then [] else spaced w

/-- `SrsSessionInfo::encode(os)` -/
def SrsSessionInfo.encode (s : SrsSessionInfo) : List Text :=
  optional s.iceUfrag ("a=ice-ufrag:".toList ++ s.iceUfrag) ++
  optional s.icePwd ("a=ice-pwd:".toList ++ s.icePwd) ++
  optional s.iceOptions ("a=ice-options:".toList ++ s.iceOptions) ++
  (if s.fingerprintAlgo ≠ [] ∧ s.fingerprint ≠ [] then
    ["a=fingerprint:".toList ++ s.fingerprintAlgo ++ spaced s.fingerprint] else []) ++
  optional s.setup ("a=setup:".toList ++ s.setup)

/-- `SrsSSRCInfo::encode(os)` -/
def SrsSSRCInfo.encode (i : SrsSSRCInfo) : Parsed (List Text) :=
  let ssrc := "a=ssrc:".toList ++ showNat i.ssrc
  if i.ssrc = 0 then fail .invalidSsrc
  else if i.label = "gb28181".toList then
    .ok ["y=".toList ++ if i.cname = [] then showNat i.ssrc else i.cname]
  else
    .ok ([ssrc ++ " cname:".toList ++ i.cname] ++
      optional i.msid (ssrc ++ " msid:".toList ++ i.msid ++ optionalWord i.msidTracker) ++
      optional i.mslabel (ssrc ++ " mslabel:".toList ++ i.mslabel) ++
      optional i.label (ssrc ++ " label:".toList ++ i.label))

/-- `SrsMediaPayloadType::encode(os)` -/
def SrsMediaPayloadType.encode (p : SrsMediaPayloadType) : List Text :=
  ["a=rtpmap:".toList ++ showInt p.payloadType ++ spaced (p.encodingName ++
    '/' :: showInt p.clockRate ++ if p.encodingParam = [] then [] else '/' :: p.encodingParam)] ++
  p.rtcpFb.map (fun fb => "a=rtcp-fb:".toList ++ showInt p.payloadType ++ spaced fb) ++
  optional p.formatSpecificParam
    ("a=fmtp:".toList ++ showInt p.payloadType ++ spaced p.formatSpecificParam)

/-- `1 << 24 * 126 + 1 << 8 * 65535 + 256 - component_id` -/
def priority : ℕ := 2130706431

/-- The line of a candidate. -/
def SrsCandidate.encode (foundation : ℕ) (c : SrsCandidate) : Text :=
  "a=candidate:".toList ++ showNat foundation ++ " 1 ".toList ++
  (if c.protocol = "tcp".toList then "tcp".toList else "udp".toList) ++
  spaced (showNat priority) ++ spaced c.ip ++ spaced (showInt c.port) ++ " typ ".toList ++ c.type ++
  if c.protocol = "tcp".toList then " tcptype passive".toList else " generation 0".toList

/-- `SrsMediaDesc::encode(os)` -/
def SrsMediaDesc.encode (m : SrsMediaDesc) : Parsed (List Text) := do
  let ssrcs ← m.ssrcInfos.mapM SrsSSRCInfo.encode
  .ok (["m=".toList ++ m.type ++ spaced (showInt m.port) ++ spaced m.protos ++
      m.payloadTypes.flatMap fun p => spaced (showInt p.payloadType)] ++
    optional m.connection m.connection ++
    m.sessionInfo.encode ++
    optional m.mid ("a=mid:".toList ++ m.mid) ++
    optional m.msid ("a=msid:".toList ++ m.msid ++ optionalWord m.msidTracker) ++
    m.extmaps.entries.map (fun (id, ext) => "a=extmap:".toList ++ showInt id ++ spaced ext) ++
    (if m.sendonly then ["a=sendonly".toList] else []) ++
    (if m.recvonly then ["a=recvonly".toList] else []) ++
    (if m.sendrecv then ["a=sendrecv".toList] else []) ++
    (if m.inactive then ["a=inactive".toList] else []) ++
    (if m.rtcpMux then ["a=rtcp-mux".toList] else []) ++
    (if m.rtcpRsize then ["a=rtcp-rsize".toList] else []) ++
    m.payloadTypes.flatMap SrsMediaPayloadType.encode ++
    ssrcs.flatten ++
    m.candidates.mapIdx SrsCandidate.encode)

namespace SrsSdp

/-- The lines of a description. -/
def encodeLines (s : SrsSdp) : Parsed (List Text) := do
  let media ← s.mediaDescs.mapM SrsMediaDesc.encode
  .ok (["v=".toList ++ s.version,
      "o=".toList ++ s.username ++ spaced s.sessionId ++ spaced s.sessionVersion ++
        spaced s.nettype ++ spaced s.addrtype ++ spaced s.unicastAddress,
      "s=".toList ++ s.sessionName] ++
    optional s.connection s.connection ++
    ["t=".toList ++ showInt s.startTime ++ spaced (showInt s.endTime)] ++
    optional s.iceLite s.iceLite ++
    (if s.groups = [] then [] else
      ["a=group:".toList ++ s.groupPolicy ++ s.groups.flatMap spaced]) ++
    (if s.msidSemantic ≠ [] ∨ s.msids ≠ [] then
      ["a=msid-semantic: ".toList ++ s.msidSemantic ++ s.msids.flatMap spaced] else []) ++
    s.sessionInfo.encode ++
    media.flatten)

/-- `encode(os)` -/
def encode (s : SrsSdp) : Parsed Text := do
  let lines ← s.encodeLines
  .ok (lines.flatMap (· ++ "\r\n".toList))

end SrsSdp

end SrsChatRoom.App.Sdp
