import SrsChatRoom.Kernel.Buffer

/-!
# RTCP compound packets (`srs_kernel_rtc_rtcp.cpp`)

`SrsRtcpCompound::decode` looks at the type of the next header, creates an object for it and
lets it decode itself. All of them check the header the same way (`decodeHeader`: the payload
that the length field announces is there) and then read their own fields, which the length
field has no part in: a sender report reads its report blocks by the count in the header, a
`PLI` reads one word, and so on.

`compoundDecode_good_iff` says for which packets this goes well. A packet is good when the
walk along the sizes that the decoders take (`packetSize`) meets what each of them reads
(`Fits`), and either ends at a header that is refused (`Stops`) or reaches the end with all
sizes as the length fields have them (`FramedWalk`). Others end the process or are cut at the
wrong places (`bye_without_body_aborts`).
-/

namespace SrsChatRoom.Kernel.Rtcp

open SrsBuffer
open SrsChatRoom.Prog (bind_ok bind_err)

/-! ## Packets -/

/-- `SrsRtcpHeader`, with the length in host order. -/
structure RtcpHeader where
  rc : ℕ
  padding : ℕ
  version : ℕ
  type : ℕ
  length : ℕ
deriving DecidableEq, Repr

/-- The header that four bytes are. -/
def RtcpHeader.ofBytes (l : List UInt8) : RtcpHeader where
  rc := (l.getD 0 0).toNat % 32
  padding := (l.getD 0 0).toNat / 32 % 2
  version := (l.getD 0 0).toNat / 64
  type := (l.getD 1 0).toNat
  length := ofBytesBE (l.drop 2)

/-- `SrsRtcpRB` -/
structure ReportBlock where
  ssrc : ℕ
  fractionLost : ℕ
  lostPackets : ℕ
  highestSn : ℕ
  jitter : ℕ
  lsr : ℕ
  dlsr : ℕ
deriving DecidableEq, Repr

/-- The decoded objects, one constructor for each class. `nack` has the sequence numbers in the
order in which they are inserted. -/
inductive Packet
  | common (header : RtcpHeader) (ssrc : ℕ) (payload : List UInt8)
  | twcc (header : RtcpHeader) (ssrc : ℕ) (payload : List UInt8)
  | sr (header : RtcpHeader) (ssrc ntp rtpTs sendRtpPackets sendRtpBytes : ℕ)
  | rr (header : RtcpHeader) (ssrc : ℕ) (rb : ReportBlock)
  | nack (header : RtcpHeader) (ssrc mediaSsrc : ℕ) (lostSns : List ℕ)
  | fbCommon (header : RtcpHeader) (ssrc mediaSsrc : ℕ)
  | pli (header : RtcpHeader) (ssrc mediaSsrc : ℕ)
  | sli (header : RtcpHeader) (ssrc mediaSsrc : ℕ)
  | rpsi (header : RtcpHeader) (ssrc mediaSsrc : ℕ)
  | xr (header : RtcpHeader) (ssrc : ℕ)
deriving DecidableEq, Repr

/-! ## Decoders -/

/-- `decode_header` -/
def decodeHeader : Dec (RtcpHeader × ℕ) := do
  checkRequire 8 .rtcRtcp "require 8"
  let bytes ← readBytes 4
  let header := RtcpHeader.ofBytes bytes
  let left ← Prog.read SrsBuffer.left
  if 4 * (header.length : ℤ) > left then
    Prog.throw (srsErrorNew .rtcRtcp ("require payload len=" ++ toString (4 * header.length) ++
      ", buffer left=" ++ toString left))
  else
    let ssrc ← readUint 4
    return (header, ssrc)

/-- What every `decode` starts with. -/
def withHeader {α : Type} (body : RtcpHeader → ℕ → Dec α) : Dec α := do
  let (header, ssrc) ← Prog.wrap (srsErrorWrap "decode header") decodeHeader
  body header ssrc

/-- `kRtcpPacketSize`, the size of `payload_` -/
def rtcpPacketSize : ℕ := 1500

/-- `SrsRtcpCommon::decode` after the header: `read_bytes` into `payload_`. The number of bytes
is negative when the length field is 0. -/
def readPayload (header : RtcpHeader) : Dec (List UInt8) := fun b =>
  let payloadLen : ℤ := (header.length + 1) * 4 - 4 - 4
  if payloadLen ≤ rtcpPacketSize then readBytes payloadLen b else .fault

/-- `SrsRtcpCommon::decode` -/
def commonBody (header : RtcpHeader) (ssrc : ℕ) : Dec Packet := do
  let payload ← readPayload header
  return .common header ssrc payload

/-- `SrsRtcpTWCC` inherits the decoder of `SrsRtcpCommon`. -/
def twccBody (header : RtcpHeader) (ssrc : ℕ) : Dec Packet := do
  let payload ← readPayload header
  return .twcc header ssrc payload

/-- `SrsRtcpSR::decode` -/
def srBody (header : RtcpHeader) (ssrc : ℕ) : Dec Packet := do
  let ntp ← readUint 8
  let rtpTs ← readUint 4
  let sendRtpPackets ← readUint 4
  let sendRtpBytes ← readUint 4
  -- no report block: `rc * 24` is 0
  let _ ← readBytes (header.rc * 24 : ℕ)
  return .sr header ssrc ntp rtpTs sendRtpPackets sendRtpBytes

/-- The report block of `SrsRtcpRR::decode`. -/
def readReportBlock : Dec ReportBlock := do
  let ssrc ← readUint 4
  let fractionLost ← readUint 1
  let lostPackets ← readUint 3
  let highestSn ← readUint 4
  let jitter ← readUint 4
  let lsr ← readUint 4
  let dlsr ← readUint 4
  return { ssrc, fractionLost, lostPackets, highestSn, jitter, lsr, dlsr }

/-- `SrsRtcpRR::decode` -/
def rrBody (header : RtcpHeader) (ssrc : ℕ) : Dec Packet := do
  if header.rc = 0 then Prog.throw (srsErrorNew .rtcRtcpEmptyRr "rc=0")
  else
    let rb ← readReportBlock
    -- one report block: `(rc - 1) * 24` is 0
    let _ ← readBytes ((header.rc - 1) * 24 : ℕ)
    return .rr header ssrc rb

/-- The sequence numbers of one pair of `pid` and `blp`. -/
def lostSnsOf (pid blp : ℕ) : List ℕ :=
  pid :: (List.range 16).filterMap fun j =>
    if blp.testBit j then some ((pid + j + 1) % 65536) else none

/-- The loop of `SrsRtcpNack::decode`. -/
def readPidBlps : ℕ → Dec (List ℕ)
  | 0 => return []
  | n + 1 => do
    let pid ← readUint 2
    let blp ← readUint 2
    let rest ← readPidBlps n
    return lostSnsOf pid blp ++ rest

/-- `SrsRtcpNack::decode`. The loop runs while `i < length - 2`. -/
def nackBody (header : RtcpHeader) (ssrc : ℕ) : Dec Packet := do
  let mediaSsrc ← readUint 4
  let lostSns ← readPidBlps (header.length - 2)
  return .nack header ssrc mediaSsrc lostSns

/-- The common text of `SrsRtcpFbCommon`, `SrsRtcpSli` and `SrsRtcpRpsi`: the media ssrc, and a
skip over the rest, which goes back when the length field is less than 2. -/
def skippedFbBody (make : RtcpHeader → ℕ → ℕ → Packet) (header : RtcpHeader) (ssrc : ℕ) :
    Dec Packet := do
  let mediaSsrc ← readUint 4
  skip ((header.length + 1) * 4 - 12)
  return make header ssrc mediaSsrc

/-- `SrsRtcpFbCommon::decode` -/
def fbCommonBody : RtcpHeader → ℕ → Dec Packet := skippedFbBody .fbCommon

/-- `SrsRtcpSli::decode` -/
def sliBody : RtcpHeader → ℕ → Dec Packet := skippedFbBody .sli

/-- `SrsRtcpRpsi::decode` -/
def rpsiBody : RtcpHeader → ℕ → Dec Packet := skippedFbBody .rpsi

/-- `SrsRtcpPli::decode` -/
def pliBody (header : RtcpHeader) (ssrc : ℕ) : Dec Packet := do
  let mediaSsrc ← readUint 4
  return .pli header ssrc mediaSsrc

/-- `SrsRtcpXr::decode` -/
def xrBody (header : RtcpHeader) (ssrc : ℕ) : Dec Packet := do
  skip ((header.length + 1) * 4 - 8)
  return .xr header ssrc

/-! ## The compound packet -/

/-- The classes `SrsRtcpCompound::decode` chooses from. -/
inductive Kind
  | common | twcc | sr | rr | nack | fbCommon | pli | sli | rpsi | xr
deriving DecidableEq, Repr

/-- The choice by `header->type` and `header->rc`. -/
def kindOf (type rc : ℕ) : Kind :=
  if type = 200 then .sr
  else if type = 201 then .rr
  else if type = 205 then if rc = 1 then .nack else if rc = 15 then .twcc else .fbCommon
  else if type = 206 then
    if rc = 1 then .pli else if rc = 2 then .sli else if rc = 3 then .rpsi else .fbCommon
  else if type = 207 then .xr
  else .common

/-- The decoder of a class, after the header. -/
def bodyOf : Kind → RtcpHeader → ℕ → Dec Packet
  | .common => commonBody
  | .twcc => twccBody
  | .sr => srBody
  | .rr => rrBody
  | .nack => nackBody
  | .fbCommon => fbCommonBody
  | .pli => pliBody
  | .sli => sliBody
  | .rpsi => rpsiBody
  | .xr => xrBody

/-- The error handling of the loop: an empty receiver report is dropped, any other error is
returned. -/
def dropEmptyRr (type rc : ℕ) (x : Dec Packet) : Dec (Option Packet) := fun b =>
  match x b with
  | .ok rtcp b' => .ok (some rtcp) b'
  | .err e b' =>
    if e.code = .rtcRtcpEmptyRr then .ok none b'
    else .err (srsErrorWrap
      ("decode rtcp type=" ++ toString type ++ " rc=" ++ toString rc) e) b'
  | .fault => .fault
  | .hang => .hang

/-- One round of the loop. The type is read at the head without a check. -/
def decodeNext : Dec (Option Packet) := do
  let type ← peek 1
  let first ← peek 0
  let rc := first.toNat % 32
  dropEmptyRr type.toNat rc (withHeader (bodyOf (kindOf type.toNat rc)))

/-- The loop of `SrsRtcpCompound::decode`. Besides the decoded objects it returns where the
buffer stood at the head of each round, and at the end. -/
def decodeLoop : ℕ → Dec (List Packet × List ℕ)
  | 0 => fun _ => .hang
  | fuel + 1 => do
    let pos ← Prog.read SrsBuffer.pos
    if ← Prog.read SrsBuffer.empty then return ([], [pos])
    else
      let rtcp ← decodeNext
      let (rtcps, positions) ← decodeLoop fuel
      return (rtcp.toList ++ rtcps, pos :: positions)

/-- `SrsRtcpCompound::decode` on a packet. -/
def compoundDecode (bytes : List UInt8) : Outcome SrsBuffer SrsError (List Packet × List ℕ) :=
  decodeLoop (bytes.length + 1) ⟨bytes, 0⟩

/-- The header of the sub-packet at the front of some bytes. -/
def headerOf (r : List UInt8) : RtcpHeader := RtcpHeader.ofBytes (r.take 4)

/-- Each round took the number of bytes that the length field of its header announces. -/
def Framed (bytes : List UInt8) : List ℕ → Prop
  | p :: q :: positions =>
    q = p + 4 * ((headerOf (bytes.drop p)).length + 1) ∧ Framed bytes (q :: positions)
  | _ => True

/-- The packet decodes with success or an error, without an abort or a read outside, and on
success the sub-packets are cut where the length fields say. -/
def Good (bytes : List UInt8) : Prop :=
  (∃ rtcps positions b, compoundDecode bytes = .ok (rtcps, positions) b ∧
    Framed bytes positions) ∨
  ∃ e b, compoundDecode bytes = .err e b

/-! ## The condition -/

/-- The check that all decoders start with refuses the header. -/
def Refused (r : List UInt8) : Prop :=
  r.length < 8 ∨ r.length < 4 * ((headerOf r).length + 1)

/-- The class of the sub-packet at the front of some bytes. -/
def kindAt (r : List UInt8) : Kind := kindOf (headerOf r).type (headerOf r).rc

/-- The number of bytes the decoder of a class takes. -/
def packetSize (kind : Kind) (header : RtcpHeader) : ℕ :=
  match kind with
  | .sr => 28 + 24 * header.rc
  | .rr => 8 + 24 * header.rc
  | .nack => 12 + 4 * (header.length - 2)
  | .pli => 12
  | _ => 4 * (header.length + 1)

/-- What the decoder of a class needs of the bytes that are left, for it not to abort. -/
def Fits (kind : Kind) (header : RtcpHeader) (left : ℕ) : Prop :=
  match kind with
  | .common => 1 ≤ header.length
  | .twcc => 1 ≤ header.length
  | .xr => True
  | .fbCommon | .sli | .rpsi => 12 ≤ left
  | kind => packetSize kind header ≤ left

instance (r : List UInt8) : Decidable (Refused r) := inferInstanceAs (Decidable (_ ∨ _))

instance (kind : Kind) (header : RtcpHeader) (left : ℕ) : Decidable (Fits kind header left) := by
  cases kind <;> unfold Fits <;> infer_instance

/-- The sub-packet at the front of some bytes is decoded, with these many bytes. -/
def Decodes (r : List UInt8) (size : ℕ) : Prop :=
  ¬ Refused r ∧ Fits (kindAt r) (headerOf r) r.length ∧ size = packetSize (kindAt r) (headerOf r)

/-- The walk along the sub-packets ends at a header that is refused. -/
inductive Stops : List UInt8 → Prop
  | refused {r} (hlen : 2 ≤ r.length) (h : Refused r) : Stops r
  | packet {r size} (h : Decodes r size) (hrest : Stops (r.drop size)) : Stops r

/-- The walk reaches the end, and each sub-packet has the size its length field announces. -/
inductive FramedWalk : List UInt8 → Prop
  | done : FramedWalk []
  | packet {r size} (h : Decodes r size) (hsize : size = 4 * ((headerOf r).length + 1))
      (hrest : FramedWalk (r.drop size)) : FramedWalk r

/-! ## The header -/

section Header

variable {b : SrsBuffer}

/-- A header that is refused gives an error, which is not that of an empty receiver report. -/
theorem decodeHeader_refused (h : Refused (rest b)) :
    ∃ e b', decodeHeader b = .err e b' ∧ e.code = .rtcRtcp := by
  have hlen := length_rest b
  have hheader : RtcpHeader.ofBytes ((rest b).take 4) = headerOf (rest b) := rfl
  unfold decodeHeader
  by_cases h8 : b.pos + 8 ≤ b.bytes.length
  · have hcheck : checkRequire 8 .rtcRtcp "require 8" b = .ok () b :=
      if_pos ((b.require_iff 8).mpr h8)
    have hread : readBytes 4 b = .ok ((rest b).take 4) (b.advance 4) :=
      if_pos ((b.require_iff 4).mpr (by omega))
    have hlong : 4 * ((headerOf (rest b)).length : ℤ) > (b.advance 4).left := by
      rcases h with h | h
      · omega
      · simp only [SrsBuffer.left, bytes_advance, pos_advance]
        omega
    rw [bind_ok hcheck, bind_ok hread, bind_ok (Prog.read_apply _ _), hheader,
      if_pos hlong]
    exact ⟨_, _, rfl, rfl⟩
  · have hcheck : checkRequire 8 .rtcRtcp "require 8" b =
        .err (srsErrorNew .rtcRtcp "require 8") b :=
      if_neg (fun hr => h8 ((b.require_iff 8).mp hr))
    exact ⟨_, b, bind_err hcheck _, rfl⟩

/-- A header that is not refused. -/
theorem decodeHeader_accepted (h : ¬ Refused (rest b)) :
    ∃ ssrc, decodeHeader b = .ok (headerOf (rest b), ssrc) (b.advance 8) := by
  have hlen := length_rest b
  have hheader : RtcpHeader.ofBytes ((rest b).take 4) = headerOf (rest b) := rfl
  obtain ⟨h8, hlong⟩ := not_or.mp h
  have hcheck : checkRequire 8 .rtcRtcp "require 8" b = .ok () b :=
    if_pos ((b.require_iff 8).mpr (by omega))
  have hread : readBytes 4 b = .ok ((rest b).take 4) (b.advance 4) :=
    if_pos ((b.require_iff 4).mpr (by omega))
  have hfits : ¬ 4 * ((headerOf (rest b)).length : ℤ) > (b.advance 4).left := by
    simp only [SrsBuffer.left, bytes_advance, pos_advance]
    omega
  obtain ⟨ssrc, hssrc⟩ := (takes_readUint 4 (b.advance 4)).1
    (by simp only [pos_advance, bytes_advance]; omega)
  refine ⟨ssrc, ?_⟩
  unfold decodeHeader
  rw [bind_ok hcheck, bind_ok hread, bind_ok (Prog.read_apply _ _), hheader,
    if_neg hfits, bind_ok hssrc]
  rfl

/-- A body runs behind a header that is not refused. -/
theorem withHeader_accepted {α : Type} (h : ¬ Refused (rest b)) :
    ∃ ssrc, ∀ body : RtcpHeader → ℕ → Dec α,
      withHeader body b = body (headerOf (rest b)) ssrc (b.advance 8) := by
  obtain ⟨ssrc, hheader⟩ := decodeHeader_accepted h
  have hwrap : Prog.wrap (srsErrorWrap "decode header") decodeHeader b =
      .ok (headerOf (rest b), ssrc) (b.advance 8) := by
    rw [Prog.wrap, hheader]
  refine ⟨ssrc, fun body => ?_⟩
  rw [withHeader, bind_ok hwrap]

end Header

/-! ## The bodies -/

theorem takes_readReportBlock : Takes readReportBlock 24 := by
  unfold readReportBlock
  exact (takes_readUint 4).bind fun _ => (takes_readUint 1).bind fun _ =>
    (takes_readUint 3).bind fun _ => (takes_readUint 4).bind fun _ =>
    (takes_readUint 4).bind fun _ => (takes_readUint 4).bind fun _ =>
    (takes_readUint 4).bind fun _ => takes_pure _

theorem takes_srBody (header : RtcpHeader) (ssrc : ℕ) :
    Takes (srBody header ssrc) (20 + 24 * header.rc) := by
  have h : 20 + 24 * header.rc = 8 + (4 + (4 + (4 + (header.rc * 24 + 0)))) := by omega
  rw [h]
  exact (takes_readUint 8).bind fun _ => (takes_readUint 4).bind fun _ =>
    (takes_readUint 4).bind fun _ => (takes_readUint 4).bind fun _ =>
    (takes_readBytes _).bind fun _ => takes_pure _

theorem takes_rrBody {header : RtcpHeader} (hrc : header.rc ≠ 0) (ssrc : ℕ) :
    Takes (rrBody header ssrc) (24 * header.rc) := by
  have h : 24 * header.rc = 24 + ((header.rc - 1) * 24 + 0) := by omega
  rw [h, rrBody, if_neg hrc]
  exact takes_readReportBlock.bind fun _ => (takes_readBytes _).bind fun _ => takes_pure _

theorem takes_readPidBlps (n : ℕ) : Takes (readPidBlps n) (4 * n) := by
  induction n with
  | zero => exact takes_pure _
  | succ n ih =>
    have h : 4 * (n + 1) = 2 + (2 + (4 * n + 0)) := by omega
    rw [h]
    exact (takes_readUint 2).bind fun _ => (takes_readUint 2).bind fun _ =>
      ih.bind fun _ => takes_pure _

theorem takes_nackBody (header : RtcpHeader) (ssrc : ℕ) :
    Takes (nackBody header ssrc) (4 + 4 * (header.length - 2)) :=
  (takes_readUint 4).bind fun _ => (takes_readPidBlps _).bind fun _ => takes_pure _

theorem takes_pliBody (header : RtcpHeader) (ssrc : ℕ) : Takes (pliBody header ssrc) 4 :=
  (takes_readUint 4).bind fun _ => takes_pure _

section Bodies

variable {b : SrsBuffer} {header : RtcpHeader}

/-- A decoder that takes `k` bytes after the header, with enough bytes left. -/
theorem Takes.after_header {α : Type} {x : Dec α} {k : ℕ} (hx : Takes x k)
    (h : b.pos + (8 + k) ≤ b.bytes.length) : ∃ a, x (b.advance 8) = .ok a (b.advance (8 + k)) := by
  obtain ⟨a, ha⟩ := (hx (b.advance 8)).1 (by simp only [pos_advance, bytes_advance]; omega)
  exact ⟨a, by rw [ha, advance_advance]⟩

/-- The same with too few bytes left. -/
theorem Takes.fault_after_header {α : Type} {x : Dec α} {k : ℕ} (hx : Takes x k)
    (h8 : b.pos + 8 ≤ b.bytes.length) (h : b.bytes.length < b.pos + (8 + k)) :
    x (b.advance 8) = .fault := by
  refine (hx (b.advance 8)).2 ?_ ?_ <;> simp only [pos_advance, bytes_advance] <;> omega

/-- `skip` to a position inside the buffer, forward or back. -/
theorem skip_to {size : ℤ} {k m : ℕ} (hsize : (k : ℤ) + size = m)
    (h : b.pos + m ≤ b.bytes.length) : skip size (b.advance k) = .ok () (b.advance m) := by
  have hpos : ((b.advance k).pos : ℤ) + size = ((b.pos + m : ℕ) : ℤ) := by
    rw [pos_advance]
    omega
  rw [skip, hpos, if_pos (by rw [bytes_advance]; omega), Int.toNat_natCast]
  rfl

theorem readPayload_eq (hlen : 1 ≤ header.length) (hcap : header.length ≤ 375) :
    readPayload header = readBytes (4 * (header.length - 1) : ℕ) := by
  funext b
  have hsize : ((header.length : ℤ) + 1) * 4 - 4 - 4 = (4 * (header.length - 1) : ℕ) := by omega
  rw [readPayload, hsize, if_pos (by unfold rtcpPacketSize; omega)]

/-- With length field 0 the number of payload bytes is negative. -/
theorem readPayload_fault (hlen : header.length = 0) (b : SrsBuffer) :
    readPayload header b = .fault := by
  rw [readPayload, hlen]
  rfl

theorem skippedFbBody_ok (make : RtcpHeader → ℕ → ℕ → Packet) (ssrc : ℕ)
    (h12 : b.pos + 12 ≤ b.bytes.length)
    (hlen : b.pos + 4 * (header.length + 1) ≤ b.bytes.length) :
    ∃ p, skippedFbBody make header ssrc (b.advance 8) =
      .ok p (b.advance (4 * (header.length + 1))) := by
  obtain ⟨mediaSsrc, hmedia⟩ := Takes.after_header (takes_readUint 4) h12
  have hskip : skip ((header.length + 1) * 4 - 12) (b.advance (8 + 4)) =
      .ok () (b.advance (4 * (header.length + 1))) := skip_to (by omega) hlen
  refine ⟨make header ssrc mediaSsrc, ?_⟩
  rw [skippedFbBody, bind_ok hmedia, bind_ok hskip]
  rfl

/-- When the bytes are there, a body takes its share of them. The empty receiver report does so
with an error of its own. -/
theorem bodyOf_fits (kind : Kind) (ssrc : ℕ) (h8 : b.pos + 8 ≤ b.bytes.length)
    (hlen : b.pos + 4 * (header.length + 1) ≤ b.bytes.length)
    (hcap : b.bytes.length ≤ rtcpPacketSize)
    (hfits : Fits kind header (b.bytes.length - b.pos)) :
    (∃ p, bodyOf kind header ssrc (b.advance 8) = .ok p (b.advance (packetSize kind header))) ∨
      ∃ e, bodyOf kind header ssrc (b.advance 8) = .err e (b.advance (packetSize kind header)) ∧
        e.code = .rtcRtcpEmptyRr := by
  unfold rtcpPacketSize at hcap
  have hpayload : 1 ≤ header.length → ∃ payload, readPayload header (b.advance 8) =
      .ok payload (b.advance (4 * (header.length + 1))) := by
    intro h
    have hsize : 4 * (header.length + 1) = 8 + 4 * (header.length - 1) := by omega
    rw [readPayload_eq h (by omega), hsize]
    exact Takes.after_header (takes_readBytes _) (by omega)
  cases kind with
  | common =>
    obtain ⟨payload, h⟩ := hpayload hfits
    exact Or.inl ⟨_, by rw [bodyOf, commonBody, bind_ok h]; rfl⟩
  | twcc =>
    obtain ⟨payload, h⟩ := hpayload hfits
    exact Or.inl ⟨_, by rw [bodyOf, twccBody, bind_ok h]; rfl⟩
  | sr =>
    simp only [Fits, packetSize] at hfits ⊢
    have hsize : 28 + 24 * header.rc = 8 + (20 + 24 * header.rc) := by omega
    rw [hsize]
    exact Or.inl (Takes.after_header (takes_srBody header ssrc) (by omega))
  | rr =>
    simp only [Fits, packetSize] at hfits ⊢
    by_cases hrc : header.rc = 0
    · right
      refine ⟨srsErrorNew .rtcRtcpEmptyRr "rc=0", ?_, rfl⟩
      rw [bodyOf, rrBody, if_pos hrc, hrc]
      rfl
    · exact Or.inl (Takes.after_header (takes_rrBody hrc ssrc) (by omega))
  | nack =>
    simp only [Fits, packetSize] at hfits ⊢
    have hsize : 12 + 4 * (header.length - 2) = 8 + (4 + 4 * (header.length - 2)) := by omega
    rw [hsize]
    exact Or.inl (Takes.after_header (takes_nackBody header ssrc) (by omega))
  | pli =>
    simp only [Fits, packetSize] at hfits ⊢
    exact Or.inl (Takes.after_header (takes_pliBody header ssrc) (by omega))
  | fbCommon =>
    simp only [Fits] at hfits
    exact Or.inl (skippedFbBody_ok .fbCommon ssrc (by omega) hlen)
  | sli =>
    simp only [Fits] at hfits
    exact Or.inl (skippedFbBody_ok .sli ssrc (by omega) hlen)
  | rpsi =>
    simp only [Fits] at hfits
    exact Or.inl (skippedFbBody_ok .rpsi ssrc (by omega) hlen)
  | xr =>
    have hskip : skip ((header.length + 1) * 4 - 8) (b.advance 8) =
        .ok () (b.advance (4 * (header.length + 1))) := skip_to (by omega) hlen
    exact Or.inl ⟨_, by rw [bodyOf, xrBody, bind_ok hskip]; rfl⟩

/-- When the bytes are not there, a body aborts. -/
theorem bodyOf_fault (kind : Kind) (ssrc : ℕ) (h8 : b.pos + 8 ≤ b.bytes.length)
    (hfits : ¬ Fits kind header (b.bytes.length - b.pos)) :
    bodyOf kind header ssrc (b.advance 8) = .fault := by
  have hskipped : ∀ make, ¬ 12 ≤ b.bytes.length - b.pos →
      skippedFbBody make header ssrc (b.advance 8) = .fault := fun make h12 =>
    Prog.bind_fault (Takes.fault_after_header (takes_readUint 4) h8 (by omega)) _
  cases kind with
  | common =>
    exact Prog.bind_fault (readPayload_fault (by simp only [Fits] at hfits; omega) _) _
  | twcc =>
    exact Prog.bind_fault (readPayload_fault (by simp only [Fits] at hfits; omega) _) _
  | sr =>
    simp only [Fits, packetSize] at hfits
    exact Takes.fault_after_header (takes_srBody header ssrc) h8 (by omega)
  | rr =>
    simp only [Fits, packetSize] at hfits
    have hrc : header.rc ≠ 0 := by omega
    exact Takes.fault_after_header (takes_rrBody hrc ssrc) h8 (by omega)
  | nack =>
    simp only [Fits, packetSize] at hfits
    exact Takes.fault_after_header (takes_nackBody header ssrc) h8 (by omega)
  | pli =>
    simp only [Fits, packetSize] at hfits
    exact Takes.fault_after_header (takes_pliBody header ssrc) h8 (by omega)
  | fbCommon => exact hskipped .fbCommon hfits
  | sli => exact hskipped .sli hfits
  | rpsi => exact hskipped .rpsi hfits
  | xr => exact absurd trivial hfits

end Bodies

/-! ## One round -/

section Round

variable {b : SrsBuffer}

/-- The fields the loop looks at are those of the header. -/
theorem decodeNext_eq (h2 : 2 ≤ (rest b).length) :
    decodeNext b = dropEmptyRr (headerOf (rest b)).type (headerOf (rest b)).rc
      (withHeader (bodyOf (kindAt (rest b)))) b := by
  have hlen := length_rest b
  have hget : ∀ i, i < 2 → b.bytes[b.pos + i]? = some (((rest b).take 4).getD i 0) := by
    intro i hi
    have hrest : ((rest b).take 4)[i]? = b.bytes[b.pos + i]? := by
      rw [List.getElem?_take_of_lt (by omega), rest, List.getElem?_drop]
    have hlt : b.pos + i < b.bytes.length := by omega
    rw [List.getD, hrest, List.getElem?_eq_getElem hlt]
    rfl
  have hpeek : ∀ i, i < 2 → peek i b = .ok (((rest b).take 4).getD i 0) b := by
    intro i hi
    rw [peek, hget i hi]
  rw [decodeNext, bind_ok (hpeek 1 (by omega)), bind_ok (hpeek 0 (by omega))]
  rfl

/-- With one byte left the loop reads past the end. -/
theorem decodeNext_one_byte (h1 : (rest b).length = 1) : decodeNext b = .fault := by
  have hlen := length_rest b
  have hnone : b.bytes[b.pos + 1]? = none := List.getElem?_eq_none (by omega)
  exact Prog.bind_fault (by rw [peek, hnone]) _

/-- A refused header ends the loop with an error. -/
theorem decodeNext_refused (h2 : 2 ≤ (rest b).length) (h : Refused (rest b)) :
    ∃ e b', decodeNext b = .err e b' := by
  obtain ⟨e, b', he, hcode⟩ := decodeHeader_refused h
  have hwrap : Prog.wrap (srsErrorWrap "decode header") decodeHeader b =
      .err (srsErrorWrap "decode header" e) b' := by
    rw [Prog.wrap, he]
  have hcode' : (srsErrorWrap "decode header" e).code ≠ .rtcRtcpEmptyRr := by
    simp [srsErrorWrap, hcode]
  rw [decodeNext_eq h2, dropEmptyRr, withHeader, bind_err hwrap]
  exact ⟨_, b', if_neg hcode'⟩

/-- A sub-packet that has what its decoder needs. -/
theorem decodeNext_decodes {size : ℕ} (hcap : b.bytes.length ≤ rtcpPacketSize)
    (h : Decodes (rest b) size) : ∃ rtcp, decodeNext b = .ok rtcp (b.advance size) := by
  obtain ⟨haccepted, hfits, rfl⟩ := h
  have hlen := length_rest b
  obtain ⟨h8, hl⟩ := not_or.mp haccepted
  obtain ⟨ssrc, hbody⟩ := withHeader_accepted haccepted
  rw [hlen] at hfits
  rw [decodeNext_eq (by omega), dropEmptyRr, hbody]
  rcases bodyOf_fits (kindAt (rest b)) ssrc (by omega) (by omega) hcap hfits with
    ⟨p, hp⟩ | ⟨e, he, hcode⟩
  · exact ⟨some p, by rw [hp]⟩
  · exact ⟨none, by rw [he]; exact if_pos hcode⟩

/-- A sub-packet that has not. -/
theorem decodeNext_fault (haccepted : ¬ Refused (rest b))
    (hfits : ¬ Fits (kindAt (rest b)) (headerOf (rest b)) (rest b).length) :
    decodeNext b = .fault := by
  have hlen := length_rest b
  obtain ⟨h8, hl⟩ := not_or.mp haccepted
  obtain ⟨ssrc, hbody⟩ := withHeader_accepted haccepted
  rw [hlen] at hfits
  rw [decodeNext_eq (by omega), dropEmptyRr, hbody,
    bodyOf_fault (kindAt (rest b)) ssrc (by omega) hfits]

end Round

/-! ## The loop -/

section Loop

variable {b : SrsBuffer}

/-- Every sub-packet is at least one word. -/
theorem four_le_packetSize (kind : Kind) (header : RtcpHeader) : 4 ≤ packetSize kind header := by
  cases kind <;> simp only [packetSize] <;> omega

/-- What a round does, in one statement. -/
theorem decodeNext_cases (hcap : b.bytes.length ≤ rtcpPacketSize) (hrest : rest b ≠ []) :
    decodeNext b = .fault ∧ ¬ (Refused (rest b) ∧ 2 ≤ (rest b).length) ∧
        (∀ size, ¬ Decodes (rest b) size) ∨
      (∃ e b', decodeNext b = .err e b') ∧ Refused (rest b) ∧ 2 ≤ (rest b).length ∨
      ∃ rtcp size, decodeNext b = .ok rtcp (b.advance size) ∧ Decodes (rest b) size ∧
        4 ≤ size := by
  have hpos : 0 < (rest b).length := List.length_pos_of_ne_nil hrest
  by_cases href : Refused (rest b)
  · have hnone : ∀ size, ¬ Decodes (rest b) size := fun size h => h.1 href
    by_cases h2 : 2 ≤ (rest b).length
    · exact Or.inr (Or.inl ⟨decodeNext_refused h2 href, href, h2⟩)
    · exact Or.inl ⟨decodeNext_one_byte (by omega), fun h => h2 h.2, hnone⟩
  · by_cases hfits : Fits (kindAt (rest b)) (headerOf (rest b)) (rest b).length
    · have hdec : Decodes (rest b) (packetSize (kindAt (rest b)) (headerOf (rest b))) :=
        ⟨href, hfits, rfl⟩
      obtain ⟨rtcp, h⟩ := decodeNext_decodes hcap hdec
      exact Or.inr (Or.inr ⟨rtcp, _, h, hdec, four_le_packetSize _ _⟩)
    · exact Or.inl ⟨decodeNext_fault href hfits, fun h => href h.1, fun _ h => hfits h.2.1⟩

variable {r : List UInt8}

theorem Decodes.unique {n m : ℕ} (hn : Decodes r n) (hm : Decodes r m) : n = m :=
  hn.2.2.trans hm.2.2.symm

/-- A round of the loop, with the rest of the run. -/
theorem decodeLoop_succ (fuel : ℕ) (b : SrsBuffer) :
    decodeLoop (fuel + 1) b =
      if rest b = [] then .ok ([], [b.pos]) b
      else (decodeNext >>= fun rtcp => decodeLoop fuel >>= fun result =>
        pure (rtcp.toList ++ result.1, b.pos :: result.2)) b := by
  rw [decodeLoop, bind_ok (Prog.read_apply _ _), bind_ok (Prog.read_apply _ _),
    b.empty_eq]
  by_cases h : rest b = []
  · simp only [h, decide_true, if_true]
    rfl
  · simp only [h, decide_false, if_false, Bool.false_eq_true]

/-- The positions of a successful run start where the run starts. -/
theorem decodeLoop_head {fuel : ℕ} {rtcps : List Packet} {positions : List ℕ} {b' : SrsBuffer}
    (h : decodeLoop fuel b = .ok (rtcps, positions) b') : positions.head? = some b.pos := by
  cases fuel with
  | zero => cases h
  | succ fuel =>
    rw [decodeLoop_succ] at h
    split at h
    · cases h
      rfl
    · rw [Prog.bind_apply] at h
      split at h
      · next hnext =>
        rw [Prog.bind_apply] at h
        split at h
        · cases h
          rfl
        all_goals cases h
      all_goals cases h

theorem stops_iff {size : ℕ} (h : Decodes r size) : Stops r ↔ Stops (r.drop size) := by
  constructor
  · intro hs
    cases hs with
    | refused _ href => exact absurd href h.1
    | packet hdec hrest => exact hdec.unique h ▸ hrest
  · exact .packet h

theorem framedWalk_iff {size : ℕ} (h : Decodes r size) :
    FramedWalk r ↔ size = 4 * ((headerOf r).length + 1) ∧ FramedWalk (r.drop size) := by
  constructor
  · intro hf
    cases hf with
    | done =>
      have h8 := (not_or.mp h.1).1
      simp at h8
    | packet hdec hsize hrest => exact hdec.unique h ▸ ⟨hsize, hrest⟩
  · exact fun hf => .packet h hf.1 hf.2

theorem FramedWalk.decodes (h : FramedWalk r) (hr : r ≠ []) : ∃ size, Decodes r size := by
  cases h with
  | done => exact absurd rfl hr
  | packet h _ _ => exact ⟨_, h⟩

theorem framed_cons_iff (bytes : List UInt8) (p : ℕ) {q : ℕ} {positions : List ℕ}
    (h : positions.head? = some q) : Framed bytes (p :: positions) ↔
      q = p + 4 * ((headerOf (bytes.drop p)).length + 1) ∧ Framed bytes positions := by
  cases positions with
  | nil => cases h
  | cons q' positions =>
    cases h
    rfl

/-- What the loop does, along the sub-packets: with fuel for the bytes that are left it does not
run out, it returns an error exactly when the walk stops, and it succeeds with the framing of
the length fields exactly when the walk is framed. -/
theorem decodeLoop_spec (fuel : ℕ) (hcap : b.bytes.length ≤ rtcpPacketSize)
    (hfuel : (rest b).length < fuel) :
    decodeLoop fuel b ≠ .hang ∧ ((∃ e b', decodeLoop fuel b = .err e b') ↔ Stops (rest b)) ∧
      ((∃ rtcps positions b', decodeLoop fuel b = .ok (rtcps, positions) b' ∧
        Framed b.bytes positions) ↔ FramedWalk (rest b)) := by
  induction fuel generalizing b with
  | zero => omega
  | succ fuel ih =>
    by_cases hrest : rest b = []
    · rw [decodeLoop_succ, if_pos hrest]
      refine ⟨by simp, ⟨?_, fun h => ?_⟩, ⟨fun _ => hrest ▸ .done, fun _ => ?_⟩⟩
      · rintro ⟨e, b', h⟩
        cases h
      · rw [hrest] at h
        cases h with
        | refused hlen _ => simp at hlen
        | packet hdec _ =>
          have h8 := (not_or.mp hdec.1).1
          simp at h8
      · exact ⟨[], [b.pos], b, rfl, trivial⟩
    · rw [decodeLoop_succ, if_neg hrest]
      rcases decodeNext_cases hcap hrest with
        ⟨hnext, href, hdec⟩ | ⟨⟨e, b', hnext⟩, href, h2⟩ | ⟨rtcp, size, hnext, hdec, hsize⟩
      · rw [Prog.bind_fault hnext]
        refine ⟨by simp, ⟨?_, fun h => ?_⟩, ⟨?_, fun h => ?_⟩⟩
        · rintro ⟨e, b', h⟩
          cases h
        · cases h with
          | refused hlen h => exact absurd ⟨h, hlen⟩ href
          | packet h _ => exact absurd h (hdec _)
        · rintro ⟨rtcps, positions, b', h, -⟩
          cases h
        · obtain ⟨size, h⟩ := h.decodes hrest
          exact absurd h (hdec size)
      · rw [bind_err hnext]
        refine ⟨by simp, ⟨fun _ => .refused h2 href, fun _ => ⟨e, b', rfl⟩⟩, ⟨?_, fun h => ?_⟩⟩
        · rintro ⟨rtcps, positions, b'', h, -⟩
          cases h
        · obtain ⟨size, h⟩ := h.decodes hrest
          exact absurd href h.1
      · -- the rest of the run is the run from the next sub-packet
        have hnextRest : rest (b.advance size) = (rest b).drop size := rest_advance b size
        obtain ⟨hhang, herr, hok⟩ := @ih (b.advance size) hcap (by
          have hpos : 0 < (rest b).length := List.length_pos_of_ne_nil hrest
          rw [hnextRest, List.length_drop]
          omega)
        rw [hnextRest, ← stops_iff hdec] at herr
        rw [hnextRest] at hok
        rw [bind_ok hnext, Prog.bind_apply, framedWalk_iff hdec, ← hok]
        cases hloop : decodeLoop fuel (b.advance size) with
        | hang => exact absurd hloop hhang
        | fault =>
          rw [hloop] at herr
          refine ⟨by simp, ⟨?_, fun h => ?_⟩, ⟨?_, ?_⟩⟩
          · rintro ⟨e, b', h⟩
            cases h
          · obtain ⟨e, b', h⟩ := herr.mpr h
            cases h
          · rintro ⟨rtcps, positions, b', h, -⟩
            cases h
          · rintro ⟨-, rtcps, positions, b', h, -⟩
            cases h
        | err e b' =>
          rw [hloop] at herr
          refine ⟨by simp, ⟨fun _ => herr.mp ⟨e, b', rfl⟩, fun _ => ⟨e, b', rfl⟩⟩, ⟨?_, ?_⟩⟩
          · rintro ⟨rtcps, positions, b'', h, -⟩
            cases h
          · rintro ⟨-, rtcps, positions, b'', h, -⟩
            cases h
        | ok result b' =>
          obtain ⟨rtcps, positions⟩ := result
          rw [hloop] at herr
          have hframed := framed_cons_iff b.bytes b.pos (decodeLoop_head hloop)
          rw [pos_advance, Nat.add_left_cancel_iff] at hframed
          refine ⟨by simp, ⟨?_, fun h => ?_⟩, ⟨?_, ?_⟩⟩
          · rintro ⟨e, b'', h⟩
            cases h
          · obtain ⟨e, b'', h⟩ := herr.mpr h
            cases h
          · rintro ⟨rtcps', positions', b'', h, hpositions⟩
            cases h
            obtain ⟨hfirst, hothers⟩ := hframed.mp hpositions
            exact ⟨hfirst, rtcps, positions, b', rfl, hothers⟩
          · rintro ⟨hfirst, rtcps', positions', b'', h, hpositions⟩
            cases h
            exact ⟨_, _, b', rfl, hframed.mpr ⟨hfirst, hpositions⟩⟩

end Loop

/-! ## The compound packet as a whole -/

/-- Which packets decode without an abort or a read outside, and with the boundaries of the
length fields on success. -/
theorem compoundDecode_good_iff {bytes : List UInt8} (hlen : bytes.length ≤ rtcpPacketSize) :
    Good bytes ↔ Stops bytes ∨ FramedWalk bytes := by
  obtain ⟨-, herr, hok⟩ := decodeLoop_spec (b := ⟨bytes, 0⟩) (bytes.length + 1) hlen
    (by simp [rest])
  have hrest : rest ⟨bytes, 0⟩ = bytes := rfl
  rw [hrest] at herr hok
  rw [← herr, ← hok, or_comm]
  rfl

/-- An empty receiver report and a picture loss indication. -/
def emptyRrThenPli : List UInt8 :=
  [0x80, 201, 0, 1, 0, 0, 0, 1, 0x81, 206, 0, 2, 0, 0, 0, 1, 0, 0, 0, 2]

/-- A packet that meets the condition: both sizes are as announced. -/
theorem emptyRrThenPli_good : Good emptyRrThenPli := by
  have hpli : Decodes (emptyRrThenPli.drop 8) 12 := ⟨by decide, by decide, by decide⟩
  have hrr : Decodes emptyRrThenPli 8 := ⟨by decide, by decide, by decide⟩
  have hwalk : FramedWalk emptyRrThenPli :=
    .packet hrr (by decide) (.packet hpli (by decide) .done)
  exact (compoundDecode_good_iff (by decide)).mpr (Or.inr hwalk)

/-- A `BYE` without a body: its length field is 0. -/
def byeWithoutBody : List UInt8 := [0x80, 203, 0, 0, 0, 0, 0, 1]

/-- The failing input: the decoder asks for minus four payload bytes. -/
theorem bye_without_body_aborts : compoundDecode byeWithoutBody = .fault ∧ ¬ Good byeWithoutBody := by
  have hfault : compoundDecode byeWithoutBody = .fault := rfl
  refine ⟨hfault, ?_⟩
  rintro (⟨rtcps, positions, b, h, -⟩ | ⟨e, b, h⟩)
  · rw [hfault] at h
    cases h
  · rw [hfault] at h
    cases h

end SrsChatRoom.Kernel.Rtcp
