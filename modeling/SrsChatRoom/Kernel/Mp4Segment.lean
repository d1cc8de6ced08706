import SrsChatRoom.Kernel.Mp4Boxes
import SrsChatRoom.Kernel.Mp4Samples
import Mathlib.Data.List.SplitLengths

/-!
# DASH segments (`srs_kernel_mp4.cpp`)

`SrsMp4M2tsSegmentEncoder` keeps the samples of a segment, and writes them at its end: an index
(`sidx`), the description of the samples (`moof`) and their data (`mdat`). The index and the offset
of the data are computed from boxes that are not encoded yet.

A writer takes all that is written to it. The segment type box, which `initialize` writes, is not a
part of what `flush` writes.
-/

namespace SrsChatRoom.Kernel.Mp4

/-! ## Samples of a segment -/

/-- `SrsMp4HandlerType` -/
inductive HandlerType
  | vide
  | soun
  | other
deriving DecidableEq, Repr

/-- `SrsMp4Sample` with its data. -/
structure StoredSample extends Sample where
  data : List UInt8

/-- `SrsMp4M2tsSegmentEncoder`, behind `initialize`. -/
structure SrsMp4M2tsSegmentEncoder where
  sequenceNumber : UInt32
  decodeBasetime : Int64
  trackId : UInt32
  nbAudios : UInt32 := 0
  nbVideos : UInt32 := 0
  mdatBytes : UInt64 := 0
  samples : List StoredSample := []

/-- The sample that `write_sample` appends. -/
def newSample (type : FrameType) (ft : VideoFrameType) (index dts pts : UInt32)
    (sample : List UInt8) : StoredSample where
  type := type
  offset := 0
  index := index.toNat
  dts := dts.toUInt64
  pts := pts.toUInt64
  tbn := 1000
  frameType := ft
  adjust := 0
  nbData := sample.length
  data := sample

/-- `SrsMp4M2tsSegmentEncoder::write_sample` -/
def SrsMp4M2tsSegmentEncoder.writeSample (enc : SrsMp4M2tsSegmentEncoder) (ht : HandlerType)
    (ft : VideoFrameType) (dts pts : UInt32) (sample : List UInt8) : SrsMp4M2tsSegmentEncoder :=
  match ht with
  | .vide =>
    { enc with
      nbVideos := enc.nbVideos + 1
      samples := enc.samples ++ [newSample .video ft enc.nbVideos dts pts sample]
      mdatBytes := enc.mdatBytes + UInt64.ofNat sample.length }
  | .soun =>
    { enc with
      nbAudios := enc.nbAudios + 1
      samples := enc.samples ++ [newSample .audio .forbidden enc.nbAudios dts pts sample]
      mdatBytes := enc.mdatBytes + UInt64.ofNat sample.length }
  | .other => enc

/-- One round of `SrsMp4SampleManager::write`, for a sample with the dts of the next one, or that of
the end. `first` says that there is no `previous`. -/
def writeEntry (first : Bool) (nextDts : UInt64) (sample : Sample) (trun : Trun) : Trun :=
  let entry : SrsMp4TrunEntry :=
    { sampleFlags := if first then 0x02000000 else 0x01000000
      sampleDuration := (nextDts - sample.dts).toUInt32
      sampleSize := UInt32.ofNat sample.nbData
      sampleCompositionTimeOffset := sample.cts }
  let trun := if entry.sampleCompositionTimeOffset < 0 then { trun with version := 1 } else trun
  { trun with entries := trun.entries ++ [entry] }

/-- The loop of `SrsMp4SampleManager::write`. -/
def writeEntries (dts : UInt64) : Bool → List Sample → Trun → Trun
  | _, [], trun => trun
  | first, [sample], trun => writeEntry first dts sample trun
  | first, sample :: next :: samples, trun =>
    writeEntries dts false (next :: samples) (writeEntry first next.dts sample trun)

/-- `SrsMp4SampleManager::write` to a fragment. -/
def writeFragment (samples : List Sample) (dts : UInt64) (trun : Trun) : Trun :=
  writeEntries dts true samples { trun with flags := trunFlags }

/-! ## Writing to the file -/

/-- A program with what the writer has got. -/
abbrev FileWriter := Prog (List UInt8) Mp4Error

/-- A `uint64_t` as `int`. -/
def intOf (n : ℕ) : ℤ := Int.bmod n (2 ^ 32)

/-- `writer->write(data, size, NULL)` -/
def writeFile (data : List UInt8) : FileWriter Unit := fun file => .ok () (file ++ data)

/-- An encoder on a new buffer: the memory that it leaves. -/
def encodeTo (nbData : ℕ) (x : Mp4Writer) : FileWriter (List UInt8) :=
  Prog.alone (x >>= fun _ => Prog.read SrsBuffer.bytes) ⟨List.replicate nbData 0, 0⟩

/-- `srs_mp4_write_box`. No vector has a negative size. -/
def srsMp4WriteBox (box : SrsMp4Box) : FileWriter Unit := do
  if intOf box.nbBytes < 0 then Prog.abort
  else do
    let data ← Prog.wrap (Mp4Error.wrap "encode box")
      (encodeTo (intOf box.nbBytes).toNat box.encode)
    writeFile data

/-- The loop that writes the samples. -/
def writeSamples : List StoredSample → FileWriter Unit
  | [] => return ()
  | sample :: samples => do
    writeFile sample.data
    writeSamples samples

namespace SrsMp4M2tsSegmentEncoder

/-- The `moof` box of `flush`. -/
def moof (enc : SrsMp4M2tsSegmentEncoder) (trun : Trun) : SrsMp4Box :=
  srsMp4MovieFragmentBox
    [srsMp4MovieFragmentHeaderBox enc.sequenceNumber.toNat,
      srsMp4TrackFragmentBox
        [srsMp4TrackFragmentHeaderBox
            { trackId := enc.trackId.toNat, flags := tfhdFlagsDefaultBaseIsMoof },
          srsMp4TrackFragmentDecodeTimeBox 1 (enc.decodeBasetime / 1000).toUInt64.toNat,
          srsMp4TrackFragmentRunBox trun]]

/-- The `sidx` box of `flush`. -/
def sidx (enc : SrsMp4M2tsSegmentEncoder) (duration : UInt64) (referencedSize : UInt32) : Sidx where
  version := 1
  referenceId := 1
  timescale := 1000
  earliestPresentationTime := (enc.decodeBasetime / 1000).toUInt64.toNat
  entries := [{
    subsegmentDuration := duration.toUInt32
    startsWithSap := 1
    referencedSize := referencedSize }]

/-- The `duration` of `flush`. -/
def duration (enc : SrsMp4M2tsSegmentEncoder) (dts : UInt64) : UInt64 :=
  match enc.samples with
  | first :: _ => max 0 (dts - first.dts)
  | [] => 0

/-- `SrsMp4M2tsSegmentEncoder::flush` -/
def flush (enc : SrsMp4M2tsSegmentEncoder) (dts : UInt64) : FileWriter Unit := do
  Prog.refuse (enc.nbAudios = 0 ∧ enc.nbVideos = 0)
    ⟨.illegalMoof, ["Missing audio and video track"]⟩
  let trun := writeFragment (enc.samples.map StoredSample.toSample) dts {}
  let mdat := srsMp4MediaDataBox enc.mdatBytes.toNat
  let moofBytes := intOf (enc.moof trun).nbBytes
  let trun := { trun with dataOffset := Int32.ofInt (moofBytes + 8) }
  let sidx := enc.sidx (enc.duration dts) (UInt32.ofInt (moofBytes + mdat.nbBytes))
  Prog.wrap (Mp4Error.wrap "write sidx") (srsMp4WriteBox (srsMp4SegmentIndexBox sidx))
  Prog.wrap (Mp4Error.wrap "write moof") (srsMp4WriteBox (enc.moof trun))
  let header ← Prog.wrap (Mp4Error.wrap "encode mdat") (encodeTo 8 mdat.encode)
  writeFile header
  writeSamples enc.samples

end SrsMp4M2tsSegmentEncoder

/-! ## A segment -/

/-- What `write_sample` is called with. -/
structure SegmentSample where
  type : FrameType
  frameType : VideoFrameType
  dts : UInt32
  pts : UInt32
  data : List UInt8

def SegmentSample.handler (s : SegmentSample) : HandlerType :=
  match s.type with
  | .audio => .soun
  | .video => .vide

/-- The calls of an encoder: `initialize`, `write_sample` for samples in the order of their dts, and
`flush`. The samples have less than 2^31 bytes, and the size of the `moof` is an `int`. -/
structure Segment where
  sequenceNumber : UInt32
  decodeBasetime : Int64
  trackId : UInt32
  samples : List SegmentSample
  nonempty : samples ≠ []
  ordered : samples.IsChain fun a b => a.dts ≤ b.dts
  endDts : UInt64
  ends : (samples.getLast nonempty).dts.toNat ≤ endDts.toNat
  fits : (samples.map fun s => s.data.length).sum < 2 ^ 31
  fitsMoof : 88 + 16 * samples.length < 2 ^ 31

/-- The encoder behind `initialize`. -/
def Segment.new (seg : Segment) : SrsMp4M2tsSegmentEncoder where
  sequenceNumber := seg.sequenceNumber
  decodeBasetime := seg.decodeBasetime
  trackId := seg.trackId

/-- The encoder before `flush`. -/
def Segment.encoder (seg : Segment) : SrsMp4M2tsSegmentEncoder :=
  seg.samples.foldl (fun enc s => enc.writeSample s.handler s.frameType s.dts s.pts s.data) seg.new

/-! ## What is in the encoder -/

/-- The stored sample is this one. -/
structure Stored (s : SegmentSample) (t : StoredSample) : Prop where
  dts : t.dts = s.dts.toUInt64
  pts : t.pts = s.pts.toUInt64
  nbData : t.nbData = s.data.length
  data : t.data = s.data

/-- The bytes of these samples. -/
def dataLength (samples : List SegmentSample) : ℕ := (samples.map fun s => s.data.length).sum

/-- The encoder has these samples, and counts them. -/
structure HasSamples (samples : List SegmentSample) (enc : SrsMp4M2tsSegmentEncoder) : Prop where
  stored : List.Forall₂ Stored samples enc.samples
  count : enc.nbAudios.toNat + enc.nbVideos.toNat = samples.length
  size : enc.mdatBytes.toNat = dataLength samples

theorem stored_newSample (s : SegmentSample) (type : FrameType) (ft : VideoFrameType)
    (index : UInt32) : Stored s (newSample type ft index s.dts s.pts s.data) :=
  ⟨rfl, rfl, rfl, rfl⟩

theorem dataLength_append (samples : List SegmentSample) (s : SegmentSample) :
    dataLength (samples ++ [s]) = dataLength samples + s.data.length := by
  unfold dataLength
  rw [List.map_append, List.sum_append, List.map_singleton, List.sum_singleton]

/-- One more sample. -/
theorem HasSamples.writeSample {samples : List SegmentSample} {enc : SrsMp4M2tsSegmentEncoder}
    (h : HasSamples samples enc) (s : SegmentSample) (hcount : samples.length + 1 < 2 ^ 32)
    (hsize : dataLength samples + s.data.length < 2 ^ 32) :
    HasSamples (samples ++ [s])
      (enc.writeSample s.handler s.frameType s.dts s.pts s.data) := by
  have hdata : (UInt64.ofNat s.data.length).toNat = s.data.length := by
    rw [UInt64.toNat_ofNat']
    omega
  have hadd : (enc.mdatBytes + UInt64.ofNat s.data.length).toNat =
      dataLength (samples ++ [s]) := by
    have hold := h.size
    rw [UInt64.toNat_add, hdata, hold, dataLength_append]
    omega
  have hlength : (samples ++ [s]).length = samples.length + 1 := by simp
  have hold := h.count
  unfold SrsMp4M2tsSegmentEncoder.writeSample SegmentSample.handler
  cases s.type with
  | audio =>
    refine ⟨?_, ?_, hadd⟩
    · exact List.rel_append h.stored
        (List.Forall₂.cons (stored_newSample s _ _ _) List.Forall₂.nil)
    · show (enc.nbAudios + 1).toNat + enc.nbVideos.toNat = _
      have hone : (1 : UInt32).toNat = 1 := rfl
      rw [UInt32.toNat_add, hone, hlength]
      omega
  | video =>
    refine ⟨?_, ?_, hadd⟩
    · exact List.rel_append h.stored
        (List.Forall₂.cons (stored_newSample s _ _ _) List.Forall₂.nil)
    · show enc.nbAudios.toNat + (enc.nbVideos + 1).toNat = _
      have hone : (1 : UInt32).toNat = 1 := rfl
      rw [UInt32.toNat_add, hone, hlength]
      omega

/-- All the samples of a segment. -/
theorem Segment.hasSamples (seg : Segment) : HasSamples seg.samples seg.encoder := by
  have hall : ∀ (rest before : List SegmentSample) (enc : SrsMp4M2tsSegmentEncoder),
      HasSamples before enc → before.length + rest.length < 2 ^ 32 →
      dataLength before + dataLength rest < 2 ^ 32 →
      HasSamples (before ++ rest) (rest.foldl
        (fun enc s => enc.writeSample s.handler s.frameType s.dts s.pts s.data) enc) := by
    intro rest
    induction rest with
    | nil =>
      intro before enc h _ _
      rwa [List.append_nil]
    | cons s rest ih =>
      intro before enc h hcount hsize
      have hcons : dataLength (s :: rest) = s.data.length + dataLength rest := List.sum_cons
      rw [List.length_cons] at hcount
      rw [List.append_cons]
      apply ih
      · exact h.writeSample s (by omega) (by omega)
      · rw [List.length_append, List.length_singleton]
        omega
      · rw [dataLength_append]
        omega
  have hfits := seg.fits
  have hfitsMoof := seg.fitsMoof
  have hstart : HasSamples [] seg.new := ⟨List.Forall₂.nil, rfl, rfl⟩
  apply hall seg.samples [] seg.new hstart
  · rw [List.length_nil]
    omega
  · show 0 + (seg.samples.map fun s => s.data.length).sum < 2 ^ 32
    omega

end SrsChatRoom.Kernel.Mp4
