import SrsChatRoom.Lib.RunLength
import SrsChatRoom.Lib.SortedMap
import Mathlib.Data.UInt

/-!
# MP4 sample tables (`srs_kernel_mp4.cpp`)

A recording keeps its samples in a list. At the end `SrsMp4SampleManager::write` fills the sample
tables of the tracks, and a player gets the samples back from the tables with
`SrsMp4SampleManager::load`.

The boxes are those in memory, of which the sample tables are modelled. The data of a sample is
not a part of the tables, only its size is.
-/

namespace SrsChatRoom.Kernel.Mp4

open RunLength (Run Cursor)

/-! ## Samples -/

/-- `SrsFrameType`, of the samples of the two tracks. -/
inductive FrameType
  | audio
  | video
deriving DecidableEq, Repr

/-- `SrsVideoAvcFrameType` -/
inductive VideoFrameType
  | forbidden
  | keyFrame
  | interFrame
  | disposableInterFrame
  | generatedKeyFrame
  | videoInfoFrame
deriving DecidableEq, Repr

/-- `SrsMp4Sample` -/
structure Sample where
  type : FrameType
  offset : ℕ
  index : ℕ
  dts : UInt64
  pts : UInt64
  tbn : ℕ
  frameType : VideoFrameType
  adjust : Int32
  nbData : ℕ
deriving DecidableEq, Repr

/-- An unsigned number of 32 bits. -/
def u32 (n : ℕ) : ℕ := n % 2 ^ 32

/-! ## Tables -/

/-- `SrsMp4SttsEntry`: the number of samples, and the difference of each to the one before. -/
abbrev SttsEntry := Run UInt32

/-- `SrsMp4CttsEntry`: the number of samples, and the difference of pts and dts. -/
abbrev CttsEntry := Run Int64

/-- `SrsMp4CompositionTime2SampleBox` -/
structure Ctts where
  version : ℕ
  entries : List CttsEntry
deriving DecidableEq, Repr

/-- `SrsMp4StscEntry` -/
structure StscEntry where
  firstChunk : ℕ
  samplesPerChunk : ℕ
  sampleDescriptionIndex : ℕ
deriving DecidableEq, Repr

/-- `SrsMp4SampleSizeBox` -/
structure Stsz where
  sampleSize : ℕ
  sampleCount : ℕ
  entrySizes : List ℕ
deriving DecidableEq, Repr

/-- `SrsMp4SampleTableBox`, each table with its entries. -/
structure SampleTable where
  stts : Option (List SttsEntry) := none
  stss : Option (List ℕ) := none
  ctts : Option Ctts := none
  stsc : Option (List StscEntry) := none
  stsz : Option Stsz := none
  stco : Option (List ℕ) := none
  co64 : Option (List ℕ) := none
deriving DecidableEq, Repr

/-- A track: the timescale of its media header, and its sample table. -/
structure Track where
  mdhd : Option ℕ
  stbl : SampleTable
deriving DecidableEq, Repr

/-- `SrsMp4MovieBox` -/
structure Movie where
  vide : Option Track
  soun : Option Track
deriving DecidableEq, Repr

/-- The movie with the timescales of its tracks, before samples are written. -/
def Movie.new (vide soun : Option ℕ) : Movie where
  vide := vide.map fun timescale => ⟨some timescale, {}⟩
  soun := soun.map fun timescale => ⟨some timescale, {}⟩

/-! ## Writing -/

/-- The run that goes on, and those that are complete. -/
structure Runs (α : Type) where
  entry : Run α
  entries : List (Run α)

namespace Runs

variable {α : Type}

/-- `entry.sample_count++` -/
def count (r : Runs α) : Runs α := { r with entry := ⟨u32 (r.entry.count + 1), r.entry.value⟩ }

/-- The run is complete, and `v` the first value of the next one. -/
def push (r : Runs α) (v : α) : Runs α := ⟨⟨1, v⟩, r.entries ++ [r.entry]⟩

def close (r : Runs α) : List (Run α) :=
  if r.entry.count ≠ 0 then r.entries ++ [r.entry] else r.entries

end Runs

/-- What `write_track` collects. -/
structure TrackWriter where
  stts : Runs UInt32 := ⟨⟨0, 0⟩, []⟩
  ctts : Runs Int64 := ⟨⟨0, 0⟩, []⟩
  cttsVersion : ℕ := 0
  stszEntries : List ℕ := []
  coEntries : List ℕ := []
  stssEntries : List ℕ := []
  previous : Option Sample := none

/-- The next sample in the table of the dts. A difference of zero is taken over by the next. -/
def sttsSample (r : Runs UInt32) (previous : Option Sample) (s : Sample) : Runs UInt32 :=
  match previous with
  | some p =>
    let delta := (s.dts - p.dts).toUInt32
    if r.entry.value = 0 ∨ r.entry.value = delta then
      { r.count with entry := ⟨r.count.entry.count, delta⟩ }
    else r.push delta
  | none => r.count

/-- The difference of pts and dts. -/
def Sample.cts (s : Sample) : Int64 := (s.pts - s.dts).toInt64

/-- The next sample in the table of the pts. The first one is counted, whatever its value. -/
def cttsSample (r : Runs Int64) (s : Sample) : Runs Int64 :=
  if r.entry.count = 0 ∨ r.entry.value = s.cts then r.count else r.push s.cts

/-- A round of the loop of `write_track`; `ctts` is whether there is a table of the pts. -/
def TrackWriter.sample (ctts : Bool) (w : TrackWriter) (s : Sample) : TrackWriter where
  stts := sttsSample w.stts w.previous s
  ctts := if ctts then cttsSample w.ctts s else w.ctts
  cttsVersion := if ctts ∧ s.cts < 0 then 1 else w.cttsVersion
  stszEntries := w.stszEntries ++ [u32 s.nbData]
  coEntries := w.coEntries ++ [s.offset]
  stssEntries := if s.frameType = .keyFrame then w.stssEntries ++ [u32 (s.index + 1)]
    else w.stssEntries
  previous := some s

/-- `new uint32_t[n]`, filled by a loop with a signed counter: of `2^31` entries or more none is
set, and `junk` is what the memory held before. -/
def newArray (junk : ℕ → ℕ) (entries : List ℕ) : List ℕ :=
  let n := u32 entries.length
  if n < 2 ^ 31 then entries.take n else (List.range n).map junk

/-- `write_track`. Only the video track has a table of key frames. -/
def writeTrack (junk : ℕ → ℕ) (samples : List Sample) (track : FrameType) (stss ctts large : Bool)
    (stbl : SampleTable) : SampleTable :=
  let w := samples.foldl (fun w s => if s.type ≠ track then w else w.sample ctts s)
    ({} : TrackWriter)
  { stts := some w.stts.close
    stss := if stss then some (newArray junk w.stssEntries) else stbl.stss
    ctts := if ctts then some ⟨w.cttsVersion, w.ctts.close⟩ else stbl.ctts
    stsc := some [⟨1, 1, 1⟩]
    stsz := some ⟨0, u32 w.stszEntries.length, newArray junk w.stszEntries⟩
    stco := if large then stbl.stco else some ((newArray junk w.coEntries).map u32)
    co64 := if large then some (newArray junk w.coEntries) else stbl.co64 }

/-- The offsets need 64 bits: the last one is not less than `UINT32_MAX`. -/
def needsLarge (samples : List Sample) : Bool :=
  match samples.getLast? with
  | none => false
  | some s => ¬ s.offset < 2 ^ 32 - 1

def hasCts (samples : List Sample) : Bool := samples.any fun s => s.dts ≠ s.pts ∧ s.type = .video

/-- `SrsMp4SampleManager::write` -/
def write (junk : ℕ → ℕ) (samples : List Sample) (moov : Movie) : Movie where
  vide := moov.vide.map fun t => { t with
    stbl := writeTrack junk samples .video true (hasCts samples) (needsLarge samples) t.stbl }
  soun := moov.soun.map fun t => { t with
    stbl := writeTrack junk samples .audio false false (needsLarge samples) t.stbl }

/-! ## Loading -/

inductive LoadError
  | illegalTrack
  | illegalTimestamp
  | moovOverflow
  | illegalSamples
deriving DecidableEq, Repr

/-- A load returns an error, or accesses memory that is not its own or divides by zero. -/
inductive Failure
  | error (code : LoadError)
  | fault
deriving DecidableEq, Repr

/-- The tables of a track that are read. -/
structure TrackTables where
  timescale : ℕ
  stco : List ℕ
  stsz : Stsz
  stsc : List StscEntry
  stts : List SttsEntry
  ctts : Option Ctts
  stss : Option (List ℕ)

/-- `initialize_counter` of `stts` and `ctts` -/
def initializeCounter {α : Type} : List (Run α) → Cursor
  | [] => ⟨0, 0⟩
  | e :: _ => ⟨0, e.count⟩

/-- `on_sample` of `stts` and `ctts` -/
def onSample {α : Type} (entries : List (Run α)) (c : Cursor) (sampleIndex : ℕ) :
    Except Failure (Run α × Cursor) :=
  if u32 (sampleIndex + 1) > c.count then
    match entries[c.index + 1]? with
    | none => .error (.error .illegalTimestamp)
    | some e => .ok (e, ⟨c.index + 1, u32 (c.count + e.count)⟩)
  else
    match entries[c.index]? with
    | none => .error .fault
    | some e => .ok (e, c)

/-- The entry of a chunk. -/
def stscAt (entries : List StscEntry) (index : ℕ) : Except Failure (StscEntry × ℕ) :=
  match entries[index]? with
  | none => .error .fault
  | some e => .ok (e, index)

/-- `SrsMp4Sample2ChunkBox::on_chunk`; `entry_count - 1` is a difference of 32 bits. -/
def onChunk (entries : List StscEntry) (index chunkIndex : ℕ) :
    Except Failure (StscEntry × ℕ) :=
  if index ≥ u32 (entries.length + (2 ^ 32 - 1)) then stscAt entries index
  else
    match entries[index + 1]? with
    | none => .error .fault
    | some e => stscAt entries (if u32 (chunkIndex + 1) ≥ e.firstChunk then index + 1 else index)

/-- `get_sample_size` -/
def getSampleSize (stsz : Stsz) (sampleIndex : ℕ) : Except Failure ℕ :=
  if stsz.sampleSize ≠ 0 then .ok stsz.sampleSize
  else if sampleIndex ≥ stsz.sampleCount then .error (.error .moovOverflow)
  else
    match stsz.entrySizes[sampleIndex]? with
    | none => .error .fault
    | some size => .ok size

/-- The pts of a sample. -/
def onPts (ctts : Option Ctts) (c : Cursor) (sampleIndex : ℕ) (dts : UInt64) :
    Except Failure (UInt64 × Cursor) :=
  match ctts with
  | none => .ok (dts, c)
  | some ctts => (onSample ctts.entries c sampleIndex).map fun (e, c) =>
    (dts + e.value.toUInt64, c)

/-- `is_sync` -/
def isSync (sampleNumbers : List ℕ) (sampleIndex : ℕ) : Bool :=
  sampleNumbers.contains (u32 (sampleIndex + 1))

def frameTypeOf (tt : FrameType) (stss : Option (List ℕ)) (sampleIndex : ℕ) : VideoFrameType :=
  match tt, stss with
  | .audio, _ => .forbidden
  | .video, none => .keyFrame
  | .video, some numbers => if isSync numbers sampleIndex then .keyFrame else .interFrame

/-- The state of `load_trak`. -/
structure Loading where
  tses : SortedMap ℕ Sample
  previous : Option Sample
  relative : ℕ
  stsc : ℕ
  stts : Cursor
  ctts : Cursor

/-- `previous? previous->index+1:0` -/
def nextIndex : Option Sample → ℕ
  | some p => u32 (p.index + 1)
  | none => 0

/-- The dts behind the previous sample. The first one is zero. -/
def nextDts (previous : Option Sample) (delta : UInt32) : UInt64 :=
  match previous with
  | some p => p.dts + delta.toUInt64
  | none => 0

/-- The next sample of a chunk. -/
def loadSample (t : TrackTables) (tt : FrameType) (chunkOffset : ℕ) (st : Loading) :
    Except Failure Loading := do
  let index := nextIndex st.previous
  let offset := u32 (chunkOffset + st.relative)
  let size ← getSampleSize t.stsz index
  let (sttsEntry, stts) ← onSample t.stts st.stts index
  let dts := nextDts st.previous sttsEntry.value
  let (pts, ctts) ← onPts t.ctts st.ctts index dts
  let sample : Sample := ⟨tt, offset, index, dts, pts, t.timescale, frameTypeOf tt t.stss index, 0,
    size⟩
  .ok { st with
    tses := st.tses.assign offset sample
    previous := some sample
    relative := u32 (st.relative + size)
    stts := stts
    ctts := ctts }

/-- The samples of a chunk, given with its index. -/
def loadChunk (t : TrackTables) (tt : FrameType) (st : Loading) (chunk : ℕ × ℕ) :
    Except Failure Loading := do
  let (entry, stsc) ← onChunk t.stsc st.stsc chunk.2
  (List.range entry.samplesPerChunk).foldlM (fun st _ => loadSample t tt chunk.1 st)
    { st with relative := 0, stsc := stsc }

/-- The number of samples is that of the table of sizes. -/
def checkSamples (stsz : Stsz) (st : Loading) : Except Failure (SortedMap ℕ Sample) :=
  match st.previous with
  | some p =>
    if u32 (p.index + 1) ≠ stsz.sampleCount then .error (.error .illegalSamples) else .ok st.tses
  | none => .ok st.tses

/-- All counters are at the start. -/
def Loading.init (tses : SortedMap ℕ Sample) (t : TrackTables) : Loading where
  tses := tses
  previous := none
  relative := 0
  stsc := 0
  stts := initializeCounter t.stts
  ctts :=
    match t.ctts with
    | some ctts => initializeCounter ctts.entries
    | none => ⟨0, 0⟩

/-- `load_trak` -/
def loadTrak (tses : SortedMap ℕ Sample) (tt : FrameType) (t : TrackTables) :
    Except Failure (SortedMap ℕ Sample) := do
  let st ← t.stco.zipIdx.foldlM (loadChunk t tt) (.init tses t)
  checkSamples t.stsz st

/-- The tables of a track, which must be there. The offsets are read from `stco` only. -/
def tablesOf (t : Track) (ctts : Option Ctts) (stss : Option (List ℕ)) :
    Except Failure TrackTables :=
  match t.mdhd, t.stbl.stco, t.stbl.stsz, t.stbl.stsc, t.stbl.stts with
  | some timescale, some stco, some stsz, some stsc, some stts =>
    .ok ⟨timescale, stco, stsz, stsc, stts, ctts, stss⟩
  | _, _, _, _, _ => .error (.error .illegalTrack)

/-- A track of the movie, if there is one. -/
def loadTrack (tses : SortedMap ℕ Sample) (tt : FrameType) (t : Option Track)
    (ctts : Option Ctts) (stss : Option (List ℕ)) : Except Failure (SortedMap ℕ Sample) :=
  match t with
  | none => .ok tses
  | some t => (tablesOf t ctts stss).bind (loadTrak tses tt)

/-- `do_load` -/
def doLoad (moov : Movie) : Except Failure (SortedMap ℕ Sample) := do
  let tses ← loadTrack .empty .video moov.vide (moov.vide.bind (·.stbl.ctts))
    (moov.vide.bind (·.stbl.stss))
  loadTrack tses .audio moov.soun none none

/-- `dts_ms` -/
def Sample.dtsMs (s : Sample) : Except Failure UInt32 :=
  if s.tbn = 0 then .error .fault
  else .ok ((s.dts * 1000 / UInt64.ofNat s.tbn).toUInt32 + s.adjust.toUInt32)

/-- The greatest and the least difference of an audio sample to the video sample before it. -/
structure Diffs where
  pvideo : Option Sample := none
  maxp : Int32 := 0
  maxn : Int32 := 0

def Diffs.sample (d : Diffs) (s : Sample) : Except Failure Diffs :=
  match s.type, d.pvideo with
  | .video, _ => .ok { d with pvideo := some s }
  | .audio, none => .ok d
  | .audio, some v => do
    let audio ← s.dtsMs
    let video ← v.dtsMs
    let diff := (audio - video).toInt32
    .ok (if diff > 0 then ⟨none, max d.maxp diff, d.maxn⟩ else ⟨none, d.maxp, min d.maxn diff⟩)

/-- `adjust` of the audio, when one of the differences is zero and the other is not. -/
def adjusted (d : Diffs) (s : Sample) : Sample :=
  if d.maxp * d.maxn = 0 ∧ d.maxp + d.maxn ≠ 0 ∧ s.type = .audio then
    { s with adjust := 0 - d.maxp - d.maxn }
  else s

/-- `SrsMp4SampleManager::load` -/
def load (moov : Movie) : Except Failure (List Sample) := do
  let tses ← doLoad moov
  let d ← tses.values.foldlM Diffs.sample ({} : Diffs)
  .ok (tses.values.map (adjusted d))

end SrsChatRoom.Kernel.Mp4
