import Mathlib.Data.List.Basic
import Mathlib.Logic.Function.Basic
import Mathlib.Tactic

/-!
# The HLS muxer (`srs_app_hls.cpp`, `srs_app_fragment.cpp`)

The muxer writes a stream to segments of some seconds. A segment is written to a temporary file;
when it is closed and its duration is acceptable, the file gets its real name and the segment is
appended to the window, which loses its oldest segments. Then the playlist is written anew, also
to a temporary file that is renamed, and the files of the lost segments are deleted.

Every operation on a file may fail, and how they go is an input of the step. A write that succeeds
may only have reached the buffer of the stream, so closing a file has an outcome too, which nobody
looks at. The state holds the files it is all about, and as a record of all the moments in between
each state of the disk that there was.

The names of the files are left to the configuration: what `hls_ts_file` and `hls_key_file` give
when their variables are replaced. The uri of a segment stands for its path here, so the prefix of
the entries and the directories are left out, and so are the hooks and the codecs.
-/

namespace SrsChatRoom.App.HlsMuxer

/-- A key, or an initialization vector. -/
abbrev Key := BitVec 128

abbrev Path := String

/-- `srsu2msi`: an `int`. -/
def srsu2msi (us : ℤ) : ℤ := (us / 1000).bmod (2 ^ 32)

/-- `SRS_HLS_SEGMENT_MIN_DURATION` -/
def segmentMinDuration : ℤ := 100 * 1000

/-- What the configuration of the vhost says. -/
structure Config where
  /-- `max_td`, the fragment times the ratio -/
  maxTd : ℤ
  window : ℤ
  cleanup : Bool
  keys : Bool
  fragmentsPerKey : ℕ
  /-- the path of the segment with a number, opened at a time, but for its `[duration]` -/
  tsFile : ℕ → ℤ → Path
  /-- `[duration]` of a path replaced -/
  withDuration : Path → ℤ → Path
  keyFile : ℕ → Path

/-! ## The disk -/

/-- The file of a segment. -/
structure TsFile where
  /-- of which segment it is, counted from the first one that was opened -/
  birth : ℕ
  sequenceNo : ℕ
  /-- all that was written to it is in it -/
  whole : Bool
  /-- the key and the initialization vector it is encrypted with -/
  cipher : Option (Key × Key)
deriving DecidableEq

/-- A line of a playlist. -/
inductive Line
  | extm3u
  | version
  | mediaSequence (n : ℕ)
  | targetDuration (seconds : ℤ)
  | discontinuity
  | key (uri : Path) (iv : Key)
  /-- `#EXTINF`, in milliseconds -/
  | extinf (duration : ℤ)
  | uri (path : Path)
deriving DecidableEq

structure Disk where
  /-- the temporary file of a path -/
  temps : Path → Option TsFile
  files : Path → Option TsFile
  /-- the key files, `none` for one that is not complete -/
  keys : Path → Option Key
  m3u8 : Option (List Line)

/-! ## Segments and their window -/

structure SrsHlsSegment where
  sequenceNo : ℕ
  birth : ℕ
  dur : ℤ := 0
  startDts : ℤ := -1
  sequenceHeader : Bool := false
  filepath : Path := ""
  iv : Key := 0
deriving DecidableEq

/-- `append(dts)`, in milliseconds -/
def SrsHlsSegment.append (s : SrsHlsSegment) (dts : ℤ) : SrsHlsSegment :=
  let dts := if dts > 0x20c49ba5e353f7 ∨ dts < 0 then 0 else dts
  let dtsInTbn := dts * 1000
  let startDts := min (if s.startDts = -1 then dtsInTbn else s.startDts) dtsInTbn
  { s with startDts := startDts, dur := dtsInTbn - startDts }

/-- The durations of segments, added up. -/
def total (fragments : List SrsHlsSegment) : ℤ := (fragments.map SrsHlsSegment.dur).sum

/-- `remove_index`, from the `i` newest fragments not looked at yet: 0 where the loop finds no
index, as nothing is removed then either. -/
def removeIndex (window : ℤ) (fragments : List SrsHlsSegment) : ℕ → ℤ → ℕ
  | 0, _ => 0
  | i + 1, duration =>
    let duration := duration + (fragments[i]?.elim 0 SrsHlsSegment.dur)
    if duration > window then i else removeIndex window fragments i duration

/-- `shrink(window)`: the fragments that stay, and those that expire. -/
def shrink (window : ℤ) (fragments : List SrsHlsSegment) :
    List SrsHlsSegment × List SrsHlsSegment :=
  let i := removeIndex window fragments fragments.length 0
  (fragments.drop i, fragments.take i)

/-- `max_duration()` -/
def maxDuration (fragments : List SrsHlsSegment) : ℤ :=
  fragments.foldl (fun v s => max v s.dur) 0

/-! ## The playlist -/

section
variable (cfg : Config)

/-- `#EXT-X-TARGETDURATION`: the seconds, rounded up. -/
def targetDuration (segments : List SrsHlsSegment) : ℤ :=
  -(-srsu2msi (max (maxDuration segments) cfg.maxTd) / 1000)

/-- A segment that begins with a new key. -/
def startsKey (sequenceNo : ℕ) : Bool := sequenceNo % cfg.fragmentsPerKey = 0

/-- The lines of one segment. -/
def segmentLines (s : SrsHlsSegment) : List Line :=
  (if s.sequenceHeader then [.discontinuity] else []) ++
    (if cfg.keys ∧ startsKey cfg s.sequenceNo then [.key (cfg.keyFile s.sequenceNo) s.iv] else []) ++
    [.extinf (srsu2msi s.dur), .uri s.filepath]

/-- The playlist that `_refresh_m3u8` writes. -/
def playlist (first : ℕ) (segments : List SrsHlsSegment) : List Line :=
  [.extm3u, .version, .mediaSequence first, .targetDuration (targetDuration cfg segments)] ++
    segments.flatMap (segmentLines cfg)

end

/-! ## The muxer -/

inductive HlsError
  | openKey
  | writeKey
  | createDir
  | openMuxer
  | writeTs
  | rename
  | unlinkTmp
  | openM3u8
  | writeM3u8
  | renameM3u8
deriving DecidableEq

structure SrsHlsMuxer where
  /-- `_sequence_no` -/
  sequenceNo : ℕ
  current : Option SrsHlsSegment
  segments : List SrsHlsSegment
  /-- the writer has the temporary file of the current segment open -/
  writer : Bool
  key : Key
  iv : Key
  disk : Disk
  /-- the states of the disk so far -/
  moments : List Disk
  /-- how many segments were opened so far -/
  births : ℕ

namespace SrsHlsMuxer

def new : SrsHlsMuxer :=
  ⟨0, none, [], false, 0, 0, ⟨fun _ => none, fun _ => none, fun _ => none, none⟩, [], 0⟩

/-- The disk has changed. -/
def save (m : SrsHlsMuxer) (disk : Disk) : SrsHlsMuxer :=
  { m with disk := disk, moments := m.moments ++ [disk] }

/-- Something is missing in the temporary file of a path. -/
def tear (m : SrsHlsMuxer) (path : Path) : SrsHlsMuxer :=
  m.save { m.disk with
    temps := Function.update m.disk.temps path
      ((m.disk.temps path).map fun file => { file with whole := false }) }

/-! ### Opening a segment -/

/-- What `segment_open` gets from the system: the time, the random bytes, and how the operations
on the files go. -/
structure OpenIo where
  time : ℤ := 0
  key : Key := 0
  iv : Key := 0
  keyOpened : Bool := true
  keyWritten : Bool := true
  keyFlushed : Bool := true
  dirCreated : Bool := true
  opened : Bool := true

section
variable (cfg : Config)

/-- The part of `write_hls_key` that makes a new key and writes it to its file. -/
def rotateKey (m : SrsHlsMuxer) (cur : SrsHlsSegment) (io : OpenIo) :
    SrsHlsMuxer × Except HlsError Unit :=
  let m := { m with key := io.key, iv := io.iv }
  if io.keyOpened then
    let written := if io.keyWritten ∧ io.keyFlushed then some io.key else none
    let m := m.save { m.disk with
      keys := Function.update m.disk.keys (cfg.keyFile cur.sequenceNo) written }
    if io.keyWritten then (m, .ok ()) else (m, .error .writeKey)
  else (m, .error .openKey)

/-- `write_hls_key()`; the writer gets its cipher with the file. -/
def writeHlsKey (m : SrsHlsMuxer) (cur : SrsHlsSegment) (io : OpenIo) :
    SrsHlsMuxer × Except HlsError Unit :=
  if cfg.keys ∧ startsKey cfg cur.sequenceNo then m.rotateKey cfg cur io else (m, .ok ())

/-- `config_cipher(key, iv)` of the current segment, where there are keys. -/
def configCipher (m : SrsHlsMuxer) (cur : SrsHlsSegment) : SrsHlsSegment :=
  if cfg.keys then { cur with iv := m.iv } else cur

/-- What `segment_open` does after the key: the path and the temporary file. -/
def openFile (m : SrsHlsMuxer) (cur : SrsHlsSegment) (io : OpenIo) :
    SrsHlsMuxer × Except HlsError Unit :=
  let cur := { m.configCipher cfg cur with filepath := cfg.tsFile cur.sequenceNo io.time }
  let m := { m with current := some cur }
  if io.dirCreated then
    if io.opened then
      let file : TsFile :=
        ⟨cur.birth, cur.sequenceNo, true, if cfg.keys then some (m.key, m.iv) else none⟩
      (({ m with writer := true }).save { m.disk with
        temps := Function.update m.disk.temps cur.filepath (some file) }, .ok ())
    else (m, .error .openMuxer)
  else (m, .error .createDir)

/-- `segment_open()` -/
def segmentOpen (m : SrsHlsMuxer) (io : OpenIo) : SrsHlsMuxer × Except HlsError Unit :=
  match m.current with
  | some _ => (m, .ok ())
  | none =>
    let cur : SrsHlsSegment := { sequenceNo := m.sequenceNo, birth := m.births }
    let m := { m with
      current := some cur, sequenceNo := m.sequenceNo + 1, births := m.births + 1 }
    match m.writeHlsKey cfg cur io with
    | (m, .error e) => (m, .error e)
    | (m, .ok ()) => m.openFile cfg cur io

end

/-! ### Writing -/

/-- `on_sequence_header()` -/
def onSequenceHeader (m : SrsHlsMuxer) : SrsHlsMuxer :=
  { m with current := m.current.map fun cur => { cur with sequenceHeader := true } }

/-- `update_duration(dts)` -/
def updateDuration (m : SrsHlsMuxer) (dts : UInt64) : SrsHlsMuxer :=
  { m with current := m.current.map fun cur => cur.append (dts.toNat / 90 : ℕ) }

/-- `flush_audio(cache)` and `flush_video(cache)`, with a message in the cache. -/
def flush (m : SrsHlsMuxer) (dts : UInt64) (written : Bool) :
    SrsHlsMuxer × Except HlsError Unit :=
  match m.current with
  | none => (m, .ok ())
  | some cur =>
    let m := m.updateDuration dts
    if written then (m, .ok ())
    else if m.writer then (m.tear cur.filepath, .error .writeTs)
    else (m, .error .writeTs)

/-! ### Closing a segment -/

/-- How the operations on the files go in `segment_close`. -/
structure CloseIo where
  flushed : Bool := true
  renamed : Bool := true
  tmpUnlinked : Bool := true
  m3u8Opened : Bool := true
  m3u8Written : Bool := true
  /-- the lines that get to the disk when the file is closed, where these are not all -/
  m3u8Flushed : Option ℕ := none
  m3u8Renamed : Bool := true
  unlinked : Path → Bool := fun _ => true

section
variable (cfg : Config)

/-- `matchMinDuration && matchMaxDuration` -/
def acceptable (cur : SrsHlsSegment) : Bool :=
  cur.dur ≥ segmentMinDuration ∧ cur.dur ≤ cfg.maxTd * 3 * 1000

/-- A segment under its real name. -/
def named (cur : SrsHlsSegment) : SrsHlsSegment :=
  { cur with filepath := cfg.withDuration cur.filepath (srsu2msi cur.dur) }

/-- `writer->close()` -/
def closeWriter (m : SrsHlsMuxer) (cur : SrsHlsSegment) (io : CloseIo) : SrsHlsMuxer :=
  let m' := { m with writer := false }
  if m.writer ∧ ¬ io.flushed then m'.tear cur.filepath else m'

/-- The segment gets its real name and is appended to the others. -/
def keep (m : SrsHlsMuxer) (cur : SrsHlsSegment) (io : CloseIo) :
    SrsHlsMuxer × Except HlsError Unit :=
  match m.disk.temps cur.filepath, io.renamed with
  | some file, true =>
    let cur' := named cfg cur
    (({ m with segments := m.segments ++ [cur'], current := none }).save { m.disk with
      temps := Function.update m.disk.temps cur.filepath none
      files := Function.update m.disk.files cur'.filepath (some file) }, .ok ())
  | _, _ => (m, .error .rename)

/-- The segment is dropped, and the next one gets its number. -/
def drop (m : SrsHlsMuxer) (cur : SrsHlsSegment) (io : CloseIo) :
    SrsHlsMuxer × Except HlsError Unit :=
  let m := { m with sequenceNo := m.sequenceNo - 1 }
  match m.disk.temps cur.filepath, io.tmpUnlinked with
  | some _, true =>
    (m.save { m.disk with temps := Function.update m.disk.temps cur.filepath none }, .ok ())
  | _, _ => (m, .error .unlinkTmp)

/-- `refresh_m3u8()` -/
def refreshM3u8 (m : SrsHlsMuxer) (io : CloseIo) : SrsHlsMuxer × Except HlsError Unit :=
  match m.segments with
  | [] => (m, .ok ())
  | first :: _ =>
    if io.m3u8Opened then
      if io.m3u8Written then
        if io.m3u8Renamed then
          let lines := playlist cfg first.sequenceNo m.segments
          (m.save { m.disk with
            m3u8 := some (lines.take (io.m3u8Flushed.getD lines.length)) }, .ok ())
        else (m, .error .renameM3u8)
      else (m, .error .writeM3u8)
    else (m, .error .openM3u8)

/-- `unlink_file()` of an expired segment. -/
def unlinkFile (io : CloseIo) (m : SrsHlsMuxer) (s : SrsHlsSegment) : SrsHlsMuxer :=
  if cfg.cleanup ∧ io.unlinked s.filepath then
    m.save { m.disk with files := Function.update m.disk.files s.filepath none }
  else m

/-- What `do_segment_close` does with the window and the playlist. -/
def publish (m : SrsHlsMuxer) (io : CloseIo) : SrsHlsMuxer × Except HlsError Unit :=
  let (segments, expired) := shrink cfg.window m.segments
  let (m, result) := ({ m with segments := segments }).refreshM3u8 cfg io
  (expired.foldl (unlinkFile cfg io) m, result)

/-- `do_segment_close()`, with a segment that is open. -/
def doSegmentClose (m : SrsHlsMuxer) (cur : SrsHlsSegment) (io : CloseIo) :
    SrsHlsMuxer × Except HlsError Unit :=
  let m := m.closeWriter cur io
  match if acceptable cfg cur then m.keep cfg cur io else m.drop cur io with
  | (m, .error e) => (m, .error e)
  | (m, .ok ()) => m.publish cfg io

/-- `segment_close()` -/
def segmentClose (m : SrsHlsMuxer) (io : CloseIo) : SrsHlsMuxer × Except HlsError Unit :=
  match m.current with
  | none => (m, .ok ())
  | some cur =>
    let (m, result) := m.doSegmentClose cfg cur io
    ({ m with current := none }, result)

end

end SrsHlsMuxer

/-! ## Runs -/

inductive Action
  | segmentOpen (io : SrsHlsMuxer.OpenIo)
  | onSequenceHeader
  | updateDuration (dts : UInt64)
  | flush (dts : UInt64) (written : Bool)
  | segmentClose (io : SrsHlsMuxer.CloseIo)

def step (cfg : Config) (m : SrsHlsMuxer) : Action → Option SrsHlsMuxer
  | .segmentOpen io => some (m.segmentOpen cfg io).1
  | .onSequenceHeader => some m.onSequenceHeader
  | .updateDuration dts => some (m.updateDuration dts)
  | .flush dts written => some (m.flush dts written).1
  | .segmentClose io => some (m.segmentClose cfg io).1

end SrsChatRoom.App.HlsMuxer
