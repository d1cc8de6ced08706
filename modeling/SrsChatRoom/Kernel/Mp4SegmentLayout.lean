import SrsChatRoom.Kernel.Mp4Segment

/-!
# The layout of a DASH segment

What `flush` writes are bytes of a known layout (`flush_run`): up to the entries of the run every
field has its place (`uintAt_fields`), and an entry takes sixteen bytes. `Consistent` reads the
segment from its bytes, going from box to box by their sizes. It holds exactly if the size and the
times are within the fields that the format has for them (`flush_consistent_iff`).
-/

namespace SrsChatRoom.Kernel.Mp4

open List (append_assoc append_nil cons_ne_nil drop_drop drop_left flatMap_cons flatten_cons
  length_append map_cons map_nil sum_cons)

/-! ## Reading a segment -/

section Reading

variable (bytes : List UInt8)

/-- The size of the box at a position, and its type. -/
def boxSize (p : ℕ) : ℕ := uintAt bytes p 4
def boxType (p : ℕ) : ℕ := uintAt bytes (p + 4) 4

/-- Where the boxes are, behind those in front of them. -/
def moofAt : ℕ := boxSize bytes 0
def mdatAt : ℕ := moofAt bytes + boxSize bytes (moofAt bytes)
def mfhdAt : ℕ := moofAt bytes + 8
def trafAt : ℕ := mfhdAt bytes + boxSize bytes (mfhdAt bytes)
def tfhdAt : ℕ := trafAt bytes + 8
def tfdtAt : ℕ := tfhdAt bytes + boxSize bytes (tfhdAt bytes)
def trunAt : ℕ := tfdtAt bytes + boxSize bytes (tfdtAt bytes)

/-- The first word of each row of a table, with rows of sixteen bytes. -/
def column (p : ℕ) : ℕ → List ℕ
  | 0 => []
  | n + 1 => uintAt bytes p 4 :: column (p + 16) n

/-- The number of samples in the run, and what it says about each of them. -/
def sampleCount : ℕ := uintAt bytes (trunAt bytes + 12) 4
def durations : List ℕ := column bytes (trunAt bytes + 20) (sampleCount bytes)
def sizes : List ℕ := column bytes (trunAt bytes + 24) (sampleCount bytes)

/-- `SrsMp4TrunEntry::decode`: an offset is unsigned in version 0, and signed in the others. -/
def offsetOf (version word : ℕ) : ℤ := if version = 0 then word else Int.bmod word (2 ^ 32)

def offsets : List ℤ :=
  (column bytes (trunAt bytes + 32) (sampleCount bytes)).map
    (offsetOf (uintAt bytes (trunAt bytes + 8) 1))

/-- Where the run says that its data is. -/
def dataAt : ℕ := moofAt bytes + uintAt bytes (trunAt bytes + 16) 4

end Reading

/-- The difference of pts and dts. -/
def SegmentSample.cts (s : SegmentSample) : ℤ := s.pts.toNat - s.dts.toNat

/-- The bytes of a segment say what its samples are. -/
structure Consistent (seg : Segment) (bytes : List UInt8) : Prop where
  types : boxType bytes 0 = boxTypeSidx ∧ boxType bytes (moofAt bytes) = boxTypeMoof ∧
    boxType bytes (mfhdAt bytes) = boxTypeMfhd ∧ boxType bytes (trafAt bytes) = boxTypeTraf ∧
    boxType bytes (tfhdAt bytes) = boxTypeTfhd ∧ boxType bytes (tfdtAt bytes) = boxTypeTfdt ∧
    boxType bytes (trunAt bytes) = boxTypeTrun ∧ boxType bytes (mdatAt bytes) = boxTypeMdat
  ends : trafAt bytes + boxSize bytes (trafAt bytes) = mdatAt bytes ∧
    trunAt bytes + boxSize bytes (trunAt bytes) = mdatAt bytes ∧
    mdatAt bytes + boxSize bytes (mdatAt bytes) = bytes.length
  referenced : uintAt bytes 40 4 % 2 ^ 31 =
    boxSize bytes (moofAt bytes) + boxSize bytes (mdatAt bytes)
  dataAt : dataAt bytes = mdatAt bytes + 8
  sizes : (sizes bytes).sum = (bytes.drop (mdatAt bytes + 8)).length
  partition : (Mp4.sizes bytes).splitLengths (bytes.drop (mdatAt bytes + 8)) =
    seg.samples.map SegmentSample.data
  durations : (seg.samples.head seg.nonempty).dts.toNat + (durations bytes).sum = seg.endDts.toNat
  offsets : offsets bytes = seg.samples.map SegmentSample.cts

/-- The values are within the fields that the format has for them: the referenced size has 31 bits,
and the last duration, and the offsets of which one is negative, have 32 bits. -/
structure Representable (seg : Segment) : Prop where
  size : 88 + 16 * seg.samples.length + (8 + (seg.samples.map fun s => s.data.length).sum) < 2 ^ 31
  last : seg.endDts.toNat - (seg.samples.getLast seg.nonempty).dts.toNat < 2 ^ 32
  offsets : (∀ s ∈ seg.samples, s.dts ≤ s.pts) ∨
    ∀ s ∈ seg.samples, -2 ^ 31 ≤ s.cts ∧ s.cts < 2 ^ 31

/-! ## The entries -/

/-- The dts behind a sample. -/
def followingDts (dts : UInt64) : List SegmentSample → UInt64
  | [] => dts
  | s :: _ => s.dts.toUInt64

/-- The entry of a sample. -/
def entryOf (first : Bool) (next : UInt64) (s : SegmentSample) : SrsMp4TrunEntry where
  sampleDuration := (next - s.dts.toUInt64).toUInt32
  sampleSize := UInt32.ofNat s.data.length
  sampleFlags := if first then 0x02000000 else 0x01000000
  sampleCompositionTimeOffset := (s.pts.toUInt64 - s.dts.toUInt64).toInt64

def entriesOf (dts : UInt64) : Bool → List SegmentSample → List SrsMp4TrunEntry
  | _, [] => []
  | first, s :: samples => entryOf first (followingDts dts samples) s :: entriesOf dts false samples

@[simp] theorem length_entriesOf (dts : UInt64) (first : Bool) (samples : List SegmentSample) :
    (entriesOf dts first samples).length = samples.length := by
  induction samples generalizing first with
  | nil => rfl
  | cons s samples ih => rw [entriesOf, List.length_cons, List.length_cons, ih]

/-- A pts is before its dts. -/
def early (samples : List SegmentSample) : Bool := samples.any fun s => s.pts < s.dts

/-- The 64 bits of an offset hold it. -/
theorem toInt_offset (s : SegmentSample) :
    (s.pts.toUInt64 - s.dts.toUInt64).toInt64.toInt = s.cts := by
  have hdts : s.dts.toUInt64.toNat = s.dts.toNat := UInt32.toNat_toUInt64 s.dts
  have hpts : s.pts.toUInt64.toNat = s.pts.toNat := UInt32.toNat_toUInt64 s.pts
  have hdtsLt := s.dts.toNat_lt
  have hptsLt := s.pts.toNat_lt
  have hint : (s.pts.toUInt64 - s.dts.toUInt64).toInt64.toInt =
      ((s.pts.toUInt64 - s.dts.toUInt64).toNat : ℤ).bmod (2 ^ 64) :=
    BitVec.toInt_eq_toNat_bmod _
  have hsub : (s.pts.toUInt64 - s.dts.toUInt64).toNat =
      (2 ^ 64 - s.dts.toNat + s.pts.toNat) % 2 ^ 64 := by
    rw [UInt64.toNat_sub, hdts, hpts]
  rw [hint, hsub, SegmentSample.cts, Int.bmod_def]
  split
  · omega
  · omega

/-- The word that is written for an offset. -/
theorem offset_word (s : SegmentSample) :
    ((s.pts.toUInt64 - s.dts.toUInt64).toInt64.toUInt64.toUInt32.toNat : ℤ) = s.cts % 2 ^ 32 := by
  have hdts : s.dts.toUInt64.toNat = s.dts.toNat := UInt32.toNat_toUInt64 s.dts
  have hpts : s.pts.toUInt64.toNat = s.pts.toNat := UInt32.toNat_toUInt64 s.pts
  have hdtsLt := s.dts.toNat_lt
  have hptsLt := s.pts.toNat_lt
  have hback : (s.pts.toUInt64 - s.dts.toUInt64).toInt64.toUInt64 =
      s.pts.toUInt64 - s.dts.toUInt64 := rfl
  rw [hback, UInt64.toNat_toUInt32, UInt64.toNat_sub, hdts, hpts, SegmentSample.cts]
  omega

/-- A round of the loop that fills the run. -/
theorem writeEntry_eq {s : SegmentSample} {t : StoredSample} (h : Stored s t) (first : Bool)
    (next : UInt64) (trun : Trun) : writeEntry first next t.toSample trun =
      { trun with
        version := if s.pts < s.dts then 1 else trun.version
        entries := trun.entries ++ [entryOf first next s] } := by
  have hcts : t.toSample.cts = (s.pts.toUInt64 - s.dts.toUInt64).toInt64 := by
    rw [Sample.cts, h.pts, h.dts]
  have hneg : (s.pts.toUInt64 - s.dts.toUInt64).toInt64 < 0 ↔ s.pts < s.dts := by
    rw [Int64.lt_iff_toInt_lt, toInt_offset, UInt32.lt_iff_toNat_lt, SegmentSample.cts]
    show (s.pts.toNat : ℤ) - s.dts.toNat < 0 ↔ _
    omega
  unfold writeEntry entryOf
  dsimp only
  rw [hcts, h.dts, h.nbData]
  by_cases hearly : s.pts < s.dts
  · rw [if_pos (hneg.mpr hearly), if_pos hearly]
  · rw [if_neg fun hlt => hearly (hneg.mp hlt), if_neg hearly]

/-- The run of the samples: its version says whether a pts is before its dts. -/
theorem writeEntries_eq {samples : List SegmentSample} {ts : List StoredSample}
    (h : List.Forall₂ Stored samples ts) (dts : UInt64) (first : Bool) (trun : Trun) :
    writeEntries dts first (ts.map StoredSample.toSample) trun =
      { trun with
        version := if early samples then 1 else trun.version
        entries := trun.entries ++ entriesOf dts first samples } := by
  induction h generalizing first trun with
  | nil =>
    rw [map_nil, writeEntries, entriesOf, append_nil]
    rfl
  | @cons s t samples ts hs hrest ih =>
    have hearly : early (s :: samples) = (decide (s.pts < s.dts) || early samples) := rfl
    cases hrest with
    | nil =>
      rw [map_cons, map_nil, writeEntries, writeEntry_eq hs, entriesOf, hearly]
      by_cases hlt : s.pts < s.dts
      · simp [hlt, early, entriesOf, followingDts]
      · simp [hlt, early, entriesOf, followingDts]
    | @cons s' t' samples' ts' hs' hrest' =>
      have hstep : writeEntries dts first ((t :: t' :: ts').map StoredSample.toSample) trun =
          writeEntries dts false ((t' :: ts').map StoredSample.toSample)
            (writeEntry first t'.dts t.toSample trun) := rfl
      have hentries : entriesOf dts first (s :: s' :: samples') =
          entryOf first s'.dts.toUInt64 s :: entriesOf dts false (s' :: samples') := rfl
      have hversion : (if early (s' :: samples') then 1 else
          if s.pts < s.dts then 1 else trun.version) =
          if (decide (s.pts < s.dts) || early (s' :: samples')) then 1 else trun.version := by
        by_cases hlt : s.pts < s.dts
        · simp [hlt]
        · simp [hlt]
      rw [hstep, ih, writeEntry_eq hs, hs'.dts, hentries, hearly]
      dsimp only
      rw [hversion, append_assoc, List.singleton_append]

/-! ## What is written -/

section Writing

variable {data : List UInt8}

theorem encodeTo_run {x : Mp4Writer} (h : Cursor.Emits x data 0) (file : List UInt8) :
    encodeTo data.length x file = .ok data file := by
  have hroom : ([] : List UInt8).length + (data.length + 0) ≤
      (List.replicate data.length (0 : UInt8)).length := by
    rw [List.length_nil, List.length_replicate]
    omega
  have hrun := h (List.replicate data.length 0) [] hroom
  have hmemory : (Cursor.written (List.replicate data.length 0) ([] ++ data)).bytes = data := by
    show data ++ (List.replicate data.length (0 : UInt8)).drop data.length = data
    rw [List.drop_of_length_le (by rw [List.length_replicate]), append_nil]
  have hboth : (x >>= fun _ => Prog.read SrsBuffer.bytes) ⟨List.replicate data.length 0, 0⟩ =
      .ok data (Cursor.written (List.replicate data.length 0) ([] ++ data)) := by
    refine (Prog.bind_ok hrun _).trans ?_
    rw [Prog.read_apply, hmemory]
  exact Prog.alone_ok hboth file

theorem intOf_of_lt {n : ℕ} (h : n < 2 ^ 31) : intOf n = n := by
  unfold intOf
  rw [Int.bmod_def]
  split
  · omega
  · omega

theorem srsMp4WriteBox_run {box : SrsMp4Box} (h : box.Exact data) (hfits : data.length < 2 ^ 31)
    (file : List UInt8) : srsMp4WriteBox box file = .ok () (file ++ data) := by
  have hint : intOf box.nbBytes = data.length := by
    rw [h.size, intOf_of_lt hfits]
  have hneg : ¬ intOf box.nbBytes < 0 := by omega
  have hnat : (intOf box.nbBytes).toNat = data.length := by omega
  unfold srsMp4WriteBox
  rw [if_neg hneg, hnat, Prog.bind_ok (Prog.wrap_ok (encodeTo_run h.emits file) _)]
  rfl

theorem writeSamples_run {samples : List SegmentSample} {ts : List StoredSample}
    (h : List.Forall₂ Stored samples ts) (file : List UInt8) :
    writeSamples ts file = .ok () (file ++ samples.flatMap SegmentSample.data) := by
  induction h generalizing file with
  | nil =>
    rw [List.flatMap_nil, append_nil]
    rfl
  | @cons s t samples ts hs _ ih =>
    have hwrite : writeFile t.data file = .ok () (file ++ s.data) := by
      rw [writeFile, hs.data]
    rw [writeSamples, Prog.bind_ok hwrite, ih, flatMap_cons, append_assoc]

end Writing

/-- Fields of these widths with these values. -/
def fieldBytes (fields : List (ℕ × ℕ)) : List UInt8 := fields.flatMap fun f => bytesBE f.1 f.2

theorem fieldBytes_nil : fieldBytes [] = [] := rfl

theorem fieldBytes_cons (w v : ℕ) (fields : List (ℕ × ℕ)) :
    fieldBytes ((w, v) :: fields) = bytesBE w v ++ fieldBytes fields := flatMap_cons

/-- Where a field starts. -/
def fieldOffset (fields : List (ℕ × ℕ)) (i : ℕ) : ℕ := ((fields.take i).map Prod.fst).sum

theorem length_fieldBytes (fields : List (ℕ × ℕ)) :
    (fieldBytes fields).length = (fields.map Prod.fst).sum := by
  induction fields with
  | nil => rfl
  | cons f fields ih =>
    rw [fieldBytes, flatMap_cons, length_append, length_bytesBE, map_cons,
      sum_cons]
    exact congrArg (f.1 + ·) ih

/-- A field is read where it starts. -/
theorem uintAt_fields {fields : List (ℕ × ℕ)} {i w v : ℕ} (h : fields[i]? = some (w, v))
    (rest : List UInt8) :
    uintAt (fieldBytes fields ++ rest) (fieldOffset fields i) w = v % 256 ^ w := by
  induction fields generalizing i with
  | nil => cases h
  | cons f fields ih =>
    cases i with
    | zero =>
      cases h
      have htake : (bytesBE w v ++ (fieldBytes fields ++ rest)).take w = bytesBE w v :=
        List.take_left' (length_bytesBE w v)
      show ofBytesBE (((bytesBE w v ++ fieldBytes fields ++ rest).drop 0).take w) = _
      rw [List.drop_zero, append_assoc, htake, ofBytesBE_bytesBE]
    | succ i =>
      have hrest := ih (i := i) h
      have hdrop : (fieldBytes (f :: fields) ++ rest).drop (fieldOffset (f :: fields) (i + 1)) =
          (fieldBytes fields ++ rest).drop (fieldOffset fields i) := by
        show ((bytesBE f.1 f.2 ++ fieldBytes fields) ++ rest).drop (f.1 + fieldOffset fields i) = _
        rw [← drop_drop, append_assoc, List.drop_left' (length_bytesBE f.1 f.2)]
      unfold uintAt at hrest ⊢
      rw [hdrop, hrest]

/-! ## The layout of a fragment -/

theorem fieldBytes_append (fields more : List (ℕ × ℕ)) :
    fieldBytes (fields ++ more) = fieldBytes fields ++ fieldBytes more := List.flatMap_append

/-- The fields of a run, behind which its entries are. -/
def trunFields (trun : Trun) : List (ℕ × ℕ) :=
  [(4, 20 + 16 * trun.entries.length), (4, boxTypeTrun), (1, trun.version), (3, trunFlags),
    (4, trun.entries.length), (4, trun.dataOffset.toUInt32.toNat)]

/-- The fields of a track fragment up to its run. -/
def trafFields (trackId time n : ℕ) : List (ℕ × ℕ) :=
  [(4, 64 + 16 * n), (4, boxTypeTraf), (4, 16), (4, boxTypeTfhd), (1, 0),
    (3, tfhdFlagsDefaultBaseIsMoof), (4, trackId), (4, 20), (4, boxTypeTfdt), (1, 1), (3, 0),
    (8, time)]

/-- The fields of a fragment up to the track fragment. -/
def moofFields (sequenceNumber n : ℕ) : List (ℕ × ℕ) :=
  [(4, 88 + 16 * n), (4, boxTypeMoof), (4, 16), (4, boxTypeMfhd), (1, 0), (3, 0),
    (4, sequenceNumber)]

/-- The entries of a run. -/
def trunEntries (trun : Trun) : List UInt8 := trun.entries.flatMap SrsMp4TrunEntry.bytes

theorem length_trunEntries (trun : Trun) :
    (trunEntries trun).length = 16 * trun.entries.length := by
  unfold trunEntries
  rw [List.length_flatMap, funext SrsMp4TrunEntry.length_bytes, List.map_const',
    List.sum_replicate, smul_eq_mul, Nat.mul_comm]

/-- The bytes of a fragment. -/
def SrsMp4M2tsSegmentEncoder.moofBytes (enc : SrsMp4M2tsSegmentEncoder) (trun : Trun) :
    List UInt8 :=
  fieldBytes (moofFields enc.sequenceNumber.toNat trun.entries.length ++
    trafFields enc.trackId.toNat (enc.decodeBasetime / 1000).toUInt64.toNat trun.entries.length ++
    trunFields trun) ++ trunEntries trun

theorem length_moofBytes (enc : SrsMp4M2tsSegmentEncoder) (trun : Trun) :
    (enc.moofBytes trun).length = 88 + 16 * trun.entries.length := by
  unfold SrsMp4M2tsSegmentEncoder.moofBytes
  rw [length_append, length_fieldBytes, length_trunEntries]
  simp only [moofFields, trafFields, trunFields, List.map_append, map_cons, map_nil,
    List.sum_append, sum_cons, List.sum_nil]
  omega

/-- A box by its fields. -/
theorem boxBytes_eq {payload : List UInt8} {n : ℕ} (h : 8 + payload.length = n) (type : ℕ) :
    boxBytes type payload = fieldBytes [(4, n), (4, type)] ++ payload := by
  rw [boxBytes, h, fieldBytes_cons, fieldBytes_cons, fieldBytes_nil, append_nil]

/-- A full box with one field. -/
theorem boxBytes_full (type version flags w v : ℕ) :
    boxBytes type (bytesBE 1 version ++ bytesBE 3 flags ++ bytesBE w v) =
      fieldBytes [(4, 12 + w), (4, type), (1, version), (3, flags), (w, v)] := by
  have hsize : 8 + (bytesBE 1 version ++ bytesBE 3 flags ++ bytesBE w v).length = 12 + w := by
    simp only [length_append, length_bytesBE]
    omega
  rw [boxBytes_eq hsize]
  simp only [fieldBytes_cons, fieldBytes_nil, append_assoc, append_nil]

theorem boxBytes_trun (trun : Trun) : boxBytes boxTypeTrun
    (bytesBE 1 trun.version ++ bytesBE 3 trunFlags ++ (bytesBE 4 trun.entries.length ++
      (bytesBE 4 trun.dataOffset.toUInt32.toNat ++ trun.entries.flatMap SrsMp4TrunEntry.bytes))) =
    fieldBytes (trunFields trun) ++ trunEntries trun := by
  have hentries := length_trunEntries trun
  unfold trunEntries at hentries
  have hsize : 8 + (bytesBE 1 trun.version ++ bytesBE 3 trunFlags ++
      (bytesBE 4 trun.entries.length ++ (bytesBE 4 trun.dataOffset.toUInt32.toNat ++
        trun.entries.flatMap SrsMp4TrunEntry.bytes))).length = 20 + 16 * trun.entries.length := by
    simp only [length_append, length_bytesBE, hentries]
    omega
  rw [boxBytes_eq hsize]
  simp only [trunFields, trunEntries, fieldBytes_cons, fieldBytes_nil, append_assoc,
    List.nil_append]

/-- A fragment tells its size, and what it writes has this layout. -/
theorem exact_moof (enc : SrsMp4M2tsSegmentEncoder) {trun : Trun} (hflags : trun.flags = trunFlags)
    (hfits : trun.entries.length < 2 ^ 27) : (enc.moof trun).Exact (enc.moofBytes trun) := by
  have hentries := length_trunEntries trun
  have hrun := exact_trackFragmentRun hflags hfits
  rw [boxBytes_trun] at hrun
  obtain ⟨run, hrunEq⟩ : ∃ run, run = fieldBytes (trunFields trun) ++ trunEntries trun := ⟨_, rfl⟩
  obtain ⟨time, htime⟩ : ∃ time, time = (enc.decodeBasetime / 1000).toUInt64.toNat := ⟨_, rfl⟩
  obtain ⟨header, hheader⟩ : ∃ bytes, bytes = boxBytes boxTypeMfhd
    (bytesBE 1 0 ++ bytesBE 3 0 ++ bytesBE 4 enc.sequenceNumber.toNat) := ⟨_, rfl⟩
  obtain ⟨track, htrack⟩ : ∃ bytes, bytes = boxBytes boxTypeTfhd
    (bytesBE 1 0 ++ bytesBE 3 tfhdFlagsDefaultBaseIsMoof ++ bytesBE 4 enc.trackId.toNat) := ⟨_, rfl⟩
  obtain ⟨decode, hdecode⟩ : ∃ bytes, bytes = boxBytes boxTypeTfdt
    (bytesBE 1 1 ++ bytesBE 3 0 ++ bytesBE 8 time) := ⟨_, rfl⟩
  have hrunLength : run.length = 20 + 16 * trun.entries.length := by
    rw [hrunEq, length_append, length_fieldBytes, hentries]
    rfl
  have hheaderLength : header.length = 16 := by
    rw [hheader, length_boxBytes]
    simp only [length_append, length_bytesBE]
  have htrackLength : track.length = 16 := by
    rw [htrack, length_boxBytes]
    simp only [length_append, length_bytesBE]
  have hdecodeLength : decode.length = 20 := by
    rw [hdecode, length_boxBytes]
    simp only [length_append, length_bytesBE]
  have hparts : [track, decode, run].flatten.length = 56 + 16 * trun.entries.length := by
    simp only [flatten_cons, List.flatten_nil, length_append, List.length_nil,
      htrackLength, hdecodeLength, hrunLength]
    omega
  have hall : [header, boxBytes boxTypeTraf [track, decode, run].flatten].flatten.length =
      80 + 16 * trun.entries.length := by
    simp only [flatten_cons (l := header), flatten_cons, List.flatten_nil,
      length_append, List.length_nil, length_boxBytes, hheaderLength, htrackLength,
      hdecodeLength, hrunLength]
    omega
  have htraf := exact_plain boxTypeTraf
    (.cons (exact_trackFragmentHeader enc.trackId.toNat) (.cons (exact_trackFragmentDecodeTime
      (by decide : 1 ≠ 0) time) (.cons hrun .nil)))
    (by rw [← htrack, ← hdecode, ← hrunEq, hparts]; omega)
  rw [← htrack, ← hdecode, ← hrunEq] at htraf
  have hmoof := exact_plain boxTypeMoof
    (.cons (exact_movieFragmentHeader enc.sequenceNumber.toNat) (.cons htraf .nil))
    (by rw [← hheader, hall]; omega)
  have hbytes : enc.moofBytes trun =
      boxBytes boxTypeMoof [header, boxBytes boxTypeTraf [track, decode, run].flatten].flatten := by
    have hheaderEq : header = fieldBytes [(4, 16), (4, boxTypeMfhd), (1, 0), (3, 0),
        (4, enc.sequenceNumber.toNat)] := hheader.trans (boxBytes_full boxTypeMfhd 0 0 4 _)
    have htrackEq : track = fieldBytes [(4, 16), (4, boxTypeTfhd), (1, 0),
        (3, tfhdFlagsDefaultBaseIsMoof), (4, enc.trackId.toNat)] :=
      htrack.trans (boxBytes_full boxTypeTfhd 0 tfhdFlagsDefaultBaseIsMoof 4 _)
    have hdecodeEq : decode = fieldBytes [(4, 20), (4, boxTypeTfdt), (1, 1), (3, 0), (8, time)] :=
      hdecode.trans (boxBytes_full boxTypeTfdt 1 0 8 _)
    have hmoofSize : 8 + [header, boxBytes boxTypeTraf [track, decode, run].flatten].flatten.length =
        88 + 16 * trun.entries.length := by omega
    have htrafSize : 8 + [track, decode, run].flatten.length = 64 + 16 * trun.entries.length := by
      omega
    rw [boxBytes_eq hmoofSize, flatten_cons (l := header), boxBytes_eq htrafSize, hheaderEq,
      htrackEq, hdecodeEq, hrunEq]
    unfold SrsMp4M2tsSegmentEncoder.moofBytes
    rw [← htime]
    simp only [moofFields, trafFields, trunFields, flatten_cons, List.flatten_nil,
      fieldBytes_cons, fieldBytes_nil, fieldBytes_append, append_assoc, append_nil]
  rw [hbytes]
  unfold SrsMp4M2tsSegmentEncoder.moof
  rw [← htime, hheader]
  exact hmoof

/-! ## The layout of a segment -/

/-- The fields of the index. -/
def sidxFields (time referencedSize duration : ℕ) : List (ℕ × ℕ) :=
  [(4, 52), (4, boxTypeSidx), (1, 1), (3, 0), (4, 1), (4, 1000), (8, time), (8, 0), (4, 1),
    (4, referencedSize), (4, duration), (4, 2 ^ 31)]

namespace Segment

variable (seg : Segment)

/-- The bytes of the samples. -/
def payload : List UInt8 := seg.samples.flatMap SegmentSample.data

/-- The run of the samples. -/
def trun : Trun where
  version := if early seg.samples then 1 else 0
  flags := trunFlags
  dataOffset := Int32.ofInt (88 + 16 * seg.samples.length + 8)
  entries := entriesOf seg.endDts true seg.samples

/-- The fields up to the entries of the run. -/
def fields : List (ℕ × ℕ) :=
  sidxFields (seg.encoder.decodeBasetime / 1000).toUInt64.toNat
      ((88 + 16 * seg.samples.length + (8 + dataLength seg.samples)) % 2 ^ 31)
      (seg.encoder.duration seg.endDts).toUInt32.toNat ++
    (moofFields seg.encoder.sequenceNumber.toNat seg.samples.length ++
      (trafFields seg.encoder.trackId.toNat (seg.encoder.decodeBasetime / 1000).toUInt64.toNat
        seg.samples.length ++ trunFields seg.trun))

/-- The bytes of a segment. -/
def bytes : List UInt8 :=
  fieldBytes seg.fields ++ (trunEntries seg.trun ++
    (fieldBytes [(4, 8 + dataLength seg.samples), (4, boxTypeMdat)] ++ seg.payload))

theorem length_trun : seg.trun.entries.length = seg.samples.length := length_entriesOf _ _ _

theorem length_payload : seg.payload.length = dataLength seg.samples := by
  rw [payload, List.length_flatMap]
  rfl

/-- The index with its entry. -/
theorem exact_sidx (enc : SrsMp4M2tsSegmentEncoder) (duration : UInt64) (size : ℕ) :
    (srsMp4SegmentIndexBox (enc.sidx duration (UInt32.ofInt size))).Exact (fieldBytes (sidxFields
      (enc.decodeBasetime / 1000).toUInt64.toNat (size % 2 ^ 31) duration.toUInt32.toNat)) := by
  have hversion : (enc.sidx duration (UInt32.ofInt size)).version ≠ 0 := Nat.one_ne_zero
  have hentries : (enc.sidx duration (UInt32.ofInt size)).entries.length < 2 ^ 27 := by
    show 1 < 2 ^ 27
    decide
  have hexact := exact_segmentIndex hversion hentries
  have hnat : (UInt32.ofInt size).toNat = size % 2 ^ 32 := by
    simp [UInt32.ofInt]
    omega
  have hword : (0 &&& 0x01) <<< 31 ||| ((UInt32.ofInt size).toNat &&& 0x7fffffff) =
      size % 2 ^ 31 := by
    rw [hnat, show (0x7fffffff : ℕ) = 2 ^ 31 - 1 from rfl, Nat.and_two_pow_sub_one_eq_mod,
      Nat.mod_mod_of_dvd size (by decide : 2 ^ 31 ∣ 2 ^ 32)]
    exact Nat.zero_or _
  have hlast : (1 &&& 0x01) <<< 31 ||| (0 &&& 0x7) <<< 28 ||| (0 &&& 0xfffffff) = 2 ^ 31 := by decide
  have hbytes : boxBytes boxTypeSidx (enc.sidx duration (UInt32.ofInt size)).bytes =
      fieldBytes (sidxFields (enc.decodeBasetime / 1000).toUInt64.toNat (size % 2 ^ 31)
        duration.toUInt32.toNat) := by
    have hentry : (enc.sidx duration (UInt32.ofInt size)).entries.flatMap
        SrsMp4SegmentIndexEntry.bytes = fieldBytes [(4, size % 2 ^ 31), (4, duration.toUInt32.toNat),
          (4, 2 ^ 31)] := by
      show (bytesBE 4 ((0 &&& 0x01) <<< 31 ||| ((UInt32.ofInt size).toNat &&& 0x7fffffff)) ++
        (bytesBE 4 duration.toUInt32.toNat ++ bytesBE 4 ((1 &&& 0x01) <<< 31 |||
          (0 &&& 0x7) <<< 28 ||| (0 &&& 0xfffffff)))) ++ [] = _
      rw [hword, hlast]
      simp only [fieldBytes_cons, fieldBytes_nil, append_nil]
    have hsize' : 8 + (enc.sidx duration (UInt32.ofInt size)).bytes.length = 52 := by
      rw [Sidx.length_bytes]
      rfl
    rw [boxBytes_eq hsize', Sidx.bytes, hentry]
    simp only [SrsMp4M2tsSegmentEncoder.sidx, sidxFields, fieldBytes_cons, fieldBytes_nil,
      append_assoc, append_nil, List.length_singleton]
  rwa [hbytes] at hexact

/-- What `flush` writes. -/
theorem flush_run : seg.encoder.flush seg.endDts [] = .ok () seg.bytes := by
  have hfits := seg.fits
  have hfitsMoof := seg.fitsMoof
  have hsum : (seg.samples.map fun s => s.data.length).sum = dataLength seg.samples := rfl
  rw [hsum] at hfits
  have hsamples := seg.hasSamples
  have hcount := hsamples.count
  have hpositive : 0 < seg.samples.length := List.length_pos_of_ne_nil seg.nonempty
  have hmissing : ¬ (seg.encoder.nbAudios = 0 ∧ seg.encoder.nbVideos = 0) := by
    intro ⟨haudios, hvideos⟩
    rw [haudios, hvideos] at hcount
    have hzero : (0 : UInt32).toNat = 0 := rfl
    omega
  obtain ⟨enc, henc⟩ : ∃ enc, enc = seg.encoder := ⟨_, rfl⟩
  rw [← henc] at hsamples hmissing
  -- the run before its offset is known has the same size
  obtain ⟨run, hrun⟩ : ∃ run : Trun, run = { seg.trun with dataOffset := 0 } := ⟨_, rfl⟩
  have hwritten : writeFragment (enc.samples.map StoredSample.toSample) seg.endDts {} = run := by
    rw [writeFragment, writeEntries_eq hsamples.stored, hrun, Segment.trun]
    rfl
  have hrunFlags : run.flags = trunFlags := by rw [hrun]; rfl
  have hrunLength : run.entries.length = seg.samples.length := by
    rw [hrun]
    exact seg.length_trun
  have hnb : (enc.moof run).nbBytes = 88 + 16 * seg.samples.length := by
    rw [(exact_moof enc hrunFlags (by omega)).size, length_moofBytes, hrunLength]
  have hint : intOf (enc.moof run).nbBytes = (88 + 16 * seg.samples.length : ℕ) := by
    rw [hnb]
    exact intOf_of_lt (by omega)
  have htrun : { run with
      dataOffset := Int32.ofInt (((88 + 16 * seg.samples.length : ℕ) : ℤ) + 8) } = seg.trun := by
    rw [hrun]
    rfl
  have hmoof := @exact_moof enc seg.trun rfl (by rw [length_trun]; omega)
  have hmoofLength : (enc.moofBytes seg.trun).length < 2 ^ 31 := by
    rw [length_moofBytes, length_trun]
    omega
  have hmdat : (srsMp4MediaDataBox enc.mdatBytes.toNat).nbBytes = 8 + dataLength seg.samples := by
    rw [hsamples.size]
    rfl
  obtain ⟨size, hsize⟩ : ∃ size, size =
      88 + 16 * seg.samples.length + (8 + dataLength seg.samples) := ⟨_, rfl⟩
  have hcast : ((88 + 16 * seg.samples.length : ℕ) : ℤ) + ((8 + dataLength seg.samples : ℕ) : ℤ) =
      (size : ℤ) := by
    rw [hsize]
    exact (Nat.cast_add _ _).symm
  have hsidx := exact_sidx enc (enc.duration seg.endDts) size
  have hsidxLength : (fieldBytes (sidxFields (enc.decodeBasetime / 1000).toUInt64.toNat (size % 2 ^ 31)
      (enc.duration seg.endDts).toUInt32.toNat)).length < 2 ^ 31 := by
    rw [length_fieldBytes]
    simp [sidxFields]
  have hheader : encodeTo 8 (srsMp4MediaDataBox enc.mdatBytes.toNat).encode =
      encodeTo (bytesBE 4 (8 + dataLength seg.samples) ++ bytesBE 4 boxTypeMdat).length
        (srsMp4MediaDataBox (dataLength seg.samples)).encode := by
    rw [hsamples.size, length_append, length_bytesBE, length_bytesBE]
  have hmdatEmits := emits_mediaData (by omega : 8 + dataLength seg.samples < 2 ^ 32)
  rw [← henc, SrsMp4M2tsSegmentEncoder.flush, Prog.bind_ok (Prog.refuse_pass hmissing _ _),
    hwritten, hint, hmdat, hcast, htrun,
    Prog.bind_ok (Prog.wrap_ok (srsMp4WriteBox_run hsidx hsidxLength _) _),
    Prog.bind_ok (Prog.wrap_ok (srsMp4WriteBox_run hmoof hmoofLength _) _), hheader,
    Prog.bind_ok (Prog.wrap_ok (encodeTo_run hmdatEmits _) _),
    Prog.bind_ok (rfl : writeFile _ _ = .ok () _), writeSamples_run hsamples.stored]
  unfold Segment.bytes Segment.fields SrsMp4M2tsSegmentEncoder.moofBytes payload
  rw [← henc, ← hsize, length_trun]
  simp only [fieldBytes_append, fieldBytes_cons, fieldBytes_nil, append_assoc,
    append_nil, List.nil_append]

/-! ## What the bytes say -/

theorem fieldBytes_entry (entry : SrsMp4TrunEntry) : entry.bytes =
    fieldBytes [(4, entry.sampleDuration.toNat), (4, entry.sampleSize.toNat),
      (4, entry.sampleFlags.toNat),
      (4, entry.sampleCompositionTimeOffset.toUInt64.toUInt32.toNat)] ++ [] := by
  simp only [SrsMp4TrunEntry.bytes, fieldBytes_cons, fieldBytes_nil, append_nil]

theorem uintAt_shift (front rest : List UInt8) (k n : ℕ) :
    uintAt (front ++ rest) (front.length + k) n = uintAt rest k n := by
  rw [uintAt, uintAt, ← drop_drop, drop_left]

theorem uintAt_front {front rest : List UInt8} {k n : ℕ} (h : k + n ≤ front.length) :
    uintAt (front ++ rest) k n = uintAt front k n := by
  have hlength : n ≤ (front.drop k).length := by
    rw [List.length_drop]
    omega
  rw [uintAt, uintAt, List.drop_append_of_le_length (by omega), List.take_append_of_le_length hlength]

theorem boxSize_header (size type : ℕ) (rest : List UInt8) :
    boxSize (fieldBytes [(4, size), (4, type)] ++ rest) 0 = size % 256 ^ 4 :=
  @uintAt_fields [(4, size), (4, type)] 0 4 size rfl rest

theorem boxType_header (size type : ℕ) (rest : List UInt8) :
    boxType (fieldBytes [(4, size), (4, type)] ++ rest) 0 = type % 256 ^ 4 :=
  @uintAt_fields [(4, size), (4, type)] 1 4 type rfl rest

/-- A column of the entries. -/
theorem column_entries {f : SrsMp4TrunEntry → ℕ} {k : ℕ} (hk : k + 4 ≤ 16)
    (hf : ∀ entry : SrsMp4TrunEntry, uintAt entry.bytes k 4 = f entry)
    (entries : List SrsMp4TrunEntry) (front back : List UInt8) :
    column (front ++ (entries.flatMap SrsMp4TrunEntry.bytes ++ back)) (front.length + k)
      entries.length = entries.map f := by
  induction entries generalizing front with
  | nil => rfl
  | cons entry entries ih =>
    have hentry := entry.length_bytes
    have hnext := ih (front ++ entry.bytes)
    have hlength : (front ++ entry.bytes).length + k = front.length + k + 16 := by
      rw [length_append]
      omega
    rw [hlength, append_assoc] at hnext
    rw [List.length_cons, column, flatMap_cons, append_assoc, hnext, uintAt_shift,
      uintAt_front (by omega), hf, map_cons]

/-- The widths of the fields in front of the entries: of `sidx`, `moof` and `mfhd`, `traf` with
`tfhd` and `tfdt`, and `trun`. -/
def widths : List ℕ :=
  [4, 4, 1, 3, 4, 4, 8, 8, 4, 4, 4, 4] ++ [4, 4, 4, 4, 1, 3, 4] ++
    [4, 4, 4, 4, 1, 3, 4, 4, 4, 1, 3, 8] ++ [4, 4, 1, 3, 4, 4]

theorem map_fields : seg.fields.map Prod.fst = widths := rfl

/-- A field in front of the entries. -/
theorem field {i w v p : ℕ} (h : seg.fields[i]? = some (w, v)) (hp : (widths.take i).sum = p) :
    uintAt seg.bytes p w = v % 256 ^ w := by
  have hoffset : fieldOffset seg.fields i = p := by
    rw [fieldOffset, List.map_take, map_fields, hp]
  rw [← hoffset]
  exact uintAt_fields h _

theorem length_fields : (fieldBytes seg.fields).length = 140 := by
  rw [length_fieldBytes]
  simp [Segment.fields, sidxFields, moofFields, trafFields, trunFields]

section Positions

theorem moofAt_bytes : moofAt seg.bytes = 52 := by
  have h : uintAt seg.bytes 0 4 = 52 % 256 ^ 4 := @field seg 0 4 52 0 rfl rfl
  exact h

theorem moofSize : boxSize seg.bytes 52 = 88 + 16 * seg.samples.length := by
  have hfits := seg.fits
  have hfitsMoof := seg.fitsMoof
  have h : boxSize seg.bytes 52 = (88 + 16 * seg.samples.length) % 256 ^ 4 :=
    seg.field (i := 12) rfl rfl
  omega

theorem mdatAt_bytes : mdatAt seg.bytes = 140 + 16 * seg.samples.length := by
  rw [mdatAt, moofAt_bytes, moofSize]
  omega

theorem trafAt_bytes : trafAt seg.bytes = 76 := by
  have h : boxSize seg.bytes 60 = 16 := @field seg 14 4 16 60 rfl rfl
  rw [trafAt, mfhdAt, moofAt_bytes, h]

theorem trunAt_bytes : trunAt seg.bytes = 120 := by
  have htfhd : boxSize seg.bytes 84 = 16 := @field seg 21 4 16 84 rfl rfl
  have htfdt : boxSize seg.bytes 100 = 20 := @field seg 26 4 20 100 rfl rfl
  rw [trunAt, tfdtAt, tfhdAt, trafAt_bytes, htfhd]
  show 84 + 16 + boxSize seg.bytes 100 = 120
  rw [htfdt]

theorem sampleCount_bytes : sampleCount seg.bytes = seg.samples.length := by
  have hfits := seg.fits
  have hfitsMoof := seg.fitsMoof
  have h : uintAt seg.bytes 132 4 = seg.trun.entries.length % 256 ^ 4 :=
    seg.field (i := 35) rfl rfl
  rw [sampleCount, trunAt_bytes, h, length_trun]
  omega

/-- The data box is behind the entries. -/
theorem bytes_eq_mdat : seg.bytes = (fieldBytes seg.fields ++ trunEntries seg.trun) ++
    (fieldBytes [(4, 8 + dataLength seg.samples), (4, boxTypeMdat)] ++ seg.payload) := by
  rw [Segment.bytes, append_assoc]

theorem length_front : (fieldBytes seg.fields ++ trunEntries seg.trun).length =
    140 + 16 * seg.samples.length := by
  rw [length_append, length_fields, length_trunEntries, length_trun]

theorem mdatSize : boxSize seg.bytes (mdatAt seg.bytes) = 8 + dataLength seg.samples := by
  have hfits := seg.fits
  have hfitsMoof := seg.fitsMoof
  have hsum : (seg.samples.map fun s => s.data.length).sum = dataLength seg.samples := rfl
  have h := boxSize_header (8 + dataLength seg.samples) boxTypeMdat seg.payload
  have hshift := uintAt_shift (fieldBytes seg.fields ++ trunEntries seg.trun)
    (fieldBytes [(4, 8 + dataLength seg.samples), (4, boxTypeMdat)] ++ seg.payload) 0 4
  rw [← bytes_eq_mdat, length_front, Nat.add_zero] at hshift
  rw [boxSize, mdatAt_bytes, hshift]
  rw [boxSize] at h
  omega

theorem mdatType : boxType seg.bytes (mdatAt seg.bytes) = boxTypeMdat := by
  have h := boxType_header (8 + dataLength seg.samples) boxTypeMdat seg.payload
  have hshift := uintAt_shift (fieldBytes seg.fields ++ trunEntries seg.trun)
    (fieldBytes [(4, 8 + dataLength seg.samples), (4, boxTypeMdat)] ++ seg.payload) 4 4
  rw [← bytes_eq_mdat, length_front] at hshift
  rw [boxType, Nat.zero_add] at h
  rw [boxType, mdatAt_bytes, hshift, h]
  decide

/-- The samples are behind the header of the data box. -/
theorem drop_mdat : seg.bytes.drop (mdatAt seg.bytes + 8) = seg.payload := by
  have hheader : (fieldBytes [(4, 8 + dataLength seg.samples), (4, boxTypeMdat)]).length = 8 := by
    rw [length_fieldBytes]
    rfl
  have hlength : mdatAt seg.bytes = (fieldBytes seg.fields ++ trunEntries seg.trun).length := by
    rw [mdatAt_bytes, length_front]
  rw [hlength, ← drop_drop, bytes_eq_mdat, drop_left, List.drop_left' hheader]

/-- A column of the run. -/
theorem column_bytes {f : SrsMp4TrunEntry → ℕ} {k : ℕ} (hk : k + 4 ≤ 16)
    (hf : ∀ entry : SrsMp4TrunEntry, uintAt entry.bytes k 4 = f entry) :
    column seg.bytes (140 + k) seg.samples.length =
      (entriesOf seg.endDts true seg.samples).map f := by
  have h := column_entries hk hf seg.trun.entries (fieldBytes seg.fields)
    (fieldBytes [(4, 8 + dataLength seg.samples), (4, boxTypeMdat)] ++ seg.payload)
  rw [length_fields, length_trun] at h
  exact h

/-- The types of the boxes. -/
theorem types_bytes : boxType seg.bytes 0 = boxTypeSidx ∧
    boxType seg.bytes (moofAt seg.bytes) = boxTypeMoof ∧
    boxType seg.bytes (mfhdAt seg.bytes) = boxTypeMfhd ∧
    boxType seg.bytes (trafAt seg.bytes) = boxTypeTraf ∧
    boxType seg.bytes (tfhdAt seg.bytes) = boxTypeTfhd ∧
    boxType seg.bytes (tfdtAt seg.bytes) = boxTypeTfdt ∧
    boxType seg.bytes (trunAt seg.bytes) = boxTypeTrun ∧
    boxType seg.bytes (mdatAt seg.bytes) = boxTypeMdat := by
  have htfhd : boxSize seg.bytes 84 = 16 := @field seg 21 4 16 84 rfl rfl
  rw [tfdtAt, mfhdAt, tfhdAt, moofAt_bytes, trafAt_bytes, trunAt_bytes]
  show _ ∧ _ ∧ _ ∧ _ ∧ _ ∧ boxType seg.bytes (84 + boxSize seg.bytes 84) = _ ∧ _ ∧ _
  rw [htfhd]
  exact ⟨@field seg 1 4 boxTypeSidx 4 rfl rfl, @field seg 13 4 boxTypeMoof 56 rfl rfl,
    @field seg 15 4 boxTypeMfhd 64 rfl rfl, @field seg 20 4 boxTypeTraf 80 rfl rfl,
    @field seg 22 4 boxTypeTfhd 88 rfl rfl, @field seg 27 4 boxTypeTfdt 104 rfl rfl,
    @field seg 32 4 boxTypeTrun 124 rfl rfl, seg.mdatType⟩

theorem length_bytes : seg.bytes.length = mdatAt seg.bytes + (8 + dataLength seg.samples) := by
  have hheader : (fieldBytes [(4, 8 + dataLength seg.samples), (4, boxTypeMdat)]).length = 8 := by
    rw [length_fieldBytes]
    rfl
  rw [mdatAt_bytes, bytes_eq_mdat, length_append, length_front, length_append, hheader,
    length_payload]

/-- Where the boxes end. -/
theorem ends_bytes :
    trafAt seg.bytes + boxSize seg.bytes (trafAt seg.bytes) = mdatAt seg.bytes ∧
    trunAt seg.bytes + boxSize seg.bytes (trunAt seg.bytes) = mdatAt seg.bytes ∧
    mdatAt seg.bytes + boxSize seg.bytes (mdatAt seg.bytes) = seg.bytes.length := by
  have hfits := seg.fits
  have hfitsMoof := seg.fitsMoof
  have htraf : boxSize seg.bytes 76 = (64 + 16 * seg.samples.length) % 256 ^ 4 :=
    @field seg 19 4 _ 76 rfl rfl
  have htrun : boxSize seg.bytes 120 = (20 + 16 * seg.trun.entries.length) % 256 ^ 4 :=
    @field seg 31 4 _ 120 rfl rfl
  rw [length_trun] at htrun
  rw [length_bytes, mdatSize, trafAt_bytes, trunAt_bytes, mdatAt_bytes, htraf, htrun]
  omega

/-- The referenced size is right exactly if it has 31 bits. -/
theorem referenced_iff : uintAt seg.bytes 40 4 % 2 ^ 31 =
      boxSize seg.bytes (moofAt seg.bytes) + boxSize seg.bytes (mdatAt seg.bytes) ↔
    88 + 16 * seg.samples.length + (8 + dataLength seg.samples) < 2 ^ 31 := by
  have h : uintAt seg.bytes 40 4 =
      (88 + 16 * seg.samples.length + (8 + dataLength seg.samples)) % 2 ^ 31 % 256 ^ 4 :=
    @field seg 9 4 _ 40 rfl rfl
  rw [h, moofAt_bytes, moofSize, mdatSize]
  omega

theorem dataAt_bytes : Mp4.dataAt seg.bytes = mdatAt seg.bytes + 8 := by
  have hfits := seg.fits
  have hfitsMoof := seg.fitsMoof
  have h : uintAt seg.bytes 136 4 = seg.trun.dataOffset.toUInt32.toNat % 256 ^ 4 :=
    @field seg 36 4 _ 136 rfl rfl
  have hoffset : seg.trun.dataOffset.toUInt32.toNat = 88 + 16 * seg.samples.length + 8 := by
    have hint : (88 + 16 * (seg.samples.length : ℤ) + 8) =
        ((88 + 16 * seg.samples.length + 8 : ℕ) : ℤ) := by
      push_cast
      rfl
    show (Int32.ofInt (88 + 16 * (seg.samples.length : ℤ) + 8)).toUInt32.toNat = _
    rw [hint]
    show (BitVec.ofInt 32 ((88 + 16 * seg.samples.length + 8 : ℕ) : ℤ)).toNat = _
    rw [BitVec.ofInt_natCast, BitVec.toNat_ofNat]
    omega
  rw [Mp4.dataAt, trunAt_bytes, moofAt_bytes, h, hoffset, mdatAt_bytes]
  omega

end Positions

/-! ## The samples in the bytes -/

section Entries

variable (entry : SrsMp4TrunEntry)

theorem duration_entry : uintAt entry.bytes 0 4 = entry.sampleDuration.toNat := by
  have hlt := entry.sampleDuration.toNat_lt
  rw [fieldBytes_entry]
  refine (@uintAt_fields _ 0 4 entry.sampleDuration.toNat rfl []).trans ?_
  omega

theorem size_entry : uintAt entry.bytes 4 4 = entry.sampleSize.toNat := by
  have hlt := entry.sampleSize.toNat_lt
  rw [fieldBytes_entry]
  refine (@uintAt_fields _ 1 4 entry.sampleSize.toNat rfl []).trans ?_
  omega

theorem offset_entry : uintAt entry.bytes 12 4 =
    entry.sampleCompositionTimeOffset.toUInt64.toUInt32.toNat := by
  have hlt := entry.sampleCompositionTimeOffset.toUInt64.toUInt32.toNat_lt
  rw [fieldBytes_entry]
  refine (@uintAt_fields _ 3 4 entry.sampleCompositionTimeOffset.toUInt64.toUInt32.toNat rfl
    []).trans ?_
  omega

/-- What every entry says of its sample, whatever is behind it. -/
theorem map_entriesOf {f : SrsMp4TrunEntry → ℕ} {g : SegmentSample → ℕ}
    {samples : List SegmentSample} (dts : UInt64) (first : Bool)
    (h : ∀ s ∈ samples, ∀ first next, f (entryOf first next s) = g s) :
    (entriesOf dts first samples).map f = samples.map g := by
  induction samples generalizing first with
  | nil => rfl
  | cons s samples ih =>
    have hrest := ih false fun t ht => h t (List.mem_cons_of_mem s ht)
    rw [entriesOf, map_cons, map_cons, hrest, h s List.mem_cons_self]

end Entries

theorem sizes_bytes : Mp4.sizes seg.bytes = seg.samples.map fun s => s.data.length := by
  have hfits := seg.fits
  have hfitsMoof := seg.fitsMoof
  rw [Mp4.sizes, trunAt_bytes, sampleCount_bytes]
  refine (seg.column_bytes (k := 4) (by omega) size_entry).trans ?_
  apply map_entriesOf
  intro s hs first next
  have hle : s.data.length ≤ (seg.samples.map fun s => s.data.length).sum :=
    List.single_le_sum (fun _ _ => Nat.zero_le _) _ (List.mem_map_of_mem hs)
  show (UInt32.ofNat s.data.length).toNat = _
  rw [UInt32.toNat_ofNat']
  omega

/-- Samples in a row are cut by their lengths. -/
theorem splitLengths_data (samples : List SegmentSample) :
    (samples.map fun s => s.data.length).splitLengths (samples.flatMap SegmentSample.data) =
      samples.map SegmentSample.data := by
  induction samples with
  | nil => rfl
  | cons s samples ih =>
    rw [map_cons, flatMap_cons, List.splitLengths_cons, List.take_left, drop_left,
      ih, map_cons]

/-- The durations of samples in order, up to the last of them: only that one can be too long. -/
theorem sum_durations (dts : UInt64) (s : SegmentSample) (samples : List SegmentSample)
    (first : Bool) (hordered : (s :: samples).IsChain fun a b => a.dts ≤ b.dts)
    (hend : ((s :: samples).getLast (cons_ne_nil s samples)).dts.toNat ≤ dts.toNat) :
    s.dts.toNat + ((entriesOf dts first (s :: samples)).map fun e => e.sampleDuration.toNat).sum =
      ((s :: samples).getLast (cons_ne_nil s samples)).dts.toNat +
        (dts.toNat - ((s :: samples).getLast (cons_ne_nil s samples)).dts.toNat) % 2 ^ 32 := by
  induction samples generalizing s first with
  | nil =>
    have hdts : s.dts.toUInt64.toNat = s.dts.toNat := UInt32.toNat_toUInt64 s.dts
    have hle : s.dts.toUInt64 ≤ dts := by
      rw [UInt64.le_iff_toNat_le, hdts]
      exact hend
    have hduration : (entryOf first dts s).sampleDuration.toNat =
        (dts.toNat - s.dts.toNat) % 2 ^ 32 := by
      show (dts - s.dts.toUInt64).toUInt32.toNat = _
      rw [UInt64.toNat_toUInt32, UInt64.toNat_sub_of_le _ _ hle, hdts]
    rw [entriesOf, entriesOf, map_cons, map_nil, sum_cons, List.sum_nil,
      List.getLast_singleton, followingDts, hduration]
    rfl
  | cons t samples ih =>
    have hst : s.dts.toNat ≤ t.dts.toNat := UInt32.le_iff_toNat_le.mp hordered.rel
    have hs : s.dts.toUInt64.toNat = s.dts.toNat := UInt32.toNat_toUInt64 s.dts
    have ht : t.dts.toUInt64.toNat = t.dts.toNat := UInt32.toNat_toUInt64 t.dts
    have htLt := t.dts.toNat_lt
    have hle : s.dts.toUInt64 ≤ t.dts.toUInt64 := by
      rw [UInt64.le_iff_toNat_le, hs, ht]
      exact hst
    have hduration : (entryOf first t.dts.toUInt64 s).sampleDuration.toNat =
        t.dts.toNat - s.dts.toNat := by
      show (t.dts.toUInt64 - s.dts.toUInt64).toUInt32.toNat = _
      rw [UInt64.toNat_toUInt32, UInt64.toNat_sub_of_le _ _ hle, hs, ht]
      omega
    have hrest := ih t false hordered.tail
    rw [List.getLast_cons (cons_ne_nil t samples)] at hend ⊢
    have hsum := hrest hend
    rw [entriesOf, map_cons, sum_cons, followingDts, hduration]
    omega

theorem durations_bytes : Mp4.durations seg.bytes =
    (entriesOf seg.endDts true seg.samples).map fun e => e.sampleDuration.toNat := by
  rw [Mp4.durations, trunAt_bytes, sampleCount_bytes]
  exact seg.column_bytes (k := 0) (by omega) duration_entry

/-- The durations sum up exactly if the last one fits. -/
theorem durations_iff : (seg.samples.head seg.nonempty).dts.toNat +
      (Mp4.durations seg.bytes).sum = seg.endDts.toNat ↔
    seg.endDts.toNat - (seg.samples.getLast seg.nonempty).dts.toNat < 2 ^ 32 := by
  have hall : ∀ (samples : List SegmentSample) (hne : samples ≠ []),
      (samples.IsChain fun a b => a.dts ≤ b.dts) →
      (samples.getLast hne).dts.toNat ≤ seg.endDts.toNat →
      ((samples.head hne).dts.toNat +
        ((entriesOf seg.endDts true samples).map fun e => e.sampleDuration.toNat).sum =
          seg.endDts.toNat ↔ seg.endDts.toNat - (samples.getLast hne).dts.toNat < 2 ^ 32) := by
    intro samples hne hordered hends
    cases samples with
    | nil => exact absurd rfl hne
    | cons s samples =>
      have hsum := sum_durations seg.endDts s samples true hordered hends
      rw [List.head_cons, hsum]
      omega
  rw [durations_bytes]
  exact hall seg.samples seg.nonempty seg.ordered seg.ends

/-- The word for each offset. -/
theorem offsets_bytes : Mp4.offsets seg.bytes = seg.samples.map fun s =>
    offsetOf (if early seg.samples then 1 else 0) (s.cts % 2 ^ 32).toNat := by
  have hversion : uintAt seg.bytes 128 1 = if early seg.samples then 1 else 0 := by
    have h : uintAt seg.bytes 128 1 = seg.trun.version % 256 ^ 1 :=
      @field seg 33 1 _ 128 rfl rfl
    rw [h, Segment.trun]
    split
    · rfl
    · rfl
  have hwords : column seg.bytes (140 + 12) seg.samples.length =
      seg.samples.map fun s => (s.cts % 2 ^ 32).toNat := by
    refine (seg.column_bytes (k := 12) (by omega) offset_entry).trans ?_
    apply map_entriesOf
    intro s _ first next
    have hword := offset_word s
    show (s.pts.toUInt64 - s.dts.toUInt64).toInt64.toUInt64.toUInt32.toNat = _
    omega
  rw [Mp4.offsets, trunAt_bytes, sampleCount_bytes, hversion, hwords, List.map_map]
  rfl

/-- Unsigned, an offset is right if it is not negative. -/
theorem offsetOf_unsigned {s : SegmentSample} (h : s.dts ≤ s.pts) :
    offsetOf 0 (s.cts % 2 ^ 32).toNat = s.cts := by
  have hle := UInt32.le_iff_toNat_le.mp h
  have hpts := s.pts.toNat_lt
  rw [offsetOf, if_pos rfl, SegmentSample.cts]
  omega

/-- Signed, if it has 32 bits. -/
theorem offsetOf_signed (s : SegmentSample) :
    offsetOf 1 (s.cts % 2 ^ 32).toNat = s.cts ↔ -2 ^ 31 ≤ s.cts ∧ s.cts < 2 ^ 31 := by
  rw [offsetOf, if_neg Nat.one_ne_zero, Int.bmod_def]
  split
  · omega
  · omega

theorem early_eq_true {samples : List SegmentSample} :
    early samples = true ↔ ¬ ∀ s ∈ samples, s.dts ≤ s.pts := by
  simp [early]

/-- The offsets are right exactly if they fit. -/
theorem offsets_iff : Mp4.offsets seg.bytes = seg.samples.map SegmentSample.cts ↔
    (∀ s ∈ seg.samples, s.dts ≤ s.pts) ∨
      ∀ s ∈ seg.samples, -2 ^ 31 ≤ s.cts ∧ s.cts < 2 ^ 31 := by
  rw [offsets_bytes, List.map_inj_left]
  by_cases hearly : early seg.samples = true
  · rw [if_pos hearly]
    constructor
    · intro h
      right
      intro s hs
      exact (offsetOf_signed s).mp (h s hs)
    · intro h s hs
      apply (offsetOf_signed s).mpr
      cases h with
      | inl hlate => exact absurd hlate (early_eq_true.mp hearly)
      | inr hfit => exact hfit s hs
  · have hlate : ∀ s ∈ seg.samples, s.dts ≤ s.pts := by
      by_contra hnot
      exact hearly (early_eq_true.mpr hnot)
    rw [if_neg hearly]
    constructor
    · intro _
      exact .inl hlate
    · intro _ s hs
      exact offsetOf_unsigned (hlate s hs)

/-- What is written is consistent exactly if its size and times are within their fields. -/
theorem consistent_bytes_iff : Consistent seg seg.bytes ↔ Representable seg := by
  have hdrop := seg.drop_mdat
  constructor
  · intro h
    exact ⟨seg.referenced_iff.mp h.referenced, seg.durations_iff.mp h.durations,
      seg.offsets_iff.mp h.offsets⟩
  · intro h
    refine ⟨seg.types_bytes, seg.ends_bytes, seg.referenced_iff.mpr h.size, seg.dataAt_bytes, ?_, ?_,
      seg.durations_iff.mpr h.last, seg.offsets_iff.mpr h.offsets⟩
    · rw [hdrop, sizes_bytes, length_payload]
      rfl
    · rw [hdrop, sizes_bytes]
      exact splitLengths_data seg.samples

/-- A segment is written, and is consistent exactly if its size and times are within their
fields. -/
theorem flush_consistent_iff : (∃ bytes, seg.encoder.flush seg.endDts [] = .ok () bytes ∧
    Consistent seg bytes) ↔ Representable seg := by
  rw [← seg.consistent_bytes_iff]
  constructor
  · intro ⟨bytes, hrun, hconsistent⟩
    rw [flush_run] at hrun
    cases hrun
    exact hconsistent
  · intro h
    exact ⟨seg.bytes, seg.flush_run, h⟩

/-- Two samples: the first is shown 2^31 ms after it is decoded, the second before. -/
def farSegment : Segment where
  sequenceNumber := 1
  decodeBasetime := 0
  trackId := 1
  samples :=
    [⟨.video, .keyFrame, 0, 2 ^ 31, [1]⟩, ⟨.video, .interFrame, 1, 0, [2]⟩]
  nonempty := List.cons_ne_nil _ _
  ordered := by decide
  endDts := 2
  ends := by decide
  fits := by decide
  fitsMoof := by decide

theorem farSegment_inconsistent : ¬ ∃ bytes,
    farSegment.encoder.flush farSegment.endDts [] = .ok () bytes ∧ Consistent farSegment bytes := by
  intro ⟨bytes, hrun, hconsistent⟩
  rw [flush_run] at hrun
  cases hrun
  have hrepresentable := farSegment.consistent_bytes_iff.mp hconsistent
  have hnot : ¬ Representable farSegment := by
    intro h
    cases h.offsets with
    | inl hlate => exact absurd (hlate ⟨.video, .interFrame, 1, 0, [2]⟩
        (List.mem_cons_of_mem _ List.mem_cons_self)) (by decide)
    | inr hfit =>
      have hfirst := hfit ⟨.video, .keyFrame, 0, 2 ^ 31, [1]⟩ List.mem_cons_self
      exact absurd hfirst.2 (by decide)
  exact hnot hrepresentable

end Segment
end SrsChatRoom.Kernel.Mp4
