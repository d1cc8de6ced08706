import SrsChatRoom.Kernel.Cursor

/-!
# MP4 boxes (`srs_kernel_mp4.cpp`)

A box starts with its size, which it computes before it is encoded, from its own fields and from the
boxes that it contains. `SrsMp4Box.Exact` says that a box has the size that it tells. It is kept by
nesting boxes (`exact_srsMp4Box`).

The boxes are those of a fragment: `moof` with all that it contains, `sidx` and `mdat`. None of them
is a `uuid` box, which has a longer header.
-/

namespace SrsChatRoom.Kernel.Mp4

open List (Forall₂ append_nil flatten_nil length_append)

inductive Mp4ErrorCode
  | boxRequireSpace
  | illegalMoof
deriving DecidableEq, Repr

/-- `srs_error_t`: the code and the messages, the outermost first. -/
structure Mp4Error where
  code : Mp4ErrorCode
  messages : List String
deriving DecidableEq, Repr

/-- `srs_error_new(ERROR_MP4_BOX_REQUIRE_SPACE, message)` -/
def requireSpace (message : String) : Mp4Error := ⟨.boxRequireSpace, [message]⟩

/-- `srs_error_wrap` -/
def Mp4Error.wrap (message : String) (e : Mp4Error) : Mp4Error :=
  { e with messages := message :: e.messages }

/-- An encoder. -/
abbrev Mp4Writer := Prog SrsBuffer Mp4Error Unit

/-- `if ((err = x) != srs_success) return srs_error_wrap(err, message)` -/
def wrapping (message : String) (x : Mp4Writer) : Mp4Writer := Prog.wrap (Mp4Error.wrap message) x

/-- What a box is for the one that contains it: `nb_bytes()` and `encode`. -/
structure SrsMp4Box where
  nbBytes : ℕ
  encode : Mp4Writer

/-- `(flags&flag) == flag` -/
def hasFlag (flags flag : ℕ) : Bool := flags &&& flag = flag

/-! ## Encoding -/

/-- `SrsMp4Box::encode_header`, with the size of `update_size`; `nbFields` is the part of
`nb_header()` behind the header of `SrsMp4Box`. -/
def encodeBoxHeader (type nbFields size : ℕ) : Mp4Writer := do
  Cursor.requires (if size > 0xffffffff then 16 else 8) (requireSpace "requires %d only %d bytes")
  Cursor.writeUint 4 (if size > 0xffffffff then 1 else size)
  Cursor.writeUint 4 type
  Prog.optional (size > 0xffffffff) (Cursor.writeUint 8 size)
  Cursor.requires nbFields (requireSpace "box requires %d only %d bytes")

/-- `SrsMp4FullBox::encode_header` -/
def encodeFullBoxHeader (type version flags nbFields size : ℕ) : Mp4Writer := do
  wrapping "encode header" (encodeBoxHeader type nbFields size)
  Cursor.requires 4 (requireSpace "full box requires 4 only %d bytes")
  Cursor.writeUint 1 version
  Cursor.writeUint 3 flags

/-- `SrsMp4Box::encode_boxes` -/
def encodeBoxes : List SrsMp4Box → Mp4Writer
  | [] => return ()
  | box :: boxes => do
    wrapping "encode contained box" box.encode
    encodeBoxes boxes

/-- `SrsMp4Box`: `nb_bytes` and `encode`, of a box with this header and these boxes in it. -/
def srsMp4Box (nbHeader : ℕ) (encodeHeader : ℕ → Mp4Writer) (boxes : List SrsMp4Box) :
    SrsMp4Box where
  nbBytes := nbHeader + (boxes.map SrsMp4Box.nbBytes).sum
  encode := do
    wrapping "encode box header" (encodeHeader (nbHeader + (boxes.map SrsMp4Box.nbBytes).sum))
    wrapping "encode contained boxes" (encodeBoxes boxes)

/-! ## Boxes of a fragment -/

def boxTypeMdat : ℕ := 0x6d646174
def boxTypeMoof : ℕ := 0x6d6f6f66
def boxTypeMfhd : ℕ := 0x6d666864
def boxTypeTraf : ℕ := 0x74726166
def boxTypeTfhd : ℕ := 0x74666864
def boxTypeTfdt : ℕ := 0x74666474
def boxTypeTrun : ℕ := 0x7472756e
def boxTypeSidx : ℕ := 0x73696478

/-- `SrsMp4MovieFragmentBox` with its boxes. -/
def srsMp4MovieFragmentBox (boxes : List SrsMp4Box) : SrsMp4Box :=
  srsMp4Box 8 (encodeBoxHeader boxTypeMoof 0) boxes

/-- `SrsMp4TrackFragmentBox` with its boxes. -/
def srsMp4TrackFragmentBox (boxes : List SrsMp4Box) : SrsMp4Box :=
  srsMp4Box 8 (encodeBoxHeader boxTypeTraf 0) boxes

/-- `SrsMp4MovieFragmentHeaderBox` -/
def srsMp4MovieFragmentHeaderBox (sequenceNumber : ℕ) : SrsMp4Box :=
  srsMp4Box (8 + 4 + 4) (fun size => do
    wrapping "encode header" (encodeFullBoxHeader boxTypeMfhd 0 0 (4 + 4) size)
    Cursor.writeUint 4 sequenceNumber) []

/-- `SrsMp4TfhdFlags` -/
def tfhdFlagsBaseDataOffset : ℕ := 0x000001
def tfhdFlagsSampleDescriptionIndex : ℕ := 0x000002
def tfhdFlagsDefaultSampleDuration : ℕ := 0x000008
def tfhdFlagsDefautlSampleSize : ℕ := 0x000010
def tfhdFlagsDefaultSampleFlags : ℕ := 0x000020
def tfhdFlagsDefaultBaseIsMoof : ℕ := 0x020000

/-- The fields of `SrsMp4TrackFragmentHeaderBox`. -/
structure Tfhd where
  flags : ℕ := 0
  trackId : ℕ := 0
  baseDataOffset : ℕ := 0
  sampleDescriptionIndex : ℕ := 0
  defaultSampleDuration : ℕ := 0
  defaultSampleSize : ℕ := 0
  defaultSampleFlags : ℕ := 0

/-- `SrsMp4TrackFragmentHeaderBox::nb_header`, behind the header of `SrsMp4Box`. -/
def Tfhd.nbFields (tfhd : Tfhd) : ℕ :=
  4 + 4 + (if hasFlag tfhd.flags tfhdFlagsBaseDataOffset then 8 else 0) +
    (if hasFlag tfhd.flags tfhdFlagsSampleDescriptionIndex then 4 else 0) +
    (if hasFlag tfhd.flags tfhdFlagsDefaultSampleDuration then 4 else 0) +
    (if hasFlag tfhd.flags tfhdFlagsDefautlSampleSize then 4 else 0) +
    (if hasFlag tfhd.flags tfhdFlagsDefaultSampleFlags then 4 else 0)

/-- `SrsMp4TrackFragmentHeaderBox` -/
def srsMp4TrackFragmentHeaderBox (tfhd : Tfhd) : SrsMp4Box :=
  srsMp4Box (8 + tfhd.nbFields) (fun size => do
    wrapping "encode header" (encodeFullBoxHeader boxTypeTfhd 0 tfhd.flags tfhd.nbFields size)
    Cursor.writeUint 4 tfhd.trackId
    Prog.optional (hasFlag tfhd.flags tfhdFlagsBaseDataOffset)
      (Cursor.writeUint 8 tfhd.baseDataOffset)
    Prog.optional (hasFlag tfhd.flags tfhdFlagsSampleDescriptionIndex)
      (Cursor.writeUint 4 tfhd.sampleDescriptionIndex)
    Prog.optional (hasFlag tfhd.flags tfhdFlagsDefaultSampleDuration)
      (Cursor.writeUint 4 tfhd.defaultSampleDuration)
    Prog.optional (hasFlag tfhd.flags tfhdFlagsDefautlSampleSize)
      (Cursor.writeUint 4 tfhd.defaultSampleSize)
    Prog.optional (hasFlag tfhd.flags tfhdFlagsDefaultSampleFlags)
      (Cursor.writeUint 4 tfhd.defaultSampleFlags)) []

/-- `SrsMp4TrackFragmentDecodeTimeBox` -/
def srsMp4TrackFragmentDecodeTimeBox (version baseMediaDecodeTime : ℕ) : SrsMp4Box :=
  let nbTime := if version ≠ 0 then 8 else 4
  srsMp4Box (8 + 4 + nbTime) (fun size => do
    wrapping "encode header" (encodeFullBoxHeader boxTypeTfdt version 0 (4 + nbTime) size)
    Cursor.writeUint nbTime baseMediaDecodeTime) []

/-- `SrsMp4TrunFlags` -/
def trunFlagsDataOffset : ℕ := 0x000001
def trunFlagsFirstSample : ℕ := 0x000004
def trunFlagsSampleDuration : ℕ := 0x000100
def trunFlagsSampleSize : ℕ := 0x000200
def trunFlagsSampleFlag : ℕ := 0x000400
def trunFlagsSampleCtsOffset : ℕ := 0x000800

/-- `SrsMp4TrunEntry` -/
structure SrsMp4TrunEntry where
  sampleDuration : UInt32
  sampleSize : UInt32
  sampleFlags : UInt32
  sampleCompositionTimeOffset : Int64

/-- The fields of `SrsMp4TrackFragmentRunBox`. -/
structure Trun where
  version : ℕ := 0
  flags : ℕ := 0
  dataOffset : Int32 := 0
  firstSampleFlags : ℕ := 0
  entries : List SrsMp4TrunEntry := []

/-- `SrsMp4TrunEntry::nb_bytes`, which is the same for all entries. -/
def Trun.nbEntry (owner : Trun) : ℕ :=
  (if hasFlag owner.flags trunFlagsSampleDuration then 4 else 0) +
    (if hasFlag owner.flags trunFlagsSampleSize then 4 else 0) +
    (if hasFlag owner.flags trunFlagsSampleFlag then 4 else 0) +
    (if hasFlag owner.flags trunFlagsSampleCtsOffset then 4 else 0)

/-- `SrsMp4TrunEntry::encode`. The low 32 bits of the offset are written, whether it is taken as
signed or not. -/
def Trun.encodeEntry (owner : Trun) (entry : SrsMp4TrunEntry) : Mp4Writer := do
  Prog.optional (hasFlag owner.flags trunFlagsSampleDuration)
    (Cursor.writeUint 4 entry.sampleDuration.toNat)
  Prog.optional (hasFlag owner.flags trunFlagsSampleSize)
    (Cursor.writeUint 4 entry.sampleSize.toNat)
  Prog.optional (hasFlag owner.flags trunFlagsSampleFlag)
    (Cursor.writeUint 4 entry.sampleFlags.toNat)
  Prog.optional (hasFlag owner.flags trunFlagsSampleCtsOffset)
    (if owner.version = 0 then
      Cursor.writeUint 4 entry.sampleCompositionTimeOffset.toUInt64.toUInt32.toNat
    else Cursor.writeUint 4 entry.sampleCompositionTimeOffset.toInt32.toUInt32.toNat)

/-- The loop of `SrsMp4TrackFragmentRunBox::encode_header`. -/
def Trun.encodeEntries (owner : Trun) : List SrsMp4TrunEntry → Mp4Writer
  | [] => return ()
  | entry :: entries => do
    wrapping "encode entry" (owner.encodeEntry entry)
    owner.encodeEntries entries

/-- `SrsMp4TrackFragmentRunBox::nb_header`, behind the header of `SrsMp4Box`. -/
def Trun.nbFields (trun : Trun) : ℕ :=
  4 + 4 + (if hasFlag trun.flags trunFlagsDataOffset then 4 else 0) +
    (if hasFlag trun.flags trunFlagsFirstSample then 4 else 0) +
    (trun.entries.map fun _ => trun.nbEntry).sum

/-- `SrsMp4TrackFragmentRunBox` -/
def srsMp4TrackFragmentRunBox (trun : Trun) : SrsMp4Box :=
  srsMp4Box (8 + trun.nbFields) (fun size => do
    wrapping "encode header"
      (encodeFullBoxHeader boxTypeTrun trun.version trun.flags trun.nbFields size)
    Cursor.writeUint 4 trun.entries.length
    Prog.optional (hasFlag trun.flags trunFlagsDataOffset)
      (Cursor.writeUint 4 trun.dataOffset.toUInt32.toNat)
    Prog.optional (hasFlag trun.flags trunFlagsFirstSample)
      (Cursor.writeUint 4 trun.firstSampleFlags)
    trun.encodeEntries trun.entries) []

/-! ## Boxes around a fragment -/

/-- `SrsMp4SegmentIndexEntry`: fields of 1, 31, 32, 1, 3 and 28 bits. -/
structure SrsMp4SegmentIndexEntry where
  referenceType : ℕ := 0
  referencedSize : UInt32 := 0
  subsegmentDuration : UInt32 := 0
  startsWithSap : ℕ := 0
  sapType : ℕ := 0
  sapDeltaTime : ℕ := 0

/-- The fields of `SrsMp4SegmentIndexBox`. -/
structure Sidx where
  version : ℕ := 0
  flags : ℕ := 0
  referenceId : ℕ := 0
  timescale : ℕ := 0
  earliestPresentationTime : ℕ := 0
  firstOffset : ℕ := 0
  entries : List SrsMp4SegmentIndexEntry := []

/-- One round of the loop of `SrsMp4SegmentIndexBox::encode_header`. -/
def SrsMp4SegmentIndexEntry.encode (entry : SrsMp4SegmentIndexEntry) : Mp4Writer := do
  Cursor.writeUint 4 ((entry.referenceType &&& 0x01) <<< 31 |||
    (entry.referencedSize.toNat &&& 0x7fffffff))
  Cursor.writeUint 4 entry.subsegmentDuration.toNat
  Cursor.writeUint 4 ((entry.startsWithSap &&& 0x01) <<< 31 ||| (entry.sapType &&& 0x7) <<< 28 |||
    (entry.sapDeltaTime &&& 0xfffffff))

def encodeIndexEntries : List SrsMp4SegmentIndexEntry → Mp4Writer
  | [] => return ()
  | entry :: entries => do
    entry.encode
    encodeIndexEntries entries

/-- `SrsMp4SegmentIndexBox::nb_header`, behind the header of `SrsMp4Box`. -/
def Sidx.nbFields (sidx : Sidx) : ℕ :=
  4 + 4 + 4 + (if sidx.version = 0 then 8 else 16) + 4 + 12 * sidx.entries.length

/-- `SrsMp4SegmentIndexBox` -/
def srsMp4SegmentIndexBox (sidx : Sidx) : SrsMp4Box :=
  let nbTime := if sidx.version = 0 then 4 else 8
  srsMp4Box (8 + sidx.nbFields) (fun size => do
    wrapping "encode header" (encodeBoxHeader boxTypeSidx sidx.nbFields size)
    Cursor.writeUint 1 sidx.version
    Cursor.writeUint 3 sidx.flags
    Cursor.writeUint 4 sidx.referenceId
    Cursor.writeUint 4 sidx.timescale
    Cursor.writeUint nbTime sidx.earliestPresentationTime
    Cursor.writeUint nbTime sidx.firstOffset
    Cursor.writeUint 4 sidx.entries.length
    encodeIndexEntries sidx.entries) []

/-- `SrsMp4MediaDataBox`, of which only the header is encoded. -/
def srsMp4MediaDataBox (nbData : ℕ) : SrsMp4Box where
  nbBytes := 8 + nbData
  encode := wrapping "encode box" do
    wrapping "encode box header" (encodeBoxHeader boxTypeMdat 0 (8 + nbData))
    wrapping "encode contained boxes" (return ())

/-! ## The size that a box tells -/

/-- A box with this type and these bytes behind its header. -/
def boxBytes (type : ℕ) (payload : List UInt8) : List UInt8 :=
  bytesBE 4 (8 + payload.length) ++ bytesBE 4 type ++ payload

/-- The box writes these bytes, and tells how many they are. -/
structure SrsMp4Box.Exact (box : SrsMp4Box) (data : List UInt8) : Prop where
  size : box.nbBytes = data.length
  emits : Cursor.Emits box.encode data 0

theorem length_boxBytes (type : ℕ) (payload : List UInt8) :
    (boxBytes type payload).length = 8 + payload.length := by
  unfold boxBytes
  rw [length_append, length_append, length_bytesBE, length_bytesBE]

open Cursor (Emits emits_pure emits_writeUint emits_requires)

section Headers

variable {size : ℕ} (hsize : size < 2 ^ 32)
include hsize

theorem emits_encodeBoxHeader (type nbFields : ℕ) :
    Emits (encodeBoxHeader type nbFields size) (bytesBE 4 size ++ bytesBE 4 type) nbFields := by
  have hsmall : ¬ size > 0xffffffff := by omega
  unfold encodeBoxHeader
  rw [if_neg hsmall, if_neg hsmall, decide_eq_false hsmall]
  have hrest : Emits (Cursor.writeUint 4 type >>= fun _ =>
      Prog.optional false (Cursor.writeUint 8 size) >>= fun _ =>
        Cursor.requires nbFields (requireSpace "box requires %d only %d bytes"))
      (bytesBE 4 type) nbFields := by
    have h := (emits_writeUint 4 type).seq ((emits_pure).seq
      (emits_requires nbFields (requireSpace "box requires %d only %d bytes")) (by omega))
      (by omega)
    rwa [append_nil, append_nil] at h
  have h := (emits_requires 8 (requireSpace "requires %d only %d bytes")).seq
    ((emits_writeUint 4 size).seq hrest (by omega))
    (by rw [length_append, length_bytesBE, length_bytesBE]; omega)
  rwa [List.nil_append] at h

theorem emits_encodeFullBoxHeader (type version flags nbFields : ℕ) :
    Emits (encodeFullBoxHeader type version flags nbFields size)
      (bytesBE 4 size ++ bytesBE 4 type ++ (bytesBE 1 version ++ bytesBE 3 flags))
      (nbFields - 4) := by
  have hfields : Emits (do
      Cursor.requires 4 (requireSpace "full box requires 4 only %d bytes")
      Cursor.writeUint 1 version
      Cursor.writeUint 3 flags : Mp4Writer) (bytesBE 1 version ++ bytesBE 3 flags) 0 := by
    have h := (emits_requires 4 (requireSpace "full box requires 4 only %d bytes")).seq
      ((emits_writeUint 1 version).seq (emits_writeUint 3 flags) (by omega))
      (by rw [length_append, length_bytesBE, length_bytesBE])
    rwa [List.nil_append] at h
  refine ((emits_encodeBoxHeader hsize type nbFields).wrap _).seq (hfields.mono (by omega)) ?_
  rw [length_append, length_bytesBE, length_bytesBE]
  omega

/-- The header of a full box, with the fields that are written behind it. -/
theorem emits_fullBox {fields : List UInt8} {x : Mp4Writer} (hx : Emits x fields 0)
    (type version flags : ℕ) {nbFields : ℕ} (hfields : nbFields = 4 + fields.length) :
    Emits (wrapping "encode header" (encodeFullBoxHeader type version flags nbFields size) >>=
        fun _ => x)
      (bytesBE 4 size ++ bytesBE 4 type ++ (bytesBE 1 version ++ bytesBE 3 flags ++ fields)) 0 := by
  have h := ((emits_encodeFullBoxHeader hsize type version flags nbFields).wrap
    (Mp4Error.wrap "encode header")).seq hx (by omega)
  rwa [List.append_assoc (bytesBE 4 size ++ bytesBE 4 type)] at h

end Headers

section Boxes

variable {boxes : List SrsMp4Box} {datas : List (List UInt8)}

theorem emits_encodeBoxes (h : Forall₂ SrsMp4Box.Exact boxes datas) :
    Emits (encodeBoxes boxes) datas.flatten 0 := by
  induction h with
  | nil => exact emits_pure
  | cons hbox _ ih => exact (hbox.emits.wrap _).seq ih (by omega)

theorem sum_nbBytes (h : Forall₂ SrsMp4Box.Exact boxes datas) :
    (boxes.map SrsMp4Box.nbBytes).sum = datas.flatten.length := by
  induction h with
  | nil => rfl
  | cons hbox _ ih =>
    rw [List.map_cons, List.sum_cons, ih, hbox.size, List.flatten_cons, length_append]

/-- A box of exact boxes is exact, if its header is as long as it tells. -/
theorem exact_srsMp4Box {type nbHeader : ℕ} {encodeHeader : ℕ → Mp4Writer} {fields : List UInt8}
    (hboxes : Forall₂ SrsMp4Box.Exact boxes datas) (hheader : nbHeader = 8 + fields.length)
    (hfits : 8 + (fields ++ datas.flatten).length < 2 ^ 32)
    (hemits : ∀ size < 2 ^ 32,
      Emits (encodeHeader size) (bytesBE 4 size ++ bytesBE 4 type ++ fields) 0) :
    (srsMp4Box nbHeader encodeHeader boxes).Exact (boxBytes type (fields ++ datas.flatten)) := by
  have hsize : nbHeader + (boxes.map SrsMp4Box.nbBytes).sum =
      8 + (fields ++ datas.flatten).length := by
    rw [sum_nbBytes hboxes, hheader, length_append]
    omega
  constructor
  case size => rw [length_boxBytes, ← hsize, srsMp4Box]
  case emits =>
    have h := ((hemits _ (hsize ▸ hfits)).wrap (Mp4Error.wrap "encode box header")).seq
      ((emits_encodeBoxes hboxes).wrap (Mp4Error.wrap "encode contained boxes")) (by omega)
    rw [hsize, List.append_assoc] at h
    unfold srsMp4Box boxBytes
    dsimp only
    rwa [hsize]

/-- A box without fields. -/
theorem exact_plain (type : ℕ) (hboxes : Forall₂ SrsMp4Box.Exact boxes datas)
    (hfits : 8 + datas.flatten.length < 2 ^ 32) :
    (srsMp4Box 8 (encodeBoxHeader type 0) boxes).Exact (boxBytes type datas.flatten) := by
  refine @exact_srsMp4Box boxes datas type 8 _ [] hboxes rfl hfits ?_
  intro size hsize
  rw [append_nil]
  exact emits_encodeBoxHeader hsize type 0

/-- A full box without boxes in it. -/
theorem exact_full {type version flags nbHeader nbFields : ℕ} {fields : List UInt8} {x : Mp4Writer}
    (hx : Emits x fields 0) (hfields : nbFields = 4 + fields.length)
    (hheader : nbHeader = 8 + nbFields) (hfits : 12 + fields.length < 2 ^ 32) :
    (srsMp4Box nbHeader (fun size => wrapping "encode header"
        (encodeFullBoxHeader type version flags nbFields size) >>= fun _ => x) []).Exact
      (boxBytes type (bytesBE 1 version ++ bytesBE 3 flags ++ fields)) := by
  have hlength : (bytesBE 1 version ++ bytesBE 3 flags ++ fields).length = 4 + fields.length := by
    rw [length_append, length_append, length_bytesBE, length_bytesBE]
  have h := exact_srsMp4Box List.Forall₂.nil
    (by omega : nbHeader = 8 + (bytesBE 1 version ++ bytesBE 3 flags ++ fields).length)
    (by rw [flatten_nil, append_nil, hlength]; omega)
    (fun size hsize => emits_fullBox hsize hx type version flags hfields)
  rwa [flatten_nil, append_nil] at h

end Boxes

theorem exact_movieFragmentHeader (sequenceNumber : ℕ) :
    (srsMp4MovieFragmentHeaderBox sequenceNumber).Exact
      (boxBytes boxTypeMfhd (bytesBE 1 0 ++ bytesBE 3 0 ++ bytesBE 4 sequenceNumber)) :=
  exact_full (emits_writeUint 4 sequenceNumber) (by rw [length_bytesBE]) rfl
    (by rw [length_bytesBE]; decide)

theorem exact_trackFragmentDecodeTime {version : ℕ} (hversion : version ≠ 0)
    (baseMediaDecodeTime : ℕ) :
    (srsMp4TrackFragmentDecodeTimeBox version baseMediaDecodeTime).Exact (boxBytes boxTypeTfdt
      (bytesBE 1 version ++ bytesBE 3 0 ++ bytesBE 8 baseMediaDecodeTime)) := by
  unfold srsMp4TrackFragmentDecodeTimeBox
  rw [if_pos hversion]
  exact exact_full (emits_writeUint 8 baseMediaDecodeTime) (by rw [length_bytesBE]) rfl
    (by rw [length_bytesBE]; decide)

/-- A track fragment header without optional fields. -/
theorem exact_trackFragmentHeader (trackId : ℕ) :
    (srsMp4TrackFragmentHeaderBox { trackId, flags := tfhdFlagsDefaultBaseIsMoof }).Exact
      (boxBytes boxTypeTfhd (bytesBE 1 0 ++ bytesBE 3 tfhdFlagsDefaultBaseIsMoof ++
        bytesBE 4 trackId)) := by
  have hoffset : hasFlag tfhdFlagsDefaultBaseIsMoof tfhdFlagsBaseDataOffset = false := by decide
  have hindex : hasFlag tfhdFlagsDefaultBaseIsMoof tfhdFlagsSampleDescriptionIndex = false := by
    decide
  have hduration : hasFlag tfhdFlagsDefaultBaseIsMoof tfhdFlagsDefaultSampleDuration = false := by
    decide
  have hsize : hasFlag tfhdFlagsDefaultBaseIsMoof tfhdFlagsDefautlSampleSize = false := by decide
  have hflags : hasFlag tfhdFlagsDefaultBaseIsMoof tfhdFlagsDefaultSampleFlags = false := by decide
  have hx := (emits_writeUint 4 trackId).seq (emits_pure.seq (emits_pure.seq (emits_pure.seq
    (emits_pure.seq (@emits_pure Mp4Error) (by omega)) (by omega)) (by omega)) (by omega))
    (by omega)
  rw [append_nil] at hx
  unfold srsMp4TrackFragmentHeaderBox Tfhd.nbFields
  dsimp only
  rw [hoffset, hindex, hduration, hsize, hflags]
  exact exact_full hx (by rw [length_bytesBE]; rfl) rfl (by rw [length_bytesBE]; decide)

/-! ## Runs of samples -/

/-- The flags that a run of samples has in a segment: its offset, and four fields for a sample. -/
def trunFlags : ℕ :=
  trunFlagsDataOffset ||| trunFlagsSampleDuration ||| trunFlagsSampleSize |||
    trunFlagsSampleFlag ||| trunFlagsSampleCtsOffset

/-- An entry with all of its fields. -/
def SrsMp4TrunEntry.bytes (entry : SrsMp4TrunEntry) : List UInt8 :=
  bytesBE 4 entry.sampleDuration.toNat ++ (bytesBE 4 entry.sampleSize.toNat ++
    (bytesBE 4 entry.sampleFlags.toNat ++
      bytesBE 4 entry.sampleCompositionTimeOffset.toUInt64.toUInt32.toNat))

theorem SrsMp4TrunEntry.length_bytes (entry : SrsMp4TrunEntry) : entry.bytes.length = 16 := by
  unfold SrsMp4TrunEntry.bytes
  simp only [length_append, length_bytesBE]

/-- Both casts of an offset keep its low 32 bits. -/
theorem toInt32_toUInt32 (offset : Int64) : offset.toInt32.toUInt32 = offset.toUInt64.toUInt32 := by
  apply UInt32.toBitVec_inj.mp
  exact BitVec.signExtend_eq_setWidth_of_le offset.toBitVec (by decide)

section Runs

variable {trun : Trun} (hflags : trun.flags = trunFlags)
include hflags

theorem emits_encodeEntry (entry : SrsMp4TrunEntry) :
    Emits (trun.encodeEntry entry) entry.bytes 0 := by
  have hcts : Emits (if trun.version = 0 then
      Cursor.writeUint 4 entry.sampleCompositionTimeOffset.toUInt64.toUInt32.toNat
      else Cursor.writeUint 4 entry.sampleCompositionTimeOffset.toInt32.toUInt32.toNat : Mp4Writer)
      (bytesBE 4 entry.sampleCompositionTimeOffset.toUInt64.toUInt32.toNat) 0 := by
    rw [toInt32_toUInt32, ite_self]
    exact emits_writeUint _ _
  unfold Trun.encodeEntry
  rw [hflags]
  exact (emits_writeUint 4 _).seq ((emits_writeUint 4 _).seq ((emits_writeUint 4 _).seq hcts
    (by omega)) (by omega)) (by omega)

theorem emits_encodeEntries (entries : List SrsMp4TrunEntry) :
    Emits (trun.encodeEntries entries) (entries.flatMap SrsMp4TrunEntry.bytes) 0 := by
  induction entries with
  | nil => exact emits_pure
  | cons entry entries ih => exact ((emits_encodeEntry hflags entry).wrap _).seq ih (by omega)

theorem exact_trackFragmentRun (hfits : trun.entries.length < 2 ^ 27) :
    (srsMp4TrackFragmentRunBox trun).Exact (boxBytes boxTypeTrun
      (bytesBE 1 trun.version ++ bytesBE 3 trunFlags ++ (bytesBE 4 trun.entries.length ++
        (bytesBE 4 trun.dataOffset.toUInt32.toNat ++
          trun.entries.flatMap SrsMp4TrunEntry.bytes)))) := by
  have hlength : (trun.entries.flatMap SrsMp4TrunEntry.bytes).length =
      16 * trun.entries.length := by
    rw [List.length_flatMap, funext SrsMp4TrunEntry.length_bytes, List.map_const', List.sum_replicate,
      smul_eq_mul, Nat.mul_comm]
  have hentry : trun.nbEntry = 16 := by
    unfold Trun.nbEntry
    rw [hflags]
    rfl
  have hsum : (trun.entries.map fun _ => trun.nbEntry).sum = 16 * trun.entries.length := by
    rw [hentry, List.map_const', List.sum_replicate, smul_eq_mul, Nat.mul_comm]
  have hoffset : hasFlag trunFlags trunFlagsDataOffset = true := by decide
  have hfirst : hasFlag trunFlags trunFlagsFirstSample = false := by decide
  have hx := (emits_writeUint 4 trun.entries.length).seq ((emits_writeUint 4
    trun.dataOffset.toUInt32.toNat).seq (emits_pure.seq
      (emits_encodeEntries hflags trun.entries) (by omega)) (by omega)) (by omega)
  have hfields : trun.nbFields = 4 + (bytesBE 4 trun.entries.length ++
      (bytesBE 4 trun.dataOffset.toUInt32.toNat ++
        trun.entries.flatMap SrsMp4TrunEntry.bytes)).length := by
    unfold Trun.nbFields
    rw [hflags, hoffset, hfirst, hsum, length_append, length_append, length_bytesBE,
      length_bytesBE, hlength]
    simp
    omega
  rw [List.nil_append] at hx
  unfold srsMp4TrackFragmentRunBox
  rw [hflags, hoffset, hfirst]
  refine exact_full hx hfields rfl ?_
  rw [length_append, length_append, length_bytesBE, length_bytesBE, hlength]
  omega

end Runs

/-! ## The index and the data -/

/-- An entry of the index: three words. -/
def SrsMp4SegmentIndexEntry.bytes (entry : SrsMp4SegmentIndexEntry) : List UInt8 :=
  bytesBE 4 ((entry.referenceType &&& 0x01) <<< 31 |||
      (entry.referencedSize.toNat &&& 0x7fffffff)) ++
    (bytesBE 4 entry.subsegmentDuration.toNat ++
      bytesBE 4 ((entry.startsWithSap &&& 0x01) <<< 31 ||| (entry.sapType &&& 0x7) <<< 28 |||
        (entry.sapDeltaTime &&& 0xfffffff)))

theorem SrsMp4SegmentIndexEntry.length_bytes (entry : SrsMp4SegmentIndexEntry) :
    entry.bytes.length = 12 := by
  unfold SrsMp4SegmentIndexEntry.bytes
  simp only [length_append, length_bytesBE]

theorem emits_encodeIndexEntries (entries : List SrsMp4SegmentIndexEntry) :
    Emits (encodeIndexEntries entries) (entries.flatMap SrsMp4SegmentIndexEntry.bytes) 0 := by
  induction entries with
  | nil => exact emits_pure
  | cons entry entries ih =>
    have hentry : Emits entry.encode entry.bytes 0 :=
      (emits_writeUint 4 _).seq ((emits_writeUint 4 _).seq (emits_writeUint 4 _) (by omega))
        (by omega)
    exact hentry.seq ih (by omega)

/-- The fields of an index with times of eight bytes. -/
def Sidx.bytes (sidx : Sidx) : List UInt8 :=
  bytesBE 1 sidx.version ++ (bytesBE 3 sidx.flags ++ (bytesBE 4 sidx.referenceId ++
    (bytesBE 4 sidx.timescale ++ (bytesBE 8 sidx.earliestPresentationTime ++
      (bytesBE 8 sidx.firstOffset ++ (bytesBE 4 sidx.entries.length ++
        sidx.entries.flatMap SrsMp4SegmentIndexEntry.bytes))))))

theorem Sidx.length_bytes (sidx : Sidx) : sidx.bytes.length = 32 + 12 * sidx.entries.length := by
  have hentries : (sidx.entries.flatMap SrsMp4SegmentIndexEntry.bytes).length =
      12 * sidx.entries.length := by
    rw [List.length_flatMap, funext SrsMp4SegmentIndexEntry.length_bytes, List.map_const',
      List.sum_replicate, smul_eq_mul, Nat.mul_comm]
  unfold Sidx.bytes
  simp only [length_append, length_bytesBE, hentries]
  omega

theorem exact_segmentIndex {sidx : Sidx} (hversion : sidx.version ≠ 0)
    (hfits : sidx.entries.length < 2 ^ 27) :
    (srsMp4SegmentIndexBox sidx).Exact (boxBytes boxTypeSidx sidx.bytes) := by
  have hlength := sidx.length_bytes
  have hfields : sidx.nbFields = 32 + 12 * sidx.entries.length := by
    unfold Sidx.nbFields
    rw [if_neg hversion]
  have hx := (emits_writeUint 1 sidx.version).seq ((emits_writeUint 3 sidx.flags).seq
    ((emits_writeUint 4 sidx.referenceId).seq ((emits_writeUint 4 sidx.timescale).seq
      ((emits_writeUint 8 sidx.earliestPresentationTime).seq
        ((emits_writeUint 8 sidx.firstOffset).seq ((emits_writeUint 4 sidx.entries.length).seq
          (emits_encodeIndexEntries sidx.entries) (by omega)) (by omega)) (by omega)) (by omega))
      (by omega)) (by omega)) (by omega)
  have h := @exact_srsMp4Box _ _ boxTypeSidx _ _ _ List.Forall₂.nil
    (by omega : 8 + sidx.nbFields = 8 + sidx.bytes.length)
    (by rw [flatten_nil, append_nil]; omega)
    (fun size hsize => ((emits_encodeBoxHeader hsize boxTypeSidx sidx.nbFields).wrap
      (Mp4Error.wrap "encode header")).seq hx (by show sidx.nbFields ≤ sidx.bytes.length + 0; omega))
  rw [flatten_nil, append_nil] at h
  unfold srsMp4SegmentIndexBox
  rw [if_neg hversion]
  exact h

/-- Of the data box the header is written. -/
theorem emits_mediaData {nbData : ℕ} (hfits : 8 + nbData < 2 ^ 32) :
    Emits (srsMp4MediaDataBox nbData).encode
      (bytesBE 4 (8 + nbData) ++ bytesBE 4 boxTypeMdat) 0 := by
  have h := ((emits_encodeBoxHeader hfits boxTypeMdat 0).wrap
    (Mp4Error.wrap "encode box header")).seq
    (emits_pure.wrap (Mp4Error.wrap "encode contained boxes")) (by omega)
  rw [append_nil] at h
  exact h.wrap _

end SrsChatRoom.Kernel.Mp4
