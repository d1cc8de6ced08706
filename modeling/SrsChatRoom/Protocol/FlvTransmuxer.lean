import SrsChatRoom.Protocol.MediaMessage

/-!
# FLV tags (`SrsFlvTransmuxer`, `SrsFlvDecoder`)

A tag is written either alone, with its header in `tag_header`, or in a batch by `write_tags`, with
the headers and the previous-tag sizes in caches to which the iovecs point. The calls for a single
tag fill `tag_header` only if there is a payload, so that an empty tag goes out with the header of
the tag before it; `write_tags` has no such test.

`flvTag` is a tag with its own header. `faithful_iff` says that the tags are read back, and that
both ways of writing them agree, exactly if no tag that is written is empty.
-/

namespace SrsChatRoom.Protocol

/-! ## The transmuxer -/

/-- `SrsFlvTransmuxer`, with what has been written so far. -/
structure FlvTransmuxer where
  dropIfNotMatch : Bool
  hasAudio : Bool
  hasVideo : Bool
  tagHeader : List UInt8
  nbTagHeaders : ℕ
  tagHeaders : ℕ → UInt8
  nbPpts : ℕ
  ppts : ℕ → UInt8
  nbIovssCache : ℕ
  written : List UInt8

/-- `iovec`: a header or a previous-tag size in its cache, or a payload. -/
inductive FlvIovec
  | header (base : ℕ)
  | payload (bytes : List UInt8)
  | pts (base : ℕ)

/-- `SRS_FLV_TAG_HEADER_SIZE` -/
def flvTagHeaderSize : ℕ := 11

/-- `SRS_FLV_PREVIOUS_TAG_SIZE` -/
def flvPreviousTagSize : ℕ := 4

/-- The header of a tag: type, size, the low 24 bits of the time, the high 8 bits of it, and the
stream id 0. -/
def cacheTag (type : UInt8) (timestamp size : ℕ) : List UInt8 :=
  type :: (bytesBE 3 size ++ (bytesBE 3 timestamp ++
    (UInt8.ofNat (timestamp / 16777216) :: bytesBE 3 0)))

/-- `timestamp &= 0x7fffffff` -/
def flvTime (timestamp : ℤ) : ℕ := (timestamp % 2147483648).toNat

/-- `cache_metadata`, `cache_audio` and `cache_video`. The data is not null. -/
def cacheMetadata (type : UInt8) (size : ℕ) : List UInt8 := cacheTag type 0 size

def cacheAudio (timestamp : ℤ) (size : ℕ) : List UInt8 := cacheTag 8 (flvTime timestamp) size

def cacheVideo (timestamp : ℤ) (size : ℕ) : List UInt8 := cacheTag 9 (flvTime timestamp) size

/-- `cache_pts` -/
def cachePts (size : ℕ) : List UInt8 := bytesBE flvPreviousTagSize size

/-- `SrsFrameTypeScript` -/
def frameTypeScript : UInt8 := 18

/-- The header of a message in `write_tags`. -/
def SharedPtrMessage.flvHeader (m : SharedPtrMessage) : List UInt8 :=
  if m.isAudio then cacheAudio m.timestamp m.payload.length
  else if m.isVideo then cacheVideo m.timestamp m.payload.length
  else cacheMetadata frameTypeScript m.payload.length

namespace FlvTransmuxer

/-- `SrsFlvTransmuxer()`; `fresh` is what the memory of a new object has in it. -/
def new (fresh : ℕ → UInt8) : FlvTransmuxer :=
  { dropIfNotMatch := true, hasAudio := true, hasVideo := true
    tagHeader := (List.range flvTagHeaderSize).map fresh
    nbTagHeaders := 0, tagHeaders := fresh, nbPpts := 0, ppts := fresh, nbIovssCache := 0
    written := [] }

/-- `set_drop_if_not_match(v)` -/
def setDropIfNotMatch (t : FlvTransmuxer) (v : Bool) : FlvTransmuxer := { t with dropIfNotMatch := v }

/-- `write_header(has_video, has_audio)` -/
def writeHeader (t : FlvTransmuxer) (hasVideo hasAudio : Bool) : FlvTransmuxer :=
  { t with
    hasAudio := hasAudio
    hasVideo := hasVideo
    written := t.written ++ [0x46, 0x4C, 0x56, 0x01,
      (if hasAudio then 4 else 0) + (if hasVideo then 1 else 0), 0, 0, 0, 9, 0, 0, 0, 0] }

/-- `write_tag` -/
def writeTag (t : FlvTransmuxer) (tag : List UInt8) : FlvTransmuxer :=
  { t with written := t.written ++
      (t.tagHeader ++ (tag ++ cachePts (tag.length + flvTagHeaderSize))) }

/-- `tag_header`, which is filled for a payload. -/
def fill (t : FlvTransmuxer) (size : ℕ) (header : List UInt8) : FlvTransmuxer :=
  if 0 < size then { t with tagHeader := header } else t

/-- `write_metadata(type, data, size)` -/
def writeMetadata (t : FlvTransmuxer) (type : UInt8) (data : List UInt8) : FlvTransmuxer :=
  (t.fill data.length (cacheMetadata type data.length)).writeTag data

/-- `write_audio(timestamp, data, size)` -/
def writeAudio (t : FlvTransmuxer) (timestamp : ℤ) (data : List UInt8) : FlvTransmuxer :=
  if t.dropIfNotMatch && !t.hasAudio then t
  else (t.fill data.length (cacheAudio timestamp data.length)).writeTag data

/-- `write_video(timestamp, data, size)` -/
def writeVideo (t : FlvTransmuxer) (timestamp : ℤ) (data : List UInt8) : FlvTransmuxer :=
  if t.dropIfNotMatch && !t.hasVideo then t
  else (t.fill data.length (cacheVideo timestamp data.length)).writeTag data

/-- The call for one message. -/
def writeOne (t : FlvTransmuxer) (m : SharedPtrMessage) : FlvTransmuxer :=
  if m.isAudio then t.writeAudio m.timestamp m.payload
  else if m.isVideo then t.writeVideo m.timestamp m.payload
  else t.writeMetadata frameTypeScript m.payload

/-- The calls for some messages, one after the other. -/
def writeEach (t : FlvTransmuxer) (msgs : List SharedPtrMessage) : FlvTransmuxer :=
  msgs.foldl writeOne t

/-- The message is ignored, for the header declared no such stream. -/
def drops (t : FlvTransmuxer) (m : SharedPtrMessage) : Bool :=
  if m.isAudio then t.dropIfNotMatch && !t.hasAudio
  else if m.isVideo then t.dropIfNotMatch && !t.hasVideo
  else false

/-- The bytes an iovec points to. -/
def iovBytes (t : FlvTransmuxer) : FlvIovec → List UInt8
  | .header base => (Iovec.header base flvTagHeaderSize).bytes t.tagHeaders
  | .payload bytes => bytes
  | .pts base => (Iovec.header base flvPreviousTagSize).bytes t.ppts

/-- The caches have room for `count` tags; `fresh` is what new memory has in it. -/
def reserve (fresh : ℕ → UInt8) (t : FlvTransmuxer) (count : ℕ) : FlvTransmuxer :=
  { t with
    nbIovssCache := if t.nbIovssCache < 3 * count then 3 * count else t.nbIovssCache
    tagHeaders := if t.nbTagHeaders < count then fresh else t.tagHeaders
    nbTagHeaders := if t.nbTagHeaders < count then count else t.nbTagHeaders
    ppts := if t.nbPpts < count then fresh else t.ppts
    nbPpts := if t.nbPpts < count then count else t.nbPpts }

/-- There is room for one more tag after these places of the caches. -/
def HasRoom (t : FlvTransmuxer) (cache pts iovs : ℕ) : Prop :=
  cache + flvTagHeaderSize ≤ flvTagHeaderSize * t.nbTagHeaders ∧
    pts + flvPreviousTagSize ≤ flvPreviousTagSize * t.nbPpts ∧ iovs + 3 ≤ t.nbIovssCache

instance (t : FlvTransmuxer) (cache pts iovs : ℕ) : Decidable (t.HasRoom cache pts iovs) :=
  inferInstanceAs (Decidable (_ ∧ _))

/-- The caches with one more tag. -/
def cacheMessage (t : FlvTransmuxer) (m : SharedPtrMessage) (cache pts : ℕ) : FlvTransmuxer :=
  { t with
    tagHeaders := writeCache t.tagHeaders cache m.flvHeader
    ppts := writeCache t.ppts pts (cachePts (flvTagHeaderSize + m.payload.length)) }

/-- The loop of `write_tags`. A write outside of the caches has no result. -/
def tagsLoop (t : FlvTransmuxer) : List SharedPtrMessage → ℕ → ℕ → List FlvIovec →
    Option (FlvTransmuxer × List FlvIovec)
  | [], _, _, iovs => some (t, iovs)
  | m :: msgs, cache, pts, iovs =>
    if t.drops m then tagsLoop t msgs cache pts iovs
    else if t.HasRoom cache pts iovs.length then
      tagsLoop (t.cacheMessage m cache pts) msgs (cache + flvTagHeaderSize)
        (pts + flvPreviousTagSize) (iovs ++ [.header cache, .payload m.payload, .pts pts])
    else none

/-- `write_tags(msgs, count)` -/
def writeTags (fresh : ℕ → UInt8) (t : FlvTransmuxer) (msgs : List SharedPtrMessage) :
    Option FlvTransmuxer :=
  (tagsLoop (t.reserve fresh msgs.length) msgs 0 0 []).map fun r =>
    { r.1 with written := r.1.written ++ r.2.flatMap r.1.iovBytes }

end FlvTransmuxer

/-! ## The decoder -/

/-- `ISrsReader::read`, which reads all that is asked for or fails. -/
def readBytes (n : ℕ) (file : List UInt8) : Option (List UInt8 × List UInt8) :=
  if n ≤ file.length then some (file.take n, file.drop n) else none

/-- `read_tag_header`: type, size and time. -/
def readTagHeader (file : List UInt8) : Option ((UInt8 × ℕ × ℕ) × List UInt8) :=
  (readBytes 11 file).map fun r =>
    ((r.1.getD 0 0 &&& 0x1F, ofBytesBE ((r.1.drop 1).take 3),
      (r.1.getD 7 0).toNat * 16777216 + ofBytesBE ((r.1.drop 4).take 3)), r.2)

/-- `read_tag_data` -/
def readTagData (size : ℕ) (file : List UInt8) : Option (List UInt8 × List UInt8) :=
  readBytes size file

/-- `read_previous_tag_size` -/
def readPreviousTagSize (file : List UInt8) : Option (ℕ × List UInt8) :=
  (readBytes 4 file).map fun r => (ofBytesBE r.1, r.2)

/-- What is read of a tag. -/
structure FlvTag where
  type : UInt8
  time : ℕ
  data : List UInt8
  previousTagSize : ℕ
  deriving DecidableEq

/-- The three calls for one tag. -/
def readTag (file : List UInt8) : Option (FlvTag × List UInt8) :=
  (readTagHeader file).bind fun h =>
    (readTagData h.1.2.1 h.2).bind fun d =>
      (readPreviousTagSize d.2).map fun p => (⟨h.1.1, h.1.2.2, d.1, p.1⟩, p.2)

/-- The calls for some tags, one after the other. -/
def readTags : ℕ → List UInt8 → Option (List FlvTag × List UInt8)
  | 0, file => some ([], file)
  | n + 1, file =>
    (readTag file).bind fun r => (readTags n r.2).map fun s => (r.1 :: s.1, s.2)

/-! ## A tag with its own header -/

/-- `SrsFrameTypeAudio`, `SrsFrameTypeVideo` or `SrsFrameTypeScript` -/
def SharedPtrMessage.frameType (m : SharedPtrMessage) : UInt8 :=
  if m.isAudio then 8 else if m.isVideo then 9 else frameTypeScript

/-- The time of a tag; metadata has none. -/
def SharedPtrMessage.tagTime (m : SharedPtrMessage) : ℕ := if m.isAv then flvTime m.timestamp else 0

/-- What should be read of the tag. -/
def SharedPtrMessage.flvTag (m : SharedPtrMessage) : FlvTag :=
  ⟨m.frameType, m.tagTime, m.payload, flvTagHeaderSize + m.payload.length⟩

/-- The tag. -/
def SharedPtrMessage.flvBytes (m : SharedPtrMessage) : List UInt8 :=
  m.flvHeader ++ (m.payload ++ cachePts (flvTagHeaderSize + m.payload.length))

variable (m : SharedPtrMessage)

theorem flvHeader_eq : m.flvHeader = cacheTag m.frameType m.tagTime m.payload.length := by
  unfold SharedPtrMessage.flvHeader SharedPtrMessage.frameType SharedPtrMessage.tagTime
    SharedPtrMessage.isAv
  split
  · next haudio => simp [haudio, cacheAudio]
  · next haudio =>
    split
    · next hvideo => simp [hvideo, cacheVideo]
    · next hvideo => simp [haudio, hvideo, cacheMetadata]

theorem length_cacheTag (type : UInt8) (timestamp size : ℕ) :
    (cacheTag type timestamp size).length = flvTagHeaderSize := by
  simp [cacheTag, flvTagHeaderSize]

theorem length_flvHeader : m.flvHeader.length = flvTagHeaderSize := by
  rw [flvHeader_eq, length_cacheTag]

theorem length_cachePts (size : ℕ) : (cachePts size).length = flvPreviousTagSize :=
  length_bytesBE _ _

theorem frameType_cases : m.frameType = 8 ∨ m.frameType = 9 ∨ m.frameType = 18 := by
  unfold SharedPtrMessage.frameType frameTypeScript
  split
  · exact .inl rfl
  · split
    · exact .inr (.inl rfl)
    · exact .inr (.inr rfl)

/-- The type takes the five bits that are read of it. -/
theorem frameType_and : m.frameType &&& 0x1F = m.frameType := by
  rcases frameType_cases m with h | h | h <;> rw [h] <;> rfl

theorem tagTime_lt : m.tagTime < 2147483648 := by
  unfold SharedPtrMessage.tagTime flvTime
  split <;> omega

/-! ## Reading it back -/

theorem readBytes_append {n : ℕ} {bytes : List UInt8} (h : bytes.length = n) (rest : List UInt8) :
    readBytes n (bytes ++ rest) = some (bytes, rest) := by
  unfold readBytes
  rw [if_pos (by simp [h]), ← h, List.take_left, List.drop_left]

/-- The three fields that are read of a header. -/
theorem readTagHeader_append {header : List UInt8} (h : header.length = flvTagHeaderSize)
    (rest : List UInt8) : readTagHeader (header ++ rest) =
      some ((header.getD 0 0 &&& 0x1F, ofBytesBE ((header.drop 1).take 3),
        (header.getD 7 0).toNat * 16777216 + ofBytesBE ((header.drop 4).take 3)), rest) := by
  unfold readTagHeader
  rw [readBytes_append (n := 11) h]
  rfl

theorem readTagHeader_cacheTag (type : UInt8) {timestamp size : ℕ} (htime : timestamp < 4294967296)
    (hsize : size < 16777216) (rest : List UInt8) :
    readTagHeader (cacheTag type timestamp size ++ rest) =
      some ((type &&& 0x1F, size, timestamp), rest) := by
  have hsizeBytes : ((cacheTag type timestamp size).drop 1).take 3 = bytesBE 3 size := rfl
  have htimeBytes : ((cacheTag type timestamp size).drop 4).take 3 = bytesBE 3 timestamp := rfl
  have hhigh : (cacheTag type timestamp size).getD 7 0 = UInt8.ofNat (timestamp / 16777216) := rfl
  have htype : (cacheTag type timestamp size).getD 0 0 = type := rfl
  have hbyte : (UInt8.ofNat (timestamp / 16777216)).toNat = timestamp / 16777216 % 256 := by simp
  rw [readTagHeader_append (length_cacheTag type timestamp size), hsizeBytes, htimeBytes, hhigh,
    htype, ofBytesBE_bytesBE, ofBytesBE_bytesBE, hbyte]
  have hlow : size % 256 ^ 3 = size := Nat.mod_eq_of_lt hsize
  have hjoin : timestamp / 16777216 % 256 * 16777216 + timestamp % 256 ^ 3 = timestamp := by omega
  rw [hlow, hjoin]

/-- A tag with its own header is read back. -/
theorem readTag_flvBytes {m : SharedPtrMessage} (hsize : m.payload.length < 16777216)
    (rest : List UInt8) : readTag (m.flvBytes ++ rest) = some (m.flvTag, rest) := by
  have htime : m.tagTime < 4294967296 := (tagTime_lt m).trans (by decide)
  have hpts : ofBytesBE (cachePts (flvTagHeaderSize + m.payload.length)) =
      flvTagHeaderSize + m.payload.length := by
    rw [cachePts, ofBytesBE_bytesBE]
    unfold flvTagHeaderSize flvPreviousTagSize
    omega
  unfold readTag SharedPtrMessage.flvBytes
  rw [flvHeader_eq, List.append_assoc, readTagHeader_cacheTag _ htime hsize, Option.bind_some,
    List.append_assoc]
  dsimp only
  rw [readTagData, readBytes_append rfl, Option.bind_some, readPreviousTagSize]
  dsimp only
  rw [readBytes_append (n := 4) (length_cachePts _), Option.map_some, Option.map_some,
    frameType_and, hpts]
  rfl

/-- Tags with their own headers are read back. -/
theorem readTags_flvBytes {msgs : List SharedPtrMessage}
    (hsize : ∀ m ∈ msgs, m.payload.length < 16777216) (rest : List UInt8) :
    readTags msgs.length (msgs.flatMap SharedPtrMessage.flvBytes ++ rest) =
      some (msgs.map SharedPtrMessage.flvTag, rest) := by
  induction msgs with
  | nil => rfl
  | cons m msgs ih =>
    rw [List.length_cons, readTags, List.flatMap_cons, List.append_assoc,
      readTag_flvBytes (hsize m List.mem_cons_self), Option.bind_some,
      ih fun m' hm' => hsize m' (List.mem_cons_of_mem _ hm')]
    rfl

namespace FlvTransmuxer

/-! ## Single tags -/

variable {t : FlvTransmuxer} {m : SharedPtrMessage}

theorem writeOne_of_drops (h : t.drops m = true) : t.writeOne m = t := by
  unfold drops at h
  unfold writeOne
  split at h
  · next haudio => rw [if_pos haudio, writeAudio, if_pos h]
  · next haudio =>
    split at h
    · next hvideo => rw [if_neg haudio, if_pos hvideo, writeVideo, if_pos h]
    · cases h

/-- A tag that is not dropped is written behind `tag_header`. -/
theorem writeOne_of_not_drops (h : t.drops m = false) :
    t.writeOne m = (t.fill m.payload.length m.flvHeader).writeTag m.payload := by
  unfold drops at h
  unfold writeOne SharedPtrMessage.flvHeader
  split at h
  · next haudio => simp [haudio, writeAudio, h]
  · next haudio =>
    split at h
    · next hvideo => simp [haudio, hvideo, writeVideo, h]
    · next hvideo => simp [haudio, hvideo, writeMetadata]

/-- The two have the same header, and so they drop the same tags. -/
structure SameHeader (t u : FlvTransmuxer) : Prop where
  dropIfNotMatch : t.dropIfNotMatch = u.dropIfNotMatch
  hasAudio : t.hasAudio = u.hasAudio
  hasVideo : t.hasVideo = u.hasVideo

variable {u : FlvTransmuxer}

theorem SameHeader.drops (h : SameHeader t u) (m : SharedPtrMessage) : t.drops m = u.drops m := by
  unfold FlvTransmuxer.drops
  rw [h.dropIfNotMatch, h.hasAudio, h.hasVideo]

theorem SameHeader.write (h : SameHeader t u) (size : ℕ)
    (header tag : List UInt8) : SameHeader ((t.fill size header).writeTag tag) u := by
  unfold fill writeTag
  split <;> exact ⟨h.dropIfNotMatch, h.hasAudio, h.hasVideo⟩

/-- The tag header when the tag is written. -/
theorem fill_tagHeader (t : FlvTransmuxer) (size : ℕ) (header tag : List UInt8) :
    ((t.fill size header).writeTag tag).tagHeader = if 0 < size then header else t.tagHeader := by
  unfold fill writeTag
  split <;> rfl

theorem fill_written (t : FlvTransmuxer) (size : ℕ) (header tag : List UInt8) :
    ((t.fill size header).writeTag tag).written =
      t.written ++ ((if 0 < size then header else t.tagHeader) ++
        (tag ++ cachePts (tag.length + flvTagHeaderSize))) := by
  unfold fill writeTag
  split <;> rfl

/-- The bytes that the calls for single tags write, from what is in `tag_header`. -/
def eachBytes (t : FlvTransmuxer) : List UInt8 → List SharedPtrMessage → List UInt8
  | _, [] => []
  | header, m :: msgs =>
    if t.drops m then eachBytes t header msgs
    else
      (if 0 < m.payload.length then m.flvHeader else header) ++
        (m.payload ++ (cachePts (flvTagHeaderSize + m.payload.length) ++
          eachBytes t (if 0 < m.payload.length then m.flvHeader else header) msgs))

theorem writeEach_written (h : SameHeader t u) (msgs : List SharedPtrMessage) :
    (t.writeEach msgs).written = t.written ++ u.eachBytes t.tagHeader msgs := by
  induction msgs generalizing t with
  | nil => simp [writeEach, eachBytes]
  | cons m msgs ih =>
    have hstep : t.writeEach (m :: msgs) = (t.writeOne m).writeEach msgs := rfl
    cases hdrops : t.drops m with
    | true =>
      rw [hstep, writeOne_of_drops hdrops, eachBytes, if_pos (h.drops m ▸ hdrops)]
      exact ih h
    | false =>
      have hnot : ¬ u.drops m = true := by rw [← h.drops m, hdrops]; exact Bool.false_ne_true
      rw [hstep, writeOne_of_not_drops hdrops, eachBytes, if_neg hnot, ih (h.write _ _ _),
        fill_tagHeader, fill_written, Nat.add_comm m.payload.length]
      simp only [List.append_assoc]

/-- The tags that are written. -/
def kept (t : FlvTransmuxer) (msgs : List SharedPtrMessage) : List SharedPtrMessage :=
  msgs.filter fun m => !t.drops m

variable {msgs : List SharedPtrMessage}

/-- With no empty tag among them, each has its own header. -/
theorem eachBytes_eq (t : FlvTransmuxer) (header : List UInt8)
    (h : ∀ m ∈ t.kept msgs, m.payload ≠ []) :
    t.eachBytes header msgs = (t.kept msgs).flatMap SharedPtrMessage.flvBytes := by
  induction msgs generalizing header with
  | nil => rfl
  | cons m msgs ih =>
    cases hdrops : t.drops m with
    | true =>
      have hkept : t.kept (m :: msgs) = t.kept msgs := by simp [kept, hdrops]
      rw [hkept] at h ⊢
      rw [eachBytes, if_pos hdrops]
      exact ih header h
    | false =>
      have hkept : t.kept (m :: msgs) = m :: t.kept msgs := by simp [kept, hdrops]
      rw [hkept] at h ⊢
      have hpos : 0 < m.payload.length := List.length_pos_of_ne_nil (h m List.mem_cons_self)
      rw [eachBytes, if_neg (by simp [hdrops]), if_pos hpos,
        ih _ fun m' hm' => h m' (List.mem_cons_of_mem _ hm'), List.flatMap_cons,
        SharedPtrMessage.flvBytes]
      simp only [List.append_assoc]

/-! ## A batch of tags -/

/-- An iovec lies below some places of the caches. -/
def Below (cache pts : ℕ) : FlvIovec → Prop
  | .header base => base + flvTagHeaderSize ≤ cache
  | .payload _ => True
  | .pts base => base + flvPreviousTagSize ≤ pts

/-- What lies below is not touched by the next tag. -/
theorem iovBytes_cacheMessage {cache pts : ℕ} {v : FlvIovec}
    (h : Below cache pts v) (m : SharedPtrMessage) :
    (t.cacheMessage m cache pts).iovBytes v = t.iovBytes v := by
  cases v with
  | header base => exact bytes_below (v := .header base flvTagHeaderSize) h
  | payload bytes => rfl
  | pts base => exact bytes_below (v := .header base flvPreviousTagSize) h

/-- The loop collects the tags, and it stays within the caches. -/
theorem tagsLoop_run (u : FlvTransmuxer) (msgs : List SharedPtrMessage) (t : FlvTransmuxer)
    (cache pts : ℕ) (iovs : List FlvIovec) (hsame : SameHeader t u)
    (hcache : cache + flvTagHeaderSize * msgs.length ≤ flvTagHeaderSize * t.nbTagHeaders)
    (hpts : pts + flvPreviousTagSize * msgs.length ≤ flvPreviousTagSize * t.nbPpts)
    (hiovs : iovs.length + 3 * msgs.length ≤ t.nbIovssCache)
    (hbelow : ∀ v ∈ iovs, Below cache pts v) :
    ∃ t' iovs', t.tagsLoop msgs cache pts iovs = some (t', iovs') ∧ t'.written = t.written ∧
      iovs'.flatMap t'.iovBytes =
        iovs.flatMap t.iovBytes ++ (u.kept msgs).flatMap SharedPtrMessage.flvBytes := by
  induction msgs generalizing t cache pts iovs with
  | nil => exact ⟨t, iovs, rfl, rfl, by simp [kept]⟩
  | cons m msgs ih =>
    rw [List.length_cons] at hcache hpts hiovs
    unfold tagsLoop
    cases hdrops : t.drops m with
    | true =>
      have hkept : u.kept (m :: msgs) = u.kept msgs := by simp [kept, ← hsame.drops m, hdrops]
      rw [if_pos rfl, hkept]
      exact ih t cache pts iovs hsame (by unfold flvTagHeaderSize at *; omega)
        (by unfold flvPreviousTagSize at *; omega) (by omega) hbelow
    | false =>
      have hkept : u.kept (m :: msgs) = m :: u.kept msgs := by
        simp [kept, ← hsame.drops m, hdrops]
      have hroom : t.HasRoom cache pts iovs.length := by
        refine ⟨?_, ?_, ?_⟩
        · unfold flvTagHeaderSize at *
          omega
        · unfold flvPreviousTagSize at *
          omega
        · omega
      rw [if_neg Bool.false_ne_true, if_pos hroom, hkept]
      obtain ⟨t', iovs', hrun, hwritten, hbytes⟩ := ih (t.cacheMessage m cache pts)
        (cache + flvTagHeaderSize) (pts + flvPreviousTagSize)
        (iovs ++ [.header cache, .payload m.payload, .pts pts])
        ⟨hsame.dropIfNotMatch, hsame.hasAudio, hsame.hasVideo⟩
        (by show _ ≤ flvTagHeaderSize * t.nbTagHeaders; unfold flvTagHeaderSize at *; omega)
        (by show _ ≤ flvPreviousTagSize * t.nbPpts; unfold flvPreviousTagSize at *; omega)
        (by show _ ≤ t.nbIovssCache; simp only [List.length_append, List.length_cons,
              List.length_nil]; omega)
        (by
          intro v hv
          cases List.mem_append.mp hv with
          | inl hold =>
            have hv := hbelow v hold
            cases v with
            | header base => exact Nat.le_trans hv (Nat.le_add_right _ _)
            | payload bytes => trivial
            | pts base => exact Nat.le_trans hv (Nat.le_add_right _ _)
          | inr hnew =>
            simp only [List.mem_cons, List.not_mem_nil, or_false] at hnew
            rcases hnew with rfl | rfl | rfl
            · exact Nat.le_refl _
            · trivial
            · exact Nat.le_refl _)
      refine ⟨t', iovs', hrun, hwritten, ?_⟩
      have hold : iovs.flatMap (t.cacheMessage m cache pts).iovBytes = iovs.flatMap t.iovBytes :=
        List.flatMap_congr fun v hv => iovBytes_cacheMessage (hbelow v hv) m
      have hheader : (t.cacheMessage m cache pts).iovBytes (.header cache) = m.flvHeader := by
        have hread := bytes_header_written t.tagHeaders cache m.flvHeader
        rw [length_flvHeader] at hread
        exact hread
      have hsize : (t.cacheMessage m cache pts).iovBytes (.pts pts) =
          cachePts (flvTagHeaderSize + m.payload.length) := by
        have hread := bytes_header_written t.ppts pts
          (cachePts (flvTagHeaderSize + m.payload.length))
        rw [length_cachePts] at hread
        exact hread
      rw [hbytes, List.flatMap_append, hold, List.append_assoc, List.flatMap_cons, List.flatMap_cons,
        List.flatMap_cons, List.flatMap_cons, hheader, hsize, SharedPtrMessage.flvBytes]
      simp only [iovBytes, List.flatMap_nil, List.append_nil, List.append_assoc]

/-- The batch writes each tag that is not dropped, with its own header. -/
theorem writeTags_run (fresh : ℕ → UInt8) (t : FlvTransmuxer) (msgs : List SharedPtrMessage) :
    ∃ t', t.writeTags fresh msgs = some t' ∧
      t'.written = t.written ++ (t.kept msgs).flatMap SharedPtrMessage.flvBytes := by
  obtain ⟨t', iovs', hrun, hwritten, hbytes⟩ := tagsLoop_run t msgs (t.reserve fresh msgs.length)
    0 0 [] ⟨rfl, rfl, rfl⟩
    (by
      show _ ≤ flvTagHeaderSize * if t.nbTagHeaders < msgs.length then _ else _
      unfold flvTagHeaderSize
      split <;> omega)
    (by
      show _ ≤ flvPreviousTagSize * if t.nbPpts < msgs.length then _ else _
      unfold flvPreviousTagSize
      split <;> omega)
    (by
      show _ ≤ if t.nbIovssCache < 3 * msgs.length then _ else _
      rw [List.length_nil]
      split <;> omega)
    (by simp)
  refine ⟨_, by rw [writeTags, hrun]; rfl, ?_⟩
  show t'.written ++ iovs'.flatMap t'.iovBytes = _
  rw [hwritten, hbytes]
  rfl

/-! ## Empty tags -/

/-- A header that is not that of an empty tag: it has no type, or a size. -/
structure Stale (header : List UInt8) : Prop where
  length_eq : header.length = flvTagHeaderSize
  fields : header.getD 0 0 &&& 0x1F = 0 ∨ 0 < ofBytesBE ((header.drop 1).take 3)

/-- What a new transmuxer may have in its memory. -/
theorem Stale.zero : Stale ((List.range flvTagHeaderSize).map fun _ => 0) :=
  ⟨by decide, .inl (by decide)⟩

/-- The header of a tag that is not empty. -/
theorem Stale.flvHeader (hpos : 0 < m.payload.length)
    (hsize : m.payload.length < 16777216) : Stale m.flvHeader := by
  refine ⟨length_flvHeader m, .inr ?_⟩
  rw [flvHeader_eq]
  show 0 < ofBytesBE (bytesBE 3 m.payload.length)
  rw [ofBytesBE_bytesBE, Nat.mod_eq_of_lt (by omega)]
  exact hpos

/-- What is read of a tag has the type and the size of its header. -/
theorem readTag_of_header {header rest : List UInt8} {r : FlvTag × List UInt8}
    (hlength : header.length = flvTagHeaderSize) (h : readTag (header ++ rest) = some r) :
    r.1.type = header.getD 0 0 &&& 0x1F ∧
      r.1.data.length = ofBytesBE ((header.drop 1).take 3) := by
  unfold readTag at h
  rw [readTagHeader_append hlength, Option.bind_some] at h
  obtain ⟨d, hd, h⟩ := Option.bind_eq_some_iff.mp h
  obtain ⟨p, -, rfl⟩ := Option.map_eq_some_iff.mp h
  refine ⟨rfl, ?_⟩
  unfold readTagData readBytes at hd
  split at hd
  · next hle =>
    cases hd
    exact List.length_take_of_le hle
  · cases hd

/-- An empty tag that goes out with the header of another one is not read back. -/
theorem readTags_eachBytes_ne (t : FlvTransmuxer) {header : List UInt8} (hheader : Stale header)
    (hsize : ∀ m ∈ msgs, m.payload.length < 16777216)
    (hempty : ∃ m ∈ t.kept msgs, m.payload = []) (rest : List UInt8) :
    readTags (t.kept msgs).length (t.eachBytes header msgs) ≠
      some ((t.kept msgs).map SharedPtrMessage.flvTag, rest) := by
  induction msgs generalizing header with
  | nil =>
    obtain ⟨m, hm, -⟩ := hempty
    cases hm
  | cons m msgs ih =>
    have hsize' : ∀ m' ∈ msgs, m'.payload.length < 16777216 :=
      fun m' hm' => hsize m' (List.mem_cons_of_mem _ hm')
    cases hdrops : t.drops m with
    | true =>
      have hkept : t.kept (m :: msgs) = t.kept msgs := by simp [kept, hdrops]
      rw [hkept] at hempty ⊢
      rw [eachBytes, if_pos hdrops]
      exact ih hheader hsize' hempty
    | false =>
      have hkept : t.kept (m :: msgs) = m :: t.kept msgs := by simp [kept, hdrops]
      rw [hkept] at hempty ⊢
      rw [eachBytes, if_neg (by simp [hdrops]), List.length_cons, readTags]
      intro h
      obtain ⟨r, hr, h⟩ := Option.bind_eq_some_iff.mp h
      obtain ⟨tags, htags, h⟩ := Option.map_eq_some_iff.mp h
      obtain ⟨hhead, hrest⟩ := Prod.mk.inj h
      obtain ⟨hfirst, hothers⟩ := List.cons.inj hhead
      by_cases hpos : 0 < m.payload.length
      · -- the tag is read back, and its header is the one for an empty tag to come
        rw [if_pos hpos] at hr
        have hread := readTag_flvBytes (hsize m List.mem_cons_self) (t.eachBytes m.flvHeader msgs)
        simp only [SharedPtrMessage.flvBytes, List.append_assoc] at hread
        rw [hread] at hr
        obtain rfl := Option.some.inj hr
        have hlater : ∃ m' ∈ t.kept msgs, m'.payload = [] := by
          obtain ⟨m', hm', hnil⟩ := hempty
          cases List.mem_cons.mp hm' with
          | inl hm =>
            rw [hm] at hnil
            rw [hnil] at hpos
            exact absurd hpos (by simp)
          | inr hin => exact ⟨m', hin, hnil⟩
        apply ih (Stale.flvHeader hpos (hsize m List.mem_cons_self)) hsize' hlater
        rw [htags, ← hothers, ← hrest]
      · -- the empty tag
        rw [if_neg hpos] at hr
        obtain ⟨htype, hdata⟩ := readTag_of_header hheader.length_eq hr
        have hnil : m.payload = [] := List.eq_nil_of_length_eq_zero (by omega)
        rw [hfirst] at htype hdata
        cases hheader.fields with
        | inl hnone =>
          rw [hnone] at htype
          have hzero : m.frameType = 0 := htype
          rcases frameType_cases m with h8 | h9 | h18 <;> simp_all
        | inr hsome =>
          rw [← hdata] at hsome
          exact hpos hsome

/-! ## Every list of messages -/

/-- The tags written one by one are read back: types, payloads, times, and sizes. -/
def RoundTrip (t : FlvTransmuxer) (msgs : List SharedPtrMessage) : Prop :=
  ∃ bytes, (t.writeEach msgs).written = t.written ++ bytes ∧
    readTags (t.kept msgs).length bytes = some ((t.kept msgs).map SharedPtrMessage.flvTag, [])

/-- The batch writes what the single calls write. -/
def BatchSame (fresh : ℕ → UInt8) (t : FlvTransmuxer) (msgs : List SharedPtrMessage) : Prop :=
  ∃ t', t.writeTags fresh msgs = some t' ∧ t'.written = (t.writeEach msgs).written

/-- Whatever a transmuxer has written before and whatever is in its memory: the tags are read back,
and the batch is the same as the single calls, exactly if no tag that is written is empty. -/
theorem faithful_iff (u : FlvTransmuxer) (msgs : List SharedPtrMessage)
    (hsize : ∀ m ∈ msgs, m.payload.length < 16777216) :
    ((∀ t, SameHeader t u → t.RoundTrip msgs) ↔ ∀ m ∈ u.kept msgs, m.payload ≠ []) ∧
    ((∀ fresh t, SameHeader t u → t.BatchSame fresh msgs) ↔
      ∀ m ∈ u.kept msgs, m.payload ≠ []) := by
  have hkept : ∀ t, SameHeader t u → t.kept msgs = u.kept msgs := by
    intro t ht
    unfold kept
    exact List.filter_congr fun m _ => by rw [ht.drops m]
  have hread : readTags (u.kept msgs).length ((u.kept msgs).flatMap SharedPtrMessage.flvBytes) =
      some ((u.kept msgs).map SharedPtrMessage.flvTag, []) := by
    have hsize' : ∀ m ∈ u.kept msgs, m.payload.length < 16777216 :=
      fun m hm => hsize m (List.mem_of_mem_filter hm)
    have h := readTags_flvBytes hsize' []
    rwa [List.append_nil] at h
  have hwritten : ∀ t, SameHeader t u → (∀ m ∈ u.kept msgs, m.payload ≠ []) →
      (t.writeEach msgs).written =
        t.written ++ (u.kept msgs).flatMap SharedPtrMessage.flvBytes := by
    intro t ht hne
    rw [writeEach_written ht, eachBytes_eq u _ hne]
  -- a new transmuxer with the same header, whose memory has zeros in it
  let zero := ((new fun _ => 0).setDropIfNotMatch u.dropIfNotMatch).writeHeader u.hasVideo u.hasAudio
  have hzero : SameHeader zero u := ⟨rfl, rfl, rfl⟩
  have hstale : Stale zero.tagHeader := Stale.zero
  have hmisread : ∀ bytes, (zero.writeEach msgs).written = zero.written ++ bytes →
      readTags (u.kept msgs).length bytes =
        some ((u.kept msgs).map SharedPtrMessage.flvTag, []) →
      ∀ m ∈ u.kept msgs, m.payload ≠ [] := by
    intro bytes hbytes htags m hm hnil
    rw [writeEach_written hzero, List.append_cancel_left_eq] at hbytes
    rw [← hbytes] at htags
    exact readTags_eachBytes_ne u hstale hsize ⟨m, hm, hnil⟩ [] htags
  refine ⟨⟨?_, ?_⟩, ?_, ?_⟩
  · intro h
    obtain ⟨bytes, hbytes, htags⟩ := h zero hzero
    rw [hkept zero hzero] at htags
    exact hmisread bytes hbytes htags
  · intro hne t ht
    refine ⟨_, hwritten t ht hne, ?_⟩
    rw [hkept t ht]
    exact hread
  · intro h
    obtain ⟨t', hrun, hsame⟩ := h (fun _ => 0) zero hzero
    obtain ⟨t'', hrun', hbatch⟩ := writeTags_run (fun _ => 0) zero msgs
    rw [hrun] at hrun'
    obtain rfl := Option.some.inj hrun'
    rw [hkept zero hzero] at hbatch
    exact hmisread _ (hsame ▸ hbatch) hread
  · intro hne fresh t ht
    obtain ⟨t', hrun, hbatch⟩ := writeTags_run fresh t msgs
    refine ⟨t', hrun, ?_⟩
    rw [hbatch, hkept t ht, hwritten t ht hne]

/-- A key frame, metadata, and a frame of sound. -/
def frames : List SharedPtrMessage :=
  [⟨6, 1000, 9, 1, [0x17, 1]⟩, ⟨5, 0, 18, 1, [2, 0, 0]⟩, ⟨7, 1020, 8, 1, [0xAF, 1]⟩]

/-- Of a stream without sound two tags are written, alone or in a batch, and read back. -/
theorem faithful_frames :
    ((new UInt8.ofNat).writeHeader true false).RoundTrip frames ∧
      ((new UInt8.ofNat).writeHeader true false).BatchSame UInt8.ofNat frames := by
  have hiff := faithful_iff ((new UInt8.ofNat).writeHeader true false) frames (by decide)
  have hkept : ∀ m ∈ ((new UInt8.ofNat).writeHeader true false).kept frames, m.payload ≠ [] := by
    have heq : ((new UInt8.ofNat).writeHeader true false).kept frames = frames.take 2 := rfl
    rw [heq]
    decide
  exact ⟨hiff.1.mpr hkept _ ⟨rfl, rfl, rfl⟩, hiff.2.mpr hkept UInt8.ofNat _ ⟨rfl, rfl, rfl⟩⟩

/-- A frame, and an empty frame of sound: the second tag goes out as another video tag of the size
of the first. -/
theorem empty_tag_misread :
    ¬ ((new fun _ => 0).writeHeader true true).RoundTrip
      [⟨6, 1000, 9, 1, [0x17, 1]⟩, ⟨7, 1020, 8, 1, []⟩] := by
  rintro ⟨bytes, hbytes, htags⟩
  rw [writeEach_written ⟨rfl, rfl, rfl⟩, List.append_cancel_left_eq] at hbytes
  rw [← hbytes] at htags
  revert htags
  decide

end FlvTransmuxer

end SrsChatRoom.Protocol
