import SrsChatRoom.Kernel.BufferRules

/-!
# Aggregate messages (`SrsLiveSource::on_aggregate`, `srs_app_source.cpp`)

The payload of an aggregate message is a list of tags of audio and video, each with a header and the
size of the tag behind it. Their timestamps are shifted so that the first is that of the message.
The shift is computed with the first tag and remembered; but -1 means that it is not known, so a
shift of -1 is computed again with each tag (`splits_exactly_iff`).

What the audio and video messages are given to is a parameter that may refuse each of them.
-/

namespace SrsChatRoom.App.Aggregate

open SrsChatRoom.Kernel SrsBuffer

/-- What is used of `SrsMessageHeader` of the aggregate message. -/
structure MessageHeader where
  timestamp : ℤ
  preferCid : ℤ
deriving DecidableEq, Repr

/-- `SrsCommonMessage`. The size is that of the payload. -/
structure CommonMessage where
  messageType : ℤ
  payloadLength : ℤ
  timestampDelta : ℤ
  timestamp : ℤ
  streamId : ℤ
  preferCid : ℤ
  payload : List UInt8
deriving DecidableEq, Repr

/-- `is_audio()` -/
def CommonMessage.isAudio (o : CommonMessage) : Bool := o.messageType = 8

/-- `is_video()` -/
def CommonMessage.isVideo (o : CommonMessage) : Bool := o.messageType = 9

/-- An `int` of this value. -/
def toInt32 (x : ℤ) : ℤ := Int.bmod x (2 ^ 32)

/-- The low 24 bits and `time_h`, which is a signed byte, as a timestamp of 31 bits. -/
def tagTimestamp (low high : ℕ) : ℕ :=
  ((BitVec.ofNat 32 low ||| (BitVec.ofNat 8 high).signExtend 32 <<< 24) &&&
    BitVec.ofNat 32 0x7FFFFFFF).toNat

/-- The shift behind a tag. -/
def shift (header : MessageHeader) (delta : ℤ) (timestamp : ℕ) : ℤ :=
  if delta = -1 then toInt32 (toInt32 header.timestamp - timestamp) else delta

/-- `if (data_size > 0 && !stream->require(data_size)) return ...` -/
def checkData (dataSize : ℕ) : Dec Unit :=
  if 0 < dataSize then checkRequire dataSize .rtmpAggregate "aggregate data" else pure ()

/-- The payload of the message, which is left out when it is empty. -/
def readData (dataSize : ℕ) : Dec (List UInt8) :=
  if 0 < dataSize then readBytes dataSize else pure []

/-- One tag, up to the size behind it. The three bytes of `data_size` are never negative. -/
def readTag (header : MessageHeader) (delta : ℤ) : Dec (CommonMessage × ℤ) := do
  checkRequire 1 .rtmpAggregate "aggregate"
  let type ← readUint 1
  checkRequire 3 .rtmpAggregate "aggregate"
  let dataSize ← readUint 3
  checkRequire 3 .rtmpAggregate "aggregate time"
  let low ← readUint 3
  checkRequire 1 .rtmpAggregate "aggregate time(high bits)"
  let high ← readUint 1
  let delta := shift header delta (tagTimestamp low high)
  let timestamp := toInt32 (tagTimestamp low high + delta)
  checkRequire 3 .rtmpAggregate "aggregate stream id"
  let streamId ← readUint 3
  checkData dataSize
  let payload ← readData dataSize
  checkRequire 4 .rtmpAggregate "aggregate previous tag size"
  let _ ← readUint 4
  return ({ messageType := Int.bmod type 256
            payloadLength := dataSize
            timestampDelta := timestamp
            timestamp := timestamp
            streamId := streamId
            preferCid := header.preferCid
            payload := payload }, delta)

/-- What `on_audio` and `on_video` return for a message, after those that they were given before. -/
abbrev Consumer : Type := List CommonMessage → CommonMessage → Option SrsError

/-- Give a message to `on_audio` or `on_video`. The state is what they were given. -/
def handOn (consume : Consumer) (o : CommonMessage) : Prog (List CommonMessage) SrsError Unit :=
  fun handed =>
    if o.isAudio then
      match consume handed o with
      | none => .ok () (handed ++ [o])
      | some e => .err (srsErrorWrap "consume audio" e) (handed ++ [o])
    else if o.isVideo then
      match consume handed o with
      | none => .ok () (handed ++ [o])
      | some e => .err (srsErrorWrap "consume video" e) (handed ++ [o])
    else .ok () handed

/-- The loop over the tags. -/
def loop (consume : Consumer) (header : MessageHeader) :
    ℕ → ℤ → SrsBuffer → Prog (List CommonMessage) SrsError Unit
  | 0, _, _ => fun _ => .hang
  | fuel + 1, delta, stream =>
    if stream.empty then pure ()
    else
      match readTag header delta stream with
      | .ok (o, delta) stream => do
        handOn consume o
        loop consume header fuel delta stream
      | .err e _ => Prog.throw e
      | .fault => fun _ => .fault
      | .hang => fun _ => .hang

/-- `on_aggregate(msg)` -/
def onAggregate (consume : Consumer) (header : MessageHeader) (payload : List UInt8) :
    Prog (List CommonMessage) SrsError Unit :=
  loop consume header (payload.length + 1) (-1) ⟨payload, 0⟩

/-! ## Aggregates -/

/-- A tag of audio or video. -/
structure Tag where
  video : Bool
  payload : List UInt8
  timestamp : ℕ
  streamId : ℕ
  payload_lt : payload.length < 2 ^ 24
  timestamp_lt : timestamp < 2 ^ 31
  streamId_lt : streamId < 2 ^ 24

namespace Tag

def type (tag : Tag) : ℕ := if tag.video then 9 else 8

/-- The tag in an aggregate message: its header, the payload, and the size of both. -/
def encode (tag : Tag) : List UInt8 :=
  bytesBE 1 tag.type ++ (bytesBE 3 tag.payload.length ++ (bytesBE 3 tag.timestamp ++
    (bytesBE 1 (tag.timestamp / 2 ^ 24) ++ (bytesBE 3 tag.streamId ++ (tag.payload ++
      bytesBE 4 (11 + tag.payload.length))))))

/-- The tag as a message of its own. -/
def message (tag : Tag) (preferCid timestamp : ℤ) : CommonMessage where
  messageType := tag.type
  payloadLength := tag.payload.length
  timestampDelta := timestamp
  timestamp := timestamp
  streamId := tag.streamId
  preferCid := preferCid
  payload := tag.payload

end Tag

def encodeTags (tags : List Tag) : List UInt8 := tags.flatMap Tag.encode

/-- From the timestamp of the first tag to that of the message. -/
def offset (header : MessageHeader) : List Tag → ℤ
  | [] => 0
  | first :: _ => header.timestamp - first.timestamp

/-- An aggregate message whose shifted timestamps have 31 bits. -/
structure AggregateMessage where
  header : MessageHeader
  tags : List Tag
  fits : ∀ tag ∈ tags, 0 ≤ tag.timestamp + offset header tags ∧
    tag.timestamp + offset header tags < 2 ^ 31

/-- The messages that the tags are. -/
def AggregateMessage.split (a : AggregateMessage) : List CommonMessage :=
  a.tags.map fun tag => tag.message a.header.preferCid (tag.timestamp + offset a.header a.tags)

/-- Give messages on, one after the other. -/
def handAll (consume : Consumer) : List CommonMessage → Prog (List CommonMessage) SrsError Unit
  | [] => pure ()
  | o :: rest => do
    handOn consume o
    handAll consume rest

/-- Exactly the tags are given on, in their order, up to the first that is refused. -/
def SplitsExactly (a : AggregateMessage) : Prop :=
  ∀ consume, onAggregate consume a.header (encodeTags a.tags) [] = handAll consume a.split []

/-- On every byte string there is a result, or an error, and no assertion fails. -/
def AlwaysReturns : Prop :=
  ∀ consume header payload, (onAggregate consume header payload).Returns []

/-- The shift is not the value that stands for none, or it is the same for each tag. -/
def ShiftKept (a : AggregateMessage) : Prop :=
  offset a.header a.tags = -1 → ∀ tag ∈ a.tags, (tag.timestamp : ℤ) = a.header.timestamp + 1

/-! ## Timestamps -/

theorem toInt32_of_fits {x : ℤ} (h : -2 ^ 31 ≤ x ∧ x < 2 ^ 31) : toInt32 x = x := by
  unfold toInt32
  rw [Int.bmod_def]
  split
  · omega
  · omega

/-- A signed byte in the upper eight bits. -/
theorem signExtend_shiftLeft :
    ∀ high < 256, (BitVec.ofNat 8 high).signExtend 32 <<< 24 = BitVec.ofNat 32 (high * 2 ^ 24) := by
  decide +kernel

theorem tagTimestamp_eq {low high : ℕ} (hlow : low < 2 ^ 24) (hhigh : high < 256) :
    tagTimestamp low high = high % 128 * 2 ^ 24 + low := by
  have hor : low ||| high * 2 ^ 24 = high * 2 ^ 24 + low := by
    rw [Nat.or_comm, Nat.mul_comm, Nat.two_pow_add_eq_or_of_lt hlow]
  have hmask : 0x7FFFFFFF = 2 ^ 31 - 1 := rfl
  unfold tagTimestamp
  rw [signExtend_shiftLeft high hhigh, BitVec.toNat_and, BitVec.toNat_or, BitVec.toNat_ofNat,
    BitVec.toNat_ofNat, BitVec.toNat_ofNat, Nat.mod_eq_of_lt (by omega : low < 2 ^ 32),
    Nat.mod_eq_of_lt (by omega : high * 2 ^ 24 < 2 ^ 32), hor,
    Nat.mod_eq_of_lt (by decide : 0x7FFFFFFF < 2 ^ 32), hmask, Nat.and_two_pow_sub_one_eq_mod]
  omega

theorem Tag.tagTimestamp_eq (tag : Tag) :
    tagTimestamp (tag.timestamp % 256 ^ 3) (tag.timestamp / 2 ^ 24 % 256 ^ 1) = tag.timestamp := by
  have hlt := tag.timestamp_lt
  rw [Aggregate.tagTimestamp_eq (by omega) (by omega)]
  omega

/-! ## One tag -/

/-- A number that is behind a check. -/
theorem reads_checked {n v : ℕ} {α : Type} {f : ℕ → Dec α} {a : α} {message : String}
    {q r : List UInt8} (hf : Reads (f (v % 256 ^ n)) q a r) :
    Reads (do
      checkRequire n .rtmpAggregate message
      let w ← readUint n
      f w) (bytesBE n v ++ q) a r := by
  apply (reads_checkRequire (by simp) _ message).bind
  exact (reads_bytesBE n v q).bind hf

theorem reads_data (data q : List UInt8) {α : Type} {f : List UInt8 → Dec α} {a : α}
    {r : List UInt8} (hf : Reads (f data) q a r) :
    Reads (do
      checkData data.length
      let payload ← readData data.length
      f payload) (data ++ q) a r := by
  unfold checkData readData
  by_cases hsize : 0 < data.length
  · rw [if_pos hsize, if_pos hsize]
    apply (reads_checkRequire (by simp) _ _).bind
    have hread := reads_readBytes (n := data.length) (p := data ++ q) (by simp)
    rw [List.take_left, List.drop_left] at hread
    exact hread.bind hf
  · rw [if_neg hsize, if_neg hsize]
    have hnil : data = [] := List.length_eq_zero_iff.mp (by omega)
    rw [hnil] at hf ⊢
    apply (reads_pure _ ()).bind
    exact (reads_pure _ []).bind hf

/-- What is read from the bytes of a tag. -/
theorem reads_readTag (header : MessageHeader) (delta : ℤ) (tag : Tag) (q : List UInt8) :
    Reads (readTag header delta) (tag.encode ++ q)
      (tag.message header.preferCid
        (toInt32 (tag.timestamp + shift header delta tag.timestamp)),
        shift header delta tag.timestamp) q := by
  have htype : Int.bmod ((tag.type % 256 ^ 1 : ℕ) : ℤ) 256 = tag.type := by
    unfold Tag.type
    split
    · decide
    · decide
  have hpayload := tag.payload_lt
  have hstream := tag.streamId_lt
  unfold readTag Tag.encode
  rw [List.append_assoc, List.append_assoc, List.append_assoc, List.append_assoc,
    List.append_assoc, List.append_assoc]
  apply reads_checked
  apply reads_checked
  apply reads_checked
  apply reads_checked
  dsimp only
  rw [tag.tagTimestamp_eq, htype, Nat.mod_eq_of_lt (by omega : tag.payload.length < 256 ^ 3)]
  apply reads_checked
  apply reads_data
  apply reads_checked
  rw [Nat.mod_eq_of_lt (by omega : tag.streamId < 256 ^ 3)]
  exact reads_pure q _

/-- Whatever the bytes are, a tag is read off them or it is an error. -/
theorem sound_readTag (header : MessageHeader) (delta : ℤ) (p : List UInt8) :
    Sound (readTag header delta) p fun _ q => q.length < p.length := by
  have hchecked : ∀ {n : ℕ} {message : String} {p : List UInt8} {α : Type} {f : ℕ → Dec α}
      {Q : α → List UInt8 → Prop},
      (∀ v q, q.length + n = p.length → Sound (f v) q Q) →
      Sound (do
        checkRequire n .rtmpAggregate message
        let w ← readUint n
        f w) p Q := by
    intro n message p α f Q hf
    apply Sound.bind (P := fun _ q => n ≤ p.length ∧ q = p)
    · exact sound_checkRequire fun hn => ⟨hn, rfl⟩
    · intro _ q hq
      rw [hq.2]
      apply Sound.bind (P := fun _ q => q.length + n = p.length)
      · apply (reads_readUint hq.1).sound
        rw [List.length_drop]
        omega
      · exact hf
  unfold readTag
  apply hchecked
  intro type p₁ h₁
  apply hchecked
  intro dataSize p₂ h₂
  apply hchecked
  intro low p₃ h₃
  apply hchecked
  intro high p₄ h₄
  apply hchecked
  intro streamId p₅ h₅
  apply Sound.bind (P := fun _ q => dataSize ≤ p₅.length ∧ q = p₅)
  · unfold checkData
    by_cases hsize : 0 < dataSize
    · rw [if_pos hsize]
      exact sound_checkRequire fun hn => ⟨hn, rfl⟩
    · rw [if_neg hsize]
      exact sound_pure ⟨by omega, rfl⟩
  · intro _ p₆ h₆
    apply Sound.bind (P := fun _ q => q.length ≤ p₆.length)
    · unfold readData
      by_cases hsize : 0 < dataSize
      · rw [if_pos hsize]
        apply (reads_readBytes (by rw [h₆.2]; exact h₆.1)).sound
        rw [List.length_drop]
        omega
      · rw [if_neg hsize]
        exact sound_pure (Nat.le_refl _)
    · intro payload p₇ h₇
      apply hchecked
      intro _ p₈ h₈
      apply sound_pure
      have hlast : p₈.length + 4 = p₇.length := h₈
      rw [h₆.2] at h₇
      omega

/-! ## The loop -/

theorem returns_handOn (consume : Consumer) (o : CommonMessage) (handed : List CommonMessage) :
    (handOn consume o).Returns handed := by
  unfold handOn Prog.Returns Prog.Safe
  dsimp only
  cases o.isAudio with
  | true =>
    rw [if_pos rfl]
    cases consume handed o with
    | none => trivial
    | some e => trivial
  | false =>
    rw [if_neg Bool.false_ne_true]
    cases o.isVideo with
    | true =>
      rw [if_pos rfl]
      cases consume handed o with
      | none => trivial
      | some e => trivial
    | false =>
      rw [if_neg Bool.false_ne_true]
      trivial

theorem returns_loop (consume : Consumer) (header : MessageHeader) (fuel : ℕ) (delta : ℤ)
    (stream : SrsBuffer) (hpos : stream.pos ≤ stream.bytes.length)
    (hfuel : stream.rest.length < fuel) (handed : List CommonMessage) :
    (loop consume header fuel delta stream).Returns handed := by
  induction fuel generalizing delta stream handed with
  | zero => omega
  | succ fuel ih =>
    rw [loop]
    cases hempty : stream.empty with
    | true =>
      rw [if_pos rfl]
      exact Prog.Safe.pure trivial
    | false =>
      rw [if_neg Bool.false_ne_true]
      have htag := sound_readTag header delta stream.rest stream hpos rfl
      cases hrun : readTag header delta stream with
      | ok value stream' =>
        rw [hrun] at htag
        apply Prog.Safe.bind
        apply (returns_handOn consume value.1 handed).mono
        intro _ handed' _
        exact ih value.2 stream' htag.1.2 (by omega) handed'
      | err e stream' => exact Prog.Safe.throw e handed _
      | fault =>
        rw [hrun] at htag
        exact htag.elim
      | hang =>
        rw [hrun] at htag
        exact htag.elim

theorem alwaysReturns : AlwaysReturns := by
  intro consume header payload
  apply returns_loop
  · exact Nat.zero_le _
  · exact Nat.lt_succ_self _

/-- The messages that come out of some tags. -/
def messages (header : MessageHeader) : ℤ → List Tag → List CommonMessage
  | _, [] => []
  | delta, tag :: rest =>
    tag.message header.preferCid (toInt32 (tag.timestamp + shift header delta tag.timestamp)) ::
      messages header (shift header delta tag.timestamp) rest

theorem length_encode (tag : Tag) : tag.encode.length = 15 + tag.payload.length := by
  unfold Tag.encode
  simp only [List.length_append, length_bytesBE]
  omega

theorem loop_encodeTags (consume : Consumer) (header : MessageHeader) (fuel : ℕ) (delta : ℤ)
    (tags : List Tag) (stream : SrsBuffer) (hpos : stream.pos ≤ stream.bytes.length)
    (hrest : stream.rest = encodeTags tags) (hfuel : stream.rest.length < fuel) :
    loop consume header fuel delta stream = handAll consume (messages header delta tags) := by
  induction tags generalizing fuel delta stream with
  | nil =>
    cases fuel with
    | zero => omega
    | succ fuel =>
      rw [loop, empty_eq, hrest]
      rfl
  | cons tag rest ih =>
    cases fuel with
    | zero => omega
    | succ fuel =>
      have hbytes : stream.rest = tag.encode ++ encodeTags rest := hrest
      have hlength : stream.rest.length = 15 + tag.payload.length + (encodeTags rest).length := by
        rw [hbytes, List.length_append, length_encode]
      have hempty : stream.empty = false := by
        rw [empty_eq, decide_eq_false_iff_not]
        intro hnil
        rw [hnil, List.length_nil] at hlength
        omega
      obtain ⟨stream', hrun, hinside, hleft⟩ :=
        reads_readTag header delta tag (encodeTags rest) stream hpos hbytes
      rw [loop, hempty, if_neg Bool.false_ne_true, hrun, messages, handAll]
      dsimp only
      rw [ih fuel _ stream' hinside.2 hleft (by rw [hleft]; omega)]

theorem onAggregate_encodeTags (consume : Consumer) (header : MessageHeader) (tags : List Tag) :
    onAggregate consume header (encodeTags tags) = handAll consume (messages header (-1) tags) := by
  apply loop_encodeTags
  · exact Nat.zero_le _
  · rfl
  · exact Nat.lt_succ_self _

/-- When nothing is refused, everything is given on. -/
theorem handAll_accept (msgs : List CommonMessage) (hav : ∀ o ∈ msgs, o.isAudio || o.isVideo)
    (handed : List CommonMessage) :
    handAll (fun _ _ => none) msgs handed = .ok () (handed ++ msgs) := by
  induction msgs generalizing handed with
  | nil =>
    rw [List.append_nil]
    rfl
  | cons o rest ih =>
    have hone : handOn (fun _ _ => none) o handed = .ok () (handed ++ [o]) := by
      unfold handOn
      cases haudio : o.isAudio with
      | true => rfl
      | false =>
        have hvideo := hav o List.mem_cons_self
        rw [haudio, Bool.false_or] at hvideo
        rw [hvideo]
        rfl
    rw [handAll, Prog.bind_ok hone, ih fun o' ho' => hav o' (List.mem_cons_of_mem o ho'),
      List.append_assoc]
    rfl

theorem Tag.isAv (tag : Tag) (preferCid timestamp : ℤ) :
    ((tag.message preferCid timestamp).isAudio || (tag.message preferCid timestamp).isVideo) =
      true := by
  unfold CommonMessage.isAudio CommonMessage.isVideo Tag.message Tag.type
  cases tag.video with
  | true => rfl
  | false => rfl

theorem messages_isAv (header : MessageHeader) (delta : ℤ) (tags : List Tag) :
    ∀ o ∈ messages header delta tags, o.isAudio || o.isVideo := by
  induction tags generalizing delta with
  | nil => exact fun o ho => absurd ho List.not_mem_nil
  | cons tag rest ih =>
    intro o ho
    rw [messages, List.mem_cons] at ho
    cases ho with
    | inl heq =>
      rw [heq]
      exact tag.isAv _ _
    | inr hrest => exact ih _ o hrest

/-- The messages are what is given on, so they must be those of the tags. -/
theorem splitsExactly_iff_messages (a : AggregateMessage) :
    SplitsExactly a ↔ messages a.header (-1) a.tags = a.split := by
  unfold SplitsExactly
  constructor
  · intro h
    have haccept := h fun _ _ => none
    have hsplit : ∀ o ∈ a.split, o.isAudio || o.isVideo := by
      intro o ho
      obtain ⟨tag, -, htag⟩ := List.mem_map.mp ho
      rw [← htag]
      exact tag.isAv _ _
    rw [onAggregate_encodeTags, handAll_accept _ (messages_isAv _ _ _), handAll_accept _ hsplit]
      at haccept
    exact (Outcome.ok.inj haccept).2
  · intro h consume
    rw [onAggregate_encodeTags, h]

/-! ## The shift -/

variable {header : MessageHeader}

/-- A shift that is known stays. -/
theorem messages_of_known {delta : ℤ} (hknown : delta ≠ -1) {tags : List Tag}
    (hfits : ∀ tag ∈ tags, 0 ≤ tag.timestamp + delta ∧ tag.timestamp + delta < 2 ^ 31) :
    messages header delta tags =
      tags.map fun tag => tag.message header.preferCid (tag.timestamp + delta) := by
  induction tags with
  | nil => rfl
  | cons tag rest ih =>
    have hshift : shift header delta tag.timestamp = delta := if_neg hknown
    have hfirst := hfits tag List.mem_cons_self
    rw [messages, hshift, toInt32_of_fits (by omega), List.map_cons,
      ih fun tag' htag' => hfits tag' (List.mem_cons_of_mem tag htag')]

theorem message_inj {tag : Tag} {preferCid x y : ℤ}
    (h : tag.message preferCid x = tag.message preferCid y) : x = y :=
  congrArg CommonMessage.timestamp h

/-- A shift of -1 is computed for each tag, as if it were the first. -/
theorem messages_of_unknown
    (hheader : 0 ≤ header.timestamp ∧ header.timestamp < 2 ^ 31) {tags : List Tag}
    (hfits : ∀ tag ∈ tags, 0 ≤ (tag.timestamp : ℤ) + -1 ∧ (tag.timestamp : ℤ) + -1 < 2 ^ 31) :
    messages header (-1) tags =
        tags.map (fun tag => tag.message header.preferCid (tag.timestamp + -1)) ↔
      ∀ tag ∈ tags, (tag.timestamp : ℤ) = header.timestamp + 1 := by
  induction tags with
  | nil => exact iff_of_true rfl fun tag htag => absurd htag List.not_mem_nil
  | cons tag rest ih =>
    have hlt := tag.timestamp_lt
    have hshift : shift header (-1) tag.timestamp = header.timestamp - tag.timestamp := by
      unfold shift
      rw [if_pos rfl, toInt32_of_fits (x := header.timestamp) (by omega),
        toInt32_of_fits (by omega)]
    have htime : (tag.timestamp : ℤ) + (header.timestamp - tag.timestamp) = header.timestamp := by
      omega
    rw [messages, hshift, htime, toInt32_of_fits (by omega), List.map_cons, List.forall_mem_cons,
      List.cons.injEq]
    by_cases hsame : (tag.timestamp : ℤ) = header.timestamp + 1
    · have hunknown : header.timestamp - tag.timestamp = -1 := by omega
      have hfirst : header.timestamp = tag.timestamp + -1 := by omega
      rw [hunknown, ih fun tag' htag' => hfits tag' (List.mem_cons_of_mem tag htag'), ← hfirst]
      exact and_congr (iff_of_true rfl hsame) Iff.rfl
    · apply iff_of_false
      · intro h
        have heq := message_inj h.1
        omega
      · intro h
        exact hsame h.1

/-- An aggregate message is split exactly when its shift is kept; and on every byte string there is
a result or an error. -/
theorem splits_exactly_iff (a : AggregateMessage) :
    (SplitsExactly a ∧ AlwaysReturns) ↔ ShiftKept a := by
  rw [and_iff_left alwaysReturns, splitsExactly_iff_messages]
  unfold ShiftKept AggregateMessage.split
  have hfits := a.fits
  cases htags : a.tags with
  | nil => exact iff_of_true rfl fun _ tag htag => absurd htag List.not_mem_nil
  | cons first rest =>
    rw [htags] at hfits
    have hoffset : offset a.header (first :: rest) = a.header.timestamp - first.timestamp := rfl
    have hfirst := hfits first List.mem_cons_self
    rw [hoffset] at hfits hfirst ⊢
    have hheader : 0 ≤ a.header.timestamp ∧ a.header.timestamp < 2 ^ 31 := by omega
    by_cases hsentinel : a.header.timestamp - first.timestamp = -1
    · rw [hsentinel] at hfits ⊢
      rw [messages_of_unknown hheader hfits]
      exact ⟨fun h _ => h, fun h => h rfl⟩
    · have hlt := first.timestamp_lt
      have hshift : shift a.header (-1) first.timestamp =
          a.header.timestamp - first.timestamp := by
        unfold shift
        rw [if_pos rfl, toInt32_of_fits (x := a.header.timestamp) (by omega),
          toInt32_of_fits (by omega)]
      apply iff_of_true _ fun h => absurd h hsentinel
      rw [messages, hshift, messages_of_known hsentinel
        fun tag htag => hfits tag (List.mem_cons_of_mem first htag), toInt32_of_fits (by omega)]
      rfl

/-- A message at 0 with two audio tags at 1 and at 2. -/
def twoAudios : AggregateMessage where
  header := ⟨0, 7⟩
  tags := [⟨false, [], 1, 0, by decide, by decide, by decide⟩,
    ⟨false, [], 2, 0, by decide, by decide, by decide⟩]
  fits := by decide

/-- The second tag comes out at 0, as the first, and not at 1. -/
theorem two_audios_at_the_same_time :
    (∃ handed, onAggregate (fun _ _ => none) twoAudios.header (encodeTags twoAudios.tags) [] =
      .ok () handed ∧ handed.map CommonMessage.timestamp = [0, 0]) ∧
      twoAudios.split.map CommonMessage.timestamp = [0, 1] ∧ ¬SplitsExactly twoAudios := by
  have hrun := handAll_accept _ (messages_isAv twoAudios.header (-1) twoAudios.tags) []
  have htimes : (messages twoAudios.header (-1) twoAudios.tags).map CommonMessage.timestamp =
      [0, 0] := by decide +kernel
  have hsplit : twoAudios.split.map CommonMessage.timestamp = [0, 1] := by decide +kernel
  apply And.intro
  · apply Exists.intro (messages twoAudios.header (-1) twoAudios.tags)
    rw [onAggregate_encodeTags]
    exact ⟨hrun, htimes⟩
  · apply And.intro hsplit
    intro h
    rw [splitsExactly_iff_messages] at h
    rw [h, hsplit] at htimes
    exact absurd htimes (by decide)

end SrsChatRoom.App.Aggregate
