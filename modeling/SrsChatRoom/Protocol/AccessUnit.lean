import SrsChatRoom.Kernel.TsMessageCache
import SrsChatRoom.Protocol.RawAvc

/-!
# Access units of H.264 (`do_cache_avc` and `annexb_demux`)

The samples of a frame are written as an access unit and read back by the demuxer of raw streams:
`access_unit` says which NALUs that are. The flags of the frame, which are noted while its samples
are added, decide what is inserted.
-/

namespace SrsChatRoom.Protocol.AccessUnit

open SrsChatRoom.Kernel SrsBuffer
open RawAvc (annexb)

/-! ## Frames -/

/-- A NALU, or an empty sample. -/
structure Nalu where
  bytes : List UInt8
  noCode : ¬[0, 0, 1] <:+: bytes
  noTrailing : bytes.getLast? ≠ some 0

/-- The parameter sets of a codec. -/
structure ParameterSets where
  sps : Nalu
  pps : Nalu
  sps_ne : sps.bytes ≠ []
  pps_ne : pps.bytes ≠ []

def ParameterSets.codec (sets : ParameterSets) : SrsVideoCodecConfig :=
  ⟨sets.sps.bytes, sets.pps.bytes⟩

/-- The samples are added one after the other. -/
def addSamples : List (List UInt8) → Demux Unit
  | [] => return ()
  | sample :: samples => do
    addSample sample
    addSamples samples

/-- `SrsVideoFrame::initialize` -/
def emptyFrame : VideoFrame := ⟨[], false, false, false, 0⟩

/-- A frame of H.264 to which samples have been added. -/
structure AddedFrame where
  samples : List Nalu
  start : Format
  start_frame : start.video = emptyFrame
  start_codec : start.vcodec.id = .avc
  format : Format
  added : addSamples (samples.map Nalu.bytes) start = .ok () format

/-- The samples that are there. -/
def AddedFrame.nalus (f : AddedFrame) : List (List UInt8) :=
  (f.samples.map Nalu.bytes).filter (· ≠ [])

/-! ## What is to come out -/

def naluType (nalu : List UInt8) : UInt8 := nalu.getD 0 0 &&& 0x1f

def isIdr (nalu : List UInt8) : Bool := naluType nalu == 5

def isAud (nalu : List UInt8) : Bool := naluType nalu == 9

def isParameterSet (nalu : List UInt8) : Bool := naluType nalu == 7 || naluType nalu == 8

/-- The parameter sets in front of the first IDR. -/
def withParameterSets (sets : ParameterSets) (nalus : List (List UInt8)) : List (List UInt8) :=
  nalus.takeWhile (fun nalu => !isIdr nalu) ++
    (if nalus.any isIdr then [sets.sps.bytes, sets.pps.bytes] else []) ++
    nalus.dropWhile (fun nalu => !isIdr nalu)

/-- The access unit of the samples of a frame. -/
def accessUnit (sets : ParameterSets) (nalus : List (List UInt8)) : List (List UInt8) :=
  (if nalus.any isAud then [] else [defaultAudNalu]) ++
    if nalus.any isParameterSet then nalus else withParameterSets sets nalus

/-! ## The flags -/

theorem addSamples_run {samples : List (List UInt8)} {start format : Format}
    (hid : start.vcodec.id = .avc) (h : addSamples samples start = .ok () format) :
    format.video.samples = start.video.samples ++ samples.filter (· ≠ []) ∧
      format.video.hasAud = (start.video.hasAud || (samples.filter (· ≠ [])).any isAud) ∧
      format.video.hasSpsPps =
        (start.video.hasSpsPps || (samples.filter (· ≠ [])).any isParameterSet) := by
  induction samples generalizing start with
  | nil =>
    cases h
    simp
  | cons sample samples ih =>
    rw [addSamples] at h
    obtain ⟨_, next, hone, hmore⟩ := Prog.ok_of_bind_ok h
    unfold addSample at hone
    split at hone
    · next hempty =>
      cases hone
      have hfilter : (sample :: samples).filter (· ≠ []) = samples.filter (· ≠ []) := by
        rw [hempty]
        rfl
      rw [hfilter]
      exact ih hid hmore
    · next hne =>
      split at hone
      · cases hone
      · cases hone
        have hfilter : (sample :: samples).filter (· ≠ []) = sample :: samples.filter (· ≠ []) :=
          List.filter_cons_of_pos (decide_eq_true hne)
        have hnext : ({ start with video := start.video.push start.vcodec.id sample } :
            Format).vcodec.id = .avc := hid
        obtain ⟨hsamples, haud, hsets⟩ := ih hnext hmore
        have hcodec : ¬start.vcodec.id = .hevc := by
          rw [hid]
          decide
        have hpush : start.video.push start.vcodec.id sample =
            { samples := start.video.samples ++ [sample]
              hasIdr := start.video.hasIdr || isIdr sample
              hasAud := start.video.hasAud || isAud sample
              hasSpsPps := start.video.hasSpsPps || naluType sample == 7 || naluType sample == 8
              firstNaluType := if start.video.firstNaluType = 0 then naluType sample
                else start.video.firstNaluType } := by
          rw [VideoFrame.push, VideoFrame.note, if_neg hcodec]
          rfl
        rw [hpush] at hsamples haud hsets
        rw [hfilter, hsamples, haud, hsets, List.any_cons, List.any_cons, List.append_assoc,
          Bool.or_assoc, Bool.or_assoc, Bool.or_assoc, isParameterSet, Bool.or_assoc]
        exact ⟨rfl, rfl, rfl⟩

/-! ## The payload -/

/-- NALUs with start codes of four bytes. -/
def naluStream (nalus : List (List UInt8)) : List UInt8 := annexb (nalus.map fun nalu => (1, nalu))

theorem naluStream_append (a b : List (List UInt8)) :
    naluStream (a ++ b) = naluStream a ++ naluStream b := by
  rw [naluStream, List.map_append]
  exact List.flatMap_append

theorem naluStream_cons (nalu : List UInt8) (nalus : List (List UInt8)) :
    naluStream (nalu :: nalus) = naluStream [nalu] ++ naluStream nalus :=
  naluStream_append [nalu] nalus

theorem length_le_naluStream (nalus : List (List UInt8)) :
    nalus.length ≤ (naluStream nalus).length := by
  induction nalus with
  | nil => exact Nat.zero_le _
  | cons nalu nalus ih =>
    have hone : naluStream [nalu] = [0, 0, 0, 1] ++ nalu := List.append_nil _
    rw [naluStream_cons, hone, List.length_append, List.length_append, List.length_cons]
    show _ ≤ 4 + nalu.length + _
    omega

theorem appendNalu_run (nalu payload : List UInt8) :
    appendNalu nalu payload = .ok () (payload ++ naluStream [nalu]) := by
  have hone : naluStream [nalu] = [0, 0, 0, 1] ++ nalu := List.append_nil _
  rw [hone, ← List.append_assoc]
  rfl

theorem appendParameterSet_run {nalu : List UInt8} (hne : nalu ≠ []) (payload : List UInt8) :
    appendParameterSet nalu payload = .ok () (payload ++ naluStream [nalu]) := by
  rw [appendParameterSet, Prog.optional, if_pos (decide_eq_true hne)]
  exact appendNalu_run nalu payload

section Samples

variable (sets : ParameterSets) {nalu : List UInt8} {nalus : List (List UInt8)}

theorem withParameterSets_idr (h : isIdr nalu = true) :
    withParameterSets sets (nalu :: nalus) =
      [sets.sps.bytes] ++ ([sets.pps.bytes] ++ (nalu :: nalus)) := by
  simp [withParameterSets, h]

theorem withParameterSets_other (h : isIdr nalu = false) :
    withParameterSets sets (nalu :: nalus) = nalu :: withParameterSets sets nalus := by
  simp [withParameterSets, h]

/-- Once the parameter sets are there, or when the samples bring them, the samples are written as
they are. -/
theorem cacheSamples_plain {hasSpsPps isSpsPpsAppended : Bool}
    (hflag : hasSpsPps = true ∨ isSpsPpsAppended = true) (hne : ∀ nalu ∈ nalus, nalu ≠ [])
    (payload : List UInt8) : cacheSamples sets.codec hasSpsPps isSpsPpsAppended nalus payload =
      .ok () (payload ++ naluStream nalus) := by
  induction nalus generalizing payload with
  | nil => exact congrArg (Outcome.ok ()) (List.append_nil payload).symm
  | cons nalu nalus ih =>
    cases nalu with
    | nil => exact absurd rfl (hne [] List.mem_cons_self)
    | cons header bytes =>
      have hnot : ¬(header &&& 0x1f = 5 ∧ hasSpsPps = false ∧ isSpsPpsAppended = false) := by
        intro h
        cases hflag with
        | inl hset => exact absurd (hset.symm.trans h.2.1) (by decide)
        | inr hset => exact absurd (hset.symm.trans h.2.2) (by decide)
      rw [cacheSamples, if_neg hnot, Prog.bind_ok (appendNalu_run _ _),
        ih (fun nalu hnalu => hne nalu (List.mem_cons_of_mem _ hnalu)), naluStream_cons _ nalus,
        List.append_assoc]

/-- Otherwise they are inserted in front of the first IDR. -/
theorem cacheSamples_inserts (hne : ∀ nalu ∈ nalus, nalu ≠ []) (payload : List UInt8) :
    cacheSamples sets.codec false false nalus payload =
      .ok () (payload ++ naluStream (withParameterSets sets nalus)) := by
  induction nalus generalizing payload with
  | nil => exact congrArg (Outcome.ok ()) (List.append_nil payload).symm
  | cons nalu nalus ih =>
    have hmore : ∀ nalu ∈ nalus, nalu ≠ [] :=
      fun nalu hnalu => hne nalu (List.mem_cons_of_mem _ hnalu)
    cases nalu with
    | nil => exact absurd rfl (hne [] List.mem_cons_self)
    | cons header bytes =>
      by_cases hidr : header &&& 0x1f = 5
      · have hfirst : isIdr (header :: bytes) = true := beq_iff_eq.mpr hidr
        have hsps : ∀ payload, appendParameterSet sets.codec.sequenceParameterSetNALUnit payload =
            .ok () (payload ++ naluStream [sets.sps.bytes]) := appendParameterSet_run sets.sps_ne
        have hpps : ∀ payload, appendParameterSet sets.codec.pictureParameterSetNALUnit payload =
            .ok () (payload ++ naluStream [sets.pps.bytes]) := appendParameterSet_run sets.pps_ne
        rw [cacheSamples, if_pos ⟨hidr, rfl, rfl⟩, Prog.bind_ok (hsps _), Prog.bind_ok (hpps _),
          Prog.bind_ok (appendNalu_run _ _),
          cacheSamples_plain sets (.inr rfl) hmore, withParameterSets_idr sets hfirst,
          naluStream_append, naluStream_append, naluStream_cons _ nalus]
        simp only [List.append_assoc]
      · have hother : isIdr (header :: bytes) = false := beq_eq_false_iff_ne.mpr hidr
        rw [cacheSamples, if_neg fun h => hidr h.1, Prog.bind_ok (appendNalu_run _ _), ih hmore,
          withParameterSets_other sets hother, naluStream_cons _ (withParameterSets sets nalus),
          List.append_assoc]

end Samples

/-- What `do_cache_avc` appends. -/
theorem doCacheAvc_run (sets : ParameterSets) (f : AddedFrame) (payload : List UInt8) :
    doCacheAvc sets.codec f.format.video payload =
      .ok () (payload ++ naluStream (accessUnit sets f.nalus)) := by
  obtain ⟨hsamples, haud, hsets⟩ := addSamples_run f.start_codec f.added
  rw [f.start_frame] at hsamples haud hsets
  have hnalus : f.format.video.samples = f.nalus := hsamples
  have hhasAud : f.format.video.hasAud = f.nalus.any isAud := haud
  have hhasSets : f.format.video.hasSpsPps = f.nalus.any isParameterSet := hsets
  have hne : ∀ nalu ∈ f.nalus, nalu ≠ [] :=
    fun nalu hnalu => of_decide_eq_true (List.mem_filter.mp hnalu).2
  have hfirst : Prog.optional (!f.format.video.hasAud) (appendNalu defaultAudNalu) payload =
      .ok () (payload ++ naluStream (if f.nalus.any isAud then [] else [defaultAudNalu])) := by
    rw [hhasAud]
    cases f.nalus.any isAud with
    | false => exact appendNalu_run _ _
    | true => exact congrArg (Outcome.ok ()) (List.append_nil payload).symm
  rw [doCacheAvc, Prog.bind_ok hfirst, hnalus, hhasSets, accessUnit, naluStream_append,
    ← List.append_assoc]
  cases f.nalus.any isParameterSet with
  | false => exact cacheSamples_inserts sets hne _
  | true => exact cacheSamples_plain sets (.inl rfl) hne _

/-! ## Reading it back -/

theorem clean_defaultAud (rest : List UInt8) : Clean defaultAudNalu rest :=
  RawAvc.clean_of_noCode (by decide) (by decide) rest

/-- Every NALU of the access unit is free of start codes. -/
theorem clean_accessUnit (sets : ParameterSets) (f : AddedFrame) {nalu : List UInt8}
    (h : nalu ∈ accessUnit sets f.nalus) (rest : List UInt8) : Clean nalu rest := by
  have hnalus : ∀ {nalu}, nalu ∈ f.nalus → Clean nalu rest := by
    intro nalu hnalu
    obtain ⟨n, -, hn⟩ := List.mem_map.mp (List.mem_filter.mp hnalu).1
    rw [← hn]
    exact RawAvc.clean_of_noCode n.noCode n.noTrailing rest
  cases List.mem_append.mp h with
  | inl haud =>
    split at haud
    · cases haud
    · rw [List.mem_singleton.mp haud]
      exact clean_defaultAud rest
  | inr hmem =>
    split at hmem
    · exact hnalus hmem
    · rw [withParameterSets, List.mem_append, List.mem_append] at hmem
      rcases hmem with (hfront | hsets) | hbehind
      · exact hnalus ((List.takeWhile_prefix _).mem hfront)
      · split at hsets
        · rcases List.mem_cons.mp hsets with hsps | hpps
          · rw [hsps]
            exact RawAvc.clean_of_noCode sets.sps.noCode sets.sps.noTrailing rest
          · rw [List.mem_singleton.mp hpps]
            exact RawAvc.clean_of_noCode sets.pps.noCode sets.pps.noTrailing rest
        · cases hsets
      · exact hnalus ((List.dropWhile_suffix _).mem hbehind)

/-- What is appended to the payload is read back as the access unit of the samples. -/
theorem access_unit (sets : ParameterSets) (f : AddedFrame) (payload : List UInt8) :
    ∃ appended, doCacheAvc sets.codec f.format.video payload = .ok () (payload ++ appended) ∧
      RawAvc.demuxAll (appended.length + 1) ⟨appended, 0⟩ =
        .ok ((accessUnit sets f.nalus).map some) ⟨appended, appended.length⟩ := by
  refine ⟨naluStream (accessUnit sets f.nalus), doCacheAvc_run sets f payload, ?_⟩
  have hclean : ∀ u ∈ (accessUnit sets f.nalus).map (fun nalu => (1, nalu)), ∀ rest,
      Clean u.2 rest := by
    intro u hu rest
    obtain ⟨nalu, hnalu, rfl⟩ := List.mem_map.mp hu
    exact clean_accessUnit sets f hnalu rest
  have hfuel : ((accessUnit sets f.nalus).map fun nalu => (1, nalu)).length <
      (naluStream (accessUnit sets f.nalus)).length + 1 := by
    rw [List.length_map]
    exact Nat.lt_succ_of_le (length_le_naluStream _)
  have hrun := RawAvc.demuxAll_annexb _ _ hclean ⟨naluStream (accessUnit sets f.nalus), 0⟩
    (Nat.zero_le _) rfl hfuel
  rw [hrun, List.map_map]
  unfold advance
  rw [Nat.zero_add]
  rfl

end SrsChatRoom.Protocol.AccessUnit
