import SrsChatRoom.Kernel.Mp4Loading

/-!
# The samples of a recording

A recording is written into the sample tables and loaded from them. The player gets the samples
that were recorded when the tables can express them: the offsets fit into 32 bits, no difference of
dts behind one of zero, and pts and dts that are the same where there is no table for a difference.
-/

namespace SrsChatRoom.Kernel.Mp4

open RunLength (Run Cursor expand)

/-! ## The round trip -/

/-- What a player sees of a sample. -/
structure Seen where
  type : FrameType
  index : ℕ
  offset : ℕ
  size : ℕ
  keyFrame : Bool
  dts : UInt64
  cts : UInt64
deriving DecidableEq, Repr

def Sample.seen (s : Sample) : Seen :=
  ⟨s.type, s.index, s.offset, s.nbData, s.type = .video ∧ s.frameType = .keyFrame, s.dts,
    s.pts - s.dts⟩

/-- The dts of the first sample of a track. -/
def firstDts (samples : List Sample) (t : FrameType) : UInt64 :=
  match track samples t with
  | [] => 0
  | s :: _ => s.dts

/-- What a player should see: the dts begin at zero. -/
def wanted (samples : List Sample) (s : Sample) : Seen :=
  { s.seen with dts := s.dts - firstDts samples s.type }

/-- The samples that are loaded are those that were written, in the order of the offsets. -/
def RoundTrips (samples : List Sample) (vide soun : Option ℕ) : Prop :=
  ∀ junk, ∃ out, load (write junk samples (Movie.new vide soun)) = .ok out ∧
    out.map Sample.seen = samples.map (wanted samples)

/-- The samples of a recording, as they are appended. -/
structure Appended (samples : List Sample) : Prop where
  offsets : samples.Pairwise fun a b => a.offset < b.offset
  indexes : ∀ t, (track samples t).map (·.index) = List.range (track samples t).length
  indexBound : ∀ s ∈ samples, s.index < 2 ^ 32
  sizes : ∀ s ∈ samples, 0 < s.nbData ∧ s.nbData < 2 ^ 32
  order : ∀ t, (track samples t).IsChain fun a b => a.dts ≤ b.dts ∧ b.dts - a.dts < 2 ^ 32

/-- The movie has a track for the samples, and each track a timescale. -/
structure HasTracks (samples : List Sample) (vide soun : Option ℕ) : Prop where
  video : vide = none → track samples .video = []
  audio : soun = none → track samples .audio = []
  timescales : ∀ timescale, timescale ∈ vide ∨ timescale ∈ soun → timescale ≠ 0

/-- Behind two samples with the same dts all dts are the same. -/
def Steady : List Sample → Prop
  | [] => True
  | p :: ss => (deltas p ss).Pairwise fun d d' => d = 0 → d' = 0

instance (ss : List Sample) : Decidable (Steady ss) := by
  unfold Steady
  split <;> infer_instance

/-- The tables can express the samples. -/
structure Expressible (samples : List Sample) : Prop where
  offsets : ∀ s ∈ samples, s.offset < 2 ^ 32 - 1
  few : ∀ t, (track samples t).length < 2 ^ 31
  steady : ∀ t, Steady (track samples t)
  audio : ∀ s ∈ track samples .audio, s.pts = s.dts
  video : ∀ s ∈ (track samples .video).head?, s.pts = s.dts

/-! ## The tables that are written -/

/-- There is a table of the pts. -/
def withCtts (samples : List Sample) (t : FrameType) : Bool := t = .video ∧ hasCts samples

/-- The tables of a track, with offsets of 32 bits. -/
def writtenTables (junk : ℕ → ℕ) (samples : List Sample) (t : FrameType) (timescale : ℕ) :
    TrackTables :=
  let w := collect (withCtts samples t) (track samples t)
  { timescale := timescale
    stco := (newArray junk w.coEntries).map u32
    stsz := ⟨0, u32 w.stszEntries.length, newArray junk w.stszEntries⟩
    stsc := [⟨1, 1, 1⟩]
    stts := w.stts.close
    ctts := if withCtts samples t then some ⟨w.cttsVersion, w.ctts.close⟩ else none
    stss := if t = .video then some (newArray junk w.stssEntries) else none }

/-- The differences of the dts that are written, and of pts and dts. -/
def writtenDeltas : List Sample → List UInt32
  | [] => []
  | p :: ss => taken (deltas p ss)

def writtenOffsets : List Sample → List Int64
  | [] => []
  | _ :: ss => 0 :: ss.map Sample.cts

def offsetsOf (samples : List Sample) (t : FrameType) : Option (List Int64) :=
  if withCtts samples t then some (writtenOffsets (track samples t)) else none

section Tables

variable {samples : List Sample} {junk : ℕ → ℕ}

theorem holds_written (h : Appended samples) (hoffsets : ∀ s ∈ samples, s.offset < 2 ^ 32 - 1)
    {t : FrameType} (hfew : (track samples t).length < 2 ^ 31) (timescale : ℕ) :
    Holds (writtenTables junk samples t timescale) (track samples t)
      (writtenDeltas (track samples t)) (offsetsOf samples t) := by
  have hmem : ∀ s ∈ track samples t, s.offset < 2 ^ 32 ∧ s.nbData < 2 ^ 32 := by
    intro s hs
    have hs' := (mem_track.mp hs).1
    exact ⟨lt_trans (hoffsets s hs') (by norm_num), (h.sizes s hs').2⟩
  have hco : (newArray junk (collect (withCtts samples t) (track samples t)).coEntries).map u32 =
      (track samples t).map (·.offset) := by
    rw [newArray_of_lt (by rw [collect_offsets, List.length_map]; exact hfew), collect_offsets,
      List.map_map]
    apply List.map_congr_left
    intro s hs
    exact u32_of_lt (hmem s hs).1
  have hsz : (⟨0, u32 (collect (withCtts samples t) (track samples t)).stszEntries.length,
      newArray junk (collect (withCtts samples t) (track samples t)).stszEntries⟩ : Stsz) =
      ⟨0, (track samples t).length, (track samples t).map (·.nbData)⟩ := by
    rw [newArray_of_lt (by rw [collect_sizes, List.length_map]; exact hfew), collect_sizes,
      List.length_map, u32_of_lt (by omega)]
    congr 1
    apply List.map_congr_left
    intro s hs
    exact u32_of_lt (hmem s hs).2
  refine ⟨hfew, fun s hs => (hmem s hs).1, hco, rfl, hsz, ?_, ?_, ?_, ?_, ?_, ?_⟩
  · intro hne
    obtain ⟨p, ss, hss⟩ := List.exists_cons_of_ne_nil hne
    show ∃ d, expand (collect _ (track samples t)).stts.close = d :: writtenDeltas _
    rw [hss, List.length_cons] at hfew
    rw [hss, (collect_stts p (by omega)).1, taken]
    exact ⟨_, rfl⟩
  · show ∀ e ∈ (collect _ (track samples t)).stts.close, 0 < e.count
    cases hss : track samples t with
    | nil =>
      intro e he
      cases he
    | cons p ss =>
      rw [hss, List.length_cons] at hfew
      exact (collect_stts p (by omega)).2
  · cases track samples t with
    | nil => exact .inr rfl
    | cons p ss => exact .inl (by simp [writtenDeltas])
  · unfold offsetsOf writtenTables
    dsimp only
    cases hctts : withCtts samples t with
    | false => rfl
    | true =>
      rw [if_pos rfl, if_pos rfl]
      show some _ = some _
      congr 1
      cases hss : track samples t with
      | nil => rfl
      | cons p ss =>
        rw [hss, List.length_cons] at hfew
        exact (collect_ctts p (by omega)).1.symm
  · intro ctts hctts
    unfold writtenTables at hctts
    dsimp only at hctts
    cases hwith : withCtts samples t with
    | false =>
      rw [hwith] at hctts
      cases hctts
    | true =>
      rw [hwith, if_pos rfl] at hctts
      cases hctts
      cases hss : track samples t with
      | nil =>
        intro e he
        cases he
      | cons p ss =>
        rw [hss, List.length_cons] at hfew
        exact (collect_ctts p (by omega)).2
  · intro os hos
    unfold offsetsOf at hos
    split at hos
    · cases hos
      cases track samples t with
      | nil => rfl
      | cons p ss => simp [writtenOffsets]
    · cases hos

end Tables

/-! ## Loading the movie -/

/-- Offsets of less than 32 bits are in order, so the last one decides. -/
theorem needsLarge_eq_false_iff {samples : List Sample}
    (h : samples.Pairwise fun a b => a.offset < b.offset) :
    needsLarge samples = false ↔ ∀ s ∈ samples, s.offset < 2 ^ 32 - 1 := by
  unfold needsLarge
  cases hlast : samples.getLast? with
  | none =>
    rw [List.getLast?_eq_none_iff.mp hlast]
    simp
  | some s =>
    obtain ⟨front, hfront⟩ := List.getLast?_eq_some_iff.mp hlast
    dsimp only
    rw [decide_eq_false_iff_not, not_not]
    constructor
    · intro hs x hx
      rw [hfront] at h hx
      cases List.mem_append.mp hx with
      | inl hbefore =>
        have hlt := (List.pairwise_append.mp h).2.2 x hbefore s List.mem_cons_self
        exact hlt.trans hs
      | inr hself =>
        rw [List.mem_singleton.mp hself]
        exact hs
    · intro hall
      apply hall
      rw [hfront]
      exact List.mem_append_right front List.mem_cons_self

section Movie

variable {samples : List Sample} {junk : ℕ → ℕ}

/-- The tables of a track that was written. -/
theorem tablesOf_written (hsmall : needsLarge samples = false) (t : FrameType) (timescale : ℕ) :
    let stbl := writeTrack junk samples t (t = .video) (withCtts samples t) (needsLarge samples) {}
    tablesOf ⟨some timescale, stbl⟩ stbl.ctts stbl.stss =
      .ok (writtenTables junk samples t timescale) := by
  have hcollect : samples.foldl
      (fun w s => if s.type ≠ t then w else w.sample (withCtts samples t) s) ({} : TrackWriter) =
      collect (withCtts samples t) (track samples t) := foldl_track _ samples t {}
  unfold writeTrack tablesOf writtenTables
  dsimp only
  rw [hcollect, hsmall]
  cases t with
  | audio => rfl
  | video => rfl

/-- A track that is there, or not. -/
def loadWritten (junk : ℕ → ℕ) (samples : List Sample) (t : FrameType) (timescale : Option ℕ)
    (tses : SortedMap ℕ Sample) : Except Failure (SortedMap ℕ Sample) :=
  match timescale with
  | none => .ok tses
  | some timescale => loadTrak tses t (writtenTables junk samples t timescale)

theorem doLoad_write (hsmall : needsLarge samples = false) (vide soun : Option ℕ) :
    doLoad (write junk samples (Movie.new vide soun)) =
      (loadWritten junk samples .video vide .empty).bind
        (loadWritten junk samples .audio soun) := by
  have hvideo : ∀ timescale, loadTrack .empty .video
      (write junk samples (Movie.new (some timescale) soun)).vide
      ((write junk samples (Movie.new (some timescale) soun)).vide.bind (·.stbl.ctts))
      ((write junk samples (Movie.new (some timescale) soun)).vide.bind (·.stbl.stss)) =
      loadTrak .empty .video (writtenTables junk samples .video timescale) := by
    intro timescale
    have htables := @tablesOf_written samples junk hsmall .video timescale
    have hctts : withCtts samples .video = hasCts samples := by
      simp [withCtts]
    rw [hctts] at htables
    exact congrArg (fun x => Except.bind x (loadTrak .empty .video)) htables
  have haudio : ∀ timescale tses, loadTrack tses .audio
      (write junk samples (Movie.new vide (some timescale))).soun none none =
      loadTrak tses .audio (writtenTables junk samples .audio timescale) := by
    intro timescale tses
    have htables := @tablesOf_written samples junk hsmall .audio timescale
    exact congrArg (fun x => Except.bind x (loadTrak tses .audio)) htables
  unfold doLoad
  cases vide with
  | none =>
    cases soun with
    | none => rfl
    | some timescale => exact haudio timescale .empty
  | some timescale =>
    rw [hvideo timescale]
    cases soun with
    | none => rfl
    | some timescale' =>
      dsimp only [bind]
      exact congrArg (Except.bind _) (funext fun tses => haudio timescale' tses)

/-- Without offsets of 32 bits no track is loaded. -/
theorem doLoad_large (hlarge : needsLarge samples = true) {vide soun : Option ℕ}
    (hsome : vide ≠ none ∨ soun ≠ none) :
    doLoad (write junk samples (Movie.new vide soun)) = .error (.error .illegalTrack) := by
  have hnone : ∀ (t : FrameType) (stss ctts : Bool) (timescale : ℕ) ctts' stss',
      tablesOf ⟨some timescale, writeTrack junk samples t stss ctts (needsLarge samples) {}⟩
        ctts' stss' = .error (.error .illegalTrack) := by
    intro t stss ctts timescale ctts' stss'
    rw [hlarge]
    rfl
  cases vide with
  | some timescale =>
    unfold doLoad
    show Except.bind (Except.bind (tablesOf _ _ _) _) _ = _
    rw [hnone]
    rfl
  | none =>
    cases soun with
    | none => exact absurd hsome (by simp)
    | some timescale =>
      unfold doLoad
      show Except.bind (tablesOf _ _ _) _ = _
      rw [hnone]
      rfl

end Movie

end SrsChatRoom.Kernel.Mp4
