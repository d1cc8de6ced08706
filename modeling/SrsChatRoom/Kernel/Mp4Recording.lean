import SrsChatRoom.Kernel.Mp4RoundTrip

/-!
# When a recording is played as it was written

The samples of both tracks are merged by their offsets. So the player gets the samples that were
written when it gets those of each track, and this is a matter of the two tables of times.
-/

namespace SrsChatRoom.Kernel.Mp4

open RunLength (Run Cursor expand)

/-! ## Both tracks -/

/-- The samples of a track as they are loaded. -/
def reloadedTrack (junk : ℕ → ℕ) (samples : List Sample) (t : FrameType) :
    Option ℕ → List Sample
  | none => []
  | some timescale => reloaded (writtenTables junk samples t timescale) t
      (writtenDeltas (track samples t)) (offsetsOf samples t) (track samples t)

/-- What is loaded of the movie. -/
def merged (junk : ℕ → ℕ) (samples : List Sample) (vide soun : Option ℕ) : SortedMap ℕ Sample :=
  (SortedMap.empty.assignAll ((reloadedTrack junk samples .video vide).map keyed)).assignAll
    ((reloadedTrack junk samples .audio soun).map keyed)

section Both

variable {samples : List Sample} {junk : ℕ → ℕ} {vide soun : Option ℕ} {t : FrameType}

theorem loadWritten_ok (h : Appended samples) (hoffsets : ∀ s ∈ samples, s.offset < 2 ^ 32 - 1)
    (hfew : (track samples t).length < 2 ^ 31) (timescale : Option ℕ)
    (tses : SortedMap ℕ Sample) : loadWritten junk samples t timescale tses =
      .ok (tses.assignAll ((reloadedTrack junk samples t timescale).map keyed)) := by
  cases timescale with
  | none => rfl
  | some timescale => exact loadTrak_holds (holds_written h hoffsets hfew timescale)

theorem doLoad_ok (h : Appended samples) (hoffsets : ∀ s ∈ samples, s.offset < 2 ^ 32 - 1)
    (hfew : ∀ t, (track samples t).length < 2 ^ 31) :
    doLoad (write junk samples (Movie.new vide soun)) = .ok (merged junk samples vide soun) := by
  have hsmall := (needsLarge_eq_false_iff h.offsets).mpr hoffsets
  rw [doLoad_write hsmall, loadWritten_ok h hoffsets (hfew .video)]
  exact loadWritten_ok h hoffsets (hfew .audio) soun _

variable {timescale : Option ℕ}

/-- What is loaded of a track has its type, its timescale and the offsets of the track. -/
theorem mem_reloadedTrack {s : Sample} (hs : s ∈ reloadedTrack junk samples t timescale) :
    s.type = t ∧ s.tbn ∈ timescale ∧ ∃ s' ∈ track samples t, s'.offset = s.offset := by
  cases timescale with
  | none => cases hs
  | some timescale =>
    obtain ⟨k, hk, rfl⟩ := List.mem_iff_getElem.mp hs
    rw [reloadedTrack, reloaded, List.length_mapIdx] at hk
    have hget : (reloadedTrack junk samples t (some timescale))[k] =
        reloadedAt (writtenTables junk samples t timescale) t (writtenDeltas (track samples t))
          (offsetsOf samples t) k (track samples t)[k] := by
      simp [reloadedTrack, reloaded]
    rw [hget]
    exact ⟨rfl, rfl, _, List.getElem_mem hk, rfl⟩

theorem offsets_reloadedTrack (hnone : timescale = none → track samples t = []) :
    (reloadedTrack junk samples t timescale).map (·.offset) =
      (track samples t).map (·.offset) := by
  cases timescale with
  | none => rw [hnone rfl]; rfl
  | some timescale =>
    apply List.ext_getElem
    · simp [reloadedTrack, reloaded]
    · intro k hk hk'
      simp [reloadedTrack, reloaded, reloadedAt]

theorem track_sorted (h : Appended samples) (t : FrameType) :
    (track samples t).Pairwise fun a b => a.offset < b.offset := h.offsets.filter _

theorem reloadedTrack_sorted (h : Appended samples)
    (hnone : timescale = none → track samples t = []) :
    (reloadedTrack junk samples t timescale).Pairwise fun a b => a.offset < b.offset := by
  have hmap : ((reloadedTrack junk samples t timescale).map (·.offset)).Pairwise (· < ·) := by
    rw [offsets_reloadedTrack hnone]
    exact List.pairwise_map.mpr (track_sorted h t)
  exact List.pairwise_map.mp hmap

theorem keys_nodup (h : Appended samples) (hnone : timescale = none → track samples t = []) :
    (((reloadedTrack junk samples t timescale).map keyed).map Prod.fst).Nodup := by
  have hmap : ((reloadedTrack junk samples t timescale).map (·.offset)).Pairwise (· < ·) :=
    List.pairwise_map.mpr (reloadedTrack_sorted h hnone)
  rw [List.map_map]
  exact @SortedMap.nodup_of_sorted ℕ _ ℕ id _ hmap

/-- The timescale of a track. -/
def scaleOf (vide soun : Option ℕ) : FrameType → Option ℕ
  | .video => vide
  | .audio => soun

theorem HasTracks.none (h : HasTracks samples vide soun)
    (hnone : scaleOf vide soun t = none) : track samples t = [] := by
  cases t with
  | video => exact h.video hnone
  | audio => exact h.audio hnone

theorem mem_merged (h : Appended samples) (ht : HasTracks samples vide soun) {e : ℕ × Sample} :
    e ∈ (merged junk samples vide soun).entries ↔
      ∃ t, e ∈ (reloadedTrack junk samples t (scaleOf vide soun t)).map keyed := by
  unfold merged
  rw [SortedMap.mem_assignAll (keys_nodup h ht.audio),
    SortedMap.mem_assignAll (keys_nodup h ht.video)]
  constructor
  · intro hmem
    cases hmem with
    | inl haudio => exact ⟨.audio, haudio⟩
    | inr hbefore =>
      cases hbefore.1 with
      | inl hvideo => exact ⟨.video, hvideo⟩
      | inr hempty => cases hempty.1
  · intro hmem
    obtain ⟨t, hmem⟩ := hmem
    cases t with
    | audio => exact .inl hmem
    | video =>
      refine .inr ⟨.inl hmem, fun hkey => ?_⟩
      -- a sample of the audio with the same offset would be the sample of the video
      obtain ⟨s, hs, rfl⟩ := List.mem_map.mp hmem
      rw [List.map_map] at hkey
      obtain ⟨a, ha, heq⟩ := List.mem_map.mp hkey
      obtain ⟨-, -, s', hs', hs'eq⟩ := mem_reloadedTrack hs
      obtain ⟨-, -, a', ha', ha'eq⟩ := mem_reloadedTrack ha
      have hnodup : (samples.map (·.offset)).Nodup :=
        @SortedMap.nodup_of_sorted ℕ _ ℕ id _ (List.pairwise_map.mpr h.offsets)
      have hoffset : s'.offset = a'.offset := by
        rw [hs'eq, ha'eq]
        exact heq.symm
      have hsame : s' = a' := List.inj_on_of_nodup_map hnodup (mem_track.mp hs').1
        (mem_track.mp ha').1 hoffset
      have htypes : FrameType.video = FrameType.audio := by
        rw [← (mem_track.mp hs').2, hsame, (mem_track.mp ha').2]
      cases htypes

theorem mem_values (h : Appended samples) (ht : HasTracks samples vide soun) {s : Sample} :
    s ∈ (merged junk samples vide soun).values ↔
      ∃ t, s ∈ reloadedTrack junk samples t (scaleOf vide soun t) := by
  unfold SortedMap.values
  rw [List.mem_map]
  constructor
  · intro hmem
    obtain ⟨e, he, rfl⟩ := hmem
    obtain ⟨t, he⟩ := (mem_merged h ht).mp he
    obtain ⟨s, hs, rfl⟩ := List.mem_map.mp he
    exact ⟨t, hs⟩
  · intro hmem
    obtain ⟨t, hs⟩ := hmem
    exact ⟨keyed s, (mem_merged h ht).mpr ⟨t, List.mem_map_of_mem hs⟩, rfl⟩

theorem values_sorted (h : Appended samples) (ht : HasTracks samples vide soun) :
    (merged junk samples vide soun).values.Pairwise fun a b => a.offset < b.offset := by
  unfold SortedMap.values
  rw [List.pairwise_map]
  apply (merged junk samples vide soun).sorted.imp_of_mem
  intro a b ha hb hlt
  have hkey : ∀ e ∈ (merged junk samples vide soun).entries, e.1 = e.2.offset := by
    intro e he
    obtain ⟨t, he⟩ := (mem_merged h ht).mp he
    obtain ⟨s, -, rfl⟩ := List.mem_map.mp he
    rfl
  rwa [hkey a ha, hkey b hb] at hlt

/-- The samples of a track among those that are loaded. -/
theorem values_filter (h : Appended samples) (ht : HasTracks samples vide soun) (t : FrameType) :
    (merged junk samples vide soun).values.filter (fun s => s.type = t) =
      reloadedTrack junk samples t (scaleOf vide soun t) := by
  apply SortedMap.eq_of_mem_iff ((values_sorted h ht).filter _)
    (reloadedTrack_sorted h fun hnone => ht.none hnone)
  intro s
  rw [List.mem_filter, mem_values h ht, decide_eq_true_eq]
  constructor
  · intro hmem
    obtain ⟨⟨t', hs⟩, htype⟩ := hmem
    have heq : t' = t := (mem_reloadedTrack hs).1.symm.trans htype
    exact heq ▸ hs
  · intro hs
    exact ⟨⟨t, hs⟩, (mem_reloadedTrack hs).1⟩

/-- All samples are as wanted when those of each track are. -/
theorem seen_iff_tracks (h : Appended samples) (ht : HasTracks samples vide soun) :
    (merged junk samples vide soun).values.map Sample.seen = samples.map (wanted samples) ↔
      ∀ t, (reloadedTrack junk samples t (scaleOf vide soun t)).map Sample.seen =
        (track samples t).map (wanted samples) := by
  constructor
  · intro heq t
    have hfilter := congrArg (List.filter fun x : Seen => x.type = t) heq
    rw [List.filter_map, List.filter_map] at hfilter
    rw [← values_filter h ht t]
    exact hfilter
  · intro htracks
    refine @SortedMap.eq_of_mem_iff ℕ _ Seen Seen.offset _ _ ?_ ?_ ?_
    · exact List.pairwise_map.mpr (values_sorted h ht)
    · exact List.pairwise_map.mpr h.offsets
    intro x
    rw [List.mem_map, List.mem_map]
    constructor
    · intro hmem
      obtain ⟨s, hs, rfl⟩ := hmem
      obtain ⟨t, hs⟩ := (mem_values h ht).mp hs
      have hx : s.seen ∈ (track samples t).map (wanted samples) := by
        rw [← htracks t]
        exact List.mem_map_of_mem hs
      obtain ⟨s', hs', hseen⟩ := List.mem_map.mp hx
      exact ⟨s', (mem_track.mp hs').1, hseen⟩
    · intro hmem
      obtain ⟨s, hs, rfl⟩ := hmem
      have hx : wanted samples s ∈
          (reloadedTrack junk samples s.type (scaleOf vide soun s.type)).map Sample.seen := by
        rw [htracks]
        exact List.mem_map_of_mem (mem_track.mpr ⟨hs, rfl⟩)
      obtain ⟨s', hs', hseen⟩ := List.mem_map.mp hx
      exact ⟨s', (mem_values h ht).mpr ⟨_, hs'⟩, hseen⟩

/-! ## The adjustment of the audio -/

theorem seen_adjusted (d : Diffs) (s : Sample) : (adjusted d s).seen = s.seen := by
  unfold adjusted
  split <;> rfl

/-- With a timescale for each sample no difference divides by zero. -/
theorem diffs_ok {l : List Sample} (hl : ∀ s ∈ l, s.tbn ≠ 0) {d : Diffs}
    (hd : ∀ v ∈ d.pvideo, v.tbn ≠ 0) : ∃ d', l.foldlM Diffs.sample d = .ok d' := by
  induction l generalizing d with
  | nil => exact ⟨d, rfl⟩
  | cons s l ih =>
    have hs := hl s List.mem_cons_self
    have hrest : ∀ x ∈ l, x.tbn ≠ 0 := fun x hx => hl x (List.mem_cons_of_mem s hx)
    have hround : ∃ d₁, d.sample s = .ok d₁ ∧ ∀ v ∈ d₁.pvideo, v.tbn ≠ 0 := by
      unfold Diffs.sample
      split
      · refine ⟨_, rfl, ?_⟩
        intro v hv
        cases hv
        exact hs
      · exact ⟨d, rfl, hd⟩
      · next v _ hpvideo =>
        have hv := hd v hpvideo
        unfold Sample.dtsMs
        rw [if_neg hs, if_neg hv]
        refine ⟨_, rfl, ?_⟩
        intro v' hv'
        split at hv' <;> cases hv'
    obtain ⟨d₁, hfirst, hd₁⟩ := hround
    obtain ⟨d', hloop⟩ := ih hrest hd₁
    refine ⟨d', ?_⟩
    rw [List.foldlM_cons, hfirst]
    exact hloop

theorem load_ok (h : Appended samples) (ht : HasTracks samples vide soun)
    (hoffsets : ∀ s ∈ samples, s.offset < 2 ^ 32 - 1)
    (hfew : ∀ t, (track samples t).length < 2 ^ 31) :
    ∃ out, load (write junk samples (Movie.new vide soun)) = .ok out ∧
      out.map Sample.seen = (merged junk samples vide soun).values.map Sample.seen := by
  have htbn : ∀ s ∈ (merged junk samples vide soun).values, s.tbn ≠ 0 := by
    intro s hs
    obtain ⟨t, hs⟩ := (mem_values h ht).mp hs
    have hscale := (mem_reloadedTrack hs).2.1
    apply ht.timescales
    cases t with
    | video => exact .inl hscale
    | audio => exact .inr hscale
  obtain ⟨d, hd⟩ := @diffs_ok _ htbn {} (fun v hv => by cases hv)
  refine ⟨(merged junk samples vide soun).values.map (adjusted d), ?_, ?_⟩
  · unfold load
    rw [doLoad_ok h hoffsets hfew]
    dsimp only [bind, Except.bind]
    rw [hd]
  · rw [List.map_map]
    apply List.map_congr_left
    intro s _
    exact seen_adjusted d s

end Both

/-! ## A track -/

/-- The dts of the samples behind the first one, from all differences. -/
theorem dtsOf_deltas {p : Sample} {ss : List Sample}
    (hchain : (p :: ss).IsChain fun a b => a.dts ≤ b.dts ∧ b.dts - a.dts < 2 ^ 32) :
    dtsOf (deltas p ss) = (p :: ss).map fun s => s.dts - p.dts := by
  have hscan : ∀ (x : UInt64) (q : Sample) (l : List Sample),
      (q :: l).IsChain (fun a b => a.dts ≤ b.dts ∧ b.dts - a.dts < 2 ^ 32) →
      (deltas q l).scanl (fun x d => x + d.toUInt64) x =
        (q :: l).map fun s => x + (s.dts - q.dts) := by
    intro x q l hl
    induction l generalizing x q with
    | nil => simp [deltas]
    | cons s l ih =>
      obtain ⟨hstep, hrest⟩ := List.isChain_cons_cons.mp hl
      have hdelta : (s.dts - q.dts).toUInt32.toUInt64 = s.dts - q.dts := by
        rw [UInt64.toUInt64_toUInt32]
        exact UInt64.mod_eq_of_lt hstep.2
      rw [deltas, List.scanl_cons, ih _ s hrest, hdelta]
      show _ = (x + (q.dts - q.dts)) :: (s :: l).map fun s => x + (s.dts - q.dts)
      congr 1
      · rw [sub_self, add_zero]
      · apply List.map_congr_left
        intro s' _
        show x + (s.dts - q.dts) + (s'.dts - s.dts) = x + (s'.dts - q.dts)
        rw [add_assoc, sub_add_sub_cancel']
  rw [dtsOf, hscan 0 p ss hchain]
  apply List.map_congr_left
  intro s _
  rw [zero_add]

/-- The dts tell the differences. -/
theorem dtsOf_injective {a b : List UInt32} (h : dtsOf a = dtsOf b) : a = b := by
  have hscan : ∀ (x : UInt64) (a b : List UInt32),
      a.scanl (fun x d => x + d.toUInt64) x = b.scanl (fun x d => x + d.toUInt64) x → a = b := by
    intro x a b heq
    induction a generalizing x b with
    | nil =>
      cases b with
      | nil => rfl
      | cons e b => simp at heq
    | cons d a ih =>
      cases b with
      | nil => simp at heq
      | cons e b =>
        rw [List.scanl_cons, List.scanl_cons] at heq
        have htail := (List.cons.inj heq).2
        have hhead := congrArg List.head? htail
        rw [List.head?_scanl, List.head?_scanl] at hhead
        have hsum : d.toUInt64 = e.toUInt64 := add_left_cancel (Option.some.inj hhead)
        have hde : d = e := by
          have hback := congrArg UInt64.toUInt32 hsum
          rwa [UInt32.toUInt32_toUInt64, UInt32.toUInt32_toUInt64] at hback
        rw [hde] at htail ⊢
        rw [ih _ _ htail]
  exact hscan 0 a b h

/-- The dts of a track are those that were written when the track is steady. -/
theorem dts_iff_steady {ss : List Sample} {first : UInt64}
    (hchain : ss.IsChain fun a b => a.dts ≤ b.dts ∧ b.dts - a.dts < 2 ^ 32)
    (hfirst : ∀ s ∈ ss.head?, s.dts = first) :
    (∀ k s, ss[k]? = some s → (dtsOf (writtenDeltas ss)).getD k 0 = s.dts - first) ↔
      Steady ss := by
  cases ss with
  | nil =>
    refine iff_of_true ?_ trivial
    intro k s hs
    cases hs
  | cons p ss =>
    have hp : p.dts = first := hfirst p rfl
    show (∀ k s, (p :: ss)[k]? = some s →
      (dtsOf (taken (deltas p ss))).getD k 0 = s.dts - first) ↔
      (deltas p ss).Pairwise fun d d' => d = 0 → d' = 0
    rw [← taken_eq_iff, ← hp]
    have hall := dtsOf_deltas hchain
    constructor
    · intro h
      apply dtsOf_injective
      rw [hall]
      apply List.ext_getElem
      · simp [dtsOf]
      · intro k hk hk'
        rw [List.length_map] at hk'
        have hget := h k _ (List.getElem?_eq_getElem hk')
        rw [List.getD_eq_getElem?_getD, List.getElem?_eq_getElem hk] at hget
        rw [List.getElem_map]
        exact hget
    · intro htaken k s hs
      rw [htaken, hall, List.getD_eq_getElem?_getD, List.getElem?_map, hs]
      rfl

variable {samples : List Sample}

/-- The differences of pts and dts of a track. -/
theorem cts_iff (t : FrameType) :
    (∀ k s, (track samples t)[k]? = some s → ctsAt (offsetsOf samples t) k = s.pts - s.dts) ↔
      match t with
      | .audio => ∀ s ∈ track samples .audio, s.pts = s.dts
      | .video => ∀ s ∈ (track samples .video).head?, s.pts = s.dts := by
  have hzero : ∀ s : Sample, (0 = s.pts - s.dts) ↔ s.pts = s.dts := by
    intro s
    rw [eq_comm, sub_eq_zero]
  cases t with
  | audio =>
    show (∀ k (s : Sample), (track samples .audio)[k]? = some s → 0 = s.pts - s.dts) ↔ _
    simp only [hzero]
    constructor
    · intro h s hs
      obtain ⟨k, hk⟩ := List.mem_iff_getElem?.mp hs
      exact h k s hk
    · intro h k s hs
      exact h s (List.mem_of_getElem? hs)
  | video =>
    show _ ↔ ∀ s ∈ (track samples .video).head?, s.pts = s.dts
    unfold offsetsOf withCtts
    cases hcts : hasCts samples with
    | false =>
      have hsame : ∀ s ∈ track samples .video, s.pts = s.dts := by
        intro s hs
        obtain ⟨hmem, htype⟩ := mem_track.mp hs
        have hnot := List.any_eq_false.mp hcts s hmem
        by_contra hne
        exact hnot (decide_eq_true ⟨fun heq => hne heq.symm, htype⟩)
      refine iff_of_true ?_ ?_
      · intro k s hs
        exact (hzero s).mpr (hsame s (List.mem_of_getElem? hs))
      · intro s hs
        exact hsame s (List.mem_of_mem_head? hs)
    | true =>
      show (∀ k s, _ → ctsAt (some (writtenOffsets (track samples .video))) k = _) ↔ _
      cases track samples .video with
      | nil =>
        refine iff_of_true ?_ ?_
        · intro k s hs
          cases hs
        · intro s hs
          cases hs
      | cons p ss =>
        constructor
        · intro h s hs
          cases hs
          exact (hzero p).mp (h 0 p rfl)
        · intro h k s hs
          cases k with
          | zero =>
            cases hs
            exact (hzero p).mpr (h p rfl)
          | succ k =>
            rw [List.getElem?_cons_succ] at hs
            unfold ctsAt writtenOffsets
            dsimp only
            rw [List.getD_eq_getElem?_getD, List.getElem?_cons_succ, List.getElem?_map, hs]
            exact UInt64.toUInt64_toInt64 _

theorem index_eq (h : Appended samples) {t : FrameType} {k : ℕ}
    {s : Sample} (hs : (track samples t)[k]? = some s) : s.index = k := by
  have hk : k < (track samples t).length := (List.getElem?_eq_some_iff.mp hs).1
  have hget := congrArg (fun l : List ℕ => l[k]?) (h.indexes t)
  rw [List.getElem?_map, hs, List.getElem?_range hk] at hget
  exact Option.some.inj hget

variable {junk : ℕ → ℕ}

/-- The number of a sample is in the table of the key frames when it is one. -/
theorem isSync_written (h : Appended samples)
    (hfew : (track samples .video).length < 2 ^ 31) {k : ℕ} {s : Sample}
    (hs : (track samples .video)[k]? = some s) {ctts : Bool} :
    isSync (newArray junk (collect ctts (track samples .video)).stssEntries) k = true ↔
      s.frameType = .keyFrame := by
  have hk : k < (track samples .video).length := (List.getElem?_eq_some_iff.mp hs).1
  have hlength : (collect ctts (track samples .video)).stssEntries.length < 2 ^ 31 := by
    rw [collect_syncs, List.length_map]
    exact lt_of_le_of_lt (List.length_filter_le _ _) hfew
  unfold isSync
  rw [newArray_of_lt hlength, collect_syncs, List.contains_iff_mem, List.mem_map]
  constructor
  · intro hmem
    obtain ⟨s', hs', hnumber⟩ := hmem
    obtain ⟨hmem', hkey⟩ := List.mem_filter.mp hs'
    obtain ⟨j, hj⟩ := List.mem_iff_getElem?.mp hmem'
    have hjlt : j < (track samples .video).length := (List.getElem?_eq_some_iff.mp hj).1
    rw [index_eq h hj, u32_of_lt (by omega), u32_of_lt (by omega)] at hnumber
    have hjk : j = k := by omega
    rw [hjk, hs] at hj
    rw [Option.some.inj hj]
    exact of_decide_eq_true hkey
  · intro hkey
    refine ⟨s, List.mem_filter.mpr ⟨List.mem_of_getElem? hs, decide_eq_true hkey⟩, ?_⟩
    rw [index_eq h hs]

/-- A sample is loaded as wanted when its times are right. -/
theorem seen_reloadedAt_iff (h : Appended samples)
    (hfew : ∀ t, (track samples t).length < 2 ^ 31) {t : FrameType} {timescale k : ℕ}
    {s : Sample} (hs : (track samples t)[k]? = some s) {ds : List UInt32}
    {os : Option (List Int64)} :
    (reloadedAt (writtenTables junk samples t timescale) t ds os k s).seen = wanted samples s ↔
      (dtsOf ds).getD k 0 = s.dts - firstDts samples t ∧ ctsAt os k = s.pts - s.dts := by
  have htype : s.type = t := (mem_track.mp (List.mem_of_getElem? hs)).2
  have hkey : decide (t = .video ∧
      frameTypeOf t (writtenTables junk samples t timescale).stss k = .keyFrame) =
      decide (s.type = .video ∧ s.frameType = .keyFrame) := by
    rw [htype, decide_eq_decide]
    cases t with
    | audio => simp
    | video =>
      have hsync := @isSync_written samples junk h (hfew .video) k s hs
        (withCtts samples .video)
      have hloaded : frameTypeOf .video (writtenTables junk samples .video timescale).stss k =
          .keyFrame ↔ s.frameType = .keyFrame := by
        rw [← hsync]
        unfold frameTypeOf writtenTables
        dsimp only
        rw [if_pos rfl]
        dsimp only
        split
        case isTrue hin => simp [hin]
        case isFalse hnot => simp [hnot]
      rw [hloaded]
  have hcts : (dtsOf ds).getD k 0 + ctsAt os k - (dtsOf ds).getD k 0 = ctsAt os k :=
    add_sub_cancel_left _ _
  unfold wanted Sample.seen reloadedAt
  dsimp only
  rw [hkey, hcts, index_eq h hs, htype, Seen.mk.injEq]
  simp

/-- A track is loaded as wanted when both of its tables of times are right. -/
theorem track_iff {vide soun : Option ℕ} (h : Appended samples) (ht : HasTracks samples vide soun)
    (hfew : ∀ t, (track samples t).length < 2 ^ 31) (t : FrameType) :
    (reloadedTrack junk samples t (scaleOf vide soun t)).map Sample.seen =
        (track samples t).map (wanted samples) ↔
      Steady (track samples t) ∧
        ∀ k s, (track samples t)[k]? = some s →
          ctsAt (offsetsOf samples t) k = s.pts - s.dts := by
  cases hscale : scaleOf vide soun t with
  | none =>
    rw [ht.none hscale]
    refine iff_of_true rfl ⟨trivial, ?_⟩
    intro k s hs
    cases hs
  | some timescale =>
    have hfirst : ∀ s ∈ (track samples t).head?, s.dts = firstDts samples t := by
      intro s hs
      unfold firstDts
      cases hss : track samples t with
      | nil =>
        rw [hss] at hs
        cases hs
      | cons p ss =>
        rw [hss] at hs
        cases hs
        rfl
    rw [← dts_iff_steady (h.order t) hfirst, List.ext_getElem?_iff]
    have hget : ∀ k, (((reloadedTrack junk samples t (some timescale)).map Sample.seen)[k]? =
        ((track samples t).map (wanted samples))[k]?) ↔
        ∀ s, (track samples t)[k]? = some s →
          (dtsOf (writtenDeltas (track samples t))).getD k 0 = s.dts - firstDts samples t ∧
            ctsAt (offsetsOf samples t) k = s.pts - s.dts := by
      intro k
      rw [List.getElem?_map, List.getElem?_map, reloadedTrack, reloaded, List.getElem?_mapIdx]
      cases hs : (track samples t)[k]? with
      | none => simp
      | some s =>
        rw [Option.map_some, Option.map_some, Option.map_some, Option.some.injEq,
          seen_reloadedAt_iff h hfew hs]
        simp
    simp only [hget]
    constructor
    · intro hall
      exact ⟨fun k s hs => (hall k s hs).1, fun k s hs => (hall k s hs).2⟩
    · intro hboth k s hs
      exact ⟨hboth.1 k s hs, hboth.2 k s hs⟩

/-! ## The recording -/

section Recording

variable {samples : List Sample} {vide soun : Option ℕ}

/-- The sizes of what is loaded are in the tables. -/
theorem doLoad_sized {junk : ℕ → ℕ} (hsmall : needsLarge samples = false)
    {tses : SortedMap ℕ Sample}
    (h : doLoad (write junk samples (Movie.new vide soun)) = .ok tses) :
    ∀ e ∈ tses.entries, ∃ timescale,
      e.2.nbData ∈ (writtenTables junk samples e.2.type timescale).stsz.entrySizes := by
  rw [doLoad_write hsmall] at h
  obtain ⟨tses₁, hvideo, haudio⟩ := ok_of_bind h
  have h₁ : ∀ e ∈ tses₁.entries, e.2.type = .video ∧ ∃ timescale,
      e.2.nbData ∈ (writtenTables junk samples .video timescale).stsz.entrySizes := by
    intro e he
    cases vide with
    | none =>
      cases hvideo
      cases he
    | some timescale =>
      have hsized := loadTrak_sized rfl (fun e he => by cases he) hvideo e he
      have htype : e.2.type = .video := by
        by_contra hne
        cases hsized.2 hne
      exact ⟨htype, timescale, hsized.1 htype⟩
  intro e he
  cases soun with
  | none =>
    cases haudio
    obtain ⟨htype, hsize⟩ := h₁ e he
    rwa [htype]
  | some timescale =>
    have hother : ∀ x ∈ tses₁.entries, x.2.type ≠ .audio := by
      intro x hx
      rw [(h₁ x hx).1]
      decide
    have hsized := loadTrak_sized rfl hother haudio e he
    by_cases htype : e.2.type = .audio
    · refine ⟨timescale, ?_⟩
      rw [htype]
      exact hsized.1 htype
    · obtain ⟨hvideoType, hsize⟩ := h₁ e (hsized.2 htype)
      rwa [hvideoType]

/-- Where there are too many samples for the arrays, a sample of no size is loaded. -/
theorem few_of_roundTrips (h : Appended samples) (hsmall : needsLarge samples = false)
    (hround : RoundTrips samples vide soun) (t : FrameType) :
    (track samples t).length < 2 ^ 31 := by
  by_contra hmany
  have hlow : 2 ^ 31 ≤ (track samples t).length := by omega
  have hpos : 0 < (track samples t).length := by omega
  -- the last index has 32 bits
  have hhigh : (track samples t).length ≤ 2 ^ 32 := by
    have hlt : (track samples t).length - 1 < (track samples t).length := by omega
    have hlast := List.getElem?_eq_getElem hlt
    have hindex := index_eq h hlast
    have hbound := h.indexBound _ (mem_track.mp (List.getElem_mem hlt)).1
    omega
  obtain ⟨s, hs⟩ : ∃ s, s ∈ track samples t := List.exists_mem_of_length_pos hpos
  obtain ⟨hmem, htype⟩ := mem_track.mp hs
  obtain ⟨out, hload, hseen⟩ := hround fun _ => 0
  obtain ⟨tses, htses, hrest⟩ := ok_of_bind hload
  obtain ⟨d, -, hout⟩ := ok_of_bind hrest
  cases hout
  have hwanted : wanted samples s ∈ (tses.values.map (adjusted d)).map Sample.seen := by
    rw [hseen]
    exact List.mem_map_of_mem hmem
  obtain ⟨o, ho, hsame⟩ := List.mem_map.mp hwanted
  obtain ⟨x, hx, rfl⟩ := List.mem_map.mp ho
  obtain ⟨e, he, rfl⟩ := List.mem_map.mp hx
  rw [seen_adjusted] at hsame
  have hxtype : e.2.type = t := (congrArg Seen.type hsame).trans htype
  have hxsize : e.2.nbData = s.nbData := congrArg Seen.size hsame
  obtain ⟨timescale, hsize⟩ := doLoad_sized hsmall htses e he
  rw [hxtype] at hsize
  have hzero : e.2.nbData = 0 := by
    refine mem_newArray ?_ ?_ hsize
    · rw [collect_sizes, List.length_map]
      exact hlow
    · rw [collect_sizes, List.length_map]
      exact hhigh
  have hsizes := (h.sizes s hmem).1
  omega

/-- A recording is played as it was written exactly when the tables can express it. -/
theorem roundTrips_iff (h : Appended samples) (ht : HasTracks samples vide soun) :
    RoundTrips samples vide soun ↔ Expressible samples := by
  constructor
  · intro hround
    have hsmall : needsLarge samples = false := by
      apply Bool.eq_false_iff.mpr
      intro hlarge
      have hne : samples ≠ [] := by
        intro hnil
        rw [hnil] at hlarge
        cases hlarge
      obtain ⟨s, hs⟩ := List.exists_mem_of_ne_nil samples hne
      have hsome : vide ≠ none ∨ soun ≠ none := by
        by_contra hnone
        obtain ⟨hvide, hsoun⟩ := not_or.mp hnone
        have hempty : track samples s.type = [] := by
          cases s.type with
          | video => exact ht.video (not_not.mp hvide)
          | audio => exact ht.audio (not_not.mp hsoun)
        have hmem : s ∈ track samples s.type := mem_track.mpr ⟨hs, rfl⟩
        rw [hempty] at hmem
        cases hmem
      obtain ⟨out, hload, -⟩ := hround fun _ => 0
      obtain ⟨tses, htses, -⟩ := ok_of_bind hload
      rw [doLoad_large hlarge hsome] at htses
      cases htses
    have hoffsets := (needsLarge_eq_false_iff h.offsets).mp hsmall
    have hfew := few_of_roundTrips h hsmall hround
    obtain ⟨out, hload, hseen⟩ := hround fun _ => 0
    obtain ⟨out', hload', hseen'⟩ := @load_ok samples (fun _ => 0) vide soun h ht hoffsets hfew
    rw [hload] at hload'
    cases hload'
    rw [hseen'] at hseen
    have htracks := (seen_iff_tracks h ht).mp hseen
    have hall := fun t => (track_iff h ht hfew t).mp (htracks t)
    exact ⟨hoffsets, hfew, fun t => (hall t).1, (cts_iff .audio).mp (hall .audio).2,
      (cts_iff .video).mp (hall .video).2⟩
  · intro hexpressible junk
    obtain ⟨hoffsets, hfew, hsteady, haudio, hvideo⟩ := hexpressible
    obtain ⟨out, hload, hseen⟩ := @load_ok samples junk vide soun h ht hoffsets hfew
    refine ⟨out, hload, ?_⟩
    rw [hseen, seen_iff_tracks h ht]
    intro t
    apply (track_iff h ht hfew t).mpr
    refine ⟨hsteady t, (cts_iff t).mpr ?_⟩
    cases t with
    | audio => exact haudio
    | video => exact hvideo

end Recording

/-! ## Recordings -/

def videoSample (index offset dts pts : ℕ) (frameType : VideoFrameType) : Sample :=
  ⟨.video, offset, index, UInt64.ofNat dts, UInt64.ofNat pts, 1000, frameType, 0, 1⟩

def audioSample (index offset dts : ℕ) : Sample :=
  ⟨.audio, offset, index, UInt64.ofNat dts, UInt64.ofNat dts, 1000, .forbidden, 0, 1⟩

/-- A recording with frames that are shown in another order. -/
def shortRecording : List Sample :=
  [videoSample 0 48 1000 1000 .keyFrame, audioSample 0 49 1010,
    videoSample 1 50 1040 1120 .interFrame, audioSample 1 51 1033,
    videoSample 2 52 1080 1060 .interFrame]

theorem shortRecording_roundTrips : RoundTrips shortRecording (some 1000) (some 1000) := by
  have happended : Appended shortRecording := by
    refine ⟨by decide, ?_, by decide, by decide, ?_⟩
    · intro t
      cases t <;> rfl
    · intro t
      cases t <;> decide
  have htracks : HasTracks shortRecording (some 1000) (some 1000) := by
    refine ⟨fun hnone => absurd hnone (by decide), fun hnone => absurd hnone (by decide), ?_⟩
    intro timescale hmem
    cases hmem with
    | inl h => cases h; decide
    | inr h => cases h; decide
  refine (roundTrips_iff happended htracks).mpr ⟨by decide, ?_, ?_, by decide, by decide⟩
  · intro t
    cases t <;> decide
  · intro t
    cases t <;> decide

/-- Two audio samples with the same dts, and one behind them. -/
def stalledRecording : List Sample := [audioSample 0 48 0, audioSample 1 49 0, audioSample 2 50 23]

/-- A first frame that is shown later. -/
def delayedRecording : List Sample := [videoSample 0 48 0 40 .keyFrame]

/-- A sample behind the first four gigabytes. -/
def longRecording : List Sample := [audioSample 0 (2 ^ 32) 0]

/-- What is loaded is not what was written. -/
theorem not_roundTrips {vide soun : Option ℕ}
    (h : (load (write (fun _ => 0) samples (Movie.new vide soun))).map
      (fun out => decide (out.map Sample.seen = samples.map (wanted samples))) ≠ .ok true) :
    ¬ RoundTrips samples vide soun := by
  intro hround
  obtain ⟨out, hload, hseen⟩ := hround fun _ => 0
  apply h
  rw [hload]
  exact congrArg Except.ok (decide_eq_true hseen)

theorem recordings_not_roundTrip : ¬ RoundTrips stalledRecording none (some 1000) ∧
    ¬ RoundTrips delayedRecording (some 1000) none ∧
    ¬ RoundTrips longRecording none (some 1000) :=
  ⟨not_roundTrips (by decide), not_roundTrips (by decide), not_roundTrips (by decide)⟩

end SrsChatRoom.Kernel.Mp4
