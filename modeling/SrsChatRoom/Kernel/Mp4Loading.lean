import SrsChatRoom.Kernel.Mp4Tables

/-!
# Samples from the tables

The loader walks the tables of a track with a counter for each. On the tables of a track with a
sample in each chunk every counter is at the sample that is loaded.
-/

namespace SrsChatRoom.Kernel.Mp4

open RunLength (Run Cursor expand)

/-! ## Loops that can fail -/

section Loop

variable {σ α ε : Type} {f : σ → α → Except ε σ}

/-- A loop whose rounds succeed, with what holds after so many rounds. -/
theorem foldlM_of_rounds {I : ℕ → σ → Prop} {l : List α}
    (hround : ∀ k a s, l[k]? = some a → I k s → ∃ s', f s a = .ok s' ∧ I (k + 1) s')
    {s : σ} (hs : I 0 s) : ∃ s', l.foldlM f s = .ok s' ∧ I l.length s' := by
  induction l generalizing s I with
  | nil => exact ⟨s, rfl, hs⟩
  | cons a l ih =>
    obtain ⟨s₁, hfirst, hs₁⟩ := hround 0 a s rfl hs
    have hrest := @ih (fun k => I (k + 1)) (fun k b t hb ht => hround (k + 1) b t hb ht) s₁ hs₁
    obtain ⟨s', hloop, hs'⟩ := hrest
    refine ⟨s', ?_, hs'⟩
    rw [List.foldlM_cons, hfirst]
    exact hloop

/-- What every successful round keeps, a successful loop keeps. -/
theorem foldlM_keeps {I : σ → Prop} {l : List α}
    (hround : ∀ a ∈ l, ∀ s s', f s a = .ok s' → I s → I s') {s s' : σ}
    (h : l.foldlM f s = .ok s') (hs : I s) : I s' := by
  induction l generalizing s with
  | nil =>
    cases h
    exact hs
  | cons a l ih =>
    rw [List.foldlM_cons] at h
    cases hfirst : f s a with
    | error e =>
      rw [hfirst] at h
      cases h
    | ok s₁ =>
      rw [hfirst] at h
      exact ih (fun b hb => hround b (List.mem_cons_of_mem a hb)) h
        (hround a List.mem_cons_self s s₁ hfirst hs)

/-- What a sequence that succeeds went through. -/
theorem ok_of_bind {α β ε : Type} {x : Except ε α} {f : α → Except ε β} {b : β}
    (h : x.bind f = .ok b) : ∃ a, x = .ok a ∧ f a = .ok b := by
  cases x with
  | error e => cases h
  | ok a => exact ⟨a, rfl, h⟩

end Loop

/-! ## Counters -/

/-- The counter of a table finds the value of the next sample. -/
theorem onSample_at {α : Type} {entries : List (Run α)} {c : Cursor} {k : ℕ}
    (h : Cursor.At entries c k) (hk : k < (expand entries).length)
    (hpos : ∀ e ∈ entries, 0 < e.count) (hsmall : (expand entries).length < 2 ^ 32) :
    ∃ e c', onSample entries c k = .ok (e, c') ∧ (expand entries)[k]? = some e.value ∧
      Cursor.At entries c' (k + 1) := by
  have hindex : u32 (k + 1) = k + 1 := u32_of_lt (by omega)
  unfold onSample
  rw [hindex]
  split
  case isTrue hover =>
    have hend : k = c.count := by
      have hhigh := h.high
      omega
    obtain ⟨e, he, hin, hnext⟩ := h.next hend hk hpos
    have hcount := hnext.count_le
    have hsum : u32 (c.count + e.count) = c.count + e.count := by
      apply u32_of_lt
      show c.count + e.count < _
      exact lt_of_le_of_lt hcount hsmall
    refine ⟨e, ⟨c.index + 1, c.count + e.count⟩, ?_, hnext.value hin he, hnext.advance hin⟩
    rw [he]
    show Except.ok (e, Cursor.mk (c.index + 1) (u32 (c.count + e.count))) = _
    rw [hsum]
  case isFalse hnot =>
    have hin : k < c.count := by omega
    obtain ⟨e, he⟩ : ∃ e, entries[c.index]? = some e :=
      ⟨_, List.getElem?_eq_getElem h.index⟩
    refine ⟨e, c, ?_, h.value hin he, h.advance hin⟩
    rw [he]

theorem at_initializeCounter {α : Type} {entries : List (Run α)} (h : expand entries ≠ []) :
    Cursor.At entries (initializeCounter entries) 0 := by
  cases entries with
  | nil => exact absurd rfl h
  | cons e entries => exact Cursor.At.first

/-! ## A track -/

/-- The dts that the loader gets from the differences. -/
def dtsOf (ds : List UInt32) : List UInt64 := ds.scanl (fun x d => x + d.toUInt64) 0

theorem dtsOf_succ {ds : List UInt32} {k : ℕ} {d : UInt32} (hd : ds[k]? = some d) :
    (dtsOf ds).getD (k + 1) 0 = (dtsOf ds).getD k 0 + d.toUInt64 := by
  have hk : k < ds.length := (List.getElem?_eq_some_iff.mp hd).1
  unfold dtsOf
  rw [List.getD_eq_getElem?_getD, List.getD_eq_getElem?_getD, List.getElem?_succ_scanl, hd,
    List.getElem?_scanl, if_pos hk.le]
  rfl

/-- The tables have a chunk for each sample of a list, the differences `ds` of the dts behind the
first one, and the differences `os` of pts and dts, or none. -/
structure Holds (t : TrackTables) (ss : List Sample) (ds : List UInt32)
    (os : Option (List Int64)) : Prop where
  few : ss.length < 2 ^ 31
  bounds : ∀ s ∈ ss, s.offset < 2 ^ 32
  stco : t.stco = ss.map (·.offset)
  stsc : t.stsc = [⟨1, 1, 1⟩]
  stsz : t.stsz = ⟨0, ss.length, ss.map (·.nbData)⟩
  stts : ss ≠ [] → ∃ d, expand t.stts = d :: ds
  sttsFull : ∀ e ∈ t.stts, 0 < e.count
  sttsLength : ds.length + 1 = ss.length ∨ ss = []
  ctts : os = t.ctts.map fun ctts => expand ctts.entries
  cttsFull : ∀ ctts ∈ t.ctts, ∀ e ∈ ctts.entries, 0 < e.count
  cttsLength : ∀ o ∈ os, o.length = ss.length

/-- The difference of pts and dts that is added. -/
def ctsAt (os : Option (List Int64)) (k : ℕ) : UInt64 :=
  match os with
  | none => 0
  | some os => (os.getD k 0).toUInt64

/-- A sample of a track as it is loaded. -/
def reloadedAt (t : TrackTables) (tt : FrameType) (ds : List UInt32) (os : Option (List Int64))
    (k : ℕ) (s : Sample) : Sample :=
  ⟨tt, s.offset, k, (dtsOf ds).getD k 0, (dtsOf ds).getD k 0 + ctsAt os k, t.timescale,
    frameTypeOf tt t.stss k, 0, s.nbData⟩

def reloaded (t : TrackTables) (tt : FrameType) (ds : List UInt32) (os : Option (List Int64))
    (ss : List Sample) : List Sample := ss.mapIdx (reloadedAt t tt ds os)

theorem reloaded_getElem {t : TrackTables} {tt : FrameType} {ds : List UInt32}
    {os : Option (List Int64)} {ss : List Sample} {k : ℕ} {s : Sample} (hs : ss[k]? = some s) :
    (reloaded t tt ds os ss)[k]? = some (reloadedAt t tt ds os k s) := by
  rw [reloaded, List.getElem?_mapIdx, hs]
  rfl

/-- A sample with its key. -/
def keyed (s : Sample) : ℕ × Sample := (s.offset, s)

section Load

variable {t : TrackTables} {tt : FrameType} {ss : List Sample} {ds : List UInt32}
  {os : Option (List Int64)} {tses : SortedMap ℕ Sample}

/-- The sample in front of sample `k`. -/
def previousAt (l : List Sample) : ℕ → Option Sample
  | 0 => none
  | k + 1 => l[k]?

/-- The state after `k` samples. -/
structure LoadedTo (t : TrackTables) (tt : FrameType) (ss : List Sample) (ds : List UInt32)
    (os : Option (List Int64)) (tses : SortedMap ℕ Sample) (k : ℕ) (st : Loading) : Prop where
  tses : st.tses = tses.assignAll (((reloaded t tt ds os ss).take k).map keyed)
  previous : st.previous = previousAt (reloaded t tt ds os ss) k
  stsc : st.stsc = 0
  stts : Cursor.At t.stts st.stts k
  ctts : ∀ ctts ∈ t.ctts, Cursor.At ctts.entries st.ctts k

theorem onPts_at (h : Holds t ss ds os) {c : Cursor} {k : ℕ} (hk : k < ss.length)
    (hc : ∀ ctts ∈ t.ctts, Cursor.At ctts.entries c k) (dts : UInt64) :
    ∃ c', onPts t.ctts c k dts = .ok (dts + ctsAt os k, c') ∧
      ∀ ctts ∈ t.ctts, Cursor.At ctts.entries c' (k + 1) := by
  have hos := h.ctts
  cases hctts : t.ctts with
  | none =>
    rw [hctts] at hos
    refine ⟨c, ?_, ?_⟩
    · rw [hos]
      show Except.ok (dts, c) = Except.ok (dts + 0, c)
      rw [add_zero]
    · intro ctts hmem
      cases hmem
  | some ctts =>
    rw [hctts] at hos hc
    have hlength : (expand ctts.entries).length = ss.length := h.cttsLength _ hos
    have hfew := h.few
    obtain ⟨e, c', hread, hvalue, hat⟩ := onSample_at (hc ctts rfl) (by omega)
      (h.cttsFull ctts hctts) (by omega)
    refine ⟨c', ?_, ?_⟩
    · unfold onPts
      dsimp only
      rw [hread, hos]
      show Except.ok (dts + e.value.toUInt64, c') = Except.ok (dts + ctsAt _ k, c')
      unfold ctsAt
      dsimp only [Option.map_some]
      rw [List.getD_eq_getElem?_getD, hvalue]
      rfl
    · intro ctts' hmem
      cases hmem
      exact hat

/-- The next sample is loaded. -/
theorem loadSample_at (h : Holds t ss ds os) {k : ℕ} {s : Sample} (hs : ss[k]? = some s)
    {st : Loading} (hst : LoadedTo t tt ss ds os tses k st) (hrelative : st.relative = 0) :
    ∃ st', loadSample t tt s.offset st = .ok st' ∧
      LoadedTo t tt ss ds os tses (k + 1) st' := by
  have hk : k < ss.length := (List.getElem?_eq_some_iff.mp hs).1
  have hmem : s ∈ ss := List.mem_of_getElem? hs
  have hoffset := h.bounds s hmem
  have hfew := h.few
  have hne : ss ≠ [] := List.ne_nil_of_mem hmem
  obtain ⟨d, hexpand⟩ := h.stts hne
  have hlength : (expand t.stts).length = ss.length := by
    rw [hexpand, List.length_cons]
    exact h.sttsLength.resolve_right hne
  -- the index and the dts go on from the previous sample
  have hprevious : ∀ j, j < ss.length →
      ∃ p, (reloaded t tt ds os ss)[j]? = some (reloadedAt t tt ds os j p) := by
    intro j hj
    exact ⟨_, reloaded_getElem (List.getElem?_eq_getElem hj)⟩
  have hindex : nextIndex st.previous = k := by
    rw [hst.previous]
    cases k with
    | zero => rfl
    | succ k =>
      obtain ⟨p, hp⟩ := hprevious k (by omega)
      rw [previousAt, hp]
      show u32 (k + 1) = k + 1
      exact u32_of_lt (by omega)
  obtain ⟨e, c, hread, hvalue, hat⟩ := onSample_at hst.stts (by omega) h.sttsFull (by omega)
  have hdts : nextDts st.previous e.value = (dtsOf ds).getD k 0 := by
    rw [hst.previous]
    cases k with
    | zero =>
      show (0 : UInt64) = (dtsOf ds).getD 0 0
      rw [List.getD_eq_getElem?_getD, dtsOf, List.getElem?_scanl_zero]
      rfl
    | succ k =>
      rw [hexpand, List.getElem?_cons_succ] at hvalue
      obtain ⟨p, hp⟩ := hprevious k (by omega)
      rw [previousAt, hp, dtsOf_succ hvalue]
      rfl
  obtain ⟨c₂, hpts, hat₂⟩ := onPts_at h hk hst.ctts ((dtsOf ds).getD k 0)
  have hsize : getSampleSize t.stsz k = .ok s.nbData := by
    rw [h.stsz]
    unfold getSampleSize
    rw [if_neg (by simp), if_neg (by simpa using hk), List.getElem?_map, hs]
    rfl
  have hkey : u32 (s.offset + st.relative) = s.offset := by
    rw [hrelative, Nat.add_zero]
    exact u32_of_lt hoffset
  have hthis : (reloaded t tt ds os ss)[k]? = some (reloadedAt t tt ds os k s) :=
    reloaded_getElem hs
  refine ⟨⟨st.tses.assign s.offset (reloadedAt t tt ds os k s), some (reloadedAt t tt ds os k s),
    u32 (st.relative + s.nbData), st.stsc, c, c₂⟩, ?_, ?_, ?_, hst.stsc, hat, hat₂⟩
  · unfold loadSample
    dsimp only
    rw [hindex, hkey, hsize]
    dsimp only [bind, Except.bind]
    rw [hread]
    dsimp only
    rw [hdts, hpts]
    rfl
  · show st.tses.assign s.offset _ = _
    rw [hst.tses, List.take_add_one, hthis, List.map_append, SortedMap.assignAll_append]
    rfl
  · exact hthis.symm

/-- The samples of the track are put into the map. -/
theorem loadTrak_holds (h : Holds t ss ds os) :
    loadTrak tses tt t = .ok (tses.assignAll ((reloaded t tt ds os ss).map keyed)) := by
  have hchunks : t.stco.zipIdx = ss.mapIdx fun k s => (s.offset, k) := by
    rw [h.stco, List.zipIdx_map]
    simp [List.mapIdx_eq_zipIdx_map]
  by_cases hne : ss = []
  · have hstco : t.stco = [] := by rw [h.stco, hne]; rfl
    unfold loadTrak
    rw [hstco, hne]
    rfl
  obtain ⟨d, hexpand⟩ := h.stts hne
  have hstts : Cursor.At t.stts (initializeCounter t.stts) 0 := by
    apply at_initializeCounter
    rw [hexpand]
    exact List.cons_ne_nil d ds
  have hstart : LoadedTo t tt ss ds os tses 0 (.init tses t) := by
    refine ⟨rfl, rfl, rfl, hstts, ?_⟩
    intro ctts hctts
    have hos := h.ctts
    unfold Loading.init
    dsimp only
    rw [hctts] at hos ⊢
    apply at_initializeCounter
    intro hnil
    have hlength : (expand ctts.entries).length = ss.length := h.cttsLength _ hos
    rw [hnil] at hlength
    exact hne (List.length_eq_zero_iff.mp hlength.symm)
  -- each chunk has one sample
  have hround : ∀ k chunk st, t.stco.zipIdx[k]? = some chunk →
      LoadedTo t tt ss ds os tses k st →
      ∃ st', loadChunk t tt st chunk = .ok st' ∧ LoadedTo t tt ss ds os tses (k + 1) st' := by
    intro k chunk st hchunk hst
    rw [hchunks, List.getElem?_mapIdx] at hchunk
    obtain ⟨s, hs, rfl⟩ := Option.map_eq_some_iff.mp hchunk
    have hreset : LoadedTo t tt ss ds os tses k { st with relative := 0, stsc := 0 } :=
      ⟨hst.tses, hst.previous, rfl, hst.stts, hst.ctts⟩
    obtain ⟨st', hload, hst'⟩ := loadSample_at h hs hreset rfl
    refine ⟨st', ?_, hst'⟩
    have hentry : onChunk t.stsc st.stsc k = .ok (⟨1, 1, 1⟩, 0) := by
      rw [h.stsc, hst.stsc]
      rfl
    unfold loadChunk
    dsimp only
    rw [hentry]
    show List.foldlM (fun st _ => loadSample t tt s.offset st) _ [0] = _
    rw [List.foldlM_cons, hload]
    rfl
  obtain ⟨st, hloop, hst⟩ := foldlM_of_rounds hround hstart
  unfold loadTrak
  dsimp only [bind, Except.bind]
  rw [hloop]
  show checkSamples t.stsz st = _
  have hlen : t.stco.zipIdx.length = ss.length := by
    rw [hchunks, List.length_mapIdx]
  have hpos : 0 < ss.length := List.length_pos_iff.mpr hne
  have hfew := h.few
  rw [hlen] at hst
  obtain ⟨n, hn⟩ : ∃ n, ss.length = n + 1 := ⟨ss.length - 1, by omega⟩
  obtain ⟨p, hp⟩ : ∃ p, ss[n]? = some p := ⟨_, List.getElem?_eq_getElem (by omega)⟩
  have hlast : st.previous = some (reloadedAt t tt ds os n p) := by
    rw [hst.previous, hn]
    exact reloaded_getElem hp
  have hcount : u32 ((reloadedAt t tt ds os n p).index + 1) = t.stsz.sampleCount := by
    rw [h.stsz]
    show u32 (n + 1) = ss.length
    rw [hn]
    exact u32_of_lt (by omega)
  unfold checkSamples
  rw [hlast]
  dsimp only
  rw [if_neg (not_not.mpr hcount), hst.tses]
  have hall : (reloaded t tt ds os ss).take ss.length = reloaded t tt ds os ss := by
    apply List.take_of_length_le
    rw [reloaded, List.length_mapIdx]
  rw [hall]

theorem getSampleSize_mem {stsz : Stsz} {k size : ℕ} (hzero : stsz.sampleSize = 0)
    (h : getSampleSize stsz k = .ok size) : size ∈ stsz.entrySizes := by
  unfold getSampleSize at h
  rw [if_neg (not_not.mpr hzero)] at h
  split at h
  case isTrue => cases h
  case isFalse =>
    split at h
    · cases h
    · next hget =>
      cases h
      exact List.mem_of_getElem? hget

/-- The samples of the type have sizes from the table, and the others were there before. -/
def Sized (t : TrackTables) (tt : FrameType) (tses : SortedMap ℕ Sample) (st : Loading) : Prop :=
  ∀ e ∈ st.tses.entries, (e.2.type = tt → e.2.nbData ∈ t.stsz.entrySizes) ∧
    (e.2.type ≠ tt → e ∈ tses.entries)

theorem loadSample_sized (hzero : t.stsz.sampleSize = 0) {offset : ℕ} {st st' : Loading}
    (h : loadSample t tt offset st = .ok st') (hst : Sized t tt tses st) : Sized t tt tses st' := by
  obtain ⟨size, hsize, hrest⟩ := ok_of_bind h
  obtain ⟨e, -, hrest⟩ := ok_of_bind hrest
  obtain ⟨c, -, hrest⟩ := ok_of_bind hrest
  cases hrest
  intro x hx
  cases SortedMap.mem_assign.mp hx with
  | inl hnew =>
    rw [hnew]
    exact ⟨fun _ => getSampleSize_mem hzero hsize, fun hne => absurd rfl hne⟩
  | inr hold => exact hst x hold.1

/-- Whatever is loaded of a track has a size from the table of sizes. -/
theorem loadTrak_sized {tses' : SortedMap ℕ Sample} (hzero : t.stsz.sampleSize = 0)
    (hother : ∀ e ∈ tses.entries, e.2.type ≠ tt) (h : loadTrak tses tt t = .ok tses') :
    ∀ e ∈ tses'.entries, (e.2.type = tt → e.2.nbData ∈ t.stsz.entrySizes) ∧
      (e.2.type ≠ tt → e ∈ tses.entries) := by
  obtain ⟨st, hloop, hcheck⟩ := ok_of_bind h
  have hstart : Sized t tt tses (.init tses t) :=
    fun e he => ⟨fun htype => absurd htype (hother e he), fun _ => he⟩
  have hst : Sized t tt tses st := by
    refine foldlM_keeps ?_ hloop hstart
    intro chunk _ st₁ st₂ hchunk hst₁
    unfold loadChunk at hchunk
    dsimp only [bind] at hchunk
    obtain ⟨entry, -, hsamples⟩ := ok_of_bind hchunk
    have hreset : Sized t tt tses { st₁ with relative := 0, stsc := entry.2 } := hst₁
    refine @foldlM_keeps _ _ _ (fun st _ => loadSample t tt chunk.1 st) (Sized t tt tses)
      (List.range entry.1.samplesPerChunk) ?_ _ st₂ hsamples hreset
    intro _ _ st₃ st₄ hload hst₃
    exact loadSample_sized hzero hload hst₃
  have htses : tses' = st.tses := by
    unfold checkSamples at hcheck
    split at hcheck
    · split at hcheck
      · cases hcheck
      · cases hcheck
        rfl
    · cases hcheck
      rfl
  rw [htses]
  exact hst

end Load

end SrsChatRoom.Kernel.Mp4
