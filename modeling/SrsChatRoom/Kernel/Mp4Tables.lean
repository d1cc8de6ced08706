import SrsChatRoom.Kernel.Mp4Samples

/-!
# What is in the sample tables

The tables of a track, as lists with a value for each sample. A difference of zero between two dts
takes the value of the next difference that is not zero, and the first difference of pts and dts is
written as zero.
-/

namespace SrsChatRoom.Kernel.Mp4

open RunLength (Run Cursor expand)
open List (foldl_cons length_cons)

theorem u32_of_lt {n : ℕ} (h : n < 2 ^ 32) : u32 n = n := Nat.mod_eq_of_lt h

/-- The samples of a track. -/
def track (samples : List Sample) (t : FrameType) : List Sample :=
  samples.filter fun s => s.type = t

theorem mem_track {samples : List Sample} {t : FrameType} {s : Sample} :
    s ∈ track samples t ↔ s ∈ samples ∧ s.type = t := by
  simp [track]

/-! ## Runs -/

/-- The values of the runs, if the writer ends here. -/
theorem expand_close {α : Type} (r : Runs α) :
    expand r.close = expand r.entries ++ List.replicate r.entry.count r.entry.value := by
  unfold Runs.close
  split
  case isTrue => simp
  case isFalse hzero =>
    rw [not_not.mp hzero]
    simp

/-- The runs that are complete have values. -/
def Runs.Full {α : Type} (r : Runs α) : Prop := ∀ e ∈ r.entries, 0 < e.count

theorem Runs.Full.close {α : Type} {r : Runs α} (h : r.Full) : ∀ e ∈ r.close, 0 < e.count := by
  unfold Runs.close
  split
  case isTrue hne =>
    intro e he
    cases List.mem_append.mp he with
    | inl hold => exact h e hold
    | inr hnew =>
      rw [List.mem_singleton.mp hnew]
      exact Nat.pos_of_ne_zero hne
  case isFalse => exact h

theorem Runs.Full.push {α : Type} {r : Runs α} (h : r.Full) (hcount : 0 < r.entry.count) (v : α) :
    (r.push v).Full := by
  intro e he
  cases List.mem_append.mp he with
  | inl hold => exact h e hold
  | inr hnew =>
    rw [List.mem_singleton.mp hnew]
    exact hcount

/-! ## Differences of the dts -/

/-- The next difference. -/
def sttsDelta (r : Runs UInt32) (delta : UInt32) : Runs UInt32 :=
  if r.entry.value = 0 ∨ r.entry.value = delta then
    { r.count with entry := ⟨r.count.entry.count, delta⟩ }
  else r.push delta

/-- What the table says for the differences. -/
def taken : List UInt32 → List UInt32
  | [] => []
  | d :: ds => (if d = 0 then (taken ds).headD 0 else d) :: taken ds

@[simp] theorem length_taken (ds : List UInt32) : (taken ds).length = ds.length := by
  induction ds with
  | nil => rfl
  | cons d ds ih => simp [taken, ih]

theorem full_sttsDelta {ds : List UInt32} {r : Runs UInt32} (h : r.Full)
    (hcount : 0 < r.entry.count) (hsmall : r.entry.count + ds.length < 2 ^ 32) :
    (ds.foldl sttsDelta r).Full := by
  induction ds generalizing r with
  | nil => exact h
  | cons d ds ih =>
    rw [length_cons] at hsmall
    rw [foldl_cons]
    by_cases hsame : r.entry.value = 0 ∨ r.entry.value = d
    · have hround : sttsDelta r d = { r.count with entry := ⟨r.count.entry.count, d⟩ } :=
        if_pos hsame
      have hnew : r.count.entry.count = r.entry.count + 1 := u32_of_lt (by omega)
      rw [hround]
      apply ih
      · exact h
      · show 0 < r.count.entry.count
        omega
      · show r.count.entry.count + ds.length < 2 ^ 32
        omega
    · have hround : sttsDelta r d = r.push d := if_neg hsame
      rw [hround]
      apply ih (h.push hcount d)
      · exact Nat.one_pos
      · show 1 + ds.length < 2 ^ 32
        omega

/-- The run that goes on has value `v`, or that of the next difference when `v` is zero. -/
theorem expand_sttsDelta {ds : List UInt32} {r : Runs UInt32} (hcount : 0 < r.entry.count)
    (hsmall : r.entry.count + ds.length < 2 ^ 32) :
    expand (ds.foldl sttsDelta r).close = expand r.entries ++
      List.replicate r.entry.count
        (if r.entry.value = 0 then (taken ds).headD 0 else r.entry.value) ++ taken ds := by
  induction ds generalizing r with
  | nil =>
    rw [List.foldl_nil, expand_close]
    have hvalue : (if r.entry.value = 0 then (taken []).headD 0 else r.entry.value) =
        r.entry.value := by
      split
      case isTrue hzero => exact hzero.symm
      case isFalse => rfl
    rw [hvalue]
    simp [taken]
  | cons d ds ih =>
    rw [length_cons] at hsmall
    rw [foldl_cons]
    by_cases hsame : r.entry.value = 0 ∨ r.entry.value = d
    · have hround : sttsDelta r d = { r.count with entry := ⟨r.count.entry.count, d⟩ } :=
        if_pos hsame
      have hnew : r.count.entry.count = r.entry.count + 1 := u32_of_lt (by omega)
      -- the run has the value of the difference, which may come from a later one
      have hvalue : (if r.entry.value = 0 then (taken (d :: ds)).headD 0 else r.entry.value) =
          if d = 0 then (taken ds).headD 0 else d := by
        cases hsame with
        | inl hzero =>
          rw [if_pos hzero]
          rfl
        | inr heq =>
          rw [heq]
          split
          case isTrue => simp_all [taken]
          case isFalse => rfl
      rw [hround, ih]
      · show expand r.entries ++ List.replicate r.count.entry.count _ ++ taken ds = _
        rw [hnew, hvalue, List.replicate_succ', taken]
        simp
      · show 0 < r.count.entry.count
        omega
      · show r.count.entry.count + ds.length < 2 ^ 32
        omega
    · have hround : sttsDelta r d = r.push d := if_neg hsame
      have hne : r.entry.value ≠ 0 := fun hzero => hsame (.inl hzero)
      rw [hround, ih]
      · show expand (r.entries ++ [r.entry]) ++ List.replicate 1 _ ++ taken ds = _
        rw [if_neg hne, taken]
        simp [Runs.push]
      · exact Nat.one_pos
      · show 1 + ds.length < 2 ^ 32
        omega

/-- The table says all differences when after one of zero there are only differences of zero. -/
theorem taken_eq_iff (ds : List UInt32) :
    taken ds = ds ↔ ds.Pairwise fun d d' => d = 0 → d' = 0 := by
  induction ds with
  | nil => simp [taken]
  | cons d ds ih =>
    rw [taken, List.cons.injEq, ih, List.pairwise_cons]
    constructor
    · intro h
      obtain ⟨hhead, htail⟩ := h
      refine ⟨?_, htail⟩
      intro d' hd' hzero
      rw [if_pos hzero, ih.mpr htail, hzero] at hhead
      -- the next difference is zero, and with it all that follow
      cases ds with
      | nil => cases hd'
      | cons e ds =>
        have he : e = 0 := hhead
        cases List.mem_cons.mp hd' with
        | inl heq => rw [heq, he]
        | inr hmem => exact (List.pairwise_cons.mp htail).1 d' hmem he
    · intro h
      obtain ⟨hzeros, htail⟩ := h
      refine ⟨?_, htail⟩
      split
      case isTrue hzero =>
        rw [ih.mpr htail, hzero]
        cases ds with
        | nil => rfl
        | cons e ds => exact hzeros e List.mem_cons_self hzero
      case isFalse => rfl

/-! ## Differences of pts and dts -/

/-- The next difference of pts and dts. -/
def cttsOffset (r : Runs Int64) (offset : Int64) : Runs Int64 :=
  if r.entry.count = 0 ∨ r.entry.value = offset then r.count else r.push offset

theorem full_cttsOffset {os : List Int64} {r : Runs Int64} (h : r.Full)
    (hsmall : r.entry.count + os.length < 2 ^ 32) : (os.foldl cttsOffset r).Full := by
  induction os generalizing r with
  | nil => exact h
  | cons o os ih =>
    rw [length_cons] at hsmall
    rw [foldl_cons]
    by_cases hsame : r.entry.count = 0 ∨ r.entry.value = o
    · have hround : cttsOffset r o = r.count := if_pos hsame
      have hnew : r.count.entry.count = r.entry.count + 1 := u32_of_lt (by omega)
      rw [hround]
      apply ih
      · exact h
      · omega
    · have hround : cttsOffset r o = r.push o := if_neg hsame
      have hcount : 0 < r.entry.count := Nat.pos_of_ne_zero fun hzero => hsame (.inl hzero)
      rw [hround]
      apply ih (h.push hcount o)
      show 1 + os.length < 2 ^ 32
      omega

theorem expand_cttsOffset {os : List Int64} {r : Runs Int64} (hcount : 0 < r.entry.count)
    (hsmall : r.entry.count + os.length < 2 ^ 32) :
    expand (os.foldl cttsOffset r).close =
      expand r.entries ++ List.replicate r.entry.count r.entry.value ++ os := by
  induction os generalizing r with
  | nil => rw [List.foldl_nil, expand_close, List.append_nil]
  | cons o os ih =>
    rw [length_cons] at hsmall
    rw [foldl_cons]
    by_cases hsame : r.entry.count = 0 ∨ r.entry.value = o
    · have hround : cttsOffset r o = r.count := if_pos hsame
      have hnew : r.count.entry.count = r.entry.count + 1 := u32_of_lt (by omega)
      have hvalue : r.entry.value = o := hsame.resolve_left hcount.ne'
      rw [hround, ih (by omega) (by omega)]
      show expand r.entries ++ List.replicate r.count.entry.count r.entry.value ++ os = _
      rw [hnew, List.replicate_succ', hvalue]
      simp
    · have hround : cttsOffset r o = r.push o := if_neg hsame
      rw [hround, ih]
      · show expand (r.entries ++ [r.entry]) ++ List.replicate 1 o ++ os = _
        simp
      · exact Nat.one_pos
      · show 1 + os.length < 2 ^ 32
        omega

/-! ## The writer -/

/-- The differences of the dts, behind a sample. -/
def deltas (p : Sample) : List Sample → List UInt32
  | [] => []
  | s :: ss => (s.dts - p.dts).toUInt32 :: deltas s ss

@[simp] theorem length_deltas (p : Sample) (ss : List Sample) :
    (deltas p ss).length = ss.length := by
  induction ss generalizing p with
  | nil => rfl
  | cons s ss ih => simp [deltas, ih]

section Writer

variable (ctts : Bool)

/-- The loop takes the samples of its track. -/
theorem foldl_track (samples : List Sample) (t : FrameType) (w : TrackWriter) :
    samples.foldl (fun w s => if s.type ≠ t then w else w.sample ctts s) w =
      (track samples t).foldl (TrackWriter.sample ctts) w := by
  induction samples generalizing w with
  | nil => rfl
  | cons s samples ih =>
    rw [foldl_cons, ih]
    by_cases htype : s.type = t
    · have htrack : track (s :: samples) t = s :: track samples t :=
        List.filter_cons_of_pos (decide_eq_true htype)
      rw [if_neg (not_not.mpr htype), htrack, foldl_cons]
    · have htrack : track (s :: samples) t = track samples t :=
        List.filter_cons_of_neg (by simpa using htype)
      rw [if_pos htype, htrack]

theorem foldl_sizes (ss : List Sample) (w : TrackWriter) :
    (ss.foldl (TrackWriter.sample ctts) w).stszEntries =
      w.stszEntries ++ ss.map fun s => u32 s.nbData := by
  induction ss generalizing w with
  | nil => simp
  | cons s ss ih =>
    rw [foldl_cons, ih]
    simp [TrackWriter.sample]

theorem foldl_offsets (ss : List Sample) (w : TrackWriter) :
    (ss.foldl (TrackWriter.sample ctts) w).coEntries = w.coEntries ++ ss.map (·.offset) := by
  induction ss generalizing w with
  | nil => simp
  | cons s ss ih =>
    rw [foldl_cons, ih]
    simp [TrackWriter.sample]

theorem foldl_syncs (ss : List Sample) (w : TrackWriter) :
    (ss.foldl (TrackWriter.sample ctts) w).stssEntries = w.stssEntries ++
      (ss.filter fun s => s.frameType = .keyFrame).map fun s => u32 (s.index + 1) := by
  induction ss generalizing w with
  | nil => simp
  | cons s ss ih =>
    rw [foldl_cons, ih, List.filter_cons]
    by_cases hkey : s.frameType = .keyFrame
    · simp [TrackWriter.sample, hkey]
    · simp [TrackWriter.sample, hkey]

theorem foldl_stts (p : Sample) (ss : List Sample) (w : TrackWriter) (hw : w.previous = some p) :
    (ss.foldl (TrackWriter.sample ctts) w).stts = (deltas p ss).foldl sttsDelta w.stts := by
  induction ss generalizing p w with
  | nil => rfl
  | cons s ss ih =>
    rw [foldl_cons, ih s _ rfl, deltas, foldl_cons]
    have hround : (w.sample ctts s).stts = sttsDelta w.stts (s.dts - p.dts).toUInt32 := by
      show sttsSample w.stts w.previous s = _
      rw [hw]
      rfl
    rw [hround]

theorem foldl_ctts (ss : List Sample) (w : TrackWriter) :
    (ss.foldl (TrackWriter.sample true) w).ctts = (ss.map Sample.cts).foldl cttsOffset w.ctts := by
  induction ss generalizing w with
  | nil => rfl
  | cons s ss ih =>
    rw [foldl_cons, ih, List.map_cons, foldl_cons]
    rfl

end Writer

/-- What the writer has collected of a track. -/
def collect (ctts : Bool) (ss : List Sample) : TrackWriter :=
  ss.foldl (TrackWriter.sample ctts) {}

section Collect

variable {ctts : Bool} {ss : List Sample}

/-- The table of the dts has a value for each sample, the first one for nothing. -/
theorem collect_stts (p : Sample) (hsmall : ss.length + 1 < 2 ^ 32) :
    expand (collect ctts (p :: ss)).stts.close = taken (0 :: deltas p ss) ∧
      ∀ e ∈ (collect ctts (p :: ss)).stts.close, 0 < e.count := by
  have hfold : (collect ctts (p :: ss)).stts =
      (deltas p ss).foldl sttsDelta (({} : TrackWriter).sample ctts p).stts :=
    foldl_stts ctts p ss _ rfl
  have hfirst : (({} : TrackWriter).sample ctts p).stts = ⟨⟨1, 0⟩, []⟩ := rfl
  rw [hfold, hfirst]
  constructor
  · rw [expand_sttsDelta Nat.one_pos (by rw [length_deltas]; show 1 + _ < _; omega)]
    rfl
  · apply Runs.Full.close
    apply full_sttsDelta
    · intro e he
      cases he
    · exact Nat.one_pos
    · rw [length_deltas]
      show 1 + _ < _
      omega

/-- The table of the pts has a value for each sample, the first one zero. -/
theorem collect_ctts (p : Sample) (hsmall : ss.length + 1 < 2 ^ 32) :
    expand (collect true (p :: ss)).ctts.close = 0 :: ss.map Sample.cts ∧
      ∀ e ∈ (collect true (p :: ss)).ctts.close, 0 < e.count := by
  have hfold : (collect true (p :: ss)).ctts =
      (ss.map Sample.cts).foldl cttsOffset ⟨⟨1, 0⟩, []⟩ := by
    rw [collect, foldl_ctts, List.map_cons, foldl_cons]
    rfl
  rw [hfold]
  constructor
  · rw [expand_cttsOffset Nat.one_pos (by rw [List.length_map]; show 1 + _ < _; omega)]
    rfl
  · apply Runs.Full.close
    apply full_cttsOffset
    · intro e he
      cases he
    · rw [List.length_map]
      show 1 + _ < _
      omega

theorem collect_sizes : (collect ctts ss).stszEntries = ss.map fun s => u32 s.nbData :=
  foldl_sizes ctts ss {}

theorem collect_offsets : (collect ctts ss).coEntries = ss.map (·.offset) :=
  foldl_offsets ctts ss {}

theorem collect_syncs : (collect ctts ss).stssEntries =
    (ss.filter fun s => s.frameType = .keyFrame).map fun s => u32 (s.index + 1) :=
  foldl_syncs ctts ss {}

end Collect

/-- An array of less than `2^31` entries is filled. -/
theorem newArray_of_lt {junk : ℕ → ℕ} {entries : List ℕ} (h : entries.length < 2 ^ 31) :
    newArray junk entries = entries := by
  have hlen : u32 entries.length = entries.length := u32_of_lt (by omega)
  unfold newArray
  dsimp only
  rw [hlen, if_pos h, List.take_length]

/-- An array of more entries has what the memory held. -/
theorem mem_newArray {entries : List ℕ} (hlow : 2 ^ 31 ≤ entries.length)
    (hhigh : entries.length ≤ 2 ^ 32) {x : ℕ} (hx : x ∈ newArray (fun _ => 0) entries) :
    x = 0 := by
  unfold newArray at hx
  dsimp only at hx
  split at hx
  case isTrue hlt =>
    -- the number of entries is `2^32`, and is taken for zero
    have hzero : u32 entries.length = 0 := by
      unfold u32 at hlt ⊢
      omega
    rw [hzero] at hx
    cases hx
  case isFalse =>
    obtain ⟨i, -, rfl⟩ := List.mem_map.mp hx
    rfl

end SrsChatRoom.Kernel.Mp4
