import SrsChatRoom.App.HlsMuxer
import SrsChatRoom.Lib.System

/-!
# The playlist on the disk

* `shrink_shortest` - what stays in the window;
* `lists_playlist` - a playlist is valid if the files of its segments are there;
* `Proper` - the steps that keep the playlist valid: the segments that are kept are whole, and
  their files are deleted only after a new playlist is there.
-/

namespace SrsChatRoom.App.HlsMuxer

open Function (update update_of_ne update_self)

/-! ## The window -/

/-- A suffix of the segments that were kept is as long as the window asks for: it is all of them,
or the shortest one that is longer than the window. -/
def Shortest (window : ℤ) (kept listed : List SrsHlsSegment) : Prop :=
  listed <:+ kept ∧
    (listed = kept ∧ total kept ≤ window ∨
      window < total listed ∧
        ∀ t, t <:+ kept → t ≠ [] → window < total t → listed.length ≤ t.length)

section
variable {window : ℤ} {fragments : List SrsHlsSegment}

theorem total_cons (s : SrsHlsSegment) (rest : List SrsHlsSegment) :
    total (s :: rest) = s.dur + total rest := by
  simp [total]

/-- The loop stops at the newest index from which on the fragments are longer than the window. -/
theorem removeIndex_spec {i : ℕ} (hi : i ≤ fragments.length) :
    let r := removeIndex window fragments i (total (fragments.drop i))
    r ≤ i - 1 ∧ (∀ j, r < j → j < i → total (fragments.drop j) ≤ window) ∧
      (window < total (fragments.drop r) ∨
        r = 0 ∧ (i = 0 ∨ total fragments ≤ window)) := by
  induction i with
  | zero => exact ⟨le_refl _, fun j _ hj => absurd hj (by omega), Or.inr ⟨rfl, Or.inl rfl⟩⟩
  | succ i ih =>
    have hlt : i < fragments.length := hi
    have hdrop : fragments.drop i = fragments[i] :: fragments.drop (i + 1) :=
      List.drop_eq_getElem_cons hlt
    have hsum : total (fragments.drop (i + 1)) + (fragments[i]?.elim 0 SrsHlsSegment.dur)
        = total (fragments.drop i) := by
      rw [hdrop, total_cons, List.getElem?_eq_getElem hlt]
      exact Int.add_comm _ _
    simp only [removeIndex, hsum]
    by_cases hlong : total (fragments.drop i) > window
    · rw [if_pos hlong]
      exact ⟨le_refl _, fun j h1 h2 => absurd h2 (by omega), Or.inl hlong⟩
    · rw [if_neg hlong]
      obtain ⟨hle, hshort, hend⟩ := ih (le_of_lt hlt)
      refine ⟨by omega, ?_, ?_⟩
      · intro j hrj hji
        by_cases hj : j = i
        · rw [hj]
          exact not_lt.mp hlong
        · exact hshort j hrj (by omega)
      · obtain hgt | ⟨hr, hi0 | htotal⟩ := hend
        · exact Or.inl hgt
        · refine Or.inr ⟨hr, Or.inr ?_⟩
          rw [hi0] at hlong
          exact not_lt.mp hlong
        · exact Or.inr ⟨hr, Or.inr htotal⟩

/-- What `shrink` keeps. -/
theorem shrink_shortest : Shortest window fragments (shrink window fragments).1 := by
  have hspec := @removeIndex_spec window fragments fragments.length (le_refl _)
  rw [List.drop_length] at hspec
  obtain ⟨-, hshort, hend⟩ := hspec
  refine ⟨List.drop_suffix _ _, ?_⟩
  show fragments.drop _ = _ ∧ _ ∨ _
  obtain hgt | ⟨hr, hnil | htotal⟩ := hend
  · refine Or.inr ⟨hgt, ?_⟩
    rintro t ⟨pre, rfl⟩ hne hlong
    -- a longer index would leave a shorter suffix
    have hdrop : (pre ++ t).drop pre.length = t := List.drop_left
    have hlength : pre.length < (pre ++ t).length := by
      have := List.length_pos_iff.mpr hne
      simp only [List.length_append]
      omega
    by_contra hcontra
    have hlt : removeIndex window (pre ++ t) (pre ++ t).length 0 < pre.length := by
      simp only [shrink, List.length_drop, List.length_append] at hcontra ⊢
      omega
    have hle := hshort pre.length hlt hlength
    rw [hdrop] at hle
    omega
  · have hnil' : fragments = [] := List.length_eq_zero_iff.mp hnil
    subst hnil'
    by_cases hw : (0 : ℤ) ≤ window
    · exact Or.inl ⟨rfl, hw⟩
    · refine Or.inr ⟨not_le.mp hw, ?_⟩
      intro t ht hne
      exact absurd (List.suffix_nil.mp ht) hne
  · refine Or.inl ⟨?_, htotal⟩
    show fragments.drop (removeIndex window fragments fragments.length 0) = fragments
    rw [show removeIndex window fragments fragments.length 0 = 0 from hr, List.drop_zero]

theorem shrink_append : (shrink window fragments).2 ++ (shrink window fragments).1 = fragments :=
  List.take_append_drop _ _

theorem shrink_nil (hnil : (shrink window fragments).1 = []) : fragments = [] := by
  have hspec := @removeIndex_spec window fragments fragments.length (le_refl _)
  rw [List.drop_length] at hspec
  have hle := hspec.1
  have hlen := List.drop_eq_nil_iff.mp (show fragments.drop _ = [] from hnil)
  change fragments.length ≤ removeIndex window fragments fragments.length (total []) at hlen
  apply List.length_eq_zero_iff.mp
  omega

theorem total_drop_le (i : ℕ) (h : ∀ s ∈ fragments, 0 ≤ s.dur) :
    total (fragments.drop i) ≤ total fragments := by
  have hsplit : total fragments = total (fragments.take i) + total (fragments.drop i) := by
    rw [total, total, total, ← List.sum_append, ← List.map_append, List.take_append_drop]
  have hnonneg : 0 ≤ total (fragments.take i) := by
    apply List.sum_nonneg
    intro d hd
    obtain ⟨s, hs, rfl⟩ := List.mem_map.mp hd
    exact h s (List.mem_of_mem_take hs)
  omega

/-- As long as the window holds all but the oldest one, no segment expires. -/
theorem shrink_eq (hdur : ∀ s ∈ fragments, 0 ≤ s.dur) (h : total fragments.tail ≤ window) :
    shrink window fragments = (fragments, []) := by
  have hspec := @removeIndex_spec window fragments fragments.length (le_refl _)
  rw [List.drop_length] at hspec
  obtain ⟨-, -, hend⟩ := hspec
  have hzero : removeIndex window fragments fragments.length 0 = 0 := by
    obtain hgt | ⟨hr, -⟩ := hend
    · by_contra hne
      -- the suffix from that index on is a part of the tail
      have hle : total (fragments.drop (removeIndex window fragments fragments.length 0)) ≤
          total fragments.tail := by
        obtain ⟨i, hi⟩ := Nat.exists_eq_succ_of_ne_zero hne
        rw [hi, ← List.drop_one, Nat.succ_eq_add_one, Nat.add_comm, ← List.drop_drop]
        exact total_drop_le i fun s hs => hdur s (List.mem_of_mem_drop hs)
      exact absurd (lt_of_lt_of_le hgt (hle.trans h)) (lt_irrefl _)
    · exact hr
  rw [shrink, hzero]
  rfl

end

/-! ## Reading a playlist -/

def mediaSequences (lines : List Line) : List ℕ :=
  lines.filterMap fun
    | .mediaSequence n => some n
    | _ => none

def targetDurations (lines : List Line) : List ℤ :=
  lines.filterMap fun
    | .targetDuration n => some n
    | _ => none

def durations (lines : List Line) : List ℤ :=
  lines.filterMap fun
    | .extinf n => some n
    | _ => none

def uris (lines : List Line) : List Path :=
  lines.filterMap fun
    | .uri path => some path
    | _ => none

/-- What a playlist lists: the numbers of its segments are those of their files, which are there,
complete, and in the order of their creation, and no segment takes more than the target duration,
rounded to the nearest second. -/
structure Lists (files : Path → Option TsFile) (lines : List Line) (first : ℕ) (target : ℤ)
    (listed : List TsFile) : Prop where
  mediaSequence : mediaSequences lines = [first]
  targetDuration : targetDurations lines = [target]
  files : (uris lines).map files = listed.map some
  whole : ∀ f ∈ listed, f.whole = true
  order : listed.Pairwise fun f g => f.birth < g.birth
  numbers : listed.map TsFile.sequenceNo = List.range' first listed.length
  durations : ∀ ms ∈ durations lines, (ms + 500) / 1000 ≤ target

/-- The playlist on the disk is valid, if there is one. -/
def Disk.Valid (d : Disk) : Prop :=
  ∀ lines, d.m3u8 = some lines → ∃ first target listed, Lists d.files lines first target listed

def Disk.listed (d : Disk) : List Path := d.m3u8.elim [] uris

section
variable {cfg : Config} {segments : List SrsHlsSegment} {first : ℕ}

/-- Lines are read segment by segment. -/
theorem filterMap_segments {β : Type} {f : Line → Option β} {g : SrsHlsSegment → List β}
    (h : ∀ s, (segmentLines cfg s).filterMap f = g s) :
    (segments.flatMap (segmentLines cfg)).filterMap f = segments.flatMap g := by
  rw [List.filterMap_flatMap]
  exact congrArg segments.flatMap (funext h)

theorem uris_segments : uris (segments.flatMap (segmentLines cfg)) = segments.map (·.filepath) := by
  refine (filterMap_segments fun s => ?_).trans (List.map_eq_flatMap ..).symm
  rw [segmentLines]
  split <;> split <;> rfl

theorem durations_segments :
    durations (segments.flatMap (segmentLines cfg)) = segments.map fun s => srsu2msi s.dur := by
  refine (filterMap_segments fun s => ?_).trans (List.map_eq_flatMap ..).symm
  rw [segmentLines]
  split <;> split <;> rfl

theorem mediaSequences_segments : mediaSequences (segments.flatMap (segmentLines cfg)) = [] := by
  refine (@filterMap_segments _ _ _ _ (fun _ => []) fun s => ?_).trans (by simp)
  rw [segmentLines]
  split <;> split <;> rfl

theorem targetDurations_segments : targetDurations (segments.flatMap (segmentLines cfg)) = [] := by
  refine (@filterMap_segments _ _ _ _ (fun _ => []) fun s => ?_).trans (by simp)
  rw [segmentLines]
  split <;> split <;> rfl

theorem uris_playlist : uris (playlist cfg first segments) = segments.map (·.filepath) :=
  uris_segments

/-- A duration, and a configured one, that an `int` of milliseconds holds. -/
def Fits (us : ℤ) : Prop := us / 1000 < 2 ^ 31

theorem Fits.max {a b : ℤ} (ha : Fits a) (hb : Fits b) : Fits (max a b) := by
  obtain h | h := max_choice a b
  · rwa [h]
  · rwa [h]

theorem srsu2msi_eq {us : ℤ} (h0 : 0 ≤ us) (h : Fits us) : srsu2msi us = us / 1000 := by
  have h : us / 1000 < 2 ^ 31 := h
  apply Int.bmod_eq_of_le <;> omega

theorem le_maxDuration (s : SrsHlsSegment) (hs : s ∈ segments) : s.dur ≤ maxDuration segments := by
  have hfold : ∀ (l : List SrsHlsSegment) (v : ℤ),
      v ≤ l.foldl (fun v s => max v s.dur) v ∧
        ∀ s ∈ l, s.dur ≤ l.foldl (fun v s => max v s.dur) v := by
    intro l
    induction l with
    | nil => exact fun v => ⟨le_refl v, fun s hs => by cases hs⟩
    | cons a l ih =>
      intro v
      obtain ⟨hv, hl⟩ := ih (max v a.dur)
      refine ⟨(le_max_left _ _).trans hv, ?_⟩
      intro s hs
      obtain rfl | hs := List.mem_cons.mp hs
      · exact (le_max_right _ _).trans hv
      · exact hl s hs
  exact (hfold segments 0).2 s hs

theorem maxDuration_fits (h : ∀ s ∈ segments, Fits s.dur) :
    0 ≤ maxDuration segments ∧ Fits (maxDuration segments) := by
  have hfold : ∀ (l : List SrsHlsSegment) (v : ℤ), (∀ s ∈ l, Fits s.dur) → 0 ≤ v → Fits v →
      0 ≤ l.foldl (fun v s => max v s.dur) v ∧ Fits (l.foldl (fun v s => max v s.dur) v) := by
    intro l
    induction l with
    | nil => exact fun v _ h0 hv => ⟨h0, hv⟩
    | cons a l ih =>
      intro v hl h0 hv
      apply ih
      · exact fun s hs => hl s (List.mem_cons_of_mem _ hs)
      · exact h0.trans (le_max_left _ _)
      · exact hv.max (hl a (List.mem_cons_self ..))
  exact hfold segments 0 h (le_refl _) (by unfold Fits; omega)

/-- A playlist is valid if the files of its segments are. -/
theorem lists_playlist {files : Path → Option TsFile} {listed : List TsFile}
    (hfits : ∀ s ∈ segments, 0 ≤ s.dur ∧ Fits s.dur) (hmax : Fits cfg.maxTd)
    (hfiles : segments.map (fun s => files s.filepath) = listed.map some)
    (hwhole : ∀ f ∈ listed, f.whole = true) (horder : listed.Pairwise fun f g => f.birth < g.birth)
    (hnumbers : listed.map TsFile.sequenceNo = List.range' first listed.length) :
    Lists files (playlist cfg first segments) first (targetDuration cfg segments) listed := by
  constructor
  · show first :: mediaSequences (segments.flatMap (segmentLines cfg)) = [first]
    rw [mediaSequences_segments]
  · show targetDuration cfg segments :: targetDurations (segments.flatMap (segmentLines cfg)) = _
    rw [targetDurations_segments]
  · rw [uris_playlist, List.map_map]
    exact hfiles
  · exact hwhole
  · exact horder
  · exact hnumbers
  · intro ms hms
    change ms ∈ durations (segments.flatMap (segmentLines cfg)) at hms
    rw [durations_segments] at hms
    obtain ⟨s, hs, rfl⟩ := List.mem_map.mp hms
    obtain ⟨h0, hfit⟩ := hfits s hs
    obtain ⟨hmax0, hmaxfit⟩ := maxDuration_fits fun s hs => (hfits s hs).2
    have hle : s.dur ≤ max (maxDuration segments) cfg.maxTd :=
      (le_maxDuration s hs).trans (le_max_left _ _)
    rw [targetDuration, srsu2msi_eq h0 hfit,
      srsu2msi_eq (hmax0.trans (le_max_left _ _)) (hmaxfit.max hmax)]
    omega

end

/-! ## The invariant -/

namespace SrsHlsMuxer

/-- The number of the segment that is written now, or that comes next. -/
def nextNo (m : SrsHlsMuxer) : ℕ := m.current.elim m.sequenceNo SrsHlsSegment.sequenceNo

def nextBirth (m : SrsHlsMuxer) : ℕ := m.current.elim m.births SrsHlsSegment.birth

/-- The segments in front of `shrink`. -/
def kept (cfg : Config) (m : SrsHlsMuxer) (cur : SrsHlsSegment) : List SrsHlsSegment :=
  if acceptable cfg cur then m.segments ++ [named cfg cur] else m.segments

end SrsHlsMuxer

open SrsHlsMuxer

/-- The kept segments and the disk, in front of a segment with a number. -/
structure Ordered (m : SrsHlsMuxer) (no birth : ℕ) : Prop where
  valid : m.disk.Valid
  moments : ∀ d ∈ m.moments, d.Valid
  empty : m.segments = [] → m.disk.m3u8 = none
  files : ∀ s ∈ m.segments, ∃ f, m.disk.files s.filepath = some f ∧ f.whole = true ∧
    f.birth = s.birth ∧ f.sequenceNo = s.sequenceNo
  fits : ∀ s ∈ m.segments, 0 ≤ s.dur ∧ Fits s.dur
  paths : (m.segments.map (·.filepath)).Nodup
  births : m.segments.Pairwise fun s t => s.birth < t.birth
  old : ∀ s ∈ m.segments, s.birth < birth
  numbers : ∃ first, m.segments.map (·.sequenceNo) = List.range' first m.segments.length ∧
    (m.segments ≠ [] → first + m.segments.length = no)

structure Inv (m : SrsHlsMuxer) : Prop where
  ordered : Ordered m m.nextNo m.nextBirth
  current : ∀ cur, m.current = some cur → cur.birth + 1 = m.births ∧
    cur.sequenceNo + 1 = m.sequenceNo
  temps : ∀ p f, m.disk.temps p = some f → f.birth < m.births ∧
    ∀ cur, m.current = some cur → f.birth = cur.birth → f.sequenceNo = cur.sequenceNo

section
variable {m : SrsHlsMuxer} {no birth : ℕ} {disk : Disk}

/-- Other files leave the playlist valid. -/
theorem Disk.Valid.files {d : Disk} (h : d.Valid) {files : Path → Option TsFile}
    (hfiles : ∀ p ∈ d.listed, files p = d.files p) : Disk.Valid { d with files := files } := by
  intro lines hlines
  obtain ⟨first, target, listed, hlists⟩ := h lines hlines
  refine ⟨first, target, listed, { hlists with files := ?_ }⟩
  rw [← hlists.files]
  apply List.map_congr_left
  intro p hp
  apply hfiles
  have hlisted : d.listed = uris lines := by
    rw [Disk.listed, show d.m3u8 = some lines from hlines]
    rfl
  rw [hlisted]
  exact hp

/-- A change of the disk that leaves the playlist and the files of the segments. -/
theorem Ordered.save (h : Ordered m no birth) (hm3u8 : disk.m3u8 = m.disk.m3u8)
    (hlisted : ∀ p ∈ m.disk.listed, disk.files p = m.disk.files p)
    (hkept : ∀ s ∈ m.segments, disk.files s.filepath = m.disk.files s.filepath) :
    Ordered (m.save disk) no birth := by
  have hvalid : disk.Valid := by
    intro lines hlines
    exact h.valid.files hlisted lines (hm3u8 ▸ hlines)
  refine { h with valid := hvalid, moments := ?_, empty := ?_, files := ?_ }
  · intro d hd
    obtain hd | hd := List.mem_append.mp hd
    · exact h.moments d hd
    · exact List.mem_singleton.mp hd ▸ hvalid
  · exact fun hnil => hm3u8.trans (h.empty hnil)
  · intro s hs
    obtain ⟨f, hf⟩ := h.files s hs
    exact ⟨f, (hkept s hs).trans hf.1, hf.2⟩

/-- A change of the disk that has nothing to do with the playlist. -/
theorem Ordered.saveTemp (h : Ordered m no birth) (hm3u8 : disk.m3u8 = m.disk.m3u8)
    (hfiles : disk.files = m.disk.files) : Ordered (m.save disk) no birth :=
  h.save hm3u8 (fun p _ => congrFun hfiles p) fun s _ => congrFun hfiles s.filepath

end

/-! ## Publishing -/

section
variable {cfg : Config} {m : SrsHlsMuxer} {no birth : ℕ} {io : CloseIo}

/-- The playlist is replaced. -/
def SrsHlsMuxer.CloseIo.refreshed (io : CloseIo) : Bool :=
  io.m3u8Opened ∧ io.m3u8Written ∧ io.m3u8Renamed

theorem Ordered.shrink (h : Ordered m no birth) (window : ℤ) :
    Ordered { m with segments := (shrink window m.segments).1 } no birth := by
  have hsuffix : (HlsMuxer.shrink window m.segments).1 <:+ m.segments := shrink_shortest.1
  have hmem : ∀ s ∈ (HlsMuxer.shrink window m.segments).1, s ∈ m.segments := fun s hs =>
    hsuffix.mem hs
  refine { h with
    empty := ?_, files := ?_, fits := ?_, paths := ?_, births := ?_, old := ?_, numbers := ?_ }
  · exact fun hnil => h.empty (shrink_nil hnil)
  · exact fun s hs => h.files s (hmem s hs)
  · exact fun s hs => h.fits s (hmem s hs)
  · exact (hsuffix.map _).sublist.nodup h.paths
  · exact h.births.sublist hsuffix.sublist
  · exact fun s hs => h.old s (hmem s hs)
  · obtain ⟨first, hnumbers, hlast⟩ := h.numbers
    set i := removeIndex window m.segments m.segments.length 0 with hi
    refine ⟨first + i, ?_, ?_⟩
    · show (m.segments.drop i).map _ = List.range' (first + i) (m.segments.drop i).length
      rw [List.map_drop, hnumbers, List.drop_range', List.length_drop, Nat.mul_one]
    · intro hne
      have hne' : m.segments ≠ [] := fun hnil => hne (by simp [HlsMuxer.shrink, hnil])
      have hpos : 0 < (m.segments.drop i).length := List.length_pos_iff.mpr hne
      show first + i + (m.segments.drop i).length = no
      rw [← hlast hne']
      rw [List.length_drop] at hpos ⊢
      omega

/-- A new playlist lists the segments that are kept. -/
theorem Ordered.refresh (h : Ordered m no birth) (hmax : Fits cfg.maxTd)
    (hrefreshed : io.refreshed = true) (hflushed : io.m3u8Flushed = none) :
    Ordered (m.refreshM3u8 cfg io).1 no birth ∧
      (m.refreshM3u8 cfg io).1.disk.listed = m.segments.map (·.filepath) ∧
      (m.refreshM3u8 cfg io).2 = .ok () := by
  obtain ⟨hopened, hwritten, hrenamed⟩ := of_decide_eq_true hrefreshed
  cases hsegments : m.segments with
  | nil =>
    rw [refreshM3u8, hsegments]
    refine ⟨h, ?_, rfl⟩
    show m.disk.listed = []
    rw [Disk.listed, h.empty hsegments]
    rfl
  | cons head rest =>
    have hrun : m.refreshM3u8 cfg io = (m.save { m.disk with
        m3u8 := some (playlist cfg head.sequenceNo m.segments) }, .ok ()) := by
      rw [refreshM3u8, hsegments]
      simp only [hopened, hwritten, hrenamed, hflushed, if_true, Option.getD_none,
        List.take_length]
    have hvalid : Disk.Valid { m.disk with
        m3u8 := some (playlist cfg head.sequenceNo m.segments) } := by
      intro lines hlines
      cases hlines
      have hchoice : ∀ s, ∃ f, s ∈ m.segments → m.disk.files s.filepath = some f ∧
          f.whole = true ∧ f.birth = s.birth ∧ f.sequenceNo = s.sequenceNo := by
        intro s
        by_cases hs : s ∈ m.segments
        · obtain ⟨f, hf⟩ := h.files s hs
          exact ⟨f, fun _ => hf⟩
        · exact ⟨⟨0, 0, true, none⟩, fun hin => absurd hin hs⟩
      choose file hfile using hchoice
      refine ⟨head.sequenceNo, targetDuration cfg m.segments, m.segments.map file, ?_⟩
      apply lists_playlist h.fits hmax
      · rw [List.map_map]
        exact List.map_congr_left fun s hs => (hfile s hs).1
      · intro f hf
        obtain ⟨s, hs, rfl⟩ := List.mem_map.mp hf
        exact (hfile s hs).2.1
      · rw [List.pairwise_map]
        refine h.births.imp_of_mem ?_
        intro s t hs ht hlt
        rw [(hfile s hs).2.2.1, (hfile t ht).2.2.1]
        exact hlt
      · obtain ⟨first, hnumbers, -⟩ := h.numbers
        have hfirst : first = head.sequenceNo := by
          rw [hsegments, List.map_cons, List.length_cons, List.range'_succ] at hnumbers
          exact (List.cons.inj hnumbers).1.symm
        rw [List.map_map, List.length_map, ← hfirst, ← hnumbers]
        exact List.map_congr_left fun s hs => (hfile s hs).2.2.2
    rw [hrun]
    refine ⟨{ h with valid := hvalid, moments := ?_, empty := ?_ }, ?_, rfl⟩
    · intro d hd
      obtain hd | hd := List.mem_append.mp hd
      · exact h.moments d hd
      · exact List.mem_singleton.mp hd ▸ hvalid
    · intro hnil
      exact absurd (hsegments.symm.trans hnil) (List.cons_ne_nil _ _)
    · rw [← hsegments]
      exact @uris_playlist cfg m.segments head.sequenceNo

theorem refreshM3u8_failed (hfailed : io.refreshed = false) : (m.refreshM3u8 cfg io).1 = m := by
  have hno : ¬ (io.m3u8Opened = true ∧ io.m3u8Written = true ∧ io.m3u8Renamed = true) :=
    of_decide_eq_false hfailed
  rw [refreshM3u8]
  split
  · rfl
  · split
    · next hopened =>
      split
      · next hwritten =>
        split
        · next hrenamed => exact absurd ⟨hopened, hwritten, hrenamed⟩ hno
        · rfl
      · rfl
    · rfl

theorem refreshM3u8_ok (hok : (m.refreshM3u8 cfg io).2 = .ok ()) :
    m.segments = [] ∨ io.refreshed = true := by
  rw [refreshM3u8] at hok
  split at hok
  · next hnil => exact Or.inl hnil
  · refine Or.inr (decide_eq_true ?_)
    split at hok
    · next hopened =>
      split at hok
      · next hwritten =>
        split at hok
        · next hrenamed => exact ⟨hopened, hwritten, hrenamed⟩
        · cases hok
      · cases hok
    · cases hok

theorem segments_refreshM3u8 (m : SrsHlsMuxer) : (m.refreshM3u8 cfg io).1.segments = m.segments := by
  rw [refreshM3u8]
  split
  · rfl
  · split <;> [split <;> [split <;> rfl; rfl]; rfl]

/-- Files are deleted of segments that are neither kept nor listed. -/
theorem Ordered.unlink (h : Ordered m no birth) (expired : List SrsHlsSegment)
    (hexpired : ∀ s ∈ expired, s.filepath ∉ m.disk.listed ∧
      ∀ t ∈ m.segments, t.filepath ≠ s.filepath) :
    Ordered (expired.foldl (unlinkFile cfg io) m) no birth ∧
      (expired.foldl (unlinkFile cfg io) m).disk.listed = m.disk.listed := by
  induction expired generalizing m with
  | nil => exact ⟨h, rfl⟩
  | cons s expired ih =>
    obtain ⟨hlisted, hkept⟩ := hexpired s (List.mem_cons_self ..)
    have hrest := fun t ht => hexpired t (List.mem_cons_of_mem _ ht)
    rw [List.foldl_cons, unlinkFile]
    split
    · refine ih (m := m.save _) ?_ hrest
      refine h.save rfl ?_ ?_
      · intro p hp
        have hne : p ≠ s.filepath := fun heq => hlisted (heq ▸ hp)
        exact update_of_ne hne ..
      · intro t ht
        exact update_of_ne (hkept t ht) ..
    · exact ih h hrest

theorem unlink_off (hcleanup : cfg.cleanup = false) (expired : List SrsHlsSegment) :
    expired.foldl (unlinkFile cfg io) m = m := by
  induction expired with
  | nil => rfl
  | cons s expired ih =>
    rw [List.foldl_cons, unlinkFile, if_neg (by simp [hcleanup])]
    exact ih

/-- The window moves on: a new playlist is there before a file is deleted, or none is deleted. -/
theorem Ordered.publish (h : Ordered m no birth) (hmax : Fits cfg.maxTd)
    (hflushed : io.refreshed = true → io.m3u8Flushed = none)
    (hdelete : io.refreshed = true ∨ cfg.cleanup = false ∨ total m.segments.tail ≤ cfg.window) :
    Ordered (m.publish cfg io).1 no birth ∧
      ((m.publish cfg io).2 = .ok () → (m.publish cfg io).1.disk.listed =
        (HlsMuxer.shrink cfg.window m.segments).1.map (·.filepath)) := by
  have hshrunk := h.shrink cfg.window
  simp only [SrsHlsMuxer.publish]
  by_cases hrefreshed : io.refreshed = true
  · obtain ⟨hordered, hlisted, -⟩ := hshrunk.refresh hmax hrefreshed (hflushed hrefreshed)
    have hsegments : (refreshM3u8 cfg { m with
        segments := (HlsMuxer.shrink cfg.window m.segments).1 } io).1.segments =
        (HlsMuxer.shrink cfg.window m.segments).1 := segments_refreshM3u8 _
    -- the expired segments have other paths than those that stay
    have hdisjoint : ∀ s ∈ (HlsMuxer.shrink cfg.window m.segments).2,
        ∀ t ∈ (HlsMuxer.shrink cfg.window m.segments).1, t.filepath ≠ s.filepath := by
      intro s hs t ht heq
      have hpaths := h.paths
      rw [← @shrink_append cfg.window m.segments, List.map_append] at hpaths
      exact (List.disjoint_of_nodup_append hpaths) (List.mem_map_of_mem hs)
        (heq ▸ List.mem_map_of_mem (f := fun s => s.filepath) ht)
    obtain ⟨hunlinked, hsame⟩ := @Ordered.unlink cfg _ no birth io hordered
      (HlsMuxer.shrink cfg.window m.segments).2 (by
        intro s hs
        rw [hlisted, hsegments]
        refine ⟨?_, hdisjoint s hs⟩
        intro hin
        obtain ⟨t, ht, heq⟩ := List.mem_map.mp hin
        exact hdisjoint s hs t ht heq)
    refine ⟨hunlinked, fun _ => ?_⟩
    rw [hsame, hlisted]
  · have hfailed : io.refreshed = false := by simpa using hrefreshed
    have hnothing : (HlsMuxer.shrink cfg.window m.segments).2.foldl (unlinkFile cfg io)
        { m with segments := (HlsMuxer.shrink cfg.window m.segments).1 } =
        { m with segments := (HlsMuxer.shrink cfg.window m.segments).1 } := by
      obtain hdone | hoff | hshort := hdelete
      · exact absurd hdone hrefreshed
      · exact unlink_off hoff _
      · rw [shrink_eq (fun s hs => (h.fits s hs).1) hshort]
        rfl
    rw [refreshM3u8_failed hfailed, hnothing]
    refine ⟨hshrunk, fun hok => ?_⟩
    obtain hnil | hdone := refreshM3u8_ok hok
    · change (HlsMuxer.shrink cfg.window m.segments).1 = [] at hnil
      have hnone : m.disk.m3u8 = none := hshrunk.empty hnil
      rw [hnil]
      show m.disk.listed = []
      rw [Disk.listed, hnone]
      rfl
    · exact absurd hdone hrefreshed

end

/-! ## The steps -/

namespace SrsHlsMuxer

/-- The temporary file of a segment is its own, and all of it is there. -/
def complete (m : SrsHlsMuxer) (cur : SrsHlsSegment) (io : CloseIo) : Bool :=
  (m.disk.temps cur.filepath).any fun f => f.birth = cur.birth ∧ f.whole ∧ (m.writer → io.flushed)

/-- The real name of a segment is the path of no other one. -/
def fresh (cfg : Config) (m : SrsHlsMuxer) (cur : SrsHlsSegment) : Bool :=
  (named cfg cur).filepath ∉ m.segments.map (·.filepath) ∧
    (named cfg cur).filepath ∉ m.disk.listed

/-- The rename of the temporary file succeeds. -/
def renames (m : SrsHlsMuxer) (cur : SrsHlsSegment) (io : CloseIo) : Bool :=
  io.renamed ∧ (m.disk.temps cur.filepath).isSome

end SrsHlsMuxer

/-- The steps that keep the playlist valid. A segment with an acceptable duration is complete, has
a path of its own, and is renamed, unless it would be the first in the window. The playlist is
written completely; if it cannot be replaced, no file is deleted. And all durations fit. -/
def Proper (cfg : Config) (m : SrsHlsMuxer) : Action → Prop
  | .segmentClose io => ∀ cur ∈ m.current, Fits cfg.maxTd ∧
    (acceptable cfg cur = true → Fits cur.dur ∧
      if m.renames cur io then m.complete cur io = true ∧ m.fresh cfg cur = true
      else m.segments = []) ∧
    (io.refreshed = true → io.m3u8Flushed = none) ∧
    (io.refreshed = true ∨ cfg.cleanup = false ∨ total (m.kept cfg cur).tail ≤ cfg.window)
  | _ => True

section
variable {cfg : Config} {m : SrsHlsMuxer}

/-- A change of the temporary and the key files. -/
theorem Inv.save (h : Inv m) {disk : Disk} (hm3u8 : disk.m3u8 = m.disk.m3u8)
    (hfiles : disk.files = m.disk.files)
    (htemps : ∀ p f, disk.temps p = some f → f.birth < m.births ∧
      ∀ cur, m.current = some cur → f.birth = cur.birth → f.sequenceNo = cur.sequenceNo) :
    Inv (m.save disk) :=
  ⟨h.ordered.saveTemp hm3u8 hfiles, h.current, htemps⟩

theorem Inv.tear (h : Inv m) (path : Path) : Inv (m.tear path) := by
  rw [SrsHlsMuxer.tear]
  refine h.save rfl rfl ?_
  intro p f hf
  change update m.disk.temps path _ p = some f at hf
  by_cases hp : p = path
  · rw [hp, update_self] at hf
    obtain ⟨g, hg, rfl⟩ := Option.map_eq_some_iff.mp hf
    exact h.temps path g hg
  · rw [update_of_ne hp] at hf
    exact h.temps p f hf

variable {cur : SrsHlsSegment}

/-- The current segment changes, but is the same one. -/
theorem Inv.setCurrent (h : Inv m) {cur' : SrsHlsSegment} (hcur : m.current = some cur)
    (hno : cur'.sequenceNo = cur.sequenceNo) (hbirth : cur'.birth = cur.birth) :
    Inv { m with current := some cur' } := by
  have hordered := h.ordered
  rw [nextNo, nextBirth, hcur] at hordered
  constructor
  · show Ordered { m with current := some cur' } cur'.sequenceNo cur'.birth
    rw [hno, hbirth]
    exact { hordered with }
  · intro c hc
    cases hc
    rw [hno, hbirth]
    exact h.current cur hcur
  · intro p f hf
    obtain ⟨hlt, hsame⟩ := h.temps p f hf
    refine ⟨hlt, fun c hc => ?_⟩
    cases hc
    rw [hno, hbirth]
    exact hsame cur hcur

theorem Inv.mapCurrent (h : Inv m) {g : SrsHlsSegment → SrsHlsSegment}
    (hg : ∀ s, (g s).sequenceNo = s.sequenceNo ∧ (g s).birth = s.birth) :
    Inv { m with current := m.current.map g } := by
  cases hcur : m.current with
  | none =>
    show Inv { m with current := none }
    rw [← hcur]
    exact h
  | some cur => exact h.setCurrent hcur (hg cur).1 (hg cur).2

/-- A new segment gets the next number. -/
theorem Inv.start (h : Inv m) (hcur : m.current = none) :
    Inv { m with
      current := some { sequenceNo := m.sequenceNo, birth := m.births }
      sequenceNo := m.sequenceNo + 1
      births := m.births + 1 } := by
  have hordered := h.ordered
  rw [nextNo, nextBirth, hcur] at hordered
  constructor
  · exact { hordered with }
  · intro c hc
    cases hc
    exact ⟨rfl, rfl⟩
  · intro p f hf
    obtain ⟨hlt, -⟩ := h.temps p f hf
    refine ⟨hlt.trans (Nat.lt_succ_self _), fun c hc hbirth => ?_⟩
    cases hc
    exact absurd hbirth (ne_of_lt hlt)

theorem Inv.rotateKey (h : Inv m) (cur : SrsHlsSegment) (io : OpenIo) :
    Inv (m.rotateKey cfg cur io).1 ∧ (m.rotateKey cfg cur io).1.current = m.current := by
  have hkey : Inv { m with key := io.key, iv := io.iv } :=
    ⟨{ h.ordered with }, h.current, h.temps⟩
  simp only [SrsHlsMuxer.rotateKey]
  split
  · split
    · exact ⟨hkey.save rfl rfl hkey.temps, rfl⟩
    · exact ⟨hkey.save rfl rfl hkey.temps, rfl⟩
  · exact ⟨hkey, rfl⟩

theorem Inv.writeHlsKey (h : Inv m) (cur : SrsHlsSegment) (io : OpenIo) :
    Inv (m.writeHlsKey cfg cur io).1 ∧ (m.writeHlsKey cfg cur io).1.current = m.current := by
  rw [SrsHlsMuxer.writeHlsKey]
  split
  · exact h.rotateKey cur io
  · exact ⟨h, rfl⟩

theorem Inv.openFile (h : Inv m) (hcur : m.current = some cur)
    (io : OpenIo) : Inv (m.openFile cfg cur io).1 := by
  have hno : (m.configCipher cfg cur).sequenceNo = cur.sequenceNo := by
    rw [configCipher]
    split <;> rfl
  have hbirth : (m.configCipher cfg cur).birth = cur.birth := by
    rw [configCipher]
    split <;> rfl
  have hset : ∀ path, Inv { m with
      current := some { m.configCipher cfg cur with filepath := path } } :=
    fun path => h.setCurrent hcur hno hbirth
  have hopen : ∀ path, Inv { m with
      current := some { m.configCipher cfg cur with filepath := path }
      writer := true } :=
    fun path => ⟨{ (hset path).ordered with }, (hset path).current, (hset path).temps⟩
  simp only [SrsHlsMuxer.openFile]
  split
  · split
    · refine (hopen _).save rfl rfl ?_
      intro p f hf
      obtain ⟨hborn, -⟩ := h.current cur hcur
      by_cases hp : p = cfg.tsFile cur.sequenceNo io.time
      · rw [hp] at hf
        change update m.disk.temps _ _ _ = some f at hf
        rw [update_self] at hf
        cases hf
        refine ⟨?_, fun c hc _ => ?_⟩
        · show (m.configCipher cfg cur).birth < m.births
          omega
        · cases hc
          rfl
      · change update m.disk.temps _ _ p = some f at hf
        rw [update_of_ne hp] at hf
        exact (hset _).temps p f hf
    · exact hset _
  · exact hset _

theorem Inv.segmentOpen (h : Inv m) (io : OpenIo) : Inv (m.segmentOpen cfg io).1 := by
  rw [SrsHlsMuxer.segmentOpen]
  split
  · exact h
  · next hcur =>
    obtain ⟨hkey, hsame⟩ := @Inv.writeHlsKey cfg _ (h.start hcur)
      { sequenceNo := m.sequenceNo, birth := m.births } io
    dsimp only
    split
    · next heq =>
      rw [heq] at hkey
      exact hkey
    · next heq =>
      rw [heq] at hkey hsame
      exact hkey.openFile hsame io

theorem Inv.updateDuration (h : Inv m) (dts : UInt64) : Inv (m.updateDuration dts) :=
  h.mapCurrent fun _ => ⟨rfl, rfl⟩

theorem Inv.flush (h : Inv m) (dts : UInt64) (written : Bool) : Inv (m.flush dts written).1 := by
  rw [SrsHlsMuxer.flush]
  split
  · exact h
  · split
    · exact h.updateDuration dts
    · dsimp only
      split
      · exact (h.updateDuration dts).tear _
      · exact h.updateDuration dts

theorem Inv.closeWriter (h : Inv m) (cur : SrsHlsSegment) (io : CloseIo) :
    Inv (m.closeWriter cur io) ∧ (m.closeWriter cur io).current = m.current := by
  have hwriter : Inv { m with writer := false } :=
    ⟨{ h.ordered with }, h.current, h.temps⟩
  simp only [SrsHlsMuxer.closeWriter]
  split
  · exact ⟨hwriter.tear _, rfl⟩
  · exact ⟨hwriter, rfl⟩

theorem Ordered.mono {no birth birth' : ℕ} (h : Ordered m no birth) (hle : birth ≤ birth') :
    Ordered m no birth' :=
  { h with old := fun s hs => (h.old s hs).trans_le hle }

/-- With no segment in the window, any number may come next. -/
theorem Ordered.ofNil {no birth no' birth' : ℕ} (h : Ordered m no birth) (hnil : m.segments = []) :
    Ordered m no' birth' := by
  refine { h with old := ?_, numbers := ?_ }
  · intro s hs
    rw [hnil] at hs
    cases hs
  · obtain ⟨first, hnumbers, -⟩ := h.numbers
    exact ⟨first, hnumbers, fun hne => absurd hnil hne⟩

theorem keep_run {io : CloseIo} {f : TsFile}
    (hf : m.disk.temps cur.filepath = some f) (hrenamed : io.renamed = true) :
    m.keep cfg cur io = (({ m with
      segments := m.segments ++ [named cfg cur], current := none }).save { m.disk with
        temps := update m.disk.temps cur.filepath none
        files := update m.disk.files (named cfg cur).filepath (some f) }, .ok ()) := by
  rw [SrsHlsMuxer.keep, hf, hrenamed]

/-- A complete segment is appended to the window. -/
theorem Ordered.keep {io : CloseIo} {f : TsFile}
    (h : Ordered m cur.sequenceNo cur.birth) (hf : m.disk.temps cur.filepath = some f)
    (hwhole : f.whole = true) (hbirth : f.birth = cur.birth)
    (hno : f.sequenceNo = cur.sequenceNo) (hfits : 0 ≤ cur.dur ∧ Fits cur.dur)
    (hfresh : m.fresh cfg cur = true) (hrenamed : io.renamed = true) :
    Ordered (m.keep cfg cur io).1 (cur.sequenceNo + 1) (cur.birth + 1) ∧
      (m.keep cfg cur io).2 = .ok () ∧
      (m.keep cfg cur io).1.segments = m.segments ++ [named cfg cur] := by
  obtain ⟨hpath, hlisted⟩ := of_decide_eq_true hfresh
  have hsaved : Ordered (m.save { m.disk with
      temps := update m.disk.temps cur.filepath none
      files := update m.disk.files (named cfg cur).filepath (some f) })
      cur.sequenceNo cur.birth := by
    refine h.save rfl ?_ ?_
    · intro p hp
      have hne : p ≠ (named cfg cur).filepath := fun heq => hlisted (heq ▸ hp)
      exact update_of_ne hne ..
    · intro s hs
      have hne : s.filepath ≠ (named cfg cur).filepath := by
        intro heq
        rw [← heq] at hpath
        exact hpath (List.mem_map_of_mem hs)
      exact update_of_ne hne ..
  rw [keep_run hf hrenamed]
  refine ⟨{ hsaved with
    empty := ?_, files := ?_, fits := ?_, paths := ?_, births := ?_, old := ?_, numbers := ?_ },
    rfl, rfl⟩
  · intro hnil
    cases (List.append_eq_nil_iff.mp hnil).2
  · intro s hs
    obtain hs | hs := List.mem_append.mp hs
    · exact hsaved.files s hs
    · obtain rfl := List.mem_singleton.mp hs
      exact ⟨f, update_self .., hwhole, hbirth, hno⟩
  · intro s hs
    obtain hs | hs := List.mem_append.mp hs
    · exact h.fits s hs
    · obtain rfl := List.mem_singleton.mp hs
      exact hfits
  · show ((m.segments ++ [named cfg cur]).map _).Nodup
    rw [List.map_append]
    refine List.nodup_append.mpr ⟨h.paths, by simp, ?_⟩
    intro p hp q hq heq
    rw [heq, List.mem_singleton.mp hq] at hp
    exact hpath hp
  · refine List.pairwise_append.mpr ⟨h.births, List.pairwise_singleton .., ?_⟩
    intro s hs t ht
    obtain rfl := List.mem_singleton.mp ht
    exact h.old s hs
  · intro s hs
    obtain hs | hs := List.mem_append.mp hs
    · exact (h.old s hs).trans (Nat.lt_succ_self _)
    · obtain rfl := List.mem_singleton.mp hs
      exact Nat.lt_succ_self _
  · obtain ⟨first, hnumbers, hlast⟩ := h.numbers
    by_cases hnil : m.segments = []
    · refine ⟨cur.sequenceNo, ?_, fun _ => ?_⟩
      · show (m.segments ++ [named cfg cur]).map _ = List.range' _ (m.segments ++ [named cfg cur]).length
        rw [hnil]
        rfl
      · show cur.sequenceNo + (m.segments ++ [named cfg cur]).length = _
        rw [hnil]
        rfl
    · refine ⟨first, ?_, fun _ => ?_⟩
      · show (m.segments ++ [named cfg cur]).map _ = List.range' _ (m.segments ++ [named cfg cur]).length
        rw [List.map_append, hnumbers, List.length_append, List.length_singleton, List.range'_1_concat,
          hlast hnil]
        rfl
      · show first + (m.segments ++ [named cfg cur]).length = _
        rw [← hlast hnil, List.length_append, List.length_singleton]
        omega

/-- What `publish` has nothing to do with. -/
theorem publish_same (m : SrsHlsMuxer) (io : CloseIo) :
    (m.publish cfg io).1.disk.temps = m.disk.temps ∧ (m.publish cfg io).1.births = m.births ∧
      (m.publish cfg io).1.sequenceNo = m.sequenceNo ∧
      (m.publish cfg io).1.segments = (HlsMuxer.shrink cfg.window m.segments).1 := by
  have hfold : ∀ (expired : List SrsHlsSegment) (m : SrsHlsMuxer),
      (expired.foldl (unlinkFile cfg io) m).disk.temps = m.disk.temps ∧
        (expired.foldl (unlinkFile cfg io) m).births = m.births ∧
        (expired.foldl (unlinkFile cfg io) m).sequenceNo = m.sequenceNo ∧
        (expired.foldl (unlinkFile cfg io) m).segments = m.segments := by
    intro expired
    induction expired with
    | nil => exact fun m => ⟨rfl, rfl, rfl, rfl⟩
    | cons s expired ih =>
      intro m
      obtain ⟨htemps, hbirths, hno, hsegments⟩ := ih (unlinkFile cfg io m s)
      rw [List.foldl_cons, htemps, hbirths, hno, hsegments, unlinkFile]
      split
      · exact ⟨rfl, rfl, rfl, rfl⟩
      · exact ⟨rfl, rfl, rfl, rfl⟩
  have hrefresh : ∀ m : SrsHlsMuxer, (m.refreshM3u8 cfg io).1.disk.temps = m.disk.temps ∧
      (m.refreshM3u8 cfg io).1.births = m.births ∧
      (m.refreshM3u8 cfg io).1.sequenceNo = m.sequenceNo := by
    intro m
    rw [refreshM3u8]
    split
    · exact ⟨rfl, rfl, rfl⟩
    · split <;> [split <;> [split <;> exact ⟨rfl, rfl, rfl⟩; exact ⟨rfl, rfl, rfl⟩];
        exact ⟨rfl, rfl, rfl⟩]
  obtain ⟨htemps, hbirths, hno, hsegments⟩ := hfold (HlsMuxer.shrink cfg.window m.segments).2
    (refreshM3u8 cfg { m with segments := (HlsMuxer.shrink cfg.window m.segments).1 } io).1
  obtain ⟨htemps', hbirths', hno'⟩ := hrefresh { m with
    segments := (HlsMuxer.shrink cfg.window m.segments).1 }
  exact ⟨htemps.trans htemps', hbirths.trans hbirths', hno.trans hno',
    hsegments.trans (segments_refreshM3u8 _)⟩

/-- A muxer without a current segment. -/
theorem Ordered.closed (h : Ordered m m.sequenceNo m.births)
    (htemps : ∀ p f, m.disk.temps p = some f → f.birth < m.births) :
    Inv { m with current := none } :=
  ⟨{ h with }, fun _ hc => by (cases hc), fun p f hf => ⟨htemps p f hf, fun _ hc => by (cases hc)⟩⟩

/-- What a close that succeeds leaves. -/
def Closed (cfg : Config) (m m' : SrsHlsMuxer) (cur : SrsHlsSegment) : Prop :=
  Shortest cfg.window (m.kept cfg cur) m'.segments ∧
    m'.disk.listed = m'.segments.map (·.filepath)

section
variable {cur : SrsHlsSegment} {io : CloseIo}

theorem closeWriter_same (m : SrsHlsMuxer) (cur : SrsHlsSegment) (io : CloseIo) :
    (m.closeWriter cur io).segments = m.segments ∧
      (m.closeWriter cur io).sequenceNo = m.sequenceNo ∧
      (m.closeWriter cur io).births = m.births ∧
      (m.closeWriter cur io).disk.listed = m.disk.listed ∧
      ((m.closeWriter cur io).disk.temps cur.filepath).isSome =
        (m.disk.temps cur.filepath).isSome := by
  simp only [SrsHlsMuxer.closeWriter]
  split
  · refine ⟨rfl, rfl, rfl, rfl, ?_⟩
    show (update m.disk.temps cur.filepath _ cur.filepath).isSome = _
    rw [update_self, Option.isSome_map]
  · exact ⟨rfl, rfl, rfl, rfl, rfl⟩

theorem exists_complete (hcomplete : m.complete cur io = true) :
    ∃ f, (m.closeWriter cur io).disk.temps cur.filepath = some f ∧ f.whole = true ∧
      f.birth = cur.birth := by
  obtain ⟨f, hf, hall⟩ := (Option.any_eq_true ..).mp hcomplete
  obtain ⟨hbirth, hwhole, hflushed⟩ := of_decide_eq_true hall
  refine ⟨f, ?_, hwhole, hbirth⟩
  simp only [SrsHlsMuxer.closeWriter]
  split
  · next hno => exact absurd (hflushed hno.1) hno.2
  · exact hf

theorem keep_failed (hrenames : ¬ m.renames cur io = true) :
    (m.closeWriter cur io).keep cfg cur io = (m.closeWriter cur io, .error .rename) := by
  obtain ⟨-, -, -, -, hsome⟩ := closeWriter_same m cur io
  rw [SrsHlsMuxer.keep]
  split
  · next f hf hrenamed =>
    rw [hf] at hsome
    exact absurd (decide_eq_true ⟨hrenamed, hsome.symm⟩) hrenames
  · rfl

/-- The temporary files stay those of older segments. -/
theorem temps_update {temps : Path → Option TsFile} {births : ℕ}
    (h : ∀ p f, temps p = some f → f.birth < births) (path : Path) :
    ∀ p f, update temps path none p = some f → f.birth < births := by
  intro p f hf
  by_cases hp : p = path
  · rw [hp, update_self] at hf
    cases hf
  · rw [update_of_ne hp] at hf
    exact h p f hf

/-- The segment gets its name, if the rename succeeds. -/
theorem Inv.keepOrFail (h : Inv m) (hcur : m.current = some cur)
    (hproper : Proper cfg m (.segmentClose io)) (hacceptable : acceptable cfg cur = true) :
    let m' := (m.closeWriter cur io).keep cfg cur io
    Ordered m'.1 (cur.sequenceNo + 1) (cur.birth + 1) ∧
      m'.1.sequenceNo = cur.sequenceNo + 1 ∧ m'.1.births = cur.birth + 1 ∧
      (∀ p f, m'.1.disk.temps p = some f → f.birth < m'.1.births) ∧
      (m'.2 = .ok () → m'.1.segments = m.kept cfg cur) := by
  obtain ⟨-, hok, -⟩ := hproper cur hcur
  obtain ⟨hfits, hrename⟩ := hok hacceptable
  obtain ⟨hwriter, hcurrent⟩ := h.closeWriter cur io
  obtain ⟨hsegments, hsequence, hbirths, hlisted, -⟩ := closeWriter_same m cur io
  have htemps : ∀ p f, (m.closeWriter cur io).disk.temps p = some f →
      f.birth < (m.closeWriter cur io).births := fun p f hf => (hwriter.temps p f hf).1
  have hordered : Ordered (m.closeWriter cur io) cur.sequenceNo cur.birth := by
    have hordered := hwriter.ordered
    rw [nextNo, nextBirth, hcurrent, hcur] at hordered
    exact hordered
  obtain ⟨hbirth, hno⟩ := h.current cur hcur
  dsimp only
  by_cases hrenames : m.renames cur io = true
  · rw [if_pos hrenames] at hrename
    obtain ⟨hrenamed, -⟩ := of_decide_eq_true hrenames
    obtain ⟨f, hf, hwhole, hfbirth⟩ := exists_complete hrename.1
    have hfno := (hwriter.temps _ f hf).2 cur (hcurrent.trans hcur) hfbirth
    have hdur : 0 ≤ cur.dur := by
      have hmin := (of_decide_eq_true hacceptable).1
      rw [segmentMinDuration] at hmin
      omega
    have hfresh : (m.closeWriter cur io).fresh cfg cur = true := by
      rw [fresh, hsegments, hlisted]
      exact hrename.2
    obtain ⟨hkeep, hresult, hkept⟩ := @Ordered.keep cfg _ cur io f hordered hf hwhole hfbirth hfno
      ⟨hdur, hfits⟩ hfresh hrenamed
    have hrun := @keep_run cfg _ cur io f hf hrenamed
    refine ⟨hkeep, ?_, ?_, ?_, ?_⟩
    · rw [hrun]
      exact hsequence.trans hno.symm
    · rw [hrun]
      exact hbirths.trans hbirth.symm
    · rw [hrun]
      exact temps_update htemps _
    · intro _
      rw [hkept, hsegments, kept, if_pos hacceptable]
  · rw [if_neg hrenames] at hrename
    rw [keep_failed hrenames]
    refine ⟨hordered.ofNil (hsegments.trans hrename), hsequence.trans hno.symm,
      hbirths.trans hbirth.symm, htemps, fun hok => ?_⟩
    cases hok

/-- The number of a dropped segment is used again. -/
theorem Inv.dropOrFail (h : Inv m) (hcur : m.current = some cur)
    (hacceptable : ¬ acceptable cfg cur = true) :
    let m' := (m.closeWriter cur io).drop cur io
    Ordered m'.1 cur.sequenceNo (cur.birth + 1) ∧
      m'.1.sequenceNo = cur.sequenceNo ∧ m'.1.births = cur.birth + 1 ∧
      (∀ p f, m'.1.disk.temps p = some f → f.birth < m'.1.births) ∧
      m'.1.segments = m.kept cfg cur := by
  obtain ⟨hwriter, hcurrent⟩ := h.closeWriter cur io
  obtain ⟨hsegments, hsequence, hbirths, -, -⟩ := closeWriter_same m cur io
  have hordered : Ordered (m.closeWriter cur io) cur.sequenceNo (cur.birth + 1) := by
    have hordered := hwriter.ordered
    rw [nextNo, nextBirth, hcurrent, hcur] at hordered
    exact Ordered.mono hordered (Nat.le_succ _)
  obtain ⟨hbirth, hno⟩ := h.current cur hcur
  have hless : (m.closeWriter cur io).sequenceNo - 1 = cur.sequenceNo := by omega
  have hkept : (m.closeWriter cur io).segments = m.kept cfg cur := by
    rw [hsegments, kept, if_neg hacceptable]
  have htemps : ∀ p f, (m.closeWriter cur io).disk.temps p = some f →
      f.birth < (m.closeWriter cur io).births := fun p f hf => (hwriter.temps p f hf).1
  have hreused : Ordered { m.closeWriter cur io with
      sequenceNo := (m.closeWriter cur io).sequenceNo - 1 } cur.sequenceNo (cur.birth + 1) :=
    { hordered with }
  simp only [SrsHlsMuxer.drop]
  split
  · exact ⟨hreused.saveTemp rfl rfl, hless, hbirths.trans hbirth.symm, temps_update htemps _, hkept⟩
  · exact ⟨hreused, hless, hbirths.trans hbirth.symm, htemps, hkept⟩

/-- From a segment that is kept or dropped to the new playlist. -/
theorem Ordered.publishClosed {no birth : ℕ} {m' : SrsHlsMuxer} (h : Ordered m' no birth)
    (hno : m'.sequenceNo = no) (hbirth : m'.births = birth)
    (htemps : ∀ p f, m'.disk.temps p = some f → f.birth < m'.births)
    (hkept : m'.segments = m.kept cfg cur) (hcur : m.current = some cur)
    (hproper : Proper cfg m (.segmentClose io)) :
    Inv { (m'.publish cfg io).1 with current := none } ∧
      ((m'.publish cfg io).2 = .ok () → Closed cfg m (m'.publish cfg io).1 cur) := by
  obtain ⟨hmax, -, hflushed, hdelete⟩ := hproper cur hcur
  rw [← hkept] at hdelete
  obtain ⟨hordered, hlisted⟩ := h.publish hmax hflushed hdelete
  obtain ⟨htemps', hbirths', hno', hsegments'⟩ := @publish_same cfg m' io
  refine ⟨Ordered.closed ?_ ?_, fun hok => ⟨?_, ?_⟩⟩
  · rw [hno', hno, hbirths', hbirth]
    exact hordered
  · rw [htemps', hbirths']
    exact htemps
  · rw [hsegments', ← hkept]
    exact shrink_shortest
  · rw [hsegments']
    exact hlisted hok

theorem Inv.doSegmentClose (h : Inv m) (hcur : m.current = some cur)
    (hproper : Proper cfg m (.segmentClose io)) :
    Inv { (m.doSegmentClose cfg cur io).1 with current := none } ∧
      ((m.doSegmentClose cfg cur io).2 = .ok () →
        Closed cfg m (m.doSegmentClose cfg cur io).1 cur) := by
  rw [SrsHlsMuxer.doSegmentClose]
  by_cases hacceptable : acceptable cfg cur = true
  · obtain ⟨hordered, hno, hbirth, htemps, hkept⟩ := h.keepOrFail hcur hproper hacceptable
    simp only [if_pos hacceptable]
    split
    · next heq =>
      rw [heq] at hordered hno hbirth htemps
      refine ⟨Ordered.closed ?_ htemps, fun hok => by cases hok⟩
      rw [hno, hbirth]
      exact hordered
    · next heq =>
      rw [heq] at hordered hno hbirth htemps hkept
      exact hordered.publishClosed hno hbirth htemps (hkept rfl) hcur hproper
  · obtain ⟨hordered, hno, hbirth, htemps, hkept⟩ := @Inv.dropOrFail cfg m cur io h hcur hacceptable
    simp only [if_neg hacceptable]
    split
    · next heq =>
      rw [heq] at hordered hno hbirth htemps
      refine ⟨Ordered.closed ?_ htemps, fun hok => by cases hok⟩
      rw [hno, hbirth]
      exact hordered
    · next heq =>
      rw [heq] at hordered hno hbirth htemps hkept
      exact hordered.publishClosed hno hbirth htemps hkept hcur hproper

theorem Inv.segmentClose (h : Inv m) (hproper : Proper cfg m (.segmentClose io)) :
    Inv (m.segmentClose cfg io).1 ∧ ∀ cur, m.current = some cur →
      (m.segmentClose cfg io).2 = .ok () → Closed cfg m (m.segmentClose cfg io).1 cur := by
  rw [SrsHlsMuxer.segmentClose]
  split
  · next hcur => exact ⟨h, fun cur hc => by rw [hcur] at hc; cases hc⟩
  · next cur hcur =>
    obtain ⟨hinv, hclosed⟩ := h.doSegmentClose hcur hproper
    refine ⟨hinv, fun c hc hok => ?_⟩
    obtain rfl := Option.some.inj (hcur.symm.trans hc)
    exact hclosed hok

end

theorem Inv.step (h : Inv m) {a : Action} (hproper : Proper cfg m a) {t : SrsHlsMuxer}
    (ht : step cfg m a = some t) : Inv t := by
  cases a with
  | segmentOpen io =>
    cases ht
    exact h.segmentOpen io
  | onSequenceHeader =>
    cases ht
    exact h.mapCurrent fun _ => ⟨rfl, rfl⟩
  | updateDuration dts =>
    cases ht
    exact h.updateDuration dts
  | flush dts written =>
    cases ht
    exact h.flush dts written
  | segmentClose io =>
    cases ht
    exact (h.segmentClose hproper).1

theorem inv_new : Inv .new := by
  constructor
  · constructor <;> simp [SrsHlsMuxer.new, Disk.Valid]
  · intro cur hc
    cases hc
  · intro p f hf
    cases hf

/-- Over all such runs, the playlist is valid at every moment, and lists what the window asks for
after a close that succeeds. -/
theorem playlist_valid_of_proper_runs (cfg : Config)
    (hrun : System.Reaches (step cfg) (Proper cfg) .new m) :
    (∀ d ∈ m.moments, d.Valid) ∧ m.disk.Valid ∧
      ∀ cur io, m.current = some cur → Proper cfg m (.segmentClose io) →
        (m.segmentClose cfg io).2 = .ok () → Closed cfg m (m.segmentClose cfg io).1 cur := by
  have hinv : Inv m :=
    System.Reaches.invariant (fun _ _ _ h hproper ht => h.step hproper ht) hrun inv_new
  refine ⟨hinv.ordered.moments, hinv.ordered.valid, ?_⟩
  intro cur io hcur hproper
  exact (hinv.segmentClose hproper).2 cur hcur

instance (us : ℤ) : Decidable (Fits us) := inferInstanceAs (Decidable (us / 1000 < 2 ^ 31))

instance (cfg : Config) (m : SrsHlsMuxer) (a : Action) : Decidable (Proper cfg m a) := by
  cases a <;> simp only [Proper] <;> infer_instance

/-- A window of one second, and segments of up to some minutes. -/
def oneSecond : Config where
  maxTd := 10000000
  window := 1000000
  cleanup := true
  keys := false
  fragmentsPerKey := 1
  tsFile n _ := if n = 0 then "live-0.ts" else if n = 1 then "live-1.ts" else "live-2.ts"
  withDuration path _ := path
  keyFile _ := "live.key"

/-- A segment of one second. -/
def oneSegment (io : CloseIo) : List Action :=
  [.segmentOpen {}, .flush 0 true, .flush 90000 true, .segmentClose io]

/-- The playlist of two segments. -/
theorem playlist_valid_of_two_segments :
    ∃ m, System.Reaches (step oneSecond) (Proper oneSecond) .new m ∧ m.disk.Valid ∧
      m.disk.listed = ["live-0.ts", "live-1.ts"] := by
  obtain ⟨m, hrun, -, hlisted⟩ := System.reaches_of_observe (step oneSecond) (Proper oneSecond) .new
    (oneSegment {} ++ oneSegment {}) (fun m => m.disk.listed) (b := ["live-0.ts", "live-1.ts"])
    (by decide +kernel)
  exact ⟨m, hrun, (playlist_valid_of_proper_runs oneSecond hrun).2.1, hlisted⟩

/-- The new playlist cannot be opened when the first segment expires: its file is deleted, and the
playlist that is there still lists it. -/
theorem expired_segment_listed :
    ∃ m, System.Reaches (step oneSecond) System.anyStep .new m ∧
      m.disk.listed = ["live-0.ts", "live-1.ts"] ∧ m.disk.files "live-0.ts" = none ∧
      ¬ m.disk.Valid := by
  obtain ⟨m, hrun, -, hobserved⟩ := System.reaches_of_observe (step oneSecond) System.anyStep .new
    (oneSegment {} ++ oneSegment {} ++ oneSegment { m3u8Opened := false })
    (fun m => (m.disk.m3u8.isSome, m.disk.listed, m.disk.files "live-0.ts"))
    (b := (true, ["live-0.ts", "live-1.ts"], none)) (by decide +kernel)
  obtain ⟨hsome, hrest⟩ := Prod.mk.inj hobserved
  obtain ⟨hlisted, hgone⟩ := Prod.mk.inj hrest
  refine ⟨m, hrun, hlisted, hgone, ?_⟩
  intro hvalid
  obtain ⟨lines, hlines⟩ := Option.isSome_iff_exists.mp hsome
  obtain ⟨first, target, listed, hlists⟩ := hvalid lines hlines
  have hfiles := hlists.files
  rw [Disk.listed, hlines] at hlisted
  rw [show uris lines = _ from hlisted, List.map_cons, hgone] at hfiles
  cases listed with
  | nil => cases hfiles
  | cons f rest => cases (List.cons.inj hfiles).1

end

end SrsChatRoom.App.HlsMuxer
