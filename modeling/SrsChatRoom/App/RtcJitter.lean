import Mathlib.Data.BitVec
import Mathlib.Tactic

/-!
# Jitter of sequence numbers and timestamps (`srs_app_rtc_source.hpp`)

`SrsRtcJitter` renumbers the packets of a track, so that they start at a base from the
configuration and go on across a jump of the source. It keeps the last value it has seen, and where
a value is farther than the threshold from it, the output goes on from the last one corrected.

The first value is compared with the last one as well, which is 0 then: `startsAndKeeps_iff` says
that the output starts at the base where this is near, or where the base is 0; the differences are
right in any case (`keeps_of_steady`).
-/

namespace SrsChatRoom.App

/-- `SrsRtcJitter<T, ST>`, for an unsigned type `T` of `w` bits. -/
structure SrsRtcJitter (w : ℕ) where
  threshold : ℤ
  pktBase : BitVec w
  pktLast : BitVec w
  correctBase : BitVec w
  correctLast : BitVec w
  base : BitVec w
  init : Bool
deriving DecidableEq

namespace SrsRtcJitter

variable {w : ℕ}

/-- `srs_rtp_seq_distance` and `srs_rtp_ts_distance` -/
def distance (prevValue value : BitVec w) : ℤ := (value - prevValue).toInt

/-- `SrsRtcJitter(base, threshold, distance)` -/
def new (base : BitVec w) (threshold : ℤ) : SrsRtcJitter w where
  threshold := threshold
  pktBase := 0
  pktLast := 0
  correctBase := 0
  correctLast := 0
  base := base
  init := false

/-- `correct(value)`, with the jitter after it. -/
def correct (j : SrsRtcJitter w) (value : BitVec w) : BitVec w × SrsRtcJitter w :=
  let j := if j.init then j else { j with init := true, correctBase := j.base, pktBase := value }
  let distance := distance value j.pktLast
  let j := if distance > j.threshold ∨ distance < -1 * j.threshold then
      { j with pktBase := value, correctBase := j.correctLast }
    else j
  let j := { j with pktLast := value, correctLast := j.correctBase + value - j.pktBase }
  (j.correctLast, j)

/-- `SrsRtcSeqJitter(base)` -/
def seqJitter (base : BitVec 16) : SrsRtcJitter 16 := new base 128

/-- `SrsRtcTsJitter(base)`: 3s in TBN=90K. -/
def tsJitter (base : BitVec 32) : SrsRtcJitter 32 := new base (3 * 90 * 1000)

/-- The values corrected, one after the other. -/
def correctAll (j : SrsRtcJitter w) : List (BitVec w) → List (BitVec w)
  | [] => []
  | value :: values => (j.correct value).1 :: (j.correct value).2.correctAll values

/-! ## Values near the last one -/

/-- The value is not farther than the threshold from the last one. -/
def Near (threshold : ℤ) (last value : BitVec w) : Prop := |distance value last| ≤ threshold

instance (threshold : ℤ) (last value : BitVec w) : Decidable (Near threshold last value) :=
  inferInstanceAs (Decidable (_ ≤ _))

theorem jumps_iff (threshold : ℤ) (last value : BitVec w) :
    (distance value last > threshold ∨ distance value last < -1 * threshold) ↔
      ¬ Near threshold last value := by
  unfold Near
  rw [abs_le]
  omega

variable {j : SrsRtcJitter w}

/-- Once initialized, a near value is corrected by the two bases. -/
theorem correct_near (hinit : j.init = true) {value : BitVec w}
    (hnear : Near j.threshold j.pktLast value) :
    j.correct value = (j.correctBase + value - j.pktBase, { j with
      pktLast := value, correctLast := j.correctBase + value - j.pktBase }) := by
  have hjump := (jumps_iff j.threshold j.pktLast value).not.mpr (not_not_intro hnear)
  simp only [correct, hinit, if_true, if_neg hjump]

/-- The first value is compared with 0. -/
theorem correct_first (base : BitVec w) (threshold : ℤ) (value : BitVec w) :
    ((new base threshold).correct value).1 = if Near threshold 0 value then base else 0 := by
  have hiff := jumps_iff threshold 0 value
  by_cases hnear : Near threshold 0 value
  · have hjump := hiff.not.mpr (not_not_intro hnear)
    simp only [correct, new, Bool.false_eq_true, if_false, if_neg hjump, if_pos hnear]
    exact BitVec.add_sub_cancel base value
  · have hjump := hiff.mpr hnear
    simp only [correct, new, Bool.false_eq_true, if_false, if_pos hjump, if_neg hnear]
    exact BitVec.add_sub_cancel 0 value

/-- What a correction leaves: the next one is compared with this value, and the difference of the
bases is that of the value corrected and the value. -/
structure Follows (threshold : ℤ) (offset value : BitVec w) (j : SrsRtcJitter w) : Prop where
  init : j.init = true
  threshold : j.threshold = threshold
  last : j.pktLast = value
  offset : j.correctBase - j.pktBase = offset

theorem follows_first (base : BitVec w) (threshold : ℤ) (value : BitVec w) :
    Follows threshold (((new base threshold).correct value).1 - value) value
      ((new base threshold).correct value).2 := by
  have hoffset : ∀ a : BitVec w, a - value = a + value - value - value := by
    intro a
    rw [BitVec.add_sub_cancel]
  unfold correct new
  by_cases hjump : distance value 0 > threshold ∨ distance value 0 < -1 * threshold
  · simp only [Bool.false_eq_true, if_false, if_pos hjump]
    exact ⟨rfl, rfl, rfl, hoffset 0⟩
  · simp only [Bool.false_eq_true, if_false, if_neg hjump]
    exact ⟨rfl, rfl, rfl, hoffset base⟩

/-- A near value keeps the offset. -/
theorem Follows.step {threshold : ℤ} {offset last value : BitVec w}
    (h : Follows threshold offset last j) (hnear : Near threshold last value) :
    (j.correct value).1 - value = offset ∧ Follows threshold offset value (j.correct value).2 := by
  rw [correct_near h.init (by rw [h.threshold, h.last]; exact hnear)]
  refine ⟨?_, h.init, h.threshold, rfl, h.offset⟩
  show j.correctBase + value - j.pktBase - value = offset
  rw [← h.offset]
  ring

/-! ## Runs -/

/-- Each value is near the one before it. -/
def Steady (threshold : ℤ) (values : List (BitVec w)) : Prop :=
  values.IsChain (Near threshold)

/-- The differences to the first value are those of the values corrected. -/
def Keeps (c0 v0 : BitVec w) (values corrected : List (BitVec w)) : Prop :=
  List.Forall₂ (fun v c => c - c0 = v - v0) values corrected

theorem Follows.keeps {threshold : ℤ} {c0 v0 last : BitVec w} {values : List (BitVec w)}
    (h : Follows threshold (c0 - v0) last j) (hsteady : Steady threshold (last :: values)) :
    Keeps c0 v0 values (j.correctAll values) := by
  induction values generalizing j last with
  | nil => exact List.Forall₂.nil
  | cons value values ih =>
    obtain ⟨hnear, hrest⟩ := List.isChain_cons_cons.mp hsteady
    obtain ⟨hvalue, hnext⟩ := h.step hnear
    refine List.Forall₂.cons ?_ (ih hnext hrest)
    have hsame : (j.correct value).1 = c0 - v0 + value := by
      rw [← hvalue]
      ring
    rw [hsame]
    ring

/-- Across jumps of the first value and across the wrap, the differences are right. -/
theorem keeps_of_steady (base : BitVec w) (threshold : ℤ) {v0 : BitVec w}
    {values : List (BitVec w)} (h : Steady threshold (v0 :: values)) :
    Keeps ((new base threshold).correct v0).1 v0 values
      (((new base threshold).correct v0).2.correctAll values) :=
  (follows_first base threshold v0).keeps h

/-- The output starts at the base, and differs from it as the values differ from the first. -/
def StartsAndKeeps (base : BitVec w) (threshold : ℤ) (v0 : BitVec w) (values : List (BitVec w)) :
    Prop :=
  ((new base threshold).correct v0).1 = base ∧
    (Steady threshold (v0 :: values) → Keeps ((new base threshold).correct v0).1 v0 values
      (((new base threshold).correct v0).2.correctAll values))

/-- The output starts at the base exactly where the first value is near 0, or the base is 0. -/
theorem startsAndKeeps_iff (base : BitVec w) (threshold : ℤ) (v0 : BitVec w)
    (values : List (BitVec w)) :
    StartsAndKeeps base threshold v0 values ↔ Near threshold 0 v0 ∨ base = 0 := by
  have hkeeps := @keeps_of_steady w base threshold v0 values
  have hstarts : ((new base threshold).correct v0).1 = base ↔
      Near threshold 0 v0 ∨ base = 0 := by
    rw [correct_first]
    by_cases hnear : Near threshold 0 v0
    · rw [if_pos hnear]
      exact iff_of_true rfl (Or.inl hnear)
    · rw [if_neg hnear]
      constructor
      · intro hzero
        exact Or.inr hzero.symm
      · intro h
        exact (h.resolve_left hnear).symm
  unfold StartsAndKeeps
  rw [hstarts]
  exact and_iff_left hkeeps

/-- The sequence numbers of an audio track, which starts at 129: the output starts at 0. -/
theorem seqJitter_starts_at_zero :
    ¬ ∀ v0 : BitVec 16, StartsAndKeeps 100 128 v0 [] := by
  intro h
  have hstart : ((seqJitter 100).correct 129).1 = 100 := (h 129).1
  exact absurd hstart (by decide)

example : (seqJitter 100).correctAll [0, 1, 2, 1, 139, 138] = [100, 101, 102, 101, 101, 100] := by
  decide

example : (tsJitter 10000).correctAll [300000, 303000] = [0, 3000] := by decide

end SrsRtcJitter

end SrsChatRoom.App
