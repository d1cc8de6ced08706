import Mathlib.Data.List.Chain
import Mathlib.Tactic

/-!
# The jitter of RTMP messages (`SrsRtmpJitter`, `srs_app_source.cpp`)

The full algorithm replaces a difference of two timestamps that is not in [-250, 250] by 10, and
adds it to a clock of its own, which it keeps from going below zero. A difference in [-250, 0) is
not replaced, so a small step back is passed on, unless the clock is still at zero
(`full_correction_iff`).

Timestamps are 64-bit integers, whose sums and differences wrap.
-/

namespace SrsChatRoom.App.RtmpJitter

/-- `CONST_MAX_JITTER_MS` -/
def constMaxJitterMs : Int64 := 250

/-- `CONST_MAX_JITTER_MS_NEG` -/
def constMaxJitterMsNeg : Int64 := -250

/-- `DEFAULT_FRAME_TIME_MS` -/
def defaultFrameTimeMs : Int64 := 10

/-- `SrsRtmpJitterAlgorithm` -/
inductive SrsRtmpJitterAlgorithm
  | full
  | zero
  | off
deriving DecidableEq, Repr

/-- `SrsSharedPtrMessage`: `is_av()` and the timestamp. -/
structure Message where
  isAv : Bool
  timestamp : Int64
deriving DecidableEq, Repr

/-- `srs_max(a, b)` -/
def srsMax (a b : Int64) : Int64 := if a < b then b else a

/-- `SrsRtmpJitter` -/
structure SrsRtmpJitter where
  lastPktCorrectTime : Int64
  lastPktTime : Int64
deriving DecidableEq, Repr

namespace SrsRtmpJitter

/-- `SrsRtmpJitter()` -/
def new : SrsRtmpJitter := ⟨-1, 0⟩

/-- `delta`, which is reset where jitter is detected. -/
def delta (last time : Int64) : Int64 :=
  let delta := time - last
  if delta < constMaxJitterMsNeg || constMaxJitterMs < delta then defaultFrameTimeMs else delta

/-- `correct(msg, ag)` -/
def correct (jitter : SrsRtmpJitter) (msg : Message) :
    SrsRtmpJitterAlgorithm → Message × SrsRtmpJitter
  | .off => (msg, jitter)
  | .zero =>
    let jitter := if jitter.lastPktCorrectTime = -1 then
        { jitter with lastPktCorrectTime := msg.timestamp }
      else jitter
    ({ msg with timestamp := msg.timestamp - jitter.lastPktCorrectTime }, jitter)
  | .full =>
    if !msg.isAv then ({ msg with timestamp := 0 }, jitter)
    else
      let time := msg.timestamp
      let correctTime := srsMax 0 (jitter.lastPktCorrectTime + delta jitter.lastPktTime time)
      ({ msg with timestamp := correctTime }, ⟨correctTime, time⟩)

/-- The messages that come out when some go in one after the other. -/
def correctAll (ag : SrsRtmpJitterAlgorithm) : SrsRtmpJitter → List Message → List Message
  | _, [] => []
  | jitter, msg :: rest =>
    let result := jitter.correct msg ag
    result.1 :: correctAll ag result.2 rest

end SrsRtmpJitter

open SrsRtmpJitter

/-- The timestamps of the audio and video messages. -/
def avTimes (msgs : List Message) : List Int64 := (msgs.filter Message.isAv).map Message.timestamp

/-- What the full algorithm promises: timestamps that are not negative, never decrease and never
jump by more than 250, whatever other messages come in between. -/
structure Promised (msgs : List Message) : Prop where
  nonneg : ∀ time ∈ avTimes (correctAll .full new msgs), 0 ≤ time.toInt
  steady : (avTimes (correctAll .full new msgs)).IsChain fun a b =>
    a.toInt ≤ b.toInt ∧ b.toInt ≤ a.toInt + constMaxJitterMs.toInt
  metadata : avTimes (correctAll .full new msgs) =
    avTimes (correctAll .full new (msgs.filter Message.isAv))

/-- The deltas of some timestamps. -/
def deltas : Int64 → List Int64 → List ℤ
  | _, [] => []
  | last, time :: rest => (delta last time).toInt :: deltas time rest

/-- The deltas as the clock sees them, which starts at -1. -/
def clockDeltas (times : List Int64) : List ℤ :=
  match deltas 0 times with
  | [] => []
  | e :: rest => (e - 1) :: rest

/-- From the first delta on that moves the clock away from zero, none is negative, and they add up
to a 64-bit integer. -/
def Forward (deltas : List ℤ) : Prop :=
  (∀ e ∈ deltas.dropWhile (· ≤ 0), 0 ≤ e) ∧ (deltas.dropWhile (· ≤ 0)).sum < 2 ^ 63

/-! ## One message -/

theorem delta_bounds (last time : Int64) :
    -250 ≤ (delta last time).toInt ∧ (delta last time).toInt ≤ 250 := by
  have hneg : constMaxJitterMsNeg.toInt = -250 := by decide
  have hpos : constMaxJitterMs.toInt = 250 := by decide
  have hdefault : defaultFrameTimeMs.toInt = 10 := by decide
  unfold delta
  by_cases hjitter : (time - last < constMaxJitterMsNeg || constMaxJitterMs < time - last) = true
  · rw [if_pos hjitter, hdefault]
    omega
  · rw [if_neg hjitter]
    rw [Bool.or_eq_true, decide_eq_true_eq, decide_eq_true_eq, not_or] at hjitter
    rw [Int64.lt_iff_toInt_lt, Int64.lt_iff_toInt_lt, hneg, hpos] at hjitter
    omega

/-- The clock behind a message. -/
theorem toInt_srsMax {c e : Int64} (hc : 0 ≤ c.toInt) (he : -250 ≤ e.toInt ∧ e.toInt ≤ 250) :
    (srsMax 0 (c + e)).toInt =
      if c.toInt + e.toInt < 2 ^ 63 then max 0 (c.toInt + e.toInt) else 0 := by
  have hlt := c.toInt_lt
  have hzero : (0 : Int64).toInt = 0 := rfl
  have hsum : (c + e).toInt = if c.toInt + e.toInt < 2 ^ 63 then c.toInt + e.toInt
      else c.toInt + e.toInt - 2 ^ 64 := by
    rw [Int64.toInt_add, Int.bmod_def]
    split
    · split
      · omega
      · omega
    · split
      · omega
      · omega
  unfold srsMax
  by_cases hfits : c.toInt + e.toInt < 2 ^ 63
  · rw [if_pos hfits] at hsum ⊢
    by_cases hpos : 0 < c + e
    · rw [if_pos hpos, hsum]
      rw [Int64.lt_iff_toInt_lt, hzero, hsum] at hpos
      omega
    · rw [if_neg hpos, hzero]
      rw [Int64.lt_iff_toInt_lt, hzero, hsum] at hpos
      omega
  · rw [if_neg hfits] at hsum ⊢
    rw [if_neg, hzero]
    rw [Int64.lt_iff_toInt_lt, hzero, hsum]
    omega

/-- When a message keeps what is promised. -/
theorem step_iff {c e : Int64} (hc : 0 ≤ c.toInt) (he : -250 ≤ e.toInt ∧ e.toInt ≤ 250) :
    (c.toInt ≤ (srsMax 0 (c + e)).toInt ∧ (srsMax 0 (c + e)).toInt ≤ c.toInt + 250) ↔
      c.toInt + e.toInt < 2 ^ 63 ∧ (0 ≤ e.toInt ∨ c.toInt = 0) := by
  rw [toInt_srsMax hc he]
  by_cases hfits : c.toInt + e.toInt < 2 ^ 63
  · rw [if_pos hfits]
    omega
  · rw [if_neg hfits]
    omega

/-! ## A run of messages -/

/-- The clock behind each audio or video message. -/
def clocks : SrsRtmpJitter → List Int64 → List Int64
  | _, [] => []
  | jitter, time :: rest =>
    let correctTime := srsMax 0 (jitter.lastPktCorrectTime + delta jitter.lastPktTime time)
    correctTime :: clocks ⟨correctTime, time⟩ rest

variable (jitter : SrsRtmpJitter)

/-- Metadata is stamped, and leaves the two clocks alone. -/
theorem correct_metadata {msg : Message} (hav : ¬msg.isAv = true) :
    jitter.correct msg .full = ({ msg with timestamp := 0 }, jitter) := by
  apply if_pos
  rw [Bool.not_eq_true] at hav
  rw [hav]
  rfl

theorem correct_av {msg : Message} (hav : msg.isAv = true) :
    jitter.correct msg .full =
      ({ msg with timestamp := srsMax 0 (jitter.lastPktCorrectTime +
          delta jitter.lastPktTime msg.timestamp) },
        ⟨srsMax 0 (jitter.lastPktCorrectTime + delta jitter.lastPktTime msg.timestamp),
          msg.timestamp⟩) := by
  apply if_neg
  rw [hav]
  decide

theorem avTimes_cons (msg : Message) (rest : List Message) :
    avTimes (msg :: rest) = if msg.isAv then msg.timestamp :: avTimes rest else avTimes rest := by
  unfold avTimes
  rw [List.filter_cons]
  split
  · rfl
  · rfl

theorem avTimes_correctAll (msgs : List Message) :
    avTimes (correctAll .full jitter msgs) = clocks jitter (avTimes msgs) := by
  induction msgs generalizing jitter with
  | nil => rfl
  | cons msg rest ih =>
    rw [correctAll, avTimes_cons, avTimes_cons]
    by_cases hav : msg.isAv = true
    · rw [correct_av jitter hav, if_pos hav, if_pos hav, ih]
      rfl
    · rw [correct_metadata jitter hav, if_neg hav, if_neg hav]
      exact ih jitter

theorem avTimes_filter (msgs : List Message) :
    avTimes (msgs.filter Message.isAv) = avTimes msgs := by
  unfold avTimes
  rw [List.filter_filter]
  simp

theorem srsMax_zero_nonneg (a : Int64) : 0 ≤ (srsMax 0 a).toInt := by
  have hzero : (0 : Int64).toInt = 0 := rfl
  unfold srsMax
  by_cases hpos : 0 < a
  · rw [if_pos hpos]
    rw [Int64.lt_iff_toInt_lt, hzero] at hpos
    omega
  · rw [if_neg hpos, hzero]

theorem clocks_nonneg (times : List Int64) : ∀ time ∈ clocks jitter times, 0 ≤ time.toInt := by
  induction times generalizing jitter with
  | nil =>
    intro time htime
    exact absurd htime (List.not_mem_nil)
  | cons first rest ih =>
    intro time htime
    rw [clocks, List.mem_cons] at htime
    cases htime with
    | inl heq =>
      rw [heq]
      exact srsMax_zero_nonneg _
    | inr hrest => exact ih _ time hrest

/-- The deltas that a clock can take one after the other without a step back, a jump or a wrap. -/
def Rising : ℤ → List ℤ → Prop
  | _, [] => True
  | c, e :: rest => (c + e < 2 ^ 63 ∧ (0 ≤ e ∨ c = 0)) ∧ Rising (max 0 (c + e)) rest

theorem isChain_clocks_iff (c last : Int64) (hc : 0 ≤ c.toInt) (times : List Int64) :
    ((c :: clocks ⟨c, last⟩ times).IsChain fun a b =>
        a.toInt ≤ b.toInt ∧ b.toInt ≤ a.toInt + constMaxJitterMs.toInt) ↔
      Rising c.toInt (deltas last times) := by
  have hmax : constMaxJitterMs.toInt = 250 := by decide
  induction times generalizing c last with
  | nil =>
    rw [clocks, deltas, Rising]
    exact iff_of_true (List.isChain_singleton c) trivial
  | cons time rest ih =>
    have hbounds := delta_bounds last time
    rw [clocks, deltas, Rising, List.isChain_cons_cons]
    rw [hmax, step_iff hc hbounds, ← hmax]
    apply and_congr_right
    intro hstep
    have hclock : (srsMax 0 (c + delta last time)).toInt =
        max 0 (c.toInt + (delta last time).toInt) := by
      rw [toInt_srsMax hc hbounds, if_pos hstep.1]
    rw [← hclock]
    exact ih _ time (srsMax_zero_nonneg _)

/-- Once the clock is away from zero, no delta may be negative. -/
theorem rising_iff_of_pos {c : ℤ} (hc : 0 < c) (hfits : c < 2 ^ 63) (es : List ℤ) :
    Rising c es ↔ (∀ e ∈ es, 0 ≤ e) ∧ c + es.sum < 2 ^ 63 := by
  induction es generalizing c with
  | nil =>
    rw [Rising, List.sum_nil, add_zero]
    exact iff_of_true trivial ⟨fun e he => absurd he List.not_mem_nil, hfits⟩
  | cons e rest ih =>
    rw [Rising, List.forall_mem_cons, List.sum_cons]
    by_cases hstep : c + e < 2 ^ 63 ∧ 0 ≤ e
    · have hmax : max 0 (c + e) = c + e := by omega
      rw [hmax, ih (by omega) hstep.1, add_assoc]
      constructor
      · intro h
        exact ⟨⟨hstep.2, h.2.1⟩, h.2.2⟩
      · intro h
        exact ⟨⟨hstep.1, .inl hstep.2⟩, h.1.2, h.2⟩
    · apply iff_of_false
      · intro h
        omega
      · intro h
        have hsum : 0 ≤ rest.sum := List.sum_nonneg h.1.2
        omega

/-- At zero the clock stays where it is until a delta is positive. -/
theorem rising_zero_iff (es : List ℤ) (hfits : ∀ e ∈ es, e < 2 ^ 63) :
    Rising 0 es ↔ Forward es := by
  induction es with
  | nil =>
    unfold Forward
    rw [Rising, List.dropWhile_nil, List.sum_nil]
    exact iff_of_true trivial ⟨fun e he => absurd he List.not_mem_nil, by decide⟩
  | cons e rest ih =>
    have hrest : ∀ e ∈ rest, e < 2 ^ 63 := fun e he => hfits e (List.mem_cons_of_mem _ he)
    have hfirst := hfits e List.mem_cons_self
    rw [Rising, zero_add]
    by_cases hpos : 0 < e
    · have hdrop : (e :: rest).dropWhile (· ≤ 0) = e :: rest :=
        List.dropWhile_cons_of_neg (by rw [decide_eq_true_eq]; omega)
      have hmax : max 0 e = e := by omega
      unfold Forward
      rw [hdrop, hmax, rising_iff_of_pos hpos hfirst, List.forall_mem_cons, List.sum_cons]
      constructor
      · intro h
        exact ⟨⟨hpos.le, h.2.1⟩, h.2.2⟩
      · intro h
        exact ⟨⟨hfirst, .inr rfl⟩, h.1.2, h.2⟩
    · have hdrop : (e :: rest).dropWhile (· ≤ 0) = rest.dropWhile (· ≤ 0) :=
        List.dropWhile_cons_of_pos (by rw [decide_eq_true_eq]; omega)
      have hmax : max 0 e = 0 := by omega
      rw [hmax, ih hrest]
      unfold Forward
      rw [hdrop]
      exact ⟨fun h => h.2, fun h => ⟨⟨hfirst, .inr rfl⟩, h⟩⟩

theorem deltas_fit (last : Int64) (times : List Int64) : ∀ e ∈ deltas last times, e ≤ 250 := by
  induction times generalizing last with
  | nil =>
    intro e he
    exact absurd he List.not_mem_nil
  | cons time rest ih =>
    intro e he
    rw [deltas, List.mem_cons] at he
    cases he with
    | inl heq =>
      rw [heq]
      exact (delta_bounds last time).2
    | inr hrest => exact ih time e hrest

/-- The first message moves the clock from -1, and follows nothing. -/
theorem isChain_clocks_new_iff (times : List Int64) :
    ((clocks new times).IsChain fun a b =>
        a.toInt ≤ b.toInt ∧ b.toInt ≤ a.toInt + constMaxJitterMs.toInt) ↔
      Forward (clockDeltas times) := by
  cases times with
  | nil =>
    rw [clocks]
    exact iff_of_true List.isChain_nil ⟨fun e he => absurd he List.not_mem_nil, by decide⟩
  | cons time rest =>
    have hbounds := delta_bounds 0 time
    have hfirst : (srsMax 0 (new.lastPktCorrectTime + delta 0 time)).toInt =
        max 0 ((delta 0 time).toInt - 1) := by
      have hzero : (0 : Int64).toInt = 0 := rfl
      have hsum : (new.lastPktCorrectTime + delta 0 time).toInt = (delta 0 time).toInt - 1 := by
        have hnew : new.lastPktCorrectTime.toInt = -1 := by decide
        rw [Int64.toInt_add, hnew, Int.bmod_def]
        split
        · omega
        · omega
      unfold srsMax
      by_cases hpos : 0 < new.lastPktCorrectTime + delta 0 time
      · rw [if_pos hpos, hsum]
        rw [Int64.lt_iff_toInt_lt, hzero, hsum] at hpos
        omega
      · rw [if_neg hpos, hzero]
        rw [Int64.lt_iff_toInt_lt, hzero, hsum] at hpos
        omega
    have hclock : clockDeltas (time :: rest) =
        ((delta 0 time).toInt - 1) :: deltas time rest := rfl
    have hsmall : ∀ e ∈ clockDeltas (time :: rest), e < 2 ^ 63 := by
      intro e he
      rw [hclock, List.mem_cons] at he
      cases he with
      | inl heq => omega
      | inr hrest =>
        have hle := deltas_fit time rest e hrest
        omega
    rw [clocks, isChain_clocks_iff _ _ (srsMax_zero_nonneg _), ← rising_zero_iff _ hsmall, hclock,
      Rising, zero_add]
    have hlast : new.lastPktTime = 0 := rfl
    rw [hlast, hfirst]
    exact ⟨fun h => ⟨⟨by omega, .inr rfl⟩, h⟩, fun h => h.2⟩

/-- The full algorithm keeps its promise exactly when no small step back comes once its clock has
left zero. -/
theorem full_correction_iff (msgs : List Message) :
    Promised msgs ↔ Forward (clockDeltas (avTimes msgs)) := by
  rw [← isChain_clocks_new_iff]
  constructor
  · intro h
    have hsteady := h.steady
    rw [avTimes_correctAll] at hsteady
    exact hsteady
  · intro h
    constructor
    · rw [avTimes_correctAll]
      exact clocks_nonneg new (avTimes msgs)
    · rw [avTimes_correctAll]
      exact h
    · rw [avTimes_correctAll, avTimes_correctAll, avTimes_filter]

/-- A video message that is 50 older than the one before takes the clock back from 99 to 49. -/
theorem full_correction_goes_back :
    avTimes (correctAll .full new [⟨true, 100⟩, ⟨true, 50⟩]) = [99, 49] ∧
      ¬Promised [⟨true, 100⟩, ⟨true, 50⟩] := by
  have hrun : avTimes (correctAll .full new [⟨true, 100⟩, ⟨true, 50⟩]) = [99, 49] := by
    decide +kernel
  apply And.intro hrun
  intro h
  have hsteady := h.steady
  rw [hrun, List.isChain_cons_cons] at hsteady
  exact absurd hsteady.1.1 (by decide)

end SrsChatRoom.App.RtmpJitter
