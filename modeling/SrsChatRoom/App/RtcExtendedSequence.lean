import SrsChatRoom.App.RtcQueue

/-!
# The extended highest sequence number (`srs_app_rtc_queue.cpp`)

The reports of a receiver give the highest sequence number with the number of times it has flipped
back. `update` counts a flip where the new number is below `end`, which is one past the highest and
flips one number earlier; so a highest number of 65535 is taken for one of the next cycle, and the
flip that comes after it is not counted. `extended_highest_iff` says that each such number makes
the result 2^16 too low, for good.
-/

namespace SrsChatRoom.App

/-- `get_extended_highest_sequence()` -/
def RingBuffer.getExtendedHighestSequence {P : Type} (r : RingBuffer P) : UInt32 :=
  UInt32.ofInt (r.nnSeqFlipBacks * 65536 + r.end_.toNat - 1)

/-- `update`, for one number after the other. -/
def RingBuffer.updateAll {P : Type} (r : RingBuffer P) (seqs : List UInt16) : RingBuffer P :=
  seqs.foldl (fun r seq => (r.update seq).1) r

/-! ## Numbers without bound -/

/-- How far `seq` is ahead of the highest number, modulo 2^16. -/
def aheadOf (highest : ℕ) (seq : UInt16) : ℕ := (seq.toNat + 65536 - highest % 65536) % 65536

/-- How far `seq` takes the highest number forward. Half of 2^16 counts as ahead. -/
def advance (highest : ℕ) (seq : UInt16) : ℕ :=
  if aheadOf highest seq ≤ 32768 then aheadOf highest seq else 0

/-- The first number and the total forward advance. -/
def unwrapped (first : ℕ) (seqs : List UInt16) : ℕ :=
  seqs.foldl (fun highest seq => highest + advance highest seq) first

/-- The highest numbers one after the other, where `highest` is the one before the arrivals. -/
def highests (highest : ℕ) : List UInt16 → List ℕ
  | [] => [highest]
  | seq :: seqs =>
    if advance highest seq = 0 then highests highest seqs
    else highest :: highests (highest + advance highest seq) seqs

/-- The highest numbers that are the last one of a cycle, 65535. -/
def cycleEnds (highest : ℕ) (seqs : List UInt16) : ℕ :=
  (highests highest seqs).countP fun n => n % 65536 = 65535

theorem seqOf_ahead (highest : ℕ) (seq : UInt16) : seqOf (highest + aheadOf highest seq) = seq := by
  have hseq : seq.toNat < 65536 := seq.toNat_lt
  rw [← UInt16.toNat_inj, ← Nat.cast_inj (R := ℤ), toNat_seqOf, aheadOf]
  omega

theorem advance_cases (highest : ℕ) (seq : UInt16) :
    (advance highest seq = 0 ∧ (aheadOf highest seq = 0 ∨ 32768 < aheadOf highest seq)) ∨
      (advance highest seq = aheadOf highest seq ∧ 0 < aheadOf highest seq ∧
        aheadOf highest seq ≤ 32768) := by
  unfold advance
  split <;> omega

/-! ## The count of the flips -/

section Run

variable {P : Type} {r : RingBuffer P} {highest ends : ℕ} {seq : UInt16}

/-- The ring has seen numbers up to `highest`, and `ends` is the number of cycle ends among the
highest numbers before it. -/
structure Seen (r : RingBuffer P) (highest ends : ℕ) : Prop where
  initialized : r.initialized = true
  end_eq : r.end_ = seqOf (highest + 1)
  flips : r.nnSeqFlipBacks + ends = highest / 65536

theorem seen_first (capacity : ℕ) (first : UInt16) :
    Seen ((RingBuffer.new capacity : RingBuffer P).update first).1 first.toNat 0 where
  initialized := rfl
  end_eq := by
    have hfirst : seqOf first.toNat = first := by
      rw [← UInt16.toNat_inj, ← Nat.cast_inj (R := ℤ), toNat_seqOf]
      have hlt : first.toNat < 65536 := first.toNat_lt
      omega
    rw [seqOf_succ, hfirst]
    rfl
  flips := by
    have hlt : first.toNat < 65536 := first.toNat_lt
    show 0 + 0 = first.toNat / 65536
    omega

/-- Where the highest number stays, so do the end and the flips. -/
theorem Seen.step_behind (h : Seen r highest ends) (hstays : advance highest seq = 0) :
    Seen (r.update seq).1 highest ends := by
  have hahead := seqOf_ahead highest seq
  have hlt : aheadOf highest seq < 65536 := Nat.mod_lt _ (by decide)
  have hdistance : ¬ 0 ≤ seqDistance r.end_ seq := by
    rw [h.end_eq, ← hahead, seqDistance_seqOf]
    have hcases := advance_cases highest seq
    omega
  rw [RingBuffer.update, if_neg (by simp [h.initialized]), if_neg hdistance]
  split
  · exact ⟨h.initialized, h.end_eq, h.flips⟩
  · exact h

/-- A new highest number. The flip that is due at the end of a cycle is not counted. -/
theorem Seen.step_ahead (h : Seen r highest ends) (hmoves : advance highest seq ≠ 0) :
    Seen (r.update seq).1 (highest + advance highest seq)
      (if highest % 65536 = 65535 then ends + 1 else ends) := by
  obtain ⟨hadvance, hpos, hle⟩ := (advance_cases highest seq).resolve_left fun hzero =>
    hmoves hzero.1
  have hahead := seqOf_ahead highest seq
  have hdistance : 0 ≤ seqDistance r.end_ seq := by
    rw [h.end_eq, ← hahead, seqDistance_seqOf]
    omega
  have hflip : seq < r.end_ ↔
      (highest + aheadOf highest seq) % 65536 < (highest + 1) % 65536 := by
    have hseq := toNat_seqOf (highest + aheadOf highest seq)
    have hend := toNat_seqOf (highest + 1)
    rw [hahead] at hseq
    rw [UInt16.lt_iff_toNat_lt, h.end_eq]
    omega
  have hflips := h.flips
  rw [RingBuffer.update, if_neg (by simp [h.initialized]), if_pos hdistance, hadvance]
  refine ⟨h.initialized, ?_, ?_⟩
  · show seq + 1 = _
    rw [Nat.cast_add, seqOf_succ, hahead]
  · show (if seq < r.end_ then r.nnSeqFlipBacks + 1 else r.nnSeqFlipBacks) + _ = _
    simp only [hflip]
    split <;> split <;> omega

/-- The result is 2^16 too low for each cycle end, the highest number itself included. -/
theorem Seen.extended (h : Seen r highest ends) :
    r.getExtendedHighestSequence = UInt32.ofInt (highest -
      65536 * (if highest % 65536 = 65535 then ends + 1 else ends : ℕ)) := by
  have hend := toNat_seqOf (highest + 1)
  have hflips := h.flips
  unfold RingBuffer.getExtendedHighestSequence
  congr 1
  rw [h.end_eq, hend]
  split <;> omega

theorem Seen.run (h : Seen r highest ends) (seqs : List UInt16) :
    (r.updateAll seqs).getExtendedHighestSequence = UInt32.ofInt (unwrapped highest seqs -
      65536 * (ends + cycleEnds highest seqs : ℕ)) := by
  induction seqs generalizing r highest ends with
  | nil =>
    have hend : cycleEnds highest [] = if highest % 65536 = 65535 then 1 else 0 := by
      simp [cycleEnds, highests, List.countP_cons]
    have hextended := h.extended
    rw [hend]
    show r.getExtendedHighestSequence = UInt32.ofInt (highest - _)
    rw [hextended]
    split <;> rfl
  | cons seq seqs ih =>
    show ((r.update seq).1.updateAll seqs).getExtendedHighestSequence =
      UInt32.ofInt (unwrapped (highest + advance highest seq) seqs - _)
    by_cases hstays : advance highest seq = 0
    · rw [ih (h.step_behind hstays), hstays, Nat.add_zero, cycleEnds, cycleEnds, highests,
        if_pos hstays]
    · have hcount : cycleEnds highest (seq :: seqs) =
          cycleEnds (highest + advance highest seq) seqs +
            if highest % 65536 = 65535 then 1 else 0 := by
        rw [cycleEnds, cycleEnds, highests, if_neg hstays, List.countP_cons]
        simp
      rw [ih (h.step_ahead hstays), hcount]
      congr 3
      split <;> omega

end Run

/-- Two numbers that differ by a multiple of 2^16 have the same low 32 bits exactly where the factor
is a multiple of 2^16. -/
theorem ofInt_sub_mul_iff (n k : ℕ) :
    UInt32.ofInt (n - 65536 * k) = UInt32.ofInt n ↔ 65536 ∣ k := by
  have hnat : ∀ z : ℤ, ((UInt32.ofInt z).toNat : ℤ) = z % 4294967296 := by
    intro z
    show (((UInt32.ofNat (z % 2 ^ 32).toNat).toNat : ℕ) : ℤ) = _
    rw [UInt32.toNat_ofNat']
    omega
  rw [← UInt32.toNat_inj, ← Nat.cast_inj (R := ℤ), hnat, hnat]
  omega

/-- The extended highest sequence number is right exactly where the number of cycle ends among the
highest numbers is a multiple of 2^16. -/
theorem extended_highest_iff {P : Type} (capacity : ℕ) (first : UInt16) (seqs : List UInt16) :
    ((RingBuffer.new capacity : RingBuffer P).updateAll (first :: seqs)).getExtendedHighestSequence
      = UInt32.ofInt (unwrapped first.toNat seqs) ↔ 65536 ∣ cycleEnds first.toNat seqs := by
  have hrun := (seen_first (P := P) capacity first).run seqs
  rw [Nat.zero_add] at hrun
  show (((RingBuffer.new capacity : RingBuffer P).update first).1.updateAll
    seqs).getExtendedHighestSequence = _ ↔ _
  rw [hrun, ofInt_sub_mul_iff]

/-- After 65535 comes 0: the flip is not counted. -/
theorem flip_after_cycle_end : ¬ ∀ seqs : List UInt16,
    ((RingBuffer.new 1000 : RingBuffer Unit).updateAll (65534 :: seqs)).getExtendedHighestSequence
      = UInt32.ofInt (unwrapped 65534 seqs) := by
  intro h
  have hzero := h [65535, 0]
  have hcode : ((RingBuffer.new 1000 : RingBuffer Unit).updateAll
      [65534, 65535, 0]).getExtendedHighestSequence = 0 := by decide
  have hright : unwrapped 65534 [65535, 0] = 65536 := by decide
  rw [hcode, hright] at hzero
  exact absurd hzero (by decide)

end SrsChatRoom.App
