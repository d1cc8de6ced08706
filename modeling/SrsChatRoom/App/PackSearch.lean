import SrsChatRoom.App.GbMedia

/-!
# The search for a pack header (`srs_skip_util_pack`)

In the recover mode the bytes up to the next pack header are dropped. The search looks at four bytes
and skips those in front that are not zero, or a single one. A header starts with a zero, so that
none starts in what is skipped (`not_occursAt_skipped`), and the first one is found.
-/

namespace SrsChatRoom.App.GbMedia

open SrsChatRoom.Kernel SrsChatRoom.Kernel.Ps

/-! ## The first occurrence of a pattern -/

section Occurrences

variable {α : Type*} {pattern bytes : List α} {p n : ℕ}

/-- The pattern stands at `n`. -/
def OccursAt (pattern bytes : List α) (n : ℕ) : Prop := pattern <+: bytes.drop n

/-- The pattern stands at `n`, and at no position from `p` up to there. -/
structure FirstFrom (pattern bytes : List α) (p n : ℕ) : Prop where
  le : p ≤ n
  occurs : OccursAt pattern bytes n
  first : ∀ m, p ≤ m → m < n → ¬ OccursAt pattern bytes m

theorem OccursAt.end_le (h : OccursAt pattern bytes n) (hne : pattern ≠ []) :
    n + pattern.length ≤ bytes.length := by
  have hlength := List.IsPrefix.length_le h
  have hpos := List.length_pos_of_ne_nil hne
  rw [List.length_drop] at hlength
  omega

/-- The search may go on from a position that it has not jumped over. -/
theorem FirstFrom.of_skip {d : ℕ} (h : FirstFrom pattern bytes (p + d) n)
    (hskip : ∀ i < d, ¬ OccursAt pattern bytes (p + i)) : FirstFrom pattern bytes p n where
  le := le_trans (Nat.le_add_right p d) h.le
  occurs := h.occurs
  first m hp hm := by
    by_cases hbefore : m < p + d
    · have hnot := hskip (m - p) (by omega)
      rwa [Nat.add_sub_cancel' hp] at hnot
    · exact h.first m (by omega) hm

end Occurrences

/-! ## The search -/

/-- `00 00 01 ba` -/
def packHeader : List UInt8 := [0x00, 0x00, 0x01, 0xba]

variable {bytes : List UInt8} {p n : ℕ}

/-- The four bytes at the head are those of the header. -/
theorem occursAt_iff (h : n + 4 ≤ bytes.length) :
    OccursAt packHeader bytes n ↔ uintAt bytes n 4 = packStartCode := by
  have hlength : ((bytes.drop n).take 4).length = 4 := by
    rw [List.length_take, List.length_drop]
    omega
  have hheader : bytesBE 4 packStartCode = packHeader := by decide
  unfold OccursAt
  rw [List.prefix_iff_eq_take]
  constructor
  · intro htake
    have htake : packHeader = (bytes.drop n).take 4 := htake
    rw [uintAt, ← htake]
    decide
  · intro hcode
    have hbytes := bytesBE_ofBytesBE ((bytes.drop n).take 4)
    rw [hlength] at hbytes
    rw [uintAt] at hcode
    rw [hcode, hheader] at hbytes
    exact hbytes

/-- A header starts with a zero. -/
theorem not_occursAt_of_ne_zero {i : ℕ} (h : (bytes.drop p).getD i 0 ≠ 0) :
    ¬ OccursAt packHeader bytes (p + i) := by
  rintro ⟨t, ht⟩
  apply h
  have hfirst : (bytes.drop (p + i))[0]? = some 0 := by
    rw [← ht]
    rfl
  rw [← List.drop_drop, List.getElem?_drop, Nat.add_zero] at hfirst
  rw [List.getD_eq_getElem?_getD, hfirst]
  rfl

theorem packDistance_le (b : SrsBuffer) : packDistance b ≤ 4 := by
  unfold packDistance
  dsimp only
  split
  · exact le_refl _
  · split
    · omega
    · split
      · omega
      · split <;> omega

/-- No header starts in the bytes that are skipped. -/
theorem not_occursAt_skipped (hfour : p + 4 ≤ bytes.length) :
    ∀ i < packDistance ⟨bytes, p⟩, ¬ OccursAt packHeader bytes (p + i) := by
  unfold packDistance
  dsimp only
  intro i hi
  split at hi
  · rename_i hnonzero
    obtain ⟨h0, h1, h2, h3⟩ := hnonzero
    interval_cases i
    · exact not_occursAt_of_ne_zero h0
    · exact not_occursAt_of_ne_zero h1
    · exact not_occursAt_of_ne_zero h2
    · exact not_occursAt_of_ne_zero h3
  split at hi
  · rename_i hnonzero
    obtain ⟨h0, h1, h2⟩ := hnonzero
    interval_cases i
    · exact not_occursAt_of_ne_zero h0
    · exact not_occursAt_of_ne_zero h1
    · exact not_occursAt_of_ne_zero h2
  split at hi
  · rename_i hnonzero
    obtain ⟨h0, h1⟩ := hnonzero
    interval_cases i
    · exact not_occursAt_of_ne_zero h0
    · exact not_occursAt_of_ne_zero h1
  split at hi
  · omega
  · rename_i hcode
    -- a single byte is skipped, with the four at the head looked at
    rw [Nat.lt_one_iff.mp hi, Nat.add_zero, occursAt_iff hfour]
    exact hcode

/-- The search stops where the header is. -/
theorem occursAt_of_packDistance (hfour : p + 4 ≤ bytes.length)
    (h : packDistance ⟨bytes, p⟩ = 0) : OccursAt packHeader bytes p := by
  unfold packDistance at h
  dsimp only at h
  rw [occursAt_iff hfour]
  split at h
  · omega
  split at h
  · omega
  split at h
  · omega
  split at h
  · assumption
  · omega

/-- The search ends at the first header from `p` on, or says that there is none. -/
def FindsPack (search : PsIo Bool) (bytes : List UInt8) (p : ℕ) : Prop :=
  (∃ n, FirstFrom packHeader bytes p n ∧ n + 4 ≤ bytes.length ∧
    search ⟨bytes, p⟩ = .ok true ⟨bytes, n⟩) ∨
  ((∀ n, p ≤ n → ¬ OccursAt packHeader bytes n) ∧ ∃ q, p ≤ q ∧ q ≤ bytes.length ∧
    search ⟨bytes, p⟩ = .ok false ⟨bytes, q⟩)

/-- A round of the loop that skips. -/
theorem srsSkipUtilPack_skip {d : ℕ} (fuel : ℕ) (hfour : p + 4 ≤ bytes.length)
    (hd : packDistance ⟨bytes, p⟩ = d) (hpos : 0 < d) (hend : p + d ≤ bytes.length) :
    srsSkipUtilPack (fuel + 1) ⟨bytes, p⟩ = srsSkipUtilPack fuel ⟨bytes, p + d⟩ := by
  have hrequire : (⟨bytes, p⟩ : SrsBuffer).require 4 = true :=
    (SrsBuffer.require_iff ⟨bytes, p⟩ 4).mpr hfour
  have hskip : Cursor.skip (ε := PsError) (d : ℤ) ⟨bytes, p⟩ = .ok () ⟨bytes, p + d⟩ := by
    unfold Cursor.skip
    rw [if_pos (by constructor <;> dsimp only <;> omega)]
    rfl
  have hne : ¬ packDistance ⟨bytes, p⟩ = 0 := by omega
  rw [srsSkipUtilPack, Prog.bind_ok (Prog.read_apply id _), id_eq, if_pos hrequire, if_neg hne, hd,
    Prog.bind_ok hskip]

/-- What the rounds from there on find is found from `p` on. -/
theorem FindsPack.of_skip {fuel d : ℕ} (hfour : p + 4 ≤ bytes.length)
    (hd : packDistance ⟨bytes, p⟩ = d) (hpos : 0 < d) (hend : p + d ≤ bytes.length)
    (h : FindsPack (srsSkipUtilPack fuel) bytes (p + d)) :
    FindsPack (srsSkipUtilPack (fuel + 1)) bytes p := by
  have hskipped := not_occursAt_skipped hfour
  rw [hd] at hskipped
  have hrun := srsSkipUtilPack_skip fuel hfour hd hpos hend
  rcases h with ⟨n, hfirst, hin, hfound⟩ | ⟨hnone, q, hq, hin, hfailed⟩
  · exact .inl ⟨n, hfirst.of_skip hskipped, hin, hrun.trans hfound⟩
  · refine .inr ⟨fun n hn => ?_, q, by omega, hin, hrun.trans hfailed⟩
    by_cases hbefore : n < p + d
    · have hnot := hskipped (n - p) (by omega)
      rwa [Nat.add_sub_cancel' hn] at hnot
    · exact hnone n (by omega)

/-- Each round but the last takes a byte at least. -/
theorem findsPack_of_fuel {fuel : ℕ} (hp : p ≤ bytes.length) (hfuel : bytes.length - p < fuel) :
    FindsPack (srsSkipUtilPack fuel) bytes p := by
  induction fuel generalizing p with
  | zero => omega
  | succ fuel ih =>
    by_cases hfour : p + 4 ≤ bytes.length
    · have hle := packDistance_le ⟨bytes, p⟩
      by_cases hzero : packDistance ⟨bytes, p⟩ = 0
      · have hrequire : (⟨bytes, p⟩ : SrsBuffer).require 4 = true :=
          (SrsBuffer.require_iff ⟨bytes, p⟩ 4).mpr hfour
        refine .inl ⟨p, ⟨le_refl p, occursAt_of_packDistance hfour hzero, ?_⟩, hfour, ?_⟩
        · intro m hpm hmp
          omega
        · rw [srsSkipUtilPack, Prog.bind_ok (Prog.read_apply id _), id_eq, if_pos hrequire,
            if_pos hzero]
          rfl
      · exact .of_skip hfour rfl (by omega) (by omega) (ih (by omega) (by omega))
    · have hrequire : ¬ (⟨bytes, p⟩ : SrsBuffer).require 4 = true :=
        fun h => hfour ((SrsBuffer.require_iff ⟨bytes, p⟩ 4).mp h)
      refine .inr ⟨fun n hn hoccurs => ?_, p, le_refl p, hp, ?_⟩
      · have hend := hoccurs.end_le (by decide)
        have hlength : packHeader.length = 4 := rfl
        omega
      · rw [srsSkipUtilPack, Prog.bind_ok (Prog.read_apply id _), id_eq, if_neg hrequire]
        rfl

/-- The search for a pack header ends, whatever the bytes and the position are, and misses none. -/
theorem srsSkipUtilPack_finds (bytes : List UInt8) (p : Fin (bytes.length + 1)) (more : ℕ) :
    FindsPack (srsSkipUtilPack (bytes.length + 1 + more)) bytes p :=
  findsPack_of_fuel (Nat.lt_succ_iff.mp p.isLt) (by omega)

end SrsChatRoom.App.GbMedia
