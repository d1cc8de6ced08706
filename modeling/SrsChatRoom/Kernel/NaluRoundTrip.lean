import SrsChatRoom.Kernel.NaluGuess

/-!
# NALUs that are written into a frame and demuxed

`encIbmf` and `encAnnexb` write a list of NALUs in either format. `video_nalu_demux` gives the list
back under the conditions of `demux_iff`: the lengths are not read as negative ones, a length at the
start of the frame is not taken for a start code, and, if IBMF is tried on Annex-B, it fails before
it has found a NALU or finds the same ones.
-/

namespace SrsChatRoom.Kernel

open SrsBuffer
open List (append_assoc flatMap_cons length_append nil_append)

/-! ## The encodings -/

/-- The NALUs, each behind its length in `k` bytes. -/
def encIbmf (k : ℕ) (nalus : List (List UInt8)) : List UInt8 :=
  nalus.flatMap fun nalu => bytesBE k nalu.length ++ nalu

/-- A start code of four bytes, or of three. -/
def codeBytes (long : Bool) : List UInt8 := if long then [0, 0, 0, 1] else [0, 0, 1]

/-- The NALUs, each behind its start code. -/
def encAnnexb (units : List (Bool × List UInt8)) : List UInt8 :=
  units.flatMap fun unit => codeBytes unit.1 ++ unit.2

/-- Each NALU is not empty, and its length fits. -/
def Prefixable (k : ℕ) (nalus : List (List UInt8)) : Prop :=
  ∀ nalu ∈ nalus, nalu ≠ [] ∧ nalu.length < 256 ^ k

/-- Each NALU is not empty, has no start code in it and does not end in a zero. -/
def Delimitable (nalus : List (List UInt8)) : Prop :=
  ∀ nalu ∈ nalus, nalu ≠ [] ∧ ¬ [0, 0, 1] <:+: nalu ∧ nalu.getLast? ≠ some 0

/-! ## One unit of a stream -/

variable {k m : ℕ} {body : List UInt8} {nalus : List (List UInt8)}

/-- What a payload that starts with a length is a stream of. -/
theorem lengthStream_append_iff (hk : 0 < k) (hm : m < 256 ^ k)
    : LengthStream k (bytesBE k m ++ body) nalus ↔
      2 * m < 256 ^ k ∧ ∃ nalu rest after, nalu.length = m ∧ body = nalu ++ rest ∧
        nalus = consNalu nalu after ∧ LengthStream k rest after := by
  constructor
  · intro h
    generalize hp : bytesBE k m ++ body = p at h
    cases h with
    | nil =>
      have hlength := congrArg List.length hp
      rw [length_append, length_bytesBE, List.length_nil] at hlength
      omega
    | @unit nalu rest after hlength hrest =>
      have hfront := frontLength_append hm body
      rw [hp, frontLength_append (by omega)] at hfront
      rw [hfront] at hp hlength
      exact ⟨hlength, nalu, rest, after, hfront, List.append_cancel_left hp, rfl, hrest⟩
  · rintro ⟨hsmall, nalu, rest, after, rfl, rfl, rfl, hrest⟩
    exact LengthStream.unit hsmall hrest

/-- An empty NALU is skipped. -/
theorem lengthStream_zero_iff (hk : 0 < k) :
    LengthStream k (bytesBE k 0 ++ body) nalus ↔ LengthStream k body nalus := by
  have hpow : 0 < 256 ^ k := Nat.pow_pos (by decide)
  rw [lengthStream_append_iff hk hpow]
  constructor
  · rintro ⟨-, nalu, rest, after, hnil, rfl, rfl, hrest⟩
    rw [List.length_eq_zero_iff.mp hnil]
    exact hrest
  · intro h
    exact ⟨by simp, [], body, nalus, rfl, rfl, rfl, h⟩

variable {nalu : List UInt8} {after : List (List UInt8)}

/-- A NALU that is not empty is behind its length. -/
theorem lengthStream_pos_iff (hk : 0 < k) (hm : m < 256 ^ k) (hpos : 0 < m) :
    LengthStream k (bytesBE k m ++ body) (nalu :: after) ↔
      2 * m < 256 ^ k ∧ nalu.length = m ∧
        ∃ rest, body = nalu ++ rest ∧ LengthStream k rest after := by
  rw [lengthStream_append_iff hk hm]
  apply and_congr_right
  intro _
  constructor
  · rintro ⟨nalu', rest, after', hlength, hbody, hcons, hrest⟩
    have hne : nalu' ≠ [] := List.ne_nil_of_length_pos (by omega)
    rw [consNalu, if_neg hne] at hcons
    obtain ⟨rfl, rfl⟩ := List.cons.inj hcons
    exact ⟨hlength, rest, hbody, hrest⟩
  · rintro ⟨hlength, rest, hbody, hrest⟩
    have hne : nalu ≠ [] := List.ne_nil_of_length_pos (by omega)
    exact ⟨nalu, rest, after, hlength, hbody, by rw [consNalu, if_neg hne], hrest⟩

/-- The next NALU, if it is what stands behind the length. -/
theorem lengthStream_own_iff (hk : 0 < k) (hm : m < 256 ^ k) (hpos : 0 < m) {rest : List UInt8} :
    LengthStream k (bytesBE k m ++ (nalu ++ rest)) (nalu :: after) ↔
      2 * m < 256 ^ k ∧ nalu.length = m ∧ LengthStream k rest after := by
  rw [lengthStream_pos_iff hk hm hpos]
  simp only [List.append_cancel_left_eq, exists_eq_left']

/-- If a length is taken together with the first byte of a NALU, the NALU is not found: its other
bytes would be followed by a zero, in which it does not end. -/
theorem not_lengthStream_shifted (hk : 0 < k) (hm : m < 256 ^ k) (hpos : 0 < m) {x : UInt8}
    {rest : List UInt8} (hlast : (x :: nalu).getLast? ≠ some 0) (hrest : rest.head?.getD 0 = 0) :
    ¬ LengthStream k (bytesBE k m ++ (nalu ++ rest)) ((x :: nalu) :: after) := by
  rw [lengthStream_pos_iff hk hm hpos]
  rintro ⟨-, -, rest', hbody, -⟩
  have hlength := congrArg List.length hbody
  simp only [length_append, List.length_cons] at hlength
  match rest, hrest with
  | [], _ =>
    rw [List.length_nil] at hlength
    omega
  | y :: rest, hzero =>
    have hy : y = 0 := by simpa using hzero
    rw [List.append_cons] at hbody
    have hsame : nalu ++ [y] = x :: nalu := List.append_inj_left hbody (by simp)
    rw [← hsame, hy] at hlast
    simp at hlast

/-! ## IBMF -/

/-- The frame is a stream of its NALUs unless one of them has a length that is read as a negative
one. -/
theorem lengthStream_encIbmf_iff (hk : 0 < k)
    (h : Prefixable k nalus) : LengthStream k (encIbmf k nalus) nalus ↔
      ∀ nalu ∈ nalus, 2 * nalu.length < 256 ^ k := by
  induction nalus with
  | nil =>
    simp only [List.not_mem_nil, false_implies, implies_true, iff_true]
    exact LengthStream.nil
  | cons nalu nalus ih =>
    obtain ⟨⟨hne, hlt⟩, hothers⟩ := List.forall_mem_cons.mp h
    rw [encIbmf, flatMap_cons, append_assoc,
      lengthStream_own_iff hk hlt (List.length_pos_of_ne_nil hne), List.forall_mem_cons]
    apply and_congr_right
    intro _
    exact (and_iff_right rfl).trans (ih hothers)

/-- The first NALU has a length in four bytes that looks like a start code. -/
def FrontLooksAnnexb (k : ℕ) (nalus : List (List UInt8)) : Prop :=
  k = 4 ∧ ∃ nalu ∈ nalus.head?, nalu.length = 1 ∨ 256 ≤ nalu.length ∧ nalu.length < 512

theorem startsWithAnnexb_eq_none {a b : UInt8} (h : a ≠ 0 ∨ b ≠ 0) (rest : List UInt8) :
    startsWithAnnexb (a :: b :: rest) = none := by
  cases rest with
  | nil => rfl
  | cons c rest => rw [startsWithAnnexb, if_pos h]

/-- When the frame starts with what looks like a start code. -/
theorem startsWithAnnexb_encIbmf_iff (hk : k = 1 ∨ k = 2 ∨ k = 4) (h : Prefixable k nalus) :
    (startsWithAnnexb (encIbmf k nalus)).isSome = true ↔ FrontLooksAnnexb k nalus := by
  unfold FrontLooksAnnexb
  cases nalus with
  | nil => simp [encIbmf, startsWithAnnexb]
  | cons nalu nalus =>
    obtain ⟨⟨hne, hlt⟩, -⟩ := List.forall_mem_cons.mp h
    have hpos := List.length_pos_of_ne_nil hne
    obtain ⟨x, body, hbody⟩ : ∃ x body, nalu ++ encIbmf k nalus = x :: body := by
      obtain ⟨x, nalu, rfl⟩ := List.exists_cons_of_ne_nil hne
      exact ⟨x, nalu ++ encIbmf k nalus, rfl⟩
    have hframe : encIbmf k (nalu :: nalus) = bytesBE k nalu.length ++ x :: body := by
      rw [← hbody, ← append_assoc]
      rfl
    rw [hframe]
    simp only [List.head?_cons, Option.mem_some_iff, exists_eq_left']
    generalize nalu.length = m at hlt hpos
    rcases hk with rfl | rfl | rfl
    · have hbyte : UInt8.ofNat (m / 256 ^ 0) ≠ 0 := by
        rw [Ne, ofNat_eq_zero_iff]
        omega
      have hnone := startsWithAnnexb_eq_none (b := x) (.inl hbyte) body
      simp only [bytesBE, List.cons_append, nil_append, hnone]
      simp
    · have hbytes : UInt8.ofNat (m / 256 ^ 1) ≠ 0 ∨ UInt8.ofNat (m / 256 ^ 0) ≠ 0 := by
        rw [Ne, Ne, ofNat_eq_zero_iff, ofNat_eq_zero_iff]
        omega
      have hnone := startsWithAnnexb_eq_none hbytes (x :: body)
      simp only [bytesBE, List.cons_append, nil_append, hnone]
      simp
    · simp only [bytesBE, List.cons_append, nil_append, true_and]
      by_cases hbytes : UInt8.ofNat (m / 256 ^ 3) ≠ 0 ∨ UInt8.ofNat (m / 256 ^ 2) ≠ 0
      · rw [startsWithAnnexb_eq_none hbytes]
        rw [Ne, Ne, ofNat_eq_zero_iff, ofNat_eq_zero_iff] at hbytes
        simp only [Option.isSome_none, Bool.false_eq_true, false_iff]
        omega
      · obtain ⟨hthird, hsecond⟩ := not_or.mp hbytes
        rw [not_not] at hthird hsecond
        rw [hthird, hsecond, startsWithAnnexb, if_neg (by simp)]
        rw [ofNat_eq_zero_iff] at hthird hsecond
        by_cases hone : UInt8.ofNat (m / 256 ^ 1) = 1
        · rw [if_pos hone]
          rw [ofNat_eq_one_iff] at hone
          simp only [Option.isSome_some, true_iff]
          omega
        · rw [if_neg hone, Option.isSome_map]
          rw [ofNat_eq_one_iff] at hone
          -- The start code could still be in the last three bytes.
          by_cases hzero : UInt8.ofNat (m / 256 ^ 1) = 0
          · rw [hzero, startsWithAnnexb, if_neg (by simp)]
            rw [ofNat_eq_zero_iff] at hzero
            by_cases hlast : UInt8.ofNat (m / 256 ^ 0) = 1
            · rw [if_pos hlast]
              rw [ofNat_eq_one_iff] at hlast
              simp only [Option.isSome_some, true_iff]
              omega
            · have hne : UInt8.ofNat (m / 256 ^ 0) ≠ 0 := by
                rw [Ne, ofNat_eq_zero_iff]
                omega
              rw [if_neg hlast, startsWithAnnexb_eq_none (.inr hne)]
              rw [ofNat_eq_one_iff] at hlast
              simp only [Option.map_none, Option.isSome_none, Bool.false_eq_true, false_iff]
              omega
          · rw [startsWithAnnexb_eq_none (.inr hzero)]
            rw [ofNat_eq_zero_iff] at hzero
            simp only [Option.isSome_none, Bool.false_eq_true, false_iff]
            omega

/-! ## Annex-B -/

/-- Behind a NALU without a start code that does not end in a zero, none can begin inside it. -/
theorem startsWithAnnexb_nalu (hne : nalu ≠ [])
    (hcode : ¬ [0, 0, 1] <:+: nalu) (hlast : nalu.getLast? ≠ some 0) (rest : List UInt8) :
    startsWithAnnexb (nalu ++ rest) = none := by
  induction nalu with
  | nil => exact absurd rfl hne
  | cons a nalu ih =>
    match nalu with
    | [] =>
      have ha : a ≠ 0 := by
        rintro rfl
        exact hlast rfl
      cases rest with
      | nil => rfl
      | cons b rest => exact startsWithAnnexb_eq_none (.inl ha) rest
    | b :: nalu =>
      by_cases hzero : a ≠ 0 ∨ b ≠ 0
      · exact startsWithAnnexb_eq_none hzero (nalu ++ rest)
      · obtain ⟨ha, hb⟩ := not_or.mp hzero
        rw [not_not] at ha hb
        subst ha hb
        match nalu with
        | [] => exact absurd rfl hlast
        | c :: nalu =>
          have hc : c ≠ 1 := by
            rintro rfl
            exact hcode ⟨[], nalu, rfl⟩
          have htail : startsWithAnnexb (0 :: c :: nalu ++ rest) = none := by
            refine ih (by simp) (fun hsub => hcode ?_) (by simpa using hlast)
            exact hsub.trans (List.suffix_cons _ _).isInfix
          show startsWithAnnexb (0 :: 0 :: c :: (nalu ++ rest)) = none
          rw [startsWithAnnexb, if_neg hzero, if_neg hc]
          rw [show 0 :: c :: (nalu ++ rest) = 0 :: c :: nalu ++ rest from rfl, htail]
          rfl

theorem clean_nalu (hcode : ¬ [0, 0, 1] <:+: nalu)
    (hlast : nalu.getLast? ≠ some 0) (rest : List UInt8) : Clean nalu rest := by
  intro i hi
  rw [List.drop_append_of_le_length hi.le]
  apply startsWithAnnexb_nalu
  · exact List.ne_nil_of_length_pos (by rw [List.length_drop]; omega)
  · intro hsub
    exact hcode (hsub.trans (List.drop_suffix i nalu).isInfix)
  · rwa [List.getLast?_drop, if_neg (by omega)]

theorem codeBytes_eq (long : Bool) : codeBytes long = startCode (if long then 1 else 0) := by
  cases long <;> rfl

/-- The rest of an Annex-B frame is empty or starts with a start code. -/
theorem atEnd_encAnnexb (units : List (Bool × List UInt8)) : AtEnd (encAnnexb units) := by
  cases units with
  | nil => exact .inl rfl
  | cons unit units =>
    right
    rw [encAnnexb, flatMap_cons, codeBytes_eq, append_assoc, startsWithAnnexb_startCode]
    rfl

variable {units : List (Bool × List UInt8)}

/-- The frame is a stream of its NALUs. -/
theorem annexbStream_encAnnexb (h : Delimitable (units.map Prod.snd)) :
    AnnexbStream (encAnnexb units) (units.map Prod.snd) := by
  induction units with
  | nil => exact AnnexbStream.nil
  | cons unit units ih =>
    obtain ⟨⟨hne, hcode, hlast⟩, hothers⟩ := List.forall_mem_cons.mp h
    have hstream : AnnexbStream (startCode (if unit.1 then 1 else 0) ++ (unit.2 ++ encAnnexb units))
        (consNalu unit.2 (units.map Prod.snd)) :=
      AnnexbStream.unit (clean_nalu hcode hlast _) (atEnd_encAnnexb units) (ih hothers)
    rw [consNalu, if_neg hne, ← codeBytes_eq, ← append_assoc] at hstream
    exact hstream

/-! ### Annex-B that is read as IBMF -/

/-- Lengths that are zero. -/
def zeroLengths (k n : ℕ) : List UInt8 := (List.replicate n (bytesBE k 0)).flatten

theorem zeroLengths_succ (k n : ℕ) (body : List UInt8) :
    zeroLengths k (n + 1) ++ body = bytesBE k 0 ++ (zeroLengths k n ++ body) := by
  rw [zeroLengths, List.replicate_succ, List.flatten_cons, append_assoc]
  rfl

theorem lengthStream_zeroLengths_iff (hk : 0 < k) (n : ℕ) :
    LengthStream k (zeroLengths k n ++ body) nalus ↔ LengthStream k body nalus := by
  induction n with
  | zero => exact Iff.rfl
  | succ n ih =>
    rw [zeroLengths_succ, lengthStream_zero_iff hk, ih]

/-- There are empty NALUs, and then the stream is broken. -/
def RefusedAtOnce (k : ℕ) (q : List UInt8) : Prop :=
  ∃ p bad, q = p ++ bad ∧ LengthStream k p [] ∧ Broken k bad

theorem refusedAtOnce_append_iff (hk : 0 < k) (hm : m < 256 ^ k) :
    RefusedAtOnce k (bytesBE k m ++ body) ↔
      Broken k (bytesBE k m ++ body) ∨ m = 0 ∧ RefusedAtOnce k body := by
  constructor
  · rintro ⟨p, bad, hq, hempty, hbroken⟩
    by_cases hnil : p = []
    · rw [hnil, nil_append] at hq
      exact .inl (hq ▸ hbroken)
    · right
      generalize hnalus : ([] : List (List UInt8)) = nalus at hempty
      cases hempty with
      | nil => exact absurd rfl hnil
      | @unit nalu rest after hlength hrest =>
        unfold consNalu at hnalus
        split at hnalus
        · next hnalu =>
          subst hnalu hnalus
          rw [append_assoc, List.length_nil, nil_append] at hq
          have hfront := frontLength_append hm body
          rw [hq, frontLength_append (Nat.pow_pos (by decide))] at hfront
          refine ⟨hfront.symm, rest, bad, ?_, hrest, hbroken⟩
          rw [← hfront] at hq
          exact List.append_cancel_left hq
        · cases hnalus
  · rintro (hbroken | ⟨rfl, p, bad, rfl, hempty, hbroken⟩)
    · exact ⟨[], _, rfl, LengthStream.nil, hbroken⟩
    · refine ⟨bytesBE k 0 ++ p, bad, (append_assoc _ _ _).symm, ?_, hbroken⟩
      exact (lengthStream_zero_iff hk).mpr hempty

theorem refusedAtOnce_zeroLengths_iff (hk : 0 < k) (n : ℕ) :
    RefusedAtOnce k (zeroLengths k n ++ body) ↔ RefusedAtOnce k body := by
  induction n with
  | zero => exact Iff.rfl
  | succ n ih =>
    have hunit : ¬ Broken k (bytesBE k 0 ++ (zeroLengths k n ++ body)) :=
      @not_broken_unit [] k (by simp) (zeroLengths k n ++ body)
    rw [zeroLengths_succ, refusedAtOnce_append_iff hk (Nat.pow_pos (by decide)),
      or_iff_right hunit, and_iff_right rfl, ih]

theorem broken_append_iff (hk : 0 < k) (hm : m < 256 ^ k) :
    Broken k (bytesBE k m ++ body) ↔ 256 ^ k ≤ 2 * m ∨ body.length < m := by
  have hne : bytesBE k m ++ body ≠ [] := by
    apply List.ne_nil_of_length_pos
    rw [length_append, length_bytesBE]
    omega
  unfold Broken
  rw [frontLength_append hm, length_append, length_bytesBE, and_iff_right hne]
  omega

/-- The first NALU has its first byte in a length, or a length of one in front of it. -/
theorem codeBytes_append (hk : k = 1 ∨ k = 2 ∨ k = 4) (long : Bool) (x : UInt8)
    (body : List UInt8) :
    ((k = 1 ∨ long = true) ∧ ∃ n, codeBytes long ++ x :: body =
      zeroLengths k n ++ (bytesBE k 1 ++ x :: body)) ∨
    (k ≠ 1 ∧ long = false) ∧ ∃ n, codeBytes long ++ x :: body =
      zeroLengths k n ++ (bytesBE k (256 + x.toNat) ++ body) := by
  have htwo : bytesBE 2 (256 + x.toNat) = [1, x] := by
    have hback := bytesBE_ofBytesBE [1, x]
    simpa [ofBytesBE] using hback
  have hfour : bytesBE 4 (256 + x.toNat) = [0, 0, 1, x] := by
    have hback := bytesBE_ofBytesBE [0, 0, 1, x]
    simpa [ofBytesBE] using hback
  cases long with
  | true =>
    left
    rcases hk with rfl | rfl | rfl
    · exact ⟨.inl rfl, 3, rfl⟩
    · exact ⟨.inr rfl, 1, rfl⟩
    · exact ⟨.inr rfl, 0, rfl⟩
  | false =>
    rcases hk with rfl | rfl | rfl
    · exact .inl ⟨.inl rfl, 2, rfl⟩
    · exact .inr ⟨⟨by decide, rfl⟩, 1, by rw [htwo]; rfl⟩
    · exact .inr ⟨⟨by decide, rfl⟩, 0, by rw [hfour]; rfl⟩

/-- All NALUs have one byte, and the start codes end with its length. -/
def OneByte (k : ℕ) (units : List (Bool × List UInt8)) : Prop :=
  ∀ unit ∈ units, unit.2.length = 1 ∧ (k = 1 ∨ unit.1 = true)

theorem head_encAnnexb (units : List (Bool × List UInt8)) : (encAnnexb units).head?.getD 0 = 0 := by
  match units with
  | [] => rfl
  | (true, nalu) :: units => rfl
  | (false, nalu) :: units => rfl

theorem lt_pow_of_size (hk : k = 2 ∨ k = 4) (hm : m < 2 ^ 15) : 2 * m < 256 ^ k := by
  rcases hk with rfl | rfl <;> omega

/-- Only such a frame is a stream of its NALUs in IBMF, too. -/
theorem lengthStream_encAnnexb_iff (hk : k = 1 ∨ k = 2 ∨ k = 4)
    (h : Delimitable (units.map Prod.snd)) :
    LengthStream k (encAnnexb units) (units.map Prod.snd) ↔ OneByte k units := by
  have hpos : 0 < k := by omega
  have hone : 2 * 1 < 256 ^ k := by rcases hk with rfl | rfl | rfl <;> decide
  induction units with
  | nil =>
    simp only [OneByte, List.not_mem_nil, false_implies, implies_true, iff_true]
    exact LengthStream.nil
  | cons unit units ih =>
    obtain ⟨⟨hne, -, hlast⟩, hothers⟩ := List.forall_mem_cons.mp h
    obtain ⟨long, nalu⟩ := unit
    match nalu, hne with
    | x :: nalu, _ =>
      have hframe : encAnnexb ((long, x :: nalu) :: units) =
          codeBytes long ++ x :: (nalu ++ encAnnexb units) := by
        rw [encAnnexb, flatMap_cons, append_assoc]
        rfl
      rw [OneByte, List.forall_mem_cons, hframe, List.map_cons]
      rcases codeBytes_append hk long x (nalu ++ encAnnexb units) with
        ⟨hcode, n, heq⟩ | ⟨⟨hk', rfl⟩, n, heq⟩
      · have hown : LengthStream k (bytesBE k 1 ++ (x :: nalu ++ encAnnexb units))
            ((x :: nalu) :: units.map Prod.snd) ↔
              2 * 1 < 256 ^ k ∧ (x :: nalu).length = 1 ∧
                LengthStream k (encAnnexb units) (units.map Prod.snd) :=
          lengthStream_own_iff hpos (by omega) Nat.one_pos
        rw [heq, lengthStream_zeroLengths_iff hpos]
        refine hown.trans ?_
        rw [and_iff_right hone, and_iff_left hcode]
        exact and_congr_right fun _ => ih hothers
      · have hsize := lt_pow_of_size (k := k) (m := 256 + x.toNat) (by omega) (by
          have := x.toNat_lt
          omega)
        have hshift : ¬ LengthStream k (bytesBE k (256 + x.toNat) ++ (nalu ++ encAnnexb units))
            ((x :: nalu) :: units.map Prod.snd) :=
          not_lengthStream_shifted hpos (by omega) (by omega) hlast (head_encAnnexb units)
        rw [heq, lengthStream_zeroLengths_iff hpos]
        refine iff_of_false hshift ?_
        rintro ⟨⟨-, hor⟩, -⟩
        cases hor with
        | inl hone => exact hk' hone
        | inr htrue => cases htrue

/-- The first start code makes a length that is too large for the frame. -/
def FailsAtOnce (k : ℕ) (units : List (Bool × List UInt8)) : Prop :=
  k ≠ 1 ∧ ∃ unit ∈ units.head?, unit.1 = false ∧
    (encAnnexb units).length < 260 + (unit.2.headD 0).toNat

theorem refusedAtOnce_encAnnexb_iff (hk : k = 1 ∨ k = 2 ∨ k = 4)
    (h : Delimitable (units.map Prod.snd)) (hne : units ≠ []) :
    RefusedAtOnce k (encAnnexb units) ↔ FailsAtOnce k units := by
  have hpos : 0 < k := by omega
  have hone : 2 * 1 < 256 ^ k := by rcases hk with rfl | rfl | rfl <;> decide
  match units, hne with
  | (long, nalu) :: units, _ =>
    obtain ⟨⟨hnalu, -, -⟩, -⟩ := List.forall_mem_cons.mp h
    match nalu, hnalu with
    | x :: nalu, _ =>
      have hframe : encAnnexb ((long, x :: nalu) :: units) =
          codeBytes long ++ x :: (nalu ++ encAnnexb units) := by
        rw [encAnnexb, flatMap_cons, append_assoc]
        rfl
      unfold FailsAtOnce
      simp only [List.head?_cons, Option.mem_some_iff, exists_eq_left', List.headD_cons]
      rw [hframe]
      generalize nalu ++ encAnnexb units = body
      rcases codeBytes_append hk long x body with ⟨hcode, n, heq⟩ | ⟨⟨hk', rfl⟩, n, heq⟩
      · rw [heq, refusedAtOnce_zeroLengths_iff hpos, refusedAtOnce_append_iff hpos (by omega),
          broken_append_iff hpos (by omega), List.length_cons]
        refine iff_of_false (by omega) ?_
        rintro ⟨hk', hlong, -⟩
        rw [hlong] at hcode
        cases hcode with
        | inl hone => exact hk' hone
        | inr htrue => cases htrue
      · have hsize := lt_pow_of_size (k := k) (m := 256 + x.toNat) (by omega) (by
          have := x.toNat_lt
          omega)
        have hlength : (codeBytes false ++ x :: body).length = 4 + body.length := by
          rw [length_append, List.length_cons]
          show 3 + _ = _
          omega
        rw [hlength, heq, refusedAtOnce_zeroLengths_iff hpos,
          refusedAtOnce_append_iff hpos (by omega), broken_append_iff hpos (by omega),
          or_iff_left (by omega), and_iff_right hk', and_iff_right rfl]
        omega

/-! ## The frame comes back -/

/-- When the NALUs of an IBMF frame come back. -/
def IbmfComesBack (format : PayloadFormat) (tryAnnexbFirst : Bool) (k : ℕ)
    (nalus : List (List UInt8)) : Prop :=
  match format with
  | .ibmf => ∀ nalu ∈ nalus, 2 * nalu.length < 256 ^ k
  | .annexb => AnnexbStream (encIbmf k nalus) nalus
  | .guess =>
    (tryAnnexbFirst = true ∧ FrontLooksAnnexb k nalus → AnnexbStream (encIbmf k nalus) nalus) ∧
    (¬ (tryAnnexbFirst = true ∧ FrontLooksAnnexb k nalus) →
      ∀ nalu ∈ nalus, 2 * nalu.length < 256 ^ k)

/-- When the NALUs of an Annex-B frame come back. -/
def AnnexbComesBack (format : PayloadFormat) (tryAnnexbFirst : Bool) (k : ℕ)
    (units : List (Bool × List UInt8)) : Prop :=
  match format with
  | .annexb => True
  | .ibmf => OneByte k units
  | .guess => tryAnnexbFirst = true ∨ OneByte k units ∨ FailsAtOnce k units

theorem not_annexbStream {p : List UInt8} (hne : p ≠ []) (hcode : startsWithAnnexb p = none)
    (nalus : List (List UInt8)) : ¬ AnnexbStream p nalus := by
  rintro (_ | ⟨_, _, _⟩)
  · exact hne rfl
  · rw [startsWithAnnexb_startCode] at hcode
    cases hcode

namespace Ready

variable {f : Format} (hf : Ready f)
include hf

theorem lengthSize_cases : lengthSize f.vcodec.nalUnitLength = 1 ∨
    lengthSize f.vcodec.nalUnitLength = 2 ∨ lengthSize f.vcodec.nalUnitLength = 4 := by
  rcases hf.nalUnitLength with h | h | h <;> rw [h]
  · exact .inl rfl
  · exact .inr (.inl rfl)
  · exact .inr (.inr rfl)

theorem length_rest_lt : f.stream.rest.length < 2 ^ 31 := by
  have hsize := hf.size
  rw [length_rest]
  omega

/-- No length of four bytes is read as a negative one. -/
theorem length_lt {nalus : List (List UInt8)} {k : ℕ} (hk : k = 4)
    (hrest : f.stream.rest = encIbmf k nalus) :
    ∀ nalu ∈ nalus, 2 * nalu.length < 256 ^ k := by
  intro nalu hnalu
  have hsub : nalu.length ≤ (encIbmf k nalus).length := by
    rw [encIbmf, List.length_flatMap]
    refine le_trans ?_ (List.single_le_sum (by simp) _ (List.mem_map_of_mem hnalu))
    rw [length_append]
    omega
  have hlt := hf.length_rest_lt
  rw [hrest] at hlt
  subst hk
  omega

/-- IBMF -/
theorem demux_encIbmf_iff (tryAnnexbFirst : Bool) {nalus : List (List UInt8)}
    (hne : nalus ≠ []) (hcount : nalus.length ≤ maxNbSamples)
    (hnalus : Prefixable (lengthSize f.vcodec.nalUnitLength) nalus)
    (hrest : f.stream.rest = encIbmf (lengthSize f.vcodec.nalUnitLength) nalus) :
    Adds (videoNaluDemux tryAnnexbFirst) f nalus ↔ IbmfComesBack f.vcodec.payloadFormat
      tryAnnexbFirst (lengthSize f.vcodec.nalUnitLength) nalus := by
  have hk := lengthSize_pos f.vcodec.nalUnitLength
  have hframe : f.stream.rest ≠ [] := by
    rw [hrest]
    match nalus, hne with
    | nalu :: nalus, _ =>
      apply List.ne_nil_of_length_pos
      rw [encIbmf, flatMap_cons, length_append, length_append, length_bytesBE]
      omega
  have hstream := lengthStream_encIbmf_iff hk hnalus
  have hlooks := startsWithAnnexb_encIbmf_iff hf.lengthSize_cases hnalus
  unfold IbmfComesBack
  cases hformat : f.vcodec.payloadFormat with
  | ibmf => rw [hf.demux_ibmf_iff hformat tryAnnexbFirst hcount, hrest, hstream]
  | annexb => rw [hf.demux_annexb_iff hformat tryAnnexbFirst hframe hcount, hrest]
  | guess =>
    cases tryAnnexbFirst with
    | true =>
      rw [hf.demux_annexb_first_iff hformat hframe hcount, hrest, hstream]
      simp only [true_and]
      rw [← hlooks]
      cases hcode : startsWithAnnexb (encIbmf (lengthSize f.vcodec.nalUnitLength) nalus) with
      | none =>
        have hnot := not_annexbStream (hrest ▸ hframe) hcode nalus
        simp [hnot]
      | some n => simp
    | false =>
      simp only [Bool.false_eq_true, false_and, false_implies, not_false_eq_true, true_implies,
        true_and]
      constructor
      · intro hadds
        by_cases hfour : lengthSize f.vcodec.nalUnitLength = 4
        · exact hf.length_lt hfour hrest
        · -- The frame does not start with a start code, so only IBMF can succeed.
          have hcode : startsWithAnnexb f.stream.rest = none := by
            rw [hrest, ← Option.not_isSome_iff_eq_none, hlooks]
            exact fun hlook => hfour hlook.1
          have hnot := not_annexbStream hframe hcode
          rw [hf.demux_ibmf_first_iff hformat hframe (fun nalus h => absurd h (hnot nalus)) hcount,
            hrest, hstream] at hadds
          cases hadds with
          | inl hsmall => exact hsmall
          | inr hguess =>
            obtain ⟨p, bad, before, after, -, -, -, -, hafter⟩ := hguess
            exact absurd hafter (hrest ▸ hnot after)
      · intro hsmall
        exact hf.demux_of_lengthStream hformat hcount (by rw [hrest]; exact hstream.mpr hsmall)

/-- Annex-B -/
theorem demux_encAnnexb_iff (tryAnnexbFirst : Bool) {units : List (Bool × List UInt8)}
    (hne : units ≠ []) (hcount : units.length ≤ maxNbSamples)
    (hnalus : Delimitable (units.map Prod.snd))
    (hrest : f.stream.rest = encAnnexb units) :
    Adds (videoNaluDemux tryAnnexbFirst) f (units.map Prod.snd) ↔
      AnnexbComesBack f.vcodec.payloadFormat tryAnnexbFirst
        (lengthSize f.vcodec.nalUnitLength) units := by
  have hstream := annexbStream_encAnnexb hnalus
  have hnonempty : units.map Prod.snd ≠ [] := by simpa using hne
  have hframe : f.stream.rest ≠ [] := by
    rw [hrest]
    match units, hne with
    | (long, nalu) :: units, _ => cases long <;> simp [encAnnexb, codeBytes]
  have hread := lengthStream_encAnnexb_iff hf.lengthSize_cases hnalus
  have hfails := refusedAtOnce_encAnnexb_iff hf.lengthSize_cases hnalus hne
  rw [← List.length_map (f := Prod.snd)] at hcount
  unfold AnnexbComesBack
  cases hformat : f.vcodec.payloadFormat with
  | ibmf => rw [hf.demux_ibmf_iff hformat tryAnnexbFirst hcount, hrest, hread]
  | annexb =>
    rw [hf.demux_annexb_iff hformat tryAnnexbFirst hframe hcount, hrest]
    exact iff_true_intro hstream
  | guess =>
    cases tryAnnexbFirst with
    | true =>
      rw [hf.demux_annexb_first_iff hformat hframe hcount, hrest]
      exact iff_of_true (.inl hstream) (.inl rfl)
    | false =>
      have hsome : ∀ nalus, AnnexbStream f.stream.rest nalus → nalus ≠ [] := by
        intro nalus hnalus'
        rw [hrest] at hnalus'
        rw [hnalus'.unique hstream]
        exact hnonempty
      rw [hf.demux_ibmf_first_iff hformat hframe hsome hcount, hrest, hread, ← hfails]
      refine Iff.trans (or_congr_right ?_) (or_iff_right Bool.false_ne_true).symm
      constructor
      · rintro ⟨p, bad, before, after, hsplit, hboth, hbefore, hbroken, hafter⟩
        -- Annex-B finds all the NALUs, so IBMF has found none.
        rw [hafter.unique hstream, List.self_eq_append_left] at hboth
        exact ⟨p, bad, hsplit, hboth ▸ hbefore, hbroken⟩
      · rintro ⟨p, bad, hsplit, hempty, hbroken⟩
        exact ⟨p, bad, [], _, hsplit, rfl, hempty, hbroken, hstream⟩

end Ready

/-- Demuxing gives the NALUs back from a frame of either format, under these conditions and no
others. -/
theorem demux_iff {f : Format} (hf : Ready f) (tryAnnexbFirst : Bool) :
    (∀ nalus : List (List UInt8), nalus ≠ [] → nalus.length ≤ maxNbSamples →
      Prefixable (lengthSize f.vcodec.nalUnitLength) nalus →
      f.stream.rest = encIbmf (lengthSize f.vcodec.nalUnitLength) nalus →
      (Adds (videoNaluDemux tryAnnexbFirst) f nalus ↔
        IbmfComesBack f.vcodec.payloadFormat tryAnnexbFirst
          (lengthSize f.vcodec.nalUnitLength) nalus)) ∧
    (∀ units : List (Bool × List UInt8), units ≠ [] → units.length ≤ maxNbSamples →
      Delimitable (units.map Prod.snd) →
      f.stream.rest = encAnnexb units →
      (Adds (videoNaluDemux tryAnnexbFirst) f (units.map Prod.snd) ↔
        AnnexbComesBack f.vcodec.payloadFormat tryAnnexbFirst
          (lengthSize f.vcodec.nalUnitLength) units)) := by
  constructor
  · intro nalus hne hcount hnalus hrest
    exact hf.demux_encIbmf_iff tryAnnexbFirst hne hcount hnalus hrest
  · intro units hne hcount hnalus hrest
    exact hf.demux_encAnnexb_iff tryAnnexbFirst hne hcount hnalus hrest

/-- A frame behind a sequence header with lengths of four bytes. -/
def frameOf (bytes : List UInt8) : Format :=
  { vcodec := ⟨.avc, 3, [1], .guess⟩
    video := ⟨[], false, false, false, 0⟩
    stream := ⟨bytes, 0⟩ }

theorem frameOf_ready {bytes : List UInt8} (h : bytes.length < 2 ^ 31) :
    Ready (frameOf bytes) where
  avc := rfl
  extraData := by simp [frameOf]
  nalUnitLength := .inr (.inr rfl)
  pos := Nat.zero_le _
  size := h
  samples := rfl

/-- An IDR in either format, in the first frame. -/
theorem demux_idr :
    Adds (videoNaluDemux true) (frameOf [0, 0, 0, 2, 0x65, 0x88]) [[0x65, 0x88]] ∧
      Adds (videoNaluDemux false) (frameOf [0, 0, 1, 0x65, 0x88]) [[0x65, 0x88]] := by
  constructor
  · refine ((demux_iff (frameOf_ready (by decide)) true).1 [[0x65, 0x88]] (by decide) (by decide)
      (by unfold Prefixable; decide) rfl).mpr ⟨?_, fun _ => by decide⟩
    rintro ⟨-, -, nalu, hnalu, hlength⟩
    cases hnalu
    exfalso
    revert hlength
    decide
  · refine ((demux_iff (frameOf_ready (by decide)) false).2 [(false, [0x65, 0x88])] (by decide)
      (by decide) ?_ rfl).mpr (.inr (.inr ⟨by decide, _, rfl, rfl, by decide⟩))
    intro nalu hnalu
    rw [List.map_cons, List.map_nil, List.mem_singleton] at hnalu
    subst hnalu
    decide

/-- The length of an access unit delimiter of one byte is taken for a start code, and the frame is
one NALU. -/
theorem front_looks_annexb :
    Ready (frameOf (encIbmf 4 [[9], [0x65, 0x88]])) ∧ Prefixable 4 [[9], [0x65, 0x88]] ∧
      ¬ Adds (videoNaluDemux true) (frameOf (encIbmf 4 [[9], [0x65, 0x88]])) [[9], [0x65, 0x88]] := by
  have hrun : ∃ f', videoNaluDemux true (frameOf (encIbmf 4 [[9], [0x65, 0x88]])) = .ok () f' ∧
      f'.video.samples = [[9, 0, 0, 0, 2, 0x65, 0x88]] := ⟨_, rfl, rfl⟩
  refine ⟨frameOf_ready (by decide), by unfold Prefixable; decide, ?_⟩
  rintro ⟨f', hadds, hsamples⟩
  obtain ⟨f'', hrun', hsamples'⟩ := hrun
  rw [hrun'] at hadds
  cases hadds
  rw [hsamples'] at hsamples
  revert hsamples
  decide

end SrsChatRoom.Kernel
