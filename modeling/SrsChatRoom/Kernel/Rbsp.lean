import Mathlib.Tactic

/-!
# Emulation bytes (`srs_kernel_codec.cpp`)

A NALU has no `00 00 00` to `00 00 03` in it: the encoder puts a `03` behind two zeros that a byte
up to 3 follows (`nalEncode`), and the decoder takes it out. `srs_rbsp_remove_emulation_bytes` looks
for the two zeros in what it has decoded, where zeros before a `03` that was taken out count as
well, and it keeps a `03` at the end.

`removes` is what it computes, given the number of zeros it has put out last (`removeLoop_run`);
`undoes_iff` says which byte strings come back.
-/

namespace SrsChatRoom.Kernel.Rbsp

open List (length_cons length_set)

/-! ## The decoder -/

/-- `rbsp[i] = v`, where `i` is inside the vector. -/
def writeAt (rbsp : List UInt8) (i : ℕ) (v : UInt8) : Option (List UInt8) :=
  if i < rbsp.length then some (rbsp.set i v) else none

/-- The last three bytes are `00 00 03`. -/
def emulates (rbsp : List UInt8) (nbRbsp : ℕ) : Bool :=
  2 ≤ nbRbsp && rbsp.getD (nbRbsp - 2) 0 == 0 && rbsp.getD (nbRbsp - 1) 0 == 0 &&
    rbsp.getD nbRbsp 0 == 3

/-- The loop of `srs_rbsp_remove_emulation_bytes`: how many bytes are in `rbsp`, and `rbsp`. -/
def removeLoop : List UInt8 → ℕ → List UInt8 → Option (ℕ × List UInt8)
  | [], nbRbsp, rbsp => some (nbRbsp, rbsp)
  | [v], nbRbsp, rbsp => do
    -- where it emulates, the loop ends here, with the byte kept
    let rbsp ← writeAt rbsp nbRbsp v
    return (nbRbsp + 1, rbsp)
  | v :: ev :: stream, nbRbsp, rbsp => do
    let rbsp ← writeAt rbsp nbRbsp v
    if emulates rbsp nbRbsp then
      let nbRbsp := if 3 < ev then nbRbsp + 1 else nbRbsp
      let rbsp ← writeAt rbsp nbRbsp ev
      removeLoop stream (nbRbsp + 1) rbsp
    else removeLoop (ev :: stream) (nbRbsp + 1) rbsp

/-- `srs_rbsp_remove_emulation_bytes(stream, rbsp)` -/
def removeEmulationBytes (stream rbsp : List UInt8) : Option (ℕ × List UInt8) :=
  removeLoop stream 0 rbsp

/-! ## The encoder -/

/-- The NALU of a byte string, where `zeros` zeros have come since the last emulation byte. -/
def encodeFrom : ℕ → List UInt8 → List UInt8
  | zeros, [] => if zeros = 2 then [3] else []
  | zeros, b :: r =>
    if zeros = 2 ∧ b ≤ 3 then 3 :: b :: encodeFrom (if b = 0 then 1 else 0) r
    else b :: encodeFrom (if b = 0 then zeros + 1 else 0) r

/-- A `03` behind every two zeros that a byte up to 3 follows, and behind two zeros at the end. -/
def nalEncode (r : List UInt8) : List UInt8 := encodeFrom 0 r

example : nalEncode [0, 0, 0, 0, 0, 3, 1] = [0, 0, 3, 0, 0, 3, 0, 3, 1] := by decide

/-! ## What the decoder computes -/

/-- The bytes that the loop puts out, where it has put out `zeros` zeros last. -/
def removes : ℕ → List UInt8 → List UInt8
  | _, [] => []
  | _, [v] => [v]
  | zeros, v :: ev :: stream =>
    if 2 ≤ zeros ∧ v = 3 then
      if 3 < ev then 3 :: ev :: removes 0 stream
      else ev :: removes (if ev = 0 then zeros + 1 else 0) stream
    else v :: removes (if v = 0 then zeros + 1 else 0) (ev :: stream)

attribute [local simp] removeLoop encodeFrom removes

/-- How many zeros come last in the vector, as far as the loop looks. -/
structure Counts (rbsp : List UInt8) (nbRbsp zeros : ℕ) : Prop where
  one : 1 ≤ zeros ↔ 1 ≤ nbRbsp ∧ rbsp.getD (nbRbsp - 1) 0 = 0
  two : 2 ≤ zeros ↔ 2 ≤ nbRbsp ∧ rbsp.getD (nbRbsp - 2) 0 = 0 ∧ rbsp.getD (nbRbsp - 1) 0 = 0

section Loop

variable {rbsp : List UInt8} {nbRbsp zeros : ℕ}

theorem getD_set (rbsp : List UInt8) (i j : ℕ) (v : UInt8) (hi : i < rbsp.length) :
    (rbsp.set i v).getD j 0 = if i = j then v else rbsp.getD j 0 := by
  by_cases hij : i = j
  · rw [if_pos hij, ← hij, List.getD_eq_getElem?_getD, List.getElem?_set_self hi]
    rfl
  · rw [if_neg hij, List.getD_eq_getElem?_getD, List.getElem?_set_ne hij,
      List.getD_eq_getElem?_getD]

/-- A byte more. -/
theorem Counts.write (h : Counts rbsp nbRbsp zeros) (hroom : nbRbsp < rbsp.length) (v : UInt8) :
    Counts (rbsp.set nbRbsp v) (nbRbsp + 1) (if v = 0 then zeros + 1 else 0) := by
  have hone := h.one
  have hlast : (rbsp.set nbRbsp v).getD (nbRbsp + 1 - 1) 0 = v := by
    rw [getD_set _ _ _ _ hroom, if_pos (Nat.add_sub_cancel nbRbsp 1).symm]
  constructor
  · rw [hlast]
    by_cases hv : v = 0
    · rw [if_pos hv]
      exact iff_of_true (by omega) ⟨by omega, hv⟩
    · rw [if_neg hv]
      exact iff_of_false (by omega) fun hzero => hv hzero.2
  · rw [hlast]
    by_cases hv : v = 0
    · have hbefore : 1 ≤ nbRbsp →
          (rbsp.set nbRbsp v).getD (nbRbsp + 1 - 2) 0 = rbsp.getD (nbRbsp - 1) 0 := by
        intro hpos
        rw [getD_set _ _ _ _ hroom, if_neg (by omega)]
        rfl
      rw [if_pos hv]
      constructor
      · intro htwo
        obtain ⟨hpos, hzero⟩ := hone.mp (by omega)
        exact ⟨by omega, (hbefore hpos).trans hzero, hv⟩
      · rintro ⟨htwo, hzero, -⟩
        have hpos := hone.mpr ⟨by omega, (hbefore (by omega)).symm.trans hzero⟩
        omega
    · rw [if_neg hv]
      exact iff_of_false (by omega) fun hzero => hv hzero.2.2

theorem Counts.emulates_iff (h : Counts rbsp nbRbsp zeros) (hroom : nbRbsp < rbsp.length)
    (v : UInt8) : emulates (rbsp.set nbRbsp v) nbRbsp = true ↔ 2 ≤ zeros ∧ v = 3 := by
  have hlast : (rbsp.set nbRbsp v).getD nbRbsp 0 = v := by
    rw [getD_set _ _ _ _ hroom, if_pos rfl]
  have hbefore : 2 ≤ nbRbsp →
      (rbsp.set nbRbsp v).getD (nbRbsp - 2) 0 = rbsp.getD (nbRbsp - 2) 0 ∧
        (rbsp.set nbRbsp v).getD (nbRbsp - 1) 0 = rbsp.getD (nbRbsp - 1) 0 := by
    intro htwo
    constructor
    · rw [getD_set _ _ _ _ hroom, if_neg (by omega)]
    · rw [getD_set _ _ _ _ hroom, if_neg (by omega)]
  simp only [emulates, Bool.and_eq_true, decide_eq_true_eq, beq_iff_eq, hlast, h.two]
  constructor
  · rintro ⟨⟨⟨htwo, hfirst⟩, hsecond⟩, hv⟩
    rw [(hbefore htwo).1] at hfirst
    rw [(hbefore htwo).2] at hsecond
    exact ⟨⟨htwo, hfirst, hsecond⟩, hv⟩
  · rintro ⟨⟨htwo, hfirst, hsecond⟩, hv⟩
    rw [(hbefore htwo).1, (hbefore htwo).2]
    exact ⟨⟨⟨htwo, hfirst⟩, hsecond⟩, hv⟩

theorem take_set (hroom : nbRbsp < rbsp.length) (v : UInt8) :
    (rbsp.set nbRbsp v).take (nbRbsp + 1) = rbsp.take nbRbsp ++ [v] := by
  rw [List.take_add_one, List.getElem?_set_self hroom, List.take_set_of_le (le_refl nbRbsp)]
  rfl

/-- The loop never writes outside of a vector that has room for the stream, and puts out the bytes
of `removes`. -/
theorem removeLoop_run (stream : List UInt8) (h : Counts rbsp nbRbsp zeros)
    (hroom : nbRbsp + stream.length ≤ rbsp.length) :
    ∃ nbRbsp' rbsp', removeLoop stream nbRbsp rbsp = some (nbRbsp', rbsp') ∧
      rbsp'.take nbRbsp' = rbsp.take nbRbsp ++ removes zeros stream := by
  induction hn : stream.length using Nat.strong_induction_on generalizing stream rbsp nbRbsp zeros
    with
  | _ n ih =>
    match stream with
    | [] => exact ⟨nbRbsp, rbsp, rfl, by rw [removes, List.append_nil]⟩
    | [v] =>
      have hv : nbRbsp < rbsp.length := by
        rw [List.length_singleton] at hroom
        omega
      refine ⟨nbRbsp + 1, rbsp.set nbRbsp v, ?_, take_set hv v⟩
      rw [removeLoop, writeAt, if_pos hv]
      rfl
    | v :: ev :: stream =>
      rw [length_cons, length_cons] at hroom hn
      have hv : nbRbsp < rbsp.length := by omega
      have hwrite : writeAt rbsp nbRbsp v = some (rbsp.set nbRbsp v) := if_pos hv
      have hemulates := h.emulates_iff hv v
      rw [removeLoop, hwrite, removes]
      show ∃ nbRbsp' rbsp', (if emulates (rbsp.set nbRbsp v) nbRbsp = true then _ else _ :
        Option (ℕ × List UInt8)) = _ ∧ _
      by_cases hmatch : 2 ≤ zeros ∧ v = 3
      · rw [if_pos (hemulates.mpr hmatch), if_pos hmatch]
        by_cases hev : 3 < ev
        · have hlen : (rbsp.set nbRbsp v).length = rbsp.length := length_set
          have hnext : nbRbsp + 1 < (rbsp.set nbRbsp v).length := by omega
          have hne : ev ≠ 0 := by
            rintro rfl
            exact absurd hev (by decide)
          have hcounts := (h.write hv v).write hnext ev
          rw [if_neg hne] at hcounts
          obtain ⟨nbRbsp', rbsp', hloop, htake⟩ := ih stream.length (by omega) stream hcounts
            (by rw [length_set]; omega) rfl
          rw [take_set hnext, take_set hv] at htake
          refine ⟨nbRbsp', rbsp', ?_, ?_⟩
          · simp only [if_pos hev, writeAt, if_pos hnext]
            exact hloop
          · rw [htake, if_pos hev, hmatch.2]
            simp
        · have hcounts := h.write hv ev
          have hlen : (rbsp.set nbRbsp v).length = rbsp.length := length_set
          obtain ⟨nbRbsp', rbsp', hloop, htake⟩ := ih stream.length (by omega) stream hcounts
            (by rw [length_set]; omega) rfl
          rw [take_set hv] at htake
          have hagain : nbRbsp < (rbsp.set nbRbsp v).length := by omega
          refine ⟨nbRbsp', rbsp', ?_, ?_⟩
          · simp only [if_neg hev, writeAt, if_pos hagain, List.set_set]
            exact hloop
          · rw [htake, if_neg hev]
            simp
      · rw [if_neg (hemulates.not.mpr hmatch), if_neg hmatch]
        obtain ⟨nbRbsp', rbsp', hloop, htake⟩ := ih (stream.length + 1) (by omega) (ev :: stream)
          (h.write hv v) (by rw [length_set, length_cons]; omega) rfl
        rw [take_set hv] at htake
        refine ⟨nbRbsp', rbsp', hloop, ?_⟩
        rw [htake]
        simp

end Loop

/-! ## What is put out of an encoded NALU -/

section Removes

variable {zeros : ℕ}

theorem removes_cons (v : UInt8) (stream : List UInt8) (h : ¬ (2 ≤ zeros ∧ v = 3)) :
    removes zeros (v :: stream) = v :: removes (if v = 0 then zeros + 1 else 0) stream := by
  cases stream with
  | nil => rw [removes, removes]
  | cons ev stream => rw [removes, if_neg h]

/-- An emulation byte is taken out. -/
theorem removes_emulation (h : 2 ≤ zeros) {ev : UInt8} (hev : ev ≤ 3) (stream : List UInt8) :
    removes zeros (3 :: ev :: stream) =
      ev :: removes (if ev = 0 then zeros + 1 else 0) stream := by
  rw [removes, if_pos ⟨h, rfl⟩, if_neg (UInt8.not_lt.mpr hev)]

/-- A byte above 3 keeps the `03` before it. -/
theorem removes_kept (h : 2 ≤ zeros) {ev : UInt8} (hev : 3 < ev) (stream : List UInt8) :
    removes zeros (3 :: ev :: stream) = 3 :: ev :: removes 0 stream := by
  rw [removes, if_pos ⟨h, rfl⟩, if_pos hev]

theorem encodeFrom_plain {b : UInt8} (h : ¬ (zeros = 2 ∧ b ≤ 3)) (r : List UInt8) :
    encodeFrom zeros (b :: r) = b :: encodeFrom (if b = 0 then zeros + 1 else 0) r := by
  rw [encodeFrom, if_neg h]

theorem encodeFrom_emulation {b : UInt8} (h : b ≤ 3) (r : List UInt8) :
    encodeFrom 2 (b :: r) = 3 :: b :: encodeFrom (if b = 0 then 1 else 0) r := by
  rw [encodeFrom, if_pos ⟨rfl, h⟩]

end Removes

/-- What is put out is no longer than the string, or it is one `03` at the end longer, behind a
zero. -/
def Bounded (since : ℕ) (r out : List UInt8) : Prop :=
  out.length ≤ r.length ∨ out.length ≤ r.length + 1 ∧ out.getLast? = some 3 ∧
    (r = [] ∧ since = 2 ∨ r.getLast? = some 0)

theorem Bounded.length_le {since : ℕ} {r out : List UInt8} (h : Bounded since r out) :
    out.length ≤ r.length + 1 := by
  rcases h with h | h <;> omega

theorem getLast?_cons_of_some {b v : UInt8} {r : List UInt8} (h : r.getLast? = some v) :
    (b :: r).getLast? = some v := by
  rw [List.getLast?_cons, h]
  rfl

/-- A byte more on both sides. -/
theorem Bounded.cons (since : ℕ) {r out : List UInt8} {b : UInt8} (since' : ℕ)
    (h : Bounded (if b = 0 then since + 1 else 0) r out) : Bounded since' (b :: r) (b :: out) := by
  rcases h with hle | ⟨hle, hout, hlast⟩
  · exact Or.inl (by rw [length_cons, length_cons]; omega)
  · refine Or.inr ⟨by rw [length_cons, length_cons]; omega,
      getLast?_cons_of_some hout, Or.inr ?_⟩
    rcases hlast with ⟨rfl, hsince⟩ | hlast
    · have hb : b = 0 := by
        by_contra hb
        rw [if_neg hb] at hsince
        omega
      rw [hb]
      rfl
    · exact getLast?_cons_of_some hlast

/-- The decoder counts no fewer zeros than the encoder. -/
theorem removes_bounded (r : List UInt8) (since zeros : ℕ) (hle : since ≤ zeros)
    (htwo : since ≤ 2) : Bounded since r (removes zeros (encodeFrom since r)) := by
  induction hn : r.length using Nat.strong_induction_on generalizing r since zeros with
  | _ n ih =>
    match r with
    | [] =>
      rw [encodeFrom]
      by_cases hsince : since = 2
      · rw [if_pos hsince, removes]
        exact Or.inr ⟨le_refl 1, rfl, Or.inl ⟨rfl, hsince⟩⟩
      · rw [if_neg hsince, removes]
        exact Or.inl (le_refl 0)
    | b :: r =>
      rw [length_cons] at hn
      by_cases hemulation : since = 2 ∧ b ≤ 3
      · -- the byte that the encoder put in is taken out again
        have hzeros : 2 ≤ zeros := hemulation.1 ▸ hle
        rw [hemulation.1, encodeFrom_emulation hemulation.2, removes_emulation hzeros hemulation.2]
        apply Bounded.cons 0
        apply ih r.length (by omega) r _ _ _ _ rfl
        · split <;> omega
        · split <;> omega
      · rw [encodeFrom_plain hemulation]
        have hzero : b = 0 → since + 1 ≤ 2 := by
          rintro rfl
          have : since ≠ 2 := fun hsince => hemulation ⟨hsince, by decide⟩
          omega
        by_cases hmatch : 2 ≤ zeros ∧ b = 3
        · obtain ⟨hzeros, rfl⟩ := hmatch
          rw [if_neg (by decide)]
          match r with
          | [] =>
            rw [encodeFrom, if_neg (by decide), removes]
            exact Or.inl (le_refl 1)
          | ev :: r =>
            rw [encodeFrom_plain (by omega)]
            rw [length_cons] at hn
            by_cases hev : 3 < ev
            · have hne : ev ≠ 0 := by
                rintro rfl
                exact absurd hev (by decide)
              rw [removes_kept hzeros hev]
              apply Bounded.cons 0
              apply Bounded.cons 0
              rw [if_neg hne]
              exact ih r.length (by omega) r 0 0 (le_refl 0) (by omega) rfl
            · -- a `03` of the string itself is taken out
              rw [removes_emulation hzeros (UInt8.not_lt.mp hev)]
              have hbound := (ih r.length (by omega) r (if ev = 0 then 0 + 1 else 0)
                (if ev = 0 then zeros + 1 else 0) (by split <;> omega)
                (by split <;> omega) rfl).length_le
              refine Or.inl ?_
              rw [length_cons, length_cons, length_cons]
              omega
        · rw [removes_cons _ _ hmatch]
          apply Bounded.cons since
          apply ih r.length (by omega) r _ _ _ _ rfl
          · split <;> omega
          · split
            · exact hzero ‹_›
            · omega

/-! ## Which strings come back -/

/-- The zeros since the last emulation byte, in a run of zeros. -/
def since (zeros : ℕ) : ℕ := if zeros = 0 then 0 else (zeros - 1) % 2 + 1

/-- No run of zeros in the string, the first of which has `zeros` zeros more, is undone wrongly: an
even run at the end keeps a `03`, and an odd run of three or more loses the `03` that comes next in
the string where a byte up to 3 follows it. -/
def Undone : ℕ → List UInt8 → Prop
  | zeros, [] => ¬ (zeros % 2 = 0 ∧ zeros ≠ 0)
  | zeros, b :: r =>
    if b = 0 then Undone (zeros + 1) r
    else ¬ (b = 3 ∧ zeros % 2 = 1 ∧ 3 ≤ zeros ∧ ∃ ev, r.head? = some ev ∧ ev ≤ 3) ∧ Undone 0 r

theorem since_zero : since 0 = 0 := rfl

theorem since_le (zeros : ℕ) : since zeros ≤ zeros := by
  rw [since]
  split <;> omega

theorem since_eq_two (zeros : ℕ) : since zeros = 2 ↔ zeros % 2 = 0 ∧ zeros ≠ 0 := by
  rw [since]
  split <;> omega

theorem since_succ (zeros : ℕ) :
    since (zeros + 1) = if since zeros = 2 then 1 else since zeros + 1 := by
  by_cases htwo : since zeros = 2
  · rw [if_pos htwo, since]
    rw [since_eq_two] at htwo
    split <;> omega
  · rw [if_neg htwo]
    rw [since_eq_two] at htwo
    rw [since, since]
    split <;> split <;> omega

/-- A `03` that the decoder takes out of the string itself does not come back. -/
theorem removes_dropped (zeros : ℕ) {ev : UInt8} (hev : ev ≤ 3) (r : List UInt8) :
    ev :: removes (if ev = 0 then zeros + 1 else 0) (encodeFrom (if ev = 0 then 1 else 0) r) ≠
      3 :: ev :: r := by
  intro heq
  obtain ⟨rfl, htail⟩ := List.cons.inj heq
  rw [if_neg (by decide), if_neg (by decide)] at htail
  have hbound := removes_bounded r 0 0 (le_refl 0) (by omega)
  rw [htail] at hbound
  rcases hbound with hle | ⟨-, hlast, ⟨-, hsince⟩ | hzero⟩
  · rw [length_cons] at hle
    omega
  · omega
  · rw [getLast?_cons_of_some hzero] at hlast
    exact absurd (Option.some.inj hlast) (by decide)

theorem removes_eq_iff (zeros : ℕ) (r : List UInt8) :
    removes zeros (encodeFrom (since zeros) r) = r ↔ Undone zeros r := by
  induction hn : r.length using Nat.strong_induction_on generalizing r zeros with
  | _ n ih =>
    match r with
    | [] =>
      rw [encodeFrom, Undone, ← since_eq_two]
      by_cases htwo : since zeros = 2
      · rw [if_pos htwo, removes]
        exact iff_of_false (List.cons_ne_nil 3 []) fun hnot => hnot htwo
      · rw [if_neg htwo, removes]
        exact iff_of_true rfl htwo
    | b :: r =>
      rw [length_cons] at hn
      rw [Undone]
      by_cases hzero : b = 0
      · -- a zero more: the encoder may put an emulation byte before it
        have hnext := ih r.length (by omega) (zeros + 1) r rfl
        rw [if_pos hzero, ← hnext, since_succ]
        subst hzero
        by_cases htwo : since zeros = 2
        · have hzeros : 2 ≤ zeros := htwo ▸ since_le zeros
          rw [htwo, encodeFrom_emulation (by decide), removes_emulation hzeros (by decide)]
          simp only [if_true, List.cons.injEq, true_and]
        · rw [encodeFrom_plain (fun hemulation => htwo hemulation.1),
            removes_cons _ _ (fun hmatch => absurd hmatch.2 (by decide)), if_neg htwo]
          simp only [if_true, List.cons.injEq, true_and]
      · have hnext := ih r.length (by omega) 0 r rfl
        rw [since_zero] at hnext
        rw [if_neg hzero]
        by_cases hemulation : since zeros = 2 ∧ b ≤ 3
        · have hzeros : 2 ≤ zeros := hemulation.1 ▸ since_le zeros
          have heven := (since_eq_two zeros).mp hemulation.1
          rw [hemulation.1, encodeFrom_emulation hemulation.2,
            removes_emulation hzeros hemulation.2, if_neg hzero, if_neg hzero, ← hnext,
            List.cons.injEq]
          constructor
          · intro heq
            exact ⟨fun hodd => by omega, heq.2⟩
          · intro heq
            exact ⟨rfl, heq.2⟩
        · rw [encodeFrom_plain hemulation, if_neg hzero]
          by_cases hmatch : 2 ≤ zeros ∧ b = 3
          · obtain ⟨hzeros, rfl⟩ := hmatch
            have hodd : zeros % 2 = 1 ∧ 3 ≤ zeros := by
              have htwo : since zeros ≠ 2 := fun htwo => hemulation ⟨htwo, by decide⟩
              rw [Ne, since_eq_two] at htwo
              omega
            match r with
            | [] =>
              rw [encodeFrom, if_neg (by decide), removes, Undone]
              apply iff_of_true rfl
              refine ⟨?_, by omega⟩
              rintro ⟨-, -, -, ev, hhead, -⟩
              exact absurd hhead (by simp)
            | ev :: r =>
              rw [length_cons] at hn
              rw [encodeFrom_plain (by omega)]
              by_cases hev : 3 < ev
              · have hne : ev ≠ 0 := by
                  rintro rfl
                  exact absurd hev (by decide)
                have hbehind := ih r.length (by omega) 0 r rfl
                rw [since_zero] at hbehind
                rw [removes_kept hzeros hev, if_neg hne, List.cons.injEq, List.cons.injEq,
                  hbehind, Undone, if_neg hne]
                constructor
                · intro heq
                  refine ⟨?_, fun hodd => by omega, heq.2.2⟩
                  rintro ⟨-, -, -, ev', hhead, hle⟩
                  obtain rfl := Option.some.inj hhead
                  exact absurd hev (UInt8.not_lt.mpr hle)
                · intro heq
                  exact ⟨rfl, rfl, heq.2.2⟩
              · rw [removes_emulation hzeros (UInt8.not_lt.mp hev)]
                apply iff_of_false (removes_dropped zeros (UInt8.not_lt.mp hev) r)
                intro hundone
                exact hundone.1 ⟨rfl, hodd.1, hodd.2, ev, rfl, UInt8.not_lt.mp hev⟩
          · rw [removes_cons _ _ hmatch, if_neg hzero, List.cons.injEq, hnext]
            constructor
            · intro heq
              exact ⟨fun hdropped => hmatch ⟨by omega, hdropped.1⟩, heq.2⟩
            · intro heq
              exact ⟨rfl, heq.2⟩

/-- What the emulation bytes promise: whatever vector has room for the NALU, the decoder writes
inside of it, and what it has written is the string again. -/
def Undoes (r : List UInt8) : Prop :=
  ∀ rbsp : List UInt8, (nalEncode r).length ≤ rbsp.length →
    ∃ nbRbsp rbsp', removeEmulationBytes (nalEncode r) rbsp = some (nbRbsp, rbsp') ∧
      rbsp'.take nbRbsp = r

theorem removeEmulationBytes_run (stream rbsp : List UInt8) (h : stream.length ≤ rbsp.length) :
    ∃ nbRbsp rbsp', removeEmulationBytes stream rbsp = some (nbRbsp, rbsp') ∧
      rbsp'.take nbRbsp = removes 0 stream := by
  have hcounts : Counts rbsp 0 0 := by
    constructor
    · exact iff_of_false (by omega) fun hpos => by omega
    · exact iff_of_false (by omega) fun hpos => by omega
  obtain ⟨nbRbsp, rbsp', hloop, htake⟩ := removeLoop_run stream hcounts (by omega)
  exact ⟨nbRbsp, rbsp', hloop, htake⟩

/-- A string comes back exactly when it does not end in an even number of zeros, and no odd run of
three or more zeros in it is followed by a `03` and a byte up to 3. -/
theorem undoes_iff (r : List UInt8) : Undoes r ↔ Undone 0 r := by
  rw [← removes_eq_iff 0 r]
  constructor
  · intro h
    obtain ⟨nbRbsp, rbsp', hrun, htake⟩ :=
      removeEmulationBytes_run (nalEncode r) (nalEncode r) (le_refl _)
    obtain ⟨nbRbsp', rbsp'', hrun', htake'⟩ := h (nalEncode r) (le_refl _)
    obtain ⟨rfl, rfl⟩ := Prod.mk.inj (Option.some.inj (hrun.symm.trans hrun'))
    exact htake.symm.trans htake'
  · intro h rbsp hroom
    obtain ⟨nbRbsp, rbsp', hrun, htake⟩ := removeEmulationBytes_run (nalEncode r) rbsp hroom
    exact ⟨nbRbsp, rbsp', hrun, htake.trans h⟩

/-- Three zeros, a `03` and a `01`: the `03` of the string is taken out as well. -/
theorem odd_run_loses_three : ¬ Undoes [0, 0, 0, 3, 1] := by
  intro h
  obtain ⟨nbRbsp, rbsp, hrun, htake⟩ := h [0, 0, 0, 0, 0, 0] (by decide)
  have hlost : removeEmulationBytes (nalEncode [0, 0, 0, 3, 1]) [0, 0, 0, 0, 0, 0] =
      some (4, [0, 0, 0, 1, 0, 0]) := by decide
  obtain ⟨rfl, rfl⟩ := Prod.mk.inj (Option.some.inj (hlost.symm.trans hrun))
  exact absurd htake (by decide)

end SrsChatRoom.Kernel.Rbsp
