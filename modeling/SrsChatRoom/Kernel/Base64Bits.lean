import SrsChatRoom.Kernel.Base64
import SrsChatRoom.Lib.Bits

/-!
# What a text in Base64 stands for

Each letter is six bits, and the whole bytes of these bits are what the text stands for; the bits
that are left over do not matter. `srsAvBase64Decode_iff` says that the decoder gives these bytes,
whatever newlines there are, and that it refuses the other texts.
-/

namespace SrsChatRoom.Kernel.Base64

open List (append_assoc append_nil flatMap_cons length_append length_cons length_nil)

/-- The bits of a text: six for each letter. -/
def textBits (t : List UInt8) : List Bool :=
  (t.filter fun c => c ∈ encoder).flatMap fun c => bitsBE 6 (encoder.idxOf c)

/-- The bits of some bytes. -/
def byteBits (x : List UInt8) : List Bool := x.flatMap fun b => bitsBE 8 b.toNat

/-- The text is in Base64, and its bits are those of the bytes, with less than a byte left over. -/
structure StandsFor (t x : List UInt8) : Prop where
  isBase64 : IsBase64 (strip t)
  bits : ∃ spare, spare.length < 8 ∧ textBits t = byteBits x ++ spare

/-! ## Bits -/

theorem bitsBE_add (m n v : ℕ) : bitsBE (m + n) v = bitsBE m (v >>> n) ++ bitsBE n v := by
  induction m with
  | zero => rw [Nat.zero_add]; rfl
  | succ m ih =>
    have hbit : (v >>> n).testBit m = v.testBit (m + n) := by
      rw [Nat.testBit_shiftRight, Nat.add_comm]
    rw [Nat.succ_add, bitsBE, bitsBE, ih, hbit, List.cons_append]

theorem bitsBE_mod (n v : ℕ) : bitsBE n (v % 2 ^ n) = bitsBE n v := by
  apply bitsBE_congr
  intro i hi
  rw [Nat.testBit_mod_two_pow, decide_eq_true hi, Bool.true_and]

theorem length_byteBits (x : List UInt8) : (byteBits x).length = 8 * x.length := by
  induction x with
  | nil => rfl
  | cons b x ih =>
    have hcons : byteBits (b :: x) = bitsBE 8 b.toNat ++ byteBits x := flatMap_cons
    rw [hcons, length_append, ih, length_bitsBE, length_cons]
    omega

theorem byteBits_append (x y : List UInt8) : byteBits (x ++ y) = byteBits x ++ byteBits y :=
  List.flatMap_append

/-- The bits of whole bytes are those of one list of bytes. -/
theorem eq_of_byteBits {x y : List UInt8} {s t : List Bool} (hs : s.length < 8) (ht : t.length < 8)
    (h : byteBits x ++ s = byteBits y ++ t) : x = y := by
  have hlength := congrArg List.length h
  rw [length_append, length_append, length_byteBits, length_byteBits] at hlength
  induction x generalizing y with
  | nil =>
    rw [length_nil] at hlength
    exact (List.length_eq_zero_iff.mp (by omega)).symm
  | cons b x ih =>
    cases y with
    | nil =>
      rw [length_cons, length_nil] at hlength
      omega
    | cons c y =>
      have hb : byteBits (b :: x) = bitsBE 8 b.toNat ++ byteBits x := flatMap_cons
      have hc : byteBits (c :: y) = bitsBE 8 c.toNat ++ byteBits y := flatMap_cons
      rw [hb, hc, append_assoc, append_assoc] at h
      obtain ⟨hhead, htail⟩ := List.append_inj h (by rw [length_bitsBE, length_bitsBE])
      have hvalue := congrArg ofBitsBE hhead
      rw [ofBitsBE_bitsBE, ofBitsBE_bitsBE] at hvalue
      have hbc : b = c := by
        apply UInt8.toNat_inj.mp
        have hb := b.toNat_lt
        have hc := c.toNat_lt
        omega
      rw [length_cons, length_cons] at hlength
      rw [hbc, ih htail (by omega)]

theorem StandsFor.unique {t x y : List UInt8} (hx : StandsFor t x) (hy : StandsFor t y) :
    x = y := by
  obtain ⟨s, hs, hbits⟩ := hx.bits
  obtain ⟨s', hs', hbits'⟩ := hy.bits
  exact eq_of_byteBits hs hs' (hbits.symm.trans hbits')

/-! ## Letters -/

variable {c : UInt8}

theorem decodeMap_of_mem (h : c ∈ encoder) : decodeMap c = encoder.idxOf c := by
  unfold decodeMap
  rw [List.idxOf_eq_getD_idxOf?]
  cases hplace : encoder.idxOf? c with
  | none => exact absurd h (List.idxOf?_eq_none_iff.mp hplace)
  | some i => rw [Option.getD_some, Option.getD_some]

theorem decodeMap_lt (h : c ∈ encoder) : decodeMap c < 64 := by
  have hlt := List.idxOf_lt_length_iff.mpr h
  rwa [length_encoder, ← decodeMap_of_mem h] at hlt

theorem textBits_letter (h : c ∈ encoder) (t : List UInt8) :
    textBits (c :: t) = bitsBE 6 (decodeMap c) ++ textBits t := by
  rw [decodeMap_of_mem h]
  unfold textBits
  rw [List.filter_cons_of_pos (by simpa using h), flatMap_cons]

theorem textBits_other (h : c ∉ encoder) (t : List UInt8) : textBits (c :: t) = textBits t := by
  unfold textBits
  rw [List.filter_cons_of_neg (by simpa using h)]

theorem textBits_skipNewlines (t : List UInt8) : textBits (skipNewlines t) = textBits t := by
  induction t with
  | nil => rfl
  | cons c t ih =>
    unfold skipNewlines at ih ⊢
    rw [List.dropWhile_cons]
    split
    · rename_i hnewline
      have hnot : c ∉ encoder := by
        intro hc
        rw [encoder_facts.2.1 c hc] at hnewline
        cases hnewline
      rw [ih, textBits_other hnot]
    · rfl

/-! ## A quantum -/

/-- What a quantum has read: the sextets behind those in `dbuf`. Only the last one has fewer than
four, and behind it there is nothing. -/
structure ReadSextets (k : ℕ) (dbuf : List ℕ) (s : List UInt8) (q : Quantum) (sextets : List ℕ) :
    Prop where
  dbuf : q.dbuf = dbuf ++ sextets
  lt : ∀ v ∈ sextets, v < 64
  bits : textBits s = sextets.flatMap (bitsBE 6) ++ textBits q.rest
  full : q.isEnd = false → sextets.length = k ∧ q.dlen = 4
  part : q.isEnd = true → q.dlen = q.dbuf.length ∧ 2 ≤ q.dlen ∧ sextets.length < k ∧
    (q.err = none → q.rest = [])

variable {s : List UInt8}

/-- Padding adds no sextets. -/
theorem readSextets_end {n k : ℕ} {dbuf : List ℕ} {rest : List UInt8} (htwo : 2 ≤ dbuf.length)
    (hbits : textBits s = textBits rest) :
    ReadSextets (k + 1) dbuf s (endQuantum n dbuf rest) [] where
  dbuf := (append_nil dbuf).symm
  lt v hv := absurd hv List.not_mem_nil
  bits := hbits
  full h := by cases h
  part _ := by
    refine ⟨rfl, htwo, Nat.succ_pos k, fun herr => ?_⟩
    have herr : (if rest = [] then none else some (n - rest.length)) = none := herr
    show rest = []
    by_contra hrest
    rw [if_neg hrest] at herr
    cases herr

variable {q : Quantum}

theorem decodeQuantum_reads {n k : ℕ} {dbuf : List ℕ}
    (h : decodeQuantum n k dbuf s = .ok q) : ∃ sextets, ReadSextets k dbuf s q sextets := by
  induction k generalizing dbuf s with
  | zero =>
    cases h
    exact ⟨[], (append_nil dbuf).symm, fun v hv => absurd hv List.not_mem_nil, rfl,
      fun _ => ⟨rfl, rfl⟩, fun hend => by cases hend⟩
  | succ k ih =>
    cases s with
    | nil => cases h
    | cons c s =>
      rw [decodeQuantum] at h
      have hskip := textBits_skipNewlines s
      split at h
      · rename_i hpad
        have hbits : textBits (c :: s) = textBits (skipNewlines s) := by
          rw [textBits_other (hpad ▸ padding_not_mem), hskip]
        split at h
        · cases h
        · rename_i htwo
          split at h
          · split at h
            · cases h
            · rename_i d rest hrest
              split at h
              · cases h
              · rename_i hd
                cases h
                rw [not_not] at hd
                refine ⟨[], readSextets_end (by omega) ?_⟩
                rw [hbits, hrest, hd, textBits_other padding_not_mem, textBits_skipNewlines]
          · cases h
            exact ⟨[], readSextets_end (by omega) hbits⟩
      · split at h
        · cases h
        · rename_i hletter
          have hmem : c ∈ encoder := not_not.mp fun hc => hletter ((decodeMap_eq_iff c).mpr hc)
          obtain ⟨sextets, hreads⟩ := ih h
          refine ⟨decodeMap c :: sextets, ?_, ?_, ?_, ?_, ?_⟩
          · rw [hreads.dbuf, append_assoc, List.singleton_append]
          · intro v hv
            cases List.mem_cons.mp hv with
            | inl heq => exact heq ▸ decodeMap_lt hmem
            | inr hv => exact hreads.lt v hv
          · rw [textBits_letter hmem, ← hskip, hreads.bits, flatMap_cons, append_assoc]
          · intro hend
            have hfull := hreads.full hend
            exact ⟨congrArg Nat.succ hfull.1, hfull.2⟩
          · intro hend
            have hpart := hreads.part hend
            exact ⟨hpart.1, hpart.2.1, Nat.succ_lt_succ hpart.2.2.1, hpart.2.2.2⟩

/-- Four sextets are three bytes. -/
theorem sextets_bits {a b c d v : ℕ} (hb : b < 64) (hc : c < 64) (hd : d < 64)
    (hv : v = a * 2 ^ 18 + b * 2 ^ 12 + c * 2 ^ 6 + d) :
    bitsBE 6 a ++ (bitsBE 6 b ++ (bitsBE 6 c ++ bitsBE 6 d)) =
      bitsBE 8 (v >>> 16) ++ (bitsBE 8 (v >>> 8) ++ bitsBE 8 v) := by
  have hgroup : ∀ k u, v / 2 ^ k % 2 ^ 6 = u % 2 ^ 6 → bitsBE 6 (v >>> k) = bitsBE 6 u := by
    intro k u hu
    rw [← bitsBE_mod, Nat.shiftRight_eq_div_pow, hu, bitsBE_mod]
  have hsix : bitsBE 24 v =
      bitsBE 6 (v >>> 18) ++ (bitsBE 6 (v >>> 12) ++ (bitsBE 6 (v >>> 6) ++ bitsBE 6 (v >>> 0))) := by
    rw [show 24 = 6 + (6 + (6 + 6)) from rfl, bitsBE_add, bitsBE_add, bitsBE_add]
    rfl
  have height : bitsBE 24 v = bitsBE 8 (v >>> 16) ++ (bitsBE 8 (v >>> 8) ++ bitsBE 8 v) := by
    rw [show 24 = 8 + (8 + 8) from rfl, bitsBE_add, bitsBE_add]
  rw [← height, hsix, hgroup 18 a (by omega), hgroup 12 b (by omega), hgroup 6 c (by omega),
    hgroup 0 d (by omega)]

theorem byteBits_ofNat (v : ℕ) : byteBits [UInt8.ofNat v] = bitsBE 8 v := by
  have hbyte : byteBits [UInt8.ofNat v] = bitsBE 8 (UInt8.ofNat v).toNat ++ [] := rfl
  rw [hbyte, append_nil, UInt8.toNat_ofNat']
  exact bitsBE_mod 8 v

/-- The sextets that are not there are zeros. -/
theorem sextets_prefix {l : List ℕ} (hfour : l.length ≤ 4) :
    l.flatMap (bitsBE 6) <+: bitsBE 6 (l.getD 0 0) ++
      (bitsBE 6 (l.getD 1 0) ++ (bitsBE 6 (l.getD 2 0) ++ bitsBE 6 (l.getD 3 0))) := by
  rcases l with _ | ⟨a, _ | ⟨b, _ | ⟨c, _ | ⟨d, _ | ⟨e, l⟩⟩⟩⟩⟩
  · exact List.nil_prefix
  · simp
  · simp
  · simp
  · simp
  · simp only [length_cons] at hfour
    omega

theorem length_sextets (l : List ℕ) : (l.flatMap (bitsBE 6)).length = 6 * l.length := by
  induction l with
  | nil => rfl
  | cons v l ih =>
    rw [flatMap_cons, length_append, ih, length_bitsBE, length_cons]
    omega

/-- A byte less than there are sextets. -/
theorem plain_prefix (htwo : 2 ≤ q.dlen) (hfour : q.dlen ≤ 4) :
    byteBits q.plain <+: bitsBE 8 (q.val >>> 16) ++ (bitsBE 8 (q.val >>> 8) ++ bitsBE 8 q.val) ∧
      q.plain.length = q.dlen - 1 := by
  unfold Quantum.plain
  rw [if_pos htwo, byteBits_append, byteBits_append, byteBits_ofNat, append_assoc]
  by_cases hthree : 3 ≤ q.dlen
  · rw [if_pos hthree, byteBits_ofNat]
    by_cases hfull : 4 ≤ q.dlen
    · rw [if_pos hfull, byteBits_ofNat]
      refine ⟨List.prefix_refl _, ?_⟩
      simp only [length_append, List.length_singleton]
      omega
    · rw [if_neg hfull]
      refine ⟨?_, ?_⟩
      · show _ ++ (_ ++ []) <+: _
        rw [append_nil, ← append_assoc]
        exact List.prefix_append _ _
      · simp only [length_append, List.length_singleton, length_nil]
        omega
  · rw [if_neg hthree, if_neg (by omega)]
    refine ⟨?_, ?_⟩
    · show _ ++ ([] ++ []) <+: _
      rw [append_nil, append_nil]
      exact List.prefix_append _ _
    · simp only [length_append, List.length_singleton, length_nil]
      omega

/-- The bytes of a quantum are the whole bytes of its sextets. -/
theorem plain_bits {l : List ℕ} (hdbuf : q.dbuf = l) (hlt : ∀ v ∈ l, v < 64)
    (htwo : 2 ≤ l.length) (hfour : l.length ≤ 4) (hdlen : q.dlen = l.length) :
    ∃ spare, l.flatMap (bitsBE 6) = byteBits q.plain ++ spare ∧
      spare.length = 2 * (4 - l.length) := by
  -- the sextets that are not there are zeros
  have hget : ∀ i, q.dbuf.getD i 0 < 64 := by
    intro i
    rw [hdbuf, List.getD_eq_getElem?_getD]
    cases hi : l[i]? with
    | none => decide
    | some v => exact hlt v (List.mem_of_getElem? hi)
  have hall := sextets_bits (hget 1) (hget 2) (hget 3) (a := q.dbuf.getD 0 0) rfl
  generalize hv : q.dbuf.getD 0 0 * 2 ^ 18 + q.dbuf.getD 1 0 * 2 ^ 12 + q.dbuf.getD 2 0 * 2 ^ 6 +
    q.dbuf.getD 3 0 = v at hall
  have hval : q.val = v := by
    have h0 := hget 0
    have h1 := hget 1
    have h2 := hget 2
    have h3 := hget 3
    apply val_eq (by omega) <;> omega
  obtain ⟨hplain, hlength⟩ := plain_prefix (hdlen ▸ htwo) (hdlen ▸ hfour)
  have hsextets := sextets_prefix hfour
  rw [← hdbuf, hall, hdbuf] at hsextets
  rw [hval] at hplain
  have hbits := length_byteBits q.plain
  have hsix := length_sextets l
  obtain ⟨spare, hspare⟩ := List.prefix_of_prefix_length_le hplain hsextets (by omega)
  refine ⟨spare, hspare.symm, ?_⟩
  have hsum := congrArg List.length hspare
  rw [length_append] at hsum
  omega

/-! ## The decoder -/

/-- What the loop appends are the bytes of the bits. -/
theorem decodeLoop_bits {n fuel : ℕ} {plaintext left : List UInt8}
    (h : decodeLoop n fuel s plaintext = .ok () left) :
    ∃ x spare, left = plaintext ++ x ∧ spare.length < 8 ∧ textBits s = byteBits x ++ spare := by
  induction fuel generalizing s plaintext with
  | zero => cases h
  | succ fuel ih =>
    by_cases hs : s = []
    · rw [hs] at h ⊢
      cases h
      exact ⟨[], [], (append_nil _).symm, by decide, rfl⟩
    cases hq : decodeQuantum n 4 [] s with
    | error e =>
      rw [decodeLoop_error hs hq] at h
      cases h
    | ok q =>
      obtain ⟨sextets, hreads⟩ := decodeQuantum_reads hq
      have hdbuf : q.dbuf = sextets := hreads.dbuf
      cases hend : q.isEnd with
      | false =>
        obtain ⟨hfour, hdlen⟩ := hreads.full hend
        obtain ⟨none, hplain, hnone⟩ := plain_bits hdbuf hreads.lt (by omega) (by omega) (by omega)
        rw [decodeLoop_more hs hq hend] at h
        obtain ⟨x, spare, hleft, hspare, hrest⟩ := ih h
        rw [List.length_eq_zero_iff.mp (by omega : none.length = 0), append_nil] at hplain
        refine ⟨q.plain ++ x, spare, by rw [hleft, append_assoc], hspare, ?_⟩
        rw [hreads.bits, hplain, hrest, byteBits_append, append_assoc]
      | true =>
        obtain ⟨hdlen, htwo, hpart, hrest⟩ := hreads.part hend
        rw [hdbuf] at hdlen
        cases herr : q.err with
        | some e =>
          rw [decodeLoop_garbage hs hq hend herr] at h
          cases h
        | none =>
          obtain ⟨spare, hplain, hspare⟩ :=
            plain_bits hdbuf hreads.lt (by omega) (by omega) (by omega)
          rw [decodeLoop_last hs hq hend herr] at h
          cases h
          refine ⟨q.plain, spare, rfl, by omega, ?_⟩
          have hnil : textBits [] = [] := rfl
          rw [hreads.bits, hrest herr, hnil, append_nil, hplain]

/-- Exactly the texts in Base64 are decoded, and to the bytes that they stand for. -/
theorem srsAvBase64Decode_iff (t plaintext x : List UInt8) :
    srsAvBase64Decode t plaintext = .ok () (plaintext ++ x) ↔ StandsFor t x := by
  have hstands : ∀ y, srsAvBase64Decode t plaintext = .ok () (plaintext ++ y) →
      StandsFor t y := by
    intro y hrun
    rcases srsAvBase64Decode_cases t plaintext with ⟨hyes, -⟩ | ⟨-, e, left, herr⟩
    · obtain ⟨z, spare, hz, hspare, hbits⟩ := decodeLoop_bits hrun
      rw [textBits_skipNewlines] at hbits
      rw [List.append_cancel_left hz]
      exact ⟨hyes, spare, hspare, hbits⟩
    · rw [herr] at hrun
      cases hrun
  constructor
  · exact hstands x
  · intro h
    rcases srsAvBase64Decode_cases t plaintext with ⟨-, y, hrun⟩ | ⟨hnot, -⟩
    · rw [hrun, (hstands y hrun).unique h]
    · exact absurd h.isBase64 hnot

/-- What is encoded stands for the bytes. -/
theorem standsFor_encode (x : List UInt8) : StandsFor (srsAvBase64Encode x) x := by
  rw [← srsAvBase64Decode_iff (srsAvBase64Encode x) [] x]
  have hle := length_skipNewlines_le (srsAvBase64Encode x)
  apply decodeLoop_encode x _ (clean_skipNewlines _) (by omega)
  rw [strip_skipNewlines]
  exact free_encode x

end SrsChatRoom.Kernel.Base64
