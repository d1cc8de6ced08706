import SrsChatRoom.App.Security

/-!
# What the access rules mean

A rule `a.b.c.d/n` is about the addresses that have the first `n` bits of `a.b.c.d`. Where the rule
or the address of the client is not well formed, the code still compares numbers: what it makes of
the text, with 0 for what is no address. `rules_sound_iff` says which rules and addresses are safe
from that.

* `Denotes` - what an argument is to mean;
* `cidrNum` - the prefix length as the code reads it, and `matchesAddress_eq` what it does with it;
* `Clean` - where the two agree.
-/

namespace SrsChatRoom.App.Security

open TextStream (Text)
open Sdp (atoi cStr)

variable {arg ip : Text}

/-! ## The meaning of a rule -/

/-- A text that is an IPv4 address. -/
def ipv4? (s : Text) : Option (BitVec 32) := if '\x00' ∈ s then none else inetPton s

/-- A number in decimal digits. -/
def decimal? (s : Text) : Option ℕ :=
  if s ≠ [] ∧ s.all Char.isDigit then some (Nat.ofDigitChars 10 s 0) else none

/-- The network of a well-formed rule. An address alone is one with all bits. -/
def network? (arg : Text) : Option (BitVec 32 × ℕ) :=
  if '/' ∉ arg then (ipv4? arg).map fun net => (net, 32)
  else
    match ipv4? (addressPart arg), decimal? (lengthPart arg) with
    | some net, some n => if 1 ≤ n ∧ n ≤ 32 then some (net, n) else none
    | _, _ => none

/-- The first `n` bits are the same. -/
def SameBits (n : ℕ) (a b : BitVec 32) : Prop := ∀ i < n, a.getMsbD i = b.getMsbD i

/-- The argument of a rule denotes the address of a client. -/
def Denotes (arg ip : Text) : Prop :=
  arg = "all".toList ∨ arg = ip ∨
    ∃ net n a, network? arg = some (net, n) ∧ ipv4? ip = some a ∧ SameBits n a net

/-- The test of an address is made inside the table, and says what the argument denotes. -/
def Means (arg ip : Text) : Prop :=
  ∃ matched, matchesAddress arg ip = some matched ∧ (matched = true ↔ Denotes arg ip)

/-- The table is not left, the rules mean what they say, and who is denied is denied. -/
structure Sound (rules : Option (List SrsConfDirective)) (type : SrsRtmpConnType) (ip : Text) :
    Prop where
  inBounds : doCheck rules type ip ≠ none
  means : ∀ rule ∈ rules.getD [], rule.name = "deny".toList ∨ rule.name = "allow".toList →
    Means rule.arg1 ip
  denied : (∃ rule ∈ named "deny" (rules.getD []),
    type.kind = some rule.arg0 ∧ Denotes rule.arg1 ip) → doCheck rules type ip = some .deny

/-! ## Masks -/

theorem mask_bits : ∀ n < 32, ∀ i < 32,
    (((cidrValues[n]?).map fun mask => srsIpv4ToNum mask.toList).getD 0).getMsbD i
      = decide (i ≤ n) := by
  decide +kernel

theorem mask_ne : ∀ n < 32, ∃ mask, cidrValues[n]? = some mask ∧ mask.toList ≠ [] := by
  intro n hn
  have hall : ∀ mask ∈ cidrValues, mask.toList ≠ [] := by decide +kernel
  have hlength : n < cidrValues.length := hn
  exact ⟨cidrValues[n], List.getElem?_eq_getElem hlength, hall _ (List.getElem_mem hlength)⟩

variable {n : ℕ}

/-- Comparing under a mask is comparing the first bits. -/
theorem and_eq_and_iff {mask : BitVec 32}
    (hmask : ∀ i < 32, mask.getMsbD i = decide (i < n)) (hn : n ≤ 32) (a b : BitVec 32) :
    a &&& mask = b &&& mask ↔ SameBits n a b := by
  constructor
  · intro h i hi
    have hbit := congrArg (fun v => v.getMsbD i) h
    simpa [hmask i (by omega), hi] using hbit
  · intro h
    apply BitVec.eq_of_getMsbD_eq
    intro i hi
    rw [BitVec.getMsbD_and, BitVec.getMsbD_and, hmask i hi]
    by_cases hin : i < n
    · rw [h i hin]
    · simp [hin]

/-! ## What the code does -/

/-- The prefix length as the code reads it; 0 where a rule is taken for no network. -/
def cidrNum (s : Text) : ℕ :=
  if '/' ∉ s then if srsIsIpv4 s then 32 else 0
  else if ¬ srsIsIpv4 (addressPart s) then 0
  else if lengthPart s = [] then 0
  else cidrLengthNum (lengthPart s)

variable {s : Text}

theorem addressPart_of_not_mem (h : '/' ∉ s) : addressPart s = s := by
  unfold addressPart
  rw [List.takeWhile_eq_self_iff]
  intro c hc
  have hne : c ≠ '/' := fun heq => h (heq ▸ hc)
  simpa using hne

theorem srsGetCidrMask_eq (s : Text) :
    srsGetCidrMask s
      = if cidrNum s = 0 then some [] else cidrValues[cidrNum s - 1]?.map String.toList := by
  unfold srsGetCidrMask cidrNum
  by_cases hslash : '/' ∉ s
  · rw [if_pos hslash, if_pos hslash]
    by_cases hipv4 : srsIsIpv4 s = true
    · simp [hipv4]
    · simp [hipv4]
  · rw [if_neg hslash, if_neg hslash]
    by_cases hipv4 : srsIsIpv4 (addressPart s) = true
    · by_cases hlength : lengthPart s = []
      · simp [hipv4, hlength]
      · simp [hipv4, hlength]
    · simp [hipv4]

theorem srsGetCidrIpv4_eq (s : Text) :
    srsGetCidrIpv4 s = if cidrNum s = 0 then [] else addressPart s := by
  unfold srsGetCidrIpv4 cidrNum
  by_cases hslash : '/' ∉ s
  · rw [if_pos hslash, if_pos hslash, addressPart_of_not_mem hslash]
    by_cases hipv4 : srsIsIpv4 s = true
    · simp [hipv4]
    · simp [hipv4]
  · rw [if_neg hslash, if_neg hslash]
    by_cases hipv4 : srsIsIpv4 (addressPart s) = true
    · by_cases hlength : lengthPart s = []
      · simp [hipv4, hlength]
      · simp [hipv4, hlength]
    · simp [hipv4]

theorem srsIsIpv4_addressPart (h : cidrNum s ≠ 0) : srsIsIpv4 (addressPart s) = true := by
  unfold cidrNum at h
  by_cases hslash : '/' ∉ s
  · rw [if_pos hslash] at h
    rw [addressPart_of_not_mem hslash]
    by_contra hipv4
    exact h (if_neg hipv4)
  · rw [if_neg hslash] at h
    by_contra hipv4
    exact h (if_pos hipv4)

/-- The code compares the first bits of two numbers, as many as it has read. -/
theorem matchesAddress_eq (h : cidrNum arg ≤ 32) :
    ∃ matched, matchesAddress arg ip = some matched ∧ (matched = true ↔
      arg = "all".toList ∨ arg = ip ∨ cidrNum arg ≠ 0 ∧
        SameBits (cidrNum arg) (srsIpv4ToNum ip) (srsIpv4ToNum (addressPart arg))) := by
  unfold matchesAddress
  rw [srsGetCidrMask_eq, srsGetCidrIpv4_eq]
  by_cases hzero : cidrNum arg = 0
  · rw [if_pos hzero, if_pos hzero, Option.map_some]
    refine ⟨_, rfl, ?_⟩
    simp [hzero]
  · have hlast : cidrNum arg - 1 < 32 := by omega
    obtain ⟨mask, hmask, hne⟩ := mask_ne _ hlast
    have hbits : ∀ i < 32, (srsIpv4ToNum mask.toList).getMsbD i = decide (i < cidrNum arg) := by
      intro i hi
      have hbit := mask_bits _ hlast i hi
      rw [hmask, Option.map_some, Option.getD_some] at hbit
      rw [hbit, decide_eq_decide]
      omega
    rw [if_neg hzero, if_neg hzero, hmask, Option.map_some, Option.map_some]
    refine ⟨_, rfl, ?_⟩
    simp only [Bool.or_eq_true, Bool.and_eq_true, decide_eq_true_eq, srsIsIpv4_addressPart hzero,
      srsIpv4WithinMask, and_eq_and_iff hbits h, or_assoc]
    simp [hne, hzero]

/-- An index outside of the table. -/
theorem matchesAddress_eq_none (h : 32 < cidrNum arg) : matchesAddress arg ip = none := by
  have hzero : cidrNum arg ≠ 0 := by omega
  have hout : cidrValues[cidrNum arg - 1]? = none := by
    apply List.getElem?_eq_none
    show 32 ≤ _
    omega
  rw [matchesAddress, srsGetCidrMask_eq, if_neg hzero, hout]
  rfl

/-! ## Well-formed rules -/

theorem isDigit_iff (c : Char) : c.isDigit = true ↔ '0' ≤ c ∧ c ≤ '9' := by
  simp [Char.isDigit, Char.le_def]

theorem octet_digits (h : octet s = some n) : ∀ c ∈ s, c.isDigit = true := by
  unfold octet at h
  split at h
  · next hs => exact List.all_eq_true.mp hs.2.2.1
  · cases h

/-- What has no NUL is read as a whole. -/
theorem cStr_eq (h : '\x00' ∉ s) : cStr s = s := by
  unfold cStr
  rw [List.takeWhile_eq_self_iff]
  intro c hc
  have hne : c ≠ '\x00' := fun heq => h (heq ▸ hc)
  simpa using hne

/-- An address consists of digits and dots. -/
theorem srsIsIpv4_of_ipv4? {a : BitVec 32} (h : ipv4? s = some a) : srsIsIpv4 s = true := by
  unfold ipv4? at h
  split at h
  · cases h
  · next hnul =>
    unfold inetPton at h
    rw [cStr_eq hnul] at h
    split at h
    · next w x y z hsplit =>
      simp only [Option.bind_eq_bind, Option.bind_eq_some_iff] at h
      obtain ⟨_, hw, _, hx, _, hy, _, hz, _⟩ := h
      have hs : s = w ++ '.' :: (x ++ '.' :: (y ++ '.' :: z)) := by
        have hjoin : [ '.'].intercalate (s.splitOn '.') = s := List.intercalate_splitOn '.'
        rw [← hjoin, hsplit]
        simp [List.intercalate]
      unfold srsIsIpv4
      rw [List.all_eq_true, hs]
      intro c hc
      simp only [List.mem_append, List.mem_cons] at hc
      have hdigit : c = '.' ∨ c.isDigit = true := by
        rcases hc with hc | hc | hc | hc | hc | hc | hc
        · exact .inr (octet_digits hw c hc)
        · exact .inl hc
        · exact .inr (octet_digits hx c hc)
        · exact .inl hc
        · exact .inr (octet_digits hy c hc)
        · exact .inl hc
        · exact .inr (octet_digits hz c hc)
      rw [isDigit_iff] at hdigit
      exact decide_eq_true hdigit
    · cases h

theorem number_digits (hne : s ≠ []) (hs : ∀ c ∈ s, c.isDigit = true) :
    TextStream.number s = some (false, Nat.ofDigitChars 10 s 0, []) := by
  obtain ⟨htake, hdrop⟩ := TextStream.span_append (w := s) (s := []) hs nofun
  rw [List.append_nil] at htake hdrop
  cases s with
  | nil => exact absurd rfl hne
  | cons d ds =>
    have hd : d.isDigit = true := hs d List.mem_cons_self
    have hskip : TextStream.skipSpaces (d :: ds) = d :: ds := by
      simp [TextStream.skipSpaces, TextStream.isSpace_of_isDigit hd]
    have hsign : TextStream.sign (d :: ds) = (false, d :: ds) := by
      have hminus : d ≠ '-' := by
        rintro rfl
        cases hd
      have hplus : d ≠ '+' := by
        rintro rfl
        cases hd
      simp [TextStream.sign, hminus, hplus]
    simp only [TextStream.number, hskip, hsign, htake, hdrop]

/-- `atoi` reads a small number in digits. -/
theorem cidrLengthNum_digits (h : decimal? s = some n) (hn : n ≤ 32) : cidrLengthNum s = n := by
  unfold decimal? at h
  split at h
  · next hs =>
    obtain ⟨hne, hdigits⟩ := hs
    rw [List.all_eq_true] at hdigits
    have hvalue : Nat.ofDigitChars 10 s 0 = n := Option.some.inj h
    have hnul : '\x00' ∉ s := fun hmem => absurd (hdigits _ hmem) (by decide)
    have hcut : max (-2 ^ 63) (min (2 ^ 63 - 1) (n : ℤ)) = n := by
      norm_num
      omega
    unfold cidrLengthNum atoi
    rw [cStr_eq hnul, number_digits hne hdigits, hvalue]
    dsimp only [TextStream.signed]
    rw [if_neg Bool.false_ne_true, hcut, Int.bmod_eq_of_le (by norm_num) (by norm_num; omega)]
    omega
  · cases h

/-- The code reads a well-formed rule as it is meant. -/
theorem cidrNum_of_network? {net : BitVec 32} (h : network? arg = some (net, n)) :
    cidrNum arg = n ∧ 1 ≤ n ∧ n ≤ 32 ∧ ipv4? (addressPart arg) = some net := by
  unfold network? at h
  unfold cidrNum
  by_cases hslash : '/' ∉ arg
  · rw [if_pos hslash] at h ⊢
    obtain ⟨net', hnet, heq⟩ := Option.map_eq_some_iff.mp h
    cases heq
    rw [if_pos (srsIsIpv4_of_ipv4? hnet), addressPart_of_not_mem hslash]
    exact ⟨rfl, by omega, le_refl 32, hnet⟩
  · rw [if_neg hslash] at h ⊢
    split at h
    · next net' n' hnet hlength =>
      split at h
      · next hrange =>
        cases h
        have hne : lengthPart arg ≠ [] := by
          intro hnil
          rw [hnil] at hlength
          cases hlength
        rw [if_neg (by simp [srsIsIpv4_of_ipv4? hnet]), if_neg hne,
          cidrLengthNum_digits hlength hrange.2]
        exact ⟨rfl, hrange.1, hrange.2, hnet⟩
      · cases h
    · cases h

theorem srsIpv4ToNum_of_ipv4? {a : BitVec 32} (h : ipv4? s = some a) : srsIpv4ToNum s = a := by
  unfold ipv4? at h
  split at h
  · cases h
  · rw [srsIpv4ToNum, h]
    rfl

/-! ## The result -/

/-- The rule is not read with a prefix length above 32; and it says `all`, or names the address as
it is, or it and the address are well formed, or the numbers they are taken for differ in the bits
that are compared, if any are. -/
def Clean (arg ip : Text) : Prop :=
  cidrNum arg ≤ 32 ∧
    (cidrNum arg = 0 ∨ arg = "all".toList ∨ arg = ip ∨
      (network? arg).isSome ∧ (ipv4? ip).isSome ∨
      ¬ SameBits (cidrNum arg) (srsIpv4ToNum ip) (srsIpv4ToNum (addressPart arg)))

theorem means_iff (arg ip : Text) : Means arg ip ↔ Clean arg ip := by
  by_cases hbound : cidrNum arg ≤ 32
  · obtain ⟨matched, hmatched, hiff⟩ := @matchesAddress_eq arg ip hbound
    have hmeans : Means arg ip ↔ (matched = true ↔ Denotes arg ip) := by
      constructor
      · rintro ⟨matched', hmatched', hiff'⟩
        rw [hmatched] at hmatched'
        cases hmatched'
        exact hiff'
      · intro h
        exact ⟨matched, hmatched, h⟩
    rw [hmeans, hiff, Clean, and_iff_right hbound]
    constructor
    · intro h
      by_contra hnot
      push Not at hnot
      obtain ⟨hnum, hall, hip, hformed, hsame⟩ := hnot
      rcases h.mp (.inr (.inr ⟨hnum, hsame⟩)) with heq | heq | ⟨net, n, a, hnet, ha, -⟩
      · exact hall heq
      · exact hip heq
      · exact hformed (by rw [hnet]; rfl) (by rw [ha]; rfl)
    · intro hclean
      unfold Denotes
      constructor
      · rintro (heq | heq | ⟨hnum, hsame⟩)
        · exact .inl heq
        · exact .inr (.inl heq)
        · rcases hclean with hzero | heq | heq | ⟨hnet, ha⟩ | hdiffer
          · exact absurd hzero hnum
          · exact .inl heq
          · exact .inr (.inl heq)
          · obtain ⟨⟨net, n⟩, hnet⟩ := Option.isSome_iff_exists.mp hnet
            obtain ⟨a, ha⟩ := Option.isSome_iff_exists.mp ha
            obtain ⟨hn, -, -, hnet'⟩ := cidrNum_of_network? hnet
            rw [hn, srsIpv4ToNum_of_ipv4? ha, srsIpv4ToNum_of_ipv4? hnet'] at hsame
            exact .inr (.inr ⟨net, n, a, hnet, ha, hsame⟩)
          · exact absurd hsame hdiffer
      · rintro (heq | heq | ⟨net, n, a, hnet, ha, hsame⟩)
        · exact .inl heq
        · exact .inr (.inl heq)
        · obtain ⟨hn, hpos, -, hnet'⟩ := cidrNum_of_network? hnet
          refine .inr (.inr ⟨by omega, ?_⟩)
          rw [hn, srsIpv4ToNum_of_ipv4? ha, srsIpv4ToNum_of_ipv4? hnet']
          exact hsame
  · have hnone := @matchesAddress_eq_none arg ip (not_le.mp hbound)
    apply iff_of_false
    · rintro ⟨matched, hmatched, -⟩
      rw [hnone] at hmatched
      cases hmatched
    · intro hclean
      exact hbound hclean.1

variable {rules : List SrsConfDirective}

/-- The loop over rules that mean what they say. -/
theorem anyMatches_eq (type : SrsRtmpConnType) (h : ∀ rule ∈ rules, Means rule.arg1 ip) :
    ∃ matched, anyMatches type ip rules = some matched ∧ (matched = true ↔
      ∃ rule ∈ rules, type.kind = some rule.arg0 ∧ Denotes rule.arg1 ip) := by
  induction rules with
  | nil => exact ⟨false, rfl, by simp⟩
  | cons rule rules ih =>
    obtain ⟨matched, hmatched, hiff⟩ := h rule List.mem_cons_self
    obtain ⟨rest, hrest, hiffRest⟩ := ih fun r hr => h r (List.mem_cons_of_mem rule hr)
    rw [anyMatches, SrsConfDirective.matchesClient, hmatched, Option.map_some, Option.bind_some]
    by_cases hfirst : (decide (type.kind = some rule.arg0) && matched) = true
    · rw [if_pos hfirst]
      rw [Bool.and_eq_true, decide_eq_true_eq, hiff] at hfirst
      exact ⟨true, rfl, by simpa using .inl hfirst⟩
    · rw [if_neg hfirst]
      rw [Bool.and_eq_true, decide_eq_true_eq, hiff] at hfirst
      refine ⟨rest, hrest, ?_⟩
      rw [hiffRest]
      simp [hfirst]

theorem mem_named {name : String} {rule : SrsConfDirective} :
    rule ∈ named name rules ↔ rule ∈ rules ∧ rule.name = name.toList := by
  simp [named]

/-- The rules are safe for an address exactly if each of them is clean. -/
theorem rules_sound_iff (rules : Option (List SrsConfDirective)) (type : SrsRtmpConnType) (ip : Text) :
    Sound rules type ip ↔
      ∀ rule ∈ rules.getD [], rule.name = "deny".toList ∨ rule.name = "allow".toList →
        Clean rule.arg1 ip := by
  constructor
  · intro h rule hrule hname
    exact (means_iff _ _).mp (h.means rule hrule hname)
  · intro h
    have hmeans : ∀ rule ∈ rules.getD [],
        rule.name = "deny".toList ∨ rule.name = "allow".toList → Means rule.arg1 ip :=
      fun rule hrule hname => (means_iff _ _).mpr (h rule hrule hname)
    cases rules with
    | none => exact ⟨by simp [doCheck], hmeans, by simp [named]⟩
    | some rules =>
      obtain ⟨denied, hdenied, hiffDeny⟩ := @anyMatches_eq _ (named "deny" rules) type
        fun rule hrule => hmeans rule (mem_named.mp hrule).1 (.inl (mem_named.mp hrule).2)
      obtain ⟨allowed, hallowed, -⟩ := @anyMatches_eq _ (named "allow" rules) type
        fun rule hrule => hmeans rule (mem_named.mp hrule).1 (.inr (mem_named.mp hrule).2)
      refine ⟨?_, hmeans, ?_⟩
      · rw [doCheck, denyCheck, hdenied, Option.map_some, Option.bind_some]
        split
        · simp
        · rw [allowCheck, hallowed]
          simp
      · intro hsome
        rw [doCheck, denyCheck, hdenied, Option.map_some, Option.bind_some,
          if_pos (hiffDeny.mpr hsome)]
        simp

/-! ## A prefix length that is too long -/

/-- `deny play 10.0.0.0/33` leaves the table of masks, whoever plays. -/
theorem prefix_too_long :
    ¬ Sound (some [⟨"deny".toList, ["play".toList, "10.0.0.0/33".toList]⟩]) .play
      "192.168.1.1".toList := by
  intro hsound
  exact hsound.inBounds (by decide +kernel)

end SrsChatRoom.App.Security
