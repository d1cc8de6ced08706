import SrsChatRoom.Kernel.BufferRules
import SrsChatRoom.Protocol.Amf0

/-!
# Which bytes are a value of AMF0

`Accepts p v q` says that the bytes `p` start with the value `v` and go on with `q`. It is the
format as the reader has it, which is wider than that of the writer: the end of an object may be
missing if the buffer ends, and so may elements of a strict array, whose count stays. The reader
accepts these bytes and no others (`sound_readAny`, `Accepts.reads`).
-/

namespace SrsChatRoom.Protocol

open SrsChatRoom.Kernel
open List (length_append length_cons)

/-! ## The format -/

/-- The end of an object, as `srs_amf0_is_object_eof` looks for it. -/
def StartsEof (p : List UInt8) : Prop := p.take 3 = [0, 0, 9]

instance (p : List UInt8) : Decidable (StartsEof p) := by unfold StartsEof; infer_instance

/-- A name or a string. A length from `2 ^ 15` on is negative, and the string is empty. -/
inductive AcceptsUtf8 : List UInt8 → List UInt8 → List UInt8 → Prop
  | empty {n : ℕ} (hn : n = 0 ∨ 2 ^ 15 ≤ n) (hlt : n < 2 ^ 16) (q : List UInt8) :
      AcceptsUtf8 (bytesBE 2 n ++ q) [] q
  | text {value : List UInt8} (hne : value ≠ []) (hlt : value.length < 2 ^ 15) (q : List UInt8) :
      AcceptsUtf8 (bytesBE 2 value.length ++ (value ++ q)) value q

/-- The properties of an object that are read in this order. -/
def Properties.ofPairs (pairs : Properties) : Properties :=
  pairs.foldl (fun properties pair => properties.set pair.1 (some pair.2)) []

mutual

/-- The bytes start with this value. -/
inductive Accepts : List UInt8 → Amf0Any → List UInt8 → Prop
  | objectEof (q : List UInt8) : Accepts (0 :: 0 :: 9 :: q) .objectEof q
  | string {p value q : List UInt8} (h : AcceptsUtf8 p value q) :
      Accepts (Amf0Kind.string.marker :: p) (.string value) q
  | boolean (value : UInt8) (q : List UInt8) :
      Accepts (Amf0Kind.boolean.marker :: value :: q) (.boolean (value != 0)) q
  | number {value : BitVec 64} {q : List UInt8}
      (h : ¬ StartsEof (Amf0Kind.number.marker :: (bytesBE 8 value.toNat ++ q))) :
      Accepts (Amf0Kind.number.marker :: (bytesBE 8 value.toNat ++ q)) (.number value) q
  | null (q : List UInt8) : Accepts (Amf0Kind.null.marker :: q) .null q
  | undefined (q : List UInt8) : Accepts (Amf0Kind.undefined.marker :: q) .undefined q
  | date (value : BitVec 64) (timeZone : BitVec 16) (q : List UInt8) :
      Accepts (Amf0Kind.date.marker :: (bytesBE 8 value.toNat ++ (bytesBE 2 timeZone.toNat ++ q)))
        (.date value timeZone) q
  | object {p q : List UInt8} {pairs : Properties} (h : AcceptsProperties p pairs q) :
      Accepts (Amf0Kind.object.marker :: p) (.object pairs.ofPairs) q
  | ecmaArray (count : BitVec 32) {p q : List UInt8} {pairs : Properties}
      (h : AcceptsProperties p pairs q) :
      Accepts (Amf0Kind.ecmaArray.marker :: (bytesBE 4 count.toNat ++ p))
        (.ecmaArray count pairs.ofPairs) q
  | strictArray {count : BitVec 32} {p q : List UInt8} {elems : List Amf0Any}
      (h : AcceptsElements count.toInt.toNat p elems q) :
      Accepts (Amf0Kind.strictArray.marker :: (bytesBE 4 count.toNat ++ p))
        (.strictArray count elems) q

/-- The bytes start with these properties, up to the end of the object or of the buffer. -/
inductive AcceptsProperties : List UInt8 → Properties → List UInt8 → Prop
  | empty : AcceptsProperties [] [] []
  | eof (q : List UInt8) : AcceptsProperties (0 :: 0 :: 9 :: q) [] q
  | property {p name q r s : List UInt8} {value : Amf0Any} {pairs : Properties}
      (heof : ¬ StartsEof p) (hname : AcceptsUtf8 p name q) (hvalue : Accepts q value r)
      (hpairs : AcceptsProperties r pairs s) : AcceptsProperties p ((name, value) :: pairs) s

/-- The bytes start with so many elements, or with fewer if the buffer ends. -/
inductive AcceptsElements : ℕ → List UInt8 → List Amf0Any → List UInt8 → Prop
  | all (p : List UInt8) : AcceptsElements 0 p [] p
  | empty (n : ℕ) : AcceptsElements n [] [] []
  | element {n : ℕ} {p q r : List UInt8} {value : Amf0Any} {elems : List Amf0Any}
      (hvalue : Accepts p value q) (helems : AcceptsElements n q elems r) :
      AcceptsElements (n + 1) p (value :: elems) r

end

variable {p q : List UInt8}

theorem AcceptsUtf8.length_lt {value : List UInt8} (h : AcceptsUtf8 p value q) :
    q.length + 2 ≤ p.length := by
  cases h with
  | empty hn hlt =>
    rw [length_append, length_bytesBE]
    omega
  | text hne hlt =>
    rw [length_append, length_append, length_bytesBE]
    omega

mutual

/-- A value takes bytes. -/
theorem Accepts.length_lt {p q : List UInt8} {v : Amf0Any} : Accepts p v q → q.length < p.length
  | .objectEof q => by
    simp only [length_cons]
    omega
  | .string h => by
    have := h.length_lt
    rw [length_cons]
    omega
  | .boolean value q => by
    simp only [length_cons]
    omega
  | .number h => by
    rw [length_cons, length_append]
    omega
  | .null q => by
    rw [length_cons]
    omega
  | .undefined q => by
    rw [length_cons]
    omega
  | .date value timeZone q => by
    rw [length_cons, length_append, length_append]
    omega
  | .object h => by
    have := h.length_le
    rw [length_cons]
    omega
  | .ecmaArray count h => by
    have := h.length_le
    rw [length_cons, length_append]
    omega
  | .strictArray h => by
    have := h.length_le
    rw [length_cons, length_append]
    omega

theorem AcceptsProperties.length_le {p q : List UInt8} {pairs : Properties} :
    AcceptsProperties p pairs q → q.length ≤ p.length
  | .empty => le_rfl
  | .eof q => by
    simp only [length_cons]
    omega
  | .property _ hname hvalue hpairs => by
    have := hname.length_lt
    have := hvalue.length_lt
    have := hpairs.length_le
    omega

theorem AcceptsElements.length_le {n : ℕ} {p q : List UInt8} {elems : List Amf0Any} :
    AcceptsElements n p elems q → q.length ≤ p.length
  | .all p => le_rfl
  | .empty n => le_rfl
  | .element hvalue helems => by
    have := hvalue.length_lt
    have := helems.length_le
    omega

end

/-! ## Running the accesses -/

theorem reads_access {α : Type} {x : Dec α} {a : α} (h : Reads x p a q) :
    Reads (access x) p a q := by
  intro b hpos hrest
  obtain ⟨b', hrun, hinside, hleft⟩ := h b hpos hrest
  exact ⟨b', by rw [access, hrun], hinside, hleft⟩

variable {Q : Unit → List UInt8 → Prop}

theorem sound_requires {n : ℤ} {code : Amf0ErrorCode} {message : String}
    (h : 0 ≤ n → n ≤ p.length → Q () p) :
    Sound (requires n code message) p Q := by
  intro b hpos hrest
  unfold requires
  by_cases hrequire : b.require n = true
  · have hn := hrequire
    unfold SrsBuffer.require SrsBuffer.left at hn
    rw [decide_eq_true_iff] at hn
    rw [if_pos hrequire]
    refine ⟨⟨rfl, hpos⟩, hrest ▸ h hn.1 ?_⟩
    rw [← hrest, SrsBuffer.length_rest]
    omega
  · rw [if_neg hrequire]
    exact ⟨rfl, hpos⟩

variable {n : ℕ}

theorem reads_requires (h : n ≤ p.length) (code : Amf0ErrorCode)
    (message : String) : Reads (requires n code message) p () p := by
  intro b hpos hrest
  have hrequire : b.require n = true := by
    rw [← hrest, SrsBuffer.length_rest] at h
    rw [SrsBuffer.require_iff]
    omega
  exact ⟨b, if_pos hrequire, ⟨rfl, hpos⟩, hrest⟩

theorem sound_readChecked {message : String} {Q : ℕ → List UInt8 → Prop}
    (h : n ≤ p.length → Q (ofBytesBE (p.take n)) (p.drop n)) :
    Sound (readChecked n message) p Q := by
  refine Sound.bind (P := fun _ q => q = p ∧ n ≤ p.length) ?_ ?_
  · exact sound_requires fun _ hle => ⟨rfl, by omega⟩
  · rintro ⟨⟩ q ⟨rfl, hle⟩
    exact (reads_access (reads_readUint hle)).sound (h hle)

theorem reads_readChecked (h : n ≤ p.length) (message : String) :
    Reads (readChecked n message) p (ofBytesBE (p.take n)) (p.drop n) :=
  (reads_requires h _ message).bind (reads_access (reads_readUint h))

/-- Reading a number that is there. -/
theorem reads_field {v : ℕ} (hv : v < 256 ^ n) (q : List UInt8) (message : String) :
    Reads (readChecked n message) (bytesBE n v ++ q) v q := by
  have hread := reads_readChecked (n := n) (p := bytesBE n v ++ q) (by simp) message
  rwa [List.take_left' (length_bytesBE n v), List.drop_left' (length_bytesBE n v),
    ofBytesBE_bytesBE, Nat.mod_eq_of_lt hv] at hread

/-- Reading bytes and going back in front of them. -/
theorem access_back {α : Type} {b : SrsBuffer} (hpos : b.pos ≤ b.bytes.length)
    (h : n ≤ b.rest.length) (f : ℕ → Amf0Io α) :
    (do let v ← access (SrsBuffer.readUint n); access (SrsBuffer.skip (-n)); f v : Amf0Io α) b =
      f (ofBytesBE (b.rest.take n)) b := by
  have hread : access (SrsBuffer.readUint n) b =
      .ok (ofBytesBE (b.rest.take n)) (b.advance n) := by
    rw [access, SrsBuffer.readUint_run h hpos]
  have hback : access (SrsBuffer.skip (-n)) (b.advance n) = .ok () b := by
    have hsum : ((b.advance n).pos : ℤ) + -n = b.pos := by
      rw [SrsBuffer.pos_advance]
      omega
    rw [access, SrsBuffer.skip, hsum, if_pos ⟨by omega, by rw [SrsBuffer.bytes_advance]; omega⟩]
    rfl
  rw [Prog.bind_ok hread, Prog.bind_ok hback]

/-! ## Markers and ends -/

theorem startsEof_iff : StartsEof p ↔ ∃ q, p = 0 :: 0 :: 9 :: q := by
  unfold StartsEof
  constructor
  · intro h
    exact ⟨p.drop 3, by rw [← List.take_append_drop 3 p, h]; rfl⟩
  · rintro ⟨q, rfl⟩
    rfl

/-- The look ahead. -/
theorem reads_isObjectEof (p : List UInt8) : Reads isObjectEof p (decide (StartsEof p)) p := by
  intro b hpos hrest
  refine ⟨b, ?_, ⟨rfl, hpos⟩, hrest⟩
  unfold isObjectEof
  rw [Prog.bind_ok (Prog.read_apply _ b)]
  by_cases hthere : b.require 3 = true
  · have hlength : 3 ≤ b.rest.length := by
      have := (b.require_iff 3).mp hthere
      rw [SrsBuffer.length_rest]
      omega
    rw [if_pos hthere]
    refine (access_back hpos hlength _).trans ?_
    rw [Prog.pure_apply, ← hrest]
    congr 1
    match hbytes : b.rest, hlength with
    | x :: y :: z :: q, _ =>
      have hx := x.toNat_lt
      have hy := y.toNat_lt
      have hz := z.toNat_lt
      have hflag : ofBytesBE [x, y, z] = 9 ↔ [x, y, z] = [0, 0, 9] := by
        simp only [ofBytesBE, length_cons, List.length_nil, List.cons.injEq, and_true,
          ← UInt8.toNat_inj]
        simp only [UInt8.toNat_ofNat]
        omega
      rw [beq_eq_decide, decide_eq_decide]
      exact hflag
  · have hshort : ¬ StartsEof p := by
      rw [startsEof_iff]
      rintro ⟨q, rfl⟩
      have hlength := congrArg List.length hrest
      rw [SrsBuffer.length_rest, length_cons, length_cons, length_cons] at hlength
      exact hthere ((b.require_iff 3).mpr (by omega))
    rw [if_neg hthere, decide_eq_false hshort]
    rfl

variable {kind : Amf0Kind}

variable {m : UInt8}

theorem ofMarker_eq_some (h : Amf0Kind.ofMarker m = some kind) :
    m = kind.marker ∧ kind ≠ .objectEof := by
  unfold Amf0Kind.ofMarker at h
  split_ifs at h with h2 h1 h0 h5 h6 h3 h8 hA hB <;> cases h
  · exact ⟨h2, by decide⟩
  · exact ⟨h1, by decide⟩
  · exact ⟨h0, by decide⟩
  · exact ⟨h5, by decide⟩
  · exact ⟨h6, by decide⟩
  · exact ⟨h3, by decide⟩
  · exact ⟨h8, by decide⟩
  · exact ⟨hA, by decide⟩
  · exact ⟨hB, by decide⟩

theorem ofMarker_marker (h : kind ≠ .objectEof) : Amf0Kind.ofMarker kind.marker = some kind := by
  cases kind <;> first | rfl | exact absurd rfl h

theorem ofNat_ofBytesBE_singleton (m : UInt8) : UInt8.ofNat (ofBytesBE [m]) = m := by
  simp [ofBytesBE]

/-- Only a number and the end itself can look like the end of an object. -/
theorem not_startsEof_cons (hm : m ≠ 0) (p : List UInt8) : ¬ StartsEof (m :: p) := by
  rw [startsEof_iff]
  rintro ⟨q, hq⟩
  exact hm (List.cons.inj hq).1

theorem reads_discovery_eof (q : List UInt8) :
    Reads discovery (0 :: 0 :: 9 :: q) .objectEof (0 :: 0 :: 9 :: q) := by
  refine Reads.bind (reads_isObjectEof _) ?_
  rw [decide_eq_true (startsEof_iff.mpr ⟨q, rfl⟩)]
  exact reads_pure _ _

/-- The rest of `discovery`, on a marker. -/
theorem discovery_marker (heof : ¬ StartsEof (m :: p)) {b : SrsBuffer}
    (hpos : b.pos ≤ b.bytes.length) (hrest : b.rest = m :: p) :
    discovery b = match Amf0Kind.ofMarker m with
      | some kind => .ok kind b
      | none => .err (Amf0Error.new .invalid "invalid amf0 message, marker=%#x") b := by
  obtain ⟨b', hlook, hinside, hleft⟩ := reads_isObjectEof (m :: p) b hpos hrest
  obtain rfl : b' = b := hinside.eq_of_rest ⟨rfl, hpos⟩ (hleft.trans hrest.symm)
  rw [decide_eq_false heof] at hlook
  have hthere : requires 1 .decode "marker requires 1 only %d bytes" b' = .ok () b' := by
    refine if_pos ((b'.require_iff 1).mpr ?_)
    have hlength := congrArg List.length hrest
    rw [SrsBuffer.length_rest, length_cons] at hlength
    omega
  unfold discovery
  rw [Prog.bind_ok hlook, if_neg Bool.false_ne_true, Prog.bind_ok hthere]
  refine (access_back (n := 1) hpos (by rw [hrest]; simp) _).trans ?_
  rw [hrest]
  show (match Amf0Kind.ofMarker (UInt8.ofNat (ofBytesBE [m])) with
    | some kind => pure kind
    | none => Prog.throw (Amf0Error.new .invalid "invalid amf0 message, marker=%#x") :
      Amf0Io Amf0Kind) b' = _
  rw [ofNat_ofBytesBE_singleton]
  cases Amf0Kind.ofMarker m with
  | some kind => rfl
  | none => rfl

theorem reads_discovery (h : kind ≠ .objectEof) (heof : ¬ StartsEof (kind.marker :: p)) :
    Reads discovery (kind.marker :: p) kind (kind.marker :: p) := by
  intro b hpos hrest
  refine ⟨b, ?_, ⟨rfl, hpos⟩, hrest⟩
  rw [discovery_marker heof hpos hrest, ofMarker_marker h]

/-- What `discovery` has found. -/
theorem sound_discovery {Q : Amf0Kind → List UInt8 → Prop}
    (heof : ∀ q, p = 0 :: 0 :: 9 :: q → Q .objectEof p)
    (hkind : ∀ kind q, kind ≠ .objectEof → p = kind.marker :: q → ¬ StartsEof p → Q kind p) :
    Sound discovery p Q := by
  by_cases hstart : StartsEof p
  · obtain ⟨q, rfl⟩ := startsEof_iff.mp hstart
    exact (reads_discovery_eof q).sound (heof q rfl)
  · match p with
    | [] =>
      refine Sound.bind (P := fun eof q => eof = false ∧ q = []) ?_ ?_
      · exact (reads_isObjectEof []).sound ⟨rfl, rfl⟩
      · rintro eof q ⟨rfl, rfl⟩
        refine Sound.bind (P := fun _ _ => False) ?_ (fun _ _ h => h.elim)
        exact sound_requires fun _ hle => by simp at hle
    | m :: p =>
      intro b hpos hrest
      rw [discovery_marker hstart hpos hrest]
      cases hm : Amf0Kind.ofMarker m with
      | none => exact ⟨rfl, hpos⟩
      | some kind =>
        obtain ⟨rfl, hne⟩ := ofMarker_eq_some hm
        exact ⟨⟨rfl, hpos⟩, hrest ▸ hkind kind p hne rfl hstart⟩

theorem reads_readMarker (kind : Amf0Kind) (message invalid : String) (p : List UInt8) :
    Reads (readMarker kind message invalid) (kind.marker :: p) () p := by
  refine Reads.bind (reads_readChecked (n := 1) (by simp) message) ?_
  show Reads (if UInt8.ofNat (ofBytesBE [kind.marker]) = kind.marker then pure ()
    else Prog.throw _ : Amf0Io Unit) p () p
  rw [ofNat_ofBytesBE_singleton, if_pos rfl]
  exact reads_pure p ()

theorem reads_readObjectEof (q : List UInt8) : Reads readObjectEof (0 :: 0 :: 9 :: q) () q := by
  refine Reads.bind (reads_readChecked (n := 2) (by simp) _) ?_
  show Reads (if ofBytesBE [0, 0] = 0 then _ else _ : Amf0Io Unit) (9 :: q) () q
  rw [if_pos (by decide)]
  refine Reads.bind (reads_readChecked (n := 1) (by simp) _) ?_
  show Reads (if UInt8.ofNat (ofBytesBE [9]) = Amf0Kind.objectEof.marker then _ else _ :
    Amf0Io Unit) q () q
  rw [if_pos (by decide)]
  exact reads_pure q ()

/-! ## Names, strings and fields -/

theorem reads_readUtf8 {value : List UInt8} (h : AcceptsUtf8 p value q) :
    Reads readUtf8 p value q := by
  cases h with
  | @empty n hn hlt =>
    refine Reads.bind (reads_field (by omega) q _) ?_
    have hlen : Int.bmod n (256 ^ 2) ≤ 0 := by
      rcases hn with rfl | hlarge
      · decide
      · exact (bmod_length_neg (by omega) (by omega)).le
    show Reads (if Int.bmod n (256 ^ 2) ≤ 0 then pure [] else _ : Amf0Io (List UInt8)) q [] q
    rw [if_pos hlen]
    exact reads_pure q []
  | text hne hlt =>
    refine Reads.bind (reads_field (by omega) _ _) ?_
    have hlen : ¬ ((value.length : ℤ) ≤ 0) := by
      have := List.length_pos_of_ne_nil hne
      omega
    dsimp only
    rw [bmod_length (by omega), if_neg hlen]
    refine Reads.bind (reads_requires (by simp) _ _) (reads_access ?_)
    have hbytes := reads_readBytes (n := value.length) (p := value ++ q) (by simp)
    rwa [List.take_left, List.drop_left] at hbytes

theorem bytesBE_take (h : n ≤ p.length) : bytesBE n (ofBytesBE (p.take n)) ++ p.drop n = p := by
  have hback := bytesBE_ofBytesBE (p.take n)
  rw [List.length_take_of_le h] at hback
  rw [hback, List.take_append_drop]

theorem ofBytesBE_take_lt (h : n ≤ p.length) : ofBytesBE (p.take n) < 256 ^ n := by
  have hlt := ofBytesBE_lt (p.take n)
  rwa [List.length_take_of_le h] at hlt

theorem sound_readUtf8 (p : List UInt8) : Sound readUtf8 p (AcceptsUtf8 p) := by
  refine Sound.bind (P := fun n q => n < 2 ^ 16 ∧ p = bytesBE 2 n ++ q) ?_ ?_
  · exact sound_readChecked fun hle => ⟨ofBytesBE_take_lt hle, (bytesBE_take hle).symm⟩
  · rintro n q ⟨hlt, rfl⟩
    show Sound (if Int.bmod n (256 ^ 2) ≤ 0 then pure [] else _ : Amf0Io (List UInt8)) q _
    rcases Classical.em (n = 0 ∨ 2 ^ 15 ≤ n) with hempty | hempty
    · have hlen : Int.bmod n (256 ^ 2) ≤ 0 := by
        rcases hempty with rfl | hlarge
        · decide
        · exact (bmod_length_neg (by omega) (by omega)).le
      rw [if_pos hlen]
      exact sound_pure (AcceptsUtf8.empty hempty hlt q)
    · obtain ⟨hpos, hsmall⟩ := not_or.mp hempty
      have hlen : ¬ ((n : ℤ) ≤ 0) := by omega
      rw [bmod_length (by omega), if_neg hlen]
      refine Sound.bind (P := fun _ r => r = q ∧ n ≤ q.length) ?_ ?_
      · exact sound_requires fun _ hle => ⟨rfl, by omega⟩
      · rintro ⟨⟩ r ⟨rfl, hle⟩
        refine (reads_access (reads_readBytes hle)).sound ?_
        have htake : (r.take n).length = n := List.length_take_of_le hle
        have htext := @AcceptsUtf8.text (r.take n)
          (List.ne_nil_of_length_pos (by omega)) (by omega) (r.drop n)
        rwa [htake, List.take_append_drop] at htext

/-- A field of the format as it is read. -/
theorem sound_readField {w : ℕ} (hw : 2 ^ w = 256 ^ n) (p : List UInt8) (message : String) :
    Sound (readChecked n message) p fun value q =>
      p = bytesBE n (BitVec.ofNat w value).toNat ++ q := by
  refine sound_readChecked fun hle => ?_
  rw [BitVec.toNat_ofNat, hw, Nat.mod_eq_of_lt (ofBytesBE_take_lt hle), bytesBE_take hle]

theorem reads_bitVec {w : ℕ} (hw : 2 ^ w = 256 ^ n) (v : BitVec w) (q : List UInt8)
    (message : String) : Reads (readChecked n message) (bytesBE n v.toNat ++ q) v.toNat q :=
  reads_field (hw ▸ v.isLt) q message

/-! ## The reader accepts nothing else -/

theorem reads_empty (p : List UInt8) :
    Reads (Prog.read SrsBuffer.empty : Amf0Io Bool) p (decide (p = [])) p :=
  reads_read fun b _ hrest => by rw [SrsBuffer.empty_eq, hrest]

theorem reads_rounds (p : List UInt8) : Reads rounds p (p.length + 1) p :=
  reads_read fun b _ hrest => by rw [hrest]

theorem sound_readMarker (kind : Amf0Kind) (message invalid : String) (h : Q () p) :
    Sound (readMarker kind message invalid) (kind.marker :: p) Q :=
  (reads_readMarker kind message invalid p).sound h

section Loops

variable {readAny : Amf0Io Amf0Any} {n : ℕ}
  (hread : ∀ q : List UInt8, q.length < n → Sound readAny q (Accepts q))
include hread

theorem sound_readProperties (fuel : ℕ) (p : List UInt8) (properties : Properties)
    (hn : p.length < n) (hfuel : p.length < fuel) :
    Sound (readProperties readAny fuel properties) p fun properties' q =>
      ∃ pairs, AcceptsProperties p pairs q ∧ properties' =
        pairs.foldl (fun ps pair => Properties.set ps pair.1 (some pair.2)) properties := by
  induction fuel generalizing p properties with
  | zero => omega
  | succ fuel ih =>
    refine Sound.bind (P := fun empty q => empty = decide (p = []) ∧ q = p) ?_ ?_
    · exact (reads_empty p).sound ⟨rfl, rfl⟩
    rintro empty q ⟨rfl, rfl⟩
    by_cases hnil : q = []
    · rw [decide_eq_true hnil, if_pos rfl]
      subst hnil
      exact sound_pure ⟨[], AcceptsProperties.empty, rfl⟩
    rw [decide_eq_false hnil, if_neg Bool.false_ne_true]
    refine Sound.bind (P := fun eof r => eof = decide (StartsEof q) ∧ r = q) ?_ ?_
    · exact (reads_isObjectEof q).sound ⟨rfl, rfl⟩
    rintro eof r ⟨rfl, rfl⟩
    by_cases heof : StartsEof r
    · rw [decide_eq_true heof, if_pos rfl]
      obtain ⟨s, rfl⟩ := startsEof_iff.mp heof
      refine Sound.bind (P := fun _ r => r = s) ?_ ?_
      · exact ((reads_readObjectEof s).wrap _).sound rfl
      · rintro ⟨⟩ r rfl
        exact sound_pure ⟨[], AcceptsProperties.eof r, rfl⟩
    · rw [decide_eq_false heof, if_neg Bool.false_ne_true]
      refine Sound.bind ((sound_readUtf8 r).wrap _) ?_
      intro name s hname
      have hlt := hname.length_lt
      refine Sound.bind ((hread s (by omega)).wrap _) ?_
      intro value t hvalue
      have hlt' := hvalue.length_lt
      refine (ih t (properties.set name (some value)) (by omega) (by omega)).mono ?_
      rintro properties' u ⟨pairs, hpairs, rfl⟩
      exact ⟨(name, value) :: pairs, AcceptsProperties.property heof hname hvalue hpairs, rfl⟩

theorem sound_readElements (count : ℤ) (fuel i : ℕ) (p : List UInt8) (properties : List Amf0Any)
    (hn : p.length < n) (hfuel : p.length < fuel) :
    Sound (readElements readAny count fuel i properties) p fun properties' q =>
      ∃ elems, AcceptsElements (count - i).toNat p elems q ∧ properties' = properties ++ elems := by
  induction fuel generalizing i p properties with
  | zero => omega
  | succ fuel ih =>
    refine Sound.bind (P := fun empty q => empty = decide (p = []) ∧ q = p) ?_ ?_
    · exact (reads_empty p).sound ⟨rfl, rfl⟩
    rintro empty q ⟨rfl, rfl⟩
    by_cases hmore : (i : ℤ) < count ∧ ¬ decide (q = []) = true
    · rw [if_pos hmore]
      refine Sound.bind ((hread q hn).wrap _) ?_
      intro value r hvalue
      have hlt := hvalue.length_lt
      refine (ih (i + 1) r (properties ++ [value]) (by omega) (by omega)).mono ?_
      rintro properties' s ⟨elems, helems, rfl⟩
      have hleft : (count - i).toNat = (count - (i + 1 : ℕ)).toNat + 1 := by omega
      exact ⟨value :: elems, hleft ▸ AcceptsElements.element hvalue helems, by simp⟩
    · rw [if_neg hmore]
      refine sound_pure ⟨[], ?_, (List.append_nil _).symm⟩
      by_cases hnil : q = []
      · subst hnil
        exact AcceptsElements.empty _
      · have hzero : (count - i).toNat = 0 := by
          have := not_and'.mp hmore (by simpa using hnil)
          omega
        rw [hzero]
        exact AcceptsElements.all q

end Loops

/-- What stands behind a marker. -/
theorem sound_readKind {readAny : Amf0Io Amf0Any}
    (hread : ∀ q : List UInt8, q.length < n → Sound readAny q (Accepts q))
    (hkind : kind ≠ .objectEof) (heof : ¬ StartsEof (kind.marker :: p)) (hn : p.length < n) :
    Sound (readKind readAny kind) (kind.marker :: p) (Accepts (kind.marker :: p)) := by
  cases kind with
  | objectEof => exact absurd rfl hkind
  | string =>
    refine Sound.bind (P := AcceptsUtf8 p) ?_ ?_
    · refine Sound.bind (P := fun _ q => q = p) (sound_readMarker _ _ _ rfl) ?_
      rintro ⟨⟩ q rfl
      exact sound_readUtf8 q
    · intro value q hvalue
      exact sound_pure (Accepts.string hvalue)
  | boolean =>
    refine Sound.bind (P := fun value q => ∃ x : UInt8, p = x :: q ∧ value = (x != 0)) ?_ ?_
    · refine Sound.bind (P := fun _ q => q = p) (sound_readMarker _ _ _ rfl) ?_
      rintro ⟨⟩ q rfl
      refine Sound.bind (P := fun value r => ∃ x : UInt8, q = x :: r ∧ value = x.toNat) ?_ ?_
      · refine sound_readChecked fun hle => ?_
        match q, hle with
        | x :: q, _ => exact ⟨x, rfl, by simp [ofBytesBE]⟩
      · rintro value r ⟨x, rfl, rfl⟩
        refine sound_pure ⟨x, rfl, ?_⟩
        rw [bne_eq, bne_eq]
        congr 1
        rw [beq_eq_decide, beq_eq_decide, decide_eq_decide, ← UInt8.toNat_inj]
        rfl
    · rintro value q ⟨x, rfl, rfl⟩
      exact sound_pure (Accepts.boolean x q)
  | number =>
    refine Sound.bind (P := fun value q => p = bytesBE 8 (BitVec.toNat value) ++ q) ?_ ?_
    · refine Sound.bind (P := fun _ q => q = p) (sound_readMarker _ _ _ rfl) ?_
      rintro ⟨⟩ q rfl
      refine Sound.bind (sound_readField (w := 64) (by decide) q _) ?_
      intro value r hvalue
      exact sound_pure hvalue
    · rintro value q rfl
      exact sound_pure (Accepts.number heof)
  | null =>
    refine Sound.bind (P := fun _ q => q = p) (sound_readMarker _ _ _ rfl) ?_
    rintro ⟨⟩ q rfl
    exact sound_pure (Accepts.null q)
  | undefined =>
    refine Sound.bind (P := fun _ q => q = p) (sound_readMarker _ _ _ rfl) ?_
    rintro ⟨⟩ q rfl
    exact sound_pure (Accepts.undefined q)
  | date =>
    refine Sound.bind (P := fun date q => p = bytesBE 8 (BitVec.toNat date.1) ++
      (bytesBE 2 (BitVec.toNat date.2) ++ q)) ?_ ?_
    · refine Sound.bind (P := fun _ q => q = p) (sound_readMarker _ _ _ rfl) ?_
      rintro ⟨⟩ q rfl
      refine Sound.bind (sound_readField (w := 64) (by decide) q _) ?_
      intro value r hvalue
      refine Sound.bind (sound_readField (w := 16) (by decide) r _) ?_
      intro timeZone t htimeZone
      exact sound_pure (by rw [hvalue, htimeZone])
    · rintro ⟨value, timeZone⟩ q rfl
      exact sound_pure (Accepts.date value timeZone q)
  | object =>
    refine Sound.bind (P := fun _ q => q = p) (sound_readMarker _ _ _ rfl) ?_
    rintro ⟨⟩ q rfl
    refine Sound.bind (P := fun fuel r => fuel = q.length + 1 ∧ r = q) ?_ ?_
    · exact (reads_rounds q).sound ⟨rfl, rfl⟩
    rintro fuel r ⟨rfl, rfl⟩
    refine Sound.bind (sound_readProperties hread _ r [] hn (Nat.lt_succ_self _)) ?_
    rintro properties s ⟨pairs, hpairs, rfl⟩
    exact sound_pure (Accepts.object hpairs)
  | ecmaArray =>
    refine Sound.bind (P := fun _ q => q = p) (sound_readMarker _ _ _ rfl) ?_
    rintro ⟨⟩ q rfl
    refine Sound.bind (sound_readField (w := 32) (by decide) q _) ?_
    rintro count r rfl
    rw [length_append] at hn
    refine Sound.bind (P := fun fuel t => fuel = r.length + 1 ∧ t = r) ?_ ?_
    · exact (reads_rounds r).sound ⟨rfl, rfl⟩
    rintro fuel t ⟨rfl, rfl⟩
    refine Sound.bind (sound_readProperties hread _ t [] (by omega) (Nat.lt_succ_self _)) ?_
    rintro properties s ⟨pairs, hpairs, rfl⟩
    exact sound_pure (Accepts.ecmaArray _ hpairs)
  | strictArray =>
    refine Sound.bind (P := fun _ q => q = p) (sound_readMarker _ _ _ rfl) ?_
    rintro ⟨⟩ q rfl
    refine Sound.bind (sound_readField (w := 32) (by decide) q _) ?_
    rintro count r rfl
    rw [length_append] at hn
    refine Sound.bind (P := fun fuel t => fuel = r.length + 1 ∧ t = r) ?_ ?_
    · exact (reads_rounds r).sound ⟨rfl, rfl⟩
    rintro fuel t ⟨rfl, rfl⟩
    refine Sound.bind (sound_readElements hread _ _ 0 t [] (by omega) (Nat.lt_succ_self _)) ?_
    rintro properties s ⟨elems, helems, rfl⟩
    rw [Nat.cast_zero, sub_zero] at helems
    exact sound_pure (Accepts.strictArray helems)

/-- The reader is safe on any bytes, and what it returns is a value of the format. -/
theorem sound_readAny (depth : ℕ) (p : List UInt8) (h : p.length < depth) :
    Sound (readAny depth) p (Accepts p) := by
  induction depth generalizing p with
  | zero => omega
  | succ depth ih =>
    refine Sound.bind (P := fun kind q => q = p ∧
      ((kind = .objectEof ∧ ∃ r, p = 0 :: 0 :: 9 :: r) ∨
        kind ≠ .objectEof ∧ ∃ r, p = kind.marker :: r ∧ ¬ StartsEof p)) ?_ ?_
    · apply Sound.wrap
      refine sound_discovery ?_ ?_
      · intro q hq
        exact ⟨rfl, .inl ⟨rfl, q, hq⟩⟩
      · intro kind q hkind hq heof
        exact ⟨rfl, .inr ⟨hkind, q, hq, heof⟩⟩
    · rintro kind q ⟨rfl, ⟨rfl, r, rfl⟩ | ⟨hkind, r, rfl, heof⟩⟩
      · apply Sound.wrap
        refine Sound.bind (P := fun _ q => q = r) ((reads_readObjectEof r).sound rfl) ?_
        rintro ⟨⟩ q rfl
        exact sound_pure (Accepts.objectEof q)
      · rw [length_cons] at h
        exact (sound_readKind ih hkind heof (by omega)).wrap _

/-! ## The reader accepts all of it -/

theorem reads_readAny {depth : ℕ} (hkind : kind ≠ .objectEof)
    {v : Amf0Any} (heof : ¬ StartsEof (kind.marker :: p))
    (h : Reads (readKind (readAny depth) kind) (kind.marker :: p) v q) :
    Reads (readAny (depth + 1)) (kind.marker :: p) v q :=
  ((reads_discovery hkind heof).wrap _).bind (h.wrap _)

mutual

theorem Accepts.reads {p q : List UInt8} {v : Amf0Any} :
    Accepts p v q → ∀ depth, p.length < depth → Reads (readAny depth) p v q
  | .objectEof q, depth + 1, _ => by
    refine ((reads_discovery_eof q).wrap _).bind (Reads.wrap ?_ _)
    exact (reads_readObjectEof q).bind (reads_pure q _)
  | .string h, depth + 1, _ => by
    refine reads_readAny (by decide) (not_startsEof_cons (by decide) _) ?_
    refine Reads.bind ((reads_readMarker _ _ _ _).bind (reads_readUtf8 h)) ?_
    exact reads_pure _ _
  | .boolean value q, depth + 1, _ => by
    refine reads_readAny (by decide) (not_startsEof_cons (by decide) _) ?_
    refine Reads.bind (a := value.toNat != 0) (q := q) ?_ ?_
    · refine (reads_readMarker _ _ _ _).bind ?_
      have hbyte := reads_readChecked (n := 1) (p := value :: q) (by simp)
        "requires 1 only %d bytes"
      have hvalue : ofBytesBE ((value :: q).take 1) = value.toNat := by simp [ofBytesBE]
      rw [hvalue] at hbyte
      exact hbyte.bind (reads_pure _ _)
    · have hsame : (value.toNat != 0) = (value != 0) := by
        rw [bne_eq, bne_eq]
        congr 1
        rw [beq_eq_decide, beq_eq_decide, decide_eq_decide, ← UInt8.toNat_inj]
        rfl
      rw [hsame]
      exact reads_pure _ _
  | @Accepts.number value q h, depth + 1, _ => by
    refine reads_readAny (by decide) h ?_
    refine Reads.bind (a := value) (q := q) ?_ (reads_pure _ _)
    refine (reads_readMarker _ _ _ _).bind ((reads_bitVec (by decide) value q _).bind ?_)
    rw [BitVec.ofNat_toNat, BitVec.setWidth_eq]
    exact reads_pure _ _
  | .null q, depth + 1, _ =>
    reads_readAny (by decide) (not_startsEof_cons (by decide) q)
      ((reads_readMarker _ _ _ _).bind (reads_pure _ _))
  | .undefined q, depth + 1, _ =>
    reads_readAny (by decide) (not_startsEof_cons (by decide) q)
      ((reads_readMarker _ _ _ _).bind (reads_pure _ _))
  | .date value timeZone q, depth + 1, _ => by
    refine reads_readAny (by decide) (not_startsEof_cons (by decide) _) ?_
    refine Reads.bind (a := (value, timeZone)) (q := q) ?_ (reads_pure _ _)
    refine (reads_readMarker _ _ _ _).bind ((reads_bitVec (by decide) value _ _).bind ?_)
    refine (reads_bitVec (by decide) timeZone q _).bind ?_
    rw [BitVec.ofNat_toNat, BitVec.setWidth_eq, BitVec.ofNat_toNat, BitVec.setWidth_eq]
    exact reads_pure _ _
  | .object h, depth + 1, hdepth => by
    refine reads_readAny (by decide) (not_startsEof_cons (by decide) _) ?_
    rw [length_cons] at hdepth
    refine (reads_readMarker _ _ _ _).bind ((reads_rounds _).bind ?_)
    exact (h.reads depth _ [] (by omega) (Nat.lt_succ_self _)).bind (reads_pure _ _)
  | .ecmaArray count h, depth + 1, hdepth => by
    refine reads_readAny (by decide) (not_startsEof_cons (by decide) _) ?_
    rw [length_cons, length_append] at hdepth
    refine (reads_readMarker _ _ _ _).bind ((reads_bitVec (by decide) count _ _).bind ?_)
    refine (reads_rounds _).bind ?_
    rw [BitVec.ofNat_toNat, BitVec.setWidth_eq]
    exact (h.reads depth _ [] (by omega) (Nat.lt_succ_self _)).bind (reads_pure _ _)
  | @Accepts.strictArray count p q elems h, depth + 1, hdepth => by
    refine reads_readAny (by decide) (not_startsEof_cons (by decide) _) ?_
    rw [length_cons, length_append] at hdepth
    refine (reads_readMarker _ _ _ _).bind ((reads_bitVec (by decide) count _ _).bind ?_)
    refine (reads_rounds _).bind ?_
    rw [BitVec.ofNat_toNat, BitVec.setWidth_eq]
    have helems := h.reads depth _ count.toInt 0 [] (by omega) (Nat.lt_succ_self _)
      (by rw [Nat.cast_zero, sub_zero])
    rw [List.nil_append] at helems
    exact helems.bind (reads_pure _ _)

theorem AcceptsProperties.reads {p q : List UInt8} {pairs : Properties} :
    AcceptsProperties p pairs q → ∀ (depth fuel : ℕ) (properties : Properties),
      p.length < depth → p.length < fuel →
      Reads (readProperties (readAny depth) fuel properties) p
        (pairs.foldl (fun ps pair => Properties.set ps pair.1 (some pair.2)) properties) q
  | .empty, _, fuel + 1, properties, _, _ => by
    refine (reads_empty []).bind ?_
    rw [decide_eq_true rfl, if_pos rfl]
    exact reads_pure [] properties
  | .eof q, _, fuel + 1, properties, _, _ => by
    refine (reads_empty _).bind ?_
    rw [decide_eq_false (List.cons_ne_nil _ _), if_neg Bool.false_ne_true]
    refine (reads_isObjectEof _).bind ?_
    rw [decide_eq_true (startsEof_iff.mpr ⟨q, rfl⟩), if_pos rfl]
    exact ((reads_readObjectEof q).wrap _).bind (reads_pure _ _)
  | @AcceptsProperties.property p name q r s value pairs heof hname hvalue hpairs, depth,
      fuel + 1, properties, hdepth, hfuel => by
    have hlt := hname.length_lt
    have hlt' := hvalue.length_lt
    have hne : p ≠ [] := List.ne_nil_of_length_pos (by omega)
    refine (reads_empty p).bind ?_
    rw [decide_eq_false hne, if_neg Bool.false_ne_true]
    refine (reads_isObjectEof p).bind ?_
    rw [decide_eq_false heof, if_neg Bool.false_ne_true]
    refine ((reads_readUtf8 hname).wrap _).bind ?_
    refine ((hvalue.reads depth (by omega)).wrap _).bind ?_
    exact hpairs.reads depth fuel (properties.set name (some value)) (by omega) (by omega)

theorem AcceptsElements.reads {n : ℕ} {p q : List UInt8} {elems : List Amf0Any} :
    AcceptsElements n p elems q → ∀ (depth fuel : ℕ) (count : ℤ) (i : ℕ)
      (properties : List Amf0Any), p.length < depth → p.length < fuel → n = (count - i).toNat →
      Reads (readElements (readAny depth) count fuel i properties) p (properties ++ elems) q
  | .all p, _, fuel + 1, count, i, properties, _, _, hn => by
    have hdone : ¬ ((i : ℤ) < count ∧ ¬ decide (p = []) = true) := by omega
    refine (reads_empty p).bind ?_
    rw [if_neg hdone, List.append_nil]
    exact reads_pure p properties
  | .empty n, _, fuel + 1, count, i, properties, _, _, _ => by
    refine (reads_empty []).bind ?_
    rw [if_neg (by simp), List.append_nil]
    exact reads_pure [] properties
  | @AcceptsElements.element n p q r value elems hvalue helems, depth, fuel + 1, count, i,
      properties, hdepth, hfuel, hn => by
    have hlt := hvalue.length_lt
    have hne : p ≠ [] := List.ne_nil_of_length_pos (by omega)
    refine (reads_empty p).bind ?_
    rw [if_pos ⟨by omega, by simpa using hne⟩]
    refine ((hvalue.reads depth hdepth).wrap _).bind ?_
    have htail := helems.reads depth fuel count (i + 1) (properties ++ [value]) (by omega)
      (by omega) (by omega)
    rwa [List.append_assoc] at htail

end

end SrsChatRoom.Protocol
