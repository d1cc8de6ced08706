import SrsChatRoom.Protocol.Amf0Grammar
import SrsChatRoom.Protocol.Amf0Writer

/-!
# Values of AMF0 that are written and read back

A value that is read is whole (`Whole`), or the buffer ended in a strict array that lacks elements
(`Cut`). A whole value is read back whatever follows it. One that is cut is read back if nothing
follows the strict array, but if it is in an object, the end of the object follows, which is then
read as an element (`CutInObject`).
-/

namespace SrsChatRoom.Protocol

open SrsChatRoom.Kernel
open List (append_assoc append_nil cons_append length_cons nodup_nil)

/-! ## Properties with different names -/

/-- No two properties have one name. -/
def Properties.Distinct (properties : Properties) : Prop := (properties.map Prod.fst).Nodup

namespace Properties

variable {properties : Properties}

theorem not_mem_eraseP (h : properties.Distinct) (key : List UInt8) :
    key ∉ (properties.eraseP fun p => p.1 == key).map Prod.fst := by
  induction properties with
  | nil => simp
  | cons p properties ih =>
    obtain ⟨hp, hothers⟩ := List.nodup_cons.mp h
    by_cases hkey : p.1 = key
    · rw [List.eraseP_cons, beq_iff_eq.mpr hkey, cond_true]
      exact hkey ▸ hp
    · rw [List.eraseP_cons, beq_eq_false_iff_ne.mpr hkey, cond_false, List.map_cons, List.mem_cons,
        not_or]
      exact ⟨fun heq => hkey heq.symm, ih hothers⟩

theorem distinct_eraseP (h : properties.Distinct) (key : List UInt8) :
    Distinct (properties.eraseP fun p => p.1 == key) :=
  h.sublist (List.eraseP_sublist.map Prod.fst)

theorem distinct_set (h : properties.Distinct) (key : List UInt8)
    (value : Option Amf0Any) : (properties.set key value).Distinct := by
  unfold set
  cases value with
  | none => exact distinct_eraseP h key
  | some v =>
    unfold Distinct
    dsimp only
    rw [List.map_append, List.nodup_append]
    refine ⟨distinct_eraseP h key, List.nodup_singleton key, ?_⟩
    intro name hname name' hname' heq
    have hkey : name = key := heq.trans (List.mem_singleton.mp hname')
    exact not_mem_eraseP h key (hkey ▸ hname)

theorem mem_of_mem_set {key : List UInt8} {value : Option Amf0Any}
    {p : List UInt8 × Amf0Any} (h : p ∈ properties.set key value) :
    p ∈ properties ∨ ∃ v, value = some v ∧ p = (key, v) := by
  unfold set at h
  cases value with
  | none => exact .inl (List.mem_of_mem_eraseP h)
  | some v =>
    rcases List.mem_append.mp h with hp | hp
    · exact .inl (List.mem_of_mem_eraseP hp)
    · exact .inr ⟨v, rfl, List.mem_singleton.mp hp⟩

theorem ofPairs_append (pairs : Properties) (name : List UInt8) (value : Amf0Any) :
    ofPairs (pairs ++ [(name, value)]) = pairs.ofPairs.set name (some value) := by
  rw [ofPairs, List.foldl_append]
  rfl

theorem distinct_ofPairs (pairs : Properties) : pairs.ofPairs.Distinct := by
  induction pairs using List.reverseRecOn with
  | nil => exact nodup_nil
  | append_singleton pairs p ih =>
    rw [ofPairs_append]
    exact distinct_set ih p.1 (some p.2)

theorem mem_of_mem_ofPairs {pairs : Properties} {p : List UInt8 × Amf0Any}
    (h : p ∈ pairs.ofPairs) : p ∈ pairs := by
  induction pairs using List.reverseRecOn with
  | nil => exact h
  | append_singleton pairs p' ih =>
    rw [ofPairs_append] at h
    rw [List.mem_append, List.mem_singleton]
    rcases mem_of_mem_set h with hp | ⟨v, hv, rfl⟩
    · exact .inl (ih hp)
    · cases hv
      exact .inr rfl

/-- Properties with different names stay in their order. -/
theorem ofPairs_eq_self {pairs : Properties} (h : pairs.Distinct) : pairs.ofPairs = pairs := by
  induction pairs using List.reverseRecOn with
  | nil => rfl
  | append_singleton pairs p ih =>
    unfold Distinct at h
    rw [List.map_append, List.nodup_append] at h
    obtain ⟨hpairs, -, hnot⟩ := h
    rw [ofPairs_append, ih hpairs, set]
    rw [List.eraseP_of_forall_not]
    rintro p' hp' hkey
    exact hnot p'.1 (List.mem_map_of_mem hp') p.1 (by simp) (beq_iff_eq.mp hkey)

end Properties

/-! ## Whole values -/

/-- A number that starts like the end of an object, behind its marker. -/
def LooksLikeEof (value : BitVec 64) : Prop := value.toNat / 2 ^ 48 = 9

/-- A value that ends where its bytes say. -/
inductive Whole : Amf0Any → Prop
  | string {value : List UInt8} (h : value.length < 2 ^ 15) : Whole (.string value)
  | boolean (value : Bool) : Whole (.boolean value)
  | number {value : BitVec 64} (h : ¬ LooksLikeEof value) : Whole (.number value)
  | null : Whole .null
  | undefined : Whole .undefined
  | date (value : BitVec 64) (timeZone : BitVec 16) : Whole (.date value timeZone)
  | object {properties : Properties} (hdistinct : properties.Distinct)
      (hnames : ∀ p ∈ properties, p.1.length < 2 ^ 15)
      (hvalues : ∀ p ∈ properties, Whole p.2) : Whole (.object properties)
  | ecmaArray (count : BitVec 32) {properties : Properties} (hdistinct : properties.Distinct)
      (hnames : ∀ p ∈ properties, p.1.length < 2 ^ 15)
      (hvalues : ∀ p ∈ properties, Whole p.2) : Whole (.ecmaArray count properties)
  | strictArray {count : BitVec 32} {elems : List Amf0Any}
      (hcount : count.toInt.toNat = elems.length) (helems : ∀ v ∈ elems, Whole v) :
      Whole (.strictArray count elems)
  | objectEof : Whole .objectEof

/-- A value whose last strict array lacks elements. -/
inductive Cut : Amf0Any → Prop
  | strictArray {count : BitVec 32} {elems : List Amf0Any}
      (hcount : elems.length < count.toInt.toNat) (helems : ∀ v ∈ elems, Whole v) :
      Cut (.strictArray count elems)
  | element {count : BitVec 32} {elems : List Amf0Any} {value : Amf0Any}
      (hcount : elems.length < count.toInt.toNat) (helems : ∀ v ∈ elems, Whole v)
      (hlast : Cut value) : Cut (.strictArray count (elems ++ [value]))
  | object {properties : Properties} {name : List UInt8} {value : Amf0Any}
      (hdistinct : Properties.Distinct (properties ++ [(name, value)]))
      (hnames : ∀ p ∈ properties, p.1.length < 2 ^ 15)
      (hvalues : ∀ p ∈ properties, Whole p.2) (hname : name.length < 2 ^ 15)
      (hlast : Cut value) : Cut (.object (properties ++ [(name, value)]))
  | ecmaArray (count : BitVec 32) {properties : Properties} {name : List UInt8} {value : Amf0Any}
      (hdistinct : Properties.Distinct (properties ++ [(name, value)]))
      (hnames : ∀ p ∈ properties, p.1.length < 2 ^ 15)
      (hvalues : ∀ p ∈ properties, Whole p.2) (hname : name.length < 2 ^ 15)
      (hlast : Cut value) : Cut (.ecmaArray count (properties ++ [(name, value)]))

/-! ## What is read -/

variable {q p : List UInt8}

theorem AcceptsUtf8.value_lt {value : List UInt8} (h : AcceptsUtf8 p value q) :
    value.length < 2 ^ 15 := by
  cases h with
  | empty => decide
  | text hne hlt => exact hlt

variable {pairs : Properties}

/-- Nothing but an empty list of properties is in no bytes. -/
theorem AcceptsProperties.of_nil (h : AcceptsProperties [] pairs q) : pairs = [] ∧ q = [] := by
  cases h with
  | empty => exact ⟨rfl, rfl⟩
  | property heof hname hvalue hpairs =>
    have hlt := hname.length_lt
    simp at hlt

variable {elems : List Amf0Any}

theorem AcceptsElements.of_nil {n : ℕ}
    (h : AcceptsElements n [] elems q) : elems = [] ∧ q = [] := by
  cases h with
  | all => exact ⟨rfl, rfl⟩
  | empty => exact ⟨rfl, rfl⟩
  | element hvalue helems =>
    have hlt := hvalue.length_lt
    simp at hlt

/-- The number that is read does not look like the end of an object. -/
theorem startsEof_number_iff (value : BitVec 64) (q : List UInt8) :
    StartsEof (Amf0Kind.number.marker :: (bytesBE 8 value.toNat ++ q)) ↔ LooksLikeEof value := by
  have hlt := value.isLt
  unfold StartsEof LooksLikeEof
  simp only [bytesBE, cons_append, List.take_succ_cons, List.take_zero, List.cons.injEq,
    and_true, Amf0Kind.marker, true_and]
  rw [← UInt8.toNat_inj, ← UInt8.toNat_inj]
  simp only [UInt8.toNat_ofNat', UInt8.toNat_ofNat]
  omega

/-- Properties that are whole. -/
def WholeProperties (properties : Properties) : Prop :=
  (∀ p ∈ properties, p.1.length < 2 ^ 15) ∧ ∀ p ∈ properties, Whole p.2

variable {name : List UInt8} {value : Amf0Any}

theorem WholeProperties.cons
    (hname : name.length < 2 ^ 15) (hvalue : Whole value) (h : WholeProperties pairs) :
    WholeProperties ((name, value) :: pairs) :=
  ⟨List.forall_mem_cons.mpr ⟨hname, h.1⟩, List.forall_mem_cons.mpr ⟨hvalue, h.2⟩⟩

theorem WholeProperties.ofPairs (h : WholeProperties pairs) : WholeProperties pairs.ofPairs :=
  ⟨fun p hp => h.1 p (Properties.mem_of_mem_ofPairs hp),
    fun p hp => h.2 p (Properties.mem_of_mem_ofPairs hp)⟩

/-- The last property that is read is the last one of the object. -/
theorem exists_ofPairs_append (pairs : Properties) (name : List UInt8) (value : Amf0Any) :
    ∃ properties : Properties, (pairs ++ [(name, value)]).ofPairs = properties ++ [(name, value)] ∧
      Properties.Distinct (properties ++ [(name, value)]) ∧
      (WholeProperties pairs → WholeProperties properties) := by
  have hdistinct := Properties.distinct_ofPairs (pairs ++ [(name, value)])
  rw [Properties.ofPairs_append] at hdistinct ⊢
  refine ⟨_, rfl, hdistinct, fun h => ?_⟩
  exact ⟨fun p hp => h.ofPairs.1 p (List.mem_of_mem_eraseP hp),
    fun p hp => h.ofPairs.2 p (List.mem_of_mem_eraseP hp)⟩

mutual

/-- A value that is read is whole, or it is cut and there is nothing behind it. -/
theorem Accepts.whole_or_cut {p q : List UInt8} {v : Amf0Any} :
    Accepts p v q → Whole v ∨ q = [] ∧ Cut v
  | .objectEof q => .inl .objectEof
  | .string h => .inl (.string h.value_lt)
  | .boolean value q => .inl (.boolean _)
  | .number h => .inl (.number fun hlooks => h ((startsEof_number_iff _ _).mpr hlooks))
  | .null q => .inl .null
  | .undefined q => .inl .undefined
  | .date value timeZone q => .inl (.date value timeZone)
  | @Accepts.object p q pairs h => by
    rcases h.whole_or_cut with hwhole | ⟨rfl, init, name, value, rfl, hinit, hname, hlast⟩
    · exact .inl (.object (Properties.distinct_ofPairs pairs) hwhole.ofPairs.1 hwhole.ofPairs.2)
    · obtain ⟨properties, heq, hdistinct, hproperties⟩ := exists_ofPairs_append init name value
      obtain ⟨hnames, hvalues⟩ := hproperties hinit
      rw [heq]
      exact .inr ⟨rfl, .object hdistinct hnames hvalues hname hlast⟩
  | @Accepts.ecmaArray count p q pairs h => by
    rcases h.whole_or_cut with hwhole | ⟨rfl, init, name, value, rfl, hinit, hname, hlast⟩
    · exact .inl (.ecmaArray count (Properties.distinct_ofPairs pairs) hwhole.ofPairs.1
        hwhole.ofPairs.2)
    · obtain ⟨properties, heq, hdistinct, hproperties⟩ := exists_ofPairs_append init name value
      obtain ⟨hnames, hvalues⟩ := hproperties hinit
      rw [heq]
      exact .inr ⟨rfl, .ecmaArray count hdistinct hnames hvalues hname hlast⟩
  | .strictArray h => by
    rcases h.whole_or_cut with ⟨hcount, hwhole⟩ | ⟨rfl, hcount, hwhole⟩ |
      ⟨rfl, init, value, rfl, hcount, hinit, hlast⟩
    · exact .inl (.strictArray hcount.symm hwhole)
    · exact .inr ⟨rfl, .strictArray hcount hwhole⟩
    · exact .inr ⟨rfl, .element hcount hinit hlast⟩

theorem AcceptsProperties.whole_or_cut {p q : List UInt8} {pairs : Properties} :
    AcceptsProperties p pairs q → WholeProperties pairs ∨
      q = [] ∧ ∃ init name value, pairs = init ++ [(name, value)] ∧ WholeProperties init ∧
        name.length < 2 ^ 15 ∧ Cut value
  | .empty => .inl ⟨by simp, by simp⟩
  | .eof q => .inl ⟨by simp, by simp⟩
  | @AcceptsProperties.property p name q r s value pairs heof hname hvalue hpairs => by
    rcases hvalue.whole_or_cut with hwhole | ⟨rfl, hcut⟩
    · rcases hpairs.whole_or_cut with hothers | ⟨rfl, init, name', value', rfl, hinit, hlast⟩
      · exact .inl (hothers.cons hname.value_lt hwhole)
      · exact .inr ⟨rfl, (name, value) :: init, name', value', rfl,
          hinit.cons hname.value_lt hwhole, hlast⟩
    · obtain ⟨rfl, rfl⟩ := hpairs.of_nil
      exact .inr ⟨rfl, [], name, value, rfl, ⟨by simp, by simp⟩, hname.value_lt, hcut⟩

theorem AcceptsElements.whole_or_cut {n : ℕ} {p q : List UInt8} {elems : List Amf0Any} :
    AcceptsElements n p elems q → (elems.length = n ∧ ∀ v ∈ elems, Whole v) ∨
      (q = [] ∧ elems.length < n ∧ ∀ v ∈ elems, Whole v) ∨
      (q = [] ∧ ∃ init value, elems = init ++ [value] ∧ init.length < n ∧
        (∀ v ∈ init, Whole v) ∧ Cut value)
  | .all p => .inl ⟨rfl, by simp⟩
  | .empty n => by
    cases n with
    | zero => exact .inl ⟨rfl, by simp⟩
    | succ n => exact .inr (.inl ⟨rfl, by simp, by simp⟩)
  | @AcceptsElements.element n p q r value elems hvalue helems => by
    rcases hvalue.whole_or_cut with hwhole | ⟨rfl, hcut⟩
    · rcases helems.whole_or_cut with ⟨hcount, hothers⟩ | ⟨rfl, hcount, hothers⟩ |
        ⟨rfl, init, value', rfl, hcount, hinit, hlast⟩
      · exact .inl ⟨by rw [length_cons, hcount], List.forall_mem_cons.mpr ⟨hwhole, hothers⟩⟩
      · exact .inr (.inl ⟨rfl, by rw [length_cons]; omega,
          List.forall_mem_cons.mpr ⟨hwhole, hothers⟩⟩)
      · exact .inr (.inr ⟨rfl, value :: init, value', rfl, by rw [length_cons]; omega,
          List.forall_mem_cons.mpr ⟨hwhole, hinit⟩, hlast⟩)
    · obtain ⟨rfl, rfl⟩ := helems.of_nil
      exact .inr (.inr ⟨rfl, [], value, rfl, by simp, by simp, hcut⟩)

end

/-! ## Reading back -/

theorem acceptsUtf8_encodeUtf8 {value : List UInt8} (h : value.length < 2 ^ 15) (q : List UInt8) :
    AcceptsUtf8 (encodeUtf8 value ++ q) value q := by
  rw [encodeUtf8, append_assoc]
  cases value with
  | nil => exact AcceptsUtf8.empty (.inl rfl) (by decide) q
  | cons x value => exact AcceptsUtf8.text (by simp) h q

/-- No value has the marker `RTMP_AMF0_ObjectEnd`. -/
theorem exists_encode_eq (v : Amf0Any) : ∃ m r, encode v = m :: r ∧ m ≠ 9 := by
  cases v with
  | objectEof => exact ⟨0, [0, 9], rfl, by decide⟩
  | string value => exact ⟨_, _, rfl, by decide⟩
  | boolean value => exact ⟨_, _, rfl, by decide⟩
  | number value => exact ⟨_, _, rfl, by decide⟩
  | null => exact ⟨_, _, rfl, by decide⟩
  | undefined => exact ⟨_, _, rfl, by decide⟩
  | date value timeZone => exact ⟨_, _, rfl, by decide⟩
  | object properties => exact ⟨_, _, rfl, by decide⟩
  | ecmaArray count properties => exact ⟨_, _, rfl, by decide⟩
  | strictArray count properties => exact ⟨_, _, rfl, by decide⟩

/-- A property does not look like the end of the object, not even one without a name. -/
theorem not_startsEof_property (h : name.length < 2 ^ 15) (v : Amf0Any)
    (q : List UInt8) : ¬ StartsEof (encodeUtf8 name ++ (encode v ++ q)) := by
  rw [startsEof_iff]
  rintro ⟨r, hr⟩
  obtain ⟨m, rest, hm, hne⟩ := exists_encode_eq v
  rw [hm, encodeUtf8, bytesBE, bytesBE, bytesBE] at hr
  simp only [cons_append, List.nil_append, List.cons.injEq, ofNat_eq_zero_iff] at hr
  obtain ⟨hhigh, hlow, hr⟩ := hr
  have hempty : name = [] := List.length_eq_zero_iff.mp (by omega)
  rw [hempty, List.nil_append] at hr
  exact hne (List.cons.inj hr).1

variable {properties : Properties}

/-- Whole properties are read back, up to what follows them. -/
theorem acceptsProperties_append (hnames : ∀ p ∈ properties, p.1.length < 2 ^ 15)
    (hvalues : ∀ p ∈ properties, ∀ q, Accepts (encode p.2 ++ q) p.2 q) {r : List UInt8}
    {more : Properties} (h : AcceptsProperties q more r) :
    AcceptsProperties (encodeProperties properties ++ q) (properties ++ more) r := by
  induction properties with
  | nil => exact h
  | cons p properties ih =>
    obtain ⟨name, value⟩ := p
    obtain ⟨hname, hothers⟩ := List.forall_mem_cons.mp hnames
    obtain ⟨hvalue, hvalues⟩ := List.forall_mem_cons.mp hvalues
    rw [encodeProperties, append_assoc, append_assoc]
    exact AcceptsProperties.property (not_startsEof_property hname value _)
      (acceptsUtf8_encodeUtf8 hname _) (hvalue _) (ih hothers hvalues)

/-- Whole elements are read back, up to what follows them. -/
theorem acceptsElements_append (helems : ∀ v ∈ elems, ∀ q, Accepts (encode v ++ q) v q) {n : ℕ}
    {r : List UInt8} {more : List Amf0Any} (h : AcceptsElements n q more r) :
    AcceptsElements (elems.length + n) (encodeElements elems ++ q) (elems ++ more) r := by
  induction elems with
  | nil =>
    rw [List.length_nil, Nat.zero_add]
    exact h
  | cons v elems ih =>
    obtain ⟨hvalue, helems⟩ := List.forall_mem_cons.mp helems
    rw [encodeElements, append_assoc, length_cons, Nat.add_right_comm]
    exact AcceptsElements.element (hvalue _) (ih helems)

variable {v : Amf0Any}

/-- A whole value is read back, whatever follows it. -/
theorem Whole.accepts (h : Whole v) (q : List UInt8) : Accepts (encode v ++ q) v q := by
  induction h generalizing q with
  | string h => exact Accepts.string (acceptsUtf8_encodeUtf8 h q)
  | boolean value =>
    cases value with
    | true => exact Accepts.boolean 1 q
    | false => exact Accepts.boolean 0 q
  | number h => exact Accepts.number fun heof => h ((startsEof_number_iff _ q).mp heof)
  | null => exact Accepts.null q
  | undefined => exact Accepts.undefined q
  | date value timeZone =>
    rw [encode, cons_append, append_assoc]
    exact Accepts.date value timeZone q
  | @object properties hdistinct hnames _ ih =>
    have hproperties := acceptsProperties_append hnames ih (AcceptsProperties.eof q)
    rw [append_nil] at hproperties
    have hobject := Accepts.object hproperties
    rw [Properties.ofPairs_eq_self hdistinct] at hobject
    rw [encode, cons_append, append_assoc]
    exact hobject
  | @ecmaArray count properties hdistinct hnames _ ih =>
    have hproperties := acceptsProperties_append hnames ih (AcceptsProperties.eof q)
    rw [append_nil] at hproperties
    have harray := Accepts.ecmaArray count hproperties
    rw [Properties.ofPairs_eq_self hdistinct] at harray
    rw [encode, cons_append, append_assoc, append_assoc]
    exact harray
  | @strictArray count elems hcount _ ih =>
    have helems := acceptsElements_append ih (AcceptsElements.all q)
    rw [append_nil, Nat.add_zero, ← hcount] at helems
    rw [encode, cons_append, append_assoc]
    exact Accepts.strictArray helems
  | objectEof => exact Accepts.objectEof q

/-! ## The end of an object behind a strict array that is cut -/

/-- Ends of objects. -/
def eofs (k : ℕ) : List UInt8 := (List.replicate k eofBytes).flatten

/-- They are read as elements. -/
theorem exists_acceptsElements_eofs (n k : ℕ) : ∃ elems j,
    AcceptsElements n (eofs k) elems (eofs j) ∧ (0 < n → 0 < k → elems ≠ []) := by
  induction k generalizing n with
  | zero => exact ⟨[], 0, AcceptsElements.empty n, fun _ hk => absurd hk (lt_irrefl 0)⟩
  | succ k ih =>
    cases n with
    | zero => exact ⟨[], k + 1, AcceptsElements.all _, fun hn => absurd hn (lt_irrefl 0)⟩
    | succ n =>
      obtain ⟨elems, j, helems, -⟩ := ih n
      exact ⟨.objectEof :: elems, j, AcceptsElements.element (Accepts.objectEof _) helems,
        fun _ _ => List.cons_ne_nil _ _⟩

/-- They end the object, if there are any. -/
theorem exists_acceptsProperties_eofs (k : ℕ) : ∃ j, AcceptsProperties (eofs k) [] (eofs j) := by
  cases k with
  | zero => exact ⟨0, AcceptsProperties.empty⟩
  | succ k => exact ⟨k, AcceptsProperties.eof (eofs k)⟩

/-- Another value is read. -/
def Misread (v : Amf0Any) (k : ℕ) : Prop :=
  ∃ w j, Accepts (encode v ++ eofs k) w (eofs j) ∧ w ≠ v

theorem encodeElements_append (elems : List Amf0Any) (value : Amf0Any) (q : List UInt8) :
    encodeElements (elems ++ [value]) ++ q = encodeElements elems ++ (encode value ++ q) := by
  induction elems with
  | nil => simp [encodeElements]
  | cons v elems ih =>
    rw [cons_append, encodeElements, encodeElements, append_assoc, ih, append_assoc]

theorem encodeProperties_append (properties : Properties) (name : List UInt8) (value : Amf0Any)
    (q : List UInt8) : encodeProperties (properties ++ [(name, value)]) ++ q =
      encodeProperties properties ++ (encodeUtf8 name ++ (encode value ++ q)) := by
  induction properties with
  | nil => simp [encodeProperties]
  | cons p properties ih =>
    obtain ⟨name', v⟩ := p
    rw [cons_append, encodeProperties, encodeProperties, append_assoc,
      append_assoc, ih, append_assoc, append_assoc]

variable {k : ℕ}

/-- The elements before it are read back, the last one is not. -/
theorem Misread.element {count : BitVec 32}
    (hcount : elems.length < count.toInt.toNat) (helems : ∀ v ∈ elems, Whole v)
    (h : Misread value k) : Misread (.strictArray count (elems ++ [value])) k := by
  obtain ⟨w, j, hw, hne⟩ := h
  obtain ⟨more, i, hmore, -⟩ :=
    exists_acceptsElements_eofs (count.toInt.toNat - elems.length - 1) j
  have hall := acceptsElements_append (fun v hv => (helems v hv).accepts)
    (AcceptsElements.element hw hmore)
  have hn : elems.length + (count.toInt.toNat - elems.length - 1 + 1) = count.toInt.toNat := by
    omega
  rw [hn, ← encodeElements_append] at hall
  refine ⟨.strictArray count (elems ++ w :: more), i, ?_, ?_⟩
  · rw [encode, cons_append, append_assoc]
    exact Accepts.strictArray hall
  · intro heq
    have hsame := (Amf0Any.strictArray.inj heq).2
    exact hne (List.cons.inj (List.append_cancel_left hsame)).1

/-- The properties before it are read back, the last one is not. -/
theorem exists_acceptsProperties_misread (hnames : ∀ p ∈ properties, p.1.length < 2 ^ 15)
    (hvalues : ∀ p ∈ properties, Whole p.2) (hname : name.length < 2 ^ 15)
    (h : Misread value (k + 1)) : ∃ w j,
      AcceptsProperties (encodeProperties (properties ++ [(name, value)]) ++ eofs (k + 1))
        (properties ++ [(name, w)]) (eofs j) ∧ w ≠ value := by
  obtain ⟨w, j, hw, hne⟩ := h
  obtain ⟨i, hend⟩ := exists_acceptsProperties_eofs j
  have hlast := AcceptsProperties.property (not_startsEof_property hname value _)
    (acceptsUtf8_encodeUtf8 hname _) hw hend
  have hall := acceptsProperties_append hnames (fun p hp => (hvalues p hp).accepts) hlast
  rw [← encodeProperties_append] at hall
  exact ⟨w, i, hall, hne⟩

/-- The names stay the same if another value is read. -/
theorem ofPairs_misread
    (hdistinct : Properties.Distinct (properties ++ [(name, value)])) (w : Amf0Any) :
    Properties.ofPairs (properties ++ [(name, w)]) = properties ++ [(name, w)] := by
  apply Properties.ofPairs_eq_self
  unfold Properties.Distinct at hdistinct ⊢
  rw [List.map_append] at hdistinct ⊢
  exact hdistinct

theorem append_ne {w : Amf0Any} (h : w ≠ v) :
    properties ++ [(name, w)] ≠ properties ++ [(name, v)] := by
  intro heq
  have hlast := List.append_cancel_left heq
  simp only [List.cons.injEq, Prod.mk.injEq, true_and, and_true] at hlast
  exact h hlast

theorem Misread.object (hdistinct : Properties.Distinct (properties ++ [(name, value)]))
    (hnames : ∀ p ∈ properties, p.1.length < 2 ^ 15) (hvalues : ∀ p ∈ properties, Whole p.2)
    (hname : name.length < 2 ^ 15) (h : Misread value (k + 1)) :
    Misread (.object (properties ++ [(name, value)])) k := by
  obtain ⟨w, j, hall, hne⟩ := exists_acceptsProperties_misread hnames hvalues hname h
  have hobject := Accepts.object hall
  rw [ofPairs_misread hdistinct] at hobject
  refine ⟨_, j, ?_, fun heq => append_ne hne (Amf0Any.object.inj heq)⟩
  rw [encode, cons_append, append_assoc]
  exact hobject

theorem Misread.ecmaArray (count : BitVec 32)
    (hdistinct : Properties.Distinct (properties ++ [(name, value)]))
    (hnames : ∀ p ∈ properties, p.1.length < 2 ^ 15) (hvalues : ∀ p ∈ properties, Whole p.2)
    (hname : name.length < 2 ^ 15) (h : Misread value (k + 1)) :
    Misread (.ecmaArray count (properties ++ [(name, value)])) k := by
  obtain ⟨w, j, hall, hne⟩ := exists_acceptsProperties_misread hnames hvalues hname h
  have harray := Accepts.ecmaArray count hall
  rw [ofPairs_misread hdistinct] at harray
  refine ⟨.ecmaArray count (properties ++ [(name, w)]), j, ?_,
    fun heq => append_ne hne (Amf0Any.ecmaArray.inj heq).2⟩
  rw [encode, cons_append, append_assoc, append_assoc]
  exact harray

/-- Behind a value that is cut, the end of an object is taken for an element. -/
theorem Cut.misread (h : Cut v) (hk : 0 < k) : Misread v k := by
  induction h generalizing k with
  | @strictArray count elems hcount helems =>
    obtain ⟨more, j, hmore, hne⟩ :=
      exists_acceptsElements_eofs (count.toInt.toNat - elems.length) k
    have hall := acceptsElements_append (fun v hv => (helems v hv).accepts) hmore
    rw [Nat.add_sub_cancel' hcount.le] at hall
    refine ⟨.strictArray count (elems ++ more), j, ?_, ?_⟩
    · rw [encode, cons_append, append_assoc]
      exact Accepts.strictArray hall
    · intro heq
      have hsame := (Amf0Any.strictArray.inj heq).2
      exact hne (by omega) hk (List.append_right_eq_self.mp hsame)
  | element hcount helems _ ih => exact (ih hk).element hcount helems
  | object hdistinct hnames hvalues hname _ ih =>
    exact (ih (Nat.succ_pos k)).object hdistinct hnames hvalues hname
  | ecmaArray count hdistinct hnames hvalues hname _ ih =>
    exact (ih (Nat.succ_pos k)).ecmaArray count hdistinct hnames hvalues hname

/-- The strict array that is cut is in an object or in an ECMA array. -/
inductive CutInObject : Amf0Any → Prop
  | object {properties : Properties} (h : Cut (.object properties)) :
      CutInObject (.object properties)
  | ecmaArray {count : BitVec 32} {properties : Properties}
      (h : Cut (.ecmaArray count properties)) : CutInObject (.ecmaArray count properties)
  | element {count : BitVec 32} {elems : List Amf0Any} {value : Amf0Any}
      (hcount : elems.length < count.toInt.toNat) (helems : ∀ v ∈ elems, Whole v)
      (hlast : CutInObject value) : CutInObject (.strictArray count (elems ++ [value]))

theorem CutInObject.misread (h : CutInObject v) : Misread v 0 := by
  induction h with
  | object h =>
    cases h with
    | object hdistinct hnames hvalues hname hlast =>
      exact (hlast.misread Nat.one_pos).object hdistinct hnames hvalues hname
  | ecmaArray h =>
    cases h with
    | ecmaArray _ hdistinct hnames hvalues hname hlast =>
      exact (hlast.misread Nat.one_pos).ecmaArray _ hdistinct hnames hvalues hname
  | element hcount helems _ ih => exact ih.element hcount helems

/-- Otherwise the value is read back if nothing follows it. -/
theorem Cut.accepts (h : Cut v) (hnot : ¬ CutInObject v) : Accepts (encode v) v [] := by
  induction h with
  | @strictArray count elems hcount helems =>
    have hall := acceptsElements_append (fun v hv => (helems v hv).accepts)
      (AcceptsElements.empty (count.toInt.toNat - elems.length))
    rw [Nat.add_sub_cancel' hcount.le, append_nil, append_nil] at hall
    exact Accepts.strictArray hall
  | @element count elems value hcount helems _ ih =>
    have hlast := ih fun h => hnot (.element hcount helems h)
    have hall := acceptsElements_append (fun v hv => (helems v hv).accepts)
      (AcceptsElements.element hlast
        (AcceptsElements.empty (count.toInt.toNat - elems.length - 1)))
    have hn : elems.length + (count.toInt.toNat - elems.length - 1 + 1) = count.toInt.toNat := by
      omega
    have hbytes := encodeElements_append elems value []
    rw [append_nil, append_nil] at hbytes
    rw [hn, ← hbytes] at hall
    exact Accepts.strictArray hall
  | object hdistinct hnames hvalues hname hlast =>
    exact absurd (.object (.object hdistinct hnames hvalues hname hlast)) hnot
  | ecmaArray count hdistinct hnames hvalues hname hlast =>
    exact absurd (.ecmaArray (.ecmaArray count hdistinct hnames hvalues hname hlast)) hnot

/-! ## Values that are built -/

/-- The trees of the constructors, `set` and `append`. -/
inductive Built : Amf0Any → Prop
  | str {value : List UInt8} (h : value.length ≤ 65535) : Built (.str value)
  | boolean (value : Bool) : Built (.boolean value)
  | number (value : BitVec 64) : Built (.number value)
  | null : Built .null
  | undefined : Built .undefined
  | date (value : BitVec 64) : Built (.dateOf value)
  | object : Built .newObject
  | ecmaArray : Built .newEcmaArray
  | strictArray : Built .newStrictArray
  | setObject {properties : Properties} {name : List UInt8} {value : Option Amf0Any}
      (h : Built (.object properties)) (hname : name.length ≤ 65535)
      (hvalue : ∀ v, value = some v → Built v) : Built (.object (properties.set name value))
  | setEcmaArray {count : BitVec 32} {properties : Properties} {name : List UInt8}
      {value : Option Amf0Any} (h : Built (.ecmaArray count properties))
      (hname : name.length ≤ 65535) (hvalue : ∀ v, value = some v → Built v) :
      Built (.ecmaArray count (properties.set name value))
  | append {count : BitVec 32} {elems : List Amf0Any} {value : Amf0Any}
      (h : Built (.strictArray count elems)) (hvalue : Built value) :
      Built (.append elems value)

/-- A value with different names in each object, and in each strict array its own count. -/
inductive Regular : Amf0Any → Prop
  | string (value : List UInt8) : Regular (.string value)
  | boolean (value : Bool) : Regular (.boolean value)
  | number (value : BitVec 64) : Regular (.number value)
  | null : Regular .null
  | undefined : Regular .undefined
  | date (value : BitVec 64) (timeZone : BitVec 16) : Regular (.date value timeZone)
  | object {properties : Properties} (hdistinct : properties.Distinct)
      (hvalues : ∀ p ∈ properties, Regular p.2) : Regular (.object properties)
  | ecmaArray (count : BitVec 32) {properties : Properties} (hdistinct : properties.Distinct)
      (hvalues : ∀ p ∈ properties, Regular p.2) : Regular (.ecmaArray count properties)
  | strictArray {elems : List Amf0Any} (helems : ∀ v ∈ elems, Regular v) :
      Regular (.strictArray (BitVec.ofNat 32 elems.length) elems)

theorem Built.regular (h : Built v) : Regular v := by
  induction h with
  | str => exact .string _
  | boolean value => exact .boolean value
  | number value => exact .number value
  | null => exact .null
  | undefined => exact .undefined
  | date value => exact .date value 0
  | object => exact .object nodup_nil (by simp)
  | ecmaArray => exact .ecmaArray 0 nodup_nil (by simp)
  | strictArray => exact @Regular.strictArray [] (by simp)
  | setObject _ _ _ ih ihvalue =>
    cases ih with
    | object hdistinct hvalues =>
      refine .object (Properties.distinct_set hdistinct _ _) fun p hp => ?_
      rcases Properties.mem_of_mem_set hp with hold | ⟨v, hv, rfl⟩
      · exact hvalues p hold
      · exact ihvalue v hv
  | setEcmaArray _ _ _ ih ihvalue =>
    cases ih with
    | ecmaArray _ hdistinct hvalues =>
      refine .ecmaArray _ (Properties.distinct_set hdistinct _ _) fun p hp => ?_
      rcases Properties.mem_of_mem_set hp with hold | ⟨v, hv, rfl⟩
      · exact hvalues p hold
      · exact ihvalue v hv
  | append _ _ ih ihvalue =>
    cases ih with
    | strictArray helems =>
      refine .strictArray fun v hv => ?_
      rcases List.mem_append.mp hv with hold | hnew
      · exact helems v hold
      · rw [List.mem_singleton.mp hnew]
        exact ihvalue

/-- The names and strings have less than `2 ^ 15` bytes, and no number looks like the end of an
object. -/
inductive Readable : Amf0Any → Prop
  | string {value : List UInt8} (h : value.length < 2 ^ 15) : Readable (.string value)
  | boolean (value : Bool) : Readable (.boolean value)
  | number {value : BitVec 64} (h : ¬ LooksLikeEof value) : Readable (.number value)
  | null : Readable .null
  | undefined : Readable .undefined
  | date (value : BitVec 64) (timeZone : BitVec 16) : Readable (.date value timeZone)
  | object {properties : Properties} (hnames : ∀ p ∈ properties, p.1.length < 2 ^ 15)
      (hvalues : ∀ p ∈ properties, Readable p.2) : Readable (.object properties)
  | ecmaArray (count : BitVec 32) {properties : Properties}
      (hnames : ∀ p ∈ properties, p.1.length < 2 ^ 15)
      (hvalues : ∀ p ∈ properties, Readable p.2) : Readable (.ecmaArray count properties)
  | strictArray (count : BitVec 32) {elems : List Amf0Any} (helems : ∀ v ∈ elems, Readable v) :
      Readable (.strictArray count elems)
  | objectEof : Readable .objectEof

theorem Whole.readable (h : Whole v) : Readable v := by
  induction h with
  | string h => exact .string h
  | boolean value => exact .boolean value
  | number h => exact .number h
  | null => exact .null
  | undefined => exact .undefined
  | date value timeZone => exact .date value timeZone
  | object _ hnames _ ih => exact .object hnames ih
  | ecmaArray count _ hnames _ ih => exact .ecmaArray count hnames ih
  | strictArray _ _ ih => exact .strictArray _ ih
  | objectEof => exact .objectEof

theorem Cut.readable (h : Cut v) : Readable v := by
  have hsnoc : ∀ {properties : Properties} {name : List UInt8} {value : Amf0Any},
      (∀ p ∈ properties, p.1.length < 2 ^ 15) → (∀ p ∈ properties, Whole p.2) →
      name.length < 2 ^ 15 → Readable value →
      (∀ p ∈ properties ++ [(name, value)], p.1.length < 2 ^ 15) ∧
        ∀ p ∈ properties ++ [(name, value)], Readable p.2 := by
    intro properties name value hnames hvalues hname hvalue
    constructor
    · intro p hp
      rcases List.mem_append.mp hp with hold | hnew
      · exact hnames p hold
      · rw [List.mem_singleton.mp hnew]
        exact hname
    · intro p hp
      rcases List.mem_append.mp hp with hold | hnew
      · exact (hvalues p hold).readable
      · rw [List.mem_singleton.mp hnew]
        exact hvalue
  induction h with
  | strictArray _ helems => exact .strictArray _ fun v hv => (helems v hv).readable
  | element _ helems _ ih =>
    refine .strictArray _ fun v hv => ?_
    rcases List.mem_append.mp hv with hold | hnew
    · exact (helems v hold).readable
    · rw [List.mem_singleton.mp hnew]
      exact ih
  | object _ hnames hvalues hname _ ih =>
    obtain ⟨hall, hread⟩ := hsnoc hnames hvalues hname ih
    exact .object hall hread
  | ecmaArray count _ hnames hvalues hname _ ih =>
    obtain ⟨hall, hread⟩ := hsnoc hnames hvalues hname ih
    exact .ecmaArray count hall hread

theorem totalSize_le_of_mem_elements (h : v ∈ elems) : v.totalSize ≤ elementsSize elems := by
  induction elems with
  | nil => cases h
  | cons w elems ih =>
    rw [elementsSize]
    rcases List.mem_cons.mp h with rfl | hv
    · omega
    · have := ih hv
      omega

theorem totalSize_le_of_mem_properties {p : List UInt8 × Amf0Any}
    (h : p ∈ properties) : p.2.totalSize ≤ propertiesSize properties := by
  induction properties with
  | nil => cases h
  | cons p' properties ih =>
    obtain ⟨name, value⟩ := p'
    rw [propertiesSize]
    rcases List.mem_cons.mp h with rfl | hp
    · dsimp only
      omega
    · have := ih hp
      omega

theorem totalSize_pos (v : Amf0Any) : 0 < v.totalSize := by
  rw [← length_encode]
  obtain ⟨m, r, hm, -⟩ := exists_encode_eq v
  rw [hm]
  exact Nat.succ_pos _

theorem length_le_elementsSize (elems : List Amf0Any) : elems.length ≤ elementsSize elems := by
  induction elems with
  | nil => exact Nat.zero_le _
  | cons v elems ih =>
    have := totalSize_pos v
    rw [length_cons, elementsSize]
    omega

theorem Regular.whole (h : Regular v) (hreadable : Readable v)
    (hsize : v.totalSize < 2 ^ 31) : Whole v := by
  induction h with
  | string value =>
    cases hreadable with
    | string h => exact .string h
  | boolean value => exact .boolean value
  | number value =>
    cases hreadable with
    | number h => exact .number h
  | null => exact .null
  | undefined => exact .undefined
  | date value timeZone => exact .date value timeZone
  | object hdistinct _ ih =>
    cases hreadable with
    | object hnames hvalues =>
      refine .object hdistinct hnames fun p hp => ih p hp (hvalues p hp) ?_
      have hle := totalSize_le_of_mem_properties hp
      rw [Amf0Any.totalSize] at hsize
      omega
  | ecmaArray count hdistinct _ ih =>
    cases hreadable with
    | ecmaArray _ hnames hvalues =>
      refine .ecmaArray count hdistinct hnames fun p hp => ih p hp (hvalues p hp) ?_
      have hle := totalSize_le_of_mem_properties hp
      rw [Amf0Any.totalSize] at hsize
      omega
  | @strictArray elems _ ih =>
    cases hreadable with
    | strictArray _ helems =>
      rw [Amf0Any.totalSize] at hsize
      refine .strictArray ?_ fun v hv => ih v hv (helems v hv) ?_
      · have hle := length_le_elementsSize elems
        have hcount : (BitVec.ofNat 32 elems.length).toInt = elems.length := by
          rw [BitVec.toInt_ofNat']
          exact bmod_length (k := 4) (by omega)
        rw [hcount, Int.toNat_natCast]
      · have hle := totalSize_le_of_mem_elements hv
        omega

/-! ## Results -/

theorem accepts_of_read {b : SrsBuffer}
    (h : srsAmf0ReadAny ⟨p, 0⟩ = .ok v b) : Inside ⟨p, 0⟩ b ∧ Accepts p v b.rest := by
  have hsound := sound_readAny (p.length + 1) p (Nat.lt_succ_self _) ⟨p, 0⟩ (Nat.zero_le _) rfl
  have hread : readAny (p.length + 1) ⟨p, 0⟩ = .ok v b := h
  rw [hread] at hsound
  exact hsound

theorem read_of_accepts (h : Accepts p v q) :
    ∃ b, srsAmf0ReadAny ⟨p, 0⟩ = .ok v b ∧ Inside ⟨p, 0⟩ b ∧ b.rest = q :=
  h.reads (p.length + 1) (Nat.lt_succ_self _) ⟨p, 0⟩ (Nat.zero_le _) rfl

/-- Bytes start with one value at most. -/
theorem Accepts.unique {q' : List UInt8} {v' : Amf0Any} (h : Accepts p v q)
    (h' : Accepts p v' q') : v = v' ∧ q = q' :=
  (h.reads (p.length + 1) (Nat.lt_succ_self _)).unique (h'.reads (p.length + 1) (Nat.lt_succ_self _))

/-- Writing the value fills a buffer of `total_size` bytes, and reading gives the value back and
stops behind these bytes. -/
def ComesBack (v : Amf0Any) : Prop :=
  ∀ out : List UInt8, out.length = v.totalSize →
    ∃ data, v.write ⟨out, 0⟩ = .ok () ⟨data, v.totalSize⟩ ∧ data.length = v.totalSize ∧
      ∀ more, srsAmf0ReadAny ⟨data ++ more, 0⟩ = .ok v ⟨data ++ more, data.length⟩

/-- A tree comes back exactly if the reader can return its strings and numbers. -/
theorem comesBack_iff {v : Amf0Any} (h : Built v) (hsize : v.totalSize < 2 ^ 31) :
    ComesBack v ↔ Readable v := by
  constructor
  · intro hback
    obtain ⟨data, hwrite, -, hread⟩ := hback (List.replicate v.totalSize 0) List.length_replicate
    obtain ⟨-, haccepts⟩ := accepts_of_read (hread [])
    rcases haccepts.whole_or_cut with hwhole | ⟨-, hcut⟩
    · exact hwhole.readable
    · exact hcut.readable
  · intro hreadable out hout
    have hlength := length_encode v
    refine ⟨encode v, write_fills v hout, hlength, fun more => ?_⟩
    have haccepts := (h.regular.whole hreadable hsize).accepts more
    obtain ⟨b, hrun, hinside, hleft⟩ := read_of_accepts haccepts
    have hend : Inside ⟨encode v ++ more, 0⟩ ⟨encode v ++ more, (encode v).length⟩ :=
      ⟨rfl, by simp⟩
    have hb := hinside.eq_of_rest hend (hleft.trans (List.drop_left).symm)
    rw [hrun, hb]

/-- An object with a string and a strict array of a number. -/
theorem comesBack_object : ComesBack (.object (Properties.set
    (Properties.set [] [97] (some (.str [120, 121]))) [98] (some (.append [] (.number 1))))) := by
  refine (comesBack_iff ?_ (by decide)).mpr ?_
  · refine .setObject (.setObject .object (by decide) ?_) (by decide) ?_
    · rintro v ⟨⟩
      exact .str (by decide)
    · rintro v ⟨⟩
      exact .append .strictArray (.number 1)
  · refine .object (by decide) fun p hp => ?_
    rcases List.mem_cons.mp hp with rfl | hp
    · exact .string (by decide)
    · rw [List.mem_singleton.mp hp]
      refine .strictArray _ fun v hv => ?_
      rw [List.mem_singleton.mp hv]
      exact .number (by unfold LooksLikeEof; decide)

/-- The number with the bytes `00 09 00 00 00 00 00 00` is read as the end of an object. -/
theorem number_misread : Built (.number 0x0009000000000000) ∧
    Amf0Any.totalSize (.number 0x0009000000000000) < 2 ^ 31 ∧
    ¬ ComesBack (.number 0x0009000000000000) := by
  refine ⟨.number _, by decide, fun hback => ?_⟩
  obtain ⟨data, hwrite, -, hread⟩ := hback (List.replicate 9 0) rfl
  have hrun : srsAmf0ReadAny ⟨encode (.number 0x0009000000000000) ++ [], 0⟩ =
      .ok .objectEof ⟨encode (.number 0x0009000000000000) ++ [], 3⟩ := rfl
  rw [write_fills _ rfl] at hwrite
  cases hwrite
  rw [hread []] at hrun
  cases hrun

/-- The value is the same after it has been written and read again. -/
def Relayed (v : Amf0Any) : Prop :=
  ∀ out : List UInt8, out.length = v.totalSize →
    ∃ data b, v.write ⟨out, 0⟩ = .ok () ⟨data, v.totalSize⟩ ∧ srsAmf0ReadAny ⟨data, 0⟩ = .ok v b

/-- The bytes end in a strict array that lacks elements and is in an object or an ECMA array. -/
def EndsInObjectArray (p : List UInt8) : Prop := ∃ v, Accepts p v [] ∧ CutInObject v

/-- Reading any bytes ends with a value or an error and with the head inside the buffer, and the
value can be relayed unless the bytes end in a strict array of an object. -/
theorem read_total_and_relayed_iff (p : List UInt8) :
    (∃ b, b.bytes = p ∧ b.pos ≤ p.length ∧ ((∃ v, srsAmf0ReadAny ⟨p, 0⟩ = .ok v b) ∨
      ∃ e, srsAmf0ReadAny ⟨p, 0⟩ = .err e b)) ∧
    ∀ v b, srsAmf0ReadAny ⟨p, 0⟩ = .ok v b → (Relayed v ↔ ¬ EndsInObjectArray p) := by
  constructor
  · have hsound := sound_readAny (p.length + 1) p (Nat.lt_succ_self _) ⟨p, 0⟩ (Nat.zero_le _) rfl
    have hread : srsAmf0ReadAny ⟨p, 0⟩ = readAny (p.length + 1) ⟨p, 0⟩ := rfl
    rw [hread]
    cases hrun : readAny (p.length + 1) ⟨p, 0⟩ with
    | ok v b =>
      rw [hrun] at hsound
      obtain ⟨⟨hbytes, hpos⟩, -⟩ := hsound
      exact ⟨b, hbytes, hpos.trans_eq (congrArg List.length hbytes), .inl ⟨v, rfl⟩⟩
    | err e b =>
      rw [hrun] at hsound
      obtain ⟨hbytes, hpos⟩ := hsound
      exact ⟨b, hbytes, hpos.trans_eq (congrArg List.length hbytes), .inr ⟨e, rfl⟩⟩
    | fault =>
      rw [hrun] at hsound
      exact hsound.elim
    | hang =>
      rw [hrun] at hsound
      exact hsound.elim
  · intro v b hrun
    obtain ⟨-, haccepts⟩ := accepts_of_read hrun
    constructor
    · rintro hrelayed ⟨w, hw, hcut⟩
      obtain ⟨rfl, -⟩ := haccepts.unique hw
      obtain ⟨data, b', hwrite, hread⟩ :=
        hrelayed (List.replicate v.totalSize 0) List.length_replicate
      rw [write_fills v List.length_replicate] at hwrite
      cases hwrite
      obtain ⟨-, hback⟩ := accepts_of_read hread
      obtain ⟨w, j, hother, hne⟩ := hcut.misread
      rw [show eofs 0 = [] from rfl, List.append_nil] at hother
      exact hne (hother.unique hback).1
    · intro hnot out hout
      have hback : Accepts (encode v) v [] := by
        rcases haccepts.whole_or_cut with hwhole | ⟨hend, hcut⟩
        · have hwhole' := hwhole.accepts []
          rwa [List.append_nil] at hwhole'
        · exact hcut.accepts fun h => hnot ⟨v, hend ▸ haccepts, h⟩
      obtain ⟨b', hread, -⟩ := read_of_accepts hback
      exact ⟨encode v, b', write_fills v hout, hread⟩

/-- An object whose strict array is cut off gets another element when it is relayed. -/
theorem cut_not_relayed : ∃ v b,
    srsAmf0ReadAny ⟨[3, 0, 1, 97, 10, 0, 0, 0, 2, 5], 0⟩ = .ok v b ∧ ¬ Relayed v := by
  refine ⟨.object [([97], .strictArray 2 [.null])], _, rfl, fun hrelayed => ?_⟩
  obtain ⟨data, b, hwrite, hread⟩ := hrelayed (List.replicate 13 0) rfl
  rw [write_fills _ rfl] at hwrite
  cases hwrite
  have hrun : srsAmf0ReadAny ⟨encode (.object [([97], .strictArray 2 [.null])]), 0⟩ =
      .ok (.object [([97], .strictArray 2 [.null, .objectEof])])
        ⟨encode (.object [([97], .strictArray 2 [.null])]), 13⟩ := rfl
  rw [hread] at hrun
  cases hrun

end SrsChatRoom.Protocol
