import SrsChatRoom.Kernel.Cursor
import SrsChatRoom.Kernel.TsContext

/-!
# The layout of a packet

Where the fields of a packet lie in the buffer, said without the reader, and what the reader does
with them. A position that is known before the reading has come to it lies inside the buffer if
the reading passes it. There are three places where the reader goes by a length that it has not
compared with the end of the buffer: the length of the adaptation field, that of its extension, and
that of the pack field in the extension of a PES header without private data.
-/

namespace SrsChatRoom.Kernel.Ts

open SrsChatRoom.Prog (bind_ok refuse optional)

variable {bytes : List UInt8} {p : ℕ} {F : Prop}

/-! ## Accesses -/

theorem readUint_eq (n : ℕ) : readUint n = Cursor.readUint n := by
  funext b
  rw [readUint, access, SrsBuffer.readUint, Cursor.readUint]
  by_cases hr : b.require n = true
  · have hdone : SrsBuffer.readBytes n b = _ := if_pos hr
    have hdone' : Cursor.readBytes (ε := TsError) n b = _ := if_pos hr
    rw [bind_ok hdone, bind_ok hdone']
    rfl
  · have hfault : SrsBuffer.readBytes n b = _ := if_neg hr
    have hfault' : Cursor.readBytes (ε := TsError) n b = _ := if_neg hr
    rw [Prog.bind_fault hfault, Prog.bind_fault hfault']

theorem skip_eq (n : ℤ) : skip n = Cursor.skip n := by
  funext b
  rw [skip, access, SrsBuffer.skip, Cursor.skip]
  by_cases hin : 0 ≤ b.pos + n ∧ b.pos + n ≤ b.bytes.length
  · rw [if_pos hin, if_pos hin]
  · rw [if_neg hin, if_neg hin]

theorem readBytes_eq (n : ℤ) : readBytes n = Cursor.readBytes n := by
  funext b
  rw [readBytes, access, SrsBuffer.readBytes, Cursor.readBytes]
  by_cases hr : b.require n = true
  · rw [if_pos hr, if_pos hr]
  · rw [if_neg hr, if_neg hr]

theorem endsAt_bind_requires {β : Type} {n : ℤ} {code : TsErrorCode} {message : String}
    {f : Unit → TsIo β} {R : β → ℕ → Prop}
    (h : 0 ≤ n → p + n ≤ bytes.length → EndsAt (f ()) bytes p R F) :
    EndsAt (requires n code message >>= f) bytes p R F :=
  Cursor.endsAt_bind_requires h

variable {n : ℕ}

theorem endsAt_readBytes {Q : List UInt8 → ℕ → Prop}
    (h : p + n ≤ bytes.length → Q ((bytes.drop p).take n) (p + n))
    (hf : bytes.length < p + n → F) : EndsAt (readBytes n) bytes p Q F := by
  rw [readBytes_eq]
  exact Cursor.endsAt_readBytes h hf

theorem endsAt_readUint {Q : ℕ → ℕ → Prop} (h : p + n ≤ bytes.length → Q (uintAt bytes p n) (p + n))
    (hf : bytes.length < p + n → F) : EndsAt (readUint n) bytes p Q F := by
  rw [readUint_eq]
  exact Cursor.endsAt_readUint h hf

theorem endsAt_bind_readUint {β : Type} {f : ℕ → TsIo β} {R : β → ℕ → Prop}
    (hle : p + n ≤ bytes.length) (h : EndsAt (f (uintAt bytes p n)) bytes (p + n) R F) :
    EndsAt (readUint n >>= f) bytes p R F := by
  rw [readUint_eq]
  exact Cursor.endsAt_bind_readUint hle h

variable {Q : Unit → ℕ → Prop}

theorem endsAt_skip {n : ℤ} (h : ∀ q : ℕ, (q : ℤ) = p + n → q ≤ bytes.length → Q () q)
    (hf : p + n < 0 ∨ bytes.length < p + n → F) : EndsAt (skip n) bytes p Q F := by
  rw [skip_eq]
  exact Cursor.endsAt_skip h hf

theorem endsAt_skipAll (h : Q () bytes.length) : EndsAt skipAll bytes p Q F := by
  intro hp
  refine EndsAt.bind (endsAt_left ?_) hp
  refine endsAt_skip (fun q hq _ => ?_) (fun hout => by omega)
  obtain rfl : q = bytes.length := by omega
  exact h

theorem requires_run {n : ℤ} (hn : 0 ≤ n) (hle : p + n ≤ bytes.length) (code : TsErrorCode)
    (message : String) : requires n code message ⟨bytes, p⟩ = .ok () ⟨bytes, p⟩ := by
  have hr : (⟨bytes, p⟩ : SrsBuffer).require n = true := by
    apply decide_eq_true
    exact ⟨hn, by unfold SrsBuffer.left; dsimp only; omega⟩
  unfold requires
  rw [if_pos hr]

theorem readUint_run (hle : p + n ≤ bytes.length) :
    readUint n ⟨bytes, p⟩ = .ok (uintAt bytes p n) ⟨bytes, p + n⟩ := by
  rw [readUint_eq, Cursor.readUint_at hle]

theorem readBytes_run (hle : p + n ≤ bytes.length) :
    readBytes n ⟨bytes, p⟩ = .ok ((bytes.drop p).take n) ⟨bytes, p + n⟩ := by
  rw [readBytes_eq, Cursor.readBytes_at hle]

theorem skip_run {n : ℤ} {q : ℕ} (hq : (q : ℤ) = p + n) (hle : q ≤ bytes.length) :
    skip n ⟨bytes, p⟩ = .ok () ⟨bytes, q⟩ := by
  unfold skip access SrsBuffer.skip
  dsimp only
  rw [if_pos (by omega)]
  have hnat : ((p : ℤ) + n).toNat = q := by omega
  rw [hnat]

variable {flag : Bool}

theorem optional_run {x : TsIo Unit} {k : ℕ}
    (hx : flag = true → x ⟨bytes, p⟩ = .ok () ⟨bytes, p + k⟩) :
    optional flag x ⟨bytes, p⟩ = .ok () ⟨bytes, p + width flag k⟩ := by
  cases flag with
  | true => exact hx rfl
  | false => rfl

theorem requires_fail (h : bytes.length < p + n) (code : TsErrorCode) (message : String) :
    requires n code message ⟨bytes, p⟩ = .err (TsError.new code message) ⟨bytes, p⟩ := by
  have hr : ¬ (⟨bytes, p⟩ : SrsBuffer).require n = true := by
    intro hr
    have hle := ((⟨bytes, p⟩ : SrsBuffer).require_iff n).mp hr
    exact absurd hle (not_le.mpr h)
  unfold requires
  rw [if_neg hr]

theorem width_true (h : flag = true) : width flag n = n := by
  rw [h]
  rfl

/-- An optional part of `k` bytes. -/
theorem endsAt_optional_width {x : TsIo Unit} {k : ℕ}
    (hx : flag = true → EndsAt x bytes p (fun _ q => q = p + k) F) :
    EndsAt (optional flag x) bytes p (fun _ q => q = p + width flag k) F := by
  apply endsAt_optional
  · rintro rfl
    exact hx rfl
  · rintro rfl
    rfl

/-! ## The adaptation field -/

/-- Bit `i` of the byte at `p`. -/
def bitAt (bytes : List UInt8) (p i : ℕ) : Bool := (uintAt bytes p 1).testBit i

/-- The private data of the adaptation field at `p`, from its length on. -/
def afPrivatePos (bytes : List UInt8) (p : ℕ) : ℕ :=
  p + 2 + width (bitAt bytes (p + 1) 4) 6 + width (bitAt bytes (p + 1) 3) 6 +
    width (bitAt bytes (p + 1) 2) 1

/-- The extension of the adaptation field at `p`. -/
def afExtensionPos (bytes : List UInt8) (p : ℕ) : ℕ :=
  afPrivatePos bytes p +
    width (bitAt bytes (p + 1) 1) (1 + uintAt bytes (afPrivatePos bytes p) 1)

/-- Behind the fields of the extension at `e`. -/
def afExtensionFieldsEnd (bytes : List UInt8) (e : ℕ) : ℕ :=
  e + 2 + width (bitAt bytes (e + 1) 7) 2 + width (bitAt bytes (e + 1) 6) 3 +
    width (bitAt bytes (e + 1) 5) 5

/-- Behind the fields of the adaptation field at `p`. -/
def afFieldsEnd (bytes : List UInt8) (p : ℕ) : ℕ :=
  if bitAt bytes (p + 1) 0 then afExtensionFieldsEnd bytes (afExtensionPos bytes p)
  else afExtensionPos bytes p

/-- The adaptation field at `p` passes all checks of the reader. -/
structure AfRead (bytes : List UInt8) (control p : ℕ) : Prop where
  required : p + 2 ≤ bytes.length
  both : control = 3 → uintAt bytes p 1 ≤ 182
  only : control = 2 → uintAt bytes p 1 = 183
  fields : uintAt bytes p 1 ≠ 0 → afFieldsEnd bytes p ≤ bytes.length

/-- It passes them, and it or its extension says that it goes on behind the buffer. -/
structure AfOverruns (bytes : List UInt8) (control p : ℕ) : Prop extends
    AfRead bytes control p where
  nonempty : uintAt bytes p 1 ≠ 0
  overrun : bytes.length < p + 1 + uintAt bytes p 1 ∨
    bitAt bytes (p + 1) 0 = true ∧
      bytes.length < afExtensionPos bytes p + uintAt bytes (afExtensionPos bytes p) 1

theorem field_ends (k : ℕ) (message : String) :
    EndsAt (field k message) bytes p (fun _ q => q = p + k) F := by
  refine endsAt_bind_requires fun _ hle => ?_
  apply EndsAt.bind
  apply endsAt_readBytes
  · intro _
    exact endsAt_pure rfl
  · intro hlt
    omega

theorem privateData_ends :
    EndsAt privateData bytes p (fun _ q => q = p + (1 + uintAt bytes p 1)) F := by
  refine endsAt_bind_requires fun _ hle => ?_
  apply EndsAt.bind
  apply endsAt_readUint
  · intro _
    apply EndsAt.ite
    · intro _
      refine (field_ends _ _).mono (fun _ q _ hq => ?_) (fun hf => hf)
      omega
    · intro hzero
      exact endsAt_pure (by omega)
  · intro hlt
    omega

/-- The extension, which may fault only where its fields are in the buffer. -/
theorem adaptationFieldExtension_ends
    (hf : afExtensionFieldsEnd bytes p ≤ bytes.length →
      bytes.length < p + uintAt bytes p 1 → F) :
    EndsAt adaptationFieldExtension bytes p
      (fun _ q => q = p + uintAt bytes p 1 ∧ afExtensionFieldsEnd bytes p ≤ bytes.length) F := by
  apply endsAt_bind_pos
  refine endsAt_bind_requires fun _ hle => ?_
  refine endsAt_bind_readUint (by omega) ?_
  refine endsAt_bind_readUint (by omega) ?_
  apply (endsAt_optional_width fun _ => field_ends 2 _).seq
  intro _ _
  apply (endsAt_optional_width fun _ => field_ends 3 _).seq
  intro _ _
  apply (endsAt_optional_width fun _ => field_ends 5 _).seq
  intro _ hfields
  have hend : p + 1 + 1 + width ((uintAt bytes (p + 1) 1).testBit 7) 2 +
      width ((uintAt bytes (p + 1) 1).testBit 6) 3 +
      width ((uintAt bytes (p + 1) 1).testBit 5) 5 = afExtensionFieldsEnd bytes p := rfl
  rw [hend] at hfields ⊢
  apply endsAt_bind_pos
  apply endsAt_skip
  · intro q hq _
    exact ⟨by omega, hfields⟩
  · intro hout
    exact hf hfields (by omega)

/-- The fields, which may fault only where they are in the buffer. -/
theorem adaptationFields_ends (hle : p + 2 ≤ bytes.length)
    (hf : afFieldsEnd bytes p ≤ bytes.length →
      (bytes.length < p + 1 + uintAt bytes p 1 ∨ bitAt bytes (p + 1) 0 = true ∧
        bytes.length < afExtensionPos bytes p + uintAt bytes (afExtensionPos bytes p) 1) → F) :
    EndsAt (adaptationFields (uintAt bytes p 1)) bytes (p + 1)
      (fun _ q => q = p + 1 + uintAt bytes p 1 ∧ afFieldsEnd bytes p ≤ bytes.length ∧
        (bitAt bytes (p + 1) 0 = true →
          afExtensionPos bytes p + uintAt bytes (afExtensionPos bytes p) 1 ≤ bytes.length)) F := by
  apply endsAt_bind_pos
  refine endsAt_bind_readUint (by omega) ?_
  apply (endsAt_optional_width fun _ => field_ends 6 _).seq
  intro _ _
  apply (endsAt_optional_width fun _ => field_ends 6 _).seq
  intro _ _
  apply (endsAt_optional_width fun _ => field_ends 1 _).seq
  intro _ _
  apply (endsAt_optional_width fun _ => privateData_ends).seq
  intro _ _
  show EndsAt _ bytes (afExtensionPos bytes p) _ F
  -- behind the extension, if there is one
  have hlast : ∀ q : ℕ, afFieldsEnd bytes p ≤ bytes.length →
      (bitAt bytes (p + 1) 0 = true →
        afExtensionPos bytes p + uintAt bytes (afExtensionPos bytes p) 1 ≤ bytes.length) →
      EndsAt (do
        let posNow ← pos
        skip ((uintAt bytes p 1 : ℤ) - (posNow - (p + 1 : ℕ)))) bytes q
        (fun _ q => q = p + 1 + uintAt bytes p 1 ∧ afFieldsEnd bytes p ≤ bytes.length ∧
          (bitAt bytes (p + 1) 0 = true →
            afExtensionPos bytes p + uintAt bytes (afExtensionPos bytes p) 1 ≤
              bytes.length)) F := by
    intro q hfields hext
    apply endsAt_bind_pos
    apply endsAt_skip
    · intro r hr _
      exact ⟨by omega, hfields, hext⟩
    · intro hout
      exact hf hfields (Or.inl (by omega))
  apply EndsAt.bind
  apply endsAt_optional
  · intro hflag
    have hend : afExtensionFieldsEnd bytes (afExtensionPos bytes p) = afFieldsEnd bytes p :=
      (if_pos hflag).symm
    refine (adaptationFieldExtension_ends fun hfields hlt => ?_).mono ?_ (fun hf => hf)
    · exact hf (hend ▸ hfields) (Or.inr ⟨hflag, hlt⟩)
    · rintro _ q hq ⟨rfl, hfields⟩
      exact hlast _ (hend ▸ hfields) fun _ => hq
  · intro hflag
    have hend : afExtensionPos bytes p = afFieldsEnd bytes p :=
      (if_neg (Bool.eq_false_iff.mp hflag)).symm
    intro hpos
    refine hlast _ (hend ▸ hpos) (fun hset => ?_) hpos
    exact Bool.noConfusion (hset.symm.trans hflag)

theorem adaptationField_ends (control : ℕ) :
    EndsAt (SrsTsAdaptationField.decode control) bytes p
      (fun _ q => q = p + 1 + uintAt bytes p 1 ∧ AfRead bytes control p ∧
        ¬ AfOverruns bytes control p)
      (AfOverruns bytes control p) := by
  refine endsAt_bind_requires fun _ hle => ?_
  have hle : p + 2 ≤ bytes.length := by omega
  refine endsAt_bind_readUint (by omega) ?_
  refine endsAt_bind_refuse fun hboth => ?_
  refine endsAt_bind_refuse fun honly => ?_
  have hread : (uintAt bytes p 1 ≠ 0 → afFieldsEnd bytes p ≤ bytes.length) →
      AfRead bytes control p := fun hfields => {
    required := hle
    both := fun hc => by
      by_contra hlt
      exact hboth ⟨hc, by omega⟩
    only := fun hc => by
      by_contra hne
      exact honly ⟨hc, hne⟩
    fields := hfields }
  apply EndsAt.ite
  · intro hzero
    exact endsAt_pure ⟨by omega, hread fun hne => absurd hzero hne, fun h => h.nonempty hzero⟩
  · intro hne
    refine (adaptationFields_ends hle fun hfields hover => ?_).mono ?_ (fun hf => hf)
    · exact { toAfRead := hread fun _ => hfields, nonempty := hne, overrun := hover }
    · rintro _ q hin ⟨hq, hfields, hext⟩
      refine ⟨hq, hread fun _ => hfields, fun h => ?_⟩
      rcases h.overrun with hlt | ⟨hflag, hlt⟩
      · omega
      · exact absurd (hext hflag) (not_le.mpr hlt)

section Run

theorem field_run {k : ℕ} (hle : p + k ≤ bytes.length) (message : String) :
    field k message ⟨bytes, p⟩ = .ok () ⟨bytes, p + k⟩ := by
  rw [field, bind_ok (requires_run (by omega) (by omega) _ _),
    bind_ok (readBytes_run hle)]
  rfl

theorem privateData_run (hle : p + (1 + uintAt bytes p 1) ≤ bytes.length) :
    privateData ⟨bytes, p⟩ = .ok () ⟨bytes, p + (1 + uintAt bytes p 1)⟩ := by
  rw [privateData, bind_ok (requires_run (by omega) (by omega) _ _),
    bind_ok (readUint_run (by omega))]
  by_cases hpos : uintAt bytes p 1 > 0
  · rw [if_pos hpos, field_run (by omega), Nat.add_assoc]
  · rw [if_neg hpos]
    have hzero : uintAt bytes p 1 = 0 := by omega
    rw [hzero]
    rfl

/-- The head goes from behind the fields to the end that the extension says it has. -/
theorem adaptationFieldExtension_run (hfields : afExtensionFieldsEnd bytes p ≤ bytes.length)
    (hend : p + uintAt bytes p 1 ≤ bytes.length) :
    adaptationFieldExtension ⟨bytes, p⟩ = .ok () ⟨bytes, p + uintAt bytes p 1⟩ := by
  have hbit : ∀ i : ℕ, (uintAt bytes (p + 1) 1).testBit i = bitAt bytes (p + 1) i := fun _ => rfl
  have hpos : ∀ q : ℕ, pos ⟨bytes, q⟩ = .ok q ⟨bytes, q⟩ := fun _ => rfl
  unfold afExtensionFieldsEnd at hfields
  rw [adaptationFieldExtension, bind_ok (hpos p),
    bind_ok (requires_run (by omega) (by omega) _ _),
    bind_ok (readUint_run (by omega)), bind_ok (readUint_run (by omega))]
  simp only [hbit]
  rw [bind_ok (optional_run (k := 2) fun hflag =>
      field_run (by have := width_true (n := 2) hflag; omega) _),
    bind_ok (optional_run (k := 3) fun hflag =>
      field_run (by have := width_true (n := 3) hflag; omega) _),
    bind_ok (optional_run (k := 5) fun hflag =>
      field_run (by have := width_true (n := 5) hflag; omega) _),
    bind_ok (hpos _)]
  exact skip_run (by omega) hend

theorem adaptationFields_run (hfields : afFieldsEnd bytes p ≤ bytes.length)
    (hend : p + 1 + uintAt bytes p 1 ≤ bytes.length)
    (hext : bitAt bytes (p + 1) 0 = true →
      afExtensionPos bytes p + uintAt bytes (afExtensionPos bytes p) 1 ≤ bytes.length) :
    adaptationFields (uintAt bytes p 1) ⟨bytes, p + 1⟩ =
      .ok () ⟨bytes, p + 1 + uintAt bytes p 1⟩ := by
  have hbit : ∀ i : ℕ, (uintAt bytes (p + 1) 1).testBit i = bitAt bytes (p + 1) i := fun _ => rfl
  have hpos : ∀ q : ℕ, pos ⟨bytes, q⟩ = .ok q ⟨bytes, q⟩ := fun _ => rfl
  -- the extension begins inside the buffer, whether it is there or not
  have hle : afExtensionPos bytes p ≤ bytes.length := by
    unfold afFieldsEnd afExtensionFieldsEnd at hfields
    split at hfields <;> omega
  have hprivate : afPrivatePos bytes p ≤ bytes.length := by
    unfold afExtensionPos at hle
    omega
  unfold afPrivatePos at hprivate
  rw [adaptationFields, bind_ok (hpos _), bind_ok (readUint_run (by omega))]
  simp only [hbit]
  rw [bind_ok (optional_run (k := 6) fun hflag =>
      field_run (by have := width_true (n := 6) hflag; omega) _),
    bind_ok (optional_run (k := 6) fun hflag =>
      field_run (by have := width_true (n := 6) hflag; omega) _),
    bind_ok (optional_run (k := 1) fun hflag =>
      field_run (by have := width_true (n := 1) hflag; omega) _)]
  show (optional (bitAt bytes (p + 1) 1) privateData >>= _) ⟨bytes, afPrivatePos bytes p⟩ = _
  rw [bind_ok (optional_run fun hflag => privateData_run (by
    have hwidth := width_true (n := 1 + uintAt bytes (afPrivatePos bytes p) 1) hflag
    unfold afExtensionPos at hle
    omega))]
  show (optional (bitAt bytes (p + 1) 0) adaptationFieldExtension >>= _)
    ⟨bytes, afExtensionPos bytes p⟩ = _
  have hlast : ∀ q : ℕ, skip ((uintAt bytes p 1 : ℤ) - (q - (p + 1 : ℕ))) ⟨bytes, q⟩ =
      .ok () ⟨bytes, p + 1 + uintAt bytes p 1⟩ := by
    intro q
    apply skip_run
    · omega
    · exact hend
  cases hflag : bitAt bytes (p + 1) 0 with
  | false => exact hlast _
  | true =>
    have hrun : optional true adaptationFieldExtension ⟨bytes, afExtensionPos bytes p⟩ = .ok ()
        ⟨bytes, afExtensionPos bytes p + uintAt bytes (afExtensionPos bytes p) 1⟩ := by
      apply adaptationFieldExtension_run
      · unfold afFieldsEnd at hfields
        rwa [if_pos hflag] at hfields
      · exact hext hflag
    rw [bind_ok hrun]
    exact hlast _

/-- The reader accepts the field exactly where it passes the checks and overruns nothing. -/
theorem adaptationField_run {control : ℕ} (hread : AfRead bytes control p)
    (hinside : ¬ AfOverruns bytes control p) :
    SrsTsAdaptationField.decode control ⟨bytes, p⟩ =
      .ok () ⟨bytes, p + 1 + uintAt bytes p 1⟩ := by
  have hrequired := hread.required
  rw [SrsTsAdaptationField.decode, bind_ok (requires_run (by omega) (by omega) _ _),
    bind_ok (readUint_run (by omega)),
    bind_ok (Prog.refuse_pass (fun hboth => by have := hread.both hboth.1; omega) _ _),
    bind_ok (Prog.refuse_pass (fun honly => honly.2 (hread.only honly.1)) _ _)]
  by_cases hzero : uintAt bytes p 1 = 0
  · rw [if_pos hzero, hzero]
    rfl
  · rw [if_neg hzero]
    have hover : ¬ (bytes.length < p + 1 + uintAt bytes p 1 ∨ bitAt bytes (p + 1) 0 = true ∧
        bytes.length < afExtensionPos bytes p + uintAt bytes (afExtensionPos bytes p) 1) :=
      fun hlt => hinside ⟨hread, hzero, hlt⟩
    push Not at hover
    exact adaptationFields_run (hread.fields hzero) hover.1 hover.2

end Run

/-! ## The header of a PES packet -/

/-- The marker bits of the time at `p`. -/
structure TimestampRead (bytes : List UInt8) (p : ℕ) : Prop where
  first : bitAt bytes p 0 = true
  nonzero : uintAt bytes p 1 / 16 ≠ 0
  second : (uintAt bytes (p + 1) 2).testBit 0 = true
  third : (uintAt bytes (p + 3) 2).testBit 0 = true

theorem decode33bitsDtsPts_ends (hle : p + 5 ≤ bytes.length) :
    EndsAt decode33bitsDtsPts bytes p (fun _ q => q = p + 5 ∧ TimestampRead bytes p) F := by
  refine endsAt_bind_requires fun _ _ => ?_
  refine endsAt_bind_readUint (by omega) ?_
  refine endsAt_bind_refuse fun hfirst => ?_
  refine endsAt_bind_refuse fun hnonzero => ?_
  refine endsAt_bind_readUint (by omega) ?_
  refine endsAt_bind_refuse fun hsecond => ?_
  refine endsAt_bind_readUint (by omega) ?_
  refine endsAt_bind_refuse fun hthird => ?_
  exact endsAt_pure ⟨rfl, {
    first := not_not.mp hfirst
    nonzero := hnonzero
    second := not_not.mp hsecond
    third := not_not.mp hthird }⟩

/-- The bytes of the times. -/
def timesWidth (ptsDtsFlags : ℕ) : ℕ :=
  (if ptsDtsFlags = 2 then 5 else 0) + (if ptsDtsFlags = 3 then 10 else 0)

/-- The times at `p` pass the checks of the reader. -/
def TimesRead (bytes : List UInt8) (ptsDtsFlags p : ℕ) : Prop :=
  (ptsDtsFlags = 2 ∨ ptsDtsFlags = 3 → TimestampRead bytes p) ∧
    (ptsDtsFlags = 3 → TimestampRead bytes (p + 5))

theorem timestamps_ends {ptsDtsFlags : ℕ} (hle : p + timesWidth ptsDtsFlags ≤ bytes.length) :
    EndsAt (timestamps ptsDtsFlags) bytes p
      (fun _ q => q = p + timesWidth ptsDtsFlags ∧ TimesRead bytes ptsDtsFlags p) F := by
  apply EndsAt.ite
  · rintro rfl
    have hle : p + 5 ≤ bytes.length := hle
    apply EndsAt.bind
    refine ((decode33bitsDtsPts_ends hle).wrap _).mono ?_ (fun hf => hf)
    rintro _ q _ ⟨rfl, hread⟩
    refine endsAt_pure ⟨rfl, fun _ => hread, fun hthree => ?_⟩
    omega
  · intro htwo
    apply EndsAt.ite
    · rintro rfl
      have hle : p + 10 ≤ bytes.length := hle
      apply EndsAt.bind
      refine ((decode33bitsDtsPts_ends (by omega)).wrap _).mono ?_ (fun hf => hf)
      rintro _ q _ ⟨rfl, hpts⟩
      apply EndsAt.bind
      refine ((decode33bitsDtsPts_ends (by omega)).wrap _).mono ?_ (fun hf => hf)
      rintro _ q _ ⟨rfl, hdts⟩
      exact endsAt_pure ⟨rfl, fun _ => hpts, fun _ => hdts⟩
    · intro hthree
      refine endsAt_pure ⟨?_, fun hor => ?_, fun h => absurd h hthree⟩
      · rw [timesWidth, if_neg htwo, if_neg hthree]
        rfl
      · exact absurd hor (not_or.mpr ⟨htwo, hthree⟩)

/-- The length of the pack field, in the extension at `e`. -/
def packPos (bytes : List UInt8) (e : ℕ) : ℕ := e + 1 + width (bitAt bytes e 7) 16

/-- Behind the pack field. -/
def packEnd (bytes : List UInt8) (e : ℕ) : ℕ :=
  packPos bytes e + width (bitAt bytes e 6) (1 + uintAt bytes (packPos bytes e) 1)

/-- The bytes of the fields that follow, without what the last of them has behind its length. -/
def packRest (bytes : List UInt8) (e : ℕ) : ℕ :=
  width (bitAt bytes e 5) 2 + width (bitAt bytes e 4) 2 + width (bitAt bytes e 0) 1

/-- Behind the extension at `e`. -/
def pesExtensionEnd (bytes : List UInt8) (e : ℕ) : ℕ :=
  let last := packEnd bytes e + width (bitAt bytes e 5) 2 + width (bitAt bytes e 4) 2
  last + width (bitAt bytes e 0) (1 + uintAt bytes last 1 % 128)

/-- The pack field of the extension at `e` goes on behind the buffer, by less than the 16 bytes
that are missing in what the reader requires. -/
structure PackOverruns (bytes : List UInt8) (e : ℕ) : Prop where
  notPrivate : bitAt bytes e 7 = false
  pack : bitAt bytes e 6 = true
  required : e + 2 + packRest bytes e ≤ bytes.length
  enough : 16 ≤ uintAt bytes (e + 1) 1 + packRest bytes e
  passes : e + 2 + uintAt bytes (e + 1) 1 + packRest bytes e ≤ bytes.length + 16
  overrun : bytes.length < e + 2 + uintAt bytes (e + 1) 1 + packRest bytes e

/-- The pack field, behind which the fields that follow are in the buffer, if it does not
overrun. -/
theorem packField_ends {e : ℕ} (hpack : bitAt bytes e 6 = true)
    (hle : packPos bytes e + 1 + packRest bytes e ≤ bytes.length) :
    EndsAt (packField (width (bitAt bytes e 7) 16 + 1 + packRest bytes e)) bytes (packPos bytes e)
      (fun _ q => q = packEnd bytes e ∧
        (bytes.length < q + packRest bytes e → PackOverruns bytes e))
      (PackOverruns bytes e) := by
  have hend : packEnd bytes e = packPos bytes e + (1 + uintAt bytes (packPos bytes e) 1) := by
    rw [packEnd, hpack]
    rfl
  rw [hend]
  refine endsAt_bind_readUint (by omega) ?_
  apply EndsAt.ite
  · intro _
    refine endsAt_bind_requires fun hzero hfits => ?_
    -- with the private data nothing is missing in what is required
    have hover : bytes.length <
        packPos bytes e + 1 + uintAt bytes (packPos bytes e) 1 + packRest bytes e →
        PackOverruns bytes e := by
      intro hlt
      cases hprivate : bitAt bytes e 7 with
      | true =>
        rw [hprivate] at hfits
        have hsixteen : width true 16 = 16 := rfl
        omega
      | false =>
        rw [hprivate] at hzero hfits
        have hnone : width false 16 = 0 := rfl
        have hpos : packPos bytes e = e + 1 := by
          rw [packPos, hprivate]
          rfl
        rw [hpos] at hzero hfits hle hlt
        exact ⟨hprivate, hpack, by omega, by omega, by omega, by omega⟩
    apply EndsAt.bind
    apply endsAt_readBytes
    · intro _
      exact endsAt_pure ⟨by omega, fun hlt => hover (by omega)⟩
    · intro hlt
      exact hover (by omega)
  · intro hzero
    exact endsAt_pure ⟨by omega, fun hlt => by omega⟩

theorem pesExtensionField_ends (hf : bytes.length < p + 1 → F) :
    EndsAt pesExtensionField bytes p (fun _ q => q = p + (1 + uintAt bytes p 1 % 128)) F := by
  apply EndsAt.bind
  refine endsAt_readUint (fun _ => ?_) hf
  apply EndsAt.ite
  · intro _
    refine endsAt_bind_requires fun _ hle => ?_
    apply EndsAt.bind
    apply endsAt_readBytes
    · intro _
      exact endsAt_pure (by omega)
    · intro hlt
      omega
  · intro hzero
    exact endsAt_pure (by omega)

theorem pesExtension_ends (hle : p + 1 ≤ bytes.length) :
    EndsAt pesExtension bytes p (fun _ q => q = pesExtensionEnd bytes p)
      (PackOverruns bytes p) := by
  refine endsAt_bind_readUint (by omega) ?_
  have hbit : ∀ i : ℕ, (uintAt bytes p 1).testBit i = bitAt bytes p i := fun _ => rfl
  simp only [hbit]
  refine endsAt_bind_requires fun _ hrequired => ?_
  have hrest : packRest bytes p = width (bitAt bytes p 5) 2 + width (bitAt bytes p 4) 2 +
      width (bitAt bytes p 0) 1 := rfl
  refine EndsAt.seq (endsAt_optional_width (k := 16) fun hflag => ?_) fun _ _ => ?_
  · have hprivate := width_true (n := 16) hflag
    apply EndsAt.bind
    apply endsAt_readBytes (n := 16)
    · intro _
      exact endsAt_pure rfl
    · intro hlt
      have : width (bitAt bytes p 7) 16 = 16 := hprivate
      omega
  -- the pack field
  have hpackPos : packPos bytes p = p + 1 + width (bitAt bytes p 7) 16 := rfl
  apply EndsAt.bind
  refine EndsAt.mono (Q := fun _ q => q = packEnd bytes p ∧
    (bytes.length < q + packRest bytes p → PackOverruns bytes p))
    (F := PackOverruns bytes p) ?_ ?_ (fun hf => hf)
  · apply endsAt_optional
    · intro hpack
      have hone : width (bitAt bytes p 6) 1 = 1 := width_true hpack
      have hsum : width (bitAt bytes p 7) 16 + width (bitAt bytes p 6) 1 +
          width (bitAt bytes p 5) 2 + width (bitAt bytes p 4) 2 + width (bitAt bytes p 0) 1 =
          width (bitAt bytes p 7) 16 + 1 + packRest bytes p := by
        omega
      have hfield := @packField_ends bytes p hpack (by omega)
      rw [← hsum] at hfield
      exact hfield
    · intro hpack
      have hzero : width (bitAt bytes p 6) (1 + uintAt bytes (packPos bytes p) 1) = 0 := by
        rw [show bitAt bytes p 6 = false from hpack]
        rfl
      have hnone : width (bitAt bytes p 6) 1 = 0 := by
        rw [show bitAt bytes p 6 = false from hpack]
        rfl
      have hend : packEnd bytes p = packPos bytes p := by
        rw [packEnd, hzero]
        rfl
      exact ⟨by omega, fun hlt => by omega⟩
  rintro _ q _ ⟨rfl, hover⟩
  refine EndsAt.seq (endsAt_optional_width (k := 2) fun hflag => ?_) fun _ _ => ?_
  · have htwo : width (bitAt bytes p 5) 2 = 2 := width_true hflag
    apply EndsAt.bind
    refine endsAt_readUint (fun _ => ?_) (fun hlt => hover (by omega))
    apply EndsAt.bind
    refine endsAt_readUint (fun _ => ?_) (fun hlt => hover (by omega))
    exact endsAt_pure rfl
  refine EndsAt.seq (endsAt_optional_width (k := 2) fun hflag => ?_) fun _ _ => ?_
  · have htwo : width (bitAt bytes p 4) 2 = 2 := width_true hflag
    apply EndsAt.bind
    refine endsAt_readUint (fun _ => ?_) (fun hlt => hover (by omega))
    exact endsAt_pure rfl
  refine endsAt_optional_width fun hflag => pesExtensionField_ends fun hlt => hover ?_
  have hone : width (bitAt bytes p 0) 1 = 1 := width_true hflag
  omega

/-- The extension of the PES header at `p`, behind the fields that the flags announce. -/
def pesExtensionPos (bytes : List UInt8) (p : ℕ) : ℕ :=
  p + 9 + timesWidth (uintAt bytes (p + 7) 1 / 64 % 4) + width (bitAt bytes (p + 7) 5) 6 +
    width (bitAt bytes (p + 7) 4) 3 + width (bitAt bytes (p + 7) 3) 1 +
    width (bitAt bytes (p + 7) 2) 1 + width (bitAt bytes (p + 7) 1) 2

/-- Behind the fields of the PES header at `p`. -/
def pesFieldsEnd (bytes : List UInt8) (p : ℕ) : ℕ :=
  if bitAt bytes (p + 7) 0 then pesExtensionEnd bytes (pesExtensionPos bytes p)
  else pesExtensionPos bytes p

/-- The data of the PES packet at `p`: behind the fields, and the bytes that the length of the
header counts. -/
def pesDataPos (bytes : List UInt8) (p : ℕ) : ℕ :=
  if isDataStream (uintAt bytes (p + 3) 1) then p + 6
  else max (pesFieldsEnd bytes p) (p + 9 + uintAt bytes (p + 8) 1)

/-- The PES header at `p` passes the checks of the reader up to its extension, which overruns. -/
structure PesOverruns (bytes : List UInt8) (p : ℕ) : Prop where
  required : p + 9 ≤ bytes.length
  startCode : uintAt bytes p 3 = 0x01
  notData : isDataStream (uintAt bytes (p + 3) 1) = false
  notPadding : isPaddingStream (uintAt bytes (p + 3) 1) = false
  times : TimesRead bytes (uintAt bytes (p + 7) 1 / 64 % 4) (p + 9)
  extension : bitAt bytes (p + 7) 0 = true
  pack : PackOverruns bytes (pesExtensionPos bytes p)

theorem pesFlags_ends (streamId pesPacketLength posPacket : ℕ)
    (hf : p + 9 ≤ bytes.length → TimesRead bytes (uintAt bytes (p + 7) 1 / 64 % 4) (p + 9) →
      bitAt bytes (p + 7) 0 = true → PackOverruns bytes (pesExtensionPos bytes p) → F) :
    EndsAt (pesFlags streamId pesPacketLength posPacket) bytes (p + 6)
      (fun pes q => pes.hasPayload = true ∧
        q = max (pesFieldsEnd bytes p) (p + 9 + uintAt bytes (p + 8) 1)) F := by
  refine endsAt_bind_requires fun _ hthree => ?_
  refine endsAt_bind_readUint (by omega) ?_
  refine endsAt_bind_readUint (by omega) ?_
  apply EndsAt.bind
  refine endsAt_readUint (fun hnine => ?_) fun hlt => by omega
  show EndsAt _ bytes (p + 9) _ F
  have hpefv : uintAt bytes (p + 6 + 1) 1 = uintAt bytes (p + 7) 1 := rfl
  have hbit : ∀ i : ℕ, (uintAt bytes (p + 7) 1).testBit i = bitAt bytes (p + 7) i := fun _ => rfl
  have hlength : uintAt bytes (p + 6 + 1 + 1) 1 = uintAt bytes (p + 8) 1 := rfl
  rw [hlength]
  simp only [hpefv, hbit]
  apply endsAt_bind_pos
  refine endsAt_bind_requires fun _ hrequired => ?_
  rw [← timesWidth] at hrequired
  apply EndsAt.bind
  refine (timestamps_ends (by omega)).mono ?_ (fun hf => hf)
  rintro times q _ ⟨rfl, htimes⟩
  refine EndsAt.seq (endsAt_optional_width (k := 6) fun hflag => ?_) fun _ _ => ?_
  · have hsix := width_true (n := 6) hflag
    apply endsAt_skip
    · intro q hq _
      omega
    · intro hout
      omega
  refine EndsAt.seq (endsAt_optional_width (k := 3) fun hflag => ?_) fun _ _ => ?_
  · have hthree := width_true (n := 3) hflag
    apply EndsAt.bind
    exact endsAt_readUint (fun _ => endsAt_pure rfl) fun hlt => by omega
  refine EndsAt.seq (endsAt_optional_width (k := 1) fun hflag => ?_) fun _ _ => ?_
  · have hone := width_true (n := 1) hflag
    apply EndsAt.bind
    exact endsAt_readUint (fun _ => endsAt_pure rfl) fun hlt => by omega
  refine EndsAt.seq (endsAt_optional_width (k := 1) fun hflag => ?_) fun _ _ => ?_
  · have hone := width_true (n := 1) hflag
    apply EndsAt.bind
    exact endsAt_readUint (fun _ => endsAt_pure rfl) fun hlt => by omega
  refine EndsAt.seq (endsAt_optional_width (k := 2) fun hflag => ?_) fun _ _ => ?_
  · have htwo := width_true (n := 2) hflag
    apply EndsAt.bind
    exact endsAt_readUint (fun _ => endsAt_pure rfl) fun hlt => by omega
  have hextension : p + 9 + timesWidth (uintAt bytes (p + 7) 1 / 64 % 4) +
      width (bitAt bytes (p + 7) 5) 6 + width (bitAt bytes (p + 7) 4) 3 +
      width (bitAt bytes (p + 7) 3) 1 + width (bitAt bytes (p + 7) 2) 1 +
      width (bitAt bytes (p + 7) 1) 2 = pesExtensionPos bytes p := rfl
  rw [hextension]
  refine EndsAt.seq (r := pesFieldsEnd bytes p) (endsAt_optional (fun hflag => ?_) fun hflag => ?_)
    fun _ _ => ?_
  · have hone := width_true (n := 1) hflag
    rw [pesFieldsEnd, if_pos hflag]
    exact (pesExtension_ends (by omega)).mono (fun _ _ _ hq => hq) fun hpack =>
      hf hnine htimes hflag hpack
  · rw [pesFieldsEnd, if_neg (Bool.eq_false_iff.mp hflag)]
  apply endsAt_bind_pos
  refine EndsAt.seq (r := max (pesFieldsEnd bytes p) (p + 9 + uintAt bytes (p + 8) 1))
    (endsAt_optional (fun hpos => ?_) fun hpos => ?_) fun _ _ => ?_
  · have hpos := of_decide_eq_true hpos
    refine endsAt_bind_requires fun _ _ => ?_
    apply endsAt_skip
    · intro q hq _
      omega
    · intro hout
      omega
  · have hneg := of_decide_eq_false hpos
    omega
  apply endsAt_bind_pos
  refine endsAt_bind_refuse fun _ => ?_
  exact endsAt_pure ⟨rfl, rfl⟩

/-- The header of the PES packet at `p`. A packet of the padding stream has no payload. -/
theorem pes_ends :
    EndsAt SrsMpegPES.decode bytes p
      (fun pes q => (pes.hasPayload = true → q = pesDataPos bytes p) ∧
        (pes.hasPayload = false → q = bytes.length ∧ pes.nbPayload = 0))
      (PesOverruns bytes p) := by
  refine endsAt_bind_requires fun _ hsix => ?_
  refine endsAt_bind_readUint (by omega) ?_
  refine endsAt_bind_readUint (by omega) ?_
  apply EndsAt.bind
  refine endsAt_readUint (fun hle => ?_) fun hlt => by omega
  refine endsAt_bind_refuse fun hbegins => ?_
  apply endsAt_bind_pos
  have hle : p + 6 ≤ bytes.length := hle
  apply EndsAt.ite
  · intro hdata
    refine endsAt_bind_refuse fun _ => ?_
    refine endsAt_pure ⟨fun _ => ?_, fun h => by cases h⟩
    exact (if_pos hdata).symm
  · intro hdata
    apply EndsAt.ite
    · intro _
      apply EndsAt.bind
      apply endsAt_skipAll
      exact endsAt_pure ⟨fun h => Bool.noConfusion h, fun _ => ⟨rfl, rfl⟩⟩
    · intro hpadding
      refine (pesFlags_ends _ _ _ fun hnine htimes hflag hpack => ?_).mono ?_ (fun hf => hf)
      · exact ⟨hnine, not_not.mp hbegins, Bool.eq_false_iff.mpr hdata,
          Bool.eq_false_iff.mpr hpadding, htimes, hflag, hpack⟩
      · rintro pes q _ ⟨hpayload, rfl⟩
        refine ⟨fun _ => (if_neg hdata).symm, fun h => ?_⟩
        rw [hpayload] at h
        cases h

theorem le_pesDataPos (bytes : List UInt8) (p : ℕ) : p ≤ pesDataPos bytes p := by
  unfold pesDataPos
  split
  · omega
  · omega

/-! ## Packets -/

/-- The header of the packet at `p`. -/
def headerAt (bytes : List UInt8) (p : ℕ) : TsHeader where
  pid := uintAt bytes (p + 1) 2 % 2 ^ 13
  unitStart := (uintAt bytes (p + 1) 2).testBit 14
  control := uintAt bytes (p + 3) 1 / 16 % 4
  continuityCounter := uintAt bytes (p + 3) 1 % 16

/-- The payload of the packet at `p`. -/
def payloadPos (bytes : List UInt8) (p : ℕ) : ℕ :=
  if hasAdaptationField (headerAt bytes p).control then p + 4 + (1 + uintAt bytes (p + 4) 1)
  else p + 4

/-- The bytes for the message in the packet at `p`: behind the PES header, if it starts a unit. -/
def dataPos (bytes : List UInt8) (p : ℕ) : ℕ :=
  if (headerAt bytes p).unitStart then pesDataPos bytes (payloadPos bytes p)
  else payloadPos bytes p

theorem add_four_le_payloadPos (bytes : List UInt8) (p : ℕ) : p + 4 ≤ payloadPos bytes p := by
  unfold payloadPos
  split
  · omega
  · omega

theorem packetHeader_ends :
    EndsAt packetHeader bytes p
      (fun header q => q = p + 4 ∧ header = headerAt bytes p ∧ uintAt bytes p 1 = 0x47) F := by
  refine endsAt_bind_requires fun _ hle => ?_
  refine endsAt_bind_readUint (by omega) ?_
  refine endsAt_bind_refuse fun hsync => ?_
  refine endsAt_bind_readUint (by omega) ?_
  refine endsAt_bind_readUint (by omega) ?_
  exact endsAt_pure ⟨rfl, rfl, not_not.mp hsync⟩

end SrsChatRoom.Kernel.Ts
