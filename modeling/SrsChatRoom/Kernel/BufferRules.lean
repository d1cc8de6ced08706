import SrsChatRoom.Kernel.Buffer

/-!
# Rules for programs that read a buffer

A reader is verified by what it takes off the bytes that are left. `Sound x p Q` says that on the
bytes `p` the program neither faults nor hangs, that it stays inside the buffer even if it fails,
and that a value it returns satisfies `Q` with the bytes that are left then. `Reads x p a q` says
that it returns `a` and leaves `q`. There is one rule per construct for each. `Writes x data` says
of a writer that it puts these bytes where there is room for them.
-/

namespace SrsChatRoom.Kernel

open SrsBuffer

variable {ε α β : Type}

/-- The same memory, with the head inside it. -/
def Inside (b b' : SrsBuffer) : Prop := b'.bytes = b.bytes ∧ b'.pos ≤ b'.bytes.length

variable {b : SrsBuffer}

theorem Inside.trans {b' b'' : SrsBuffer} (h : Inside b b') (h' : Inside b' b'') : Inside b b'' :=
  ⟨h'.1.trans h.1, h'.2⟩

/-- The bytes that are left say where the head is. -/
theorem Inside.eq_of_rest {b' b'' : SrsBuffer} (h : Inside b b') (h' : Inside b b'')
    (hrest : b'.rest = b''.rest) : b' = b'' := by
  obtain ⟨hbytes, hpos⟩ := h
  obtain ⟨hbytes', hpos'⟩ := h'
  have hlength := congrArg List.length hrest
  rw [length_rest, length_rest, hbytes, hbytes'] at hlength
  rw [hbytes] at hpos
  rw [hbytes'] at hpos'
  cases b' with
  | mk bytes' pos' =>
    cases b'' with
    | mk bytes'' pos'' =>
      simp only at hbytes hbytes' hlength hpos hpos'
      rw [hbytes, hbytes', show pos' = pos'' by omega]

/-- The program is safe on these bytes, and what it returns satisfies `Q`. -/
def Sound (x : Prog SrsBuffer ε α) (p : List UInt8) (Q : α → List UInt8 → Prop) : Prop :=
  ∀ b : SrsBuffer, b.pos ≤ b.bytes.length → b.rest = p →
    match x b with
    | .ok a b' => Inside b b' ∧ Q a b'.rest
    | .err _ b' => Inside b b'
    | .fault => False
    | .hang => False

/-- On these bytes the program returns `a` and leaves `q`. -/
def Reads (x : Prog SrsBuffer ε α) (p : List UInt8) (a : α) (q : List UInt8) : Prop :=
  ∀ b : SrsBuffer, b.pos ≤ b.bytes.length → b.rest = p →
    ∃ b', x b = .ok a b' ∧ Inside b b' ∧ b'.rest = q

variable {x : Prog SrsBuffer ε α} {p q : List UInt8} {a : α} {Q : α → List UInt8 → Prop}

theorem Reads.sound (h : Reads x p a q) (hq : Q a q) : Sound x p Q := by
  intro b hpos hrest
  obtain ⟨b', hrun, hinside, hleft⟩ := h b hpos hrest
  rw [hrun]
  exact ⟨hinside, hleft ▸ hq⟩

variable {f : α → Prog SrsBuffer ε β}

variable {P : α → List UInt8 → Prop}

theorem Sound.bind {Q : β → List UInt8 → Prop} (h : Sound x p P)
    (hf : ∀ a q, P a q → Sound (f a) q Q) : Sound (x >>= f) p Q := by
  intro b hpos hrest
  have hx := h b hpos hrest
  rw [Prog.bind_apply]
  cases hrun : x b with
  | ok a b' =>
    rw [hrun] at hx
    obtain ⟨hinside, hp⟩ := hx
    have hnext := hf a b'.rest hp b' hinside.2 rfl
    show match f a b' with
      | .ok a b'' => Inside b b'' ∧ Q a b''.rest
      | .err _ b'' => Inside b b''
      | .fault => False
      | .hang => False
    cases hrun' : f a b' with
    | ok c b'' =>
      rw [hrun'] at hnext
      exact ⟨hinside.trans hnext.1, hnext.2⟩
    | err e b'' =>
      rw [hrun'] at hnext
      exact hinside.trans hnext
    | fault => rwa [hrun'] at hnext
    | hang => rwa [hrun'] at hnext
  | err e b' => rwa [hrun] at hx
  | fault => rwa [hrun] at hx
  | hang => rwa [hrun] at hx

theorem Sound.mono (h : Sound x p P) (hpq : ∀ a q, P a q → Q a q) : Sound x p Q := by
  intro b hpos hrest
  have hx := h b hpos hrest
  cases hrun : x b with
  | ok a b' =>
    rw [hrun] at hx
    exact ⟨hx.1, hpq a _ hx.2⟩
  | err e b' => rwa [hrun] at hx
  | fault => rwa [hrun] at hx
  | hang => rwa [hrun] at hx

theorem sound_pure (h : Q a p) : Sound (pure a : Prog SrsBuffer ε α) p Q := by
  intro b hpos hrest
  exact ⟨⟨rfl, hpos⟩, hrest ▸ h⟩

theorem sound_throw {e : ε} :
    Sound (Prog.throw e : Prog SrsBuffer ε α) p Q := fun _ hpos _ => ⟨rfl, hpos⟩

theorem Sound.wrap (h : Sound x p Q) (g : ε → ε) : Sound (Prog.wrap g x) p Q := by
  intro b hpos hrest
  have hx := h b hpos hrest
  unfold Prog.wrap
  cases hrun : x b with
  | ok a b' => rwa [hrun] at hx
  | err e b' => rwa [hrun] at hx
  | fault => rwa [hrun] at hx
  | hang => rwa [hrun] at hx

variable {r : List UInt8}

theorem Reads.bind
    {c : β} (h : Reads x p a q) (hf : Reads (f a) q c r) : Reads (x >>= f) p c r := by
  intro b hpos hrest
  obtain ⟨b', hrun, hinside, hleft⟩ := h b hpos hrest
  obtain ⟨b'', hrun', hinside', hleft'⟩ := hf b' hinside.2 hleft
  exact ⟨b'', by rw [Prog.bind_ok hrun, hrun'], hinside.trans hinside', hleft'⟩

theorem reads_pure (p : List UInt8) (a : α) : Reads (pure a : Prog SrsBuffer ε α) p a p :=
  fun b hpos hrest => ⟨b, rfl, ⟨rfl, hpos⟩, hrest⟩

theorem Reads.wrap (h : Reads x p a q) (g : ε → ε) : Reads (Prog.wrap g x) p a q := by
  intro b hpos hrest
  obtain ⟨b', hrun, hinside, hleft⟩ := h b hpos hrest
  exact ⟨b', Prog.wrap_ok hrun g, hinside, hleft⟩

/-- An observation of the bytes that are left. -/
theorem reads_read {f : SrsBuffer → α}
    (h : ∀ b : SrsBuffer, b.pos ≤ b.bytes.length → b.rest = p → f b = a) :
    Reads (Prog.read f : Prog SrsBuffer ε α) p a p := by
  intro b hpos hrest
  exact ⟨b, by rw [Prog.read_apply, h b hpos hrest], ⟨rfl, hpos⟩, hrest⟩

variable {n : ℕ}

theorem inside_advance (hpos : b.pos ≤ b.bytes.length)
    (h : n ≤ b.rest.length) : Inside b (b.advance n) :=
  ⟨rfl, SrsBuffer.pos_advance_le h hpos⟩

theorem reads_readUint (h : n ≤ p.length) :
    Reads (readUint n) p (ofBytesBE (p.take n)) (p.drop n) := by
  intro b hpos hrest
  subst hrest
  exact ⟨_, SrsBuffer.readUint_run h hpos, inside_advance hpos h, b.rest_advance n⟩

theorem reads_readBytes (h : n ≤ p.length) : Reads (readBytes n) p (p.take n) (p.drop n) := by
  intro b hpos hrest
  subst hrest
  have hrequire : b.require n = true := by
    rw [SrsBuffer.length_rest] at h
    rw [SrsBuffer.require_iff]
    omega
  exact ⟨b.advance n, if_pos hrequire, inside_advance hpos h, b.rest_advance n⟩

/-- Reading a number that is there. -/
theorem reads_bytesBE (n v : ℕ) (q : List UInt8) :
    Reads (readUint n) (bytesBE n v ++ q) (v % 256 ^ n) q := by
  have hread := reads_readUint (n := n) (p := bytesBE n v ++ q) (by simp)
  rwa [List.take_left' (length_bytesBE n v), List.drop_left' (length_bytesBE n v),
    ofBytesBE_bytesBE] at hread

theorem reads_checkRequire (h : n ≤ p.length) (code : ErrorCode)
    (message : String) : Reads (checkRequire n code message) p () p := by
  intro b hpos hrest
  rw [← hrest] at h
  exact ⟨b, checkRequire_pass h hpos code message, ⟨rfl, hpos⟩, hrest⟩

/-- What comes after a check may count on the bytes. -/
theorem sound_checkRequire {code : ErrorCode} {message : String}
    {Q : Unit → List UInt8 → Prop} (h : n ≤ p.length → Q () p) :
    Sound (checkRequire n code message) p Q := by
  intro b hpos hrest
  by_cases hn : n ≤ p.length
  · rw [← hrest] at hn
    rw [checkRequire_pass hn hpos]
    exact ⟨⟨rfl, hpos⟩, by rw [hrest] at hn ⊢; exact h hn⟩
  · rw [← hrest] at hn
    rw [checkRequire_fail (by omega)]
    exact ⟨rfl, hpos⟩

/-- On bytes on which a safe program returns a value, that is the one it reads. -/
theorem Reads.unique {q' : List UInt8} {a' : α}
    (h : Reads x p a q) (h' : Reads x p a' q') : a = a' ∧ q = q' := by
  have hrest : (⟨p, 0⟩ : SrsBuffer).rest = p := rfl
  obtain ⟨b, hrun, -, hleft⟩ := h ⟨p, 0⟩ (Nat.zero_le _) hrest
  obtain ⟨b', hrun', -, hleft'⟩ := h' ⟨p, 0⟩ (Nat.zero_le _) hrest
  rw [hrun] at hrun'
  cases hrun'
  exact ⟨rfl, hleft.symm.trans hleft'⟩

/-! ## One value and its condition -/

/-- On these bytes the program returns `a` exactly if `C` holds, and then it leaves `q`. -/
def GivesIff (x : Prog SrsBuffer ε α) (p : List UInt8) (a : α) (C : Prop) (q : List UInt8) :
    Prop :=
  ∀ b : SrsBuffer, b.pos ≤ b.bytes.length → b.rest = p →
    (C → ∃ b', x b = .ok a b' ∧ Inside b b' ∧ b'.rest = q) ∧
      ∀ b', x b = .ok a b' → C ∧ Inside b b' ∧ b'.rest = q

/-- What the program returns satisfies `P`, on any buffer. -/
def Only (x : Prog SrsBuffer ε α) (P : α → Prop) : Prop := ∀ b a b', x b = .ok a b' → P a

theorem only_pure {P : α → Prop} (h : P a) : Only (pure a : Prog SrsBuffer ε α) P := by
  intro b a' b' hrun
  cases hrun
  exact h

theorem only_throw (e : ε) (P : α → Prop) : Only (Prog.throw e : Prog SrsBuffer ε α) P := by
  intro b a b' hrun
  cases hrun

theorem Only.bind {P : β → Prop} (h : ∀ a, Only (f a) P) : Only (x >>= f) P := by
  intro b c b' hrun
  obtain ⟨a, b'', -, hrest⟩ := Prog.ok_of_bind_ok hrun
  exact h a b'' c b' hrest

theorem Only.ite {c : Prop} [Decidable c] {y : Prog SrsBuffer ε α} {P : α → Prop}
    (hx : Only x P) (hy : Only y P) : Only (if c then x else y) P := by
  by_cases h : c
  · rwa [if_pos h]
  · rwa [if_neg h]

theorem Reads.givesIff (h : Reads x p a q) : GivesIff x p a True q := by
  intro b hpos hrest
  obtain ⟨b', hrun, hinside, hleft⟩ := h b hpos hrest
  refine ⟨fun _ => ⟨b', hrun, hinside, hleft⟩, fun b'' hrun' => ?_⟩
  rw [hrun] at hrun'
  cases hrun'
  exact ⟨trivial, hinside, hleft⟩

theorem GivesIff.congr {C D : Prop}
    (h : GivesIff x p a C q) (hCD : C ↔ D) : GivesIff x p a D q := by
  intro b hpos hrest
  obtain ⟨hto, hof⟩ := h b hpos hrest
  exact ⟨fun hD => hto (hCD.mpr hD), fun b' hrun => ⟨hCD.mp (hof b' hrun).1, (hof b' hrun).2⟩⟩

/-- A value that is read in any case. -/
theorem Reads.bind_givesIff {c : β} {C : Prop} (h : Reads x p a q)
    (hf : GivesIff (f a) q c C r) : GivesIff (x >>= f) p c C r := by
  intro b hpos hrest
  obtain ⟨b', hrun, hinside, hleft⟩ := h b hpos hrest
  obtain ⟨hto, hof⟩ := hf b' hinside.2 hleft
  rw [Prog.bind_ok hrun]
  constructor
  · intro hC
    obtain ⟨b'', hrun', hinside', hleft'⟩ := hto hC
    exact ⟨b'', hrun', hinside.trans hinside', hleft'⟩
  · intro b'' hrun'
    obtain ⟨hC, hinside', hleft'⟩ := hof b'' hrun'
    exact ⟨hC, hinside.trans hinside', hleft'⟩

/-- A value that the result shows. -/
theorem GivesIff.bind {c : β} {C D : Prop} (h : GivesIff x p a C q) (hf : GivesIff (f a) q c D r)
    (hshown : ∀ a', Only (f a') fun c' => c' = c → a' = a) : GivesIff (x >>= f) p c (C ∧ D) r := by
  intro b hpos hrest
  obtain ⟨hto, hof⟩ := h b hpos hrest
  constructor
  · rintro ⟨hC, hD⟩
    obtain ⟨b', hrun, hinside, hleft⟩ := hto hC
    obtain ⟨b'', hrun', hinside', hleft'⟩ := (hf b' hinside.2 hleft).1 hD
    exact ⟨b'', by rw [Prog.bind_ok hrun, hrun'], hinside.trans hinside', hleft'⟩
  · intro b'' hboth
    obtain ⟨a', b', hrun, hrun'⟩ := Prog.ok_of_bind_ok hboth
    obtain rfl := hshown a' b' c b'' hrun' rfl
    obtain ⟨hC, hinside, hleft⟩ := hof b' hrun
    obtain ⟨hD, hinside', hleft'⟩ := (hf b' hinside.2 hleft).2 b'' hrun'
    exact ⟨⟨hC, hD⟩, hinside.trans hinside', hleft'⟩

theorem givesIff_pure (p : List UInt8) (a : α) :
    GivesIff (pure a : Prog SrsBuffer ε α) p a True p := (reads_pure p a).givesIff

/-! ## Writers -/

/-- With room for these bytes the program writes them, and nothing else. -/
def Writes (x : Dec Unit) (data : List UInt8) : Prop :=
  ∀ b : SrsBuffer, b.pos + data.length ≤ b.bytes.length → x b = .ok () (b.put data)

section Writers

variable {x y : Dec Unit} {data more : List UInt8}

theorem writes_pure : Writes (pure ()) [] := by
  intro b _
  rw [put_nil]
  rfl

theorem writes_writeBytes (data : List UInt8) : Writes (writeBytes data) data :=
  fun _ hroom => writeBytes_run hroom

theorem writes_writeUint (n v : ℕ) : Writes (writeUint n v) (bytesBE n v) :=
  writes_writeBytes (bytesBE n v)

theorem Writes.seq (hx : Writes x data) (hy : Writes y more) :
    Writes (x >>= fun _ => y) (data ++ more) := by
  intro b hroom
  rw [List.length_append] at hroom
  have hput : (b.put data).bytes.length = b.bytes.length := length_bytes_put (by omega)
  rw [Prog.bind_ok (hx b (by omega)), hy (b.put data) (by rw [hput, pos_put]; omega),
    put_put (by omega)]

/-- A check that asks for no more than what is written after it. -/
theorem Writes.checkRequire (hx : Writes x data) {n : ℕ} (hn : n ≤ data.length)
    (code : ErrorCode) (message : String) :
    Writes (checkRequire n code message >>= fun _ => x) data := by
  intro b hroom
  have hcheck : SrsBuffer.checkRequire n code message b = .ok () b :=
    if_pos ((b.require_iff n).mpr (by omega))
  rw [Prog.bind_ok hcheck, hx b hroom]

theorem Writes.wrap (hx : Writes x data) (g : SrsError → SrsError) : Writes (Prog.wrap g x) data :=
  fun b hroom => Prog.wrap_ok (hx b hroom) g

/-- A program writes the same bytes everywhere. -/
theorem Writes.unique (h : Writes x data) (h' : Writes x more) : data = more := by
  have hlength : (List.replicate (data.length + more.length) (0 : UInt8)).length =
      data.length + more.length := List.length_replicate
  have hrun := h ⟨List.replicate (data.length + more.length) 0, 0⟩ (by
    show 0 + data.length ≤ (List.replicate (data.length + more.length) (0 : UInt8)).length
    omega)
  have hrun' := h' ⟨List.replicate (data.length + more.length) 0, 0⟩ (by
    show 0 + more.length ≤ (List.replicate (data.length + more.length) (0 : UInt8)).length
    omega)
  have hsame := (Outcome.ok.inj (hrun.symm.trans hrun')).2
  have hpos : 0 + data.length = 0 + more.length := congrArg SrsBuffer.pos hsame
  have hbytes := congrArg SrsBuffer.bytes hsame
  simp only [put, List.take_zero, List.nil_append] at hbytes
  exact (List.append_inj hbytes (by omega)).1

end Writers

end SrsChatRoom.Kernel
