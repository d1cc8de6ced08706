import SrsChatRoom.Kernel.BufferPositions

/-!
# The accesses of a buffer

The accesses of `SrsBuffer` for a program with any type of errors: what each does at a position
where its bytes are there, and what it does at the others. A writer starts at the beginning of its
memory, so that what it has written is a list (`written`).
-/

namespace SrsChatRoom.Kernel.Cursor

variable {ε : Type}

/-- `read_bytes(data, n)` and `read_string(n)` -/
def readBytes (n : ℤ) : Prog SrsBuffer ε (List UInt8) := fun b =>
  if b.require n then .ok ((b.bytes.drop b.pos).take n.toNat) (b.advance n.toNat) else .fault

/-- `read_1bytes()`, `read_2bytes()` and so on. -/
def readUint (n : ℕ) : Prog SrsBuffer ε ℕ := do
  let bytes ← readBytes n
  return ofBytesBE bytes

/-- `skip(n)` -/
def skip (n : ℤ) : Prog SrsBuffer ε Unit := fun b =>
  if 0 ≤ b.pos + n ∧ b.pos + n ≤ b.bytes.length then
    .ok () { b with pos := (b.pos + n).toNat }
  else .fault

/-- `if (!require(n)) return error` -/
def requires (n : ℤ) (e : ε) : Prog SrsBuffer ε Unit := fun b =>
  if b.require n then .ok () b else .err e b

/-- `left()` -/
def left : Prog SrsBuffer ε ℤ := Prog.read SrsBuffer.left

/-- `pos()` -/
def pos : Prog SrsBuffer ε ℕ := Prog.read SrsBuffer.pos

/-- `SrsBuffer b(stream->head(), n)`: the next `n` bytes. -/
def ahead (n : ℕ) : Prog SrsBuffer ε (List UInt8) :=
  Prog.read fun b => (b.bytes.drop b.pos).take n

/-- `write_bytes(data, size)` and `write_string(data)` -/
def writeBytes (data : List UInt8) : Prog SrsBuffer ε Unit := fun b =>
  if b.require data.length then .ok () (b.put data) else .fault

/-- `write_1bytes`, `write_2bytes` and so on. -/
def writeUint (n v : ℕ) : Prog SrsBuffer ε Unit := writeBytes (bytesBE n v)

/-- `data()[i] = v`, which no assertion guards. -/
def poke (i v : ℕ) : Prog SrsBuffer ε Unit := fun b =>
  if i < b.bytes.length then .ok () { b with bytes := b.bytes.set i (UInt8.ofNat v) } else .fault

/-- The `pos()` bytes from `data()` on. -/
def behind : Prog SrsBuffer ε (List UInt8) := Prog.read fun b => b.bytes.take b.pos

/-- Run a program on a buffer of its own. -/
def onBuffer {α : Type} (data : List UInt8) (x : Prog SrsBuffer ε α) : Prog SrsBuffer ε α :=
  fun b =>
    match x ⟨data, 0⟩ with
    | .ok a _ => .ok a b
    | .err e _ => .err e b
    | .fault => .fault
    | .hang => .hang

section Running

variable {bytes : List UInt8} {p n : ℕ}

theorem left_at : (left : Prog SrsBuffer ε ℤ) ⟨bytes, p⟩ = .ok (bytes.length - p) ⟨bytes, p⟩ := rfl

theorem readBytes_at (h : p + n ≤ bytes.length) :
    (readBytes n : Prog SrsBuffer ε _) ⟨bytes, p⟩ = .ok ((bytes.drop p).take n) ⟨bytes, p + n⟩ :=
  if_pos ((SrsBuffer.require_iff ⟨bytes, p⟩ n).mpr h)

theorem readBytes_beyond (h : bytes.length < p + n) :
    (readBytes n : Prog SrsBuffer ε _) ⟨bytes, p⟩ = .fault := by
  apply if_neg
  intro hr
  have hle : p + n ≤ bytes.length := (SrsBuffer.require_iff ⟨bytes, p⟩ n).mp hr
  omega

theorem readUint_at (h : p + n ≤ bytes.length) :
    (readUint n : Prog SrsBuffer ε _) ⟨bytes, p⟩ = .ok (uintAt bytes p n) ⟨bytes, p + n⟩ := by
  rw [readUint, Prog.bind_ok (readBytes_at h)]
  rfl

theorem readUint_beyond (h : bytes.length < p + n) :
    (readUint n : Prog SrsBuffer ε _) ⟨bytes, p⟩ = .fault := by
  rw [readUint, Prog.bind_fault (readBytes_beyond h)]

end Running

/-! ## Writing from the start -/

/-- The memory `out` with these bytes written from its start on. -/
def written (out data : List UInt8) : SrsBuffer := ⟨data ++ out.drop data.length, data.length⟩

section Writing

variable {out data more : List UInt8}

theorem writeBytes_written (h : data.length + more.length ≤ out.length) :
    (writeBytes more : Prog SrsBuffer ε _) (written out data) =
      .ok () (written out (data ++ more)) := by
  have hfits : (written out data).require more.length = true := by
    rw [SrsBuffer.require_iff]
    show data.length + more.length ≤ (data ++ out.drop data.length).length
    rw [List.length_append, List.length_drop]
    omega
  have hput : (written out data).put more = written out (data ++ more) := by
    unfold SrsBuffer.put written
    dsimp only
    rw [List.take_left, List.length_append, List.drop_append, List.drop_of_length_le (by omega),
      List.nil_append, List.drop_drop]
    congr 3
    omega
  rw [writeBytes, if_pos hfits, hput]

theorem writeUint_written {n : ℕ} (v : ℕ) (h : data.length + n ≤ out.length) :
    (writeUint n v : Prog SrsBuffer ε _) (written out data) =
      .ok () (written out (data ++ bytesBE n v)) := by
  apply writeBytes_written
  rwa [length_bytesBE]

theorem poke_written {i : ℕ} (v : ℕ) (h : i < data.length) :
    (poke i v : Prog SrsBuffer ε _) (written out data) =
      .ok () (written out (data.set i (UInt8.ofNat v))) := by
  have hin : i < (written out data).bytes.length := by
    show i < (data ++ out.drop data.length).length
    rw [List.length_append]
    omega
  rw [poke, if_pos hin]
  unfold written
  dsimp only
  rw [List.set_append_left _ _ h, List.length_set]

theorem behind_written :
    (behind : Prog SrsBuffer ε _) (written out data) = .ok data (written out data) := by
  show Outcome.ok ((data ++ out.drop data.length).take data.length) _ = _
  rw [List.take_left]

/-- Behind anything that is written, the program writes these bytes if there is room for them and
for `k` bytes more. -/
def Emits (x : Prog SrsBuffer ε Unit) (data : List UInt8) (k : ℕ) : Prop :=
  ∀ out front : List UInt8, front.length + (data.length + k) ≤ out.length →
    x (written out front) = .ok () (written out (front ++ data))

theorem emits_pure : Emits (pure () : Prog SrsBuffer ε Unit) [] 0 := by
  intro out front _
  rw [List.append_nil]
  rfl

theorem emits_writeBytes (data : List UInt8) :
    Emits (writeBytes data : Prog SrsBuffer ε Unit) data 0 :=
  fun _ _ h => writeBytes_written h

theorem emits_writeUint (n v : ℕ) :
    Emits (writeUint n v : Prog SrsBuffer ε Unit) (bytesBE n v) 0 := emits_writeBytes _

/-- A check for room writes nothing. -/
theorem emits_requires (n : ℕ) (e : ε) : Emits (requires n e) [] n := by
  intro out front h
  have hfits : (written out front).require n = true := by
    rw [SrsBuffer.require_iff]
    show front.length + n ≤ (front ++ out.drop front.length).length
    rw [List.length_nil] at h
    rw [List.length_append, List.length_drop]
    omega
  rw [List.append_nil]
  exact if_pos hfits

section Emits

variable {x y : Prog SrsBuffer ε Unit} {k j : ℕ}

/-- What a part needs behind it is there if the rest writes it. -/
theorem Emits.seq (hx : Emits x data k) (hy : Emits y more j) (hk : k ≤ more.length + j) :
    Emits (x >>= fun _ => y) (data ++ more) j := by
  intro out front h
  rw [List.length_append] at h
  have hlength : (front ++ data).length = front.length + data.length := List.length_append
  rw [Prog.bind_ok (hx out front (by omega)), hy out (front ++ data) (by omega),
    List.append_assoc]

theorem Emits.mono (hx : Emits x data k) (hk : k ≤ j) : Emits x data j :=
  fun out front h => hx out front (by omega)

theorem Emits.wrap (hx : Emits x data k) (g : ε → ε) : Emits (Prog.wrap g x) data k :=
  fun out front h => Prog.wrap_ok (hx out front h) g

end Emits

end Writing

/-! ## The rules -/

section Rules

variable {bytes : List UInt8} {p : ℕ} {F : Prop}

theorem endsAt_requires {n : ℤ} {e : ε} {Q : Unit → ℕ → Prop}
    (h : 0 ≤ n → p + n ≤ bytes.length → Q () p) : EndsAt (requires n e) bytes p Q F := by
  intro hp
  unfold Prog.Ends requires
  by_cases hr : (⟨bytes, p⟩ : SrsBuffer).require n = true
  · rw [if_pos hr]
    have hfits := of_decide_eq_true hr
    unfold SrsBuffer.left at hfits
    have hle : (p : ℤ) + n ≤ bytes.length := by
      dsimp only at hfits
      omega
    exact ⟨⟨rfl, hp⟩, h hfits.1 hle⟩
  · rw [if_neg hr]
    exact ⟨rfl, hp⟩

theorem endsAt_bind_requires {β : Type} {n : ℤ} {e : ε} {f : Unit → Prog SrsBuffer ε β}
    {R : β → ℕ → Prop} (h : 0 ≤ n → p + n ≤ bytes.length → EndsAt (f ()) bytes p R F) :
    EndsAt (requires n e >>= f) bytes p R F :=
  EndsAt.bind (endsAt_requires h)

variable {n : ℕ} {Q : List UInt8 → ℕ → Prop}

theorem endsAt_readBytes (h : p + n ≤ bytes.length → Q ((bytes.drop p).take n) (p + n))
    (hf : bytes.length < p + n → F) :
    EndsAt (readBytes n : Prog SrsBuffer ε _) bytes p Q F := by
  intro hp
  unfold Prog.Ends
  by_cases hle : p + n ≤ bytes.length
  · rw [readBytes_at hle]
    exact ⟨⟨rfl, hle⟩, h hle⟩
  · rw [readBytes_beyond (not_le.mp hle)]
    exact hf (not_le.mp hle)

theorem endsAt_readUint {Q : ℕ → ℕ → Prop} (h : p + n ≤ bytes.length → Q (uintAt bytes p n) (p + n))
    (hf : bytes.length < p + n → F) :
    EndsAt (readUint n : Prog SrsBuffer ε _) bytes p Q F := by
  intro hp
  unfold Prog.Ends
  by_cases hle : p + n ≤ bytes.length
  · rw [readUint_at hle]
    exact ⟨⟨rfl, hle⟩, h hle⟩
  · rw [readUint_beyond (not_le.mp hle)]
    exact hf (not_le.mp hle)

/-- Reading where the bytes are known to be there. -/
theorem endsAt_bind_readUint {β : Type} {f : ℕ → Prog SrsBuffer ε β} {R : β → ℕ → Prop}
    (hle : p + n ≤ bytes.length) (h : EndsAt (f (uintAt bytes p n)) bytes (p + n) R F) :
    EndsAt (readUint n >>= f) bytes p R F :=
  EndsAt.bind (endsAt_readUint (fun _ => h) fun hlt => absurd hle (not_le.mpr hlt))

theorem endsAt_skip {n : ℤ} {Q : Unit → ℕ → Prop}
    (h : ∀ q : ℕ, (q : ℤ) = p + n → q ≤ bytes.length → Q () q)
    (hf : p + n < 0 ∨ bytes.length < p + n → F) :
    EndsAt (skip n : Prog SrsBuffer ε _) bytes p Q F := by
  intro hp
  unfold Prog.Ends skip
  dsimp only
  by_cases hin : 0 ≤ (p : ℤ) + n ∧ (p : ℤ) + n ≤ bytes.length
  · rw [if_pos hin]
    have hq : (((p : ℤ) + n).toNat : ℤ) = p + n := Int.toNat_of_nonneg hin.1
    have hle : ((p : ℤ) + n).toNat ≤ bytes.length := by omega
    exact ⟨⟨rfl, hle⟩, h _ hq hle⟩
  · rw [if_neg hin]
    apply hf
    omega

theorem endsAt_ahead (h : Q ((bytes.drop p).take n) p) :
    EndsAt (ahead n : Prog SrsBuffer ε _) bytes p Q F :=
  fun hp => Prog.Ends.read ⟨⟨rfl, hp⟩, h⟩

theorem endsAt_onBuffer {α : Type} {data : List UInt8} {x : Prog SrsBuffer ε α}
    {Q : α → ℕ → Prop} (h : EndsAt x data 0 (fun a _ => Q a p) F) :
    EndsAt (onBuffer data x) bytes p Q F := by
  intro hp
  have hends := h (Nat.zero_le _)
  unfold Prog.Ends at hends ⊢
  unfold onBuffer
  cases hx : x ⟨data, 0⟩ with
  | ok a b =>
    rw [hx] at hends
    exact ⟨⟨rfl, hp⟩, hends.2⟩
  | err e b => exact ⟨rfl, hp⟩
  | fault =>
    rw [hx] at hends
    exact hends
  | hang =>
    rw [hx] at hends
    exact hends

end Rules

end SrsChatRoom.Kernel.Cursor
