import SrsChatRoom.Kernel.Buffer
import SrsChatRoom.Lib.Endings

/-!
# Programs on a buffer, by the position of the head

Where a reader also goes back, what it does is described by positions. `EndsAt x bytes p Q F` is
about a run of `x` from the position `p`: it ends, it leaves the memory as it is and the head
inside, a value and the position it is returned at satisfy `Q`, and a fault implies `F`.
-/

namespace SrsChatRoom.Kernel

open SrsBuffer

variable {ε α β : Type} {bytes : List UInt8} {p : ℕ} {F : Prop}

/-- The `n` bytes at `p`, as a number. -/
def uintAt (bytes : List UInt8) (p n : ℕ) : ℕ := ofBytesBE ((bytes.drop p).take n)

/-- Bytes that follow each other are the digits of one number. -/
theorem uintAt_add (bytes : List UInt8) (p n : ℕ) {m : ℕ} (h : p + n + m ≤ bytes.length) :
    uintAt bytes p (n + m) = uintAt bytes p n * 256 ^ m + uintAt bytes (p + n) m := by
  have hlength : ((bytes.drop (p + n)).take m).length = m := by
    rw [List.length_take, List.length_drop]
    omega
  rw [uintAt, List.take_add, List.drop_drop, ofBytesBE_append, hlength]
  rfl

theorem uintAt_lt (bytes : List UInt8) (p n : ℕ) : uintAt bytes p n < 256 ^ n := by
  refine lt_of_lt_of_le (ofBytesBE_lt _) (Nat.pow_le_pow_right (by omega) ?_)
  exact List.length_take_le _ _

/-- The buffer has this memory, and the head is inside it. -/
def Within (bytes : List UInt8) (b : SrsBuffer) : Prop := b.bytes = bytes ∧ b.pos ≤ bytes.length

/-- How a run from the position `p` may end. -/
def EndsAt (x : Prog SrsBuffer ε α) (bytes : List UInt8) (p : ℕ) (Q : α → ℕ → Prop)
    (F : Prop) : Prop :=
  p ≤ bytes.length →
    x.Ends ⟨bytes, p⟩ (fun a b => Within bytes b ∧ Q a b.pos) (Within bytes) F

section Rules

variable {Q : α → ℕ → Prop} {x : Prog SrsBuffer ε α} {R : β → ℕ → Prop}

variable {f : α → Prog SrsBuffer ε β}

theorem EndsAt.bind (h : EndsAt x bytes p (fun a q => EndsAt (f a) bytes q R F) F) :
    EndsAt (x >>= f) bytes p R F := by
  intro hp
  refine Prog.Ends.bind ((h hp).mono ?_ (fun _ he => he) (fun hf => hf))
  rintro a b ⟨⟨rfl, hpos⟩, hnext⟩
  exact hnext hpos

theorem EndsAt.mono {Q' : α → ℕ → Prop} {F' : Prop}
    (h : EndsAt x bytes p Q F) (hq : ∀ a q, q ≤ bytes.length → Q a q → Q' a q) (hf : F → F') :
    EndsAt x bytes p Q' F' := by
  intro hp
  refine (h hp).mono ?_ (fun _ he => he) hf
  rintro a b ⟨hin, hqa⟩
  exact ⟨hin, hq a b.pos hin.2 hqa⟩

/-- The value and the position are those of the run. -/
theorem EndsAt.run (h : EndsAt x bytes p Q F) :
    EndsAt x bytes p (fun a q => x ⟨bytes, p⟩ = .ok a ⟨bytes, q⟩) F := by
  intro hp
  have hends := h hp
  unfold Prog.Ends at hends ⊢
  cases hx : x ⟨bytes, p⟩ with
  | ok a b =>
    rw [hx] at hends
    refine ⟨hends.1, ?_⟩
    rw [← hends.1.1]
  | err e b =>
    rw [hx] at hends
    exact hends
  | fault =>
    rw [hx] at hends
    exact hends
  | hang =>
    rw [hx] at hends
    exact hends

/-- A part that ends at a known position, and what comes after it. -/
theorem EndsAt.seq {r : ℕ} (h : EndsAt x bytes p (fun _ q => q = r) F)
    (hf : ∀ a, r ≤ bytes.length → EndsAt (f a) bytes r R F) : EndsAt (x >>= f) bytes p R F := by
  apply EndsAt.bind
  refine h.mono ?_ (fun hf => hf)
  intro a q hq heq
  subst heq
  exact hf a hq

theorem endsAt_pure {a : α} (h : Q a p) : EndsAt (pure a : Prog SrsBuffer ε α) bytes p Q F :=
  fun hp => Prog.Ends.pure ⟨⟨rfl, hp⟩, h⟩

theorem EndsAt.wrap (h : EndsAt x bytes p Q F) (g : ε → ε) : EndsAt (x.wrap g) bytes p Q F :=
  fun hp => Prog.Ends.wrap (h hp)

theorem EndsAt.mapErr {δ : Type} (h : EndsAt x bytes p Q F)
    (g : ε → δ) : EndsAt (x.mapErr g) bytes p Q F :=
  fun hp => Prog.Ends.mapErr (h hp)

theorem EndsAt.ite {c : Prop} [Decidable c] {y : Prog SrsBuffer ε α}
    (hx : c → EndsAt x bytes p Q F) (hy : ¬ c → EndsAt y bytes p Q F) :
    EndsAt (if c then x else y) bytes p Q F :=
  fun hp => Prog.Ends.ite (fun hc => hx hc hp) (fun hc => hy hc hp)

theorem endsAt_read {f : SrsBuffer → β} {Q : β → ℕ → Prop} (h : Q (f ⟨bytes, p⟩) p) :
    EndsAt (Prog.read f : Prog SrsBuffer ε β) bytes p Q F :=
  fun hp => Prog.Ends.read ⟨⟨rfl, hp⟩, h⟩

theorem endsAt_pos {Q : ℕ → ℕ → Prop} (h : Q p p) :
    EndsAt (Prog.read SrsBuffer.pos : Prog SrsBuffer ε ℕ) bytes p Q F :=
  fun hp => Prog.Ends.read ⟨⟨rfl, hp⟩, h⟩

theorem endsAt_bind_pos {f : ℕ → Prog SrsBuffer ε β}
    (h : EndsAt (f p) bytes p R F) : EndsAt (Prog.read SrsBuffer.pos >>= f) bytes p R F :=
  EndsAt.bind (endsAt_pos h)

theorem endsAt_left {Q : ℤ → ℕ → Prop} (h : Q (bytes.length - p) p) :
    EndsAt (Prog.read SrsBuffer.left : Prog SrsBuffer ε ℤ) bytes p Q F :=
  fun hp => Prog.Ends.read ⟨⟨rfl, hp⟩, h⟩

theorem endsAt_refuse {c : Prop} [Decidable c] {e : ε} {Q : Unit → ℕ → Prop}
    (h : ¬ c → Q () p) : EndsAt (Prog.refuse c e : Prog SrsBuffer ε Unit) bytes p Q F :=
  fun hp => Prog.Ends.refuse (fun _ => ⟨rfl, hp⟩) fun hc => ⟨⟨rfl, hp⟩, h hc⟩

theorem endsAt_bind_refuse {c : Prop} [Decidable c] {e : ε} {f : Unit → Prog SrsBuffer ε β}
    (h : ¬ c → EndsAt (f ()) bytes p R F) :
    EndsAt (Prog.refuse c e >>= f) bytes p R F :=
  EndsAt.bind (endsAt_refuse h)

theorem endsAt_optional {flag : Bool} {x : Prog SrsBuffer ε Unit} {Q : Unit → ℕ → Prop}
    (hx : flag = true → EndsAt x bytes p Q F) (hq : flag = false → Q () p) :
    EndsAt (Prog.optional flag x) bytes p Q F :=
  fun hp => Prog.Ends.optional (fun h => hx h hp) fun h => ⟨⟨rfl, hp⟩, hq h⟩

end Rules

/-! ## Programs that do not go back -/

/-- Whatever the program returns, it leaves the memory as it is and the head inside, and a value is
returned at least `k` bytes further on. -/
def Forward (x : Prog SrsBuffer ε α) (k : ℕ) : Prop :=
  ∀ b : SrsBuffer, b.pos ≤ b.bytes.length →
    (∀ a b', x b = .ok a b' →
      b'.bytes = b.bytes ∧ b.pos + k ≤ b'.pos ∧ b'.pos ≤ b.bytes.length) ∧
    ∀ e b', x b = .err e b' → Within b.bytes b'

section Forward

variable {k m : ℕ} {x : Prog SrsBuffer ε α}

theorem Forward.mono (h : Forward x k) (hle : m ≤ k) : Forward x m := by
  intro b hb
  refine ⟨fun a b' hx => ?_, (h b hb).2⟩
  have hforward := (h b hb).1 a b' hx
  exact ⟨hforward.1, by omega, hforward.2.2⟩

/-- What is left of `k` bytes after a part that takes `m`. -/
theorem Forward.bind {f : α → Prog SrsBuffer ε β} (hx : Forward x m)
    (hf : ∀ a, Forward (f a) (k - m)) : Forward (x >>= f) k := by
  intro b hb
  rw [Prog.bind_apply]
  cases hrun : x b with
  | ok a b1 =>
    have hone := (hx b hb).1 a b1 hrun
    have hrest := hf a b1 (by rw [hone.1]; exact hone.2.2)
    rw [hone.1] at hrest
    refine ⟨fun c b2 hc => ?_, hrest.2⟩
    have htwo := hrest.1 c b2 hc
    exact ⟨htwo.1, by omega, htwo.2.2⟩
  | err e b1 =>
    refine ⟨fun c b2 hc => (by cases hc), fun e' b2 he => ?_⟩
    cases he
    exact (hx b hb).2 e b1 hrun
  | fault => exact ⟨fun c b2 hc => (by cases hc), fun e' b2 he => (by cases he)⟩
  | hang => exact ⟨fun c b2 hc => (by cases hc), fun e' b2 he => (by cases he)⟩

/-- A program that returns the value `a` where it is. -/
theorem forward_of_ok (f : SrsBuffer → α) (h : ∀ b, x b = .ok (f b) b) : Forward x 0 := by
  intro b hb
  rw [h b]
  refine ⟨fun a b' hok => ?_, fun e b' herr => by cases herr⟩
  cases hok
  exact ⟨rfl, le_refl _, hb⟩

theorem forward_pure (a : α) : Forward (pure a : Prog SrsBuffer ε α) 0 :=
  forward_of_ok (fun _ => a) fun _ => rfl

theorem forward_read (f : SrsBuffer → α) : Forward (Prog.read f : Prog SrsBuffer ε α) 0 :=
  forward_of_ok f fun _ => rfl

theorem forward_throw (e : ε) (k : ℕ) : Forward (Prog.throw e : Prog SrsBuffer ε α) k := by
  intro b hb
  refine ⟨fun a b' hok => (by cases hok), fun e' b' herr => ?_⟩
  cases herr
  exact ⟨rfl, hb⟩

theorem Forward.wrap (h : Forward x k) (g : ε → ε) : Forward (x.wrap g) k := by
  intro b hb
  have hx := h b hb
  unfold Prog.wrap
  cases hrun : x b with
  | ok a b1 =>
    rw [hrun] at hx
    exact ⟨hx.1, fun e b' herr => by cases herr⟩
  | err e b1 =>
    refine ⟨fun a b' hok => (by cases hok), fun e' b' herr => ?_⟩
    cases herr
    exact hx.2 e b1 hrun
  | fault => exact ⟨fun a b' hok => (by cases hok), fun e b' herr => (by cases herr)⟩
  | hang => exact ⟨fun a b' hok => (by cases hok), fun e b' herr => (by cases herr)⟩

theorem Forward.ite {c : Prop} [Decidable c] {y : Prog SrsBuffer ε α} (hx : Forward x k)
    (hy : Forward y k) : Forward (if c then x else y) k := by
  split
  · exact hx
  · exact hy

theorem forward_of_takes {x : Dec α} (h : Takes x k) : Forward x k := by
  intro b hb
  by_cases hle : b.pos + k ≤ b.bytes.length
  · obtain ⟨a, ha⟩ := (h b).1 hle
    rw [ha]
    refine ⟨fun a' b' hok => ?_, fun e b' herr => by cases herr⟩
    cases hok
    exact ⟨rfl, le_refl _, hle⟩
  · rw [(h b).2 hb (not_le.mp hle)]
    exact ⟨fun a b' hok => (by cases hok), fun e b' herr => (by cases herr)⟩

theorem forward_checkRequire (n : ℤ) (code : ErrorCode) (message : String) :
    Forward (checkRequire n code message) 0 := by
  intro b hb
  unfold checkRequire
  split
  · exact forward_pure () b hb
  · exact forward_throw _ 0 b hb

end Forward

end SrsChatRoom.Kernel
