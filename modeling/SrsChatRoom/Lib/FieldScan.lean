import Mathlib.Logic.Function.Basic
import Mathlib.Tactic

/-!
# Cutting a list into fields with an automaton

An automaton reads a list, and each state it comes to says to which field the element belongs that
has just been read, that the element belongs to none, or that the list is not accepted. A field is
kept as the position of its first element and its length, both in sixteen bits.

* `scan` - the fields of a list;
* `scan_field` - elements that lead to one state of a field are that field;
* `scan_keeps` - states that do not belong to a field leave it as it is;
* `scan_eq_none` - an element that no state accepts.
-/

namespace SrsChatRoom.FieldScan

/-- What a state says about the element that led to it. -/
inductive Mark (φ : Type)
  | dead
  | skip
  | field (f : φ)
deriving DecidableEq

structure Machine (σ α φ : Type) where
  step : σ → α → σ
  mark : σ → Mark φ

/-- A field: its first position and its length. -/
structure Span where
  off : ℕ
  len : ℕ
deriving DecidableEq

/-- The automaton in the middle of a list. -/
structure Scan (σ φ : Type) where
  state : σ
  /-- the field that has been read last -/
  last : Option φ
  span : φ → Option Span

variable {σ α φ : Type}

/-- The elements of a field. -/
def Span.slice (sp : Span) (s : List α) : List α := (s.drop sp.off).take sp.len

theorem slice_append (a w b : List α) : Span.slice ⟨a.length, w.length⟩ (a ++ (w ++ b)) = w := by
  rw [Span.slice, List.drop_left, List.take_left]

variable [DecidableEq φ]

/-- One more element of a field. -/
def Scan.extend (c : Scan σ φ) (state : σ) (f : φ) (pos : ℕ) : Scan σ φ :=
  if c.last = some f then
    { state := state, last := some f,
      span := Function.update c.span f
        ((c.span f).map fun sp => { sp with len := (sp.len + 1) % 2 ^ 16 }) }
  else
    { state := state, last := some f,
      span := Function.update c.span f (some ⟨pos % 2 ^ 16, 1⟩) }

namespace Machine

variable (m : Machine σ α φ)

def next (pos : ℕ) (c : Scan σ φ) (a : α) : Option (Scan σ φ) :=
  match m.mark (m.step c.state a) with
  | .dead => none
  | .skip => some { c with state := m.step c.state a }
  | .field f => some (c.extend (m.step c.state a) f pos)

/-- Reads a list that begins at a position. -/
def scan : ℕ → Scan σ φ → List α → Option (Scan σ φ)
  | _, c, [] => some c
  | pos, c, a :: s =>
    match m.next pos c a with
    | none => none
    | some c' => scan (pos + 1) c' s

variable {m}

theorem scan_append (pos : ℕ) (c : Scan σ φ) (a b : List α) :
    m.scan pos c (a ++ b) = (m.scan pos c a).bind fun c' => m.scan (pos + a.length) c' b := by
  induction a generalizing pos c with
  | nil => rfl
  | cons x a ih =>
    rw [List.cons_append, scan, scan]
    cases m.next pos c x with
    | none => rfl
    | some c' =>
      dsimp only
      rw [ih, List.length_cons, Nat.add_right_comm, Nat.add_assoc]

variable {c : Scan σ φ}

theorem scan_append_of {pos : ℕ} {c' : Scan σ φ} {a : List α} (b : List α)
    (h : m.scan pos c a = some c') :
    m.scan pos c (a ++ b) = m.scan (pos + a.length) c' b := by
  rw [scan_append, h]
  rfl

/-- An element between two fields. -/
theorem scan_skip {s : σ} {a : α} (pos : ℕ) (w : List α)
    (hstep : m.step c.state a = s) (hmark : m.mark s = .skip) :
    m.scan pos c (a :: w) = m.scan (pos + 1) { c with state := s } w := by
  rw [scan, next, hstep, hmark]

variable {w : List α}

/-- Elements that stay in the state of the field that is being read. -/
theorem scan_stay {s : σ} {f : φ} {sp : Span} {span : φ → Option Span} (pos : ℕ)
    (hstep : ∀ a ∈ w, m.step s a = s) (hmark : m.mark s = .field f)
    (hlen : sp.len + w.length < 2 ^ 16) :
    m.scan pos ⟨s, some f, Function.update span f (some sp)⟩ w =
      some ⟨s, some f, Function.update span f (some ⟨sp.off, sp.len + w.length⟩)⟩ := by
  induction w generalizing pos sp with
  | nil => rfl
  | cons a w ih =>
    rw [List.length_cons] at hlen
    have hone : (sp.len + 1) % 2 ^ 16 = sp.len + 1 := Nat.mod_eq_of_lt (by omega)
    rw [scan, next, hstep a List.mem_cons_self, hmark]
    dsimp only
    rw [Scan.extend, if_pos rfl]
    dsimp only
    rw [Function.update_self, Option.map_some, Function.update_idem, hone,
      ih _ (fun b hb => hstep b (List.mem_cons_of_mem a hb)) (by dsimp only; omega),
      List.length_cons, Nat.add_right_comm, Nat.add_assoc]

/-- A field, from its first element on. -/
theorem scan_field {s : σ} {f : φ} {pos : ℕ} {a : α}
    (hfirst : m.step c.state a = s) (hstep : ∀ b ∈ w, m.step s b = s)
    (hmark : m.mark s = .field f) (hlast : c.last ≠ some f) (hpos : pos < 2 ^ 16)
    (hlen : w.length + 1 < 2 ^ 16) :
    m.scan pos c (a :: w) =
      some ⟨s, some f, Function.update c.span f (some ⟨pos, w.length + 1⟩)⟩ := by
  rw [scan, next, hfirst, hmark]
  dsimp only
  rw [Scan.extend, if_neg hlast, Nat.mod_eq_of_lt hpos,
    scan_stay (pos + 1) hstep hmark (by dsimp only; omega), Nat.add_comm w.length 1]

/-- An element that no state of a kind accepts, behind elements that keep the kind. -/
theorem scan_eq_none {P : σ → Prop} {a : α} (pos : ℕ)
    (hkind : ∀ s, P s → ∀ b ∈ w, m.mark (m.step s b) = .dead ∨ P (m.step s b)) (hc : P c.state)
    (hdead : ∀ s, P s → m.mark (m.step s a) = .dead) (ha : a ∈ w) :
    m.scan pos c w = none := by
  induction w generalizing pos c with
  | nil => cases ha
  | cons b w ih =>
    rw [scan]
    rcases hkind c.state hc b List.mem_cons_self with hb | hb
    · rw [next, hb]
    · rcases List.mem_cons.mp ha with hab | haw
      · rw [next, ← hab, hdead c.state hc]
      · have hrest : ∀ pos, ∀ c' : Scan σ φ, c'.state = m.step c.state b →
            m.scan pos c' w = none := by
          intro pos c' hc'
          apply ih pos (fun s hs b' hb' => hkind s hs b' (List.mem_cons_of_mem b hb')) _ haw
          rw [hc']
          exact hb
        cases hmark : m.mark (m.step c.state b) with
        | dead => rw [next, hmark]
        | skip =>
          rw [next, hmark]
          exact hrest _ _ rfl
        | field f =>
          rw [next, hmark]
          apply hrest
          unfold Scan.extend
          split <;> rfl

/-- States that do not belong to some fields leave these fields as they are. -/
theorem scan_keeps {P : σ → Prop} {F : φ → Prop} (pos : ℕ)
    (hkind : ∀ s, P s → ∀ b ∈ w, P (m.step s b)) (hc : P c.state)
    (hmark : ∀ s, P s → m.mark s ≠ .dead ∧ ∀ f, F f → m.mark s ≠ .field f) :
    ∃ c', m.scan pos c w = some c' ∧ P c'.state ∧ ∀ f, F f → c'.span f = c.span f := by
  induction w generalizing pos c with
  | nil => exact ⟨c, rfl, hc, fun f _ => rfl⟩
  | cons b w ih =>
    have hb := hkind c.state hc b List.mem_cons_self
    have hw : ∀ s, P s → ∀ b' ∈ w, P (m.step s b') :=
      fun s hs b' hb' => hkind s hs b' (List.mem_cons_of_mem b hb')
    have hone := hmark _ hb
    rw [scan]
    cases hm : m.mark (m.step c.state b) with
    | dead => exact absurd hm hone.1
    | skip =>
      rw [next, hm]
      exact ih (c := { c with state := m.step c.state b }) (pos + 1) hw hb
    | field g =>
      rw [next, hm]
      have hstate : (c.extend (m.step c.state b) g pos).state = m.step c.state b := by
        unfold Scan.extend
        split <;> rfl
      obtain ⟨c', hscan, hP, hspan⟩ :=
        ih (c := c.extend (m.step c.state b) g pos) (pos + 1) hw (by rw [hstate]; exact hb)
      refine ⟨c', hscan, hP, fun f hf => ?_⟩
      have hne : f ≠ g := by
        intro heq
        exact hone.2 f hf (by rw [hm, heq])
      rw [hspan f hf]
      unfold Scan.extend
      split <;> exact Function.update_of_ne hne _ _

end Machine

end SrsChatRoom.FieldScan
