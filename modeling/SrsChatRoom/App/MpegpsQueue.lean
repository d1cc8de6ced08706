import SrsChatRoom.Lib.SortedMap
import SrsChatRoom.Lib.System

/-!
# The reorder queue of MPEG-PS (`SrsMpegpsQueue`, `srs_app_gb28181.cpp`)

The messages wait in a map from their timestamps. A message whose timestamp is taken moves on by
one, ten times at most, and is then put into the map whatever is there: so the queue loses nothing
exactly as long as one of these eleven timestamps is free (`loses_nothing_iff`).

The key of a message in the map is the value of its timestamp, a 64-bit integer that wraps.
-/

namespace SrsChatRoom.App.MpegpsQueue

open SrsChatRoom.System

variable {α : Type*}

/-- What `is_audio()` and `is_video()` tell of a message. -/
inductive Kind
  | audio
  | video
  | other
deriving DecidableEq, Repr

/-- `SrsSharedPtrMessage` -/
structure Message (α : Type*) where
  kind : Kind
  timestamp : Int64
  payload : α
deriving DecidableEq, Repr

/-- What stays of a message when its timestamp is adjusted. -/
def Message.content (msg : Message α) : Kind × α := (msg.kind, msg.payload)

/-- `SrsMpegpsQueue` -/
structure SrsMpegpsQueue (α : Type*) where
  nbAudios : ℤ
  nbVideos : ℤ
  msgs : SortedMap ℤ (Message α)

namespace SrsMpegpsQueue

/-- `SrsMpegpsQueue()` -/
def new : SrsMpegpsQueue α := ⟨0, 0, .empty⟩

/-- The loop of `push`: the timestamp behind at most `tries` steps. Its branch for `i >= 100` is
not reached. -/
def adjust (q : SrsMpegpsQueue α) : ℕ → Int64 → Int64
  | 0, timestamp => timestamp
  | tries + 1, timestamp =>
    if (q.msgs.get? timestamp.toInt).isNone then timestamp else q.adjust tries (timestamp + 1)

/-- `push(msg)` -/
def push (q : SrsMpegpsQueue α) (msg : Message α) : SrsMpegpsQueue α :=
  let msg := { msg with timestamp := q.adjust 10 msg.timestamp }
  { nbAudios := if msg.kind = .audio then q.nbAudios + 1 else q.nbAudios
    nbVideos := if msg.kind = .video then q.nbVideos + 1 else q.nbVideos
    msgs := q.msgs.assign msg.timestamp.toInt msg }

/-- `av_ok || av_overflow` -/
def ready (q : SrsMpegpsQueue α) : Bool :=
  (2 ≤ q.nbVideos ∧ 2 ≤ q.nbAudios) ∨ (100 < q.nbVideos ∨ 300 < q.nbAudios)

/-- `dequeue()`: the message, or `NULL`, and the queue behind it. There is no result when the first
message of an empty map is used. -/
def dequeue (q : SrsMpegpsQueue α) : Option (Option (Message α) × SrsMpegpsQueue α) :=
  if q.ready then
    q.msgs.popFirst.map fun (e, msgs) =>
      (some e.2,
        { nbAudios := if e.2.kind = .audio then q.nbAudios - 1 else q.nbAudios
          nbVideos := if e.2.kind = .video then q.nbVideos - 1 else q.nbVideos
          msgs := msgs })
  else some (none, q)

/-- The messages in the queue. -/
def held (q : SrsMpegpsQueue α) : List (Message α) := q.msgs.values

/-- The number of the messages of a kind. -/
def count (q : SrsMpegpsQueue α) (kind : Kind) : ℕ := q.held.countP fun msg => msg.kind = kind

end SrsMpegpsQueue

/-! ## Runs -/

/-- The queue and what has happened to it: what was pushed and what was dequeued, the timestamps
that were dequeued since the last push, and whether an empty map was used. -/
structure World (α : Type*) where
  queue : SrsMpegpsQueue α
  pushed : List (Message α)
  dequeued : List (Message α)
  batch : List Int64
  crashed : Bool

def start : World α := ⟨.new, [], [], [], false⟩

inductive Action (α : Type*)
  | push (msg : Message α)
  | dequeue

def step (w : World α) : Action α → Option (World α)
  | .push msg =>
    if w.crashed then none
    else some { w with queue := w.queue.push msg, pushed := w.pushed ++ [msg], batch := [] }
  | .dequeue =>
    if w.crashed then none
    else match w.queue.dequeue with
      | none => some { w with crashed := true }
      | some (none, queue) => some { w with queue := queue }
      | some (some msg, queue) =>
        some { w with
          queue := queue
          dequeued := w.dequeued ++ [msg]
          batch := w.batch ++ [msg.timestamp] }

/-- Nothing is lost. -/
structure Good (w : World α) : Prop where
  audios : w.queue.nbAudios = w.queue.count .audio
  videos : w.queue.nbVideos = w.queue.count .video
  kept : ((w.dequeued ++ w.queue.held).map Message.content).Perm (w.pushed.map Message.content)
  running : w.crashed = false
  increasing : w.batch.Pairwise fun a b => a.toInt < b.toInt

/-- The timestamp of the message, or one of the ten behind it, is free. -/
def HasRoom (q : SrsMpegpsQueue α) (timestamp : Int64) : Prop :=
  ∃ i ≤ 10, ∀ e ∈ q.msgs.entries, e.1 ≠ (timestamp + Int64.ofNat i).toInt

/-- A message is pushed where there is room for it. -/
def FindsRoom (w : World α) : Action α → Prop
  | .push msg => HasRoom w.queue msg.timestamp
  | .dequeue => True

/-! ## Push -/

theorem adjust_free_iff (q : SrsMpegpsQueue α) (tries : ℕ) (timestamp : Int64) :
    q.msgs.get? (q.adjust tries timestamp).toInt = none ↔
      ∃ i ≤ tries, ∀ e ∈ q.msgs.entries, e.1 ≠ (timestamp + Int64.ofNat i).toInt := by
  have hzero : ∀ t : Int64, t + Int64.ofNat 0 = t := fun t => Int64.add_zero t
  induction tries generalizing timestamp with
  | zero =>
    rw [SrsMpegpsQueue.adjust, SortedMap.get?_eq_none_iff]
    constructor
    · intro h
      apply Exists.intro 0
      rw [hzero]
      exact ⟨Nat.le_refl 0, h⟩
    · intro h
      obtain ⟨i, hi, hfree⟩ := h
      rw [Nat.le_zero.mp hi, hzero] at hfree
      exact hfree
  | succ tries ih =>
    rw [SrsMpegpsQueue.adjust]
    by_cases hfree : (q.msgs.get? timestamp.toInt).isNone = true
    · rw [if_pos hfree]
      have hnone : q.msgs.get? timestamp.toInt = none := Option.isNone_iff_eq_none.mp hfree
      apply iff_of_true hnone
      apply Exists.intro 0
      rw [hzero]
      exact ⟨Nat.zero_le _, SortedMap.get?_eq_none_iff.mp hnone⟩
    · rw [if_neg hfree]
      have hnext : ∀ i : ℕ, timestamp + 1 + Int64.ofNat i = timestamp + Int64.ofNat (i + 1) := by
        intro i
        rw [Nat.add_comm i 1, Int64.ofNat_add, ← Int64.add_assoc]
        rfl
      apply (ih (timestamp + 1)).trans
      constructor
      · intro h
        obtain ⟨i, hi, hroom⟩ := h
        rw [hnext] at hroom
        exact ⟨i + 1, Nat.succ_le_succ hi, hroom⟩
      · intro h
        obtain ⟨i, hi, hroom⟩ := h
        cases i with
        | zero =>
          rw [hzero] at hroom
          rw [SortedMap.get?_eq_none_iff.mpr hroom] at hfree
          exact absurd rfl hfree
        | succ i =>
          apply Exists.intro i
          rw [hnext]
          exact ⟨Nat.le_of_succ_le_succ hi, hroom⟩

/-- The message in the queue. -/
def adjusted (q : SrsMpegpsQueue α) (msg : Message α) : Message α :=
  { msg with timestamp := q.adjust 10 msg.timestamp }

variable {msg : Message α} {q : SrsMpegpsQueue α}

theorem held_push_perm (h : HasRoom q msg.timestamp) :
    (q.push msg).held.Perm (adjusted q msg :: q.held) := by
  have hfree := (adjust_free_iff q 10 msg.timestamp).mpr h
  exact (SortedMap.assign_perm (adjusted q msg) hfree).map Prod.snd

theorem length_held_push
    (h : ¬HasRoom q msg.timestamp) : (q.push msg).held.length = q.held.length := by
  have htaken : q.msgs.get? (q.adjust 10 msg.timestamp).toInt ≠ none := by
    intro hfree
    exact h ((adjust_free_iff q 10 msg.timestamp).mp hfree)
  obtain ⟨other, hother⟩ := Option.ne_none_iff_exists'.mp htaken
  unfold SrsMpegpsQueue.held SortedMap.values
  rw [List.length_map, List.length_map]
  exact SortedMap.length_assign_of_taken hother

theorem count_push (h : HasRoom q msg.timestamp)
    (kind : Kind) : (q.push msg).count kind = q.count kind + if msg.kind = kind then 1 else 0 := by
  unfold SrsMpegpsQueue.count
  rw [(held_push_perm h).countP_eq, List.countP_cons]
  show _ + (if decide (msg.kind = kind) = true then 1 else 0) = _
  congr 1
  by_cases hkind : msg.kind = kind
  · rw [if_pos hkind, if_pos (decide_eq_true hkind)]
  · rw [if_neg hkind, if_neg (by rw [decide_eq_true_eq]; exact hkind)]

/-! ## The invariant -/

/-- Nothing is lost, each message is under its timestamp, and those that wait are behind those of
the batch. -/
structure Inv (w : World α) : Prop where
  good : Good w
  keyed : ∀ e ∈ w.queue.msgs.entries, e.1 = e.2.timestamp.toInt
  ahead : ∀ t ∈ w.batch, ∀ e ∈ w.queue.msgs.entries, t.toInt < e.1

theorem inv_start : Inv (start : World α) := by
  constructor
  · exact ⟨rfl, rfl, List.Perm.nil, rfl, List.Pairwise.nil⟩
  · exact fun e he => absurd he List.not_mem_nil
  · exact fun t ht => absurd ht List.not_mem_nil

variable {w : World α}

theorem Inv.push (h : Inv w) (hroom : HasRoom w.queue msg.timestamp) :
    Inv { w with queue := w.queue.push msg, pushed := w.pushed ++ [msg], batch := [] } := by
  constructor
  · constructor
    · show (if msg.kind = .audio then _ else _) = (((w.queue.push msg).count .audio : ℕ) : ℤ)
      rw [count_push hroom, h.good.audios]
      by_cases hkind : msg.kind = .audio
      · rw [if_pos hkind, if_pos hkind]
        rfl
      · rw [if_neg hkind, if_neg hkind]
        rfl
    · show (if msg.kind = .video then _ else _) = (((w.queue.push msg).count .video : ℕ) : ℤ)
      rw [count_push hroom, h.good.videos]
      by_cases hkind : msg.kind = .video
      · rw [if_pos hkind, if_pos hkind]
        rfl
      · rw [if_neg hkind, if_neg hkind]
        rfl
    · show ((w.dequeued ++ (w.queue.push msg).held).map Message.content).Perm
        ((w.pushed ++ [msg]).map Message.content)
      have hpush := ((held_push_perm hroom).append_left w.dequeued).map Message.content
      apply hpush.trans
      have hmiddle : (w.dequeued ++ adjusted w.queue msg :: w.queue.held).Perm
          (adjusted w.queue msg :: (w.dequeued ++ w.queue.held)) := List.perm_middle
      apply (hmiddle.map Message.content).trans
      have hcontent : (adjusted w.queue msg).content = msg.content := rfl
      rw [List.map_cons, hcontent, List.map_append]
      rw [← List.map_append]
      apply (h.good.kept.cons msg.content).trans
      rw [List.map_append]
      exact (List.perm_append_singleton msg.content _).symm
    · exact h.good.running
    · exact List.Pairwise.nil
  · intro e he
    cases SortedMap.mem_assign.mp he with
    | inl heq => rw [heq]
    | inr hmem => exact h.keyed e hmem.1
  · exact fun t ht => absurd ht List.not_mem_nil

/-- A message that is put in the place of another makes one of them disappear. -/
theorem not_good_push (h : Good w) (hroom : ¬HasRoom w.queue msg.timestamp) :
    ¬Good { w with queue := w.queue.push msg, pushed := w.pushed ++ [msg], batch := [] } := by
  intro hgood
  have hbefore := h.kept.length_eq
  have hafter : ((w.dequeued ++ (w.queue.push msg).held).map Message.content).length =
      ((w.pushed ++ [msg]).map Message.content).length := hgood.kept.length_eq
  rw [List.length_map, List.length_map, List.length_append] at hbefore
  rw [List.length_map, List.length_map, List.length_append, List.length_append,
    length_held_push hroom, hbefore, List.length_singleton] at hafter
  omega

/-- When messages are ready, there is one. -/
theorem popFirst_ne_none (h : Good w) (hready : w.queue.ready = true) :
    w.queue.msgs.popFirst ≠ none := by
  intro hnone
  have hnil : w.queue.held = [] := by
    unfold SrsMpegpsQueue.held SortedMap.values
    rw [SortedMap.popFirst_eq_none_iff.mp hnone]
    rfl
  have haudios := h.audios
  have hvideos := h.videos
  unfold SrsMpegpsQueue.count at haudios hvideos
  rw [hnil, List.countP_nil] at haudios hvideos
  have hready : (2 ≤ w.queue.nbVideos ∧ 2 ≤ w.queue.nbAudios) ∨
      (100 < w.queue.nbVideos ∨ 300 < w.queue.nbAudios) := of_decide_eq_true hready
  omega

theorem Inv.popped (h : Inv w) {e : ℤ × Message α} {msgs : SortedMap ℤ (Message α)}
    (hfirst : w.queue.msgs.popFirst = some (e, msgs)) :
    Inv { w with
      queue :=
        { nbAudios := if e.2.kind = .audio then w.queue.nbAudios - 1 else w.queue.nbAudios
          nbVideos := if e.2.kind = .video then w.queue.nbVideos - 1 else w.queue.nbVideos
          msgs := msgs }
      dequeued := w.dequeued ++ [e.2]
      batch := w.batch ++ [e.2.timestamp] } := by
  have hentries := SortedMap.entries_of_popFirst hfirst
  have hheld : w.queue.held = e.2 :: msgs.values := by
    unfold SrsMpegpsQueue.held SortedMap.values
    rw [hentries]
    rfl
  have hcount : ∀ kind, w.queue.count kind =
      msgs.values.countP (fun msg => msg.kind = kind) + if e.2.kind = kind then 1 else 0 := by
    intro kind
    unfold SrsMpegpsQueue.count
    rw [hheld, List.countP_cons]
    congr 1
    by_cases hkind : e.2.kind = kind
    · rw [if_pos hkind, if_pos (decide_eq_true hkind)]
    · rw [if_neg hkind, if_neg (by rw [decide_eq_true_eq]; exact hkind)]
  have hmem : e ∈ w.queue.msgs.entries := by
    rw [hentries]
    exact List.mem_cons_self
  have hkey := h.keyed e hmem
  constructor
  · constructor
    · show (if e.2.kind = .audio then _ else _) =
        ((msgs.values.countP (fun msg => msg.kind = .audio) : ℕ) : ℤ)
      rw [h.good.audios, hcount]
      by_cases hkind : e.2.kind = .audio
      · rw [if_pos hkind, if_pos hkind]
        omega
      · rw [if_neg hkind, if_neg hkind]
        omega
    · show (if e.2.kind = .video then _ else _) =
        ((msgs.values.countP (fun msg => msg.kind = .video) : ℕ) : ℤ)
      rw [h.good.videos, hcount]
      by_cases hkind : e.2.kind = .video
      · rw [if_pos hkind, if_pos hkind]
        omega
      · rw [if_neg hkind, if_neg hkind]
        omega
    · show ((w.dequeued ++ [e.2] ++ msgs.values).map Message.content).Perm _
      rw [List.append_assoc, List.singleton_append, ← hheld]
      exact h.good.kept
    · exact h.good.running
    · show (w.batch ++ [e.2.timestamp]).Pairwise _
      apply List.pairwise_append.mpr
      apply And.intro h.good.increasing
      apply And.intro (List.pairwise_singleton _ _)
      intro t ht t' ht'
      rw [List.mem_singleton.mp ht', ← hkey]
      exact h.ahead t ht e hmem
  · intro e' he'
    apply h.keyed
    rw [hentries]
    exact List.mem_cons_of_mem e he'
  · intro t ht e' he'
    cases List.mem_append.mp ht with
    | inl hbatch =>
      apply h.ahead t hbatch
      rw [hentries]
      exact List.mem_cons_of_mem e he'
    | inr hlast =>
      rw [List.mem_singleton.mp hlast, ← hkey]
      exact SortedMap.lt_of_popFirst hfirst e' he'

theorem step_push (h : w.crashed = false) (msg : Message α) :
    step w (.push msg) =
      some { w with queue := w.queue.push msg, pushed := w.pushed ++ [msg], batch := [] } := by
  apply if_neg
  rw [h]
  exact Bool.false_ne_true

theorem Inv.dequeue {w' : World α} (h : Inv w) (hstep : step w .dequeue = some w') : Inv w' := by
  unfold step at hstep
  dsimp only at hstep
  rw [if_neg (by rw [h.good.running]; exact Bool.false_ne_true)] at hstep
  by_cases hready : w.queue.ready = true
  · obtain ⟨⟨e, msgs⟩, hfirst⟩ := Option.ne_none_iff_exists'.mp (popFirst_ne_none h.good hready)
    rw [SrsMpegpsQueue.dequeue, if_pos hready, hfirst] at hstep
    cases hstep
    exact h.popped hfirst
  · rw [SrsMpegpsQueue.dequeue, if_neg hready] at hstep
    cases hstep
    exact h

/-- The queue loses nothing exactly when each message finds room. -/
theorem loses_nothing_iff (as : List (Action α)) :
    Always step Good start as ↔ Guarded step FindsRoom start as := by
  apply always_iff_guarded (fun w (h : Inv w) => h.good)
  · intro w a w' h hroom hstep
    cases a with
    | push msg =>
      rw [step_push h.good.running] at hstep
      cases hstep
      exact h.push hroom
    | dequeue => exact h.dequeue hstep
  · intro w a w' h hroom hstep
    cases a with
    | push msg =>
      rw [step_push h.good.running] at hstep
      cases hstep
      exact not_good_push h.good hroom
    | dequeue => exact absurd trivial hroom
  · exact inv_start

/-- Twelve audio messages with the same timestamp. -/
def twelveAudios : List (Action Unit) := List.replicate 12 (.push ⟨.audio, 0, ()⟩)

/-- The last of them takes the place of the one before: eleven messages are counted as twelve. -/
theorem twelve_audios_lose_one :
    (exec step anyStep start twelveAudios).map
        (fun w => (w.pushed.length, w.queue.nbAudios, w.queue.count .audio)) = some (12, 12, 11) ∧
      ¬Always step Good start twelveAudios := by
  have hrun : (exec step anyStep start twelveAudios).map
      (fun w => (w.pushed.length, w.queue.nbAudios, w.queue.count .audio)) = some (12, 12, 11) := by
    decide +kernel
  apply And.intro hrun
  intro h
  obtain ⟨w, hw, hcounts⟩ := Option.map_eq_some_iff.mp hrun
  have haudios := (h.last hw).audios
  have hnb : w.queue.nbAudios = 12 := (Prod.mk.inj (Prod.mk.inj hcounts).2).1
  have hcount : w.queue.count .audio = 11 := (Prod.mk.inj (Prod.mk.inj hcounts).2).2
  rw [hnb, hcount] at haudios
  exact absurd haudios (by decide)

end SrsChatRoom.App.MpegpsQueue
