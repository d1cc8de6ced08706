import SrsChatRoom.Lib.Multimap

/-!
# The mix queue (`SrsMixQueue`, `srs_app_source.cpp`)

Audio and video, each in the order of its timestamps, are merged into one such order. A message
leaves the queue when both kinds wait, since then nothing earlier can come, or when ten messages of
a kind wait and none of the other, in the hope that it does not come any more (`exact_merge`).
-/

namespace SrsChatRoom.App.MixQueue

variable {α : Type*}

/-- `SRS_MIX_CORRECT_PURE_AV` -/
def srsMixCorrectPureAv : ℤ := 10

/-- `SrsSharedPtrMessage`: `is_video()`, the timestamp and the rest of it. -/
structure Message (α : Type*) where
  isVideo : Bool
  timestamp : ℤ
  payload : α
deriving DecidableEq, Repr

/-- `SrsMixQueue`: the messages by their timestamps, and the counters beside them. -/
structure SrsMixQueue (α : Type*) where
  nbVideos : ℤ
  nbAudios : ℤ
  msgs : Multimap ℤ (Message α)

namespace SrsMixQueue

/-- `SrsMixQueue()` -/
def new : SrsMixQueue α := ⟨0, 0, .empty⟩

/-- `push(msg)` -/
def push (q : SrsMixQueue α) (msg : Message α) : SrsMixQueue α where
  nbVideos := if msg.isVideo then q.nbVideos + 1 else q.nbVideos
  nbAudios := if msg.isVideo then q.nbAudios else q.nbAudios + 1
  msgs := q.msgs.insert msg.timestamp msg

/-- `mix_ok` -/
def mixOk (q : SrsMixQueue α) : Bool :=
  (srsMixCorrectPureAv ≤ q.nbVideos ∧ q.nbAudios = 0) ∨
    (srsMixCorrectPureAv ≤ q.nbAudios ∧ q.nbVideos = 0) ∨ (1 ≤ q.nbVideos ∧ 1 ≤ q.nbAudios)

/-- `pop()`: the message, or `NULL`, and the queue behind it. There is no result when the first
message of an empty map is used. -/
def pop (q : SrsMixQueue α) : Option (Option (Message α) × SrsMixQueue α) :=
  if q.mixOk then
    q.msgs.popFirst.map fun (e, msgs) =>
      (some e.2,
        { nbVideos := if e.2.isVideo then q.nbVideos - 1 else q.nbVideos
          nbAudios := if e.2.isVideo then q.nbAudios else q.nbAudios - 1
          msgs := msgs })
  else some (none, q)

/-- Push the messages, with one pop after each: what was popped, and the queue at the end. -/
def run : SrsMixQueue α → List (Message α) → Option (List (Message α) × SrsMixQueue α)
  | q, [] => some ([], q)
  | q, msg :: rest =>
    match (q.push msg).pop with
    | none => none
    | some (popped, q') => (run q' rest).map fun (out, last) => (popped.toList ++ out, last)

/-- The messages in the queue. -/
def held (q : SrsMixQueue α) : List (Message α) := q.msgs.entries.map Prod.snd

end SrsMixQueue

open SrsMixQueue

/-- The messages of a kind: the videos or the others. -/
def ofKind (video : Bool) (msgs : List (Message α)) : List (Message α) :=
  msgs.filter fun msg => msg.isVideo == video

/-- Each timestamp is at least the one before. -/
def InOrder (msgs : List (Message α)) : Prop := msgs.Pairwise fun a b => a.timestamp ≤ b.timestamp

/-- An interleaving of audio and video messages, where each kind is in order. -/
structure Interleaving (α : Type*) where
  msgs : List (Message α)
  inOrder : ∀ video, InOrder (ofKind video msgs)

/-- The counters are the numbers of the messages. -/
structure CountsRight (q : SrsMixQueue α) : Prop where
  videos : q.nbVideos = (ofKind true q.held).length
  audios : q.nbAudios = (ofKind false q.held).length

/-- As many messages of a kind wait as pass for a pure stream, and none of the other. -/
def Alone (q : SrsMixQueue α) : Prop :=
  ∃ video, srsMixCorrectPureAv ≤ (ofKind video q.held).length ∧ ofKind (!video) q.held = []

/-- A stream never passes for a pure one. -/
def NeverAlone : SrsMixQueue α → List (Message α) → Prop
  | _, [] => True
  | q, msg :: rest =>
    ¬Alone (q.push msg) ∧ ∀ popped q', (q.push msg).pop = some (popped, q') → NeverAlone q' rest

/-- What was popped and what is in the queue is a stable merge of what was pushed. -/
structure ExactMerge (msgs out : List (Message α)) (q : SrsMixQueue α) : Prop where
  counts : CountsRight q
  countsPushed : ∀ msg, CountsRight (q.push msg)
  once : (out ++ q.held).Perm msgs
  kinds : ∀ video, ofKind video out ++ ofKind video q.held = ofKind video msgs
  merged : NeverAlone new msgs → InOrder out

/-! ## Kinds -/

theorem ofKind_append (video : Bool) (a b : List (Message α)) :
    ofKind video (a ++ b) = ofKind video a ++ ofKind video b := List.filter_append _ _

theorem ofKind_cons (video : Bool) (msg : Message α) (msgs : List (Message α)) :
    ofKind video (msg :: msgs) = (if msg.isVideo == video then [msg] else []) ++
      ofKind video msgs := by
  unfold ofKind
  rw [List.filter_cons]
  split
  · rfl
  · rfl

variable {msg : Message α}

theorem mem_ofKind {video : Bool} {msgs : List (Message α)} :
    msg ∈ ofKind video msgs ↔ msg ∈ msgs ∧ msg.isVideo = video := by
  unfold ofKind
  rw [List.mem_filter, beq_iff_eq]

theorem ofKind_held (video : Bool) (q : SrsMixQueue α) :
    ofKind video q.held = (q.msgs.entries.filter fun e => e.2.isVideo == video).map Prod.snd := by
  unfold ofKind held
  rw [List.filter_map]
  rfl

theorem length_eq_kinds (msgs : List (Message α)) :
    msgs.length = (ofKind true msgs).length + (ofKind false msgs).length := by
  induction msgs with
  | nil => rfl
  | cons msg rest ih =>
    rw [ofKind_cons, ofKind_cons, List.length_append, List.length_append, List.length_cons, ih]
    cases msg.isVideo with
    | true =>
      show _ = 1 + _ + (0 + _)
      omega
    | false =>
      show _ = 0 + _ + (1 + _)
      omega

/-! ## Push and pop -/

/-- Each message is under its timestamp, and the counters are right. -/
structure QueueOk (q : SrsMixQueue α) : Prop where
  keyed : ∀ e ∈ q.msgs.entries, e.1 = e.2.timestamp
  counts : CountsRight q

theorem queueOk_new : QueueOk (new : SrsMixQueue α) :=
  ⟨fun _ he => absurd he List.not_mem_nil, rfl, rfl⟩

theorem held_push_perm (q : SrsMixQueue α) (msg : Message α) :
    (q.push msg).held.Perm (msg :: q.held) :=
  (Multimap.insert_perm q.msgs msg.timestamp msg).map Prod.snd

theorem length_ofKind_push (video : Bool) (q : SrsMixQueue α) (msg : Message α) :
    (ofKind video (q.push msg).held).length =
      (if msg.isVideo == video then 1 else 0) + (ofKind video q.held).length := by
  have hperm : (ofKind video (q.push msg).held).Perm (ofKind video (msg :: q.held)) :=
    (held_push_perm q msg).filter _
  rw [hperm.length_eq, ofKind_cons, List.length_append]
  split
  · rfl
  · rfl

variable {q : SrsMixQueue α}

theorem CountsRight.push (h : CountsRight q) (msg : Message α) : CountsRight (q.push msg) := by
  constructor
  · rw [length_ofKind_push]
    show (if msg.isVideo then q.nbVideos + 1 else q.nbVideos) = _
    rw [h.videos]
    cases msg.isVideo with
    | true =>
      show _ = (((1 : ℕ) + _ : ℕ) : ℤ)
      push_cast
      exact add_comm _ _
    | false =>
      show _ = (((0 : ℕ) + _ : ℕ) : ℤ)
      rw [Nat.zero_add]
      rfl
  · rw [length_ofKind_push]
    show (if msg.isVideo then q.nbAudios else q.nbAudios + 1) = _
    rw [h.audios]
    cases msg.isVideo with
    | true =>
      show _ = (((0 : ℕ) + _ : ℕ) : ℤ)
      rw [Nat.zero_add]
      rfl
    | false =>
      show _ = (((1 : ℕ) + _ : ℕ) : ℤ)
      push_cast
      exact add_comm _ _

theorem QueueOk.push (h : QueueOk q) (msg : Message α) : QueueOk (q.push msg) := by
  apply QueueOk.mk _ (h.counts.push msg)
  intro e he
  cases Multimap.mem_insert.mp he with
  | inl heq => rw [heq]
  | inr hmem => exact h.keyed e hmem

/-- The messages of a kind that wait and that are still to come are in order. -/
def Upcoming (q : SrsMixQueue α) (rest : List (Message α)) : Prop :=
  ∀ video, InOrder (ofKind video q.held ++ ofKind video rest)

variable {rest : List (Message α)}

/-- A message goes behind those of its kind. -/
theorem ofKind_push (hok : QueueOk q) (hupcoming : Upcoming q (msg :: rest)) (video : Bool) :
    ofKind video (q.push msg).held ++ ofKind video rest =
      ofKind video q.held ++ ofKind video (msg :: rest) := by
  have hheld : (q.push msg).msgs = q.msgs.insert msg.timestamp msg := rfl
  rw [ofKind_held, hheld, ofKind_cons]
  by_cases hkind : (msg.isVideo == video) = true
  · have hlast : ∀ e ∈ q.msgs.entries, (e.2.isVideo == video) = true → e.1 ≤ msg.timestamp := by
      intro e he hvideo
      have horder := hupcoming video
      rw [ofKind_cons, if_pos hkind] at horder
      have hmem : e.2 ∈ ofKind video q.held :=
        mem_ofKind.mpr ⟨List.mem_map_of_mem he, beq_iff_eq.mp hvideo⟩
      rw [hok.keyed e he]
      exact (List.pairwise_append.mp horder).2.2 e.2 hmem msg List.mem_cons_self
    rw [Multimap.filter_insert_of_last hkind hlast, if_pos hkind, List.map_append, ← ofKind_held,
      List.append_assoc]
    rfl
  · rw [Multimap.filter_insert_of_neg hkind, if_neg hkind, ← ofKind_held]
    rfl

theorem Upcoming.push (hok : QueueOk q)
    (h : Upcoming q (msg :: rest)) : Upcoming (q.push msg) rest := by
  intro video
  rw [ofKind_push hok h]
  exact h video

/-- When messages may leave, there is one. -/
theorem held_ne_nil_of_mixOk (h : CountsRight q) (hmix : q.mixOk = true) : q.held ≠ [] := by
  intro hnil
  have hvideos := h.videos
  have haudios := h.audios
  rw [hnil] at hvideos haudios
  have hmix : (10 ≤ q.nbVideos ∧ q.nbAudios = 0) ∨ (10 ≤ q.nbAudios ∧ q.nbVideos = 0) ∨
      (1 ≤ q.nbVideos ∧ 1 ≤ q.nbAudios) := of_decide_eq_true hmix
  have hzero : ((ofKind true ([] : List (Message α))).length : ℤ) = 0 := rfl
  have hzero' : ((ofKind false ([] : List (Message α))).length : ℤ) = 0 := rfl
  omega

/-- What a pop does when messages may leave. -/
structure Popped (q : SrsMixQueue α) (msg : Message α) (q' : SrsMixQueue α) : Prop where
  held : q.held = msg :: q'.held
  ok : QueueOk q'
  least : ∀ msg' ∈ q.held, msg.timestamp ≤ msg'.timestamp

theorem exists_popped (hok : QueueOk q) (hmix : q.mixOk = true) :
    ∃ msg q', q.pop = some (some msg, q') ∧ Popped q msg q' := by
  have hne : q.msgs.popFirst ≠ none := by
    intro hnone
    apply held_ne_nil_of_mixOk hok.counts hmix
    unfold SrsMixQueue.held
    rw [Multimap.popFirst_eq_none_iff.mp hnone]
    rfl
  obtain ⟨⟨e, msgs⟩, hfirst⟩ := Option.ne_none_iff_exists'.mp hne
  have hentries := Multimap.entries_of_popFirst hfirst
  have hcounts := hok.counts
  let q' : SrsMixQueue α :=
    { nbVideos := if e.2.isVideo then q.nbVideos - 1 else q.nbVideos
      nbAudios := if e.2.isVideo then q.nbAudios else q.nbAudios - 1
      msgs := msgs }
  have hheld : q.held = e.2 :: q'.held := by
    unfold SrsMixQueue.held
    rw [hentries]
    rfl
  have hpop : q.pop = some (some e.2, q') := by
    unfold pop
    rw [if_pos hmix, hfirst]
    rfl
  apply Exists.intro e.2
  apply Exists.intro q'
  apply And.intro hpop
  apply Popped.mk hheld
  · constructor
    · intro e' he'
      apply hok.keyed
      rw [hentries]
      exact List.mem_cons_of_mem e he'
    · have hvideos := hcounts.videos
      have haudios := hcounts.audios
      rw [hheld, ofKind_cons, List.length_append] at hvideos haudios
      constructor
      · show (if e.2.isVideo then q.nbVideos - 1 else q.nbVideos) = _
        cases hvideo : e.2.isVideo with
        | true =>
          rw [hvideo] at hvideos
          have hone : q.nbVideos = ((1 + (ofKind true q'.held).length : ℕ) : ℤ) := hvideos
          rw [if_pos rfl]
          omega
        | false =>
          rw [hvideo] at hvideos
          have hone : q.nbVideos = ((0 + (ofKind true q'.held).length : ℕ) : ℤ) := hvideos
          rw [if_neg Bool.false_ne_true]
          omega
      · show (if e.2.isVideo then q.nbAudios else q.nbAudios - 1) = _
        cases hvideo : e.2.isVideo with
        | true =>
          rw [hvideo] at haudios
          have hone : q.nbAudios = ((0 + (ofKind false q'.held).length : ℕ) : ℤ) := haudios
          rw [if_pos rfl]
          omega
        | false =>
          rw [hvideo] at haudios
          have hone : q.nbAudios = ((1 + (ofKind false q'.held).length : ℕ) : ℤ) := haudios
          rw [if_neg Bool.false_ne_true]
          omega
  · intro msg' hmsg'
    obtain ⟨e', he', rfl⟩ := List.mem_map.mp hmsg'
    have hle := Multimap.le_of_popFirst hfirst e' he'
    rw [hok.keyed e' he'] at hle
    have hkey : e.1 = e.2.timestamp := hok.keyed e (by rw [hentries]; exact List.mem_cons_self)
    rwa [hkey] at hle

theorem pop_of_not_mixOk (hmix : ¬q.mixOk = true) :
    q.pop = some (none, q) := if_neg hmix

/-! ## Both kinds -/

/-- When messages may leave a queue in which neither kind is alone, both kinds are there. -/
theorem exists_ofKind (h : CountsRight q) (hmix : q.mixOk = true)
    (halone : ¬Alone q) (video : Bool) : ∃ msg, msg ∈ ofKind video q.held := by
  apply List.exists_mem_of_ne_nil
  intro hnil
  apply halone
  apply Exists.intro (!video)
  rw [Bool.not_not]
  apply And.intro _ hnil
  have hvideos := h.videos
  have haudios := h.audios
  have hmix : (10 ≤ q.nbVideos ∧ q.nbAudios = 0) ∨ (10 ≤ q.nbAudios ∧ q.nbVideos = 0) ∨
      (1 ≤ q.nbVideos ∧ 1 ≤ q.nbAudios) := of_decide_eq_true hmix
  show (10 : ℤ) ≤ _
  cases video with
  | true =>
    rw [hnil] at hvideos
    have hzero : q.nbVideos = 0 := hvideos
    show (10 : ℤ) ≤ ((ofKind false q.held).length : ℕ)
    omega
  | false =>
    rw [hnil] at haudios
    have hzero : q.nbAudios = 0 := haudios
    show (10 : ℤ) ≤ ((ofKind true q.held).length : ℕ)
    omega

/-- The message that leaves is not behind any that is still to come. -/
theorem least_of_upcoming (hleast : ∀ msg' ∈ q.held, msg.timestamp ≤ msg'.timestamp)
    (hboth : ∀ video, ∃ msg', msg' ∈ ofKind video q.held) (hupcoming : Upcoming q rest) :
    ∀ next ∈ rest, msg.timestamp ≤ next.timestamp := by
  intro next hnext
  obtain ⟨msg', hmsg'⟩ := hboth next.isVideo
  have hbefore : msg'.timestamp ≤ next.timestamp :=
    (List.pairwise_append.mp (hupcoming next.isVideo)).2.2 msg' hmsg' next
      (mem_ofKind.mpr ⟨hnext, rfl⟩)
  exact (hleast msg' (mem_ofKind.mp hmsg').1).trans hbefore

theorem Upcoming.popped {q' : SrsMixQueue α}
    (h : Upcoming q rest) (hpopped : Popped q msg q') : Upcoming q' rest := by
  intro video
  have horder := h video
  rw [hpopped.held, ofKind_cons, List.append_assoc] at horder
  exact (List.pairwise_append.mp horder).2.1

/-! ## Runs -/

/-- What comes of messages that are pushed into a queue, with one pop after each. -/
structure Merges (q : SrsMixQueue α) (rest out : List (Message α)) (q' : SrsMixQueue α) :
    Prop where
  ok : QueueOk q'
  once : (out ++ q'.held).Perm (q.held ++ rest)
  kinds : ∀ video, ofKind video out ++ ofKind video q'.held =
    ofKind video q.held ++ ofKind video rest
  merged : NeverAlone q rest → InOrder out

variable {last : SrsMixQueue α} {out : List (Message α)}

theorem merges_of_not_mixOk (hok : QueueOk q) (hupcoming : Upcoming q (msg :: rest))
    (hmix : ¬(q.push msg).mixOk = true) (h : Merges (q.push msg) rest out last) :
    Merges q (msg :: rest) out last := by
  constructor
  · exact h.ok
  · apply h.once.trans
    apply ((held_push_perm q msg).append_right rest).trans
    exact List.perm_middle.symm
  · intro video
    rw [h.kinds video]
    exact ofKind_push hok hupcoming video
  · intro hnever
    exact h.merged (hnever.2 none _ (pop_of_not_mixOk hmix))

theorem merges_of_popped {q' : SrsMixQueue α} {first : Message α}
    (hok : QueueOk q) (hupcoming : Upcoming q (msg :: rest))
    (hmix : (q.push msg).mixOk = true) (hpop : (q.push msg).pop = some (some first, q'))
    (hpopped : Popped (q.push msg) first q') (h : Merges q' rest out last) :
    Merges q (msg :: rest) (first :: out) last := by
  constructor
  · exact h.ok
  · rw [List.cons_append]
    apply (h.once.cons first).trans
    rw [← List.cons_append, ← hpopped.held]
    apply ((held_push_perm q msg).append_right rest).trans
    exact List.perm_middle.symm
  · intro video
    rw [ofKind_cons, List.append_assoc, h.kinds video, ← List.append_assoc, ← ofKind_cons,
      ← hpopped.held]
    exact ofKind_push hok hupcoming video
  · intro hnever
    have hboth := exists_ofKind (hok.push msg).counts hmix hnever.1
    have hcoming := least_of_upcoming hpopped.least hboth (hupcoming.push hok)
    apply List.pairwise_cons.mpr
    apply And.intro _ (h.merged (hnever.2 _ q' hpop))
    -- what is popped later is in the queue now or still to come
    intro later hlater
    have hmem : later ∈ q'.held ++ rest := h.once.mem_iff.mp (List.mem_append_left _ hlater)
    cases List.mem_append.mp hmem with
    | inl hheld =>
      apply hpopped.least
      rw [hpopped.held]
      exact List.mem_cons_of_mem first hheld
    | inr hrest => exact hcoming later hrest

theorem run_merges (q : SrsMixQueue α) (rest : List (Message α)) (hok : QueueOk q)
    (hupcoming : Upcoming q rest) :
    ∃ out last, run q rest = some (out, last) ∧ Merges q rest out last := by
  induction rest generalizing q with
  | nil =>
    apply Exists.intro []
    apply Exists.intro q
    apply And.intro rfl
    apply Merges.mk hok
    · rw [List.nil_append, List.append_nil]
    · intro video
      rw [show ofKind video ([] : List (Message α)) = [] from rfl, List.nil_append,
        List.append_nil]
    · intro hnever
      exact List.Pairwise.nil
  | cons msg rest ih =>
    by_cases hmix : (q.push msg).mixOk = true
    · obtain ⟨first, q', hpop, hpopped⟩ := exists_popped (hok.push msg) hmix
      obtain ⟨out, last, hrun, hmerges⟩ :=
        ih q' hpopped.ok ((hupcoming.push hok).popped hpopped)
      apply Exists.intro (first :: out)
      apply Exists.intro last
      apply And.intro _ (merges_of_popped hok hupcoming hmix hpop hpopped hmerges)
      rw [run, hpop]
      show (run q' rest).map _ = _
      rw [hrun]
      rfl
    · obtain ⟨out, last, hrun, hmerges⟩ := ih (q.push msg) (hok.push msg) (hupcoming.push hok)
      apply Exists.intro out
      apply Exists.intro last
      apply And.intro _ (merges_of_not_mixOk hok hupcoming hmix hmerges)
      rw [run, pop_of_not_mixOk hmix]
      show (run (q.push msg) rest).map _ = _
      rw [hrun]
      rfl

/-- The queue merges every interleaving of audio and video. -/
theorem exact_merge (i : Interleaving α) :
    ∃ out q, run new i.msgs = some (out, q) ∧ ExactMerge i.msgs out q := by
  have hupcoming : Upcoming new i.msgs := by
    intro video
    have hnil : ofKind video (new : SrsMixQueue α).held = [] := rfl
    rw [hnil, List.nil_append]
    exact i.inOrder video
  obtain ⟨out, q, hrun, hmerges⟩ := run_merges new i.msgs queueOk_new hupcoming
  apply Exists.intro out
  apply Exists.intro q
  apply And.intro hrun
  exact ⟨hmerges.ok.counts, hmerges.ok.counts.push, hmerges.once, hmerges.kinds, hmerges.merged⟩

/-- From a queue with at most nine messages at most nine wait, whatever the timestamps are. -/
theorem run_bounded (q : SrsMixQueue α) (rest : List (Message α)) (hok : QueueOk q)
    (hfew : q.held.length ≤ 9) : ∃ out last, run q rest = some (out, last) ∧
      last.held.length ≤ 9 ∧ (out ++ last.held).Perm (q.held ++ rest) := by
  induction rest generalizing q with
  | nil => exact ⟨[], q, rfl, hfew, by rw [List.nil_append, List.append_nil]⟩
  | cons msg rest ih =>
    have hpush : ((q.push msg).held ++ rest).Perm (q.held ++ msg :: rest) :=
      ((held_push_perm q msg).append_right rest).trans List.perm_middle.symm
    have hlength := (held_push_perm q msg).length_eq
    rw [List.length_cons] at hlength
    by_cases hmix : (q.push msg).mixOk = true
    · obtain ⟨first, q', hpop, hpopped⟩ := exists_popped (hok.push msg) hmix
      rw [hpopped.held, List.cons_append] at hpush
      rw [hpopped.held, List.length_cons] at hlength
      obtain ⟨out, last, hrun, hlast, hperm⟩ := ih q' hpopped.ok (by omega)
      exact ⟨first :: out, last, by simp [run, hpop, hrun], hlast, (hperm.cons first).trans hpush⟩
    · -- fewer than ten of one kind and none of the other
      have hcounts := (hok.push msg).counts
      have hvideos := hcounts.videos
      have haudios := hcounts.audios
      have hkinds := length_eq_kinds (q.push msg).held
      have hfewer : ¬((10 ≤ (q.push msg).nbVideos ∧ (q.push msg).nbAudios = 0) ∨
          (10 ≤ (q.push msg).nbAudios ∧ (q.push msg).nbVideos = 0) ∨
          (1 ≤ (q.push msg).nbVideos ∧ 1 ≤ (q.push msg).nbAudios)) :=
        fun hready => hmix (decide_eq_true hready)
      obtain ⟨out, last, hrun, hlast, hperm⟩ := ih (q.push msg) (hok.push msg) (by omega)
      exact ⟨out, last, by simp [run, pop_of_not_mixOk hmix, hrun], hlast, hperm.trans hpush⟩

/-- Of messages in any order each comes out once or waits, and at most nine wait. -/
theorem held_at_most_nine (msgs : List (Message α)) : ∃ out last, run new msgs = some (out, last) ∧
    last.held.length ≤ 9 ∧ (out ++ last.held).Perm msgs :=
  run_bounded new msgs queueOk_new (Nat.zero_le _)

end SrsChatRoom.App.MixQueue
