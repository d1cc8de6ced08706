import SrsChatRoom.Lib.System
import SrsChatRoom.Protocol.MediaMessage

/-!
# The message queue of a player (`SrsMessageQueue`)

The queue does not look at its messages to see how long they play. It keeps two times: the end is
that of the last audio or video message enqueued, and the start is set by `enqueue`, `shrink` and
`dump_packets`, the last of which takes the time of the last message dumped, whatever message that
is. So the start can be 0 after a sequence header or metadata, and it can be older than all that
is queued.

`Run` counts the messages: each has the number it arrived with, and the run remembers those that
were dumped and every discard. `sound_iff` says in which states `enqueue` drops nothing but on a
real overflow.
-/

namespace SrsChatRoom.App

open Protocol
open List (append_assoc map_append mem_map_of_mem ne_nil_of_mem)

/-! ## The queue -/

/-- `SrsSharedPtrMessage*`, told apart by the number of the message in the order of arrival. -/
structure Queued where
  number : ℕ
  msg : SharedPtrMessage

/-- `SrsMessageQueue`; the times are in microseconds. -/
structure MessageQueue where
  maxQueueSize : ℤ
  avStartTime : ℤ
  avEndTime : ℤ
  msgs : List Queued

namespace MessageQueue

variable (h265 : Bool)

/-- `SrsMessageQueue()`, and `set_queue_size(queue_size)`. -/
def new (queueSize : ℤ) : MessageQueue := ⟨queueSize, -1, -1, []⟩

/-- A message of audio or video with a time: `msg->is_av() && msg->timestamp != 0` -/
def Timed (msg : SharedPtrMessage) : Prop := msg.isAv = true ∧ msg.timestamp ≠ 0

instance (msg : SharedPtrMessage) : Decidable (Timed msg) := inferInstanceAs (Decidable (_ ∧ _))

/-- The part of `enqueue` before the test for an overflow. -/
def push (q : MessageQueue) (x : Queued) : MessageQueue :=
  let q := { q with msgs := q.msgs ++ [x] }
  if Timed x.msg then
    { q with
      avStartTime := if q.avStartTime = -1 then x.msg.timestamp * 1000 else q.avStartTime
      avEndTime := x.msg.timestamp * 1000 }
  else q

/-- The test of `enqueue` for an overflow. -/
def Exceeds (q : MessageQueue) : Prop :=
  0 < q.maxQueueSize ∧ q.maxQueueSize < q.avEndTime - q.avStartTime

instance (q : MessageQueue) : Decidable q.Exceeds := inferInstanceAs (Decidable (_ ∧ _))

/-- The loop of `shrink`, which marks the sequence headers. -/
def markLoop : List Queued → Option Queued → Option Queued → Option Queued × Option Queued
  | [], videoSh, audioSh => (videoSh, audioSh)
  | x :: msgs, videoSh, audioSh =>
    if x.msg.isVideoSh h265 then markLoop msgs (some x) audioSh
    else if x.msg.isAudioSh then markLoop msgs videoSh (some x)
    else markLoop msgs videoSh audioSh

/-- A sequence header with the time it is given by `shrink`. -/
def retime (timestamp : ℤ) (x : Queued) : Queued :=
  { x with msg := { x.msg with timestamp := timestamp } }

/-- `shrink()` -/
def shrink (q : MessageQueue) : MessageQueue :=
  let sh := markLoop h265 q.msgs none none
  { q with
    avStartTime := q.avEndTime
    msgs := (sh.1.map (retime (q.avEndTime.tdiv 1000))).toList ++
      (sh.2.map (retime (q.avEndTime.tdiv 1000))).toList }

/-- `enqueue(msg)`. By `not_exceeds_shrink` its loop is gone through at most once. -/
def enqueue (q : MessageQueue) (x : Queued) : MessageQueue :=
  if (q.push x).Exceeds then (q.push x).shrink h265 else q.push x

/-- The messages `dump_packets` takes, and the queue after it. It asserts that the count is
positive. -/
def dumpPackets (q : MessageQueue) (maxCount : ℤ) : Option (List Queued × MessageQueue) :=
  if q.msgs = [] then some ([], q)
  else if maxCount ≤ 0 then none
  else
    let pmsgs := q.msgs.take maxCount.toNat
    some (pmsgs, { q with
      avStartTime := ((pmsgs.getLast?.map fun x => x.msg.timestamp).getD 0) * 1000
      msgs := q.msgs.drop maxCount.toNat })

/-! ## The sequence headers that `shrink` keeps -/

/-- The last message of the list with the property. -/
def latest (p : SharedPtrMessage → Bool) (msgs : List Queued) : Option Queued :=
  (msgs.filter fun x => p x.msg).getLast?

theorem mem_of_latest {p : SharedPtrMessage → Bool} {msgs : List Queued} {x : Queued}
    (h : latest p msgs = some x) : x ∈ msgs ∧ p x.msg = true := by
  have hmem : x ∈ msgs.filter fun x => p x.msg := List.mem_of_getLast? h
  exact List.mem_filter.mp hmem

theorem latest_cons (p : SharedPtrMessage → Bool) (x : Queued) (msgs : List Queued) :
    latest p (x :: msgs) = (latest p msgs).or (if p x.msg then some x else none) := by
  unfold latest
  by_cases hx : p x.msg = true
  · rw [List.filter_cons_of_pos (p := fun x : Queued => p x.msg) hx, if_pos hx, List.getLast?_cons]
    cases (msgs.filter fun x => p x.msg).getLast? <;> rfl
  · rw [List.filter_cons_of_neg (p := fun x : Queued => p x.msg) hx, if_neg hx, Option.or_none]

/-- A video sequence header is not an audio one. -/
theorem isAudioSh_of_isVideoSh {m : SharedPtrMessage} (h : m.isVideoSh h265 = true) :
    m.isAudioSh = false := by
  have hvideo : m.isVideo = true := (Bool.and_eq_true_iff.mp h).1
  simp [SharedPtrMessage.isAudioSh, SharedPtrMessage.isAudio_of_isVideo hvideo]

/-- The loop marks the latest sequence headers of either kind. -/
theorem markLoop_eq (msgs : List Queued) (videoSh audioSh : Option Queued) :
    markLoop h265 msgs videoSh audioSh =
      ((latest (SharedPtrMessage.isVideoSh h265) msgs).or videoSh,
        (latest SharedPtrMessage.isAudioSh msgs).or audioSh) := by
  induction msgs generalizing videoSh audioSh with
  | nil => rfl
  | cons x msgs ih =>
    rw [latest_cons, latest_cons]
    unfold markLoop
    by_cases hvideo : x.msg.isVideoSh h265 = true
    · have haudio := isAudioSh_of_isVideoSh h265 hvideo
      rw [if_pos hvideo, ih]
      simp [hvideo, haudio]
    by_cases haudio : x.msg.isAudioSh = true
    · rw [if_neg hvideo, if_pos haudio, ih]
      simp [hvideo, haudio]
    · rw [if_neg hvideo, if_neg haudio, ih]
      simp [hvideo, haudio]

/-- The sequence headers of the queue: the latest one of video, then the latest one of audio. -/
def headers (msgs : List Queued) : List Queued :=
  (latest (SharedPtrMessage.isVideoSh h265) msgs).toList ++
    (latest SharedPtrMessage.isAudioSh msgs).toList

theorem shrink_msgs (q : MessageQueue) :
    (q.shrink h265).msgs = (headers h265 q.msgs).map (retime (q.avEndTime.tdiv 1000)) := by
  have hmap : ∀ o : Option Queued, (o.map (retime (q.avEndTime.tdiv 1000))).toList =
      o.toList.map (retime (q.avEndTime.tdiv 1000)) := by
    intro o
    cases o <;> rfl
  simp only [shrink, markLoop_eq, Option.or_none, headers, map_append, hmap]

theorem mem_of_mem_headers {msgs : List Queued} {x : Queued} (h : x ∈ headers h265 msgs) :
    x ∈ msgs := by
  cases List.mem_append.mp h with
  | inl hvideo => exact (mem_of_latest (Option.mem_toList.mp hvideo)).1
  | inr haudio => exact (mem_of_latest (Option.mem_toList.mp haudio)).1

/-- The messages that are not kept. -/
def notKept (msgs : List Queued) : List Queued :=
  msgs.filter fun x => x.number ∉ (headers h265 msgs).map Queued.number

/-- The times of audio and video in the queue, but for the zeros. -/
def avTimes (msgs : List Queued) : List ℤ :=
  (msgs.filter fun x => Timed x.msg).map fun x => x.msg.timestamp

/-- The newest audio or video message is further from the oldest one than the queue may be long. -/
def Overflow (maxQueueSize : ℤ) (msgs : List Queued) : Prop :=
  ∃ oldest ∈ (avTimes msgs).head?, ∃ newest ∈ (avTimes msgs).getLast?,
    maxQueueSize < newest * 1000 - oldest * 1000

/-! ## Runs -/

/-- What `shrink` found and what it left. -/
structure Shrink where
  found : List Queued
  left : List Queued

/-- A queue with its past: all messages that arrived, those that were dumped, and every shrink. -/
structure Run where
  queue : MessageQueue
  arrived : List SharedPtrMessage
  dumped : List Queued
  shrinks : List Shrink

inductive Action
  | enqueue (msg : SharedPtrMessage)
  | dumpPackets (maxCount : ℤ)

namespace Run

/-- An empty queue. -/
def start (queueSize : ℤ) : Run := ⟨.new queueSize, [], [], []⟩

/-- The run with one more message in the queue. -/
def arrive (s : Run) (msg : SharedPtrMessage) : Run :=
  { s with queue := s.queue.push ⟨s.arrived.length, msg⟩, arrived := s.arrived ++ [msg] }

/-- The run after the queue is shrunk. -/
def shrink (s : Run) : Run :=
  { s with
    queue := s.queue.shrink h265
    shrinks := s.shrinks ++ [⟨s.queue.msgs, (s.queue.shrink h265).msgs⟩] }

/-- One call. -/
def step (s : Run) : Action → Option Run
  | .enqueue msg =>
    let x : Queued := ⟨s.arrived.length, msg⟩
    some { s with
      queue := s.queue.enqueue h265 x
      arrived := s.arrived ++ [msg]
      shrinks := s.shrinks ++ if (s.queue.push x).Exceeds then
        [⟨(s.queue.push x).msgs, (s.queue.enqueue h265 x).msgs⟩] else [] }
  | .dumpPackets maxCount =>
    (s.queue.dumpPackets maxCount).map fun r => { s with queue := r.2, dumped := s.dumped ++ r.1 }

/-- The messages that a shrink threw away. -/
def lost (s : Run) : List Queued := s.shrinks.flatMap fun d => notKept h265 d.found

/-- The player gets what it should. -/
structure Sound (s : Run) : Prop where
  /-- The messages dumped and those still queued are in the order in which they arrived. -/
  order : ((s.dumped ++ s.queue.msgs).map Queued.number).Pairwise (· < ·)
  /-- Each message that arrived is dumped, queued or lost, and is so once. -/
  once : ((s.dumped ++ s.queue.msgs ++ s.lost h265).map Queued.number).Perm
    (List.range s.arrived.length)
  /-- It is the message that arrived, up to the time of a sequence header. -/
  same : ∀ x ∈ s.dumped ++ s.queue.msgs ++ s.lost h265, ∃ m, s.arrived[x.number]? = some m ∧
    x.msg = { m with timestamp := x.msg.timestamp }
  /-- A shrink that throws something away is one on an overflow. -/
  overflow : ∀ d ∈ s.shrinks, notKept h265 d.found ≠ [] → Overflow s.queue.maxQueueSize d.found
  /-- A shrink leaves the latest sequence headers. -/
  left : ∀ d ∈ s.shrinks, d.left.map Queued.number = (headers h265 d.found).map Queued.number

/-- The messages come with times as the claim has them: those of audio and video do not decrease,
and only a sequence header has the time 0. -/
def Input (s : Run) : Action → Prop
  | .enqueue msg =>
    if msg.isAv then
      (msg.timestamp = 0 ∧ (msg.isVideoSh h265 || msg.isAudioSh) = true) ∨
        0 < msg.timestamp ∧ ∀ m ∈ s.arrived, m.isAv = true → m.timestamp ≤ msg.timestamp
    else 0 ≤ msg.timestamp
  | .dumpPackets _ => True

/-- The condition on a queue with one more message: if its times are too far apart, then some
message in it is really that old, or there is nothing to throw away; and the latest sequence
header of video came before that of audio. -/
def Spans (q : MessageQueue) : Prop :=
  q.Exceeds →
    (∀ v ∈ latest (SharedPtrMessage.isVideoSh h265) q.msgs,
      ∀ a ∈ latest SharedPtrMessage.isAudioSh q.msgs, v.number < a.number) ∧
    ((∃ x ∈ q.msgs, Timed x.msg ∧ q.maxQueueSize < q.avEndTime - x.msg.timestamp * 1000) ∨
      ∀ x ∈ q.msgs, x.number ∈ (headers h265 q.msgs).map Queued.number)

/-- The condition on a call. -/
def Admitted (s : Run) : Action → Prop
  | .enqueue msg => Spans h265 (s.queue.push ⟨s.arrived.length, msg⟩)
  | .dumpPackets _ => True

instance (s : Run) (a : Action) : Decidable (Input h265 s a) :=
  match a with
  | .enqueue _ => inferInstanceAs (Decidable (ite _ _ _))
  | .dumpPackets _ => inferInstanceAs (Decidable True)

instance (q : MessageQueue) : Decidable (Spans h265 q) := inferInstanceAs (Decidable (_ → _))

instance (s : Run) (a : Action) : Decidable (Admitted h265 s a) :=
  match a with
  | .enqueue _ => inferInstanceAs (Decidable (Spans _ _))
  | .dumpPackets _ => inferInstanceAs (Decidable True)

/-! ### The steps -/

theorem step_enqueue (s : Run) (msg : SharedPtrMessage) :
    step h265 s (.enqueue msg) = some (if (s.arrive msg).queue.Exceeds then
      (s.arrive msg).shrink h265 else s.arrive msg) := by
  unfold step enqueue
  show some _ = some _
  congr 1
  by_cases hexceeds : (s.queue.push ⟨s.arrived.length, msg⟩).Exceeds
  · rw [if_pos (show (s.arrive msg).queue.Exceeds from hexceeds)]
    simp only [if_pos hexceeds]
    rfl
  · rw [if_neg (show ¬(s.arrive msg).queue.Exceeds from hexceeds)]
    simp only [if_neg hexceeds, List.append_nil]
    rfl

variable {s : Run}

theorem step_dumpPackets {t : Run} {maxCount : ℤ}
    (h : step h265 s (.dumpPackets maxCount) = some t) :
    t = s ∨ ∃ n, t = { s with
      queue := { s.queue with
        avStartTime := (((s.queue.msgs.take n).getLast?.map fun x => x.msg.timestamp).getD 0) * 1000
        msgs := s.queue.msgs.drop n }
      dumped := s.dumped ++ s.queue.msgs.take n } := by
  obtain ⟨r, hr, rfl⟩ := Option.map_eq_some_iff.mp h
  unfold dumpPackets at hr
  split_ifs at hr with hnil
  · cases hr
    exact .inl (by simp)
  · cases hr
    exact .inr ⟨_, rfl⟩

/-! ### The times of the queue -/

theorem avTimes_append (xs ys : List Queued) : avTimes (xs ++ ys) = avTimes xs ++ avTimes ys := by
  simp [avTimes]

/-- The times the queue keeps, and those of its messages. -/
structure Times (s : Run) : Prop where
  sorted : (avTimes s.queue.msgs).Pairwise (· ≤ ·)
  /-- The end is the time of the newest message. -/
  newest : ∀ t ∈ (avTimes s.queue.msgs).getLast?, s.queue.avEndTime = t * 1000
  /-- It is the time of a message that arrived. -/
  ended : s.queue.avEndTime = -1 ∨ ∃ m ∈ s.arrived, m.isAv = true ∧ 0 < m.timestamp ∧
    s.queue.avEndTime = m.timestamp * 1000
  started : -1 ≤ s.queue.avStartTime
  nonneg : ∀ x ∈ s.queue.msgs, 0 ≤ x.msg.timestamp

theorem Times.start (queueSize : ℤ) : Times (start queueSize) := by
  refine ⟨List.Pairwise.nil, ?_, .inl rfl, Int.le_refl _, ?_⟩ <;> simp [Run.start, new, avTimes]

/-- No message in the queue is newer than the end. -/
theorem Times.le_end (hs : Times s) {t : ℤ} (ht : t ∈ avTimes s.queue.msgs) :
    t * 1000 ≤ s.queue.avEndTime := by
  have hne : avTimes s.queue.msgs ≠ [] := ne_nil_of_mem ht
  have hlast := hs.newest _ (List.getLast?_eq_some_getLast hne)
  have hle : t ≤ (avTimes s.queue.msgs).getLast hne := by
    have hconcat := List.dropLast_append_getLast hne
    have hsorted := hs.sorted
    rw [← hconcat] at ht hsorted
    cases List.mem_append.mp ht with
    | inl hfront =>
      exact (List.pairwise_append.mp hsorted).2.2 t hfront _ (List.mem_singleton_self _)
    | inr hback => exact (List.mem_singleton.mp hback).le
  omega

variable {x : Queued}

/-- A message without a time changes neither. -/
theorem push_of_not_timed {q : MessageQueue} (h : ¬ Timed x.msg) :
    q.push x = { q with msgs := q.msgs ++ [x] } := by
  unfold push
  rw [if_neg h]

theorem push_of_timed {q : MessageQueue} (h : Timed x.msg) :
    q.push x = { q with
      msgs := q.msgs ++ [x]
      avStartTime := if q.avStartTime = -1 then x.msg.timestamp * 1000 else q.avStartTime
      avEndTime := x.msg.timestamp * 1000 } := by
  unfold push
  rw [if_pos h]

@[simp] theorem push_msgs (q : MessageQueue) (x : Queued) : (q.push x).msgs = q.msgs ++ [x] := by
  by_cases h : Timed x.msg
  · rw [push_of_timed h]
  · rw [push_of_not_timed h]

@[simp] theorem push_maxQueueSize (q : MessageQueue) (x : Queued) :
    (q.push x).maxQueueSize = q.maxQueueSize := by
  by_cases h : Timed x.msg
  · rw [push_of_timed h]
  · rw [push_of_not_timed h]

/-- A message that comes in time is the newest one. -/
theorem Times.arrive {msg : SharedPtrMessage} (hs : Times s)
    (hinput : Input h265 s (.enqueue msg)) : Times (s.arrive msg) := by
  by_cases htimed : Timed msg
  · obtain ⟨hpos, hnewest⟩ : 0 < msg.timestamp ∧
        ∀ m ∈ s.arrived, m.isAv = true → m.timestamp ≤ msg.timestamp := by
      simp only [Input, if_pos htimed.1] at hinput
      cases hinput with
      | inl hzero => exact absurd hzero.1 htimed.2
      | inr htime => exact htime
    have hqueue : (s.arrive msg).queue = _ := push_of_timed (x := ⟨s.arrived.length, msg⟩) htimed
    have hone : avTimes [⟨s.arrived.length, msg⟩] = [msg.timestamp] := by simp [avTimes, htimed]
    have hle : ∀ t ∈ avTimes s.queue.msgs, t ≤ msg.timestamp := by
      intro t ht
      have hend := hs.le_end ht
      cases hs.ended with
      | inl hnone =>
        -- an end that no message has set is not the time of a message
        have hlast := hs.newest _ (List.getLast?_eq_some_getLast (ne_nil_of_mem ht))
        omega
      | inr hsome =>
        obtain ⟨m, hm, hav, -, hm_end⟩ := hsome
        have hmsg := hnewest m hm hav
        omega
    refine ⟨?_, ?_, .inr ⟨msg, ?_, htimed.1, hpos, by rw [hqueue]⟩, ?_, ?_⟩
    · rw [hqueue]
      show (avTimes (s.queue.msgs ++ [_])).Pairwise _
      rw [avTimes_append, hone]
      refine List.pairwise_append.mpr ⟨hs.sorted, List.pairwise_singleton _ _, ?_⟩
      intro a ha b hb
      rw [List.mem_singleton.mp hb]
      exact hle a ha
    · rw [hqueue]
      show ∀ t ∈ (avTimes (s.queue.msgs ++ [_])).getLast?, msg.timestamp * 1000 = t * 1000
      rw [avTimes_append, hone, List.getLast?_concat]
      rintro t ⟨⟩
      rfl
    · exact List.mem_append_right _ (List.mem_singleton_self _)
    · have hstart := hs.started
      rw [hqueue]
      show -1 ≤ if s.queue.avStartTime = -1 then msg.timestamp * 1000 else s.queue.avStartTime
      split <;> omega
    · rw [hqueue]
      intro x hx
      cases List.mem_append.mp hx with
      | inl hold => exact hs.nonneg x hold
      | inr hnew =>
        rw [List.mem_singleton.mp hnew]
        exact hpos.le
  · have hqueue : (s.arrive msg).queue = _ :=
      push_of_not_timed (x := ⟨s.arrived.length, msg⟩) htimed
    have htimes : avTimes (s.arrive msg).queue.msgs = avTimes s.queue.msgs := by
      rw [hqueue]
      show avTimes (s.queue.msgs ++ [_]) = _
      rw [avTimes_append]
      simp [avTimes, htimed]
    refine ⟨htimes ▸ hs.sorted, ?_, ?_, by rw [hqueue]; exact hs.started, ?_⟩
    · rw [htimes, hqueue]
      exact hs.newest
    · rw [hqueue]
      refine hs.ended.imp_right ?_
      rintro ⟨m, hm, hrest⟩
      exact ⟨m, List.mem_append_left _ hm, hrest⟩
    · rw [hqueue]
      intro x hx
      cases List.mem_append.mp hx with
      | inl hold => exact hs.nonneg x hold
      | inr hnew =>
        rw [List.mem_singleton.mp hnew]
        show 0 ≤ msg.timestamp
        by_cases hav : msg.isAv = true
        · have hzero : msg.timestamp = 0 := by
            by_contra hne
            exact htimed ⟨hav, hne⟩
          omega
        · simpa [Input, hav] using hinput

/-- A queue that is too long ends with a message that arrived. -/
theorem Times.end_of_exceeds (hs : Times s) (h : s.queue.Exceeds) :
    ∃ m ∈ s.arrived, m.isAv = true ∧ 0 < m.timestamp ∧
      s.queue.avEndTime = m.timestamp * 1000 := by
  refine hs.ended.resolve_left ?_
  intro hnone
  have hstart := hs.started
  obtain ⟨hpos, hlt⟩ := h
  omega

/-- After a shrink every message has the time of the end. -/
theorem Times.shrink (hs : Times s) (h : s.queue.Exceeds) : Times (s.shrink h265) := by
  obtain ⟨m, hm, hav, hpos, hend⟩ := hs.end_of_exceeds h
  have htime : s.queue.avEndTime.tdiv 1000 = m.timestamp := by
    rw [hend]
    exact Int.mul_tdiv_cancel _ (by decide)
  have hmsgs : (s.shrink h265).queue.msgs = (headers h265 s.queue.msgs).map (retime m.timestamp) := by
    rw [← htime]
    exact shrink_msgs h265 s.queue
  have hall : ∀ x ∈ (s.shrink h265).queue.msgs, x.msg.timestamp = m.timestamp := by
    rw [hmsgs]
    intro x hx
    obtain ⟨y, -, rfl⟩ := List.mem_map.mp hx
    rfl
  have htimes : ∀ t ∈ avTimes (s.shrink h265).queue.msgs, t = m.timestamp := by
    intro t ht
    obtain ⟨x, hx, rfl⟩ := List.mem_map.mp ht
    exact hall x (List.mem_filter.mp hx).1
  refine ⟨?_, ?_, .inr ⟨m, hm, hav, hpos, hend⟩, ?_, ?_⟩
  · refine List.pairwise_of_forall_mem_list ?_
    intro a ha b hb
    rw [htimes a ha, htimes b hb]
  · intro t ht
    rw [htimes t (List.mem_of_getLast? ht)]
    exact hend
  · show -1 ≤ s.queue.avEndTime
    omega
  · intro x hx
    rw [hall x hx]
    exact hpos.le

/-- What is left after a dump is the end of the queue. -/
theorem Times.dump (hs : Times s) (n : ℕ) : Times { s with
    queue := { s.queue with
      avStartTime := (((s.queue.msgs.take n).getLast?.map fun x => x.msg.timestamp).getD 0) * 1000
      msgs := s.queue.msgs.drop n }
    dumped := s.dumped ++ s.queue.msgs.take n } := by
  have hsplit : avTimes s.queue.msgs =
      avTimes (s.queue.msgs.take n) ++ avTimes (s.queue.msgs.drop n) := by
    rw [← avTimes_append, List.take_append_drop]
  refine ⟨?_, ?_, hs.ended, ?_, ?_⟩
  · have hsorted := hs.sorted
    rw [hsplit] at hsorted
    exact (List.pairwise_append.mp hsorted).2.1
  · intro t ht
    apply hs.newest
    rw [hsplit, List.getLast?_append, Option.mem_def.mp ht]
    rfl
  · show -1 ≤ _ * (1000 : ℤ)
    cases hlast : (s.queue.msgs.take n).getLast? with
    | none => simp
    | some x =>
      have hnonneg := hs.nonneg x (List.mem_of_mem_take (List.mem_of_getLast? hlast))
      simp only [Option.map_some, Option.getD_some]
      omega
  · intro x hx
    exact hs.nonneg x (List.mem_of_mem_drop hx)

/-! ### What the player gets -/

theorem Sound.start (queueSize : ℤ) : Sound h265 (start queueSize) := by
  refine ⟨List.Pairwise.nil, List.Perm.refl _, ?_, ?_, ?_⟩ <;> simp [Run.start, new, lost]

/-- The numbers in the run are those of messages that arrived. -/
theorem Sound.number_lt (hs : Sound h265 s)
    (hx : x ∈ s.dumped ++ s.queue.msgs) : x.number < s.arrived.length := by
  have hmem : x.number ∈ (s.dumped ++ s.queue.msgs ++ s.lost h265).map Queued.number :=
    mem_map_of_mem (List.mem_append_left _ hx)
  exact List.mem_range.mp (hs.once.mem_iff.mp hmem)

theorem Sound.arrive (hs : Sound h265 s) (msg : SharedPtrMessage) : Sound h265 (s.arrive msg) := by
  have hmsgs : (s.arrive msg).queue.msgs = s.queue.msgs ++ [⟨s.arrived.length, msg⟩] :=
    push_msgs _ _
  have hnumbers : ((s.arrive msg).dumped ++ (s.arrive msg).queue.msgs).map Queued.number =
      (s.dumped ++ s.queue.msgs).map Queued.number ++ [s.arrived.length] := by
    rw [hmsgs]
    show (s.dumped ++ (s.queue.msgs ++ [_])).map Queued.number = _
    simp
  have hlost : (s.arrive msg).lost h265 = s.lost h265 := rfl
  refine ⟨?_, ?_, ?_, ?_, hs.left⟩
  · rw [hnumbers]
    refine List.pairwise_append.mpr ⟨hs.order, List.pairwise_singleton _ _, ?_⟩
    intro a ha b hb
    obtain ⟨x, hx, rfl⟩ := List.mem_map.mp ha
    rw [List.mem_singleton.mp hb]
    exact hs.number_lt h265 hx
  · have hrange : List.range (s.arrive msg).arrived.length =
        List.range s.arrived.length ++ [s.arrived.length] := by
      simp [Run.arrive, List.range_succ]
    have hold := hs.once
    rw [map_append] at hold
    rw [map_append, hnumbers, hlost, hrange]
    -- the new number goes to the end
    rw [append_assoc]
    refine (List.perm_append_comm.append_left _).trans ?_
    rw [← append_assoc]
    exact hold.append_right _
  · intro x hx
    have hcases : x ∈ s.dumped ++ s.queue.msgs ++ s.lost h265 ∨ x = ⟨s.arrived.length, msg⟩ := by
      rw [hlost, hmsgs] at hx
      have hdumped : (s.arrive msg).dumped = s.dumped := rfl
      rw [hdumped] at hx
      simp only [List.mem_append, List.mem_singleton] at hx ⊢
      tauto
    cases hcases with
    | inl hold =>
      obtain ⟨m, hm, hsame⟩ := hs.same x hold
      have hlt := (List.getElem?_eq_some_iff.mp hm).1
      exact ⟨m, (List.getElem?_append_left hlt).trans hm, hsame⟩
    | inr hnew =>
      subst hnew
      exact ⟨msg, List.getElem?_concat_length, rfl⟩
  · intro d hd
    rw [show (s.arrive msg).queue.maxQueueSize = s.queue.maxQueueSize from push_maxQueueSize _ _]
    exact hs.overflow d hd

/-- The numbers of a list without repetitions are those of a part of it and of the rest. -/
theorem perm_split {msgs kept : List Queued} (hnodup : (msgs.map Queued.number).Nodup)
    (hkept : (kept.map Queued.number).Nodup) (hsub : ∀ x ∈ kept, x ∈ msgs) :
    (kept.map Queued.number ++ (msgs.filter fun x =>
      x.number ∉ kept.map Queued.number).map Queued.number).Perm (msgs.map Queued.number) := by
  have hrest : ((msgs.filter fun x => x.number ∉ kept.map Queued.number).map
      Queued.number).Nodup :=
    hnodup.sublist (List.filter_sublist.map _)
  have hdisjoint : List.Disjoint (kept.map Queued.number)
      ((msgs.filter fun x => x.number ∉ kept.map Queued.number).map Queued.number) := by
    intro n hin hout
    obtain ⟨x, hx, rfl⟩ := List.mem_map.mp hout
    exact of_decide_eq_true (List.mem_filter.mp hx).2 hin
  refine (List.perm_ext_iff_of_nodup (hkept.append hrest hdisjoint) hnodup).mpr ?_
  intro n
  rw [List.mem_append]
  constructor
  · rintro (hin | hout)
    · obtain ⟨x, hx, rfl⟩ := List.mem_map.mp hin
      exact mem_map_of_mem (hsub x hx)
    · obtain ⟨x, hx, rfl⟩ := List.mem_map.mp hout
      exact mem_map_of_mem (List.mem_filter.mp hx).1
  · intro hn
    obtain ⟨x, hx, rfl⟩ := List.mem_map.mp hn
    by_cases hin : x.number ∈ kept.map Queued.number
    · exact .inl hin
    · exact .inr (mem_map_of_mem (List.mem_filter.mpr ⟨hx, decide_eq_true hin⟩))

/-- The sequence headers are in the order of arrival exactly if the one of video came first. -/
theorem headers_order (msgs : List Queued) :
    ((headers h265 msgs).map Queued.number).Pairwise (· < ·) ↔
      ∀ v ∈ latest (SharedPtrMessage.isVideoSh h265) msgs,
        ∀ a ∈ latest SharedPtrMessage.isAudioSh msgs, v.number < a.number := by
  unfold headers
  cases latest (SharedPtrMessage.isVideoSh h265) msgs with
  | none => cases latest SharedPtrMessage.isAudioSh msgs <;> simp
  | some v => cases latest SharedPtrMessage.isAudioSh msgs <;> simp

theorem retime_number (timestamp : ℤ) (xs : List Queued) :
    (xs.map (retime timestamp)).map Queued.number = xs.map Queued.number := by
  rw [List.map_map]
  rfl

/-- If some message is that old, the newest and the oldest message are that far apart. -/
theorem Times.overflow (hs : Times s) (hx : x ∈ s.queue.msgs) (htimed : Timed x.msg)
    (hold : s.queue.maxQueueSize < s.queue.avEndTime - x.msg.timestamp * 1000) :
    Overflow s.queue.maxQueueSize s.queue.msgs := by
  have hmem : x.msg.timestamp ∈ avTimes s.queue.msgs :=
    mem_map_of_mem (List.mem_filter.mpr ⟨hx, decide_eq_true htimed⟩)
  have hlast := List.getLast?_eq_some_getLast (ne_nil_of_mem hmem)
  have hend := hs.newest _ hlast
  have hsorted := hs.sorted
  cases htimes : avTimes s.queue.msgs with
  | nil => exact absurd htimes (ne_nil_of_mem hmem)
  | cons oldest rest =>
    rw [htimes] at hmem hsorted
    have hle : oldest ≤ x.msg.timestamp := by
      cases List.mem_cons.mp hmem with
      | inl hfirst => exact hfirst.ge
      | inr hrest => exact List.rel_of_pairwise_cons hsorted hrest
    refine ⟨oldest, by rw [htimes]; rfl, _, hlast, ?_⟩
    omega

/-- An overflow is one by the times of the queue. -/
theorem Times.old_of_overflow (hs : Times s) (h : Overflow s.queue.maxQueueSize s.queue.msgs) :
    ∃ x ∈ s.queue.msgs, Timed x.msg ∧
      s.queue.maxQueueSize < s.queue.avEndTime - x.msg.timestamp * 1000 := by
  obtain ⟨oldest, holdest, newest, hnewest, hlt⟩ := h
  obtain ⟨x, hx, rfl⟩ := List.mem_map.mp (List.mem_of_head? holdest)
  refine ⟨x, (List.mem_filter.mp hx).1, of_decide_eq_true (List.mem_filter.mp hx).2, ?_⟩
  rw [hs.newest newest hnewest]
  exact hlt

/-- A shrink keeps what the player gets in order exactly under the condition. -/
theorem Sound.shrink_iff (hs : Sound h265 s) (htimes : Times s)
    (hexceeds : s.queue.Exceeds) : Sound h265 (s.shrink h265) ↔ Spans h265 s.queue := by
  have hmsgs : (s.shrink h265).queue.msgs =
      (headers h265 s.queue.msgs).map (retime (s.queue.avEndTime.tdiv 1000)) :=
    shrink_msgs h265 s.queue
  have hnumbers : (s.shrink h265).queue.msgs.map Queued.number =
      (headers h265 s.queue.msgs).map Queued.number := by
    rw [hmsgs, retime_number]
  have hlost : (s.shrink h265).lost h265 = s.lost h265 ++ notKept h265 s.queue.msgs := by
    simp [Run.lost, Run.shrink]
  constructor
  · intro hsound hexceeds
    have horder := hsound.order
    rw [map_append, hnumbers] at horder
    refine ⟨(headers_order h265 _).mp (List.pairwise_append.mp horder).2.1, ?_⟩
    have hoverflow := hsound.overflow ⟨s.queue.msgs, (s.queue.shrink h265).msgs⟩
      (List.mem_append_right _ (List.mem_singleton_self _))
    by_cases hnone : notKept h265 s.queue.msgs = []
    · refine .inr ?_
      intro x hx
      by_contra hin
      exact ne_nil_of_mem (List.mem_filter.mpr ⟨hx, decide_eq_true hin⟩) hnone
    · exact .inl (htimes.old_of_overflow (hoverflow hnone))
  · intro hspans
    obtain ⟨hfirst, hold⟩ := hspans hexceeds
    have hkept := (headers_order h265 _).mpr hfirst
    have hsub : ∀ x ∈ headers h265 s.queue.msgs, x ∈ s.queue.msgs :=
      fun x hx => mem_of_mem_headers h265 hx
    have horder := hs.order
    rw [map_append] at horder
    have hqueue := (List.pairwise_append.mp horder).2.1
    refine ⟨?_, ?_, ?_, ?_, ?_⟩
    · rw [map_append, hnumbers]
      refine List.pairwise_append.mpr ⟨(List.pairwise_append.mp horder).1, hkept, ?_⟩
      intro a ha b hb
      obtain ⟨x, hx, rfl⟩ := List.mem_map.mp hb
      exact (List.pairwise_append.mp horder).2.2 a ha _ (mem_map_of_mem (hsub x hx))
    · have hsplit := perm_split (hqueue.imp fun h => h.ne) (hkept.imp fun h => h.ne) hsub
      have hold := hs.once
      rw [map_append, map_append, hnumbers, hlost, map_append]
      rw [map_append, map_append] at hold
      refine List.Perm.trans ?_ hold
      -- what is not kept joins what was kept, and together they are the old queue
      rw [append_assoc, append_assoc]
      refine List.Perm.append_left _ ?_
      refine (List.perm_append_comm.append_left _).trans ?_
      rw [← append_assoc]
      exact hsplit.append_right _
    · intro x hx
      have hcases : x ∈ s.dumped ++ s.queue.msgs ++ s.lost h265 ∨
          ∃ y ∈ s.queue.msgs, x = retime (s.queue.avEndTime.tdiv 1000) y := by
        rw [hlost, hmsgs] at hx
        simp only [List.mem_append] at hx ⊢
        rcases hx with (hdumped | hkept) | hlost | hnot
        · exact .inl (.inl (.inl hdumped))
        · obtain ⟨y, hy, rfl⟩ := List.mem_map.mp hkept
          exact .inr ⟨y, hsub y hy, rfl⟩
        · exact .inl (.inr hlost)
        · exact .inl (.inl (.inr (List.mem_filter.mp hnot).1))
      cases hcases with
      | inl hold => exact hs.same x hold
      | inr hnew =>
        obtain ⟨y, hy, rfl⟩ := hnew
        obtain ⟨m, hm, hsame⟩ := hs.same y (by simp [hy])
        refine ⟨m, hm, ?_⟩
        show ({ y.msg with timestamp := s.queue.avEndTime.tdiv 1000 } : SharedPtrMessage) =
          { m with timestamp := s.queue.avEndTime.tdiv 1000 }
        rw [hsame]
    · intro d hd
      cases List.mem_append.mp hd with
      | inl hbefore => exact hs.overflow d hbefore
      | inr hnow =>
        rw [List.mem_singleton.mp hnow]
        intro hsome
        cases hold with
        | inl hfar =>
          obtain ⟨x, hx, htimed, hlt⟩ := hfar
          exact htimes.overflow hx htimed hlt
        | inr hall =>
          exfalso
          apply hsome
          refine List.filter_eq_nil_iff.mpr ?_
          intro x hx
          simp [hall x hx]
    · intro d hd
      cases List.mem_append.mp hd with
      | inl hbefore => exact hs.left d hbefore
      | inr hnow =>
        rw [List.mem_singleton.mp hnow]
        exact hnumbers

/-- A dump moves messages from the front of the queue to the player. -/
theorem Sound.dump (hs : Sound h265 s) (n : ℕ) (start : ℤ) : Sound h265 { s with
    queue := { s.queue with avStartTime := start, msgs := s.queue.msgs.drop n }
    dumped := s.dumped ++ s.queue.msgs.take n } := by
  have hmove : s.dumped ++ s.queue.msgs.take n ++ s.queue.msgs.drop n =
      s.dumped ++ s.queue.msgs := by
    rw [append_assoc, List.take_append_drop]
  refine ⟨?_, ?_, ?_, hs.overflow, hs.left⟩
  · show ((_ ++ _ ++ s.queue.msgs.drop n).map _).Pairwise _
    rw [hmove]
    exact hs.order
  · show ((_ ++ _ ++ s.queue.msgs.drop n ++ _).map _).Perm _
    rw [hmove]
    exact hs.once
  · show ∀ x ∈ _ ++ _ ++ s.queue.msgs.drop n ++ _, _
    rw [hmove]
    exact hs.same

/-! ### Every run -/

/-- The calls of the claim, each of which meets the condition. -/
def Guard (s : Run) (a : Action) : Prop := Input h265 s a ∧ Admitted h265 s a

instance (s : Run) (a : Action) : Decidable (Guard h265 s a) :=
  inferInstanceAs (Decidable (_ ∧ _))

/-- A message is enqueued soundly exactly under the condition. -/
theorem Sound.step_iff {t : Run} {a : Action} (hs : Sound h265 s) (htimes : Times s)
    (hinput : Input h265 s a) (h : step h265 s a = some t) :
    Sound h265 t ↔ Admitted h265 s a := by
  cases a with
  | enqueue msg =>
    rw [step_enqueue] at h
    cases h
    split
    · next hexceeds =>
      exact (hs.arrive h265 msg).shrink_iff h265 (htimes.arrive h265 hinput) hexceeds
    · next hfits =>
      exact iff_of_true (hs.arrive h265 msg) fun hexceeds => absurd hexceeds hfits
  | dumpPackets maxCount =>
    refine iff_of_true ?_ trivial
    cases step_dumpPackets h265 h with
    | inl hsame =>
      rw [hsame]
      exact hs
    | inr hmoved =>
      obtain ⟨n, rfl⟩ := hmoved
      exact hs.dump h265 n _

theorem Times.step {t : Run} {a : Action} (hs : Times s) (hinput : Input h265 s a)
    (h : step h265 s a = some t) : Times t := by
  cases a with
  | enqueue msg =>
    rw [step_enqueue] at h
    cases h
    split
    · next hexceeds => exact (hs.arrive h265 hinput).shrink h265 hexceeds
    · exact hs.arrive h265 hinput
  | dumpPackets maxCount =>
    cases step_dumpPackets h265 h with
    | inl hsame =>
      rw [hsame]
      exact hs
    | inr hmoved =>
      obtain ⟨n, rfl⟩ := hmoved
      exact hs.dump n

/-- As long as no message is enqueued to a queue whose start is further from the new end than
the queue may be long, while no message in it is that old, the player gets every message once
and in order but for those lost on a real overflow. The first message enqueued otherwise breaks
this. -/
theorem sound_iff (queueSize : ℤ) {s : Run}
    (h : System.Reaches (step h265) (Guard h265) (start queueSize) s) :
    Sound h265 s ∧ ∀ a t, Input h265 s a → step h265 s a = some t →
      (Sound h265 t ↔ Admitted h265 s a) := by
  obtain ⟨hsound, htimes⟩ : Sound h265 s ∧ Times s := by
    refine System.Reaches.invariant (I := fun s => Sound h265 s ∧ Times s) ?_ h
      ⟨.start h265 queueSize, .start queueSize⟩
    rintro s a t ⟨hs, htimes⟩ ⟨hinput, hadmitted⟩ ha
    exact ⟨(hs.step_iff h265 htimes hinput ha).mpr hadmitted, htimes.step h265 hinput ha⟩
  exact ⟨hsound, fun a t hinput ha => hsound.step_iff h265 htimes hinput ha⟩

/-- Metadata, and the messages of a stream of H.264 and AAC. -/
def metadata : SharedPtrMessage := ⟨5, 0, 18, 1, [2]⟩

def videoSh : SharedPtrMessage := ⟨6, 0, 9, 1, [0x17, 0]⟩

def audioSh : SharedPtrMessage := ⟨7, 0, 8, 1, [0xAF, 0]⟩

def keyFrame (timestamp : ℤ) : SharedPtrMessage := ⟨6, timestamp, 9, 1, [0x17, 1]⟩

/-- A queue of 5 seconds that gets frames over 6 seconds: a real overflow, after which the player
gets the sequence headers. -/
theorem sound_overflow : ∃ s,
    System.Reaches (step true) (Guard true) (start 5000000) s ∧ Sound true s ∧
      s.dumped.map Queued.number = [0, 1, 2] ∧ (s.lost true).map Queued.number = [3, 4] := by
  obtain ⟨s, hs, -, hobs⟩ := System.reaches_of_observe (step true) (Guard true) (start 5000000)
    [.enqueue metadata, .enqueue videoSh, .enqueue audioSh, .dumpPackets 1,
      .enqueue (keyFrame 1000), .enqueue (keyFrame 7000), .dumpPackets 128]
    (fun s => (s.dumped.map Queued.number, (s.lost true).map Queued.number))
    (b := ([0, 1, 2], [3, 4])) (by decide +kernel)
  obtain ⟨hdumped, hlost⟩ := Prod.mk.inj hobs
  exact ⟨s, hs, (sound_iff true 5000000 hs).1, hdumped, hlost⟩

/-- The metadata of a stream is dumped before its first frame comes. The frame is the only one in
the queue, and it is thrown away. -/
theorem keyFrame_lost : ∃ s,
    System.Reaches (step true) (Input true) (start 5000000) s ∧
      ∃ d ∈ s.shrinks, d.found.map Queued.msg = [keyFrame 10000] ∧
        notKept true d.found ≠ [] ∧ ¬ Overflow s.queue.maxQueueSize d.found := by
  obtain ⟨s, hs, -, hobs⟩ := System.reaches_of_observe (step true) (Input true) (start 5000000)
    [.enqueue metadata, .dumpPackets 128, .enqueue (keyFrame 10000)]
    (fun s => (s.shrinks, s.queue.maxQueueSize))
    (b := ([⟨[⟨1, keyFrame 10000⟩], []⟩], 5000000)) rfl
  obtain ⟨hshrinks, hmax⟩ := Prod.mk.inj hobs
  refine ⟨s, hs, _, hshrinks ▸ List.mem_singleton_self _, rfl, by decide, ?_⟩
  rw [hmax]
  rintro ⟨oldest, holdest, newest, hnewest, hlt⟩
  have hone : avTimes [⟨1, keyFrame 10000⟩] = [10000] := by decide
  rw [hone] at holdest hnewest
  obtain rfl : 10000 = oldest := Option.some.inj holdest
  obtain rfl : 10000 = newest := Option.some.inj hnewest
  omega

end Run

end MessageQueue

end SrsChatRoom.App
