import SrsChatRoom.App.GbMuxer

/-!
# The order of the packets

The queue sorts by timestamps. While each video packet gets a timestamp behind those of the video
packets that wait, and none takes the place of another packet, the video packets leave the queue in
the order in which they came.
-/

namespace SrsChatRoom.App.GbMuxer

/-! ## The video packets of a queue -/

/-- The video packets that wait, in their order. -/
def videos (msgs : List (ℕ × Packet)) : List Packet := (msgs.map Prod.snd).filter Packet.isVideo

theorem videos_append (a b : List (ℕ × Packet)) : videos (a ++ b) = videos a ++ videos b := by
  simp [videos]

theorem videos_cons (e : ℕ × Packet) (msgs : List (ℕ × Packet)) :
    videos (e :: msgs) = (if e.2.isVideo then [e.2] else []) ++ videos msgs := by
  unfold videos
  rw [List.map_cons, List.filter_cons]
  split <;> rfl

variable {msgs : List (ℕ × Packet)}

theorem videos_eq_nil (h : ∀ e ∈ msgs, e.2.isVideo = false) : videos msgs = [] := by
  unfold videos
  rw [List.filter_eq_nil_iff]
  intro p hp
  obtain ⟨e, he, rfl⟩ := List.mem_map.mp hp
  rw [h e he]
  exact Bool.false_ne_true

/-- The number of the packets of a kind. -/
def count (f : Packet → Bool) (msgs : List (ℕ × Packet)) : ℕ := msgs.countP fun e => f e.2

/-- The messages are in order, one for each timestamp, and the counts are those of the messages. -/
structure QueueOk (q : SrsMpegpsQueue) : Prop where
  sorted : q.msgs.Pairwise fun a b => a.1 < b.1
  audios : q.nbAudios = count Packet.isAudio q.msgs
  videos : q.nbVideos = count Packet.isVideo q.msgs

/-- The packet gets a timestamp of its own. -/
def Free (q : SrsMpegpsQueue) (dts : ℕ) : Prop := q.taken (q.slot dts) = false

/-- A video packet gets a timestamp of its own, behind those of the video packets that wait. -/
def InOrder (q : SrsMpegpsQueue) (dts : ℕ) : Prop :=
  Free q dts ∧ ∀ e ∈ q.msgs, e.2.isVideo = true → e.1 < q.slot dts

instance (q : SrsMpegpsQueue) (dts : ℕ) : Decidable (Free q dts) := by
  unfold Free; infer_instance

instance (q : SrsMpegpsQueue) (dts : ℕ) : Decidable (InOrder q dts) := by
  unfold InOrder; infer_instance

/-! ## Push -/

/-- An ordered list is what is in front of a free timestamp and what is behind it. -/
theorem filter_lt_append_gt {t : ℕ}
    (hsorted : msgs.Pairwise fun a b => a.1 < b.1) (hfree : ∀ e ∈ msgs, e.1 ≠ t) :
    msgs.filter (fun e => e.1 < t) ++ msgs.filter (fun e => t < e.1) = msgs := by
  induction msgs with
  | nil => rfl
  | cons e msgs ih =>
    obtain ⟨hhead, htail⟩ := List.pairwise_cons.mp hsorted
    have hrest := ih htail fun e' he' => hfree e' (List.mem_cons_of_mem e he')
    have hne : e.1 ≠ t := hfree e List.mem_cons_self
    by_cases hlt : e.1 < t
    · rw [List.filter_cons_of_pos (by simpa using hlt),
        List.filter_cons_of_neg (by simpa using hlt.le), List.cons_append, hrest]
    · -- everything behind this message is behind the timestamp too
      have hgt : t < e.1 := by omega
      have hnone : msgs.filter (fun e => e.1 < t) = [] := by
        rw [List.filter_eq_nil_iff]
        intro e' he'
        have hbehind := hhead e' he'
        simpa using by omega
      rw [hnone, List.nil_append] at hrest
      rw [List.filter_cons_of_neg (by simpa using hgt.le), hnone, List.nil_append,
        List.filter_cons_of_pos (by simpa using hgt), hrest]

variable {q : SrsMpegpsQueue}

variable {dts : ℕ}

theorem ne_of_free (h : Free q dts) : ∀ e ∈ q.msgs, e.1 ≠ q.slot dts := by
  intro e he heq
  have htaken : q.taken (q.slot dts) = true := by
    unfold SrsMpegpsQueue.taken
    rw [List.contains_iff_mem]
    exact List.mem_map.mpr ⟨e, he, heq⟩
  rw [h] at htaken
  cases htaken

theorem sorted_assign (t : ℕ) (p : Packet) (hsorted : msgs.Pairwise fun a b => a.1 < b.1) :
    (SrsMpegpsQueue.assign msgs t p).Pairwise fun a b => a.1 < b.1 := by
  unfold SrsMpegpsQueue.assign
  rw [List.pairwise_append, List.pairwise_cons]
  refine ⟨hsorted.filter _, ⟨?_, hsorted.filter _⟩, ?_⟩
  · intro e he
    simpa using (List.mem_filter.mp he).2
  · intro a ha b hb
    have hbefore : a.1 < t := by simpa using (List.mem_filter.mp ha).2
    cases List.mem_cons.mp hb with
    | inl heq => rwa [heq]
    | inr hmem =>
      have hbehind : t < b.1 := by simpa using (List.mem_filter.mp hmem).2
      exact hbefore.trans hbehind

theorem count_assign {t : ℕ} (f : Packet → Bool) (p : Packet)
    (hsorted : msgs.Pairwise fun a b => a.1 < b.1) (hfree : ∀ e ∈ msgs, e.1 ≠ t) :
    count f (SrsMpegpsQueue.assign msgs t p) = count f msgs + if f p then 1 else 0 := by
  have hsplit : count f (msgs.filter (fun e => e.1 < t)) +
      count f (msgs.filter (fun e => t < e.1)) = count f msgs := by
    unfold count
    rw [← List.countP_append, filter_lt_append_gt hsorted hfree]
  unfold SrsMpegpsQueue.assign count at *
  rw [List.countP_append, List.countP_cons, ← hsplit]
  dsimp only
  omega

theorem QueueOk.push (h : QueueOk q) (hfree : Free q dts)
    (p : Packet) : QueueOk (q.push dts p) := by
  have haudio := count_assign Packet.isAudio p h.sorted (ne_of_free hfree)
  have hvideo := count_assign Packet.isVideo p h.sorted (ne_of_free hfree)
  refine ⟨sorted_assign _ p h.sorted, ?_, ?_⟩
  · show (if p.isAudio then q.nbAudios + 1 else q.nbAudios) = _
    rw [SrsMpegpsQueue.push, haudio, h.audios]
    split <;> simp
  · show (if p.isVideo then q.nbVideos + 1 else q.nbVideos) = _
    rw [SrsMpegpsQueue.push, hvideo, h.videos]
    split <;> simp

/-- A packet of audio leaves the video packets as they are. -/
theorem videos_push_audio (h : QueueOk q) (hfree : Free q dts) :
    videos (q.push dts .audio).msgs = videos q.msgs := by
  show videos (SrsMpegpsQueue.assign q.msgs (q.slot dts) .audio) = _
  unfold SrsMpegpsQueue.assign
  rw [videos_append, videos_cons]
  show videos _ ++ ([] ++ videos _) = _
  rw [List.nil_append, ← videos_append, filter_lt_append_gt h.sorted (ne_of_free hfree)]

/-- A packet of video is the last of them. -/
theorem videos_push_video (h : QueueOk q) (horder : InOrder q dts)
    {p : Packet} (hp : p.isVideo = true) :
    videos (q.push dts p).msgs = videos q.msgs ++ [p] := by
  have hnone : videos (q.msgs.filter fun e => q.slot dts < e.1) = [] := by
    apply videos_eq_nil
    intro e he
    obtain ⟨hmem, hgt⟩ := List.mem_filter.mp he
    apply Bool.eq_false_iff.mpr
    intro hvideo
    have hlt := horder.2 e hmem hvideo
    have hgt' : q.slot dts < e.1 := by simpa using hgt
    omega
  have hall : videos (q.msgs.filter fun e => e.1 < q.slot dts) = videos q.msgs := by
    have hsplit := congrArg videos (filter_lt_append_gt h.sorted (ne_of_free horder.1))
    rwa [videos_append, hnone, List.append_nil] at hsplit
  show videos (SrsMpegpsQueue.assign q.msgs (q.slot dts) p) = _
  unfold SrsMpegpsQueue.assign
  rw [videos_append, videos_cons, hp, if_pos rfl, hnone, List.append_nil, hall]

/-! ## Drain -/

theorem count_cons (f : Packet → Bool) (e : ℕ × Packet) (msgs : List (ℕ × Packet)) :
    count f (e :: msgs) = count f msgs + if f e.2 then 1 else 0 := by
  unfold count
  rw [List.countP_cons]

/-- No message is ready in an empty queue. -/
theorem ready_nil (h : QueueOk q) (hnil : q.msgs = []) :
    SrsMpegpsQueue.ready q.nbAudios q.nbVideos = false := by
  have haudios := h.audios
  have hvideos := h.videos
  rw [hnil] at haudios hvideos
  rw [haudios, hvideos]
  rfl

theorem QueueOk.tail {nbAudios nbVideos : ℤ} {e : ℕ × Packet}
    (h : QueueOk ⟨nbAudios, nbVideos, e :: msgs⟩) :
    QueueOk ⟨if e.2.isAudio then nbAudios - 1 else nbAudios,
      if e.2.isVideo then nbVideos - 1 else nbVideos, msgs⟩ := by
  have haudios : nbAudios = count Packet.isAudio (e :: msgs) := h.audios
  have hvideos : nbVideos = count Packet.isVideo (e :: msgs) := h.videos
  rw [count_cons] at haudios hvideos
  refine ⟨(List.pairwise_cons.mp h.sorted).2, ?_, ?_⟩
  · show (if e.2.isAudio then nbAudios - 1 else nbAudios) = (count Packet.isAudio msgs : ℤ)
    rw [haudios]
    split <;> simp
  · show (if e.2.isVideo then nbVideos - 1 else nbVideos) = (count Packet.isVideo msgs : ℤ)
    rw [hvideos]
    split <;> simp

/-- What is sent and what waits, in order, are the messages there were. -/
inductive Drained (fails : Option ℕ) (msgs : List (ℕ × Packet)) : Drain → Prop
  | done {sent : List Packet} {queue : SrsMpegpsQueue} (none : fails = none)
      (ok : QueueOk queue) (order : sent ++ queue.msgs.map Prod.snd = msgs.map Prod.snd) :
      Drained fails msgs (.done sent queue)
  | failed {sent : List Packet} {queue : SrsMpegpsQueue} {i : ℕ} (some : fails = some i)
      (ok : QueueOk queue) (order : sent ++ queue.msgs.map Prod.snd = msgs.map Prod.snd)
      (behind : queue.msgs = msgs.drop (i + 1)) : Drained fails msgs (.failed sent queue)

theorem drained {fails : Option ℕ} {nbAudios nbVideos : ℤ}
    (hok : QueueOk ⟨nbAudios, nbVideos, msgs⟩) {d : Drain}
    (h : drain fails nbAudios nbVideos msgs = some d) : Drained fails msgs d := by
  induction msgs generalizing fails nbAudios nbVideos d with
  | nil =>
    have hready : SrsMpegpsQueue.ready nbAudios nbVideos = false := ready_nil hok rfl
    unfold drain at h
    rw [hready, if_neg Bool.false_ne_true] at h
    split at h
    case isTrue hnone =>
      cases h
      exact .done hnone hok rfl
    case isFalse => cases h
  | cons e msgs ih =>
    unfold drain at h
    split at h
    case isTrue =>
      dsimp only at h
      split at h
      case h_1 =>
        cases h
        exact .failed rfl hok.tail rfl rfl
      case h_2 i =>
        obtain ⟨d', hd', rfl⟩ := Option.map_eq_some_iff.mp h
        cases ih hok.tail hd' with
        | done none ok order => cases none
        | failed some ok order behind =>
          cases some
          refine .failed rfl ok ?_ behind
          rw [List.cons_append, order, List.map_cons]
      case h_3 =>
        obtain ⟨d', hd', rfl⟩ := Option.map_eq_some_iff.mp h
        cases ih hok.tail hd' with
        | done none ok order =>
          refine .done rfl ok ?_
          rw [List.cons_append, order, List.map_cons]
        | failed some ok order behind => cases some
    case isFalse =>
      split at h
      case isTrue hnone =>
        cases h
        exact .done hnone hok rfl
      case isFalse => cases h

end SrsChatRoom.App.GbMuxer
