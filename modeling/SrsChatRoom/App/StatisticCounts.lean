import SrsChatRoom.App.Statistic

/-!
# What the statistics count

In every run the maps know the streams that exist, a client refers to one of them, and the counter
of a stream is at least the number of its clients (`Sound`), so the check in `cleanupStream` passes.
The counters are these numbers (`Exact`) as long as no client registers twice and the requests for
a stream name one vhost. A stream without publisher and clients is gone as long as it is not closed
after its last client has gone.
-/

namespace SrsChatRoom.App.Statistic

open Finset
open Function (update update_of_ne update_self)

/-! ## Sums over the streams -/

theorem sum_range_update {α : Type} (f : α → ℤ) (a : ℕ → α) {n i : ℕ} (hi : i < n) (v : α) :
    ∑ j ∈ range n, f (update a i v j) = ∑ j ∈ range n, f (a j) - f (a i) + f v := by
  have hmem : i ∈ range n := mem_range.mpr hi
  have hsame : ∀ j ∈ (range n).erase i, f (update a i v j) = f (a j) := by
    intro j hj
    rw [update_of_ne (ne_of_mem_erase hj)]
  rw [← add_sum_erase _ _ hmem, ← add_sum_erase _ (fun j => f (a j)) hmem, sum_congr rfl hsame,
    update_self]
  ring

theorem sum_range_succ_update {α : Type} (f : α → ℤ) (a : ℕ → α) (n : ℕ) (v : α) :
    ∑ j ∈ range (n + 1), f (update a n v j) = ∑ j ∈ range n, f (a j) + f v := by
  have hsame : ∀ j ∈ range n, f (update a n v j) = f (a j) := by
    intro j hj
    rw [update_of_ne (mem_range.mp hj).ne]
  rw [sum_range_succ, sum_congr rfl hsame, update_self]

namespace SrsStatistic

/-- The sum of a number of each stream that exists. -/
def total (s : SrsStatistic) (f : SrsStatisticStream → ℤ) : ℤ :=
  ∑ i ∈ range s.nextStream, ((s.streamAt i).map f).getD 0

/-- The clients that are attached to a stream. -/
def attached (s : SrsStatistic) (i : ℕ) : ℕ := s.clients.count fun c => decide (c.stream = i)

/-- The active streams of a vhost. -/
def activeStreams (s : SrsStatistic) (v : ℕ) : ℤ :=
  s.total fun stream => if stream.vhost = v ∧ stream.active then 1 else 0

/-- The clients that the streams of a vhost count. -/
def countedClients (s : SrsStatistic) (v : ℕ) : ℤ :=
  s.total fun stream => if stream.vhost = v then stream.nbClients else 0

/-- The streams that exist are those that the maps know, and each of them counts its clients, or
more. -/
structure Sound (s : SrsStatistic) : Prop where
  rstreams : ∀ url i, s.rstreams.get? url = some i ↔
    ∃ stream, s.streamAt i = some stream ∧ stream.url = url
  streams : ∀ id i, s.streams.get? id = some i →
    ∃ stream, s.streamAt i = some stream ∧ stream.id = id
  bounds : ∀ i stream, s.streamAt i = some stream →
    i < s.nextStream ∧ stream.vhost < s.nextVhost
  rvhosts : ∀ name v, s.rvhosts.get? name = some v → v < s.nextVhost
  clients : ∀ id c, s.clients.get? id = some c → ∃ stream, s.streamAt c.stream = some stream
  counts : ∀ i stream, s.streamAt i = some stream → (s.attached i : ℤ) ≤ stream.nbClients
  active : ∀ v, (s.vhostAt v).nbStreams = s.activeStreams v

/-- Each stream and each vhost counts its clients. -/
structure Exact (s : SrsStatistic) : Prop where
  streams : ∀ i stream, s.streamAt i = some stream → stream.nbClients = s.attached i
  vhosts : ∀ v, (s.vhostAt v).nbClients = s.countedClients v

/-! ## The sums after each change -/

variable {s : SrsStatistic}

variable {f : SrsStatisticStream → ℤ}

theorem total_eq_zero
    (h : ∀ i stream, s.streamAt i = some stream → f stream = 0) : s.total f = 0 := by
  refine sum_eq_zero fun i _ => ?_
  cases hi : s.streamAt i with
  | none => rfl
  | some stream => exact h i stream hi

variable {i : ℕ} {stream : SrsStatisticStream}

theorem total_updateStream (hs : s.Sound) (hi : s.streamAt i = some stream)
    (g : SrsStatisticStream → SrsStatisticStream) (f : SrsStatisticStream → ℤ) :
    (s.updateStream i g).total f = s.total f - f stream + f (g stream) := by
  have hsum := sum_range_update (fun o : Option SrsStatisticStream => (o.map f).getD 0) s.streamAt
    (hs.bounds i stream hi).1 (some (g stream))
  rw [hi] at hsum
  unfold total updateStream
  rw [hi]
  exact hsum

theorem streamAt_updateStream
    (hi : s.streamAt i = some stream) (g : SrsStatisticStream → SrsStatisticStream) :
    (s.updateStream i g).streamAt = update s.streamAt i (some (g stream)) := by
  unfold updateStream
  rw [hi]
  rfl

/-! ## Vhosts -/

variable {req : SrsRequest}

theorem createVhost_known {v : ℕ}
    (h : s.rvhosts.get? req.vhost = some v) (id : String) : s.createVhost req id = (s, v) := by
  unfold createVhost
  rw [h]

/-- A new vhost has no streams. -/
theorem total_new_vhost (hs : s.Sound)
    (hf : ∀ stream, stream.vhost ≠ s.nextVhost → f stream = 0) : s.total f = 0 := by
  refine total_eq_zero fun i stream hi => hf stream ?_
  exact (hs.bounds i stream hi).2.ne

theorem Sound.createVhost (hs : s.Sound) (req : SrsRequest) (id : String) :
    (s.createVhost req id).1.Sound ∧ (s.createVhost req id).2 < (s.createVhost req id).1.nextVhost := by
  unfold SrsStatistic.createVhost
  cases hv : s.rvhosts.get? req.vhost with
  | some v => exact ⟨hs, hs.rvhosts _ _ hv⟩
  | none =>
    refine ⟨{ hs with bounds := ?_, rvhosts := ?_, active := ?_ }, Nat.lt_succ_self _⟩
    · intro i stream hi
      obtain ⟨hlt, hvhost⟩ := hs.bounds i stream hi
      exact ⟨hlt, Nat.lt_succ_of_lt hvhost⟩
    · intro name v hname
      rw [Dict.get?_set] at hname
      by_cases heq : req.vhost = name
      · rw [if_pos heq] at hname
        cases hname
        exact Nat.lt_succ_self _
      · rw [if_neg heq] at hname
        exact Nat.lt_succ_of_lt (hs.rvhosts name v hname)
    · intro v
      by_cases heq : v = s.nextVhost
      · subst heq
        dsimp only
        rw [update_self]
        exact (total_new_vhost hs fun stream hne => if_neg fun h => hne h.1).symm
      · dsimp only
        rw [update_of_ne heq]
        exact hs.active v

theorem Exact.createVhost (hs : s.Sound) (he : s.Exact) (req : SrsRequest)
    (id : String) : (s.createVhost req id).1.Exact := by
  unfold SrsStatistic.createVhost
  cases hv : s.rvhosts.get? req.vhost with
  | some v => exact he
  | none =>
    refine { he with vhosts := ?_ }
    intro v
    by_cases heq : v = s.nextVhost
    · subst heq
      dsimp only
      rw [update_self]
      exact (total_new_vhost hs fun stream hne => if_neg hne).symm
    · dsimp only
      rw [update_of_ne heq]
      exact he.vhosts v

/-- What a new vhost leaves alone. -/
theorem createVhost_frame (s : SrsStatistic) (req : SrsRequest) (id : String) :
    (s.createVhost req id).1.streamAt = s.streamAt ∧
      (s.createVhost req id).1.nextStream = s.nextStream ∧
      (s.createVhost req id).1.rstreams = s.rstreams ∧
      (s.createVhost req id).1.clients = s.clients := by
  unfold createVhost
  cases s.rvhosts.get? req.vhost <;> exact ⟨rfl, rfl, rfl, rfl⟩

/-! ## Streams -/

theorem createStream_known
    (h : s.rstreams.get? req.getStreamUrl = some i) (vhost : ℕ) (id : String) :
    s.createStream vhost req id = (s, i) := by
  unfold createStream
  rw [h]

theorem createStream_new (h : s.rstreams.get? req.getStreamUrl = none) (vhost : ℕ) (id : String) :
    s.createStream vhost req id =
      ({ s with
        rstreams := s.rstreams.set req.getStreamUrl s.nextStream
        streams := s.streams.set id s.nextStream
        streamAt := update s.streamAt s.nextStream
          (some { id := id, vhost := vhost, url := req.getStreamUrl })
        nextStream := s.nextStream + 1 }, s.nextStream) := by
  unfold createStream
  rw [h]

theorem Sound.streamAt_nextStream (hs : s.Sound) : s.streamAt s.nextStream = none := by
  cases h : s.streamAt s.nextStream with
  | none => rfl
  | some stream => exact absurd (hs.bounds _ _ h).1 (lt_irrefl _)

theorem Sound.attached_eq_zero (hs : s.Sound) (hi : s.streamAt i = none) : s.attached i = 0 := by
  by_contra hne
  obtain ⟨id, c, hc, heq⟩ := (Dict.count_pos_iff _ _).mp (Nat.pos_of_ne_zero hne)
  obtain ⟨stream, hstream⟩ := hs.clients id c hc
  rw [of_decide_eq_true heq, hi] at hstream
  cases hstream

theorem total_createStream (h : s.rstreams.get? req.getStreamUrl = none) (vhost : ℕ) (id : String)
    (f : SrsStatisticStream → ℤ) : (s.createStream vhost req id).1.total f =
      s.total f + f { id := id, vhost := vhost, url := req.getStreamUrl } := by
  rw [createStream_new h]
  exact sum_range_succ_update (fun o : Option SrsStatisticStream => (o.map f).getD 0) s.streamAt
    s.nextStream _

theorem Sound.createStream (hs : s.Sound) {vhost : ℕ}
    (hvhost : vhost < s.nextVhost) (req : SrsRequest) (id : String) :
    (s.createStream vhost req id).1.Sound := by
  cases hi : s.rstreams.get? req.getStreamUrl with
  | some i =>
    rw [createStream_known hi]
    exact hs
  | none =>
    have hactive : ∀ v, (s.createStream vhost req id).1.activeStreams v = s.activeStreams v := by
      intro v
      unfold activeStreams
      rw [total_createStream hi, if_neg (by simp), add_zero]
    have hfresh := hs.streamAt_nextStream
    rw [createStream_new hi] at hactive ⊢
    have hat : ∀ {j : ℕ} {stream : SrsStatisticStream}, s.streamAt j = some stream →
        update s.streamAt s.nextStream
          (some { id := id, vhost := vhost, url := req.getStreamUrl }) j = some stream := by
      intro j stream hj
      rw [update_of_ne (hs.bounds j stream hj).1.ne, hj]
    constructor
    case rstreams =>
      intro url j
      dsimp only
      rw [Dict.get?_set]
      by_cases heq : req.getStreamUrl = url
      · rw [if_pos heq]
        constructor
        · rintro ⟨⟩
          exact ⟨_, update_self _ _ _, heq⟩
        · rintro ⟨stream, hj, hurl⟩
          by_cases hne : j = s.nextStream
          · rw [hne]
          · rw [update_of_ne hne] at hj
            have hknown := (hs.rstreams url j).mpr ⟨stream, hj, hurl⟩
            rw [← heq, hi] at hknown
            cases hknown
      · rw [if_neg heq, hs.rstreams url j]
        constructor
        · rintro ⟨stream, hj, hurl⟩
          exact ⟨stream, hat hj, hurl⟩
        · rintro ⟨stream, hj, hurl⟩
          by_cases hne : j = s.nextStream
          · rw [hne, update_self] at hj
            cases hj
            exact absurd hurl heq
          · rw [update_of_ne hne] at hj
            exact ⟨stream, hj, hurl⟩
    case streams =>
      intro id' j hj
      dsimp only at hj ⊢
      rw [Dict.get?_set] at hj
      by_cases heq : id = id'
      · rw [if_pos heq] at hj
        cases hj
        exact ⟨_, update_self _ _ _, heq⟩
      · rw [if_neg heq] at hj
        obtain ⟨stream, hstream, hid⟩ := hs.streams id' j hj
        exact ⟨stream, hat hstream, hid⟩
    case bounds =>
      intro j stream hj
      dsimp only at hj ⊢
      by_cases hne : j = s.nextStream
      · rw [hne, update_self] at hj
        cases hj
        exact ⟨hne ▸ Nat.lt_succ_self _, hvhost⟩
      · rw [update_of_ne hne] at hj
        obtain ⟨hlt, hv⟩ := hs.bounds j stream hj
        exact ⟨Nat.lt_succ_of_lt hlt, hv⟩
    case rvhosts => exact hs.rvhosts
    case clients =>
      intro id' c hc
      obtain ⟨stream, hstream⟩ := hs.clients id' c hc
      exact ⟨stream, hat hstream⟩
    case counts =>
      intro j stream hj
      dsimp only at hj
      by_cases hne : j = s.nextStream
      · have hzero := hs.attached_eq_zero hfresh
        rw [hne, update_self] at hj
        cases hj
        rw [hne]
        exact (congrArg Int.ofNat hzero).le
      · rw [update_of_ne hne] at hj
        exact hs.counts j stream hj
    case active =>
      intro v
      rw [hactive v]
      exact hs.active v

theorem Exact.createStream (hs : s.Sound) (he : s.Exact) (vhost : ℕ)
    (req : SrsRequest) (id : String) : (s.createStream vhost req id).1.Exact := by
  cases hi : s.rstreams.get? req.getStreamUrl with
  | some i =>
    rw [createStream_known hi]
    exact he
  | none =>
    have hcounted : ∀ v, (s.createStream vhost req id).1.countedClients v =
        s.countedClients v := by
      intro v
      unfold countedClients
      rw [total_createStream hi, ite_self, add_zero]
    have hfresh := hs.streamAt_nextStream
    rw [createStream_new hi] at hcounted ⊢
    constructor
    · intro j stream hj
      dsimp only at hj
      by_cases hne : j = s.nextStream
      · have hzero := hs.attached_eq_zero hfresh
        rw [hne, update_self] at hj
        cases hj
        rw [hne]
        exact (congrArg Int.ofNat hzero).symm
      · rw [update_of_ne hne] at hj
        exact he.streams j stream hj
    · intro v
      rw [hcounted v]
      exact he.vhosts v

/-! ## What each event creates -/

theorem create_fst (s : SrsStatistic) (req : SrsRequest) (vid sid : String) :
    s.create req vid sid = (((s.createVhost req vid).1.createStream (s.createVhost req vid).2 req
      sid).1, (s.createVhost req vid).2, ((s.createVhost req vid).1.createStream
        (s.createVhost req vid).2 req sid).2) := rfl

theorem Sound.create (hs : s.Sound) (req : SrsRequest) (vid sid : String) :
    (s.create req vid sid).1.Sound := by
  obtain ⟨hvhost, hlt⟩ := hs.createVhost req vid
  exact hvhost.createStream hlt req sid

theorem Exact.create (hs : s.Sound) (he : s.Exact) (req : SrsRequest)
    (vid sid : String) : (s.create req vid sid).1.Exact :=
  (he.createVhost hs req vid).createStream (hs.createVhost req vid).1 _ req sid

/-- The clients stay. The stream of the request is there, as it was or new and in the vhost of the
request, and the other streams stay. -/
theorem create_spec (s : SrsStatistic) (req : SrsRequest) (vid sid : String) :
    (s.create req vid sid).1.clients = s.clients ∧
    (∃ i, s.rstreams.get? req.getStreamUrl = some i ∧ (s.create req vid sid).2.2 = i ∧
      (s.create req vid sid).1.streamAt = s.streamAt) ∨
    (s.create req vid sid).1.clients = s.clients ∧
      s.rstreams.get? req.getStreamUrl = none ∧ (s.create req vid sid).2.2 = s.nextStream ∧
      (s.create req vid sid).1.streamAt = update s.streamAt s.nextStream
        (some { id := sid, vhost := (s.create req vid sid).2.1, url := req.getStreamUrl }) := by
  obtain ⟨hat, hnext, hrstreams, hclients⟩ := createVhost_frame s req vid
  rw [create_fst]
  cases hi : s.rstreams.get? req.getStreamUrl with
  | some i =>
    rw [← hrstreams] at hi
    rw [createStream_known hi]
    exact .inl ⟨hclients, i, rfl, rfl, hat⟩
  | none =>
    rw [← hrstreams] at hi
    rw [createStream_new hi, hnext, hat]
    exact .inr ⟨hclients, rfl, rfl, rfl⟩

/-! ## One stream, its vhost and the clients -/

/-- The counters of a stream and of a vhost change, and the clients. -/
def change (s : SrsStatistic) (clients : Dict String SrsStatisticClient) (i : ℕ)
    (g : SrsStatisticStream → SrsStatisticStream) (v : ℕ)
    (k : SrsStatisticVhost → SrsStatisticVhost) : SrsStatistic :=
  ({ s with clients := clients }.updateStream i g).updateVhost v k

/-- The stream stays what it is. -/
def SameStream (stream stream' : SrsStatisticStream) : Prop :=
  stream'.id = stream.id ∧ stream'.vhost = stream.vhost ∧ stream'.url = stream.url

section Change

variable {s : SrsStatistic} {clients : Dict String SrsStatisticClient} {i v : ℕ}
  {stream : SrsStatisticStream} {g : SrsStatisticStream → SrsStatisticStream}
  {k : SrsStatisticVhost → SrsStatisticVhost}

theorem streamAt_change (hi : s.streamAt i = some stream) :
    (s.change clients i g v k).streamAt = update s.streamAt i (some (g stream)) :=
  streamAt_updateStream hi g

theorem total_change (hs : s.Sound) (hi : s.streamAt i = some stream) (f : SrsStatisticStream → ℤ) :
    (s.change clients i g v k).total f = s.total f - f stream + f (g stream) :=
  total_updateStream hs hi g f

/-- Each stream that is there was there. -/
theorem exists_of_streamAt_change (hi : s.streamAt i = some stream)
    (hsame : SameStream stream (g stream)) {j : ℕ} {stream' : SrsStatisticStream}
    (h : (s.change clients i g v k).streamAt j = some stream') :
    ∃ old, s.streamAt j = some old ∧ SameStream old stream' ∧
      (j = i ∧ stream' = g stream ∨ j ≠ i ∧ stream' = old) := by
  rw [streamAt_change hi] at h
  by_cases hj : j = i
  · subst hj
    rw [update_self] at h
    cases h
    exact ⟨stream, hi, hsame, .inl ⟨rfl, rfl⟩⟩
  · rw [update_of_ne hj] at h
    exact ⟨stream', h, ⟨rfl, rfl, rfl⟩, .inr ⟨hj, rfl⟩⟩

theorem exists_streamAt_change (hi : s.streamAt i = some stream)
    (hsame : SameStream stream (g stream)) {j : ℕ} {old : SrsStatisticStream}
    (h : s.streamAt j = some old) :
    ∃ stream', (s.change clients i g v k).streamAt j = some stream' ∧ SameStream old stream' := by
  rw [streamAt_change hi]
  by_cases hj : j = i
  · subst hj
    rw [hi] at h
    cases h
    exact ⟨g stream, update_self _ _ _, hsame⟩
  · exact ⟨old, by rw [update_of_ne hj, h], ⟨rfl, rfl, rfl⟩⟩

theorem Sound.change (hs : s.Sound) (hi : s.streamAt i = some stream)
    (hsame : SameStream stream (g stream))
    (hclients : ∀ id c, clients.get? id = some c → ∃ st, s.streamAt c.stream = some st)
    (hothers : ∀ j, j ≠ i → (s.change clients i g v k).attached j ≤ s.attached j)
    (hcounts : ((s.change clients i g v k).attached i : ℤ) ≤ (g stream).nbClients)
    (hactive : ∀ w, ((s.change clients i g v k).vhostAt w).nbStreams =
      (s.change clients i g v k).activeStreams w) : (s.change clients i g v k).Sound := by
  constructor
  case rstreams =>
    intro url j
    refine (hs.rstreams url j).trans ?_
    constructor
    · rintro ⟨old, hold, hurl⟩
      obtain ⟨stream', hj, -, -, hurl'⟩ := exists_streamAt_change hi hsame hold
      exact ⟨stream', hj, hurl'.trans hurl⟩
    · rintro ⟨stream', hj, hurl⟩
      obtain ⟨old, hold, ⟨-, -, hurl'⟩, -⟩ := exists_of_streamAt_change hi hsame hj
      exact ⟨old, hold, hurl'.symm.trans hurl⟩
  case streams =>
    intro id j hj
    obtain ⟨old, hold, hid⟩ := hs.streams id j hj
    obtain ⟨stream', hj', hid', -⟩ := exists_streamAt_change hi hsame hold
    exact ⟨stream', hj', hid'.trans hid⟩
  case bounds =>
    intro j stream' hj
    obtain ⟨old, hold, ⟨-, hvhost, -⟩, -⟩ := exists_of_streamAt_change hi hsame hj
    rw [hvhost]
    exact hs.bounds j old hold
  case rvhosts => exact hs.rvhosts
  case clients =>
    intro id c hc
    obtain ⟨old, hold⟩ := hclients id c hc
    obtain ⟨stream', hj, -⟩ := exists_streamAt_change hi hsame hold
    exact ⟨stream', hj⟩
  case counts =>
    intro j stream' hj
    obtain ⟨old, hold, -, ⟨rfl, rfl⟩ | ⟨hne, rfl⟩⟩ := exists_of_streamAt_change hi hsame hj
    · exact hcounts
    · exact (Int.ofNat_le.mpr (hothers j hne)).trans (hs.counts j _ hold)
  case active => exact hactive

theorem Exact.change (he : s.Exact) (hi : s.streamAt i = some stream)
    (hsame : SameStream stream (g stream))
    (hothers : ∀ j, j ≠ i → (s.change clients i g v k).attached j = s.attached j)
    (hcounts : (g stream).nbClients = (s.change clients i g v k).attached i)
    (hvhosts : ∀ w, ((s.change clients i g v k).vhostAt w).nbClients =
      (s.change clients i g v k).countedClients w) : (s.change clients i g v k).Exact := by
  refine ⟨?_, hvhosts⟩
  intro j stream' hj
  obtain ⟨old, hold, -, ⟨rfl, rfl⟩ | ⟨hne, rfl⟩⟩ := exists_of_streamAt_change hi hsame hj
  · exact hcounts
  · rw [hothers j hne]
    exact he.streams j _ hold

/-- The counter of one vhost follows a sum in which one stream of it has changed. -/
theorem counter_change {n : SrsStatisticVhost → ℤ} {f : ℕ → SrsStatisticStream → ℤ} (hs : s.Sound)
    (hi : s.streamAt i = some stream) (hn : ∀ w, n (s.vhostAt w) = s.total (f w))
    (hv : n (k (s.vhostAt v)) = n (s.vhostAt v) - f v stream + f v (g stream))
    (hw : ∀ w, w ≠ v → f w stream = f w (g stream)) (w : ℕ) :
    n ((s.change clients i g v k).vhostAt w) = (s.change clients i g v k).total (f w) := by
  rw [total_change hs hi]
  show n (update s.vhostAt v (k (s.vhostAt v)) w) = _
  by_cases heq : w = v
  · rw [heq, update_self, hv, hn]
  · rw [update_of_ne heq, hn, hw w heq]
    ring

end Change

/-! ## Publishing -/

variable {g : SrsStatisticStream → SrsStatisticStream}

/-- A stream that becomes active, or stops being so. -/
theorem sound_setActive (hs : s.Sound) (hi : s.streamAt i = some stream) {n : ℤ}
    (hsame : SameStream stream (g stream)) (hclients : (g stream).nbClients = stream.nbClients)
    (hn : (if (g stream).active then 1 else 0) = (if stream.active then 1 else 0) + n) :
    (s.change s.clients i g stream.vhost fun v => { v with nbStreams := v.nbStreams + n }).Sound := by
  refine hs.change hi hsame hs.clients (fun j _ => le_rfl) ?_ ?_
  · rw [hclients]
    exact hs.counts i stream hi
  · refine counter_change hs hi hs.active ?_ ?_
    · dsimp only
      rw [hsame.2.1]
      simp only [true_and]
      omega
    · intro w hw
      rw [hsame.2.1, if_neg fun h => hw h.1.symm, if_neg fun h => hw h.1.symm]

theorem exact_setActive (hs : s.Sound) (he : s.Exact) (hi : s.streamAt i = some stream) {n : ℤ}
    (hsame : SameStream stream (g stream)) (hclients : (g stream).nbClients = stream.nbClients) :
    (s.change s.clients i g stream.vhost fun v => { v with nbStreams := v.nbStreams + n }).Exact := by
  refine he.change hi hsame (fun j _ => rfl) ?_ ?_
  · rw [hclients]
    exact he.streams i stream hi
  · refine counter_change hs hi he.vhosts ?_ ?_
    · dsimp only
      rw [hsame.2.1, hclients]
      ring
    · intro w hw
      rw [hsame.2.1, hclients]

theorem publish_eq (hi : s.streamAt i = some stream) (id : String) :
    s.publish i id = if stream.active then s
      else s.change s.clients i (fun st => { st with publisherId := id, active := true })
        stream.vhost fun v => { v with nbStreams := v.nbStreams + 1 } := by
  unfold publish
  rw [hi]
  rfl

theorem close_eq (hi : s.streamAt i = some stream) :
    s.close i = if stream.active then
        s.change s.clients i (fun st => { st with active := false }) stream.vhost
          fun v => { v with nbStreams := v.nbStreams + -1 }
      else s := by
  unfold close
  rw [hi]
  rfl

theorem Sound.publish (hs : s.Sound) (hi : s.streamAt i = some stream) (id : String) :
    (s.publish i id).Sound ∧ (s.Exact → (s.publish i id).Exact) := by
  rw [publish_eq hi]
  by_cases hactive : stream.active = true
  · rw [if_pos hactive]
    exact ⟨hs, fun he => he⟩
  · rw [if_neg hactive]
    refine ⟨sound_setActive hs hi ⟨rfl, rfl, rfl⟩ rfl ?_, fun he =>
      exact_setActive hs he hi ⟨rfl, rfl, rfl⟩ rfl⟩
    rw [if_pos rfl, if_neg hactive]
    rfl

theorem Sound.close (hs : s.Sound) (hi : s.streamAt i = some stream) :
    (s.close i).Sound ∧ (s.Exact → (s.close i).Exact) := by
  rw [close_eq hi]
  by_cases hactive : stream.active = true
  · rw [if_pos hactive]
    refine ⟨sound_setActive hs hi ⟨rfl, rfl, rfl⟩ rfl ?_, fun he =>
      exact_setActive hs he hi ⟨rfl, rfl, rfl⟩ rfl⟩
    rw [if_neg Bool.false_ne_true, if_pos hactive]
    rfl
  · rw [if_neg hactive]
    exact ⟨hs, fun he => he⟩

/-! ## Clients -/

variable {id : String}

theorem addClient_count {v : ℕ} {n : ℤ} :
    (s.addClient id i).count i v n = s.change (s.addClient id i).clients i
      (fun st => { st with nbClients := st.nbClients + n }) v
        fun w => { w with nbClients := w.nbClients + n } := by
  unfold addClient
  split <;> rfl

/-- The clients after one has been added, if it is new. -/
theorem attached_addClient (i j : ℕ) {v : ℕ} {k : SrsStatisticVhost → SrsStatisticVhost} :
    (s.change (s.addClient id i).clients i g v k).attached j = s.attached j +
      if s.clients.get? id = none ∧ i = j then 1 else 0 := by
  show (s.addClient id i).clients.count _ = _
  unfold addClient
  cases hid : s.clients.get? id with
  | some c =>
    rw [if_pos (by simp [Dict.contains, hid]), if_neg (by simp), Nat.add_zero]
    rfl
  | none =>
    rw [if_neg (by simp [Dict.contains, hid])]
    refine (Dict.count_set_new _ hid ⟨i⟩).trans ?_
    simp [attached]

theorem Sound.addClient (hs : s.Sound) (hi : s.streamAt i = some stream) (id : String) (v : ℕ) :
    ((s.addClient id i).count i v 1).Sound := by
  rw [addClient_count]
  refine hs.change hi ⟨rfl, rfl, rfl⟩ ?_ ?_ ?_ ?_
  · intro id' c hc
    unfold SrsStatistic.addClient at hc
    split at hc
    · exact hs.clients id' c hc
    · rw [Dict.get?_set] at hc
      by_cases heq : id = id'
      · rw [if_pos heq] at hc
        cases hc
        exact ⟨stream, hi⟩
      · rw [if_neg heq] at hc
        exact hs.clients id' c hc
  · intro j hj
    rw [attached_addClient, if_neg fun h => hj h.2.symm]
    exact le_rfl
  · have hle := hs.counts i stream hi
    rw [attached_addClient]
    split <;> push_cast <;> omega
  · exact counter_change hs hi hs.active (by dsimp only; ring) fun w _ => rfl

theorem Exact.addClient (hs : s.Sound) (he : s.Exact) (hi : s.streamAt i = some stream)
    (hid : s.clients.get? id = none) : ((s.addClient id i).count i stream.vhost 1).Exact := by
  rw [addClient_count]
  refine he.change hi ⟨rfl, rfl, rfl⟩ ?_ ?_ ?_
  · intro j hj
    rw [attached_addClient, if_neg fun h => hj h.2.symm, Nat.add_zero]
  · have heq := he.streams i stream hi
    rw [attached_addClient, if_pos ⟨hid, rfl⟩]
    push_cast
    omega
  · refine counter_change hs hi he.vhosts ?_ ?_
    · dsimp only
      rw [if_pos rfl, if_pos rfl]
      ring
    · intro w hw
      rw [if_neg fun h => hw h.symm, if_neg fun h => hw h.symm]

/-! ## Disconnecting -/

/-- The statistics without a client, before the stream is cleaned up. -/
def withoutClient (s : SrsStatistic) (id : String) (i v : ℕ) : SrsStatistic :=
  s.change (s.clients.erase id) i (fun st => { st with nbClients := st.nbClients + -1 }) v
    fun w => { w with nbClients := w.nbClients + -1 }

variable {c : SrsStatisticClient}

theorem attached_withoutClient (hc : s.clients.get? id = some c) (i v j : ℕ) :
    (s.withoutClient id i v).attached j + (if c.stream = j then 1 else 0) = s.attached j := by
  have hcount := Dict.count_erase (fun c => decide (c.stream = j)) hc
  simp only [decide_eq_true_eq] at hcount
  exact hcount

theorem Sound.withoutClient (hs : s.Sound) (hc : s.clients.get? id = some c)
    (hi : s.streamAt c.stream = some stream) :
    (s.withoutClient id c.stream stream.vhost).Sound ∧
      (s.Exact → (s.withoutClient id c.stream stream.vhost).Exact) := by
  have hattached := attached_withoutClient hc c.stream stream.vhost
  constructor
  · refine hs.change hi ⟨rfl, rfl, rfl⟩ ?_ ?_ ?_ ?_
    · intro id' c' hc'
      rw [Dict.get?_erase] at hc'
      split at hc'
      · cases hc'
      · exact hs.clients id' c' hc'
    · intro j _
      exact (Nat.le_add_right _ _).trans_eq (hattached j)
    · have hle := hs.counts _ _ hi
      have hone := hattached c.stream
      rw [if_pos rfl] at hone
      show (((s.withoutClient id c.stream stream.vhost).attached c.stream : ℕ) : ℤ) ≤
        stream.nbClients + -1
      omega
    · exact counter_change hs hi hs.active (by dsimp only; ring) fun w _ => rfl
  · intro he
    refine he.change hi ⟨rfl, rfl, rfl⟩ ?_ ?_ ?_
    · intro j hj
      have hzero := hattached j
      rwa [if_neg hj.symm, Nat.add_zero] at hzero
    · have heq := he.streams _ _ hi
      have hone := hattached c.stream
      rw [if_pos rfl] at hone
      show stream.nbClients + -1 =
        (((s.withoutClient id c.stream stream.vhost).attached c.stream : ℕ) : ℤ)
      omega
    · refine counter_change hs hi he.vhosts ?_ ?_
      · dsimp only
        rw [if_pos rfl, if_pos rfl]
        ring
      · intro w hw
        rw [if_neg fun h => hw h.symm, if_neg fun h => hw h.symm]

/-- The statistics without a stream. -/
def free (s : SrsStatistic) (i : ℕ) (stream : SrsStatisticStream) : SrsStatistic :=
  { s with
    streams := s.streams.erase stream.id
    rstreams := s.rstreams.erase stream.url
    streamAt := Function.update s.streamAt i none }

theorem total_free (hs : s.Sound) (hi : s.streamAt i = some stream) (f : SrsStatisticStream → ℤ) :
    (s.free i stream).total f = s.total f - f stream := by
  have hsum := sum_range_update (fun o : Option SrsStatisticStream => (o.map f).getD 0) s.streamAt
    (hs.bounds i stream hi).1 none
  rw [hi] at hsum
  exact hsum.trans (add_zero _)

theorem streamAt_free {j : ℕ} {stream' : SrsStatisticStream} :
    (s.free i stream).streamAt j = some stream' ↔ j ≠ i ∧ s.streamAt j = some stream' := by
  show update s.streamAt i none j = some stream' ↔ _
  by_cases hj : j = i
  · rw [hj, update_self]
    simp
  · rw [update_of_ne hj]
    simp [hj]

theorem Sound.free (hs : s.Sound)
    (hi : s.streamAt i = some stream) (hactive : stream.active = false) (hnone : s.attached i = 0) :
    (s.free i stream).Sound := by
  constructor
  case rstreams =>
    intro url j
    show (s.rstreams.erase stream.url).get? url = some j ↔ _
    rw [Dict.get?_erase]
    constructor
    · intro h
      split at h
      · cases h
      · next hne =>
        obtain ⟨old, hold, hurl⟩ := (hs.rstreams url j).mp h
        refine ⟨old, streamAt_free.mpr ⟨?_, hold⟩, hurl⟩
        rintro rfl
        rw [hi] at hold
        cases hold
        exact hne hurl
    · rintro ⟨old, hold, hurl⟩
      obtain ⟨hj, hold⟩ := streamAt_free.mp hold
      rw [if_neg]
      · exact (hs.rstreams url j).mpr ⟨old, hold, hurl⟩
      · rintro rfl
        have hsame := (hs.rstreams _ j).mpr ⟨old, hold, hurl⟩
        rw [(hs.rstreams _ i).mpr ⟨stream, hi, rfl⟩] at hsame
        exact hj (Option.some.inj hsame).symm
  case streams =>
    intro id j hj
    have hget : (s.streams.erase stream.id).get? id = some j := hj
    rw [Dict.get?_erase] at hget
    split at hget
    · cases hget
    · next hne =>
      obtain ⟨old, hold, hid⟩ := hs.streams id j hget
      refine ⟨old, streamAt_free.mpr ⟨?_, hold⟩, hid⟩
      rintro rfl
      rw [hi] at hold
      cases hold
      exact hne hid
  case bounds => exact fun j old hold => hs.bounds j old (streamAt_free.mp hold).2
  case rvhosts => exact hs.rvhosts
  case clients =>
    intro id c hc
    obtain ⟨old, hold⟩ := hs.clients id c hc
    refine ⟨old, streamAt_free.mpr ⟨fun heq => ?_, hold⟩⟩
    have hpos := (Dict.count_pos_iff (fun c : SrsStatisticClient => decide (c.stream = i))
      s.clients).mpr ⟨id, c, hc, decide_eq_true heq⟩
    exact hpos.ne' hnone
  case counts => exact fun j old hold => hs.counts j old (streamAt_free.mp hold).2
  case active =>
    intro v
    rw [activeStreams, total_free hs hi, if_neg (by simp [hactive]), sub_zero]
    exact hs.active v

theorem Exact.free (hs : s.Sound) (he : s.Exact)
    (hi : s.streamAt i = some stream) (hnone : s.attached i = 0) :
    (s.free i stream).Exact := by
  constructor
  · exact fun j old hold => he.streams j old (streamAt_free.mp hold).2
  · intro v
    have hzero : stream.nbClients = 0 := by
      rw [he.streams i stream hi, hnone]
      rfl
    rw [countedClients, total_free hs hi, hzero, ite_self, sub_zero]
    exact he.vhosts v

/-- The check of `cleanup_stream` passes. -/
theorem cleanupStream_eq (hs : s.Sound) (hi : s.streamAt i = some stream) :
    (stream.active ∨ stream.nbClients > 0) ∧ s.cleanupStream i = some s ∨
      stream.active = false ∧ stream.nbClients ≤ 0 ∧ s.attached i = 0 ∧
        s.cleanupStream i = some (s.free i stream) := by
  unfold SrsStatistic.cleanupStream
  rw [hi]
  dsimp only
  by_cases hkept : stream.active ∨ stream.nbClients > 0
  · exact .inl ⟨hkept, if_pos hkept⟩
  · obtain ⟨hactive, hnb⟩ := not_or.mp hkept
    have hle := hs.counts i stream hi
    have hnone : s.attached i = 0 := by omega
    have hany : s.clients.entries.any (fun e => e.2.stream = i) = false := by
      rw [Bool.eq_false_iff]
      intro hany
      have hpos : 0 < s.attached i := List.countP_pos_iff.mpr (List.any_eq_true.mp hany)
      omega
    rw [if_neg hkept, hany, if_neg Bool.false_ne_true]
    exact .inr ⟨Bool.eq_false_iff.mpr hactive, not_lt.mp hnb, hnone, rfl⟩

/-- A disconnect of a client that is not there does nothing. A stream that loses a client stays, or
goes with its last one. -/
theorem onDisconnect_cases (hs : s.Sound) (id : String) :
    s.clients.get? id = none ∧ s.onDisconnect id = some s ∨
    ∃ c stream t, s.clients.get? id = some c ∧ s.streamAt c.stream = some stream ∧
      t = s.withoutClient id c.stream stream.vhost ∧ t.Sound ∧ (s.Exact → t.Exact) ∧
      ((stream.active ∨ stream.nbClients + -1 > 0) ∧ s.onDisconnect id = some t ∨
        ∃ stream', t.streamAt c.stream = some stream' ∧ stream'.active = false ∧
          t.attached c.stream = 0 ∧ s.onDisconnect id = some (t.free c.stream stream')) := by
  unfold SrsStatistic.onDisconnect
  cases hc : s.clients.get? id with
  | none => exact .inl ⟨rfl, rfl⟩
  | some c =>
    obtain ⟨stream, hi⟩ := hs.clients id c hc
    obtain ⟨hs', he'⟩ := hs.withoutClient hc hi
    have hi' : (s.withoutClient id c.stream stream.vhost).streamAt c.stream =
        some { stream with nbClients := stream.nbClients + -1 } := by
      unfold SrsStatistic.withoutClient
      rw [streamAt_change hi, update_self]
    refine .inr ⟨c, stream, _, rfl, hi, rfl, hs', he', ?_⟩
    dsimp only
    rw [hi]
    rcases cleanupStream_eq hs' hi' with ⟨hkept, heq⟩ | ⟨hactive, -, hnone, heq⟩
    · exact .inl ⟨hkept, heq⟩
    · exact .inr ⟨_, hi', hactive, hnone, heq⟩

/-! ## The stream of a request -/

theorem exists_streamAt_create (hs : s.Sound) (req : SrsRequest) (vid sid : String) : ∃ stream,
      (s.create req vid sid).1.streamAt (s.create req vid sid).2.2 = some stream := by
  rcases create_spec s req vid sid with ⟨-, i, hi, heq, hat⟩ | ⟨-, -, heq, hat⟩
  · obtain ⟨stream, hstream, -⟩ := (hs.rstreams _ i).mp hi
    exact ⟨stream, by rw [hat, heq, hstream]⟩
  · exact ⟨_, by rw [hat, heq, update_self]⟩

/-- A stream is there after the creation if it was there or if it is new. -/
theorem streamAt_create {vid sid : String} {j : ℕ}
    (h : (s.create req vid sid).1.streamAt j = some stream) :
    s.streamAt j = some stream ∨
      j = s.nextStream ∧ stream.vhost = (s.create req vid sid).2.1 := by
  rcases create_spec s req vid sid with ⟨-, i, -, -, hat⟩ | ⟨-, -, -, hat⟩
  · rw [hat] at h
    exact .inl h
  · rw [hat] at h
    by_cases hj : j = s.nextStream
    · rw [hj, update_self] at h
      cases h
      exact .inr ⟨hj, rfl⟩
    · rw [update_of_ne hj] at h
      exact .inl h

theorem nextStream_le_create (s : SrsStatistic) (req : SrsRequest) (vid sid : String) :
    s.nextStream ≤ (s.create req vid sid).1.nextStream := by
  obtain ⟨-, hnext, -, -⟩ := createVhost_frame s req vid
  rw [create_fst]
  dsimp only
  cases hi : (s.createVhost req vid).1.rstreams.get? req.getStreamUrl with
  | some i =>
    rw [createStream_known hi, hnext]
  | none =>
    rw [createStream_new hi]
    exact hnext ▸ Nat.le_succ _

/-- The requests for a stream name its vhost. -/
def SameVhost (s : SrsStatistic) (req : SrsRequest) : Prop :=
  ∀ i stream, s.rstreams.get? req.getStreamUrl = some i → s.streamAt i = some stream →
    s.rvhosts.get? req.vhost = some stream.vhost

theorem vhost_create (h : s.SameVhost req) {vid sid : String}
    (hat : (s.create req vid sid).1.streamAt (s.create req vid sid).2.2 = some stream) :
    stream.vhost = (s.create req vid sid).2.1 := by
  rcases create_spec s req vid sid with ⟨-, i, hi, heq, hsame⟩ | ⟨-, -, heq, hnew⟩
  · rw [heq, hsame] at hat
    rw [create_fst]
    exact (congrArg Prod.snd (createVhost_known (h i stream hi hat) vid)).symm
  · rw [heq, hnew, update_self] at hat
    cases hat
    rfl

end SrsStatistic

/-! ## Runs -/

/-- The statistics, and the addresses of the streams that have had a client. -/
structure Run where
  stat : SrsStatistic
  served : Finset ℕ

namespace Run

def new : Run := ⟨.new, ∅⟩

def step (r : Run) (e : Event) : Option Run :=
  (r.stat.step e).map fun s => ⟨s, match e with
    | .onClient _ req vid sid => insert (r.stat.create req vid sid).2.2 r.served
    | _ => r.served⟩

/-- A client registers once before it disconnects, under the vhost of its stream, and a stream is
not closed after its last client has disconnected. -/
def Proper (r : Run) : Event → Prop
  | .onClient id req _ _ => r.stat.clients.get? id = none ∧ r.stat.SameVhost req
  | .onStreamClose req _ _ => ∀ i stream, r.stat.rstreams.get? req.getStreamUrl = some i →
      r.stat.streamAt i = some stream → i ∈ r.served → stream.active → 0 < stream.nbClients
  | _ => True

/-- A stream that has had a client is active or has one. -/
structure Tidy (r : Run) : Prop where
  served_lt : ∀ i ∈ r.served, i < r.stat.nextStream
  streams : ∀ i stream, r.stat.streamAt i = some stream → i ∈ r.served →
    stream.active ∨ 0 < stream.nbClients

end Run

open SrsStatistic

theorem sound_new : SrsStatistic.new.Sound where
  rstreams url i := by simp [SrsStatistic.new]
  streams id i h := by cases h
  bounds i stream h := by cases h
  rvhosts name v h := by cases h
  clients id c h := by cases h
  counts i stream h := by cases h
  active v := rfl

theorem exact_new : SrsStatistic.new.Exact where
  streams i stream h := by cases h
  vhosts v := rfl

/-- Every event keeps the maps and the counters sound, and the process goes on. -/
theorem sound_step {s : SrsStatistic} (hs : s.Sound) (e : Event) :
    ∃ s', s.step e = some s' ∧ s'.Sound := by
  cases e with
  | onClient id req vid sid =>
    obtain ⟨stream, hi⟩ := exists_streamAt_create hs req vid sid
    exact ⟨_, rfl, (hs.create req vid sid).addClient hi id _⟩
  | onStreamPublish req publisherId vid sid =>
    obtain ⟨stream, hi⟩ := exists_streamAt_create hs req vid sid
    exact ⟨_, rfl, ((hs.create req vid sid).publish hi publisherId).1⟩
  | onStreamClose req vid sid =>
    obtain ⟨stream, hi⟩ := exists_streamAt_create hs req vid sid
    exact ⟨_, rfl, ((hs.create req vid sid).close hi).1⟩
  | onDisconnect id =>
    rcases onDisconnect_cases hs id with
      ⟨-, heq⟩ | ⟨c, stream, t, -, -, -, hs', -, ⟨-, heq⟩ | ⟨stream', hi', hactive, hnone, heq⟩⟩
    · exact ⟨s, heq, hs⟩
    · exact ⟨t, heq, hs'⟩
    · exact ⟨_, heq, hs'.free hi' hactive hnone⟩

variable {r : Run}

/-- A proper event keeps the counters exact. -/
theorem exact_step (hs : r.stat.Sound) (he : r.stat.Exact) {e : Event}
    (hproper : r.Proper e) {s' : SrsStatistic} (h : r.stat.step e = some s') : s'.Exact := by
  cases e with
  | onClient id req vid sid =>
    cases h
    obtain ⟨hnew, hvhost⟩ := hproper
    obtain ⟨stream, hi⟩ := exists_streamAt_create hs req vid sid
    have hclients : (r.stat.create req vid sid).1.clients.get? id = none := by
      rcases create_spec r.stat req vid sid with ⟨hc, -⟩ | ⟨hc, -⟩ <;> rw [hc, hnew]
    have hadd := (he.create hs req vid sid).addClient (hs.create req vid sid) hi hclients
    rwa [vhost_create hvhost hi] at hadd
  | onStreamPublish req publisherId vid sid =>
    cases h
    obtain ⟨stream, hi⟩ := exists_streamAt_create hs req vid sid
    exact ((hs.create req vid sid).publish hi publisherId).2 (he.create hs req vid sid)
  | onStreamClose req vid sid =>
    cases h
    obtain ⟨stream, hi⟩ := exists_streamAt_create hs req vid sid
    exact ((hs.create req vid sid).close hi).2 (he.create hs req vid sid)
  | onDisconnect id =>
    rcases onDisconnect_cases hs id with
      ⟨-, heq⟩ | ⟨c, stream, t, -, -, -, hs', he', ⟨-, heq⟩ | ⟨stream', hi', -, hnone, heq⟩⟩
    · exact Option.some.inj (heq.symm.trans h) ▸ he
    · exact Option.some.inj (heq.symm.trans h) ▸ he' he
    · exact Option.some.inj (heq.symm.trans h) ▸ (he' he).free hs' hi' hnone

namespace Run

variable {r : Run}

variable {s' : SrsStatistic}

/-- A step that changes one stream. -/
theorem Tidy.of_one (ht : r.Tidy) {served' : Finset ℕ} {i : ℕ}
    (hi : i < s'.nextStream) (hnext : r.stat.nextStream ≤ s'.nextStream)
    (hserved : ∀ j ∈ served', j ≠ i → j ∈ r.served)
    (hothers : ∀ j stream, j ≠ i → j ∈ r.served → s'.streamAt j = some stream →
      r.stat.streamAt j = some stream) (hone : ∀ stream, s'.streamAt i = some stream → i ∈ served' →
      stream.active ∨ 0 < stream.nbClients) : (⟨s', served'⟩ : Run).Tidy := by
  constructor
  · intro j hj
    by_cases hne : j = i
    · rwa [hne]
    · exact (ht.served_lt j (hserved j hj hne)).trans_le hnext
  · intro j stream hstream hj
    by_cases hne : j = i
    · rw [hne] at hstream hj
      exact hone stream hstream hj
    · have hold := hserved j hj hne
      exact ht.streams j stream (hothers j stream hne hold hstream) hold

/-- An event that creates the stream of a request, and leaves `stream` there. -/
theorem Tidy.of_create (ht : r.Tidy) (hs : r.stat.Sound) {req : SrsRequest}
    {vid sid : String} {served' : Finset ℕ} {stream : SrsStatisticStream}
    (hnext : s'.nextStream = (r.stat.create req vid sid).1.nextStream)
    (hat : s'.streamAt = update (r.stat.create req vid sid).1.streamAt
      (r.stat.create req vid sid).2.2 (some stream))
    (hserved : ∀ j ∈ served', j ≠ (r.stat.create req vid sid).2.2 → j ∈ r.served)
    (hone : (r.stat.create req vid sid).2.2 ∈ served' → stream.active ∨ 0 < stream.nbClients) :
    (⟨s', served'⟩ : Run).Tidy := by
  obtain ⟨old, hi⟩ := exists_streamAt_create hs req vid sid
  refine ht.of_one (i := (r.stat.create req vid sid).2.2) ?_ ?_ hserved ?_ ?_
  · exact hnext ▸ ((hs.create req vid sid).bounds _ _ hi).1
  · exact hnext ▸ nextStream_le_create r.stat req vid sid
  · intro j other hj hserved h
    rw [hat, update_of_ne hj] at h
    rcases streamAt_create h with hold | ⟨hnew, -⟩
    · exact hold
    · exact absurd (hnew ▸ ht.served_lt j hserved) (lt_irrefl _)
  · intro stream' h hserved
    rw [hat, update_self] at h
    cases h
    exact hone hserved

theorem Tidy.onClient (ht : r.Tidy) (hs : r.stat.Sound) (id : String)
    (req : SrsRequest) (vid sid : String) :
    (⟨r.stat.onClient id req vid sid, insert (r.stat.create req vid sid).2.2 r.served⟩ :
      Run).Tidy := by
  obtain ⟨stream, hi⟩ := exists_streamAt_create hs req vid sid
  have hrun : r.stat.onClient id req vid sid = ((r.stat.create req vid sid).1.addClient id
      (r.stat.create req vid sid).2.2).count (r.stat.create req vid sid).2.2
      (r.stat.create req vid sid).2.1 1 := rfl
  rw [hrun, addClient_count]
  refine ht.of_create hs rfl (streamAt_change hi)
    (fun j hj hne => (Finset.mem_insert.mp hj).resolve_left hne) fun _ => Or.inr ?_
  have hle := (hs.create req vid sid).counts _ _ hi
  show 0 < stream.nbClients + 1
  omega

theorem Tidy.onStreamPublish (ht : r.Tidy) (hs : r.stat.Sound) (req : SrsRequest)
    (publisherId vid sid : String) :
    (⟨r.stat.onStreamPublish req publisherId vid sid, r.served⟩ : Run).Tidy := by
  obtain ⟨stream, hi⟩ := exists_streamAt_create hs req vid sid
  have hrun : r.stat.onStreamPublish req publisherId vid sid =
      (r.stat.create req vid sid).1.publish (r.stat.create req vid sid).2.2 publisherId := rfl
  rw [hrun, publish_eq hi]
  by_cases hactive : stream.active = true
  · rw [if_pos hactive]
    exact ht.of_create hs rfl (Function.update_eq_self_iff.mpr hi.symm).symm (fun j hj _ => hj)
      fun _ => .inl hactive
  · rw [if_neg hactive]
    exact ht.of_create hs rfl (streamAt_change hi) (fun j hj _ => hj) fun _ => .inl rfl

theorem Tidy.onStreamClose (ht : r.Tidy) (hs : r.stat.Sound) {req : SrsRequest}
    {vid sid : String} (hproper : r.Proper (.onStreamClose req vid sid)) :
    (⟨r.stat.onStreamClose req vid sid, r.served⟩ : Run).Tidy := by
  obtain ⟨stream, hi⟩ := exists_streamAt_create hs req vid sid
  have hrun : r.stat.onStreamClose req vid sid =
      (r.stat.create req vid sid).1.close (r.stat.create req vid sid).2.2 := rfl
  -- A stream that has had a client is not new.
  have hold : (r.stat.create req vid sid).2.2 ∈ r.served →
      r.stat.streamAt (r.stat.create req vid sid).2.2 = some stream ∧
        r.stat.rstreams.get? req.getStreamUrl = some (r.stat.create req vid sid).2.2 := by
    intro hserved
    rcases create_spec r.stat req vid sid with ⟨-, i, hknown, heq, hat⟩ | ⟨-, -, heq, -⟩
    · exact ⟨hat ▸ hi, heq.symm ▸ hknown⟩
    · exact absurd (heq ▸ ht.served_lt _ hserved) (lt_irrefl _)
  rw [hrun, close_eq hi]
  by_cases hactive : stream.active = true
  · rw [if_pos hactive]
    refine ht.of_create hs rfl (streamAt_change hi) (fun j hj _ => hj) fun hserved => Or.inr ?_
    obtain ⟨hat, hknown⟩ := hold hserved
    exact hproper _ stream hknown hat hserved hactive
  · rw [if_neg hactive]
    exact ht.of_create hs rfl (Function.update_eq_self_iff.mpr hi.symm).symm (fun j hj _ => hj)
      fun hserved => ht.streams _ stream (hold hserved).1 hserved

theorem Tidy.onDisconnect (ht : r.Tidy) (hs : r.stat.Sound) {id : String}
    (h : r.stat.onDisconnect id = some s') :
    (⟨s', r.served⟩ : Run).Tidy := by
  rcases onDisconnect_cases hs id with ⟨-, heq⟩ | ⟨c, stream, t, -, hi, rfl, -, -, hend⟩
  · exact Option.some.inj (heq.symm.trans h) ▸ ht
  · have hat : (r.stat.withoutClient id c.stream stream.vhost).streamAt =
        update r.stat.streamAt c.stream
          (some { stream with nbClients := stream.nbClients + -1 }) := streamAt_change hi
    rcases hend with ⟨hkept, heq⟩ | ⟨stream', -, -, -, heq⟩
    · obtain rfl := Option.some.inj (heq.symm.trans h)
      refine ht.of_one (i := c.stream) (hs.bounds _ _ hi).1 le_rfl (fun j hj _ => hj) ?_ ?_
      · intro j old hj _ hold
        rwa [hat, update_of_ne hj] at hold
      · intro stream' hstream' _
        rw [hat, update_self] at hstream'
        cases hstream'
        exact hkept
    · obtain rfl := Option.some.inj (heq.symm.trans h)
      refine ht.of_one (i := c.stream) (hs.bounds _ _ hi).1 le_rfl (fun j hj _ => hj) ?_ ?_
      · intro j old hj _ hold
        obtain ⟨-, hold⟩ := streamAt_free.mp hold
        rwa [hat, update_of_ne hj] at hold
      · intro stream' hstream' _
        exact absurd rfl (streamAt_free.mp hstream').1

/-- A proper event leaves no stream behind. -/
theorem Tidy.step (ht : r.Tidy) (hs : r.stat.Sound) {e : Event} (hproper : r.Proper e)
    {r' : Run} (h : r.step e = some r') : r'.Tidy := by
  obtain ⟨s', hs', rfl⟩ := Option.map_eq_some_iff.mp h
  cases e with
  | onClient id req vid sid =>
    cases hs'
    exact ht.onClient hs id req vid sid
  | onStreamPublish req publisherId vid sid =>
    cases hs'
    exact ht.onStreamPublish hs req publisherId vid sid
  | onStreamClose req vid sid =>
    cases hs'
    exact ht.onStreamClose hs hproper
  | onDisconnect id => exact ht.onDisconnect hs hs'

end Run

/-! ## Results -/

/-- What is right in every run: the counters of active streams, the references of the clients, and
the checks. -/
structure Safe (r : Run) : Prop where
  nbStreams : ∀ v, (r.stat.vhostAt v).nbStreams = r.stat.activeStreams v
  clients : ∀ id c, r.stat.clients.get? id = some c → r.stat.streamAt c.stream ≠ none
  proceeds : ∀ e, r.step e ≠ none

/-- The counters count the clients, and no stream is listed without reason. -/
structure CountsWhatExists (r : Run) : Prop where
  streamClients : ∀ i stream, r.stat.streamAt i = some stream →
    stream.nbClients = r.stat.attached i
  vhostClients : ∀ v, (r.stat.vhostAt v).nbClients = r.stat.countedClients v
  listed : ∀ id i, r.stat.streams.get? id = some i → i ∈ r.served →
    ∃ stream, r.stat.streamAt i = some stream ∧ (stream.active ∨ 0 < r.stat.attached i)

theorem safe_of_sound (hs : r.stat.Sound) : Safe r where
  nbStreams := hs.active
  clients id c hc := by
    obtain ⟨stream, hi⟩ := hs.clients id c hc
    rw [hi]
    exact Option.some_ne_none _
  proceeds e := by
    obtain ⟨s', hs', -⟩ := sound_step hs e
    unfold Run.step
    rw [hs']
    exact Option.some_ne_none _

theorem sound_of_step {r' : Run} {e : Event} (hs : r.stat.Sound) (h : r.step e = some r') :
    r'.stat.Sound := by
  obtain ⟨s', hs', rfl⟩ := Option.map_eq_some_iff.mp h
  obtain ⟨s'', hs'', hsound⟩ := sound_step hs e
  rw [hs'] at hs''
  cases hs''
  exact hsound

theorem countsWhatExists_of (hs : r.stat.Sound) (he : r.stat.Exact) (ht : r.Tidy) :
    CountsWhatExists r where
  streamClients := he.streams
  vhostClients := he.vhosts
  listed id i hlisted hserved := by
    obtain ⟨stream, hi, -⟩ := hs.streams id i hlisted
    refine ⟨stream, hi, (ht.streams i stream hi hserved).imp_right fun hpos => ?_⟩
    rw [he.streams i stream hi] at hpos
    exact Int.natCast_pos.mp hpos

/-- Every run is safe, and in every run of proper events the statistics count what exists. -/
theorem counts_of_proper_runs (r : Run) :
    (System.Reaches Run.step System.anyStep Run.new r → Safe r) ∧
    (System.Reaches Run.step Run.Proper Run.new r → CountsWhatExists r) := by
  constructor
  · intro hrun
    apply safe_of_sound
    exact hrun.invariant (I := fun r => r.stat.Sound)
      (fun _ _ _ hs _ hstep => sound_of_step hs hstep) sound_new
  · intro hrun
    have hall := hrun.invariant (I := fun r => r.stat.Sound ∧ r.stat.Exact ∧ r.Tidy) ?_
      ⟨sound_new, exact_new, ⟨by simp [Run.new], fun i stream h => by cases h⟩⟩
    · exact countsWhatExists_of hall.1 hall.2.1 hall.2.2
    · rintro r e r' ⟨hs, he, ht⟩ hproper hstep
      refine ⟨sound_of_step hs hstep, ?_, ht.step hs hproper hstep⟩
      obtain ⟨s', hs', rfl⟩ := Option.map_eq_some_iff.mp hstep
      exact exact_step hs he hproper hs'

/-- A connection that publishes another stream: its second stream counts a client that is attached
to the first. -/
theorem republished_client_miscounted : ∃ r,
    System.Reaches Run.step System.anyStep Run.new r ∧ ¬ CountsWhatExists r := by
  obtain ⟨r, hreach, -, hobserved⟩ := System.reaches_of_observe Run.step System.anyStep Run.new
    [.onClient "c" ⟨"v", "live", "a"⟩ "1" "2", .onClient "c" ⟨"v", "live", "b"⟩ "3" "4"]
    (fun r => ((r.stat.streamAt 1).map fun stream => stream.nbClients, r.stat.attached 1))
    (b := (some 1, 0)) (by decide +kernel)
  refine ⟨r, hreach, fun hcounts => ?_⟩
  obtain ⟨hstream, hattached⟩ := Prod.mk.inj hobserved
  obtain ⟨stream, hi, hone⟩ := Option.map_eq_some_iff.mp hstream
  have heq := hcounts.streamClients 1 stream hi
  rw [hone, hattached] at heq
  cases heq

end SrsChatRoom.App.Statistic
