import SrsChatRoom.App.GopCache

/-!
# The messages of a live source and its consumers (`SrsLiveSource`)

A source copies each message to the consumers it has, keeps the last sequence headers (`SrsMetaCache`)
and the messages since the last key frame (`SrsGopCache`), and gives both to a consumer that comes
later. The players of the server create a consumer and dump to it in one go (`play`). The messages are
AAC and H.264, and `mix_correct` is off.

What a consumer gets is its `log`, without the changes of timestamps. `Published` says of each message
which sequence header was the last one in its publishing session; the number of a message, the headers
published and what was missed are remembered only for this. Metadata and the edge are left out.
-/

namespace SrsChatRoom.App.LiveSource

open Protocol

variable (h265 : Bool)

/-! ## Messages -/

inductive Kind
  | audio
  | video
deriving DecidableEq

def kindOf (msg : SharedPtrMessage) : Kind := if msg.isAudio then .audio else .video

/-- `is_sequence_header` in `on_audio_imp` and `on_video_imp` -/
def isSequenceHeader (msg : SharedPtrMessage) : Bool :=
  match kindOf msg with
  | .audio => FlvAudio.sh msg.payload
  | .video => FlvVideo.sh h265 msg.payload

/-- A published message, with the last sequence header of its kind in its session. -/
structure Published where
  number : ℕ
  msg : SharedPtrMessage
  header : Option (List UInt8)

/-- A message of a consumer, that is a copy of a cached header or not. -/
structure Entry where
  item : Published
  asHeader : Bool

abbrev Log := List Entry

/-- What fails on the way of a message: `format_->on_*`, `meta->update_*`, or one of `hub->on_*` and
`bridge_->on_frame`. -/
inductive Failure
  | none
  | format
  | cache
  | hub
deriving DecidableEq

/-! ## The source -/

structure State where
  canPublish : Bool := true
  /-- `hub->active()` -/
  active : Bool := false
  /-- `meta->audio`, `meta->video` -/
  cached : Kind → Option Published := fun _ => .none
  /-- `meta->previous_audio`, `meta->previous_video` -/
  previous : Kind → Option Published := fun _ => .none
  gopCache : GopCache := .new
  /-- The messages of the GOP cache, as they were published. -/
  gop : List Published := []
  consumers : List Log := []
  /-- The number of messages published. -/
  nb : ℕ := 0
  /-- The last sequence header published in the session. -/
  current : Kind → Option (List UInt8) := fun _ => .none
  /-- The last sequence header of the session was not copied to the consumers. -/
  missed : Kind → Bool := fun _ => false

namespace State

/-- `consumer->enqueue(msg)` for all consumers -/
def enqueueAll (s : State) (p : Published) : State :=
  { s with consumers := s.consumers.map fun log => log ++ [⟨p, false⟩] }

/-- `update_ash(msg)`, `update_vsh(msg)`: the previous header is the new one at once. -/
def updateHeader (s : State) (k : Kind) (p : Published) : State :=
  { s with
    cached := Function.update s.cached k (some p)
    previous := Function.update s.previous k (some p) }

/-- What `cache` leaves of the messages in the GOP cache. -/
def gopAfter (s : State) (p : Published) : List Published :=
  if (s.gopCache.cache h265 p.msg).gopCache = [] then []
  else if s.gopCache.accepts h265 p.msg then
    if p.msg.isKeyFrame then [p] else s.gop ++ [p]
  else s.gop

/-- `gop_cache->cache(msg)` -/
def cacheGop (s : State) (p : Published) : State :=
  { s with gopCache := s.gopCache.cache h265 p.msg, gop := s.gopAfter h265 p }

/-- `drop_for_reduce` -/
def dropForReduce (s : State) (reduce : Bool) (k : Kind) (p : Published) : Bool :=
  isSequenceHeader h265 p.msg && reduce &&
    match s.previous k with
    | .none => false
    | some q => q.msg.payload == p.msg.payload

/-- The copy to all consumers. -/
def copy (s : State) (drop : Bool) (p : Published) : State := if drop then s else s.enqueueAll p

/-- `on_audio_imp(msg)` behind the copy to all consumers; the first message of a session is cached as
its header, whatever it is. -/
def cacheAudio (s : State) (failure : Failure) (p : Published) : State :=
  if isSequenceHeader h265 p.msg then s.updateHeader .audio p
  else if s.cached .audio = .none then
    if failure = .cache then s.updateHeader .audio p
    else (s.updateHeader .audio p).cacheGop h265 p
  else s.cacheGop h265 p

/-- `on_audio_imp(msg)` -/
def onAudioImp (s : State) (reduce : Bool) (failure : Failure) (p : Published) : State :=
  if failure = .format ∨ failure = .hub then s
  else (s.copy (s.dropForReduce h265 reduce .audio p) p).cacheAudio h265 failure p

/-- `on_video_imp(msg)`: a header is cached before the hub has it. -/
def onVideoImp (s : State) (reduce : Bool) (failure : Failure) (p : Published) : State :=
  if failure = .format then s
  else if isSequenceHeader h265 p.msg then
    if failure ≠ .none then s.updateHeader .video p
    else (s.updateHeader .video p).copy (s.dropForReduce h265 reduce .video p) p
  else if failure = .hub then s
  else (s.enqueueAll p).cacheGop h265 p

/-- The message gets as far as the copy to all consumers. -/
def Copied (failure : Failure) (msg : SharedPtrMessage) : Prop :=
  failure = .none ∨
    failure = .cache ∧ ¬ (kindOf msg = .video ∧ isSequenceHeader h265 msg = true)

instance (failure : Failure) (msg : SharedPtrMessage) : Decidable (Copied h265 failure msg) :=
  inferInstanceAs (Decidable (_ ∨ _))

/-- The message as the next one that is published. -/
def arrive (s : State) (msg : SharedPtrMessage) : Published :=
  ⟨s.nb, msg, s.current (kindOf msg)⟩

/-- What is remembered of a message. -/
def remember (s : State) (failure : Failure) (msg : SharedPtrMessage) : State :=
  if isSequenceHeader h265 msg ∧ s.canPublish = false then
    { s with
      nb := s.nb + 1
      current := Function.update s.current (kindOf msg) (some msg.payload)
      missed := Function.update s.missed (kindOf msg) (! decide (Copied h265 failure msg)) }
  else { s with nb := s.nb + 1 }

/-- A message is published. -/
def onMessage (s : State) (reduce : Bool) (failure : Failure) (msg : SharedPtrMessage) : State :=
  (match kindOf msg with
    | .audio => s.onAudioImp h265 reduce failure (s.arrive msg)
    | .video => s.onVideoImp h265 reduce failure (s.arrive msg)).remember h265 failure msg

/-- `on_publish()`; the hub may fail, and is not active then. -/
def onPublish (s : State) (hubOk : Bool) : State :=
  { s with
    canPublish := false
    active := s.active || hubOk
    cached := fun _ => .none
    current := fun _ => .none
    missed := fun _ => false }

/-- `on_unpublish()` -/
def onUnpublish (s : State) : State :=
  if s.canPublish then s
  else
    { s with
      canPublish := true
      active := false
      previous := s.cached
      gopCache := s.gopCache.clear
      gop := []
      current := fun _ => .none
      missed := fun _ => false }

/-- `meta->dumps(consumer, ...)` -/
def dumps (s : State) (ds : Bool) : Log :=
  if ds then
    ((s.cached .audio).toList ++ (s.cached .video).toList).map fun p => ⟨p, true⟩
  else []

/-- `gop_cache->dump(consumer, ...)` -/
def dumpGop (s : State) (dg : Bool) : Log :=
  if dg then s.gop.map fun p => ⟨p, false⟩ else []

/-- `create_consumer(consumer)` and `consumer_dumps(consumer, ds, dm, dg)` -/
def play (s : State) (ds dg : Bool) : State :=
  { s with consumers := s.consumers ++ [if s.active then s.dumps ds ++ s.dumpGop dg else []] }

/-- `on_consumer_destroy(consumer)` -/
def onConsumerDestroy (s : State) (i : ℕ) : State :=
  { s with consumers := s.consumers.eraseIdx i }

/-- `set_cache(enabled)` -/
def setCache (s : State) (enabled : Bool) : State :=
  { s with gopCache := s.gopCache.set enabled, gop := if enabled then s.gop else [] }

/-- `set_gop_cache_max_frames(v)` -/
def setGopCacheMaxFrames (s : State) (v : ℤ) : State :=
  { s with gopCache := s.gopCache.setGopCacheMaxFrames v }

end State

/-! ## Runs -/

inductive Action
  | onPublish (hubOk : Bool)
  | onUnpublish
  | onMessage (reduce : Bool) (failure : Failure) (msg : SharedPtrMessage)
  | play (ds dg : Bool)
  | onConsumerDestroy (i : ℕ)
  | setCache (enabled : Bool)
  | setGopCacheMaxFrames (v : ℤ)

def step (s : State) : Action → Option State
  | .onPublish hubOk => some (s.onPublish hubOk)
  | .onUnpublish => some s.onUnpublish
  | .onMessage reduce failure msg => some (s.onMessage h265 reduce failure msg)
  | .play ds dg => some (s.play ds dg)
  | .onConsumerDestroy i => some (s.onConsumerDestroy i)
  | .setCache enabled => some (s.setCache enabled)
  | .setGopCacheMaxFrames v => some (s.setGopCacheMaxFrames v)

/-- The messages are AAC, with the type of their packet, and H.264. -/
def Input : Action → Prop
  | .onMessage _ _ msg =>
    msg.isAudio = true ∧ FlvAudio.aac msg.payload = true ∧ 2 ≤ msg.payload.length ∨
      msg.isVideo = true ∧ FlvVideo.h264 msg.payload = true
  | _ => True

/-! ## What the consumers get -/

def Entry.isHeader (e : Entry) : Bool := isSequenceHeader h265 e.item.msg

/-- The last sequence header of a log. -/
def lastHeader (k : Kind) (log : Log) : Option (List UInt8) :=
  (log.filter fun e => e.isHeader h265 && kindOf e.item.msg = k).getLast?.map (·.item.msg.payload)

/-- A player that gets the log decodes each frame with the right header. -/
structure Right (log : Log) : Prop where
  /-- The last header in front of a frame is the last one published before it in its session. -/
  decodes : ∀ before e after, log = before ++ e :: after → e.isHeader h265 = false →
    ∀ header ∈ e.item.header, lastHeader h265 (kindOf e.item.msg) before = some header
  /-- What is copied as a header is one. -/
  headers : ∀ e ∈ log, e.asHeader = true → e.isHeader h265 = true
  /-- No frame comes twice. -/
  once : ((log.filter fun e => ! e.isHeader h265).map (·.item.number)).Nodup

/-- Every player decodes with the right header. -/
def Served (s : State) : Prop := ∀ log ∈ s.consumers, Right h265 log

/-! ## The GOP cache holds what was published -/

variable {s : State}

theorem map_gopAfter (h : s.gop.map (·.msg) = s.gopCache.gopCache) (p : Published) :
    (s.gopAfter h265 p).map (·.msg) = (s.gopCache.cache h265 p.msg).gopCache := by
  unfold State.gopAfter
  split
  · next hnil => rw [hnil, List.map_nil]
  · next hne =>
    split
    · next haccepts =>
      rw [GopCache.cache_of_accepts haccepts] at hne ⊢
      split at hne
      · exact absurd rfl hne
      · next hfits =>
        rw [if_neg hfits, GopCache.pushed_gopCache]
        split
        · rfl
        · rw [List.map_append, h]
          rfl
    · next hnot =>
      have hcases := @GopCache.cache_of_not_accepts s.gopCache p.msg h265 (by simpa using hnot)
      rcases hcases with hsame | hnil
      · rw [hsame, h]
      · exact absurd hnil.1 hne

/-- What is remembered of the GOP cache is what it holds after a run of its calls. -/
def Faithful (s : State) : Prop :=
  s.gop.map (·.msg) = s.gopCache.gopCache ∧ ∃ r : GopCache.Run, r.Inv ∧ r.cache = s.gopCache

theorem Faithful.cacheGop (h : Faithful s) (p : Published) : Faithful (s.cacheGop h265 p) := by
  obtain ⟨hgop, r, hr, hcache⟩ := h
  obtain ⟨t, hstep, hcall⟩ := r.exists_cache h265 p.msg
  exact ⟨map_gopAfter h265 hgop p, t, hr.step hstep, by rw [hcall, hcache]; rfl⟩

theorem Faithful.onMessage (h : Faithful s) (reduce : Bool) (failure : Failure)
    (msg : SharedPtrMessage) : Faithful (s.onMessage h265 reduce failure msg) := by
  have hcopy : ∀ (s : State) (drop : Bool) (p : Published), Faithful s →
      Faithful (s.copy drop p) := by
    intro s drop p hs
    unfold State.copy
    split
    · exact hs
    · exact hs
  have haudio : ∀ (s : State) (p : Published), Faithful s →
      Faithful (s.cacheAudio h265 failure p) := by
    intro s p hs
    unfold State.cacheAudio
    split
    · exact hs
    · split
      · split
        · exact hs
        · exact Faithful.cacheGop h265 (s := s.updateHeader .audio p) hs p
      · exact hs.cacheGop h265 p
  have hremember : ∀ s : State, Faithful s → Faithful (s.remember h265 failure msg) := by
    intro s hs
    unfold State.remember
    split
    · exact hs
    · exact hs
  apply hremember
  split
  · unfold State.onAudioImp
    split
    · exact h
    · exact haudio _ _ (hcopy _ _ _ h)
  · unfold State.onVideoImp
    split
    · exact h
    · split
      · split
        · exact h
        · exact hcopy (s.updateHeader .video _) _ _ h
      · split
        · exact h
        · exact Faithful.cacheGop h265 (s := s.enqueueAll _) h _

/-- In every state that is reached, a consumer is given the messages of the GOP cache. -/
theorem faithful_of_reaches (h : System.Reaches (step h265) System.anyStep {} s) : Faithful s := by
  refine h.invariant ?_ ⟨rfl, .start, .start, rfl⟩
  rintro s a t hs - ha
  obtain ⟨-, r, hr, hcache⟩ := id hs
  have hnext : ∀ {a t}, GopCache.Run.step h265 r a = some t → t.Inv := hr.step
  cases a with
  | onPublish hubOk =>
    cases ha
    exact hs
  | onUnpublish =>
    cases ha
    unfold State.onUnpublish
    split
    · exact hs
    · exact ⟨rfl, _, hnext (a := .clear) rfl, congrArg GopCache.clear hcache⟩
  | onMessage reduce failure msg =>
    cases ha
    exact hs.onMessage h265 reduce failure msg
  | play ds dg =>
    cases ha
    exact hs
  | onConsumerDestroy i =>
    cases ha
    exact hs
  | setCache enabled =>
    cases ha
    refine ⟨?_, ?_⟩
    · cases enabled with
      | true => exact hs.1
      | false => rfl
    · cases enabled with
      | true => exact ⟨_, hnext (a := .set true) rfl, congrArg (·.set true) hcache⟩
      | false => exact ⟨_, hnext (a := .set false) rfl, congrArg (·.set false) hcache⟩
  | setGopCacheMaxFrames v =>
    cases ha
    exact ⟨hs.1, _, hnext (a := .setGopCacheMaxFrames v) rfl,
      congrArg (·.setGopCacheMaxFrames v) hcache⟩

end SrsChatRoom.App.LiveSource
