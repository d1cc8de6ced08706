import SrsChatRoom.Lib.System
import SrsChatRoom.Protocol.MediaMessage

/-!
# The GOP cache of a live source (`SrsGopCache`)

The cache starts again at every key frame, and it is emptied when it is disabled or cleared, when
too many audio messages come after the last video one, and when it grows over its limit. Nothing
makes it wait for a key frame after that: the next video message that comes is cached, whatever
frame it holds, for the limit is there for streams that have no IDR frame at all.

`Run` remembers the messages the cache has accepted and what emptied it last. `Run.gop` says what
the cache then holds.
-/

namespace SrsChatRoom.App

open Protocol

/-! ## The cache -/

/-- `SRS_PURE_AUDIO_GUESS_COUNT` -/
def pureAudioGuessCount : ℕ := 115

/-- `SrsGopCache` -/
structure GopCache where
  enableGopCache : Bool
  gopCacheMaxFrames : ℤ
  cachedVideoCount : ℕ
  audioAfterLastVideoCount : ℕ
  gopCache : List SharedPtrMessage

namespace GopCache

/-- `SrsGopCache()` -/
def new : GopCache := ⟨true, 0, 0, 0, []⟩

/-- `clear()` -/
def clear (g : GopCache) : GopCache :=
  { g with cachedVideoCount := 0, audioAfterLastVideoCount := 0, gopCache := [] }

/-- `set(v)` -/
def set (g : GopCache) (v : Bool) : GopCache :=
  let g := { g with enableGopCache := v }
  if !v then g.clear else g

/-- `set_gop_cache_max_frames(v)` -/
def setGopCacheMaxFrames (g : GopCache) (v : ℤ) : GopCache := { g with gopCacheMaxFrames := v }

/-- `pure_audio()` -/
def pureAudio (g : GopCache) : Bool := g.cachedVideoCount == 0

/-- The counters after a video message with a known codec. -/
def gotVideo (g : GopCache) (msg : SharedPtrMessage) : GopCache :=
  if msg.isVideo then
    { g with cachedVideoCount := g.cachedVideoCount + 1, audioAfterLastVideoCount := 0 }
  else g

/-- The counter after an audio message. -/
def gotAudio (g : GopCache) (msg : SharedPtrMessage) : GopCache :=
  if msg.isAudio then { g with audioAfterLastVideoCount := g.audioAfterLastVideoCount + 1 } else g

/-- A key frame clears the cache, and it is then the one video frame of it. -/
def gotKeyFrame (g : GopCache) (msg : SharedPtrMessage) : GopCache :=
  if msg.isKeyFrame then { g.clear with cachedVideoCount := 1 } else g

/-- `gop_cache.push_back(msg->copy())` -/
def push (g : GopCache) (msg : SharedPtrMessage) : GopCache :=
  { g with gopCache := g.gopCache ++ [msg] }

/-- The cache has more frames than its limit. -/
def Exceeds (g : GopCache) : Prop :=
  0 < g.gopCacheMaxFrames ∧ g.gopCacheMaxFrames < g.gopCache.length

instance (g : GopCache) : Decidable g.Exceeds := inferInstanceAs (Decidable (_ ∧ _))

/-- `cache(shared_msg)` -/
def cache (h265 : Bool) (g : GopCache) (msg : SharedPtrMessage) : GopCache :=
  if !g.enableGopCache then g
  else if msg.isVideo && !FlvVideo.codecOk h265 msg.payload then g
  else if (g.gotVideo msg).pureAudio then g.gotVideo msg
  else if pureAudioGuessCount < ((g.gotVideo msg).gotAudio msg).audioAfterLastVideoCount then
    ((g.gotVideo msg).gotAudio msg).clear
  else
    let g := (((g.gotVideo msg).gotAudio msg).gotKeyFrame msg).push msg
    if g.Exceeds then g.clear else g

/-- The message gets through to `push_back`. -/
def accepts (h265 : Bool) (g : GopCache) (msg : SharedPtrMessage) : Bool :=
  g.enableGopCache && (!msg.isVideo || FlvVideo.codecOk h265 msg.payload) &&
    !(g.gotVideo msg).pureAudio &&
    decide (((g.gotVideo msg).gotAudio msg).audioAfterLastVideoCount ≤ pureAudioGuessCount)

/-! ### What one call of `cache` does -/

variable (g : GopCache) (msg : SharedPtrMessage)

@[simp] theorem clear_gopCache : g.clear.gopCache = [] := rfl

@[simp] theorem clear_cachedVideoCount : g.clear.cachedVideoCount = 0 := rfl

@[simp] theorem clear_gopCacheMaxFrames :
    g.clear.gopCacheMaxFrames = g.gopCacheMaxFrames := rfl

@[simp] theorem gotVideo_gopCache : (g.gotVideo msg).gopCache = g.gopCache := by
  unfold gotVideo
  split <;> rfl

@[simp] theorem gotVideo_gopCacheMaxFrames :
    (g.gotVideo msg).gopCacheMaxFrames = g.gopCacheMaxFrames := by
  unfold gotVideo
  split <;> rfl

@[simp] theorem gotAudio_gopCache : (g.gotAudio msg).gopCache = g.gopCache := by
  unfold gotAudio
  split <;> rfl

@[simp] theorem gotAudio_gopCacheMaxFrames :
    (g.gotAudio msg).gopCacheMaxFrames = g.gopCacheMaxFrames := by
  unfold gotAudio
  split <;> rfl

@[simp] theorem gotAudio_cachedVideoCount :
    (g.gotAudio msg).cachedVideoCount = g.cachedVideoCount := by
  unfold gotAudio
  split <;> rfl

@[simp] theorem gotKeyFrame_gopCacheMaxFrames :
    (g.gotKeyFrame msg).gopCacheMaxFrames = g.gopCacheMaxFrames := by
  unfold gotKeyFrame
  split <;> rfl

/-- The cache with the message, before the limit is looked at. -/
def pushed (g : GopCache) (msg : SharedPtrMessage) : GopCache :=
  (((g.gotVideo msg).gotAudio msg).gotKeyFrame msg).push msg

@[simp] theorem pushed_gopCacheMaxFrames :
    (g.pushed msg).gopCacheMaxFrames = g.gopCacheMaxFrames := by
  simp [pushed, push]

theorem pushed_gopCache :
    (g.pushed msg).gopCache = if msg.isKeyFrame then [msg] else g.gopCache ++ [msg] := by
  unfold pushed push gotKeyFrame
  by_cases hkey : msg.isKeyFrame = true <;> simp [hkey]

variable {msg} {h265 : Bool} {g}

/-- A call on a message that is accepted: the message is put at the end of the cache, of a new one
if it is a key frame, and the cache is cleared if that takes it over the limit. -/
theorem cache_of_accepts (h : g.accepts h265 msg = true) :
    g.cache h265 msg = if (g.pushed msg).Exceeds then (g.pushed msg).clear else g.pushed msg := by
  simp only [accepts, Bool.and_eq_true, decide_eq_true_eq, Bool.not_eq_true',
    Bool.or_eq_true] at h
  obtain ⟨⟨⟨henabled, hcodec⟩, hvideo⟩, haudio⟩ := h
  have hknown : (msg.isVideo && !FlvVideo.codecOk h265 msg.payload) = false := by
    cases hcodec with
    | inl hno => simp [hno]
    | inr hok => simp [hok]
  unfold cache
  rw [if_neg (by simp [henabled]), if_neg (by simp [hknown]), if_neg (by simp [hvideo]),
    if_neg (by omega)]
  rfl

theorem pushed_cachedVideoCount_ne
    (h : g.accepts h265 msg = true) : (g.pushed msg).cachedVideoCount ≠ 0 := by
  have hvideo : (g.gotVideo msg).cachedVideoCount ≠ 0 := by
    simp only [accepts, pureAudio, Bool.and_eq_true, Bool.not_eq_true', beq_eq_false_iff_ne] at h
    exact h.1.2
  by_cases hkey : msg.isKeyFrame = true <;> simp [pushed, push, gotKeyFrame, hkey, hvideo]

/-- With no video message cached, only a video message is accepted. -/
theorem isVideo_of_accepts
    (h : g.accepts h265 msg = true) (hcount : g.cachedVideoCount = 0) : msg.isVideo = true := by
  by_contra hno
  simp [accepts, pureAudio, gotVideo, hno, hcount] at h

/-- Without a video message the cached ones stay, and their number is what it was. -/
theorem gotVideo_eq_of_pureAudio (h : (g.gotVideo msg).pureAudio = true) : g.gotVideo msg = g := by
  unfold gotVideo at h ⊢
  split
  · next hvideo => simp [pureAudio, hvideo] at h
  · rfl

/-- A call on a message that is not accepted leaves the cache as it is, or clears it. -/
theorem cache_of_not_accepts (h : g.accepts h265 msg = false) :
    g.cache h265 msg = g ∨
      (g.cache h265 msg).gopCache = [] ∧ (g.cache h265 msg).cachedVideoCount = 0 := by
  unfold cache
  split_ifs with henabled hcodec hpure hover
  · exact .inl rfl
  · exact .inl rfl
  · exact .inl (gotVideo_eq_of_pureAudio hpure)
  · exact .inr ⟨rfl, rfl⟩
  all_goals
    -- every test of `cache` passes, so the message is accepted
    exfalso
    simp only [accepts] at h
    grind

/-! ## Runs -/

/-- What emptied the cache. -/
inductive Emptied
  | start
  | disabled
  | cleared
  | pureAudio
  | keyFrame
  | frameLimit
  deriving DecidableEq

/-- The cache with its past: the messages it has accepted so far, how many of them had been
accepted when it was emptied last, by what, and the limit at the last message accepted. -/
structure Run where
  cache : GopCache
  accepted : List SharedPtrMessage
  emptied : ℕ
  emptiedBy : Emptied
  limit : ℤ

inductive Action
  | cache (msg : SharedPtrMessage)
  | set (v : Bool)
  | setGopCacheMaxFrames (v : ℤ)
  | clear

namespace Run

/-- A new cache, with nothing accepted. -/
def start : Run := ⟨new, [], 0, .start, 0⟩

/-- The run after the cache is emptied from outside. -/
def empty (s : Run) (g : GopCache) (by_ : Emptied) : Run :=
  { s with cache := g, emptied := s.accepted.length, emptiedBy := by_ }

/-- The run after a message is accepted. -/
def accept (s : Run) (g : GopCache) (msg : SharedPtrMessage) : Run :=
  let s' := { s with cache := g, accepted := s.accepted ++ [msg], limit := g.gopCacheMaxFrames }
  if g.gopCache = [] then { s' with emptied := s'.accepted.length, emptiedBy := .frameLimit }
  else if msg.isKeyFrame then { s' with emptied := s.accepted.length, emptiedBy := .keyFrame }
  else s'

/-- One call. -/
def step (h265 : Bool) (s : Run) : Action → Option Run
  | .cache msg =>
    let g := s.cache.cache h265 msg
    if s.cache.accepts h265 msg then some (s.accept g msg)
    else if g.gopCache = [] ∧ s.cache.gopCache ≠ [] then some (s.empty g .pureAudio)
    else some { s with cache := g }
  | .set v =>
    if v then some { s with cache := s.cache.set v }
    else some (s.empty (s.cache.set v) .disabled)
  | .setGopCacheMaxFrames v => some { s with cache := s.cache.setGopCacheMaxFrames v }
  | .clear => some (s.empty s.cache.clear .cleared)

/-- Every call of `cache` is a step. -/
theorem exists_cache (h265 : Bool) (s : Run) (msg : SharedPtrMessage) :
    ∃ t, step h265 s (.cache msg) = some t ∧ t.cache = s.cache.cache h265 msg := by
  simp only [step]
  split
  · refine ⟨_, rfl, ?_⟩
    simp only [accept]
    split_ifs <;> rfl
  · split <;> exact ⟨_, rfl, rfl⟩

/-- What the cache holds. -/
structure Gop (s : Run) : Prop where
  /-- The messages accepted since the cache was emptied, in order. -/
  kept : s.cache.gopCache = s.accepted.drop s.emptied
  emptied_le : s.emptied ≤ s.accepted.length
  /-- The first one is a video message, and it is a key frame if a key frame emptied the cache. -/
  first : ∀ m rest, s.cache.gopCache = m :: rest →
    m.isVideo = true ∧ (m.isKeyFrame = true ↔ s.emptiedBy = .keyFrame)
  /-- No other one is a key frame. -/
  others : ∀ m ∈ s.cache.gopCache.tail, m.isKeyFrame = false
  /-- The cache is not over the limit it had at the last message. -/
  bounded : 0 < s.limit → s.cache.gopCache.length ≤ s.limit

/-- With that, the count of video frames tells whether there are messages, and a key frame leaves
at least itself. -/
structure Inv (s : Run) : Prop extends Gop s where
  counted : s.cache.gopCache = [] ↔ s.cache.cachedVideoCount = 0
  keyed : s.emptiedBy = .keyFrame → s.cache.gopCache ≠ []

theorem Inv.start : Inv start := by
  refine ⟨⟨rfl, Nat.le_refl 0, ?_, ?_, ?_⟩, ?_, ?_⟩ <;> simp [Run.start, GopCache.new]

variable {s : Run}

/-- The run after the cache is emptied has nothing to show. -/
theorem Inv.empty {g : GopCache} {by_ : Emptied} (hby : by_ ≠ .keyFrame)
    (hgop : g.gopCache = []) (hcount : g.cachedVideoCount = 0) : Inv (s.empty g by_) := by
  refine ⟨⟨?_, ?_, ?_, ?_, ?_⟩, ?_, ?_⟩
  · simp [Run.empty, hgop]
  · simp [Run.empty]
  · simp [Run.empty, hgop]
  · simp [Run.empty, hgop]
  · intro hlimit
    simp only [Run.empty, hgop, List.length_nil] at hlimit ⊢
    omega
  · simp [Run.empty, hgop, hcount]
  · intro hkey
    exact absurd hkey hby

/-- A call that changes neither the cached messages nor their count keeps all of it. -/
theorem Inv.same {g : GopCache} (hs : Inv s) (hgop : g.gopCache = s.cache.gopCache)
    (hcount : g.cachedVideoCount = s.cache.cachedVideoCount) : Inv { s with cache := g } := by
  refine ⟨⟨?_, hs.emptied_le, ?_, ?_, ?_⟩, ?_, ?_⟩
  · show g.gopCache = _
    rw [hgop]
    exact hs.kept
  · show ∀ m rest, g.gopCache = m :: rest → _
    rw [hgop]
    exact hs.first
  · show ∀ m ∈ g.gopCache.tail, _
    rw [hgop]
    exact hs.others
  · show _ → (g.gopCache.length : ℤ) ≤ _
    rw [hgop]
    exact hs.bounded
  · show g.gopCache = [] ↔ g.cachedVideoCount = 0
    rw [hgop, hcount]
    exact hs.counted
  · show _ → g.gopCache ≠ []
    rw [hgop]
    exact hs.keyed

/-- A message that is accepted is the last one of the cache, or its only one, or it takes the
cache over the limit. -/
theorem Inv.accept {h265 : Bool} {msg : SharedPtrMessage} (hs : Inv s)
    (h : s.cache.accepts h265 msg = true) : Inv (s.accept (s.cache.cache h265 msg) msg) := by
  rw [cache_of_accepts h]
  by_cases hexceeds : (s.cache.pushed msg).Exceeds
  · rw [if_pos hexceeds]
    exact Inv.empty (s := { s with
      accepted := s.accepted ++ [msg]
      limit := (s.cache.pushed msg).clear.gopCacheMaxFrames }) (by decide) rfl rfl
  rw [if_neg hexceeds]
  have hlimit : 0 < (s.cache.pushed msg).gopCacheMaxFrames →
      ((s.cache.pushed msg).gopCache.length : ℤ) ≤ (s.cache.pushed msg).gopCacheMaxFrames := by
    intro hpos
    exact not_lt.mp fun hlt => hexceeds ⟨hpos, hlt⟩
  have hcount : (s.cache.pushed msg).cachedVideoCount ≠ 0 := pushed_cachedVideoCount_ne h
  by_cases hkey : msg.isKeyFrame = true
  · -- a new cache
    have hgop : (s.cache.pushed msg).gopCache = [msg] := by rw [pushed_gopCache, if_pos hkey]
    have hrun : s.accept (s.cache.pushed msg) msg =
        ⟨s.cache.pushed msg, s.accepted ++ [msg], s.accepted.length, .keyFrame,
          (s.cache.pushed msg).gopCacheMaxFrames⟩ := by
      simp [Run.accept, hgop, hkey]
    rw [hrun]
    refine ⟨⟨?_, ?_, ?_, ?_, hlimit⟩, ?_, ?_⟩
    · show (s.cache.pushed msg).gopCache = _
      rw [hgop, List.drop_left]
    · simp
    · intro m rest hm
      rw [hgop] at hm
      obtain ⟨rfl, -⟩ := List.cons.inj hm
      exact ⟨(Bool.and_eq_true_iff.mp hkey).1, by simp [hkey]⟩
    · simp [hgop]
    · simp [hgop, hcount]
    · simp [hgop]
  · -- one more message
    have hgop : (s.cache.pushed msg).gopCache = s.cache.gopCache ++ [msg] := by
      rw [pushed_gopCache, if_neg hkey]
    have hrun : s.accept (s.cache.pushed msg) msg =
        ⟨s.cache.pushed msg, s.accepted ++ [msg], s.emptied, s.emptiedBy,
          (s.cache.pushed msg).gopCacheMaxFrames⟩ := by
      simp [Run.accept, hgop, hkey]
    rw [hrun]
    refine ⟨⟨?_, ?_, ?_, ?_, hlimit⟩, ?_, ?_⟩
    · show (s.cache.pushed msg).gopCache = _
      rw [hgop, hs.kept, List.drop_append_of_le_length hs.emptied_le]
    · have hle := hs.emptied_le
      simp only [List.length_append]
      omega
    · intro m rest hm
      rw [hgop] at hm
      cases hold : s.cache.gopCache with
      | nil =>
        -- the first message after the cache was emptied
        rw [hold] at hm
        obtain ⟨rfl, -⟩ := List.cons.inj hm
        have hby : s.emptiedBy ≠ .keyFrame := fun hby => hs.keyed hby hold
        exact ⟨isVideo_of_accepts h (hs.counted.mp hold), by simp [hkey, hby]⟩
      | cons x xs =>
        rw [hold] at hm
        obtain ⟨rfl, -⟩ := List.cons.inj hm
        exact hs.first x xs hold
    · intro m hm
      simp only [hgop] at hm
      cases hold : s.cache.gopCache with
      | nil => simp [hold] at hm
      | cons x xs =>
        rw [hold, List.cons_append, List.tail_cons, List.mem_append] at hm
        cases hm with
        | inl hm =>
          apply hs.others
          rw [hold]
          exact hm
        | inr hm =>
          rw [List.mem_singleton.mp hm]
          exact Bool.eq_false_iff.mpr hkey
    · simp [hgop, hcount]
    · simp [hgop]

/-- Every call keeps all of it. -/
theorem Inv.step {h265 : Bool} {t : Run} {a : Action} (hs : Inv s)
    (h : Run.step h265 s a = some t) : Inv t := by
  cases a with
  | cache msg =>
    simp only [Run.step] at h
    split at h
    · next haccepts =>
      cases h
      exact hs.accept haccepts
    next hno =>
    have hcases := cache_of_not_accepts (Bool.eq_false_iff.mpr hno)
    split at h
    · next hemptied =>
      cases h
      cases hcases with
      | inl hsame => exact absurd (hsame ▸ hemptied.1) hemptied.2
      | inr hclear => exact Inv.empty (by decide) hclear.1 hclear.2
    · next hkept =>
      cases h
      cases hcases with
      | inl hsame => exact hs.same (by rw [hsame]) (by rw [hsame])
      | inr hclear =>
        have hnil : s.cache.gopCache = [] := by
          by_contra hne
          exact hkept ⟨hclear.1, hne⟩
        exact hs.same (by rw [hclear.1, hnil]) (by rw [hclear.2, hs.counted.mp hnil])
  | set v =>
    simp only [Run.step] at h
    split at h
    · next hv =>
      cases h
      exact hs.same (by simp [GopCache.set, hv]) (by simp [GopCache.set, hv])
    · next hv =>
      cases h
      exact Inv.empty (by decide) (by simp [GopCache.set, hv]) (by simp [GopCache.set, hv])
  | setGopCacheMaxFrames v =>
    cases h
    exact hs.same rfl rfl
  | clear =>
    cases h
    exact Inv.empty (by decide) rfl rfl

/-- A key frame of H.264. -/
def keyFrame : SharedPtrMessage := ⟨6, 0, 9, 1, [0x17, 1]⟩

/-- A frame of H.264 that is not one. -/
def interFrame : SharedPtrMessage := ⟨6, 40, 9, 1, [0x27, 1]⟩

end Run

end GopCache

end SrsChatRoom.App
