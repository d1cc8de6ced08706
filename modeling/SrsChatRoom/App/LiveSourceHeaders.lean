import SrsChatRoom.App.LiveSource

/-!
# Which runs give every player the right header

A header that is dropped as a copy of the one before has to be the last one of every consumer, which
it is not for one that came while nobody published; a frame must not follow a header that an error
kept from the consumers; and what a player is given at its start has to fit together: the GOP cache
keeps the frames of a header that has changed, and the first message of a session is cached as its
audio header. Under these conditions (`Proper`) every player decodes with the right header.
-/

namespace SrsChatRoom.App.LiveSource

open Protocol

variable (h265 : Bool)

/-! ## The last header of a log -/

section
variable {h265} {k : Kind} {log l : Log} {e : Entry}

theorem lastHeader_append (k : Kind) (log l : Log) :
    lastHeader h265 k (log ++ l) = (lastHeader h265 k l).or (lastHeader h265 k log) := by
  unfold lastHeader
  rw [List.filter_append, List.getLast?_append, Option.map_or]

theorem lastHeader_of_frames (k : Kind) (h : ∀ e ∈ l, e.isHeader h265 = false) :
    lastHeader h265 k l = none := by
  have hnil : (l.filter fun e => e.isHeader h265 && kindOf e.item.msg = k) = [] := by
    rw [List.filter_eq_nil_iff]
    intro e he
    simp [h e he]
  unfold lastHeader
  rw [hnil]
  rfl

theorem lastHeader_append_frame (k : Kind) (h : e.isHeader h265 = false) :
    lastHeader h265 k (log ++ [e]) = lastHeader h265 k log := by
  rw [lastHeader_append, lastHeader_of_frames k (by simpa using h), Option.none_or]

theorem lastHeader_append_header (h : e.isHeader h265 = true) :
    lastHeader h265 (kindOf e.item.msg) (log ++ [e]) = some e.item.msg.payload := by
  rw [lastHeader_append]
  simp [lastHeader, h]

theorem lastHeader_append_other (h : kindOf e.item.msg ≠ k) :
    lastHeader h265 k (log ++ [e]) = lastHeader h265 k log := by
  rw [lastHeader_append]
  simp [lastHeader, h]

end

/-! ## Logs that grow -/

section
variable {h265} {log l : Log} {e : Entry}

theorem Right.nil : Right h265 [] where
  decodes := by
    intro before e after h
    simp at h
  headers := nofun
  once := List.nodup_nil

theorem Right.header (h : Right h265 log) (he : e.isHeader h265 = true) : Right h265 (log ++ [e]) where
  decodes := by
    intro before f after hsplit hf
    rcases List.eq_nil_or_concat after with rfl | ⟨after, d, rfl⟩
    · obtain ⟨-, hlast⟩ := List.append_inj' hsplit rfl
      cases hlast
      rw [he] at hf
      cases hf
    · rw [List.concat_eq_append, ← List.cons_append, ← List.append_assoc] at hsplit
      exact h.decodes before f after (List.append_inj_left' hsplit rfl) hf
  headers := by
    intro f hf hheader
    rcases List.mem_append.1 hf with hf | hf
    · exact h.headers f hf hheader
    · rw [List.mem_singleton.1 hf]
      exact he
  once := by
    rw [List.filter_append, List.filter_cons_of_neg (by simp [he]), List.filter_nil,
      List.append_nil]
    exact h.once

theorem Right.frame (h : Right h265 log) (he : e.isHeader h265 = false) (hcopy : e.asHeader = false)
    (hheader : ∀ header ∈ e.item.header, lastHeader h265 (kindOf e.item.msg) log = some header)
    (hnew : ∀ f ∈ log, f.isHeader h265 = false → f.item.number ≠ e.item.number) :
    Right h265 (log ++ [e]) where
  decodes := by
    intro before f after hsplit hf
    rcases List.eq_nil_or_concat after with rfl | ⟨after, d, rfl⟩
    · obtain ⟨hbefore, hlast⟩ := List.append_inj' hsplit rfl
      cases hlast
      rw [← hbefore]
      exact hheader
    · rw [List.concat_eq_append, ← List.cons_append, ← List.append_assoc] at hsplit
      exact h.decodes before f after (List.append_inj_left' hsplit rfl) hf
  headers := by
    intro f hf hfheader
    rcases List.mem_append.1 hf with hf | hf
    · exact h.headers f hf hfheader
    · rw [List.mem_singleton.1 hf, hcopy] at hfheader
      cases hfheader
  once := by
    rw [List.filter_append, List.filter_cons_of_pos (by simp [he]), List.filter_nil,
      List.map_append, List.map_singleton, List.nodup_append]
    refine ⟨h.once, List.nodup_singleton _, ?_⟩
    intro a ha b hb
    obtain ⟨f, hf, rfl⟩ := List.mem_map.1 ha
    obtain ⟨hmem, hframe⟩ := List.mem_filter.1 hf
    rw [List.mem_singleton.1 hb]
    exact hnew f hmem (by simpa using hframe)

/-- Frames that all have the header of the log. -/
theorem Right.frames (h : Right h265 log) {gop : List Published}
    (hgop : ∀ p ∈ gop, isSequenceHeader h265 p.msg = false)
    (hheader : ∀ p ∈ gop, ∀ header ∈ p.header, lastHeader h265 (kindOf p.msg) log = some header)
    (hlog : ∀ e ∈ log, e.isHeader h265 = true) (hnodup : (gop.map (·.number)).Nodup) :
    Right h265 (log ++ gop.map fun p => ⟨p, false⟩) := by
  induction gop using List.reverseRecOn with
  | nil =>
    rw [List.map_nil, List.append_nil]
    exact h
  | append_singleton gop p ih =>
    have hp := List.mem_append_right gop (List.mem_singleton_self p)
    rw [List.map_append, List.nodup_append] at hnodup
    have hframes : ∀ e ∈ gop.map (fun p => (⟨p, false⟩ : Entry)), e.isHeader h265 = false := by
      intro e he
      obtain ⟨q, hq, rfl⟩ := List.mem_map.1 he
      exact hgop q (List.mem_append_left _ hq)
    rw [List.map_append, ← List.append_assoc, List.map_singleton]
    apply Right.frame (e := ⟨p, false⟩) _ (hgop p hp) rfl
    · intro header hheader'
      rw [lastHeader_append, lastHeader_of_frames _ hframes, Option.none_or]
      exact hheader p hp header hheader'
    · intro f hf hframe
      rcases List.mem_append.1 hf with hf | hf
      · rw [hlog f hf] at hframe
        cases hframe
      · obtain ⟨q, hq, rfl⟩ := List.mem_map.1 hf
        exact hnodup.2.2 _ (List.mem_map_of_mem hq) _ (List.mem_singleton_self _)
    · exact ih (fun q hq => hgop q (List.mem_append_left _ hq))
        (fun q hq => hheader q (List.mem_append_left _ hq)) hnodup.1

end

/-! ## What a message does -/

/-- All that the handling of a message changes. -/
structure Handled (s : State) (reduce : Bool) (failure : Failure) (msg : SharedPtrMessage)
    (s' : State) : Prop where
  kept : s'.nb = s.nb ∧ s'.canPublish = s.canPublish ∧ s'.current = s.current ∧
    s'.missed = s.missed
  consumers : s'.consumers = s.consumers ∧ (State.Copied h265 failure msg →
      s.dropForReduce h265 reduce (kindOf msg) (s.arrive msg) = true) ∨
    State.Copied h265 failure msg ∧
      s'.consumers = s.consumers.map fun log => log ++ [⟨s.arrive msg, false⟩]
  cached : s'.cached = s.cached ∧ ¬ (State.Copied h265 failure msg ∧
      isSequenceHeader h265 msg = true) ∨
    s'.cached = Function.update s.cached (kindOf msg) (some (s.arrive msg)) ∧
      (isSequenceHeader h265 msg = true ∨ kindOf msg = .audio ∧ s.cached .audio = none)
  gop : s'.gop = s.gop ∨
    isSequenceHeader h265 msg = false ∧ s'.gop = s.gopAfter h265 (s.arrive msg)

section
variable {h265} {s : State} {msg : SharedPtrMessage} {failure : Failure}

/-- The copy to the consumers. -/
theorem consumers_copy (reduce : Bool) (hcopied : State.Copied h265 failure msg) :
    (s.copy (s.dropForReduce h265 reduce (kindOf msg) (s.arrive msg)) (s.arrive msg)).consumers =
        s.consumers ∧ (State.Copied h265 failure msg →
          s.dropForReduce h265 reduce (kindOf msg) (s.arrive msg) = true) ∨
      State.Copied h265 failure msg ∧
        (s.copy (s.dropForReduce h265 reduce (kindOf msg) (s.arrive msg))
            (s.arrive msg)).consumers =
          s.consumers.map fun log => log ++ [⟨s.arrive msg, false⟩] := by
  unfold State.copy
  split
  · next hdrop => exact .inl ⟨rfl, fun _ => hdrop⟩
  · exact .inr ⟨hcopied, rfl⟩

theorem handled_audio (hkind : kindOf msg = .audio) (reduce : Bool) :
    Handled h265 s reduce failure msg (s.onAudioImp h265 reduce failure (s.arrive msg)) := by
  unfold State.onAudioImp
  split
  · next hfail =>
    have hnot : ¬ State.Copied h265 failure msg := by
      rintro (h | ⟨h, -⟩) <;> simp [h] at hfail
    exact ⟨⟨rfl, rfl, rfl, rfl⟩, .inl ⟨rfl, fun h => absurd h hnot⟩, .inl ⟨rfl, fun h => hnot h.1⟩,
      .inl rfl⟩
  · next hpass =>
    have hcopied : State.Copied h265 failure msg := by
      cases failure with
      | none => exact .inl rfl
      | format => simp at hpass
      | cache => exact .inr ⟨rfl, by simp [hkind]⟩
      | hub => simp at hpass
    have hcopy := consumers_copy (s := s) reduce hcopied
    rw [hkind] at hcopy
    generalize hs₁ : s.copy (s.dropForReduce h265 reduce .audio (s.arrive msg)) (s.arrive msg) = s₁
      at hcopy
    have hkept : s₁.nb = s.nb ∧ s₁.canPublish = s.canPublish ∧ s₁.current = s.current ∧
        s₁.missed = s.missed ∧ s₁.cached = s.cached ∧ s₁.gop = s.gop ∧
        s₁.gopCache = s.gopCache := by
      rw [← hs₁]
      unfold State.copy
      split <;> exact ⟨rfl, rfl, rfl, rfl, rfl, rfl, rfl⟩
    obtain ⟨hnb, hcan, hcurrent, hmissed, hcached, hgop, hgopCache⟩ := hkept
    have hgopAfter : s₁.gopAfter h265 (s.arrive msg) = s.gopAfter h265 (s.arrive msg) := by
      unfold State.gopAfter
      rw [hgop, hgopCache]
    unfold State.cacheAudio
    split
    · next hheader =>
      refine ⟨⟨hnb, hcan, hcurrent, hmissed⟩, ?_, .inr ⟨?_, .inl hheader⟩, .inl hgop⟩
      · rw [hkind]
        exact hcopy
      · rw [hkind, ← hcached]
        rfl
    · next hframe =>
      have hframe : isSequenceHeader h265 msg = false := Bool.eq_false_of_not_eq_true hframe
      split
      · next hnone =>
        rw [hcached] at hnone
        split
        · refine ⟨⟨hnb, hcan, hcurrent, hmissed⟩, ?_, .inr ⟨?_, .inr ⟨hkind, hnone⟩⟩, .inl hgop⟩
          · rw [hkind]
            exact hcopy
          · rw [hkind, ← hcached]
            rfl
        · refine ⟨⟨hnb, hcan, hcurrent, hmissed⟩, ?_, .inr ⟨?_, .inr ⟨hkind, hnone⟩⟩,
            .inr ⟨hframe, hgopAfter⟩⟩
          · rw [hkind]
            exact hcopy
          · rw [hkind, ← hcached]
            rfl
      · refine ⟨⟨hnb, hcan, hcurrent, hmissed⟩, ?_, .inl ⟨hcached, ?_⟩, .inr ⟨hframe, hgopAfter⟩⟩
        · rw [hkind]
          exact hcopy
        · rintro ⟨-, hheader⟩
          rw [hframe] at hheader
          cases hheader

theorem handled_video (hkind : kindOf msg = .video) (reduce : Bool) :
    Handled h265 s reduce failure msg (s.onVideoImp h265 reduce failure (s.arrive msg)) := by
  unfold State.onVideoImp
  split
  · next hfail =>
    have hnot : ¬ State.Copied h265 failure msg := by
      rintro (h | ⟨h, -⟩) <;> simp [h] at hfail
    exact ⟨⟨rfl, rfl, rfl, rfl⟩, .inl ⟨rfl, fun h => absurd h hnot⟩, .inl ⟨rfl, fun h => hnot h.1⟩,
      .inl rfl⟩
  · next hformat =>
    split
    · next hheader =>
      split
      · next hfail =>
        -- the header is cached, and the hub or the consumers do not get it
        have hnot : ¬ State.Copied h265 failure msg := by
          rintro (h | ⟨-, h⟩)
          · exact hfail h
          · exact h ⟨hkind, hheader⟩
        refine ⟨⟨rfl, rfl, rfl, rfl⟩, .inl ⟨rfl, fun h => absurd h hnot⟩, .inr ⟨?_, .inl hheader⟩,
          .inl rfl⟩
        rw [hkind]
        rfl
      · next hpass =>
        have hcopied : State.Copied h265 failure msg := .inl (by simpa using hpass)
        have hcopy := consumers_copy (s := s) reduce hcopied
        unfold State.copy at hcopy ⊢
        rw [hkind] at hcopy
        split
        · next hdrop =>
          rw [if_pos hdrop] at hcopy
          refine ⟨⟨rfl, rfl, rfl, rfl⟩, ?_, .inr ⟨?_, .inl hheader⟩, .inl rfl⟩
          · rw [hkind]
            exact hcopy
          · rw [hkind]
            rfl
        · next hkeep =>
          rw [if_neg hkeep] at hcopy
          refine ⟨⟨rfl, rfl, rfl, rfl⟩, ?_, .inr ⟨?_, .inl hheader⟩, .inl rfl⟩
          · rw [hkind]
            exact hcopy
          · rw [hkind]
            rfl
    · next hframe =>
      have hframe : isSequenceHeader h265 msg = false := Bool.eq_false_of_not_eq_true hframe
      have hcached : ¬ (State.Copied h265 failure msg ∧ isSequenceHeader h265 msg = true) := by
        rintro ⟨-, hheader⟩
        rw [hframe] at hheader
        cases hheader
      split
      · next hhub =>
        have hnot : ¬ State.Copied h265 failure msg := by
          rintro (h | ⟨h, -⟩) <;> simp [h] at hhub
        exact ⟨⟨rfl, rfl, rfl, rfl⟩, .inl ⟨rfl, fun h => absurd h hnot⟩, .inl ⟨rfl, hcached⟩,
          .inl rfl⟩
      · next hhub =>
        have hcopied : State.Copied h265 failure msg := by
          cases failure with
          | none => exact .inl rfl
          | format => exact absurd rfl hformat
          | cache => exact .inr ⟨rfl, by simp [hframe]⟩
          | hub => exact absurd rfl hhub
        exact ⟨⟨rfl, rfl, rfl, rfl⟩, .inr ⟨hcopied, rfl⟩, .inl ⟨rfl, hcached⟩, .inr ⟨hframe, rfl⟩⟩

theorem handled_onMessage (s : State) (reduce : Bool) (failure : Failure)
    (msg : SharedPtrMessage) : ∃ s', Handled h265 s reduce failure msg s' ∧
      s.onMessage h265 reduce failure msg = s'.remember h265 failure msg := by
  unfold State.onMessage
  cases hkind : kindOf msg with
  | audio => exact ⟨_, handled_audio hkind reduce, rfl⟩
  | video => exact ⟨_, handled_video hkind reduce, rfl⟩

end

/-! ## The invariant -/

/-- A player that comes now, or is there, has the header of the session. -/
structure Inv (s : State) : Prop where
  idle : s.canPublish = true → ∀ k, s.current k = none
  audio : ∀ p ∈ s.cached .audio, kindOf p.msg = .audio
  video : ∀ p ∈ s.cached .video, kindOf p.msg = .video ∧ isSequenceHeader h265 p.msg = true
  known : ∀ k, ∀ header ∈ s.current k, s.missed k = false →
    ∃ p ∈ s.cached k, p.msg.payload = header ∧ isSequenceHeader h265 p.msg = true
  gop : ∀ p ∈ s.gop, isSequenceHeader h265 p.msg = false ∧ p.number < s.nb
  nodup : (s.gop.map (·.number)).Nodup
  served : Served h265 s
  numbers : ∀ log ∈ s.consumers, ∀ e ∈ log, e.isHeader h265 = false → e.item.number < s.nb
  told : ∀ log ∈ s.consumers, ∀ k, ∀ header ∈ s.current k, s.missed k = false →
    lastHeader h265 k log = some header

/-- A message that leaves every consumer with the right header. -/
def ProperMessage (s : State) (reduce : Bool) (failure : Failure) (msg : SharedPtrMessage) : Prop :=
  State.Copied h265 failure msg →
    if isSequenceHeader h265 msg then
      s.dropForReduce h265 reduce (kindOf msg) (s.arrive msg) = true →
        ∀ log ∈ s.consumers, lastHeader h265 (kindOf msg) log = some msg.payload
    else s.consumers = [] ∨ s.missed (kindOf msg) = false

/-- What a player is given at its start fits together. -/
def ProperPlay (s : State) (ds dg : Bool) : Prop :=
  (s.active = true ∧ ds = true ∨ s.current .audio = none ∧ s.current .video = none) ∧
  (s.active = true → ds = true → ∀ p ∈ s.cached .audio, isSequenceHeader h265 p.msg = true) ∧
  (s.active = true → dg = true → ∀ p ∈ s.gop, ∀ header ∈ p.header,
    ds = true ∧ ∃ q ∈ s.cached (kindOf p.msg), q.msg.payload = header)

def Proper (s : State) (a : Action) : Prop :=
  Input a ∧
    match a with
    | .onMessage reduce failure msg => ProperMessage h265 s reduce failure msg
    | .play ds dg => ProperPlay h265 s ds dg
    | _ => True

variable {h265}

variable {s : State}

/-- The copies of the cached headers. -/
theorem Inv.dumps (hs : Inv h265 s) {ds : Bool}
    (h : ds = true → ∀ p ∈ s.cached .audio, isSequenceHeader h265 p.msg = true) :
    Right h265 (s.dumps ds) ∧ (∀ e ∈ s.dumps ds, e.isHeader h265 = true) ∧
      (ds = true → ∀ k, lastHeader h265 k (s.dumps ds) = (s.cached k).map (·.msg.payload)) := by
  cases ds with
  | false => exact ⟨.nil, nofun, nofun⟩
  | true =>
    have haudio := h rfl
    have hkind := hs.audio
    have hvideo := hs.video
    unfold State.dumps
    rw [if_pos rfl]
    cases ha : s.cached .audio with
    | none =>
      cases hv : s.cached .video with
      | none =>
        refine ⟨.nil, nofun, fun _ k => ?_⟩
        cases k <;> simp [lastHeader, ha, hv]
      | some v =>
        obtain ⟨hvkind, hvheader⟩ := hvideo v (by rw [hv]; rfl)
        refine ⟨Right.nil.header (e := ⟨v, true⟩) hvheader, by simpa [Entry.isHeader] using hvheader,
          fun _ k => ?_⟩
        cases k <;> simp [lastHeader, ha, hv, hvkind, hvheader, Entry.isHeader]
    | some a =>
      have haheader := haudio a (by rw [ha]; rfl)
      have hakind := hkind a (by rw [ha]; rfl)
      have hfirst : Right h265 [⟨a, true⟩] := Right.nil.header (e := ⟨a, true⟩) haheader
      cases hv : s.cached .video with
      | none =>
        refine ⟨hfirst, by simpa [Entry.isHeader] using haheader, fun _ k => ?_⟩
        cases k <;> simp [lastHeader, ha, hv, hakind, haheader, Entry.isHeader]
      | some v =>
        obtain ⟨hvkind, hvheader⟩ := hvideo v (by rw [hv]; rfl)
        refine ⟨hfirst.header (e := ⟨v, true⟩) hvheader,
          by simpa [Entry.isHeader] using ⟨haheader, hvheader⟩, fun _ k => ?_⟩
        cases k <;>
          simp [lastHeader, ha, hv, hakind, haheader, hvkind, hvheader, Entry.isHeader]

theorem Inv.frames_dumpGop (hs : Inv h265 s) (dg : Bool) :
    ∀ e ∈ s.dumpGop dg, e.isHeader h265 = false ∧ e.item.number < s.nb := by
  intro e he
  unfold State.dumpGop at he
  split at he
  · obtain ⟨p, hp, rfl⟩ := List.mem_map.1 he
    exact hs.gop p hp
  · cases he

/-- What a consumer is given at its start. -/
theorem Inv.right_play (hs : Inv h265 s) {ds dg : Bool} (h : ProperPlay h265 s ds dg)
    (hactive : s.active = true) : Right h265 (s.dumps ds ++ s.dumpGop dg) := by
  obtain ⟨hright, hheaders, hlast⟩ := hs.dumps (h.2.1 hactive)
  unfold State.dumpGop
  split
  · next hdg =>
    apply hright.frames (fun p hp => (hs.gop p hp).1) _ hheaders hs.nodup
    intro p hp header hheader
    obtain ⟨hds, q, hq, hpayload⟩ := h.2.2 hactive hdg p hp header hheader
    rw [hlast hds, Option.mem_def.1 hq, Option.map_some, hpayload]
  · rw [List.append_nil]
    exact hright

theorem Inv.play (hs : Inv h265 s) {ds dg : Bool} (h : ProperPlay h265 s ds dg) :
    Inv h265 (s.play ds dg) := by
  refine ⟨hs.idle, hs.audio, hs.video, hs.known, hs.gop, hs.nodup, ?_, ?_, ?_⟩
  · intro log hlog
    rcases List.mem_append.1 hlog with hlog | hlog
    · exact hs.served log hlog
    · rw [List.mem_singleton.1 hlog]
      split
      · next hactive => exact hs.right_play h hactive
      · exact .nil
  · intro log hlog e he hframe
    rcases List.mem_append.1 hlog with hlog | hlog
    · exact hs.numbers log hlog e he hframe
    · rw [List.mem_singleton.1 hlog] at he
      split at he
      · next hactive =>
        rcases List.mem_append.1 he with he | he
        · rw [(hs.dumps (h.2.1 hactive)).2.1 e he] at hframe
          cases hframe
        · exact (hs.frames_dumpGop dg e he).2
      · cases he
  · intro log hlog k header hheader hmissed
    rcases List.mem_append.1 hlog with hlog | hlog
    · exact hs.told log hlog k header hheader hmissed
    · rcases h.1 with ⟨hactive, hds⟩ | hnone
      · obtain ⟨p, hp, hpayload, -⟩ := hs.known k header hheader hmissed
        rw [List.mem_singleton.1 hlog, if_pos hactive, lastHeader_append,
          lastHeader_of_frames k fun e he => (hs.frames_dumpGop dg e he).1, Option.none_or,
          (hs.dumps (h.2.1 hactive)).2.2 hds, Option.mem_def.1 hp, Option.map_some, hpayload]
      · exfalso
        have hcurrent : s.current k = none := by
          cases k with
          | audio => exact hnone.1
          | video => exact hnone.2
        cases hcurrent.symm.trans hheader

section
variable {s s' : State} {reduce : Bool} {failure : Failure} {msg : SharedPtrMessage}
  {current : Kind → Option (List UInt8)} {missed : Kind → Bool}

/-- What is remembered of a message: a header in a session. -/
def Remembered (h265 : Bool) (s : State) (failure : Failure) (msg : SharedPtrMessage)
    (current : Kind → Option (List UInt8)) (missed : Kind → Bool) : Prop :=
  isSequenceHeader h265 msg = true ∧ s.canPublish = false ∧
      current = Function.update s.current (kindOf msg) (some msg.payload) ∧
      missed = Function.update s.missed (kindOf msg) (! decide (State.Copied h265 failure msg)) ∨
    (isSequenceHeader h265 msg = true → s.canPublish = true) ∧ current = s.current ∧
      missed = s.missed

/-- What is remembered changes nothing else. -/
theorem remember_eq (s : State) (failure : Failure) (msg : SharedPtrMessage) :
    ∃ current missed, s.remember h265 failure msg =
        { s with nb := s.nb + 1, current := current, missed := missed } ∧
      Remembered h265 s failure msg current missed := by
  unfold State.remember
  split
  · next h => exact ⟨_, _, rfl, .inl ⟨h.1, h.2, rfl, rfl⟩⟩
  · next h => exact ⟨_, _, rfl, .inr ⟨by simpa using h, rfl, rfl⟩⟩

variable {header : List UInt8}

/-- The header of a kind, after a message: the old one, or the message. -/
theorem current_cases (hs : Inv h265 s) (h : Remembered h265 s failure msg current missed)
    {k : Kind} (hheader : header ∈ current k) (hmissed : missed k = false) :
    (header ∈ s.current k ∧ s.missed k = false ∧
        (isSequenceHeader h265 msg = true → k ≠ kindOf msg)) ∨
      (k = kindOf msg ∧ header = msg.payload ∧ isSequenceHeader h265 msg = true ∧
        State.Copied h265 failure msg) := by
  rcases h with ⟨hmsg, -, rfl, rfl⟩ | ⟨hidle, rfl, rfl⟩
  · by_cases hk : k = kindOf msg
    · subst hk
      rw [Option.mem_def, Function.update_self, Option.some.injEq] at hheader
      rw [Function.update_self, Bool.not_eq_false', decide_eq_true_eq] at hmissed
      exact .inr ⟨rfl, hheader.symm, hmsg, hmissed⟩
    · rw [Function.update_of_ne hk] at hheader hmissed
      exact .inl ⟨hheader, hmissed, fun _ => hk⟩
  · refine .inl ⟨hheader, hmissed, fun hmsg => ?_⟩
    cases (hs.idle (hidle hmsg) k).symm.trans hheader

/-- The header that a new consumer gets. -/
theorem known_onMessage (hs : Inv h265 s) (hh : Handled h265 s reduce failure msg s')
    (hr : Remembered h265 s failure msg current missed) {k : Kind}
    (hheader : header ∈ current k) (hmissed : missed k = false) :
    ∃ p ∈ s'.cached k, p.msg.payload = header ∧ isSequenceHeader h265 p.msg = true := by
  rcases current_cases hs hr hheader hmissed with ⟨hold, hmissed, hk⟩ | ⟨rfl, rfl, hmsg, hcopied⟩
  · obtain ⟨p, hp, hpayload, hpheader⟩ := hs.known k header hold hmissed
    rcases hh.cached with ⟨hsame, -⟩ | ⟨hupdate, hcause⟩
    · rw [hsame]
      exact ⟨p, hp, hpayload, hpheader⟩
    · have hne : k ≠ kindOf msg := by
        rcases hcause with hmsg | ⟨hkind, hnone⟩
        · exact hk hmsg
        · rintro rfl
          rw [hkind] at hp
          cases hnone.symm.trans hp
      rw [hupdate, Function.update_of_ne hne]
      exact ⟨p, hp, hpayload, hpheader⟩
  · rcases hh.cached with ⟨-, hnot⟩ | ⟨hupdate, -⟩
    · exact absurd ⟨hcopied, hmsg⟩ hnot
    · rw [hupdate, Function.update_self]
      exact ⟨s.arrive msg, rfl, rfl, hmsg⟩

/-- The header that the consumers have. -/
theorem told_onMessage (hs : Inv h265 s) (h : ProperMessage h265 s reduce failure msg)
    (hh : Handled h265 s reduce failure msg s')
    (hr : Remembered h265 s failure msg current missed) {log : Log} (hlog : log ∈ s'.consumers)
    {k : Kind} (hheader : header ∈ current k) (hmissed : missed k = false) :
    lastHeader h265 k log = some header := by
  rcases hh.consumers with ⟨hsame, hdrop⟩ | ⟨hcopied, hall⟩
  · rw [hsame] at hlog
    rcases current_cases hs hr hheader hmissed with ⟨hold, hmissed, -⟩ | ⟨rfl, rfl, hmsg, hcopied⟩
    · exact hs.told log hlog k header hold hmissed
    · have hproper := h hcopied
      rw [if_pos hmsg] at hproper
      exact hproper (hdrop hcopied) log hlog
  · rw [hall] at hlog
    obtain ⟨before, hbefore, rfl⟩ := List.mem_map.1 hlog
    rcases current_cases hs hr hheader hmissed with ⟨hold, hmissed, hk⟩ | ⟨rfl, rfl, hmsg, -⟩
    · have hlast := hs.told before hbefore k header hold hmissed
      cases hmsg : isSequenceHeader h265 msg with
      | true => rw [lastHeader_append_other (Ne.symm (hk hmsg)), hlast]
      | false => rw [lastHeader_append_frame (e := ⟨s.arrive msg, false⟩) k hmsg, hlast]
    · exact lastHeader_append_header (e := ⟨s.arrive msg, false⟩) hmsg

/-- What the consumers have got. -/
theorem served_onMessage (hs : Inv h265 s) (h : ProperMessage h265 s reduce failure msg)
    (hh : Handled h265 s reduce failure msg s') : Served h265 s' := by
  intro log hlog
  rcases hh.consumers with ⟨hsame, -⟩ | ⟨hcopied, hall⟩
  · rw [hsame] at hlog
    exact hs.served log hlog
  · rw [hall] at hlog
    obtain ⟨before, hbefore, rfl⟩ := List.mem_map.1 hlog
    have hproper := h hcopied
    cases hmsg : isSequenceHeader h265 msg with
    | true => exact (hs.served before hbefore).header hmsg
    | false =>
      rw [hmsg, if_neg (by decide)] at hproper
      have hnotMissed : s.missed (kindOf msg) = false := by
        refine hproper.resolve_left fun hnil => ?_
        rw [hnil] at hbefore
        cases hbefore
      refine (hs.served before hbefore).frame hmsg rfl ?_ ?_
      · intro header hheader
        exact hs.told before hbefore _ header hheader hnotMissed
      · intro e he hframe
        exact ne_of_lt (hs.numbers before hbefore e he hframe)

theorem numbers_onMessage (hs : Inv h265 s) (hh : Handled h265 s reduce failure msg s') :
    ∀ log ∈ s'.consumers, ∀ e ∈ log, e.isHeader h265 = false → e.item.number < s.nb + 1 := by
  intro log hlog e he hframe
  rcases hh.consumers with ⟨hsame, -⟩ | ⟨-, hall⟩
  · rw [hsame] at hlog
    exact (hs.numbers log hlog e he hframe).trans (Nat.lt_succ_self _)
  · rw [hall] at hlog
    obtain ⟨before, hbefore, rfl⟩ := List.mem_map.1 hlog
    rcases List.mem_append.1 he with he | he
    · exact (hs.numbers before hbefore e he hframe).trans (Nat.lt_succ_self _)
    · rw [List.mem_singleton.1 he]
      exact Nat.lt_succ_self _

/-- The frames of the GOP cache. -/
theorem gop_onMessage (hs : Inv h265 s) (hh : Handled h265 s reduce failure msg s') :
    (∀ p ∈ s'.gop, isSequenceHeader h265 p.msg = false ∧ p.number < s.nb + 1) ∧
      (s'.gop.map (·.number)).Nodup := by
  have hold : ∀ p ∈ s.gop, isSequenceHeader h265 p.msg = false ∧ p.number < s.nb + 1 := by
    intro p hp
    exact ⟨(hs.gop p hp).1, (hs.gop p hp).2.trans (Nat.lt_succ_self _)⟩
  rcases hh.gop with hsame | ⟨hframe, hgop⟩
  · rw [hsame]
    exact ⟨hold, hs.nodup⟩
  · have hnew : isSequenceHeader h265 (s.arrive msg).msg = false ∧
        (s.arrive msg).number < s.nb + 1 := ⟨hframe, Nat.lt_succ_self _⟩
    rw [hgop]
    unfold State.gopAfter
    split
    · exact ⟨nofun, List.nodup_nil⟩
    · split
      · split
        · exact ⟨by simpa using hnew, List.nodup_singleton _⟩
        · constructor
          · intro p hp
            rcases List.mem_append.1 hp with hp | hp
            · exact hold p hp
            · rw [List.mem_singleton.1 hp]
              exact hnew
          · rw [List.map_append, List.map_singleton, List.nodup_append]
            refine ⟨hs.nodup, List.nodup_singleton _, ?_⟩
            intro a ha b hb
            obtain ⟨p, hp, rfl⟩ := List.mem_map.1 ha
            rw [List.mem_singleton.1 hb]
            exact ne_of_lt (hs.gop p hp).2
      · exact ⟨hold, hs.nodup⟩

/-- The kinds of the cached headers. -/
theorem cached_onMessage (hs : Inv h265 s) (hh : Handled h265 s reduce failure msg s') :
    (∀ p ∈ s'.cached .audio, kindOf p.msg = .audio) ∧
      ∀ p ∈ s'.cached .video, kindOf p.msg = .video ∧ isSequenceHeader h265 p.msg = true := by
  rcases hh.cached with ⟨hsame, -⟩ | ⟨hupdate, hcause⟩
  · rw [hsame]
    exact ⟨hs.audio, hs.video⟩
  · rw [hupdate]
    cases hkind : kindOf msg with
    | audio =>
      refine ⟨fun p hp => ?_, hs.video⟩
      cases hp
      exact hkind
    | video =>
      refine ⟨hs.audio, fun p hp => ?_⟩
      have hmsg : isSequenceHeader h265 msg = true := by
        refine hcause.resolve_right fun h => ?_
        rw [hkind] at h
        cases h.1
      cases hp
      exact ⟨hkind, hmsg⟩

end

theorem Inv.onMessage (hs : Inv h265 s) {reduce : Bool} {failure : Failure}
    {msg : SharedPtrMessage} (h : ProperMessage h265 s reduce failure msg) :
    Inv h265 (s.onMessage h265 reduce failure msg) := by
  obtain ⟨s', hh, heq⟩ := @handled_onMessage h265 s reduce failure msg
  obtain ⟨current, missed, hremember, hr⟩ := @remember_eq h265 s' failure msg
  obtain ⟨hnb, hcan, hcurrent, hmissed⟩ := hh.kept
  unfold Remembered at hr
  rw [hcan, hcurrent, hmissed] at hr
  rw [heq, hremember, hnb]
  refine ⟨?_, (cached_onMessage hs hh).1, (cached_onMessage hs hh).2,
    fun k header hheader hm => known_onMessage hs hh hr hheader hm,
    (gop_onMessage hs hh).1, (gop_onMessage hs hh).2,
    fun log hlog => served_onMessage hs h hh log hlog,
    fun log hlog => numbers_onMessage hs hh log hlog,
    fun log hlog k header hheader hm => told_onMessage hs h hh hr hlog hheader hm⟩
  intro hended k
  have hidle : s.canPublish = true := hcan ▸ hended
  rcases hr with ⟨-, hnot, -⟩ | ⟨-, hsame, -⟩
  · rw [hidle] at hnot
    cases hnot
  · exact (congrFun hsame k).trans (hs.idle hidle k)

/-! ## Runs -/

/-- The start and the end of a session. -/
theorem Inv.onPublish (hs : Inv h265 s) (hubOk : Bool) : Inv h265 (s.onPublish hubOk) :=
  ⟨fun _ _ => rfl, nofun, nofun, nofun, hs.gop, hs.nodup, hs.served, hs.numbers, nofun⟩

theorem Inv.onUnpublish (hs : Inv h265 s) : Inv h265 s.onUnpublish := by
  unfold State.onUnpublish
  split
  · exact hs
  · exact ⟨fun _ _ => rfl, hs.audio, hs.video, nofun, nofun, List.nodup_nil, hs.served, hs.numbers,
      nofun⟩

theorem Inv.onConsumerDestroy (hs : Inv h265 s) (i : ℕ) : Inv h265 (s.onConsumerDestroy i) := by
  have hmem : ∀ log ∈ s.consumers.eraseIdx i, log ∈ s.consumers := fun log h =>
    (List.eraseIdx_sublist s.consumers i).mem h
  exact ⟨hs.idle, hs.audio, hs.video, hs.known, hs.gop, hs.nodup,
    fun log hlog => hs.served log (hmem log hlog), fun log hlog => hs.numbers log (hmem log hlog),
    fun log hlog => hs.told log (hmem log hlog)⟩

theorem Inv.setCache (hs : Inv h265 s) (enabled : Bool) : Inv h265 (s.setCache enabled) := by
  cases enabled with
  | true => exact ⟨hs.idle, hs.audio, hs.video, hs.known, hs.gop, hs.nodup, hs.served, hs.numbers,
      hs.told⟩
  | false => exact ⟨hs.idle, hs.audio, hs.video, hs.known, nofun, List.nodup_nil, hs.served,
      hs.numbers, hs.told⟩

/-- One step of whoever acts keeps the invariant. -/
theorem Inv.step {t : State} {a : Action} (hs : Inv h265 s) (ha : Proper h265 s a)
    (h : LiveSource.step h265 s a = some t) : Inv h265 t := by
  cases a with
  | onPublish hubOk =>
    cases h
    exact hs.onPublish hubOk
  | onUnpublish =>
    cases h
    exact hs.onUnpublish
  | onMessage reduce failure msg =>
    cases h
    exact hs.onMessage ha.2
  | play ds dg =>
    cases h
    exact hs.play ha.2
  | onConsumerDestroy i =>
    cases h
    exact hs.onConsumerDestroy i
  | setCache enabled =>
    cases h
    exact hs.setCache enabled
  | setGopCacheMaxFrames v =>
    cases h
    exact ⟨hs.idle, hs.audio, hs.video, hs.known, hs.gop, hs.nodup, hs.served, hs.numbers, hs.told⟩

variable (h265)

/-- In a run of proper steps every player decodes with the right header, in every state. -/
theorem served_of_proper_runs {s : State}
    (h : System.Reaches (step h265) (Proper h265) {} s) : Served h265 s := by
  have hinv : Inv h265 s := by
    refine h.invariant (fun s a t hs ha hstep => hs.step ha hstep) ?_
    exact ⟨fun _ _ => rfl, nofun, nofun, nofun, nofun, List.nodup_nil, nofun, nofun, nofun⟩
  exact hinv.served

instance (a : Action) : Decidable (Input a) := by
  cases a <;> simp only [Input] <;> infer_instance

instance (s : State) (a : Action) : Decidable (Proper h265 s a) := by
  cases a <;> simp only [Proper, Input, ProperMessage, ProperPlay] <;> infer_instance

def audioSh : SharedPtrMessage := ⟨7, 0, 8, 1, [0xAF, 0, 0x12, 0x10]⟩

def audioFrame : SharedPtrMessage := ⟨7, 0, 8, 1, [0xAF, 1, 0x21]⟩

def videoSh : SharedPtrMessage := ⟨6, 0, 9, 1, [0x17, 0, 0, 0, 0, 1]⟩

def keyFrame : SharedPtrMessage := ⟨6, 0, 9, 1, [0x17, 1, 0, 0, 0, 0x65]⟩

/-- A session with a player from the start, and one that joins inside a GOP. -/
theorem served_of_two_players : ∃ s, Served false s ∧ s.consumers.map List.length = [5, 5] := by
  obtain ⟨s, hrun, -, hlength⟩ := System.reaches_of_observe (step false) (Proper false) {}
    [.play true true, .onPublish true, .onMessage true .none audioSh, .onMessage true .none videoSh,
      .onMessage true .none keyFrame, .onMessage true .none audioFrame, .play true true,
      .onMessage true .none audioFrame]
    (fun s => s.consumers.map List.length) (b := [5, 5]) (by decide +kernel)
  exact ⟨s, served_of_proper_runs false hrun, hlength⟩

/-- A player that came between two sessions does not get the header of the second one, which is that
of the first. -/
theorem header_dropped_for_idle_player :
    ¬ ∀ s, System.Reaches (step false) (fun _ => Input) {} s → Served false s := by
  intro h
  obtain ⟨s, hrun, -, hlogs⟩ := System.reaches_of_observe (step false) (fun _ => Input) {}
    [.onPublish true, .onMessage true .none videoSh, .onMessage true .none keyFrame, .onUnpublish,
      .play true true, .onPublish true, .onMessage true .none videoSh,
      .onMessage true .none keyFrame]
    (fun s => decide (∃ log ∈ s.consumers, ∃ e ∈ log.head?, e.isHeader false = false ∧
      e.item.header = some videoSh.payload)) (b := true) (by decide +kernel)
  obtain ⟨log, hlog, e, he, hframe, hheader⟩ := of_decide_eq_true hlogs
  obtain ⟨after, rfl⟩ := List.head?_eq_some_iff.1 he
  cases (h s hrun _ hlog).decodes [] e after rfl hframe _ hheader

/-- A player that joins an active source gets the headers and behind them what the GOP cache holds:
a video message, and no key frame after it. -/
theorem joins_with_gop {s : State} (h : System.Reaches (step h265) System.anyStep {} s)
    (hactive : s.active = true) (ds : Bool) : ∃ t gop, step h265 s (.play ds true) = some t ∧
      t.consumers = s.consumers ++ [s.dumps ds ++ gop] ∧
      gop.map (·.item.msg) = s.gopCache.gopCache ∧
      ∀ e rest, gop = e :: rest → e.item.msg.isVideo = true ∧
        ∀ e' ∈ rest, e'.item.msg.isKeyFrame = false := by
  obtain ⟨hgop, r, hr, hcache⟩ := faithful_of_reaches h265 h
  have hmsgs : (s.dumpGop true).map (·.item.msg) = s.gopCache.gopCache := by
    rw [← hgop, State.dumpGop, if_pos rfl, List.map_map]
    rfl
  refine ⟨_, s.dumpGop true, rfl, by rw [State.play, if_pos hactive], hmsgs, ?_⟩
  rintro e rest heq
  rw [heq, List.map_cons, ← hcache] at hmsgs
  refine ⟨(hr.first _ _ hmsgs.symm).1, fun e' he' => hr.others _ ?_⟩
  rw [← hmsgs]
  exact List.mem_map_of_mem he'

/-- The player that joins inside a GOP. -/
theorem joins_with_two_frames : ∃ s t : State, step false s (.play true true) = some t ∧
    t.consumers.map List.length = [4] := by
  obtain ⟨s, hrun, -, hobs⟩ := System.reaches_of_observe (step false) System.anyStep {}
    [.onPublish true, .onMessage true .none audioSh, .onMessage true .none videoSh,
      .onMessage true .none keyFrame, .onMessage true .none audioFrame]
    (fun s => (s.active, s.consumers.length, (s.dumps true).length, s.gopCache.gopCache.length))
    (b := (true, 0, 2, 2)) (by decide +kernel)
  simp only [Prod.mk.injEq, List.length_eq_zero_iff] at hobs
  obtain ⟨t, gop, hstep, hconsumers, hgop, -⟩ := joins_with_gop false hrun hobs.1 true
  refine ⟨s, t, hstep, ?_⟩
  have hlength := congrArg List.length hgop
  rw [List.length_map, hobs.2.2.2] at hlength
  rw [hconsumers, hobs.2.1]
  simp [hobs.2.2.1, hlength]

end SrsChatRoom.App.LiveSource
