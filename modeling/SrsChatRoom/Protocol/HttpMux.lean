import SrsChatRoom.Lib.Dict
import SrsChatRoom.Lib.System
import SrsChatRoom.Lib.TextStream

/-!
# Routing HTTP requests (`SrsHttpServeMux`)

The mux keeps its patterns in one table. A pattern with a slash at its end brings a redirect from the
pattern without the slash. The hosts that patterns begin with are kept beside the table, each host
once: the first pattern of a host that is removed takes the host away.

* `IsRoute` - what a request should be routed to;
* `Agrees` - the table and the hosts are those of the registered patterns;
* `match_exact` - the routing, as long as each removed pattern leaves nothing behind.
-/

namespace SrsChatRoom.Protocol.HttpMux

open TextStream (Text)

variable {η : Type}

/-! ## Code -/

/-- `ISrsHttpHandler`: one that has been registered, or the redirect to a pattern. -/
inductive MuxHandler (η : Type)
  | user (h : η)
  | redirect (location : Text)
deriving DecidableEq

/-- `SrsHttpMuxEntry` -/
structure SrsHttpMuxEntry (η : Type) where
  explicitMatch : Bool
  handler : MuxHandler η
  pattern : Text
  enabled : Bool
deriving DecidableEq

/-- `SrsHttpServeMux`. The order of the entries does not matter: no two patterns of one length match
one path. -/
structure SrsHttpServeMux (η : Type) where
  entries : Dict Text (SrsHttpMuxEntry η)
  vhosts : Dict Text η

/-- The errors of `handle`. -/
inductive MuxError
  | patternEmpty
  | patternDuplicated

/-- A pattern up to its first slash. -/
def hostOf (pattern : Text) : Text := pattern.takeWhile (· ≠ '/')

/-- The entry of a pattern that is registered. -/
def explicitEntry (pattern : Text) (handler : η) (enabled : Bool) : SrsHttpMuxEntry η :=
  ⟨true, .user handler, pattern, enabled⟩

/-- The entry of a redirect to a pattern. -/
def implicitEntry (pattern : Text) : SrsHttpMuxEntry η := ⟨false, .redirect pattern, pattern, true⟩

namespace SrsHttpServeMux

def new : SrsHttpServeMux η := ⟨.empty, .empty⟩

/-- `handle`: the redirect behind a pattern with a slash at its end. -/
def handleRedirect (entries : Dict Text (SrsHttpMuxEntry η)) (pattern : Text) :
    Dict Text (SrsHttpMuxEntry η) :=
  if pattern ≠ ['/'] ∧ pattern.getLast? = some '/' then
    match entries.get? pattern.dropLast with
    | none => entries.set pattern.dropLast (implicitEntry pattern)
    | some entry =>
      if entry.explicitMatch = true then entries
      else entries.set pattern.dropLast (implicitEntry pattern)
  else entries

/-- `handle` -/
def handle (m : SrsHttpServeMux η) (pattern : Text) (handler : η) :
    Except MuxError (SrsHttpServeMux η) :=
  if pattern = [] then .error .patternEmpty
  else if (m.entries.get? pattern).any SrsHttpMuxEntry.explicitMatch = true then
    .error .patternDuplicated
  else .ok
    { vhosts :=
        if pattern.head? ≠ some '/' then m.vhosts.set (hostOf pattern) handler else m.vhosts
      entries :=
        handleRedirect (m.entries.set pattern (explicitEntry pattern handler true)) pattern }

/-- `unhandle`; `pattern.at(0)` throws for an empty pattern. -/
def unhandle (m : SrsHttpServeMux η) (pattern : Text) : Option (SrsHttpServeMux η) :=
  if pattern = [] then none
  else some
    { entries := m.entries.erase pattern
      vhosts := if pattern.head? ≠ some '/' then m.vhosts.erase (hostOf pattern) else m.vhosts }

/-- `handler->entry->enabled = enabled`, for the handler that is registered for the pattern. -/
def enable (m : SrsHttpServeMux η) (pattern : Text) (enabled : Bool) : SrsHttpServeMux η :=
  match m.entries.get? pattern with
  | none => m
  | some entry =>
    if entry.explicitMatch = true then
      { m with entries := m.entries.set pattern { entry with enabled } }
    else m

end SrsHttpServeMux

/-- `path_match` -/
def pathMatch (pattern path : Text) : Bool :=
  if pattern = [] then false
  else if pattern.getLast? ≠ some '/' then pattern = path
  else pattern.length ≤ path.length ∧ path.take pattern.length = pattern

/-- The loop of `match`. -/
def matchLoop (path : Text) :
    List (Text × SrsHttpMuxEntry η) → ℕ → Option (MuxHandler η) → Option (MuxHandler η)
  | [], _, h => h
  | (pattern, entry) :: entries, nbMatched, h =>
    if entry.enabled = false ∨ pathMatch pattern path = false then
      matchLoop path entries nbMatched h
    else if h.isNone = true ∨ nbMatched < pattern.length then
      matchLoop path entries pattern.length (some entry.handler)
    else matchLoop path entries nbMatched h

/-- `match` -/
def SrsHttpServeMux.match_ (m : SrsHttpServeMux η) (host path : Text) : Option (MuxHandler η) :=
  matchLoop (if m.vhosts.contains host = true then host ++ path else path) m.entries.entries 0 none

/-! ## What is expected of it -/

/-- The patterns that are registered, with their handlers, and whether they are enabled. -/
abbrev Registered (η : Type) := Dict Text (η × Bool)

/-- The operations. -/
inductive Op (η : Type)
  | handle (pattern : Text) (handler : η)
  | unhandle (pattern : Text)
  | enable (pattern : Text) (enabled : Bool)

def Registered.apply (r : Registered η) : Op η → Registered η
  | .handle pattern handler =>
    if pattern = [] ∨ pattern ∈ r.keys then r else r.set pattern (handler, true)
  | .unhandle pattern => r.erase pattern
  | .enable pattern enabled =>
    match r.get? pattern with
    | none => r
    | some (handler, _) => r.set pattern (handler, enabled)

/-- A pattern leads to the redirect to the pattern with a slash. -/
def Redirects (r : Registered η) (pattern : Text) : Prop :=
  pattern ∉ r.keys ∧ pattern ≠ [] ∧ pattern ++ ['/'] ∈ r.keys

/-- The handler of a pattern that is enabled. -/
inductive Leads (r : Registered η) : Text → MuxHandler η → Prop
  | user {pattern : Text} {h : η} : r.get? pattern = some (h, true) → Leads r pattern (.user h)
  | redirect {pattern : Text} : Redirects r pattern →
      Leads r pattern (.redirect (pattern ++ ['/']))

/-- There is a pattern for the host. -/
def KnownHost (r : Registered η) (host : Text) : Prop :=
  ∃ pattern ∈ r.keys, pattern.head? ≠ some '/' ∧ hostOf pattern = host

/-- A pattern matches itself, and with a slash at its end all that begins with it. -/
def Matches (pattern path : Text) : Prop :=
  pattern ≠ [] ∧ (pattern = path ∨ pattern.getLast? = some '/' ∧ pattern <+: path)

/-- What the patterns are matched with. -/
def Target (r : Registered η) (host path target : Text) : Prop :=
  KnownHost r host ∧ target = host ++ path ∨ ¬ KnownHost r host ∧ target = path

/-- The longest pattern that matches. -/
def Routes (r : Registered η) (target pattern : Text) (h : MuxHandler η) : Prop :=
  Leads r pattern h ∧ Matches pattern target ∧
    ∀ pattern' h', Leads r pattern' h' → Matches pattern' target →
      pattern'.length ≤ pattern.length

/-- The handler of a request: that of the longest pattern, or none where none matches. -/
def IsRoute (r : Registered η) (host path : Text) : Option (MuxHandler η) → Prop
  | none => ∀ target, Target r host path target → ∀ pattern h, Leads r pattern h →
      ¬ Matches pattern target
  | some h => ∃ target pattern, Target r host path target ∧ Routes r target pattern h

/-! ## Runs -/

/-- The mux, and what is registered. -/
structure Mux (η : Type) where
  mux : SrsHttpServeMux η
  registered : Registered η

def Mux.new : Mux η := ⟨.new, .empty⟩

/-- One operation; an error of `handle` changes nothing. -/
def Mux.step (s : Mux η) (op : Op η) : Option (Mux η) :=
  match op with
  | .handle pattern handler =>
    match s.mux.handle pattern handler with
    | .ok mux => some ⟨mux, s.registered.apply op⟩
    | .error _ => some ⟨s.mux, s.registered.apply op⟩
  | .unhandle pattern => (s.mux.unhandle pattern).map fun mux => ⟨mux, s.registered.apply op⟩
  | .enable pattern enabled => some ⟨s.mux.enable pattern enabled, s.registered.apply op⟩

/-- A pattern that is removed is the last one of its host, and it has nothing to do with a redirect:
the pattern with a slash more is not registered, and the one with a slash less is, if the pattern
itself is. -/
def Mux.Proper (s : Mux η) : Op η → Prop
  | .handle _ _ => True
  | .unhandle pattern =>
    (pattern.head? ≠ some '/' → ∀ other ∈ s.registered.keys, other.head? ≠ some '/' →
      hostOf other = hostOf pattern → other = pattern) ∧
    pattern ++ ['/'] ∉ s.registered.keys ∧
    (pattern.getLast? = some '/' → pattern ∈ s.registered.keys →
      pattern.dropLast = [] ∨ pattern.dropLast ∈ s.registered.keys)
  | .enable _ _ => True

instance (s : Mux η) (op : Op η) : Decidable (s.Proper op) := by
  cases op <;> unfold Mux.Proper <;> infer_instance

/-! ## The table and the registered patterns -/

/-- The entry that a pattern has in the table. -/
def entryOf (r : Registered η) (pattern : Text) : Option (SrsHttpMuxEntry η) :=
  match r.get? pattern with
  | some (handler, enabled) => some (explicitEntry pattern handler enabled)
  | none =>
    if pattern ≠ [] ∧ pattern ++ ['/'] ∈ r.keys then some (implicitEntry (pattern ++ ['/']))
    else none

/-- The table has the registered patterns and their redirects, and the hosts are theirs. -/
structure Agrees (s : Mux η) : Prop where
  entries : ∀ pattern, s.mux.entries.get? pattern = entryOf s.registered pattern
  vhosts : ∀ host, host ∈ s.mux.vhosts.keys ↔ KnownHost s.registered host
  nonempty : [] ∉ s.registered.keys

variable {r : Registered η} {pattern : Text}

theorem entryOf_of_get? {handler : η} {enabled : Bool}
    (h : r.get? pattern = some (handler, enabled)) :
    entryOf r pattern = some (explicitEntry pattern handler enabled) := by
  rw [entryOf, h]

theorem entryOf_of_not_mem (h : pattern ∉ r.keys) :
    entryOf r pattern = if pattern ≠ [] ∧ pattern ++ ['/'] ∈ r.keys then
      some (implicitEntry (pattern ++ ['/'])) else none := by
  rw [entryOf, (r.not_mem_keys_iff pattern).mp h]

/-- The entry of a pattern depends on what is registered for it and for the pattern with a slash. -/
theorem entryOf_congr {r' : Registered η} (h : r'.get? pattern = r.get? pattern)
    (hslash : pattern ≠ [] → (pattern ++ ['/'] ∈ r'.keys ↔ pattern ++ ['/'] ∈ r.keys)) :
    entryOf r' pattern = entryOf r pattern := by
  rw [entryOf, entryOf, h]
  by_cases hne : pattern = []
  · simp [hne]
  · simp only [hslash hne]

variable {s : Mux η}

theorem explicit_iff (hs : Agrees s) (pattern : Text) :
    (s.mux.entries.get? pattern).any SrsHttpMuxEntry.explicitMatch = true ↔
      pattern ∈ s.registered.keys := by
  rw [hs.entries]
  by_cases hmem : pattern ∈ s.registered.keys
  · obtain ⟨⟨handler, enabled⟩, hget⟩ := (s.registered.mem_keys_iff pattern).mp hmem
    rw [entryOf_of_get? hget]
    simp [hmem, explicitEntry]
  · rw [entryOf_of_not_mem hmem]
    split
    · simp [hmem, implicitEntry]
    · simp [hmem]

open SrsHttpServeMux

/-- The table after a new pattern, with its redirect. -/
theorem get?_handleRedirect {entries : Dict Text (SrsHttpMuxEntry η)}
    (hentries : ∀ q, entries.get? q = entryOf r q) (pattern : Text) (handler : η) (q : Text) :
    (handleRedirect (entries.set pattern (explicitEntry pattern handler true)) pattern).get? q =
      entryOf (r.set pattern (handler, true)) q := by
  have hset (q : Text) (hq : q ≠ pattern) :
      (entries.set pattern (explicitEntry pattern handler true)).get? q = entryOf r q := by
    rw [Dict.get?_set_ne _ (Ne.symm hq), hentries]
  have hkeys (k : Text) : k ∈ (r.set pattern (handler, true)).keys ↔ k = pattern ∨ k ∈ r.keys :=
    Dict.mem_keys_set r pattern k (handler, true)
  have hother (hq : q ≠ pattern) (hslash : q ≠ [] → q ++ ['/'] ≠ pattern) :
      entryOf (r.set pattern (handler, true)) q = entryOf r q := by
    apply entryOf_congr (Dict.get?_set_ne _ (Ne.symm hq) _)
    intro hne
    rw [hkeys]
    exact or_iff_right (hslash hne)
  have hself (hq : q = pattern) : entryOf (r.set pattern (handler, true)) q =
      some (explicitEntry pattern handler true) := by
    rw [hq]
    exact entryOf_of_get? (Dict.get?_set_self _ _ _)
  unfold handleRedirect
  by_cases hredirect : pattern ≠ ['/'] ∧ pattern.getLast? = some '/'
  · rw [if_pos hredirect]
    obtain ⟨hroot, hlast⟩ := hredirect
    obtain ⟨front, rfl⟩ := List.getLast?_eq_some_iff.mp hlast
    have hfront : front ≠ front ++ ['/'] := by simp
    have hne : front ≠ [] := by
      rintro rfl
      exact hroot rfl
    rw [List.dropLast_concat, hset front hfront]
    by_cases hmem : front ∈ r.keys
    · -- the pattern without the slash is registered itself
      obtain ⟨⟨h, b⟩, hget⟩ := (r.mem_keys_iff front).mp hmem
      rw [entryOf_of_get? hget]
      dsimp only
      rw [if_pos (show (explicitEntry front h b).explicitMatch = true from rfl)]
      by_cases hq : q = front ++ ['/']
      · rw [hself hq, hq, Dict.get?_set_self]
      · rw [hset q hq]
        by_cases hqf : q = front
        · have hget' : (r.set (front ++ ['/']) (handler, true)).get? q = some (h, b) := by
            rw [Dict.get?_set_ne _ (Ne.symm hq), hqf, hget]
          rw [entryOf_of_get? hget', hqf, entryOf_of_get? hget]
        · exact (hother hq fun _ heq => hqf (List.append_cancel_right heq)).symm
    · -- it is not, and gets the redirect
      have hentry : (match entryOf r front with
          | none => (entries.set (front ++ ['/'])
              (explicitEntry (front ++ ['/']) handler true)).set front
              (implicitEntry (front ++ ['/']))
          | some entry => if entry.explicitMatch = true then
              entries.set (front ++ ['/']) (explicitEntry (front ++ ['/']) handler true)
            else (entries.set (front ++ ['/'])
              (explicitEntry (front ++ ['/']) handler true)).set front
              (implicitEntry (front ++ ['/']))) =
          (entries.set (front ++ ['/']) (explicitEntry (front ++ ['/']) handler true)).set front
            (implicitEntry (front ++ ['/'])) := by
        rw [entryOf_of_not_mem hmem]
        split
        · rfl
        · rename_i entry hsome
          split at hsome
          · cases hsome
            rfl
          · cases hsome
      rw [hentry, Dict.get?_set]
      by_cases hqf : front = q
      · subst hqf
        have hnot : front ∉ (r.set (front ++ ['/']) (handler, true)).keys := by
          rw [hkeys]
          simp [hmem]
        have hslash : front ++ ['/'] ∈ (r.set (front ++ ['/']) (handler, true)).keys :=
          (hkeys _).mpr (.inl rfl)
        rw [if_pos rfl, entryOf_of_not_mem hnot, if_pos ⟨hne, hslash⟩]
      · rw [if_neg hqf]
        by_cases hq : q = front ++ ['/']
        · rw [hself hq, hq, Dict.get?_set_self]
        · rw [hset q hq]
          exact (hother hq fun _ heq => hqf (List.append_cancel_right heq).symm).symm
  · rw [if_neg hredirect]
    by_cases hq : q = pattern
    · rw [hself hq, hq, Dict.get?_set_self]
    · rw [hset q hq, hother hq]
      rintro hne rfl
      apply hredirect
      refine ⟨?_, by simp⟩
      intro hroot
      exact hne (by simpa using hroot)

variable {t : Mux η}

theorem agrees_handle {handler : η} (hs : Agrees s)
    (h : s.step (.handle pattern handler) = some t) : Agrees t := by
  rw [Mux.step] at h
  unfold SrsHttpServeMux.handle at h
  by_cases hne : pattern = []
  · rw [if_pos hne] at h
    cases h
    have hsame : s.registered.apply (.handle pattern handler) = s.registered := if_pos (.inl hne)
    rw [hsame]
    exact hs
  · rw [if_neg hne] at h
    by_cases hmem : pattern ∈ s.registered.keys
    · rw [if_pos ((explicit_iff hs pattern).mpr hmem)] at h
      cases h
      have hsame : s.registered.apply (.handle pattern handler) = s.registered :=
        if_pos (.inr hmem)
      rw [hsame]
      exact hs
    · rw [if_neg fun hexplicit => hmem ((explicit_iff hs pattern).mp hexplicit)] at h
      cases h
      have hset : s.registered.apply (.handle pattern handler) =
          s.registered.set pattern (handler, true) := if_neg (not_or.mpr ⟨hne, hmem⟩)
      rw [hset]
      refine ⟨fun q => get?_handleRedirect hs.entries pattern handler q, fun host => ?_, ?_⟩
      rotate_left
      · rw [Dict.mem_keys_set]
        exact not_or.mpr ⟨Ne.symm hne, hs.nonempty⟩
      have hknown : KnownHost (s.registered.set pattern (handler, true)) host ↔
          pattern.head? ≠ some '/' ∧ hostOf pattern = host ∨ KnownHost s.registered host := by
        unfold KnownHost
        simp only [Dict.mem_keys_set, or_and_right, exists_or, exists_eq_left]
      rw [hknown]
      dsimp only
      by_cases hhead : pattern.head? ≠ some '/'
      · rw [if_pos hhead, Dict.mem_keys_set, hs.vhosts]
        simp [hhead, eq_comm]
      · rw [if_neg hhead, hs.vhosts]
        simp [hhead]

theorem agrees_unhandle (hs : Agrees s)
    (hproper : s.Proper (.unhandle pattern)) (h : s.step (.unhandle pattern) = some t) :
    Agrees t := by
  obtain ⟨hhost, hslash, hredirect⟩ := hproper
  rw [Mux.step, SrsHttpServeMux.unhandle] at h
  by_cases hne : pattern = []
  · rw [if_pos hne] at h
    cases h
  · rw [if_neg hne] at h
    cases h
    refine ⟨fun q => ?_, fun host => ?_,
      fun hmem => hs.nonempty ((Dict.mem_keys_erase _ _ _).mp hmem).2⟩
    · change (s.mux.entries.erase pattern).get? q = entryOf (s.registered.erase pattern) q
      rw [Dict.get?_erase]
      by_cases hq : pattern = q
      · subst hq
        have hnot : pattern ∉ (s.registered.erase pattern).keys := by
          rw [Dict.mem_keys_erase]
          simp
        have hno : ¬ (pattern ≠ [] ∧ pattern ++ ['/'] ∈ (s.registered.erase pattern).keys) := by
          rintro ⟨_, hmem⟩
          exact hslash ((Dict.mem_keys_erase _ _ _).mp hmem).2
        rw [if_pos rfl, entryOf_of_not_mem hnot, if_neg hno]
      · rw [if_neg hq, hs.entries]
        have hget : (s.registered.erase pattern).get? q = s.registered.get? q := by
          rw [Dict.get?_erase, if_neg hq]
        by_cases hqs : q ++ ['/'] = pattern ∧ pattern ∈ s.registered.keys
        · -- the pattern without the slash is registered itself, or is the root
          obtain ⟨rfl, hmem⟩ := hqs
          have hq' := hredirect (by simp) hmem
          rw [List.dropLast_concat] at hq'
          rcases hq' with rfl | hq'
          · exact (entryOf_congr hget fun hnil => absurd rfl hnil).symm
          · obtain ⟨⟨handler, enabled⟩, hsome⟩ := (s.registered.mem_keys_iff q).mp hq'
            rw [entryOf_of_get? hsome, entryOf_of_get? (hget.trans hsome)]
        · symm
          apply entryOf_congr hget
          intro _
          rw [Dict.mem_keys_erase]
          constructor
          · exact fun hmem => hmem.2
          · intro hmem
            exact ⟨fun heq => hqs ⟨heq, heq ▸ hmem⟩, hmem⟩
    · change host ∈ (if pattern.head? ≠ some '/' then s.mux.vhosts.erase (hostOf pattern)
        else s.mux.vhosts).keys ↔ KnownHost (s.registered.erase pattern) host
      have hkept (hother : pattern.head? ≠ some '/' → hostOf pattern ≠ host) :
          KnownHost (s.registered.erase pattern) host ↔ KnownHost s.registered host := by
        constructor
        · rintro ⟨other, hmem, hother⟩
          exact ⟨other, ((Dict.mem_keys_erase _ _ _).mp hmem).2, hother⟩
        · rintro ⟨other, hmem, hhead, hof⟩
          refine ⟨other, (Dict.mem_keys_erase _ _ _).mpr ⟨?_, hmem⟩, hhead, hof⟩
          rintro rfl
          exact hother hhead hof
      by_cases hhead : pattern.head? ≠ some '/'
      · rw [if_pos hhead, Dict.mem_keys_erase, hs.vhosts]
        by_cases hof : host = hostOf pattern
        · subst hof
          constructor
          · rintro ⟨hnot, _⟩
            exact absurd rfl hnot
          · rintro ⟨other, hmem, hother, hof⟩
            obtain ⟨hnot, hmem⟩ := (Dict.mem_keys_erase _ _ _).mp hmem
            exact absurd (hhost hhead other hmem hother hof) hnot
        · rw [hkept fun _ => Ne.symm hof]
          simp [hof]
      · rw [if_neg hhead, hs.vhosts, hkept fun h => absurd h hhead]

theorem agrees_enable {enabled : Bool} (hs : Agrees s)
    (h : s.step (.enable pattern enabled) = some t) : Agrees t := by
  rw [Mux.step] at h
  cases h
  cases hget : s.registered.get? pattern with
  | none =>
    have hsame : s.registered.apply (.enable pattern enabled) = s.registered := by
      rw [Registered.apply, hget]
    have hmux : s.mux.enable pattern enabled = s.mux := by
      have hnot : ¬ (s.mux.entries.get? pattern).any SrsHttpMuxEntry.explicitMatch = true := by
        rw [explicit_iff hs, Dict.not_mem_keys_iff]
        exact hget
      rw [SrsHttpServeMux.enable]
      split
      · rfl
      · rename_i entry hentry
        rw [hentry] at hnot
        rw [if_neg (by simpa using hnot)]
    rw [hsame, hmux]
    exact hs
  | some e =>
    obtain ⟨handler, before⟩ := e
    have hset : s.registered.apply (.enable pattern enabled) =
        s.registered.set pattern (handler, enabled) := by
      rw [Registered.apply, hget]
    have hmux : s.mux.enable pattern enabled = { s.mux with
        entries := s.mux.entries.set pattern (explicitEntry pattern handler enabled) } := by
      rw [SrsHttpServeMux.enable, hs.entries, entryOf_of_get? hget]
      rfl
    have hmem : pattern ∈ s.registered.keys := (s.registered.mem_keys_iff pattern).mpr ⟨_, hget⟩
    have hkeys := Dict.keys_set_of_mem hmem (handler, enabled)
    rw [hset, hmux]
    refine ⟨fun q => ?_, fun host => ?_, hkeys ▸ hs.nonempty⟩
    · change (s.mux.entries.set pattern (explicitEntry pattern handler enabled)).get? q =
        entryOf (s.registered.set pattern (handler, enabled)) q
      rw [Dict.get?_set]
      by_cases hq : pattern = q
      · subst hq
        rw [if_pos rfl, entryOf_of_get? (Dict.get?_set_self _ _ _)]
      · rw [if_neg hq, hs.entries]
        symm
        apply entryOf_congr (Dict.get?_set_ne _ hq _)
        intro _
        rw [hkeys]
    · rw [hs.vhosts, KnownHost, KnownHost]
      simp only [hkeys]

theorem agrees_step {op : Op η} (hs : Agrees s) (hproper : s.Proper op)
    (h : s.step op = some t) : Agrees t := by
  cases op with
  | handle pattern handler => exact agrees_handle hs h
  | unhandle pattern => exact agrees_unhandle hs hproper h
  | enable pattern enabled => exact agrees_enable hs h

theorem agrees_new : Agrees (Mux.new : Mux η) := by
  have hnot (q : Text) : q ∉ (Mux.new : Mux η).registered.keys := by
    intro h
    cases h
  refine ⟨fun q => ?_, fun host => ?_, hnot []⟩
  · rw [entryOf_of_not_mem (hnot q), if_neg fun h => hnot _ h.2]
    rfl
  constructor
  · intro h
    cases h
  · rintro ⟨_, h, _⟩
    cases h

/-- In every run of proper operations the table stays that of the registered patterns. -/
theorem agrees_of_reaches (h : System.Reaches Mux.step Mux.Proper Mux.new s) : Agrees s :=
  h.invariant (fun _ _ _ hs hproper hstep => agrees_step hs hproper hstep) agrees_new

/-! ## The longest pattern -/

theorem pathMatch_iff (pattern path : Text) : pathMatch pattern path = true ↔ Matches pattern path := by
  unfold pathMatch Matches
  by_cases hne : pattern = []
  · simp [hne]
  · rw [if_neg hne]
    by_cases hlast : pattern.getLast? = some '/'
    · rw [if_neg (not_not.mpr hlast)]
      simp only [decide_eq_true_eq, hlast, true_and]
      constructor
      · rintro ⟨_, htake⟩
        exact ⟨hne, .inr (htake ▸ List.take_prefix _ _)⟩
      · rintro ⟨_, rfl | hbegins⟩
        · simp
        · exact ⟨hbegins.length_le, (List.prefix_iff_eq_take.mp hbegins).symm⟩
    · rw [if_pos hlast]
      simp [hne, hlast]

/-- The entry takes part in the match. -/
def Candidate (path : Text) (e : Text × SrsHttpMuxEntry η) : Prop :=
  e.2.enabled = true ∧ pathMatch e.1 path = true

/-- What the loop finds: what it has had, or a longer one, and none is longer. -/
theorem matchLoop_spec (path : Text) (l : List (Text × SrsHttpMuxEntry η)) (n : ℕ)
    (h : Option (MuxHandler η)) :
    (matchLoop path l n h = h ∧ ∀ e ∈ l, Candidate path e → h ≠ none ∧ e.1.length ≤ n) ∨
      ∃ e ∈ l, Candidate path e ∧ matchLoop path l n h = some e.2.handler ∧
        (h ≠ none → n < e.1.length) ∧ ∀ e' ∈ l, Candidate path e' → e'.1.length ≤ e.1.length := by
  induction l generalizing n h with
  | nil => exact .inl ⟨rfl, nofun⟩
  | cons e l ih =>
    obtain ⟨pattern, entry⟩ := e
    rw [matchLoop]
    by_cases hskip : entry.enabled = false ∨ pathMatch pattern path = false
    · have hnot : ¬ Candidate path (pattern, entry) := by
        rintro ⟨henabled, hmatch⟩
        rcases hskip with h' | h'
        · rw [h'] at henabled
          cases henabled
        · rw [h'] at hmatch
          cases hmatch
      rw [if_pos hskip]
      rcases ih n h with ⟨hsame, hall⟩ | ⟨e, hmem, hcand, hfound, hlonger, hall⟩
      · refine .inl ⟨hsame, List.forall_mem_cons.mpr ⟨fun hc => absurd hc hnot, hall⟩⟩
      · exact .inr ⟨e, List.mem_cons_of_mem _ hmem, hcand, hfound, hlonger,
          List.forall_mem_cons.mpr ⟨fun hc => absurd hc hnot, hall⟩⟩
    · have hcand : Candidate path (pattern, entry) := by
        simpa [Candidate] using hskip
      rw [if_neg hskip]
      by_cases htake : h.isNone = true ∨ n < pattern.length
      · rw [if_pos htake]
        have hlonger : h ≠ none → n < pattern.length := by
          intro hsome
          exact htake.resolve_left fun hnone => hsome (Option.isNone_iff_eq_none.mp hnone)
        right
        rcases ih pattern.length (some entry.handler) with
          ⟨hsame, hall⟩ | ⟨e, hmem, hcand', hfound, hlonger', hall⟩
        · exact ⟨(pattern, entry), List.mem_cons_self, hcand, hsame, hlonger,
            List.forall_mem_cons.mpr ⟨fun _ => le_refl _, fun e he hc => (hall e he hc).2⟩⟩
        · have hlt := hlonger' (by simp)
          exact ⟨e, List.mem_cons_of_mem _ hmem, hcand', hfound,
            fun hsome => (hlonger hsome).trans hlt,
            List.forall_mem_cons.mpr ⟨fun _ => hlt.le, hall⟩⟩
      · rw [if_neg htake]
        obtain ⟨hsome, hle⟩ := not_or.mp htake
        have hsome' : h ≠ none := by
          rintro rfl
          exact hsome rfl
        rcases ih n h with ⟨hsame, hall⟩ | ⟨e, hmem, hcand', hfound, hlonger, hall⟩
        · exact .inl ⟨hsame, List.forall_mem_cons.mpr ⟨fun _ => ⟨hsome', not_lt.mp hle⟩, hall⟩⟩
        · exact .inr ⟨e, List.mem_cons_of_mem _ hmem, hcand', hfound, hlonger,
            List.forall_mem_cons.mpr ⟨fun _ => (not_lt.mp hle).trans (hlonger hsome').le, hall⟩⟩

/-- The candidates are the patterns that lead somewhere and match. -/
theorem candidate_iff (hs : Agrees s) (path pattern : Text) (h : MuxHandler η) :
    (∃ entry, (pattern, entry) ∈ s.mux.entries.entries ∧ Candidate path (pattern, entry) ∧
      entry.handler = h) ↔ Leads s.registered pattern h ∧ Matches pattern path := by
  have hentry : ∀ entry, (pattern, entry) ∈ s.mux.entries.entries ↔
      entryOf s.registered pattern = some entry := by
    intro entry
    rw [Dict.mem_entries_iff, hs.entries]
  simp only [hentry, Candidate, pathMatch_iff]
  constructor
  · rintro ⟨entry, hsome, ⟨henabled, hmatch⟩, rfl⟩
    refine ⟨?_, hmatch⟩
    unfold entryOf at hsome
    split at hsome
    · rename_i handler enabled hget
      cases hsome
      cases henabled
      exact .user hget
    · rename_i hget
      split at hsome
      · rename_i hslash
        cases hsome
        exact .redirect ⟨(Dict.not_mem_keys_iff _ _).mpr hget, hslash⟩
      · cases hsome
  · rintro ⟨hleads, hmatch⟩
    cases hleads with
    | user hget => exact ⟨_, entryOf_of_get? hget, ⟨rfl, hmatch⟩, rfl⟩
    | redirect hredirect =>
      obtain ⟨hnot, hslash⟩ := hredirect
      refine ⟨implicitEntry (pattern ++ ['/']), ?_, ⟨rfl, hmatch⟩, rfl⟩
      rw [entryOf_of_not_mem hnot, if_pos hslash]

variable {host target : Text}

theorem Target.unique {path target' : Text}
    (h : Target r host path target) (h' : Target r host path target') : target = target' := by
  rcases h with ⟨hknown, rfl⟩ | ⟨hknown, rfl⟩
  · rcases h' with ⟨_, rfl⟩ | ⟨hnot, _⟩
    · rfl
    · exact absurd hknown hnot
  · rcases h' with ⟨hnot, _⟩ | ⟨_, rfl⟩
    · exact absurd hnot hknown
    · rfl

/-- With the table of the registered patterns, requests are routed as they should be. -/
theorem isRoute_of_agrees (hs : Agrees s) (host path : Text) :
    IsRoute s.registered host path (s.mux.match_ host path) := by
  obtain ⟨target, htarget, hmatch⟩ : ∃ target, Target s.registered host path target ∧
      s.mux.match_ host path = matchLoop target s.mux.entries.entries 0 none := by
    rw [SrsHttpServeMux.match_]
    by_cases hknown : KnownHost s.registered host
    · have hcontains := (Dict.contains_iff _ _).mpr ((hs.vhosts host).mpr hknown)
      exact ⟨_, .inl ⟨hknown, rfl⟩, by rw [if_pos hcontains]⟩
    · have hcontains : ¬ s.mux.vhosts.contains host = true := by
        rw [Dict.contains_iff, hs.vhosts]
        exact hknown
      exact ⟨_, .inr ⟨hknown, rfl⟩, by rw [if_neg hcontains]⟩
  rw [hmatch]
  rcases matchLoop_spec target s.mux.entries.entries 0 none with
    ⟨hsame, hall⟩ | ⟨⟨pattern, entry⟩, hmem, hcand, hfound, _, hall⟩
  · rw [hsame]
    intro target' htarget' pattern h hleads hmatches
    rw [htarget'.unique htarget] at hmatches
    obtain ⟨entry, hmem, hcand, _⟩ := (candidate_iff hs target pattern h).mpr ⟨hleads, hmatches⟩
    exact (hall _ hmem hcand).1 rfl
  · rw [hfound]
    obtain ⟨hleads, hmatches⟩ :=
      (candidate_iff hs target pattern entry.handler).mp ⟨entry, hmem, hcand, rfl⟩
    refine ⟨target, pattern, htarget, hleads, hmatches, ?_⟩
    intro pattern' h' hleads' hmatches'
    obtain ⟨entry', hmem', hcand', _⟩ :=
      (candidate_iff hs target pattern' h').mpr ⟨hleads', hmatches'⟩
    exact hall _ hmem' hcand'

variable {h : MuxHandler η}

theorem Leads.unique {h' : MuxHandler η}
    (hh : Leads r pattern h) (hh' : Leads r pattern h') : h = h' := by
  cases hh with
  | user hget =>
    cases hh' with
    | user hget' =>
      rw [hget] at hget'
      cases hget'
      rfl
    | redirect hredirect =>
      rw [Redirects, Dict.not_mem_keys_iff, hget] at hredirect
      cases hredirect.1
  | redirect hredirect =>
    cases hh' with
    | user hget =>
      rw [Redirects, Dict.not_mem_keys_iff, hget] at hredirect
      cases hredirect.1
    | redirect _ => rfl

/-- There is one route. -/
theorem IsRoute.unique {path : Text} {o : Option (MuxHandler η)} (ho : IsRoute r host path o)
    (htarget : Target r host path target) (hroutes : Routes r target pattern h) : o = some h := by
  obtain ⟨hleads, hmatches, hlongest⟩ := hroutes
  cases o with
  | none => exact absurd hmatches (ho target htarget pattern h hleads)
  | some h' =>
    obtain ⟨target', pattern', htarget', hleads', hmatches', hlongest'⟩ := ho
    rw [htarget'.unique htarget] at hmatches' hlongest'
    -- two matching patterns of one length are equal
    have hlength := le_antisymm (hlongest pattern' h' hleads' hmatches')
      (hlongest' pattern h hleads hmatches)
    have hbegins : ∀ p, Matches p target → p <+: target := by
      rintro p ⟨_, rfl | ⟨_, hp⟩⟩
      · exact List.prefix_refl p
      · exact hp
    have heq : pattern' = pattern :=
      (List.prefix_of_prefix_length_le (hbegins pattern' hmatches') (hbegins pattern hmatches)
        hlength.le).eq_of_length hlength
    subst heq
    rw [hleads'.unique hleads]

/-! ## Removing a pattern -/

/-- A request: the host has no slash, and the path begins with one, if it is not empty. -/
structure Request where
  host : Text
  path : Text
  host_ok : '/' ∉ host
  path_ok : path = [] ∨ path.head? = some '/'

theorem hostOf_append {rest : Text} (hhost : '/' ∉ host)
    (hrest : rest = [] ∨ rest.head? = some '/') : hostOf (host ++ rest) = host := by
  unfold hostOf
  rw [List.takeWhile_append_of_pos]
  · cases rest with
    | nil => simp
    | cons c rest =>
      have hc : c = '/' := by simpa using hrest
      simp [hc]
  · intro c hc
    have hne : c ≠ '/' := by
      rintro rfl
      exact hhost hc
    simp [hne]

/-- What matches a host with a path is a pattern of the host. -/
theorem exists_of_matches {r : Request} (h : Matches pattern (r.host ++ r.path)) :
    ∃ rest, pattern = r.host ++ rest ∧ (rest = [] ∨ rest.head? = some '/') := by
  rcases h.2 with heq | ⟨hlast, hbegins⟩
  · exact ⟨r.path, heq, r.path_ok⟩
  · obtain ⟨more, hmore⟩ := hbegins
    rcases List.append_eq_append_iff.mp hmore with ⟨rest, hhost, _⟩ | ⟨rest, heq, hpath⟩
    · -- the host has no slash
      have hslash : '/' ∈ r.host := by
        rw [hhost]
        exact List.mem_append_left _ (List.mem_of_mem_getLast? hlast)
      exact absurd hslash r.host_ok
    · refine ⟨rest, heq, ?_⟩
      cases rest with
      | nil => exact .inl rfl
      | cons c rest =>
        rcases r.path_ok with hnil | hhead
        · rw [hnil] at hpath
          cases hpath
        · rw [hpath] at hhead
          exact .inr hhead

/-- Removing a pattern does not change what a request of another pattern is routed to. -/
theorem routes_unhandle (hs : Agrees s) {other : Text}
    {r : Request} (hproper : s.Proper (.unhandle pattern)) (hne : other ≠ pattern)
    (htarget : Target s.registered r.host r.path target)
    (hroutes : Routes s.registered target other h) :
    Target (s.registered.erase pattern) r.host r.path target ∧
      Routes (s.registered.erase pattern) target other h := by
  obtain ⟨hhost, hslash, hredirect⟩ := hproper
  obtain ⟨hleads, hmatches, hlongest⟩ := hroutes
  have hget (q : Text) (hq : q ≠ pattern) :
      (s.registered.erase pattern).get? q = s.registered.get? q := by
    rw [Dict.get?_erase, if_neg (Ne.symm hq)]
  have hkeys (q : Text) : q ∈ (s.registered.erase pattern).keys ↔
      q ≠ pattern ∧ q ∈ s.registered.keys := Dict.mem_keys_erase _ _ _
  -- a redirect to the pattern is not there, so the other pattern leads on as before
  have hnotRedirect (q : Text) (hq : Redirects s.registered q) : q ++ ['/'] ≠ pattern := by
    rintro rfl
    obtain ⟨hnot, hnil, hmem⟩ := hq
    have hkept := hredirect (by simp) hmem
    rw [List.dropLast_concat] at hkept
    exact hkept.elim hnil hnot
  have hleads' : Leads (s.registered.erase pattern) other h := by
    cases hleads with
    | user hsome => exact .user ((hget other hne).trans hsome)
    | redirect hother =>
      have hslash' := hnotRedirect other hother
      obtain ⟨hnot, hnil, hmem⟩ := hother
      exact .redirect ⟨fun hm => hnot ((hkeys other).mp hm).2, hnil,
        (hkeys _).mpr ⟨hslash', hmem⟩⟩
  have hfewer {q : Text} {h' : MuxHandler η} (hq : Leads (s.registered.erase pattern) q h') :
      Leads s.registered q h' := by
    cases hq with
    | user hsome =>
      have hq : q ≠ pattern := ((hkeys q).mp ((Dict.mem_keys_iff _ _).mpr ⟨_, hsome⟩)).1
      exact .user ((hget q hq).symm.trans hsome)
    | redirect hq =>
      obtain ⟨hnot, hnil, hmem⟩ := hq
      have hmem' := ((hkeys _).mp hmem).2
      refine .redirect ⟨fun hm => hnot ((hkeys q).mpr ⟨?_, hm⟩), hnil, hmem'⟩
      rintro rfl
      exact hslash hmem'
  refine ⟨?_, hleads', hmatches, fun q h' hq => hlongest q h' (hfewer hq)⟩
  have hknown' : KnownHost (s.registered.erase pattern) r.host → KnownHost s.registered r.host := by
    rintro ⟨q, hmem, hq⟩
    exact ⟨q, ((hkeys q).mp hmem).2, hq⟩
  rcases htarget with ⟨⟨q, hmem, hhead, hof⟩, rfl⟩ | ⟨hnot, rfl⟩
  · -- the other pattern is one of the host too, and stays
    left
    refine ⟨?_, rfl⟩
    have hhostHead : r.host.head? ≠ some '/' ∧ r.host ≠ [] := by
      rw [← hof]
      cases q with
      | nil => exact absurd hmem hs.nonempty
      | cons c q =>
        have hc : c ≠ '/' := by simpa using hhead
        simp [hostOf, hc]
    obtain ⟨rest, heq, hrest⟩ := exists_of_matches hmatches
    have hof' (rest : Text) (hrest : rest = [] ∨ rest.head? = some '/') :
        (r.host ++ rest).head? ≠ some '/' ∧ hostOf (r.host ++ rest) = r.host := by
      rw [List.head?_append_of_ne_nil _ hhostHead.2]
      exact ⟨hhostHead.1, hostOf_append r.host_ok hrest⟩
    cases hleads with
    | user hsome =>
      have hkept := (hkeys other).mpr ⟨hne, (Dict.mem_keys_iff _ _).mpr ⟨_, hsome⟩⟩
      exact ⟨other, hkept, heq ▸ hof' rest hrest⟩
    | redirect hother =>
      have hkept := (hkeys _).mpr ⟨hnotRedirect other hother, hother.2.2⟩
      have hrest' : rest ++ ['/'] = [] ∨ (rest ++ ['/']).head? = some '/' := by
        rcases hrest with rfl | hhead'
        · exact .inr rfl
        · right
          cases rest with
          | nil => rfl
          | cons c rest => exact hhead'
      refine ⟨other ++ ['/'], hkept, ?_⟩
      rw [heq, List.append_assoc]
      exact hof' _ hrest'
  · exact .inr ⟨fun h' => hnot (hknown' h'), rfl⟩

end SrsChatRoom.Protocol.HttpMux
