import SrsChatRoom.Lib.Dict
import SrsChatRoom.Lib.System

/-!
# When a room may be deleted (`check_room_can_delete`)

The check works on names. What the SRS server lists counts for the room if the name starts with
that of the room, or with `translation_`, whichever room is translated; a translation counts if
its key starts with the name of the room. Players are counted in `room_players` by the hooks, for
the part of the stream name before the last underscore, and only if it starts with `room`.

`ServerState` has the streams as they are, with their rooms, beside the tables of the code.
`can_delete_iff` says for which rooms and states the names tell the truth.
-/

namespace SrsChatRoom.Server.RoomDeletion

/-! ## Names -/

/-- A string, by its characters. -/
abbrev Name := List Char

/-- `stream.rfind(c)` -/
def rfind (c : Char) : Name → Option ℕ
  | [] => none
  | x :: l => ((rfind c l).map (· + 1)).or (if x = c then some 0 else none)

/-- `translation_` and `room` -/
def translationPrefix : Name := "translation_".toList

def roomWord : Name := "room".toList

/-- `f"{room_id}_"` -/
def roomPrefix (room : Name) : Name := room ++ ['_']

/-- `_extract_room_id_from_stream(stream)` -/
def extractRoomIdFromStream (stream : Name) : Name :=
  if stream = [] then []
  else if translationPrefix.isPrefixOf stream then []
  else if roomWord.isPrefixOf stream then
    (rfind '_' stream).elim [] fun idx => if 0 < idx then stream.take idx else []
  else []

theorem rfind_eq_none_iff (c : Char) (l : Name) : rfind c l = none ↔ c ∉ l := by
  induction l with
  | nil => simp [rfind]
  | cons x l ih =>
    by_cases hx : x = c
    · simp [rfind, hx]
    · simp [rfind, hx, ih, Ne.symm hx]

/-- The last one is found. -/
theorem rfind_append {c : Char} (pre : Name) {post : Name} (h : c ∉ post) :
    rfind c (pre ++ c :: post) = some pre.length := by
  induction pre with
  | nil => simp [rfind, (rfind_eq_none_iff c post).mpr h]
  | cons x pre ih => simp [rfind, ih]

/-- What is found is the last one. -/
theorem exists_of_rfind {c : Char} {l : Name} {i : ℕ} (h : rfind c l = some i) :
    ∃ pre post, l = pre ++ c :: post ∧ pre.length = i ∧ c ∉ post := by
  induction l generalizing i with
  | nil => cases h
  | cons x l ih =>
    cases hl : rfind c l with
    | some j =>
      obtain ⟨pre, post, rfl, rfl, hpost⟩ := ih hl
      rw [rfind, hl] at h
      exact ⟨x :: pre, post, rfl, Option.some.inj h, hpost⟩
    | none =>
      by_cases hx : x = c
      · rw [rfind, hl, if_pos hx] at h
        exact ⟨[], l, by rw [hx]; rfl, Option.some.inj h, (rfind_eq_none_iff c l).mp hl⟩
      · rw [rfind, hl, if_neg hx] at h
        cases h

/-- A word without the separator begins a text up to the separator if it begins the text. -/
theorem prefix_of_prefix_append {word pre post : Name} {c : Char} (hword : c ∉ word)
    (h : word <+: pre ++ c :: post) : word <+: pre := by
  cases List.prefix_or_prefix_of_prefix h (List.prefix_append pre (c :: post)) with
  | inl hshort => exact hshort
  | inr hlong =>
    obtain ⟨rest, rfl⟩ := hlong
    cases rest with
    | nil => simp
    | cons x rest =>
      have hhead : x :: rest <+: c :: post := (List.prefix_append_right_inj pre).mp h
      have hx : x = c := (List.cons_prefix_cons.mp hhead).1
      exact absurd (by simp [hx]) hword

/-- The room that is read from a name: the name is that of the room, an underscore, and a rest
without one. A room whose name does not start with `room` is never read. -/
theorem extract_eq_iff {room : Name} (hroom : room ≠ []) (stream : Name) :
    extractRoomIdFromStream stream = room ↔
      roomWord <+: room ∧ ∃ rest, '_' ∉ rest ∧ stream = room ++ '_' :: rest := by
  unfold extractRoomIdFromStream
  constructor
  · intro h
    split_ifs at h with hnil htranslation hword
    · exact absurd h.symm hroom
    · exact absurd h.symm hroom
    · cases hfind : rfind '_' stream with
      | none =>
        rw [hfind] at h
        exact absurd h.symm hroom
      | some idx =>
        obtain ⟨pre, post, rfl, rfl, hpost⟩ := exists_of_rfind hfind
        rw [hfind] at h
        simp only [Option.elim_some, List.take_left] at h
        split at h
        · subst h
          have hstarts : roomWord <+: pre ++ '_' :: post := List.isPrefixOf_iff_prefix.mp hword
          exact ⟨prefix_of_prefix_append (by decide) hstarts, post, hpost, rfl⟩
        · exact absurd h.symm hroom
    · exact absurd h.symm hroom
  · rintro ⟨⟨word, rfl⟩, rest, hrest, rfl⟩
    have htranslation : translationPrefix.isPrefixOf (roomWord ++ word ++ '_' :: rest) = false := by
      rfl
    have hword : roomWord.isPrefixOf (roomWord ++ word ++ '_' :: rest) = true := by
      rw [List.isPrefixOf_iff_prefix, List.append_assoc]
      exact List.prefix_append _ _
    rw [htranslation, if_neg (by simp), if_neg Bool.false_ne_true, if_pos hword,
      rfind_append _ hrest]
    simp [roomWord]

/-! ## The server -/

/-- A stream: that of a member of a room, or that of a translation of a room. -/
inductive Stream
  | member (room user : Name)
  | translation (room user lang : Name)
  deriving DecidableEq

/-- The room it belongs to. -/
def Stream.room : Stream → Name
  | member room _ => room
  | translation room _ _ => room

/-- The name it has on the SRS server. -/
def Stream.name : Stream → Name
  | member room user => roomPrefix room ++ user
  | translation _ user lang => translationPrefix ++ user ++ '_' :: lang

/-- What the SRS server knows of a stream. One that only has players is listed, too. -/
structure Known where
  stream : Stream
  publishing : Bool
  deriving DecidableEq

/-- A request of the translation manager, as far as `start_translation_service` reads it. -/
structure Request where
  requestId : Name
  roomId : Name
  sourceUser : Name
  toLang : Name
  deriving DecidableEq

/-- `source_stream_key` -/
def Request.key (req : Request) : Name := roomPrefix req.roomId ++ req.sourceUser

/-- The SRS server with its streams and players, and the tables of this server: `room_players`,
the processes with their requests, and the two dictionaries by stream. -/
structure ServerState where
  known : List Known
  playing : List (Name × Stream)
  roomPlayers : Dict Name (List Name)
  translationProcesses : List (ℕ × Request)
  byStream : Dict Name Name
  streamToPid : Dict Name ℕ

namespace ServerState

/-- A server that has just started. -/
def init : ServerState := ⟨[], [], .empty, [], .empty, .empty⟩

/-! ### The hooks -/

/-- `room_players` after `streams_on_play`, for the client and the stream of the request;
`objectId` is the id of its data, for a client without an id. -/
local instance lawfulNames : LawfulBEq Name := inferInstance

def addPlayer (players : Dict Name (List Name)) (clientId objectId stream : Name) :
    Dict Name (List Name) :=
  let clientId := if clientId = [] then "unknown_".toList ++ objectId else clientId
  let rid := extractRoomIdFromStream stream
  let clients := (players.get? rid).getD []
  if stream = [] ∨ rid = [] then players
  else players.set rid (if clientId ∈ clients then clients else clients ++ [clientId])

/-- The entry of the room after the client is discarded from it. -/
def discard (players : Dict Name (List Name)) (rid clientId : Name) (clients : List Name) :
    Dict Name (List Name) :=
  if clientId ∈ clients then
    if clients.filter (· ≠ clientId) = [] then players.erase rid
    else players.set rid (clients.filter (· ≠ clientId))
  else players

/-- `room_players` after `streams_on_stop` and `streams_on_unpublish`, which have one body. -/
def dropPlayer (players : Dict Name (List Name)) (clientId stream : Name) :
    Dict Name (List Name) :=
  let rid := extractRoomIdFromStream stream
  if clientId = [] ∨ stream = [] ∨ rid = [] then players
  else (players.get? rid).elim players (discard players rid clientId)

def onPlay (s : ServerState) (clientId objectId stream : Name) : ServerState :=
  { s with roomPlayers := addPlayer s.roomPlayers clientId objectId stream }

def onStop (s : ServerState) (clientId stream : Name) : ServerState :=
  { s with roomPlayers := dropPlayer s.roomPlayers clientId stream }

variable {clientId : Name}

variable {players : Dict Name (List Name)}

/-- What an entry has after a client is added. -/
theorem of_get?_addPlayer {objectId stream k : Name} {clients : List Name} (hid : clientId ≠ [])
    (h : (addPlayer players clientId objectId stream).get? k = some clients) :
    players.get? k = some clients ∨ k = extractRoomIdFromStream stream ∧ k ≠ [] ∧ clients ≠ [] ∧
      ∀ c ∈ clients, c = clientId ∨ ∃ old, players.get? k = some old ∧ c ∈ old := by
  unfold addPlayer at h
  simp only [if_neg hid] at h
  by_cases hskip : stream = [] ∨ extractRoomIdFromStream stream = []
  · rw [if_pos hskip] at h
    exact .inl h
  rw [if_neg hskip, Dict.get?_set] at h
  by_cases hk : extractRoomIdFromStream stream = k
  · subst hk
    rw [if_pos rfl] at h
    obtain rfl := Option.some.inj h
    refine .inr ⟨rfl, fun hnil => hskip (.inr hnil), ?_, ?_⟩
    · split
      · next hin => exact List.ne_nil_of_mem hin
      · simp
    · have hold : ∀ c ∈ (players.get? (extractRoomIdFromStream stream)).getD [],
          ∃ old, players.get? (extractRoomIdFromStream stream) = some old ∧ c ∈ old := by
        intro c hc
        cases hget : players.get? (extractRoomIdFromStream stream) with
        | none => rw [hget] at hc; cases hc
        | some old => exact ⟨old, rfl, by rw [hget] at hc; exact hc⟩
      intro c hc
      split at hc
      · exact .inr (hold c hc)
      · cases List.mem_append.mp hc with
        | inl hin => exact .inr (hold c hin)
        | inr hnew => exact .inl (List.mem_singleton.mp hnew)
  · rw [if_neg hk] at h
    exact .inl h

/-- What an entry has after a client is discarded: clients it had before, and not this one. -/
theorem of_get?_dropPlayer {stream k : Name} {clients : List Name} (hid : clientId ≠ [])
    (h : (dropPlayer players clientId stream).get? k = some clients) :
    (∃ old, players.get? k = some old ∧ (∀ c ∈ clients, c ∈ old) ∧
      (old ≠ [] → clients ≠ [])) ∧
      (k ≠ [] → k = extractRoomIdFromStream stream → clientId ∉ clients) := by
  unfold dropPlayer at h
  by_cases hskip : clientId = [] ∨ stream = [] ∨ extractRoomIdFromStream stream = []
  · simp only [if_pos hskip] at h
    refine ⟨⟨clients, h, fun c hc => hc, id⟩, ?_⟩
    rintro hk rfl
    rcases hskip with hnil | rfl | hnil
    · exact absurd hnil hid
    · exact absurd rfl hk
    · exact absurd hnil hk
  simp only [if_neg hskip] at h
  cases hget : players.get? (extractRoomIdFromStream stream) with
  | none =>
    rw [hget, Option.elim_none] at h
    refine ⟨⟨clients, h, fun c hc => hc, id⟩, ?_⟩
    rintro - rfl
    rw [hget] at h
    cases h
  | some old =>
    rw [hget, Option.elim_some] at h
    unfold discard at h
    split_ifs at h with hin hempty
    · rw [Dict.get?_erase] at h
      split at h
      · cases h
      · next hne => exact ⟨⟨clients, h, fun c hc => hc, id⟩, fun _ heq => absurd heq.symm hne⟩
    · rw [Dict.get?_set] at h
      split at h
      · next heq =>
        subst heq
        obtain rfl := Option.some.inj h
        exact ⟨⟨old, hget, fun c hc => (List.mem_filter.mp hc).1, fun _ => hempty⟩,
          fun _ _ hc => absurd rfl (of_decide_eq_true (List.mem_filter.mp hc).2)⟩
      · next hne => exact ⟨⟨clients, h, fun c hc => hc, id⟩, fun _ heq => absurd heq.symm hne⟩
    · refine ⟨⟨clients, h, fun c hc => hc, id⟩, ?_⟩
      rintro - rfl
      rw [hget] at h
      obtain rfl := Option.some.inj h
      exact hin

/-- `room_players.pop(room_id, None)`, at the end of `delete_room`. -/
def popRoomPlayers (s : ServerState) (room : Name) : ServerState :=
  { s with roomPlayers := s.roomPlayers.erase room }

/-! ### The translations -/

/-- `start_translation_service`, with the process it starts. -/
def startTranslationService (s : ServerState) (pid : ℕ) (req : Request) : ServerState :=
  { s with
    translationProcesses := s.translationProcesses ++ [(pid, req)]
    byStream := s.byStream.set req.key req.requestId
    streamToPid := s.streamToPid.set req.key pid }

/-- `stop_translation_service(request_id)` -/
def stopTranslationService (s : ServerState) (requestId : Name) : ServerState :=
  { s with
    translationProcesses := s.translationProcesses.filter fun p => p.2.requestId ≠ requestId
    byStream := s.byStream.filter fun _ rid => rid ≠ requestId
    streamToPid := s.streamToPid.filter fun key _ => s.byStream.get? key ≠ some requestId }

/-! ### The check -/

/-- The result of `get_room_active_streams`. -/
structure ActiveStreams where
  hasPublish : Bool
  hasPlay : Bool
  hasTranslation : Bool
  publishStreams : List Name
  playCount : ℕ
  playClients : List Name
  translationPids : List ℕ
  translationRequestIds : List Name

/-- `get_room_active_streams(room_id)` -/
def getRoomActiveStreams (s : ServerState) (room : Name) : ActiveStreams :=
  let found := s.byStream.entries.filter fun e => (roomPrefix room).isPrefixOf e.1
  let clients := (s.roomPlayers.get? room).getD []
  { hasPublish := false
    hasPlay := clients ≠ []
    hasTranslation := found ≠ []
    publishStreams := []
    playCount := clients.length
    playClients := clients
    translationPids := (found.filterMap fun e => s.streamToPid.get? e.1).filter (· ≠ 0)
    translationRequestIds := found.map Prod.snd }

/-- `_srs_list_streams()`: the names of the first ten streams the SRS server knows, or none if it
does not answer. The request asks for no number, and 10 is the default of the server. -/
def srsListStreams (s : ServerState) (answers : Bool) : List Name :=
  if answers then (s.known.take 10).map fun k => k.stream.name else []

/-- The result of `check_room_can_delete`. -/
structure Check where
  canDelete : Bool
  reasons : List String
  detail : ActiveStreams

/-- The test on the name of a published stream. -/
def looksPublished (room name : Name) : Bool :=
  (roomPrefix room).isPrefixOf name || translationPrefix.isPrefixOf name

/-- `check_room_can_delete(room_id)` -/
def checkRoomCanDelete (s : ServerState) (answers : Bool) (room : Name) : Check :=
  let active := s.getRoomActiveStreams room
  let published := (s.srsListStreams answers).filter (looksPublished room)
  let detail := { active with hasPublish := published ≠ [], publishStreams := published }
  let reasons :=
    (if detail.hasPublish then ["房间内存在推流"] else []) ++
    (if detail.hasPlay then ["房间内存在拉流（" ++ toString detail.playCount ++ " 个播放器）"]
      else []) ++
    (if detail.hasTranslation then ["房间内存在翻译进程"] else [])
  { canDelete := reasons.length = 0, reasons := reasons, detail := detail }

/-- The check refuses if one of its three tests does. -/
theorem checkRoomCanDelete_canDelete (s : ServerState) (answers : Bool) (room : Name) :
    (s.checkRoomCanDelete answers room).canDelete = false ↔
      (∃ name ∈ s.srsListStreams answers, looksPublished room name = true) ∨
      (s.roomPlayers.get? room).getD [] ≠ [] ∨
      ∃ key ∈ s.byStream.keys, roomPrefix room <+: key := by
  have hpublish : (s.srsListStreams answers).filter (looksPublished room) ≠ [] ↔
      ∃ name ∈ s.srsListStreams answers, looksPublished room name = true := by
    simp [List.filter_eq_nil_iff]
  have htranslation : (s.byStream.entries.filter fun e =>
      (roomPrefix room).isPrefixOf e.1) ≠ [] ↔ ∃ key ∈ s.byStream.keys, roomPrefix room <+: key := by
    simp [List.filter_eq_nil_iff, Dict.keys]
  rw [← hpublish, ← htranslation]
  -- there is a reason for each test that refuses
  by_cases h1 : (s.srsListStreams answers).filter (looksPublished room) = [] <;>
    by_cases h2 : (s.roomPlayers.get? room).getD [] = [] <;>
    by_cases h3 : (s.byStream.entries.filter fun e => (roomPrefix room).isPrefixOf e.1) = [] <;>
    simp [checkRoomCanDelete, getRoomActiveStreams, h1, h2, h3]

/-! ## What is going on in a room -/

/-- Some member of the room publishes. -/
def Publishes (s : ServerState) (room : Name) : Prop :=
  ∃ k ∈ s.known, k.publishing = true ∧ ∃ user, k.stream = .member room user

/-- Some client plays a stream of the room. -/
def Plays (s : ServerState) (room : Name) : Prop := ∃ p ∈ s.playing, p.2.room = room

/-- A translation of the room runs. -/
def Translates (s : ServerState) (room : Name) : Prop :=
  ∃ p ∈ s.translationProcesses, p.2.roomId = room

def Active (s : ServerState) (room : Name) : Prop :=
  s.Publishes room ∨ s.Plays room ∨ s.Translates room

/-- The two states have the same streams, players and translations of the room. -/
structure AgreeOn (room : Name) (s t : ServerState) : Prop where
  published : ∀ x : Stream, x.room = room →
    ((∃ k ∈ s.known, k.publishing = true ∧ k.stream = x) ↔
      ∃ k ∈ t.known, k.publishing = true ∧ k.stream = x)
  playing : ∀ p : Name × Stream, p.2.room = room → (p ∈ s.playing ↔ p ∈ t.playing)
  translations : ∀ p : ℕ × Request, p.2.roomId = room →
    (p ∈ s.translationProcesses ↔ p ∈ t.translationProcesses)

variable {s : ServerState}

theorem AgreeOn.active_iff {room : Name} {t : ServerState} (h : AgreeOn room s t) :
    s.Active room ↔ t.Active room := by
  have hpublishes : s.Publishes room ↔ t.Publishes room := by
    constructor
    · rintro ⟨k, hk, hpub, user, hstream⟩
      obtain ⟨k', hk', hpub', hstream'⟩ :=
        (h.published (.member room user) rfl).mp ⟨k, hk, hpub, hstream⟩
      exact ⟨k', hk', hpub', user, hstream'⟩
    · rintro ⟨k, hk, hpub, user, hstream⟩
      obtain ⟨k', hk', hpub', hstream'⟩ :=
        (h.published (.member room user) rfl).mpr ⟨k, hk, hpub, hstream⟩
      exact ⟨k', hk', hpub', user, hstream'⟩
  have hplays : s.Plays room ↔ t.Plays room := by
    refine exists_congr fun p => ?_
    exact ⟨fun hp => ⟨(h.playing p hp.2).mp hp.1, hp.2⟩,
      fun hp => ⟨(h.playing p hp.2).mpr hp.1, hp.2⟩⟩
  have htranslates : s.Translates room ↔ t.Translates room := by
    refine exists_congr fun p => ?_
    exact ⟨fun hp => ⟨(h.translations p hp.2).mp hp.1, hp.2⟩,
      fun hp => ⟨(h.translations p hp.2).mpr hp.1, hp.2⟩⟩
  unfold Active
  rw [hpublishes, hplays, htranslates]

/-! ## What the check takes for it -/

/-- What the SRS server lists. -/
def listed (s : ServerState) (answers : Bool) : List Known :=
  if answers then s.known.take 10 else []

/-- `room_players` has the client for the room. -/
def Counted (s : ServerState) (room clientId : Name) : Prop :=
  clientId ∈ (s.roomPlayers.get? room).getD []

/-- `translation_processes_by_stream` has the key of the request. -/
def Tracked (s : ServerState) (req : Request) : Prop := req.key ∈ s.byStream.keys

/-- The room is in the tables: a member's stream is listed, a player of one of its streams is
counted for it, or one of its translations is tracked. -/
def Visible (s : ServerState) (answers : Bool) (room : Name) : Prop :=
  (∃ k ∈ s.listed answers, k.publishing = true ∧ ∃ user, k.stream = .member room user) ∨
  (∃ p ∈ s.playing, p.2.room = room ∧ s.Counted room p.1) ∨
  ∃ p ∈ s.translationProcesses, p.2.roomId = room ∧ s.Tracked p.2

/-- Something else is taken for the room: any translation that is listed, or a stream, a player or
a translation of a room with a name that fits. -/
def LookAlike (s : ServerState) (answers : Bool) (room : Name) : Prop :=
  (∃ k ∈ s.listed answers, ¬(k.publishing = true ∧ ∃ user, k.stream = .member room user) ∧
    looksPublished room k.stream.name = true) ∨
  (∃ p ∈ s.playing, p.2.room ≠ room ∧ s.Counted room p.1) ∨
  ∃ p ∈ s.translationProcesses, p.2.roomId ≠ room ∧ roomPrefix room <+: p.2.key ∧ s.Tracked p.2

/-- The condition: what goes on in the room is visible or made up for by something else, and when
nothing goes on nothing else is taken for it. -/
def Told (s : ServerState) (answers : Bool) (room : Name) : Prop :=
  (s.Active room → s.Visible answers room ∨ s.LookAlike answers room) ∧
    (s.LookAlike answers room → s.Active room)

theorem Visible.active {answers : Bool} {room : Name}
    (h : s.Visible answers room) : s.Active room := by
  rcases h with ⟨k, hk, hpub⟩ | ⟨p, hp, hroom, -⟩ | ⟨p, hp, hroom, -⟩
  · refine .inl ⟨k, ?_, hpub⟩
    unfold listed at hk
    split at hk
    · exact List.mem_of_mem_take hk
    · cases hk
  · exact .inr (.inl ⟨p, hp, hroom⟩)
  · exact .inr (.inr ⟨p, hp, hroom⟩)

/-! ## Runs -/

inductive Action
  | srs (known : List Known)
  | play (clientId : Name) (stream : Stream)
  | stop (clientId : Name) (stream : Stream)
  | unpublish (clientId : Name) (stream : Stream)
  | startTranslation (pid : ℕ) (req : Request)
  | stopTranslation (requestId : Name)
  | deleteRoom (room : Name)

/-- One event. The SRS server gives every connection an id of its own, and the system every
process. The streams of the SRS server change as they like. -/
def step (s : ServerState) : Action → Option ServerState
  | .srs known => some { s with known := known }
  | .play clientId stream =>
    if clientId ≠ [] ∧ clientId ∉ s.playing.map Prod.fst then
      some ({ s with playing := s.playing ++ [(clientId, stream)] }.onPlay clientId [] stream.name)
    else none
  | .stop clientId stream =>
    if (clientId, stream) ∈ s.playing then
      some ({ s with playing := s.playing.filter (· ≠ (clientId, stream)) }.onStop clientId
        stream.name)
    else none
  | .unpublish clientId stream =>
    if clientId ∉ s.playing.map Prod.fst then some (s.onStop clientId stream.name) else none
  | .startTranslation pid req =>
    if pid ∉ s.translationProcesses.map Prod.fst then some (s.startTranslationService pid req)
    else none
  | .stopTranslation requestId => some (s.stopTranslationService requestId)
  | .deleteRoom room => some (s.popRoomPlayers room)

/-- What the tables have is so: a client that is counted plays a stream from whose name the room
is read, and a key that is tracked is that of a translation that runs. -/
structure Inv (s : ServerState) : Prop where
  clients : ∀ rid clients, s.roomPlayers.get? rid = some clients →
    rid ≠ [] ∧ clients ≠ [] ∧
      ∀ c ∈ clients, ∃ x, (c, x) ∈ s.playing ∧ extractRoomIdFromStream x.name = rid
  once : (s.playing.map Prod.fst).Nodup
  named : ∀ p ∈ s.playing, p.1 ≠ []
  tracked : ∀ key rid, s.byStream.get? key = some rid →
    ∃ p ∈ s.translationProcesses, p.2.requestId = rid ∧ p.2.key = key

theorem Inv.init : Inv init := by
  refine ⟨?_, List.nodup_nil, ?_, ?_⟩ <;> simp [ServerState.init, Dict.get?, Dict.empty, Dict.lookup]

theorem Inv.play {stream : Stream} (hs : Inv s)
    (hid : clientId ≠ []) (hc : clientId ∉ s.playing.map Prod.fst) :
    Inv ({ s with playing := s.playing ++ [(clientId, stream)] }.onPlay clientId [] stream.name) := by
  refine ⟨?_, ?_, ?_, hs.tracked⟩
  · intro rid clients hentry
    cases of_get?_addPlayer hid hentry with
    | inl hold =>
      obtain ⟨hrid, hne, hall⟩ := hs.clients rid clients hold
      refine ⟨hrid, hne, fun c hmem => ?_⟩
      obtain ⟨x, hx, hxrid⟩ := hall c hmem
      exact ⟨x, List.mem_append_left _ hx, hxrid⟩
    | inr hnew =>
      obtain ⟨rfl, hrid, hne, hall⟩ := hnew
      refine ⟨hrid, hne, fun c hmem => ?_⟩
      rcases hall c hmem with rfl | ⟨old, hget, hin⟩
      · exact ⟨stream, List.mem_append_right _ (List.mem_singleton_self _), rfl⟩
      · obtain ⟨x, hx, hxrid⟩ := (hs.clients _ old hget).2.2 c hin
        exact ⟨x, List.mem_append_left _ hx, hxrid⟩
  · show ((s.playing ++ [_]).map _).Nodup
    rw [List.map_append]
    refine hs.once.append (List.nodup_singleton _) ?_
    rw [List.map_singleton, List.disjoint_singleton]
    exact hc
  · intro p hp
    cases List.mem_append.mp hp with
    | inl hold => exact hs.named p hold
    | inr hnew =>
      rw [List.mem_singleton.mp hnew]
      exact hid

/-- The client that stops is the one that is discarded: it plays one stream, and so it is counted
for one room. -/
theorem Inv.stop {stream : Stream} (hs : Inv s) (hmem : (clientId, stream) ∈ s.playing) :
    Inv ({ s with playing := s.playing.filter (· ≠ (clientId, stream)) }.onStop clientId
      stream.name) := by
  refine ⟨?_, hs.once.sublist (List.filter_sublist.map _), ?_, hs.tracked⟩
  · intro rid clients hentry
    obtain ⟨⟨old, hget, hsub, hne⟩, hgone⟩ := of_get?_dropPlayer (hs.named _ hmem) hentry
    obtain ⟨hrid, hold, hall⟩ := hs.clients rid old hget
    refine ⟨hrid, hne hold, fun c hc => ?_⟩
    obtain ⟨x, hx, hxrid⟩ := hall c (hsub c hc)
    refine ⟨x, List.mem_filter.mpr ⟨hx, decide_eq_true ?_⟩, hxrid⟩
    intro heq
    obtain ⟨rfl, rfl⟩ := Prod.mk.inj heq
    exact hgone hrid hxrid.symm hc
  · intro p hp
    exact hs.named p (List.mem_filter.mp hp).1

/-- Discarding a client leaves those that were counted before. -/
theorem Inv.unpublish (hs : Inv s) (clientId : Name) (stream : Stream) :
    Inv (s.onStop clientId stream.name) := by
  by_cases hid : clientId = []
  · have hsame : s.onStop clientId stream.name = s := by simp [onStop, dropPlayer, hid]
    rw [hsame]
    exact hs
  refine ⟨?_, hs.once, hs.named, hs.tracked⟩
  intro rid clients hentry
  obtain ⟨⟨old, hget, hsub, hne⟩, -⟩ := of_get?_dropPlayer hid hentry
  obtain ⟨hrid, hold, hall⟩ := hs.clients rid old hget
  exact ⟨hrid, hne hold, fun c hc => hall c (hsub c hc)⟩

/-- The key of a translation that starts is its own; another one with that key is forgotten. -/
theorem Inv.startTranslation (hs : Inv s) (pid : ℕ) (req : Request) :
    Inv (s.startTranslationService pid req) := by
  refine ⟨hs.clients, hs.once, hs.named, ?_⟩
  intro key rid h
  simp only [startTranslationService, Dict.get?_set] at h
  split at h
  · next hkey =>
    exact ⟨(pid, req), List.mem_append_right _ (List.mem_singleton_self _), Option.some.inj h, hkey⟩
  · obtain ⟨p, hp, hrest⟩ := hs.tracked key rid h
    exact ⟨p, List.mem_append_left _ hp, hrest⟩

theorem Inv.stopTranslation (hs : Inv s) (requestId : Name) :
    Inv (s.stopTranslationService requestId) := by
  refine ⟨hs.clients, hs.once, hs.named, ?_⟩
  intro key rid h
  simp only [stopTranslationService, Dict.get?_filter] at h
  obtain ⟨hget, hrid⟩ := Option.filter_eq_some_iff.mp h
  obtain ⟨p, hp, hid, hkey⟩ := hs.tracked key rid hget
  refine ⟨p, List.mem_filter.mpr ⟨hp, ?_⟩, hid, hkey⟩
  rw [hid]
  exact hrid

theorem Inv.deleteRoom (hs : Inv s) (room : Name) : Inv (s.popRoomPlayers room) := by
  refine ⟨?_, hs.once, hs.named, hs.tracked⟩
  intro rid clients h
  simp only [popRoomPlayers, Dict.get?_erase] at h
  split at h
  · cases h
  · exact hs.clients rid clients h

theorem Inv.step {t : ServerState} {a : Action} (hs : Inv s) (h : step s a = some t) : Inv t := by
  cases a with
  | srs known =>
    cases h
    exact ⟨hs.clients, hs.once, hs.named, hs.tracked⟩
  | play clientId stream =>
    obtain ⟨hplay, h⟩ := Option.ite_none_right_eq_some.mp h
    cases h
    exact hs.play hplay.1 hplay.2
  | stop clientId stream =>
    obtain ⟨hmem, h⟩ := Option.ite_none_right_eq_some.mp h
    cases h
    exact hs.stop hmem
  | unpublish clientId stream =>
    obtain ⟨-, h⟩ := Option.ite_none_right_eq_some.mp h
    cases h
    exact hs.unpublish clientId stream
  | startTranslation pid req =>
    obtain ⟨-, h⟩ := Option.ite_none_right_eq_some.mp h
    cases h
    exact hs.startTranslation pid req
  | stopTranslation requestId =>
    cases h
    exact hs.stopTranslation requestId
  | deleteRoom room =>
    cases h
    exact hs.deleteRoom room

/-- What is reached from a server that has just started. -/
def Reached (s : ServerState) : Prop := System.Reaches step System.anyStep init s

theorem Reached.inv (h : Reached s) : Inv s :=
  System.Reaches.invariant (fun _ _ _ hs _ ha => hs.step ha) h Inv.init

/-! ## The verdict -/

/-- The check refuses on what is visible of the room and on what is taken for it. -/
theorem Inv.refuses_iff (hs : Inv s) (answers : Bool) (room : Name) :
    (s.checkRoomCanDelete answers room).canDelete = false ↔
      s.Visible answers room ∨ s.LookAlike answers room := by
  have hnames : s.srsListStreams answers = (s.listed answers).map fun k => k.stream.name := by
    unfold srsListStreams listed
    split <;> rfl
  have hpublish : (∃ name ∈ s.srsListStreams answers, looksPublished room name = true) ↔
      (∃ k ∈ s.listed answers, k.publishing = true ∧ ∃ user, k.stream = .member room user) ∨
      ∃ k ∈ s.listed answers, ¬(k.publishing = true ∧ ∃ user, k.stream = .member room user) ∧
        looksPublished room k.stream.name = true := by
    rw [hnames]
    constructor
    · rintro ⟨name, hname, hlooks⟩
      obtain ⟨k, hk, rfl⟩ := List.mem_map.mp hname
      by_cases hmember : k.publishing = true ∧ ∃ user, k.stream = .member room user
      · exact .inl ⟨k, hk, hmember⟩
      · exact .inr ⟨k, hk, hmember, hlooks⟩
    · rintro (⟨k, hk, -, user, hstream⟩ | ⟨k, hk, -, hlooks⟩)
      · refine ⟨_, List.mem_map_of_mem hk, ?_⟩
        rw [hstream]
        simp [looksPublished, Stream.name]
      · exact ⟨_, List.mem_map_of_mem hk, hlooks⟩
  have hplay : (s.roomPlayers.get? room).getD [] ≠ [] ↔
      (∃ p ∈ s.playing, p.2.room = room ∧ s.Counted room p.1) ∨
      ∃ p ∈ s.playing, p.2.room ≠ room ∧ s.Counted room p.1 := by
    constructor
    · intro hne
      cases hget : s.roomPlayers.get? room with
      | none => exact absurd (by rw [hget]; rfl) hne
      | some clients =>
        rw [hget] at hne
        obtain ⟨c, hc⟩ := List.exists_mem_of_ne_nil clients hne
        obtain ⟨x, hx, -⟩ := (hs.clients room clients hget).2.2 c hc
        have hcounted : s.Counted room c := by
          unfold Counted
          rw [hget]
          exact hc
        by_cases hroom : x.room = room
        · exact .inl ⟨(c, x), hx, hroom, hcounted⟩
        · exact .inr ⟨(c, x), hx, hroom, hcounted⟩
    · rintro (⟨p, -, -, hcounted⟩ | ⟨p, -, -, hcounted⟩) <;> exact List.ne_nil_of_mem hcounted
  have htranslation : (∃ key ∈ s.byStream.keys, roomPrefix room <+: key) ↔
      (∃ p ∈ s.translationProcesses, p.2.roomId = room ∧ s.Tracked p.2) ∨
      ∃ p ∈ s.translationProcesses, p.2.roomId ≠ room ∧ roomPrefix room <+: p.2.key ∧
        s.Tracked p.2 := by
    constructor
    · rintro ⟨key, hkey, hstart⟩
      obtain ⟨rid, hget⟩ := (Dict.mem_keys_iff _ _).mp hkey
      obtain ⟨p, hp, -, rfl⟩ := hs.tracked key rid hget
      by_cases hroom : p.2.roomId = room
      · exact .inl ⟨p, hp, hroom, hkey⟩
      · exact .inr ⟨p, hp, hroom, hstart, hkey⟩
    · rintro (⟨p, -, rfl, htracked⟩ | ⟨p, -, -, hstart, htracked⟩)
      · exact ⟨p.2.key, htracked, List.prefix_append _ _⟩
      · exact ⟨p.2.key, htracked, hstart⟩
  rw [checkRoomCanDelete_canDelete, hpublish, hplay, htranslation]
  exact (or_congr_right or_or_or_comm).trans or_or_or_comm

/-- The check refuses exactly when something goes on in the room if and only if the names tell the
truth about it; and of two states that agree on the room it says the same if and only if they tell
the truth about both or about neither. -/
theorem can_delete_iff {s : ServerState} (hs : Reached s) (answers : Bool) (room : Name) :
    (((s.checkRoomCanDelete answers room).canDelete = false ↔ s.Active room) ↔
      s.Told answers room) ∧
    ∀ t answers', Reached t → AgreeOn room s t →
      ((s.checkRoomCanDelete answers room).canDelete =
          (t.checkRoomCanDelete answers' room).canDelete ↔
        (s.Told answers room ↔ t.Told answers' room)) := by
  have htold : ∀ u b, Reached u → (((u.checkRoomCanDelete b room).canDelete = false ↔
      u.Active room) ↔ u.Told b room) := by
    intro u b hu
    have hvisible : u.Visible b room → u.Active room := Visible.active
    rw [hu.inv.refuses_iff b room]
    constructor
    · intro hiff
      exact ⟨hiff.mpr, fun hlook => hiff.mp (.inr hlook)⟩
    · rintro ⟨hseen, hlook⟩
      exact ⟨fun h => h.elim hvisible hlook, hseen⟩
  refine ⟨htold s answers hs, fun t answers' ht hagree => ?_⟩
  rw [← htold s answers hs, ← htold t answers' ht, hagree.active_iff]
  cases (s.checkRoomCanDelete answers room).canDelete <;>
    cases (t.checkRoomCanDelete answers' room).canDelete <;>
    by_cases hactive : t.Active room <;> simp [hactive]

/-- The names tell the truth about a room that a member of it plays in, and so the check refuses
it, whatever goes on in the rooms that the states do not agree on. -/
theorem can_delete_playing : ∃ s, Reached s ∧ s.Told true "room1".toList ∧
    ∀ t, Reached t → AgreeOn "room1".toList s t → t.Told true "room1".toList →
      (t.checkRoomCanDelete true "room1".toList).canDelete = false := by
  obtain ⟨s, hs, -, hobs⟩ := System.reaches_of_observe step System.anyStep init
    [.play "c1".toList (.member "room1".toList "alice".toList)]
    (fun s => (s.playing, (s.checkRoomCanDelete true "room1".toList).canDelete))
    (b := ([("c1".toList, .member "room1".toList "alice".toList)], false)) rfl
  obtain ⟨hplaying, hrefused⟩ := Prod.mk.inj hobs
  have hactive : s.Active "room1".toList :=
    .inr (.inl ⟨_, hplaying ▸ List.mem_singleton_self _, rfl⟩)
  have htold := (can_delete_iff hs true "room1".toList).1.mp (iff_of_true hrefused hactive)
  refine ⟨s, hs, htold, fun t ht hagree htold' => ?_⟩
  rw [← ((can_delete_iff hs true "room1".toList).2 t true ht hagree).mpr (iff_of_true htold htold')]
  exact hrefused

/-- A translation of another room that is published makes the check refuse this one, in which
nothing goes on. And nobody who plays a stream of a room with a name like `lobby` is counted. -/
theorem deletion_of_other_rooms :
    (∃ s t, Reached s ∧ Reached t ∧ AgreeOn "room1".toList s t ∧
      (s.checkRoomCanDelete true "room1".toList).canDelete = true ∧
      (t.checkRoomCanDelete true "room1".toList).canDelete = false) ∧
    ∃ s, Reached s ∧ s.Plays "lobby".toList ∧
      (s.checkRoomCanDelete true "lobby".toList).canDelete = true := by
  constructor
  · have hother : ∀ x : Stream, x.room = "room1".toList → ¬ ∃ k ∈
        [(⟨.translation "room2".toList "bob".toList "en".toList, true⟩ : Known)],
        k.publishing = true ∧ k.stream = x := by
      rintro x hx ⟨k, hk, -, rfl⟩
      rw [List.mem_singleton.mp hk] at hx
      revert hx
      decide
    refine ⟨init, { init with
        known := [⟨.translation "room2".toList "bob".toList "en".toList, true⟩] },
      Relation.ReflTransGen.refl, Relation.ReflTransGen.single ⟨.srs _, trivial, rfl⟩, ?_, rfl, rfl⟩
    refine ⟨fun x hx => iff_of_false ?_ (hother x hx), fun _ _ => Iff.rfl, fun _ _ => Iff.rfl⟩
    simp [init]
  · obtain ⟨s, hs, -, hobs⟩ := System.reaches_of_observe step System.anyStep init
      [.play "c1".toList (.member "lobby".toList "alice".toList)]
      (fun s => (s.playing, (s.checkRoomCanDelete true "lobby".toList).canDelete))
      (b := ([("c1".toList, .member "lobby".toList "alice".toList)], true)) rfl
    obtain ⟨hplaying, hallowed⟩ := Prod.mk.inj hobs
    exact ⟨s, hs, ⟨_, hplaying ▸ List.mem_singleton_self _, rfl⟩, hallowed⟩

end ServerState

end SrsChatRoom.Server.RoomDeletion
