import SrsChatRoom.Server.RoomDeletion
import SrsChatRoom.Server.TranslationManager
import SrsChatRoom.Server.UserManager

/-!
# What a stream name says (`{room_id}_{user_id}`)

Three functions take a stream name apart. `_extract_room_id_from_stream` cuts at the last underscore,
the other two at the first one behind `room`. The id of a user has an underscore of its own, and a
room id may have some, so neither is the underscore that was put between them in general.
-/

namespace SrsChatRoom.Server.StreamNames

open RoomDeletion (Name rfind roomWord translationPrefix extractRoomIdFromStream)
open Rooms (User UserManager getMember)
open Translation (TranslationManager TranslationRequest Place)

/-! ## Code -/

/-- `s.find(word)` -/
def find (word : Name) : Name → Option ℕ
  | [] => if word = [] then some 0 else none
  | x :: l => if word.isPrefixOf (x :: l) then some 0 else (find word l).map (· + 1)

/-- `s.find(word, start)` -/
def findFrom (word : Name) (start : ℕ) (s : Name) : Option ℕ :=
  (find word (s.drop start)).map (· + start)

/-- How `get_user_by_stream` and `get_request_by_stream` take a name apart. -/
def splitStream (streamName : Name) : Option (Name × Name) :=
  (find roomWord streamName).bind fun roomPrefixPos =>
    (findFrom ['_'] (roomPrefixPos + 4) streamName).map fun underscorePos =>
      (streamName.take underscorePos, streamName.drop (underscorePos + 1))

/-- `get_user_by_stream` -/
def getUserByStream (m : UserManager) (streamName : String) : Option User :=
  match splitStream streamName.toList with
  | none => none
  | some (roomId, userId) =>
    if roomId = [] ∨ userId = [] then none
    else getMember (String.ofList userId) (m.room (String.ofList roomId))

/-- `get_request_by_stream`: the loop over the languages is that of `get_request_by_source` without
a language. -/
def getRequestByStream (m : TranslationManager) (roomId streamName : String) :
    Option TranslationRequest :=
  match splitStream streamName.toList with
  | none => none
  | some (parsedRoomId, sourceUser) =>
    if String.ofList parsedRoomId ≠ roomId then none
    else (m.getRequestBySource roomId (String.ofList sourceUser) "").map Prod.snd

/-- `room_id + "_" + user_id` -/
def streamName (roomId userId : String) : String := roomId ++ "_" ++ userId

/-! ## What is expected of it -/

/-- The user ids that are issued: `"user_" + uuid.uuid4().hex[:12]`. -/
structure IssuedId where
  hex : List Char
  length : hex.length = 12
  digits : ∀ c ∈ hex, c ∈ "0123456789abcdef".toList

def IssuedId.userId (user : IssuedId) : String := "user_" ++ String.ofList user.hex

/-- A member of the room is found by the name of its stream. -/
def FindsMember (roomId userId : String) : Prop :=
  ∀ m : UserManager, ∀ user, getMember userId (m.room roomId) = some user →
    getUserByStream m (streamName roomId userId) = some user

/-- An active request for the user in the room, in some language. -/
def ActiveAt (m : TranslationManager) (roomId userId : String) (request : TranslationRequest) :
    Prop :=
  ∃ toLang, m.existing ⟨roomId, userId, toLang⟩ = some request ∧ request.status = .active

/-- If the user has an active request, one is found by the name of its stream. -/
def FindsRequest (roomId userId : String) : Prop :=
  ∀ m : TranslationManager, (∃ request, ActiveAt m roomId userId request) →
    ∃ request, getRequestByStream m roomId (streamName roomId userId) = some request ∧
      ActiveAt m roomId userId request

/-- The three functions agree with the room and the user the name was made of. -/
structure DecodersAgree (roomId userId : String) : Prop where
  room : extractRoomIdFromStream (streamName roomId userId).toList = roomId.toList
  member : FindsMember roomId userId
  request : FindsRequest roomId userId

/-! ## Taking a name apart -/

theorem find_underscore {pre : Name} (hpre : '_' ∉ pre) (post : Name) :
    find ['_'] (pre ++ '_' :: post) = some pre.length := by
  induction pre with
  | nil => simp [find]
  | cons x pre ih =>
    have hx : x ≠ '_' := fun heq => hpre (by simp [heq])
    have hrest : '_' ∉ pre := fun hmem => hpre (List.mem_cons_of_mem x hmem)
    rw [List.cons_append, find, if_neg (by simpa using hx.symm), ih hrest]
    rfl

/-- A name that starts with `room` is cut at the first underscore behind that. -/
theorem splitStream_eq {pre : Name} (hpre : '_' ∉ pre) (post : Name) :
    splitStream (roomWord ++ pre ++ '_' :: post) = some (roomWord ++ pre, post) := by
  have hroom : find roomWord (roomWord ++ pre ++ '_' :: post) = some 0 := by
    simp [roomWord, find]
  have hdrop : (roomWord ++ pre ++ '_' :: post).drop (0 + 4) = pre ++ '_' :: post := by
    simp [roomWord]
  have hlength : (roomWord ++ pre).length = pre.length + (0 + 4) := by
    simp [roomWord]
  rw [splitStream, hroom, Option.bind_some, findFrom, hdrop, find_underscore hpre, Option.map_some,
    Option.map_some, ← hlength, List.take_left, ← List.drop_drop, List.drop_left]
  rfl

theorem toList_streamName (rest : String) (userId : String) :
    (streamName ("room" ++ rest) userId).toList
      = roomWord ++ rest.toList ++ '_' :: userId.toList := by
  simp [streamName, roomWord]

/-- Without an underscore in the room id the two parts are found. -/
theorem splitStream_streamName {rest : String} (hrest : '_' ∉ rest.toList) (userId : String) :
    splitStream (streamName ("room" ++ rest) userId).toList
      = some (("room" ++ rest).toList, userId.toList) := by
  rw [toList_streamName, splitStream_eq hrest]
  simp [roomWord]

/-- With an underscore in the room id another room is found. -/
theorem splitStream_of_mem {rest : String} (hrest : '_' ∈ rest.toList) (userId : String) :
    ∃ roomId userId', splitStream (streamName ("room" ++ rest) userId).toList
      = some (roomId, userId') ∧ String.ofList roomId ≠ "room" ++ rest := by
  obtain ⟨pre, post, heq, hpre⟩ := List.eq_append_cons_of_mem hrest
  refine ⟨roomWord ++ pre, post ++ '_' :: userId.toList, ?_, ?_⟩
  · have hname : roomWord ++ rest.toList ++ '_' :: userId.toList
        = roomWord ++ pre ++ '_' :: (post ++ '_' :: userId.toList) := by
      rw [heq]
      simp
    rw [toList_streamName, hname, splitStream_eq hpre]
  · intro hsame
    have hlength := congrArg (fun s => s.toList.length) hsame
    simp [roomWord, heq] at hlength

/-! ## The three functions -/

theorem IssuedId.not_mem_hex (user : IssuedId) : '_' ∉ user.hex := by
  intro hmem
  exact absurd (user.digits '_' hmem) (by decide)

/-- The room id that is read has the beginning of the user id in it. -/
theorem extract_streamName (rest : String) (user : IssuedId) :
    extractRoomIdFromStream (streamName ("room" ++ rest) user.userId).toList
      = ("room" ++ rest ++ "_user").toList := by
  have hroom : ("room" ++ rest ++ "_user").toList = roomWord ++ (rest.toList ++ "_user".toList) := by
    simp [roomWord]
  rw [RoomDeletion.extract_eq_iff (by rw [hroom]; simp [roomWord])]
  refine ⟨⟨rest.toList ++ "_user".toList, hroom.symm⟩, user.hex, user.not_mem_hex, ?_⟩
  rw [toList_streamName, hroom]
  simp [IssuedId.userId]

theorem IssuedId.userId_ne (user : IssuedId) : user.userId.toList ≠ [] := by
  simp [IssuedId.userId]

/-- A room that has nobody but the user in it. -/
def onlyMember (roomId userId : String) : UserManager :=
  ⟨Dict.empty.set roomId
    ((Rooms.Room.new "" roomId "" "").setMember userId (User.new "" roomId userId .member))⟩

theorem findsMember_iff (rest : String) (user : IssuedId) :
    FindsMember ("room" ++ rest) user.userId ↔ '_' ∉ rest.toList := by
  constructor
  · intro hfinds hmem
    obtain ⟨roomId, userId, hsplit, hother⟩ := splitStream_of_mem hmem user.userId
    have hfound := hfinds (onlyMember ("room" ++ rest) user.userId) _
      (by simp [onlyMember, UserManager.room, getMember, Rooms.Room.setMember]; rfl)
    rw [getUserByStream, hsplit] at hfound
    -- there is no other room
    have hnone : (onlyMember ("room" ++ rest) user.userId).room (String.ofList roomId) = none := by
      simp [onlyMember, UserManager.room, Dict.get?_set_ne _ hother.symm]
    simp [hnone, getMember] at hfound
  · intro hnot m member hmember
    rw [getUserByStream, splitStream_streamName hnot]
    simp only [String.ofList_toList]
    rw [if_neg, hmember]
    rintro (hempty | hempty)
    · simp at hempty
    · exact user.userId_ne hempty

/-- Without a language, `get_request_by_source` finds an active request if there is one. -/
theorem getRequestBySource_spec {m : TranslationManager} {roomId userId : String}
    (h : ∃ request, ActiveAt m roomId userId request) :
    ∃ found, m.getRequestBySource roomId userId "" = some found ∧
      ActiveAt m roomId userId found.2 := by
  obtain ⟨request, toLang, hexisting, hactive⟩ := h
  obtain ⟨ref, hat, hheap⟩ := Option.bind_eq_some_iff.mp hexisting
  rw [TranslationManager.at?, NestedDict.at?_eq_row] at hat
  obtain ⟨langs, hrow, hlang⟩ := Option.bind_eq_some_iff.mp hat
  unfold TranslationManager.getRequestBySource
  rw [if_neg (by simp), hrow, Option.bind_some]
  cases hfind : List.find? (fun found : ℕ × TranslationRequest => decide (found.2.status = .active))
      (langs.entries.filterMap fun e => (m.heap[e.2]?).map fun request => (e.2, request)) with
  | none =>
    have hmem : (ref, request) ∈ langs.entries.filterMap fun e =>
        (m.heap[e.2]?).map fun request => (e.2, request) := by
      refine List.mem_filterMap.mpr ⟨(toLang, ref), (langs.mem_entries_iff _ _).mpr hlang, ?_⟩
      rw [hheap]
      rfl
    exact absurd (decide_eq_true hactive) (List.find?_eq_none.mp hfind _ hmem)
  | some found =>
    refine ⟨found, rfl, ?_⟩
    obtain ⟨e, he, hfound⟩ := List.mem_filterMap.mp (List.mem_of_find?_eq_some hfind)
    obtain ⟨request', hheap', rfl⟩ := Option.map_eq_some_iff.mp hfound
    refine ⟨e.1, ?_, by simpa using List.find?_some hfind⟩
    have hlang' : langs.get? e.1 = some e.2 := (langs.mem_entries_iff _ _).mp he
    rw [TranslationManager.existing, TranslationManager.at?, NestedDict.at?_eq_row, hrow,
      Option.bind_some, hlang', Option.bind_some]
    exact hheap'

/-- A manager with one request. -/
def onlyRequest (roomId userId : String) : TranslationManager :=
  (TranslationManager.startTranslation "0" roomId userId "" "en" "" "" 0 .init).2

theorem activeAt_onlyRequest (roomId userId : String) :
    ∃ request, ActiveAt (onlyRequest roomId userId) roomId userId request := by
  have hnew : ∀ p, (TranslationManager.init.existing p).map TranslationRequest.status
      ≠ some .active := by
    intro p
    simp [TranslationManager.existing, TranslationManager.at?, TranslationManager.init]
  have hexisting : ∃ request, (onlyRequest roomId userId).existing ⟨roomId, userId, "en"⟩
      = some request ∧ request.status = .active := by
    unfold onlyRequest TranslationManager.startTranslation TranslationManager.addRequest
    dsimp only
    rw [if_neg (hnew _)]
    unfold TranslationManager.existing TranslationManager.at?
    rw [NestedDict.at?_put, if_pos ⟨rfl, rfl, rfl⟩]
    exact ⟨_, rfl, rfl⟩
  obtain ⟨request, hat, hactive⟩ := hexisting
  exact ⟨request, "en", hat, hactive⟩

theorem findsRequest_iff (rest : String) (user : IssuedId) :
    FindsRequest ("room" ++ rest) user.userId ↔ '_' ∉ rest.toList := by
  constructor
  · intro hfinds hmem
    obtain ⟨roomId, userId, hsplit, hother⟩ := splitStream_of_mem hmem user.userId
    obtain ⟨request, hfound, -⟩ := hfinds
      (onlyRequest ("room" ++ rest) user.userId) (activeAt_onlyRequest _ _)
    rw [getRequestByStream, hsplit] at hfound
    simp [hother] at hfound
  · intro hnot m hactive
    obtain ⟨found, hfound, hat⟩ := getRequestBySource_spec hactive
    refine ⟨found.2, ?_, hat⟩
    rw [getRequestByStream, splitStream_streamName hnot]
    simp only [String.ofList_toList]
    rw [if_neg (by simp), hfound]
    rfl

/-- For no room and no issued user id do the three functions agree with the name: the first always
reads another room, and the other two are right exactly for the room ids without an underscore. -/
theorem decoders_of_issued (rest : String) (user : IssuedId) :
    ¬ DecodersAgree ("room" ++ rest) user.userId ∧
      extractRoomIdFromStream (streamName ("room" ++ rest) user.userId).toList
        = ("room" ++ rest ++ "_user").toList ∧
      (FindsMember ("room" ++ rest) user.userId ↔ '_' ∉ rest.toList) ∧
      (FindsRequest ("room" ++ rest) user.userId ↔ '_' ∉ rest.toList) := by
  refine ⟨?_, extract_streamName rest user, findsMember_iff rest user, findsRequest_iff rest user⟩
  intro hagree
  have hroom := hagree.room
  rw [extract_streamName] at hroom
  have hlength := congrArg List.length hroom
  simp at hlength

/-- The name of the stream of `user_0123456789ab` in `room1` is read as that of a stream in
`room1_user`. -/
theorem read_as_other_room :
    ¬ DecodersAgree "room1" "user_0123456789ab" := by
  intro hagree
  exact absurd hagree.room (by decide +kernel)

end SrsChatRoom.Server.StreamNames
