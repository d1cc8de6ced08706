import SrsChatRoom.Kernel.Buffer
import SrsChatRoom.Lib.System

/-!
# The memory of the receive buffer (`SrsFastStream`, `srs_protocol_stream.cpp`)

`SrsFastStream` has two pointers into a piece of memory: between `p` and `end` are the bytes that
were read and not yet taken. `grow` moves them to the start of the memory when it needs room behind
them, and `set_buffer` takes a larger memory. Whatever calls come, and however the reader splits its
bytes, they are handed out in order, and the pointers stay inside the memory (`is_fifo`).
-/

namespace SrsChatRoom.Protocol.ReceiveBuffer

open SrsChatRoom.Kernel SrsChatRoom.System

/-! ## The reader -/

/-- What the reader answers: some bytes, or an error. -/
inductive Reply
  | data (bytes : List UInt8)
  | error
deriving DecidableEq, Repr

def Reply.bytes : Reply → List UInt8
  | .data bytes => bytes
  | .error => []

/-- `ISrsReader`: what it answers, one after the other. Data are not empty. -/
structure Reader where
  replies : List Reply
  nonempty : ∀ reply ∈ replies, reply ≠ .data []

namespace Reader

/-- All bytes that are to come. -/
def bytes (r : Reader) : List UInt8 := r.replies.flatMap Reply.bytes

/-- `read(buf, size, &nread)`: the bytes, as many as are asked for, or an error. -/
def read (r : Reader) (size : ℤ) : Option (List UInt8) × Reader :=
  match h : r.replies with
  | [] => (none, r)
  | .error :: rest =>
    (none, ⟨rest, fun t ht => r.nonempty t (h ▸ List.mem_cons_of_mem _ ht)⟩)
  | .data bytes :: rest =>
    have hrest : ∀ t ∈ rest, t ≠ .data [] :=
      fun t ht => r.nonempty t (h ▸ List.mem_cons_of_mem _ ht)
    if hs : bytes.length ≤ size.toNat then (some bytes, ⟨rest, hrest⟩)
    else (some (bytes.take size.toNat), ⟨.data (bytes.drop size.toNat) :: rest, by
      have hdrop : bytes.drop size.toNat ≠ [] := by simpa using hs
      simpa [hdrop] using hrest⟩)

end Reader

/-! ## The buffer -/

/-- `SrsFastStream`: the memory from `buffer` to `buffer + nb_buffer`, `p - buffer` and
`end - buffer`. -/
structure SrsFastStream where
  mem : List UInt8
  p : ℤ
  endp : ℤ
deriving DecidableEq, Repr

namespace SrsFastStream

/-- `SRS_MAX_SOCKET_BUFFER` -/
def maxSocketBuffer : ℤ := 262144

/-- `SrsFastStream(size)`, with the memory it gets. -/
def new (mem : List UInt8) : SrsFastStream := ⟨mem, 0, 0⟩

def nbBuffer (s : SrsFastStream) : ℤ := s.mem.length

/-- `size()` -/
def size (s : SrsFastStream) : ℤ := s.endp - s.p

/-- The bytes from `p` up to `end`. -/
def unread (s : SrsFastStream) : List UInt8 := (s.mem.take s.endp.toNat).drop s.p.toNat

/-- Write bytes at a place of the memory, which has room for them. -/
def store (mem : List UInt8) (place : ℤ) (data : List UInt8) : Option (List UInt8) :=
  if 0 ≤ place ∧ place + data.length ≤ mem.length then
    some (mem.take place.toNat ++ data ++ mem.drop (place.toNat + data.length))
  else none

/-- `set_buffer(buffer_size)`. What `realloc` adds has no meaning yet. -/
def setBuffer (s : SrsFastStream) (bufferSize : ℤ) : SrsFastStream :=
  let nbResizeBuf := min bufferSize maxSocketBuffer
  if nbResizeBuf ≤ s.nbBuffer then s
  else
    let start := s.p
    let nbBytes := s.endp - s.p
    { mem := s.mem ++ List.replicate (nbResizeBuf - s.nbBuffer).toNat 0
      p := start
      endp := start + nbBytes }

/-- The branch of `grow` that resets the pointers or moves the bytes to the start. -/
def makeSpace (s : SrsFastStream) : Option SrsFastStream :=
  let nbExistsBytes := s.endp - s.p
  if nbExistsBytes = 0 then some { s with p := 0, endp := 0 }
  else if nbExistsBytes < s.nbBuffer ∧ 0 < s.p then
    (store s.mem 0 s.unread).map fun mem => { mem := mem, p := 0, endp := nbExistsBytes }
  else some s

end SrsFastStream

open SrsFastStream

/-- A buffer and its reader, and the sizes that the reader was asked for. -/
structure Conn where
  stream : SrsFastStream
  reader : Reader
  asked : List ℤ

/-- The loop of `grow`. -/
def readMore (requiredSize : ℤ) : ℕ → ℤ → Prog Conn SrsError Unit
  | 0, _ => fun _ => .hang
  | fuel + 1, nbFreeSpace => fun c =>
    if requiredSize ≤ c.stream.size then .ok () c
    else
      match c.reader.read nbFreeSpace with
      | (none, reader) =>
        .err (srsErrorWrap "read bytes" (srsErrorNew .socketRead "read"))
          { c with reader := reader, asked := c.asked ++ [nbFreeSpace] }
      | (some data, reader) =>
        match store c.stream.mem c.stream.endp data with
        | none => .fault
        | some mem =>
          if data = [] then .fault
          else readMore requiredSize fuel (nbFreeSpace - data.length)
            { stream := { c.stream with mem := mem, endp := c.stream.endp + data.length }
              reader := reader
              asked := c.asked ++ [nbFreeSpace] }

/-- `grow(reader, required_size)` -/
def grow (requiredSize : ℤ) : Prog Conn SrsError Unit := fun c =>
  if requiredSize ≤ c.stream.size then .ok () c
  else if requiredSize ≤ 0 then .fault
  else
    let nbFreeSpace := c.stream.nbBuffer - c.stream.endp
    let nbExistsBytes := c.stream.endp - c.stream.p
    if nbExistsBytes < 0 then .fault
    else if nbExistsBytes + nbFreeSpace < requiredSize then
      match c.stream.makeSpace with
      | none => .fault
      | some stream =>
        let nbFreeSpace := stream.nbBuffer - stream.endp
        if nbExistsBytes + nbFreeSpace < requiredSize then
          .err (srsErrorNew .readerBufferOverflow ("overflow, required=" ++ toString requiredSize ++
            ", max=" ++ toString stream.nbBuffer ++ ", left=" ++ toString nbFreeSpace))
            { c with stream := stream }
        else readMore requiredSize (requiredSize.toNat + 1) nbFreeSpace { c with stream := stream }
    else readMore requiredSize (requiredSize.toNat + 1) nbFreeSpace c

/-- `read_slice(size)` -/
def readSlice (size : ℤ) : Prog Conn SrsError (List UInt8) := fun c =>
  if size < 0 ∨ c.stream.size < size ∨ c.stream.p + size < 0 then .fault
  else .ok ((c.stream.mem.drop c.stream.p.toNat).take size.toNat)
    { c with stream := { c.stream with p := c.stream.p + size } }

/-- `read_1byte()` -/
def read1Byte : Prog Conn SrsError UInt8 := fun c =>
  if c.stream.size < 1 then .fault
  else
    match c.stream.mem[c.stream.p.toNat]? with
    | none => .fault
    | some v => .ok v { c with stream := { c.stream with p := c.stream.p + 1 } }

/-- `skip(size)` -/
def skip (size : ℤ) : Prog Conn SrsError Unit := fun c =>
  if c.stream.size < size ∨ c.stream.p + size < 0 then .fault
  else .ok () { c with stream := { c.stream with p := c.stream.p + size } }

/-! ## Runs -/

/-- A call: a `skipBack` is a `skip` of the size below zero. -/
inductive Call
  | grow (requiredSize : ℤ)
  | read1Byte
  | readSlice (size : ℕ)
  | skipBack (size : ℕ)
  | setBuffer (bufferSize : ℤ)
deriving DecidableEq, Repr

/-- The buffer and what has happened to it: the bytes that were handed out, without those that were
given back; how many of these were read since the last `grow`; each overflow, with the size required
and the size of the buffer; for each `grow` that failed what was in the buffer before and after it;
and whether an assertion failed or an access was outside the memory. -/
structure World where
  conn : Conn
  handed : List UInt8
  justRead : ℕ
  overflows : List (ℤ × ℤ)
  failures : List (List UInt8 × List UInt8)
  crashed : Bool

def start (mem : List UInt8) (reader : Reader) : World :=
  ⟨⟨.new mem, reader, []⟩, [], 0, [], [], false⟩

def World.crash (w : World) : World := { w with crashed := true }

/-- A call. Callers take no more bytes than there are, and step back over bytes they have just read;
a call that asks for more and fails is theirs to answer for. -/
def act (w : World) : Call → Option World
  | .grow requiredSize =>
    match grow requiredSize w.conn with
    | .ok _ conn => some { w with conn := conn, justRead := 0 }
    | .err e conn => some { w with
        conn := conn
        justRead := 0
        overflows := if e.code = .readerBufferOverflow then
            w.overflows ++ [(requiredSize, w.conn.stream.nbBuffer)]
          else w.overflows
        failures := w.failures ++ [(w.conn.stream.unread, conn.stream.unread)] }
    | _ => some w.crash
  | .read1Byte =>
    match read1Byte w.conn with
    | .ok v conn =>
      some { w with conn := conn, handed := w.handed ++ [v], justRead := w.justRead + 1 }
    | _ => if 1 ≤ w.conn.stream.size then some w.crash else none
  | .readSlice size =>
    match readSlice size w.conn with
    | .ok bytes conn =>
      some { w with conn := conn, handed := w.handed ++ bytes, justRead := w.justRead + size }
    | _ => if size ≤ w.conn.stream.size then some w.crash else none
  | .skipBack size =>
    match skip (-size) w.conn with
    | .ok _ conn => some { w with
        conn := conn
        handed := w.handed.take (w.handed.length - size)
        justRead := w.justRead - size }
    | _ => if size ≤ w.justRead then some w.crash else none
  | .setBuffer bufferSize =>
    some { w with conn := { w.conn with stream := w.conn.stream.setBuffer bufferSize } }

/-- A call, unless the process has ended. -/
def step (w : World) (call : Call) : Option World := if w.crashed then none else act w call

/-- The buffer is a FIFO between the reader, whose bytes are `source`, and the caller. -/
structure Good (source : List UInt8) (w : World) : Prop where
  running : w.crashed = false
  pointers : 0 ≤ w.conn.stream.p ∧ w.conn.stream.p ≤ w.conn.stream.endp ∧
    w.conn.stream.endp ≤ w.conn.stream.nbBuffer
  fifo : w.handed ++ (w.conn.stream.unread ++ w.conn.reader.bytes) = source
  asked : ∀ size ∈ w.conn.asked, 0 < size
  overflows : ∀ e ∈ w.overflows, e.2 < e.1
  kept : ∀ f ∈ w.failures, f.1 <+: f.2

/-! ## Reading -/

/-- A `read` takes bytes off those that are to come, no more than it is asked for. -/
theorem read_spec (r : Reader) (size : ℤ) :
    ((r.read size).1 = none ∧ (r.read size).2.bytes = r.bytes) ∨
      ∃ data, (r.read size).1 = some data ∧ data.length ≤ size.toNat ∧
        data ++ (r.read size).2.bytes = r.bytes ∧ (0 < size → data ≠ []) := by
  unfold Reader.read
  split
  · exact .inl ⟨rfl, rfl⟩
  · next rest h =>
    have hall : r.bytes = rest.flatMap Reply.bytes := by
      unfold Reader.bytes
      rw [h]
      rfl
    exact .inl ⟨rfl, hall.symm⟩
  · next bytes rest h =>
    apply Or.inr
    have hne : bytes ≠ [] := by
      intro hnil
      exact r.nonempty _ (by rw [h]; exact List.mem_cons_self) (by rw [hnil])
    have hall : r.bytes = bytes ++ rest.flatMap Reply.bytes := by
      unfold Reader.bytes
      rw [h]
      rfl
    by_cases hs : bytes.length ≤ size.toNat
    · rw [dif_pos hs]
      exact ⟨bytes, rfl, hs, hall.symm, fun _ => hne⟩
    · rw [dif_neg hs]
      refine ⟨bytes.take size.toNat, rfl, List.length_take_le _ _, ?_, ?_⟩
      · show bytes.take size.toNat ++ (bytes.drop size.toNat ++ rest.flatMap Reply.bytes) = _
        rw [← List.append_assoc, List.take_append_drop, hall]
      · intro hpos hnil
        have hlength := congrArg List.length hnil
        rw [List.length_take, List.length_nil] at hlength
        omega

/-! ## The memory -/

/-- The pointers are in order and inside the memory, the bytes up to `end` and those to come are the
last ones of the source, and the bytes up to `p` are the last ones that were handed out. -/
structure Holds (source handed : List UInt8) (c : Conn) : Prop where
  pointers : 0 ≤ c.stream.p ∧ c.stream.p ≤ c.stream.endp ∧ c.stream.endp ≤ c.stream.nbBuffer
  content : ∃ before, source = before ++ (c.stream.mem.take c.stream.endp.toNat ++ c.reader.bytes) ∧
    handed = before ++ c.stream.mem.take c.stream.p.toNat

theorem take_eq_append_unread {s : SrsFastStream} (h : s.p ≤ s.endp) :
    s.mem.take s.endp.toNat = s.mem.take s.p.toNat ++ s.unread := by
  have hsplit := (List.take_append_drop s.p.toNat (s.mem.take s.endp.toNat)).symm
  rwa [List.take_take, min_eq_left (by omega)] at hsplit

variable {source handed : List UInt8}

variable {c : Conn}

theorem Holds.fifo (h : Holds source handed c) :
    handed ++ (c.stream.unread ++ c.reader.bytes) = source := by
  obtain ⟨before, hsource, hhanded⟩ := h.content
  rw [hsource, hhanded, take_eq_append_unread h.pointers.2.1, List.append_assoc,
    List.append_assoc]

theorem length_unread {s : SrsFastStream} (h : 0 ≤ s.p ∧ s.p ≤ s.endp ∧ s.endp ≤ s.nbBuffer) :
    (s.unread.length : ℤ) = s.endp - s.p := by
  unfold SrsFastStream.unread SrsFastStream.nbBuffer at *
  rw [List.length_drop, List.length_take]
  omega

/-- Bytes that come behind `end` leave those before it. -/
theorem take_store {mem data : List UInt8} {place : ℤ} (hplace : 0 ≤ place)
    (hroom : place + data.length ≤ mem.length) :
    ∃ mem', store mem place data = some mem' ∧ mem'.length = mem.length ∧
      mem'.take (place + data.length).toNat = mem.take place.toNat ++ data ∧
      ∀ n ≤ place.toNat, mem'.take n = mem.take n := by
  have hfront : (mem.take place.toNat).length = place.toNat := by
    rw [List.length_take]
    omega
  have hsize : (place + data.length).toNat = (mem.take place.toNat ++ data).length := by
    rw [List.length_append, hfront]
    omega
  refine ⟨_, if_pos ⟨hplace, hroom⟩, ?_, ?_, ?_⟩
  · rw [List.length_append, List.length_append, hfront, List.length_drop]
    omega
  · rw [hsize, List.take_left]
  · intro n hn
    rw [List.append_assoc, List.take_append_of_le_length (by rw [hfront]; exact hn),
      List.take_take, min_eq_left hn]

/-- After `makeSpace` all of the memory is taken or free. -/
theorem makeSpace_spec (h : Holds source handed c) :
    ∃ s, c.stream.makeSpace = some s ∧ Holds source handed { c with stream := s } ∧
      s.nbBuffer = c.stream.nbBuffer ∧ s.size = c.stream.size ∧
      s.size + (s.nbBuffer - s.endp) = s.nbBuffer := by
  obtain ⟨before, hsource, hhanded⟩ := h.content
  have hpointers := h.pointers
  have hunread := length_unread hpointers
  have hmem : c.stream.nbBuffer = c.stream.mem.length := rfl
  unfold makeSpace
  dsimp only
  by_cases hempty : c.stream.endp - c.stream.p = 0
  · rw [if_pos hempty]
    refine ⟨_, rfl, ⟨?_, handed, ?_, ?_⟩, rfl, ?_, ?_⟩
    · show 0 ≤ (0 : ℤ) ∧ (0 : ℤ) ≤ 0 ∧ (0 : ℤ) ≤ c.stream.nbBuffer
      omega
    · have hsame : c.stream.endp = c.stream.p := by omega
      rw [hsource, hsame, hhanded, List.append_assoc]
      rfl
    · exact (List.append_nil handed).symm
    · show (0 : ℤ) - 0 = c.stream.endp - c.stream.p
      omega
    · show (0 : ℤ) - 0 + (c.stream.nbBuffer - 0) = c.stream.nbBuffer
      omega
  · rw [if_neg hempty]
    by_cases hmove : c.stream.endp - c.stream.p < c.stream.nbBuffer ∧ 0 < c.stream.p
    · rw [if_pos hmove]
      obtain ⟨mem', hstore, hlength, htake, -⟩ :=
        @take_store c.stream.mem c.stream.unread 0 (le_refl 0)
          (by omega)
      rw [hstore]
      have hend : (0 + (c.stream.unread.length : ℤ)).toNat =
          (c.stream.endp - c.stream.p).toNat := by omega
      rw [hend] at htake
      refine ⟨_, rfl, ⟨?_, handed, ?_, ?_⟩, ?_, ?_, ?_⟩
      · show 0 ≤ (0 : ℤ) ∧ (0 : ℤ) ≤ c.stream.endp - c.stream.p ∧
          c.stream.endp - c.stream.p ≤ (mem'.length : ℤ)
        omega
      · show source = handed ++ (mem'.take (c.stream.endp - c.stream.p).toNat ++ c.reader.bytes)
        rw [htake, ← h.fifo]
        rfl
      · exact (List.append_nil handed).symm
      · show (mem'.length : ℤ) = c.stream.mem.length
        rw [hlength]
      · show c.stream.endp - c.stream.p - 0 = c.stream.endp - c.stream.p
        omega
      · show c.stream.endp - c.stream.p - 0 + ((mem'.length : ℤ) - (c.stream.endp - c.stream.p)) =
          mem'.length
        omega
    · rw [if_neg hmove]
      refine ⟨c.stream, rfl, h, rfl, rfl, ?_⟩
      show c.stream.endp - c.stream.p + (c.stream.nbBuffer - c.stream.endp) = c.stream.nbBuffer
      omega

/-! ## `grow` -/

/-- What `grow` leaves: the same bytes in a memory of the same size, and a reader that was never
asked for nothing. -/
structure Grew (source handed : List UInt8) (c c' : Conn) : Prop where
  holds : Holds source handed c'
  nbBuffer : c'.stream.nbBuffer = c.stream.nbBuffer
  fewer : c'.reader.bytes.length ≤ c.reader.bytes.length
  asked : (∀ size ∈ c.asked, 0 < size) → ∀ size ∈ c'.asked, 0 < size

/-- What was in the buffer is still there. -/
theorem Grew.kept {c' : Conn} (h : Holds source handed c)
    (hgrew : Grew source handed c c') : c.stream.unread <+: c'.stream.unread := by
  have hsame : c.stream.unread ++ c.reader.bytes = c'.stream.unread ++ c'.reader.bytes :=
    List.append_cancel_left (h.fifo.trans hgrew.holds.fifo.symm)
  have hlength := congrArg List.length hsame
  rw [List.length_append, List.length_append] at hlength
  have hfewer := hgrew.fewer
  apply List.prefix_of_prefix_length_le (List.prefix_append _ c.reader.bytes)
  · rw [hsame]
    exact List.prefix_append _ _
  · omega

theorem asked_append {asked : List ℤ} (h : ∀ size ∈ asked, 0 < size) {n : ℤ} (hn : 0 < n) :
    ∀ size ∈ asked ++ [n], 0 < size := by
  intro size hsize
  cases List.mem_append.mp hsize with
  | inl hmem => exact h size hmem
  | inr hlast => rwa [List.mem_singleton.mp hlast]

/-- The bytes that a `read` puts behind `end`. -/
theorem Holds.read (h : Holds source handed c)
    {data : List UInt8} {reader : Reader} (hdata : data ++ reader.bytes = c.reader.bytes)
    (hroom : c.stream.endp + data.length ≤ c.stream.nbBuffer) (asked : List ℤ) :
    ∃ mem, store c.stream.mem c.stream.endp data = some mem ∧ mem.length = c.stream.mem.length ∧
      Holds source handed
        ⟨{ c.stream with mem := mem, endp := c.stream.endp + data.length }, reader, asked⟩ := by
  obtain ⟨before, hsource, hhanded⟩ := h.content
  have hpointers := h.pointers
  obtain ⟨mem, hstore, hlength, htake, hbefore⟩ := take_store (by omega) hroom
  refine ⟨mem, hstore, hlength, ⟨?_, before, ?_, ?_⟩⟩
  · show 0 ≤ c.stream.p ∧ c.stream.p ≤ c.stream.endp + data.length ∧
      c.stream.endp + data.length ≤ (mem.length : ℤ)
    rw [hlength]
    refine ⟨hpointers.1, ?_, hroom⟩
    omega
  · show source = before ++ (mem.take (c.stream.endp + data.length).toNat ++ reader.bytes)
    rw [htake, hsource, ← hdata, List.append_assoc]
  · show handed = before ++ mem.take c.stream.p.toNat
    rw [hbefore _ (by omega), hhanded]

theorem readMore_spec {requiredSize : ℤ} (fuel : ℕ) {nbFreeSpace : ℤ} (h : Holds source handed c)
    (hfree : nbFreeSpace = c.stream.nbBuffer - c.stream.endp)
    (hroom : requiredSize ≤ c.stream.size + nbFreeSpace)
    (hfuel : (requiredSize - c.stream.size).toNat < fuel) :
    ∃ c', Grew source handed c c' ∧ (readMore requiredSize fuel nbFreeSpace c = .ok () c' ∨
      ∃ e, readMore requiredSize fuel nbFreeSpace c = .err e c' ∧ e.code = .socketRead) := by
  induction fuel generalizing nbFreeSpace c with
  | zero => omega
  | succ fuel ih =>
    rw [readMore]
    beta_reduce
    by_cases hdone : requiredSize ≤ c.stream.size
    · exact ⟨c, ⟨h, rfl, le_refl _, fun hasked => hasked⟩, .inl (if_pos hdone)⟩
    · rw [if_neg hdone]
      have hpos : 0 < nbFreeSpace := by omega
      cases read_spec c.reader nbFreeSpace with
      | inl hfailed =>
        cases hread : c.reader.read nbFreeSpace with
        | mk answer reader =>
          rw [hread] at hfailed
          obtain ⟨hnone, hbytes⟩ := hfailed
          dsimp only at hnone hbytes
          rw [hnone]
          have hsame : Holds source handed
              { c with reader := reader, asked := c.asked ++ [nbFreeSpace] } := by
            obtain ⟨before, hsource, hhanded⟩ := h.content
            refine ⟨h.pointers, before, ?_, hhanded⟩
            show source = before ++ (c.stream.mem.take c.stream.endp.toNat ++ reader.bytes)
            rw [hbytes, hsource]
          have hfewer : reader.bytes.length ≤ c.reader.bytes.length := by rw [hbytes]
          exact ⟨_, ⟨hsame, rfl, hfewer, fun hasked => asked_append hasked hpos⟩,
            .inr ⟨_, rfl, rfl⟩⟩
      | inr hdata =>
        cases hread : c.reader.read nbFreeSpace with
        | mk answer reader =>
          rw [hread] at hdata
          obtain ⟨data, hsome, hle, hbytes, hne⟩ := hdata
          dsimp only at hsome hbytes
          have hlength : (data.length : ℤ) ≤ nbFreeSpace := by omega
          obtain ⟨mem, hstore, hmem, hholds⟩ :=
            h.read hbytes (by omega) (c.asked ++ [nbFreeSpace])
          have hpositive : 0 < data.length := List.length_pos_of_ne_nil (hne hpos)
          rw [hsome]
          dsimp only
          rw [hstore]
          dsimp only
          rw [if_neg (hne hpos)]
          have hsize : c.stream.endp + data.length - c.stream.p =
              c.stream.size + data.length := by
            unfold SrsFastStream.size
            omega
          have hnb : ((mem.length : ℕ) : ℤ) = c.stream.nbBuffer := by
            rw [hmem]
            rfl
          obtain ⟨c', hgrew, hresult⟩ := @ih _ (nbFreeSpace - data.length) hholds
            (by
              show _ = ((mem.length : ℕ) : ℤ) - (c.stream.endp + data.length)
              omega)
            (by
              show _ ≤ c.stream.endp + data.length - c.stream.p + _
              omega)
            (by
              show (requiredSize - (c.stream.endp + data.length - c.stream.p)).toNat < fuel
              omega)
          have hfewer : reader.bytes.length ≤ c.reader.bytes.length := by
            rw [← hbytes, List.length_append]
            omega
          exact ⟨c', ⟨hgrew.holds, hgrew.nbBuffer.trans hnb, hgrew.fewer.trans hfewer,
            fun hasked => hgrew.asked (asked_append hasked hpos)⟩, hresult⟩

/-- `grow` neither fails an assertion nor writes outside the memory, and it overflows only if more
is required than the memory holds. -/
theorem grow_spec (h : Holds source handed c) (requiredSize : ℤ) :
    ∃ c', Grew source handed c c' ∧ (grow requiredSize c = .ok () c' ∨
      ∃ e, grow requiredSize c = .err e c' ∧
        (e.code = .readerBufferOverflow → c.stream.nbBuffer < requiredSize)) := by
  have hpointers := h.pointers
  have hsize : c.stream.size = c.stream.endp - c.stream.p := rfl
  -- what `readMore` gives, as a result of `grow`
  have hread : ∀ {s : SrsFastStream}, Holds source handed { c with stream := s } →
      s.nbBuffer = c.stream.nbBuffer → 0 ≤ s.size →
      requiredSize ≤ s.size + (s.nbBuffer - s.endp) →
      ∃ c', Grew source handed c c' ∧
        (readMore requiredSize (requiredSize.toNat + 1) (s.nbBuffer - s.endp)
          { c with stream := s } = .ok () c' ∨
        ∃ e, readMore requiredSize (requiredSize.toNat + 1) (s.nbBuffer - s.endp)
          { c with stream := s } = .err e c' ∧
          (e.code = .readerBufferOverflow → c.stream.nbBuffer < requiredSize)) := by
    intro s hholds hnb hnonneg hroom
    obtain ⟨c', hgrew, hresult⟩ := readMore_spec (requiredSize.toNat + 1) hholds rfl hroom (by
      show (requiredSize - s.size).toNat < _
      omega)
    refine ⟨c', ⟨hgrew.holds, hgrew.nbBuffer.trans hnb, hgrew.fewer, hgrew.asked⟩, ?_⟩
    cases hresult with
    | inl hok => exact .inl hok
    | inr herr =>
      obtain ⟨e, he, hcode⟩ := herr
      apply Or.inr
      refine ⟨e, he, fun hoverflow => ?_⟩
      rw [hcode] at hoverflow
      cases hoverflow
  unfold grow
  by_cases hdone : requiredSize ≤ c.stream.size
  · exact ⟨c, ⟨h, rfl, le_refl _, fun hasked => hasked⟩, .inl (if_pos hdone)⟩
  · rw [if_neg hdone, if_neg (by omega)]
    dsimp only
    rw [if_neg (by omega)]
    by_cases hfull : c.stream.endp - c.stream.p + (c.stream.nbBuffer - c.stream.endp) < requiredSize
    · rw [if_pos hfull]
      obtain ⟨s, hspace, hholds, hnb, hsame, hall⟩ := makeSpace_spec h
      rw [hspace]
      dsimp only
      rw [← hsize, ← hsame]
      by_cases hover : s.size + (s.nbBuffer - s.endp) < requiredSize
      · rw [if_pos hover]
        refine ⟨_, ⟨hholds, hnb, le_refl _, fun hasked => hasked⟩, .inr ⟨_, rfl, fun _ => ?_⟩⟩
        omega
      · rw [if_neg hover]
        exact hread hholds hnb (by omega) (by omega)
    · rw [if_neg hfull]
      exact hread h rfl (by omega) (by omega)

/-! ## The other calls -/

theorem setBuffer_holds (h : Holds source handed c) (bufferSize : ℤ) :
    Holds source handed { c with stream := c.stream.setBuffer bufferSize } := by
  unfold setBuffer
  dsimp only
  split
  · exact h
  · obtain ⟨before, hsource, hhanded⟩ := h.content
    have hpointers := h.pointers
    have hnb : c.stream.nbBuffer = c.stream.mem.length := rfl
    have hend : c.stream.p + (c.stream.endp - c.stream.p) = c.stream.endp := by omega
    rw [hend]
    refine ⟨?_, before, ?_, ?_⟩
    · show 0 ≤ c.stream.p ∧ c.stream.p ≤ c.stream.endp ∧
        c.stream.endp ≤ ((c.stream.mem ++ _).length : ℕ)
      rw [List.length_append]
      omega
    · show source = before ++ ((c.stream.mem ++ _).take c.stream.endp.toNat ++ _)
      rw [List.take_append_of_le_length (by omega)]
      exact hsource
    · show handed = before ++ (c.stream.mem ++ _).take c.stream.p.toNat
      rw [List.take_append_of_le_length (by omega)]
      exact hhanded

/-- Taking bytes that are there. -/
theorem take_holds (h : Holds source handed c) {n : ℕ} (hn : n ≤ c.stream.size) :
    Holds source (handed ++ (c.stream.mem.drop c.stream.p.toNat).take n)
      { c with stream := { c.stream with p := c.stream.p + n } } := by
  obtain ⟨before, hsource, hhanded⟩ := h.content
  have hpointers := h.pointers
  have hsize : c.stream.size = c.stream.endp - c.stream.p := rfl
  refine ⟨?_, before, hsource, ?_⟩
  · show 0 ≤ c.stream.p + n ∧ c.stream.p + n ≤ c.stream.endp ∧
      c.stream.endp ≤ c.stream.nbBuffer
    omega
  · have hmore : (c.stream.p + n).toNat = c.stream.p.toNat + n := by omega
    show _ = before ++ c.stream.mem.take (c.stream.p + n).toNat
    rw [hmore, List.take_add, hhanded, List.append_assoc]

/-- Giving bytes back that are still in the memory. -/
theorem giveBack_holds (h : Holds source handed c) {n : ℕ} (hn : n ≤ c.stream.p) :
    Holds source (handed.take (handed.length - n))
      { c with stream := { c.stream with p := c.stream.p + -n } } := by
  obtain ⟨before, hsource, hhanded⟩ := h.content
  have hpointers := h.pointers
  have hnb : c.stream.nbBuffer = c.stream.mem.length := rfl
  refine ⟨?_, before, hsource, ?_⟩
  · show 0 ≤ c.stream.p + -n ∧ c.stream.p + -n ≤ c.stream.endp ∧
      c.stream.endp ≤ c.stream.nbBuffer
    omega
  · have hless : (c.stream.p + -n).toNat = c.stream.p.toNat - n := by omega
    have htaken : (c.stream.mem.take c.stream.p.toNat).length = c.stream.p.toNat := by
      rw [List.length_take]
      omega
    have hlength : handed.length - n = before.length + (c.stream.p.toNat - n) := by
      rw [hhanded, List.length_append, htaken]
      omega
    show handed.take (handed.length - n) =
      before ++ c.stream.mem.take (c.stream.p + -n).toNat
    rw [hlength, hless, hhanded, List.take_length_add_append, List.take_take,
      min_eq_left (by omega)]

/-! ## All calls -/

/-- What is kept by every call: also, the bytes that were just read are still in the memory. -/
structure Inv (source : List UInt8) (w : World) : Prop where
  running : w.crashed = false
  holds : Holds source w.handed w.conn
  back : w.justRead ≤ w.conn.stream.p
  asked : ∀ size ∈ w.conn.asked, 0 < size
  overflows : ∀ e ∈ w.overflows, e.2 < e.1
  kept : ∀ f ∈ w.failures, f.1 <+: f.2

theorem Inv.good {w : World} (h : Inv source w) : Good source w :=
  ⟨h.running, h.holds.pointers, h.holds.fifo, h.asked, h.overflows, h.kept⟩

theorem inv_start (mem : List UInt8) (reader : Reader) : Inv reader.bytes (start mem reader) := by
  refine ⟨rfl, ⟨?_, [], rfl, rfl⟩, le_refl 0, ?_, ?_, ?_⟩
  · show 0 ≤ (0 : ℤ) ∧ (0 : ℤ) ≤ 0 ∧ (0 : ℤ) ≤ (mem.length : ℤ)
    omega
  · exact fun size hsize => absurd hsize List.not_mem_nil
  · exact fun e he => absurd he List.not_mem_nil
  · exact fun e he => absurd he List.not_mem_nil

section Calls

variable {source : List UInt8} {w w' : World}

theorem Inv.grow (h : Inv source w) {requiredSize : ℤ}
    (hact : act w (.grow requiredSize) = some w') : Inv source w' := by
  obtain ⟨conn, hgrew, hresult⟩ := grow_spec h.holds requiredSize
  have hback : ((0 : ℕ) : ℤ) ≤ conn.stream.p := hgrew.holds.pointers.1
  unfold act at hact
  dsimp only at hact
  cases hresult with
  | inl hok =>
    rw [hok] at hact
    cases hact
    exact ⟨h.running, hgrew.holds, hback, hgrew.asked h.asked, h.overflows, h.kept⟩
  | inr herr =>
    obtain ⟨e, he, hover⟩ := herr
    rw [he] at hact
    cases hact
    refine ⟨h.running, hgrew.holds, hback, hgrew.asked h.asked, ?_, ?_⟩
    · dsimp only
      by_cases hcode : e.code = .readerBufferOverflow
      · rw [if_pos hcode]
        intro entry hentry
        cases List.mem_append.mp hentry with
        | inl hmem => exact h.overflows entry hmem
        | inr hlast =>
          rw [List.mem_singleton.mp hlast]
          exact hover hcode
      · rw [if_neg hcode]
        exact h.overflows
    · intro f hf
      cases List.mem_append.mp hf with
      | inl hmem => exact h.kept f hmem
      | inr hlast =>
        rw [List.mem_singleton.mp hlast]
        exact hgrew.kept h.holds

theorem Inv.readSlice (h : Inv source w) {size : ℕ}
    (hact : act w (.readSlice size) = some w') : Inv source w' := by
  have hpointers := h.holds.pointers
  unfold act at hact
  dsimp only at hact
  by_cases hthere : (size : ℤ) ≤ w.conn.stream.size
  · have hrun : ReceiveBuffer.readSlice size w.conn =
        .ok ((w.conn.stream.mem.drop w.conn.stream.p.toNat).take size)
          { w.conn with stream := { w.conn.stream with p := w.conn.stream.p + size } } := by
      apply if_neg
      omega
    rw [hrun] at hact
    cases hact
    refine ⟨h.running, take_holds h.holds hthere, ?_, h.asked, h.overflows, h.kept⟩
    have hback := h.back
    show ((w.justRead + size : ℕ) : ℤ) ≤ w.conn.stream.p + size
    omega
  · have hrun : ReceiveBuffer.readSlice size w.conn = .fault := by
      apply if_pos
      omega
    rw [hrun] at hact
    dsimp only at hact
    rw [if_neg hthere] at hact
    cases hact

theorem Inv.read1Byte (h : Inv source w) (hact : act w .read1Byte = some w') : Inv source w' := by
  have hpointers := h.holds.pointers
  unfold act at hact
  dsimp only at hact
  by_cases hthere : 1 ≤ w.conn.stream.size
  · have hnb : w.conn.stream.nbBuffer = w.conn.stream.mem.length := rfl
    have hsize : w.conn.stream.size = w.conn.stream.endp - w.conn.stream.p := rfl
    have hlt : w.conn.stream.p.toNat < w.conn.stream.mem.length := by omega
    have hfront : (w.conn.stream.mem.drop w.conn.stream.p.toNat).take 1 =
        [w.conn.stream.mem[w.conn.stream.p.toNat]] := by
      rw [List.drop_eq_getElem_cons hlt]
      rfl
    have hrun : ReceiveBuffer.read1Byte w.conn = .ok w.conn.stream.mem[w.conn.stream.p.toNat]
        { w.conn with stream := { w.conn.stream with p := w.conn.stream.p + 1 } } := by
      unfold ReceiveBuffer.read1Byte
      rw [if_neg (by omega), List.getElem?_eq_getElem hlt]
    have htaken := take_holds h.holds (n := 1) hthere
    rw [hfront] at htaken
    rw [hrun] at hact
    cases hact
    refine ⟨h.running, htaken, ?_, h.asked, h.overflows, h.kept⟩
    have hback := h.back
    show ((w.justRead + 1 : ℕ) : ℤ) ≤ w.conn.stream.p + 1
    omega
  · have hrun : ReceiveBuffer.read1Byte w.conn = .fault := by
      apply if_pos
      omega
    rw [hrun] at hact
    dsimp only at hact
    rw [if_neg hthere] at hact
    cases hact

theorem Inv.skipBack (h : Inv source w) {size : ℕ}
    (hact : act w (.skipBack size) = some w') : Inv source w' := by
  have hpointers := h.holds.pointers
  have hback := h.back
  have hsize : w.conn.stream.size = w.conn.stream.endp - w.conn.stream.p := rfl
  unfold act at hact
  dsimp only at hact
  by_cases hthere : (size : ℤ) ≤ w.conn.stream.p
  · have hrun : skip (-size) w.conn = .ok ()
        { w.conn with stream := { w.conn.stream with p := w.conn.stream.p + -size } } := by
      apply if_neg
      omega
    rw [hrun] at hact
    cases hact
    refine ⟨h.running, giveBack_holds h.holds hthere, ?_, h.asked, h.overflows, h.kept⟩
    show ((w.justRead - size : ℕ) : ℤ) ≤ w.conn.stream.p + -size
    omega
  · have hrun : skip (-size) w.conn = .fault := by
      apply if_pos
      omega
    rw [hrun] at hact
    dsimp only at hact
    rw [if_neg (by omega)] at hact
    cases hact

theorem Inv.setBuffer (h : Inv source w) {bufferSize : ℤ}
    (hact : act w (.setBuffer bufferSize) = some w') : Inv source w' := by
  cases hact
  refine ⟨h.running, setBuffer_holds h.holds bufferSize, ?_, h.asked, h.overflows, h.kept⟩
  have hback := h.back
  have hp : (w.conn.stream.setBuffer bufferSize).p = w.conn.stream.p := by
    unfold SrsFastStream.setBuffer
    dsimp only
    split
    · rfl
    · rfl
  show (w.justRead : ℤ) ≤ (w.conn.stream.setBuffer bufferSize).p
  rwa [hp]

theorem Inv.step (h : Inv source w) {call : Call} (hstep : step w call = some w') :
    Inv source w' := by
  have hact : act w call = some w' := by
    unfold ReceiveBuffer.step at hstep
    rwa [if_neg (by rw [h.running]; exact Bool.false_ne_true)] at hstep
  cases call with
  | grow requiredSize => exact h.grow hact
  | read1Byte => exact h.read1Byte hact
  | readSlice size => exact h.readSlice hact
  | skipBack size => exact h.skipBack hact
  | setBuffer bufferSize => exact h.setBuffer hact

end Calls

/-- Whatever is called on a new buffer, and however its reader answers, it is a FIFO. -/
theorem is_fifo (mem : List UInt8) (reader : Reader) (calls : List Call) :
    Always step (Good reader.bytes) (start mem reader) calls := by
  have hall : ∀ w, Inv reader.bytes w → Always step (Good reader.bytes) w calls := by
    induction calls with
    | nil => exact fun w h => h.good
    | cons call rest ih => exact fun w h => ⟨h.good, fun w' hstep => ih w' (h.step hstep)⟩
  exact hall _ (inv_start mem reader)

end SrsChatRoom.Protocol.ReceiveBuffer
