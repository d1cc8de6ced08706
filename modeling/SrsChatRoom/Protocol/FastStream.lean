import SrsChatRoom.Kernel.Buffer

/-!
# The receive buffer (`srs_protocol_stream.cpp`)

`SrsFastStream` buffers what it reads from a socket. A reader first calls `grow` for as many
bytes as it needs, then takes them with `read_slice` or `read_1byte`. The socket delivers the
bytes of its peer in pieces of any size, of which a `read` takes what it has room for.

Above this module only the bytes that are not taken yet matter (`unread`), wherever they are:
`grow_run` and `readSlice_run` say so, and `grow_overflow` says what a request for more than the
buffer holds gives.
-/

namespace SrsChatRoom.Protocol

open Kernel

/-! ## The socket -/

/-- What the peer has sent, in the pieces in which it arrives; then the peer closes. -/
structure Socket where
  segments : List (List UInt8)
  nonempty : ∀ s ∈ segments, s ≠ []

namespace Socket

/-- All bytes that are still to come. -/
def bytes (k : Socket) : List UInt8 := k.segments.flatten

/-- `read(buf, size, &nread)`: the bytes it reads; `none` when the peer has closed. -/
def read (k : Socket) (size : ℕ) : Option (List UInt8 × Socket) :=
  match h : k.segments with
  | [] => none
  | s :: rest =>
    have hrest : ∀ t ∈ rest, t ≠ [] := fun t ht => k.nonempty t (by simp [h, ht])
    if hs : s.length ≤ size then some (s, ⟨rest, hrest⟩)
    else some (s.take size, ⟨s.drop size :: rest, by
      have hdrop : s.drop size ≠ [] := by simpa using hs
      simpa [hdrop] using hrest⟩)

/-- What one `read` gives, where there is something to come. -/
theorem read_spec {k : Socket} (h : k.bytes ≠ []) {size : ℕ} (hsize : 0 < size) :
    ∃ data k', k.read size = some (data, k') ∧ data ≠ [] ∧ data.length ≤ size ∧
      data ++ k'.bytes = k.bytes := by
  obtain ⟨segments, hne⟩ := k
  cases segments with
  | nil => exact absurd rfl h
  | cons s rest =>
    have hs : s ≠ [] := hne s (by simp)
    by_cases hfit : s.length ≤ size
    · exact ⟨s, _, dif_pos hfit, hs, hfit, by simp [bytes]⟩
    · refine ⟨s.take size, _, dif_neg hfit, ?_, ?_, ?_⟩
      · simpa [hs] using hsize.ne'
      · rw [List.length_take]
        omega
      · rw [bytes, bytes, List.flatten_cons, List.flatten_cons, ← List.append_assoc,
          List.take_append_drop]

/-- A `read` returns no more than it is asked for. -/
theorem length_read {k k' : Socket} {size : ℕ} {data : List UInt8}
    (h : k.read size = some (data, k')) : data.length ≤ size := by
  unfold read at h
  split at h
  · cases h
  · split at h
    · rename_i hs
      cases h
      exact hs
    · cases h
      rw [List.length_take]
      omega

end Socket

/-! ## The buffer -/

/-- `SrsFastStream`: its size, the bytes from `buffer` up to `end`, and `p - buffer`. -/
structure FastStream where
  nbBuffer : ℕ
  bytes : List UInt8
  p : ℕ
  p_le : p ≤ bytes.length
  bytes_le : bytes.length ≤ nbBuffer

namespace FastStream

/-- `SRS_DEFAULT_RECV_BUFFER_SIZE` -/
def defaultRecvBufferSize : ℕ := 131072

/-- `SrsFastStream(size)` -/
def new (nbBuffer : ℕ) : FastStream := ⟨nbBuffer, [], 0, le_rfl, Nat.zero_le _⟩

/-- `size()` -/
def size (b : FastStream) : ℕ := b.bytes.length - b.p

/-- `buffer + nb_buffer - end` -/
def freeSpace (b : FastStream) : ℕ := b.nbBuffer - b.bytes.length

/-- The bytes from `p` up to `end`. -/
def unread (b : FastStream) : List UInt8 := b.bytes.drop b.p

variable (b : FastStream)

theorem length_unread : b.unread.length = b.size := List.length_drop

/-- The part of `grow` that resets the buffer or moves the left bytes to its start. -/
def makeSpace (b : FastStream) : FastStream :=
  if b.size = 0 then
    { b with bytes := [], p := 0, p_le := le_rfl, bytes_le := Nat.zero_le _ }
  else if b.size < b.nbBuffer ∧ 0 < b.p then
    { b with
      bytes := b.unread, p := 0, p_le := Nat.zero_le _
      bytes_le := by
        have := b.bytes_le
        rw [length_unread, size]
        omega }
  else b

/-- `end += nread`, after a read into the free space. -/
def append (b : FastStream) (data : List UInt8) (h : data.length ≤ b.freeSpace) : FastStream :=
  { b with
    bytes := b.bytes ++ data
    p_le := by
      have := b.p_le
      rw [List.length_append]
      omega
    bytes_le := by
      have := b.bytes_le
      rw [freeSpace] at h
      rw [List.length_append]
      omega }

/-- `p += size` -/
def consume (b : FastStream) (size : ℕ) (h : size ≤ b.size) : FastStream :=
  { b with
    p := b.p + size
    p_le := by
      have := b.p_le
      rw [FastStream.size] at h
      omega }

theorem unread_consume (size : ℕ) (h : size ≤ b.size) :
    (b.consume size h).unread = b.unread.drop size := by
  rw [unread, unread, List.drop_drop]
  rfl

theorem unread_makeSpace : b.makeSpace.unread = b.unread := by
  unfold makeSpace
  split
  · rename_i h
    rw [← length_unread, List.length_eq_zero_iff] at h
    rw [h]
    rfl
  · split <;> rfl

theorem nbBuffer_makeSpace : b.makeSpace.nbBuffer = b.nbBuffer := by
  unfold makeSpace
  split
  · rfl
  · split <;> rfl

/-- After `makeSpace` all of the buffer is left or free. -/
theorem size_add_freeSpace_makeSpace : b.makeSpace.size + b.makeSpace.freeSpace = b.nbBuffer := by
  have hp := b.p_le
  have hbytes := b.bytes_le
  unfold makeSpace
  split
  · simp [size, freeSpace]
  · split
    · rename_i hsize h
      simp only [size, freeSpace, length_unread] at *
      omega
    · rename_i hsize h
      simp only [size, freeSpace] at *
      omega

theorem unread_append (data : List UInt8) (h : data.length ≤ b.freeSpace) :
    (b.append data h).unread = b.unread ++ data :=
  List.drop_append_of_le_length b.p_le

theorem size_append (data : List UInt8) (h : data.length ≤ b.freeSpace) :
    (b.append data h).size = b.size + data.length := by
  rw [← length_unread, unread_append, List.length_append, length_unread]

theorem freeSpace_append (data : List UInt8) (h : data.length ≤ b.freeSpace) :
    (b.append data h).freeSpace = b.freeSpace - data.length := by
  simp only [append, freeSpace, List.length_append]
  omega

end FastStream

/-! ## Reading from the socket through the buffer -/

/-- `in_buffer` and `skt` of a connection. -/
structure Input where
  inBuffer : FastStream
  skt : Socket

namespace Input

/-- All bytes that are not taken yet. -/
def unread (i : Input) : List UInt8 := i.inBuffer.unread ++ i.skt.bytes

/-- The loop of `grow`, each round of which reads one byte at least. -/
def fill (requiredSize : ℕ) : ℕ → Prog Input SrsError Unit
  | 0 => fun _ => .hang
  | fuel + 1 => fun i =>
    if requiredSize ≤ i.inBuffer.size then .ok () i
    else
      match h : i.skt.read i.inBuffer.freeSpace with
      | none => .err (srsErrorWrap "read bytes" (srsErrorNew .socketRead "read")) i
      | some (data, skt) =>
        if data = [] then .fault
        else fill requiredSize fuel ⟨i.inBuffer.append data (Socket.length_read h), skt⟩

/-- `grow(reader, required_size)` -/
def grow (requiredSize : ℕ) : Prog Input SrsError Unit := fun i =>
  if requiredSize ≤ i.inBuffer.size then .ok () i
  else if i.inBuffer.size + i.inBuffer.freeSpace < requiredSize then
    let b := i.inBuffer.makeSpace
    if b.size + b.freeSpace < requiredSize then
      .err (srsErrorNew .readerBufferOverflow ("overflow, required=" ++ toString requiredSize ++
        ", max=" ++ toString b.nbBuffer ++ ", left=" ++ toString b.freeSpace)) { i with inBuffer := b }
    else fill requiredSize (requiredSize + 1) { i with inBuffer := b }
  else fill requiredSize (requiredSize + 1) i

/-- `read_slice(size)` -/
def readSlice (size : ℕ) : Prog Input SrsError (List UInt8) := fun i =>
  if h : size ≤ i.inBuffer.size then
    .ok (i.inBuffer.unread.take size) { i with inBuffer := i.inBuffer.consume size h }
  else .fault

/-- `read_1byte()` -/
def read1Byte : Prog Input SrsError UInt8 := fun i =>
  match readSlice 1 i with
  | .ok bytes i' => .ok (bytes.headD 0) i'
  | .err e i' => .err e i'
  | .fault => .fault
  | .hang => .hang

/-- `skip(-size)` -/
def skipBack (size : ℕ) : Prog Input SrsError Unit := fun i =>
  if size ≤ i.inBuffer.p then
    .ok () { i with
      inBuffer := { i.inBuffer with
        p := i.inBuffer.p - size
        p_le := le_trans (Nat.sub_le _ _) i.inBuffer.p_le } }
  else .fault

section Running

variable {i : Input} {requiredSize : ℕ}

theorem fill_step {data : List UInt8} {skt : Socket} (fuel : ℕ)
    (h : ¬ requiredSize ≤ i.inBuffer.size)
    (hread : i.skt.read i.inBuffer.freeSpace = some (data, skt)) (hne : data ≠ []) :
    fill requiredSize (fuel + 1) i =
      fill requiredSize fuel ⟨i.inBuffer.append data (Socket.length_read hread), skt⟩ := by
  show (if requiredSize ≤ i.inBuffer.size then Outcome.ok () i else _) = _
  rw [if_neg h]
  split
  · rename_i hnone
    rw [hread] at hnone
    cases hnone
  · rename_i hsome
    rw [hread] at hsome
    cases hsome
    rw [if_neg hne]

/-- With room for what is missing, the loop reads until it has enough. -/
theorem fill_run (fuel : ℕ) (hroom : requiredSize ≤ i.inBuffer.size + i.inBuffer.freeSpace)
    (hunread : requiredSize ≤ i.unread.length) (hfuel : requiredSize - i.inBuffer.size < fuel) :
    ∃ i', fill requiredSize fuel i = .ok () i' ∧ i'.unread = i.unread ∧
      requiredSize ≤ i'.inBuffer.size ∧ i'.inBuffer.nbBuffer = i.inBuffer.nbBuffer := by
  induction fuel generalizing i with
  | zero => omega
  | succ fuel ih =>
    by_cases hdone : requiredSize ≤ i.inBuffer.size
    · exact ⟨i, if_pos hdone, rfl, hdone, rfl⟩
    · have hskt : i.skt.bytes ≠ [] := by
        intro h
        rw [unread, h, List.append_nil, FastStream.length_unread] at hunread
        exact hdone hunread
      obtain ⟨data, skt, hread, hne, hlen, hbytes⟩ :=
        Socket.read_spec hskt (show 0 < i.inBuffer.freeSpace by omega)
      have hpos : 0 < data.length := List.length_pos_of_ne_nil hne
      have happend : (⟨i.inBuffer.append data hlen, skt⟩ : Input).unread = i.unread := by
        rw [unread, FastStream.unread_append, List.append_assoc, hbytes, unread]
      obtain ⟨i', hfill, hunread', hsize, hnb⟩ := ih (i := ⟨i.inBuffer.append data hlen, skt⟩)
        (by rw [FastStream.size_append, FastStream.freeSpace_append]; omega)
        (by rw [happend]; exact hunread)
        (by rw [FastStream.size_append]; omega)
      refine ⟨i', ?_, hunread'.trans happend, hsize, hnb⟩
      rw [fill_step fuel hdone hread hne]
      exact hfill

/-- `grow` for bytes that come and that the buffer can hold. -/
theorem grow_run (hunread : requiredSize ≤ i.unread.length)
    (hnb : requiredSize ≤ i.inBuffer.nbBuffer) :
    ∃ i', grow requiredSize i = .ok () i' ∧ i'.unread = i.unread ∧
      requiredSize ≤ i'.inBuffer.size ∧ i'.inBuffer.nbBuffer = i.inBuffer.nbBuffer := by
  unfold grow
  by_cases hdone : requiredSize ≤ i.inBuffer.size
  · exact ⟨i, if_pos hdone, rfl, hdone, rfl⟩
  · rw [if_neg hdone]
    by_cases hroom : i.inBuffer.size + i.inBuffer.freeSpace < requiredSize
    · have hspace := i.inBuffer.size_add_freeSpace_makeSpace
      have hsame : ({ i with inBuffer := i.inBuffer.makeSpace } : Input).unread = i.unread := by
        rw [unread, FastStream.unread_makeSpace, unread]
      rw [if_pos hroom, if_neg (by omega)]
      obtain ⟨i', hfill, hunread', hsize, hnb'⟩ :=
        @fill_run { i with inBuffer := i.inBuffer.makeSpace } requiredSize (requiredSize + 1)
          (by rw [hspace]; exact hnb) (by rw [hsame]; exact hunread) (by omega)
      exact ⟨i', hfill, hunread'.trans hsame, hsize,
        hnb'.trans (FastStream.nbBuffer_makeSpace _)⟩
    · rw [if_neg hroom]
      exact fill_run (requiredSize + 1) (by omega) hunread (by omega)

/-- `grow` for more than the buffer can hold. -/
theorem grow_overflow (hnb : i.inBuffer.nbBuffer < requiredSize) :
    ∃ e i', grow requiredSize i = .err e i' := by
  have hspace := i.inBuffer.size_add_freeSpace_makeSpace
  have hp := i.inBuffer.p_le
  have hbytes := i.inBuffer.bytes_le
  unfold grow
  rw [if_neg (by rw [FastStream.size]; omega),
    if_pos (by rw [FastStream.size, FastStream.freeSpace]; omega), if_pos (by omega)]
  exact ⟨_, _, rfl⟩

/-- `read_slice` of bytes that are in the buffer. -/
theorem readSlice_run {size : ℕ} (h : size ≤ i.inBuffer.size) :
    ∃ i', readSlice size i = .ok (i.unread.take size) i' ∧ i'.unread = i.unread.drop size ∧
      i'.inBuffer.nbBuffer = i.inBuffer.nbBuffer := by
  have hlen : size ≤ i.inBuffer.unread.length := by rwa [FastStream.length_unread]
  refine ⟨{ i with inBuffer := i.inBuffer.consume size h }, ?_, ?_, rfl⟩
  · rw [readSlice, dif_pos h, unread, List.take_append_of_le_length hlen]
  · rw [unread, unread, List.drop_append_of_le_length hlen, FastStream.unread_consume]

/-- `read_1byte` of a byte that is in the buffer. -/
theorem read1Byte_run {v : UInt8} {rest : List UInt8} (h : 1 ≤ i.inBuffer.size)
    (hunread : i.unread = v :: rest) :
    ∃ i', read1Byte i = .ok v i' ∧ i'.unread = rest ∧
      i'.inBuffer.nbBuffer = i.inBuffer.nbBuffer := by
  obtain ⟨i', hread, hrest, hnb⟩ := readSlice_run h
  rw [hunread] at hread hrest
  exact ⟨i', by rw [read1Byte, hread]; rfl, hrest, hnb⟩

end Running

end Input

end SrsChatRoom.Protocol
