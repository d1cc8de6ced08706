import SrsChatRoom.Protocol.FastStream
import SrsChatRoom.Protocol.HttpWriter

/-!
# Reading an HTTP body (`SrsHttpResponseReader`)

The reader takes the body out of the buffer that the header came through. Chunk by chunk it looks
for the end of the chunk header, reads the bytes of the chunk in as many parts as it is asked for,
and skips the two bytes behind them. With a content length it counts.

* `InChunk` - what is to come: the rest of a chunk, and what stands behind it;
* `readAll_chunks` - the chunks are read, whatever the sizes of the reads;
* `readAll_length` - the same with a content length.
-/

namespace SrsChatRoom.Protocol.HttpBody

open Kernel Hex

/-! ## Code -/

/-- The message: `is_chunked()` and `content_length()`. -/
structure Owner where
  chunked : Bool
  contentLength : ℤ

/-- `SrsHttpResponseReader` -/
structure SrsHttpResponseReader where
  isEof : Bool
  nbTotalRead : ℕ
  nbLeftChunk : ℕ
  nbChunk : ℕ
  input : Input

/-- The reader of a message whose header has been taken. -/
def SrsHttpResponseReader.new (input : Input) : SrsHttpResponseReader := ⟨false, 0, 0, 0, input⟩

/-- A program of the reader. -/
abbrev OnReader := Prog SrsHttpResponseReader HttpError

variable {α : Type}

/-- A program on the buffer. -/
def onInput (x : Prog Input SrsError α) : OnReader α := fun r =>
  match x r.input with
  | .ok a i => .ok a { r with input := i }
  | .err e i => .err (.input e) { r with input := i }
  | .fault => .fault
  | .hang => .hang

/-- The loop over the buffer: what is in front of the first CRLF. -/
def crlfAt : List UInt8 → Option ℕ
  | [] => none
  | a :: s => if a = 13 ∧ s.head? = some 10 then some 0 else (crlfAt s).map (· + 1)

/-- The loop that takes the chunk header, without the CRLF. -/
def readChunkHeader : ℕ → OnReader (List UInt8)
  | 0 => fun _ => .hang
  | fuel + 1 => fun r =>
    match crlfAt r.input.inBuffer.unread with
    | some 0 => .err .invalidChunkHeader r
    | some (k + 1) => (do
        let header ← onInput (Input.readSlice (k + 3))
        return header.take (k + 1)) r
    | none => (do
        onInput (Input.grow (r.input.inBuffer.size + 1))
        readChunkHeader fuel) r

/-- The size in a chunk header. -/
def parseChunkHeader (header : List UInt8) : Option ℕ :=
  let (value, parsed, range) := strtol16 header
  let ilength := toInt value
  if ilength < 0 ∨ range = true ∨ parsed ≠ header.length then none else some ilength.toNat

/-- The end of `read_specified`: the bytes are counted. -/
def countRead (owner : Owner) (data : List UInt8) : OnReader (List UInt8) := fun r =>
  .ok data { r with
    nbTotalRead := r.nbTotalRead + data.length
    isEof :=
      if owner.chunked = false ∧ owner.contentLength ≠ -1 ∧
        toInt owner.contentLength ≤ (r.nbTotalRead + data.length : ℕ) then true else r.isEof }

/-- The begin of `read_specified`: with an empty buffer, some bytes are read. -/
def fillEmpty : OnReader Unit := fun r =>
  if r.input.inBuffer.size = 0 then onInput (Input.grow 1) r else .ok () r

/-- `read_specified(data, nb_data)`: the bytes that are read. -/
def readSpecified (owner : Owner) (nbData : ℕ) : OnReader (List UInt8) := do
  fillEmpty
  let size ← Prog.read fun r => r.input.inBuffer.size
  if min nbData size = 0 then Prog.abort
  else
    let data ← onInput (Input.readSlice (min nbData size))
    countRead owner data

/-- The CRLF behind a chunk. -/
def skipCrlf (data : List UInt8) : OnReader (List UInt8) := do
  onInput (Input.grow 2)
  let _ ← onInput (Input.readSlice 2)
  return data

/-- `read_chunked`, behind the chunk header. -/
def readInChunk (owner : Owner) (nbData : ℕ) : OnReader (List UInt8) := fun r =>
  if r.nbChunk = 0 then skipCrlf [] { r with isEof := true }
  else if r.nbLeftChunk = 0 then .fault
  else
    match readSpecified owner (min r.nbLeftChunk nbData) r with
    | .ok data r =>
      let r := { r with nbLeftChunk := r.nbLeftChunk - data.length }
      if 0 < r.nbLeftChunk then .ok data r else skipCrlf data r
    | .err e r =>
      -- the bytes count as read
      .err e { r with nbLeftChunk := r.nbLeftChunk - min r.nbLeftChunk nbData }
    | .fault => .fault
    | .hang => .hang

/-- `read_chunked(data, nb_data)` -/
def readChunked (owner : Owner) (nbData : ℕ) : OnReader (List UInt8) := fun r =>
  if r.nbLeftChunk = 0 then (do
    let header ← readChunkHeader (r.input.inBuffer.nbBuffer + 2)
    match parseChunkHeader header with
    | none => Prog.throw .invalidChunkHeader
    | some n =>
      fun r => readInChunk owner nbData { r with nbChunk := n, nbLeftChunk := n }) r
  else readInChunk owner nbData r

/-- `read(data, nb_data)`, with `nb_read` 0 in front of it. -/
def read (owner : Owner) (nbData : ℕ) : OnReader (List UInt8) := fun r =>
  if r.isEof = true then .err .responseEof r
  else if owner.chunked = true then readChunked owner nbData r
  else if owner.contentLength ≠ -1 then
    let max := ((owner.contentLength - r.nbTotalRead) % 2 ^ 64).toNat
    if max = 0 then .ok [] { r with isEof := true }
    else readSpecified owner (min nbData max) r
  else
    match readSpecified owner nbData r with
    | .err (.input e) r' =>
      if e.code = .socketRead then .ok [] { r' with isEof := true } else .err (.input e) r'
    | o => o

/-- Reads of the given sizes, one after another. -/
def readAll (owner : Owner) : List ℕ → OnReader (List UInt8)
  | [] => pure []
  | nbData :: sizes => do
    let data ← read owner nbData
    let more ← readAll owner sizes
    return data ++ more

/-! ## The buffer -/

section Running

variable {r : SrsHttpResponseReader}

variable {x : Prog Input SrsError α}

theorem onInput_ok {i' : Input} {a : α} (h : x r.input = .ok a i') :
    onInput x r = .ok a { r with input := i' } := by
  rw [onInput, h]

variable {header : List UInt8}

theorem crlfAt_append (h : 13 ∉ header) (s : List UInt8) :
    crlfAt (header ++ 13 :: 10 :: s) = some header.length := by
  induction header with
  | nil => rfl
  | cons a header ih =>
    have ha : a ≠ 13 := fun ha => h (by simp [ha])
    have hrest := ih fun hmem => h (List.mem_cons_of_mem a hmem)
    rw [List.cons_append, crlfAt, if_neg (fun hc => ha hc.1), hrest]
    rfl

/-- As long as the CRLF is not complete there is none. -/
theorem crlfAt_take (h : 13 ∉ header) (s : List UInt8) {n : ℕ}
    (hn : n < header.length + 2) : crlfAt ((header ++ 13 :: 10 :: s).take n) = none := by
  induction header generalizing n with
  | nil =>
    rcases n with _ | _ | n
    · rfl
    · rfl
    · exact absurd hn (by simp)
  | cons a header ih =>
    have ha : a ≠ 13 := fun ha => h (by simp [ha])
    cases n with
    | zero => rfl
    | succ n =>
      have hrest := ih (fun hmem => h (List.mem_cons_of_mem a hmem))
        (show n < header.length + 2 by simpa using hn)
      rw [List.cons_append, List.take_succ_cons, crlfAt, if_neg (fun hc => ha hc.1), hrest]
      rfl

theorem take_unread (i : Input) : i.unread.take i.inBuffer.size = i.inBuffer.unread := by
  rw [Input.unread, ← FastStream.length_unread, List.take_left]

/-- The chunk header is taken, however it comes. -/
theorem readChunkHeader_run {s : List UInt8} (hheader : 13 ∉ header) (hne : header ≠ [])
    {fuel : ℕ} (hunread : r.input.unread = header ++ 13 :: 10 :: s)
    (hnb : header.length + 2 ≤ r.input.inBuffer.nbBuffer)
    (hfuel : header.length + 2 < fuel + r.input.inBuffer.size) (hpos : 0 < fuel) :
    ∃ i', readChunkHeader fuel r = .ok header { r with input := i' } ∧ i'.unread = s ∧
      i'.inBuffer.nbBuffer = r.input.inBuffer.nbBuffer := by
  induction fuel generalizing r with
  | zero => exact absurd hpos (lt_irrefl 0)
  | succ fuel ih =>
    have hbuffer := take_unread r.input
    rw [hunread] at hbuffer
    by_cases hsize : r.input.inBuffer.size < header.length + 2
    · -- the CRLF is not complete yet
      have hnone := crlfAt_take hheader s hsize
      rw [hbuffer] at hnone
      have hlength : r.input.inBuffer.size + 1 ≤ r.input.unread.length := by
        rw [hunread, List.length_append, List.length_cons, List.length_cons]
        omega
      obtain ⟨i₁, hgrow, hunread₁, hsize₁, hnb₁⟩ := Input.grow_run hlength (by omega)
      obtain ⟨i', hread, hs, hnb'⟩ := @ih { r with input := i₁ } (hunread₁.trans hunread)
        (hnb₁ ▸ hnb) (show _ < fuel + i₁.inBuffer.size by omega) (by omega)
      refine ⟨i', ?_, hs, hnb'.trans hnb₁⟩
      rw [readChunkHeader]
      dsimp only
      rw [hnone]
      dsimp only
      rw [Prog.bind_ok (onInput_ok hgrow)]
      exact hread
    · have hsome : crlfAt r.input.inBuffer.unread = some header.length := by
        obtain ⟨more, hmore⟩ : ∃ more, r.input.inBuffer.unread = header ++ 13 :: 10 :: more := by
          rw [← hbuffer]
          refine ⟨s.take (r.input.inBuffer.size - (header.length + 2)), ?_⟩
          have hsplit : r.input.inBuffer.size =
              header.length + 2 + (r.input.inBuffer.size - (header.length + 2)) := by omega
          conv_lhs => rw [hsplit]
          have hcons : header ++ 13 :: 10 :: s = (header ++ [13, 10]) ++ s := by simp
          have hfront : header.length + 2 = (header ++ [(13 : UInt8), 10]).length := by simp
          rw [hcons, hfront, List.take_length_add_append]
          simp
        rw [hmore, crlfAt_append hheader]
      obtain ⟨k, hk⟩ := Nat.exists_eq_succ_of_ne_zero (List.length_pos_of_ne_nil hne).ne'
      have hslice : k + 3 ≤ r.input.inBuffer.size := by omega
      obtain ⟨i', hread, hrest, hnb'⟩ := Input.readSlice_run hslice
      have hdrop : (header ++ 13 :: 10 :: s).drop (k + 3) = s := by
        have hlen : k + 3 = (header ++ [(13 : UInt8), 10]).length := by
          rw [List.length_append, hk]
          rfl
        have hcons : header ++ 13 :: 10 :: s = (header ++ [13, 10]) ++ s := by simp
        rw [hcons, hlen, List.drop_left]
      have htake : ((header ++ 13 :: 10 :: s).take (k + 3)).take (k + 1) = header := by
        rw [List.take_take, min_eq_left (by omega), show k + 1 = header.length from hk.symm,
          List.take_left]
      refine ⟨i', ?_, by rw [hrest, hunread, hdrop], hnb'⟩
      rw [readChunkHeader]
      dsimp only
      rw [hsome, hk]
      dsimp only
      rw [Prog.bind_ok (onInput_ok hread), hunread, htake]
      rfl

theorem skipCrlf_run {data s : List UInt8} (hunread : r.input.unread = crlf ++ s)
    (hnb : 2 ≤ r.input.inBuffer.nbBuffer) :
    ∃ i', skipCrlf data r = .ok data { r with input := i' } ∧ i'.unread = s ∧
      i'.inBuffer.nbBuffer = r.input.inBuffer.nbBuffer := by
  have hlength : 2 ≤ r.input.unread.length := by
    rw [hunread, List.length_append]
    exact Nat.le_add_right 2 _
  obtain ⟨i₁, hgrow, hunread₁, hsize₁, hnb₁⟩ := Input.grow_run hlength hnb
  obtain ⟨i', hread, hrest, hnb'⟩ := Input.readSlice_run hsize₁
  refine ⟨i', ?_, by rw [hrest, hunread₁, hunread]; rfl, hnb'.trans hnb₁⟩
  rw [skipCrlf, Prog.bind_ok (onInput_ok hgrow)]
  rw [Prog.bind_ok (onInput_ok (r := { r with input := i₁ }) hread)]
  rfl

/-- A read of what is there takes one byte at least. -/
theorem readSpecified_run (owner : Owner) {nbData : ℕ} (hdata : 0 < nbData)
    (hunread : r.input.unread ≠ []) (hnb : 1 ≤ r.input.inBuffer.nbBuffer) :
    ∃ data s i', r.input.unread = data ++ s ∧ data ≠ [] ∧ data.length ≤ nbData ∧
      i'.unread = s ∧ i'.inBuffer.nbBuffer = r.input.inBuffer.nbBuffer ∧
      readSpecified owner nbData r = .ok data { r with
        nbTotalRead := r.nbTotalRead + data.length
        isEof :=
          if owner.chunked = false ∧ owner.contentLength ≠ -1 ∧
            toInt owner.contentLength ≤ (r.nbTotalRead + data.length : ℕ) then true else r.isEof
        input := i' } := by
  -- one byte at least is in the buffer
  obtain ⟨i₁, hfill, hunread₁, hsize₁, hnb₁⟩ : ∃ i₁ : Input,
      fillEmpty r = .ok () { r with input := i₁ } ∧ i₁.unread = r.input.unread ∧
      1 ≤ i₁.inBuffer.size ∧ i₁.inBuffer.nbBuffer = r.input.inBuffer.nbBuffer := by
    by_cases hsize : r.input.inBuffer.size = 0
    · obtain ⟨i₁, hgrow, hrest⟩ := Input.grow_run (List.length_pos_of_ne_nil hunread) hnb
      exact ⟨i₁, by rw [fillEmpty, if_pos hsize, onInput_ok hgrow], hrest⟩
    · exact ⟨r.input, by rw [fillEmpty, if_neg hsize], rfl, Nat.pos_of_ne_zero hsize, rfl⟩
  have hmin : min nbData i₁.inBuffer.size ≠ 0 := by omega
  obtain ⟨i', hread, hrest, hnb'⟩ :=
    Input.readSlice_run (i := i₁) (min_le_right nbData i₁.inBuffer.size)
  have hlength : (r.input.unread.take (min nbData i₁.inBuffer.size)).length =
      min nbData i₁.inBuffer.size := by
    have hle : i₁.inBuffer.size ≤ i₁.unread.length := by
      rw [Input.unread, List.length_append, FastStream.length_unread]
      exact Nat.le_add_right _ _
    rw [hunread₁] at hle
    rw [List.length_take]
    omega
  refine ⟨r.input.unread.take (min nbData i₁.inBuffer.size),
    r.input.unread.drop (min nbData i₁.inBuffer.size), i', (List.take_append_drop _ _).symm, ?_,
    by omega, by rw [hrest, hunread₁], hnb'.trans hnb₁, ?_⟩
  · exact List.ne_nil_of_length_pos (by omega)
  · rw [readSpecified, Prog.bind_ok hfill]
    change (if min nbData i₁.inBuffer.size = 0 then Prog.abort else _ : OnReader (List UInt8)) _ = _
    rw [if_neg hmin, Prog.bind_ok (onInput_ok (r := { r with input := i₁ }) hread), hunread₁]
    rfl

variable {r' : SrsHttpResponseReader}

theorem onInput_inv {a : α}
    (h : onInput x r = .ok a r') : ∃ i', x r.input = .ok a i' ∧ r' = { r with input := i' } := by
  unfold onInput at h
  split at h
  · cases h
    exact ⟨_, by assumption, rfl⟩
  · cases h
  · cases h
  · cases h

/-- What a read counts. -/
theorem readSpecified_inv {owner : Owner} {nbData : ℕ} {d : List UInt8}
    (h : readSpecified owner nbData r = .ok d r') :
    d.length ≤ nbData ∧ r'.nbTotalRead = r.nbTotalRead + d.length ∧
      r'.isEof = if owner.chunked = false ∧ owner.contentLength ≠ -1 ∧
        toInt owner.contentLength ≤ r'.nbTotalRead then true else r.isEof := by
  obtain ⟨_, r₁, hfill, h⟩ := Prog.ok_of_bind_ok h
  have hr₁ : ∃ i₁, r₁ = { r with input := i₁ } := by
    unfold fillEmpty at hfill
    split at hfill
    · obtain ⟨i₁, _, hr₁⟩ := onInput_inv hfill
      exact ⟨i₁, hr₁⟩
    · cases hfill
      exact ⟨r.input, rfl⟩
  obtain ⟨i₁, rfl⟩ := hr₁
  obtain ⟨size, r₂, hsize, h⟩ := Prog.ok_of_bind_ok h
  cases hsize
  dsimp only at h
  split at h
  · cases h
  · obtain ⟨data, r₃, hslice, h⟩ := Prog.ok_of_bind_ok h
    obtain ⟨i₃, hbytes, rfl⟩ := onInput_inv hslice
    unfold Input.readSlice at hbytes
    split at hbytes
    · cases hbytes
      cases h
      refine ⟨?_, rfl, rfl⟩
      rw [List.length_take]
      omega
    · cases hbytes

end Running

/-- A part of a text at its front, which is no longer than `data`, is a part of `data`. -/
theorem exists_rest {d s' data s : List UInt8} (h : data ++ s = d ++ s')
    (hle : d.length ≤ data.length) : ∃ data', data = d ++ data' ∧ s' = data' ++ s := by
  obtain ⟨data', rfl⟩ := List.prefix_of_prefix_length_le (List.prefix_append d s')
    (h ▸ List.prefix_append data s) hle
  rw [List.append_assoc] at h
  exact ⟨data', rfl, (List.append_cancel_left h).symm⟩

/-! ## Chunk by chunk -/

/-- What is to come: the rest `data` of a chunk, and `s` behind the chunk. -/
structure InChunk (r : SrsHttpResponseReader) (data s : List UInt8) : Prop where
  eof : r.isEof = false
  left : r.nbLeftChunk = data.length
  chunk : data ≠ [] → r.nbChunk ≠ 0
  unread : r.input.unread = if data = [] then s else data ++ (crlf ++ s)
  buffer : r.input.inBuffer.nbBuffer = FastStream.defaultRecvBufferSize

section Chunks

variable {owner : Owner} {r : SrsHttpResponseReader} {nbData : ℕ} {s : List UInt8}

/-- One read inside of a chunk. -/
theorem readInChunk_run (howner : owner.chunked = true) (hdata : 0 < nbData) {data : List UInt8}
    (h : InChunk r data s) (hne : data ≠ []) :
    ∃ d data' r', data = d ++ data' ∧ d ≠ [] ∧ readInChunk owner nbData r = .ok d r' ∧
      InChunk r' data' s := by
  have hpos := List.length_pos_of_ne_nil hne
  have hunread := h.unread
  rw [if_neg hne] at hunread
  have hnb : FastStream.defaultRecvBufferSize = 131072 := rfl
  obtain ⟨d, s', i', hsplit, hd, hle, hs', hnb', hread⟩ :=
    @readSpecified_run r owner (min r.nbLeftChunk nbData) (by have := h.left; omega)
      (by rw [hunread]; simp [hne]) (by rw [h.buffer]; omega)
  have hdle : d.length ≤ data.length := by
    have hleft := h.left
    omega
  obtain ⟨data', rfl, hrest'⟩ := exists_rest (hunread ▸ hsplit) hdle
  have hrest : i'.unread = data' ++ (crlf ++ s) := hs'.trans hrest'
  have hleft : r.nbLeftChunk - d.length = data'.length := by
    rw [h.left, List.length_append]
    omega
  have hnotLength : ¬ (owner.chunked = false ∧ owner.contentLength ≠ -1 ∧
      toInt owner.contentLength ≤ (r.nbTotalRead + d.length : ℕ)) := by
    rintro ⟨hfalse, _⟩
    rw [howner] at hfalse
    cases hfalse
  rw [if_neg hnotLength] at hread
  by_cases hlast : data' = []
  · -- the chunk is read, and what is behind it is skipped
    subst hlast
    obtain ⟨i'', hskip, hs'', hnb''⟩ :=
      @skipCrlf_run { r with
        nbTotalRead := r.nbTotalRead + d.length, nbLeftChunk := 0, input := i' } d s hrest
        (by rw [hnb', h.buffer]; omega)
    refine ⟨d, [], { r with
      nbTotalRead := r.nbTotalRead + d.length, nbLeftChunk := 0, input := i'' }, rfl, hd, ?_,
      h.eof, rfl, fun hn => absurd rfl hn, hs'', hnb''.trans (hnb'.trans h.buffer)⟩
    rw [readInChunk, if_neg (h.chunk hne), if_neg (by rw [h.left]; omega), hread]
    dsimp only
    rw [hleft, if_neg (by simp)]
    exact hskip
  · refine ⟨d, data', { r with
      nbTotalRead := r.nbTotalRead + d.length, nbLeftChunk := r.nbLeftChunk - d.length
      input := i' }, rfl, hd, ?_, h.eof, hleft, fun _ => h.chunk hne, ?_, hnb'.trans h.buffer⟩
    · rw [readInChunk, if_neg (h.chunk hne), if_neg (by rw [h.left]; omega), hread]
      dsimp only
      rw [if_pos (by rw [hleft]; exact List.length_pos_of_ne_nil hlast)]
    · rw [if_neg hlast]
      exact hrest

theorem read_chunked (howner : owner.chunked = true) (heof : r.isEof = false) :
    read owner nbData r = readChunked owner nbData r := by
  rw [read, if_neg (by simp [heof]), if_pos howner]

/-- A read at the front of a chunk takes the header first. -/
theorem readChunked_header (owner : Owner) (nbData : ℕ) {n : ℕ} (hn : n < 2 ^ 32)
    (h : InChunk r [] (showHex n ++ (crlf ++ s))) :
    ∃ i', i'.unread = s ∧ i'.inBuffer.nbBuffer = FastStream.defaultRecvBufferSize ∧
      readChunked owner nbData r =
        if n < 2 ^ 31 then
          readInChunk owner nbData { r with nbChunk := n, nbLeftChunk := n, input := i' }
        else .err .invalidChunkHeader { r with input := i' } := by
  have hle := length_showHex (n := n) (k := 8) (by decide) (by omega)
  have h13 : 13 ∉ showHex n := by
    intro hmem
    have hdigit := isDigit_showHex n 13 hmem
    revert hdigit
    decide
  have hnb : FastStream.defaultRecvBufferSize = 131072 := rfl
  obtain ⟨i', hread, hs, hnb'⟩ := @readChunkHeader_run r (showHex n) s h13 (showHex_ne_nil n)
    (r.input.inBuffer.nbBuffer + 2) h.unread (by rw [h.buffer]; omega)
    (by rw [h.buffer]; omega) (by omega)
  refine ⟨i', hs, hnb'.trans h.buffer, ?_⟩
  have hparse : parseChunkHeader (showHex n) = if n < 2 ^ 31 then some n else none := by
    rw [parseChunkHeader, strtol16_showHex (lt_trans hn (by norm_num))]
    dsimp only
    by_cases hsmall : n < 2 ^ 31
    · rw [if_pos hsmall, toInt_of_lt hsmall]
      simp
    · have hneg : toInt n < 0 := by
        unfold toInt
        rw [Int.bmod_def]
        omega
      rw [if_neg hsmall]
      simp [hneg]
  rw [readChunked, if_pos (show r.nbLeftChunk = 0 from h.left), Prog.bind_ok hread, hparse]
  by_cases hsmall : n < 2 ^ 31
  · rw [if_pos hsmall, if_pos hsmall]
  · rw [if_neg hsmall, if_neg hsmall]
    rfl

/-- A read at the front of a chunk. -/
theorem read_chunk (howner : owner.chunked = true) (hdata : 0 < nbData) {data : List UInt8}
    (hne : data ≠ []) (hsmall : data.length < 2 ^ 31) (h : InChunk r [] (chunk data ++ s)) :
    ∃ d data' r', data = d ++ data' ∧ d ≠ [] ∧ read owner nbData r = .ok d r' ∧
      InChunk r' data' s := by
  have hchunk : chunk data ++ s = showHex data.length ++ (crlf ++ (data ++ (crlf ++ s))) := by
    simp [chunk]
  rw [hchunk] at h
  obtain ⟨i', hs, hnb, hread⟩ := readChunked_header owner nbData (by omega) h
  rw [if_pos hsmall] at hread
  rw [read_chunked howner h.eof, hread]
  apply readInChunk_run howner hdata _ hne
  refine ⟨h.eof, rfl, fun _ => ?_, ?_, hnb⟩
  · exact (List.length_pos_of_ne_nil hne).ne'
  · rw [if_neg hne]
    exact hs

/-- The last chunk ends the body. -/
theorem read_lastChunk (nbData : ℕ) (howner : owner.chunked = true)
    (h : InChunk r [] (lastChunk ++ s)) :
    ∃ r', read owner nbData r = .ok [] r' ∧ r'.isEof = true ∧ r'.input.unread = s := by
  have hchunk : lastChunk ++ s = showHex 0 ++ (crlf ++ (crlf ++ s)) := by simp [lastChunk]
  rw [hchunk] at h
  obtain ⟨i', hs, hnb, hread⟩ := readChunked_header owner nbData (by omega) h
  rw [if_pos (by decide)] at hread
  obtain ⟨i'', hskip, hs'', _⟩ := @skipCrlf_run
    { r with isEof := true, nbChunk := 0, nbLeftChunk := 0, input := i' } [] s hs
    (by rw [hnb]; decide)
  refine ⟨{ r with isEof := true, nbChunk := 0, nbLeftChunk := 0, input := i'' }, ?_, rfl, hs''⟩
  rw [read_chunked howner h.eof, hread, readInChunk, if_pos rfl]
  exact hskip

/-- A chunk that an `int` cannot count is refused. -/
theorem read_chunk_too_large (nbData : ℕ) (howner : owner.chunked = true) {n : ℕ} (hn : n < 2 ^ 32)
    (hlarge : 2 ^ 31 ≤ n) (h : InChunk r [] (showHex n ++ (crlf ++ s))) :
    ∃ e r', read owner nbData r = .err e r' := by
  obtain ⟨i', _, _, hread⟩ := readChunked_header owner nbData hn h
  rw [if_neg (by omega)] at hread
  exact ⟨_, _, by rw [read_chunked howner h.eof, hread]⟩

end Chunks

/-! ## Reads one after another -/

/-- The first `n` sizes. -/
def sizes (f : ℕ → ℕ) (n : ℕ) : List ℕ := (List.range n).map f

theorem sizes_add (f : ℕ → ℕ) (n m : ℕ) :
    sizes f (n + m) = sizes f n ++ sizes (fun i => f (n + i)) m := by
  rw [sizes, List.range_add, List.map_append, List.map_map]
  rfl

section Runs

variable {owner : Owner} {r r₁ r' : SrsHttpResponseReader} {d : List UInt8}

theorem readAll_append {l₁ l₂ : List ℕ} {d' : List UInt8} (h : readAll owner l₁ r = .ok d r₁)
    (h' : readAll owner l₂ r₁ = .ok d' r') : readAll owner (l₁ ++ l₂) r = .ok (d ++ d') r' := by
  induction l₁ generalizing r d with
  | nil =>
    cases h
    exact h'
  | cons nbData l₁ ih =>
    obtain ⟨d₁, r₂, hread, hrest⟩ := Prog.ok_of_bind_ok h
    obtain ⟨d₂, r₃, hmore, hend⟩ := Prog.ok_of_bind_ok hrest
    cases hend
    rw [List.cons_append, readAll, Prog.bind_ok hread, Prog.bind_ok (ih hmore), List.append_assoc]
    rfl

theorem readAll_singleton {nbData : ℕ} (h : read owner nbData r = .ok d r') :
    readAll owner [nbData] r = .ok d r' := by
  rw [readAll, Prog.bind_ok h]
  change Outcome.ok (d ++ []) r' = _
  rw [List.append_nil]

variable {f : ℕ → ℕ}

/-- A read more. -/
theorem readAll_succ {n : ℕ} {d' : List UInt8} (h : read owner (f 0) r = .ok d r₁)
    (h' : readAll owner (sizes (fun i => f (1 + i)) n) r₁ = .ok d' r') :
    readAll owner (sizes f (1 + n)) r = .ok (d ++ d') r' := by
  rw [sizes_add]
  exact readAll_append (readAll_singleton h) h'

/-- Behind the end there is no read. -/
theorem readAll_of_eof (h : r.isEof = true) {l : List ℕ}
    (hread : readAll owner l r = .ok d r') : l = [] := by
  cases l with
  | nil => rfl
  | cons nbData l =>
    obtain ⟨_, _, hfirst, _⟩ := Prog.ok_of_bind_ok hread
    rw [read, if_pos h] at hfirst
    cases hfirst

/-- The rest of a chunk is read, whatever the sizes of the reads. -/
theorem readAll_inChunk (howner : owner.chunked = true) (hf : ∀ i, 0 < f i)
    {data s : List UInt8} (h : InChunk r data s) :
    ∃ n r', readAll owner (sizes f n) r = .ok data r' ∧ InChunk r' [] s := by
  induction hn : data.length using Nat.strong_induction_on generalizing r data f with
  | _ n ih =>
    by_cases hne : data = []
    · exact ⟨0, r, by rw [hne]; rfl, hne ▸ h⟩
    · obtain ⟨d, data', r₁, rfl, hd, hread, h₁⟩ := readInChunk_run howner (hf 0) h hne
      have hpos := List.length_pos_of_ne_nil hd
      have hleft : r.nbLeftChunk ≠ 0 := by
        rw [h.left, List.length_append]
        omega
      have hfirst : read owner (f 0) r = .ok d r₁ := by
        rw [read_chunked howner h.eof, readChunked, if_neg hleft, hread]
      obtain ⟨m, r', hrest, h'⟩ := ih data'.length (by rw [← hn, List.length_append]; omega)
        (f := fun i => f (1 + i)) (fun i => hf (1 + i)) h₁ rfl
      exact ⟨1 + m, r', readAll_succ hfirst hrest, h'⟩

/-- The chunks are read, up to the front of the next one. -/
theorem readAll_chunks (howner : owner.chunked = true) (hf : ∀ i, 0 < f i)
    {chunks : List (List UInt8)} (hchunks : ∀ c ∈ chunks, c ≠ [] ∧ c.length < 2 ^ 31)
    {s : List UInt8} (h : InChunk r [] (chunks.flatMap chunk ++ s)) :
    ∃ n r', readAll owner (sizes f n) r = .ok chunks.flatten r' ∧ InChunk r' [] s := by
  induction chunks generalizing r f with
  | nil => exact ⟨0, r, rfl, h⟩
  | cons c chunks ih =>
    obtain ⟨hne, hsmall⟩ := hchunks c List.mem_cons_self
    rw [List.flatMap_cons, List.append_assoc] at h
    obtain ⟨d, data', r₁, rfl, _, hread, h₁⟩ := read_chunk howner (hf 0) hne hsmall h
    obtain ⟨n, r₂, hrest, h₂⟩ := readAll_inChunk howner (fun i => hf (1 + i)) h₁
    have hfirst := readAll_succ hread hrest
    obtain ⟨m, r', hmore, h'⟩ := ih (f := fun i => f (1 + n + i)) (fun i => hf _)
      (fun c' hc' => hchunks c' (List.mem_cons_of_mem _ hc')) h₂
    refine ⟨1 + n + m, r', ?_, h'⟩
    rw [sizes_add, List.flatten_cons]
    exact readAll_append hfirst hmore

end Runs

/-! ## With a content length -/

section Length

variable {owner : Owner} {r : SrsHttpResponseReader} {length : ℕ}

/-- With a content length the body is read, whatever the sizes of the reads. -/
theorem readAll_length (howner : owner.chunked = false) (hlength : owner.contentLength = length)
    (hsmall : length < 2 ^ 31) {f : ℕ → ℕ} (hf : ∀ i, 0 < f i) {data s : List UInt8}
    (heof : r.isEof = false) (hleft : r.nbTotalRead + data.length = length)
    (hunread : r.input.unread = data ++ s)
    (hnb : r.input.inBuffer.nbBuffer = FastStream.defaultRecvBufferSize) :
    ∃ n r', readAll owner (sizes f n) r = .ok data r' ∧ r'.isEof = true ∧
      r'.input.unread = s := by
  have hmax : ((owner.contentLength - r.nbTotalRead) % 2 ^ 64).toNat = data.length := by
    rw [hlength]
    omega
  induction hn : data.length using Nat.strong_induction_on generalizing r data f with
  | _ n ih =>
    have hread : read owner (f 0) r =
        if data.length = 0 then .ok [] { r with isEof := true }
        else readSpecified owner (min (f 0) data.length) r := by
      rw [read, if_neg (by simp [heof]), if_neg (by simp [howner]), if_pos (by omega)]
      dsimp only
      rw [hmax]
    by_cases hne : data = []
    · rw [if_pos (by rw [hne]; rfl)] at hread
      exact ⟨1, _, readAll_singleton (hne ▸ hread), rfl, by rw [hunread, hne]; rfl⟩
    · have hpos := List.length_pos_of_ne_nil hne
      have hf0 := hf 0
      have hsize : FastStream.defaultRecvBufferSize = 131072 := rfl
      obtain ⟨d, s', i', hsplit, hd, hle, hs', hnb', hrun⟩ :=
        @readSpecified_run r owner (min (f 0) data.length) (by omega)
          (by rw [hunread]; simp [hne]) (by rw [hnb]; omega)
      rw [if_neg hpos.ne', hrun] at hread
      obtain ⟨data', rfl, hrest⟩ := exists_rest (hunread ▸ hsplit) (by omega)
      have hdpos := List.length_pos_of_ne_nil hd
      rw [List.length_append] at hleft hn
      by_cases hlast : data' = []
      · -- all bytes have come, which ends the body
        have hlen : data'.length = 0 := by rw [hlast]; rfl
        have hend : owner.chunked = false ∧ owner.contentLength ≠ -1 ∧
            toInt owner.contentLength ≤ (r.nbTotalRead + d.length : ℕ) := by
          rw [hlength, toInt_of_lt hsmall]
          exact ⟨howner, by omega, by omega⟩
        rw [if_pos hend] at hread
        rw [hlast, List.append_nil]
        exact ⟨1, _, readAll_singleton hread, rfl, by rw [hs', hrest, hlast]; rfl⟩
      · have hlen := List.length_pos_of_ne_nil hlast
        have hnot : ¬ (owner.chunked = false ∧ owner.contentLength ≠ -1 ∧
            toInt owner.contentLength ≤ (r.nbTotalRead + d.length : ℕ)) := by
          rw [hlength, toInt_of_lt hsmall]
          omega
        rw [if_neg hnot] at hread
        obtain ⟨m, r', hmore, heof', hend⟩ := @ih data'.length (by omega)
          { r with nbTotalRead := r.nbTotalRead + d.length, input := i' } (fun i => f (1 + i))
          (fun i => hf (1 + i)) data' heof (by dsimp only; omega) (hs'.trans hrest)
          (hnb'.trans hnb) (by dsimp only; rw [hlength]; omega) rfl
        exact ⟨1 + m, r', readAll_succ hread hmore, heof', hend⟩

/-- A content length that an `int` cannot count ends the body too early: with reads of one byte no
more than `2 ^ 31 - 1` bytes come. -/
theorem length_readAll_lt (howner : owner.chunked = false) (hlength : owner.contentLength = length)
    {n : ℕ} {d : List UInt8} {r' : SrsHttpResponseReader}
    (h : readAll owner (List.replicate n 1) r = .ok d r') (hr : r.nbTotalRead < 2 ^ 31)
    (hcount : r.isEof = false → r.nbTotalRead = 0 ∨ r.nbTotalRead < toInt length) :
    r.nbTotalRead + d.length < 2 ^ 31 := by
  induction n generalizing r d with
  | zero =>
    cases h
    exact hr
  | succ n ih =>
    obtain ⟨d₁, r₁, hread, hrest⟩ := Prog.ok_of_bind_ok h
    obtain ⟨d₂, r₂, hmore, hend⟩ := Prog.ok_of_bind_ok hrest
    cases hend
    have hint := toInt_lt length
    rw [read] at hread
    by_cases heof : r.isEof = true
    · rw [if_pos heof] at hread
      cases hread
    · rw [if_neg heof, if_neg (by simp [howner]), if_pos (by omega)] at hread
      dsimp only at hread
      split at hread
      · -- nothing is left, and the body ends
        cases hread
        have hnil := readAll_of_eof rfl hmore
        rw [hnil] at hmore
        cases hmore
        exact hr
      · obtain ⟨hle, htotal, heof₁⟩ := readSpecified_inv hread
        have hnot : r.isEof = false := Bool.not_eq_true _ ▸ heof
        have hbefore := hcount hnot
        have hcount₁ : r₁.isEof = false →
            r₁.nbTotalRead = 0 ∨ (r₁.nbTotalRead : ℤ) < toInt length := by
          intro hopen
          rw [heof₁, hlength] at hopen
          right
          by_contra hge
          rw [if_pos ⟨howner, by omega, not_lt.mp hge⟩] at hopen
          cases hopen
        have hlt := ih hmore (by omega) hcount₁
        rw [List.length_append]
        omega

end Length

end SrsChatRoom.Protocol.HttpBody
