import Mathlib.Data.List.ReduceOption
import SrsChatRoom.Kernel.Buffer

/-!
# Sending RTMP messages (`do_send_messages`)

The send loop cuts each payload into chunks and collects, for each chunk, an iovec of its header
and one of its piece of the payload. The headers are kept in a cache of fixed size, to which the
iovecs point; when the cache runs dry, all that is collected is written and the cache is used
again from its start, in the middle of a message if need be.

`chunkStream` is what the messages are on the wire, without cache and iovecs, and
`doSendMessages_run` says that exactly these bytes are written, wherever the cache runs dry.
-/

namespace SrsChatRoom.Protocol

open Kernel

/-! ## Messages and chunk headers -/

/-- `SrsSharedPtrMessage`, with the fields of its shared header. -/
structure SharedPtrMessage where
  preferCid : ℤ
  timestamp : ℤ
  messageType : Int8
  streamId : Int32
  payload : List UInt8

/-- `RTMP_EXTENDED_TIMESTAMP` -/
def extendedTimestamp : ℕ := 0xFFFFFF

/-- `SRS_CONSTS_RTMP_MAX_FMT0_HEADER_SIZE` -/
def maxFmt0HeaderSize : ℕ := 16

/-- `SRS_CONSTS_RTMP_MAX_FMT3_HEADER_SIZE` -/
def maxFmt3HeaderSize : ℕ := 5

/-- The extended timestamp, of 0 or 4 bytes. -/
def extendedField (timestamp : ℕ) : List UInt8 :=
  if extendedTimestamp ≤ timestamp then bytesBE 4 timestamp else []

/-- `srs_chunk_header_c0`: the bytes it writes to a cache with `nbCache` bytes left. -/
def chunkHeaderC0 (preferCid : ℤ) (timestamp payloadLength : ℕ) (messageType : Int8)
    (streamId : Int32) (nbCache : ℕ) : List UInt8 :=
  if nbCache < maxFmt0HeaderSize then []
  else
    UInt8.ofNat (preferCid % 64).toNat ::
      (bytesBE 3 (if timestamp < extendedTimestamp then timestamp else 0xFFFFFF) ++
        (bytesBE 3 payloadLength ++
          (messageType.toUInt8 :: (bytesLE 4 streamId.toUInt32.toNat ++ extendedField timestamp))))

/-- `srs_chunk_header_c3` -/
def chunkHeaderC3 (preferCid : ℤ) (timestamp nbCache : ℕ) : List UInt8 :=
  if nbCache < maxFmt3HeaderSize then []
  else UInt8.ofNat (0xC0 + (preferCid % 64).toNat) :: extendedField timestamp

/-- `(uint32_t)timestamp` -/
def SharedPtrMessage.timestamp32 (m : SharedPtrMessage) : ℕ := (m.timestamp % 4294967296).toNat

/-- `chunk_header(cache, nb_cache, c0)` -/
def SharedPtrMessage.chunkHeader (m : SharedPtrMessage) (nbCache : ℕ) (c0 : Bool) : List UInt8 :=
  if c0 then
    chunkHeaderC0 m.preferCid m.timestamp32 m.payload.length m.messageType m.streamId nbCache
  else chunkHeaderC3 m.preferCid m.timestamp32 nbCache

/-! ## The send loop -/

/-- `iovec`: a header in the cache, or a piece of a payload. -/
inductive Iovec
  | header (base len : ℕ)
  | payload (bytes : List UInt8)

/-- The constants of the sender. -/
structure SendConfig where
  /-- `SRS_CONSTS_C0C3_HEADERS_MAX` -/
  cacheMax : ℕ
  /-- `sysconf(_SC_IOV_MAX)` -/
  iovMax : ℕ
  outChunkSize : ℕ

/-- The sender: the iovecs up to `iov_index` and the room for them, the header cache, and what
has been written to the socket. -/
structure Sender where
  iovs : List Iovec
  nbOutIovs : ℕ
  cache : ℕ → UInt8
  cacheIndex : ℕ
  written : List UInt8

/-- `SRS_CONSTS_IOVS_MAX` -/
def iovsMax : ℕ := 256

/-- A new connection, on which nothing has been written. -/
def Sender.new : Sender := ⟨[], 8 * iovsMax, fun _ => 0, 0, []⟩

/-- A program of the sender. -/
abbrev Send := Prog Sender SrsError

/-- The bytes an iovec points to. -/
def Iovec.bytes (cache : ℕ → UInt8) : Iovec → List UInt8
  | header base len => (List.range len).map fun k => cache (base + k)
  | payload bytes => bytes

/-- The cache after some bytes are written to it. -/
def writeCache (cache : ℕ → UInt8) (base : ℕ) (bytes : List UInt8) : ℕ → UInt8 := fun k =>
  if base ≤ k ∧ k < base + bytes.length then bytes.getD (k - base) 0 else cache k

/-- `writev` of the socket, which writes all. -/
def writev (iovs : List Iovec) : Send Unit := fun s =>
  .ok () { s with written := s.written ++ iovs.flatMap (Iovec.bytes s.cache) }

/-- The loop of `srs_write_large_iovs`. -/
def writeLoop (limits : ℕ) : ℕ → List Iovec → Send Unit
  | 0, _ => fun _ => .hang
  | fuel + 1, iovs =>
    if iovs = [] then pure ()
    else do
      writev (iovs.take limits)
      writeLoop limits fuel (iovs.drop limits)

/-- `srs_write_large_iovs` -/
def writeLargeIovs (limits : ℕ) (iovs : List Iovec) : Send Unit :=
  if iovs.length ≤ limits then writev iovs else writeLoop limits (iovs.length + 1) iovs

/-- `do_iovs_send(out_iovs, iov_index)` -/
def doIovsSend (cfg : SendConfig) : Send Unit := fun s => writeLargeIovs cfg.iovMax s.iovs s

/-- The part of a round that fills the two iovecs of a chunk, where `p` is what is left of the
payload. -/
def collectChunk (cfg : SendConfig) (m : SharedPtrMessage) (p : List UInt8) : Send Unit := fun s =>
  let header := m.chunkHeader (cfg.cacheMax - s.cacheIndex) (p.length = m.payload.length)
  -- the assertion, and the writes to the cache and to the iovecs
  if header = [] ∨ cfg.cacheMax < s.cacheIndex + header.length ∨
      s.nbOutIovs < s.iovs.length + 2 then .fault
  else .ok () { s with
    cache := writeCache s.cache s.cacheIndex header
    iovs := s.iovs ++ [.header s.cacheIndex header.length,
      .payload (p.take (min cfg.outChunkSize p.length))]
    nbOutIovs := if s.nbOutIovs ≤ s.iovs.length + 2 then 2 * s.nbOutIovs else s.nbOutIovs
    cacheIndex := s.cacheIndex + header.length }

/-- `iov_index = 0; c0c3_cache_index = 0;` -/
def resetIovs : Send Unit := fun s => .ok () { s with iovs := [], cacheIndex := 0 }

/-- The part of a round that writes all when the cache is dry. -/
def flushIfDry (cfg : SendConfig) : Send Unit := fun s =>
  if cfg.cacheMax - s.cacheIndex < maxFmt0HeaderSize then
    (do doIovsSend cfg; resetIovs : Send Unit) s
  else .ok () s

/-- The loop over the chunks of a message. -/
def sendChunks (cfg : SendConfig) (m : SharedPtrMessage) : ℕ → List UInt8 → Send Unit
  | 0, _ => fun _ => .hang
  | fuel + 1, p =>
    if p = [] then pure ()
    else do
      collectChunk cfg m p
      flushIfDry cfg
      sendChunks cfg m fuel (p.drop (min cfg.outChunkSize p.length))

/-- The loop over the messages, which skips those that are null or empty. -/
def sendLoop (cfg : SendConfig) : List (Option SharedPtrMessage) → Send Unit
  | [] => pure ()
  | none :: msgs => sendLoop cfg msgs
  | some m :: msgs =>
    if m.payload = [] then sendLoop cfg msgs
    else do
      sendChunks cfg m (m.payload.length + 1) m.payload
      sendLoop cfg msgs

/-- `do_send_messages` -/
def doSendMessages (cfg : SendConfig) (msgs : List (Option SharedPtrMessage)) : Send Unit := do
  resetIovs
  sendLoop cfg msgs
  if ← Prog.read fun s : Sender => s.iovs.isEmpty then return ()
  else doIovsSend cfg

/-! ## The messages on the wire -/

/-- The header of the first chunk or of a further chunk of a message. -/
def SharedPtrMessage.header (m : SharedPtrMessage) (c0 : Bool) : List UInt8 :=
  m.chunkHeader maxFmt0HeaderSize c0

/-- The chunks of what is left of a payload. -/
def chunks (c : ℕ) (m : SharedPtrMessage) (p : List UInt8) : List UInt8 :=
  if _ : p = [] ∨ c = 0 then []
  else m.header (p.length = m.payload.length) ++ (p.take c ++ chunks c m (p.drop c))
termination_by p.length
decreasing_by
  rename_i h
  have hp : 0 < p.length := List.length_pos_of_ne_nil (fun hp => h (Or.inl hp))
  have hc : c ≠ 0 := fun hc => h (Or.inr hc)
  rw [List.length_drop]
  omega

/-- The chunk stream of some messages. -/
def chunkStream (c : ℕ) (msgs : List SharedPtrMessage) : List UInt8 :=
  msgs.flatMap fun m => chunks c m m.payload

@[simp] theorem chunks_nil (c : ℕ) (m : SharedPtrMessage) : chunks c m [] = [] := by
  rw [chunks, dif_pos (Or.inl rfl)]

theorem chunks_of_ne_nil {c : ℕ} (hc : 0 < c) (m : SharedPtrMessage) {p : List UInt8}
    (hp : p ≠ []) : chunks c m p =
      m.header (p.length = m.payload.length) ++ (p.take c ++ chunks c m (p.drop c)) := by
  rw [chunks, dif_neg (by simp [hp, hc.ne'])]

/-! ## The cache -/

theorem length_extendedField_le (timestamp : ℕ) : (extendedField timestamp).length ≤ 4 := by
  unfold extendedField
  split <;> simp

/-- A cache with room for the largest header gets the whole header. -/
theorem chunkHeader_eq_header (m : SharedPtrMessage) {nbCache : ℕ} (c0 : Bool)
    (h : maxFmt0HeaderSize ≤ nbCache) : m.chunkHeader nbCache c0 = m.header c0 := by
  have h0 : ¬ nbCache < maxFmt0HeaderSize := not_lt.mpr h
  have h3 : ¬ nbCache < maxFmt3HeaderSize := by
    unfold maxFmt0HeaderSize at h
    unfold maxFmt3HeaderSize
    omega
  unfold SharedPtrMessage.header SharedPtrMessage.chunkHeader
  cases c0 with
  | true =>
    rw [if_pos rfl, if_pos rfl, chunkHeaderC0, chunkHeaderC0, if_neg h0, if_neg (lt_irrefl _)]
  | false =>
    rw [if_neg Bool.false_ne_true, if_neg Bool.false_ne_true, chunkHeaderC3, chunkHeaderC3,
      if_neg h3, if_neg (by decide)]

theorem header_ne_nil (m : SharedPtrMessage) (c0 : Bool) : m.header c0 ≠ [] := by
  cases c0 <;> exact List.cons_ne_nil _ _

theorem length_header_le (m : SharedPtrMessage) (c0 : Bool) :
    (m.header c0).length ≤ maxFmt0HeaderSize := by
  have hext := length_extendedField_le m.timestamp32
  cases c0 with
  | true =>
    show (UInt8.ofNat _ :: (_ ++ (_ ++ (_ :: (_ ++ _))))).length ≤ _
    simp only [List.length_cons, List.length_append, length_bytesBE, length_bytesLE,
      maxFmt0HeaderSize]
    omega
  | false =>
    show (UInt8.ofNat _ :: extendedField _).length ≤ _
    rw [List.length_cons, maxFmt0HeaderSize]
    omega

/-- What has just been written is read back. -/
theorem bytes_header_written (cache : ℕ → UInt8) (base : ℕ) (bytes : List UInt8) :
    (Iovec.header base bytes.length).bytes (writeCache cache base bytes) = bytes := by
  apply List.ext_getElem
  · simp [Iovec.bytes]
  · intro k hk hk'
    simp [Iovec.bytes, writeCache, hk']

/-- An iovec of a header lies below an index of the cache. -/
def Iovec.Below (index : ℕ) : Iovec → Prop
  | header base len => base + len ≤ index
  | payload _ => True

/-- What lies below is not touched by a write. -/
theorem bytes_below {cache : ℕ → UInt8} {base : ℕ} {bytes : List UInt8} {v : Iovec}
    (h : v.Below base) : v.bytes (writeCache cache base bytes) = v.bytes cache := by
  cases v with
  | payload _ => rfl
  | header start len =>
    have hbound : start + len ≤ base := h
    apply List.map_congr_left
    intro k hk
    rw [List.mem_range] at hk
    rw [writeCache, if_neg (by omega)]

/-! ## What the loop writes -/

section Sending

variable {cfg : SendConfig} {s : Sender} {out : List UInt8}

/-- What is written and what is collected make up `out`; there is room for a header and for two
iovecs. -/
structure Pending (cfg : SendConfig) (s : Sender) (out : List UInt8) : Prop where
  out_eq : s.written ++ s.iovs.flatMap (Iovec.bytes s.cache) = out
  below : ∀ v ∈ s.iovs, v.Below s.cacheIndex
  room : s.cacheIndex + maxFmt0HeaderSize ≤ cfg.cacheMax
  even_iovs : Even s.iovs.length
  even_nbOutIovs : Even s.nbOutIovs
  iovs_room : s.iovs.length + 2 ≤ s.nbOutIovs

theorem writeLoop_run {limits : ℕ} (hlimits : 0 < limits) (fuel : ℕ) (iovs : List Iovec)
    (hfuel : iovs.length < fuel) (s : Sender) : writeLoop limits fuel iovs s =
      .ok () { s with written := s.written ++ iovs.flatMap (Iovec.bytes s.cache) } := by
  induction fuel generalizing iovs s with
  | zero => omega
  | succ fuel ih =>
    by_cases hiovs : iovs = []
    · rw [writeLoop, if_pos hiovs, hiovs]
      simp
    · have hpos : 0 < iovs.length := List.length_pos_of_ne_nil hiovs
      have hdrop : (iovs.drop limits).length < fuel := by
        rw [List.length_drop]
        omega
      have hwrite : writev (iovs.take limits) s = .ok () _ := rfl
      rw [writeLoop, if_neg hiovs, Prog.bind_ok hwrite, ih _ hdrop, List.append_assoc,
        ← List.flatMap_append, List.take_append_drop]

/-- However many writes it takes, all iovecs are written. -/
theorem doIovsSend_run (hiov : 0 < cfg.iovMax) (s : Sender) : doIovsSend cfg s =
    .ok () { s with written := s.written ++ s.iovs.flatMap (Iovec.bytes s.cache) } := by
  unfold doIovsSend writeLargeIovs
  split
  · rfl
  · exact writeLoop_run hiov _ _ (Nat.lt_succ_self _) s

theorem Pending.collectChunk (h : Pending cfg s out) (m : SharedPtrMessage) (p : List UInt8) :
    ∃ s', Protocol.collectChunk cfg m p s = .ok () s' ∧
      s'.written ++ s'.iovs.flatMap (Iovec.bytes s'.cache) =
        out ++ (m.header (p.length = m.payload.length) ++ p.take cfg.outChunkSize) ∧
      (∀ v ∈ s'.iovs, v.Below s'.cacheIndex) ∧ Even s'.iovs.length ∧ Even s'.nbOutIovs ∧
      s'.iovs.length + 2 ≤ s'.nbOutIovs := by
  set header := m.header (p.length = m.payload.length) with hheader
  have hroom := h.room
  have heq : m.chunkHeader (cfg.cacheMax - s.cacheIndex) (p.length = m.payload.length) = header :=
    chunkHeader_eq_header m _ (by omega)
  have hlen : header.length ≤ maxFmt0HeaderSize := length_header_le m _
  have hiovs := h.iovs_room
  have hok : ¬ (header = [] ∨ cfg.cacheMax < s.cacheIndex + header.length ∨
      s.nbOutIovs < s.iovs.length + 2) := by
    have hne := header_ne_nil m (p.length = m.payload.length)
    rw [not_or, not_or]
    exact ⟨hne, by omega, by omega⟩
  unfold Protocol.collectChunk
  rw [heq, if_neg hok]
  refine ⟨_, rfl, ?_, ?_, ?_, ?_, ?_⟩
  · -- the headers that are collected already are still there
    have hold : s.iovs.flatMap (Iovec.bytes (writeCache s.cache s.cacheIndex header)) =
        s.iovs.flatMap (Iovec.bytes s.cache) :=
      List.flatMap_congr fun v hv => bytes_below (h.below v hv)
    have htake : p.take (min cfg.outChunkSize p.length) = p.take cfg.outChunkSize := by
      rw [List.take_eq_take_iff]
      omega
    show s.written ++ (s.iovs ++ [_, _]).flatMap _ = _
    rw [List.flatMap_append, hold, ← List.append_assoc, h.out_eq, htake]
    simp only [List.flatMap_cons, List.flatMap_nil, List.append_nil, bytes_header_written]
    rfl
  · intro v hv
    rcases List.mem_append.mp hv with hv | hv
    · have hbelow := h.below v hv
      cases v with
      | payload _ => trivial
      | header base len =>
        have hbase : base + len ≤ s.cacheIndex := hbelow
        show base + len ≤ s.cacheIndex + header.length
        omega
    · simp only [List.mem_cons, List.not_mem_nil, or_false] at hv
      rcases hv with rfl | rfl
      · exact le_rfl
      · trivial
  · show Even (s.iovs ++ [_, _]).length
    rw [List.length_append]
    exact h.even_iovs.add even_two
  · show Even (if s.nbOutIovs ≤ s.iovs.length + 2 then 2 * s.nbOutIovs else s.nbOutIovs)
    split
    · exact even_two_mul _
    · exact h.even_nbOutIovs
  · obtain ⟨a, ha⟩ := h.even_iovs
    obtain ⟨b, hb⟩ := h.even_nbOutIovs
    show (s.iovs ++ [_, _]).length + 2 ≤
      if s.nbOutIovs ≤ s.iovs.length + 2 then 2 * s.nbOutIovs else s.nbOutIovs
    rw [List.length_append]
    simp only [List.length_cons, List.length_nil]
    split <;> omega

/-- A round keeps what is pending, and adds the chunk to it. -/
theorem Pending.round (h : Pending cfg s out) (hcache : maxFmt0HeaderSize ≤ cfg.cacheMax)
    (hiov : 0 < cfg.iovMax) (m : SharedPtrMessage) (p : List UInt8) :
    ∃ s' s'', Protocol.collectChunk cfg m p s = .ok () s' ∧ flushIfDry cfg s' = .ok () s'' ∧
      Pending cfg s''
        (out ++ (m.header (p.length = m.payload.length) ++ p.take cfg.outChunkSize)) := by
  obtain ⟨s', hcollect, hout, hbelow, heven, hevenNb, hiovs⟩ := h.collectChunk m p
  by_cases hdry : cfg.cacheMax - s'.cacheIndex < maxFmt0HeaderSize
  · have hflush : flushIfDry cfg s' = .ok () { s' with
        written := s'.written ++ s'.iovs.flatMap (Iovec.bytes s'.cache), iovs := [],
        cacheIndex := 0 } := by
      rw [flushIfDry, if_pos hdry, Prog.bind_ok (doIovsSend_run hiov s')]
      rfl
    refine ⟨s', _, hcollect, hflush, ?_⟩
    exact {
      out_eq := by simpa using hout
      below := by simp
      room := by simpa using hcache
      even_iovs := by simp
      even_nbOutIovs := hevenNb
      iovs_room := by
        show 0 + 2 ≤ s'.nbOutIovs
        omega }
  · have hroom : s'.cacheIndex + maxFmt0HeaderSize ≤ cfg.cacheMax := by
      unfold maxFmt0HeaderSize at *
      omega
    exact ⟨s', s', hcollect, if_neg hdry, hout, hbelow, hroom, heven, hevenNb, hiovs⟩

theorem Pending.sendChunks (hcache : maxFmt0HeaderSize ≤ cfg.cacheMax) (hiov : 0 < cfg.iovMax)
    (hc : 0 < cfg.outChunkSize) (m : SharedPtrMessage) (fuel : ℕ) (p : List UInt8)
    (hfuel : p.length < fuel) (h : Pending cfg s out) :
    ∃ s', Protocol.sendChunks cfg m fuel p s = .ok () s' ∧
      Pending cfg s' (out ++ chunks cfg.outChunkSize m p) := by
  induction fuel generalizing p s out with
  | zero => omega
  | succ fuel ih =>
    by_cases hp : p = []
    · refine ⟨s, by rw [Protocol.sendChunks, if_pos hp]; rfl, ?_⟩
      rw [hp, chunks_nil, List.append_nil]
      exact h
    · have hpos : 0 < p.length := List.length_pos_of_ne_nil hp
      obtain ⟨s', s'', hcollect, hflush, hpending⟩ := h.round hcache hiov m p
      have hdrop : p.drop (min cfg.outChunkSize p.length) = p.drop cfg.outChunkSize := by
        rw [List.drop_eq_drop_iff]
        omega
      obtain ⟨s₃, hrest, hpending'⟩ := ih (p.drop cfg.outChunkSize)
        (by rw [List.length_drop]; omega) hpending
      refine ⟨s₃, ?_, ?_⟩
      · rw [Protocol.sendChunks, if_neg hp, Prog.bind_ok hcollect, Prog.bind_ok hflush, hdrop,
          hrest]
      · rw [chunks_of_ne_nil hc m hp]
        simpa only [List.append_assoc] using hpending'

theorem Pending.sendLoop (hcache : maxFmt0HeaderSize ≤ cfg.cacheMax) (hiov : 0 < cfg.iovMax)
    (hc : 0 < cfg.outChunkSize) (msgs : List (Option SharedPtrMessage)) (h : Pending cfg s out) :
    ∃ s', Protocol.sendLoop cfg msgs s = .ok () s' ∧
      Pending cfg s' (out ++ chunkStream cfg.outChunkSize msgs.reduceOption) := by
  induction msgs generalizing s out with
  | nil => exact ⟨s, rfl, by simpa [chunkStream, List.reduceOption] using h⟩
  | cons msg msgs ih =>
    cases msg with
    | none => exact ih h
    | some m =>
      rw [Protocol.sendLoop, List.reduceOption_cons_of_some]
      by_cases hp : m.payload = []
      · rw [if_pos hp]
        simpa [chunkStream, hp] using ih h
      · obtain ⟨s', hsend, hpending⟩ :=
          Pending.sendChunks hcache hiov hc m _ _ (Nat.lt_succ_self _) h
        obtain ⟨s'', hrest, hpending'⟩ := ih hpending
        refine ⟨s'', by rw [if_neg hp, Prog.bind_ok hsend, hrest], ?_⟩
        simpa only [chunkStream, List.flatMap_cons, List.append_assoc] using hpending'

end Sending

/-- The send loop writes the chunk stream of the messages, whatever the size of the cache and of
the iovecs. -/
theorem doSendMessages_from {cfg : SendConfig} (hcache : maxFmt0HeaderSize ≤ cfg.cacheMax)
    (hiov : 0 < cfg.iovMax) (hc : 0 < cfg.outChunkSize)
    (msgs : List (Option SharedPtrMessage)) {s : Sender} (heven : Even s.nbOutIovs)
    (hroom : 2 ≤ s.nbOutIovs) :
    ∃ s', doSendMessages cfg msgs s = .ok () s' ∧
      s'.written = s.written ++ chunkStream cfg.outChunkSize msgs.reduceOption ∧
      Even s'.nbOutIovs ∧ 2 ≤ s'.nbOutIovs := by
  have hstart : Pending cfg { s with iovs := [], cacheIndex := 0 } s.written := {
    out_eq := List.append_nil _
    below := by simp
    room := by simpa using hcache
    even_iovs := by simp
    even_nbOutIovs := heven
    iovs_room := hroom }
  obtain ⟨s', hloop, hpending⟩ := hstart.sendLoop hcache hiov hc msgs
  have hout := hpending.out_eq
  have hroom' : 2 ≤ s'.nbOutIovs := le_trans (Nat.le_add_left 2 _) hpending.iovs_room
  unfold doSendMessages
  have hreset : resetIovs s = .ok () { s with iovs := [], cacheIndex := 0 } := rfl
  rw [Prog.bind_ok hreset, Prog.bind_ok hloop, Prog.bind_ok (Prog.read_apply _ _)]
  by_cases hiovs : s'.iovs.isEmpty = true
  · refine ⟨s', by rw [if_pos hiovs]; rfl, ?_, hpending.even_nbOutIovs, hroom'⟩
    rw [List.isEmpty_iff.mp hiovs, List.flatMap_nil, List.append_nil] at hout
    exact hout
  · refine ⟨_, by rw [if_neg hiovs]; exact doIovsSend_run hiov s', ?_⟩
    exact ⟨hout, hpending.even_nbOutIovs, hroom'⟩

theorem doSendMessages_run {cfg : SendConfig} (hcache : maxFmt0HeaderSize ≤ cfg.cacheMax)
    (hiov : 0 < cfg.iovMax) (hc : 0 < cfg.outChunkSize)
    (msgs : List (Option SharedPtrMessage)) :
    ∃ s, doSendMessages cfg msgs Sender.new = .ok () s ∧
      s.written = chunkStream cfg.outChunkSize msgs.reduceOption := by
  obtain ⟨s, hsend, hwritten, -⟩ := doSendMessages_from hcache hiov hc msgs (s := .new)
    (by decide) (by decide)
  exact ⟨s, hsend, hwritten⟩

end SrsChatRoom.Protocol
