import SrsChatRoom.Protocol.HttpReader

/-!
# The HTTP body from the writer to the reader

* `roundTrip_length` - with a content length below 2 GiB the body comes through;
* `roundTrip_chunked` - so it does in chunks, if each call is one chunk or nothing;
* `fine_of_roundTrip` - a `writev` of empty buffers is the last chunk for the reader;
* `body_round_trip` - all together.
-/

namespace SrsChatRoom.Protocol.HttpBody

open Kernel Hex SrsHttpMessageWriter

/-- The body goes out, and comes in: all of it, then the end, with the next message behind it. -/
def RoundTrip (w : SrsHttpMessageWriter) (calls : List WriteCall) : Prop :=
  ∃ w', writeBody calls w = .ok () w' ∧
    ∀ (next : List UInt8) (input : Input),
      input.inBuffer.nbBuffer = FastStream.defaultRecvBufferSize →
      input.unread = w'.out ++ next → ∀ f : ℕ → ℕ, (∀ i, 0 < f i) →
      ∃ n r', readAll ⟨w'.contentLength = -1, w'.contentLength⟩ (sizes f n) (.new input) =
          .ok (bodyOf calls) r' ∧ r'.isEof = true ∧ r'.input.unread = next

/-- Some bytes on the way, with nothing in the buffer. -/
def onTheWay (bytes : List UInt8) : Input where
  inBuffer := .new FastStream.defaultRecvBufferSize
  skt :=
    ⟨if bytes = [] then [] else [bytes], by
      intro s hs
      split at hs
      · cases hs
      · rename_i hne
        rwa [List.mem_singleton.mp hs]⟩

theorem unread_onTheWay (bytes : List UInt8) : (onTheWay bytes).unread = bytes := by
  unfold Input.unread onTheWay Socket.bytes
  by_cases hne : bytes = []
  · simp [hne, FastStream.new, FastStream.unread]
  · simp [hne, FastStream.new, FastStream.unread]

section

variable {w : SrsHttpMessageWriter} {calls : List WriteCall}

/-! ## With a content length -/

theorem roundTrip_length {length : ℕ} (hw : w.Settled) (hlength : w.declared = length)
    (hwritten : w.written = 0) (hout : w.out = []) (hfits : (bodyOf calls).length = length)
    (hsmall : length < 2 ^ 31) : RoundTrip w calls := by
  obtain ⟨w', hrun, hcontent, hout'⟩ := writeBody_length hw hlength hsmall hwritten hout hfits
  refine ⟨w', hrun, ?_⟩
  intro next input hnb hunread f hf
  apply readAll_length _ hcontent hsmall hf rfl _ _ hnb
  · simp only [hcontent, decide_eq_false_iff_not]
    omega
  · simpa [SrsHttpResponseReader.new] using hfits
  · rw [← hout']
    exact hunread

theorem sizes_one (n : ℕ) : sizes (fun _ => 1) n = List.replicate n 1 := by
  simp [sizes, List.map_const']

theorem lt_of_roundTrip_length {length : ℕ} (hw : w.Settled) (hlength : w.declared = length)
    (hfits : (bodyOf calls).length = length) (h : RoundTrip w calls) : length < 2 ^ 31 := by
  obtain ⟨w', hrun, hread⟩ := h
  have hcontent : w'.contentLength = length := (contentLength_of_writeBody hw hrun).trans hlength
  obtain ⟨n, r', hall, _, _⟩ := hread [] (onTheWay w'.out) rfl
    (by rw [unread_onTheWay, List.append_nil]) (fun _ => 1) fun _ => Nat.one_pos
  rw [sizes_one] at hall
  have howner : (Owner.mk (w'.contentLength = -1) w'.contentLength).chunked = false := by
    simp only [hcontent, decide_eq_false_iff_not]
    omega
  have hlt := length_readAll_lt howner hcontent hall (Nat.two_pow_pos 31) fun _ => .inl rfl
  rw [← hfits]
  exact lt_of_le_of_lt (Nat.le_add_left _ _) hlt

/-! ## In chunks -/

/-- The chunks of some calls. -/
def chunksOf (calls : List WriteCall) : List (List UInt8) :=
  (calls.map fun call => call.buffers.flatten).filter (· ≠ [])

theorem flatMap_frame (h : ∀ call ∈ calls, Fine call) :
    calls.flatMap frame = (chunksOf calls).flatMap chunk := by
  induction calls with
  | nil => rfl
  | cons call calls ih =>
    have hrest := ih fun c hc => h c (List.mem_cons_of_mem _ hc)
    rw [List.flatMap_cons, hrest, frame_of_fine (h call List.mem_cons_self)]
    by_cases hempty : call.buffers.flatten = []
    · simp [chunksOf, hempty]
    · simp [chunksOf, hempty]

theorem flatten_chunksOf (calls : List WriteCall) : (chunksOf calls).flatten = bodyOf calls := by
  induction calls with
  | nil => rfl
  | cons call calls ih =>
    rw [bodyOf_cons, ← ih]
    by_cases hempty : call.buffers.flatten = []
    · simp [chunksOf, hempty]
    · simp [chunksOf, hempty]

theorem chunksOf_small (h : ∀ call ∈ calls, Fine call) :
    ∀ c ∈ chunksOf calls, c ≠ [] ∧ c.length < 2 ^ 31 := by
  intro c hc
  obtain ⟨hmem, hne⟩ := List.mem_filter.mp hc
  obtain ⟨call, hcall, rfl⟩ := List.mem_map.mp hmem
  refine ⟨of_decide_eq_true hne, ?_⟩
  cases call with
  | write data fits => simpa [WriteCall.buffers] using fits
  | writev iov =>
    rcases h _ hcall with rfl | ⟨_, hlt⟩
    · simp [WriteCall.buffers]
    · exact hlt

/-- The reader in front of the first chunk. -/
theorem inChunk_new {input : Input} {s : List UInt8}
    (hnb : input.inBuffer.nbBuffer = FastStream.defaultRecvBufferSize) (hunread : input.unread = s) :
    InChunk (.new input) [] s :=
  ⟨rfl, rfl, fun h => absurd rfl h, hunread, hnb⟩

theorem roundTrip_chunked (hw : Chunked w) (hout : w.out = []) (h : ∀ call ∈ calls, Fine call) :
    RoundTrip w calls := by
  obtain ⟨w', hrun⟩ := exists_writeBody_of_fine hw h
  obtain ⟨hcontent, hout'⟩ := out_of_writeBody hw hrun
  refine ⟨w', hrun, ?_⟩
  intro next input hnb hunread f hf
  rw [hout', hout, List.nil_append, flatMap_frame h, List.append_assoc] at hunread
  have howner : (Owner.mk (w'.contentLength = -1) w'.contentLength).chunked = true := by
    simp [hcontent]
  obtain ⟨n, r₁, hchunks, hr₁⟩ := readAll_chunks howner hf (chunksOf_small h) (inChunk_new hnb hunread)
  obtain ⟨r', hlast, heof, hnext⟩ := read_lastChunk (f n) howner hr₁
  refine ⟨n + 1, r', ?_, heof, hnext⟩
  have hall := readAll_append hchunks (readAll_singleton hlast)
  rw [List.append_nil, flatten_chunksOf] at hall
  rw [sizes_add]
  exact hall

/-- The first call that is not fine. -/
theorem exists_first_not_fine (h : ¬ ∀ call ∈ calls, Fine call) :
    ∃ before call behind, calls = before ++ call :: behind ∧ (∀ c ∈ before, Fine c) ∧
      ¬ Fine call := by
  induction calls with
  | nil => exact absurd nofun h
  | cons call calls ih =>
    by_cases hcall : Fine call
    · have hrest : ¬ ∀ c ∈ calls, Fine c := by
        intro hall
        exact h (List.forall_mem_cons.mpr ⟨hcall, hall⟩)
      obtain ⟨before, bad, behind, rfl, hbefore, hbad⟩ := ih hrest
      exact ⟨call :: before, bad, behind, rfl, List.forall_mem_cons.mpr ⟨hcall, hbefore⟩, hbad⟩
    · exact ⟨[], call, calls, rfl, nofun, hcall⟩

theorem readAll_append_inv {owner : Owner} {l₁ l₂ : List ℕ} {r r' : SrsHttpResponseReader}
    {d : List UInt8} (h : readAll owner (l₁ ++ l₂) r = .ok d r') :
    ∃ d₁ r₁ d₂, readAll owner l₁ r = .ok d₁ r₁ ∧ readAll owner l₂ r₁ = .ok d₂ r' := by
  induction l₁ generalizing r d with
  | nil => exact ⟨[], r, d, rfl, h⟩
  | cons nbData l₁ ih =>
    obtain ⟨d₀, r₀, hread, hrest⟩ := Prog.ok_of_bind_ok h
    obtain ⟨d', r₂, hmore, hend⟩ := Prog.ok_of_bind_ok hrest
    cases hend
    obtain ⟨d₁, r₁, d₂, h₁, h₂⟩ := ih hmore
    refine ⟨d₀ ++ d₁, r₁, d₂, ?_, h₂⟩
    rw [readAll, Prog.bind_ok hread, Prog.bind_ok h₁]
    rfl

/-- What comes through in chunks has been written in calls of one chunk each, or in calls of 4 GiB. -/
theorem fine_of_roundTrip (hw : Chunked w) (hout : w.out = []) (h : RoundTrip w calls) :
    (∀ call ∈ calls, Fine call) ∨ ∃ call ∈ calls, 2 ^ 32 - 1 ≤ call.buffers.flatten.length := by
  by_contra hcontra
  obtain ⟨hnot, hsmall⟩ := not_or.mp hcontra
  obtain ⟨before, call, behind, rfl, hbefore, hcall⟩ := exists_first_not_fine hnot
  obtain ⟨w', hrun, hread⟩ := h
  obtain ⟨hcontent, hout'⟩ := out_of_writeBody hw hrun
  have howner : (Owner.mk (w'.contentLength = -1) w'.contentLength).chunked = true := by
    simp [hcontent]
  cases call with
  | write data fits => exact hcall trivial
  | writev iov =>
    have hiov : iov ≠ [] := fun hnil => hcall (.inl hnil)
    have hlt : iov.flatten.length < 2 ^ 32 := by
      by_contra hge
      exact hsmall ⟨_, List.mem_append_right _ List.mem_cons_self, by
        rw [WriteCall.buffers]
        omega⟩
    -- up to this call all is read
    have hunread : w'.out = (chunksOf before).flatMap chunk ++ (showHex iov.flatten.length ++
        (crlf ++ ((iov.flatMap fun data => data.take (toInt data.length).toNat) ++
          (crlf ++ (behind.flatMap frame ++ lastChunk))))) := by
      rw [hout', hout, List.flatMap_append, List.flatMap_cons, flatMap_frame hbefore, frame,
        if_neg hiov, Nat.mod_eq_of_lt hlt]
      simp only [List.nil_append, List.append_assoc]
    obtain ⟨n₀, r₀, hchunks, hr₀⟩ := readAll_chunks howner (fun _ => Nat.one_pos)
      (chunksOf_small hbefore) (inChunk_new rfl ((unread_onTheWay w'.out).trans hunread))
    obtain ⟨n, r', hall, heof, hnext⟩ := hread [] (onTheWay w'.out) rfl
      (by rw [unread_onTheWay, List.append_nil]) (fun _ => 1) fun _ => Nat.one_pos
    by_cases hn : n ≤ n₀
    · -- the body cannot have ended before
      obtain ⟨m, rfl⟩ := Nat.exists_eq_add_of_le hn
      rw [sizes_add] at hchunks
      obtain ⟨d₁, r₁, d₂, h₁, h₂⟩ := readAll_append_inv hchunks
      rw [hall] at h₁
      cases h₁
      have hnil := readAll_of_eof heof h₂
      rw [hnil] at h₂
      cases h₂
      rw [hr₀.eof] at heof
      cases heof
    · obtain ⟨m, rfl⟩ := Nat.exists_eq_add_of_lt (not_le.mp hn)
      rw [show n₀ + m + 1 = n₀ + (1 + m) by omega, sizes_add, sizes_add] at hall
      obtain ⟨d₁, r₁, d₂, h₁, h₂⟩ := readAll_append_inv hall
      rw [hchunks] at h₁
      cases h₁
      obtain ⟨d₃, r₃, d₄, h₃, h₄⟩ := readAll_append_inv h₂
      obtain ⟨d₅, r₅, hfirst, hend⟩ := Prog.ok_of_bind_ok h₃
      cases hend
      by_cases hzero : iov.flatten.length = 0
      · -- the chunk is the last one for the reader
        have hnil : (iov.flatMap fun data => data.take (toInt data.length).toNat) = [] := by
          rw [List.flatMap_eq_nil_iff]
          intro data hdata
          have hle := length_le_flatten hdata
          rw [List.length_eq_zero_iff.mp (show data.length = 0 by omega), List.take_nil]
        rw [hzero, hnil, List.nil_append] at hr₀
        obtain ⟨r₆, hlast, heof₆, hrest⟩ := read_lastChunk 1 howner
          (s := behind.flatMap frame ++ lastChunk) (by simpa [lastChunk] using hr₀)
        rw [hlast] at hfirst
        cases hfirst
        have hdone := readAll_of_eof heof₆ h₄
        rw [hdone] at h₄
        cases h₄
        rw [hrest] at hnext
        simp [lastChunk, crlf] at hnext
      · have hlarge : 2 ^ 31 ≤ iov.flatten.length := by
          by_contra hle
          exact hcall (.inr ⟨Nat.pos_of_ne_zero hzero, not_le.mp hle⟩)
        obtain ⟨e, r₆, herr⟩ := read_chunk_too_large 1 howner hlt hlarge hr₀
        rw [herr] at hfirst
        cases hfirst

/-! ## Without a content length in front of the first write -/

theorem write_undeclared (hw : w.headerWrote = false) (hlength : w.hdrContentLength = -1)
    (data : List UInt8) (size : ℤ) :
    write data size w = write data size { w with hdrContentLength := size } := by
  have hprepare : w.prepare size = { w with hdrContentLength := size }.prepare size := by
    unfold prepare writeHeader
    by_cases hsize : size = -1
    · simp [hw, hlength, hsize]
    · simp [hw, hlength, hsize]
  unfold write
  rw [hprepare]

/-- The size of the first buffer. -/
def firstSize : List WriteCall → Option ℤ
  | [] => none
  | call :: calls =>
    match call.buffers with
    | [] => firstSize calls
    | data :: _ => some (toInt data.length)

/-- The first write gives the header its content length. -/
theorem writeAll_undeclared (hw : w.headerWrote = false) (hlength : w.hdrContentLength = -1)
    {size : ℤ} (hfirst : firstSize calls = some size) :
    writeAll calls w = writeAll calls { w with hdrContentLength := size } := by
  induction calls with
  | nil => cases hfirst
  | cons call calls ih =>
    cases call with
    | write data fits =>
      have hsize : toInt data.length = size := Option.some.inj hfirst
      rw [toInt_of_lt fits] at hsize
      subst hsize
      have hrun := write_undeclared hw hlength data data.length
      have hcall : WriteCall.run (.write data fits) w =
          WriteCall.run (.write data fits) { w with hdrContentLength := data.length } := hrun
      rw [writeAll, Prog.bind_apply, Prog.bind_apply, hcall]
    | writev iov =>
      cases iov with
      | nil =>
        have hskip : ∀ v : SrsHttpMessageWriter, v.headerWrote = false →
            writeAll (.writev [] :: calls) v = writeAll calls v := by
          intro v hv
          have hrun : WriteCall.run (.writev []) v = .ok () v := by
            rw [WriteCall.run, writev, if_pos (.inl hv)]
            rfl
          rw [writeAll, Prog.bind_ok hrun]
        rw [hskip w hw, hskip { w with hdrContentLength := size } hw]
        exact ih hfirst
      | cons data iov =>
        have hsize : toInt data.length = size := Option.some.inj hfirst
        have hrun := write_undeclared hw hlength data size
        have heach : WriteCall.run (.writev (data :: iov)) w =
            WriteCall.run (.writev (data :: iov)) { w with hdrContentLength := size } := by
          rw [WriteCall.run, writev, writev, if_pos (.inl hw), if_pos (.inl hw), writeEach, hsize,
            Prog.bind_apply, Prog.bind_apply, hrun]
        rw [writeAll, Prog.bind_apply, Prog.bind_apply, heach]

/-- Without any buffer nothing happens before the end. -/
theorem writeAll_nothing (hw : w.headerWrote = false) (hfirst : firstSize calls = none) :
    writeAll calls w = .ok () w ∧ bodyOf calls = [] := by
  induction calls with
  | nil => exact ⟨rfl, rfl⟩
  | cons call calls ih =>
    cases call with
    | write data fits => cases hfirst
    | writev iov =>
      cases iov with
      | cons data iov => cases hfirst
      | nil =>
        obtain ⟨hrun, hbody⟩ := ih hfirst
        refine ⟨?_, by rw [bodyOf_cons, hbody]; rfl⟩
        have hskip : WriteCall.run (.writev []) w = .ok () w := by
          rw [WriteCall.run, writev, if_pos (.inl hw)]
          rfl
        rw [writeAll, Prog.bind_ok hskip, hrun]

end

/-! ## All together -/

/-- A writer in front of the first call: whether `write_header` has been called, and the content
length that has been set. -/
structure Start where
  headerWrote : Bool
  length : Option ℕ

/-- `SrsHttpMessageWriter()`, with the header as it is then. -/
def Start.writer (s : Start) : SrsHttpMessageWriter :=
  let length : ℤ := s.length.elim (-1) (↑)
  ⟨s.headerWrote, length, if s.headerWrote then length else -1, 0, false, []⟩

/-- The content length that goes into the header; -1 is chunked mode. -/
def declaredLength (s : Start) (calls : List WriteCall) : ℤ :=
  match s.length with
  | some n => n
  | none => if s.headerWrote then -1 else (firstSize calls).getD (-1)

/-- In chunked mode no `writev` has only empty buffers or 2 GiB, and a content length is less than
2 GiB. -/
def Good (s : Start) (calls : List WriteCall) : Prop :=
  if declaredLength s calls = -1 then ∀ call ∈ calls, Fine call else (bodyOf calls).length < 2 ^ 31

theorem large_of_toInt {n : ℕ} (h : toInt n = -1) : 2 ^ 32 - 1 ≤ n := by
  unfold toInt at h
  rw [Int.bmod_def] at h
  omega

variable {calls : List WriteCall}

/-- A first buffer whose size is -1 for the writer. -/
theorem exists_large (h : firstSize calls = some (-1)) :
    ∃ call ∈ calls, ¬ Fine call ∧ 2 ^ 32 - 1 ≤ call.buffers.flatten.length := by
  induction calls with
  | nil => cases h
  | cons call calls ih =>
    cases call with
    | write data fits =>
      have hsize : toInt data.length = -1 := Option.some.inj h
      have hlarge := large_of_toInt hsize
      omega
    | writev iov =>
      cases iov with
      | nil =>
        obtain ⟨call, hmem, hcall⟩ := ih h
        exact ⟨call, List.mem_cons_of_mem _ hmem, hcall⟩
      | cons data iov =>
        have hsize : toInt data.length = -1 := Option.some.inj h
        have hlarge := large_of_toInt hsize
        have hle : data.length ≤ (data :: iov).flatten.length :=
          length_le_flatten List.mem_cons_self
        refine ⟨_, List.mem_cons_self, ?_, ?_⟩
        · rintro (hnil | ⟨_, hlt⟩)
          · cases hnil
          · omega
        · rw [WriteCall.buffers]
          omega

theorem firstSize_lt {size : ℤ} (h : firstSize calls = some size) : size < 2 ^ 31 := by
  induction calls with
  | nil => cases h
  | cons call calls ih =>
    rw [firstSize] at h
    split at h
    · exact ih h
    · rename_i data _ _
      have hsize : toInt data.length = size := Option.some.inj h
      exact hsize ▸ toInt_lt data.length

theorem fine_of_firstSize (h : firstSize calls = none) : ∀ call ∈ calls, Fine call := by
  induction calls with
  | nil => exact nofun
  | cons call calls ih =>
    cases call with
    | write data fits => cases h
    | writev iov =>
      cases iov with
      | nil => exact List.forall_mem_cons.mpr ⟨.inl rfl, ih h⟩
      | cons data iov => cases h

/-- The round trip is one of what goes out. -/
theorem RoundTrip.congr {w v : SrsHttpMessageWriter} {calls' : List WriteCall}
    (h : RoundTrip v calls') (hrun : writeBody calls w = writeBody calls' v)
    (hbody : bodyOf calls = bodyOf calls') : RoundTrip w calls := by
  unfold RoundTrip
  rw [hrun, hbody]
  exact h

/-- What is written comes in if the start and the calls are good; where it comes in they are, or a
call has 4 GiB. -/
theorem body_round_trip (s : Start) (calls : List WriteCall)
    (hmode : declaredLength s calls = -1 ∨ declaredLength s calls = (bodyOf calls).length) :
    (Good s calls → RoundTrip s.writer calls) ∧
      (RoundTrip s.writer calls →
        Good s calls ∨ ∃ call ∈ calls, 2 ^ 32 - 1 ≤ call.buffers.flatten.length) := by
  obtain ⟨headerWrote, length⟩ := s
  cases length with
  | some n =>
    -- the content length has been set
    have hdeclared : declaredLength ⟨headerWrote, some n⟩ calls = n := rfl
    have hfits : (bodyOf calls).length = n := by
      rw [hdeclared] at hmode
      omega
    have hgood : Good ⟨headerWrote, some n⟩ calls ↔ n < 2 ^ 31 := by
      rw [Good, hdeclared, if_neg (by omega), hfits]
    have hsettled : (Start.writer ⟨headerWrote, some n⟩).Settled :=
      .inr (show (n : ℤ) ≠ -1 by omega)
    have hlength : (Start.writer ⟨headerWrote, some n⟩).declared = n := by
      cases headerWrote
      · rfl
      · rfl
    rw [hgood]
    exact ⟨fun hsmall => roundTrip_length hsettled hlength rfl rfl hfits hsmall,
      fun h => .inl (lt_of_roundTrip_length hsettled hlength hfits h)⟩
  | none =>
    cases headerWrote with
    | true =>
      -- chunked mode
      have hchunked : Chunked (Start.writer ⟨true, none⟩) := ⟨rfl, rfl⟩
      have hgood : Good ⟨true, none⟩ calls ↔ ∀ call ∈ calls, Fine call := by
        rw [Good, if_pos (show declaredLength ⟨true, none⟩ calls = -1 from rfl)]
      rw [hgood]
      exact ⟨roundTrip_chunked hchunked rfl, fine_of_roundTrip hchunked rfl⟩
    | false =>
      cases hfirst : firstSize calls with
      | none =>
        -- nothing is written, and the header is written at the end
        obtain ⟨hrun, hbody⟩ := writeAll_nothing (w := Start.writer ⟨false, none⟩) rfl hfirst
        have hchunked : Chunked (Start.writer ⟨true, none⟩) := ⟨rfl, rfl⟩
        have hempty : RoundTrip (Start.writer ⟨true, none⟩) [] :=
          roundTrip_chunked hchunked rfl nofun
        have hgood : Good ⟨false, none⟩ calls := by
          have hdeclared : declaredLength ⟨false, none⟩ calls = -1 := by
            rw [declaredLength, hfirst]
            rfl
          rw [Good, if_pos hdeclared]
          exact fine_of_firstSize hfirst
        have hround : RoundTrip (Start.writer ⟨false, none⟩) calls := by
          apply hempty.congr _ hbody
          rw [writeBody, Prog.bind_ok hrun]
          rfl
        exact ⟨fun _ => hround, fun _ => .inl hgood⟩
      | some size =>
        have hdeclared : declaredLength ⟨false, none⟩ calls = size := by
          rw [declaredLength, hfirst]
          rfl
        by_cases hsize : size = -1
        · obtain ⟨call, hmem, hcall, hlarge⟩ := exists_large (hsize ▸ hfirst)
          refine ⟨fun hgood => ?_, fun _ => .inr ⟨call, hmem, hlarge⟩⟩
          rw [Good, hdeclared, if_pos hsize] at hgood
          exact absurd (hgood call hmem) hcall
        · -- the first write sets the content length
          have hbody : size = (bodyOf calls).length :=
            (hdeclared ▸ hmode).resolve_left hsize
          have hlt := firstSize_lt hfirst
          have hsmall : (bodyOf calls).length < 2 ^ 31 := by omega
          have hgood : Good ⟨false, none⟩ calls := by
            rw [Good, hdeclared, if_neg hsize]
            exact hsmall
          have hset : RoundTrip (Start.writer ⟨false, some (bodyOf calls).length⟩) calls :=
            roundTrip_length
              (.inr (show ((bodyOf calls).length : ℤ) ≠ -1 by omega)) rfl rfl rfl rfl hsmall
          have hround : RoundTrip (Start.writer ⟨false, none⟩) calls := by
            apply hset.congr _ rfl
            have hrun := writeAll_undeclared (w := Start.writer ⟨false, none⟩) rfl rfl hfirst
            rw [writeBody, Prog.bind_apply, hrun, hbody]
            rfl
          exact ⟨fun _ => hround, fun _ => .inl hgood⟩

/-- Two writes of one byte, in chunked mode. -/
theorem two_bytes_come_in :
    RoundTrip (Start.writer ⟨true, none⟩) [.write [97] (by decide), .writev [[98], []]] := by
  apply (body_round_trip ⟨true, none⟩ _ (.inl rfl)).1
  have hdeclared (calls : List WriteCall) : declaredLength ⟨true, none⟩ calls = -1 := rfl
  rw [Good, if_pos (hdeclared _)]
  intro call hcall
  simp only [List.mem_cons, List.not_mem_nil, or_false] at hcall
  rcases hcall with rfl | rfl
  · exact trivial
  · exact .inr (by decide)

/-- A `writev` of one empty buffer between them ends the body. -/
theorem empty_writev_ends_body :
    declaredLength ⟨true, none⟩ [.write [97] (by decide), .writev [[]], .write [98] (by decide)] =
        -1 ∧
      ¬ RoundTrip (Start.writer ⟨true, none⟩)
        [.write [97] (by decide), .writev [[]], .write [98] (by decide)] := by
  refine ⟨rfl, fun h => ?_⟩
  rcases fine_of_roundTrip ⟨rfl, rfl⟩ rfl h with hfine | ⟨call, hcall, hlarge⟩
  · rcases hfine (.writev [[]]) (by simp) with hnil | ⟨hpos, _⟩
    · cases hnil
    · exact absurd hpos (by decide)
  · simp only [List.mem_cons, List.not_mem_nil, or_false] at hcall
    rcases hcall with rfl | rfl | rfl
    · exact absurd hlarge (by decide)
    · exact absurd hlarge (by decide)
    · exact absurd hlarge (by decide)

end SrsChatRoom.Protocol.HttpBody
