import SrsChatRoom.Lib.Hex
import SrsChatRoom.Lib.Outcome
import SrsChatRoom.Kernel.Buffer

/-!
# Writing an HTTP body (`SrsHttpMessageWriter`)

With a content length the bytes go out as they are, without one each write is a chunk. A write
without bytes is left out, except for a `writev` in chunked mode.

* `write_length` - a write with a content length;
* `out_of_writeAll` - what goes out in chunked mode.
-/

namespace SrsChatRoom.Protocol.HttpBody

open Kernel Hex

/-! ## Code -/

/-- The error codes of the writer and of the reader. -/
inductive HttpError
  | contentLength
  | socketWrite
  | invalidChunkHeader
  | responseEof
  | input (e : SrsError)

/-- `SRS_HTTP_CRLF` -/
def crlf : List UInt8 := [13, 10]

/-- `(int)` -/
def toInt (n : ℤ) : ℤ := Int.bmod n (2 ^ 32)

/-- `SrsHttpMessageWriter`, with the content length of the header, which is -1 without one. `out` is
what has gone out behind the header. -/
structure SrsHttpMessageWriter where
  headerWrote : Bool
  hdrContentLength : ℤ
  contentLength : ℤ
  written : ℤ
  headerSent : Bool
  out : List UInt8

/-- A program of the writer. -/
abbrev OnWriter := Prog SrsHttpMessageWriter HttpError

namespace SrsHttpMessageWriter

/-- `write_header` -/
def writeHeader (w : SrsHttpMessageWriter) : SrsHttpMessageWriter :=
  if w.headerWrote then w
  else { w with headerWrote := true, contentLength := w.hdrContentLength }

/-- `send_header` -/
def sendHeader (w : SrsHttpMessageWriter) : SrsHttpMessageWriter := { w with headerSent := true }

/-- `write(data, size)` in front of `send_header`. -/
def prepare (w : SrsHttpMessageWriter) (size : ℤ) : SrsHttpMessageWriter :=
  if w.headerWrote then w
  else if w.hdrContentLength = -1 then { w with hdrContentLength := size }.writeHeader
  else w.writeHeader

end SrsHttpMessageWriter

/-- `snprintf("%x")` into the header cache. -/
def chunkHeader (size : ℕ) : Option (List UInt8) :=
  if (showHex size).length = 0 ∨ 64 ≤ (showHex size).length then none
  else some (showHex size)

/-- `write(data, size)` -/
def write (data : List UInt8) (size : ℤ) : OnWriter Unit := fun w =>
  let w := (w.prepare size).sendHeader
  let w := { w with written := w.written + size }
  if w.contentLength ≠ -1 ∧ w.contentLength < w.written then .err .contentLength w
  else if size ≤ 0 then .ok () w
  else if w.contentLength ≠ -1 then .ok () { w with out := w.out ++ data.take size.toNat }
  else match chunkHeader size.toNat with
    | none => .err .contentLength w
    | some header =>
      .ok () { w with out := w.out ++ (header ++ crlf ++ data.take size.toNat ++ crlf) }

/-- The loop of `writev` that sends one by one. -/
def writeEach : List (List UInt8) → OnWriter Unit
  | [] => pure ()
  | data :: iov => do
    write data (toInt data.length)
    writeEach iov

/-- The loop of `writev` that adds up the sizes, in an `int`. -/
def sizeOf (iov : List (List UInt8)) : ℤ := iov.foldl (fun size data => toInt (size + data.length)) 0

/-- `writev(iov, iovcnt)`. A length that is negative as an `int` is too large for the socket. -/
def writev (iov : List (List UInt8)) : OnWriter Unit := fun w =>
  if w.headerWrote = false ∨ w.contentLength ≠ -1 then writeEach iov w
  else if iov = [] then .ok () w
  else
    let w := w.sendHeader
    let size := sizeOf iov
    let w := { w with written := w.written + size }
    match chunkHeader (size % 2 ^ 32).toNat with
    | none => .err .contentLength w
    | some header =>
      if iov.any fun data => toInt data.length < 0 then .err .socketWrite w
      else
        let body := iov.flatMap fun data => data.take (toInt data.length).toNat
        .ok () { w with out := w.out ++ (header ++ crlf ++ body ++ crlf) }

/-- `final_request` -/
def finalRequest : OnWriter Unit := fun w =>
  let w := w.writeHeader.sendHeader
  if w.contentLength = -1 then .ok () { w with out := w.out ++ (showHex 0 ++ crlf ++ crlf) }
  else write [] 0 w

/-- A call of the writer; the size of a `write` is an `int`. -/
inductive WriteCall
  | write (data : List UInt8) (fits : data.length < 2 ^ 31)
  | writev (iov : List (List UInt8))

/-- The buffers of a call. -/
def WriteCall.buffers : WriteCall → List (List UInt8)
  | .write data _ => [data]
  | .writev iov => iov

def WriteCall.run : WriteCall → OnWriter Unit
  | .write data _ => HttpBody.write data data.length
  | .writev iov => HttpBody.writev iov

/-- All calls. -/
def writeAll : List WriteCall → OnWriter Unit
  | [] => pure ()
  | call :: calls => do
    call.run
    writeAll calls

/-- The calls, and the end of the body. -/
def writeBody (calls : List WriteCall) : OnWriter Unit := do
  writeAll calls
  finalRequest

/-! ## With a content length -/

theorem toInt_of_lt {n : ℕ} (h : n < 2 ^ 31) : toInt n = n := by
  unfold toInt
  rw [Int.bmod_def]
  omega

theorem toInt_lt (n : ℤ) : toInt n < 2 ^ 31 := by
  have h := @Int.bmod_lt n (2 ^ 32) (by decide)
  unfold toInt
  omega

/-- All that the calls write. -/
def bodyOf (calls : List WriteCall) : List UInt8 := (calls.flatMap WriteCall.buffers).flatten

theorem bodyOf_cons (call : WriteCall) (calls : List WriteCall) :
    bodyOf (call :: calls) = call.buffers.flatten ++ bodyOf calls := by
  simp [bodyOf]

namespace SrsHttpMessageWriter

/-- The content length, once the header is written. -/
def declared (w : SrsHttpMessageWriter) : ℤ := w.writeHeader.contentLength

theorem headerWrote_writeHeader (w : SrsHttpMessageWriter) : w.writeHeader.headerWrote = true := by
  unfold writeHeader
  split
  · assumption
  · rfl

theorem writeHeader_of_headerWrote {w : SrsHttpMessageWriter} (h : w.headerWrote = true) :
    w.writeHeader = w := if_pos h

theorem declared_of_headerWrote {w : SrsHttpMessageWriter} (h : w.headerWrote = true) :
    w.declared = w.contentLength := by
  rw [declared, writeHeader_of_headerWrote h]

@[simp] theorem out_writeHeader (w : SrsHttpMessageWriter) : w.writeHeader.out = w.out := by
  unfold writeHeader
  split
  · rfl
  · rfl

@[simp] theorem written_writeHeader (w : SrsHttpMessageWriter) :
    w.writeHeader.written = w.written := by
  unfold writeHeader
  split
  · rfl
  · rfl

/-- The content length is there, or will be there once the header is written. -/
def Settled (w : SrsHttpMessageWriter) : Prop := w.headerWrote = true ∨ w.hdrContentLength ≠ -1

theorem prepare_of_settled {w : SrsHttpMessageWriter} (h : w.Settled) (size : ℤ) :
    w.prepare size = w.writeHeader := by
  unfold prepare
  by_cases hwrote : w.headerWrote = true
  · rw [if_pos hwrote, writeHeader_of_headerWrote hwrote]
  · rw [if_neg hwrote, if_neg (h.resolve_left hwrote)]

end SrsHttpMessageWriter

open SrsHttpMessageWriter

section Length

variable {w : SrsHttpMessageWriter} {length : ℕ}

/-- What a call leaves that has written some bytes behind a header with a content length. -/
structure Wrote (length : ℕ) (w : SrsHttpMessageWriter) (data : List UInt8)
    (w' : SrsHttpMessageWriter) : Prop where
  settled : w'.Settled
  declared : w'.declared = length
  written : w'.written = w.written + data.length
  out : w'.out = w.out ++ data

theorem Wrote.trans {w' w'' : SrsHttpMessageWriter} {data more : List UInt8}
    (h : Wrote length w data w') (h' : Wrote length w' more w'') :
    Wrote length w (data ++ more) w'' := by
  refine ⟨h'.settled, h'.declared, ?_, ?_⟩
  · rw [h'.written, h.written, List.length_append]
    push_cast
    ring
  · rw [h'.out, h.out, List.append_assoc]

/-- A write as far as the content length goes. -/
theorem write_length (hw : w.Settled) (hlength : w.declared = length) {data : List UInt8}
    (hfits : w.written + data.length ≤ length) :
    ∃ w', write data data.length w = .ok () w' ∧ Wrote length w data w' := by
  have hcontent : w.writeHeader.contentLength = length := hlength
  have hwrote := w.headerWrote_writeHeader
  unfold write
  simp only [prepare_of_settled hw, sendHeader, hcontent, written_writeHeader, out_writeHeader,
    Int.toNat_natCast, List.take_length]
  rw [if_neg (by omega)]
  by_cases hdata : (data.length : ℤ) ≤ 0
  · have hnil : data = [] := List.length_eq_zero_iff.mp (by omega)
    rw [if_pos hdata]
    refine ⟨_, rfl, .inl hwrote, declared_of_headerWrote hwrote, rfl, ?_⟩
    rw [hnil, List.append_nil]
  · rw [if_neg hdata, if_pos (by omega)]
    exact ⟨_, rfl, .inl hwrote, declared_of_headerWrote hwrote, rfl, rfl⟩

theorem writeEach_length (iov : List (List UInt8)) (hw : w.Settled)
    (hlength : w.declared = length) (hsmall : length < 2 ^ 31) (hwritten : 0 ≤ w.written)
    (hfits : w.written + iov.flatten.length ≤ length) :
    ∃ w', writeEach iov w = .ok () w' ∧ Wrote length w iov.flatten w' := by
  induction iov generalizing w with
  | nil => exact ⟨w, rfl, hw, hlength, by simp, by simp⟩
  | cons data iov ih =>
    rw [List.flatten_cons, List.length_append] at hfits
    push_cast at hfits
    obtain ⟨w₁, hwrite, hw₁⟩ := @write_length w length hw hlength data (by omega)
    have hwritten₁ := hw₁.written
    obtain ⟨w', hrest, hw'⟩ := ih hw₁.settled hw₁.declared (by omega) (by omega)
    refine ⟨w', ?_, hw₁.trans hw'⟩
    rw [writeEach, toInt_of_lt (by omega), Prog.bind_ok hwrite]
    exact hrest

theorem run_length (call : WriteCall) (hw : w.Settled) (hlength : w.declared = length)
    (hsmall : length < 2 ^ 31) (hwritten : 0 ≤ w.written)
    (hfits : w.written + call.buffers.flatten.length ≤ length) :
    ∃ w', call.run w = .ok () w' ∧ Wrote length w call.buffers.flatten w' := by
  cases call with
  | write data fits =>
    rw [WriteCall.buffers, List.flatten_singleton] at hfits ⊢
    exact write_length hw hlength hfits
  | writev iov =>
    have hbranch : w.headerWrote = false ∨ w.contentLength ≠ -1 := by
      by_cases hwrote : w.headerWrote = true
      · rw [declared_of_headerWrote hwrote] at hlength
        exact .inr (by omega)
      · exact .inl (Bool.not_eq_true _ ▸ hwrote)
    rw [WriteCall.run, writev, if_pos hbranch]
    exact writeEach_length iov hw hlength hsmall hwritten hfits

theorem writeAll_length (calls : List WriteCall) (hw : w.Settled) (hlength : w.declared = length)
    (hsmall : length < 2 ^ 31) (hwritten : 0 ≤ w.written)
    (hfits : w.written + (bodyOf calls).length ≤ length) :
    ∃ w', writeAll calls w = .ok () w' ∧ Wrote length w (bodyOf calls) w' := by
  induction calls generalizing w with
  | nil => exact ⟨w, rfl, hw, hlength, by simp [bodyOf], by simp [bodyOf]⟩
  | cons call calls ih =>
    rw [bodyOf_cons, List.length_append] at hfits
    push_cast at hfits
    obtain ⟨w₁, hrun, hw₁⟩ := run_length call hw hlength hsmall hwritten (by omega)
    have hwritten₁ := hw₁.written
    obtain ⟨w', hrest, hw'⟩ := ih hw₁.settled hw₁.declared (by omega) (by omega)
    refine ⟨w', ?_, bodyOf_cons call calls ▸ hw₁.trans hw'⟩
    rw [writeAll, Prog.bind_ok hrun]
    exact hrest

/-- With the right content length the body is what has been written. -/
theorem writeBody_length {calls : List WriteCall} (hw : w.Settled) (hlength : w.declared = length)
    (hsmall : length < 2 ^ 31) (hwritten : w.written = 0) (hout : w.out = [])
    (hfits : (bodyOf calls).length = length) :
    ∃ w', writeBody calls w = .ok () w' ∧ w'.contentLength = length ∧ w'.out = bodyOf calls := by
  obtain ⟨w₁, hrun, hw₁⟩ := writeAll_length calls hw hlength hsmall hwritten.ge (by omega)
  have hlength₁ : w₁.writeHeader.contentLength = length := hw₁.declared
  have hwrote := w₁.headerWrote_writeHeader
  refine ⟨w₁.writeHeader.sendHeader, ?_, hlength₁, ?_⟩
  · rw [writeBody, Prog.bind_ok hrun, finalRequest]
    simp only [sendHeader, hlength₁]
    rw [if_neg (by omega), write]
    have hover : ¬ (length : ℤ) < w₁.written := by
      have hwritten₁ := hw₁.written
      omega
    simp [prepare, hwrote, sendHeader, hover]
  · rw [show w₁.writeHeader.sendHeader.out = w₁.out from w₁.out_writeHeader, hw₁.out, hout,
      List.nil_append]

end Length

/-! ## The content length is kept -/

variable {w w' : SrsHttpMessageWriter}

theorem declared_write {data : List UInt8} {size : ℤ}
    (hw : w.Settled) (h : write data size w = .ok () w') :
    w'.headerWrote = true ∧ w'.declared = w.declared := by
  have hwrote := w.headerWrote_writeHeader
  unfold write at h
  simp only [prepare_of_settled hw, sendHeader] at h
  split at h
  · cases h
  · split at h
    · cases h
      exact ⟨hwrote, declared_of_headerWrote hwrote⟩
    · split at h
      · cases h
        exact ⟨hwrote, declared_of_headerWrote hwrote⟩
      · split at h
        · cases h
        · cases h
          exact ⟨hwrote, declared_of_headerWrote hwrote⟩

theorem declared_writeEach {iov : List (List UInt8)}
    (hw : w.Settled) (h : writeEach iov w = .ok () w') :
    w'.Settled ∧ w'.declared = w.declared := by
  induction iov generalizing w with
  | nil =>
    cases h
    exact ⟨hw, rfl⟩
  | cons data iov ih =>
    obtain ⟨_, w₁, hwrite, hrest⟩ := Prog.ok_of_bind_ok h
    obtain ⟨hw₁, hdeclared⟩ := declared_write hw hwrite
    obtain ⟨hw', hrest⟩ := ih (.inl hw₁) hrest
    exact ⟨hw', hrest.trans hdeclared⟩

theorem declared_run {call : WriteCall} (hw : w.Settled)
    (h : call.run w = .ok () w') : w'.Settled ∧ w'.declared = w.declared := by
  cases call with
  | write data fits =>
    obtain ⟨hw', hdeclared⟩ := declared_write hw h
    exact ⟨.inl hw', hdeclared⟩
  | writev iov =>
    rw [WriteCall.run, writev] at h
    split at h
    · exact declared_writeEach hw h
    · rename_i hbranch
      have hwrote : w.headerWrote = true := by simpa using fun h' => hbranch (.inl h')
      split at h
      · cases h
        exact ⟨hw, rfl⟩
      · dsimp only at h
        split at h
        · cases h
        · split at h
          · cases h
          · cases h
            exact ⟨.inl hwrote, by
              rw [declared_of_headerWrote hwrote]
              exact declared_of_headerWrote hwrote⟩

variable {calls : List WriteCall}

theorem declared_writeAll (hw : w.Settled) (h : writeAll calls w = .ok () w') :
    w'.Settled ∧ w'.declared = w.declared := by
  induction calls generalizing w with
  | nil =>
    cases h
    exact ⟨hw, rfl⟩
  | cons call calls ih =>
    obtain ⟨_, w₁, hrun, hrest⟩ := Prog.ok_of_bind_ok h
    obtain ⟨hw₁, hdeclared⟩ := declared_run hw hrun
    obtain ⟨hw', hrest⟩ := ih hw₁ hrest
    exact ⟨hw', hrest.trans hdeclared⟩

theorem contentLength_of_writeBody
    (hw : w.Settled) (h : writeBody calls w = .ok () w') : w'.contentLength = w.declared := by
  obtain ⟨_, w₁, hrun, hfinal⟩ := Prog.ok_of_bind_ok h
  obtain ⟨_, hdeclared⟩ := declared_writeAll hw hrun
  have hwrote := w₁.headerWrote_writeHeader
  rw [← hdeclared]
  unfold finalRequest at hfinal
  dsimp only at hfinal
  split at hfinal
  · cases hfinal
    rfl
  · obtain ⟨hw', hkept⟩ := declared_write (w := w₁.writeHeader.sendHeader) (.inl hwrote) hfinal
    rw [← declared_of_headerWrote hw', hkept]
    exact declared_of_headerWrote (w := w₁.writeHeader.sendHeader) hwrote

/-! ## In chunks -/

section Chunked

variable {w w' : SrsHttpMessageWriter}

/-- A chunk. -/
def chunk (data : List UInt8) : List UInt8 := showHex data.length ++ crlf ++ data ++ crlf

/-- What a call sends in chunked mode. -/
def frame : WriteCall → List UInt8
  | .write data _ => if data = [] then [] else chunk data
  | .writev iov =>
    if iov = [] then []
    else showHex (iov.flatten.length % 2 ^ 32) ++ crlf ++
      (iov.flatMap fun data => data.take (toInt data.length).toNat) ++ crlf

/-- The writer is in chunked mode. -/
def Chunked (w : SrsHttpMessageWriter) : Prop := w.headerWrote = true ∧ w.contentLength = -1

theorem chunkHeader_of_lt {n : ℕ} (h : n < 2 ^ 32) : chunkHeader n = some (showHex n) := by
  have hle := length_showHex (n := n) (k := 8) (by decide) (by omega)
  have hpos := List.length_pos_of_ne_nil (showHex_ne_nil n)
  rw [chunkHeader, if_neg (by omega)]

theorem sizeOf_mod (iov : List (List UInt8)) :
    (sizeOf iov % 2 ^ 32).toNat = iov.flatten.length % 2 ^ 32 := by
  have hfold : ∀ n : ℤ, (iov.foldl (fun size data => toInt (size + data.length)) n) % 2 ^ 32 =
      (n + iov.flatten.length) % 2 ^ 32 := by
    induction iov with
    | nil => simp
    | cons data iov ih =>
      intro n
      have hbmod : toInt (n + data.length) % 2 ^ 32 = (n + data.length) % 2 ^ 32 := by
        unfold toInt
        rw [Int.bmod_def]
        omega
      rw [List.foldl_cons, ih, Int.add_emod, hbmod, ← Int.add_emod, List.flatten_cons,
        List.length_append]
      push_cast
      ring_nf
  have hsize := hfold 0
  rw [sizeOf, hsize]
  omega

variable {call : WriteCall}

theorem run_chunked (hw : Chunked w) (h : call.run w = .ok () w') :
    Chunked w' ∧ w'.out = w.out ++ frame call := by
  obtain ⟨hwrote, hcontent⟩ := hw
  cases call with
  | write data fits =>
    rw [WriteCall.run, write] at h
    simp only [prepare, hwrote, if_true, sendHeader, hcontent, ne_eq, not_true_eq_false,
      false_and, if_false, Int.toNat_natCast, List.take_length] at h
    by_cases hdata : data = []
    · rw [if_pos (by simp [hdata])] at h
      cases h
      exact ⟨⟨rfl, rfl⟩, by simp [frame, hdata]⟩
    · have hpos := List.length_pos_of_ne_nil hdata
      rw [if_neg (by omega), chunkHeader_of_lt (by omega)] at h
      cases h
      exact ⟨⟨rfl, rfl⟩, by simp [frame, hdata, chunk]⟩
  | writev iov =>
    rw [WriteCall.run, writev, if_neg (by simp [hwrote, hcontent])] at h
    by_cases hiov : iov = []
    · rw [if_pos hiov] at h
      cases h
      exact ⟨⟨hwrote, hcontent⟩, by simp [frame, hiov]⟩
    · rw [if_neg hiov] at h
      dsimp only at h
      rw [sizeOf_mod, chunkHeader_of_lt (Nat.mod_lt _ (by decide))] at h
      dsimp only at h
      split at h
      · cases h
      · cases h
        exact ⟨⟨hwrote, hcontent⟩, by simp [frame, hiov, sendHeader]⟩

variable {calls : List WriteCall}

theorem writeAll_chunked (hw : Chunked w)
    (h : writeAll calls w = .ok () w') : Chunked w' ∧ w'.out = w.out ++ calls.flatMap frame := by
  induction calls generalizing w with
  | nil =>
    cases h
    exact ⟨hw, by simp⟩
  | cons call calls ih =>
    obtain ⟨_, w₁, hrun, hrest⟩ := Prog.ok_of_bind_ok h
    obtain ⟨hw₁, hout⟩ := run_chunked hw hrun
    obtain ⟨hw', hout'⟩ := ih hw₁ hrest
    exact ⟨hw', by rw [hout', hout, List.flatMap_cons, List.append_assoc]⟩

/-- The chunk behind all others. -/
def lastChunk : List UInt8 := showHex 0 ++ crlf ++ crlf

/-- In chunked mode what goes out are the frames of the calls. -/
theorem out_of_writeBody (hw : Chunked w) (h : writeBody calls w = .ok () w') :
    w'.contentLength = -1 ∧ w'.out = w.out ++ calls.flatMap frame ++ lastChunk := by
  obtain ⟨_, w₁, hrun, hfinal⟩ := Prog.ok_of_bind_ok h
  obtain ⟨⟨hwrote, hcontent⟩, hout⟩ := writeAll_chunked hw hrun
  rw [finalRequest, writeHeader_of_headerWrote hwrote] at hfinal
  rw [show w₁.sendHeader.contentLength = -1 from hcontent] at hfinal
  cases hfinal
  exact ⟨rfl, by rw [← hout]; rfl⟩

/-- A call that is one chunk, or nothing: no `writev` has only empty buffers, or more bytes than an
`int` counts. -/
def Fine : WriteCall → Prop
  | .write _ _ => True
  | .writev iov => iov = [] ∨ 0 < iov.flatten.length ∧ iov.flatten.length < 2 ^ 31

theorem length_le_flatten {iov : List (List UInt8)} {data : List UInt8} (h : data ∈ iov) :
    data.length ≤ iov.flatten.length :=
  (List.sublist_flatten_of_mem h).length_le

theorem frame_of_fine (h : Fine call) :
    frame call = if call.buffers.flatten = [] then [] else chunk call.buffers.flatten := by
  cases call with
  | write data fits => simp [frame, WriteCall.buffers]
  | writev iov =>
    rcases h with rfl | ⟨hpos, hlt⟩
    · rfl
    · have hne : iov.flatten ≠ [] := List.ne_nil_of_length_pos hpos
      have hiov : iov ≠ [] := by
        rintro rfl
        exact hne rfl
      have hbody : (iov.flatMap fun data => data.take (toInt data.length).toNat) =
          iov.flatten := by
        rw [List.flatMap_def]
        congr 1
        conv_rhs => rw [← List.map_id iov]
        apply List.map_congr_left
        intro data hdata
        have hle := length_le_flatten hdata
        rw [toInt_of_lt (by omega), Int.toNat_natCast, List.take_length, id]
      rw [frame, if_neg hiov, hbody, Nat.mod_eq_of_lt (by omega), WriteCall.buffers,
        if_neg hne, chunk]

theorem exists_run_of_fine (hw : Chunked w) (h : Fine call) : ∃ w', call.run w = .ok () w' := by
  obtain ⟨hwrote, hcontent⟩ := hw
  cases call with
  | write data fits =>
    rw [WriteCall.run, write]
    simp only [prepare, hwrote, if_true, sendHeader, hcontent, ne_eq, not_true_eq_false,
      false_and, if_false, Int.toNat_natCast]
    split
    · exact ⟨_, rfl⟩
    · rw [chunkHeader_of_lt (by omega)]
      exact ⟨_, rfl⟩
  | writev iov =>
    rw [WriteCall.run, writev, if_neg (by simp [hwrote, hcontent])]
    rcases h with rfl | ⟨hpos, hlt⟩
    · exact ⟨_, rfl⟩
    · split
      · exact ⟨_, rfl⟩
      · dsimp only
        rw [sizeOf_mod, chunkHeader_of_lt (Nat.mod_lt _ (by decide))]
        have hsmall : ¬ (iov.any fun data => toInt data.length < 0) = true := by
          rw [List.any_eq_true]
          rintro ⟨data, hdata, hneg⟩
          have hle := length_le_flatten hdata
          rw [toInt_of_lt (by omega)] at hneg
          exact absurd (of_decide_eq_true hneg) (by omega)
        dsimp only
        rw [if_neg hsmall]
        exact ⟨_, rfl⟩

theorem exists_writeBody_of_fine (hw : Chunked w)
    (h : ∀ call ∈ calls, Fine call) : ∃ w', writeBody calls w = .ok () w' := by
  induction calls generalizing w with
  | nil =>
    have hfinal : finalRequest w =
        .ok () { w.sendHeader with out := w.out ++ (showHex 0 ++ crlf ++ crlf) } := by
      rw [finalRequest, writeHeader_of_headerWrote hw.1]
      exact if_pos hw.2
    exact ⟨_, (Prog.bind_ok (Prog.pure_apply () w) _).trans hfinal⟩
  | cons call calls ih =>
    obtain ⟨w₁, hrun⟩ := exists_run_of_fine hw (h call List.mem_cons_self)
    obtain ⟨w', hrest⟩ := ih (run_chunked hw hrun).1 fun c hc => h c (List.mem_cons_of_mem _ hc)
    obtain ⟨_, w₂, hcalls, hfinal⟩ := Prog.ok_of_bind_ok hrest
    refine ⟨w', ?_⟩
    rw [writeBody, writeAll]
    have hall : ((call.run >>= fun _ => writeAll calls) : OnWriter Unit) w = .ok () w₂ := by
      rw [Prog.bind_ok hrun]
      exact hcalls
    rw [Prog.bind_ok hall]
    exact hfinal

end Chunked

end SrsChatRoom.Protocol.HttpBody
