import SrsChatRoom.Kernel.TsDemux

/-!
# The tables of a transport stream

A PAT or a PMT packet sets what pids are used for while it is read, entry after entry, and its
checksum is compared behind the last of them. So a packet that is refused has already set the
entries in front of the place where it was. That leaves the context as it was only where each pid
had the use that the last entry for it gives it, and where the end of the program list, if the
reader came to it, did not change whether the stream is known to have no video.
-/

namespace SrsChatRoom.Kernel.Ts

open SrsChatRoom.Prog (bind_ok bind_err refuse optional zoom modify)

/-! ## What the context knows of a pid -/

/-- What a pid is used for, and the type of its stream. -/
abbrev Entry := ℕ × SrsTsPidApply × SrsTsStream

/-- What the context knows of a pid. -/
def Pids.table (pids : Pids) (pid : ℕ) : Option (SrsTsPidApply × SrsTsStream) :=
  (pids.get? pid).map fun channel => (channel.apply, channel.stream)

/-- The pids with these entries set. -/
def Pids.setAll (pids : Pids) (entries : List Entry) : Pids :=
  entries.foldl (fun pids e => pids.setApply e.1 e.2.1 e.2.2) pids

theorem Pids.table_setApply (pids : Pids) (pid : ℕ) (apply : SrsTsPidApply)
    (stream : SrsTsStream) :
    (pids.setApply pid apply stream).table =
      Function.update pids.table pid (some (apply, stream)) := by
  funext other
  unfold table setApply
  rw [Dict.get?_set]
  by_cases h : pid = other
  · subst h
    rw [if_pos rfl, Function.update_self]
    rfl
  · rw [if_neg h, Function.update_of_ne (Ne.symm h)]

theorem Pids.table_setAll (pids : Pids) (entries : List Entry) :
    (pids.setAll entries).table = assignAll pids.table entries := by
  induction entries generalizing pids with
  | nil => rfl
  | cons e entries ih =>
    show ((pids.setApply e.1 e.2.1 e.2.2).setAll entries).table = _
    rw [ih, table_setApply]
    rfl

theorem Pids.setAll_append (pids : Pids) (entries more : List Entry) :
    pids.setAll (entries ++ more) = (pids.setAll entries).setAll more :=
  List.foldl_append

theorem Pids.pureAudio_iff (pids : Pids) :
    pids.pureAudio = true ↔ ∀ pid stream, pids.table pid ≠ some (.video, stream) := by
  unfold pureAudio table
  rw [List.all_eq_true]
  constructor
  · intro hall pid stream hvideo
    obtain ⟨channel, hget, hchannel⟩ := Option.map_eq_some_iff.mp hvideo
    have hmem := (pids.mem_entries_iff pid channel).mpr hget
    exact of_decide_eq_true (hall _ hmem) (congrArg Prod.fst hchannel)
  · rintro hnone ⟨pid, channel⟩ hmem
    apply decide_eq_true
    intro hvideo
    apply hnone pid channel.stream
    rw [(pids.mem_entries_iff pid channel).mp hmem]
    show some (channel.apply, channel.stream) = _
    rw [hvideo]

/-- Whether there is video is seen in the table. -/
theorem Pids.pureAudio_congr {pids pids' : Pids} (h : pids.table = pids'.table) :
    pids.pureAudio = pids'.pureAudio := by
  rw [Bool.eq_iff_iff, pureAudio_iff, pureAudio_iff, h]

/-! ## The entries in a section -/

/-- What the reader takes out of a section: the entries that it sets, the position behind the last
of them if it gets there, and whether it looks for video then. -/
structure TableRead where
  entries : List Entry
  behind : Option ℕ
  looksForVideo : Bool

namespace TableRead

/-- Nothing. -/
def stopped : TableRead := ⟨[], none, false⟩

/-- With entries in front. -/
def prepend (entries : List Entry) (r : TableRead) : TableRead :=
  { r with entries := entries ++ r.entries }

theorem looksForVideo_prepend (entries : List Entry) (r : TableRead) :
    (r.prepend entries).looksForVideo = r.looksForVideo := rfl

/-- With an entry that is set behind the others, if they are all there. -/
def close (e : Entry) (looksForVideo : Bool) (r : TableRead) : TableRead :=
  if r.behind.isSome then ⟨r.entries ++ [e], r.behind, looksForVideo⟩ else r

end TableRead

/-- The entry for the pid of a program. -/
def programEntry (bytes : List UInt8) (q : ℕ) : Entry := (uintAt bytes q 4 % 2 ^ 13, .pmt, .reserved)

/-- The programs at `q`, of which there are `n`. -/
def readPrograms (bytes : List UInt8) : ℕ → ℕ → TableRead
  | 0, q => ⟨[], some q, false⟩
  | n + 1, q =>
    if q + 4 ≤ bytes.length then
      (readPrograms bytes n (q + 4)).prepend [programEntry bytes q]
    else .stopped

/-- The length of the section at `q`. -/
def sectionLengthAt (bytes : List UInt8) (q : ℕ) : ℕ := uintAt bytes (q + 1) 2 % 2 ^ 12

/-- The PAT at `q`, in a packet of the pid. -/
def readPat (bytes : List UInt8) (pid q : ℕ) : TableRead :=
  if q + 8 ≤ bytes.length then
    (readPrograms bytes ((sectionLengthAt bytes q - 9 + 3 : ℤ) / 4).toNat (q + 8)).close
      (pid, .pat, .reserved) true
  else .stopped

/-- The entry for an elementary stream, if its type is known. -/
def streamEntries (pid streamType : ℕ) : List Entry :=
  match SrsTsStream.ofByte streamType with
  | some stream =>
    match stream.apply with
    | some apply => [(pid, apply, stream)]
    | none => []
  | none => []

/-- Behind the description of an elementary stream at `q`. -/
def streamEnd (bytes : List UInt8) (q : ℕ) : ℕ := q + 5 + uintAt bytes (q + 3) 2 % 2 ^ 12

/-- The elementary streams from `q` to `eof`. -/
def readStreams (bytes : List UInt8) (eof : ℤ) : ℕ → ℕ → TableRead
  | 0, _ => .stopped
  | fuel + 1, q =>
    if (q : ℤ) < eof then
      if q + 5 ≤ bytes.length ∧ streamEnd bytes q ≤ bytes.length then
        (readStreams bytes eof fuel (streamEnd bytes q)).prepend
          (streamEntries (uintAt bytes (q + 1) 2 % 2 ^ 13) (uintAt bytes q 1))
      else .stopped
    else ⟨[], some q, false⟩

/-- The elementary streams of the PMT at `q`, behind the description of the program. -/
def streamsPos (bytes : List UInt8) (q : ℕ) : ℕ := q + 12 + uintAt bytes (q + 10) 2 % 2 ^ 12

/-- The PMT at `q`, in a packet of the pid. -/
def readPmt (bytes : List UInt8) (pid q : ℕ) : TableRead :=
  if q + 12 ≤ bytes.length ∧ streamsPos bytes q ≤ bytes.length then
    (readStreams bytes (q + sectionLengthAt bytes q - 1) (bytes.length + 1)
      (streamsPos bytes q)).close (pid, .pmt, .reserved) false
  else .stopped

/-! ## What the reader does with a section -/

/-- The context with what has been read. -/
def TsDemuxer.after (s : TsDemuxer) (r : TableRead) : TsDemuxer :=
  { s with
    pids := s.pids.setAll r.entries
    pureAudio := if r.looksForVideo then (s.pids.setAll r.entries).pureAudio else s.pureAudio }

/-- The program returns behind the table, or an error, and has set the entries. -/
structure Reads (x : TsDecode Unit) (s : TsDemuxer) (r : TableRead) : Prop where
  done : ∀ q, r.behind = some q → x s = .ok () ((s.after r).moveTo q)
  refused : r.behind = none → ∃ e q, x s = .err e ((s.after r).moveTo q)

section Reads

variable {x y : TsDecode Unit} {s : TsDemuxer} {r : TableRead}

theorem reads_stopped {e : TsError} {q : ℕ} (h : x s = .err e (s.moveTo q)) :
    Reads x s .stopped where
  done := fun _ hnone => by cases hnone
  refused := fun _ => ⟨e, q, h⟩

/-- What is read behind entries that have been set. -/
theorem Reads.prepend {entries : List Entry} {q : ℕ}
    (hx : x s = y { s.moveTo q with pids := s.pids.setAll entries })
    (h : Reads y { s.moveTo q with pids := s.pids.setAll entries } r) :
    Reads x s (r.prepend entries) := by
  have hafter : ∀ q', (({ s.moveTo q with pids := s.pids.setAll entries } : TsDemuxer).after
      r).moveTo q' = (s.after (r.prepend entries)).moveTo q' := by
    intro q'
    unfold TsDemuxer.after TableRead.prepend
    rw [Pids.setAll_append]
    rfl
  constructor
  · intro q' hq'
    rw [hx, h.done q' hq', hafter]
  · intro hnone
    obtain ⟨e, q', hrefused⟩ := h.refused hnone
    exact ⟨e, q', by rw [hx, hrefused, hafter]⟩

/-- The entry behind the others. -/
theorem Reads.close (h : Reads x s r) (hflag : r.looksForVideo = false) (e : Entry)
    (looksForVideo : Bool)
    (hlast : ∀ t : TsDemuxer, y t = .ok () { t with
      pids := t.pids.setApply e.1 e.2.1 e.2.2
      pureAudio := if looksForVideo then (t.pids.setApply e.1 e.2.1 e.2.2).pureAudio
        else t.pureAudio }) :
    Reads (x >>= fun _ => y) s (r.close e looksForVideo) := by
  cases hr : r.behind with
  | some q =>
    have hclose : r.close e looksForVideo = ⟨r.entries ++ [e], some q, looksForVideo⟩ := by
      unfold TableRead.close
      rw [hr]
      rfl
    rw [hclose]
    constructor
    · intro q' hq'
      cases hq'
      rw [bind_ok (h.done q hr), hlast]
      unfold TsDemuxer.after TsDemuxer.moveTo
      rw [hflag, Pids.setAll_append]
      cases looksForVideo <;> rfl
    · intro hnone
      cases hnone
  | none =>
    have hclose : r.close e looksForVideo = r := by
      unfold TableRead.close
      rw [hr]
      rfl
    rw [hclose]
    constructor
    · intro q' hq'
      rw [hr] at hq'
      cases hq'
    · intro hnone
      obtain ⟨err, q, hrefused⟩ := h.refused hnone
      exact ⟨err, q, bind_err hrefused _⟩

/-- The same run. -/
theorem Reads.of_run {q q' : ℕ} (h : Reads y (s.moveTo q) r)
    (hx : x (s.moveTo q') = y (s.moveTo q)) : Reads x (s.moveTo q') r where
  done := fun q hq => hx.trans (h.done q hq)
  refused := fun hnone => by
    obtain ⟨e, q, hrefused⟩ := h.refused hnone
    exact ⟨e, q, hx.trans hrefused⟩

end Reads

/-- The reader with the head at a position of its buffer. -/
theorem onStream_moved {s : TsDemuxer} {α : Type} {x : TsIo α} {p q : ℕ} {a : α}
    (h : x ⟨s.stream.bytes, p⟩ = .ok a ⟨s.stream.bytes, q⟩) :
    onStream x (s.moveTo p) = .ok a (s.moveTo q) :=
  onStream_run (s := s.moveTo p) h

theorem onStream_refused {s : TsDemuxer} {α : Type} {x : TsIo α} {p q : ℕ} {e : TsError}
    (h : x ⟨s.stream.bytes, p⟩ = .err e ⟨s.stream.bytes, q⟩) :
    onStream x (s.moveTo p) = .err e (s.moveTo q) := by
  have hx : x (s.moveTo p).stream = .err e ⟨s.stream.bytes, q⟩ := h
  unfold onStream zoom
  rw [hx]
  rfl

section Sections

variable {s : TsDemuxer}

theorem readPrograms_flag (bytes : List UInt8) (n q : ℕ) :
    (readPrograms bytes n q).looksForVideo = false := by
  induction n generalizing q with
  | zero => rfl
  | succ n ih =>
    unfold readPrograms
    split
    · rw [TableRead.looksForVideo_prepend]
      exact ih (q + 4)
    · rfl

theorem patPrograms_reads (n : ℕ) (q : ℕ) :
    Reads (patPrograms n) (s.moveTo q) (readPrograms s.stream.bytes n q) := by
  induction n generalizing s q with
  | zero =>
    exact ⟨fun q' hq' => by cases hq'; rfl, fun hnone => by cases hnone⟩
  | succ n ih =>
    unfold readPrograms
    by_cases hle : q + 4 ≤ s.stream.bytes.length
    · rw [if_pos hle]
      have hread : (do
          requires 4 .pat "ts: demux PAT"
          readUint 4 : TsIo ℕ) ⟨s.stream.bytes, q⟩ =
            .ok (uintAt s.stream.bytes q 4) ⟨s.stream.bytes, q + 4⟩ := by
        rw [bind_ok (requires_run (by omega) (by omega) _ _)]
        exact readUint_run hle
      have hprogram : patProgram (s.moveTo q) = .ok () { s.moveTo (q + 4) with
          pids := s.pids.setAll [programEntry s.stream.bytes q] } := by
        rw [patProgram, bind_ok (onStream_moved hread)]
        rfl
      refine Reads.prepend (y := patPrograms n) (q := q + 4) ?_ ?_
      · rw [patPrograms, bind_ok (Prog.wrap_ok hprogram _)]
        rfl
      · exact @ih { s with pids := s.pids.setAll [programEntry s.stream.bytes q] } (q + 4)
    · rw [if_neg hle]
      have hread : (do
          requires 4 .pat "ts: demux PAT"
          readUint 4 : TsIo ℕ) ⟨s.stream.bytes, q⟩ =
            .err (TsError.new .pat "ts: demux PAT") ⟨s.stream.bytes, q⟩ :=
        bind_err (requires_fail (n := 4) (by omega) _ _) _
      apply reads_stopped (q := q)
      rw [patPrograms, bind_err]
      apply Prog.wrap_err
      exact bind_err (onStream_refused hread) _

theorem patDecode_reads (pid q : ℕ) :
    Reads (patDecode pid (sectionLengthAt s.stream.bytes q)) (s.moveTo (q + 3))
      (readPat s.stream.bytes pid q) := by
  unfold readPat
  by_cases hle : q + 8 ≤ s.stream.bytes.length
  · rw [if_pos hle]
    have hpos : ∀ r : ℕ, pos ⟨s.stream.bytes, r⟩ = .ok r ⟨s.stream.bytes, r⟩ := fun _ => rfl
    have hheader : (do
        requires 5 .pat "ts: demux PAT"
        let start ← pos
        let _ ← readUint 2
        let _ ← readUint 1
        let _ ← readUint 1
        let _ ← readUint 1
        let posNow ← pos
        return (sectionLengthAt s.stream.bytes q - 4 - (posNow - start) : ℤ) : TsIo ℤ)
          ⟨s.stream.bytes, q + 3⟩ =
            .ok (sectionLengthAt s.stream.bytes q - 9 : ℤ) ⟨s.stream.bytes, q + 8⟩ := by
      rw [bind_ok (requires_run (by omega) (by omega) _ _), bind_ok (hpos _),
        bind_ok (readUint_run (by omega)), bind_ok (readUint_run (by omega)),
        bind_ok (readUint_run (by omega)), bind_ok (readUint_run (by omega)),
        bind_ok (hpos _)]
      have hnine : (sectionLengthAt s.stream.bytes q - 4 -
          ((q + 3 + 2 + 1 + 1 + 1 : ℕ) - (q + 3 : ℕ)) : ℤ) =
            sectionLengthAt s.stream.bytes q - 9 := by
        omega
      rw [hnine]
      rfl
    have hclose := (patPrograms_reads (s := s)
      ((sectionLengthAt s.stream.bytes q - 9 + 3 : ℤ) / 4).toNat (q + 8)).close
      (y := do
        onPids fun pids => pids.setApply pid .pat .reserved
        onPmtParsed) (readPrograms_flag _ _ _) (pid, .pat, .reserved) true fun _ => rfl
    have hrun : patDecode pid (sectionLengthAt s.stream.bytes q) (s.moveTo (q + 3)) = _ :=
      bind_ok (onStream_moved hheader) _
    exact hclose.of_run hrun
  · rw [if_neg hle]
    apply reads_stopped (s := s.moveTo (q + 3)) (q := q + 3)
    apply bind_err
    apply onStream_refused
    exact bind_err (requires_fail (n := 5) (by omega) _ _) _

theorem setStream_eq (pids : Pids) (pid streamType : ℕ) :
    pids.setStream pid streamType = pids.setAll (streamEntries pid streamType) := by
  unfold Pids.setStream streamEntries
  cases SrsTsStream.ofByte streamType with
  | none => rfl
  | some stream =>
    cases happly : stream.apply with
    | none =>
      simp only [happly]
      rfl
    | some apply =>
      simp only [happly]
      rfl

variable {bytes : List UInt8} {q : ℕ}

theorem pmtEsInfo_run (hfive : q + 5 ≤ bytes.length) (hend : streamEnd bytes q ≤ bytes.length) :
    pmtEsInfo ⟨bytes, q⟩ = .ok (uintAt bytes q 1, uintAt bytes (q + 1) 2 % 2 ^ 13)
      ⟨bytes, streamEnd bytes q⟩ := by
  unfold streamEnd at hend ⊢
  rw [pmtEsInfo, bind_ok (requires_run (by omega) (by omega) _ _),
    bind_ok (readUint_run (by omega)), bind_ok (readUint_run (by omega)),
    bind_ok (readUint_run (by omega))]
  by_cases hinfo : uintAt bytes (q + 1 + 2) 2 % 2 ^ 12 > 0
  · rw [if_pos hinfo]
    have hthree : q + 1 + 2 = q + 3 := rfl
    rw [hthree, bind_ok (requires_run (by omega) (by push_cast; omega) _ _),
      bind_ok (readBytes_run (by omega))]
    rfl
  · rw [if_neg hinfo]
    have hzero : uintAt bytes (q + 3) 2 % 2 ^ 12 = 0 := by
      have hle := Nat.le_of_not_lt hinfo
      exact Nat.le_zero.mp hle
    rw [hzero]
    rfl

theorem pmtEsInfo_fail (h : ¬ (q + 5 ≤ bytes.length ∧ streamEnd bytes q ≤ bytes.length)) :
    ∃ e r, pmtEsInfo ⟨bytes, q⟩ = .err e ⟨bytes, r⟩ := by
  by_cases hfive : q + 5 ≤ bytes.length
  · have hend : bytes.length < q + 5 + uintAt bytes (q + 3) 2 % 2 ^ 12 := by
      by_contra hle
      exact h ⟨hfive, not_lt.mp hle⟩
    rw [pmtEsInfo, bind_ok (requires_run (by omega) (by omega) _ _),
      bind_ok (readUint_run (by omega)), bind_ok (readUint_run (by omega)),
      bind_ok (readUint_run (by omega))]
    have hthree : q + 1 + 2 = q + 3 := rfl
    rw [hthree]
    have hinfo : uintAt bytes (q + 3) 2 % 2 ^ 12 > 0 := by
      omega
    rw [if_pos hinfo]
    exact ⟨_, _, bind_err (requires_fail hend _ _) _⟩
  · exact ⟨_, _, bind_err (requires_fail (n := 5) (not_le.mp hfive) _ _) _⟩

/-- Each turn takes bytes, so that the bound on them is enough. -/
theorem pmtInfos_reads (eof : ℤ) (fuel q : ℕ) (hfuel : s.stream.bytes.length < q + fuel)
    (hq : q ≤ s.stream.bytes.length) :
    Reads (pmtInfos eof fuel) (s.moveTo q) (readStreams s.stream.bytes eof fuel q) := by
  induction fuel generalizing s q with
  | zero => omega
  | succ fuel ih =>
    have hpos : onStream pos (s.moveTo q) = .ok q (s.moveTo q) := rfl
    unfold readStreams
    by_cases hlt : (q : ℤ) < eof
    · rw [if_pos hlt]
      by_cases hfits : q + 5 ≤ s.stream.bytes.length ∧
          streamEnd s.stream.bytes q ≤ s.stream.bytes.length
      · rw [if_pos hfits]
        have hinfo := onStream_moved (s := s) (pmtEsInfo_run hfits.1 hfits.2)
        have hmore : s.stream.bytes.length < streamEnd s.stream.bytes q + fuel := by
          unfold streamEnd
          omega
        apply @Reads.prepend _ (pmtInfos eof fuel) (s.moveTo q) _ _ (streamEnd s.stream.bytes q)
        · rw [pmtInfos, bind_ok hpos, if_pos hlt, bind_ok (Prog.wrap_ok hinfo _),
            ← setStream_eq]
          rfl
        · generalize streamEntries _ _ = entries
          generalize streamEnd s.stream.bytes q = r at hmore hfits
          exact @ih { s with pids := s.pids.setAll entries } r hmore hfits.2
      · rw [if_neg hfits]
        obtain ⟨e, r, hfail⟩ := pmtEsInfo_fail hfits
        apply reads_stopped (s := s.moveTo q) (q := r)
        rw [pmtInfos, bind_ok hpos, if_pos hlt]
        exact bind_err (Prog.wrap_err (onStream_refused hfail) _) _
    · rw [if_neg hlt]
      constructor
      · intro q' hq'
        cases hq'
        rw [pmtInfos, bind_ok hpos, if_neg hlt]
        rfl
      · intro hnone
        cases hnone

theorem readStreams_flag (bytes : List UInt8) (eof : ℤ) (fuel q : ℕ) :
    (readStreams bytes eof fuel q).looksForVideo = false := by
  induction fuel generalizing q with
  | zero => rfl
  | succ fuel ih =>
    unfold readStreams
    split
    · split
      · rw [TableRead.looksForVideo_prepend]
        exact ih (streamEnd bytes q)
      · rfl
    · rfl

theorem pmtDecode_reads (pid q : ℕ) :
    Reads (pmtDecode pid (sectionLengthAt s.stream.bytes q)) (s.moveTo (q + 3))
      (readPmt s.stream.bytes pid q) := by
  have hpos : ∀ r : ℕ, pos ⟨s.stream.bytes, r⟩ = .ok r ⟨s.stream.bytes, r⟩ := fun _ => rfl
  unfold readPmt
  by_cases hfits : q + 12 ≤ s.stream.bytes.length ∧
      streamsPos s.stream.bytes q ≤ s.stream.bytes.length
  · rw [if_pos hfits]
    obtain ⟨htwelve, hinfo⟩ := hfits
    unfold streamsPos at hinfo
    have hclose := (pmtInfos_reads (s := s) (q + sectionLengthAt s.stream.bytes q - 1)
      (s.stream.bytes.length + 1) (streamsPos s.stream.bytes q) (by unfold streamsPos; omega)
      hinfo).close (y := onPids fun pids => pids.setApply pid .pmt .reserved)
      (readStreams_flag _ _ _ _) (pid, .pmt, .reserved) false fun _ => rfl
    refine hclose.of_run (bind_ok (onStream_moved ?_) _)
    rw [bind_ok (requires_run (by omega) (by omega) _ _),
      bind_ok (readUint_run (by omega)), bind_ok (readUint_run (by omega)),
      bind_ok (readUint_run (by omega)), bind_ok (readUint_run (by omega)),
      bind_ok (readUint_run (by omega)), bind_ok (readUint_run (by omega))]
    have hten : q + 3 + 2 + 1 + 1 + 1 + 2 = q + 10 := rfl
    rw [hten]
    unfold streamsPos
    generalize hlength : uintAt s.stream.bytes (q + 10) 2 % 2 ^ 12 = infoLength at hinfo
    by_cases hinfoLength : infoLength > 0
    · rw [if_pos hinfoLength, bind_ok (requires_run (by omega) (by push_cast; omega) _ _),
        bind_ok (readBytes_run (by omega)), bind_ok (hpos _)]
      have heof : ((q + 10 + 2 + infoLength : ℕ) + sectionLengthAt s.stream.bytes q - 4 - 9 -
          infoLength : ℤ) = q + sectionLengthAt s.stream.bytes q - 1 := by
        omega
      rw [heof]
      rfl
    · obtain rfl : infoLength = 0 := by omega
      rw [if_neg hinfoLength, bind_ok (hpos _)]
      have heof : ((q + 10 + 2 : ℕ) + sectionLengthAt s.stream.bytes q - 4 - 9 - (0 : ℕ) : ℤ) =
          q + sectionLengthAt s.stream.bytes q - 1 := by
        omega
      rw [heof]
      rfl
  · rw [if_neg hfits]
    by_cases htwelve : q + 12 ≤ s.stream.bytes.length
    · have hinfo : s.stream.bytes.length <
          q + 10 + 2 + uintAt s.stream.bytes (q + 10) 2 % 2 ^ 12 := by
        by_contra hle
        exact hfits ⟨htwelve, not_lt.mp hle⟩
      apply reads_stopped (s := s.moveTo (q + 3)) (q := q + 10 + 2)
      apply bind_err
      apply onStream_refused
      rw [bind_ok (requires_run (by omega) (by omega) _ _),
        bind_ok (readUint_run (by omega)), bind_ok (readUint_run (by omega)),
        bind_ok (readUint_run (by omega)), bind_ok (readUint_run (by omega)),
        bind_ok (readUint_run (by omega)), bind_ok (readUint_run (by omega))]
      have hten : q + 3 + 2 + 1 + 1 + 1 + 2 = q + 10 := rfl
      rw [hten]
      have hpositive : uintAt s.stream.bytes (q + 10) 2 % 2 ^ 12 > 0 := by
        omega
      rw [if_pos hpositive]
      exact bind_err (requires_fail hinfo _ _) _
    · apply reads_stopped (s := s.moveTo (q + 3)) (q := q + 3)
      apply bind_err
      apply onStream_refused
      exact bind_err (requires_fail (n := 9) (by omega) _ _) _

/-- The section at `q` is in the buffer and not empty. -/
def SectionFits (bytes : List UInt8) (q : ℕ) : Prop :=
  q + 3 ≤ bytes.length ∧ sectionLengthAt bytes q ≠ 0 ∧ q + 3 + sectionLengthAt bytes q ≤ bytes.length

instance (bytes : List UInt8) (q : ℕ) : Decidable (SectionFits bytes q) :=
  inferInstanceAs (Decidable (_ ∧ _ ∧ _))

/-- Behind the table of the section at `q`, at `e`, there is its checksum. -/
def Verified (bytes : List UInt8) (q e : ℕ) : Prop :=
  e + 4 ≤ bytes.length ∧
    (srsCrc32Mpegts ((bytes.drop q).take (e - q))).toNat = uintAt bytes e 4

instance (bytes : List UInt8) (q e : ℕ) : Decidable (Verified bytes q e) :=
  inferInstanceAs (Decidable (_ ∧ _))

theorem psiTrailer_eq {e : ℕ} (hle : e + 4 ≤ bytes.length) :
    psiTrailer q ⟨bytes, e⟩ = (do
      refuse ((srsCrc32Mpegts ((bytes.drop q).take (e - q))).toNat ≠ uintAt bytes e 4)
        (TsError.new .psi "ts: verify PSI crc32")
      skipAll : TsIo Unit) ⟨bytes, e + 4⟩ := by
  have hend : e + 4 - q - 4 = e - q := by omega
  rw [psiTrailer, bind_ok (requires_run (by omega) (by omega) _ _),
    bind_ok (readUint_run hle), ← hend]
  rfl

theorem psiTrailer_run {e : ℕ} (h : Verified bytes q e) :
    psiTrailer q ⟨bytes, e⟩ = .ok () ⟨bytes, bytes.length⟩ := by
  obtain ⟨hle, hcrc⟩ := h
  rw [psiTrailer_eq hle, bind_ok (Prog.refuse_pass (fun hne => hne hcrc) _ _)]
  exact skipAll_run _ hle

theorem psiTrailer_fail {e : ℕ} (h : ¬ Verified bytes q e) :
    ∃ err r, psiTrailer q ⟨bytes, e⟩ = .err err ⟨bytes, r⟩ := by
  by_cases hle : e + 4 ≤ bytes.length
  · have hcrc : (srsCrc32Mpegts ((bytes.drop q).take (e - q))).toNat ≠ uintAt bytes e 4 :=
      fun heq => h ⟨hle, heq⟩
    rw [psiTrailer_eq hle]
    exact ⟨_, _, bind_err (Prog.refuse_fail hcrc _ _) _⟩
  · exact ⟨_, _, bind_err (requires_fail (n := 4) (not_le.mp hle) _ _) _⟩

/-- The section, behind the pointer field. -/
def sectionPos (q : ℕ) (unitStart : Bool) : ℕ := q + width unitStart 1

variable {unitStart : Bool}

theorem pointerField_run (hle : unitStart = true → q + 1 ≤ bytes.length) :
    optional unitStart (do
      requires 1 .psi "ts: demux PSI"
      let _ ← readUint 1) ⟨bytes, q⟩ = .ok () ⟨bytes, sectionPos q unitStart⟩ := by
  apply optional_run (k := 1)
  intro htrue
  have hone := hle htrue
  rw [bind_ok (requires_run (by omega) (by omega) _ _), bind_ok (readUint_run hone)]
  rfl

theorem psiHeader_run (hle : sectionPos q unitStart + 3 ≤ bytes.length) :
    psiHeader unitStart ⟨bytes, q⟩ =
      .ok (sectionLengthAt bytes (sectionPos q unitStart), sectionPos q unitStart)
        ⟨bytes, sectionPos q unitStart + 3⟩ := by
  have hpos : ∀ r : ℕ, pos ⟨bytes, r⟩ = .ok r ⟨bytes, r⟩ := fun _ => rfl
  have hpointer : unitStart = true → q + 1 ≤ bytes.length := by
    rintro rfl
    exact (Nat.le_add_right _ 3).trans hle
  rw [psiHeader, bind_ok (pointerField_run hpointer), bind_ok (hpos _),
    bind_ok (requires_run (by omega) (by omega) _ _), bind_ok (readUint_run (by omega)),
    bind_ok (readUint_run (by omega))]
  rfl

theorem psiHeader_fail (h : ¬ sectionPos q unitStart + 3 ≤ bytes.length) :
    ∃ e r, psiHeader unitStart ⟨bytes, q⟩ = .err e ⟨bytes, r⟩ := by
  have hpos : ∀ r : ℕ, pos ⟨bytes, r⟩ = .ok r ⟨bytes, r⟩ := fun _ => rfl
  refine ⟨TsError.new .psi "ts: demux PSI", ?_⟩
  by_cases hpointer : unitStart = true → q + 1 ≤ bytes.length
  · refine ⟨sectionPos q unitStart, ?_⟩
    rw [psiHeader, bind_ok (pointerField_run hpointer), bind_ok (hpos _)]
    exact bind_err (requires_fail (n := 3) (not_le.mp h) _ _) _
  · obtain ⟨rfl, hone⟩ := Classical.not_imp.mp hpointer
    refine ⟨q, bind_err ?_ _⟩
    exact bind_err (requires_fail (n := 1) (not_le.mp hone) _ _) _

/-- What is read of the section at `q`, if it fits. -/
def TableRead.ofSection (bytes : List UInt8) (q : ℕ) (r : TableRead) : TableRead :=
  if SectionFits bytes q then r else .stopped

/-- The section at `q` is complete, and its checksum is right. -/
def TableRead.Valid (bytes : List UInt8) (q : ℕ) (r : TableRead) : Prop :=
  ∃ e, r.behind = some e ∧ Verified bytes q e

/-- A section that is not empty is accepted if it is valid; what has been read of it up to the
place where it is refused stays. -/
theorem psiDecode_table {decodeSection : ℕ → TsDecode Unit} {r : TableRead}
    (hsection : Reads (decodeSection (sectionLengthAt s.stream.bytes (sectionPos q unitStart)))
      (s.moveTo (sectionPos q unitStart + 3)) r) :
    (psiDecode unitStart decodeSection).Ends (s.moveTo q)
      (fun _ _ => SectionFits s.stream.bytes (sectionPos q unitStart) →
        r.Valid s.stream.bytes (sectionPos q unitStart))
      (fun t => (SectionFits s.stream.bytes (sectionPos q unitStart) →
          ¬ r.Valid s.stream.bytes (sectionPos q unitStart)) ∧
        ∃ q', t = (s.after (r.ofSection s.stream.bytes (sectionPos q unitStart))).moveTo q')
      False := by
  have hstopped : ¬ SectionFits s.stream.bytes (sectionPos q unitStart) → ∀ q',
      s.moveTo q' = (s.after (r.ofSection s.stream.bytes (sectionPos q unitStart))).moveTo q' := by
    intro hnot q'
    rw [TableRead.ofSection, if_neg hnot]
    rfl
  generalize hbase : sectionPos q unitStart = base at *
  by_cases hheader : base + 3 ≤ s.stream.bytes.length
  · have hrun := onStream_moved (s := s) (psiHeader_run (hbase.symm ▸ hheader))
    rw [hbase] at hrun
    apply Prog.Ends.bind
    refine Prog.ends_of_ok hrun ?_
    apply Prog.Ends.ite
    · intro hempty
      exact Prog.Ends.pure fun hfits => absurd hempty hfits.2.1
    · intro hempty
      by_cases hroom : base + 3 + sectionLengthAt s.stream.bytes base ≤ s.stream.bytes.length
      · have hfits : SectionFits s.stream.bytes base := ⟨hheader, hempty, hroom⟩
        have hread : r.ofSection s.stream.bytes base = r := if_pos hfits
        rw [hread]
        apply Prog.Ends.bind
        refine Prog.ends_of_ok (onStream_moved (requires_run (by omega) (by omega) _ _)) ?_
        apply Prog.Ends.bind
        cases hbehind : r.behind with
        | none =>
          obtain ⟨e, q', hrefused⟩ := hsection.refused hbehind
          refine Prog.ends_of_err (Prog.wrap_err hrefused _) ⟨fun _ hvalid => ?_, q', rfl⟩
          obtain ⟨e, he, -⟩ := hvalid
          rw [hbehind] at he
          cases he
        | some e =>
          refine Prog.ends_of_ok (Prog.wrap_ok (hsection.done e hbehind) _) ?_
          by_cases hverified : Verified s.stream.bytes base e
          · refine Prog.ends_of_ok (onStream_moved (s := s.after r) (psiTrailer_run hverified)) ?_
            exact fun _ => ⟨e, hbehind, hverified⟩
          · obtain ⟨err, q', hfail⟩ := psiTrailer_fail hverified
            refine Prog.ends_of_err (onStream_refused (s := s.after r) hfail)
              ⟨fun _ hvalid => ?_, q', rfl⟩
            obtain ⟨e', he', hverified'⟩ := hvalid
            rw [hbehind] at he'
            cases he'
            exact hverified hverified'
      · have hnot : ¬ SectionFits s.stream.bytes base := fun hfits => hroom hfits.2.2
        apply Prog.Ends.bind
        exact Prog.ends_of_err (onStream_refused (requires_fail (not_le.mp hroom) _ _))
          ⟨fun hfits => absurd hfits hnot, _, hstopped hnot _⟩
  · have hnot : ¬ SectionFits s.stream.bytes base := fun hfits => hheader hfits.1
    obtain ⟨e, q', hfail⟩ := psiHeader_fail (hbase.symm ▸ hheader)
    apply Prog.Ends.bind
    exact Prog.ends_of_err (onStream_refused hfail)
      ⟨fun hfits => absurd hfits hnot, q', hstopped hnot q'⟩

end Sections

/-! ## Packets -/

/-- The reader comes to the payload of the packet in this buffer. -/
structure PayloadReached (bytes : List UInt8) : Prop where
  required : 4 ≤ bytes.length
  sync : uintAt bytes 0 1 = 0x47
  field : hasAdaptationField (headerAt bytes 0).control = true →
    AfRead bytes (headerAt bytes 0).control 4 ∧ ¬ AfOverruns bytes (headerAt bytes 0).control 4
  payload : hasPayload (headerAt bytes 0).control = true

/-- A packet of 188 bytes that has, for a context with these pids, a PAT or a PMT. -/
structure TablePacket (pids : Pids) where
  bytes : List UInt8
  size : bytes.length = 188
  table : (headerAt bytes 0).pid = 0 ∨
    (pids.get? (headerAt bytes 0).pid).map SrsTsChannel.apply = some .pmt

/-- The context in front of a packet. -/
def TsDemuxer.facing (s : TsDemuxer) (bytes : List UInt8) : TsDemuxer :=
  { s with stream := ⟨bytes, 0⟩ }

namespace TablePacket

variable {pids : Pids}

/-- Where the section is. -/
def sectionPos (packet : TablePacket pids) : ℕ :=
  Ts.sectionPos (payloadPos packet.bytes 0) (headerAt packet.bytes 0).unitStart

/-- What is read of the section. -/
def read (packet : TablePacket pids) : TableRead :=
  if (headerAt packet.bytes 0).pid = 0 then
    readPat packet.bytes (headerAt packet.bytes 0).pid packet.sectionPos
  else readPmt packet.bytes (headerAt packet.bytes 0).pid packet.sectionPos

end TablePacket

section Packets

variable {s : TsDemuxer}

/-- A packet whose payload the reader does not come to leaves the context as it was. -/
theorem packet_unreached {bytes : List UInt8} (h : ¬ PayloadReached bytes) :
    SrsTsPacket.decode.Ends (s.facing bytes) (fun _ _ => True)
      (fun t => ∃ q, t = (s.facing bytes).moveTo q) True := by
  have hin : (s.facing bytes).stream.pos ≤ (s.facing bytes).stream.bytes.length := Nat.zero_le _
  have hback : ∀ {t : TsDemuxer}, (∃ q ≤ bytes.length, t = (s.facing bytes).moveTo q) →
      ∃ q, t = (s.facing bytes).moveTo q := fun ⟨q, _, ht⟩ => ⟨q, ht⟩
  apply Prog.Ends.bind
  refine (onStream_ends (endsAt_pos (Q := fun _ q => q = 0) rfl) hin).mono ?_
    (fun _ he => hback he) (fun hf => hf)
  rintro start t ⟨q, -, rfl, rfl⟩
  apply Prog.Ends.bind
  refine (onStream_ends (s := s.facing bytes) packetHeader_ends hin).mono ?_
    (fun _ he => hback he) (fun hf => hf)
  rintro header t ⟨q, hfour, rfl, rfl, rfl, hsync⟩
  apply Prog.Ends.bind
  have hfield : EndsAt (optional (hasAdaptationField (headerAt bytes 0).control)
      (Prog.wrap (TsError.wrap "ts: demux af field")
        (SrsTsAdaptationField.decode (headerAt bytes 0).control))) bytes 4
      (fun _ _ => hasAdaptationField (headerAt bytes 0).control = true →
        AfRead bytes (headerAt bytes 0).control 4 ∧
          ¬ AfOverruns bytes (headerAt bytes 0).control 4) True := by
    apply endsAt_optional
    · intro _
      refine ((adaptationField_ends _).wrap _).mono ?_ (fun _ => trivial)
      rintro _ q _ ⟨-, hread⟩ _
      exact hread
    · intro hnone hhas
      rw [hnone] at hhas
      cases hhas
  refine (onStream_ends (s := (s.facing bytes).moveTo 4) hfield hfour).mono ?_
    (fun _ he => hback he) (fun hf => hf)
  rintro _ t ⟨q, -, rfl, hread⟩
  apply Prog.Ends.ite
  · intro hpayload
    exact absurd ⟨hfour, hsync, hread, hpayload⟩ h
  · intro _
    exact Prog.Ends.pure trivial

theorem packetHeader_run {bytes : List UInt8} (hfour : 4 ≤ bytes.length)
    (hsync : uintAt bytes 0 1 = 0x47) :
    packetHeader ⟨bytes, 0⟩ = .ok (headerAt bytes 0) ⟨bytes, 4⟩ := by
  rw [packetHeader, bind_ok (requires_run (by omega) (by omega) _ _),
    bind_ok (readUint_run (by omega)),
    bind_ok (Prog.refuse_pass (fun hne => hne hsync) _ _),
    bind_ok (readUint_run (by omega)), bind_ok (readUint_run (by omega))]
  rfl

/-- What a packet with a table does, when the reader comes to its payload. -/
theorem packet_table (packet : TablePacket s.pids) (h : PayloadReached packet.bytes) :
    SrsTsPacket.decode.Ends (s.facing packet.bytes)
      (fun _ _ => SectionFits packet.bytes packet.sectionPos →
        packet.read.Valid packet.bytes packet.sectionPos)
      (fun t => (SectionFits packet.bytes packet.sectionPos →
          ¬ packet.read.Valid packet.bytes packet.sectionPos) ∧
        ∃ q, t = ((s.facing packet.bytes).after
          (packet.read.ofSection packet.bytes packet.sectionPos)).moveTo q) False := by
  have hpos : onStream pos (s.facing packet.bytes) = .ok 0 (s.facing packet.bytes) := rfl
  have hfield : onStream (optional (hasAdaptationField (headerAt packet.bytes 0).control)
      (Prog.wrap (TsError.wrap "ts: demux af field")
        (SrsTsAdaptationField.decode (headerAt packet.bytes 0).control)))
      ((s.facing packet.bytes).moveTo 4) =
        .ok () ((s.facing packet.bytes).moveTo (payloadPos packet.bytes 0)) := by
    apply onStream_moved
    unfold payloadPos
    cases hhas : hasAdaptationField (headerAt packet.bytes 0).control with
    | false => rfl
    | true =>
      obtain ⟨hread, hinside⟩ := h.field hhas
      have hrun := Prog.wrap_ok (adaptationField_run hread hinside)
        (TsError.wrap "ts: demux af field")
      rw [Nat.add_assoc] at hrun
      exact hrun
  apply Prog.Ends.bind
  refine Prog.ends_of_ok hpos ?_
  apply Prog.Ends.bind
  refine Prog.ends_of_ok (onStream_moved (s := s.facing packet.bytes) (p := 0)
    (packetHeader_run h.required h.sync)) ?_
  apply Prog.Ends.bind
  refine Prog.ends_of_ok hfield ?_
  apply Prog.Ends.ite
  · intro _
    apply Prog.Ends.bind
    refine Prog.Ends.mono (Prog.Ends.wrap ?_) (fun _ _ hok => Prog.Ends.pure hok)
      (fun _ he => he) (fun hf => hf)
    apply Prog.Ends.bind_read
    apply Prog.Ends.ite
    · intro hzero
      have hread : packet.read = readPat packet.bytes _ packet.sectionPos := if_pos hzero
      apply Prog.Ends.bind
      refine (psiDecode_table (s := s.facing packet.bytes) (patDecode_reads _ _)).mono
        (fun _ _ hok => Prog.Ends.pure ?_) (fun _ he => ?_) (fun hf => hf)
      · rw [hread]
        exact hok
      · rw [hread]
        exact he
    · intro hpid
      have hread : packet.read = readPmt packet.bytes _ packet.sectionPos := if_neg hpid
      apply Prog.Ends.ite
      · intro _
        apply Prog.Ends.bind
        refine (psiDecode_table (s := s.facing packet.bytes) (pmtDecode_reads _ _)).mono
          (fun _ _ hok => Prog.Ends.pure ?_) (fun _ he => ?_) (fun hf => hf)
        · rw [hread]
          exact hok
        · rw [hread]
          exact he
      · intro hpmt
        exact absurd (packet.table.resolve_left hpid) hpmt
  · intro hnone
    exact absurd h.payload hnone

end Packets

/-! ## Refused packets -/

/-- Both know the same of every pid, and of whether there is video. -/
structure SameTable (s t : TsDemuxer) : Prop where
  table : t.pids.table = s.pids.table
  pureAudio : t.pureAudio = s.pureAudio

/-- What is read tells the context nothing new: each pid has the use that the last entry for it
gives it, and if it is looked for video, it is known whether there is any. -/
structure TableRead.Known (s : TsDemuxer) (r : TableRead) : Prop where
  entries : ∀ pid use, lastFor pid r.entries = some use → s.pids.table pid = some use
  pureAudio : r.looksForVideo = true → s.pureAudio = s.pids.pureAudio

theorem sameTable_after_iff (s : TsDemuxer) (r : TableRead) :
    SameTable s (s.after r) ↔ r.Known s := by
  have htable : (s.after r).pids.table = s.pids.table ↔
      ∀ pid use, lastFor pid r.entries = some use → s.pids.table pid = some use := by
    show (s.pids.setAll r.entries).table = s.pids.table ↔ _
    rw [Pids.table_setAll]
    exact assignAll_eq_self_iff _ _
  have hflag : (s.after r).pids.table = s.pids.table →
      ((s.after r).pureAudio = s.pureAudio ↔
        (r.looksForVideo = true → s.pureAudio = s.pids.pureAudio)) := by
    intro hsame
    have hvideo : (s.pids.setAll r.entries).pureAudio = s.pids.pureAudio :=
      Pids.pureAudio_congr hsame
    show (if r.looksForVideo = true then (s.pids.setAll r.entries).pureAudio else s.pureAudio) =
      s.pureAudio ↔ _
    rw [hvideo]
    cases r.looksForVideo with
    | true => exact ⟨fun h _ => h.symm, fun h => (h rfl).symm⟩
    | false => exact ⟨fun _ hnone => Bool.noConfusion hnone, fun _ => rfl⟩
  constructor
  · intro h
    exact ⟨htable.mp h.table, (hflag h.table).mp h.pureAudio⟩
  · intro h
    have hsame := htable.mpr h.entries
    exact ⟨hsame, (hflag hsame).mpr h.pureAudio⟩

/-- A packet with a table that is refused leaves the table of the context as it was exactly where
its section, if the reader comes to one that fits in the packet, is valid, or what is read of it
up to the place where it is refused was known. -/
theorem refused_unchanged_iff (s : TsDemuxer) (packet : TablePacket s.pids) :
    (∀ e t, SrsTsPacket.decode (s.facing packet.bytes) = .err e t → SameTable s t) ↔
      (PayloadReached packet.bytes → SectionFits packet.bytes packet.sectionPos →
        packet.read.Valid packet.bytes packet.sectionPos ∨ packet.read.Known s) := by
  constructor
  · intro h hreached hfits
    by_cases hvalid : packet.read.Valid packet.bytes packet.sectionPos
    · exact Or.inl hvalid
    · apply Or.inr
      have hends := packet_table packet hreached
      have hread : packet.read.ofSection packet.bytes packet.sectionPos = packet.read :=
        if_pos hfits
      unfold Prog.Ends at hends
      cases hrun : SrsTsPacket.decode (s.facing packet.bytes) with
      | ok a t =>
        rw [hrun] at hends
        exact absurd (hends hfits) hvalid
      | err e t =>
        rw [hrun] at hends
        obtain ⟨-, q, rfl⟩ := hends
        have hsame := h e _ hrun
        rw [hread] at hsame
        exact (sameTable_after_iff s packet.read).mp ⟨hsame.table, hsame.pureAudio⟩
      | fault =>
        rw [hrun] at hends
        exact hends.elim
      | hang =>
        rw [hrun] at hends
        exact hends.elim
  · intro h e t hrun
    by_cases hreached : PayloadReached packet.bytes
    · obtain ⟨hinvalid, q, rfl⟩ := (packet_table packet hreached).err hrun
      by_cases hfits : SectionFits packet.bytes packet.sectionPos
      · have hread : packet.read.ofSection packet.bytes packet.sectionPos = packet.read :=
          if_pos hfits
        have hknown := (h hreached hfits).resolve_left (hinvalid hfits)
        obtain ⟨htable, hflag⟩ := (sameTable_after_iff s packet.read).mpr hknown
        rw [hread]
        exact ⟨htable, hflag⟩
      · have hread : packet.read.ofSection packet.bytes packet.sectionPos = .stopped :=
          if_neg hfits
        rw [hread]
        exact ⟨rfl, rfl⟩
    · obtain ⟨q, rfl⟩ := (packet_unreached hreached).err hrun
      exact ⟨rfl, rfl⟩

/-- A packet with the PAT of one program, of which no checksum is right. -/
def brokenPat : List UInt8 :=
  [0x47, 0x40, 0x00, 0x10, 0x00, 0x00, 0xb0, 0x0d, 0x00, 0x01, 0xc1, 0x00, 0x00, 0x00, 0x01, 0xf0,
    0x00, 0x00, 0x00, 0x00, 0x00] ++ List.replicate 167 0xff

/-- A context that knows nothing. -/
def TsDemuxer.init : TsDemuxer := ⟨Dict.empty, false, ⟨[], 0⟩, []⟩

/-- The packet, for that context. -/
def brokenPatPacket : TablePacket TsDemuxer.init.pids where
  bytes := brokenPat
  size := by decide +kernel
  table := Or.inl (by decide +kernel)

/-- What the context knows of the program, when the packet has been refused. -/
def brokenPatLearnt : Option (SrsTsPidApply × SrsTsStream) :=
  (SrsTsPacket.decode (TsDemuxer.init.facing brokenPatPacket.bytes)).errState.bind fun t =>
    t.pids.table 0x1000

/-- It is refused for its checksum, and the context has learnt of the program. -/
theorem brokenPat_changes :
    ∃ e t, SrsTsPacket.decode (TsDemuxer.init.facing brokenPatPacket.bytes) = .err e t ∧
      ¬ SameTable TsDemuxer.init t := by
  have hlearnt : brokenPatLearnt = some (.pmt, .reserved) := by
    decide +kernel
  obtain ⟨t, hrefused, ht⟩ := Option.bind_eq_some_iff.mp hlearnt
  obtain ⟨e, hrun⟩ := Outcome.exists_of_errState hrefused
  refine ⟨e, t, hrun, fun hsame => ?_⟩
  rw [hsame.table] at ht
  cases ht

end SrsChatRoom.Kernel.Ts
