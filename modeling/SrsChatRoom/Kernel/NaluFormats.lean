import SrsChatRoom.Kernel.NaluDemux

/-!
# The two formats of NALUs, and what the demuxer makes of them

`AnnexbStream` and `LengthStream` say of which NALUs a payload is a stream in either format. Each
parser returns exactly these (`annexbLoop_run`, `ibmfLoop_run`). A payload can be a stream in both
formats, of different NALUs: then the guess decides.
-/

namespace SrsChatRoom.Kernel

open SrsBuffer
open SrsChatRoom.Prog (bind_ok bind_err)
open List (append_assoc length_append length_drop)

/-! ## Annex-B -/

/-- A start code. -/
def startCode (zeros : ℕ) : List UInt8 := List.replicate zeros 0 ++ [0, 0, 1]

theorem startsWithAnnexb_startCode (zeros : ℕ) (rest : List UInt8) :
    startsWithAnnexb (startCode zeros ++ rest) = some (zeros + 3) := by
  induction zeros with
  | zero => rfl
  | succ zeros ih =>
    have hcode : startCode (zeros + 1) ++ rest = 0 :: (startCode zeros ++ rest) := rfl
    have hzero : ∃ c l, startCode zeros ++ rest = 0 :: c :: l ∧ (zeros = 0 → c = 0) ∧ c ≠ 1 := by
      cases zeros with
      | zero => exact ⟨0, 1 :: rest, rfl, fun _ => rfl, by decide⟩
      | succ zeros =>
        cases zeros with
        | zero => exact ⟨0, 0 :: 1 :: rest, rfl, fun _ => rfl, by decide⟩
        | succ zeros => exact ⟨0, startCode zeros ++ rest, rfl, fun _ => rfl, by decide⟩
    obtain ⟨c, l, hl, -, hc⟩ := hzero
    rw [hcode]
    rw [hl] at ih ⊢
    rw [startsWithAnnexb, if_neg (by simp), if_neg hc, ih]
    rfl

variable {p : List UInt8} {n : ℕ}

/-- What starts with a start code is one, and a rest. -/
theorem exists_of_startsWithAnnexb (h : startsWithAnnexb p = some n) :
    ∃ zeros rest, n = zeros + 3 ∧ p = startCode zeros ++ rest := by
  induction p generalizing n with
  | nil => cases h
  | cons a l ih =>
    match l with
    | [] => cases h
    | [b] => cases h
    | b :: c :: l =>
      rw [startsWithAnnexb] at h
      split_ifs at h with hzero hone
      · cases h
        obtain ⟨ha, hb⟩ := not_or.mp hzero
        rw [not_not] at ha hb
        exact ⟨0, l, rfl, by rw [ha, hb, hone]; rfl⟩
      · obtain ⟨m, hm, rfl⟩ := Option.map_eq_some_iff.mp h
        obtain ⟨ha, -⟩ := not_or.mp hzero
        rw [not_not] at ha
        obtain ⟨zeros, rest, rfl, hrest⟩ := ih hm
        exact ⟨zeros + 1, rest, rfl, by rw [ha, hrest]; rfl⟩

/-- No start code begins in the first part. -/
def Clean (nalu rest : List UInt8) : Prop :=
  ∀ i < nalu.length, startsWithAnnexb ((nalu ++ rest).drop i) = none

/-- The end of a NALU: of the payload, or a start code. -/
def AtEnd (rest : List UInt8) : Prop := rest = [] ∨ (startsWithAnnexb rest).isSome = true

/-- A NALU if it is not empty, and others. -/
def consNalu (nalu : List UInt8) (nalus : List (List UInt8)) : List (List UInt8) :=
  if nalu = [] then nalus else nalu :: nalus

/-- The payload is a stream of these NALUs in Annex-B: start codes, and behind each the bytes up to
the next one, which are a NALU unless there are none. -/
inductive AnnexbStream : List UInt8 → List (List UInt8) → Prop
  | nil : AnnexbStream [] []
  | unit {zeros : ℕ} {nalu rest : List UInt8} {nalus : List (List UInt8)} (hclean : Clean nalu rest)
      (hend : AtEnd rest) (hrest : AnnexbStream rest nalus) :
      AnnexbStream (startCode zeros ++ (nalu ++ rest)) (consNalu nalu nalus)

variable {nalu : List UInt8}

variable {rest : List UInt8}

/-- The loop for the NALU skips as far as the NALU goes. -/
theorem untilStartCode_eq (hclean : Clean nalu rest) (hend : AtEnd rest) :
    untilStartCode (nalu ++ rest) = nalu := by
  induction nalu with
  | nil =>
    rw [List.nil_append]
    cases hend with
    | inl hnil => rw [hnil]; rfl
    | inr hcode =>
      cases rest with
      | nil => rfl
      | cons x l => rw [untilStartCode, if_pos hcode]
  | cons x nalu ih =>
    have hfirst : startsWithAnnexb (x :: (nalu ++ rest)) = none := hclean 0 (by simp)
    rw [List.cons_append, untilStartCode, hfirst, if_neg (by simp), ih]
    intro i hi
    exact hclean (i + 1) (by simpa using hi)

theorem untilStartCode_spec (p : List UInt8) : ∃ rest, p = untilStartCode p ++ rest ∧
    Clean (untilStartCode p) rest ∧ AtEnd rest := by
  induction p with
  | nil => exact ⟨[], rfl, fun i hi => absurd hi (by simp [untilStartCode]), .inl rfl⟩
  | cons x l ih =>
    rw [untilStartCode]
    split
    · next hcode => exact ⟨x :: l, rfl, fun i hi => absurd hi (by simp), .inr hcode⟩
    · next hcode =>
      obtain ⟨rest, hl, hclean, hend⟩ := ih
      refine ⟨rest, by rw [List.cons_append, ← hl], ?_, hend⟩
      intro i hi
      cases i with
      | zero =>
        rw [List.cons_append, ← hl, List.drop_zero]
        exact Option.not_isSome_iff_eq_none.mp hcode
      | succ i => exact hclean i (by simpa using hi)

variable {nalus : List (List UInt8)}

variable {nalus' : List (List UInt8)}

/-- A payload is a stream of one list of NALUs at most. -/
theorem AnnexbStream.unique
    (h : AnnexbStream p nalus) (h' : AnnexbStream p nalus') : nalus = nalus' := by
  induction h generalizing nalus' with
  | nil =>
    generalize hp : ([] : List UInt8) = p at h'
    cases h' with
    | nil => rfl
    | unit => simp [startCode] at hp
  | @unit zeros nalu rest nalus hclean hend _ ih =>
    generalize hp : startCode zeros ++ (nalu ++ rest) = p at h'
    cases h' with
    | nil => simp [startCode] at hp
    | @unit zeros' nalu' rest' nalus' hclean' hend' hrest' =>
      have hcode := startsWithAnnexb_startCode zeros (nalu ++ rest)
      rw [hp, startsWithAnnexb_startCode] at hcode
      obtain rfl : zeros' = zeros := by simpa using hcode
      have hbody := List.append_cancel_left hp
      have hnalu : nalu = nalu' := by
        rw [← untilStartCode_eq hclean hend, hbody, untilStartCode_eq hclean' hend']
      subst hnalu
      rw [ih (List.append_cancel_left hbody ▸ hrest')]

/-! ## IBMF -/

/-- The payload is a stream of these NALUs with lengths of `k` bytes, of which an empty one does not
count. A length is that of a signed integer. -/
inductive LengthStream (k : ℕ) : List UInt8 → List (List UInt8) → Prop
  | nil : LengthStream k [] []
  | unit {nalu rest : List UInt8} {nalus : List (List UInt8)} (hlength : 2 * nalu.length < 256 ^ k)
      (hrest : LengthStream k rest nalus) :
      LengthStream k (bytesBE k nalu.length ++ (nalu ++ rest)) (consNalu nalu nalus)

/-- The length in front of a payload. -/
def frontLength (k : ℕ) (p : List UInt8) : ℕ := ofBytesBE (p.take k)

/-- The payload does not go on with a length and a NALU: the length is not all there, it is read
as a negative number, or it is too large. -/
def Broken (k : ℕ) (p : List UInt8) : Prop :=
  p ≠ [] ∧ (p.length < k ∨ 256 ^ k ≤ 2 * frontLength k p ∨ p.length < k + frontLength k p)

variable {k : ℕ}

theorem frontLength_append (h : n < 256 ^ k) (rest : List UInt8) :
    frontLength k (bytesBE k n ++ rest) = n := by
  have htake : (bytesBE k n ++ rest).take k = bytesBE k n :=
    List.take_left' (length_bytesBE k n)
  rw [frontLength, htake, ofBytesBE_bytesBE, Nat.mod_eq_of_lt h]

/-- What starts with a unit is not broken. -/
theorem not_broken_unit (h : 2 * nalu.length < 256 ^ k)
    (rest : List UInt8) : ¬ Broken k (bytesBE k nalu.length ++ (nalu ++ rest)) := by
  rintro ⟨-, hshort | hnegative | hlong⟩
  · simp at hshort
  · rw [frontLength_append (by omega)] at hnegative
    omega
  · rw [frontLength_append (by omega)] at hlong
    simp at hlong

variable {bad : List UInt8}

/-- A payload starts with one list of NALUs at most, up to where it is broken. -/
theorem LengthStream.unique (hk : 0 < k) {p' bad' : List UInt8}
    (h : LengthStream k p nalus) (hbad : bad = [] ∨ Broken k bad)
    (h' : LengthStream k p' nalus') (hbad' : bad' = [] ∨ Broken k bad')
    (heq : p ++ bad = p' ++ bad') : nalus = nalus' ∧ bad = bad' := by
  have hunit : ∀ {nalu rest bad q : List UInt8}, q = [] ∨ Broken k q →
      2 * nalu.length < 256 ^ k → q ≠ bytesBE k nalu.length ++ (nalu ++ rest) ++ bad := by
    rintro nalu rest bad q hq hlength rfl
    rw [append_assoc, append_assoc] at hq
    cases hq with
    | inl hnil =>
      have hzero := congrArg List.length hnil
      simp only [length_append, length_bytesBE, List.length_nil] at hzero
      omega
    | inr hbroken => exact not_broken_unit hlength (rest ++ bad) hbroken
  induction h generalizing p' nalus' with
  | nil =>
    cases h' with
    | nil => exact ⟨rfl, heq⟩
    | unit hlength _ => exact absurd heq (hunit hbad hlength)
  | @unit nalu rest nalus hlength _ ih =>
    cases h' with
    | nil => exact absurd heq.symm (hunit hbad' hlength)
    | @unit nalu' rest' nalus' hlength' hrest' =>
      simp only [append_assoc] at heq
      have hsame : nalu.length = nalu'.length := by
        have hfront := frontLength_append (k := k) (n := nalu.length) (by omega)
          (nalu ++ (rest ++ bad))
        rw [heq, frontLength_append (by omega)] at hfront
        exact hfront.symm
      rw [hsame] at heq
      obtain ⟨hnalu, htail⟩ := List.append_inj (List.append_cancel_left heq) hsame
      obtain ⟨hnalus, hrests⟩ := ih hrest' htail
      exact ⟨by rw [hnalu, hnalus], hrests⟩

/-! ## What the parsers do -/

/-- The frame has room for these samples. -/
def Fits (f : Format) (nalus : List (List UInt8)) : Prop :=
  f.video.samples.length + nalus.length ≤ maxNbSamples

/-- A parser finds these NALUs, and then it ends (`good`) or gives up. If the frame has no room for
them, it fails with the frame full. -/
structure Result (f : Format) (nalus : List (List UInt8)) (good : Prop)
    (o : Outcome Format HlsDecodeError Unit) : Prop where
  ok : good → Fits f nalus →
    ∃ f', o = .ok () f' ∧ f'.vcodec = f.vcodec ∧ f'.video.samples = f.video.samples ++ nalus
  err : ¬ (good ∧ Fits f nalus) →
    ∃ e f', o = .err e f' ∧ f'.vcodec = f.vcodec ∧ f'.stream.bytes = f.stream.bytes ∧
      (Fits f nalus → f'.video.samples = f.video.samples ++ nalus) ∧
      (¬ Fits f nalus → f'.video.samples.length = maxNbSamples)

theorem push_samples (v : VideoFrame) (id : VideoCodecId) (bytes : List UInt8) :
    (v.push id bytes).samples = v.samples ++ [bytes] := by
  unfold VideoFrame.push VideoFrame.note
  split <;> rfl

variable {f : Format} {good : Prop}

/-- What a parser does from a later place of the stream. -/
theorem Result.move {b : SrsBuffer}
    {o : Outcome Format HlsDecodeError Unit} (hb : b.bytes = f.stream.bytes)
    (h : Result { f with stream := b } nalus good o) : Result f nalus good o := by
  refine ⟨h.ok, fun hno => ?_⟩
  obtain ⟨e, f', ho, hcodec, hbytes, hrest⟩ := h.err hno
  exact ⟨e, f', ho, hcodec, hbytes.trans hb, hrest⟩

variable {g : HlsDecodeError → HlsDecodeError}

/-- What a parser does with the next NALU and after it. -/
theorem Result.cons
    {next : Demux Unit} (hne : nalu ≠ [])
    (hroom : f.video.samples.length ≤ maxNbSamples) (h : ¬ maxNbSamples ≤ f.video.samples.length →
      Result { f with video := f.video.push f.vcodec.id nalu } nalus good
        (next { f with video := f.video.push f.vcodec.id nalu })) :
    Result f (nalu :: nalus) good ((do Prog.wrap g (addSample nalu); next : Demux Unit) f) := by
  by_cases hfull : maxNbSamples ≤ f.video.samples.length
  · have hover : addSample nalu f =
        .err ((hlsDecodeError "Frame samples overflow").wrap "add frame") f := by
      rw [addSample, if_neg hne, if_pos hfull]
    have hfits : ¬ Fits f (nalu :: nalus) := by
      unfold Fits
      rw [List.length_cons]
      omega
    rw [bind_err (Prog.wrap_err hover g)]
    exact ⟨fun _ hfit => absurd hfit hfits,
      fun _ => ⟨_, f, rfl, rfl, rfl, fun hfit => absurd hfit hfits,
        fun _ => by omega⟩⟩
  · have hadd : addSample nalu f = .ok () { f with video := f.video.push f.vcodec.id nalu } := by
      rw [addSample, if_neg hne, if_neg hfull]
    have hfits : Fits f (nalu :: nalus) ↔
        Fits { f with video := f.video.push f.vcodec.id nalu } nalus := by
      unfold Fits
      simp only [push_samples, length_append, List.length_cons, List.length_nil]
      omega
    have hsamples : (f.video.push f.vcodec.id nalu).samples ++ nalus =
        f.video.samples ++ nalu :: nalus := by
      rw [push_samples, append_assoc]
      rfl
    rw [bind_ok (Prog.wrap_ok hadd g)]
    refine ⟨fun hgood hfit => ?_, fun hno => ?_⟩
    · obtain ⟨f', ho, hcodec, hadded⟩ := (h hfull).ok hgood (hfits.mp hfit)
      exact ⟨f', ho, hcodec, hadded.trans hsamples⟩
    · rw [hfits] at hno
      obtain ⟨e, f', ho, hcodec, hbytes, hsome, hnone⟩ := (h hfull).err hno
      exact ⟨e, f', ho, hcodec, hbytes, fun hfit => (hsome (hfits.mp hfit)).trans hsamples,
        fun hfit => hnone fun hfit' => hfit (hfits.mpr hfit')⟩

/-- An empty NALU is not added. -/
theorem Result.consNalu {next : Demux Unit}
    (hroom : f.video.samples.length ≤ maxNbSamples)
    (h : ∀ v : VideoFrame, v.samples.length ≤ maxNbSamples →
      Result { f with video := v } nalus good (next { f with video := v })) :
    Result f (consNalu nalu nalus) good ((do Prog.wrap g (addSample nalu); next : Demux Unit) f) := by
  unfold Kernel.consNalu
  split
  · next hnil =>
    have hadd : addSample nalu f = .ok () f := by rw [addSample, if_pos hnil]
    rw [bind_ok (Prog.wrap_ok hadd g)]
    exact h f.video hroom
  · next hne =>
    refine Result.cons hne hroom fun hfull => h _ ?_
    rw [push_samples, length_append, List.length_singleton]
    omega

theorem onStream_skip (h : n ≤ f.stream.rest.length) (hpos : f.stream.pos ≤ f.stream.bytes.length) :
    onStream (SrsBuffer.skip n) f = .ok () { f with stream := f.stream.advance n } := by
  unfold onStream
  rw [skip_run h hpos]

/-! ### The Annex-B parser -/

theorem annexbLoop_nil {fuel : ℕ} (h : f.stream.rest = []) :
    annexbLoop (fuel + 1) f = .ok () f := by
  unfold annexbLoop
  rw [bind_ok (Prog.read_apply _ f), h, if_pos rfl]
  rfl

/-- One round of the loop. -/
theorem annexbLoop_code {fuel zeros : ℕ} (hpos : f.stream.pos ≤ f.stream.bytes.length)
    (h : f.stream.rest = startCode zeros ++ (nalu ++ rest)) (hclean : Clean nalu rest)
    (hend : AtEnd rest) :
    annexbLoop (fuel + 1) f =
      (do Prog.wrap (HlsDecodeError.wrap "add video frame") (addSample nalu)
          annexbLoop fuel : Demux Unit)
        { f with stream := f.stream.advance (zeros + 3 + nalu.length) } := by
  have hne : ¬ f.stream.rest = [] := by
    rw [h]
    simp [startCode]
  have hcode : (startCode zeros).length = zeros + 3 := by simp [startCode]
  have hlength : f.stream.rest.length = zeros + 3 + (nalu.length + rest.length) := by
    rw [h, length_append, length_append, hcode]
  have hskip := onStream_skip (n := zeros + 3) (by omega) hpos
  have hbody : (f.stream.advance (zeros + 3)).rest = nalu ++ rest := by
    rw [rest_advance, h, ← hcode, List.drop_left]
  have hskip' := onStream_skip (f := { f with stream := f.stream.advance (zeros + 3) })
    (n := nalu.length) (by show _ ≤ (f.stream.advance (zeros + 3)).rest.length; rw [hbody]; simp)
    (pos_advance_le (by omega) hpos)
  rw [annexbLoop, bind_ok (Prog.read_apply _ f), if_neg hne, h, startsWithAnnexb_startCode]
  show (onStream _ >>= _) f = _
  rw [bind_ok hskip, bind_ok (Prog.read_apply _ _)]
  show (onStream (SrsBuffer.skip ((untilStartCode (f.stream.advance (zeros + 3)).rest).length : ℕ))
    >>= _) _ = _
  rw [hbody, untilStartCode_eq hclean hend, bind_ok hskip']
  simp only [advance_advance]

/-- Nothing is left, and so nothing is added. -/
theorem Result.nil (hroom : f.video.samples.length ≤ maxNbSamples) :
    Result f [] True (.ok () f) := by
  have hfits : Fits f [] := by
    unfold Fits
    simpa using hroom
  exact ⟨fun _ _ => ⟨f, rfl, rfl, (List.append_nil _).symm⟩,
    fun hno => absurd ⟨trivial, hfits⟩ hno⟩

/-- The loop finds the NALUs of the payload. -/
theorem annexbLoop_run (h : AnnexbStream p nalus)
    (fuel : ℕ) (f : Format) (hpos : f.stream.pos ≤ f.stream.bytes.length)
    (hroom : f.video.samples.length ≤ maxNbSamples) (hrest : f.stream.rest = p)
    (hfuel : p.length < fuel) : Result f nalus True (annexbLoop fuel f) := by
  induction h generalizing fuel f with
  | nil =>
    cases fuel with
    | zero => omega
    | succ fuel =>
      rw [annexbLoop_nil hrest]
      exact Result.nil hroom
  | @unit zeros nalu rest nalus hclean hend _ ih =>
    cases fuel with
    | zero => omega
    | succ fuel =>
      have hcode : (startCode zeros).length = zeros + 3 := by simp [startCode]
      have hlength : f.stream.rest.length = zeros + 3 + (nalu.length + rest.length) := by
        rw [hrest, length_append, length_append, hcode]
      have htail : (f.stream.advance (zeros + 3 + nalu.length)).rest = rest := by
        rw [rest_advance, hrest, ← append_assoc]
        exact List.drop_left' (by rw [length_append, hcode])
      rw [annexbLoop_code hpos hrest hclean hend]
      refine Result.move (b := f.stream.advance (zeros + 3 + nalu.length)) rfl ?_
      refine Result.consNalu hroom fun v hv => ?_
      refine ih fuel _ (pos_advance_le (by omega) hpos) hv htail ?_
      rw [← hrest, hlength] at hfuel
      omega

/-- A payload that starts with a start code is a stream of some NALUs. -/
theorem exists_annexbStream (p : List UInt8) (h : AtEnd p) : ∃ nalus, AnnexbStream p nalus := by
  induction hn : p.length using Nat.strong_induction_on generalizing p with
  | _ n ih =>
    cases h with
    | inl hnil => exact ⟨[], hnil ▸ AnnexbStream.nil⟩
    | inr hcode =>
      obtain ⟨m, hm⟩ := Option.isSome_iff_exists.mp hcode
      obtain ⟨zeros, tail, -, rfl⟩ := exists_of_startsWithAnnexb hm
      obtain ⟨rest, hbody, hclean, hend⟩ := untilStartCode_spec tail
      have hlength := congrArg List.length hbody
      rw [length_append] at hlength
      rw [length_append] at hn
      have hpos : 0 < (startCode zeros).length := by simp [startCode]
      obtain ⟨nalus, hnalus⟩ := ih rest.length (by omega) rest hend rfl
      rw [hbody]
      exact ⟨_, AnnexbStream.unit hclean hend hnalus⟩

/-- The parser, with the stream where it was if it fails. -/
structure Restored (f : Format) (nalus : List (List UInt8)) (good : Prop)
    (o : Outcome Format HlsDecodeError Unit) : Prop extends Result f nalus good o where
  restored : ∀ e f', o = .err e f' → f'.stream = f.stream

theorem Result.restoring {x : Demux Unit}
    (hpos : f.stream.pos ≤ f.stream.bytes.length) (h : Result f nalus good (x f)) :
    Restored f nalus good (restoring x f) := by
  by_cases hgood : good ∧ Fits f nalus
  · obtain ⟨f', ho, hcodec, hsamples⟩ := h.ok hgood.1 hgood.2
    have hrun : Kernel.restoring x f = .ok () f' := by rw [Kernel.restoring, ho]
    rw [hrun]
    refine ⟨⟨fun _ _ => ⟨f', rfl, hcodec, hsamples⟩, fun hno => absurd hgood hno⟩, ?_⟩
    rintro e f'' ⟨⟩
  · obtain ⟨e, f', ho, hcodec, hbytes, hrest⟩ := h.err hgood
    have hskip : SrsBuffer.skip ((f.stream.pos : ℤ) - f'.stream.pos) f'.stream =
        .ok () f.stream := by
      have hsum : (f'.stream.pos : ℤ) + ((f.stream.pos : ℤ) - f'.stream.pos) = f.stream.pos := by
        omega
      unfold SrsBuffer.skip
      rw [hsum, if_pos ⟨by omega, by rw [hbytes]; omega⟩, hbytes]
      rfl
    have hrun : Kernel.restoring x f = .err e { f' with stream := f.stream } := by
      rw [Kernel.restoring, ho]
      dsimp only
      rw [hskip]
    rw [hrun]
    refine ⟨⟨fun hg hfit => absurd ⟨hg, hfit⟩ hgood,
      fun _ => ⟨e, _, rfl, hcodec, rfl, hrest⟩⟩, ?_⟩
    rintro e' f'' ⟨⟩
    rfl

/-- The Annex-B parser on a payload that starts with a start code. -/
theorem annexb_run (hpos : f.stream.pos ≤ f.stream.bytes.length)
    (hroom : f.video.samples.length ≤ maxNbSamples)
    (hcode : (startsWithAnnexb f.stream.rest).isSome = true)
    (h : AnnexbStream f.stream.rest nalus) :
    Restored f nalus True (avcDemuxAnnexbFormat f) := by
  refine Result.restoring hpos ?_
  have hnone : ¬ (startsWithAnnexb f.stream.rest).isNone = true := by
    rw [Option.isNone_iff_eq_none]
    intro hnone
    rw [hnone] at hcode
    cases hcode
  unfold doAvcDemuxAnnexbFormat
  rw [bind_ok (Prog.read_apply _ f), if_neg hnone]
  exact annexbLoop_run h _ f hpos hroom rfl (Nat.lt_succ_self _)

/-- Any other payload is refused. -/
theorem annexb_refused (hpos : f.stream.pos ≤ f.stream.bytes.length)
    (hcode : startsWithAnnexb f.stream.rest = none) :
    ∃ e, avcDemuxAnnexbFormat f = .err e f := by
  have hrun : doAvcDemuxAnnexbFormat f = .err (hlsDecodeError "not annexb") f := by
    unfold doAvcDemuxAnnexbFormat
    rw [bind_ok (Prog.read_apply _ f), hcode]
    rfl
  have hskip : SrsBuffer.skip ((f.stream.pos : ℤ) - f.stream.pos) f.stream = .ok () f.stream := by
    rw [sub_self]
    exact skip_run (n := 0) (Nat.zero_le _) hpos
  refine ⟨hlsDecodeError "not annexb", ?_⟩
  unfold avcDemuxAnnexbFormat restoring
  rw [hrun]
  dsimp only
  rw [hskip]

/-! ### The IBMF parser -/

theorem lengthSize_pos (n : ℕ) : 0 < lengthSize n := by
  unfold lengthSize
  split
  · decide
  · split <;> decide

/-- The bytes of a length, for the lengths that are not refused. -/
theorem lengthSize_eq (h : n = 0 ∨ n = 1 ∨ n = 3) : lengthSize n = n + 1 := by
  rcases h with rfl | rfl | rfl <;> rfl

/-- What the length in front of a payload is read as. -/
theorem readLength_run (hpos : f.stream.pos ≤ f.stream.bytes.length)
    (h : lengthSize n ≤ f.stream.rest.length) :
    readLength n f = .ok (Int.bmod (frontLength (lengthSize n) f.stream.rest) (256 ^ lengthSize n))
      { f with stream := f.stream.advance (lengthSize n) } := by
  have hread : onStream (SrsBuffer.readUint (lengthSize n)) f =
      .ok (frontLength (lengthSize n) f.stream.rest)
        { f with stream := f.stream.advance (lengthSize n) } := by
    unfold onStream
    rw [readUint_run h hpos]
    rfl
  unfold readLength
  rw [bind_ok hread]
  rfl

theorem requireLeft_pass (hpos : f.stream.pos ≤ f.stream.bytes.length)
    (h : n ≤ f.stream.rest.length) (message : String) : requireLeft n message f = .ok () f := by
  rw [length_rest] at h
  exact if_pos ((f.stream.require_iff n).mpr (by omega))

theorem requireLeft_fail (h : f.stream.rest.length < n) (message : String) :
    requireLeft n message f = .err (hlsDecodeError message) f := by
  rw [length_rest] at h
  exact if_neg fun hr => by
    have := (f.stream.require_iff n).mp hr
    omega

theorem frontLength_lt (h : k ≤ p.length) : frontLength k p < 256 ^ k := by
  have hlt := ofBytesBE_lt (p.take k)
  rwa [List.length_take_of_le h] at hlt

/-- The length of a NALU that is all there. -/
theorem naluLength_run (hn : n = 0 ∨ n = 1 ∨ n = 3) (hpos : f.stream.pos ≤ f.stream.bytes.length)
    (hlength : 2 * nalu.length < 256 ^ lengthSize n)
    (h : f.stream.rest = bytesBE (lengthSize n) nalu.length ++ (nalu ++ rest)) :
    naluLength n f = .ok nalu.length { f with stream := f.stream.advance (lengthSize n) } := by
  have hk := lengthSize_eq hn
  have hsize : f.stream.rest.length = lengthSize n + (nalu.length + rest.length) := by
    rw [h, length_append, length_append, length_bytesBE]
  have hread := readLength_run (n := n) hpos (by omega)
  rw [h, frontLength_append (by omega), bmod_length hlength] at hread
  have hbody : (f.stream.advance (lengthSize n)).rest = nalu ++ rest := by
    rw [rest_advance, h]
    exact List.drop_left' (length_bytesBE _ _)
  have hrequire := requireLeft_pass (f := { f with stream := f.stream.advance (lengthSize n) })
    (n := nalu.length) (pos_advance_le (by omega) hpos)
    (by show _ ≤ (f.stream.advance _).rest.length; rw [hbody]; simp)
    "PictureLength:%d, i:%d, NaluLength:%d, left:%d, NALUnitLength:%d"
  have hnonneg : ¬ ((nalu.length : ℤ) < 0) := by omega
  unfold naluLength
  rw [bind_ok (requireLeft_pass hpos (by omega) _), bind_ok hread]
  rw [bind_ok (by rw [requireNonneg, if_neg hnonneg]), bind_ok hrequire]
  rfl

/-- Otherwise there is an error. -/
theorem naluLength_broken (hn : n = 0 ∨ n = 1 ∨ n = 3) (hpos : f.stream.pos ≤ f.stream.bytes.length)
    (h : Broken (lengthSize n) f.stream.rest) :
    ∃ e f', naluLength n f = .err e f' ∧ f'.vcodec = f.vcodec ∧ f'.video = f.video ∧
      f'.stream.bytes = f.stream.bytes := by
  have hk := lengthSize_eq hn
  unfold naluLength
  by_cases hshort : f.stream.rest.length < n + 1
  · rw [bind_err (requireLeft_fail hshort _)]
    exact ⟨_, f, rfl, rfl, rfl, rfl⟩
  have hread := readLength_run (n := n) hpos (by omega)
  have hlt := frontLength_lt (k := lengthSize n) (p := f.stream.rest) (by omega)
  rw [bind_ok (requireLeft_pass hpos (by omega) _), bind_ok hread]
  obtain ⟨-, hcases⟩ := h
  by_cases hnegative : 256 ^ lengthSize n ≤ 2 * frontLength (lengthSize n) f.stream.rest
  · have hneg := bmod_length_neg hlt hnegative
    rw [bind_err (by rw [requireNonneg, if_pos hneg])]
    exact ⟨_, _, rfl, rfl, rfl, rfl⟩
  · have hvalue := bmod_length (k := lengthSize n) (n := frontLength (lengthSize n) f.stream.rest)
      (by omega)
    rw [hvalue, bind_ok (by rw [requireNonneg, if_neg (by omega)])]
    have hrest : (f.stream.advance (lengthSize n)).rest.length <
        frontLength (lengthSize n) f.stream.rest := by
      rw [rest_advance, length_drop]
      omega
    rw [bind_err (requireLeft_fail
      (f := { f with stream := f.stream.advance (lengthSize n) }) hrest _)]
    exact ⟨_, _, rfl, rfl, rfl, rfl⟩

/-- The loop finds the NALUs of the payload, up to where it is broken. -/
theorem ibmfLoop_run (hn : n = 0 ∨ n = 1 ∨ n = 3) (h : LengthStream (lengthSize n) p nalus)
    (hbad : bad = [] ∨ Broken (lengthSize n) bad) (total fuel i : ℕ) (f : Format)
    (hcodec : f.vcodec.nalUnitLength = n) (hpos : f.stream.pos ≤ f.stream.bytes.length)
    (hroom : f.video.samples.length ≤ maxNbSamples) (hrest : f.stream.rest = p ++ bad)
    (hi : i + f.stream.rest.length = total) (hfuel : f.stream.rest.length < fuel) :
    Result f nalus (bad = []) (ibmfLoop total fuel i f) := by
  induction h generalizing fuel i f with
  | nil =>
    cases fuel with
    | zero => omega
    | succ fuel =>
      rw [List.nil_append] at hrest
      cases hbad with
      | inl hnil =>
        have hend : total ≤ i := by
          rw [hrest, hnil, List.length_nil] at hi
          omega
        rw [ibmfLoop, if_pos hend, eq_true hnil]
        exact Result.nil hroom
      | inr hbroken =>
        have hmore : ¬ total ≤ i := by
          have hlength : 0 < f.stream.rest.length := by
            rw [hrest]
            exact List.length_pos_of_ne_nil hbroken.1
          omega
        obtain ⟨e, f', hrun, hsame, hvideo, hbytes⟩ := naluLength_broken hn hpos (hrest ▸ hbroken)
        rw [ibmfLoop, if_neg hmore, bind_ok (Prog.read_apply _ f), hcodec, bind_err hrun]
        have hfits : Fits f [] := by
          unfold Fits
          simpa using hroom
        exact ⟨fun hgood => absurd hgood hbroken.1, fun _ => ⟨e, f', rfl, hsame, hbytes,
          fun _ => by rw [hvideo, List.append_nil], fun hno => absurd hfits hno⟩⟩
  | @unit nalu rest nalus hlength _ ih =>
    cases fuel with
    | zero => omega
    | succ fuel =>
      have hk := lengthSize_eq hn
      rw [append_assoc, append_assoc] at hrest
      have hsize : f.stream.rest.length =
          lengthSize n + (nalu.length + (rest.length + bad.length)) := by
        rw [hrest, length_append, length_append, length_append, length_bytesBE]
      have hlengthRun := naluLength_run hn hpos hlength hrest
      have hbody : (f.stream.advance (lengthSize n)).rest = nalu ++ (rest ++ bad) := by
        rw [rest_advance, hrest]
        exact List.drop_left' (length_bytesBE _ _)
      have htail : (f.stream.advance (lengthSize n + nalu.length)).rest = rest ++ bad := by
        rw [← advance_advance, rest_advance, hbody]
        exact List.drop_left
      rw [ibmfLoop, if_neg (by omega), bind_ok (Prog.read_apply _ f), hcodec,
        bind_ok hlengthRun, bind_ok (Prog.read_apply _ _)]
      show Result f _ _ ((do
        Prog.wrap _ (addSample ((f.stream.advance (lengthSize n)).rest.take nalu.length))
        (do onStream (SrsBuffer.skip nalu.length)
            ibmfLoop total fuel (i + (n + 1 + nalu.length)) : Demux Unit) : Demux Unit) _)
      rw [hbody, List.take_left]
      refine Result.move (b := f.stream.advance (lengthSize n)) rfl ?_
      refine Result.consNalu hroom fun v hv => ?_
      have hskip := onStream_skip
        (f := { f with video := v, stream := f.stream.advance (lengthSize n) }) (n := nalu.length)
        (by show _ ≤ (f.stream.advance _).rest.length; rw [hbody]; simp)
        (pos_advance_le (by omega) hpos)
      rw [bind_ok hskip]
      refine Result.move (b := f.stream.advance (lengthSize n + nalu.length)) rfl ?_
      have hnext := ih fuel (i + (n + 1 + nalu.length))
        { f with video := v, stream := f.stream.advance (lengthSize n + nalu.length) } hcodec
        (pos_advance_le (by omega) hpos) hv htail
        (by show _ + (f.stream.advance _).rest.length = _; rw [htail, length_append]; omega)
        (by show (f.stream.advance _).rest.length < _; rw [htail, length_append]; omega)
      simp only [advance_advance]
      exact hnext

/-- The IBMF parser on a payload that is a stream up to some place. -/
theorem ibmf_run
    (hn : f.vcodec.nalUnitLength = 0 ∨ f.vcodec.nalUnitLength = 1 ∨ f.vcodec.nalUnitLength = 3)
    (hpos : f.stream.pos ≤ f.stream.bytes.length) (hroom : f.video.samples.length ≤ maxNbSamples)
    (h : LengthStream (lengthSize f.vcodec.nalUnitLength) p nalus)
    (hbad : bad = [] ∨ Broken (lengthSize f.vcodec.nalUnitLength) bad)
    (hrest : f.stream.rest = p ++ bad) : Restored f nalus (bad = []) (avcDemuxIbmfFormat f) := by
  refine Result.restoring hpos ?_
  unfold doAvcDemuxIbmfFormat
  rw [bind_ok (Prog.read_apply _ f), bind_ok (Prog.read_apply _ f), if_neg (by omega)]
  exact ibmfLoop_run hn h hbad _ _ 0 f rfl hpos hroom hrest (Nat.zero_add _)
    (Nat.lt_succ_self _)

/-- Every payload is a stream up to some place. -/
theorem exists_lengthStream (hk : 0 < k) (q : List UInt8) :
    ∃ p bad nalus, q = p ++ bad ∧ LengthStream k p nalus ∧ (bad = [] ∨ Broken k bad) := by
  induction hn : q.length using Nat.strong_induction_on generalizing q with
  | _ n ih =>
    by_cases hend : q = [] ∨ Broken k q
    · exact ⟨[], q, [], rfl, LengthStream.nil, hend⟩
    · obtain ⟨hne, hunbroken⟩ := not_or.mp hend
      have hall : ¬ (q.length < k ∨ 256 ^ k ≤ 2 * frontLength k q ∨
          q.length < k + frontLength k q) := fun h => hunbroken ⟨hne, h⟩
      obtain ⟨hshort, hnegative, hlong⟩ : k ≤ q.length ∧ 2 * frontLength k q < 256 ^ k ∧
          k + frontLength k q ≤ q.length := by omega
      have hfront : bytesBE k (frontLength k q) = q.take k := by
        have hback := bytesBE_ofBytesBE (q.take k)
        rwa [List.length_take_of_le hshort] at hback
      have hnalu : ((q.drop k).take (frontLength k q)).length = frontLength k q := by
        rw [List.length_take, length_drop]
        omega
      obtain ⟨p, bad, nalus, hrest, hstream, hbad⟩ := ih _
        (by rw [length_drop, length_drop]; omega) ((q.drop k).drop (frontLength k q)) rfl
      have hunit : ∀ nalu : List UInt8, 2 * nalu.length < 256 ^ k →
          LengthStream k (bytesBE k nalu.length ++ (nalu ++ p)) (consNalu nalu nalus) :=
        fun nalu hlength => LengthStream.unit hlength hstream
      refine ⟨_, bad, _, ?_, hunit ((q.drop k).take (frontLength k q))
        (by rw [hnalu]; exact hnegative), hbad⟩
      rw [hnalu, hfront, append_assoc, append_assoc, ← hrest, List.take_append_drop,
        List.take_append_drop]

end SrsChatRoom.Kernel
