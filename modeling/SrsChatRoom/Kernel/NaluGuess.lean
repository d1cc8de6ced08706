import SrsChatRoom.Kernel.NaluFormats

/-!
# Which NALUs a frame is demuxed to

The parsers return the NALUs of `AnnexbStream` and `LengthStream`, so a frame in one format comes
back exactly when the format that is used, which may be the other one, reads the same NALUs from it.
-/

namespace SrsChatRoom.Kernel

open SrsBuffer

/-! ## The parsers, alone and after one another -/

/-- The parser returns, with these samples. -/
def Adds (x : Demux Unit) (f : Format) (samples : List (List UInt8)) : Prop :=
  ∃ f', x f = .ok () f' ∧ f'.video.samples = samples

variable {f : Format}

theorem Result.adds_iff {nalus : List (List UInt8)} {good : Prop} {x : Demux Unit}
    (h : Result f nalus good (x f)) (samples : List (List UInt8)) :
    Adds x f samples ↔ good ∧ Fits f nalus ∧ samples = f.video.samples ++ nalus := by
  constructor
  · rintro ⟨f', hrun, hsamples⟩
    by_cases hgood : good ∧ Fits f nalus
    · obtain ⟨f'', hrun', -, hadded⟩ := h.ok hgood.1 hgood.2
      rw [hrun'] at hrun
      cases hrun
      exact ⟨hgood.1, hgood.2, hsamples.symm.trans hadded⟩
    · obtain ⟨e, f'', hrun', -⟩ := h.err hgood
      rw [hrun'] at hrun
      cases hrun
  · rintro ⟨hgood, hfits, rfl⟩
    obtain ⟨f', hrun, -, hadded⟩ := h.ok hgood hfits
    exact ⟨f', hrun, hadded⟩

/-- The Annex-B parser returns the NALUs of an Annex-B stream, and nothing else. -/
theorem adds_annexb_iff (hpos : f.stream.pos ≤ f.stream.bytes.length)
    (hroom : f.video.samples.length ≤ maxNbSamples) (hne : f.stream.rest ≠ [])
    (samples : List (List UInt8)) :
    Adds avcDemuxAnnexbFormat f samples ↔ ∃ nalus, AnnexbStream f.stream.rest nalus ∧
      Fits f nalus ∧ samples = f.video.samples ++ nalus := by
  by_cases hcode : (startsWithAnnexb f.stream.rest).isSome = true
  · obtain ⟨nalus, hstream⟩ := exists_annexbStream f.stream.rest (.inr hcode)
    rw [(annexb_run hpos hroom hcode hstream).adds_iff]
    constructor
    · rintro ⟨-, hfits, hsamples⟩
      exact ⟨nalus, hstream, hfits, hsamples⟩
    · rintro ⟨nalus', hstream', hfits, hsamples⟩
      rw [hstream'.unique hstream] at hfits hsamples
      exact ⟨trivial, hfits, hsamples⟩
  · have hnone := Option.not_isSome_iff_eq_none.mp hcode
    constructor
    · rintro ⟨f', hrun, -⟩
      obtain ⟨e, hrefused⟩ := annexb_refused hpos hnone
      rw [hrefused] at hrun
      cases hrun
    · rintro ⟨nalus, hstream, -⟩
      generalize f.stream.rest = p at hne hnone hstream
      cases hstream with
      | nil => exact absurd rfl hne
      | unit hclean hend hrest =>
        rw [startsWithAnnexb_startCode] at hnone
        cases hnone

/-- The IBMF parser returns the NALUs of a stream with lengths, and nothing else. -/
theorem adds_ibmf_iff
    (hn : f.vcodec.nalUnitLength = 0 ∨ f.vcodec.nalUnitLength = 1 ∨ f.vcodec.nalUnitLength = 3)
    (hpos : f.stream.pos ≤ f.stream.bytes.length)
    (hroom : f.video.samples.length ≤ maxNbSamples) (samples : List (List UInt8)) :
    Adds avcDemuxIbmfFormat f samples ↔
      ∃ nalus, LengthStream (lengthSize f.vcodec.nalUnitLength) f.stream.rest nalus ∧
        Fits f nalus ∧ samples = f.video.samples ++ nalus := by
  have hk := lengthSize_pos f.vcodec.nalUnitLength
  obtain ⟨p, bad, nalus, hrest, hstream, hbad⟩ := exists_lengthStream hk f.stream.rest
  rw [(ibmf_run hn hpos hroom hstream hbad hrest).adds_iff]
  constructor
  · rintro ⟨rfl, hfits, hsamples⟩
    rw [List.append_nil] at hrest
    exact ⟨nalus, hrest ▸ hstream, hfits, hsamples⟩
  · rintro ⟨nalus', hstream', hfits, hsamples⟩
    have hend : ([] : List UInt8) = [] ∨ Broken (lengthSize f.vcodec.nalUnitLength) [] := .inl rfl
    obtain ⟨hsame, hnil⟩ := hstream.unique hk hbad hstream' hend
      (by rw [← hrest, List.append_nil])
    rw [← hsame] at hfits hsamples
    exact ⟨hnil, hfits, hsamples⟩

theorem adds_congr {x y : Demux Unit} (h : x f = y f)
    (samples : List (List UInt8)) : Adds x f samples ↔ Adds y f samples := by
  unfold Adds
  rw [h]

theorem adds_wrap_iff (x : Demux Unit) (g : HlsDecodeError → HlsDecodeError) (f : Format)
    (samples : List (List UInt8)) : Adds (Prog.wrap g x) f samples ↔ Adds x f samples := by
  unfold Adds Prog.wrap
  cases x f <;> simp

/-- Two parsers after one another: the second works on what the first has left behind. -/
theorem adds_guessFormat_iff {first second : Demux Unit} {firstFormat secondFormat : PayloadFormat}
    {message : String} {samples : List (List UInt8)} :
    Adds (guessFormat first second firstFormat secondFormat message) f samples ↔
      Adds first f samples ∨ ∃ e f', first f = .err e f' ∧ Adds second f' samples := by
  unfold Adds guessFormat
  cases hrun : first f with
  | ok a f' => simp [setPayloadFormat]
  | fault => simp
  | hang => simp
  | err e f' =>
    have hsecond := adds_wrap_iff second (HlsDecodeError.wrap message) f' samples
    unfold Adds at hsecond
    simp only [reduceCtorEq, false_and, exists_false, false_or, Outcome.err.injEq]
    rw [Prog.bind_apply]
    constructor
    · rintro ⟨f'', hset, hsamples⟩
      cases hwrap : Prog.wrap (HlsDecodeError.wrap message) second f' with
      | ok a f₂ =>
        rw [hwrap] at hset hsecond
        cases hset
        exact ⟨e, f', ⟨rfl, rfl⟩, hsecond.mp ⟨f₂, rfl, hsamples⟩⟩
      | err e' f₂ =>
        rw [hwrap] at hset
        cases hset
      | fault =>
        rw [hwrap] at hset
        cases hset
      | hang =>
        rw [hwrap] at hset
        cases hset
    · rintro ⟨e', f'', ⟨rfl, rfl⟩, hadds⟩
      obtain ⟨f₂, hwrap, hsamples⟩ := hsecond.mpr hadds
      rw [hwrap]
      exact ⟨_, rfl, hsamples⟩

/-- A stream with lengths that has no NALUs is of zeros. -/
theorem LengthStream.zeros {k : ℕ} {p : List UInt8} (h : LengthStream k p []) : ∀ b ∈ p, b = 0 := by
  generalize hnalus : ([] : List (List UInt8)) = nalus at h
  induction h with
  | nil => intro b hb; cases hb
  | @unit nalu rest nalus _ _ ih =>
    unfold consNalu at hnalus
    split at hnalus
    · next hnil =>
      subst hnil
      intro b hb
      rw [List.length_nil, List.nil_append, List.mem_append] at hb
      cases hb with
      | inl hlength => exact eq_zero_of_mem_bytesBE hlength
      | inr hrest => exact ih hnalus b hrest
    · cases hnalus

/-! ## A frame -/

/-- After a sequence header of H.264 that is in order, at the start of a frame. -/
structure Ready (f : Format) : Prop where
  avc : f.vcodec.id = .avc
  extraData : f.vcodec.avcExtraData ≠ []
  nalUnitLength :
    f.vcodec.nalUnitLength = 0 ∨ f.vcodec.nalUnitLength = 1 ∨ f.vcodec.nalUnitLength = 3
  pos : f.stream.pos ≤ f.stream.bytes.length
  -- `SrsBuffer` has its size in an `int`.
  size : f.stream.bytes.length < 2 ^ 31
  samples : f.video.samples = []

namespace Ready

variable {f : Format} (hf : Ready f)
include hf

theorem room : f.video.samples.length ≤ maxNbSamples := by
  rw [hf.samples]
  exact Nat.zero_le _

theorem fits_iff (nalus : List (List UInt8)) : Fits f nalus ↔ nalus.length ≤ maxNbSamples := by
  unfold Fits
  rw [hf.samples, List.length_nil, Nat.zero_add]

variable {nalus : List (List UInt8)}

theorem adds_annexb_iff (hne : f.stream.rest ≠ []) (hcount : nalus.length ≤ maxNbSamples) :
    Adds avcDemuxAnnexbFormat f nalus ↔ AnnexbStream f.stream.rest nalus := by
  rw [Kernel.adds_annexb_iff hf.pos hf.room hne, hf.samples]
  constructor
  · rintro ⟨nalus', hstream, -, rfl⟩
    exact hstream
  · intro hstream
    exact ⟨nalus, hstream, (hf.fits_iff nalus).mpr hcount, rfl⟩

theorem adds_ibmf_iff (hcount : nalus.length ≤ maxNbSamples) :
    Adds avcDemuxIbmfFormat f nalus ↔
      LengthStream (lengthSize f.vcodec.nalUnitLength) f.stream.rest nalus := by
  rw [Kernel.adds_ibmf_iff hf.nalUnitLength hf.pos hf.room, hf.samples]
  constructor
  · rintro ⟨nalus', hstream, -, rfl⟩
    exact hstream
  · intro hstream
    exact ⟨nalus, hstream, (hf.fits_iff nalus).mpr hcount, rfl⟩

/-- The frame is not ignored, and not one of H.265. -/
theorem demux_run (tryAnnexbFirst : Bool) : videoNaluDemux tryAnnexbFirst f =
    (match f.vcodec.payloadFormat with
      | .ibmf => Prog.wrap (HlsDecodeError.wrap "avc demux ibmf") avcDemuxIbmfFormat f
      | .annexb => Prog.wrap (HlsDecodeError.wrap "avc demux annexb") avcDemuxAnnexbFormat f
      | .guess =>
        if tryAnnexbFirst then
          guessFormat avcDemuxAnnexbFormat avcDemuxIbmfFormat .annexb .ibmf
            "avc demux try_annexb_first=%d" f
        else
          guessFormat avcDemuxIbmfFormat avcDemuxAnnexbFormat .ibmf .annexb
            "avc demux try_annexb_first=%d" f) := by
  have hok : ¬ (!f.vcodec.isAvcCodecOk) = true := by
    simp [VideoCodecConfig.isAvcCodecOk, hf.extraData]
  have hhevc : ¬ f.vcodec.id = .hevc := by
    rw [hf.avc]
    decide
  unfold videoNaluDemux
  rw [Prog.bind_ok (Prog.read_apply _ f), if_neg hok, if_neg hhevc]
  cases f.vcodec.payloadFormat with
  | ibmf => rfl
  | annexb => rfl
  | guess => cases tryAnnexbFirst <;> rfl

/-- A stream whose format is IBMF. -/
theorem demux_ibmf_iff (h : f.vcodec.payloadFormat = .ibmf) (tryAnnexbFirst : Bool)
    (hcount : nalus.length ≤ maxNbSamples) :
    Adds (videoNaluDemux tryAnnexbFirst) f nalus ↔
      LengthStream (lengthSize f.vcodec.nalUnitLength) f.stream.rest nalus := by
  have hrun : videoNaluDemux tryAnnexbFirst f =
      Prog.wrap (HlsDecodeError.wrap "avc demux ibmf") avcDemuxIbmfFormat f := by
    rw [hf.demux_run, h]
  rw [adds_congr hrun, adds_wrap_iff, hf.adds_ibmf_iff hcount]

/-- A stream whose format is Annex-B. -/
theorem demux_annexb_iff (h : f.vcodec.payloadFormat = .annexb) (tryAnnexbFirst : Bool)
    (hne : f.stream.rest ≠ []) (hcount : nalus.length ≤ maxNbSamples) :
    Adds (videoNaluDemux tryAnnexbFirst) f nalus ↔ AnnexbStream f.stream.rest nalus := by
  have hrun : videoNaluDemux tryAnnexbFirst f =
      Prog.wrap (HlsDecodeError.wrap "avc demux annexb") avcDemuxAnnexbFormat f := by
    rw [hf.demux_run, h]
  rw [adds_congr hrun, adds_wrap_iff, hf.adds_annexb_iff hne hcount]

/-- The first frame, if Annex-B is tried first. What it does not refuse at once is not all zeros,
so that IBMF finds a NALU in it, for which there is no room if Annex-B has failed. -/
theorem demux_annexb_first_iff (h : f.vcodec.payloadFormat = .guess) (hne : f.stream.rest ≠ [])
    (hcount : nalus.length ≤ maxNbSamples) :
    Adds (videoNaluDemux true) f nalus ↔ AnnexbStream f.stream.rest nalus ∨
      startsWithAnnexb f.stream.rest = none ∧
        LengthStream (lengthSize f.vcodec.nalUnitLength) f.stream.rest nalus := by
  have hrun : videoNaluDemux true f = guessFormat avcDemuxAnnexbFormat avcDemuxIbmfFormat
      .annexb .ibmf "avc demux try_annexb_first=%d" f := by
    rw [hf.demux_run, h, if_pos rfl]
  rw [adds_congr hrun, adds_guessFormat_iff, hf.adds_annexb_iff hne hcount]
  apply or_congr_right
  by_cases hcode : (startsWithAnnexb f.stream.rest).isSome = true
  · obtain ⟨nalus', hstream⟩ := exists_annexbStream f.stream.rest (.inr hcode)
    have hparse := annexb_run hf.pos hf.room hcode hstream
    constructor
    · rintro ⟨e, f', herr, hadds⟩
      exfalso
      have hover : ¬ Fits f nalus' := by
        intro hfits
        obtain ⟨f'', hok, -⟩ := hparse.ok trivial hfits
        rw [hok] at herr
        cases herr
      obtain ⟨e', f'', herr', hcodec, -, -, hfull⟩ := hparse.err fun hno => hover hno.2
      have hstreams := hparse.restored e f' herr
      rw [herr] at herr'
      cases herr'
      rw [Kernel.adds_ibmf_iff (by rw [hcodec]; exact hf.nalUnitLength)
        (by rw [hstreams]; exact hf.pos) (by rw [hfull hover]), hstreams] at hadds
      obtain ⟨found, hfound, hfits, -⟩ := hadds
      have hnone : found = [] := by
        unfold Fits at hfits
        rw [hfull hover] at hfits
        exact List.length_eq_zero_iff.mp (by omega)
      obtain ⟨n, hn⟩ := Option.isSome_iff_exists.mp hcode
      obtain ⟨zeros, rest, -, hrest⟩ := exists_of_startsWithAnnexb hn
      have hone : (1 : UInt8) ∈ f.stream.rest := by simp [hrest, startCode]
      exact absurd ((hnone ▸ hfound).zeros 1 hone) (by decide)
    · rintro ⟨hnone, -⟩
      rw [hnone] at hcode
      cases hcode
  · have hnone := Option.not_isSome_iff_eq_none.mp hcode
    obtain ⟨e, hrefused⟩ := annexb_refused hf.pos hnone
    rw [← hf.adds_ibmf_iff hcount]
    constructor
    · rintro ⟨e', f', herr, hadds⟩
      rw [hrefused] at herr
      cases herr
      exact ⟨hnone, hadds⟩
    · rintro ⟨-, hadds⟩
      exact ⟨e, f, hrefused, hadds⟩

/-- The first frame, if IBMF is tried first: the NALUs that it has found before it fails stay. -/
theorem demux_ibmf_first_iff (h : f.vcodec.payloadFormat = .guess) (hne : f.stream.rest ≠ [])
    (hsome : ∀ nalus, AnnexbStream f.stream.rest nalus → nalus ≠ [])
    (hcount : nalus.length ≤ maxNbSamples) :
    Adds (videoNaluDemux false) f nalus ↔
      LengthStream (lengthSize f.vcodec.nalUnitLength) f.stream.rest nalus ∨
      ∃ p bad before after, f.stream.rest = p ++ bad ∧ nalus = before ++ after ∧
        LengthStream (lengthSize f.vcodec.nalUnitLength) p before ∧
        Broken (lengthSize f.vcodec.nalUnitLength) bad ∧ AnnexbStream f.stream.rest after := by
  have hrun : videoNaluDemux false f = guessFormat avcDemuxIbmfFormat avcDemuxAnnexbFormat
      .ibmf .annexb "avc demux try_annexb_first=%d" f := by
    rw [hf.demux_run, h, if_neg (by decide)]
  rw [adds_congr hrun, adds_guessFormat_iff, hf.adds_ibmf_iff hcount]
  apply or_congr_right
  have hk := lengthSize_pos f.vcodec.nalUnitLength
  obtain ⟨p, bad, before, hrest, hstream, hbad⟩ := exists_lengthStream hk f.stream.rest
  have hparse := ibmf_run hf.nalUnitLength hf.pos hf.room hstream hbad hrest
  constructor
  · rintro ⟨e, f', herr, hadds⟩
    have hfails : ¬ (bad = [] ∧ Fits f before) := by
      rintro ⟨hnil, hfits⟩
      obtain ⟨f'', hok, -⟩ := hparse.ok hnil hfits
      rw [hok] at herr
      cases herr
    obtain ⟨e', f'', herr', -, -, hkept, hfull⟩ := hparse.err hfails
    have hstreams := hparse.restored e f' herr
    rw [herr] at herr'
    cases herr'
    by_cases hfits : Fits f before
    · have hsamples : f'.video.samples = before := by rw [hkept hfits, hf.samples, List.nil_append]
      rw [Kernel.adds_annexb_iff (by rw [hstreams]; exact hf.pos)
        (by rw [hsamples]; exact (hf.fits_iff before).mp hfits) (by rw [hstreams]; exact hne),
        hstreams, hsamples] at hadds
      obtain ⟨after, hafter, -, rfl⟩ := hadds
      exact ⟨p, bad, before, after, hrest, rfl, hstream,
        hbad.resolve_left fun hnil => hfails ⟨hnil, hfits⟩, hafter⟩
    · exfalso
      rw [Kernel.adds_annexb_iff (by rw [hstreams]; exact hf.pos) (by rw [hfull hfits])
        (by rw [hstreams]; exact hne), hstreams] at hadds
      obtain ⟨after, hafter, hroom, -⟩ := hadds
      unfold Fits at hroom
      rw [hfull hfits] at hroom
      exact hsome after hafter (List.length_eq_zero_iff.mp (by omega))
  · rintro ⟨p', bad', before', after, hrest', rfl, hstream', hbad', hafter⟩
    obtain ⟨hsame, hbads⟩ := hstream.unique hk hbad hstream' (.inr hbad') (by rw [← hrest, hrest'])
    subst hsame hbads
    rw [List.length_append] at hcount
    have hfits : Fits f before := (hf.fits_iff before).mpr (by omega)
    obtain ⟨e, f', herr, -, -, hkept, -⟩ := hparse.err fun hno => hbad'.1 hno.1
    have hstreams := hparse.restored e f' herr
    have hsamples : f'.video.samples = before := by rw [hkept hfits, hf.samples, List.nil_append]
    refine ⟨e, f', herr, ?_⟩
    rw [Kernel.adds_annexb_iff (by rw [hstreams]; exact hf.pos) (by rw [hsamples]; omega)
      (by rw [hstreams]; exact hne), hstreams, hsamples]
    refine ⟨after, hafter, ?_, rfl⟩
    unfold Fits
    rw [hsamples]
    omega

/-- The first frame, if it is IBMF and that is tried first. -/
theorem demux_of_lengthStream (h : f.vcodec.payloadFormat = .guess)
    (hcount : nalus.length ≤ maxNbSamples)
    (hstream : LengthStream (lengthSize f.vcodec.nalUnitLength) f.stream.rest nalus) :
    Adds (videoNaluDemux false) f nalus := by
  have hrun : videoNaluDemux false f = guessFormat avcDemuxIbmfFormat avcDemuxAnnexbFormat
      .ibmf .annexb "avc demux try_annexb_first=%d" f := by
    rw [hf.demux_run, h, if_neg (by decide)]
  rw [adds_congr hrun, adds_guessFormat_iff, hf.adds_ibmf_iff hcount]
  exact .inl hstream

end Ready

end SrsChatRoom.Kernel
