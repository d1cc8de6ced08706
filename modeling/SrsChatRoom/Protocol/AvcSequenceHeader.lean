import SrsChatRoom.Kernel.AvcConfig

/-!
# Sequence headers of raw streams (`SrsRawH264Stream::mux_sequence_header`)

A raw stream has its parameter sets in band. They are muxed into a decoder configuration record,
which `SrsFormat::avc_demux_sps_pps` reads again. The profile and the level come back unless their
byte is above 127, since the reader takes the bytes as signed. Of several parameter sets the reader
keeps the last that is not empty, though it says the first, and of the PPS it reads as many as the
last five bits of their count say.
-/

namespace SrsChatRoom.Protocol.RawAvc

open SrsChatRoom.Kernel SrsChatRoom.Kernel.Avc SrsBuffer

/-- The writes of `mux_sequence_header(sps, pps, sh)`. -/
def writeSequenceHeader (sps pps : List UInt8) : Dec Unit := do
  writeUint 1 0x01
  writeUint 1 (sps.getD 1 0).toNat
  writeUint 1 0x00
  writeUint 1 (sps.getD 3 0).toNat
  writeUint 1 (0xfc ||| 0x03)
  writeUint 1 (0xe0 ||| 0x01)
  writeUint 2 sps.length
  writeBytes sps
  writeUint 1 0x01
  writeUint 2 pps.length
  writeBytes pps

/-- `mux_sequence_header(sps, pps, sh)`: the record, where the SPS has the four bytes that are
asserted. -/
def muxSequenceHeader (sps pps : List UInt8) : Option (List UInt8) :=
  if 4 ≤ sps.length then
    match writeSequenceHeader sps pps
      ⟨List.replicate (5 + (3 + sps.length) + (3 + pps.length)) 0, 0⟩ with
    | .ok _ stream => some stream.bytes
    | _ => none
  else none

/-- The parameter sets of a raw stream. -/
structure SpsPps where
  sps : ParameterSet
  pps : ParameterSet
  four : 4 ≤ sps.data.length
  nonempty : 1 ≤ pps.data.length

namespace SpsPps

/-- The profile, in the second byte of the SPS. -/
def profile (s : SpsPps) : UInt8 := s.sps.data.getD 1 0

/-- The level, in the fourth. -/
def level (s : SpsPps) : UInt8 := s.sps.data.getD 3 0

/-- The record of the two sets. -/
def record (s : SpsPps) : AvcRecord where
  avcProfileIndication := s.profile
  profileCompatibility := 0
  avcLevelIndication := s.level
  lengthSizeMinusOne := 3
  spss := [s.sps]
  ppss := [s.pps]
  trailer := []
  lengthSize := Or.inr (Or.inr rfl)
  fewSpss := by simp
  fewPpss := by simp

end SpsPps

/-- The configuration has the sets, the profile and the level of the SPS, and lengths of 4 bytes. -/
structure Recovered (s : SpsPps) (v : Avc.SrsVideoCodecConfig) : Prop where
  sps : v.sequenceParameterSetNALUnit = s.sps.data
  pps : v.pictureParameterSetNALUnit = s.pps.data
  avcProfile : v.avcProfile = s.profile.toNat
  avcLevel : v.avcLevel = s.level.toNat
  nalUnitLength : v.nalUnitLength + 1 = 4

/-- Whatever the configuration was, the record that is muxed gives the sets back. -/
def RoundTrips (s : SpsPps) : Prop :=
  ∃ sh, muxSequenceHeader s.sps.data s.pps.data = some sh ∧
    ∀ f : SrsFormat, f.stream = ⟨sh, 0⟩ → Leaves avcDemuxSpsPps f (Recovered s)

/-- Whatever the configuration was, of each kind the first set that is not empty is kept. -/
def KeepsFirst (r : AvcRecord) : Prop :=
  ∀ f : SrsFormat, f.stream = ⟨r.toBytes, 0⟩ → Leaves avcDemuxSpsPps f fun v =>
    (∀ data, firstNonEmpty r.spss = some data → v.sequenceParameterSetNALUnit = data) ∧
      ∀ data, firstNonEmpty r.ppss = some data → v.pictureParameterSetNALUnit = data

/-- Of each kind the first set that is not empty is the last of those that are read. -/
structure FirstIsLast (r : AvcRecord) : Prop where
  sps : lastNonEmpty r.spss = firstNonEmpty r.spss
  pps : firstNonEmpty r.ppss = none ∨
    r.spss ≠ [] ∧ lastNonEmpty r.readPpss = firstNonEmpty r.ppss

/-! ## Muxing -/

theorem writeSequenceHeader_writes (s : SpsPps) :
    Kernel.Writes (writeSequenceHeader s.sps.data s.pps.data) s.record.toBytes := by
  have hbyte : ∀ v : ℕ, bytesBE 1 v = [UInt8.ofNat v] := by
    intro v
    simp [bytesBE]
  have hwrites := (writes_writeUint 1 0x01).seq ((writes_writeUint 1 s.profile.toNat).seq
    ((writes_writeUint 1 0x00).seq ((writes_writeUint 1 s.level.toNat).seq
      ((writes_writeUint 1 (0xfc ||| 0x03)).seq ((writes_writeUint 1 (0xe0 ||| 0x01)).seq
        ((writes_writeUint 2 s.sps.data.length).seq ((writes_writeBytes s.sps.data).seq
          ((writes_writeUint 1 0x01).seq ((writes_writeUint 2 s.pps.data.length).seq
            (writes_writeBytes s.pps.data))))))))))
  have hbytes : s.record.toBytes = bytesBE 1 0x01 ++ (bytesBE 1 s.profile.toNat ++
      (bytesBE 1 0x00 ++ (bytesBE 1 s.level.toNat ++ (bytesBE 1 (0xfc ||| 0x03) ++
        (bytesBE 1 (0xe0 ||| 0x01) ++ (bytesBE 2 s.sps.data.length ++ (s.sps.data ++
          (bytesBE 1 0x01 ++ (bytesBE 2 s.pps.data.length ++ s.pps.data))))))))) := by
    simp only [hbyte, UInt8.ofNat_toNat]
    unfold AvcRecord.toBytes AvcRecord.header SpsPps.record ParameterSet.toBytes
    simp
  rw [hbytes]
  exact hwrites

theorem muxSequenceHeader_eq (s : SpsPps) :
    muxSequenceHeader s.sps.data s.pps.data = some s.record.toBytes := by
  have hlength : s.record.toBytes.length =
      5 + (3 + s.sps.data.length) + (3 + s.pps.data.length) := by
    unfold AvcRecord.toBytes AvcRecord.header SpsPps.record ParameterSet.toBytes
    simp
    omega
  unfold muxSequenceHeader
  rw [if_pos s.four, ← hlength]
  have hroom : (⟨List.replicate s.record.toBytes.length 0, 0⟩ : SrsBuffer).pos +
      s.record.toBytes.length ≤
        (⟨List.replicate s.record.toBytes.length 0, 0⟩ : SrsBuffer).bytes.length := by
    simp
  rw [writeSequenceHeader_writes s _ hroom]
  -- the writes fill the whole packet
  simp [put]

/-! ## Reading what has been muxed -/

theorem signedByte_eq_iff (b : UInt8) : signedByte b.toNat = b.toNat ↔ b.toNat < 128 := by
  have hlt := b.toNat_lt
  unfold signedByte
  rw [Int.bmod_def]
  omega

/-- A format at the start of these bytes, with a configuration of which nothing is known. -/
def blankFormat (bytes : List UInt8) : SrsFormat :=
  ⟨⟨[], 0, 0, 0, [], [], 0, 0⟩, true, ⟨bytes, 0⟩⟩

theorem lastNonEmpty_singleton {set : ParameterSet} (h : 1 ≤ set.data.length) :
    lastNonEmpty [set] = some set.data := by
  have hne : set.data ≠ [] := by
    intro hnil
    rw [hnil] at h
    cases h
  exact (lastNonEmpty_append [] set).trans (if_pos hne)

theorem spsPps_roundTrips_iff (s : SpsPps) :
    RoundTrips s ↔ s.profile.toNat < 128 ∧ s.level.toNat < 128 := by
  have hsps : lastNonEmpty s.record.spss = some s.sps.data :=
    lastNonEmpty_singleton (by have := s.four; omega)
  have hpps : lastNonEmpty s.record.readPpss = some s.pps.data :=
    lastNonEmpty_singleton s.nonempty
  constructor
  · rintro ⟨sh, hmux, hleaves⟩
    rw [muxSequenceHeader_eq] at hmux
    cases hmux
    obtain ⟨v, hrecovered, hconfigured⟩ := (hleaves (blankFormat s.record.toBytes) rfl).and
      (record_leaves s.record (Nat.zero_le _) rfl)
    have hprofile := hconfigured.avcProfile.symm.trans hrecovered.avcProfile
    have hlevel := hconfigured.avcLevel.symm.trans hrecovered.avcLevel
    exact ⟨(signedByte_eq_iff _).mp hprofile, (signedByte_eq_iff _).mp hlevel⟩
  · rintro ⟨hprofile, hlevel⟩
    refine ⟨s.record.toBytes, muxSequenceHeader_eq s, fun f hf => ?_⟩
    have hleaves := record_leaves s.record (f := f) (by rw [hf]; exact Nat.zero_le _)
      (by rw [hf]; rfl)
    refine hleaves.mono fun v hv => ?_
    have hnonempty : s.record.spss ≠ [] := List.cons_ne_nil _ _
    exact {
      sps := by rw [hv.sps, hsps]; rfl
      pps := by rw [hv.pps, if_neg hnonempty, hpps]; rfl
      avcProfile := hv.avcProfile.trans ((signedByte_eq_iff _).mpr hprofile)
      avcLevel := hv.avcLevel.trans ((signedByte_eq_iff _).mpr hlevel)
      nalUnitLength := by rw [hv.nalUnitLength]; rfl }

theorem keepsFirst_iff (r : AvcRecord) : KeepsFirst r ↔ FirstIsLast r := by
  constructor
  · intro h
    obtain ⟨v, ⟨hsps, hpps⟩, hconfigured⟩ := (h (blankFormat r.toBytes) rfl).and
      (record_leaves r (Nat.zero_le _) rfl)
    have hkept : v.sequenceParameterSetNALUnit = (lastNonEmpty r.spss).getD [] := hconfigured.sps
    have hkept' : v.pictureParameterSetNALUnit =
        if r.spss = [] then [] else (lastNonEmpty r.readPpss).getD [] := hconfigured.pps
    constructor
    · cases hfirst : firstNonEmpty r.spss with
      | none => exact lastNonEmpty_eq_none hfirst
      | some data =>
        have hdata := (hsps data hfirst).symm.trans hkept
        exact eq_some_of_getD (firstNonEmpty_ne_nil hfirst) hdata
    · cases hfirst : firstNonEmpty r.ppss with
      | none => exact Or.inl rfl
      | some data =>
        apply Or.inr
        have hne := firstNonEmpty_ne_nil hfirst
        have hdata := (hpps data hfirst).symm.trans hkept'
        by_cases hnone : r.spss = []
        · rw [if_pos hnone] at hdata
          exact absurd hdata hne
        · rw [if_neg hnone] at hdata
          exact ⟨hnone, eq_some_of_getD hne hdata⟩
  · intro h f hf
    have hleaves := record_leaves r (f := f) (by rw [hf]; exact Nat.zero_le _) (by rw [hf]; rfl)
    refine hleaves.mono fun v hv => ⟨fun data hfirst => ?_, fun data hfirst => ?_⟩
    · rw [hv.sps, h.sps, hfirst]
      rfl
    · rcases h.pps with hnone | ⟨hsome, hlast⟩
      · rw [hnone] at hfirst
        cases hfirst
      · rw [hv.pps, if_neg hsome, hlast, hfirst]
        rfl

/-- Two sets come back from the record that is muxed of them exactly where the profile and the
level are below 128; and of the sets of a well-formed record the first is kept exactly where it is
also the last, among those that are read. -/
theorem sequence_header_iff (s : SpsPps) (r : AvcRecord) :
    (RoundTrips s ↔ s.profile.toNat < 128 ∧ s.level.toNat < 128) ∧
      (KeepsFirst r ↔ FirstIsLast r) :=
  ⟨spsPps_roundTrips_iff s, keepsFirst_iff r⟩

/-- The SPS of a stream with 4:4:4 chroma, and a PPS. -/
def high444 : SpsPps where
  sps := ⟨[0x67, 0xf4, 0x00, 0x1e], by decide⟩
  pps := ⟨[0x68], by decide⟩
  four := by decide
  nonempty := by decide

/-- A record with two SPS, the second of which is another one. -/
def twoSpss : AvcRecord where
  avcProfileIndication := 66
  profileCompatibility := 0
  avcLevelIndication := 30
  lengthSizeMinusOne := 3
  spss := [⟨[0x67, 0x42, 0x00, 0x1e], by decide⟩, ⟨[0x67, 0x42, 0x00, 0x1f], by decide⟩]
  ppss := [⟨[0x68], by decide⟩]
  trailer := []
  lengthSize := Or.inr (Or.inr rfl)
  fewSpss := by simp
  fewPpss := by simp

/-- The profile 244 comes back as another one, and of two SPS the second is kept. -/
theorem high444_and_two_spss : ¬ RoundTrips high444 ∧ ¬ KeepsFirst twoSpss := by
  constructor
  · intro h
    have hprofile := ((spsPps_roundTrips_iff high444).mp h).1
    exact absurd hprofile (by decide)
  · intro h
    have hsps := ((keepsFirst_iff twoSpss).mp h).sps
    exact absurd hsps (by decide)

end SrsChatRoom.Protocol.RawAvc
