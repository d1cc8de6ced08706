import SrsChatRoom.Kernel.Rtp

/-!
# What the header decoder returns (`srs_kernel_rtc_rtp.cpp`)

The fixed header and the `CSRC` list are read at fixed places (`decodeHeader_run`). `Accepts` are
the areas of elements that `decode_0xbede` goes through without an error, with what the elements
set; `decode0xbede_ok_iff` and `decodeExtensions_ok_iff` say that these are all.
-/

namespace SrsChatRoom.Kernel.Rtp

open SrsBuffer
open SrsChatRoom.Prog (bind_ok bind_err)

/-! ## Elements -/

/-- An id that an element can have. -/
structure ExtensionId where
  id : ℕ
  low : 1 ≤ id
  high : id ≤ 14

/-- The decoder accepts the elements of an area, which change the extensions this way. The
transport sequence number is decoded. -/
inductive Accepts (cfg : Config) : List UInt8 → Extensions → Extensions → Prop
  | done {ext} : Accepts cfg [] ext ext
  | padding {r ext ext'} (h : Accepts cfg r ext ext') : Accepts cfg (0 :: r) ext ext'
  | twcc {r ext ext'} {v hi lo : UInt8} (hv : v ≠ 0)
      (htype : cfg.typeOf (elementId v.toNat) = .transportSequenceNumber)
      (hid : elementId v.toNat ≠ 0) (hlen : elementLen v.toNat = 1)
      (h : Accepts cfg r
        { ext with twcc := some ⟨elementId v.toNat, ofBytesBE [hi, lo]⟩, hasExt := true } ext') :
      Accepts cfg (v :: hi :: lo :: r) ext ext'
  | audioLevel {r ext ext'} {v level : UInt8} (hv : v ≠ 0)
      (htype : cfg.typeOf (elementId v.toNat) = .audioLevel)
      (hid : elementId v.toNat ≠ 0) (hlen : elementLen v.toNat = 0)
      (h : Accepts cfg r
        { ext with audioLevel := some ⟨elementId v.toNat, level.toNat⟩, hasExt := true } ext') :
      Accepts cfg (v :: level :: r) ext ext'
  | skipped {r ext ext'} {v : UInt8} (hv : v ≠ 0)
      (htype : cfg.typeOf (elementId v.toNat) = .none) (hlen : elementLen v.toNat + 1 ≤ r.length)
      (h : Accepts cfg (r.drop (elementLen v.toNat + 1)) ext ext') : Accepts cfg (v :: r) ext ext'

section Elements

variable {cfg : Config} {b : SrsBuffer} {v : UInt8} {r : List UInt8} {ext ext' : Extensions}

theorem accepts_nil_iff : Accepts cfg [] ext ext' ↔ ext = ext' := by
  constructor
  · rintro ⟨⟩
    rfl
  · rintro rfl
    exact .done

theorem accepts_zero_iff : Accepts cfg (0 :: r) ext ext' ↔ Accepts cfg r ext ext' := by
  constructor
  · intro h
    cases h with
    | padding h => exact h
    | twcc hv => exact absurd rfl hv
    | audioLevel hv => exact absurd rfl hv
    | skipped hv => exact absurd rfl hv
  · exact .padding

theorem accepts_twcc_iff (hv : v ≠ 0)
    (htype : cfg.typeOf (elementId v.toNat) = .transportSequenceNumber) :
    Accepts cfg (v :: r) ext ext' ↔ elementId v.toNat ≠ 0 ∧ elementLen v.toNat = 1 ∧
      ∃ hi lo r', r = hi :: lo :: r' ∧ Accepts cfg r'
        { ext with twcc := some ⟨elementId v.toNat, ofBytesBE [hi, lo]⟩, hasExt := true } ext' := by
  constructor
  · intro h
    cases h with
    | padding => exact absurd rfl hv
    | twcc _ _ hid hlen h => exact ⟨hid, hlen, _, _, _, rfl, h⟩
    | audioLevel _ haudio =>
      rw [htype] at haudio
      cases haudio
    | skipped _ hnone =>
      rw [htype] at hnone
      cases hnone
  · rintro ⟨hid, hlen, hi, lo, r', rfl, h⟩
    exact .twcc hv htype hid hlen h

theorem accepts_audioLevel_iff (hv : v ≠ 0)
    (htype : cfg.typeOf (elementId v.toNat) = .audioLevel) :
    Accepts cfg (v :: r) ext ext' ↔ elementId v.toNat ≠ 0 ∧ elementLen v.toNat = 0 ∧
      ∃ level r', r = level :: r' ∧ Accepts cfg r'
        { ext with audioLevel := some ⟨elementId v.toNat, level.toNat⟩, hasExt := true } ext' := by
  constructor
  · intro h
    cases h with
    | padding => exact absurd rfl hv
    | twcc _ htwcc =>
      rw [htype] at htwcc
      cases htwcc
    | audioLevel _ _ hid hlen h => exact ⟨hid, hlen, _, _, rfl, h⟩
    | skipped _ hnone =>
      rw [htype] at hnone
      cases hnone
  · rintro ⟨hid, hlen, level, r', rfl, h⟩
    exact .audioLevel hv htype hid hlen h

theorem accepts_skipped_iff (hv : v ≠ 0) (htype : cfg.typeOf (elementId v.toNat) = .none) :
    Accepts cfg (v :: r) ext ext' ↔ elementLen v.toNat + 1 ≤ r.length ∧
      Accepts cfg (r.drop (elementLen v.toNat + 1)) ext ext' := by
  constructor
  · intro h
    cases h with
    | padding => exact absurd rfl hv
    | twcc _ htwcc =>
      rw [htype] at htwcc
      cases htwcc
    | audioLevel _ haudio =>
      rw [htype] at haudio
      cases haudio
    | skipped _ _ hlen h => exact ⟨hlen, h⟩
  · rintro ⟨hlen, h⟩
    exact .skipped hv htype hlen h

/-- What is not returned. -/
theorem not_ok_of_err {α : Type} {x : Dec α} {a : α} {e : SrsError} {b1 : SrsBuffer}
    (h : x b = .err e b1) : ¬ ∃ b', x b = .ok a b' := by
  rintro ⟨b', hok⟩
  rw [h] at hok
  cases hok

theorem not_ok_of_fault {α : Type} {x : Dec α} {a : α} (h : x b = .fault) :
    ¬ ∃ b', x b = .ok a b' := by
  rintro ⟨b', hok⟩
  rw [h] at hok
  cases hok

/-- With fuel for the bytes that are left, the loop accepts exactly these areas. -/
theorem decode0xbede_ok_iff (htwcc : cfg.decodeTwccExtension = true) (fuel : ℕ)
    (hpos : b.pos ≤ b.bytes.length) (hfuel : b.rest.length < fuel) :
    (∃ b', decode0xbede cfg fuel ext b = .ok ext' b') ↔ Accepts cfg b.rest ext ext' := by
  induction fuel generalizing b ext with
  | zero => omega
  | succ fuel ih =>
    cases h : b.rest with
    | nil =>
      rw [decode0xbede_nil h fuel ext, accepts_nil_iff]
      constructor
      · rintro ⟨b', hok⟩
        exact (Outcome.ok.inj hok).1
      · rintro rfl
        exact ⟨b, rfl⟩
    | cons v r =>
      have hlen : b.rest.length = r.length + 1 := by simp [h]
      have hnext : ∀ n ext1, n ≤ r.length →
          ((∃ b', decode0xbede cfg fuel ext1 (b.advance (1 + n)) = .ok ext' b') ↔
            Accepts cfg (r.drop n) ext1 ext') := by
        intro n ext1 hn
        have hrest : (b.advance (1 + n)).rest = r.drop n := by
          rw [← advance_advance, rest_advance, rest_advance_one h]
        rw [ih (pos_advance_le (by omega) hpos) (by rw [hrest, List.length_drop]; omega), hrest]
      by_cases hv : v = 0
      · subst hv
        rw [decode0xbede_zero h hpos fuel ext, accepts_zero_iff]
        exact hnext 0 ext (Nat.zero_le _)
      · rw [decode0xbede_cons h hpos hv fuel ext]
        by_cases href : Refused cfg v.toNat r
        · -- refused by the element itself
          obtain ⟨e, b', hdec⟩ := decodeElement_refused h hpos href ext
          apply iff_of_false (not_ok_of_err (bind_err hdec _))
          intro haccepts
          unfold Refused at href
          cases htype : cfg.typeOf (elementId v.toNat) with
          | transportSequenceNumber =>
            simp only [htype, htwcc, if_true] at href
            obtain ⟨hid, hone, hi, lo, r', rfl, -⟩ := (accepts_twcc_iff hv htype).mp haccepts
            simp only [List.length_cons] at href
            omega
          | audioLevel =>
            simp only [htype] at href
            obtain ⟨hid, hzero, level, r', rfl, -⟩ :=
              (accepts_audioLevel_iff hv htype).mp haccepts
            simp only [List.length_cons] at href
            omega
          | none =>
            simp only [htype] at href
        · unfold Refused at href
          cases htype : cfg.typeOf (elementId v.toNat) with
          | transportSequenceNumber =>
            simp only [htype, htwcc, if_true, not_or, not_not, not_lt] at href
            obtain ⟨hid, hone, htwo⟩ := href
            match r with
            | [] => exact absurd htwo (by decide)
            | [_] => exact absurd htwo (by decide : ¬ 2 ≤ 1)
            | hi :: lo :: r' =>
              have hdec := Prog.wrap_ok (decodeTwcc_value h hpos hid hone htwo)
                (srsErrorWrap "decode twcc extension")
              have helement : decodeElement cfg v.toNat ext b = .ok { ext with
                  twcc := some ⟨elementId v.toNat, ofBytesBE [hi, lo]⟩, hasExt := true }
                  (b.advance (1 + 2)) := by
                rw [decodeElement, htype]
                simp only [htwcc, if_true]
                rw [bind_ok hdec]
                rfl
              rw [bind_ok helement, hnext 2 _ htwo, accepts_twcc_iff hv htype]
              constructor
              · exact fun h => ⟨hid, hone, hi, lo, r', rfl, h⟩
              · rintro ⟨-, -, hi', lo', r'', heq, h⟩
                cases heq
                exact h
          | audioLevel =>
            simp only [htype, not_or, not_not, not_lt] at href
            obtain ⟨hid, hzero, hone⟩ := href
            match r with
            | [] => exact absurd hone (by decide)
            | level :: r' =>
              have hdec := Prog.wrap_ok (decodeOneByte_value h hpos hid hzero)
                (srsErrorWrap "decode audio level extension")
              have helement : decodeElement cfg v.toNat ext b = .ok { ext with
                  audioLevel := some ⟨elementId v.toNat, level.toNat⟩, hasExt := true }
                  (b.advance (1 + 1)) := by
                rw [decodeElement, htype]
                simp only []
                rw [bind_ok hdec]
                rfl
              rw [bind_ok helement, hnext 1 _ hone, accepts_audioLevel_iff hv htype]
              constructor
              · exact fun h => ⟨hid, hzero, level, r', rfl, h⟩
              · rintro ⟨-, -, level', r'', heq, h⟩
                cases heq
                exact h
          | none =>
            rw [accepts_skipped_iff hv htype]
            by_cases hsize : elementLen v.toNat + 1 ≤ r.length
            · have hskip := skip_run (b := b) (n := 1 + (elementLen v.toNat + 1)) (by omega) hpos
              have helement : decodeElement cfg v.toNat ext b =
                  .ok ext (b.advance (1 + (elementLen v.toNat + 1))) := by
                rw [decodeElement, htype]
                exact bind_ok hskip _
              rw [bind_ok helement, hnext _ _ hsize]
              exact (and_iff_right hsize).symm
            · have hskip := skip_fault (b := b) (n := 1 + (elementLen v.toNat + 1)) (by omega)
              have helement : decodeElement cfg v.toNat ext b = .fault := by
                rw [decodeElement, htype]
                exact Prog.bind_fault hskip _
              exact iff_of_false (not_ok_of_fault (Prog.bind_fault helement _))
                fun h => hsize h.1

end Elements

/-- A buffer of its own for the area. -/
theorem decode0xbede_area_iff {cfg : Config} {ext ext' : Extensions}
    (htwcc : cfg.decodeTwccExtension = true) (area : List UInt8) :
    (∃ b', decode0xbede cfg (area.length + 1) ext ⟨area, 0⟩ = .ok ext' b') ↔
      Accepts cfg area ext ext' :=
  decode0xbede_ok_iff (b := ⟨area, 0⟩) htwcc (area.length + 1) (Nat.zero_le _)
    (Nat.lt_succ_self _)

/-! ## The header extension -/

/-- The profile of a header extension. -/
def profileOf (x : List UInt8) : ℕ := ofBytesBE (x.take 2)

/-- The size of its area in bytes. -/
def areaSizeOf (x : List UInt8) : ℕ := ofBytesBE ((x.drop 2).take 2) * 4

/-- The bytes are a header extension and maybe more, which sets this. -/
def Extends (cfg : Config) (x : List UInt8) (ext : Extensions) : Prop :=
  4 + areaSizeOf x ≤ x.length ∧
    (profileOf x = 0xBEDE ∧ Accepts cfg ((x.drop 4).take (areaSizeOf x)) Extensions.new ext ∨
      profileOf x = 0x1000 ∧ ext = Extensions.new)

section Extension

variable {cfg : Config} {b : SrsBuffer}

theorem onBuffer_ok_iff {α : Type} {xbuf b' : SrsBuffer} {x : Dec α} {a : α} :
    onBuffer xbuf x b = .ok a b' ↔ (∃ b1, x xbuf = .ok a b1) ∧ b' = b := by
  rw [onBuffer]
  cases x xbuf with
  | ok a1 b1 =>
    constructor
    · intro h
      obtain ⟨rfl, rfl⟩ := Outcome.ok.inj h
      exact ⟨⟨b1, rfl⟩, rfl⟩
    · rintro ⟨⟨b2, h⟩, rfl⟩
      obtain ⟨rfl, -⟩ := Outcome.ok.inj h
      rfl
  | err e b1 => simp
  | fault => simp
  | hang => simp

theorem decodeExtensions_ok_iff (htwcc : cfg.decodeTwccExtension = true)
    (hpos : b.pos ≤ b.bytes.length) (ext : Extensions) (b' : SrsBuffer) :
    decodeExtensions cfg b = .ok ext b' ↔
      Extends cfg b.rest ext ∧ b' = b.advance (4 + areaSizeOf b.rest) := by
  unfold decodeExtensions
  by_cases h4 : 4 ≤ b.rest.length
  · have hpos4 := pos_advance_le (n := 4) h4 hpos
    have hlen4 : (b.advance 4).rest.length = b.rest.length - 4 := by
      rw [rest_advance, List.length_drop]
    have hprofileOf : ofBytesBE (b.rest.take 2) = profileOf b.rest := rfl
    have hsizeOf : ofBytesBE ((b.rest.drop 2).take 2) * 4 = areaSizeOf b.rest := rfl
    rw [extensionHeader_run h4 hpos, Extends, hprofileOf, hsizeOf]
    by_cases hbede : profileOf b.rest = 0xBEDE
    · rw [if_pos hbede, bind_ok (Prog.read_apply _ _)]
      by_cases hfit : 4 + areaSizeOf b.rest ≤ b.rest.length
      · have hskip := skip_run (b := b.advance 4) (n := areaSizeOf b.rest) (by omega) hpos4
        have harea : ((b.advance 4).bytes.drop (b.advance 4).pos).take (areaSizeOf b.rest) =
            (b.rest.drop 4).take (areaSizeOf b.rest) := by
          rw [← rest_advance]
          rfl
        rw [bind_ok hskip, onBuffer_ok_iff, harea, decode0xbede_area_iff htwcc,
          advance_advance]
        constructor
        · exact fun h => ⟨⟨hfit, Or.inl ⟨hbede, h.1⟩⟩, h.2⟩
        · rintro ⟨⟨-, ⟨-, haccepts⟩ | ⟨happ, -⟩⟩, hb'⟩
          · exact ⟨haccepts, hb'⟩
          · rw [hbede] at happ
            exact absurd happ (by decide)
      · have hfault := skip_fault (b := b.advance 4) (n := areaSizeOf b.rest) (by omega)
        rw [Prog.bind_fault hfault]
        exact iff_of_false (by simp) fun h => hfit h.1.1
    · rw [if_neg hbede]
      by_cases happ : profileOf b.rest = 0x1000
      · rw [if_pos happ]
        by_cases hfit : 4 + areaSizeOf b.rest ≤ b.rest.length
        · have hskip := skip_run (b := b.advance 4) (n := areaSizeOf b.rest) (by omega) hpos4
          rw [bind_ok hskip, advance_advance, Prog.pure_apply]
          constructor
          · intro h
            obtain ⟨rfl, rfl⟩ := Outcome.ok.inj h
            exact ⟨⟨hfit, Or.inr ⟨happ, rfl⟩⟩, rfl⟩
          · rintro ⟨⟨-, ⟨h, -⟩ | ⟨-, rfl⟩⟩, rfl⟩
            · exact absurd h hbede
            · rfl
        · have hfault := skip_fault (b := b.advance 4) (n := areaSizeOf b.rest) (by omega)
          rw [Prog.bind_fault hfault]
          exact iff_of_false (by simp) fun h => hfit h.1.1
      · rw [if_neg happ, Prog.throw_apply]
        refine iff_of_false (by simp) ?_
        rintro ⟨⟨-, ⟨h, -⟩ | ⟨h, -⟩⟩, -⟩
        · exact hbede h
        · exact happ h
  · have hcheck : checkRequire 4 .rtcRtpMuxer "requires 4 bytes" b = .err _ _ :=
      checkRequire_fail (n := 4) (by omega) _ _
    rw [bind_err hcheck]
    exact iff_of_false (by simp) fun h => h4 (le_trans (Nat.le_add_right 4 _) h.1.1)

end Extension

/-! ## The fixed header -/

section Header

variable {cfg : Config} {bytes : List UInt8}

/-- The first byte of a packet. -/
def firstByte (bytes : List UInt8) : ℕ := (bytes.getD 0 0).toNat

/-- Where the `CSRC` list ends. -/
def fixedSize (bytes : List UInt8) : ℕ := rtpHeaderFixedSize + firstByte bytes % 16 * 4

/-- The header with these extensions and this padding. -/
def headerWith (bytes : List UInt8) (extensions : Extensions) (paddingLength : ℕ) : RtpHeader where
  cc := firstByte bytes % 16
  marker := uintAt bytes 1 1 / 128 = 1
  payloadType := uintAt bytes 1 1 % 128
  sequence := uintAt bytes 2 2
  timestamp := uintAt bytes 4 4
  ssrc := uintAt bytes 8 4
  csrc := (List.range (firstByte bytes % 16)).map fun i => uintAt bytes (12 + 4 * i) 4
  extensions := extensions
  paddingLength := paddingLength

theorem readUint_at {p n : ℕ} (h : p + n ≤ bytes.length) :
    readUint n ⟨bytes, p⟩ = .ok (uintAt bytes p n) ⟨bytes, p + n⟩ := by
  apply readUint_run (b := ⟨bytes, p⟩)
  · rw [length_rest]
    show n ≤ bytes.length - p
    omega
  · show p ≤ bytes.length
    omega

theorem readCsrcs_at (bytes : List UInt8) (n p : ℕ) (h : p + 4 * n ≤ bytes.length) :
    readCsrcs n ⟨bytes, p⟩ =
      .ok ((List.range n).map fun i => uintAt bytes (p + 4 * i) 4) ⟨bytes, p + 4 * n⟩ := by
  induction n generalizing p with
  | zero => rfl
  | succ n ih =>
    have hrest := ih (p + 4) (by omega)
    rw [readCsrcs, bind_ok (readUint_at (by omega)), bind_ok hrest,
      List.range_succ_eq_map, List.map_cons, List.map_map]
    have hmap : (fun i => uintAt bytes (p + 4 * i) 4) ∘ Nat.succ =
        fun i => uintAt bytes (p + 4 + 4 * i) 4 := by
      funext i
      show uintAt bytes (p + 4 * (i + 1)) 4 = _
      rw [show p + 4 * (i + 1) = p + 4 + 4 * i by omega]
    rw [hmap, show p + 4 * (n + 1) = p + 4 + 4 * n by omega]
    rfl

theorem uintAt_zero (bytes : List UInt8) : uintAt bytes 0 1 = firstByte bytes := by
  cases bytes with
  | nil => rfl
  | cons v r => simp [uintAt, firstByte, ofBytesBE]

/-- With the twelve bytes there, the fixed fields are read, and the list is checked for. -/
theorem decodeHeader_fixed (cfg : Config) (h : 12 ≤ bytes.length) :
    ∃ message, decodeHeader cfg ⟨bytes, 0⟩ =
      (checkRequire (firstByte bytes % 16 * 4 : ℕ) .rtcRtpMuxer message >>= fun _ =>
        readCsrcs (firstByte bytes % 16) >>= fun csrc =>
        parseExtensions cfg (firstByte bytes / 16 % 2 = 1) >>= fun extensions =>
        decodePadding cfg (firstByte bytes / 32 % 2 = 1) >>= fun paddingLength =>
          pure { headerWith bytes extensions paddingLength with csrc := csrc }) ⟨bytes, 12⟩ := by
  have hcheck : checkRequire rtpHeaderFixedSize .rtcRtpMuxer "requires 12+ bytes" ⟨bytes, 0⟩ =
      .ok () ⟨bytes, 0⟩ :=
    checkRequire_pass (b := ⟨bytes, 0⟩) (n := 12) (by rw [length_rest]; exact h) (Nat.zero_le _) _ _
  refine ⟨"requires " ++ toString (firstByte bytes % 16 * 4) ++ "+ bytes", ?_⟩
  rw [decodeHeader, bind_ok hcheck, bind_ok (readUint_at (p := 0) (by omega)),
    uintAt_zero, bind_ok (readUint_at (p := 0 + 1) (by omega)),
    bind_ok (readUint_at (p := 0 + 1 + 1) (by omega)),
    bind_ok (readUint_at (p := 0 + 1 + 1 + 2) (by omega)),
    bind_ok (readUint_at (p := 0 + 1 + 1 + 2 + 4) (by omega))]
  rfl

/-- What is read behind the `CSRC` list. -/
theorem decodeHeader_run (h : fixedSize bytes ≤ bytes.length) :
    decodeHeader cfg ⟨bytes, 0⟩ =
      (parseExtensions cfg (firstByte bytes / 16 % 2 = 1) >>= fun extensions =>
        decodePadding cfg (firstByte bytes / 32 % 2 = 1) >>= fun paddingLength =>
          pure (headerWith bytes extensions paddingLength)) ⟨bytes, fixedSize bytes⟩ := by
  have hsize : fixedSize bytes = 12 + firstByte bytes % 16 * 4 := rfl
  have hcsrc := readCsrcs_at bytes (firstByte bytes % 16) 12 (by omega)
  obtain ⟨message, hfixed⟩ := decodeHeader_fixed cfg (show 12 ≤ bytes.length by omega)
  have hcheck : checkRequire (firstByte bytes % 16 * 4 : ℕ) .rtcRtpMuxer message ⟨bytes, 12⟩ =
      .ok () ⟨bytes, 12⟩ := by
    apply checkRequire_pass
    · rw [length_rest]
      show firstByte bytes % 16 * 4 ≤ bytes.length - 12
      omega
    · show 12 ≤ bytes.length
      omega
  rw [hfixed, bind_ok hcheck, bind_ok hcsrc, Nat.mul_comm 4]
  rfl

theorem decodeHeader_short (cfg : Config) (h : bytes.length < fixedSize bytes) :
    ∃ e b, decodeHeader cfg ⟨bytes, 0⟩ = .err e b := by
  have hsize : fixedSize bytes = 12 + firstByte bytes % 16 * 4 := rfl
  by_cases h12 : 12 ≤ bytes.length
  · obtain ⟨message, hfixed⟩ := decodeHeader_fixed cfg h12
    have hcheck : checkRequire (firstByte bytes % 16 * 4 : ℕ) .rtcRtpMuxer message ⟨bytes, 12⟩ =
        .err (srsErrorNew .rtcRtpMuxer message) ⟨bytes, 12⟩ := by
      apply checkRequire_fail
      rw [length_rest]
      show bytes.length - 12 < _
      omega
    rw [hfixed, bind_err hcheck]
    exact ⟨_, _, rfl⟩
  · have hcheck : checkRequire rtpHeaderFixedSize .rtcRtpMuxer "requires 12+ bytes" ⟨bytes, 0⟩ =
        .err _ _ :=
      checkRequire_fail (b := ⟨bytes, 0⟩) (n := 12) (by rw [length_rest]; exact not_le.mp h12) _ _
    exact ⟨_, _, bind_err hcheck _⟩

/-! ## Padding -/

/-- The padding that is read behind the position `p`. -/
def PaddingIs (cfg : Config) (padding : Bool) (bytes : List UInt8) (p paddingLength : ℕ) : Prop :=
  if padding = true ∧ cfg.ignorePadding = false ∧ p < bytes.length then
    paddingLength = (bytes.getLast?.getD 0).toNat ∧ paddingLength ≤ bytes.length - p
  else paddingLength = 0

theorem decodePadding_ok_iff {p : ℕ} (hp : p ≤ bytes.length) (padding : Bool) (n : ℕ)
    (b' : SrsBuffer) : decodePadding cfg padding ⟨bytes, p⟩ = .ok n b' ↔
      PaddingIs cfg padding bytes p n ∧ b' = ⟨bytes, p⟩ := by
  unfold decodePadding PaddingIs
  have hempty : (⟨bytes, p⟩ : SrsBuffer).empty = decide (bytes.length ≤ p) := rfl
  rw [bind_ok (Prog.read_apply _ _), hempty]
  by_cases h : padding = true ∧ cfg.ignorePadding = false ∧ p < bytes.length
  · obtain ⟨hpadding, hignore, hlt⟩ := h
    have hcond : (padding && !cfg.ignorePadding && !decide (bytes.length ≤ p)) = true := by
      simp [hpadding, hignore, hlt]
    have hne : bytes ≠ [] := List.ne_nil_of_length_pos (by omega)
    have hlast : lastByte ⟨bytes, p⟩ = .ok (bytes.getLast hne) ⟨bytes, p⟩ := by
      rw [lastByte, List.getLast?_eq_some_getLast hne]
    have hget : bytes.getLast?.getD 0 = bytes.getLast hne := by
      rw [List.getLast?_eq_some_getLast hne]
      rfl
    rw [if_pos hcond, if_pos ⟨hpadding, hignore, hlt⟩, bind_ok hlast, hget]
    by_cases hfits : (bytes.getLast hne).toNat ≤ bytes.length - p
    · have hcheck := checkRequire_pass (b := ⟨bytes, p⟩) (n := (bytes.getLast hne).toNat)
        (by rw [length_rest]; exact hfits) hp .rtcRtpMuxer
        ("padding requires " ++ toString (bytes.getLast hne).toNat ++ " bytes")
      rw [bind_ok hcheck, Prog.pure_apply]
      constructor
      · intro h
        obtain ⟨rfl, rfl⟩ := Outcome.ok.inj h
        exact ⟨⟨rfl, hfits⟩, rfl⟩
      · rintro ⟨⟨rfl, -⟩, rfl⟩
        rfl
    · have hcheck := checkRequire_fail (b := ⟨bytes, p⟩) (n := (bytes.getLast hne).toNat)
        (by rw [length_rest]; exact not_le.mp hfits) .rtcRtpMuxer
        ("padding requires " ++ toString (bytes.getLast hne).toNat ++ " bytes")
      rw [bind_err hcheck]
      apply iff_of_false (by simp)
      rintro ⟨⟨rfl, hle⟩, -⟩
      exact hfits hle
  · have hcond : ¬ (padding && !cfg.ignorePadding && !decide (bytes.length ≤ p)) = true := by
      intro hcond
      simp only [Bool.and_eq_true, Bool.not_eq_true', decide_eq_false_iff_not, not_le] at hcond
      exact h ⟨hcond.1.1, hcond.1.2, hcond.2⟩
    rw [if_neg hcond, if_neg h, Prog.pure_apply]
    constructor
    · intro h
      obtain ⟨rfl, rfl⟩ := Outcome.ok.inj h
      exact ⟨rfl, rfl⟩
    · rintro ⟨rfl, rfl⟩
      rfl

/-- The header that is returned. -/
def HeaderIs (cfg : Config) (bytes : List UInt8) (extensions : Extensions)
    (paddingLength p : ℕ) : Prop :=
  fixedSize bytes ≤ bytes.length ∧
    (if firstByte bytes / 16 % 2 = 1 then
      Extends cfg (bytes.drop (fixedSize bytes)) extensions ∧
        p = fixedSize bytes + (4 + areaSizeOf (bytes.drop (fixedSize bytes)))
    else extensions = Extensions.new ∧ p = fixedSize bytes) ∧
    PaddingIs cfg (firstByte bytes / 32 % 2 = 1) bytes p paddingLength

theorem parseExtensions_ok_iff (htwcc : cfg.decodeTwccExtension = true) {p : ℕ}
    (hp : p ≤ bytes.length) (hasExtension : Bool) (ext : Extensions) (b' : SrsBuffer) :
    parseExtensions cfg hasExtension ⟨bytes, p⟩ = .ok ext b' ↔
      if hasExtension = true then Extends cfg (bytes.drop p) ext ∧
        b' = ⟨bytes, p + (4 + areaSizeOf (bytes.drop p))⟩
      else ext = Extensions.new ∧ b' = ⟨bytes, p⟩ := by
  rw [parseExtensions]
  by_cases hext : hasExtension = true
  · rw [if_pos hext, if_pos hext]
    exact Prog.wrap_ok_iff.trans (decodeExtensions_ok_iff (b := ⟨bytes, p⟩) htwcc hp ext b')
  · rw [if_neg hext, if_neg hext, Prog.pure_apply]
    constructor
    · intro h
      obtain ⟨rfl, rfl⟩ := Outcome.ok.inj h
      exact ⟨rfl, rfl⟩
    · rintro ⟨rfl, rfl⟩
      rfl

/-- Which header the decoder returns, and where it stands then. -/
theorem decodeHeader_ok_iff (htwcc : cfg.decodeTwccExtension = true) (header : RtpHeader)
    (b' : SrsBuffer) : decodeHeader cfg ⟨bytes, 0⟩ = .ok header b' ↔
      ∃ extensions paddingLength p, HeaderIs cfg bytes extensions paddingLength p ∧
        header = headerWith bytes extensions paddingLength ∧ b' = ⟨bytes, p⟩ := by
  by_cases h : fixedSize bytes ≤ bytes.length
  · rw [decodeHeader_run h]
    constructor
    · intro hok
      obtain ⟨ext, b1, hext, hok⟩ := Prog.ok_of_bind_ok hok
      obtain ⟨n, b2, hpadding, hok⟩ := Prog.ok_of_bind_ok hok
      rw [parseExtensions_ok_iff htwcc h] at hext
      obtain ⟨rfl, rfl⟩ := Outcome.ok.inj hok
      by_cases hx : firstByte bytes / 16 % 2 = 1
      · rw [if_pos (decide_eq_true hx)] at hext
        obtain ⟨hextends, rfl⟩ := hext
        have hp : fixedSize bytes + (4 + areaSizeOf (bytes.drop (fixedSize bytes))) ≤
            bytes.length := by
          have hfits := hextends.1
          rw [List.length_drop] at hfits
          omega
        obtain ⟨hpad, rfl⟩ := (decodePadding_ok_iff hp _ n _).mp hpadding
        refine ⟨ext, n, _, ⟨h, ?_, hpad⟩, rfl, rfl⟩
        rw [if_pos hx]
        exact ⟨hextends, rfl⟩
      · rw [if_neg (by simpa using hx)] at hext
        obtain ⟨rfl, rfl⟩ := hext
        obtain ⟨hpad, rfl⟩ := (decodePadding_ok_iff h _ n _).mp hpadding
        refine ⟨_, n, _, ⟨h, ?_, hpad⟩, rfl, rfl⟩
        rw [if_neg hx]
        exact ⟨rfl, rfl⟩
    · rintro ⟨ext, n, p, ⟨-, hext, hpad⟩, rfl, rfl⟩
      have hparse : parseExtensions cfg (firstByte bytes / 16 % 2 = 1) ⟨bytes, fixedSize bytes⟩ =
          .ok ext ⟨bytes, p⟩ ∧ p ≤ bytes.length := by
        rw [parseExtensions_ok_iff htwcc h]
        by_cases hx : firstByte bytes / 16 % 2 = 1
        · rw [if_pos hx] at hext
          rw [if_pos (decide_eq_true hx)]
          have hfits := hext.1.1
          rw [List.length_drop] at hfits
          exact ⟨⟨hext.1, by rw [hext.2]⟩, by omega⟩
        · rw [if_neg hx] at hext
          rw [if_neg (by simpa using hx)]
          exact ⟨⟨hext.1, by rw [hext.2]⟩, by omega⟩
      rw [bind_ok hparse.1, bind_ok ((decodePadding_ok_iff hparse.2 _ n _).mpr ⟨hpad, rfl⟩)]
      rfl
  · obtain ⟨e, b1, herr⟩ := decodeHeader_short cfg (not_le.mp h)
    rw [herr]
    apply iff_of_false (by simp)
    rintro ⟨ext, n, p, hheader, -⟩
    exact h hheader.1

end Header

end SrsChatRoom.Kernel.Rtp
