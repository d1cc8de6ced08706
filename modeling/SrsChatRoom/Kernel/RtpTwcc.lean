import SrsChatRoom.Kernel.RtpHeader

/-!
# The transport sequence number, parsed fast (`srs_kernel_rtc_rtp.cpp`)

`srs_rtp_fast_parse_twcc` looks for the transport-wide sequence number before a packet is
decrypted. It walks over the header extension as `decode_0xbede` does, but takes the first element
with the id as it is, counts what is left in 16 bits without a check, and requires three bytes more
than the extension has.

`Finds` and `Quiet` describe this walk by the bytes and the counter, and `Carries` what the full
decoder finds. `parsers_agree_iff` says for which packets both see the same number.
-/

namespace SrsChatRoom.Kernel.Rtp

open SrsBuffer

/-! ## The fast parser -/

/-- `buf += n`, which is not checked. -/
def move (n : ℕ) : Dec Unit := fun b => .ok () (b.advance n)

/-- `ntohs(*((uint16_t*)buf))` -/
def peekUint16 : Dec ℕ := fun b =>
  match b.rest with
  | hi :: lo :: _ => .ok (ofBytesBE [hi, lo]) b
  | _ => .fault

/-- `if(size < (need_size))` -/
def checkSize (needSize : ℕ) : Dec Unit := fun b =>
  if b.bytes.length < needSize then
    .err (srsErrorNew .rtcRtpMuxer ("required " ++ toString needSize ++ " bytes, actual " ++
      toString b.bytes.length)) b
  else .ok () b

/-- `%02x` -/
def showHex02 (value : ℕ) : String :=
  (if value < 16 then "0" else "") ++ String.ofList (Nat.toDigits 16 value)

/-- The loop of `srs_rtp_fast_parse_twcc`. It returns the number, if it has set `twcc_sn`. -/
def fastLoop (twccId : ℕ) : ℕ → UInt16 → Dec (Option ℕ)
  | 0, _ => fun _ => .hang
  | fuel + 1, extensionLength =>
    if extensionLength = 0 then return none
    else do
      let v ← peek 0
      move 1
      if v = 0 then fastLoop twccId fuel (extensionLength - 1)
      else if elementId v.toNat = twccId then
        let twccSn ← peekUint16
        return some twccSn
      else
        move (elementLen v.toNat + 1)
        fastLoop twccId fuel (extensionLength - 1 - UInt16.ofNat (elementLen v.toNat + 1))

/-- `srs_rtp_fast_parse_twcc` from the header of the extension on, which is at `buf`. -/
def fastParseExtension (twccId cc : ℕ) : Dec (Option ℕ) := do
  let value ← peekUint16
  if value ≠ 0xBEDE then
    Prog.throw (srsErrorNew .rtcRtpMuxer ("no support this type(0x" ++ showHex02 value ++
      ") extension"))
  else
    move 2
    let length ← peekUint16
    move 2
    let extensionLength := UInt16.ofNat (length * 4)
    checkSize (19 + cc * 4 + extensionLength.toNat)
    let size ← Prog.read fun b : SrsBuffer => b.bytes.length
    fastLoop twccId (size + 1) extensionLength

/-- `srs_rtp_fast_parse_twcc` -/
def fastParseTwcc (twccId : ℕ) : Dec (Option ℕ) := do
  checkSize 19
  let first ← peek 0
  if first.toNat / 16 % 2 = 0 then Prog.throw (srsErrorNew .rtcRtp "no extension in rtp")
  else
    let cc := first.toNat % 16
    checkSize (19 + cc * 4)
    move (12 + cc * 4)
    fastParseExtension twccId cc

/-! ## The walks over the elements -/

section Walks

variable (twccId : ℕ)

/-- Counted in 16 bits, the elements come to an end inside the bytes, and none has the id. -/
inductive Quiet : UInt16 → List UInt8 → Prop
  | done {r} : Quiet 0 r
  | padding {n r} (hn : n ≠ 0) (h : Quiet (n - 1) r) : Quiet n (0 :: r)
  | element {n r} {v : UInt8} (hn : n ≠ 0) (hv : v ≠ 0) (hid : elementId v.toNat ≠ twccId)
      (h : Quiet (n - 1 - UInt16.ofNat (elementLen v.toNat + 1))
        (r.drop (elementLen v.toNat + 1))) : Quiet n (v :: r)

/-- Before they do, there is one with the id, and two bytes behind its first one. -/
inductive Finds : UInt16 → List UInt8 → ℕ → Prop
  | found {n r} {v hi lo : UInt8} (hn : n ≠ 0) (hv : v ≠ 0) (hid : elementId v.toNat = twccId) :
      Finds n (v :: hi :: lo :: r) (ofBytesBE [hi, lo])
  | padding {n r sn} (hn : n ≠ 0) (h : Finds (n - 1) r sn) : Finds n (0 :: r) sn
  | element {n r sn} {v : UInt8} (hn : n ≠ 0) (hv : v ≠ 0) (hid : elementId v.toNat ≠ twccId)
      (h : Finds (n - 1 - UInt16.ofNat (elementLen v.toNat + 1))
        (r.drop (elementLen v.toNat + 1)) sn) : Finds n (v :: r) sn

end Walks

section WalkRules

variable {twccId : ℕ} {n : UInt16} {v : UInt8} {r : List UInt8} {sn : ℕ}

theorem quiet_nil (hn : n ≠ 0) : ¬ Quiet twccId n [] := by
  intro h
  cases h
  exact hn rfl

theorem quiet_zero_iff (hn : n ≠ 0) : Quiet twccId n (0 :: r) ↔ Quiet twccId (n - 1) r := by
  constructor
  · intro h
    cases h with
    | done => exact absurd rfl hn
    | padding _ h => exact h
    | element _ hv => exact absurd rfl hv
  · exact .padding hn

theorem not_quiet_found (hn : n ≠ 0) (hv : v ≠ 0) (hid : elementId v.toNat = twccId) :
    ¬ Quiet twccId n (v :: r) := by
  intro h
  cases h with
  | done => exact hn rfl
  | padding => exact hv rfl
  | element _ _ hother => exact hother hid

theorem quiet_element_iff (hn : n ≠ 0) (hv : v ≠ 0) (hid : elementId v.toNat ≠ twccId) :
    Quiet twccId n (v :: r) ↔ Quiet twccId (n - 1 - UInt16.ofNat (elementLen v.toNat + 1))
      (r.drop (elementLen v.toNat + 1)) := by
  constructor
  · intro h
    cases h with
    | done => exact absurd rfl hn
    | padding => exact absurd rfl hv
    | element _ _ _ h => exact h
  · exact .element hn hv hid

theorem not_finds_done : ¬ Finds twccId 0 r sn := by
  intro h
  cases h with
  | found hn => exact hn rfl
  | padding hn => exact hn rfl
  | element hn => exact hn rfl

theorem not_finds_nil : ¬ Finds twccId n [] sn := by
  intro h
  cases h

theorem finds_zero_iff (hn : n ≠ 0) : Finds twccId n (0 :: r) sn ↔ Finds twccId (n - 1) r sn := by
  constructor
  · intro h
    cases h with
    | found _ hv => exact absurd rfl hv
    | padding _ h => exact h
    | element _ hv => exact absurd rfl hv
  · exact .padding hn

theorem finds_found_iff (hn : n ≠ 0) (hv : v ≠ 0) (hid : elementId v.toNat = twccId) :
    Finds twccId n (v :: r) sn ↔ ∃ hi lo r', r = hi :: lo :: r' ∧ sn = ofBytesBE [hi, lo] := by
  constructor
  · intro h
    cases h with
    | found => exact ⟨_, _, _, rfl, rfl⟩
    | padding => exact absurd rfl hv
    | element _ _ hother => exact absurd hid hother
  · rintro ⟨hi, lo, r', rfl, rfl⟩
    exact .found hn hv hid

theorem finds_element_iff (hn : n ≠ 0) (hv : v ≠ 0) (hid : elementId v.toNat ≠ twccId) :
    Finds twccId n (v :: r) sn ↔ Finds twccId (n - 1 - UInt16.ofNat (elementLen v.toNat + 1))
      (r.drop (elementLen v.toNat + 1)) sn := by
  constructor
  · intro h
    cases h with
    | found _ _ hfound => exact absurd hfound hid
    | padding => exact absurd rfl hv
    | element _ _ _ h => exact h
  · exact .element hn hv hid

end WalkRules

/-! ## What the fast parser does -/

/-- It ends, without a read outside exactly when it finds a number or comes to the end. -/
structure Walked (o : Outcome SrsBuffer SrsError (Option ℕ)) (quiet : Prop) (finds : ℕ → Prop) :
    Prop where
  not_hang : o ≠ .hang
  not_err : ∀ e b, o ≠ .err e b
  none_iff : (∃ b, o = .ok none b) ↔ quiet
  some_iff : ∀ sn, (∃ b, o = .ok (some sn) b) ↔ finds sn

theorem walked_fault {quiet : Prop} {finds : ℕ → Prop} (hquiet : ¬ quiet)
    (hfinds : ∀ sn, ¬ finds sn) : Walked .fault quiet finds where
  not_hang := by simp
  not_err := by simp
  none_iff := by simpa using hquiet
  some_iff := by simpa using hfinds

section Fast

variable {b : SrsBuffer}

theorem peek_nil (h : b.rest = []) : peek 0 b = .fault := by
  have hnone : b.bytes[b.pos + 0]? = none := by
    rw [← List.getElem?_drop, show b.bytes.drop b.pos = [] from h]
    rfl
  rw [peek, hnone]

theorem fastLoop_walked (twccId fuel : ℕ) (n : UInt16) (hfuel : b.rest.length < fuel) :
    Walked (fastLoop twccId fuel n b) (Quiet twccId n b.rest) (Finds twccId n b.rest) := by
  induction fuel generalizing b n with
  | zero => omega
  | succ fuel ih =>
    rw [fastLoop]
    by_cases hn : n = 0
    · subst hn
      rw [if_pos rfl, Prog.pure_apply]
      constructor
      · simp
      · simp
      · exact iff_of_true ⟨b, rfl⟩ .done
      · intro sn
        exact iff_of_false (by simp) not_finds_done
    · rw [if_neg hn]
      cases h : b.rest with
      | nil =>
        rw [Prog.bind_fault (peek_nil h)]
        exact walked_fault (quiet_nil hn) fun sn => not_finds_nil
      | cons v r =>
        have hlen : b.rest.length = r.length + 1 := by simp [h]
        have hmove : ∀ k, move k b = .ok () (b.advance k) := fun k => rfl
        have hrest := rest_advance_one h
        rw [Prog.bind_ok (peek_run h), Prog.bind_ok (hmove 1)]
        by_cases hv : v = 0
        · subst hv
          have hloop := ih (b := b.advance 1) (n - 1) (by rw [hrest]; omega)
          rw [hrest] at hloop
          rw [if_pos rfl]
          constructor
          · exact hloop.not_hang
          · exact hloop.not_err
          · rw [hloop.none_iff, quiet_zero_iff hn]
          · intro sn
            rw [hloop.some_iff, finds_zero_iff hn]
        · rw [if_neg hv]
          by_cases hid : elementId v.toNat = twccId
          · rw [if_pos hid]
            match r with
            | [] =>
              have hpeek : peekUint16 (b.advance 1) = .fault := by rw [peekUint16, hrest]
              rw [Prog.bind_fault hpeek]
              apply walked_fault (not_quiet_found hn hv hid)
              intro sn hfinds
              obtain ⟨hi, lo, r', heq, -⟩ := (finds_found_iff hn hv hid).mp hfinds
              cases heq
            | [_] =>
              have hpeek : peekUint16 (b.advance 1) = .fault := by rw [peekUint16, hrest]
              rw [Prog.bind_fault hpeek]
              apply walked_fault (not_quiet_found hn hv hid)
              intro sn hfinds
              obtain ⟨hi, lo, r', heq, -⟩ := (finds_found_iff hn hv hid).mp hfinds
              cases heq
            | hi :: lo :: r' =>
              have hpeek : peekUint16 (b.advance 1) = .ok (ofBytesBE [hi, lo]) (b.advance 1) := by
                rw [peekUint16, hrest]
              rw [Prog.bind_ok hpeek, Prog.pure_apply]
              constructor
              · simp
              · simp
              · exact iff_of_false (by simp) (not_quiet_found hn hv hid)
              · intro sn
                rw [finds_found_iff hn hv hid]
                constructor
                · rintro ⟨b', hok⟩
                  exact ⟨hi, lo, r', rfl, (Option.some.inj (Outcome.ok.inj hok).1).symm⟩
                · rintro ⟨hi', lo', r'', heq, rfl⟩
                  cases heq
                  exact ⟨_, rfl⟩
          · have hmove' : move (elementLen v.toNat + 1) (b.advance 1) =
                .ok () ((b.advance 1).advance (elementLen v.toNat + 1)) := rfl
            have hrest' : ((b.advance 1).advance (elementLen v.toNat + 1)).rest =
                r.drop (elementLen v.toNat + 1) := by
              rw [rest_advance, hrest]
            have hloop := ih (b := (b.advance 1).advance (elementLen v.toNat + 1))
              (n - 1 - UInt16.ofNat (elementLen v.toNat + 1))
              (by rw [hrest', List.length_drop]; omega)
            rw [hrest'] at hloop
            rw [if_neg hid, Prog.bind_ok hmove']
            constructor
            · exact hloop.not_hang
            · exact hloop.not_err
            · rw [hloop.none_iff, quiet_element_iff hn hv hid]
            · intro sn
              rw [hloop.some_iff, finds_element_iff hn hv hid]

variable {bytes : List UInt8}

/-- The packet has a header extension for elements with one byte of header. -/
def Extended (bytes : List UInt8) : Prop :=
  firstByte bytes / 16 % 2 = 1 ∧ fixedSize bytes + 4 ≤ bytes.length ∧
    profileOf (bytes.drop (fixedSize bytes)) = 0xBEDE

/-- It is as long as the fast parser requires: three bytes more than the extension, whose size is
counted in 16 bits. -/
def Enough (bytes : List UInt8) : Prop :=
  fixedSize bytes + 4 + areaSizeOf (bytes.drop (fixedSize bytes)) % 65536 + 3 ≤ bytes.length

instance (bytes : List UInt8) : Decidable (Extended bytes) :=
  inferInstanceAs (Decidable (_ ∧ _ ∧ _))

instance (bytes : List UInt8) : Decidable (Enough bytes) := inferInstanceAs (Decidable (_ ≤ _))

theorem checkSize_pass {n : ℕ} (h : n ≤ b.bytes.length) : checkSize n b = .ok () b :=
  if_neg (not_lt.mpr h)

theorem checkSize_fail {n : ℕ} (h : b.bytes.length < n) : ∃ e, checkSize n b = .err e b :=
  ⟨_, if_pos h⟩

theorem peekUint16_run (h : 2 ≤ b.rest.length) :
    peekUint16 b = .ok (ofBytesBE (b.rest.take 2)) b := by
  rw [peekUint16]
  match hrest : b.rest with
  | [] =>
    rw [hrest] at h
    exact absurd h (by decide)
  | [_] =>
    rw [hrest] at h
    exact absurd h (by decide : ¬ 2 ≤ 1)
  | hi :: lo :: r => rfl

/-- At the header of an extension, which is in the packet. -/
theorem fastParseExtension_run (twccId : ℕ) (hfixed : fixedSize bytes + 4 ≤ bytes.length) :
    if profileOf (bytes.drop (fixedSize bytes)) = 0xBEDE ∧ Enough bytes then
      fastParseExtension twccId (firstByte bytes % 16) ⟨bytes, fixedSize bytes⟩ =
        fastLoop twccId (bytes.length + 1)
          (UInt16.ofNat (areaSizeOf (bytes.drop (fixedSize bytes)))) ⟨bytes, fixedSize bytes + 4⟩
    else ∃ e b, fastParseExtension twccId (firstByte bytes % 16) ⟨bytes, fixedSize bytes⟩ =
      .err e b := by
  have hrest : (⟨bytes, fixedSize bytes⟩ : SrsBuffer).rest = bytes.drop (fixedSize bytes) := rfl
  have hlen : (bytes.drop (fixedSize bytes)).length = bytes.length - fixedSize bytes :=
    List.length_drop
  have hvalue := peekUint16_run (b := ⟨bytes, fixedSize bytes⟩) (by rw [hrest]; omega)
  have hprofile : ofBytesBE ((bytes.drop (fixedSize bytes)).take 2) =
      profileOf (bytes.drop (fixedSize bytes)) := rfl
  rw [hrest, hprofile] at hvalue
  rw [fastParseExtension, Prog.bind_ok hvalue]
  by_cases hbede : profileOf (bytes.drop (fixedSize bytes)) = 0xBEDE
  · have hmove : move 2 ⟨bytes, fixedSize bytes⟩ = .ok () ⟨bytes, fixedSize bytes + 2⟩ := rfl
    have hmove' : move 2 ⟨bytes, fixedSize bytes + 2⟩ = .ok () ⟨bytes, fixedSize bytes + 4⟩ := rfl
    have hrest' : (⟨bytes, fixedSize bytes + 2⟩ : SrsBuffer).rest =
        (bytes.drop (fixedSize bytes)).drop 2 := List.drop_drop.symm
    have hlength := peekUint16_run (b := ⟨bytes, fixedSize bytes + 2⟩)
      (by rw [hrest', List.length_drop]; omega)
    have harea : ofBytesBE (((bytes.drop (fixedSize bytes)).drop 2).take 2) * 4 =
        areaSizeOf (bytes.drop (fixedSize bytes)) := rfl
    have hword : (UInt16.ofNat (areaSizeOf (bytes.drop (fixedSize bytes)))).toNat =
        areaSizeOf (bytes.drop (fixedSize bytes)) % 65536 := UInt16.toNat_ofNat'
    have hsize : fixedSize bytes = 12 + firstByte bytes % 16 * 4 := rfl
    rw [hrest'] at hlength
    rw [if_neg (not_not.mpr hbede), Prog.bind_ok hmove, Prog.bind_ok hlength, Prog.bind_ok hmove',
      harea]
    by_cases henough : Enough bytes
    · rw [if_pos ⟨hbede, henough⟩]
      rw [Enough] at henough
      have hcheck := checkSize_pass (b := ⟨bytes, fixedSize bytes + 4⟩)
        (n := 19 + firstByte bytes % 16 * 4 +
          (UInt16.ofNat (areaSizeOf (bytes.drop (fixedSize bytes)))).toNat)
        (by rw [hword]; show _ ≤ bytes.length; omega)
      rw [Prog.bind_ok hcheck, Prog.bind_ok (Prog.read_apply _ _)]
    · rw [if_neg fun h => henough h.2]
      rw [Enough, not_le] at henough
      obtain ⟨e, hcheck⟩ := checkSize_fail (b := ⟨bytes, fixedSize bytes + 4⟩)
        (n := 19 + firstByte bytes % 16 * 4 +
          (UInt16.ofNat (areaSizeOf (bytes.drop (fixedSize bytes)))).toNat)
        (by rw [hword]; show bytes.length < _; omega)
      exact ⟨e, _, Prog.bind_err hcheck _⟩
  · rw [if_neg fun h => hbede h.1, if_pos hbede]
    exact ⟨_, _, rfl⟩

/-- Past its checks, the fast parser walks over what is behind the header of the extension;
otherwise it returns an error. -/
theorem fastParseTwcc_run (twccId : ℕ) (bytes : List UInt8) :
    if Extended bytes ∧ Enough bytes then
      fastParseTwcc twccId ⟨bytes, 0⟩ = fastLoop twccId (bytes.length + 1)
        (UInt16.ofNat (areaSizeOf (bytes.drop (fixedSize bytes)))) ⟨bytes, fixedSize bytes + 4⟩
    else ∃ e b, fastParseTwcc twccId ⟨bytes, 0⟩ = .err e b := by
  have hsize : fixedSize bytes = 12 + firstByte bytes % 16 * 4 := rfl
  by_cases h19 : 19 ≤ bytes.length
  · obtain ⟨v, r, hbytes⟩ := List.exists_cons_of_length_pos (show 0 < bytes.length by omega)
    have hpeek : peek 0 ⟨bytes, 0⟩ = .ok v ⟨bytes, 0⟩ := peek_run (b := ⟨bytes, 0⟩) hbytes
    have hfirst : v.toNat = firstByte bytes := by
      rw [hbytes]
      rfl
    have hcheck := checkSize_pass (b := ⟨bytes, 0⟩) h19
    rw [fastParseTwcc, Prog.bind_ok hcheck, Prog.bind_ok hpeek, hfirst]
    by_cases hx : firstByte bytes / 16 % 2 = 1
    · have hbit : ¬ firstByte bytes / 16 % 2 = 0 := by omega
      rw [if_neg hbit]
      by_cases hfixed : 19 + firstByte bytes % 16 * 4 ≤ bytes.length
      · have hcheck' := checkSize_pass (b := ⟨bytes, 0⟩) hfixed
        have hmove : move (12 + firstByte bytes % 16 * 4) ⟨bytes, 0⟩ =
            .ok () ⟨bytes, fixedSize bytes⟩ := by
          rw [move, hsize]
          exact congrArg (fun p => Outcome.ok () (⟨bytes, p⟩ : SrsBuffer)) (Nat.zero_add _)
        have hrun := fastParseExtension_run twccId (show fixedSize bytes + 4 ≤ bytes.length by omega)
        rw [Prog.bind_ok hcheck', Prog.bind_ok hmove]
        have hiff : Extended bytes ∧ Enough bytes ↔
            profileOf (bytes.drop (fixedSize bytes)) = 0xBEDE ∧ Enough bytes := by
          constructor
          · exact fun h => ⟨h.1.2.2, h.2⟩
          · exact fun h => ⟨⟨hx, by omega, h.1⟩, h.2⟩
        by_cases hboth : Extended bytes ∧ Enough bytes
        · rw [if_pos hboth]
          rwa [if_pos (hiff.mp hboth)] at hrun
        · rw [if_neg hboth]
          rwa [if_neg fun h => hboth (hiff.mpr h)] at hrun
      · obtain ⟨e, hcheck'⟩ := checkSize_fail (b := ⟨bytes, 0⟩) (not_le.mp hfixed)
        have hshort : ¬ (Extended bytes ∧ Enough bytes) := by
          rintro ⟨-, henough⟩
          rw [Enough] at henough
          omega
        rw [if_neg hshort]
        exact ⟨e, _, Prog.bind_err hcheck' _⟩
    · have hbit : firstByte bytes / 16 % 2 = 0 := by omega
      have hplain : ¬ (Extended bytes ∧ Enough bytes) := fun h => hx h.1.1
      rw [if_neg hplain, if_pos hbit]
      exact ⟨_, _, rfl⟩
  · obtain ⟨e, hcheck⟩ := checkSize_fail (b := ⟨bytes, 0⟩) (not_le.mp h19)
    have hshort : ¬ (Extended bytes ∧ Enough bytes) := by
      rintro ⟨-, henough⟩
      rw [Enough] at henough
      omega
    rw [if_neg hshort]
    exact ⟨e, _, Prog.bind_err hcheck _⟩

end Fast

/-! ## Agreement -/

/-- The full decoder has the id registered for the transport sequence number, and decodes it. -/
def twccConfig (twccId : ExtensionId) (audioLevelId : ℕ) (ignorePadding : Bool) : Config where
  types := some ⟨twccId.id, audioLevelId⟩
  decodeTwccExtension := true
  ignorePadding := ignorePadding
  decodeHandler := none

/-- The fast parser stays inside the packet and reports a number exactly when the full decoder
succeeds and finds it. -/
def Agrees (twccId : ExtensionId) (audioLevelId : ℕ) (ignorePadding : Bool)
    (bytes : List UInt8) : Prop :=
  (fastParseTwcc twccId.id).Returns ⟨bytes, 0⟩ ∧
    ∀ sn, (∃ b, fastParseTwcc twccId.id ⟨bytes, 0⟩ = .ok (some sn) b) ↔
      ∃ header b, decodeHeader (twccConfig twccId audioLevelId ignorePadding) ⟨bytes, 0⟩ =
        .ok header b ∧ header.extensions.twcc.map Element.value = some sn

/-- The packet has a header that the full decoder accepts, with this transport sequence number. -/
def Carries (cfg : Config) (bytes : List UInt8) (sn : ℕ) : Prop :=
  ∃ extensions paddingLength p, HeaderIs cfg bytes extensions paddingLength p ∧
    extensions.twcc.map Element.value = some sn

/-- Where the full decoder accepts a number, the packet is long enough for the fast parser, and the
first element with the id has this number as well; elsewhere the fast parser has not enough, or
comes to the end of the elements without one that has the id. -/
def Alike (twccId : ExtensionId) (audioLevelId : ℕ) (ignorePadding : Bool)
    (bytes : List UInt8) : Prop :=
  let cfg := twccConfig twccId audioLevelId ignorePadding
  let extensionLength := UInt16.ofNat (areaSizeOf (bytes.drop (fixedSize bytes)))
  let elements := bytes.drop (fixedSize bytes + 4)
  (∀ sn, Carries cfg bytes sn → Enough bytes ∧ Finds twccId.id extensionLength elements sn) ∧
    ((∀ sn, ¬ Carries cfg bytes sn) → Extended bytes → Enough bytes →
      Quiet twccId.id extensionLength elements)

section Agreement

variable {twccId : ExtensionId} {audioLevelId : ℕ} {ignorePadding : Bool} {bytes : List UInt8}

theorem carries_iff (sn : ℕ) : Carries (twccConfig twccId audioLevelId ignorePadding) bytes sn ↔
    ∃ header b, decodeHeader (twccConfig twccId audioLevelId ignorePadding) ⟨bytes, 0⟩ =
      .ok header b ∧ header.extensions.twcc.map Element.value = some sn := by
  constructor
  · rintro ⟨ext, n, p, hheader, hsn⟩
    exact ⟨_, _, (decodeHeader_ok_iff rfl _ _).mpr ⟨ext, n, p, hheader, rfl, rfl⟩, hsn⟩
  · rintro ⟨header, b, hok, hsn⟩
    obtain ⟨ext, n, p, hheader, rfl, -⟩ := (decodeHeader_ok_iff rfl _ _).mp hok
    exact ⟨ext, n, p, hheader, hsn⟩

theorem Carries.unique {cfg : Config} (hcfg : cfg.decodeTwccExtension = true) {sn sn' : ℕ}
    (h : Carries cfg bytes sn) (h' : Carries cfg bytes sn') : sn = sn' := by
  obtain ⟨ext, n, p, hheader, hsn⟩ := h
  obtain ⟨ext', n', p', hheader', hsn'⟩ := h'
  have hok := (decodeHeader_ok_iff hcfg _ _).mpr ⟨ext, n, p, hheader, rfl, rfl⟩
  have hok' := (decodeHeader_ok_iff hcfg _ _).mpr ⟨ext', n', p', hheader', rfl, rfl⟩
  have hsame := (Outcome.ok.inj (hok.symm.trans hok')).1
  have hext : ext = ext' := congrArg RtpHeader.extensions hsame
  rw [hext, hsn'] at hsn
  exact (Option.some.inj hsn).symm

/-- A number is found only in an extension. -/
theorem Carries.extended {cfg : Config} {sn : ℕ} (h : Carries cfg bytes sn) : Extended bytes := by
  obtain ⟨ext, n, p, ⟨hfixed, hext, -⟩, hsn⟩ := h
  by_cases hx : firstByte bytes / 16 % 2 = 1
  · rw [if_pos hx] at hext
    obtain ⟨⟨hfits, hprofile⟩, -⟩ := hext
    rw [List.length_drop] at hfits
    refine ⟨hx, by omega, ?_⟩
    rcases hprofile with ⟨hbede, -⟩ | ⟨-, rfl⟩
    · exact hbede
    · cases hsn
  · rw [if_neg hx] at hext
    rw [hext.1] at hsn
    cases hsn

/-- A number is reported only once. -/
theorem reported_unique {x : Dec (Option ℕ)} {b b1 b2 : SrsBuffer} {sn sn' : ℕ}
    (h : x b = .ok (some sn) b1) (h' : x b = .ok (some sn') b2) : sn = sn' :=
  Option.some.inj (Outcome.ok.inj (h.symm.trans h')).1

/-- When the two parsers agree. -/
theorem parsers_agree_iff (twccId : ExtensionId) (audioLevelId : ℕ) (ignorePadding : Bool)
    (bytes : List UInt8) :
    Agrees twccId audioLevelId ignorePadding bytes ↔
      Alike twccId audioLevelId ignorePadding bytes := by
  have hrun := fastParseTwcc_run twccId.id bytes
  simp only [Agrees, Alike, ← carries_iff]
  by_cases henters : Extended bytes ∧ Enough bytes
  · rw [if_pos henters] at hrun
    have hrest : (⟨bytes, fixedSize bytes + 4⟩ : SrsBuffer).rest =
        bytes.drop (fixedSize bytes + 4) := rfl
    have hwalked := fastLoop_walked (b := ⟨bytes, fixedSize bytes + 4⟩) twccId.id
      (bytes.length + 1) (UInt16.ofNat (areaSizeOf (bytes.drop (fixedSize bytes))))
      (by rw [hrest, List.length_drop]; omega)
    rw [← hrun, hrest] at hwalked
    constructor
    · rintro ⟨hreturns, hsame⟩
      refine ⟨?_, ?_⟩
      · intro sn hcarries
        exact ⟨henters.2, (hwalked.some_iff sn).mp ((hsame sn).mpr hcarries)⟩
      · intro hnone _ _
        -- it returns, but not a number
        rw [← hwalked.none_iff]
        cases hfast : fastParseTwcc twccId.id ⟨bytes, 0⟩ with
        | ok reported b =>
          cases reported with
          | none => exact ⟨b, rfl⟩
          | some sn => exact absurd ((hsame sn).mp ⟨b, hfast⟩) (hnone sn)
        | err e b => exact absurd hfast (hwalked.not_err e b)
        | fault => exact absurd hreturns (Prog.not_returns_of_fault hfast)
        | hang => exact absurd hfast hwalked.not_hang
    · rintro ⟨hfinds, hquiet⟩
      by_cases hcarried : ∃ sn, Carries (twccConfig twccId audioLevelId ignorePadding) bytes sn
      · obtain ⟨sn, hcarries⟩ := hcarried
        obtain ⟨b, hreports⟩ := (hwalked.some_iff sn).mpr (hfinds sn hcarries).2
        refine ⟨Prog.returns_of_ok hreports, ?_⟩
        intro sn'
        constructor
        · rintro ⟨b', hreports'⟩
          exact reported_unique hreports hreports' ▸ hcarries
        · intro hcarries'
          exact ⟨b, Carries.unique rfl hcarries hcarries' ▸ hreports⟩
      · have hnone : ∀ sn, ¬ Carries (twccConfig twccId audioLevelId ignorePadding) bytes sn :=
          fun sn h => hcarried ⟨sn, h⟩
        obtain ⟨b, hsilent⟩ := hwalked.none_iff.mpr (hquiet hnone henters.1 henters.2)
        refine ⟨Prog.returns_of_ok hsilent, ?_⟩
        intro sn
        apply iff_of_false _ (hnone sn)
        rintro ⟨b', hreports⟩
        have hboth := (Outcome.ok.inj (hsilent.symm.trans hreports)).1
        cases hboth
  · rw [if_neg henters] at hrun
    obtain ⟨e, b, hrefused⟩ := hrun
    have hsilent : ∀ sn, ¬ ∃ b', fastParseTwcc twccId.id ⟨bytes, 0⟩ = .ok (some sn) b' := by
      rintro sn ⟨b', hreports⟩
      rw [hrefused] at hreports
      cases hreports
    constructor
    · rintro ⟨-, hsame⟩
      refine ⟨?_, ?_⟩
      · intro sn hcarries
        exact absurd ((hsame sn).mpr hcarries) (hsilent sn)
      · exact fun _ hextended henough => absurd ⟨hextended, henough⟩ henters
    · rintro ⟨hfinds, -⟩
      refine ⟨Prog.returns_of_err hrefused, ?_⟩
      intro sn
      apply iff_of_false (hsilent sn)
      intro hcarries
      exact henters ⟨hcarries.extended, (hfinds sn hcarries).1⟩

end Agreement

/-- A packet with a transport sequence number of 5 and two bytes of payload. -/
def shortPayload : List UInt8 :=
  [0x90, 96, 0, 1, 0, 0, 0, 2, 0, 0, 0, 3, 0xBE, 0xDE, 0, 1, 0x11, 0, 5, 0, 7, 7]

/-- The fast parser requires one byte more. -/
theorem short_payload_is_refused : ¬ Agrees ⟨1, by decide, by decide⟩ 0 false shortPayload := by
  rintro ⟨-, hsame⟩
  have hfull : ∃ header b, decodeHeader (twccConfig ⟨1, by decide, by decide⟩ 0 false)
      ⟨shortPayload, 0⟩ = .ok header b ∧ header.extensions.twcc.map Element.value = some 5 :=
    ⟨_, _, rfl, rfl⟩
  have hfast : (fastParseTwcc 1 ⟨shortPayload, 0⟩).isErr = true := rfl
  obtain ⟨b, hreports⟩ := (hsame 5).mpr hfull
  rw [hreports] at hfast
  cases hfast

end SrsChatRoom.Kernel.Rtp
