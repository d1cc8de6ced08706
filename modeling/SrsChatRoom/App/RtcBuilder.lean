import SrsChatRoom.Lib.Chunks
import SrsChatRoom.Kernel.RtpPayloads

/-!
# Fragments of NALUs (`srs_app_rtc_source.cpp`)

`SrsRtcRtpBuilder` sends a NALU that is too large for one packet as `FU-A` packets
(`package_fu_a`), and with `merge_nalus` all NALUs of a frame as one, joined by start codes
(`package_nalus`). The first byte goes into the header of each fragment, the rest is cut.

Both send slices of the rest in order (`packageFuA_run`, `packageNalus_run`), but both count them
for a size that is off by one: `fragments_iff` says that the fragments are proper except for a NALU
of one byte too many, which is sent as one packet with both bits, a merged size that is exactly the
limit, likewise, and a merged size that leaves nothing for the last packet.
-/

namespace SrsChatRoom.App

open Kernel Kernel.Rtp

/-- `kRtpMaxPayloadSize` -/
def kRtpMaxPayloadSize : ℕ := 1200

/-- The fields of an `SrsRtpPacket` that the builder sets. -/
structure VideoPacket where
  payloadType : UInt8
  ssrc : UInt32
  sequence : UInt16
  timestamp : UInt32
  naluType : UInt8
  payload : Payloader

/-- `SrsRtcRtpBuilder` -/
structure SrsRtcRtpBuilder where
  videoPayloadType : UInt8
  videoSsrc : UInt32
  videoSequence : UInt16

/-! ## The builder -/

namespace SrsRtcRtpBuilder

/-- A new packet with the next sequence number. -/
def newPacket (timestamp : ℤ) (naluType : UInt8) (payload : Payloader) :
    Prog SrsRtcRtpBuilder SrsError VideoPacket := fun b =>
  .ok {
    payloadType := b.videoPayloadType
    ssrc := b.videoSsrc
    sequence := b.videoSequence
    timestamp := UInt32.ofInt (timestamp * 90)
    naluType := naluType
    payload := payload } { b with videoSequence := b.videoSequence + 1 }

/-- The fields of the `i`-th of `num` fragments. -/
def fuFields (header : UInt8) (num i : ℕ) : FuFields where
  nri := header
  start := i = 0
  end_ := i = num - 1
  naluType := header &&& kNalTypeMask

/-- The last `k` rounds of the loop of `package_fu_a`. -/
def fuALoop (timestamp : ℤ) (header : UInt8) (fuPayloadSize num : ℕ) :
    ℕ → List UInt8 → Prog SrsRtcRtpBuilder SrsError (List VideoPacket)
  | 0, _ => return []
  | k + 1, p => do
    let packetSize := min p.length fuPayloadSize
    let fu := fuFields header num (num - (k + 1))
    -- the `nalu_type` of the packet stays `SrsAvcNaluTypeReserved`
    let pkt ← newPacket timestamp 0 (.fua2 fu (p.take packetSize))
    let pkts ← fuALoop timestamp header fuPayloadSize num k (p.drop packetSize)
    return pkt :: pkts

/-- `package_fu_a` -/
def packageFuA (timestamp : ℤ) (sample : List UInt8) (fuPayloadSize : ℕ) :
    Prog SrsRtcRtpBuilder SrsError (List VideoPacket) :=
  match sample with
  | [] => Prog.abort
  | header :: p =>
    let num := 1 + (p.length - 1) / fuPayloadSize
    fuALoop timestamp header fuPayloadSize num num p

/-- `read_samples` of the NALUs that the builder holds. -/
def withRaw {α : Type} (raw : RawNalus) (x : Prog RawNalus SrsError α) :
    Prog SrsRtcRtpBuilder SrsError (α × RawNalus) := fun b =>
  match x raw with
  | .ok a raw' => .ok (a, raw') b
  | .err e _ => .err e b
  | .fault => .fault
  | .hang => .hang

/-- The last `k` rounds of the loop of `package_nalus`. -/
def nalusLoop (timestamp : ℤ) (header : UInt8) (fuPayloadSize num : ℕ) :
    ℕ → RawNalus → ℕ → Prog SrsRtcRtpBuilder SrsError (List VideoPacket)
  | 0, _, _ => return []
  | k + 1, raw, nbLeft => do
    let packetSize := min nbLeft fuPayloadSize
    let read ← Prog.wrap (srsErrorWrap ("read samples " ++ toString packetSize ++
      " bytes, left " ++ toString nbLeft ++ ", total " ++ toString raw.nnBytes))
      (withRaw raw (RawNalus.readSamples packetSize))
    let fu := fuFields header num (num - (k + 1))
    let pkt ← newPacket timestamp (UInt8.ofNat kFuA) (.fua fu read.1)
    let pkts ← nalusLoop timestamp header fuPayloadSize num k read.2 (nbLeft - packetSize)
    return pkt :: pkts

/-- The NALUs that are not empty, joined. -/
def joined (samples : List (List UInt8)) : RawNalus :=
  samples.foldl RawNalus.pushBack RawNalus.new

/-- `first_nalu_type`: of the first NALU whose type is not `SrsAvcNaluTypeReserved`. -/
def firstNaluType (samples : List (List UInt8)) : UInt8 :=
  samples.foldl (fun type sample =>
    match sample with
    | [] => type
    | v :: _ => if type = 0 then v &&& kNalTypeMask else type) 0

/-- `package_nalus` -/
def packageNalus (timestamp : ℤ) (samples : List (List UInt8)) :
    Prog SrsRtcRtpBuilder SrsError (List VideoPacket) := do
  let raw := joined samples
  let nnBytes := Payloader.nbBytes (.rawNalus raw)
  if nnBytes = 0 then return []
  else if nnBytes < kRtpMaxPayloadSize then
    let pkt ← newPacket timestamp (firstNaluType samples) (.rawNalus raw)
    return [pkt]
  else
    let fuPayloadSize := kRtpMaxPayloadSize
    -- the first byte is stored in the FU-A header
    let skipped ← withRaw raw RawNalus.skipFirstByte
    let nbLeft := nnBytes - 1
    let num := 1 + (nnBytes - 1) / fuPayloadSize
    nalusLoop timestamp skipped.1 fuPayloadSize num num skipped.2 nbLeft

/-! ## What the packets carry -/

/-- The bytes of a fragment. -/
def fuBytes (header : UInt8) (num i : ℕ) (payload : List UInt8) : List UInt8 :=
  (fuFields header num i).indicator :: (fuFields header num i).header :: payload

/-- The packets carry the slices of `body` from the `i`-th on, with sequence numbers from `seq`
on. -/
def Carries (header : UInt8) (body : List UInt8) (n num : ℕ) :
    ℕ → UInt16 → List VideoPacket → Prop
  | _, _, [] => True
  | i, seq, pkt :: pkts => pkt.sequence = seq ∧
    pkt.payload.toBytes = fuBytes header num i (chunk body n i) ∧
    Carries header body n num (i + 1) (seq + 1) pkts

theorem newPacket_run (b : SrsRtcRtpBuilder) (timestamp : ℤ) (naluType : UInt8)
    (payload : Payloader) : newPacket timestamp naluType payload b =
      .ok ⟨b.videoPayloadType, b.videoSsrc, b.videoSequence, UInt32.ofInt (timestamp * 90),
        naluType, payload⟩ { b with videoSequence := b.videoSequence + 1 } := rfl

section Run

variable (timestamp : ℤ) (header : UInt8) (body : List UInt8) (n : ℕ) {num k : ℕ}

/-- The loop of `package_fu_a` sends the last `k` slices. -/
theorem fuALoop_run (hk : k ≤ num) (b : SrsRtcRtpBuilder) :
    ∃ pkts b', fuALoop timestamp header n num k (body.drop ((num - k) * n)) b = .ok pkts b' ∧
      pkts.length = k ∧ Carries header body n num (num - k) b.videoSequence pkts := by
  induction k generalizing b with
  | zero => exact ⟨[], b, rfl, rfl, trivial⟩
  | succ k ih =>
    have hi : num - k = num - (k + 1) + 1 := by omega
    have hslice : (body.drop ((num - (k + 1)) * n)).take
        (min (body.drop ((num - (k + 1)) * n)).length n) = chunk body n (num - (k + 1)) := by
      rw [Nat.min_comm, ← List.take_eq_take_min]
      rfl
    have hdrop : (body.drop ((num - (k + 1)) * n)).drop
        (min (body.drop ((num - (k + 1)) * n)).length n) = body.drop ((num - k) * n) := by
      rw [List.drop_drop, List.length_drop, hi, Nat.succ_mul]
      by_cases hend : body.length ≤ (num - (k + 1)) * n + n
      · rw [List.drop_of_length_le hend, List.drop_of_length_le (by omega)]
      · congr 1
        omega
    obtain ⟨pkts, b', hloop, hlength, hcarries⟩ :=
      ih (by omega) { b with videoSequence := b.videoSequence + 1 }
    rw [fuALoop, Prog.bind_ok (newPacket_run _ _ _ _), hdrop, Prog.bind_ok hloop, hslice]
    refine ⟨_, b', rfl, congrArg (· + 1) hlength, rfl, rfl, ?_⟩
    rw [← hi]
    exact hcarries

/-- `package_fu_a` sends all slices of what follows the first byte. -/
theorem packageFuA_run (b : SrsRtcRtpBuilder) :
    ∃ pkts b', packageFuA timestamp (header :: body) n b = .ok pkts b' ∧
      pkts.length = 1 + (body.length - 1) / n ∧
      Carries header body n (1 + (body.length - 1) / n) 0 b.videoSequence pkts := by
  obtain ⟨pkts, b', hloop, hlength, hcarries⟩ :=
    fuALoop_run timestamp header body n (le_refl (1 + (body.length - 1) / n)) b
  rw [Nat.sub_self, Nat.zero_mul, List.drop_zero] at hloop
  rw [Nat.sub_self] at hcarries
  exact ⟨pkts, b', hloop, hlength, hcarries⟩

/-- The loop of `package_nalus` sends the last `k` slices. -/
theorem nalusLoop_run (hk : k ≤ num) (b : SrsRtcRtpBuilder) (raw : RawNalus)
    (hne : ∀ p ∈ raw.nalus, p ≠ []) (hbody : raw.nalus.flatten.drop 1 = body)
    (hbytes : raw.nnBytes = body.length + 1)
    (hcursor : raw.cursor = 1 + min body.length ((num - k) * n)) :
    ∃ pkts b', nalusLoop timestamp header n num k raw
        (body.length - min body.length ((num - k) * n)) b = .ok pkts b' ∧
      pkts.length = k ∧ Carries header body n num (num - k) b.videoSequence pkts := by
  induction k generalizing b raw with
  | zero => exact ⟨[], b, rfl, rfl, trivial⟩
  | succ k ih =>
    have hi : num - k = num - (k + 1) + 1 := by omega
    have hnext : (num - k) * n = (num - (k + 1)) * n + n := by rw [hi, Nat.succ_mul]
    have hchunk : chunk body n (num - (k + 1)) = (body.drop ((num - (k + 1)) * n)).take n := rfl
    generalize (num - (k + 1)) * n = start at hnext hcursor hchunk ⊢
    let packetSize := min (body.length - min body.length start) n
    obtain ⟨samples, hread, hflat⟩ :=
      RawNalus.readSamplesLoop_eq raw.nalus hne raw.cursor packetSize
    have hsamples : samples.flatten = chunk body n (num - (k + 1)) := by
      have hdrop : raw.nalus.flatten.drop raw.cursor = body.drop start := by
        rw [hcursor, ← List.drop_drop, hbody]
        by_cases hend : body.length ≤ start
        · rw [List.drop_of_length_le hend, List.drop_of_length_le (by omega)]
        · rw [Nat.min_eq_right (by omega)]
      have hsize : packetSize = min n (body.drop start).length := by
        rw [List.length_drop]
        omega
      rw [hflat, hdrop, hsize, ← List.take_eq_take_min, hchunk]
    have hreads : RawNalus.readSamples packetSize raw =
        .ok samples { raw with cursor := raw.cursor + packetSize } := by
      rw [RawNalus.readSamples, if_neg (by omega), hread]
    have hwith : withRaw raw (RawNalus.readSamples packetSize) b =
        .ok (samples, { raw with cursor := raw.cursor + packetSize }) b := by
      rw [withRaw, hreads]
    have hleft : body.length - min body.length start - packetSize =
        body.length - min body.length ((num - k) * n) := by omega
    obtain ⟨pkts, b', hloop, hlength, hcarries⟩ := ih (by omega)
      { b with videoSequence := b.videoSequence + 1 }
      { raw with cursor := raw.cursor + packetSize } hne hbody hbytes (by
        show raw.cursor + packetSize = _
        omega)
    rw [nalusLoop, Prog.bind_ok (Prog.wrap_ok hwith _), Prog.bind_ok (newPacket_run _ _ _ _), hleft,
      Prog.bind_ok hloop]
    refine ⟨_, b', rfl, congrArg (· + 1) hlength, rfl, ?_, ?_⟩
    · show _ :: _ :: samples.flatten = _
      rw [hsamples]
      rfl
    · rw [← hi]
      exact hcarries

/-- The NALUs that are not empty, with start codes between them. -/
def merged (samples : List (List UInt8)) : List UInt8 :=
  ((samples.filter (· ≠ [])).intersperse [0, 0, 1]).flatten

theorem joins_foldl {raw : RawNalus} {done : List (List UInt8)} (h : raw.Joins done)
    (samples : List (List UInt8)) :
    (samples.foldl RawNalus.pushBack raw).Joins (done ++ samples.filter (· ≠ [])) := by
  induction samples generalizing raw done with
  | nil =>
    rw [List.filter_nil, List.append_nil]
    exact h
  | cons sample rest ih =>
    have hnext := ih (h.pushBack sample)
    rw [List.foldl_cons]
    by_cases hempty : sample = []
    · rw [if_pos hempty, List.append_nil] at hnext
      rw [List.filter_cons_of_neg (by simp [hempty])]
      exact hnext
    · rw [if_neg hempty, List.append_assoc] at hnext
      rw [List.filter_cons_of_pos (by simp [hempty])]
      exact hnext

theorem joins_joined (samples : List (List UInt8)) :
    (joined samples).Joins (samples.filter (· ≠ [])) :=
  joins_foldl RawNalus.joins_new samples

/-- `package_nalus` sends all slices of what follows the first byte of the merged NALUs. -/
theorem packageNalus_run (b : SrsRtcRtpBuilder) {samples : List (List UInt8)}
    (hmerged : merged samples = header :: body) (hlarge : kRtpMaxPayloadSize ≤ body.length + 1) :
    ∃ pkts b', packageNalus timestamp samples b = .ok pkts b' ∧
      pkts.length = 1 + body.length / kRtpMaxPayloadSize ∧
      Carries header body kRtpMaxPayloadSize (1 + body.length / kRtpMaxPayloadSize) 0
        b.videoSequence pkts := by
  have hjoins := joins_joined samples
  have hflatten : (joined samples).nalus.flatten = header :: body := by
    rw [hjoins.nalus]
    exact hmerged
  have hlength : (joined samples).nalus.flatten.length = body.length + 1 := by
    rw [hflatten, List.length_cons]
  have hsize : Payloader.nbBytes (.rawNalus (joined samples)) = body.length + 1 := by
    rw [Payloader.nbBytes, ← List.length_flatten, hlength]
  have hskip : withRaw (joined samples) RawNalus.skipFirstByte b =
      .ok (header, { joined samples with cursor := (joined samples).cursor + 1 }) b := by
    have hbytes := hjoins.nnBytes
    have hcursor := hjoins.cursor
    have hinside : (joined samples).cursor < (joined samples).nnBytes := by omega
    cases hnalus : (joined samples).nalus with
    | nil =>
      rw [hnalus] at hflatten
      cases hflatten
    | cons p rest =>
      cases p with
      | nil => exact absurd rfl (hjoins.ne_nil [] (hnalus ▸ List.mem_cons_self))
      | cons v p =>
        have hskip := RawNalus.skipFirstByte_run hnalus hinside
        rw [hnalus, List.flatten_cons, List.cons_append] at hflatten
        rw [withRaw, hskip, (List.cons.inj hflatten).1]
  obtain ⟨pkts, b', hloop, hcount, hcarries⟩ := nalusLoop_run timestamp header body
    kRtpMaxPayloadSize (le_refl (1 + body.length / kRtpMaxPayloadSize)) b
    { joined samples with cursor := (joined samples).cursor + 1 } hjoins.ne_nil
    (by rw [hflatten]; rfl) (hjoins.nnBytes.trans hlength) (by
      rw [Nat.sub_self, Nat.zero_mul, Nat.min_zero]
      exact congrArg (· + 1) hjoins.cursor)
  rw [Nat.sub_self, Nat.zero_mul, Nat.min_zero, Nat.sub_zero] at hloop
  rw [Nat.sub_self] at hcarries
  rw [packageNalus, hsize]
  dsimp only
  rw [if_neg (Nat.succ_ne_zero _), if_neg (not_lt.mpr hlarge), Prog.bind_ok hskip,
    Nat.add_sub_cancel]
  exact ⟨pkts, b', hloop, hcount, hcarries⟩

end Run

/-! ## Fragments as the receiver sees them -/

/-- The start bit of a `FU-A` payload. -/
def startBit (fu : List UInt8) : Bool := fu.getD 1 0 &&& kStart ≠ 0

/-- The end bit. -/
def endBit (fu : List UInt8) : Bool := fu.getD 1 0 &&& kEnd ≠ 0

/-- The NALU that the fragments are of: its first byte is in the two bytes that each fragment
starts with. -/
def reassemble : List (List UInt8) → List UInt8
  | [] => []
  | fu :: fus => ((fu.getD 0 0 &&& ~~~kNalTypeMask) ||| (fu.getD 1 0 &&& kNalTypeMask)) ::
      (fu :: fus).flatMap (List.drop 2)

/-- The packets are proper fragments of the NALU, with sequence numbers from `first` on. -/
structure Fragments (nalu : List UInt8) (first : UInt16) (pkts : List VideoPacket) : Prop where
  sequence : ∀ i pkt, pkts[i]? = some pkt → pkt.sequence = first + UInt16.ofNat i
  type : ∀ pkt ∈ pkts, pkt.payload.written.getD 0 0 &&& kNalTypeMask = UInt8.ofNat kFuA
  size : ∀ pkt ∈ pkts, 1 ≤ (pkt.payload.written.drop 2).length ∧
    (pkt.payload.written.drop 2).length ≤ kRtpMaxPayloadSize
  start : ∀ i pkt, pkts[i]? = some pkt → (startBit pkt.payload.written = true ↔ i = 0)
  end_ : ∀ i pkt, pkts[i]? = some pkt →
    (endBit pkt.payload.written = true ↔ i + 1 = pkts.length)
  not_both : ∀ pkt ∈ pkts,
    ¬ (startBit pkt.payload.written = true ∧ endBit pkt.payload.written = true)
  whole : reassemble (pkts.map fun pkt => pkt.payload.written) = nalu

/-- The two bytes that a fragment starts with have the type, the bits and the first byte. -/
theorem fu_bits (header : UInt8) (start end_ : Bool) :
    let fu : FuFields := ⟨header, start, end_, header &&& kNalTypeMask⟩
    fu.indicator &&& kNalTypeMask = UInt8.ofNat kFuA ∧
      (fu.header &&& kStart ≠ 0 ↔ start = true) ∧ (fu.header &&& kEnd ≠ 0 ↔ end_ = true) ∧
      (fu.indicator &&& ~~~kNalTypeMask) ||| (fu.header &&& kNalTypeMask) = header := by
  have hall : ∀ n < 256, ∀ start end_ : Bool,
      let fu : FuFields := ⟨UInt8.ofNat n, start, end_, UInt8.ofNat n &&& kNalTypeMask⟩
      fu.indicator &&& kNalTypeMask = UInt8.ofNat kFuA ∧
        (fu.header &&& kStart ≠ 0 ↔ start = true) ∧ (fu.header &&& kEnd ≠ 0 ↔ end_ = true) ∧
        (fu.indicator &&& ~~~kNalTypeMask) ||| (fu.header &&& kNalTypeMask) = UInt8.ofNat n := by
    decide +kernel
  have hheader := hall header.toNat header.toNat_lt start end_
  rw [UInt8.ofNat_toNat] at hheader
  exact hheader

section Fragments

variable {header : UInt8} {body : List UInt8} {n num i : ℕ} {seq : UInt16}
  {pkts : List VideoPacket} {pkt : VideoPacket}

/-- The `j`-th of the packets carries the slice `i + j`. -/
theorem Carries.get (h : Carries header body n num i seq pkts) {j : ℕ} (hj : pkts[j]? = some pkt) :
    pkt.sequence = seq + UInt16.ofNat j ∧
      pkt.payload.written = fuBytes header num (i + j) (chunk body n (i + j)) := by
  induction pkts generalizing i seq j with
  | nil => exact absurd hj (by simp)
  | cons p rest ih =>
    obtain ⟨hseq, hbytes, hrest⟩ := h
    cases j with
    | zero =>
      have hp : p = pkt := Option.some.inj hj
      rw [← hp, Payloader.written_eq]
      exact ⟨hseq.trans (UInt16.add_zero seq).symm, hbytes⟩
    | succ j =>
      have hget := ih hrest (j := j) hj
      have hnumber : seq + 1 + UInt16.ofNat j = seq + UInt16.ofNat (j + 1) := by
        rw [UInt16.ofNat_add, UInt16.add_assoc, UInt16.add_comm 1]
        rfl
      have hindex : i + 1 + j = i + (j + 1) := by omega
      rw [hnumber, hindex] at hget
      exact hget

/-- The slices that are not empty make proper fragments, unless there is only one. -/
theorem Carries.fragments_iff (h : Carries header body kRtpMaxPayloadSize num 0 seq pkts)
    (hlength : pkts.length = num) (hnum : 0 < num)
    (hall : body.length ≤ num * kRtpMaxPayloadSize) :
    Fragments (header :: body) seq pkts ↔
      num ≠ 1 ∧ (num - 1) * kRtpMaxPayloadSize < body.length := by
  have hmax : 0 < kRtpMaxPayloadSize := by decide
  have hget : ∀ {i pkt}, pkts[i]? = some pkt → pkt.sequence = seq + UInt16.ofNat i ∧
      pkt.payload.written = fuBytes header num i (chunk body kRtpMaxPayloadSize i) := by
    intro i pkt hi
    have hi := h.get hi
    rw [Nat.zero_add] at hi
    exact hi
  have hstart : ∀ {i pkt}, pkts[i]? = some pkt →
      (startBit pkt.payload.written = true ↔ i = 0) := by
    intro i pkt hi
    have hbit := (fu_bits header (i = 0) (i = num - 1)).2.1
    rw [decide_eq_true_iff] at hbit
    rw [startBit, decide_eq_true_iff, (hget hi).2]
    exact hbit
  have hend : ∀ {i pkt}, pkts[i]? = some pkt →
      (endBit pkt.payload.written = true ↔ i + 1 = pkts.length) := by
    intro i pkt hi
    have hbit := (fu_bits header (i = 0) (i = num - 1)).2.2.1
    have hlast : i = num - 1 ↔ i + 1 = pkts.length := by omega
    rw [decide_eq_true_iff] at hbit
    rw [endBit, decide_eq_true_iff, (hget hi).2]
    exact hbit.trans hlast
  have hindex : ∀ {pkt}, pkt ∈ pkts → ∃ i, i < num ∧ pkts[i]? = some pkt := by
    intro pkt hpkt
    obtain ⟨i, hi, hget⟩ := List.getElem_of_mem hpkt
    exact ⟨i, hlength ▸ hi, List.getElem?_eq_some_iff.mpr ⟨hi, hget⟩⟩
  constructor
  · intro hproper
    have hlast : (num - 1) < pkts.length := by omega
    have hlastGet := List.getElem?_eq_getElem hlast
    constructor
    · intro hone
      refine hproper.not_both _ (List.getElem_mem hlast) ⟨?_, ?_⟩
      · exact (hstart hlastGet).mpr (by omega)
      · exact (hend hlastGet).mpr (by omega)
    · have hsize := (hproper.size _ (List.getElem_mem hlast)).1
      rw [(hget hlastGet).2] at hsize
      exact (length_chunk_pos_iff body hmax (num - 1)).mp hsize
  · rintro ⟨hone, hlast⟩
    refine ⟨fun i pkt hi => (hget hi).1, ?_, ?_, fun i pkt hi => hstart hi,
      fun i pkt hi => hend hi, ?_, ?_⟩
    · intro pkt hpkt
      obtain ⟨i, -, hi⟩ := hindex hpkt
      rw [(hget hi).2]
      exact (fu_bits header (i = 0) (i = num - 1)).1
    · intro pkt hpkt
      obtain ⟨i, hlt, hi⟩ := hindex hpkt
      have hle : i * kRtpMaxPayloadSize ≤ (num - 1) * kRtpMaxPayloadSize :=
        Nat.mul_le_mul_right _ (by omega)
      rw [(hget hi).2]
      exact ⟨(length_chunk_pos_iff body hmax i).mpr (by omega), length_chunk_le body _ i⟩
    · intro pkt hpkt hboth
      obtain ⟨i, -, hi⟩ := hindex hpkt
      have hfirst := (hstart hi).mp hboth.1
      have hlast := (hend hi).mp hboth.2
      omega
    · have hmap : (pkts.map fun pkt => pkt.payload.written) =
          (List.range num).map fun i => fuBytes header num i (chunk body kRtpMaxPayloadSize i) := by
        apply List.ext_getElem?
        intro i
        rw [List.getElem?_map, List.getElem?_map]
        by_cases hi : i < num
        · obtain ⟨pkt, hpkt⟩ : ∃ pkt, pkts[i]? = some pkt :=
            ⟨_, List.getElem?_eq_getElem (hlength ▸ hi)⟩
          rw [hpkt, List.getElem?_range hi, Option.map_some, Option.map_some, (hget hpkt).2]
        · rw [List.getElem?_eq_none (by omega), List.getElem?_eq_none (by simp; omega)]
          rfl
      have hslices : ((List.range num).map fun i =>
          fuBytes header num i (chunk body kRtpMaxPayloadSize i)).flatMap (List.drop 2) = body := by
        rw [List.flatMap_map]
        exact flatten_chunks_all body hall
      obtain ⟨k, hk⟩ : ∃ k, num = k + 1 := ⟨num - 1, by omega⟩
      rw [hmap]
      rw [hk, List.range_succ_eq_map, List.map_cons] at hslices ⊢
      rw [reassemble, hslices]
      exact congrArg (· :: body) (fu_bits header _ _).2.2.2

end Fragments

/-- A NALU that is too large for a packet. -/
structure LargeNalu where
  bytes : List UInt8
  large : kRtpMaxPayloadSize < bytes.length

/-- NALUs that are too large for a packet when merged. -/
structure LargeFrame where
  samples : List (List UInt8)
  large : kRtpMaxPayloadSize ≤ (merged samples).length

/-- The builder returns proper fragments. -/
def Packages (x : Prog SrsRtcRtpBuilder SrsError (List VideoPacket)) (b : SrsRtcRtpBuilder)
    (nalu : List UInt8) : Prop :=
  ∃ pkts b', x b = .ok pkts b' ∧ Fragments nalu b.videoSequence pkts

/-- A large NALU is sent as proper fragments unless it has one byte too many, and merged NALUs
unless their size is the limit, or one more than a multiple of it. -/
theorem packages_iff (b : SrsRtcRtpBuilder) (timestamp : ℤ) (nalu : LargeNalu)
    (frame : LargeFrame) :
    (Packages (packageFuA timestamp nalu.bytes kRtpMaxPayloadSize) b nalu.bytes ↔
      nalu.bytes.length ≠ kRtpMaxPayloadSize + 1) ∧
    (Packages (packageNalus timestamp frame.samples) b (merged frame.samples) ↔
      (merged frame.samples).length ≠ kRtpMaxPayloadSize ∧
        ¬ kRtpMaxPayloadSize ∣ (merged frame.samples).length - 1) := by
  have hpackages : ∀ {x : Prog SrsRtcRtpBuilder SrsError (List VideoPacket)} {bytes pkts b'},
      x b = .ok pkts b' → (Packages x b bytes ↔ Fragments bytes b.videoSequence pkts) := by
    intro x bytes pkts b' hrun
    constructor
    · rintro ⟨pkts', b'', hrun', hproper⟩
      rw [hrun] at hrun'
      cases hrun'
      exact hproper
    · intro hproper
      exact ⟨pkts, b', hrun, hproper⟩
  constructor
  · obtain ⟨bytes, hlarge⟩ := nalu
    cases bytes with
    | nil => exact absurd hlarge (by decide)
    | cons header body =>
      obtain ⟨pkts, b', hrun, hlength, hcarries⟩ :=
        packageFuA_run timestamp header body kRtpMaxPayloadSize b
      have hbody : kRtpMaxPayloadSize < body.length + 1 := hlarge
      have hall : body.length ≤ (1 + (body.length - 1) / kRtpMaxPayloadSize) *
          kRtpMaxPayloadSize := by
        unfold kRtpMaxPayloadSize
        omega
      rw [hpackages hrun, hcarries.fragments_iff hlength (Nat.add_pos_left Nat.one_pos _) hall,
        List.length_cons]
      unfold kRtpMaxPayloadSize at hbody ⊢
      omega
  · obtain ⟨samples, hlarge⟩ := frame
    cases hmerged : merged samples with
    | nil =>
      rw [hmerged] at hlarge
      exact absurd hlarge (by decide)
    | cons header body =>
      rw [hmerged] at hlarge
      obtain ⟨pkts, b', hrun, hlength, hcarries⟩ :=
        packageNalus_run timestamp header body b hmerged hlarge
      have hbody : kRtpMaxPayloadSize ≤ body.length + 1 := hlarge
      have hall : body.length ≤ (1 + body.length / kRtpMaxPayloadSize) * kRtpMaxPayloadSize := by
        unfold kRtpMaxPayloadSize
        omega
      rw [hpackages hrun, hcarries.fragments_iff hlength (Nat.add_pos_left Nat.one_pos _) hall,
        List.length_cons, Nat.dvd_iff_mod_eq_zero]
      unfold kRtpMaxPayloadSize at hbody ⊢
      omega

/-- 1201 bytes are sent as one packet with both bits. -/
theorem one_fragment_with_both_bits : ¬ ∀ (b : SrsRtcRtpBuilder) (nalu : LargeNalu),
    Packages (packageFuA 0 nalu.bytes kRtpMaxPayloadSize) b nalu.bytes := by
  intro h
  have hlarge : kRtpMaxPayloadSize < (List.replicate 1201 (0x65 : UInt8)).length := by
    rw [List.length_replicate]
    decide
  have hpackages := h ⟨102, 1, 0⟩ ⟨List.replicate 1201 0x65, hlarge⟩
  obtain ⟨pkts, b', hrun, hproper⟩ := hpackages
  obtain ⟨pkts', b'', hrun', hlength, hcarries⟩ :=
    packageFuA_run 0 0x65 (List.replicate 1200 0x65) kRtpMaxPayloadSize ⟨102, 1, 0⟩
  have hsame : packageFuA 0 (List.replicate 1201 0x65) kRtpMaxPayloadSize ⟨102, 1, 0⟩ =
      .ok pkts' b'' := hrun'
  rw [hsame] at hrun
  cases hrun
  rw [List.length_replicate] at hlength hcarries
  have hsize : (List.replicate 1200 (0x65 : UInt8)).length ≤ 1 * kRtpMaxPayloadSize := by
    rw [List.length_replicate]
    decide
  exact ((hcarries.fragments_iff hlength (by decide) hsize).mp hproper).1 rfl

end SrsRtcRtpBuilder

end SrsChatRoom.App
