import SrsChatRoom.App.RtcQueue
import SrsChatRoom.Kernel.Rtcp
import SrsChatRoom.Lib.OrderedKeys

/-!
# Generic NACK (`srs_kernel_rtc_rtcp.cpp`)

`SrsRtcpNack::encode` packs the lost numbers into pairs of a number and a mask of the 16 numbers
behind it. It goes through the set in the order of serial numbers, and compares them as plain
integers: a number behind the wrap from 65535 to 0 is less than the first one of its chunk, and is
skipped.

`chunksOf_split` says what the chunks have: the numbers before the wrap, or all of them where
there are none. `nack_returns_iff` says for which sets this is all.
-/

namespace SrsChatRoom.Kernel.Rtcp

open SrsBuffer
open App (seqCompareLess)
open List (append_assoc drop_left' flatMap_cons length_append mem_cons_self take_left')

/-! ## Packing -/

/-- `SrsPidBlp` -/
structure SrsPidBlp where
  pid : UInt16
  blp : UInt16
  inUse : Bool
deriving DecidableEq, Repr

/-- The variables of the loop in `encode`. -/
structure Packing where
  chunks : List SrsPidBlp
  chunk : SrsPidBlp
  pid : UInt16

/-- One round of the loop. The differences are those of `int`s. -/
def Packing.add (p : Packing) (sn : UInt16) : Packing :=
  if !p.chunk.inUse then { p with chunk := ⟨sn, 0, true⟩, pid := sn }
  else if (sn.toNat : ℤ) - p.pid.toNat < 1 then p
  else if (sn.toNat : ℤ) - p.pid.toNat > 16 then
    -- append full chunk, start new chunk
    ⟨p.chunks ++ [p.chunk], ⟨sn, 0, true⟩, sn⟩
  else
    let blp := p.chunk.blp.toNat ||| 1 <<< (sn.toNat - p.pid.toNat - 1)
    { p with chunk := { p.chunk with blp := UInt16.ofNat blp } }

/-- Before the loop. -/
def Packing.start : Packing := ⟨[], ⟨0, 0, false⟩, 0⟩

/-- The chunks of the numbers in a set. -/
def chunksOf (lostSns : List UInt16) : List SrsPidBlp :=
  let p := lostSns.foldl Packing.add .start
  if p.chunk.inUse then p.chunks ++ [p.chunk] else p.chunks

/-! ## The packet -/

/-- `SrsRtcpNack`, with the numbers in the order of the set. -/
structure SrsRtcpNack where
  ssrc : UInt32
  mediaSsrc : UInt32
  lostSns : List UInt16
deriving DecidableEq, Repr

namespace SrsRtcpNack

/-- `SrsRtcpNack(sender_ssrc)` -/
def new (senderSsrc : UInt32) : SrsRtcpNack := ⟨senderSsrc, 0, []⟩

/-- `set_media_ssrc(ssrc)` -/
def setMediaSsrc (nack : SrsRtcpNack) (ssrc : UInt32) : SrsRtcpNack := { nack with mediaSsrc := ssrc }

/-- `add_lost_sn(sn)` -/
def addLostSn (nack : SrsRtcpNack) (sn : UInt16) : SrsRtcpNack :=
  { nack with lostSns := insertKey seqCompareLess sn nack.lostSns }

/-- The header, with the length that `encode` sets. -/
def header (nack : SrsRtcpNack) : RtcpHeader where
  rc := 1
  padding := 0
  version := 2
  type := 205
  length := 2 + (chunksOf nack.lostSns).length

end SrsRtcpNack

/-- The four bytes of a header. -/
def RtcpHeader.toBytes (header : RtcpHeader) : List UInt8 :=
  [UInt8.ofNat (header.rc + 32 * header.padding + 64 * header.version), UInt8.ofNat header.type] ++
    bytesBE 2 header.length

/-- `encode_header` -/
def encodeHeader (header : RtcpHeader) (ssrc : UInt32) : Dec Unit := do
  checkRequire 8 .rtcRtcp "require 8"
  writeBytes header.toBytes
  writeUint 4 ssrc.toNat

/-- The loop over the chunks. -/
def writeChunks : List SrsPidBlp → Dec Unit
  | [] => return ()
  | chunk :: chunks => do
    writeUint 2 chunk.pid.toNat
    writeUint 2 chunk.blp.toNat
    writeChunks chunks

namespace SrsRtcpNack

/-- `SrsRtcpNack::encode`; `nb_bytes` is `kRtcpPacketSize`. -/
def encode (nack : SrsRtcpNack) : Dec Unit := do
  checkRequire rtcpPacketSize .rtcRtcp "requires 1500 bytes"
  Prog.wrap (srsErrorWrap "encode header") (encodeHeader nack.header nack.ssrc)
  writeUint 4 nack.mediaSsrc.toNat
  writeChunks (chunksOf nack.lostSns)

/-- `SrsRtcpNack::decode`, into an object without numbers. -/
def decode : Dec SrsRtcpNack :=
  withHeader fun header ssrc => do
    let mediaSsrc ← readUint 4
    let lostSns ← readPidBlps (header.length - 2)
    return ⟨UInt32.ofNat ssrc, UInt32.ofNat mediaSsrc,
      insertKeys seqCompareLess [] (lostSns.map UInt16.ofNat)⟩

/-- The bytes that `encode` writes into a packet. -/
def writtenInto (nack : SrsRtcpNack) (buf : List UInt8) : List UInt8 :=
  match nack.encode ⟨buf, 0⟩ with
  | .ok _ b => b.bytes.take b.pos
  | _ => []

/-- `char buf[kRtcpPacketSize]` -/
def written (nack : SrsRtcpNack) : List UInt8 :=
  nack.writtenInto (List.replicate rtcpPacketSize 0)

end SrsRtcpNack

/-! ## What the chunks have -/

/-- The numbers that the decoder takes from a chunk. -/
def SrsPidBlp.lostSns (chunk : SrsPidBlp) : List ℕ := lostSnsOf chunk.pid.toNat chunk.blp.toNat

theorem lostSnsOf_zero (pid : ℕ) : lostSnsOf pid 0 = [pid] := by
  simp [lostSnsOf]

theorem testBit_or_shift (blp k j : ℕ) :
    (blp ||| 1 <<< k).testBit j = (blp.testBit j || decide (k = j)) := by
  rw [Nat.testBit_or, Nat.one_shiftLeft, Nat.testBit_two_pow]

/-- One bit more, above all others, is one number more at the end. -/
theorem lostSnsOf_or (pid : ℕ) {blp k : ℕ} (hblp : blp < 2 ^ k) (hk : k < 16) :
    lostSnsOf pid (blp ||| 1 <<< k) = lostSnsOf pid blp ++ [(pid + k + 1) % 65536] := by
  have hrange : List.range 16 = List.range k ++ k :: (List.range (15 - k)).map (k + 1 + ·) := by
    have hsplit : (16 : ℕ) = k + (15 - k + 1) := by omega
    rw [hsplit, List.range_add, List.range_succ_eq_map, List.map_cons, List.map_map]
    have hlen : k + (15 - k + 1) - (k + 1) = 15 - k := by omega
    simp only [Nat.add_zero, List.append_cancel_left_eq, List.cons.injEq, true_and]
    apply List.map_congr_left
    intro i hi
    show k + (i + 1) = k + 1 + i
    omega
  have hhigh : ∀ j, k ≤ j → blp.testBit j = false := fun j hj =>
    Nat.testBit_lt_two_pow (hblp.trans_le (Nat.pow_le_pow_right (by omega) hj))
  have hlow : (List.range k).filterMap (fun j =>
        if (blp ||| 1 <<< k).testBit j then some ((pid + j + 1) % 65536) else none) =
      (List.range k).filterMap fun j =>
        if blp.testBit j then some ((pid + j + 1) % 65536) else none := by
    apply List.filterMap_congr
    intro j hj
    have hne : k ≠ j := by
      have := List.mem_range.mp hj
      omega
    rw [testBit_or_shift, decide_eq_false hne, Bool.or_false]
  have habove : ∀ mask : ℕ, (∀ j, k < j → mask.testBit j = false) →
      ((List.range (15 - k)).map (k + 1 + ·)).filterMap (fun j =>
        if mask.testBit j then some ((pid + j + 1) % 65536) else none) = [] := by
    intro mask hmask
    rw [List.filterMap_eq_nil_iff]
    intro j hj
    obtain ⟨i, -, rfl⟩ := List.mem_map.mp hj
    rw [hmask _ (by omega)]
    rfl
  have hset : ∀ j, k < j → (blp ||| 1 <<< k).testBit j = false := by
    intro j hj
    rw [testBit_or_shift, hhigh j (by omega), decide_eq_false (by omega)]
    rfl
  rw [lostSnsOf, lostSnsOf, hrange, List.filterMap_append, List.filterMap_append, hlow,
    List.filterMap_cons, List.filterMap_cons, habove _ hset, habove _ fun j hj => hhigh j hj.le,
    testBit_or_shift, hhigh k (le_refl k), decide_eq_true rfl]
  simp

/-- The loop has packed these numbers, the last of which is `last`. -/
structure Packed (p : Packing) (done : List UInt16) (last : UInt16) : Prop where
  in_use : p.chunk.inUse = true
  pid_eq : p.chunk.pid = p.pid
  lost : (p.chunks ++ [p.chunk]).flatMap SrsPidBlp.lostSns = done.map UInt16.toNat
  pid_le : p.pid.toNat ≤ last.toNat
  blp_lt : p.chunk.blp.toNat < 2 ^ (last.toNat - p.pid.toNat)

section Packs

variable {p : Packing} {done : List UInt16} {last sn : UInt16}

theorem packed_first (sn : UInt16) : Packed (Packing.start.add sn) [sn] sn := by
  constructor
  · rfl
  · rfl
  · show lostSnsOf sn.toNat 0 ++ [] = [sn.toNat]
    rw [lostSnsOf_zero, List.append_nil]
  · exact le_refl _
  · exact Nat.two_pow_pos _

/-- A number above the last one is packed. -/
theorem Packed.add (h : Packed p done last) (hlt : last.toNat < sn.toNat) :
    Packed (p.add sn) (done ++ [sn]) sn := by
  have hpid := h.pid_le
  have hsn : sn.toNat < 65536 := sn.toNat_lt
  rw [Packing.add, h.in_use, if_neg (by decide), if_neg (by omega)]
  by_cases hfar : (sn.toNat : ℤ) - p.pid.toNat > 16
  · rw [if_pos hfar]
    constructor
    · rfl
    · rfl
    · rw [List.flatMap_append, h.lost, List.map_append, List.flatMap_singleton]
      exact congrArg (_ ++ ·) (lostSnsOf_zero sn.toNat)
    · exact le_refl _
    · exact Nat.two_pow_pos _
  · rw [if_neg hfar]
    -- the bit is above those of the numbers before
    have hbelow : p.chunk.blp.toNat < 2 ^ (sn.toNat - p.pid.toNat - 1) :=
      h.blp_lt.trans_le (Nat.pow_le_pow_right (by omega) (by omega))
    have hpow : 2 ^ (sn.toNat - p.pid.toNat - 1) < 2 ^ (sn.toNat - p.pid.toNat) :=
      Nat.pow_lt_pow_right (by omega) (by omega)
    have hbit : p.chunk.blp.toNat ||| 1 <<< (sn.toNat - p.pid.toNat - 1) <
        2 ^ (sn.toNat - p.pid.toNat) := by
      apply Nat.or_lt_two_pow
      · exact hbelow.trans hpow
      · rw [Nat.one_shiftLeft]
        exact hpow
    have hfits : (UInt16.ofNat (p.chunk.blp.toNat ||| 1 <<< (sn.toNat - p.pid.toNat - 1))).toNat =
        p.chunk.blp.toNat ||| 1 <<< (sn.toNat - p.pid.toNat - 1) := by
      have hword : 2 ^ (sn.toNat - p.pid.toNat) ≤ 2 ^ 16 :=
        Nat.pow_le_pow_right (by omega) (by omega)
      exact UInt16.toNat_ofNat_of_lt' (hbit.trans_le hword)
    constructor
    · exact h.in_use
    · exact h.pid_eq
    · have hlost := h.lost
      rw [List.flatMap_append, List.flatMap_singleton] at hlost ⊢
      rw [List.map_append, ← hlost, append_assoc]
      congr 1
      show lostSnsOf _ (UInt16.ofNat _).toNat = lostSnsOf _ _ ++ _
      rw [hfits, h.pid_eq, lostSnsOf_or _ hbelow (by omega)]
      show _ = _ ++ [sn.toNat]
      congr 2
      omega
    · exact hpid.trans hlt.le
    · show (UInt16.ofNat _).toNat < _
      rw [hfits]
      exact hbit

/-- A number that is not above that of the chunk is skipped. -/
theorem Packed.skip (h : Packed p done last) (hle : sn.toNat ≤ p.pid.toNat) : p.add sn = p := by
  rw [Packing.add, h.in_use, if_neg (by decide), if_pos (by omega)]

/-- The rest of the numbers in increasing order. -/
theorem Packed.run (h : Packed p done last) (sns : List UInt16)
    (hsorted : (last :: sns).Pairwise fun a b => a.toNat < b.toNat) :
    ∃ last', Packed (sns.foldl Packing.add p) (done ++ sns) last' ∧
      p.pid.toNat ≤ (sns.foldl Packing.add p).pid.toNat := by
  induction sns generalizing p done last with
  | nil => exact ⟨last, by rwa [List.append_nil], le_refl _⟩
  | cons sn sns ih =>
    obtain ⟨hlast, hrest⟩ := List.pairwise_cons.mp hsorted
    have hnext := h.add (hlast sn mem_cons_self)
    have hpid : p.pid.toNat ≤ (p.add sn).pid.toNat := by
      have hlt := hlast sn mem_cons_self
      have hle := h.pid_le
      rw [Packing.add, h.in_use, if_neg (by decide), if_neg (by omega)]
      split
      · show p.pid.toNat ≤ sn.toNat
        omega
      · exact le_refl _
    obtain ⟨last', hrun, hpid'⟩ := ih hnext hrest
    rw [append_assoc] at hrun
    exact ⟨last', hrun, hpid.trans hpid'⟩

/-- Numbers that are all skipped. -/
theorem Packed.skips (h : Packed p done last) (sns : List UInt16)
    (hle : ∀ sn ∈ sns, sn.toNat ≤ p.pid.toNat) : sns.foldl Packing.add p = p := by
  induction sns with
  | nil => rfl
  | cons sn sns ih =>
    rw [List.foldl_cons, h.skip (hle sn mem_cons_self)]
    exact ih fun sn' hsn' => hle sn' (List.mem_cons_of_mem sn hsn')

end Packs

/-- What the chunks have: the numbers that increase, and none of those that are behind them in the
set and not above the first one. -/
theorem chunksOf_split (first : UInt16) (sns wrapped : List UInt16)
    (hsorted : (first :: sns).Pairwise fun a b => a.toNat < b.toNat)
    (hwrapped : ∀ sn ∈ wrapped, sn.toNat ≤ first.toNat) :
    (chunksOf (first :: sns ++ wrapped)).flatMap SrsPidBlp.lostSns =
      (first :: sns).map UInt16.toNat := by
  obtain ⟨last, hrun, hpid⟩ := (packed_first first).run sns hsorted
  have hskip : wrapped.foldl Packing.add (sns.foldl Packing.add (Packing.start.add first)) =
      sns.foldl Packing.add (Packing.start.add first) :=
    hrun.skips wrapped fun sn hsn => (hwrapped sn hsn).trans hpid
  have hfold : (first :: sns ++ wrapped).foldl Packing.add .start =
      sns.foldl Packing.add (Packing.start.add first) := by
    rw [List.foldl_append, List.foldl_cons, hskip]
  rw [chunksOf, hfold, if_pos hrun.in_use]
  exact hrun.lost

/-! ## Windows of serial numbers -/

section Window

variable {base : UInt16}

/-- Less than 2^15 behind `base`, around the wrap. -/
def InWindow (base sn : UInt16) : Prop := (sn - base).toNat < 32768

theorem toNat_offset (base sn : UInt16) :
    (sn - base).toNat = (65536 - base.toNat + sn.toNat) % 65536 := UInt16.toNat_sub sn base

theorem seqOf_offset (base sn : UInt16) : seqOf (base.toNat + (sn - base).toNat : ℕ) = sn := by
  have hsn : sn.toNat < 65536 := sn.toNat_lt
  have hbase : base.toNat < 65536 := base.toNat_lt
  have hoffset := toNat_offset base sn
  rw [← UInt16.toNat_inj, ← Nat.cast_inj (R := ℤ), toNat_seqOf]
  omega

/-- In a window, the comparison is that of the distances from its start. -/
theorem ranks_window (base : UInt16) :
    Ranks seqCompareLess (fun sn => (sn - base).toNat) (InWindow base) := by
  constructor
  · intro a b ha hb
    rw [InWindow] at ha hb
    have hdistance : seqDistance a b = ((b - base).toNat : ℤ) - (a - base).toNat := by
      conv_lhs => rw [← seqOf_offset base a, ← seqOf_offset base b]
      rw [seqDistance_near (by omega) (by omega)]
      omega
    rw [seqCompareLess, decide_eq_true_iff, hdistance]
    omega
  · intro a b _ _ heq
    rw [← seqOf_offset base a, ← seqOf_offset base b, heq]

end Window

/-! ## The bytes -/

/-- The four bytes of a chunk. -/
def SrsPidBlp.toBytes (chunk : SrsPidBlp) : List UInt8 :=
  bytesBE 2 chunk.pid.toNat ++ bytesBE 2 chunk.blp.toNat

/-- The bytes of a packet. -/
def SrsRtcpNack.toBytes (nack : SrsRtcpNack) : List UInt8 :=
  nack.header.toBytes ++ (bytesBE 4 nack.ssrc.toNat ++ (bytesBE 4 nack.mediaSsrc.toNat ++
    (chunksOf nack.lostSns).flatMap SrsPidBlp.toBytes))

@[simp] theorem RtcpHeader.length_toBytes (header : RtcpHeader) : header.toBytes.length = 4 := by
  simp [RtcpHeader.toBytes]

@[simp] theorem SrsPidBlp.length_toBytes (chunk : SrsPidBlp) : chunk.toBytes.length = 4 := by
  simp [SrsPidBlp.toBytes]

@[simp] theorem length_chunkBytes (chunks : List SrsPidBlp) :
    (chunks.flatMap SrsPidBlp.toBytes).length = 4 * chunks.length := by
  induction chunks with
  | nil => rfl
  | cons chunk chunks ih =>
    rw [flatMap_cons, length_append, ih, SrsPidBlp.length_toBytes, List.length_cons]
    omega

theorem SrsRtcpNack.length_toBytes (nack : SrsRtcpNack) :
    nack.toBytes.length = 12 + 4 * (chunksOf nack.lostSns).length := by
  simp only [SrsRtcpNack.toBytes, length_append, RtcpHeader.length_toBytes, length_bytesBE,
    length_chunkBytes]
  omega

section Running

variable {b : SrsBuffer}

theorem writeChunks_run (chunks : List SrsPidBlp)
    (hroom : b.pos + (chunks.flatMap SrsPidBlp.toBytes).length ≤ b.bytes.length) :
    writeChunks chunks b = .ok () (b.put (chunks.flatMap SrsPidBlp.toBytes)) := by
  induction chunks generalizing b with
  | nil => exact congrArg (Outcome.ok ()) b.put_nil.symm
  | cons chunk chunks ih =>
    rw [flatMap_cons, SrsPidBlp.toBytes, append_assoc] at hroom ⊢
    simp only [length_append, length_bytesBE] at hroom
    have hput := @length_bytes_put b (bytesBE 2 chunk.pid.toNat)
      (by rw [length_bytesBE]; omega)
    have hput' := @length_bytes_put (b.put (bytesBE 2 chunk.pid.toNat))
      (bytesBE 2 chunk.blp.toNat) (by rw [length_bytesBE, hput, pos_put, length_bytesBE]; omega)
    rw [writeChunks]
    apply write_then (by simp only [length_append, length_bytesBE]; omega)
    apply write_then
    · simp only [length_append, length_bytesBE, hput, pos_put]
      omega
    · apply ih
      simp only [hput', hput, pos_put, length_bytesBE]
      omega

theorem encodeHeader_run (header : RtcpHeader) (ssrc : UInt32)
    (hroom : b.pos + 8 ≤ b.bytes.length) :
    encodeHeader header ssrc b = .ok () (b.put (header.toBytes ++ bytesBE 4 ssrc.toNat)) := by
  have hrequire : checkRequire 8 .rtcRtcp "require 8" b = .ok () b :=
    if_pos ((b.require_iff 8).mpr hroom)
  have hput := @length_bytes_put b header.toBytes
    (by rw [header.length_toBytes]; omega)
  rw [encodeHeader, Prog.bind_ok hrequire]
  apply write_then
  · simp only [length_append, header.length_toBytes, length_bytesBE]
    omega
  · apply writeBytes_run
    rw [hput, pos_put, header.length_toBytes, length_bytesBE]
    omega

/-- `encode` writes the bytes of the packet where they fit. -/
theorem SrsRtcpNack.encode_run (nack : SrsRtcpNack)
    (hroom : b.pos + rtcpPacketSize ≤ b.bytes.length)
    (hfits : 12 + 4 * (chunksOf nack.lostSns).length ≤ rtcpPacketSize) :
    nack.encode b = .ok () (b.put nack.toBytes) := by
  have hsize : rtcpPacketSize = 1500 := rfl
  have hrequire : checkRequire rtcpPacketSize .rtcRtcp "requires 1500 bytes" b = .ok () b :=
    if_pos ((b.require_iff rtcpPacketSize).mpr hroom)
  have hheader : Prog.wrap (srsErrorWrap "encode header") (encodeHeader nack.header nack.ssrc) b =
      .ok () (b.put (nack.header.toBytes ++ bytesBE 4 nack.ssrc.toNat)) := by
    rw [Prog.wrap, encodeHeader_run _ _ (by omega)]
  have hlength : (nack.header.toBytes ++ bytesBE 4 nack.ssrc.toNat).length = 8 := by
    simp only [length_append, RtcpHeader.length_toBytes, length_bytesBE]
  have hput := @length_bytes_put b
    (nack.header.toBytes ++ bytesBE 4 nack.ssrc.toNat) (by omega)
  have hbody : (writeUint 4 nack.mediaSsrc.toNat >>= fun _ => writeChunks (chunksOf nack.lostSns))
      (b.put (nack.header.toBytes ++ bytesBE 4 nack.ssrc.toNat)) =
        .ok () ((b.put (nack.header.toBytes ++ bytesBE 4 nack.ssrc.toNat)).put
          (bytesBE 4 nack.mediaSsrc.toNat ++
            (chunksOf nack.lostSns).flatMap SrsPidBlp.toBytes)) := by
    apply write_then
    · simp only [length_append, length_bytesBE, length_chunkBytes, hput, pos_put, hlength]
      omega
    · apply writeChunks_run
      rw [length_bytes_put]
      · simp only [length_bytesBE, length_chunkBytes, hput, pos_put, hlength]
        omega
      · simp only [length_bytesBE, hput, pos_put, hlength]
        omega
  rw [encode, Prog.bind_ok hrequire, Prog.bind_ok hheader, hbody, put_put, toBytes,
    append_assoc]
  simp only [length_append, RtcpHeader.length_toBytes, length_bytesBE, length_chunkBytes]
  omega

theorem take_put_start (zeros data : List UInt8) :
    ((⟨zeros, 0⟩ : SrsBuffer).put data).bytes.take (0 + data.length) = data := by
  show ([] ++ data ++ zeros.drop (0 + data.length)).take (0 + data.length) = data
  rw [List.nil_append, Nat.zero_add, List.take_left]

theorem SrsRtcpNack.written_eq (nack : SrsRtcpNack)
    (hfits : 12 + 4 * (chunksOf nack.lostSns).length ≤ rtcpPacketSize) :
    nack.written = nack.toBytes := by
  have hinto : ∀ buf : List UInt8, buf.length = rtcpPacketSize →
      nack.writtenInto buf = nack.toBytes := by
    intro buf hroom
    have hrun : nack.encode ⟨buf, 0⟩ = .ok () ((⟨buf, 0⟩ : SrsBuffer).put nack.toBytes) := by
      apply nack.encode_run _ hfits
      show 0 + rtcpPacketSize ≤ buf.length
      omega
    rw [writtenInto, hrun]
    exact take_put_start buf nack.toBytes
  exact hinto _ List.length_replicate

/-! ## Reading them -/

theorem readPidBlps_run (chunks : List SrsPidBlp) (hpos : b.pos ≤ b.bytes.length)
    (hrest : b.rest = chunks.flatMap SrsPidBlp.toBytes) :
    readPidBlps chunks.length b =
      .ok (chunks.flatMap SrsPidBlp.lostSns) (b.advance (4 * chunks.length)) := by
  induction chunks generalizing b with
  | nil => rfl
  | cons chunk chunks ih =>
    have hpid : chunk.pid.toNat < 256 ^ 2 := chunk.pid.toNat_lt
    have hblp : chunk.blp.toNat < 256 ^ 2 := chunk.blp.toNat_lt
    rw [flatMap_cons, SrsPidBlp.toBytes, append_assoc] at hrest
    have hlen : b.rest.length = 4 + 4 * chunks.length := by
      rw [hrest]
      simp only [length_append, length_bytesBE, length_chunkBytes]
      omega
    have hfirst : readUint 2 b = .ok chunk.pid.toNat (b.advance 2) := by
      rw [readUint_run (by omega) hpos, hrest, take_left' (length_bytesBE _ _), ofBytesBE_bytesBE,
        Nat.mod_eq_of_lt hpid]
    have hrest' : (b.advance 2).rest =
        bytesBE 2 chunk.blp.toNat ++ chunks.flatMap SrsPidBlp.toBytes := by
      rw [rest_advance, hrest, drop_left' (length_bytesBE _ _)]
    have hpos' := pos_advance_le (n := 2) (by omega) hpos
    have hlen' : (b.advance 2).rest.length = 2 + 4 * chunks.length := by
      rw [rest_advance, List.length_drop]
      omega
    have hsecond : readUint 2 (b.advance 2) = .ok chunk.blp.toNat (b.advance 4) := by
      rw [readUint_run (by omega) hpos', hrest', take_left' (length_bytesBE _ _), ofBytesBE_bytesBE,
        Nat.mod_eq_of_lt hblp]
      rfl
    have hrest'' : (b.advance 4).rest = chunks.flatMap SrsPidBlp.toBytes := by
      have hadvance : b.advance 4 = (b.advance 2).advance 2 := rfl
      rw [hadvance, rest_advance, hrest', drop_left' (length_bytesBE _ _)]
    have hmore := ih (pos_advance_le (n := 4) (by omega) hpos) hrest''
    rw [List.length_cons, readPidBlps, Prog.bind_ok hfirst, Prog.bind_ok hsecond,
      Prog.bind_ok hmore, advance_advance, flatMap_cons]
    exact congrArg (fun n => Outcome.ok _ (b.advance n)) (by omega)

end Running

theorem ofBytes_nack (length : List UInt8) :
    RtcpHeader.ofBytes (0x81 :: 205 :: length) = ⟨1, 0, 2, 205, ofBytesBE length⟩ := by
  simp [RtcpHeader.ofBytes]

/-- The header of the bytes of a packet. -/
theorem headerOf_toBytes (nack : SrsRtcpNack)
    (hfits : 12 + 4 * (chunksOf nack.lostSns).length ≤ rtcpPacketSize) :
    headerOf nack.toBytes = nack.header := by
  have hsize : rtcpPacketSize = 1500 := rfl
  have hlength : (2 + (chunksOf nack.lostSns).length) % 256 ^ 2 =
      2 + (chunksOf nack.lostSns).length := Nat.mod_eq_of_lt (by omega)
  have hbytes : nack.header.toBytes =
      0x81 :: 205 :: bytesBE 2 (2 + (chunksOf nack.lostSns).length) := rfl
  rw [headerOf, SrsRtcpNack.toBytes, take_left' (RtcpHeader.length_toBytes _), hbytes]
  rw [ofBytes_nack, ofBytesBE_bytesBE, hlength]
  rfl

/-- Decoding the bytes gives the media ssrc and the numbers of the chunks. -/
theorem decode_toBytes (nack : SrsRtcpNack)
    (hfits : 12 + 4 * (chunksOf nack.lostSns).length ≤ rtcpPacketSize) :
    ∃ ssrc b, SrsRtcpNack.decode ⟨nack.toBytes, 0⟩ =
      .ok ⟨ssrc, nack.mediaSsrc, insertKeys seqCompareLess []
        (((chunksOf nack.lostSns).flatMap SrsPidBlp.lostSns).map UInt16.ofNat)⟩ b := by
  have hlen := nack.length_toBytes
  have hheader := headerOf_toBytes nack hfits
  have hrest : rest ⟨nack.toBytes, 0⟩ = nack.toBytes := rfl
  have haccepted : ¬ Refused (rest ⟨nack.toBytes, 0⟩) := by
    rw [hrest, Refused, hheader, hlen]
    show ¬ (_ ∨ _ < 4 * (2 + (chunksOf nack.lostSns).length + 1))
    omega
  obtain ⟨ssrc, hbody⟩ := withHeader_accepted (α := SrsRtcpNack) haccepted
  have hdrop : ((⟨nack.toBytes, 0⟩ : SrsBuffer).advance 8).rest = bytesBE 4 nack.mediaSsrc.toNat ++
      (chunksOf nack.lostSns).flatMap SrsPidBlp.toBytes := by
    rw [rest_advance, hrest, SrsRtcpNack.toBytes, ← append_assoc]
    exact drop_left' (by simp)
  have hlen8 : ((⟨nack.toBytes, 0⟩ : SrsBuffer).advance 8).rest.length =
      4 + 4 * (chunksOf nack.lostSns).length := by
    rw [rest_advance, hrest, List.length_drop]
    omega
  have hpos8 : ((⟨nack.toBytes, 0⟩ : SrsBuffer).advance 8).pos ≤
      ((⟨nack.toBytes, 0⟩ : SrsBuffer).advance 8).bytes.length := by
    show 0 + 8 ≤ nack.toBytes.length
    omega
  have hmedia : nack.mediaSsrc.toNat < 256 ^ 4 := nack.mediaSsrc.toNat_lt
  have hfirst : readUint 4 ((⟨nack.toBytes, 0⟩ : SrsBuffer).advance 8) =
      .ok nack.mediaSsrc.toNat (((⟨nack.toBytes, 0⟩ : SrsBuffer).advance 8).advance 4) := by
    rw [readUint_run (by omega) hpos8, hdrop, take_left' (length_bytesBE _ _),
      ofBytesBE_bytesBE, Nat.mod_eq_of_lt hmedia]
  have hchunks := readPidBlps_run (chunksOf nack.lostSns) (pos_advance_le (n := 4) (by omega) hpos8)
    (by rw [rest_advance, hdrop, drop_left' (length_bytesBE _ _)])
  have hcount : (headerOf (rest ⟨nack.toBytes, 0⟩)).length - 2 =
      (chunksOf nack.lostSns).length := by
    rw [hrest, hheader]
    show 2 + (chunksOf nack.lostSns).length - 2 = _
    omega
  rw [SrsRtcpNack.decode, hbody, Prog.bind_ok hfirst, hcount, Prog.bind_ok hchunks,
    UInt32.ofNat_toNat]
  exact ⟨_, _, rfl⟩

/-! ## The round trip -/

/-- Numbers that are within a window, and whose chunks fit into a packet. -/
structure LostWindow where
  sns : List UInt16
  base : UInt16
  near : ∀ sn ∈ sns, InWindow base sn
  fits : 12 + 4 * (chunksOf (insertKeys seqCompareLess [] sns)).length ≤ rtcpPacketSize

/-- The packet with these numbers, added in this order. -/
def nackOf (ssrc mediaSsrc : UInt32) (sns : List UInt16) : SrsRtcpNack :=
  sns.foldl SrsRtcpNack.addLostSn ((SrsRtcpNack.new ssrc).setMediaSsrc mediaSsrc)

theorem nackOf_eq (ssrc mediaSsrc : UInt32) (sns : List UInt16) :
    nackOf ssrc mediaSsrc sns = ⟨ssrc, mediaSsrc, insertKeys seqCompareLess [] sns⟩ := by
  have hfold : ∀ keys : List UInt16, sns.foldl SrsRtcpNack.addLostSn ⟨ssrc, mediaSsrc, keys⟩ =
      ⟨ssrc, mediaSsrc, insertKeys seqCompareLess keys sns⟩ := by
    induction sns with
    | nil => exact fun keys => rfl
    | cons sn sns ih => exact fun keys => ih (insertKey seqCompareLess sn keys)
  exact hfold []

/-- Decoding what was encoded gives the media ssrc and the same set. -/
def RoundTrips (ssrc mediaSsrc : UInt32) (sns : List UInt16) : Prop :=
  ∃ nack b, SrsRtcpNack.decode ⟨(nackOf ssrc mediaSsrc sns).written, 0⟩ = .ok nack b ∧
    nack.mediaSsrc = mediaSsrc ∧ ∀ sn, sn ∈ nack.lostSns ↔ sn ∈ sns

/-- No number of the set comes before another one that is less as an integer. -/
def Unwrapped (sns : List UInt16) : Prop :=
  ∀ a ∈ sns, ∀ b ∈ sns, seqCompareLess a b = true → a.toNat < b.toNat

/-- The distance from the start, before the wrap and behind it. -/
theorem toNat_offset_cases (base sn : UInt16) :
    base.toNat ≤ sn.toNat ∧ (sn - base).toNat = sn.toNat - base.toNat ∨
      sn.toNat < base.toNat ∧ (sn - base).toNat = sn.toNat + 65536 - base.toNat := by
  have hsn : sn.toNat < 65536 := sn.toNat_lt
  have hbase : base.toNat < 65536 := base.toNat_lt
  have hoffset := toNat_offset base sn
  omega

/-- The numbers before the wrap come first. -/
theorem filter_before_wrap {base : UInt16} (keys : List UInt16)
    (hsorted : Ascending (fun sn => (sn - base).toNat) keys) :
    keys = keys.filter (fun sn => base.toNat ≤ sn.toNat) ++
      keys.filter fun sn => sn.toNat < base.toNat := by
  induction keys with
  | nil => rfl
  | cons x keys ih =>
    obtain ⟨hx, hrest⟩ := List.pairwise_cons.mp hsorted
    by_cases hbefore : base.toNat ≤ x.toNat
    · rw [List.filter_cons_of_pos (by simpa using hbefore),
        List.filter_cons_of_neg (by simpa using hbefore), List.cons_append, ← ih hrest]
    · -- behind the wrap there are only numbers behind the wrap
      have hbehind : ∀ y ∈ x :: keys, y.toNat < base.toNat := by
        intro y hy
        have hyoffset := toNat_offset_cases base y
        have hxoffset := toNat_offset_cases base x
        have hxbound : x.toNat < 65536 := x.toNat_lt
        have hybound : y.toNat < 65536 := y.toNat_lt
        cases List.mem_cons.mp hy with
        | inl heq =>
          rw [heq]
          omega
        | inr hmem =>
          have hlt : (x - base).toNat < (y - base).toNat := hx y hmem
          omega
      rw [List.filter_eq_nil_iff.mpr, List.nil_append, List.filter_eq_self.mpr]
      · intro y hy
        simpa using hbehind y hy
      · intro y hy
        simpa using hbehind y hy

theorem map_ofNat_toNat (keys : List UInt16) : (keys.map UInt16.toNat).map UInt16.ofNat = keys := by
  rw [List.map_map]
  conv_rhs => rw [← List.map_id keys]
  apply List.map_congr_left
  intro sn _
  exact UInt16.ofNat_toNat

namespace LostWindow

variable (lost : LostWindow)

/-- The set of the numbers. -/
def keys : List UInt16 := insertKeys seqCompareLess [] lost.sns

theorem keys_spec : Ascending (fun sn => (sn - lost.base).toNat) lost.keys ∧
    ∀ sn, sn ∈ lost.keys ↔ sn ∈ lost.sns := by
  obtain ⟨hsorted, hmem⟩ := insertKeys_spec [] (ranks_window lost.base) lost.sns lost.near
    (fun sn hsn => absurd hsn List.not_mem_nil) List.Pairwise.nil
  refine ⟨hsorted, ?_⟩
  intro sn
  rw [keys, hmem]
  simp

theorem keys_near : ∀ sn ∈ lost.keys, InWindow lost.base sn := fun sn hsn =>
  lost.near sn ((lost.keys_spec.2 sn).mp hsn)

/-- What comes back is the set of the numbers in the chunks. -/
theorem roundTrips_iff_chunks (ssrc mediaSsrc : UInt32) :
    RoundTrips ssrc mediaSsrc lost.sns ↔ ∀ sn,
      sn ∈ insertKeys seqCompareLess []
        (((chunksOf lost.keys).flatMap SrsPidBlp.lostSns).map UInt16.ofNat) ↔ sn ∈ lost.sns := by
  have hfits : 12 + 4 * (chunksOf (nackOf ssrc mediaSsrc lost.sns).lostSns).length ≤
      rtcpPacketSize := by
    rw [nackOf_eq]
    exact lost.fits
  obtain ⟨ssrc', b, hdecode⟩ := decode_toBytes _ hfits
  rw [RoundTrips, SrsRtcpNack.written_eq _ hfits, hdecode, nackOf_eq]
  constructor
  · rintro ⟨nack, b', hok, -, hmem⟩
    obtain ⟨rfl, -⟩ := Outcome.ok.inj hok
    exact hmem
  · intro hmem
    exact ⟨_, b, rfl, rfl, hmem⟩

/-- Numbers of the set in order, with those behind the wrap behind them: the former come back. -/
theorem insertKeys_chunks (first : UInt16) (sns wrapped : List UInt16)
    (hnear : ∀ sn ∈ first :: sns, InWindow lost.base sn)
    (hascending : Ascending (fun sn => (sn - lost.base).toNat) (first :: sns))
    (hsorted : (first :: sns).Pairwise fun a b => a.toNat < b.toNat)
    (hwrapped : ∀ sn ∈ wrapped, sn.toNat ≤ first.toNat) :
    insertKeys seqCompareLess [] (((chunksOf (first :: sns ++ wrapped)).flatMap
      SrsPidBlp.lostSns).map UInt16.ofNat) = first :: sns := by
  rw [chunksOf_split first sns wrapped hsorted hwrapped, map_ofNat_toNat]
  exact insertKeys_ascending (ranks_window lost.base) (first :: sns) hnear
    (fun sn hsn => absurd hsn List.not_mem_nil) hascending

/-- Without a wrap all numbers come back. -/
theorem roundTrips (h : Unwrapped lost.sns) (ssrc mediaSsrc : UInt32) :
    RoundTrips ssrc mediaSsrc lost.sns := by
  obtain ⟨hascending, hmem⟩ := lost.keys_spec
  have hnear := lost.keys_near
  have hsorted : lost.keys.Pairwise fun a b => a.toNat < b.toNat := by
    apply hascending.imp_of_mem
    intro a b ha hb hlt
    apply h a ((hmem a).mp ha) b ((hmem b).mp hb)
    exact ((ranks_window lost.base).less_iff (hnear a ha) (hnear b hb)).mpr hlt
  rw [roundTrips_iff_chunks]
  intro sn
  rw [← hmem]
  match hkeys : lost.keys with
  | [] => exact Iff.rfl
  | first :: sns =>
    rw [hkeys] at hnear hascending hsorted
    have hback := lost.insertKeys_chunks first sns [] hnear hascending hsorted
      fun sn hsn => absurd hsn List.not_mem_nil
    rw [List.append_nil] at hback
    rw [hback]

/-- A number behind the wrap does not come back. -/
theorem not_roundTrips (h : ¬ Unwrapped lost.sns) (ssrc mediaSsrc : UInt32) :
    ¬ RoundTrips ssrc mediaSsrc lost.sns := by
  obtain ⟨hascending, hmem⟩ := lost.keys_spec
  have hnear := lost.keys_near
  obtain ⟨a, ha, b, hb, hless, hle⟩ : ∃ a ∈ lost.sns, ∃ b ∈ lost.sns,
      seqCompareLess a b = true ∧ b.toNat ≤ a.toNat := by
    rw [Unwrapped] at h
    push Not at h
    exact h
  have haoffset := toNat_offset_cases lost.base a
  have hboffset := toNat_offset_cases lost.base b
  rw [(ranks_window lost.base).less_iff (lost.near a ha) (lost.near b hb)] at hless
  have hsplit := filter_before_wrap lost.keys hascending
  have hbefore : a ∈ lost.keys.filter fun sn => lost.base.toNat ≤ sn.toNat := by
    rw [List.mem_filter, hmem]
    exact ⟨ha, decide_eq_true (by omega)⟩
  rw [roundTrips_iff_chunks]
  intro hback
  match hkeys : lost.keys.filter fun sn => lost.base.toNat ≤ sn.toNat with
  | [] =>
    rw [hkeys] at hbefore
    exact List.not_mem_nil hbefore
  | first :: sns =>
    have hall : ∀ sn ∈ first :: sns, sn ∈ lost.keys ∧ lost.base.toNat ≤ sn.toNat := by
      intro sn hsn
      rw [← hkeys, List.mem_filter] at hsn
      exact ⟨hsn.1, of_decide_eq_true hsn.2⟩
    have hascending' : Ascending (fun sn => (sn - lost.base).toNat) (first :: sns) := by
      rw [← hkeys]
      exact hascending.filter _
    have hsorted : (first :: sns).Pairwise fun a b => a.toNat < b.toNat := by
      apply hascending'.imp_of_mem
      intro x y hx hy (hlt : (x - lost.base).toNat < (y - lost.base).toNat)
      have hxoffset := toNat_offset_cases lost.base x
      have hyoffset := toNat_offset_cases lost.base y
      have hxbase := (hall x hx).2
      have hybase := (hall y hy).2
      omega
    have hwrapped : ∀ sn ∈ lost.keys.filter (fun sn => sn.toNat < lost.base.toNat),
        sn.toNat ≤ first.toNat := by
      intro sn hsn
      have hbase := of_decide_eq_true (List.mem_filter.mp hsn).2
      have hfirst := (hall first mem_cons_self).2
      omega
    rw [hsplit, hkeys, lost.insertKeys_chunks first sns _ (fun sn hsn => hnear sn (hall sn hsn).1)
      hascending' hsorted hwrapped] at hback
    have hbbase := (hall b ((hback b).mpr hb)).2
    omega

end LostWindow

/-- A set of lost numbers round trips exactly when it does not go over the wrap. -/
theorem nack_returns_iff (lost : LostWindow) (ssrc mediaSsrc : UInt32) :
    RoundTrips ssrc mediaSsrc lost.sns ↔ Unwrapped lost.sns := by
  constructor
  · intro hback
    by_contra hwrap
    exact lost.not_roundTrips hwrap ssrc mediaSsrc hback
  · intro h
    exact lost.roundTrips h ssrc mediaSsrc

/-- The numbers 65535 and 0. -/
def lastAndFirst : LostWindow where
  sns := [65535, 0]
  base := 65535
  near := by
    intro sn hsn
    rcases List.mem_pair.mp hsn with rfl | rfl
    · show (65535 - 65535 : UInt16).toNat < 32768
      decide
    · show (0 - 65535 : UInt16).toNat < 32768
      decide
  fits := by decide +kernel

/-- The second one is skipped. -/
theorem number_behind_wrap_is_lost : ¬ RoundTrips 1 1 lastAndFirst.sns := by
  apply lastAndFirst.not_roundTrips
  intro h
  exact absurd (h 65535 (by decide) 0 (by decide) (by decide)) (by decide)


end SrsChatRoom.Kernel.Rtcp
