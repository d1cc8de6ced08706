import SrsChatRoom.Kernel.BufferRules
import SrsChatRoom.Kernel.NaluFormats

/-!
# Raw streams of H.264 (`SrsRawH264Stream`, `srs_protocol_raw_avc.cpp`)

A raw stream has a start code before each NALU: two or more zeros and a 1. `annexb_demux` gives one
NALU, the bytes up to the next start code. A NALU that does not end with a zero, and has no start
code and no three zeros in it, is told apart from the start code behind it, however many zeros that
has (`annexb_demux_inverts`).
-/

namespace SrsChatRoom.Protocol.RawAvc

open SrsChatRoom.Kernel SrsBuffer

/-- The loop for the end of the frame. -/
def skipFrame : ℕ → Dec Unit
  | 0 => fun _ => .hang
  | fuel + 1 => do
    let rest ← Prog.read SrsBuffer.rest
    if rest = [] then return ()
    else if (startsWithAnnexb rest).isSome then return ()
    else do
      skip 1
      skipFrame fuel

/-- `annexb_demux(stream, pframe, pnb_frame)`: the frame, where `none` stands for `NULL`. -/
def annexbDemux : Dec (Option (List UInt8)) := do
  let rest ← Prog.read SrsBuffer.rest
  if rest = [] then return none
  else
    match startsWithAnnexb rest with
    | none => Prog.throw (srsErrorNew .h264ApiNoPrefixed "annexb start code")
    | some nbStartCode => do
      let start ← Prog.read fun stream => stream.pos + nbStartCode
      skip nbStartCode
      skipFrame (rest.length + 1)
      Prog.read fun stream => some ((stream.bytes.drop start).take (stream.pos - start))

/-- Demux until the stream is empty. -/
def demuxAll : ℕ → Dec (List (Option (List UInt8)))
  | 0 => fun _ => .hang
  | fuel + 1 => do
    let rest ← Prog.read SrsBuffer.rest
    if rest = [] then return []
    else do
      let frame ← annexbDemux
      let frames ← demuxAll fuel
      return frame :: frames

/-- A NALU that cannot be taken for a start code, nor its end for the beginning of one. -/
structure PlainNalu where
  bytes : List UInt8
  noZeros : ¬[0, 0, 0] <:+: bytes
  noCode : ¬[0, 0, 1] <:+: bytes
  noTrailing : bytes.getLast? ≠ some 0

/-- The NALUs with a start code before each, given by how many zeros it has more than two. -/
def write (units : List (ℕ × PlainNalu)) : List UInt8 :=
  units.flatMap fun u => startCode u.1 ++ u.2.bytes

/-- A call either fails, or it takes some bytes. -/
def FailsOrAdvances (stream : SrsBuffer) : Prop :=
  match annexbDemux stream with
  | .ok _ stream' => stream'.bytes = stream.bytes ∧ stream.pos < stream'.pos ∧
      stream'.pos ≤ stream'.bytes.length
  | .err _ _ => True
  | .fault => False
  | .hang => False

/-! ## One frame -/

/-- The loop stops at the next start code. -/
theorem skipFrame_run (fuel : ℕ) (b : SrsBuffer) (hpos : b.pos ≤ b.bytes.length)
    (hfuel : b.rest.length < fuel) :
    skipFrame fuel b = .ok () (b.advance (untilStartCode b.rest).length) := by
  induction fuel generalizing b with
  | zero => omega
  | succ fuel ih =>
    rw [skipFrame, Prog.bind_ok (Prog.read_apply _ b)]
    cases hrest : b.rest with
    | nil =>
      rw [if_pos rfl]
      rfl
    | cons x l =>
      rw [if_neg (List.cons_ne_nil x l), untilStartCode]
      by_cases hcode : (startsWithAnnexb (x :: l)).isSome = true
      · rw [if_pos hcode, if_pos hcode]
        rfl
      · have hone : 1 ≤ b.rest.length := by
          rw [hrest, List.length_cons]
          omega
        have hskip : skip 1 b = .ok () (b.advance 1) := skip_run hone hpos
        have htail : (b.advance 1).rest = l := by
          rw [rest_advance, hrest]
          rfl
        have hlength : (b.advance 1).rest.length < fuel := by
          rw [hrest, List.length_cons] at hfuel
          rw [htail]
          omega
        rw [if_neg hcode, if_neg hcode, Prog.bind_ok hskip,
          ih _ (pos_advance_le hone hpos) hlength, advance_advance, htail, List.length_cons,
          Nat.add_comm]

theorem length_startCode (zeros : ℕ) : (startCode zeros).length = zeros + 3 := by
  unfold startCode
  rw [List.length_append, List.length_replicate]
  rfl

/-- What a call does behind a start code: it gives the bytes up to the next one. -/
theorem annexbDemux_code {zeros : ℕ} {p : List UInt8} {b : SrsBuffer}
    (hpos : b.pos ≤ b.bytes.length) (hrest : b.rest = startCode zeros ++ p) :
    annexbDemux b = .ok (some (untilStartCode p))
      (b.advance (zeros + 3 + (untilStartCode p).length)) := by
  have hcode : b.rest.length = zeros + 3 + p.length := by
    rw [hrest, List.length_append, length_startCode]
  have hne : ¬b.rest = [] := by
    intro hnil
    rw [hnil, List.length_nil] at hcode
    omega
  have hskip : skip ((zeros + 3 : ℕ) : ℤ) b = .ok () (b.advance (zeros + 3)) :=
    skip_run (by omega) hpos
  have hp : (b.advance (zeros + 3)).rest = p := by
    rw [rest_advance, hrest, ← length_startCode zeros, List.drop_left]
  have hloop := skipFrame_run (b.rest.length + 1) (b.advance (zeros + 3))
    (pos_advance_le (by omega) hpos) (by rw [hp]; omega)
  rw [hp, advance_advance] at hloop
  have hprefix : p.take (untilStartCode p).length = untilStartCode p := by
    obtain ⟨rest, hsplit, -, -⟩ := untilStartCode_spec p
    have htake : (untilStartCode p ++ rest).take (untilStartCode p).length = untilStartCode p :=
      List.take_left
    rwa [← hsplit] at htake
  have hframe : ((b.bytes.drop (b.pos + (zeros + 3))).take
      (b.pos + (zeros + 3 + (untilStartCode p).length) - (b.pos + (zeros + 3)))) =
      untilStartCode p := by
    have hbytes : b.bytes.drop (b.pos + (zeros + 3)) = p := hp
    have hsize : b.pos + (zeros + 3 + (untilStartCode p).length) - (b.pos + (zeros + 3)) =
        (untilStartCode p).length := by omega
    rw [hbytes, hsize, hprefix]
  rw [annexbDemux, Prog.bind_ok (Prog.read_apply _ b), if_neg hne]
  have hstart : startsWithAnnexb b.rest = some (zeros + 3) := by
    rw [hrest, startsWithAnnexb_startCode]
  rw [hstart]
  dsimp only
  rw [Prog.bind_ok (Prog.read_apply _ b), Prog.bind_ok hskip, Prog.bind_ok hloop, Prog.read_apply,
    bytes_advance, pos_advance, hframe]

theorem fails_or_advances (b : SrsBuffer) (hpos : b.pos < b.bytes.length) : FailsOrAdvances b := by
  unfold FailsOrAdvances
  have hne : ¬b.rest = [] := by
    intro hnil
    have hlength := b.length_rest
    rw [hnil, List.length_nil] at hlength
    omega
  cases hstart : startsWithAnnexb b.rest with
  | none =>
    have hrun : annexbDemux b = .err (srsErrorNew .h264ApiNoPrefixed "annexb start code") b := by
      rw [annexbDemux, Prog.bind_ok (Prog.read_apply _ b), if_neg hne, hstart]
      rfl
    rw [hrun]
    trivial
  | some n =>
    obtain ⟨zeros, p, hn, hrest⟩ := exists_of_startsWithAnnexb hstart
    rw [annexbDemux_code hpos.le hrest]
    obtain ⟨rest, hsplit, -, -⟩ := untilStartCode_spec p
    have hlength := b.length_rest
    rw [hrest, hsplit, List.length_append, List.length_append, length_startCode] at hlength
    dsimp only
    rw [bytes_advance, pos_advance]
    refine ⟨rfl, ?_, ?_⟩
    · omega
    · omega

/-! ## All frames -/

/-- No start code begins in bytes that have none and do not end with a zero, whatever follows. -/
theorem clean_of_noCode {bytes : List UInt8} (hcode : ¬[0, 0, 1] <:+: bytes)
    (htrailing : bytes.getLast? ≠ some 0) (rest : List UInt8) : Clean bytes rest := by
  intro i hi
  by_contra hsome
  obtain ⟨n, hn⟩ := Option.ne_none_iff_exists'.mp hsome
  obtain ⟨zeros, r, -, hr⟩ := exists_of_startsWithAnnexb hn
  rw [List.drop_append_of_le_length hi.le] at hr
  have hsuffix : bytes.drop i <:+ bytes := List.drop_suffix i bytes
  have hlast : (bytes.drop i).getLast? = bytes.getLast? := by
    rw [List.getLast?_drop, if_neg (by omega)]
  rw [← hlast] at htrailing
  have hsplit : startCode zeros = List.replicate (zeros + 2) 0 ++ [1] := by
    rw [startCode, List.replicate_add, List.append_assoc]
    rfl
  rw [hsplit, List.append_assoc] at hr
  cases List.append_eq_append_iff.mp hr with
  | inl hshort =>
    -- the rest of the bytes is among the zeros
    obtain ⟨zs, hzeros, -⟩ := hshort
    have hpos : bytes.drop i ≠ [] := by
      intro hnil
      have hlength := congrArg List.length hnil
      rw [List.length_drop, List.length_nil] at hlength
      omega
    have hmem : (bytes.drop i).getLast hpos ∈ List.replicate (zeros + 2) (0 : UInt8) := by
      rw [hzeros]
      exact List.mem_append_left _ (List.getLast_mem hpos)
    apply htrailing
    rw [List.getLast?_eq_some_getLast hpos, (List.mem_replicate.mp hmem).2]
  | inr hlong =>
    -- the start code ends in the bytes
    obtain ⟨t, ht, hone⟩ := hlong
    cases t with
    | nil =>
      apply htrailing
      rw [ht, List.append_nil, List.replicate_succ', List.getLast?_concat]
    | cons c t =>
      have hlists : 1 :: r = c :: (t ++ rest) := hone
      rw [← (List.cons.inj hlists).1, List.replicate_add, List.append_assoc] at ht
      apply hcode
      exact List.IsInfix.trans ⟨List.replicate zeros 0, t, by rw [ht]; simp⟩ hsuffix.isInfix

/-- NALUs with a start code before each. -/
def annexb (units : List (ℕ × List UInt8)) : List UInt8 :=
  units.flatMap fun u => startCode u.1 ++ u.2

theorem annexb_cons (u : ℕ × List UInt8) (units : List (ℕ × List UInt8)) :
    annexb (u :: units) = startCode u.1 ++ (u.2 ++ annexb units) := List.append_assoc _ _ _

theorem untilStartCode_unit {bytes : List UInt8} (units : List (ℕ × List UInt8))
    (hclean : Clean bytes (annexb units)) : untilStartCode (bytes ++ annexb units) = bytes := by
  apply untilStartCode_eq hclean
  cases units with
  | nil => exact .inl rfl
  | cons u units =>
    apply Or.inr
    rw [annexb_cons, startsWithAnnexb_startCode]
    rfl

theorem demuxAll_annexb (fuel : ℕ) (units : List (ℕ × List UInt8))
    (hclean : ∀ u ∈ units, ∀ rest, Clean u.2 rest) (b : SrsBuffer) (hpos : b.pos ≤ b.bytes.length)
    (hrest : b.rest = annexb units) (hfuel : units.length < fuel) :
    demuxAll fuel b = .ok (units.map fun u => some u.2) (b.advance (annexb units).length) := by
  induction units generalizing fuel b with
  | nil =>
    cases fuel with
    | zero => omega
    | succ fuel =>
      have hnil : b.rest = [] := hrest
      rw [demuxAll, Prog.bind_ok (Prog.read_apply _ b), if_pos hnil]
      rfl
  | cons u units ih =>
    cases fuel with
    | zero => omega
    | succ fuel =>
      have hlength : (annexb (u :: units)).length =
          u.1 + 3 + u.2.length + (annexb units).length := by
        rw [annexb_cons, List.length_append, List.length_append, length_startCode, ← Nat.add_assoc]
      have hne : ¬b.rest = [] := by
        intro hnil
        rw [← hrest, hnil, List.length_nil] at hlength
        omega
      have hcode := hrest
      rw [annexb_cons] at hcode
      have hframe := annexbDemux_code hpos hcode
      rw [untilStartCode_unit units (hclean u List.mem_cons_self _)] at hframe
      have hnext : (b.advance (u.1 + 3 + u.2.length)).rest = annexb units := by
        have hfront : (startCode u.1 ++ u.2).length = u.1 + 3 + u.2.length := by
          rw [List.length_append, length_startCode]
        rw [rest_advance, hcode, ← List.append_assoc, ← hfront, List.drop_left]
      have hinside := pos_advance_le (b := b) (n := u.1 + 3 + u.2.length)
        (by rw [hrest, hlength]; omega) hpos
      have hmore := ih fuel (fun u' hu' => hclean u' (List.mem_cons_of_mem u hu')) _ hinside hnext
      rw [List.length_cons] at hfuel
      rw [demuxAll, Prog.bind_ok (Prog.read_apply _ b), if_neg hne, Prog.bind_ok hframe,
        Prog.bind_ok (hmore (by omega)), advance_advance, ← hlength]
      rfl

theorem demuxAll_write (fuel : ℕ) (units : List (ℕ × PlainNalu)) (b : SrsBuffer)
    (hpos : b.pos ≤ b.bytes.length) (hrest : b.rest = write units)
    (hfuel : units.length < fuel) :
    demuxAll fuel b =
      .ok (units.map fun u => some u.2.bytes) (b.advance (write units).length) := by
  have hwrite : write units = annexb (units.map fun u => (u.1, u.2.bytes)) := by
    rw [annexb, List.flatMap_map]
    rfl
  have hclean : ∀ u ∈ units.map (fun u => (u.1, u.2.bytes)), ∀ rest, Clean u.2 rest := by
    intro u hu rest
    obtain ⟨nalu, -, rfl⟩ := List.mem_map.mp hu
    exact clean_of_noCode nalu.2.noCode nalu.2.noTrailing rest
  rw [hwrite] at hrest ⊢
  rw [demuxAll_annexb fuel _ hclean b hpos hrest (by rwa [List.length_map]), List.map_map]
  rfl

/-- A muxed stream gives the NALUs back, the empty ones too; and on any bytes that are left a call
either fails or takes some of them. -/
theorem annexb_demux_inverts (units : List (ℕ × PlainNalu)) :
    demuxAll (units.length + 1) ⟨write units, 0⟩ =
        .ok (units.map fun u => some u.2.bytes) ⟨write units, (write units).length⟩ ∧
      ∀ (before : List UInt8) (first : UInt8) (rest : List UInt8),
        FailsOrAdvances ⟨before ++ first :: rest, before.length⟩ := by
  apply And.intro
  · rw [demuxAll_write (units.length + 1) units ⟨write units, 0⟩ (Nat.zero_le _) rfl
      (Nat.lt_succ_self _)]
    unfold advance
    rw [Nat.zero_add]
  · intro before first rest
    apply fails_or_advances
    dsimp only
    rw [List.length_append, List.length_cons]
    omega

end SrsChatRoom.Protocol.RawAvc
