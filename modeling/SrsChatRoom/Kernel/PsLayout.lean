import SrsChatRoom.Kernel.PsContext
import SrsChatRoom.Kernel.TsLayout

/-!
# The layout of a pack

Where the headers of a pack lie in the buffer, said without the decoder, and what the decoder does
with them. It looks at the length of the system header before it takes the header, but not before
it reads the six bytes at its front (`SystemOverruns`).
-/

namespace SrsChatRoom.Kernel.Ps

open SrsChatRoom.Prog (refuse optional)
open SrsChatRoom.Kernel.Cursor

variable {bytes : List UInt8} {p : ℕ} {F : Prop}

/-! ## The pack header -/

/-- Behind the pack header at `p`. -/
def packHeaderEnd (bytes : List UInt8) (p : ℕ) : ℕ := p + 14 + uintAt bytes (p + 13) 1 % 8

theorem decodePack_ends (hcode : uintAt bytes p 4 = packStartCode) :
    EndsAt decodePack bytes p (fun _ q => q = packHeaderEnd bytes p) F := by
  refine endsAt_bind_requires fun _ hfourteen => ?_
  refine endsAt_bind_readUint (by omega) ?_
  apply EndsAt.bind
  rw [srsAssert, if_pos hcode]
  apply endsAt_pure
  refine endsAt_bind_readUint (by omega) ?_
  refine endsAt_bind_readUint (by omega) ?_
  refine endsAt_bind_readUint (by omega) ?_
  refine endsAt_bind_readUint (by omega) ?_
  show EndsAt _ bytes (p + 14) _ F
  refine endsAt_bind_requires fun _ hfits => ?_
  apply endsAt_skip
  · intro q hq _
    show q = p + 14 + uintAt bytes (p + 13) 1 % 8
    have hq : (q : ℤ) = (p + 14 : ℕ) + (uintAt bytes (p + 13) 1 % 8 : ℕ) := hq
    omega
  · intro hout
    omega

/-! ## The system header -/

/-- The streams of a system header have three bytes each, as long as the first of them has its
bit `0x80`. -/
def StreamsComplete : List UInt8 → Prop
  | r2 :: _ :: _ :: rest => r2.toNat < 128 ∨ StreamsComplete rest
  | r2 :: _ => r2.toNat < 128
  | [] => True

/-- The number of bytes in the system header at `p`, behind its length. -/
def systemLength (bytes : List UInt8) (p : ℕ) : ℕ := uintAt bytes (p + 4) 2

/-- Behind the system header at `p`. -/
def systemEnd (bytes : List UInt8) (p : ℕ) : ℕ := p + 6 + systemLength bytes p

/-- The system header at `p` passes the checks of the decoder. -/
structure SystemRead (bytes : List UInt8) (p : ℕ) : Prop where
  required : p + 12 ≤ bytes.length
  fits : systemEnd bytes p ≤ bytes.length
  long : 6 ≤ systemLength bytes p
  streams : StreamsComplete ((bytes.drop (p + 12)).take (systemLength bytes p - 6))

/-- The system header at `p` is shorter than the fields that are read of it. -/
structure SystemOverruns (bytes : List UInt8) (p : ℕ) : Prop where
  code : uintAt bytes p 4 = systemStartCode
  required : p + 12 ≤ bytes.length
  short : systemLength bytes p < 6

theorem hasSystemStream_at (data : List UInt8) (q : ℕ) : hasSystemStream ⟨data, q⟩ =
    match data.drop q with
    | r2 :: _ => decide (128 ≤ r2.toNat)
    | [] => false := by
  have hget : data[q]? = (data.drop q)[0]? := by
    rw [List.getElem?_drop]
    rfl
  unfold hasSystemStream
  dsimp only
  rw [hget]
  cases data.drop q <;> rfl

/-- Where the loop ends. -/
theorem streamsComplete_of_end {rest : List UInt8}
    (h : (match rest with
      | r2 :: _ => decide (128 ≤ r2.toNat)
      | [] => false) = false) : StreamsComplete rest := by
  match rest with
  | [] => trivial
  | [r2] => exact not_le.mp (of_decide_eq_false h)
  | [r2, _] => exact not_le.mp (of_decide_eq_false h)
  | r2 :: _ :: _ :: _ => exact Or.inl (not_le.mp (of_decide_eq_false h))

variable {data : List UInt8}

theorem streamsComplete_cons {q : ℕ} (hle : q + 3 ≤ data.length)
    (h : StreamsComplete (data.drop (q + 3))) : StreamsComplete (data.drop q) := by
  rw [List.drop_eq_getElem_cons (by omega), List.drop_eq_getElem_cons (by omega),
    List.drop_eq_getElem_cons (by omega)]
  exact Or.inr h

/-- The streams in the buffer over the header. Each takes three bytes. -/
theorem systemStreams_ends (fuel q : ℕ) (hfuel : data.length - q < fuel) :
    EndsAt (systemStreams fuel) data q (fun _ _ => StreamsComplete (data.drop q)) F := by
  induction fuel generalizing q with
  | zero => omega
  | succ fuel ih =>
    apply EndsAt.bind
    apply endsAt_read
    apply EndsAt.ite
    · intro _
      refine endsAt_bind_requires fun _ hthree => ?_
      refine endsAt_bind_readUint (by omega) ?_
      apply EndsAt.bind
      refine endsAt_readUint (fun hle => ?_) fun hlt => by omega
      exact (ih (q + 3) (by omega)).mono (fun _ _ _ h => streamsComplete_cons hle h) fun hf => hf
    · intro hend
      apply endsAt_pure
      apply streamsComplete_of_end
      rw [← hasSystemStream_at]
      exact Bool.eq_false_iff.mpr hend

theorem systemFields_ends (hf : data.length < 6 → F) :
    EndsAt systemFields data 0
      (fun _ _ => 6 ≤ data.length ∧ StreamsComplete (data.drop 6)) F := by
  apply EndsAt.bind
  refine endsAt_readUint (fun _ => ?_) fun hlt => hf (by omega)
  apply EndsAt.bind
  refine endsAt_readUint (fun _ => ?_) fun hlt => hf (by omega)
  apply EndsAt.bind
  refine endsAt_readUint (fun _ => ?_) fun hlt => hf (by omega)
  apply EndsAt.bind
  refine endsAt_readUint (fun hsix => ?_) fun hlt => hf (by omega)
  apply EndsAt.bind
  apply endsAt_read
  exact (systemStreams_ends _ 6 (by dsimp only; omega)).mono (fun _ _ _ h => ⟨hsix, h⟩) fun hf => hf

/-- The system header, of which the start code has been seen. -/
theorem decodeSystem_ends (hcode : uintAt bytes p 4 = systemStartCode)
    (hfour : p + 4 ≤ bytes.length) :
    EndsAt decodeSystem bytes p (fun _ q => q = systemEnd bytes p ∧ SystemRead bytes p)
      (SystemOverruns bytes p) := by
  refine endsAt_bind_readUint (by omega) ?_
  apply EndsAt.bind
  rw [srsAssert, if_pos hcode]
  apply endsAt_pure
  refine endsAt_bind_requires fun _ height => ?_
  have htwelve : p + 12 ≤ bytes.length := by omega
  refine endsAt_bind_readUint (by omega) ?_
  show EndsAt _ bytes (p + 6) _ _
  refine endsAt_bind_requires fun _ hfits => ?_
  have hfits : systemEnd bytes p ≤ bytes.length := by
    have hfits : ((p + 6 : ℕ) : ℤ) + (systemLength bytes p : ℕ) ≤ bytes.length := hfits
    unfold systemEnd
    omega
  apply EndsAt.bind
  apply endsAt_ahead
  have hlength : ((bytes.drop (p + 6)).take (systemLength bytes p)).length =
      systemLength bytes p := by
    rw [List.length_take, List.length_drop]
    unfold systemEnd at hfits
    omega
  apply EndsAt.bind
  apply endsAt_skip
  · intro q hq _
    have hq : q = systemEnd bytes p := by
      have hq : (q : ℤ) = (p + 6 : ℕ) + (systemLength bytes p : ℕ) := hq
      unfold systemEnd
      omega
    apply endsAt_onBuffer
    refine (systemFields_ends fun hlt => ?_).mono ?_ fun hf => hf
    · have hlt : ((bytes.drop (p + 6)).take (systemLength bytes p)).length < 6 := hlt
      exact ⟨hcode, htwelve, by omega⟩
    · intro _ _ _ hfields
      have hlong : 6 ≤ ((bytes.drop (p + 6)).take (systemLength bytes p)).length := hfields.1
      have hstreams : StreamsComplete
          (((bytes.drop (p + 6)).take (systemLength bytes p)).drop 6) := hfields.2
      rw [List.drop_take, List.drop_drop] at hstreams
      exact ⟨hq, htwelve, hfits, by omega, hstreams⟩
  · intro hout
    have hout : ((p + 6 : ℕ) : ℤ) + (systemLength bytes p : ℕ) < 0 ∨
      (bytes.length : ℤ) < (p + 6 : ℕ) + (systemLength bytes p : ℕ) := hout
    unfold systemEnd at hfits
    omega

/-! ## Both headers -/

/-- Behind the pack header at `p`, if there is one. -/
def packsEnd (bytes : List UInt8) (p : ℕ) : ℕ :=
  if uintAt bytes p 4 = packStartCode then packHeaderEnd bytes p else p

/-- Behind the headers at `p`. -/
def headersEnd (bytes : List UInt8) (p : ℕ) : ℕ :=
  if uintAt bytes (packsEnd bytes p) 4 = systemStartCode then systemEnd bytes (packsEnd bytes p)
  else packsEnd bytes p

/-- The headers at `p` pass the checks of the decoder. -/
structure HeadersRead (bytes : List UInt8) (p : ℕ) : Prop where
  required : p + 4 ≤ bytes.length
  system : uintAt bytes (packsEnd bytes p) 4 = systemStartCode →
    SystemRead bytes (packsEnd bytes p)

/-- What a header that may be there does. -/
theorem withStartCode_ends {code : ℕ} {x : PsIo Unit} {Q : Unit → ℕ → Prop}
    (hx : uintAt bytes p 4 = code → EndsAt x bytes p Q F)
    (hq : uintAt bytes p 4 ≠ code → Q () p) : EndsAt (withStartCode code x) bytes p Q F := by
  apply EndsAt.bind
  apply endsAt_read
  apply endsAt_optional
  · intro hfound
    exact hx (of_decide_eq_true hfound)
  · intro hfound
    exact hq (of_decide_eq_false hfound)

theorem uintAt_end (bytes : List UInt8) (n : ℕ) : uintAt bytes bytes.length n = 0 := by
  rw [uintAt, List.drop_length, List.take_nil]
  rfl

theorem decodeHeaders_ends :
    EndsAt decodeHeaders bytes p (fun _ q => q = headersEnd bytes p ∧ HeadersRead bytes p)
      (SystemOverruns bytes (packsEnd bytes p)) := by
  refine endsAt_bind_requires fun _ hfour => ?_
  have hfour : p + 4 ≤ bytes.length := by omega
  refine EndsAt.seq (r := packsEnd bytes p) (withStartCode_ends (fun hcode => ?_) fun hcode => ?_)
    fun _ hpack => ?_
  · rw [packsEnd, if_pos hcode]
    exact (decodePack_ends hcode).wrap _
  · rw [packsEnd, if_neg hcode]
  apply EndsAt.bind
  apply endsAt_read
  apply EndsAt.ite
  · intro hempty
    -- nothing is left for a system header
    have hend : packsEnd bytes p = bytes.length := le_antisymm hpack (of_decide_eq_true hempty)
    have hnone : ¬ uintAt bytes (packsEnd bytes p) 4 = systemStartCode := by
      rw [hend, uintAt_end]
      decide
    apply endsAt_pure
    exact ⟨(if_neg hnone).symm, hfour, fun h => absurd h hnone⟩
  · intro _
    refine endsAt_bind_requires fun _ hmore => ?_
    apply withStartCode_ends
    · intro hcode
      refine ((decodeSystem_ends hcode (by omega)).wrap _).mono ?_ fun hf => hf
      intro _ q _ hread
      exact ⟨hread.1.trans (if_pos hcode).symm, hfour, fun _ => hread.2⟩
    · intro hcode
      exact ⟨(if_neg hcode).symm, hfour, fun h => absurd h hcode⟩

/-! ## The program stream map -/

theorem elementaryStreams_ends (fuel q : ℕ) (psm : SrsPsPsmPacket)
    (hfuel : data.length - q < fuel) :
    EndsAt (elementaryStreams fuel psm) data q (fun _ _ => True) F := by
  induction fuel generalizing q psm with
  | zero => omega
  | succ fuel ih =>
    apply EndsAt.bind
    apply endsAt_read
    apply EndsAt.ite
    · intro _
      exact endsAt_pure trivial
    · intro _
      refine endsAt_bind_requires fun _ hfour => ?_
      refine endsAt_bind_readUint (by omega) ?_
      refine endsAt_bind_readUint (by omega) ?_
      refine endsAt_bind_readUint (by omega) ?_
      refine endsAt_bind_requires fun hzero hfits => ?_
      apply EndsAt.bind
      apply endsAt_skip
      · intro r hr _
        exact ih r _ (by omega)
      · intro hout
        omega

/-- The map is read within its checks. -/
theorem psm_ends : EndsAt SrsPsPsmPacket.decode bytes p (fun _ _ => True) F := by
  refine endsAt_bind_requires fun _ hfour => ?_
  refine endsAt_bind_readUint (by omega) ?_
  refine endsAt_bind_refuse fun _ => ?_
  refine endsAt_bind_readUint (by omega) ?_
  refine endsAt_bind_refuse fun _ => ?_
  refine endsAt_bind_readUint (by omega) ?_
  refine endsAt_bind_requires fun hzero hinfo => ?_
  apply EndsAt.bind
  refine endsAt_skip (fun q hq _ => ?_) fun hout => by omega
  refine endsAt_bind_requires fun _ htwo => ?_
  refine endsAt_bind_readUint (by omega) ?_
  refine endsAt_bind_requires fun hzero hmap => ?_
  apply EndsAt.bind
  apply endsAt_ahead
  apply EndsAt.bind
  refine endsAt_skip (fun r hr _ => ?_) fun hout => by omega
  apply EndsAt.bind
  apply endsAt_onBuffer
  refine (elementaryStreams_ends _ 0 _ ?_).mono ?_ fun hf => hf
  · rw [List.length_take]
    omega
  intro psm _ _ _
  refine endsAt_bind_requires fun _ hcrc => ?_
  refine endsAt_bind_readUint (by omega) ?_
  exact endsAt_pure trivial

end SrsChatRoom.Kernel.Ps
