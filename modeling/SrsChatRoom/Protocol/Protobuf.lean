import SrsChatRoom.Kernel.BufferRules
import SrsChatRoom.Lib.Varint

/-!
# Protobuf (`srs_protocol_protobuf.cpp`)

A caller asks for the size of a value and gives the encoder a buffer for it. The size of a varint
comes from the bits of the number, and the writer is a chain of ten cases. `sizeofVarint_eq` says
that both are those of the base-128 number. The size of a string or an object is computed as a
`uint64_t` and returned as an `int`, which it does not fit from 2^31 bytes on.
-/

namespace SrsChatRoom.Protocol.Protobuf

open SrsChatRoom.Kernel SrsChatRoom.Kernel.SrsBuffer

/-! ## Code -/

/-- `bits_len8tab` -/
def bitsLen8tab : List ℕ :=
  [0x00, 0x01] ++ List.replicate 2 0x02 ++ List.replicate 4 0x03 ++ List.replicate 8 0x04 ++
    List.replicate 16 0x05 ++ List.replicate 32 0x06 ++ List.replicate 64 0x07 ++
    List.replicate 128 0x08

/-- `if (x >= (uint64_t)1<<k) { x >>= k; n += k; }` -/
def narrow (k : ℕ) (s : ℕ × ℕ) : ℕ × ℕ := if s.1 ≥ 1 <<< k then (s.1 >>> k, s.2 + k) else s

/-- `SrsProtobufVarints::bits_len64` -/
def bitsLen64 (x : ℕ) : ℕ :=
  let s := narrow 8 (narrow 16 (narrow 32 (x, 0)))
  s.2 + bitsLen8tab.getD s.1 0

/-- `SrsProtobufVarints::sizeof_varint` -/
def sizeofVarint (v : ℕ) : ℕ := (9 * bitsLen64 v + 64) / 64

/-- `b->write_1bytes((uint8_t)(((v>>k)&0x7f)|0x80))` -/
def writeMore (v k : ℕ) : Dec Unit := writeUint 1 (v >>> k &&& 0x7f ||| 0x80)

/-- The writes of `SrsProtobufVarints::encode`. -/
def writeVarint (v : ℕ) : Dec Unit :=
  if v < 1 <<< 7 then writeUint 1 v
  else if v < 1 <<< 14 then do
    writeMore v 0
    writeUint 1 (v >>> 7)
  else if v < 1 <<< 21 then do
    writeMore v 0
    writeMore v 7
    writeUint 1 (v >>> 14)
  else if v < 1 <<< 28 then do
    writeMore v 0
    writeMore v 7
    writeMore v 14
    writeUint 1 (v >>> 21)
  else if v < 1 <<< 35 then do
    writeMore v 0
    writeMore v 7
    writeMore v 14
    writeMore v 21
    writeUint 1 (v >>> 28)
  else if v < 1 <<< 42 then do
    writeMore v 0
    writeMore v 7
    writeMore v 14
    writeMore v 21
    writeMore v 28
    writeUint 1 (v >>> 35)
  else if v < 1 <<< 49 then do
    writeMore v 0
    writeMore v 7
    writeMore v 14
    writeMore v 21
    writeMore v 28
    writeMore v 35
    writeUint 1 (v >>> 42)
  else if v < 1 <<< 56 then do
    writeMore v 0
    writeMore v 7
    writeMore v 14
    writeMore v 21
    writeMore v 28
    writeMore v 35
    writeMore v 42
    writeUint 1 (v >>> 49)
  else if v < 1 <<< 63 then do
    writeMore v 0
    writeMore v 7
    writeMore v 14
    writeMore v 21
    writeMore v 28
    writeMore v 35
    writeMore v 42
    writeMore v 49
    writeUint 1 (v >>> 56)
  else do
    writeMore v 0
    writeMore v 7
    writeMore v 14
    writeMore v 21
    writeMore v 28
    writeMore v 35
    writeMore v 42
    writeMore v 49
    writeMore v 56
    writeUint 1 1

/-- `SrsProtobufVarints::encode` -/
def encodeVarint (v : ℕ) : Dec Unit := do
  checkRequire (sizeofVarint v) .pbNoSpace "require %d only %d bytes"
  writeVarint v

/-- A `uint64_t` as an `int`. -/
def toInt (n : ℕ) : ℤ := Int.bmod n (2 ^ 32)

/-- `SrsProtobufString::sizeof_string` -/
def sizeofString (v : List UInt8) : ℤ := toInt (sizeofVarint v.length + v.length)

/-- `write_string(value)`. The assertion compares the length as an `int`; the copy is of all bytes. -/
def writeString (value : List UInt8) : Dec Unit := fun b =>
  if value = [] then .ok () b
  else if b.require (toInt value.length) then
    if b.pos + value.length ≤ b.bytes.length then .ok () (b.put value) else .fault
  else .fault

/-- `SrsProtobufString::encode` -/
def encodeString (v : List UInt8) : Dec Unit := do
  Prog.wrap (srsErrorWrap "string size %d") (encodeVarint v.length)
  if v = [] then return ()
  else do
    checkRequire (toInt v.length) .pbNoSpace "require %d only %d byte"
    writeString v

/-- `ISrsEncoder`, of which `encode` writes `nb_bytes()` bytes. -/
structure ISrsEncoder where
  nbBytes : UInt64
  encode : Dec Unit
  content : List UInt8
  writes : Kernel.Writes encode content
  length : content.length = nbBytes.toNat

/-- `SrsProtobufObject::sizeof_object` -/
def sizeofObject (obj : ISrsEncoder) : ℤ :=
  toInt (sizeofVarint obj.nbBytes.toNat + obj.nbBytes.toNat)

/-- `SrsProtobufObject::encode` -/
def encodeObject (obj : ISrsEncoder) : Dec Unit := do
  Prog.wrap (srsErrorWrap "encode size=%d") (encodeVarint obj.nbBytes.toNat)
  Prog.wrap (srsErrorWrap "encode group") obj.encode

/-! ## Sizes -/

/-- `n` is the number of bits of `x`. -/
def HasBits (x n : ℕ) : Prop := x < 2 ^ n ∧ (n = 0 ∨ 2 ^ (n - 1) ≤ x)

theorem hasBits_tab : ∀ x < 256, HasBits x (bitsLen8tab.getD x 0) := by
  unfold HasBits
  decide +kernel

/-- The bits that are shifted out are counted. -/
theorem hasBits_shiftRight {x k n : ℕ} (hx : 2 ^ k ≤ x) (h : HasBits (x >>> k) n) :
    HasBits x (k + n) := by
  rw [Nat.shiftRight_eq_div_pow] at h
  have hpos : 0 < 2 ^ k := Nat.two_pow_pos k
  refine ⟨?_, .inr ?_⟩
  · rw [pow_add, Nat.mul_comm]
    exact (Nat.div_lt_iff_lt_mul hpos).mp h.1
  · rcases h.2 with hzero | hle
    · rw [hzero, Nat.add_zero]
      exact (Nat.pow_le_pow_right (by omega) (Nat.sub_le k 1)).trans hx
    · cases n with
      | zero => exact (Nat.pow_le_pow_right (by omega) (Nat.sub_le k 1)).trans hx
      | succ n =>
        rw [show k + (n + 1) - 1 = n + k by omega, pow_add]
        exact (Nat.le_div_iff_mul_le hpos).mp hle

/-- The number that is left, and the bits that have been counted, make up `v`. -/
def Counted (v : ℕ) (s : ℕ × ℕ) : Prop := ∀ n, HasBits s.1 n → HasBits v (s.2 + n)

variable {v : ℕ}

theorem Counted.narrow {s : ℕ × ℕ} (h : Counted v s) (k : ℕ) : Counted v (narrow k s) := by
  intro n hn
  unfold Protobuf.narrow at hn ⊢
  split
  · rename_i hge
    rw [if_pos hge] at hn
    rw [Nat.one_shiftLeft] at hge
    have hbits := h _ (hasBits_shiftRight hge hn)
    rwa [← Nat.add_assoc] at hbits
  · rename_i hlt
    rw [if_neg hlt] at hn
    exact h n hn

theorem narrow_lt {k : ℕ} {s : ℕ × ℕ} (h : s.1 < 2 ^ (k + k)) : (narrow k s).1 < 2 ^ k := by
  unfold narrow
  split
  · rw [Nat.shiftRight_eq_div_pow, Nat.div_lt_iff_lt_mul (Nat.two_pow_pos k), ← pow_add]
    exact h
  · rename_i hlt
    rw [Nat.one_shiftLeft] at hlt
    omega

theorem hasBits_bitsLen64 (h : v < 2 ^ 64) : HasBits v (bitsLen64 v) := by
  have hstart : Counted v (v, 0) := by
    intro n hn
    rwa [Nat.zero_add]
  have hsmall : (narrow 8 (narrow 16 (narrow 32 (v, 0)))).1 < 2 ^ 8 :=
    narrow_lt (k := 8) (narrow_lt (k := 16) (narrow_lt (k := 32) h))
  exact ((hstart.narrow 32).narrow 16).narrow 8 _ (hasBits_tab _ hsmall)

/-- The size is that of the base-128 number. -/
theorem sizeofVarint_eq (h : v < 2 ^ 64) : sizeofVarint v = (varint v).length := by
  obtain ⟨hlt, hge⟩ := hasBits_bitsLen64 h
  unfold sizeofVarint
  generalize bitsLen64 v = n at hlt hge ⊢
  rcases hge with hzero | hge
  · rw [hzero, pow_zero, Nat.lt_one_iff] at hlt
    rw [hzero, hlt, varint_last (by omega)]
    rfl
  have hn : n - 1 < 64 := (Nat.pow_lt_pow_iff_right (by omega)).mp (lt_of_le_of_lt hge h)
  cases n with
  | zero =>
    rw [Nat.lt_one_iff.mp hlt, varint_last (by omega)]
    rfl
  | succ n =>
    -- `n + 1` bits are in the groups up to the one with the number `n / 7`
    have hbase : ∀ k, 128 ^ k = 2 ^ (7 * k) := fun k => (pow_mul 2 7 k).symm
    have hlow : 128 ^ (n / 7) ≤ v := by
      rw [hbase]
      exact (Nat.pow_le_pow_right (by omega) (by omega)).trans hge
    have hhigh : v < 128 ^ (n / 7 + 1) := by
      rw [hbase]
      exact lt_of_lt_of_le hlt (Nat.pow_le_pow_right (by omega) (by omega))
    have hmin := lt_length_varint hlow
    have hmax := length_varint_le_of_lt hhigh
    omega

/-! ## Varints -/

theorem writes_writeUint_one (v : ℕ) : Kernel.Writes (writeUint 1 v) [UInt8.ofNat v] := by
  have hbyte : bytesBE 1 v = [UInt8.ofNat v] := by simp [bytesBE]
  rw [← hbyte]
  exact writes_writeUint 1 v

/-- The highest group. -/
theorem writes_last {k : ℕ} (h : v >>> k < 128) :
    Kernel.Writes (writeUint 1 (v >>> k)) (varint (v >>> k)) := by
  rw [varint_last h]
  exact writes_writeUint_one _

/-- A group below it. -/
theorem writes_more {k : ℕ} {x : Dec Unit} (h : 128 ≤ v >>> k)
    (hx : Kernel.Writes x (varint (v >>> (k + 7)))) :
    Kernel.Writes (writeMore v k >>= fun _ => x) (varint (v >>> k)) := by
  have hgroup : v >>> k &&& 0x7f ||| 0x80 = v >>> k % 128 + 128 := by
    have hlow : v >>> k % 2 ^ 7 < 2 ^ 7 := Nat.mod_lt _ (by omega)
    rw [show (0x7f : ℕ) = 2 ^ 7 - 1 from rfl, Nat.and_two_pow_sub_one_eq_mod, Nat.or_comm,
      show (0x80 : ℕ) = 2 ^ 7 * 1 from rfl, ← Nat.two_pow_add_eq_or_of_lt hlow]
    omega
  have hrest : v >>> k / 128 = v >>> (k + 7) := by
    rw [Nat.shiftRight_add, Nat.shiftRight_eq_div_pow (v >>> k)]
  rw [varint_more h, hrest]
  unfold writeMore
  rw [hgroup]
  exact (writes_writeUint_one _).seq hx

/-- The chain of the writer: in each case the groups are those of the number. -/
theorem writes_writeVarint (h : v < 2 ^ 64) : Kernel.Writes (writeVarint v) (varint v) := by
  have hmore : ∀ k, 2 ^ (k + 7) ≤ v → 128 ≤ v >>> k := by
    intro k hk
    rw [Nat.shiftRight_eq_div_pow, Nat.le_div_iff_mul_le (Nat.two_pow_pos k)]
    rwa [pow_add, Nat.mul_comm] at hk
  have hlast : ∀ k, v < 2 ^ (k + 7) → v >>> k < 128 := by
    intro k hk
    rw [Nat.shiftRight_eq_div_pow, Nat.div_lt_iff_lt_mul (Nat.two_pow_pos k)]
    rwa [pow_add, Nat.mul_comm] at hk
  unfold writeVarint
  simp only [Nat.one_shiftLeft]
  split
  · rw [varint_last (by omega)]
    exact writes_writeUint_one v
  -- the first group is that of `v >>> 0`
  change Kernel.Writes _ (varint (v >>> 0))
  have w0 (x) := @writes_more v 0 x (hmore 0 (by omega))
  split
  · exact w0 _ (writes_last (hlast 7 (by omega)))
  have w1 (x) (hx) := w0 _ (@writes_more v 7 x (hmore 7 (by omega)) hx)
  split
  · exact w1 _ (writes_last (hlast 14 (by omega)))
  have w2 (x) (hx) := w1 _ (@writes_more v 14 x (hmore 14 (by omega)) hx)
  split
  · exact w2 _ (writes_last (hlast 21 (by omega)))
  have w3 (x) (hx) := w2 _ (@writes_more v 21 x (hmore 21 (by omega)) hx)
  split
  · exact w3 _ (writes_last (hlast 28 (by omega)))
  have w4 (x) (hx) := w3 _ (@writes_more v 28 x (hmore 28 (by omega)) hx)
  split
  · exact w4 _ (writes_last (hlast 35 (by omega)))
  have w5 (x) (hx) := w4 _ (@writes_more v 35 x (hmore 35 (by omega)) hx)
  split
  · exact w5 _ (writes_last (hlast 42 (by omega)))
  have w6 (x) (hx) := w5 _ (@writes_more v 42 x (hmore 42 (by omega)) hx)
  split
  · exact w6 _ (writes_last (hlast 49 (by omega)))
  have w7 (x) (hx) := w6 _ (@writes_more v 49 x (hmore 49 (by omega)) hx)
  split
  · exact w7 _ (writes_last (hlast 56 (by omega)))
  have w8 (x) (hx) := w7 _ (@writes_more v 56 x (hmore 56 (by omega)) hx)
  have hone : v >>> 63 = 1 := by
    rw [Nat.shiftRight_eq_div_pow]
    omega
  have hgroup := writes_last (hlast 63 (by omega))
  rw [hone] at hgroup
  apply w8
  show Kernel.Writes _ (varint (v >>> 63))
  rw [hone]
  exact hgroup

theorem writes_encodeVarint (h : v < 2 ^ 64) : Kernel.Writes (encodeVarint v) (varint v) :=
  (writes_writeVarint h).checkRequire (le_of_eq (sizeofVarint_eq h)) _ _

theorem encodeVarint_refuses {b : SrsBuffer} (h : b.left < sizeofVarint v) :
    encodeVarint v b = .err (srsErrorNew .pbNoSpace "require %d only %d bytes") b := by
  have hnot : ¬ b.require (sizeofVarint v) = true := by
    unfold SrsBuffer.require
    rw [decide_eq_true_iff]
    omega
  have hcheck : checkRequire (sizeofVarint v) .pbNoSpace "require %d only %d bytes" b =
      .err (srsErrorNew .pbNoSpace "require %d only %d bytes") b := if_neg hnot
  exact Prog.bind_err hcheck _

/-- A varint takes the bytes that have been asked for, which are read as the number, and none fewer
are. Without room for them nothing is written. -/
structure VarintRight (v : ℕ) : Prop where
  writes : Kernel.Writes (encodeVarint v) (varint v)
  size : sizeofVarint v = (varint v).length
  decodes : decodeVarint (varint v) = some (v, [])
  shortest : ∀ l rest, decodeVarint l = some (v, rest) → (varint v).length ≤ l.length
  refuses : ∀ b : SrsBuffer, b.left < sizeofVarint v → ∃ e, encodeVarint v b = .err e b

theorem varintRight (h : v < 2 ^ 64) : VarintRight v where
  writes := writes_encodeVarint h
  size := sizeofVarint_eq h
  decodes := by
    have hdecodes := decodeVarint_varint v []
    rwa [List.append_nil] at hdecodes
  shortest _ _ hl := length_varint_le hl
  refuses _ hb := ⟨_, encodeVarint_refuses hb⟩

/-! ## Strings and objects -/

/-- The size is that of what is written: the length of the content, and the content. -/
structure Delimited (x : Dec Unit) (size : ℤ) (content : List UInt8) : Prop where
  writes : Kernel.Writes x (varint content.length ++ content)
  size : size = (varint content.length ++ content).length

/-- An `int` holds what is below 2^31. -/
theorem toInt_lt (n : ℕ) : toInt n < 2 ^ 31 := by
  have hlt := @Int.bmod_lt n (2 ^ 32) (by omega)
  unfold toInt
  omega

theorem toInt_eq_iff (n : ℕ) : toInt n = n ↔ n < 2 ^ 31 := by
  constructor
  · intro h
    have hlt := toInt_lt n
    omega
  · intro h
    unfold toInt
    apply Int.bmod_eq_of_le <;> omega

/-- The length takes five bytes where it is decisive. -/
theorem size_lt_iff {n : ℕ} : sizeofVarint n + n < 2 ^ 31 ↔ n + 5 < 2 ^ 31 := by
  by_cases hlarge : 2 ^ 31 ≤ n
  · omega
  rw [sizeofVarint_eq (by omega)]
  by_cases hsmall : n < 128 ^ 4
  · have hle := length_varint_le_of_lt hsmall
    omega
  · have hge := lt_length_varint (Nat.not_lt.mp hsmall)
    have hle := @length_varint_le_of_lt n 4 (by omega)
    omega

theorem writes_writeString {v : List UInt8} (h : v.length < 2 ^ 31) :
    Kernel.Writes (writeString v) v := by
  intro b hroom
  unfold writeString
  split
  · rename_i hnil
    rw [hnil, put_nil]
  · have hrequire : b.require (toInt v.length) = true := by
      rw [(toInt_eq_iff v.length).mpr h]
      exact (b.require_iff v.length).mpr hroom
    rw [if_pos hrequire]

/-- A string that fits an `int` is written behind its length. -/
theorem writes_encodeString {v : List UInt8} (h : v.length < 2 ^ 31) :
    Kernel.Writes (encodeString v) (varint v.length ++ v) := by
  have hcontent : Kernel.Writes (if v = [] then pure () else do
      checkRequire (toInt v.length) .pbNoSpace "require %d only %d byte"
      writeString v) v := by
    split
    · rename_i hnil
      rw [hnil]
      exact Kernel.writes_pure
    · rw [(toInt_eq_iff v.length).mpr h]
      exact (writes_writeString h).checkRequire (le_refl _) _ _
  exact ((writes_encodeVarint (by omega)).wrap _).seq hcontent

/-- An object writes itself behind its length. -/
theorem writes_encodeObject (obj : ISrsEncoder) :
    Kernel.Writes (encodeObject obj) (varint obj.content.length ++ obj.content) := by
  rw [obj.length]
  exact ((writes_encodeVarint obj.nbBytes.toNat_lt).wrap _).seq (obj.writes.wrap _)

theorem delimited_iff {x : Dec Unit} {content : List UInt8}
    (h : content.length < 2 ^ 31 → Kernel.Writes x (varint content.length ++ content)) :
    Delimited x (toInt (sizeofVarint content.length + content.length)) content ↔
      content.length + 5 < 2 ^ 31 := by
  rw [← size_lt_iff, ← toInt_eq_iff]
  constructor
  · intro hdelimited
    have hlt := toInt_lt (sizeofVarint content.length + content.length)
    have hsize := hdelimited.size
    rw [hsize, List.length_append] at hlt
    rw [hsize, List.length_append, sizeofVarint_eq (by omega)]
  · intro hsize
    have hlt := (toInt_eq_iff _).mp hsize
    refine ⟨h (by omega), ?_⟩
    rw [hsize, sizeofVarint_eq (by omega), List.length_append]

/-- Varints take what has been asked for. Strings and objects do so exactly if an `int` holds their
size. -/
theorem protobuf_sizes (v : UInt64) (s : List UInt8) (obj : ISrsEncoder) :
    VarintRight v.toNat ∧
      (Delimited (encodeString s) (sizeofString s) s ↔ s.length + 5 < 2 ^ 31) ∧
      (Delimited (encodeObject obj) (sizeofObject obj) obj.content ↔
        obj.nbBytes.toNat + 5 < 2 ^ 31) := by
  refine ⟨varintRight v.toNat_lt, delimited_iff writes_encodeString, ?_⟩
  have hobject := delimited_iff fun _ => writes_encodeObject obj
  rwa [obj.length] at hobject

/-- A string of 4 GiB: with the five bytes that are asked for, all of it is copied behind them. -/
theorem long_string_overflows :
    sizeofString (List.replicate (2 ^ 32) 0x61) = 5 ∧
      encodeString (List.replicate (2 ^ 32) 0x61) ⟨List.replicate 5 0, 0⟩ = .fault ∧
      ¬ Delimited (encodeString (List.replicate (2 ^ 32) 0x61))
        (sizeofString (List.replicate (2 ^ 32) 0x61)) (List.replicate (2 ^ 32) 0x61) := by
  generalize hs : List.replicate (2 ^ 32) (0x61 : UInt8) = s
  have hlength : s.length = 2 ^ 32 := by rw [← hs, List.length_replicate]
  have hsize : sizeofVarint (2 ^ 32) = 5 := by decide
  have hne : s ≠ [] := List.ne_nil_of_length_pos (by omega)
  refine ⟨?_, ?_, fun h => ?_⟩
  · rw [sizeofString, hlength, hsize]
    rfl
  · have hvarint : (varint s.length).length = 5 := by
      rw [hlength, ← sizeofVarint_eq (by omega), hsize]
    have hfirst := (writes_encodeVarint (v := s.length) (by omega)).wrap
      (srsErrorWrap "string size %d") ⟨List.replicate 5 0, 0⟩ (by rw [hvarint]; decide)
    generalize hb : (⟨List.replicate 5 0, 0⟩ : SrsBuffer).put (varint s.length) = b at hfirst
    have hleft : b.pos = 5 ∧ b.bytes.length = 5 := by
      rw [← hb, pos_put, length_bytes_put (by rw [hvarint]; decide), hvarint]
      exact ⟨rfl, rfl⟩
    -- the length is 0 as an `int`
    have hint : toInt s.length = 0 := by
      rw [hlength]
      rfl
    have hrequire : b.require 0 = true := (b.require_iff 0).mpr (by omega)
    have hcheck : checkRequire 0 .pbNoSpace "require %d only %d byte" b = .ok () b :=
      if_pos hrequire
    unfold encodeString
    rw [Prog.bind_ok hfirst, if_neg hne, hint, Prog.bind_ok hcheck, writeString, if_neg hne, hint,
      if_pos hrequire, if_neg (by omega)]
  · have hfits := (delimited_iff writes_encodeString).mp h
    omega

end SrsChatRoom.Protocol.Protobuf
