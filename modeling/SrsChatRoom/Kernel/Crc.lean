import SrsChatRoom.Lib.Bits
import SrsChatRoom.Lib.Crc

/-!
# CRC-32 (`srs_kernel_utility.cpp`)

Both checks look up a table that is built with the polynomial in its usual order. `srs_crc32_ieee`
reflects each index before and each entry after the division, and starts where the previous check
ended. `srs_crc32_mpegts` reflects nothing, and its register, a `uint64_t`, is not masked in the loop.
`srsCrc32_is_division` says that the results are those of the division bit by bit.
-/

namespace SrsChatRoom.Kernel

/-- The loop of `__crc32_reflect`, with the rounds that are left. -/
def crc32ReflectLoop : ℕ → ℕ → ℕ → ℕ
  | 0, _, res => res
  | i + 1, data, res => crc32ReflectLoop i (data >>> 1) (res <<< 1 ||| data >>> 1 &&& 1)

/-- `__crc32_reflect` -/
def crc32Reflect (data width : ℕ) : ℕ := crc32ReflectLoop (width - 1) data (data &&& 0x01)

/-- One round of the inner loop of `__crc32_make_table`. -/
def crc32MakeTableStep (poly reg : ℕ) : ℕ :=
  if reg &&& 0x80000000 ≠ 0 then reg <<< 1 ^^^ poly else reg <<< 1

/-- `__crc32_make_table`: the entry `t[i]`. -/
def crc32MakeTable (poly : ℕ) (reflectIn : Bool) (i : UInt8) : ℕ :=
  let reg := if reflectIn then crc32Reflect i.toNat 8 else i.toNat
  let reg := (crc32MakeTableStep poly)^[8] (reg <<< (32 - 8))
  let reg := if reflectIn then crc32Reflect reg 32 else reg
  reg &&& 0xffffffff

/-- `__crc32_table_driven`; `uint8_t tblidx` keeps the low byte. -/
def crc32TableDriven (t : UInt8 → ℕ) (buf : List UInt8) (previous : ℕ) (reflectIn : Bool)
    (xorIn : ℕ) (reflectOut : Bool) (xorOut : ℕ) : ℕ :=
  let reg :=
    if reflectIn then
      let reg := buf.foldl (fun reg p => t (UInt8.ofNat (reg ^^^ p.toNat)) ^^^ reg >>> 8)
        (previous ^^^ crc32Reflect xorIn 32)
      crc32Reflect reg 32
    else
      buf.foldl (fun reg p =>
        t (UInt8.ofNat (reg >>> (32 - 8) ^^^ p.toNat)) ^^^ reg <<< 8 % 2 ^ 64) xorIn
  let reg := if reflectOut then crc32Reflect reg 32 else reg
  (reg ^^^ xorOut) &&& 0xffffffff

/-- `srs_crc32_ieee` -/
def srsCrc32Ieee (buf : List UInt8) (previous : ℕ) : ℕ :=
  crc32TableDriven (crc32MakeTable 0x04C11DB7 true) buf previous true 0xffffffff true 0xffffffff

/-- `srs_crc32_mpegts` -/
def srsCrc32Mpegts (buf : List UInt8) : ℕ :=
  crc32TableDriven (crc32MakeTable 0x04C11DB7 false) buf 0x00 false 0xffffffff false 0x0

/-- The model of `srs_crc32_ieee`, as its comment has it. -/
def crc32IeeeModel : CrcModel where
  width := 32
  poly := 0x4c11db7
  reflectIn := true
  xorIn := 0xffffffff
  reflectOut := true
  xorOut := 0xffffffff

/-- The model of `srs_crc32_mpegts`. -/
def crc32MpegtsModel : CrcModel where
  width := 32
  poly := 0x4c11db7
  reflectIn := false
  xorIn := 0xffffffff
  reflectOut := false
  xorOut := 0x0

/-! ## Reflection -/

theorem crc32ReflectLoop_eq (i data res : ℕ) :
    crc32ReflectLoop i data res = res * 2 ^ i + ofBitsBE (bitsBE i (data >>> 1)).reverse := by
  induction i generalizing data res with
  | zero => rw [crc32ReflectLoop, Nat.pow_zero, Nat.mul_one, bitsBE, List.reverse_nil, ofBitsBE,
      Nat.add_zero]
  | succ i ih =>
    have hbit : res <<< 1 ||| data >>> 1 &&& 1 = 2 * res + ((data >>> 1).testBit 0).toNat := by
      have hlow : data >>> 1 &&& 1 < 2 ^ 1 := by
        rw [Nat.and_one_is_mod]
        omega
      rw [Nat.toNat_testBit, Nat.shiftLeft_eq, Nat.mul_comm, ← Nat.two_pow_add_eq_or_of_lt hlow,
        Nat.and_one_is_mod]
      omega
    rw [crc32ReflectLoop, ih, hbit, bitsBE_succ_eq_append, List.reverse_append,
      List.reverse_singleton, List.singleton_append, ofBitsBE, List.length_reverse, length_bitsBE]
    ring

/-- The low bits in reverse order. -/
theorem crc32Reflect_eq (data w : ℕ) :
    crc32Reflect data (w + 1) = ofBitsBE (bitsBE (w + 1) data).reverse := by
  have hlow : data &&& 0x01 = (data.testBit 0).toNat := by
    rw [Nat.and_one_is_mod, Nat.toNat_testBit]
    omega
  rw [crc32Reflect, Nat.add_sub_cancel, crc32ReflectLoop_eq, hlow, bitsBE_succ_eq_append,
    List.reverse_append, List.reverse_singleton, List.singleton_append, ofBitsBE,
    List.length_reverse, length_bitsBE]

theorem crc32Reflect_eq_reverseBits (data w : ℕ) :
    crc32Reflect data (w + 1) = reverseBits (w + 1) data := crc32Reflect_eq data w

/-- Reflecting twice keeps the low bits. -/
theorem crc32Reflect_crc32Reflect (data w : ℕ) :
    crc32Reflect (crc32Reflect data (w + 1)) (w + 1) = data % 2 ^ (w + 1) := by
  rw [crc32Reflect_eq_reverseBits, crc32Reflect_eq_reverseBits, reverseBits_reverseBits]

/-- The polynomial reflected, and 32 ones. -/
theorem reverseBits_constants :
    reverseBits 32 0x4c11db7 = 0xEDB88320 ∧ reverseBits 32 0xffffffff = 0xffffffff := by
  decide +kernel

/-! ## The check -/

/-- Eight bits of the reflected division of each index. -/
theorem crc32MakeTable_eq (i : UInt8) :
    crc32MakeTable 0x04C11DB7 true i = (crcStep 0xEDB88320)^[8] i.toNat := by
  have hall : ∀ n < 256, crc32MakeTable 0x04C11DB7 true (UInt8.ofNat n) =
      (crcStep 0xEDB88320)^[8] n := by
    decide +kernel
  have h := hall i.toNat i.toNat_lt
  rwa [UInt8.ofNat_toNat] at h

/-- A round of the loop takes one byte. -/
theorem crc32TableDriven_step (reg : ℕ) (p : UInt8) :
    crc32MakeTable 0x04C11DB7 true (UInt8.ofNat (reg ^^^ p.toNat)) ^^^ reg >>> 8 =
      crcByte 0xEDB88320 reg p := by
  have hlow : (UInt8.ofNat (reg ^^^ p.toNat)).toNat = (reg ^^^ p.toNat) % 256 :=
    UInt8.toNat_ofNat'
  rw [crc32MakeTable_eq, hlow, crcByte_eq_table]

/-- The register starts with the previous one. -/
theorem srsCrc32Ieee_previous (buf : List UInt8) {previous : ℕ} (hprevious : previous < 2 ^ 32) :
    srsCrc32Ieee buf previous =
      crcRegister 0xEDB88320 (previous ^^^ 0xffffffff) buf ^^^ 0xffffffff := by
  have hstep : (fun reg p => crc32MakeTable 0x04C11DB7 true (UInt8.ofNat (reg ^^^ p.toNat)) ^^^
      reg >>> 8) = crcByte 0xEDB88320 := by
    funext reg p
    exact crc32TableDriven_step reg p
  have hlt : crcRegister 0xEDB88320 (previous ^^^ 0xffffffff) buf < 2 ^ 32 :=
    crcRegister_lt _ (by decide) (by decide) (Nat.xor_lt_two_pow hprevious (by decide)) buf
  have hout : crcRegister 0xEDB88320 (previous ^^^ 0xffffffff) buf ^^^ 0xffffffff < 2 ^ 32 :=
    Nat.xor_lt_two_pow hlt (by decide)
  show (crc32Reflect (crc32Reflect (buf.foldl (fun reg p =>
    crc32MakeTable 0x04C11DB7 true (UInt8.ofNat (reg ^^^ p.toNat)) ^^^ reg >>> 8)
      (previous ^^^ crc32Reflect 0xffffffff 32)) 32) 32 ^^^ 0xffffffff) &&& 0xffffffff = _
  rw [crc32Reflect_eq_reverseBits 0xffffffff, reverseBits_constants.2, hstep,
    crc32Reflect_crc32Reflect]
  show (crcRegister 0xEDB88320 (previous ^^^ 0xffffffff) buf % 2 ^ 32 ^^^ 0xffffffff) &&&
    (2 ^ 32 - 1) = _
  rw [Nat.mod_eq_of_lt hlt, Nat.and_two_pow_sub_one_eq_mod, Nat.mod_eq_of_lt hout]

/-- The code computes CRC-32. -/
theorem srsCrc32Ieee_eq (buf : List UInt8) : srsCrc32Ieee buf 0 = crc32 buf := by
  rw [srsCrc32Ieee_previous buf (by decide), Nat.zero_xor]
  rfl

/-- A check is continued. -/
theorem srsCrc32Ieee_append (a b : List UInt8) :
    srsCrc32Ieee b (srsCrc32Ieee a 0) = srsCrc32Ieee (a ++ b) 0 := by
  have hlt : crc32 a < 2 ^ 32 :=
    Nat.xor_lt_two_pow (crcRegister_lt _ (by decide) (by decide) (by decide) a) (by decide)
  have hregister : crc32 a ^^^ 0xffffffff = crcRegister 0xEDB88320 0xffffffff a :=
    xor_xor_self _ _
  rw [srsCrc32Ieee_eq, srsCrc32Ieee_previous b hlt, hregister, srsCrc32Ieee_eq, crc32]
  unfold crcRegister
  rw [List.foldl_append]

/-- The check of the IEEE is its model's. -/
theorem srsCrc32Ieee_division (buf : List UInt8) : srsCrc32Ieee buf 0 = crc32IeeeModel.crc buf := by
  have hregister := @reverseBits_register 0x4c11db7 32 (by decide) 0xffffffff buf
  rw [reverseBits_constants.1, reverseBits_constants.2] at hregister
  rw [srsCrc32Ieee_eq, crc32, ← hregister]
  rfl

/-! ## The check of MPEG-TS -/

/-- Eight bits of the division of each index. -/
theorem crc32MakeTable_plain (i : UInt8) : crc32MakeTable 0x04C11DB7 false i =
    reverseBits 32 ((crcStep (reverseBits 32 0x4c11db7))^[8] (reverseBits 8 i.toNat)) := by
  have hall : ∀ n < 256, crc32MakeTable 0x04C11DB7 false (UInt8.ofNat n) =
      reverseBits 32 ((crcStep (reverseBits 32 0x4c11db7))^[8] (reverseBits 8 n)) := by
    have hword : ∀ data, reverseBits 32 data = crc32Reflect data 32 :=
      fun data => (crc32Reflect_eq_reverseBits data 31).symm
    have hbyte : ∀ data, reverseBits 8 data = crc32Reflect data 8 :=
      fun data => (crc32Reflect_eq_reverseBits data 7).symm
    simp only [reverseBits_constants.1, hword, hbyte]
    decide +kernel
  have h := hall i.toNat i.toNat_lt
  rwa [UInt8.ofNat_toNat] at h

/-- A round of the loop: the low half of the register is divided by the bits of the byte. -/
theorem crc32TableDriven_plain (reg : ℕ) (p : UInt8) :
    (crc32MakeTable 0x04C11DB7 false (UInt8.ofNat (reg >>> (32 - 8) ^^^ p.toNat)) ^^^
        reg <<< 8 % 2 ^ 64) % 2 ^ 32 =
      (bitsBE 8 p.toNat).foldl (crcShift 32 0x4c11db7) (reg % 2 ^ 32) := by
  have hlt : reg % 2 ^ 32 < 2 ^ 32 := Nat.mod_lt _ (by decide)
  have hp : p.toNat < 2 ^ 8 := p.toNat_lt
  have hindex : (UInt8.ofNat (reg >>> (32 - 8) ^^^ p.toNat)).toNat =
      (reg % 2 ^ 32) >>> (32 - 8) ^^^ p.toNat := by
    have hhigh : reg >>> (32 - 8) % 2 ^ 8 = (reg % 2 ^ 32) >>> (32 - 8) := by
      rw [Nat.shiftRight_eq_div_pow, Nat.shiftRight_eq_div_pow]
      omega
    rw [UInt8.toNat_ofNat', Nat.xor_mod_two_pow, Nat.mod_eq_of_lt hp, hhigh]
  have hentry : crc32MakeTable 0x04C11DB7 false (UInt8.ofNat (reg >>> (32 - 8) ^^^ p.toNat)) %
      2 ^ 32 = reverseBits 32 ((crcStep (reverseBits 32 0x4c11db7))^[8]
        (reverseBits 8 ((reg % 2 ^ 32) >>> (32 - 8) ^^^ p.toNat))) := by
    rw [crc32MakeTable_plain, hindex, Nat.mod_eq_of_lt (reverseBits_lt 32 _)]
  have hup : reg <<< 8 % 2 ^ 64 % 2 ^ 32 = (reg % 2 ^ 32) <<< 8 % 2 ^ 32 := by
    rw [Nat.shiftLeft_eq, Nat.shiftLeft_eq]
    omega
  rw [Nat.xor_mod_two_pow, hentry, hup, crcShifts_byte (by decide) (by decide) hlt p]

/-- The check of MPEG-TS is its model's. -/
theorem srsCrc32Mpegts_division (buf : List UInt8) :
    srsCrc32Mpegts buf = crc32MpegtsModel.crc buf := by
  have hloop : ∀ reg, buf.foldl (fun reg p => crc32MakeTable 0x04C11DB7 false
        (UInt8.ofNat (reg >>> (32 - 8) ^^^ p.toNat)) ^^^ reg <<< 8 % 2 ^ 64) reg % 2 ^ 32 =
      (buf.flatMap fun b => bitsBE 8 b.toNat).foldl (crcShift 32 0x4c11db7) (reg % 2 ^ 32) := by
    induction buf with
    | nil => exact fun reg => rfl
    | cons p buf ih =>
      intro reg
      rw [List.foldl_cons, ih, crc32TableDriven_plain, List.flatMap_cons, List.foldl_append]
  show (buf.foldl (fun reg p => crc32MakeTable 0x04C11DB7 false
    (UInt8.ofNat (reg >>> (32 - 8) ^^^ p.toNat)) ^^^ reg <<< 8 % 2 ^ 64) 0xffffffff ^^^ 0) &&&
      (2 ^ 32 - 1) = _
  rw [Nat.xor_zero, Nat.and_two_pow_sub_one_eq_mod, hloop]
  exact (Nat.xor_zero _).symm

/-- CRC-32 is continued by the next call, and both checks are the division bit by bit. -/
theorem srsCrc32_is_division :
    (∀ a b, srsCrc32Ieee b (srsCrc32Ieee a 0) = srsCrc32Ieee (a ++ b) 0) ∧
      (∀ buf, srsCrc32Ieee buf 0 = crc32IeeeModel.crc buf) ∧
      ∀ buf, srsCrc32Mpegts buf = crc32MpegtsModel.crc buf :=
  ⟨srsCrc32Ieee_append, srsCrc32Ieee_division, srsCrc32Mpegts_division⟩

-- the checks of "123456789"
example : crc32IeeeModel.crc [0x31, 0x32, 0x33, 0x34, 0x35, 0x36, 0x37, 0x38, 0x39] = 0xcbf43926 ∧
    crc32MpegtsModel.crc [0x31, 0x32, 0x33, 0x34, 0x35, 0x36, 0x37, 0x38, 0x39] = 0x0376e6e7 := by
  decide +kernel

/-- Up to 32 wrong bits in a row, at any place, change both checks. -/
theorem srsCrc32_detects_bursts {u v : List UInt8} :
    (crc32MpegtsModel.Burst 32 u v → srsCrc32Mpegts u ≠ srsCrc32Mpegts v) ∧
      (crc32IeeeModel.Burst 32 u v → srsCrc32Ieee u 0 ≠ srsCrc32Ieee v 0) := by
  have hodd : (reverseBits 32 0x4c11db7).testBit 31 = true := by
    rw [reverseBits_constants.1]
    decide
  constructor <;> intro h
  · rw [srsCrc32Mpegts_division, srsCrc32Mpegts_division]
    exact CrcModel.crc_ne ⟨by decide, by decide, hodd, by decide⟩ h
  · rw [srsCrc32Ieee_division, srsCrc32Ieee_division]
    exact CrcModel.crc_ne ⟨by decide, by decide, hodd, by decide⟩ h

/-- Two wrong bits, in two bytes. -/
theorem srsCrc32_two_bits : srsCrc32Mpegts [0x47, 0x01, 0x00] ≠ srsCrc32Mpegts [0x47, 0x00, 0x80] :=
  srsCrc32_detects_bursts.1 ⟨bitsBE 8 0x47 ++ bitsBE 7 0, [true, false], [false, true],
    bitsBE 7 0, by decide⟩

end SrsChatRoom.Kernel
