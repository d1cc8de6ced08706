import Mathlib.Data.List.GetD
import Mathlib.Tactic

/-!
# Block ciphers: chaining and padding

Bytes are cut into blocks, and each block is combined with the cipher text of the one before it
(CBC). What is not a whole number of blocks is padded first, by as many bytes as are missing, each
of which is that number (PKCS7); a whole number of blocks is padded too, by one more block.

* `cbcEncrypt_append` - chaining goes on where it stopped, from the last cipher text;
* `decode_encode` - the padded and encrypted bytes can be read back.
-/

namespace SrsChatRoom.BlockCipher

/-! ## Blocks -/

abbrev Block (n : ℕ) := Vector UInt8 n

/-- Exclusive or. -/
def Block.xor {n : ℕ} (a b : Block n) : Block n := Vector.zipWith (· ^^^ ·) a b

theorem Block.xor_xor {n : ℕ} (a b : Block n) : (a.xor b).xor b = a := by
  apply Vector.ext
  intro i hi
  rw [Block.xor, Vector.getElem_zipWith, Block.xor, Vector.getElem_zipWith, UInt8.xor_assoc,
    UInt8.xor_self, UInt8.xor_zero]

/-- The first `count` blocks. -/
def blocksFrom (n : ℕ) : ℕ → List UInt8 → List (Block n)
  | 0, _ => []
  | count + 1, bytes => Vector.ofFn (fun i => bytes.getD i 0) :: blocksFrom n count (bytes.drop n)

/-- The blocks of some bytes. -/
def blocks (n : ℕ) (bytes : List UInt8) : List (Block n) := blocksFrom n (bytes.length / n) bytes

/-- The bytes of some blocks. -/
def bytesOf {n : ℕ} (bs : List (Block n)) : List UInt8 := bs.flatMap Vector.toList

section Blocks

variable {n : ℕ}

theorem length_bytesOf (bs : List (Block n)) : (bytesOf bs).length = bs.length * n := by
  induction bs with
  | nil => simp [bytesOf]
  | cons b bs ih =>
    have hcons : bytesOf (b :: bs) = b.toList ++ bytesOf bs := List.flatMap_cons
    rw [hcons, List.length_append, Vector.length_toList, ih, List.length_cons]
    ring

theorem length_blocksFrom (count : ℕ) (bytes : List UInt8) :
    (blocksFrom n count bytes).length = count := by
  induction count generalizing bytes with
  | zero => rfl
  | succ count ih => rw [blocksFrom, List.length_cons, ih]

/-- Blocks are cut off in front. -/
theorem blocksFrom_bytesOf (bs : List (Block n)) (count : ℕ) (rest : List UInt8) :
    blocksFrom n (bs.length + count) (bytesOf bs ++ rest) = bs ++ blocksFrom n count rest := by
  induction bs with
  | nil => simp [bytesOf]
  | cons b bs ih =>
    have hcons : bytesOf (b :: bs) ++ rest = b.toList ++ (bytesOf bs ++ rest) := by
      rw [bytesOf, List.flatMap_cons, List.append_assoc]
      rfl
    have hcount : (b :: bs).length + count = bs.length + count + 1 := by
      rw [List.length_cons]
      omega
    have hblock :
        Vector.ofFn (fun i : Fin n => (b.toList ++ (bytesOf bs ++ rest)).getD i 0) = b := by
      apply Vector.ext
      intro i hi
      rw [Vector.getElem_ofFn, List.getD_append _ _ _ _ (by rwa [Vector.length_toList]),
        List.getD_eq_getElem _ _ (by rwa [Vector.length_toList]), Vector.getElem_toList]
    rw [hcons, hcount, blocksFrom, hblock, List.drop_left' Vector.length_toList, ih]
    rfl

theorem blocks_bytesOf (hn : 0 < n) (bs : List (Block n)) : blocks n (bytesOf bs) = bs := by
  have hcount := blocksFrom_bytesOf bs 0 []
  rw [List.append_nil, Nat.add_zero] at hcount
  rw [blocks, length_bytesOf, Nat.mul_div_cancel _ hn, hcount]
  exact List.append_nil bs

theorem bytesOf_blocksFrom (count : ℕ) {bytes : List UInt8} (h : bytes.length = count * n) :
    bytesOf (blocksFrom n count bytes) = bytes := by
  induction count generalizing bytes with
  | zero =>
    rw [Nat.zero_mul] at h
    rw [List.length_eq_zero_iff.mp h]
    rfl
  | succ count ih =>
    rw [Nat.succ_mul] at h
    have hblock : (Vector.ofFn fun i : Fin n => bytes.getD i 0).toList = bytes.take n := by
      apply List.ext_getElem
      · rw [Vector.length_toList, List.length_take]
        omega
      · intro i hi _
        rw [Vector.length_toList] at hi
        rw [Vector.getElem_toList, Vector.getElem_ofFn, List.getElem_take,
          List.getD_eq_getElem _ _ (by omega)]
    have hrest : (bytes.drop n).length = count * n := by
      rw [List.length_drop]
      omega
    rw [blocksFrom, bytesOf, List.flatMap_cons, hblock]
    show bytes.take n ++ bytesOf (blocksFrom n count (bytes.drop n)) = bytes
    rw [ih hrest, List.take_append_drop]

/-- A whole number of blocks is cut into blocks and nothing else. -/
theorem bytesOf_blocks {bytes : List UInt8} (h : n ∣ bytes.length) :
    bytesOf (blocks n bytes) = bytes :=
  bytesOf_blocksFrom _ (Nat.div_mul_cancel h).symm

theorem bytesOf_append (a b : List (Block n)) : bytesOf (a ++ b) = bytesOf a ++ bytesOf b :=
  List.flatMap_append

theorem blocks_append (hn : 0 < n) {a b : List UInt8} (ha : n ∣ a.length) (hb : n ∣ b.length) :
    blocks n (a ++ b) = blocks n a ++ blocks n b := by
  have hbytes : a ++ b = bytesOf (blocks n a ++ blocks n b) := by
    rw [bytesOf_append, bytesOf_blocks ha, bytesOf_blocks hb]
  rw [hbytes, blocks_bytesOf hn]

theorem length_blocks (bytes : List UInt8) : (blocks n bytes).length = bytes.length / n :=
  length_blocksFrom _ _

end Blocks

/-! ## Chaining -/

/-- A block cipher with keys `κ`. -/
structure Cipher (κ : Type) (n : ℕ) where
  encrypt : κ → Block n → Block n
  decrypt : κ → Block n → Block n
  decrypt_encrypt : ∀ k b, decrypt k (encrypt k b) = b

namespace Cipher

variable {κ : Type} {n : ℕ} (c : Cipher κ n) (k : κ)

def cbcEncrypt (iv : Block n) : List (Block n) → List (Block n)
  | [] => []
  | b :: bs => c.encrypt k (b.xor iv) :: cbcEncrypt (c.encrypt k (b.xor iv)) bs

/-- What the next block is combined with. -/
def cbcIv (iv : Block n) : List (Block n) → Block n
  | [] => iv
  | b :: bs => cbcIv (c.encrypt k (b.xor iv)) bs

def cbcDecrypt (iv : Block n) : List (Block n) → List (Block n)
  | [] => []
  | b :: bs => (c.decrypt k b).xor iv :: cbcDecrypt b bs

/-- Chaining goes on with the last cipher text. -/
theorem cbcEncrypt_append (iv : Block n) (a b : List (Block n)) :
    c.cbcEncrypt k iv (a ++ b) = c.cbcEncrypt k iv a ++ c.cbcEncrypt k (c.cbcIv k iv a) b := by
  induction a generalizing iv with
  | nil => rfl
  | cons x a ih =>
    rw [List.cons_append, cbcEncrypt, ih, cbcEncrypt, cbcIv, List.cons_append]

theorem cbcIv_append (iv : Block n) (a b : List (Block n)) :
    c.cbcIv k iv (a ++ b) = c.cbcIv k (c.cbcIv k iv a) b := by
  induction a generalizing iv with
  | nil => rfl
  | cons x a ih =>
    rw [List.cons_append, cbcIv, ih, cbcIv]

theorem length_cbcEncrypt (iv : Block n) (bs : List (Block n)) :
    (c.cbcEncrypt k iv bs).length = bs.length := by
  induction bs generalizing iv with
  | nil => rfl
  | cons b bs ih => rw [cbcEncrypt, List.length_cons, ih, List.length_cons]

theorem cbcDecrypt_cbcEncrypt (iv : Block n) (bs : List (Block n)) :
    c.cbcDecrypt k iv (c.cbcEncrypt k iv bs) = bs := by
  induction bs generalizing iv with
  | nil => rfl
  | cons b bs ih => rw [cbcEncrypt, cbcDecrypt, ih, c.decrypt_encrypt, Block.xor_xor]

/-- Bytes are encrypted; those behind the last whole block are left out. -/
def encryptBytes (iv : Block n) (bytes : List UInt8) : List UInt8 :=
  bytesOf (c.cbcEncrypt k iv (blocks n bytes))

theorem length_encryptBytes (iv : Block n) (bytes : List UInt8) :
    (c.encryptBytes k iv bytes).length = bytes.length / n * n := by
  rw [encryptBytes, length_bytesOf, length_cbcEncrypt, length_blocks]

theorem encryptBytes_append (hn : 0 < n) (iv : Block n) {a b : List UInt8} (ha : n ∣ a.length)
    (hb : n ∣ b.length) : c.encryptBytes k iv (a ++ b) =
      c.encryptBytes k iv a ++ c.encryptBytes k (c.cbcIv k iv (blocks n a)) b := by
  rw [encryptBytes, blocks_append hn ha hb, cbcEncrypt_append, bytesOf_append]
  rfl

end Cipher

/-! ## Padding -/

/-- As many bytes as are missing. -/
def padding (n length : ℕ) : List UInt8 :=
  List.replicate (n - length % n) (UInt8.ofNat (n - length % n))

def pad (n : ℕ) (bytes : List UInt8) : List UInt8 := bytes ++ padding n bytes.length

/-- The last byte says how much is removed. -/
def unpad (n : ℕ) (bytes : List UInt8) : Option (List UInt8) :=
  match bytes.getLast? with
  | none => none
  | some last =>
    if 0 < last.toNat ∧ last.toNat ≤ n ∧ List.replicate last.toNat last <:+ bytes then
      some (bytes.take (bytes.length - last.toNat))
    else none

section Padding

variable {n : ℕ}

theorem length_pad (bytes : List UInt8) :
    (pad n bytes).length = bytes.length + (n - bytes.length % n) := by
  rw [pad, List.length_append, padding, List.length_replicate]

theorem dvd_length_pad (hn : 0 < n) (bytes : List UInt8) : n ∣ (pad n bytes).length := by
  have hlt : bytes.length % n < n := Nat.mod_lt _ hn
  have hdiv := Nat.div_add_mod bytes.length n
  refine ⟨bytes.length / n + 1, ?_⟩
  rw [length_pad, Nat.mul_succ]
  omega

theorem unpad_pad (hn : 0 < n) (hbyte : n < 256) (bytes : List UInt8) :
    unpad n (pad n bytes) = some bytes := by
  have hlt : bytes.length % n < n := Nat.mod_lt _ hn
  obtain ⟨m, hm⟩ : ∃ m, n - bytes.length % n = m + 1 := ⟨n - bytes.length % n - 1, by omega⟩
  have hvalue : (UInt8.ofNat (m + 1)).toNat = m + 1 := by
    rw [UInt8.toNat_ofNat']
    exact Nat.mod_eq_of_lt (by omega)
  have hpad : pad n bytes = bytes ++ List.replicate (m + 1) (UInt8.ofNat (m + 1)) := by
    rw [pad, padding, hm]
  have hlast : (pad n bytes).getLast? = some (UInt8.ofNat (m + 1)) := by
    rw [hpad, List.replicate_succ', ← List.append_assoc, List.getLast?_concat]
  rw [unpad, hlast]
  dsimp only
  rw [hvalue, if_pos ⟨by omega, by omega, bytes, hpad.symm⟩, hpad]
  congr 1
  apply List.take_left'
  rw [List.length_append, List.length_replicate]
  omega

/-- What is decrypted, and unpadded. -/
def Cipher.decode {κ : Type} (c : Cipher κ n) (k : κ) (iv : Block n) (bytes : List UInt8) :
    Option (List UInt8) :=
  unpad n (bytesOf (c.cbcDecrypt k iv (blocks n bytes)))

theorem Cipher.decode_encode {κ : Type} (c : Cipher κ n) (k : κ) (iv : Block n) (hn : 0 < n)
    (hbyte : n < 256) (bytes : List UInt8) :
    c.decode k iv (c.encryptBytes k iv (pad n bytes)) = some bytes := by
  rw [Cipher.decode, Cipher.encryptBytes, blocks_bytesOf hn, Cipher.cbcDecrypt_cbcEncrypt,
    bytesOf_blocks (dvd_length_pad hn bytes), unpad_pad hn hbyte]

end Padding

end SrsChatRoom.BlockCipher
