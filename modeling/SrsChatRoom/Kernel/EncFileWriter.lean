import SrsChatRoom.Lib.BlockCipher

/-!
# Encrypted segments (`SrsEncFileWriter`)

Packets are encrypted four at a time, as four packets are a whole number of blocks, and the rest is
padded and encrypted when the file is closed. Where there is no rest there is no padding either,
and the last packet is then taken for padding by a player: `decryptable_iff`.

AES is a parameter. Writing to the file does not fail.
-/

namespace SrsChatRoom.Kernel.EncFileWriter

open BlockCipher

/-! ## Code -/

/-- `SRS_TS_PACKET_SIZE` -/
def srsTsPacketSize : ℕ := 188

/-- `HLS_AES_ENCRYPT_BLOCK_LENGTH` -/
def hlsAesEncryptBlockLength : ℕ := srsTsPacketSize * 4

/-- `AES_BLOCK_SIZE` -/
abbrev aesBlockSize : ℕ := 16

/-- A key, an initialization vector or a block of AES. -/
abbrev AesBlock := Block aesBlockSize

abbrev TsPacket := Vector UInt8 srsTsPacketSize

/-- `SrsEncFileWriter`, with the file that is open. -/
structure SrsEncFileWriter where
  key : AesBlock := Vector.replicate _ 0
  iv : AesBlock := Vector.replicate _ 0
  /-- the first `nb_buf` bytes of `buf` -/
  buf : List UInt8 := []
  file : List UInt8 := []

section Code

variable (aes : Cipher AesBlock aesBlockSize)

namespace SrsEncFileWriter

/-- `AES_cbc_encrypt`, and the cipher text is written to the file. -/
def encrypt (w : SrsEncFileWriter) (bytes : List UInt8) : SrsEncFileWriter :=
  { w with
    iv := aes.cbcIv w.key w.iv (blocks aesBlockSize bytes)
    file := w.file ++ aes.encryptBytes w.key w.iv bytes }

/-- `SrsFileWriter::open` of a new file. -/
def openFile (w : SrsEncFileWriter) : SrsEncFileWriter := { w with file := [] }

/-- `SrsEncFileWriter::config_cipher` -/
def configCipher (w : SrsEncFileWriter) (key iv : AesBlock) : SrsEncFileWriter :=
  { w with iv := iv, key := key }

/-- `SrsEncFileWriter::write` -/
def write (w : SrsEncFileWriter) (data : TsPacket) : SrsEncFileWriter :=
  let w := if w.buf.length < hlsAesEncryptBlockLength then { w with buf := w.buf ++ data.toList }
    else w
  if w.buf.length = hlsAesEncryptBlockLength then { w with buf := [] }.encrypt aes w.buf else w

/-- `SrsEncFileWriter::close` -/
def close (w : SrsEncFileWriter) : SrsEncFileWriter :=
  if 0 < w.buf.length then
    let nbPadding := aesBlockSize - w.buf.length % aesBlockSize
    { w with buf := [] }.encrypt aes (w.buf ++ List.replicate nbPadding (UInt8.ofNat nbPadding))
  else w

end SrsEncFileWriter

/-! ## Segments -/

/-- A segment, with the key and the initialization vector that a player has for it. -/
structure Segment where
  key : AesBlock
  iv : AesBlock
  packets : List TsPacket

def Segment.bytes (s : Segment) : List UInt8 := s.packets.flatMap Vector.toList

/-- The writer writes a segment. -/
def SrsEncFileWriter.segment (w : SrsEncFileWriter) (s : Segment) : SrsEncFileWriter :=
  (s.packets.foldl (fun w packet => w.write aes packet)
    (w.openFile.configCipher s.key s.iv)).close aes

/-- The writer after some segments. -/
def written (before : List Segment) : SrsEncFileWriter :=
  before.foldl (SrsEncFileWriter.segment aes) {}

/-- The file of a segment, when the writer has written others before it. -/
def fileOf (before : List Segment) (s : Segment) : List UInt8 :=
  ((written aes before).segment aes s).file

/-- The file is the encryption of the padded packets, and a player finds the packets in it. -/
structure Decryptable (before : List Segment) (s : Segment) : Prop where
  cbc : fileOf aes before s = aes.encryptBytes s.key s.iv (pad aesBlockSize s.bytes)
  played : aes.decode s.key s.iv (fileOf aes before s) = some s.bytes

end Code

/-! ## The invariant of a segment -/

section Segments

variable {aes : Cipher AesBlock aesBlockSize}

/-- Of the data of a segment, all but what is in the buffer has been encrypted. -/
structure Wrote (aes : Cipher AesBlock aesBlockSize) (key iv : AesBlock) (data : List UInt8)
    (w : SrsEncFileWriter) : Prop where
  key_eq : w.key = key
  split : ∃ done, data = done ++ w.buf ∧ hlsAesEncryptBlockLength ∣ done.length ∧
    w.file = aes.encryptBytes key iv done ∧ w.iv = aes.cbcIv key iv (blocks aesBlockSize done)
  packets : srsTsPacketSize ∣ w.buf.length
  room : w.buf.length < hlsAesEncryptBlockLength

variable {key iv : AesBlock} {data : List UInt8} {w : SrsEncFileWriter}

theorem dvd_of_batch {n : ℕ} (h : hlsAesEncryptBlockLength ∣ n) : aesBlockSize ∣ n :=
  Dvd.dvd.trans ⟨47, rfl⟩ h

/-- More blocks are encrypted. -/
theorem encrypt_append {done bytes : List UInt8} (hkey : w.key = key)
    (hdone : aesBlockSize ∣ done.length) (hbytes : aesBlockSize ∣ bytes.length)
    (hfile : w.file = aes.encryptBytes key iv done)
    (hiv : w.iv = aes.cbcIv key iv (blocks aesBlockSize done)) :
    (w.encrypt aes bytes).file = aes.encryptBytes key iv (done ++ bytes) ∧
      (w.encrypt aes bytes).iv = aes.cbcIv key iv (blocks aesBlockSize (done ++ bytes)) := by
  constructor
  · rw [aes.encryptBytes_append key (by decide) iv hdone hbytes, ← hiv, ← hfile, ← hkey]
    rfl
  · rw [blocks_append (by decide) hdone hbytes, Cipher.cbcIv_append, ← hiv, ← hkey]
    rfl

theorem wrote_write (h : Wrote aes key iv data w) (packet : TsPacket) :
    Wrote aes key iv (data ++ packet.toList) (w.write aes packet) := by
  obtain ⟨done, hdata, hbatch, hfile, hiv⟩ := h.split
  have hlength : (w.buf ++ packet.toList).length = w.buf.length + srsTsPacketSize := by
    rw [List.length_append, Vector.length_toList]
  have hpackets : srsTsPacketSize ∣ w.buf.length + srsTsPacketSize :=
    dvd_add h.packets (dvd_refl _)
  have hle : w.buf.length + srsTsPacketSize ≤ hlsAesEncryptBlockLength := by
    obtain ⟨k, hk⟩ := h.packets
    have hroom := h.room
    simp only [hk, srsTsPacketSize, hlsAesEncryptBlockLength] at hroom ⊢
    omega
  unfold SrsEncFileWriter.write
  rw [if_pos h.room]
  dsimp only
  split
  · next hfull =>
    -- four packets are encrypted, and the buffer is empty again
    have hbytes : hlsAesEncryptBlockLength ∣ (w.buf ++ packet.toList).length := by rw [hfull]
    obtain ⟨hfile', hiv'⟩ := encrypt_append (w := { w with buf := [] }) h.key_eq
      (dvd_of_batch hbatch) (dvd_of_batch hbytes) hfile hiv
    refine ⟨h.key_eq, ⟨done ++ (w.buf ++ packet.toList), ?_, ?_, hfile', hiv'⟩, dvd_zero _,
      (by decide : 0 < hlsAesEncryptBlockLength)⟩
    · rw [hdata, List.append_assoc]
      exact (List.append_nil _).symm
    · rw [List.length_append]
      exact dvd_add hbatch hbytes
  · next hmore =>
    refine ⟨h.key_eq, ⟨done, ?_, hbatch, hfile, hiv⟩, ?_, ?_⟩
    · rw [hdata, List.append_assoc]
    · show srsTsPacketSize ∣ (w.buf ++ packet.toList).length
      rw [hlength]
      exact hpackets
    · show (w.buf ++ packet.toList).length < _
      rw [hlength] at hmore ⊢
      omega

theorem wrote_packets (packets : List TsPacket) (h : Wrote aes key iv data w) :
    Wrote aes key iv (data ++ packets.flatMap Vector.toList)
      (packets.foldl (fun w packet => w.write aes packet) w) := by
  induction packets generalizing data w with
  | nil =>
    rw [List.flatMap_nil, List.append_nil]
    exact h
  | cons packet packets ih =>
    rw [List.flatMap_cons, ← List.append_assoc, List.foldl_cons]
    exact ih (wrote_write h packet)

theorem close_buf : (w.close aes).buf = [] := by
  unfold SrsEncFileWriter.close
  split
  · rfl
  · next hempty =>
    apply List.length_eq_zero_iff.mp
    omega

/-- When the file is closed there is padding if there is something in the buffer. -/
theorem close_file (h : Wrote aes key iv data w) : (w.close aes).file =
    aes.encryptBytes key iv (if w.buf = [] then data else pad aesBlockSize data) := by
  obtain ⟨done, hdata, hbatch, hfile, hiv⟩ := h.split
  unfold SrsEncFileWriter.close
  by_cases hempty : w.buf = []
  · have hnot : ¬0 < w.buf.length := by
      rw [hempty]
      decide
    rw [if_neg hnot, if_pos hempty, hfile, hdata, hempty, List.append_nil]
  · have hdone := dvd_of_batch hbatch
    have hmod : data.length % aesBlockSize = w.buf.length % aesBlockSize := by
      obtain ⟨m, hm⟩ := hdone
      rw [hdata, List.length_append, hm, Nat.mul_add_mod]
    have hpad : pad aesBlockSize data = done ++ (w.buf ++
        List.replicate (aesBlockSize - w.buf.length % aesBlockSize)
          (UInt8.ofNat (aesBlockSize - w.buf.length % aesBlockSize))) := by
      rw [pad, padding, hmod, hdata, List.append_assoc]
    have hbytes : aesBlockSize ∣ (w.buf ++
        List.replicate (aesBlockSize - w.buf.length % aesBlockSize)
          (UInt8.ofNat (aesBlockSize - w.buf.length % aesBlockSize))).length := by
      have hall := dvd_length_pad (by decide : 0 < aesBlockSize) data
      rw [hpad, List.length_append] at hall
      exact (Nat.dvd_add_iff_right hdone).mpr hall
    rw [if_pos (List.length_pos_iff.mpr hempty), if_neg hempty, hpad]
    exact (encrypt_append (w := { w with buf := [] }) h.key_eq hdone hbytes hfile hiv).1

end Segments

/-! ## Segments of a run -/

section Run

variable (aes : Cipher AesBlock aesBlockSize)

/-- Nothing is left behind by the segments before. -/
theorem written_buf (before : List Segment) : (written aes before).buf = [] := by
  induction before using List.reverseRecOn with
  | nil => rfl
  | append_singleton before s _ =>
    rw [written, List.foldl_append]
    exact close_buf

theorem length_bytes (s : Segment) : s.bytes.length = s.packets.length * srsTsPacketSize :=
  length_bytesOf s.packets

/-- The file of a segment, by the number of its packets. -/
theorem fileOf_eq (before : List Segment) (s : Segment) : fileOf aes before s =
    aes.encryptBytes s.key s.iv
      (if s.packets.length % 4 = 0 then s.bytes else pad aesBlockSize s.bytes) := by
  have hbuf := written_buf aes before
  have hstart : Wrote aes s.key s.iv []
      ((written aes before).openFile.configCipher s.key s.iv) := by
    refine ⟨rfl, ⟨[], hbuf.symm, dvd_zero _, rfl, rfl⟩, ?_, ?_⟩
    · show srsTsPacketSize ∣ (written aes before).buf.length
      rw [hbuf]
      exact dvd_zero _
    · show (written aes before).buf.length < _
      rw [hbuf]
      decide
  have hwrote := wrote_packets s.packets hstart
  rw [List.nil_append] at hwrote
  have hfile : fileOf aes before s = _ := close_file hwrote
  obtain ⟨done, hdata, hbatch, -, -⟩ := hwrote.split
  have hroom := hwrote.room
  generalize s.packets.foldl _ _ = w at hfile hdata hroom
  -- the buffer is empty after each batch of four packets
  have hempty : w.buf = [] ↔ s.packets.length % 4 = 0 := by
    have hsum : s.packets.length * srsTsPacketSize = done.length + w.buf.length := by
      rw [← length_bytes, ← List.length_append, ← hdata]
      rfl
    rw [← List.length_eq_zero_iff]
    obtain ⟨m, hm⟩ := hbatch
    simp only [srsTsPacketSize, hlsAesEncryptBlockLength] at hsum hm hroom
    omega
  rw [hfile, if_congr hempty rfl rfl]
  rfl

/-- Without padding the file is as long as the packets, and it should be one block longer. -/
theorem not_decryptable {before : List Segment} {s : Segment} (h : s.packets.length % 4 = 0) :
    ¬Decryptable aes before s := by
  intro hdecryptable
  have hlength := congrArg List.length hdecryptable.cbc
  rw [fileOf_eq, if_pos h, Cipher.length_encryptBytes, Cipher.length_encryptBytes, length_pad]
    at hlength
  simp only [aesBlockSize] at hlength
  omega

/-- A segment can be decrypted if the number of its packets is not a multiple of four. -/
theorem decryptable_iff (before : List Segment) (s : Segment) :
    Decryptable aes before s ↔ s.packets.length % 4 ≠ 0 := by
  constructor
  · exact fun h hcount => not_decryptable aes hcount h
  · intro hcount
    have hfile := fileOf_eq aes before s
    rw [if_neg hcount] at hfile
    refine ⟨hfile, ?_⟩
    rw [hfile]
    exact aes.decode_encode s.key s.iv (by decide) (by decide) s.bytes

/-- Four packets of `0x47`. -/
def fourPackets : Segment :=
  ⟨Vector.replicate _ 1, Vector.replicate _ 2, List.replicate 4 (Vector.replicate _ 0x47)⟩

/-- Whatever AES does, they are not padded. -/
theorem fourPackets_not_decryptable :
    ∃ s : Segment, s = fourPackets ∧ ∀ aes, ¬Decryptable aes [] s :=
  ⟨fourPackets, rfl, fun aes => not_decryptable aes rfl⟩

end Run

end SrsChatRoom.Kernel.EncFileWriter
