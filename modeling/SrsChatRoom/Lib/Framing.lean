import SrsChatRoom.Lib.Bytes

/-!
# Packets on a stream of bytes

A packet on a stream follows its length, in two bytes. `frames` is the stream of some packets. A
reader that takes the length and then as many bytes gets the packets back, whatever comes behind
them; a stream that ends inside a packet gives it no packet.
-/

namespace SrsChatRoom.Framing

/-- A packet with its length. -/
def frame (packet : List UInt8) : List UInt8 := bytesBE 2 packet.length ++ packet

/-- The stream of these packets. -/
def frames (packets : List (List UInt8)) : List UInt8 := (packets.map frame).flatten

/-- Exactly `n` bytes of the stream, and what is behind them. -/
def readFully (n : ℕ) (stream : List UInt8) : Option (List UInt8 × List UInt8) :=
  if n ≤ stream.length then some (stream.take n, stream.drop n) else none

@[simp] theorem frames_nil : frames [] = [] := rfl

theorem frames_cons (packet : List UInt8) (packets : List (List UInt8)) :
    frames (packet :: packets) = frame packet ++ frames packets := rfl

theorem frames_concat (packets : List (List UInt8)) (packet : List UInt8) :
    frames (packets ++ [packet]) = frames packets ++ frame packet := by
  simp [frames]

theorem readFully_append (part rest : List UInt8) :
    readFully part.length (part ++ rest) = some (part, rest) := by
  have hle : part.length ≤ (part ++ rest).length := by
    rw [List.length_append]
    omega
  rw [readFully, if_pos hle, List.take_left, List.drop_left]

theorem readFully_short {n : ℕ} {stream : List UInt8} (h : stream.length < n) :
    readFully n stream = none :=
  if_neg (not_le.mpr h)

/-- The length that is read is that of the packet, when it fits in two bytes. -/
theorem ofBytesBE_length {packet : List UInt8} (h : packet.length ≤ 65535) :
    ofBytesBE (bytesBE 2 packet.length) = packet.length := by
  rw [ofBytesBE_bytesBE]
  apply Nat.mod_eq_of_lt
  omega

end SrsChatRoom.Framing
