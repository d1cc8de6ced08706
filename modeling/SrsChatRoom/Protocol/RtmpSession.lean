import SrsChatRoom.Lib.Endings
import SrsChatRoom.Protocol.RtmpPacketRoundTrip
import SrsChatRoom.Protocol.RtmpRoundTrip

/-!
# Packets over a connection (`do_send_and_free_packet`, `recv_message`)

A packet becomes a message, which is cut into chunks of the size that is set at the time. A packet
that sets the chunk size changes it for the sender once it is sent, and for the receiver once it is
received. `packets_arrive` says that the two never come apart.

Acks and answers to pings, which go the other way, and the requests remembered for their results are
left out.
-/

namespace SrsChatRoom.Protocol

open Kernel

/-! ## Code -/

/-- What fails: the chunks, the fields of a packet, or a chunk size that is too small. -/
inductive SessionError
  | chunks (e : SrsError)
  | packet (e : RtmpError)
  | chunkSize (value : ℤ)

/-- `SRS_CONSTS_RTMP_PROTOCOL_CHUNK_SIZE`, which is also `SRS_CONSTS_RTMP_MIN_CHUNK_SIZE` -/
def protocolChunkSize : ℕ := 128

namespace SrsPacket

/-- `get_prefer_cid` -/
def getPreferCid : SrsPacket → ℤ
  | connect _ | call _ | createStream _ | createStreamRes _ | fmleStart _ | fmleStartRes _ => 3
  | onMetaData _ => 4
  | publish _ | play _ => 5
  | _ => 2

/-- `get_message_type` -/
def getMessageType : SrsPacket → Int8
  | setChunkSize _ => 1
  | acknowledgement _ => 3
  | userControl _ => 4
  | setWindowAckSize _ => 5
  | onMetaData _ => 18
  | _ => 20

end SrsPacket

/-- The sending side, with its `out_chunk_size`. -/
structure OutSide where
  sender : Sender
  outChunkSize : ℕ

/-- A program on some bytes, and what it leaves of them. -/
def onPayload {σ α : Type} (x : RtmpIo α) (payload : List UInt8) :
    Prog σ SessionError (α × List UInt8) := fun s =>
  match x ⟨payload, 0⟩ with
  | .ok a b => .ok (a, b.bytes) s
  | .err e _ => .err (.packet e) s
  | .fault => .fault
  | .hang => .hang

/-- `on_send_packet` -/
def onSendPacket (p : SrsPacket) (s : OutSide) : OutSide :=
  match p with
  | .setChunkSize p => { s with outChunkSize := p.chunkSize.toNat }
  | _ => s

/-- `do_send_and_free_packet`, where `encode` gets its memory zeroed. -/
def doSendAndFreePacket (cacheMax iovMax : ℕ) (p : SrsPacket) (streamId : Int32) :
    Prog OutSide SessionError Unit := do
  let (_, payload) ← onPayload p.encodePacket (List.replicate p.getSize 0)
  let outChunkSize ← Prog.read OutSide.outChunkSize
  let msg : SharedPtrMessage := ⟨p.getPreferCid, 0, p.getMessageType, streamId, payload⟩
  ((doSendMessages ⟨cacheMax, iovMax, outChunkSize⟩ [some msg]).mapErr .chunks).zoom
    OutSide.sender fun s sender => { s with sender := sender }
  Prog.modify (onSendPacket p)

/-- Packets for streams, one after the other. -/
def sendPackets (cacheMax iovMax : ℕ) : List (SrsPacket × Int32) → Prog OutSide SessionError Unit
  | [] => return ()
  | (p, streamId) :: ps => do
    doSendAndFreePacket cacheMax iovMax p streamId
    sendPackets cacheMax iovMax ps

/-- `on_recv_message` -/
def onRecvMessage (msg : CommonMessage) : Prog Receiver SessionError Unit :=
  if msg.header.messageType = 1 then do
    let (p, _) ← onPayload SrsSetChunkSizePacket.decode msg.payload
    if p.chunkSize.toInt < protocolChunkSize then Prog.throw (.chunkSize p.chunkSize.toInt)
    else Prog.modify fun r => { r with inChunkSize := p.chunkSize.toNat }
  else if msg.header.messageType = 4 then do
    let _ ← onPayload SrsUserControlPacket.decode msg.payload
  else if msg.header.messageType = 5 then do
    let _ ← onPayload SrsSetWindowAckSizePacket.decode msg.payload
  else return ()

/-- `recv_message` -/
def recvMessage : ℕ → Prog Receiver SessionError CommonMessage
  | 0 => fun _ => .hang
  | fuel + 1 => do
    match ← Prog.mapErr .chunks recvInterlacedMessage with
    | none => recvMessage fuel
    | some msg =>
      if msg.payload = [] ∨ msg.header.payloadLength = 0 then recvMessage fuel
      else do
        onRecvMessage msg
        return msg

/-! ## Specification -/

/-- Calls of `recv_message`, and the messages they give. -/
inductive Received : Receiver → List CommonMessage → Receiver → Prop
  | nil (r : Receiver) : Received r [] r
  | cons {r r₁ r' : Receiver} {msg : CommonMessage} {msgs : List CommonMessage} (fuel : ℕ)
      (h : recvMessage fuel r = .ok msg r₁) (rest : Received r₁ msgs r') :
      Received r (msg :: msgs) r'

/-- The packets that the decoders accept and that fit the buffer; a chunk size is not too small. -/
structure Sendable (nbBuffer : ℕ) (p : SrsPacket) : Prop where
  readable : p.Readable
  accepted : p.Accepted
  size_lt : p.getSize < 2 ^ 24
  fits : p.getSize ≤ nbBuffer
  chunkSize : ∀ q, p = .setChunkSize q → 128 ≤ q.chunkSize.toInt

/-- The message has the type and the stream of the packet, and its payload is decoded to it. -/
def Arrived (x : SrsPacket × Int32) (msg : CommonMessage) : Prop :=
  msg.header.messageType = x.1.getMessageType ∧ msg.header.streamId = x.2 ∧
    ∃ b, x.1.decodeLike ⟨msg.payload, 0⟩ = .ok x.1 b

/-! ## Sending -/

/-- The message of a packet. -/
def SrsPacket.message (p : SrsPacket) (streamId : Int32) : SharedPtrMessage :=
  ⟨p.getPreferCid, 0, p.getMessageType, streamId, p.bytes⟩

/-- The chunk size behind a packet. -/
def SrsPacket.chunkSizeAfter (p : SrsPacket) (c : ℕ) : ℕ :=
  match p with
  | .setChunkSize q => q.chunkSize.toNat
  | _ => c

/-- The bytes of some packets, from a chunk size on. -/
def packetStream (c : ℕ) : List (SrsPacket × Int32) → List UInt8
  | [] => []
  | (p, streamId) :: ps =>
    chunks c (p.message streamId) p.bytes ++ packetStream (p.chunkSizeAfter c) ps

section Session

variable {nb c : ℕ} {p : SrsPacket}

theorem SrsPacket.bytes_ne_nil (p : SrsPacket) : p.bytes ≠ [] := by
  cases p <;> exact List.cons_ne_nil _ _

theorem Sendable.chunkSizeAfter (h : Sendable nb p) (hc : 128 ≤ c) : 128 ≤ p.chunkSizeAfter c := by
  cases p with
  | setChunkSize q =>
    have hsize := h.chunkSize q rfl
    rw [BitVec.toInt_eq_toNat_cond] at hsize
    show 128 ≤ q.chunkSize.toNat
    split at hsize <;> omega
  | _ => exact hc

/-- The sender after some packets. -/
structure OutSide.Ready (s : OutSide) (written : List UInt8) (c : ℕ) : Prop where
  written : s.sender.written = written
  outChunkSize : s.outChunkSize = c
  even_nbOutIovs : Even s.sender.nbOutIovs
  iovs_room : 2 ≤ s.sender.nbOutIovs

variable {cacheMax iovMax : ℕ} {s : OutSide} {out : List UInt8}

theorem doSendAndFreePacket_run (hcache : maxFmt0HeaderSize ≤ cacheMax) (hiov : 0 < iovMax)
    (hc : 128 ≤ c) (h : s.Ready out c) (p : SrsPacket) (streamId : Int32) :
    ∃ s', doSendAndFreePacket cacheMax iovMax p streamId s = .ok () s' ∧
      s'.Ready (out ++ chunks c (p.message streamId) p.bytes) (p.chunkSizeAfter c) := by
  obtain ⟨rfl, rfl, heven, hroom⟩ := h
  have hencode : (onPayload p.encodePacket (List.replicate p.getSize 0) :
      Prog OutSide SessionError _) s = .ok ((), p.bytes) s := by
    unfold onPayload
    rw [encodePacket_fills p List.length_replicate]
  obtain ⟨sender, hsend, hwritten, heven', hroom'⟩ :=
    @doSendMessages_from ⟨cacheMax, iovMax, s.outChunkSize⟩ hcache hiov
      (Nat.lt_of_lt_of_le (by decide) hc) [some (p.message streamId)] _ heven hroom
  have hzoom : ((Prog.mapErr SessionError.chunks (doSendMessages ⟨cacheMax, iovMax,
      s.outChunkSize⟩ [some (p.message streamId)])).zoom OutSide.sender
      fun s sender => { s with sender := sender }) s = .ok () { s with sender := sender } := by
    unfold Prog.zoom Prog.mapErr
    rw [hsend]
  refine ⟨onSendPacket p { s with sender := sender }, ?_, ?_⟩
  · unfold doSendAndFreePacket
    rw [Prog.bind_ok hencode]
    dsimp only
    rw [Prog.bind_ok (Prog.read_apply _ _)]
    exact Prog.bind_ok hzoom _
  · have hstream : chunkStream s.outChunkSize [some (p.message streamId)].reduceOption =
        chunks s.outChunkSize (p.message streamId) p.bytes := by
      simp [chunkStream, List.reduceOption, SrsPacket.message]
    rw [hstream] at hwritten
    cases p <;> exact ⟨hwritten, rfl, heven', hroom'⟩

/-- The packets are written one behind the other, each with the chunk size of its time. -/
theorem sendPackets_run (hcache : maxFmt0HeaderSize ≤ cacheMax) (hiov : 0 < iovMax)
    (ps : List (SrsPacket × Int32)) (hps : ∀ x ∈ ps, Sendable nb x.1) (hc : 128 ≤ c)
    (h : s.Ready out c) : ∃ s', sendPackets cacheMax iovMax ps s = .ok () s' ∧
      s'.sender.written = out ++ packetStream c ps ∧
      s'.outChunkSize = ps.foldl (fun c x => x.1.chunkSizeAfter c) c := by
  induction ps generalizing s c out with
  | nil => exact ⟨s, rfl, by rw [h.written, packetStream, List.append_nil], h.outChunkSize⟩
  | cons x ps ih =>
    obtain ⟨s₁, hsend, hready⟩ := doSendAndFreePacket_run hcache hiov hc h x.1 x.2
    have hx := hps x List.mem_cons_self
    obtain ⟨s', hrest, hwritten, hsize⟩ :=
      ih (fun y hy => hps y (List.mem_cons_of_mem _ hy)) (hx.chunkSizeAfter hc) hready
    refine ⟨s', by rw [sendPackets, Prog.bind_ok hsend, hrest], ?_, hsize⟩
    rw [hwritten, packetStream, List.append_assoc]

/-! ## Receiving -/

theorem decodesBack_payload {α : Type} {x : RtmpIo α} {mk : α → SrsPacket} {q : α} {b : SrsBuffer}
    (h : (x >>= fun a => pure (mk a) : RtmpIo SrsPacket) ⟨p.bytes, 0⟩ = .ok (mk q) b)
    (hmk : ∀ a, mk a = mk q → a = q) (r : Receiver) :
    (onPayload x p.bytes : Prog Receiver SessionError _) r = .ok (q, b.bytes) r := by
  obtain ⟨a, b', hx, hpure⟩ := Prog.ok_of_bind_ok h
  obtain ⟨ha, rfl⟩ := Outcome.ok.inj hpure
  unfold onPayload
  rw [hx, hmk a ha]

/-- A packet that has been received sets the chunk size as one that has been sent does. -/
theorem onRecvMessage_run (h : Sendable nb p) (msg : CommonMessage)
    (htype : msg.header.messageType = p.getMessageType) (hpayload : msg.payload = p.bytes)
    (r : Receiver) : onRecvMessage msg r =
      .ok () { r with inChunkSize := p.chunkSizeAfter r.inChunkSize } := by
  obtain ⟨b, hdecode⟩ := p.decodesBack_iff.mpr ⟨h.readable, h.accepted⟩
  unfold onRecvMessage
  rw [hpayload]
  cases p with
  | setChunkSize q =>
    have hq := h.chunkSize q rfl
    have hrun := decodesBack_payload hdecode (fun _ => SrsPacket.setChunkSize.inj) r
    have htype : msg.header.messageType = 1 := htype
    rw [htype, if_pos rfl, Prog.bind_ok hrun]
    dsimp only
    rw [if_neg (by unfold protocolChunkSize; omega)]
    rfl
  | userControl q =>
    have htype : msg.header.messageType = 4 := htype
    have hrun := decodesBack_payload hdecode (fun _ => SrsPacket.userControl.inj) r
    rw [htype, if_neg (by decide), if_pos rfl, Prog.bind_ok hrun]
    rfl
  | setWindowAckSize q =>
    have htype : msg.header.messageType = 5 := htype
    have hrun := decodesBack_payload hdecode (fun _ => SrsPacket.setWindowAckSize.inj) r
    rw [htype, if_neg (by decide), if_neg (by decide), if_pos rfl, Prog.bind_ok hrun]
    rfl
  | _ =>
    rw [htype]
    rfl

theorem Receives.recvMessage {r r₁ : Receiver} {msg : CommonMessage} (h : Receives r msg r₁)
    (hpayload : msg.payload ≠ []) (hlength : msg.header.payloadLength ≠ 0) {r' : Receiver}
    (hrecv : onRecvMessage msg r₁ = .ok () r') :
    ∃ fuel, recvMessage fuel r = .ok msg r' := by
  induction h with
  | last h =>
    refine ⟨1, ?_⟩
    rw [Protocol.recvMessage, Prog.bind_ok (by rw [Prog.mapErr, h])]
    dsimp only
    rw [if_neg (by simp [hpayload, hlength]), Prog.bind_ok hrecv]
    rfl
  | more h _ ih =>
    obtain ⟨fuel, hrest⟩ := ih hpayload hlength hrecv
    refine ⟨fuel + 1, ?_⟩
    rw [Protocol.recvMessage, Prog.bind_ok (by rw [Prog.mapErr, h])]
    exact hrest

theorem Sendable.carried (h : Sendable nb p) (streamId : Int32) :
    Carried c nb (p.message streamId) where
  nonempty := p.bytes_ne_nil
  length_lt := by
    show p.bytes.length < 2 ^ 24
    rw [p.length_bytes]
    exact h.size_lt
  cid_ge := by cases p <;> simp [SrsPacket.message, SrsPacket.getPreferCid]
  fits := by
    show min c p.bytes.length ≤ nb
    have := h.fits
    rw [p.length_bytes]
    omega

theorem recv_packets (hnb : 11 ≤ nb) (ps : List (SrsPacket × Int32))
    (hps : ∀ x ∈ ps, Sendable nb x.1) (hc : 128 ≤ c) {r : Receiver} (hidle : Idle r)
    (hat : At r c nb (packetStream c ps)) :
    ∃ msgs r', Received r msgs r' ∧ List.Forall₂ Arrived ps msgs ∧ r'.input.unread = [] ∧
      r'.inChunkSize = ps.foldl (fun c x => x.1.chunkSizeAfter c) c := by
  induction ps generalizing r c with
  | nil => exact ⟨[], r, .nil r, .nil, hat.unread, hat.inChunkSize⟩
  | cons x ps ih =>
    have hx := hps x List.mem_cons_self
    obtain ⟨cid, r₁, hrecv, hidle₁, hat₁⟩ :=
      recv_message (hx.carried x.2) (by omega) hnb hidle hat
    have hon := onRecvMessage_run hx ⟨(x.1.message x.2).received cid, x.1.bytes⟩ rfl rfl r₁
    have hpos : x.1.bytes.length ≠ 0 := fun h => x.1.bytes_ne_nil (List.length_eq_zero_iff.mp h)
    obtain ⟨fuel, hfirst⟩ := hrecv.recvMessage x.1.bytes_ne_nil hpos hon
    rw [hat₁.inChunkSize] at hfirst
    obtain ⟨msgs, r', hrest, hmsgs, hunread, hsize⟩ :=
      ih (fun y hy => hps y (List.mem_cons_of_mem _ hy)) (hx.chunkSizeAfter hc)
        (r := { r₁ with inChunkSize := x.1.chunkSizeAfter c }) hidle₁ ⟨rfl, hat₁.nbBuffer, hat₁.unread⟩
    refine ⟨_ :: msgs, r', .cons fuel hfirst hrest, .cons ⟨rfl, rfl, ?_⟩ hmsgs, hunread, hsize⟩
    exact x.1.decodesBack_iff.mpr ⟨hx.readable, hx.accepted⟩

end Session

/-- Packets that are sent one after the other arrive in order and are decoded to what they were,
however the chunk size is changed on the way; and both sides end with the same chunk size. -/
theorem packets_arrive {cacheMax iovMax nbBuffer : ℕ} {ps : List (SrsPacket × Int32)}
    (hcache : maxFmt0HeaderSize ≤ cacheMax) (hiov : 0 < iovMax)
    (hnb : FastStream.defaultRecvBufferSize ≤ nbBuffer) (hps : ∀ x ∈ ps, Sendable nbBuffer x.1) :
    ∃ s, sendPackets cacheMax iovMax ps ⟨.new, protocolChunkSize⟩ = .ok () s ∧
      ∀ skt : Socket, skt.bytes = s.sender.written →
        ∃ msgs r, Received (Receiver.new nbBuffer protocolChunkSize skt) msgs r ∧
          List.Forall₂ Arrived ps msgs ∧ r.input.unread = [] ∧ r.inChunkSize = s.outChunkSize := by
  have hready : OutSide.Ready ⟨.new, protocolChunkSize⟩ [] protocolChunkSize :=
    ⟨rfl, rfl, by decide, by decide⟩
  obtain ⟨s, hsend, hwritten, hsize⟩ := sendPackets_run hcache hiov ps hps le_rfl hready
  refine ⟨s, hsend, fun skt hskt => ?_⟩
  have hidle : Idle (Receiver.new nbBuffer protocolChunkSize skt) := fun cid => by
    rw [chunk_new]
    rfl
  rw [hsize]
  exact recv_packets (le_trans (by decide) hnb) ps hps le_rfl hidle ⟨rfl, rfl, hskt.trans hwritten⟩

/-- A larger chunk size is set between two other packets. -/
theorem packets_arrive_three : ∃ s, sendPackets 16 1024 [(.setWindowAckSize ⟨2500000⟩, 0),
      (.setChunkSize ⟨60000⟩, 0), (.createStream ⟨commandCreateStream, 0, .null⟩, 0)]
      ⟨.new, protocolChunkSize⟩ = .ok () s ∧ ∀ skt : Socket, skt.bytes = s.sender.written →
    ∃ msgs r, Received (Receiver.new 131072 protocolChunkSize skt) msgs r ∧ msgs.length = 3 := by
  obtain ⟨s, hsend, harrive⟩ := @packets_arrive 16 1024 131072 [(.setWindowAckSize ⟨2500000⟩, 0),
      (.setChunkSize ⟨60000⟩, 0), (.createStream ⟨commandCreateStream, 0, .null⟩, 0)]
    (by decide) (by decide) (by decide) (by
      intro x hx
      fin_cases hx
      · exact ⟨trivial, trivial, by decide, by decide, by rintro q ⟨⟩⟩
      · refine ⟨trivial, trivial, by decide, by decide, ?_⟩
        rintro q ⟨⟩
        decide
      · exact ⟨trivial, ⟨rfl, rfl⟩, by decide, by decide, by rintro q ⟨⟩⟩)
  refine ⟨s, hsend, fun skt hskt => ?_⟩
  obtain ⟨msgs, r, hrecv, hmsgs, -⟩ := harrive skt hskt
  exact ⟨msgs, r, hrecv, hmsgs.length_eq.symm⟩

end SrsChatRoom.Protocol
