import IocpStudy.StudyServer.NetworkContext
import IocpStudy.StudyServer.NetworkPacket

/-! `NetworkClient`: one client's two contexts, its send queue and the functions that move packets
between them and the socket.  The outcome of a `WSARecv` or `WSASend` call is an argument: `true`
where the call is accepted, which makes it complete later. -/

namespace IocpStudy.StudyServer

open Words

/-- A `WSABUF` into a context's buffer, with `buf` as an offset. -/
structure WsaBuf where
  buf : ℕ
  len : ℕ
deriving Repr, DecidableEq

/-- `UINT32_MAX`, the close time of a client that is in use. -/
def noCloseTime : ℕ := 4294967295

/-- `sending` is no member of the source: it is the packet whose bytes were last written to
`mSendContext`. -/
structure NetworkClient where
  mReceiveContext : NetworkContext
  mSendContext : NetworkContext
  mSending : Bool := true
  mLastCloseTimeInSeconds : ℕ := 0
  mSocket : Option Socket := none
  mSessionID : UInt32 := 0
  mIsConnected : Bool := false
  mSendQueue : List Packet := []
  sending : Option Packet := none

/-- One `memcpy` of a received body into `Packet::Body`: the positions of the receive context and
the number of bytes. -/
structure BodyCopy where
  readPos : ℕ
  writePos : ℕ
  bodyLength : ℕ
deriving Repr, DecidableEq

/-- What a call of `GetPacket` leaves: the packet it returns, if it returns one, and the copy it
made, if it came to one.  A copy of more than `bodyCapacity` bytes overruns `Packet::Body`, and
what the program does from there is undefined. -/
structure GetPacketResult where
  client : NetworkClient
  packetPool : MemoryPool Packet
  packet : Option Packet := none
  copy : Option BodyCopy := none

/-- A `WSASend` that was accepted: its buffer, and the bytes that the buffer held then. -/
structure Submission where
  wsaBuf : WsaBuf
  bytes : List UInt8
deriving Repr, DecidableEq

/-- What a call of `Send` leaves: its return value and the `WSASend` it made, if that was
accepted. -/
structure SendResult where
  client : NetworkClient
  submitted : Option Submission := none
  returned : Bool

namespace NetworkClient

/-- A client as `std::make_shared<NetworkClient>()` creates it. -/
def new : NetworkClient :=
  { mReceiveContext := { mBuffer := fun _ => 0 }, mSendContext := { mBuffer := fun _ => 0 } }

def reset (c : NetworkClient) : NetworkClient :=
  { c with
    mReceiveContext := c.mReceiveContext.reset
    mSendContext := c.mSendContext.reset
    mIsConnected := false
    mSessionID := 0
    mSending := false }

def init (c : NetworkClient) : NetworkClient :=
  { c.reset with mLastCloseTimeInSeconds := noCloseTime, mIsConnected := true }

/-- `Close` at the time `now`, in seconds. -/
def close (c : NetworkClient) (now : ℕ) : NetworkClient :=
  { c with mSocket := none, mLastCloseTimeInSeconds := now }

def enqueuePacket (c : NetworkClient) (packet : Packet) : NetworkClient :=
  { c with mSendQueue := c.mSendQueue ++ [packet] }

def getPacket (c : NetworkClient) (packetPool : MemoryPool Packet) : GetPacketResult :=
  let context := c.mReceiveContext
  let remainSize := context.getDataSize
  if sizeTOfInt remainSize < headerSize then { client := c, packetPool }
  else
    let packetHeader :=
      PacketHeader.ofBytes (context.mBuffer.slice context.mReadPos headerSize)
    let packetLength := packetHeader.BodyLength.toNat + headerSize
    let rawPacket : NetworkPacket := { Header := packetHeader }
    if sizeTOfInt remainSize < packetLength then { client := c, packetPool }
    else
      let (packet, packetPool) := packetPool.acquire {}
      let body := context.mBuffer.slice (context.mReadPos + headerSize) rawPacket.getBodySize
      let packet := { packet with
        Body := packet.Body.write 0 body
        PacketID := packetHeader.PacketID
        BodyLength := packetHeader.BodyLength }
      let copy := ⟨context.mReadPos, context.mWritePos, rawPacket.getBodySize⟩
      match context.read rawPacket.getPacketSize with
      | none => { client := c, packetPool := packetPool.release packet, copy := some copy }
      | some context =>
        { client := { c with mReceiveContext := context }, packetPool, packet := some packet,
          copy := some copy }

def setPacket (packet : Packet) : NetworkPacket :=
  { Header :=
      { BodyLength := packet.BodyLength
        PacketID := packet.PacketID
        SessionID := packet.SessionID }
    Body := Memory.write (fun _ => 0) 0 packet.body }

/-- `Receive`: the client and the buffer of the `WSARecv` it posted, if that was accepted. -/
def receive (c : NetworkClient) (wsaRecv : Bool) : NetworkClient × Option WsaBuf :=
  let context := { c.mReceiveContext with mContextType := .RECV }.alignBuffer
  let wsaBuf : WsaBuf := ⟨context.mWritePos, uint32OfInt context.getRemainSize⟩
  ({ c with mReceiveContext := context }, if wsaRecv then some wsaBuf else none)

/-- The end of `Send`: the `WSASend` of the unread bytes of `mSendContext`. -/
def submit (c : NetworkClient) (wsaSend : Bool) : SendResult :=
  let context := { c.mSendContext with mContextType := .SEND, mSessionID := c.mSessionID }
  let wsaBuf : WsaBuf := ⟨context.mReadPos, uint32OfInt context.getDataSize⟩
  { client := { c with mSendContext := context }
    submitted := if wsaSend then some ⟨wsaBuf, context.unread⟩ else none
    returned := wsaSend }

def send (c : NetworkClient) (wsaSend : Bool) : SendResult :=
  if c.mSendContext.getDataSize = 0 then
    match c.mSendQueue with
    | [] => { client := c, returned := true }
    | packet :: queue =>
      let rawPacket := setPacket packet
      match c.mSendContext.write (rawPacket.memory.slice 0 rawPacket.getPacketSize) with
      | (context, false) => { client := { c with mSendContext := context }, returned := false }
      | (context, true) =>
        { c with mSendContext := context, mSendQueue := queue, sending := some packet }.submit
          wsaSend
  else c.submit wsaSend

/-- The start of `_HandleSend`: its `context.Read(transferred)`. -/
def handleSendRead (c : NetworkClient) (transferred : ℕ) : Option NetworkClient :=
  (c.mSendContext.read transferred).map fun context => { c with mSendContext := context }

/-- The end of `_HandleSend`, which sends the rest of a packet or releases `mSending`. -/
def handleSendFinish (c : NetworkClient) (wsaSend : Bool) : SendResult :=
  if 0 < c.mSendContext.getDataSize then c.send wsaSend
  else { client := { c with mSending := false }, returned := true }

def handleSend (c : NetworkClient) (transferred : ℕ) (wsaSend : Bool) : SendResult :=
  match c.handleSendRead transferred with
  | none => { client := c, returned := true }
  | some c => c.handleSendFinish wsaSend

end NetworkClient

/-- The bytes of a packet on the wire: the header and the first `BodyLength` bytes of the body. -/
def Packet.encode (p : Packet) : List UInt8 :=
  ({ BodyLength := p.BodyLength, PacketID := p.PacketID, SessionID := p.SessionID } :
    PacketHeader).bytes ++ p.body

@[simp] theorem Packet.length_body (p : Packet) : p.body.length = p.BodyLength.toNat := by
  simp [Packet.body]

@[simp] theorem Packet.length_encode (p : Packet) :
    p.encode.length = headerSize + p.BodyLength.toNat := by
  simp [Packet.encode]

theorem Packet.encode_ne_nil (p : Packet) : p.encode ≠ [] := by
  rw [← List.length_pos_iff, Packet.length_encode]
  unfold headerSize
  omega

theorem NetworkClient.setPacket_slice (p : Packet) :
    (setPacket p).memory.slice 0 (setPacket p).getPacketSize = p.encode := by
  rw [NetworkPacket.getPacketSize, NetworkPacket.memory_slice]
  rw [show (setPacket p).getBodySize = p.body.length by
    rw [Packet.length_body]
    rfl]
  simp only [setPacket, Memory.slice_write_self]
  rfl

/-! ### `Send` -/

namespace NetworkClient

variable {c : NetworkClient} {packet : Packet} {queue : List Packet}

theorem dataSize_eq_zero_iff (h : c.mSendContext.Ordered) :
    c.mSendContext.getDataSize = 0 ↔ c.mSendContext.unread = [] := by
  have hr := h.readPos_le
  rw [NetworkContext.unread_eq_nil_iff]
  unfold NetworkContext.getDataSize
  omega

theorem readPos_eq_writePos (h : c.mSendContext.Ordered) (hempty : c.mSendContext.unread = []) :
    c.mSendContext.mReadPos = c.mSendContext.mWritePos := by
  have hr := h.readPos_le
  rw [NetworkContext.unread_eq_nil_iff] at hempty
  omega

theorem send_of_unread (wsaSend : Bool) (h : c.mSendContext.Ordered)
    (hunread : c.mSendContext.unread ≠ []) : c.send wsaSend = c.submit wsaSend := by
  rw [send, if_neg (mt (dataSize_eq_zero_iff h).mp hunread)]

theorem send_of_idle (wsaSend : Bool) (h : c.mSendContext.Ordered)
    (hunread : c.mSendContext.unread = []) (hqueue : c.mSendQueue = []) :
    c.send wsaSend = { client := c, returned := true } := by
  rw [send, if_pos ((dataSize_eq_zero_iff h).mpr hunread), hqueue]

/-- `Send` with nothing left writes the packet at the front of the queue and submits it, if the
packet fits. -/
theorem send_of_queue (wsaSend : Bool) (h : c.mSendContext.Ordered)
    (hunread : c.mSendContext.unread = []) (hqueue : c.mSendQueue = packet :: queue)
    (hfit : headerSize + packet.BodyLength.toNat ≤ bufferSize) :
    ∃ context : NetworkContext, context.Ordered ∧ context.unread = packet.encode ∧
      c.send wsaSend =
        { c with mSendContext := context, mSendQueue := queue, sending := some packet }.submit
          wsaSend := by
  obtain ⟨hwrite, -⟩ := NetworkContext.write_of_read packet.encode h
    (readPos_eq_writePos h hunread)
  obtain ⟨hok, hord, hbytes⟩ := hwrite (by rw [Packet.length_encode]; exact hfit)
  refine ⟨(c.mSendContext.write packet.encode).1, hord, hbytes, ?_⟩
  rw [send, if_pos ((dataSize_eq_zero_iff h).mpr hunread), hqueue]
  simp only [setPacket_slice]
  rw [← Prod.mk.eta (p := c.mSendContext.write packet.encode), hok]

/-- `Send` with nothing left fails where the packet at the front of the queue is too long, and
leaves it there. -/
theorem send_of_long (wsaSend : Bool) (h : c.mSendContext.Ordered)
    (hunread : c.mSendContext.unread = []) (hqueue : c.mSendQueue = packet :: queue)
    (hlong : bufferSize < headerSize + packet.BodyLength.toNat) :
    ∃ context : NetworkContext, context.Ordered ∧ context.unread = [] ∧
      c.send wsaSend =
        { client := { c with mSendContext := context }, submitted := none, returned := false } := by
  obtain ⟨-, hwrite⟩ := NetworkContext.write_of_read packet.encode h
    (readPos_eq_writePos h hunread)
  obtain ⟨hfail, hord, hbytes⟩ := hwrite (by rw [Packet.length_encode]; exact hlong)
  refine ⟨(c.mSendContext.write packet.encode).1, hord, hbytes, ?_⟩
  rw [send, if_pos ((dataSize_eq_zero_iff h).mpr hunread), hqueue]
  simp only [setPacket_slice]
  rw [← Prod.mk.eta (p := c.mSendContext.write packet.encode), hfail]

theorem submit_submitted (wsaSend : Bool) (h : c.mSendContext.Ordered) :
    (c.submit wsaSend).submitted = if wsaSend then
      some ⟨⟨c.mSendContext.mReadPos, c.mSendContext.unread.length⟩, c.mSendContext.unread⟩
    else none := by
  have hr := h.readPos_le
  have hw := h.writePos_le
  have hdata : c.mSendContext.getDataSize = (c.mSendContext.unread.length : ℤ) := by
    rw [NetworkContext.length_unread]
    unfold NetworkContext.getDataSize
    omega
  have hlen : uint32OfInt c.mSendContext.getDataSize = c.mSendContext.unread.length := by
    rw [hdata, uint32OfInt_natCast]
    rw [NetworkContext.length_unread]
    simp only [bufferSize] at hw
    omega
  rw [← hlen]
  rfl

end NetworkClient

end IocpStudy.StudyServer
