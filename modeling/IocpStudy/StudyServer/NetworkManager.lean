import Mathlib.Logic.Function.Basic
import IocpStudy.StudyServer.NetworkDispatcher
import IocpStudy.StudyServer.Receive

/-! `NetworkManager` and `Service`: the client list whose indices are the session IDs, the pool that
client objects are reused through, and the handlers of the completions, as a machine over all
connections.  A handler runs as one step.  Objects are named by the order of their creation, and the
sockets of connections by the order in which they were accepted. -/

namespace IocpStudy.StudyServer

open Words

/-- A `NetworkClient` object. -/
abbrev ClientRef := ℕ

/-- `REUSE_SESSION_TIME`, in seconds. -/
def reuseSessionTime : ℕ := 3

/-- `ServiceProtocol::ECHO`. -/
def echoID : UInt32 := 1

/-- `Service::Echo`: the arguments of its call of `mSendFunction`. -/
def Service.echo (packet : Packet) : ℤ × Packet :=
  let response : Packet :=
    { PacketID := echoID
      BodyLength := packet.BodyLength
      SessionID := packet.SessionID
      Body := Memory.write (fun _ => 0) 0 packet.body
      receivedOn := packet.receivedOn }
  (intOfUInt32 packet.SessionID, response)

/-- `Service::ProcessPacket`: the call of `mSendFunction` that the handler of the packet makes. -/
def Service.processPacket (packet : Packet) : Option (ℤ × Packet) :=
  if packet.PacketID = echoID then some (Service.echo packet) else none

/-- An outstanding `WSARecv` of a client object on a connection; `transferred` is the size of its
completion once the operating system has stored the bytes. -/
structure PendingRecv where
  client : ClientRef
  socket : Option Socket
  wsaBuf : WsaBuf
  transferred : Option ℕ := none
deriving Repr, DecidableEq

/-- An outstanding `WSASend` of a client object. -/
structure PendingSend where
  client : ClientRef
  wsaBuf : WsaBuf
deriving Repr, DecidableEq

/-- An accepted `WSASend`: the socket it was made on, the packet that the client was sending, and
the bytes. -/
structure Transmission where
  socket : Option Socket
  packet : Option Packet
  bytes : List UInt8

/-- The members of the source, the client objects with the number created so far, and the state of
the sockets: the number accepted so far, whether the listener's `AcceptEx` is outstanding (for the
next one), the outstanding receives and sends, and the sockets closed.  `sessions` and
`transmissions` record the session ID given to each connection and the `WSASend` calls accepted. -/
structure NetworkManager where
  mClientList : List (Option ClientRef) := []
  mClientPool : List ClientRef := []
  mPacketPool : MemoryPool Packet := ⟨[]⟩
  dispatcher : NetworkDispatcher Packet := {}
  clients : ClientRef → NetworkClient := fun _ => .new
  created : ℕ := 0
  accepted : ℕ := 0
  accepting : Bool := true
  recvs : List PendingRecv := []
  sends : List PendingSend := []
  closed : List Socket := []
  sessions : List (Socket × UInt32) := []
  transmissions : List Transmission := []

/-- `posted` is the outcome of `PostAccept`; `now` is the time in seconds.  `arrive i bytes` stores
the bytes of the outstanding receive number `i`, whose completion `received i` handles.  A
completion that fails, or has no bytes, goes to `RemoveClient`. -/
inductive NetworkEvent
  | accept (now : ℕ) (accepted wsaRecv posted : Bool)
  | acceptFailed (now : ℕ)
  | arrive (i : ℕ) (bytes : List UInt8)
  | received (i : ℕ) (wsaRecv : Bool)
  | receiveFailed (i now : ℕ)
  | sent (i n : ℕ) (wsaSend : Bool)
  | sendFailed (i now : ℕ)
  | swap
  | process (wsaSend : Bool)

namespace NetworkManager

def setClient (m : NetworkManager) (o : ClientRef) (client : NetworkClient) : NetworkManager :=
  { m with clients := Function.update m.clients o client }

def releasePackets (m : NetworkManager) (packets : List Packet) : NetworkManager :=
  { m with mPacketPool := packets.foldl MemoryPool.release m.mPacketPool }

/-- The outcome of an I/O call on the client's socket, which is refused without one. -/
def allows (m : NetworkManager) (o : ClientRef) (outcome : Bool) : Bool :=
  outcome && (m.clients o).mSocket.isSome

/-- The manager when the object `o` has made a call of `Send` with this result. -/
def called (m : NetworkManager) (o : ClientRef) (result : SendResult) : NetworkManager :=
  let client := m.clients o
  let taken := client.mSendQueue.length - result.client.mSendQueue.length
  let m := m.releasePackets (client.mSendQueue.take taken)
  { m.setClient o result.client with
    sends := m.sends ++ result.submitted.toList.map fun sub => ⟨o, sub.wsaBuf⟩
    transmissions := m.transmissions ++ result.submitted.toList.map fun sub =>
      ⟨client.mSocket, result.client.sending, sub.bytes⟩ }

def pushSendPacket (m : NetworkManager) (sessionID : ℤ) (packet : Packet) (wsaSend : Bool) :
    NetworkManager :=
  if sessionID < 0 ∨ m.mClientList.length ≤ sizeTOfInt sessionID then m.releasePackets [packet]
  else
    match m.mClientList[sizeTOfInt sessionID]? with
    | some (some o) =>
      let client := m.clients o
      if client.mIsConnected = false then m.releasePackets [packet]
      else
        let client := client.enqueuePacket packet
        if client.mSending then m.setClient o client
        else
          let client := { client with mSending := true }
          (m.setClient o client).called o (client.send (m.allows o wsaSend))
    | _ => m.releasePackets [packet]

/-- The function that `RegisterService` gives to the service as its `mSendFunction`. -/
def sendFunction (m : NetworkManager) (sessionID : ℤ) (packet : Packet) (wsaSend : Bool) :
    NetworkManager :=
  { m with mPacketPool := (m.mPacketPool.acquire {}).2 }.pushSendPacket sessionID packet wsaSend

/-- The object that `_HandleAccept` reuses at the time `now`.  The difference to the close time is
taken in `uint64_t`. -/
def reused (m : NetworkManager) (now : ℕ) : Option ClientRef :=
  match m.mClientPool with
  | [] => none
  | o :: _ =>
    if reuseSessionTime < (now + (2 ^ 64 - (m.clients o).mLastCloseTimeInSeconds)) % 2 ^ 64 then
      none
    else some o

/-- The object that `_HandleAccept` serves the connection with: the one it reuses, which leaves the
pool, or a new one, where the one it took from the pool goes back to its end. -/
def takeClient (m : NetworkManager) (now : ℕ) : ClientRef × NetworkManager :=
  match m.reused now with
  | some o => (o, { m with mClientPool := m.mClientPool.tail })
  | none =>
    (m.created, { m.setClient m.created .new with
      mClientPool := m.mClientPool.tail ++ m.mClientPool.head?.toList
      created := m.created + 1 })

/-- `AddClient`.  `CreateIoCompletionPort` returns a null handle where it fails, so its check finds
no failure. -/
def addClient (m : NetworkManager) (o : ClientRef) (wsaRecv : Bool) : NetworkManager × Bool :=
  let (client, posted) := (m.clients o).receive (m.allows o wsaRecv)
  let m := m.setClient o client
  match posted with
  | none => (m, false)
  | some wsaBuf =>
    let m := { m with recvs := m.recvs ++ [⟨o, client.mSocket, wsaBuf, none⟩] }
    if 0 < client.mSessionID.toNat ∧ client.mSessionID.toNat < m.mClientList.length then
      if m.mClientList[client.mSessionID.toNat]? = some none then
        ({ m with mClientList := m.mClientList.set client.mSessionID.toNat (some o) }, true)
      else (m, true)
    else
      let sessionID := UInt32.ofNat m.mClientList.length
      ({ m.setClient o { client with mSessionID := sessionID } with
        mClientList := m.mClientList ++ [some o]
        sessions := m.sessions ++ client.mSocket.toList.map fun socket => (socket, sessionID) },
        true)

/-- `_HandleAccept`, with the outcomes of `Accept`, of the first `WSARecv` and of `PostAccept`. -/
def handleAccept (m : NetworkManager) (now : ℕ) (accepted wsaRecv posted : Bool) :
    NetworkManager :=
  let clientSocket := m.accepted
  let m := { m with accepted := m.accepted + 1, accepting := false }
  if accepted = false then m
  else
    let (o, m) := m.takeClient now
    let client := { (m.clients o).reset.init with mSocket := some clientSocket }
    let (m, added) := (m.setClient o client).addClient o wsaRecv
    if added then { m with accepting := posted } else m

/-- `RemoveClient` for a client whose session ID is `sessionID`. -/
def removeClient (m : NetworkManager) (sessionID : UInt32) (now : ℕ) : NetworkManager :=
  if m.mClientList.length ≤ sessionID.toNat then m
  else
    match m.mClientList[sessionID.toNat]? with
    | some (some o) =>
      { m.setClient o ((m.clients o).close now).reset with
        mClientPool := m.mClientPool ++ [o]
        closed := m.closed ++ (m.clients o).mSocket.toList }
    | _ => m

/-- `_HandleReceive` for the completion of `recv` with `transferred` bytes. -/
def handleReceived (m : NetworkManager) (recv : PendingRecv) (transferred : ℕ) (wsaRecv : Bool) :
    NetworkManager :=
  let o := recv.client
  let result := handleReceive (m.clients o) m.mPacketPool true transferred (m.allows o wsaRecv)
    recv.socket
  { m.setClient o result.client with
    mPacketPool := result.packetPool
    dispatcher := result.pushed.toList.foldl NetworkDispatcher.pushPacket m.dispatcher
    recvs := m.recvs ++ result.posted.toList.map fun wsaBuf =>
      ⟨o, (m.clients o).mSocket, wsaBuf, none⟩ }

/-- The packet given to `ProcessPacket` and returned to the pool behind it. -/
def processed (m : NetworkManager) (packet : Packet) (wsaSend : Bool) : NetworkManager :=
  match Service.processPacket packet with
  | none => m.releasePackets [packet]
  | some (sessionID, response) =>
    (m.sendFunction sessionID response wsaSend).releasePackets [packet]

/-- The packets in the dispatcher's queues. -/
def waiting (m : NetworkManager) : List Packet :=
  m.dispatcher.mPacketQueue ++ m.dispatcher.mWorkQueue

end NetworkManager

def networkStep (m : NetworkManager) : NetworkEvent → Option NetworkManager
  | .accept now accepted wsaRecv posted =>
    if m.accepting then some (m.handleAccept now accepted wsaRecv posted) else none
  | .acceptFailed now =>
    -- The key of the completion is the listener, whose session ID is 0.
    if m.accepting then some ({ m with accepting := false }.removeClient 0 now) else none
  | .arrive i bytes =>
    match m.recvs[i]? with
    | none => none
    | some recv =>
      if recv.transferred.isSome ∨ (∃ socket ∈ recv.socket, socket ∈ m.closed) ∨ bytes = [] ∨
          recv.wsaBuf.len < bytes.length then none
      else
        some { m.setClient recv.client ((m.clients recv.client).deliver recv.wsaBuf bytes) with
          recvs := m.recvs.set i { recv with transferred := some bytes.length } }
  | .received i wsaRecv =>
    match m.recvs[i]? with
    | none => none
    | some recv =>
      recv.transferred.map fun transferred =>
        { m with recvs := m.recvs.eraseIdx i }.handleReceived recv transferred wsaRecv
  | .receiveFailed i now =>
    match m.recvs[i]? with
    | none => none
    | some recv =>
      if recv.transferred.isSome then none
      else
        some ({ m with recvs := m.recvs.eraseIdx i }.removeClient
          (m.clients recv.client).mSessionID now)
  | .sent i n wsaSend =>
    match m.sends[i]? with
    | none => none
    | some send =>
      if n = 0 ∨ send.wsaBuf.len < n then none
      else
        let o := send.client
        some ({ m with sends := m.sends.eraseIdx i }.called o
          ((m.clients o).handleSend n (m.allows o wsaSend)))
  | .sendFailed i now =>
    match m.sends[i]? with
    | none => none
    | some send =>
      some ({ m with sends := m.sends.eraseIdx i }.removeClient
        (m.clients send.client).mSessionID now)
  | .swap =>
    match m.dispatcher.i with
    | none => some { m with dispatcher := m.dispatcher.swapQueues }
    | some _ => none
  | .process wsaSend =>
    match m.dispatcher.i with
    | none => none
    | some i =>
      let (dispatcher, packet) := m.dispatcher.processNext i
      let m := { m with dispatcher }
      match packet with
      | none => some m
      | some packet => some (m.processed packet wsaSend)

/-! ### What a step can do -/

namespace NetworkManager

/-- The steps, each with what it finds.  `finished` is the end of a pass over the work queue. -/
inductive Steps (m : NetworkManager) : NetworkEvent → NetworkManager → Prop
  | accept (now : ℕ) (accepted wsaRecv posted : Bool) (h : m.accepting = true) :
      m.Steps (.accept now accepted wsaRecv posted) (m.handleAccept now accepted wsaRecv posted)
  | acceptFailed (now : ℕ) (h : m.accepting = true) :
      m.Steps (.acceptFailed now) (removeClient { m with accepting := false } 0 now)
  | arrive {i : ℕ} {recv : PendingRecv} (bytes : List UInt8) (hget : m.recvs[i]? = some recv)
      (h : ¬ (recv.transferred.isSome ∨ (∃ socket ∈ recv.socket, socket ∈ m.closed) ∨ bytes = [] ∨
        recv.wsaBuf.len < bytes.length)) :
      m.Steps (.arrive i bytes)
        { m.setClient recv.client ((m.clients recv.client).deliver recv.wsaBuf bytes) with
          recvs := m.recvs.set i { recv with transferred := some bytes.length } }
  | received {i n : ℕ} {recv : PendingRecv} (wsaRecv : Bool) (hget : m.recvs[i]? = some recv)
      (h : recv.transferred = some n) :
      m.Steps (.received i wsaRecv)
        (handleReceived { m with recvs := m.recvs.eraseIdx i } recv n wsaRecv)
  | receiveFailed {i : ℕ} {recv : PendingRecv} (now : ℕ) (hget : m.recvs[i]? = some recv)
      (h : ¬ recv.transferred.isSome) :
      m.Steps (.receiveFailed i now)
        (removeClient { m with recvs := m.recvs.eraseIdx i } (m.clients recv.client).mSessionID now)
  | sent {i n : ℕ} {send : PendingSend} (wsaSend : Bool) (hget : m.sends[i]? = some send)
      (h : ¬ (n = 0 ∨ send.wsaBuf.len < n)) :
      m.Steps (.sent i n wsaSend)
        (called { m with sends := m.sends.eraseIdx i } send.client
          ((m.clients send.client).handleSend n (m.allows send.client wsaSend)))
  | sendFailed {i : ℕ} {send : PendingSend} (now : ℕ) (hget : m.sends[i]? = some send) :
      m.Steps (.sendFailed i now)
        (removeClient { m with sends := m.sends.eraseIdx i } (m.clients send.client).mSessionID now)
  | swap (h : m.dispatcher.i = none) :
      m.Steps .swap { m with dispatcher := m.dispatcher.swapQueues }
  | finished {i : ℕ} (wsaSend : Bool) (h : m.dispatcher.i = some i)
      (hpacket : (m.dispatcher.processNext i).2 = none) :
      m.Steps (.process wsaSend) { m with dispatcher := (m.dispatcher.processNext i).1 }
  | process {i : ℕ} {packet : Packet} (wsaSend : Bool) (h : m.dispatcher.i = some i)
      (hpacket : (m.dispatcher.processNext i).2 = some packet) :
      m.Steps (.process wsaSend)
        (processed { m with dispatcher := (m.dispatcher.processNext i).1 } packet wsaSend)

variable {m t : NetworkManager} {e : NetworkEvent}

theorem steps_of_networkStep (h : networkStep m e = some t) : m.Steps e t := by
  cases e with
  | accept now accepted wsaRecv posted =>
    simp only [networkStep] at h
    split_ifs at h with haccepting
    obtain rfl := Option.some.inj h
    exact .accept now accepted wsaRecv posted haccepting
  | acceptFailed now =>
    simp only [networkStep] at h
    split_ifs at h with haccepting
    obtain rfl := Option.some.inj h
    exact .acceptFailed now haccepting
  | arrive i bytes =>
    simp only [networkStep] at h
    cases hget : m.recvs[i]? with
    | none => simp [hget] at h
    | some recv =>
      simp only [hget] at h
      split_ifs at h with harrives
      obtain rfl := Option.some.inj h
      exact .arrive bytes hget harrives
  | received i wsaRecv =>
    simp only [networkStep] at h
    cases hget : m.recvs[i]? with
    | none => simp [hget] at h
    | some recv =>
      simp only [hget, Option.map_eq_some_iff] at h
      obtain ⟨n, hn, rfl⟩ := h
      exact .received wsaRecv hget hn
  | receiveFailed i now =>
    simp only [networkStep] at h
    cases hget : m.recvs[i]? with
    | none => simp [hget] at h
    | some recv =>
      simp only [hget] at h
      split_ifs at h with hwaits
      obtain rfl := Option.some.inj h
      exact .receiveFailed now hget hwaits
  | sent i n wsaSend =>
    simp only [networkStep] at h
    cases hget : m.sends[i]? with
    | none => simp [hget] at h
    | some send =>
      simp only [hget] at h
      split_ifs at h with hsize
      obtain rfl := Option.some.inj h
      exact .sent wsaSend hget hsize
  | sendFailed i now =>
    simp only [networkStep] at h
    cases hget : m.sends[i]? with
    | none => simp [hget] at h
    | some send =>
      simp only [hget] at h
      obtain rfl := Option.some.inj h
      exact .sendFailed now hget
  | swap =>
    simp only [networkStep] at h
    cases hi : m.dispatcher.i with
    | some i => simp [hi] at h
    | none =>
      simp only [hi] at h
      obtain rfl := Option.some.inj h
      exact .swap hi
  | process wsaSend =>
    simp only [networkStep] at h
    cases hi : m.dispatcher.i with
    | none => simp [hi] at h
    | some i =>
      simp only [hi] at h
      cases hpacket : (m.dispatcher.processNext i).2 with
      | none =>
        simp only [hpacket] at h
        obtain rfl := Option.some.inj h
        exact .finished wsaSend hi hpacket
      | some packet =>
        simp only [hpacket] at h
        obtain rfl := Option.some.inj h
        exact .process wsaSend hi hpacket

theorem Steps.networkStep (h : m.Steps e t) : networkStep m e = some t := by
  cases h with
  | accept now accepted wsaRecv posted h => exact if_pos h
  | acceptFailed now h => exact if_pos h
  | arrive bytes hget h => simp only [StudyServer.networkStep, hget, if_neg h]
  | received wsaRecv hget h => simp only [StudyServer.networkStep, hget, h, Option.map_some]
  | receiveFailed now hget h => simp only [StudyServer.networkStep, hget, if_neg h]
  | sent wsaSend hget h => simp only [StudyServer.networkStep, hget, if_neg h]
  | sendFailed now hget => simp only [StudyServer.networkStep, hget]
  | swap h => simp only [StudyServer.networkStep, h]
  | finished wsaSend h hpacket => simp only [StudyServer.networkStep, h, hpacket]
  | process wsaSend h hpacket => simp only [StudyServer.networkStep, h, hpacket]

end NetworkManager

end IocpStudy.StudyServer
