import IocpStudy.ChatServer.NetworkClient
import IocpStudy.ChatServer.PacketManager

/-! ChatServer's `IOCPServer` with the handlers of `ChatServer`: the slots of the client list, the
outstanding calls of `WSARecv`, the worker threads between a completion and its handling, and the
process thread.  Each byte is followed from the socket it is received on through the receive buffer
of the slot and the packet buffer of the user.  The send side of the slots is left out. -/

namespace IocpStudy.ChatServer

/-- The connection of the slot `clientIndex` on `socket`. -/
structure Connection where
  clientIndex : ℕ
  socket : Socket
deriving Repr, DecidableEq

/-- The packet that `ChatServer::OnConnect` queues. -/
def Connection.connectPacket (c : Connection) : PacketInfo :=
  { ClientIndex := c.clientIndex, PacketID := sysUserConnect, DataSize := 0 }

/-- The server.  An origin is the socket that a byte was received on, and `midIteration` says that
the process thread is between the two halves of an iteration.  `connecting` are the accepted
connections whose worker thread has still to call `OnConnect`, `receiving` the outstanding `WSARecv`
calls and `completions` the completed ones that no worker thread has handled, with their sizes.
`received` and `connects` are the connections of the entries in the index queue and in the system
queue, and `dequeued` and `discarded` the origins of the frames returned by `DequeuePacket` and of
the unread bytes that a connect event discarded, for each entry taken from these queues. -/
structure ServerState where
  clients : ℕ → NetworkClient := fun _ => {}
  mPacketManager : PacketManager
  mRecvBuf : ℕ → Memory (UInt8 × Option Socket)
  origins : ℕ → Memory (Option Socket) := fun _ _ => none
  sockets : ℕ := 0
  midIteration : Bool := false
  connecting : List Connection := []
  receiving : List Connection := []
  completions : List (Connection × ℕ) := []
  received : List Connection := []
  connects : List Connection := []
  dequeued : List (Connection × List (Option Socket)) := []
  discarded : List (Connection × List (Option Socket)) := []

/-- The steps of the server.  `acceptCompletion` is the completion of the `AcceptEx` that the
acceptor thread called at `curTimeSec`; `recvCompletes` is the arrival of `data` on an open socket,
which `onReceive` handles later; `recvFails` is a receive that fails or has no bytes, and
`closeSocket` any other failed completion.  A number is a position in the list that the step takes
from, and `bindRecv` is the outcome of the `WSARecv` that the step calls. -/
inductive ServerEvent
  | acceptCompletion (clientIndex curTimeSec : ℕ) (bindRecv : Bool) (now : ℕ)
  | onConnect (n : ℕ)
  | recvCompletes (n : ℕ) (data : List UInt8)
  | onReceive (n : ℕ) (bindRecv : Bool)
  | recvFails (n now : ℕ)
  | closeSocket (clientIndex now : ℕ)
  | processUserPacket
  | processSystemPacket
deriving Repr, DecidableEq

namespace ServerState

def user (s : ServerState) (clientIndex : ℕ) : User := s.mPacketManager.user clientIndex

/-- `IOCPServer::CloseSocket`, which does not call `OnClose`. -/
def closeSocket (s : ServerState) (clientIndex now : ℕ) : ServerState :=
  { s with clients :=
      Function.update s.clients clientIndex ((s.clients clientIndex).closeSocket now) }

/-- `PostAccept` on a new socket, and `AcceptCompletion` when its `AcceptEx` is done. -/
def accept (s : ServerState) (clientIndex : ℕ) (bindRecv : Bool) (now : ℕ) : ServerState :=
  let (posted, _) := (s.clients clientIndex).postAccept (some s.sockets) true
  let (client, connected) := posted.acceptCompletion bindRecv
  let s := { s with
    clients := Function.update s.clients clientIndex client
    sockets := s.sockets + 1
    receiving := s.receiving ++ if bindRecv then [⟨clientIndex, s.sockets⟩] else []
    connecting := s.connecting ++ if connected then [⟨clientIndex, s.sockets⟩] else [] }
  if connected then s else s.closeSocket clientIndex now

/-- `ChatServer::OnConnect`. -/
def onConnect (s : ServerState) (c : Connection) : ServerState :=
  { s with
    mPacketManager := s.mPacketManager.enqueueSystemPacket c.connectPacket
    connects := s.connects ++ [c] }

/-- The first `size` bytes of the slot's receive buffer, with their origins. -/
def recvBuffer (s : ServerState) (clientIndex size : ℕ) : List (UInt8 × Option Socket) :=
  (s.mRecvBuf clientIndex).slice 0 size

/-- `ChatServer::OnReceive` for `size` bytes in the receive buffer. -/
def onReceive (s : ServerState) (c : Connection) (size : ℕ) : ServerState :=
  let data := s.recvBuffer c.clientIndex size
  { s with
    mPacketManager := s.mPacketManager.receivePacket c.clientIndex (data.map Prod.fst)
    origins := Function.update s.origins c.clientIndex
      ((s.user c.clientIndex).placeIn (s.origins c.clientIndex) (data.map Prod.snd))
    received := s.received ++ [c] }

/-- `BindRecv` on the socket that the slot has now. -/
def bindRecv (s : ServerState) (clientIndex : ℕ) (wsaRecv : Bool) : ServerState :=
  match (s.clients clientIndex).mSocket with
  | some socket =>
    if wsaRecv then { s with receiving := s.receiving ++ [⟨clientIndex, socket⟩] } else s
  | none => s

/-- The origins of the unread bytes of a user. -/
def unreadOrigins (s : ServerState) (clientIndex : ℕ) : List (Option Socket) :=
  (s.user clientIndex).unreadIn (s.origins clientIndex)

/-- The first half of an iteration of `ProcessPacket`, which begins with `DequeuePacket`. -/
def processUserPacket (s : ServerState) : ServerState :=
  let packet := s.mPacketManager.dequeuePacket.1
  { s with
    mPacketManager := s.mPacketManager.processUserPacket.1
    midIteration := true
    received := s.received.tail
    dequeued := s.dequeued ++ s.received.head?.toList.map fun c =>
      (c, User.packetIn packet (s.origins packet.ClientIndex)) }

/-- The second half. -/
def processSystemPacket (s : ServerState) : ServerState :=
  { s with
    mPacketManager := s.mPacketManager.processSystemPacket.1
    midIteration := false
    connects := s.connects.tail
    discarded := s.discarded ++ s.connects.head?.toList.map fun c =>
      (c, s.unreadOrigins c.clientIndex) }

/-- The server after `Init` and `StartServer`, where the buffers may hold anything. -/
def start (maxClient : ℤ) (buffers : ℕ → Memory UInt8)
    (mRecvBuf : ℕ → Memory (UInt8 × Option Socket)) : ServerState :=
  { mPacketManager := .start maxClient buffers, mRecvBuf }

end ServerState

def serverStep (s : ServerState) : ServerEvent → Option ServerState
  | .acceptCompletion clientIndex curTimeSec bindRecv now =>
    if clientIndex < s.mPacketManager.mUserManager.mMaxUserCount ∧
        (s.clients clientIndex).acceptable curTimeSec then
      some (s.accept clientIndex bindRecv now)
    else none
  | .onConnect n =>
    s.connecting[n]?.map fun c =>
      { s with connecting := s.connecting.eraseIdx n }.onConnect c
  | .recvCompletes n data =>
    match s.receiving[n]? with
    | none => none
    | some c =>
      if (s.clients c.clientIndex).mSocket ≠ some c.socket ∨ data = [] ∨
          maxSockRecvBuf < data.length then none
      else
        some { s with
          receiving := s.receiving.eraseIdx n
          mRecvBuf := Function.update s.mRecvBuf c.clientIndex
            ((s.mRecvBuf c.clientIndex).write 0 (data.map fun b => (b, some c.socket)))
          completions := s.completions ++ [(c, data.length)] }
  | .onReceive n bindRecv =>
    s.completions[n]?.map fun (c, size) =>
      ({ s with completions := s.completions.eraseIdx n }.onReceive c size).bindRecv
        c.clientIndex bindRecv
  | .recvFails n now =>
    s.receiving[n]?.map fun c =>
      { s with receiving := s.receiving.eraseIdx n }.closeSocket c.clientIndex now
  | .closeSocket clientIndex now => some (s.closeSocket clientIndex now)
  | .processUserPacket => if s.midIteration then none else some s.processUserPacket
  | .processSystemPacket => if s.midIteration then some s.processSystemPacket else none

end IocpStudy.ChatServer
