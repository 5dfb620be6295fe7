import IocpStudy.OneSend

/-! `NetworkClient`: the socket of one client index and the operations outstanding on it.  A client
has one `stOverlappedEx` and one buffer for its receives, whatever their number is.  The outcome of
a call of the operating system is an argument: `true` where the call succeeds. -/

namespace IocpStudy.Iocpsolution

/-- `MAX_SOCK_RECVBUF`. -/
def maxSockRecvbuf : ℕ := 256

/-- `REUSE_SESSION_WAIT_TIME_SEC`. -/
def reuseSessionWaitTimeSec : ℕ := 3

/-- The latest closed time of a client that is in use, `UINT32_MAX`. -/
def noClosedTime : ℕ := 4294967295

/-- A socket, named by the order of creation. -/
abbrev Socket := ℕ

inductive IOOperation
  | ACCEPT
  | SEND
  | RECV
deriving Repr, DecidableEq

/-- `mSendQueue` is the queue in `sends`, with the sends outstanding.  `accepts` and `recvs` are the
numbers of `AcceptEx` and of `WSARecv` calls outstanding on `mAcceptContext` and on
`mRecvOverlappedEx`, and `recvCalls` records the socket of every call of `WSARecv`, whether it was
accepted or not. -/
structure NetworkClient where
  mIsConnect : Bool := false
  mLatestClosedTimeSec : ℕ := 0
  mSocket : Option Socket := none
  sends : OneSend.State := {}
  accepts : ℕ := 0
  recvs : ℕ := 0
  recvCalls : List (Option Socket) := []

namespace NetworkClient

def isConnected (c : NetworkClient) : Bool := c.mSocket.isSome

/-- The outcome of an I/O call on the client's socket, which is refused without one. -/
def allows (c : NetworkClient) (outcome : Bool) : Bool := outcome && c.mSocket.isSome

def close (c : NetworkClient) (now : ℕ) : NetworkClient :=
  { c with mIsConnect := false, mLatestClosedTimeSec := now, mSocket := none }

def bindRecv (c : NetworkClient) (wsaRecv : Bool) : NetworkClient × Bool :=
  ({ c with
    recvs := if c.allows wsaRecv then c.recvs + 1 else c.recvs
    recvCalls := c.recvCalls ++ [c.mSocket] }, c.allows wsaRecv)

/-- `OnConnect`.  `CreateIoCompletionPort` returns a null handle where it fails, so the check of
`BindIOCompletionPort` finds no failure. -/
def onConnect (c : NetworkClient) (socket_ : Option Socket) (wsaRecv : Bool) :
    NetworkClient × Bool :=
  { c with mSocket := socket_, mIsConnect := true }.bindRecv wsaRecv

def acceptCompletion (c : NetworkClient) (wsaRecv : Bool) : NetworkClient × Bool :=
  c.onConnect c.mSocket wsaRecv

/-- `PostAccept`, where `wsaSocket` is what `WSASocket` returned. -/
def postAccept (c : NetworkClient) (wsaSocket : Option Socket) (acceptEx : Bool) :
    NetworkClient :=
  let c := { c with mLatestClosedTimeSec := noClosedTime, mSocket := wsaSocket }
  if c.allows acceptEx then { c with accepts := c.accepts + 1 } else c

/-- `SendMsg`, whose lock section may call `WSASend`. -/
def sendMsg (c : NetworkClient) (pMsg : List UInt8) (wsaSend : Bool) : NetworkClient :=
  { c with sends := (OneSend.step c.sends (.sendMsg pMsg (c.allows wsaSend))).getD c.sends }

/-- `SendCompleted`, which is undefined on an empty queue. -/
def sendCompleted (c : NetworkClient) (wsaSend : Bool) : Option NetworkClient :=
  (OneSend.sendCompleted c.sends.mSendQueue).map fun section_ =>
    { c with sends := c.sends.left section_ (c.allows wsaSend) }

/-- The client when one of its outstanding operations is dequeued; of the sends, number `i`. -/
def dequeued (c : NetworkClient) (operation : IOOperation) (i : ℕ) : Option NetworkClient :=
  match operation with
  | .ACCEPT => if c.accepts = 0 then none else some { c with accepts := c.accepts - 1 }
  | .RECV => if c.recvs = 0 then none else some { c with recvs := c.recvs - 1 }
  | .SEND =>
    if i < c.sends.outstanding.length then
      some { c with sends := { c.sends with outstanding := c.sends.outstanding.eraseIdx i } }
    else none

variable {c : NetworkClient} {ok : Bool}

theorem bindRecv_recvs : (c.bindRecv ok).1.recvs = c.recvs + (c.allows ok).toNat := by
  rw [bindRecv]
  cases c.allows ok <;> rfl

theorem bindRecv_recvCalls : (c.bindRecv ok).1.recvCalls = c.recvCalls ++ [c.mSocket] := rfl

end NetworkClient

end IocpStudy.Iocpsolution
