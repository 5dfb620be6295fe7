import Mathlib.Logic.Function.Basic
import IocpStudy.SBServer.Buffer

/-! `ClientSocket` and `IOCPHandler`: the pools of client and context indices, the steps of
`_AcceptThread` and the completions that `IOThread` handles, as a machine.  A pass of either
thread's loop is one step, and the outcomes of the calls of the operating system are arguments of
the events. -/

namespace IocpStudy.SBServer

open Words

/-- An accepted socket, by the order in which the sockets were accepted. -/
abbrev Socket := ℕ

/-- `MAX_PACKETS_PER_CLIENT`. -/
def maxPacketsPerClient : ℕ := 150

structure ClientSocket where
  mIndex : ℕ
  mSocket : Option Socket := none
  mIsConnected : Bool := false
  mReceiveCount : ℕ := 0
deriving Repr, DecidableEq

/-- A `WSABUF` into a context's buffer, with `buf` as an offset. -/
structure WsaBuf where
  buf : ℕ
  len : ℕ
deriving Repr, DecidableEq

namespace ClientSocket

def getSessionID (c : ClientSocket) : ℕ := c.mIndex

def close (c : ClientSocket) : ClientSocket := { c with mSocket := none }

/-- `OnConnect`, with the outcomes of `SetSocketNoDelay` and `SetSocketNonBlocking`. -/
def onConnect (c : ClientSocket) (noDelay nonBlocking : Bool) : ClientSocket × Bool :=
  if c.mSocket = none ∨ noDelay = false ∨ nonBlocking = false then (c, false)
  else ({ c with mIsConnected := true, mReceiveCount := 0 }, true)

/-- `OnReceive`.  `timer` is the result of `mReceiveTimer.Update()`, whose callback resets the count
of the object that the vector's element was copied from, and not this one. -/
def onReceive (c : ClientSocket) (timer : Bool) : ClientSocket × Bool :=
  if timer then (c, true)
  else
    let c := { c with mReceiveCount := c.mReceiveCount + 1 }
    (c, decide (c.mReceiveCount ≤ maxPacketsPerClient))

/-- `Receive`: the buffer of the `WSARecv` it posted, if that was accepted.  Without a socket it is
refused. -/
def receive (c : ClientSocket) (context : NetworkContext) (wsaRecv : Bool) : Option WsaBuf :=
  if wsaRecv && c.mSocket.isSome then
    some ⟨context.mBuffer.mWritePos, uint32OfInt context.mBuffer.getRemainSize⟩
  else none

end ClientSocket

/-! ### A receive completion -/

/-- What a call of `PushPacket` leaves: the packet it queued and the indices it gave back to their
pools. -/
structure PushResult where
  context : NetworkContext
  client : ClientSocket
  pushed : Option Packet := none
  releasedContexts : List ℕ := []
  releasedClients : List ℕ := []

/-- The buffer holds a whole packet at its read position. -/
def Buffer.holdsPacket (b : Buffer) : Bool :=
  headerSize ≤ sizeTOfInt b.getDataSize &&
    b.rawPacket.mHeader.mBodySize.toNat + headerSize ≤ sizeTOfInt b.getDataSize

/-- `PushPacket`, which has no result where the copy of the body is undefined. -/
def pushPacket (memory : Memory (Option UInt8)) (context : NetworkContext) (client : ClientSocket)
    (timer : Bool) : Option PushResult :=
  if context.mBuffer.holdsPacket = false then some { context, client }
  else
    let rawPacket := context.mBuffer.rawPacket
    match client.onReceive timer with
    | (client, false) =>
      some
        { context := context.reset
          client := client.close
          releasedContexts := [context.Index]
          releasedClients := [client.getSessionID] }
    | (client, true) =>
      (copyBody memory rawPacket.mBody rawPacket.mHeader.mBodySize.toNat).map fun bytes =>
        { context, client,
          pushed := some
            { mSessionID := client.getSessionID
              mPacketID := rawPacket.mHeader.mPacketID
              mDataSize := rawPacket.mHeader.mBodySize
              mDataIndex := context.Index
              mData := Memory.write (fun _ => 0) 0 bytes } }

/-- What the `RECEIVE` case of `IOThread` leaves: what `PushPacket` left, the client index that a
refused receive gives back, and the receive it posted. -/
structure ReceiveResult extends PushResult where
  posted : Option WsaBuf

/-- The `RECEIVE` case of `IOThread`, for `transferred` bytes. -/
def receiveCompleted (memory : Memory (Option UInt8)) (context : NetworkContext)
    (client : ClientSocket) (transferred : ℕ) (timer wsaRecv : Bool) : Option ReceiveResult :=
  let context := { context with mBuffer := (context.mBuffer.write transferred).1 }
  (pushPacket memory context client timer).map fun result =>
    match result.client.receive result.context wsaRecv with
    | some wsaBuf => { result with posted := some wsaBuf }
    | none =>
      { result with
        client := result.client.close
        releasedClients := result.releasedClients ++ [result.client.getSessionID]
        posted := none }

/-! ### The handler -/

/-- The number of elements of `mClients`. -/
def clientCount : ℕ := 110

/-- The number of elements of `mNetworkContexts`. -/
def contextCount : ℕ := 1000

/-- Where `IOThread` looks for the type of the context at position `k`, from the first one on.
`Receive` passes the address of the `OVERLAPPED` in the context, which `reinterpret_cast` takes for
the address of the context itself. -/
def typeAddress (k : ℕ) : ℕ := k * networkContextSize + overlappedOffset + contextTypeOffset

/-- What there is to find: the first four bytes of the address of the table that each context begins
with, which is a table of pointers, and the four bytes behind the last context. -/
structure ContextMemory where
  table : UInt32
  behind : UInt32
  aligned : table.toNat % 8 = 0

/-- What `GetContextType()` returns to `IOThread`: what a context begins with, if there is one at
the address, which `typeAddress_eq` says is the next one. -/
def ContextMemory.getContextType (memory : ContextMemory) (k : ℕ) : UInt32 :=
  if typeAddress k / networkContextSize < contextCount then memory.table else memory.behind

/-- An outstanding `WSARecv`: the position of its client in `mClients` and of its context in
`mNetworkContexts`.  `ended` records that `IOThread` has closed the connection. -/
structure PendingReceive where
  client : ℕ
  context : ℕ
  ended : Bool := false
deriving Repr, DecidableEq

/-- The members of the source, the number of sockets accepted, and the outstanding receives.
`overrun` records an access to `mClients` behind its last element, where the run ends. -/
structure IOCPHandler where
  mClients : ℕ → ClientSocket
  mClientIndexPool : List ℕ
  mNetworkContexts : ℕ → NetworkContext
  mNetworkContextIndexPool : List ℕ
  mPacketQueue : List Packet := []
  accepted : ℕ := 0
  receives : List PendingReceive := []
  overrun : Bool := false

/-- `accept` is a pass of `_AcceptThread` with an accepted socket, `completed k` the completion of
the outstanding receive number `k`, and `failed k` its failure.  `disconnected i` is a completion
without an `OVERLAPPED` for the client at position `i`. -/
inductive HandlerEvent
  | accept (registered noDelay nonBlocking wsaRecv : Bool)
  | completed (k : ℕ) (bytes : List UInt8)
  | failed (k : ℕ)
  | disconnected (i : ℕ)
deriving Repr, DecidableEq

namespace IOCPHandler

/-- The handler after `Initialize`, where the buffers may hold anything.  The context that each
element was copied from has been destroyed, which resets the buffer that the two share. -/
def start (buffers : ℕ → Memory UInt8) : IOCPHandler :=
  { mClients := fun i => { mIndex := i + 1 }
    mClientIndexPool := List.range' 1 clientCount
    mNetworkContexts := fun i =>
      NetworkContext.reset { Index := i, mBuffer := { mBuffer := buffers i } }
    mNetworkContextIndexPool := List.range' 0 contextCount }

def allocClient (h : IOCPHandler) : Option ℕ × IOCPHandler :=
  (h.mClientIndexPool.head?, { h with mClientIndexPool := h.mClientIndexPool.tail })

def allocNetworkContext (h : IOCPHandler) : Option ℕ × IOCPHandler :=
  (h.mNetworkContextIndexPool.head?,
    { h with mNetworkContextIndexPool := h.mNetworkContextIndexPool.tail })

def releaseClient (h : IOCPHandler) (index : ℕ) : IOCPHandler :=
  { h with mClientIndexPool := h.mClientIndexPool ++ [index] }

def releaseNetworkContext (h : IOCPHandler) (index : ℕ) : IOCPHandler :=
  { h with mNetworkContextIndexPool := h.mNetworkContextIndexPool ++ [index] }

def setClient (h : IOCPHandler) (i : ℕ) (client : ClientSocket) : IOCPHandler :=
  { h with mClients := Function.update h.mClients i client }

def setContext (h : IOCPHandler) (k : ℕ) (context : NetworkContext) : IOCPHandler :=
  { h with mNetworkContexts := Function.update h.mNetworkContexts k context }

/-- `InitClient`, which returns true whatever its calls return. -/
def initClient (client : ClientSocket) (socket : Socket) (registered noDelay nonBlocking : Bool) :
    ClientSocket × Bool :=
  let client := { client with mSocket := some socket }
  let client := if registered then client else client.close
  match client.onConnect noDelay nonBlocking with
  | (client, true) => (client, true)
  | (client, false) => (client.close, true)

/-- A pass of `_AcceptThread` that accepts a socket. -/
def acceptThread (h : IOCPHandler) (registered noDelay nonBlocking wsaRecv : Bool) : IOCPHandler :=
  let clientSocket := h.accepted
  let (clientIndex, h) := { h with accepted := h.accepted + 1 }.allocClient
  let (contextIndex, h) := h.allocNetworkContext
  match clientIndex, contextIndex with
  | some clientIndex, some contextIndex =>
    if clientCount ≤ clientIndex then { h with overrun := true }
    else
      let (client, initialised) :=
        initClient (h.mClients clientIndex) clientSocket registered noDelay nonBlocking
      let h := h.setClient clientIndex client
      if initialised = false then h.releaseClient clientIndex
      else
        let context := (h.mNetworkContexts contextIndex).reset.setContextType .RECEIVE
        let h := h.setContext contextIndex context
        match client.receive context wsaRecv with
        | some _ => { h with receives := h.receives ++ [⟨clientIndex, contextIndex, false⟩] }
        | none => (h.releaseClient clientIndex).releaseNetworkContext contextIndex
  | _, _ => h

/-- `IOThread` for the completion of `r` with `bytes`, which the operating system has stored.  It
goes to the `default` case.  If what lies behind the last context is `RECEIVE`, the completion of
that context has no result: `mBuffer` is a pointer read from the bytes of `mContextType` then. -/
def ioThread (memory : ContextMemory) (h : IOCPHandler) (r : PendingReceive)
    (bytes : List UInt8) : Option IOCPHandler :=
  let context := h.mNetworkContexts r.context
  let h := h.setContext r.context { context with mBuffer := context.mBuffer.store bytes }
  if memory.getContextType r.context = ContextType.RECEIVE.value then none else some h

/-- `IOThread` for a completion without an `OVERLAPPED`. -/
def disconnect (h : IOCPHandler) (i : ℕ) : IOCPHandler :=
  let client := (h.mClients i).close
  { (h.setClient i client).releaseClient client.getSessionID with
    receives := h.receives.map fun r => if r.client = i then { r with ended := true } else r }

/-- The receives of the connections that have not been closed.  A connection without a receive is
served no more, because `IOThread` comes to it by nothing else. -/
def live (h : IOCPHandler) : List PendingReceive := h.receives.filter fun r => !r.ended

end IOCPHandler

/-- The sizes of the completions are not held to the windows of the receives, so what is proved of
every run does not rest on the room that a buffer has. -/
def handlerStep (memory : ContextMemory) (h : IOCPHandler) : HandlerEvent → Option IOCPHandler
  | .accept registered noDelay nonBlocking wsaRecv =>
    if h.overrun then none else some (h.acceptThread registered noDelay nonBlocking wsaRecv)
  | .completed k bytes =>
    match h.receives[k]? with
    | none => none
    | some r =>
      if h.overrun then none
      else { h with receives := h.receives.eraseIdx k }.ioThread memory r bytes
  | .failed k =>
    -- `IOThread` goes on with the next completion, and releases nothing.
    if h.overrun ∨ h.receives.length ≤ k then none
    else some { h with receives := h.receives.eraseIdx k }
  | .disconnected i =>
    if h.overrun ∨ (h.mClients i).mSocket = none then none else some (h.disconnect i)

/-! ### A completed receive -/

variable {memory : ContextMemory} {h t : IOCPHandler} {r : PendingReceive} {k : ℕ}
  {bytes : List UInt8}

theorem typeAddress_eq (k : ℕ) : typeAddress k = (k + 1) * networkContextSize := by
  unfold typeAddress networkContextSize overlappedOffset contextTypeOffset
  omega

theorem ContextMemory.getContextType_eq (memory : ContextMemory) (k : ℕ) :
    memory.getContextType k = if k + 1 < contextCount then memory.table else memory.behind := by
  rw [getContextType, typeAddress_eq, Nat.mul_div_cancel _ (by decide)]

/-- The address of the table is not the number of `RECEIVE`. -/
theorem ContextMemory.getContextType_ne (memory : ContextMemory) (hk : k + 1 < contextCount) :
    memory.getContextType k ≠ ContextType.RECEIVE.value := by
  rw [memory.getContextType_eq, if_pos hk]
  intro htable
  have haligned := memory.aligned
  rw [htable] at haligned
  exact absurd haligned (by decide)

/-- Whatever a receive brings, `IOThread` drops its completion and posts no other receive. -/
theorem IOCPHandler.ioThread_drops (h : IOCPHandler) (hr : r.context + 1 < contextCount)
    (bytes : List UInt8) : h.ioThread memory r bytes = some (h.setContext r.context
      { h.mNetworkContexts r.context with
        mBuffer := (h.mNetworkContexts r.context).mBuffer.store bytes }) :=
  if_neg (memory.getContextType_ne hr)

/-- What a completed receive leaves changed is the list of the receives and its context's bytes. -/
theorem completed_eq (hstep : handlerStep memory h (.completed k bytes) = some t) :
    ∃ r, h.receives[k]? = some r ∧ t = { h with
      receives := h.receives.eraseIdx k
      mNetworkContexts := Function.update h.mNetworkContexts r.context
        { h.mNetworkContexts r.context with
          mBuffer := (h.mNetworkContexts r.context).mBuffer.store bytes } } := by
  simp only [handlerStep] at hstep
  split at hstep
  next => exact absurd hstep.symm (Option.some_ne_none t)
  next r hr =>
    obtain ⟨-, hstep⟩ := Option.ite_none_left_eq_some.mp hstep
    obtain ⟨-, hstep⟩ := Option.ite_none_left_eq_some.mp hstep
    exact ⟨r, hr, (Option.some.inj hstep).symm⟩

end IocpStudy.SBServer
