import Mathlib.Logic.Function.Basic
import IocpStudy.Iocpsolution.NetworkClient

/-! `IOCPServer`: the completions that `WorkerThread` handles.  The `ACCEPT` case of its `switch`
has no `break`: what follows is the `RECV` case, for a completion that has received nothing and on
a client that has just posted a receive, or has just been closed. -/

namespace IocpStudy.Iocpsolution

open Runs

/-- What `GetQueuedCompletionStatus` returns for an operation of the client `mSessionIndex`.  The
key is that client, or null where the operation is an `AcceptEx` on the listener. -/
structure Completion where
  m_eOperation : IOOperation
  mSessionIndex : ℕ
  bSuccess : Bool := true
  dwIoSize : ℕ := 0
deriving Repr, DecidableEq

/-- A call of `OnReceive`. -/
structure ReceiveCall where
  clientIndex : ℕ
  size : ℕ
deriving Repr, DecidableEq

/-- `received` records the `RECV` completions with a number of bytes, and `onReceives` the calls of
`OnReceive`. -/
structure IOCPServer where
  mClientInfos : ℕ → NetworkClient := fun _ => {}
  mClientCount : ℕ := 0
  sockets : ℕ := 0
  received : List ReceiveCall := []
  onReceives : List ReceiveCall := []

/-- The outcomes of the calls that a completion leads to: the `WSARecv` in `OnConnect`, the one at
the end of the `RECV` case, and the `WSASend` in `SendCompleted`; and the time in seconds. -/
structure Outcomes where
  connectRecv : Bool := true
  wsaRecv : Bool := true
  wsaSend : Bool := true
  now : ℕ := 0
deriving Repr, DecidableEq

/-- `postAccept` is the acceptor thread's turn of a client, `wsaSocket` and `acceptEx` being the
outcomes of its calls.  A `completion` is dequeued and handled by a worker thread; `i` is its number
among the outstanding sends of the client. -/
inductive ServerEvent
  | postAccept (clientIndex curTimeSec : ℕ) (wsaSocket acceptEx : Bool)
  | sendMsg (clientIndex : ℕ) (pMsg : List UInt8) (wsaSend : Bool)
  | completion (completion : Completion) (i : ℕ) (outcomes : Outcomes)
deriving Repr, DecidableEq

namespace IOCPServer

def setClient (s : IOCPServer) (clientIndex : ℕ) (client : NetworkClient) : IOCPServer :=
  { s with mClientInfos := Function.update s.mClientInfos clientIndex client }

def closeSocket (s : IOCPServer) (clientIndex now : ℕ) : IOCPServer :=
  s.setClient clientIndex ((s.mClientInfos clientIndex).close now)

/-- The `RECV` case: `OnReceive` and then `BindRecv`. -/
def recvCase (s : IOCPServer) (clientIndex dwIoSize : ℕ) (wsaRecv : Bool) : IOCPServer :=
  let s : IOCPServer := { s with onReceives := s.onReceives ++ [⟨clientIndex, dwIoSize⟩] }
  s.setClient clientIndex ((s.mClientInfos clientIndex).bindRecv wsaRecv).1

/-- The `ACCEPT` case up to its end: `AcceptCompletion`, and `CloseSocket` where that fails. -/
def acceptCase (s : IOCPServer) (clientIndex : ℕ) (connectRecv : Bool) (now : ℕ) : IOCPServer :=
  match (s.mClientInfos clientIndex).acceptCompletion connectRecv with
  | (client, true) => { s.setClient clientIndex client with mClientCount := s.mClientCount + 1 }
  | (client, false) => (s.setClient clientIndex client).closeSocket clientIndex now

/-- An iteration of `WorkerThread`, or `none` where it dereferences a null pointer. -/
def workerThread (s : IOCPServer) (c : Completion) (outcomes : Outcomes) : Option IOCPServer :=
  let key := if c.m_eOperation = .ACCEPT then none else some c.mSessionIndex
  if c.bSuccess = false ∨ (c.dwIoSize = 0 ∧ c.m_eOperation ≠ .ACCEPT) then
    key.map fun clientIndex => s.closeSocket clientIndex outcomes.now
  else
    match c.m_eOperation with
    | .ACCEPT =>
      -- Control goes on into the `RECV` case.
      some ((s.acceptCase c.mSessionIndex outcomes.connectRecv outcomes.now).recvCase
        c.mSessionIndex c.dwIoSize outcomes.wsaRecv)
    | .RECV =>
      let s : IOCPServer := { s with received := s.received ++ [⟨c.mSessionIndex, c.dwIoSize⟩] }
      some (s.recvCase c.mSessionIndex c.dwIoSize outcomes.wsaRecv)
    | .SEND =>
      ((s.mClientInfos c.mSessionIndex).sendCompleted outcomes.wsaSend).map
        (s.setClient c.mSessionIndex)

/-- `AcceptorThread` skips the client at the time `curTimeSec`. -/
def skips (s : IOCPServer) (clientIndex curTimeSec : ℕ) : Bool :=
  let client := s.mClientInfos clientIndex
  client.isConnected || decide (curTimeSec < client.mLatestClosedTimeSec) ||
    decide (curTimeSec - client.mLatestClosedTimeSec < reuseSessionWaitTimeSec)

end IOCPServer

/-- An `AcceptEx` receives no bytes with the connection, and a `WSARecv` no more than its buffer
holds. -/
def Completion.Sized (c : Completion) : Prop :=
  match c.m_eOperation with
  | .ACCEPT => c.dwIoSize = 0
  | .RECV => c.dwIoSize ≤ maxSockRecvbuf
  | .SEND => True

instance (c : Completion) : Decidable c.Sized := by
  unfold Completion.Sized
  cases c.m_eOperation <;> exact inferInstance

def serverStep (s : IOCPServer) : ServerEvent → Option IOCPServer
  | .postAccept clientIndex curTimeSec wsaSocket acceptEx =>
    if s.skips clientIndex curTimeSec then some s
    else
      let client := (s.mClientInfos clientIndex).postAccept
        (if wsaSocket then some s.sockets else none) acceptEx
      some { s.setClient clientIndex client with sockets := s.sockets + 1 }
  | .sendMsg clientIndex pMsg wsaSend =>
    some (s.setClient clientIndex ((s.mClientInfos clientIndex).sendMsg pMsg wsaSend))
  | .completion c i outcomes =>
    if c.Sized then
      ((s.mClientInfos c.mSessionIndex).dequeued c.m_eOperation i).bind fun client =>
        (s.setClient c.mSessionIndex client).workerThread c outcomes
    else none

/-! ### One receive for each connection -/

/-- The client of a successful `ACCEPT` completion. -/
def ServerEvent.accept : ServerEvent → Option (ℕ × Outcomes)
  | .completion c _ outcomes =>
    if c.m_eOperation = .ACCEPT ∧ c.bSuccess = true then some (c.mSessionIndex, outcomes) else none
  | _ => none

/-- The client and the size of a successful `RECV` completion with a number of bytes. -/
def ServerEvent.recv : ServerEvent → Option (ReceiveCall × Outcomes)
  | .completion c _ outcomes =>
    if c.m_eOperation = .RECV ∧ c.bSuccess = true ∧ c.dwIoSize ≠ 0 then
      some (⟨c.mSessionIndex, c.dwIoSize⟩, outcomes)
    else none
  | _ => none

namespace IOCPServer

/-- A connected client has one `WSARecv` outstanding at most. -/
def SingleRecv (s : IOCPServer) : Prop :=
  ∀ i, (s.mClientInfos i).isConnected = true → (s.mClientInfos i).recvs ≤ 1

/-- No `WSARecv` was called for a client without a socket. -/
def NeverClosed (s : IOCPServer) : Prop := ∀ i, none ∉ (s.mClientInfos i).recvCalls

/-- `OnReceive` was called once for each `RECV` completion with bytes, with their number, and for
no other completion. -/
structure ReceivedOnce (s : IOCPServer) : Prop where
  onReceives : s.onReceives = s.received
  positive : ∀ call ∈ s.received, 0 < call.size

structure OneReceive (s : IOCPServer) : Prop where
  single : s.SingleRecv
  never_closed : s.NeverClosed
  once : s.ReceivedOnce

/-- The event is no successful `ACCEPT` completion. -/
def NoAccept (_ : IOCPServer) (e : ServerEvent) : Prop := e.accept = none

/-- Where a connection is accepted and its first receive is posted, no receive is outstanding, and
the second one is refused. -/
def AcceptsOne (s : IOCPServer) (e : ServerEvent) : Prop :=
  ∀ i outcomes, e.accept = some (i, outcomes) →
    (s.mClientInfos i).allows outcomes.connectRecv = true →
    (s.mClientInfos i).recvs = 0 ∧ outcomes.wsaRecv = false

/-- The first receive of a connection is accepted, and a receive completes while its client has a
socket. -/
def Open (s : IOCPServer) (e : ServerEvent) : Prop :=
  (∀ i outcomes, e.accept = some (i, outcomes) →
    (s.mClientInfos i).allows outcomes.connectRecv = true) ∧
  ∀ call outcomes, e.recv = some (call, outcomes) →
    (s.mClientInfos call.clientIndex).isConnected = true

end IOCPServer

/-! ### What a step does to a client -/

/-- The client has no more receives outstanding than before, and has called no other. -/
structure NetworkClient.Quiet (c c' : NetworkClient) : Prop where
  recvs : c'.recvs ≤ c.recvs
  recvCalls : c'.recvCalls = c.recvCalls

/-- What the `ACCEPT` case and the `RECV` case behind it leave of a client. -/
structure NetworkClient.Connected (c c' : NetworkClient) (outcomes : Outcomes) : Prop where
  recvs : c'.recvs = c.recvs + (c.allows outcomes.connectRecv).toNat +
    (c.allows outcomes.connectRecv && outcomes.wsaRecv).toNat
  recvCalls : c'.recvCalls =
    c.recvCalls ++ [c.mSocket, if c.allows outcomes.connectRecv then c.mSocket else none]
  isConnected : c'.isConnected = c.allows outcomes.connectRecv

/-- What the `RECV` case leaves of a client. -/
structure NetworkClient.Received (c c' : NetworkClient) (outcomes : Outcomes) : Prop where
  outstanding : 0 < c.recvs
  recvs : c'.recvs = c.recvs - 1 + (c.allows outcomes.wsaRecv).toNat
  recvCalls : c'.recvCalls = c.recvCalls ++ [c.mSocket]

/-- A step in the terms of the client that it is about. -/
inductive Serves (s : IOCPServer) (e : ServerEvent) (t : IOCPServer) : Prop
  | quiet (i : ℕ) (c' : NetworkClient) (haccept : e.accept = none) (hrecv : e.recv = none)
      (hclients : t.mClientInfos = Function.update s.mClientInfos i c')
      (hclient : (s.mClientInfos i).Quiet c') (hreceived : t.received = s.received)
      (honReceives : t.onReceives = s.onReceives)
  | accepted (i : ℕ) (outcomes : Outcomes) (c' : NetworkClient)
      (haccept : e.accept = some (i, outcomes)) (hrecv : e.recv = none)
      (hclients : t.mClientInfos = Function.update s.mClientInfos i c')
      (hclient : (s.mClientInfos i).Connected c' outcomes) (hreceived : t.received = s.received)
      (honReceives : t.onReceives = s.onReceives ++ [⟨i, 0⟩])
  | received (call : ReceiveCall) (outcomes : Outcomes) (c' : NetworkClient)
      (haccept : e.accept = none) (hrecv : e.recv = some (call, outcomes)) (hsize : 0 < call.size)
      (hclients : t.mClientInfos = Function.update s.mClientInfos call.clientIndex c')
      (hclient : (s.mClientInfos call.clientIndex).Received c' outcomes)
      (hreceived : t.received = s.received ++ [call])
      (honReceives : t.onReceives = s.onReceives ++ [call])

variable {s t : IOCPServer} {e : ServerEvent} {es : List ServerEvent} {c c' : NetworkClient}

theorem NetworkClient.Connected.congr {client : NetworkClient} {outcomes : Outcomes}
    (h : client.Connected c' outcomes) (hsocket : client.mSocket = c.mSocket)
    (hrecvs : client.recvs = c.recvs) (hcalls : client.recvCalls = c.recvCalls) :
    c.Connected c' outcomes := by
  have hallows : client.allows outcomes.connectRecv = c.allows outcomes.connectRecv := by
    rw [NetworkClient.allows, NetworkClient.allows, hsocket]
  constructor
  · rw [h.recvs, hallows, hrecvs]
  · rw [h.recvCalls, hallows, hsocket, hcalls]
  · rw [h.isConnected, hallows]

theorem acceptCompletion_of_allows {ok : Bool} (h : c.allows ok = true) :
    c.acceptCompletion ok = ({ c with
      mIsConnect := true
      recvs := c.recvs + 1
      recvCalls := c.recvCalls ++ [c.mSocket] }, true) := by
  have hallows : ({ c with mIsConnect := true } : NetworkClient).allows ok = true := h
  rw [NetworkClient.acceptCompletion, NetworkClient.onConnect, NetworkClient.bindRecv, hallows]
  rfl

theorem acceptCompletion_of_refused {ok : Bool} (h : c.allows ok = false) :
    c.acceptCompletion ok = ({ c with
      mIsConnect := true
      recvCalls := c.recvCalls ++ [c.mSocket] }, false) := by
  have hallows : ({ c with mIsConnect := true } : NetworkClient).allows ok = false := h
  rw [NetworkClient.acceptCompletion, NetworkClient.onConnect, NetworkClient.bindRecv, hallows]
  rfl

theorem accept_recvCase (s : IOCPServer) (i : ℕ) (outcomes : Outcomes) :
    let t := (s.acceptCase i outcomes.connectRecv outcomes.now).recvCase i 0 outcomes.wsaRecv
    ∃ c', t.mClientInfos = Function.update s.mClientInfos i c' ∧
      (s.mClientInfos i).Connected c' outcomes ∧ t.received = s.received ∧
      t.onReceives = s.onReceives ++ [⟨i, 0⟩] := by
  intro t
  cases hallows : (s.mClientInfos i).allows outcomes.connectRecv with
  | true =>
    have hopen : (s.mClientInfos i).mSocket.isSome = true := by
      rw [NetworkClient.allows, Bool.and_eq_true] at hallows
      exact hallows.2
    simp only [t, IOCPServer.acceptCase, acceptCompletion_of_allows hallows, IOCPServer.recvCase,
      IOCPServer.setClient, Function.update_self, Function.update_idem]
    refine ⟨_, rfl, ⟨?_, ?_, ?_⟩, trivial, trivial⟩
    · rw [NetworkClient.bindRecv_recvs, hallows, NetworkClient.allows, hopen, Bool.and_true]
      rfl
    · rw [NetworkClient.bindRecv_recvCalls, hallows, List.append_assoc]
      rfl
    · rw [hallows]
      exact hopen
  | false =>
    -- `CloseSocket` leaves no socket to receive on.
    simp only [t, IOCPServer.acceptCase, acceptCompletion_of_refused hallows, IOCPServer.recvCase,
      IOCPServer.closeSocket, IOCPServer.setClient, Function.update_self, Function.update_idem]
    refine ⟨_, rfl, ⟨?_, ?_, ?_⟩, trivial, trivial⟩
    · rw [NetworkClient.bindRecv_recvs, hallows, NetworkClient.allows, NetworkClient.close,
        Option.isSome_none, Bool.and_false]
      rfl
    · rw [NetworkClient.bindRecv_recvCalls, hallows, NetworkClient.close, List.append_assoc]
      rfl
    · rw [hallows]
      rfl

section WorkerThread

variable {i n : ℕ} {outcomes : Outcomes}

theorem workerThread_accept : s.workerThread ⟨.ACCEPT, i, true, 0⟩ outcomes =
    some ((s.acceptCase i outcomes.connectRecv outcomes.now).recvCase i 0 outcomes.wsaRecv) := rfl

theorem workerThread_recv (hn : n ≠ 0) : s.workerThread ⟨.RECV, i, true, n⟩ outcomes =
    some (IOCPServer.recvCase { s with received := s.received ++ [⟨i, n⟩] } i n
      outcomes.wsaRecv) := by
  rw [IOCPServer.workerThread, if_neg (by simp [hn])]

theorem workerThread_send (hn : n ≠ 0) : s.workerThread ⟨.SEND, i, true, n⟩ outcomes =
    ((s.mClientInfos i).sendCompleted outcomes.wsaSend).map (s.setClient i) := by
  rw [IOCPServer.workerThread, if_neg (by simp [hn])]

end WorkerThread

/-- What an operation that is dequeued leaves of its client. -/
theorem dequeued_cases {operation : IOOperation} {i : ℕ} (h : c.dequeued operation i = some c') :
    c'.mSocket = c.mSocket ∧ c'.recvCalls = c.recvCalls ∧
      (operation = .RECV → 0 < c.recvs ∧ c'.recvs = c.recvs - 1) ∧
      (operation ≠ .RECV → c'.recvs = c.recvs) := by
  cases operation with
  | ACCEPT =>
    simp only [NetworkClient.dequeued] at h
    split_ifs at h
    obtain rfl := Option.some.inj h
    exact ⟨rfl, rfl, nofun, fun _ => rfl⟩
  | RECV =>
    simp only [NetworkClient.dequeued] at h
    split_ifs at h with hzero
    obtain rfl := Option.some.inj h
    exact ⟨rfl, rfl, fun _ => ⟨Nat.pos_of_ne_zero hzero, rfl⟩, fun hne => absurd rfl hne⟩
  | SEND =>
    simp only [NetworkClient.dequeued] at h
    split_ifs at h
    obtain rfl := Option.some.inj h
    exact ⟨rfl, rfl, nofun, fun _ => rfl⟩

theorem dequeued_recvs_le {operation : IOOperation} {i : ℕ} (h : c.dequeued operation i = some c') :
    c'.recvs ≤ c.recvs := by
  obtain ⟨-, -, hrecv, hother⟩ := dequeued_cases h
  by_cases hoperation : operation = .RECV
  · rw [(hrecv hoperation).2]
    exact Nat.sub_le _ _
  · exact (hother hoperation).le

/-- The four ways in which `WorkerThread` handles a completion, whose operation leaves its client
as `client`. -/
inductive Handled (s : IOCPServer) (c : Completion) (client : NetworkClient) (outcomes : Outcomes) :
    IOCPServer → Prop
  | closed (hoperation : c.m_eOperation ≠ .ACCEPT) (hfails : c.bSuccess = false ∨ c.dwIoSize = 0) :
      Handled s c client outcomes (s.setClient c.mSessionIndex (client.close outcomes.now))
  | accepted (hoperation : c.m_eOperation = .ACCEPT) (hsuccess : c.bSuccess = true) :
      Handled s c client outcomes
        (((s.setClient c.mSessionIndex client).acceptCase c.mSessionIndex outcomes.connectRecv
          outcomes.now).recvCase c.mSessionIndex 0 outcomes.wsaRecv)
  | received (hoperation : c.m_eOperation = .RECV) (hsuccess : c.bSuccess = true)
      (hsize : c.dwIoSize ≠ 0) :
      Handled s c client outcomes
        { s.setClient c.mSessionIndex (client.bindRecv outcomes.wsaRecv).1 with
          received := s.received ++ [⟨c.mSessionIndex, c.dwIoSize⟩]
          onReceives := s.onReceives ++ [⟨c.mSessionIndex, c.dwIoSize⟩] }
  | sent {section_ : OneSend.LockSection} (hoperation : c.m_eOperation = .SEND)
      (hsuccess : c.bSuccess = true) (hsize : c.dwIoSize ≠ 0) :
      Handled s c client outcomes (s.setClient c.mSessionIndex
        { client with sends := client.sends.left section_ (client.allows outcomes.wsaSend) })

/-- Read off `WorkerThread` once. -/
theorem handled_of_completion {i : ℕ} {c : Completion} {outcomes : Outcomes}
    (h : serverStep s (.completion c i outcomes) = some t) :
    ∃ client, (s.mClientInfos c.mSessionIndex).dequeued c.m_eOperation i = some client ∧
      Handled s c client outcomes t := by
  simp only [serverStep] at h
  split_ifs at h with hsized
  obtain ⟨client, hdequeued, h⟩ := Option.bind_eq_some_iff.mp h
  refine ⟨client, hdequeued, ?_⟩
  obtain ⟨operation, mSessionIndex, bSuccess, dwIoSize⟩ := c
  simp only at h
  by_cases hclose : bSuccess = false ∨ dwIoSize = 0 ∧ operation ≠ .ACCEPT
  · simp only [IOCPServer.workerThread, if_pos hclose] at h
    obtain ⟨clientIndex, hkey, rfl⟩ := Option.map_eq_some_iff.mp h
    obtain ⟨hoperation, rfl⟩ : operation ≠ .ACCEPT ∧ mSessionIndex = clientIndex := by
      split_ifs at hkey with hoperation
      exact ⟨hoperation, Option.some.inj hkey⟩
    simp only [IOCPServer.closeSocket, IOCPServer.setClient, Function.update_self,
      Function.update_idem]
    exact .closed hoperation (hclose.imp_right And.left)
  · obtain ⟨hsuccess, hsize⟩ := not_or.mp hclose
    rw [Bool.not_eq_false] at hsuccess
    subst hsuccess
    cases operation with
    | ACCEPT =>
      obtain rfl : dwIoSize = 0 := hsized
      rw [workerThread_accept] at h
      obtain rfl := Option.some.inj h
      exact .accepted rfl rfl
    | RECV =>
      have hpos : dwIoSize ≠ 0 := fun hzero => hsize ⟨hzero, by decide⟩
      rw [workerThread_recv hpos] at h
      obtain rfl := Option.some.inj h
      simp only [IOCPServer.recvCase, IOCPServer.setClient, Function.update_self,
        Function.update_idem]
      exact .received rfl rfl hpos
    | SEND =>
      have hpos : dwIoSize ≠ 0 := fun hzero => hsize ⟨hzero, by decide⟩
      rw [workerThread_send hpos] at h
      obtain ⟨client', hsend, rfl⟩ := Option.map_eq_some_iff.mp h
      obtain ⟨section_, -, rfl⟩ := Option.map_eq_some_iff.mp hsend
      simp only [IOCPServer.setClient, Function.update_self, Function.update_idem]
      exact .sent rfl rfl hpos

/-- What a step does, in the terms of its client. -/
theorem serves_of_step (h : serverStep s e = some t) : Serves s e t := by
  cases e with
  | postAccept clientIndex curTimeSec wsaSocket acceptEx =>
    simp only [serverStep] at h
    by_cases hskips : s.skips clientIndex curTimeSec = true
    · rw [if_pos hskips] at h
      obtain rfl := Option.some.inj h
      exact .quiet clientIndex (s.mClientInfos clientIndex) rfl rfl
        (Function.update_eq_self _ _).symm ⟨Nat.le_refl _, rfl⟩ rfl rfl
    · rw [if_neg hskips] at h
      obtain rfl := Option.some.inj h
      refine .quiet clientIndex _ rfl rfl rfl ⟨?_, ?_⟩ rfl rfl
      · rw [NetworkClient.postAccept]
        split_ifs <;> exact Nat.le_refl _
      · rw [NetworkClient.postAccept]
        split_ifs <;> rfl
  | sendMsg clientIndex pMsg wsaSend =>
    simp only [serverStep] at h
    obtain rfl := Option.some.inj h
    exact .quiet clientIndex _ rfl rfl rfl ⟨Nat.le_refl _, rfl⟩ rfl rfl
  | completion c i outcomes =>
    obtain ⟨client, hdequeued, hhandled⟩ := handled_of_completion h
    obtain ⟨hsocket, hcalls, hrecv, hother⟩ := dequeued_cases hdequeued
    have hle := dequeued_recvs_le hdequeued
    cases hhandled with
    | closed hoperation hfails =>
      refine .quiet c.mSessionIndex (client.close outcomes.now) ?_ ?_ rfl ⟨hle, hcalls⟩ rfl rfl
      · exact if_neg fun h => hoperation h.1
      · refine if_neg fun h => ?_
        rcases hfails with hfailed | hzero
        · exact Bool.false_ne_true (hfailed.symm.trans h.2.1)
        · exact h.2.2 hzero
    | accepted hoperation hsuccess =>
      obtain ⟨c', hclients, hconnected, hreceived, honReceives⟩ :=
        accept_recvCase (s.setClient c.mSessionIndex client) c.mSessionIndex outcomes
      simp only [IOCPServer.setClient, Function.update_idem] at hclients
      simp only [IOCPServer.setClient, Function.update_self] at hconnected
      refine .accepted c.mSessionIndex outcomes c' (if_pos ⟨hoperation, hsuccess⟩) ?_ hclients
        (hconnected.congr hsocket (hother ?_) hcalls) hreceived honReceives
      · exact if_neg (by simp [hoperation])
      · rw [hoperation]
        exact nofun
    | received hoperation hsuccess hsize =>
      obtain ⟨houtstanding, hrecvs⟩ := hrecv hoperation
      refine .received ⟨c.mSessionIndex, c.dwIoSize⟩ outcomes
        (client.bindRecv outcomes.wsaRecv).1 ?_ (if_pos ⟨hoperation, hsuccess, hsize⟩)
        (Nat.pos_of_ne_zero hsize) rfl ⟨houtstanding, ?_, ?_⟩ rfl rfl
      · exact if_neg (by simp [hoperation])
      · rw [NetworkClient.bindRecv_recvs, hrecvs, NetworkClient.allows, hsocket]
        rfl
      · rw [NetworkClient.bindRecv_recvCalls, hcalls, hsocket]
    | sent hoperation hsuccess hsize =>
      refine .quiet c.mSessionIndex _ ?_ ?_ rfl ⟨hle, hcalls⟩ rfl rfl
      · exact if_neg (by simp [hoperation])
      · exact if_neg (by simp [hoperation])

/-! ### Runs -/

namespace IOCPServer

/-- No client has two `WSARecv` outstanding, connected or not. -/
def AtMostOne (s : IOCPServer) : Prop := ∀ i, (s.mClientInfos i).recvs ≤ 1

/-- No client has a `WSARecv` outstanding. -/
def NoRecv (s : IOCPServer) : Prop := ∀ i, (s.mClientInfos i).recvs = 0

/-- What holds of every client holds after a step that changes one. -/
theorem forall_update {P : NetworkClient → Prop} {f : ℕ → NetworkClient} {i : ℕ} (hc : P c')
    (hothers : ∀ j, P (f j)) (j : ℕ) : P (Function.update f i c' j) := by
  by_cases hj : j = i
  · rw [hj, Function.update_self]
    exact hc
  · rw [Function.update_of_ne hj]
    exact hothers j

theorem forall_update_iff {P : NetworkClient → Prop} {f : ℕ → NetworkClient} {i : ℕ}
    (hothers : ∀ j, P (f j)) : (∀ j, P (Function.update f i c' j)) ↔ P c' := by
  refine ⟨fun h => ?_, fun hc => forall_update hc hothers⟩
  have hi := h i
  rwa [Function.update_self] at hi

theorem atMostOne_step (hs : s.AtMostOne) (hC : s.AcceptsOne e) (h : serverStep s e = some t) :
    t.AtMostOne := by
  cases serves_of_step h with
  | quiet i c' haccept hrecv hclients hclient hreceived honReceives =>
    rw [AtMostOne, hclients]
    exact forall_update (P := fun c => c.recvs ≤ 1) (hclient.recvs.trans (hs i)) hs
  | accepted i outcomes c' haccept hrecv hclients hclient hreceived honReceives =>
    rw [AtMostOne, hclients]
    refine forall_update (P := fun c => c.recvs ≤ 1) ?_ hs
    rw [hclient.recvs]
    cases hallows : (s.mClientInfos i).allows outcomes.connectRecv with
    | true =>
      obtain ⟨hzero, hrefused⟩ := hC i outcomes haccept hallows
      rw [hzero, hrefused]
      decide
    | false => exact hs i
  | received call outcomes c' haccept hrecv hsize hclients hclient hreceived honReceives =>
    rw [AtMostOne, hclients]
    refine forall_update (P := fun c => c.recvs ≤ 1) ?_ hs
    rw [hclient.recvs]
    have hone := hs call.clientIndex
    have hadd := Bool.toNat_le ((s.mClientInfos call.clientIndex).allows outcomes.wsaRecv)
    omega

/-- A step leaves at most one receive on each connected client exactly where it meets
`AcceptsOne`. -/
theorem singleRecv_step_iff (hs : s.AtMostOne) (h : serverStep s e = some t) :
    t.SingleRecv ↔ s.AcceptsOne e := by
  refine ⟨fun hP i outcomes haccept hallows => ?_,
    fun hC i _ => atMostOne_step hs hC h i⟩
  cases serves_of_step h with
  | quiet i' c' hnone hrecv hclients hclient hreceived honReceives =>
    rw [hnone] at haccept
    cases haccept
  | received call outcomes' c' hnone hrecv hsize hclients hclient hreceived honReceives =>
    rw [hnone] at haccept
    cases haccept
  | accepted i' outcomes' c' hsome hrecv hclients hclient hreceived honReceives =>
    obtain ⟨rfl, rfl⟩ := Prod.mk.inj (Option.some.inj (haccept.symm.trans hsome))
    have hone := hP i
    rw [hclients, Function.update_self, hclient.isConnected, hclient.recvs, hallows,
      Bool.true_and] at hone
    have hle := hone rfl
    cases hwsaRecv : outcomes.wsaRecv with
    | true => simp [hwsaRecv] at hle
    | false =>
      rw [hwsaRecv] at hle
      refine ⟨?_, rfl⟩
      simpa using hle

/-- The two calls of `WSARecv` for a connection find a socket exactly where the first is accepted:
where it is refused, the socket is closed before the second. -/
theorem connected_sockets_iff (c : NetworkClient) (outcomes : Outcomes) :
    none ∉ [c.mSocket, if c.allows outcomes.connectRecv then c.mSocket else none] ↔
      c.allows outcomes.connectRecv = true := by
  cases hallows : c.allows outcomes.connectRecv with
  | true =>
    have hopen : c.mSocket.isSome = true := by
      rw [NetworkClient.allows, Bool.and_eq_true] at hallows
      exact hallows.2
    rw [if_pos rfl]
    refine ⟨fun _ => rfl, fun _ hmem => ?_⟩
    have hnone : c.mSocket = none := by simpa [eq_comm] using hmem
    rw [hnone] at hopen
    cases hopen
  | false =>
    rw [if_neg Bool.false_ne_true]
    exact ⟨fun h => absurd (by simp) h, nofun⟩

theorem neverClosed_step_iff (hs : s.NeverClosed) (h : serverStep s e = some t) :
    t.NeverClosed ↔ s.Open e := by
  cases serves_of_step h with
  | quiet i c' haccept hrecv hclients hclient hreceived honReceives =>
    rw [NeverClosed, hclients, forall_update_iff (P := fun c => none ∉ c.recvCalls) hs,
      hclient.recvCalls, Open, haccept, hrecv]
    exact ⟨fun _ => ⟨nofun, nofun⟩, fun _ => hs i⟩
  | accepted i outcomes c' haccept hrecv hclients hclient hreceived honReceives =>
    rw [NeverClosed, hclients, forall_update_iff (P := fun c => none ∉ c.recvCalls) hs,
      hclient.recvCalls, List.mem_append, not_or, connected_sockets_iff, Open, haccept, hrecv]
    constructor
    · rintro ⟨-, hallows⟩
      refine ⟨fun i' outcomes' heq => ?_, nofun⟩
      obtain ⟨rfl, rfl⟩ := Prod.mk.inj (Option.some.inj heq)
      exact hallows
    · exact fun hopen => ⟨hs i, hopen.1 i outcomes rfl⟩
  | received call outcomes c' haccept hrecv hsize hclients hclient hreceived honReceives =>
    have hsocket : none ∉ [(s.mClientInfos call.clientIndex).mSocket] ↔
        (s.mClientInfos call.clientIndex).isConnected = true := by
      rw [List.mem_singleton, NetworkClient.isConnected, Option.isSome_iff_ne_none, ne_comm]
    rw [NeverClosed, hclients, forall_update_iff (P := fun c => none ∉ c.recvCalls) hs,
      hclient.recvCalls, List.mem_append, not_or, hsocket, Open, haccept, hrecv]
    constructor
    · rintro ⟨-, hopen⟩
      refine ⟨nofun, fun call' outcomes' heq => ?_⟩
      obtain ⟨rfl, rfl⟩ := Prod.mk.inj (Option.some.inj heq)
      exact hopen
    · exact fun hopen => ⟨hs _, hopen.2 call outcomes rfl⟩

theorem receivedOnce_step_iff (hs : s.ReceivedOnce) (h : serverStep s e = some t) :
    t.ReceivedOnce ↔ s.NoAccept e := by
  cases serves_of_step h with
  | quiet i c' haccept hrecv hclients hclient hreceived honReceives =>
    refine ⟨fun _ => haccept, fun _ => ⟨?_, ?_⟩⟩
    · rw [honReceives, hreceived, hs.onReceives]
    · rw [hreceived]
      exact hs.positive
  | accepted i outcomes c' haccept hrecv hclients hclient hreceived honReceives =>
    constructor
    · intro ht
      have hlength := congrArg List.length ht.onReceives
      rw [honReceives, hreceived, hs.onReceives, List.length_append] at hlength
      exact absurd hlength (Nat.succ_ne_self _)
    · intro hC
      rw [NoAccept, haccept] at hC
      cases hC
  | received call outcomes c' haccept hrecv hsize hclients hclient hreceived honReceives =>
    refine ⟨fun _ => haccept, fun _ => ⟨?_, fun call' hcall' => ?_⟩⟩
    · rw [honReceives, hreceived, hs.onReceives]
    · rw [hreceived] at hcall'
      rcases List.mem_append.mp hcall' with hold | hnew
      · exact hs.positive call' hold
      · rw [List.mem_singleton.mp hnew]
        exact hsize

theorem noRecv_step (hs : s.NoRecv) (hC : s.NoAccept e) (h : serverStep s e = some t) :
    t.NoRecv := by
  cases serves_of_step h with
  | quiet i c' haccept hrecv hclients hclient hreceived honReceives =>
    rw [NoRecv, hclients]
    refine forall_update (P := fun c => c.recvs = 0) ?_ hs
    exact Nat.le_zero.mp (hclient.recvs.trans (hs i).le)
  | accepted i outcomes c' haccept hrecv hclients hclient hreceived honReceives =>
    rw [NoAccept, haccept] at hC
    cases hC
  | received call outcomes c' haccept hrecv hsize hclients hclient hreceived honReceives =>
    exact absurd (hs call.clientIndex) hclient.outstanding.ne'

/-- Without connections nothing can go wrong, and the first one is told of a receive that is
none. -/
theorem oneReceive_step_iff (hrecvs : s.NoRecv) (hs : s.OneReceive) (h : serverStep s e = some t) :
    t.OneReceive ↔ s.NoAccept e := by
  refine ⟨fun ht => (receivedOnce_step_iff hs.once h).mp ht.once, fun hC => ?_⟩
  have ht := noRecv_step hrecvs hC h
  have hopen : s.Open e := by
    refine ⟨fun i outcomes haccept => ?_, fun call outcomes hrecv => ?_⟩
    · rw [hC] at haccept
      cases haccept
    · cases serves_of_step h with
      | quiet i c' haccept hnone hclients hclient hreceived honReceives =>
        rw [hnone] at hrecv
        cases hrecv
      | accepted i outcomes' c' haccept hnone hclients hclient hreceived honReceives =>
        rw [hnone] at hrecv
        cases hrecv
      | received call' outcomes' c' haccept hsome hsize hclients hclient hreceived honReceives =>
        exact absurd (hrecvs call'.clientIndex) hclient.outstanding.ne'
  exact ⟨fun i _ => (ht i).le.trans (Nat.zero_le 1),
    (neverClosed_step_iff hs.never_closed h).mpr hopen, (receivedOnce_step_iff hs.once h).mpr hC⟩

end IOCPServer

/-- When the parts of the property hold: all of it, and the exactness of `OnReceive`, where no
connection is accepted; the single receive where the second `WSARecv` for a connection is refused
and no other is outstanding; and the open socket where the first one is accepted and the receives
complete before the socket is closed. -/
theorem oneReceive_iff (es : List ServerEvent) (s : IOCPServer)
    (h : run serverStep {} es = some s) :
    (Throughout serverStep IOCPServer.OneReceive {} es ↔
      Meets serverStep IOCPServer.NoAccept {} es) ∧
    (Throughout serverStep IOCPServer.SingleRecv {} es ↔
      Meets serverStep IOCPServer.AcceptsOne {} es) ∧
    (Throughout serverStep IOCPServer.NeverClosed {} es ↔
      Meets serverStep IOCPServer.Open {} es) ∧
    (Throughout serverStep IOCPServer.ReceivedOnce {} es ↔
      Meets serverStep IOCPServer.NoAccept {} es) := by
  have hsingle : ({} : IOCPServer).SingleRecv := fun _ _ => Nat.zero_le 1
  have hclosed : ({} : IOCPServer).NeverClosed := fun _ => List.not_mem_nil
  have honce : ({} : IOCPServer).ReceivedOnce := ⟨rfl, fun _ h => absurd h List.not_mem_nil⟩
  refine ⟨?_, ?_, ?_, ?_⟩
  · exact throughout_iff_meets_of (I := IOCPServer.NoRecv)
      (fun _ _ _ hI _ hC hst => IOCPServer.noRecv_step hI hC hst)
      (fun _ _ _ hI hP hst => IOCPServer.oneReceive_step_iff hI hP hst) (fun _ => rfl)
      ⟨hsingle, hclosed, honce⟩ h
  · exact throughout_iff_meets_of (I := IOCPServer.AtMostOne)
      (fun _ _ _ hI _ hC hst => IOCPServer.atMostOne_step hI hC hst)
      (fun _ _ _ hI _ hst => IOCPServer.singleRecv_step_iff hI hst) (fun _ => Nat.zero_le 1)
      hsingle h
  · exact throughout_iff_meets (I := fun _ => True) (fun _ _ _ _ _ => trivial)
      (fun _ _ _ _ hP hst => IOCPServer.neverClosed_step_iff hP hst) trivial hclosed h
  · exact throughout_iff_meets (I := fun _ => True) (fun _ _ _ _ _ => trivial)
      (fun _ _ _ _ hP hst => IOCPServer.receivedOnce_step_iff hP hst) trivial honce h

/-- One connection: its receives are posted on an open socket, but there are two of them. -/
theorem oneReceive_one_connection :
    Throughout serverStep IOCPServer.NeverClosed {}
        [.postAccept 0 10 true true, .completion ⟨.ACCEPT, 0, true, 0⟩ 0 {}] ∧
      ¬Throughout serverStep IOCPServer.SingleRecv {}
        [.postAccept 0 10 true true, .completion ⟨.ACCEPT, 0, true, 0⟩ 0 {}] := by
  obtain ⟨-, hsingle, hclosed, -⟩ := oneReceive_iff
    [.postAccept 0 10 true true, .completion ⟨.ACCEPT, 0, true, 0⟩ 0 {}] _ rfl
  refine ⟨hclosed.mpr ⟨⟨nofun, nofun⟩, fun t ht => ⟨⟨fun i outcomes h => ?_, nofun⟩, fun _ _ =>
    trivial⟩⟩, fun h => ?_⟩
  · obtain rfl := Option.some.inj ht
    obtain ⟨rfl, rfl⟩ := Prod.mk.inj (Option.some.inj h)
    rfl
  · exact absurd ((hsingle.mp h).2 _ rfl).1 fun hone => Bool.noConfusion (hone 0 {} rfl rfl).2

/-- A connection that is accepted has two receives outstanding, and `OnReceive` was called with no
bytes. -/
theorem two_receives_outstanding :
    ∃ s, run serverStep {} [.postAccept 0 10 true true,
        .completion ⟨.ACCEPT, 0, true, 0⟩ 0 {}] = some s ∧
      (s.mClientInfos 0).recvs = 2 ∧ s.onReceives = [⟨0, 0⟩] ∧ ¬s.OneReceive := by
  refine ⟨_, rfl, rfl, rfl, fun h => ?_⟩
  exact absurd (h.single 0 rfl) (by decide)

end IocpStudy.Iocpsolution
