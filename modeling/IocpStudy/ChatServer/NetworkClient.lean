import IocpStudy.OneSend

/-! ChatServer's `NetworkClient`: one slot of the client list, which is posted for accepting,
connected, closed and posted again, with the send queue of `IocpStudy.OneSend`.  The slot's `Clear`
is empty and a refused `WSASend` is not looked at, so the front of the queue is outstanding on the
socket of the slot exactly on the runs that give neither of them anything to do. -/

namespace IocpStudy.ChatServer

open Runs OneSend

/-- A socket, numbered in the order of creation. -/
abbrev Socket := ℕ

/-- `MAX_SOCK_RECVBUF`. -/
def maxSockRecvBuf : ℕ := 256

/-- `REUSE_SESSION_WAIT_TIMESEC`. -/
def reuseSessionWaitTimeSec : ℕ := 3

structure NetworkClient where
  mIsConnect : Bool := false
  mLatestClosedTimeSec : ℕ := 0
  mSocket : Option Socket := none
  mSendQueue : List StOverlappedEx := []

namespace NetworkClient

/-- `Clear`, whose body is empty. -/
def clear (c : NetworkClient) : NetworkClient := c

/-- `OnConnect`, with the outcome of its `WSARecv`.  `CreateIoCompletionPort` returns a null handle
where it fails, so the check of `BindIOCompletionPort` finds no failure. -/
def onConnect (c : NetworkClient) (socket_ : Option Socket) (bindRecv : Bool) :
    NetworkClient × Bool :=
  ({ c with mSocket := socket_, mIsConnect := true }.clear, bindRecv)

def acceptCompletion (c : NetworkClient) (bindRecv : Bool) : NetworkClient × Bool :=
  c.onConnect c.mSocket bindRecv

/-- `Close` at the time `now`, in seconds. -/
def close (c : NetworkClient) (now : ℕ) : NetworkClient :=
  { c with mIsConnect := false, mLatestClosedTimeSec := now, mSocket := none }

/-- `PostAccept`, with the socket that `WSASocket` returned and the outcome of `AcceptEx`. -/
def postAccept (c : NetworkClient) (socket : Option Socket) (acceptEx : Bool) :
    NetworkClient × Bool :=
  ({ c with mLatestClosedTimeSec := 4294967295, mSocket := socket }, socket.isSome && acceptEx)

/-- `IOCPServer::CloseSocket`. -/
def closeSocket (c : NetworkClient) (now : ℕ) : NetworkClient :=
  if c.mIsConnect then c.close now else c

/-- The acceptor thread calls `PostAccept` for the slot at the time `curTimeSec`. -/
def acceptable (c : NetworkClient) (curTimeSec : ℕ) : Bool :=
  !c.mIsConnect && decide (c.mLatestClosedTimeSec ≤ curTimeSec ∧
    reuseSessionWaitTimeSec < curTimeSec - c.mLatestClosedTimeSec)

end NetworkClient

/-- The slot with the number of sockets and of send entries created so far, the number of
outstanding `AcceptEx` calls, and the accepted `WSASend` calls that have not completed. -/
structure SlotState where
  client : NetworkClient := {}
  sockets : ℕ := 0
  allocated : ℕ := 0
  accepting : ℕ := 0
  outstanding : List (Socket × StOverlappedEx) := []

/-- `sent i` and `sendFailed i` are the completions of the outstanding `WSASend` number `i`, and
`closeSocket` is a receive completion that fails or has no bytes.  `wsaSend` is the outcome of the
`WSASend` that a lock section may call. -/
inductive SlotEvent
  | postAccept (curTimeSec : ℕ) (wsaSocket acceptEx : Bool)
  | acceptCompletion (bindRecv : Bool) (now : ℕ)
  | closeSocket (now : ℕ)
  | sendMsg (pMsg : List UInt8) (wsaSend : Bool)
  | sent (i : ℕ) (wsaSend : Bool)
  | sendFailed (i now : ℕ)
deriving Repr, DecidableEq

/-- The slot behind a lock section.  Without a socket `WSASend` is refused. -/
def SlotState.left (s : SlotState) (r : LockSection) (wsaSend : Bool) : SlotState :=
  { s with
    client := { s.client with mSendQueue := r.mSendQueue }
    outstanding := s.outstanding ++ match s.client.mSocket, r.wsaSend with
      | some socket, some entry => if wsaSend then [(socket, entry)] else []
      | _, _ => [] }

def slotStep (s : SlotState) : SlotEvent → Option SlotState
  | .postAccept curTimeSec wsaSocket acceptEx =>
    if s.client.acceptable curTimeSec then
      let (client, posted) := s.client.postAccept (if wsaSocket then some s.sockets else none)
        acceptEx
      some { s with
        client
        sockets := s.sockets + 1
        accepting := if posted then s.accepting + 1 else s.accepting }
    else none
  | .acceptCompletion bindRecv now =>
    if s.accepting = 0 then none
    else
      let (client, connected) := s.client.acceptCompletion bindRecv
      some { s with
        client := if connected then client else client.closeSocket now
        accepting := s.accepting - 1 }
  | .closeSocket now => some { s with client := s.client.closeSocket now }
  | .sendMsg pMsg wsaSend =>
    let r := sendMsg s.client.mSendQueue ⟨s.allocated, pMsg⟩
    some ({ s with allocated := s.allocated + 1 }.left r wsaSend)
  | .sent i wsaSend =>
    if i < s.outstanding.length then
      (sendCompleted s.client.mSendQueue).map fun r =>
        { s with outstanding := s.outstanding.eraseIdx i }.left r wsaSend
    else none
  | .sendFailed i now =>
    if i < s.outstanding.length then
      some { s with
        client := s.client.closeSocket now
        outstanding := s.outstanding.eraseIdx i }
    else none

/-- The `WSASend` of the front of the queue is outstanding on the socket of the slot. -/
def SlotState.FrontOutstanding (s : SlotState) : Prop :=
  ∃ front socket, s.client.mSendQueue.head? = some front ∧ s.client.mSocket = some socket ∧
    (socket, front) ∈ s.outstanding

/-- While the slot is connected, its queue moves. -/
def SlotState.Moving (s : SlotState) : Prop :=
  s.client.mIsConnect = true → s.client.mSendQueue ≠ [] → s.FrontOutstanding

/-- While the slot is connected, a `WSASend` is accepted; and a slot is connected with an empty
queue or with the front of it outstanding on its socket. -/
def SlotState.Unfailing (s : SlotState) : SlotEvent → Prop
  | .sendMsg _ wsaSend => s.client.mIsConnect = true → s.client.mSendQueue = [] →
    wsaSend = true ∧ s.client.mSocket.isSome
  | .sent _ wsaSend => s.client.mIsConnect = true → 2 ≤ s.client.mSendQueue.length →
    wsaSend = true ∧ s.client.mSocket.isSome
  | .acceptCompletion bindRecv _ => bindRecv = true → s.client.mSendQueue ≠ [] →
    s.FrontOutstanding
  | _ => True

/-- At most the front of the queue is outstanding. -/
def SlotState.FrontOnly (s : SlotState) : Prop :=
  s.outstanding = [] ∨
    ∃ front q socket, s.client.mSendQueue = front :: q ∧ s.outstanding = [(socket, front)]

variable {s t : SlotState} {e : SlotEvent} {es : List SlotEvent}

theorem SlotState.FrontOnly.completed (hs : s.FrontOnly) {i : ℕ} (hi : i < s.outstanding.length) :
    ∃ front q, s.client.mSendQueue = front :: q ∧ s.outstanding.eraseIdx i = [] := by
  rcases hs with h | ⟨front, q, socket, hq, h⟩
  · simp [h] at hi
  · rw [h] at hi ⊢
    obtain rfl : i = 0 := by simpa using hi
    exact ⟨front, q, hq, rfl⟩

/-- A lock section that gives the front of its queue to `WSASend`, where nothing is outstanding. -/
theorem SlotState.left_call (q : List StOverlappedEx) (wsaSend : Bool) (h : s.outstanding = []) :
    (s.left ⟨q, q.head?⟩ wsaSend).FrontOnly ∧
    ((s.left ⟨q, q.head?⟩ wsaSend).FrontOutstanding ↔
      q ≠ [] ∧ wsaSend = true ∧ s.client.mSocket.isSome) := by
  rcases q with - | ⟨front, q⟩
  · simp [left, FrontOnly, FrontOutstanding, h]
  · rcases hsocket : s.client.mSocket with - | socket
    · simp [left, FrontOnly, FrontOutstanding, h, hsocket]
    · cases wsaSend <;> simp [left, FrontOnly, FrontOutstanding, h, hsocket]

theorem SlotState.left_keep {front : StOverlappedEx} {q : List StOverlappedEx}
    (q' : List StOverlappedEx) (wsaSend : Bool) (hs : s.FrontOnly)
    (hq : s.client.mSendQueue = front :: q) :
    (s.left ⟨front :: q', none⟩ wsaSend).FrontOnly ∧
    ((s.left ⟨front :: q', none⟩ wsaSend).FrontOutstanding ↔ s.FrontOutstanding) := by
  have hsame : (s.left ⟨front :: q', none⟩ wsaSend).outstanding = s.outstanding := by
    simp only [left]
    cases s.client.mSocket <;> simp
  refine ⟨?_, by simp only [FrontOutstanding, hsame, hq]; rfl⟩
  rcases hs with h | ⟨front', q'', socket, hq', h⟩
  · exact Or.inl (hsame.trans h)
  · obtain ⟨rfl, rfl⟩ := List.cons.inj (hq.symm.trans hq')
    exact Or.inr ⟨front, q', socket, rfl, hsame.trans h⟩

theorem NetworkClient.closeSocket_mSendQueue (c : NetworkClient) (now : ℕ) :
    (c.closeSocket now).mSendQueue = c.mSendQueue := by
  unfold closeSocket
  split_ifs <;> rfl

theorem NetworkClient.closeSocket_mIsConnect (c : NetworkClient) (now : ℕ) :
    (c.closeSocket now).mIsConnect = false := by
  unfold closeSocket
  split_ifs with h
  · rfl
  · simpa using h

/-- What one event does, where at most the front of the queue is outstanding. -/
theorem slotStep_cases (hs : s.FrontOnly) (h : slotStep s e = some t) :
    (∃ pMsg wsaSend entry, e = .sendMsg pMsg wsaSend ∧ s.client.mSendQueue = [] ∧
      t = { s with allocated := s.allocated + 1 }.left ⟨[entry], [entry].head?⟩ wsaSend) ∨
    (∃ pMsg wsaSend entry front q, e = .sendMsg pMsg wsaSend ∧
      s.client.mSendQueue = front :: q ∧
      t = { s with allocated := s.allocated + 1 }.left ⟨front :: (q ++ [entry]), none⟩ wsaSend) ∨
    (∃ i wsaSend front q, e = .sent i wsaSend ∧ s.client.mSendQueue = front :: q ∧
      t = { s with outstanding := [] }.left ⟨q, q.head?⟩ wsaSend) ∨
    (∃ now, e = .acceptCompletion true now ∧ t.client.mIsConnect = true ∧
      t.client.mSocket = s.client.mSocket ∧ t.client.mSendQueue = s.client.mSendQueue ∧
      t.outstanding = s.outstanding) ∨
    (s.Unfailing e ∧ t.client.mIsConnect = false ∧ t.client.mSendQueue = s.client.mSendQueue ∧
      (t.outstanding = s.outstanding ∨ t.outstanding = [])) := by
  cases e with
  | postAccept curTimeSec wsaSocket acceptEx =>
    by_cases hready : s.client.acceptable curTimeSec
    swap
    · simp [slotStep, hready] at h
    simp only [slotStep, if_pos hready] at h
    obtain rfl := Option.some.inj h
    have hclosed : s.client.mIsConnect = false := by
      simp only [NetworkClient.acceptable, Bool.and_eq_true, Bool.not_eq_true'] at hready
      exact hready.1
    exact .inr (.inr (.inr (.inr ⟨trivial, hclosed, rfl, Or.inl rfl⟩)))
  | acceptCompletion bindRecv now =>
    by_cases hnone : s.accepting = 0
    · simp [slotStep, hnone] at h
    simp only [slotStep, if_neg hnone] at h
    cases bindRecv with
    | true =>
      obtain rfl := Option.some.inj h
      exact .inr (.inr (.inr (.inl ⟨now, rfl, rfl, rfl, rfl, rfl⟩)))
    | false =>
      obtain rfl := Option.some.inj h
      refine .inr (.inr (.inr (.inr ⟨?_, ?_, ?_, Or.inl rfl⟩)))
      · intro hfalse
        cases hfalse
      · exact NetworkClient.closeSocket_mIsConnect (s.client.acceptCompletion false).1 now
      · exact NetworkClient.closeSocket_mSendQueue (s.client.acceptCompletion false).1 now
  | closeSocket now =>
    obtain rfl := Option.some.inj h
    exact .inr (.inr (.inr (.inr ⟨trivial, NetworkClient.closeSocket_mIsConnect _ now,
      NetworkClient.closeSocket_mSendQueue _ now, Or.inl rfl⟩)))
  | sendMsg pMsg wsaSend =>
    obtain rfl := Option.some.inj h
    rcases hq : s.client.mSendQueue with - | ⟨front, q⟩
    · exact .inl ⟨pMsg, wsaSend, _, rfl, rfl, rfl⟩
    · refine .inr (.inl ⟨pMsg, wsaSend, ⟨s.allocated, pMsg⟩, front, q, rfl, rfl, ?_⟩)
      rw [sendMsg_cons]
  | sent i wsaSend =>
    simp only [slotStep] at h
    split_ifs at h with hi
    obtain ⟨front, q, hq, hnone⟩ := hs.completed hi
    simp only [hq, sendCompleted_cons, hnone, Option.map_some] at h
    obtain rfl := Option.some.inj h
    exact .inr (.inr (.inl ⟨i, wsaSend, front, q, rfl, hq, rfl⟩))
  | sendFailed i now =>
    simp only [slotStep] at h
    split_ifs at h with hi
    obtain rfl := Option.some.inj h
    obtain ⟨-, -, -, hnone⟩ := hs.completed hi
    exact .inr (.inr (.inr (.inr ⟨trivial, NetworkClient.closeSocket_mIsConnect _ now,
      NetworkClient.closeSocket_mSendQueue _ now, Or.inr hnone⟩)))

theorem frontOnly_step (hs : s.FrontOnly) (h : slotStep s e = some t) : t.FrontOnly := by
  obtain ⟨pMsg, wsaSend, entry, rfl, hq, rfl⟩ | ⟨pMsg, wsaSend, entry, front, q, rfl, hq, rfl⟩ |
    ⟨i, wsaSend, front, q, rfl, hq, rfl⟩ | ⟨now, rfl, -, -, hqueue, hout⟩ |
    ⟨-, -, hqueue, hout⟩ := slotStep_cases hs h
  · have hnone : s.outstanding = [] := by
      rcases hs with h | ⟨front, q, socket, hq', -⟩
      · exact h
      · simp [hq] at hq'
    exact (SlotState.left_call (s := { s with allocated := s.allocated + 1 }) _ wsaSend hnone).1
  · exact (SlotState.left_keep (s := { s with allocated := s.allocated + 1 }) _ wsaSend hs hq).1
  · exact (SlotState.left_call (s := { s with outstanding := [] }) _ wsaSend rfl).1
  · unfold SlotState.FrontOnly
    rw [hout, hqueue]
    exact hs
  · rcases hout with hout | hout
    · unfold SlotState.FrontOnly
      rw [hout, hqueue]
      exact hs
    · exact Or.inl hout

/-- A step keeps the queue moving if and only if it is unfailing. -/
theorem moving_step_iff (hs : s.FrontOnly) (hP : s.Moving) (h : slotStep s e = some t) :
    t.Moving ↔ s.Unfailing e := by
  obtain ⟨pMsg, wsaSend, entry, rfl, hq, rfl⟩ | ⟨pMsg, wsaSend, entry, front, q, rfl, hq, rfl⟩ |
    ⟨i, wsaSend, front, q, rfl, hq, rfl⟩ | ⟨now, rfl, hconn, hsocket, hqueue, hout⟩ |
    ⟨hunfailing, hclosed, -, -⟩ := slotStep_cases hs h
  · have hnone : s.outstanding = [] := by
      rcases hs with h | ⟨front, q, socket, hq', -⟩
      · exact h
      · simp [hq] at hq'
    have hcall := (SlotState.left_call (s := { s with allocated := s.allocated + 1 })
      [entry] wsaSend hnone).2
    simp only [SlotState.Moving, hcall, SlotState.Unfailing]
    constructor
    · intro hmoving hconn _
      exact (hmoving hconn (by simp [SlotState.left])).2
    · intro hunfailing hconn _
      exact ⟨by simp, hunfailing hconn hq⟩
  · have hkeep := (SlotState.left_keep (s := { s with allocated := s.allocated + 1 })
      (q ++ [entry]) wsaSend hs hq).2
    simp only [SlotState.Moving, hkeep, SlotState.Unfailing]
    constructor
    · intro _ _ hempty
      simp [hq] at hempty
    · intro _ hconn _
      exact hP hconn (by simp [hq])
  · have hcall := (SlotState.left_call (s := { s with outstanding := [] }) q wsaSend rfl).2
    simp only [SlotState.Moving, hcall, SlotState.Unfailing, hq, List.length_cons]
    constructor
    · intro hmoving hconn hlength
      have hne : q ≠ [] := by
        rintro rfl
        simp at hlength
      exact (hmoving hconn hne).2
    · intro hunfailing hconn hne
      have hlength : 0 < q.length := List.length_pos_iff.mpr hne
      exact ⟨hne, hunfailing hconn (by omega)⟩
  · simp only [SlotState.Moving, SlotState.Unfailing, SlotState.FrontOutstanding, hsocket, hqueue,
      hout, hconn, forall_const]
  · simp only [SlotState.Moving, hclosed, Bool.false_eq_true, false_implies, true_iff]
    exact hunfailing

/-- On exactly the unfailing runs the queue of a connected slot moves in every state. -/
theorem moving_iff_unfailing (es : List SlotEvent) (s : SlotState)
    (h : run slotStep {} es = some s) :
    Throughout slotStep SlotState.Moving {} es ↔ Meets slotStep SlotState.Unfailing {} es := by
  refine throughout_iff_meets (I := SlotState.FrontOnly) (fun _ _ _ hs hst => frontOnly_step hs hst)
    (fun _ _ _ hs hP hst => moving_step_iff hs hP hst) (Or.inl rfl) ?_ h
  intro hconn
  cases hconn

/-- A connection with one message sent. -/
theorem moving_one_message : Throughout slotStep SlotState.Moving {}
    [.postAccept 10 true true, .acceptCompletion true 10, .sendMsg [1] true, .sent 0 true] := by
  refine (moving_iff_unfailing _ _ rfl).mpr ⟨trivial, fun _ ht => ?_⟩
  obtain rfl := Option.some.inj ht
  refine ⟨fun _ hne => absurd rfl hne, fun _ ht => ?_⟩
  obtain rfl := Option.some.inj ht
  refine ⟨fun _ _ => ⟨rfl, rfl⟩, fun _ ht => ?_⟩
  obtain rfl := Option.some.inj ht
  refine ⟨fun _ hlength => absurd hlength (by decide), fun _ _ => trivial⟩

/-- A send whose completion fails leaves its entry in the queue, and on the next connection of the
slot a message waits behind it with nothing outstanding. -/
theorem stuck_behind_failed_send :
    ∃ s, run slotStep {} [.postAccept 10 true true, .acceptCompletion true 10, .sendMsg [1] true,
        .sendFailed 0 20, .postAccept 30 true true, .acceptCompletion true 30,
        .sendMsg [2] true] = some s ∧
      s.client.mIsConnect = true ∧ s.client.mSendQueue.length = 2 ∧ s.outstanding = [] ∧
      ¬s.Moving := by
  refine ⟨_, rfl, rfl, rfl, rfl, fun hP => ?_⟩
  obtain ⟨front, socket, -, -, hout⟩ := hP rfl (List.cons_ne_nil _ _)
  cases hout

end IocpStudy.ChatServer
