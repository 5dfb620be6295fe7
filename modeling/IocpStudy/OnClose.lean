import IocpStudy.ChatServer.Acceptor
import IocpStudy.Iocpsolution.IOCPServer

/-! `CloseSocket` of the two `IOCPServer` classes.  ChatServer's returns early for a slot that is
not connected, and forgets `OnClose`; iocpsolution's calls `OnClose`, whether the slot is connected
or not. -/

namespace IocpStudy

open Runs

/-! ### ChatServer -/

namespace ChatServer

namespace AcceptorState

def record (s : AcceptorState) : CallRecord :=
  ⟨fun i => (s.mClientList i).mIsConnect, s.callbacks⟩

/-- The slot of a completion is not connected: it is accepted only then, and never closed. -/
def Unconnected (s : AcceptorState) : AcceptorEvent → Prop
  | .readClock _ => True
  | .acceptor _ _ => True
  | .acceptCompletion clientIndex _ _ => (s.mClientList clientIndex).mIsConnect = false
  | .closeSocket clientIndex _ => (s.mClientList clientIndex).mIsConnect = false

variable {s t : AcceptorState} {e : AcceptorEvent} {i now maxClientCount : ℕ}

theorem record_calls (s : AcceptorState) (i : ℕ) (client : NetworkClient) (callback : Callback) :
    ((s.setClient i client).calls i callback).record =
      s.record.set i client.mIsConnect (s.callbacks i ++ [callback]) :=
  (CallRecord.set_mk NetworkClient.mIsConnect s.mClientList s.callbacks i client _).symm

theorem record_setClient (s : AcceptorState) (i : ℕ) (client : NetworkClient) :
    (s.setClient i client).record = s.record.set i client.mIsConnect (s.callbacks i) := by
  refine Eq.trans ?_ (CallRecord.set_mk NetworkClient.mIsConnect s.mClientList s.callbacks i client
    (s.callbacks i)).symm
  rw [Function.update_eq_self]
  rfl

/-- `CloseSocket` takes a connected slot away without a call. -/
theorem closeSocket_record (s : AcceptorState) (i now : ℕ) :
    (s.closeSocket i now).record = s.record.set i false (s.callbacks i) := by
  cases hconnected : (s.mClientList i).mIsConnect with
  | true =>
    rw [closeSocket, if_pos hconnected]
    exact record_setClient s i _
  | false =>
    rw [closeSocket, hconnected, if_neg Bool.false_ne_true]
    exact (CallRecord.set_eq_self (r := s.record) hconnected).symm

theorem acceptorThread_record {wsaSocket acceptEx : Bool}
    (h : s.acceptorThread maxClientCount wsaSocket acceptEx = some t) : t.record = s.record := by
  obtain ⟨i, cur, -, ⟨point, rfl, -⟩ | ⟨-, rfl⟩⟩ := acceptorThread_cases h
  · rfl
  · exact (record_setClient s i _).trans (CallRecord.set_eq_self (r := s.record) rfl)

theorem record_step (h : acceptorStep maxClientCount s e = some t) :
    s.record.Step (s.Unconnected e) t.record := by
  obtain ⟨curTimeSec, rfl, -, rfl⟩ | ⟨wsaSocket, acceptEx, rfl, h⟩ |
    ⟨i, bindRecv, now, rfl, -, rfl⟩ | ⟨i, now, rfl, -, rfl⟩ := acceptorStep_cases h
  · exact .silent trivial
  · rw [acceptorThread_record h]
    exact .silent trivial
  · cases bindRecv with
    | true =>
      have hconnect : (acceptCompletion { s with clock := now } i true now).record =
          s.record.set i true (s.callbacks i ++ [.OnConnect]) := record_calls _ i _ .OnConnect
      rw [hconnect]
      exact .onConnect i Iff.rfl
    | false =>
      have hclose : (acceptCompletion { s with clock := now } i false now).record =
          s.record.set i false (s.callbacks i) := by
        refine (closeSocket_record _ i now).trans ?_
        rw [record_setClient]
        simp only [CallRecord.set, Function.update_idem]
        rfl
      rw [hclose]
      exact .unreported i Iff.rfl
  · rw [closeSocket_record]
    exact .unreported i Iff.rfl

end AcceptorState

end ChatServer

/-! ### iocpsolution -/

namespace Iocpsolution

/-- The call of `OnConnect` or `OnClose` in an iteration of `WorkerThread`: `OnConnect` where
`AcceptCompletion` succeeds, and `OnClose` wherever it calls `CloseSocket`. -/
def IOCPServer.callback (s : IOCPServer) (c : Completion) (outcomes : Outcomes) :
    Option Callback :=
  if c.bSuccess = false ∨ (c.dwIoSize = 0 ∧ c.m_eOperation ≠ .ACCEPT) then some .OnClose
  else
    match c.m_eOperation with
    | .ACCEPT =>
      if ((s.mClientInfos c.mSessionIndex).acceptCompletion outcomes.connectRecv).2 then
        some .OnConnect
      else some .OnClose
    | .RECV => none
    | .SEND => none

/-- The server with the calls of `OnConnect` and `OnClose` for each client index. -/
structure CallingServer where
  server : IOCPServer := {}
  callbacks : ℕ → List Callback := fun _ => []

def callingStep (s : CallingServer) (e : ServerEvent) : Option CallingServer :=
  (serverStep s.server e).map fun server =>
    match e with
    | .postAccept _ _ _ _ => { s with server }
    | .sendMsg _ _ _ => { s with server }
    | .completion c _ outcomes =>
      { server
        callbacks := Function.update s.callbacks c.mSessionIndex
          (s.callbacks c.mSessionIndex ++ (s.server.callback c outcomes).toList) }

namespace CallingServer

def record (s : CallingServer) : CallRecord :=
  ⟨fun i => (s.server.mClientInfos i).mIsConnect, s.callbacks⟩

/-- A receive or a send that fails, or has no bytes, finds its client connected, and so does an
accept whose first receive is refused; any other accept finds it not connected. -/
def ClosesOnce (s : CallingServer) : ServerEvent → Prop
  | .postAccept _ _ _ _ => True
  | .sendMsg _ _ _ => True
  | .completion c _ outcomes =>
    let client := s.server.mClientInfos c.mSessionIndex
    if c.m_eOperation = .ACCEPT then client.mIsConnect = !client.allows outcomes.connectRecv
    else c.bSuccess = false ∨ c.dwIoSize = 0 → client.mIsConnect = true

end CallingServer

section

variable {s : IOCPServer} {c c' : NetworkClient} {operation : IOOperation} {i : ℕ}

theorem dequeued_mIsConnect (h : c.dequeued operation i = some c') :
    c'.mIsConnect = c.mIsConnect := by
  cases operation with
  | ACCEPT =>
    simp only [NetworkClient.dequeued] at h
    split_ifs at h
    exact (Option.some.inj h) ▸ rfl
  | RECV =>
    simp only [NetworkClient.dequeued] at h
    split_ifs at h
    exact (Option.some.inj h) ▸ rfl
  | SEND =>
    simp only [NetworkClient.dequeued] at h
    split_ifs at h
    exact (Option.some.inj h) ▸ rfl

/-- The `ACCEPT` case leaves its client connected exactly where the first receive is accepted, and
the `RECV` case behind it changes nothing of that. -/
theorem accept_mIsConnect (s : IOCPServer) (i : ℕ) (outcomes : Outcomes) :
    ∃ c', ((s.acceptCase i outcomes.connectRecv outcomes.now).recvCase i 0
        outcomes.wsaRecv).mClientInfos = Function.update s.mClientInfos i c' ∧
      c'.mIsConnect = (s.mClientInfos i).allows outcomes.connectRecv := by
  cases hallows : (s.mClientInfos i).allows outcomes.connectRecv with
  | true =>
    simp only [IOCPServer.acceptCase, acceptCompletion_of_allows hallows, IOCPServer.recvCase,
      IOCPServer.setClient, Function.update_self, Function.update_idem]
    exact ⟨_, rfl, rfl⟩
  | false =>
    simp only [IOCPServer.acceptCase, acceptCompletion_of_refused hallows, IOCPServer.recvCase,
      IOCPServer.closeSocket, IOCPServer.setClient, Function.update_self, Function.update_idem]
    exact ⟨_, rfl, rfl⟩

/-- The call that a completion leads to, and whether its client is connected behind it. -/
inductive Calls (client : NetworkClient) (c : Completion) (outcomes : Outcomes) :
    Option Callback → Bool → Prop
  | silent (hoperation : c.m_eOperation ≠ .ACCEPT)
      (hworks : ¬(c.bSuccess = false ∨ c.dwIoSize = 0)) :
      Calls client c outcomes none client.mIsConnect
  | failed (hoperation : c.m_eOperation ≠ .ACCEPT) (hfails : c.bSuccess = false ∨ c.dwIoSize = 0) :
      Calls client c outcomes (some .OnClose) false
  | accepted (hoperation : c.m_eOperation = .ACCEPT)
      (hallows : client.allows outcomes.connectRecv = true) :
      Calls client c outcomes (some .OnConnect) true
  | refused (hoperation : c.m_eOperation = .ACCEPT)
      (hallows : client.allows outcomes.connectRecv = false) :
      Calls client c outcomes (some .OnClose) false

theorem callback_of_accept {c : Completion} (s : IOCPServer) (outcomes : Outcomes)
    (hoperation : c.m_eOperation = .ACCEPT) (hsuccess : c.bSuccess = true) :
    s.callback c outcomes =
      if (s.mClientInfos c.mSessionIndex).allows outcomes.connectRecv then some .OnConnect
      else some .OnClose := by
  rw [IOCPServer.callback, if_neg (by simp [hoperation, hsuccess]), hoperation]
  cases hallows : (s.mClientInfos c.mSessionIndex).allows outcomes.connectRecv with
  | true => rw [acceptCompletion_of_allows hallows]
  | false => rw [acceptCompletion_of_refused hallows]

theorem calls_of_completion {t : IOCPServer} {c : Completion} {outcomes : Outcomes}
    (h : serverStep s (.completion c i outcomes) = some t) :
    ∃ c', t.mClientInfos = Function.update s.mClientInfos c.mSessionIndex c' ∧
      Calls (s.mClientInfos c.mSessionIndex) c outcomes (s.callback c outcomes) c'.mIsConnect := by
  obtain ⟨client, hdequeued, hhandled⟩ := handled_of_completion h
  have hconnect := dequeued_mIsConnect hdequeued
  have hsocket := (dequeued_cases hdequeued).1
  cases hhandled with
  | closed hoperation hfails =>
    refine ⟨client.close outcomes.now, rfl, ?_⟩
    rw [IOCPServer.callback, if_pos (hfails.imp_right fun hzero => ⟨hzero, hoperation⟩)]
    exact .failed hoperation hfails
  | accepted hoperation hsuccess =>
    obtain ⟨c', hclients, hallowed⟩ :=
      accept_mIsConnect (s.setClient c.mSessionIndex client) c.mSessionIndex outcomes
    simp only [IOCPServer.setClient, Function.update_idem] at hclients
    simp only [IOCPServer.setClient, Function.update_self, NetworkClient.allows, hsocket]
      at hallowed
    refine ⟨c', hclients, ?_⟩
    rw [callback_of_accept s outcomes hoperation hsuccess, hallowed, ← NetworkClient.allows]
    cases hallows : (s.mClientInfos c.mSessionIndex).allows outcomes.connectRecv with
    | true => exact .accepted hoperation hallows
    | false => exact .refused hoperation hallows
  | received hoperation hsuccess hsize =>
    refine ⟨(client.bindRecv outcomes.wsaRecv).1, rfl, ?_⟩
    rw [IOCPServer.callback, if_neg (by simp [hsuccess, hsize]), hoperation]
    show Calls _ _ _ none client.mIsConnect
    rw [hconnect]
    exact .silent (by simp [hoperation]) (by simp [hsuccess, hsize])
  | sent hoperation hsuccess hsize =>
    refine ⟨_, rfl, ?_⟩
    rw [IOCPServer.callback, if_neg (by simp [hsuccess, hsize]), hoperation]
    show Calls _ _ _ none client.mIsConnect
    rw [hconnect]
    exact .silent (by simp [hoperation]) (by simp [hsuccess, hsize])

end

namespace CallingServer

variable {s t : CallingServer} {e : ServerEvent}

/-- A step that leaves the connection of one client as `c'` has it. -/
theorem record_eq {server : IOCPServer} {i : ℕ} {c' : NetworkClient} (calls : List Callback)
    (hclients : server.mClientInfos = Function.update s.server.mClientInfos i c') :
    (⟨server, Function.update s.callbacks i calls⟩ : CallingServer).record =
      s.record.set i c'.mIsConnect calls := by
  rw [record, hclients]
  exact (CallRecord.set_mk NetworkClient.mIsConnect s.server.mClientInfos s.callbacks i c' _).symm

theorem record_eq_self {server : IOCPServer} {i : ℕ} {c' : NetworkClient}
    (hclients : server.mClientInfos = Function.update s.server.mClientInfos i c')
    (hconnect : c'.mIsConnect = (s.server.mClientInfos i).mIsConnect) :
    (⟨server, s.callbacks⟩ : CallingServer).record = s.record := by
  have h := record_eq (s.callbacks i) hclients
  rw [Function.update_eq_self] at h
  exact h.trans (CallRecord.set_eq_self (r := s.record) hconnect.symm)

/-- Only a completion connects a client, or takes a connection away. -/
theorem record_of_no_completion {server : IOCPServer} (h : serverStep s.server e = some server)
    (he : ∀ c i outcomes, e ≠ .completion c i outcomes) :
    (⟨server, s.callbacks⟩ : CallingServer).record = s.record := by
  cases e with
  | postAccept i curTimeSec wsaSocket acceptEx =>
    simp only [serverStep] at h
    by_cases hskips : s.server.skips i curTimeSec = true
    · rw [if_pos hskips] at h
      obtain rfl := Option.some.inj h
      rfl
    · rw [if_neg hskips] at h
      obtain rfl := Option.some.inj h
      refine record_eq_self rfl ?_
      rw [NetworkClient.postAccept]
      split_ifs <;> rfl
  | sendMsg i pMsg wsaSend =>
    obtain rfl := Option.some.inj h
    exact record_eq_self (show (s.server.setClient i _).mClientInfos =
      Function.update _ i ((s.server.mClientInfos i).sendMsg pMsg wsaSend) from rfl) rfl
  | completion c i outcomes => exact absurd rfl (he c i outcomes)

theorem record_step (h : callingStep s e = some t) : s.record.Step (s.ClosesOnce e) t.record := by
  obtain ⟨server, hserver, rfl⟩ := Option.map_eq_some_iff.mp h
  cases e with
  | postAccept i curTimeSec wsaSocket acceptEx =>
    show s.record.Step True (CallingServer.record ⟨server, s.callbacks⟩)
    rw [record_of_no_completion hserver nofun]
    exact .silent trivial
  | sendMsg i pMsg wsaSend =>
    show s.record.Step True (CallingServer.record ⟨server, s.callbacks⟩)
    rw [record_of_no_completion hserver nofun]
    exact .silent trivial
  | completion c i outcomes =>
    obtain ⟨c', hclients, hcalls⟩ := calls_of_completion hserver
    have hrecord := record_eq (s.callbacks c.mSessionIndex ++
      (s.server.callback c outcomes).toList) hclients
    show s.record.Step _ (CallingServer.record ⟨server, _⟩)
    rw [hrecord]
    generalize s.server.callback c outcomes = callback at hcalls ⊢
    generalize c'.mIsConnect = connected at hcalls ⊢
    cases hcalls with
    | silent hoperation hworks =>
      have hsame : s.record.set c.mSessionIndex
          (s.server.mClientInfos c.mSessionIndex).mIsConnect (s.callbacks c.mSessionIndex) =
          s.record := CallRecord.set_eq_self (r := s.record) rfl
      rw [Option.toList_none, List.append_nil, hsame]
      apply CallRecord.Step.silent
      simp only [ClosesOnce, if_neg hoperation]
      exact fun hfails => absurd hfails hworks
    | failed hoperation hfails =>
      refine .onClose c.mSessionIndex ?_
      simp only [ClosesOnce, if_neg hoperation]
      exact ⟨fun hC => hC hfails, fun hC _ => hC⟩
    | accepted hoperation hallows =>
      refine .onConnect c.mSessionIndex ?_
      simp only [ClosesOnce, if_pos hoperation, hallows]
      exact Iff.rfl
    | refused hoperation hallows =>
      refine .onClose c.mSessionIndex ?_
      simp only [ClosesOnce, if_pos hoperation, hallows]
      exact Iff.rfl

end CallingServer

end Iocpsolution

/-! ### Runs -/

theorem record_start_reported : CallRecord.Reported ⟨fun _ => false, fun _ => []⟩ :=
  fun _ h => absurd h Bool.false_ne_true

theorem record_start_paired : CallRecord.Paired ⟨fun _ => false, fun _ => []⟩ :=
  fun _ => ⟨alternating_nil, nofun⟩

/-- When the calls of `OnConnect` and `OnClose` are paired: in ChatServer where no connection is
ever closed, and in iocpsolution where nothing fails on a client that is not connected, but for a
connection that is accepted. -/
theorem callbacks_paired_iff (maxClientCount : ℕ) (es : List ChatServer.AcceptorEvent)
    (s : ChatServer.AcceptorState)
    (h : run (ChatServer.acceptorStep maxClientCount) {} es = some s)
    (es' : List Iocpsolution.ServerEvent) (s' : Iocpsolution.CallingServer)
    (h' : run Iocpsolution.callingStep {} es' = some s') :
    (Throughout (ChatServer.acceptorStep maxClientCount) (fun s => s.record.Paired) {} es ↔
      Meets (ChatServer.acceptorStep maxClientCount) ChatServer.AcceptorState.Unconnected {} es) ∧
    (Throughout Iocpsolution.callingStep (fun s => s.record.Paired) {} es' ↔
      Meets Iocpsolution.callingStep Iocpsolution.CallingServer.ClosesOnce {} es') := by
  constructor
  · refine throughout_iff_meets (I := fun s => s.record.Reported) ?_ ?_ record_start_reported
      record_start_paired h
    · exact fun s e t hs hst => (ChatServer.AcceptorState.record_step hst).reported hs
    · exact fun s e t hs hP hst => (ChatServer.AcceptorState.record_step hst).paired_iff hs hP
  · refine throughout_iff_meets (I := fun s => s.record.Reported) ?_ ?_ record_start_reported
      record_start_paired h'
    · exact fun s e t hs hst => (Iocpsolution.CallingServer.record_step hst).reported hs
    · exact fun s e t hs hP hst => (Iocpsolution.CallingServer.record_step hst).paired_iff hs hP

/-- A connection in each server, which iocpsolution closes when its receive fails. -/
theorem paired_one_connection :
    Throughout (ChatServer.acceptorStep 1) (fun s => s.record.Paired) {}
        (ChatServer.oneConnection.take 6) ∧
      Throughout Iocpsolution.callingStep (fun s => s.record.Paired) {}
        [.postAccept 0 10 true true, .completion ⟨.ACCEPT, 0, true, 0⟩ 0 {},
          .completion ⟨.RECV, 0, false, 0⟩ 0 {}] := by
  obtain ⟨hchat, hsolution⟩ := callbacks_paired_iff 1 (ChatServer.oneConnection.take 6) _ rfl
    [.postAccept 0 10 true true, .completion ⟨.ACCEPT, 0, true, 0⟩ 0 {},
      .completion ⟨.RECV, 0, false, 0⟩ 0 {}] _ rfl
  refine ⟨hchat.mpr ?_, hsolution.mpr ?_⟩
  · refine (meets_cons rfl).mpr ⟨trivial, (meets_cons rfl).mpr ⟨trivial, ?_⟩⟩
    refine (meets_cons rfl).mpr ⟨trivial, (meets_cons rfl).mpr ⟨trivial, ?_⟩⟩
    exact (meets_cons rfl).mpr ⟨trivial, (meets_cons rfl).mpr ⟨by rfl, meets_nil⟩⟩
  · refine (meets_cons rfl).mpr ⟨trivial, (meets_cons rfl).mpr ⟨by rfl, ?_⟩⟩
    exact (meets_cons rfl).mpr ⟨fun _ => rfl, meets_nil⟩

/-- ChatServer connects a slot, closes it, and connects it again without an `OnClose`; and in
iocpsolution a connection whose receive and send both fail has two. -/
theorem never_closed_and_closed_twice :
    (∃ s, run (ChatServer.acceptorStep 1) {} (ChatServer.oneConnection ++
        [.readClock 20, .acceptor true true, .acceptor true true, .acceptor true true,
          .acceptor true true, .acceptCompletion 0 true 21]) = some s ∧
      s.callbacks 0 = [.OnConnect, .OnConnect] ∧ ¬s.record.Paired) ∧
    ∃ s, run Iocpsolution.callingStep {}
        [.postAccept 0 10 true true, .completion ⟨.ACCEPT, 0, true, 0⟩ 0 {},
          .sendMsg 0 [1] true, .completion ⟨.RECV, 0, false, 0⟩ 0 {},
          .completion ⟨.SEND, 0, false, 0⟩ 0 {}] = some s ∧
      s.callbacks 0 = [.OnConnect, .OnClose, .OnClose] ∧ ¬s.record.Paired := by
  refine ⟨⟨_, rfl, rfl, fun h => ?_⟩, ⟨_, rfl, rfl, fun h => ?_⟩⟩
  · have hcalls : Alternating ([.OnConnect] ++ [.OnConnect]) := (h 0).1
    exact (alternating_onConnect.mp hcalls).2 rfl
  · have hcalls : Alternating ([.OnConnect, .OnClose] ++ [.OnClose]) := (h 0).1
    exact absurd (alternating_onClose.mp hcalls).2 (by decide)

end IocpStudy
