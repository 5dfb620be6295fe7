import IocpStudy.Iocpsolution.IOCPServer

/-! The sends of a client index over all its connections.  A send that fails goes to `CloseSocket`,
and nobody looks at a `WSASend` that is refused; in either case the front of `mSendQueue` stays
where it is.  `Close` does not clear the queue and `Clear` is empty, so `SendMsg` finds a queue that
is not empty on every later connection, and sends nothing. -/

namespace IocpStudy.OneSend

/-- The front of the queue is not outstanding. -/
def State.Stuck (s : State) : Prop := s.mSendQueue ≠ [] ∧ s.outstanding = []

variable {s t : State} {e : Event}

/-- The state when the outstanding send number `k` has been dequeued. -/
def State.without (s : State) (k : ℕ) : State :=
  { s with outstanding := s.outstanding.eraseIdx k }

/-- Nothing completes, and a message is put behind the front. -/
theorem State.Stuck.step (hs : s.Stuck) (h : OneSend.step s e = some t) :
    t.Stuck ∧ t.calls = s.calls := by
  obtain ⟨hqueue, hnone⟩ := hs
  cases e with
  | sendMsg pMsg accepted =>
    obtain rfl := Option.some.inj h
    obtain ⟨front, q, hq⟩ := List.exists_cons_of_ne_nil hqueue
    simp [State.left, Stuck, hq, hnone]
  | completed k accepted =>
    simp [OneSend.step, hnone] at h

/-- A message of an empty queue is given to `WSASend`, and no other. -/
theorem sendMsg_calls {pMsg : List UInt8} {accepted : Bool}
    (h : step s (.sendMsg pMsg accepted) = some t) :
    t.calls = s.calls ++ if s.mSendQueue = [] then [⟨s.allocated, pMsg⟩] else [] := by
  obtain rfl := Option.some.inj h
  rcases hq : s.mSendQueue with - | ⟨front, q⟩ <;> simp [State.left]

theorem sendMsg_stuck {pMsg : List UInt8} {accepted : Bool} (hs : s.OneAtATime) (hstuck : ¬s.Stuck)
    (h : step s (.sendMsg pMsg accepted) = some t) :
    t.Stuck ↔ s.mSendQueue = [] ∧ accepted = false := by
  obtain rfl := Option.some.inj h
  rcases hq : s.mSendQueue with - | ⟨front, q⟩
  · have hnone : s.outstanding = [] := by simpa [hq] using hs.outstanding
    cases accepted <;> simp [State.Stuck, State.left, hnone]
  · have hsome : s.outstanding ≠ [] := fun hnone => hstuck ⟨by simp [hq], hnone⟩
    simp [State.Stuck, State.left, hsome]

/-- `SendCompleted` where it is called for a completion: it gives the entry behind the front, if
any, to `WSASend`. -/
theorem sendCompleted_cases {k : ℕ} {r : LockSection} {accepted : Bool} (hs : s.OneAtATime)
    (hk : k < s.outstanding.length) (hr : sendCompleted s.mSendQueue = some r)
    (ht : t = (s.without k).left r accepted) :
    ∃ front q, s.mSendQueue = front :: q ∧ t.mSendQueue = q ∧
      t.calls = s.calls ++ q.head?.toList ∧
      t.outstanding = (if accepted then q.head?.toList else []) := by
  obtain ⟨front, q, hq, hnone⟩ := hs.completed hk
  rw [hq, sendCompleted_cons] at hr
  obtain rfl := Option.some.inj hr
  subst ht
  exact ⟨front, q, hq, rfl, rfl, by simp [State.left, State.without, hnone]⟩

end IocpStudy.OneSend

namespace IocpStudy.Iocpsolution

open Runs OneSend

/-! ### What a step does with the sends of a client -/

/-- The event gives a message of the client `i` to `SendMsg`, or dequeues a send of it. -/
def ServerEvent.sends (i : ℕ) : ServerEvent → Prop
  | .postAccept _ _ _ _ => False
  | .sendMsg clientIndex _ _ => clientIndex = i
  | .completion c _ _ => c.m_eOperation = .SEND ∧ c.mSessionIndex = i

/-- A step in the terms of the sends of the client `i`, which are `sends'` after it. -/
inductive Sends (s : IOCPServer) (i : ℕ) (sends' : OneSend.State) : ServerEvent → Prop
  | sendMsg (pMsg : List UInt8) (wsaSend : Bool)
      (h : OneSend.step (s.mClientInfos i).sends
        (.sendMsg pMsg ((s.mClientInfos i).allows wsaSend)) = some sends') :
      Sends s i sends' (.sendMsg i pMsg wsaSend)
  | sent (c : Completion) (k : ℕ) (outcomes : Outcomes) (r : LockSection)
      (hsend : c.m_eOperation = .SEND ∧ c.mSessionIndex = i)
      (hsuccess : c.bSuccess = true ∧ c.dwIoSize ≠ 0)
      (hk : k < (s.mClientInfos i).sends.outstanding.length)
      (hr : OneSend.sendCompleted (s.mClientInfos i).sends.mSendQueue = some r)
      (h : sends' = ((s.mClientInfos i).sends.without k).left r
        ((s.mClientInfos i).allows outcomes.wsaSend)) :
      Sends s i sends' (.completion c k outcomes)
  | failed (c : Completion) (k : ℕ) (outcomes : Outcomes)
      (hsend : c.m_eOperation = .SEND ∧ c.mSessionIndex = i)
      (hfails : ¬(c.bSuccess = true ∧ c.dwIoSize ≠ 0))
      (hk : k < (s.mClientInfos i).sends.outstanding.length)
      (h : sends' = (s.mClientInfos i).sends.without k) :
      Sends s i sends' (.completion c k outcomes)
  | kept (e : ServerEvent) (hnone : ¬e.sends i) (h : sends' = (s.mClientInfos i).sends) :
      Sends s i sends' e

variable {s t : IOCPServer} {e : ServerEvent} {es : List ServerEvent} {i : ℕ}

theorem sends_of_update {f : ℕ → NetworkClient} {j : ℕ} {c' : NetworkClient}
    (h : c'.sends = (f j).sends) (i : ℕ) :
    (Function.update f j c' i).sends = (f i).sends := by
  by_cases hi : i = j
  · rw [hi, Function.update_self, h]
  · rw [Function.update_of_ne hi]

/-- Dequeuing an operation changes the client's count of operations of that kind, and nothing else
of it. -/
theorem dequeued_frame {c client : NetworkClient} {operation : IOOperation} {k : ℕ}
    (h : c.dequeued operation k = some client) :
    client.mIsConnect = c.mIsConnect ∧ (operation ≠ .SEND → client.sends = c.sends) ∧
      (operation = .ACCEPT → c.accepts ≠ 0 ∧ client.accepts = c.accepts - 1) ∧
      (operation ≠ .ACCEPT → client.accepts = c.accepts) := by
  cases operation with
  | ACCEPT =>
    simp only [NetworkClient.dequeued] at h
    split_ifs at h with hzero
    obtain rfl := Option.some.inj h
    exact ⟨rfl, fun _ => rfl, fun _ => ⟨hzero, rfl⟩, fun hne => absurd rfl hne⟩
  | RECV =>
    simp only [NetworkClient.dequeued] at h
    split_ifs at h
    obtain rfl := Option.some.inj h
    exact ⟨rfl, fun _ => rfl, fun heq => absurd heq (by decide), fun _ => rfl⟩
  | SEND =>
    simp only [NetworkClient.dequeued] at h
    split_ifs at h
    obtain rfl := Option.some.inj h
    exact ⟨rfl, fun hne => absurd rfl hne, fun heq => absurd heq (by decide), fun _ => rfl⟩

/-- The `ACCEPT` case and the `RECV` case behind it leave the client its sends and the `AcceptEx`
calls outstanding, and its socket or none. -/
theorem acceptCase_client (s : IOCPServer) (j n : ℕ) (connectRecv wsaRecv : Bool) (now : ℕ) :
    ∃ c', ((s.acceptCase j connectRecv now).recvCase j n wsaRecv).mClientInfos =
        Function.update s.mClientInfos j c' ∧
      (c'.mSocket = (s.mClientInfos j).mSocket ∨ c'.mSocket = none) ∧
      c'.sends = (s.mClientInfos j).sends ∧ c'.accepts = (s.mClientInfos j).accepts ∧
      (c'.mIsConnect = true → c'.isConnected = true) ∧
      ((s.acceptCase j connectRecv now).recvCase j n wsaRecv).sockets = s.sockets := by
  cases hallows : (s.mClientInfos j).allows connectRecv with
  | true =>
    simp only [IOCPServer.acceptCase, acceptCompletion_of_allows hallows, IOCPServer.recvCase,
      IOCPServer.setClient, Function.update_self, Function.update_idem]
    refine ⟨_, rfl, Or.inl rfl, rfl, rfl, fun _ => ?_, trivial⟩
    rw [NetworkClient.allows, Bool.and_eq_true] at hallows
    exact hallows.2
  | false =>
    simp only [IOCPServer.acceptCase, acceptCompletion_of_refused hallows, IOCPServer.recvCase,
      IOCPServer.closeSocket, IOCPServer.setClient, Function.update_self, Function.update_idem]
    exact ⟨_, rfl, Or.inr rfl, rfl, rfl, fun h => absurd h Bool.false_ne_true, trivial⟩

/-- A failed or empty completion of a send leaves the queue, and another one goes to
`SendCompleted`. -/
theorem sends_of_send {c : Completion} {k : ℕ} {outcomes : Outcomes}
    (hsend : c.m_eOperation = .SEND) (h : serverStep s (.completion c k outcomes) = some t)
    (i : ℕ) : Sends s i (t.mClientInfos i).sends (.completion c k outcomes) := by
  obtain ⟨client, hdequeued, hhandled⟩ := handled_of_completion h
  have hclient : k < (s.mClientInfos c.mSessionIndex).sends.outstanding.length ∧
      client = { s.mClientInfos c.mSessionIndex with
        sends := (s.mClientInfos c.mSessionIndex).sends.without k } := by
    rw [hsend] at hdequeued
    simp only [NetworkClient.dequeued] at hdequeued
    split_ifs at hdequeued with hk
    exact ⟨hk, (Option.some.inj hdequeued).symm⟩
  obtain ⟨hk, rfl⟩ := hclient
  by_cases hi : c.mSessionIndex = i
  swap
  · refine .kept _ (fun hsends => hi hsends.2) ?_
    cases hhandled with
    | closed hoperation hfails => exact congrArg _ (Function.update_of_ne (Ne.symm hi) _ _)
    | accepted hoperation hsuccess => simp [hsend] at hoperation
    | received hoperation hsuccess hsize => simp [hsend] at hoperation
    | sent hoperation hsuccess hsize => exact congrArg _ (Function.update_of_ne (Ne.symm hi) _ _)
  subst hi
  by_cases hsuccess : c.bSuccess = true ∧ c.dwIoSize ≠ 0
  swap
  · cases hhandled with
    | closed hoperation hfails =>
      refine .failed c k outcomes ⟨hsend, rfl⟩ hsuccess hk ?_
      simp only [IOCPServer.setClient, Function.update_self]
      rfl
    | accepted hoperation hsuccess' => simp [hsend] at hoperation
    | received hoperation hsuccess' hsize => exact absurd ⟨hsuccess', hsize⟩ hsuccess
    | sent hoperation hsuccess' hsize => exact absurd ⟨hsuccess', hsize⟩ hsuccess
  · obtain ⟨operation, mSessionIndex, bSuccess, dwIoSize⟩ := c
    obtain ⟨rfl, hsize⟩ := hsuccess
    obtain rfl := hsend
    simp only [serverStep, hdequeued, Option.bind_some, workerThread_send hsize] at h
    split_ifs at h
    obtain ⟨client', hcompleted, rfl⟩ := Option.map_eq_some_iff.mp h
    simp only [IOCPServer.setClient, Function.update_self] at hcompleted
    obtain ⟨r, hr, rfl⟩ := Option.map_eq_some_iff.mp hcompleted
    refine .sent _ k outcomes r ⟨rfl, rfl⟩ ⟨rfl, hsize⟩ hk hr ?_
    simp only [IOCPServer.setClient, Function.update_self]
    rfl

theorem sends_of_step (h : serverStep s e = some t) (i : ℕ) :
    Sends s i (t.mClientInfos i).sends e := by
  cases e with
  | postAccept clientIndex curTimeSec wsaSocket acceptEx =>
    refine .kept _ id ?_
    simp only [serverStep] at h
    split_ifs at h
    · obtain rfl := Option.some.inj h
      rfl
    all_goals
      obtain rfl := Option.some.inj h
      refine sends_of_update ?_ i
      rw [NetworkClient.postAccept]
      split_ifs <;> rfl
  | sendMsg clientIndex pMsg wsaSend =>
    simp only [serverStep] at h
    obtain rfl := Option.some.inj h
    by_cases hi : clientIndex = i
    · subst hi
      refine .sendMsg pMsg wsaSend ?_
      simp only [IOCPServer.setClient, Function.update_self]
      rfl
    · refine .kept _ hi ?_
      simp only [IOCPServer.setClient, Function.update_of_ne (Ne.symm hi)]
  | completion c k outcomes =>
    by_cases hsend : c.m_eOperation = .SEND
    · exact sends_of_send hsend h i
    refine .kept _ (fun hsends => hsend hsends.1) ?_
    obtain ⟨client, hdequeued, hhandled⟩ := handled_of_completion h
    have hsends := (dequeued_frame hdequeued).2.1 hsend
    cases hhandled with
    | closed hoperation hfails =>
      refine sends_of_update ?_ i
      exact hsends
    | accepted hoperation hsuccess =>
      obtain ⟨c', hclients, -, hkept, -⟩ := acceptCase_client
        (s.setClient c.mSessionIndex client) c.mSessionIndex 0 outcomes.connectRecv
        outcomes.wsaRecv outcomes.now
      rw [hclients]
      simp only [IOCPServer.setClient, Function.update_idem, Function.update_self] at hkept ⊢
      exact sends_of_update (hkept.trans hsends) i
    | received hoperation hsuccess hsize =>
      refine sends_of_update ?_ i
      exact hsends
    | sent hoperation hsuccess hsize => exact absurd hoperation hsend

/-! ### Silence -/

namespace IOCPServer

/-- No `WSASend` is called for the client `i` any more, whatever the server does. -/
def Silent (s : IOCPServer) (i : ℕ) : Prop :=
  ∀ es t, run serverStep s es = some t →
    (t.mClientInfos i).sends.calls = (s.mClientInfos i).sends.calls

/-- A `WSASend` for the client `i` is accepted, and a send of it completes with a number of
bytes. -/
def SendsSucceed (i : ℕ) (s : IOCPServer) : ServerEvent → Prop
  | .postAccept _ _ _ _ => True
  | .sendMsg clientIndex _ wsaSend =>
    let client := s.mClientInfos i
    clientIndex = i → client.sends.mSendQueue = [] → client.allows wsaSend = true
  | .completion c _ outcomes =>
    let client := s.mClientInfos i
    c.m_eOperation = .SEND ∧ c.mSessionIndex = i →
      (c.bSuccess = true ∧ c.dwIoSize ≠ 0) ∧
        (2 ≤ client.sends.mSendQueue.length → client.allows outcomes.wsaSend = true)

end IOCPServer

namespace Sends

variable {sends' : OneSend.State}

theorem oneAtATime (h : Sends s i sends' e) (hs : (s.mClientInfos i).sends.OneAtATime) :
    sends'.OneAtATime := by
  cases h with
  | sendMsg pMsg wsaSend h => exact oneAtATime_step hs h
  | sent c k outcomes r hsend hsuccess hk hr h =>
    refine oneAtATime_step (e := .completed k ((s.mClientInfos i).allows outcomes.wsaSend)) hs ?_
    rw [OneSend.step, if_pos hk, h]
    simp only [hr]
    rfl
  | failed c k outcomes hsend hfails hk h =>
    obtain ⟨front, q, -, hnone⟩ := hs.completed hk
    rw [h]
    exact ⟨hs.started, Or.inl hnone, hs.underflows, hs.addresses⟩
  | kept e hnone h =>
    rw [h]
    exact hs

/-- A client that is stuck stays stuck, and none of its messages is sent. -/
theorem stuck (h : Sends s i sends' e) (hs : (s.mClientInfos i).sends.Stuck) :
    sends'.Stuck ∧ sends'.calls = (s.mClientInfos i).sends.calls := by
  cases h with
  | sendMsg pMsg wsaSend h => exact hs.step h
  | sent c k outcomes r hsend hsuccess hk hr h => simp [hs.2] at hk
  | failed c k outcomes hsend hfails hk h => simp [hs.2] at hk
  | kept e hnone h =>
    rw [h]
    exact ⟨hs, rfl⟩

/-- A client gets stuck exactly where a `WSASend` of it is refused or one of its sends fails. -/
theorem moves_iff (h : Sends s i sends' e) (hs : (s.mClientInfos i).sends.OneAtATime)
    (hmoves : ¬(s.mClientInfos i).sends.Stuck) : ¬sends'.Stuck ↔ s.SendsSucceed i e := by
  cases h with
  | sendMsg pMsg wsaSend h =>
    rw [sendMsg_stuck hs hmoves h]
    simp [IOCPServer.SendsSucceed]
  | sent c k outcomes r hsend hsuccess hk hr h =>
    obtain ⟨front, q, hq, hqueue, -, hout⟩ := sendCompleted_cases hs hk hr h
    simp only [IOCPServer.SendsSucceed, hsend, hsuccess, hq, State.Stuck, hqueue, hout]
    cases q <;> simp [hsuccess.2]
  | failed c k outcomes hsend hfails hk h =>
    obtain ⟨front, q, hq, hnone⟩ := hs.completed hk
    simp only [IOCPServer.SendsSucceed, hsend, State.Stuck, State.without, h, hq, hnone]
    simp [hfails]
  | kept e hnone h =>
    rw [h]
    refine iff_of_true hmoves ?_
    cases e with
    | postAccept clientIndex curTimeSec wsaSocket acceptEx => trivial
    | sendMsg clientIndex pMsg wsaSend => exact fun hi => absurd hi hnone
    | completion c k outcomes => exact fun hsend => absurd hsend hnone

end Sends

theorem oneAtATime_of_run (h : run serverStep {} es = some s) (i : ℕ) :
    (s.mClientInfos i).sends.OneAtATime :=
  run_invariant (P := fun s => (s.mClientInfos i).sends.OneAtATime)
    (fun _ _ _ hs hst => (sends_of_step hst i).oneAtATime hs)
    ⟨⟨[], rfl, rfl⟩, Or.inl rfl, rfl, rfl⟩ h

theorem silent_of_stuck (hs : (s.mClientInfos i).sends.Stuck) : s.Silent i := by
  intro es t h
  have hkept := run_invariant
    (P := fun t => (t.mClientInfos i).sends.Stuck ∧
      (t.mClientInfos i).sends.calls = (s.mClientInfos i).sends.calls)
    (fun t e u ht htu => ?_) ⟨hs, rfl⟩ h
  · exact hkept.2
  · obtain ⟨hstuck, hcalls⟩ := (sends_of_step htu i).stuck ht.1
    exact ⟨hstuck, hcalls.trans ht.2⟩

/-- The completion, with a byte, of the send of the client `i` that is outstanding. -/
def sendCompletion (i : ℕ) : ServerEvent := .completion ⟨.SEND, i, true, 1⟩ 0 {}

/-- It takes the front out of the queue, and calls `WSASend` for the entry behind it, if any. -/
theorem exists_sendCompletion (hs : (s.mClientInfos i).sends.OneAtATime)
    (hsome : (s.mClientInfos i).sends.outstanding ≠ []) :
    ∃ t, serverStep s (sendCompletion i) = some t ∧ (t.mClientInfos i).sends.calls =
      (s.mClientInfos i).sends.calls ++ (s.mClientInfos i).sends.mSendQueue.tail.head?.toList := by
  have hk : 0 < (s.mClientInfos i).sends.outstanding.length := List.length_pos_of_ne_nil hsome
  obtain ⟨front, q, hq, -⟩ := hs.completed hk
  have hstep : (serverStep s (sendCompletion i)).isSome = true := by
    simp [serverStep, sendCompletion, Completion.Sized, NetworkClient.dequeued, hk,
      workerThread_send, IOCPServer.setClient, NetworkClient.sendCompleted, hq]
  obtain ⟨t, ht⟩ := Option.isSome_iff_exists.mp hstep
  refine ⟨t, ht, ?_⟩
  cases sends_of_step ht i with
  | sent c k outcomes r hsend hsuccess hk hr h =>
    obtain ⟨front', q', hq', -, hcalls, -⟩ := sendCompleted_cases hs hk hr h
    rw [hcalls, hq', List.tail_cons]
  | failed c k outcomes hsend hfails hk h => exact absurd ⟨rfl, Nat.one_ne_zero⟩ hfails
  | kept e hnone h => exact absurd ⟨rfl, rfl⟩ hnone

/-- A message for an empty queue is sent, and one for a queue whose front is outstanding is sent
when the sends before it have completed. -/
theorem stuck_of_silent (hs : (s.mClientInfos i).sends.OneAtATime) (h : s.Silent i) :
    (s.mClientInfos i).sends.Stuck := by
  by_contra hmoves
  obtain ⟨t, ht⟩ : ∃ t, serverStep s (.sendMsg i [] true) = some t := ⟨_, rfl⟩
  have hsilent := h [.sendMsg i [] true] t (run_cons_eq_some.mpr ⟨t, ht, rfl⟩)
  cases sends_of_step ht i with
  | kept e hnone hkept => exact hnone rfl
  | sendMsg pMsg wsaSend hmsg =>
    have hcalls := sendMsg_calls hmsg
    rw [hsilent, List.self_eq_append_right] at hcalls
    have hne : (s.mClientInfos i).sends.mSendQueue ≠ [] := fun hnil => by simp [hnil] at hcalls
    have hqueue := queue_sendMsg hmsg
    have hone := oneAtATime_step hs hmsg
    have hmoves' : ¬(t.mClientInfos i).sends.Stuck := by
      rw [sendMsg_stuck hs hmoves hmsg]
      exact fun hnil => hne hnil.1
    have hsome : (t.mClientInfos i).sends.outstanding ≠ [] :=
      fun hnone => hmoves' ⟨by simp [hqueue], hnone⟩
    obtain ⟨u, hu, hcalled⟩ := exists_sendCompletion hone hsome
    have hstill := h [.sendMsg i [] true, sendCompletion i] u
      (run_cons_eq_some.mpr ⟨t, ht, run_cons_eq_some.mpr ⟨u, hu, rfl⟩⟩)
    rw [hcalled, hsilent, List.append_right_eq_self, hqueue] at hstill
    obtain ⟨front, q, hq⟩ := List.exists_cons_of_ne_nil hne
    simp [hq] at hstill

/-- After every run, a client index sends nothing any more, on no connection, exactly where in the
run a `WSASend` for it was refused or a send of it failed. -/
theorem silent_iff (es : List ServerEvent) (s : IOCPServer) (h : run serverStep {} es = some s)
    (i : ℕ) : s.Silent i ↔ ¬Meets serverStep (IOCPServer.SendsSucceed i) {} es := by
  have hexact := throughout_iff_meets
    (I := fun s : IOCPServer => (s.mClientInfos i).sends.OneAtATime)
    (P := fun s => ¬(s.mClientInfos i).sends.Stuck) (C := IOCPServer.SendsSucceed i)
    (fun _ _ _ hs hst => (sends_of_step hst i).oneAtATime hs)
    (fun _ _ _ hs hmoves hst => (sends_of_step hst i).moves_iff hs hmoves)
    ⟨⟨[], rfl, rfl⟩, Or.inl rfl, rfl, rfl⟩ (fun hstuck => hstuck.1 rfl) h
  rw [← hexact, throughout_iff_last
    (fun s e t hst ht hs => ht ((sends_of_step hst i).stuck hs).1) h, not_not]
  exact ⟨stuck_of_silent (oneAtATime_of_run h i), silent_of_stuck⟩

/-- A send of the first connection fails, and the second one is connected and silent. -/
theorem silent_second_connection :
    ∃ s, run serverStep {} [.postAccept 0 10 true true, .completion ⟨.ACCEPT, 0, true, 0⟩ 0 {},
        .sendMsg 0 [1] true, .completion ⟨.SEND, 0, false, 0⟩ 0 { now := 20 },
        .postAccept 0 30 true true, .completion ⟨.ACCEPT, 0, true, 0⟩ 0 {}] = some s ∧
      (s.mClientInfos 0).isConnected = true ∧ s.Silent 0 := by
  refine ⟨_, rfl, rfl, (silent_iff [.postAccept 0 10 true true,
    .completion ⟨.ACCEPT, 0, true, 0⟩ 0 {}, .sendMsg 0 [1] true,
    .completion ⟨.SEND, 0, false, 0⟩ 0 { now := 20 }, .postAccept 0 30 true true,
    .completion ⟨.ACCEPT, 0, true, 0⟩ 0 {}] _ rfl 0).mpr fun hmeets => ?_⟩
  have hfailed := ((hmeets.2 _ rfl).2 _ rfl).2 _ rfl
  exact absurd (hfailed.1 ⟨rfl, rfl⟩).1.1 Bool.false_ne_true

end IocpStudy.Iocpsolution
