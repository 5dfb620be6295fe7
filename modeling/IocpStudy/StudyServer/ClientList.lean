import IocpStudy.Lib.Slots
import IocpStudy.StudyServer.Isolation

/-! The client list and the client pool of `NetworkManager`.  A session ID is a position in the
list, and `RemoveClient` looks its client up by it.  But `Reset` sets the session ID to 0 while the
list keeps the client, and `AddClient` gives a client from the pool a second position, so the list
is right only while nothing is removed twice and nothing is reused. -/

namespace IocpStudy.StudyServer

open Runs

/-- No client has two positions in the list, a connected client is at the position of its session
ID, and the clients in the pool are distinct and not connected. -/
def NetworkManager.Registered (m : NetworkManager) : Prop :=
  Slots.Consistent m.mClientList m.mClientPool (fun o => (m.clients o).mIsConnected = true)
    fun o => (m.clients o).mSessionID.toNat

/-- The client that the session ID leads to is not in the pool. -/
def NetworkManager.Removable (m : NetworkManager) (sessionID : UInt32) : Prop :=
  ∀ o, m.mClientList[sessionID.toNat]? = some (some o) → o ∉ m.mClientPool

/-- A connection is served by a new object, which gets a session ID that can be one, or, without
being added, by the object from the pool that has position 0; and a client that is removed is not
in the pool. -/
def NetworkManager.Orderly (m : NetworkManager) : NetworkEvent → Prop
  | .accept now accepted wsaRecv _ => accepted = true →
    match m.reused now with
    | none => wsaRecv = true → m.mClientList.length < 2 ^ 32
    | some o => wsaRecv = false ∧ m.mClientList[0]? = some (some o)
  | .acceptFailed _ => m.Removable 0
  | .receiveFailed i _ =>
    ∀ recv, m.recvs[i]? = some recv → m.Removable (m.clients recv.client).mSessionID
  | .sendFailed i _ =>
    ∀ send, m.sends[i]? = some send → m.Removable (m.clients send.client).mSessionID
  | _ => True

/-- The objects in the pool have positions in the list, and the objects in the list have been
created. -/
structure NetworkManager.Listed (m : NetworkManager) : Prop where
  pooled : ∀ o ∈ m.mClientPool, some o ∈ m.mClientList
  created : ∀ o, some o ∈ m.mClientList → o < m.created

/-! ### What leaves the list and the pool as they are -/

/-- The list, the pool and what the clients say of themselves are the same. -/
structure NetworkManager.SameClients (m m' : NetworkManager) : Prop where
  mClientList : m'.mClientList = m.mClientList
  mClientPool : m'.mClientPool = m.mClientPool
  created : m'.created = m.created
  mIsConnected : ∀ o, (m'.clients o).mIsConnected = (m.clients o).mIsConnected
  mSessionID : ∀ o, (m'.clients o).mSessionID = (m.clients o).mSessionID

theorem NetworkClient.send_same (c : NetworkClient) (wsaSend : Bool) :
    (c.send wsaSend).client.mIsConnected = c.mIsConnected ∧
      (c.send wsaSend).client.mSessionID = c.mSessionID := by
  rw [NetworkClient.send]
  split_ifs
  · split
    · exact ⟨rfl, rfl⟩
    · simp only
      split <;> exact ⟨rfl, rfl⟩
  · exact ⟨rfl, rfl⟩

theorem NetworkClient.handleSend_same (c : NetworkClient) (n : ℕ) (wsaSend : Bool) :
    (c.handleSend n wsaSend).client.mIsConnected = c.mIsConnected ∧
      (c.handleSend n wsaSend).client.mSessionID = c.mSessionID := by
  rw [NetworkClient.handleSend, NetworkClient.handleSendRead]
  cases c.mSendContext.read n with
  | none => exact ⟨rfl, rfl⟩
  | some context =>
    simp only [Option.map_some, NetworkClient.handleSendFinish]
    split_ifs
    · exact NetworkClient.send_same _ _
    · exact ⟨rfl, rfl⟩

namespace NetworkManager

variable {m m' m'' : NetworkManager} {o : ClientRef} {c : NetworkClient} {now : ℕ}

theorem SameClients.trans (h : m.SameClients m') (h' : m'.SameClients m'') : m.SameClients m'' :=
  ⟨h'.mClientList.trans h.mClientList, h'.mClientPool.trans h.mClientPool,
    h'.created.trans h.created, fun o => (h'.mIsConnected o).trans (h.mIsConnected o),
    fun o => (h'.mSessionID o).trans (h.mSessionID o)⟩

theorem sameClients_of_clients (hlist : m'.mClientList = m.mClientList)
    (hpool : m'.mClientPool = m.mClientPool) (hcreated : m'.created = m.created)
    (hclients : m'.clients = m.clients) : m.SameClients m' :=
  ⟨hlist, hpool, hcreated, fun _ => by rw [hclients], fun _ => by rw [hclients]⟩

theorem sameClients_setClient (h : c.mIsConnected = (m.clients o).mIsConnected ∧
    c.mSessionID = (m.clients o).mSessionID) : m.SameClients (m.setClient o c) := by
  refine ⟨rfl, rfl, rfl, fun o' => ?_, fun o' => ?_⟩
  · by_cases ho : o' = o
    · simpa only [ho, setClient, Function.update_self] using h.1
    · simp only [setClient, Function.update_of_ne ho]
  · by_cases ho : o' = o
    · simpa only [ho, setClient, Function.update_self] using h.2
    · simp only [setClient, Function.update_of_ne ho]

theorem sameClients_called {result : SendResult}
    (h : result.client.mIsConnected = (m.clients o).mIsConnected ∧
      result.client.mSessionID = (m.clients o).mSessionID) : m.SameClients (m.called o result) :=
  (sameClients_setClient h).trans (sameClients_of_clients rfl rfl rfl rfl)

theorem sameClients_pushSendPacket (m : NetworkManager) (sessionID : ℤ) (packet : Packet)
    (wsaSend : Bool) : m.SameClients (m.pushSendPacket sessionID packet wsaSend) := by
  have hrelease : m.SameClients (m.releasePackets [packet]) :=
    sameClients_of_clients rfl rfl rfl rfl
  rw [pushSendPacket]
  split_ifs
  · exact hrelease
  split
  · rename_i o _
    simp only
    split_ifs
    · exact hrelease
    · exact sameClients_setClient ⟨rfl, rfl⟩
    · have hset : m.SameClients
          (m.setClient o { (m.clients o).enqueuePacket packet with mSending := true }) :=
        sameClients_setClient ⟨rfl, rfl⟩
      refine hset.trans (sameClients_called ?_)
      simp only [setClient, Function.update_self]
      exact NetworkClient.send_same _ _
  · exact hrelease

theorem sameClients_processed (m : NetworkManager) (packet : Packet) (wsaSend : Bool) :
    m.SameClients (m.processed packet wsaSend) := by
  rw [processed]
  split
  · exact sameClients_of_clients rfl rfl rfl rfl
  · have hacquired : m.SameClients { m with mPacketPool := (m.mPacketPool.acquire {}).2 } :=
      sameClients_of_clients rfl rfl rfl rfl
    exact (hacquired.trans (sameClients_pushSendPacket _ _ _ _)).trans
      (sameClients_of_clients rfl rfl rfl rfl)

theorem sameClients_handleReceived (m : NetworkManager) (recv : PendingRecv) (n : ℕ)
    (wsaRecv : Bool) : m.SameClients (m.handleReceived recv n wsaRecv) := by
  obtain ⟨context, hclient⟩ := (handleReceive_client (m.clients recv.client) m.mPacketPool n
    (m.allows recv.client wsaRecv) recv.socket).1
  have hset : m.SameClients (m.setClient recv.client
      { m.clients recv.client with mReceiveContext := context }) :=
    sameClients_setClient ⟨rfl, rfl⟩
  rw [handleReceived]
  simp only [hclient]
  exact hset.trans (sameClients_of_clients rfl rfl rfl rfl)

theorem SameClients.registered (h : m.SameClients m') (hs : m.Registered) : m'.Registered := by
  rw [Registered, h.mClientList, h.mClientPool]
  refine Slots.Consistent.congr hs fun o _ => ⟨?_, fun _ => ?_⟩
  · rw [h.mIsConnected]
  · rw [h.mSessionID]

theorem SameClients.listed (h : m.SameClients m') (hs : m.Listed) : m'.Listed := by
  constructor
  · rw [h.mClientList, h.mClientPool]
    exact hs.pooled
  · rw [h.mClientList, h.created]
    exact hs.created

/-! ### `RemoveClient` -/

theorem removeClient_cases (m : NetworkManager) (sessionID : UInt32) (now : ℕ) :
    ((∀ o, m.mClientList[sessionID.toNat]? ≠ some (some o)) ∧
      m.removeClient sessionID now = m) ∨
    ∃ o, m.mClientList[sessionID.toNat]? = some (some o) ∧
      m.removeClient sessionID now =
        { m.setClient o ((m.clients o).close now).reset with
          mClientPool := m.mClientPool ++ [o]
          closed := m.closed ++ (m.clients o).mSocket.toList } := by
  rw [removeClient]
  split_ifs with hlength
  · refine Or.inl ⟨fun o ho => ?_, rfl⟩
    rw [List.getElem?_eq_none hlength] at ho
    cases ho
  rcases hentry : m.mClientList[sessionID.toNat]? with - | (- | o)
  · exact Or.inl ⟨by simp, rfl⟩
  · exact Or.inl ⟨by simp, rfl⟩
  · exact Or.inr ⟨o, rfl, rfl⟩

theorem Listed.removeClient (hs : m.Listed) (sessionID : UInt32) (now : ℕ) :
    (m.removeClient sessionID now).Listed := by
  rcases removeClient_cases m sessionID now with ⟨-, heq⟩ | ⟨o, hentry, heq⟩
  · rw [heq]
    exact hs
  · rw [heq]
    refine ⟨fun o' ho' => ?_, hs.created⟩
    rcases List.mem_append.mp ho' with ho' | ho'
    · exact hs.pooled o' ho'
    · rw [List.mem_singleton.mp ho']
      exact List.mem_of_getElem? hentry

theorem Registered.removeClient_iff (hs : m.Registered) (sessionID : UInt32) (now : ℕ) :
    (m.removeClient sessionID now).Registered ↔ m.Removable sessionID := by
  rcases removeClient_cases m sessionID now with ⟨hnone, heq⟩ | ⟨o, hentry, heq⟩
  · rw [heq]
    exact ⟨fun _ o ho => absurd ho (hnone o), fun _ => hs⟩
  · have hrelease : (m.removeClient sessionID now).Registered ↔ o ∉ m.mClientPool := by
      rw [heq]
      refine Slots.Consistent.release_iff hs ?_ fun o' ho' => ?_
      · simp [setClient, NetworkClient.reset]
      · simp [setClient, Function.update_of_ne ho']
    rw [hrelease]
    constructor
    · intro ho o' ho'
      obtain rfl : o = o' := by simpa using hentry.symm.trans ho'
      exact ho
    · exact fun h => h o hentry

/-! ### `_HandleAccept` -/

theorem takeClient_accepting (m : NetworkManager) (now : ℕ) :
    (m.takeClient now).2.accepting = m.accepting := by
  rw [takeClient]
  split <;> rfl

theorem takeClient_mClientList (m : NetworkManager) (now : ℕ) :
    (m.takeClient now).2.mClientList = m.mClientList := by
  rw [takeClient]
  split <;> rfl

/-- `_HandleAccept` for an object `o`, once it is taken: where the receive is refused the object has
only been initialised, and otherwise it also has the next position of the list, and the next accept
is posted. -/
theorem handleAccept_cases (m : NetworkManager) (now : ℕ) (wsaRecv posted : Bool) :
    ∃ o t c, (o, t) = takeClient { m with accepted := m.accepted + 1, accepting := false } now ∧
      c.mIsConnected = true ∧
      (m.handleAccept now true wsaRecv posted).clients = Function.update t.clients o c ∧
      (m.handleAccept now true wsaRecv posted).mClientPool = t.mClientPool ∧
      (m.handleAccept now true wsaRecv posted).created = t.created ∧
      (m.handleAccept now true wsaRecv posted).accepting = (wsaRecv && posted) ∧
      (wsaRecv = false ∧ c.mSessionID = 0 ∧
          (m.handleAccept now true wsaRecv posted).mClientList = t.mClientList ∨
        wsaRecv = true ∧ c.mSessionID = UInt32.ofNat t.mClientList.length ∧
          (m.handleAccept now true wsaRecv posted).mClientList = t.mClientList ++ [some o]) := by
  rw [handleAccept]
  simp only [Bool.true_eq_false, if_false]
  rcases htake : takeClient { m with accepted := m.accepted + 1, accepting := false } now
    with ⟨o, t⟩
  have haccepting : t.accepting = false :=
    (congrArg (fun r => r.2.accepting) htake).symm.trans (takeClient_accepting _ now)
  have hclient : (t.setClient o { (t.clients o).reset.init with
      mSocket := some m.accepted }).clients o =
        { (t.clients o).reset.init with mSocket := some m.accepted } := by
    simp [setClient]
  obtain ⟨context, u, hadd, hcase⟩ := addClient_spec
    (t.setClient o { (t.clients o).reset.init with mSocket := some m.accepted }) o wsaRecv
    (by rw [hclient]; rfl)
  have hallows : (t.setClient o { (t.clients o).reset.init with
      mSocket := some m.accepted }).allows o wsaRecv = wsaRecv := by
    rw [allows, hclient]
    exact Bool.and_true _
  rw [hclient, hallows] at hcase
  rw [hallows] at hadd
  simp only [setClient, Function.update_idem] at hcase
  rcases hcase with ⟨rfl, rfl⟩ | ⟨rfl, wsaBuf, sid, hsid, rfl⟩
  · simp only [hadd, Bool.false_eq_true, if_false]
    exact ⟨o, t, { (t.clients o).reset.init with
      mSocket := some m.accepted, mReceiveContext := context }, rfl, rfl, rfl, rfl, rfl,
      haccepting, Or.inl ⟨trivial, rfl, rfl⟩⟩
  · simp only [hadd, if_true]
    exact ⟨o, t, { (t.clients o).reset.init with
      mSocket := some m.accepted, mReceiveContext := context, mSessionID := sid }, rfl, rfl, rfl,
      rfl, rfl, rfl, Or.inr ⟨trivial, hsid, rfl⟩⟩

theorem pool_of_reused (h : m.reused now = some o) : ∃ rest, m.mClientPool = o :: rest := by
  rw [reused] at h
  split at h
  · cases h
  · rename_i hpool
    split_ifs at h
    exact ⟨_, hpool.trans (by rw [Option.some.inj h])⟩

theorem perm_tail_head {α : Type*} (l : List α) : (l.tail ++ l.head?.toList).Perm l := by
  cases l with
  | nil => exact List.Perm.refl _
  | cons x rest => exact List.perm_append_singleton x rest

/-- A new object is in neither list. -/
theorem Listed.fresh (hs : m.Listed) :
    some m.created ∉ m.mClientList ∧ m.created ∉ m.mClientPool :=
  ⟨fun h => Nat.lt_irrefl _ (hs.created _ h),
    fun h => Nat.lt_irrefl _ (hs.created _ (hs.pooled _ h))⟩

theorem Registered.accept_new_iff (hs : m.Registered) (hl : m.Listed) (hnew : m.reused now = none)
    (wsaRecv posted : Bool) : (m.handleAccept now true wsaRecv posted).Registered ↔
      (wsaRecv = true → m.mClientList.length < 2 ^ 32) := by
  obtain ⟨o, t, c, htake, hconnected, hclients, hpool, -, -, hcase⟩ :=
    handleAccept_cases m now wsaRecv posted
  rw [takeClient, show reused { m with accepted := m.accepted + 1, accepting := false } now = none
    from hnew] at htake
  obtain ⟨rfl, rfl⟩ := Prod.mk.inj htake
  simp only [setClient, Function.update_idem] at hclients hpool hcase
  obtain ⟨hlist, hfree⟩ := hl.fresh
  have hperm := perm_tail_head m.mClientPool
  have hothers : ∀ o, o ≠ m.created →
      ((Function.update m.clients m.created c o).mIsConnected = true ↔
        (m.clients o).mIsConnected = true) ∧
      (Function.update m.clients m.created c o).mSessionID.toNat =
        (m.clients o).mSessionID.toNat := by
    intro o ho
    rw [Function.update_of_ne ho]
    exact ⟨Iff.rfl, rfl⟩
  rw [Registered, hclients, hpool]
  rcases hcase with ⟨rfl, -, hsame⟩ | ⟨rfl, hsid, happend⟩
  · rw [hsame]
    refine ⟨fun _ h => absurd h (by decide), fun _ => ?_⟩
    refine Slots.Consistent.congr (Slots.Consistent.perm hs hperm) fun o ho => ?_
    have hne : o ≠ m.created := by
      rintro rfl
      exact ho.elim hlist fun ho => hfree (hperm.mem_iff.mp ho)
    exact ⟨(hothers o hne).1, fun _ => (hothers o hne).2⟩
  · rw [happend, Slots.Consistent.append_iff (Slots.Consistent.perm hs hperm) hlist
      (fun h => hfree (hperm.mem_iff.mp h)) (by simpa using hconnected) hothers]
    rw [Function.update_self, hsid, UInt32.toNat_ofNat']
    constructor
    · intro hmod _
      rw [← hmod]
      exact Nat.mod_lt _ (by decide)
    · exact fun hlength => Nat.mod_eq_of_lt (hlength rfl)

theorem Registered.accept_reused_iff (hs : m.Registered) (hl : m.Listed)
    (hreused : m.reused now = some o) (wsaRecv posted : Bool) :
    (m.handleAccept now true wsaRecv posted).Registered ↔
      wsaRecv = false ∧ m.mClientList[0]? = some (some o) := by
  obtain ⟨o', t, c, htake, hconnected, hclients, hpool, -, -, hcase⟩ :=
    handleAccept_cases m now wsaRecv posted
  rw [takeClient, show reused { m with accepted := m.accepted + 1, accepting := false } now = some o
    from hreused] at htake
  obtain ⟨rfl, rfl⟩ := Prod.mk.inj htake
  obtain ⟨rest, hrest⟩ := pool_of_reused hreused
  have hlisted := hl.pooled o' (hrest ▸ List.mem_cons_self)
  rw [Registered, hclients, hpool]
  rcases hcase with ⟨rfl, hsid, hsame⟩ | ⟨rfl, -, happend⟩
  · have hfull : Slots.Consistent m.mClientList (o' :: rest)
        (fun o => (m.clients o).mIsConnected = true) fun o => (m.clients o).mSessionID.toNat := by
      rw [← hrest]
      exact hs
    rw [hsame, hrest, List.tail_cons]
    rw [Slots.Consistent.take_iff hfull hlisted (by simpa using hconnected) fun o ho => ?_]
    · rw [Function.update_self, hsid]
      simp
    · rw [Function.update_of_ne ho]
      exact ⟨Iff.rfl, rfl⟩
  · rw [happend]
    refine ⟨fun h => absurd h (Slots.not_consistent_append hlisted), fun h => ?_⟩
    cases h.1

theorem Listed.handleAccept (hs : m.Listed) (wsaRecv posted : Bool) :
    (m.handleAccept now true wsaRecv posted).Listed := by
  obtain ⟨o, t, c, htake, -, -, hpool, hcreated, -, hcase⟩ :=
    handleAccept_cases m now wsaRecv posted
  have ht : t.mClientList = m.mClientList ∧ (∀ o' ∈ t.mClientPool, o' ∈ m.mClientPool) ∧
      o < t.created ∧ m.created ≤ t.created := by
    rw [takeClient] at htake
    rcases hreused : m.reused now with - | o'
    · rw [show reused { m with accepted := m.accepted + 1, accepting := false } now = none
        from hreused] at htake
      obtain ⟨rfl, rfl⟩ := Prod.mk.inj htake
      exact ⟨rfl, fun o' ho' => (perm_tail_head m.mClientPool).mem_iff.mp ho', Nat.lt_succ_self _,
        Nat.le_succ _⟩
    · rw [show reused { m with accepted := m.accepted + 1, accepting := false } now = some o'
        from hreused] at htake
      obtain ⟨rfl, rfl⟩ := Prod.mk.inj htake
      exact ⟨rfl, fun o' ho' => List.mem_of_mem_tail ho',
        hs.created _ (hs.pooled _ (mem_pool_of_reused hreused)), Nat.le_refl _⟩
  obtain ⟨hlist, hsub, ho, hle⟩ := ht
  rw [hlist] at hcase
  constructor
  · intro o' ho'
    rw [hpool] at ho'
    have hold := hs.pooled o' (hsub o' ho')
    rcases hcase with ⟨-, -, hsame⟩ | ⟨-, -, happend⟩
    · rw [hsame]
      exact hold
    · rw [happend]
      exact List.mem_append_left _ hold
  · intro o' ho'
    rw [hcreated]
    rcases hcase with ⟨-, -, hsame⟩ | ⟨-, -, happend⟩
    · rw [hsame] at ho'
      exact (hs.created o' ho').trans_le hle
    · rw [happend] at ho'
      rcases List.mem_append.mp ho' with ho' | ho'
      · exact (hs.created o' ho').trans_le hle
      · obtain rfl : o' = o := by simpa using ho'
        exact ho

/-! ### Every step -/

variable {e : NetworkEvent} {es : List NetworkEvent}

/-- A step accepts a connection, or it looks a client up to remove it, or it leaves the clients as
they are. -/
theorem networkStep_cases (h : networkStep m e = some m') :
    (∃ now wsaRecv posted, e = .accept now true wsaRecv posted ∧
      m' = m.handleAccept now true wsaRecv posted) ∨
    (∃ u sessionID now, m.SameClients u ∧ (m.Orderly e ↔ m.Removable sessionID) ∧
      m' = u.removeClient sessionID now) ∨
    (m.SameClients m' ∧ m.Orderly e) := by
  cases steps_of_networkStep h with
  | accept now accepted wsaRecv posted =>
    cases accepted with
    | true => exact Or.inl ⟨now, wsaRecv, posted, rfl, rfl⟩
    | false => exact Or.inr (Or.inr ⟨sameClients_of_clients rfl rfl rfl rfl, nofun⟩)
  | acceptFailed now =>
    exact Or.inr (Or.inl ⟨{ m with accepting := false }, 0, now,
      sameClients_of_clients rfl rfl rfl rfl, Iff.rfl, rfl⟩)
  | @arrive i recv bytes =>
    have hset : m.SameClients (m.setClient recv.client
        ((m.clients recv.client).deliver recv.wsaBuf bytes)) :=
      sameClients_setClient ⟨rfl, rfl⟩
    exact Or.inr (Or.inr ⟨hset.trans (sameClients_of_clients rfl rfl rfl rfl), trivial⟩)
  | @received i =>
    have hdrop : m.SameClients { m with recvs := m.recvs.eraseIdx i } :=
      sameClients_of_clients rfl rfl rfl rfl
    exact Or.inr (Or.inr ⟨hdrop.trans (sameClients_handleReceived _ _ _ _), trivial⟩)
  | @receiveFailed i recv now hget =>
    refine Or.inr (Or.inl ⟨{ m with recvs := m.recvs.eraseIdx i }, _, now,
      sameClients_of_clients rfl rfl rfl rfl, ?_, rfl⟩)
    simp only [Orderly, hget, Option.some.injEq, forall_eq']
  | @sent i =>
    have hdrop : m.SameClients { m with sends := m.sends.eraseIdx i } :=
      sameClients_of_clients rfl rfl rfl rfl
    exact Or.inr (Or.inr ⟨hdrop.trans (sameClients_called
      (NetworkClient.handleSend_same _ _ _)), trivial⟩)
  | @sendFailed i send now hget =>
    refine Or.inr (Or.inl ⟨{ m with sends := m.sends.eraseIdx i }, _, now,
      sameClients_of_clients rfl rfl rfl rfl, ?_, rfl⟩)
    simp only [Orderly, hget, Option.some.injEq, forall_eq']
  | swap => exact Or.inr (Or.inr ⟨sameClients_of_clients rfl rfl rfl rfl, trivial⟩)
  | finished => exact Or.inr (Or.inr ⟨sameClients_of_clients rfl rfl rfl rfl, trivial⟩)
  | @process i =>
    have hrest : m.SameClients { m with dispatcher := (m.dispatcher.processNext i).1 } :=
      sameClients_of_clients rfl rfl rfl rfl
    exact Or.inr (Or.inr ⟨hrest.trans (sameClients_processed _ _ _), trivial⟩)

theorem listed_step (hs : m.Listed) (h : networkStep m e = some m') : m'.Listed := by
  rcases networkStep_cases h with
    ⟨now, wsaRecv, posted, -, rfl⟩ | ⟨u, sessionID, now, hsame, -, rfl⟩ | ⟨hsame, -⟩
  · exact hs.handleAccept wsaRecv posted
  · exact (hsame.listed hs).removeClient sessionID now
  · exact hsame.listed hs

theorem SameClients.removable_iff (h : m.SameClients m') (sessionID : UInt32) :
    m'.Removable sessionID ↔ m.Removable sessionID := by
  rw [Removable, Removable, h.mClientList, h.mClientPool]

theorem registered_step_iff (hl : m.Listed) (hs : m.Registered)
    (h : networkStep m e = some m') : m'.Registered ↔ m.Orderly e := by
  rcases networkStep_cases h with
    ⟨now, wsaRecv, posted, rfl, rfl⟩ | ⟨u, sessionID, now, hsame, horderly, rfl⟩ | ⟨hsame, horderly⟩
  · simp only [Orderly, forall_const]
    cases hreused : m.reused now with
    | none => exact hs.accept_new_iff hl hreused wsaRecv posted
    | some o => exact hs.accept_reused_iff hl hreused wsaRecv posted
  · rw [horderly, ← hsame.removable_iff]
    exact (hsame.registered hs).removeClient_iff sessionID now
  · exact ⟨fun _ => horderly, fun _ => hsame.registered hs⟩

end NetworkManager

/-- The list and the pool are right throughout a run exactly where each step finds them in order. -/
theorem registered_iff_orderly (pool : MemoryPool Packet) (es : List NetworkEvent)
    (m : NetworkManager) (h : run networkStep { mPacketPool := pool } es = some m) :
    Throughout networkStep NetworkManager.Registered { mPacketPool := pool } es ↔
      Meets networkStep NetworkManager.Orderly { mPacketPool := pool } es := by
  have hlisted : ({ mPacketPool := pool } : NetworkManager).Listed :=
    ⟨by simp, by simp⟩
  exact throughout_iff_meets (I := NetworkManager.Listed)
    (fun _ _ _ hl hst => NetworkManager.listed_step hl hst)
    (fun _ _ _ hl hs hst => NetworkManager.registered_step_iff hl hs hst) hlisted
    Slots.consistent_nil h

/-- A connection that is closed after its second client has been accepted: nothing is reused. -/
theorem registered_two_connections :
    Throughout networkStep NetworkManager.Registered { mPacketPool := ⟨[]⟩ }
      [.accept 10 true true true, .accept 11 true true true, .receiveFailed 0 20] := by
  refine (registered_iff_orderly ⟨[]⟩ _ _ rfl).mpr ⟨fun _ _ => by decide, fun _ ht => ?_⟩
  obtain rfl := Option.some.inj ht
  refine ⟨fun _ _ => by decide, fun _ ht => ?_⟩
  obtain rfl := Option.some.inj ht
  refine ⟨fun recv hrecv o ho => ?_, fun _ ht => trivial⟩
  exact List.not_mem_nil

/-- A connection that follows a closed one within three seconds is served by the same object, which
then has the positions 0 and 1; and a client whose receive and whose send fail is put into the pool
twice. -/
theorem reused_object_twice :
    (∃ m, run networkStep { mPacketPool := ⟨[]⟩ }
        [.accept 10 true true true, .receiveFailed 0 20, .accept 21 true true true] = some m ∧
      m.mClientList = [some 0, some 0] ∧ ¬m.Registered) ∧
    ∃ m, run networkStep { mPacketPool := ⟨[]⟩ }
        [.accept 10 true true true, .arrive 0 echoRequest, .received 0 true, .swap, .process true,
          .receiveFailed 0 20, .sendFailed 0 20] = some m ∧
      m.mClientPool = [0, 0] ∧ ¬m.Registered := by
  constructor
  · refine ⟨_, rfl, rfl, fun h => ?_⟩
    exact absurd (h.single 0 1 0 rfl rfl) (by decide)
  · refine ⟨_, rfl, rfl, fun h => ?_⟩
    have hnodup : ([0, 0] : List ClientRef).Nodup := h.nodup
    exact absurd hnodup (by decide)

end IocpStudy.StudyServer
