import IocpStudy.StudyServer.ClientList

/-! Completions that fail or have no bytes.  `RemoveClient` closes the object that the list holds at
the session ID of the completion's key, which `Reset` has set to 0 where the key was removed before,
and which is 0 for the listener: the client at position 0 answers for both. -/

namespace IocpStudy.StudyServer

open Runs

namespace NetworkManager

/-- The key of a completion that fails or has no bytes: a client, or the listener, `none`. -/
def failedKey (m : NetworkManager) : NetworkEvent → Option (Option ClientRef)
  | .acceptFailed _ => some none
  | .receiveFailed i _ => m.recvs[i]?.map fun recv => some recv.client
  | .sendFailed i _ => m.sends[i]?.map fun send => some send.client
  | _ => none

/-- The session ID of a key; `AddListener` gave 0 to the listener. -/
def keySessionID (m : NetworkManager) : Option ClientRef → UInt32
  | none => 0
  | some o => (m.clients o).mSessionID

/-- The object has the same socket, connected flag, session ID, buffers and send queue in `t` as in
`m`, and as many entries in the pool. -/
structure Untouched (m t : NetworkManager) (o : ClientRef) : Prop where
  mSocket : (t.clients o).mSocket = (m.clients o).mSocket
  mIsConnected : (t.clients o).mIsConnected = (m.clients o).mIsConnected
  mSessionID : (t.clients o).mSessionID = (m.clients o).mSessionID
  mReceiveContext : (t.clients o).mReceiveContext = (m.clients o).mReceiveContext
  mSendContext : (t.clients o).mSendContext = (m.clients o).mSendContext
  mSendQueue : (t.clients o).mSendQueue = (m.clients o).mSendQueue
  pooled : t.mClientPool.count o = m.mClientPool.count o

/-- Where the event is a failed completion, no object but its key is touched. -/
def TouchesOwn (m : NetworkManager) (e : NetworkEvent) (t : NetworkManager) : Prop :=
  ∀ key, m.failedKey e = some key → ∀ o, key ≠ some o → m.Untouched t o

/-- Where the event is a failed completion, the list holds no object at the session ID of its key,
or the key. -/
def FindsOwn (m : NetworkManager) (e : NetworkEvent) : Prop :=
  ∀ key, m.failedKey e = some key →
    ∀ o, m.mClientList[(m.keySessionID key).toNat]? = some (some o) → key = some o

variable {m t u : NetworkManager} {e : NetworkEvent} {key : Option ClientRef} {o : ClientRef}

theorem untouched_of_eq (hclient : t.clients o = m.clients o)
    (hpool : t.mClientPool.count o = m.mClientPool.count o) : m.Untouched t o :=
  ⟨by rw [hclient], by rw [hclient], by rw [hclient], by rw [hclient], by rw [hclient],
    by rw [hclient], hpool⟩

theorem Untouched.congr (h : m.Untouched t o) (hclients : u.clients = m.clients)
    (hpool : u.mClientPool = m.mClientPool) : u.Untouched t o := by
  obtain ⟨hsocket, hconnected, hsessionID, hreceive, hsend, hqueue, hpooled⟩ := h
  rw [← hclients] at hsocket hconnected hsessionID hreceive hsend hqueue
  rw [← hpool] at hpooled
  exact ⟨hsocket, hconnected, hsessionID, hreceive, hsend, hqueue, hpooled⟩

/-- `RemoveClient` touches the object that it finds, and no other. -/
theorem removeClient_untouched_iff (m : NetworkManager) (sessionID : UInt32) (now : ℕ)
    (o : ClientRef) :
    m.Untouched (m.removeClient sessionID now) o ↔
      m.mClientList[sessionID.toNat]? ≠ some (some o) := by
  rcases removeClient_cases m sessionID now with ⟨hnone, heq⟩ | ⟨o', hentry, heq⟩
  · rw [heq]
    exact iff_of_true (untouched_of_eq rfl rfl) (hnone o)
  · rw [heq, hentry]
    constructor
    · intro h ho
      obtain rfl : o' = o := Option.some.inj (Option.some.inj ho)
      have hpooled : (m.mClientPool ++ [o']).count o' = m.mClientPool.count o' := h.pooled
      rw [List.count_append, List.count_singleton_self] at hpooled
      exact absurd hpooled (Nat.succ_ne_self _)
    · intro hne
      have ho : o ≠ o' := by
        rintro rfl
        exact hne rfl
      refine untouched_of_eq (Function.update_of_ne ho _ _) ?_
      show (m.mClientPool ++ [o']).count o = m.mClientPool.count o
      rw [List.count_append, List.count_singleton, beq_false_of_ne ho.symm]
      rfl

/-- A failed completion drops what was outstanding, and removes what the list holds at the session
ID of its key. -/
theorem failed_step (h : networkStep m e = some t) (hkey : m.failedKey e = some key) :
    ∃ (u : NetworkManager) (now : ℕ), u.clients = m.clients ∧ u.mClientPool = m.mClientPool ∧
      u.mClientList = m.mClientList ∧ t = u.removeClient (m.keySessionID key) now := by
  cases steps_of_networkStep h with
  | acceptFailed now =>
    obtain rfl := Option.some.inj hkey
    exact ⟨{ m with accepting := false }, now, rfl, rfl, rfl, rfl⟩
  | @receiveFailed i recv now hget =>
    rw [failedKey, hget] at hkey
    obtain rfl := Option.some.inj hkey
    exact ⟨{ m with recvs := m.recvs.eraseIdx i }, now, rfl, rfl, rfl, rfl⟩
  | @sendFailed i send now hget =>
    rw [failedKey, hget] at hkey
    obtain rfl := Option.some.inj hkey
    exact ⟨{ m with sends := m.sends.eraseIdx i }, now, rfl, rfl, rfl, rfl⟩
  | accept | arrive | received | sent | swap | finished | process => cases hkey

theorem touchesOwn_iff (h : networkStep m e = some t) : m.TouchesOwn e t ↔ m.FindsOwn e := by
  refine forall_congr' fun key => forall_congr' fun hkey => ?_
  obtain ⟨u, now, hclients, hpool, hlist, rfl⟩ := failed_step h hkey
  have huntouched : ∀ o, m.Untouched (u.removeClient (m.keySessionID key) now) o ↔
      m.mClientList[(m.keySessionID key).toNat]? ≠ some (some o) := by
    intro o
    rw [← hlist, ← removeClient_untouched_iff u (m.keySessionID key) now o]
    exact ⟨fun h => h.congr hclients hpool, fun h => h.congr hclients.symm hpool.symm⟩
  constructor
  · intro htouches o hentry
    by_contra hne
    exact (huntouched o).mp (htouches o hne) hentry
  · intro hfinds o hne
    exact (huntouched o).mpr fun hentry => hne (hfinds o hentry)

end NetworkManager

/-- The failed completions of a run touch no client but their own exactly where each finds its key,
or nothing, at the session ID of its key. -/
theorem failedCompletion_iff (pool : MemoryPool Packet) (es : List NetworkEvent)
    (m : NetworkManager) (h : run networkStep { mPacketPool := pool } es = some m) :
    EachStep networkStep NetworkManager.TouchesOwn { mPacketPool := pool } es ↔
      Meets networkStep NetworkManager.FindsOwn { mPacketPool := pool } es :=
  eachStep_iff_meets (I := fun _ => True) (fun _ _ _ _ _ => trivial)
    (fun _ _ _ _ hst => NetworkManager.touchesOwn_iff hst) trivial h

/-- The second of two clients is disconnected. -/
theorem failedCompletion_two_clients :
    EachStep networkStep NetworkManager.TouchesOwn { mPacketPool := ⟨[]⟩ }
      [.accept 10 true true true, .accept 11 true true true, .receiveFailed 1 20] := by
  refine (failedCompletion_iff ⟨[]⟩ _ _ rfl).mpr ?_
  refine (meets_cons rfl).mpr ⟨nofun, (meets_cons rfl).mpr ⟨nofun, ?_⟩⟩
  refine (meets_cons rfl).mpr ⟨fun key hkey o ho => ?_, meets_nil⟩
  obtain rfl := Option.some.inj hkey
  exact congrArg some (Option.some.inj (Option.some.inj ho))

/-- The second of two clients has a receive and a send outstanding when it is disconnected: the
completion of the second closes the first client, which is connected. -/
theorem first_client_closed :
    ∃ m t, run networkStep { mPacketPool := ⟨[]⟩ }
        [.accept 10 true true true, .accept 11 true true true, .arrive 1 echoRequest,
          .received 1 true, .swap, .process true, .receiveFailed 1 20] = some m ∧
      networkStep m (.sendFailed 0 20) = some t ∧ m.failedKey (.sendFailed 0 20) = some (some 1) ∧
      ((m.clients 0).mIsConnected = true ∧ (m.clients 0).mSocket = some 0) ∧
      ((t.clients 0).mIsConnected = false ∧ (t.clients 0).mSocket = none) ∧
      ¬m.TouchesOwn (.sendFailed 0 20) t := by
  refine ⟨_, _, rfl, rfl, rfl, ⟨rfl, rfl⟩, ⟨rfl, rfl⟩, fun h => ?_⟩
  have hconnected := (h (some 1) rfl 0 (by decide)).mIsConnected
  exact Bool.false_ne_true hconnected

end IocpStudy.StudyServer
