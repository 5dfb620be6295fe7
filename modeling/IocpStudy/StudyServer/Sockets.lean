import IocpStudy.Lib.Handles
import IocpStudy.StudyServer.Outstanding

/-! The sockets of accepted connections.  The server notices the end of a connection by the receive
that is outstanding on it, and closes the socket of the object that the session ID of the receive's
object leads to.  A connection is forgotten with its socket open where no receive is outstanding on
it, or where the object that has the socket is not found. -/

namespace IocpStudy.StudyServer

open Runs

/-- `_HandleReceive` for `n` bytes gets a packet from `GetPacket`. -/
def NetworkClient.TakesPacket (c : NetworkClient) (pool : MemoryPool Packet) (n : ℕ) : Prop :=
  n ≠ 0 ∧ ∃ context, c.mReceiveContext.writeSize n = some context ∧
    ({ c with mReceiveContext := context }.getPacket pool).packet ≠ none

namespace NetworkManager

/-- The accepted sockets as handles, which the client objects hold. -/
def handles (m : NetworkManager) : Handles ClientRef :=
  ⟨m.accepted, m.closed, fun o => (m.clients o).mSocket⟩

/-- The objects and the sockets of the outstanding receives. -/
def posted (m : NetworkManager) : List (ClientRef × Option Socket) :=
  m.recvs.map fun recv => (recv.client, recv.socket)

/-- `RemoveClient` for the object finds it, and a receive of it is outstanding on its socket. -/
structure Watches (m : NetworkManager) (o : ClientRef) : Prop where
  found : m.mClientList[(m.clients o).mSessionID.toNat]? = some (some o)
  posted : (o, (m.clients o).mSocket) ∈ m.posted

/-- No socket is closed twice, and one that is open is the socket of an object that watches it. -/
def Watched (m : NetworkManager) : Prop := m.handles.ClosedOnce m.Watches

/-- The receive is the only one that is outstanding on its object's socket. -/
structure Relies (m : NetworkManager) (i : ℕ) (recv : PendingRecv) : Prop where
  isOpen : recv.socket ≠ none
  socket : (m.clients recv.client).mSocket = recv.socket
  only : (recv.client, recv.socket) ∉ m.posted.eraseIdx i

/-- The session ID that `AddClient` gives the object leads to it, as it does for the first `2 ^ 32`
connections. -/
def LeadsBack (m : NetworkManager) (o : ClientRef) : Prop :=
  (m.mClientList ++ [some o])[m.mClientList.length % 2 ^ 32]? = some (some o)

/-- An accepted connection gets a receive and an object that it can be found by and that has no
socket; and the only receive on a connection takes a packet and is followed by another one. -/
def KeepsWatch (m : NetworkManager) : NetworkEvent → Prop
  | .accept now accepted wsaRecv _ =>
    accepted = true ∧ wsaRecv = true ∧
      (∀ o, m.reused now = some o → (m.clients o).mSocket = none) ∧
      m.LeadsBack (m.takeClient now).1
  | .received i wsaRecv =>
    ∀ recv, m.recvs[i]? = some recv → m.Relies i recv → wsaRecv = true ∧
      ∃ n, recv.transferred = some n ∧ (m.clients recv.client).TakesPacket m.mPacketPool n
  | _ => True

/-- An object that does not exist yet has no socket, and every receive was posted on a socket that
had been accepted. -/
structure Sockets (m : NetworkManager) : Prop where
  listed : m.Listed
  tracked : m.handles.Tracked
  once : m.closed.Nodup
  fresh : ∀ o, m.created ≤ o → (m.clients o).mSocket = none
  posted : ∀ o socket, (o, some socket) ∈ m.posted → socket < m.accepted

end NetworkManager

/-! ### What leaves the sockets as they are -/

theorem NetworkClient.send_mSocket (c : NetworkClient) (wsaSend : Bool) :
    (c.send wsaSend).client.mSocket = c.mSocket := by
  rw [NetworkClient.send]
  split_ifs
  · split
    · rfl
    · simp only
      split <;> rfl
  · rfl

theorem NetworkClient.handleSend_mSocket (c : NetworkClient) (n : ℕ) (wsaSend : Bool) :
    (c.handleSend n wsaSend).client.mSocket = c.mSocket := by
  rw [NetworkClient.handleSend, NetworkClient.handleSendRead]
  cases c.mSendContext.read n with
  | none => rfl
  | some context =>
    simp only [Option.map_some, NetworkClient.handleSendFinish]
    split_ifs
    · exact NetworkClient.send_mSocket _ _
    · rfl

namespace NetworkManager

variable {m t u : NetworkManager} {o : ClientRef} {c : NetworkClient}

/-- The clients say the same of themselves, and have the same sockets. -/
structure SameSockets (m t : NetworkManager) : Prop extends m.SameClients t where
  accepted : t.accepted = m.accepted
  closed : t.closed = m.closed
  mSocket : ∀ o, (t.clients o).mSocket = (m.clients o).mSocket

theorem SameSockets.trans (h : m.SameSockets u) (h' : u.SameSockets t) : m.SameSockets t :=
  ⟨h.toSameClients.trans h'.toSameClients, h'.accepted.trans h.accepted,
    h'.closed.trans h.closed, fun o => (h'.mSocket o).trans (h.mSocket o)⟩

theorem SameSockets.handles (h : m.SameSockets t) : t.handles = m.handles := by
  rw [NetworkManager.handles, h.accepted, h.closed, funext h.mSocket]
  rfl

theorem sameSockets_of_clients (hlist : t.mClientList = m.mClientList)
    (hpool : t.mClientPool = m.mClientPool) (hcreated : t.created = m.created)
    (hclients : t.clients = m.clients) (haccepted : t.accepted = m.accepted)
    (hclosed : t.closed = m.closed) : m.SameSockets t :=
  ⟨sameClients_of_clients hlist hpool hcreated hclients, haccepted, hclosed,
    fun _ => by rw [hclients]⟩

theorem sameSockets_setClient (h : c.mIsConnected = (m.clients o).mIsConnected ∧
      c.mSessionID = (m.clients o).mSessionID)
    (hsocket : c.mSocket = (m.clients o).mSocket) : m.SameSockets (m.setClient o c) := by
  refine ⟨sameClients_setClient h, rfl, rfl, fun o' => ?_⟩
  by_cases ho : o' = o
  · rw [ho, setClient_self, hsocket]
  · rw [setClient_of_ne _ _ _ ho]

theorem sameSockets_called {result : SendResult}
    (h : result.client.mIsConnected = (m.clients o).mIsConnected ∧
      result.client.mSessionID = (m.clients o).mSessionID)
    (hsocket : result.client.mSocket = (m.clients o).mSocket) :
    m.SameSockets (m.called o result) :=
  (sameSockets_setClient h hsocket).trans (sameSockets_of_clients rfl rfl rfl rfl rfl rfl)

theorem sameSockets_pushSendPacket (m : NetworkManager) (sessionID : ℤ) (packet : Packet)
    (wsaSend : Bool) : m.SameSockets (m.pushSendPacket sessionID packet wsaSend) := by
  have hrelease : m.SameSockets (m.releasePackets [packet]) :=
    sameSockets_of_clients rfl rfl rfl rfl rfl rfl
  rw [pushSendPacket]
  split_ifs
  · exact hrelease
  split
  · next o _ =>
    dsimp only
    split_ifs
    · exact hrelease
    · exact sameSockets_setClient ⟨rfl, rfl⟩ rfl
    · have hset : m.SameSockets
          (m.setClient o { (m.clients o).enqueuePacket packet with mSending := true }) :=
        sameSockets_setClient ⟨rfl, rfl⟩ rfl
      refine hset.trans (sameSockets_called ?_ ?_)
      · rw [setClient_self]
        exact NetworkClient.send_same _ _
      · rw [setClient_self]
        exact NetworkClient.send_mSocket _ _
  · exact hrelease

theorem sameSockets_processed (m : NetworkManager) (packet : Packet) (wsaSend : Bool) :
    m.SameSockets (m.processed packet wsaSend) := by
  rw [processed]
  split
  · exact sameSockets_of_clients rfl rfl rfl rfl rfl rfl
  · have hacquired : m.SameSockets { m with mPacketPool := (m.mPacketPool.acquire {}).2 } :=
      sameSockets_of_clients rfl rfl rfl rfl rfl rfl
    exact (hacquired.trans (sameSockets_pushSendPacket _ _ _ _)).trans
      (sameSockets_of_clients rfl rfl rfl rfl rfl rfl)

/-! ### What the steps do to the sockets -/

variable {e : NetworkEvent} {es : List NetworkEvent} {now : ℕ}

/-- The object that is taken for an accepted connection gets its socket, and nothing else changes
of the sockets. -/
theorem handles_accept (wsaRecv posted : Bool) (htake : takeClient { m with
      accepted := m.accepted + 1, accepting := false } now = (o, u)) :
    (m.handleAccept now true wsaRecv posted).handles = m.handles.keep o ∧
      (m.handleAccept now true wsaRecv posted).created = u.created ∧
      (∀ o', o' ≠ o →
        (m.handleAccept now true wsaRecv posted).clients o' = m.clients o') ∧
      (m.handleAccept now true wsaRecv posted).closed = m.closed ∧
      (wsaRecv = false ∧ (m.handleAccept now true wsaRecv posted).posted = m.posted ∨
        wsaRecv = true ∧
          (m.handleAccept now true wsaRecv posted).posted = m.posted ++ [(o, some m.accepted)] ∧
          (m.handleAccept now true wsaRecv posted).mClientList = m.mClientList ++ [some o] ∧
          ((m.handleAccept now true wsaRecv posted).clients o).mSessionID =
            UInt32.ofNat m.mClientList.length) := by
  obtain ⟨hrecvs, -, hclients⟩ := takeClient_cases _ now htake
  have hlist : u.mClientList = m.mClientList := by
    rw [← takeClient_mClientList { m with accepted := m.accepted + 1, accepting := false } now,
      htake]
  have hkept : u.accepted = m.accepted + 1 ∧ u.closed = m.closed := by
    rw [takeClient] at htake
    split at htake
    · obtain ⟨-, rfl⟩ := Prod.mk.inj htake
      exact ⟨rfl, rfl⟩
    · obtain ⟨-, rfl⟩ := Prod.mk.inj htake
      exact ⟨rfl, rfl⟩
  have hothers : ∀ o', o' ≠ o → u.clients o' = m.clients o' := by
    intro o' ho
    rcases hclients with ⟨-, heq, -⟩ | ⟨-, -, -, heq⟩
    · rw [heq]
    · rw [heq, Function.update_of_ne ho]
  have hkeep (t : NetworkManager) (c : NetworkClient) (hc : c.mSocket = some m.accepted)
      (ht : t.clients = Function.update u.clients o c) (haccepted : t.accepted = u.accepted)
      (hclosed : t.closed = u.closed) :
      t.handles = m.handles.keep o ∧ (∀ o', o' ≠ o → t.clients o' = m.clients o') := by
    have hsame : ∀ o', o' ≠ o → t.clients o' = m.clients o' := by
      intro o' ho
      rw [ht, Function.update_of_ne ho, hothers o' ho]
    refine ⟨?_, hsame⟩
    rw [NetworkManager.handles, Handles.keep, haccepted, hclosed, hkept.1, hkept.2]
    refine congrArg (Handles.mk _ _) (funext fun o' => ?_)
    by_cases ho : o' = o
    · rw [ho, ht, Function.update_self, Function.update_self, hc]
      rfl
    · rw [Function.update_of_ne ho, hsame o' ho]
      rfl
  obtain ⟨context, ⟨rfl, heq⟩ | ⟨rfl, wsaBuf, sid, hsid, heq⟩⟩ :=
    handleAccept_served m now wsaRecv posted htake
  · obtain ⟨hhandles, hsame⟩ := hkeep (m.handleAccept now true false posted)
      (served (u.clients o) m.accepted context) rfl (by rw [heq]; rfl) (by rw [heq]; rfl)
      (by rw [heq]; rfl)
    refine ⟨hhandles, ?_, hsame, ?_, Or.inl ⟨rfl, ?_⟩⟩
    · rw [heq]
      rfl
    · rw [heq]
      exact hkept.2
    · rw [heq, NetworkManager.posted, NetworkManager.posted, ← hrecvs]
      rfl
  · obtain ⟨hhandles, hsame⟩ := hkeep (m.handleAccept now true true posted)
      { served (u.clients o) m.accepted context with mSessionID := sid } rfl (by rw [heq])
      (by rw [heq]) (by rw [heq])
    refine ⟨hhandles, ?_, hsame, ?_, Or.inr ⟨rfl, ?_, ?_, ?_⟩⟩
    · rw [heq]
    · rw [heq]
      exact hkept.2
    · rw [heq, NetworkManager.posted, hrecvs, List.map_append]
      rfl
    · rw [heq, hlist]
    · simp only [heq, Function.update_self, hsid, hlist]

/-- `RemoveClient` closes what the object that it finds has, or finds none. -/
theorem handles_removeClient (m : NetworkManager) (sessionID : UInt32) (now : ℕ) :
    ((∀ o, m.mClientList[sessionID.toNat]? ≠ some (some o)) ∧
      m.removeClient sessionID now = m) ∨
    ∃ o, m.mClientList[sessionID.toNat]? = some (some o) ∧
      (m.removeClient sessionID now).handles = m.handles.close o ∧
      ∀ o', o' ≠ o → (m.removeClient sessionID now).clients o' = m.clients o' := by
  rcases removeClient_cases m sessionID now with hnone | ⟨o, hentry, heq⟩
  · exact Or.inl hnone
  · refine Or.inr ⟨o, hentry, ?_, fun o' ho => ?_⟩
    · rw [heq, NetworkManager.handles, Handles.close]
      refine congrArg (Handles.mk _ _) (funext fun o' => ?_)
      by_cases ho : o' = o
      · rw [ho, Function.update_self]
        exact congrArg NetworkClient.mSocket (setClient_self _ _ _)
      · rw [Function.update_of_ne ho]
        exact congrArg NetworkClient.mSocket (setClient_of_ne _ _ _ ho)
    · rw [heq]
      exact setClient_of_ne _ _ _ ho

/-- `_HandleReceive` posts a receive exactly where it gets a packet and the call is accepted. -/
theorem posted_iff (c : NetworkClient) (pool : MemoryPool Packet) (n : ℕ) (wsaRecv : Bool)
    (socket : Option Socket) : (handleReceive c pool true n wsaRecv socket).posted ≠ none ↔
      wsaRecv = true ∧ c.TakesPacket pool n := by
  rw [handleReceive, NetworkClient.TakesPacket]
  split_ifs with hn
  · simp [hn]
  · cases hwrite : c.mReceiveContext.writeSize n with
    | none => simp
    | some context =>
      simp only [dispatchReceived]
      cases hpacket : ({ c with mReceiveContext := context }.getPacket pool).packet with
      | none => simp [hpacket]
      | some packet => simp [hpacket, NetworkClient.receive, hn]

theorem posted_eraseIdx {i : ℕ} {recv : PendingRecv} (hget : m.recvs[i]? = some recv)
    {x : ClientRef × Option Socket} (hx : x ∈ m.posted) :
    x ∈ m.posted.eraseIdx i ∨ x = (recv.client, recv.socket) := by
  have hposted : m.posted[i]? = some (recv.client, recv.socket) := by
    rw [NetworkManager.posted, List.getElem?_map, hget, Option.map_some]
  obtain ⟨hi, heq⟩ := List.getElem?_eq_some_iff.mp hposted
  rw [← (List.getElem_cons_eraseIdx_perm hi).mem_iff, heq, List.mem_cons] at hx
  exact hx.symm

/-- A step accepts a connection, or handles a receive that brought bytes, or it drops at most
receives of objects with the session ID that it looks up to remove its client, or it leaves the
sockets and the receives on them as they are. -/
theorem sockets_of_step (h : networkStep m e = some t) :
    (∃ now accepted wsaRecv posted, e = .accept now accepted wsaRecv posted ∧
      t = m.handleAccept now accepted wsaRecv posted) ∨
    (∃ i recv n wsaRecv, e = .received i wsaRecv ∧ m.recvs[i]? = some recv ∧
      recv.transferred = some n ∧
      t = handleReceived { m with recvs := m.recvs.eraseIdx i } recv n wsaRecv) ∨
    m.KeepsWatch e ∧
      ((∃ u sessionID now, m.SameSockets u ∧ u.posted ⊆ m.posted ∧
        (∀ x ∈ m.posted, x ∈ u.posted ∨ (m.clients x.1).mSessionID = sessionID) ∧
        t = u.removeClient sessionID now) ∨
      m.SameSockets t ∧ t.posted = m.posted) := by
  cases steps_of_networkStep h with
  | accept now accepted wsaRecv posted =>
    exact Or.inl ⟨now, accepted, wsaRecv, posted, rfl, rfl⟩
  | acceptFailed now =>
    exact Or.inr (Or.inr ⟨trivial, Or.inl ⟨{ m with accepting := false }, 0, now,
      sameSockets_of_clients rfl rfl rfl rfl rfl rfl, fun _ hx => hx, fun _ hx => Or.inl hx,
      rfl⟩⟩)
  | @arrive i recv bytes hget =>
    have hset : m.SameSockets (m.setClient recv.client
        ((m.clients recv.client).deliver recv.wsaBuf bytes)) :=
      sameSockets_setClient ⟨rfl, rfl⟩ rfl
    refine Or.inr (Or.inr ⟨trivial, Or.inr ⟨hset.trans
      (sameSockets_of_clients rfl rfl rfl rfl rfl rfl), ?_⟩⟩)
    rw [NetworkManager.posted, List.map_set]
    have hposted : m.posted[i]? = some (recv.client, recv.socket) := by
      rw [NetworkManager.posted, List.getElem?_map, hget, Option.map_some]
    obtain ⟨hi, heq⟩ := List.getElem?_eq_some_iff.mp hposted
    rw [← heq]
    exact List.set_getElem_self hi
  | @received i n recv wsaRecv hget hn =>
    exact Or.inr (Or.inl ⟨i, recv, n, wsaRecv, rfl, hget, hn, rfl⟩)
  | @receiveFailed i recv now hget =>
    have hposted : NetworkManager.posted { m with recvs := m.recvs.eraseIdx i } =
        m.posted.eraseIdx i := (List.eraseIdx_map _ _ _).symm
    refine Or.inr (Or.inr ⟨trivial, Or.inl ⟨{ m with recvs := m.recvs.eraseIdx i }, _, now,
      sameSockets_of_clients rfl rfl rfl rfl rfl rfl, ?_, fun x hx => ?_, rfl⟩⟩)
    · rw [hposted]
      exact List.eraseIdx_subset
    · rw [hposted]
      refine (posted_eraseIdx hget hx).imp_right fun heq => ?_
      rw [heq]
  | @sent i =>
    have hdrop : m.SameSockets { m with sends := m.sends.eraseIdx i } :=
      sameSockets_of_clients rfl rfl rfl rfl rfl rfl
    exact Or.inr (Or.inr ⟨trivial, Or.inr ⟨hdrop.trans (sameSockets_called
      (NetworkClient.handleSend_same _ _ _) (NetworkClient.handleSend_mSocket _ _ _)), rfl⟩⟩)
  | @sendFailed i send now =>
    exact Or.inr (Or.inr ⟨trivial, Or.inl ⟨{ m with sends := m.sends.eraseIdx i }, _, now,
      sameSockets_of_clients rfl rfl rfl rfl rfl rfl, fun _ hx => hx, fun _ hx => Or.inl hx,
      rfl⟩⟩)
  | swap =>
    exact Or.inr (Or.inr ⟨trivial, Or.inr ⟨sameSockets_of_clients rfl rfl rfl rfl rfl rfl, rfl⟩⟩)
  | finished =>
    exact Or.inr (Or.inr ⟨trivial, Or.inr ⟨sameSockets_of_clients rfl rfl rfl rfl rfl rfl, rfl⟩⟩)
  | @process i =>
    have hrest : m.SameSockets { m with dispatcher := (m.dispatcher.processNext i).1 } :=
      sameSockets_of_clients rfl rfl rfl rfl rfl rfl
    refine Or.inr (Or.inr ⟨trivial, Or.inr ⟨hrest.trans (sameSockets_processed _ _ _), ?_⟩⟩)
    rw [NetworkManager.posted, processed_recvs]
    rfl

/-- The receive that completes is replaced by at most one on the socket that its object has. -/
theorem sockets_handleReceived {i n : ℕ} {recv : PendingRecv} {wsaRecv : Bool}
    (ht : t = handleReceived { m with recvs := m.recvs.eraseIdx i } recv n wsaRecv) :
    m.SameSockets t ∧
      (t.posted = m.posted.eraseIdx i ∧ (m.allows recv.client wsaRecv = true →
          ¬(m.clients recv.client).TakesPacket m.mPacketPool n) ∨
        t.posted = m.posted.eraseIdx i ++ [(recv.client, (m.clients recv.client).mSocket)] ∧
          m.allows recv.client wsaRecv = true ∧
          (m.clients recv.client).TakesPacket m.mPacketPool n) := by
  obtain ⟨⟨context, hclient⟩, -⟩ := handleReceive_client (m.clients recv.client) m.mPacketPool n
    (m.allows recv.client wsaRecv) recv.socket
  have hposted := posted_iff (m.clients recv.client) m.mPacketPool n
    (m.allows recv.client wsaRecv) recv.socket
  have herase : (m.recvs.eraseIdx i).map (fun recv => (recv.client, recv.socket)) =
      m.posted.eraseIdx i := (List.eraseIdx_map _ _ _).symm
  constructor
  · have hset : m.SameSockets (m.setClient recv.client
        { m.clients recv.client with mReceiveContext := context }) :=
      sameSockets_setClient ⟨rfl, rfl⟩ rfl
    refine hset.trans ?_
    rw [ht]
    refine sameSockets_of_clients rfl rfl rfl ?_ rfl rfl
    exact congrArg (Function.update m.clients recv.client) hclient
  · have hrecvs : t.posted = m.posted.eraseIdx i ++
        (handleReceive (m.clients recv.client) m.mPacketPool true n
          (m.allows recv.client wsaRecv) recv.socket).posted.toList.map
            fun _ => (recv.client, (m.clients recv.client).mSocket) := by
      rw [ht, NetworkManager.posted, handleReceived, List.map_append, List.map_map, herase]
      rfl
    rw [hrecvs]
    cases hsome : (handleReceive (m.clients recv.client) m.mPacketPool true n
        (m.allows recv.client wsaRecv) recv.socket).posted with
    | none =>
      refine Or.inl ⟨List.append_nil _, fun hallows htakes => ?_⟩
      exact hposted.mpr ⟨hallows, htakes⟩ hsome
    | some wsaBuf =>
      refine Or.inr ⟨rfl, hposted.mp ?_⟩
      rw [hsome]
      exact Option.some_ne_none _

theorem SameSockets.sockets (h : m.SameSockets t) (hs : m.Sockets) (hlisted : t.Listed)
    (hposted : ∀ o socket, (o, some socket) ∈ t.posted → socket < m.accepted) : t.Sockets := by
  refine ⟨hlisted, ?_, ?_, fun o ho => ?_, fun o socket hx => ?_⟩
  · rw [h.handles]
    exact hs.tracked
  · rw [h.closed]
    exact hs.once
  · rw [h.mSocket]
    exact hs.fresh o (h.created ▸ ho)
  · rw [h.accepted]
    exact hposted o socket hx

theorem Sockets.accept (hs : m.Sockets) {wsaRecv posted : Bool} (hlisted : Listed
      (m.handleAccept now true wsaRecv posted)) :
    Sockets (m.handleAccept now true wsaRecv posted) := by
  rcases htake : takeClient { m with accepted := m.accepted + 1, accepting := false } now
    with ⟨o, u⟩
  obtain ⟨hhandles, hcreated, hothers, hclosed, hposted⟩ :=
    handles_accept wsaRecv posted htake
  have hlt : o < u.created := created_of_takeClient
    (m := { m with accepted := m.accepted + 1, accepting := false })
    ⟨hs.listed.pooled, hs.listed.created⟩ now htake
  have hle : m.created ≤ u.created := by
    obtain ⟨-, -, ⟨-, -, heq⟩ | ⟨-, -, heq, -⟩⟩ := takeClient_cases _ now htake
    · exact heq.ge
    · exact heq ▸ Nat.le_succ _
  have haccepted : (m.handleAccept now true wsaRecv posted).accepted = m.accepted + 1 :=
    congrArg Handles.opened hhandles
  refine ⟨hlisted, ?_, ?_, fun o' ho' => ?_, fun o' socket hx => ?_⟩
  · rw [hhandles]
    exact hs.tracked.keep
  · rw [hclosed]
    exact hs.once
  · rw [hcreated] at ho'
    rw [hothers o' (hlt.trans_le ho').ne']
    exact hs.fresh o' (hle.trans ho')
  · rw [haccepted]
    rcases hposted with ⟨-, heq⟩ | ⟨-, heq, -⟩
    · exact Nat.lt_succ_of_lt (hs.posted o' socket (heq ▸ hx))
    · rw [heq] at hx
      rcases List.mem_append.mp hx with hx | hx
      · exact Nat.lt_succ_of_lt (hs.posted o' socket hx)
      · obtain ⟨-, hsocket⟩ := Prod.mk.inj (List.mem_singleton.mp hx)
        exact Option.some.inj hsocket ▸ Nat.lt_succ_self _

theorem Sockets.removeClient (hs : m.Sockets) (sessionID : UInt32) :
    Sockets (m.removeClient sessionID now) := by
  rcases handles_removeClient m sessionID now with ⟨-, heq⟩ | ⟨o, hentry, hhandles, hothers⟩
  · rw [heq]
    exact hs
  · have hposted : (m.removeClient sessionID now).posted = m.posted := by
      rw [NetworkManager.posted, (removeClient_recvs m sessionID now).1]
      rfl
    have hcreated : (m.removeClient sessionID now).created = m.created := by
      rcases removeClient_cases m sessionID now with ⟨-, heq⟩ | ⟨o, -, heq⟩
      · rw [heq]
      · rw [heq]
        rfl
    have hclosed := congrArg Handles.closed hhandles
    have haccepted := congrArg Handles.opened hhandles
    refine ⟨hs.listed.removeClient sessionID now, ?_, ?_, fun o' ho' => ?_,
      fun o' socket hx => ?_⟩
    · rw [hhandles]
      exact hs.tracked.close
    · rw [show (m.removeClient sessionID now).closed = _ from hclosed]
      exact hs.tracked.nodup_close hs.once
    · rw [hcreated] at ho'
      by_cases ho : o' = o
      · subst ho
        have hheld := congrArg (fun v => v.held o') hhandles
        exact hheld.trans Handles.close_held_self
      · rw [hothers o' ho]
        exact hs.fresh o' ho'
    · rw [hposted] at hx
      exact (hs.posted o' socket hx).trans_eq haccepted.symm

theorem sockets_step (hs : m.Sockets) (h : networkStep m e = some t) : t.Sockets := by
  have hlisted := listed_step hs.listed h
  rcases sockets_of_step h with ⟨now, accepted, wsaRecv, posted, -, rfl⟩ |
    ⟨i, recv, n, wsaRecv, -, -, -, ht⟩ | ⟨-, ⟨u, sessionID, now, hsame, hsub, -, rfl⟩ |
    ⟨hsame, hposted⟩⟩
  · cases accepted with
    | true => exact hs.accept hlisted
    | false => exact ⟨hlisted, hs.tracked.lose, hs.once, hs.fresh,
        fun o socket hx => Nat.lt_succ_of_lt (hs.posted o socket hx)⟩
  · obtain ⟨hsame, hposted⟩ := sockets_handleReceived ht
    refine hsame.sockets hs hlisted fun o socket hx => ?_
    rcases hposted with ⟨heq, -⟩ | ⟨heq, -⟩
    · exact hs.posted o socket (List.eraseIdx_subset (heq ▸ hx))
    · rw [heq] at hx
      rcases List.mem_append.mp hx with hx | hx
      · exact hs.posted o socket (List.eraseIdx_subset hx)
      · obtain ⟨-, hsocket⟩ := Prod.mk.inj (List.mem_singleton.mp hx)
        exact (hs.tracked.isOpen recv.client socket hsocket.symm).1
  · have hu : u.Sockets := hsame.sockets hs (hsame.listed hs.listed) fun o socket hx =>
      hs.posted o socket (hsub hx)
    exact hu.removeClient sessionID
  · exact hsame.sockets hs hlisted fun o socket hx => hs.posted o socket (hposted ▸ hx)

theorem sockets_start (pool : MemoryPool Packet) :
    ({ mPacketPool := pool } : NetworkManager).Sockets :=
  ⟨(posted_start pool).listed, Handles.tracked_empty, List.nodup_nil, fun _ _ => rfl,
    fun _ _ hx => absurd hx List.not_mem_nil⟩

/-! ### Which steps keep watch -/

/-- The object that has the socket watches it, where the sockets are watched at all. -/
theorem Watched.iff_of_handles (hs : m.Sockets) (hw : m.Watched) (h : t.handles = m.handles) :
    t.Watched ↔ ∀ o, (m.clients o).mSocket ≠ none → t.Watches o := by
  rw [Watched, h]
  exact Handles.ClosedOnce.congr_iff hs.tracked hw

theorem watched_accept_iff {wsaRecv posted : Bool} (hs : m.Sockets) (hw : m.Watched)
    (ht : Sockets (m.handleAccept now true wsaRecv posted)) :
    (m.handleAccept now true wsaRecv posted).Watched ↔
      m.KeepsWatch (.accept now true wsaRecv posted) := by
  rcases htake : takeClient { m with accepted := m.accepted + 1, accepting := false } now
    with ⟨o, u⟩
  obtain ⟨hhandles, -, hothers, -, hposted⟩ := handles_accept wsaRecv posted htake
  have htaken : (m.takeClient now).1 = o := by
    refine Eq.trans ?_ (congrArg Prod.fst htake)
    have hreused : reused { m with accepted := m.accepted + 1, accepting := false } now =
      m.reused now := rfl
    rw [takeClient, takeClient, hreused]
    cases m.reused now <;> rfl
  have hfree : (∀ o', m.reused now = some o' → (m.clients o').mSocket = none) ↔
      (m.clients o).mSocket = none := by
    obtain ⟨-, -, ⟨hreused, -⟩ | ⟨hreused, rfl, -⟩⟩ := takeClient_cases _ now htake
    · exact ⟨fun h => h o hreused, fun h o' ho' =>
        Option.some.inj (hreused.symm.trans ho') ▸ h⟩
    · exact iff_of_true (fun o' ho' => (Option.some_ne_none o' (ho'.symm.trans hreused)).elim)
        (hs.fresh _ le_rfl)
  have hheld : (m.handleAccept now true wsaRecv posted).handles.held o = some m.accepted := by
    rw [hhandles]
    exact Handles.keep_held_self
  rw [KeepsWatch, hfree, htaken]
  constructor
  · intro hwatched
    have hbusy := Handles.ClosedOnce.busy_of_held ht.tracked hwatched hheld
    have hsocket : (m.clients o).mSocket = none := by
      by_contra hne
      obtain ⟨x, hx⟩ := Option.ne_none_iff_exists'.mp hne
      rw [Watched, hhandles] at hwatched
      exact hs.tracked.not_closedOnce_keep hx hwatched
    have hmem := hbusy.posted
    rw [show ((m.handleAccept now true wsaRecv posted).clients o).mSocket = _ from hheld] at hmem
    rcases hposted with ⟨-, heq⟩ | ⟨hrecv, -, hlist, hsid⟩
    · rw [heq] at hmem
      exact absurd (hs.posted o _ hmem) (Nat.lt_irrefl _)
    · have hfound := hbusy.found
      rw [hlist, hsid, UInt32.toNat_ofNat'] at hfound
      exact ⟨rfl, hrecv, hsocket, hfound⟩
  · rintro ⟨-, hrecv, hsocket, hleads⟩
    rcases hposted with ⟨hfalse, -⟩ | ⟨-, hadded, hlist, hsid⟩
    · rw [hrecv] at hfalse
      exact absurd hfalse Bool.noConfusion
    · have hnew : (m.handleAccept now true wsaRecv posted).Watches o := by
        refine ⟨?_, ?_⟩
        · rw [hlist, hsid, UInt32.toNat_ofNat']
          exact hleads
        · rw [hadded, show ((m.handleAccept now true wsaRecv posted).clients o).mSocket = _
            from hheld]
          exact List.mem_append_right _ (List.mem_singleton_self _)
      rw [Watched, hhandles]
      refine Handles.ClosedOnce.keep hw hsocket (fun j hj => ?_) hnew
      by_cases hjo : j = o
      · rw [hjo]
        exact hnew
      · refine ⟨?_, ?_⟩
        · obtain ⟨hlt, -⟩ := List.getElem?_eq_some_iff.mp hj.found
          rw [hothers j hjo, hlist, List.getElem?_append_left hlt]
          exact hj.found
        · rw [hothers j hjo, hadded]
          exact List.mem_append_left _ hj.posted

theorem watched_received_iff {i n : ℕ} {recv : PendingRecv} {wsaRecv : Bool} (hs : m.Sockets)
    (hw : m.Watched) (hget : m.recvs[i]? = some recv) (hn : recv.transferred = some n)
    (ht : t = handleReceived { m with recvs := m.recvs.eraseIdx i } recv n wsaRecv) :
    t.Watched ↔ m.KeepsWatch (.received i wsaRecv) := by
  obtain ⟨hsame, hposted⟩ := sockets_handleReceived ht
  have hallows : (m.clients recv.client).mSocket ≠ none →
      (m.allows recv.client wsaRecv = true ↔ wsaRecv = true) := by
    intro hsocket
    rw [allows, Option.isSome_iff_ne_none.mpr hsocket, Bool.and_true]
  have hkeep : m.KeepsWatch (.received i wsaRecv) ↔ (m.Relies i recv → wsaRecv = true ∧
      (m.clients recv.client).TakesPacket m.mPacketPool n) := by
    rw [KeepsWatch, hget]
    refine ⟨fun h hrelies => ?_, fun h recv' hrecv hrelies => ?_⟩
    · obtain ⟨hok, n', hn', htakes⟩ := h recv rfl hrelies
      obtain rfl := Option.some.inj (hn.symm.trans hn')
      exact ⟨hok, htakes⟩
    · obtain rfl := Option.some.inj hrecv
      exact ⟨(h hrelies).1, n, hn, (h hrelies).2⟩
  rw [hkeep, hw.iff_of_handles hs hsame.handles]
  constructor
  · rintro hwatches ⟨hopen, hsocket, honly⟩
    have hne : (m.clients recv.client).mSocket ≠ none := hsocket ▸ hopen
    have hmem := (hwatches recv.client hne).posted
    rw [hsame.mSocket, hsocket] at hmem
    rcases hposted with ⟨heq, -⟩ | ⟨-, hok, htakes⟩
    · exact absurd (heq ▸ hmem) honly
    · exact ⟨(hallows hne).mp hok, htakes⟩
  · intro hrelies o ho
    obtain ⟨x, hx⟩ := Option.ne_none_iff_exists'.mp ho
    have hwatch := Handles.ClosedOnce.busy_of_held hs.tracked hw hx
    refine ⟨?_, ?_⟩
    · rw [hsame.mClientList, hsame.mSessionID]
      exact hwatch.found
    · rw [hsame.mSocket]
      by_cases herase : (o, (m.clients o).mSocket) ∈ m.posted.eraseIdx i
      · rcases hposted with ⟨heq, -⟩ | ⟨heq, -⟩
        · exact heq ▸ herase
        · exact heq ▸ List.mem_append_left _ herase
      · have hlast := (posted_eraseIdx hget hwatch.posted).resolve_left herase
        obtain ⟨rfl, hsocket⟩ := Prod.mk.inj hlast
        rw [hsocket] at herase
        obtain ⟨hok, htakes⟩ := hrelies ⟨hsocket ▸ ho, hsocket, herase⟩
        rcases hposted with ⟨-, hnot⟩ | ⟨heq, -⟩
        · exact absurd htakes (hnot ((hallows ho).mpr hok))
        · rw [heq]
          exact List.mem_append_right _ (List.mem_singleton_self _)

/-- `RemoveClient` closes the socket of the object whose receive was dropped, or that object is one
that nothing leads to. -/
theorem Watched.removeClient {sessionID : UInt32} (hs : m.Sockets) (hw : m.Watched)
    (hsame : m.SameSockets u) (hdrop : ∀ x ∈ m.posted,
      x ∈ u.posted ∨ (m.clients x.1).mSessionID = sessionID) :
    (u.removeClient sessionID now).Watched := by
  have hkept (o : ClientRef) (ho : m.Watches o)
      (hne : u.mClientList[sessionID.toNat]? ≠ some (some o)) : u.Watches o := by
    refine ⟨?_, ?_⟩
    · rw [hsame.mClientList, hsame.mSessionID]
      exact ho.found
    · rw [hsame.mSocket]
      refine (hdrop _ ho.posted).resolve_right fun hsid => hne ?_
      rw [hsame.mClientList, ← hsid]
      exact ho.found
  have hposted : (u.removeClient sessionID now).posted = u.posted := by
    rw [NetworkManager.posted, (removeClient_recvs u sessionID now).1]
    rfl
  rcases handles_removeClient u sessionID now with ⟨hnone, heq⟩ | ⟨o, hentry, hhandles, hothers⟩
  · rw [heq, hw.iff_of_handles hs hsame.handles]
    intro o ho
    obtain ⟨x, hx⟩ := Option.ne_none_iff_exists'.mp ho
    exact hkept o (Handles.ClosedOnce.busy_of_held hs.tracked hw hx) (hnone o)
  · rw [Watched, hhandles, hsame.handles]
    refine Handles.ClosedOnce.close hs.tracked hw fun j hjo hj => ?_
    have hu : u.Watches j := hkept j hj fun h => hjo
      (Option.some.inj (Option.some.inj (h.symm.trans hentry)))
    refine ⟨?_, ?_⟩
    · rw [hothers j hjo]
      rcases removeClient_cases u sessionID now with ⟨-, heq⟩ | ⟨o', -, heq⟩
      · rw [heq]
        exact hu.found
      · rw [heq]
        exact hu.found
    · rw [hposted, hothers j hjo]
      exact hu.posted

theorem watched_step_iff (hs : m.Sockets) (hw : m.Watched) (h : networkStep m e = some t) :
    t.Watched ↔ m.KeepsWatch e := by
  have ht := sockets_step hs h
  rcases sockets_of_step h with ⟨now, accepted, wsaRecv, posted, rfl, rfl⟩ |
    ⟨i, recv, n, wsaRecv, rfl, hget, hn, ht'⟩ | ⟨hkeep, ⟨u, sessionID, now, hsame, -, hdrop, rfl⟩ |
    ⟨hsame, hposted⟩⟩
  · cases accepted with
    | true => exact watched_accept_iff hs hw ht
    | false => exact iff_of_false hs.tracked.not_closedOnce_lose fun h => Bool.noConfusion h.1
  · exact watched_received_iff hs hw hget hn ht'
  · exact iff_of_true (hw.removeClient hs hsame hdrop) hkeep
  · refine iff_of_true ((hw.iff_of_handles hs hsame.handles).mpr fun o ho => ?_) hkeep
    obtain ⟨x, hx⟩ := Option.ne_none_iff_exists'.mp ho
    have hwatch := Handles.ClosedOnce.busy_of_held hs.tracked hw hx
    refine ⟨?_, ?_⟩
    · rw [hsame.mClientList, hsame.mSessionID]
      exact hwatch.found
    · rw [hsame.mSocket, hposted]
      exact hwatch.posted

end NetworkManager

/-- In every run no socket is closed twice, and each that is open has an object that watches it,
throughout the run, exactly where every step keeps watch. -/
theorem watched_iff_keepsWatch (pool : MemoryPool Packet) (es : List NetworkEvent)
    (m : NetworkManager) (h : run networkStep { mPacketPool := pool } es = some m) :
    m.closed.Nodup ∧
      (Throughout networkStep NetworkManager.Watched { mPacketPool := pool } es ↔
        Meets networkStep NetworkManager.KeepsWatch { mPacketPool := pool } es) :=
  ⟨(run_invariant (fun _ _ _ hs hst => NetworkManager.sockets_step hs hst)
      (NetworkManager.sockets_start pool) h).once,
    throughout_iff_meets (fun _ _ _ hs hst => NetworkManager.sockets_step hs hst)
      (fun _ _ _ hs hw hst => NetworkManager.watched_step_iff hs hw hst)
      (NetworkManager.sockets_start pool) Handles.closedOnce_empty h⟩

/-- A receive of a whole frame is followed by the next one, whose failure closes the socket.  One of
a single byte is not, and the connection is forgotten. -/
theorem forgotten_after_one_byte :
    Throughout networkStep NetworkManager.Watched { mPacketPool := ⟨[]⟩ }
        [.accept 10 true true true, .arrive 0 echoRequest, .received 0 true, .receiveFailed 0 20] ∧
      ¬Throughout networkStep NetworkManager.Watched { mPacketPool := ⟨[]⟩ }
        ([.accept 10 true true true, .arrive 0 [1]] ++ [.received 0 true]) := by
  refine ⟨(watched_iff_keepsWatch ⟨[]⟩ _ _ rfl).2.mpr ?_, fun hP => ?_⟩
  · refine (meets_cons rfl).mpr ⟨⟨rfl, rfl, nofun, rfl⟩, (meets_cons rfl).mpr ⟨trivial,
      (meets_cons rfl).mpr ⟨fun recv hrecv _ => ?_, (meets_cons rfl).mpr ⟨trivial, trivial⟩⟩⟩⟩
    obtain rfl := Option.some.inj hrecv
    exact ⟨rfl, 13, rfl, nofun, _, rfl, nofun⟩
  · have hmeets := (watched_iff_keepsWatch ⟨[]⟩ _ _ rfl).2.mp hP
    obtain ⟨-, hlast⟩ := (meets_append rfl).mp hmeets
    obtain ⟨-, n, hn, -, context, hwrite, hpacket⟩ := hlast.1 _ rfl ⟨nofun, rfl, nofun⟩
    obtain rfl := Option.some.inj hn
    obtain rfl := Option.some.inj hwrite
    exact hpacket rfl

end IocpStudy.StudyServer
