import IocpStudy.StudyServer.NetworkManager

/-! Which connection a response is sent on.  The client list keeps the entry of a removed client,
and the client object is reused for another connection with its send queue, so the session ID of a
closed connection may lead to the socket of a later one.  Responses stay on their own connections
while an object is reused only when nothing of its earlier connections is left. -/

namespace IocpStudy.StudyServer

open Words Runs

/-- The connections: their number, their session IDs and the client list that these index. -/
structure Registry where
  accepted : ℕ
  sessions : List (Socket × UInt32)
  clientList : List (Option ClientRef)

def NetworkManager.registry (m : NetworkManager) : Registry :=
  ⟨m.accepted, m.sessions, m.mClientList⟩

/-- The packet was received on `socket` and stamped with the session ID of that connection. -/
def Registry.Own (r : Registry) (packet : Packet) (socket : Socket) : Prop :=
  packet.receivedOn = some socket ∧ (socket, packet.SessionID) ∈ r.sessions

/-- Each accepted `WSASend` carries bytes of one packet, and the responses to packets received on a
connection are sent on the socket of that connection. -/
structure NetworkManager.Isolated (m : NetworkManager) : Prop where
  attributed : ∀ t ∈ m.transmissions, ∃ p, t.packet = some p ∧ t.bytes <:+ p.encode
  home : ∀ t ∈ m.transmissions, ∀ p, t.packet = some p → ∀ socket, m.registry.Own p socket →
    t.socket = some socket

/-- An object taken from the pool has an empty send queue and no echo packet waits for a session ID
that leads to it, and the client list has not outgrown the session IDs; and a receive completion is
not handled on an object that serves another connection under the session ID of the completion's
connection. -/
def NetworkManager.Clean (m : NetworkManager) : NetworkEvent → Prop
  | .accept now accepted _ _ => accepted = true → m.mClientList.length < 2 ^ 32 ∧
    ∀ o, m.reused now = some o → (m.clients o).mSendQueue = [] ∧
      ∀ p ∈ m.waiting, p.PacketID = echoID → m.mClientList[p.SessionID.toNat]? ≠ some (some o)
  | .received i _ => ∀ recv, m.recvs[i]? = some recv → ∀ socket, recv.socket = some socket →
    (socket, (m.clients recv.client).mSessionID) ∈ m.sessions →
    (m.clients recv.client).mIsConnected = true →
    (m.clients recv.client).mSocket = some socket
  | _ => True

/-! ### What a client may send -/

namespace Registry

/-- The client may send the packet: while it is connected, it is on the connection that the packet
was received on, if the packet has that connection's session ID. -/
def Serves (r : Registry) (c : NetworkClient) (p : Packet) : Prop :=
  ∀ socket, r.Own p socket → c.mIsConnected = true → c.mSocket = some socket

/-- The packet was received on a connection that has been accepted, if on any. -/
def Known (r : Registry) (p : Packet) : Prop :=
  ∀ socket, p.receivedOn = some socket → socket < r.accepted

/-- The session ID of the connection leads to the object `o`. -/
def Leads (r : Registry) (socket : Socket) (o : ClientRef) : Prop :=
  socket < r.accepted ∧
    ∀ sid, (socket, sid) ∈ r.sessions → r.clientList[sid.toNat]? = some (some o)

/-- What holds of the object `o` with the value `c`. -/
structure Sound (r : Registry) (o : ClientRef) (c : NetworkClient) : Prop where
  ordered : c.mSendContext.Ordered
  queued : ∀ q ∈ c.mSendQueue, r.Known q ∧ r.Serves c q
  sending : ∀ p, c.sending = some p →
    r.Known p ∧ (c.mSendContext.unread ≠ [] → r.Serves c p)
  content : c.mSendContext.unread ≠ [] →
    ∃ p, c.sending = some p ∧ c.mSendContext.unread <:+ p.encode
  disconnected : c.mIsConnected = false → c.mSocket = none
  leads : ∀ socket, c.mSocket = some socket → r.Leads socket o

/-- What holds of an accepted `WSASend`. -/
structure Sent (r : Registry) (t : Transmission) : Prop where
  attributed : ∃ p, t.packet = some p ∧ t.bytes <:+ p.encode
  known : ∀ p, t.packet = some p → r.Known p
  home : ∀ p, t.packet = some p → ∀ socket, r.Own p socket → t.socket = some socket

/-- What holds of a call of `Send` by the object `o` with the value `c`. -/
structure Sends (r : Registry) (o : ClientRef) (c : NetworkClient) (result : SendResult) :
    Prop where
  sound : r.Sound o result.client
  connected : result.client.mIsConnected = c.mIsConnected
  socket : result.client.mSocket = c.mSocket
  sent : ∀ sub, result.submitted = some sub →
    r.Sent ⟨c.mSocket, result.client.sending, sub.bytes⟩

variable {r : Registry} {o : ClientRef} {c c' : NetworkClient} {p : Packet} {wsaSend : Bool}

theorem Serves.congr (hserves : r.Serves c p) (hconnected : c'.mIsConnected = c.mIsConnected)
    (hsocket : c'.mSocket = c.mSocket) : r.Serves c' p := by
  intro socket hown hconn
  rw [hsocket]
  exact hserves socket hown (hconnected ▸ hconn)

theorem Sound.congr (hc : r.Sound o c) (hcontext : c'.mSendContext = c.mSendContext)
    (hqueue : c'.mSendQueue = c.mSendQueue) (hsending : c'.sending = c.sending)
    (hconnected : c'.mIsConnected = c.mIsConnected) (hsocket : c'.mSocket = c.mSocket) :
    r.Sound o c' := by
  constructor
  · rw [hcontext]
    exact hc.ordered
  · intro q hq
    rw [hqueue] at hq
    exact (hc.queued q hq).imp_right (·.congr hconnected hsocket)
  · intro p hp
    rw [hsending] at hp
    rw [hcontext]
    exact (hc.sending p hp).imp_right fun h hunread => (h hunread).congr hconnected hsocket
  · rw [hcontext, hsending]
    exact hc.content
  · rw [hconnected, hsocket]
    exact hc.disconnected
  · rw [hsocket]
    exact hc.leads

theorem Sound.submit (hc : r.Sound o c) (hunread : c.mSendContext.unread ≠ [])
    (hsocket : wsaSend = true → c.mSocket ≠ none) : r.Sends o c (c.submit wsaSend) := by
  have hcontent : (c.submit wsaSend).client.mSendContext.unread = c.mSendContext.unread := rfl
  refine ⟨⟨⟨hc.ordered.readPos_le, hc.ordered.writePos_le⟩, hc.queued, hc.sending, hc.content,
    hc.disconnected, hc.leads⟩, rfl, rfl, fun sub hsub => ?_⟩
  rw [NetworkClient.submit_submitted wsaSend hc.ordered] at hsub
  split_ifs at hsub with haccepted
  obtain rfl := Option.some.inj hsub
  refine ⟨hc.content hunread, fun p hp => (hc.sending p hp).1, fun p hp socket hown => ?_⟩
  apply (hc.sending p hp).2 hunread socket hown
  by_contra hconn
  exact hsocket haccepted (hc.disconnected (by simpa using hconn))

theorem Sound.send (hc : r.Sound o c) (hsocket : wsaSend = true → c.mSocket ≠ none) :
    r.Sends o c (c.send wsaSend) := by
  by_cases hunread : c.mSendContext.unread = []
  · rcases hqueue : c.mSendQueue with - | ⟨packet, queue⟩
    · rw [NetworkClient.send_of_idle wsaSend hc.ordered hunread hqueue]
      exact ⟨hc, rfl, rfl, by simp⟩
    · have hfirst := hc.queued packet (by simp [hqueue])
      rcases Nat.lt_or_ge bufferSize (headerSize + packet.BodyLength.toNat) with hlong | hfit
      · obtain ⟨context, hord, hempty, hsend⟩ :=
          NetworkClient.send_of_long wsaSend hc.ordered hunread hqueue hlong
        rw [hsend]
        refine ⟨⟨hord, hc.queued, fun p hp => ⟨(hc.sending p hp).1, fun hne => ?_⟩, fun hne => ?_,
          hc.disconnected, hc.leads⟩, rfl, rfl, by simp⟩
        · exact absurd hempty hne
        · exact absurd hempty hne
      · obtain ⟨context, hord, hbytes, hsend⟩ :=
          NetworkClient.send_of_queue wsaSend hc.ordered hunread hqueue hfit
        rw [hsend]
        have hwritten : r.Sound o
            { c with mSendContext := context, mSendQueue := queue, sending := some packet } := by
          refine ⟨hord, fun q hq => hc.queued q (by simp [hqueue, hq]), ?_, fun _ => ?_,
            hc.disconnected, hc.leads⟩
          · rintro p hp
            obtain rfl := Option.some.inj hp
            exact hfirst.imp_right fun h _ => h
          · exact ⟨packet, rfl, by rw [hbytes]⟩
        have hsends := hwritten.submit
          (by simp only [hbytes]; exact packet.encode_ne_nil) hsocket
        exact ⟨hsends.sound, hsends.connected, hsends.socket, hsends.sent⟩
  · rw [NetworkClient.send_of_unread wsaSend hc.ordered hunread]
    exact hc.submit hunread hsocket

theorem Sound.handleSend (hc : r.Sound o c) (n : ℕ)
    (hsocket : wsaSend = true → c.mSocket ≠ none) : r.Sends o c (c.handleSend n wsaSend) := by
  rw [NetworkClient.handleSend, NetworkClient.handleSendRead]
  cases hread : c.mSendContext.read n with
  | none => exact ⟨hc, rfl, rfl, by simp⟩
  | some context =>
    have hdrop := NetworkContext.unread_read hread
    have hne : context.unread ≠ [] → c.mSendContext.unread ≠ [] := by
      intro hne hnil
      rw [hnil, List.drop_nil] at hdrop
      exact hne hdrop
    have hrest : r.Sound o { c with mSendContext := context } := by
      refine ⟨hc.ordered.read hread, hc.queued, fun p hp => ?_, fun hunread => ?_, hc.disconnected,
        hc.leads⟩
      · exact (hc.sending p hp).imp_right fun h hunread => h (hne hunread)
      · obtain ⟨p, hp, hsuffix⟩ := hc.content (hne hunread)
        refine ⟨p, hp, ?_⟩
        rw [hdrop]
        exact (List.drop_suffix n _).trans hsuffix
    simp only [Option.map_some, NetworkClient.handleSendFinish]
    split_ifs
    · have hsends := hrest.send hsocket
      exact ⟨hsends.sound, hsends.connected, hsends.socket, hsends.sent⟩
    · exact ⟨hrest.congr rfl rfl rfl rfl rfl, rfl, rfl, by simp⟩

end Registry

/-! ### The invariant of clean runs -/

/-- Every object may send what it holds, and the waiting echo packets lead to objects that may send
the response. -/
structure NetworkManager.Separated (m : NetworkManager) : Prop where
  clients : ∀ o, m.registry.Sound o (m.clients o)
  waiting : ∀ p ∈ m.waiting, m.registry.Known p ∧ (p.PacketID = echoID →
    ∀ o, m.mClientList[p.SessionID.toNat]? = some (some o) → m.registry.Serves (m.clients o) p)
  recvs : ∀ recv ∈ m.recvs, ∀ socket, recv.socket = some socket →
    m.registry.Leads socket recv.client
  sessions : ∀ socket sid, (socket, sid) ∈ m.sessions →
    socket < m.accepted ∧ sid.toNat < m.mClientList.length
  created : ∀ o, some o ∈ m.mClientList ∨ o ∈ m.mClientPool → o < m.created
  transmissions : ∀ t ∈ m.transmissions, m.registry.Sent t

namespace NetworkManager

variable {m m' : NetworkManager} {o : ClientRef} {c : NetworkClient} {p : Packet}
  {e : NetworkEvent} {es : List NetworkEvent}

theorem Separated.isolated (hs : m.Separated) : m.Isolated :=
  ⟨fun t ht => (hs.transmissions t ht).attributed, fun t ht => (hs.transmissions t ht).home⟩

/-- A new value for an object, which is connected only where the old one was, and on the same
socket. -/
theorem Separated.setClient (hs : m.Separated) (hc : m.registry.Sound o c)
    (hsame : c.mIsConnected = true →
      (m.clients o).mIsConnected = true ∧ c.mSocket = (m.clients o).mSocket) :
    (m.setClient o c).Separated := by
  refine ⟨fun o' => ?_, fun p hp => ?_, hs.recvs, hs.sessions, hs.created, hs.transmissions⟩
  · by_cases ho : o' = o
    · subst ho
      simp only [NetworkManager.setClient, Function.update_self]
      exact hc
    · simp only [NetworkManager.setClient, Function.update_of_ne ho]
      exact hs.clients o'
  · obtain ⟨hknown, hserves⟩ := hs.waiting p hp
    refine ⟨hknown, fun hecho o' hlist => ?_⟩
    have hold := hserves hecho o' hlist
    by_cases ho : o' = o
    · subst ho
      simp only [NetworkManager.setClient, Function.update_self]
      intro socket hown hconn
      obtain ⟨hconn', hsock⟩ := hsame hconn
      rw [hsock]
      exact hold socket hown hconn'
    · simp only [NetworkManager.setClient, Function.update_of_ne ho]
      exact hold

/-- A change of the waiting packets, the outstanding receives, the pool of objects or what the
invariant does not depend on. -/
theorem Separated.frame (hs : m.Separated) (hregistry : m'.registry = m.registry)
    (hclients : m'.clients = m.clients) (hcreated : m'.created = m.created)
    (htransmissions : m'.transmissions = m.transmissions)
    (hwaiting : ∀ p ∈ m'.waiting, p ∈ m.waiting ∨ m.registry.Known p ∧ (p.PacketID = echoID →
      ∀ o, m.mClientList[p.SessionID.toNat]? = some (some o) → m.registry.Serves (m.clients o) p))
    (hrecvs : ∀ recv ∈ m'.recvs, ∀ socket, recv.socket = some socket →
      m.registry.Leads socket recv.client)
    (hpool : ∀ o ∈ m'.mClientPool, o ∈ m.mClientPool ∨ some o ∈ m.mClientList) :
    m'.Separated := by
  have hlist : m'.mClientList = m.mClientList := congrArg Registry.clientList hregistry
  have hsessions : m'.sessions = m.sessions := congrArg Registry.sessions hregistry
  have haccepted : m'.accepted = m.accepted := congrArg Registry.accepted hregistry
  constructor
  · rw [hregistry, hclients]
    exact hs.clients
  · intro p hp
    rw [hregistry, hclients, hlist]
    exact (hwaiting p hp).elim (hs.waiting p) id
  · rw [hregistry]
    exact hrecvs
  · rw [hsessions, haccepted, hlist]
    exact hs.sessions
  · rw [hcreated, hlist]
    rintro o (ho | ho)
    · exact hs.created o (Or.inl ho)
    · exact hs.created o ((hpool o ho).elim Or.inr Or.inl)
  · rw [hregistry, htransmissions]
    exact hs.transmissions

theorem Separated.releasePackets (hs : m.Separated) (packets : List Packet) :
    (m.releasePackets packets).Separated :=
  hs.frame rfl rfl rfl rfl (fun _ hp => Or.inl hp) hs.recvs fun _ ho => Or.inl ho

theorem Separated.called {result : SendResult} (hs : m.Separated)
    (hresult : m.registry.Sends o (m.clients o) result) : (m.called o result).Separated := by
  have hset : (m.setClient o result.client).Separated := by
    refine hs.setClient hresult.sound fun hconn => ⟨?_, hresult.socket⟩
    rw [← hresult.connected]
    exact hconn
  refine ⟨hset.clients, hset.waiting, hset.recvs, hset.sessions, hset.created, fun t ht => ?_⟩
  rcases List.mem_append.mp ht with ht | ht
  · exact hs.transmissions t ht
  · obtain ⟨sub, hsub, rfl⟩ := List.mem_map.mp ht
    exact hresult.sent sub (Option.mem_toList.mp hsub)

theorem socket_of_allows {outcome : Bool} (h : m.allows o outcome = true) :
    (m.clients o).mSocket ≠ none := by
  rw [allows, Bool.and_eq_true] at h
  exact Option.isSome_iff_ne_none.mp h.2

theorem sizeTOfInt_sessionID {sid : UInt32} (h : ¬intOfUInt32 sid < 0) :
    sizeTOfInt (intOfUInt32 sid) = sid.toNat := by
  have hlt := sid.toNat_lt
  unfold intOfUInt32 at h ⊢
  split_ifs with hsmall
  · rw [sizeTOfInt_natCast (by omega)]
  · omega

theorem Separated.pushSendPacket (hs : m.Separated) (hknown : m.registry.Known p)
    (hserves : ∀ o, m.mClientList[p.SessionID.toNat]? = some (some o) →
      m.registry.Serves (m.clients o) p) (wsaSend : Bool) :
    (m.pushSendPacket (intOfUInt32 p.SessionID) p wsaSend).Separated := by
  rw [NetworkManager.pushSendPacket]
  split_ifs with hbounds
  · exact hs.releasePackets _
  rw [sizeTOfInt_sessionID (fun h => hbounds (Or.inl h))]
  rcases hentry : m.mClientList[p.SessionID.toNat]? with - | (- | o)
  · exact hs.releasePackets _
  · exact hs.releasePackets _
  have hclient := hs.clients o
  have henqueued : m.registry.Sound o ((m.clients o).enqueuePacket p) := by
    refine ⟨hclient.ordered, fun q hq => ?_, hclient.sending, hclient.content,
      hclient.disconnected, hclient.leads⟩
    rcases List.mem_append.mp hq with hq | hq
    · exact hclient.queued q hq
    · obtain rfl := List.mem_singleton.mp hq
      exact ⟨hknown, hserves o hentry⟩
  simp only
  split_ifs with hconn hsending
  · exact hs.releasePackets _
  · exact hs.setClient henqueued fun hconn => ⟨hconn, rfl⟩
  · have hset := hs.setClient (o := o)
      (c := { (m.clients o).enqueuePacket p with mSending := true })
      (henqueued.congr rfl rfl rfl rfl rfl) fun hconn => ⟨hconn, rfl⟩
    apply hset.called
    simp only [NetworkManager.setClient, Function.update_self]
    exact Registry.Sound.send (henqueued.congr rfl rfl rfl rfl rfl) socket_of_allows

theorem Separated.processed (hs : m.Separated) (hknown : m.registry.Known p)
    (hserves : p.PacketID = echoID → ∀ o, m.mClientList[p.SessionID.toNat]? = some (some o) →
      m.registry.Serves (m.clients o) p) (wsaSend : Bool) : (m.processed p wsaSend).Separated := by
  rw [NetworkManager.processed, Service.processPacket]
  split_ifs with hecho
  · have hacquired : ({ m with mPacketPool := (m.mPacketPool.acquire {}).2 }).Separated :=
      hs.frame rfl rfl rfl rfl (fun _ hp => Or.inl hp) hs.recvs fun _ ho => Or.inl ho
    exact (hacquired.pushSendPacket (p := (Service.echo p).2) hknown (hserves hecho)
      wsaSend).releasePackets [p]
  · exact hs.releasePackets _

theorem Separated.removeClient (hs : m.Separated) (sessionID : UInt32) (now : ℕ) :
    (m.removeClient sessionID now).Separated := by
  rw [NetworkManager.removeClient]
  split_ifs
  · exact hs
  rcases hentry : m.mClientList[sessionID.toNat]? with - | (- | o)
  · exact hs
  · exact hs
  have hclosed : m.registry.Sound o ((m.clients o).close now).reset := by
    have hempty : ((m.clients o).close now).reset.mSendContext.unread = [] := rfl
    have hserves : ∀ p, m.registry.Serves ((m.clients o).close now).reset p := by
      intro p socket _ hconn
      simp [NetworkClient.reset] at hconn
    have hclient := hs.clients o
    refine ⟨NetworkContext.Ordered.resetBuffer, fun q hq => ⟨(hclient.queued q hq).1, hserves q⟩,
      fun p hp => ⟨(hclient.sending p hp).1, fun _ => hserves p⟩, fun hne => absurd hempty hne,
      fun _ => rfl, fun socket hsocket => ?_⟩
    simp [NetworkClient.reset, NetworkClient.close] at hsocket
  have hset := hs.setClient hclosed fun hconn => by simp [NetworkClient.reset] at hconn
  refine hset.frame rfl rfl rfl rfl (fun _ hp => Or.inl hp) hset.recvs fun o' ho => ?_
  rcases List.mem_append.mp ho with ho | ho
  · exact Or.inl ho
  · obtain rfl := List.mem_singleton.mp ho
    exact Or.inr (List.mem_of_getElem? hentry)

/-! ### Receiving -/

theorem getPacket_client (c : NetworkClient) (pool : MemoryPool Packet) :
    ∃ context, (c.getPacket pool).client = { c with mReceiveContext := context } := by
  rw [NetworkClient.getPacket]
  simp only
  split_ifs
  · exact ⟨_, rfl⟩
  · exact ⟨_, rfl⟩
  · split
    · exact ⟨_, rfl⟩
    · exact ⟨_, rfl⟩

/-- `_HandleReceive` changes no more of the client than its receive context, and stamps the packet
that it pushes with the client's session ID. -/
theorem handleReceive_client (c : NetworkClient) (pool : MemoryPool Packet) (n : ℕ) (wsaRecv : Bool)
    (socket : Option Socket) :
    (∃ context, (handleReceive c pool true n wsaRecv socket).client =
      { c with mReceiveContext := context }) ∧
    ∀ p, (handleReceive c pool true n wsaRecv socket).pushed = some p →
      p.SessionID = c.mSessionID ∧ p.receivedOn = socket := by
  rw [handleReceive]
  split_ifs
  · exact ⟨⟨_, rfl⟩, by simp⟩
  cases c.mReceiveContext.writeSize n with
  | none => exact ⟨⟨_, rfl⟩, by simp⟩
  | some context =>
    obtain ⟨context', hclient⟩ := getPacket_client { c with mReceiveContext := context } pool
    simp only [dispatchReceived]
    split
    · exact ⟨⟨context', by simp only [hclient]⟩, by simp⟩
    · simp only [if_true, hclient, NetworkClient.receive]
      refine ⟨⟨_, rfl⟩, fun p hp => ?_⟩
      obtain rfl := Option.some.inj hp
      exact ⟨rfl, rfl⟩

theorem Separated.handleReceived {recv : PendingRecv} {n : ℕ} {wsaRecv : Bool} (hs : m.Separated)
    (hrecv : ∀ socket, recv.socket = some socket → m.registry.Leads socket recv.client)
    (hclean : ∀ socket, recv.socket = some socket →
      (socket, (m.clients recv.client).mSessionID) ∈ m.sessions →
      (m.clients recv.client).mIsConnected = true →
      (m.clients recv.client).mSocket = some socket) :
    (m.handleReceived recv n wsaRecv).Separated := by
  obtain ⟨⟨context, hclient⟩, hpushed⟩ := handleReceive_client (m.clients recv.client)
    m.mPacketPool n (m.allows recv.client wsaRecv) recv.socket
  have hold := hs.clients recv.client
  have hset := hs.setClient (o := recv.client)
    (c := { m.clients recv.client with mReceiveContext := context })
    (hold.congr rfl rfl rfl rfl rfl) fun hconn => ⟨hconn, rfl⟩
  rw [NetworkManager.handleReceived]
  simp only [hclient]
  refine hset.frame rfl rfl rfl rfl (fun p hp => ?_) (fun recv' hrecv' => ?_) fun _ ho => Or.inl ho
  · rcases hpacket : (handleReceive (m.clients recv.client) m.mPacketPool true n
      (m.allows recv.client wsaRecv) recv.socket).pushed with - | packet
    · simp only [NetworkManager.waiting, hpacket, Option.toList_none, List.foldl_nil] at hp
      exact Or.inl hp
    · simp only [NetworkManager.waiting, hpacket, Option.toList_some, List.foldl_cons,
        List.foldl_nil, NetworkDispatcher.pushPacket, List.append_assoc, List.mem_append,
        List.mem_singleton] at hp
      rcases hp with hp | rfl | hp
      · exact Or.inl (List.mem_append_left _ hp)
      · -- The packet just received: the session ID leads back to the object it was received by.
        obtain ⟨hsid, hon⟩ := hpushed p hpacket
        right
        refine ⟨fun socket hsocket => (hrecv socket (hon ▸ hsocket)).1, fun _ o ho => ?_⟩
        rintro socket ⟨hsocket, hown⟩ hconn
        have hback := (hrecv socket (hon ▸ hsocket)).2 p.SessionID hown
        obtain rfl : recv.client = o := by
          have hboth := hback.symm.trans ho
          simpa using hboth
        simp only [NetworkManager.setClient, Function.update_self] at hconn ⊢
        exact hclean socket (hon ▸ hsocket) (hsid ▸ hown) hconn
      · exact Or.inl (List.mem_append_right _ hp)
  · intro socket hsocket
    rcases List.mem_append.mp hrecv' with hrecv' | hrecv'
    · exact hs.recvs recv' hrecv' socket hsocket
    · obtain ⟨wsaBuf, -, rfl⟩ := List.mem_map.mp hrecv'
      exact hold.leads socket hsocket

end NetworkManager

/-! ### Accepting -/

/-- The registry when the next connection has been accepted, and may have its session ID. -/
structure Registry.Accepts (r r' : Registry) : Prop where
  accepted : r'.accepted = r.accepted + 1
  sessions : ∀ socket sid, (socket, sid) ∈ r'.sessions →
    (socket, sid) ∈ r.sessions ∨ socket = r.accepted
  clientList : r.clientList <+: r'.clientList

namespace Registry.Accepts

variable {r r' : Registry} {o : ClientRef} {c : NetworkClient} {p : Packet} {socket : Socket}
  {t : Transmission}

theorem known (h : r.Accepts r') (hp : r.Known p) : r'.Known p := by
  intro socket hsocket
  rw [h.accepted]
  exact Nat.lt_succ_of_lt (hp socket hsocket)

/-- The packets received so far get no session ID of their own by the new connection. -/
theorem own (h : r.Accepts r') (hp : r.Known p) (hown : r'.Own p socket) : r.Own p socket := by
  obtain ⟨hsocket, hsession⟩ := hown
  refine ⟨hsocket, (h.sessions socket _ hsession).resolve_right fun hnew => ?_⟩
  exact Nat.ne_of_lt (hp socket hsocket) hnew

theorem serves (h : r.Accepts r') (hp : r.Known p) (hserves : r.Serves c p) : r'.Serves c p :=
  fun socket hown => hserves socket (h.own hp hown)

theorem leads (h : r.Accepts r') (hleads : r.Leads socket o) : r'.Leads socket o := by
  obtain ⟨hlt, hlist⟩ := hleads
  refine ⟨by rw [h.accepted]; exact Nat.lt_succ_of_lt hlt, fun sid hsession => ?_⟩
  have hold := (h.sessions socket sid hsession).resolve_right (Nat.ne_of_lt hlt)
  obtain ⟨new, hnew⟩ := h.clientList
  have hentry := hlist sid hold
  rw [← hnew, List.getElem?_append_left (List.getElem?_eq_some_iff.mp hentry).1]
  exact hentry

theorem sound (h : r.Accepts r') (hc : r.Sound o c) : r'.Sound o c :=
  ⟨hc.ordered, fun q hq => ⟨h.known (hc.queued q hq).1, h.serves (hc.queued q hq).1
      (hc.queued q hq).2⟩,
    fun p hp => ⟨h.known (hc.sending p hp).1, fun hne => h.serves (hc.sending p hp).1
      ((hc.sending p hp).2 hne)⟩,
    hc.content, hc.disconnected, fun socket hsocket => h.leads (hc.leads socket hsocket)⟩

theorem sent (h : r.Accepts r') (ht : r.Sent t) : r'.Sent t :=
  ⟨ht.attributed, fun p hp => h.known (ht.known p hp),
    fun p hp socket hown => ht.home p hp socket (h.own (ht.known p hp) hown)⟩

end Registry.Accepts

namespace NetworkManager

variable {m m' : NetworkManager} {o : ClientRef} {c : NetworkClient} {now : ℕ}

/-- A client just accepted: connected on the new socket, with nothing to send. -/
structure Accepted (r : Registry) (socket : Socket) (c : NetworkClient) : Prop where
  ordered : c.mSendContext.Ordered
  unread : c.mSendContext.unread = []
  queue : c.mSendQueue = []
  sending : ∀ p, c.sending = some p → r.Known p
  connected : c.mIsConnected = true
  socket : c.mSocket = some socket

/-- The new connection is served by an object that nothing in the dispatcher leads to. -/
theorem Separated.accept (hs : m.Separated) (hregistry : m.registry.Accepts m'.registry)
    (hc : Accepted m'.registry m.accepted (m'.clients o))
    (hothers : ∀ o', o' ≠ o → m'.clients o' = m.clients o')
    (hfree : ∀ p ∈ m.waiting, p.PacketID = echoID →
      m.mClientList[p.SessionID.toNat]? ≠ some (some o))
    (hleads : m'.registry.Leads m.accepted o) (hwaiting : m'.waiting = m.waiting)
    (hrecvs : ∀ recv ∈ m'.recvs,
      recv ∈ m.recvs ∨ recv.socket = some m.accepted ∧ recv.client = o)
    (hsessions : ∀ socket sid, (socket, sid) ∈ m'.sessions →
      socket < m'.accepted ∧ sid.toNat < m'.mClientList.length)
    (hcreated : ∀ o, some o ∈ m'.mClientList ∨ o ∈ m'.mClientPool → o < m'.created)
    (htransmissions : m'.transmissions = m.transmissions) : m'.Separated := by
  refine ⟨fun o' => ?_, fun p hp => ?_, fun recv hrecv socket hsocket => ?_, hsessions, hcreated,
    fun t ht => ?_⟩
  · by_cases ho : o' = o
    · subst ho
      refine ⟨hc.ordered, fun q hq => ?_, fun p hp => ?_, fun hne => absurd hc.unread hne,
        fun hconn => ?_, fun socket hsocket => ?_⟩
      · simp [hc.queue] at hq
      · exact ⟨hc.sending p hp, fun hne => absurd hc.unread hne⟩
      · simp [hc.connected] at hconn
      · obtain rfl := Option.some.inj (hc.socket.symm.trans hsocket)
        exact hleads
    · rw [hothers o' ho]
      exact hregistry.sound (hs.clients o')
  · rw [hwaiting] at hp
    obtain ⟨hknown, hserves⟩ := hs.waiting p hp
    refine ⟨hregistry.known hknown, fun hecho o' hlist socket hown hconn => ?_⟩
    have hold := hregistry.own hknown hown
    have hbound := (hs.sessions socket _ hold.2).2
    have hentry : m.mClientList[p.SessionID.toNat]? = some (some o') := by
      obtain ⟨new, hnew⟩ := hregistry.clientList
      have hlist' : m'.mClientList = m.mClientList ++ new := hnew.symm
      rw [hlist', List.getElem?_append_left hbound] at hlist
      exact hlist
    have ho : o' ≠ o := by
      rintro rfl
      exact hfree p hp hecho hentry
    rw [hothers o' ho] at hconn ⊢
    exact hserves hecho o' hentry socket hold hconn
  · rcases hrecvs recv hrecv with hold | ⟨hnew, rfl⟩
    · exact hregistry.leads (hs.recvs recv hold socket hsocket)
    · obtain rfl := Option.some.inj (hnew.symm.trans hsocket)
      exact hleads
  · rw [htransmissions] at ht
    exact hregistry.sent (hs.transmissions t ht)

theorem mem_pool_of_reused (h : m.reused now = some o) : o ∈ m.mClientPool := by
  rw [reused] at h
  split at h
  · cases h
  · rename_i hpool
    split_ifs at h
    rw [hpool, Option.some.inj h]
    exact List.mem_cons_self

/-- The object `o` that `takeClient` chose and the manager `t` it left: the object has nothing to
send, nothing in the dispatcher leads to it, and everything else stays. -/
structure Taken (m : NetworkManager) (o : ClientRef) (t : NetworkManager) : Prop where
  registry : t.registry = m.registry
  waiting : t.waiting = m.waiting
  recvs : t.recvs = m.recvs
  transmissions : t.transmissions = m.transmissions
  others : ∀ o', o' ≠ o → t.clients o' = m.clients o'
  queue : (t.clients o).mSendQueue = []
  sending : ∀ p, (t.clients o).sending = some p → m.registry.Known p
  free : ∀ p ∈ m.waiting, p.PacketID = echoID →
    m.mClientList[p.SessionID.toNat]? ≠ some (some o)
  created : ∀ o', o' = o ∨ some o' ∈ m.mClientList ∨ o' ∈ t.mClientPool → o' < t.created

theorem Separated.takeClient (hs : m.Separated) (now : ℕ) (hclean : ∀ o, m.reused now = some o →
    (m.clients o).mSendQueue = [] ∧ ∀ p ∈ m.waiting, p.PacketID = echoID →
      m.mClientList[p.SessionID.toNat]? ≠ some (some o)) :
    m.Taken (m.takeClient now).1 (m.takeClient now).2 := by
  rw [NetworkManager.takeClient]
  rcases hreused : m.reused now with - | o
  · have hfresh : ∀ p ∈ m.waiting, p.PacketID = echoID →
        m.mClientList[p.SessionID.toNat]? ≠ some (some m.created) := by
      intro p _ _ hentry
      exact lt_irrefl _ (hs.created m.created (Or.inl (List.mem_of_getElem? hentry)))
    refine ⟨rfl, rfl, rfl, rfl, fun o' ho => ?_, ?_, ?_, hfresh, ?_⟩
    · simp [NetworkManager.setClient, Function.update_of_ne ho]
    · simp [NetworkManager.setClient, NetworkClient.new]
    · simp [NetworkManager.setClient, NetworkClient.new]
    · rintro o' (rfl | ho | ho)
      · exact Nat.lt_succ_self _
      · exact Nat.lt_succ_of_lt (hs.created o' (Or.inl ho))
      · refine Nat.lt_succ_of_lt (hs.created o' (Or.inr ?_))
        rcases List.mem_append.mp ho with ho | ho
        · exact List.mem_of_mem_tail ho
        · exact List.mem_of_mem_head? (Option.mem_toList.mp ho)
  · obtain ⟨hqueue, hfree⟩ := hclean o hreused
    refine ⟨rfl, rfl, rfl, rfl, fun _ _ => rfl, hqueue,
      fun p hp => ((hs.clients o).sending p hp).1, hfree, ?_⟩
    rintro o' (rfl | ho | ho)
    · exact hs.created _ (Or.inr (mem_pool_of_reused hreused))
    · exact hs.created o' (Or.inl ho)
    · exact hs.created o' (Or.inr (List.mem_of_mem_tail ho))

/-- `AddClient` for a client without a session ID: where the receive is refused nothing is
registered, and otherwise the client gets the next position of the list. -/
theorem addClient_spec (m : NetworkManager) (o : ClientRef) (wsaRecv : Bool)
    (hsession : (m.clients o).mSessionID = 0) :
    ∃ context t, m.addClient o wsaRecv = (t, m.allows o wsaRecv) ∧
      (m.allows o wsaRecv = false ∧
          t = m.setClient o { m.clients o with mReceiveContext := context } ∨
        m.allows o wsaRecv = true ∧
          ∃ wsaBuf sid, sid = UInt32.ofNat m.mClientList.length ∧ t = { m with
            clients := Function.update m.clients o
              { m.clients o with mReceiveContext := context, mSessionID := sid }
            recvs := m.recvs ++ [⟨o, (m.clients o).mSocket, wsaBuf, none⟩]
            mClientList := m.mClientList ++ [some o]
            sessions := m.sessions ++
              (m.clients o).mSocket.toList.map fun socket => (socket, sid) }) := by
  rw [addClient]
  rcases hreceive : (m.clients o).receive (m.allows o wsaRecv) with ⟨client, posted⟩
  obtain ⟨context, rfl⟩ : ∃ context, client = { m.clients o with mReceiveContext := context } :=
    ⟨_, (congrArg Prod.fst hreceive).symm⟩
  have hposted : m.allows o wsaRecv = posted.isSome := by
    rw [← show _ = posted from congrArg Prod.snd hreceive, NetworkClient.receive]
    cases m.allows o wsaRecv <;> rfl
  rw [hposted]
  refine ⟨context, ?_⟩
  cases posted with
  | none => exact ⟨_, rfl, Or.inl ⟨rfl, rfl⟩⟩
  | some wsaBuf =>
    have hzero : ¬0 < (m.clients o).mSessionID.toNat := by simp [hsession]
    simp only [hzero, false_and, if_false]
    refine ⟨_, rfl, Or.inr ⟨rfl, wsaBuf, _, rfl, ?_⟩⟩
    simp only [NetworkManager.setClient, Function.update_idem]

theorem Separated.refuse (hs : m.Separated) :
    ({ m with accepted := m.accepted + 1, accepting := false }).Separated := by
  have hregistry : m.registry.Accepts
      ({ m with accepted := m.accepted + 1, accepting := false }).registry :=
    ⟨rfl, fun _ _ h => Or.inl h, List.prefix_refl _⟩
  refine ⟨fun o => hregistry.sound (hs.clients o), fun p hp => ?_,
    fun recv hrecv socket hsocket => hregistry.leads (hs.recvs recv hrecv socket hsocket),
    fun socket sid h => ?_, hs.created, fun t ht => hregistry.sent (hs.transmissions t ht)⟩
  · obtain ⟨hknown, hserves⟩ := hs.waiting p hp
    exact ⟨hregistry.known hknown, fun hecho o ho => hregistry.serves hknown (hserves hecho o ho)⟩
  · exact (hs.sessions socket sid h).imp_left Nat.lt_succ_of_lt

section Served

variable {t : NetworkManager} (context : NetworkContext)

/-- The client object of a connection just accepted on `socket`, with what `Receive` has left in its
receive context. -/
def served (c : NetworkClient) (socket : Socket) (context : NetworkContext) : NetworkClient :=
  { c.reset.init with mSocket := some socket, mReceiveContext := context }

theorem Taken.mClientList
    (ht : Taken { m with accepted := m.accepted + 1, accepting := false } o t) :
    t.mClientList = m.mClientList :=
  congrArg Registry.clientList ht.registry

theorem Taken.sessions
    (ht : Taken { m with accepted := m.accepted + 1, accepting := false } o t) :
    t.sessions = m.sessions :=
  congrArg Registry.sessions ht.registry

theorem Taken.accepted
    (ht : Taken { m with accepted := m.accepted + 1, accepting := false } o t) :
    t.accepted = m.accepted + 1 :=
  congrArg Registry.accepted ht.registry

theorem Taken.served (ht : Taken { m with accepted := m.accepted + 1, accepting := false } o t)
    {r : Registry} (hr : r.accepted = m.accepted + 1) (sid : UInt32) :
    Accepted r m.accepted { served (t.clients o) m.accepted context with mSessionID := sid } := by
  refine ⟨NetworkContext.Ordered.resetBuffer, rfl, ht.queue, fun p hp socket hsocket => ?_, rfl,
    rfl⟩
  rw [hr]
  exact ht.sending p hp socket hsocket

theorem Separated.fresh (hs : m.Separated) (sid : UInt32) : (m.accepted, sid) ∉ m.sessions :=
  fun h => lt_irrefl _ (hs.sessions m.accepted sid h).1

/-- An object that serves the new connection and is not registered. -/
theorem Separated.unregistered (hs : m.Separated)
    (ht : Taken { m with accepted := m.accepted + 1, accepting := false } o t) :
    (t.setClient o (served (t.clients o) m.accepted context)).Separated := by
  refine hs.accept (o := o) ⟨ht.accepted, ?_, ?_⟩ ?_ ?_ ht.free ?_ ht.waiting ?_ ?_ ?_
    ht.transmissions
  · intro socket sid h
    exact Or.inl (show (socket, sid) ∈ m.sessions from ht.sessions ▸ h)
  · exact ⟨[], (List.append_nil _).trans ht.mClientList.symm⟩
  · simp only [NetworkManager.setClient, Function.update_self]
    exact ht.served context ht.accepted 0
  · intro o' ho
    simp only [NetworkManager.setClient, Function.update_of_ne ho]
    exact ht.others o' ho
  · refine ⟨ht.accepted.ge, fun sid h => absurd ?_ (hs.fresh sid)⟩
    rw [← ht.sessions]
    exact h
  · intro recv hrecv
    exact Or.inl (ht.recvs ▸ hrecv)
  · intro socket sid h
    simp only [NetworkManager.setClient, ht.sessions, ht.accepted, ht.mClientList] at h ⊢
    exact (hs.sessions socket sid h).imp_left Nat.lt_succ_of_lt
  · rintro o' (ho | ho)
    · exact ht.created o' (Or.inr (Or.inl (ht.mClientList ▸ ho)))
    · exact ht.created o' (Or.inr (Or.inr ho))

/-- An object that serves the new connection under the next session ID. -/
theorem Separated.registered (hs : m.Separated)
    (ht : Taken { m with accepted := m.accepted + 1, accepting := false } o t)
    {sid : UInt32} (hsid : sid.toNat = m.mClientList.length) (wsaBuf : WsaBuf) :
    Separated { t with
      clients := Function.update t.clients o
        { served (t.clients o) m.accepted context with mSessionID := sid }
      recvs := t.recvs ++ [⟨o, some m.accepted, wsaBuf, none⟩]
      mClientList := t.mClientList ++ [some o]
      sessions := t.sessions ++ [(m.accepted, sid)] } := by
  have hsessions : ∀ socket sid', (socket, sid') ∈ t.sessions ++ [(m.accepted, sid)] →
      (socket, sid') ∈ m.sessions ∨ socket = m.accepted ∧ sid' = sid := by
    intro socket sid' h
    rcases List.mem_append.mp h with h | h
    · exact Or.inl (show (socket, sid') ∈ m.sessions from ht.sessions ▸ h)
    · exact Or.inr (Prod.mk.inj (List.mem_singleton.mp h))
  refine hs.accept (o := o) ⟨ht.accepted, ?_, ?_⟩ ?_ ?_ ht.free ?_ ht.waiting ?_ ?_ ?_
    ht.transmissions
  · intro socket sid' h
    exact (hsessions socket sid' h).imp_right And.left
  · exact ⟨[some o], congrArg (· ++ [some o]) ht.mClientList.symm⟩
  · simp only [Function.update_self]
    exact ht.served context ht.accepted sid
  · intro o' ho
    simp only [Function.update_of_ne ho]
    exact ht.others o' ho
  · refine ⟨ht.accepted.ge, fun sid' h => ?_⟩
    rcases hsessions m.accepted sid' h with hold | ⟨-, rfl⟩
    · exact absurd hold (hs.fresh sid')
    · show (t.mClientList ++ [some o])[sid'.toNat]? = some (some o)
      rw [hsid, ht.mClientList, List.getElem?_append_right (le_refl _), Nat.sub_self]
      rfl
  · intro recv hrecv
    rcases List.mem_append.mp hrecv with hrecv | hrecv
    · exact Or.inl (show recv ∈ m.recvs from ht.recvs ▸ hrecv)
    · obtain rfl := List.mem_singleton.mp hrecv
      exact Or.inr ⟨rfl, rfl⟩
  · intro socket sid' h
    show socket < t.accepted ∧ sid'.toNat < (t.mClientList ++ [some o]).length
    rw [ht.accepted, ht.mClientList, List.length_append, List.length_singleton]
    rcases hsessions socket sid' h with hold | ⟨rfl, rfl⟩
    · exact (hs.sessions socket sid' hold).imp Nat.lt_succ_of_lt Nat.lt_succ_of_lt
    · rw [hsid]
      exact ⟨Nat.lt_succ_self _, Nat.lt_succ_self _⟩
  · rintro o' (ho | ho)
    · rcases List.mem_append.mp ho with ho | ho
      · exact ht.created o' (Or.inr (Or.inl (show some o' ∈ m.mClientList from
          ht.mClientList ▸ ho)))
      · obtain rfl : o' = o := by simpa using ho
        exact ht.created o' (Or.inl rfl)
    · exact ht.created o' (Or.inr (Or.inr ho))

end Served

theorem Separated.handleAccept {accepted wsaRecv posted : Bool} (hs : m.Separated)
    (hclean : accepted = true → m.mClientList.length < 2 ^ 32 ∧
      ∀ o, m.reused now = some o → (m.clients o).mSendQueue = [] ∧
        ∀ p ∈ m.waiting, p.PacketID = echoID →
          m.mClientList[p.SessionID.toNat]? ≠ some (some o)) :
    (m.handleAccept now accepted wsaRecv posted).Separated := by
  rw [NetworkManager.handleAccept]
  rcases accepted with - | -
  · exact hs.refuse
  obtain ⟨hlength, hreused⟩ := hclean rfl
  have ht := hs.refuse.takeClient now hreused
  rcases htake : NetworkManager.takeClient { m with accepted := m.accepted + 1, accepting := false }
    now with ⟨o, t⟩
  rw [htake] at ht
  have hclient : (t.setClient o { (t.clients o).reset.init with
      mSocket := some m.accepted }).clients o =
        { (t.clients o).reset.init with mSocket := some m.accepted } := by
    simp [NetworkManager.setClient]
  obtain ⟨context, u, hadd, hcase⟩ := addClient_spec
    (t.setClient o { (t.clients o).reset.init with mSocket := some m.accepted }) o wsaRecv
    (by rw [hclient]; rfl)
  rw [hclient] at hcase
  simp only [NetworkManager.setClient, Function.update_idem] at hcase
  have hu : u.Separated := by
    rcases hcase with ⟨-, rfl⟩ | ⟨-, wsaBuf, sid, hsid, rfl⟩
    · exact hs.unregistered context ht
    · refine hs.registered context ht ?_ wsaBuf
      rw [hsid, ht.mClientList, UInt32.toNat_ofNat_of_lt' hlength]
  simp only [Bool.true_eq_false, if_false, hadd]
  split_ifs
  · exact hu.frame rfl rfl rfl rfl (fun _ hp => Or.inl hp) hu.recvs fun _ ho => Or.inl ho
  · exact hu

/-! ### Every step -/

variable {e : NetworkEvent} {es : List NetworkEvent}

theorem Separated.dropRecv (hs : m.Separated) (i : ℕ) :
    ({ m with recvs := m.recvs.eraseIdx i }).Separated :=
  hs.frame rfl rfl rfl rfl (fun _ hp => Or.inl hp)
    (fun recv hrecv => hs.recvs recv (List.mem_of_mem_eraseIdx hrecv)) fun _ ho => Or.inl ho

theorem Separated.dropSend (hs : m.Separated) (i : ℕ) :
    ({ m with sends := m.sends.eraseIdx i }).Separated :=
  hs.frame rfl rfl rfl rfl (fun _ hp => Or.inl hp) hs.recvs fun _ ho => Or.inl ho

theorem Separated.dispatch {d : NetworkDispatcher Packet} (hs : m.Separated)
    (hd : ∀ p ∈ d.mPacketQueue ++ d.mWorkQueue, p ∈ m.waiting) :
    ({ m with dispatcher := d }).Separated :=
  hs.frame rfl rfl rfl rfl (fun p hp => Or.inl (hd p hp)) hs.recvs fun _ ho => Or.inl ho

theorem mem_waiting_of_swap {d : NetworkDispatcher Packet} {p : Packet}
    (h : p ∈ d.swapQueues.mPacketQueue ++ d.swapQueues.mWorkQueue) :
    p ∈ d.mPacketQueue ++ d.mWorkQueue := by
  unfold NetworkDispatcher.swapQueues at h
  split_ifs at h
  · exact h
  · rcases List.mem_append.mp h with h | h
    · exact List.mem_append_right _ h
    · exact List.mem_append_left _ h

theorem mem_waiting_of_process {d : NetworkDispatcher Packet} {i : ℕ} {p : Packet} :
    (p ∈ (d.processNext i).1.mPacketQueue ++ (d.processNext i).1.mWorkQueue →
      p ∈ d.mPacketQueue ++ d.mWorkQueue) ∧
    ((d.processNext i).2 = some p → p ∈ d.mPacketQueue ++ d.mWorkQueue) := by
  unfold NetworkDispatcher.processNext
  split_ifs
  · refine ⟨fun h => ?_, fun h => List.mem_append_right _ (List.mem_of_mem_head? h)⟩
    rcases List.mem_append.mp h with h | h
    · exact List.mem_append_left _ h
    · exact List.mem_append_right _ (List.mem_of_mem_tail h)
  · exact ⟨fun h => h, fun h => by cases h⟩

theorem separated_step (hs : m.Separated) (hclean : m.Clean e) (h : networkStep m e = some m') :
    m'.Separated := by
  cases steps_of_networkStep h with
  | accept now accepted wsaRecv posted => exact hs.handleAccept hclean
  | acceptFailed now =>
    have hidle : ({ m with accepting := false }).Separated :=
      hs.frame rfl rfl rfl rfl (fun _ hp => Or.inl hp) hs.recvs fun _ ho => Or.inl ho
    exact hidle.removeClient 0 now
  | @arrive i recv bytes hget =>
    have hrecv := hs.recvs recv (List.mem_of_getElem? hget)
    have hset := hs.setClient (o := recv.client)
      (c := (m.clients recv.client).deliver recv.wsaBuf bytes)
      ((hs.clients recv.client).congr rfl rfl rfl rfl rfl) fun hconn => ⟨hconn, rfl⟩
    refine hset.frame rfl rfl rfl rfl (fun _ hp => Or.inl hp) (fun recv' hrecv' => ?_)
      fun _ ho => Or.inl ho
    rcases List.mem_or_eq_of_mem_set hrecv' with hold | rfl
    · exact hs.recvs recv' hold
    · exact hrecv
  | @received i n recv wsaRecv hget =>
    exact (hs.dropRecv i).handleReceived (hs.recvs recv (List.mem_of_getElem? hget))
      (hclean recv hget)
  | @receiveFailed i recv now => exact (hs.dropRecv i).removeClient _ now
  | @sent i n send =>
    exact (hs.dropSend i).called ((hs.clients send.client).handleSend n socket_of_allows)
  | @sendFailed i send now => exact (hs.dropSend i).removeClient _ now
  | swap => exact hs.dispatch fun p hp => mem_waiting_of_swap hp
  | finished => exact hs.dispatch fun p hp => mem_waiting_of_process.1 hp
  | @process i p wsaSend _ hpacket =>
    obtain ⟨hknown, hserves⟩ := hs.waiting p (mem_waiting_of_process.2 hpacket)
    exact (hs.dispatch fun p hp => mem_waiting_of_process.1 hp).processed hknown hserves wsaSend

theorem separated_start (pool : MemoryPool Packet) :
    ({ mPacketPool := pool } : NetworkManager).Separated := by
  have hempty : NetworkClient.new.mSendContext.unread = [] := rfl
  refine ⟨fun o => ⟨⟨le_refl _, Nat.zero_le _⟩, ?_, ?_, fun hne => absurd hempty hne, fun _ => rfl,
    ?_⟩, ?_, ?_, ?_, ?_, ?_⟩
  all_goals simp [NetworkClient.new, NetworkManager.waiting]

end NetworkManager

/-- On every run whose steps are clean, responses are sent on the connection of their request. -/
theorem isolated_of_clean (pool : MemoryPool Packet) (es : List NetworkEvent)
    (hclean : Meets networkStep NetworkManager.Clean { mPacketPool := pool } es) :
    Throughout networkStep NetworkManager.Isolated { mPacketPool := pool } es := by
  have hall : Throughout networkStep NetworkManager.Separated { mPacketPool := pool } es :=
    throughout_of_meets (fun _ _ _ hs hC hst => NetworkManager.separated_step hs hC hst)
      (NetworkManager.separated_start pool) hclean
  exact hall.mono fun _ hs => hs.isolated

/-- An echo request with a body of one byte. -/
def echoRequest : List UInt8 := [1, 0, 0, 0, 1, 0, 0, 0, 0, 0, 0, 0, 65]

/-- Two connections, one after the other, on the same object, and a response on each. -/
theorem isolated_reused_object :
    ∃ m, run networkStep { mPacketPool := ⟨[]⟩ } [.accept 10 true true true, .arrive 0 echoRequest,
        .received 0 true, .swap, .process true, .process true, .sent 0 13 true,
        .receiveFailed 0 20, .accept 21 true true true, .arrive 0 echoRequest, .received 0 true,
        .swap, .process true] = some m ∧
      m.mClientList = [some 0, some 0] ∧
      m.transmissions.map Transmission.socket = [some 0, some 1] ∧
      Throughout networkStep NetworkManager.Isolated { mPacketPool := ⟨[]⟩ }
        [.accept 10 true true true, .arrive 0 echoRequest, .received 0 true, .swap, .process true,
          .process true, .sent 0 13 true, .receiveFailed 0 20, .accept 21 true true true,
          .arrive 0 echoRequest, .received 0 true, .swap, .process true] := by
  refine ⟨_, rfl, rfl, rfl, isolated_of_clean ⟨[]⟩ _ (meets_of_take fun n e he t ht => ?_)⟩
  -- A receive is handled on an object that still has the socket of the receive.
  have hkept (socket : Socket) (i : ℕ) (wsaRecv : Bool) (hsockets : t.recvs.map (fun recv =>
      (recv.socket, (t.clients recv.client).mSocket)) = [(some socket, some socket)]) :
      t.Clean (.received i wsaRecv) := by
    intro recv hrecv socket' hsocket _ _
    have hmem := List.mem_map_of_mem (f := fun recv =>
      (recv.socket, (t.clients recv.client).mSocket)) (List.mem_of_getElem? hrecv)
    rw [hsockets, List.mem_singleton] at hmem
    obtain ⟨hposted, hhas⟩ := Prod.mk.inj hmem
    exact hhas.trans (hposted.symm.trans hsocket)
  rcases n with _ | _ | _ | _ | _ | _ | _ | _ | _ | _ | _ | _ | _ | n <;> cases he <;> try trivial
  · obtain rfl := Option.some.inj ht
    exact fun _ => ⟨by decide, nofun⟩
  · exact hkept 0 0 true (eq_of_run (fun m => m.recvs.map fun recv =>
      (recv.socket, (m.clients recv.client).mSocket)) ht rfl)
  · have hlist : t.mClientList = [some 0] := eq_of_run (fun m => m.mClientList) ht rfl
    have hreused : t.reused 21 = some 0 := eq_of_run (fun m => m.reused 21) ht rfl
    have hqueue : (t.clients 0).mSendQueue = [] :=
      eq_of_run (fun m => (m.clients 0).mSendQueue) ht rfl
    have hwaiting : t.waiting = [] := eq_of_run (fun m => m.waiting) ht rfl
    refine fun _ => ⟨by rw [hlist]; decide, fun o ho => ?_⟩
    obtain rfl := Option.some.inj (hreused.symm.trans ho)
    rw [hwaiting]
    exact ⟨hqueue, fun p hp => absurd hp List.not_mem_nil⟩
  · exact hkept 1 0 true (eq_of_run (fun m => m.recvs.map fun recv =>
      (recv.socket, (m.clients recv.client).mSocket)) ht rfl)

/-- A request that waits while its connection is closed and the client object is reused: the
response is sent on the socket of the later connection. -/
theorem response_on_later_connection :
    ∃ m, run networkStep { mPacketPool := ⟨[]⟩ } [.accept 10 true true true, .arrive 0 echoRequest,
        .received 0 true, .receiveFailed 0 20, .accept 21 true true true, .swap, .process true] =
        some m ∧
      m.sessions = [(0, 0), (1, 1)] ∧ m.transmissions.map Transmission.socket = [some 1] ∧
      ¬m.Isolated := by
  refine ⟨_, rfl, rfl, rfl, fun hP => ?_⟩
  have hhome := hP.home _ (List.mem_singleton.mpr rfl) _ rfl 0 ⟨rfl, List.mem_cons_self⟩
  cases hhome

end IocpStudy.StudyServer
