import IocpStudy.Iocpsolution.EchoServer
import IocpStudy.Iocpsolution.Silence

/-! The echo server over the connections of its clients.  What the server keeps of a client it keeps
under the client's index: a chunk in the packet queue, a message in `mSendQueue` and a completion
that waits for a worker thread outlive the connection that they came from, and are sent on the one
that the index serves then. -/

namespace IocpStudy.Iocpsolution

open Runs OneSend

/-- A byte, with the socket that it was received on. -/
structure RecvByte where
  socket : Socket
  byte : UInt8
deriving Repr, DecidableEq

/-- A `PacketData`, whose bytes come from somewhere. -/
structure TracedPacket where
  SessionIndex : ℕ
  bytes : List RecvByte
deriving Repr, DecidableEq

/-- A `WSARecv` that was accepted and has not been dequeued, with the socket it was called on, and
the number of bytes where some have arrived. -/
structure Receive where
  socket : Option Socket
  arrived : Option ℕ := none
deriving Repr, DecidableEq

/-- A message that was given to `WSASend`, and the socket that it was called on. -/
structure Echo where
  chunk : List RecvByte
  socket : Option Socket
deriving Repr, DecidableEq

/-- The traffic of a client.  `mRecvBuf` is what has been written of the buffer, `waiting` the
messages in `mSendQueue` that have not been given to `WSASend`, and `echoes` those that have. -/
structure Traffic where
  receives : List Receive := []
  mRecvBuf : List RecvByte := []
  waiting : List (List RecvByte) := []
  echoes : List Echo := []

/-- `received` records the chunks that `OnReceive` was given. -/
structure EchoConnections where
  server : IOCPServer := {}
  mPacketDataQueue : List TracedPacket := []
  packetData : Option TracedPacket := none
  received : List TracedPacket := []
  traffic : ℕ → Traffic := fun _ => {}

/-- Bytes arrive for the outstanding receive number `k` of a client; and a completion is dequeued,
for a receive or a send number `k` of its client. -/
inductive ConnectionEvent
  | postAccept (clientIndex curTimeSec : ℕ) (wsaSocket acceptEx : Bool)
  | arrives (clientIndex k : ℕ) (bytes : List UInt8)
  | completion (completion : Completion) (k : ℕ) (outcomes : Outcomes)
  | dequePacketData
  | sendMsg (wsaSend : Bool)
deriving Repr, DecidableEq

namespace Traffic

/-- The bytes are written to the buffer, for a receive on the socket. -/
def arrive (l : Traffic) (k : ℕ) (socket : Socket) (bytes : List UInt8) : Traffic :=
  { l with
    receives := l.receives.set k ⟨some socket, some bytes.length⟩
    mRecvBuf := bytes.map (RecvByte.mk socket) ++ l.mRecvBuf.drop bytes.length }

/-- The calls of `WSARecv` and of `WSASend` that the server has made on the socket. -/
def call (l : Traffic) (socket : Option Socket) (wsaRecvs wsaSends : ℕ) : Traffic :=
  { l with
    receives := l.receives ++ List.replicate wsaRecvs ⟨socket, none⟩
    waiting := l.waiting.drop wsaSends
    echoes := l.echoes ++ (l.waiting.take wsaSends).map (Echo.mk · socket) }

end Traffic

namespace EchoConnections

def setTraffic (s : EchoConnections) (i : ℕ) (l : Traffic) : EchoConnections :=
  { s with traffic := Function.update s.traffic i l }

/-- The bytes that `OnReceive` finds in the client's buffer. -/
def packet (s : EchoConnections) (call : ReceiveCall) : TracedPacket :=
  ⟨call.clientIndex, (s.traffic call.clientIndex).mRecvBuf.take call.size⟩

/-- The server takes a step that is about the client `i`: `OnReceive` copies what it is given to the
packet queue, and the calls are made on the client's socket. -/
def serve (s : EchoConnections) (i : ℕ) (server : IOCPServer) : EchoConnections :=
  let client := s.server.mClientInfos i
  let client' := server.mClientInfos i
  let l := s.traffic i
  let packets := (server.onReceives.drop s.server.onReceives.length).map s.packet
  { s.setTraffic i (l.call client.mSocket (client'.recvs - l.receives.length)
      (client'.sends.calls.length - client.sends.calls.length)) with
    server
    mPacketDataQueue := s.mPacketDataQueue ++ packets
    received := s.received ++ packets }

def dequePacketData (s : EchoConnections) : Option EchoConnections :=
  match s.packetData, s.mPacketDataQueue with
  | some _, _ => none
  | none, [] => some s
  | none, packetData :: rest =>
    some { s with
      mPacketDataQueue := rest
      packetData := if packetData.bytes.length ≠ 0 then some packetData else none }

end EchoConnections

/-- A receive that has received something completes with its bytes, and any other one fails or
completes without bytes. -/
def Completion.of (c : Completion) (receive : Receive) : Bool :=
  receive.arrived = if c.bSuccess && c.dwIoSize != 0 then some c.dwIoSize else none

def connectionStep (s : EchoConnections) : ConnectionEvent → Option EchoConnections
  | .postAccept i curTimeSec wsaSocket acceptEx =>
    (serverStep s.server (.postAccept i curTimeSec wsaSocket acceptEx)).map (s.serve i)
  | .arrives i k bytes =>
    -- A socket that is closed has nothing more to receive.
    match (s.traffic i).receives[k]?, (s.server.mClientInfos i).mSocket with
    | some ⟨some receiving, none⟩, some socket =>
      if receiving = socket ∧ bytes ≠ [] ∧ bytes.length ≤ maxSockRecvbuf then
        some (s.setTraffic i ((s.traffic i).arrive k socket bytes))
      else none
    | _, _ => none
  | .completion c k outcomes =>
    let i := c.mSessionIndex
    if c.m_eOperation = .RECV then
      (s.traffic i).receives[k]?.bind fun receive =>
        if c.of receive then
          (serverStep s.server (.completion c k outcomes)).map
            ((s.setTraffic i { s.traffic i with
              receives := (s.traffic i).receives.eraseIdx k }).serve i)
        else none
    else (serverStep s.server (.completion c k outcomes)).map (s.serve i)
  | .dequePacketData => s.dequePacketData
  | .sendMsg wsaSend =>
    s.packetData.bind fun packetData =>
      let i := packetData.SessionIndex
      let bytes := packetData.bytes.map RecvByte.byte
      (serverStep s.server (.sendMsg i bytes wsaSend)).map
        (({ s with packetData := none }.setTraffic i { s.traffic i with
          waiting := (s.traffic i).waiting ++ [packetData.bytes] }).serve i)

def EchoConnections.echoes (s : EchoConnections) (i : ℕ) : List Echo := (s.traffic i).echoes

/-- The byte is in a message that waits in the send queue, or in the buffer for a receive that has
not been handled. -/
def Traffic.Holds (l : Traffic) (b : RecvByte) : Prop :=
  (∃ chunk ∈ l.waiting, b ∈ chunk) ∨
    ∃ receive ∈ l.receives, ∃ n ∈ receive.arrived, b ∈ l.mRecvBuf.take n

/-- The packet is one of the client `i`, and has the byte. -/
def TracedPacket.Has (packetData : TracedPacket) (i : ℕ) (b : RecvByte) : Prop :=
  packetData.SessionIndex = i ∧ b ∈ packetData.bytes

/-- The byte may still be sent to the client `i`. -/
def EchoConnections.Holds (s : EchoConnections) (i : ℕ) (b : RecvByte) : Prop :=
  (s.traffic i).Holds b ∨ (∃ packetData ∈ s.packetData, packetData.Has i b) ∨
    ∃ packetData ∈ s.mPacketDataQueue, packetData.Has i b

/-! ### A step of the server -/

section Server

variable {s t : IOCPServer} {e : ServerEvent} {i : ℕ}

/-- The client that a step is about. -/
def ServerEvent.client : ServerEvent → ℕ
  | .postAccept clientIndex _ _ _ => clientIndex
  | .sendMsg clientIndex _ _ => clientIndex
  | .completion c _ _ => c.mSessionIndex

/-- A step changes one client, and gives it no socket that is not a new one. -/
inductive Touches (s : IOCPServer) (e : ServerEvent) (t : IOCPServer) : Prop
  | posted (i curTimeSec : ℕ) (wsaSocket acceptEx : Bool)
      (he : e = .postAccept i curTimeSec wsaSocket acceptEx)
      (hskips : s.skips i curTimeSec = false) (hsockets : t.sockets = s.sockets + 1)
      (hclients : t.mClientInfos = Function.update s.mClientInfos i
        ((s.mClientInfos i).postAccept (if wsaSocket then some s.sockets else none) acceptEx))
  | kept (c' : NetworkClient)
      (hsocket : c'.mSocket = (s.mClientInfos e.client).mSocket ∨ c'.mSocket = none)
      (hsockets : t.sockets = s.sockets)
      (hclients : t.mClientInfos = Function.update s.mClientInfos e.client c')

theorem touches_of_step (h : serverStep s e = some t) : Touches s e t := by
  cases e with
  | postAccept i curTimeSec wsaSocket acceptEx =>
    simp only [serverStep] at h
    cases hskips : s.skips i curTimeSec with
    | true =>
      rw [if_pos hskips] at h
      obtain rfl := Option.some.inj h
      exact .kept (s.mClientInfos i) (Or.inl rfl) rfl (Function.update_eq_self _ _).symm
    | false =>
      rw [hskips, if_neg Bool.false_ne_true] at h
      obtain rfl := Option.some.inj h
      exact .posted i curTimeSec wsaSocket acceptEx rfl hskips rfl rfl
  | sendMsg i pMsg wsaSend =>
    simp only [serverStep] at h
    obtain rfl := Option.some.inj h
    exact .kept ((s.mClientInfos i).sendMsg pMsg wsaSend) (Or.inl rfl) rfl rfl
  | completion c k outcomes =>
    obtain ⟨client, hdequeued, hhandled⟩ := handled_of_completion h
    obtain ⟨hsocket, -⟩ := dequeued_cases hdequeued
    cases hhandled with
    | closed hoperation hfails => exact .kept (client.close outcomes.now) (Or.inr rfl) rfl rfl
    | accepted hoperation hsuccess =>
      obtain ⟨c', hclients, hkept, -, -, -, hsockets⟩ := acceptCase_client
        (s.setClient c.mSessionIndex client) c.mSessionIndex 0 outcomes.connectRecv
        outcomes.wsaRecv outcomes.now
      simp only [IOCPServer.setClient, Function.update_idem, Function.update_self] at hclients hkept
      rw [hsocket] at hkept
      exact .kept c' hkept hsockets hclients
    | received hoperation hsuccess hsize =>
      exact .kept (client.bindRecv outcomes.wsaRecv).1 (Or.inl hsocket) rfl rfl
    | @sent r hoperation hsuccess hsize =>
      exact .kept { client with sends := client.sends.left r (client.allows outcomes.wsaSend) }
        (Or.inl hsocket) rfl rfl

theorem client_of_ne (h : serverStep s e = some t) (hi : i ≠ e.client) :
    t.mClientInfos i = s.mClientInfos i := by
  cases touches_of_step h with
  | posted j curTimeSec wsaSocket acceptEx he hskips hsockets hclients =>
    subst he
    rw [hclients]
    exact Function.update_of_ne hi _ _
  | kept c' hsocket hsockets hclients => rw [hclients, Function.update_of_ne hi]

/-- `OnReceive` is given bytes only for a receive that completes with them. -/
theorem onReceives_of_step (h : serverStep s e = some t) :
    ∃ calls, t.onReceives = s.onReceives ++ calls ∧
      ∀ call ∈ calls, call.size = 0 ∨ ∃ outcomes, e.recv = some (call, outcomes) := by
  cases serves_of_step h with
  | quiet i c' haccept hrecv hclients hclient hreceived honReceives =>
    exact ⟨[], by rw [honReceives, List.append_nil], nofun⟩
  | accepted i outcomes c' haccept hrecv hclients hclient hreceived honReceives =>
    refine ⟨_, honReceives, fun call hcall => Or.inl ?_⟩
    rw [List.mem_singleton.mp hcall]
  | received call outcomes c' haccept hrecv hsize hclients hclient hreceived honReceives =>
    refine ⟨_, honReceives, fun call' hcall => Or.inr ⟨outcomes, ?_⟩⟩
    rw [List.mem_singleton.mp hcall, hrecv]

end Server

/-! ### Where the bytes go -/

variable {s t : EchoConnections} {e : ConnectionEvent} {es : List ConnectionEvent} {i : ℕ}
  {b : RecvByte}

@[simp] theorem setTraffic_self (s : EchoConnections) (i : ℕ) (l : Traffic) :
    (s.setTraffic i l).traffic i = l := Function.update_self ..

theorem setTraffic_of_ne {j : ℕ} (hi : i ≠ j) (s : EchoConnections) (l : Traffic) :
    (s.setTraffic j l).traffic i = s.traffic i := Function.update_of_ne hi ..

@[simp] theorem serve_traffic (s : EchoConnections) (i : ℕ) (server : IOCPServer) :
    (s.serve i server).traffic i = (s.traffic i).call (s.server.mClientInfos i).mSocket
      ((server.mClientInfos i).recvs - (s.traffic i).receives.length)
      ((server.mClientInfos i).sends.calls.length -
        (s.server.mClientInfos i).sends.calls.length) := Function.update_self ..

theorem serve_traffic_of_ne {j : ℕ} (hi : i ≠ j) (s : EchoConnections) (server : IOCPServer) :
    (s.serve j server).traffic i = s.traffic i := Function.update_of_ne hi ..

theorem Traffic.Holds.of_call {l : Traffic} {socket : Option Socket} {wsaRecvs wsaSends : ℕ}
    (h : (l.call socket wsaRecvs wsaSends).Holds b) : l.Holds b := by
  rcases h with ⟨chunk, hchunk, hb⟩ | ⟨receive, hreceive, n, hn, hb⟩
  · exact Or.inl ⟨chunk, List.mem_of_mem_drop hchunk, hb⟩
  · rcases List.mem_append.mp hreceive with hold | hnew
    · exact Or.inr ⟨receive, hold, n, hn, hb⟩
    · rw [(List.mem_replicate.mp hnew).2] at hn
      cases hn

/-- What arrives is in the buffer, and what was there for another receive is no longer all there. -/
theorem Traffic.Holds.of_arrive {l : Traffic} {k : ℕ} {socket : Socket} {bytes : List UInt8}
    (h : (l.arrive k socket bytes).Holds b) : l.Holds b ∨ b.socket = socket := by
  have hbuf {n : ℕ} (hb : b ∈ (bytes.map (RecvByte.mk socket) ++
      l.mRecvBuf.drop bytes.length).take n) : b ∈ l.mRecvBuf.take n ∨ b.socket = socket := by
    rw [List.take_append, List.mem_append] at hb
    rcases hb with hnew | hold
    · obtain ⟨byte, -, rfl⟩ := List.mem_map.mp (List.mem_of_mem_take hnew)
      exact Or.inr rfl
    · rw [List.length_map, ← List.drop_take] at hold
      exact Or.inl (List.mem_of_mem_drop hold)
  rcases h with ⟨chunk, hchunk, hb⟩ | ⟨receive, hreceive, n, hn, hb⟩
  · exact Or.inl (Or.inl ⟨chunk, hchunk, hb⟩)
  · rcases List.mem_or_eq_of_mem_set hreceive with hold | rfl
    · exact (hbuf hb).imp_left fun hb => Or.inr ⟨receive, hold, n, hn, hb⟩
    · obtain rfl := Option.some.inj hn
      refine Or.inr ?_
      rw [Traffic.arrive, List.take_left' (List.length_map _)] at hb
      obtain ⟨byte, -, rfl⟩ := List.mem_map.mp hb
      rfl

/-- A step of the server is prepared: the receive that completes is no longer outstanding, and the
packet of the process thread is a message of its client. -/
inductive Prepared (s : EchoConnections) :
    ConnectionEvent → ServerEvent → EchoConnections → Prop
  | postAccept (i curTimeSec : ℕ) (wsaSocket acceptEx : Bool) :
      Prepared s (.postAccept i curTimeSec wsaSocket acceptEx)
        (.postAccept i curTimeSec wsaSocket acceptEx) s
  | received (c : Completion) (k : ℕ) (outcomes : Outcomes) (receive : Receive)
      (hrecv : c.m_eOperation = .RECV)
      (hreceive : (s.traffic c.mSessionIndex).receives[k]? = some receive)
      (hof : c.of receive = true) :
      Prepared s (.completion c k outcomes) (.completion c k outcomes)
        (s.setTraffic c.mSessionIndex { s.traffic c.mSessionIndex with
          receives := (s.traffic c.mSessionIndex).receives.eraseIdx k })
  | completed (c : Completion) (k : ℕ) (outcomes : Outcomes) (hrecv : c.m_eOperation ≠ .RECV) :
      Prepared s (.completion c k outcomes) (.completion c k outcomes) s
  | sendMsg (packetData : TracedPacket) (wsaSend : Bool) (hhand : s.packetData = some packetData) :
      Prepared s (.sendMsg wsaSend)
        (.sendMsg packetData.SessionIndex (packetData.bytes.map RecvByte.byte) wsaSend)
        ({ s with packetData := none }.setTraffic packetData.SessionIndex
          { s.traffic packetData.SessionIndex with
            waiting := (s.traffic packetData.SessionIndex).waiting ++ [packetData.bytes] })

theorem connectionStep_cases (h : connectionStep s e = some t) :
    (∃ e' s' server, Prepared s e e' s' ∧ serverStep s.server e' = some server ∧
      t = s'.serve e'.client server) ∨
    (∃ i k bytes socket, e = .arrives i k bytes ∧
      (s.traffic i).receives[k]? = some ⟨some socket, none⟩ ∧
      (s.server.mClientInfos i).mSocket = some socket ∧ bytes ≠ [] ∧
      bytes.length ≤ maxSockRecvbuf ∧
      t = s.setTraffic i ((s.traffic i).arrive k socket bytes)) ∨
    (e = .dequePacketData ∧ s.dequePacketData = some t) := by
  cases e with
  | postAccept i curTimeSec wsaSocket acceptEx =>
    obtain ⟨server, hserver, rfl⟩ := Option.map_eq_some_iff.mp h
    exact .inl ⟨_, _, server, .postAccept i curTimeSec wsaSocket acceptEx, hserver, rfl⟩
  | arrives i k bytes =>
    simp only [connectionStep] at h
    split at h
    · next receiving socket hreceive hsocket =>
      split_ifs at h with hbytes
      obtain ⟨rfl, hne, hlength⟩ := hbytes
      exact .inr (.inl ⟨i, k, bytes, receiving, rfl, hreceive, hsocket, hne, hlength,
        (Option.some.inj h).symm⟩)
    · cases h
  | completion c k outcomes =>
    simp only [connectionStep] at h
    split_ifs at h with hrecv
    · obtain ⟨receive, hreceive, h⟩ := Option.bind_eq_some_iff.mp h
      split_ifs at h with hof
      obtain ⟨server, hserver, rfl⟩ := Option.map_eq_some_iff.mp h
      exact .inl ⟨_, _, server, .received c k outcomes receive hrecv hreceive hof, hserver, rfl⟩
    · obtain ⟨server, hserver, rfl⟩ := Option.map_eq_some_iff.mp h
      exact .inl ⟨_, _, server, .completed c k outcomes hrecv, hserver, rfl⟩
  | dequePacketData => exact .inr (.inr ⟨rfl, h⟩)
  | sendMsg wsaSend =>
    obtain ⟨packetData, hhand, h⟩ := Option.bind_eq_some_iff.mp h
    obtain ⟨server, hserver, rfl⟩ := Option.map_eq_some_iff.mp h
    exact .inl ⟨_, _, server, .sendMsg packetData wsaSend hhand, hserver, rfl⟩

theorem setTraffic_holds {j : ℕ} {l : Traffic} (h : (s.setTraffic j l).Holds i b)
    (hl : l.Holds b → (s.traffic j).Holds b) : s.Holds i b := by
  refine h.imp_left fun htraffic => ?_
  by_cases hi : i = j
  · subst hi
    rw [setTraffic_self] at htraffic
    exact hl htraffic
  · rwa [setTraffic_of_ne hi] at htraffic

theorem Prepared.holds {e' : ServerEvent} {s' : EchoConnections} (h : Prepared s e e' s')
    (hb : s'.Holds i b) : s.Holds i b := by
  cases h with
  | postAccept j curTimeSec wsaSocket acceptEx => exact hb
  | received c k outcomes receive hrecv hreceive hof =>
    refine setTraffic_holds hb fun hl => hl.imp_right ?_
    rintro ⟨receive', hreceive', hn⟩
    exact ⟨receive', List.mem_of_mem_eraseIdx hreceive', hn⟩
  | completed c k outcomes hrecv => exact hb
  | sendMsg packetData wsaSend hhand =>
    rcases hb with hl | ⟨packetData', hnone, -⟩ | hqueue
    · by_cases hi : i = packetData.SessionIndex
      · subst hi
        rw [setTraffic_self] at hl
        rcases hl with ⟨chunk, hchunk, hb⟩ | hbuf
        · rcases List.mem_append.mp hchunk with hold | hnew
          · exact Or.inl (Or.inl ⟨chunk, hold, hb⟩)
          · rw [List.mem_singleton.mp hnew] at hb
            exact Or.inr (Or.inl ⟨packetData, hhand, rfl, hb⟩)
        · exact Or.inl (Or.inr hbuf)
      · rw [setTraffic_of_ne hi] at hl
        exact Or.inl hl
    · cases hnone
    · exact Or.inr (Or.inr hqueue)

/-- A packet that `OnReceive` makes has the bytes that a receive has put into the buffer. -/
theorem Prepared.packet_holds {e' : ServerEvent} {s' : EchoConnections} (h : Prepared s e e' s')
    {call : ReceiveCall} {outcomes : Outcomes} (hrecv : e'.recv = some (call, outcomes))
    (hb : (s'.packet call).Has i b) : s.Holds i b := by
  cases h with
  | postAccept j curTimeSec wsaSocket acceptEx => cases hrecv
  | completed c k outcomes hnot =>
    rw [ServerEvent.recv, if_neg fun hc => hnot hc.1] at hrecv
    cases hrecv
  | sendMsg packetData wsaSend hhand => cases hrecv
  | received c k outcomes receive hoperation hreceive hof =>
    rw [ServerEvent.recv] at hrecv
    split_ifs at hrecv with hc
    obtain ⟨rfl, rfl⟩ := Prod.mk.inj (Option.some.inj hrecv)
    obtain ⟨-, hsuccess, hsize⟩ := hc
    have harrived : receive.arrived = some c.dwIoSize := by
      simpa [Completion.of, hsuccess, hsize] using hof
    obtain ⟨rfl, hb⟩ := hb
    simp only [EchoConnections.packet, setTraffic_self] at hb
    exact Or.inl (Or.inr ⟨receive, List.mem_of_getElem? hreceive, _, harrived, hb⟩)

/-- The first packet of the queue goes to the process thread's hand, where it has bytes. -/
theorem dequePacketData_cases (h : s.dequePacketData = some t) :
    (s.mPacketDataQueue = [] ∧ t = s) ∨
    ∃ packetData rest, s.packetData = none ∧ s.mPacketDataQueue = packetData :: rest ∧
      t = { s with
        mPacketDataQueue := rest
        packetData := if packetData.bytes = [] then none else some packetData } := by
  unfold EchoConnections.dequePacketData at h
  split at h
  · cases h
  · next hqueue => exact Or.inl ⟨hqueue, (Option.some.inj h).symm⟩
  · next packetData rest hnone hqueue =>
    refine Or.inr ⟨packetData, rest, hnone, hqueue, (Option.some.inj h).symm.trans ?_⟩
    by_cases hbytes : packetData.bytes = [] <;> simp [hbytes]

theorem dequePacketData_holds (h : s.dequePacketData = some t) (hb : t.Holds i b) :
    s.Holds i b := by
  obtain ⟨-, rfl⟩ | ⟨packetData, rest, hnone, hqueue, rfl⟩ := dequePacketData_cases h
  · exact hb
  rcases hb with hl | ⟨packetData', hhand, hhas⟩ | ⟨packetData', hmem, hhas⟩
  · exact Or.inl hl
  · simp only at hhand
    split_ifs at hhand
    · cases hhand
    · obtain rfl := Option.some.inj hhand
      exact Or.inr (Or.inr ⟨packetData, by rw [hqueue]; exact List.mem_cons_self, hhas⟩)
  · refine Or.inr (Or.inr ⟨packetData', ?_, hhas⟩)
    rw [hqueue]
    exact List.mem_cons_of_mem _ hmem

/-- The server's part of a step adds to what is held for a client the packets that `OnReceive`
makes. -/
theorem serve_holds {j : ℕ} {server : IOCPServer} (hb : (s.serve j server).Holds i b) :
    s.Holds i b ∨
      ∃ call ∈ server.onReceives.drop s.server.onReceives.length, (s.packet call).Has i b := by
  rcases hb with hl | hhand | ⟨packetData, hmem, hhas⟩
  · refine Or.inl (Or.inl ?_)
    by_cases hi : i = j
    · subst hi
      rw [serve_traffic] at hl
      exact hl.of_call
    · rwa [serve_traffic_of_ne hi] at hl
  · exact Or.inl (Or.inr (Or.inl hhand))
  · rcases List.mem_append.mp hmem with hold | hnew
    · exact Or.inl (Or.inr (Or.inr ⟨packetData, hold, hhas⟩))
    · obtain ⟨call, hcall, rfl⟩ := List.mem_map.mp hnew
      exact Or.inr ⟨call, hcall, hhas⟩

theorem Prepared.server {e' : ServerEvent} {s' : EchoConnections} (h : Prepared s e e' s') :
    s'.server = s.server := by
  cases h <;> rfl

/-- A byte that may be sent to a client after a step could be sent to it before, or has just arrived
on its socket. -/
theorem holds_of_step (h : connectionStep s e = some t) (hb : t.Holds i b) :
    s.Holds i b ∨ (∃ k bytes, e = .arrives i k bytes) ∧
      (s.server.mClientInfos i).mSocket = some b.socket := by
  obtain ⟨e', s', server, hprepared, hserver, rfl⟩ |
    ⟨j, k, bytes, socket, rfl, hreceive, hsocket, hne, hlength, rfl⟩ | ⟨rfl, h⟩ :=
    connectionStep_cases h
  · left
    obtain ⟨calls, hcalls, hsizes⟩ := onReceives_of_step hserver
    rcases serve_holds hb with hb | ⟨call, hcall, hhas⟩
    · exact hprepared.holds hb
    · rw [hprepared.server, hcalls, List.drop_left] at hcall
      rcases hsizes call hcall with hzero | ⟨outcomes, hrecv⟩
      · obtain ⟨-, hmem⟩ := hhas
        rw [EchoConnections.packet, hzero] at hmem
        cases hmem
      · exact hprepared.packet_holds hrecv hhas
  · rcases hb with hl | hrest
    · by_cases hi : i = j
      · subst hi
        rw [setTraffic_self] at hl
        rcases hl.of_arrive with hl | hb
        · exact Or.inl (Or.inl hl)
        · rw [hb]
          exact Or.inr ⟨⟨k, bytes, rfl⟩, hsocket⟩
      · rw [setTraffic_of_ne hi] at hl
        exact Or.inl (Or.inl hl)
    · exact Or.inl (Or.inr hrest)
  · exact Or.inl (dequePacketData_holds h hb)

theorem setTraffic_echoes {j : ℕ} {l : Traffic} (hl : l.echoes = (s.traffic j).echoes) (i : ℕ) :
    (s.setTraffic j l).echoes i = s.echoes i := by
  by_cases hi : i = j
  · subst hi
    rw [EchoConnections.echoes, setTraffic_self, hl]
    rfl
  · rw [EchoConnections.echoes, setTraffic_of_ne hi]
    rfl

theorem serve_echoes (s : EchoConnections) (i : ℕ) (server : IOCPServer) :
    ∃ n, (s.serve i server).echoes i = s.echoes i ++
      ((s.traffic i).waiting.take n).map (Echo.mk · (s.server.mClientInfos i).mSocket) := by
  rw [EchoConnections.echoes, serve_traffic]
  exact ⟨_, rfl⟩

theorem Prepared.echoes {e' : ServerEvent} {s' : EchoConnections} (h : Prepared s e e' s')
    (i : ℕ) : s'.echoes i = s.echoes i := by
  cases h with
  | postAccept j curTimeSec wsaSocket acceptEx => rfl
  | received c k outcomes receive hrecv hreceive hof =>
    refine setTraffic_echoes ?_ i
    rfl
  | completed c k outcomes hrecv => rfl
  | sendMsg packetData wsaSend hhand =>
    refine setTraffic_echoes ?_ i
    rfl

theorem dequePacketData_traffic (h : s.dequePacketData = some t) :
    t.server = s.server ∧ t.received = s.received ∧ t.traffic = s.traffic := by
  obtain ⟨-, rfl⟩ | ⟨packetData, rest, hnone, hqueue, rfl⟩ := dequePacketData_cases h
  · exact ⟨rfl, rfl, rfl⟩
  · exact ⟨rfl, rfl, rfl⟩

/-- What a step sends to a client was held for it, and goes to its socket. -/
theorem echoes_of_step (h : connectionStep s e = some t) (i : ℕ) :
    ∃ sent : List Echo, t.echoes i = s.echoes i ++ sent ∧
      ∀ x ∈ sent, x.socket = (s.server.mClientInfos i).mSocket ∧ ∀ b ∈ x.chunk, s.Holds i b := by
  obtain ⟨e', s', server, hprepared, hserver, rfl⟩ |
    ⟨j, k, bytes, socket, rfl, hreceive, hsocket, hne, hlength, rfl⟩ | ⟨rfl, h⟩ :=
    connectionStep_cases h
  · by_cases hi : i = e'.client
    · subst hi
      obtain ⟨n, hechoes⟩ := serve_echoes s' e'.client server
      rw [hechoes, hprepared.echoes, hprepared.server]
      refine ⟨_, rfl, fun x hx => ?_⟩
      obtain ⟨chunk, hchunk, rfl⟩ := List.mem_map.mp hx
      refine ⟨rfl, fun b hb => ?_⟩
      exact hprepared.holds (Or.inl (Or.inl ⟨chunk, List.mem_of_mem_take hchunk, hb⟩))
    · refine ⟨[], ?_, nofun⟩
      rw [EchoConnections.echoes, serve_traffic_of_ne hi, List.append_nil]
      exact hprepared.echoes i
  · refine ⟨[], ?_, nofun⟩
    rw [List.append_nil]
    refine setTraffic_echoes ?_ i
    rfl
  · obtain ⟨-, -, htraffic⟩ := dequePacketData_traffic h
    refine ⟨[], ?_, nofun⟩
    rw [EchoConnections.echoes, htraffic, List.append_nil]
    rfl

theorem NetworkClient.postAccept_mSocket (c : NetworkClient) (wsaSocket : Option Socket)
    (acceptEx : Bool) : (c.postAccept wsaSocket acceptEx).mSocket = wsaSocket := by
  rw [NetworkClient.postAccept]
  split_ifs <;> rfl

/-- A client keeps its socket or loses it, or has a new one. -/
theorem sockets_of_step (h : connectionStep s e = some t) (i : ℕ) :
    s.server.sockets ≤ t.server.sockets ∧
      ∀ m, (t.server.mClientInfos i).mSocket = some m →
        (s.server.mClientInfos i).mSocket = some m ∨
          m = s.server.sockets ∧ m < t.server.sockets := by
  obtain ⟨e', s', server, hprepared, hserver, rfl⟩ |
    ⟨j, k, bytes, socket, rfl, hreceive, hsocket, hne, hlength, rfl⟩ | ⟨rfl, h⟩ :=
    connectionStep_cases h
  · cases touches_of_step hserver with
    | posted j curTimeSec wsaSocket acceptEx he hskips hsockets hclients =>
      refine ⟨(Nat.le_succ _).trans hsockets.ge, fun m hm => ?_⟩
      simp only [EchoConnections.serve, hclients] at hm
      by_cases hi : i = j
      · subst hi
        rw [Function.update_self, NetworkClient.postAccept_mSocket] at hm
        split_ifs at hm
        obtain rfl := Option.some.inj hm
        exact Or.inr ⟨rfl, (Nat.lt_succ_self _).trans_le hsockets.ge⟩
      · rw [Function.update_of_ne hi] at hm
        exact Or.inl hm
    | kept c' hsocket hsockets hclients =>
      refine ⟨hsockets.ge, fun m hm => ?_⟩
      simp only [EchoConnections.serve, hclients] at hm
      by_cases hi : i = e'.client
      · subst hi
        rw [Function.update_self] at hm
        rcases hsocket with hkept | hnone
        · exact Or.inl (hkept.symm.trans hm)
        · cases hnone.symm.trans hm
      · rw [Function.update_of_ne hi] at hm
        exact Or.inl hm
  · exact ⟨Nat.le_refl _, fun m hm => Or.inl hm⟩
  · rw [(dequePacketData_traffic h).1]
    exact ⟨Nat.le_refl _, fun m hm => Or.inl hm⟩

end IocpStudy.Iocpsolution
