import IocpStudy.Iocpsolution.EchoOrder

/-! A client index between two connections.  What is held for it then is sent on a later
connection, unless the sends of the index are stuck: there is a run that does it. -/

namespace IocpStudy.Iocpsolution

open Runs OneSend

namespace EchoConnections

/-- The receives of a client are those that the server counts, and what has arrived fits into the
buffer. -/
structure Receiving (s : EchoConnections) (i : ℕ) : Prop where
  count : (s.traffic i).receives.length = (s.server.mClientInfos i).recvs
  sized : ∀ receive ∈ (s.traffic i).receives, ∀ n ∈ receive.arrived, 0 < n ∧ n ≤ maxSockRecvbuf

/-- What holds in every state that the server reaches. -/
structure Sound (s : EchoConnections) : Prop where
  located : s.Located
  counted : ∀ i, s.Counted i
  receiving : ∀ i, s.Receiving i
  known : ∀ i, s.Known i

/-- No connection of the client `i` from now on is sent a byte that was received before. -/
def Clean (s : EchoConnections) (i : ℕ) : Prop :=
  ∀ es t, run connectionStep s es = some t →
    ∀ x ∈ (t.echoes i).drop (s.echoes i).length, x.socket ≠ none →
      ∀ b ∈ x.chunk, s.server.sockets ≤ b.socket

end EchoConnections

variable {s t : EchoConnections} {e : ConnectionEvent} {es : List ConnectionEvent} {i : ℕ}
  {b : RecvByte} {m : Socket}

/-- The number of receives that the event dequeues. -/
def ServerEvent.recvsDequeued : ServerEvent → ℕ
  | .completion c _ _ => if c.m_eOperation = .RECV then 1 else 0
  | _ => 0

theorem recvs_of_step {s t : IOCPServer} {e : ServerEvent} (h : serverStep s e = some t) :
    (s.mClientInfos e.client).recvs ≤ (t.mClientInfos e.client).recvs + e.recvsDequeued := by
  cases e with
  | postAccept i curTimeSec wsaSocket acceptEx =>
    simp only [serverStep] at h
    by_cases hskips : s.skips i curTimeSec = true
    · rw [if_pos hskips] at h
      obtain rfl := Option.some.inj h
      exact Nat.le_refl _
    · rw [if_neg hskips] at h
      obtain rfl := Option.some.inj h
      simp only [IOCPServer.setClient, ServerEvent.client, Function.update_self,
        NetworkClient.postAccept]
      split_ifs <;> exact Nat.le_refl _
  | sendMsg i pMsg wsaSend =>
    simp only [serverStep] at h
    obtain rfl := Option.some.inj h
    simp [IOCPServer.setClient, ServerEvent.client, NetworkClient.sendMsg]
  | completion c k outcomes =>
    obtain ⟨client, hdequeued, hhandled⟩ := handled_of_completion h
    obtain ⟨-, -, hrecv, hother⟩ := dequeued_cases hdequeued
    have hclient : (s.mClientInfos c.mSessionIndex).recvs ≤
        client.recvs + (ServerEvent.completion c k outcomes).recvsDequeued := by
      by_cases hoperation : c.m_eOperation = .RECV
      · simp only [ServerEvent.recvsDequeued, if_pos hoperation]
        have := hrecv hoperation
        omega
      · exact (hother hoperation).ge.trans (Nat.le_add_right _ _)
    refine hclient.trans (Nat.add_le_add_right ?_ _)
    cases hhandled with
    | closed hoperation hfails =>
      simp [IOCPServer.setClient, ServerEvent.client, NetworkClient.close]
    | accepted hoperation hsuccess =>
      obtain ⟨c', hclients, hconnected, -, -⟩ :=
        accept_recvCase (s.setClient c.mSessionIndex client) c.mSessionIndex outcomes
      simp only [IOCPServer.setClient, Function.update_self] at hconnected
      have hrecvs := hconnected.recvs
      simp only [ServerEvent.client, hclients, Function.update_self]
      omega
    | received hoperation hsuccess hsize =>
      simp only [IOCPServer.setClient, ServerEvent.client, Function.update_self,
        NetworkClient.bindRecv_recvs]
      exact Nat.le_add_right _ _
    | sent hoperation hsuccess hsize => simp [IOCPServer.setClient, ServerEvent.client]

theorem Prepared.receives {e' : ServerEvent} {s' : EchoConnections} (h : Prepared s e e' s') :
    (s'.traffic e'.client).receives.length + e'.recvsDequeued =
        (s.traffic e'.client).receives.length ∧
      ∀ receive ∈ (s'.traffic e'.client).receives, receive ∈ (s.traffic e'.client).receives := by
  cases h with
  | postAccept j curTimeSec wsaSocket acceptEx => exact ⟨rfl, fun _ h => h⟩
  | received c k outcomes receive hrecv hreceive hof =>
    have hk : k < (s.traffic c.mSessionIndex).receives.length :=
      (List.getElem?_eq_some_iff.mp hreceive).1
    simp only [ServerEvent.client, setTraffic_self, ServerEvent.recvsDequeued, if_pos hrecv]
    refine ⟨?_, fun _ => List.mem_of_mem_eraseIdx⟩
    rw [List.length_eraseIdx_of_lt hk]
    omega
  | completed c k outcomes hrecv =>
    simp [ServerEvent.recvsDequeued, hrecv]
  | sendMsg packetData wsaSend hhand =>
    simp [ServerEvent.recvsDequeued, ServerEvent.client]

theorem receiving_of_step (hs : s.Receiving i) (h : connectionStep s e = some t) :
    t.Receiving i := by
  obtain ⟨e', s', server, hprepared, hserver, rfl⟩ |
    ⟨j, k, bytes, socket, rfl, hreceive, hsocket, hne, hlength, rfl⟩ | ⟨rfl, h⟩ :=
    connectionStep_cases h
  · by_cases hi : i = e'.client
    · subst hi
      obtain ⟨hcount, hmem⟩ := hprepared.receives
      have hrecvs := recvs_of_step hserver
      have hbefore := hs.count
      constructor
      · rw [serve_traffic, Traffic.call, List.length_append, List.length_replicate]
        simp only [EchoConnections.serve]
        omega
      · intro receive hreceive n hn
        rw [serve_traffic] at hreceive
        rcases List.mem_append.mp hreceive with hold | hnew
        · exact hs.sized receive (hmem receive hold) n hn
        · rw [(List.mem_replicate.mp hnew).2] at hn
          cases hn
    · constructor
      · rw [serve_traffic_of_ne hi, hprepared.traffic_of_ne hi, hs.count]
        exact congrArg NetworkClient.recvs (client_of_ne hserver hi).symm
      · rw [serve_traffic_of_ne hi, hprepared.traffic_of_ne hi]
        exact hs.sized
  · by_cases hi : i = j
    · subst hi
      constructor
      · rw [setTraffic_self, Traffic.arrive, List.length_set]
        exact hs.count
      · intro receive hmem n hn
        rw [setTraffic_self] at hmem
        rcases List.mem_or_eq_of_mem_set hmem with hold | rfl
        · exact hs.sized receive hold n hn
        · obtain rfl := Option.some.inj hn
          exact ⟨List.length_pos_of_ne_nil hne, hlength⟩
    · constructor
      · rw [setTraffic_of_ne hi]
        exact hs.count
      · rw [setTraffic_of_ne hi]
        exact hs.sized
  · obtain ⟨hserver, -, htraffic⟩ := dequePacketData_traffic h
    constructor
    · rw [htraffic, hserver]
      exact hs.count
    · rw [htraffic]
      exact hs.sized

theorem sound_of_step (hs : s.Sound) (h : connectionStep s e = some t) : t.Sound :=
  ⟨located_of_step hs.located h, fun i => counted_of_step (hs.counted i) h,
    fun i => receiving_of_step (hs.receiving i) h, fun i => known_of_step (hs.known i) h⟩

theorem sound_of_run (h : run connectionStep {} es = some s) : s.Sound := by
  refine run_invariant (fun _ _ _ hs hst => sound_of_step hs hst) ⟨?_, ?_, ?_, ?_⟩ h
  · exact ⟨fun _ => rfl, fun _ hnone => absurd hnone (Option.not_mem_none _)⟩
  · exact fun _ => ⟨⟨⟨[], rfl, rfl⟩, Or.inl rfl, rfl, rfl⟩, rfl, rfl⟩
  · exact fun _ => ⟨rfl, nofun⟩
  · refine fun _ => ⟨nofun, ?_, nofun⟩
    rintro b ((⟨_, h, -⟩ | ⟨_, h, -⟩) | ⟨_, h, -⟩ | ⟨_, h, -⟩) <;> cases h

/-- A step of the server, or none. -/
theorem server_of_step (h : connectionStep s e = some t) :
    (∃ e', serverStep s.server e' = some t.server) ∨ t.server = s.server := by
  obtain ⟨e', s', server, hprepared, hserver, rfl⟩ |
    ⟨j, k, bytes, socket, rfl, hreceive, hsocket, hne, hlength, rfl⟩ | ⟨rfl, h⟩ :=
    connectionStep_cases h
  · exact Or.inl ⟨e', hserver⟩
  · exact Or.inr rfl
  · exact Or.inr (dequePacketData_traffic h).1

theorem EchoConnections.Counted.length (hs : s.Counted i) :
    (s.echoes i).length = (s.server.mClientInfos i).sends.calls.length := by
  simpa using congrArg List.length hs.calls

/-- Nothing is sent to a client that is stuck. -/
theorem clean_of_stuck (hs : s.Counted i) (hstuck : (s.server.mClientInfos i).sends.Stuck) :
    s.Clean i := by
  intro es t h
  have hkept := run_invariant
    (P := fun t => t.Counted i ∧ (t.server.mClientInfos i).sends.Stuck ∧
      t.echoes i = s.echoes i)
    (fun t e u ht htu => ?_) ⟨hs, hstuck, rfl⟩ h
  · rw [hkept.2.2, List.drop_length]
    exact nofun
  · obtain ⟨hcounted, hstuck, hechoes⟩ := ht
    obtain ⟨sent, hsent, -⟩ := echoes_of_step htu i
    have hcounted' := counted_of_step hcounted htu
    have hstill : (u.server.mClientInfos i).sends.Stuck ∧
        (u.server.mClientInfos i).sends.calls = (t.server.mClientInfos i).sends.calls := by
      rcases server_of_step htu with ⟨e', he'⟩ | hsame
      · exact (sends_of_step he' i).stuck hstuck
      · rw [hsame]
        exact ⟨hstuck, rfl⟩
    have hlength := congrArg List.length hsent
    rw [List.length_append, hcounted'.length, hstill.2, hcounted.length] at hlength
    obtain rfl : sent = [] := List.length_eq_zero_iff.mp (by omega)
    exact ⟨hcounted', hstill.1, by rw [hsent, hechoes, List.append_nil]⟩

/-- Where nothing is held for a client that has no socket, what is held later has arrived on a new
one. -/
theorem clean_of_none (hclosed : (s.server.mClientInfos i).mSocket = none)
    (hnone : ∀ b, ¬s.Holds i b) : s.Clean i := by
  intro es t h
  have hkept := run_invariant
    (P := fun t => s.server.sockets ≤ t.server.sockets ∧
      (∀ m, (t.server.mClientInfos i).mSocket = some m → s.server.sockets ≤ m) ∧
      (∀ b, t.Holds i b → s.server.sockets ≤ b.socket) ∧
      ∃ later, t.echoes i = s.echoes i ++ later ∧
        ∀ x ∈ later, ∀ b ∈ x.chunk, s.server.sockets ≤ b.socket)
    (fun t e u ht htu => ?_) ⟨Nat.le_refl _, ?_, fun b hb => absurd hb (hnone b), [], ?_, nofun⟩ h
  · obtain ⟨-, -, -, later, hechoes, hlater⟩ := hkept
    rw [hechoes, List.drop_left]
    exact fun x hx _ => hlater x hx
  · obtain ⟨hle, hsocket, hheld, later, hechoes, hlater⟩ := ht
    obtain ⟨hle', hsockets⟩ := sockets_of_step htu i
    obtain ⟨sent, hsent, hchunks⟩ := echoes_of_step htu i
    refine ⟨hle.trans hle', fun m hm => ?_, fun b hb => ?_, later ++ sent, ?_, fun x hx b hb => ?_⟩
    · rcases hsockets m hm with hkept | ⟨rfl, -⟩
      · exact hsocket m hkept
      · exact hle
    · rcases holds_of_step htu hb with hb | ⟨-, hnew⟩
      · exact hheld b hb
      · exact hsocket _ hnew
    · rw [hsent, hechoes, List.append_assoc]
    · rcases List.mem_append.mp hx with hold | hnew
      · exact hlater x hold b hb
      · exact hheld b ((hchunks x hnew).2 b hb)
  · intro m hm
    cases hclosed.symm.trans hm
  · exact (List.append_nil _).symm

/-- A run that sends the client, on its socket `m`, a chunk of bytes that are held for it. -/
def EchoConnections.SendsHeld (s : EchoConnections) (i : ℕ) (m : Socket) : Prop :=
  ∃ es t, run connectionStep s es = some t ∧
    ∃ x ∈ (t.echoes i).drop (s.echoes i).length,
      x.socket = some m ∧ x.chunk ≠ [] ∧ ∀ b ∈ x.chunk, s.Holds i b

theorem sendsHeld_of_step (h : connectionStep s e = some t)
    (he : ∀ k bytes, e = .arrives i k bytes → False) (ht : t.SendsHeld i m) : s.SendsHeld i m := by
  obtain ⟨es, u, hrun, x, hx, hsocket, hne, hheld⟩ := ht
  obtain ⟨sent, hechoes, -⟩ := echoes_of_step h i
  refine ⟨e :: es, u, run_cons_eq_some.mpr ⟨t, h, hrun⟩, x, ?_, hsocket, hne, fun b hb => ?_⟩
  · refine List.drop_subset_drop_left _ ?_ hx
    rw [hechoes, List.length_append]
    exact Nat.le_add_right _ _
  · rcases holds_of_step h (hheld b hb) with hb | ⟨⟨k, bytes, harrives⟩, -⟩
    · exact hb
    · exact (he k bytes harrives).elim

theorem chunksOf_ne_nil {packets : List TracedPacket} {chunk : List RecvByte}
    (h : chunk ∈ chunksOf i packets) : chunk ≠ [] := by
  obtain ⟨packetData, -, hchunk⟩ := List.mem_filterMap.mp h
  split_ifs at hchunk with hbytes
  obtain rfl := Option.some.inj hchunk
  exact hbytes.2

/-- A step that calls `WSASend` for the client. -/
theorem sendsHeld_of_call (hs : s.Sound) (h : connectionStep s e = some t)
    (hopen : (s.server.mClientInfos i).mSocket = some m)
    (hcalls : (t.server.mClientInfos i).sends.calls.length ≠
      (s.server.mClientInfos i).sends.calls.length) : s.SendsHeld i m := by
  have ht := sound_of_step hs h
  obtain ⟨sent, hechoes, hsent⟩ := echoes_of_step h i
  obtain ⟨x, hx⟩ : ∃ x, x ∈ sent := by
    refine List.exists_mem_of_ne_nil sent fun hnil => hcalls ?_
    rw [← (ht.counted i).length, ← (hs.counted i).length, hechoes, hnil, List.append_nil]
  refine ⟨[e], t, run_cons_eq_some.mpr ⟨t, h, rfl⟩, x, ?_, ?_, ?_, (hsent x hx).2⟩
  · rw [hechoes, List.drop_left]
    exact hx
  · rw [(hsent x hx).1, hopen]
  · have hchunk : x.chunk ∈ chunksOf i t.received := by
      rw [← ht.located.chunks i, EchoConnections.chunks, hechoes]
      simp only [List.mem_append, List.mem_map]
      exact Or.inl (Or.inl (Or.inl ⟨x, Or.inr hx, rfl⟩))
    exact chunksOf_ne_nil hchunk

/-- A message that waits is sent when the one in front of it completes. -/
theorem sendsHeld_of_waiting (hs : s.Sound) (hopen : (s.server.mClientInfos i).mSocket = some m)
    (hmoves : ¬(s.server.mClientInfos i).sends.Stuck) (hwaiting : (s.traffic i).waiting ≠ []) :
    s.SendsHeld i m := by
  have hcounted := hs.counted i
  have htail : (s.server.mClientInfos i).sends.mSendQueue.tail ≠ [] := by
    intro hnil
    have hlength := congrArg List.length hcounted.waiting
    rw [hnil] at hlength
    exact hwaiting (List.length_eq_zero_iff.mp (by simpa using hlength))
  have hsome : (s.server.mClientInfos i).sends.outstanding ≠ [] :=
    fun hnone => hmoves ⟨fun hnil => htail (by rw [hnil]; rfl), hnone⟩
  obtain ⟨server, hserver, hcalls⟩ := exists_sendCompletion hcounted.one hsome
  have hstep : connectionStep s (.completion ⟨.SEND, i, true, 1⟩ 0 {}) =
      some (s.serve i server) := by
    rw [sendCompletion] at hserver
    simp [connectionStep, hserver]
  refine sendsHeld_of_call hs hstep hopen ?_
  obtain ⟨entry, q, hq⟩ := List.exists_cons_of_ne_nil htail
  simp [EchoConnections.serve, hcalls, hq]

/-- The client `i` has the socket `m`, and its queue moves. -/
def IOCPServer.Moving (server : IOCPServer) (i : ℕ) (m : Socket) : Prop :=
  (server.mClientInfos i).mSocket = some m ∧ ¬(server.mClientInfos i).sends.Stuck

theorem exists_sendMsg {packetData : TracedPacket} (hhand : s.packetData = some packetData) :
    ∃ t, connectionStep s (.sendMsg true) = some t ∧ t.packetData = none ∧
      t.mPacketDataQueue = s.mPacketDataQueue ∧
      serverStep s.server (.sendMsg packetData.SessionIndex
        (packetData.bytes.map RecvByte.byte) true) = some t.server := by
  simp only [connectionStep, hhand, Option.bind_some, serverStep, Option.map_some]
  refine ⟨_, rfl, rfl, ?_, rfl⟩
  simp [EchoConnections.serve, EchoConnections.setTraffic, IOCPServer.setClient]

theorem sendMsg_socket {server server' : IOCPServer} {pMsg : List UInt8} {wsaSend : Bool}
    (h : serverStep server (.sendMsg i pMsg wsaSend) = some server') :
    (server'.mClientInfos i).mSocket = (server.mClientInfos i).mSocket := by
  obtain rfl := Option.some.inj h
  simp [IOCPServer.setClient, NetworkClient.sendMsg]

/-- A packet of the client in the process thread's hand is sent at once, or waits behind a message
that is being sent. -/
theorem sendsHeld_of_hand (hs : s.Sound) (hmoves : s.server.Moving i m)
    {packetData : TracedPacket} (hhand : s.packetData = some packetData)
    (hi : packetData.SessionIndex = i) : s.SendsHeld i m := by
  subst hi
  obtain ⟨t, hstep, -, -, hserver⟩ := exists_sendMsg hhand
  obtain ⟨hopen, hstuck⟩ := hmoves
  cases sends_of_step hserver packetData.SessionIndex with
  | kept e hnone hkept => exact absurd rfl hnone
  | sendMsg pMsg wsaSend hmsg =>
    by_cases hq : (s.server.mClientInfos packetData.SessionIndex).sends.mSendQueue = []
    · refine sendsHeld_of_call hs hstep hopen ?_
      rw [sendMsg_calls hmsg, if_pos hq]
      simp
    · refine sendsHeld_of_step hstep (fun _ _ h => by cases h)
        (sendsHeld_of_waiting (sound_of_step hs hstep) ?_ ?_ ?_)
      · rw [sendMsg_socket hserver, hopen]
      · rw [sendMsg_stuck (hs.counted _).one hstuck hmsg]
        exact fun h => hq h.1
      · intro hnil
        have hwaiting := ((sound_of_step hs hstep).counted packetData.SessionIndex).waiting
        rw [hnil, queue_sendMsg hmsg] at hwaiting
        obtain ⟨front, q, hcons⟩ := List.exists_cons_of_ne_nil hq
        simp [hcons] at hwaiting

/-- The packets in front of one of the client's are taken first. -/
theorem sendsHeld_of_packet {packets : List TracedPacket} (hqueue : s.mPacketDataQueue = packets)
    (hs : s.Sound) (hmoves : s.server.Moving i m)
    (hb : (∃ packetData ∈ s.packetData, packetData.Has i b) ∨
      ∃ packetData ∈ packets, packetData.Has i b) : s.SendsHeld i m := by
  induction packets generalizing s with
  | nil =>
    rcases hb with ⟨packetData, hhand, hi, -⟩ | ⟨packetData, hmem, -⟩
    · exact sendsHeld_of_hand hs hmoves hhand hi
    · cases hmem
  | cons front rest ih =>
    -- Where the hand is empty, the front of the queue is dequeued.
    have hdequeue {s : EchoConnections} (hqueue : s.mPacketDataQueue = front :: rest)
        (hs : s.Sound) (hmoves : s.server.Moving i m) (hnone : s.packetData = none)
        (hb : ∃ packetData ∈ front :: rest, packetData.Has i b) : s.SendsHeld i m := by
      obtain ⟨t, ht⟩ : ∃ t, s.dequePacketData = some t := by
        simp [EchoConnections.dequePacketData, hqueue, hnone]
      have hstep : connectionStep s .dequePacketData = some t := ht
      obtain ⟨hnil, -⟩ | ⟨packetData, rest', -, hcons, rfl⟩ := dequePacketData_cases ht
      · cases hqueue.symm.trans hnil
      obtain ⟨rfl, rfl⟩ := List.cons.inj (hqueue.symm.trans hcons)
      refine sendsHeld_of_step hstep (fun _ _ h => by cases h)
        (ih rfl (sound_of_step hs hstep) hmoves ?_)
      obtain ⟨packetData, hmem, hhas⟩ := hb
      rcases List.mem_cons.mp hmem with rfl | hrest
      · refine Or.inl ⟨packetData, ?_, hhas⟩
        simp [List.ne_nil_of_mem hhas.2]
      · exact Or.inr ⟨packetData, hrest, hhas⟩
    rcases hhand : s.packetData with - | packetData
    · rcases hb with ⟨packetData, hsome, -⟩ | hb
      · cases hhand.symm.trans hsome
      · exact hdequeue hqueue hs hmoves hhand hb
    · by_cases hi : packetData.SessionIndex = i
      · exact sendsHeld_of_hand hs hmoves hhand hi
      · obtain ⟨t, hstep, hnone, hkept, hserver⟩ := exists_sendMsg hhand
        refine sendsHeld_of_step hstep (fun _ _ h => by cases h)
          (hdequeue (hkept.trans hqueue) (sound_of_step hs hstep) ?_ hnone ?_)
        · rw [IOCPServer.Moving, client_of_ne hserver (Ne.symm hi)]
          exact hmoves
        · rcases hb with ⟨packetData', hsome, hi', -⟩ | hb
          · obtain rfl := Option.some.inj (hhand.symm.trans hsome)
            exact absurd hi' hi
          · exact hb

/-- The completion of a receive leaves the client its socket and its sends. -/
theorem exists_recvCompletion {server : IOCPServer} {k n : ℕ}
    (hrecvs : (server.mClientInfos i).recvs ≠ 0) (hpos : n ≠ 0) (hle : n ≤ maxSockRecvbuf) :
    ∃ server', serverStep server (.completion ⟨.RECV, i, true, n⟩ k {}) = some server' ∧
      server'.onReceives = server.onReceives ++ [⟨i, n⟩] ∧
      (server'.mClientInfos i).mSocket = (server.mClientInfos i).mSocket ∧
      (server'.mClientInfos i).sends = (server.mClientInfos i).sends := by
  simp only [serverStep, Completion.Sized, if_pos hle, NetworkClient.dequeued, if_neg hrecvs,
    Option.bind_some, workerThread_recv hpos]
  refine ⟨_, rfl, rfl, ?_, ?_⟩ <;> simp [IOCPServer.recvCase, IOCPServer.setClient,
    NetworkClient.bindRecv]

/-- What has arrived for a receive is put into the packet queue when that is handled. -/
theorem sendsHeld_of_arrived (hs : s.Sound) (hmoves : s.server.Moving i m) {receive : Receive}
    {n : ℕ} (hreceive : receive ∈ (s.traffic i).receives) (hn : n ∈ receive.arrived)
    (hb : b ∈ (s.traffic i).mRecvBuf.take n) : s.SendsHeld i m := by
  obtain ⟨k, hk⟩ := List.mem_iff_getElem?.mp hreceive
  obtain ⟨hpos, hle⟩ := (hs.receiving i).sized receive hreceive n hn
  have hrecvs : (s.server.mClientInfos i).recvs ≠ 0 := by
    rw [← (hs.receiving i).count]
    exact (List.length_pos_of_mem hreceive).ne'
  have hof : (⟨.RECV, i, true, n⟩ : Completion).of receive = true := by
    simpa [Completion.of, hpos.ne'] using hn
  obtain ⟨server, hserver, honReceives, hsocket, hsends⟩ :=
    exists_recvCompletion (k := k) hrecvs hpos.ne' hle
  obtain ⟨t, hstep, rfl, hmem⟩ : ∃ t, connectionStep s (.completion ⟨.RECV, i, true, n⟩ k {}) =
      some t ∧ server = t.server ∧ ⟨i, (s.traffic i).mRecvBuf.take n⟩ ∈ t.mPacketDataQueue := by
    simp only [connectionStep, if_pos, hk, Option.bind_some, hof, hserver, Option.map_some]
    refine ⟨_, rfl, rfl, ?_⟩
    simp [EchoConnections.serve, EchoConnections.setTraffic, honReceives, EchoConnections.packet]
  refine sendsHeld_of_step hstep (fun _ _ h => by cases h)
    (sendsHeld_of_packet rfl (sound_of_step hs hstep) ?_ (Or.inr ⟨_, hmem, rfl, hb⟩))
  rw [IOCPServer.Moving, hsocket, hsends]
  exact hmoves

theorem sendsHeld_of_holds (hs : s.Sound) (hmoves : s.server.Moving i m) (hb : s.Holds i b) :
    s.SendsHeld i m := by
  rcases hb with (⟨chunk, hchunk, -⟩ | ⟨receive, hreceive, n, hn, hb⟩) | hpacket
  · exact sendsHeld_of_waiting hs hmoves.1 hmoves.2 (List.ne_nil_of_mem hchunk)
  · exact sendsHeld_of_arrived hs hmoves hreceive hn hb
  · exact sendsHeld_of_packet rfl hs hmoves hpacket

/-- A step of the server without a call of `WSASend` leaves what is held. -/
theorem holds_serve {server : IOCPServer} {j : ℕ}
    (hcalls : (server.mClientInfos j).sends.calls = (s.server.mClientInfos j).sends.calls)
    (hb : s.Holds i b) : (s.serve j server).Holds i b := by
  rcases hb with hl | hhand | ⟨packetData, hmem, hhas⟩
  · refine Or.inl ?_
    by_cases hi : i = j
    · subst hi
      rw [serve_traffic, hcalls, Nat.sub_self]
      exact hl.imp_right fun ⟨receive, hreceive, hn⟩ =>
        ⟨receive, List.mem_append_left _ hreceive, hn⟩
    · rwa [serve_traffic_of_ne hi]
  · exact Or.inr (Or.inl hhand)
  · exact Or.inr (Or.inr ⟨packetData, List.mem_append_left _ hmem, hhas⟩)

/-- The acceptor thread gives a client that has no socket a new one, when its time has come. -/
theorem exists_postAccept (hclosed : (s.server.mClientInfos i).mSocket = none)
    (hmoves : ¬(s.server.mClientInfos i).sends.Stuck) :
    ∃ e t, connectionStep s e = some t ∧ (∀ k bytes, e = .arrives i k bytes → False) ∧
      t.server.Moving i s.server.sockets ∧ ∀ b, s.Holds i b → t.Holds i b := by
  let curTimeSec := (s.server.mClientInfos i).mLatestClosedTimeSec + reuseSessionWaitTimeSec
  have hskips : s.server.skips i curTimeSec = false := by
    simp [IOCPServer.skips, NetworkClient.isConnected, hclosed, curTimeSec]
  obtain ⟨server, hserver, hsocket, hsends⟩ : ∃ server,
      serverStep s.server (.postAccept i curTimeSec true true) = some server ∧
      (server.mClientInfos i).mSocket = some s.server.sockets ∧
      (server.mClientInfos i).sends = (s.server.mClientInfos i).sends := by
    simp only [serverStep, hskips, Bool.false_eq_true, if_false, if_true]
    refine ⟨_, rfl, ?_, ?_⟩ <;>
      simp [IOCPServer.setClient, NetworkClient.postAccept, NetworkClient.allows]
  refine ⟨.postAccept i curTimeSec true true, s.serve i server, ?_, fun _ _ h => (by cases h), ?_,
    fun b hb => holds_serve (congrArg OneSend.State.calls hsends) hb⟩
  · rw [connectionStep, hserver]
    rfl
  · refine ⟨hsocket, ?_⟩
    rw [EchoConnections.serve, hsends]
    exact hmoves

/-- Between two connections of a client index the later ones are sent nothing that was received on
the earlier ones exactly where nothing is sent to the client any more, or nothing is held for it. -/
theorem clean_iff (es : List ConnectionEvent) (s : EchoConnections)
    (h : run connectionStep {} es = some s) (i : ℕ)
    (hclosed : (s.server.mClientInfos i).mSocket = none) :
    s.Clean i ↔ (s.server.mClientInfos i).sends.Stuck ∨ ∀ b, ¬s.Holds i b := by
  have hs := sound_of_run h
  constructor
  · intro hclean
    by_contra hnot
    obtain ⟨hmoves, hheld⟩ := not_or.mp hnot
    obtain ⟨b, hb⟩ := not_forall_not.mp hheld
    obtain ⟨e, t, hstep, he, hmoving, hholds⟩ := exists_postAccept hclosed hmoves
    obtain ⟨es', u, hrun, x, hx, hsocket, hne, hchunk⟩ := sendsHeld_of_step hstep he
      (sendsHeld_of_holds (sound_of_step hs hstep) hmoving (hholds b hb))
    obtain ⟨b', hb'⟩ := List.exists_mem_of_ne_nil _ hne
    have hold := ((hs.known i).held b' (hchunk b' hb')).1
    have hnew := hclean es' u hrun x hx (by rw [hsocket]; exact Option.some_ne_none _) b' hb'
    exact absurd hnew hold.not_ge
  · rintro (hstuck | hnone)
    · exact clean_of_stuck (hs.counted i) hstuck
    · exact clean_of_none hclosed hnone

/-- A connection that is closed while its chunk is in the packet queue. -/
theorem not_clean_with_chunk :
    ∃ s, run connectionStep {} [.postAccept 0 10 true true,
        .completion ⟨.ACCEPT, 0, true, 0⟩ 0 {}, .arrives 0 0 [1],
        .completion ⟨.RECV, 0, true, 1⟩ 0 {},
        .completion ⟨.RECV, 0, false, 0⟩ 0 { now := 20 }] = some s ∧ ¬s.Clean 0 := by
  refine ⟨_, rfl, (clean_iff [.postAccept 0 10 true true,
    .completion ⟨.ACCEPT, 0, true, 0⟩ 0 {}, .arrives 0 0 [1],
    .completion ⟨.RECV, 0, true, 1⟩ 0 {}, .completion ⟨.RECV, 0, false, 0⟩ 0 { now := 20 }] _ rfl 0
    rfl).not.mpr ?_⟩
  rintro (hstuck | hnone)
  · exact hstuck.1 rfl
  · refine hnone ⟨0, 1⟩ (Or.inr (Or.inr ⟨⟨0, [⟨0, 1⟩]⟩, ?_, rfl, List.mem_singleton_self _⟩))
    exact List.mem_cons_of_mem _ (List.mem_singleton_self _)

end IocpStudy.Iocpsolution
