import IocpStudy.Iocpsolution.Connections

/-! The echoes of a client index in their order.  The packet queue and `mSendQueue` are first-in
first-out over all the connections of the index, and a chunk that waits in them is sent on the
socket that the client has when its turn comes. -/

namespace IocpStudy.Iocpsolution

open Runs OneSend

/-- The chunks with bytes among packets of the client `i`. -/
def chunksOf (i : ℕ) (packets : List TracedPacket) : List (List RecvByte) :=
  packets.filterMap fun packetData =>
    if packetData.SessionIndex = i ∧ packetData.bytes ≠ [] then some packetData.bytes else none

namespace EchoConnections

/-- The chunks with bytes of the client `i`, from the oldest on. -/
def chunks (s : EchoConnections) (i : ℕ) : List (List RecvByte) :=
  (s.echoes i).map Echo.chunk ++ (s.traffic i).waiting ++ chunksOf i s.packetData.toList ++
    chunksOf i s.mPacketDataQueue

/-- The chunks received are where they are counted, and the process thread has none without
bytes. -/
structure Located (s : EchoConnections) : Prop where
  chunks : ∀ i, s.chunks i = chunksOf i s.received
  hand : ∀ packetData ∈ s.packetData, packetData.bytes ≠ []

/-- The messages that wait for their `WSASend` are those behind the front of the queue. -/
structure Counted (s : EchoConnections) (i : ℕ) : Prop where
  one : (s.server.mClientInfos i).sends.OneAtATime
  calls : (s.echoes i).map (fun x => x.chunk.map RecvByte.byte) =
    (s.server.mClientInfos i).sends.calls.map StOverlappedEx.bytes
  waiting : (s.traffic i).waiting.map (List.map RecvByte.byte) =
    (s.server.mClientInfos i).sends.mSendQueue.tail.map StOverlappedEx.bytes

/-- The bytes held for a client were received on its socket or before. -/
structure Known (s : EchoConnections) (i : ℕ) : Prop where
  socket : ∀ m, (s.server.mClientInfos i).mSocket = some m → m < s.server.sockets
  held : ∀ b, s.Holds i b → b.socket < s.server.sockets ∧
    ∀ m, (s.server.mClientInfos i).mSocket = some m → b.socket ≤ m
  sent : ∀ x ∈ s.echoes i, ∀ b ∈ x.chunk, ∀ m, x.socket = some m → b.socket ≤ m

/-- The messages given to `WSASend` for a client are the first of the chunks with bytes that were
received for it, in their order, and none goes to a connection before the one it came from. -/
structure Echoed (s : EchoConnections) (i : ℕ) : Prop where
  calls : (s.server.mClientInfos i).sends.calls.map StOverlappedEx.bytes =
    (s.echoes i).map fun x => x.chunk.map RecvByte.byte
  inOrder : (s.echoes i).map Echo.chunk <+: chunksOf i s.received
  forward : ∀ x ∈ s.echoes i, ∀ b ∈ x.chunk, ∀ m, x.socket = some m → b.socket ≤ m

end EchoConnections

variable {s t : EchoConnections} {e : ConnectionEvent} {es : List ConnectionEvent} {i : ℕ}

theorem known_of_step (hs : s.Known i) (h : connectionStep s e = some t) : t.Known i := by
  obtain ⟨hle, hsockets⟩ := sockets_of_step h i
  obtain ⟨sent, hechoes, hsent⟩ := echoes_of_step h i
  refine ⟨fun m hm => ?_, fun b hb => ?_, fun x hx b hb m hm => ?_⟩
  · rcases hsockets m hm with hkept | ⟨-, hnew⟩
    · exact (hs.socket m hkept).trans_le hle
    · exact hnew
  · have hbefore : b.socket < s.server.sockets ∧
        ∀ m, (s.server.mClientInfos i).mSocket = some m → b.socket ≤ m := by
      rcases holds_of_step h hb with hheld | ⟨-, hsocket⟩
      · exact hs.held b hheld
      · refine ⟨hs.socket _ hsocket, fun m hm => ?_⟩
        rw [hsocket] at hm
        exact (Option.some.inj hm).le
    refine ⟨hbefore.1.trans_le hle, fun m hm => ?_⟩
    rcases hsockets m hm with hkept | ⟨rfl, -⟩
    · exact hbefore.2 m hkept
    · exact hbefore.1.le
  · rw [hechoes] at hx
    rcases List.mem_append.mp hx with hold | hnew
    · exact hs.sent x hold b hb m hm
    · obtain ⟨hsocket, hheld⟩ := hsent x hnew
      exact (hs.held b (hheld b hb)).2 m (hsocket.symm.trans hm)

theorem chunksOf_append (i : ℕ) (l l' : List TracedPacket) :
    chunksOf i (l ++ l') = chunksOf i l ++ chunksOf i l' := List.filterMap_append

theorem chunks_serve (s : EchoConnections) (j : ℕ) (server : IOCPServer) (i : ℕ) :
    ∃ packets, (s.serve j server).received = s.received ++ packets ∧
      (s.serve j server).chunks i = s.chunks i ++ chunksOf i packets := by
  refine ⟨_, rfl, ?_⟩
  have hsends : ((s.serve j server).echoes i).map Echo.chunk ++
      ((s.serve j server).traffic i).waiting =
      (s.echoes i).map Echo.chunk ++ (s.traffic i).waiting := by
    by_cases hi : i = j
    · subst hi
      simp [EchoConnections.echoes, Traffic.call, Function.comp_def]
    · rw [EchoConnections.echoes, serve_traffic_of_ne hi]
      rfl
  rw [EchoConnections.chunks, hsends]
  simp only [EchoConnections.serve, chunksOf_append, EchoConnections.chunks, List.append_assoc]
  rfl

theorem setTraffic_chunks {j : ℕ} {l : Traffic} (hechoes : l.echoes = (s.traffic j).echoes)
    (hwaiting : l.waiting = (s.traffic j).waiting) (i : ℕ) :
    (s.setTraffic j l).chunks i = s.chunks i := by
  have htraffic : ((s.setTraffic j l).traffic i).waiting = (s.traffic i).waiting := by
    by_cases hi : i = j
    · subst hi
      rw [setTraffic_self, hwaiting]
    · rw [setTraffic_of_ne hi]
  rw [EchoConnections.chunks, setTraffic_echoes hechoes, htraffic]
  rfl

/-- The packet in the process thread's hand becomes the last message that waits. -/
theorem chunks_sendMsg_prepared {packetData : TracedPacket} (hhand : s.packetData = some packetData)
    (hbytes : packetData.bytes ≠ []) (i : ℕ) :
    ({ s with packetData := none }.setTraffic packetData.SessionIndex
      { s.traffic packetData.SessionIndex with
        waiting := (s.traffic packetData.SessionIndex).waiting ++ [packetData.bytes] }).chunks i =
      s.chunks i := by
  by_cases hi : packetData.SessionIndex = i
  · subst hi
    have hone : chunksOf packetData.SessionIndex s.packetData.toList = [packetData.bytes] := by
      simp [chunksOf, hhand, hbytes]
    rw [EchoConnections.chunks, EchoConnections.chunks, hone, setTraffic_echoes, setTraffic_self]
    · simp [chunksOf, EchoConnections.setTraffic, EchoConnections.echoes]
    · rfl
  · have hnone : chunksOf i s.packetData.toList = [] := by simp [chunksOf, hhand, hi]
    rw [EchoConnections.chunks, EchoConnections.chunks, hnone, setTraffic_echoes,
      setTraffic_of_ne (Ne.symm hi)]
    · simp [chunksOf, EchoConnections.setTraffic, EchoConnections.echoes]
    · rfl

theorem Prepared.located {e' : ServerEvent} {s' : EchoConnections} (h : Prepared s e e' s')
    (hs : s.Located) : s'.Located := by
  cases h with
  | postAccept j curTimeSec wsaSocket acceptEx => exact hs
  | received c k outcomes receive hrecv hreceive hof =>
    refine ⟨fun i => (setTraffic_chunks ?_ ?_ i).trans (hs.chunks i), hs.hand⟩
    · rfl
    · rfl
  | completed c k outcomes hrecv => exact hs
  | sendMsg packetData wsaSend hhand =>
    refine ⟨fun i => ?_, nofun⟩
    rw [chunks_sendMsg_prepared hhand (hs.hand packetData hhand)]
    exact hs.chunks i

theorem located_dequePacketData (hs : s.Located) (h : s.dequePacketData = some t) :
    t.Located := by
  obtain ⟨-, rfl⟩ | ⟨packetData, rest, hnone, hqueue, rfl⟩ := dequePacketData_cases h
  · exact hs
  have hchunks := hs.chunks
  simp only [EchoConnections.chunks, hnone, hqueue] at hchunks
  by_cases hbytes : packetData.bytes = []
  · -- The chunk is dropped, and was not counted.
    simp only [if_pos hbytes]
    refine ⟨fun i => Eq.trans ?_ (hchunks i), nofun⟩
    simp [EchoConnections.chunks, EchoConnections.echoes, chunksOf, hbytes]
  · simp only [if_neg hbytes]
    refine ⟨fun i => Eq.trans ?_ (hchunks i), fun packetData' hhand => ?_⟩
    · rw [← List.singleton_append, chunksOf_append]
      simp only [EchoConnections.chunks, EchoConnections.echoes, Option.toList_some,
        Option.toList_none, List.append_assoc]
      rfl
    · obtain rfl := Option.some.inj hhand
      exact hbytes

theorem located_of_step (hs : s.Located) (h : connectionStep s e = some t) : t.Located := by
  obtain ⟨e', s', server, hprepared, hserver, rfl⟩ |
    ⟨j, k, bytes, socket, rfl, hreceive, hsocket, hne, hlength, rfl⟩ | ⟨rfl, h⟩ :=
    connectionStep_cases h
  · have hs' := hprepared.located hs
    refine ⟨fun i => ?_, hs'.hand⟩
    obtain ⟨packets, hreceived, hchunks⟩ := chunks_serve s' e'.client server i
    rw [hchunks, hreceived, chunksOf_append, hs'.chunks]
  · refine ⟨fun i => (setTraffic_chunks ?_ ?_ i).trans (hs.chunks i), hs.hand⟩
    · rfl
    · rfl
  · exact located_dequePacketData hs h

theorem Prepared.traffic_of_ne {e' : ServerEvent} {s' : EchoConnections}
    (h : Prepared s e e' s') (hi : i ≠ e'.client) : s'.traffic i = s.traffic i := by
  cases h with
  | postAccept j curTimeSec wsaSocket acceptEx => rfl
  | received c k outcomes receive hrecv hreceive hof => exact setTraffic_of_ne hi _ _
  | completed c k outcomes hrecv => rfl
  | sendMsg packetData wsaSend hhand => exact setTraffic_of_ne hi _ _

/-- Where the server calls `WSASend` for `new`, as many of the messages that wait are sent. -/
theorem counted_serve {server : IOCPServer} (new : List StOverlappedEx)
    (hone : (server.mClientInfos i).sends.OneAtATime)
    (hechoes : (s.echoes i).map (fun x => x.chunk.map RecvByte.byte) =
      (s.server.mClientInfos i).sends.calls.map StOverlappedEx.bytes)
    (hcalls : (server.mClientInfos i).sends.calls =
      (s.server.mClientInfos i).sends.calls ++ new)
    (hwaiting : (s.traffic i).waiting.map (List.map RecvByte.byte) =
      (new ++ (server.mClientInfos i).sends.mSendQueue.tail).map StOverlappedEx.bytes) :
    (s.serve i server).Counted i := by
  have hn : (server.mClientInfos i).sends.calls.length -
      (s.server.mClientInfos i).sends.calls.length = new.length := by
    rw [hcalls, List.length_append, Nat.add_sub_cancel_left]
  have htraffic := serve_traffic s i server
  rw [hn] at htraffic
  have htake : ((s.traffic i).waiting.take new.length).map (List.map RecvByte.byte) =
      new.map StOverlappedEx.bytes := by
    rw [List.map_take, hwaiting, List.map_append, List.take_left' (List.length_map _)]
  have hdrop : ((s.traffic i).waiting.drop new.length).map (List.map RecvByte.byte) =
      (server.mClientInfos i).sends.mSendQueue.tail.map StOverlappedEx.bytes := by
    rw [List.map_drop, hwaiting, List.map_append, List.drop_left' (List.length_map _)]
  refine ⟨hone, ?_, ?_⟩
  · rw [EchoConnections.echoes, htraffic, Traffic.call, List.map_append, List.map_map]
    refine (congrArg₂ (· ++ ·) hechoes htake).trans ?_
    rw [← List.map_append, ← hcalls]
    rfl
  · rw [htraffic]
    exact hdrop

theorem EchoConnections.Counted.congr (hs : s.Counted i)
    (hsends : (t.server.mClientInfos i).sends = (s.server.mClientInfos i).sends)
    (hechoes : t.echoes i = s.echoes i)
    (hwaiting : (t.traffic i).waiting = (s.traffic i).waiting) : t.Counted i := by
  constructor
  · rw [hsends]
    exact hs.one
  · rw [hechoes, hsends]
    exact hs.calls
  · rw [hwaiting, hsends]
    exact hs.waiting

/-- A message is called for at once, or waits behind the front of the queue. -/
theorem counted_sendMsg {s' : EchoConnections} {server : IOCPServer} {pMsg : List UInt8}
    {wsaSend : Bool} (hs : s.Counted i) (hserver : s'.server = s.server)
    (hechoes : s'.echoes i = s.echoes i) {chunk : List RecvByte}
    (hwaiting : (s'.traffic i).waiting = (s.traffic i).waiting ++ [chunk])
    (hbytes : chunk.map RecvByte.byte = pMsg)
    (h : serverStep s.server (.sendMsg i pMsg wsaSend) = some server) :
    (s'.serve i server).Counted i := by
  cases sends_of_step h i with
  | kept e hnone hkept => exact absurd rfl hnone
  | sendMsg pMsg wsaSend hmsg =>
    have hqueue := queue_sendMsg hmsg
    have hcalls := sendMsg_calls hmsg
    rw [← hserver] at hcalls
    refine counted_serve _ (oneAtATime_step hs.one hmsg) ?_ hcalls ?_
    · rw [hechoes, hserver]
      exact hs.calls
    · rw [hwaiting, List.map_append, hs.waiting, hqueue, hserver, ← hbytes]
      rcases hq : (s.server.mClientInfos i).sends.mSendQueue with - | ⟨front, q⟩ <;> simp

/-- A step of the server that gives no message to `SendMsg`. -/
theorem counted_completion {s' : EchoConnections} {server : IOCPServer} {e' : ServerEvent}
    (hs : s.Counted i) (hserver : s'.server = s.server) (hechoes : s'.echoes i = s.echoes i)
    (hwaiting : (s'.traffic i).waiting = (s.traffic i).waiting)
    (hmsg : ∀ pMsg wsaSend, e' ≠ .sendMsg i pMsg wsaSend)
    (h : serverStep s.server e' = some server) : (s'.serve i server).Counted i := by
  have hsends := sends_of_step h i
  have hone := hsends.oneAtATime hs.one
  have hcalls : (s'.echoes i).map (fun x => x.chunk.map RecvByte.byte) =
      (s'.server.mClientInfos i).sends.calls.map StOverlappedEx.bytes := by
    rw [hechoes, hserver]
    exact hs.calls
  have hkept (hq : (server.mClientInfos i).sends.mSendQueue =
        (s.server.mClientInfos i).sends.mSendQueue)
      (hc : (server.mClientInfos i).sends.calls = (s.server.mClientInfos i).sends.calls) :
      (s'.serve i server).Counted i := by
    refine counted_serve [] hone hcalls ?_ ?_
    · rw [hserver, hc, List.append_nil]
    · rw [hwaiting, hs.waiting, List.nil_append, hq]
  cases hsends with
  | sendMsg pMsg wsaSend h => exact absurd rfl (hmsg pMsg wsaSend)
  | sent c k outcomes r hsend hsuccess hk hr hleft =>
    obtain ⟨front, q, hq, hqueue, hcalled, -⟩ := sendCompleted_cases hs.one hk hr hleft
    refine counted_serve q.head?.toList hone hcalls ?_ ?_
    · rw [hserver]
      exact hcalled
    · rw [hwaiting, hs.waiting, hq, hqueue, List.tail_cons]
      cases q <;> rfl
  | failed c k outcomes hsend hfails hk hleft =>
    rw [hleft] at hkept
    exact hkept rfl rfl
  | kept e hnone hleft => exact hkept (by rw [hleft]) (by rw [hleft])

theorem counted_of_step (hs : s.Counted i) (h : connectionStep s e = some t) : t.Counted i := by
  obtain ⟨e', s', server, hprepared, hserver, rfl⟩ |
    ⟨j, k, bytes, socket, rfl, hreceive, hsocket, hne, hlength, rfl⟩ | ⟨rfl, h⟩ :=
    connectionStep_cases h
  · by_cases hi : i = e'.client
    · subst hi
      have hechoes := hprepared.echoes e'.client
      have hserver' := hprepared.server
      cases hprepared with
      | postAccept j curTimeSec wsaSocket acceptEx =>
        exact counted_completion hs rfl rfl rfl (fun _ _ h => by cases h) hserver
      | received c k outcomes receive hrecv hreceive hof =>
        exact counted_completion hs rfl hechoes (by simp [ServerEvent.client])
          (fun _ _ h => by cases h) hserver
      | completed c k outcomes hrecv =>
        exact counted_completion hs rfl rfl rfl (fun _ _ h => by cases h) hserver
      | sendMsg packetData wsaSend hhand =>
        exact counted_sendMsg hs rfl hechoes (by simp [ServerEvent.client]) rfl hserver
    · refine hs.congr ?_ ?_ ?_
      · exact congrArg NetworkClient.sends (client_of_ne hserver hi)
      · rw [EchoConnections.echoes, serve_traffic_of_ne hi, hprepared.traffic_of_ne hi]
        rfl
      · rw [serve_traffic_of_ne hi, hprepared.traffic_of_ne hi]
  · refine hs.congr rfl ?_ ?_
    · refine setTraffic_echoes ?_ i
      rfl
    · by_cases hi : i = j
      · subst hi
        rw [setTraffic_self]
        rfl
      · rw [setTraffic_of_ne hi]
  · obtain ⟨hserver, -, htraffic⟩ := dequePacketData_traffic h
    refine hs.congr ?_ ?_ ?_
    · rw [hserver]
    · rw [EchoConnections.echoes, htraffic]
      rfl
    · rw [htraffic]

/-- In every run the messages given to `WSASend` for a client are the chunks with bytes that were
received for it on all its connections, in their order and from the first one on; and none of them
goes back to a connection before the one that it came from. -/
theorem echoes_forward (es : List ConnectionEvent) (s : EchoConnections)
    (h : run connectionStep {} es = some s) (i : ℕ) : s.Echoed i := by
  have hlocated : s.Located := run_invariant (fun _ _ _ hs hst => located_of_step hs hst)
    ⟨fun _ => rfl, fun _ hnone => absurd hnone (Option.not_mem_none _)⟩ h
  have hcounted : s.Counted i := run_invariant (P := fun s : EchoConnections => s.Counted i)
    (fun _ _ _ hs hst => counted_of_step hs hst)
    ⟨⟨⟨[], rfl, rfl⟩, Or.inl rfl, rfl, rfl⟩, rfl, rfl⟩ h
  have hknown : s.Known i := run_invariant (P := fun s : EchoConnections => s.Known i)
    (fun _ _ _ hs hst => known_of_step hs hst) ?_ h
  · refine ⟨hcounted.calls.symm, ?_, hknown.sent⟩
    rw [← hlocated.chunks i, EchoConnections.chunks, List.append_assoc, List.append_assoc]
    exact List.prefix_append _ _
  · refine ⟨nofun, ?_, nofun⟩
    rintro b ((⟨_, h, -⟩ | ⟨_, h, -⟩) | ⟨_, h, -⟩ | ⟨_, h, -⟩) <;> cases h

/-- The first connection is closed while its chunk is in the packet queue, and the second one is
sent its bytes. -/
theorem echo_on_next_connection :
    ∃ s, run connectionStep {} [.postAccept 0 10 true true,
        .completion ⟨.ACCEPT, 0, true, 0⟩ 0 {}, .arrives 0 0 [1, 2],
        .completion ⟨.RECV, 0, true, 2⟩ 0 {}, .completion ⟨.RECV, 0, false, 0⟩ 0 { now := 20 },
        .postAccept 0 30 true true, .completion ⟨.ACCEPT, 0, true, 0⟩ 0 {}, .dequePacketData,
        .dequePacketData, .sendMsg true] = some s ∧
      s.echoes 0 = [⟨[⟨0, 1⟩, ⟨0, 2⟩], some 1⟩] ∧ s.Echoed 0 :=
  ⟨_, rfl, rfl, echoes_forward [.postAccept 0 10 true true,
    .completion ⟨.ACCEPT, 0, true, 0⟩ 0 {}, .arrives 0 0 [1, 2],
    .completion ⟨.RECV, 0, true, 2⟩ 0 {}, .completion ⟨.RECV, 0, false, 0⟩ 0 { now := 20 },
    .postAccept 0 30 true true, .completion ⟨.ACCEPT, 0, true, 0⟩ 0 {}, .dequePacketData,
    .dequePacketData, .sendMsg true] _ rfl 0⟩

end IocpStudy.Iocpsolution
