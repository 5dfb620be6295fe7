import IocpStudy.StudyServer.Isolation

/-! The stale content of pooled packets.  `GetPacket` fills a pooled `Packet` up to the length of
the received body, and leaves what the object held behind it; `Echo` copies no more than that
length into a packet of its own, and that packet overwrites the pooled one that is sent.  So what
the objects in the pool held before is never sent. -/

namespace IocpStudy.StudyServer

open Runs Words

/-- The packet without what its object held behind the body. -/
def Packet.wiped (p : Packet) : Packet := { p with Body := Memory.write (fun _ => 0) 0 p.body }

def NetworkDispatcher.map {α β : Type} (f : α → β) (d : NetworkDispatcher α) :
    NetworkDispatcher β :=
  { mPacketQueue := d.mPacketQueue.map f, mWorkQueue := d.mWorkQueue.map f, i := d.i }

namespace NetworkManager

/-- The manager with other objects in the pool and in the dispatcher. -/
def holding (m : NetworkManager) (pool : MemoryPool Packet) (d : NetworkDispatcher Packet) :
    NetworkManager :=
  { m with mPacketPool := pool, dispatcher := d }

/-- The managers agree on everything but the objects in the pool and what the packets in the
dispatcher hold behind their bodies. -/
def Alike (m m' : NetworkManager) : Prop :=
  ∃ pool d, m' = m.holding pool d ∧ d.map Packet.wiped = m.dispatcher.map Packet.wiped

/-- A packet on its way: `GetPacket` takes it out of the receive context of `o`, and when it has
been stamped with the session ID, the service processes it. -/
def echoed (m : NetworkManager) (o : ClientRef) (receivedOn : Option Socket) (wsaSend : Bool) :
    NetworkManager :=
  let got := (m.clients o).getPacket m.mPacketPool
  let m := { m.setClient o got.client with mPacketPool := got.packetPool }
  match got.packet with
  | none => m
  | some packet =>
    m.processed { packet with SessionID := got.client.mSessionID, receivedOn } wsaSend

end NetworkManager

/-! ### One packet -/

theorem Packet.body_wiped (p : Packet) : p.wiped.body = p.body := by
  show (Memory.write (fun _ => 0) 0 p.body).slice 0 p.BodyLength.toNat = p.body
  exact Memory.slice_write_eq _ (Packet.length_body p).symm

theorem processPacket_wiped (p : Packet) :
    Service.processPacket p.wiped = Service.processPacket p := by
  have hecho : Service.echo p.wiped = Service.echo p := by
    rw [Service.echo, Service.echo, Packet.body_wiped]
    rfl
  rw [Service.processPacket, Service.processPacket, hecho]
  rfl

/-- The service does the same for packets that are the same but for their stale content. -/
theorem processPacket_congr {p p' : Packet} (h : p'.wiped = p.wiped) :
    Service.processPacket p' = Service.processPacket p := by
  rw [← processPacket_wiped p', h, processPacket_wiped p]

/-- Whatever object `GetPacket` fills, the packet that is stamped is the same but for its stale
content. -/
theorem getPacket_of_pool (c : NetworkClient) (pool pool' : MemoryPool Packet) (sid : UInt32)
    (receivedOn : Option Socket) :
    (c.getPacket pool').client = (c.getPacket pool).client ∧
      Option.Rel (fun p p' : Packet =>
          Packet.wiped { p' with SessionID := sid, receivedOn } =
            Packet.wiped { p with SessionID := sid, receivedOn })
        (c.getPacket pool).packet (c.getPacket pool').packet := by
  rw [NetworkClient.getPacket, NetworkClient.getPacket]
  simp only
  split_ifs
  · exact ⟨rfl, .none⟩
  · exact ⟨rfl, .none⟩
  · split
    · exact ⟨rfl, .none⟩
    · refine ⟨rfl, .some ?_⟩
      simp only [Packet.wiped, Packet.body]
      rw [Memory.slice_write_eq _ (by simp [NetworkPacket.getBodySize]),
        Memory.slice_write_eq _ (by simp [NetworkPacket.getBodySize])]

section Dispatcher

variable {α β : Type} (f : α → β)

theorem NetworkDispatcher.map_pushPacket (d : NetworkDispatcher α) (packet : α) :
    (d.pushPacket packet).map f = (d.map f).pushPacket (f packet) := by
  simp [NetworkDispatcher.map, NetworkDispatcher.pushPacket]

theorem NetworkDispatcher.map_swapQueues (d : NetworkDispatcher α) :
    d.swapQueues.map f = (d.map f).swapQueues := by
  cases hqueue : d.mPacketQueue <;>
    simp [NetworkDispatcher.map, NetworkDispatcher.swapQueues, hqueue]

theorem NetworkDispatcher.map_processNext (d : NetworkDispatcher α) (i : ℕ) :
    (d.map f).processNext i = ((d.processNext i).1.map f, (d.processNext i).2.map f) := by
  simp only [NetworkDispatcher.map, NetworkDispatcher.processNext, List.length_map]
  split_ifs
  · simp
  · rfl

end Dispatcher

/-! ### The functions of the manager -/

namespace NetworkManager

variable {m m' t : NetworkManager} {p p' : Packet} {o : ClientRef}
  {pool : MemoryPool Packet} {d : NetworkDispatcher Packet} {e : NetworkEvent}

@[simp] theorem holding_clients : (m.holding pool d).clients = m.clients := rfl

@[simp] theorem allows_holding (outcome : Bool) :
    (m.holding pool d).allows o outcome = m.allows o outcome := rfl

theorem called_holding (m : NetworkManager) (pool : MemoryPool Packet)
    (d : NetworkDispatcher Packet) (o : ClientRef) (result : SendResult) :
    ∃ pool', (m.holding pool d).called o result = (m.called o result).holding pool' d :=
  ⟨_, rfl⟩

theorem pushSendPacket_holding (m : NetworkManager) (pool : MemoryPool Packet)
    (d : NetworkDispatcher Packet) (sessionID : ℤ) (packet : Packet) (wsaSend : Bool) :
    ∃ pool', (m.holding pool d).pushSendPacket sessionID packet wsaSend =
      (m.pushSendPacket sessionID packet wsaSend).holding pool' d := by
  unfold holding pushSendPacket
  dsimp only
  split_ifs
  · exact ⟨_, rfl⟩
  rcases m.mClientList[sizeTOfInt sessionID]? with - | (- | o)
  · exact ⟨_, rfl⟩
  · exact ⟨_, rfl⟩
  dsimp only
  split_ifs
  · exact ⟨_, rfl⟩
  · exact ⟨_, rfl⟩
  · exact ⟨_, rfl⟩

theorem processed_holding (m : NetworkManager) (pool : MemoryPool Packet)
    (d : NetworkDispatcher Packet) (h : p'.wiped = p.wiped) (wsaSend : Bool) :
    ∃ pool', (m.holding pool d).processed p' wsaSend = (m.processed p wsaSend).holding pool' d := by
  rw [processed, processed, processPacket_congr h]
  cases Service.processPacket p with
  | none => exact ⟨_, rfl⟩
  | some response =>
    obtain ⟨sessionID, packet⟩ := response
    obtain ⟨pool₁, h₁⟩ := pushSendPacket_holding m (m.mPacketPool.acquire {}).2 m.dispatcher
      sessionID packet wsaSend
    obtain ⟨pool₂, h₂⟩ := pushSendPacket_holding m (pool.acquire {}).2 d sessionID packet wsaSend
    have hsend : m.sendFunction sessionID packet wsaSend =
        (m.pushSendPacket sessionID packet wsaSend).holding pool₁ m.dispatcher := h₁
    have hsend' : (m.holding pool d).sendFunction sessionID packet wsaSend =
        (m.pushSendPacket sessionID packet wsaSend).holding pool₂ d := h₂
    simp only [hsend, hsend']
    exact ⟨_, rfl⟩

theorem dispatcher_processed (m : NetworkManager) (p : Packet) (wsaSend : Bool) :
    (m.processed p wsaSend).dispatcher = m.dispatcher := by
  obtain ⟨pool, hsame⟩ := processed_holding m m.mPacketPool m.dispatcher (rfl : p.wiped = p.wiped)
    wsaSend
  have h := congrArg dispatcher hsame
  exact h

theorem echoed_holding (m : NetworkManager) (pool : MemoryPool Packet)
    (d : NetworkDispatcher Packet) (o : ClientRef) (receivedOn : Option Socket) (wsaSend : Bool) :
    ∃ pool', (m.holding pool d).echoed o receivedOn wsaSend =
      (m.echoed o receivedOn wsaSend).holding pool' d := by
  obtain ⟨hclient, hpacket⟩ := getPacket_of_pool (m.clients o) m.mPacketPool pool
    ((m.clients o).getPacket m.mPacketPool).client.mSessionID receivedOn
  have hpool : (m.holding pool d).mPacketPool = pool := rfl
  rw [echoed, echoed, holding_clients, hpool]
  simp only [hclient]
  generalize ((m.clients o).getPacket m.mPacketPool).packet = packet,
    ((m.clients o).getPacket pool).packet = packet' at hpacket
  cases hpacket with
  | none => exact ⟨_, rfl⟩
  | some hwiped =>
    obtain ⟨pool', hprocessed⟩ := processed_holding
      { m.setClient o ((m.clients o).getPacket m.mPacketPool).client with
        mPacketPool := ((m.clients o).getPacket m.mPacketPool).packetPool }
      ((m.clients o).getPacket pool).packetPool d hwiped wsaSend
    exact ⟨pool', hprocessed⟩

theorem removeClient_holding (m : NetworkManager) (pool : MemoryPool Packet)
    (d : NetworkDispatcher Packet) (sessionID : UInt32) (now : ℕ) :
    (m.holding pool d).removeClient sessionID now =
      (m.removeClient sessionID now).holding pool d := by
  unfold holding removeClient
  dsimp only
  split_ifs
  · rfl
  rcases m.mClientList[sessionID.toNat]? with - | (- | o) <;> rfl

theorem takeClient_holding (m : NetworkManager) (pool : MemoryPool Packet)
    (d : NetworkDispatcher Packet) (now : ℕ) :
    (m.holding pool d).takeClient now =
      ((m.takeClient now).1, (m.takeClient now).2.holding pool d) := by
  have hreused : (m.holding pool d).reused now = m.reused now := rfl
  rw [takeClient, takeClient, hreused]
  cases m.reused now <;> rfl

theorem addClient_holding (m : NetworkManager) (pool : MemoryPool Packet)
    (d : NetworkDispatcher Packet) (o : ClientRef) (wsaRecv : Bool) :
    (m.holding pool d).addClient o wsaRecv =
      ((m.addClient o wsaRecv).1.holding pool d, (m.addClient o wsaRecv).2) := by
  unfold holding addClient
  dsimp only [allows, setClient]
  cases ((m.clients o).receive (wsaRecv && (m.clients o).mSocket.isSome)).2 with
  | none => rfl
  | some wsaBuf =>
    dsimp only
    split_ifs <;> rfl

theorem handleAccept_holding (m : NetworkManager) (pool : MemoryPool Packet)
    (d : NetworkDispatcher Packet) (now : ℕ) (accepted wsaRecv posted : Bool) :
    (m.holding pool d).handleAccept now accepted wsaRecv posted =
      (m.handleAccept now accepted wsaRecv posted).holding pool d := by
  cases accepted with
  | false => rfl
  | true =>
    rcases htake : takeClient { m with accepted := m.accepted + 1, accepting := false } now
      with ⟨o, t⟩
    have htake' : takeClient { m.holding pool d with
        accepted := (m.holding pool d).accepted + 1, accepting := false } now =
        (o, t.holding pool d) := by
      have h := takeClient_holding { m with accepted := m.accepted + 1, accepting := false }
        pool d now
      rw [htake] at h
      exact h
    have hadd := addClient_holding (t.setClient o { (t.clients o).reset.init with
      mSocket := some m.accepted }) pool d o wsaRecv
    rw [handleAccept, handleAccept]
    simp only [Bool.true_eq_false, if_false, htake, htake']
    rcases hadded : (t.setClient o { (t.clients o).reset.init with
      mSocket := some m.accepted }).addClient o wsaRecv with ⟨u, added⟩
    rw [hadded] at hadd
    have hadd' : ((t.holding pool d).setClient o { ((t.holding pool d).clients o).reset.init with
        mSocket := some (m.holding pool d).accepted }).addClient o wsaRecv =
        (u.holding pool d, added) := hadd
    simp only [hadd']
    split_ifs <;> rfl

/-- The client and the receive that `_HandleReceive` posts do not depend on the pool, and the packet
that it pushes only in its stale content. -/
theorem handleReceive_of_pool (c : NetworkClient) (pool pool' : MemoryPool Packet) (n : ℕ)
    (wsaRecv : Bool) (receivedOn : Option Socket) :
    (handleReceive c pool' true n wsaRecv receivedOn).client =
        (handleReceive c pool true n wsaRecv receivedOn).client ∧
      (handleReceive c pool' true n wsaRecv receivedOn).posted =
        (handleReceive c pool true n wsaRecv receivedOn).posted ∧
      Option.Rel (fun p p' : Packet => p'.wiped = p.wiped)
        (handleReceive c pool true n wsaRecv receivedOn).pushed
        (handleReceive c pool' true n wsaRecv receivedOn).pushed := by
  rw [handleReceive, handleReceive]
  split_ifs
  · exact ⟨rfl, rfl, .none⟩
  cases c.mReceiveContext.writeSize n with
  | none => exact ⟨rfl, rfl, .none⟩
  | some context =>
    obtain ⟨hclient, hpacket⟩ := getPacket_of_pool { c with mReceiveContext := context } pool pool'
      (NetworkClient.getPacket { c with mReceiveContext := context } pool).client.mSessionID
      receivedOn
    simp only [dispatchReceived, hclient]
    generalize (NetworkClient.getPacket { c with mReceiveContext := context } pool).packet = packet,
      (NetworkClient.getPacket { c with mReceiveContext := context } pool').packet = packet'
      at hpacket
    cases hpacket with
    | none => exact ⟨rfl, rfl, .none⟩
    | some hwiped => exact ⟨rfl, rfl, .some hwiped⟩

theorem Alike.symm (h : Alike m m') : Alike m' m := by
  obtain ⟨pool, d, rfl, hd⟩ := h
  exact ⟨m.mPacketPool, m.dispatcher, rfl, hd.symm⟩

/-- A function that the pool and the dispatcher make no difference to keeps managers alike. -/
theorem alike_of_holding {f : NetworkManager → NetworkManager}
    (hf : ∀ pool d, ∃ pool', f (m.holding pool d) = (f m).holding pool' d)
    (hd : d.map Packet.wiped = m.dispatcher.map Packet.wiped) :
    Alike (f m) (f (m.holding pool d)) := by
  obtain ⟨pool', hpool⟩ := hf pool d
  obtain ⟨pool₀, hsame⟩ := hf m.mPacketPool m.dispatcher
  have hdispatcher : (f m).dispatcher = m.dispatcher := by
    have h := congrArg dispatcher hsame
    exact h
  exact ⟨pool', d, hpool, hdispatcher ▸ hd⟩

theorem alike_handleReceived (recv : PendingRecv) (n : ℕ) (wsaRecv : Bool)
    (hd : d.map Packet.wiped = m.dispatcher.map Packet.wiped) :
    Alike (m.handleReceived recv n wsaRecv) ((m.holding pool d).handleReceived recv n wsaRecv) := by
  obtain ⟨hclient, hposted, hpushed⟩ := handleReceive_of_pool (m.clients recv.client)
    m.mPacketPool pool n (m.allows recv.client wsaRecv) recv.socket
  have hpool : (m.holding pool d).mPacketPool = pool := rfl
  have hdispatcher : (m.holding pool d).dispatcher = d := rfl
  rw [handleReceived, handleReceived]
  simp only [holding_clients, allows_holding, hpool, hdispatcher, hclient, hposted]
  generalize (handleReceive (m.clients recv.client) m.mPacketPool true n
    (m.allows recv.client wsaRecv) recv.socket).pushed = pushed,
    (handleReceive (m.clients recv.client) pool true n
    (m.allows recv.client wsaRecv) recv.socket).pushed = pushed' at hpushed
  cases hpushed with
  | none => exact ⟨_, d, rfl, hd⟩
  | some hwiped =>
    refine ⟨_, _, rfl, ?_⟩
    simp only [Option.toList_some, List.foldl_cons, List.foldl_nil,
      NetworkDispatcher.map_pushPacket, hd, hwiped]

theorem dispatcher_i (hd : d.map Packet.wiped = m.dispatcher.map Packet.wiped) :
    d.i = m.dispatcher.i := by
  have h := congrArg NetworkDispatcher.i hd
  exact h

/-- A step of one manager can happen in an alike one, and leaves managers that are alike. -/
theorem alike_step (h : Alike m m') (hstep : networkStep m e = some t) :
    ∃ t', networkStep m' e = some t' ∧ Alike t t' := by
  obtain ⟨pool, d, rfl, hd⟩ := h
  have hi := dispatcher_i hd
  have hnext (i : ℕ) : (d.processNext i).1.map Packet.wiped =
        (m.dispatcher.processNext i).1.map Packet.wiped ∧
      (d.processNext i).2.map Packet.wiped = (m.dispatcher.processNext i).2.map Packet.wiped := by
    apply Prod.mk.inj
    rw [← NetworkDispatcher.map_processNext, ← NetworkDispatcher.map_processNext, hd]
  cases steps_of_networkStep hstep with
  | accept now accepted wsaRecv posted h =>
    exact ⟨_, Steps.networkStep (.accept now accepted wsaRecv posted h),
      alike_of_holding (f := fun m => m.handleAccept now accepted wsaRecv posted)
        (fun pool d => ⟨pool, handleAccept_holding m pool d now accepted wsaRecv posted⟩) hd⟩
  | acceptFailed now h =>
    exact ⟨_, Steps.networkStep (.acceptFailed now h),
      alike_of_holding (f := fun m => removeClient { m with accepting := false } 0 now)
        (fun pool d => ⟨pool, removeClient_holding { m with accepting := false } pool d 0 now⟩) hd⟩
  | arrive bytes hget h =>
    exact ⟨_, Steps.networkStep (.arrive bytes hget h), pool, d, rfl, hd⟩
  | @received i n recv wsaRecv hget h =>
    exact ⟨_, Steps.networkStep (.received wsaRecv hget h),
      alike_handleReceived (m := { m with recvs := m.recvs.eraseIdx i }) recv n wsaRecv hd⟩
  | @receiveFailed i recv now hget h =>
    exact ⟨_, Steps.networkStep (.receiveFailed now hget h),
      alike_of_holding (f := fun m => removeClient { m with recvs := m.recvs.eraseIdx i }
          (m.clients recv.client).mSessionID now)
        (fun pool d => ⟨pool, removeClient_holding { m with recvs := m.recvs.eraseIdx i } pool d
          (m.clients recv.client).mSessionID now⟩) hd⟩
  | @sent i n send wsaSend hget h =>
    exact ⟨_, Steps.networkStep (.sent wsaSend hget h),
      alike_of_holding (f := fun m => called { m with sends := m.sends.eraseIdx i } send.client
          ((m.clients send.client).handleSend n (m.allows send.client wsaSend)))
        (fun pool d => called_holding { m with sends := m.sends.eraseIdx i } pool d send.client
          ((m.clients send.client).handleSend n (m.allows send.client wsaSend))) hd⟩
  | @sendFailed i send now hget =>
    exact ⟨_, Steps.networkStep (.sendFailed now hget),
      alike_of_holding (f := fun m => removeClient { m with sends := m.sends.eraseIdx i }
          (m.clients send.client).mSessionID now)
        (fun pool d => ⟨pool, removeClient_holding { m with sends := m.sends.eraseIdx i } pool d
          (m.clients send.client).mSessionID now⟩) hd⟩
  | swap h =>
    refine ⟨_, Steps.networkStep (.swap (hi.trans h)), pool, d.swapQueues, rfl, ?_⟩
    rw [NetworkDispatcher.map_swapQueues, NetworkDispatcher.map_swapQueues, hd]
  | @finished i wsaSend h hpacket =>
    have hnone : (d.processNext i).2 = none := by
      rw [← Option.map_eq_none_iff, (hnext i).2, hpacket, Option.map_none]
    exact ⟨_, Steps.networkStep (.finished wsaSend (hi.trans h) hnone), pool, _, rfl, (hnext i).1⟩
  | @process i p wsaSend h hpacket =>
    obtain ⟨hrest, hmap⟩ := hnext i
    rw [hpacket, Option.map_some, Option.map_eq_some_iff] at hmap
    obtain ⟨p', hpacket', hwiped⟩ := hmap
    obtain ⟨pool', hprocessed⟩ := processed_holding
      { m with dispatcher := (m.dispatcher.processNext i).1 } pool (d.processNext i).1 hwiped
      wsaSend
    refine ⟨_, Steps.networkStep (.process wsaSend (hi.trans h) hpacket'), pool', _, hprocessed, ?_⟩
    rw [dispatcher_processed]
    exact hrest

end NetworkManager

/-- What the objects in the pool held before makes no difference to a run: the same events can
happen, and they leave the same clients and send the same bytes. -/
theorem run_of_pools (m : NetworkManager) (pool pool' : MemoryPool Packet)
    (es : List NetworkEvent) :
    Option.map (fun t => (t.clients, t.transmissions))
        (run networkStep { m with mPacketPool := pool' } es) =
      Option.map (fun t => (t.clients, t.transmissions))
        (run networkStep { m with mPacketPool := pool } es) := by
  have halike : NetworkManager.Alike { m with mPacketPool := pool }
      { m with mPacketPool := pool' } := ⟨pool', m.dispatcher, rfl, rfl⟩
  have hsim {m m' t : NetworkManager} (h : m.Alike m') (hrun : run networkStep m es = some t) :
      ∃ t', run networkStep m' es = some t' ∧ t.Alike t' :=
    run_simulates (fun _ _ _ _ h hst => NetworkManager.alike_step h hst) h hrun
  cases hrun : run networkStep { m with mPacketPool := pool } es with
  | some t =>
    obtain ⟨t', hrun', pool₁, d, rfl, -⟩ := hsim halike hrun
    rw [hrun']
    rfl
  | none =>
    cases hrun' : run networkStep { m with mPacketPool := pool' } es with
    | none => rfl
    | some t' =>
      obtain ⟨t, ht, -⟩ := hsim halike.symm hrun'
      rw [hrun] at ht
      cases ht

/-- The echo of a request, through an object that held a longer packet of another client. -/
example : (run networkStep
    { mPacketPool := ⟨[{ BodyLength := 40, PacketID := 7, SessionID := 5, Body := fun _ => 255 }]⟩ }
    [.accept 10 true true true, .arrive 0 [1, 0, 0, 0, 1, 0, 0, 0, 9, 9, 9, 9, 65],
      .received 0 true, .swap, .process true]).map (fun t =>
        t.transmissions.map Transmission.bytes) =
    some [[1, 0, 0, 0, 1, 0, 0, 0, 0, 0, 0, 0, 65]] := rfl

/-- The bytes that an echoed packet leaves in the send contexts, and those that are sent, do not
depend on what the objects in the pool held before. -/
theorem echoed_of_pools (m : NetworkManager) (pool pool' : MemoryPool Packet) (o : ClientRef)
    (receivedOn : Option Socket) (wsaSend : Bool) :
    (NetworkManager.echoed { m with mPacketPool := pool' } o receivedOn wsaSend).clients =
        (NetworkManager.echoed { m with mPacketPool := pool } o receivedOn wsaSend).clients ∧
      (NetworkManager.echoed { m with mPacketPool := pool' } o receivedOn wsaSend).transmissions =
        (NetworkManager.echoed { m with mPacketPool := pool } o receivedOn
          wsaSend).transmissions := by
  obtain ⟨pool₁, h₁⟩ := NetworkManager.echoed_holding { m with mPacketPool := pool } pool'
    m.dispatcher o receivedOn wsaSend
  have h : NetworkManager.echoed { m with mPacketPool := pool' } o receivedOn wsaSend = _ := h₁
  rw [h]
  exact ⟨rfl, rfl⟩

end IocpStudy.StudyServer
