import IocpStudy.Lib.Outbox
import IocpStudy.StudyServer.ClientList
import IocpStudy.StudyServer.PacketPool

/-! The packets of the whole server, from the dispatcher's queue to the wire.  Whatever becomes of
the connections and of the objects that serve them, each packet processed is answered at most once,
each object sends the responses in the order in which they were queued for it, and the bytes of
every `WSASend` are those of such a response. -/

namespace IocpStudy.StudyServer

open Words Runs Relation

namespace NetworkManager

/-- The packet that the handler of a receive completion gives to `PushPacket`. -/
def pushes (m : NetworkManager) : NetworkEvent → List Packet
  | .received i wsaRecv =>
    m.recvs[i]?.toList.flatMap fun recv =>
      (handleReceive (m.clients recv.client) m.mPacketPool true (recv.transferred.getD 0)
        (m.allows recv.client wsaRecv) recv.socket).pushed.toList
  | _ => []

/-- The packet given to `ProcessPacket`. -/
def processes (m : NetworkManager) : NetworkEvent → List Packet
  | .process _ => m.dispatcher.i.toList.flatMap fun i => (m.dispatcher.processNext i).2.toList
  | _ => []

/-- The object that `PushSendPacket` finds for a session ID, if that is connected. -/
def recipient (m : NetworkManager) (sessionID : ℤ) : Option ClientRef :=
  if sessionID < 0 ∨ m.mClientList.length ≤ sizeTOfInt sessionID then none
  else
    match m.mClientList[sizeTOfInt sessionID]? with
    | some (some o) => if (m.clients o).mIsConnected then some o else none
    | _ => none

/-- The response of the service to the packet, with the object whose queue it is put into. -/
def answer (m : NetworkManager) (packet : Packet) : Option (ClientRef × Packet) :=
  (Service.processPacket packet).bind fun response =>
    (m.recipient response.1).map fun o => (o, response.2)

/-- The responses put into send queues. -/
def queues (m : NetworkManager) (e : NetworkEvent) : List (ClientRef × Packet) :=
  (m.processes e).filterMap m.answer

/-- The object that may call `Send`. -/
def callers (m : NetworkManager) : NetworkEvent → List ClientRef
  | .sent i _ _ => m.sends[i]?.toList.map PendingSend.client
  | .process wsaSend => (m.queues (.process wsaSend)).map Prod.fst
  | _ => []

end NetworkManager

/-- The manager, with the packets given to `PushPacket` and to `ProcessPacket`, the responses put
into send queues, and the `WSASend` calls accepted, each with its object. -/
structure EchoState where
  manager : NetworkManager
  pushed : List Packet := []
  processed : List Packet := []
  queued : List (ClientRef × Packet) := []
  calls : List (ClientRef × Transmission) := []

def echoStep (s : EchoState) (e : NetworkEvent) : Option EchoState :=
  (networkStep s.manager e).map fun manager =>
    let submitted := manager.transmissions.drop s.manager.transmissions.length
    { manager
      pushed := s.pushed ++ s.manager.pushes e
      processed := s.processed ++ s.manager.processes e
      queued := s.queued ++ s.manager.queues e
      calls := s.calls ++ (s.manager.callers e).flatMap fun o => submitted.map fun t => (o, t) }

/-- What a list of pairs has for the object `o`. -/
def ofClient {α : Type} (o : ClientRef) (l : List (ClientRef × α)) : List α :=
  (l.filter fun x => x.1 = o).map Prod.snd

/-- The responses of an object, from its send queue to its `WSASend` calls. -/
def EchoState.outbox (s : EchoState) (o : ClientRef) : Outbox Packet :=
  { put := ofClient o s.queued
    queue := (s.manager.clients o).mSendQueue
    current := (s.manager.clients o).sending
    calls := (ofClient o s.calls).filterMap Transmission.packet }

/-- The dispatcher, as a state of its own machine. -/
def EchoState.dispatch (s : EchoState) : DispatchState Packet :=
  ⟨s.manager.dispatcher, s.pushed, s.processed⟩

/-- The bytes of a `WSASend` are the end of the packet that it sends. -/
def Transmission.Carries (t : Transmission) : Prop :=
  ∃ p, t.packet = some p ∧ t.bytes ≠ [] ∧ t.bytes <:+ p.encode

/-- No packet is lost on the way to `ProcessPacket`, each one processed is answered at most once and
in the order of processing, and each object sends what was queued for it, in order. -/
structure EchoState.Answers (s : EchoState) : Prop where
  conserved : s.dispatch.Conserved
  once : (s.queued.map Prod.snd).Sublist
    (s.processed.filterMap fun p => (Service.processPacket p).map Prod.snd)
  inOrder : ∀ o, (s.outbox o).InOrder
  calls : s.calls.map Prod.snd = s.manager.transmissions
  carries : ∀ t ∈ s.manager.transmissions, t.Carries
  echoes : ∀ t ∈ s.manager.transmissions, ∃ p ∈ s.processed, t.bytes <:+ p.encode

/-! ### One object -/

/-- The unread bytes of the send context are the end of the packet that is being sent. -/
structure NetworkClient.Carries (c : NetworkClient) : Prop where
  ordered : c.mSendContext.Ordered
  content : c.mSendContext.unread ≠ [] →
    ∃ p, c.sending = some p ∧ c.mSendContext.unread <:+ p.encode

/-- The client is ready to send, and goes from `c` to `c'` by moves of its outbox that put the
packets `put` in and make the calls `calls`. -/
structure NetworkClient.Passes (c c' : NetworkClient) (put : List Packet)
    (calls : List Transmission) : Prop where
  carries : c'.Carries
  sent : ∀ t ∈ calls, t.Carries
  moves : ∀ done called, ReflTransGen Outbox.Move
    ⟨done, c.mSendQueue, c.sending, called⟩
    ⟨done ++ put, c'.mSendQueue, c'.sending, called ++ calls.filterMap Transmission.packet⟩

/-- The accepted `WSASend` of a call, if it made one. -/
def SendResult.transmissions (result : SendResult) (socket : Option Socket) : List Transmission :=
  result.submitted.toList.map fun sub => ⟨socket, result.client.sending, sub.bytes⟩

namespace NetworkClient

variable {c c' c'' : NetworkClient} {put put' : List Packet} {calls calls' : List Transmission}
  {wsaSend : Bool} {socket : Option Socket}

theorem Passes.trans (h : c.Passes c' put calls) (h' : c'.Passes c'' put' calls') :
    c.Passes c'' (put ++ put') (calls ++ calls') := by
  refine ⟨h'.carries, fun t ht => ?_, fun done called => ?_⟩
  · exact (List.mem_append.mp ht).elim (h.sent t) (h'.sent t)
  · have hrest := h'.moves (done ++ put) (called ++ calls.filterMap Transmission.packet)
    rw [List.append_assoc, List.append_assoc, ← List.filterMap_append] at hrest
    exact (h.moves done called).trans hrest

/-- A client whose send queue and packet stay, and whose send context has nothing to send or stays
too. -/
theorem Carries.passes (hc : c'.Carries) (hqueue : c'.mSendQueue = c.mSendQueue)
    (hsending : c'.sending = c.sending) : c.Passes c' [] [] := by
  refine ⟨hc, fun _ ht => absurd ht List.not_mem_nil, fun done called => ?_⟩
  rw [hqueue, hsending, List.append_nil]
  exact (List.append_nil called).symm ▸ .refl

theorem Carries.congr (hc : c.Carries) (hcontext : c'.mSendContext = c.mSendContext)
    (hsending : c'.sending = c.sending) : c'.Carries := by
  constructor
  · rw [hcontext]
    exact hc.ordered
  · rw [hcontext, hsending]
    exact hc.content

/-- A client that changes neither what it has to send nor what it sends. -/
theorem Carries.kept (hc : c.Carries) (hcontext : c'.mSendContext = c.mSendContext)
    (hqueue : c'.mSendQueue = c.mSendQueue) (hsending : c'.sending = c.sending) :
    c.Passes c' [] [] := (hc.congr hcontext hsending).passes hqueue hsending

theorem carries_of_unread (hord : c.mSendContext.Ordered) (hempty : c.mSendContext.unread = []) :
    c.Carries := ⟨hord, fun hne => absurd hempty hne⟩

theorem Carries.submit (hc : c.Carries) (hunread : c.mSendContext.unread ≠ [])
    (wsaSend : Bool) (socket : Option Socket) :
    c.Passes (c.submit wsaSend).client [] ((c.submit wsaSend).transmissions socket) := by
  have hclient : (c.submit wsaSend).client.Carries :=
    ⟨⟨hc.ordered.readPos_le, hc.ordered.writePos_le⟩, hc.content⟩
  obtain ⟨p, hp, hsuffix⟩ := hc.content hunread
  have hsubmitted := submit_submitted wsaSend hc.ordered
  cases wsaSend with
  | false =>
    rw [SendResult.transmissions, hsubmitted]
    exact hclient.passes rfl rfl
  | true =>
    rw [SendResult.transmissions, hsubmitted]
    refine ⟨hclient, fun t ht => ?_, fun done called => ?_⟩
    · obtain rfl := List.mem_singleton.mp ht
      exact ⟨p, hp, hunread, hsuffix⟩
    · have hmove := Outbox.Move.call ⟨done, c.mSendQueue, c.sending, called⟩ p hp
      rw [List.append_nil]
      refine .single ?_
      simpa [NetworkClient.submit, hp] using hmove

/-- `Send` writes at most one packet of the queue, and submits bytes of the one written last. -/
theorem Carries.send (hc : c.Carries) (wsaSend : Bool) (socket : Option Socket) :
    c.Passes (c.send wsaSend).client [] ((c.send wsaSend).transmissions socket) := by
  by_cases hunread : c.mSendContext.unread = []
  · rcases hqueue : c.mSendQueue with - | ⟨packet, queue⟩
    · rw [send_of_idle wsaSend hc.ordered hunread hqueue]
      exact hc.passes rfl rfl
    · rcases Nat.lt_or_ge bufferSize (headerSize + packet.BodyLength.toNat) with hlong | hfit
      · obtain ⟨context, hord, hempty, hsend⟩ :=
          send_of_long wsaSend hc.ordered hunread hqueue hlong
        rw [hsend]
        exact (carries_of_unread (c := { c with mSendContext := context }) hord hempty).passes
          rfl rfl
      · obtain ⟨context, hord, hbytes, hsend⟩ :=
          send_of_queue wsaSend hc.ordered hunread hqueue hfit
        rw [hsend]
        have hwritten : NetworkClient.Carries
            { c with mSendContext := context, mSendQueue := queue, sending := some packet } :=
          ⟨hord, fun _ => ⟨packet, rfl, by rw [hbytes]⟩⟩
        have htake : c.Passes
            { c with mSendContext := context, mSendQueue := queue, sending := some packet }
            [] [] := by
          refine ⟨hwritten, fun _ ht => absurd ht List.not_mem_nil, fun done called => ?_⟩
          rw [hqueue, List.append_nil]
          have hmove :=
            Outbox.Move.take ⟨done, packet :: queue, c.sending, called⟩ packet queue rfl
          rw [List.filterMap_nil, List.append_nil]
          exact .single hmove
        exact htake.trans (hwritten.submit (hbytes ▸ packet.encode_ne_nil) wsaSend socket)
  · rw [send_of_unread wsaSend hc.ordered hunread]
    exact hc.submit hunread wsaSend socket

theorem Carries.read {n : ℕ} {context : NetworkContext} (hc : c.Carries)
    (hread : c.mSendContext.read n = some context) :
    NetworkClient.Carries { c with mSendContext := context } := by
  have hdrop := NetworkContext.unread_read hread
  refine ⟨hc.ordered.read hread, fun hne => ?_⟩
  have hold : c.mSendContext.unread ≠ [] := by
    intro hnil
    rw [hnil, List.drop_nil] at hdrop
    exact hne hdrop
  obtain ⟨p, hp, hsuffix⟩ := hc.content hold
  exact ⟨p, hp, hdrop ▸ (List.drop_suffix n _).trans hsuffix⟩

theorem Carries.handleSend (hc : c.Carries) (n : ℕ) (wsaSend : Bool) (socket : Option Socket) :
    c.Passes (c.handleSend n wsaSend).client []
      ((c.handleSend n wsaSend).transmissions socket) := by
  rw [NetworkClient.handleSend, NetworkClient.handleSendRead]
  cases hread : c.mSendContext.read n with
  | none => exact hc.passes rfl rfl
  | some context =>
    have hrest := hc.read hread
    have hpasses : c.Passes { c with mSendContext := context } [] [] := hrest.passes rfl rfl
    simp only [Option.map_some, NetworkClient.handleSendFinish]
    split_ifs
    · exact hpasses.trans (hrest.send wsaSend socket)
    · exact hpasses.trans (hrest.kept rfl rfl rfl)

theorem Carries.enqueue (hc : c.Carries) (packet : Packet) :
    c.Passes (c.enqueuePacket packet) [packet] [] := by
  refine ⟨hc.congr rfl rfl, fun _ ht => absurd ht List.not_mem_nil, fun done called => ?_⟩
  have hmove := Outbox.Move.put ⟨done, c.mSendQueue, c.sending, called⟩ packet
  rw [List.filterMap_nil, List.append_nil]
  exact .single hmove

end NetworkClient

/-! ### The objects of the manager -/

section OfClient

variable {α : Type} (o : ClientRef) (l l' : List (ClientRef × α))

theorem ofClient_append : ofClient o (l ++ l') = ofClient o l ++ ofClient o l' := by
  simp only [ofClient, List.filter_append, List.map_append]

theorem ofClient_self (xs : List α) : ofClient o (xs.map fun x => (o, x)) = xs := by
  induction xs with
  | nil => rfl
  | cons x xs ih =>
    rw [List.map_cons, ofClient, List.filter_cons_of_pos (by simp), List.map_cons]
    exact congrArg (x :: ·) ih

theorem ofClient_of_ne {o' : ClientRef} (h : o ≠ o') (xs : List α) :
    ofClient o (xs.map fun x => (o', x)) = [] := by
  induction xs with
  | nil => rfl
  | cons x xs ih =>
    rw [List.map_cons, ofClient, List.filter_cons_of_neg (by simpa using h.symm)]
    exact ih

end OfClient

namespace NetworkManager

/-- On the way from `m` to `t` the responses `queued` are put into send queues, and the `WSASend`
calls `calls` are accepted, of the objects `callers`. -/
structure Effect (m t : NetworkManager) (queued : List (ClientRef × Packet))
    (callers : List ClientRef) (calls : List Transmission) : Prop where
  transmissions : t.transmissions = m.transmissions ++ calls
  called : (callers.flatMap fun o => calls.map fun call => (o, call)).map Prod.snd = calls
  passes : ∀ o, (m.clients o).Carries → (m.clients o).Passes (t.clients o) (ofClient o queued)
    (ofClient o (callers.flatMap fun o => calls.map fun call => (o, call)))

variable {m t : NetworkManager} {e : NetworkEvent} {o : ClientRef} {c : NetworkClient}

/-- No send queue changes, and no call is accepted. -/
theorem effect_quiet (callers : List ClientRef) (htransmissions : t.transmissions = m.transmissions)
    (hclients : ∀ o, (m.clients o).Carries → (m.clients o).Passes (t.clients o) [] []) :
    m.Effect t [] callers [] := by
  have hnone : (callers.flatMap fun o => ([] : List Transmission).map fun call => (o, call)) = [] :=
    List.flatMap_eq_nil_iff.mpr fun _ _ => rfl
  refine ⟨by rw [htransmissions, List.append_nil], by rw [hnone, List.map_nil], fun o hc => ?_⟩
  rw [hnone]
  exact hclients o hc

theorem Effect.congr {u : NetworkManager} {queued : List (ClientRef × Packet)}
    {callers : List ClientRef} {calls : List Transmission} (h : u.Effect t queued callers calls)
    (hclients : u.clients = m.clients) (htransmissions : u.transmissions = m.transmissions) :
    m.Effect t queued callers calls :=
  ⟨htransmissions ▸ h.transmissions, h.called, hclients ▸ h.passes⟩

theorem effect_of_clients (callers : List ClientRef)
    (htransmissions : t.transmissions = m.transmissions) (hclients : t.clients = m.clients) :
    m.Effect t [] callers [] :=
  effect_quiet callers htransmissions fun _ hc => hclients ▸ hc.kept rfl rfl rfl

/-- One object puts `put` into its queue and makes the calls `calls`. -/
theorem effect_update (put : List Packet) {calls : List Transmission}
    (htransmissions : t.transmissions = m.transmissions ++ calls)
    (hclients : t.clients = Function.update m.clients o c)
    (hpasses : (m.clients o).Carries → (m.clients o).Passes c put calls) :
    m.Effect t (put.map fun p => (o, p)) [o] calls := by
  have hcalls : ([o].flatMap fun o => calls.map fun call => (o, call)) =
      calls.map fun call => (o, call) := List.flatMap_singleton _ _
  refine ⟨htransmissions, ?_, fun o' hc => ?_⟩
  · rw [hcalls, List.map_map]
    exact List.map_id _
  · rw [hcalls, hclients]
    by_cases ho : o' = o
    · subst ho
      rw [Function.update_self, ofClient_self, ofClient_self]
      exact hpasses hc
    · rw [Function.update_of_ne ho, ofClient_of_ne _ ho, ofClient_of_ne _ ho]
      exact hc.kept rfl rfl rfl

theorem recipient_of_refused {sessionID : ℤ}
    (h : sessionID < 0 ∨ m.mClientList.length ≤ sizeTOfInt sessionID) :
    m.recipient sessionID = none := if_pos h

theorem recipient_of_entry {sessionID : ℤ}
    (h : ¬(sessionID < 0 ∨ m.mClientList.length ≤ sizeTOfInt sessionID))
    (hentry : m.mClientList[sizeTOfInt sessionID]? = some (some o)) :
    m.recipient sessionID = if (m.clients o).mIsConnected then some o else none := by
  simp only [recipient, if_neg h, hentry]

theorem recipient_of_no_entry {sessionID : ℤ}
    (hentry : ∀ o, m.mClientList[sizeTOfInt sessionID]? ≠ some (some o)) :
    m.recipient sessionID = none := by
  rw [recipient]
  split_ifs
  · rfl
  · split
    · next o hget => exact absurd hget (hentry o)
    · rfl

/-- An object puts the packet into its queue and then calls `Send`. -/
theorem effect_enqueue_called {result : SendResult} (p : Packet)
    (hset : (m.clients o).Carries → (m.clients o).Passes c [p] [])
    (hresult : c.Carries → c.Passes result.client [] (result.transmissions c.mSocket)) :
    m.Effect ((m.setClient o c).called o result) [(o, p)] [o]
      (result.transmissions c.mSocket) := by
  have hclient : (m.setClient o c).clients o = c := Function.update_self _ _ _
  have htransmissions : ((m.setClient o c).called o result).transmissions =
      m.transmissions ++ result.transmissions c.mSocket := by
    simp only [called, hclient]
    rfl
  have hclients : ((m.setClient o c).called o result).clients =
      Function.update m.clients o result.client := Function.update_idem _ _ _
  exact effect_update [p] htransmissions hclients fun hc =>
    (hset hc).trans (hresult (hset hc).carries)

/-- `PushSendPacket` puts the packet into the queue of the object that it finds, which may send. -/
theorem effect_pushSendPacket (m : NetworkManager) (sessionID : ℤ) (p : Packet) (wsaSend : Bool) :
    ∃ calls, m.Effect (m.pushSendPacket sessionID p wsaSend)
      ((m.recipient sessionID).toList.map fun o => (o, p))
      (m.recipient sessionID).toList calls := by
  have hrelease : m.Effect (m.releasePackets [p]) [] [] [] := effect_of_clients [] rfl rfl
  rw [pushSendPacket]
  split_ifs with hrefused
  · rw [recipient_of_refused hrefused]
    exact ⟨[], hrelease⟩
  split
  · next o hentry =>
    rw [recipient_of_entry hrefused hentry]
    by_cases hconnected : (m.clients o).mIsConnected = true
    · rw [if_pos hconnected]
      dsimp only
      rw [if_neg (by rw [hconnected]; exact Bool.true_eq_false.mp)]
      split_ifs
      · exact ⟨[], effect_update [p] (List.append_nil _).symm rfl fun hc => hc.enqueue p⟩
      · exact ⟨_, effect_enqueue_called p (fun hc => (hc.enqueue p).trans
          ((hc.enqueue p).carries.kept rfl rfl rfl)) fun hc => hc.send _ _⟩
    · rw [if_neg hconnected]
      dsimp only
      rw [if_pos ((Bool.not_eq_true _).mp hconnected)]
      exact ⟨[], hrelease⟩
  · next hnone =>
    rw [recipient_of_no_entry fun o ho => hnone o ho]
    exact ⟨[], hrelease⟩

theorem effect_processed (m : NetworkManager) (packet : Packet) (wsaSend : Bool) :
    ∃ calls, m.Effect (m.processed packet wsaSend) (m.answer packet).toList
      ((m.answer packet).toList.map Prod.fst) calls := by
  rw [processed, answer]
  cases Service.processPacket packet with
  | none => exact ⟨[], effect_of_clients [] rfl rfl⟩
  | some response =>
    obtain ⟨calls, heffect⟩ := effect_pushSendPacket
      { m with mPacketPool := (m.mPacketPool.acquire {}).2 } response.1 response.2 wsaSend
    rw [show recipient { m with mPacketPool := (m.mPacketPool.acquire {}).2 } response.1 =
      m.recipient response.1 from rfl] at heffect
    rw [Option.bind_some]
    cases hrecipient : m.recipient response.1 with
    | none =>
      rw [hrecipient] at heffect
      exact ⟨calls, heffect.transmissions, heffect.called, heffect.passes⟩
    | some o =>
      rw [hrecipient] at heffect
      exact ⟨calls, heffect.transmissions, heffect.called, heffect.passes⟩

/-- No send queue changes, no call is accepted, and the dispatcher stays. -/
structure Quiet (m t : NetworkManager) : Prop where
  transmissions : t.transmissions = m.transmissions
  dispatcher : t.dispatcher = m.dispatcher
  passes : ∀ o, (m.clients o).Carries → (m.clients o).Passes (t.clients o) [] []

theorem Quiet.effect (h : m.Quiet t) (callers : List ClientRef) : m.Effect t [] callers [] :=
  effect_quiet callers h.transmissions h.passes

/-- An object that has nothing in its send context. -/
theorem Quiet.update {u : NetworkManager} (h : m.Quiet u)
    (htransmissions : t.transmissions = u.transmissions) (hdispatcher : t.dispatcher = u.dispatcher)
    (hclients : t.clients = Function.update u.clients o c) (hord : c.mSendContext.Ordered)
    (hunread : c.mSendContext.unread = []) (hqueue : c.mSendQueue = (u.clients o).mSendQueue)
    (hsending : c.sending = (u.clients o).sending) : m.Quiet t := by
  refine ⟨htransmissions.trans h.transmissions, hdispatcher.trans h.dispatcher, fun o' hc => ?_⟩
  have hpasses := h.passes o' hc
  rw [hclients]
  by_cases ho : o' = o
  · subst ho
    rw [Function.update_self]
    exact hpasses.trans ((NetworkClient.carries_of_unread hord hunread).passes hqueue hsending)
  · rw [Function.update_of_ne ho]
    exact hpasses

theorem quiet_removeClient {u : NetworkManager} (h : m.Quiet u) (sessionID : UInt32) (now : ℕ) :
    m.Quiet (u.removeClient sessionID now) := by
  rcases removeClient_cases u sessionID now with ⟨-, heq⟩ | ⟨o, -, heq⟩
  · rw [heq]
    exact h
  · rw [heq]
    exact h.update rfl rfl rfl NetworkContext.Ordered.resetBuffer rfl rfl rfl

/-- A handler that changes no more of the object than its receive context. -/
theorem passes_update (r : ClientRef) (context : NetworkContext) (o : ClientRef)
    (hc : (m.clients o).Carries) : (m.clients o).Passes (Function.update m.clients r
      { m.clients r with mReceiveContext := context } o) [] [] := by
  by_cases ho : o = r
  · subst ho
    rw [Function.update_self]
    exact hc.kept rfl rfl rfl
  · rw [Function.update_of_ne ho]
    exact hc.kept rfl rfl rfl

/-- A new object has nothing to send, which changes nothing where there was nothing before. -/
theorem quiet_takeClient (m : NetworkManager) (now : ℕ)
    (hqueue : (m.clients m.created).mSendQueue = [])
    (hsending : (m.clients m.created).sending = none) : m.Quiet (m.takeClient now).2 := by
  have hsame : m.Quiet m := ⟨rfl, rfl, fun _ hc => hc.kept rfl rfl rfl⟩
  rw [takeClient]
  cases m.reused now with
  | some o => exact ⟨rfl, rfl, fun _ hc => hc.kept rfl rfl rfl⟩
  | none =>
    exact hsame.update (o := m.created) (c := .new) rfl rfl rfl ⟨le_refl _, Nat.zero_le _⟩
      rfl hqueue.symm hsending.symm

/-- `_HandleAccept` for the object `o` that it took: the object serves the new socket, and where its
receive is accepted it gets the next position of the list, and the next accept is posted. -/
theorem handleAccept_served (m : NetworkManager) (now : ℕ) (wsaRecv posted : Bool)
    (htake : takeClient { m with accepted := m.accepted + 1, accepting := false } now = (o, t)) :
    ∃ context, wsaRecv = false ∧ m.handleAccept now true wsaRecv posted =
        t.setClient o (served (t.clients o) m.accepted context) ∨
      wsaRecv = true ∧ ∃ wsaBuf sid, sid = UInt32.ofNat t.mClientList.length ∧
        m.handleAccept now true wsaRecv posted = { t with
          clients := Function.update t.clients o
            { served (t.clients o) m.accepted context with mSessionID := sid }
          recvs := t.recvs ++ [⟨o, some m.accepted, wsaBuf, none⟩]
          mClientList := t.mClientList ++ [some o]
          sessions := t.sessions ++ [(m.accepted, sid)]
          accepting := posted } := by
  have hclient : (t.setClient o { (t.clients o).reset.init with
      mSocket := some m.accepted }).clients o =
        { (t.clients o).reset.init with mSocket := some m.accepted } := Function.update_self _ _ _
  obtain ⟨context, u, hadd, hcase⟩ := addClient_spec
    (t.setClient o { (t.clients o).reset.init with mSocket := some m.accepted }) o wsaRecv
    (by rw [hclient]; rfl)
  have hallows : (t.setClient o { (t.clients o).reset.init with
      mSocket := some m.accepted }).allows o wsaRecv = wsaRecv := by
    rw [allows, hclient]
    exact Bool.and_true _
  rw [hclient, hallows] at hcase
  rw [hallows] at hadd
  simp only [setClient, Function.update_idem] at hcase
  refine ⟨context, ?_⟩
  rw [handleAccept]
  rcases hcase with ⟨rfl, rfl⟩ | ⟨rfl, wsaBuf, sid, hsid, rfl⟩
  · simp only [Bool.true_eq_false, if_false, htake, hadd, Bool.false_eq_true]
    exact Or.inl ⟨trivial, rfl⟩
  · simp only [Bool.true_eq_false, if_false, htake, hadd, if_true]
    exact Or.inr ⟨trivial, wsaBuf, sid, hsid, rfl⟩

/-- The object that serves an accepted connection has an empty send context and the queue it had. -/
theorem quiet_handleAccept (m : NetworkManager) (now : ℕ) (accepted wsaRecv posted : Bool)
    (hqueue : (m.clients m.created).mSendQueue = [])
    (hsending : (m.clients m.created).sending = none) :
    m.Quiet (m.handleAccept now accepted wsaRecv posted) := by
  cases accepted with
  | false => exact ⟨rfl, rfl, fun _ hc => hc.kept rfl rfl rfl⟩
  | true =>
    have htaken := quiet_takeClient { m with accepted := m.accepted + 1, accepting := false } now
      hqueue hsending
    rcases htake : takeClient { m with accepted := m.accepted + 1, accepting := false } now
      with ⟨o, t⟩
    rw [htake] at htaken
    have hm : m.Quiet t := ⟨htaken.transmissions, htaken.dispatcher, htaken.passes⟩
    obtain ⟨context, ⟨-, heq⟩ | ⟨-, wsaBuf, sid, -, heq⟩⟩ :=
      handleAccept_served m now wsaRecv posted htake
    · rw [heq]
      exact hm.update rfl rfl rfl NetworkContext.Ordered.resetBuffer rfl rfl rfl
    · rw [heq]
      exact hm.update rfl rfl rfl NetworkContext.Ordered.resetBuffer rfl rfl rfl

theorem processes_process {i : ℕ} {wsaSend : Bool} (h : m.dispatcher.i = some i) :
    m.processes (.process wsaSend) = (m.dispatcher.processNext i).2.toList := by
  simp only [processes, h, Option.toList_some, List.flatMap_cons, List.flatMap_nil, List.append_nil]

/-- What a step does for the responses, where a new object has nothing to send. -/
theorem effect_of_step (h : networkStep m e = some t)
    (hqueue : (m.clients m.created).mSendQueue = [])
    (hsending : (m.clients m.created).sending = none) :
    ∃ calls, m.Effect t (m.queues e) (m.callers e) calls := by
  have hsame : m.Quiet m := ⟨rfl, rfl, fun _ hc => hc.kept rfl rfl rfl⟩
  cases steps_of_networkStep h with
  | accept now accepted wsaRecv posted =>
    exact ⟨[], (quiet_handleAccept m now accepted wsaRecv posted hqueue hsending).effect _⟩
  | acceptFailed now =>
    have hu : m.Quiet { m with accepting := false } := ⟨rfl, rfl, hsame.passes⟩
    exact ⟨[], (quiet_removeClient hu 0 now).effect _⟩
  | @arrive i recv bytes => exact ⟨[], effect_quiet _ rfl fun o hc => passes_update _ _ o hc⟩
  | @received i n recv wsaRecv =>
    obtain ⟨context, hclient⟩ := (handleReceive_client (m.clients recv.client) m.mPacketPool n
      (m.allows recv.client wsaRecv) recv.socket).1
    refine ⟨[], effect_quiet _ rfl fun o hc => ?_⟩
    have hpasses := passes_update recv.client context o hc
    rw [← hclient] at hpasses
    exact hpasses
  | @receiveFailed i recv now =>
    have hu : m.Quiet { m with recvs := m.recvs.eraseIdx i } := ⟨rfl, rfl, hsame.passes⟩
    exact ⟨[], (quiet_removeClient hu _ now).effect _⟩
  | @sent i n send wsaSend hget =>
    have hcallers : m.callers (.sent i n wsaSend) = [send.client] := by
      simp only [callers, hget, Option.toList_some, List.map_singleton]
    rw [hcallers]
    exact ⟨_, effect_update [] rfl rfl fun hc => hc.handleSend n _ _⟩
  | @sendFailed i send now =>
    have hu : m.Quiet { m with sends := m.sends.eraseIdx i } := ⟨rfl, rfl, hsame.passes⟩
    exact ⟨[], (quiet_removeClient hu _ now).effect _⟩
  | swap => exact ⟨[], effect_of_clients _ rfl rfl⟩
  | @finished i wsaSend hi hpacket =>
    rw [callers, queues, processes_process hi, hpacket]
    exact ⟨[], effect_of_clients _ rfl rfl⟩
  | @process i packet wsaSend hi hpacket =>
    obtain ⟨calls, heffect⟩ := effect_processed
      { m with dispatcher := (m.dispatcher.processNext i).1 } packet wsaSend
    have hqueues : m.queues (.process wsaSend) = (m.answer packet).toList := by
      rw [queues, processes_process hi, hpacket, Option.toList_some]
      cases hanswer : m.answer packet with
      | none => rw [List.filterMap_cons_none hanswer]; rfl
      | some x => rw [List.filterMap_cons_some hanswer]; rfl
    rw [callers, hqueues]
    exact ⟨calls, heffect.congr rfl rfl⟩

/-! ### The dispatcher -/

/-- A step of the manager is one of the dispatcher, or leaves it. -/
theorem dispatch_of_step (h : networkStep m e = some t)
    (hqueue : (m.clients m.created).mSendQueue = [])
    (hsending : (m.clients m.created).sending = none) (pushed processed : List Packet) :
    ∃ ds, run dispatchStep ⟨m.dispatcher, pushed, processed⟩ ds =
      some ⟨t.dispatcher, pushed ++ m.pushes e, processed ++ m.processes e⟩ := by
  have hstay (heq : t.dispatcher = m.dispatcher) :
      run dispatchStep ⟨m.dispatcher, pushed, processed⟩ [] =
        some ⟨t.dispatcher, pushed ++ [], processed ++ []⟩ := by
    rw [heq, List.append_nil, List.append_nil]
    rfl
  have hsame : m.Quiet m := ⟨rfl, rfl, fun _ hc => hc.kept rfl rfl rfl⟩
  cases steps_of_networkStep h with
  | accept now accepted wsaRecv posted =>
    exact ⟨[], hstay (quiet_handleAccept m now accepted wsaRecv posted hqueue hsending).dispatcher⟩
  | acceptFailed now =>
    have hu : m.Quiet { m with accepting := false } := ⟨rfl, rfl, hsame.passes⟩
    exact ⟨[], hstay (quiet_removeClient hu 0 now).dispatcher⟩
  | arrive => exact ⟨[], hstay rfl⟩
  | @received i n recv wsaRecv hget hn =>
    have hpushes : m.pushes (.received i wsaRecv) = (handleReceive (m.clients recv.client)
        m.mPacketPool true n (m.allows recv.client wsaRecv) recv.socket).pushed.toList := by
      simp only [pushes, hget, hn, Option.toList_some, List.flatMap_cons, List.flatMap_nil,
        Option.getD_some, List.append_nil]
    rw [hpushes]
    have hdispatcher (d : NetworkManager) (hd : d = handleReceived
        { m with recvs := m.recvs.eraseIdx i } recv n wsaRecv) : d.dispatcher =
        (handleReceive (m.clients recv.client) m.mPacketPool true n (m.allows recv.client wsaRecv)
          recv.socket).pushed.toList.foldl NetworkDispatcher.pushPacket m.dispatcher := by
      rw [hd]
      rfl
    have hprocesses : m.processes (.received i wsaRecv) = [] := rfl
    rw [hdispatcher _ rfl, hprocesses, List.append_nil]
    cases (handleReceive (m.clients recv.client) m.mPacketPool true n
        (m.allows recv.client wsaRecv) recv.socket).pushed with
    | none => exact ⟨[], by rw [Option.toList_none, List.append_nil]; rfl⟩
    | some p => exact ⟨[.push p], rfl⟩
  | @receiveFailed i recv now =>
    have hu : m.Quiet { m with recvs := m.recvs.eraseIdx i } := ⟨rfl, rfl, hsame.passes⟩
    exact ⟨[], hstay (quiet_removeClient hu _ now).dispatcher⟩
  | sent => exact ⟨[], hstay rfl⟩
  | @sendFailed i send now =>
    have hu : m.Quiet { m with sends := m.sends.eraseIdx i } := ⟨rfl, rfl, hsame.passes⟩
    exact ⟨[], hstay (quiet_removeClient hu _ now).dispatcher⟩
  | swap hi =>
    have hlogs : m.pushes .swap = [] ∧ m.processes .swap = [] := ⟨rfl, rfl⟩
    refine ⟨[.swap], ?_⟩
    rw [run_cons, dispatchStep, hi, hlogs.1, hlogs.2, List.append_nil, List.append_nil]
    rfl
  | @finished i wsaSend hi hpacket =>
    have hpushes : m.pushes (.process wsaSend) = [] := rfl
    refine ⟨[.process], ?_⟩
    rw [run_cons, dispatchStep, hi, processes_process hi, hpushes, List.append_nil]
    rfl
  | @process i packet wsaSend hi hpacket =>
    have hpushes : m.pushes (.process wsaSend) = [] := rfl
    refine ⟨[.process], ?_⟩
    rw [run_cons, dispatchStep, hi, dispatcher_processed, processes_process hi, hpushes,
      List.append_nil]
    rfl

end NetworkManager

/-! ### Runs -/

/-- What holds on every run: besides the answers, every object is ready to send, and what was queued
was queued for an object that exists. -/
structure EchoState.Sound (s : EchoState) : Prop where
  dispatch : s.dispatch.Conserved
  once : (s.queued.map Prod.snd).Sublist
    (s.processed.filterMap fun p => (Service.processPacket p).map Prod.snd)
  moves : ∀ o, ReflTransGen Outbox.Move {} (s.outbox o)
  calls : s.calls.map Prod.snd = s.manager.transmissions
  sent : ∀ t ∈ s.manager.transmissions, t.Carries
  carries : ∀ o, (s.manager.clients o).Carries
  listed : s.manager.Listed
  created : ∀ x ∈ s.queued, x.1 < s.manager.created

variable {s t : EchoState} {e : NetworkEvent} {es : List NetworkEvent}

theorem mem_ofClient_iff {α : Type} {o : ClientRef} {a : α} {l : List (ClientRef × α)} :
    a ∈ ofClient o l ↔ (o, a) ∈ l := by
  simp only [ofClient, List.mem_map, List.mem_filter, decide_eq_true_eq, Prod.exists,
    and_comm, exists_eq_left]

/-- The response has the bytes of the packet. -/
theorem encode_of_processPacket {packet : Packet} {response : ℤ × Packet}
    (h : Service.processPacket packet = some response) : response.2.encode = packet.encode := by
  rw [Service.processPacket] at h
  split_ifs at h with hecho
  obtain rfl := Option.some.inj h
  have hbody : (Service.echo packet).2.body = packet.body := by
    change (Memory.write (fun _ => 0) 0 packet.body).slice 0 packet.BodyLength.toNat = _
    rw [← Packet.length_body, Memory.slice_write_self]
  rw [Packet.encode, Packet.encode, hbody, hecho]
  rfl

theorem EchoState.Sound.answers (hs : s.Sound) : s.Answers := by
  have horder (o : ClientRef) := Outbox.inOrder_of_moves (hs.moves o)
  refine ⟨hs.dispatch, hs.once, horder, hs.calls, hs.sent, fun call hcall => ?_⟩
  obtain ⟨r, hr, -, hsuffix⟩ := hs.sent call hcall
  -- Back from the call to the queue, and from there to the packet that was processed.
  rw [← hs.calls] at hcall
  obtain ⟨⟨o, call⟩, hmem, rfl⟩ := List.mem_map.mp hcall
  have hput : r ∈ ofClient o s.queued :=
    (horder o).mem_put (List.mem_filterMap.mpr ⟨call, mem_ofClient_iff.mpr hmem, hr⟩)
  have hqueued := List.mem_map_of_mem (f := Prod.snd) (mem_ofClient_iff.mp hput)
  obtain ⟨p, hp, hmap⟩ := List.mem_filterMap.mp (hs.once.subset hqueued)
  obtain ⟨response, hresponse, rfl⟩ := Option.map_eq_some_iff.mp hmap
  exact ⟨p, hp, encode_of_processPacket hresponse ▸ hsuffix⟩

theorem ofClient_eq_nil {α : Type} {o : ClientRef} {l : List (ClientRef × α)}
    (h : ∀ x ∈ l, x.1 ≠ o) : ofClient o l = [] := by
  rw [ofClient, List.filter_eq_nil_iff.mpr fun x hx => by simpa using h x hx, List.map_nil]

/-- An object that has not been created has nothing to send. -/
theorem EchoState.Sound.fresh (hs : s.Sound) :
    (s.manager.clients s.manager.created).mSendQueue = [] ∧
      (s.manager.clients s.manager.created).sending = none := by
  have hput : (s.outbox s.manager.created).put = [] :=
    ofClient_eq_nil fun x hx => (hs.created x hx).ne
  have hempty := (Outbox.inOrder_of_moves (hs.moves s.manager.created)).eq_empty hput
  exact ⟨congrArg Outbox.queue hempty, congrArg Outbox.current hempty⟩

/-- The responses put into queues at a step are responses to the packets processed at it. -/
theorem queues_sublist (m : NetworkManager) (e : NetworkEvent) :
    ((m.queues e).map Prod.snd).Sublist
      ((m.processes e).filterMap fun p => (Service.processPacket p).map Prod.snd) := by
  rw [NetworkManager.queues]
  induction m.processes e with
  | nil => exact List.Sublist.slnil
  | cons p ps ih =>
    cases hresponse : Service.processPacket p with
    | none =>
      have hanswer : m.answer p = none := by
        rw [NetworkManager.answer, hresponse, Option.bind_none]
      rw [List.filterMap_cons_none hanswer, List.filterMap_cons_none (by rw [hresponse]; rfl)]
      exact ih
    | some response =>
      rw [List.filterMap_cons_some (l := ps) (b := response.2) (by rw [hresponse]; rfl)]
      cases hrecipient : m.recipient response.1 with
      | none =>
        have hanswer : m.answer p = none := by
          rw [NetworkManager.answer, hresponse, Option.bind_some, hrecipient, Option.map_none]
        rw [List.filterMap_cons_none hanswer]
        exact ih.cons _
      | some o =>
        have hanswer : m.answer p = some (o, response.2) := by
          rw [NetworkManager.answer, hresponse, Option.bind_some, hrecipient, Option.map_some]
        rw [List.filterMap_cons_some hanswer]
        exact ih.cons_cons _

theorem recipient_lt {m : NetworkManager} {sessionID : ℤ} {o : ClientRef} (hl : m.Listed)
    (h : m.recipient sessionID = some o) : o < m.created := by
  rw [NetworkManager.recipient] at h
  split_ifs at h
  split at h
  · next o' hentry =>
    split_ifs at h
    obtain rfl := Option.some.inj h
    exact hl.created o' (List.mem_of_getElem? hentry)
  · cases h

theorem created_le {m m' : NetworkManager} (h : networkStep m e = some m') :
    m.created ≤ m'.created := by
  rcases NetworkManager.networkStep_cases h with
    ⟨now, wsaRecv, posted, -, rfl⟩ | ⟨u, sessionID, now, hsame, -, rfl⟩ | ⟨hsame, -⟩
  · obtain ⟨o, t, c, htake, -, -, -, hcreated, -⟩ :=
      NetworkManager.handleAccept_cases m now wsaRecv posted
    rw [hcreated]
    rw [NetworkManager.takeClient] at htake
    split at htake
    · rw [(Prod.mk.inj htake).2]
    · rw [(Prod.mk.inj htake).2]
      exact Nat.le_succ _
  · rcases NetworkManager.removeClient_cases u sessionID now with ⟨-, heq⟩ | ⟨o, -, heq⟩
    · rw [heq, hsame.created]
    · rw [heq]
      exact hsame.created.ge
  · exact hsame.created.ge

theorem EchoState.Sound.step (hs : s.Sound) (h : echoStep s e = some t) : t.Sound := by
  obtain ⟨manager, hstep, rfl⟩ := Option.map_eq_some_iff.mp h
  obtain ⟨hqueue, hsending⟩ := hs.fresh
  obtain ⟨calls, heffect⟩ := NetworkManager.effect_of_step hstep hqueue hsending
  obtain ⟨ds, hds⟩ :=
    NetworkManager.dispatch_of_step hstep hqueue hsending s.pushed s.processed
  have hcalls : manager.transmissions.drop s.manager.transmissions.length = calls := by
    rw [heffect.transmissions, List.drop_left]
  have hpasses (o : ClientRef) := heffect.passes o (hs.carries o)
  constructor
  · exact run_invariant (fun _ _ _ hP hst => conserved_step hP hst) hs.dispatch hds
  · rw [List.map_append, List.filterMap_append]
    exact hs.once.append (queues_sublist s.manager e)
  · intro o
    have hmoves := (hpasses o).moves (ofClient o s.queued)
      ((ofClient o s.calls).filterMap Transmission.packet)
    rw [← List.filterMap_append, ← ofClient_append, ← ofClient_append] at hmoves
    rw [← hcalls] at hmoves
    exact (hs.moves o).trans hmoves
  · rw [List.map_append, hcalls, heffect.called, hs.calls, heffect.transmissions]
  · intro call hcall
    rw [heffect.transmissions] at hcall
    rcases List.mem_append.mp hcall with hold | hnew
    · exact hs.sent call hold
    · rw [← heffect.called] at hnew
      obtain ⟨x, hx, rfl⟩ := List.mem_map.mp hnew
      exact (hpasses x.1).sent x.2 (mem_ofClient_iff.mpr hx)
  · exact fun o => (hpasses o).carries
  · exact NetworkManager.listed_step hs.listed hstep
  · intro x hx
    rcases List.mem_append.mp hx with hold | hnew
    · exact (hs.created x hold).trans_le (created_le hstep)
    · obtain ⟨p, -, hanswer⟩ := List.mem_filterMap.mp hnew
      obtain ⟨response, -, hmap⟩ := Option.bind_eq_some_iff.mp hanswer
      obtain ⟨o, hrecipient, rfl⟩ := Option.map_eq_some_iff.mp hmap
      exact (recipient_lt hs.listed hrecipient).trans_le (created_le hstep)

theorem EchoState.sound_start (pool : MemoryPool Packet) :
    ({ manager := { mPacketPool := pool } } : EchoState).Sound := by
  refine ⟨⟨rfl⟩, List.Sublist.slnil, fun _ => .refl, rfl, ?_, fun _ => ⟨?_, fun hne => ?_⟩,
    ⟨?_, ?_⟩, ?_⟩
  · exact fun _ ht => absurd ht List.not_mem_nil
  · exact ⟨le_refl _, Nat.zero_le _⟩
  · exact absurd rfl hne
  · exact fun _ ho => absurd ho List.not_mem_nil
  · exact fun _ ho => absurd ho List.not_mem_nil
  · exact fun _ hx => absurd hx List.not_mem_nil

/-- In every run, whatever becomes of the connections and the objects that serve them: no packet is
lost on the way to `ProcessPacket`, each packet processed is answered at most once, each object
takes the responses put into its queue in order and makes its `WSASend` calls for them in this
order, and each call sends the end of one response. -/
theorem answers_throughout (pool : MemoryPool Packet) (es : List NetworkEvent) :
    Throughout echoStep EchoState.Answers { manager := { mPacketPool := pool } } es := by
  intro pre _ s hs
  exact (run_invariant (fun _ _ _ hP hst => hP.step hst) (EchoState.sound_start pool) hs).answers

end IocpStudy.StudyServer
