import Mathlib.Data.List.Nodup
import Mathlib.Data.List.Perm.Basic
import IocpStudy.Lib.Runs
import IocpStudy.ChatServer.IOCPServer

/-! The bytes of one connection of a slot against those of the next.  The packet buffer of a slot is
emptied only by the connect event of its next connection, which is queued behind what the slot has
received already and is handled in the second half of an iteration.  The connections are isolated on
the runs that handle a receive only when the connect event of its connection has been processed and
nothing of another connection is left. -/

namespace IocpStudy.ChatServer

open Runs

namespace ServerState

/-- A frame that `DequeuePacket` returns for a receive has only bytes of that receive's connection,
and the connect event of a connection discards none of its bytes. -/
structure Isolated (s : ServerState) : Prop where
  dequeued : ∀ c origins, (c, origins) ∈ s.dequeued → ∀ o ∈ origins, o = some c.socket
  discarded : ∀ c origins, (c, origins) ∈ s.discarded → some c.socket ∉ origins

/-- The connections whose connect event has been processed. -/
def opened (s : ServerState) : List Socket := s.discarded.map (·.1.socket)

/-- When a receive is handled, the connect event of its connection has been processed, and the
receive buffer, the unread bytes and the index queue hold nothing of another connection of the
slot. -/
def Alone (s : ServerState) : ServerEvent → Prop
  | .onReceive n _ => ∀ c size, s.completions[n]? = some (c, size) → c.socket ∈ s.opened ∧
    (∀ b ∈ s.recvBuffer c.clientIndex size, b.2 = some c.socket) ∧
    (∀ o ∈ s.unreadOrigins c.clientIndex, o = some c.socket) ∧
    (∀ c' ∈ s.received, c'.clientIndex = c.clientIndex → c'.socket = c.socket)
  | _ => True

/-- The connections with a connect event that is still to be queued, queued or processed. -/
def accepted (s : ServerState) : List Socket :=
  s.opened ++ (s.connects ++ s.connecting).map (·.socket)

/-- The unread bytes of a user are of the connections of its entries, whose connect events have been
processed, and no connection has two connect events. -/
structure Separated (s : ServerState) : Prop where
  ordered : ∀ i, (s.user i).Ordered
  entries : s.mPacketManager.mIncomingPacketUserIndex = s.received.map (·.clientIndex)
  events : s.mPacketManager.mSystemPacketQueue = s.connects.map (·.connectPacket)
  nodup : s.accepted.Nodup
  created : ∀ k ∈ s.accepted, k < s.sockets
  sizes : ∀ c size, (c, size) ∈ s.completions → size ≤ maxSockRecvBuf
  owned : ∀ c ∈ s.received, ∀ o ∈ s.unreadOrigins c.clientIndex, o = some c.socket
  unread : ∀ i k, some k ∈ s.unreadOrigins i → k ∈ s.opened
  isolated : s.Isolated

variable {s t : ServerState} {e : ServerEvent} {es : List ServerEvent} {c : Connection} {i : ℕ}

/-! ### What the steps do to the buffers of the users -/

theorem Separated.entries_cons (hs : s.Separated) {rest : List Connection}
    (hqueue : s.received = c :: rest) :
    s.mPacketManager.mIncomingPacketUserIndex = c.clientIndex :: rest.map (·.clientIndex) := by
  rw [hs.entries, hqueue, List.map_cons]

theorem Separated.events_cons (hs : s.Separated) {rest : List Connection}
    (hqueue : s.connects = c :: rest) :
    s.mPacketManager.mSystemPacketQueue = c.connectPacket :: rest.map (·.connectPacket) := by
  rw [hs.events, hqueue, List.map_cons]

/-- Behind a receive, an unread byte was unread before or is from the receive buffer. -/
theorem mem_unreadOrigins_onReceive (hs : s.Separated) {size : ℕ} (hsize : size ≤ maxSockRecvBuf)
    {i : ℕ} {o : Option Socket} (ho : o ∈ (s.onReceive c size).unreadOrigins i) :
    o ∈ s.unreadOrigins i ∨
      i = c.clientIndex ∧ ∃ b ∈ s.recvBuffer c.clientIndex size, b.2 = o := by
  simp only [unreadOrigins, user, onReceive, PacketManager.user_receivePacket] at ho
  by_cases hi : i = c.clientIndex
  · subst hi
    simp only [if_true, Function.update_self] at ho
    refine (User.mem_unreadIn_setPacketData (hs.ordered _) ?_ ?_ ho).imp_right fun hnew => ?_
    · simpa [recvBuffer, maxSockRecvBuf] using hsize
    · simp
    · exact ⟨rfl, List.mem_map.mp hnew⟩
  · simp only [if_neg hi, Function.update_of_ne hi] at ho
    exact Or.inl ho

theorem mem_unreadOrigins_processUserPacket (hs : s.Separated) {rest : List Connection}
    (hqueue : s.received = c :: rest) {i : ℕ} {o : Option Socket}
    (ho : o ∈ s.processUserPacket.unreadOrigins i) : o ∈ s.unreadOrigins i := by
  simp only [unreadOrigins, user, processUserPacket,
    PacketManager.user_processUserPacket_cons (hs.entries_cons hqueue)] at ho
  by_cases hi : i = c.clientIndex
  · subst hi
    rw [if_pos rfl] at ho
    have hsplit := User.unreadIn_getPacket (hs.ordered c.clientIndex) (s.origins c.clientIndex)
    rw [unreadOrigins, ← hsplit]
    exact List.mem_append_right _ ho
  · rw [if_neg hi] at ho
    exact ho

theorem dequeued_processUserPacket (hs : s.Separated) {rest : List Connection}
    (hqueue : s.received = c :: rest) : ∃ origins, s.processUserPacket.dequeued =
      s.dequeued ++ [(c, origins)] ∧ ∀ o ∈ origins, o ∈ s.unreadOrigins c.clientIndex := by
  refine ⟨User.packetIn (s.user c.clientIndex).getPacket.1 (s.origins c.clientIndex), ?_,
    fun o ho => ?_⟩
  · simp only [processUserPacket, PacketManager.dequeuePacket, hs.entries_cons hqueue, hqueue,
      List.head?_cons, Option.toList_some, List.map_cons, List.map_nil]
    rfl
  · have hsplit := User.unreadIn_getPacket (hs.ordered c.clientIndex) (s.origins c.clientIndex)
    rw [unreadOrigins, ← hsplit]
    exact List.mem_append_left _ ho

theorem mem_unreadOrigins_processSystemPacket (hs : s.Separated) {rest : List Connection}
    (hqueue : s.connects = c :: rest) {i : ℕ} {o : Option Socket}
    (ho : o ∈ s.processSystemPacket.unreadOrigins i) : o ∈ s.unreadOrigins i := by
  simp only [unreadOrigins, user, processSystemPacket,
    PacketManager.user_processSystemPacket_connect rfl (hs.events_cons hqueue)] at ho
  split_ifs at ho
  · cases ho
  · exact ho

/-! ### What the steps preserve -/

/-- A change that touches no buffer of a user and no queue. -/
theorem Separated.frame (hs : s.Separated) {clients : ℕ → NetworkClient}
    {mRecvBuf : ℕ → Memory (UInt8 × Option Socket)} {receiving : List Connection}
    {completions : List (Connection × ℕ)}
    (hsizes : ∀ c size, (c, size) ∈ completions → size ≤ maxSockRecvBuf) :
    Separated { s with clients, mRecvBuf, receiving, completions } :=
  ⟨hs.ordered, hs.entries, hs.events, hs.nodup, hs.created, hsizes, hs.owned, hs.unread,
    hs.isolated.dequeued, hs.isolated.discarded⟩

theorem Separated.closeSocket (hs : s.Separated) (i now : ℕ) : (s.closeSocket i now).Separated :=
  hs.frame hs.sizes

theorem Separated.bindRecv (hs : s.Separated) (i : ℕ) (wsaRecv : Bool) :
    (s.bindRecv i wsaRecv).Separated := by
  rw [ServerState.bindRecv]
  split
  · split_ifs
    · exact hs.frame hs.sizes
    · exact hs
  · exact hs

theorem accepted_accept (i : ℕ) (bindRecv : Bool) (now : ℕ) :
    (s.accept i bindRecv now).accepted = s.accepted ++ if bindRecv then [s.sockets] else [] := by
  cases bindRecv <;>
    simp [accept, accepted, opened, closeSocket, NetworkClient.postAccept,
      NetworkClient.acceptCompletion, NetworkClient.onConnect]

theorem Separated.accept (hs : s.Separated) (i : ℕ) (bindRecv : Bool) (now : ℕ) :
    (s.accept i bindRecv now).Separated := by
  have hfresh : s.sockets ∉ s.accepted := fun h => Nat.lt_irrefl _ (hs.created _ h)
  have hsockets : (s.accept i bindRecv now).sockets = s.sockets + 1 := by cases bindRecv <;> rfl
  have haccepted := accepted_accept (s := s) i bindRecv now
  have hnodup : (s.accept i bindRecv now).accepted.Nodup := by
    rw [haccepted]
    split_ifs
    · rw [← List.concat_eq_append]
      exact hs.nodup.concat hfresh
    · simpa using hs.nodup
  have hcreated : ∀ k ∈ (s.accept i bindRecv now).accepted,
      k < (s.accept i bindRecv now).sockets := by
    rw [haccepted, hsockets]
    intro k hk
    rcases List.mem_append.mp hk with hold | hnew
    · exact Nat.lt_succ_of_lt (hs.created k hold)
    · split_ifs at hnew
      · rw [List.mem_singleton.mp hnew]
        exact Nat.lt_succ_self _
      · cases hnew
  cases bindRecv <;>
    exact ⟨hs.ordered, hs.entries, hs.events, hnodup, hcreated, hs.sizes, hs.owned, hs.unread,
      hs.isolated.dequeued, hs.isolated.discarded⟩

theorem Separated.onConnect (hs : s.Separated) {n : ℕ} (hc : s.connecting[n]? = some c) :
    (ServerState.onConnect { s with connecting := s.connecting.eraseIdx n } c).Separated := by
  obtain ⟨hn, rfl⟩ := List.getElem?_eq_some_iff.mp hc
  have hperm : (ServerState.onConnect { s with connecting := s.connecting.eraseIdx n }
      s.connecting[n]).accepted.Perm s.accepted := by
    apply List.Perm.append_left
    apply List.Perm.map
    simp only [ServerState.onConnect, List.append_assoc, List.singleton_append]
    exact List.Perm.append_left _ (List.getElem_cons_eraseIdx_perm hn)
  refine ⟨hs.ordered, hs.entries, ?_, hperm.nodup_iff.mpr hs.nodup,
    fun k hk => hs.created k (hperm.mem_iff.mp hk), hs.sizes, hs.owned, hs.unread,
    hs.isolated.dequeued, hs.isolated.discarded⟩
  simp only [ServerState.onConnect, PacketManager.enqueueSystemPacket, hs.events, List.map_append,
    List.map_cons, List.map_nil]

theorem Separated.onReceive (hs : s.Separated) {size : ℕ} (hsize : size ≤ maxSockRecvBuf)
    (hopened : c.socket ∈ s.opened)
    (hbuffer : ∀ b ∈ s.recvBuffer c.clientIndex size, b.2 = some c.socket)
    (hunread : ∀ o ∈ s.unreadOrigins c.clientIndex, o = some c.socket)
    (hentries : ∀ c' ∈ s.received, c'.clientIndex = c.clientIndex → c'.socket = c.socket) :
    (s.onReceive c size).Separated := by
  have hlength : ((s.recvBuffer c.clientIndex size).map Prod.fst).length ≤ 256 := by
    simpa [recvBuffer, maxSockRecvBuf] using hsize
  refine ⟨PacketManager.ordered_receivePacket hs.ordered hlength c.clientIndex, ?_, hs.events,
    hs.nodup, hs.created, hs.sizes, ?_, ?_, hs.isolated.dequeued, hs.isolated.discarded⟩
  · simp only [ServerState.onReceive, PacketManager.receivePacket, PacketManager.enqueuePacket,
      PacketManager.setUser, hs.entries, List.map_append, List.map_cons, List.map_nil]
  · intro c' hc' o ho
    have hsame : c'.clientIndex = c.clientIndex → c'.socket = c.socket := by
      intro hindex
      rcases List.mem_append.mp hc' with hold | hnew
      · exact hentries c' hold hindex
      · rw [List.mem_singleton.mp hnew]
    rcases mem_unreadOrigins_onReceive hs hsize ho with hold | ⟨hindex, b, hb, rfl⟩
    · rcases List.mem_append.mp hc' with hreceived | hnew
      · exact hs.owned c' hreceived o hold
      · obtain rfl := List.mem_singleton.mp hnew
        exact hunread o hold
    · rw [hsame hindex]
      exact hbuffer b hb
  · intro i k hk
    rcases mem_unreadOrigins_onReceive hs hsize hk with hold | ⟨-, b, hb, hbk⟩
    · exact hs.unread i k hold
    · rw [hbuffer b hb] at hbk
      obtain rfl := Option.some.inj hbk
      exact hopened

theorem Separated.processUserPacket (hs : s.Separated) : s.processUserPacket.Separated := by
  rcases hqueue : s.received with - | ⟨c, rest⟩
  · have hentries : s.mPacketManager.mIncomingPacketUserIndex = [] := by
      rw [hs.entries, hqueue, List.map_nil]
    have hsame : s.processUserPacket = { s with midIteration := true } := by
      simp [ServerState.processUserPacket, PacketManager.processUserPacket_nil hentries, hqueue]
    rw [hsame]
    exact ⟨hs.ordered, hs.entries, hs.events, hs.nodup, hs.created, hs.sizes, hs.owned, hs.unread,
      hs.isolated.dequeued, hs.isolated.discarded⟩
  · obtain ⟨origins, hdequeued, horigins⟩ := dequeued_processUserPacket hs hqueue
    have hentries := hs.entries_cons hqueue
    obtain ⟨hmanager, -⟩ := PacketManager.processUserPacket_cons hentries
    refine ⟨PacketManager.ordered_processUserPacket_cons hs.ordered hentries, ?_, ?_, hs.nodup,
      hs.created, hs.sizes, fun c' hc' o ho => ?_, fun i k hk => ?_,
      fun c' origins' hc' o ho => ?_, hs.isolated.discarded⟩
    · simp only [ServerState.processUserPacket, hmanager, hqueue]
      rfl
    · simp only [ServerState.processUserPacket, hmanager]
      exact hs.events
    · have hreceived : c' ∈ s.received := List.mem_of_mem_tail hc'
      exact hs.owned c' hreceived o (mem_unreadOrigins_processUserPacket hs hqueue ho)
    · exact hs.unread i k (mem_unreadOrigins_processUserPacket hs hqueue hk)
    · rw [hdequeued] at hc'
      rcases List.mem_append.mp hc' with hold | hnew
      · exact hs.isolated.dequeued c' origins' hold o ho
      · obtain ⟨rfl, rfl⟩ := Prod.mk.inj (List.mem_singleton.mp hnew)
        exact hs.owned c' (by rw [hqueue]; exact List.mem_cons_self) o (horigins o ho)

/-- A connect event discards no byte of its connection, none of which has been received. -/
theorem Separated.processSystemPacket (hs : s.Separated) : s.processSystemPacket.Separated := by
  rcases hqueue : s.connects with - | ⟨c, rest⟩
  · have hevents : s.mPacketManager.mSystemPacketQueue = [] := by
      rw [hs.events, hqueue, List.map_nil]
    have hsame : s.processSystemPacket = { s with midIteration := false } := by
      simp [ServerState.processSystemPacket, PacketManager.processSystemPacket_nil hevents, hqueue]
    rw [hsame]
    exact ⟨hs.ordered, hs.entries, hs.events, hs.nodup, hs.created, hs.sizes, hs.owned, hs.unread,
      hs.isolated.dequeued, hs.isolated.discarded⟩
  · have hevents := hs.events_cons hqueue
    have hmanager := PacketManager.processSystemPacket_connect rfl hevents
    have hdiscarded : s.processSystemPacket.discarded =
        s.discarded ++ [(c, s.unreadOrigins c.clientIndex)] := by
      simp [ServerState.processSystemPacket, hqueue]
    have hopened : s.processSystemPacket.opened = s.opened ++ [c.socket] := by
      simp [opened, hdiscarded]
    have haccepted : s.processSystemPacket.accepted = s.accepted := by
      rw [accepted, hopened]
      simp [accepted, ServerState.processSystemPacket, hqueue]
    refine ⟨fun i => ?_, ?_, ?_, haccepted ▸ hs.nodup, haccepted ▸ hs.created, hs.sizes,
      fun c' hc' o ho => hs.owned c' hc' o (mem_unreadOrigins_processSystemPacket hs hqueue ho),
      fun i k hk => ?_, hs.isolated.dequeued, fun c' origins hc' => ?_⟩
    · simp only [user, ServerState.processSystemPacket,
        PacketManager.user_processSystemPacket_connect rfl hevents]
      split_ifs
      · exact User.Ordered.clear
      · exact hs.ordered i
    · simp only [ServerState.processSystemPacket, hmanager]
      exact hs.entries
    · simp only [ServerState.processSystemPacket, hmanager, hqueue]
      rfl
    · rw [hopened]
      apply List.mem_append_left
      exact hs.unread i k (mem_unreadOrigins_processSystemPacket hs hqueue hk)
    · rw [hdiscarded] at hc'
      rcases List.mem_append.mp hc' with hold | hnew
      · exact hs.isolated.discarded c' origins hold
      · obtain ⟨rfl, rfl⟩ := Prod.mk.inj (List.mem_singleton.mp hnew)
        intro hmem
        have hnodup := List.nodup_append.mp hs.nodup
        refine hnodup.2.2 c'.socket (hs.unread _ _ hmem) c'.socket ?_ rfl
        simp [hqueue]

theorem Separated.eraseCompletion (hs : s.Separated) (n : ℕ) :
    Separated { s with completions := s.completions.eraseIdx n } :=
  hs.frame fun c size hc => hs.sizes c size (List.mem_of_mem_eraseIdx hc)

theorem Separated.step (hs : s.Separated) (hC : s.Alone e) (h : serverStep s e = some t) :
    t.Separated := by
  cases e with
  | acceptCompletion i curTimeSec bindRecv now =>
    simp only [serverStep] at h
    split_ifs at h
    obtain rfl := Option.some.inj h
    exact hs.accept i bindRecv now
  | onConnect n =>
    obtain ⟨c, hc, rfl⟩ := Option.map_eq_some_iff.mp h
    exact hs.onConnect hc
  | recvCompletes n data =>
    simp only [serverStep] at h
    split at h
    · cases h
    split_ifs at h with hdata
    obtain rfl := Option.some.inj h
    refine hs.frame fun c' size hc' => ?_
    rcases List.mem_append.mp hc' with hold | hnew
    · exact hs.sizes c' size hold
    · obtain ⟨rfl, rfl⟩ := Prod.mk.inj (List.mem_singleton.mp hnew)
      exact Nat.not_lt.mp fun hlong => hdata (Or.inr (Or.inr hlong))
  | onReceive n bindRecv =>
    obtain ⟨⟨c, size⟩, hc, rfl⟩ := Option.map_eq_some_iff.mp h
    obtain ⟨hopened, hbuffer, hunread, hentries⟩ := hC c size hc
    have hsize := hs.sizes c size (List.mem_of_getElem? hc)
    exact ((hs.eraseCompletion n).onReceive hsize hopened hbuffer hunread hentries).bindRecv _ _
  | recvFails n now =>
    obtain ⟨c, -, rfl⟩ := Option.map_eq_some_iff.mp h
    exact hs.frame hs.sizes
  | closeSocket i now =>
    obtain rfl := Option.some.inj h
    exact hs.closeSocket i now
  | processUserPacket =>
    simp only [serverStep] at h
    split_ifs at h
    obtain rfl := Option.some.inj h
    exact hs.processUserPacket
  | processSystemPacket =>
    simp only [serverStep] at h
    split_ifs at h
    obtain rfl := Option.some.inj h
    exact hs.processSystemPacket

theorem separated_start (maxClient : ℤ) (buffers : ℕ → Memory UInt8)
    (mRecvBuf : ℕ → Memory (UInt8 × Option Socket)) :
    (start maxClient buffers mRecvBuf).Separated where
  ordered := fun _ => ⟨le_refl _, Nat.succ_pos 8095⟩
  entries := rfl
  events := rfl
  nodup := List.nodup_nil
  created := fun _ h => nomatch h
  sizes := fun _ _ h => nomatch h
  owned := fun _ h => nomatch h
  unread := fun _ _ h => nomatch h
  isolated := ⟨fun _ _ h => (nomatch h), fun _ _ h => (nomatch h)⟩

end ServerState

/-- On every run whose receives are handled with nothing of another connection around, the
connections of a slot are isolated. -/
theorem isolated_of_alone (maxClient : ℤ) (buffers : ℕ → Memory UInt8)
    (mRecvBuf : ℕ → Memory (UInt8 × Option Socket)) (es : List ServerEvent)
    (hC : Meets serverStep ServerState.Alone (.start maxClient buffers mRecvBuf) es) :
    Throughout serverStep ServerState.Isolated (.start maxClient buffers mRecvBuf) es :=
  (throughout_of_meets (fun _ _ _ hs hC h => hs.step hC h)
    (ServerState.separated_start maxClient buffers mRecvBuf) hC).mono fun _ hs => hs.isolated

/-- A slot is connected twice, and each time its connect event is processed before it receives a
frame. -/
theorem isolated_reused_slot :
    ∃ s, run serverStep (.start 3 (fun _ _ => 0) fun _ _ => (0, none))
        [.acceptCompletion 0 4 true 4, .onConnect 0, .processUserPacket, .processSystemPacket,
          .recvCompletes 0 [5, 0, 221, 0, 7], .onReceive 0 true, .processUserPacket,
          .processSystemPacket, .recvFails 0 5, .acceptCompletion 0 9 true 9, .onConnect 0,
          .processUserPacket, .processSystemPacket, .recvCompletes 0 [5, 0, 221, 0, 8],
          .onReceive 0 true, .processUserPacket] = some s ∧
      s.dequeued = [(⟨0, 0⟩, List.replicate 5 (some 0)), (⟨0, 1⟩, List.replicate 5 (some 1))] ∧
      Throughout serverStep ServerState.Isolated (.start 3 (fun _ _ => 0) fun _ _ => (0, none))
        [.acceptCompletion 0 4 true 4, .onConnect 0, .processUserPacket, .processSystemPacket,
          .recvCompletes 0 [5, 0, 221, 0, 7], .onReceive 0 true, .processUserPacket,
          .processSystemPacket, .recvFails 0 5, .acceptCompletion 0 9 true 9, .onConnect 0,
          .processUserPacket, .processSystemPacket, .recvCompletes 0 [5, 0, 221, 0, 8],
          .onReceive 0 true, .processUserPacket] := by
  refine ⟨_, rfl, rfl, isolated_of_alone 3 _ _ _ (meets_of_take fun n e he t ht => ?_)⟩
  have halone (socket : Socket) (hcompletions : t.completions = [(⟨0, socket⟩, 5)])
      (hopened : socket ∈ t.opened) (hunread : t.unreadOrigins 0 = []) (hreceived : t.received = [])
      (hbuffer : (t.recvBuffer 0 5).map Prod.snd = List.replicate 5 (some socket)) :
      t.Alone (.onReceive 0 true) := by
    intro c size hc
    rw [hcompletions] at hc
    obtain ⟨rfl, rfl⟩ := Prod.mk.inj (Option.some.inj hc)
    refine ⟨hopened, fun b hb => ?_, ?_, ?_⟩
    · have hmem := List.mem_map_of_mem (f := Prod.snd) hb
      rw [hbuffer] at hmem
      exact List.eq_of_mem_replicate hmem
    · rw [hunread]
      exact fun o ho => absurd ho List.not_mem_nil
    · rw [hreceived]
      exact fun c' hc' => absurd hc' List.not_mem_nil
  rcases n with _ | _ | _ | _ | _ | _ | _ | _ | _ | _ | _ | _ | _ | _ | _ | _ | n <;> cases he <;>
    try trivial
  · have hopened : t.opened = [0] := eq_of_run (fun s => s.opened) ht rfl
    exact halone 0 (eq_of_run (fun s => s.completions) ht rfl) (by rw [hopened]; decide)
      (eq_of_run (fun s => s.unreadOrigins 0) ht rfl) (eq_of_run (fun s => s.received) ht rfl)
      (eq_of_run (fun s => (s.recvBuffer 0 5).map Prod.snd) ht rfl)
  · have hopened : t.opened = [0, 1] := eq_of_run (fun s => s.opened) ht rfl
    exact halone 1 (eq_of_run (fun s => s.completions) ht rfl) (by rw [hopened]; decide)
      (eq_of_run (fun s => s.unreadOrigins 0) ht rfl) (eq_of_run (fun s => s.received) ht rfl)
      (eq_of_run (fun s => (s.recvBuffer 0 5).map Prod.snd) ht rfl)

/-- A connection leaves two bytes of a frame unread and is closed; the next connection of the slot
sends the other three before its connect event is processed, and the frame is made of both. -/
theorem frame_of_two_connections :
    ∃ s, run serverStep (.start 3 (fun _ _ => 0) fun _ _ => (0, none))
        [.acceptCompletion 0 4 true 4, .onConnect 0, .processUserPacket, .processSystemPacket,
          .recvCompletes 0 [5, 0], .onReceive 0 true, .processUserPacket, .processSystemPacket,
          .recvFails 0 5, .acceptCompletion 0 9 true 9, .onConnect 0,
          .recvCompletes 0 [221, 0, 7], .onReceive 0 true, .processUserPacket] = some s ∧
      (⟨0, 1⟩, [some 0, some 0, some 1, some 1, some 1]) ∈ s.dequeued ∧ ¬s.Isolated := by
  refine ⟨_, rfl, by decide, fun hP => ?_⟩
  exact absurd (hP.dequeued ⟨0, 1⟩ [some 0, some 0, some 1, some 1, some 1] (by decide) (some 0)
    (by decide)) (by decide)

end IocpStudy.ChatServer
