import Mathlib.Logic.Function.Basic
import IocpStudy.OneSend

/-! `EchoServer`: what the clients receive is queued by the worker threads, and the process thread
gives it back to `SendMsg` of the same client, one chunk at a time.  The lock sections of the two
queues are interleaved in any order.  A chunk without bytes looks to the process thread like an
empty queue, and is dropped. -/

namespace IocpStudy.Iocpsolution

open Runs OneSend

/-- `bytes` are the `DataSize` bytes of the copy that `pPacketData` points to. -/
structure PacketData where
  SessionIndex : ℕ := 0
  bytes : List UInt8 := []
deriving Repr, DecidableEq

/-- `packetData` is what the process thread has dequeued and not yet given to `SendMsg`, and
`clients` the send queues of the clients.  `completed` records the buffers whose completion was
handled. -/
structure EchoServer where
  mPacketDataQueue : List PacketData := []
  packetData : Option PacketData := none
  clients : ℕ → OneSend.State := fun _ => {}
  completed : ℕ → List (List UInt8) := fun _ => []

/-- `sendMsg` is the lock section of the process thread's call of `SendMsg`, and `sendCompleted`
that of a worker thread for the outstanding send number `k` of a client; `wsaSend` is the outcome
of the `WSASend` that they may call. -/
inductive EchoEvent
  | onReceive (clientIndex : ℕ) (pData : List UInt8)
  | dequePacketData
  | sendMsg (wsaSend : Bool)
  | sendCompleted (clientIndex k : ℕ) (wsaSend : Bool)
deriving Repr, DecidableEq

namespace EchoServer

def onReceive (s : EchoServer) (clientIndex : ℕ) (pData : List UInt8) : EchoServer :=
  { s with mPacketDataQueue := s.mPacketDataQueue ++ [⟨clientIndex, pData⟩] }

def dequePacketData (s : EchoServer) : PacketData × EchoServer :=
  match s.mPacketDataQueue with
  | [] => ({}, s)
  | packetData :: rest => (packetData, { s with mPacketDataQueue := rest })

end EchoServer

def echoStep (s : EchoServer) : EchoEvent → Option EchoServer
  | .onReceive clientIndex pData => some (s.onReceive clientIndex pData)
  | .dequePacketData =>
    match s.packetData with
    | some _ => none
    | none =>
      let (packetData, s) := s.dequePacketData
      some (if packetData.bytes.length ≠ 0 then { s with packetData := some packetData } else s)
  | .sendMsg wsaSend =>
    s.packetData.bind fun packetData =>
      let i := packetData.SessionIndex
      (OneSend.step (s.clients i) (.sendMsg packetData.bytes wsaSend)).map fun client =>
        { s with packetData := none, clients := Function.update s.clients i client }
  | .sendCompleted i k wsaSend =>
    (OneSend.step (s.clients i) (.completed k wsaSend)).map fun client =>
      let done := (s.clients i).mSendQueue.head?.toList.map StOverlappedEx.bytes
      { s with
        clients := Function.update s.clients i client
        completed := Function.update s.completed i (s.completed i ++ done) }

/-- The chunks with bytes that the events of a run append for the client `i`. -/
def appended (i : ℕ) (es : List EchoEvent) : List (List UInt8) :=
  es.filterMap fun
    | .onReceive clientIndex pData => if clientIndex = i ∧ pData ≠ [] then some pData else none
    | _ => none

namespace EchoServer

/-- The chunks with bytes for the client `i` in the packet queue. -/
def queued (s : EchoServer) (i : ℕ) : List (List UInt8) :=
  s.mPacketDataQueue.filterMap fun packetData =>
    if packetData.SessionIndex = i ∧ packetData.bytes ≠ [] then some packetData.bytes else none

/-- The chunk for the client `i` in the process thread's hand. -/
def inHand (s : EchoServer) (i : ℕ) : List (List UInt8) :=
  (s.packetData.filter fun packetData => packetData.SessionIndex = i).toList.map PacketData.bytes

/-- The buffers in the send queue of the client `i`. -/
def sending (s : EchoServer) (i : ℕ) : List (List UInt8) :=
  (s.clients i).mSendQueue.map StOverlappedEx.bytes

/-- Where the chunks for the client `i` are, from the oldest on. -/
def chunks (s : EchoServer) (i : ℕ) : List (List UInt8) :=
  s.completed i ++ s.sending i ++ s.inHand i ++ s.queued i

/-- The chunks appended for a client are the completed ones, then those in its send queue, in the
process thread's hand and in the packet queue; and the buffers submitted on it are the first of
them, each submitted once. -/
structure Echoes (s : EchoServer) (es : List EchoEvent) : Prop where
  located : ∀ i, s.chunks i = appended i es
  submitted : ∀ i, (s.clients i).calls.map StOverlappedEx.bytes <+: appended i es
  once : ∀ i, (s.clients i).calls.Nodup

end EchoServer

/-! ### A step moves the chunks one place on -/

variable {s t : EchoServer} {e : EchoEvent} {es : List EchoEvent} {i : ℕ}

theorem chunks_onReceive (s : EchoServer) (clientIndex : ℕ) (pData : List UInt8) (i : ℕ) :
    (s.onReceive clientIndex pData).chunks i =
      s.chunks i ++ appended i [.onReceive clientIndex pData] := by
  have hqueued : (s.onReceive clientIndex pData).queued i =
      s.queued i ++ appended i [.onReceive clientIndex pData] := by
    simp only [EchoServer.queued, EchoServer.onReceive, List.filterMap_append, appended]
    rfl
  rw [EchoServer.chunks, hqueued, ← List.append_assoc]
  rfl

theorem inHand_of_none (h : s.packetData = none) : s.inHand i = [] := by
  rw [EchoServer.inHand, h]
  rfl

theorem inHand_of_some {packetData : PacketData} (h : s.packetData = some packetData) :
    s.inHand i = if packetData.SessionIndex = i then [packetData.bytes] else [] := by
  rw [EchoServer.inHand, h, Option.filter_some]
  by_cases hi : packetData.SessionIndex = i <;> simp [hi]

theorem queued_of_cons {packetData : PacketData} {rest : List PacketData}
    (h : s.mPacketDataQueue = packetData :: rest) :
    s.queued i = (if packetData.SessionIndex = i ∧ packetData.bytes ≠ [] then [packetData.bytes]
      else []) ++ EchoServer.queued { s with mPacketDataQueue := rest } i := by
  rw [EchoServer.queued, h, List.filterMap_cons]
  split_ifs <;> rfl

theorem chunks_dequePacketData (h : echoStep s .dequePacketData = some t) :
    t.chunks i = s.chunks i := by
  simp only [echoStep] at h
  cases hhand : s.packetData with
  | some packetData => simp [hhand] at h
  | none =>
    simp only [hhand] at h
    obtain rfl := Option.some.inj h
    rcases hqueue : s.mPacketDataQueue with - | ⟨packetData, rest⟩
    · simp [EchoServer.dequePacketData, hqueue]
    · simp only [EchoServer.dequePacketData, hqueue]
      have hbefore : s.chunks i = s.completed i ++ s.sending i ++ s.queued i := by
        rw [EchoServer.chunks, inHand_of_none hhand, List.append_nil]
      rw [hbefore, queued_of_cons hqueue]
      by_cases hbytes : packetData.bytes = []
      · -- The chunk is dropped, and was not counted.
        have hhand' : ({ s with mPacketDataQueue := rest } : EchoServer).inHand i = [] :=
          inHand_of_none hhand
        rw [if_neg (by simp [hbytes]), if_neg (by simp [hbytes]), List.nil_append,
          EchoServer.chunks, hhand', List.append_nil]
        rfl
      · rw [if_pos (by simpa using hbytes), EchoServer.chunks, inHand_of_some rfl,
          List.append_assoc _ _ (EchoServer.queued _ i)]
        simp only [ne_eq, hbytes, not_false_eq_true, and_true]
        rfl

theorem chunks_sendMsg {wsaSend : Bool} (h : echoStep s (.sendMsg wsaSend) = some t) :
    t.chunks i = s.chunks i := by
  simp only [echoStep] at h
  obtain ⟨packetData, hhand, h⟩ := Option.bind_eq_some_iff.mp h
  obtain ⟨client, hclient, rfl⟩ := Option.map_eq_some_iff.mp h
  have hpushed := OneSend.queue_sendMsg hclient
  rw [EchoServer.chunks, EchoServer.chunks, inHand_of_none rfl, inHand_of_some hhand,
    List.append_nil]
  by_cases hi : packetData.SessionIndex = i
  · subst hi
    rw [if_pos rfl]
    simp [EchoServer.sending, EchoServer.queued, hpushed]
  · rw [if_neg hi, List.append_nil]
    simp [EchoServer.sending, EchoServer.queued, Function.update_of_ne (Ne.symm hi)]

theorem chunks_sendCompleted {j k : ℕ} {wsaSend : Bool}
    (h : echoStep s (.sendCompleted j k wsaSend) = some t) : t.chunks i = s.chunks i := by
  simp only [echoStep] at h
  obtain ⟨client, hclient, rfl⟩ := Option.map_eq_some_iff.mp h
  have htail := OneSend.queue_completed hclient
  by_cases hi : i = j
  · subst hi
    have hsending : (s.clients i).mSendQueue.head?.toList.map StOverlappedEx.bytes ++
        client.mSendQueue.map StOverlappedEx.bytes = s.sending i := by
      rw [htail, EchoServer.sending, ← List.map_append]
      cases (s.clients i).mSendQueue <;> rfl
    rw [EchoServer.chunks, EchoServer.chunks, ← hsending]
    simp [EchoServer.sending, EchoServer.inHand, EchoServer.queued]
  · simp [EchoServer.chunks, EchoServer.sending, EchoServer.inHand, EchoServer.queued,
      Function.update_of_ne hi]

theorem chunks_step (h : echoStep s e = some t) : t.chunks i = s.chunks i ++ appended i [e] := by
  cases e with
  | onReceive clientIndex pData =>
    obtain rfl := Option.some.inj h
    exact chunks_onReceive s clientIndex pData i
  | dequePacketData => exact (chunks_dequePacketData h).trans (List.append_nil _).symm
  | sendMsg wsaSend => exact (chunks_sendMsg h).trans (List.append_nil _).symm
  | sendCompleted j k wsaSend => exact (chunks_sendCompleted h).trans (List.append_nil _).symm

theorem chunks_of_run (h : run echoStep s es = some t) :
    t.chunks i = s.chunks i ++ appended i es :=
  run_appends (f := fun s => s.chunks i) rfl (fun e _ => List.filterMap_append (l := [e]))
    (fun _ _ _ hst => chunks_step hst) h

/-! ### The send queue of a client -/

/-- The send queue takes one step of `OneSend` at most, and the buffers pushed to it are those
completed and those in it. -/
structure EchoServer.Sends (s : EchoServer) (i : ℕ) : Prop where
  one : (s.clients i).OneAtATime
  pushed : (s.clients i).pushed.map StOverlappedEx.bytes = s.completed i ++ s.sending i

theorem EchoServer.Sends.congr (h : s.Sends i) (hclients : t.clients = s.clients)
    (hcompleted : t.completed = s.completed) : t.Sends i := by
  constructor
  · rw [hclients]
    exact h.one
  · rw [EchoServer.sending, hclients, hcompleted]
    exact h.pushed

/-- A step of the client `j` that completes the buffers `d`. -/
theorem sends_update {j : ℕ} {client : OneSend.State} {d : List (List UInt8)}
    (hs : ∀ i, s.Sends i) (hclients : t.clients = Function.update s.clients j client)
    (hcompleted : t.completed = Function.update s.completed j (s.completed j ++ d))
    (hone : client.OneAtATime)
    (hpushed : client.pushed.map StOverlappedEx.bytes =
      s.completed j ++ (d ++ client.mSendQueue.map StOverlappedEx.bytes)) (i : ℕ) :
    t.Sends i := by
  by_cases hi : i = j
  · subst hi
    refine ⟨?_, ?_⟩
    · rw [hclients, Function.update_self]
      exact hone
    · rw [EchoServer.sending, hclients, hcompleted, Function.update_self, Function.update_self,
        hpushed, List.append_assoc]
  · refine ⟨?_, ?_⟩
    · rw [hclients, Function.update_of_ne hi]
      exact (hs i).one
    · rw [EchoServer.sending, hclients, hcompleted, Function.update_of_ne hi,
        Function.update_of_ne hi]
      exact (hs i).pushed

theorem sends_step (hs : ∀ i, s.Sends i) (h : echoStep s e = some t) (i : ℕ) : t.Sends i := by
  cases e with
  | onReceive clientIndex pData =>
    obtain rfl := Option.some.inj h
    exact (hs i).congr rfl rfl
  | dequePacketData =>
    simp only [echoStep] at h
    cases hhand : s.packetData with
    | some packetData => simp [hhand] at h
    | none =>
      simp only [hhand, EchoServer.dequePacketData] at h
      obtain rfl := Option.some.inj h
      refine (hs i).congr ?_ ?_ <;> cases s.mPacketDataQueue <;> simp only <;> split_ifs <;> rfl
  | sendMsg wsaSend =>
    simp only [echoStep] at h
    obtain ⟨packetData, hhand, h⟩ := Option.bind_eq_some_iff.mp h
    obtain ⟨client, hclient, rfl⟩ := Option.map_eq_some_iff.mp h
    have hbefore := (hs packetData.SessionIndex).pushed
    refine sends_update (d := []) hs rfl (by simp)
      (oneAtATime_step (hs packetData.SessionIndex).one hclient) ?_ i
    rw [OneSend.pushed_of_step hclient, OneSend.queue_sendMsg hclient, hbefore, List.map_append,
      List.append_assoc]
    rfl
  | sendCompleted j k wsaSend =>
    simp only [echoStep] at h
    obtain ⟨client, hclient, rfl⟩ := Option.map_eq_some_iff.mp h
    have hbefore := (hs j).pushed
    refine sends_update hs rfl rfl (oneAtATime_step (hs j).one hclient) ?_ i
    rw [OneSend.pushed_of_step hclient, OneSend.queue_completed hclient, hbefore, ← List.map_append]
    simp only [EchoServer.sending, messages]
    cases (s.clients j).mSendQueue <;> simp

/-- In every run each chunk with bytes is at one place on its way back, and every client is sent its
own chunks in the order in which they were received. -/
theorem echoes_run (es : List EchoEvent) (s : EchoServer) (h : run echoStep {} es = some s) :
    s.Echoes es := by
  have hchunks (i : ℕ) : s.chunks i = appended i es := chunks_of_run h
  have hsends : ∀ i, s.Sends i := run_invariant (fun _ _ _ hs hst => sends_step hs hst)
    (fun i => ⟨⟨⟨[], rfl, rfl⟩, Or.inl rfl, rfl, rfl⟩, rfl⟩) h
  refine ⟨hchunks, fun i => ?_, fun i => (hsends i).one.inOrder.calls_once⟩
  have hpushed : (s.clients i).pushed.map StOverlappedEx.bytes <+: s.chunks i := by
    rw [(hsends i).pushed, EchoServer.chunks, List.append_assoc _ (s.inHand i)]
    exact List.prefix_append _ _
  rw [← hchunks i]
  exact ((hsends i).one.inOrder.calls_prefix.map StOverlappedEx.bytes).trans hpushed

/-- Two clients and a chunk without bytes: the second chunk of the first client waits for the first
one, whose send is outstanding. -/
theorem echoes_two_clients :
    ∃ s, run echoStep {} [.onReceive 0 [1], .onReceive 0 [], .onReceive 1 [2], .onReceive 0 [3],
        .dequePacketData, .sendMsg true, .dequePacketData, .dequePacketData, .sendMsg false,
        .dequePacketData, .sendMsg true] = some s ∧
      (s.clients 0).calls.map StOverlappedEx.bytes = [[1]] ∧ s.chunks 0 = [[1], [3]] ∧
      s.chunks 1 = [[2]] ∧
      s.Echoes [.onReceive 0 [1], .onReceive 0 [], .onReceive 1 [2], .onReceive 0 [3],
        .dequePacketData, .sendMsg true, .dequePacketData, .dequePacketData, .sendMsg false,
        .dequePacketData, .sendMsg true] :=
  ⟨_, rfl, rfl, rfl, rfl, echoes_run _ _ rfl⟩

end IocpStudy.Iocpsolution
