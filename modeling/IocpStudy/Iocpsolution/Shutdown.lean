import IocpStudy.Shutdown
import IocpStudy.Iocpsolution.EchoServer

/-! The end of an iocpsolution EchoServer.  `DestroyThread` closes the handle of the completion port
before it joins the workers, whose waits then fail, so `End` always returns.  The chunks that the
process thread has not taken by then are never echoed. -/

namespace IocpStudy.Iocpsolution

open Runs Workers Shutdown

/-- A completion that `WorkerThread` takes: of an `AcceptEx`, with the outcome of
`AcceptCompletion`, of a `WSARecv`, with its bytes, of a `WSASend`, or a failed or empty one. -/
inductive WorkerCompletion
  | accept (clientIndex : ℕ) (completed : Bool)
  | receive (clientIndex : ℕ) (pData : List UInt8)
  | send (clientIndex : ℕ)
  | failed (clientIndex : ℕ)
deriving Repr, DecidableEq

/-- The calls of `OnReceive`.  The case of an accept falls through to that of a receive, with no
bytes. -/
def WorkerCompletion.work : WorkerCompletion → List PacketData
  | .accept clientIndex _ => [⟨clientIndex, []⟩]
  | .receive clientIndex pData => [⟨clientIndex, pData⟩]
  | _ => []

/-- Where the process thread is in `ProcessPacket`: before `DequePacketData`, or behind it with what
it returned. -/
inductive ProcessPoint
  | deque
  | dequeued (packetData : PacketData)
deriving Repr, DecidableEq

/-- The queue of packets and the process thread.  `received` records the chunks that `OnReceive`
was called with, and `sent` those that `SendMsg` was. -/
structure EchoProcess where
  mPacketDataQueue : List PacketData := []
  point : ProcessPoint := .deque
  received : List PacketData := []
  sent : List PacketData := []
deriving Repr, DecidableEq

namespace EchoProcess

def onReceive (s : EchoProcess) (packet : PacketData) : EchoProcess :=
  { s with
    mPacketDataQueue := s.mPacketDataQueue ++ [packet]
    received := s.received ++ [packet] }

/-- A step of the loop in `ProcessPacket`: `DequePacketData`, and then `SendMsg` or the sleep. -/
def process (s : EchoProcess) : EchoProcess :=
  match s.point with
  | .deque =>
    match s.mPacketDataQueue with
    | [] => { s with point := .dequeued {} }
    | packetData :: rest => { s with mPacketDataQueue := rest, point := .dequeued packetData }
  | .dequeued packetData =>
    if packetData.bytes.length ≠ 0 then
      { s with point := .deque, sent := s.sent ++ [packetData] }
    else { s with point := .deque }

end EchoProcess

def ProcessPoint.left : ProcessPoint → ℕ
  | .deque => 2
  | .dequeued _ => 1

/-- The chunk with bytes that the process thread is about to give to `SendMsg`. -/
def ProcessPoint.inHand : ProcessPoint → List PacketData
  | .deque => []
  | .dequeued packetData => [packetData].filter fun p => p.bytes.length ≠ 0

/-- The EchoServer. -/
def program : Program EchoProcess PacketData WorkerCompletion where
  work := WorkerCompletion.work
  call := EchoProcess.onReceive
  process := EchoProcess.process
  iteration := 2
  closesPort := true

/-- The server when `Run` has returned. -/
def startServer (maxIOWorkerThreadCount maxClient : ℕ) :
    Server EchoProcess PacketData WorkerCompletion :=
  .start {} maxIOWorkerThreadCount maxClient

/-- In every run `End` and the workers make a bounded number of steps once `DestroyThread` has
cleared `mIsWorkerRun`, and where nothing can go on `End` has returned. -/
theorem end_returns (maxIOWorkerThreadCount maxClient : ℕ)
    (es es' : List (Shutdown.Event WorkerCompletion))
    (s t : Server EchoProcess PacketData WorkerCompletion)
    (hs : run (step program) (startServer maxIOWorkerThreadCount maxClient) es = some s)
    (ht : run (step program) s es' = some t) :
    (s.workers.running = false → steps es' ≤ s.rank program + brought program es') ∧
      (Settled program t → t.main = .returned) := by
  have hsound : Sound program s := sound_run (sound_start _ _ _) hs
  refine ⟨fun hstop => ?_, returned_of_closes rfl (sound_run hsound ht)⟩
  have hle := steps_le hstop ht
  omega

/-- One worker, which is in its wait when `DestroyThread` begins. -/
theorem end_returns_from_wait :
    ∃ s t, run (step program) (startServer 1 0)
        [.worker 0, .main, .process, .main, .main, .main] = some s ∧
      run (step program) s [.worker 0, .worker 0, .main, .main, .main, .acceptor, .main] = some t ∧
      t.main = .returned ∧ (s.workers.running = false → 6 ≤ s.rank program) ∧
      (Settled program t → t.main = .returned) :=
  ⟨_, _, rfl, rfl, rfl, end_returns 1 0 [.worker 0, .main, .process, .main, .main, .main]
    [.worker 0, .worker 0, .main, .main, .main, .acceptor, .main] _ _ rfl rfl⟩

/-! ### The process thread -/

variable {m : EchoProcess} {c : PacketData}

/-- The chunks with bytes are sent in the order in which they are received. -/
def InOrder (m : EchoProcess) : Prop :=
  m.sent ++ m.point.inHand ++ m.mPacketDataQueue.filter (fun p => p.bytes.length ≠ 0) =
    m.received.filter fun p => p.bytes.length ≠ 0

theorem inOrder_onReceive (h : InOrder m) : InOrder (m.onReceive c) := by
  unfold InOrder at h ⊢
  simp only [EchoProcess.onReceive, List.filter_append]
  rw [← h, ← List.append_assoc]

theorem inOrder_process (h : InOrder m) : InOrder m.process := by
  unfold InOrder EchoProcess.process at *
  cases hpoint : m.point with
  | deque =>
    simp only [hpoint, ProcessPoint.inHand, List.append_nil] at h
    cases hqueue : m.mPacketDataQueue with
    | nil =>
      rw [hqueue] at h
      simpa [ProcessPoint.inHand] using h
    | cons packetData rest =>
      rw [hqueue] at h
      rw [← h]
      simp only [ProcessPoint.inHand, List.append_assoc, ← List.filter_append]
      rfl
  | dequeued packetData =>
    simp only [hpoint, ProcessPoint.inHand] at h
    dsimp only
    by_cases hsize : packetData.bytes.length ≠ 0
    · rw [List.filter_cons_of_pos (by simpa using hsize), List.filter_nil] at h
      rw [if_pos hsize]
      simpa only [ProcessPoint.inHand, List.append_nil] using h
    · rw [List.filter_cons_of_neg (by simpa using hsize), List.filter_nil] at h
      rw [if_neg hsize]
      exact h

theorem process_spec (m : EchoProcess) :
    m.process.point.left = (if m.point.left = 1 then 2 else m.point.left - 1) ∧
      m.process.sent.length ≤ m.sent.length + (if m.point.left = 1 then 1 else 0) := by
  unfold EchoProcess.process
  cases hpoint : m.point with
  | deque => cases hqueue : m.mPacketDataQueue <;> simp [ProcessPoint.left]
  | dequeued packetData =>
    dsimp only
    by_cases hsize : packetData.bytes.length ≠ 0
    · rw [if_pos hsize]
      exact ⟨rfl, (List.length_append).le⟩
    · rw [if_neg hsize]
      exact ⟨rfl, Nat.le_succ _⟩

theorem places : Places program fun m => m.point.left :=
  ⟨fun _ _ => rfl, fun m => (process_spec m).1⟩

/-- What the process thread has sent in `n`, it had sent in `m`, and the queue of `m` is still
there. -/
structure Unsent (m n : EchoProcess) : Prop where
  sent : n.sent = m.sent
  point : n.point = m.point
  queue : m.mPacketDataQueue <+: n.mPacketDataQueue

theorem Unsent.trans {o : EchoProcess} {n : EchoProcess} (h : Unsent m n) (h' : Unsent n o) :
    Unsent m o :=
  ⟨h'.sent.trans h.sent, h'.point.trans h.point, h.queue.trans h'.queue⟩

/-- From the call of `End` on, the process thread sends at most one more chunk.  When it has ended
it sends none, and the chunks with bytes that were never sent are those left in the queue. -/
theorem unsent_after_end (maxIOWorkerThreadCount maxClient : ℕ)
    (es es' : List (Shutdown.Event WorkerCompletion))
    (s t : Server EchoProcess PacketData WorkerCompletion)
    (hs : run (step program) (startServer maxIOWorkerThreadCount maxClient) es = some s)
    (hflag : s.mIsProcessThreadRunning = false) (ht : run (step program) s es' = some t) :
    t.manager.sent.length ≤ s.manager.sent.length + 1 ∧ InOrder t.manager ∧
      (s.processThread = .ended → t.manager.point = .deque ∧ Unsent s.manager t.manager) := by
  have ha : Aligned program (fun m => m.point.left) s :=
    run_invariant (fun _ _ _ hs hst => aligned_step places hs hst)
      (show Aligned _ _ (startServer maxIOWorkerThreadCount maxClient) from rfl) hs
  refine ⟨?_, ?_, fun hended => ?_⟩
  · exact counted_run (f := fun m => m.sent.length) places (fun _ _ => rfl)
      (fun m => (process_spec m).2) ha hflag ht
  · exact manager_invariant (fun _ _ hm => inOrder_onReceive hm) (fun _ hm => inOrder_process hm)
      (show InOrder (startServer maxIOWorkerThreadCount maxClient).manager from rfl)
      (run_append_eq_some.mpr ⟨s, hs, ht⟩)
  · have hpoint : s.manager.point = .deque := by
      have hnone : left s = 0 := by
        rw [left, hended]
      have hleft : s.manager.point.left = 2 := by
        rw [show s.manager.point.left = _ from ha, hnone]
        rfl
      cases hm : s.manager.point with
      | deque => rfl
      | dequeued packetData =>
        rw [hm] at hleft
        exact absurd hleft (show ¬1 = 2 by decide)
    have hunsent : Unsent s.manager t.manager :=
      related_run (fun _ => ⟨rfl, rfl, List.prefix_refl _⟩) Unsent.trans
        (fun _ _ => ⟨rfl, rfl, List.prefix_append _ _⟩) hended ht
    exact ⟨hunsent.point.trans hpoint, hunsent⟩

/-- A chunk that is received while `End` joins the process thread is not echoed. -/
theorem unsent_after_end_received :
    ∃ s t, run (step program) (startServer 1 1)
        [.arrive (.receive 0 [1]), .worker 0, .worker 0, .worker 0, .worker 0, .main, .process] =
          some s ∧
      run (step program) s [.main, .main, .main, .worker 0, .main, .main, .main, .acceptor, .main] =
        some t ∧
      t.main = .returned ∧ t.manager.mPacketDataQueue = [⟨0, [1]⟩] ∧
      t.manager.sent.length ≤ s.manager.sent.length + 1 ∧ InOrder t.manager ∧
      (s.processThread = .ended → t.manager.point = .deque ∧ Unsent s.manager t.manager) :=
  ⟨_, _, rfl, rfl, rfl, rfl, unsent_after_end 1 1
    [.arrive (.receive 0 [1]), .worker 0, .worker 0, .worker 0, .worker 0, .main, .process]
    [.main, .main, .main, .worker 0, .main, .main, .main, .acceptor, .main] _ _ rfl rfl rfl⟩

end IocpStudy.Iocpsolution
