import IocpStudy.Shutdown
import IocpStudy.ChatServer.ProcessThread

/-! The end of a ChatServer.  `End` joins the process thread before the workers stop, so what the
workers queue from then on is never handled.  `DestroyThread` joins the workers without a word to
the completion port, and closes the listening socket behind that join, so that it returns only if
enough completions happen to come. -/

namespace IocpStudy.ChatServer

open Runs Workers Shutdown

/-- A completion that `WorkerThread` takes: of an `AcceptEx`, with the outcome of
`AcceptCompletion`, of a `WSARecv`, with its bytes, of a `WSASend`, or a failed or empty one. -/
inductive WorkerCompletion
  | accept (clientIndex : ℕ) (completed : Bool)
  | receive (clientIndex : ℕ) (pData : List UInt8)
  | send (clientIndex : ℕ)
  | failed (clientIndex : ℕ)
deriving Repr, DecidableEq

/-- A call of a worker that changes the `PacketManager`. -/
inductive WorkerCall
  | setPacketData (clientIndex : ℕ) (pData : List UInt8)
  | enqueuePacket (clientIndex : ℕ)
  | enqueueSystemPacket (event : SystemEvent)
deriving Repr, DecidableEq

/-- What `WorkerThread` calls for a completion.  `OnConnect` queues a system packet, and
`OnReceive` is `ReceivePacket`, of two parts.  `CloseSocket` does not call `OnClose`. -/
def WorkerCompletion.work : WorkerCompletion → List WorkerCall
  | .accept clientIndex true => [.enqueueSystemPacket (.connect clientIndex)]
  | .receive clientIndex pData => [.setPacketData clientIndex pData, .enqueuePacket clientIndex]
  | _ => []

/-- The same call as an event of the manager. -/
def WorkerCall.event : WorkerCall → ManagerEvent
  | .setPacketData clientIndex pData => .setPacketData clientIndex pData
  | .enqueuePacket clientIndex => .enqueuePacket clientIndex
  | .enqueueSystemPacket event => .enqueueSystemPacket event

namespace EventState

def call (s : EventState) : WorkerCall → EventState
  | .setPacketData clientIndex pData =>
    let user := (s.mPacketManager.user clientIndex).setPacketData pData
    { s with mPacketManager := s.mPacketManager.setUser clientIndex user }
  | .enqueuePacket clientIndex =>
    { s with mPacketManager := s.mPacketManager.enqueuePacket clientIndex }
  | .enqueueSystemPacket event =>
    { s with
      mPacketManager := s.mPacketManager.enqueueSystemPacket event.packet
      enqueued := s.enqueued ++ [event] }

end EventState

/-- ChatServer.  An iteration of `ProcessPacket` has the four steps of `EventState.process`. -/
def program : Program EventState WorkerCall WorkerCompletion where
  work := WorkerCompletion.work
  call := EventState.call
  process := EventState.process
  iteration := 4
  closesPort := false

/-- The server when `Run` has returned, with `maxIOThreadCount` workers and `maxClient` clients. -/
def startServer (maxIOThreadCount maxClient : ℕ) (buffers : ℕ → Memory UInt8) :
    Server EventState WorkerCall WorkerCompletion :=
  .start { mPacketManager := .start maxClient buffers } maxIOThreadCount maxClient

variable {s t : Server EventState WorkerCall WorkerCompletion} {e : Shutdown.Event WorkerCompletion}
  {es : List (Shutdown.Event WorkerCompletion)} {m n : EventState}

/-! ### `DestroyThread` -/

/-- Once `DestroyThread` has cleared `mIsWorkerRunning`, `End` and the workers make a bounded number
of steps, and when nothing can go on `End` has returned exactly if a completion has come for each
worker that was in its wait. -/
theorem end_returns_iff (maxIOThreadCount maxClient : ℕ) (buffers : ℕ → Memory UInt8)
    (es es' : List (Shutdown.Event WorkerCompletion))
    (s t : Server EventState WorkerCall WorkerCompletion)
    (hs : run (step program) (startServer maxIOThreadCount maxClient buffers) es = some s)
    (hstop : s.workers.running = false) (ht : run (step program) s es' = some t) :
    steps es' ≤ s.rank program + brought program es' ∧
      (Settled program t →
        (t.main = .returned ↔
          s.workers.waiting ≤ s.workers.queue.length + (arrivals es').length)) := by
  have hsound : Sound program s := sound_run (sound_start _ _ _) hs
  refine ⟨?_, fun hsettled => returned_iff_of_open rfl hsound hstop ht hsettled⟩
  have hle := steps_le hstop ht
  omega

/-- One client slot, which the acceptor has posted, and one worker, which is in its wait when
`DestroyThread` begins: `End` does not return before a client connects. -/
theorem end_returns_with_completion :
    ∃ s, run (step program) (startServer 1 1 fun _ _ => 0)
        [.acceptor, .acceptor, .acceptor, .worker 0, .main, .process, .main, .main] = some s ∧
      Settled program s ∧ s.main = .joinWorkers 0 ∧
      ∃ t, run (step program) s [.arrive (.accept 0 true), .worker 0, .worker 0, .worker 0,
          .worker 0, .main, .main, .main, .acceptor, .main] = some t ∧
        t.main = .returned ∧
        (Settled program t →
          (t.main = .returned ↔ s.workers.waiting ≤ s.workers.queue.length + 1)) := by
  refine ⟨_, rfl, ⟨rfl, rfl, fun i => ?_, fun hflag => ?_⟩, rfl, _, rfl, rfl, ?_⟩
  · cases i <;> rfl
  · exact absurd hflag (show ¬true = false by decide)
  · exact (end_returns_iff 1 1 (fun _ _ => 0)
      [.acceptor, .acceptor, .acceptor, .worker 0, .main, .process, .main, .main]
      [.arrive (.accept 0 true), .worker 0, .worker 0, .worker 0, .worker 0, .main, .main, .main,
        .acceptor, .main]
      _ _ rfl rfl rfl).2

/-! ### The process thread -/

theorem eventStep_call (m : EventState) (c : WorkerCall) :
    eventStep m c.event = some (m.call c) := by
  cases c <;> rfl

/-- What the server does to its manager is a run of the manager. -/
theorem manager_step (h : step program s e = some t) :
    ∃ ms, run eventStep s.manager ms = some t.manager := by
  cases e with
  | main => cases ends_of_step h <;> exact ⟨[], rfl⟩
  | process =>
    obtain ⟨processThread, -, rfl⟩ := Option.map_eq_some_iff.mp h
    split
    next => exact ⟨[.process], rfl⟩
    next => exact ⟨[], rfl⟩
  | worker i =>
    obtain ⟨⟨workers, call⟩, -, rfl⟩ := Option.map_eq_some_iff.mp h
    cases call with
    | none => exact ⟨[], rfl⟩
    | some c =>
      refine ⟨[c.event], ?_⟩
      rw [run_cons, eventStep_call]
      rfl
  | acceptor =>
    obtain ⟨acceptorThread, -, rfl⟩ := Option.map_eq_some_iff.mp h
    exact ⟨[], rfl⟩
  | arrive completion =>
    obtain rfl := Option.some.inj h
    exact ⟨[], rfl⟩

theorem manager_run (h : run (step program) s es = some t) :
    ∃ ms, run eventStep s.manager ms = some t.manager := by
  induction es generalizing s with
  | nil =>
    obtain rfl := Option.some.inj h
    exact ⟨[], rfl⟩
  | cons e es ih =>
    obtain ⟨u, hu, hrun⟩ := run_cons_eq_some.mp h
    obtain ⟨ms, hms⟩ := manager_step hu
    obtain ⟨ns, hns⟩ := ih hrun
    exact ⟨ms ++ ns, run_append_eq_some.mpr ⟨u.manager, hms, hns⟩⟩

theorem tracked_run {maxClient : ℤ} {buffers : ℕ → Memory UInt8} {ms : List ManagerEvent}
    (h : run eventStep { mPacketManager := .start maxClient buffers } ms = some m) : m.Tracked := by
  have hstart : ({ mPacketManager := .start maxClient buffers } : EventState).Tracked :=
    ⟨⟨rfl, rfl, List.Sublist.refl _⟩, fun p hp => by cases hp⟩
  exact run_invariant (fun _ _ _ hs hst => tracked_step hs hst) hstart h

/-- What the process thread has handled in `n`, it had handled in `m`, and the queues of `m` are
still there. -/
structure Unhandled (m n : EventState) : Prop where
  taken : n.taken = m.taken
  dequeued : n.dequeued = m.dequeued
  invocations : n.invocations = m.invocations
  users : m.mPacketManager.mIncomingPacketUserIndex <+:
    n.mPacketManager.mIncomingPacketUserIndex
  system : m.mPacketManager.mSystemPacketQueue <+: n.mPacketManager.mSystemPacketQueue

theorem Unhandled.refl (m : EventState) : Unhandled m m :=
  ⟨rfl, rfl, rfl, List.prefix_refl _, List.prefix_refl _⟩

theorem unhandled_call (m : EventState) (c : WorkerCall) : Unhandled m (m.call c) := by
  cases c with
  | setPacketData clientIndex pData =>
    exact ⟨rfl, rfl, rfl, List.prefix_refl _, List.prefix_refl _⟩
  | enqueuePacket clientIndex =>
    exact ⟨rfl, rfl, rfl, List.prefix_append _ _, List.prefix_refl _⟩
  | enqueueSystemPacket event =>
    exact ⟨rfl, rfl, rfl, List.prefix_refl _, List.prefix_append _ _⟩

theorem Unhandled.trans {o : EventState} (h : Unhandled m n) (h' : Unhandled n o) :
    Unhandled m o :=
  ⟨h'.taken.trans h.taken, h'.dequeued.trans h.dequeued, h'.invocations.trans h.invocations,
    h.users.trans h'.users, h.system.trans h'.system⟩

/-- A step of the process thread takes at most one packet, at its place in the iteration. -/
theorem process_takes (m : EventState) :
    m.process.taken.length ≤ m.taken.length + (if m.point.left = 4 then 1 else 0) ∧
      m.process.dequeued.length ≤ m.dequeued.length + (if m.point.left = 2 then 1 else 0) := by
  obtain ⟨-, htaken, hdequeued⟩ := process_spec m
  split_ifs at htaken hdequeued ⊢ <;> omega

theorem places : Places program fun m => m.point.left :=
  ⟨fun _ c => by cases c <;> rfl, fun m => (process_spec m).1⟩

/-- From the call of `End` on, the process thread takes at most one more packet of a user and one
more system packet.  When it has ended, what the workers queue is never handled; and the system
packets that were never taken are those left in the queue. -/
theorem unhandled_after_end (maxIOThreadCount maxClient : ℕ) (buffers : ℕ → Memory UInt8)
    (es es' : List (Shutdown.Event WorkerCompletion))
    (s t : Server EventState WorkerCall WorkerCompletion)
    (hs : run (step program) (startServer maxIOThreadCount maxClient buffers) es = some s)
    (hflag : s.mIsProcessThreadRunning = false) (ht : run (step program) s es' = some t) :
    t.manager.taken.length ≤ s.manager.taken.length + 1 ∧
      t.manager.dequeued.length ≤ s.manager.dequeued.length + 1 ∧
      (s.processThread = .ended → Unhandled s.manager t.manager) ∧
      t.manager.dequeued ++ t.manager.mPacketManager.mSystemPacketQueue =
        t.manager.enqueued.map SystemEvent.packet := by
  have ha : Aligned program (fun m => m.point.left) s :=
    run_invariant (fun _ _ _ hs hst => aligned_step places hs hst)
      (show Aligned _ _ (startServer maxIOThreadCount maxClient buffers) from rfl) hs
  obtain ⟨ms, hms⟩ := manager_run (run_append_eq_some.mpr ⟨s, hs, ht⟩)
  refine ⟨?_, ?_, fun hended => ?_, ?_⟩
  · exact counted_run (f := fun m => m.taken.length) places (fun _ c => by cases c <;> rfl)
      (fun m => (process_takes m).1) ha hflag ht
  · exact counted_run (f := fun m => m.dequeued.length) places (fun _ c => by cases c <;> rfl)
      (fun m => (process_takes m).2) ha hflag ht
  · exact related_run Unhandled.refl Unhandled.trans unhandled_call hended ht
  · exact (tracked_run hms).queued

/-- What is received while `End` joins the workers stays in the queue. -/
theorem unhandled_after_end_received :
    ∃ s t, run (step program) (startServer 1 1 fun _ _ => 0)
        [.worker 0, .main, .process, .main, .main] = some s ∧
      run (step program) s [.arrive (.receive 0 [5, 0, 201, 0, 0]), .worker 0, .worker 0, .worker 0,
        .worker 0, .worker 0, .main, .main, .main, .acceptor, .main] = some t ∧
      t.main = .returned ∧ t.manager.mPacketManager.mIncomingPacketUserIndex = [0] ∧
      t.manager.taken.length ≤ s.manager.taken.length + 1 ∧
      t.manager.dequeued.length ≤ s.manager.dequeued.length + 1 ∧
      (s.processThread = .ended → Unhandled s.manager t.manager) ∧
      t.manager.dequeued ++ t.manager.mPacketManager.mSystemPacketQueue =
        t.manager.enqueued.map SystemEvent.packet :=
  ⟨_, _, rfl, rfl, rfl, rfl, unhandled_after_end 1 1 (fun _ _ => 0)
    [.worker 0, .main, .process, .main, .main]
    [.arrive (.receive 0 [5, 0, 201, 0, 0]), .worker 0, .worker 0, .worker 0, .worker 0, .worker 0,
      .main, .main, .main, .acceptor, .main] _ _ rfl rfl rfl⟩

end IocpStudy.ChatServer
