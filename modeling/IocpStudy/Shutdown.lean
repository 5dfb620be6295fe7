import IocpStudy.Lib.Workers

/-! `End` of the two servers on `IOCPServer`, ChatServer and iocpsolution, and the threads that it
joins: the process thread, the worker threads and the acceptor thread.  The two differ in what the
threads do and in that iocpsolution's `DestroyThread` closes the handle of the completion port
before it joins the workers.  The threads are interleaved in any order. -/

namespace IocpStudy.Shutdown

open Runs Workers

/-- What differs between the servers.  `work` are the calls by which a worker handles a completion,
`call` is what one of them does to the state that it shares with the process thread, and `process`
is a step of the process thread, of which an iteration of its loop has `iteration`. -/
structure Program (μ ε κ : Type*) where
  work : κ → List ε
  call : μ → ε → μ
  process : μ → μ
  iteration : ℕ
  closesPort : Bool

/-- Where a thread is in its loop: before the test of the flag, with `left` steps of its iteration
left, or behind the loop. -/
inductive LoopPoint
  | testing
  | iterating (left : ℕ)
  | ended
deriving Repr, DecidableEq

/-- Where the main thread is: before `End`, at the join of the process thread, and then in
`DestroyThread`, where `joined` workers have been joined. -/
inductive MainPoint
  | serving
  | joinProcess
  | destroyThread
  | closeHandle
  | joinWorkers (joined : ℕ)
  | closeListener
  | joinAcceptor
  | returned
deriving Repr, DecidableEq

/-- `workers` are the worker threads with the flag that they test and the completion port, and
`manager` is what they share with the process thread. -/
structure Server (μ ε κ : Type*) where
  main : MainPoint := .serving
  manager : μ
  mIsProcessThreadRunning : Bool := true
  processThread : LoopPoint := .testing
  workers : Pool κ ε
  mIsAcceptorRunning : Bool := true
  acceptorThread : LoopPoint := .testing
  clientCount : ℕ

/-- `main`, `process`, `worker i` and `acceptor` are steps of the threads, and `arrive` queues a
completion on the port. -/
inductive Event (κ : Type*)
  | main
  | process
  | worker (i : ℕ)
  | acceptor
  | arrive (completion : κ)
deriving Repr, DecidableEq

variable {μ ε κ : Type*}

/-- A step of a thread with a loop on `flag`, where `iteration` is the length of an iteration. -/
def LoopPoint.next (flag : Bool) (iteration : ℕ) : LoopPoint → Option LoopPoint
  | .testing => some (if flag then .iterating iteration else .ended)
  | .iterating 0 => some .testing
  | .iterating (left + 1) => some (.iterating left)
  | .ended => none

namespace Server

/-- A step of `End`, which has returned from each `join` only when the thread has ended. -/
def mainThread (closesPort : Bool) (s : Server μ ε κ) : Option (Server μ ε κ) :=
  match s.main with
  | .serving => some { s with main := .joinProcess, mIsProcessThreadRunning := false }
  | .joinProcess =>
    if s.processThread = .ended then some { s with main := .destroyThread } else none
  | .destroyThread =>
    some { s with
      main := if closesPort then .closeHandle else .joinWorkers 0
      workers := { s.workers with running := false } }
  | .closeHandle =>
    some { s with main := .joinWorkers 0, workers := { s.workers with opened := false } }
  | .joinWorkers joined =>
    match s.workers.threads[joined]? with
    | none => some { s with main := .closeListener }
    | some .ended => some { s with main := .joinWorkers (joined + 1) }
    | some _ => none
  | .closeListener => some { s with main := .joinAcceptor, mIsAcceptorRunning := false }
  | .joinAcceptor => if s.acceptorThread = .ended then some { s with main := .returned } else none
  | .returned => none

end Server

/-- A step of a server. -/
def step (program : Program μ ε κ) (s : Server μ ε κ) : Event κ → Option (Server μ ε κ)
  | .main => s.mainThread program.closesPort
  | .process =>
    (s.processThread.next s.mIsProcessThreadRunning program.iteration).map fun processThread =>
      match s.processThread with
      | .iterating (_ + 1) => { s with processThread, manager := program.process s.manager }
      | _ => { s with processThread }
  | .worker i =>
    (s.workers.advance program.work i).map fun (workers, call) =>
      { s with workers, manager := (call.map (program.call s.manager)).getD s.manager }
  | .acceptor =>
    (s.acceptorThread.next s.mIsAcceptorRunning s.clientCount).map fun acceptorThread =>
      { s with acceptorThread }
  | .arrive completion =>
    some { s with workers := { s.workers with queue := s.workers.queue ++ [completion] } }

/-- The completions that a run brings. -/
def arrivals (es : List (Event κ)) : List κ :=
  es.filterMap fun
    | .arrive completion => some completion
    | _ => none

/-- The steps of the main thread and of the workers in a run. -/
def steps (es : List (Event κ)) : ℕ :=
  es.countP fun
    | .main => true
    | .worker _ => true
    | _ => false

/-- No thread can make a step, except for the acceptor while its flag is set. -/
structure Settled (program : Program μ ε κ) (s : Server μ ε κ) : Prop where
  main : step program s .main = none
  process : step program s .process = none
  worker : ∀ i, step program s (.worker i) = none
  acceptor : s.mIsAcceptorRunning = false → step program s .acceptor = none

/-! ### What each step keeps -/

/-- How far `End` has come. -/
def MainPoint.phase : MainPoint → ℕ
  | .serving => 0
  | .joinProcess => 1
  | .destroyThread => 2
  | .closeHandle => 3
  | .joinWorkers _ => 4
  | .closeListener => 5
  | .joinAcceptor => 6
  | .returned => 7

/-- The steps that `End` has left, with `n` workers. -/
def MainPoint.left (n : ℕ) : MainPoint → ℕ
  | .serving => n + 7
  | .joinProcess => n + 6
  | .destroyThread => n + 5
  | .closeHandle => n + 4
  | .joinWorkers joined => n - joined + 3
  | .closeListener => 2
  | .joinAcceptor => 1
  | .returned => 0

/-- The flags are cleared at their places in `End`, and the threads whose join is behind it have
ended. -/
structure Sound (program : Program μ ε κ) (s : Server μ ε κ) : Prop where
  processFlag : s.mIsProcessThreadRunning = false ↔ 1 ≤ s.main.phase
  process : 2 ≤ s.main.phase → s.processThread = .ended
  running : s.workers.running = false ↔ 3 ≤ s.main.phase
  handle : s.main = .closeHandle → program.closesPort = true
  opened : s.workers.opened = false ↔ program.closesPort = true ∧ 4 ≤ s.main.phase
  joined : ∀ n, s.main = .joinWorkers n → ∀ i < n, s.workers.threads[i]? = some .ended
  workers : 5 ≤ s.main.phase → s.workers.Ended
  acceptorFlag : s.mIsAcceptorRunning = false ↔ 6 ≤ s.main.phase
  acceptor : 7 ≤ s.main.phase → s.acceptorThread = .ended

variable {program : Program μ ε κ} {s t : Server μ ε κ} {e : Event κ} {es : List (Event κ)}

theorem next_eq_none_iff {flag : Bool} {iteration : ℕ} {point : LoopPoint} :
    point.next flag iteration = none ↔ point = .ended := by
  cases point with
  | testing => simp [LoopPoint.next]
  | iterating left => cases left <;> simp [LoopPoint.next]
  | ended => simp [LoopPoint.next]

/-- What a step of `End` can be. -/
inductive Ends (closesPort : Bool) (s : Server μ ε κ) : Server μ ε κ → Prop
  | quit (hmain : s.main = .serving) :
    Ends closesPort s { s with main := .joinProcess, mIsProcessThreadRunning := false }
  | processJoined (hmain : s.main = .joinProcess) (hended : s.processThread = .ended) :
    Ends closesPort s { s with main := .destroyThread }
  | workersStopped (hmain : s.main = .destroyThread) :
    Ends closesPort s { s with
      main := if closesPort then .closeHandle else .joinWorkers 0
      workers := { s.workers with running := false } }
  | portClosed (hmain : s.main = .closeHandle) :
    Ends closesPort s { s with
      main := .joinWorkers 0, workers := { s.workers with opened := false } }
  | workerJoined {joined : ℕ} (hmain : s.main = .joinWorkers joined)
      (hended : s.workers.threads[joined]? = some .ended) :
    Ends closesPort s { s with main := .joinWorkers (joined + 1) }
  | workersJoined {joined : ℕ} (hmain : s.main = .joinWorkers joined)
      (hlast : s.workers.threads.length ≤ joined) :
    Ends closesPort s { s with main := .closeListener }
  | acceptorStopped (hmain : s.main = .closeListener) :
    Ends closesPort s { s with main := .joinAcceptor, mIsAcceptorRunning := false }
  | acceptorJoined (hmain : s.main = .joinAcceptor) (hended : s.acceptorThread = .ended) :
    Ends closesPort s { s with main := .returned }

theorem ends_of_step (h : step program s .main = some t) : Ends program.closesPort s t := by
  simp only [step, Server.mainThread] at h
  split at h
  next hmain =>
    obtain rfl := Option.some.inj h
    exact .quit hmain
  next hmain =>
    obtain ⟨hended, h⟩ := Option.ite_none_right_eq_some.mp h
    obtain rfl := Option.some.inj h
    exact .processJoined hmain hended
  next hmain =>
    obtain rfl := Option.some.inj h
    exact .workersStopped hmain
  next hmain =>
    obtain rfl := Option.some.inj h
    exact .portClosed hmain
  next joined hmain =>
    split at h
    next hlast =>
      obtain rfl := Option.some.inj h
      exact .workersJoined hmain (List.getElem?_eq_none_iff.mp hlast)
    next hended =>
      obtain rfl := Option.some.inj h
      exact .workerJoined hmain hended
    next => exact absurd h.symm (Option.some_ne_none t)
  next hmain =>
    obtain rfl := Option.some.inj h
    exact .acceptorStopped hmain
  next hmain =>
    obtain ⟨hended, h⟩ := Option.ite_none_right_eq_some.mp h
    obtain rfl := Option.some.inj h
    exact .acceptorJoined hmain hended
  next => exact absurd h.symm (Option.some_ne_none t)

theorem Sound.main (hs : Sound program s) (h : step program s .main = some t) :
    Sound program t := by
  obtain ⟨hprocessFlag, hprocess, hrunning, hhandle, hopened, hjoined, hworkers, hacceptorFlag,
    hacceptor⟩ := hs
  cases ends_of_step h with
  | workersStopped hmain =>
    cases hcloses : program.closesPort <;> constructor <;> simp_all [MainPoint.phase]
  | @workerJoined joined hmain hended =>
    have hnext : ∀ i < joined + 1, s.workers.threads[i]? = some .ended := by
      intro i hi
      rcases Nat.lt_succ_iff_lt_or_eq.mp hi with hlt | rfl
      · exact hjoined joined hmain i hlt
      · exact hended
    constructor <;> simp_all [MainPoint.phase]
  | @workersJoined joined hmain hlast =>
    have hended : s.workers.Ended :=
      Pool.ended_iff.mpr fun k hk => hjoined joined hmain k (by omega)
    constructor <;> simp_all [MainPoint.phase]
  | quit hmain | processJoined hmain hended | portClosed hmain | acceptorStopped hmain
    | acceptorJoined hmain hended => constructor <;> simp_all [MainPoint.phase]

theorem Sound.process_step (hs : Sound program s) (h : step program s .process = some t) :
    Sound program t := by
  have hrunning : s.main.phase < 2 := by
    by_contra hphase
    simp only [step, hs.process (by omega), LoopPoint.next, Option.map_none] at h
    cases h
  obtain ⟨processThread, -, rfl⟩ := Option.map_eq_some_iff.mp h
  split <;> exact ⟨hs.processFlag, fun hphase => absurd hphase (by dsimp only; omega), hs.running,
    hs.handle, hs.opened, hs.joined, hs.workers, hs.acceptorFlag, hs.acceptor⟩

theorem Sound.worker_step {i : ℕ} (hs : Sound program s)
    (h : step program s (.worker i) = some t) : Sound program t := by
  obtain ⟨⟨workers, call⟩, hworkers, rfl⟩ := Option.map_eq_some_iff.mp h
  have hadvance := advances_of_advance hworkers
  obtain ⟨hflag, hport⟩ := hadvance.flags
  refine ⟨hs.processFlag, hs.process, ?_, hs.handle, ?_, ?_, ?_, hs.acceptorFlag, hs.acceptor⟩
  · rw [← hs.running, ← hflag]
  · rw [← hs.opened, ← hport]
  · intro n hn k hk
    exact hadvance.ended (hs.joined n hn k hk)
  · intro hphase
    rw [Pool.ended_iff, hadvance.length]
    intro k hk
    exact hadvance.ended (Pool.ended_iff.mp (hs.workers hphase) k hk)

theorem Sound.acceptor_step (hs : Sound program s) (h : step program s .acceptor = some t) :
    Sound program t := by
  have hrunning : s.main.phase < 7 := by
    by_contra hphase
    simp only [step, hs.acceptor (by omega), LoopPoint.next, Option.map_none] at h
    cases h
  obtain ⟨acceptorThread, -, rfl⟩ := Option.map_eq_some_iff.mp h
  exact ⟨hs.processFlag, hs.process, hs.running, hs.handle, hs.opened, hs.joined, hs.workers,
    hs.acceptorFlag, fun hphase => absurd hphase (by dsimp only; omega)⟩

theorem sound_step (hs : Sound program s) (h : step program s e = some t) : Sound program t := by
  cases e with
  | main => exact hs.main h
  | process => exact hs.process_step h
  | worker i => exact hs.worker_step h
  | acceptor => exact hs.acceptor_step h
  | arrive completion =>
    obtain rfl := Option.some.inj h
    exact ⟨hs.processFlag, hs.process, hs.running, hs.handle, hs.opened, hs.joined, hs.workers,
      hs.acceptorFlag, hs.acceptor⟩

/-- The flag of the process thread, once cleared, is cleared for good. -/
theorem processFlag_step (hflag : s.mIsProcessThreadRunning = false)
    (h : step program s e = some t) : t.mIsProcessThreadRunning = false := by
  cases e with
  | main =>
    cases ends_of_step h with
    | quit => rfl
    | _ => exact hflag
  | process =>
    obtain ⟨processThread, -, rfl⟩ := Option.map_eq_some_iff.mp h
    split <;> exact hflag
  | worker i =>
    obtain ⟨⟨workers, call⟩, -, rfl⟩ := Option.map_eq_some_iff.mp h
    exact hflag
  | acceptor =>
    obtain ⟨acceptorThread, -, rfl⟩ := Option.map_eq_some_iff.mp h
    exact hflag
  | arrive completion =>
    obtain rfl := Option.some.inj h
    exact hflag

theorem process_ended_step (hended : s.processThread = .ended) (h : step program s e = some t) :
    t.processThread = .ended := by
  cases e with
  | main => cases ends_of_step h <;> exact hended
  | process =>
    simp only [step, hended, LoopPoint.next, Option.map_none] at h
    cases h
  | worker i =>
    obtain ⟨⟨workers, call⟩, -, rfl⟩ := Option.map_eq_some_iff.mp h
    exact hended
  | acceptor =>
    obtain ⟨acceptorThread, -, rfl⟩ := Option.map_eq_some_iff.mp h
    exact hended
  | arrive completion =>
    obtain rfl := Option.some.inj h
    exact hended

/-- A server when its threads have just started. -/
def Server.start (manager : μ) (workerCount clientCount : ℕ) : Server μ ε κ :=
  { manager, workers := .start workerCount, clientCount }

theorem sound_start (manager : μ) (workerCount clientCount : ℕ) :
    Sound program (.start manager workerCount clientCount) := by
  constructor <;> simp [Server.start, Pool.start, MainPoint.phase]

/-! ### Where `End` stops -/

theorem Settled.stuck (h : Settled program s) : s.workers.Stuck program.work :=
  fun i => Option.map_eq_none_iff.mp (h.worker i)

/-- Where nothing can go on, `End` has returned, or it is at the join of a worker that has not
ended. -/
theorem Settled.returned_or (h : Settled program s) (hs : Sound program s) :
    s.main = .returned ∨ ∃ joined, s.main = .joinWorkers joined ∧ ¬s.workers.Ended := by
  have hstep := h.main
  have hprocess : s.processThread = .ended :=
    next_eq_none_iff.mp (Option.map_eq_none_iff.mp h.process)
  have hacceptor (hflag : s.mIsAcceptorRunning = false) : s.acceptorThread = .ended :=
    next_eq_none_iff.mp (Option.map_eq_none_iff.mp (h.acceptor hflag))
  simp only [step, Server.mainThread] at hstep
  cases hmain : s.main with
  | serving => simp [hmain] at hstep
  | joinProcess => simp [hmain, hprocess] at hstep
  | destroyThread => simp [hmain] at hstep
  | closeHandle => simp [hmain] at hstep
  | joinWorkers joined =>
    simp only [hmain] at hstep
    split at hstep
    next => cases hstep
    next => cases hstep
    next point hpoint hjoined =>
      refine Or.inr ⟨joined, rfl, fun hended => ?_⟩
      exact hpoint (hended point (List.mem_of_getElem? hjoined))
  | closeListener => simp [hmain] at hstep
  | joinAcceptor =>
    have hflag : s.mIsAcceptorRunning = false := hs.acceptorFlag.mpr (by rw [hmain]; decide)
    simp [hmain, hacceptor hflag] at hstep
  | returned => exact Or.inl rfl

theorem Settled.returned_iff (h : Settled program s) (hs : Sound program s) :
    s.main = .returned ↔ s.workers.Ended := by
  constructor
  · intro hmain
    exact hs.workers (by rw [hmain]; decide)
  · intro hended
    rcases h.returned_or hs with hreturned | ⟨joined, -, hnot⟩
    · exact hreturned
    · exact absurd hended hnot

/-! ### The workers in a run of a server -/

/-- The steps of the pool of workers in a step of a server. -/
theorem pool_step (h : step program s e = some t) :
    ∃ ps, run (Pool.step program.work) s.workers ps = some t.workers ∧
      arrived ps = arrivals [e] := by
  cases e with
  | main =>
    cases ends_of_step h with
    | workersStopped => exact ⟨[.stop], rfl, rfl⟩
    | portClosed => exact ⟨[.close], rfl, rfl⟩
    | quit | processJoined | workerJoined | workersJoined | acceptorStopped | acceptorJoined =>
      exact ⟨[], rfl, rfl⟩
  | process =>
    obtain ⟨processThread, -, rfl⟩ := Option.map_eq_some_iff.mp h
    refine ⟨[], ?_, rfl⟩
    split <;> rfl
  | worker i =>
    obtain ⟨⟨workers, call⟩, hworkers, rfl⟩ := Option.map_eq_some_iff.mp h
    refine ⟨[.advance i], ?_, rfl⟩
    rw [run_cons, Pool.step, hworkers]
    rfl
  | acceptor =>
    obtain ⟨acceptorThread, -, rfl⟩ := Option.map_eq_some_iff.mp h
    exact ⟨[], rfl, rfl⟩
  | arrive completion =>
    obtain rfl := Option.some.inj h
    exact ⟨[.arrive completion], rfl, rfl⟩

theorem pool_run (h : run (step program) s es = some t) :
    ∃ ps, run (Pool.step program.work) s.workers ps = some t.workers ∧
      arrived ps = arrivals es := by
  induction es generalizing s with
  | nil =>
    obtain rfl := Option.some.inj h
    exact ⟨[], rfl, rfl⟩
  | cons e es ih =>
    obtain ⟨u, hu, hrun⟩ := run_cons_eq_some.mp h
    obtain ⟨ps, hps, harrived⟩ := pool_step hu
    obtain ⟨qs, hqs, hrest⟩ := ih hrun
    refine ⟨ps ++ qs, run_append_eq_some.mpr ⟨u.workers, hps, hqs⟩, ?_⟩
    have happend : arrivals (e :: es) = arrivals [e] ++ arrivals es :=
      List.filterMap_append (l := [e])
    rw [happend, ← harrived, ← hrest]
    exact List.filterMap_append

theorem sound_run (hs : Sound program s) (h : run (step program) s es = some t) :
    Sound program t :=
  run_invariant (fun _ _ _ hs hst => sound_step hs hst) hs h

/-- The flag of the workers, once cleared, is cleared for good. -/
theorem stopped_step (hstop : s.workers.running = false) (h : step program s e = some t) :
    t.workers.running = false := by
  obtain ⟨ps, hps, -⟩ := pool_step h
  exact run_invariant (P := fun p : Pool κ ε => p.running = false)
    (fun _ _ _ hp hst => Workers.stopped_step hp hst) hstop hps

/-- The steps that `End` and the workers have left once the workers are stopped. -/
def Server.rank (program : Program μ ε κ) (s : Server μ ε κ) : ℕ :=
  s.main.left s.workers.threads.length + s.workers.rank program.work

/-- What the completions of a run add to it. -/
def brought (program : Program μ ε κ) (es : List (Event κ)) : ℕ :=
  ((arrivals es).map fun c => 1 + (program.work c).length).sum

theorem rank_step (hstop : s.workers.running = false) (h : step program s e = some t) :
    t.rank program + steps [e] ≤ s.rank program + brought program [e] := by
  cases e with
  | main =>
    have hsteps : steps [(.main : Event κ)] = 1 := rfl
    rw [hsteps]
    simp only [Server.rank]
    cases ends_of_step h with
    | quit hmain | processJoined hmain | acceptorStopped hmain | acceptorJoined hmain =>
      simp only [hmain, MainPoint.left]
      omega
    | workersStopped hmain =>
      cases hcloses : program.closesPort with
      | true =>
        simp only [hmain, if_true, MainPoint.left, Pool.rank_mk]
        omega
      | false =>
        simp only [hmain, Bool.false_eq_true, if_false, MainPoint.left, Pool.rank_mk]
        omega
    | portClosed hmain =>
      simp only [hmain, MainPoint.left, Pool.rank_mk]
      omega
    | @workerJoined joined hmain hended =>
      have hlt : joined < s.workers.threads.length := (List.getElem?_eq_some_iff.mp hended).1
      simp only [hmain, MainPoint.left]
      omega
    | workersJoined hmain =>
      simp only [hmain, MainPoint.left]
      omega
  | process =>
    obtain ⟨processThread, -, rfl⟩ := Option.map_eq_some_iff.mp h
    split <;> exact Nat.le_add_right _ _
  | worker i =>
    obtain ⟨⟨workers, call⟩, hworkers, rfl⟩ := Option.map_eq_some_iff.mp h
    have hadvance := advances_of_advance hworkers
    have hrank := hadvance.rank hstop
    have hsteps : steps [(.worker i : Event κ)] = 1 := rfl
    have hnone : brought program [.worker i] = 0 := rfl
    simp only [Server.rank, hadvance.length, hsteps, hnone]
    omega
  | acceptor =>
    obtain ⟨acceptorThread, -, rfl⟩ := Option.map_eq_some_iff.mp h
    exact Nat.le_add_right _ _
  | arrive completion =>
    obtain rfl := Option.some.inj h
    have hsteps : steps [(.arrive completion : Event κ)] = 0 := rfl
    have hone : brought program [.arrive completion] = 1 + (program.work completion).length :=
      rfl
    simp only [Server.rank, Pool.rank, hsteps, hone, List.map_append, List.map_cons,
      List.map_nil, List.sum_append, List.sum_cons, List.sum_nil]
    omega

/-- Once the workers are stopped, `End` and the workers make a bounded number of steps. -/
theorem steps_le (hstop : s.workers.running = false) (h : run (step program) s es = some t) :
    t.rank program + steps es ≤ s.rank program + brought program es := by
  induction es generalizing s with
  | nil =>
    obtain rfl := Option.some.inj h
    exact Nat.le_refl _
  | cons e es ih =>
    obtain ⟨u, hu, hrun⟩ := run_cons_eq_some.mp h
    have hfirst := rank_step hstop hu
    have hrest := ih (stopped_step hstop hu) hrun
    have hsteps : steps (e :: es) = steps [e] + steps es := by
      rw [← List.singleton_append]
      exact List.countP_append
    have hbrought : brought program (e :: es) = brought program [e] + brought program es := by
      have happend : arrivals (e :: es) = arrivals [e] ++ arrivals es :=
        List.filterMap_append (l := [e])
      rw [brought, happend, List.map_append, List.sum_append]
      rfl
    omega

/-- With the port left open, `End` comes to return from a run of stopped workers exactly if a
completion comes for each that waits. -/
theorem returned_iff_of_open (hopen : program.closesPort = false) (hs : Sound program s)
    (hstop : s.workers.running = false) (h : run (step program) s es = some t)
    (hsettled : Settled program t) :
    t.main = .returned ↔ s.workers.waiting ≤ s.workers.queue.length + (arrivals es).length := by
  have ht : Sound program t := sound_run hs h
  obtain ⟨ps, hps, harrived⟩ := pool_run h
  have hport : t.workers.opened = true := by
    by_contra hclosed
    have hcloses := (ht.opened.mp (Bool.eq_false_iff.mpr hclosed)).1
    exact Bool.noConfusion (hcloses.symm.trans hopen)
  rw [hsettled.returned_iff ht, drained_iff hstop hps hport hsettled.stuck, harrived]

/-- With the port closed, `End` comes to return whatever completions come. -/
theorem returned_of_closes (hcloses : program.closesPort = true) (hs : Sound program s)
    (hsettled : Settled program s) : s.main = .returned := by
  rcases hsettled.returned_or hs with hreturned | ⟨joined, hmain, hnot⟩
  · exact hreturned
  · have hphase : 4 ≤ s.main.phase := by
      rw [hmain]
      exact Nat.le_refl 4
    have hclosed : s.workers.opened = false := hs.opened.mpr ⟨hcloses, hphase⟩
    exact absurd (ended_of_closed hclosed hsettled.stuck) hnot

/-! ### The process thread in a run of a server -/

/-- The steps that the process thread has left in the iteration. -/
def left (s : Server μ ε κ) : ℕ :=
  match s.processThread with
  | .iterating left => left
  | _ => 0

/-- `place` counts, from the state of the manager, the steps up to the end of the iteration. -/
structure Places (program : Program μ ε κ) (place : μ → ℕ) : Prop where
  call : ∀ m c, place (program.call m c) = place m
  process : ∀ m, place (program.process m) =
    if place m = 1 then program.iteration else place m - 1

/-- The process thread is where the manager says, and at the head of the loop between two
iterations. -/
def Aligned (program : Program μ ε κ) (place : μ → ℕ) (s : Server μ ε κ) : Prop :=
  place s.manager = if left s = 0 then program.iteration else left s

theorem left_of_iterating {k : ℕ} (h : s.processThread = .iterating k) : left s = k := by
  rw [left, h]

/-- A step is one of the iteration, or it leaves the manager or makes a call, and then an iteration
starts only with the flag set. -/
theorem step_cases (h : step program s e = some t) :
    (∃ k, s.processThread = .iterating (k + 1) ∧ left t = k ∧
        t.manager = program.process s.manager) ∨
      (t.manager = s.manager ∨ ∃ c, t.manager = program.call s.manager c) ∧
        (left t = left s ∨
          left s = 0 ∧ left t = program.iteration ∧ s.mIsProcessThreadRunning = true) := by
  cases e with
  | main =>
    right
    cases ends_of_step h <;> exact ⟨Or.inl rfl, Or.inl rfl⟩
  | process =>
    obtain ⟨processThread, hnext, rfl⟩ := Option.map_eq_some_iff.mp h
    cases hpoint : s.processThread with
    | testing =>
      right
      simp only [hpoint, LoopPoint.next, Option.some.injEq] at hnext
      subst hnext
      refine ⟨Or.inl rfl, ?_⟩
      cases hflag : s.mIsProcessThreadRunning with
      | true => exact Or.inr ⟨by simp [left, hpoint], by simp [left], rfl⟩
      | false => exact Or.inl (by simp [left, hpoint])
    | iterating k =>
      cases k with
      | zero =>
        right
        simp only [hpoint, LoopPoint.next, Option.some.injEq] at hnext
        subst hnext
        exact ⟨Or.inl rfl, Or.inl (by simp [left, hpoint])⟩
      | succ k =>
        left
        simp only [hpoint, LoopPoint.next, Option.some.injEq] at hnext
        subst hnext
        exact ⟨k, rfl, rfl, rfl⟩
    | ended => simp [hpoint, LoopPoint.next] at hnext
  | worker i =>
    obtain ⟨⟨workers, call⟩, -, rfl⟩ := Option.map_eq_some_iff.mp h
    right
    cases call with
    | none => exact ⟨Or.inl rfl, Or.inl rfl⟩
    | some c => exact ⟨Or.inr ⟨c, rfl⟩, Or.inl rfl⟩
  | acceptor =>
    obtain ⟨acceptorThread, -, rfl⟩ := Option.map_eq_some_iff.mp h
    exact Or.inr ⟨Or.inl rfl, Or.inl rfl⟩
  | arrive completion =>
    obtain rfl := Option.some.inj h
    exact Or.inr ⟨Or.inl rfl, Or.inl rfl⟩

/-- What calls and steps of the process thread keep, every run keeps. -/
theorem manager_invariant {P : μ → Prop} (hcall : ∀ m c, P m → P (program.call m c))
    (hprocess : ∀ m, P m → P (program.process m)) (hs : P s.manager)
    (h : run (step program) s es = some t) : P t.manager := by
  refine run_invariant (P := fun s : Server μ ε κ => P s.manager) (fun s e t hs hst => ?_) hs h
  rcases step_cases hst with ⟨k, -, -, hmanager⟩ | ⟨hmanager | ⟨c, hmanager⟩, -⟩
  · rw [hmanager]
    exact hprocess _ hs
  · rw [hmanager]
    exact hs
  · rw [hmanager]
    exact hcall _ c hs

section Iterations

variable {place : μ → ℕ}

theorem place_of_iterating {k : ℕ} (ha : Aligned program place s)
    (h : s.processThread = .iterating (k + 1)) : place s.manager = k + 1 := by
  rw [ha, left_of_iterating h, if_neg (Nat.succ_ne_zero k)]

theorem aligned_step (hplace : Places program place) (ha : Aligned program place s)
    (h : step program s e = some t) : Aligned program place t := by
  rcases step_cases h with ⟨k, hpoint, hleft, hmanager⟩ | ⟨hmanager, hleft⟩
  · unfold Aligned
    rw [hmanager, hplace.process, place_of_iterating ha hpoint, hleft]
    rcases Nat.eq_zero_or_pos k with rfl | hk
    · rfl
    · rw [if_neg (show k + 1 ≠ 1 by omega), if_neg (show k ≠ 0 by omega), Nat.add_sub_cancel]
  · have hsame : place t.manager = place s.manager := by
      rcases hmanager with heq | ⟨c, heq⟩
      · rw [heq]
      · rw [heq, hplace.call]
    unfold Aligned at ha ⊢
    rw [hsame, ha]
    rcases hleft with heq | ⟨hzero, hfull, -⟩
    · rw [heq]
    · rw [hzero, hfull, if_pos rfl, ite_self]

/-- What a step of the process thread adds to at one place of the iteration only, grows by at most
one when the flag is cleared. -/
theorem counted_step {f : μ → ℕ} {k : ℕ} (hcall : ∀ m c, f (program.call m c) = f m)
    (hprocess : ∀ m, f (program.process m) ≤ f m + if place m = k then 1 else 0)
    (ha : Aligned program place s) (hflag : s.mIsProcessThreadRunning = false)
    (h : step program s e = some t) :
    f t.manager + (if k ≤ left t then 1 else 0) ≤
      f s.manager + (if k ≤ left s then 1 else 0) := by
  rcases step_cases h with ⟨n, hpoint, hleft, hmanager⟩ | ⟨hmanager, hleft⟩
  · have hle := hprocess s.manager
    rw [place_of_iterating ha hpoint] at hle
    rw [hmanager, hleft, left_of_iterating hpoint]
    split_ifs at hle ⊢ <;> omega
  · have hsame : f t.manager = f s.manager := by
      rcases hmanager with heq | ⟨c, heq⟩
      · rw [heq]
      · rw [heq, hcall]
    rcases hleft with heq | ⟨-, -, hset⟩
    · rw [hsame, heq]
    · exact absurd hset (Bool.eq_false_iff.mp hflag)

theorem counted_run {f : μ → ℕ} {k : ℕ} (hplace : Places program place)
    (hcall : ∀ m c, f (program.call m c) = f m)
    (hprocess : ∀ m, f (program.process m) ≤ f m + if place m = k then 1 else 0)
    (ha : Aligned program place s) (hflag : s.mIsProcessThreadRunning = false)
    (h : run (step program) s es = some t) : f t.manager ≤ f s.manager + 1 := by
  have hle : f t.manager ≤ f s.manager + (if k ≤ left s then 1 else 0) := by
    induction es generalizing s with
    | nil =>
      obtain rfl := Option.some.inj h
      exact Nat.le_add_right _ _
    | cons e es ih =>
      obtain ⟨u, hu, hrun⟩ := run_cons_eq_some.mp h
      have hfirst := counted_step hcall hprocess ha hflag hu
      exact (ih (aligned_step hplace ha hu) (processFlag_step hflag hu) hrun).trans hfirst
  split at hle <;> omega

end Iterations

/-- When the process thread has ended, the manager changes by the calls of the workers alone. -/
theorem related_run {R : μ → μ → Prop} (hrefl : ∀ m, R m m)
    (htrans : ∀ {m n o}, R m n → R n o → R m o) (hcall : ∀ m c, R m (program.call m c))
    (hended : s.processThread = .ended) (h : run (step program) s es = some t) :
    R s.manager t.manager := by
  induction es generalizing s with
  | nil =>
    obtain rfl := Option.some.inj h
    exact hrefl _
  | cons e es ih =>
    obtain ⟨u, hu, hrun⟩ := run_cons_eq_some.mp h
    refine htrans ?_ (ih (process_ended_step hended hu) hrun)
    rcases step_cases hu with ⟨k, hpoint, -⟩ | ⟨hmanager | ⟨c, hmanager⟩, -⟩
    · exact absurd (hpoint.symm.trans hended) LoopPoint.noConfusion
    · rw [hmanager]
      exact hrefl _
    · rw [hmanager]
      exact hcall _ c

end IocpStudy.Shutdown
