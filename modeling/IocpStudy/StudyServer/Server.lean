import IocpStudy.Lib.Joins
import IocpStudy.StudyServer.ConfigLoader

/-! The threads of the StudyServer: the main thread with `Load`, `NetworkManager::Initialize`, `Run`
and, where `Initialize` fails, `NetworkManager::Shutdown`, and the worker threads, of which the
configuration sets the number.  What a worker does with a completion is not in this module.
`Shutdown` wakes no worker, and with a file that has no "system" there are no workers at all. -/

namespace IocpStudy.StudyServer

open Json Runs Workers

/-- `ioThreadCount`, an `int` from the product of a `DWORD` and an `int`. -/
def ioThreadCount (processors : ℕ) (config : SystemConfig) : ℤ :=
  Int.bmod (processors * config.mThreadPerCore) (2 ^ 32)

/-- Where the main thread is.  `exited` is behind a `Load` that returns false, and `terminated`
behind an exception that is not caught. -/
inductive MainPoint
  | load
  | managerInitialize (loader : ConfigLoader)
  | addListener (loader : ConfigLoader)
  | run
  | shutdown
  | exited
  | terminated

/-- `owned` are the workers with `mIsRunning`, the completion port, and where `Shutdown` is.
`accepting` says whether an `AcceptEx` was posted, and `handled` are the completions that workers
have handled. -/
structure Server (κ : Type) where
  main : MainPoint := .load
  owned : Owned κ κ :=
    { pool := { running := false, opened := true, queue := [], threads := [] } }
  accepting : Bool := false
  handled : List κ := []

variable {F κ : Type}

/-- `load`, `managerInitialize` and `addListener` are steps of the main thread with the parsed file
and the outcomes of the calls, `shutdown` is one of `Shutdown`, `worker i` is one of a worker, and
`arrive` queues a completion. -/
inductive ServerEvent (F κ : Type)
  | load (config : Option (Json F))
  | managerInitialize (wsaStartup created : Bool) (processors : ℕ)
  | addListener (init listen posted : Bool)
  | shutdown
  | worker (i : ℕ)
  | arrive (completion : κ)

/-- The completions of a run. -/
def arrivals (es : List (ServerEvent F κ)) : List κ :=
  es.filterMap fun
    | .arrive completion => some completion
    | _ => none

/-- What a worker calls for a completion. -/
def handle (completion : κ) : List κ := [completion]

def serverStep (truncate : F → ℤ) (s : Server κ) : ServerEvent F κ → Option (Server κ)
  | .load config =>
    match s.main with
    | .load =>
      match config.map (ConfigLoader.load truncate {}) with
      | none | some (.error _) => some { s with main := .terminated }
      | some (.ok (_, false)) => some { s with main := .exited }
      | some (.ok (loader, true)) => some { s with main := .managerInitialize loader }
    | _ => none
  | .managerInitialize wsaStartup created processors =>
    match s.main with
    | .managerInitialize loader =>
      if wsaStartup && created then
        some { s with
          main := .addListener loader
          owned := { pool := .start (ioThreadCount processors loader.mSystemConfig).toNat } }
      else some { s with main := .shutdown }
    | _ => none
  | .addListener init listen posted =>
    match s.main with
    | .addListener _ =>
      -- The source goes on whatever `PostAccept` returns.
      if init && listen then some { s with main := .run, accepting := posted }
      else some { s with main := .shutdown }
    | _ => none
  | .shutdown =>
    match s.main with
    | .shutdown => s.owned.ownerStep.map fun owned => { s with owned }
    | _ => none
  | .worker i =>
    (s.owned.pool.advance handle i).map fun (pool, call) =>
      { s with owned := { s.owned with pool }, handled := s.handled ++ call.toList }
  | .arrive completion =>
    if s.accepting then
      let pool := { s.owned.pool with queue := s.owned.pool.queue ++ [completion] }
      some { s with owned := { s.owned with pool } }
    else none

namespace Server

/-- Completions come of a listener that accepts, with which the server runs. -/
structure Sound (s : Server κ) : Prop where
  idle : s.accepting = false → s.owned.pool.Idle
  accepting : s.accepting = true → s.main = .run
  working : s.main ≠ .shutdown → s.owned.owner = .working
  ending : s.owned.owner ≠ .working → s.owned.Ending
  opened : s.owned.pool.opened = true

/-- Neither `Shutdown` nor a worker can make a step. -/
structure Settled (truncate : F → ℤ) (s : Server κ) : Prop where
  shutdown : serverStep truncate s .shutdown = none
  worker : ∀ i, serverStep truncate s (.worker i) = none

end Server

variable {truncate : F → ℤ} {s t : Server κ} {e : ServerEvent F κ} {es : List (ServerEvent F κ)}

theorem sound_start : (({} : Server κ)).Sound where
  idle _ := ⟨rfl, fun _ hmem => absurd hmem List.not_mem_nil⟩
  accepting h := Bool.noConfusion h
  working _ := rfl
  ending h := absurd rfl h
  opened := rfl

theorem owned_worker {i : ℕ} (h : serverStep truncate s (.worker i) = some t) :
    s.owned.step handle (.thread i) = some t.owned := by
  obtain ⟨⟨pool, call⟩, hadvance, rfl⟩ := Option.map_eq_some_iff.mp h
  rw [Owned.step, hadvance]
  rfl

theorem sound_worker {i : ℕ} (hs : s.Sound) (h : serverStep truncate s (.worker i) = some t) :
    t.Sound := by
  have howned := owned_worker h
  obtain ⟨⟨pool, call⟩, hadvance, rfl⟩ := Option.map_eq_some_iff.mp h
  have hadvances := advances_of_advance hadvance
  refine ⟨fun hnone => ?_, hs.accepting, hs.working, fun howner => (hs.ending howner).step howned,
    hadvances.flags.2.trans hs.opened⟩
  exact (hadvances.idle (hs.idle hnone)).1

theorem sound_step (hs : s.Sound) (h : serverStep truncate s e = some t) : t.Sound := by
  have hstays (main : MainPoint) (hmain : s.main ≠ .run) (hwork : s.main ≠ .shutdown) :
      Server.Sound { s with main } := by
    have hnone : s.accepting = false := Bool.eq_false_iff.mpr fun h => hmain (hs.accepting h)
    exact ⟨hs.idle, fun h => Bool.noConfusion (hnone.symm.trans h), fun _ => hs.working hwork,
      fun h => absurd (hs.working hwork) h, hs.opened⟩
  cases e with
  | load config =>
    simp only [serverStep] at h
    split at h
    next hmain =>
      have hleft := fun main => hstays main (by rw [hmain]; exact MainPoint.noConfusion)
        (by rw [hmain]; exact MainPoint.noConfusion)
      split at h <;> obtain rfl := Option.some.inj h <;> exact hleft _
    next => exact absurd h.symm (Option.some_ne_none t)
  | managerInitialize wsaStartup created processors =>
    simp only [serverStep] at h
    split at h
    next loader hmain =>
      split at h
      next =>
        obtain rfl := Option.some.inj h
        refine ⟨fun _ => idle_start _ true, fun hset => ?_, fun _ => rfl, fun h => absurd rfl h,
          rfl⟩
        exact MainPoint.noConfusion (hmain.symm.trans (hs.accepting hset))
      next =>
        obtain rfl := Option.some.inj h
        exact hstays _ (by rw [hmain]; exact MainPoint.noConfusion)
          (by rw [hmain]; exact MainPoint.noConfusion)
    next => exact absurd h.symm (Option.some_ne_none t)
  | addListener init listen posted =>
    simp only [serverStep] at h
    split at h
    next loader hmain =>
      have hrun : s.main ≠ .run := by rw [hmain]; exact MainPoint.noConfusion
      have hwork : s.main ≠ .shutdown := by rw [hmain]; exact MainPoint.noConfusion
      split at h
      next =>
        obtain rfl := Option.some.inj h
        have hnone : s.accepting = false := Bool.eq_false_iff.mpr fun h => hrun (hs.accepting h)
        exact ⟨fun _ => hs.idle hnone, fun _ => rfl, fun _ => hs.working hwork,
          fun h => absurd (hs.working hwork) h, hs.opened⟩
      next =>
        obtain rfl := Option.some.inj h
        exact hstays _ hrun hwork
    next => exact absurd h.symm (Option.some_ne_none t)
  | shutdown =>
    simp only [serverStep] at h
    split at h
    next hmain =>
      obtain ⟨owned, howned, rfl⟩ := Option.map_eq_some_iff.mp h
      obtain ⟨hthreads, hqueue, hopened⟩ := (Owned.steps_of_ownerStep howned).pool
      refine ⟨fun hnone => ⟨hqueue.trans (hs.idle hnone).1, ?_⟩, hs.accepting,
        fun h => absurd hmain h, fun _ => Owned.ending_of_ownerStep hs.ending howned,
        hopened.trans hs.opened⟩
      dsimp only
      rw [hthreads]
      exact (hs.idle hnone).2
    next => exact absurd h.symm (Option.some_ne_none t)
  | worker i => exact sound_worker hs h
  | arrive completion =>
    obtain ⟨hset, h⟩ := Option.ite_none_right_eq_some.mp h
    obtain rfl := Option.some.inj h
    exact ⟨fun hnone => Bool.noConfusion (hset.symm.trans hnone), hs.accepting, hs.working,
      fun howner => (hs.ending howner).step
        (show s.owned.step handle (.arrive completion) = some _ from rfl), hs.opened⟩

theorem sound_run (h : run (serverStep truncate) {} es = some s) : s.Sound :=
  run_invariant (fun _ _ _ hs hst => sound_step hs hst) sound_start h

/-! ### The end of a server whose start failed -/

/-- The moves of `Shutdown` and of the workers. -/
def ServerEvent.move : ServerEvent F κ → Move κ
  | .worker i => .thread i
  | _ => .owner

theorem owned_step (hs : s.Sound) (hmain : s.main = .shutdown)
    (h : serverStep truncate s e = some t) :
    s.owned.step handle e.move = some t.owned ∧ t.main = .shutdown := by
  cases e with
  | load config => simp [serverStep, hmain] at h
  | managerInitialize wsaStartup created processors => simp [serverStep, hmain] at h
  | addListener init listen posted => simp [serverStep, hmain] at h
  | shutdown =>
    simp only [serverStep, hmain] at h
    obtain ⟨owned, howned, rfl⟩ := Option.map_eq_some_iff.mp h
    exact ⟨howned, rfl⟩
  | worker i =>
    refine ⟨owned_worker h, ?_⟩
    obtain ⟨⟨pool, call⟩, -, rfl⟩ := Option.map_eq_some_iff.mp h
    exact hmain
  | arrive completion =>
    obtain ⟨hset, -⟩ := Option.ite_none_right_eq_some.mp h
    exact MainPoint.noConfusion (hmain.symm.trans (hs.accepting hset))

theorem Server.Settled.stuck (h : s.Settled truncate) (hmain : s.main = .shutdown) :
    s.owned.Stuck handle := by
  constructor
  · have hnone := h.shutdown
    simp only [serverStep, hmain] at hnone
    exact Option.map_eq_none_iff.mp hnone
  · exact fun i => Option.map_eq_none_iff.mp (h.worker i)

/-- Where the listener cannot be added, `Shutdown` wakes no worker: from where it has cleared
`mIsRunning`, in every run it and the workers make a bounded number of steps, and when none of them
can go on, it has returned exactly if no worker was waiting for a completion. -/
theorem shutdown_returns_iff (truncate : F → ℤ) (es es' : List (ServerEvent F κ))
    (s t : Server κ) (hs : run (serverStep truncate) {} es = some s) (hmain : s.main = .shutdown)
    (hflag : s.owned.owner = .joining 0) (ht : run (serverStep truncate) s es' = some t) :
    t.owned.rank handle + es'.length ≤ s.owned.rank handle ∧ (t.Settled truncate →
      (t.owned.owner = .returned ↔ s.owned.pool.waiting = 0)) := by
  have hsound := sound_run hs
  have hnone : s.accepting = false :=
    Bool.eq_false_iff.mpr fun h => MainPoint.noConfusion (hmain.symm.trans (hsound.accepting h))
  have hmove (e : ServerEvent F κ) (c : κ) : e.move ≠ .arrive c := by
    intro h
    cases e <;> cases h
  obtain ⟨⟨-, hmain'⟩, hsteps, hreturned⟩ :=
    Owned.returns_of_run (f := Server.owned) (k := serverStep truncate)
      (I := fun u : Server κ => u.Sound ∧ u.main = .shutdown) hmove
      (fun _ _ _ hu hst => by
        obtain ⟨hstep, hshutdown⟩ := owned_step hu.1 hu.2 hst
        exact ⟨hstep, sound_step hu.1 hst, hshutdown⟩)
      ⟨hsound, hmain⟩ (hsound.ending fun h => Owner.noConfusion (h.symm.trans hflag))
      (hsound.idle hnone).1 ht
  refine ⟨hsteps, fun hsettled => ?_⟩
  rw [hreturned (hsettled.stuck hmain')]
  exact ⟨fun h => h hsound.opened, fun h _ => h⟩

/-- The listener cannot be bound while one of two workers waits: `Shutdown` does not return. -/
theorem shutdown_returns_iff_waiting :
    ∃ s t, run (serverStep fun n : ℤ => n) ({} : Server ℕ)
        [.load (some (.object [("system", .object []), ("server", .object [])])),
          .managerInitialize true true 2, .worker 0, .addListener true false true, .shutdown] =
          some s ∧
      run (serverStep fun n : ℤ => n) s [.worker 1] = some t ∧
      t.Settled (fun n : ℤ => n) ∧ t.owned.owner ≠ .returned ∧
      t.owned.rank handle + 1 ≤ s.owned.rank handle ∧ (t.Settled (fun n : ℤ => n) →
        (t.owned.owner = .returned ↔ s.owned.pool.waiting = 0)) := by
  refine ⟨_, _, rfl, rfl, ⟨rfl, fun i => ?_⟩, Owner.noConfusion,
    shutdown_returns_iff (fun n : ℤ => n)
      [.load (some (.object [("system", .object []), ("server", .object [])])),
        .managerInitialize true true 2, .worker 0, .addListener true false true, .shutdown]
      [.worker 1] _ _ rfl rfl rfl rfl⟩
  rcases i with _ | _ | i <;> rfl

/-! ### A server without workers -/

/-- The state when the workers have been started. -/
def Server.started (processors : ℕ) (loader : ConfigLoader) : Server κ :=
  { main := .addListener loader
    owned := { pool := .start (ioThreadCount processors loader.mSystemConfig).toNat } }

/-- There is no worker, and all that arrived since `before` is queued. -/
structure Server.Unserved (before : List κ) (s : Server κ) : Prop where
  threads : s.owned.pool.threads = []
  queue : s.owned.pool.queue = before
  handled : s.handled = []
  main : (∃ loader, s.main = .addListener loader) ∨ s.main = .run ∨ s.main = .shutdown

theorem unserved_step {before : List κ} (hs : s.Unserved before)
    (h : serverStep truncate s e = some t) : t.Unserved (before ++ arrivals [e]) := by
  have hkeeps (hnone : arrivals [e] = []) : s.Unserved (before ++ arrivals [e]) := by
    rw [hnone, List.append_nil]
    exact hs
  cases e with
  | load config =>
    rcases hs.main with ⟨loader, hmain⟩ | hmain | hmain <;> simp [serverStep, hmain] at h
  | managerInitialize wsaStartup created processors =>
    rcases hs.main with ⟨loader, hmain⟩ | hmain | hmain <;> simp [serverStep, hmain] at h
  | addListener init listen posted =>
    simp only [serverStep] at h
    split at h
    next =>
      obtain ⟨hthreads, hqueue, hhandled, -⟩ := hkeeps rfl
      split at h
      next =>
        obtain rfl := Option.some.inj h
        exact ⟨hthreads, hqueue, hhandled, Or.inr (Or.inl rfl)⟩
      next =>
        obtain rfl := Option.some.inj h
        exact ⟨hthreads, hqueue, hhandled, Or.inr (Or.inr rfl)⟩
    next => exact absurd h.symm (Option.some_ne_none t)
  | shutdown =>
    simp only [serverStep] at h
    split at h
    next =>
      obtain ⟨owned, howned, rfl⟩ := Option.map_eq_some_iff.mp h
      obtain ⟨hthreads, hqueue, hhandled, hmain⟩ := hkeeps rfl
      obtain ⟨hthreads', hqueue', -⟩ := (Owned.steps_of_ownerStep howned).pool
      exact ⟨hthreads'.trans hthreads, hqueue'.trans hqueue, hhandled, hmain⟩
    next => exact absurd h.symm (Option.some_ne_none t)
  | worker i =>
    obtain ⟨⟨pool, call⟩, hadvance, -⟩ := Option.map_eq_some_iff.mp h
    rw [Pool.advance, hs.threads] at hadvance
    cases hadvance
  | arrive completion =>
    obtain ⟨-, h⟩ := Option.ite_none_right_eq_some.mp h
    obtain rfl := Option.some.inj h
    exact ⟨hs.threads, congrArg (· ++ [completion]) hs.queue, hs.handled, hs.main⟩

theorem unserved_run {before : List κ} (hs : s.Unserved before)
    (h : run (serverStep truncate) s es = some t) : t.Unserved (before ++ arrivals es) := by
  induction es generalizing s before with
  | nil =>
    obtain rfl := Option.some.inj h
    rw [show arrivals ([] : List (ServerEvent F κ)) = [] from rfl, List.append_nil]
    exact hs
  | cons e es ih =>
    obtain ⟨u, hu, hrun⟩ := run_cons_eq_some.mp h
    have hrest := ih (unserved_step hs hu) hrun
    have happend : arrivals (e :: es) = arrivals [e] ++ arrivals es :=
      List.filterMap_append (l := [e])
    rw [happend, ← List.append_assoc]
    exact hrest

/-- A server whose file was loaded leaves the completions of every run where they are, in the queue
of the port, exactly if the product of the processors and `mThreadPerCore` is not positive as an
`int`. -/
theorem unserved_iff (truncate : F → ℤ) (config : Json F) (loader : ConfigLoader)
    (hload : ConfigLoader.load truncate {} config = .ok (loader, true)) (processors : ℕ) (c : κ) :
    (∀ es s, run (serverStep truncate) ({} : Server κ)
        (.load (some config) :: .managerInitialize true true processors :: es) = some s →
      s.handled = [] ∧ s.owned.pool.queue = arrivals es) ↔
      ioThreadCount processors loader.mSystemConfig ≤ 0 := by
  have hstarted (es : List (ServerEvent F κ)) : run (serverStep truncate) ({} : Server κ)
      (.load (some config) :: .managerInitialize true true processors :: es) =
      run (serverStep truncate) (.started processors loader) es := by
    rw [run_cons, serverStep]
    simp only [Option.map_some, hload]
    rfl
  constructor
  · intro h
    by_contra hpos
    obtain ⟨n, hn⟩ : ∃ n, (ioThreadCount processors loader.mSystemConfig).toNat = n + 1 :=
      Nat.exists_eq_succ_of_ne_zero (by omega)
    -- The first worker comes to its wait, takes the completion and handles it.
    have hrun : ∃ s, run (serverStep truncate) (Server.started processors loader)
        [.addListener true true true, .arrive c, .worker 0, .worker 0, .worker 0] = some s ∧
          s.handled = [c] := by
      rw [Server.started, hn]
      exact ⟨_, rfl, rfl⟩
    obtain ⟨s, hs, hhandled⟩ := hrun
    have hnone := (h _ s ((hstarted _).trans hs)).1
    rw [hhandled] at hnone
    cases hnone
  · intro hle es s hs
    rw [hstarted] at hs
    have hnone : (ioThreadCount processors loader.mSystemConfig).toNat = 0 :=
      Int.toNat_eq_zero.mpr hle
    have hstart : (Server.started processors loader : Server κ).Unserved [] := by
      refine ⟨?_, rfl, rfl, Or.inl ⟨loader, rfl⟩⟩
      rw [Server.started, hnone]
      rfl
    have hend := unserved_run hstart hs
    exact ⟨hend.handled, hend.queue⟩

/-- A file without "system" leaves the server without workers, on any machine. -/
theorem ioThreadCount_of_no_system {members : List (String × Json F)} {loader : ConfigLoader}
    (hsystem : member members "system" = .null)
    (h : ConfigLoader.load truncate {} (.object members) = .ok (loader, true)) (processors : ℕ) :
    ioThreadCount processors loader.mSystemConfig = 0 := by
  rw [load_of_no_system hsystem] at h
  obtain ⟨rfl, -⟩ := Prod.mk.inj (Except.ok.inj h)
  rw [ioThreadCount, Int.mul_zero]
  rfl

/-- An empty object, on a machine with eight processors. -/
theorem unserved_iff_empty :
    (∀ es s, run (serverStep fun n : ℤ => n) ({} : Server ℕ)
        (.load (some (.object [])) :: .managerInitialize true true 8 :: es) = some s →
      s.handled = [] ∧ s.owned.pool.queue = arrivals es) ↔ ioThreadCount 8 {} ≤ 0 :=
  unserved_iff (fun n : ℤ => n) (.object []) {} rfl 8 0

end IocpStudy.StudyServer
