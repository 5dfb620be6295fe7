import IocpStudy.Lib.Workers

/-! The thread that owns a pool and ends it: it clears the flag that the threads of the pool test,
and joins them one after the other.  It wakes none of them, so with the port open it comes to an end
exactly if a completion is there for each thread that waits. -/

namespace Workers

open Runs

/-- Where the owner of a pool is: before it clears the flag, at the join of the next thread, or
behind the last join. -/
inductive Owner
  | working
  | joining (joined : ℕ)
  | returned
deriving Repr, DecidableEq

structure Owned (κ ε : Type*) where
  owner : Owner := .working
  pool : Pool κ ε

/-- A step of the owner or of thread `i`, or a completion that arrives. -/
inductive Move (κ : Type*)
  | owner
  | thread (i : ℕ)
  | arrive (completion : κ)
deriving Repr, DecidableEq

variable {κ ε : Type*}

namespace Owned

/-- A step of the owner, which has returned from a join only when the thread has ended. -/
def ownerStep (s : Owned κ ε) : Option (Owned κ ε) :=
  match s.owner with
  | .working => some { owner := .joining 0, pool := { s.pool with running := false } }
  | .joining joined =>
    match s.pool.threads[joined]? with
    | none => some { s with owner := .returned }
    | some .ended => some { s with owner := .joining (joined + 1) }
    | some _ => none
  | .returned => none

def step (work : κ → List ε) (s : Owned κ ε) : Move κ → Option (Owned κ ε)
  | .owner => s.ownerStep
  | .thread i => (s.pool.advance work i).map fun (pool, _) => { s with pool }
  | .arrive completion =>
    some { s with pool := { s.pool with queue := s.pool.queue ++ [completion] } }

/-- Neither the owner nor a thread can make a step. -/
structure Stuck (work : κ → List ε) (s : Owned κ ε) : Prop where
  owner : s.ownerStep = none
  pool : s.pool.Stuck work

/-- The owner has cleared the flag, and the threads that it has joined have ended. -/
structure Ending (s : Owned κ ε) : Prop where
  owner : s.owner ≠ .working
  stopped : s.pool.running = false
  joined : ∀ n, s.owner = .joining n → ∀ i < n, s.pool.threads[i]? = some .ended
  returned : s.owner = .returned → s.pool.Ended

/-- The steps that the owner of `n` threads has left. -/
def left (n : ℕ) : Owner → ℕ
  | .working => n + 2
  | .joining joined => n - joined + 1
  | .returned => 0

/-- The steps that the owner and its threads have left, if they take all that is queued. -/
def rank (work : κ → List ε) (s : Owned κ ε) : ℕ :=
  left s.pool.threads.length s.owner + s.pool.rank work

end Owned

/-- The completions of a run. -/
def Move.arrived (ms : List (Move κ)) : List κ :=
  ms.filterMap fun
    | .arrive completion => some completion
    | _ => none

/-- The steps of the owner and of the threads in a run. -/
def Move.steps (ms : List (Move κ)) : ℕ :=
  ms.countP fun
    | .arrive _ => false
    | _ => true

variable {work : κ → List ε} {s t : Owned κ ε} {m : Move κ} {ms : List (Move κ)}

namespace Owned

/-- What a step of the owner can be. -/
inductive Steps (s : Owned κ ε) : Owned κ ε → Prop
  | stop (howner : s.owner = .working) :
    Steps s { owner := .joining 0, pool := { s.pool with running := false } }
  | join {joined : ℕ} (howner : s.owner = .joining joined)
      (hended : s.pool.threads[joined]? = some .ended) :
    Steps s { s with owner := .joining (joined + 1) }
  | last {joined : ℕ} (howner : s.owner = .joining joined)
      (hlast : s.pool.threads.length ≤ joined) : Steps s { s with owner := .returned }

theorem steps_of_ownerStep (h : s.ownerStep = some t) : Steps s t := by
  unfold ownerStep at h
  split at h
  next howner =>
    obtain rfl := Option.some.inj h
    exact .stop howner
  next joined howner =>
    split at h
    next hnone =>
      obtain rfl := Option.some.inj h
      exact .last howner (List.getElem?_eq_none_iff.mp hnone)
    next hended =>
      obtain rfl := Option.some.inj h
      exact .join howner hended
    next => exact absurd h.symm (Option.some_ne_none t)
  next => exact absurd h.symm (Option.some_ne_none t)

theorem advances_of_step {i : ℕ} (h : s.step work (.thread i) = some t) :
    t.owner = s.owner ∧ ∃ call, Advances work s.pool i t.pool call := by
  obtain ⟨⟨pool, call⟩, hpool, rfl⟩ := Option.map_eq_some_iff.mp h
  exact ⟨rfl, call, advances_of_advance hpool⟩

theorem Ending.step (hs : s.Ending) (h : s.step work m = some t) : t.Ending := by
  cases m with
  | owner =>
    cases steps_of_ownerStep h with
    | stop howner => exact absurd howner hs.owner
    | @join joined howner hended =>
      refine ⟨Owner.noConfusion, hs.stopped, fun n hn i hi => ?_, Owner.noConfusion⟩
      obtain rfl := Owner.joining.inj hn
      rcases Nat.lt_succ_iff_lt_or_eq.mp hi with hlt | rfl
      · exact hs.joined joined howner i hlt
      · exact hended
    | @last joined howner hlast =>
      refine ⟨Owner.noConfusion, hs.stopped, fun n hn => Owner.noConfusion hn, fun _ => ?_⟩
      exact Pool.ended_iff.mpr fun k hk => hs.joined joined howner k (hk.trans_le hlast)
  | thread i =>
    obtain ⟨howner, call, hcall⟩ := advances_of_step h
    refine ⟨?_, ?_, fun n hn k hk => ?_, fun hreturned => ?_⟩
    · rw [howner]
      exact hs.owner
    · rw [hcall.flags.1]
      exact hs.stopped
    · exact hcall.ended (hs.joined n (howner.symm.trans hn) k hk)
    · rw [Pool.ended_iff, hcall.length]
      intro k hk
      exact hcall.ended (Pool.ended_iff.mp (hs.returned (howner.symm.trans hreturned)) k hk)
  | arrive completion =>
    obtain rfl := Option.some.inj h
    exact ⟨hs.owner, hs.stopped, hs.joined, hs.returned⟩

/-- The owner's steps change nothing of the pool but the flag. -/
theorem Steps.pool (h : Steps s t) :
    t.pool.threads = s.pool.threads ∧ t.pool.queue = s.pool.queue ∧
      t.pool.opened = s.pool.opened := by
  cases h <;> exact ⟨rfl, rfl, rfl⟩

/-- With its first step the owner ends the pool. -/
theorem ending_of_ownerStep (hs : s.owner ≠ .working → s.Ending) (h : s.ownerStep = some t) :
    t.Ending := by
  by_cases howner : s.owner = .working
  · rw [ownerStep, howner] at h
    obtain rfl := Option.some.inj h
    refine ⟨Owner.noConfusion, rfl, fun n hn i hi => ?_, Owner.noConfusion⟩
    obtain rfl := Owner.joining.inj hn
    exact absurd hi (Nat.not_lt_zero i)
  · exact (hs howner).step (show s.step (fun _ => []) .owner = some t from h)

/-- The steps of the pool in a step of an owner that is ending it. -/
theorem pool_step (hs : s.Ending) (h : s.step work m = some t) :
    ∃ ps, run (Pool.step work) s.pool ps = some t.pool ∧
      Workers.arrived ps = Move.arrived [m] ∧ t.pool.opened = s.pool.opened := by
  cases m with
  | owner =>
    cases steps_of_ownerStep h with
    | stop howner => exact absurd howner hs.owner
    | join | last => exact ⟨[], rfl, rfl, rfl⟩
  | thread i =>
    obtain ⟨⟨pool, call⟩, hpool, rfl⟩ := Option.map_eq_some_iff.mp h
    refine ⟨[.advance i], ?_, rfl, (advances_of_advance hpool).flags.2⟩
    rw [run_cons, Pool.step, hpool]
    rfl
  | arrive completion =>
    obtain rfl := Option.some.inj h
    exact ⟨[.arrive completion], rfl, rfl, rfl⟩

theorem arrived_cons (m : Move κ) (ms : List (Move κ)) :
    Move.arrived (m :: ms) = Move.arrived [m] ++ Move.arrived ms :=
  List.filterMap_append (l := [m])

theorem pool_run (hs : s.Ending) (h : run (step work) s ms = some t) :
    t.Ending ∧ t.pool.opened = s.pool.opened ∧
      ∃ ps, run (Pool.step work) s.pool ps = some t.pool ∧
        Workers.arrived ps = Move.arrived ms := by
  induction ms generalizing s with
  | nil =>
    obtain rfl := Option.some.inj h
    exact ⟨hs, rfl, [], rfl, rfl⟩
  | cons m ms ih =>
    obtain ⟨u, hu, hrun⟩ := run_cons_eq_some.mp h
    obtain ⟨ps, hps, harrived, hopened⟩ := pool_step hs hu
    obtain ⟨ht, hopened', qs, hqs, hrest⟩ := ih (hs.step hu) hrun
    refine ⟨ht, hopened'.trans hopened, ps ++ qs, run_append_eq_some.mpr ⟨u.pool, hps, hqs⟩, ?_⟩
    rw [arrived_cons, ← harrived, ← hrest]
    exact List.filterMap_append

/-- An owner that can do nothing more has returned, or a thread that it has not joined has not
ended. -/
theorem Stuck.returned_iff (h : s.Stuck work) (hs : s.Ending) :
    s.owner = .returned ↔ s.pool.Ended := by
  refine ⟨hs.returned, fun hended => ?_⟩
  have hnone := h.owner
  unfold ownerStep at hnone
  cases howner : s.owner with
  | working => exact absurd howner hs.owner
  | joining joined =>
    simp only [howner] at hnone
    split at hnone
    next => cases hnone
    next => cases hnone
    next point hpoint hjoined =>
      exact absurd (hended point (List.mem_of_getElem? hjoined)) hpoint
  | returned => rfl

/-- Where an ending owner and its threads can do nothing more, the owner has returned exactly if the
port is closed or a completion came for each thread that waited. -/
theorem returned_iff (hs : s.Ending) (h : run (step work) s ms = some t) (hstuck : t.Stuck work) :
    t.owner = .returned ↔ (s.pool.opened = true →
      s.pool.waiting ≤ s.pool.queue.length + (Move.arrived ms).length) := by
  obtain ⟨ht, hopened, ps, hps, harrived⟩ := pool_run hs h
  rw [hstuck.returned_iff ht, ← harrived]
  cases hport : s.pool.opened with
  | true =>
    rw [drained_iff hs.stopped hps (hopened.trans hport) hstuck.pool]
    exact ⟨fun hle _ => hle, fun hle => hle rfl⟩
  | false =>
    have hended := ended_of_closed (hopened.trans hport) hstuck.pool
    exact iff_of_true hended fun hopen => Bool.noConfusion hopen

/-! ### How long it takes -/

theorem rank_step (hs : s.Ending) (h : s.step work m = some t) :
    t.rank work + Move.steps [m] ≤
      s.rank work + ((Move.arrived [m]).map fun c => 1 + (work c).length).sum := by
  cases m with
  | owner =>
    have hone : Move.steps [(.owner : Move κ)] = 1 := rfl
    rw [hone]
    cases steps_of_ownerStep h with
    | stop howner => exact absurd howner hs.owner
    | @join joined howner hended =>
      have hlt : joined < s.pool.threads.length := (List.getElem?_eq_some_iff.mp hended).1
      simp only [rank, howner, left]
      omega
    | last howner =>
      simp only [rank, howner, left]
      omega
  | thread i =>
    obtain ⟨howner, call, hcall⟩ := advances_of_step h
    have hrank := hcall.rank hs.stopped
    have hone : Move.steps [(.thread i : Move κ)] = 1 := rfl
    rw [hone, rank, rank, howner, hcall.length]
    omega
  | arrive completion =>
    obtain rfl := Option.some.inj h
    have hzero : Move.steps [(.arrive completion : Move κ)] = 0 := rfl
    have hqueue : Pool.rank work { s.pool with queue := s.pool.queue ++ [completion] } =
        s.pool.rank work + (1 + (work completion).length) := by
      simp only [Pool.rank, List.map_append, List.map_cons, List.map_nil, List.sum_append,
        List.sum_cons, List.sum_nil]
      omega
    have hbrought : ((Move.arrived [(.arrive completion : Move κ)]).map fun c =>
        1 + (work c).length).sum = 1 + (work completion).length := rfl
    rw [hzero, hbrought, rank, rank, hqueue]
    dsimp only
    omega

/-- An ending owner and its threads make a bounded number of steps. -/
theorem steps_le (hs : s.Ending) (h : run (step work) s ms = some t) :
    t.rank work + Move.steps ms ≤
      s.rank work + ((Move.arrived ms).map fun c => 1 + (work c).length).sum := by
  induction ms generalizing s with
  | nil =>
    obtain rfl := Option.some.inj h
    exact Nat.le_refl _
  | cons m ms ih =>
    obtain ⟨u, hu, hrun⟩ := run_cons_eq_some.mp h
    have hfirst := rank_step hs hu
    have hrest := ih (hs.step hu) hrun
    have hsteps : Move.steps (m :: ms) = Move.steps [m] + Move.steps ms := by
      rw [← List.singleton_append]
      exact List.countP_append
    rw [arrived_cons, List.map_append, List.sum_append, hsteps]
    omega

/-! ### A machine with an owner and a pool in it -/

section Machine

variable {σ δ : Type*} {k : σ → δ → Option σ} {f : σ → Owned κ ε} {g : δ → Move κ} {I : σ → Prop}
  {x y : σ} {es : List δ}

theorem arrived_map (hg : ∀ e c, g e ≠ .arrive c) (es : List δ) : Move.arrived (es.map g) = [] := by
  induction es with
  | nil => rfl
  | cons e es ih =>
    rw [List.map_cons, arrived_cons, ih]
    cases he : g e with
    | arrive c => exact absurd he (hg e c)
    | _ => rfl

theorem steps_map (hg : ∀ e c, g e ≠ .arrive c) (es : List δ) :
    Move.steps (es.map g) = es.length := by
  induction es with
  | nil => rfl
  | cons e es ih =>
    have hone : Move.steps (g e :: es.map g) = Move.steps (es.map g) + 1 := by
      refine List.countP_cons_of_pos ?_
      cases he : g e with
      | arrive c => exact absurd he (hg e c)
      | _ => rfl
    rw [List.map_cons, hone, ih, List.length_cons]

/-- Where every step of a machine is one of the owner or of a thread, and no completion is queued,
the owner returns after a bounded number of steps exactly if no thread waited on the open port. -/
theorem returns_of_run (hg : ∀ e c, g e ≠ .arrive c)
    (hstep : ∀ x e y, I x → k x e = some y → (f x).step work (g e) = some (f y) ∧ I y)
    (hI : I x) (hending : (f x).Ending) (hqueue : (f x).pool.queue = [])
    (h : run k x es = some y) :
    I y ∧ (f y).rank work + es.length ≤ (f x).rank work ∧ ((f y).Stuck work →
      ((f y).owner = .returned ↔ ((f x).pool.opened = true → (f x).pool.waiting = 0))) := by
  obtain ⟨hrun, hI'⟩ := run_map hstep hI h
  refine ⟨hI', ?_, fun hstuck => ?_⟩
  · have hsteps := steps_le hending hrun
    rw [arrived_map hg, steps_map hg] at hsteps
    exact hsteps
  · rw [returned_iff hending hrun hstuck, arrived_map hg, hqueue]
    exact imp_congr_right fun _ => Nat.le_zero

end Machine

end Owned

end Workers
