import Mathlib.Algebra.Ring.Nat
import Mathlib.Data.List.Count
import IocpStudy.Lib.Runs

/-! A pool of threads that serve a completion port, each with the loop `while (running) { wait;
handle }`.  A wait returns a queued completion, or nothing once the port's handle is closed, and
without either it blocks.  A pool that is stopped makes a bounded number of steps: with the port
open, its threads end exactly if a completion comes for each of those that wait, and with the port
closed they all end. -/

namespace Workers

open Runs

/-- Where a thread is in its loop: before the test of the flag, in the wait, or handling a
completion with the calls `calls` before it. -/
inductive Point (ε : Type*)
  | testing
  | waiting
  | handling (calls : List ε)
  | ended
deriving Repr, DecidableEq

/-- The threads, the flag they test, and the port that they wait on. -/
structure Pool (κ ε : Type*) where
  running : Bool
  opened : Bool
  queue : List κ
  threads : List (Point ε)
deriving Repr, DecidableEq

inductive Event (κ : Type*)
  | advance (i : ℕ)
  | arrive (completion : κ)
  | stop
  | close
deriving Repr, DecidableEq

variable {κ ε : Type*}

namespace Pool

def setThread (p : Pool κ ε) (i : ℕ) (point : Point ε) : Pool κ ε :=
  { p with threads := p.threads.set i point }

/-- The pool when all its `n` threads have just started. -/
def start (n : ℕ) : Pool κ ε :=
  { running := true, opened := true, queue := [], threads := List.replicate n .testing }

/-- The next step of thread `i`, and the call that it makes.  `work` is what the handling of a
completion calls. -/
def advance (work : κ → List ε) (p : Pool κ ε) (i : ℕ) : Option (Pool κ ε × Option ε) :=
  match p.threads[i]? with
  | some .testing => some (p.setThread i (if p.running then .waiting else .ended), none)
  | some .waiting =>
    if p.opened then
      match p.queue with
      | [] => none
      | c :: queue => some ({ p.setThread i (.handling (work c)) with queue }, none)
    else some (p.setThread i .testing, none)
  | some (.handling []) => some (p.setThread i .testing, none)
  | some (.handling (call :: calls)) => some (p.setThread i (.handling calls), some call)
  | some .ended => none
  | none => none

def step (work : κ → List ε) (p : Pool κ ε) : Event κ → Option (Pool κ ε)
  | .advance i => (p.advance work i).map Prod.fst
  | .arrive completion => some { p with queue := p.queue ++ [completion] }
  | .stop => some { p with running := false }
  | .close => some { p with opened := false }

/-- No thread can make a step. -/
def Stuck (work : κ → List ε) (p : Pool κ ε) : Prop := ∀ i, p.advance work i = none

/-- No completion is queued, and no thread handles one. -/
def Idle (p : Pool κ ε) : Prop :=
  p.queue = [] ∧ ∀ point ∈ p.threads, ∀ calls, point ≠ .handling calls

/-- Every thread has left its loop. -/
def Ended (p : Pool κ ε) : Prop := ∀ point ∈ p.threads, point = .ended

end Pool

/-! ### What is counted -/

def Point.waits : Point ε → ℕ
  | .waiting => 1
  | _ => 0

/-- The steps that a thread of a stopped pool has left without another completion. -/
def Point.left : Point ε → ℕ
  | .testing => 1
  | .waiting => 2
  | .handling calls => 2 + calls.length
  | .ended => 0

namespace Pool

/-- The threads in the wait. -/
def waiting (p : Pool κ ε) : ℕ := (p.threads.map Point.waits).sum

/-- The steps that the threads of a stopped pool have left, if they take all that is queued. -/
def rank (work : κ → List ε) (p : Pool κ ε) : ℕ :=
  (p.threads.map Point.left).sum + (p.queue.map fun c => 1 + (work c).length).sum

@[simp] theorem rank_mk (work : κ → List ε) (p : Pool κ ε) (running opened : Bool) :
    rank work ⟨running, opened, p.queue, p.threads⟩ = p.rank work := rfl

end Pool

/-- The completions of a run. -/
def arrived (es : List (Event κ)) : List κ :=
  es.filterMap fun
    | .arrive completion => some completion
    | _ => none

variable {work : κ → List ε} {p q : Pool κ ε} {e : Event κ} {es : List (Event κ)} {i : ℕ}
  {call : Option ε}

/-- A weight summed over a list, of which one element changes. -/
theorem sum_map_set {α : Type*} (f : α → ℕ) {l : List α} {i : ℕ} {a b : α} (h : l[i]? = some a) :
    ((l.set i b).map f).sum + f a = (l.map f).sum + f b := by
  induction l generalizing i with
  | nil => exact absurd h.symm (Option.some_ne_none a)
  | cons c l ih =>
    cases i with
    | zero =>
      obtain rfl := Option.some.inj h
      simp only [List.set_cons_zero, List.map_cons, List.sum_cons]
      omega
    | succ i =>
      have hrest := ih (i := i) h
      simp only [List.set_cons_succ, List.map_cons, List.sum_cons]
      omega

/-! ### One step of a thread -/

/-- What a step of thread `i` can be. -/
inductive Advances (work : κ → List ε) (p : Pool κ ε) (i : ℕ) : Pool κ ε → Option ε → Prop
  | enter (hi : p.threads[i]? = some .testing) (hrun : p.running = true) :
    Advances work p i (p.setThread i .waiting) none
  | leave (hi : p.threads[i]? = some .testing) (hrun : p.running = false) :
    Advances work p i (p.setThread i .ended) none
  | take {c : κ} {queue : List κ} (hi : p.threads[i]? = some .waiting) (hopen : p.opened = true)
      (hqueue : p.queue = c :: queue) :
    Advances work p i { p.setThread i (.handling (work c)) with queue } none
  | fail (hi : p.threads[i]? = some .waiting) (hclosed : p.opened = false) :
    Advances work p i (p.setThread i .testing) none
  | handled (hi : p.threads[i]? = some (.handling [])) :
    Advances work p i (p.setThread i .testing) none
  | call {c : ε} {calls : List ε} (hi : p.threads[i]? = some (.handling (c :: calls))) :
    Advances work p i (p.setThread i (.handling calls)) (some c)

theorem advances_of_advance (h : p.advance work i = some (q, call)) :
    Advances work p i q call := by
  unfold Pool.advance at h
  split at h
  next hi =>
    obtain ⟨rfl, rfl⟩ := Prod.mk.inj (Option.some.inj h)
    cases hrun : p.running with
    | true => exact .enter hi hrun
    | false => exact .leave hi hrun
  next hi =>
    split at h
    next hopen =>
      split at h
      next => exact absurd h.symm (Option.some_ne_none _)
      next c queue hqueue =>
        obtain ⟨rfl, rfl⟩ := Prod.mk.inj (Option.some.inj h)
        exact .take hi hopen hqueue
    next hclosed =>
      obtain ⟨rfl, rfl⟩ := Prod.mk.inj (Option.some.inj h)
      exact .fail hi (Bool.eq_false_iff.mpr hclosed)
  next hi =>
    obtain ⟨rfl, rfl⟩ := Prod.mk.inj (Option.some.inj h)
    exact .handled hi
  next c calls hi =>
    obtain ⟨rfl, rfl⟩ := Prod.mk.inj (Option.some.inj h)
    exact .call hi
  next => exact absurd h.symm (Option.some_ne_none _)
  next => exact absurd h.symm (Option.some_ne_none _)

/-- The flag and the port are not the threads' to change. -/
theorem Advances.flags (h : Advances work p i q call) :
    q.running = p.running ∧ q.opened = p.opened := by
  cases h <;> exact ⟨rfl, rfl⟩

theorem Advances.length (h : Advances work p i q call) :
    q.threads.length = p.threads.length := by
  cases h <;> exact List.length_set

/-- A thread that has ended stays so. -/
theorem Advances.ended {k : ℕ} (h : Advances work p i q call)
    (hk : p.threads[k]? = some .ended) : q.threads[k]? = some .ended := by
  have hne : ∀ point, p.threads[i]? = some point → point ≠ .ended → i ≠ k := by
    rintro point hi hpoint rfl
    exact hpoint (Option.some.inj (hi.symm.trans hk))
  cases h with
  | enter hi => rw [Pool.setThread, List.getElem?_set_ne (hne _ hi (by simp)), hk]
  | leave hi => rw [Pool.setThread, List.getElem?_set_ne (hne _ hi (by simp)), hk]
  | take hi => exact (List.getElem?_set_ne (hne _ hi (by simp))).trans hk
  | fail hi => rw [Pool.setThread, List.getElem?_set_ne (hne _ hi (by simp)), hk]
  | handled hi => rw [Pool.setThread, List.getElem?_set_ne (hne _ hi (by simp)), hk]
  | call hi => rw [Pool.setThread, List.getElem?_set_ne (hne _ hi (by simp)), hk]

/-- A pool without completions makes no calls. -/
theorem Advances.idle (h : Advances work p i q call) (hp : p.Idle) : q.Idle ∧ call = none := by
  have hset (point : Point ε) (hpoint : ∀ calls, point ≠ .handling calls) :
      (p.setThread i point).Idle := by
    refine ⟨hp.1, fun other hmem => ?_⟩
    rcases List.mem_or_eq_of_mem_set hmem with hold | rfl
    · exact hp.2 other hold
    · exact hpoint
  cases h with
  | enter => exact ⟨hset _ (by simp), rfl⟩
  | leave => exact ⟨hset _ (by simp), rfl⟩
  | take hi hopen hqueue => exact absurd (hp.1.symm.trans hqueue) (by simp)
  | fail => exact ⟨hset _ (by simp), rfl⟩
  | handled hi => exact absurd rfl (hp.2 _ (List.mem_of_getElem? hi) [])
  | @call c calls hi => exact absurd rfl (hp.2 _ (List.mem_of_getElem? hi) (c :: calls))

theorem idle_start (n : ℕ) (opened : Bool) :
    ({ Pool.start n with opened } : Pool κ ε).Idle := by
  refine ⟨rfl, fun point hmem calls => ?_⟩
  obtain rfl := List.eq_of_mem_replicate hmem
  simp

theorem Pool.ended_iff :
    p.Ended ↔ ∀ k < p.threads.length, p.threads[k]? = some .ended := by
  constructor
  · intro h k hk
    rw [List.getElem?_eq_getElem hk, h _ (List.getElem_mem hk)]
  · intro h point hmem
    obtain ⟨k, hk⟩ := List.getElem?_of_mem hmem
    have hlt : k < p.threads.length := (List.getElem?_eq_some_iff.mp hk).1
    exact Option.some.inj (hk.symm.trans (h k hlt))

theorem waiting_setThread {point : Point ε} (next : Point ε) (hi : p.threads[i]? = some point) :
    (p.setThread i next).waiting + point.waits = p.waiting + next.waits :=
  sum_map_set Point.waits hi

/-- Each step of a stopped pool is one of those it had left. -/
theorem Advances.rank (h : Advances work p i q call) (hstop : p.running = false) :
    q.rank work + 1 = p.rank work := by
  cases h with
  | enter hi hrun => exact absurd hrun (Bool.eq_false_iff.mp hstop)
  | leave hi =>
    have hsum := sum_map_set Point.left (b := .ended) hi
    simp only [Point.left] at hsum
    simp only [Pool.rank, Pool.setThread]
    omega
  | @take c queue hi hopen hqueue =>
    have hsum := sum_map_set Point.left (b := .handling (work c)) hi
    simp only [Point.left] at hsum
    simp only [Pool.rank, Pool.setThread, hqueue, List.map_cons, List.sum_cons]
    omega
  | fail hi =>
    have hsum := sum_map_set Point.left (b := .testing) hi
    simp only [Point.left] at hsum
    simp only [Pool.rank, Pool.setThread]
    omega
  | handled hi =>
    have hsum := sum_map_set Point.left (b := .testing) hi
    simp only [Point.left, List.length_nil] at hsum
    simp only [Pool.rank, Pool.setThread]
    omega
  | @call c calls hi =>
    have hsum := sum_map_set Point.left (b := .handling calls) hi
    simp only [Point.left, List.length_cons] at hsum
    simp only [Pool.rank, Pool.setThread]
    omega

/-- The threads of a stopped pool leave the wait of an open port one by one with the completions
that are queued. -/
theorem Advances.balance (h : Advances work p i q call) (hstop : p.running = false)
    (hopen : p.opened = true) : q.waiting + p.queue.length = p.waiting + q.queue.length := by
  cases h with
  | enter hi hrun => exact absurd hrun (Bool.eq_false_iff.mp hstop)
  | leave hi =>
    have hsum := waiting_setThread .ended hi
    simp only [Point.waits] at hsum
    simp only [Pool.setThread] at hsum ⊢
    omega
  | @take c queue hi _ hqueue =>
    have hsum : Pool.waiting { p.setThread i (.handling (work c)) with queue } + 1 = p.waiting :=
      waiting_setThread (.handling (work c)) hi
    rw [hqueue, List.length_cons]
    dsimp only at hsum ⊢
    omega
  | fail hi hclosed => exact absurd hopen (Bool.eq_false_iff.mp hclosed)
  | handled hi =>
    have hsum := waiting_setThread .testing hi
    simp only [Point.waits] at hsum
    simp only [Pool.setThread] at hsum ⊢
    omega
  | @call c calls hi =>
    have hsum := waiting_setThread (.handling calls) hi
    simp only [Point.waits] at hsum
    simp only [Pool.setThread] at hsum ⊢
    omega

/-- What keeps every thread of a pool from a step. -/
theorem stuck_iff : p.Stuck work ↔
    ∀ point ∈ p.threads, point = .ended ∨ point = .waiting ∧ p.opened = true ∧ p.queue = [] := by
  constructor
  · intro h point hmem
    obtain ⟨i, hi⟩ := List.getElem?_of_mem hmem
    have hnone := h i
    unfold Pool.advance at hnone
    rw [hi] at hnone
    cases point with
    | testing => exact absurd hnone (Option.some_ne_none _)
    | waiting =>
      right
      simp only at hnone
      split at hnone
      next hopen =>
        split at hnone
        next hqueue => exact ⟨rfl, hopen, hqueue⟩
        next => exact absurd hnone (Option.some_ne_none _)
      next => exact absurd hnone (Option.some_ne_none _)
    | handling calls =>
      cases calls with
      | nil => exact absurd hnone (Option.some_ne_none _)
      | cons c calls => exact absurd hnone (Option.some_ne_none _)
    | ended => exact Or.inl rfl
  · intro h i
    unfold Pool.advance
    cases hi : p.threads[i]? with
    | none => rfl
    | some point =>
      rcases h point (List.mem_of_getElem? hi) with rfl | ⟨rfl, hopen, hqueue⟩
      · rfl
      · simp only [hopen, hqueue, if_true]

theorem waiting_eq_zero_iff : p.waiting = 0 ↔ ∀ point ∈ p.threads, point ≠ .waiting := by
  unfold Pool.waiting
  rw [List.sum_eq_zero_iff_forall_eq_nat, List.forall_mem_map]
  refine forall₂_congr fun point _ => ?_
  cases point <;> simp [Point.waits]

/-- A stuck pool has ended, unless a thread of it waits on the open port. -/
theorem Pool.Stuck.ended_iff (h : p.Stuck work) : p.Ended ↔ p.waiting = 0 := by
  rw [waiting_eq_zero_iff]
  constructor
  · intro hended point hmem hwait
    obtain rfl := hended point hmem
    cases hwait
  · intro hnone point hmem
    rcases stuck_iff.mp h point hmem with hended | ⟨hwait, -, -⟩
    · exact hended
    · exact absurd hwait (hnone point hmem)

/-! ### Runs of a stopped pool -/

theorem step_eq_some_of_advance (h : p.step work (.advance i) = some q) :
    ∃ call, Advances work p i q call := by
  obtain ⟨⟨q', call⟩, hq, rfl⟩ := Option.map_eq_some_iff.mp h
  exact ⟨call, advances_of_advance hq⟩

/-- A pool that was stopped stays so. -/
theorem stopped_step (hstop : p.running = false) (h : p.step work e = some q) :
    q.running = false := by
  cases e with
  | advance i =>
    obtain ⟨call, hcall⟩ := step_eq_some_of_advance h
    rw [hcall.flags.1, hstop]
  | arrive completion =>
    obtain rfl := Option.some.inj h
    exact hstop
  | stop =>
    obtain rfl := Option.some.inj h
    rfl
  | close =>
    obtain rfl := Option.some.inj h
    exact hstop

/-- The port of a pool is never opened again. -/
theorem opened_of_step (h : p.step work e = some q) (hopen : q.opened = true) :
    p.opened = true := by
  cases e with
  | advance i =>
    obtain ⟨call, hcall⟩ := step_eq_some_of_advance h
    rw [← hcall.flags.2, hopen]
  | arrive completion =>
    obtain rfl := Option.some.inj h
    exact hopen
  | stop =>
    obtain rfl := Option.some.inj h
    exact hopen
  | close =>
    obtain rfl := Option.some.inj h
    exact absurd hopen Bool.false_ne_true

theorem opened_of_run (h : run (Pool.step work) p es = some q) (hopen : q.opened = true) :
    p.opened = true := by
  by_contra hclosed
  refine run_invariant (P := fun p : Pool κ ε => ¬p.opened = true) ?_ hclosed h hopen
  exact fun s e t hs hst ht => hs (opened_of_step hst ht)

/-- While the port is open, a stopped pool's waits are ended by completions alone. -/
theorem run_balance (hstop : p.running = false) (h : run (Pool.step work) p es = some q)
    (hopen : q.opened = true) :
    q.waiting + p.queue.length + (arrived es).length = p.waiting + q.queue.length := by
  induction es generalizing p with
  | nil =>
    obtain rfl := Option.some.inj h
    rfl
  | cons e es ih =>
    obtain ⟨u, hu, hrun⟩ := run_cons_eq_some.mp h
    have hrest := ih (stopped_step hstop hu) hrun
    cases e with
    | advance i =>
      obtain ⟨call, hcall⟩ := step_eq_some_of_advance hu
      have hp : p.opened = true := by
        rw [← hcall.flags.2]
        exact opened_of_run hrun hopen
      have hbalance := hcall.balance hstop hp
      have harrived : arrived (.advance i :: es) = arrived es := rfl
      rw [harrived]
      omega
    | arrive completion =>
      obtain rfl := Option.some.inj hu
      have hwaiting : Pool.waiting { p with queue := p.queue ++ [completion] } = p.waiting := rfl
      have harrived : arrived (.arrive completion :: es) = completion :: arrived es := rfl
      simp only [hwaiting, List.length_append, List.length_cons, List.length_nil] at hrest
      rw [harrived, List.length_cons]
      omega
    | stop =>
      obtain rfl := Option.some.inj hu
      exact hrest
    | close =>
      obtain rfl := Option.some.inj hu
      exact hrest

/-- With the port open, a stopped pool whose threads can do nothing more has ended exactly if the
completions were as many as the threads in the wait. -/
theorem drained_iff (hstop : p.running = false) (h : run (Pool.step work) p es = some q)
    (hopen : q.opened = true) (hstuck : q.Stuck work) :
    q.Ended ↔ p.waiting ≤ p.queue.length + (arrived es).length := by
  rw [hstuck.ended_iff]
  have hbalance := run_balance hstop h hopen
  constructor
  · intro hzero
    omega
  · intro hle
    by_contra hpos
    obtain ⟨point, hmem, hwait⟩ : ∃ point ∈ q.threads, point = .waiting := by
      by_contra hnone
      exact hpos (waiting_eq_zero_iff.mpr fun point hmem hwait => hnone ⟨point, hmem, hwait⟩)
    have hempty : q.queue = [] := by
      rcases stuck_iff.mp hstuck point hmem with rfl | ⟨-, -, hqueue⟩
      · cases hwait
      · exact hqueue
    rw [hempty, List.length_nil] at hbalance
    omega

/-- With the port closed, they have ended whatever completions there were. -/
theorem ended_of_closed (hclosed : q.opened = false) (hstuck : q.Stuck work) : q.Ended := by
  intro point hmem
  rcases stuck_iff.mp hstuck point hmem with hended | ⟨-, hopen, -⟩
  · exact hended
  · exact absurd hopen (Bool.eq_false_iff.mp hclosed)

end Workers
