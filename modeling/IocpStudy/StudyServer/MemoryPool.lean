import IocpStudy.Lib.Pools
import IocpStudy.Lib.Runs
import IocpStudy.StudyServer.NetworkPacket

/-! The accounts of a `MemoryPool`.  The pool never looks into its objects, so they are numbered
here in the order of their creation.  A run of `Acquire` calls and deleters keeps every object that
was ever created in `pool_` or with one caller, and creates an object only when all the others are
out, so the number created is the most that were out at a time, or the initial size. -/

namespace IocpStudy.StudyServer

open Runs Pools

/-- The constructor `MemoryPool(size_t size)`, with `makeUnique i` the object of its round `i`. -/
def MemoryPool.new {T : Type} (size : ℕ) (makeUnique : ℕ → T) : MemoryPool T :=
  ⟨(List.range size).map makeUnique⟩

/-- A pool and its callers.  `held` are the objects that were acquired and are not yet released,
`created` counts the objects created so far, and `peak` is the most that were held at a time. -/
structure PoolState where
  pool : MemoryPool ℕ
  held : List ℕ := []
  created : ℕ
  peak : ℕ := 0

inductive PoolEvent
  | acquire
  | release (ptr : ℕ)
deriving Repr, DecidableEq

def PoolState.acquired (s : PoolState) : PoolState :=
  { pool := (s.pool.acquire s.created).2
    held := s.held ++ [(s.pool.acquire s.created).1]
    created := if s.pool.pool_.isEmpty then s.created + 1 else s.created
    peak := max s.peak (s.held.length + 1) }

/-- A deleter runs once for an object that its caller holds. -/
def poolStep (s : PoolState) : PoolEvent → Option PoolState
  | .acquire => some s.acquired
  | .release ptr =>
    if ptr ∈ s.held then some { s with pool := s.pool.release ptr, held := s.held.erase ptr }
    else none

def PoolState.start (size : ℕ) : PoolState :=
  { pool := MemoryPool.new size id, created := size }

variable {T : Type} {n : ℕ} {s t : PoolState} {e : PoolEvent} {es : List PoolEvent}

/-! ### The two operations -/

theorem MemoryPool.acquire_of_append (rest : List T) (x fresh : T) :
    MemoryPool.acquire ⟨rest ++ [x]⟩ fresh = (x, ⟨rest⟩) := by
  simp [acquire]

/-- Every object created so far is in the pool or held, once, and there are as many as were needed
at the peak. -/
structure PoolState.Balanced (n : ℕ) (s : PoolState) : Prop where
  conserved : Conserved (List.range s.created) s.pool.pool_ s.held
  held_le : s.held.length ≤ s.peak
  created_eq : s.created = max n s.peak

theorem PoolState.balanced_start : (PoolState.start n).Balanced n := by
  refine ⟨?_, Nat.zero_le _, (Nat.max_zero n).symm⟩
  rw [PoolState.start, MemoryPool.new, List.map_id]
  exact conserved_nil

/-- `Acquire` on an empty pool finds every object held, so the peak is reached and exceeded. -/
theorem PoolState.Balanced.acquired_of_empty (hs : s.Balanced n) (hempty : s.pool.pool_ = []) :
    s.acquired.Balanced n := by
  obtain ⟨⟨pool⟩, held, created, peak⟩ := s
  subst hempty
  have hlength := hs.conserved.length_add
  have hheld := hs.held_le
  have hcreated := hs.created_eq
  simp only [List.length_nil, List.length_range, Nat.zero_add] at hlength hheld hcreated
  refine ⟨?_, ?_, ?_⟩
  · show Conserved (List.range (created + 1)) [] (held ++ [created])
    rw [List.range_succ]
    exact hs.conserved.create
  · show (held ++ [created]).length ≤ max peak (held.length + 1)
    rw [List.length_append]
    exact le_max_right _ _
  · show created + 1 = max n (max peak (held.length + 1))
    omega

theorem PoolState.Balanced.acquired_of_append {rest : List ℕ} {x : ℕ} (hs : s.Balanced n)
    (hpool : s.pool.pool_ = rest ++ [x]) : s.acquired.Balanced n := by
  obtain ⟨⟨pool⟩, held, created, peak⟩ := s
  subst hpool
  have hlength := hs.conserved.length_add
  have hcreated := hs.created_eq
  have hconserved := hs.conserved
  simp only [List.length_append, List.length_singleton, List.length_range] at hlength hcreated
  rw [conserved_release, ← conserved_take] at hconserved
  rw [PoolState.acquired]
  simp only [MemoryPool.acquire_of_append]
  have hsome : (rest ++ [x]).isEmpty = false := by simp
  rw [hsome]
  refine ⟨hconserved, ?_, ?_⟩
  · show (held ++ [x]).length ≤ max peak (held.length + 1)
    rw [List.length_append]
    exact le_max_right _ _
  · show created = max n (max peak (held.length + 1))
    omega

theorem PoolState.Balanced.acquired (hs : s.Balanced n) : s.acquired.Balanced n := by
  rcases List.eq_nil_or_concat s.pool.pool_ with hempty | ⟨rest, x, hpool⟩
  · exact hs.acquired_of_empty hempty
  · exact hs.acquired_of_append (hpool.trans List.concat_eq_append)

theorem PoolState.Balanced.released {ptr : ℕ} (hs : s.Balanced n) (hptr : ptr ∈ s.held) :
    PoolState.Balanced n
      { s with pool := s.pool.release ptr, held := s.held.erase ptr } := by
  refine ⟨?_, (List.length_erase_le).trans hs.held_le, hs.created_eq⟩
  show Conserved (List.range s.created) (s.pool.pool_ ++ [ptr]) (s.held.erase ptr)
  rw [conserved_release, ← conserved_take]
  refine hs.conserved.perm ?_
  exact (List.perm_append_singleton ptr _).trans (List.perm_cons_erase hptr).symm

theorem poolStep_balanced (hs : s.Balanced n) (h : poolStep s e = some t) : t.Balanced n := by
  cases e with
  | acquire =>
    cases h
    exact hs.acquired
  | release ptr =>
    rw [poolStep] at h
    split_ifs at h with hptr
    cases h
    exact hs.released hptr

/-! ### A run -/

/-- What `Acquire` hands out is an object that nobody holds: one of the pool, or a new one. -/
theorem PoolState.Balanced.acquire_fresh (hs : s.Balanced n) :
    (s.pool.acquire s.created).1 < s.acquired.created ∧
      (s.pool.acquire s.created).1 ∉ s.held := by
  have hnext := hs.acquired.conserved
  have hheld : s.acquired.held = s.held ++ [(s.pool.acquire s.created).1] := rfl
  have hmem : (s.pool.acquire s.created).1 ∈ s.acquired.held := by
    rw [hheld]
    exact List.mem_append_right _ (List.mem_singleton_self _)
  refine ⟨List.mem_range.mp (hnext.mem_of_held hmem), fun hold => ?_⟩
  have hnodup := hnext.unshared List.nodup_range
  rw [hheld] at hnodup
  exact (List.nodup_append.mp (List.nodup_append.mp hnodup).2.1).2.2 _ hold _
    (List.mem_singleton_self _) rfl

/-- After every run on a pool of initial size `n`, no object is in two places, the number of objects
created is the maximum of `n` and the peak, and the next `Acquire` returns an object that is not
held. -/
theorem memoryPool_accounts (n : ℕ) (es : List PoolEvent) (s : PoolState)
    (h : run poolStep (.start n) es = some s) :
    Unshared s.pool.pool_ s.held ∧ s.created = max n s.peak ∧
      (s.pool.pool_ ++ s.held).Perm (List.range s.created) ∧
      ∃ x t, poolStep s .acquire = some t ∧ t.held = s.held ++ [x] ∧ x < t.created ∧
        x ∉ s.held := by
  have hs : s.Balanced n :=
    run_invariant (fun _ _ _ hs hst => poolStep_balanced hs hst) PoolState.balanced_start h
  obtain ⟨hlt, hheld⟩ := hs.acquire_fresh
  exact ⟨hs.conserved.unshared List.nodup_range, hs.created_eq, hs.conserved,
    _, s.acquired, rfl, rfl, hlt, hheld⟩

/-- Three objects out of a pool of two, one released and acquired again: three were created. -/
theorem memoryPool_accounts_three :
    ∃ s, run poolStep (.start 2) [.acquire, .acquire, .acquire, .release 0, .acquire] = some s ∧
      s.held = [1, 2, 0] ∧ s.created = max 2 s.peak ∧ s.peak = 3 := by
  have h : run poolStep (.start 2) [.acquire, .acquire, .acquire, .release 0, .acquire] =
      some ⟨⟨[]⟩, [1, 2, 0], 3, 3⟩ := rfl
  exact ⟨_, h, rfl, (memoryPool_accounts 2 _ _ h).2.1, rfl⟩

end IocpStudy.StudyServer
