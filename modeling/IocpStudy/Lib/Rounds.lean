import IocpStudy.Lib.Runs

/-! A thread that takes one entry of a queue in each round of its loop, if there is one, while other
threads add entries.  Nobody waits for more than a round for each entry in front, however the
threads are interleaved. -/

namespace Rounds

open Runs

variable {σ ε : Type*}

/-- `ticks` are the events of the thread and `period` is the number of them in a round.  `away` is
the number before the thread comes to the queue again, `taken` that of the entries taken so far, and
`queued` that of the entries in the queue. -/
structure Polls (step : σ → ε → Option σ) (ticks : ε → Bool) (period : ℕ)
    (away taken queued : σ → ℕ) : Prop where
  other : ∀ s e t, step s e = some t → ticks e = false →
    away t = away s ∧ taken t = taken s ∧ queued s ≤ queued t
  between : ∀ s e t k, step s e = some t → ticks e = true → away s = k + 1 →
    away t = k ∧ taken t = taken s ∧ queued s ≤ queued t
  poll : ∀ s e t, step s e = some t → ticks e = true → away s = 0 →
    away t + 1 = period ∧ taken t = taken s + min 1 (queued s) ∧ queued s ≤ queued t + 1

variable {step : σ → ε → Option σ} {ticks : ε → Bool} {period : ℕ} {away taken queued : σ → ℕ}
  {s t : σ} {e : ε} {es : List ε}

theorem Polls.taken_le_step (h : Polls step ticks period away taken queued)
    (hstep : step s e = some t) : taken s ≤ taken t := by
  cases htick : ticks e with
  | false => exact (h.other s e t hstep htick).2.1.ge
  | true =>
    cases haway : away s with
    | zero =>
      obtain ⟨-, htaken, -⟩ := h.poll s e t hstep htick haway
      omega
    | succ k => exact (h.between s e t k hstep htick haway).2.1.ge

theorem Polls.taken_le (h : Polls step ticks period away taken queued)
    (hrun : run step s es = some t) : taken s ≤ taken t := by
  induction es generalizing s with
  | nil =>
    obtain rfl := Option.some.inj hrun
    exact Nat.le_refl _
  | cons e es ih =>
    obtain ⟨u, hu, hrest⟩ := run_cons_eq_some.mp hrun
    exact (h.taken_le_step hu).trans (ih hrest)

/-- In so many events of the thread that it comes to the queue `k + 1` times, it takes the first
`k + 1` entries, or all. -/
theorem Polls.taken_run (h : Polls step ticks period away taken queued)
    (hrun : run step s es = some t) (k : ℕ) (hticks : away s + period * k < es.countP ticks) :
    taken s + min (k + 1) (queued s) ≤ taken t := by
  induction es generalizing s k with
  | nil => exact absurd hticks (Nat.not_lt_zero _)
  | cons e es ih =>
    obtain ⟨u, hu, hrest⟩ := run_cons_eq_some.mp hrun
    cases htick : ticks e with
    | false =>
      rw [List.countP_cons_of_neg (by rw [htick]; exact Bool.false_ne_true)] at hticks
      obtain ⟨haway, htaken, hqueued⟩ := h.other s e u hu htick
      have hle := ih hrest k (by rw [haway]; exact hticks)
      omega
    | true =>
      rw [List.countP_cons_of_pos htick] at hticks
      cases haway : away s with
      | zero =>
        obtain ⟨hperiod, htaken, hqueued⟩ := h.poll s e u hu htick haway
        cases k with
        | zero =>
          have hle := h.taken_le hrest
          omega
        | succ k =>
          -- The next visit is a period away, with one entry fewer to take.
          rw [Nat.mul_succ] at hticks
          have hle := ih hrest k (by omega)
          omega
      | succ j =>
        obtain ⟨haway', htaken, hqueued⟩ := h.between s e u j hu htick haway
        have hle := ih hrest k (by omega)
        omega

/-- A round for each entry in front is enough from wherever the thread is. -/
theorem Polls.taken_rounds (h : Polls step ticks period away taken queued)
    (haway : away s < period) (hrun : run step s es = some t) (n : ℕ)
    (hticks : period * n ≤ es.countP ticks) : taken s + min n (queued s) ≤ taken t := by
  cases n with
  | zero =>
    have hle := h.taken_le hrun
    omega
  | succ k =>
    rw [Nat.mul_succ] at hticks
    exact h.taken_run hrun k (by omega)

end Rounds
