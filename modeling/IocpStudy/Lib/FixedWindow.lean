import Mathlib.Order.Nat

/-! Times that a fixed-window limiter admits.  The limiter counts what it admits since it last
opened a window, up to a bound, and opens the next one, with an event that it does not count, when
`width` has passed.  `Admitted` is the log of such a limiter, and a half-open interval as wide as a
window meets no more than two of its windows. -/

namespace FixedWindow

/-- The number of the times that lie in `[start, start + width)`. -/
def countIn (width start : ℕ) (times : List ℕ) : ℕ :=
  times.countP fun t => start ≤ t ∧ t < start + width

/-- No half-open interval of `width` holds more than `limit` of the times. -/
def Limited (width limit : ℕ) (times : List ℕ) : Prop :=
  ∀ start, countIn width start times ≤ limit

/-- `times` is what a limiter has admitted that counts up to `bound` in a window.  It opened the
window it is in at `opened`, and has counted `k` since. -/
inductive Admitted (width bound : ℕ) : List ℕ → ℕ → ℕ → Prop
  | start (opened : ℕ) : Admitted width bound [] opened 0
  | counted {times : List ℕ} {opened k now : ℕ} (h : Admitted width bound times opened k)
      (hk : k < bound) (hnow : opened ≤ now) : Admitted width bound (times ++ [now]) opened (k + 1)
  | opening {times : List ℕ} {opened k now opened' : ℕ} (h : Admitted width bound times opened k)
      (hlater : ∀ t ∈ times, t ≤ now) (hwide : opened + width ≤ now) (hnow : now ≤ opened') :
      Admitted width bound (times ++ [now]) opened' 0

variable {width bound limit start now opened k : ℕ} {times others : List ℕ}

theorem countIn_append :
    countIn width start (times ++ others) =
      countIn width start times + countIn width start others :=
  List.countP_append

theorem countIn_le_length : countIn width start times ≤ times.length := List.countP_le_length

theorem countIn_eq_zero (h : ∀ t ∈ times, t < start) : countIn width start times = 0 := by
  rw [countIn, List.countP_eq_zero]
  intro t ht hin
  have hlt := h t ht
  have hge : start ≤ t := (of_decide_eq_true hin).1
  omega

/-- A new time only has to be looked at in the intervals that hold it. -/
theorem Limited.concat (h : Limited width limit times)
    (hnew : ∀ start, start ≤ now → now < start + width →
      countIn width start (times ++ [now]) ≤ limit) :
    Limited width limit (times ++ [now]) := by
  intro start
  by_cases hin : start ≤ now ∧ now < start + width
  · exact hnew start hin.1 hin.2
  · have hout : countIn width start [now] = 0 := by
      rw [countIn, List.countP_singleton, if_neg (by simpa using hin)]
    rw [countIn_append, hout]
    exact h start

/-- The log split at the openings of its last two windows: what was admitted up to the first of
them, the counted of the window that it opened, the event that opened the last window, and the
counted of the last one. -/
structure Split (width bound opened k : ℕ) (older previous opening current : List ℕ) : Prop where
  previous_le : previous.length ≤ bound
  opening_le : opening.length ≤ 1
  current_eq : current.length = k
  le_bound : k ≤ bound
  older_le : ∀ t ∈ older, t + width ≤ opened
  le_opened : ∀ t ∈ older ++ previous ++ opening, t ≤ opened

theorem Admitted.split (h : Admitted width bound times opened k) :
    ∃ older previous opening current, times = older ++ previous ++ opening ++ current ∧
      Split width bound opened k older previous opening current := by
  induction h with
  | start opened =>
    refine ⟨[], [], [], [], rfl, Nat.zero_le _, Nat.zero_le _, rfl, Nat.zero_le _, ?_, ?_⟩ <;>
      intro t ht <;> cases ht
  | @counted times opened k now h hk hnow ih =>
    obtain ⟨older, previous, opening, current, rfl, hsplit⟩ := ih
    refine ⟨older, previous, opening, current ++ [now], ?_,
      { hsplit with current_eq := ?_, le_bound := hk }⟩
    · rw [List.append_assoc _ current]
    · rw [List.length_append, hsplit.current_eq, List.length_singleton]
  | @opening times opened k now opened' h hlater hwide hnow ih =>
    obtain ⟨older, previous, opening, current, rfl, hsplit⟩ := ih
    refine ⟨older ++ previous ++ opening, current, [now], [], ?_, ?_, Nat.le_refl _, rfl,
      Nat.zero_le _, ?_, ?_⟩
    · rw [List.append_nil]
    · rw [hsplit.current_eq]
      exact hsplit.le_bound
    · intro t ht
      have := hsplit.le_opened t ht
      omega
    · intro t ht
      rcases List.mem_append.mp ht with hold | hlast
      · exact (hlater t hold).trans hnow
      · rw [List.mem_singleton.mp hlast]
        exact hnow

section
variable {older previous opening current : List ℕ}

/-- The intervals that reach beyond the last opening hold at most the window before it, the event
that opened the last one, and what that has counted. -/
theorem Split.countIn_le (h : Split width bound opened k older previous opening current)
    (hstart : opened < start + width) :
    countIn width start (older ++ previous ++ opening ++ current) ≤ bound + 1 + k := by
  have hout : countIn width start older = 0 := by
    apply countIn_eq_zero
    intro t ht
    have := h.older_le t ht
    omega
  have hprevious : countIn width start previous ≤ bound := countIn_le_length.trans h.previous_le
  have hopening : countIn width start opening ≤ 1 := countIn_le_length.trans h.opening_le
  have hcurrent : countIn width start current ≤ k := countIn_le_length.trans_eq h.current_eq
  rw [countIn_append, countIn_append, countIn_append]
  omega

/-- The intervals that start after the last opening hold only what was counted since. -/
theorem Split.countIn_le_of_lt (h : Split width bound opened k older previous opening current)
    (hstart : opened < start) :
    countIn width start (older ++ previous ++ opening ++ current) ≤ k := by
  have hout : countIn width start (older ++ previous ++ opening) = 0 := by
    apply countIn_eq_zero
    intro t ht
    exact (h.le_opened t ht).trans_lt hstart
  have hcurrent : countIn width start current ≤ k := countIn_le_length.trans_eq h.current_eq
  rw [countIn_append, hout]
  omega

end

/-- A limiter that counts up to `bound` in a window admits no more than `2 * bound + 1` in any
half-open interval of the window's width. -/
theorem Admitted.limited (h : Admitted width bound times opened k) :
    Limited width (2 * bound + 1) times := by
  induction h with
  | start opened => exact fun start => Nat.zero_le _
  | @counted times opened k now h hk hnow ih =>
    refine ih.concat fun start _ hlt => ?_
    obtain ⟨older, previous, opening, current, htimes, hsplit⟩ := (h.counted hk hnow).split
    rw [htimes]
    have hreach : opened < start + width := by omega
    have hle := hsplit.countIn_le hreach
    omega
  | @opening times opened k now opened' h hlater hwide hnow ih =>
    refine ih.concat fun start _ hlt => ?_
    obtain ⟨older, previous, opening, current, rfl, hsplit⟩ := h.split
    have hafter : opened < start := by omega
    have hold := hsplit.countIn_le_of_lt hafter
    have hk := hsplit.le_bound
    have hone : countIn width start [now] ≤ 1 := countIn_le_length
    rw [countIn_append]
    omega

end FixedWindow
