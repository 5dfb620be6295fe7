import Mathlib.Data.List.Basic

/-! A first-in-first-out queue of items with a capacity, as the list of the items in it.  An
operation is accepted or refused, and a refused one leaves the queue as it is. -/

namespace BoundedFifo

variable {α : Type*}

/-- `push` puts items in behind the others, `offer` does so only where the user of the queue accepts
them, `take` hands out the first `n`, `drop` takes them out without handing them out, `clear`
empties the queue, and `keep` leaves it as it is. -/
inductive Operation (α : Type*)
  | push (items : List α)
  | offer (items : List α) (accepted : Bool)
  | take (n : ℕ)
  | drop (n : ℕ)
  | clear
  | keep

/-- The queue after an operation, and the items handed out, or `none` where it is refused. -/
def apply (capacity : ℕ) (queue : List α) : Operation α → List α × Option (List α)
  | .push items =>
    if queue.length + items.length ≤ capacity then (queue ++ items, some []) else (queue, none)
  | .offer items accepted => if accepted then (queue ++ items, some []) else (queue, none)
  | .take n => if n ≤ queue.length then (queue.drop n, some (queue.take n)) else (queue, none)
  | .drop n => if n ≤ queue.length then (queue.drop n, some []) else (queue, none)
  | .clear => ([], some [])
  | .keep => (queue, some [])

variable {capacity n : ℕ} {queue items : List α} {op : Operation α}

theorem push_of_le (h : queue.length + items.length ≤ capacity) :
    apply capacity queue (.push items) = (queue ++ items, some []) := if_pos h

theorem push_of_lt (h : capacity < queue.length + items.length) :
    apply capacity queue (.push items) = (queue, none) := if_neg (Nat.not_le.mpr h)

theorem take_of_le (h : n ≤ queue.length) :
    apply capacity queue (.take n) = (queue.drop n, some (queue.take n)) := if_pos h

theorem take_of_lt (h : queue.length < n) :
    apply capacity queue (.take n) = (queue, none) := if_neg (Nat.not_le.mpr h)

theorem drop_of_le (h : n ≤ queue.length) :
    apply capacity queue (.drop n) = (queue.drop n, some []) := if_pos h

theorem drop_of_lt (h : queue.length < n) :
    apply capacity queue (.drop n) = (queue, none) := if_neg (Nat.not_le.mpr h)

theorem length_le_push : queue.length ≤ (apply capacity queue (.push items)).1.length := by
  by_cases h : queue.length + items.length ≤ capacity
  · rw [push_of_le h, List.length_append]
    exact Nat.le_add_right _ _
  · exact Nat.le_of_eq (by rw [push_of_lt (Nat.not_le.mp h)])

end BoundedFifo
