import Mathlib.Data.List.Basic
import Mathlib.Logic.Relation

/-! An outbox: entries are put into a queue and taken out of it one at a time, and any number of
calls is made for the entry that was taken last.  The calls go through the entries in the order in
which these were put in, and never back to an earlier one. -/

/-- `put` are the entries put in so far, `queue` those not yet taken, `current` the one taken last,
and `calls` the entries that calls were made for. -/
structure Outbox (α : Type*) where
  put : List α := []
  queue : List α := []
  current : Option α := none
  calls : List α := []

namespace Outbox

open Relation

variable {α : Type*} {b c : Outbox α} {taken : List α} {positions : List ℕ} {x : α}

inductive Move : Outbox α → Outbox α → Prop
  | put (b : Outbox α) (x : α) : Move b { b with put := b.put ++ [x], queue := b.queue ++ [x] }
  | take (b : Outbox α) (x : α) (rest : List α) (h : b.queue = x :: rest) :
      Move b { b with queue := rest, current := some x }
  | call (b : Outbox α) (x : α) (h : b.current = some x) :
      Move b { b with calls := b.calls ++ [x] }

/-- The entries taken so far, and the position among them of the entry of each call. -/
structure History (b : Outbox α) (taken : List α) (positions : List ℕ) : Prop where
  put : b.put = taken ++ b.queue
  current : b.current = taken.getLast?
  sorted : positions.Pairwise (· ≤ ·)
  calls : b.calls.map some = positions.map (taken[·]?)

/-- The entries are taken in the order in which they were put in, and the calls go through them in
this order. -/
def InOrder (b : Outbox α) : Prop := ∃ taken positions, b.History taken positions

theorem inOrder_empty : ({} : Outbox α).InOrder := ⟨[], [], rfl, rfl, List.Pairwise.nil, rfl⟩

/-- Each call was made for an entry that was taken. -/
theorem History.lt_length (h : b.History taken positions) : ∀ i ∈ positions, i < taken.length := by
  intro i hi
  have hmem : taken[i]? ∈ b.calls.map some := by
    rw [h.calls]
    exact List.mem_map_of_mem hi
  obtain ⟨x, -, hx⟩ := List.mem_map.mp hmem
  exact (List.getElem?_eq_some_iff.mp hx.symm).1

/-- A call is for an entry that was put in. -/
theorem InOrder.mem_put (h : b.InOrder) (hx : x ∈ b.calls) : x ∈ b.put := by
  obtain ⟨taken, positions, hb⟩ := h
  have hmem : some x ∈ positions.map (taken[·]?) := by
    rw [← hb.calls]
    exact List.mem_map_of_mem hx
  obtain ⟨i, -, hi⟩ := List.mem_map.mp hmem
  rw [hb.put]
  exact List.mem_append_left _ (List.mem_of_getElem? hi)

theorem History.take (h : b.History taken positions) {rest : List α}
    (hqueue : b.queue = x :: rest) :
    ({ b with queue := rest, current := some x } : Outbox α).History (taken ++ [x]) positions := by
  have hlength := h.lt_length
  refine ⟨?_, ?_, h.sorted, ?_⟩
  · rw [h.put, hqueue, List.append_assoc]
    rfl
  · rw [List.getLast?_append_cons]
    rfl
  · rw [h.calls]
    apply List.map_congr_left
    intro i hi
    exact (List.getElem?_append_left (hlength i hi)).symm

theorem History.call (h : b.History taken positions) (hcurrent : b.current = some x) :
    ({ b with calls := b.calls ++ [x] } : Outbox α).History taken
      (positions ++ [taken.length - 1]) := by
  have hlength := h.lt_length
  have hlast : taken[taken.length - 1]? = some x := by
    rw [← List.getLast?_eq_getElem?, ← h.current, hcurrent]
  refine ⟨h.put, h.current, ?_, ?_⟩
  · rw [List.pairwise_append]
    refine ⟨h.sorted, List.pairwise_singleton _ _, fun i hi j hj => ?_⟩
    have hlt := hlength i hi
    rw [List.mem_singleton] at hj
    omega
  · rw [List.map_append, List.map_append, h.calls, List.map_singleton, List.map_singleton, hlast]

theorem InOrder.move (hb : b.InOrder) (h : Move b c) : c.InOrder := by
  obtain ⟨taken, positions, hb⟩ := hb
  cases h with
  | put x =>
    refine ⟨taken, positions, ?_, hb.current, hb.sorted, hb.calls⟩
    rw [hb.put, List.append_assoc]
  | take x rest hqueue => exact ⟨_, _, hb.take hqueue⟩
  | call x hcurrent => exact ⟨_, _, hb.call hcurrent⟩

theorem inOrder_of_moves (h : ReflTransGen Move {} b) : b.InOrder := by
  induction h with
  | refl => exact inOrder_empty
  | tail _ hmove ih => exact ih.move hmove

/-- An outbox that nothing was put into is as it was at the start. -/
theorem InOrder.eq_empty (h : b.InOrder) (hput : b.put = []) : b = {} := by
  obtain ⟨put, queue, current, calls⟩ := b
  obtain ⟨taken, positions, hb⟩ := h
  obtain rfl : put = [] := hput
  obtain ⟨rfl, rfl⟩ := List.append_eq_nil_iff.mp hb.put.symm
  obtain rfl : current = none := hb.current
  have hpositions : positions = [] :=
    List.eq_nil_iff_forall_not_mem.mpr fun i hi => Nat.not_lt_zero i (hb.lt_length i hi)
  have hcalls := hb.calls
  rw [hpositions] at hcalls
  obtain rfl : calls = [] := List.map_eq_nil_iff.mp hcalls
  rfl

end Outbox
