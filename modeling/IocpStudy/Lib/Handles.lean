import Mathlib.Data.List.Nodup
import Mathlib.Logic.Function.Basic

/-! Handles that are opened one after the other, kept by holders, and closed.  A handle that is
closed twice, or that neither a holder at work has nor has been closed, is an error of whoever
manages them. -/

/-- The number of handles opened, those closed in the order of the calls, and what each holder
has. -/
structure Handles (ι : Type*) where
  opened : ℕ := 0
  closed : List ℕ := []
  held : ι → Option ℕ := fun _ => none

namespace Handles

variable {ι : Type*} {v : Handles ι} {busy busy' : ι → Prop} {i : ι} {x : ℕ}

/-- Every holder has an open handle of its own, and only handles that were opened are closed. -/
structure Tracked (v : Handles ι) : Prop where
  isOpen : ∀ i x, v.held i = some x → x < v.opened ∧ x ∉ v.closed
  apart : ∀ i j x, v.held i = some x → v.held j = some x → i = j
  closed : ∀ x ∈ v.closed, x < v.opened

/-- No handle is closed twice, and one that no `busy` holder has is closed. -/
structure ClosedOnce (v : Handles ι) (busy : ι → Prop) : Prop where
  once : v.closed.Nodup
  accounted : ∀ x < v.opened, x ∈ v.closed ∨ ∃ i, busy i ∧ v.held i = some x

/-- A handle is opened and closed at once. -/
def refuse (v : Handles ι) : Handles ι :=
  { v with opened := v.opened + 1, closed := v.closed ++ [v.opened] }

/-- A handle is opened and goes to nobody. -/
def lose (v : Handles ι) : Handles ι := { v with opened := v.opened + 1 }

section

variable [DecidableEq ι]

/-- A holder gets the next handle, in place of what it had. -/
def keep (v : Handles ι) (i : ι) : Handles ι :=
  { v with opened := v.opened + 1, held := Function.update v.held i (some v.opened) }

/-- What a holder has is closed. -/
def close (v : Handles ι) (i : ι) : Handles ι :=
  { v with closed := v.closed ++ (v.held i).toList, held := Function.update v.held i none }

@[simp] theorem keep_held_self : (v.keep i).held i = some v.opened := Function.update_self ..

theorem keep_held_of_ne {j : ι} (h : j ≠ i) : (v.keep i).held j = v.held j :=
  Function.update_of_ne h _ _

theorem close_held_of_ne {j : ι} (h : j ≠ i) : (v.close i).held j = v.held j :=
  Function.update_of_ne h _ _

@[simp] theorem close_held_self : (v.close i).held i = none := Function.update_self ..

end

theorem tracked_empty : ({} : Handles ι).Tracked :=
  ⟨fun _ _ h => (Option.some_ne_none _ h.symm).elim,
    fun _ _ _ h => (Option.some_ne_none _ h.symm).elim,
    fun _ h => (List.not_mem_nil h).elim⟩

theorem closedOnce_empty : ({} : Handles ι).ClosedOnce busy :=
  ⟨List.nodup_nil, fun _ h => (Nat.not_lt_zero _ h).elim⟩

theorem Tracked.opened_not_mem (hv : v.Tracked) : v.opened ∉ v.closed :=
  fun h => Nat.lt_irrefl _ (hv.closed _ h)

/-- A holder that has a handle is busy, where each handle is closed or with a busy holder. -/
theorem ClosedOnce.busy_of_held (hv : v.Tracked) (hc : v.ClosedOnce busy)
    (hi : v.held i = some x) : busy i := by
  obtain ⟨hlt, hopen⟩ := hv.isOpen i x hi
  obtain ⟨j, hbusy, hj⟩ := (hc.accounted x hlt).resolve_left hopen
  rwa [hv.apart i j x hi hj]

/-- Where the holders that are at work change, each holder that has a handle has to be one. -/
theorem ClosedOnce.congr_iff (hv : v.Tracked) (hc : v.ClosedOnce busy) :
    v.ClosedOnce busy' ↔ ∀ i, v.held i ≠ none → busy' i := by
  constructor
  · intro h i hi
    obtain ⟨x, hx⟩ := Option.ne_none_iff_exists'.mp hi
    exact h.busy_of_held hv hx
  · intro h
    refine ⟨hc.once, fun x hx => ?_⟩
    rcases hc.accounted x hx with hclosed | ⟨i, -, hi⟩
    · exact Or.inl hclosed
    · exact Or.inr ⟨i, h i (by rw [hi]; exact Option.some_ne_none x), hi⟩

theorem Tracked.refuse (hv : v.Tracked) : v.refuse.Tracked := by
  refine ⟨fun i x hi => ?_, hv.apart, fun x hx => ?_⟩
  · obtain ⟨hlt, hopen⟩ := hv.isOpen i x hi
    refine ⟨Nat.lt_succ_of_lt hlt, fun hx => ?_⟩
    rcases List.mem_append.mp hx with hx | hx
    · exact hopen hx
    · exact Nat.ne_of_lt hlt (List.mem_singleton.mp hx)
  · rcases List.mem_append.mp hx with hx | hx
    · exact Nat.lt_succ_of_lt (hv.closed x hx)
    · rw [List.mem_singleton.mp hx]
      exact Nat.lt_succ_self _

theorem ClosedOnce.refuse (hv : v.Tracked) (hc : v.ClosedOnce busy) :
    v.refuse.ClosedOnce busy := by
  refine ⟨?_, fun x hx => ?_⟩
  · exact hc.once.append (List.nodup_singleton _)
      (List.disjoint_singleton.mpr hv.opened_not_mem)
  · rcases Nat.lt_succ_iff_lt_or_eq.mp hx with hx | rfl
    · exact (hc.accounted x hx).imp_left (List.mem_append_left _)
    · exact Or.inl (List.mem_append_right _ (List.mem_singleton_self _))

theorem Tracked.lose (hv : v.Tracked) : v.lose.Tracked := by
  refine ⟨fun i x hi => ?_, hv.apart, fun x hx => Nat.lt_succ_of_lt (hv.closed x hx)⟩
  obtain ⟨hlt, hopen⟩ := hv.isOpen i x hi
  exact ⟨Nat.lt_succ_of_lt hlt, hopen⟩

theorem Tracked.not_closedOnce_lose (hv : v.Tracked) : ¬v.lose.ClosedOnce busy := by
  intro hc
  obtain ⟨i, -, hi⟩ :=
    (hc.accounted v.opened (Nat.lt_succ_self _)).resolve_left hv.opened_not_mem
  exact Nat.lt_irrefl _ (hv.isOpen i _ hi).1

variable [DecidableEq ι]

theorem Tracked.keep (hv : v.Tracked) : (v.keep i).Tracked := by
  refine ⟨fun j x hj => ?_, fun j k x hj hk => ?_, fun x hx => Nat.lt_succ_of_lt (hv.closed x hx)⟩
  · simp only [Handles.keep, Function.update_apply] at hj ⊢
    split_ifs at hj with hji
    · obtain rfl := Option.some.inj hj
      exact ⟨Nat.lt_succ_self _, hv.opened_not_mem⟩
    · obtain ⟨hlt, hopen⟩ := hv.isOpen j x hj
      exact ⟨Nat.lt_succ_of_lt hlt, hopen⟩
  · simp only [Handles.keep, Function.update_apply] at hj hk
    split_ifs at hj hk with hji hki hki
    · rw [hji, hki]
    · obtain rfl := Option.some.inj hj
      exact absurd (hv.isOpen k _ hk).1 (Nat.lt_irrefl _)
    · obtain rfl := Option.some.inj hk
      exact absurd (hv.isOpen j _ hj).1 (Nat.lt_irrefl _)
    · exact hv.apart j k x hj hk

theorem ClosedOnce.keep (hc : v.ClosedOnce busy) (hfree : v.held i = none)
    (hothers : ∀ j, busy j → busy' j) (hbusy : busy' i) : (v.keep i).ClosedOnce busy' := by
  refine ⟨hc.once, fun x hx => ?_⟩
  rcases Nat.lt_succ_iff_lt_or_eq.mp hx with hx | rfl
  · refine (hc.accounted x hx).imp_right ?_
    rintro ⟨j, hj, hheld⟩
    have hji : j ≠ i := by
      rintro rfl
      rw [hfree] at hheld
      exact Option.some_ne_none x hheld.symm
    exact ⟨j, hothers j hj, (keep_held_of_ne hji).trans hheld⟩
  · exact Or.inr ⟨i, hbusy, keep_held_self⟩

/-- What the holder had is lost where it gets another one in its place. -/
theorem Tracked.not_closedOnce_keep (hv : v.Tracked) (hi : v.held i = some x) :
    ¬(v.keep i).ClosedOnce busy := by
  intro hc
  obtain ⟨hlt, hopen⟩ := hv.isOpen i x hi
  obtain ⟨j, -, hj⟩ := (hc.accounted x (Nat.lt_succ_of_lt hlt)).resolve_left hopen
  by_cases hji : j = i
  · rw [hji, keep_held_self] at hj
    exact Nat.ne_of_gt hlt (Option.some.inj hj)
  · rw [keep_held_of_ne hji] at hj
    exact hji (hv.apart j i x hj hi)

/-- What a holder has is closed for the first time. -/
theorem Tracked.nodup_close (hv : v.Tracked) (hclosed : v.closed.Nodup) :
    (v.close i).closed.Nodup := by
  have hone : (v.held i).toList.Nodup := by
    cases v.held i <;> simp
  exact hclosed.append hone fun x hx hi => (hv.isOpen i x (Option.mem_toList.mp hi)).2 hx

theorem Tracked.close (hv : v.Tracked) : (v.close i).Tracked := by
  have hheld : ∀ j x, (v.close i).held j = some x → j ≠ i ∧ v.held j = some x := by
    intro j x hj
    simp only [Handles.close, Function.update_apply] at hj
    split_ifs at hj with hji
    exact ⟨hji, hj⟩
  refine ⟨fun j x hj => ?_, fun j k x hj hk => ?_, fun x hx => ?_⟩
  · obtain ⟨hji, hj⟩ := hheld j x hj
    obtain ⟨hlt, hopen⟩ := hv.isOpen j x hj
    refine ⟨hlt, fun hx => ?_⟩
    rcases List.mem_append.mp hx with hx | hx
    · exact hopen hx
    · exact hji (hv.apart j i x hj (Option.mem_toList.mp hx))
  · exact hv.apart j k x (hheld j x hj).2 (hheld k x hk).2
  · rcases List.mem_append.mp hx with hx | hx
    · exact hv.closed x hx
    · exact (hv.isOpen i x (Option.mem_toList.mp hx)).1

theorem ClosedOnce.close (hv : v.Tracked) (hc : v.ClosedOnce busy)
    (hothers : ∀ j, j ≠ i → busy j → busy' j) : (v.close i).ClosedOnce busy' := by
  refine ⟨?_, fun x hx => ?_⟩
  · have hone : (v.held i).toList.Nodup := by
      cases v.held i <;> simp
    exact hc.once.append hone fun x hx hi => (hv.isOpen i x (Option.mem_toList.mp hi)).2 hx
  · rcases hc.accounted x hx with hclosed | ⟨j, hj, hheld⟩
    · exact Or.inl (List.mem_append_left _ hclosed)
    · by_cases hji : j = i
      · rw [hji] at hheld
        exact Or.inl (List.mem_append_right _ (Option.mem_toList.mpr hheld))
      · exact Or.inr ⟨j, hothers j hji hj, (close_held_of_ne hji).trans hheld⟩

end Handles
