import Mathlib.Logic.Function.Basic

/-! An index of keys over slots: `index` gives the slot under a key and `held` the key that a slot
holds.  The two are inverse to each other when each says what the other does.  For each way to
change them together, what keeps them inverse is stated as the exact condition on the state
before. -/

namespace KeyIndex

variable {κ ι : Type*}

/-- The index finds a slot under a key exactly where the slot holds the key. -/
def Inverse (index : κ → Option ι) (held : ι → Option κ) : Prop :=
  ∀ k i, index k = some i ↔ held i = some k

variable {index : κ → Option ι} {held : ι → Option κ} {k k' : κ} {i j : ι}

/-- No key is held by two slots. -/
theorem Inverse.slot_unique (h : Inverse index held) (hi : held i = some k)
    (hj : held j = some k) : i = j :=
  Option.some.inj (((h k i).mpr hi).symm.trans ((h k j).mpr hj))

theorem Inverse.held_eq_none (h : Inverse index held) (hk : index k = none) : held i ≠ some k := by
  intro hi
  rw [(h k i).mpr hi] at hk
  cases hk

theorem Inverse.index_eq_none (h : Inverse index held) (hi : held i = none) :
    index k ≠ some i := by
  intro hk
  rw [(h k i).mp hk] at hi
  cases hi

variable [DecidableEq ι]

/-- A slot is cleared past the index. -/
theorem Inverse.clear_iff (h : Inverse index held) (i : ι) :
    Inverse index (Function.update held i none) ↔ held i = none := by
  constructor
  · intro ht
    cases hi : held i with
    | none => rfl
    | some k =>
      have hheld := (ht k i).mp ((h k i).mpr hi)
      rw [Function.update_self] at hheld
      cases hheld
  · intro hi
    rw [← hi, Function.update_eq_self]
    exact h

variable [DecidableEq κ]

/-- A slot takes a key, under which the index keeps the slot that it has. -/
theorem Inverse.take_iff (h : Inverse index held) (k : κ) (i : ι) :
    Inverse (Function.update index k (some ((index k).getD i)))
        (Function.update held i (some k)) ↔
      held i = some k ∨ (held i = none ∧ index k = none) := by
  constructor
  · intro ht
    have hki : some ((index k).getD i) = some i := by
      have := (ht k i).mpr (Function.update_self i (some k) held)
      rwa [Function.update_self] at this
    cases hi : held i with
    | none =>
      refine Or.inr ⟨rfl, ?_⟩
      cases hk : index k with
      | none => rfl
      | some j =>
        -- The slot that the index keeps is this one, which held nothing.
        rw [hk] at hki
        exact absurd (hk.trans hki) (h.index_eq_none hi)
    | some k' =>
      left
      by_contra hne
      have hk' : index k' = some i := (h k' i).mpr hi
      have hkept : Function.update index k (some ((index k).getD i)) k' = some i := by
        rw [Function.update_of_ne (fun heq => hne (congrArg some heq)), hk']
      have hheld := (ht k' i).mp hkept
      rw [Function.update_self] at hheld
      exact hne hheld.symm
  · rintro (hi | ⟨hi, hk⟩)
    · have hk := (h k i).mpr hi
      rw [hk, Option.getD_some, ← hk, Function.update_eq_self, ← hi, Function.update_eq_self]
      exact h
    · intro k' j
      rw [hk, Option.getD_none]
      by_cases hk' : k' = k
      · subst hk'
        by_cases hj : j = i
        · subst hj
          simp
        · have hnot := h.held_eq_none (i := j) hk
          simp [hj, hnot, Ne.symm hj]
      · by_cases hj : j = i
        · subst hj
          have hnot := h.index_eq_none (k := k') hi
          simp [hk', hnot, Ne.symm hk']
        · simp [hk', hj, h k' j]

/-- A slot is cleared and a key erased. -/
theorem Inverse.release_iff (h : Inverse index held) (k : κ) (i : ι) :
    Inverse (Function.update index k none) (Function.update held i none) ↔
      held i = some k ∨ (held i = none ∧ index k = none) := by
  constructor
  · intro ht
    cases hi : held i with
    | none =>
      refine Or.inr ⟨rfl, ?_⟩
      cases hk : index k with
      | none => rfl
      | some j =>
        have hne : j ≠ i := by
          rintro rfl
          exact h.index_eq_none hi hk
        have hheld : Function.update held i none j = some k := by
          rw [Function.update_of_ne hne]
          exact (h k j).mp hk
        have hgone := (ht k j).mpr hheld
        rw [Function.update_self] at hgone
        cases hgone
    | some k' =>
      left
      by_contra hne
      have hkept : Function.update index k none k' = some i := by
        rw [Function.update_of_ne (fun heq => hne (congrArg some heq))]
        exact (h k' i).mpr hi
      have hheld := (ht k' i).mp hkept
      rw [Function.update_self] at hheld
      cases hheld
  · rintro hcases k' j
    by_cases hk' : k' = k
    · subst hk'
      rw [Function.update_self]
      refine iff_of_false nofun fun hj => ?_
      by_cases hji : j = i
      · subst hji
        simp at hj
      · rw [Function.update_of_ne hji] at hj
        rcases hcases with hi | ⟨-, hk⟩
        · exact hji (h.slot_unique hj hi)
        · exact h.held_eq_none hk hj
    · rw [Function.update_of_ne hk', h k' j]
      by_cases hji : j = i
      · subst hji
        rw [Function.update_self]
        refine iff_of_false (fun hj => ?_) nofun
        rcases hcases with hi | ⟨hi, -⟩
        · exact hk' (Option.some.inj (hj.symm.trans hi))
        · rw [hi] at hj
          cases hj
      · rw [Function.update_of_ne hji]

end KeyIndex
