import Mathlib.Data.List.Nodup

/-! A table of objects that know their own positions, beside a list of objects that are free to be
used again.  An object that is freed keeps its place in the table. -/

namespace Slots

variable {α : Type*}

/-- No object is in the table twice, an object in use is at the position that it has as its index,
and the free objects are distinct and not in use. -/
structure Consistent (slots : List (Option α)) (free : List α) (inUse : α → Prop) (index : α → ℕ) :
    Prop where
  single : ∀ (i j : ℕ) (x : α), slots[i]? = some (some x) → slots[j]? = some (some x) → i = j
  indexed : ∀ x, some x ∈ slots ∨ x ∈ free → inUse x → slots[index x]? = some (some x)
  nodup : free.Nodup
  idle : ∀ x ∈ free, ¬inUse x

variable {slots : List (Option α)} {free free' rest : List α} {inUse inUse' : α → Prop}
  {index index' : α → ℕ} {x : α}

theorem consistent_nil : Consistent ([] : List (Option α)) [] inUse index :=
  ⟨by simp, by simp, List.nodup_nil, by simp⟩

theorem Consistent.congr (h : Consistent slots free inUse index)
    (hsame : ∀ y, some y ∈ slots ∨ y ∈ free →
      (inUse' y ↔ inUse y) ∧ (inUse y → index' y = index y)) :
    Consistent slots free inUse' index' := by
  refine ⟨h.single, fun y hy huse => ?_, h.nodup, fun y hy huse => ?_⟩
  · obtain ⟨hiff, hindex⟩ := hsame y hy
    have huse := hiff.mp huse
    rw [hindex huse]
    exact h.indexed y hy huse
  · exact h.idle y hy ((hsame y (Or.inr hy)).1.mp huse)

theorem Consistent.perm (h : Consistent slots free inUse index) (hperm : free'.Perm free) :
    Consistent slots free' inUse index :=
  ⟨h.single, fun y hy => h.indexed y (hy.imp_right hperm.mem_iff.mp), hperm.nodup_iff.mpr h.nodup,
    fun y hy => h.idle y (hperm.mem_iff.mp hy)⟩

theorem getElem?_append_slot (i : ℕ) (y : α) :
    (slots ++ [some x])[i]? = some (some y) ↔
      slots[i]? = some (some y) ∨ i = slots.length ∧ y = x := by
  rcases Nat.lt_trichotomy i slots.length with hi | rfl | hi
  · rw [List.getElem?_append_left hi]
    constructor
    · exact Or.inl
    · rintro (h | ⟨rfl, -⟩)
      · exact h
      · exact absurd hi (Nat.lt_irrefl _)
  · simp [eq_comm]
  · rw [List.getElem?_eq_none (by simp; omega), List.getElem?_eq_none (Nat.le_of_lt hi)]
    simp
    omega

/-- An object that is in neither list is put at the end of the table: it has to get the index of
that position. -/
theorem Consistent.append_iff (h : Consistent slots free inUse index) (hslots : some x ∉ slots)
    (hfree : x ∉ free) (huse : inUse' x)
    (hothers : ∀ y, y ≠ x → (inUse' y ↔ inUse y) ∧ index' y = index y) :
    Consistent (slots ++ [some x]) free inUse' index' ↔ index' x = slots.length := by
  constructor
  · intro h'
    rcases (getElem?_append_slot _ _).mp (h'.indexed x (Or.inl (by simp)) huse) with hold | hnew
    · exact absurd (List.mem_of_getElem? hold) hslots
    · exact hnew.1
  · intro hx
    refine ⟨fun i j y hi hj => ?_, fun y hy hyuse => ?_, h.nodup, fun y hy hyuse => ?_⟩
    · rcases (getElem?_append_slot i y).mp hi with hi | ⟨rfl, rfl⟩ <;>
        rcases (getElem?_append_slot j _).mp hj with hj | ⟨rfl, hyx⟩
      · exact h.single i j y hi hj
      · exact absurd (List.mem_of_getElem? (hyx ▸ hi)) hslots
      · exact absurd (List.mem_of_getElem? hj) hslots
      · rfl
    · rw [getElem?_append_slot]
      by_cases hyx : y = x
      · rw [hyx]
        exact Or.inr ⟨hx, rfl⟩
      · obtain ⟨hiff, hindex⟩ := hothers y hyx
        rw [hindex]
        refine Or.inl (h.indexed y (hy.imp_left fun hy => ?_) (hiff.mp hyuse))
        simpa [hyx] using hy
    · have hyx : y ≠ x := fun hyx => hfree (hyx ▸ hy)
      exact h.idle y hy ((hothers y hyx).1.mp hyuse)

/-- An object that is in the table is not put in again. -/
theorem not_consistent_append (hx : some x ∈ slots) :
    ¬Consistent (slots ++ [some x]) free inUse index := by
  intro h
  obtain ⟨i, hi⟩ := List.mem_iff_getElem?.mp hx
  have hlt := (List.getElem?_eq_some_iff.mp hi).1
  have heq := h.single i slots.length x ((getElem?_append_slot i x).mpr (Or.inl hi))
    ((getElem?_append_slot _ x).mpr (Or.inr ⟨rfl, rfl⟩))
  omega

/-- An object of the table that is no longer in use is freed: it must not be free already. -/
theorem Consistent.release_iff (h : Consistent slots free inUse index) (hidle : ¬inUse' x)
    (hothers : ∀ y, y ≠ x → (inUse' y ↔ inUse y) ∧ index' y = index y) :
    Consistent slots (free ++ [x]) inUse' index' ↔ x ∉ free := by
  constructor
  · intro h' hx
    exact (List.nodup_append.mp h'.nodup).2.2 x hx x (List.mem_singleton_self x) rfl
  · intro hx
    refine ⟨h.single, fun y hy hyuse => ?_, ?_, fun y hy hyuse => ?_⟩
    · have hyx : y ≠ x := fun hyx => hidle (hyx ▸ hyuse)
      obtain ⟨hiff, hindex⟩ := hothers y hyx
      rw [hindex]
      refine h.indexed y (hy.imp_right fun hy => ?_) (hiff.mp hyuse)
      simpa [hyx] using hy
    · exact (List.perm_append_singleton x free).nodup_iff.mpr (List.nodup_cons.mpr ⟨hx, h.nodup⟩)
    · have hyx : y ≠ x := fun hyx => hidle (hyx ▸ hyuse)
      refine h.idle y ?_ ((hothers y hyx).1.mp hyuse)
      simpa [hyx] using hy

/-- A free object of the table is used again without a new position: it has to get the index of the
one it has. -/
theorem Consistent.take_iff (h : Consistent slots (x :: rest) inUse index) (hx : some x ∈ slots)
    (huse : inUse' x) (hothers : ∀ y, y ≠ x → (inUse' y ↔ inUse y) ∧ index' y = index y) :
    Consistent slots rest inUse' index' ↔ slots[index' x]? = some (some x) := by
  obtain ⟨hxrest, hnodup⟩ := List.nodup_cons.mp h.nodup
  constructor
  · exact fun h' => h'.indexed x (Or.inl hx) huse
  · intro hindexed
    refine ⟨h.single, fun y hy hyuse => ?_, hnodup, fun y hy hyuse => ?_⟩
    · by_cases hyx : y = x
      · rw [hyx]
        exact hindexed
      · obtain ⟨hiff, hindex⟩ := hothers y hyx
        rw [hindex]
        exact h.indexed y (hy.imp_right (List.mem_cons_of_mem x)) (hiff.mp hyuse)
    · have hyx : y ≠ x := fun hyx => hxrest (hyx ▸ hy)
      exact h.idle y (List.mem_cons_of_mem x hy) ((hothers y hyx).1.mp hyuse)

end Slots
