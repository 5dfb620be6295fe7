import IocpStudy.Lib.Memory
import Mathlib.Data.List.Perm.Basic
import Mathlib.Logic.Function.Basic

/-! The calls of `memcpy` that a function makes on a memory.  `memcpy` may copy the cells of a block
in any order, so where its two blocks overlap the outcome is open.  Where they lie apart it is
`move`, and where they lie within the first cells of the memory the others keep what they held. -/

namespace Memory

variable {α : Type*}

/-- `m` after the cells `is` of the block at `src` have been copied to the block at `dst`, one after
the other. -/
def copyCells (m : Memory α) (dst src : ℕ) : List ℕ → Memory α
  | [] => m
  | i :: is => copyCells (Function.update m (dst + i) (m (src + i))) dst src is

/-- A call that writes the `size` cells from `dst` on, out of the block at `src` of the same memory,
or out of a block elsewhere. -/
structure BlockCopy where
  dst : ℕ
  src : Option ℕ
  size : ℕ
deriving Repr, DecidableEq

namespace BlockCopy

/-- Both blocks lie in the first `bound` cells. -/
structure Within (copy : BlockCopy) (bound : ℕ) : Prop where
  dst_le : copy.dst + copy.size ≤ bound
  src_le : ∀ src, copy.src = some src → src + copy.size ≤ bound

/-- The two blocks do not overlap. -/
def Apart (copy : BlockCopy) : Prop :=
  ∀ src, copy.src = some src → copy.dst + copy.size ≤ src ∨ src + copy.size ≤ copy.dst

/-- What the call does as a `memmove`, with `xs` the cells of the block elsewhere. -/
def apply (xs : List α) (m : Memory α) (copy : BlockCopy) : Memory α :=
  match copy.src with
  | some src => m.move copy.dst src copy.size
  | none => m.write copy.dst (xs.take copy.size)

/-- The memories that the call may leave. -/
def Leaves (xs : List α) (m : Memory α) (copy : BlockCopy) (m' : Memory α) : Prop :=
  match copy.src with
  | some src => ∃ is, is.Perm (List.range copy.size) ∧ m' = m.copyCells copy.dst src is
  | none => m' = m.write copy.dst (xs.take copy.size)

/-- The memories that calls one after the other may leave. -/
def LeaveAll (xs : List α) (m : Memory α) : List BlockCopy → Memory α → Prop
  | [], m' => m' = m
  | copy :: copies, m' => ∃ next, copy.Leaves xs m next ∧ LeaveAll xs next copies m'

end BlockCopy

variable {m m' : Memory α} {dst src n k bound : ℕ} {is : List ℕ} {xs : List α}

/-- A cell of the one block is not read after it was written, as it is not in the other. -/
theorem copyCells_apply (hapart : ∀ i ∈ is, ∀ j ∈ is, src + i ≠ dst + j) :
    m.copyCells dst src is k = if ∃ i ∈ is, k = dst + i then m (src + (k - dst)) else m k := by
  induction is generalizing m with
  | nil => simp [copyCells]
  | cons i is ih =>
    have htail : ∀ i ∈ is, ∀ j ∈ is, src + i ≠ dst + j := fun a ha b hb =>
      hapart a (List.mem_cons_of_mem i ha) b (List.mem_cons_of_mem i hb)
    rw [copyCells, ih htail]
    by_cases hlater : ∃ a ∈ is, k = dst + a
    · obtain ⟨a, ha, rfl⟩ := hlater
      have hread : src + a ≠ dst + i :=
        hapart a (List.mem_cons_of_mem i ha) i List.mem_cons_self
      rw [if_pos ⟨a, ha, rfl⟩, if_pos ⟨a, List.mem_cons_of_mem i ha, rfl⟩,
        Nat.add_sub_cancel_left, Function.update_of_ne hread]
    · rw [if_neg hlater]
      by_cases hnow : k = dst + i
      · rw [if_pos ⟨i, List.mem_cons_self, hnow⟩, hnow, Function.update_self,
          Nat.add_sub_cancel_left]
      · have hnever : ¬∃ a ∈ i :: is, k = dst + a := by
          rintro ⟨a, ha, hk⟩
          rcases List.mem_cons.mp ha with rfl | ha
          · exact hnow hk
          · exact hlater ⟨a, ha, hk⟩
        rw [if_neg hnever, Function.update_of_ne hnow]

/-- Blocks that lie apart are moved by a copy of their cells in any order. -/
theorem copyCells_eq_move (hperm : is.Perm (List.range n))
    (hapart : dst + n ≤ src ∨ src + n ≤ dst) : m.copyCells dst src is = m.move dst src n := by
  have hmem : ∀ i, i ∈ is ↔ i < n := fun i => hperm.mem_iff.trans List.mem_range
  funext k
  rw [copyCells_apply fun i hi j hj => by rw [hmem] at hi hj; omega, move]
  by_cases hin : dst ≤ k ∧ k < dst + n
  · obtain ⟨i, rfl⟩ := Nat.exists_eq_add_of_le hin.1
    rw [if_pos ⟨i, (hmem i).mpr (by omega), rfl⟩, Nat.add_sub_cancel_left,
      write_apply_add m (by simp; omega), getElem_slice]
  · rw [if_neg fun ⟨i, hi, hk⟩ => hin (by rw [hmem] at hi; omega)]
    rcases Nat.lt_or_ge k dst with hlt | hge
    · rw [write_apply_of_lt m hlt]
    · rw [write_apply_of_ge m (by simp; omega)]

namespace BlockCopy

variable {copy : BlockCopy} {copies : List BlockCopy}

@[simp] theorem within_some : Within ⟨dst, some src, n⟩ bound ↔
    dst + n ≤ bound ∧ src + n ≤ bound := by
  constructor
  · rintro ⟨hdst, hsrc⟩
    exact ⟨hdst, hsrc src rfl⟩
  · rintro ⟨hdst, hsrc⟩
    refine ⟨hdst, fun block hblock => ?_⟩
    obtain rfl := Option.some.inj hblock
    exact hsrc

@[simp] theorem within_none : Within ⟨dst, none, n⟩ bound ↔ dst + n ≤ bound :=
  ⟨fun h => h.dst_le, fun h => ⟨h, fun _ hsrc => absurd hsrc.symm (Option.some_ne_none _)⟩⟩

@[simp] theorem apart_some : Apart ⟨dst, some src, n⟩ ↔ dst + n ≤ src ∨ src + n ≤ dst := by
  refine ⟨fun h => h src rfl, fun h block hblock => ?_⟩
  obtain rfl := Option.some.inj hblock
  exact h

/-- Nothing is said of a block elsewhere. -/
@[simp] theorem apart_none : Apart ⟨dst, none, n⟩ :=
  fun _ hsrc => absurd hsrc.symm (Option.some_ne_none _)

theorem leaves_iff (hapart : copy.Apart) : copy.Leaves xs m m' ↔ m' = copy.apply xs m := by
  unfold Leaves apply
  cases hsrc : copy.src with
  | none => exact Iff.rfl
  | some src =>
    constructor
    · rintro ⟨is, hperm, rfl⟩
      exact copyCells_eq_move hperm (hapart src hsrc)
    · rintro rfl
      exact ⟨List.range copy.size, List.Perm.refl _,
        (copyCells_eq_move (List.Perm.refl _) (hapart src hsrc)).symm⟩

/-- Calls whose blocks lie apart leave one memory only. -/
theorem leaveAll_iff (hapart : ∀ copy ∈ copies, copy.Apart) :
    LeaveAll xs m copies m' ↔ m' = copies.foldl (apply xs) m := by
  induction copies generalizing m with
  | nil => exact Iff.rfl
  | cons copy copies ih =>
    have hhead : copy.Apart := hapart copy List.mem_cons_self
    have htail : ∀ copy ∈ copies, copy.Apart := fun c hc => hapart c (List.mem_cons_of_mem copy hc)
    simp only [LeaveAll, leaves_iff hhead, ih htail, exists_eq_left, List.foldl_cons]

theorem Within.apply_of_ge (h : copy.Within bound) (hk : bound ≤ k) : copy.apply xs m k = m k := by
  have hdst := h.dst_le
  unfold apply
  cases copy.src with
  | none => exact write_apply_of_ge m (by rw [List.length_take]; omega)
  | some src => exact write_apply_of_ge m (by rw [length_slice]; omega)

/-- Calls within the first `bound` cells leave the others as they were. -/
theorem foldl_apply_of_ge (h : ∀ copy ∈ copies, copy.Within bound) (hk : bound ≤ k) :
    copies.foldl (apply xs) m k = m k := by
  induction copies generalizing m with
  | nil => rfl
  | cons copy copies ih =>
    rw [List.foldl_cons, ih fun c hc => h c (List.mem_cons_of_mem copy hc),
      (h copy List.mem_cons_self).apply_of_ge hk]

end BlockCopy

end Memory
