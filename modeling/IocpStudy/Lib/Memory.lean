import Mathlib.Data.List.Basic
import Mathlib.Data.List.Infix

/-! A flat memory, addressed by number, with the block operations of a byte buffer: reading a block
as a list, and the writes that `memcpy`, `memmove` and `fill` make.  Cells are of any type. -/

/-- A flat memory: the cell at each address. -/
abbrev Memory (α : Type*) := ℕ → α

namespace Memory

variable {α : Type*}

/-- The `n` cells from address `a` on. -/
def slice (m : Memory α) (a n : ℕ) : List α := (List.range n).map fun i => m (a + i)

/-- `m` with the cells from address `a` on replaced by `xs`. -/
def write (m : Memory α) (a : ℕ) (xs : List α) : Memory α :=
  fun i => if a ≤ i then (xs[i - a]?).getD (m i) else m i

/-- `m` with `n` cells copied from `src` to `dst`; the two blocks may overlap. -/
def move (m : Memory α) (dst src n : ℕ) : Memory α := m.write dst (m.slice src n)

/-- `m` with each of the first `n` cells set to `x`. -/
def fill (m : Memory α) (n : ℕ) (x : α) : Memory α := fun i => if i < n then x else m i

variable (m : Memory α) {a b n k : ℕ} {xs ys : List α}

@[simp] theorem length_slice : (m.slice a n).length = n := by simp [slice]

@[simp] theorem getElem_slice {i : ℕ} (h : i < (m.slice a n).length) :
    (m.slice a n)[i] = m (a + i) := by simp [slice]

@[simp] theorem slice_zero : m.slice a 0 = [] := rfl

theorem slice_congr {m m' : Memory α} (h : ∀ i < n, m (a + i) = m' (b + i)) :
    m.slice a n = m'.slice b n := by
  apply List.ext_getElem (by simp)
  intro i hi _
  simpa using h i (by simpa using hi)

theorem slice_eq_slice_iff {m m' : Memory α} :
    m.slice a n = m'.slice b n ↔ ∀ i < n, m (a + i) = m' (b + i) := by
  refine ⟨fun h i hi => ?_, slice_congr⟩
  have hget := List.getElem_of_eq h (i := i) (by simpa using hi)
  rw [getElem_slice, getElem_slice] at hget
  exact hget

theorem slice_add : m.slice a (n + k) = m.slice a n ++ m.slice (a + n) k := by
  simp only [slice, List.range_add, List.map_append, List.map_map, Function.comp_def, Nat.add_assoc]

theorem take_slice (h : k ≤ n) : (m.slice a n).take k = m.slice a k := by
  obtain ⟨r, rfl⟩ := Nat.exists_eq_add_of_le h
  rw [slice_add, List.take_left' (by simp)]

theorem drop_slice : (m.slice a n).drop k = m.slice (a + k) (n - k) := by
  rcases Nat.le_total k n with h | h
  · obtain ⟨r, rfl⟩ := Nat.exists_eq_add_of_le h
    rw [slice_add, List.drop_left' (by simp), Nat.add_sub_cancel_left]
  · rw [List.drop_eq_nil_of_le (by simpa using h), Nat.sub_eq_zero_of_le h, slice_zero]

@[simp] theorem write_nil : m.write a [] = m := by
  funext i
  simp [write]

theorem write_apply_of_lt {i : ℕ} (h : i < a) : m.write a xs i = m i := by
  simp [write, Nat.not_le.mpr h]

theorem write_apply_of_ge {i : ℕ} (h : a + xs.length ≤ i) : m.write a xs i = m i := by
  simp [write, List.getElem?_eq_none (show xs.length ≤ i - a by omega)]

theorem write_apply_add {i : ℕ} (h : i < xs.length) : m.write a xs (a + i) = xs[i] := by
  simp [write, List.getElem?_eq_getElem h]

@[simp] theorem slice_write_self : (m.write a xs).slice a xs.length = xs := by
  apply List.ext_getElem (by simp)
  intro i _ hi
  simp [write_apply_add m hi]

theorem slice_write_eq (h : n = xs.length) : (m.write a xs).slice a n = xs := by
  rw [h, slice_write_self]

@[simp] theorem write_slice_self : m.write a (m.slice a n) = m := by
  funext i
  rcases Nat.lt_or_ge i a with hlt | hge
  · exact write_apply_of_lt m hlt
  · rcases Nat.lt_or_ge i (a + n) with hin | hout
    · obtain ⟨k, rfl⟩ := Nat.exists_eq_add_of_le hge
      rw [write_apply_add m (by simp; omega), getElem_slice]
    · exact write_apply_of_ge m (by simpa using hout)

theorem slice_write_of_disjoint (h : b + n ≤ a ∨ a + xs.length ≤ b) :
    (m.write a xs).slice b n = m.slice b n := by
  apply slice_congr
  intro i hi
  rcases h with h | h
  · exact write_apply_of_lt m (by omega)
  · exact write_apply_of_ge m (by omega)

theorem slice_write_append (h : b + n = a) :
    (m.write a xs).slice b (n + xs.length) = m.slice b n ++ xs := by
  rw [slice_add, slice_write_of_disjoint m (Or.inl (by omega)), h, slice_write_self]

/-- A write leaves a block as it was exactly where it puts into it what was there. -/
theorem slice_write_eq_slice_iff :
    (m.write a xs).slice b n = m.slice b n ↔
      ∀ k (h : k < xs.length), b ≤ a + k → a + k < b + n → xs[k] = m (a + k) := by
  rw [slice_eq_slice_iff]
  constructor
  · intro hsame k hk hle hlt
    have hcell := hsame (a + k - b) (by omega)
    rw [show b + (a + k - b) = a + k by omega, write_apply_add m hk] at hcell
    exact hcell
  · intro hsame i hi
    by_cases hin : a ≤ b + i ∧ b + i < a + xs.length
    · have hcell := hsame (b + i - a) (by omega) (by omega) (by omega)
      have hpos : a + (b + i - a) = b + i := by omega
      rw [← hpos, write_apply_add m (by omega), hcell]
    · rcases Nat.lt_or_ge (b + i) a with hlt | hge
      · exact write_apply_of_lt m hlt
      · exact write_apply_of_ge m (by omega)

/-- A write covers an earlier one at the same address that is no longer than it. -/
theorem write_write_of_le (h : xs.length ≤ ys.length) :
    (m.write a xs).write a ys = m.write a ys := by
  funext i
  rcases Nat.lt_or_ge i a with hlt | hge
  · rw [write_apply_of_lt _ hlt, write_apply_of_lt _ hlt, write_apply_of_lt _ hlt]
  · rcases Nat.lt_or_ge i (a + ys.length) with hin | hout
    · obtain ⟨k, rfl⟩ := Nat.exists_eq_add_of_le hge
      rw [write_apply_add _ (by omega), write_apply_add _ (by omega)]
    · rw [write_apply_of_ge _ hout, write_apply_of_ge _ hout, write_apply_of_ge _ (by omega)]

theorem write_write_append (h : b = a + xs.length) :
    (m.write a xs).write b ys = m.write a (xs ++ ys) := by
  funext i
  rcases Nat.lt_or_ge i b with hib | hib
  · rw [write_apply_of_lt _ hib]
    rcases Nat.lt_or_ge i a with hia | hia
    · rw [write_apply_of_lt _ hia, write_apply_of_lt _ hia]
    · simp only [write, if_pos hia]
      rw [List.getElem?_append_left (by omega)]
  · have hnone : m.write a xs i = m i := write_apply_of_ge m (by omega)
    have hpos : i - b = i - a - xs.length := by omega
    rw [write, if_pos hib, hnone, write, if_pos (show a ≤ i by omega),
      List.getElem?_append_right (by omega), hpos]

end Memory
