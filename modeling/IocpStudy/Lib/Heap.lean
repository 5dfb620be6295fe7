import Mathlib.Data.List.AList

/-! A heap of blocks at addresses that are never used twice.  A block can be read until it is freed,
and freeing it again is a fault, as is the read of a freed block. -/

/-- The live blocks by their addresses, all below `next`. -/
structure Heap (α : Type*) where
  next : ℕ := 0
  blocks : AList fun _ : ℕ => α := ∅
  below : ∀ p ∈ blocks, p < next := by exact fun p hp => absurd hp (AList.notMem_empty p)

namespace Heap

variable {α : Type*}

/-- The contents of the block at `p`, if it is live. -/
def load (h : Heap α) (p : ℕ) : Option α := h.blocks.lookup p

/-- The heap with a new block at the address `h.next`. -/
def alloc (h : Heap α) (a : α) : Heap α where
  next := h.next + 1
  blocks := h.blocks.insert h.next a
  below := by
    intro p hp
    rcases (AList.mem_insert _).mp hp with rfl | hmem
    · exact Nat.lt_succ_self _
    · exact Nat.lt_succ_of_lt (h.below p hmem)

/-- The heap without the block at `p`, which must be live. -/
def free (h : Heap α) (p : ℕ) : Option (Heap α) :=
  if p ∈ h.blocks then
    some
      { next := h.next
        blocks := h.blocks.erase p
        below := fun q hq => h.below q (AList.mem_erase.mp hq).2 }
  else none

/-- The number of live blocks with contents in `P`. -/
def count (P : α → Bool) (h : Heap α) : ℕ := h.blocks.entries.countP fun entry => P entry.2

variable {h h' : Heap α} {p q : ℕ} {a b : α}

theorem mem_of_load (hp : h.load p = some a) : p ∈ h.blocks := by
  by_contra hmem
  rw [load, AList.lookup_eq_none.mpr hmem] at hp
  exact Option.some_ne_none a hp.symm

theorem lt_of_load (hp : h.load p = some a) : p < h.next := h.below p (mem_of_load hp)

theorem ne_next_of_load (hp : h.load p = some a) : p ≠ h.next := Nat.ne_of_lt (lt_of_load hp)

@[simp] theorem load_alloc_self (h : Heap α) (a : α) : (h.alloc a).load h.next = some a :=
  AList.lookup_insert _

theorem load_alloc_of_ne (hp : p ≠ h.next) : (h.alloc a).load p = h.load p :=
  AList.lookup_insert_ne hp

/-- What is live stays as it is when another block is allocated. -/
theorem load_alloc (hp : h.load p = some b) : (h.alloc a).load p = some b := by
  rw [load_alloc_of_ne (ne_next_of_load hp), hp]

theorem exists_free (hp : h.load p = some a) : ∃ h', h.free p = some h' := by
  unfold free
  rw [if_pos (mem_of_load hp)]
  exact ⟨_, rfl⟩

theorem load_of_free (hfree : h.free p = some h') :
    h'.load q = if q = p then none else h.load q := by
  obtain ⟨-, hfree⟩ := Option.ite_none_right_eq_some.mp hfree
  obtain rfl := Option.some.inj hfree
  by_cases hq : q = p
  · subst hq
    rw [if_pos rfl]
    exact AList.lookup_erase _ _
  · rw [if_neg hq]
    exact AList.lookup_erase_ne hq

theorem load_of_free_of_ne (hfree : h.free p = some h') (hq : q ≠ p) : h'.load q = h.load q := by
  rw [load_of_free hfree, if_neg hq]

theorem count_alloc (P : α → Bool) (h : Heap α) (a : α) :
    (h.alloc a).count P = h.count P + if P a then 1 else 0 := by
  have hnew : h.next ∉ h.blocks := fun hmem => Nat.lt_irrefl _ (h.below _ hmem)
  unfold count alloc
  rw [AList.entries_insert_of_notMem hnew, List.countP_cons]

theorem count_of_free {P : α → Bool} (hp : h.load p = some a) (hfree : h.free p = some h') :
    h'.count P + (if P a then 1 else 0) = h.count P := by
  obtain ⟨hmem, hfree⟩ := Option.ite_none_right_eq_some.mp hfree
  obtain rfl := Option.some.inj hfree
  obtain ⟨b, before, after, hbefore, hentries, herase⟩ :=
    List.exists_of_kerase (AList.mem_keys.mp hmem)
  have hb : b = a := by
    have hlookup : h.blocks.lookup p = some b := by
      rw [← Option.mem_def, AList.mem_lookup_iff, hentries]
      exact List.mem_append_right _ List.mem_cons_self
    exact Option.some.inj (hlookup.symm.trans hp)
  have hafter : (h.blocks.erase p).entries = before ++ after := herase
  unfold count
  rw [hafter, hentries, hb, List.countP_append, List.countP_append, List.countP_cons]
  dsimp only
  omega

end Heap
