import Mathlib.Data.List.AList

/-! A map that is filled entry by entry.  `emplace` keeps the entry that a key has, so the first one
for a key wins, and `assign` replaces it, so the last one does.  A loop that may fail before each
entry fills the map with the entries that it made, if it comes to its end. -/

namespace Dictionary

variable {κ : Type*} {α β ε : Type*} [DecidableEq κ]

/-- An entry for a key that has none. -/
def emplace (m : AList fun _ : κ => β) (k : κ) (b : β) : AList fun _ : κ => β :=
  if k ∈ m then m else m.insert k b

/-- An entry that replaces the one of its key. -/
def assign (m : AList fun _ : κ => β) (k : κ) (b : β) : AList fun _ : κ => β := m.insert k b

variable {m : AList fun _ : κ => β} {k k' : κ} {b : β} {l : List (κ × β)}

theorem lookup_emplace : (emplace m k b).lookup k' =
    (m.lookup k').or (if k' = k then some b else none) := by
  unfold emplace
  by_cases hk : k' = k
  · subst hk
    by_cases hmem : k' ∈ m
    · obtain ⟨c, hc⟩ := Option.isSome_iff_exists.mp (AList.lookup_isSome.mpr hmem)
      rw [if_pos hmem, if_pos rfl, hc]
      rfl
    · rw [if_neg hmem, if_pos rfl, AList.lookup_eq_none.mpr hmem, AList.lookup_insert]
      rfl
  · rw [if_neg hk, Option.or_none]
    split_ifs with hmem
    · rfl
    · exact AList.lookup_insert_ne hk

theorem lookup_assign : (assign m k b).lookup k' =
    (if k' = k then some b else none).or (m.lookup k') := by
  unfold assign
  by_cases hk : k' = k
  · subst hk
    rw [if_pos rfl, AList.lookup_insert]
    rfl
  · rw [if_neg hk, Option.none_or, AList.lookup_insert_ne hk]

theorem lookup_cons (k k' : κ) (b : β) (l : List (κ × β)) :
    List.lookup k' ((k, b) :: l) = (if k' = k then some b else none).or (l.lookup k') := by
  rw [List.lookup_cons]
  by_cases hk : k' = k
  · rw [if_pos hk, beq_iff_eq.mpr hk]
    rfl
  · rw [if_neg hk, beq_eq_false_iff_ne.mpr hk]
    rfl

/-- Behind the entries that were there, the first one for a key counts. -/
theorem lookup_foldl_emplace :
    (l.foldl (fun m e => emplace m e.1 e.2) m).lookup k = (m.lookup k).or (l.lookup k) := by
  induction l generalizing m with
  | nil => exact (Option.or_none).symm
  | cons e l ih =>
    obtain ⟨k', b⟩ := e
    rw [List.foldl_cons, ih, lookup_emplace, lookup_cons, Option.or_assoc]

/-- Before the entries that were there, the last one for a key counts. -/
theorem lookup_foldl_assign :
    (l.foldl (fun m e => assign m e.1 e.2) m).lookup k =
      (l.reverse.lookup k).or (m.lookup k) := by
  induction l generalizing m with
  | nil => rfl
  | cons e l ih =>
    obtain ⟨k', b⟩ := e
    have hsplit : (l.reverse ++ [(k', b)]).lookup k =
        (l.reverse.lookup k).or (if k = k' then some b else none) := by
      rw [List.lookup_append, lookup_cons, List.lookup_nil, Option.or_none]
    rw [List.foldl_cons, ih, lookup_assign, List.reverse_cons, hsplit, Option.or_assoc]

/-! ### A loop that makes the entries -/

/-- The entries that `f` makes of a list, or the first of its errors. -/
def entries (f : α → Except ε β) : List α → Except ε (List β)
  | [] => .ok []
  | a :: l => (f a).bind fun b => (entries f l).map fun bs => b :: bs

/-- The loop that makes an entry of each element and puts it into `m` at once. -/
def fill {μ : Type*} (f : α → Except ε β) (put : μ → β → μ) : μ → List α → Except ε μ
  | m, [] => .ok m
  | m, a :: l => (f a).bind fun b => fill f put (put m b) l

variable {μ : Type*} {f : α → Except ε β} {put : μ → β → μ} {as : List α} {bs : List β}

theorem fill_eq (n : μ) : fill f put n as = (entries f as).map fun bs => bs.foldl put n := by
  induction as generalizing n with
  | nil => rfl
  | cons a as ih =>
    rw [fill, entries]
    cases f a with
    | error e => rfl
    | ok b =>
      simp only [Except.bind, ih]
      cases entries f as <;> rfl

theorem entries_isOk_iff : (∃ bs, entries f as = .ok bs) ↔ ∀ a ∈ as, ∃ b, f a = .ok b := by
  induction as with
  | nil => simp [entries]
  | cons a as ih =>
    rw [List.forall_mem_cons, ← ih, entries]
    cases f a with
    | error e => simp [Except.bind]
    | ok b =>
      cases entries f as <;> simp [Except.bind, Except.map]

end Dictionary
