import Mathlib.Data.List.Nodup

/-! Resources that are taken from a pool and given back.  `Unshared pool held` says that no resource
is in two places at a time, and `Conserved all pool held` that each of `all` is in one. -/

namespace Pools

variable {α : Type*}

/-- No resource is in the pool twice, held twice, or held while it is in the pool. -/
def Unshared (pool held : List α) : Prop := (pool ++ held).Nodup

/-- Every resource of `all` is in the pool or held, once, and no other is. -/
def Conserved (all pool held : List α) : Prop := (pool ++ held).Perm all

variable {all pool held held' rest : List α} {x : α}

theorem conserved_nil : Conserved all all [] := by
  rw [Conserved, List.append_nil]

theorem perm_take : (rest ++ (held ++ [x])).Perm (x :: rest ++ held) := by
  rw [← List.append_assoc]
  exact List.perm_append_singleton x (rest ++ held)

theorem perm_release : (rest ++ [x] ++ held).Perm (x :: rest ++ held) :=
  (List.perm_append_singleton x rest).append_right held

theorem Conserved.unshared (h : Conserved all pool held) (hall : all.Nodup) :
    Unshared pool held :=
  h.nodup_iff.mpr hall

theorem Conserved.mem_of_held (h : Conserved all pool held) (hx : x ∈ held) : x ∈ all :=
  h.mem_iff.mp (List.mem_append_right pool hx)

/-- A new resource goes to whoever asked for it. -/
theorem Conserved.create (h : Conserved all pool held) :
    Conserved (all ++ [x]) pool (held ++ [x]) := by
  rw [Conserved, ← List.append_assoc]
  exact h.append_right [x]

theorem Conserved.length_add (h : Conserved all pool held) :
    pool.length + held.length = all.length := by
  rw [← List.length_append]
  exact h.length_eq

theorem unshared_take : Unshared rest (held ++ [x]) ↔ Unshared (x :: rest) held :=
  perm_take.nodup_iff

theorem conserved_take : Conserved all rest (held ++ [x]) ↔ Conserved all (x :: rest) held :=
  ⟨fun h => perm_take.symm.trans h, fun h => perm_take.trans h⟩

theorem conserved_release : Conserved all (rest ++ [x]) held ↔ Conserved all (x :: rest) held :=
  ⟨fun h => perm_release.symm.trans h, fun h => perm_release.trans h⟩

theorem unshared_release : Unshared (rest ++ [x]) held ↔ Unshared (x :: rest) held :=
  perm_release.nodup_iff

/-- Giving back a resource keeps the pool unshared where it is neither there nor held. -/
theorem unshared_release_iff :
    Unshared (pool ++ [x]) held ↔ Unshared pool held ∧ x ∉ pool ∧ x ∉ held := by
  rw [unshared_release, Unshared, List.cons_append, List.nodup_cons, List.mem_append, not_or]
  exact and_comm

theorem Unshared.sublist (h : Unshared pool held) (hsub : held'.Sublist held) :
    Unshared pool held' :=
  List.Nodup.sublist (hsub.append_left pool) h

theorem Conserved.perm (h : Conserved all pool held) (hperm : held'.Perm held) :
    Conserved all pool held' :=
  (hperm.append_left pool).trans h

end Pools
