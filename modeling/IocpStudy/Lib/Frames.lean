import Mathlib.Data.List.Infix
import Mathlib.Algebra.Order.Group.Nat

/-! Frames on a byte stream: the stream that a list of frames is sent as, and how many of the frames
a first part of the stream completes. -/

namespace Frames

variable {φ β : Type*} (encode : φ → List β)

/-- The frames' bytes, one frame after the other. -/
def stream (fs : List φ) : List β := fs.flatMap encode

/-- The number of frames that the first `n` items of the stream complete. -/
def completed : List φ → ℕ → ℕ
  | [], _ => 0
  | f :: fs, n => if (encode f).length ≤ n then completed fs (n - (encode f).length) + 1 else 0

variable {encode} {fs : List φ} {f : φ} {k n m : ℕ}

@[simp] theorem stream_nil : stream encode [] = [] := rfl

@[simp] theorem stream_cons : stream encode (f :: fs) = encode f ++ stream encode fs := rfl

theorem stream_append (gs : List φ) :
    stream encode (fs ++ gs) = stream encode fs ++ stream encode gs :=
  List.flatMap_append

theorem stream_drop : stream encode (fs.drop k) =
    (stream encode fs).drop (stream encode (fs.take k)).length := by
  have hsplit : stream encode fs = stream encode (fs.take k) ++ stream encode (fs.drop k) := by
    rw [← stream_append, List.take_append_drop]
  rw [hsplit, List.drop_left]

theorem le_completed_iff :
    k ≤ completed encode fs n ↔ k ≤ fs.length ∧ (stream encode (fs.take k)).length ≤ n := by
  induction fs generalizing k n with
  | nil => simp [completed]
  | cons f fs ih =>
    cases k with
    | zero => simp
    | succ k =>
      simp only [completed, List.take_succ_cons, stream_cons, List.length_append, List.length_cons]
      split_ifs with hle
      · rw [Nat.add_le_add_iff_right, ih, Nat.add_le_add_iff_right]
        omega
      · omega

theorem lt_length_of_completed_le (hk : k < fs.length) (h : completed encode fs n ≤ k) :
    n < (stream encode (fs.take (k + 1))).length := by
  by_contra hle
  have := le_completed_iff.mpr ⟨hk, Nat.le_of_not_lt hle⟩
  omega

theorem length_stream_take_succ (hk : k < fs.length) :
    (stream encode (fs.take (k + 1))).length =
      (stream encode (fs.take k)).length + (encode fs[k]).length := by
  rw [List.take_add_one, List.getElem?_eq_getElem hk, Option.toList_some, stream_append,
    List.length_append]
  simp [stream]

end Frames
