import Mathlib.Data.Nat.Basic
import Mathlib.Tactic.Ring

/-! Machine words: the conversions that C++ makes between `int`, `uint32_t` and a 64-bit `size_t`,
unsigned arithmetic modulo `2^32`, and numbers as bytes in little-endian order. -/

namespace Words

/-- An `int` converted to a 64-bit `size_t`: a negative value wraps to the top of the range. -/
def sizeTOfInt (x : ℤ) : ℕ := (x % 2 ^ 64).toNat

theorem sizeTOfInt_of_nonneg {x : ℤ} (h0 : 0 ≤ x) (h : x < 2 ^ 64) : sizeTOfInt x = x.toNat := by
  rw [sizeTOfInt, Int.emod_eq_of_lt h0 h]

@[simp] theorem sizeTOfInt_natCast {n : ℕ} (h : n < 2 ^ 64) : sizeTOfInt n = n := by
  rw [sizeTOfInt_of_nonneg (by omega) (by omega), Int.toNat_natCast]

/-- A small negative `int` becomes larger than any size a program handles. -/
theorem le_sizeTOfInt_of_neg {x : ℤ} {n : ℕ} (h : x < 0) (hx : (n : ℤ) ≤ 2 ^ 64 + x) :
    n ≤ sizeTOfInt x := by
  have hmod : x % 2 ^ 64 = x + 2 ^ 64 := by
    rw [← Int.add_emod_right, Int.emod_eq_of_lt (by omega) (by omega)]
  rw [sizeTOfInt, hmod]
  omega

/-- An `int` converted to a 32-bit unsigned number. -/
def uint32OfInt (x : ℤ) : ℕ := (x % 2 ^ 32).toNat

@[simp] theorem uint32OfInt_natCast {n : ℕ} (h : n < 2 ^ 32) : uint32OfInt n = n := by
  rw [uint32OfInt, Int.emod_eq_of_lt (by omega) (by omega), Int.toNat_natCast]

/-- A `uint32_t` converted to an `int`: the upper half of the range becomes negative. -/
def intOfUInt32 (x : UInt32) : ℤ := if x.toNat < 2 ^ 31 then x.toNat else x.toNat - 2 ^ 32

/-- A number cast to an `int` is no larger than it. -/
theorem intOfUInt32_ofNat_le (n : ℕ) : intOfUInt32 (UInt32.ofNat n) ≤ n := by
  have hmod : (UInt32.ofNat n).toNat = n % 2 ^ 32 := UInt32.toNat_ofNat'
  unfold intOfUInt32
  split <;> omega

/-- The sum of two 32-bit unsigned numbers. -/
def addU32 (a b : ℕ) : ℕ := (a + b) % 2 ^ 32

/-- The difference of two 32-bit unsigned numbers. -/
def subU32 (a b : ℕ) : ℕ := (a + (2 ^ 32 - b)) % 2 ^ 32

theorem addU32_eq {a b : ℕ} (h : a + b < 2 ^ 32) : addU32 a b = a + b := Nat.mod_eq_of_lt h

theorem subU32_eq {a b : ℕ} (h : b ≤ a) (ha : a < 2 ^ 32) : subU32 a b = a - b := by
  rw [subU32]
  omega

/-- The `k` low bytes of `n`, the least significant one first. -/
def leBytes : ℕ → ℕ → List UInt8
  | 0, _ => []
  | k + 1, n => UInt8.ofNat n :: leBytes k (n / 256)

/-- The number whose bytes, the least significant one first, are `bs`. -/
def ofLeBytes : List UInt8 → ℕ
  | [] => 0
  | b :: bs => b.toNat + 256 * ofLeBytes bs

@[simp] theorem length_leBytes (k n : ℕ) : (leBytes k n).length = k := by
  induction k generalizing n with
  | zero => rfl
  | succ k ih => simp [leBytes, ih]

theorem ofLeBytes_leBytes {k n : ℕ} (h : n < 256 ^ k) : ofLeBytes (leBytes k n) = n := by
  induction k generalizing n with
  | zero =>
    rw [Nat.pow_zero] at h
    obtain rfl : n = 0 := by omega
    rfl
  | succ k ih =>
    have hdiv : n / 256 < 256 ^ k := by
      rw [Nat.div_lt_iff_lt_mul (by decide), ← Nat.pow_succ]
      exact h
    have hmod : (UInt8.ofNat n).toNat = n % 256 := UInt8.toNat_ofNat'
    rw [leBytes, ofLeBytes, ih hdiv, hmod]
    omega

/-- The 32-bit word at the front of `bs`. -/
def readU32 (bs : List UInt8) : UInt32 := UInt32.ofNat (ofLeBytes (bs.take 4))

/-- The 16-bit word at the front of `bs`. -/
def readU16 (bs : List UInt8) : UInt16 := UInt16.ofNat (ofLeBytes (bs.take 2))

def bytesOfU32 (w : UInt32) : List UInt8 := leBytes 4 w.toNat

def bytesOfU16 (w : UInt16) : List UInt8 := leBytes 2 w.toNat

@[simp] theorem length_bytesOfU32 (w : UInt32) : (bytesOfU32 w).length = 4 := length_leBytes 4 _

@[simp] theorem length_bytesOfU16 (w : UInt16) : (bytesOfU16 w).length = 2 := length_leBytes 2 _

@[simp] theorem readU32_bytesOfU32 (w : UInt32) (bs : List UInt8) :
    readU32 (bytesOfU32 w ++ bs) = w := by
  have hw : w.toNat < 256 ^ 4 := by
    have := w.toNat_lt
    omega
  rw [readU32, List.take_left' (length_bytesOfU32 w), bytesOfU32, ofLeBytes_leBytes hw,
    UInt32.ofNat_toNat]

@[simp] theorem readU16_bytesOfU16 (w : UInt16) (bs : List UInt8) :
    readU16 (bytesOfU16 w ++ bs) = w := by
  have hw : w.toNat < 256 ^ 2 := by
    have := w.toNat_lt
    omega
  rw [readU16, List.take_left' (length_bytesOfU16 w), bytesOfU16, ofLeBytes_leBytes hw,
    UInt16.ofNat_toNat]

end Words
