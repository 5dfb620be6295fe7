import IocpStudy.Lib.Memory
import IocpStudy.Lib.Words

/-! `NetworkContext`: the buffer of one I/O direction of a StudyServer client, an array of 8096
bytes with a read and a write position.  `GetDataSize` is an `int`, negative where the read position
has passed the write position, and some callers compare it with a `size_t`. -/

namespace IocpStudy.StudyServer

open Words

/-- The size of `mBuffer`. -/
def bufferSize : ℕ := 8096

inductive ContextType
  | NONE
  | ACCEPT
  | RECV
  | SEND
deriving Repr, DecidableEq

/-- `mBuffer` is the memory from `mBuffer.data()` on: its first `bufferSize` cells are the array,
and the cells behind them are whatever follows the array.  The positions only grow by sizes that
are not negative, and shrink to 0 or by a smaller amount, so they are natural numbers. -/
structure NetworkContext where
  mBuffer : Memory UInt8
  mReadPos : ℕ := 0
  mWritePos : ℕ := 0
  mContextType : ContextType := .NONE
  mSessionID : UInt32 := 0

namespace NetworkContext

def getRemainSize (c : NetworkContext) : ℤ := bufferSize - c.mWritePos

def getDataSize (c : NetworkContext) : ℤ := c.mWritePos - c.mReadPos

def resetBuffer (c : NetworkContext) : NetworkContext :=
  { c with mBuffer := c.mBuffer.fill bufferSize 0, mReadPos := 0, mWritePos := 0 }

def alignBuffer (c : NetworkContext) : NetworkContext :=
  if c.mReadPos = 0 then c
  else if c.mReadPos < c.mWritePos then
    -- `mReadPos` keeps its value here, although the data it pointed at has moved to the front.
    { c with
      mBuffer := c.mBuffer.move 0 c.mReadPos (c.mWritePos - c.mReadPos)
      mWritePos := c.mWritePos - c.mReadPos }
  else c.resetBuffer

/-- `Write(void* data, std::size_t size)`, with `data` the bytes behind the pointer. -/
def write (c : NetworkContext) (data : List UInt8) : NetworkContext × Bool :=
  let copy (c : NetworkContext) : NetworkContext × Bool :=
    ({ c with
      mBuffer := c.mBuffer.write c.mWritePos data
      mWritePos := c.mWritePos + data.length }, true)
  if sizeTOfInt c.getRemainSize < data.length then
    let c := c.alignBuffer
    if sizeTOfInt c.getRemainSize < data.length then (c, false) else copy c
  else copy c

/-- `Write(int size)`, for bytes that are already at the write position. -/
def writeSize (c : NetworkContext) (size : ℕ) : Option NetworkContext :=
  if c.getRemainSize < size then none else some { c with mWritePos := c.mWritePos + size }

/-- `Read(int size)`. -/
def read (c : NetworkContext) (size : ℕ) : Option NetworkContext :=
  if c.getDataSize < size then none else some { c with mReadPos := c.mReadPos + size }

/-- `Read(std::span data)` for a span of `size` bytes: the context and what was copied to the
span. -/
def readSpan (c : NetworkContext) (size : ℕ) : Option (NetworkContext × List UInt8) :=
  if sizeTOfInt c.getDataSize < size then none
  else some ({ c with mReadPos := c.mReadPos + size }, c.mBuffer.slice c.mReadPos size)

def reset (c : NetworkContext) : NetworkContext := c.resetBuffer

/-- The bytes received or written and not yet read. -/
def unread (c : NetworkContext) : List UInt8 :=
  c.mBuffer.slice c.mReadPos (c.mWritePos - c.mReadPos)

/-- The positions are in order and inside the array. -/
structure Ordered (c : NetworkContext) : Prop where
  readPos_le : c.mReadPos ≤ c.mWritePos
  writePos_le : c.mWritePos ≤ bufferSize

variable {c c' : NetworkContext} {n : ℕ}

@[simp] theorem resetBuffer_readPos : c.resetBuffer.mReadPos = 0 := rfl

@[simp] theorem resetBuffer_writePos : c.resetBuffer.mWritePos = 0 := rfl

theorem alignBuffer_of_front (h : c.mReadPos = 0) : c.alignBuffer = c := by
  rw [alignBuffer, if_pos h]

theorem alignBuffer_of_lt (h0 : c.mReadPos ≠ 0) (h : c.mReadPos < c.mWritePos) :
    c.alignBuffer = { c with
      mBuffer := c.mBuffer.move 0 c.mReadPos (c.mWritePos - c.mReadPos)
      mWritePos := c.mWritePos - c.mReadPos } := by
  rw [alignBuffer, if_neg h0, if_pos h]

theorem alignBuffer_of_ge (h0 : c.mReadPos ≠ 0) (h : c.mWritePos ≤ c.mReadPos) :
    c.alignBuffer = c.resetBuffer := by
  rw [alignBuffer, if_neg h0, if_neg (by omega)]

theorem alignBuffer_writePos_le : c.alignBuffer.mWritePos ≤ c.mWritePos := by
  unfold alignBuffer
  split_ifs <;> simp

theorem alignBuffer_readPos_le : c.alignBuffer.mReadPos ≤ c.mReadPos := by
  unfold alignBuffer
  split_ifs <;> simp

@[simp] theorem length_unread : c.unread.length = c.mWritePos - c.mReadPos := by simp [unread]

theorem unread_eq_nil_iff : c.unread = [] ↔ c.mWritePos ≤ c.mReadPos := by
  rw [← List.length_eq_zero_iff, length_unread]
  omega

theorem Ordered.resetBuffer : c.resetBuffer.Ordered := ⟨le_refl _, Nat.zero_le _⟩

theorem writeSize_of_le (h : c.mWritePos + n ≤ bufferSize) :
    c.writeSize n = some { c with mWritePos := c.mWritePos + n } := by
  rw [writeSize, if_neg (by unfold getRemainSize; omega)]

theorem read_eq_some (h : c.read n = some c') :
    c.mReadPos + n ≤ c.mWritePos ∧ c' = { c with mReadPos := c.mReadPos + n } := by
  unfold read getDataSize at h
  split_ifs at h with hshort
  exact ⟨by omega, by simpa using h.symm⟩

theorem read_of_le (h : c.mReadPos + n ≤ c.mWritePos) :
    c.read n = some { c with mReadPos := c.mReadPos + n } := by
  rw [read, if_neg (by unfold getDataSize; omega)]

theorem read_of_lt (h : c.mWritePos < c.mReadPos + n) : c.read n = none := by
  rw [read, if_pos (by unfold getDataSize; omega)]

theorem unread_read (h : c.read n = some c') : c'.unread = c.unread.drop n := by
  obtain ⟨-, rfl⟩ := read_eq_some h
  rw [unread, unread, Memory.drop_slice, Nat.sub_sub]

theorem Ordered.read (hc : c.Ordered) (h : c.read n = some c') : c'.Ordered := by
  obtain ⟨hle, rfl⟩ := read_eq_some h
  exact ⟨hle, hc.writePos_le⟩

theorem getD_read : (c.read n).getD c = c ∨ (c.mReadPos + n ≤ c.mWritePos ∧
    (c.read n).getD c = { c with mReadPos := c.mReadPos + n }) := by
  cases h : c.read n with
  | none => exact Or.inl rfl
  | some c' => exact Or.inr (read_eq_some h)

theorem sizeTOfInt_remain_of_le (h : c.mWritePos ≤ bufferSize) :
    sizeTOfInt c.getRemainSize = bufferSize - c.mWritePos := by
  have hremain : c.getRemainSize = ((bufferSize - c.mWritePos : ℕ) : ℤ) := by
    unfold getRemainSize
    omega
  rw [hremain, sizeTOfInt_natCast (by unfold bufferSize; omega)]

theorem Ordered.sizeTOfInt_remain (hc : c.Ordered) :
    sizeTOfInt c.getRemainSize = bufferSize - c.mWritePos :=
  sizeTOfInt_remain_of_le hc.writePos_le

theorem Ordered.sizeTOfInt_data (hc : c.Ordered) : sizeTOfInt c.getDataSize = c.unread.length := by
  have hr := hc.readPos_le
  have hw := hc.writePos_le
  unfold bufferSize at hw
  have hdata : c.getDataSize = (c.unread.length : ℤ) := by
    rw [length_unread]
    unfold getDataSize
    omega
  rw [hdata, sizeTOfInt_natCast (by rw [length_unread]; omega)]

/-- A `Write` into a context with nothing unread succeeds exactly where the array is large enough,
and leaves the written bytes as the unread ones.  `AlignBuffer` only has to reset the positions
then. -/
theorem write_of_read (data : List UInt8) (hc : c.Ordered) (heq : c.mReadPos = c.mWritePos) :
    (data.length ≤ bufferSize →
      (c.write data).2 = true ∧ (c.write data).1.Ordered ∧ (c.write data).1.unread = data) ∧
    (bufferSize < data.length →
      (c.write data).2 = false ∧ (c.write data).1.Ordered ∧ (c.write data).1.unread = []) := by
  have hle := hc.writePos_le
  have halign : c.alignBuffer.Ordered ∧ c.alignBuffer.mReadPos = 0 ∧
      c.alignBuffer.mWritePos = 0 := by
    by_cases h0 : c.mReadPos = 0
    · rw [alignBuffer_of_front h0]
      exact ⟨hc, h0, by omega⟩
    · rw [alignBuffer_of_ge h0 (by omega)]
      exact ⟨Ordered.resetBuffer, rfl, rfl⟩
  obtain ⟨hord, hr, hw⟩ := halign
  simp only [write, hc.sizeTOfInt_remain, hord.sizeTOfInt_remain, hw]
  refine ⟨fun hfit => ?_, fun hbig => ?_⟩
  · by_cases hroom : bufferSize - c.mWritePos < data.length
    · rw [if_pos hroom, if_neg (by omega)]
      refine ⟨rfl, ⟨by simp [hr], by simpa using hfit⟩, ?_⟩
      simp [unread, hr]
    · rw [if_neg hroom]
      refine ⟨rfl, ⟨by simp [heq], by simp; omega⟩, ?_⟩
      simp [unread, heq]
  · rw [if_pos (by omega), if_pos (by omega)]
    exact ⟨rfl, hord, unread_eq_nil_iff.mpr (hw.le.trans (Nat.zero_le _))⟩

end NetworkContext

end IocpStudy.StudyServer
