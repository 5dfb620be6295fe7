import IocpStudy.Lib.BoundedFifo
import IocpStudy.Lib.Runs
import IocpStudy.SBServer.Buffer

/-! `Buffer` as a queue of bytes in a storage of 1024.  The two `Write` functions compare the
storage and the new bytes, and not the write position, with a limit of 8192 that the storage never
grows to, and `Clear` takes the storage away.  So the buffer is a queue as long as no `Write` goes
beyond the storage and `Clear` is not called. -/

namespace IocpStudy.SBServer

open BoundedFifo Runs Words

/-- A call of one of the operations.  `store` stands for the bytes that the operating system puts
where `GetWriteBuffer()` points, and `writeSize` for the `Write(int)` after it. -/
inductive BufferEvent
  | writeData (data : List UInt8)
  | store (data : List UInt8)
  | writeSize (n : ℕ)
  | read (n : ℕ)
  | alignBuffer
  | clear
deriving Repr, DecidableEq

namespace BufferEvent

/-- The buffer after the event, and what the function returned. -/
def apply (b : Buffer) : BufferEvent → Buffer × Bool
  | .writeData data => b.writeData data
  | .store data => (b.store data, true)
  | .writeSize n => b.write n
  | .read n => b.read n
  | .alignBuffer => (b.alignBuffer, true)
  | .clear => (b.clear, true)

/-- What the event, which returned `accepted`, asks of a queue.  A `Write(int)` puts in the bytes at
the write position. -/
def operation (b : Buffer) (accepted : Bool) : BufferEvent → Operation UInt8
  | .writeData data => .offer data accepted
  | .store _ => .keep
  | .writeSize n => .offer (b.mBuffer.slice b.mWritePos n) accepted
  | .read n => .drop n
  | .alignBuffer => .keep
  | .clear => .clear

/-- What the callers see to: the operating system stores no more than the room it is offered, and
no more is read than there is. -/
def Allowed (b : Buffer) : BufferEvent → Prop
  | .store data => b.mWritePos + data.length ≤ b.size
  | .read n => (n : ℤ) ≤ b.getDataSize
  | _ => True

instance (b : Buffer) (e : BufferEvent) : Decidable (e.Allowed b) := by
  cases e <;> unfold Allowed <;> infer_instance

end BufferEvent

/-- A buffer and a queue that are given the same operations.  `cleared` records the room that the
buffer offered after each `Clear`. -/
structure BufferState where
  buffer : Buffer
  queue : List UInt8 := []
  cleared : List ℤ := []

def BufferState.next (s : BufferState) (e : BufferEvent) : BufferState :=
  { buffer := (e.apply s.buffer).1
    queue := (BoundedFifo.apply maxBufferSize s.queue
      (e.operation s.buffer (e.apply s.buffer).2)).1
    cleared := if e = .clear then s.cleared ++ [(e.apply s.buffer).1.getRemainSize]
      else s.cleared }

def bufferStep (s : BufferState) (e : BufferEvent) : Option BufferState :=
  if e.Allowed s.buffer then some (s.next e) else none

/-- A buffer that has just been constructed, with whatever is in its storage and behind it. -/
def BufferState.start (mBuffer : Memory UInt8) : BufferState := { buffer := { mBuffer } }

/-- The positions are in order and inside the storage, the unread bytes are those in the queue, and
every `Clear` left the room of a new buffer. -/
structure BufferState.IsFifo (s : BufferState) : Prop where
  readPos_le : s.buffer.mReadPos ≤ s.buffer.mWritePos
  writePos_le : s.buffer.mWritePos ≤ s.buffer.size
  size_le : s.buffer.size ≤ maxBufferSize
  unread : s.buffer.unread = s.queue
  cleared : ∀ room ∈ s.cleared, room = defaultBufferSize

/-- The size is refused, whatever room there is: with the storage it exceeds the limit. -/
def Buffer.Refuses (b : Buffer) (n : ℕ) : Prop :=
  b.size < b.mWritePos + n ∧ maxBufferSize < b.size + n

/-- A `Write` finds the room behind the write position, or is refused; a `Write(int)` may also find
it when the unread bytes have been moved to the front, where the bytes that it leaves behind them
are the ones that were at the write position.  `Clear` is not called. -/
def BufferState.Fits (s : BufferState) : BufferEvent → Prop
  | .writeData data =>
    s.buffer.mWritePos + data.length ≤ s.buffer.size ∨ s.buffer.Refuses data.length
  | .writeSize n =>
    s.buffer.mWritePos + n ≤ s.buffer.size ∨ s.buffer.Refuses n ∨
      s.buffer.mWritePos - s.buffer.mReadPos + n ≤ s.buffer.size ∧
      s.buffer.mBuffer.slice (s.buffer.mWritePos - s.buffer.mReadPos) n =
        s.buffer.mBuffer.slice s.buffer.mWritePos n
  | .clear => False
  | _ => True

/-! ### The operations -/

namespace Buffer

variable {b : Buffer} {data : List UInt8} {n : ℕ}

@[simp] theorem length_unread : b.unread.length = b.mWritePos - b.mReadPos := by simp [unread]

/-- `AlignBuffer` moves the unread bytes to the front.  Where there are none, or they are at the
front, the move changes nothing. -/
theorem alignBuffer_of_le (h : b.mReadPos ≤ b.mWritePos) :
    b.alignBuffer = { b with
      mBuffer := b.mBuffer.move 0 b.mReadPos (b.mWritePos - b.mReadPos)
      mReadPos := 0
      mWritePos := b.mWritePos - b.mReadPos } := by
  obtain ⟨m, size, r, w⟩ := b
  simp only [alignBuffer]
  split_ifs with h0 hlt heq
  · subst h0
    rw [Memory.move, Nat.sub_zero, Memory.write_slice_self]
  · rfl
  · subst heq
    rw [Memory.move, Nat.sub_self, Memory.slice_zero, Memory.write_nil]
  · exact absurd (Nat.le_antisymm h (Nat.not_lt.mp hlt)) heq

theorem unread_alignBuffer (h : b.mReadPos ≤ b.mWritePos) : b.alignBuffer.unread = b.unread := by
  rw [alignBuffer_of_le h]
  show (b.mBuffer.move 0 b.mReadPos (b.mWritePos - b.mReadPos)).slice 0
    (b.mWritePos - b.mReadPos - 0) = b.unread
  rw [Nat.sub_zero, Memory.move]
  exact Memory.slice_write_eq _ (by simp)

theorem writeData_of_room (h : b.mWritePos + data.length ≤ b.size) :
    b.writeData data = ({ b with
      mBuffer := b.mBuffer.write b.mWritePos data
      mWritePos := b.mWritePos + data.length }, true) := by
  rw [writeData, if_neg (by unfold getRemainSize; omega)]

theorem writeData_of_refuses (h : b.Refuses data.length) : b.writeData data = (b, false) := by
  rw [writeData, if_pos (by unfold getRemainSize; have := h.1; omega), if_pos h.2]

/-- Within the limit, `Write(data, size)` copies beyond the storage. -/
theorem writeData_of_overrun (hroom : b.size < b.mWritePos + data.length)
    (h : ¬b.Refuses data.length) : (b.writeData data).1.mWritePos = b.mWritePos + data.length := by
  rw [writeData, if_pos (by unfold getRemainSize; omega), if_neg (fun hmax => h ⟨hroom, hmax⟩)]

theorem write_of_refuses (h : b.Refuses n) (hle : b.mReadPos ≤ b.mWritePos) :
    b.write n = (b.alignBuffer, false) := by
  have hsize : b.alignBuffer.size = b.size := by rw [alignBuffer_of_le hle]
  rw [write, if_pos (by unfold getRemainSize; have := h.1; omega)]
  simp only [hsize]
  rw [if_pos h.2]

/-- Within the limit, `Write(int)` moves the unread bytes and takes the size, whatever room that
made. -/
theorem write_of_moved (hroom : b.size < b.mWritePos + n) (h : ¬b.Refuses n)
    (hle : b.mReadPos ≤ b.mWritePos) :
    b.write n = ({ b.alignBuffer with mWritePos := b.mWritePos - b.mReadPos + n }, true) := by
  have hsize : b.alignBuffer.size = b.size := by rw [alignBuffer_of_le hle]
  have hpos : b.alignBuffer.mWritePos = b.mWritePos - b.mReadPos := by rw [alignBuffer_of_le hle]
  rw [write, if_pos (by unfold getRemainSize; omega)]
  simp only [hsize, hpos]
  rw [if_neg (fun hmax => h ⟨hroom, hmax⟩)]

/-- What is unread after the move: the bytes behind the moved ones are where they were. -/
theorem unread_of_moved (hle : b.mReadPos ≤ b.mWritePos) :
    ({ b.alignBuffer with mWritePos := b.mWritePos - b.mReadPos + n } : Buffer).unread =
      b.unread ++ b.mBuffer.slice (b.mWritePos - b.mReadPos) n := by
  rw [alignBuffer_of_le hle]
  show (b.mBuffer.move 0 b.mReadPos (b.mWritePos - b.mReadPos)).slice 0
    (b.mWritePos - b.mReadPos + n - 0) = _
  rw [Nat.sub_zero, Memory.slice_add, Memory.move, Memory.slice_write_eq _ (by simp),
    Memory.slice_write_of_disjoint _ (Or.inr (by simp)), Nat.zero_add]
  rfl

end Buffer

/-! ### One operation -/

variable {s t : BufferState} {e : BufferEvent} {es : List BufferEvent} {data : List UInt8} {n : ℕ}

theorem bufferStep_eq_some :
    bufferStep s e = some t ↔ e.Allowed s.buffer ∧ t = s.next e := by
  rw [bufferStep, Option.ite_none_right_eq_some, Option.some.injEq, eq_comm (a := t)]

theorem BufferState.IsFifo.writeData_iff (hs : s.IsFifo) :
    (s.next (.writeData data)).IsFifo ↔ s.Fits (.writeData data) := by
  have hr := hs.readPos_le
  by_cases hroom : s.buffer.mWritePos + data.length ≤ s.buffer.size
  · refine iff_of_true ?_ (Or.inl hroom)
    simp only [next, BufferEvent.apply, Buffer.writeData_of_room hroom, BufferEvent.operation,
      BoundedFifo.apply, if_true]
    refine ⟨?_, hroom, hs.size_le, ?_, hs.cleared⟩
    · show s.buffer.mReadPos ≤ s.buffer.mWritePos + data.length
      omega
    · rw [Buffer.unread, Nat.sub_add_comm hr, Memory.slice_write_append _ (by simp only; omega),
        ← hs.unread]
      rfl
  · by_cases hrefuses : s.buffer.Refuses data.length
    · refine iff_of_true ?_ (Or.inr hrefuses)
      simp only [next, BufferEvent.apply, Buffer.writeData_of_refuses hrefuses,
        BufferEvent.operation, BoundedFifo.apply, Bool.false_eq_true, if_false]
      exact ⟨hr, hs.writePos_le, hs.size_le, hs.unread, hs.cleared⟩
    · refine iff_of_false (fun ht => hroom ?_) (by simp [Fits, hroom, hrefuses])
      have hover := Buffer.writeData_of_overrun (Nat.not_le.mp hroom) hrefuses
      have hsize : (s.buffer.writeData data).1.size = s.buffer.size := by
        rw [Buffer.writeData]
        split_ifs <;> rfl
      have hle : (s.buffer.writeData data).1.mWritePos ≤ (s.buffer.writeData data).1.size :=
        ht.writePos_le
      rwa [hover, hsize] at hle

theorem BufferState.IsFifo.writeSize_of_room (hs : s.IsFifo)
    (hroom : s.buffer.mWritePos + n ≤ s.buffer.size) : (s.next (.writeSize n)).IsFifo := by
  have hr := hs.readPos_le
  simp only [next, BufferEvent.apply, Buffer.write_of_room hroom, BufferEvent.operation,
    BoundedFifo.apply, if_true]
  refine ⟨?_, hroom, hs.size_le, ?_, hs.cleared⟩
  · show s.buffer.mReadPos ≤ s.buffer.mWritePos + n
    omega
  · have hend : s.buffer.mReadPos + (s.buffer.mWritePos - s.buffer.mReadPos) =
        s.buffer.mWritePos := by omega
    rw [Buffer.unread, Nat.sub_add_comm hr, Memory.slice_add, ← hs.unread]
    simp only [hend]
    rfl

theorem BufferState.IsFifo.writeSize_of_refuses (hs : s.IsFifo) (hrefuses : s.buffer.Refuses n) :
    (s.next (.writeSize n)).IsFifo := by
  have hr := hs.readPos_le
  have hw := hs.writePos_le
  simp only [next, BufferEvent.apply, Buffer.write_of_refuses hrefuses hr,
    BufferEvent.operation, BoundedFifo.apply, Bool.false_eq_true, if_false]
  refine ⟨?_, ?_, ?_, (Buffer.unread_alignBuffer hr).trans hs.unread, hs.cleared⟩
  · rw [Buffer.alignBuffer_of_le hr]
    exact Nat.zero_le _
  · rw [Buffer.alignBuffer_of_le hr]
    show s.buffer.mWritePos - s.buffer.mReadPos ≤ s.buffer.size
    omega
  · rw [Buffer.alignBuffer_of_le hr]
    exact hs.size_le

/-- Where the data is moved to the front, the bytes written are those behind the moved data. -/
theorem BufferState.IsFifo.writeSize_of_moved_iff (hs : s.IsFifo)
    (hroom : ¬s.buffer.mWritePos + n ≤ s.buffer.size) (hrefuses : ¬s.buffer.Refuses n) :
    (s.next (.writeSize n)).IsFifo ↔
      s.buffer.mWritePos - s.buffer.mReadPos + n ≤ s.buffer.size ∧
        s.buffer.mBuffer.slice (s.buffer.mWritePos - s.buffer.mReadPos) n =
          s.buffer.mBuffer.slice s.buffer.mWritePos n := by
  have hr := hs.readPos_le
  have hmoved := Buffer.write_of_moved (Nat.not_le.mp hroom) hrefuses hr
  have hbuffer : (s.next (.writeSize n)).buffer = { s.buffer.alignBuffer with
      mWritePos := s.buffer.mWritePos - s.buffer.mReadPos + n } := congrArg Prod.fst hmoved
  have hqueue : (s.next (.writeSize n)).queue =
      s.queue ++ s.buffer.mBuffer.slice s.buffer.mWritePos n := by
    simp only [next, BufferEvent.apply, hmoved, BufferEvent.operation, BoundedFifo.apply,
      if_true]
  have hsize : s.buffer.alignBuffer.size = s.buffer.size := by
    rw [Buffer.alignBuffer_of_le hr]
  have hzero : s.buffer.alignBuffer.mReadPos = 0 := by rw [Buffer.alignBuffer_of_le hr]
  constructor
  · intro ht
    have hle := ht.writePos_le
    have hunread := ht.unread
    rw [hbuffer] at hle hunread
    rw [Buffer.unread_of_moved hr, hqueue, hs.unread] at hunread
    exact ⟨hle.trans_eq hsize, List.append_cancel_left hunread⟩
  · rintro ⟨hle, hsame⟩
    refine ⟨?_, ?_, ?_, ?_, hs.cleared⟩
    · rw [hbuffer]
      exact hzero.trans_le (Nat.zero_le _)
    · rw [hbuffer]
      exact hle.trans_eq hsize.symm
    · rw [hbuffer]
      exact hsize.trans_le hs.size_le
    · rw [hbuffer, Buffer.unread_of_moved hr, hqueue, hs.unread, hsame]

theorem BufferState.IsFifo.writeSize_iff (hs : s.IsFifo) :
    (s.next (.writeSize n)).IsFifo ↔ s.Fits (.writeSize n) := by
  by_cases hroom : s.buffer.mWritePos + n ≤ s.buffer.size
  · exact iff_of_true (hs.writeSize_of_room hroom) (Or.inl hroom)
  · by_cases hrefuses : s.buffer.Refuses n
    · exact iff_of_true (hs.writeSize_of_refuses hrefuses) (Or.inr (Or.inl hrefuses))
    · rw [hs.writeSize_of_moved_iff hroom hrefuses]
      simp [Fits, hroom, hrefuses]

theorem BufferState.IsFifo.store (hs : s.IsFifo) : (s.next (.store data)).IsFifo := by
  have hr := hs.readPos_le
  refine ⟨hr, hs.writePos_le, hs.size_le, ?_, hs.cleared⟩
  show (s.buffer.mBuffer.write s.buffer.mWritePos data).slice s.buffer.mReadPos
    (s.buffer.mWritePos - s.buffer.mReadPos) = s.queue
  rw [Memory.slice_write_of_disjoint _ (Or.inl (by omega))]
  exact hs.unread

theorem BufferState.IsFifo.read (hs : s.IsFifo) (h : (n : ℤ) ≤ s.buffer.getDataSize) :
    (s.next (.read n)).IsFifo := by
  have hle : s.buffer.mReadPos + n ≤ s.buffer.mWritePos := by
    unfold Buffer.getDataSize at h
    omega
  have hlength : n ≤ s.queue.length := by
    rw [← hs.unread, Buffer.length_unread]
    omega
  have hqueue : (s.next (.read n)).queue = s.queue.drop n := by
    simp only [next, BufferEvent.operation, drop_of_le hlength]
  refine ⟨hle, hs.writePos_le, hs.size_le, ?_, hs.cleared⟩
  rw [hqueue, ← hs.unread, Buffer.unread, Buffer.unread, Memory.drop_slice, Nat.sub_sub]
  rfl

theorem BufferState.IsFifo.align (hs : s.IsFifo) : (s.next .alignBuffer).IsFifo := by
  have hr := hs.readPos_le
  have hw := hs.writePos_le
  have halign := Buffer.alignBuffer_of_le hr
  have hbuffer : (s.next .alignBuffer).buffer = s.buffer.alignBuffer := rfl
  refine ⟨?_, ?_, ?_, (Buffer.unread_alignBuffer hr).trans hs.unread, hs.cleared⟩
  · rw [hbuffer, halign]
    exact Nat.zero_le _
  · rw [hbuffer, halign]
    show s.buffer.mWritePos - s.buffer.mReadPos ≤ s.buffer.size
    omega
  · rw [hbuffer, halign]
    exact hs.size_le

/-- A cleared buffer offers no room. -/
theorem BufferState.not_isFifo_clear : ¬(s.next .clear).IsFifo := by
  intro ht
  have hroom := ht.cleared 0 (List.mem_append_right _ (List.mem_singleton_self _))
  exact absurd hroom (by decide)

theorem isFifo_next_iff (hs : s.IsFifo) (h : bufferStep s e = some t) :
    t.IsFifo ↔ s.Fits e := by
  obtain ⟨hallowed, rfl⟩ := bufferStep_eq_some.mp h
  cases e with
  | writeData data => exact hs.writeData_iff
  | store data => exact iff_of_true hs.store trivial
  | writeSize n => exact hs.writeSize_iff
  | read n => exact iff_of_true (hs.read hallowed) trivial
  | alignBuffer => exact iff_of_true hs.align trivial
  | clear => exact iff_of_false BufferState.not_isFifo_clear id

/-! ### A run -/

theorem BufferState.isFifo_start (mBuffer : Memory UInt8) : (start mBuffer).IsFifo :=
  ⟨Nat.le_refl _, Nat.zero_le _, (by decide : defaultBufferSize ≤ maxBufferSize), rfl,
    fun _ h => nomatch h⟩

/-- A buffer is a bounded queue of bytes throughout a run exactly where every `Write` finds room or
is refused, and `Clear` is not called. -/
theorem buffer_isFifo_iff_fits (mBuffer : Memory UInt8) (es : List BufferEvent) (s : BufferState)
    (h : run bufferStep (.start mBuffer) es = some s) :
    Throughout bufferStep BufferState.IsFifo (.start mBuffer) es ↔
      Meets bufferStep BufferState.Fits (.start mBuffer) es :=
  throughout_iff_meets (I := fun _ => True) (fun _ _ _ _ _ => trivial)
    (fun _ _ _ _ hs hst => isFifo_next_iff hs hst) trivial (BufferState.isFifo_start mBuffer) h

theorem buffer_isFifo_three :
    Throughout bufferStep BufferState.IsFifo (.start fun _ => 0)
      [.writeData [1, 2, 3], .read 1, .alignBuffer] := by
  refine (buffer_isFifo_iff_fits (fun _ => 0) [.writeData [1, 2, 3], .read 1, .alignBuffer] _
    rfl).mpr ?_
  rw [meets_cons rfl, meets_cons rfl, meets_cons rfl]
  exact ⟨Or.inl (by decide), trivial, trivial, meets_nil⟩

/-- A `Write` of one byte more than the storage holds is within the limit, and copies it behind the
storage. -/
theorem writeData_beyond_storage :
    ∃ s, run bufferStep (.start fun _ => 0) [.writeData (List.replicate 1025 0)] = some s ∧
      ¬Throughout bufferStep BufferState.IsFifo (.start fun _ => 0)
        [.writeData (List.replicate 1025 0)] := by
  have hstep : bufferStep (.start fun _ => 0) (.writeData (List.replicate 1025 0)) =
      some ((BufferState.start fun _ => 0).next (.writeData (List.replicate 1025 0))) :=
    if_pos trivial
  refine ⟨_, run_cons_eq_some.mpr ⟨_, hstep, rfl⟩, fun hall => ?_⟩
  have hfits := (isFifo_next_iff (BufferState.isFifo_start fun _ => 0) hstep).mp
    (hall.tail hstep).head
  simp only [BufferState.Fits, Buffer.Refuses, BufferState.start, List.length_replicate] at hfits
  revert hfits
  decide

end IocpStudy.SBServer
