import IocpStudy.Lib.BoundedFifo
import IocpStudy.Lib.Runs
import IocpStudy.StudyServer.NetworkContext

/-! `NetworkContext` as a queue of bytes with capacity 8096.  Its unread bytes are the queue, and
its operations are those of the queue, as long as `AlignBuffer` never finds unread bytes behind a
read position that is not 0. -/

namespace IocpStudy.StudyServer

open BoundedFifo Runs Words

/-- A call of one of the operations.  `alignBuffer` stands for a call of `GetWriteBuffer()` or of
`AlignBuffer()` alone, and `writeSize` for the bytes stored where `GetWriteBuffer()` points, the
write position, and a `Write(int)` for their number. -/
inductive ContextEvent
  | write (data : List UInt8)
  | writeSize (data : List UInt8)
  | read (n : ℕ)
  | readSpan (n : ℕ)
  | alignBuffer
  | reset
deriving Repr, DecidableEq

namespace ContextEvent

/-- What the event asks of a queue.  A `Write(int)` does not move bytes to make room, so whether it
is accepted depends on where the unread bytes are in the array. -/
def operation (c : NetworkContext) : ContextEvent → Operation UInt8
  | .write data => .push data
  | .writeSize data => .offer data (c.writeSize data.length).isSome
  | .read n => .drop n
  | .readSpan n => .take n
  | .alignBuffer => .keep
  | .reset => .clear

/-- The context after the event, and the bytes copied out of it, or `none` where the operation
returned false. -/
def apply (c : NetworkContext) : ContextEvent → NetworkContext × Option (List UInt8)
  | .write data =>
    match c.write data with
    | (c, true) => (c, some [])
    | (c, false) => (c, none)
  | .writeSize data =>
    let c := { c with mBuffer := c.mBuffer.write c.mWritePos data }
    match c.writeSize data.length with
    | some c => (c, some [])
    | none => (c, none)
  | .read n =>
    match c.read n with
    | some c => (c, some [])
    | none => (c, none)
  | .readSpan n =>
    match c.readSpan n with
    | some (c, bytes) => (c, some bytes)
    | none => (c, none)
  | .alignBuffer => (c.alignBuffer, some [])
  | .reset => (c.reset, some [])

/-- The event calls `AlignBuffer`. -/
def aligns (c : NetworkContext) : ContextEvent → Bool
  | .write data => sizeTOfInt c.getRemainSize < data.length
  | .alignBuffer => true
  | _ => false

end ContextEvent

/-- A context and a queue that are given the same operations; `agreed` says that they have given the
same answers. -/
structure FifoState where
  context : NetworkContext
  queue : List UInt8 := []
  agreed : Bool := true

def fifoStep (s : FifoState) (e : ContextEvent) : Option FifoState :=
  let (context, answer) := e.apply s.context
  let (queue, expected) := BoundedFifo.apply bufferSize s.queue (e.operation s.context)
  some { context, queue, agreed := s.agreed && decide (answer = expected) }

/-- The positions are in order and inside the array, the unread bytes are those in the queue, and
every operation so far returned what it returns for the queue. -/
structure FifoState.IsFifo (s : FifoState) : Prop where
  ordered : s.context.Ordered
  unread : s.context.unread = s.queue
  agreed : s.agreed = true

/-- `AlignBuffer`, where it is called, finds the read position at 0 or nothing unread. -/
def FifoState.AlignsFront (s : FifoState) (e : ContextEvent) : Prop :=
  e.aligns s.context = true → s.context.mReadPos = 0 ∨ s.context.unread = []

/-! ### `AlignBuffer` -/

variable {c : NetworkContext} {data : List UInt8} {n : ℕ}

/-- The write position is moved to the number of unread bytes, whatever becomes of the read
position. -/
theorem alignBuffer_writePos (c : NetworkContext) :
    c.alignBuffer.mWritePos = c.unread.length := by
  rw [NetworkContext.length_unread]
  by_cases h0 : c.mReadPos = 0
  · rw [NetworkContext.alignBuffer_of_front h0]
    omega
  · by_cases hlt : c.mReadPos < c.mWritePos
    · rw [NetworkContext.alignBuffer_of_lt h0 hlt]
    · rw [NetworkContext.alignBuffer_of_ge h0 (by omega), NetworkContext.resetBuffer_writePos]
      omega

theorem alignBuffer_of_read (hc : c.Ordered) (h : c.mReadPos = 0 ∨ c.unread = []) :
    c.alignBuffer.Ordered ∧ c.alignBuffer.unread = c.unread := by
  by_cases h0 : c.mReadPos = 0
  · rw [NetworkContext.alignBuffer_of_front h0]
    exact ⟨hc, rfl⟩
  · have hnone := h.resolve_left h0
    rw [NetworkContext.alignBuffer_of_ge h0 (NetworkContext.unread_eq_nil_iff.mp hnone)]
    exact ⟨.resetBuffer, hnone.symm ▸ rfl⟩

/-- Unread bytes behind a read position that is not 0 are moved, and the read position is not. -/
theorem alignBuffer_of_unread (h0 : c.mReadPos ≠ 0) (h : c.unread ≠ []) :
    c.alignBuffer.mReadPos = c.mReadPos := by
  have hlt : c.mReadPos < c.mWritePos := by
    rw [ne_eq, NetworkContext.unread_eq_nil_iff] at h
    omega
  rw [NetworkContext.alignBuffer_of_lt h0 hlt]

/-! ### The operations -/

namespace NetworkContext

/-- The context when `data` has been copied to the write position, with or without moving it. -/
def copied (c : NetworkContext) (data : List UInt8) (written : Bool) : NetworkContext :=
  { c with
    mBuffer := c.mBuffer.write c.mWritePos data
    mWritePos := if written then c.mWritePos + data.length else c.mWritePos }

theorem Ordered.copied (hc : c.Ordered) (h : c.mWritePos + data.length ≤ bufferSize) :
    (c.copied data true).Ordered ∧ (c.copied data true).unread = c.unread ++ data := by
  have hr := hc.readPos_le
  refine ⟨⟨?_, h⟩, ?_⟩
  · simp only [NetworkContext.copied, if_true]
    omega
  · simp only [NetworkContext.copied, unread, if_true]
    rw [Nat.sub_add_comm hr, Memory.slice_write_append _ (by omega)]

theorem Ordered.stored (hc : c.Ordered) (data : List UInt8) :
    (c.copied data false).Ordered ∧ (c.copied data false).unread = c.unread := by
  have hr := hc.readPos_le
  refine ⟨⟨hc.readPos_le, hc.writePos_le⟩, ?_⟩
  simp only [NetworkContext.copied, unread, Bool.false_eq_true, if_false]
  exact Memory.slice_write_of_disjoint _ (Or.inl (by omega))

end NetworkContext

theorem writeSize_event_of_le (h : c.mWritePos + data.length ≤ bufferSize) :
    (ContextEvent.writeSize data).apply c = (c.copied data true, some []) ∧
      (ContextEvent.writeSize data).operation c = .offer data true := by
  have hsize {b : Memory UInt8} : NetworkContext.writeSize { c with mBuffer := b } data.length =
      some { c with mBuffer := b, mWritePos := c.mWritePos + data.length } :=
    NetworkContext.writeSize_of_le h
  simp only [ContextEvent.apply, ContextEvent.operation, hsize]
  exact ⟨rfl, rfl⟩

theorem writeSize_event_of_lt (h : bufferSize < c.mWritePos + data.length) :
    (ContextEvent.writeSize data).apply c = (c.copied data false, none) ∧
      (ContextEvent.writeSize data).operation c = .offer data false := by
  have hsize {b : Memory UInt8} :
      NetworkContext.writeSize { c with mBuffer := b } data.length = none := by
    rw [NetworkContext.writeSize, if_pos (by unfold NetworkContext.getRemainSize; simp only; omega)]
  simp only [ContextEvent.apply, ContextEvent.operation, hsize]
  exact ⟨rfl, rfl⟩

theorem write_event_of_room (hc : c.Ordered) (h : c.mWritePos + data.length ≤ bufferSize) :
    ContextEvent.apply c (.write data) = (c.copied data true, some []) := by
  have hw := hc.writePos_le
  simp only [ContextEvent.apply, NetworkContext.write, hc.sizeTOfInt_remain]
  rw [if_neg (by omega)]
  rfl

/-- `Write` with too little room behind the write position aligns the buffer first. -/
theorem write_event_of_full (hc : c.Ordered) (h : bufferSize < c.mWritePos + data.length) :
    ContextEvent.apply c (.write data) =
      if c.unread.length + data.length ≤ bufferSize then
        (c.alignBuffer.copied data true, some [])
      else (c.alignBuffer, none) := by
  have hw := hc.writePos_le
  have haligned := alignBuffer_writePos c
  have hle := NetworkContext.alignBuffer_writePos_le (c := c)
  simp only [ContextEvent.apply, NetworkContext.write, hc.sizeTOfInt_remain,
    NetworkContext.sizeTOfInt_remain_of_le (hle.trans hw)]
  rw [if_pos (by omega)]
  by_cases hfit : c.unread.length + data.length ≤ bufferSize
  · rw [if_neg (by omega), if_pos hfit]
    rfl
  · rw [if_pos (by omega), if_neg hfit]

theorem write_aligns_iff (hc : c.Ordered) :
    (ContextEvent.write data).aligns c = true ↔ bufferSize < c.mWritePos + data.length := by
  have hw := hc.writePos_le
  simp only [ContextEvent.aligns, hc.sizeTOfInt_remain, decide_eq_true_eq]
  omega

variable {s t : FifoState} {e : ContextEvent} {es : List ContextEvent}

/-- Where `AlignBuffer` finds the read position at 0 or nothing unread, the operation is that of the
queue of the unread bytes. -/
theorem apply_refines (hc : c.Ordered)
    (hfront : e.aligns c = true → c.mReadPos = 0 ∨ c.unread = []) :
    (e.apply c).1.Ordered ∧
      ((e.apply c).1.unread, (e.apply c).2) =
        BoundedFifo.apply bufferSize c.unread (e.operation c) := by
  cases e with
  | write data =>
    by_cases hroom : c.mWritePos + data.length ≤ bufferSize
    · obtain ⟨hordered, hunread⟩ := hc.copied hroom
      rw [write_event_of_room hc hroom, ContextEvent.operation,
        push_of_le (by rw [NetworkContext.length_unread]; omega)]
      exact ⟨hordered, congrArg (·, some []) hunread⟩
    · have hfull : bufferSize < c.mWritePos + data.length := by omega
      obtain ⟨haligned, hsame⟩ := alignBuffer_of_read hc (hfront ((write_aligns_iff hc).mpr hfull))
      rw [write_event_of_full hc hfull, ContextEvent.operation, BoundedFifo.apply]
      split_ifs with hfit
      · have hroom' : c.alignBuffer.mWritePos + data.length ≤ bufferSize := by
          rw [alignBuffer_writePos]
          exact hfit
        obtain ⟨hordered, hunread⟩ := haligned.copied hroom'
        exact ⟨hordered, congrArg (·, some []) (hunread.trans (by rw [hsame]))⟩
      · exact ⟨haligned, congrArg (·, none) hsame⟩
  | writeSize data =>
    by_cases hroom : c.mWritePos + data.length ≤ bufferSize
    · obtain ⟨hordered, hunread⟩ := hc.copied hroom
      obtain ⟨happly, hoffer⟩ := writeSize_event_of_le hroom
      rw [happly, hoffer]
      exact ⟨hordered, congrArg (·, some []) hunread⟩
    · obtain ⟨hordered, hunread⟩ := hc.stored data
      obtain ⟨happly, hoffer⟩ := writeSize_event_of_lt (Nat.not_le.mp hroom)
      rw [happly, hoffer]
      exact ⟨hordered, congrArg (·, none) hunread⟩
  | read n =>
    have hlen : c.unread.length = c.mWritePos - c.mReadPos := NetworkContext.length_unread
    have hr := hc.readPos_le
    simp only [ContextEvent.apply, ContextEvent.operation]
    by_cases hn : c.mReadPos + n ≤ c.mWritePos
    · have hread := NetworkContext.read_of_le hn
      rw [drop_of_le (by omega), ← NetworkContext.unread_read hread]
      simp only [hread]
      exact ⟨hc.read hread, trivial⟩
    · rw [drop_of_lt (by omega), NetworkContext.read_of_lt (by omega)]
      exact ⟨hc, rfl⟩
  | readSpan n =>
    have hlen : c.unread.length = c.mWritePos - c.mReadPos := NetworkContext.length_unread
    have hr := hc.readPos_le
    simp only [ContextEvent.apply, ContextEvent.operation, NetworkContext.readSpan,
      hc.sizeTOfInt_data]
    by_cases hn : n ≤ c.unread.length
    · rw [take_of_le hn, if_neg (by omega)]
      refine ⟨⟨by simp only; omega, hc.writePos_le⟩, ?_⟩
      rw [NetworkContext.unread, NetworkContext.unread, Memory.drop_slice, Nat.sub_sub,
        Memory.take_slice _ (hlen ▸ hn)]
    · rw [take_of_lt (by omega), if_pos (by omega)]
      exact ⟨hc, rfl⟩
  | alignBuffer =>
    obtain ⟨hordered, hunread⟩ := alignBuffer_of_read hc (hfront rfl)
    exact ⟨hordered, congrArg (·, some []) hunread⟩
  | reset => exact ⟨.resetBuffer, rfl⟩

/-- An operation that aligns the buffer leaves the write position at the length of the queue, and
the read position where `AlignBuffer` left it. -/
theorem aligning_positions (hc : c.Ordered) (halign : e.aligns c = true) :
    (e.apply c).1.mReadPos = c.alignBuffer.mReadPos ∧
      (e.apply c).1.mWritePos =
        (BoundedFifo.apply bufferSize c.unread (e.operation c)).1.length := by
  have hw := alignBuffer_writePos c
  cases e with
  | write data =>
    rw [write_event_of_full hc ((write_aligns_iff hc).mp halign), ContextEvent.operation,
      BoundedFifo.apply]
    split_ifs with hfit
    · exact ⟨rfl, by rw [NetworkContext.copied, List.length_append, ← hw]; rfl⟩
    · exact ⟨rfl, hw⟩
  | alignBuffer => exact ⟨rfl, hw⟩
  | writeSize data => cases halign
  | read n => cases halign
  | readSpan n => cases halign
  | reset => cases halign

/-- An operation that aligns the buffer does not take bytes out of the queue. -/
theorem aligning_length (halign : e.aligns c = true) :
    c.unread.length ≤ (BoundedFifo.apply bufferSize c.unread (e.operation c)).1.length := by
  cases e with
  | write data => exact length_le_push
  | alignBuffer => exact le_refl _
  | writeSize data => cases halign
  | read n => cases halign
  | readSpan n => cases halign
  | reset => cases halign

/-- Where `AlignBuffer` finds unread bytes behind a read position that is not 0, fewer bytes are
unread afterwards than are in the queue. -/
theorem apply_of_unread (hc : c.Ordered) (halign : e.aligns c = true) (h0 : c.mReadPos ≠ 0)
    (h : c.unread ≠ []) :
    (e.apply c).1.unread ≠ (BoundedFifo.apply bufferSize c.unread (e.operation c)).1 := by
  obtain ⟨hr, hw⟩ := aligning_positions hc halign
  have hkept := aligning_length halign
  have hsome := List.length_pos_iff.mpr h
  intro heq
  have hlen := congrArg List.length heq
  rw [NetworkContext.length_unread, hr, alignBuffer_of_unread h0 h, hw] at hlen
  omega

/-! ### Runs -/

theorem isFifo_step_iff (hs : s.IsFifo) (h : fifoStep s e = some t) :
    t.IsFifo ↔ s.AlignsFront e := by
  obtain rfl := Option.some.inj h
  constructor
  · intro ht halign
    by_contra hbehind
    rw [not_or] at hbehind
    apply apply_of_unread hs.ordered halign hbehind.1 hbehind.2
    rw [hs.unread]
    exact ht.unread
  · intro hfront
    obtain ⟨hordered, hboth⟩ := apply_refines hs.ordered hfront
    rw [hs.unread, Prod.ext_iff] at hboth
    refine ⟨hordered, hboth.1, ?_⟩
    exact Bool.and_eq_true_iff.mpr ⟨hs.agreed, decide_eq_true hboth.2⟩

/-- A context that has just been constructed, with whatever is behind its array, and an empty
queue. -/
def FifoState.start (mBuffer : Memory UInt8) : FifoState := { context := { mBuffer } }

/-- The context is a queue of bytes throughout a run exactly where every call of `AlignBuffer` finds
the read position at 0 or nothing unread. -/
theorem isFifo_iff_alignsFront (mBuffer : Memory UInt8) (es : List ContextEvent) :
    Throughout fifoStep FifoState.IsFifo (.start mBuffer) es ↔
      Meets fifoStep FifoState.AlignsFront (.start mBuffer) es := by
  have hgoes : ∀ s e, ∃ t, fifoStep s e = some t := fun _ _ => ⟨_, rfl⟩
  obtain ⟨t, ht⟩ := exists_run hgoes (.start mBuffer) es
  have hstart : (FifoState.start mBuffer).IsFifo := ⟨⟨le_refl _, Nat.zero_le _⟩, rfl, rfl⟩
  exact throughout_iff_meets (I := fun _ => True) (fun _ _ _ _ _ => trivial)
    (fun _ _ _ _ hs hst => isFifo_step_iff hs hst) trivial hstart ht

/-- The first byte of four is read, and then `AlignBuffer` is called: two bytes are left of the
three that have not been read. -/
theorem isFifo_fails_on_align :
    ¬ Throughout fifoStep FifoState.IsFifo (.start fun _ => 0)
      [.write [1, 2, 3, 4], .read 1, .alignBuffer] := by
  intro h
  have hunread := (h _ (List.prefix_refl _) _ rfl).unread
  exact absurd (congrArg List.length hunread) (by decide)

end IocpStudy.StudyServer
