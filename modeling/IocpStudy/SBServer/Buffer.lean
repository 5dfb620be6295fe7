import IocpStudy.Lib.Memory
import IocpStudy.Lib.Words

/-! SBServer's `Buffer`, the `NetworkContext` that holds one, and the packets, on the wire
(`RawPacket`) and in the packet queue (`Packet`).  `Clear` empties the vector under the buffer, so a
cleared buffer has no room, and nothing makes room again. -/

namespace IocpStudy.SBServer

open Words

/-- `MAX_BUFFER_SIZE`. -/
def maxBufferSize : ℕ := 8192

/-- `DEFAULT_BUFFER_SIZE`. -/
def defaultBufferSize : ℕ := 1024

/-- `MAX_PACKET_SIZE`, the size of `Packet::mData`. -/
def maxPacketSize : ℕ := 1024

/-- `sizeof(RawPacket::Header)`. -/
def headerSize : ℕ := 4

/-- `mBuffer` is the memory from `mBuffer.data()` on, and `size` is `mBuffer.size()`. -/
structure Buffer where
  mBuffer : Memory UInt8
  size : ℕ := defaultBufferSize
  mReadPos : ℕ := 0
  mWritePos : ℕ := 0

namespace Buffer

def clear (b : Buffer) : Buffer := { b with size := 0, mReadPos := 0, mWritePos := 0 }

def getRemainSize (b : Buffer) : ℤ := b.size - b.mWritePos

def getDataSize (b : Buffer) : ℤ := b.mWritePos - b.mReadPos

def alignBuffer (b : Buffer) : Buffer :=
  if b.mReadPos = 0 then b
  else if b.mReadPos < b.mWritePos then
    { b with
      mBuffer := b.mBuffer.move 0 b.mReadPos (b.mWritePos - b.mReadPos)
      mWritePos := b.mWritePos - b.mReadPos
      mReadPos := 0 }
  else if b.mReadPos = b.mWritePos then { b with mReadPos := 0, mWritePos := 0 }
  else b

/-- `Write(const char* data, int size)`, with `data` the bytes behind the pointer. -/
def writeData (b : Buffer) (data : List UInt8) : Buffer × Bool :=
  let copy : Buffer × Bool :=
    ({ b with
      mBuffer := b.mBuffer.write b.mWritePos data
      mWritePos := b.mWritePos + data.length }, true)
  if b.getRemainSize < data.length then
    if maxBufferSize < b.size + data.length then (b, false) else copy
  else copy

/-- `Write(int size)`, for bytes that are already at the write position. -/
def write (b : Buffer) (size : ℕ) : Buffer × Bool :=
  if b.getRemainSize < size then
    let b := b.alignBuffer
    if maxBufferSize < b.size + size then (b, false)
    else ({ b with mWritePos := b.mWritePos + size }, true)
  else ({ b with mWritePos := b.mWritePos + size }, true)

def read (b : Buffer) (size : ℕ) : Buffer × Bool := ({ b with mReadPos := b.mReadPos + size }, true)

/-- The bytes written and not yet read. -/
def unread (b : Buffer) : List UInt8 := b.mBuffer.slice b.mReadPos (b.mWritePos - b.mReadPos)

/-- The buffer when the operating system has stored `bytes` at `GetWriteBuffer()`. -/
def store (b : Buffer) (bytes : List UInt8) : Buffer :=
  { b with mBuffer := b.mBuffer.write b.mWritePos bytes }

end Buffer

inductive ContextType
  | NONE
  | ACCEPT
  | CONNECT
  | SEND
  | RECEIVE
deriving Repr, DecidableEq

structure NetworkContext where
  Index : ℕ
  mBuffer : Buffer
  mContextType : ContextType := .NONE

namespace NetworkContext

def reset (c : NetworkContext) : NetworkContext := { c with mBuffer := c.mBuffer.clear }

def setContextType (c : NetworkContext) (contextType : ContextType) : NetworkContext :=
  { c with mContextType := contextType }

end NetworkContext

/-- The number of a `ContextType`. -/
def ContextType.value : ContextType → UInt32
  | NONE => 0
  | ACCEPT => 1
  | CONNECT => 2
  | SEND => 3
  | RECEIVE => 4

/-- Where the `OVERLAPPED` base lies in a `NetworkContext`, behind the pointer to the table of its
virtual functions. -/
def overlappedOffset : ℕ := 8

/-- Where `mContextType` lies, behind the 32 bytes of the base, `Index` and `mBuffer`. -/
def contextTypeOffset : ℕ := 56

/-- `sizeof(NetworkContext)`. -/
def networkContextSize : ℕ := 64

/-- `RawPacket::Header`. -/
structure Header where
  mBodySize : UInt16
  mPacketID : UInt16
deriving Repr, DecidableEq

/-- `RawPacket`, which the source overlays on the received bytes.  Its `mBody` is a pointer, so the
address that a reader of the packet follows is made of the eight bytes behind the header. -/
structure RawPacket where
  mHeader : Header
  mBody : ℕ
deriving Repr, DecidableEq

/-- The packet at `GetReadBuffer()`. -/
def Buffer.rawPacket (b : Buffer) : RawPacket :=
  { mHeader :=
      { mBodySize := readU16 (b.mBuffer.slice b.mReadPos 2)
        mPacketID := readU16 (b.mBuffer.slice (b.mReadPos + 2) 2) }
    mBody := ofLeBytes (b.mBuffer.slice (b.mReadPos + headerSize) 8) }

/-- `Packet`, a zeroed one that `PushPacket` fills. -/
structure Packet where
  mSessionID : ℕ
  mPacketID : UInt16
  mDataSize : UInt16
  mDataIndex : ℕ
  mData : Memory UInt8 := fun _ => 0

/-- The `memcpy` of `size` bytes from the address `src` to `Packet::mData`.  `memory` is what the
process can read.  The copy has no result where it overruns `mData` or reads an address that is not
mapped, and what the program does from there is undefined. -/
def copyBody (memory : Memory (Option UInt8)) (src size : ℕ) : Option (List UInt8) :=
  let cells := memory.slice src size
  if size ≤ maxPacketSize ∧ cells.all Option.isSome then some (cells.map fun cell => cell.getD 0)
  else none

/-! ### The buffer of a receive -/

variable {b : Buffer} {n : ℕ}

theorem Buffer.write_of_room (h : b.mWritePos + n ≤ b.size) :
    b.write n = ({ b with mWritePos := b.mWritePos + n }, true) := by
  rw [Buffer.write, if_neg (by unfold Buffer.getRemainSize; omega)]

@[simp] theorem copyBody_zero (memory : Memory (Option UInt8)) (src : ℕ) :
    copyBody memory src 0 = some [] := rfl

theorem length_of_copyBody {memory : Memory (Option UInt8)} {src size : ℕ} {data : List UInt8}
    (h : copyBody memory src size = some data) : data.length = size := by
  simp only [copyBody] at h
  split_ifs at h
  obtain rfl := Option.some.inj h
  simp

end IocpStudy.SBServer
