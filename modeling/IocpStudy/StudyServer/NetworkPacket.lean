import IocpStudy.Lib.Memory
import IocpStudy.Lib.Words

/-! StudyServer's packets, in memory (`Packet`) and on the wire (`NetworkPacket`, a packed header of
three little-endian words and the body), and the pool that `Packet` objects are reused through. -/

namespace IocpStudy.StudyServer

open Words

/-- An accepted socket.  Sockets are numbered in the order of their creation, so a socket also
names the connection that it was accepted for. -/
abbrev Socket := ℕ

/-- The size of `Packet::Body` and of `NetworkPacket::Body`. -/
def bodyCapacity : ℕ := 8192

/-- `sizeof(NetworkPacket::PacketHeader)`. -/
def headerSize : ℕ := 12

/-- `Packet`.  `receivedOn` is no member of the source: it is the connection that the packet, or
the packet it answers, was received on, and no function but the ones that record it looks at it. -/
structure Packet where
  BodyLength : UInt32 := 0
  PacketID : UInt32 := 0
  SessionID : UInt32 := 0
  Body : Memory UInt8 := fun _ => 0
  receivedOn : Option Socket := none

/-- The body that `BodyLength` announces. -/
def Packet.body (p : Packet) : List UInt8 := p.Body.slice 0 p.BodyLength.toNat

structure PacketHeader where
  BodyLength : UInt32 := 0
  PacketID : UInt32 := 0
  SessionID : UInt32 := 0
deriving Repr, DecidableEq

def PacketHeader.bytes (h : PacketHeader) : List UInt8 :=
  bytesOfU32 h.BodyLength ++ (bytesOfU32 h.PacketID ++ bytesOfU32 h.SessionID)

/-- The header that `headerSize` bytes are read as. -/
def PacketHeader.ofBytes (bs : List UInt8) : PacketHeader :=
  { BodyLength := readU32 bs
    PacketID := readU32 (bs.drop 4)
    SessionID := readU32 (bs.drop 8) }

@[simp] theorem PacketHeader.length_bytes (h : PacketHeader) : h.bytes.length = headerSize := by
  simp [PacketHeader.bytes, headerSize]

@[simp] theorem PacketHeader.ofBytes_bytes (h : PacketHeader) :
    PacketHeader.ofBytes h.bytes = h := by
  have h4 : h.bytes.drop 4 = bytesOfU32 h.PacketID ++ bytesOfU32 h.SessionID := by
    rw [PacketHeader.bytes, List.drop_left' (length_bytesOfU32 _)]
  have h8 : h.bytes.drop 8 = bytesOfU32 h.SessionID ++ [] := by
    rw [show (8 : ℕ) = 4 + 4 from rfl, ← List.drop_drop, h4, List.drop_left' (length_bytesOfU32 _),
      List.append_nil]
  simp only [PacketHeader.ofBytes, h4, h8, readU32_bytesOfU32]
  simp only [PacketHeader.bytes, readU32_bytesOfU32]

structure NetworkPacket where
  Header : PacketHeader := {}
  Body : Memory UInt8 := fun _ => 0

namespace NetworkPacket

def getBodySize (p : NetworkPacket) : ℕ := p.Header.BodyLength.toNat

def getPacketSize (p : NetworkPacket) : ℕ := headerSize + p.getBodySize

/-- The memory that a `NetworkPacket`, a packed structure, occupies. -/
def memory (p : NetworkPacket) : Memory UInt8 :=
  Memory.write (fun i => p.Body (i - headerSize)) 0 p.Header.bytes

theorem memory_slice (p : NetworkPacket) (n : ℕ) :
    p.memory.slice 0 (headerSize + n) = p.Header.bytes ++ p.Body.slice 0 n := by
  rw [Memory.slice_add, memory, Memory.slice_write_eq _ p.Header.length_bytes.symm,
    Memory.slice_write_of_disjoint _ (Or.inr (by simp))]
  congr 1
  apply Memory.slice_congr
  intro i _
  simp

end NetworkPacket

/-- `MemoryPool<T>`: the objects that wait for their next use, the last one to be handed out
first. -/
structure MemoryPool (T : Type) where
  pool_ : List T

namespace MemoryPool

variable {T : Type}

/-- `Acquire`.  `fresh` is the object that `make_unique` creates when the pool is empty. -/
def acquire (p : MemoryPool T) (fresh : T) : T × MemoryPool T :=
  let pool := if p.pool_.isEmpty then p.pool_ ++ [fresh] else p.pool_
  (pool.getLastD fresh, ⟨pool.dropLast⟩)

/-- `Release`, which the deleter of an acquired object calls. -/
def release (p : MemoryPool T) (ptr : T) : MemoryPool T := ⟨p.pool_ ++ [ptr]⟩

end MemoryPool

end IocpStudy.StudyServer
