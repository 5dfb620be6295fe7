import IocpStudy.Lib.Memory
import IocpStudy.Lib.Words

/-! `User`: the packet buffer that ChatServer keeps for each client index.  `SetPacketData` appends
received bytes and starts over at the front of the buffer where they would reach its end, and
`GetPacket` takes the frame at the read position. -/

namespace IocpStudy.ChatServer

open Words

/-- `PACKET_DATA_BUFFER_SIZE`. -/
def packetDataBufferSize : ℕ := 8096

/-- `pPacketData` is a position in the packet buffer of the user `ClientIndex`. -/
structure PacketInfo where
  ClientIndex : ℕ := 0
  PacketID : UInt16 := 0
  DataSize : UInt16 := 0
  pPacketData : Option ℕ := none
deriving Repr, DecidableEq

inductive DomainState
  | NONE
  | LOGIN
  | ROOM
deriving Repr, DecidableEq

/-- `mUserID` holds the bytes of the string.  `mPacketDataBuffer` is the memory from the start of
the buffer on. -/
structure User where
  mIndex : ℤ := -1
  mRoomIndex : ℤ := -1
  mDomainState : DomainState := .NONE
  mUserID : List UInt8 := []
  mIsConfirm : Bool := false
  mPacketDataBuffer : Memory UInt8
  mPacketDataBufferWritePos : ℕ := 0
  mPacketDataBufferReadPos : ℕ := 0

namespace User

def clear (u : User) : User :=
  { u with
    mRoomIndex := -1
    mUserID := []
    mIsConfirm := false
    mDomainState := .NONE
    mPacketDataBufferWritePos := 0
    mPacketDataBufferReadPos := 0 }

/-- `SetLogin`, with the bytes of the string. -/
def setLogin (u : User) (userID : List UInt8) : User :=
  { u with mDomainState := .LOGIN, mUserID := userID }

/-- The data of a chunk of `dataSize` bytes would reach the end of the buffer. -/
def wraps (u : User) (dataSize : ℕ) : Bool :=
  packetDataBufferSize ≤ addU32 u.mPacketDataBufferWritePos dataSize

/-- `SetPacketData(dataSize, pData)`, with `pData` the bytes behind the pointer. -/
def setPacketData (u : User) (pData : List UInt8) : User :=
  let u :=
    if u.wraps pData.length then
      let remainSize := subU32 packetDataBufferSize u.mPacketDataBufferWritePos
      -- What is copied lies behind the write position: it is not the unread data.
      { u with
        mPacketDataBuffer :=
          if 0 < remainSize then
            u.mPacketDataBuffer.move 0 u.mPacketDataBufferWritePos remainSize
          else u.mPacketDataBuffer
        mPacketDataBufferWritePos := 0
        mPacketDataBufferReadPos := 0 }
    else u
  { u with
    mPacketDataBuffer := u.mPacketDataBuffer.write u.mPacketDataBufferWritePos pData
    mPacketDataBufferWritePos := addU32 u.mPacketDataBufferWritePos pData.length }

def getPacket (u : User) : PacketInfo × User :=
  let remainSize := subU32 u.mPacketDataBufferWritePos u.mPacketDataBufferReadPos
  if remainSize < 2 then ({}, u)
  else
    let packetLength := readU16 (u.mPacketDataBuffer.slice u.mPacketDataBufferReadPos 2)
    let packetID := readU16 (u.mPacketDataBuffer.slice (u.mPacketDataBufferReadPos + 2) 2)
    if remainSize < packetLength.toNat then ({}, u)
    else
      ({ PacketID := packetID
         DataSize := packetLength
         pPacketData := some u.mPacketDataBufferReadPos },
        { u with mPacketDataBufferReadPos :=
            addU32 u.mPacketDataBufferReadPos packetLength.toNat })

/-- The bytes received and not yet taken. -/
def unread (u : User) : List UInt8 :=
  u.mPacketDataBuffer.slice u.mPacketDataBufferReadPos
    (u.mPacketDataBufferWritePos - u.mPacketDataBufferReadPos)

/-- The bytes that a packet of this user points to. -/
def packetData (u : User) (p : PacketInfo) : List UInt8 :=
  match p.pPacketData with
  | none => []
  | some pos => u.mPacketDataBuffer.slice pos p.DataSize.toNat

/-- The positions are in order, with the write position inside the buffer. -/
structure Ordered (u : User) : Prop where
  readPos_le : u.mPacketDataBufferReadPos ≤ u.mPacketDataBufferWritePos
  writePos_lt : u.mPacketDataBufferWritePos < packetDataBufferSize

variable {u : User} {pData : List UInt8}

theorem Ordered.clear : u.clear.Ordered := ⟨le_refl _, Nat.succ_pos 8095⟩

@[simp] theorem length_unread :
    u.unread.length = u.mPacketDataBufferWritePos - u.mPacketDataBufferReadPos := by
  simp [unread]

theorem wraps_iff (hu : u.Ordered) (hsize : pData.length ≤ 256) :
    u.wraps pData.length = true ↔
      packetDataBufferSize ≤ u.mPacketDataBufferWritePos + pData.length := by
  have hw := hu.writePos_lt
  unfold packetDataBufferSize at hw
  rw [wraps, decide_eq_true_iff, addU32_eq (by omega)]

theorem setPacketData_of_fits (hu : u.Ordered) (hsize : pData.length ≤ 256)
    (hfits : u.wraps pData.length = false) :
    u.setPacketData pData = { u with
      mPacketDataBuffer := u.mPacketDataBuffer.write u.mPacketDataBufferWritePos pData
      mPacketDataBufferWritePos := u.mPacketDataBufferWritePos + pData.length } := by
  have hw := hu.writePos_lt
  unfold packetDataBufferSize at hw
  simp only [setPacketData, hfits, Bool.false_eq_true, if_false]
  rw [addU32_eq (by omega)]

/-- Where a chunk wraps, the buffer holds that chunk and no unread byte from before. -/
theorem setPacketData_of_wraps (hsize : pData.length ≤ 256) (hwraps : u.wraps pData.length = true) :
    ∃ m : Memory UInt8, u.setPacketData pData = { u with
      mPacketDataBuffer := m.write 0 pData
      mPacketDataBufferWritePos := pData.length
      mPacketDataBufferReadPos := 0 } := by
  simp only [setPacketData, hwraps, if_true]
  rw [addU32_eq (by omega), Nat.zero_add]
  exact ⟨_, rfl⟩

theorem Ordered.setPacketData (hu : u.Ordered) (hsize : pData.length ≤ 256) :
    (u.setPacketData pData).Ordered := by
  have hr := hu.readPos_le
  rcases hwraps : u.wraps pData.length with - | -
  · have hfit : ¬packetDataBufferSize ≤ u.mPacketDataBufferWritePos + pData.length := by
      rw [← wraps_iff hu hsize, hwraps]
      exact Bool.false_ne_true
    rw [setPacketData_of_fits hu hsize hwraps]
    exact ⟨by simp only; omega, by simp only; omega⟩
  · obtain ⟨m, hm⟩ := setPacketData_of_wraps hsize hwraps
    rw [hm]
    exact ⟨Nat.zero_le _, by simp only [packetDataBufferSize]; omega⟩

theorem unread_setPacketData_of_fits (hu : u.Ordered) (hsize : pData.length ≤ 256)
    (hfits : u.wraps pData.length = false) :
    (u.setPacketData pData).unread = u.unread ++ pData := by
  have hr := hu.readPos_le
  rw [setPacketData_of_fits hu hsize hfits, unread, unread]
  simp only
  rw [Nat.sub_add_comm hr, Memory.slice_write_append _ (by omega)]

theorem unread_setPacketData_of_wraps (hsize : pData.length ≤ 256)
    (hwraps : u.wraps pData.length = true) : (u.setPacketData pData).unread = pData := by
  obtain ⟨m, hm⟩ := setPacketData_of_wraps hsize hwraps
  rw [hm, unread]
  simp only
  exact Memory.slice_write_eq _ (Nat.sub_zero _)

/-- The length that the unread bytes announce for their first frame. -/
def frameLength (u : User) : ℕ := (readU16 u.unread).toNat

theorem subU32_positions (hu : u.Ordered) :
    subU32 u.mPacketDataBufferWritePos u.mPacketDataBufferReadPos = u.unread.length := by
  have hw := hu.writePos_lt
  unfold packetDataBufferSize at hw
  rw [length_unread, subU32_eq hu.readPos_le (by omega)]

theorem readU16_slice (h : 2 ≤ u.unread.length) :
    readU16 (u.mPacketDataBuffer.slice u.mPacketDataBufferReadPos 2) = readU16 u.unread := by
  rw [length_unread] at h
  rw [readU16, readU16, unread, Memory.take_slice _ h, Memory.take_slice _ (le_refl 2)]

/-- Where a whole header has been received, the ID is read from it. -/
theorem readU16_slice_id (h : 4 ≤ u.unread.length) :
    readU16 (u.mPacketDataBuffer.slice (u.mPacketDataBufferReadPos + 2) 2) =
      readU16 (u.unread.drop 2) := by
  rw [length_unread] at h
  rw [readU16, readU16, unread, Memory.drop_slice, Memory.take_slice _ (le_refl 2),
    Memory.take_slice _ (by omega)]

theorem slice_readPos {n : ℕ} (h : n ≤ u.unread.length) :
    u.mPacketDataBuffer.slice u.mPacketDataBufferReadPos n = u.unread.take n := by
  rw [unread, Memory.take_slice _ (by simpa using h)]

theorem getPacket_of_short (hu : u.Ordered)
    (hshort : u.unread.length < 2 ∨ u.unread.length < u.frameLength) :
    u.getPacket = ({}, u) := by
  simp only [getPacket, subU32_positions hu]
  by_cases h2 : u.unread.length < 2
  · rw [if_pos h2]
  · rw [if_neg h2, readU16_slice (by omega)]
    exact if_pos (hshort.resolve_left h2)

theorem getPacket_of_whole (hu : u.Ordered) (h2 : 2 ≤ u.unread.length)
    (hwhole : u.frameLength ≤ u.unread.length) :
    u.getPacket =
      ({ PacketID := readU16 (u.mPacketDataBuffer.slice (u.mPacketDataBufferReadPos + 2) 2)
         DataSize := readU16 u.unread
         pPacketData := some u.mPacketDataBufferReadPos },
        { u with mPacketDataBufferReadPos := u.mPacketDataBufferReadPos + u.frameLength }) := by
  have hr := hu.readPos_le
  have hw := hu.writePos_lt
  unfold packetDataBufferSize at hw
  have hlength := length_unread (u := u)
  have hadd : addU32 u.mPacketDataBufferReadPos u.frameLength =
      u.mPacketDataBufferReadPos + u.frameLength := addU32_eq (by omega)
  simp only [getPacket, subU32_positions hu]
  rw [if_neg (by omega), readU16_slice h2]
  change (if u.unread.length < u.frameLength then _ else _) = _
  rw [if_neg (by omega), ← hadd]
  rfl

theorem Ordered.getPacket (hu : u.Ordered) : u.getPacket.2.Ordered := by
  have hr := hu.readPos_le
  by_cases hshort : u.unread.length < 2 ∨ u.unread.length < u.frameLength
  · rw [getPacket_of_short hu hshort]
    exact hu
  · rw [getPacket_of_whole hu (by omega) (by omega)]
    refine ⟨?_, hu.writePos_lt⟩
    have hlength := length_unread (u := u)
    simp only
    omega

/-! ### Memories with a cell for each byte of the buffer -/

section Parallel

variable {α : Type*} {xs : List α}

/-- `m` with `xs` in the cells of the bytes that `SetPacketData` writes, and with the cells moved
that belong to the bytes it moves. -/
def placeIn (u : User) (m : Memory α) (xs : List α) : Memory α :=
  if u.wraps xs.length then
    let remainSize := subU32 packetDataBufferSize u.mPacketDataBufferWritePos
    (if 0 < remainSize then m.move 0 u.mPacketDataBufferWritePos remainSize else m).write 0 xs
  else m.write u.mPacketDataBufferWritePos xs

/-- The cells of the unread bytes. -/
def unreadIn (u : User) (m : Memory α) : List α :=
  m.slice u.mPacketDataBufferReadPos (u.mPacketDataBufferWritePos - u.mPacketDataBufferReadPos)

/-- The cells of the bytes that a packet of this user points to. -/
def packetIn (p : PacketInfo) (m : Memory α) : List α :=
  match p.pPacketData with
  | none => []
  | some pos => m.slice pos p.DataSize.toNat

theorem mem_unreadIn_setPacketData (hu : u.Ordered) (hsize : pData.length ≤ 256)
    (hxs : xs.length = pData.length) {m : Memory α} {x : α}
    (hx : x ∈ (u.setPacketData pData).unreadIn (u.placeIn m xs)) : x ∈ u.unreadIn m ∨ x ∈ xs := by
  have hr := hu.readPos_le
  rw [placeIn, hxs] at hx
  rcases hwraps : u.wraps pData.length with - | -
  · rw [setPacketData_of_fits hu hsize hwraps, unreadIn, hwraps, if_neg Bool.false_ne_true] at hx
    simp only at hx
    rw [← hxs, Nat.sub_add_comm hr, Memory.slice_write_append _ (by omega)] at hx
    exact List.mem_append.mp hx
  · obtain ⟨b, hb⟩ := setPacketData_of_wraps hsize hwraps
    rw [hb, unreadIn, hwraps, if_pos rfl] at hx
    simp only at hx
    rw [Memory.slice_write_eq _ (by omega)] at hx
    exact Or.inr hx

/-- `GetPacket` takes the cells of its packet from the front of the unread ones. -/
theorem unreadIn_getPacket (hu : u.Ordered) (m : Memory α) :
    packetIn u.getPacket.1 m ++ u.getPacket.2.unreadIn m = u.unreadIn m := by
  by_cases hshort : u.unread.length < 2 ∨ u.unread.length < u.frameLength
  · rw [getPacket_of_short hu hshort]
    rfl
  · have hlength := length_unread (u := u)
    rw [getPacket_of_whole hu (by omega) (by omega)]
    simp only [packetIn, unreadIn]
    rw [← frameLength, ← Memory.slice_add]
    congr 1
    omega

end Parallel

end User

end IocpStudy.ChatServer
