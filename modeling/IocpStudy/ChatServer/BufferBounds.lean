import IocpStudy.Lib.Copies
import IocpStudy.ChatServer.NetworkClient
import IocpStudy.ChatServer.UserBuffer

/-! The positions of one user's packet buffer, over all sequences of chunks of 0 to 256 bytes,
`GetPacket` and `Clear`.  A chunk wraps before it would reach the end of the buffer, and a frame is
returned only where it ends before the write position, so each position, each copy and each returned
frame stays inside the buffer, whatever length the frames announce. -/

namespace IocpStudy.ChatServer

open Words Runs Memory

/-! ### What a call does -/

namespace User

/-- The calls of `CopyMemory` that `SetPacketData` makes for a chunk of `dataSize` bytes. -/
def setPacketDataCopies (u : User) (dataSize : ℕ) : List BlockCopy :=
  if u.wraps dataSize then
    let remainSize := subU32 packetDataBufferSize u.mPacketDataBufferWritePos
    (if 0 < remainSize then [⟨0, some u.mPacketDataBufferWritePos, remainSize⟩] else []) ++
      [⟨0, none, dataSize⟩]
  else [⟨u.mPacketDataBufferWritePos, none, dataSize⟩]

def copies (u : User) : UserCall → List BlockCopy
  | .setPacketData pData => u.setPacketDataCopies pData.length
  | .getPacket | .clear => []

/-- The unsigned subtractions of a call: what each one subtracts from, and what it subtracts. -/
def subtractions (u : User) : UserCall → List (ℕ × ℕ)
  | .setPacketData pData =>
    if u.wraps pData.length then [(packetDataBufferSize, u.mPacketDataBufferWritePos)] else []
  | .getPacket => [(u.mPacketDataBufferWritePos, u.mPacketDataBufferReadPos)]
  | .clear => []

def packets (u : User) : UserCall → List PacketInfo
  | .getPacket => [u.getPacket.1]
  | .setPacketData _ | .clear => []

def call (u : User) : UserCall → User
  | .setPacketData pData => u.setPacketData pData
  | .getPacket => u.getPacket.2
  | .clear => u.clear

end User

/-- A chunk is no longer than what one receive brings. -/
def UserCall.Received : UserCall → Prop
  | .setPacketData pData => pData.length ≤ maxSockRecvBuf
  | .getPacket | .clear => True

instance (e : UserCall) : Decidable e.Received :=
  match e with
  | .setPacketData pData => Nat.decLe pData.length maxSockRecvBuf
  | .getPacket | .clear => .isTrue trivial

/-- The bytes behind the pointer of a call. -/
def UserCall.data : UserCall → List UInt8
  | .setPacketData pData => pData
  | .getPacket | .clear => []

/-- A user, with the copies and the subtractions of its calls so far, and the packets that they
returned with the write position at that moment. -/
structure BoundsState where
  user : User
  copies : List BlockCopy := []
  subtractions : List (ℕ × ℕ) := []
  returned : List (PacketInfo × ℕ) := []

/-- A user after `Init`, where the buffer may hold anything. -/
def BoundsState.start (index : ℤ) (buffer : Memory UInt8) : BoundsState :=
  { user := { mIndex := index, mPacketDataBuffer := buffer } }

def boundsStep (s : BoundsState) (e : UserCall) : Option BoundsState :=
  if e.Received then
    some
      { user := s.user.call e
        copies := s.copies ++ s.user.copies e
        subtractions := s.subtractions ++ s.user.subtractions e
        returned := s.returned ++
          (s.user.packets e).map fun p => (p, s.user.mPacketDataBufferWritePos) }
  else none

/-- The positions are in order, with the write position inside the buffer, no subtraction has gone
below zero, every copy stayed inside the buffer and was between blocks that lie apart, and every
packet ended before the write position. -/
structure BoundsState.InBounds (s : BoundsState) : Prop where
  readPos_le : s.user.mPacketDataBufferReadPos ≤ s.user.mPacketDataBufferWritePos
  writePos_lt : s.user.mPacketDataBufferWritePos < packetDataBufferSize
  subtractions_le : ∀ p ∈ s.subtractions, p.2 ≤ p.1
  copies_within : ∀ copy ∈ s.copies, copy.Within packetDataBufferSize
  copies_apart : ∀ copy ∈ s.copies, copy.Apart
  packets_le : ∀ r ∈ s.returned, ∀ pos, r.1.pPacketData = some pos →
    pos + r.1.DataSize.toNat ≤ r.2

variable {u : User} {s t : BoundsState} {e : UserCall} {es : List UserCall} {pData : List UInt8}
  {index : ℤ} {buffer m : Memory UInt8} {k : ℕ}

theorem boundsStep_eq_some : boundsStep s e = some t ↔ e.Received ∧ t =
    { user := s.user.call e
      copies := s.copies ++ s.user.copies e
      subtractions := s.subtractions ++ s.user.subtractions e
      returned := s.returned ++
        (s.user.packets e).map fun p => (p, s.user.mPacketDataBufferWritePos) } := by
  unfold boundsStep
  split_ifs with hreceived
  · rw [Option.some.injEq, and_iff_right hreceived]
    exact eq_comm
  · exact iff_of_false nofun fun h => hreceived h.1

/-! ### One call -/

namespace User

/-- A chunk wraps only at the end of the buffer, so the bytes moved to the front are the last 256 at
most; all others are written from outside. -/
theorem mem_copies (hu : u.Ordered) (he : e.Received) {copy : BlockCopy}
    (hcopy : copy ∈ u.copies e) :
    (packetDataBufferSize ≤ u.mPacketDataBufferWritePos + 256 ∧
      copy = ⟨0, some u.mPacketDataBufferWritePos,
        packetDataBufferSize - u.mPacketDataBufferWritePos⟩) ∨
    ∃ dst size, dst + size ≤ packetDataBufferSize ∧ copy = ⟨dst, none, size⟩ := by
  have hw := hu.writePos_lt
  cases e with
  | setPacketData pData =>
    have hsize : pData.length ≤ 256 := he
    have hremain : subU32 packetDataBufferSize u.mPacketDataBufferWritePos =
        packetDataBufferSize - u.mPacketDataBufferWritePos :=
      subU32_eq hw.le (by decide)
    have hwraps := wraps_iff hu hsize
    simp only [copies, setPacketDataCopies, hremain] at hcopy
    rw [if_pos (show 0 < packetDataBufferSize - u.mPacketDataBufferWritePos by omega)] at hcopy
    split_ifs at hcopy with hend
    · rw [hwraps] at hend
      rcases List.mem_cons.mp hcopy with rfl | hcopy
      · exact Or.inl ⟨by omega, rfl⟩
      · refine Or.inr ⟨0, pData.length, ?_, List.mem_singleton.mp hcopy⟩
        unfold packetDataBufferSize
        omega
    · rw [hwraps] at hend
      exact Or.inr ⟨_, _, by omega, List.mem_singleton.mp hcopy⟩
  | getPacket => exact absurd hcopy List.not_mem_nil
  | clear => exact absurd hcopy List.not_mem_nil

theorem copies_within (hu : u.Ordered) (he : e.Received) :
    ∀ copy ∈ u.copies e, copy.Within packetDataBufferSize := by
  intro copy hcopy
  have hw := hu.writePos_lt
  obtain ⟨-, rfl⟩ | ⟨dst, size, hfits, rfl⟩ := mem_copies hu he hcopy
  · exact BlockCopy.within_some.mpr ⟨by omega, by omega⟩
  · exact BlockCopy.within_none.mpr hfits

theorem copies_apart (hu : u.Ordered) (he : e.Received) : ∀ copy ∈ u.copies e, copy.Apart := by
  intro copy hcopy
  obtain ⟨hend, rfl⟩ | ⟨dst, size, -, rfl⟩ := mem_copies hu he hcopy
  · rw [BlockCopy.apart_some]
    unfold packetDataBufferSize at hend ⊢
    omega
  · exact BlockCopy.apart_none

theorem subtractions_le (hu : u.Ordered) : ∀ p ∈ u.subtractions e, p.2 ≤ p.1 := by
  intro p hp
  cases e with
  | setPacketData pData =>
    simp only [subtractions] at hp
    split_ifs at hp
    · obtain rfl := List.mem_singleton.mp hp
      exact hu.writePos_lt.le
    · exact absurd hp List.not_mem_nil
  | getPacket =>
    obtain rfl := List.mem_singleton.mp hp
    exact hu.readPos_le
  | clear => exact absurd hp List.not_mem_nil

/-- The length that a frame announces is compared with the unread bytes before the frame is
returned. -/
theorem packets_le (hu : u.Ordered) : ∀ p ∈ u.packets e, ∀ pos, p.pPacketData = some pos →
    pos + p.DataSize.toNat ≤ u.mPacketDataBufferWritePos := by
  intro p hp pos hpos
  cases e with
  | setPacketData pData => exact absurd hp List.not_mem_nil
  | getPacket =>
    obtain rfl := List.mem_singleton.mp hp
    by_cases hf : u.HoldsFrame
    · have hle := hf.frameLength_le
      have hr := hu.readPos_le
      rw [length_unread] at hle
      rw [getPacket_of_holdsFrame hu hf] at hpos ⊢
      obtain rfl := Option.some.inj hpos
      change u.mPacketDataBufferReadPos + u.frameLength ≤ u.mPacketDataBufferWritePos
      omega
    · rw [getPacket_of_not_holdsFrame hu hf] at hpos
      exact absurd hpos.symm (Option.some_ne_none pos)
  | clear => exact absurd hp List.not_mem_nil

theorem getPacket_buffer (u : User) : u.getPacket.2.mPacketDataBuffer = u.mPacketDataBuffer := by
  simp only [getPacket]
  split_ifs <;> rfl

/-- The copies are all that a call does to the buffer. -/
theorem foldl_copies (u : User) (e : UserCall) :
    (u.copies e).foldl (BlockCopy.apply e.data) u.mPacketDataBuffer =
      (u.call e).mPacketDataBuffer := by
  cases e with
  | setPacketData pData =>
    simp only [copies, call, UserCall.data, setPacketDataCopies, setPacketData]
    rcases hwraps : u.wraps pData.length with - | -
    · simp [BlockCopy.apply]
    · by_cases hremain : 0 < subU32 packetDataBufferSize u.mPacketDataBufferWritePos
      · simp [hremain, BlockCopy.apply]
      · simp [hremain, BlockCopy.apply]
  | getPacket => exact u.getPacket_buffer.symm
  | clear => rfl

/-- Whatever the order in which `CopyMemory` copies bytes, a call leaves the same buffer. -/
theorem leaveAll_copies (hu : u.Ordered) (he : e.Received) :
    BlockCopy.LeaveAll e.data u.mPacketDataBuffer (u.copies e) m ↔
      m = (u.call e).mPacketDataBuffer := by
  rw [BlockCopy.leaveAll_iff (copies_apart hu he), foldl_copies]

theorem call_buffer_of_ge (hu : u.Ordered) (he : e.Received) (hk : packetDataBufferSize ≤ k) :
    (u.call e).mPacketDataBuffer k = u.mPacketDataBuffer k := by
  rw [← foldl_copies, BlockCopy.foldl_apply_of_ge (copies_within hu he) hk]

/-- `GetPacket` reads the length and the ID of a frame inside the buffer, unless the frame starts with
the last two bytes that the buffer can hold. -/
theorem header_within_iff (hu : u.Ordered) (hf : u.HoldsFrame) :
    u.mPacketDataBufferReadPos + 4 ≤ packetDataBufferSize ↔
      u.mPacketDataBufferReadPos + 3 ≠ packetDataBufferSize := by
  have hlength := hf.length
  have hw := hu.writePos_lt
  rw [length_unread] at hlength
  omega

-- A frame of 8093 bytes and one of 2 bytes, whose ID is read from the cells 8095 and 8096.
example : (run boundsStep (.start 0 fun _ => 0)
    (.setPacketData ([157, 31] ++ List.replicate 254 0) ::
      (List.replicate 30 (.setPacketData (List.replicate 256 0)) ++
        [.setPacketData (List.replicate 157 0 ++ [2, 0]), .getPacket, .getPacket]))).map
      (fun s => s.returned.map fun r => (r.1.pPacketData, r.1.DataSize)) =
    some [(some 0, 8093), (some 8093, 2)] := by decide +kernel

theorem Ordered.call (hu : u.Ordered) (he : e.Received) : (u.call e).Ordered := by
  cases e with
  | setPacketData pData => exact hu.setPacketData he
  | getPacket => exact hu.getPacket
  | clear => exact User.Ordered.clear

end User

/-! ### Every run -/

theorem BoundsState.InBounds.ordered (hs : s.InBounds) : s.user.Ordered :=
  ⟨hs.readPos_le, hs.writePos_lt⟩

theorem inBounds_start : (BoundsState.start index buffer).InBounds :=
  ⟨le_refl _, show 0 < 8096 by decide, nofun, nofun, nofun, nofun⟩

theorem inBounds_step (hs : s.InBounds) (h : boundsStep s e = some t) : t.InBounds := by
  obtain ⟨he, rfl⟩ := boundsStep_eq_some.mp h
  have hcall := hs.ordered.call he
  refine ⟨hcall.readPos_le, hcall.writePos_lt, ?_, ?_, ?_, ?_⟩
  · exact List.forall_mem_append.mpr ⟨hs.subtractions_le, User.subtractions_le hs.ordered⟩
  · exact List.forall_mem_append.mpr ⟨hs.copies_within, User.copies_within hs.ordered he⟩
  · exact List.forall_mem_append.mpr ⟨hs.copies_apart, User.copies_apart hs.ordered he⟩
  · refine List.forall_mem_append.mpr ⟨hs.packets_le, ?_⟩
    rw [List.forall_mem_map]
    exact User.packets_le hs.ordered

/-- A run leaves the memory behind the buffer as it was. -/
theorem buffer_of_ge (h : run boundsStep (.start index buffer) es = some s)
    (hk : packetDataBufferSize ≤ k) : s.user.mPacketDataBuffer k = buffer k := by
  have hinv : s.InBounds ∧ s.user.mPacketDataBuffer k = buffer k := by
    refine run_invariant (P := fun s => s.InBounds ∧ s.user.mPacketDataBuffer k = buffer k) ?_
      ⟨inBounds_start, rfl⟩ h
    rintro s e t ⟨hs, hsame⟩ hst
    refine ⟨inBounds_step hs hst, ?_⟩
    obtain ⟨he, rfl⟩ := boundsStep_eq_some.mp hst
    exact (User.call_buffer_of_ge hs.ordered he hk).trans hsame
  exact hinv.2

/-- The runs of non-empty chunks are among these. -/
theorem run_boundsStep_of_userStep {s : UserState}
    (h : run userStep (.start index buffer) es = some s) :
    ∃ t : BoundsState, run boundsStep (.start index buffer) es = some t ∧ s.user = t.user := by
  refine run_simulates (R := fun (s : UserState) (t : BoundsState) => s.user = t.user) ?_ rfl h
  intro s t e s' hsame hst
  obtain ⟨pData, rfl, -, hsize, rfl⟩ | ⟨rfl, rfl⟩ | ⟨rfl, rfl⟩ := userStep_cases hst
  · exact ⟨_, boundsStep_eq_some.mpr ⟨hsize, rfl⟩, congrArg (fun u => u.setPacketData pData) hsame⟩
  · exact ⟨_, boundsStep_eq_some.mpr ⟨trivial, rfl⟩, congrArg (fun u => u.getPacket.2) hsame⟩
  · exact ⟨_, boundsStep_eq_some.mpr ⟨trivial, rfl⟩, congrArg User.clear hsame⟩

/-- After every run from `Init`, of chunks of up to 256 bytes of any content, `GetPacket` and
`Clear`, the positions are in order and inside the buffer, and so were all that the calls did. -/
theorem positions_inBounds (index : ℤ) (buffer : Memory UInt8) (es : List UserCall)
    (s : BoundsState) (h : run boundsStep (.start index buffer) es = some s) : s.InBounds :=
  run_invariant (fun _ _ _ hs hst => inBounds_step hs hst) inBounds_start h

/-- A chunk of 60 bytes that would just reach the end of the buffer: the 60 bytes behind the write
position are moved to the front, and the chunk is written over them. -/
theorem positions_inBounds_wrap :
    ∃ s, run boundsStep (.start 0 fun _ => 0)
        (nearEnd ++ [.setPacketData (List.replicate 60 2)]) = some s ∧
      s.copies.drop 32 = [⟨0, some 8036, 60⟩, ⟨0, none, 60⟩] ∧ s.InBounds := by
  have hcopies : (run boundsStep (.start 0 fun _ => 0)
      (nearEnd ++ [.setPacketData (List.replicate 60 2)])).map (fun s => s.copies.drop 32) =
        some [⟨0, some 8036, 60⟩, ⟨0, none, 60⟩] := by
    decide +kernel
  obtain ⟨s, hrun, hdrop⟩ := Option.map_eq_some_iff.mp hcopies
  exact ⟨s, hrun, hdrop, positions_inBounds 0 (fun _ => 0) _ s hrun⟩

end IocpStudy.ChatServer
