import IocpStudy.SBServer.IOCPHandler

/-! The body of a queued packet.  `RawPacket` ends in a pointer, so what `PushPacket` copies is not
what follows the header but what the pointer that those bytes spell points to, and the size that the
header announces is never compared with that of `mData`. -/

namespace IocpStudy.SBServer

open Words

/-- The body size that the header at the read position announces. -/
def Buffer.bodySize (b : Buffer) : ℕ := b.rawPacket.mHeader.mBodySize.toNat

/-- The bytes that directly follow that header. -/
def Buffer.bodyBytes (b : Buffer) : List UInt8 :=
  b.mBuffer.slice (b.mReadPos + headerSize) b.bodySize

/-- `PushPacket` queues a packet that has the announced size, which `mData` has room for, and that
holds the bytes that follow the header. -/
def QueuesBody (memory : Memory (Option UInt8)) (context : NetworkContext) (client : ClientSocket)
    (timer : Bool) : Prop :=
  ∃ result packet, pushPacket memory context client timer = some result ∧
    result.pushed = some packet ∧ context.mBuffer.bodySize ≤ maxPacketSize ∧
    packet.mDataSize.toNat = context.mBuffer.bodySize ∧
    packet.mData.slice 0 packet.mDataSize.toNat = context.mBuffer.bodyBytes

variable {memory : Memory (Option UInt8)} {src size : ℕ} {data : List UInt8}

theorem cells_eq_map_some_iff {cells : List (Option UInt8)} :
    cells.all Option.isSome = true ∧ cells.map (fun cell => cell.getD 0) = data ↔
      cells = data.map some := by
  induction cells generalizing data with
  | nil =>
    cases data <;> simp
  | cons cell cells ih =>
    cases data with
    | nil => simp
    | cons d data =>
      have htail := @ih data
      cases cell with
      | none => simp
      | some c =>
        simp only [List.all_cons, Option.isSome_some, Bool.true_and, List.map_cons,
          Option.getD_some, List.cons.injEq, Option.some.injEq, ← htail]
        exact and_left_comm

/-- The copy yields what the source holds, where it fits `mData`. -/
theorem copyBody_eq_some_iff :
    copyBody memory src size = some data ↔
      size ≤ maxPacketSize ∧ memory.slice src size = data.map some := by
  simp only [copyBody, Option.ite_none_right_eq_some, Option.some.injEq]
  rw [and_assoc, cells_eq_map_some_iff]

/-- `PushPacket` past its two length checks, for a client that the limiter lets pass. -/
theorem pushPacket_of_holds {context : NetworkContext} {client : ClientSocket} {timer : Bool}
    (hholds : context.mBuffer.holdsPacket = true) (hpass : (client.onReceive timer).2 = true) :
    pushPacket memory context client timer =
      (copyBody memory context.mBuffer.rawPacket.mBody context.mBuffer.bodySize).map fun bytes =>
        { context
          client := (client.onReceive timer).1
          pushed := some
            { mSessionID := (client.onReceive timer).1.getSessionID
              mPacketID := context.mBuffer.rawPacket.mHeader.mPacketID
              mDataSize := context.mBuffer.rawPacket.mHeader.mBodySize
              mDataIndex := context.Index
              mData := Memory.write (fun _ => 0) 0 bytes } } := by
  rw [pushPacket, hholds, if_neg Bool.noConfusion]
  generalize hreceive : client.onReceive timer = received at *
  obtain ⟨client', passed⟩ := received
  subst hpass
  rfl

/-- A call of `PushPacket` that comes to queue a packet, because the limiter lets the client pass
and the source of the copy is mapped, queues the bytes that follow the header if and only if the
announced size fits `mData`, and the address that the eight bytes behind the header spell holds the
same bytes. -/
theorem queuesBody_iff (memory : Memory (Option UInt8)) (context : NetworkContext)
    (client : ClientSocket) (timer : Bool) (hholds : context.mBuffer.holdsPacket = true)
    (hpass : (client.onReceive timer).2 = true)
    (hmapped : (memory.slice context.mBuffer.rawPacket.mBody
      context.mBuffer.bodySize).all Option.isSome = true) :
    QueuesBody memory context client timer ↔
      context.mBuffer.bodySize ≤ maxPacketSize ∧
        (memory.slice context.mBuffer.rawPacket.mBody context.mBuffer.bodySize).map
          (fun cell => cell.getD 0) = context.mBuffer.bodyBytes := by
  have hcopied : copyBody memory context.mBuffer.rawPacket.mBody context.mBuffer.bodySize =
      some context.mBuffer.bodyBytes ↔
      context.mBuffer.bodySize ≤ maxPacketSize ∧
        (memory.slice context.mBuffer.rawPacket.mBody context.mBuffer.bodySize).map
          (fun cell => cell.getD 0) = context.mBuffer.bodyBytes := by
    rw [copyBody_eq_some_iff, ← cells_eq_map_some_iff, and_iff_right hmapped]
  rw [← hcopied, QueuesBody, pushPacket_of_holds hholds hpass]
  constructor
  · rintro ⟨result, packet, hpush, hpacket, -, -, hdata⟩
    obtain ⟨bytes, hcopy, rfl⟩ := Option.map_eq_some_iff.mp hpush
    obtain rfl := Option.some.inj hpacket
    have hlength : bytes.length = context.mBuffer.bodySize := length_of_copyBody hcopy
    have hslice : (Memory.write (fun _ => 0) 0 bytes).slice 0 context.mBuffer.bodySize = bytes :=
      Memory.slice_write_eq _ hlength.symm
    rw [hcopy]
    exact congrArg some (hslice.symm.trans hdata)
  · intro hcopy
    have hlength := length_of_copyBody hcopy
    have hslice : (Memory.write (fun _ => 0) 0 context.mBuffer.bodyBytes).slice 0
        context.mBuffer.bodySize = context.mBuffer.bodyBytes :=
      Memory.slice_write_eq _ hlength.symm
    rw [hcopy]
    exact ⟨_, _, rfl, rfl, (copyBody_eq_some_iff.mp hcopy).1, rfl, hslice⟩

/-- A packet without a body. -/
theorem queuesBody_empty :
    QueuesBody (fun _ => none)
      { Index := 0
        mBuffer := { mBuffer := Memory.write (fun _ => 0) 0 [0, 0, 1, 0], mWritePos := 4 } }
      { mIndex := 1 } false :=
  (queuesBody_iff _ _ _ _ (by decide) (by decide) (by decide)).mpr ⟨by decide, rfl⟩

/-- The only mapped page, at the lowest address that `VirtualAlloc` gives out, which holds zeros. -/
def firstPage : Memory (Option UInt8) :=
  fun address => if 65536 ≤ address ∧ address < 69632 then some 0 else none

/-- A body of eight bytes, which spell the address `0x10041` of that page. -/
theorem not_queuesBody_address :
    ¬QueuesBody firstPage
      { Index := 0
        mBuffer :=
          { mBuffer := Memory.write (fun _ => 0) 0 [8, 0, 1, 0, 65, 0, 1, 0, 0, 0, 0, 0]
            mWritePos := 12 } }
      { mIndex := 1 } false := by
  rintro ⟨result, packet, hpush, hpacket, -, -, hdata⟩
  obtain rfl := Option.some.inj hpush
  obtain rfl := Option.some.inj hpacket
  revert hdata
  decide

end IocpStudy.SBServer
