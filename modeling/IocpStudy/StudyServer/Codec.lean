import IocpStudy.StudyServer.Receive

/-! The packet codec: `GetPacket` is exactly the decoder of the wire format on the unread bytes of
the receive context, wherever in the buffer they lie, and it takes back what `SetPacket` and `Send`
make of a packet, without the bytes that follow it.  Where it comes to its `Read(int)`, the size
that it converts is at most that of the buffer. -/

namespace IocpStudy.StudyServer

open Words

theorem readU32_take {bs : List UInt8} {n : ℕ} (h : 4 ≤ n) : readU32 (bs.take n) = readU32 bs := by
  rw [readU32, readU32, List.take_take, Nat.min_eq_left h]

/-- A header is read from the first `headerSize` bytes. -/
theorem PacketHeader.ofBytes_take (bs : List UInt8) :
    PacketHeader.ofBytes (bs.take headerSize) = PacketHeader.ofBytes bs := by
  simp only [PacketHeader.ofBytes, headerSize, List.drop_take]
  rw [readU32_take (by decide), readU32_take (by decide), readU32_take (by decide)]

@[simp] theorem PacketHeader.ofBytes_bytes_append (h : PacketHeader) (bs : List UInt8) :
    PacketHeader.ofBytes (h.bytes ++ bs) = h := by
  rw [← PacketHeader.ofBytes_take, List.take_left' h.length_bytes, PacketHeader.ofBytes_bytes]

/-- What the wire format makes of the bytes `u`: whether they start with a packet, its fields, and
how many of them it takes.  `got` is the result of a call on the client `c`. -/
structure GetPacketResult.Decodes (got : GetPacketResult) (c : NetworkClient)
    (pool : MemoryPool Packet) (u : List UInt8) : Prop where
  isSome_iff : got.packet.isSome = true ↔
    headerSize ≤ u.length ∧ headerSize + (readU32 u).toNat ≤ u.length
  bodyLength : ∀ p, got.packet = some p → p.BodyLength = readU32 u
  packetID : ∀ p, got.packet = some p → p.PacketID = readU32 (u.drop 4)
  body : ∀ p, got.packet = some p → p.body = (u.drop headerSize).take (readU32 u).toNat
  consumed : got.packet.isSome = true → got.client = { c with mReceiveContext :=
    { c.mReceiveContext with
      mReadPos := c.mReceiveContext.mReadPos + (headerSize + (readU32 u).toNat) } }
  unchanged : got.packet = none → got.client = c ∧ got.packetPool = pool

namespace NetworkClient

variable {c : NetworkClient} {pool : MemoryPool Packet}

theorem unreadHeader_eq (c : NetworkClient) :
    c.unreadHeader = PacketHeader.ofBytes c.mReceiveContext.unread :=
  PacketHeader.ofBytes_take _

theorem unreadPacket_body (packet : Packet)
    (hwhole : headerSize + c.unreadHeader.BodyLength.toNat ≤ c.mReceiveContext.unread.length) :
    (c.unreadPacket packet).body =
      (c.mReceiveContext.unread.drop headerSize).take c.unreadHeader.BodyLength.toNat := by
  have hlength : c.unreadHeader.BodyLength.toNat = ((c.mReceiveContext.unread.drop headerSize).take
      c.unreadHeader.BodyLength.toNat).length := by
    rw [List.length_take, List.length_drop]
    omega
  exact Memory.slice_write_eq packet.Body (a := 0) hlength

theorem getPacket_short (h : c.mReceiveContext.Ordered)
    (hshort : c.mReceiveContext.unread.length < headerSize ∨
      c.mReceiveContext.unread.length < headerSize + c.unreadHeader.BodyLength.toNat) :
    c.getPacket pool = { client := c, packetPool := pool } := by
  by_cases hheader : c.mReceiveContext.unread.length < headerSize
  · exact getPacket_header_short h hheader
  · exact getPacket_body_short h (Nat.le_of_not_lt hheader) (hshort.resolve_left hheader)

theorem decodes (c : NetworkClient) (pool : MemoryPool Packet) (h : c.mReceiveContext.Ordered) :
    (c.getPacket pool).Decodes c pool c.mReceiveContext.unread := by
  have hlength : c.unreadHeader.BodyLength = readU32 c.mReceiveContext.unread := by
    rw [unreadHeader_eq]
    rfl
  have hid : c.unreadHeader.PacketID = readU32 (c.mReceiveContext.unread.drop 4) := by
    rw [unreadHeader_eq]
    rfl
  by_cases hwhole : headerSize + c.unreadHeader.BodyLength.toNat ≤ c.mReceiveContext.unread.length
  · have hbody := unreadPacket_body (pool.acquire {}).1 hwhole
    rw [getPacket_whole h hwhole]
    rw [hlength] at hwhole hbody ⊢
    refine ⟨?_, ?_, ?_, ?_, fun _ => rfl, nofun⟩
    · show true = true ↔ _
      exact iff_of_true rfl ⟨by omega, hwhole⟩
    · rintro p ⟨⟩
      exact hlength
    · rintro p ⟨⟩
      exact hid
    · rintro p ⟨⟩
      exact hbody
  · rw [getPacket_short h (Or.inr (Nat.lt_of_not_le hwhole))]
    refine ⟨?_, nofun, nofun, nofun, nofun, fun _ => ⟨rfl, rfl⟩⟩
    rw [hlength] at hwhole
    exact iff_of_false Bool.false_ne_true fun hu => hwhole hu.2

/-- The unread bytes after a call that returned a packet. -/
theorem unread_getPacket (h : c.mReceiveContext.Ordered)
    (hsome : (c.getPacket pool).packet.isSome = true) :
    (c.getPacket pool).client.mReceiveContext.unread =
      c.mReceiveContext.unread.drop
        (headerSize + (readU32 c.mReceiveContext.unread).toNat) := by
  rw [(decodes c pool h).consumed hsome, NetworkContext.unread, NetworkContext.unread,
    Memory.drop_slice, Nat.sub_sub]

end NetworkClient

/-- The fields of the packet that the bytes of `p` start with. -/
theorem readU32_encode (p : Packet) (s : List UInt8) :
    readU32 (p.encode ++ s) = p.BodyLength ∧ readU32 ((p.encode ++ s).drop 4) = p.PacketID := by
  have hheader := PacketHeader.ofBytes_bytes_append
    ⟨p.BodyLength, p.PacketID, p.SessionID⟩ (p.body ++ s)
  rw [← List.append_assoc] at hheader
  exact ⟨congrArg PacketHeader.BodyLength hheader, congrArg PacketHeader.PacketID hheader⟩

theorem drop_encode (p : Packet) (s : List UInt8) :
    (p.encode ++ s).drop headerSize = p.body ++ s := by
  rw [Packet.encode, List.append_assoc, List.drop_left' (PacketHeader.length_bytes _)]

/-- On every receive context with its positions in order `GetPacket` decodes the unread bytes, and
when these are the bytes that `Send` writes for a packet `p`, followed by `s`, it returns the
fields and the body of `p` and leaves `s`.  The length of `p` is bounded by the buffer. -/
theorem getPacket_codec (c : NetworkClient) (pool : MemoryPool Packet)
    (h : c.mReceiveContext.Ordered) :
    (c.getPacket pool).Decodes c pool c.mReceiveContext.unread ∧
    ∀ (p : Packet) (s : List UInt8),
      c.mReceiveContext.unread = (NetworkClient.setPacket p).memory.slice 0
        (NetworkClient.setPacket p).getPacketSize ++ s →
      ∃ q, (c.getPacket pool).packet = some q ∧ q.BodyLength = p.BodyLength ∧
        q.PacketID = p.PacketID ∧ q.body = p.body ∧
        (c.getPacket pool).client.mReceiveContext.unread = s := by
  have hdecodes := NetworkClient.decodes c pool h
  refine ⟨hdecodes, fun p s hu => ?_⟩
  rw [NetworkClient.setPacket_slice] at hu
  obtain ⟨hlength, hid⟩ := readU32_encode p s
  have hsome : (c.getPacket pool).packet.isSome = true := by
    rw [hdecodes.isSome_iff, hu, hlength, List.length_append, Packet.length_encode]
    omega
  have hrest := NetworkClient.unread_getPacket h hsome
  obtain ⟨q, hq⟩ := Option.isSome_iff_exists.mp hsome
  refine ⟨q, hq, ?_, ?_, ?_, ?_⟩
  · rw [hdecodes.bodyLength q hq, hu, hlength]
  · rw [hdecodes.packetID q hq, hu, hid]
  · rw [hdecodes.body q hq, hu, hlength, drop_encode, List.take_left' p.length_body]
  · rw [hrest, hu, hlength, List.drop_left' p.length_encode]

/-- A packet with a body of one byte at position 5 of the buffer, in front of another byte. -/
theorem getPacket_codec_at_five :
    ∃ q, ((({ NetworkClient.new with mReceiveContext :=
          { mBuffer := Memory.write (fun _ => 255) 5 [1, 0, 0, 0, 7, 0, 0, 0, 0, 0, 0, 0, 65, 9]
            mReadPos := 5
            mWritePos := 19 } } : NetworkClient).getPacket ⟨[]⟩).packet = some q) ∧
      q.PacketID = 7 ∧ q.body = [65] := by
  obtain ⟨q, hq, -, hid, hbody, -⟩ := (getPacket_codec { NetworkClient.new with mReceiveContext :=
    { mBuffer := Memory.write (fun _ => 255) 5 [1, 0, 0, 0, 7, 0, 0, 0, 0, 0, 0, 0, 65, 9]
      mReadPos := 5
      mWritePos := 19 } } ⟨[]⟩ ⟨by decide, by decide⟩).2
    { PacketID := 7, BodyLength := 1, Body := fun _ => 65 } [9] (by decide)
  exact ⟨q, hq, hid, hbody.trans (by decide)⟩

end IocpStudy.StudyServer
