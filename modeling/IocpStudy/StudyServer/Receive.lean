import IocpStudy.Lib.Runs
import IocpStudy.StudyServer.NetworkClient

/-! `_HandleReceive` and the receive side of one connection: a machine whose events are the receive
completions that the operating system delivers while a `WSARecv` is outstanding.  `GetPacket` is
specified on the unread bytes where the positions of the receive context are in order, and shown to
copy out of bounds where they are not, so the body copies of a run are in bounds exactly when every
completion brings the write position up to the read position. -/

namespace IocpStudy.StudyServer

open Words Runs

/-- What a call of `_HandleReceive` leaves: the packet it pushed to the dispatcher, the buffer of
the receive it posted, and the copy that its `GetPacket` made. -/
structure HandleReceiveResult where
  client : NetworkClient
  packetPool : MemoryPool Packet
  pushed : Option Packet := none
  posted : Option WsaBuf := none
  copy : Option BodyCopy := none

/-- The end of `_HandleReceive`, from the result `got` of `GetPacket` on. -/
def dispatchReceived (got : GetPacketResult) (hasService : Bool) (transferred : ℕ)
    (wsaRecv : Bool) (receivedOn : Option Socket) : HandleReceiveResult :=
  match got.packet with
  | none => { client := got.client, packetPool := got.packetPool, copy := got.copy }
  | some packet =>
    let packet := { packet with SessionID := got.client.mSessionID, receivedOn }
    if hasService then
      let context := got.client.mReceiveContext
      let context := (context.read transferred).getD context
      let (client, posted) := { got.client with mReceiveContext := context }.receive wsaRecv
      { client, packetPool := got.packetPool, pushed := some packet, posted, copy := got.copy }
    else
      -- The packet is dropped, which returns it to the pool, and no receive is posted.
      { client := got.client, packetPool := got.packetPool.release packet, copy := got.copy }

/-- `_HandleReceive` for a completion on the connection `receivedOn`, with the received bytes
already in the buffer.  `hasService` tells whether `mServiceList` holds a dispatcher. -/
def handleReceive (client : NetworkClient) (packetPool : MemoryPool Packet) (hasService : Bool)
    (transferred : ℕ) (wsaRecv : Bool) (receivedOn : Option Socket) : HandleReceiveResult :=
  if transferred = 0 then { client, packetPool }
  else
    match client.mReceiveContext.writeSize transferred with
    | none => { client, packetPool }
    | some context =>
      let got := { client with mReceiveContext := context }.getPacket packetPool
      dispatchReceived got hasService transferred wsaRecv receivedOn

/-- A copy that stays inside `Packet::Body` and reads only received and unread bytes. -/
structure BodyCopy.InBounds (copy : BodyCopy) : Prop where
  bodyLength_le : copy.bodyLength ≤ bodyCapacity
  readPos_le : copy.readPos + headerSize + copy.bodyLength ≤ copy.writePos
  writePos_le : copy.writePos ≤ bufferSize

/-- A receive completion: the received bytes, and whether the `WSARecv` that its handler may make is
accepted. -/
structure Completion where
  bytes : List UInt8
  wsaRecv : Bool
deriving Repr, DecidableEq

/-- The receive side of one connection.  `posted` is the buffer of the outstanding `WSARecv`;
`pushed` and `copies` record the packets pushed to the dispatcher and the body copies so far. -/
structure ReceiveState where
  client : NetworkClient
  packetPool : MemoryPool Packet
  posted : Option WsaBuf
  pushed : List Packet := []
  copies : List BodyCopy := []

/-- The bytes of a completion in the buffer that was offered for them. -/
def NetworkClient.deliver (c : NetworkClient) (wsaBuf : WsaBuf) (bytes : List UInt8) :
    NetworkClient :=
  { c with mReceiveContext :=
      { c.mReceiveContext with mBuffer := c.mReceiveContext.mBuffer.write wsaBuf.buf bytes } }

/-- The receive side after a call of `_HandleReceive`. -/
def ReceiveState.handled (s : ReceiveState) (result : HandleReceiveResult) : ReceiveState :=
  { client := result.client
    packetPool := result.packetPool
    posted := result.posted
    pushed := s.pushed ++ result.pushed.toList
    copies := s.copies ++ result.copy.toList }

/-- A completion of 1 to `wsaBuf.len` bytes, which needs an outstanding receive, and its handler. -/
def receiveStep (hasService : Bool) (s : ReceiveState) (e : Completion) : Option ReceiveState :=
  match s.posted with
  | none => none
  | some wsaBuf =>
    if e.bytes = [] ∨ wsaBuf.len < e.bytes.length then none
    else
      let client := s.client.deliver wsaBuf e.bytes
      some <| s.handled <|
        handleReceive client s.packetPool hasService e.bytes.length e.wsaRecv s.client.mSocket

/-- A freshly reset client with a receive posted. -/
def ReceiveState.start (client : NetworkClient) (packetPool : MemoryPool Packet) : ReceiveState :=
  let (client, posted) := client.reset.receive true
  { client, packetPool, posted }

/-! ### `GetPacket` -/

namespace NetworkClient

variable {c : NetworkClient} {pool : MemoryPool Packet}

/-- The header that the unread bytes of the receive context start with. -/
def unreadHeader (c : NetworkClient) : PacketHeader :=
  PacketHeader.ofBytes (c.mReceiveContext.unread.take headerSize)

/-- The packet that `GetPacket` makes of the unread bytes in the object `packet` of the pool. -/
def unreadPacket (c : NetworkClient) (packet : Packet) : Packet :=
  { packet with
    Body := packet.Body.write 0
      ((c.mReceiveContext.unread.drop headerSize).take c.unreadHeader.BodyLength.toNat)
    PacketID := c.unreadHeader.PacketID
    BodyLength := c.unreadHeader.BodyLength }

theorem sizeTOfInt_dataSize (h : c.mReceiveContext.Ordered) :
    sizeTOfInt c.mReceiveContext.getDataSize = c.mReceiveContext.unread.length := by
  have hr := h.readPos_le
  have hw := h.writePos_le
  have hdata : c.mReceiveContext.getDataSize =
      ((c.mReceiveContext.mWritePos - c.mReceiveContext.mReadPos : ℕ) : ℤ) := by
    unfold NetworkContext.getDataSize
    omega
  rw [hdata, sizeTOfInt_natCast (by unfold bufferSize at hw; omega), NetworkContext.length_unread]

theorem packetHeader_eq (h : headerSize ≤ c.mReceiveContext.unread.length) :
    PacketHeader.ofBytes (c.mReceiveContext.mBuffer.slice c.mReceiveContext.mReadPos headerSize) =
      c.unreadHeader := by
  rw [unreadHeader, NetworkContext.unread, Memory.take_slice _ (by simpa using h)]

theorem getPacket_header_short (h : c.mReceiveContext.Ordered)
    (hshort : c.mReceiveContext.unread.length < headerSize) :
    c.getPacket pool = { client := c, packetPool := pool } := by
  rw [getPacket]
  simp only [sizeTOfInt_dataSize h]
  rw [if_pos hshort]

theorem getPacket_body_short (h : c.mReceiveContext.Ordered)
    (hheader : headerSize ≤ c.mReceiveContext.unread.length)
    (hshort : c.mReceiveContext.unread.length < headerSize + c.unreadHeader.BodyLength.toNat) :
    c.getPacket pool = { client := c, packetPool := pool } := by
  rw [getPacket]
  simp only [sizeTOfInt_dataSize h, packetHeader_eq hheader]
  rw [if_neg (by omega), if_pos (by omega)]

/-- `GetPacket` on a complete frame: the packet, the frame consumed, and a copy of the body. -/
theorem getPacket_whole (h : c.mReceiveContext.Ordered)
    (hwhole : headerSize + c.unreadHeader.BodyLength.toNat ≤ c.mReceiveContext.unread.length) :
    c.getPacket pool =
      { client := { c with mReceiveContext := { c.mReceiveContext with
          mReadPos := c.mReceiveContext.mReadPos +
            (headerSize + c.unreadHeader.BodyLength.toNat) } }
        packetPool := (pool.acquire {}).2
        packet := some (c.unreadPacket (pool.acquire {}).1)
        copy := some ⟨c.mReceiveContext.mReadPos, c.mReceiveContext.mWritePos,
          c.unreadHeader.BodyLength.toNat⟩ } := by
  have hr := h.readPos_le
  have hheader : headerSize ≤ c.mReceiveContext.unread.length := by omega
  have hlen : headerSize + c.unreadHeader.BodyLength.toNat ≤
      c.mReceiveContext.mWritePos - c.mReceiveContext.mReadPos := by simpa using hwhole
  have hbody : c.mReceiveContext.mBuffer.slice (c.mReceiveContext.mReadPos + headerSize)
      c.unreadHeader.BodyLength.toNat =
      (c.mReceiveContext.unread.drop headerSize).take c.unreadHeader.BodyLength.toNat := by
    rw [NetworkContext.unread, Memory.drop_slice, Memory.take_slice _ (by omega)]
  have hread := NetworkContext.read_of_le (c := c.mReceiveContext)
    (n := headerSize + c.unreadHeader.BodyLength.toNat) (by omega)
  rw [getPacket]
  simp only [sizeTOfInt_dataSize h, packetHeader_eq hheader,
    NetworkPacket.getPacketSize, NetworkPacket.getBodySize, hread, hbody]
  rw [if_neg (by omega), if_neg (by omega)]
  rfl

/-- Where the read position has passed the write position, the length checks of `GetPacket` compare
a huge `size_t`, so they always pass: the copy is made, out of bounds, and the `Read` after it
fails. -/
theorem getPacket_behind (pool : MemoryPool Packet)
    (hw : c.mReceiveContext.mWritePos < c.mReceiveContext.mReadPos)
    (hr : c.mReceiveContext.mReadPos ≤ bufferSize) :
    (c.getPacket pool).packet = none ∧
      ∃ copy, (c.getPacket pool).copy = some copy ∧ ¬copy.InBounds := by
  have hhuge : ∀ n : ℕ, n ≤ 2 ^ 33 → ¬sizeTOfInt c.mReceiveContext.getDataSize < n := by
    intro n hn
    have := le_sizeTOfInt_of_neg (x := c.mReceiveContext.getDataSize) (n := n)
      (by unfold NetworkContext.getDataSize; omega)
      (by unfold NetworkContext.getDataSize bufferSize at *; omega)
    omega
  have hlength := (PacketHeader.ofBytes (c.mReceiveContext.mBuffer.slice
    c.mReceiveContext.mReadPos headerSize)).BodyLength.toNat_lt
  rw [getPacket]
  simp only
  rw [if_neg (hhuge _ (by decide)), if_neg (hhuge _ (by unfold headerSize at *; omega)),
    NetworkContext.read_of_lt (by omega)]
  refine ⟨rfl, _, rfl, fun hin => ?_⟩
  have := hin.readPos_le
  simp only at this
  omega

end NetworkClient

/-! ### One completion -/

variable {hasService : Bool} {s s' : ReceiveState} {e : Completion} {es : List Completion}
  {client : NetworkClient} {pool : MemoryPool Packet}

/-- The outstanding receive offers the rest of the array from the write position on, and the
positions lie inside the array.  The read position may have passed the write position. -/
structure ReceiveState.Windowed (s : ReceiveState) : Prop where
  window : ∀ wsaBuf, s.posted = some wsaBuf →
    wsaBuf = ⟨s.client.mReceiveContext.mWritePos, bufferSize - s.client.mReceiveContext.mWritePos⟩
  writePos_le : s.posted.isSome → s.client.mReceiveContext.mWritePos ≤ bufferSize
  readPos_le : s.posted.isSome → s.client.mReceiveContext.mReadPos ≤ bufferSize

/-- The client when the handler of the completion `e` has called `context.Write`. -/
def ReceiveState.filled (s : ReceiveState) (e : Completion) : NetworkClient :=
  { s.client with mReceiveContext := { s.client.mReceiveContext with
      mBuffer := s.client.mReceiveContext.mBuffer.write s.client.mReceiveContext.mWritePos e.bytes
      mWritePos := s.client.mReceiveContext.mWritePos + e.bytes.length } }

/-- What `receiveStep` does: a completion of at least one byte that fits the window is handled from
the filled client on. -/
theorem receiveStep_eq_some (hs : s.Windowed) :
    receiveStep hasService s e = some s' ↔
      s.posted.isSome ∧ e.bytes ≠ [] ∧
      s.client.mReceiveContext.mWritePos + e.bytes.length ≤ bufferSize ∧
      s' = s.handled (dispatchReceived ((s.filled e).getPacket s.packetPool) hasService
        e.bytes.length e.wsaRecv s.client.mSocket) := by
  unfold receiveStep
  cases hposted : s.posted with
  | none => simp
  | some wsaBuf =>
    have hle := hs.writePos_le (by simp [hposted])
    obtain rfl := hs.window wsaBuf hposted
    by_cases hnil : e.bytes = []
    · simp [hnil]
    have hlength : ¬e.bytes.length = 0 := by simpa using hnil
    by_cases hbig : bufferSize - s.client.mReceiveContext.mWritePos < e.bytes.length
    · have hfull : ¬s.client.mReceiveContext.mWritePos + e.bytes.length ≤ bufferSize := by omega
      simp [hbig, hfull]
    have hfit : s.client.mReceiveContext.mWritePos + e.bytes.length ≤ bufferSize := by omega
    have hhandle : ∀ wsaBuf : WsaBuf, wsaBuf.buf = s.client.mReceiveContext.mWritePos →
        handleReceive (s.client.deliver wsaBuf e.bytes) s.packetPool hasService e.bytes.length
          e.wsaRecv s.client.mSocket =
        dispatchReceived ((s.filled e).getPacket s.packetPool) hasService e.bytes.length
          e.wsaRecv s.client.mSocket := by
      intro wsaBuf hbuf
      rw [handleReceive, if_neg hlength, NetworkClient.deliver,
        NetworkContext.writeSize_of_le (by exact hfit), hbuf]
      rfl
    simp [hnil, hbig, hfit, hhandle, eq_comm]

theorem ReceiveState.windowed_of_idle (h : s.posted = none) : s.Windowed := by
  constructor <;> simp [h]

theorem ReceiveState.windowed_of_receive {c : NetworkClient} (wsaRecv : Bool)
    (hr : c.mReceiveContext.mReadPos ≤ bufferSize) (hw : c.mReceiveContext.mWritePos ≤ bufferSize)
    (hclient : s.client = (c.receive wsaRecv).1) (hposted : s.posted = (c.receive wsaRecv).2) :
    s.Windowed := by
  have hw' : s.client.mReceiveContext.mWritePos ≤ bufferSize := by
    rw [hclient]
    exact NetworkContext.alignBuffer_writePos_le.trans hw
  have hr' : s.client.mReceiveContext.mReadPos ≤ bufferSize := by
    rw [hclient]
    exact NetworkContext.alignBuffer_readPos_le.trans hr
  refine ⟨fun wsaBuf h => ?_, fun _ => hw', fun _ => hr'⟩
  have hremain : s.client.mReceiveContext.getRemainSize =
      ((bufferSize - s.client.mReceiveContext.mWritePos : ℕ) : ℤ) := by
    unfold NetworkContext.getRemainSize
    omega
  have hulong : uint32OfInt s.client.mReceiveContext.getRemainSize =
      bufferSize - s.client.mReceiveContext.mWritePos := by
    rw [hremain, uint32OfInt_natCast (by unfold bufferSize; omega)]
  rw [hclient] at hulong ⊢
  rw [hposted, NetworkClient.receive] at h
  split_ifs at h
  rw [← Option.some.inj h, ← hulong]
  rfl

theorem ReceiveState.windowed_start : (ReceiveState.start client pool).Windowed :=
  windowed_of_receive (c := client.reset) true (Nat.zero_le _) (Nat.zero_le _) rfl rfl

theorem receiveStep_behind (hs : s.Windowed) (h : receiveStep hasService s e = some s')
    (hbehind : s.client.mReceiveContext.mWritePos + e.bytes.length <
      s.client.mReceiveContext.mReadPos) :
    ∃ copy ∈ s'.copies, ¬copy.InBounds := by
  obtain ⟨hposted, -, -, rfl⟩ := (receiveStep_eq_some hs).mp h
  obtain ⟨hnone, copy, hcopy, hout⟩ := NetworkClient.getPacket_behind (c := s.filled e)
    s.packetPool hbehind (hs.readPos_le hposted)
  refine ⟨copy, ?_, hout⟩
  simp [dispatchReceived, hnone, hcopy, ReceiveState.handled]

theorem ReceiveState.filled_ordered
    (hfit : s.client.mReceiveContext.mWritePos + e.bytes.length ≤ bufferSize)
    (hle : s.client.mReceiveContext.mReadPos ≤
      s.client.mReceiveContext.mWritePos + e.bytes.length) :
    (s.filled e).mReceiveContext.Ordered :=
  ⟨hle, hfit⟩

/-- The size of the frame that the unread bytes of the filled client start with. -/
def ReceiveState.frameSize (s : ReceiveState) (e : Completion) : ℕ :=
  headerSize + (s.filled e).unreadHeader.BodyLength.toNat

/-- The client when the handler of `e` has taken a whole frame and called
`context.Read(transferred)`. -/
def ReceiveState.consumed (s : ReceiveState) (e : Completion) : NetworkClient :=
  let context := { (s.filled e).mReceiveContext with
    mReadPos := s.client.mReceiveContext.mReadPos + s.frameSize e }
  { s.client with mReceiveContext := (context.read e.bytes.length).getD context }

/-- The packet that the handler of `e` pushes for a whole frame. -/
def ReceiveState.received (s : ReceiveState) (e : Completion) : Packet :=
  { (s.filled e).unreadPacket (s.packetPool.acquire {}).1 with
    SessionID := s.client.mSessionID, receivedOn := s.client.mSocket }

/-- The unread bytes of the filled client start with a whole frame. -/
def ReceiveState.Whole (s : ReceiveState) (e : Completion) : Prop :=
  s.frameSize e ≤ (s.filled e).mReceiveContext.unread.length

/-- A completion without a whole frame at the read position pushes nothing and posts nothing. -/
theorem receiveStep_incomplete (hs : s.Windowed) (h : receiveStep hasService s e = some s')
    (hle : s.client.mReceiveContext.mReadPos ≤
      s.client.mReceiveContext.mWritePos + e.bytes.length) (hshort : ¬s.Whole e) :
    s' = { s with client := s.filled e, posted := none } := by
  obtain ⟨-, -, hfit, rfl⟩ := (receiveStep_eq_some hs).mp h
  have hord := ReceiveState.filled_ordered hfit hle
  rw [ReceiveState.Whole, ReceiveState.frameSize] at hshort
  have hnone : (s.filled e).getPacket s.packetPool =
      { client := s.filled e, packetPool := s.packetPool } := by
    by_cases hheader : headerSize ≤ (s.filled e).mReceiveContext.unread.length
    · exact NetworkClient.getPacket_body_short hord hheader (by omega)
    · exact NetworkClient.getPacket_header_short hord (by omega)
  simp [hnone, dispatchReceived, ReceiveState.handled]

/-- A completion with a whole frame at the read position takes that frame, and posts the next
receive if a service is there to take the packet. -/
theorem receiveStep_whole (hs : s.Windowed) (h : receiveStep hasService s e = some s')
    (hle : s.client.mReceiveContext.mReadPos ≤
      s.client.mReceiveContext.mWritePos + e.bytes.length) (hwhole : s.Whole e) :
    s'.copies = s.copies ++ [⟨s.client.mReceiveContext.mReadPos,
      s.client.mReceiveContext.mWritePos + e.bytes.length,
      (s.filled e).unreadHeader.BodyLength.toNat⟩] ∧
    (hasService = false → s'.posted = none) ∧
    (hasService = true → s'.pushed = s.pushed ++ [s.received e] ∧
      s'.client = ((s.consumed e).receive e.wsaRecv).1 ∧
      s'.posted = ((s.consumed e).receive e.wsaRecv).2) := by
  obtain ⟨-, -, hfit, rfl⟩ := (receiveStep_eq_some hs).mp h
  rw [NetworkClient.getPacket_whole (ReceiveState.filled_ordered hfit hle) hwhole]
  refine ⟨?_, fun hservice => ?_, fun hservice => ?_⟩
  · cases hasService <;> rfl
  · simp [hservice, dispatchReceived, ReceiveState.handled]
  · subst hservice
    exact ⟨rfl, rfl, rfl⟩

theorem ReceiveState.whole_iff : s.Whole e ↔
    s.frameSize e ≤ s.client.mReceiveContext.mWritePos + e.bytes.length -
      s.client.mReceiveContext.mReadPos := by
  rw [Whole, NetworkContext.length_unread]
  rfl

theorem ReceiveState.consumed_writePos : (s.consumed e).mReceiveContext.mWritePos =
    s.client.mReceiveContext.mWritePos + e.bytes.length := by
  simp only [consumed]
  rcases NetworkContext.getD_read with h | ⟨-, h⟩ <;> rw [h] <;> rfl

/-- The `context.Read(transferred)` after a frame either fails or skips as many bytes again as the
completion brought. -/
theorem ReceiveState.consumed_readPos
    (hle : s.client.mReceiveContext.mReadPos ≤
      s.client.mReceiveContext.mWritePos + e.bytes.length) (hwhole : s.Whole e) :
    (s.consumed e).mReceiveContext.mReadPos ≤
        s.client.mReceiveContext.mWritePos + e.bytes.length ∧
      ((s.consumed e).mReceiveContext.mReadPos =
          s.client.mReceiveContext.mReadPos + s.frameSize e ∨
        (s.consumed e).mReceiveContext.mReadPos =
          s.client.mReceiveContext.mReadPos + s.frameSize e + e.bytes.length) := by
  rw [whole_iff] at hwhole
  simp only [consumed]
  rcases NetworkContext.getD_read with h | ⟨hroom, h⟩ <;> rw [h]
  · exact ⟨by simp only; omega, Or.inl rfl⟩
  · exact ⟨hroom, Or.inr rfl⟩

/-- A completion that does not leave the read position ahead keeps the window and makes no copy
that is out of bounds. -/
theorem receiveStep_ordered (hs : s.Windowed) (h : receiveStep hasService s e = some s')
    (hle : s.client.mReceiveContext.mReadPos ≤
      s.client.mReceiveContext.mWritePos + e.bytes.length) :
    s'.Windowed ∧ ((∀ copy ∈ s'.copies, copy.InBounds) ↔ ∀ copy ∈ s.copies, copy.InBounds) := by
  obtain ⟨-, -, hfit, -⟩ := (receiveStep_eq_some hs).mp h
  by_cases hwhole : s.Whole e
  · obtain ⟨hcopies, hidle, hnext⟩ := receiveStep_whole hs h hle hwhole
    refine ⟨?_, ?_⟩
    · cases hasService with
      | false => exact ReceiveState.windowed_of_idle (hidle rfl)
      | true =>
        obtain ⟨-, hclient, hposted⟩ := hnext rfl
        have hr := (ReceiveState.consumed_readPos hle hwhole).1
        have hw : (s.consumed e).mReceiveContext.mWritePos ≤ bufferSize := by
          rw [ReceiveState.consumed_writePos]
          exact hfit
        exact ReceiveState.windowed_of_receive _ (hr.trans hfit) hw hclient hposted
    · have hbounds : BodyCopy.InBounds ⟨s.client.mReceiveContext.mReadPos,
          s.client.mReceiveContext.mWritePos + e.bytes.length,
          (s.filled e).unreadHeader.BodyLength.toNat⟩ := by
        rw [ReceiveState.whole_iff, ReceiveState.frameSize] at hwhole
        refine ⟨?_, by simp only; omega, hfit⟩
        simp only [bodyCapacity, bufferSize] at *
        omega
      simp [hcopies, or_imp, forall_and, hbounds]
  · rw [receiveStep_incomplete hs h hle hwhole]
    exact ⟨ReceiveState.windowed_of_idle rfl, Iff.rfl⟩

/-! ### The copies of a run -/

/-- The completion brings the write position up to the read position. -/
def ReceiveState.CatchesUp (s : ReceiveState) (e : Completion) : Prop :=
  s.client.mReceiveContext.mReadPos ≤ s.client.mReceiveContext.mWritePos + e.bytes.length

theorem receiveStep_windowed (hs : s.Windowed) (h : receiveStep hasService s e = some s') :
    s'.Windowed := by
  by_cases hle : s.CatchesUp e
  · exact (receiveStep_ordered hs h hle).1
  · obtain ⟨hposted, -, -, rfl⟩ := (receiveStep_eq_some hs).mp h
    have hnone := (NetworkClient.getPacket_behind (c := s.filled e) s.packetPool
      (Nat.lt_of_not_le hle) (hs.readPos_le hposted)).1
    exact ReceiveState.windowed_of_idle (by simp [dispatchReceived, hnone, ReceiveState.handled])

theorem run_copies_inBounds_iff (hs : s.Windowed)
    (h : run (receiveStep hasService) s es = some s') :
    (∀ copy ∈ s'.copies, copy.InBounds) ↔
      (∀ copy ∈ s.copies, copy.InBounds) ∧
        Meets (receiveStep hasService) ReceiveState.CatchesUp s es := by
  induction es generalizing s with
  | nil =>
    cases h
    simp
  | cons e es ih =>
    obtain ⟨t, ht, hrun⟩ := run_cons_eq_some.mp h
    rw [meets_cons ht, ih (receiveStep_windowed hs ht) hrun]
    by_cases hle : s.CatchesUp e
    · simp only [(receiveStep_ordered hs ht hle).2, hle, true_and]
    · obtain ⟨copy, hmem, hout⟩ := receiveStep_behind hs ht (Nat.lt_of_not_le hle)
      have hbad : ¬∀ copy ∈ t.copies, copy.InBounds := fun hall => hout (hall copy hmem)
      simp only [hbad, hle, false_and, and_false]

/-- The body copies of a run from a freshly reset client are all in bounds if and only if no
completion finds the read position further ahead than the bytes it brings. -/
theorem copies_inBounds_iff (client : NetworkClient) (pool : MemoryPool Packet) (hasService : Bool)
    (es : List Completion) (s : ReceiveState)
    (h : run (receiveStep hasService) (.start client pool) es = some s) :
    (∀ copy ∈ s.copies, copy.InBounds) ↔
      Meets (receiveStep hasService) ReceiveState.CatchesUp (.start client pool) es := by
  rw [run_copies_inBounds_iff ReceiveState.windowed_start h]
  simp [ReceiveState.start]

/-- A completion that is one frame without a body. -/
def bodyless : Completion := ⟨[0, 0, 0, 0, 1, 0, 0, 0, 0, 0, 0, 0], true⟩

theorem copies_inBounds_bodyless :
    ∃ s, run (receiveStep true) (.start .new ⟨[]⟩) [bodyless] = some s ∧
      ∀ copy ∈ s.copies, copy.InBounds := by
  refine ⟨_, rfl, (copies_inBounds_iff .new ⟨[]⟩ true [bodyless] _ rfl).mpr ?_⟩
  rw [meets_cons rfl]
  exact ⟨Nat.zero_le _, meets_nil⟩

/-- A frame without a body followed by 4 bytes leaves the write position at 4 and the read position
at 12.  After one more byte, `GetPacket` reads the 4 bytes as a body length of `2^32 - 1`. -/
theorem copy_out_of_bounds :
    ∃ s, run (receiveStep true) (.start .new ⟨[]⟩)
        [⟨bodyless.bytes ++ [255, 255, 255, 255], true⟩, ⟨[0], true⟩] = some s ∧
      ∃ copy ∈ s.copies, ¬copy.InBounds := by
  refine ⟨_, rfl, ⟨12, 5, 4294967295⟩, ?_, ?_⟩
  · decide
  · rintro ⟨hlength, -, -⟩
    revert hlength
    decide

/-! ### The window of a run -/

theorem NetworkClient.getPacket_writePos (c : NetworkClient) (pool : MemoryPool Packet) :
    (c.getPacket pool).client.mReceiveContext.mWritePos = c.mReceiveContext.mWritePos := by
  rw [getPacket]
  simp only
  split_ifs
  · rfl
  · rfl
  · split
    · rfl
    · next hread =>
      obtain ⟨-, rfl⟩ := NetworkContext.read_eq_some hread
      rfl

theorem dispatchReceived_writePos_le (got : GetPacketResult) (hasService : Bool)
    (transferred : ℕ) (wsaRecv : Bool) (receivedOn : Option Socket) :
    (dispatchReceived got hasService transferred wsaRecv
        receivedOn).client.mReceiveContext.mWritePos ≤
      got.client.mReceiveContext.mWritePos := by
  rw [dispatchReceived]
  cases got.packet with
  | none => exact le_refl _
  | some packet =>
    cases hasService with
    | false => exact le_refl _
    | true =>
      have hread : ((got.client.mReceiveContext.read transferred).getD
          got.client.mReceiveContext).mWritePos = got.client.mReceiveContext.mWritePos := by
        rcases NetworkContext.getD_read (c := got.client.mReceiveContext) (n := transferred) with
          h | ⟨-, h⟩ <;> rw [h]
      exact NetworkContext.alignBuffer_writePos_le.trans (Nat.le_of_eq hread)

/-- The write position lies inside the array, whether or not a receive is outstanding and wherever
the read position is. -/
structure ReceiveState.WriteBounded (s : ReceiveState) : Prop where
  windowed : s.Windowed
  writePos_le : s.client.mReceiveContext.mWritePos ≤ bufferSize

theorem ReceiveState.writeBounded_start : (ReceiveState.start client pool).WriteBounded := by
  refine ⟨windowed_start, ?_⟩
  exact NetworkContext.alignBuffer_writePos_le.trans (Nat.zero_le _)

theorem receiveStep_writeBounded (hs : s.WriteBounded) (h : receiveStep hasService s e = some s') :
    s'.WriteBounded := by
  refine ⟨receiveStep_windowed hs.windowed h, ?_⟩
  obtain ⟨-, -, hfit, rfl⟩ := (receiveStep_eq_some hs.windowed).mp h
  have hfilled : ((s.filled e).getPacket s.packetPool).client.mReceiveContext.mWritePos ≤
      bufferSize := by
    rw [NetworkClient.getPacket_writePos]
    exact hfit
  exact (dispatchReceived_writePos_le _ _ _ _ _).trans hfilled

/-- After every run from a freshly reset client, the write position is inside the array, the
outstanding `WSARecv` offers a range from there on that is inside the array too, and the handler's
`context.Write(transferred)` succeeds for every completion that the range has room for.  Nothing is
assumed of the read position, which `AlignBuffer` may have left above the write position. -/
theorem receive_window_inBounds (client : NetworkClient) (pool : MemoryPool Packet)
    (hasService : Bool) (es : List Completion) (s : ReceiveState)
    (h : run (receiveStep hasService) (.start client pool) es = some s) :
    s.client.mReceiveContext.mWritePos ≤ bufferSize ∧
      ∀ wsaBuf, s.posted = some wsaBuf →
        wsaBuf.buf = s.client.mReceiveContext.mWritePos ∧
        wsaBuf.buf + wsaBuf.len ≤ bufferSize ∧
        ∀ bytes : List UInt8, bytes.length ≤ wsaBuf.len →
          ∃ context, (s.client.deliver wsaBuf bytes).mReceiveContext.writeSize bytes.length =
              some context ∧
            context.mWritePos ≤ bufferSize := by
  have hs : s.WriteBounded :=
    run_invariant (fun _ _ _ hs hst => receiveStep_writeBounded hs hst)
      ReceiveState.writeBounded_start h
  refine ⟨hs.writePos_le, fun wsaBuf hposted => ?_⟩
  have hle := hs.writePos_le
  obtain rfl := hs.windowed.window wsaBuf hposted
  refine ⟨rfl, by simp only; omega, fun bytes hlength => ?_⟩
  have hfit : s.client.mReceiveContext.mWritePos + bytes.length ≤ bufferSize := by
    simp only at hlength
    omega
  exact ⟨_, NetworkContext.writeSize_of_le (by exact hfit), hfit⟩

/-- The run of `copy_out_of_bounds` up to its bad copy: the read position is 12 and the write
position 4, and the window is still inside the array. -/
theorem receive_window_behind :
    ∃ s, run (receiveStep true) (.start .new ⟨[]⟩)
        [⟨bodyless.bytes ++ [255, 255, 255, 255], true⟩] = some s ∧
      s.client.mReceiveContext.mReadPos = 12 ∧ s.posted = some ⟨4, 8092⟩ ∧
      s.client.mReceiveContext.mWritePos ≤ bufferSize :=
  ⟨_, rfl, rfl, rfl, (receive_window_inBounds .new ⟨[]⟩ true
    [⟨bodyless.bytes ++ [255, 255, 255, 255], true⟩] _ rfl).1⟩

end IocpStudy.StudyServer
