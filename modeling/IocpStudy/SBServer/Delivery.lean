import IocpStudy.Lib.Frames
import IocpStudy.Lib.Runs
import IocpStudy.SBServer.IOCPHandler

/-! Received frames and the packet queue, on one connection.  `PushPacket` never reads the frame it
queued out of the buffer, it queues one frame for a completion, and it copies the body from where
the bytes behind the header point to.  Before that, an accepted connection has a cleared buffer, so
its receives have room for no byte, and only the empty list of frames is delivered.  The completions
are handled by the `RECEIVE` case, to which `IOThread` does not even come
(`IOCPHandler.ioThread_drops`). -/

namespace IocpStudy.SBServer

open Words Frames Runs

/-- A frame, with a body that fits `Packet::mData`. -/
structure Frame where
  mPacketID : UInt16
  body : List UInt8
  body_le : body.length ≤ maxPacketSize

def Frame.encode (f : Frame) : List UInt8 :=
  bytesOfU16 (UInt16.ofNat f.body.length) ++ (bytesOfU16 f.mPacketID ++ f.body)

/-- The packet holds the frame. -/
structure Packet.Carries (p : Packet) (f : Frame) : Prop where
  packetID : p.mPacketID = f.mPacketID
  dataSize : p.mDataSize.toNat = f.body.length
  data : p.mData.slice 0 f.body.length = f.body

/-- One connection: its context and client, the packets queued for it, the bytes sent and not yet
received, and the buffer of the outstanding receive.  `faulted` records an undefined copy. -/
structure Connection where
  context : NetworkContext
  client : ClientSocket
  mPacketQueue : List Packet := []
  rest : List UInt8
  posted : Option WsaBuf
  faulted : Bool := false

/-- The completion of the outstanding receive with `n` bytes. -/
structure Completion where
  n : ℕ
  timer : Bool
deriving Repr, DecidableEq

/-- The next `n` bytes are stored and the `RECEIVE` case handles their completion. -/
def connectionStep (memory : Memory (Option UInt8)) (s : Connection) (e : Completion) :
    Option Connection :=
  match s.posted with
  | none => none
  | some wsaBuf =>
    if s.faulted ∨ e.n = 0 ∨ s.rest.length < e.n ∨ wsaBuf.len < e.n then none
    else
      let context := { s.context with mBuffer := s.context.mBuffer.store (s.rest.take e.n) }
      match receiveCompleted memory context s.client e.n e.timer true with
      | none => some { s with faulted := true }
      | some result =>
        some
          { s with
            context := result.context
            client := result.client
            mPacketQueue := s.mPacketQueue ++ result.pushed.toList
            rest := s.rest.drop e.n
            posted := result.posted }

namespace Connection

/-- A connection that serves the frames `fs` with this client and context. -/
def opened (client : ClientSocket) (context : NetworkContext) (fs : List Frame) : Connection :=
  { context, client, rest := stream Frame.encode fs, posted := client.receive context true }

/-- The connection that a pass of `_AcceptThread` opens, where no call fails. -/
def accepted (client : ClientSocket) (context : NetworkContext) (socket : Socket)
    (fs : List Frame) : Connection :=
  opened (IOCPHandler.initClient client socket true true true).1
    (context.reset.setContextType .RECEIVE) fs

/-- The limiter lets the completion pass. -/
def WithinLimit (s : Connection) (e : Completion) : Prop :=
  e.timer = true ∨ s.client.mReceiveCount < maxPacketsPerClient

/-- Once nothing more can be received, the queue holds the frames. -/
def Delivered (fs : List Frame) (s : Connection) : Prop :=
  s.faulted = false ∧
    (s.rest = [] ∨ (∀ wsaBuf ∈ s.posted, wsaBuf.len = 0) →
      List.Forall₂ Packet.Carries s.mPacketQueue fs)

end Connection

/-- The frames are delivered, however they are cut into completions. -/
def Delivers (memory : Memory (Option UInt8)) (c : Connection) (fs : List Frame) : Prop :=
  ∀ es s, run (connectionStep memory) c es = some s →
    Meets (connectionStep memory) Connection.WithinLimit c es → s.Delivered fs

/-- The buffer when these bytes, and no others, have been received into it. -/
def Buffer.filled (b : Buffer) (bytes : List UInt8) : Buffer :=
  { b with mBuffer := b.mBuffer.write 0 bytes, mReadPos := 0, mWritePos := bytes.length }

/-- The copy that `PushPacket` makes for the frame at the front of the buffer yields its body: the
body is empty, or the address that its first bytes spell holds another copy of it. -/
def Buffer.Copies (memory : Memory (Option UInt8)) (b : Buffer) (f : Frame) : Prop :=
  copyBody memory (b.filled f.encode).rawPacket.mBody f.body.length = some f.body

/-! ### The frame at the front of the buffer -/

variable {memory : Memory (Option UInt8)} {b : Buffer} {f : Frame} {fs : List Frame}
  {more : List UInt8} {context : NetworkContext} {client : ClientSocket} {n : ℕ} {timer : Bool}

@[simp] theorem Frame.length_encode (f : Frame) : f.encode.length = headerSize + f.body.length := by
  simp only [Frame.encode, List.length_append, length_bytesOfU16, headerSize]
  omega

theorem Frame.toNat_bodySize (f : Frame) :
    (UInt16.ofNat f.body.length).toNat = f.body.length := by
  have hle := f.body_le
  unfold maxPacketSize at hle
  rw [UInt16.toNat_ofNat', Nat.mod_eq_of_lt (by omega)]

/-- The header of the first frame, once it is in the buffer. -/
theorem Buffer.mHeader_eq (hread : b.mReadPos = 0) (h : headerSize ≤ b.mWritePos)
    (hbytes : b.mBuffer.slice 0 b.mWritePos = (f.encode ++ more).take b.mWritePos) :
    b.rawPacket.mHeader = ⟨UInt16.ofNat f.body.length, f.mPacketID⟩ := by
  unfold headerSize at h
  have hfour : b.mBuffer.slice 0 4 = bytesOfU16 (UInt16.ofNat f.body.length) ++
      bytesOfU16 f.mPacketID := by
    rw [← Memory.take_slice _ h, hbytes, List.take_take, Nat.min_eq_left h, Frame.encode,
      ← List.append_assoc, List.append_assoc, List.take_left' (by simp)]
  have hsize : b.mBuffer.slice 0 2 = bytesOfU16 (UInt16.ofNat f.body.length) ++ [] := by
    rw [← Memory.take_slice _ (show 2 ≤ 4 by decide), hfour, List.take_left' (by simp),
      List.append_nil]
  have hid : b.mBuffer.slice 2 2 = bytesOfU16 f.mPacketID ++ [] := by
    have hdrop : (b.mBuffer.slice 0 4).drop 2 = b.mBuffer.slice 2 2 := Memory.drop_slice _
    rw [← hdrop, hfour, List.drop_left' (by simp), List.append_nil]
  simp only [Buffer.rawPacket, hread, Nat.zero_add, hsize, hid, readU16_bytesOfU16]

/-- The buffer holds a whole packet once the first frame is in it. -/
theorem Buffer.holdsPacket_iff (hread : b.mReadPos = 0) (hsmall : b.mWritePos ≤ maxBufferSize)
    (hbytes : b.mBuffer.slice 0 b.mWritePos = (f.encode ++ more).take b.mWritePos) :
    b.holdsPacket = true ↔ f.encode.length ≤ b.mWritePos := by
  unfold maxBufferSize at hsmall
  have hdata : sizeTOfInt b.getDataSize = b.mWritePos := by
    have hcast : b.getDataSize = (b.mWritePos : ℤ) := by
      unfold Buffer.getDataSize
      omega
    rw [hcast, sizeTOfInt_natCast (by omega)]
  rw [Buffer.holdsPacket, hdata, Bool.and_eq_true, decide_eq_true_iff, decide_eq_true_iff,
    Frame.length_encode]
  constructor
  · rintro ⟨hheader, hwhole⟩
    rw [b.mHeader_eq hread hheader hbytes, f.toNat_bodySize] at hwhole
    omega
  · intro hwhole
    refine ⟨by omega, ?_⟩
    rw [b.mHeader_eq hread (by omega) hbytes, f.toNat_bodySize]
    omega

/-! ### One completion -/

theorem Buffer.write_store (bytes new : List UInt8) (hroom : bytes.length + new.length ≤ b.size) :
    (((b.filled bytes).store new).write new.length).1 = b.filled (bytes ++ new) := by
  rw [Buffer.write_of_room (by simpa [Buffer.store, Buffer.filled] using hroom)]
  simp only [Buffer.store, Buffer.filled, List.length_append]
  rw [Memory.write_write_append _ (Nat.zero_add _).symm]

theorem Buffer.slice_filled (b : Buffer) {bytes : List UInt8} :
    (b.filled bytes).mBuffer.slice 0 (b.filled bytes).mWritePos = bytes :=
  Memory.slice_write_self (a := 0) b.mBuffer

theorem Buffer.holdsPacket_filled_iff {bytes : List UInt8} (hsmall : bytes.length ≤ maxBufferSize)
    (hbytes : bytes = (f.encode ++ more).take bytes.length) :
    (b.filled bytes).holdsPacket = true ↔ f.encode.length ≤ bytes.length :=
  (b.filled bytes).holdsPacket_iff rfl hsmall (b.slice_filled.trans hbytes)

theorem receive_filled {bytes : List UInt8} (hsize : b.size ≤ maxBufferSize)
    (hroom : bytes.length ≤ b.size) (hsocket : client.mSocket.isSome)
    (hcontext : context.mBuffer = b.filled bytes) :
    client.receive context true = some ⟨bytes.length, b.size - bytes.length⟩ := by
  unfold maxBufferSize at hsize
  have hremain : context.mBuffer.getRemainSize = ((b.size - bytes.length : ℕ) : ℤ) := by
    rw [hcontext]
    simp only [Buffer.getRemainSize, Buffer.filled]
    omega
  rw [ClientSocket.receive, hsocket, hremain, uint32OfInt_natCast (by omega), hcontext]
  rfl

theorem pushPacket_of_part (h : context.mBuffer.holdsPacket = false) :
    pushPacket memory context client timer = some { context, client } := by
  rw [pushPacket, if_pos h]

/-- The packet that a frame whose body was copied as `data` is queued as. -/
def Frame.packet (f : Frame) (client : ClientSocket) (context : NetworkContext)
    (data : List UInt8) : Packet :=
  { mSessionID := client.getSessionID
    mPacketID := f.mPacketID
    mDataSize := UInt16.ofNat f.body.length
    mDataIndex := context.Index
    mData := Memory.write (fun _ => 0) 0 data }

theorem Frame.carries_packet_iff {data : List UInt8} (h : data.length = f.body.length) :
    (f.packet client context data).Carries f ↔ data = f.body := by
  have hdata : (f.packet client context data).mData.slice 0 f.body.length = data :=
    Memory.slice_write_eq (a := 0) (fun _ => 0) h.symm
  constructor
  · intro hp
    rw [← hdata, hp.data]
  · intro heq
    exact ⟨rfl, f.toNat_bodySize, hdata.trans heq⟩

theorem ClientSocket.onReceive_of_limit
    (hlimit : timer = true ∨ client.mReceiveCount < maxPacketsPerClient) :
    ∃ client' : ClientSocket, client'.mSocket = client.mSocket ∧
      client.onReceive timer = (client', true) := by
  cases timer with
  | true => exact ⟨client, rfl, rfl⟩
  | false =>
    refine ⟨{ client with mReceiveCount := client.mReceiveCount + 1 }, rfl, ?_⟩
    have hcount := hlimit.resolve_left Bool.false_ne_true
    simp only [ClientSocket.onReceive, Bool.false_eq_true, if_false]
    rw [decide_eq_true (show client.mReceiveCount + 1 ≤ maxPacketsPerClient from hcount)]

/-- With the first frame in the buffer and the limiter at rest, the frame's header is queued, with
what the copy of the body yields. -/
theorem pushPacket_of_whole (memory : Memory (Option UInt8)) {bytes : List UInt8}
    (hcontext : context.mBuffer = b.filled bytes)
    (hsmall : bytes.length ≤ maxBufferSize) (hbytes : bytes = (f.encode ++ more).take bytes.length)
    (hwhole : f.encode.length ≤ bytes.length)
    (hlimit : timer = true ∨ client.mReceiveCount < maxPacketsPerClient) :
    ∃ client' : ClientSocket, client'.mSocket = client.mSocket ∧
      pushPacket memory context client timer =
        (copyBody memory (b.filled bytes).rawPacket.mBody f.body.length).map fun data =>
          { context, client := client', pushed := some (f.packet client' context data) } := by
  have hslice : context.mBuffer.mBuffer.slice 0 context.mBuffer.mWritePos =
      (f.encode ++ more).take context.mBuffer.mWritePos := by
    rw [hcontext]
    exact b.slice_filled.trans hbytes
  have hread : context.mBuffer.mReadPos = 0 := by rw [hcontext]; rfl
  have hwrite : context.mBuffer.mWritePos = bytes.length := by rw [hcontext]; rfl
  have hholds : context.mBuffer.holdsPacket = true := by
    rw [hcontext]
    exact (b.holdsPacket_filled_iff hsmall hbytes).mpr hwhole
  have hheader := context.mBuffer.mHeader_eq hread
    (by rw [hwrite]; rw [Frame.length_encode] at hwhole; omega) hslice
  obtain ⟨client', hsocket, hclient⟩ := client.onReceive_of_limit hlimit
  refine ⟨client', hsocket, ?_⟩
  rw [pushPacket, if_neg (by rw [hholds]; exact Bool.noConfusion)]
  simp only [hclient, hheader, f.toNat_bodySize]
  rw [hcontext]
  rfl

/-! ### The run of a connection -/

/-- Of the bytes `sent` the connection has received `bytes`, and it waits for more. -/
structure Connection.Filled (b : Buffer) (sent bytes : List UInt8) (s : Connection) : Prop where
  buffer : s.context.mBuffer = b.filled bytes
  sent_eq : bytes ++ s.rest = sent
  room : bytes.length ≤ b.size
  socket : s.client.mSocket.isSome
  posted : s.posted = some ⟨bytes.length, b.size - bytes.length⟩
  faulted : s.faulted = false

variable {s t : Connection} {e : Completion} {sent bytes : List UInt8}

theorem guards_of_step (hs : s.Filled b sent bytes) (h : connectionStep memory s e = some t) :
    0 < e.n ∧ e.n ≤ s.rest.length ∧ bytes.length + e.n ≤ b.size := by
  have hroom := hs.room
  simp only [connectionStep, hs.posted] at h
  split_ifs at h with hguard
  · omega

/-- The copy into the storage and the `Write` after it append the bytes received. -/
theorem Connection.Filled.write_store {n : ℕ} (hs : s.Filled b sent bytes)
    (hrest : n ≤ s.rest.length) (hroom : bytes.length + n ≤ b.size) :
    ((s.context.mBuffer.store (s.rest.take n)).write n).1 =
      b.filled (bytes ++ s.rest.take n) := by
  have hlength : (s.rest.take n).length = n := List.length_take_of_le hrest
  have hstore := b.write_store bytes (s.rest.take n) (by omega)
  rwa [hlength, ← hs.buffer] at hstore

/-- A completion leaves the first frame incomplete, or queues its header and what the copy of its
body yields. -/
theorem connectionStep_of_room (memory : Memory (Option UInt8)) (hsize : b.size ≤ maxBufferSize)
    (hs : s.Filled b (f.encode ++ more) bytes) (hlimit : s.WithinLimit e) (hn : 0 < e.n)
    (hrest : e.n ≤ s.rest.length) (hroom : bytes.length + e.n ≤ b.size) :
    ∃ t, connectionStep memory s e = some t ∧
      ((bytes.length + e.n < f.encode.length ∧ t.mPacketQueue = s.mPacketQueue ∧
          t.Filled b (f.encode ++ more) (bytes ++ s.rest.take e.n)) ∨
        (f.encode.length ≤ bytes.length + e.n ∧
          copyBody memory (b.filled (bytes ++ s.rest.take e.n)).rawPacket.mBody f.body.length =
            none ∧ t.faulted = true) ∨
        (f.encode.length ≤ bytes.length + e.n ∧ ∃ data client context,
          copyBody memory (b.filled (bytes ++ s.rest.take e.n)).rawPacket.mBody f.body.length =
            some data ∧
          t.mPacketQueue = s.mPacketQueue ++ [f.packet client context data] ∧
          t.Filled b (f.encode ++ more) (bytes ++ s.rest.take e.n))) := by
  have hfilled : (bytes ++ s.rest.take e.n).length = bytes.length + e.n := by
    rw [List.length_append, List.length_take_of_le hrest]
  have hsent : bytes ++ s.rest.take e.n ++ s.rest.drop e.n = f.encode ++ more := by
    rw [List.append_assoc, List.take_append_drop, hs.sent_eq]
  have hbytes : bytes ++ s.rest.take e.n =
      (f.encode ++ more).take (bytes ++ s.rest.take e.n).length := by
    rw [← hsent, List.take_left' rfl]
  have hwritten := hs.write_store hrest hroom
  have hstep : ¬(s.faulted = true ∨ e.n = 0 ∨ s.rest.length < e.n ∨
      b.size - bytes.length < e.n) := by
    rw [hs.faulted]
    simp only [Bool.false_eq_true, false_or]
    omega
  generalize hreceived : bytes ++ s.rest.take e.n = received at *
  obtain ⟨context, hcontext⟩ : ∃ context : NetworkContext,
      context = { s.context with mBuffer := b.filled received } := ⟨_, rfl⟩
  have hposted : ∀ client : ClientSocket, client.mSocket = s.client.mSocket →
      client.receive context true = some ⟨received.length, b.size - received.length⟩ :=
    fun client hclient => receive_filled hsize (by omega) (by rw [hclient]; exact hs.socket)
      (by rw [hcontext])
  simp only [connectionStep, hs.posted, if_neg hstep, receiveCompleted, hwritten, ← hcontext]
  by_cases hwhole : f.encode.length ≤ bytes.length + e.n
  · obtain ⟨client', hclient, hpush⟩ := pushPacket_of_whole memory
      (show context.mBuffer = b.filled received by rw [hcontext]) (by omega) hbytes (by omega)
      hlimit
    simp only [hpush]
    cases hcopy : copyBody memory (b.filled received).rawPacket.mBody f.body.length with
    | none => exact ⟨_, rfl, Or.inr (Or.inl ⟨hwhole, rfl, rfl⟩)⟩
    | some data =>
      simp only [Option.map_some, hposted client' hclient]
      refine ⟨_, rfl, Or.inr (Or.inr ⟨hwhole, data, _, _, rfl, rfl, ?_⟩)⟩
      exact ⟨by rw [hcontext], hsent, by omega, by rw [hclient]; exact hs.socket, rfl, hs.faulted⟩
  · have hpart : context.mBuffer.holdsPacket = false := by
      rw [Bool.eq_false_iff, hcontext]
      intro hholds
      have hlong := (b.holdsPacket_filled_iff (by omega) hbytes).mp hholds
      omega
    simp only [pushPacket_of_part hpart, Option.map_some, hposted s.client rfl]
    refine ⟨_, rfl, Or.inl ⟨by omega, by simp, ?_⟩⟩
    exact ⟨by rw [hcontext], hsent, by omega, hs.socket, rfl, hs.faulted⟩

/-- One frame in a buffer with room for it is not queued before it is whole, and once then. -/
theorem delivers_one (hsize : b.size ≤ maxBufferSize) (hroom : f.encode.length ≤ b.size)
    (hcopy : b.Copies memory f) (hs : s.Filled b f.encode []) (hqueue : s.mPacketQueue = []) :
    Delivers memory s [f] := by
  intro es t hrun hlimit
  have hinv : ∃ bytes, t.Filled b f.encode bytes ∧
      (bytes.length < f.encode.length → t.mPacketQueue = []) ∧
      (bytes.length = f.encode.length → List.Forall₂ Packet.Carries t.mPacketQueue [f]) := by
    have hstart : ([] : List UInt8).length ≠ f.encode.length := by
      rw [Frame.length_encode, List.length_nil]
      unfold headerSize
      omega
    refine run_invariant_of_meets (P := fun t : Connection => ∃ bytes, t.Filled b f.encode bytes ∧
      (bytes.length < f.encode.length → t.mPacketQueue = []) ∧
      (bytes.length = f.encode.length → List.Forall₂ Packet.Carries t.mPacketQueue [f]))
      ?_ ⟨[], hs, fun _ => hqueue, fun h => absurd h hstart⟩ hlimit hrun
    · rintro s e t ⟨bytes, hs, hbefore, -⟩ hC hst
      obtain ⟨hn, hrest, hfit⟩ := guards_of_step hs hst
      have hsent : bytes.length + s.rest.length = f.encode.length := by
        rw [← List.length_append, hs.sent_eq]
      have hlength : (s.rest.take e.n).length = e.n := List.length_take_of_le hrest
      rw [← List.append_nil f.encode] at hs
      obtain ⟨t', ht', hcases⟩ := connectionStep_of_room memory hsize hs hC hn hrest hfit
      obtain rfl : t' = t := Option.some.inj (ht'.symm.trans hst)
      rw [List.append_nil] at hcases hs
      have hwhole : f.encode.length ≤ bytes.length + e.n → bytes ++ s.rest.take e.n = f.encode := by
        intro hle
        rw [List.take_of_length_le (by omega), hs.sent_eq]
      rcases hcases with ⟨hpart, hqueue, ht⟩ | ⟨hle, hnone, -⟩ |
        ⟨hle, data, client, context, hdata, hqueue, ht⟩
      · refine ⟨_, ht, fun _ => hqueue.trans (hbefore (by omega)), fun heq => ?_⟩
        rw [List.length_append, hlength] at heq
        omega
      · rw [hwhole hle, hcopy] at hnone
        exact absurd hnone (Option.some_ne_none _)
      · rw [hwhole hle, hcopy] at hdata
        obtain rfl := Option.some.inj hdata
        rw [hbefore (by omega), List.nil_append] at hqueue
        refine ⟨_, ht, fun hlt => ?_, fun _ => ?_⟩
        · rw [hwhole hle] at hlt
          omega
        · rw [hqueue]
          exact List.Forall₂.cons ((Frame.carries_packet_iff rfl).mpr rfl) List.Forall₂.nil
  obtain ⟨bytes, ht, -, hwhole⟩ := hinv
  have hsent : bytes.length + t.rest.length = f.encode.length := by
    rw [← List.length_append, ht.sent_eq]
  refine ⟨ht.faulted, fun hend => hwhole ?_⟩
  rcases hend with hrest | hwindow
  · rw [hrest, List.length_nil] at hsent
    exact hsent
  · have hzero := hwindow _ (by rw [ht.posted]; exact rfl)
    simp only at hzero
    omega

/-- Where a first frame is delivered, it is the only one, and its body is copied whole. -/
theorem copies_of_delivers {f : Frame} (hsize : b.size ≤ maxBufferSize)
    (hqueue : s.mPacketQueue = []) (hcount : s.client.mReceiveCount < maxPacketsPerClient)
    (hs : s.Filled b (stream Frame.encode (f :: fs)) []) (hdelivers : Delivers memory s (f :: fs)) :
    fs = [] ∧ f.encode.length ≤ b.size ∧ b.Copies memory f := by
  have hrest : s.rest = stream Frame.encode (f :: fs) := hs.sent_eq
  rw [stream_cons] at hs hrest
  have hpos : 0 < s.rest.length := by
    rw [hrest, List.length_append, Frame.length_encode]
    unfold headerSize
    omega
  -- The largest first completion that the buffer has room for.
  obtain ⟨n, hn⟩ : ∃ n, n = min s.rest.length b.size := ⟨_, rfl⟩
  rcases Nat.eq_zero_or_pos n with hzero | hn0
  · have hend := (hdelivers [] s rfl trivial).2 (Or.inr fun wsaBuf hposted => ?_)
    · rw [hqueue] at hend
      cases hend
    · rw [hs.posted] at hposted
      obtain rfl := Option.some.inj hposted
      simp only [List.length_nil]
      omega
  · obtain ⟨t, hst, hcases⟩ := connectionStep_of_room memory (e := ⟨n, false⟩) hsize
      hs (Or.inr hcount) hn0 (by simp only; omega) (by simp only [List.length_nil]; omega)
    have ht := hdelivers [⟨n, false⟩] t (run_cons_eq_some.mpr ⟨t, hst, rfl⟩)
      ⟨Or.inr hcount, fun _ _ => trivial⟩
    simp only [List.length_nil, Nat.zero_add, List.nil_append, hqueue] at hcases
    have htotal : s.rest.length = f.encode.length + (stream Frame.encode fs).length := by
      rw [hrest, List.length_append]
    have hend : t.Filled b (f.encode ++ stream Frame.encode fs) (s.rest.take n) →
        t.rest = [] ∨ ∀ wsaBuf ∈ t.posted, wsaBuf.len = 0 := by
      intro hfilled
      have hsplit := congrArg List.length hfilled.sent_eq
      rw [List.length_append, List.length_append, List.length_take] at hsplit
      rw [← List.length_eq_zero_iff, hfilled.posted]
      simp only [Option.mem_def, Option.some.injEq, forall_eq', List.length_take]
      omega
    rcases hcases with ⟨hpart, hnone, hfilled⟩ | ⟨-, -, hfault⟩ |
      ⟨hle, data, client, context, hdata, hone, hfilled⟩
    · have hall := ht.2 (hend hfilled)
      rw [hnone] at hall
      cases hall
    · exact absurd (hfault.symm.trans ht.1) (by decide)
    · have hall := ht.2 (hend hfilled)
      rw [hone] at hall
      cases hall with
      | cons hcarries hnil =>
        cases hnil
        rw [stream_nil, List.append_nil] at hrest
        rw [stream_nil, List.length_nil] at htotal
        have htake : s.rest.take n = f.encode := by
          rw [List.take_of_length_le (by omega), hrest]
        have hbody := (Frame.carries_packet_iff (length_of_copyBody hdata)).mp hcarries
        rw [htake, hbody] at hdata
        exact ⟨rfl, by omega, hdata⟩

theorem delivers_nil (hqueue : s.mPacketQueue = []) (hs : s.Filled b [] []) :
    Delivers memory s [] := by
  intro es t hrun _
  cases es with
  | nil =>
    cases hrun
    exact ⟨hs.faulted, fun _ => hqueue ▸ List.Forall₂.nil⟩
  | cons e es =>
    obtain ⟨u, hu, -⟩ := run_cons_eq_some.mp hrun
    obtain ⟨hn, hle, -⟩ := guards_of_step hs hu
    have hrest : s.rest = [] := hs.sent_eq
    rw [hrest, List.length_nil] at hle
    omega

/-- The frames of a stream are delivered, however they are cut, if and only if there is at most one
of them, the buffer has room for it, and the copy of its body is right. -/
theorem delivers_filled_iff (hsize : b.size ≤ maxBufferSize) (hqueue : s.mPacketQueue = [])
    (hcount : s.client.mReceiveCount < maxPacketsPerClient)
    (hs : s.Filled b (stream Frame.encode fs) []) :
    Delivers memory s fs ↔
      fs = [] ∨ ∃ f, fs = [f] ∧ f.encode.length ≤ b.size ∧ b.Copies memory f := by
  constructor
  · intro hdelivers
    cases fs with
    | nil => exact Or.inl rfl
    | cons f fs =>
      obtain ⟨rfl, hroom, hcopy⟩ := copies_of_delivers hsize hqueue hcount hs hdelivers
      exact Or.inr ⟨f, rfl, hroom, hcopy⟩
  · rintro (rfl | ⟨f, rfl, hroom, hcopy⟩)
    · exact delivers_nil hqueue hs
    · rw [stream_cons, stream_nil, List.append_nil] at hs
      exact delivers_one hsize hroom hcopy hs hqueue

/-- On an accepted connection the frames are delivered, however they are cut, if and only if there
are none. -/
theorem accepted_delivers_iff (memory : Memory (Option UInt8)) (client : ClientSocket)
    (context : NetworkContext) (socket : Socket) (fs : List Frame) :
    Delivers memory (.accepted client context socket fs) fs ↔ fs = [] := by
  have hfilled : (Connection.accepted client context socket fs).Filled
      context.mBuffer.clear (stream Frame.encode fs) [] := by
    refine ⟨?_, rfl, Nat.zero_le _, rfl, rfl, rfl⟩
    rw [Buffer.filled, Memory.write_nil]
    rfl
  rw [delivers_filled_iff (Nat.zero_le _) rfl (show 0 < maxPacketsPerClient by decide) hfilled]
  constructor
  · rintro (hnil | ⟨f, -, hroom, -⟩)
    · exact hnil
    · rw [Frame.length_encode] at hroom
      simp [Buffer.clear, headerSize] at hroom
  · exact Or.inl

/-- One frame, without a body, sent on a connection whose receive has room for no byte. -/
theorem empty_body_unreceived :
    ¬Delivers (fun _ => none)
      (.accepted { mIndex := 1 } { Index := 0, mBuffer := { mBuffer := fun _ => 0 } } 0
        [⟨1, [], by decide⟩]) [⟨1, [], by decide⟩] := by
  intro hdelivers
  have hend := (hdelivers [] _ rfl trivial).2 (Or.inr fun wsaBuf hposted => ?_)
  · cases hend
  · obtain rfl := Option.some.inj hposted
    rfl

end IocpStudy.SBServer
