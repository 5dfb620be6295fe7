import Mathlib.Data.List.Forall2
import IocpStudy.Lib.Heap
import IocpStudy.Iocpsolution.EchoServer

/-! The memory of the EchoServer.  `OnReceive` copies a chunk to the heap, `DequePacketData` makes a
copy of that copy and releases the first one, `SendMsg` makes a third one for the `WSASend`, and
`SendCompleted` releases that.  The process thread's own copy is released by nobody.  The steps are
those of `EchoServer`, and an access to a block that is not live has no result. -/

namespace IocpStudy.Iocpsolution

open Runs

/-- The `new` expression that a block is from: `PacketData::Set` in `OnReceive` or in
`DequePacketData`, or one of the two in `SendMsg` of a client, where a buffer belongs to the
`stOverlappedEx` at `sendOverlappedEx`. -/
inductive Site
  | onReceive
  | dequePacketData
  | overlappedEx (clientIndex : ℕ)
  | wsaBuf (clientIndex sendOverlappedEx : ℕ)
deriving Repr, DecidableEq

inductive Contents
  | chars (bytes : List UInt8)
  | overlappedEx (len buf : ℕ)
deriving Repr, DecidableEq

structure Block where
  site : Site
  contents : Contents
deriving Repr, DecidableEq

/-- A `PacketData` with its pointer. -/
structure PacketPointer where
  SessionIndex : ℕ := 0
  DataSize : ℕ := 0
  pPacketData : Option ℕ := none
deriving Repr, DecidableEq

/-- What `CopyMemory` reads. -/
def copyMemory (heap : Heap Block) (source : Option ℕ) (size : ℕ) : Option (List UInt8) :=
  source.bind fun p =>
    match heap.load p with
    | some ⟨_, .chars bytes⟩ => if size ≤ bytes.length then some (bytes.take size) else none
    | _ => none

namespace PacketPointer

/-- `Set(PacketData& value)`. -/
def set (heap : Heap Block) (value : PacketPointer) : Option (PacketPointer × Heap Block) :=
  (copyMemory heap value.pPacketData value.DataSize).map fun bytes =>
    ({ value with pPacketData := some heap.next }, heap.alloc ⟨.dequePacketData, .chars bytes⟩)

/-- `Release`. -/
def release (heap : Heap Block) (value : PacketPointer) : Option (Heap Block) :=
  match value.pPacketData with
  | none => some heap
  | some p => heap.free p

end PacketPointer

/-- The send queue of a client by the addresses of its entries, and those that are outstanding. -/
structure SendPointers where
  mSendQueue : List ℕ := []
  outstanding : List ℕ := []
deriving Repr, DecidableEq

structure EchoHeap where
  heap : Heap Block := {}
  mPacketDataQueue : List PacketPointer := []
  packetData : Option PacketPointer := none
  clients : ℕ → SendPointers := fun _ => {}

/-- `SendIO`: the entry that it gives to `WSASend`, whose buffer must be there. -/
def sendIO (heap : Heap Block) : List ℕ → Option ℕ
  | [] => none
  | front :: _ =>
    match heap.load front with
    | some ⟨_, .overlappedEx len buf⟩ => (copyMemory heap (some buf) len).map fun _ => front
    | _ => none

/-- The call of `SendIO` under a condition, with the entry it gave to `WSASend`. -/
def sendIOIf (condition : Bool) (heap : Heap Block) (mSendQueue : List ℕ) : Option (Option ℕ) :=
  if condition then ( sendIO heap mSendQueue).map some else some none

namespace EchoHeap

def onReceive (s : EchoHeap) (clientIndex : ℕ) (pData : List UInt8) : EchoHeap :=
  { s with
    heap := s.heap.alloc ⟨.onReceive, .chars pData⟩
    mPacketDataQueue :=
      s.mPacketDataQueue ++ [⟨clientIndex, pData.length, some s.heap.next⟩] }

def dequePacketData (s : EchoHeap) : Option (PacketPointer × EchoHeap) :=
  match s.mPacketDataQueue with
  | [] => some ({}, s)
  | front :: rest => do
    let (packetData, heap) ← PacketPointer.set s.heap front
    let heap ← PacketPointer.release heap front
    return (packetData, { s with heap, mPacketDataQueue := rest })

/-- `SendMsg` for the packet of the process thread, which has nothing more to do with it. -/
def sendMsg (s : EchoHeap) (packetData : PacketPointer) (wsaSend : Bool) : Option EchoHeap := do
  let i := packetData.SessionIndex
  let client := s.clients i
  let sendOverlappedEx := s.heap.next
  -- Its `buf` is set when the buffer is allocated, which comes next.
  let heap :=
    s.heap.alloc ⟨.overlappedEx i, .overlappedEx packetData.DataSize (sendOverlappedEx + 1)⟩
  let bytes ← copyMemory heap packetData.pPacketData packetData.DataSize
  let heap := heap.alloc ⟨.wsaBuf i sendOverlappedEx, .chars bytes⟩
  let mSendQueue := client.mSendQueue ++ [sendOverlappedEx]
  let sent ← sendIOIf (mSendQueue.length = 1) heap mSendQueue
  let outstanding := client.outstanding ++ if wsaSend then sent.toList else []
  return { s with
    heap
    packetData := none
    clients := Function.update s.clients i { mSendQueue, outstanding } }

/-- `SendCompleted` of a client for its outstanding send number `k`. -/
def sendCompleted (s : EchoHeap) (i k : ℕ) (wsaSend : Bool) : Option EchoHeap :=
  let client := s.clients i
  if k < client.outstanding.length then
    match client.mSendQueue with
    | [] => none
    | front :: mSendQueue =>
      match s.heap.load front with
      | some ⟨_, .overlappedEx _ buf⟩ => do
        let heap ← s.heap.free buf
        let heap ← heap.free front
        let sent ← sendIOIf (!mSendQueue.isEmpty) heap mSendQueue
        let outstanding := client.outstanding.eraseIdx k ++ if wsaSend then sent.toList else []
        return { s with
          heap
          clients := Function.update s.clients i { mSendQueue, outstanding } }
      | _ => none
  else none

end EchoHeap

def heapStep (s : EchoHeap) : EchoEvent → Option EchoHeap
  | .onReceive clientIndex pData => some (s.onReceive clientIndex pData)
  | .dequePacketData =>
    match s.packetData with
    | some _ => none
    | none => s.dequePacketData.map fun (packetData, s) =>
      if packetData.DataSize ≠ 0 then { s with packetData := some packetData } else s
  | .sendMsg wsaSend => s.packetData.bind fun packetData => s.sendMsg packetData wsaSend
  | .sendCompleted i k wsaSend => s.sendCompleted i k wsaSend

/-! ### What the pointers stand for -/

/-- The packet at a pointer is a packet of `EchoServer`, in a live block from `site`. -/
def Packet (heap : Heap Block) (site : Site) (packet : PacketPointer) (value : PacketData) : Prop :=
  packet.SessionIndex = value.SessionIndex ∧ packet.DataSize = value.bytes.length ∧
    ∃ p, packet.pPacketData = some p ∧ heap.load p = some ⟨site, .chars value.bytes⟩

/-- An entry of a send queue and its buffer are live, and hold an entry of `OneSend`. -/
def Entry (heap : Heap Block) (clientIndex address : ℕ) (value : OneSend.StOverlappedEx) : Prop :=
  ∃ buf, heap.load address =
      some ⟨.overlappedEx clientIndex, .overlappedEx value.bytes.length buf⟩ ∧
    heap.load buf = some ⟨.wsaBuf clientIndex address, .chars value.bytes⟩

/-- The send queues with pointers are those without, and each outstanding send is of the front. -/
structure Sending (heap : Heap Block) (clientIndex : ℕ) (client : SendPointers)
    (value : OneSend.State) : Prop where
  entries : List.Forall₂ (Entry heap clientIndex) client.mSendQueue value.mSendQueue
  distinct : client.mSendQueue.Nodup
  outstanding : client.outstanding = [] ∧ value.outstanding = [] ∨
    client.outstanding = client.mSendQueue.head?.toList ∧
      value.outstanding = value.mSendQueue.head?.toList

/-- Every block that can be reached is live, with the bytes that `EchoServer` has there. -/
structure Represents (s : EchoHeap) (value : EchoServer) : Prop where
  queue : List.Forall₂ (Packet s.heap .onReceive) s.mPacketDataQueue value.mPacketDataQueue
  distinct : (s.mPacketDataQueue.map PacketPointer.pPacketData).Nodup
  hand : Option.Rel (Packet s.heap .dequePacketData) s.packetData value.packetData
  sending : ∀ i, Sending s.heap i (s.clients i) (value.clients i)

/-- The block holds a copy of a received chunk that `PacketData::Set` made. -/
def Block.isPacket (block : Block) : Bool :=
  match block.site with
  | .onReceive => true
  | .dequePacketData => true
  | _ => false

/-- The block is of a send. -/
def Block.isSend (block : Block) : Bool := !block.isPacket

variable {heap heap' : Heap Block} {site : Site} {packet : PacketPointer} {value : PacketData}
  {entry : OneSend.StOverlappedEx} {i a p : ℕ} {block : Block} {s t : EchoHeap} {v w : EchoServer}
  {e : EchoEvent} {es : List EchoEvent}

theorem copyMemory_of_packet (h : Packet heap site packet value) :
    copyMemory heap packet.pPacketData packet.DataSize = some value.bytes := by
  obtain ⟨-, hsize, p, hp, hload⟩ := h
  rw [copyMemory, hp, hsize, Option.bind_some, hload]
  simp

theorem set_of_packet (h : Packet heap site packet value) :
    PacketPointer.set heap packet = some ({ packet with pPacketData := some heap.next },
      heap.alloc ⟨.dequePacketData, .chars value.bytes⟩) := by
  rw [PacketPointer.set, copyMemory_of_packet h, Option.map_some]

theorem Packet.alloc (h : Packet heap site packet value) :
    Packet (heap.alloc block) site packet value := by
  obtain ⟨hindex, hsize, p, hp, hload⟩ := h
  exact ⟨hindex, hsize, p, hp, Heap.load_alloc hload⟩

theorem Entry.alloc (h : Entry heap i a entry) : Entry (heap.alloc block) i a entry := by
  obtain ⟨buf, ha, hbuf⟩ := h
  exact ⟨buf, Heap.load_alloc ha, Heap.load_alloc hbuf⟩

/-- A block outlives one from elsewhere. -/
theorem load_of_free_of_site {b : Block} (hfree : heap.free p = some heap')
    (hp : heap.load p = some block) (ha : heap.load a = some b) (hsite : b.site ≠ block.site) :
    heap'.load a = some b := by
  have hne : a ≠ p := by
    rintro rfl
    obtain rfl := Option.some.inj (ha.symm.trans hp)
    exact hsite rfl
  rw [Heap.load_of_free_of_ne hfree hne, ha]

theorem Packet.free_of_site (h : Packet heap site packet value) (hfree : heap.free p = some heap')
    (hp : heap.load p = some block) (hsite : site ≠ block.site) :
    Packet heap' site packet value := by
  obtain ⟨hindex, hsize, q, hq, hload⟩ := h
  exact ⟨hindex, hsize, q, hq, load_of_free_of_site hfree hp hload hsite⟩

theorem Packet.free_of_ne (h : Packet heap site packet value) (hfree : heap.free p = some heap')
    (hne : packet.pPacketData ≠ some p) : Packet heap' site packet value := by
  obtain ⟨hindex, hsize, q, hq, hload⟩ := h
  have hqp : q ≠ p := fun heq => hne (by rw [hq, heq])
  exact ⟨hindex, hsize, q, hq, by rw [Heap.load_of_free_of_ne hfree hqp, hload]⟩

/-- An entry outlives a block that is neither an entry of its client nor its buffer. -/
theorem Entry.free_of_site (h : Entry heap i a entry) (hfree : heap.free p = some heap')
    (hp : heap.load p = some block) (hoverlapped : .overlappedEx i ≠ block.site)
    (hbuf : .wsaBuf i a ≠ block.site) : Entry heap' i a entry := by
  obtain ⟨buf, hload, hbytes⟩ := h
  exact ⟨buf, load_of_free_of_site hfree hp hload hoverlapped,
    load_of_free_of_site hfree hp hbytes hbuf⟩

/-- What an operation keeps of all entries, it keeps of the send queue. -/
theorem Sending.mono {client : SendPointers} {state : OneSend.State}
    (h : Sending heap i client state)
    (hentry : ∀ a entry, Entry heap i a entry → Entry heap' i a entry) :
    Sending heap' i client state :=
  ⟨h.entries.imp hentry, h.distinct, h.outstanding⟩

theorem represents_start : Represents {} {} :=
  ⟨.nil, List.nodup_nil, .none, fun _ => ⟨.nil, List.nodup_nil, Or.inl ⟨rfl, rfl⟩⟩⟩

/-! ### The queue of packets -/

theorem packets_live {q : List PacketPointer} {values : List PacketData}
    (h : List.Forall₂ (Packet heap site) q values) :
    ∀ packet ∈ q, ∃ p block, packet.pPacketData = some p ∧ heap.load p = some block := by
  have hlive : List.Forall₂ (fun packet value =>
      (∃ p block, packet.pPacketData = some p ∧ heap.load p = some block) ∧
        Packet heap site packet value) q values := by
    refine h.imp fun packet value hpacket => ⟨?_, hpacket⟩
    obtain ⟨-, -, p, hp, hload⟩ := hpacket
    exact ⟨p, _, hp, hload⟩
  exact ((List.forall₂_and_left q _).mp hlive).1

theorem Represents.onReceive (h : Represents s v) (clientIndex : ℕ) (pData : List UInt8) :
    Represents (s.onReceive clientIndex pData) (v.onReceive clientIndex pData) := by
  refine ⟨?_, ?_, ?_, fun i => (h.sending i).mono fun _ _ hentry => hentry.alloc⟩
  · refine List.rel_append (h.queue.imp fun _ _ hpacket => hpacket.alloc) ?_
    exact .cons ⟨rfl, rfl, s.heap.next, rfl, Heap.load_alloc_self _ _⟩ .nil
  · simp only [EchoHeap.onReceive, List.map_append, List.map_cons, List.map_nil]
    refine List.nodup_append.mpr ⟨h.distinct, List.nodup_singleton _, ?_⟩
    intro pointer hold pointer' hnew heq
    obtain ⟨packet, hmem, rfl⟩ := List.mem_map.mp hold
    obtain ⟨p, block, hp, hload⟩ := packets_live h.queue packet hmem
    rw [List.mem_singleton.mp hnew, hp] at heq
    exact Heap.ne_next_of_load hload (Option.some.inj heq)
  · have hhand := h.hand
    cases hs : s.packetData with
    | none =>
      cases hv : v.packetData with
      | none => simp [EchoHeap.onReceive, EchoServer.onReceive, hs, hv]
      | some value => simp [hs, hv] at hhand
    | some packet =>
      cases hv : v.packetData with
      | none => simp [hs, hv] at hhand
      | some value =>
        simp only [hs, hv, Option.rel_some_some] at hhand
        simp only [EchoHeap.onReceive, EchoServer.onReceive, hs, hv, Option.rel_some_some]
        exact hhand.alloc

/-- The packet that is taken is copied, and its first copy released. -/
theorem dequePacketData_of_cons {rest : List PacketPointer} {values : List PacketData}
    (hqueue : s.mPacketDataQueue = packet :: rest)
    (h : List.Forall₂ (Packet s.heap .onReceive) (packet :: rest) (value :: values))
    (hdistinct : ((packet :: rest).map PacketPointer.pPacketData).Nodup) :
    ∃ heap p, s.dequePacketData = some ({ packet with pPacketData := some s.heap.next },
        { s with heap, mPacketDataQueue := rest }) ∧
      s.heap.load p = some ⟨.onReceive, .chars value.bytes⟩ ∧
      (s.heap.alloc ⟨.dequePacketData, .chars value.bytes⟩).free p = some heap ∧
      List.Forall₂ (Packet heap .onReceive) rest values := by
  obtain ⟨hpacket, hrest⟩ := List.forall₂_cons.mp h
  obtain ⟨hindex, hsize, p, hp, hload⟩ := hpacket
  have hset := set_of_packet ⟨hindex, hsize, p, hp, hload⟩
  obtain ⟨heap, hfree⟩ := Heap.exists_free
    (Heap.load_alloc (a := (⟨.dequePacketData, .chars value.bytes⟩ : Block)) hload)
  have hrelease : packet.release (s.heap.alloc ⟨.dequePacketData, .chars value.bytes⟩) =
      some heap := by
    rw [PacketPointer.release, hp]
    exact hfree
  refine ⟨heap, p, ?_, hload, hfree, ?_⟩
  · simp only [EchoHeap.dequePacketData, hqueue, hset, hrelease, Option.bind_eq_bind,
      Option.bind_some]
    rfl
  · have hne : ∀ other ∈ rest, other.pPacketData ≠ some p := by
      intro other hmem heq
      rw [List.map_cons, hp] at hdistinct
      refine (List.nodup_cons.mp hdistinct).1 ?_
      rw [← heq]
      exact List.mem_map_of_mem hmem
    exact ((List.forall₂_and_left rest _).mpr ⟨hne, hrest⟩).imp fun _ _ hother =>
      hother.2.alloc.free_of_ne hfree hother.1

/-- The send queues are not touched by the release of a packet. -/
theorem Sending.release {client : SendPointers} {state : OneSend.State} {bytes : List UInt8}
    (h : Sending heap i client state) (hp : heap.load p = some ⟨.onReceive, .chars bytes⟩)
    (hfree : (heap.alloc block).free p = some heap') : Sending heap' i client state :=
  h.mono fun _ _ hentry =>
    hentry.alloc.free_of_site hfree (Heap.load_alloc hp) Site.noConfusion Site.noConfusion

theorem Represents.hand_none (h : Represents s v) : s.packetData = none ↔ v.packetData = none := by
  have hhand := h.hand
  cases hs : s.packetData <;> cases hv : v.packetData <;> simp [hs, hv] at hhand ⊢

theorem Represents.dequePacketData (h : Represents s v)
    (hstep : echoStep v .dequePacketData = some w) :
    ∃ t, heapStep s .dequePacketData = some t ∧ Represents t w ∧
      t.heap.count Block.isPacket = s.heap.count Block.isPacket ∧
      t.heap.count Block.isSend = s.heap.count Block.isSend := by
  simp only [echoStep] at hstep
  split at hstep
  next => exact absurd hstep.symm (Option.some_ne_none w)
  next hv =>
  have hs : s.packetData = none := h.hand_none.mpr hv
  have hqueue := h.queue
  have hdistinct := h.distinct
  rw [EchoServer.dequePacketData] at hstep
  cases hsq : s.mPacketDataQueue with
  | nil =>
    rw [hsq, List.forall₂_nil_left_iff] at hqueue
    rw [hqueue] at hstep
    obtain rfl := Option.some.inj hstep
    refine ⟨s, ?_, h, rfl, rfl⟩
    rw [heapStep, hs]
    simp only [EchoHeap.dequePacketData, hsq, Option.map_some]
    rfl
  | cons packet rest =>
    rw [hsq] at hqueue hdistinct
    obtain ⟨value, values, hvalue, -, hvq⟩ := List.forall₂_cons_left_iff.mp hqueue
    rw [hvq] at hqueue hstep
    obtain ⟨heap, p, hdeque, hload, hfree, hrest⟩ := dequePacketData_of_cons hsq hqueue hdistinct
    have hpackets : heap.count Block.isPacket = s.heap.count Block.isPacket := by
      have hfreed := Heap.count_of_free (P := Block.isPacket) (Heap.load_alloc hload) hfree
      rw [Heap.count_alloc] at hfreed
      exact Nat.add_right_cancel hfreed
    have hsends : heap.count Block.isSend = s.heap.count Block.isSend := by
      have hfreed := Heap.count_of_free (P := Block.isSend) (Heap.load_alloc hload) hfree
      rw [Heap.count_alloc] at hfreed
      exact Nat.add_right_cancel hfreed
    have hsending : ∀ i, Sending heap i (s.clients i) (v.clients i) :=
      fun i => (h.sending i).release hload hfree
    have hdistinct' := (List.nodup_cons.mp hdistinct).2
    obtain ⟨hindex, hlength, -⟩ := hvalue
    simp only [heapStep, hs, hdeque, Option.map_some]
    refine ⟨_, rfl, ?_⟩
    by_cases hbytes : value.bytes.length ≠ 0
    · rw [if_pos hbytes] at hstep
      obtain rfl := Option.some.inj hstep
      rw [if_pos (by rw [hlength]; exact hbytes)]
      have hload' : heap.load s.heap.next = some ⟨.dequePacketData, .chars value.bytes⟩ := by
        rw [Heap.load_of_free_of_ne hfree (Heap.ne_next_of_load hload).symm, Heap.load_alloc_self]
      exact ⟨⟨hrest, hdistinct', .some ⟨hindex, hlength, s.heap.next, rfl, hload'⟩, hsending⟩,
        hpackets, hsends⟩
    · rw [if_neg hbytes] at hstep
      obtain rfl := Option.some.inj hstep
      rw [if_neg (by rw [hlength]; exact hbytes)]
      refine ⟨⟨hrest, hdistinct', ?_, hsending⟩, hpackets, hsends⟩
      show Option.Rel _ none v.packetData
      rw [hv]
      exact .none

/-! ### The send queues -/

theorem sendIO_of_entry {q : List ℕ} (h : Entry heap i a entry) :
    sendIO heap (a :: q) = some a := by
  obtain ⟨buf, hload, hbytes⟩ := h
  simp [ sendIO, hload, copyMemory, hbytes]

theorem entries_live {q : List ℕ} {values : List OneSend.StOverlappedEx}
    (h : List.Forall₂ (Entry heap i) q values) : ∀ a ∈ q, ∃ block, heap.load a = some block := by
  have hlive : List.Forall₂ (fun a entry => (∃ block, heap.load a = some block) ∧
      Entry heap i a entry) q values := by
    refine h.imp fun a entry hentry => ⟨?_, hentry⟩
    obtain ⟨buf, hload, -⟩ := hentry
    exact ⟨_, hload⟩
  exact ((List.forall₂_and_left q _).mp hlive).1

/-- The lock section of `SendMsg`, with an entry that was allocated for it. -/
theorem Sending.sendMsg {client : SendPointers} {state state' : OneSend.State}
    {bytes : List UInt8} {wsaSend : Bool} (h : Sending heap i client state)
    (hentry : Entry heap i a ⟨state.allocated, bytes⟩) (hnew : a ∉ client.mSendQueue)
    (hstep : OneSend.step state (.sendMsg bytes wsaSend) = some state') :
    ∃ sent, sendIOIf ((client.mSendQueue ++ [a]).length = 1) heap (client.mSendQueue ++ [a]) =
        some sent ∧
      Sending heap i
        { mSendQueue := client.mSendQueue ++ [a]
          outstanding := client.outstanding ++ if wsaSend then sent.toList else [] } state' := by
  obtain rfl := Option.some.inj hstep
  have hentries : List.Forall₂ (Entry heap i) (client.mSendQueue ++ [a])
      (state.mSendQueue ++ [⟨state.allocated, bytes⟩]) :=
    List.rel_append h.entries (.cons hentry .nil)
  have hdistinct : (client.mSendQueue ++ [a]).Nodup := by
    refine List.nodup_append.mpr ⟨h.distinct, List.nodup_singleton _, ?_⟩
    intro old hold new hmem heq
    rw [List.mem_singleton.mp hmem] at heq
    exact hnew (heq ▸ hold)
  have hentriesOld := h.entries
  have houtstanding := h.outstanding
  cases hq : client.mSendQueue with
  | nil =>
    rw [hq, List.forall₂_nil_left_iff] at hentriesOld
    rw [hq] at hentries hdistinct houtstanding
    simp only [hentriesOld, List.head?_nil, Option.toList_none, or_self] at houtstanding
    refine ⟨some a, by simp [sendIOIf, sendIO_of_entry hentry], ?_, hdistinct, ?_⟩
    · simpa [OneSend.State.left, hentriesOld] using hentries
    · simp only [OneSend.State.left, hentriesOld, OneSend.sendMsg_nil, houtstanding.1,
        houtstanding.2]
      cases wsaSend
      · exact Or.inl ⟨rfl, rfl⟩
      · exact Or.inr ⟨rfl, rfl⟩
  | cons front rest =>
    rw [hq] at hentries hdistinct houtstanding
    obtain ⟨value, values, -, -, hvq⟩ := List.forall₂_cons_left_iff.mp (hq ▸ hentriesOld)
    refine ⟨none, by simp [sendIOIf], ?_, hdistinct, ?_⟩
    · simpa [OneSend.State.left, hvq] using hentries
    · rw [hvq] at houtstanding
      simpa [OneSend.State.left, hvq] using houtstanding

/-- An entry outlives another entry of its client. -/
theorem Entry.free_of_ne (h : Entry heap i a entry) (hfree : heap.free p = some heap')
    (hp : heap.load p = some block) (hne : a ≠ p) (hbuf : .wsaBuf i a ≠ block.site) :
    Entry heap' i a entry := by
  obtain ⟨buf, hload, hbytes⟩ := h
  exact ⟨buf, by rw [Heap.load_of_free_of_ne hfree hne, hload],
    load_of_free_of_site hfree hp hbytes hbuf⟩

/-- The release of the front entry of a send queue: only its two blocks are gone. -/
theorem release_entry {front : ℕ} (h : Entry heap i front entry) :
    ∃ buf heap₁ heap₂, heap.load front =
        some ⟨.overlappedEx i, .overlappedEx entry.bytes.length buf⟩ ∧
      heap.free buf = some heap₁ ∧ heap₁.free front = some heap₂ ∧
      (heap₂.count Block.isPacket = heap.count Block.isPacket ∧
        heap₂.count Block.isSend + 2 = heap.count Block.isSend) ∧
      (∀ j a other, j ≠ i ∨ a ≠ front → Entry heap j a other → Entry heap₂ j a other) ∧
      (∀ packet value, Packet heap .onReceive packet value →
        Packet heap₂ .onReceive packet value) ∧
      ∀ packet value, Packet heap .dequePacketData packet value →
        Packet heap₂ .dequePacketData packet value := by
  obtain ⟨buf, hfront, hbuf⟩ := h
  obtain ⟨heap₁, hfree₁⟩ := Heap.exists_free hbuf
  have hfront₁ : heap₁.load front = some ⟨.overlappedEx i, .overlappedEx _ buf⟩ :=
    load_of_free_of_site hfree₁ hbuf hfront Site.noConfusion
  obtain ⟨heap₂, hfree₂⟩ := Heap.exists_free hfront₁
  refine ⟨buf, heap₁, heap₂, hfront, hfree₁, hfree₂, ?_, ?_, ?_, ?_⟩
  · have hpackets₁ := Heap.count_of_free (P := Block.isPacket) hbuf hfree₁
    have hpackets₂ := Heap.count_of_free (P := Block.isPacket) hfront₁ hfree₂
    have hsends₁ := Heap.count_of_free (P := Block.isSend) hbuf hfree₁
    have hsends₂ := Heap.count_of_free (P := Block.isSend) hfront₁ hfree₂
    simp only [Block.isSend, Block.isPacket, Bool.not_false, if_true, Bool.false_eq_true,
      if_false] at hpackets₁ hpackets₂ hsends₁ hsends₂
    omega
  · intro j a other hother hentry
    have hsite : Site.wsaBuf j a ≠ .wsaBuf i front := by
      rintro heq
      obtain ⟨rfl, rfl⟩ := Site.wsaBuf.inj heq
      rcases hother with hne | hne <;> exact hne rfl
    have hentry₁ := hentry.free_of_site hfree₁ hbuf Site.noConfusion hsite
    by_cases ha : a = front
    · have hj : Site.overlappedEx j ≠ .overlappedEx i := by
        intro heq
        rcases hother with hne | hne
        · exact hne (Site.overlappedEx.inj heq)
        · exact hne ha
      exact hentry₁.free_of_site hfree₂ hfront₁ hj Site.noConfusion
    · exact hentry₁.free_of_ne hfree₂ hfront₁ ha Site.noConfusion
  · intro packet value hpacket
    exact (hpacket.free_of_site hfree₁ hbuf Site.noConfusion).free_of_site hfree₂ hfront₁
      Site.noConfusion
  · intro packet value hpacket
    exact (hpacket.free_of_site hfree₁ hbuf Site.noConfusion).free_of_site hfree₂ hfront₁
      Site.noConfusion

/-- The lock section of `SendCompleted`, behind the release of the front entry. -/
theorem Sending.sendCompleted {client : SendPointers} {state state' : OneSend.State} {k : ℕ}
    {wsaSend : Bool} (h : Sending heap i client state)
    (hstep : OneSend.step state (.completed k wsaSend) = some state') :
    k < client.outstanding.length ∧
      ∃ front rest value, client.mSendQueue = front :: rest ∧ Entry heap i front value ∧
        ∀ heap', (∀ a other, a ≠ front → Entry heap i a other → Entry heap' i a other) →
          ∃ sent, sendIOIf (!rest.isEmpty) heap' rest = some sent ∧
            Sending heap' i ⟨rest, client.outstanding.eraseIdx k ++
              if wsaSend then sent.toList else []⟩ state' := by
  simp only [OneSend.step, Option.ite_none_right_eq_some] at hstep
  obtain ⟨hk, hstep⟩ := hstep
  rcases h.outstanding with ⟨-, hnone⟩ | ⟨hout, hvout⟩
  · rw [hnone] at hk
    exact absurd hk (Nat.not_lt_zero k)
  · have hentries := h.entries
    have hdistinct := h.distinct
    cases hvq : state.mSendQueue with
    | nil =>
      rw [hvout, hvq] at hk
      exact absurd hk (Nat.not_lt_zero k)
    | cons value values =>
      rw [hvq] at hentries hvout hstep
      obtain ⟨front, rest, hvalue, hrest, hq⟩ := List.forall₂_cons_right_iff.mp hentries
      rw [hq] at hout hdistinct
      rw [hvout] at hk hstep
      obtain rfl : k = 0 := Nat.lt_one_iff.mp hk
      rw [hout]
      refine ⟨Nat.zero_lt_one, front, rest, value, hq, hvalue, fun heap' hkeep => ?_⟩
      obtain ⟨hfront, hdistinct'⟩ := List.nodup_cons.mp hdistinct
      have hne : ∀ a ∈ rest, a ≠ front := by
        rintro a hmem rfl
        exact hfront hmem
      have hrest' : List.Forall₂ (Entry heap' i) rest values :=
        ((List.forall₂_and_left rest _).mpr ⟨hne, hrest⟩).imp fun a other hother =>
          hkeep a other hother.1 hother.2
      obtain rfl := Option.some.inj hstep
      cases hrest' with
      | nil =>
        refine ⟨none, rfl, .nil, List.nodup_nil, Or.inl ?_⟩
        cases wsaSend <;> exact ⟨rfl, rfl⟩
      | @cons a other rest values hother hrest' =>
        refine ⟨some a, ?_, .cons hother hrest', hdistinct', ?_⟩
        · rw [sendIOIf, sendIO_of_entry hother]
          rfl
        · cases wsaSend
          · exact Or.inl ⟨rfl, rfl⟩
          · exact Or.inr ⟨rfl, rfl⟩

/-! ### Every step -/

/-- A client whose queue the step does not touch keeps it. -/
theorem sending_update {clients : ℕ → SendPointers} {states : ℕ → OneSend.State}
    {client : SendPointers} {state : OneSend.State} (hi : Sending heap i client state)
    (hother : ∀ j, j ≠ i → Sending heap j (clients j) (states j)) (j : ℕ) :
    Sending heap j (Function.update clients i client j) (Function.update states i state j) := by
  by_cases hj : j = i
  · subst hj
    rw [Function.update_self, Function.update_self]
    exact hi
  · rw [Function.update_of_ne hj, Function.update_of_ne hj]
    exact hother j hj

theorem sendMsg_eq {heap₁ heap₂ : Heap Block} {bytes : List UInt8} {sent : Option ℕ}
    {wsaSend : Bool}
    (h₁ : s.heap.alloc ⟨.overlappedEx packet.SessionIndex,
      .overlappedEx packet.DataSize (s.heap.next + 1)⟩ = heap₁)
    (hcopy : copyMemory heap₁ packet.pPacketData packet.DataSize = some bytes)
    (h₂ : heap₁.alloc ⟨.wsaBuf packet.SessionIndex s.heap.next, .chars bytes⟩ = heap₂)
    (hsent : sendIOIf (((s.clients packet.SessionIndex).mSendQueue ++ [s.heap.next]).length = 1)
      heap₂ ((s.clients packet.SessionIndex).mSendQueue ++ [s.heap.next]) = some sent) :
    s.sendMsg packet wsaSend = some { s with
      heap := heap₂
      packetData := none
      clients := Function.update s.clients packet.SessionIndex
        { mSendQueue := (s.clients packet.SessionIndex).mSendQueue ++ [s.heap.next]
          outstanding := (s.clients packet.SessionIndex).outstanding ++
            if wsaSend then sent.toList else [] } } := by
  subst h₁ h₂
  simp only [EchoHeap.sendMsg, Option.bind_eq_bind, hcopy, Option.bind_some, hsent]
  rfl

theorem Represents.sendMsg {wsaSend : Bool} (h : Represents s v)
    (hstep : echoStep v (.sendMsg wsaSend) = some w) :
    ∃ t, heapStep s (.sendMsg wsaSend) = some t ∧ Represents t w ∧
      t.heap.count Block.isPacket = s.heap.count Block.isPacket ∧
      t.heap.count Block.isSend = s.heap.count Block.isSend + 2 := by
  obtain ⟨value, hv, hstep⟩ := Option.bind_eq_some_iff.mp hstep
  obtain ⟨state, hstate, rfl⟩ := Option.map_eq_some_iff.mp hstep
  have hhand := h.hand
  rw [hv] at hhand
  cases hs : s.packetData with
  | none => simp [hs] at hhand
  | some packet =>
    rw [hs, Option.rel_some_some] at hhand
    obtain ⟨hindex, hlength, -⟩ := id hhand
    obtain ⟨heap₁, h₁⟩ : ∃ heap₁, s.heap.alloc ⟨.overlappedEx packet.SessionIndex,
      .overlappedEx packet.DataSize (s.heap.next + 1)⟩ = heap₁ := ⟨_, rfl⟩
    obtain ⟨heap₂, h₂⟩ : ∃ heap₂, heap₁.alloc ⟨.wsaBuf packet.SessionIndex s.heap.next,
      .chars value.bytes⟩ = heap₂ := ⟨_, rfl⟩
    have hcopy : copyMemory heap₁ packet.pPacketData packet.DataSize = some value.bytes := by
      rw [← h₁]
      exact copyMemory_of_packet hhand.alloc
    have hentry : Entry heap₂ packet.SessionIndex s.heap.next
        ⟨(v.clients packet.SessionIndex).allocated, value.bytes⟩ := by
      rw [← h₂, ← h₁]
      refine ⟨s.heap.next + 1, ?_, Heap.load_alloc_self _ _⟩
      rw [← hlength]
      exact Heap.load_alloc (Heap.load_alloc_self _ _)
    have hkeep (j : ℕ) : Sending heap₂ j (s.clients j) (v.clients j) := by
      rw [← h₂, ← h₁]
      exact (h.sending j).mono fun _ _ hother => hother.alloc.alloc
    have hnew : s.heap.next ∉ (s.clients packet.SessionIndex).mSendQueue := by
      intro hmem
      obtain ⟨block, hload⟩ := entries_live (h.sending _).entries _ hmem
      exact Heap.ne_next_of_load hload rfl
    rw [← hindex] at hstate ⊢
    obtain ⟨sent, hsent, hsending⟩ := (hkeep _).sendMsg hentry hnew hstate
    refine ⟨_, (congrArg (Option.bind · _) hs).trans (sendMsg_eq h₁ hcopy h₂ hsent),
      ⟨?_, h.distinct, .none, sending_update hsending fun j _ => hkeep j⟩, ?_, ?_⟩
    · rw [← h₂, ← h₁]
      exact h.queue.imp fun _ _ hpacket => hpacket.alloc.alloc
    · show heap₂.count Block.isPacket = _
      rw [← h₂, ← h₁, Heap.count_alloc, Heap.count_alloc]
      rfl
    · show heap₂.count Block.isSend = _
      rw [← h₂, ← h₁, Heap.count_alloc, Heap.count_alloc]
      rfl

theorem Represents.sendCompleted {j k : ℕ} {wsaSend : Bool} (h : Represents s v)
    (hstep : echoStep v (.sendCompleted j k wsaSend) = some w) :
    ∃ t, heapStep s (.sendCompleted j k wsaSend) = some t ∧ Represents t w ∧
      t.heap.count Block.isPacket = s.heap.count Block.isPacket ∧
      t.heap.count Block.isSend + 2 = s.heap.count Block.isSend := by
  obtain ⟨state, hstate, rfl⟩ := Option.map_eq_some_iff.mp hstep
  obtain ⟨hk, front, rest, value, hqueue, hentry, hnext⟩ := (h.sending j).sendCompleted hstate
  obtain ⟨buf, heap₁, heap₂, hload, hfree₁, hfree₂, hcounts, hentries, hreceived, htaken⟩ :=
    release_entry hentry
  obtain ⟨sent, hsent, hsending⟩ :=
    hnext heap₂ fun a other hne hother => hentries j a other (Or.inr hne) hother
  have hothers (i : ℕ) (hi : i ≠ j) : Sending heap₂ i (s.clients i) (v.clients i) :=
    (h.sending i).mono fun a other hother => hentries i a other (Or.inl hi) hother
  refine ⟨{ s with heap := heap₂, clients := Function.update s.clients j ⟨_, _⟩ }, ?_,
    ⟨h.queue.imp hreceived, h.distinct, ?_, sending_update hsending hothers⟩, hcounts⟩
  · simp only [heapStep, EchoHeap.sendCompleted, if_pos hk, hqueue, hload, Option.bind_eq_bind,
      hfree₁, Option.bind_some, hfree₂, hsent]
    rfl
  · have hhand := h.hand
    show Option.Rel _ s.packetData v.packetData
    cases hs : s.packetData <;> cases hv : v.packetData <;> simp only [hs, hv] at hhand ⊢
    · exact .none
    · simp at hhand
    · simp at hhand
    · rw [Option.rel_some_some] at hhand ⊢
      exact htaken _ _ hhand

/-- The chunks received in a run. -/
def receives (es : List EchoEvent) : ℕ :=
  es.countP fun
    | .onReceive _ _ => true
    | _ => false

/-- The messages given to `SendMsg` in a run. -/
def sends (es : List EchoEvent) : ℕ :=
  es.countP fun
    | .sendMsg _ => true
    | _ => false

/-- The sends completed in a run. -/
def completions (es : List EchoEvent) : ℕ :=
  es.countP fun
    | .sendCompleted _ _ _ => true
    | _ => false

/-- The blocks that a step allocates and those that it frees. -/
structure Accounts (s t : EchoHeap) (es : List EchoEvent) : Prop where
  packets : t.heap.count Block.isPacket = s.heap.count Block.isPacket + receives es
  sends : t.heap.count Block.isSend + 2 * completions es =
    s.heap.count Block.isSend + 2 * sends es

theorem represents_step (h : Represents s v) (hstep : echoStep v e = some w) :
    ∃ t, heapStep s e = some t ∧ Represents t w ∧ Accounts s t [e] := by
  cases e with
  | onReceive clientIndex pData =>
    obtain rfl := Option.some.inj hstep
    refine ⟨_, rfl, h.onReceive clientIndex pData, Heap.count_alloc _ _ _, ?_⟩
    exact (Nat.add_zero _).trans (Heap.count_alloc _ _ _)
  | dequePacketData =>
    obtain ⟨t, ht, hrepresents, hpackets, hsends⟩ := h.dequePacketData hstep
    exact ⟨t, ht, hrepresents, hpackets, hsends⟩
  | sendMsg wsaSend =>
    obtain ⟨t, ht, hrepresents, hpackets, hsends⟩ := h.sendMsg hstep
    exact ⟨t, ht, hrepresents, hpackets, hsends⟩
  | sendCompleted j k wsaSend =>
    obtain ⟨t, ht, hrepresents, hpackets, hsends⟩ := h.sendCompleted hstep
    exact ⟨t, ht, hrepresents, hpackets, hsends⟩

/-- Where `EchoServer` has no step, there is none with pointers. -/
theorem heapStep_eq_none (h : Represents s v) (hstep : echoStep v e = none) :
    heapStep s e = none := by
  cases e with
  | onReceive clientIndex pData => exact absurd hstep (Option.some_ne_none _)
  | dequePacketData =>
    cases hs : s.packetData with
    | none =>
      simp [echoStep, h.hand_none.mp hs] at hstep
    | some packet => rw [heapStep, hs]
  | sendMsg wsaSend =>
    cases hv : v.packetData with
    | none => rw [heapStep, h.hand_none.mpr hv, Option.bind_none]
    | some value => simp [echoStep, hv, OneSend.step] at hstep
  | sendCompleted j k wsaSend =>
    have hlength : (s.clients j).outstanding.length = (v.clients j).outstanding.length := by
      rcases (h.sending j).outstanding with ⟨hs, hv⟩ | ⟨hs, hv⟩
      · rw [hs, hv]
        rfl
      · rw [hs, hv]
        have hlengths := (h.sending j).entries.length_eq
        cases hsq : (s.clients j).mSendQueue <;> cases hvq : (v.clients j).mSendQueue <;>
          simp [hsq, hvq] at hlengths ⊢
    have hk : ¬k < (v.clients j).outstanding.length := by
      intro hk
      simp only [echoStep, OneSend.step, if_pos hk] at hstep
      split at hstep <;> exact Option.some_ne_none _ hstep
    rw [heapStep, EchoHeap.sendCompleted, hlength]
    exact if_neg hk

/-- The runs with pointers are those of `EchoServer`: no block is read or freed that is not live,
and every pointer that is left holds the bytes that `EchoServer` has in its place. -/
theorem heap_represents (es : List EchoEvent) :
    Option.Rel Represents (run heapStep {} es) (run echoStep {} es) := by
  suffices hrun : ∀ s v, Represents s v →
      Option.Rel Represents (run heapStep s es) (run echoStep v es) from
    hrun {} {} represents_start
  induction es with
  | nil => exact fun s v h => .some h
  | cons e es ih =>
    intro s v h
    rw [run_cons, run_cons]
    cases hv : echoStep v e with
    | none =>
      rw [heapStep_eq_none h hv]
      exact .none
    | some w =>
      obtain ⟨t, ht, hrepresents, -⟩ := represents_step h hv
      rw [ht]
      exact ih t w hrepresents

/-- The process thread's copy of a chunk is never released: in every run the heap holds a block for
each chunk ever received, and besides the two blocks of each send that has not completed. -/
theorem heap_leaks (es : List EchoEvent) (s : EchoHeap) (h : run heapStep {} es = some s) :
    s.heap.count Block.isPacket = receives es ∧
      s.heap.count Block.isSend + 2 * completions es = 2 * sends es := by
  suffices hrun : ∀ s v, Represents s v → ∀ t, run heapStep s es = some t →
      Accounts s t es by
    have haccounts := hrun {} {} represents_start s h
    exact ⟨haccounts.packets.trans (Nat.zero_add _), haccounts.sends.trans (Nat.zero_add _)⟩
  clear h s
  induction es with
  | nil =>
    intro s v _ t ht
    obtain rfl := Option.some.inj ht
    exact ⟨rfl, rfl⟩
  | cons e es ih =>
    intro s v h t ht
    obtain ⟨u, hu, hrun⟩ := run_cons_eq_some.mp ht
    cases hv : echoStep v e with
    | none => exact absurd (hu.symm.trans (heapStep_eq_none h hv)) (Option.some_ne_none u)
    | some w =>
      obtain ⟨u', hu', hrepresents, hfirst⟩ := represents_step h hv
      obtain rfl := Option.some.inj (hu.symm.trans hu')
      have hrest := ih u w hrepresents t hrun
      have hreceives : receives (e :: es) = receives [e] + receives es := by
        rw [← List.singleton_append]
        exact List.countP_append
      have hsends : sends (e :: es) = sends [e] + sends es := by
        rw [← List.singleton_append]
        exact List.countP_append
      have hcompletions : completions (e :: es) = completions [e] + completions es := by
        rw [← List.singleton_append]
        exact List.countP_append
      have hpackets₁ := hfirst.packets
      have hpackets₂ := hrest.packets
      have hsends₁ := hfirst.sends
      have hsends₂ := hrest.sends
      constructor
      · omega
      · omega

/-- One chunk, echoed and completed: its second copy stays. -/
theorem heap_leaks_one_chunk :
    ∃ s, run heapStep {} [.onReceive 0 [1], .dequePacketData, .sendMsg true,
        .sendCompleted 0 0 true] = some s ∧
      s.heap.blocks.entries.map (fun entry => entry.2) = [⟨.dequePacketData, .chars [1]⟩] ∧
      s.heap.count Block.isPacket = 1 ∧ s.heap.count Block.isSend + 2 * 1 = 2 * 1 :=
  ⟨_, rfl, rfl, heap_leaks [.onReceive 0 [1], .dequePacketData, .sendMsg true,
    .sendCompleted 0 0 true] _ rfl⟩

end IocpStudy.Iocpsolution
