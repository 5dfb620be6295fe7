import IocpStudy.ChatServer.SystemEvents

/-! The bytes behind a packet while it is handled.  `DequeuePacket` returns a pointer into the live
buffer of the user, with the read position behind the packet already, so the chunks that arrive
before the handler runs may be written over it.  They are where a chunk wraps to the front, and
where later ones follow it. -/

namespace IocpStudy.ChatServer

open Words Runs

/-! ### Where a chunk is written -/

namespace User

variable {u : User} {pData : List UInt8}

/-- Where `SetPacketData` puts a chunk of `dataSize` bytes. -/
def writeStart (u : User) (dataSize : ℕ) : ℕ :=
  if u.wraps dataSize then 0 else u.mPacketDataBufferWritePos

/-- What `SetPacketData` moves to the front is covered by the chunk. -/
theorem buffer_setPacketData (hu : u.Ordered) (hsize : pData.length ≤ 256) :
    (u.setPacketData pData).mPacketDataBuffer =
      u.mPacketDataBuffer.write (u.writeStart pData.length) pData := by
  have hw := hu.writePos_lt
  rcases hwraps : u.wraps pData.length with - | -
  · rw [setPacketData_of_fits hu hsize hwraps, writeStart, hwraps]
    rfl
  · have hend := (wraps_iff hu hsize).mp hwraps
    have hremain : subU32 packetDataBufferSize u.mPacketDataBufferWritePos =
        packetDataBufferSize - u.mPacketDataBufferWritePos :=
      subU32_eq (Nat.le_of_lt hw) (by decide)
    simp only [setPacketData, writeStart, hwraps, if_true, hremain]
    rw [if_pos (by omega), Memory.move, Memory.write_write_of_le _ (by simp; omega)]

/-- Each byte of a chunk that is written to the place of a packet is the one that is there. -/
def Spares (u : User) (p : PacketInfo) (pData : List UInt8) : Prop :=
  ∀ pos, p.pPacketData = some pos → ∀ k (h : k < pData.length),
    pos ≤ u.writeStart pData.length + k → u.writeStart pData.length + k < pos + p.DataSize.toNat →
      pData[k] = u.mPacketDataBuffer (u.writeStart pData.length + k)

theorem packetData_setPacketData_iff (hu : u.Ordered) (hsize : pData.length ≤ 256)
    (p : PacketInfo) :
    (u.setPacketData pData).packetData p = u.packetData p ↔ u.Spares p pData := by
  unfold packetData Spares
  cases p.pPacketData with
  | none => exact iff_of_true rfl nofun
  | some pos =>
    simp only [buffer_setPacketData hu hsize, Memory.slice_write_eq_slice_iff,
      Option.some.injEq, forall_eq']

end User

/-! ### The packet in hand -/

/-- The bytes behind the user's packet that the process thread has dequeued and not handled yet. -/
def EventState.bytesInHand (s : EventState) : List UInt8 :=
  match s.point with
  | .userPacket packetData =>
    (s.mPacketManager.user packetData.ClientIndex).packetData packetData
  | _ => []

/-- `frame` has the bytes of the packet in hand as they were when it was dequeued. -/
structure PayloadState where
  events : EventState
  frame : List UInt8 := []

/-- The state after `Init`. -/
def PayloadState.start (maxClient : ℤ) (buffers : ℕ → Memory UInt8) : PayloadState :=
  { events := { mPacketManager := .start maxClient buffers } }

/-- Chunks are what one receive brings: 1 to 256 bytes. -/
def payloadStep (s : PayloadState) (e : ManagerEvent) : Option PayloadState :=
  match e with
  | .setPacketData _ pData =>
    if 0 < pData.length ∧ pData.length ≤ 256 then
      (eventStep s.events e).map fun events => { s with events }
    else none
  | .process => (eventStep s.events e).map fun events => { events, frame := events.bytesInHand }
  | _ => (eventStep s.events e).map fun events => { s with events }

/-- The bytes that the handler of the packet in hand would read now are those that the packet had
when it was dequeued. -/
def PayloadState.Stable (s : PayloadState) : Prop :=
  ∀ p, s.events.point = .userPacket p → sysEnd < p.PacketID →
    (s.events.mPacketManager.processRecvPacket p).2.bytes = s.frame

/-- A chunk that the client of the packet in hand receives leaves the packet's bytes as they are. -/
def PayloadState.Spares (s : PayloadState) (e : ManagerEvent) : Prop :=
  ∀ i pData p, e = .setPacketData i pData → s.events.point = .userPacket p →
    sysEnd < p.PacketID → i = p.ClientIndex → (s.events.mPacketManager.user i).Spares p pData

variable {m : PacketManager} {s t : PayloadState} {e : ManagerEvent} {p : PacketInfo}

theorem bytes_processRecvPacket (m : PacketManager) (p : PacketInfo) :
    (m.processRecvPacket p).2.bytes = (m.user p.ClientIndex).packetData p := by
  rw [PacketManager.processRecvPacket]
  split_ifs <;> rfl

/-! ### The positions of the users -/

/-- The positions of all users are in order. -/
def PacketManager.Ordered (m : PacketManager) : Prop := ∀ i, (m.user i).Ordered

namespace PacketManager.Ordered

theorem start (maxClient : ℤ) (buffers : ℕ → Memory UInt8) :
    (PacketManager.start maxClient buffers).Ordered :=
  fun _ => ⟨le_refl _, show 0 < 8096 by decide⟩

theorem setUser (hm : m.Ordered) (i : ℕ) {u : User} (hu : u.Ordered) : (m.setUser i u).Ordered := by
  intro j
  rw [user_setUser]
  split_ifs
  · exact hu
  · exact hm j

theorem dequeuePacket (hm : m.Ordered) : m.dequeuePacket.2.Ordered := by
  rw [PacketManager.dequeuePacket]
  split
  · exact hm
  · rename_i i rest _
    have hrest : ({ m with mIncomingPacketUserIndex := rest } : PacketManager).Ordered := hm
    exact hrest.setUser i (hm i).getPacket

theorem dequeueSystemPacket (hm : m.Ordered) : m.dequeueSystemPacket.2.Ordered := by
  rw [PacketManager.dequeueSystemPacket]
  split <;> exact hm

theorem processRecvPacket (hm : m.Ordered) (p : PacketInfo) :
    (m.processRecvPacket p).1.Ordered := by
  rw [(processRecvPacket_dispatch m p).1]
  split
  · exact hm.setUser _ User.Ordered.clear
  · exact hm.setUser _ User.Ordered.clear
  · exact hm

end PacketManager.Ordered

theorem ordered_process {s : EventState} (hs : s.mPacketManager.Ordered) :
    s.process.mPacketManager.Ordered := by
  unfold EventState.process
  split
  · exact hs.dequeuePacket
  · split_ifs
    · exact hs.processRecvPacket _
    · exact hs
  · exact hs.dequeueSystemPacket
  · split_ifs
    · exact hs.processRecvPacket _
    · exact hs

/-! ### The steps -/

theorem payloadStep_cases (h : payloadStep s e = some t) :
    (∃ i pData, e = .setPacketData i pData ∧ 0 < pData.length ∧ pData.length ≤ 256 ∧
      t = { s with events := { s.events with
        mPacketManager := s.events.mPacketManager.setUser i
          ((s.events.mPacketManager.user i).setPacketData pData) } }) ∨
    (∃ i, e = .enqueuePacket i ∧ t = { s with events := { s.events with
        mPacketManager := s.events.mPacketManager.enqueuePacket i } }) ∨
    (∃ event, e = .enqueueSystemPacket event ∧ t = { s with events := { s.events with
        mPacketManager := s.events.mPacketManager.enqueueSystemPacket event.packet
        enqueued := s.events.enqueued ++ [event] } }) ∨
    (e = .process ∧ t = { events := s.events.process, frame := s.events.process.bytesInHand }) := by
  cases e with
  | setPacketData i pData =>
    simp only [payloadStep] at h
    split_ifs at h with hsize
    exact .inl ⟨i, pData, rfl, hsize.1, hsize.2, (Option.some.inj h).symm⟩
  | enqueuePacket i => exact .inr (.inl ⟨i, rfl, (Option.some.inj h).symm⟩)
  | enqueueSystemPacket event => exact .inr (.inr (.inl ⟨event, rfl, (Option.some.inj h).symm⟩))
  | process => exact .inr (.inr (.inr ⟨rfl, (Option.some.inj h).symm⟩))

theorem ordered_payloadStep (hs : s.events.mPacketManager.Ordered)
    (h : payloadStep s e = some t) : t.events.mPacketManager.Ordered := by
  obtain ⟨i, pData, rfl, -, hsize, rfl⟩ | ⟨i, rfl, rfl⟩ | ⟨event, rfl, rfl⟩ | ⟨rfl, rfl⟩ :=
    payloadStep_cases h
  · exact hs.setUser i ((hs i).setPacketData hsize)
  · exact hs
  · exact hs
  · exact ordered_process hs

theorem stable_step (hs : s.events.mPacketManager.Ordered) (hstable : s.Stable)
    (h : payloadStep s e = some t) : t.Stable ↔ s.Spares e := by
  have hsame : ∀ p, s.events.point = .userPacket p → sysEnd < p.PacketID →
      (s.events.mPacketManager.user p.ClientIndex).packetData p = s.frame := by
    intro p hp hid
    rw [← bytes_processRecvPacket]
    exact hstable p hp hid
  obtain ⟨i, pData, rfl, -, hsize, rfl⟩ | ⟨i, rfl, rfl⟩ | ⟨event, rfl, rfl⟩ | ⟨rfl, rfl⟩ :=
    payloadStep_cases h
  · constructor
    · rintro ht _ _ p ⟨⟩ hp hid rfl
      have hbytes := ht p hp hid
      rw [bytes_processRecvPacket, PacketManager.user_setUser, if_pos rfl] at hbytes
      rw [← User.packetData_setPacketData_iff (hs p.ClientIndex) hsize, hsame p hp hid]
      exact hbytes
    · intro hspares p hp hid
      rw [bytes_processRecvPacket, PacketManager.user_setUser]
      split_ifs with hi
      · subst hi
        have hkeep := hspares p.ClientIndex pData p rfl hp hid rfl
        rw [(User.packetData_setPacketData_iff (hs p.ClientIndex) hsize p).mpr hkeep]
        exact hsame p hp hid
      · exact hsame p hp hid
  · refine iff_of_true (fun p hp hid => ?_) nofun
    rw [bytes_processRecvPacket]
    exact hsame p hp hid
  · refine iff_of_true (fun p hp hid => ?_) nofun
    rw [bytes_processRecvPacket]
    exact hsame p hp hid
  · -- The packet in hand, if there is one now, has just been dequeued.
    refine iff_of_true (fun p hp _ => ?_) nofun
    rw [bytes_processRecvPacket]
    simp only [EventState.bytesInHand] at hp ⊢
    rw [hp]

/-- The bytes of every packet are, until its handler has read them, those that it had when it was
dequeued, if and only if no chunk that its client receives meanwhile is written over them, unless
with the same bytes. -/
theorem stable_iff_spares (maxClient : ℤ) (buffers : ℕ → Memory UInt8) (es : List ManagerEvent)
    (s : PayloadState) (h : run payloadStep (.start maxClient buffers) es = some s) :
    Throughout payloadStep PayloadState.Stable (.start maxClient buffers) es ↔
      Meets payloadStep PayloadState.Spares (.start maxClient buffers) es :=
  throughout_iff_meets (I := fun s => s.events.mPacketManager.Ordered)
    (fun _ _ _ hs hst => ordered_payloadStep hs hst)
    (fun _ _ _ hs hstable hst => stable_step hs hstable hst)
    (PacketManager.Ordered.start maxClient buffers) nofun h

/-- The first 6 bytes of the buffer of client 0 are dequeued as a frame. -/
def dequeueFrame : List ManagerEvent :=
  [.setPacketData 0 [6, 0, 221, 0, 0, 7], .enqueuePacket 0, .process]

/-- Another chunk arrives behind the frame. -/
theorem stable_chunk_behind :
    Throughout payloadStep PayloadState.Stable (.start 1 fun _ _ => 0)
      (dequeueFrame ++ [.setPacketData 0 [7]]) := by
  refine (stable_iff_spares 1 (fun _ _ => 0) (dequeueFrame ++ [.setPacketData 0 [7]]) _ rfl).mpr ?_
  obtain ⟨s, hrun, hpoint, hstart⟩ : ∃ s, run payloadStep (.start 1 fun _ _ => 0) dequeueFrame =
      some s ∧ s.events.point = .userPacket ⟨0, 221, 6, some 0⟩ ∧
      (s.events.mPacketManager.user 0).writeStart 1 = 6 := ⟨_, rfl, by decide, by decide⟩
  have hbefore : Meets payloadStep PayloadState.Spares (.start 1 fun _ _ => 0) dequeueFrame :=
    ⟨fun _ _ _ _ hp => (nomatch hp), fun _ _ => ⟨nofun, fun _ _ => ⟨nofun, fun _ _ => trivial⟩⟩⟩
  refine (meets_append hrun).mpr ⟨hbefore, ?_, fun _ _ => trivial⟩
  rintro _ _ p ⟨⟩ hp _ _ pos hpos k hk _ hlt
  obtain rfl := ProcessPoint.userPacket.inj (hpoint.symm.trans hp)
  obtain rfl := Option.some.inj hpos
  change (s.events.mPacketManager.user 0).writeStart 1 + k < 0 + 6 at hlt
  omega

/-- While the frame waits for its handler 32 chunks of 256 bytes arrive, the last of which wraps. -/
def overwriteFrame : List ManagerEvent :=
  dequeueFrame ++ List.replicate 32 (.setPacketData 0 (List.replicate 256 9))

theorem overwriteFrame_bytes :
    (run payloadStep (.start 1 fun _ _ => 0) overwriteFrame).map (fun s => (s.events.point,
        (s.events.mPacketManager.processRecvPacket ⟨0, 221, 6, some 0⟩).2.bytes, s.frame)) =
      some (.userPacket ⟨0, 221, 6, some 0⟩, [9, 9, 9, 9, 9, 9], [6, 0, 221, 0, 0, 7]) := by
  decide +kernel

/-- The handler reads the last chunk. -/
theorem frame_overwritten :
    ∃ s, run payloadStep (.start 1 fun _ _ => 0) overwriteFrame = some s ∧
      s.events.point = .userPacket ⟨0, 221, 6, some 0⟩ ∧
      (s.events.mPacketManager.processRecvPacket ⟨0, 221, 6, some 0⟩).2.bytes =
        [9, 9, 9, 9, 9, 9] ∧
      s.frame = [6, 0, 221, 0, 0, 7] ∧ ¬s.Stable := by
  obtain ⟨s, hrun, hs⟩ := Option.map_eq_some_iff.mp overwriteFrame_bytes
  obtain ⟨hpoint, hrest⟩ := Prod.mk.inj hs
  obtain ⟨hbytes, hframe⟩ := Prod.mk.inj hrest
  refine ⟨s, hrun, hpoint, hbytes, hframe, fun hstable => ?_⟩
  have hsame := hstable _ hpoint (by decide)
  rw [hbytes, hframe] at hsame
  exact absurd hsame (by decide)

end IocpStudy.ChatServer
