import IocpStudy.Lib.Runs
import IocpStudy.ChatServer.PacketManager

/-! The handlers of system events.  Packets of users and system packets go through one handler
table, and are told apart by their IDs: a user's packet reaches it only with an ID above `SYS_END`,
a system packet only with one up to it, and the packet that an empty queue or an incomplete frame
yields has the ID 0, which has no handler.  The locked sections of the I/O threads and the steps of
the process thread are interleaved in any order. -/

namespace IocpStudy.ChatServer

open Runs

inductive Handler
  | ProcessUserConnect
  | ProcessUserDisconnect
  | ProcessLogin
deriving Repr, DecidableEq

/-- `mRecvPacketHandlerMap` as `Init` fills it. -/
def mRecvPacketHandlerMap (packetID : UInt16) : Option Handler :=
  if packetID = sysUserConnect then some .ProcessUserConnect
  else if packetID = sysUserDisconnect then some .ProcessUserDisconnect
  else if packetID = loginRequest then some .ProcessLogin
  else none

/-- A call of a handler by `ProcessRecvPacket`. -/
structure Invocation where
  handler : Handler
  packetData : PacketInfo
deriving Repr, DecidableEq

/-- The call that `ProcessRecvPacket` makes for a packet. -/
def Invocation.ofPacket (p : PacketInfo) : Option Invocation :=
  (mRecvPacketHandlerMap p.PacketID).map fun handler => ⟨handler, p⟩

/-- What the worker threads tell the process thread of. -/
inductive SystemEvent
  | connect (clientIndex : ℕ)
  | close (clientIndex : ℕ)
deriving Repr, DecidableEq

/-- The packet that `OnConnect` or `OnClose` queues. -/
def SystemEvent.packet : SystemEvent → PacketInfo
  | .connect clientIndex => { ClientIndex := clientIndex, PacketID := sysUserConnect }
  | .close clientIndex => { ClientIndex := clientIndex, PacketID := sysUserDisconnect }

/-- The event that a call handles, if it is a call of `ProcessUserConnect` or
`ProcessUserDisconnect`. -/
def Invocation.systemEvent (call : Invocation) : Option SystemEvent :=
  match call.handler with
  | .ProcessUserConnect => some (.connect call.packetData.ClientIndex)
  | .ProcessUserDisconnect => some (.close call.packetData.ClientIndex)
  | .ProcessLogin => none

/-- The packet that a call of `ProcessLogin` is for. -/
def Invocation.login (call : Invocation) : Option PacketInfo :=
  match call.handler with
  | .ProcessLogin => some call.packetData
  | _ => none

/-- Where the process thread is in `ProcessPacket`: before `DequeuePacket`, behind it with what it
returned, and the same for `DequeueSystemPacket`. -/
inductive ProcessPoint
  | user
  | userPacket (packetData : PacketInfo)
  | system
  | systemPacket (packetData : PacketInfo)
deriving Repr, DecidableEq

/-- The manager and the process thread.  `enqueued` records the system events that were queued,
`dequeued` the packets that `DequeueSystemPacket` took from the queue, `taken` those that
`GetPacket` returned to `DequeuePacket`, with the user whose buffer they are from, and
`invocations` the handlers called. -/
structure EventState where
  mPacketManager : PacketManager
  point : ProcessPoint := .user
  enqueued : List SystemEvent := []
  dequeued : List PacketInfo := []
  taken : List (ℕ × PacketInfo) := []
  invocations : List Invocation := []

/-- `setPacketData` and `enqueuePacket` are the two parts of a call of `ReceivePacket`, and
`process` is the next step of the process thread. -/
inductive ManagerEvent
  | setPacketData (clientIndex : ℕ) (pData : List UInt8)
  | enqueuePacket (clientIndex : ℕ)
  | enqueueSystemPacket (event : SystemEvent)
  | process
deriving Repr, DecidableEq

namespace EventState

/-- The call of `ProcessRecvPacket` for a packet, and the process thread behind it. -/
def dispatch (s : EventState) (p : PacketInfo) : EventState :=
  { s with
    mPacketManager := (s.mPacketManager.processRecvPacket p).1
    invocations := s.invocations ++ (Invocation.ofPacket p).toList }

/-- A step of the loop in `ProcessPacket`. -/
def process (s : EventState) : EventState :=
  match s.point with
  | .user =>
    let (packetData, mPacketManager) := s.mPacketManager.dequeuePacket
    { s with
      mPacketManager
      point := .userPacket packetData
      taken := s.taken ++ s.mPacketManager.mIncomingPacketUserIndex.head?.toList.map fun i =>
        (i, (s.mPacketManager.user i).getPacket.1) }
  | .userPacket packetData =>
    if sysEnd < packetData.PacketID then { s.dispatch packetData with point := .system }
    else { s with point := .system }
  | .system =>
    let (packetData, mPacketManager) := s.mPacketManager.dequeueSystemPacket
    { s with
      mPacketManager
      point := .systemPacket packetData
      dequeued := s.dequeued ++ s.mPacketManager.mSystemPacketQueue.head?.toList }
  | .systemPacket packetData =>
    if packetData.PacketID ≤ sysEnd then { s.dispatch packetData with point := .user }
    else { s with point := .user }

/-- The packets taken from the buffers of the users, as `DequeuePacket` returned them. -/
def received (s : EventState) : List PacketInfo :=
  s.taken.map fun (i, p) => { p with ClientIndex := i }

end EventState

def eventStep (s : EventState) : ManagerEvent → Option EventState
  | .setPacketData clientIndex pData =>
    let user := (s.mPacketManager.user clientIndex).setPacketData pData
    some { s with mPacketManager := s.mPacketManager.setUser clientIndex user }
  | .enqueuePacket clientIndex =>
    some { s with mPacketManager := s.mPacketManager.enqueuePacket clientIndex }
  | .enqueueSystemPacket event =>
    some { s with
      mPacketManager := s.mPacketManager.enqueueSystemPacket event.packet
      enqueued := s.enqueued ++ [event] }
  | .process => some s.process

/-- The system packet that the process thread has dequeued and not yet dispatched. -/
def ProcessPoint.inHand : ProcessPoint → List PacketInfo
  | .systemPacket packetData => if packetData = {} then [] else [packetData]
  | _ => []

/-- The system events of a run. -/
def systemEvents (es : List ManagerEvent) : List SystemEvent :=
  es.filterMap fun
    | .enqueueSystemPacket event => some event
    | _ => none

/-- The system events handled are those dequeued, in order and once each, except for one that is
about to be handled; those dequeued are the first of those queued; and each login handled is a
packet taken from the buffer of the user it is handled for. -/
structure EventState.Unforged (s : EventState) : Prop where
  handled : (s.invocations.filterMap Invocation.systemEvent).map SystemEvent.packet ++
    s.point.inHand = s.dequeued
  queued : s.dequeued ++ s.mPacketManager.mSystemPacketQueue = s.enqueued.map SystemEvent.packet
  logins : (s.invocations.filterMap Invocation.login).Sublist s.received

/-! ### The two halves of the dispatch -/

variable {m : PacketManager} {p : PacketInfo} {s t : EventState} {e : ManagerEvent}
  {es : List ManagerEvent}

/-- `ProcessRecvPacket` does what the handler does that the table has for the packet's ID. -/
theorem processRecvPacket_dispatch (m : PacketManager) (p : PacketInfo) :
    (m.processRecvPacket p).1 =
        (match mRecvPacketHandlerMap p.PacketID with
          | some .ProcessUserConnect => m.processUserConnect p.ClientIndex
          | some .ProcessUserDisconnect => m.processUserDisconnect p.ClientIndex
          | _ => m) ∧
      (m.processRecvPacket p).2.response =
        (match mRecvPacketHandlerMap p.PacketID with
          | some .ProcessLogin => m.processLogin p ((m.user p.ClientIndex).packetData p)
          | _ => none) := by
  unfold PacketManager.processRecvPacket mRecvPacketHandlerMap
  by_cases hconnect : p.PacketID = sysUserConnect
  · simp only [hconnect, if_true, and_self]
  · by_cases hdisconnect : p.PacketID = sysUserDisconnect
    · rw [if_neg hconnect, if_pos hdisconnect, if_neg hconnect, if_pos hdisconnect]
      exact ⟨rfl, rfl⟩
    · rw [if_neg hconnect, if_neg hdisconnect, if_neg hconnect, if_neg hdisconnect]
      by_cases hlogin : p.PacketID = loginRequest
      · rw [if_pos hlogin, if_pos hlogin]
        exact ⟨rfl, rfl⟩
      · rw [if_neg hlogin, if_neg hlogin]
        exact ⟨rfl, rfl⟩

theorem systemQueue_processRecvPacket (m : PacketManager) (p : PacketInfo) :
    (m.processRecvPacket p).1.mSystemPacketQueue = m.mSystemPacketQueue := by
  rw [(processRecvPacket_dispatch m p).1]
  split <;> rfl

/-- A packet with an ID above `SYS_END` reaches no handler of system events. -/
theorem ofPacket_of_user (h : sysEnd < p.PacketID) :
    (Invocation.ofPacket p).toList.filterMap Invocation.systemEvent = [] ∧
      ((Invocation.ofPacket p).toList.filterMap Invocation.login).Sublist [p] := by
  obtain ⟨hconnect, hdisconnect⟩ := PacketManager.packetID_ne_of_user h
  unfold Invocation.ofPacket mRecvPacketHandlerMap
  rw [if_neg hconnect, if_neg hdisconnect]
  split_ifs
  · exact ⟨rfl, List.Sublist.refl _⟩
  · exact ⟨rfl, List.nil_sublist _⟩

/-- The packet of a system event has an ID up to `SYS_END` and reaches the handler of its event. -/
theorem ofPacket_event (event : SystemEvent) :
    event.packet.PacketID ≤ sysEnd ∧ event.packet ≠ {} ∧
      (Invocation.ofPacket event.packet).toList.filterMap Invocation.systemEvent = [event] ∧
      (Invocation.ofPacket event.packet).toList.filterMap Invocation.login = [] := by
  cases event with
  | connect clientIndex =>
    refine ⟨show sysUserConnect ≤ sysEnd by decide, fun hp => ?_, rfl, rfl⟩
    exact absurd (congrArg PacketInfo.PacketID hp) (show sysUserConnect ≠ 0 by decide)
  | close clientIndex =>
    refine ⟨show sysUserDisconnect ≤ sysEnd by decide, fun hp => ?_, rfl, rfl⟩
    exact absurd (congrArg PacketInfo.PacketID hp) (show sysUserDisconnect ≠ 0 by decide)

/-! ### The steps -/

/-- Besides: a packet of a user that is about to be dispatched is the last one taken. -/
structure EventState.Tracked (s : EventState) : Prop extends s.Unforged where
  last : ∀ p, s.point = .userPacket p → sysEnd < p.PacketID →
    (s.invocations.filterMap Invocation.login ++ [p]).Sublist s.received

/-- A system packet in hand is the one that an empty queue yields, or that of an event. -/
theorem EventState.Unforged.of_systemPacket (hs : s.Unforged) (hp : s.point = .systemPacket p) :
    p = {} ∨ ∃ event : SystemEvent, p = event.packet := by
  by_cases hempty : p = {}
  · exact Or.inl hempty
  · right
    have hmem : p ∈ s.dequeued := by
      rw [← hs.handled, hp, ProcessPoint.inHand, if_neg hempty]
      simp
    have hqueued : p ∈ s.enqueued.map SystemEvent.packet := by
      rw [← hs.queued]
      exact List.mem_append_left _ hmem
    obtain ⟨event, -, hevent⟩ := List.mem_map.mp hqueued
    exact ⟨event, hevent.symm⟩

/-- The iteration takes a packet of a user. -/
theorem EventState.Tracked.user (hs : s.Tracked) (hpoint : s.point = .user) :
    s.process.Tracked := by
  have hhandled := hs.handled
  have hqueued := hs.queued
  simp only [EventState.process, hpoint]
  simp only [hpoint, ProcessPoint.inHand, List.append_nil] at hhandled
  rcases hqueue : s.mPacketManager.mIncomingPacketUserIndex with - | ⟨i, rest⟩
  · simp only [PacketManager.dequeuePacket, hqueue, List.head?_nil, Option.toList_none,
      List.map_nil, List.append_nil]
    refine ⟨⟨?_, hqueued, hs.logins⟩, fun p hp hid => ?_⟩
    · simpa only [ProcessPoint.inHand, List.append_nil] using hhandled
    · cases hp
      exact absurd hid (by decide)
  · simp only [PacketManager.dequeuePacket, hqueue, List.head?_cons, Option.toList_some,
      List.map_cons, List.map_nil]
    refine ⟨⟨?_, hqueued, ?_⟩, fun p hp hid => ?_⟩
    · simpa only [ProcessPoint.inHand, List.append_nil] using hhandled
    · simp only [EventState.received, List.map_append]
      exact hs.logins.trans (List.sublist_append_left _ _)
    · cases hp
      simp only [EventState.received, List.map_append]
      exact hs.logins.append (List.Sublist.refl _)

theorem EventState.Tracked.userPacket (hs : s.Tracked) (hpoint : s.point = .userPacket p) :
    s.process.Tracked := by
  have hhandled := hs.handled
  have hqueued := hs.queued
  simp only [EventState.process, hpoint]
  simp only [hpoint, ProcessPoint.inHand, List.append_nil] at hhandled
  split_ifs with hid
  · obtain ⟨hnone, hlogin⟩ := ofPacket_of_user hid
    refine ⟨⟨?_, ?_, ?_⟩, fun p' hp' => by cases hp'⟩
    · simp only [EventState.dispatch, List.filterMap_append, hnone, List.append_nil,
        ProcessPoint.inHand]
      exact hhandled
    · simp only [EventState.dispatch, systemQueue_processRecvPacket]
      exact hqueued
    · simp only [EventState.dispatch, List.filterMap_append]
      exact (hlogin.append_left _).trans (hs.last p hpoint hid)
  · refine ⟨⟨?_, hqueued, hs.logins⟩, fun p' hp' => by cases hp'⟩
    simpa only [ProcessPoint.inHand, List.append_nil] using hhandled

/-- The iteration takes a system packet. -/
theorem EventState.Tracked.system (hs : s.Tracked) (hpoint : s.point = .system) :
    s.process.Tracked := by
  have hhandled := hs.handled
  have hqueued := hs.queued
  simp only [EventState.process, hpoint]
  simp only [hpoint, ProcessPoint.inHand, List.append_nil] at hhandled
  rcases hqueue : s.mPacketManager.mSystemPacketQueue with - | ⟨p, rest⟩
  · simp only [PacketManager.dequeueSystemPacket, hqueue, List.head?_nil, Option.toList_none,
      List.append_nil]
    refine ⟨⟨?_, hqueued, hs.logins⟩, fun p hp => by cases hp⟩
    simpa only [ProcessPoint.inHand, if_true, List.append_nil] using hhandled
  · have hp : p ≠ {} := by
      have hmem : p ∈ s.enqueued.map SystemEvent.packet := by
        rw [← hqueued, hqueue]
        simp
      obtain ⟨event, -, rfl⟩ := List.mem_map.mp hmem
      exact (ofPacket_event event).2.1
    simp only [PacketManager.dequeueSystemPacket, hqueue, List.head?_cons, Option.toList_some]
    refine ⟨⟨?_, ?_, hs.logins⟩, fun p hp => by cases hp⟩
    · simp only [ProcessPoint.inHand, if_neg hp, hhandled]
    · rw [← hqueued, hqueue, List.append_assoc]
      rfl

theorem EventState.Tracked.systemPacket (hs : s.Tracked) (hpoint : s.point = .systemPacket p) :
    s.process.Tracked := by
  have hhandled := hs.handled
  have hqueued := hs.queued
  simp only [EventState.process, hpoint]
  rcases hs.of_systemPacket hpoint with rfl | ⟨event, rfl⟩
  · have hpass : ({} : PacketInfo).PacketID ≤ sysEnd := by decide
    have hnone : Invocation.ofPacket {} = none := rfl
    simp only [hpoint, ProcessPoint.inHand, if_true, List.append_nil] at hhandled
    rw [if_pos hpass]
    simp only [EventState.dispatch, hnone, Option.toList_none, List.append_nil]
    refine ⟨⟨?_, ?_, hs.logins⟩, fun p hp => by cases hp⟩
    · simpa only [ProcessPoint.inHand, List.append_nil] using hhandled
    · rw [systemQueue_processRecvPacket]
      exact hqueued
  · obtain ⟨hpass, hne, hevent, hlogin⟩ := ofPacket_event event
    simp only [hpoint, ProcessPoint.inHand, if_neg hne] at hhandled
    rw [if_pos hpass]
    simp only [EventState.dispatch]
    refine ⟨⟨?_, ?_, ?_⟩, fun p hp => by cases hp⟩
    · simp only [List.filterMap_append, hevent, List.map_append, ProcessPoint.inHand,
        List.append_nil]
      exact hhandled
    · rw [systemQueue_processRecvPacket]
      exact hqueued
    · simp only [List.filterMap_append, hlogin, List.append_nil]
      exact hs.logins

theorem tracked_process (hs : s.Tracked) : s.process.Tracked := by
  cases hpoint : s.point with
  | user => exact hs.user hpoint
  | userPacket p => exact hs.userPacket hpoint
  | system => exact hs.system hpoint
  | systemPacket p => exact hs.systemPacket hpoint

theorem tracked_step (hs : s.Tracked) (h : eventStep s e = some t) : t.Tracked := by
  cases e with
  | setPacketData clientIndex pData =>
    obtain rfl := Option.some.inj h
    exact ⟨⟨hs.handled, hs.queued, hs.logins⟩, hs.last⟩
  | enqueuePacket clientIndex =>
    obtain rfl := Option.some.inj h
    exact ⟨⟨hs.handled, hs.queued, hs.logins⟩, hs.last⟩
  | enqueueSystemPacket event =>
    obtain rfl := Option.some.inj h
    refine ⟨⟨hs.handled, ?_, hs.logins⟩, hs.last⟩
    simp only [PacketManager.enqueueSystemPacket, List.map_append, ← hs.queued,
      List.append_assoc]
    rfl
  | process =>
    obtain rfl := Option.some.inj h
    exact tracked_process hs

theorem enqueued_process (s : EventState) : s.process.enqueued = s.enqueued := by
  unfold EventState.process
  split
  · rfl
  · split_ifs <;> rfl
  · rfl
  · split_ifs <;> rfl

theorem enqueued_of_step (h : eventStep s e = some t) :
    t.enqueued = s.enqueued ++ systemEvents [e] := by
  cases e with
  | process =>
    obtain rfl := Option.some.inj h
    rw [enqueued_process]
    exact (List.append_nil _).symm
  | _ =>
    obtain rfl := Option.some.inj h
    simp [systemEvents]

/-- In every run, whatever bytes it receives, the system events handled are the first of those that
the worker threads queued, and each login handled is a packet from the buffer of its own user. -/
theorem systemEvents_unforged (maxClient : ℤ) (buffers : ℕ → Memory UInt8)
    (es : List ManagerEvent) (s : EventState)
    (h : run eventStep { mPacketManager := .start maxClient buffers } es = some s) :
    s.Unforged ∧ s.enqueued = systemEvents es := by
  have hstart : ({ mPacketManager := .start maxClient buffers } : EventState).Tracked :=
    ⟨⟨rfl, rfl, List.Sublist.refl _⟩, fun p hp => by cases hp⟩
  have hs : s.Tracked := run_invariant (fun _ _ _ hs hst => tracked_step hs hst) hstart h
  refine ⟨hs.toUnforged, ?_⟩
  exact run_appends (f := EventState.enqueued) rfl
    (fun e _ => List.filterMap_append (l := [e])) (fun _ _ _ hst => enqueued_of_step hst) h

/-- A frame with the ID of a connect event, and then the event itself. -/
theorem unforged_connect_frame :
    ∃ s, run eventStep { mPacketManager := .start 1 fun _ _ => 0 }
        [.setPacketData 0 [4, 0, 11, 0], .enqueuePacket 0, .enqueueSystemPacket (.connect 0),
          .process, .process, .process, .process] = some s ∧
      s.invocations = [⟨.ProcessUserConnect, (SystemEvent.connect 0).packet⟩] ∧
      s.taken.map (fun taken => taken.2.PacketID) = [sysUserConnect] ∧
      s.Unforged ∧ s.enqueued = [.connect 0] :=
  ⟨_, rfl, by decide, by decide, systemEvents_unforged 1 (fun _ _ => 0)
    [.setPacketData 0 [4, 0, 11, 0], .enqueuePacket 0, .enqueueSystemPacket (.connect 0),
      .process, .process, .process, .process] _ rfl⟩

end IocpStudy.ChatServer
