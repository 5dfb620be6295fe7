import IocpStudy.Lib.Rounds
import IocpStudy.ChatServer.SystemEvents

/-! The loop of `ProcessPacket`.  Each iteration takes one entry of each queue, so neither kind of
packet keeps the other waiting.  But the packet that an empty system queue yields passes for a
system packet, so no iteration is idle, and the thread never sleeps. -/

namespace IocpStudy.ChatServer

open Runs Rounds

/-- The process thread with its local `isIdle`, and the number of its calls of `sleep_for`. -/
structure ProcessThread where
  events : EventState
  isIdle : Bool := true
  slept : ℕ := 0

namespace ProcessThread

/-- A step of the loop.  The test of `isIdle` and the sleep end an iteration. -/
def process (s : ProcessThread) : ProcessThread :=
  match s.events.point with
  | .user => { s with events := s.events.process, isIdle := true }
  | .userPacket packetData =>
    { s with
      events := s.events.process
      isIdle := if sysEnd < packetData.PacketID then false else s.isIdle }
  | .system => { s with events := s.events.process }
  | .systemPacket packetData =>
    let isIdle := if packetData.PacketID ≤ sysEnd then false else s.isIdle
    { events := s.events.process, isIdle, slept := if isIdle then s.slept + 1 else s.slept }

end ProcessThread

def threadStep (s : ProcessThread) : ManagerEvent → Option ProcessThread
  | .process => some s.process
  | e => (eventStep s.events e).map fun events => { s with events }

variable {s t : EventState} {e : ManagerEvent} {es : List ManagerEvent} {p : PacketInfo}

/-! ### The queues -/

/-- The steps up to the end of the iteration. -/
def ProcessPoint.left : ProcessPoint → ℕ
  | .user => 4
  | .userPacket _ => 3
  | .system => 2
  | .systemPacket _ => 1

/-- The client indices taken from the queue of packets of users, and those still in it. -/
def EventState.users (s : EventState) : List ℕ :=
  s.taken.map Prod.fst ++ s.mPacketManager.mIncomingPacketUserIndex

/-- The system packets taken from their queue, and those still in it. -/
def EventState.systems (s : EventState) : List PacketInfo :=
  s.dequeued ++ s.mPacketManager.mSystemPacketQueue

theorem userQueue_processRecvPacket (m : PacketManager) (p : PacketInfo) :
    (m.processRecvPacket p).1.mIncomingPacketUserIndex = m.mIncomingPacketUserIndex := by
  unfold PacketManager.processRecvPacket
  dsimp only
  split_ifs <;> rfl

theorem dispatch_queues (s : EventState) (p : PacketInfo) :
    (s.dispatch p).users = s.users ∧ (s.dispatch p).systems = s.systems := by
  rw [EventState.users, EventState.systems, EventState.dispatch]
  dsimp only
  rw [userQueue_processRecvPacket, systemQueue_processRecvPacket]
  exact ⟨rfl, rfl⟩

/-- A step of the thread moves entries from the queues to those taken, in order. -/
theorem process_queues (s : EventState) :
    s.process.users = s.users ∧ s.process.systems = s.systems := by
  rw [EventState.process]
  split
  · next hpoint =>
    rw [EventState.users, EventState.users]
    cases hqueue : s.mPacketManager.mIncomingPacketUserIndex with
    | nil => simp [PacketManager.dequeuePacket, hqueue, EventState.systems]
    | cons i rest =>
      simp [PacketManager.dequeuePacket, PacketManager.setUser, hqueue, EventState.systems]
  · split_ifs
    · exact dispatch_queues s _
    · exact ⟨rfl, rfl⟩
  · next hpoint =>
    rw [EventState.systems, EventState.systems]
    cases hqueue : s.mPacketManager.mSystemPacketQueue with
    | nil => simp [PacketManager.dequeueSystemPacket, hqueue, EventState.users]
    | cons q rest => simp [PacketManager.dequeueSystemPacket, hqueue, EventState.users]
  · split_ifs
    · exact dispatch_queues s _
    · exact ⟨rfl, rfl⟩

theorem left_bounds (point : ProcessPoint) : 0 < point.left ∧ point.left ≤ 4 := by
  cases point <;> simp [ProcessPoint.left]

/-- A step takes a packet of a user, if there is one, at the first place of an iteration, and a
system packet, if there is one, at the third. -/
theorem process_spec (s : EventState) :
    s.process.point.left = (if s.point.left = 1 then 4 else s.point.left - 1) ∧
      s.process.taken.length = s.taken.length +
        (if s.point.left = 4 then min 1 s.mPacketManager.mIncomingPacketUserIndex.length else 0) ∧
      s.process.dequeued.length = s.dequeued.length +
        (if s.point.left = 2 then min 1 s.mPacketManager.mSystemPacketQueue.length else 0) := by
  unfold EventState.process
  cases hpoint : s.point with
  | user =>
    refine ⟨rfl, ?_, rfl⟩
    cases hqueue : s.mPacketManager.mIncomingPacketUserIndex <;>
      simp [ProcessPoint.left]
  | userPacket packetData =>
    by_cases hid : sysEnd < packetData.PacketID
    · simp only [hid, if_true]
      exact ⟨rfl, rfl, rfl⟩
    · simp only [hid, if_false]
      exact ⟨rfl, rfl, rfl⟩
  | system =>
    refine ⟨rfl, rfl, ?_⟩
    cases hqueue : s.mPacketManager.mSystemPacketQueue <;>
      simp [ProcessPoint.left]
  | systemPacket packetData =>
    by_cases hid : packetData.PacketID ≤ sysEnd
    · simp only [hid, if_true]
      exact ⟨rfl, rfl, rfl⟩
    · simp only [hid, if_false]
      exact ⟨rfl, rfl, rfl⟩

/-- The other events add to the queues behind what is in them. -/
theorem other_step (h : eventStep s e = some t) (he : (e == .process) = false) :
    t.point = s.point ∧ t.taken = s.taken ∧ t.dequeued = s.dequeued ∧
      s.mPacketManager.mIncomingPacketUserIndex <+: t.mPacketManager.mIncomingPacketUserIndex ∧
      s.mPacketManager.mSystemPacketQueue <+: t.mPacketManager.mSystemPacketQueue := by
  cases e with
  | setPacketData clientIndex pData =>
    obtain rfl := Option.some.inj h
    exact ⟨rfl, rfl, rfl, List.prefix_refl _, List.prefix_refl _⟩
  | enqueuePacket clientIndex =>
    obtain rfl := Option.some.inj h
    exact ⟨rfl, rfl, rfl, List.prefix_append _ _, List.prefix_refl _⟩
  | enqueueSystemPacket event =>
    obtain rfl := Option.some.inj h
    exact ⟨rfl, rfl, rfl, List.prefix_refl _, List.prefix_append _ _⟩
  | process => cases he

theorem eq_process_of_step (h : eventStep s e = some t) (he : (e == .process) = true) :
    t = s.process := by
  obtain rfl := eq_of_beq he
  exact (Option.some.inj h).symm

theorem polls_users : Polls eventStep (· == .process) 4 (fun s => s.point.left % 4)
    (fun s => s.taken.length) fun s => s.mPacketManager.mIncomingPacketUserIndex.length := by
  refine ⟨fun s e t h he => ?_, fun s e t k h he haway => ?_, fun s e t h he haway => ?_⟩
  · obtain ⟨hpoint, htaken, -, hqueue, -⟩ := other_step h he
    exact ⟨by rw [hpoint], by rw [htaken], hqueue.length_le⟩
  all_goals
    obtain rfl := eq_process_of_step h he
    obtain ⟨hleft, htaken, -⟩ := process_spec s
    have hbounds := left_bounds s.point
    have hlength := congrArg List.length (process_queues s).1
    rw [EventState.users, EventState.users, List.length_append, List.length_append,
      List.length_map, List.length_map] at hlength
    split_ifs at hleft htaken <;> omega

theorem polls_systems : Polls eventStep (· == .process) 4 (fun s => (s.point.left + 2) % 4)
    (fun s => s.dequeued.length) fun s => s.mPacketManager.mSystemPacketQueue.length := by
  refine ⟨fun s e t h he => ?_, fun s e t k h he haway => ?_, fun s e t h he haway => ?_⟩
  · obtain ⟨hpoint, -, hdequeued, -, hqueue⟩ := other_step h he
    exact ⟨by rw [hpoint], by rw [hdequeued], hqueue.length_le⟩
  all_goals
    obtain rfl := eq_process_of_step h he
    obtain ⟨hleft, -, hdequeued⟩ := process_spec s
    have hbounds := left_bounds s.point
    have hlength := congrArg List.length (process_queues s).2
    rw [EventState.systems, EventState.systems, List.length_append, List.length_append] at hlength
    split_ifs at hleft hdequeued <;> omega

/-- The entries of both queues are taken in the order in which they were added. -/
theorem queues_run (h : run eventStep s es = some t) :
    s.users <+: t.users ∧ s.systems <+: t.systems := by
  induction es generalizing s with
  | nil =>
    obtain rfl := Option.some.inj h
    exact ⟨List.prefix_refl _, List.prefix_refl _⟩
  | cons e es ih =>
    obtain ⟨u, hu, hrest⟩ := run_cons_eq_some.mp h
    obtain ⟨husers, hsystems⟩ := ih hrest
    refine ⟨List.IsPrefix.trans ?_ husers, List.IsPrefix.trans ?_ hsystems⟩
    all_goals
      cases he : e == .process with
      | true =>
        obtain rfl := eq_process_of_step hu he
        simp only [process_queues, List.prefix_refl]
      | false =>
        obtain ⟨-, htaken, hdequeued, husers, hsystems⟩ := other_step hu he
        simp only [EventState.users, EventState.systems, htaken, hdequeued,
          List.prefix_append_right_inj, husers, hsystems]

/-- What is in front of a queue is taken, where more has been taken than that. -/
theorem taken_from_front {α : Type} {taken taken' queue queue' : List α} {n : ℕ}
    (h : taken ++ queue <+: taken' ++ queue')
    (hle : taken.length + min n queue.length ≤ taken'.length) :
    taken ++ queue.take n <+: taken' := by
  have hfront : taken ++ queue.take n <+: taken' ++ queue' :=
    ((List.prefix_append_right_inj taken).mpr (List.take_prefix n queue)).trans h
  refine List.prefix_of_prefix_length_le hfront (List.prefix_append _ _) ?_
  rw [List.length_append, List.length_take]
  exact hle

/-- Whatever the I/O threads queue meanwhile, `n` iterations of the process thread take the first
`n` entries of either queue, or all of them, in order. -/
theorem taken_in_iterations (s t : EventState) (es : List ManagerEvent) (n : ℕ)
    (h : run eventStep s es = some t) (hn : 4 * n ≤ es.count .process) :
    s.taken.map Prod.fst ++ s.mPacketManager.mIncomingPacketUserIndex.take n <+:
        t.taken.map Prod.fst ∧
      s.dequeued ++ s.mPacketManager.mSystemPacketQueue.take n <+: t.dequeued := by
  obtain ⟨husers, hsystems⟩ := queues_run h
  have htaken := polls_users.taken_rounds (Nat.mod_lt _ (by decide)) h n hn
  have hdequeued := polls_systems.taken_rounds (Nat.mod_lt _ (by decide)) h n hn
  refine ⟨taken_from_front husers ?_, taken_from_front hsystems hdequeued⟩
  rw [List.length_map, List.length_map]
  exact htaken

/-- Two iterations, while two clients send. -/
theorem taken_in_two_iterations :
    ∃ s t, run eventStep { mPacketManager := .start 2 fun _ _ => 0 }
        [.enqueuePacket 0, .enqueuePacket 1, .enqueueSystemPacket (.connect 1)] = some s ∧
      run eventStep s [.process, .process, .enqueuePacket 1, .process, .process, .process,
        .process, .enqueuePacket 0, .process, .process] = some t ∧
      s.taken.map Prod.fst ++ s.mPacketManager.mIncomingPacketUserIndex.take 2 <+:
          t.taken.map Prod.fst ∧
        s.dequeued ++ s.mPacketManager.mSystemPacketQueue.take 2 <+: t.dequeued :=
  ⟨_, _, rfl, rfl, taken_in_iterations _ _ [.process, .process, .enqueuePacket 1, .process,
    .process, .process, .process, .enqueuePacket 0, .process, .process] 2 rfl (by decide)⟩

/-! ### `isIdle` -/

theorem threadStep_cases {s t : ProcessThread} (h : threadStep s e = some t) :
    e = .process ∧ t = s.process ∨
      ∃ events, eventStep s.events e = some events ∧ t = { s with events } := by
  cases e with
  | process => exact Or.inl ⟨rfl, (Option.some.inj h).symm⟩
  | setPacketData | enqueuePacket | enqueueSystemPacket =>
    simp only [threadStep, Option.map_eq_some_iff] at h
    obtain ⟨events, hevents, rfl⟩ := h
    exact Or.inr ⟨events, hevents, rfl⟩

theorem events_of_step {s t : ProcessThread} (h : threadStep s e = some t) :
    eventStep s.events e = some t.events := by
  obtain ⟨rfl, rfl⟩ | ⟨events, hevents, rfl⟩ := threadStep_cases h
  · rw [ProcessThread.process]
    split <;> rfl
  · exact hevents

/-- A system packet in hand passes the test of `ProcessPacket`, whether it is one from the queue or
the one that an empty queue yields. -/
theorem EventState.Tracked.systemPacket_le (hs : s.Tracked) (hp : s.point = .systemPacket p) :
    p.PacketID ≤ sysEnd := by
  rcases hs.of_systemPacket hp with rfl | ⟨event, rfl⟩
  · decide
  · exact (ofPacket_event event).1

theorem slept_step {s t : ProcessThread} (hs : s.events.Tracked) (h : threadStep s e = some t) :
    t.slept = s.slept := by
  obtain ⟨rfl, rfl⟩ | ⟨events, -, rfl⟩ := threadStep_cases h
  · rw [ProcessThread.process]
    split
    · rfl
    · rfl
    · rfl
    · next packetData hpoint =>
      dsimp only
      rw [if_pos (hs.systemPacket_le hpoint)]
      rfl
  · rfl

/-- In every run the process thread never sleeps, whether or not there is anything to process. -/
theorem never_sleeps (maxClient : ℤ) (buffers : ℕ → Memory UInt8) (es : List ManagerEvent) :
    Throughout threadStep (fun s => s.slept = 0)
      { events := { mPacketManager := .start maxClient buffers } } es := by
  have hstart : ({ mPacketManager := .start maxClient buffers } : EventState).Tracked :=
    ⟨⟨rfl, rfl, List.Sublist.refl _⟩, fun p hp => by cases hp⟩
  intro pre _ s hs
  have hall : s.events.Tracked ∧ s.slept = 0 := by
    refine run_invariant (P := fun s => s.events.Tracked ∧ s.slept = 0)
      (fun s e t hs hst => ⟨?_, ?_⟩) ⟨hstart, rfl⟩ hs
    · exact tracked_step hs.1 (events_of_step hst)
    · exact (slept_step hs.1 hst).trans hs.2
  exact hall.2

end IocpStudy.ChatServer
