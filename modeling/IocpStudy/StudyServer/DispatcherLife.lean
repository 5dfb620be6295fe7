import IocpStudy.StudyServer.NetworkDispatcher

/-! The life of a `NetworkDispatcher`: the steps of `Initialize`, of the dispatch thread, of calls
of `PushPacket` and of the destructor, in every order.  `Initialize` starts the thread before it
sets the flag that the thread's loop tests, and the destructor clears the service before it waits
for the thread. -/

namespace IocpStudy.StudyServer

open Runs

variable {α : Type}

/-- Where the owner of the dispatcher is: in `Initialize` behind the start of the thread, behind the
store of `mService` and behind its end, and in the destructor behind the store of each member and
behind the `join`. -/
inductive OwnerPoint
  | constructed
  | threadStarted
  | serviceStored
  | initialized
  | runningCleared
  | serviceCleared
  | destroyed
deriving Repr, DecidableEq

/-- Where `_DispatchThread` is: before the test of its loop, before the locked section, in the loop
over the work queue, or behind its loop. -/
inductive ThreadPoint
  | notStarted
  | test
  | swap
  | work
  | left
deriving Repr, DecidableEq

/-- The dispatcher with the members that `Initialize` and the destructor set.  `mService` is whether
there is a service, and `calledNull` records a call of `ProcessPacket` without one, where the run
ends. -/
structure LifeState (α : Type) where
  dispatcher : NetworkDispatcher α := {}
  mService : Bool := false
  mIsRunning : Bool := false
  owner : OwnerPoint := .constructed
  thread : ThreadPoint := .notStarted
  calledNull : Bool := false

/-- `startThread`, `storeService` and `setRunning` are the steps of `Initialize`, `clearRunning`,
`clearService` and `join` those of the destructor, and `test`, `swap` and `process` those of the
dispatch thread. -/
inductive LifeEvent (α : Type)
  | startThread
  | storeService
  | setRunning
  | push (packet : α)
  | test
  | swap
  | process
  | clearRunning
  | clearService
  | join
deriving Repr, DecidableEq

namespace LifeState

/-- The start of `Initialize`, which returns false where there is a service already. -/
def startThread (s : LifeState α) : LifeState α :=
  if s.mService then s else { s with owner := .threadStarted, thread := .test }

/-- The test of the outer loop. -/
def test (s : LifeState α) : LifeState α :=
  { s with thread := if s.mIsRunning then .swap else .left }

/-- The locked section. -/
def swap (s : LifeState α) : LifeState α :=
  let dispatcher := s.dispatcher.swapQueues
  { s with dispatcher, thread := if dispatcher.i.isSome then .work else .test }

/-- One test of the inner loop, with the call of `ProcessPacket` where it succeeds. -/
def process (s : LifeState α) (i : ℕ) : LifeState α :=
  let (dispatcher, packet) := s.dispatcher.processNext i
  { s with
    dispatcher
    thread := if dispatcher.i.isSome then .work else .test
    calledNull := packet.isSome && !s.mService }

/-- The points that an event can happen at.  The `join` waits for the thread, where there is
one. -/
def CanTake (s : LifeState α) : LifeEvent α → Prop
  | .startThread => s.owner = .constructed ∨ s.owner = .initialized
  | .storeService => s.owner = .threadStarted
  | .setRunning => s.owner = .serviceStored
  | .push _ => s.owner ≠ .destroyed
  | .test => s.thread = .test
  | .swap => s.thread = .swap
  | .process => s.thread = .work
  | .clearRunning => s.owner = .constructed ∨ s.owner = .initialized
  | .clearService => s.owner = .runningCleared
  | .join => s.owner = .serviceCleared ∧ (s.thread = .notStarted ∨ s.thread = .left)

instance (s : LifeState α) (e : LifeEvent α) : Decidable (s.CanTake e) := by
  cases e <;> unfold CanTake <;> infer_instance

def after (s : LifeState α) : LifeEvent α → LifeState α
  | .startThread => s.startThread
  | .storeService => { s with owner := .serviceStored, mService := true }
  | .setRunning => { s with owner := .initialized, mIsRunning := true }
  | .push packet => { s with dispatcher := s.dispatcher.pushPacket packet }
  | .test => s.test
  | .swap => s.swap
  | .process => s.dispatcher.i.elim s s.process
  | .clearRunning => { s with owner := .runningCleared, mIsRunning := false }
  | .clearService => { s with owner := .serviceCleared, mService := false }
  | .join => { s with owner := .destroyed }

end LifeState

def lifeStep (s : LifeState α) (e : LifeEvent α) : Option (LifeState α) :=
  if s.calledNull = false ∧ s.CanTake e then some (s.after e) else none

namespace LifeState

/-- Once `Initialize` has returned true and until the destructor starts, the thread has not left its
loop, and it has never called a service that is not there. -/
structure Serving (s : LifeState α) : Prop where
  inLoop : s.owner = .initialized → s.thread ≠ .left
  called : s.calledNull = false

/-- `Initialize` is between the start of the thread and its end. -/
def Initializing (s : LifeState α) : Prop :=
  s.owner = .threadStarted ∨ s.owner = .serviceStored

/-- The thread tests its loop only after `Initialize`, and has no packets in hand, nor takes any,
when there is no service any more. -/
def KeepsService (s : LifeState α) : LifeEvent α → Prop
  | .test => ¬s.Initializing
  | .swap => s.mService = false → s.dispatcher.mPacketQueue = []
  | .clearService => ∀ i ∈ s.dispatcher.i, s.dispatcher.mWorkQueue.length ≤ i
  | _ => True

/-- What the members say of the points that the owner and the thread are at. -/
structure Sound (s : LifeState α) : Prop where
  running : s.mIsRunning = true ↔ s.owner = .initialized
  service : s.owner = .serviceStored ∨ s.owner = .initialized → s.mService = true
  fresh : s.owner = .constructed → s.thread = .notStarted
  looping : s.thread = .swap ∨ s.thread = .work → s.mService = true ∨ s.owner = .serviceCleared
  counter : s.dispatcher.i.isSome = true ↔ s.thread = .work

/-- While `Initialize` goes on and after it the thread is in its loop, and without a service it has
no packets in hand. -/
structure Ready (s : LifeState α) : Prop where
  inLoop : s.Initializing ∨ s.owner = .initialized → s.thread ≠ .left
  idle : s.mService = false → ∀ i ∈ s.dispatcher.i, s.dispatcher.mWorkQueue.length ≤ i
  called : s.calledNull = false

theorem Ready.serving {s : LifeState α} (h : s.Ready) : s.Serving :=
  ⟨fun howner => h.inLoop (Or.inr howner), h.called⟩

/-! ### The steps -/

variable {s t : LifeState α} {e : LifeEvent α} {es : List (LifeEvent α)} {i : ℕ}

theorem sound_start : ({} : LifeState α).Sound := by
  constructor <;> simp

theorem sound_swap (hs : s.Sound) (hthread : s.thread = .swap) : s.swap.Sound := by
  refine ⟨hs.running, hs.service, fun howner => ?_, fun _ => hs.looping (Or.inl hthread), ?_⟩
  · rw [hs.fresh howner] at hthread
    cases hthread
  · simp only [swap]
    cases s.dispatcher.swapQueues.i <;> simp

theorem sound_process (hs : s.Sound) (hthread : s.thread = .work) (i : ℕ) :
    (s.process i).Sound := by
  refine ⟨hs.running, hs.service, fun howner => ?_, fun _ => hs.looping (Or.inr hthread), ?_⟩
  · rw [hs.fresh howner] at hthread
    cases hthread
  · simp only [process]
    cases (s.dispatcher.processNext i).1.i <;> simp

theorem lifeStep_eq_some :
    lifeStep s e = some t ↔ s.calledNull = false ∧ s.CanTake e ∧ t = s.after e := by
  rw [lifeStep, Option.ite_none_right_eq_some, Option.some_inj, and_assoc, eq_comm (a := t)]

theorem sound_step (hs : s.Sound) (h : lifeStep s e = some t) : t.Sound := by
  obtain ⟨-, hcan, rfl⟩ := lifeStep_eq_some.mp h
  obtain ⟨hrunning, hservice, hfresh, hlooping, hcounter⟩ := hs
  cases e with
  | startThread =>
    simp only [after, startThread]
    split_ifs with hset
    · exact ⟨hrunning, hservice, hfresh, hlooping, hcounter⟩
    · have howner : s.owner = .constructed := hcan.resolve_right fun hinit =>
        hset (hservice (Or.inr hinit))
      rw [howner] at hrunning
      rw [hfresh howner] at hcounter
      exact ⟨by simpa using hrunning, by simp, by simp, by simp, by simpa using hcounter⟩
  | storeService =>
    have howner : s.owner = .threadStarted := hcan
    rw [howner] at hrunning
    exact ⟨by simpa [after] using hrunning, fun _ => rfl, by simp [after], fun _ => Or.inl rfl,
      hcounter⟩
  | setRunning =>
    have howner : s.owner = .serviceStored := hcan
    have hset := hservice (Or.inl howner)
    exact ⟨by simp [after], fun _ => hset, by simp [after], fun _ => Or.inl hset, hcounter⟩
  | push packet => exact ⟨hrunning, hservice, hfresh, hlooping, hcounter⟩
  | test =>
    have hthread : s.thread = .test := hcan
    rw [hthread] at hcounter
    refine ⟨hrunning, hservice, fun howner => ?_, fun hloop => Or.inl ?_, ?_⟩
    · rw [hfresh howner] at hthread
      cases hthread
    · cases hflag : s.mIsRunning with
      | true => exact hservice (Or.inr (hrunning.mp hflag))
      | false => simp [after, test, hflag] at hloop
    · cases hflag : s.mIsRunning <;> simpa [after, test, hflag] using hcounter
  | swap => exact sound_swap ⟨hrunning, hservice, hfresh, hlooping, hcounter⟩ hcan
  | process =>
    simp only [after]
    cases s.dispatcher.i with
    | none => exact ⟨hrunning, hservice, hfresh, hlooping, hcounter⟩
    | some i => exact sound_process ⟨hrunning, hservice, hfresh, hlooping, hcounter⟩ hcan i
  | clearRunning =>
    refine ⟨by simp [after], by simp [after], by simp [after], fun hloop => Or.inl ?_, hcounter⟩
    refine (hlooping hloop).resolve_right fun howner => ?_
    rcases hcan with hcan | hcan <;> rw [hcan] at howner <;> cases howner
  | clearService =>
    have howner : s.owner = .runningCleared := hcan
    rw [howner] at hrunning
    exact ⟨by simpa [after] using hrunning, by simp [after], by simp [after],
      fun _ => Or.inr rfl, hcounter⟩
  | join =>
    obtain ⟨howner, hthread⟩ := hcan
    rw [howner] at hrunning
    refine ⟨by simpa [after] using hrunning, by simp [after], by simp [after], fun hloop => ?_,
      hcounter⟩
    rcases hthread with hthread | hthread <;> simp [after, hthread] at hloop

/-- The loop over the work queue takes a packet exactly where there is one in hand. -/
theorem processNext_packet (d : NetworkDispatcher α) (i : ℕ) :
    (d.processNext i).2.isSome = true ↔ i < d.mWorkQueue.length := by
  rw [NetworkDispatcher.processNext]
  split_ifs with hlt
  · obtain ⟨packet, rest, hwork⟩ := List.exists_cons_of_length_pos (Nat.zero_lt_of_lt hlt)
    exact iff_of_true (by rw [hwork]; rfl) hlt
  · exact iff_of_false Bool.false_ne_true hlt

theorem ready_start : ({} : LifeState α).Ready := by
  constructor <;> simp [Initializing]

theorem ready_step (hs : s.Sound) (hr : s.Ready) (hC : s.KeepsService e)
    (h : lifeStep s e = some t) : t.Ready := by
  obtain ⟨-, hcan, rfl⟩ := lifeStep_eq_some.mp h
  cases e with
  | startThread =>
    simp only [after, startThread]
    split_ifs
    · exact hr
    · exact ⟨by simp, hr.idle, hr.called⟩
  | storeService =>
    exact ⟨fun _ => hr.inLoop (Or.inl (Or.inl hcan)), by simp [after], hr.called⟩
  | setRunning =>
    exact ⟨fun _ => hr.inLoop (Or.inl (Or.inr hcan)), hr.idle, hr.called⟩
  | push packet => exact ⟨hr.inLoop, hr.idle, hr.called⟩
  | test =>
    refine ⟨fun hserving => ?_, hr.idle, hr.called⟩
    have hflag := hs.running.mpr (hserving.resolve_left hC)
    simp [after, test, hflag]
  | swap =>
    refine ⟨fun _ => ?_, fun hnone i hi => ?_, hr.called⟩
    · simp only [after, swap]
      split_ifs <;> simp
    · have hempty := hC hnone
      have hidle := hr.idle hnone
      simp only [after, swap, NetworkDispatcher.swapQueues, hempty, List.isEmpty_nil,
        if_true] at hi ⊢
      exact hidle i hi
  | process =>
    simp only [after]
    cases hi : s.dispatcher.i with
    | none => exact hr
    | some i =>
      have hidle : s.mService = false → (s.dispatcher.processNext i).2.isSome = false := by
        intro hnone
        rw [Bool.eq_false_iff, ne_eq, processNext_packet, Nat.not_lt]
        exact hr.idle hnone i hi
      refine ⟨fun _ => ?_, fun hnone j hj => ?_, ?_⟩
      · simp only [Option.elim_some, process]
        split_ifs <;> simp
      · simp only [Option.elim_some, process, NetworkDispatcher.processNext,
          Nat.not_lt.mpr (hr.idle hnone i hi), if_false] at hj
        exact absurd hj (Option.not_mem_none j)
      · simp only [Option.elim_some, process]
        cases hset : s.mService with
        | true => simp
        | false => simp [hidle hset]
  | clearRunning =>
    refine ⟨by simp [Initializing, after], hr.idle, hr.called⟩
  | clearService => exact ⟨by simp [Initializing, after], fun _ => hC, hr.called⟩
  | join => exact ⟨by simp [Initializing, after], hr.idle, hr.called⟩

/-! ### Schedules that break it -/

/-- The thread has left its loop before `Initialize` ends. -/
structure LeftEarly (s : LifeState α) : Prop where
  initializing : s.Initializing
  left : s.thread = .left

/-- The thread has a packet to process and no service. -/
structure Orphaned (s : LifeState α) : Prop where
  owner : s.owner = .serviceCleared
  service : s.mService = false
  thread : s.thread = .work
  packet : ∃ i, s.dispatcher.i = some i ∧ i < s.dispatcher.mWorkQueue.length

theorem leftEarly_step (hs : s.LeftEarly) (h : lifeStep s e = some t) :
    t.LeftEarly ∨ ¬t.Serving := by
  obtain ⟨-, hcan, rfl⟩ := lifeStep_eq_some.mp h
  obtain ⟨howner, hleft⟩ := hs
  cases e with
  | storeService => exact Or.inl ⟨Or.inr rfl, hleft⟩
  | setRunning => exact Or.inr fun hserving => hserving.inLoop rfl hleft
  | push packet => exact Or.inl ⟨howner, hleft⟩
  | test => exact absurd (hleft.symm.trans hcan) (by decide)
  | swap => exact absurd (hleft.symm.trans hcan) (by decide)
  | process => exact absurd (hleft.symm.trans hcan) (by decide)
  | _ =>
    rcases howner with howner | howner <;> simp [CanTake, howner] at hcan

theorem orphaned_step (hs : s.Orphaned) (h : lifeStep s e = some t) :
    t.Orphaned ∨ ¬t.Serving := by
  obtain ⟨-, hcan, rfl⟩ := lifeStep_eq_some.mp h
  obtain ⟨howner, hnone, hthread, i, hi, hlt⟩ := hs
  cases e with
  | push packet => exact Or.inl ⟨howner, hnone, hthread, i, hi, hlt⟩
  | process =>
    refine Or.inr fun hserving => ?_
    have hcalled := hserving.called
    simp only [after, hi, Option.elim_some, process, hnone, Bool.not_false, Bool.and_true,
      Bool.eq_false_iff, ne_eq, processNext_packet] at hcalled
    exact hcalled hlt
  | test => exact absurd (hthread.symm.trans hcan) (by decide)
  | swap => exact absurd (hthread.symm.trans hcan) (by decide)
  | join => simp [CanTake, hthread] at hcan
  | _ => simp [CanTake, howner] at hcan

/-- A step that the condition excludes leads to one of the two. -/
theorem trapped_of_not_keeps (hs : s.Sound) (hC : ¬s.KeepsService e)
    (h : lifeStep s e = some t) : t.LeftEarly ∨ t.Orphaned := by
  obtain ⟨-, hcan, rfl⟩ := lifeStep_eq_some.mp h
  cases e with
  | test =>
    have hinit : s.Initializing := not_not.mp hC
    have hflag : s.mIsRunning = false := by
      rw [Bool.eq_false_iff, ne_eq, hs.running]
      intro howner
      rcases hinit with hinit | hinit <;> rw [hinit] at howner <;> cases howner
    exact Or.inl ⟨hinit, by simp [after, test, hflag]⟩
  | swap =>
    obtain ⟨hnone, hqueue⟩ : s.mService = false ∧ s.dispatcher.mPacketQueue ≠ [] := by
      simpa [KeepsService] using hC
    have howner : s.owner = .serviceCleared :=
      (hs.looping (Or.inl hcan)).resolve_left (by rw [hnone]; exact Bool.false_ne_true)
    have hlength := List.length_pos_iff.mpr hqueue
    refine Or.inr ⟨howner, hnone, ?_, 0, ?_, ?_⟩ <;>
      simp [after, swap, NetworkDispatcher.swapQueues, hqueue, hlength]
  | clearService =>
    obtain ⟨i, hi, hlt⟩ : ∃ i, s.dispatcher.i = some i ∧
        i < s.dispatcher.mWorkQueue.length := by
      simpa [KeepsService] using hC
    have hthread : s.thread = .work := hs.counter.mp (by rw [hi]; rfl)
    exact Or.inr ⟨rfl, rfl, hthread, i, hi, hlt⟩
  | _ => exact absurd trivial hC

/-- `Initialize` is not under way and the thread is not in the middle of its work queue. -/
structure Settled (s : LifeState α) : Prop where
  owner : ¬s.Initializing
  thread : s.thread ≠ .work

theorem keepsService_of_serving (hs : s.Sound) (h : run lifeStep s es = some t)
    (hend : t.Settled) (hP : Throughout lifeStep Serving s es) :
    Meets lifeStep KeepsService s es := by
  induction es generalizing s with
  | nil => trivial
  | cons e es ih =>
    obtain ⟨u, hu, hrun⟩ := run_cons_eq_some.mp h
    rw [meets_cons hu]
    refine ⟨?_, ih (sound_step hs hu) hrun (hP.tail hu)⟩
    by_contra hC
    rcases trapped_of_not_keeps hs hC hu with hleft | horphaned
    · exact not_throughout_of_trap (fun _ _ _ hs hst => leftEarly_step hs hst) hleft
        (fun ht => hend.owner ht.initializing) hrun (hP.tail hu)
    · exact not_throughout_of_trap (fun _ _ _ hs hst => orphaned_step hs hst) horphaned
        (fun ht => hend.thread ht.thread) hrun (hP.tail hu)

end LifeState

open LifeState

/-- On every run whose schedule keeps to the condition the thread stays in its loop while the
dispatcher is in use and never lacks the service, and on a run that ends settled only then. -/
theorem serving_iff_keepsService (es : List (LifeEvent α)) (s : LifeState α)
    (h : run lifeStep {} es = some s) :
    (Meets lifeStep KeepsService {} es → Throughout lifeStep Serving {} es) ∧
      (s.Settled → Throughout lifeStep Serving {} es → Meets lifeStep KeepsService {} es) := by
  refine ⟨fun hC => ?_, fun hend hP => keepsService_of_serving sound_start h hend hP⟩
  have hall : Throughout lifeStep (fun s => s.Sound ∧ s.Ready) ({} : LifeState α) es :=
    throughout_of_meets
      (fun _ _ _ hs hC hst => ⟨sound_step hs.1 hst, ready_step hs.1 hs.2 hC hst⟩)
      ⟨sound_start, ready_start⟩ hC
  exact hall.mono fun _ hs => hs.2.serving

/-- A dispatcher that processes one packet and is destroyed. -/
def oneLife : List (LifeEvent Packet) :=
  [.startThread, .storeService, .setRunning, .test, .push { PacketID := 1 }, .swap, .process,
    .process, .clearRunning, .test, .clearService, .join]

theorem serving_one_life :
    (run lifeStep {} oneLife).map (fun s => (s.owner, s.thread)) = some (.destroyed, .left) ∧
      Throughout lifeStep Serving {} oneLife := by
  obtain ⟨s, hs, hend⟩ := Option.map_eq_some_iff.mp
    (show (run lifeStep {} oneLife).map (fun s => (s.owner, s.thread)) =
      some (OwnerPoint.destroyed, ThreadPoint.left) by decide)
  refine ⟨by decide, (serving_iff_keepsService oneLife s hs).1 ?_⟩
  simp [oneLife, Meets, KeepsService, Initializing, lifeStep, CanTake, after, startThread, test,
    swap, process, NetworkDispatcher.pushPacket, NetworkDispatcher.swapQueues,
    NetworkDispatcher.processNext]

/-- The thread tests its loop before `Initialize` has set the flag, and `Initialize` returns true
with no thread left; and a destructor that runs while a packet is in hand lets the thread call
`ProcessPacket` without a service. -/
theorem dispatcher_unserved :
    (∃ s, run lifeStep ({} : LifeState Packet) [.startThread, .test, .storeService, .setRunning] =
        some s ∧ s.owner = .initialized ∧ s.thread = .left ∧ ¬s.Serving) ∧
      ∃ s, run lifeStep ({} : LifeState Packet)
          [.startThread, .storeService, .setRunning, .push { PacketID := 1 }, .test, .swap,
            .clearRunning, .clearService, .process] = some s ∧
        s.calledNull = true ∧ ¬s.Serving :=
  ⟨⟨_, rfl, rfl, rfl, fun hs => hs.inLoop rfl rfl⟩,
    ⟨_, rfl, rfl, fun hs => Bool.noConfusion hs.called⟩⟩

end IocpStudy.StudyServer
