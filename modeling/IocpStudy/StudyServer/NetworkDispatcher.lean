import Mathlib.Data.Multiset.AddSub
import IocpStudy.Lib.Runs
import IocpStudy.StudyServer.NetworkPacket

/-! `NetworkDispatcher`: the packet queue that I/O threads push to and the passes of the dispatch
thread.  A pass swaps the packet queue with the work queue and then processes the work queue in a
loop whose bound is the size of the shrinking queue, so it stops halfway, and the next swap hands
the rest back to the packet queue, in front of later packets and behind those it takes.  No packet
is lost or duplicated on the way; the dispatcher is first in, first out on the runs whose passes
take one packet each. -/

namespace IocpStudy.StudyServer

open Runs

variable {α : Type}

/-- `i` is where the dispatch thread is: at the head of its outer loop, or in the inner loop with
that value of its counter. -/
structure NetworkDispatcher (α : Type) where
  mPacketQueue : List α := []
  mWorkQueue : List α := []
  i : Option ℕ := none

namespace NetworkDispatcher

def pushPacket (d : NetworkDispatcher α) (packet : α) : NetworkDispatcher α :=
  { d with mPacketQueue := d.mPacketQueue ++ [packet] }

/-- The locked section of a pass of `_DispatchThread`, which goes back to the head of the loop where
the packet queue is empty. -/
def swapQueues (d : NetworkDispatcher α) : NetworkDispatcher α :=
  if d.mPacketQueue.isEmpty then d
  else { mPacketQueue := d.mWorkQueue, mWorkQueue := d.mPacketQueue, i := some 0 }

/-- One test of the inner loop with counter `i`, and its body where the test succeeds: the packet
given to `ProcessPacket`. -/
def processNext (d : NetworkDispatcher α) (i : ℕ) : NetworkDispatcher α × Option α :=
  if i < d.mWorkQueue.length then
    ({ d with mWorkQueue := d.mWorkQueue.tail, i := some (i + 1) }, d.mWorkQueue.head?)
  else ({ d with i := none }, none)

end NetworkDispatcher

/-- The dispatcher with the packets pushed to it and those given to `ProcessPacket` so far. -/
structure DispatchState (α : Type) where
  dispatcher : NetworkDispatcher α := {}
  pushed : List α := []
  processed : List α := []

inductive DispatchEvent (α : Type)
  | push (packet : α)
  | swap
  | process
deriving Repr, DecidableEq

def dispatchStep (s : DispatchState α) : DispatchEvent α → Option (DispatchState α)
  | .push packet =>
    some { s with dispatcher := s.dispatcher.pushPacket packet, pushed := s.pushed ++ [packet] }
  | .swap =>
    match s.dispatcher.i with
    | none => some { s with dispatcher := s.dispatcher.swapQueues }
    | some _ => none
  | .process =>
    match s.dispatcher.i with
    | none => none
    | some i =>
      let (dispatcher, packet) := s.dispatcher.processNext i
      some { s with dispatcher, processed := s.processed ++ packet.toList }

/-- The packets are processed in the order in which they were pushed, no pass leaves any behind, and
none waits when the packet queue is empty between passes. -/
structure DispatchState.InOrder (s : DispatchState α) : Prop where
  processed_prefix : s.processed <+: s.pushed
  work_empty : s.dispatcher.i = none → s.dispatcher.mWorkQueue = []
  all_processed : s.dispatcher.i = none → s.dispatcher.mPacketQueue = [] → s.processed = s.pushed

/-- A pass takes at most one packet. -/
def DispatchState.TakesOne (s : DispatchState α) : DispatchEvent α → Prop
  | .swap => s.dispatcher.mPacketQueue.length ≤ 1
  | _ => True

variable {s t : DispatchState α} {e : DispatchEvent α} {es : List (DispatchEvent α)} {i : ℕ}

theorem dispatchStep_cases (h : dispatchStep s e = some t) :
    (∃ p, e = .push p ∧ t = { s with
        dispatcher :=
          ⟨s.dispatcher.mPacketQueue ++ [p], s.dispatcher.mWorkQueue, s.dispatcher.i⟩
        pushed := s.pushed ++ [p] }) ∨
    (e = .swap ∧ s.dispatcher.i = none ∧ s.dispatcher.mPacketQueue = [] ∧ t = s) ∨
    (e = .swap ∧ s.dispatcher.i = none ∧ s.dispatcher.mPacketQueue ≠ [] ∧ t = { s with
        dispatcher := ⟨s.dispatcher.mWorkQueue, s.dispatcher.mPacketQueue, some 0⟩ }) ∨
    (∃ i p rest, e = .process ∧ s.dispatcher.i = some i ∧ s.dispatcher.mWorkQueue = p :: rest ∧
      i ≤ rest.length ∧ t = { s with
        dispatcher := ⟨s.dispatcher.mPacketQueue, rest, some (i + 1)⟩
        processed := s.processed ++ [p] }) ∨
    (∃ i, e = .process ∧ s.dispatcher.i = some i ∧ s.dispatcher.mWorkQueue.length ≤ i ∧
      t = { s with
        dispatcher := ⟨s.dispatcher.mPacketQueue, s.dispatcher.mWorkQueue, none⟩ }) := by
  cases e with
  | push p =>
    obtain rfl := Option.some.inj h
    exact .inl ⟨p, rfl, rfl⟩
  | swap =>
    simp only [dispatchStep] at h
    cases hi : s.dispatcher.i with
    | some i => simp [hi] at h
    | none =>
      simp only [hi, Option.some.injEq, NetworkDispatcher.swapQueues] at h
      by_cases hempty : s.dispatcher.mPacketQueue = []
      · simp only [hempty, List.isEmpty_nil, ↓reduceIte] at h
        exact .inr (.inl ⟨rfl, rfl, hempty, h.symm⟩)
      · simp only [List.isEmpty_iff, hempty, ↓reduceIte] at h
        exact .inr (.inr (.inl ⟨rfl, rfl, hempty, h.symm⟩))
  | process =>
    simp only [dispatchStep] at h
    cases hi : s.dispatcher.i with
    | none => simp [hi] at h
    | some i =>
      simp only [hi, Option.some.injEq, NetworkDispatcher.processNext] at h
      by_cases hlt : i < s.dispatcher.mWorkQueue.length
      · simp only [hlt, ↓reduceIte] at h
        obtain ⟨p, rest, hwork⟩ := List.exists_cons_of_length_pos (Nat.zero_lt_of_lt hlt)
        rw [hwork] at h hlt
        exact .inr (.inr (.inr (.inl ⟨i, p, rest, rfl, rfl, hwork,
          Nat.le_of_lt_succ hlt, h.symm⟩)))
      · simp only [hlt, ↓reduceIte, Option.toList_none, List.append_nil] at h
        exact .inr (.inr (.inr (.inr ⟨i, rfl, rfl, Nat.le_of_not_lt hlt, h.symm⟩)))

/-! ### Conservation -/

/-- The packets processed so far and those in the two queues are the pushed ones, each as often as
it was pushed. -/
structure DispatchState.Conserved (s : DispatchState α) : Prop where
  balance : (s.processed : Multiset α) + s.dispatcher.mWorkQueue + s.dispatcher.mPacketQueue =
    s.pushed

theorem conserved_step (hs : s.Conserved) (h : dispatchStep s e = some t) : t.Conserved := by
  obtain ⟨p, rfl, rfl⟩ | ⟨rfl, -, -, rfl⟩ | ⟨rfl, -, -, rfl⟩ | ⟨i, p, rest, rfl, -, hwork, -, rfl⟩ |
    ⟨i, rfl, -, -, rfl⟩ := dispatchStep_cases h
  · constructor
    simp only [← Multiset.coe_add, ← hs.balance]
    exact (Multiset.add_assoc _ _ _).symm
  · exact hs
  · -- The swap hands the leftovers of the last pass to the packet queue.
    constructor
    simp only [← hs.balance]
    rw [Multiset.add_assoc, Multiset.add_assoc,
      Multiset.add_comm (s.dispatcher.mWorkQueue : Multiset α)]
  · constructor
    have htaken : (p :: rest : Multiset α) = ([p] : List α) + (rest : Multiset α) := rfl
    simp only [← hs.balance, hwork, htaken, ← Multiset.coe_add]
    rw [Multiset.add_assoc (s.processed : Multiset α)]
  · exact ⟨hs.balance⟩

/-- On every run, whatever the passes leave behind, no packet is lost, duplicated or processed
twice. -/
theorem conserved_throughout (es : List (DispatchEvent α)) :
    Throughout dispatchStep DispatchState.Conserved {} es := by
  intro pre _ s hs
  have hstart : ({} : DispatchState α).Conserved := ⟨rfl⟩
  exact run_invariant (fun _ _ _ hs hst => conserved_step hs hst) hstart hs

/-! ### Order -/

/-- While every pass takes one packet: all pushed packets are in order in the three lists, and the
work queue holds the one packet of a pass until it is processed. -/
structure DispatchState.OneByOne (s : DispatchState α) : Prop where
  conserved : s.processed ++ s.dispatcher.mWorkQueue ++ s.dispatcher.mPacketQueue = s.pushed
  work_empty : s.dispatcher.i = none → s.dispatcher.mWorkQueue = []
  work_one : ∀ i, s.dispatcher.i = some i → i + s.dispatcher.mWorkQueue.length = 1

theorem DispatchState.OneByOne.inOrder (h : s.OneByOne) : s.InOrder := by
  refine ⟨?_, h.work_empty, fun hi hempty => ?_⟩
  · rw [← h.conserved, List.append_assoc]
    exact List.prefix_append _ _
  · simpa [h.work_empty hi, hempty] using h.conserved

theorem oneByOne_step (hs : s.OneByOne) (hone : s.TakesOne e) (h : dispatchStep s e = some t) :
    t.OneByOne := by
  obtain ⟨p, rfl, rfl⟩ | ⟨rfl, hi, hempty, rfl⟩ | ⟨rfl, hi, hne, rfl⟩ |
    ⟨i, p, rest, rfl, hi, hwork, -, rfl⟩ | ⟨i, rfl, hi, hle, rfl⟩ := dispatchStep_cases h
  · exact ⟨by simp [← hs.conserved], hs.work_empty, hs.work_one⟩
  · exact hs
  · have hlength := List.length_pos_iff.mpr hne
    have hwork := hs.work_empty hi
    simp only [DispatchState.TakesOne] at hone
    refine ⟨by simp [← hs.conserved, hwork], by simp, fun j hj => ?_⟩
    simp only [Option.some.injEq] at hj ⊢
    omega
  · have hlength := hs.work_one i hi
    simp only [hwork, List.length_cons] at hlength
    refine ⟨by simp [← hs.conserved, hwork], by simp, fun j hj => ?_⟩
    simp only [Option.some.injEq] at hj ⊢
    omega
  · refine ⟨hs.conserved, fun _ => ?_, by simp⟩
    have hlength := hs.work_one i hi
    exact List.length_eq_zero_iff.mp (show s.dispatcher.mWorkQueue.length = 0 by omega)

/-- A pass that took two packets or more is under way: it will end with some of them in the work
queue. -/
def DispatchState.TakesMore (s : DispatchState α) : Prop :=
  ∃ i, s.dispatcher.i = some i ∧ 2 ≤ i + s.dispatcher.mWorkQueue.length ∧
    i ≤ s.dispatcher.mWorkQueue.length + 1

theorem takesMore_step (hs : s.TakesMore) (h : dispatchStep s e = some t) :
    t.TakesMore ∨ ¬t.InOrder := by
  obtain ⟨i, hi, htwo, hle⟩ := hs
  obtain ⟨p, rfl, rfl⟩ | ⟨-, hnone, -⟩ | ⟨-, hnone, -⟩ |
    ⟨j, p, rest, rfl, hj, hwork, hroom, rfl⟩ | ⟨j, rfl, hj, hstop, rfl⟩ := dispatchStep_cases h
  · exact .inl ⟨i, hi, htwo, hle⟩
  · simp [hi] at hnone
  · simp [hi] at hnone
  · obtain rfl : i = j := Option.some.inj (hi.symm.trans hj)
    simp only [hwork, List.length_cons] at htwo hle
    exact .inl ⟨i + 1, rfl, by simp only; omega, by simp only; omega⟩
  · obtain rfl : i = j := Option.some.inj (hi.symm.trans hj)
    refine .inr fun hin => ?_
    have hempty := hin.work_empty rfl
    simp only at hempty
    simp [hempty] at htwo hle
    omega

theorem not_inOrder_of_pass (h : run dispatchStep s es = some t) (hend : t.dispatcher.i = none)
    (hs : s.TakesMore) : ¬Throughout dispatchStep DispatchState.InOrder s es := by
  refine not_throughout_of_trap (fun _ _ _ hs hst => takesMore_step hs hst) hs ?_ h
  rintro ⟨i, hi, -⟩
  rw [hend] at hi
  exact Option.some_ne_none i hi.symm

theorem takesOne_of_inOrder (h : run dispatchStep s es = some t) (hend : t.dispatcher.i = none)
    (hP : Throughout dispatchStep DispatchState.InOrder s es) :
    Meets dispatchStep DispatchState.TakesOne s es := by
  induction es generalizing s with
  | nil => trivial
  | cons e es ih =>
    obtain ⟨u, hu, hrun⟩ := run_cons_eq_some.mp h
    rw [meets_cons hu]
    refine ⟨?_, ih hrun (hP.tail hu)⟩
    obtain ⟨p, rfl, -⟩ | ⟨rfl, -, hempty, -⟩ | ⟨rfl, -, -, rfl⟩ | ⟨-, -, -, rfl, -⟩ |
      ⟨-, rfl, -⟩ := dispatchStep_cases hu
    · trivial
    · simp [DispatchState.TakesOne, hempty]
    · by_contra hbig
      simp only [DispatchState.TakesOne, Nat.not_le] at hbig
      refine not_inOrder_of_pass hrun hend ⟨0, rfl, ?_, Nat.zero_le _⟩ (hP.tail hu)
      simp only
      omega
    · trivial
    · trivial

/-- On every run in which each pass takes at most one packet the dispatcher is first in, first out,
and on a run that ends between passes only then. -/
theorem inOrder_iff_takesOne (es : List (DispatchEvent α)) (s : DispatchState α)
    (h : run dispatchStep {} es = some s) :
    (Meets dispatchStep DispatchState.TakesOne {} es →
      Throughout dispatchStep DispatchState.InOrder {} es) ∧
    (s.dispatcher.i = none → Throughout dispatchStep DispatchState.InOrder {} es →
      Meets dispatchStep DispatchState.TakesOne {} es) := by
  refine ⟨fun hone => ?_, fun hend hP => takesOne_of_inOrder h hend hP⟩
  have hstart : ({} : DispatchState α).OneByOne := ⟨rfl, fun _ => rfl, by simp⟩
  have hall : Throughout dispatchStep DispatchState.OneByOne {} es :=
    throughout_of_meets (fun _ _ _ hs hC hst => oneByOne_step hs hC hst) hstart hone
  exact hall.mono fun _ hs => hs.inOrder

/-- Two packets, the second pushed while a pass processes the first, and processed by the next. -/
theorem inOrder_two_packets :
    ∃ s, run dispatchStep {} [.push ({ PacketID := 1 } : Packet), .swap, .push { PacketID := 2 },
        .process, .process, .swap, .process, .process] = some s ∧
      s.processed.map Packet.PacketID = [1, 2] ∧
      Throughout dispatchStep DispatchState.InOrder {} [.push ({ PacketID := 1 } : Packet), .swap,
        .push { PacketID := 2 }, .process, .process, .swap, .process, .process] := by
  refine ⟨_, rfl, rfl, (inOrder_iff_takesOne _ _ rfl).1 (meets_of_take fun n e he t ht => ?_)⟩
  rcases n with _ | _ | _ | _ | _ | _ | _ | _ | n <;> cases he <;> try trivial
  · have hone : t.dispatcher.mPacketQueue.length = 1 :=
      eq_of_run (fun s => s.dispatcher.mPacketQueue.length) ht rfl
    exact hone.le
  · have hone : t.dispatcher.mPacketQueue.length = 1 :=
      eq_of_run (fun s => s.dispatcher.mPacketQueue.length) ht rfl
    exact hone.le

/-- Three packets in one pass, which processes two of them, and a fourth in the next pass, which is
processed before the third. -/
theorem fourth_before_third :
    ∃ s, run dispatchStep {} [.push { PacketID := 1 }, .push { PacketID := 2 },
        .push { PacketID := 3 }, .swap, .process, .process, .process, .push { PacketID := 4 },
        .swap, .process] = some s ∧
      s.processed.map Packet.PacketID = [1, 2, 4] ∧ s.pushed.map Packet.PacketID = [1, 2, 3, 4] ∧
      ¬s.processed <+: s.pushed := by
  refine ⟨_, rfl, rfl, rfl, fun hprefix => ?_⟩
  have hids := hprefix.map Packet.PacketID
  revert hids
  decide

end IocpStudy.StudyServer
