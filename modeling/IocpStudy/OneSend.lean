import Mathlib.Data.List.Nodup
import IocpStudy.Lib.Runs

/-! 1-Send: the send queue of `NetworkClient`, in the same code in ChatServer and iocpsolution.
`SendMsg` starts a `WSASend` when its message is the only one in the queue, and `SendCompleted`
takes the front message out and starts the next one, so the front message, and no other, has been
given to `WSASend`. -/

namespace IocpStudy.OneSend

open Runs

/-- A `stOverlappedEx` of a send operation: the object's address, and the bytes of the buffer that
its `m_wsaBuf` points to. -/
structure StOverlappedEx where
  address : ℕ
  bytes : List UInt8
deriving Repr, DecidableEq

/-- What a lock section leaves: the queue, and the entry it called `WSASend` for. -/
structure LockSection where
  mSendQueue : List StOverlappedEx
  wsaSend : Option StOverlappedEx := none
deriving Repr, DecidableEq

def sendIO (mSendQueue : List StOverlappedEx) : LockSection :=
  { mSendQueue, wsaSend := mSendQueue.head? }

/-- The lock section of `SendMsg`, for the entry that holds a copy of the message. -/
def sendMsg (mSendQueue : List StOverlappedEx) (sendOverlappedEx : StOverlappedEx) : LockSection :=
  let mSendQueue := mSendQueue ++ [sendOverlappedEx]
  if mSendQueue.length = 1 then sendIO mSendQueue else { mSendQueue }

/-- The lock section of `SendCompleted`, which is undefined on an empty queue. -/
def sendCompleted : List StOverlappedEx → Option LockSection
  | [] => none
  | _ :: mSendQueue => some (if mSendQueue.isEmpty then { mSendQueue } else sendIO mSendQueue)

/-- `outstanding` holds the entries of the accepted `WSASend` calls that have not completed.
`pushed` and `calls` record the entries pushed and those given to `WSASend`, whether it accepted
them or not, and `underflows` counts the calls of `SendCompleted` on an empty queue. -/
structure State where
  mSendQueue : List StOverlappedEx := []
  allocated : ℕ := 0
  outstanding : List StOverlappedEx := []
  pushed : List StOverlappedEx := []
  calls : List StOverlappedEx := []
  underflows : ℕ := 0

/-- `accepted` is the outcome of the `WSASend` that the lock section may call. -/
inductive Event
  | sendMsg (pMsg : List UInt8) (accepted : Bool)
  | completed (i : ℕ) (accepted : Bool)
deriving Repr, DecidableEq

/-- The state behind a lock section. -/
def State.left (s : State) (r : LockSection) (accepted : Bool) : State :=
  { s with
    mSendQueue := r.mSendQueue
    outstanding := s.outstanding ++ if accepted then r.wsaSend.toList else []
    calls := s.calls ++ r.wsaSend.toList }

def step (s : State) : Event → Option State
  | .sendMsg pMsg accepted =>
    let entry : StOverlappedEx := ⟨s.allocated, pMsg⟩
    let s := { s with allocated := s.allocated + 1, pushed := s.pushed ++ [entry] }
    some (s.left (OneSend.sendMsg s.mSendQueue entry) accepted)
  | .completed i accepted =>
    if i < s.outstanding.length then
      let s := { s with outstanding := s.outstanding.eraseIdx i }
      match sendCompleted s.mSendQueue with
      | none => some { s with underflows := s.underflows + 1 }
      | some r => some (s.left r accepted)
    else none

/-- The messages that the events of a run give to `SendMsg`. -/
def messages (es : List Event) : List (List UInt8) :=
  es.filterMap fun
    | .sendMsg pMsg _ => some pMsg
    | .completed _ _ => none

/-- One `WSASend` at a time, for the front of the queue, in the order of the pushes. -/
structure State.InOrder (s : State) : Prop where
  one : s.outstanding.length ≤ 1
  front : ∀ entry ∈ s.outstanding, s.mSendQueue.head? = some entry
  never_empty : s.underflows = 0
  calls_prefix : s.calls <+: s.pushed
  calls_once : s.calls.Nodup

/-! ### The lock sections -/

variable {q : List StOverlappedEx} {entry front : StOverlappedEx}

@[simp] theorem sendMsg_nil : sendMsg [] entry = ⟨[entry], some entry⟩ := rfl

@[simp] theorem sendMsg_cons : sendMsg (front :: q) entry = ⟨front :: (q ++ [entry]), none⟩ := by
  simp [sendMsg]

@[simp] theorem sendCompleted_cons : sendCompleted (front :: q) = some ⟨q, q.head?⟩ := by
  cases q <;> rfl

/-! ### The front of the queue -/

/-- The entries given to `WSASend` are those taken out of the queue and its front, and the front is
the one that is outstanding, if any is. -/
structure State.OneAtATime (s : State) : Prop where
  started : ∃ done, s.pushed = done ++ s.mSendQueue ∧ s.calls = done ++ s.mSendQueue.head?.toList
  outstanding : s.outstanding = [] ∨ s.outstanding = s.mSendQueue.head?.toList
  underflows : s.underflows = 0
  addresses : s.pushed.map StOverlappedEx.address = List.range s.allocated

variable {s t : State} {e : Event} {es : List Event}

theorem State.OneAtATime.inOrder (hs : s.OneAtATime) : s.InOrder := by
  obtain ⟨done, hpushed, hcalls⟩ := hs.started
  have hprefix : s.calls <+: s.pushed := by
    rw [hcalls, hpushed]
    apply (List.prefix_append_right_inj done).mpr
    cases s.mSendQueue <;> simp
  have hdistinct : s.pushed.Nodup := by
    apply List.Nodup.of_map StOverlappedEx.address
    rw [hs.addresses]
    exact List.nodup_range
  refine ⟨?_, fun entry hentry => ?_, hs.underflows, hprefix, hdistinct.sublist hprefix.sublist⟩
  · rcases hs.outstanding with h | h <;> rw [h]
    · exact Nat.zero_le 1
    · cases s.mSendQueue <;> simp
  · rcases hs.outstanding with h | h
    · simp [h] at hentry
    · rw [h] at hentry
      exact Option.mem_toList.mp hentry

/-- A completion is for the front of the queue, and the only one outstanding. -/
theorem State.OneAtATime.completed (hs : s.OneAtATime) {i : ℕ} (hi : i < s.outstanding.length) :
    ∃ front q, s.mSendQueue = front :: q ∧ s.outstanding.eraseIdx i = [] := by
  rcases hs.outstanding with h | h
  · simp [h] at hi
  · rcases hq : s.mSendQueue with - | ⟨front, q⟩
    · simp [h, hq] at hi
    · simp only [hq, List.head?_cons, Option.toList_some] at h
      rw [h] at hi ⊢
      obtain rfl : i = 0 := by simpa using hi
      exact ⟨front, q, rfl, rfl⟩

theorem oneAtATime_step (hs : s.OneAtATime) (h : step s e = some t) : t.OneAtATime := by
  obtain ⟨done, hpushed, hcalls⟩ := hs.started
  cases e with
  | sendMsg pMsg accepted =>
    obtain rfl := Option.some.inj h
    have haddresses : (s.pushed ++ [(⟨s.allocated, pMsg⟩ : StOverlappedEx)]).map
        StOverlappedEx.address = List.range (s.allocated + 1) := by
      rw [List.map_append, hs.addresses, List.range_succ]
      rfl
    rcases hq : s.mSendQueue with - | ⟨front, q⟩
    · -- The message is alone in the queue, and its `WSASend` the only one.
      have hnone : s.outstanding = [] := by simpa [hq] using hs.outstanding
      refine ⟨⟨done, ?_, ?_⟩, ?_, hs.underflows, haddresses⟩
      · simp [State.left, hq, hpushed]
      · simp [State.left, hq, hcalls]
      · simp only [State.left, sendMsg_nil, hnone]
        cases accepted <;> simp
    · refine ⟨⟨done, ?_, ?_⟩, ?_, hs.underflows, haddresses⟩
      · simp [State.left, hq, hpushed]
      · simp [State.left, hq, hcalls]
      · have houtstanding := hs.outstanding
        rw [hq] at houtstanding
        simp only [State.left, sendMsg_cons, Option.toList_none, ite_self, List.append_nil]
        exact houtstanding
  | completed i accepted =>
    simp only [step] at h
    split_ifs at h with hi
    obtain ⟨front, q, hq, hnone⟩ := hs.completed hi
    simp only [hq, sendCompleted_cons, hnone] at h
    obtain rfl := Option.some.inj h
    refine ⟨⟨done ++ [front], ?_, ?_⟩, ?_, hs.underflows, hs.addresses⟩
    · simp [State.left, hpushed, hq]
    · simp [State.left, hcalls, hq]
    · simp only [State.left, List.nil_append]
      cases accepted <;> simp

/-- Accepted or not, the message is put at the end of the queue. -/
theorem queue_sendMsg {pMsg : List UInt8} {accepted : Bool}
    (h : step s (.sendMsg pMsg accepted) = some t) :
    t.mSendQueue = s.mSendQueue ++ [⟨s.allocated, pMsg⟩] := by
  obtain rfl := Option.some.inj h
  rcases hq : s.mSendQueue with - | ⟨front, q⟩
  · rfl
  · simp only [State.left, sendMsg_cons, List.cons_append]

theorem queue_completed {i : ℕ} {accepted : Bool} (h : step s (.completed i accepted) = some t) :
    t.mSendQueue = s.mSendQueue.tail := by
  simp only [step] at h
  split_ifs at h
  rcases hq : s.mSendQueue with - | ⟨front, q⟩
  · simp only [hq, sendCompleted] at h
    obtain rfl := Option.some.inj h
    rfl
  · simp only [hq, sendCompleted_cons] at h
    obtain rfl := Option.some.inj h
    rfl

theorem pushed_of_step (h : step s e = some t) :
    t.pushed.map StOverlappedEx.bytes = s.pushed.map StOverlappedEx.bytes ++ messages [e] := by
  cases e with
  | sendMsg pMsg accepted =>
    obtain rfl := Option.some.inj h
    simp [State.left, messages]
  | completed i accepted =>
    simp only [step] at h
    split_ifs at h
    split at h <;> obtain rfl := Option.some.inj h <;> simp [State.left, messages]

theorem pushed_of_run (h : run step s es = some t) :
    t.pushed.map StOverlappedEx.bytes = s.pushed.map StOverlappedEx.bytes ++ messages es :=
  run_appends (f := fun s => s.pushed.map StOverlappedEx.bytes) rfl
    (fun e _ => List.filterMap_append (l := [e])) (fun _ _ _ hst => pushed_of_step hst) h

/-- In every run the sends are in order, and the buffers given to `WSASend` hold the first of the
messages given to `SendMsg`. -/
theorem sends_inOrder (es : List Event) (s : State) (h : run step {} es = some s) :
    s.InOrder ∧ s.calls.map StOverlappedEx.bytes <+: messages es := by
  have hs : s.OneAtATime := run_invariant (fun _ _ _ hs hst => oneAtATime_step hs hst)
    ⟨⟨[], rfl, rfl⟩, Or.inl rfl, rfl, rfl⟩ h
  refine ⟨hs.inOrder, ?_⟩
  have hmessages : s.pushed.map StOverlappedEx.bytes = messages es := pushed_of_run h
  rw [← hmessages]
  exact hs.inOrder.calls_prefix.map StOverlappedEx.bytes

/-- Two messages, the second pushed while the first is being sent and refused by `WSASend`. -/
theorem inOrder_second_refused :
    ∃ s, run step {} [.sendMsg [1] true, .sendMsg [2] true, .completed 0 false] = some s ∧
      s.outstanding = [] ∧ s.InOrder ∧
      s.calls.map StOverlappedEx.bytes <+:
        messages [.sendMsg [1] true, .sendMsg [2] true, .completed 0 false] :=
  ⟨_, rfl, rfl, sends_inOrder [.sendMsg [1] true, .sendMsg [2] true, .completed 0 false] _ rfl⟩

end IocpStudy.OneSend
