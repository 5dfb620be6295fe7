import Mathlib.Algebra.Group.Nat.Defs
import IocpStudy.Callbacks
import IocpStudy.ChatServer.NetworkClient

/-! The life cycle of ChatServer's slots.  The acceptor thread walks over the client list again and
again with one reading of the clock for each pass, and looks at a slot three times before it posts
an accept for it, while the worker threads connect and close slots between any two of its looks.
The state of a slot is in two fields, of which `mLatestClosedTimeSec` is `UINT32_MAX` from
`PostAccept` to `Close`, a time that no pass has reached.

A completion of an `AcceptEx` that fails is not among the events: its key is null, and `CloseSocket`
dereferences it. -/

namespace IocpStudy.ChatServer

open Runs

/-- `UINT32_MAX`. -/
def uint32Max : ℕ := 4294967295

/-- Where the acceptor thread is, with the index of the client and the reading of the clock in
`curTimeSec`: before the loop over the clients, before each of the three tests, and before
`PostAccept`. -/
inductive AcceptorPoint
  | outside
  | isConnected (clientIndex curTimeSec : ℕ)
  | compare (clientIndex curTimeSec : ℕ)
  | difference (clientIndex curTimeSec : ℕ)
  | postAccept (clientIndex curTimeSec : ℕ)
deriving Repr, DecidableEq

/-- A call of `PostAccept`, at the time `time`: what `curTimeSec` was, whether the slot was
connected, how many `AcceptEx` calls it had outstanding, and when it was closed last. -/
structure PostAcceptCall where
  clientIndex : ℕ
  curTimeSec : ℕ
  time : ℕ
  isConnected : Bool
  accepts : ℕ
  lastClosed : ℕ
deriving Repr, DecidableEq

/-- The slots and the acceptor thread.  `accepts` is the number of outstanding `AcceptEx` calls of a
slot, `lastClosed` the time of its last `Close`, or 0, and `callbacks` the calls of `OnConnect` and
`OnClose` for it.  `clock` is the latest time that a thread has read. -/
structure AcceptorState where
  mClientList : ℕ → NetworkClient := fun _ => {}
  sockets : ℕ := 0
  point : AcceptorPoint := .outside
  clock : ℕ := 0
  accepts : ℕ → ℕ := fun _ => 0
  lastClosed : ℕ → ℕ := fun _ => 0
  callbacks : ℕ → List Callback := fun _ => []
  posts : List PostAcceptCall := []

/-- `readClock` begins a pass of the acceptor thread and `acceptor` is its next step in one;
`acceptCompletion` is an `ACCEPT` completion and `closeSocket` any completion that fails or has no
bytes, at the time `now`. -/
inductive AcceptorEvent
  | readClock (curTimeSec : ℕ)
  | acceptor (wsaSocket acceptEx : Bool)
  | acceptCompletion (clientIndex : ℕ) (bindRecv : Bool) (now : ℕ)
  | closeSocket (clientIndex now : ℕ)
deriving Repr, DecidableEq

namespace AcceptorState

def setClient (s : AcceptorState) (clientIndex : ℕ) (client : NetworkClient) : AcceptorState :=
  { s with mClientList := Function.update s.mClientList clientIndex client }

/-- The calls of the virtual functions. -/
def calls (s : AcceptorState) (clientIndex : ℕ) (callback : Callback) : AcceptorState :=
  { s with callbacks :=
      Function.update s.callbacks clientIndex (s.callbacks clientIndex ++ [callback]) }

/-- `IOCPServer::CloseSocket`, which does not call `OnClose`. -/
def closeSocket (s : AcceptorState) (clientIndex now : ℕ) : AcceptorState :=
  if (s.mClientList clientIndex).mIsConnect then
    { s.setClient clientIndex ((s.mClientList clientIndex).close now) with
      lastClosed := Function.update s.lastClosed clientIndex now }
  else s

/-- The `ACCEPT` case of `WorkerThread`. -/
def acceptCompletion (s : AcceptorState) (clientIndex : ℕ) (bindRecv : Bool) (now : ℕ) :
    AcceptorState :=
  let s := { s with
    accepts := Function.update s.accepts clientIndex (s.accepts clientIndex - 1) }
  match (s.mClientList clientIndex).acceptCompletion bindRecv with
  | (client, false) => (s.setClient clientIndex client).closeSocket clientIndex now
  | (client, true) => (s.setClient clientIndex client).calls clientIndex .OnConnect

/-- `PostAccept` as the acceptor thread calls it. -/
def postAccept (s : AcceptorState) (clientIndex curTimeSec : ℕ) (wsaSocket acceptEx : Bool) :
    AcceptorState :=
  let (client, posted) := (s.mClientList clientIndex).postAccept
    (if wsaSocket then some s.sockets else none) acceptEx
  { s.setClient clientIndex client with
    sockets := s.sockets + 1
    accepts :=
      if posted then Function.update s.accepts clientIndex (s.accepts clientIndex + 1)
      else s.accepts
    posts := s.posts ++ [⟨clientIndex, curTimeSec, s.clock,
      (s.mClientList clientIndex).mIsConnect, s.accepts clientIndex, s.lastClosed clientIndex⟩] }

/-- The start of the loop body for a client, or the end of the loop behind the last one. -/
def visit (maxClientCount clientIndex curTimeSec : ℕ) : AcceptorPoint :=
  if clientIndex < maxClientCount then .isConnected clientIndex curTimeSec else .outside

/-- A step of `AcceptorThread` in its loop over the `maxClientCount` clients.  The difference is
taken in `UINT64`. -/
def acceptorThread (s : AcceptorState) (maxClientCount : ℕ) (wsaSocket acceptEx : Bool) :
    Option AcceptorState :=
  match s.point with
  | .outside => none
  | .isConnected i curTimeSec =>
    some { s with
      point :=
        if (s.mClientList i).mIsConnect then visit maxClientCount (i + 1) curTimeSec
        else .compare i curTimeSec }
  | .compare i curTimeSec =>
    some { s with
      point :=
        if curTimeSec < (s.mClientList i).mLatestClosedTimeSec then
          visit maxClientCount (i + 1) curTimeSec
        else .difference i curTimeSec }
  | .difference i curTimeSec =>
    some { s with
      point :=
        if (curTimeSec + (2 ^ 64 - (s.mClientList i).mLatestClosedTimeSec)) % 2 ^ 64 ≤
            reuseSessionWaitTimeSec then
          visit maxClientCount (i + 1) curTimeSec
        else .postAccept i curTimeSec }
  | .postAccept i curTimeSec =>
    some { s.postAccept i curTimeSec wsaSocket acceptEx with
      point := visit maxClientCount (i + 1) curTimeSec }

end AcceptorState

/-- The steps for a list of `maxClientCount` clients. -/
def acceptorStep (maxClientCount : ℕ) (s : AcceptorState) : AcceptorEvent → Option AcceptorState
  | .readClock curTimeSec =>
    if s.point = .outside then
      some { s with clock := curTimeSec, point := AcceptorState.visit maxClientCount 0 curTimeSec }
    else none
  | .acceptor wsaSocket acceptEx => s.acceptorThread maxClientCount wsaSocket acceptEx
  | .acceptCompletion clientIndex bindRecv now =>
    if s.accepts clientIndex = 0 then none
    else some ({ s with clock := now }.acceptCompletion clientIndex bindRecv now)
  | .closeSocket clientIndex now =>
    if clientIndex < maxClientCount then
      some ({ s with clock := now }.closeSocket clientIndex now)
    else none

/-- The clock does not run backwards, and stays below `UINT32_MAX`. -/
def AcceptorState.Clocked (s : AcceptorState) : AcceptorEvent → Prop
  | .readClock now => s.clock ≤ now ∧ now < uint32Max
  | .acceptor _ _ => True
  | .acceptCompletion _ _ now => s.clock ≤ now ∧ now < uint32Max
  | .closeSocket _ now => s.clock ≤ now ∧ now < uint32Max

/-- Every call of `PostAccept` so far found its slot not connected, without an outstanding
`AcceptEx`, and closed more than `REUSE_SESSION_WAIT_TIMESEC` before; and a slot has one `AcceptEx`
outstanding at most, and none while it is connected. -/
structure AcceptorState.Safe (s : AcceptorState) : Prop where
  posts : ∀ p ∈ s.posts, p.isConnected = false ∧ p.accepts = 0 ∧
    p.lastClosed + reuseSessionWaitTimeSec < p.curTimeSec ∧ p.curTimeSec ≤ p.time
  accepts_le_one : ∀ i, s.accepts i ≤ 1
  apart : ∀ i, (s.mClientList i).mIsConnect = true → s.accepts i = 0

/-! ### One slot -/

/-- What `mLatestClosedTimeSec` says of a slot with this number of outstanding `AcceptEx` calls,
closed last at `lastClosed`: it is `UINT32_MAX` while the slot is connected or waits for a
connection, and else that or the time when the slot was closed. -/
structure NetworkClient.Coherent (c : NetworkClient) (accepts lastClosed : ℕ) : Prop where
  accepts_le_one : accepts ≤ 1
  apart : c.mIsConnect = true → accepts = 0
  accepting : accepts ≠ 0 → c.mLatestClosedTimeSec = uint32Max
  connected : c.mIsConnect = true → c.mLatestClosedTimeSec = uint32Max
  time : c.mLatestClosedTimeSec = uint32Max ∨ c.mLatestClosedTimeSec = lastClosed

/-- The slot is neither connected nor waiting for a connection, and has the time when it was closed.
No worker thread changes it then. -/
structure NetworkClient.Idle (c : NetworkClient) (accepts lastClosed : ℕ) : Prop where
  isConnected : c.mIsConnect = false
  accepts : accepts = 0
  time : c.mLatestClosedTimeSec = lastClosed

theorem NetworkClient.Idle.coherent {c : NetworkClient} {accepts lastClosed : ℕ}
    (h : c.Idle accepts lastClosed) : c.Coherent accepts lastClosed := by
  obtain ⟨hclosed, rfl, htime⟩ := h
  refine ⟨Nat.zero_le 1, fun _ => rfl, fun hne => absurd rfl hne, fun hc => ?_, Or.inr htime⟩
  rw [hclosed] at hc
  exact absurd hc Bool.false_ne_true

abbrev AcceptorState.Coherent (s : AcceptorState) (i : ℕ) : Prop :=
  (s.mClientList i).Coherent (s.accepts i) (s.lastClosed i)

abbrev AcceptorState.Idle (s : AcceptorState) (i : ℕ) : Prop :=
  (s.mClientList i).Idle (s.accepts i) (s.lastClosed i)

/-- Nothing differs in `t` but the slot `i`. -/
structure AcceptorState.Frame (s t : AcceptorState) (i : ℕ) : Prop where
  mClientList : ∀ j, j ≠ i → t.mClientList j = s.mClientList j
  accepts : ∀ j, j ≠ i → t.accepts j = s.accepts j
  lastClosed : ∀ j, j ≠ i → t.lastClosed j = s.lastClosed j
  point : t.point = s.point
  clock : t.clock = s.clock
  posts : t.posts = s.posts

namespace AcceptorState

variable {s t : AcceptorState} {e : AcceptorEvent} {i j curTimeSec now maxClientCount : ℕ}

theorem Frame.coherent (h : s.Frame t i) (hj : j ≠ i) (hs : s.Coherent j) : t.Coherent j := by
  rw [Coherent, h.mClientList j hj, h.accepts j hj, h.lastClosed j hj]
  exact hs

theorem Frame.idle (h : s.Frame t i) (hj : j ≠ i) (hs : s.Idle j) : t.Idle j := by
  rw [Idle, h.mClientList j hj, h.accepts j hj, h.lastClosed j hj]
  exact hs

theorem closeSocket_frame (s : AcceptorState) (i now : ℕ) : s.Frame (s.closeSocket i now) i := by
  unfold closeSocket
  split_ifs
  · exact ⟨fun j hj => Function.update_of_ne hj _ _, fun _ _ => rfl,
      fun j hj => Function.update_of_ne hj _ _, rfl, rfl, rfl⟩
  · exact ⟨fun _ _ => rfl, fun _ _ => rfl, fun _ _ => rfl, rfl, rfl, rfl⟩

/-- A slot that was connected is idle behind `CloseSocket`. -/
theorem closeSocket_idle (hconnected : (s.mClientList i).mIsConnect = true)
    (haccepts : s.accepts i = 0) (now : ℕ) : (s.closeSocket i now).Idle i := by
  unfold closeSocket
  rw [if_pos hconnected]
  refine ⟨?_, haccepts, ?_⟩
  · simp only [setClient, Function.update_self]
    rfl
  · simp only [setClient, Function.update_self]
    rfl

theorem acceptCompletion_frame (s : AcceptorState) (i : ℕ) (bindRecv : Bool) (now : ℕ) :
    s.Frame (s.acceptCompletion i bindRecv now) i := by
  unfold acceptCompletion
  cases bindRecv with
  | true =>
    exact ⟨fun j hj => Function.update_of_ne hj _ _, fun j hj => Function.update_of_ne hj _ _,
      fun _ _ => rfl, rfl, rfl, rfl⟩
  | false =>
    have hclose := closeSocket_frame
      ({ s with accepts := Function.update s.accepts i (s.accepts i - 1) }.setClient i
        ((s.mClientList i).acceptCompletion false).1) i now
    refine ⟨fun j hj => (hclose.mClientList j hj).trans (Function.update_of_ne hj _ _),
      fun j hj => (hclose.accepts j hj).trans (Function.update_of_ne hj _ _),
      hclose.lastClosed, hclose.point, hclose.clock, hclose.posts⟩

/-- A completed `AcceptEx` leaves its slot connected, or idle. -/
theorem acceptCompletion_coherent (hs : s.Coherent i) (haccepting : s.accepts i ≠ 0)
    (bindRecv : Bool) (now : ℕ) : (s.acceptCompletion i bindRecv now).Coherent i := by
  have hnone : s.accepts i - 1 = 0 := by
    have hle := hs.accepts_le_one
    omega
  cases bindRecv with
  | true =>
    have htime := hs.accepting haccepting
    have haccepts : (s.acceptCompletion i true now).accepts i = 0 := by
      show Function.update s.accepts i (s.accepts i - 1) i = 0
      rw [Function.update_self, hnone]
    have hlatest : ((s.acceptCompletion i true now).mClientList i).mLatestClosedTimeSec =
        uint32Max := by
      show (Function.update s.mClientList i _ i).mLatestClosedTimeSec = uint32Max
      rw [Function.update_self]
      exact htime
    exact ⟨Nat.le_trans (Nat.le_of_eq haccepts) (Nat.zero_le 1), fun _ => haccepts,
      fun hne => absurd haccepts hne, fun _ => hlatest, Or.inl hlatest⟩
  | false =>
    apply NetworkClient.Idle.coherent
    apply closeSocket_idle
    · simp only [setClient, Function.update_self]
      rfl
    · simp only [setClient, Function.update_self, hnone]

theorem closeSocket_coherent (hs : s.Coherent i) (now : ℕ) :
    (s.closeSocket i now).Coherent i := by
  cases hconnected : (s.mClientList i).mIsConnect with
  | true => exact (closeSocket_idle hconnected (hs.apart hconnected) now).coherent
  | false =>
    rw [closeSocket, hconnected, if_neg Bool.false_ne_true]
    exact hs

/-! ### The acceptor thread -/

/-- The acceptor thread is at the client `i`, in the pass that read `curTimeSec`. -/
def At (i curTimeSec : ℕ) : AcceptorPoint → Prop
  | .outside => False
  | .isConnected j cur | .compare j cur | .difference j cur | .postAccept j cur =>
    j = i ∧ cur = curTimeSec

/-- The test that the acceptor thread makes next sends it on to the next client. -/
def Skips (s : AcceptorState) : AcceptorPoint → Prop
  | .isConnected i _ => (s.mClientList i).mIsConnect = true
  | .compare i curTimeSec => curTimeSec < (s.mClientList i).mLatestClosedTimeSec
  | .difference i curTimeSec =>
    (curTimeSec + (2 ^ 64 - (s.mClientList i).mLatestClosedTimeSec)) % 2 ^ 64 ≤
      reuseSessionWaitTimeSec
  | _ => False

/-- A step of the acceptor thread tests a client, and goes on with it or with the next one, or it
calls `PostAccept`. -/
theorem acceptorThread_cases {wsaSocket acceptEx : Bool}
    (h : s.acceptorThread maxClientCount wsaSocket acceptEx = some t) :
    ∃ i cur, At i cur s.point ∧
      ((∃ point, t = { s with point } ∧ (∀ j cur', s.point ≠ .postAccept j cur') ∧
          (At i cur point ∨
            s.Skips s.point ∧ point = visit maxClientCount (i + 1) cur)) ∨
        s.point = .postAccept i cur ∧ t = { s.postAccept i cur wsaSocket acceptEx with
          point := visit maxClientCount (i + 1) cur }) := by
  unfold acceptorThread at h
  cases hpoint : s.point with
  | outside => simp [hpoint] at h
  | isConnected i cur =>
    simp only [hpoint, Option.some.injEq] at h
    refine ⟨i, cur, ⟨rfl, rfl⟩, .inl ⟨_, h.symm, fun _ _ => AcceptorPoint.noConfusion, ?_⟩⟩
    split_ifs with hskips
    · exact .inr ⟨hskips, rfl⟩
    · exact .inl ⟨rfl, rfl⟩
  | compare i cur =>
    simp only [hpoint, Option.some.injEq] at h
    refine ⟨i, cur, ⟨rfl, rfl⟩, .inl ⟨_, h.symm, fun _ _ => AcceptorPoint.noConfusion, ?_⟩⟩
    split_ifs with hskips
    · exact .inr ⟨hskips, rfl⟩
    · exact .inl ⟨rfl, rfl⟩
  | difference i cur =>
    simp only [hpoint, Option.some.injEq] at h
    refine ⟨i, cur, ⟨rfl, rfl⟩, .inl ⟨_, h.symm, fun _ _ => AcceptorPoint.noConfusion, ?_⟩⟩
    split_ifs with hskips
    · exact .inr ⟨hskips, rfl⟩
    · exact .inl ⟨rfl, rfl⟩
  | postAccept i cur =>
    simp only [hpoint, Option.some.injEq] at h
    exact ⟨i, cur, ⟨rfl, rfl⟩, .inr ⟨rfl, h.symm⟩⟩

/-- What the acceptor thread knows of the slot that it looks at.  A slot with a time up to the
reading of the clock is idle, and stays so. -/
def Knows (s : AcceptorState) : AcceptorPoint → Prop
  | .outside => True
  | .isConnected _ curTimeSec => curTimeSec ≤ s.clock
  | .compare _ curTimeSec => curTimeSec ≤ s.clock
  | .difference i curTimeSec =>
    curTimeSec ≤ s.clock ∧ s.Idle i ∧ s.lastClosed i ≤ curTimeSec
  | .postAccept i curTimeSec =>
    curTimeSec ≤ s.clock ∧ s.Idle i ∧ s.lastClosed i + reuseSessionWaitTimeSec < curTimeSec

/-- What every step preserves. -/
structure Invariant (s : AcceptorState) : Prop where
  posts : ∀ p ∈ s.posts, p.isConnected = false ∧ p.accepts = 0 ∧
    p.lastClosed + reuseSessionWaitTimeSec < p.curTimeSec ∧ p.curTimeSec ≤ p.time
  coherent : ∀ i, s.Coherent i
  clock_lt : s.clock < uint32Max
  knows : s.Knows s.point

theorem Invariant.safe (hs : s.Invariant) : s.Safe :=
  ⟨hs.posts, fun i => (hs.coherent i).accepts_le_one, fun i => (hs.coherent i).apart⟩

theorem knows_visit (hcur : curTimeSec ≤ s.clock) (i : ℕ) :
    s.Knows (visit maxClientCount i curTimeSec) := by
  unfold visit
  split_ifs
  · exact hcur
  · trivial

/-- A step that changes one slot, which the acceptor thread has not found idle. -/
theorem Invariant.frame (hs : s.Invariant) (h : s.Frame t i) (hi : t.Coherent i)
    (hbusy : ¬s.Idle i) : t.Invariant := by
  have hknows := hs.knows
  have hkept : ∀ j, s.Idle j → t.Idle j ∧ t.lastClosed j = s.lastClosed j := by
    intro j hidle
    have hj : j ≠ i := by
      rintro rfl
      exact hbusy hidle
    exact ⟨h.idle hj hidle, h.lastClosed j hj⟩
  refine ⟨h.posts ▸ hs.posts, fun j => ?_, h.clock ▸ hs.clock_lt, ?_⟩
  · by_cases hj : j = i
    · exact hj ▸ hi
    · exact h.coherent hj (hs.coherent j)
  · rw [h.point]
    cases hpoint : s.point with
    | outside => trivial
    | isConnected j cur =>
      rw [hpoint] at hknows
      show cur ≤ t.clock
      rw [h.clock]
      exact hknows
    | compare j cur =>
      rw [hpoint] at hknows
      show cur ≤ t.clock
      rw [h.clock]
      exact hknows
    | difference j cur =>
      rw [hpoint] at hknows
      obtain ⟨hcur, hidle, htime⟩ := hknows
      obtain ⟨hstays, hsame⟩ := hkept j hidle
      exact ⟨h.clock ▸ hcur, hstays, hsame ▸ htime⟩
    | postAccept j cur =>
      rw [hpoint] at hknows
      obtain ⟨hcur, hidle, htime⟩ := hknows
      obtain ⟨hstays, hsame⟩ := hkept j hidle
      exact ⟨h.clock ▸ hcur, hstays, hsame ▸ htime⟩

theorem Invariant.tick (hs : s.Invariant) (hclock : s.clock ≤ now) (hlt : now < uint32Max) :
    ({ s with clock := now } : AcceptorState).Invariant := by
  refine ⟨hs.posts, hs.coherent, hlt, ?_⟩
  have hknows := hs.knows
  cases hpoint : s.point with
  | outside => trivial
  | isConnected j cur =>
    rw [hpoint] at hknows
    exact Nat.le_trans hknows hclock
  | compare j cur =>
    rw [hpoint] at hknows
    exact Nat.le_trans hknows hclock
  | difference j cur =>
    rw [hpoint] at hknows
    exact ⟨Nat.le_trans hknows.1 hclock, hknows.2⟩
  | postAccept j cur =>
    rw [hpoint] at hknows
    exact ⟨Nat.le_trans hknows.1 hclock, hknows.2⟩

theorem Invariant.setPoint (hs : s.Invariant) {point : AcceptorPoint} (h : s.Knows point) :
    ({ s with point } : AcceptorState).Invariant := ⟨hs.posts, hs.coherent, hs.clock_lt, h⟩

/-- A slot with a time up to the reading of the clock is idle. -/
theorem Invariant.idle (hs : s.Invariant) (hcur : curTimeSec ≤ s.clock)
    (htime : (s.mClientList i).mLatestClosedTimeSec ≤ curTimeSec) : s.Idle i := by
  have hlt := hs.clock_lt
  have hne : (s.mClientList i).mLatestClosedTimeSec ≠ uint32Max := by omega
  have hcoherent := hs.coherent i
  refine ⟨?_, ?_, hcoherent.time.resolve_left hne⟩
  · exact Bool.eq_false_iff.mpr fun hc => hne (hcoherent.connected hc)
  · by_contra haccepts
    exact hne (hcoherent.accepting haccepts)

theorem postAccept_accepts (s : AcceptorState) (i curTimeSec : ℕ) (wsaSocket acceptEx : Bool) :
    (s.postAccept i curTimeSec wsaSocket acceptEx).accepts =
      Function.update s.accepts i (s.accepts i + (wsaSocket && acceptEx).toNat) := by
  cases wsaSocket <;> cases acceptEx <;>
    simp [AcceptorState.postAccept, NetworkClient.postAccept]

/-- `PostAccept` on an idle slot that was closed long enough ago. -/
theorem Invariant.postAccept (hs : s.Invariant) (hcur : curTimeSec ≤ s.clock) (hidle : s.Idle i)
    (hlong : s.lastClosed i + reuseSessionWaitTimeSec < curTimeSec) (wsaSocket acceptEx : Bool)
    {point : AcceptorPoint} (hpoint : ∀ t : AcceptorState, t.clock = s.clock → t.Knows point) :
    ({ s.postAccept i curTimeSec wsaSocket acceptEx with point } : AcceptorState).Invariant := by
  refine ⟨?_, fun j => ?_, hs.clock_lt, hpoint _ rfl⟩
  · intro p hp
    rcases List.mem_append.mp hp with hp | hp
    · exact hs.posts p hp
    · obtain rfl := List.mem_singleton.mp hp
      exact ⟨hidle.isConnected, hidle.accepts, hlong, hcur⟩
  · by_cases hj : j = i
    · subst hj
      have haccepts : (s.postAccept j curTimeSec wsaSocket acceptEx).accepts j ≤ 1 := by
        rw [postAccept_accepts, Function.update_self, hidle.accepts, Nat.zero_add]
        exact Bool.toNat_le _
      have hclient : (s.postAccept j curTimeSec wsaSocket acceptEx).mClientList j =
          ((s.mClientList j).postAccept (if wsaSocket then some s.sockets else none)
            acceptEx).1 := Function.update_self _ _ _
      have hclosed : ((s.postAccept j curTimeSec wsaSocket acceptEx).mClientList j).mIsConnect =
          false := by
        rw [hclient]
        exact hidle.isConnected
      have hlatest : ((s.postAccept j curTimeSec wsaSocket
          acceptEx).mClientList j).mLatestClosedTimeSec = uint32Max := by
        rw [hclient]
        rfl
      refine ⟨haccepts, fun hc => ?_, fun _ => hlatest, fun _ => hlatest, Or.inl hlatest⟩
      exact absurd (hclosed.symm.trans hc) Bool.false_ne_true
    · have hclient : (s.postAccept i curTimeSec wsaSocket acceptEx).mClientList j =
          s.mClientList j := Function.update_of_ne hj _ _
      have haccepts : (s.postAccept i curTimeSec wsaSocket acceptEx).accepts j = s.accepts j := by
        rw [postAccept_accepts, Function.update_of_ne hj]
      show NetworkClient.Coherent _ _ (s.lastClosed j)
      rw [hclient, haccepts]
      exact hs.coherent j

theorem invariant_acceptorThread (hs : s.Invariant) {wsaSocket acceptEx : Bool}
    (h : s.acceptorThread maxClientCount wsaSocket acceptEx = some t) : t.Invariant := by
  have hknows := hs.knows
  have hlt := hs.clock_lt
  unfold acceptorThread at h
  cases hpoint : s.point with
  | outside => simp [hpoint] at h
  | isConnected i cur =>
    simp only [hpoint, Option.some.injEq] at h hknows
    subst h
    apply hs.setPoint
    split_ifs
    · exact knows_visit hknows _
    · exact hknows
  | compare i cur =>
    simp only [hpoint, Option.some.injEq] at h hknows
    subst h
    apply hs.setPoint
    split_ifs with htime
    · exact knows_visit hknows _
    · have hidle := hs.idle hknows (Nat.le_of_not_lt htime)
      exact ⟨hknows, hidle, hidle.time ▸ Nat.le_of_not_lt htime⟩
  | difference i cur =>
    simp only [hpoint, Option.some.injEq] at h hknows
    subst h
    obtain ⟨hcur, hidle, htime⟩ := hknows
    apply hs.setPoint
    split_ifs with hdiff
    · exact knows_visit hcur _
    · -- The times are below `2^32`, so the difference does not wrap.
      refine ⟨hcur, hidle, ?_⟩
      rw [hidle.time] at hdiff
      unfold uint32Max at hlt
      omega
  | postAccept i cur =>
    simp only [hpoint, Option.some.injEq] at h hknows
    subst h
    obtain ⟨hcur, hidle, hlong⟩ := hknows
    refine hs.postAccept hcur hidle hlong wsaSocket acceptEx fun t ht => ?_
    exact knows_visit (ht.symm ▸ hcur) _

/-! ### Runs -/

theorem acceptorStep_cases (h : acceptorStep maxClientCount s e = some t) :
    (∃ curTimeSec, e = .readClock curTimeSec ∧ s.point = .outside ∧ t = { s with
      clock := curTimeSec
      point := visit maxClientCount 0 curTimeSec }) ∨
    (∃ wsaSocket acceptEx, e = .acceptor wsaSocket acceptEx ∧
      s.acceptorThread maxClientCount wsaSocket acceptEx = some t) ∨
    (∃ i bindRecv now, e = .acceptCompletion i bindRecv now ∧ s.accepts i ≠ 0 ∧
      t = { s with clock := now }.acceptCompletion i bindRecv now) ∨
    (∃ i now, e = .closeSocket i now ∧ i < maxClientCount ∧
      t = { s with clock := now }.closeSocket i now) := by
  cases e with
  | readClock curTimeSec =>
    simp only [acceptorStep] at h
    split_ifs at h with hread
    exact .inl ⟨curTimeSec, rfl, hread, (Option.some.inj h).symm⟩
  | acceptor wsaSocket acceptEx => exact .inr (.inl ⟨wsaSocket, acceptEx, rfl, h⟩)
  | acceptCompletion i bindRecv now =>
    simp only [acceptorStep] at h
    split_ifs at h with haccepts
    exact .inr (.inr (.inl ⟨i, bindRecv, now, rfl, haccepts, (Option.some.inj h).symm⟩))
  | closeSocket i now =>
    simp only [acceptorStep] at h
    split_ifs at h with hcloses
    exact .inr (.inr (.inr ⟨i, now, rfl, hcloses, (Option.some.inj h).symm⟩))

theorem invariant_step (hs : s.Invariant) (hC : s.Clocked e)
    (h : acceptorStep maxClientCount s e = some t) : t.Invariant := by
  obtain ⟨curTimeSec, rfl, -, rfl⟩ | ⟨wsaSocket, acceptEx, rfl, h⟩ |
    ⟨i, bindRecv, now, rfl, haccepting, rfl⟩ | ⟨i, now, rfl, -, rfl⟩ := acceptorStep_cases h
  · exact (hs.tick hC.1 hC.2).setPoint (knows_visit (Nat.le_refl _) 0)
  · exact invariant_acceptorThread hs h
  · have hnow := hs.tick hC.1 hC.2
    exact hnow.frame (acceptCompletion_frame _ i bindRecv now)
      (acceptCompletion_coherent (hnow.coherent i) haccepting bindRecv now)
      fun hidle => haccepting hidle.accepts
  · have hnow := hs.tick hC.1 hC.2
    by_cases hconnected : (s.mClientList i).mIsConnect = true
    · refine hnow.frame (closeSocket_frame _ i now) (closeSocket_coherent (hnow.coherent i) now) ?_
      intro hidle
      exact Bool.false_ne_true (hidle.isConnected.symm.trans hconnected)
    · have hsame : ({ s with clock := now } : AcceptorState).closeSocket i now =
          { s with clock := now } := if_neg hconnected
      rw [hsame]
      exact hnow

theorem invariant_start : ({} : AcceptorState).Invariant := by
  refine ⟨nofun, fun i => ?_, show 0 < uint32Max by decide, trivial⟩
  exact NetworkClient.Idle.coherent ⟨rfl, rfl, rfl⟩

end AcceptorState

/-- On every interleaving of the acceptor thread with the worker threads, and for every outcome of
their calls, the slots are safe. -/
theorem acceptor_safe (maxClientCount : ℕ) (es : List AcceptorEvent)
    (hclock : Meets (acceptorStep maxClientCount) AcceptorState.Clocked {} es) :
    Throughout (acceptorStep maxClientCount) AcceptorState.Safe {} es := by
  have hall : Throughout (acceptorStep maxClientCount) AcceptorState.Invariant {} es :=
    throughout_of_meets (fun _ _ _ hs hC hst => AcceptorState.invariant_step hs hC hst)
      AcceptorState.invariant_start hclock
  exact hall.mono fun _ hs => hs.safe

/-- A pass at the time 4 posts an accept for the only slot, which connects and is closed. -/
def oneConnection : List AcceptorEvent :=
  [.readClock 4, .acceptor true true, .acceptor true true, .acceptor true true,
    .acceptor true true, .acceptCompletion 0 true 5, .closeSocket 0 6]

theorem acceptor_safe_one_connection :
    (run (acceptorStep 1) {} oneConnection).map (fun s => s.posts.length) = some 1 ∧
      Throughout (acceptorStep 1) AcceptorState.Safe {} oneConnection := by
  refine ⟨by decide, acceptor_safe 1 oneConnection ?_⟩
  refine (meets_cons rfl).mpr ⟨⟨by decide, by decide⟩, ?_⟩
  refine (meets_cons rfl).mpr ⟨trivial, (meets_cons rfl).mpr ⟨trivial, ?_⟩⟩
  refine (meets_cons rfl).mpr ⟨trivial, (meets_cons rfl).mpr ⟨trivial, ?_⟩⟩
  refine (meets_cons rfl).mpr ⟨⟨by decide, by decide⟩, ?_⟩
  exact (meets_cons rfl).mpr ⟨⟨by decide, by decide⟩, meets_nil⟩

end IocpStudy.ChatServer
