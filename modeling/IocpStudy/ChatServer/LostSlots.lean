import IocpStudy.ChatServer.Acceptor

/-! What becomes of a slot.  One that was closed is posted again by the next pass of the acceptor
thread that reads a late enough clock.  One whose `PostAccept` fails keeps `UINT32_MAX` as the time
of its last close, so no pass posts it again, and the completion of a failed `AcceptEx` arrives with
the key of the listening socket, a null pointer that `CloseSocket` uses. -/

namespace IocpStudy.ChatServer

open Runs

/-- The slots and the threads.  `faulted` records the use of a null pointer, where the run ends. -/
structure SlotsState where
  server : AcceptorState := {}
  faulted : Bool := false

/-- `acceptFailed` is the completion of an `AcceptEx` of a slot that failed. -/
inductive SlotsEvent
  | step (e : AcceptorEvent)
  | acceptFailed (clientIndex : ℕ)
deriving Repr, DecidableEq

/-- `WorkerThread` for a completion with `bSuccess` false: `CloseSocket` begins with
`pClient->IsConnected()`. -/
def SlotsState.failed (s : SlotsState) (pClient : Option ℕ) (now : ℕ) : SlotsState :=
  match pClient with
  | none => { s with faulted := true }
  | some clientIndex => { s with server := s.server.closeSocket clientIndex now }

/-- The completion key of the listening socket, which `BindAndListen` registers with the key 0. -/
def listenerKey : Option ℕ := none

instance (s : AcceptorState) (e : AcceptorEvent) : Decidable (s.Clocked e) := by
  cases e <;> unfold AcceptorState.Clocked <;> infer_instance

/-- The steps for a list of `maxClientCount` clients, as long as the clock stays below
`UINT32_MAX`. -/
def slotsStep (maxClientCount : ℕ) (s : SlotsState) : SlotsEvent → Option SlotsState
  | .step e =>
    if s.faulted = false ∧ s.server.Clocked e then
      (acceptorStep maxClientCount s.server e).map fun server => { s with server }
    else none
  | .acceptFailed clientIndex =>
    if s.faulted ∨ s.server.accepts clientIndex = 0 then none
    else
      let accepts := Function.update s.server.accepts clientIndex (s.server.accepts clientIndex - 1)
      some ({ s with server := { s.server with accepts } }.failed listenerKey s.server.clock)

namespace AcceptorState

/-- However the run goes on, once a pass is over that read the clock more than
`REUSE_SESSION_WAIT_TIMESEC` behind the time when the slot was closed, the slot has been posted
again. -/
def PostedAgain (maxClientCount : ℕ) (s : AcceptorState) (i : ℕ) : Prop :=
  ∀ es₁ now es₂ t,
    run (acceptorStep maxClientCount) s (es₁ ++ .readClock now :: es₂) = some t →
    s.lastClosed i + reuseSessionWaitTimeSec < now → now < uint32Max → t.point = .outside →
    ∃ posts, t.posts = s.posts ++ posts ∧ ∃ p ∈ posts, p.clientIndex = i

/-- The slot is connected, has an `AcceptEx` outstanding, or is idle with the time when it was
closed. -/
def Used (s : AcceptorState) (i : ℕ) : Prop :=
  (s.mClientList i).mIsConnect = true ∨ s.accepts i ≠ 0 ∨ s.Idle i

end AcceptorState

/-- No null pointer was used, and every slot is connected, or has an `AcceptEx` outstanding, or is
idle and will be posted again. -/
structure SlotsState.Kept (maxClientCount : ℕ) (s : SlotsState) : Prop where
  faulted : s.faulted = false
  slots : ∀ i < maxClientCount,
    (s.server.mClientList i).mIsConnect = true ∨ s.server.accepts i ≠ 0 ∨
      s.server.Idle i ∧ s.server.PostedAgain maxClientCount i

/-- Where the acceptor thread calls `PostAccept`, it succeeds, and no `AcceptEx` fails later. -/
def SlotsState.Succeeds (s : SlotsState) : SlotsEvent → Prop
  | .step (.acceptor wsaSocket acceptEx) => ∀ i curTimeSec,
      s.server.point = .postAccept i curTimeSec → wsaSocket = true ∧ acceptEx = true
  | .step _ => True
  | .acceptFailed _ => False

/-- The acceptor thread is in the pass that read `now`, and has not come past the slot `i`. -/
def AcceptorPoint.Ahead (i now : ℕ) : AcceptorPoint → Prop
  | .outside => False
  | .isConnected j curTimeSec | .compare j curTimeSec | .difference j curTimeSec
  | .postAccept j curTimeSec => j ≤ i ∧ curTimeSec = now

/-- The acceptor thread is at a client of the list. -/
def AcceptorPoint.Below (maxClientCount : ℕ) : AcceptorPoint → Prop
  | .outside => True
  | .isConnected j _ | .compare j _ | .difference j _ | .postAccept j _ => j < maxClientCount

namespace AcceptorState

variable {s t u : AcceptorState} {e : AcceptorEvent} {es : List AcceptorEvent}
  {i j curTimeSec now maxClientCount : ℕ} {posts : List PostAcceptCall}

/-! ### An idle slot -/

/-- What has become of a slot that was idle, with the posts `posts`, at the close time `closed`: it
was posted since, or it is still idle. -/
def Waits (posts : List PostAcceptCall) (i closed : ℕ) (t : AcceptorState) : Prop :=
  ∃ new, t.posts = posts ++ new ∧
    ((∃ p ∈ new, p.clientIndex = i) ∨ t.Idle i ∧ t.lastClosed i = closed)

theorem posts_acceptorThread {wsaSocket acceptEx : Bool}
    (h : s.acceptorThread maxClientCount wsaSocket acceptEx = some t) :
    (t.posts = s.posts ∧ t.mClientList = s.mClientList ∧ t.accepts = s.accepts ∧
      t.lastClosed = s.lastClosed ∧ t.clock = s.clock ∧
      ∀ i curTimeSec, s.point ≠ .postAccept i curTimeSec) ∨
    ∃ i curTimeSec, s.point = .postAccept i curTimeSec ∧
      t = { s.postAccept i curTimeSec wsaSocket acceptEx with
        point := visit maxClientCount (i + 1) curTimeSec } := by
  obtain ⟨i, cur, -, ⟨point, rfl, hother, -⟩ | hposts⟩ := acceptorThread_cases h
  · exact .inl ⟨rfl, rfl, rfl, rfl, rfl, hother⟩
  · exact .inr ⟨i, cur, hposts⟩

/-- A step leaves an idle slot idle, or posts it. -/
theorem waits_of_idle (hidle : s.Idle i) (h : acceptorStep maxClientCount s e = some t) :
    t.Waits s.posts i (s.lastClosed i) := by
  obtain ⟨cur, rfl, -, rfl⟩ | ⟨wsaSocket, acceptEx, rfl, h⟩ |
    ⟨j, bindRecv, now, rfl, haccepting, rfl⟩ | ⟨j, now, rfl, -, rfl⟩ := acceptorStep_cases h
  · exact ⟨[], (List.append_nil _).symm, Or.inr ⟨hidle, rfl⟩⟩
  · obtain ⟨hposts, hclients, haccepts, hclosed, -, -⟩ | ⟨j, cur, -, rfl⟩ :=
      posts_acceptorThread h
    · refine ⟨[], hposts.trans (List.append_nil _).symm, Or.inr ⟨?_, congrFun hclosed i⟩⟩
      rw [Idle, hclients, haccepts, hclosed]
      exact hidle
    · refine ⟨_, rfl, ?_⟩
      by_cases hj : j = i
      · exact Or.inl ⟨_, List.mem_singleton_self _, hj⟩
      · have hclient : (s.postAccept j cur wsaSocket acceptEx).mClientList i = s.mClientList i :=
          Function.update_of_ne (Ne.symm hj) _ _
        have haccepts : (s.postAccept j cur wsaSocket acceptEx).accepts i = s.accepts i := by
          rw [postAccept_accepts, Function.update_of_ne (Ne.symm hj)]
        refine Or.inr ⟨?_, rfl⟩
        show NetworkClient.Idle _ _ (s.lastClosed i)
        rw [hclient, haccepts]
        exact hidle
  · have hj : i ≠ j := by
      rintro rfl
      exact haccepting hidle.accepts
    have hframe := acceptCompletion_frame { s with clock := now } j bindRecv now
    refine ⟨[], hframe.posts.trans (List.append_nil _).symm, Or.inr ⟨?_, ?_⟩⟩
    · exact hframe.idle hj hidle
    · exact hframe.lastClosed i hj
  · by_cases hj : i = j
    · subst hj
      have hsame : ({ s with clock := now } : AcceptorState).closeSocket i now =
          { s with clock := now } :=
        if_neg (by rw [hidle.isConnected]; exact Bool.false_ne_true)
      rw [hsame]
      exact ⟨[], (List.append_nil _).symm, Or.inr ⟨hidle, rfl⟩⟩
    · have hframe := closeSocket_frame { s with clock := now } j now
      exact ⟨[], hframe.posts.trans (List.append_nil _).symm,
        Or.inr ⟨hframe.idle hj hidle, hframe.lastClosed i hj⟩⟩

theorem posts_step (h : acceptorStep maxClientCount s e = some t) :
    ∃ new, t.posts = s.posts ++ new := by
  obtain ⟨cur, rfl, -, rfl⟩ | ⟨wsaSocket, acceptEx, rfl, h⟩ |
    ⟨j, bindRecv, now, rfl, -, rfl⟩ | ⟨j, now, rfl, -, rfl⟩ := acceptorStep_cases h
  · exact ⟨[], (List.append_nil _).symm⟩
  · obtain ⟨hposts, -⟩ | ⟨j, cur, -, rfl⟩ := posts_acceptorThread h
    · exact ⟨[], hposts.trans (List.append_nil _).symm⟩
    · exact ⟨_, rfl⟩
  · exact ⟨[], (acceptCompletion_frame _ j bindRecv now).posts.trans (List.append_nil _).symm⟩
  · exact ⟨[], (closeSocket_frame _ j now).posts.trans (List.append_nil _).symm⟩

theorem waits_step {closed : ℕ} (hs : s.Waits posts i closed)
    (h : acceptorStep maxClientCount s e = some t) : t.Waits posts i closed := by
  obtain ⟨new, hposts, ⟨p, hp, hi⟩ | ⟨hidle, rfl⟩⟩ := hs
  · obtain ⟨more, hmore⟩ := posts_step h
    refine ⟨new ++ more, ?_, Or.inl ⟨p, List.mem_append_left _ hp, hi⟩⟩
    rw [hmore, hposts, List.append_assoc]
  · obtain ⟨more, hmore, hnext⟩ := waits_of_idle hidle h
    refine ⟨new ++ more, by rw [hmore, hposts, List.append_assoc], hnext.imp ?_ id⟩
    rintro ⟨p, hp, hi⟩
    exact ⟨p, List.mem_append_right _ hp, hi⟩

/-! ### A pass -/

theorem ahead_visit (hi : i < maxClientCount) (hj : j < i) :
    (visit maxClientCount (j + 1) now).Ahead i now := by
  rw [visit, if_pos (by omega)]
  exact ⟨hj, rfl⟩

theorem At.ahead_iff {point : AcceptorPoint} (h : At j curTimeSec point) :
    point.Ahead i now ↔ j ≤ i ∧ curTimeSec = now := by
  cases point with
  | outside => exact h.elim
  | _ =>
    obtain ⟨rfl, rfl⟩ := h
    rfl

/-- No test sends the thread past a slot that was closed long enough ago. -/
theorem not_skips_of_idle (hidle : s.Idle i)
    (hlong : s.lastClosed i + reuseSessionWaitTimeSec < now) (hnow : now < uint32Max)
    (hat : At i now s.point) : ¬s.Skips s.point := by
  have htime := hidle.time
  intro hskips
  cases hpoint : s.point with
  | outside =>
    rw [hpoint] at hskips
    exact hskips
  | isConnected j cur =>
    rw [hpoint] at hat hskips
    obtain ⟨rfl, rfl⟩ := hat
    exact Bool.false_ne_true (hidle.isConnected.symm.trans hskips)
  | compare j cur =>
    rw [hpoint] at hat hskips
    obtain ⟨rfl, rfl⟩ := hat
    simp only [Skips] at hskips
    omega
  | difference j cur =>
    rw [hpoint] at hat hskips
    obtain ⟨rfl, rfl⟩ := hat
    simp only [Skips] at hskips
    unfold uint32Max reuseSessionWaitTimeSec at *
    omega
  | postAccept j cur =>
    rw [hpoint] at hskips
    exact hskips

/-- The acceptor thread does not pass a slot by that was closed long enough ago. -/
theorem ahead_acceptorThread {wsaSocket acceptEx : Bool} (hi : i < maxClientCount)
    (hidle : s.Idle i) (hlong : s.lastClosed i + reuseSessionWaitTimeSec < now)
    (hnow : now < uint32Max) (hahead : s.point.Ahead i now)
    (h : s.acceptorThread maxClientCount wsaSocket acceptEx = some t) :
    t.point.Ahead i now ∨ ∃ new, t.posts = s.posts ++ new ∧ ∃ p ∈ new, p.clientIndex = i := by
  obtain ⟨j, cur, hat, ⟨point, rfl, -, hnext⟩ | ⟨-, rfl⟩⟩ := acceptorThread_cases h
  · obtain ⟨hle, rfl⟩ := hat.ahead_iff.mp hahead
    rcases hnext with hstays | ⟨hskips, rfl⟩
    · exact Or.inl (hstays.ahead_iff.mpr ⟨hle, rfl⟩)
    · rcases Nat.lt_or_eq_of_le hle with hlt | rfl
      · exact Or.inl (ahead_visit hi hlt)
      · exact absurd hskips (not_skips_of_idle hidle hlong hnow hat)
  · obtain ⟨hle, rfl⟩ := hat.ahead_iff.mp hahead
    rcases Nat.lt_or_eq_of_le hle with hlt | rfl
    · exact Or.inl (ahead_visit hi hlt)
    · exact Or.inr ⟨_, rfl, _, List.mem_singleton_self _, rfl⟩

theorem ahead_step (hi : i < maxClientCount) (hidle : s.Idle i)
    (hlong : s.lastClosed i + reuseSessionWaitTimeSec < now) (hnow : now < uint32Max)
    (hahead : s.point.Ahead i now) (h : acceptorStep maxClientCount s e = some t) :
    t.point.Ahead i now ∨ ∃ new, t.posts = s.posts ++ new ∧ ∃ p ∈ new, p.clientIndex = i := by
  obtain ⟨cur, rfl, houtside, rfl⟩ | ⟨wsaSocket, acceptEx, rfl, h⟩ |
    ⟨j, bindRecv, time, rfl, -, rfl⟩ | ⟨j, time, rfl, -, rfl⟩ := acceptorStep_cases h
  · rw [houtside] at hahead
    exact hahead.elim
  · exact ahead_acceptorThread hi hidle hlong hnow hahead h
  · refine Or.inl ?_
    rw [(acceptCompletion_frame { s with clock := time } j bindRecv time).point]
    exact hahead
  · refine Or.inl ?_
    rw [(closeSocket_frame { s with clock := time } j time).point]
    exact hahead

/-- In the pass that read `now`, the slot has been posted, or waits and is still ahead. -/
def Awaited (posts : List PostAcceptCall) (i closed now : ℕ) (t : AcceptorState) : Prop :=
  ∃ new, t.posts = posts ++ new ∧
    ((∃ p ∈ new, p.clientIndex = i) ∨
      t.Idle i ∧ t.lastClosed i = closed ∧ t.point.Ahead i now)

theorem awaited_step {closed : ℕ} (hi : i < maxClientCount)
    (hlong : closed + reuseSessionWaitTimeSec < now) (hnow : now < uint32Max)
    (hs : s.Awaited posts i closed now) (h : acceptorStep maxClientCount s e = some t) :
    t.Awaited posts i closed now := by
  obtain ⟨new, hposts, ⟨p, hp, hpi⟩ | ⟨hidle, rfl, hahead⟩⟩ := hs
  · obtain ⟨more, hmore⟩ := posts_step h
    refine ⟨new ++ more, ?_, Or.inl ⟨p, List.mem_append_left _ hp, hpi⟩⟩
    rw [hmore, hposts, List.append_assoc]
  · obtain ⟨more, hmore, hnext⟩ := waits_of_idle hidle h
    refine ⟨new ++ more, by rw [hmore, hposts, List.append_assoc], ?_⟩
    rcases hnext with ⟨p, hp, hpi⟩ | ⟨hidle', hclosed⟩
    · exact Or.inl ⟨p, List.mem_append_right _ hp, hpi⟩
    · rcases ahead_step hi hidle hlong hnow hahead h with hahead' | ⟨more', hmore', p, hp, hpi⟩
      · exact Or.inr ⟨hidle', hclosed, hahead'⟩
      · rw [hmore, List.append_cancel_left_eq] at hmore'
        exact Or.inl ⟨p, List.mem_append_right _ (hmore' ▸ hp), hpi⟩

/-- An idle slot is posted again. -/
theorem postedAgain_of_idle (hi : i < maxClientCount) (hidle : s.Idle i) :
    s.PostedAgain maxClientCount i := by
  intro es₁ now es₂ t hrun hlong hnow houtside
  obtain ⟨u, hu, hrest⟩ := run_append_eq_some.mp hrun
  obtain ⟨v, hv, htail⟩ := run_cons_eq_some.mp hrest
  have hwaits : u.Waits s.posts i (s.lastClosed i) :=
    run_invariant (fun _ _ _ hs hst => waits_step hs hst)
      ⟨[], (List.append_nil _).symm, Or.inr ⟨hidle, rfl⟩⟩ hu
  obtain ⟨new, hposts, hnext⟩ := waits_step hwaits hv
  have hahead : v.point.Ahead i now := by
    simp only [acceptorStep] at hv
    split_ifs at hv
    cases hv
    simp only [visit]
    rw [if_pos (by omega)]
    exact ⟨Nat.zero_le _, rfl⟩
  have hawaited : v.Awaited s.posts i (s.lastClosed i) now :=
    ⟨new, hposts, hnext.imp id fun hkept => ⟨hkept.1, hkept.2, hahead⟩⟩
  obtain ⟨all, hall, hposted | ⟨-, -, hahead'⟩⟩ :=
    run_invariant (fun _ _ _ hs hst => awaited_step hi hlong hnow hs hst) hawaited htail
  · exact ⟨all, hall, hposted⟩
  · rw [houtside] at hahead'
    exact hahead'.elim

/-! ### One step -/

theorem below_visit (j curTimeSec : ℕ) :
    (visit maxClientCount j curTimeSec).Below maxClientCount := by
  unfold visit
  split_ifs with h
  · exact h
  · trivial

theorem At.below_iff {point : AcceptorPoint} (h : At j curTimeSec point) :
    point.Below maxClientCount ↔ j < maxClientCount := by
  cases point with
  | outside => exact h.elim
  | _ =>
    obtain ⟨rfl, rfl⟩ := h
    rfl

theorem below_acceptorThread {wsaSocket acceptEx : Bool} (hs : s.point.Below maxClientCount)
    (h : s.acceptorThread maxClientCount wsaSocket acceptEx = some t) :
    t.point.Below maxClientCount := by
  obtain ⟨j, cur, hat, ⟨point, rfl, -, hstays | ⟨-, rfl⟩⟩ | ⟨-, rfl⟩⟩ := acceptorThread_cases h
  · exact hstays.below_iff.mpr (hat.below_iff.mp hs)
  · exact below_visit _ _
  · exact below_visit _ _

theorem below_step (hs : s.point.Below maxClientCount)
    (h : acceptorStep maxClientCount s e = some t) : t.point.Below maxClientCount := by
  obtain ⟨cur, rfl, -, rfl⟩ | ⟨wsaSocket, acceptEx, rfl, hthread⟩ |
    ⟨j, bindRecv, time, rfl, -, rfl⟩ | ⟨j, time, rfl, -, rfl⟩ := acceptorStep_cases h
  · exact below_visit 0 cur
  · exact below_acceptorThread hs hthread
  · rw [(acceptCompletion_frame { s with clock := time } j bindRecv time).point]
    exact hs
  · rw [(closeSocket_frame { s with clock := time } j time).point]
    exact hs

theorem Frame.used (h : s.Frame t i) (hj : j ≠ i) (hs : s.Used j) : t.Used j := by
  rw [Used, Idle, h.mClientList j hj, h.accepts j hj, h.lastClosed j hj]
  exact hs

/-- A worker thread leaves the slot of its completion connected or idle. -/
theorem used_acceptCompletion (hs : s.Invariant) (bindRecv : Bool) (now : ℕ) :
    (s.acceptCompletion i bindRecv now).Used i := by
  have hle := (hs.coherent i).accepts_le_one
  cases bindRecv with
  | true =>
    refine Or.inl ?_
    show (Function.update s.mClientList i _ i).mIsConnect = true
    rw [Function.update_self]
    rfl
  | false =>
    refine Or.inr (Or.inr ?_)
    apply closeSocket_idle
    · simp only [setClient, Function.update_self]
      rfl
    · simp only [setClient, Function.update_self]
      omega

theorem used_closeSocket (hs : s.Invariant) (hused : s.Used i) (now : ℕ) :
    (s.closeSocket i now).Used i := by
  by_cases hconnected : (s.mClientList i).mIsConnect = true
  · exact Or.inr (Or.inr (closeSocket_idle hconnected ((hs.coherent i).apart hconnected) now))
  · rw [closeSocket, if_neg hconnected]
    exact hused

/-- A `PostAccept` that fails leaves its slot neither connected nor waiting for a connection, with a
time that was never reached. -/
theorem used_postAccept_iff (hs : s.Invariant) (hpoint : s.point = .postAccept i curTimeSec)
    (wsaSocket acceptEx : Bool) :
    (s.postAccept i curTimeSec wsaSocket acceptEx).Used i ↔
      wsaSocket = true ∧ acceptEx = true := by
  have hknows := hs.knows
  rw [hpoint] at hknows
  obtain ⟨hcur, hidle, hlong⟩ := hknows
  have hclock := hs.clock_lt
  have haccepts : (s.postAccept i curTimeSec wsaSocket acceptEx).accepts i =
      (wsaSocket && acceptEx).toNat := by
    rw [postAccept_accepts, Function.update_self, hidle.accepts, Nat.zero_add]
  have hclient : (s.postAccept i curTimeSec wsaSocket acceptEx).mClientList i =
      ((s.mClientList i).postAccept (if wsaSocket then some s.sockets else none) acceptEx).1 :=
    Function.update_self _ _ _
  have hclosed : ((s.postAccept i curTimeSec wsaSocket acceptEx).mClientList i).mIsConnect =
      false := by
    rw [hclient]
    exact hidle.isConnected
  have hlatest : ((s.postAccept i curTimeSec wsaSocket
      acceptEx).mClientList i).mLatestClosedTimeSec = uint32Max := by
    rw [hclient]
    rfl
  constructor
  · rintro (hconnected | hposted | hidle')
    · rw [hclosed] at hconnected
      exact absurd hconnected Bool.false_ne_true
    · rw [haccepts] at hposted
      cases wsaSocket <;> cases acceptEx <;> simp at hposted ⊢
    · have htime : uint32Max = s.lastClosed i := hlatest.symm.trans hidle'.time
      omega
  · rintro ⟨rfl, rfl⟩
    refine Or.inr (Or.inl ?_)
    rw [haccepts]
    decide

/-- A step keeps the slots in use, if a `PostAccept` that it makes succeeds. -/
theorem used_step (hs : s.Invariant) (hused : s.Used i)
    (h : acceptorStep maxClientCount s e = some t)
    (hpost : ∀ wsaSocket acceptEx curTimeSec, e = .acceptor wsaSocket acceptEx →
      s.point = .postAccept i curTimeSec → wsaSocket = true ∧ acceptEx = true)
    (hclock : s.Clocked e) : t.Used i := by
  obtain ⟨cur, rfl, -, rfl⟩ | ⟨wsaSocket, acceptEx, rfl, h⟩ |
    ⟨j, bindRecv, now, rfl, -, rfl⟩ | ⟨j, now, rfl, -, rfl⟩ := acceptorStep_cases h
  · exact hused
  · obtain ⟨-, hclients, haccepts, hclosed, -, -⟩ | ⟨j, cur, hpoint, rfl⟩ :=
      posts_acceptorThread h
    · rw [Used, Idle, hclients, haccepts, hclosed]
      exact hused
    · by_cases hj : i = j
      · subst hj
        exact (used_postAccept_iff hs hpoint wsaSocket acceptEx).mpr
          (hpost wsaSocket acceptEx cur rfl hpoint)
      · have hclient : (s.postAccept j cur wsaSocket acceptEx).mClientList i = s.mClientList i :=
          Function.update_of_ne hj _ _
        have haccepts : (s.postAccept j cur wsaSocket acceptEx).accepts i = s.accepts i := by
          rw [postAccept_accepts, Function.update_of_ne hj]
        show _ ∨ _ ∨ NetworkClient.Idle _ _ (s.lastClosed i)
        rw [hclient, haccepts]
        exact hused
  · have hnow := hs.tick hclock.1 hclock.2
    by_cases hj : i = j
    · subst hj
      exact used_acceptCompletion hnow bindRecv now
    · exact (acceptCompletion_frame _ j bindRecv now).used hj hused
  · have hnow := hs.tick hclock.1 hclock.2
    by_cases hj : i = j
    · subst hj
      exact used_closeSocket hnow hused now
    · exact (closeSocket_frame _ j now).used hj hused

end AcceptorState

/-! ### A run -/

variable {s t : SlotsState} {e : SlotsEvent} {es : List SlotsEvent} {maxClientCount : ℕ}

theorem SlotsState.kept_iff :
    s.Kept maxClientCount ↔ s.faulted = false ∧ ∀ i < maxClientCount, s.server.Used i := by
  constructor
  · intro hs
    exact ⟨hs.faulted, fun i hi => (hs.slots i hi).imp id (Or.imp id And.left)⟩
  · rintro ⟨hfaulted, hused⟩
    exact ⟨hfaulted, fun i hi => (hused i hi).imp id
      (Or.imp id fun hidle => ⟨hidle, AcceptorState.postedAgain_of_idle hi hidle⟩)⟩

/-- What every step preserves that uses no null pointer. -/
structure SlotsState.Sound (maxClientCount : ℕ) (s : SlotsState) : Prop where
  invariant : s.server.Invariant
  below : s.server.point.Below maxClientCount

theorem slotsStep_step_eq_some {e : AcceptorEvent}
    (h : slotsStep maxClientCount s (.step e) = some t) :
    s.server.Clocked e ∧ acceptorStep maxClientCount s.server e = some t.server ∧
      t.faulted = s.faulted := by
  simp only [slotsStep] at h
  split_ifs at h with hguard
  obtain ⟨server, hserver, rfl⟩ := Option.map_eq_some_iff.mp h
  exact ⟨hguard.2, hserver, rfl⟩

theorem sound_step (hs : s.Sound maxClientCount) (hC : s.Succeeds e)
    (h : slotsStep maxClientCount s e = some t) : t.Sound maxClientCount := by
  cases e with
  | step e =>
    obtain ⟨hclock, hserver, -⟩ := slotsStep_step_eq_some h
    exact ⟨AcceptorState.invariant_step hs.invariant hclock hserver,
      AcceptorState.below_step hs.below hserver⟩
  | acceptFailed i => exact hC.elim

/-- What one step needs to keep the slots. -/
theorem kept_step_iff (hs : s.Sound maxClientCount) (hkept : s.Kept maxClientCount)
    (h : slotsStep maxClientCount s e = some t) : t.Kept maxClientCount ↔ s.Succeeds e := by
  obtain ⟨hfaulted, hused⟩ := SlotsState.kept_iff.mp hkept
  rw [SlotsState.kept_iff]
  cases e with
  | acceptFailed i =>
    simp only [slotsStep] at h
    split_ifs at h
    cases h
    exact iff_of_false (fun ht => absurd ht.1 Bool.noConfusion) id
  | step e =>
    obtain ⟨hclock, hserver, hsame⟩ := slotsStep_step_eq_some h
    constructor
    · rintro ⟨-, hslots⟩
      cases e with
      | acceptor wsaSocket acceptEx =>
        intro i cur hpoint
        obtain ⟨-, -, -, -, -, hother⟩ | ⟨j, cur', hpoint', hpost⟩ :=
          AcceptorState.posts_acceptorThread hserver
        · exact absurd hpoint (hother i cur)
        · rw [hpoint] at hpoint'
          obtain ⟨rfl, rfl⟩ := AcceptorPoint.postAccept.inj hpoint'
          have hbelow := hs.below
          rw [hpoint] at hbelow
          have huse := hslots i hbelow
          rw [hpost] at huse
          exact (AcceptorState.used_postAccept_iff hs.invariant hpoint wsaSocket acceptEx).mp huse
      | readClock cur => trivial
      | acceptCompletion i bindRecv now => trivial
      | closeSocket i now => trivial
    · intro hC
      refine ⟨hsame.trans hfaulted, fun i hi => ?_⟩
      refine AcceptorState.used_step hs.invariant (hused i hi) hserver ?_ hclock
      rintro wsaSocket acceptEx cur rfl hpoint
      exact hC i cur hpoint

theorem SlotsState.sound_start : ({} : SlotsState).Sound maxClientCount :=
  ⟨AcceptorState.invariant_start, trivial⟩

theorem SlotsState.kept_start : ({} : SlotsState).Kept maxClientCount :=
  kept_iff.mpr ⟨rfl, fun _ _ => Or.inr (Or.inr ⟨rfl, rfl, rfl⟩)⟩

/-- On every interleaving, no slot is lost and no null pointer is used if and only if every
`PostAccept` succeeds and no `AcceptEx` fails. -/
theorem slots_kept_iff (maxClientCount : ℕ) (es : List SlotsEvent) (s : SlotsState)
    (h : run (slotsStep maxClientCount) {} es = some s) :
    Throughout (slotsStep maxClientCount) (SlotsState.Kept maxClientCount) {} es ↔
      Meets (slotsStep maxClientCount) SlotsState.Succeeds {} es :=
  throughout_iff_meets_of (fun _ _ _ hs _ hC hst => sound_step hs hC hst)
    (fun _ _ _ hs hkept hst => kept_step_iff hs hkept hst) SlotsState.sound_start
    SlotsState.kept_start h

/-- A pass posts the only slot, and its connection is closed and the slot posted again. -/
def twoPosts : List SlotsEvent :=
  [.readClock 4, .acceptor true true, .acceptor true true, .acceptor true true,
    .acceptor true true, .acceptCompletion 0 true 5, .closeSocket 0 6, .readClock 10,
    .acceptor true true, .acceptor true true, .acceptor true true, .acceptor true true].map .step

theorem slots_kept_two_posts :
    ∃ s, run (slotsStep 1) {} twoPosts = some s ∧ s.server.posts.length = 2 ∧
      Throughout (slotsStep 1) (SlotsState.Kept 1) {} twoPosts := by
  refine ⟨_, rfl, rfl, (slots_kept_iff 1 twoPosts _ rfl).mpr ?_⟩
  iterate 12
    refine (meets_cons rfl).mpr ⟨?_, ?_⟩
    · first
      | exact fun _ _ _ => ⟨rfl, rfl⟩
      | exact trivial
  exact meets_nil

/-- The `WSASocket` of the first `PostAccept` fails. -/
def failedPost : List SlotsEvent :=
  [.readClock 4, .acceptor true true, .acceptor true true, .acceptor true true,
    .acceptor false true].map .step

/-- The slot is not connected and waits for no connection, and a pass that reads the clock 96
seconds later leaves it out. -/
theorem slot_lost :
    ∃ s, run (slotsStep 1) {} failedPost = some s ∧
      (s.server.mClientList 0).mIsConnect = false ∧ s.server.accepts 0 = 0 ∧
      ¬s.server.PostedAgain 1 0 ∧ ¬Throughout (slotsStep 1) (SlotsState.Kept 1) {} failedPost := by
  refine ⟨_, rfl, rfl, rfl, fun hagain => ?_, fun hall => ?_⟩
  · -- the recorded time is `UINT32_MAX`, so the pass goes on behind the first test of the time
    obtain ⟨posts, hposts, p, hp, -⟩ :=
      hagain [] 100 [.acceptor true true, .acceptor true true] _ rfl (by decide) (by decide) rfl
    obtain rfl : posts = [] := List.self_eq_append_right.mp hposts
    exact List.not_mem_nil hp
  · have hkept := hall.last rfl
    rcases hkept.slots 0 (by decide) with hconnected | haccepts | ⟨hidle, -⟩
    · exact absurd hconnected (by decide)
    · exact absurd haccepts (by decide)
    · exact absurd hidle.time (by decide)

end IocpStudy.ChatServer
