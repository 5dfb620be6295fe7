import IocpStudy.Lib.FixedWindow
import IocpStudy.Lib.Runs
import IocpStudy.SBServer.IOCPHandler

/-! The rate limiter of a `ClientSocket`: `mReceiveTimer` and the packets that `OnReceive` counts.
The callback of the timer captured the address of the object that it was built in, so in a client
that was copied into `mClients` the count is never reset while the connection lasts.  Whichever
object the callback resets, the packets that are accepted are those of a fixed-window limiter. -/

namespace IocpStudy.SBServer

open Runs Words FixedWindow

/-- Where a `ClientSocket` lives: the temporary that round `i` of `Initialize` builds, or the
element of `mClients` that it is copied to. -/
inductive Storage
  | temporary (i : ℕ)
  | element (i : ℕ)
deriving Repr, DecidableEq

/-- The nanoseconds of a millisecond, in which `steady_clock` counts. -/
def nanosecondsPerMS : ℕ := 1000000

/-- `Timer`, with times in nanoseconds.  `mCallback` is the object whose `this` the callback
captured. -/
structure Timer where
  mStartTime : ℕ
  mIntervalMS : ℤ
  mCallback : Storage
deriving Repr, DecidableEq

namespace Timer

def reset (t : Timer) (now : ℕ) : Timer := { t with mStartTime := now }

/-- `GetElapsedTimeMS`, at the time `endTime`.  The cast to `int` keeps the low 32 bits. -/
def getElapsedTimeMS (t : Timer) (endTime : ℕ) : ℤ :=
  intOfUInt32 (UInt32.ofNat ((endTime - t.mStartTime) / nanosecondsPerMS))

/-- `Update`, but for the call of the callback.  `endTime` is what `GetElapsedTimeMS` reads from
the clock, and `now` what `Reset` reads. -/
def update (t : Timer) (endTime now : ℕ) : Timer × Bool :=
  if t.mIntervalMS ≤ t.getElapsedTimeMS endTime then (t.reset now, true) else (t, false)

end Timer

/-- The interval of `mReceiveTimer`, in milliseconds. -/
def receiveInterval : ℤ := 1000

/-- A `ClientSocket` with its `mReceiveTimer` and the place it lives in.  `mReceiveCount` is an
`int` in the source, and the caller of `OnReceive` closes the connection long before it
overflows. -/
structure TimedClient extends ClientSocket where
  this : Storage
  mReceiveTimer : Timer
deriving Repr, DecidableEq

namespace TimedClient

/-- `ClientSocket(index)`, built in the place `this` at the time `now`. -/
def new (this : Storage) (index now : ℕ) : TimedClient :=
  { mIndex := index
    this
    mReceiveTimer := ⟨now, receiveInterval, this⟩ }

/-- The copy constructor, which copies the timer and the pointer that its callback captured. -/
def copyTo (c : TimedClient) (place : Storage) : TimedClient := { c with this := place }

/-- The call of `mCallback`.  A write to an object that is gone changes no `ClientSocket`. -/
def callback (c : TimedClient) : TimedClient :=
  if c.mReceiveTimer.mCallback = c.this then { c with mReceiveCount := 0 } else c

def onConnect (c : TimedClient) (noDelay nonBlocking : Bool) (now : ℕ) : TimedClient × Bool :=
  match c.toClientSocket.onConnect noDelay nonBlocking with
  | (client, true) =>
    ({ c with
      toClientSocket := client
      mReceiveTimer := c.mReceiveTimer.reset now }, true)
  | (client, false) => ({ c with toClientSocket := client }, false)

def onReceive (c : TimedClient) (endTime now : ℕ) : TimedClient × Bool :=
  let (timer, elapsed) := c.mReceiveTimer.update endTime now
  let called := if elapsed then c.callback else c
  let (client, accepted) := called.toClientSocket.onReceive elapsed
  ({ called with toClientSocket := client, mReceiveTimer := timer }, accepted)

end TimedClient

/-- The width of a window, in nanoseconds. -/
def windowWidth : ℕ := 1000 * nanosecondsPerMS

/-- A client and the history of its current connection: the arrival times in the current window,
with that of the packet that opened it, the number of packets that opened none, and the arrival
times of the packets that `OnReceive` returned true for.  `clock` is the last time read. -/
structure RateState where
  client : TimedClient
  clock : ℕ
  window : List ℕ := []
  counted : ℕ := 0
  accepted : List ℕ := []

/-- `connect` is a call of `OnConnect` for the connection `socket`.  `packet` is a call of
`OnReceive` for a packet that arrives at `arrival`; `now` is the time that a `Reset` reads. -/
inductive RateEvent
  | connect (socket : Socket) (noDelay nonBlocking : Bool) (now : ℕ)
  | packet (arrival now : ℕ)
deriving Repr, DecidableEq

namespace RateState

/-- A client built in `built` and copied to `kept`. -/
def start (built kept : Storage) (index now : ℕ) : RateState :=
  { client := (TimedClient.new built index now).copyTo kept
    clock := now }

/-- The timer finds its interval elapsed at `arrival`, so the packet opens a window. -/
def Opens (s : RateState) (arrival : ℕ) : Prop :=
  s.client.mReceiveTimer.mIntervalMS ≤ s.client.mReceiveTimer.getElapsedTimeMS arrival

instance (s : RateState) (arrival : ℕ) : Decidable (s.Opens arrival) :=
  inferInstanceAs (Decidable (_ ≤ _))

def connected (s : RateState) (socket : Socket) (noDelay nonBlocking : Bool) (now : ℕ) :
    RateState :=
  match { s.client with mSocket := some socket }.onConnect noDelay nonBlocking now with
  | (client, true) => { client, clock := now }
  | (client, false) => { s with client, clock := now }

def received (s : RateState) (arrival now : ℕ) : RateState :=
  let (client, accepted) := s.client.onReceive arrival now
  { client
    clock := if s.Opens arrival then now else arrival
    window := if s.Opens arrival then [arrival] else s.window ++ [arrival]
    counted := if s.Opens arrival then s.counted else s.counted + 1
    accepted := if accepted then s.accepted ++ [arrival] else s.accepted }

end RateState

/-- The clock never goes back. -/
def rateStep (s : RateState) : RateEvent → Option RateState
  | .connect socket noDelay nonBlocking now =>
    if s.clock ≤ now then some (s.connected socket noDelay nonBlocking now) else none
  | .packet arrival now =>
    if s.clock ≤ arrival ∧ arrival ≤ now then some (s.received arrival now) else none

/-! ### One packet -/

variable {built kept : Storage} {s t : RateState} {e : RateEvent} {es : List RateEvent}
  {arrival now : ℕ}

theorem Timer.update_of_le {timer : Timer}
    (h : timer.mIntervalMS ≤ timer.getElapsedTimeMS arrival) :
    timer.update arrival now = (timer.reset now, true) := if_pos h

theorem Timer.update_of_lt {timer : Timer}
    (h : ¬timer.mIntervalMS ≤ timer.getElapsedTimeMS arrival) :
    timer.update arrival now = (timer, false) := if_neg h

/-- An `int` of 1000 milliseconds or more is cast from a time that is at least as long. -/
theorem RateState.width_le_of_opens
    (hinterval : s.client.mReceiveTimer.mIntervalMS = receiveInterval) (h : s.Opens arrival) :
    s.client.mReceiveTimer.mStartTime + windowWidth ≤ arrival := by
  have hcast := intOfUInt32_ofNat_le
    ((arrival - s.client.mReceiveTimer.mStartTime) / nanosecondsPerMS)
  have helapsed : (1000 : ℤ) ≤
      ((arrival - s.client.mReceiveTimer.mStartTime) / nanosecondsPerMS : ℕ) :=
    (hinterval.symm.le.trans h).trans hcast
  unfold windowWidth nanosecondsPerMS at *
  omega

/-- A packet that opens a window is accepted, and is not counted. -/
theorem TimedClient.onReceive_of_opens (now : ℕ) (h : s.Opens arrival) :
    (s.client.onReceive arrival now).2 = true ∧
      (s.client.onReceive arrival now).1.mReceiveTimer = s.client.mReceiveTimer.reset now ∧
      (s.client.onReceive arrival now).1.this = s.client.this ∧
      (s.client.onReceive arrival now).1.mReceiveCount =
        if s.client.mReceiveTimer.mCallback = s.client.this then 0
        else s.client.mReceiveCount := by
  simp only [onReceive, Timer.update_of_le h, if_true, ClientSocket.onReceive, callback]
  split <;> exact ⟨trivial, trivial, rfl, rfl⟩

/-- A packet that opens none is counted, and accepted up to the limit. -/
theorem TimedClient.onReceive_of_not_opens (now : ℕ) (h : ¬s.Opens arrival) :
    (s.client.onReceive arrival now).2 =
        decide (s.client.mReceiveCount + 1 ≤ maxPacketsPerClient) ∧
      (s.client.onReceive arrival now).1.mReceiveTimer = s.client.mReceiveTimer ∧
      (s.client.onReceive arrival now).1.this = s.client.this ∧
      (s.client.onReceive arrival now).1.mReceiveCount = s.client.mReceiveCount + 1 := by
  simp only [onReceive, Timer.update_of_lt h, ClientSocket.onReceive]
  exact ⟨rfl, trivial, rfl, rfl⟩

theorem RateState.connected_eq (socket : Socket) (noDelay nonBlocking : Bool) :
    s.connected socket noDelay nonBlocking now =
      if noDelay && nonBlocking then
        { client :=
            { s.client with
              mSocket := some socket
              mIsConnected := true
              mReceiveCount := 0
              mReceiveTimer := s.client.mReceiveTimer.reset now }
          clock := now }
      else { s with client := { s.client with mSocket := some socket }, clock := now } := by
  cases noDelay <;> cases nonBlocking <;> rfl

/-! ### The accepted packets -/

/-- What the client has accepted is what a fixed-window limiter admits whose windows are opened by
the timer. -/
structure RateState.Limiting (s : RateState) : Prop where
  interval_eq : s.client.mReceiveTimer.mIntervalMS = receiveInterval
  admitted : ∃ k, Admitted windowWidth maxPacketsPerClient s.accepted
    s.client.mReceiveTimer.mStartTime k ∧ k ≤ s.client.mReceiveCount
  startTime_le : s.client.mReceiveTimer.mStartTime ≤ s.clock
  accepted_le : ∀ t ∈ s.accepted, t ≤ s.clock

theorem RateState.limiting_start (built kept : Storage) (index now : ℕ) :
    (RateState.start built kept index now).Limiting :=
  ⟨rfl, ⟨0, .start now, Nat.zero_le _⟩, Nat.le_refl _, fun _ ht => nomatch ht⟩

theorem RateState.Limiting.connected (hs : s.Limiting) (socket : Socket)
    (noDelay nonBlocking : Bool) (hnow : s.clock ≤ now) :
    (s.connected socket noDelay nonBlocking now).Limiting := by
  rw [connected_eq]
  split_ifs
  · exact ⟨hs.interval_eq, ⟨0, .start now, Nat.zero_le _⟩, Nat.le_refl _, fun _ ht => nomatch ht⟩
  · exact ⟨hs.interval_eq, hs.admitted, hs.startTime_le.trans hnow,
      fun t ht => (hs.accepted_le t ht).trans hnow⟩

theorem RateState.Limiting.received_of_opens (hs : s.Limiting) (harrival : s.clock ≤ arrival)
    (hnow : arrival ≤ now) (hopens : s.Opens arrival) : (s.received arrival now).Limiting := by
  obtain ⟨haccepted, htimer, -, -⟩ := TimedClient.onReceive_of_opens now hopens
  obtain ⟨k, hadmitted, -⟩ := hs.admitted
  have hlater : ∀ t ∈ s.accepted, t ≤ arrival := fun t ht => (hs.accepted_le t ht).trans harrival
  have hnext := hadmitted.opening hlater (width_le_of_opens hs.interval_eq hopens) hnow
  simp only [received, haccepted, hopens, if_true]
  refine ⟨?_, ⟨0, ?_, Nat.zero_le _⟩, ?_, ?_⟩
  · simp only [htimer]
    exact hs.interval_eq
  · simp only [htimer]
    exact hnext
  · simp only [htimer]
    exact Nat.le_refl _
  · intro t ht
    rcases List.mem_append.mp ht with hold | hlast
    · exact (hlater t hold).trans hnow
    · exact (List.mem_singleton.mp hlast).trans_le hnow

theorem RateState.Limiting.received_of_not_opens (hs : s.Limiting) (harrival : s.clock ≤ arrival)
    (hopens : ¬s.Opens arrival) : (s.received arrival now).Limiting := by
  obtain ⟨haccepted, htimer, -, hcount⟩ := TimedClient.onReceive_of_not_opens now hopens
  obtain ⟨k, hadmitted, hk⟩ := hs.admitted
  have hstart := hs.startTime_le.trans harrival
  have hlater : ∀ t ∈ s.accepted, t ≤ arrival := fun t ht => (hs.accepted_le t ht).trans harrival
  by_cases hlimit : s.client.mReceiveCount + 1 ≤ maxPacketsPerClient
  · simp only [received, haccepted, hopens, hlimit, if_false, decide_true, if_true]
    refine ⟨?_, ⟨k + 1, ?_, ?_⟩, ?_, ?_⟩
    · simp only [htimer]
      exact hs.interval_eq
    · simp only [htimer]
      exact hadmitted.counted (by omega) hstart
    · simp only [hcount]
      omega
    · simp only [htimer]
      exact hstart
    · intro t ht
      rcases List.mem_append.mp ht with hold | hlast
      · exact hlater t hold
      · exact (List.mem_singleton.mp hlast).le
  · simp only [received, haccepted, hopens, hlimit, if_false, decide_false, Bool.false_eq_true]
    refine ⟨?_, ⟨k, ?_, ?_⟩, ?_, hlater⟩
    · simp only [htimer]
      exact hs.interval_eq
    · simp only [htimer]
      exact hadmitted
    · simp only [hcount]
      omega
    · simp only [htimer]
      exact hstart

theorem rateStep_limiting (hs : s.Limiting) (h : rateStep s e = some t) : t.Limiting := by
  cases e with
  | connect socket noDelay nonBlocking now =>
    rw [rateStep] at h
    split_ifs at h with hclock
    cases h
    exact hs.connected socket noDelay nonBlocking hclock
  | packet arrival now =>
    rw [rateStep] at h
    split_ifs at h with hclock
    cases h
    by_cases hopens : s.Opens arrival
    · exact hs.received_of_opens hclock.1 hclock.2 hopens
    · exact hs.received_of_not_opens hclock.1 hopens

/-- On every connection of a client, wherever it was built and copied to, every half-open interval
of 1000 ms holds at most 301 of the packets that `OnReceive` returned true for. -/
theorem accepted_limited (built kept : Storage) (index now : ℕ) (es : List RateEvent)
    (s : RateState) (h : run rateStep (.start built kept index now) es = some s) :
    Limited windowWidth 301 s.accepted := by
  have hs : s.Limiting :=
    run_invariant (fun _ _ _ hs hst => rateStep_limiting hs hst)
      (RateState.limiting_start built kept index now) h
  obtain ⟨k, hadmitted, -⟩ := hs.admitted
  exact hadmitted.limited

/-- 150 packets in the last nanosecond before the interval of the timer is over, and two more, of
which the first opens a window. -/
def aroundReset : List RateEvent :=
  .connect 7 true true 0 :: List.replicate 150 (.packet 999999999 999999999) ++
    [.packet 1000000000 1000000000, .packet 1000000001 1000000001]

/-- A client that was copied to `mClients` accepts 151 of these packets: the count still is 150 in
the second window. -/
theorem accepted_limited_two_windows :
    ∃ s, run rateStep (.start (.temporary 0) (.element 0) 1 0) aroundReset = some s ∧
      s.accepted.length = 151 ∧ Limited windowWidth 301 s.accepted := by
  have hrun : (run rateStep (.start (.temporary 0) (.element 0) 1 0) aroundReset).map
      (fun s => s.accepted.length) = some 151 := by
    decide +kernel
  obtain ⟨s, hs, hlength⟩ := Option.map_eq_some_iff.mp hrun
  exact ⟨s, hs, hlength, accepted_limited (.temporary 0) (.element 0) 1 0 aroundReset s hs⟩

/-! ### The refused packets -/

/-- The number of the times that lie less than a window's width before `arrival`. -/
def recent (arrival : ℕ) (times : List ℕ) : ℕ := times.countP fun t => arrival < t + windowWidth

/-- A client as round `i` of `Initialize` stores it in `mClients`. -/
def RateState.initialized (i now : ℕ) : RateState :=
  .start (.temporary i) (.element i) (i + 1) now

/-- The step refuses a packet only if it arrives, with more than 150 packets of the current window,
in less than 1000 ms. -/
def RateState.RefusesOverLimit (s : RateState) (e : RateEvent) (t : RateState) : Prop :=
  match e with
  | .connect _ _ _ _ => True
  | .packet arrival now => (s.client.onReceive arrival now).2 = false →
      maxPacketsPerClient < recent arrival t.window

/-- A packet opens a window, or is one of the first 150 packets of the connection that open none,
or arrives with more than 150 packets of the current window in less than 1000 ms. -/
def RateState.InBudget (s : RateState) : RateEvent → Prop
  | .connect _ _ _ _ => True
  | .packet arrival _ => s.Opens arrival ∨ s.counted < maxPacketsPerClient ∨
      maxPacketsPerClient < recent arrival (s.window ++ [arrival])

/-- The callback of the timer resets the count of another object, so the count is that of the whole
connection. -/
structure RateState.Detached (s : RateState) : Prop where
  callback_ne : s.client.mReceiveTimer.mCallback ≠ s.client.this
  count_eq : s.client.mReceiveCount = s.counted

theorem RateState.initialized_toClientSocket (buffers : ℕ → Memory UInt8) (i now : ℕ) :
    (initialized i now).client.toClientSocket = (IOCPHandler.start buffers).mClients i := rfl

theorem RateState.detached_initialized (i now : ℕ) : (initialized i now).Detached :=
  ⟨Storage.noConfusion, rfl⟩

/-- With such a callback, `OnReceive` is what the handler runs for a client. -/
theorem TimedClient.onReceive_toClientSocket {c : TimedClient}
    (h : c.mReceiveTimer.mCallback ≠ c.this) :
    ((c.onReceive arrival now).1.toClientSocket, (c.onReceive arrival now).2) =
      c.toClientSocket.onReceive (c.mReceiveTimer.update arrival now).2 := by
  have hcalled : c.callback = c := if_neg h
  simp only [onReceive, hcalled, ite_self]

theorem rateStep_detached (hs : s.Detached) (h : rateStep s e = some t) : t.Detached := by
  cases e with
  | connect socket noDelay nonBlocking now =>
    rw [rateStep] at h
    split_ifs at h
    cases h
    rw [RateState.connected_eq]
    split_ifs
    · exact ⟨hs.callback_ne, rfl⟩
    · exact ⟨hs.callback_ne, hs.count_eq⟩
  | packet arrival now =>
    rw [rateStep] at h
    split_ifs at h
    cases h
    by_cases hopens : s.Opens arrival
    · obtain ⟨-, htimer, hthis, hcount⟩ := TimedClient.onReceive_of_opens now hopens
      rw [if_neg hs.callback_ne] at hcount
      refine ⟨?_, ?_⟩
      · simp only [RateState.received, htimer, hthis]
        exact hs.callback_ne
      · simp only [RateState.received, hcount, hopens, if_true]
        exact hs.count_eq
    · obtain ⟨-, htimer, hthis, hcount⟩ := TimedClient.onReceive_of_not_opens now hopens
      refine ⟨?_, ?_⟩
      · simp only [RateState.received, htimer, hthis]
        exact hs.callback_ne
      · simp only [RateState.received, hcount, hopens, if_false, hs.count_eq]

/-- What one step needs to refuse only over the limit. -/
theorem rateStep_refusesOverLimit_iff (hs : s.Detached) (h : rateStep s e = some t) :
    s.RefusesOverLimit e t ↔ s.InBudget e := by
  cases e with
  | connect socket noDelay nonBlocking now => exact Iff.rfl
  | packet arrival now =>
    rw [rateStep] at h
    split_ifs at h
    cases h
    by_cases hopens : s.Opens arrival
    · obtain ⟨haccepted, -⟩ := TimedClient.onReceive_of_opens now hopens
      simp [RateState.RefusesOverLimit, RateState.InBudget, haccepted, hopens]
    · obtain ⟨haccepted, -⟩ := TimedClient.onReceive_of_not_opens now hopens
      have hwindow : (s.received arrival now).window = s.window ++ [arrival] := if_neg hopens
      simp only [RateState.RefusesOverLimit, RateState.InBudget, haccepted, hs.count_eq, hopens,
        hwindow, decide_eq_false_iff_not, false_or, ← not_lt, ← or_iff_not_imp_left]
      omega

/-- On every connection of a client of `mClients`, `OnReceive` refuses packets only over the limit
if and only if every packet is in the budget that the count of the whole connection leaves. -/
theorem refused_over_limit_iff (i now : ℕ) (es : List RateEvent) (s : RateState)
    (h : run rateStep (.initialized i now) es = some s) :
    EachStep rateStep RateState.RefusesOverLimit (.initialized i now) es ↔
      Meets rateStep RateState.InBudget (.initialized i now) es :=
  eachStep_iff_meets (fun _ _ _ hs hst => rateStep_detached hs hst)
    (fun _ _ _ hs hst => rateStep_refusesOverLimit_iff hs hst)
    (RateState.detached_initialized i now) h

theorem refused_over_limit_one :
    EachStep rateStep RateState.RefusesOverLimit (.initialized 0 0)
      [.connect 7 true true 0, .packet 1 1] := by
  refine (refused_over_limit_iff 0 0 [.connect 7 true true 0, .packet 1 1] _ rfl).mpr ?_
  rw [meets_cons rfl, meets_cons rfl]
  exact ⟨trivial, Or.inr (Or.inl (by decide)), meets_nil⟩

/-- 150 packets at the start of a connection, and one a second later that opens a window. -/
def burst : List RateEvent :=
  .connect 7 true true 0 :: List.replicate 150 (.packet 0 0) ++ [.packet 1000000000 1000000000]

/-- A packet one millisecond after the burst is the second of its window, and is refused. -/
theorem refused_in_second_window :
    ∃ s, run rateStep (.initialized 0 0) (burst ++ [.packet 1001000000 1001000000]) = some s ∧
      ¬EachStep rateStep RateState.RefusesOverLimit (.initialized 0 0)
        (burst ++ [.packet 1001000000 1001000000]) := by
  have hburst : (run rateStep (.initialized 0 0) burst).map (fun t =>
      (t.clock, t.window, t.counted, t.client.mReceiveTimer)) =
      some (1000000000, [1000000000], 150, ⟨1000000000, 1000, .temporary 0⟩) := by
    decide +kernel
  obtain ⟨t, ht, hstate⟩ := Option.map_eq_some_iff.mp hburst
  obtain ⟨hclock, hwindow, hcounted, htimer⟩ :
      t.clock = 1000000000 ∧ t.window = [1000000000] ∧ t.counted = 150 ∧
        t.client.mReceiveTimer = ⟨1000000000, 1000, .temporary 0⟩ := by
    simpa only [Prod.mk.injEq] using hstate
  have hlast : rateStep t (.packet 1001000000 1001000000) =
      some (t.received 1001000000 1001000000) := by
    rw [rateStep, if_pos ⟨by omega, Nat.le_refl _⟩]
  have hdetached : t.Detached :=
    run_invariant (fun _ _ _ hs hst => rateStep_detached hs hst)
      (RateState.detached_initialized 0 0) ht
  refine ⟨_, run_append_eq_some.mpr ⟨t, ht, run_cons_eq_some.mpr ⟨_, hlast, rfl⟩⟩, fun hall => ?_⟩
  have hbudget := (rateStep_refusesOverLimit_iff hdetached hlast).mp
    (((meets_append ht).mp hall).2.1 _ hlast)
  simp only [RateState.InBudget, RateState.Opens, hwindow, hcounted, htimer] at hbudget
  revert hbudget
  decide

end IocpStudy.SBServer
