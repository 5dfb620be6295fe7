import IocpStudy.Lib.Joins
import IocpStudy.SBServer.ConfigLoader
import IocpStudy.SBServer.IOCPHandler

/-! The threads of the EchoServer: the main thread with `StartServer`, `Initialize`, `Run` and the
destructor of the handler, the IO threads, and the accept thread.  `Initialize` starts the accept
thread of a host as a local `std::jthread`, whose destructor joins it, so the main thread stays with
the first acceptor and the server has no thread that takes packets.  Where a host cannot be added,
the destructor joins IO threads that nobody wakes. -/

namespace IocpStudy.SBServer

open Runs Workers

/-- An element of `mHostSockets` with the address and the port of `AddHost`. -/
structure HostSocket where
  address : String
  port : ℕ
  isOpen : Bool := true
deriving Repr, DecidableEq

/-- The outcomes of the calls of `AddHost`. -/
structure HostCalls where
  createSocket : Bool
  bind : Bool
  listen : Bool
  register : Bool
deriving Repr, DecidableEq

/-- Where the main thread is: in `StartServer`, in `Initialize` before the entries `rest` of
`mServerHosts`, at the end of the life of an accept thread, in `Run`, or in the destructor.
`terminated` is behind an exception that is not caught. -/
inductive MainPoint
  | startServer
  | hosts (rest : List ServerHost)
  | joinAccept (rest : List ServerHost)
  | run
  | destroy
  | terminated
deriving Repr, DecidableEq

/-- Where the accept thread of the host socket number `host` is: before its test of `mIsRunning`, or
in `accept`. -/
inductive AcceptPoint
  | notStarted
  | testing (host : ℕ)
  | accepting (host : ℕ)
  | ended
deriving Repr, DecidableEq

/-- `owned` are the IO threads with `mIsRunning`, the completion port, and where the destructor
is. -/
structure Server where
  main : MainPoint := .startServer
  owned : Owned HandlerEvent HandlerEvent :=
    { pool := { running := false, opened := true, queue := [], threads := [] } }
  handler : IOCPHandler
  mHostSockets : List HostSocket := []
  acceptThread : AcceptPoint := .notStarted

/-- What an IO thread calls for a completion. -/
def handle (completion : HandlerEvent) : List HandlerEvent := [completion]

/-- The outcomes of `accept` and of the calls for an accepted socket. -/
abbrev Accepted := Option (Bool × Bool × Bool × Bool)

variable {F : Type}

/-- `startServer` is a call of `StartServer` up to the hosts, where the file was parsed to `data`,
`created` says whether there is a completion port, and the map `mServerHosts` is in the order
`order`.  `main` is another step of the main thread, `accept` and `ioThread i` are steps of the
other threads, and `arrive` queues the completion of a receive. -/
inductive ServerEvent (F : Type)
  | startServer (wsaStartup : Bool) (data : Option (Json F)) (created : Bool) (processors : ℕ)
      (order : List (Sigma fun _ : String => ServerHost))
  | main (calls : HostCalls)
  | accept (accepted : Accepted)
  | ioThread (i : ℕ)
  | arrive (completion : HandlerEvent)

namespace Server

/-- The process before its main thread starts. -/
def start (buffers : ℕ → Memory UInt8) : Server := { handler := .start buffers }

/-- `AddHost`, whose port is a `uint16_t`. -/
def addHost (host : ServerHost) (calls : HostCalls) : Option HostSocket :=
  if calls.createSocket && calls.bind && calls.listen && calls.register then
    some { address := host.mHostAddress, port := (host.mHostPort % 2 ^ 16).toNat }
  else none

/-- `StartServer` up to the loop over the hosts.  A failed `CreateIoCompletionPort` returns null,
which is not what the source tests for. -/
def startServer (truncate : F → ℤ) (s : Server) (wsaStartup : Bool) (data : Option (Json F))
    (created : Bool) (processors : ℕ) (order : List (Sigma fun _ : String => ServerHost)) :
    Option Server :=
  if wsaStartup = false then some { s with main := .destroy }
  else
    match data.map (ConfigLoader.loadConfig truncate {}) with
    | none | some (.error _) => some { s with main := .terminated }
    | some (.ok (_, false)) => some { s with main := .destroy }
    | some (.ok (configLoader, true)) =>
      if order.Perm configLoader.mNetworkConfig.mServerHosts.entries then
        some { s with
          main := .hosts (order.map Sigma.snd)
          owned := { pool := { Pool.start processors with opened := created } } }
      else none

/-- A step of the main thread behind `StartServer`'s first calls. -/
def mainThread (s : Server) (calls : HostCalls) : Option Server :=
  match s.main with
  | .startServer => none
  | .hosts [] => some { s with main := .run }
  | .hosts (host :: rest) =>
    match addHost host calls with
    | none => some { s with main := .destroy }
    | some hostSocket =>
      let s := { s with mHostSockets := s.mHostSockets ++ [hostSocket] }
      if host.mHostType = .Acceptor then
        some { s with
          main := .joinAccept rest
          acceptThread := .testing (s.mHostSockets.length - 1) }
      else some { s with main := .hosts rest }
  | .joinAccept rest =>
    if s.acceptThread = .ended then
      some { s with main := .hosts rest, acceptThread := .notStarted }
    else none
  | .run =>
    some { s with handler := { s.handler with mPacketQueue := s.handler.mPacketQueue.tail } }
  | .destroy =>
    s.owned.ownerStep.map fun owned =>
      if s.owned.owner = .working then
        { s with
          owned
          mHostSockets := s.mHostSockets.map fun host => { host with isOpen := false } }
      else { s with owned }
  | .terminated => none

/-- A step of `_AcceptThread`.  The host socket that it locks is there as long as the handler is. -/
def accept (memory : ContextMemory) (s : Server) (accepted : Accepted) : Option Server :=
  match s.acceptThread with
  | .testing host =>
    if s.owned.pool.running && host < s.mHostSockets.length then
      some { s with acceptThread := .accepting host }
    else some { s with acceptThread := .ended }
  | .accepting host =>
    match accepted with
    | none => some { s with acceptThread := .testing host }
    | some (registered, noDelay, nonBlocking, wsaRecv) =>
      (handlerStep memory s.handler (.accept registered noDelay nonBlocking wsaRecv)).map
        fun handler => { s with handler, acceptThread := .testing host }
  | _ => none

/-- A step of IO thread `i`, which handles a completion at once. -/
def ioThread (memory : ContextMemory) (s : Server) (i : ℕ) : Option Server :=
  match s.owned.pool.advance handle i with
  | none => none
  | some (pool, none) => some { s with owned := { s.owned with pool } }
  | some (pool, some completion) =>
    (handlerStep memory s.handler completion).map fun handler =>
      { s with handler, owned := { s.owned with pool } }

end Server

/-- A step of one of the threads, or a completion, which only an outstanding receive brings. -/
def serverStep (memory : ContextMemory) (truncate : F → ℤ) (s : Server) :
    ServerEvent F → Option Server
  | .startServer wsaStartup data created processors order =>
    if s.main = .startServer then
      s.startServer truncate wsaStartup data created processors order
    else none
  | .main calls => s.mainThread calls
  | .accept accepted => s.accept memory accepted
  | .ioThread i => s.ioThread memory i
  | .arrive completion =>
    if s.handler.receives = [] then none
    else
      let pool := { s.owned.pool with queue := s.owned.pool.queue ++ [completion] }
      some { s with owned := { s.owned with pool } }

/-! ### What the handler's steps do to the packet queue -/

variable {memory : ContextMemory} {truncate : F → ℤ} {h t : IOCPHandler}

theorem mPacketQueue_acceptThread (h : IOCPHandler)
    (registered noDelay nonBlocking wsaRecv : Bool) :
    (h.acceptThread registered noDelay nonBlocking wsaRecv).mPacketQueue = h.mPacketQueue := by
  unfold IOCPHandler.acceptThread
  dsimp only
  split
  · split_ifs
    · rfl
    · rfl
    · split <;> rfl
  · rfl

/-- The handler takes nothing from its queue, and puts nothing there, because it drops what it
receives. -/
theorem mPacketQueue_step {e : HandlerEvent} (hstep : handlerStep memory h e = some t) :
    t.mPacketQueue = h.mPacketQueue := by
  cases e with
  | accept registered noDelay nonBlocking wsaRecv =>
    simp only [handlerStep] at hstep
    obtain ⟨-, hstep⟩ := Option.ite_none_left_eq_some.mp hstep
    obtain rfl := Option.some.inj hstep
    exact mPacketQueue_acceptThread ..
  | completed k bytes =>
    obtain ⟨r, -, rfl⟩ := completed_eq hstep
    rfl
  | failed k =>
    simp only [handlerStep] at hstep
    obtain ⟨-, hstep⟩ := Option.ite_none_left_eq_some.mp hstep
    obtain rfl := Option.some.inj hstep
    rfl
  | disconnected i =>
    simp only [handlerStep] at hstep
    obtain ⟨-, hstep⟩ := Option.ite_none_left_eq_some.mp hstep
    obtain rfl := Option.some.inj hstep
    rfl

/-! ### Where the main thread can be -/

namespace Server

/-- No accept thread runs, and nothing has come of one. -/
structure Quiet (s : Server) : Prop where
  accept : s.acceptThread = .notStarted
  receives : s.handler.receives = []
  idle : s.owned.pool.Idle

/-- The main thread has an acceptor before it in the loop over the hosts, or is with an accept
thread that has not ended. -/
structure Sound (s : Server) : Prop where
  hosts : ∀ rest, s.main = .hosts rest →
    s.owned.pool.running = true ∧ ∃ host ∈ rest, host.mHostType = .Acceptor
  joins : ∀ rest, s.main = .joinAccept rest →
    s.owned.pool.running = true ∧ ∃ host < s.mHostSockets.length,
      s.acceptThread = .testing host ∨ s.acceptThread = .accepting host
  runs : s.main ≠ .run
  quiet : (∀ rest, s.main ≠ .joinAccept rest) → s.Quiet
  working : s.main ≠ .destroy → s.owned.owner = .working
  ending : s.owned.owner ≠ .working → s.owned.Ending

end Server

variable {s u v : Server} {e : ServerEvent F} {es es' : List (ServerEvent F)}

theorem Server.sound_start (buffers : ℕ → Memory UInt8) : (Server.start buffers).Sound where
  hosts _ h := MainPoint.noConfusion h
  joins _ h := MainPoint.noConfusion h
  runs := MainPoint.noConfusion
  quiet _ := ⟨rfl, rfl, ⟨rfl, fun _ hmem => absurd hmem List.not_mem_nil⟩⟩
  working _ := rfl
  ending h := absurd rfl h

/-- Whatever the file says, there is an acceptor among the hosts that are loaded. -/
theorem exists_acceptor {loader : ConfigLoader} {data : Json F} {configLoader : ConfigLoader}
    (h : loader.loadConfig truncate data = .ok (configLoader, true)) :
    ∃ entry ∈ configLoader.mNetworkConfig.mServerHosts.entries, entry.2.mHostType = .Acceptor := by
  cases data with
  | object members =>
    obtain ⟨-, hloads⟩ := loadConfig_object h
    obtain ⟨made, -, hhosts⟩ := hloads.hosts
    have hmain := hhosts "MainServer"
    rw [if_pos rfl] at hmain
    exact ⟨⟨"MainServer", configLoader.mNetworkConfig.mainServer⟩, AList.mem_lookup_iff.mp hmain,
      rfl⟩
  | _ => cases h

theorem Server.sound_startServer {wsaStartup created : Bool} {data : Option (Json F)}
    {processors : ℕ} {order : List (Sigma fun _ : String => ServerHost)} (hs : s.Sound)
    (hmain : s.main = .startServer)
    (h : s.startServer truncate wsaStartup data created processors order = some u) : u.Sound := by
  have hquiet : s.Quiet := hs.quiet fun rest => by rw [hmain]; exact MainPoint.noConfusion
  have howner : s.owned.owner = .working := hs.working (by rw [hmain]; exact MainPoint.noConfusion)
  have hleft (main : MainPoint) (hnot : main = .destroy ∨ main = .terminated) :
      Server.Sound { s with main } := by
    refine ⟨?_, ?_, ?_, fun _ => ⟨hquiet.accept, hquiet.receives, hquiet.idle⟩,
      fun _ => howner, fun h => absurd howner h⟩
    · rintro rest rfl
      simp at hnot
    · rintro rest rfl
      simp at hnot
    · rintro rfl
      simp at hnot
  unfold Server.startServer at h
  split at h
  · obtain rfl := Option.some.inj h
    exact hleft _ (Or.inl rfl)
  · split at h
    next =>
      obtain rfl := Option.some.inj h
      exact hleft _ (Or.inr rfl)
    next =>
      obtain rfl := Option.some.inj h
      exact hleft _ (Or.inr rfl)
    next =>
      obtain rfl := Option.some.inj h
      exact hleft _ (Or.inl rfl)
    next configLoader hload =>
      obtain ⟨hperm, h⟩ := Option.ite_none_right_eq_some.mp h
      obtain rfl := Option.some.inj h
      obtain ⟨data, -, hload⟩ := Option.map_eq_some_iff.mp hload
      obtain ⟨entry, hmem, hacceptor⟩ := exists_acceptor hload
      refine ⟨?_, fun rest h => MainPoint.noConfusion h, MainPoint.noConfusion, fun _ => ?_,
        fun _ => rfl, fun h => absurd rfl h⟩
      · rintro rest hrest
        obtain rfl := MainPoint.hosts.inj hrest
        exact ⟨rfl, entry.2, List.mem_map_of_mem (hperm.mem_iff.mpr hmem), hacceptor⟩
      · exact ⟨hquiet.accept, hquiet.receives, idle_start processors created⟩

theorem Server.sound_mainThread {calls : HostCalls} (hs : s.Sound)
    (h : s.mainThread calls = some u) : u.Sound := by
  unfold Server.mainThread at h
  split at h
  next => exact absurd h.symm (Option.some_ne_none u)
  next hmain =>
    obtain ⟨-, host, hmem, -⟩ := hs.hosts _ hmain
    exact absurd hmem List.not_mem_nil
  next host rest hmain =>
    obtain ⟨hrunning, acceptor, hmem, hacceptor⟩ := hs.hosts _ hmain
    have hquiet : s.Quiet := hs.quiet fun rest' => by rw [hmain]; exact MainPoint.noConfusion
    have howner : s.owned.owner = .working :=
      hs.working (by rw [hmain]; exact MainPoint.noConfusion)
    split at h
    next =>
      obtain rfl := Option.some.inj h
      exact ⟨fun rest h => MainPoint.noConfusion h, fun rest h => MainPoint.noConfusion h,
        MainPoint.noConfusion, fun _ => ⟨hquiet.accept, hquiet.receives,
          hquiet.idle⟩, fun _ => howner, fun h => absurd howner h⟩
    next hostSocket hadded =>
      dsimp only at h
      split at h
      next =>
        obtain rfl := Option.some.inj h
        refine ⟨fun rest h => MainPoint.noConfusion h, fun rest' _ => ⟨hrunning, ?_⟩,
          MainPoint.noConfusion, fun hnot => absurd rfl (hnot rest), fun _ => howner,
          fun h => absurd howner h⟩
        exact ⟨_, by simp, Or.inl rfl⟩
      next hother =>
        obtain rfl := Option.some.inj h
        refine ⟨fun rest' hrest => ⟨hrunning, ?_⟩, fun rest h => MainPoint.noConfusion h,
          MainPoint.noConfusion, fun _ => ⟨hquiet.accept, hquiet.receives,
            hquiet.idle⟩, fun _ => howner, fun h => absurd howner h⟩
        obtain rfl := MainPoint.hosts.inj hrest
        rcases List.mem_cons.mp hmem with rfl | hrest
        · exact absurd hacceptor hother
        · exact ⟨acceptor, hrest, hacceptor⟩
  next rest hmain =>
    obtain ⟨hended, -⟩ := Option.ite_none_right_eq_some.mp h
    obtain ⟨-, host, -, hpoint⟩ := hs.joins rest hmain
    rw [hended] at hpoint
    simp at hpoint
  next hmain => exact absurd hmain hs.runs
  next hmain =>
    have hquiet : s.Quiet := hs.quiet fun rest => by rw [hmain]; exact MainPoint.noConfusion
    obtain ⟨owned, howned, rfl⟩ := Option.map_eq_some_iff.mp h
    obtain ⟨hthreads, hqueue, -⟩ := (Owned.steps_of_ownerStep howned).pool
    have hending : owned.Ending := Owned.ending_of_ownerStep hs.ending howned
    have hdestroyed (mHostSockets : List HostSocket) :
        Server.Sound { s with owned, mHostSockets } := by
      refine ⟨fun rest h => ?_, fun rest h => ?_, hs.runs, fun _ => ?_, fun h => absurd hmain h,
        fun _ => hending⟩
      · exact MainPoint.noConfusion (hmain.symm.trans h)
      · exact MainPoint.noConfusion (hmain.symm.trans h)
      · refine ⟨hquiet.accept, hquiet.receives, hqueue.trans hquiet.idle.1, ?_⟩
        dsimp only
        rw [hthreads]
        exact hquiet.idle.2
    split
    · exact hdestroyed _
    · exact hdestroyed _
  next => exact absurd h.symm (Option.some_ne_none u)

theorem Server.sound_accept {accepted : Accepted} (hs : s.Sound)
    (h : s.accept memory accepted = some u) : u.Sound := by
  obtain ⟨rest, hmain⟩ : ∃ rest, s.main = .joinAccept rest := by
    by_contra hnot
    have hquiet : s.Quiet := hs.quiet fun rest hmain => hnot ⟨rest, hmain⟩
    rw [Server.accept, hquiet.accept] at h
    exact Option.some_ne_none u h.symm
  obtain ⟨hrunning, host, hhost, hpoint⟩ := hs.joins rest hmain
  have howner : s.owned.owner = .working := hs.working (by rw [hmain]; exact MainPoint.noConfusion)
  have hkeeps (handler : IOCPHandler) (acceptThread : AcceptPoint)
      (hnext : acceptThread = .testing host ∨ acceptThread = .accepting host) :
      Server.Sound { s with handler, acceptThread } := by
    refine ⟨fun rest' h => ?_, fun rest' _ => ⟨hrunning, host, hhost, hnext⟩, hs.runs,
      fun hnot => absurd hmain (hnot rest), fun _ => howner, fun h => absurd howner h⟩
    exact MainPoint.noConfusion (hmain.symm.trans h)
  unfold Server.accept at h
  rcases hpoint with hpoint | hpoint
  · have hgo : (s.owned.pool.running && decide (host < s.mHostSockets.length)) = true := by
      rw [hrunning, decide_eq_true hhost]
      rfl
    simp only [hpoint, hgo, if_true] at h
    obtain rfl := Option.some.inj h
    exact hkeeps _ _ (Or.inr rfl)
  · simp only [hpoint] at h
    split at h
    next =>
      obtain rfl := Option.some.inj h
      exact hkeeps _ _ (Or.inl rfl)
    next registered noDelay nonBlocking wsaRecv =>
      obtain ⟨handler, -, rfl⟩ := Option.map_eq_some_iff.mp h
      exact hkeeps _ _ (Or.inl rfl)

/-- A step of an IO thread is one of its pool, and its call is one of the handler. -/
theorem ioThread_cases {i : ℕ} (h : s.ioThread memory i = some u) :
    ∃ pool call handler, s.owned.pool.advance handle i = some (pool, call) ∧
      u = { s with handler, owned := { s.owned with pool } } ∧
      (call = none ∧ handler = s.handler ∨
        ∃ completion, call = some completion ∧
          handlerStep memory s.handler completion = some handler) := by
  unfold Server.ioThread at h
  split at h
  next => exact absurd h.symm (Option.some_ne_none u)
  next pool hadvance =>
    obtain rfl := Option.some.inj h
    exact ⟨pool, none, s.handler, hadvance, rfl, Or.inl ⟨rfl, rfl⟩⟩
  next pool completion hadvance =>
    obtain ⟨handler, hhandler, rfl⟩ := Option.map_eq_some_iff.mp h
    exact ⟨pool, some completion, handler, hadvance, rfl, Or.inr ⟨completion, rfl, hhandler⟩⟩

theorem owned_ioThread {i : ℕ} (h : s.ioThread memory i = some u) :
    s.owned.step handle (.thread i) = some u.owned := by
  obtain ⟨pool, call, handler, hadvance, rfl, -⟩ := ioThread_cases h
  rw [Owned.step, hadvance]
  rfl

theorem Server.sound_ioThread {i : ℕ} (hs : s.Sound) (h : s.ioThread memory i = some u) :
    u.Sound := by
  have howned := owned_ioThread h
  obtain ⟨pool, call, handler, hadvance, rfl, hhandler⟩ := ioThread_cases h
  have hadvances := advances_of_advance hadvance
  have hrunning : pool.running = s.owned.pool.running := hadvances.flags.1
  refine ⟨fun rest hmain => ?_, fun rest hmain => ?_, hs.runs, fun hnot => ?_, hs.working,
    fun howner => (hs.ending howner).step howned⟩
  · obtain ⟨hset, hacceptor⟩ := hs.hosts rest hmain
    exact ⟨hrunning.trans hset, hacceptor⟩
  · obtain ⟨hset, hpoint⟩ := hs.joins rest hmain
    exact ⟨hrunning.trans hset, hpoint⟩
  · have hquiet : s.Quiet := hs.quiet hnot
    obtain ⟨hidle, rfl⟩ := hadvances.idle hquiet.idle
    rcases hhandler with ⟨-, rfl⟩ | ⟨completion, hcall, -⟩
    · exact ⟨hquiet.accept, hquiet.receives, hidle⟩
    · cases hcall

theorem Server.sound_step (hs : s.Sound) (h : serverStep memory truncate s e = some u) :
    u.Sound := by
  cases e with
  | startServer wsaStartup data created processors order =>
    obtain ⟨hmain, h⟩ := Option.ite_none_right_eq_some.mp h
    exact Server.sound_startServer hs hmain h
  | main calls => exact Server.sound_mainThread hs h
  | accept accepted => exact Server.sound_accept hs h
  | ioThread i => exact Server.sound_ioThread hs h
  | arrive completion =>
    obtain ⟨hreceives, h⟩ := Option.ite_none_left_eq_some.mp h
    obtain rfl := Option.some.inj h
    exact ⟨hs.hosts, hs.joins, hs.runs, fun hnot => absurd (hs.quiet hnot).receives hreceives,
      hs.working, fun howner => (hs.ending howner).step
        (show s.owned.step handle (.arrive completion) = some _ from rfl)⟩

theorem Server.sound_run {buffers : ℕ → Memory UInt8}
    (h : run (serverStep memory truncate) (.start buffers) es = some s) : s.Sound :=
  run_invariant (fun _ _ _ hs hst => Server.sound_step hs hst) (Server.sound_start buffers) h

/-! ### The main thread never comes to `Run` -/

/-- `StartServer` up to the hosts leaves the handler to the other threads. -/
theorem handler_startServer {wsaStartup created : Bool} {data : Option (Json F)} {processors : ℕ}
    {order : List (Sigma fun _ : String => ServerHost)}
    (h : s.startServer truncate wsaStartup data created processors order = some u) :
    u.handler = s.handler := by
  unfold Server.startServer at h
  split at h
  · obtain rfl := Option.some.inj h
    rfl
  · split at h
    next =>
      obtain rfl := Option.some.inj h
      rfl
    next =>
      obtain rfl := Option.some.inj h
      rfl
    next =>
      obtain rfl := Option.some.inj h
      rfl
    next =>
      obtain ⟨-, h⟩ := Option.ite_none_right_eq_some.mp h
      obtain rfl := Option.some.inj h
      rfl

theorem handler_mainThread {calls : HostCalls} (hs : s.Sound)
    (h : s.mainThread calls = some u) : u.handler = s.handler := by
  unfold Server.mainThread at h
  split at h
  next => exact absurd h.symm (Option.some_ne_none u)
  next =>
    obtain rfl := Option.some.inj h
    rfl
  next =>
    split at h
    next =>
      obtain rfl := Option.some.inj h
      rfl
    next =>
      dsimp only at h
      split at h <;> obtain rfl := Option.some.inj h <;> rfl
  next =>
    obtain ⟨-, h⟩ := Option.ite_none_right_eq_some.mp h
    obtain rfl := Option.some.inj h
    rfl
  next hmain => exact absurd hmain hs.runs
  next =>
    obtain ⟨owned, -, rfl⟩ := Option.map_eq_some_iff.mp h
    split <;> rfl
  next => exact absurd h.symm (Option.some_ne_none u)

/-- Nothing is taken from the packet queue. -/
theorem mPacketQueue_serverStep (hs : s.Sound) (h : serverStep memory truncate s e = some u) :
    s.handler.mPacketQueue <+: u.handler.mPacketQueue := by
  cases e with
  | startServer wsaStartup data created processors order =>
    obtain ⟨-, h⟩ := Option.ite_none_right_eq_some.mp h
    rw [handler_startServer h]
  | main calls => rw [handler_mainThread hs h]
  | accept accepted =>
    simp only [serverStep, Server.accept] at h
    split at h
    next =>
      split at h <;> obtain rfl := Option.some.inj h <;> exact List.prefix_refl _
    next =>
      split at h
      next =>
        obtain rfl := Option.some.inj h
        exact List.prefix_refl _
      next =>
        obtain ⟨handler, hhandler, rfl⟩ := Option.map_eq_some_iff.mp h
        rw [mPacketQueue_step hhandler]
    next => exact absurd h.symm (Option.some_ne_none u)
  | ioThread i =>
    obtain ⟨pool, call, handler, -, rfl, ⟨-, rfl⟩ | ⟨completion, -, hhandler⟩⟩ := ioThread_cases h
    · exact List.prefix_refl _
    · rw [mPacketQueue_step hhandler]
  | arrive completion =>
    obtain ⟨-, h⟩ := Option.ite_none_left_eq_some.mp h
    obtain rfl := Option.some.inj h
    exact List.prefix_refl _

/-- The main thread and the hosts stay as they are beside an accept thread. -/
theorem stays_step {rest : List ServerHost} (hs : s.Sound) (hmain : s.main = .joinAccept rest)
    (h : serverStep memory truncate s e = some u) :
    u.main = .joinAccept rest ∧ u.mHostSockets = s.mHostSockets := by
  cases e with
  | startServer wsaStartup data created processors order =>
    obtain ⟨hstart, -⟩ := Option.ite_none_right_eq_some.mp h
    cases hstart.symm.trans hmain
  | main calls =>
    obtain ⟨-, host, -, hpoint⟩ := hs.joins rest hmain
    simp only [serverStep, Server.mainThread, hmain] at h
    obtain ⟨hended, -⟩ := Option.ite_none_right_eq_some.mp h
    rw [hended] at hpoint
    simp at hpoint
  | accept accepted =>
    simp only [serverStep, Server.accept] at h
    split at h
    next =>
      split at h <;> obtain rfl := Option.some.inj h <;> exact ⟨hmain, rfl⟩
    next =>
      split at h
      next =>
        obtain rfl := Option.some.inj h
        exact ⟨hmain, rfl⟩
      next =>
        obtain ⟨handler, -, rfl⟩ := Option.map_eq_some_iff.mp h
        exact ⟨hmain, rfl⟩
    next => exact absurd h.symm (Option.some_ne_none u)
  | ioThread i =>
    obtain ⟨pool, call, handler, -, rfl, -⟩ := ioThread_cases h
    exact ⟨hmain, rfl⟩
  | arrive completion =>
    obtain ⟨-, h⟩ := Option.ite_none_left_eq_some.mp h
    obtain rfl := Option.some.inj h
    exact ⟨hmain, rfl⟩

/-- Whatever the file holds and the calls return, `StartServer` never returns true: with the first
acceptor that is added, the main thread stays with its accept thread and adds no other host, and
nothing is ever taken from the packet queue. -/
theorem startServer_never_returns (memory : ContextMemory) (truncate : F → ℤ)
    (buffers : ℕ → Memory UInt8) (es es' : List (ServerEvent F)) (s t : Server)
    (hs : run (serverStep memory truncate) (.start buffers) es = some s)
    (ht : run (serverStep memory truncate) s es' = some t) :
    s.main ≠ .run ∧ s.handler.mPacketQueue <+: t.handler.mPacketQueue ∧
      ∀ rest, s.main = .joinAccept rest → t.main = s.main ∧ t.mHostSockets = s.mHostSockets := by
  have hsound := Server.sound_run hs
  refine ⟨hsound.runs, ?_, fun rest hmain => ?_⟩
  · have hgrows := run_invariant
      (P := fun u : Server => u.Sound ∧ s.handler.mPacketQueue <+: u.handler.mPacketQueue)
      (fun _ _ _ hu hst =>
        ⟨Server.sound_step hu.1 hst, hu.2.trans (mPacketQueue_serverStep hu.1 hst)⟩)
      ⟨hsound, List.prefix_refl _⟩ ht
    exact hgrows.2
  · have hstays := run_invariant
      (P := fun u : Server =>
        u.Sound ∧ u.main = .joinAccept rest ∧ u.mHostSockets = s.mHostSockets)
      (fun _ _ _ hu hst => by
        obtain ⟨hmain', hhosts⟩ := stays_step hu.1 hu.2.1 hst
        exact ⟨Server.sound_step hu.1 hst, hmain', hhosts.trans hu.2.2⟩)
      ⟨hsound, hmain, rfl⟩ ht
    exact ⟨hstays.2.1.trans hmain.symm, hstays.2.2⟩

/-- The only host of a server whose file holds an empty object. -/
def defaultHost : Sigma fun _ : String => ServerHost :=
  ⟨"MainServer", { mHostType := .Acceptor }⟩

/-- With an empty object in the file, the accept thread serves a client beside the main thread. -/
theorem startServer_never_returns_default :
    ∃ s t, run (serverStep ⟨4096, 0, rfl⟩ (fun n : ℤ => n)) (.start fun _ _ => 0)
        [.startServer true (some (.object [])) true 1 [defaultHost],
          .main ⟨true, true, true, true⟩] = some s ∧
      run (serverStep ⟨4096, 0, rfl⟩ (fun n : ℤ => n)) s
        [.accept none, .accept (some (true, true, true, true)), .ioThread 0] = some t ∧
      s.main = .joinAccept [] ∧ t.handler.receives.length = 1 ∧
      s.main ≠ .run ∧ s.handler.mPacketQueue <+: t.handler.mPacketQueue ∧
        ∀ rest, s.main = .joinAccept rest → t.main = s.main ∧ t.mHostSockets = s.mHostSockets :=
  ⟨_, _, rfl, rfl, rfl, rfl, startServer_never_returns ⟨4096, 0, rfl⟩ (fun n : ℤ => n)
    (fun _ _ => 0) [.startServer true (some (.object [])) true 1 [defaultHost],
      .main ⟨true, true, true, true⟩]
    [.accept none, .accept (some (true, true, true, true)), .ioThread 0] _ _ rfl rfl⟩

/-! ### The end of a server whose start failed -/

/-- The moves of the destructor and of the IO threads. -/
def ServerEvent.move : ServerEvent F → Move HandlerEvent
  | .ioThread i => .thread i
  | _ => .owner

/-- Neither the main thread nor an IO thread can make a step. -/
def Server.Settled (memory : ContextMemory) (s : Server) : Prop :=
  (∀ calls, s.mainThread calls = none) ∧ ∀ i, s.ioThread memory i = none

/-- In the destructor, the steps are those of the owner of the IO threads and of these. -/
theorem owned_step (hs : s.Sound) (hmain : s.main = .destroy)
    (h : serverStep memory truncate s e = some u) :
    s.owned.step handle e.move = some u.owned ∧ u.main = .destroy := by
  have hquiet : s.Quiet := hs.quiet fun rest => by rw [hmain]; exact MainPoint.noConfusion
  cases e with
  | startServer wsaStartup data created processors order =>
    obtain ⟨hstart, -⟩ := Option.ite_none_right_eq_some.mp h
    cases hstart.symm.trans hmain
  | main calls =>
    simp only [serverStep, Server.mainThread, hmain] at h
    obtain ⟨owned, howned, rfl⟩ := Option.map_eq_some_iff.mp h
    split <;> exact ⟨howned, rfl⟩
  | accept accepted =>
    simp only [serverStep, Server.accept, hquiet.accept] at h
    cases h
  | ioThread i =>
    refine ⟨owned_ioThread h, ?_⟩
    obtain ⟨pool, call, handler, -, rfl, -⟩ := ioThread_cases h
    exact hmain
  | arrive completion =>
    obtain ⟨hreceives, -⟩ := Option.ite_none_left_eq_some.mp h
    exact absurd hquiet.receives hreceives

theorem Server.Settled.stuck (h : s.Settled memory) (hs : s.Sound) (hmain : s.main = .destroy) :
    s.owned.Stuck handle := by
  have hquiet : s.Quiet := hs.quiet fun rest => by rw [hmain]; exact MainPoint.noConfusion
  constructor
  · have hnone := h.1 ⟨false, false, false, false⟩
    simp only [Server.mainThread, hmain] at hnone
    exact Option.map_eq_none_iff.mp hnone
  · intro i
    have hnone := h.2 i
    unfold Server.ioThread at hnone
    split at hnone
    next hadvance => exact hadvance
    next => cases hnone
    next pool completion hadvance =>
      cases ((advances_of_advance hadvance).idle hquiet.idle).2

/-- Where a host cannot be added, the destructor wakes no IO thread: from where it has cleared
`mIsRunning`, in every run it and the IO threads make a bounded number of steps, and when none of
them can go on, the main thread has returned exactly if there is no completion port or no IO thread
was waiting for a completion. -/
theorem destroy_returns_iff (memory : ContextMemory) (truncate : F → ℤ)
    (buffers : ℕ → Memory UInt8) (es es' : List (ServerEvent F)) (s t : Server)
    (hs : run (serverStep memory truncate) (.start buffers) es = some s)
    (hmain : s.main = .destroy) (hflag : s.owned.owner = .joining 0)
    (ht : run (serverStep memory truncate) s es' = some t) :
    t.owned.rank handle + es'.length ≤ s.owned.rank handle ∧ (t.Settled memory →
      (t.owned.owner = .returned ↔ (s.owned.pool.opened = true → s.owned.pool.waiting = 0))) := by
  have hsound := Server.sound_run hs
  have hquiet : s.Quiet := hsound.quiet fun rest => by rw [hmain]; exact MainPoint.noConfusion
  have hmove (e : ServerEvent F) (c : HandlerEvent) : e.move ≠ .arrive c := by
    intro h
    cases e <;> cases h
  obtain ⟨⟨hsound', hmain'⟩, hsteps, hreturned⟩ :=
    Owned.returns_of_run (f := Server.owned) (k := serverStep memory truncate)
      (I := fun u : Server => u.Sound ∧ u.main = .destroy) hmove
      (fun _ _ _ hu hst => by
        obtain ⟨hstep, hdestroy⟩ := owned_step hu.1 hu.2 hst
        exact ⟨hstep, Server.sound_step hu.1 hst, hdestroy⟩)
      ⟨hsound, hmain⟩ (hsound.ending fun h => Owner.noConfusion (h.symm.trans hflag))
      hquiet.idle.1 ht
  exact ⟨hsteps, fun hsettled => hreturned (hsettled.stuck hsound' hmain')⟩

/-- The host cannot be bound while one of two IO threads waits: the main thread does not return. -/
theorem destroy_returns_iff_waiting :
    ∃ s t, run (serverStep ⟨4096, 0, rfl⟩ (fun n : ℤ => n)) (.start fun _ _ => 0)
        [.startServer true (some (.object [])) true 2 [defaultHost], .ioThread 0,
          .main ⟨true, false, true, true⟩, .main ⟨true, true, true, true⟩] = some s ∧
      run (serverStep ⟨4096, 0, rfl⟩ fun n : ℤ => n) s [.ioThread 1] = some t ∧
      t.owned.owner ≠ .returned ∧ t.Settled ⟨4096, 0, rfl⟩ ∧
      t.owned.rank handle + 1 ≤ s.owned.rank handle ∧ (t.Settled ⟨4096, 0, rfl⟩ →
        (t.owned.owner = .returned ↔
          (s.owned.pool.opened = true → s.owned.pool.waiting = 0))) := by
  refine ⟨_, _, rfl, rfl, Owner.noConfusion, ⟨fun _ => rfl, fun i => ?_⟩,
    destroy_returns_iff ⟨4096, 0, rfl⟩ (fun n : ℤ => n) (fun _ _ => 0)
      [.startServer true (some (.object [])) true 2 [defaultHost], .ioThread 0,
        .main ⟨true, false, true, true⟩, .main ⟨true, true, true, true⟩] [.ioThread 1] _ _ rfl rfl
      rfl rfl⟩
  rcases i with _ | _ | i <;> rfl

end IocpStudy.SBServer
