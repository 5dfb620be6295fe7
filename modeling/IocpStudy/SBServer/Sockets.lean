import IocpStudy.Lib.Handles
import IocpStudy.SBServer.Indices

/-! The calls of `closesocket`.  The handle of an accepted socket is in two places, `clientSocket`
of `_AcceptThread` and `mSocket` of the client, and each is closed by its own rules: a connection
that `InitClient` closes is closed again by the accept thread, and one that the accept thread closes
stays the socket of its client.  A receive that completes or fails leaves its socket open. -/

namespace IocpStudy.SBServer

open Runs

/-! ### The sockets that each function closes -/

/-- What `Close` passes to `closesocket`. -/
def ClientSocket.closeCalls (c : ClientSocket) : List Socket := c.mSocket.toList

/-- The calls of `InitClient`, by its two calls of `Close`. -/
def initClientCalls (client : ClientSocket) (socket : Socket)
    (registered noDelay nonBlocking : Bool) : List Socket :=
  let client := { client with mSocket := some socket }
  let calls := if registered then [] else client.closeCalls
  let client := if registered then client else client.close
  match client.onConnect noDelay nonBlocking with
  | (_, true) => calls
  | (client, false) => calls ++ client.closeCalls

/-- The calls of a pass of `_AcceptThread`, its own ones and those of `InitClient`. -/
def IOCPHandler.acceptThreadCalls (h : IOCPHandler)
    (registered noDelay nonBlocking wsaRecv : Bool) : List Socket :=
  let clientSocket := h.accepted
  match h.allocClient.1, h.allocNetworkContext.1 with
  | some clientIndex, some contextIndex =>
    if clientCount ≤ clientIndex then []
    else
      let client := h.mClients clientIndex
      let calls := initClientCalls client clientSocket registered noDelay nonBlocking
      let (client, initialised) := initClient client clientSocket registered noDelay nonBlocking
      if initialised = false then calls
      else
        let context := (h.mNetworkContexts contextIndex).reset.setContextType .RECEIVE
        match client.receive context wsaRecv with
        | some _ => calls
        | none => calls ++ [clientSocket]
  | _, _ => [clientSocket]

/-- The calls of a step of the handler. -/
def handlerCalls (h : IOCPHandler) : HandlerEvent → List Socket
  | .accept registered noDelay nonBlocking wsaRecv =>
    h.acceptThreadCalls registered noDelay nonBlocking wsaRecv
  | .completed _ _ => []
  | .failed _ => []
  | .disconnected i => (h.mClients i).closeCalls

/-- The handler and the calls of `closesocket` so far. -/
structure ClosingState where
  handler : IOCPHandler
  closesocket : List Socket := []

def closingStep (memory : ContextMemory) (s : ClosingState) (e : HandlerEvent) :
    Option ClosingState :=
  (handlerStep memory s.handler e).map fun handler =>
    { handler, closesocket := s.closesocket ++ handlerCalls s.handler e }

namespace ClosingState

def start (buffers : ℕ → Memory UInt8) : ClosingState := { handler := .start buffers }

/-- The accepted sockets as handles, which the clients hold. -/
def handles (s : ClosingState) : Handles ℕ :=
  ⟨s.handler.accepted, s.closesocket, fun i => (s.handler.mClients i).mSocket⟩

/-- No socket is closed twice, one that is not the socket of a live connection has been closed, and
the pooled clients have none. -/
structure ClosesOnce (s : ClosingState) : Prop where
  once : s.closesocket.Nodup
  closed : ∀ socket < s.handler.accepted, socket ∈ s.closesocket ∨
    ∃ r ∈ s.handler.live, (s.handler.mClients r.client).mSocket = some socket
  pooled : ∀ i ∈ s.handler.mClientIndexPool, i < clientCount →
    (s.handler.mClients i).mSocket = none

end ClosingState

/-- The client has no socket, or there is none with this index. -/
def IOCPHandler.Vacant (h : IOCPHandler) (i : ℕ) : Prop :=
  i < clientCount → (h.mClients i).mSocket = none

/-- A client with a socket is served by one of the receives. -/
def IOCPHandler.Attended (h : IOCPHandler) (i : ℕ) (receives : List PendingReceive) : Prop :=
  (h.mClients i).mSocket ≠ none → i ∈ inUse PendingReceive.client receives

/-- A pass of the accept thread that gets both indices serves the connection with a client that is
not in the pool a second time, a receive that completes or fails leaves no client alone with its
socket, and a client is released under the index of one without a socket. -/
def IOCPHandler.KeepsSockets (h : IOCPHandler) : HandlerEvent → Prop
  | .accept registered noDelay nonBlocking wsaRecv =>
    h.mNetworkContextIndexPool ≠ [] → ∀ i ∈ h.mClientIndexPool.head?,
      i < clientCount ∧ i ∉ h.mClientIndexPool.tail ∧
        registered = true ∧ noDelay = true ∧ nonBlocking = true ∧ wsaRecv = true
  | .completed k _ => ∀ r ∈ h.receives[k]?, h.Attended r.client (h.receives.eraseIdx k)
  | .failed k => ∀ r ∈ h.receives[k]?, h.Attended r.client (h.receives.eraseIdx k)
  | .disconnected i => h.Vacant (i + 1)

/-! ### What a step does with the sockets -/

variable {memory : ContextMemory} {client : ClientSocket} {socket : Socket}
  {registered noDelay nonBlocking wsaRecv : Bool} {bytes : List UInt8} {r : PendingReceive}
  {s t : ClosingState} {e : HandlerEvent}

theorem initClient_of_allowed (client : ClientSocket) (socket : Socket)
    (hset : registered = true ∧ noDelay = true ∧ nonBlocking = true) :
    initClientCalls client socket registered noDelay nonBlocking = [] ∧
      (IOCPHandler.initClient client socket registered noDelay nonBlocking).1.mSocket =
        some socket := by
  obtain ⟨rfl, rfl, rfl⟩ := hset
  exact ⟨rfl, rfl⟩

/-- Whichever of its calls fails, `InitClient` closes the socket. -/
theorem initClient_of_refused (client : ClientSocket) (socket : Socket)
    (hset : ¬(registered = true ∧ noDelay = true ∧ nonBlocking = true)) :
    initClientCalls client socket registered noDelay nonBlocking = [socket] ∧
      (IOCPHandler.initClient client socket registered noDelay nonBlocking).1.mSocket = none := by
  cases registered with
  | false => exact ⟨rfl, rfl⟩
  | true =>
    have hconnect : noDelay = false ∨ nonBlocking = false := by
      simpa only [true_and, not_and_or, Bool.not_eq_true] using hset
    simp [initClientCalls, IOCPHandler.initClient, ClientSocket.onConnect,
      ClientSocket.closeCalls, ClientSocket.close, hconnect]

theorem mSocket_update (clients : ℕ → ClientSocket) {i : ℕ} :
    (fun j => (Function.update clients i client j).mSocket) =
      Function.update (fun j => (clients j).mSocket) i client.mSocket :=
  Function.comp_update ClientSocket.mSocket clients i client

namespace ClosingState

theorem closingStep_eq_some : closingStep memory s e = some t ↔
    handlerStep memory s.handler e = some t.handler ∧
      t.closesocket = s.closesocket ++ handlerCalls s.handler e := by
  simp only [closingStep, Option.map_eq_some_iff]
  constructor
  · rintro ⟨handler, hstep, rfl⟩
    exact ⟨hstep, rfl⟩
  · rintro ⟨hstep, hcalls⟩
    exact ⟨t.handler, hstep, by rw [← hcalls]⟩

theorem accept_eq
    (hstep : closingStep memory s (.accept registered noDelay nonBlocking wsaRecv) = some t) :
    t.handler = s.handler.acceptThread registered noDelay nonBlocking wsaRecv ∧
      t.closesocket = s.closesocket ++
        s.handler.acceptThreadCalls registered noDelay nonBlocking wsaRecv := by
  obtain ⟨hstep, hcalls⟩ := closingStep_eq_some.mp hstep
  simp only [handlerStep] at hstep
  split_ifs at hstep
  exact ⟨(Option.some.inj hstep).symm, hcalls⟩

/-- A pass of `_AcceptThread` that finds a pool empty refuses the connection. -/
theorem accept_handles_of_empty
    (hempty : s.handler.mClientIndexPool = [] ∨ s.handler.mNetworkContextIndexPool = [])
    (hstep : closingStep memory s (.accept registered noDelay nonBlocking wsaRecv) = some t) :
    t.handles = s.handles.refuse ∧
      t.handler.mClientIndexPool = s.handler.mClientIndexPool.tail ∧
      t.handler.receives = s.handler.receives := by
  obtain ⟨hnext, hcalls⟩ := accept_eq hstep
  simp only [IOCPHandler.acceptThreadCalls, IOCPHandler.allocClient,
    IOCPHandler.allocNetworkContext] at hcalls
  simp only [IOCPHandler.acceptThread, IOCPHandler.allocClient,
    IOCPHandler.allocNetworkContext] at hnext
  rcases hempty with hempty | hempty
  · simp only [hempty, List.head?_nil, List.tail_nil] at hnext hcalls ⊢
    simp [handles, Handles.refuse, hnext, hcalls]
  · cases hc : s.handler.mClientIndexPool with
    | nil =>
      simp only [hc, List.head?_nil, List.tail_nil] at hnext hcalls ⊢
      simp [handles, Handles.refuse, hnext, hcalls]
    | cons c cs =>
      simp only [hc, hempty, List.head?_nil, List.head?_cons, List.tail_cons] at hnext hcalls ⊢
      simp [handles, Handles.refuse, hnext, hcalls]

/-- With an index from each pool, the socket is kept by its client only where all the calls for the
connection succeed.  It is lost where the index is not one of a client, what `InitClient` refuses is
closed twice, and the client of a receive that is refused is pooled with its socket. -/
theorem accept_handles_of_both {c x : ℕ} {cs xs : List ℕ}
    (hc : s.handler.mClientIndexPool = c :: cs)
    (hx : s.handler.mNetworkContextIndexPool = x :: xs)
    (hstep : closingStep memory s (.accept registered noDelay nonBlocking wsaRecv) = some t) :
    (clientCount ≤ c ∧ t.handles = s.handles.lose) ∨
      (c < clientCount ∧
        ¬((registered = true ∧ noDelay = true ∧ nonBlocking = true) ∧ wsaRecv = true) ∧
        (¬t.closesocket.Nodup ∨ c ∈ t.handler.mClientIndexPool ∧
          (t.handler.mClients c).mSocket = some s.handler.accepted)) ∨
      (c < clientCount ∧
        ((registered = true ∧ noDelay = true ∧ nonBlocking = true) ∧ wsaRecv = true) ∧
        t.handles = s.handles.keep c ∧ t.handler.mClientIndexPool = cs ∧
        t.handler.receives = s.handler.receives ++ [⟨c, x, false⟩]) := by
  obtain ⟨hnext, hcalls⟩ := accept_eq hstep
  have hinit := (IOCPHandler.mIndex_initClient (s.handler.mClients c) s.handler.accepted
    registered noDelay nonBlocking).2
  simp only [IOCPHandler.acceptThreadCalls, IOCPHandler.allocClient,
    IOCPHandler.allocNetworkContext, hc, hx, List.head?_cons, hinit, Bool.true_eq_false,
    if_false] at hcalls
  simp only [IOCPHandler.acceptThread, IOCPHandler.allocClient, IOCPHandler.allocNetworkContext,
    hc, hx, List.head?_cons, List.tail_cons, hinit, Bool.true_eq_false, if_false] at hnext
  by_cases hout : clientCount ≤ c
  · simp only [hout, if_true] at hnext hcalls
    refine Or.inl ⟨hout, ?_⟩
    simp [handles, Handles.lose, hnext, hcalls]
  simp only [hout, if_false] at hnext hcalls
  refine Or.inr ?_
  by_cases hset : registered = true ∧ noDelay = true ∧ nonBlocking = true
  · obtain ⟨hquiet, hsocket⟩ := initClient_of_allowed (s.handler.mClients c)
      s.handler.accepted hset
    simp only [ClientSocket.receive, hsocket, hquiet, Option.isSome_some, Bool.and_true,
      List.nil_append] at hnext hcalls
    cases wsaRecv with
    | false =>
      simp only [Bool.false_eq_true, if_false] at hnext hcalls
      refine Or.inl ⟨Nat.lt_of_not_le hout, fun h => Bool.false_ne_true h.2, Or.inr ⟨?_, ?_⟩⟩
      · simp [hnext, IOCPHandler.releaseClient, IOCPHandler.releaseNetworkContext]
      · rw [hnext]
        exact (congrArg ClientSocket.mSocket (Function.update_self ..)).trans hsocket
    | true =>
      simp only [if_true] at hnext hcalls
      refine Or.inr ⟨Nat.lt_of_not_le hout, ⟨hset, rfl⟩, ?_, ?_, ?_⟩
      · rw [handles, hcalls, hnext, List.append_nil]
        exact congrArg (Handles.mk _ _) ((mSocket_update _).trans (by rw [hsocket]; rfl))
      · rw [hnext]
        rfl
      · rw [hnext]
        rfl
  · obtain ⟨hclosed, hsocket⟩ := initClient_of_refused (s.handler.mClients c)
      s.handler.accepted hset
    simp only [ClientSocket.receive, hsocket, hclosed, Option.isSome_none, Bool.and_false,
      Bool.false_eq_true, if_false] at hcalls
    refine Or.inl ⟨Nat.lt_of_not_le hout, fun h => hset h.1, Or.inl fun hnodup => ?_⟩
    rw [hcalls] at hnodup
    simpa using (List.nodup_append.mp hnodup).2.1

theorem completed_handles {k : ℕ} (hstep : closingStep memory s (.completed k bytes) = some t) :
    t.handles = s.handles := by
  obtain ⟨hstep, hcalls⟩ := closingStep_eq_some.mp hstep
  obtain ⟨r, -, hnext⟩ := completed_eq hstep
  rw [handles, hcalls, hnext]
  exact congrArg (fun calls => Handles.mk _ calls _) (List.append_nil _)

theorem failed_handles {k : ℕ} (hstep : closingStep memory s (.failed k) = some t) :
    t.handles = s.handles := by
  obtain ⟨hstep, hcalls⟩ := closingStep_eq_some.mp hstep
  simp only [handlerStep] at hstep
  split_ifs at hstep
  rw [handles, hcalls, ← Option.some.inj hstep]
  exact congrArg (fun calls => Handles.mk _ calls _) (List.append_nil _)

theorem disconnected_handles {i : ℕ} (hstep : closingStep memory s (.disconnected i) = some t) :
    t.handles = s.handles.close i := by
  obtain ⟨hstep, hcalls⟩ := closingStep_eq_some.mp hstep
  simp only [handlerStep] at hstep
  split_ifs at hstep
  rw [handles, hcalls, ← Option.some.inj hstep]
  exact congrArg (Handles.mk _ _) (mSocket_update _)

/-! ### Which steps close each socket once -/

/-- The client has a live connection. -/
def Serving (s : ClosingState) (i : ℕ) : Prop :=
  i ∈ inUse PendingReceive.client s.handler.receives

theorem closesOnce_iff : s.ClosesOnce ↔
    s.handles.ClosedOnce s.Serving ∧ ∀ i ∈ s.handler.mClientIndexPool, s.handler.Vacant i := by
  have hserved (socket : Socket) :
      (∃ r ∈ s.handler.live, (s.handler.mClients r.client).mSocket = some socket) ↔
        ∃ i, s.Serving i ∧ s.handles.held i = some socket := by
    simp [Serving, inUse, IOCPHandler.live, handles]
  constructor
  · intro hc
    refine ⟨⟨hc.once, fun socket hsocket => ?_⟩, hc.pooled⟩
    exact (hc.closed socket hsocket).imp_right (hserved socket).mp
  · rintro ⟨hc, hpooled⟩
    refine ⟨hc.once, fun socket hsocket => ?_, hpooled⟩
    exact (hc.accounted socket hsocket).imp_right (hserved socket).mpr

section Steps

variable {k i c : ℕ} {cs released : List ℕ}

theorem held_of_handles {v : Handles ℕ} (h : t.handles = v) (j : ℕ) :
    (t.handler.mClients j).mSocket = v.held j :=
  congrFun (congrArg Handles.held h) j

theorem closesOnce_refuse (hv : s.handles.Tracked) (hc : s.ClosesOnce)
    (hhandles : t.handles = s.handles.refuse)
    (hpool : t.handler.mClientIndexPool = s.handler.mClientIndexPool.tail)
    (hreceives : t.handler.receives = s.handler.receives) : t.ClosesOnce := by
  obtain ⟨hclosed, hpooled⟩ := closesOnce_iff.mp hc
  have hserving : t.Serving = s.Serving := by
    funext j
    rw [Serving, hreceives]
    rfl
  rw [closesOnce_iff, hhandles, hserving]
  refine ⟨hclosed.refuse hv, fun j hj => ?_⟩
  rw [hpool] at hj
  rw [IOCPHandler.Vacant, held_of_handles hhandles]
  exact hpooled j (List.mem_of_mem_tail hj)

/-- A client that takes a socket must not be in the pool a second time. -/
theorem closesOnce_keep_iff (hc : s.ClosesOnce) (hin : c < clientCount)
    (hpool : s.handler.mClientIndexPool = c :: cs) (hhandles : t.handles = s.handles.keep c)
    (hrest : t.handler.mClientIndexPool = cs)
    (hothers : ∀ j, s.Serving j → t.Serving j) (hserving : t.Serving c) :
    t.ClosesOnce ↔ c ∉ cs := by
  obtain ⟨hclosed, hpooled⟩ := closesOnce_iff.mp hc
  rw [hpool] at hpooled
  constructor
  · intro ht hmem
    have hsocket := ht.pooled c (by rwa [hrest]) hin
    rw [held_of_handles hhandles, Handles.keep_held_self] at hsocket
    exact Option.some_ne_none _ hsocket
  · intro hmem
    rw [closesOnce_iff, hhandles, hrest]
    refine ⟨hclosed.keep (hpooled c List.mem_cons_self hin) hothers hserving, fun j hj => ?_⟩
    have hjc : j ≠ c := fun h => hmem (h ▸ hj)
    rw [IOCPHandler.Vacant, held_of_handles hhandles, Handles.keep_held_of_ne hjc]
    exact hpooled j (List.mem_cons_of_mem c hj)

/-- A client whose socket is closed may be released under an index that has none. -/
theorem closesOnce_close_iff (hv : s.handles.Tracked) (hc : s.ClosesOnce)
    (hhandles : t.handles = s.handles.close i)
    (hpool : t.handler.mClientIndexPool = s.handler.mClientIndexPool ++ released)
    (hreleased : ∀ j ∈ released, j = i + 1) (hne : released ≠ [])
    (hothers : ∀ j, j ≠ i → s.Serving j → t.Serving j) :
    t.ClosesOnce ↔ s.handler.Vacant (i + 1) := by
  obtain ⟨hclosed, hpooled⟩ := closesOnce_iff.mp hc
  have hheld : t.handler.Vacant (i + 1) ↔ s.handler.Vacant (i + 1) := by
    rw [IOCPHandler.Vacant, held_of_handles hhandles,
      Handles.close_held_of_ne (Nat.succ_ne_self i)]
    rfl
  rw [closesOnce_iff, hhandles, ← hheld, hpool]
  constructor
  · rintro ⟨-, hvacant⟩
    obtain ⟨j, hj⟩ := List.exists_mem_of_ne_nil released hne
    rw [← hreleased j hj]
    exact hvacant j (List.mem_append_right _ hj)
  · intro hvacant
    refine ⟨hclosed.close hv hothers, fun j hj => ?_⟩
    rcases List.mem_append.mp hj with hj | hj
    · intro hin
      by_cases hji : j = i
      · rw [hji, held_of_handles hhandles, Handles.close_held_self]
      · rw [held_of_handles hhandles, Handles.close_held_of_ne hji]
        exact hpooled j hj hin
    · rw [hreleased j hj]
      exact hvacant

/-- A step that changes no socket leaves none with a client that is not served. -/
theorem closesOnce_kept_iff (hv : s.handles.Tracked) (hc : s.ClosesOnce)
    (hhandles : t.handles = s.handles)
    (hpool : t.handler.mClientIndexPool = s.handler.mClientIndexPool)
    (hothers : ∀ j, j ≠ i → s.Serving j → t.Serving j) :
    t.ClosesOnce ↔ ((s.handler.mClients i).mSocket ≠ none → t.Serving i) := by
  obtain ⟨hclosed, hpooled⟩ := closesOnce_iff.mp hc
  have hvacant : ∀ j ∈ t.handler.mClientIndexPool, t.handler.Vacant j := by
    intro j hj
    rw [hpool] at hj
    rw [IOCPHandler.Vacant, held_of_handles hhandles]
    exact hpooled j hj
  rw [closesOnce_iff, hhandles, hclosed.congr_iff hv]
  constructor
  · rintro ⟨hserving, -⟩
    exact hserving i
  · intro hserving
    refine ⟨fun j hj => ?_, hvacant⟩
    by_cases hji : j = i
    · rw [hji] at hj ⊢
      exact hserving hj
    · obtain ⟨socket, hsocket⟩ := Option.ne_none_iff_exists'.mp hj
      exact hothers j hji (hclosed.busy_of_held hv hsocket)

theorem closesOnce_accept_iff (hv : s.handles.Tracked) (hc : s.ClosesOnce)
    (hstep : closingStep memory s (.accept registered noDelay nonBlocking wsaRecv) = some t) :
    (t.ClosesOnce ↔ s.handler.KeepsSockets (.accept registered noDelay nonBlocking wsaRecv)) ∧
      (t.ClosesOnce → t.handles.Tracked) := by
  by_cases hempty : s.handler.mClientIndexPool = [] ∨ s.handler.mNetworkContextIndexPool = []
  · obtain ⟨hhandles, hpool, hreceives⟩ := accept_handles_of_empty hempty hstep
    have hmeets : s.handler.KeepsSockets (.accept registered noDelay nonBlocking wsaRecv) := by
      intro hnone i hi
      rcases hempty with hclients | hcontexts
      · rw [hclients] at hi
        exact absurd hi.symm (Option.some_ne_none i)
      · exact absurd hcontexts hnone
    refine ⟨iff_of_true (closesOnce_refuse hv hc hhandles hpool hreceives) hmeets, fun _ => ?_⟩
    rw [hhandles]
    exact hv.refuse
  · rw [not_or] at hempty
    obtain ⟨c, cs, hpool⟩ := List.exists_cons_of_ne_nil hempty.1
    obtain ⟨x, xs, hcontexts⟩ := List.exists_cons_of_ne_nil hempty.2
    have hmeets : s.handler.KeepsSockets (.accept registered noDelay nonBlocking wsaRecv) ↔
        c < clientCount ∧ c ∉ cs ∧
          registered = true ∧ noDelay = true ∧ nonBlocking = true ∧ wsaRecv = true := by
      simp [IOCPHandler.KeepsSockets, hpool, hcontexts]
    rw [hmeets]
    obtain ⟨hout, hhandles⟩ | ⟨hin, hset, htwice⟩ |
      ⟨hin, ⟨hset, hrecv⟩, hhandles, hrest, hreceives⟩ :=
      accept_handles_of_both hpool hcontexts hstep
    · have hlost : ¬t.ClosesOnce := by
        rw [closesOnce_iff, hhandles]
        exact fun ht => hv.not_closedOnce_lose ht.1
      exact ⟨iff_of_false hlost fun h => Nat.not_lt.mpr hout h.1, fun ht => absurd ht hlost⟩
    · have hwrong : ¬t.ClosesOnce := by
        intro ht
        rcases htwice with htwice | ⟨hpooled, hsocket⟩
        · exact htwice ht.once
        · rw [ht.pooled c hpooled hin] at hsocket
          exact Option.some_ne_none _ hsocket.symm
      refine ⟨iff_of_false hwrong ?_, fun ht => absurd ht hwrong⟩
      rintro ⟨-, -, hregistered, hdelay, hblocking, hrecv⟩
      exact hset ⟨⟨hregistered, hdelay, hblocking⟩, hrecv⟩
    · have hserving : ∀ j, t.Serving j ↔ s.Serving j ∨ j = c := by
        intro j
        rw [Serving, hreceives, inUse_append]
        simp [Serving]
      refine ⟨?_, fun _ => ?_⟩
      · rw [closesOnce_keep_iff hc hin hpool hhandles hrest
          (fun j hj => (hserving j).mpr (Or.inl hj)) ((hserving c).mpr (Or.inr rfl))]
        obtain ⟨hregistered, hdelay, hblocking⟩ := hset
        exact ⟨fun h => ⟨hin, h, hregistered, hdelay, hblocking, hrecv⟩, fun h => h.2.1⟩
      · rw [hhandles]
        exact hv.keep

theorem serving_erase (hr : s.handler.receives[k]? = some r) (j : ℕ) :
    s.Serving j ↔ j ∈ inUse PendingReceive.client (s.handler.receives.eraseIdx k) ∨
      r.ended = false ∧ j = r.client := by
  rw [Serving, (inUse_perm hr).mem_iff]
  cases hended : r.ended <;> simp

theorem serving_of_erase (hr : s.handler.receives[k]? = some r) {j : ℕ} (hj : j ≠ r.client)
    (h : s.Serving j) : j ∈ inUse PendingReceive.client (s.handler.receives.eraseIdx k) :=
  ((serving_erase hr j).mp h).resolve_right fun h => hj h.2

/-- The client of a receive that is gone has no socket, or another receive serves it. -/
theorem closesOnce_dropped_iff (hv : s.handles.Tracked) (hc : s.ClosesOnce)
    (hk : k < s.handler.receives.length) (hhandles : t.handles = s.handles)
    (hindices : t.handler.indices = ⟨s.handler.mClientIndexPool,
      s.handler.mNetworkContextIndexPool, s.handler.receives.eraseIdx k, s.handler.overrun⟩) :
    t.ClosesOnce ↔ ∀ r ∈ s.handler.receives[k]?,
      s.handler.Attended r.client (s.handler.receives.eraseIdx k) := by
  have hr := List.getElem?_eq_getElem hk
  have hreceives : t.handler.receives = s.handler.receives.eraseIdx k :=
    congrArg Indices.receives hindices
  have hothers : ∀ j, j ≠ s.handler.receives[k].client → s.Serving j → t.Serving j := by
    intro j hj hserving
    rw [Serving, hreceives]
    exact serving_of_erase hr hj hserving
  rw [closesOnce_kept_iff hv hc hhandles (congrArg Indices.clients hindices) hothers]
  simp only [hr, Option.mem_some_iff, forall_eq', Serving, hreceives]
  rfl

theorem closesOnce_disconnected_iff (hs : s.handler.Sound) (hv : s.handles.Tracked)
    (hc : s.ClosesOnce) (hstep : closingStep memory s (.disconnected i) = some t) :
    t.ClosesOnce ↔ s.handler.KeepsSockets (.disconnected i) := by
  obtain ⟨-, hindices⟩ := IOCPHandler.disconnected_indices hs (closingStep_eq_some.mp hstep).1
  refine closesOnce_close_iff hv hc (disconnected_handles hstep)
    (congrArg Indices.clients hindices) (by simp) (List.cons_ne_nil _ _) fun j hj hserving => ?_
  rw [Serving, show t.handler.receives = _ from congrArg Indices.receives hindices, inUse_end]
  simp only [Serving, inUse, List.mem_map, List.mem_filter] at hserving ⊢
  obtain ⟨r, ⟨hr, hlive⟩, rfl⟩ := hserving
  exact ⟨r, ⟨⟨hr, decide_eq_true hj⟩, hlive⟩, rfl⟩

/-- A step that keeps each socket to one close, and the handles tracked, is one that meets the
condition. -/
theorem closesOnce_step_iff (hs : s.handler.Sound) (hv : s.handles.Tracked) (hc : s.ClosesOnce)
    (hstep : closingStep memory s e = some t) : t.ClosesOnce ↔ s.handler.KeepsSockets e := by
  cases e with
  | accept registered noDelay nonBlocking wsaRecv => exact (closesOnce_accept_iff hv hc hstep).1
  | completed k bytes =>
    obtain ⟨-, hk, hindices⟩ :=
      IOCPHandler.completed_indices hs (closingStep_eq_some.mp hstep).1
    exact closesOnce_dropped_iff hv hc hk (completed_handles hstep) hindices
  | failed k =>
    obtain ⟨-, hk, hindices⟩ := IOCPHandler.failed_indices hs (closingStep_eq_some.mp hstep).1
    exact closesOnce_dropped_iff hv hc hk (failed_handles hstep) hindices
  | disconnected i => exact closesOnce_disconnected_iff hs hv hc hstep

theorem tracked_step (hv : s.handles.Tracked) (hc : s.ClosesOnce)
    (hmeets : s.handler.KeepsSockets e) (hstep : closingStep memory s e = some t) :
    t.handles.Tracked := by
  cases e with
  | accept registered noDelay nonBlocking wsaRecv =>
    obtain ⟨hiff, htracked⟩ := closesOnce_accept_iff hv hc hstep
    exact htracked (hiff.mpr hmeets)
  | completed k bytes =>
    rw [completed_handles hstep]
    exact hv
  | failed k =>
    rw [failed_handles hstep]
    exact hv
  | disconnected i =>
    rw [disconnected_handles hstep]
    exact hv.close

end Steps

theorem closesOnce_start (buffers : ℕ → Memory UInt8) : (start buffers).ClosesOnce :=
  closesOnce_iff.mpr ⟨Handles.closedOnce_empty, fun _ _ _ => rfl⟩

/-- In a run every socket is closed once, by the time that its connection has ended, and the pooled
clients have none, exactly as long as every step keeps to the condition. -/
theorem closes_once_iff (memory : ContextMemory) (buffers : ℕ → Memory UInt8)
    (es : List HandlerEvent) (t : ClosingState)
    (hrun : run (closingStep memory) (start buffers) es = some t) :
    Throughout (closingStep memory) ClosesOnce (start buffers) es ↔
      Meets (closingStep memory) (fun s e => s.handler.KeepsSockets e) (start buffers) es := by
  refine throughout_iff_meets_of
    (I := fun s => s.handler.Sound ∧ s.handles.Tracked)
    (fun s e t hI hc hmeets hstep => ?_) (fun s e t hI hc hstep => ?_)
    ⟨sound_start buffers, Handles.tracked_empty⟩ (closesOnce_start buffers) hrun
  · exact ⟨sound_step hI.1 (closingStep_eq_some.mp hstep).1, tracked_step hI.2 hc hmeets hstep⟩
  · exact closesOnce_step_iff hI.1 hI.2 hc hstep

/-- Two connections, one of which `IOThread` closes. -/
theorem closes_once_two_connections :
    ∃ t, run (closingStep ⟨4096, 0, rfl⟩) (start fun _ _ => 0)
        [.accept true true true true, .accept true true true true, .disconnected 2] = some t ∧
      t.closesocket = [1] ∧ t.handler.live = [⟨1, 0, false⟩] ∧
      Throughout (closingStep ⟨4096, 0, rfl⟩) ClosesOnce (start fun _ _ => 0)
        [.accept true true true true, .accept true true true true, .disconnected 2] := by
  have hrest (i n : ℕ) : i ∉ List.range' (i + 1) n := fun hmem =>
    Nat.not_succ_le_self i (List.left_le_of_mem_range' hmem)
  refine ⟨_, rfl, rfl, rfl, (closes_once_iff _ _ _ _ rfl).mpr
    ⟨fun _ i hi => ?_, fun t ht => ⟨fun _ i hi => ?_, fun u hu => ⟨?_, fun _ _ => trivial⟩⟩⟩⟩
  · obtain rfl : 1 = i := Option.some.inj hi
    exact ⟨by decide, hrest 1 109, rfl, rfl, rfl, rfl⟩
  · obtain rfl := Option.some.inj ht
    obtain rfl : 2 = i := Option.some.inj hi
    exact ⟨by decide, hrest 2 108, rfl, rfl, rfl, rfl⟩
  · obtain rfl := Option.some.inj ht
    obtain rfl := Option.some.inj hu
    exact fun _ => rfl

/-- `Register` fails: `InitClient` closes the socket and returns true, and the accept thread closes
it again. -/
theorem socket_closed_twice :
    ∃ t, run (closingStep ⟨4096, 0, rfl⟩) (start fun _ _ => 0) [.accept false true true true] =
        some t ∧
      t.closesocket = [0, 0] ∧ ¬t.ClosesOnce :=
  ⟨_, rfl, rfl, fun hc => absurd hc.once (by decide)⟩

end ClosingState

end IocpStudy.SBServer
