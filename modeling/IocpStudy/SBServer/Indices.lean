import Mathlib.Data.List.Perm.Basic
import IocpStudy.Lib.Pools
import IocpStudy.Lib.Runs
import IocpStudy.SBServer.IOCPHandler

/-! The two index pools over the runs of the handler.  The pool of client indices starts with the
numbers that the clients have as session IDs, each one more than the position that it is used as, so
the last one is behind the clients, and a client is not released under the index it was allocated
with.  A connection that ends gives back both of its indices only where its first receive fails:
`IOThread` drops every completion of a receive. -/

namespace IocpStudy.SBServer

open Pools Runs

/-- The part of the handler that the indices are in. -/
structure Indices where
  clients : List ℕ
  contexts : List ℕ
  receives : List PendingReceive
  overrun : Bool
deriving Repr, DecidableEq

/-- The indices, of clients or of contexts, that the connections which have not ended use. -/
def inUse (index : PendingReceive → ℕ) (receives : List PendingReceive) : List ℕ :=
  (receives.filter fun r => !r.ended).map index

namespace IOCPHandler

def indices (h : IOCPHandler) : Indices :=
  ⟨h.mClientIndexPool, h.mNetworkContextIndexPool, h.receives, h.overrun⟩

/-- The clients have the numbers that `Initialize` gave them. -/
def Sound (h : IOCPHandler) : Prop := ∀ i, (h.mClients i).mIndex = i + 1

end IOCPHandler

variable {memory : ContextMemory} {wsaRecv : Bool} {bytes : List UInt8} {r : PendingReceive}
  {h t : IOCPHandler} {e : HandlerEvent} {es : List HandlerEvent}

/-! ### What a step does with the indices -/

namespace IOCPHandler

theorem Sound.of_update (hs : h.Sound) {i : ℕ} {client : ClientSocket}
    (hindex : client.mIndex = i + 1) (hclients : t.mClients = Function.update h.mClients i client) :
    t.Sound := by
  intro j
  rw [hclients, Function.update_apply]
  split_ifs with hj
  · rw [hindex, hj]
  · exact hs j

theorem mIndex_initClient (client : ClientSocket) (socket : Socket)
    (registered noDelay nonBlocking : Bool) :
    (initClient client socket registered noDelay nonBlocking).1.mIndex = client.mIndex ∧
      (initClient client socket registered noDelay nonBlocking).2 = true := by
  unfold initClient ClientSocket.onConnect
  cases registered with
  | false => simp [ClientSocket.close]
  | true =>
    simp only [if_true, reduceCtorEq, false_or]
    split_ifs <;> exact ⟨rfl, rfl⟩

variable {registered noDelay nonBlocking : Bool}

/-- Where a pool is empty, what was taken from the other one is lost. -/
theorem acceptThread_of_empty (hs : h.Sound)
    (hempty : h.mClientIndexPool = [] ∨ h.mNetworkContextIndexPool = []) :
    (h.acceptThread registered noDelay nonBlocking wsaRecv).Sound ∧
      (h.acceptThread registered noDelay nonBlocking wsaRecv).indices =
        ⟨h.mClientIndexPool.tail, h.mNetworkContextIndexPool.tail, h.receives, h.overrun⟩ := by
  have hnone : h.mClientIndexPool.head? = none ∨ h.mNetworkContextIndexPool.head? = none := by
    rwa [List.head?_eq_none_iff, List.head?_eq_none_iff]
  simp only [acceptThread, allocClient, allocNetworkContext]
  split
  · rename_i hclient hcontext
    rcases hnone with hnone | hnone
    · rw [hnone] at hclient
      exact absurd hclient.symm (Option.some_ne_none _)
    · rw [hnone] at hcontext
      exact absurd hcontext.symm (Option.some_ne_none _)
  · exact ⟨hs, rfl⟩

/-- With an index from each pool, both are given back or serve the connection. -/
theorem acceptThread_of_both (hs : h.Sound) {c x : ℕ} {cs xs : List ℕ}
    (hc : h.mClientIndexPool = c :: cs) (hx : h.mNetworkContextIndexPool = x :: xs) :
    (h.acceptThread registered noDelay nonBlocking wsaRecv).Sound ∧
      ((clientCount ≤ c ∧ (h.acceptThread registered noDelay nonBlocking wsaRecv).indices =
          ⟨cs, xs, h.receives, true⟩) ∨
        (c < clientCount ∧ (h.acceptThread registered noDelay nonBlocking wsaRecv).indices =
          ⟨cs ++ [c], xs ++ [x], h.receives, h.overrun⟩) ∨
        (c < clientCount ∧ (h.acceptThread registered noDelay nonBlocking wsaRecv).indices =
          ⟨cs, xs, h.receives ++ [⟨c, x, false⟩], h.overrun⟩)) := by
  simp only [acceptThread, allocClient, allocNetworkContext, hc, hx, List.head?_cons,
    List.tail_cons]
  split_ifs with hout hfail
  · exact ⟨hs, Or.inl ⟨hout, rfl⟩⟩
  · rw [(mIndex_initClient _ _ _ _ _).2] at hfail
    exact absurd hfail (by decide)
  · have hindex := (mIndex_initClient (h.mClients c) h.accepted registered noDelay nonBlocking).1
    rw [hs] at hindex
    split
    · exact ⟨hs.of_update hindex rfl, Or.inr (Or.inr ⟨by omega, rfl⟩)⟩
    · exact ⟨hs.of_update hindex rfl, Or.inr (Or.inl ⟨by omega, rfl⟩)⟩

/-- A pass of `_AcceptThread` that takes an index from each pool gives both back or serves a
connection with them, and one that finds a pool empty loses what it took from the other. -/
theorem accept_cases (hs : h.Sound)
    (hstep : handlerStep memory h (.accept registered noDelay nonBlocking wsaRecv) = some t) :
    t.Sound ∧
      (((h.mClientIndexPool = [] ∨ h.mNetworkContextIndexPool = []) ∧ t.indices =
          ⟨h.mClientIndexPool.tail, h.mNetworkContextIndexPool.tail, h.receives, h.overrun⟩) ∨
        ∃ c cs x xs, h.mClientIndexPool = c :: cs ∧ h.mNetworkContextIndexPool = x :: xs ∧
          ((clientCount ≤ c ∧ t.indices = ⟨cs, xs, h.receives, true⟩) ∨
            (c < clientCount ∧ t.indices = ⟨cs ++ [c], xs ++ [x], h.receives, h.overrun⟩) ∨
            (c < clientCount ∧
              t.indices = ⟨cs, xs, h.receives ++ [⟨c, x, false⟩], h.overrun⟩))) := by
  simp only [handlerStep] at hstep
  split_ifs at hstep
  obtain rfl := Option.some.inj hstep
  by_cases hempty : h.mClientIndexPool = [] ∨ h.mNetworkContextIndexPool = []
  · obtain ⟨hsound, hindices⟩ := acceptThread_of_empty hs hempty
    exact ⟨hsound, Or.inl ⟨hempty, hindices⟩⟩
  · rw [not_or] at hempty
    obtain ⟨c, cs, hc⟩ := List.exists_cons_of_ne_nil hempty.1
    obtain ⟨x, xs, hx⟩ := List.exists_cons_of_ne_nil hempty.2
    obtain ⟨hsound, hcases⟩ := acceptThread_of_both hs hc hx
    exact ⟨hsound, Or.inr ⟨c, cs, x, xs, hc, hx, hcases⟩⟩

/-- A receive that completes is gone, as one that fails is, and gives nothing back. -/
theorem completed_indices (hs : h.Sound) {k : ℕ}
    (hstep : handlerStep memory h (.completed k bytes) = some t) :
    t.Sound ∧ k < h.receives.length ∧
      t.indices = ⟨h.mClientIndexPool, h.mNetworkContextIndexPool, h.receives.eraseIdx k,
        h.overrun⟩ := by
  obtain ⟨r, hr, rfl⟩ := completed_eq hstep
  exact ⟨hs, (List.getElem?_eq_some_iff.mp hr).1, rfl⟩

theorem failed_indices (hs : h.Sound) {k : ℕ} (hstep : handlerStep memory h (.failed k) = some t) :
    t.Sound ∧ k < h.receives.length ∧
      t.indices = ⟨h.mClientIndexPool, h.mNetworkContextIndexPool, h.receives.eraseIdx k,
        h.overrun⟩ := by
  simp only [handlerStep] at hstep
  split_ifs at hstep with hguard
  obtain rfl := Option.some.inj hstep
  rw [not_or] at hguard
  exact ⟨hs, Nat.lt_of_not_le hguard.2, rfl⟩

/-- A completion without an `OVERLAPPED` gives back the session ID of its client. -/
theorem disconnected_indices (hs : h.Sound) {i : ℕ}
    (hstep : handlerStep memory h (.disconnected i) = some t) :
    t.Sound ∧
      t.indices = ⟨h.mClientIndexPool ++ [i + 1], h.mNetworkContextIndexPool,
        h.receives.map fun r => if r.client = i then { r with ended := true } else r,
        h.overrun⟩ := by
  simp only [handlerStep] at hstep
  split_ifs at hstep with hguard
  obtain rfl := Option.some.inj hstep
  have hindex : (h.mClients i).close.mIndex = i + 1 := hs i
  refine ⟨hs.of_update hindex rfl, ?_⟩
  simp only [indices, disconnect, releaseClient, setClient, ClientSocket.getSessionID,
    ClientSocket.close, hs i]

end IOCPHandler

/-! ### Sharing a client -/

/-- No client index is pooled twice or pooled while it serves a connection, no client serves two
connections, and none behind the last one has been used. -/
structure Indices.ClientsApart (v : Indices) : Prop where
  inBounds : v.overrun = false
  unshared : Unshared v.clients (inUse PendingReceive.client v.receives)

/-- The slots are owned as the clients' indices say: every pooled index is the position of a client
with that session ID, and clients are apart. -/
structure IOCPHandler.SlotsOwned (h : IOCPHandler) : Prop where
  valid : ∀ i ∈ h.mClientIndexPool, i < clientCount
  sessionID : ∀ i ∈ h.mClientIndexPool, (h.mClients i).getSessionID = i
  apart : h.indices.ClientsApart

/-- The index is neither in the pool nor a client that one of these receives serves. -/
def IOCPHandler.Unused (h : IOCPHandler) (i : ℕ) (receives : List PendingReceive) : Prop :=
  i ∉ h.mClientIndexPool ∧ i ∉ inUse PendingReceive.client receives

/-- The step uses no client behind the last one, and releases one only under an index that is unused
then. -/
def IOCPHandler.KeepsApart (h : IOCPHandler) : HandlerEvent → Prop
  | .accept _ _ _ _ =>
    h.mNetworkContextIndexPool ≠ [] → ∀ i ∈ h.mClientIndexPool.head?, i < clientCount
  | .completed _ _ => True
  | .failed _ => True
  | .disconnected i => h.Unused (i + 1) (h.receives.filter fun r => r.client ≠ i)

section Receives

variable {receives : List PendingReceive} {index : PendingReceive → ℕ} {k : ℕ}

theorem inUse_perm (hr : receives[k]? = some r) :
    (inUse index receives).Perm
      (inUse index (receives.eraseIdx k) ++ if r.ended then [] else [index r]) := by
  obtain ⟨hk, rfl⟩ := List.getElem?_eq_some_iff.mp hr
  have hperm := ((List.getElem_cons_eraseIdx_perm hk).symm.filter fun r => !r.ended).map index
  refine hperm.trans ?_
  cases hended : receives[k].ended with
  | false =>
    rw [List.filter_cons, hended]
    exact (List.perm_append_singleton (index receives[k]) _).symm
  | true =>
    rw [List.filter_cons, hended, if_pos rfl, List.append_nil]
    exact List.Perm.refl _

theorem inUse_eraseIdx_sublist :
    (inUse index (receives.eraseIdx k)).Sublist (inUse index receives) :=
  ((List.eraseIdx_sublist receives k).filter _).map _

theorem inUse_append (r : PendingReceive) :
    inUse index (receives ++ [r]) = inUse index receives ++ if r.ended then [] else [index r] := by
  rw [inUse, List.filter_append, List.map_append]
  cases hended : r.ended <;> simp [inUse, hended]

/-- To end the connections of a client takes its receives out of those in use. -/
theorem inUse_end (i : ℕ) :
    inUse index (receives.map fun r => if r.client = i then { r with ended := true } else r) =
      inUse index (receives.filter fun r => r.client ≠ i) := by
  induction receives with
  | nil => rfl
  | cons r receives ih =>
    simp only [inUse] at ih
    by_cases hclient : r.client = i
    · simpa [inUse, hclient] using ih
    · cases hended : r.ended with
      | false => simpa [inUse, hclient, hended] using ih
      | true => simpa [inUse, hclient, hended] using ih

end Receives

namespace Indices

variable {v : Indices} {clients contexts : List ℕ} {k : ℕ}

theorem ClientsApart.of_sublist (hv : v.ClientsApart) {w : Indices} (hover : w.overrun = v.overrun)
    (hclients : w.clients.Sublist v.clients)
    (hused : (inUse PendingReceive.client w.receives).Sublist
      (inUse PendingReceive.client v.receives)) : w.ClientsApart :=
  ⟨hover.trans hv.inBounds, List.Nodup.sublist (hclients.append hused) hv.unshared⟩

end Indices

section Apart

variable {registered noDelay nonBlocking : Bool} {k i : ℕ}

/-- What is taken for a connection is in use by it alone. -/
theorem clientsApart_accept_iff (hs : h.Sound) (hv : h.indices.ClientsApart)
    (hstep : handlerStep memory h (.accept registered noDelay nonBlocking wsaRecv) = some t) :
    t.indices.ClientsApart ↔ h.KeepsApart (.accept registered noDelay nonBlocking wsaRecv) := by
  obtain ⟨-, ⟨hempty, hindices⟩ | ⟨c, cs, x, xs, hc, hx, hcases⟩⟩ :=
    IOCPHandler.accept_cases hs hstep
  · have hmeets : h.KeepsApart (.accept registered noDelay nonBlocking wsaRecv) := by
      intro hcontexts i hi
      rcases hempty with hclients | hnone
      · rw [hclients] at hi
        exact absurd hi.symm (Option.some_ne_none i)
      · exact absurd hnone hcontexts
    rw [hindices]
    exact iff_of_true (hv.of_sublist rfl (List.tail_sublist _) (List.Sublist.refl _)) hmeets
  · have hunshared : Unshared (c :: cs) (inUse PendingReceive.client h.receives) := by
      rw [← hc]
      exact hv.unshared
    have hmeets : h.KeepsApart (.accept registered noDelay nonBlocking wsaRecv) ↔
        c < clientCount := by
      simp [IOCPHandler.KeepsApart, hc, hx]
    rw [hmeets]
    obtain ⟨hout, hindices⟩ | ⟨hin, hindices⟩ | ⟨hin, hindices⟩ := hcases <;> rw [hindices]
    · exact iff_of_false (fun ht => Bool.noConfusion ht.inBounds) (by omega)
    · exact iff_of_true ⟨hv.inBounds, unshared_release.mpr hunshared⟩ hin
    · refine iff_of_true ⟨hv.inBounds, ?_⟩ hin
      rw [inUse_append]
      exact unshared_take.mpr hunshared

theorem clientsApart_disconnected_iff (hs : h.Sound) (hv : h.indices.ClientsApart)
    (hstep : handlerStep memory h (.disconnected i) = some t) :
    t.indices.ClientsApart ↔ h.KeepsApart (.disconnected i) := by
  have hothers : Unshared h.mClientIndexPool
      (inUse PendingReceive.client (h.receives.filter fun r => r.client ≠ i)) :=
    hv.unshared.sublist ((List.filter_sublist.filter _).map _)
  rw [(IOCPHandler.disconnected_indices hs hstep).2]
  constructor
  · intro ht
    have hunshared := ht.unshared
    rw [inUse_end] at hunshared
    exact (unshared_release_iff.mp hunshared).2
  · intro hunused
    refine ⟨hv.inBounds, ?_⟩
    rw [inUse_end]
    exact unshared_release_iff.mpr ⟨hothers, hunused⟩

end Apart

/-- A step keeps the clients apart if and only if it meets the condition. -/
theorem clientsApart_step_iff (hs : h.Sound) (hv : h.indices.ClientsApart)
    (hstep : handlerStep memory h e = some t) : t.indices.ClientsApart ↔ h.KeepsApart e := by
  cases e with
  | accept registered noDelay nonBlocking wsaRecv => exact clientsApart_accept_iff hs hv hstep
  | completed k bytes =>
    rw [(IOCPHandler.completed_indices hs hstep).2.2]
    exact iff_of_true (hv.of_sublist rfl (List.Sublist.refl _) inUse_eraseIdx_sublist) trivial
  | failed k =>
    rw [(IOCPHandler.failed_indices hs hstep).2.2]
    exact iff_of_true (hv.of_sublist rfl (List.Sublist.refl _) inUse_eraseIdx_sublist) trivial
  | disconnected i => exact clientsApart_disconnected_iff hs hv hstep

theorem sound_step (hs : h.Sound) (hstep : handlerStep memory h e = some t) : t.Sound := by
  cases e with
  | accept registered noDelay nonBlocking wsaRecv => exact (IOCPHandler.accept_cases hs hstep).1
  | completed k bytes => exact (IOCPHandler.completed_indices hs hstep).1
  | failed k => exact (IOCPHandler.failed_indices hs hstep).1
  | disconnected i => exact (IOCPHandler.disconnected_indices hs hstep).1

theorem sound_start (buffers : ℕ → Memory UInt8) : (IOCPHandler.start buffers).Sound :=
  fun _ => rfl

theorem not_slotsOwned_start (buffers : ℕ → Memory UInt8) :
    ¬(IOCPHandler.start buffers).SlotsOwned := by
  intro hs
  have hlast : clientCount ∈ (IOCPHandler.start buffers).mClientIndexPool := by
    rw [IOCPHandler.start, List.mem_range']
    exact ⟨109, by decide, rfl⟩
  exact Nat.lt_irrefl _ (hs.valid _ hlast)

/-- The slots are owned on no run, because the pool that a run starts with holds the index behind
the last client, and no index that is its client's session ID.  The clients are kept apart on
exactly the runs whose steps release none under an index that is in use or in the pool. -/
theorem clientsApart_iff_keepsApart (memory : ContextMemory) (buffers : ℕ → Memory UInt8)
    (es : List HandlerEvent) (t : IOCPHandler)
    (hrun : run (handlerStep memory) (.start buffers) es = some t) :
    ¬Throughout (handlerStep memory) IOCPHandler.SlotsOwned (.start buffers) es ∧
    (Throughout (handlerStep memory) (fun h => h.indices.ClientsApart) (.start buffers) es ↔
      Meets (handlerStep memory) IOCPHandler.KeepsApart (.start buffers) es) := by
  refine ⟨fun hall => not_slotsOwned_start buffers hall.head, ?_⟩
  have hunshared : Unshared (List.range' 1 clientCount) [] :=
    conserved_nil.unshared List.nodup_range'
  exact throughout_iff_meets (fun _ _ _ hs hst => sound_step hs hst)
    (fun _ _ _ hs hv hst => clientsApart_step_iff hs hv hst) (sound_start buffers)
    ⟨rfl, hunshared⟩ hrun

/-- Two connections, and a completed receive of the first one. -/
theorem clientsApart_two_connections :
    ∃ t, run (handlerStep ⟨4096, 0, rfl⟩) (.start fun _ _ => 0)
        [.accept true true true true, .completed 0 [], .accept true true true true] = some t ∧
      t.receives = [⟨2, 1, false⟩] ∧
      Throughout (handlerStep ⟨4096, 0, rfl⟩) (fun h => h.indices.ClientsApart)
        (.start fun _ _ => 0)
        [.accept true true true true, .completed 0 [], .accept true true true true] := by
  refine ⟨_, rfl, rfl, (clientsApart_iff_keepsApart _ _ _ _ rfl).2.mpr ⟨fun _ i hi => ?_,
    fun t ht => ⟨trivial, fun u hu => ⟨fun _ i hi => ?_, fun _ _ => trivial⟩⟩⟩⟩
  · obtain rfl : 1 = i := Option.some.inj hi
    decide
  · obtain rfl := Option.some.inj ht
    obtain rfl := Option.some.inj hu
    obtain rfl : 2 = i := Option.some.inj hi
    decide

/-- A connection that is served takes the first index of each pool. -/
theorem accept_served {c x : ℕ} {cs xs : List ℕ} (hover : h.overrun = false)
    (hc : h.mClientIndexPool = c :: cs) (hx : h.mNetworkContextIndexPool = x :: xs)
    (hin : c < clientCount) :
    ∃ t, handlerStep memory h (.accept true true true true) = some t ∧ t.indices =
      ⟨cs, xs, h.receives ++ [⟨c, x, false⟩], h.overrun⟩ := by
  have hstep : handlerStep memory h (.accept true true true true) =
      some (h.acceptThread true true true true) := by
    simp only [handlerStep, hover, Bool.false_eq_true, if_false]
  refine ⟨_, hstep, ?_⟩
  simp only [IOCPHandler.acceptThread, IOCPHandler.allocClient, IOCPHandler.allocNetworkContext, hc,
    hx, List.head?_cons, List.tail_cons, Nat.not_le.mpr hin, if_false]
  rfl

theorem run_served (served used : List ℕ) {cs xs : List ℕ} (hlength : served.length = used.length)
    (hover : h.overrun = false) (hc : h.mClientIndexPool = served ++ cs)
    (hx : h.mNetworkContextIndexPool = used ++ xs) (hin : ∀ c ∈ served, c < clientCount) :
    ∃ t, run (handlerStep memory) h (List.replicate served.length (.accept true true true true)) =
        some t ∧ t.mClientIndexPool = cs ∧ t.mNetworkContextIndexPool = xs ∧ t.overrun = false := by
  induction served generalizing h used with
  | nil =>
    obtain rfl := List.length_eq_zero_iff.mp hlength.symm
    exact ⟨h, rfl, hc, hx, hover⟩
  | cons c served ih =>
    obtain ⟨x, used, rfl⟩ := List.exists_cons_of_length_eq_add_one hlength.symm
    obtain ⟨hfirst, hrest⟩ := List.forall_mem_cons.mp hin
    obtain ⟨u, hstep, hindices⟩ := accept_served hover hc hx hfirst
    obtain ⟨t, hrun, hclients, hcontexts, hunder⟩ := ih used (Nat.succ.inj hlength)
      ((congrArg Indices.overrun hindices).trans hover) (congrArg Indices.clients hindices)
      (congrArg Indices.contexts hindices) hrest
    exact ⟨t, run_cons_eq_some.mpr ⟨u, hstep, hrun⟩, hclients, hcontexts, hunder⟩

/-- The handler serves 109 connections, and the next one gets the index behind the last client. -/
theorem last_index_overruns :
    ∃ t, run (handlerStep ⟨4096, 0, rfl⟩) (.start fun _ _ => 0)
        (List.replicate 110 (.accept true true true true)) = some t ∧
      t.overrun = true ∧ ¬t.SlotsOwned := by
  have hserved : ∃ u, run (handlerStep ⟨4096, 0, rfl⟩) (.start fun _ _ => 0)
      (List.replicate 109 (.accept true true true true)) = some u ∧ u.mClientIndexPool = [110] ∧
      u.mNetworkContextIndexPool = List.range' 109 891 ∧ u.overrun = false :=
    run_served (List.range' 1 109) (List.range' 0 109) rfl rfl rfl rfl (by decide)
  obtain ⟨u, hrun, hclients, hcontexts, hover⟩ := hserved
  have hlast : handlerStep ⟨4096, 0, rfl⟩ u (.accept true true true true) =
      some (u.acceptThread true true true true) := by
    simp only [handlerStep, hover, Bool.false_eq_true, if_false]
  have hoverrun : (u.acceptThread true true true true).overrun = true := by
    simp only [IOCPHandler.acceptThread, IOCPHandler.allocClient, IOCPHandler.allocNetworkContext,
      hclients, hcontexts]
    rfl
  refine ⟨_, run_append_eq_some.mpr ⟨u, hrun, run_cons_eq_some.mpr ⟨_, hlast, rfl⟩⟩, hoverrun,
    fun hs => ?_⟩
  have hinBounds := hs.apart.inBounds
  exact Bool.false_ne_true (hinBounds.symm.trans hoverrun)

/-! ### Losing an index -/

/-- Every client index and every context index is pooled or in use by a connection that has not
ended, once, and no client behind the last one has been used. -/
structure Indices.Conserved (v : Indices) : Prop where
  inBounds : v.overrun = false
  clients : Pools.Conserved (List.range' 1 clientCount) v.clients
    (inUse PendingReceive.client v.receives)
  contexts : Pools.Conserved (List.range' 0 contextCount) v.contexts
    (inUse PendingReceive.context v.receives)

/-- The step is a pass of `_AcceptThread` that takes both indices or neither and uses no client
behind the last one. -/
def IOCPHandler.GivesBack (h : IOCPHandler) : HandlerEvent → Prop
  | .accept _ _ _ _ =>
    (h.mClientIndexPool = [] ↔ h.mNetworkContextIndexPool = []) ∧
      ∀ i ∈ h.mClientIndexPool.head?, i < clientCount
  | .completed _ _ => False
  | .failed _ => False
  | .disconnected _ => False

section Receives

variable {receives : List PendingReceive} {index : PendingReceive → ℕ} {k : ℕ}

@[simp] theorem length_inUse :
    (inUse index receives).length = (receives.filter fun r => !r.ended).length :=
  List.length_map _

theorem length_live_eraseIdx (hr : receives[k]? = some r) (hlive : r.ended = false) :
    (receives.filter fun r => !r.ended).length =
      ((receives.eraseIdx k).filter fun r => !r.ended).length + 1 := by
  have hperm : (inUse PendingReceive.client receives).Perm _ := inUse_perm hr
  have hlength := hperm.length_eq
  rwa [hlive, List.length_append, length_inUse, length_inUse] at hlength

end Receives

namespace Indices

variable {v w : Indices}

/-- The number of pooled contexts and of live connections is that of the contexts. -/
theorem Conserved.contexts_add (hv : v.Conserved) :
    v.contexts.length + (v.receives.filter fun r => !r.ended).length = contextCount := by
  have hlength := hv.contexts.length_add
  rwa [length_inUse, List.length_range'] at hlength

theorem Conserved.clients_add (hv : v.Conserved) :
    v.clients.length + (v.receives.filter fun r => !r.ended).length = clientCount := by
  have hlength := hv.clients.length_add
  rwa [length_inUse, List.length_range'] at hlength

end Indices

section Conserved

variable {registered noDelay nonBlocking : Bool} {k : ℕ}

/-- An index that is taken without the other one is lost. -/
theorem conserved_accept_iff (hs : h.Sound) (hv : h.indices.Conserved)
    (hstep : handlerStep memory h (.accept registered noDelay nonBlocking wsaRecv) = some t) :
    t.indices.Conserved ↔ h.GivesBack (.accept registered noDelay nonBlocking wsaRecv) := by
  have hcontexts := hv.contexts_add
  have hclients := hv.clients_add
  obtain ⟨-, ⟨hempty, hindices⟩ | ⟨c, cs, x, xs, hc, hx, hcases⟩⟩ :=
    IOCPHandler.accept_cases hs hstep
  · rw [hindices]
    constructor
    · intro ht
      have hclients' := ht.clients_add
      have hcontexts' := ht.contexts_add
      simp only [IOCPHandler.indices, List.length_tail] at hclients hcontexts hclients' hcontexts'
      have hboth : h.mClientIndexPool = [] ∧ h.mNetworkContextIndexPool = [] := by
        rw [← List.length_eq_zero_iff, ← List.length_eq_zero_iff]
        omega
      simp [IOCPHandler.GivesBack, hboth]
    · intro hback
      have hboth : h.mClientIndexPool = [] ∧ h.mNetworkContextIndexPool = [] := by
        rcases hempty with hnone | hnone
        · exact ⟨hnone, hback.1.mp hnone⟩
        · exact ⟨hback.1.mpr hnone, hnone⟩
      have hsame : h.indices = ⟨[], [], h.receives, h.overrun⟩ := by
        simp only [IOCPHandler.indices, hboth]
      rw [hsame] at hv
      rw [hboth.1, hboth.2]
      exact hv
  · have hall : Pools.Conserved (List.range' 1 clientCount) (c :: cs)
          (inUse PendingReceive.client h.receives) ∧
        Pools.Conserved (List.range' 0 contextCount) (x :: xs)
          (inUse PendingReceive.context h.receives) := by
      rw [← hc, ← hx]
      exact ⟨hv.clients, hv.contexts⟩
    have hmeets : h.GivesBack (.accept registered noDelay nonBlocking wsaRecv) ↔
        c < clientCount := by
      simp [IOCPHandler.GivesBack, hc, hx]
    rw [hmeets]
    obtain ⟨hout, hindices⟩ | ⟨hin, hindices⟩ | ⟨hin, hindices⟩ := hcases <;> rw [hindices]
    · exact iff_of_false (fun ht => Bool.noConfusion ht.inBounds) (by omega)
    · exact iff_of_true ⟨hv.inBounds, conserved_release.mpr hall.1, conserved_release.mpr hall.2⟩
        hin
    · refine iff_of_true ⟨hv.inBounds, ?_, ?_⟩ hin
      · rw [inUse_append]
        exact conserved_take.mpr hall.1
      · rw [inUse_append]
        exact conserved_take.mpr hall.2

/-- Where a receive is gone, the indices of its connection are in use no more, and not pooled. -/
theorem not_conserved_of_eraseIdx (hlive : ∀ r ∈ h.receives, r.ended = false)
    (hv : h.indices.Conserved) (hk : k < h.receives.length)
    (hindices : t.indices = ⟨h.mClientIndexPool, h.mNetworkContextIndexPool,
      h.receives.eraseIdx k, h.overrun⟩) : ¬t.indices.Conserved := by
  intro ht
  have hone := length_live_eraseIdx (List.getElem?_eq_getElem hk) (hlive _ (List.getElem_mem hk))
  have hcontexts := hv.contexts_add
  have hlost := ht.contexts_add
  rw [hindices] at hlost
  simp only [IOCPHandler.indices] at hcontexts hlost
  omega

end Conserved

/-- A step conserves the indices if and only if it meets the condition. -/
theorem conserved_step_iff (hs : h.Sound) (hlive : ∀ r ∈ h.receives, r.ended = false)
    (hv : h.indices.Conserved) (hstep : handlerStep memory h e = some t) :
    t.indices.Conserved ↔ h.GivesBack e := by
  cases e with
  | accept registered noDelay nonBlocking wsaRecv => exact conserved_accept_iff hs hv hstep
  | completed k bytes =>
    obtain ⟨-, hk, hindices⟩ := IOCPHandler.completed_indices hs hstep
    exact iff_of_false (not_conserved_of_eraseIdx hlive hv hk hindices) id
  | failed k =>
    obtain ⟨-, hk, hindices⟩ := IOCPHandler.failed_indices hs hstep
    exact iff_of_false (not_conserved_of_eraseIdx hlive hv hk hindices) id
  | disconnected i =>
    have hcontexts := hv.contexts_add
    have hclients := hv.clients_add
    rw [(IOCPHandler.disconnected_indices hs hstep).2]
    refine iff_of_false (fun ht => ?_) id
    have hlost := ht.contexts_add
    have htwice := ht.clients_add
    simp only [IOCPHandler.indices, List.length_append, List.length_cons, List.length_nil]
      at hclients hcontexts hlost htwice
    omega

theorem live_step (hs : h.Sound) (hlive : ∀ r ∈ h.receives, r.ended = false)
    (hback : h.GivesBack e) (hstep : handlerStep memory h e = some t) :
    ∀ r ∈ t.receives, r.ended = false := by
  change ∀ r ∈ t.indices.receives, r.ended = false
  cases e with
  | accept registered noDelay nonBlocking wsaRecv =>
    obtain ⟨-, ⟨-, hindices⟩ | ⟨c, cs, x, xs, -, -, hcases⟩⟩ := IOCPHandler.accept_cases hs hstep
    · rw [hindices]
      exact hlive
    · obtain ⟨-, hindices⟩ | ⟨-, hindices⟩ | ⟨-, hindices⟩ := hcases <;> rw [hindices]
      · exact hlive
      · exact hlive
      · exact List.forall_mem_append.mpr ⟨hlive, List.forall_mem_singleton.mpr rfl⟩
  | completed k bytes => exact hback.elim
  | failed k => exact hback.elim
  | disconnected i => exact hback.elim

theorem conserved_start (buffers : ℕ → Memory UInt8) :
    (IOCPHandler.start buffers).indices.Conserved := by
  refine ⟨rfl, ?_, ?_⟩
  · exact conserved_nil
  · simp only [IOCPHandler.indices, IOCPHandler.start]
    exact conserved_nil

/-- On every run the indices are conserved throughout if and only if no pass of `_AcceptThread`
finds one pool empty and the other not, or takes the index behind the last client, and no receive
completes, fails or is disconnected. -/
theorem conserved_iff_givesBack (memory : ContextMemory) (buffers : ℕ → Memory UInt8)
    (es : List HandlerEvent) (t : IOCPHandler)
    (hrun : run (handlerStep memory) (.start buffers) es = some t) :
    Throughout (handlerStep memory) (fun h => h.indices.Conserved) (.start buffers) es ↔
      Meets (handlerStep memory) IOCPHandler.GivesBack (.start buffers) es := by
  exact throughout_iff_meets_of
    (I := fun h => h.Sound ∧ ∀ r ∈ h.receives, r.ended = false)
    (fun _ _ _ hs _ hback hst => ⟨sound_step hs.1 hst, live_step hs.1 hs.2 hback hst⟩)
    (fun _ _ _ hs hv hst => conserved_step_iff hs.1 hs.2 hv hst)
    ⟨sound_start buffers, fun r hr => absurd hr List.not_mem_nil⟩
    (conserved_start buffers) hrun

/-- A connection is served, and another one, whose receive is refused, gives back its indices. -/
theorem conserved_two_connections :
    ∃ t, run (handlerStep ⟨4096, 0, rfl⟩) (.start fun _ _ => 0)
        [.accept true true true true, .accept true true true false] = some t ∧
      t.receives = [⟨1, 0, false⟩] ∧
      Throughout (handlerStep ⟨4096, 0, rfl⟩) (fun h => h.indices.Conserved) (.start fun _ _ => 0)
        [.accept true true true true, .accept true true true false] := by
  have hpools : ∀ t, handlerStep ⟨4096, 0, rfl⟩ (.start fun _ _ => 0)
      (.accept true true true true) = some t → t.mClientIndexPool ≠ [] ∧
        t.mNetworkContextIndexPool ≠ [] ∧ t.mClientIndexPool.head? = some 2 := by
    intro t ht
    obtain rfl := Option.some.inj ht
    exact ⟨List.cons_ne_nil _ _, List.cons_ne_nil _ _, rfl⟩
  refine ⟨_, rfl, rfl, (conserved_iff_givesBack _ _ _ _ rfl).mpr ⟨⟨?_, fun i hi => ?_⟩,
    fun t ht => ⟨⟨?_, fun i hi => ?_⟩, fun _ _ => trivial⟩⟩⟩
  · simp [IOCPHandler.start, clientCount, contextCount]
  · obtain rfl : 1 = i := Option.some.inj hi
    decide
  · exact iff_of_false (hpools t ht).1 (hpools t ht).2.1
  · obtain rfl : 2 = i := Option.some.inj ((hpools t ht).2.2.symm.trans hi)
    decide

/-- A connection is served and its receive fails: its context is in use by no connection, and not in
the pool. -/
theorem context_never_returned :
    ∃ t, run (handlerStep ⟨4096, 0, rfl⟩) (.start fun _ _ => 0)
        [.accept true true true true, .failed 0] = some t ∧
      t.live = [] ∧ t.mNetworkContextIndexPool.length = 999 ∧ ¬t.indices.Conserved := by
  obtain ⟨t, hrun, hpool, hreceives⟩ : ∃ t, run (handlerStep ⟨4096, 0, rfl⟩)
      (.start fun _ _ => 0) [.accept true true true true, .failed 0] = some t ∧
      t.mNetworkContextIndexPool = (List.range' 0 contextCount).tail ∧ t.receives = [] :=
    ⟨_, rfl, rfl, rfl⟩
  have hlength : t.mNetworkContextIndexPool.length = 999 := by
    rw [hpool, List.length_tail, List.length_range']
    rfl
  refine ⟨t, hrun, by rw [IOCPHandler.live, hreceives, List.filter_nil], hlength, fun hv => ?_⟩
  have hadd := hv.contexts_add
  simp only [IOCPHandler.indices, hlength, hreceives, List.filter_nil] at hadd
  exact absurd hadd (by decide)

end IocpStudy.SBServer
