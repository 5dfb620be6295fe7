import IocpStudy.Lib.Runs
import IocpStudy.SBServer.Server

/-! The windows of the receives.  A context is reset before its receive, which takes the storage
from its buffer, so every window that the handler offers is empty: whatever the clients send, no
byte is received.  Nor does `IOThread` look at what a receive brings, and no packet comes to the
queue. -/

namespace IocpStudy.SBServer

open Runs Words

/-- The handler, and the length of the window that each outstanding receive was posted with. -/
structure WindowState where
  handler : IOCPHandler
  windows : List ℕ := []

/-- The window that a receive into the context offers. -/
def IOCPHandler.window (h : IOCPHandler) (context : ℕ) : ℕ :=
  uint32OfInt (h.mNetworkContexts context).mBuffer.getRemainSize

/-- The windows of the receives that have not completed. -/
def WindowState.kept (s : WindowState) : HandlerEvent → List ℕ
  | .completed k _ | .failed k => s.windows.eraseIdx k
  | _ => s.windows

/-- A completion has no more bytes than the window of its receive. -/
def WindowState.Fits (s : WindowState) : HandlerEvent → Prop
  | .completed k bytes => ∀ len ∈ s.windows[k]?, bytes.length ≤ len
  | _ => True

instance (s : WindowState) (e : HandlerEvent) : Decidable (s.Fits e) :=
  match e with
  | .completed k bytes =>
    inferInstanceAs (Decidable (∀ len ∈ s.windows[k]?, bytes.length ≤ len))
  | .accept _ _ _ _ | .failed _ | .disconnected _ => inferInstanceAs (Decidable True)

/-- A step of the handler, in which a completion fits the window and a posted receive gets one. -/
def windowStep (memory : ContextMemory) (s : WindowState) (e : HandlerEvent) :
    Option WindowState :=
  if s.Fits e then
    (handlerStep memory s.handler e).map fun handler =>
      let posted := handler.receives.drop (s.kept e).length
      { handler, windows := s.kept e ++ posted.map fun r => handler.window r.context }
  else none

def WindowState.start (buffers : ℕ → Memory UInt8) : WindowState := { handler := .start buffers }

/-- A buffer without storage, which nothing has been written to. -/
structure Buffer.Bare (b : Buffer) : Prop where
  size : b.size = 0
  read : b.mReadPos = 0
  write : b.mWritePos = 0

def IOCPHandler.Bare (h : IOCPHandler) : Prop := ∀ k, (h.mNetworkContexts k).mBuffer.Bare

variable {memory : ContextMemory} {h t : IOCPHandler}

theorem bare_clear (b : Buffer) : b.clear.Bare := ⟨rfl, rfl, rfl⟩

theorem bare_start (buffers : ℕ → Memory UInt8) : (IOCPHandler.start buffers).Bare :=
  fun _ => bare_clear _

theorem window_of_bare (hb : h.Bare) (k : ℕ) : h.window k = 0 := by
  have hbuffer := hb k
  rw [IOCPHandler.window, Buffer.getRemainSize, hbuffer.size, hbuffer.write]
  rfl

/-- Each context is one of the old ones or has just been reset. -/
theorem bare_acceptThread (hb : h.Bare) (registered noDelay nonBlocking wsaRecv : Bool) :
    (h.acceptThread registered noDelay nonBlocking wsaRecv).Bare := by
  have hset (k : ℕ) (contextType : ContextType) : ∀ j, (Function.update h.mNetworkContexts k
      ((h.mNetworkContexts k).reset.setContextType contextType) j).mBuffer.Bare := by
    intro j
    rw [Function.update_apply]
    split_ifs
    · exact bare_clear _
    · exact hb j
  unfold IOCPHandler.acceptThread
  dsimp only
  split
  · split_ifs
    · exact hb
    · exact hb
    · split <;> exact hset _ _
  · exact hb

/-- What the operating system stores makes no room. -/
theorem bare_completed (hb : h.Bare) {k : ℕ} {bytes : List UInt8}
    (hstep : handlerStep memory h (.completed k bytes) = some t) : t.Bare := by
  obtain ⟨r, -, rfl⟩ := completed_eq hstep
  intro j
  change (Function.update h.mNetworkContexts r.context _ j).mBuffer.Bare
  rw [Function.update_apply]
  split_ifs
  · exact ⟨(hb r.context).size, (hb r.context).read, (hb r.context).write⟩
  · exact hb j

theorem receives_acceptThread (registered noDelay nonBlocking wsaRecv : Bool) :
    h.receives <+: (h.acceptThread registered noDelay nonBlocking wsaRecv).receives := by
  unfold IOCPHandler.acceptThread
  dsimp only
  split
  · split_ifs
    · exact List.prefix_refl _
    · exact List.prefix_refl _
    · split
      · exact List.prefix_append _ _
      · exact List.prefix_refl _
  · exact List.prefix_refl _

/-- Nothing is received, and what was offered is empty. -/
structure WindowState.Silent (s : WindowState) : Prop where
  bare : s.handler.Bare
  windows : ∀ len ∈ s.windows, len = 0
  aligned : s.windows.length = s.handler.receives.length
  queue : s.handler.mPacketQueue = []

variable {s u : WindowState} {e : HandlerEvent} {es : List HandlerEvent}

/-- Receives that are posted behind those that are left get windows of their own. -/
theorem silent_of_kept (hbare : t.Bare) (hqueue : t.mPacketQueue = []) {kept : List ℕ}
    (hkept : ∀ len ∈ kept, len = 0) (hle : kept.length ≤ t.receives.length) :
    WindowState.Silent ⟨t, kept ++ (t.receives.drop kept.length).map fun r =>
      t.window r.context⟩ := by
  refine ⟨hbare, fun len hlen => ?_, ?_, hqueue⟩
  · rcases List.mem_append.mp hlen with hmem | hmem
    · exact hkept len hmem
    · obtain ⟨r, -, rfl⟩ := List.mem_map.mp hmem
      exact window_of_bare hbare _
  · rw [List.length_append, List.length_map, List.length_drop]
    exact Nat.add_sub_cancel' hle

/-- A completion that fits its window has no bytes. -/
theorem bytes_of_fits (hs : s.Silent) {k : ℕ} {bytes : List UInt8} {r : PendingReceive}
    (hfits : s.Fits (.completed k bytes))
    (hr : s.handler.receives[k]? = some r) : bytes = [] := by
  have hlt : k < s.windows.length := by
    rw [hs.aligned]
    exact (List.getElem?_eq_some_iff.mp hr).1
  have hget : s.windows[k]? = some s.windows[k] := List.getElem?_eq_getElem hlt
  have hle : bytes.length ≤ s.windows[k] := hfits _ hget
  rw [hs.windows _ (List.getElem_mem hlt)] at hle
  exact List.length_eq_zero_iff.mp (Nat.le_zero.mp hle)

theorem length_eraseIdx_windows (hs : s.Silent) (k : ℕ) :
    (s.windows.eraseIdx k).length = (s.handler.receives.eraseIdx k).length := by
  rw [List.length_eraseIdx, List.length_eraseIdx, hs.aligned]

theorem handler_step (hs : s.Silent) (hstep : handlerStep memory s.handler e = some t) :
    t.Bare ∧ (s.kept e).length ≤ t.receives.length := by
  cases e with
  | accept registered noDelay nonBlocking wsaRecv =>
    obtain ⟨-, hstep⟩ := Option.ite_none_left_eq_some.mp hstep
    obtain rfl := Option.some.inj hstep
    refine ⟨bare_acceptThread hs.bare _ _ _ _, ?_⟩
    change s.windows.length ≤ _
    rw [hs.aligned]
    exact (receives_acceptThread _ _ _ _).length_le
  | completed k bytes =>
    refine ⟨bare_completed hs.bare hstep, ?_⟩
    obtain ⟨r, -, rfl⟩ := completed_eq hstep
    rw [WindowState.kept, length_eraseIdx_windows hs]
  | failed k =>
    obtain ⟨-, hstep⟩ := Option.ite_none_left_eq_some.mp hstep
    obtain rfl := Option.some.inj hstep
    refine ⟨hs.bare, ?_⟩
    rw [WindowState.kept, length_eraseIdx_windows hs]
  | disconnected i =>
    obtain ⟨-, hstep⟩ := Option.ite_none_left_eq_some.mp hstep
    obtain rfl := Option.some.inj hstep
    refine ⟨hs.bare, ?_⟩
    change s.windows.length ≤ _
    rw [hs.aligned, IOCPHandler.disconnect]
    exact (List.length_map _).ge

theorem kept_windows (hs : s.Silent) (e : HandlerEvent) : ∀ len ∈ s.kept e, len = 0 := by
  cases e with
  | completed | failed => exact fun len hlen => hs.windows len (List.mem_of_mem_eraseIdx hlen)
  | accept | disconnected => exact hs.windows

theorem silent_step (hs : s.Silent) (hstep : windowStep memory s e = some u) : u.Silent := by
  obtain ⟨-, hstep⟩ := Option.ite_none_right_eq_some.mp hstep
  obtain ⟨handler, hhandler, rfl⟩ := Option.map_eq_some_iff.mp hstep
  obtain ⟨hbare, hle⟩ := handler_step hs hhandler
  have hqueue := (mPacketQueue_step hhandler).trans hs.queue
  exact silent_of_kept hbare hqueue (kept_windows hs e) hle

theorem silent_start (buffers : ℕ → Memory UInt8) : (WindowState.start buffers).Silent :=
  ⟨bare_start buffers, fun _ hlen => absurd hlen List.not_mem_nil, rfl, rfl⟩

/-- A completion without bytes. -/
def HandlerEvent.NoBytes (e : HandlerEvent) : Prop :=
  ∀ k bytes, e = .completed k bytes → bytes = []

theorem noBytes_of_step (hs : s.Silent) (hstep : windowStep memory s e = some u) :
    e.NoBytes := by
  rintro k bytes rfl
  obtain ⟨hfits, hstep⟩ := Option.ite_none_right_eq_some.mp hstep
  obtain ⟨handler, hhandler, -⟩ := Option.map_eq_some_iff.mp hstep
  cases hr : s.handler.receives[k]? with
  | none => simp [handlerStep, hr] at hhandler
  | some r => exact bytes_of_fits hs hfits hr

theorem silent_run (hs : s.Silent) (h : run (windowStep memory) s es = some u) :
    u.Silent ∧ ∀ e ∈ es, e.NoBytes := by
  induction es generalizing s with
  | nil =>
    obtain rfl := Option.some.inj h
    exact ⟨hs, fun e he => absurd he List.not_mem_nil⟩
  | cons e es ih =>
    obtain ⟨v, hv, hrun⟩ := run_cons_eq_some.mp h
    obtain ⟨hu, hrest⟩ := ih (silent_step hs hv) hrun
    exact ⟨hu, List.forall_mem_cons.mpr ⟨noBytes_of_step hs hv, hrest⟩⟩

/-- In every run from the start of the handler, each outstanding receive has a window of length 0,
no completion has a byte, and no packet is queued. -/
theorem nothing_received (memory : ContextMemory) (buffers : ℕ → Memory UInt8)
    (es : List HandlerEvent) (s : WindowState)
    (h : run (windowStep memory) (.start buffers) es = some s) :
    s.windows.length = s.handler.receives.length ∧ (∀ len ∈ s.windows, len = 0) ∧
      (∀ e ∈ es, e.NoBytes) ∧ s.handler.mPacketQueue = [] := by
  obtain ⟨hsilent, hbytes⟩ := silent_run (silent_start buffers) h
  exact ⟨hsilent.aligned, hsilent.windows, hbytes, hsilent.queue⟩

/-- Two clients are accepted, and the receive of the first one completes without a byte. -/
theorem nothing_received_empty :
    ∃ s, run (windowStep ⟨4096, 0, rfl⟩) (.start fun _ _ => 0)
        [.accept true true true true, .accept true true true true, .completed 0 []] = some s ∧
      s.windows = [0] ∧ s.windows.length = s.handler.receives.length ∧
      (∀ len ∈ s.windows, len = 0) ∧
      (∀ e ∈ ([.accept true true true true, .accept true true true true, .completed 0 []] :
        List HandlerEvent), e.NoBytes) ∧
      s.handler.mPacketQueue = [] :=
  ⟨_, rfl, rfl, nothing_received ⟨4096, 0, rfl⟩ (fun _ _ => 0)
    [.accept true true true true, .accept true true true true, .completed 0 []] _ rfl⟩

end IocpStudy.SBServer
