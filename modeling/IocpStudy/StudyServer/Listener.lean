import IocpStudy.StudyServer.ClientList

/-! The listener, which has one `AcceptEx` outstanding as long as `_HandleAccept` comes to its end.
Its early returns do not call `PostAccept`, and neither does `RemoveClient`, which is where a failed
accept goes. -/

namespace IocpStudy.StudyServer

open Runs

/-- `PostAccept` succeeds if it is called. -/
def NetworkEvent.Posts : NetworkEvent → Prop
  | .accept _ _ _ posted => posted = true
  | _ => True

/-- An accept completes without an error, and so do `Accept` and the first `WSARecv` for its
connection. -/
def NetworkEvent.Accepts : NetworkEvent → Prop
  | .accept _ accepted wsaRecv _ => accepted = true ∧ wsaRecv = true
  | .acceptFailed _ => False
  | _ => True

/-- The objects of the pool are in the pool or in the list after the step, also the one that is
taken for a connection. -/
def NetworkManager.KeepsObjects (m : NetworkManager) (_ : NetworkEvent) (t : NetworkManager) :
    Prop :=
  ∀ o ∈ m.mClientPool, o ∈ t.mClientPool ∨ some o ∈ t.mClientList

namespace NetworkManager

variable {m t : NetworkManager} {e : NetworkEvent}

/-! ### The outstanding accept -/

/-- The accept is posted again where `_HandleAccept` comes to its end. -/
theorem handleAccept_accepting (m : NetworkManager) (now : ℕ) (accepted wsaRecv posted : Bool) :
    (m.handleAccept now accepted wsaRecv posted).accepting =
      (accepted && wsaRecv && posted) := by
  cases accepted with
  | false => rfl
  | true =>
    obtain ⟨-, -, -, -, -, -, -, -, haccepting, -⟩ := handleAccept_cases m now wsaRecv posted
    rw [haccepting, Bool.true_and]

theorem removeClient_accepting (m : NetworkManager) (sessionID : UInt32) (now : ℕ) :
    (m.removeClient sessionID now).accepting = m.accepting := by
  rcases removeClient_cases m sessionID now with ⟨-, heq⟩ | ⟨o, -, heq⟩
  · rw [heq]
  · rw [heq]
    rfl

theorem pushSendPacket_accepting (m : NetworkManager) (sessionID : ℤ) (packet : Packet)
    (wsaSend : Bool) : (m.pushSendPacket sessionID packet wsaSend).accepting = m.accepting := by
  rw [pushSendPacket]
  split_ifs
  · rfl
  split
  · simp only
    split_ifs <;> rfl
  · rfl

theorem processed_accepting (m : NetworkManager) (packet : Packet) (wsaSend : Bool) :
    (m.processed packet wsaSend).accepting = m.accepting := by
  rw [processed]
  split
  · rfl
  · exact pushSendPacket_accepting _ _ _ _

theorem accepting_step_iff (hs : m.accepting = true) (h : networkStep m e = some t) :
    t.accepting = true ↔ e.Posts ∧ e.Accepts := by
  cases steps_of_networkStep h with
  | accept now accepted wsaRecv posted =>
    rw [handleAccept_accepting, Bool.and_eq_true, Bool.and_eq_true]
    exact and_comm
  | acceptFailed now =>
    rw [removeClient_accepting]
    exact ⟨fun h => absurd h Bool.false_ne_true, fun h => h.2.elim⟩
  | arrive => exact iff_of_true hs ⟨trivial, trivial⟩
  | received => exact iff_of_true hs ⟨trivial, trivial⟩
  | receiveFailed =>
    rw [removeClient_accepting]
    exact iff_of_true hs ⟨trivial, trivial⟩
  | sent => exact iff_of_true hs ⟨trivial, trivial⟩
  | sendFailed =>
    rw [removeClient_accepting]
    exact iff_of_true hs ⟨trivial, trivial⟩
  | swap => exact iff_of_true hs ⟨trivial, trivial⟩
  | finished => exact iff_of_true hs ⟨trivial, trivial⟩
  | process =>
    rw [processed_accepting]
    exact iff_of_true hs ⟨trivial, trivial⟩

/-! ### The objects of the pool -/

/-- Nothing is ever taken out of the list. -/
theorem mClientList_grows (h : networkStep m e = some t) : m.mClientList <+: t.mClientList := by
  rcases networkStep_cases h with
    ⟨now, wsaRecv, posted, -, rfl⟩ | ⟨u, sessionID, now, hsame, -, rfl⟩ | ⟨hsame, -⟩
  · obtain ⟨o, t, c, htake, -, -, -, -, -, hcase⟩ := handleAccept_cases m now wsaRecv posted
    have hlist : t.mClientList = m.mClientList :=
      (congrArg (fun r => r.2.mClientList) htake).trans (takeClient_mClientList _ now)
    rcases hcase with ⟨-, -, heq⟩ | ⟨-, -, heq⟩
    · rw [heq, hlist]
    · rw [heq, hlist]
      exact List.prefix_append _ _
  · rw [← hsame.mClientList]
    rcases removeClient_cases u sessionID now with ⟨-, heq⟩ | ⟨o, -, heq⟩
    · rw [heq]
    · rw [heq]
      exact List.prefix_refl _
  · rw [hsame.mClientList]

theorem keepsObjects_step (hl : m.Listed) (h : networkStep m e = some t) : m.KeepsObjects e t :=
  fun o ho => Or.inr ((mClientList_grows h).subset (hl.pooled o ho))

end NetworkManager

/-- While `PostAccept` succeeds, one accept is outstanding after each completion of a run exactly
where none fails and every connection is accepted and received from; and no object of the pool is
ever lost. -/
theorem accepting_iff (pool : MemoryPool Packet) (es : List NetworkEvent) (m : NetworkManager)
    (h : run networkStep { mPacketPool := pool } es = some m) (hposts : ∀ e ∈ es, e.Posts) :
    (Throughout networkStep (fun m => m.accepting = true) { mPacketPool := pool } es ↔
      ∀ e ∈ es, e.Accepts) ∧
    EachStep networkStep NetworkManager.KeepsObjects { mPacketPool := pool } es := by
  constructor
  · have hiff : Throughout networkStep (fun m => m.accepting = true) { mPacketPool := pool } es ↔
        Meets networkStep (fun _ e => e.Posts ∧ e.Accepts) { mPacketPool := pool } es :=
      throughout_iff_meets (I := fun _ => True) (fun _ _ _ _ _ => trivial)
        (fun _ _ _ _ hs hst => NetworkManager.accepting_step_iff hs hst) trivial rfl h
    rw [hiff, meets_events_iff h]
    exact ⟨fun hall e he => (hall e he).2, fun hall e he => ⟨hposts e he, hall e he⟩⟩
  · have hlisted : ({ mPacketPool := pool } : NetworkManager).Listed := ⟨by simp, by simp⟩
    exact eachStep_of_meets (C := fun _ _ => True)
      (fun _ _ _ hl _ hst => NetworkManager.listed_step hl hst)
      (fun _ _ _ hl _ hst => NetworkManager.keepsObjects_step hl hst) hlisted
      ((meets_events_iff h).mpr fun _ _ => trivial)

/-- A connection that is closed and one that follows it. -/
theorem accepting_two_connections :
    Throughout networkStep (fun m => m.accepting = true) { mPacketPool := ⟨[]⟩ }
      [.accept 10 true true true, .receiveFailed 0 20, .accept 21 true true true] := by
  refine ((accepting_iff ⟨[]⟩ _ _ rfl ?_).1).mpr ?_
  · simp [NetworkEvent.Posts]
  · simp [NetworkEvent.Accepts]

/-- The peer of a connection resets it at once, and `WSARecv` fails; or the accept itself does: no
accept is outstanding any more. -/
theorem stops_accepting :
    (∃ m, run networkStep { mPacketPool := ⟨[]⟩ } [.accept 10 true false true] = some m ∧
      m.accepting = false) ∧
    ∃ m, run networkStep { mPacketPool := ⟨[]⟩ } [.acceptFailed 10] = some m ∧
      m.accepting = false :=
  ⟨⟨_, rfl, rfl⟩, ⟨_, rfl, rfl⟩⟩

end IocpStudy.StudyServer
