import Mathlib.Data.List.Perm.Subperm
import IocpStudy.StudyServer.Echoes

/-! The outstanding calls of each client object.  A receive goes into the object's one receive
context and a send reads its one send context, so there should be one of each at most.  `Reset`
forgets them, and the pool gives the object to the next connection whether or not its old calls have
completed. -/

namespace IocpStudy.StudyServer

open Runs

namespace NetworkManager

/-- The objects of the outstanding receives. -/
def receiving (m : NetworkManager) : List ClientRef := m.recvs.map PendingRecv.client

/-- The objects of the outstanding sends. -/
def submitting (m : NetworkManager) : List ClientRef := m.sends.map PendingSend.client

/-- No object has two receives outstanding. -/
def OneReceive (m : NetworkManager) : Prop := m.receiving.Nodup

/-- No object has two sends outstanding. -/
def OneSend (m : NetworkManager) : Prop := m.submitting.Nodup

/-- An object that is reused for a connection whose first receive is accepted has no receive
outstanding. -/
def NoOldReceive (m : NetworkManager) : NetworkEvent → Prop
  | .accept now true true _ => ∀ o, m.reused now = some o → o ∉ m.receiving
  | _ => True

/-- An object that is reused has no send outstanding. -/
def NoOldSend (m : NetworkManager) : NetworkEvent → Prop
  | .accept now true _ _ => ∀ o, m.reused now = some o → o ∉ m.submitting
  | _ => True

variable {m t : NetworkManager} {e : NetworkEvent} {o : ClientRef}

/-! ### Lists of outstanding calls -/

theorem eraseIdx_subperm {α : Type} (l : List α) (i : ℕ) : (l.eraseIdx i).Subperm l :=
  (List.eraseIdx_sublist l i).subperm

/-- A call that completes and is made again. -/
theorem repost_subperm {α : Type} {l : List α} {i : ℕ} {x : α} (h : l[i]? = some x) :
    (l.eraseIdx i ++ [x]).Subperm l := by
  obtain ⟨hi, rfl⟩ := List.getElem?_eq_some_iff.mp h
  exact ((List.perm_append_singleton _ _).trans (List.getElem_cons_eraseIdx_perm hi)).subperm

theorem nodup_of_subperm {α : Type} {l l' : List α} (h : l.Subperm l') (hl : l'.Nodup) :
    l.Nodup := by
  obtain ⟨l'', hperm, hsublist⟩ := h
  exact hperm.nodup_iff.mp (hl.sublist hsublist)

/-! ### Receives -/

theorem removeClient_recvs (m : NetworkManager) (sessionID : UInt32) (now : ℕ) :
    (m.removeClient sessionID now).recvs = m.recvs ∧
      (m.removeClient sessionID now).sends = m.sends := by
  rcases removeClient_cases m sessionID now with ⟨-, heq⟩ | ⟨o, -, heq⟩
  · rw [heq]
    exact ⟨rfl, rfl⟩
  · rw [heq]
    exact ⟨rfl, rfl⟩

theorem processed_recvs (m : NetworkManager) (packet : Packet) (wsaSend : Bool) :
    (m.processed packet wsaSend).recvs = m.recvs := by
  rw [processed]
  split
  · rfl
  · rw [releasePackets, sendFunction, pushSendPacket]
    split_ifs
    · rfl
    · split
      · dsimp only
        split_ifs <;> rfl
      · rfl

/-- What `takeClient` leaves of the outstanding calls, and the object it took. -/
theorem takeClient_cases (m : NetworkManager) (now : ℕ) (h : m.takeClient now = (o, t)) :
    t.recvs = m.recvs ∧ t.sends = m.sends ∧
      (m.reused now = some o ∧ t.clients = m.clients ∧ t.created = m.created ∨
        m.reused now = none ∧ o = m.created ∧ t.created = m.created + 1 ∧
          t.clients = Function.update m.clients o .new) := by
  rw [takeClient] at h
  split at h
  · next o' hreused =>
    obtain ⟨rfl, rfl⟩ := Prod.mk.inj h
    exact ⟨rfl, rfl, Or.inl ⟨hreused, rfl, rfl⟩⟩
  · next hreused =>
    obtain ⟨rfl, rfl⟩ := Prod.mk.inj h
    exact ⟨rfl, rfl, Or.inr ⟨hreused, rfl, rfl, rfl⟩⟩

/-- A receive is posted for the object of an accepted connection, and otherwise only for one whose
receive has just completed. -/
theorem receiving_of_step (h : networkStep m e = some t) :
    (∃ now posted o u, e = .accept now true true posted ∧
      takeClient { m with accepted := m.accepted + 1, accepting := false } now = (o, u) ∧
      t.created = u.created ∧ t.receiving = m.receiving ++ [o]) ∨
    m.NoOldReceive e ∧ t.receiving.Subperm m.receiving := by
  have hkept : ∀ u : NetworkManager, u.recvs = m.recvs → u.receiving.Subperm m.receiving := by
    intro u hu
    rw [receiving, hu]
    exact List.Subperm.refl _
  have hdropped (i : ℕ) : ∀ u : NetworkManager, u.recvs = m.recvs.eraseIdx i →
      u.receiving.Subperm m.receiving := by
    intro u hu
    rw [receiving, hu, ← List.eraseIdx_map]
    exact eraseIdx_subperm _ i
  cases steps_of_networkStep h with
  | accept now accepted wsaRecv posted =>
    cases accepted with
    | false => exact Or.inr ⟨trivial, hkept _ rfl⟩
    | true =>
      rcases htake : takeClient { m with accepted := m.accepted + 1, accepting := false } now
        with ⟨o, u⟩
      obtain ⟨hrecvs, -⟩ := takeClient_cases _ now htake
      obtain ⟨context, ⟨rfl, heq⟩ | ⟨rfl, wsaBuf, sid, -, heq⟩⟩ :=
        handleAccept_served m now wsaRecv posted htake
      · rw [heq]
        exact Or.inr ⟨trivial, hkept _ hrecvs⟩
      · rw [heq]
        refine Or.inl ⟨now, posted, o, u, rfl, htake, rfl, ?_⟩
        rw [receiving, List.map_append, hrecvs]
        rfl
  | acceptFailed now => exact Or.inr ⟨trivial, hkept _ (removeClient_recvs _ _ _).1⟩
  | @arrive i recv bytes hget =>
    refine Or.inr ⟨trivial, ?_⟩
    rw [receiving, List.map_set]
    have hclient : (m.recvs.map PendingRecv.client)[i]? = some recv.client := by
      rw [List.getElem?_map, hget, Option.map_some]
    obtain ⟨hi, hclient⟩ := List.getElem?_eq_some_iff.mp hclient
    rw [← hclient, List.set_getElem_self]
    exact List.Subperm.refl _
  | @received i n recv wsaRecv hget hn =>
    refine Or.inr ⟨trivial, ?_⟩
    have hclient : m.receiving[i]? = some recv.client := by
      rw [receiving, List.getElem?_map, hget, Option.map_some]
    have hreceiving (posted : Option WsaBuf) (socket : Option Socket) :
        ((m.recvs.eraseIdx i ++ posted.toList.map fun wsaBuf =>
          (⟨recv.client, socket, wsaBuf, none⟩ : PendingRecv)).map PendingRecv.client).Subperm
          m.receiving := by
      rw [List.map_append, ← List.eraseIdx_map]
      cases posted with
      | none => exact List.append_nil _ ▸ eraseIdx_subperm _ i
      | some wsaBuf => exact repost_subperm hclient
    exact hreceiving _ _
  | @receiveFailed i recv now =>
    exact Or.inr ⟨trivial, hdropped i _ (removeClient_recvs _ _ _).1⟩
  | sent => exact Or.inr ⟨trivial, hkept _ rfl⟩
  | sendFailed => exact Or.inr ⟨trivial, hkept _ (removeClient_recvs _ _ _).1⟩
  | swap => exact Or.inr ⟨trivial, hkept _ rfl⟩
  | finished => exact Or.inr ⟨trivial, hkept _ rfl⟩
  | process => exact Or.inr ⟨trivial, hkept _ (processed_recvs _ _ _)⟩

theorem created_of_takeClient (hl : m.Listed) (now : ℕ) (h : m.takeClient now = (o, t)) :
    o < t.created := by
  obtain ⟨-, -, ⟨hreused, -, hcreated⟩ | ⟨-, rfl, hcreated, -⟩⟩ := takeClient_cases m now h
  · rw [hcreated]
    exact hl.created _ (hl.pooled _ (mem_pool_of_reused hreused))
  · rw [hcreated]
    exact Nat.lt_succ_self _

/-- The list is of objects that exist, and so are those with a receive outstanding. -/
structure Posted (m : NetworkManager) : Prop where
  listed : m.Listed
  created : ∀ o ∈ m.receiving, o < m.created

theorem posted_step (hs : m.Posted) (h : networkStep m e = some t) : t.Posted := by
  refine ⟨listed_step hs.listed h, fun o ho => ?_⟩
  have hle := created_le h
  rcases receiving_of_step h with ⟨now, posted, o', u, -, htake, hcreated, heq⟩ | ⟨-, hsub⟩
  · rw [heq] at ho
    rcases List.mem_append.mp ho with hold | hnew
    · exact (hs.created o hold).trans_le hle
    · obtain rfl := List.mem_singleton.mp hnew
      rw [hcreated]
      exact created_of_takeClient (m := { m with accepted := m.accepted + 1, accepting := false })
        ⟨hs.listed.pooled, hs.listed.created⟩ now htake
  · exact (hs.created o (hsub.subset ho)).trans_le hle

theorem oneReceive_step_iff (hs : m.Posted) (hone : m.OneReceive) (h : networkStep m e = some t) :
    t.OneReceive ↔ m.NoOldReceive e := by
  rcases receiving_of_step h with ⟨now, posted, o, u, rfl, htake, -, heq⟩ | ⟨hquiet, hsub⟩
  · have hiff : t.OneReceive ↔ o ∉ m.receiving := by
      rw [OneReceive, heq, List.nodup_append_comm, List.singleton_append, List.nodup_cons]
      exact and_iff_left hone
    rw [hiff]
    obtain ⟨-, -, ⟨hreused, -⟩ | ⟨hreused, rfl, -⟩⟩ := takeClient_cases _ now htake
    · refine ⟨fun ho o' ho' => ?_, fun h => h o hreused⟩
      obtain rfl := Option.some.inj (hreused.symm.trans ho')
      exact ho
    · refine ⟨fun _ o' ho' => ?_, fun _ ho => Nat.lt_irrefl _ (hs.created _ ho)⟩
      cases hreused.symm.trans ho'
  · exact ⟨fun _ => hquiet, fun _ => nodup_of_subperm hsub hone⟩

theorem posted_start (pool : MemoryPool Packet) :
    ({ mPacketPool := pool } : NetworkManager).Posted :=
  ⟨⟨fun _ ho => absurd ho List.not_mem_nil, fun _ ho => absurd ho List.not_mem_nil⟩,
    fun _ ho => absurd ho List.not_mem_nil⟩

end NetworkManager

/-- No object has two receives outstanding throughout a run exactly where none is reused for an
accepted connection while a receive of an earlier one is outstanding. -/
theorem oneReceive_iff_noOldReceive (pool : MemoryPool Packet) (es : List NetworkEvent)
    (m : NetworkManager) (h : run networkStep { mPacketPool := pool } es = some m) :
    Throughout networkStep NetworkManager.OneReceive { mPacketPool := pool } es ↔
      Meets networkStep NetworkManager.NoOldReceive { mPacketPool := pool } es :=
  throughout_iff_meets (fun _ _ _ hI hst => NetworkManager.posted_step hI hst)
    (fun _ _ _ hI hP hst => NetworkManager.oneReceive_step_iff hI hP hst)
    (NetworkManager.posted_start pool) List.nodup_nil h

/-- A connection whose response cannot be sent: its client is removed with its receive still
outstanding, and the next connection gets the object. -/
theorem two_receives_after_failed_send :
    ¬Throughout networkStep NetworkManager.OneReceive { mPacketPool := ⟨[]⟩ }
      ([.accept 10 true true true, .arrive 0 echoRequest, .received 0 true, .swap, .process true,
        .sendFailed 0 20] ++ [.accept 21 true true true]) := by
  intro hP
  have hmeets := (oneReceive_iff_noOldReceive ⟨[]⟩ _ _ rfl).mp hP
  obtain ⟨-, hlast⟩ := (meets_append rfl).mp hmeets
  exact hlast.1 0 rfl (List.mem_singleton.mpr rfl)

/-! ### Sends -/

theorem NetworkClient.send_mSending (c : NetworkClient) (wsaSend : Bool) :
    (c.send wsaSend).client.mSending = c.mSending := by
  rw [NetworkClient.send]
  split_ifs
  · split
    · rfl
    · dsimp only
      split <;> rfl
  · rfl

/-- `_HandleSend` leaves `mSending`, or it makes no call. -/
theorem NetworkClient.handleSend_mSending (c : NetworkClient) (n : ℕ) (wsaSend : Bool) :
    (c.handleSend n wsaSend).client.mSending = c.mSending ∨
      (c.handleSend n wsaSend).submitted = none := by
  rw [NetworkClient.handleSend, NetworkClient.handleSendRead]
  cases c.mSendContext.read n with
  | none => exact Or.inl rfl
  | some context =>
    simp only [Option.map_some, NetworkClient.handleSendFinish]
    split_ifs
    · exact Or.inl (NetworkClient.send_mSending _ _)
    · exact Or.inr rfl

namespace NetworkManager

variable {m t : NetworkManager} {e : NetworkEvent} {o : ClientRef}

/-- A connected object that does not have `mSending` set, which `PushSendPacket` may send for. -/
def Idle (m : NetworkManager) (o : ClientRef) : Prop :=
  (m.clients o).mIsConnected = true ∧ (m.clients o).mSending = false

/-- One send at most for each object, and none for an idle one. -/
structure OwnsSend (m : NetworkManager) : Prop where
  listed : m.Listed
  created : ∀ o ∈ m.submitting, o < m.created
  one : m.OneSend
  idle : ∀ o, m.Idle o → o ∉ m.submitting

/-- A step that makes a call at most for an object whose call has completed, after which an idle
object was idle before or has no call outstanding. -/
theorem OwnsSend.frame (hs : m.OwnsSend) (h : networkStep m e = some t)
    (hsub : t.submitting.Subperm m.submitting)
    (hidle : ∀ o, t.Idle o → m.Idle o ∨ o ∉ t.submitting) : t.OwnsSend := by
  refine ⟨listed_step hs.listed h, fun o ho => ?_, nodup_of_subperm hsub hs.one,
    fun o ho hmem => ?_⟩
  · exact (hs.created o (hsub.subset ho)).trans_le (created_le h)
  · rcases hidle o ho with hold | hnone
    · exact hs.idle o hold (hsub.subset hmem)
    · exact hnone hmem

section Clients

variable (m) (o) (c : NetworkClient) (result : SendResult) {o' : ClientRef}

theorem setClient_self : (m.setClient o c).clients o = c := Function.update_self _ _ _

theorem setClient_of_ne (h : o' ≠ o) : (m.setClient o c).clients o' = m.clients o' :=
  Function.update_of_ne h _ _

theorem called_self : (m.called o result).clients o = result.client := Function.update_self _ _ _

theorem called_of_ne (h : o' ≠ o) : (m.called o result).clients o' = m.clients o' :=
  Function.update_of_ne h _ _

end Clients

theorem submitted_subperm (l : List ClientRef) (o : ClientRef) (submitted : Option Submission) :
    (l ++ (submitted.toList.map fun sub => (⟨o, sub.wsaBuf⟩ : PendingSend)).map
      PendingSend.client).Subperm (l ++ [o]) := by
  cases submitted with
  | none =>
    rw [Option.toList_none, List.map_nil, List.map_nil, List.append_nil]
    exact (List.sublist_append_left l [o]).subperm
  | some sub => exact List.Subperm.refl _

/-- What a call of `PushSendPacket` does to the outstanding sends: no call of `Send`, or one for an
idle object, which is then idle no more. -/
inductive Pushes (m t : NetworkManager) : Prop
  | quiet (sends : t.sends = m.sends) (idle : ∀ o, t.Idle o → m.Idle o)
  | sends (o : ClientRef) (listed : some o ∈ m.mClientList) (idle : m.Idle o)
      (submitting : t.submitting.Subperm (m.submitting ++ [o])) (busy : ¬t.Idle o)
      (others : ∀ o', o' ≠ o → t.clients o' = m.clients o')

theorem pushes_pushSendPacket (m : NetworkManager) (sessionID : ℤ) (packet : Packet)
    (wsaSend : Bool) : m.Pushes (m.pushSendPacket sessionID packet wsaSend) := by
  have hrelease : m.Pushes (m.releasePackets [packet]) := .quiet rfl fun _ ho => ho
  rw [pushSendPacket]
  split_ifs
  · exact hrelease
  split
  · next o hentry =>
    dsimp only
    split_ifs with hconnected hsending
    · exact hrelease
    · refine .quiet rfl fun o' ho' => ?_
      by_cases ho : o' = o
      · subst ho
        rw [Idle, setClient_self, hsending] at ho'
        cases ho'.2
      · rw [Idle, setClient_of_ne _ _ _ ho] at ho'
        exact ho'
    · refine .sends o (List.mem_of_getElem? hentry)
        ⟨(Bool.not_eq_false _).mp hconnected, (Bool.not_eq_true _).mp hsending⟩ ?_ ?_ ?_
      · rw [submitting, called, List.map_append]
        exact submitted_subperm _ o _
      · rw [Idle, called_self, NetworkClient.send_mSending]
        exact fun h => Bool.true_eq_false.mp h.2
      · intro o' ho
        rw [called_of_ne _ _ _ ho, setClient_of_ne _ _ _ ho]
  · exact hrelease

theorem pushes_processed (m : NetworkManager) (packet : Packet) (wsaSend : Bool) :
    m.Pushes (m.processed packet wsaSend) := by
  rw [processed]
  split
  · exact .quiet rfl fun _ ho => ho
  · next sessionID response _ =>
    cases pushes_pushSendPacket { m with mPacketPool := (m.mPacketPool.acquire {}).2 } sessionID
      response wsaSend with
    | quiet sends idle => exact .quiet sends idle
    | sends o listed idle submitting busy others =>
      exact .sends o listed idle submitting busy others

/-- A failed completion makes no object idle. -/
theorem idle_removeClient {u : NetworkManager} {sessionID : UInt32} {now : ℕ}
    (h : (u.removeClient sessionID now).Idle o) (hclients : u.clients = m.clients) :
    m.Idle o := by
  rw [Idle, ← hclients]
  rcases removeClient_cases u sessionID now with ⟨-, heq⟩ | ⟨o', -, heq⟩
  · rw [heq] at h
    exact h
  · rw [heq, Idle] at h
    by_cases ho : o = o'
    · subst ho
      rw [setClient_self] at h
      cases h.1
    · rw [setClient_of_ne _ _ _ ho] at h
      exact h

/-- An object whose receive context alone changes stays idle or busy. -/
theorem idle_of_receiveContext {r : ClientRef} {context : NetworkContext}
    (hclients : t.clients = Function.update m.clients r
      { m.clients r with mReceiveContext := context }) (h : t.Idle o) : m.Idle o := by
  rw [Idle, hclients] at h
  by_cases ho : o = r
  · subst ho
    rw [Function.update_self] at h
    exact h
  · rw [Function.update_of_ne ho] at h
    exact h

/-- The object that is taken for an accepted connection has no send outstanding. -/
theorem OwnsSend.accept {now : ℕ} {wsaRecv posted : Bool} (hs : m.OwnsSend)
    (hC : m.NoOldSend (.accept now true wsaRecv posted))
    (h : networkStep m (.accept now true wsaRecv posted) = some t)
    (heq : t = m.handleAccept now true wsaRecv posted) : t.OwnsSend := by
  rcases htake : takeClient { m with accepted := m.accepted + 1, accepting := false } now
    with ⟨o, u⟩
  obtain ⟨-, hsends, hcase⟩ := takeClient_cases _ now htake
  have hnone : o ∉ m.submitting := by
    rcases hcase with ⟨hreused, -⟩ | ⟨-, rfl, -⟩
    · exact hC o hreused
    · exact fun hmem => Nat.lt_irrefl _ (hs.created _ hmem)
  have hothers : ∀ o', o' ≠ o → u.clients o' = m.clients o' := by
    intro o' ho
    rcases hcase with ⟨-, hclients, -⟩ | ⟨-, -, -, hclients⟩
    · rw [hclients]
    · rw [hclients, Function.update_of_ne ho]
  have ht : t.sends = m.sends ∧ ∃ c, t.clients = Function.update u.clients o c := by
    obtain ⟨context, ⟨-, hserved⟩ | ⟨-, wsaBuf, sid, -, hserved⟩⟩ :=
      handleAccept_served m now wsaRecv posted htake
    · rw [heq, hserved]
      exact ⟨hsends, _, rfl⟩
    · rw [heq, hserved]
      exact ⟨hsends, _, rfl⟩
  obtain ⟨hsends', c, hclients⟩ := ht
  have hsub : t.submitting = m.submitting := congrArg (List.map PendingSend.client) hsends'
  refine hs.frame h (hsub ▸ List.Subperm.refl _) fun o' ho' => ?_
  by_cases ho : o' = o
  · rw [ho, hsub]
    exact Or.inr hnone
  · rw [Idle, hclients, Function.update_of_ne ho, hothers o' ho] at ho'
    exact Or.inl ho'

/-- A completion may be followed by one more call of its own object, which then has `mSending`
set. -/
theorem OwnsSend.sent {i n : ℕ} {send : PendingSend} {ok wsaSend : Bool} (hs : m.OwnsSend)
    (hget : m.sends[i]? = some send) (h : networkStep m (.sent i n ok) = some t)
    (heq : t = called { m with sends := m.sends.eraseIdx i } send.client
      ((m.clients send.client).handleSend n wsaSend)) : t.OwnsSend := by
  have hclient : m.submitting[i]? = some send.client := by
    rw [submitting, List.getElem?_map, hget, Option.map_some]
  have hsub : t.submitting = m.submitting.eraseIdx i ++ (((m.clients send.client).handleSend n
      wsaSend).submitted.toList.map fun sub => (⟨send.client, sub.wsaBuf⟩ : PendingSend)).map
        PendingSend.client := by
    rw [heq, submitting, called, List.map_append]
    exact congrArg (· ++ _) (List.eraseIdx_map _ _ _).symm
  refine hs.frame h ?_ fun o ho => ?_
  · rw [hsub]
    exact (submitted_subperm _ _ _).trans (repost_subperm hclient)
  · by_cases hsame : o = send.client
    · subst hsame
      rw [Idle, heq, called_self, (NetworkClient.handleSend_same _ _ _).1] at ho
      rcases NetworkClient.handleSend_mSending (m.clients send.client) n wsaSend with hkept | hnone
      · exact Or.inl ⟨ho.1, hkept ▸ ho.2⟩
      · right
        rw [hsub, hnone, Option.toList_none, List.map_nil, List.map_nil, List.append_nil]
        obtain ⟨hi, hclient⟩ := List.getElem?_eq_some_iff.mp hclient
        have hperm := List.getElem_cons_eraseIdx_perm hi
        rw [hclient] at hperm
        exact (List.nodup_cons.mp (hperm.nodup_iff.mpr hs.one)).1
    · rw [Idle, heq, called_of_ne _ _ _ hsame] at ho
      exact Or.inl ho

/-- A call of `Send` for an idle object is its only one. -/
theorem OwnsSend.pushes (hs : m.OwnsSend) (h : networkStep m e = some t)
    (hidle : m.Idle o) (hlisted : some o ∈ m.mClientList)
    (hsub : t.submitting.Subperm (m.submitting ++ [o])) (hbusy : ¬t.Idle o)
    (hothers : ∀ o', o' ≠ o → t.clients o' = m.clients o') : t.OwnsSend := by
  have hnone := hs.idle o hidle
  refine ⟨listed_step hs.listed h, fun o' ho' => ?_, nodup_of_subperm hsub ?_,
    fun o' ho' hmem => ?_⟩
  · rcases List.mem_append.mp (hsub.subset ho') with hold | hnew
    · exact (hs.created o' hold).trans_le (created_le h)
    · rw [List.mem_singleton.mp hnew]
      exact (hs.listed.created o hlisted).trans_le (created_le h)
  · rw [List.nodup_append_comm, List.singleton_append]
    exact List.nodup_cons.mpr ⟨hnone, hs.one⟩
  · have hne : o' ≠ o := by
      rintro rfl
      exact hbusy ho'
    rw [Idle, hothers o' hne] at ho'
    rcases List.mem_append.mp (hsub.subset hmem) with hold | hnew
    · exact hs.idle o' ho' hold
    · exact hne (List.mem_singleton.mp hnew)

theorem ownsSend_step (hs : m.OwnsSend) (hC : m.NoOldSend e) (h : networkStep m e = some t) :
    t.OwnsSend := by
  have hsame : ∀ u : NetworkManager, u.sends = m.sends → u.submitting.Subperm m.submitting := by
    intro u hu
    rw [submitting, hu]
    exact List.Subperm.refl _
  cases steps_of_networkStep h with
  | accept now accepted wsaRecv posted =>
    cases accepted with
    | false => exact hs.frame h (hsame _ rfl) fun o ho => Or.inl ho
    | true => exact hs.accept hC h rfl
  | acceptFailed now =>
    exact hs.frame h (hsame _ (removeClient_recvs _ _ _).2) fun o ho =>
      Or.inl (idle_removeClient ho rfl)
  | @arrive i recv bytes =>
    exact hs.frame h (hsame _ rfl) fun o ho => Or.inl (idle_of_receiveContext rfl ho)
  | @received i n recv wsaRecv =>
    obtain ⟨context, hclient⟩ := (handleReceive_client (m.clients recv.client) m.mPacketPool n
      (m.allows recv.client wsaRecv) recv.socket).1
    refine hs.frame h (hsame _ rfl) fun o ho => Or.inl ?_
    exact idle_of_receiveContext (congrArg (Function.update m.clients recv.client) hclient) ho
  | @receiveFailed i recv now =>
    exact hs.frame h (hsame _ (removeClient_recvs _ _ _).2) fun o ho =>
      Or.inl (idle_removeClient ho rfl)
  | @sent i n send wsaSend hget => exact hs.sent hget h rfl
  | @sendFailed i send now =>
    have hsub : (removeClient { m with sends := m.sends.eraseIdx i }
        (m.clients send.client).mSessionID now).submitting.Subperm m.submitting := by
      rw [submitting, (removeClient_recvs _ _ _).2, ← List.eraseIdx_map]
      exact eraseIdx_subperm _ i
    exact hs.frame h hsub fun o ho => Or.inl (idle_removeClient ho rfl)
  | swap => exact hs.frame h (hsame _ rfl) fun o ho => Or.inl ho
  | finished => exact hs.frame h (hsame _ rfl) fun o ho => Or.inl ho
  | @process i packet wsaSend =>
    cases pushes_processed { m with dispatcher := (m.dispatcher.processNext i).1 } packet
      wsaSend with
    | quiet sends idle => exact hs.frame h (hsame _ sends) fun o ho => Or.inl (idle o ho)
    | sends o listed idle submitting busy others =>
      exact hs.pushes h idle listed submitting busy others

theorem ownsSend_start (pool : MemoryPool Packet) :
    ({ mPacketPool := pool } : NetworkManager).OwnsSend :=
  ⟨(posted_start pool).listed, fun _ ho => absurd ho List.not_mem_nil, List.nodup_nil,
    fun _ _ hmem => List.not_mem_nil hmem⟩

end NetworkManager

/-- On every run in which no object is reused while a send of an earlier connection is outstanding,
no object ever has two sends outstanding. -/
theorem oneSend_of_noOldSend (pool : MemoryPool Packet) (es : List NetworkEvent)
    (hC : Meets networkStep NetworkManager.NoOldSend { mPacketPool := pool } es) :
    Throughout networkStep NetworkManager.OneSend { mPacketPool := pool } es := by
  have hall : Throughout networkStep NetworkManager.OwnsSend { mPacketPool := pool } es :=
    throughout_of_meets (fun _ _ _ hI hC hst => NetworkManager.ownsSend_step hI hC hst)
      (NetworkManager.ownsSend_start pool) hC
  exact hall.mono fun _ hs => hs.one

/-- Two connections, one after the other, on the same object, and a response on the second. -/
theorem one_send_on_reuse : Throughout networkStep NetworkManager.OneSend { mPacketPool := ⟨[]⟩ }
    [.accept 10 true true true, .receiveFailed 0 20, .accept 21 true true true,
      .arrive 0 echoRequest, .received 0 true, .swap, .process true] := by
  refine oneSend_of_noOldSend ⟨[]⟩ _ ⟨fun _ ho => ?_, fun _ ht => ?_⟩
  · cases ho
  obtain rfl := Option.some.inj ht
  refine ⟨trivial, fun _ ht => ?_⟩
  obtain rfl := Option.some.inj ht
  refine ⟨fun _ _ => List.not_mem_nil, fun _ ht => ?_⟩
  obtain rfl := Option.some.inj ht
  refine ⟨trivial, fun _ ht => ?_⟩
  obtain rfl := Option.some.inj ht
  refine ⟨trivial, fun _ ht => ?_⟩
  obtain rfl := Option.some.inj ht
  refine ⟨trivial, fun _ ht => ?_⟩
  obtain rfl := Option.some.inj ht
  exact ⟨trivial, fun _ _ => trivial⟩

end IocpStudy.StudyServer
