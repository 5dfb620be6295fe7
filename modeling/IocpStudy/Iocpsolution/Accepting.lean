import IocpStudy.Iocpsolution.Silence

/-! The `AcceptEx` of a client, on the client's one `mAcceptContext`.  The acceptor thread takes a
client for free when it has no socket.  `CloseSocket` does not ask whether the client is connected,
so an operation of the connection before that fails late closes the socket that is being accepted,
and the client looks free while its `AcceptEx` is outstanding. -/

namespace IocpStudy.Iocpsolution

open Runs

/-- The client's only `AcceptEx` is outstanding, on its socket, and the client is not connected. -/
structure NetworkClient.Accepting (c : NetworkClient) : Prop where
  one : c.accepts = 1
  socket : c.isConnected = true
  idle : c.mIsConnect = false

/-- A client that is connected has a socket. -/
def NetworkClient.Opened (c : NetworkClient) : Prop := c.mIsConnect = true → c.isConnected = true

namespace IOCPServer

/-- An `AcceptEx` that is outstanding is the only one of its client, and on its socket. -/
def AcceptsAlone (s : IOCPServer) : Prop :=
  ∀ i, (s.mClientInfos i).accepts ≠ 0 → (s.mClientInfos i).Accepting

/-- A receive or a send that fails, or has no bytes, is of a client that has no `AcceptEx`
outstanding. -/
def SparesAccept (s : IOCPServer) : ServerEvent → Prop
  | .postAccept _ _ _ _ => True
  | .sendMsg _ _ _ => True
  | .completion c _ _ =>
    c.m_eOperation ≠ .ACCEPT → c.bSuccess = false ∨ c.dwIoSize = 0 →
      (s.mClientInfos c.mSessionIndex).accepts = 0

def ClientsOpened (s : IOCPServer) : Prop := ∀ i, (s.mClientInfos i).Opened

end IOCPServer

variable {s t : IOCPServer} {e : ServerEvent} {c : NetworkClient}

/-- The two clients are the same to the acceptor thread. -/
structure NetworkClient.SameAccept (c c' : NetworkClient) : Prop where
  accepts : c'.accepts = c.accepts
  socket : c'.mSocket = c.mSocket
  connect : c'.mIsConnect = c.mIsConnect

theorem NetworkClient.SameAccept.opened {c' : NetworkClient} (h : c.SameAccept c')
    (hc : c.Opened) : c'.Opened := by
  rw [Opened, h.connect, isConnected, h.socket]
  exact hc

theorem NetworkClient.SameAccept.accepting {c' : NetworkClient} (h : c.SameAccept c')
    (hc : c.accepts ≠ 0 → c.Accepting) (hne : c'.accepts ≠ 0) : c'.Accepting := by
  rw [h.accepts] at hne
  constructor
  · rw [h.accepts, (hc hne).one]
  · rw [isConnected, h.socket]
    exact (hc hne).socket
  · rw [h.connect, (hc hne).idle]

/-- An accept is posted for a client that has no socket, and so none outstanding. -/
theorem postAccept_accepting {wsaSocket : Option Socket} {acceptEx : Bool}
    (hc : c.accepts ≠ 0 → c.Accepting) (hopened : c.Opened) (hclosed : c.isConnected = false) :
    (c.postAccept wsaSocket acceptEx).Opened ∧
      ((c.postAccept wsaSocket acceptEx).accepts ≠ 0 →
        (c.postAccept wsaSocket acceptEx).Accepting) := by
  have hidle : c.mIsConnect = false := by
    rw [Bool.eq_false_iff]
    exact fun h => Bool.false_ne_true (hclosed.symm.trans (hopened h))
  have hnone : c.accepts = 0 := by
    by_contra hne
    exact Bool.false_ne_true (hclosed.symm.trans (hc hne).socket)
  rw [NetworkClient.postAccept]
  split_ifs with hallows
  · rw [NetworkClient.allows, Bool.and_eq_true] at hallows
    exact ⟨fun _ => hallows.2, fun _ => ⟨by rw [hnone], hallows.2, hidle⟩⟩
  · exact ⟨fun h => absurd (h.symm.trans hidle) (by decide), fun hne => absurd hnone hne⟩

/-- A step changes one client, and leaves its `AcceptEx` alone exactly where it spares it. -/
theorem client_accepts (halone : s.AcceptsAlone) (hopened : s.ClientsOpened)
    (h : serverStep s e = some t) :
    ∃ i c', t.mClientInfos = Function.update s.mClientInfos i c' ∧ c'.Opened ∧
      ((c'.accepts ≠ 0 → c'.Accepting) ↔ s.SparesAccept e) := by
  cases e with
  | postAccept i curTimeSec wsaSocket acceptEx =>
    simp only [serverStep] at h
    by_cases hskips : s.skips i curTimeSec = true
    · rw [if_pos hskips] at h
      obtain rfl := Option.some.inj h
      exact ⟨i, _, (Function.update_eq_self _ _).symm, hopened i, iff_of_true (halone i) trivial⟩
    · rw [if_neg hskips] at h
      obtain rfl := Option.some.inj h
      have hclosed : (s.mClientInfos i).isConnected = false := by
        simp only [IOCPServer.skips, Bool.or_eq_true, not_or, Bool.not_eq_true] at hskips
        exact hskips.1.1
      obtain ⟨hposted, haccepting⟩ := postAccept_accepting (halone i) (hopened i) hclosed
      exact ⟨i, _, rfl, hposted, iff_of_true haccepting trivial⟩
  | sendMsg i pMsg wsaSend =>
    obtain rfl := Option.some.inj h
    have hsame : (s.mClientInfos i).SameAccept ((s.mClientInfos i).sendMsg pMsg wsaSend) :=
      ⟨rfl, rfl, rfl⟩
    exact ⟨i, _, rfl, hsame.opened (hopened i), iff_of_true (hsame.accepting (halone i)) trivial⟩
  | completion c k outcomes =>
    obtain ⟨client, hdequeued, hhandled⟩ := handled_of_completion h
    obtain ⟨hsocket, -⟩ := dequeued_cases hdequeued
    obtain ⟨hconnect, -, haccept, hother⟩ := dequeued_frame hdequeued
    cases hhandled with
    | closed hoperation hfails =>
      refine ⟨_, _, rfl, fun h => absurd h Bool.false_ne_true, ?_⟩
      have hclosed : ¬(client.close outcomes.now).Accepting :=
        fun h => Bool.false_ne_true h.socket
      have hsame : (client.close outcomes.now).accepts = (s.mClientInfos c.mSessionIndex).accepts :=
        hother hoperation
      rw [imp_iff_not hclosed, not_not, hsame]
      exact ⟨fun hnone _ _ => hnone, fun hspares => hspares hoperation hfails⟩
    | accepted hoperation hsuccess =>
      obtain ⟨hsome, hfewer⟩ := haccept hoperation
      obtain ⟨c', hclients, -, -, haccepts, hc', -⟩ := acceptCase_client
        (s.setClient c.mSessionIndex client) c.mSessionIndex 0 outcomes.connectRecv
        outcomes.wsaRecv outcomes.now
      simp only [IOCPServer.setClient, Function.update_idem] at hclients
      simp only [IOCPServer.setClient, Function.update_self] at haccepts
      rw [hfewer, (halone _ hsome).one] at haccepts
      exact ⟨_, c', hclients, hc', iff_of_true (fun hne => absurd haccepts hne)
        fun hne => absurd hoperation hne⟩
    | received hoperation hsuccess hsize =>
      have hsame : (s.mClientInfos c.mSessionIndex).SameAccept
          (client.bindRecv outcomes.wsaRecv).1 :=
        ⟨hother (by rw [hoperation]; decide), hsocket, hconnect⟩
      refine ⟨_, _, rfl, hsame.opened (hopened _), iff_of_true (hsame.accepting (halone _)) ?_⟩
      rintro - (hfailed | hzero)
      · exact absurd (hfailed.symm.trans hsuccess) Bool.false_ne_true
      · exact absurd hzero hsize
    | @sent r hoperation hsuccess hsize =>
      have hsame : (s.mClientInfos c.mSessionIndex).SameAccept { client with
          sends := client.sends.left r (client.allows outcomes.wsaSend) } :=
        ⟨hother (by rw [hoperation]; decide), hsocket, hconnect⟩
      refine ⟨_, _, rfl, hsame.opened (hopened _), iff_of_true (hsame.accepting (halone _)) ?_⟩
      rintro - (hfailed | hzero)
      · exact absurd (hfailed.symm.trans hsuccess) Bool.false_ne_true
      · exact absurd hzero hsize

/-- On exactly the runs in which no receive or send fails while an `AcceptEx` of its client is
outstanding, every `AcceptEx` is alone on its context, on the socket of a client that is not
connected. -/
theorem acceptsAlone_iff (es : List ServerEvent) (s : IOCPServer)
    (h : run serverStep {} es = some s) :
    Throughout serverStep IOCPServer.AcceptsAlone {} es ↔
      Meets serverStep IOCPServer.SparesAccept {} es := by
  refine throughout_iff_meets_of (I := IOCPServer.ClientsOpened) ?_ ?_ (fun _ => nofun)
    (fun _ hne => absurd rfl hne) h
  · intro s e t hopened halone _ hst
    obtain ⟨i, c', hclients, hc', -⟩ := client_accepts halone hopened hst
    rw [IOCPServer.ClientsOpened, hclients]
    exact IOCPServer.forall_update hc' hopened
  · intro s e t hopened halone hst
    obtain ⟨i, c', hclients, -, hspares⟩ := client_accepts halone hopened hst
    rw [IOCPServer.AcceptsAlone, hclients, ← hspares]
    exact IOCPServer.forall_update_iff (P := fun c => c.accepts ≠ 0 → c.Accepting) halone

/-- The second receive of the first connection fails while the client is being accepted again. -/
theorem not_acceptsAlone_late_failure :
    ¬Throughout serverStep IOCPServer.AcceptsAlone {} [.postAccept 0 10 true true,
        .completion ⟨.ACCEPT, 0, true, 0⟩ 0 {}, .completion ⟨.RECV, 0, false, 0⟩ 0 { now := 20 },
        .postAccept 0 30 true true, .completion ⟨.RECV, 0, false, 0⟩ 0 { now := 31 }] := by
  intro h
  have hmeets := (acceptsAlone_iff _ _ rfl).mp h
  have hspares := (((hmeets.2 _ rfl).2 _ rfl).2 _ rfl).2 _ rfl
  exact absurd (hspares.1 (by decide) (Or.inl rfl)) (by decide)

end IocpStudy.Iocpsolution
