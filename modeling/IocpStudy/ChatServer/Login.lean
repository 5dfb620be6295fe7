import IocpStudy.ChatServer.SystemEvents

/-! The answers to login requests.  `ProcessLogin` reads the map of user IDs and the count of users,
and nothing ever adds to them: no user is found under any ID, and the answer for a user that is not
found is the one for a user that is logged in already. -/

namespace IocpStudy.ChatServer

open Runs

/-- The string at `UserID` in the bytes of a `LOGIN_REQUEST_PACKET`. -/
def loginUserID (bytes : List UInt8) : List UInt8 := (bytes.drop 5).takeWhile (· ≠ 0)

/-- A packet that `ProcessLogin` answers. -/
def PacketInfo.IsLogin (p : PacketInfo) : Prop :=
  p.PacketID = loginRequest ∧ p.DataSize = loginRequestPacketSize ∧ p.pPacketData ≠ none

/-- An answer that `ProcessLogin` sent, with the clients and user IDs that were logged in before. -/
structure LoginAnswer where
  clientIndex : ℕ
  userID : List UInt8
  Result : ErrorCode
  loggedIn : List (ℕ × List UInt8) := []
deriving Repr, DecidableEq

/-- `loggedIn` has the clients that were answered `NONE` and are not disconnected yet. -/
structure LoginState where
  events : EventState
  loggedIn : List (ℕ × List UInt8) := []
  answers : List LoginAnswer := []

/-- The call of `ProcessRecvPacket` that the process thread makes in its next step, if that is a
call. -/
def EventState.nextCall (s : EventState) : Option RecvCall :=
  match s.point with
  | .userPacket packetData =>
    if sysEnd < packetData.PacketID then some (s.mPacketManager.processRecvPacket packetData).2
    else none
  | .systemPacket packetData =>
    if packetData.PacketID ≤ sysEnd then some (s.mPacketManager.processRecvPacket packetData).2
    else none
  | _ => none

namespace LoginState

def userManager (s : LoginState) : UserManager := s.events.mPacketManager.mUserManager

/-- What a call of `ProcessRecvPacket` adds to the record. -/
def handled (s : LoginState) (call : RecvCall) : LoginState :=
  let clientIndex := call.packetData.ClientIndex
  match call.response with
  | some response =>
    let userID := loginUserID call.bytes
    { s with
      loggedIn :=
        if response.Result = .NONE then s.loggedIn ++ [(clientIndex, userID)] else s.loggedIn
      answers := s.answers ++ [⟨clientIndex, userID, response.Result, s.loggedIn⟩] }
  | none =>
    if call.packetData.PacketID = sysUserDisconnect then
      { s with loggedIn := s.loggedIn.filter (·.1 ≠ clientIndex) }
    else s

end LoginState

def loginStep (s : LoginState) (e : ManagerEvent) : Option LoginState :=
  (eventStep s.events e).map fun events =>
    match e with
    | .process => s.events.nextCall.elim { s with events } { s with events }.handled
    | _ => { s with events }

/-- The answer is `NONE` exactly where there is room for another user and the user ID is not logged
in, and else the one for the reason. -/
structure LoginAnswer.Lawful (maxUserCount : ℤ) (a : LoginAnswer) : Prop where
  none_iff : a.Result = .NONE ↔
    (a.loggedIn.length : ℤ) < maxUserCount ∧ ∀ u ∈ a.loggedIn, u.2 ≠ a.userID
  already : (a.loggedIn.length : ℤ) < maxUserCount → (∃ u ∈ a.loggedIn, u.2 = a.userID) →
    a.Result = .LOGIN_USER_ALREADY
  full : maxUserCount ≤ a.loggedIn.length → (∀ u ∈ a.loggedIn, u.2 ≠ a.userID) →
    a.Result = .LOGIN_USER_USED_ALL_OBJ

/-- Every answer so far was lawful, and a user ID is held by the client that is logged in with it
and by no other. -/
structure LoginState.Lawful (s : LoginState) : Prop where
  answers : ∀ a ∈ s.answers, a.Lawful s.userManager.mMaxUserCount
  held : ∀ u ∈ s.loggedIn, s.userManager.findUserIndexByID u.2 = u.1 ∧
    (s.userManager.getUserByConnectionIndex u.1).mDomainState = .LOGIN
  released : ∀ userID, (∀ u ∈ s.loggedIn, u.2 ≠ userID) →
    s.userManager.findUserIndexByID userID = -1
  left : ∀ i, (s.userManager.getUserByConnectionIndex i).mDomainState = .LOGIN →
    ∃ u ∈ s.loggedIn, u.1 = i

/-- A login request is handled only where the server has no room for another user. -/
def LoginState.HandlesFull (s : LoginState) : ManagerEvent → Prop
  | .process => ∀ p, s.events.point = .userPacket p → p.IsLogin →
    s.userManager.mMaxUserCount ≤ s.userManager.mCurrentUserCount
  | _ => True

/-! ### No user is ever added -/

/-- No user is logged in, and `maxUserCount` may be. -/
structure PacketManager.Idle (maxUserCount : ℤ) (m : PacketManager) : Prop where
  mMaxUserCount : m.mUserManager.mMaxUserCount = maxUserCount
  mCurrentUserCount : m.mUserManager.mCurrentUserCount = 0
  mUserIDMap : m.mUserManager.mUserIDMap = []
  mDomainState : ∀ i, (m.user i).mDomainState = .NONE

theorem User.mDomainState_setPacketData (u : User) (pData : List UInt8) :
    (u.setPacketData pData).mDomainState = u.mDomainState := by
  rw [User.setPacketData]
  split_ifs <;> rfl

theorem User.mDomainState_getPacket (u : User) : u.getPacket.2.mDomainState = u.mDomainState := by
  rw [User.getPacket]
  simp only
  split_ifs <;> rfl

namespace PacketManager

variable {m : PacketManager} {p : PacketInfo} {maxUserCount : ℤ} {u : User}

theorem Idle.setUser (h : m.Idle maxUserCount) (i : ℕ) (hu : u.mDomainState = .NONE) :
    (m.setUser i u).Idle maxUserCount := by
  refine ⟨h.mMaxUserCount, h.mCurrentUserCount, h.mUserIDMap, fun j => ?_⟩
  rw [user_setUser]
  split_ifs
  · exact hu
  · exact h.mDomainState j

theorem Idle.dequeuePacket (h : m.Idle maxUserCount) : m.dequeuePacket.2.Idle maxUserCount := by
  rw [PacketManager.dequeuePacket]
  split
  · exact h
  · rename_i i rest _
    have hrest : ({ m with mIncomingPacketUserIndex := rest } : PacketManager).Idle maxUserCount :=
      ⟨h.mMaxUserCount, h.mCurrentUserCount, h.mUserIDMap, h.mDomainState⟩
    exact hrest.setUser i ((User.mDomainState_getPacket _).trans (h.mDomainState i))

theorem Idle.dequeueSystemPacket (h : m.Idle maxUserCount) :
    m.dequeueSystemPacket.2.Idle maxUserCount := by
  rw [PacketManager.dequeueSystemPacket]
  split
  · exact h
  · exact ⟨h.mMaxUserCount, h.mCurrentUserCount, h.mUserIDMap, h.mDomainState⟩

theorem Idle.processRecvPacket (h : m.Idle maxUserCount) (p : PacketInfo) :
    (m.processRecvPacket p).1.Idle maxUserCount := by
  rw [(processRecvPacket_dispatch m p).1]
  split
  · exact h.setUser _ rfl
  · exact h.setUser _ rfl
  · exact h

/-- What `ProcessLogin` answers. -/
theorem Idle.processLogin (h : m.Idle maxUserCount) (hp : p.IsLogin) (bytes : List UInt8) :
    ∃ response, m.processLogin p bytes = some response ∧
      response.Result = if maxUserCount ≤ 0 then .LOGIN_USER_USED_ALL_OBJ
        else .LOGIN_USER_ALREADY := by
  have hanswers : ¬(loginRequestPacketSize ≠ p.DataSize ∨ p.pPacketData = none) := by
    rw [not_or, not_not]
    exact ⟨hp.2.1.symm, hp.2.2⟩
  have hnotfound (userID : List UInt8) : m.mUserManager.findUserIndexByID userID = -1 := by
    rw [UserManager.findUserIndexByID, h.mUserIDMap]
    rfl
  rw [PacketManager.processLogin, if_neg hanswers, h.mMaxUserCount, h.mCurrentUserCount]
  simp only [hnotfound, ne_eq, not_true_eq_false, if_false]
  split_ifs <;> exact ⟨_, rfl, rfl⟩

end PacketManager

/-! ### The steps -/

variable {s t : LoginState} {e : ManagerEvent} {es : List ManagerEvent} {p : PacketInfo}
  {call : RecvCall} {maxUserCount : ℤ}

theorem nextCall_of_login {s : EventState} (h : s.mPacketManager.Idle maxUserCount)
    (hpoint : s.point = .userPacket p) (hp : p.IsLogin) :
    ∃ call response, s.nextCall = some call ∧ call.response = some response ∧
      response.Result = if maxUserCount ≤ 0 then .LOGIN_USER_USED_ALL_OBJ
        else .LOGIN_USER_ALREADY := by
  have hid : sysEnd < p.PacketID := by
    rw [hp.1]
    decide
  have hhandler : mRecvPacketHandlerMap p.PacketID = some .ProcessLogin := by
    rw [hp.1]
    rfl
  obtain ⟨response, hresponse, hresult⟩ :=
    h.processLogin hp ((s.mPacketManager.user p.ClientIndex).packetData p)
  refine ⟨_, response, by simp only [EventState.nextCall, hpoint, if_pos hid]; rfl, ?_, hresult⟩
  rw [(processRecvPacket_dispatch _ p).2, hhandler]
  exact hresponse

theorem response_of_other (m : PacketManager) (hp : ¬p.IsLogin) :
    (m.processRecvPacket p).2.response = none := by
  rw [(processRecvPacket_dispatch m p).2]
  split
  · rename_i hhandler
    have hid : p.PacketID = loginRequest := by
      unfold mRecvPacketHandlerMap at hhandler
      split_ifs at hhandler with hconnect hdisconnect hlogin
      · cases hhandler
      · cases hhandler
      · exact hlogin
    have hrefused : loginRequestPacketSize ≠ p.DataSize ∨ p.pPacketData = none := by
      by_contra hanswers
      rw [not_or, not_not] at hanswers
      exact hp ⟨hid, hanswers.1.symm, hanswers.2⟩
    rw [PacketManager.processLogin, if_pos hrefused]
  · rfl

theorem nextCall_of_other {s : EventState} (hother : ∀ p, s.point = .userPacket p → ¬p.IsLogin)
    (hcall : s.nextCall = some call) : call.response = none := by
  cases hpoint : s.point with
  | user => simp [EventState.nextCall, hpoint] at hcall
  | system => simp [EventState.nextCall, hpoint] at hcall
  | userPacket p =>
    simp only [EventState.nextCall, hpoint] at hcall
    split_ifs at hcall
    obtain rfl := Option.some.inj hcall
    exact response_of_other _ (hother p hpoint)
  | systemPacket p =>
    simp only [EventState.nextCall, hpoint] at hcall
    split_ifs at hcall with hid
    obtain rfl := Option.some.inj hcall
    refine response_of_other _ fun hp => ?_
    rw [hp.1] at hid
    exact absurd hid (by decide)

/-- No user is logged in, and none is recorded as logged in. -/
structure LoginState.Idle (maxUserCount : ℤ) (s : LoginState) : Prop where
  manager : s.events.mPacketManager.Idle maxUserCount
  loggedIn : s.loggedIn = []

theorem idle_process {s : EventState} (h : s.mPacketManager.Idle maxUserCount) :
    s.process.mPacketManager.Idle maxUserCount := by
  cases hpoint : s.point with
  | user =>
    simp only [EventState.process, hpoint]
    exact h.dequeuePacket
  | userPacket p =>
    simp only [EventState.process, hpoint]
    split_ifs
    · exact h.processRecvPacket p
    · exact h
  | system =>
    simp only [EventState.process, hpoint]
    exact h.dequeueSystemPacket
  | systemPacket p =>
    simp only [EventState.process, hpoint]
    split_ifs
    · exact h.processRecvPacket p
    · exact h

theorem idle_eventStep {s t : EventState} (h : s.mPacketManager.Idle maxUserCount)
    (hst : eventStep s e = some t) : t.mPacketManager.Idle maxUserCount := by
  cases e with
  | setPacketData clientIndex pData =>
    obtain rfl := Option.some.inj hst
    exact h.setUser clientIndex
      ((User.mDomainState_setPacketData _ pData).trans (h.mDomainState clientIndex))
  | enqueuePacket clientIndex =>
    obtain rfl := Option.some.inj hst
    exact ⟨h.mMaxUserCount, h.mCurrentUserCount, h.mUserIDMap, h.mDomainState⟩
  | enqueueSystemPacket event =>
    obtain rfl := Option.some.inj hst
    exact ⟨h.mMaxUserCount, h.mCurrentUserCount, h.mUserIDMap, h.mDomainState⟩
  | process =>
    obtain rfl := Option.some.inj hst
    exact idle_process h

theorem handled_of_response {response : LoginResponsePacket} (h : call.response = some response)
    (hresult : response.Result ≠ .NONE) :
    s.handled call = { s with answers := s.answers ++ [⟨call.packetData.ClientIndex,
      loginUserID call.bytes, response.Result, s.loggedIn⟩] } := by
  simp only [LoginState.handled, h, if_neg hresult]

theorem handled_of_none (h : call.response = none) (hloggedIn : s.loggedIn = []) :
    s.handled call = s := by
  simp only [LoginState.handled, h, hloggedIn, List.filter_nil]
  split_ifs
  · rw [← hloggedIn]
  · rfl

/-- A step that handles a login request answers it, whatever the user ID is, and any other step
answers nothing. -/
theorem loginStep_cases (hs : s.Idle maxUserCount) (h : loginStep s e = some t) :
    t.Idle maxUserCount ∧
      ((e = .process ∧ ∃ p, s.events.point = .userPacket p ∧ p.IsLogin ∧
          ∃ clientIndex userID, t.answers = s.answers ++ [⟨clientIndex, userID,
            if maxUserCount ≤ 0 then .LOGIN_USER_USED_ALL_OBJ else .LOGIN_USER_ALREADY, []⟩]) ∨
        ((e = .process → ∀ p, s.events.point = .userPacket p → ¬p.IsLogin) ∧
          t.answers = s.answers)) := by
  rw [loginStep, Option.map_eq_some_iff] at h
  obtain ⟨events, hevents, rfl⟩ := h
  have hidle := idle_eventStep hs.manager hevents
  cases e with
  | setPacketData clientIndex pData =>
    exact ⟨⟨hidle, hs.loggedIn⟩, Or.inr ⟨nofun, rfl⟩⟩
  | enqueuePacket clientIndex =>
    exact ⟨⟨hidle, hs.loggedIn⟩, Or.inr ⟨nofun, rfl⟩⟩
  | enqueueSystemPacket event =>
    exact ⟨⟨hidle, hs.loggedIn⟩, Or.inr ⟨nofun, rfl⟩⟩
  | process =>
    by_cases hlogin : ∃ p, s.events.point = .userPacket p ∧ p.IsLogin
    · obtain ⟨p, hpoint, hp⟩ := hlogin
      obtain ⟨call, response, hcall, hresponse, hresult⟩ := nextCall_of_login hs.manager hpoint hp
      have hnone : response.Result ≠ .NONE := by
        rw [hresult]
        split_ifs <;> decide
      simp only [hcall, Option.elim_some, handled_of_response hresponse hnone]
      refine ⟨⟨hidle, hs.loggedIn⟩, Or.inl ⟨trivial, p, hpoint, hp, call.packetData.ClientIndex,
        loginUserID call.bytes, ?_⟩⟩
      rw [hresult, hs.loggedIn]
    · have hother : ∀ p, s.events.point = .userPacket p → ¬p.IsLogin :=
        fun p hpoint hp => hlogin ⟨p, hpoint, hp⟩
      cases hcall : s.events.nextCall with
      | none => exact ⟨⟨hidle, hs.loggedIn⟩, Or.inr ⟨fun _ => hother, rfl⟩⟩
      | some call =>
        have hsame := handled_of_none (s := { s with events }) (nextCall_of_other hother hcall)
          hs.loggedIn
        simp only [Option.elim_some, hsame]
        exact ⟨⟨hidle, hs.loggedIn⟩, Or.inr ⟨fun _ => hother, trivial⟩⟩

/-- The answers that `ProcessLogin` gives are lawful on a server for no users only. -/
theorem lawful_answer_iff (clientIndex : ℕ) (userID : List UInt8) :
    LoginAnswer.Lawful maxUserCount ⟨clientIndex, userID,
      if maxUserCount ≤ 0 then .LOGIN_USER_USED_ALL_OBJ else .LOGIN_USER_ALREADY, []⟩ ↔
      maxUserCount ≤ 0 := by
  by_cases hmax : maxUserCount ≤ 0
  · simp only [if_pos hmax]
    refine ⟨fun _ => hmax, fun _ => ⟨?_, fun h => absurd h (by simpa using hmax), fun _ _ => rfl⟩⟩
    simpa using hmax
  · simp only [if_neg hmax]
    refine ⟨fun h => ?_, fun h => absurd h hmax⟩
    have hnone := h.none_iff.mpr ⟨by simpa using hmax, by simp⟩
    cases hnone

/-- While no user is logged in, lawful means lawful answers. -/
theorem LoginState.Idle.lawful_iff (hs : s.Idle maxUserCount) :
    s.Lawful ↔ ∀ a ∈ s.answers, a.Lawful maxUserCount := by
  refine ⟨fun h => hs.manager.mMaxUserCount ▸ h.answers, fun h => ?_⟩
  refine ⟨hs.manager.mMaxUserCount.symm ▸ h, ?_, fun userID _ => ?_, fun i hi => ?_⟩
  · simp [hs.loggedIn]
  · rw [userManager, UserManager.findUserIndexByID, hs.manager.mUserIDMap]
    rfl
  · have hnone : (s.userManager.getUserByConnectionIndex i).mDomainState = .NONE :=
      hs.manager.mDomainState i
    rw [hnone] at hi
    cases hi

theorem lawful_step_iff (hs : s.Idle maxUserCount) (hP : s.Lawful) (h : loginStep s e = some t) :
    t.Lawful ↔ s.HandlesFull e := by
  obtain ⟨ht, hcase⟩ := loginStep_cases hs h
  rw [ht.lawful_iff]
  rw [hs.lawful_iff] at hP
  rcases hcase with ⟨rfl, p, hpoint, hp, clientIndex, userID, hanswers⟩ | ⟨hother, hanswers⟩
  · have hfull : s.HandlesFull .process ↔ maxUserCount ≤ 0 := by
      simp only [LoginState.HandlesFull, LoginState.userManager, hs.manager.mMaxUserCount,
        hs.manager.mCurrentUserCount]
      exact ⟨fun h => h p hpoint hp, fun h _ _ _ => h⟩
    rw [hanswers, List.forall_mem_append, List.forall_mem_singleton, lawful_answer_iff, hfull]
    exact and_iff_right hP
  · rw [hanswers]
    refine ⟨fun _ => ?_, fun _ => hP⟩
    cases e with
    | process => exact fun p hpoint hp => absurd hp (hother rfl p hpoint)
    | _ => trivial

/-- The server for `maxClient` clients before its first event. -/
def LoginState.start (maxClient : ℤ) (buffers : ℕ → Memory UInt8) : LoginState :=
  { events := { mPacketManager := .start maxClient buffers } }

/-- The login law holds throughout a run exactly where no login request is handled while there is
room for another user. -/
theorem lawful_iff_handlesFull (maxClient : ℤ) (buffers : ℕ → Memory UInt8)
    (es : List ManagerEvent) :
    Throughout loginStep LoginState.Lawful (.start maxClient buffers) es ↔
      Meets loginStep LoginState.HandlesFull (.start maxClient buffers) es := by
  have hgoes : ∀ s e, ∃ t, loginStep s e = some t := fun _ e => by cases e <;> exact ⟨_, rfl⟩
  obtain ⟨s, hs⟩ := exists_run hgoes (.start maxClient buffers) es
  have hidle : (LoginState.start maxClient buffers).Idle maxClient :=
    ⟨⟨rfl, rfl, rfl, fun _ => rfl⟩, rfl⟩
  exact throughout_iff_meets (I := LoginState.Idle maxClient)
    (fun _ _ _ hs hst => (loginStep_cases hs hst).1)
    (fun _ _ _ hs hP hst => lawful_step_iff hs hP hst) hidle
    (hidle.lawful_iff.mpr (by simp [LoginState.start])) hs

/-- A login request for the user ID `a`. -/
def loginPacket : List UInt8 := [71, 0, 201, 0, 0, 97] ++ List.replicate 65 0

/-- The first user of a server for one is told that it is logged in already. -/
theorem first_login_refused :
    ∃ s, run loginStep (.start 1 fun _ _ => 0)
        [.setPacketData 0 loginPacket, .enqueuePacket 0, .process, .process] = some s ∧
      s.answers = [⟨0, [97], .LOGIN_USER_ALREADY, []⟩] ∧ ¬s.Lawful := by
  refine ⟨_, rfl, by decide, fun h => ?_⟩
  have hlawful : LoginAnswer.Lawful 1 ⟨0, [97], .LOGIN_USER_ALREADY, []⟩ :=
    h.answers _ (List.mem_singleton.mpr rfl)
  cases hlawful.none_iff.mpr ⟨by decide, by simp⟩

end IocpStudy.ChatServer
