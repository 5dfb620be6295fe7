import IocpStudy.Lib.FrameReader
import IocpStudy.ChatServer.Framing
import IocpStudy.ChatServer.Login
import IocpStudy.ChatServer.UserBuffer

/-! The blocks that ChatServer sends, read by the rule that it reads its clients' frames with.  A
`LOGIN_RESPONSE_PACKET` goes out with the length and the ID of a `LOGIN_REQUEST_PACKET`, and with a
byte that nothing has set. -/

namespace IocpStudy.ChatServer

open Words Runs FrameReader

/-- `PACKET_ID::LOGIN_RESPONSE`. -/
def loginResponse : UInt16 := 202

def ErrorCode.code : ErrorCode → UInt32
  | .NONE => 0
  | .LOGIN_USER_ALREADY => 31
  | .LOGIN_USER_USED_ALL_OBJ => 32

/-- The bytes of a response that `ProcessLogin` passes to `SendPacketFunc`.  `stack` is what the
packet has in the member `Type`, which is not written. -/
def LoginResponsePacket.bytes (p : LoginResponsePacket) (stack : UInt8) : List UInt8 :=
  bytesOfU16 p.PacketLength ++ (bytesOfU16 p.PacketID ++ stack :: bytesOfU32 p.Result.code)

/-- The length of the frame that starts with these bytes, as `GetPacket` reads it. -/
def frameLengthOf (bs : List UInt8) : ℕ := (readU16 bs).toNat

/-- The server and the blocks that it has sent, each with the client it was sent to. -/
structure ResponseState where
  events : EventState
  sent : List (ℕ × List UInt8) := []

/-- The block that the next step of the process thread sends, if it sends one. -/
def EventState.answer (s : EventState) (stack : UInt8) : List (ℕ × List UInt8) :=
  s.nextCall.toList.flatMap fun call =>
    call.response.toList.map fun response => (call.packetData.ClientIndex, response.bytes stack)

/-- The stack of the process thread holds `stack n` where the packet of answer number `n` is. -/
def responseStep (stack : ℕ → UInt8) (s : ResponseState) (e : ManagerEvent) :
    Option ResponseState :=
  (eventStep s.events e).map fun events =>
    match e with
    | .process => { events, sent := s.sent ++ s.events.answer (stack s.sent.length) }
    | _ => { s with events }

namespace ResponseState

/-- The server for `maxClient` clients before its first event. -/
def start (maxClient : ℤ) (buffers : ℕ → Memory UInt8) : ResponseState :=
  { events := { mPacketManager := .start maxClient buffers } }

/-- The blocks sent to a client. -/
def blocks (s : ResponseState) (clientIndex : ℕ) : List (List UInt8) :=
  (s.sent.filter (·.1 = clientIndex)).map Prod.snd

end ResponseState

/-- Each client reads back the blocks sent to it, whatever chunks it receives them in, every block
has the ID of a login response, and none depends on what was on the stack. -/
structure ResponsesDecode (maxClient : ℤ) (buffers : ℕ → Memory UInt8)
    (es : List ManagerEvent) : Prop where
  readsBack : ∀ stack s, run (responseStep stack) (.start maxClient buffers) es = some s →
    ∀ i, ReadsBack 2 frameLengthOf (s.blocks i)
  packetID : ∀ stack s, run (responseStep stack) (.start maxClient buffers) es = some s →
    ∀ i, ∀ block ∈ s.blocks i, readU16 (block.drop 2) = loginResponse
  determined : ∀ stack stack' s s',
    run (responseStep stack) (.start maxClient buffers) es = some s →
    run (responseStep stack') (.start maxClient buffers) es = some s' → s'.sent = s.sent

/-- The process thread has no login request to answer. -/
def EventState.AnswersNone (s : EventState) : ManagerEvent → Prop
  | .process => ∀ p, s.point = .userPacket p → ¬p.IsLogin
  | _ => True

/-! ### The reader and `GetPacket` -/

variable {u : User}

/-- `GetPacket` takes the frame that the reader finds at the front of the unread bytes. -/
theorem getPacket_reads (hu : u.Ordered) :
    (front 2 frameLengthOf u.unread = none → u.getPacket = ({}, u)) ∧
      ∀ n, front 2 frameLengthOf u.unread = some n →
        u.getPacket.2.packetData u.getPacket.1 = u.unread.take n ∧
        u.getPacket.2.unread = u.unread.drop n := by
  constructor
  · intro hnone
    refine User.getPacket_of_short hu ?_
    rw [front] at hnone
    split_ifs at hnone with hshort
    exact hshort
  · intro n hn
    rw [front] at hn
    split_ifs at hn with hshort
    obtain rfl := Option.some.inj hn
    rw [not_or, Nat.not_lt, Nat.not_lt] at hshort
    have hframe : u.HoldsFrame := ⟨hshort.1, hshort.2⟩
    exact ⟨User.packetData_getPacket hu hframe, User.unread_getPacket hu hframe⟩

theorem inHeader_frameLengthOf : InHeader 2 frameLengthOf := fun bs cs h => by
  rw [frameLengthOf, readU16_take h]
  rfl

/-! ### The blocks of a run -/

variable {stack stack' : ℕ → UInt8} {s t : ResponseState} {e : ManagerEvent}
  {es : List ManagerEvent} {p : PacketInfo} {response : LoginResponsePacket} {block : List UInt8}
  {clientIndex : ℕ}

theorem processLogin_of_isLogin (m : PacketManager) (hp : p.IsLogin) (bytes : List UInt8) :
    ∃ result, m.processLogin p bytes = some ⟨loginRequestPacketSize, loginRequest, result⟩ := by
  have hanswers : ¬(loginRequestPacketSize ≠ p.DataSize ∨ p.pPacketData = none) := by
    rw [not_or, not_not]
    exact ⟨hp.2.1.symm, hp.2.2⟩
  rw [PacketManager.processLogin, if_neg hanswers]
  simp only
  split_ifs <;> exact ⟨_, rfl⟩

/-- A block sent to a client: a response with the length and the ID of a request. -/
def IsAnswer (stack : UInt8) (block : List UInt8) : Prop :=
  ∃ result : ErrorCode,
    block = LoginResponsePacket.bytes ⟨loginRequestPacketSize, loginRequest, result⟩ stack

theorem answer_of_login {s : EventState} (hpoint : s.point = .userPacket p) (hp : p.IsLogin)
    (stack : UInt8) : ∃ block, s.answer stack = [(p.ClientIndex, block)] ∧
      IsAnswer stack block := by
  have hid : sysEnd < p.PacketID := by
    rw [hp.1]
    decide
  have hhandler : mRecvPacketHandlerMap p.PacketID = some .ProcessLogin := by
    rw [hp.1]
    rfl
  obtain ⟨result, hresult⟩ := processLogin_of_isLogin s.mPacketManager hp
    ((s.mPacketManager.user p.ClientIndex).packetData p)
  have hresponse := (processRecvPacket_dispatch s.mPacketManager p).2
  rw [hhandler] at hresponse
  refine ⟨_, ?_, result, rfl⟩
  simp only [EventState.answer, EventState.nextCall, hpoint, if_pos hid, Option.toList_some,
    List.flatMap_singleton, hresponse.trans hresult, List.map_cons, List.map_nil]
  rw [(PacketManager.processRecvPacket_of_user hid).2.1]

theorem answer_of_other {s : EventState} (hother : ∀ p, s.point = .userPacket p → ¬p.IsLogin)
    (stack : UInt8) : s.answer stack = [] := by
  rw [EventState.answer]
  cases hcall : s.nextCall with
  | none => rfl
  | some call =>
    simp [nextCall_of_other hother hcall]

/-- A step sends one block, where it answers a login request, or none. -/
theorem responseStep_cases (h : responseStep stack s e = some t) :
    eventStep s.events e = some t.events ∧
      ((s.events.AnswersNone e ∧ t.sent = s.sent) ∨
        (¬s.events.AnswersNone e ∧ ∃ clientIndex block, t.sent = s.sent ++ [(clientIndex, block)] ∧
          IsAnswer (stack s.sent.length) block)) := by
  rw [responseStep, Option.map_eq_some_iff] at h
  obtain ⟨events, hevents, rfl⟩ := h
  cases e with
  | setPacketData clientIndex pData => exact ⟨hevents, Or.inl ⟨trivial, rfl⟩⟩
  | enqueuePacket clientIndex => exact ⟨hevents, Or.inl ⟨trivial, rfl⟩⟩
  | enqueueSystemPacket event => exact ⟨hevents, Or.inl ⟨trivial, rfl⟩⟩
  | process =>
    refine ⟨hevents, ?_⟩
    by_cases hnone : s.events.AnswersNone .process
    · refine Or.inl ⟨hnone, ?_⟩
      simp only [answer_of_other hnone, List.append_nil]
    · have hlogin : ∃ p, s.events.point = .userPacket p ∧ p.IsLogin := by
        simpa [EventState.AnswersNone] using hnone
      obtain ⟨p, hpoint, hp⟩ := hlogin
      obtain ⟨block, hanswer, hblock⟩ := answer_of_login hpoint hp (stack s.sent.length)
      exact Or.inr ⟨hnone, p.ClientIndex, block, by rw [hanswer], hblock⟩

/-- The blocks that a run adds are answers, and there are none exactly where no login request is
answered. -/
theorem sent_of_run (h : run (responseStep stack) s es = some t) :
    ∃ more, t.sent = s.sent ++ more ∧ (∀ x ∈ more, ∃ n, IsAnswer (stack n) x.2) ∧
      (more = [] ↔ Meets eventStep EventState.AnswersNone s.events es) := by
  induction es generalizing s with
  | nil =>
    cases h
    exact ⟨[], (List.append_nil _).symm, by simp, iff_of_true rfl meets_nil⟩
  | cons e es ih =>
    obtain ⟨u, hu, hrun⟩ := run_cons_eq_some.mp h
    obtain ⟨more, hmore, hanswers, hnone⟩ := ih hrun
    obtain ⟨hevents, hcases⟩ := responseStep_cases hu
    rw [meets_cons hevents, ← hnone]
    rcases hcases with ⟨hquiet, hsent⟩ | ⟨hlogin, clientIndex, block, hsent, hblock⟩
    · refine ⟨more, by rw [hmore, hsent], hanswers, ?_⟩
      exact (and_iff_right hquiet).symm
    · refine ⟨(clientIndex, block) :: more, ?_, ?_, ?_⟩
      · rw [hmore, hsent, List.append_assoc, List.singleton_append]
      · rw [List.forall_mem_cons]
        exact ⟨⟨s.sent.length, hblock⟩, hanswers⟩
      · exact iff_of_false (List.cons_ne_nil _ _) fun hall => hlogin hall.1

theorem exists_responses (stack : ℕ → UInt8) (s : ResponseState) (es : List ManagerEvent) :
    ∃ t, run (responseStep stack) s es = some t :=
  exists_run (fun _ e => by cases e <;> exact ⟨_, rfl⟩) s es

theorem IsAnswer.length {byte : UInt8} (h : IsAnswer byte block) : block.length = 9 := by
  obtain ⟨result, rfl⟩ := h
  simp [LoginResponsePacket.bytes]

theorem IsAnswer.frameLengthOf_eq {byte : UInt8} (h : IsAnswer byte block) :
    frameLengthOf block = 71 := by
  obtain ⟨result, rfl⟩ := h
  rw [frameLengthOf, LoginResponsePacket.bytes, readU16_bytesOfU16]
  rfl

theorem IsAnswer.packetID {byte : UInt8} (h : IsAnswer byte block) :
    readU16 (block.drop 2) = loginRequest := by
  obtain ⟨result, rfl⟩ := h
  rw [LoginResponsePacket.bytes, List.drop_left' (length_bytesOfU16 _), readU16_bytesOfU16]

theorem IsAnswer.uninitialised {byte : UInt8} (h : IsAnswer byte block) :
    block[4]? = some byte := by
  obtain ⟨result, rfl⟩ := h
  rfl

/-- A server that answers a login request sends a block that is not read back, has another ID, and
depends on the stack. -/
theorem not_decoded (maxClient : ℤ) (buffers : ℕ → Memory UInt8)
    (hanswers : ¬Meets eventStep EventState.AnswersNone
      (ResponseState.start maxClient buffers).events es) :
    (¬∀ stack s, run (responseStep stack) (.start maxClient buffers) es = some s →
        ∀ i, ReadsBack 2 frameLengthOf (s.blocks i)) ∧
      (¬∀ stack s, run (responseStep stack) (.start maxClient buffers) es = some s →
        ∀ i, ∀ block ∈ s.blocks i, readU16 (block.drop 2) = loginResponse) ∧
      ¬∀ stack stack' s s', run (responseStep stack) (.start maxClient buffers) es = some s →
        run (responseStep stack') (.start maxClient buffers) es = some s' → s'.sent = s.sent := by
  obtain ⟨s, hs⟩ := exists_responses (fun _ => 0) (.start maxClient buffers) es
  obtain ⟨sent, hsent, hall, hnone⟩ := sent_of_run hs
  obtain ⟨⟨i, block⟩, hmem⟩ := List.exists_mem_of_ne_nil sent (hnone.not.mpr hanswers)
  obtain ⟨n, hblock⟩ := hall _ hmem
  have hsent : s.sent = sent := hsent
  have hblocks : block ∈ s.blocks i := by
    rw [ResponseState.blocks, hsent]
    exact List.mem_map.mpr ⟨_, List.mem_filter.mpr ⟨hmem, by simp⟩, rfl⟩
  have hlength : ∀ b ∈ s.blocks i, 2 ≤ b.length := by
    intro b hb
    obtain ⟨x, hx, rfl⟩ := List.mem_map.mp hb
    rw [hsent] at hx
    obtain ⟨k, hanswer⟩ := hall x (List.mem_filter.mp hx).1
    rw [hanswer.length]
    decide
  refine ⟨fun hreads => ?_, fun hid => ?_, fun hsame => ?_⟩
  · have hannounced := (readsBack_iff (by decide) inHeader_frameLengthOf hlength).mp
      (hreads _ s hs i) block hblocks
    rw [hblock.frameLengthOf_eq, hblock.length] at hannounced
    exact absurd hannounced (by decide)
  · have hresponse := hid _ s hs i block hblocks
    rw [hblock.packetID] at hresponse
    exact absurd hresponse (by decide)
  · obtain ⟨s', hs'⟩ := exists_responses (fun _ => 1) (.start maxClient buffers) es
    obtain ⟨sent', hsent', hall', -⟩ := sent_of_run hs'
    have hmem' : (i, block) ∈ sent' := by
      have hsent' : s'.sent = sent' := hsent'
      rwa [← hsent', hsame _ _ s s' hs hs', hsent]
    obtain ⟨n', hblock'⟩ := hall' _ hmem'
    have hbyte := hblock.uninitialised
    rw [hblock'.uninitialised] at hbyte
    exact absurd hbyte (by decide)

/-- The responses of a run decode if and only if it answers no login request. -/
theorem responses_decode_iff (maxClient : ℤ) (buffers : ℕ → Memory UInt8)
    (es : List ManagerEvent) :
    ResponsesDecode maxClient buffers es ↔
      Meets eventStep EventState.AnswersNone (ResponseState.start maxClient buffers).events es := by
  constructor
  · intro hdecode
    by_contra hanswers
    exact (not_decoded maxClient buffers hanswers).1 hdecode.readsBack
  · intro hmeets
    have hsilent : ∀ stack s, run (responseStep stack) (.start maxClient buffers) es = some s →
        s.sent = [] := by
      intro stack s hs
      obtain ⟨sent, hsent, -, hnone⟩ := sent_of_run hs
      rw [hnone.mpr hmeets] at hsent
      exact hsent
    have hblocks : ∀ stack s, run (responseStep stack) (.start maxClient buffers) es = some s →
        ∀ i, s.blocks i = [] := by
      intro stack s hs i
      rw [ResponseState.blocks, hsilent stack s hs]
      rfl
    refine ⟨fun stack s hs i => ?_, fun stack s hs i => ?_, fun stack stack' s s' hs hs' => ?_⟩
    · rw [hblocks stack s hs]
      exact (readsBack_iff (by decide) inHeader_frameLengthOf (by simp)).mpr (by simp)
    · rw [hblocks stack s hs]
      simp
    · rw [hsilent stack s hs, hsilent stack' s' hs']

/-- The answer to a login request: nine bytes that announce 71, with the ID of a request and a byte
of the stack. -/
theorem login_answer_misframed :
    (run (responseStep fun _ => 205) (.start 1 fun _ _ => 0)
        [.setPacketData 0 loginPacket, .enqueuePacket 0, .process, .process]).map
        (fun s => s.sent) = some [(0, [71, 0, 201, 0, 205, 31, 0, 0, 0])] ∧
      ¬ResponsesDecode 1 (fun _ _ => 0)
        [.setPacketData 0 loginPacket, .enqueuePacket 0, .process, .process] := by
  have hsent : (run (responseStep fun _ => 205) (.start 1 fun _ _ => 0)
      [.setPacketData 0 loginPacket, .enqueuePacket 0, .process, .process]).map
      (fun s => s.sent) = some [(0, [71, 0, 201, 0, 205, 31, 0, 0, 0])] := by decide
  refine ⟨hsent, fun hdecode => ?_⟩
  obtain ⟨s, hs, hblock⟩ := Option.map_eq_some_iff.mp hsent
  have hmem : [71, 0, 201, 0, 205, 31, 0, 0, 0] ∈ s.blocks 0 := by
    rw [ResponseState.blocks, hblock]
    simp
  exact absurd (hdecode.packetID _ s hs 0 _ hmem) (by decide)

end IocpStudy.ChatServer
