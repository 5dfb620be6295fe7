import IocpStudy.Lib.Runs
import IocpStudy.ChatServer.User

/-! The packet buffer of one user, over all sequences of `SetPacketData`, `GetPacket` and `Clear`.
A chunk that wraps drops the unread bytes, so the buffer keeps them on the runs whose chunks end
before it does, or find nothing unread.  `GetPacket` believes every length that a frame announces;
it returns complete packets, made of received bytes alone, on the runs whose frames announce a
header at least. -/

namespace IocpStudy.ChatServer

open Words Runs

/-- `PACKET_HEADER_LENGTH`. -/
def packetHeaderLength : ℕ := 5

/-- A call of `SetPacketData` has the bytes behind its pointer. -/
inductive UserCall
  | setPacketData (pData : List UInt8)
  | getPacket
  | clear
deriving Repr, DecidableEq

/-- A user, with the packets that `GetPacket` has returned and the bytes they pointed to then. -/
structure UserState where
  user : User
  returned : List (PacketInfo × List UInt8) := []

/-- A user after `Init`, where the buffer may hold anything. -/
def UserState.start (index : ℤ) (buffer : Memory UInt8) : UserState :=
  { user := { mIndex := index, mPacketDataBuffer := buffer } }

/-- Chunks are what one receive brings: 1 to 256 bytes. -/
def userStep (s : UserState) : UserCall → Option UserState
  | .setPacketData pData =>
    if 0 < pData.length ∧ pData.length ≤ 256 then
      some { s with user := s.user.setPacketData pData }
    else none
  | .getPacket =>
    let (packetInfo, user) := s.user.getPacket
    some { user, returned := s.returned ++ [(packetInfo, user.packetData packetInfo)] }
  | .clear => some { s with user := s.user.clear }

variable {u v : User} {s t s' t' : UserState} {e : UserCall} {es : List UserCall}
  {pData : List UInt8} {index : ℤ} {buffer : Memory UInt8} {n : ℕ}

theorem userStep_cases (h : userStep s e = some t) :
    (∃ pData, e = .setPacketData pData ∧ 0 < pData.length ∧ pData.length ≤ 256 ∧
      t = { s with user := s.user.setPacketData pData }) ∨
    (e = .getPacket ∧ t =
      { user := s.user.getPacket.2
        returned := s.returned ++
          [(s.user.getPacket.1, s.user.getPacket.2.packetData s.user.getPacket.1)] }) ∨
    (e = .clear ∧ t = { s with user := s.user.clear }) := by
  cases e with
  | setPacketData pData =>
    simp only [userStep] at h
    split_ifs at h with hsize
    exact .inl ⟨pData, rfl, hsize.1, hsize.2, (Option.some.inj h).symm⟩
  | getPacket => exact .inr (.inl ⟨rfl, (Option.some.inj h).symm⟩)
  | clear => exact .inr (.inr ⟨rfl, (Option.some.inj h).symm⟩)

theorem ordered_start : (UserState.start index buffer).user.Ordered :=
  ⟨le_refl _, show 0 < 8096 by decide⟩

theorem ordered_userStep (hs : s.user.Ordered) (h : userStep s e = some t) : t.user.Ordered := by
  obtain ⟨pData, rfl, -, hsize, rfl⟩ | ⟨rfl, rfl⟩ | ⟨rfl, rfl⟩ := userStep_cases h
  · exact hs.setPacketData hsize
  · exact hs.getPacket
  · exact User.Ordered.clear

theorem ordered_run (h : run userStep (.start index buffer) es = some s) : s.user.Ordered :=
  run_invariant (P := fun s => s.user.Ordered) (fun _ _ _ hs hst => ordered_userStep hs hst)
    ordered_start h

/-! ### `SetPacketData` -/

theorem User.unread_eq_nil_iff (hu : u.Ordered) :
    u.unread = [] ↔ u.mPacketDataBufferReadPos = u.mPacketDataBufferWritePos := by
  have hr := hu.readPos_le
  rw [← List.length_eq_zero_iff, User.length_unread]
  omega

/-- Whether a chunk is appended to the unread bytes depends on where they lie. -/
theorem User.unread_setPacketData_iff (hu : u.Ordered) (hsize : pData.length ≤ 256) :
    (u.setPacketData pData).unread = u.unread ++ pData ↔
      u.mPacketDataBufferWritePos + pData.length < packetDataBufferSize ∨
        u.mPacketDataBufferReadPos = u.mPacketDataBufferWritePos := by
  rw [← User.unread_eq_nil_iff hu, ← Nat.not_le, ← User.wraps_iff hu hsize]
  rcases hwraps : u.wraps pData.length with - | -
  · exact iff_of_true (User.unread_setPacketData_of_fits hu hsize hwraps)
      (Or.inl Bool.false_ne_true)
  · rw [User.unread_setPacketData_of_wraps hsize hwraps, List.self_eq_append_left]
    exact ⟨Or.inr, fun h => h.resolve_left (fun hne => hne rfl)⟩

/-- A chunk for which the buffer has room besides the unread bytes is appended to them. -/
def KeepsUnread (s : UserState) (e : UserCall) (t : UserState) : Prop :=
  ∀ pData, e = .setPacketData pData →
    s.user.unread.length + pData.length < packetDataBufferSize →
      t.user.unread = s.user.unread ++ pData

/-- Such a chunk ends before the buffer does, or there is nothing unread. -/
def UserState.EndsBefore (s : UserState) (e : UserCall) : Prop :=
  ∀ pData, e = .setPacketData pData →
    s.user.unread.length + pData.length < packetDataBufferSize →
      s.user.mPacketDataBufferWritePos + pData.length < packetDataBufferSize ∨
        s.user.mPacketDataBufferReadPos = s.user.mPacketDataBufferWritePos

theorem keepsUnread_step (hs : s.user.Ordered) (h : userStep s e = some t) :
    KeepsUnread s e t ↔ s.EndsBefore e := by
  obtain ⟨pData, rfl, -, hsize, rfl⟩ | ⟨rfl, rfl⟩ | ⟨rfl, rfl⟩ := userStep_cases h
  · simp only [KeepsUnread, UserState.EndsBefore, UserCall.setPacketData.injEq, forall_eq']
    rw [User.unread_setPacketData_iff hs hsize]
  · simp [KeepsUnread, UserState.EndsBefore]
  · simp [KeepsUnread, UserState.EndsBefore]

/-- In every reachable state, a chunk for which there is room is appended to the unread bytes if and
only if it ends before the buffer does or finds nothing unread; and a run keeps the unread bytes in
all its steps if and only if all its chunks are of that kind. -/
theorem keepsUnread_iff (index : ℤ) (buffer : Memory UInt8) (es : List UserCall) (s : UserState)
    (h : run userStep (.start index buffer) es = some s) :
    (∀ pData : List UInt8, pData ≠ [] → pData.length ≤ 256 →
      s.user.unread.length + pData.length < packetDataBufferSize →
      ((s.user.setPacketData pData).unread = s.user.unread ++ pData ↔
        s.user.mPacketDataBufferWritePos + pData.length < packetDataBufferSize ∨
          s.user.mPacketDataBufferReadPos = s.user.mPacketDataBufferWritePos)) ∧
    (EachStep userStep KeepsUnread (.start index buffer) es ↔
      Meets userStep UserState.EndsBefore (.start index buffer) es) := by
  refine ⟨fun pData _ hsize _ => ?_, ?_⟩
  · exact User.unread_setPacketData_iff (ordered_run h) hsize
  · exact eachStep_iff_meets (I := fun s => s.user.Ordered)
      (fun _ _ _ hs hst => ordered_userStep hs hst) (fun _ _ _ hs hst => keepsUnread_step hs hst)
      ordered_start h

/-- A chunk is appended to one that is still unread. -/
theorem keepsUnread_second_chunk :
    ∃ s, run userStep (.start 0 fun _ => 0) [.setPacketData [1]] = some s ∧ s.user.unread = [1] ∧
      (s.user.setPacketData [2, 3]).unread = [1] ++ [2, 3] ∧
      EachStep userStep KeepsUnread (.start 0 fun _ => 0)
        [.setPacketData [1], .setPacketData [2, 3]] := by
  refine ⟨_, rfl, rfl, ?_, ?_⟩
  · obtain ⟨hchunk, -⟩ := keepsUnread_iff 0 (fun _ => 0) [.setPacketData [1]] _ rfl
    exact (hchunk [2, 3] (List.cons_ne_nil _ _) (by decide) (by decide)).mpr (Or.inl (by decide))
  · obtain ⟨-, hrun⟩ := keepsUnread_iff 0 (fun _ => 0) [.setPacketData [1], .setPacketData [2, 3]]
      _ rfl
    refine hrun.mpr ((meets_cons rfl).mpr ⟨fun pData hp _ => Or.inl ?_,
      (meets_cons rfl).mpr ⟨fun pData hp _ => Or.inl ?_, meets_nil⟩⟩)
    · cases hp
      decide
    · cases hp
      decide

/-- A frame of 7936 bytes in 31 chunks, a call that takes it, and 100 bytes. -/
def nearEnd : List UserCall :=
  List.replicate 31 (.setPacketData ([0, 31] ++ List.replicate 254 0)) ++
    [.getPacket, .setPacketData (List.replicate 100 1)]

theorem nearEnd_positions :
    (run userStep (.start 0 fun _ => 0) nearEnd).map
        (fun s => (s.user.mPacketDataBufferReadPos, s.user.mPacketDataBufferWritePos)) =
      some (7936, 8036) := by
  decide +kernel

/-- Another 100 bytes, for which the buffer has room besides the 100 unread ones, replace them. -/
theorem unread_lost :
    ∃ s, run userStep (.start 0 fun _ => 0) nearEnd = some s ∧
      s.user.unread.length + 100 < packetDataBufferSize ∧
      (s.user.setPacketData (List.replicate 100 2)).unread ≠
        s.user.unread ++ List.replicate 100 2 := by
  obtain ⟨s, hrun, hpositions⟩ := Option.map_eq_some_iff.mp nearEnd_positions
  obtain ⟨hr, hw⟩ := Prod.mk.inj hpositions
  have hs := ordered_run hrun
  have hlength := User.length_unread (u := s.user)
  rw [hr, hw] at hlength
  refine ⟨s, hrun, by rw [hlength]; decide, ?_⟩
  rw [Ne, User.unread_setPacketData_iff hs (by decide), hr, hw]
  decide

/-! ### `GetPacket` -/

/-- The unread bytes start with a complete frame, by the length that they announce. -/
structure User.HoldsFrame (u : User) : Prop where
  length : 2 ≤ u.unread.length
  frameLength_le : u.frameLength ≤ u.unread.length

theorem User.getPacket_of_holdsFrame (hu : u.Ordered) (hf : u.HoldsFrame) :
    u.getPacket =
      ({ PacketID := readU16 (u.mPacketDataBuffer.slice (u.mPacketDataBufferReadPos + 2) 2)
         DataSize := readU16 u.unread
         pPacketData := some u.mPacketDataBufferReadPos },
        { u with mPacketDataBufferReadPos := u.mPacketDataBufferReadPos + u.frameLength }) :=
  User.getPacket_of_whole hu hf.length hf.frameLength_le

theorem User.getPacket_of_not_holdsFrame (hu : u.Ordered) (hf : ¬u.HoldsFrame) :
    u.getPacket = ({}, u) := by
  apply User.getPacket_of_short hu
  by_contra hnot
  rw [not_or, Nat.not_lt, Nat.not_lt] at hnot
  exact hf ⟨hnot.1, hnot.2⟩

/-- A frame with a header at least is read from unread bytes alone. -/
theorem User.getPacket_of_header (hu : u.Ordered) (hf : u.HoldsFrame)
    (hheader : packetHeaderLength ≤ u.frameLength) :
    u.getPacket =
      ({ PacketID := readU16 (u.unread.drop 2)
         DataSize := readU16 u.unread
         pPacketData := some u.mPacketDataBufferReadPos },
        { u with mPacketDataBufferReadPos := u.mPacketDataBufferReadPos + u.frameLength }) := by
  have hle := hf.frameLength_le
  unfold packetHeaderLength at hheader
  rw [User.getPacket_of_holdsFrame hu hf, User.readU16_slice_id (by omega)]

theorem User.packetData_getPacket (hu : u.Ordered) (hf : u.HoldsFrame) :
    u.getPacket.2.packetData u.getPacket.1 = u.unread.take u.frameLength := by
  rw [User.getPacket_of_holdsFrame hu hf]
  exact User.slice_readPos hf.frameLength_le

theorem User.unread_getPacket (hu : u.Ordered) (hf : u.HoldsFrame) :
    u.getPacket.2.unread = u.unread.drop u.frameLength := by
  rw [User.getPacket_of_holdsFrame hu hf, User.unread, User.unread, Memory.drop_slice]
  simp only [Nat.sub_sub]

/-- Whenever `GetPacket` returns a packet, the four bytes that it read it from, the length and the
ID, are unread ones, the packet has a header at least, and the read position advances by its
length. -/
def ReturnsComplete (s : UserState) (e : UserCall) (t : UserState) : Prop :=
  e = .getPacket → s.user.getPacket.1 ≠ {} →
    s.user.mPacketDataBufferReadPos + 4 ≤ s.user.mPacketDataBufferWritePos ∧
    packetHeaderLength ≤ s.user.getPacket.1.DataSize.toNat ∧
    t.user.mPacketDataBufferReadPos =
      s.user.mPacketDataBufferReadPos + s.user.getPacket.1.DataSize.toNat

/-- A frame that a call of `GetPacket` finds complete announces a header at least. -/
def UserState.AnnouncesHeader (s : UserState) (e : UserCall) : Prop :=
  e = .getPacket → s.user.HoldsFrame → packetHeaderLength ≤ s.user.frameLength

theorem returnsComplete_step (hs : s.user.Ordered) (h : userStep s e = some t) :
    ReturnsComplete s e t ↔ s.AnnouncesHeader e := by
  obtain ⟨pData, rfl, -, -, rfl⟩ | ⟨rfl, rfl⟩ | ⟨rfl, rfl⟩ := userStep_cases h
  · exact iff_of_true (fun he => UserCall.noConfusion he) (fun he => UserCall.noConfusion he)
  · by_cases hf : s.user.HoldsFrame
    · have hlength := User.length_unread (u := s.user)
      have hle := hf.frameLength_le
      simp only [ReturnsComplete, UserState.AnnouncesHeader, User.getPacket_of_holdsFrame hs hf]
      rw [← User.frameLength]
      constructor
      · intro hreturns _ _
        have hpacket : ∀ p : PacketInfo, p.pPacketData = some s.user.mPacketDataBufferReadPos →
            p ≠ {} := by
          rintro p hp rfl
          exact Option.some_ne_none _ hp.symm
        exact (hreturns trivial (hpacket _ rfl)).2.1
      · intro hannounces _ _
        have hheader := hannounces trivial hf
        refine ⟨?_, hheader, rfl⟩
        simp only [packetHeaderLength] at hheader
        omega
    · refine iff_of_true (fun _ hp => ?_) (fun _ hf' => absurd hf' hf)
      rw [User.getPacket_of_not_holdsFrame hs hf] at hp
      exact absurd rfl hp
  · exact iff_of_true (fun he => UserCall.noConfusion he) (fun he => UserCall.noConfusion he)

/-! ### Buffers that differ in what was not received -/

/-- The same bytes are unread at the same positions, and the same packets were returned. -/
structure UserState.Agrees (s s' : UserState) : Prop where
  readPos : s.user.mPacketDataBufferReadPos = s'.user.mPacketDataBufferReadPos
  writePos : s.user.mPacketDataBufferWritePos = s'.user.mPacketDataBufferWritePos
  unread : s.user.unread = s'.user.unread
  returned : s.returned = s'.returned

namespace UserState.Agrees

theorem holdsFrame (h : s.Agrees s') : s.user.HoldsFrame ↔ s'.user.HoldsFrame := by
  constructor
  · rintro ⟨hlength, hle⟩
    simp only [User.frameLength, h.unread] at hlength hle
    exact ⟨hlength, hle⟩
  · rintro ⟨hlength, hle⟩
    simp only [User.frameLength, ← h.unread] at hlength hle
    exact ⟨hlength, hle⟩

theorem setPacketData (h : s.Agrees s') (hs : s.user.Ordered) (hs' : s'.user.Ordered)
    (hsize : pData.length ≤ 256) :
    Agrees { s with user := s.user.setPacketData pData }
      { s' with user := s'.user.setPacketData pData } := by
  have hsame : s'.user.wraps pData.length = s.user.wraps pData.length := by
    rw [User.wraps, User.wraps, h.writePos]
  rcases hwraps : s.user.wraps pData.length with - | -
  · refine ⟨?_, ?_, ?_, h.returned⟩
    · simp only [User.setPacketData_of_fits hs hsize hwraps,
        User.setPacketData_of_fits hs' hsize (hsame.trans hwraps), h.readPos]
    · simp only [User.setPacketData_of_fits hs hsize hwraps,
        User.setPacketData_of_fits hs' hsize (hsame.trans hwraps), h.writePos]
    · simp only [User.unread_setPacketData_of_fits hs hsize hwraps,
        User.unread_setPacketData_of_fits hs' hsize (hsame.trans hwraps), h.unread]
  · obtain ⟨m, hm⟩ := User.setPacketData_of_wraps hsize hwraps
    obtain ⟨m', hm'⟩ := User.setPacketData_of_wraps hsize (hsame.trans hwraps)
    refine ⟨?_, ?_, ?_, h.returned⟩
    · simp only [hm, hm']
    · simp only [hm, hm']
    · simp only [User.unread_setPacketData_of_wraps hsize hwraps,
        User.unread_setPacketData_of_wraps hsize (hsame.trans hwraps)]

/-- A complete packet is made of unread bytes, so it is the same in both buffers. -/
theorem getPacket (h : s.Agrees s') (hs : s.user.Ordered) (hs' : s'.user.Ordered)
    (hheader : s.user.HoldsFrame → packetHeaderLength ≤ s.user.frameLength) :
    Agrees
      { user := s.user.getPacket.2
        returned := s.returned ++
          [(s.user.getPacket.1, s.user.getPacket.2.packetData s.user.getPacket.1)] }
      { user := s'.user.getPacket.2
        returned := s'.returned ++
          [(s'.user.getPacket.1, s'.user.getPacket.2.packetData s'.user.getPacket.1)] } := by
  by_cases hf : s.user.HoldsFrame
  · have hf' := h.holdsFrame.mp hf
    have hheader := hheader hf
    have hsame : s'.user.frameLength = s.user.frameLength := by
      rw [User.frameLength, User.frameLength, h.unread]
    have hpacket := User.getPacket_of_header hs hf hheader
    have hpacket' := User.getPacket_of_header hs' hf' (hsame ▸ hheader)
    have hdata := User.packetData_getPacket hs hf
    have hdata' := User.packetData_getPacket hs' hf'
    have hunread := User.unread_getPacket hs hf
    have hunread' := User.unread_getPacket hs' hf'
    refine ⟨?_, ?_, ?_, ?_⟩
    · simp only [hpacket, hpacket', h.readPos, hsame]
    · simp only [hpacket, hpacket', h.writePos]
    · simp only [hunread, hunread', hsame, h.unread]
    · simp only [hdata, hdata', hsame]
      simp only [hpacket, hpacket', h.unread, h.readPos, h.returned]
  · have hf' : ¬s'.user.HoldsFrame := fun hf' => hf (h.holdsFrame.mpr hf')
    rw [User.getPacket_of_not_holdsFrame hs hf, User.getPacket_of_not_holdsFrame hs' hf']
    refine ⟨h.readPos, h.writePos, h.unread, ?_⟩
    simp only [User.packetData, h.returned]

theorem step (h : s.Agrees s') (hs : s.user.Ordered) (hs' : s'.user.Ordered)
    (hC : s.AnnouncesHeader e) (hst : userStep s e = some t) (hst' : userStep s' e = some t') :
    t.Agrees t' := by
  cases e with
  | setPacketData pData =>
    simp only [userStep] at hst hst'
    split_ifs at hst hst' with hsize
    obtain rfl := Option.some.inj hst
    obtain rfl := Option.some.inj hst'
    exact h.setPacketData hs hs' hsize.2
  | getPacket =>
    obtain rfl := Option.some.inj hst
    obtain rfl := Option.some.inj hst'
    exact h.getPacket hs hs' (hC rfl)
  | clear =>
    obtain rfl := Option.some.inj hst
    obtain rfl := Option.some.inj hst'
    exact ⟨rfl, rfl, rfl, h.returned⟩

theorem run (h : s.Agrees s') (hs : s.user.Ordered) (hs' : s'.user.Ordered)
    (hC : Meets userStep UserState.AnnouncesHeader s es) (hrun : run userStep s es = some t)
    (hrun' : run userStep s' es = some t') : t.Agrees t' := by
  induction es generalizing s s' with
  | nil =>
    cases hrun
    cases hrun'
    exact h
  | cons e es ih =>
    obtain ⟨u, hu, hrest⟩ := run_cons_eq_some.mp hrun
    obtain ⟨u', hu', hrest'⟩ := run_cons_eq_some.mp hrun'
    exact ih (h.step hs hs' hC.1 hu hu') (ordered_userStep hs hu) (ordered_userStep hs' hu')
      (hC.2 u hu) hrest hrest'

end UserState.Agrees

/-! ### Repeated calls -/

/-- Each call takes a complete frame off the unread bytes, or finds none, now and later. -/
theorem not_holdsFrame_of_calls (hs : s.user.Ordered)
    (hC : Meets userStep UserState.AnnouncesHeader s (List.replicate n .getPacket))
    (hn : s.user.unread.length ≤ n ∨ ¬s.user.HoldsFrame)
    (h : run userStep s (List.replicate n .getPacket) = some t) : ¬t.user.HoldsFrame := by
  induction n generalizing s with
  | zero =>
    cases h
    rcases hn with hn | hn
    · intro hf
      have hlength := hf.length
      omega
    · exact hn
  | succ n ih =>
    obtain ⟨hheader, hrest⟩ := hC
    obtain ⟨u, hu, hrun⟩ := run_cons_eq_some.mp h
    refine ih (ordered_userStep hs hu) (hrest u hu) ?_ hrun
    obtain rfl := Option.some.inj hu
    by_cases hf : s.user.HoldsFrame
    · have hle := hn.resolve_right (not_not.mpr hf)
      have hpos := hheader rfl hf
      unfold packetHeaderLength at hpos
      left
      show s.user.getPacket.2.unread.length ≤ n
      rw [User.unread_getPacket hs hf, List.length_drop]
      omega
    · right
      show ¬s.user.getPacket.2.HoldsFrame
      rw [User.getPacket_of_not_holdsFrame hs hf]
      exact hf

/-! ### The frames of a run -/

/-- What the calls of a run have to do: return complete packets only and advance by them, return
the same packets whatever else the buffer held at first, and leave no complete frame when they are
repeated often enough. -/
structure TakesFrames (index : ℤ) (buffer : Memory UInt8) (es : List UserCall) : Prop where
  complete : EachStep userStep ReturnsComplete (.start index buffer) es
  stale : ∀ buffer' s s', run userStep (.start index buffer) es = some s →
    run userStep (.start index buffer') es = some s' → s'.returned = s.returned
  consumed : ∀ pre n s t, pre ++ List.replicate n .getPacket <+: es →
    run userStep (.start index buffer) pre = some s →
    run userStep s (List.replicate n .getPacket) = some t →
    s.user.unread.length ≤ n → ¬t.user.HoldsFrame

/-- A run takes its frames if and only if every frame that `GetPacket` finds complete announces a
header at least. -/
theorem takesFrames_iff (index : ℤ) (buffer : Memory UInt8) (es : List UserCall) (s : UserState)
    (h : run userStep (.start index buffer) es = some s) :
    TakesFrames index buffer es ↔
      Meets userStep UserState.AnnouncesHeader (.start index buffer) es := by
  have hcomplete : EachStep userStep ReturnsComplete (.start index buffer) es ↔
      Meets userStep UserState.AnnouncesHeader (.start index buffer) es :=
    eachStep_iff_meets (I := fun s => s.user.Ordered)
      (fun _ _ _ hs hst => ordered_userStep hs hst)
      (fun _ _ _ hs hst => returnsComplete_step hs hst) ordered_start h
  refine ⟨fun htakes => hcomplete.mp htakes.complete, fun hC => ⟨hcomplete.mpr hC, ?_, ?_⟩⟩
  · intro buffer' t t' ht ht'
    have hstart : (UserState.start index buffer).Agrees (.start index buffer') :=
      ⟨rfl, rfl, rfl, rfl⟩
    exact (hstart.run ordered_start ordered_start hC ht ht').returned.symm
  · intro pre n u t hp hu ht hn
    have hmeets := ((meets_append hu).mp (hC.of_prefix hp)).2
    exact not_holdsFrame_of_calls (ordered_run hu) hmeets (Or.inl hn) ht

/-- A frame of a header and one byte. -/
theorem takesFrames_one_frame :
    TakesFrames 0 (fun _ => 255) [.setPacketData [6, 0, 221, 0, 0, 7], .getPacket, .getPacket] := by
  refine (takesFrames_iff 0 _ _ _ rfl).mpr ⟨nofun, fun _ ht => ?_⟩
  obtain rfl := Option.some.inj ht
  refine ⟨fun _ _ => by decide, fun _ ht => ?_⟩
  obtain rfl := Option.some.inj ht
  refine ⟨fun _ hf => ?_, fun _ _ => trivial⟩
  exact absurd hf.length (by decide)

/-- Two bytes that announce a length of 2: the ID of the packet is what the buffer held before. -/
theorem stale_packetID :
    (run userStep (.start 0 fun _ => 0) [.setPacketData [2, 0], .getPacket]).map
        (fun s => s.returned.map fun returned => returned.1.PacketID) = some [0] ∧
      (run userStep (.start 0 fun _ => 255) [.setPacketData [2, 0], .getPacket]).map
        (fun s => s.returned.map fun returned => returned.1.PacketID) = some [65535] ∧
      ¬TakesFrames 0 (fun _ => 0) [.setPacketData [2, 0], .getPacket] := by
  refine ⟨by decide, by decide, fun htakes => ?_⟩
  have hreturned := htakes.stale (fun _ => 255) _ _ rfl rfl
  exact absurd (congrArg (List.map fun returned => returned.1.PacketID) hreturned) (by decide)

end IocpStudy.ChatServer
