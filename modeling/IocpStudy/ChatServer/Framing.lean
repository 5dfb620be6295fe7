import IocpStudy.Lib.Runs
import IocpStudy.Lib.Frames
import IocpStudy.ChatServer.NetworkClient
import IocpStudy.ChatServer.PacketManager

/-! The frames that one client sends, from the calls of `ReceivePacket` to those of
`ProcessRecvPacket`.  Each received chunk makes one entry in the index queue and each entry yields
one frame at most, so the frames of a client are delivered, in order and with none left behind, when
no more of them are complete than there are entries and the buffer starts over only when it is
empty. -/

namespace IocpStudy.ChatServer

open Words Runs Frames

/-- A frame of 5 to 8095 bytes with the ID of a user's packet.  `payload` is all that follows the
length and the ID: the member `Type` of the header and the body. -/
structure Frame where
  PacketID : UInt16
  payload : List UInt8
  header : payload ≠ []
  fits : 4 + payload.length ≤ 8095
  user : sysEnd < PacketID

def Frame.packetLength (f : Frame) : UInt16 := UInt16.ofNat (4 + f.payload.length)

def Frame.bytes (f : Frame) : List UInt8 :=
  bytesOfU16 f.packetLength ++ (bytesOfU16 f.PacketID ++ f.payload)

/-- What `ProcessRecvPacket` is told of a frame: its ID, length and bytes. -/
def Frame.content (f : Frame) : UInt16 × UInt16 × List UInt8 :=
  (f.PacketID, f.packetLength, f.bytes)

def RecvCall.content (c : RecvCall) : UInt16 × UInt16 × List UInt8 :=
  (c.packetData.PacketID, c.packetData.DataSize, c.bytes)

/-- The packet manager with the bytes received from each client and the calls of
`ProcessRecvPacket` made for users' packets so far. -/
structure ReceiveState where
  manager : PacketManager
  received : ℕ → List UInt8 := fun _ => []
  calls : List RecvCall := []

inductive ReceiveEvent
  | receive (clientIndex : ℕ) (pData : List UInt8)
  | process
deriving Repr, DecidableEq

def receiveStep (s : ReceiveState) : ReceiveEvent → Option ReceiveState
  | .receive clientIndex pData =>
    if pData = [] ∨ maxSockRecvBuf < pData.length then none
    else
      some { s with
        manager := s.manager.receivePacket clientIndex pData
        received := Function.update s.received clientIndex (s.received clientIndex ++ pData) }
  | .process =>
    let (manager, userCall, _) := s.manager.processPacket
    some { s with manager, calls := s.calls ++ userCall.toList }

namespace ReceiveState

def start (maxClient : ℤ) (buffers : ℕ → Memory UInt8) : ReceiveState :=
  { manager := .start maxClient buffers }

/-- The frames of a client given to `ProcessRecvPacket`. -/
def delivered (s : ReceiveState) (clientIndex : ℕ) : List (UInt16 × UInt16 × List UInt8) :=
  (s.calls.filter (·.packetData.ClientIndex = clientIndex)).map RecvCall.content

/-- The entries of a client in the index queue. -/
def entries (s : ReceiveState) (clientIndex : ℕ) : ℕ :=
  s.manager.mIncomingPacketUserIndex.count clientIndex

/-- The client's frames are delivered in order, and when the index queue is empty all the frames
received whole have been. -/
structure Framed (fs : List Frame) (i : ℕ) (s : ReceiveState) : Prop where
  delivered_prefix : s.delivered i <+: fs.map Frame.content
  all_delivered : s.manager.mIncomingPacketUserIndex = [] →
    completed Frame.bytes fs (s.received i).length ≤ (s.delivered i).length

/-- A chunk from the client wraps only where nothing is unread. -/
def Intact (i : ℕ) (s : ReceiveState) : ReceiveEvent → Prop
  | .receive j pData => j = i →
    (s.manager.user i).wraps pData.length = true → (s.manager.user i).unread = []
  | .process => True

/-- A chunk from the client wraps only where nothing is unread, and leaves no more whole frames to
deliver than the client has entries, with its own. -/
def Attended (fs : List Frame) (i : ℕ) (s : ReceiveState) : ReceiveEvent → Prop
  | .receive j pData => j = i →
    ((s.manager.user i).wraps pData.length = true → (s.manager.user i).unread = []) ∧
    completed Frame.bytes fs ((s.received i).length + pData.length) ≤
      (s.delivered i).length + (s.entries i + 1)
  | .process => True

end ReceiveState

/-- The bytes that a client sends in a run. -/
def sentBy (i : ℕ) (es : List ReceiveEvent) : List UInt8 :=
  es.flatMap fun
    | .receive j pData => if j = i then pData else []
    | .process => []

/-! ### A frame at the front of the buffer -/

variable {u : User} {f : Frame} {fs : List Frame} {i : ℕ} {bs : List UInt8}

theorem Frame.length_bytes (f : Frame) : f.bytes.length = 4 + f.payload.length := by
  simp [Frame.bytes]
  omega

theorem Frame.packetLength_toNat (f : Frame) : f.packetLength.toNat = f.bytes.length := by
  have hfits := f.fits
  have hsize : 4 + f.payload.length < UInt16.size := by
    simp only [UInt16.size]
    omega
  rw [Frame.length_bytes, Frame.packetLength, UInt16.toNat_ofNat_of_lt' hsize]

theorem readU16_take (h : 2 ≤ bs.length) (cs : List UInt8) : readU16 (bs ++ cs) = readU16 bs := by
  rw [readU16, readU16, List.take_append_of_le_length h]

theorem frameLength_of_front (hpre : u.unread <+: f.bytes ++ bs)
    (h2 : 2 ≤ u.unread.length) : u.frameLength = f.bytes.length := by
  obtain ⟨rest, hrest⟩ := hpre
  rw [User.frameLength, ← readU16_take h2 rest, hrest, Frame.bytes, List.append_assoc,
    readU16_bytesOfU16, Frame.packetLength_toNat, Frame.bytes]

theorem getPacket_of_part (hu : u.Ordered) (hpre : u.unread <+: f.bytes ++ bs)
    (hpart : u.unread.length < f.bytes.length) : u.getPacket = ({}, u) := by
  apply User.getPacket_of_short hu
  rcases Nat.lt_or_ge u.unread.length 2 with hlt | h2
  · exact Or.inl hlt
  · exact Or.inr (by rw [frameLength_of_front hpre h2]; exact hpart)

theorem getPacket_of_frame (hu : u.Ordered) (hunread : u.unread = f.bytes ++ bs) :
    ∃ p u', u.getPacket = (p, u') ∧ p.PacketID = f.PacketID ∧ p.DataSize = f.packetLength ∧
      u'.packetData p = f.bytes ∧ u'.unread = bs := by
  have hlength := f.length_bytes
  have hlen : u.unread.length = f.bytes.length + bs.length := by
    rw [hunread, List.length_append]
  have hframe : u.frameLength = f.bytes.length :=
    frameLength_of_front (by rw [hunread]) (by omega)
  have hr := hu.readPos_le
  have hpositions := User.length_unread (u := u)
  refine ⟨_, _, User.getPacket_of_whole hu (by omega) (by omega), ?_, ?_, ?_, ?_⟩
  · simp only
    rw [User.readU16_slice_id (by omega), hunread, Frame.bytes, List.append_assoc,
      List.drop_left' (length_bytesOfU16 _), List.append_assoc, readU16_bytesOfU16]
  · apply UInt16.toNat_inj.mp
    rw [Frame.packetLength_toNat, ← hframe]
    rfl
  · have htake := User.slice_readPos (u := u) (n := f.bytes.length) (by omega)
    simp only [User.packetData]
    rw [← User.frameLength, hframe, htake, hunread, List.take_left]
  · have hdrop := congrArg (List.drop f.bytes.length) hunread
    rw [List.drop_left, User.unread, Memory.drop_slice] at hdrop
    rw [User.unread]
    simp only
    rw [← hdrop, hframe, Nat.sub_sub]

/-! ### The invariant of intact runs -/

/-- The first `k` frames of the client are delivered, and what its buffer holds is the rest of what
it has sent. -/
structure ReceiveState.Tracks (fs : List Frame) (i k : ℕ) (s : ReceiveState) : Prop where
  ordered : ∀ j, (s.manager.user j).Ordered
  system : s.manager.mSystemPacketQueue = []
  received_prefix : s.received i <+: stream Frame.bytes fs
  delivered : s.delivered i = (fs.take k).map Frame.content
  le_length : k ≤ fs.length
  consumed : (stream Frame.bytes (fs.take k)).length ≤ (s.received i).length
  unread : (s.manager.user i).unread =
    (s.received i).drop (stream Frame.bytes (fs.take k)).length

variable {s t : ReceiveState} {e : ReceiveEvent} {es : List ReceiveEvent} {k : ℕ}

theorem ReceiveState.Tracks.length_delivered (hs : s.Tracks fs i k) :
    (s.delivered i).length = k := by
  rw [hs.delivered, List.length_map, List.length_take, Nat.min_eq_left hs.le_length]

theorem ReceiveState.Tracks.framed (hs : s.Tracks fs i k)
    (hattended : completed Frame.bytes fs (s.received i).length ≤ k + s.entries i) :
    s.Framed fs i := by
  refine ⟨?_, fun hempty => ?_⟩
  · rw [hs.delivered]
    exact (List.take_prefix k fs).map Frame.content
  · simp only [entries, hempty, List.count_nil] at hattended
    rw [hs.length_delivered]
    omega

/-- The unread bytes of the client are the first ones of the frames still to be delivered. -/
theorem ReceiveState.Tracks.unread_prefix (hs : s.Tracks fs i k) :
    (s.manager.user i).unread <+: stream Frame.bytes (fs.drop k) := by
  rw [hs.unread, stream_drop]
  obtain ⟨rest, hrest⟩ := hs.received_prefix
  rw [← hrest, List.drop_append_of_le_length hs.consumed]
  exact List.prefix_append _ _

theorem ReceiveState.Tracks.length_unread (hs : s.Tracks fs i k) :
    (s.manager.user i).unread.length + (stream Frame.bytes (fs.take k)).length =
      (s.received i).length := by
  have hconsumed := hs.consumed
  rw [hs.unread, List.length_drop]
  omega

theorem stream_drop_eq (hk : k < fs.length) :
    stream Frame.bytes (fs.drop k) = fs[k].bytes ++ stream Frame.bytes (fs.drop (k + 1)) := by
  rw [List.drop_eq_getElem_cons hk, stream_cons]

theorem entries_receive (pData : List UInt8) (j : ℕ) :
    (s.manager.receivePacket j pData).mIncomingPacketUserIndex.count i =
      s.entries i + if j = i then 1 else 0 := by
  simp [ReceiveState.entries, PacketManager.receivePacket, PacketManager.enqueuePacket,
    PacketManager.setUser, List.count_append, List.count_singleton]

/-- What a chunk does to the unread bytes of its client, where it wraps only with none. -/
theorem unread_receive (hs : s.Tracks fs i k) {pData : List UInt8} (hsize : pData.length ≤ 256)
    (hwraps : (s.manager.user i).wraps pData.length = true → (s.manager.user i).unread = []) :
    ((s.manager.receivePacket i pData).user i).unread = (s.manager.user i).unread ++ pData := by
  rw [PacketManager.user_receivePacket, if_pos rfl]
  rcases hfits : (s.manager.user i).wraps pData.length with - | -
  · exact User.unread_setPacketData_of_fits (hs.ordered i) hsize hfits
  · rw [User.unread_setPacketData_of_wraps hsize hfits, hwraps hfits, List.nil_append]

theorem tracks_receive (hs : s.Tracks fs i k) {j : ℕ} {pData : List UInt8}
    (hC : s.Intact i (.receive j pData))
    (hsent : j = i → s.received i ++ pData <+: stream Frame.bytes fs)
    (h : receiveStep s (.receive j pData) = some t) :
    t.Tracks fs i k ∧ t.entries i = s.entries i + if j = i then 1 else 0 := by
  simp only [receiveStep] at h
  split_ifs at h with hsize
  obtain rfl := Option.some.inj h
  have hsize' : pData.length ≤ 256 := by
    unfold maxSockRecvBuf at hsize
    omega
  have hordered := PacketManager.ordered_receivePacket hs.ordered hsize' j
  refine ⟨?_, entries_receive pData j⟩
  by_cases hj : j = i
  · subst hj
    refine ⟨hordered, hs.system, ?_, hs.delivered, hs.le_length, ?_, ?_⟩
    · simp only [Function.update_self]
      exact hsent rfl
    · simp only [Function.update_self, List.length_append]
      exact Nat.le_add_right_of_le hs.consumed
    · simp only [unread_receive hs hsize' (hC rfl), Function.update_self]
      rw [hs.unread, List.drop_append_of_le_length hs.consumed]
  · have hne : i ≠ j := Ne.symm hj
    refine ⟨hordered, hs.system, ?_, hs.delivered, hs.le_length, ?_, ?_⟩
    · simp only [Function.update_of_ne hne]
      exact hs.received_prefix
    · simp only [Function.update_of_ne hne]
      exact hs.consumed
    · simp only [PacketManager.user_receivePacket, if_neg hne, Function.update_of_ne hne]
      exact hs.unread

theorem process_of_no_system (h : receiveStep s .process = some t)
    (hsystem : s.manager.processUserPacket.1.mSystemPacketQueue = []) :
    t = { s with
      manager := s.manager.processUserPacket.1
      calls := s.calls ++ s.manager.processUserPacket.2.toList } := by
  obtain ⟨hmanager, hcall⟩ := PacketManager.processPacket_of_no_system hsystem
  rw [← hmanager, ← hcall]
  exact (Option.some.inj h).symm

theorem process_eq (hs : s.Tracks fs i k) {j : ℕ} {rest : List ℕ}
    (hqueue : s.manager.mIncomingPacketUserIndex = j :: rest)
    (h : receiveStep s .process = some t) :
    t = { s with
      manager := s.manager.processUserPacket.1
      calls := s.calls ++ s.manager.processUserPacket.2.toList } ∧
    t.manager.mSystemPacketQueue = [] ∧ t.manager.mIncomingPacketUserIndex = rest := by
  have hmanager := (PacketManager.processUserPacket_cons hqueue).1
  obtain rfl := process_of_no_system h (by rw [hmanager]; exact hs.system)
  refine ⟨rfl, ?_, ?_⟩
  · simp only [hmanager]
    exact hs.system
  · simp only [hmanager]
    rfl

theorem delivered_append (calls : List RecvCall) (call : Option RecvCall)
    (manager : PacketManager) (received : ℕ → List UInt8) (i : ℕ) :
    ReceiveState.delivered ⟨manager, received, calls ++ call.toList⟩ i =
      ReceiveState.delivered ⟨manager, received, calls⟩ i ++
        (call.toList.filter (·.packetData.ClientIndex = i)).map RecvCall.content := by
  simp only [ReceiveState.delivered, List.filter_append, List.map_append]

/-- An entry of another client. -/
theorem tracks_process_other (hs : s.Tracks fs i k) {j : ℕ} {rest : List ℕ} (hj : j ≠ i)
    (hqueue : s.manager.mIncomingPacketUserIndex = j :: rest)
    (h : receiveStep s .process = some t) : t.Tracks fs i k ∧ t.entries i = s.entries i := by
  obtain ⟨ht, hsystem, hrest⟩ := process_eq hs hqueue h
  obtain ⟨-, hidle, hcall⟩ := PacketManager.processUserPacket_cons hqueue
  have hdelivered : (s.manager.processUserPacket.2.toList.filter
      (·.packetData.ClientIndex = i)).map RecvCall.content = [] := by
    by_cases hid : sysEnd < (s.manager.user j).getPacket.1.PacketID
    · obtain ⟨call, hsome, hpacket, -⟩ := hcall hid
      simp [hsome, hpacket, hj]
    · simp [hidle (UInt16.not_lt.mp hid)]
  have hentries : t.entries i = s.entries i := by
    rw [ReceiveState.entries, ReceiveState.entries, hrest, hqueue, List.count_cons_of_ne hj]
  refine ⟨?_, hentries⟩
  subst ht
  refine ⟨PacketManager.ordered_processUserPacket_cons hs.ordered hqueue, hsystem,
    hs.received_prefix, ?_, hs.le_length, hs.consumed, ?_⟩
  · rw [delivered_append, hdelivered, List.append_nil]
    exact hs.delivered
  · simp only [PacketManager.user_processUserPacket_cons hqueue, if_neg (Ne.symm hj)]
    exact hs.unread

/-- An entry of the client with no whole frame to take. -/
theorem tracks_process_part (hs : s.Tracks fs i k) {rest : List ℕ}
    (hqueue : s.manager.mIncomingPacketUserIndex = i :: rest)
    (hpart : completed Frame.bytes fs (s.received i).length ≤ k)
    (h : receiveStep s .process = some t) :
    t.Tracks fs i k ∧ t.entries i + 1 = s.entries i := by
  have hshort : (s.manager.user i).getPacket = ({}, s.manager.user i) := by
    have hpre := hs.unread_prefix
    have hlength := hs.length_unread
    rcases Nat.lt_or_ge k fs.length with hk | hk
    · rw [stream_drop_eq hk] at hpre
      have hnext := lt_length_of_completed_le hk hpart
      rw [length_stream_take_succ hk] at hnext
      exact getPacket_of_part (hs.ordered i) hpre (by omega)
    · rw [List.drop_eq_nil_of_le hk, stream_nil, List.prefix_nil] at hpre
      exact User.getPacket_of_short (hs.ordered i) (Or.inl (by simp [hpre]))
  obtain ⟨ht, hsystem, hrest⟩ := process_eq hs hqueue h
  obtain ⟨-, hidle, -⟩ := PacketManager.processUserPacket_cons hqueue
  rw [hshort] at hidle
  refine ⟨?_, by
    rw [ReceiveState.entries, ReceiveState.entries, hrest, hqueue, List.count_cons_self]⟩
  subst ht
  refine ⟨PacketManager.ordered_processUserPacket_cons hs.ordered hqueue, hsystem,
    hs.received_prefix, ?_, hs.le_length, hs.consumed, ?_⟩
  · rw [delivered_append, hidle (show (0 : UInt16) ≤ sysEnd by decide)]
    simp only [Option.toList_none, List.filter_nil, List.map_nil, List.append_nil]
    exact hs.delivered
  · simp only [PacketManager.user_processUserPacket_cons hqueue, if_true, hshort]
    exact hs.unread

/-- An entry of the client with a whole frame, which is delivered. -/
theorem tracks_process_whole (hs : s.Tracks fs i k) {rest : List ℕ}
    (hqueue : s.manager.mIncomingPacketUserIndex = i :: rest)
    (hwhole : k < completed Frame.bytes fs (s.received i).length)
    (h : receiveStep s .process = some t) :
    t.Tracks fs i (k + 1) ∧ t.entries i + 1 = s.entries i := by
  obtain ⟨hk, hreceived⟩ := le_completed_iff.mp hwhole
  rw [Nat.succ_eq_add_one] at hreceived
  have hlength := hs.length_unread
  have hsucc : (stream Frame.bytes (fs.take (k + 1))).length =
      (stream Frame.bytes (fs.take k)).length + fs[k].bytes.length := length_stream_take_succ hk
  obtain ⟨bs, hunread⟩ : ∃ bs, (s.manager.user i).unread = fs[k].bytes ++ bs := by
    have hpre := hs.unread_prefix
    rw [stream_drop_eq hk] at hpre
    obtain ⟨bs, hbs⟩ := List.prefix_of_prefix_length_le (List.prefix_append _ _) hpre
      (show fs[k].bytes.length ≤ (s.manager.user i).unread.length by omega)
    exact ⟨bs, hbs.symm⟩
  obtain ⟨p, u, hget, hid, hsize, hbytes, hrest⟩ := getPacket_of_frame (hs.ordered i) hunread
  obtain ⟨ht, hsystem, hqueue'⟩ := process_eq hs hqueue h
  obtain ⟨-, -, hcall⟩ := PacketManager.processUserPacket_cons hqueue
  rw [hget] at hcall
  obtain ⟨call, hsome, hpacket, hcallBytes⟩ := hcall (by rw [hid]; exact fs[k].user)
  have hcontent : call.content = fs[k].content := by
    rw [RecvCall.content, hcallBytes, hbytes, hpacket, Frame.content, hid, hsize]
  have hentries : t.entries i + 1 = s.entries i := by
    rw [ReceiveState.entries, ReceiveState.entries, hqueue', hqueue, List.count_cons_self]
  refine ⟨?_, hentries⟩
  subst ht
  refine ⟨PacketManager.ordered_processUserPacket_cons hs.ordered hqueue, hsystem,
    hs.received_prefix, ?_, hk, hreceived, ?_⟩
  · rw [delivered_append, hsome]
    simp only [Option.toList_some, List.filter_cons, hpacket, decide_true, if_true, List.filter_nil,
      List.map_cons, List.map_nil, hcontent]
    rw [List.take_add_one, List.getElem?_eq_getElem hk, List.map_append]
    exact congrArg (· ++ [fs[k].content]) hs.delivered
  · have hdrop := congrArg (List.drop fs[k].bytes.length) hunread
    rw [List.drop_left, hs.unread, List.drop_drop] at hdrop
    simp only [PacketManager.user_processUserPacket_cons hqueue, if_true, hget]
    rw [hrest, ← hdrop, hsucc]

/-- An iteration delivers a whole frame for each entry of the client, while there is one. -/
theorem tracks_process (hs : s.Tracks fs i k) (h : receiveStep s .process = some t) :
    ∃ k', t.Tracks fs i k' ∧ k' + t.entries i ≤ k + s.entries i ∧
      (completed Frame.bytes fs (s.received i).length ≤ k + s.entries i →
        completed Frame.bytes fs (s.received i).length ≤ k' + t.entries i) := by
  rcases hqueue : s.manager.mIncomingPacketUserIndex with - | ⟨j, rest⟩
  · have hidle := PacketManager.processUserPacket_nil hqueue
    rw [process_of_no_system h (by rw [hidle]; exact hs.system), hidle]
    refine ⟨k, ⟨hs.ordered, hs.system, hs.received_prefix, ?_, hs.le_length, hs.consumed,
      hs.unread⟩, le_refl _, id⟩
    rw [delivered_append]
    simp only [Option.toList_none, List.filter_nil, List.map_nil, List.append_nil]
    exact hs.delivered
  · by_cases hj : j = i
    · subst hj
      rcases Nat.lt_or_ge k (completed Frame.bytes fs (s.received j).length) with hwhole | hpart
      · obtain ⟨ht, hentries⟩ := tracks_process_whole hs hqueue hwhole h
        exact ⟨k + 1, ht, by omega, by omega⟩
      · obtain ⟨ht, hentries⟩ := tracks_process_part hs hqueue hpart h
        exact ⟨k, ht, by omega, by omega⟩
    · obtain ⟨ht, hentries⟩ := tracks_process_other hs hj hqueue h
      exact ⟨k, ht, by omega, by omega⟩

theorem received_of_step (h : receiveStep s e = some t) :
    t.received i = s.received i ++ sentBy i [e] := by
  cases e with
  | receive j pData =>
    simp only [receiveStep] at h
    split_ifs at h
    obtain rfl := Option.some.inj h
    by_cases hj : j = i
    · subst hj
      simp [sentBy]
    · simp [sentBy, hj, Function.update_of_ne (Ne.symm hj)]
  | process =>
    obtain rfl := Option.some.inj h
    simp [sentBy]

/-- The client has an entry for each whole frame that is still to be delivered. -/
def ReceiveState.Attends (fs : List Frame) (i : ℕ) (s : ReceiveState) : Prop :=
  ∃ k, s.Tracks fs i k ∧ completed Frame.bytes fs (s.received i).length ≤ k + s.entries i

theorem attends_start (maxClient : ℤ) (buffers : ℕ → Memory UInt8) (fs : List Frame) (i : ℕ) :
    (ReceiveState.start maxClient buffers).Attends fs i := by
  refine ⟨0, ⟨fun _ => ⟨le_refl _, Nat.succ_pos 8095⟩, rfl, List.nil_prefix, rfl, Nat.zero_le _,
    le_refl _, rfl⟩, ?_⟩
  have hnone : completed Frame.bytes fs 0 = 0 := by
    cases fs with
    | nil => rfl
    | cons f fs =>
      have hlength := f.length_bytes
      rw [completed, if_neg (by omega)]
  exact hnone.le.trans (Nat.zero_le _)

theorem attends_step (hs : s.Attends fs i) (hC : s.Attended fs i e)
    (hsent : t.received i <+: stream Frame.bytes fs) (h : receiveStep s e = some t) :
    t.Attends fs i := by
  obtain ⟨k, htracks, hattended⟩ := hs
  have hreceived := received_of_step (i := i) h
  cases e with
  | receive j pData =>
    obtain ⟨ht, hentries⟩ := tracks_receive htracks (fun hj => (hC hj).1)
      (fun hj => by simpa [hreceived, sentBy, hj] using hsent) h
    refine ⟨k, ht, ?_⟩
    rw [hentries, hreceived]
    by_cases hj : j = i
    · have hcomplete := (hC hj).2
      rw [htracks.length_delivered] at hcomplete
      simpa [sentBy, hj] using hcomplete
    · simpa [sentBy, hj] using hattended
  | process =>
    obtain ⟨k', ht, -, hkeeps⟩ := tracks_process htracks h
    refine ⟨k', ht, ?_⟩
    rw [hreceived]
    simpa [sentBy] using hkeeps hattended

theorem sentBy_cons (e : ReceiveEvent) (es : List ReceiveEvent) :
    sentBy i (e :: es) = sentBy i [e] ++ sentBy i es := by
  simp [sentBy]

theorem framed_run (hs : s.Attends fs i)
    (hsent : s.received i ++ sentBy i es <+: stream Frame.bytes fs)
    (hC : Meets receiveStep (ReceiveState.Attended fs i) s es) :
    Throughout receiveStep (ReceiveState.Framed fs i) s es := by
  have hframed : s.Framed fs i := by
    obtain ⟨k, htracks, hattended⟩ := hs
    exact htracks.framed hattended
  induction es generalizing s with
  | nil =>
    intro pre hp t ht
    obtain rfl := List.prefix_nil.mp hp
    obtain rfl := Option.some.inj ht
    exact hframed
  | cons e es ih =>
    refine throughout_cons hframed fun t ht => ?_
    rw [sentBy_cons, ← List.append_assoc, ← received_of_step ht] at hsent
    have hnext := attends_step hs hC.1 ((List.prefix_append _ _).trans hsent) ht
    obtain ⟨k, htracks, hattended⟩ := hnext
    exact ih ⟨k, htracks, hattended⟩ hsent (hC.2 t ht) (htracks.framed hattended)

/-! ### Frames without an entry -/

/-- Iterations that empty the index queue deliver no more frames than the client has entries. -/
theorem drained (hs : s.Tracks fs i k) :
    ∃ n t k', run receiveStep s (List.replicate n .process) = some t ∧ t.Tracks fs i k' ∧
      t.manager.mIncomingPacketUserIndex = [] ∧ t.received i = s.received i ∧
      k' ≤ k + s.entries i := by
  induction hqueue : s.manager.mIncomingPacketUserIndex generalizing s k with
  | nil => exact ⟨0, s, k, rfl, hs, hqueue, rfl, Nat.le_add_right k _⟩
  | cons j rest ih =>
    obtain ⟨u, hu⟩ : ∃ u, receiveStep s .process = some u := ⟨_, rfl⟩
    obtain ⟨-, -, hrest⟩ := process_eq hs hqueue hu
    obtain ⟨k₁, htracks, hle, -⟩ := tracks_process hs hu
    obtain ⟨n, t, k', hrun, ht, hempty, hreceived, hle'⟩ := ih htracks hrest
    refine ⟨n + 1, t, k', ?_, ht, hempty, ?_, hle'.trans hle⟩
    · rw [List.replicate_succ, run_cons, hu]
      exact hrun
    · rw [hreceived, received_of_step hu]
      exact List.append_nil _

theorem attended_run (hs : s.Attends fs i) (h : run receiveStep s es = some t)
    (hsent : s.received i ++ sentBy i es <+: stream Frame.bytes fs)
    (hC : Meets receiveStep (ReceiveState.Intact i) s es)
    (hP : ∀ pre n, pre <+: es → Throughout receiveStep (ReceiveState.Framed fs i) s
      (pre ++ List.replicate n .process)) :
    Meets receiveStep (ReceiveState.Attended fs i) s es := by
  induction es generalizing s with
  | nil => trivial
  | cons e es ih =>
    obtain ⟨u, hu, hrun⟩ := run_cons_eq_some.mp h
    have hreceived := received_of_step (i := i) hu
    rw [sentBy_cons, ← List.append_assoc, ← hreceived] at hsent
    have hsent' := (List.prefix_append _ _).trans hsent
    have hattended : s.Attended fs i e := by
      cases e with
      | process => trivial
      | receive j pData =>
        rintro rfl
        refine ⟨hC.1 rfl, ?_⟩
        -- With more whole frames than entries, one is left when the index queue is empty.
        by_contra hsurplus
        obtain ⟨k, htracks, -⟩ := hs
        simp only [sentBy, List.flatMap_cons, List.flatMap_nil, List.append_nil, if_true]
          at hreceived
        obtain ⟨hu', hentries⟩ := tracks_receive htracks hC.1 (fun _ => hreceived ▸ hsent') hu
        obtain ⟨n, v, k', hdrain, hv, hempty, hsame, hle⟩ := drained hu'
        have hframed : v.Framed fs j := by
          apply (hP [.receive j pData] n (by simp)).last
          rw [List.singleton_append, run_cons, hu]
          exact hdrain
        have hall := hframed.all_delivered hempty
        rw [hv.length_delivered, hsame, hreceived, List.length_append] at hall
        rw [htracks.length_delivered] at hsurplus
        rw [hentries, if_pos rfl] at hle
        omega
    refine (meets_cons hu).mpr ⟨hattended, ih (attends_step hs hattended hsent' hu) hrun hsent
      (hC.2 u hu) fun pre n hpre => ?_⟩
    exact (hP (e :: pre) n (List.cons_prefix_cons.mpr ⟨rfl, hpre⟩)).tail hu

/-- A client sends the frames `fs`, or a first part of their bytes.  On every run in which each of
its chunks is attended, the frames are delivered in order and none is left behind; and an intact run
keeps to that, whatever number of iterations follows any part of it, only then. -/
theorem framed_iff_attended (maxClient : ℤ) (buffers : ℕ → Memory UInt8) (fs : List Frame) (i : ℕ)
    (es : List ReceiveEvent) (hsent : sentBy i es <+: stream Frame.bytes fs) :
    (Meets receiveStep (ReceiveState.Attended fs i) (.start maxClient buffers) es →
      Throughout receiveStep (ReceiveState.Framed fs i) (.start maxClient buffers) es) ∧
    (∀ s, run receiveStep (.start maxClient buffers) es = some s →
      Meets receiveStep (ReceiveState.Intact i) (.start maxClient buffers) es →
      (∀ pre n, pre <+: es → Throughout receiveStep (ReceiveState.Framed fs i)
        (.start maxClient buffers) (pre ++ List.replicate n .process)) →
      Meets receiveStep (ReceiveState.Attended fs i) (.start maxClient buffers) es) := by
  have hstart := attends_start maxClient buffers fs i
  exact ⟨fun hC => framed_run hstart hsent hC, fun s h hC hP => attended_run hstart h hsent hC hP⟩

/-- A frame of five bytes. -/
def shortFrame : Frame := ⟨221, [0], by decide, by decide, by decide⟩

/-- A frame cut into two chunks. -/
theorem framed_two_chunks : Throughout receiveStep (ReceiveState.Framed [shortFrame] 0)
    (.start 3 fun _ _ => 0)
    [.receive 0 (shortFrame.bytes.take 3), .process, .receive 0 (shortFrame.bytes.drop 3),
      .process] := by
  refine (framed_iff_attended 3 _ [shortFrame] 0 _ (by decide)).1 ⟨fun _ => ⟨fun h => ?_, ?_⟩,
    fun _ ht => ?_⟩
  · cases h
  · decide
  obtain rfl := Option.some.inj ht
  refine ⟨trivial, fun _ ht => ?_⟩
  obtain rfl := Option.some.inj ht
  refine ⟨fun _ => ⟨fun h => ?_, ?_⟩, fun _ _ => ⟨trivial, fun _ _ => trivial⟩⟩
  · cases h
  · decide

/-- Two frames in one chunk: when the index queue is empty again, the second is still unread. -/
theorem second_frame_unread :
    sentBy 0 [.receive 0 (shortFrame.bytes ++ shortFrame.bytes), .process] =
        stream Frame.bytes [shortFrame, shortFrame] ∧
      ∃ s, run receiveStep (.start 3 fun _ _ => 0)
          [.receive 0 (shortFrame.bytes ++ shortFrame.bytes), .process] = some s ∧
        s.manager.mIncomingPacketUserIndex = [] ∧ (s.delivered 0).length = 1 ∧
        ¬s.Framed [shortFrame, shortFrame] 0 := by
  refine ⟨by decide, _, rfl, rfl, rfl, fun hP => ?_⟩
  exact absurd (hP.all_delivered rfl) (by decide)

end IocpStudy.ChatServer
