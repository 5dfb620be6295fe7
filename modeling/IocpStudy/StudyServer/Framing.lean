import IocpStudy.StudyServer.Receive

/-! Frames that a client sends, cut into receive completions.  `_HandleReceive` takes one frame for
each completion and posts no receive without one, so a run of completions delivers the frames if
and only if each completion is exactly one frame. -/

namespace IocpStudy.StudyServer

open Words Runs

/-- A frame on the wire that fits the receive buffer. -/
structure Frame where
  packetID : UInt32
  sessionID : UInt32
  body : List UInt8
  fits : headerSize + body.length ≤ bufferSize

namespace Frame

def header (f : Frame) : PacketHeader :=
  { BodyLength := UInt32.ofNat f.body.length, PacketID := f.packetID, SessionID := f.sessionID }

def bytes (f : Frame) : List UInt8 := f.header.bytes ++ f.body

/-- What the dispatcher is to see of a frame: its packet ID, its body length and its body. -/
def content (f : Frame) : UInt32 × UInt32 × List UInt8 := (f.packetID, f.header.BodyLength, f.body)

@[simp] theorem bodyLength_toNat (f : Frame) : f.header.BodyLength.toNat = f.body.length := by
  have h := f.fits
  simp only [bufferSize] at h
  exact UInt32.toNat_ofNat_of_lt' (by rw [show UInt32.size = 4294967296 from rfl]; omega)

@[simp] theorem length_bytes (f : Frame) : f.bytes.length = headerSize + f.body.length := by
  simp [bytes]

end Frame

def Packet.content (p : Packet) : UInt32 × UInt32 × List UInt8 := (p.PacketID, p.BodyLength, p.body)

/-- The handler runs on all completions `cs`, each of which leaves the receive posted that the next
one and the connection need, and pushes exactly the frames `fs`. -/
def Delivers (client : NetworkClient) (pool : MemoryPool Packet) (cs : List (List UInt8))
    (fs : List Frame) : Prop :=
  ∃ s, run (receiveStep true) (.start client pool) (cs.map (⟨·, true⟩)) = some s ∧
    s.posted.isSome ∧ s.pushed.map Packet.content = fs.map Frame.content

variable {s s' : ReceiveState} {c : List UInt8} {cs : List (List UInt8)} {f : Frame}
  {fs : List Frame}

/-! ### Positions -/

/-- A completion that leaves a receive posted: its handler took a whole frame up to the position
`taken` or beyond, and either emptied the aligned buffer or left the read position ahead by
`taken`. -/
structure ReceiveState.Advanced (s : ReceiveState) (c : List UInt8) (s' : ReceiveState)
    (taken : ℕ) : Prop where
  taken_le : taken ≤ s.client.mReceiveContext.mWritePos + c.length
  taken_eq : taken = s.client.mReceiveContext.mReadPos + s.frameSize ⟨c, true⟩ ∨
    taken = s.client.mReceiveContext.mReadPos + s.frameSize ⟨c, true⟩ + c.length
  pushed : s'.pushed = s.pushed ++ [s.received ⟨c, true⟩]
  aligned : (s'.client.mReceiveContext.mReadPos = 0 ∧ s'.client.mReceiveContext.mWritePos = 0 ∧
      taken = s.client.mReceiveContext.mWritePos + c.length) ∨
    (s'.client.mReceiveContext.mReadPos = taken ∧
      s'.client.mReceiveContext.mWritePos + taken =
        s.client.mReceiveContext.mWritePos + c.length ∧
      taken < s.client.mReceiveContext.mWritePos + c.length)

theorem ReceiveState.frameSize_pos (e : Completion) : 0 < s.frameSize e := by
  unfold frameSize headerSize
  omega

theorem NetworkClient.receive_positions (client : NetworkClient)
    (h0 : client.mReceiveContext.mReadPos ≠ 0)
    (hle : client.mReceiveContext.mReadPos ≤ client.mReceiveContext.mWritePos) :
    ((client.receive true).1.mReceiveContext.mReadPos = 0 ∧
      (client.receive true).1.mReceiveContext.mWritePos = 0 ∧
      client.mReceiveContext.mReadPos = client.mReceiveContext.mWritePos) ∨
    ((client.receive true).1.mReceiveContext.mReadPos = client.mReceiveContext.mReadPos ∧
      (client.receive true).1.mReceiveContext.mWritePos + client.mReceiveContext.mReadPos =
        client.mReceiveContext.mWritePos ∧
      client.mReceiveContext.mReadPos < client.mReceiveContext.mWritePos) := by
  simp only [receive]
  rcases Nat.lt_or_eq_of_le hle with hlt | heq
  · right
    rw [NetworkContext.alignBuffer_of_lt (by exact h0) (by exact hlt)]
    exact ⟨rfl, by simp only; omega, hlt⟩
  · left
    rw [NetworkContext.alignBuffer_of_ge (by exact h0) (by exact heq.ge)]
    exact ⟨rfl, rfl, heq⟩

theorem advanced_of_posted (hs : s.Windowed)
    (h : receiveStep true s ⟨c, true⟩ = some s') (hposted : s'.posted.isSome) :
    ∃ taken, s.Advanced c s' taken := by
  obtain ⟨hopen, -, hfit, hs'⟩ := (receiveStep_eq_some hs).mp h
  have hle : s.CatchesUp ⟨c, true⟩ := by
    by_contra hbehind
    have hnone := (NetworkClient.getPacket_behind (c := s.filled ⟨c, true⟩)
      s.packetPool (Nat.lt_of_not_le hbehind) (hs.readPos_le hopen)).1
    simp [hs', dispatchReceived, hnone, ReceiveState.handled] at hposted
  have hwhole : s.Whole ⟨c, true⟩ := by
    by_contra hshort
    simp [receiveStep_incomplete hs h hle hshort] at hposted
  obtain ⟨-, -, hnext⟩ := receiveStep_whole hs h hle hwhole
  obtain ⟨hpushed, hclient, -⟩ := hnext rfl
  obtain ⟨htaken, hcases⟩ := ReceiveState.consumed_readPos hle hwhole
  have hw := ReceiveState.consumed_writePos (s := s) (e := ⟨c, true⟩)
  have hpos := ReceiveState.frameSize_pos (s := s) ⟨c, true⟩
  refine ⟨(s.consumed ⟨c, true⟩).mReceiveContext.mReadPos, htaken, hcases, hpushed, ?_⟩
  rw [hclient]
  rcases NetworkClient.receive_positions (s.consumed ⟨c, true⟩) (by omega)
    (by rw [hw]; exact htaken) with ⟨hr, hz, heq⟩ | ⟨hr, hsum, hlt⟩
  · exact Or.inl ⟨hr, hz, heq.trans hw⟩
  · exact Or.inr ⟨hr, hsum.trans hw, hw ▸ hlt⟩

/-- The total length of the chunks. -/
def totalLength (cs : List (List UInt8)) : ℕ := cs.flatten.length

/-- The lengths that the packets of a run announce, headers included. -/
def announced (ps : List Packet) : ℕ := (ps.map fun p => headerSize + p.BodyLength.toNat).sum

theorem ReceiveState.received_size (e : Completion) :
    headerSize + (s.received e).BodyLength.toNat = s.frameSize e := rfl

/-- A run that ends with a receive posted has one posted before each chunk. -/
theorem posted_of_run (hs : s.Windowed)
    (h : run (receiveStep true) s (cs.map (⟨·, true⟩)) = some s') (hposted : s'.posted.isSome) :
    s.posted.isSome := by
  cases cs with
  | nil =>
    cases h
    exact hposted
  | cons c cs =>
    obtain ⟨t, ht, -⟩ := run_cons_eq_some.mp h
    exact ((receiveStep_eq_some hs).mp ht).1

/-- The frames that a run with receives posted throughout still takes fit between the read position
and the end of what is still to be received. -/
theorem announced_le (hs : s.Windowed) (hne : cs ≠ [])
    (h : run (receiveStep true) s (cs.map (⟨·, true⟩)) = some s') (hposted : s'.posted.isSome) :
    ∃ ps, s'.pushed = s.pushed ++ ps ∧ ps.length = cs.length ∧
      s.client.mReceiveContext.mReadPos + announced ps ≤
        s.client.mReceiveContext.mWritePos + totalLength cs := by
  induction cs generalizing s with
  | nil => exact absurd rfl hne
  | cons c cs ih =>
    rw [List.map_cons, run_cons_eq_some] at h
    obtain ⟨t, ht, hrun⟩ := h
    have htopen := posted_of_run (receiveStep_windowed hs ht) hrun hposted
    obtain ⟨taken, hadv⟩ := advanced_of_posted hs ht htopen
    have hle := hadv.taken_le
    have hsize := ReceiveState.received_size (s := s) ⟨c, true⟩
    by_cases hcs : cs = []
    · subst hcs
      cases hrun
      refine ⟨[s.received ⟨c, true⟩], hadv.pushed, rfl, ?_⟩
      simp only [announced, totalLength, List.map_cons, List.map_nil, List.sum_cons, List.sum_nil,
        List.flatten_cons, List.flatten_nil, List.append_nil]
      rcases hadv.taken_eq with heq | heq <;> omega
    · obtain ⟨ps, hps, hlen, hfit⟩ := ih (receiveStep_windowed hs ht) hcs hrun
      refine ⟨s.received ⟨c, true⟩ :: ps, ?_, by simp [hlen], ?_⟩
      · rw [hps, hadv.pushed, List.append_assoc, List.singleton_append]
      · simp only [announced, totalLength, List.map_cons, List.sum_cons, List.flatten_cons,
          List.length_append] at hfit ⊢
        rcases hadv.taken_eq with heq | heq <;>
          rcases hadv.aligned with ⟨hr, hw, hall⟩ | ⟨hr, hw, hlt⟩ <;> omega

theorem announced_eq {ps : List Packet} (h : ps.map Packet.content = fs.map Frame.content) :
    announced ps = totalLength (fs.map Frame.bytes) := by
  induction ps generalizing fs with
  | nil =>
    obtain rfl : fs = [] := by simpa using h.symm
    rfl
  | cons p ps ih =>
    cases fs with
    | nil => simp at h
    | cons f fs =>
      simp only [List.map_cons, List.cons.injEq] at h
      have hlength : p.BodyLength = f.header.BodyLength := congrArg (·.2.1) h.1
      have hrest := ih h.2
      simp only [announced, totalLength, List.map_cons, List.sum_cons, List.flatten_cons,
        List.length_append, Frame.length_bytes, hlength, Frame.bodyLength_toNat] at hrest ⊢
      omega

/-- A run with receives posted throughout takes one packet for each chunk. -/
theorem pushed_of_chunks (hs : s.Windowed)
    (h : run (receiveStep true) s (cs.map (⟨·, true⟩)) = some s') (hposted : s'.posted.isSome) :
    ∃ ps, s'.pushed = s.pushed ++ ps ∧ ps.length = cs.length ∧
      (cs ≠ [] → s.client.mReceiveContext.mReadPos + announced ps ≤
        s.client.mReceiveContext.mWritePos + totalLength cs) := by
  by_cases hcs : cs = []
  · subst hcs
    cases h
    exact ⟨[], (List.append_nil _).symm, rfl, fun hne => absurd rfl hne⟩
  · obtain ⟨ps, hps, hlen, hfit⟩ := announced_le hs hcs h hposted
    exact ⟨ps, hps, hlen, fun _ => hfit⟩

/-- A chunk on an empty buffer is exactly its frame where the frames behind it fit what the chunks
behind it bring: bytes left over would be skipped, and missing at the end. -/
theorem ReceiveState.Advanced.exact {taken n rest more : ℕ} (hadv : s.Advanced c s' taken)
    (hr : s.client.mReceiveContext.mReadPos = 0) (hw : s.client.mReceiveContext.mWritePos = 0)
    (hsize : s.frameSize ⟨c, true⟩ = n) (htotal : c.length + more = n + rest)
    (hfit : s'.client.mReceiveContext.mReadPos + rest ≤
      s'.client.mReceiveContext.mWritePos + more) :
    c.length = n ∧ s'.client.mReceiveContext.mReadPos = 0 ∧
      s'.client.mReceiveContext.mWritePos = 0 := by
  have hpos := ReceiveState.frameSize_pos (s := s) ⟨c, true⟩
  have htaken := hadv.taken_eq
  rcases hadv.aligned with ⟨hr', hw', hall⟩ | ⟨hr', hw', -⟩
  · exact ⟨by omega, hr', hw'⟩
  · omega

/-! ### Only whole frames are delivered -/

/-- From an empty buffer, chunks of the frames' bytes that the handlers turn into exactly the
frames are the frames. -/
theorem chunks_eq_frames (hs : s.Windowed) (hr : s.client.mReceiveContext.mReadPos = 0)
    (hw : s.client.mReceiveContext.mWritePos = 0)
    (hcut : cs.flatten = (fs.map Frame.bytes).flatten)
    (h : run (receiveStep true) s (cs.map (⟨·, true⟩)) = some s') (hposted : s'.posted.isSome)
    {ps : List Packet} (hps : s'.pushed = s.pushed ++ ps)
    (hcontent : ps.map Packet.content = fs.map Frame.content) : cs = fs.map Frame.bytes := by
  induction cs generalizing s fs ps with
  | nil =>
    cases h
    obtain rfl : ps = [] := by simpa using hps
    obtain rfl : fs = [] := by simpa using hcontent.symm
    rfl
  | cons c cs ih =>
    rw [List.map_cons, run_cons_eq_some] at h
    obtain ⟨t, ht, hrun⟩ := h
    have htw := receiveStep_windowed hs ht
    obtain ⟨qs, hqs, hlen, hfit⟩ := pushed_of_chunks htw hrun hposted
    obtain ⟨taken, hadv⟩ := advanced_of_posted hs ht (posted_of_run htw hrun hposted)
    obtain rfl : ps = s.received ⟨c, true⟩ :: qs := by
      rw [hqs, hadv.pushed, List.append_assoc, List.singleton_append] at hps
      exact (List.append_cancel_left hps).symm
    cases fs with
    | nil => simp at hcontent
    | cons f fs =>
      simp only [List.map_cons, List.cons.injEq] at hcontent
      have hsize : s.frameSize ⟨c, true⟩ = f.bytes.length := by
        have hlength : (s.received ⟨c, true⟩).BodyLength = f.header.BodyLength :=
          congrArg (·.2.1) hcontent.1
        rw [← ReceiveState.received_size, hlength, Frame.bodyLength_toNat, Frame.length_bytes]
      have htotal : c.length + totalLength cs =
          f.bytes.length + totalLength (fs.map Frame.bytes) := by
        simpa [totalLength] using congrArg List.length hcut
      by_cases hcs : cs = []
      · subst hcs
        obtain rfl : qs = [] := by simpa using hlen
        obtain rfl : fs = [] := by simpa using hcontent.2.symm
        simpa using hcut
      · have hroom := hfit hcs
        rw [announced_eq hcontent.2] at hroom
        obtain ⟨hlength, hr', hw'⟩ := hadv.exact hr hw hsize htotal hroom
        have hsplit := List.append_inj (by simpa using hcut) hlength
        rw [List.map_cons, hsplit.1, ih htw hr' hw' hsplit.2 hrun hqs hcontent.2]

/-! ### Whole frames are delivered -/

theorem receiveStep_frame (hs : s.Windowed) (hopen : s.posted.isSome)
    (hr : s.client.mReceiveContext.mReadPos = 0) (hw : s.client.mReceiveContext.mWritePos = 0) :
    ∃ t p, receiveStep true s ⟨f.bytes, true⟩ = some t ∧ t.posted.isSome ∧
      t.client.mReceiveContext.mReadPos = 0 ∧ t.client.mReceiveContext.mWritePos = 0 ∧
      t.pushed = s.pushed ++ [p] ∧ p.content = f.content := by
  have hne : f.bytes ≠ [] := by
    rw [← List.length_pos_iff, Frame.length_bytes]
    unfold headerSize
    omega
  have hfit : s.client.mReceiveContext.mWritePos + f.bytes.length ≤ bufferSize := by
    rw [hw, Frame.length_bytes, Nat.zero_add]
    exact f.fits
  obtain ⟨t, ht⟩ : ∃ t, receiveStep true s ⟨f.bytes, true⟩ = some t :=
    ⟨_, (receiveStep_eq_some hs).mpr ⟨hopen, hne, hfit, rfl⟩⟩
  have hunread : (s.filled ⟨f.bytes, true⟩).mReceiveContext.unread = f.bytes := by
    simp only [ReceiveState.filled, NetworkContext.unread, hr, hw, Nat.zero_add, Nat.sub_zero]
    exact Memory.slice_write_self _
  have hheader : (s.filled ⟨f.bytes, true⟩).unreadHeader = f.header := by
    rw [NetworkClient.unreadHeader, hunread, Frame.bytes,
      List.take_left' f.header.length_bytes, PacketHeader.ofBytes_bytes]
  have hsize : s.frameSize ⟨f.bytes, true⟩ = f.bytes.length := by
    rw [ReceiveState.frameSize, hheader, Frame.bodyLength_toNat, Frame.length_bytes]
  have hle : s.CatchesUp ⟨f.bytes, true⟩ := by
    unfold ReceiveState.CatchesUp
    omega
  have hwhole : s.Whole ⟨f.bytes, true⟩ := by
    rw [ReceiveState.Whole, hunread, hsize]
  obtain ⟨-, -, hnext⟩ := receiveStep_whole hs ht hle hwhole
  obtain ⟨hpushed, hclient, hposted⟩ := hnext rfl
  have htopen : t.posted.isSome := by simp [hposted, NetworkClient.receive]
  obtain ⟨taken, hadv⟩ := advanced_of_posted hs ht htopen
  have hempty : t.client.mReceiveContext.mReadPos = 0 ∧ t.client.mReceiveContext.mWritePos = 0 := by
    rcases hadv.aligned with ⟨hr', hw', -⟩ | ⟨-, -, hlt⟩
    · exact ⟨hr', hw'⟩
    · rcases hadv.taken_eq with heq | heq <;> omega
  have hdrop : (f.bytes.drop headerSize).take f.body.length = f.body := by
    rw [Frame.bytes, List.drop_left' f.header.length_bytes, List.take_length]
  have hbody : (s.received ⟨f.bytes, true⟩).body = f.body := by
    simp only [Packet.body, ReceiveState.received, NetworkClient.unreadPacket, hunread, hheader,
      Frame.bodyLength_toNat, hdrop]
    exact Memory.slice_write_self _
  have hcontent : (s.received ⟨f.bytes, true⟩).content = f.content := by
    rw [Packet.content, hbody]
    simp only [ReceiveState.received, NetworkClient.unreadPacket, hheader]
    rfl
  exact ⟨t, s.received ⟨f.bytes, true⟩, ht, htopen, hempty.1, hempty.2, hpushed, hcontent⟩

theorem run_frames (hs : s.Windowed) (hopen : s.posted.isSome)
    (hr : s.client.mReceiveContext.mReadPos = 0) (hw : s.client.mReceiveContext.mWritePos = 0)
    (fs : List Frame) :
    ∃ s' ps, run (receiveStep true) s ((fs.map Frame.bytes).map (⟨·, true⟩)) = some s' ∧
      s'.posted.isSome ∧ s'.pushed = s.pushed ++ ps ∧
      ps.map Packet.content = fs.map Frame.content := by
  induction fs generalizing s with
  | nil => exact ⟨s, [], rfl, hopen, by simp, rfl⟩
  | cons f fs ih =>
    obtain ⟨t, p, ht, htopen, htr, htw, hpushed, hp⟩ := receiveStep_frame (f := f) hs hopen hr hw
    obtain ⟨u, ps, hu, huopen, hps, hcontent⟩ := ih (receiveStep_windowed hs ht) htopen htr htw
    refine ⟨u, p :: ps, ?_, huopen, ?_, by simp [hp, hcontent]⟩
    · rw [List.map_cons, List.map_cons, run_cons, ht]
      exact hu
    · rw [hps, hpushed, List.append_assoc, List.singleton_append]

/-- The handlers deliver the frames `fs` from the completions `cs`, a cut of the frames' bytes, if
and only if each completion is one whole frame. -/
theorem delivers_iff (client : NetworkClient) (pool : MemoryPool Packet) (cs : List (List UInt8))
    (fs : List Frame) (hcut : cs.flatten = (fs.map Frame.bytes).flatten) :
    Delivers client pool cs fs ↔ cs = fs.map Frame.bytes := by
  constructor
  · rintro ⟨s, hrun, hposted, hcontent⟩
    exact chunks_eq_frames ReceiveState.windowed_start rfl rfl hcut hrun hposted
      (List.nil_append _).symm hcontent
  · rintro rfl
    obtain ⟨s, ps, hrun, hposted, hps, hcontent⟩ :=
      run_frames (s := .start client pool) ReceiveState.windowed_start rfl rfl rfl fs
    obtain rfl : s.pushed = ps := by simpa [ReceiveState.start] using hps
    exact ⟨s, hrun, hposted, hcontent⟩

/-- A frame with packet ID 1 and a body of one byte. -/
def echoFrame : Frame := ⟨1, 0, [65], by decide⟩

/-- Two frames in two completions. -/
theorem delivers_two_frames :
    Delivers .new ⟨[]⟩ [echoFrame.bytes, echoFrame.bytes] [echoFrame, echoFrame] :=
  (delivers_iff .new ⟨[]⟩ _ [echoFrame, echoFrame] rfl).mpr rfl

/-- A frame cut inside its header: the first completion leaves nothing pushed and no receive
posted. -/
theorem split_header_not_delivered :
    [echoFrame.bytes.take 4, echoFrame.bytes.drop 4].flatten =
        ([echoFrame].map Frame.bytes).flatten ∧
      (∃ s, run (receiveStep true) (.start .new ⟨[]⟩) [⟨echoFrame.bytes.take 4, true⟩] = some s ∧
        s.posted = none ∧ s.pushed.length = 0) ∧
      ¬Delivers .new ⟨[]⟩ [echoFrame.bytes.take 4, echoFrame.bytes.drop 4] [echoFrame] := by
  refine ⟨by decide, ⟨_, rfl, rfl, rfl⟩, ?_⟩
  rintro ⟨s, hrun, -, -⟩
  have hstop : run (receiveStep true) (.start .new ⟨[]⟩)
      ([echoFrame.bytes.take 4, echoFrame.bytes.drop 4].map (⟨·, true⟩)) = none := rfl
  rw [hstop] at hrun
  cases hrun

end IocpStudy.StudyServer
