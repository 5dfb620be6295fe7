import IocpStudy.Lib.Runs
import IocpStudy.StudyServer.NetworkClient

/-! The send side of one connected client: a machine that interleaves the steps of any number of
`PushSendPacket` calls (the enqueue, the exchange of `mSending`, the `Send` of the call that won it)
with the send completions and the two halves of `_HandleSend`.  One party at a time owns the send
context, so the bytes on the wire are the packets in order.  The exchange of a call that finds
`mSending` set leaves its packet to nobody, and no failure of `Send` releases `mSending`. -/

namespace IocpStudy.StudyServer

open Runs

/-- `waiting` counts the calls of `PushSendPacket` between their enqueue and their exchange,
`sending` those that won the exchange and have yet to call `Send`, and `finishing` the calls of
`_HandleSend` behind their `context.Read`.  `pushed` and `transferred` record the packets enqueued
and the bytes that the socket took; `failures` has the value of `mSending` at the return of each
call whose `Send` returned false. -/
structure SendState where
  client : NetworkClient
  waiting : ℕ := 0
  sending : ℕ := 0
  finishing : ℕ := 0
  outstanding : List Submission := []
  pushed : List Packet := []
  transferred : List UInt8 := []
  failures : List Bool := []

/-- `complete i n` is the completion of the outstanding `WSASend` number `i` with `n` bytes, up to
the `context.Read` of its handler, and `finish` the rest of the handler. -/
inductive SendEvent
  | enqueue (packet : Packet)
  | exchange
  | send (wsaSend : Bool)
  | complete (i n : ℕ)
  | finish (wsaSend : Bool)

namespace SendState

/-- The state when a call of `Send`, or of a function that may call it, has returned. -/
def called (s : SendState) (result : SendResult) : SendState :=
  { s with
    client := result.client
    outstanding := s.outstanding ++ result.submitted.toList
    failures := if result.returned then s.failures else s.failures ++ [result.client.mSending] }

/-- A client just initialised, with the packets its queue has kept. -/
def start (client : NetworkClient) : SendState :=
  { client := client.init, pushed := client.mSendQueue }

/-- The bytes of the send context that an outstanding `WSASend` reads. -/
def window (s : SendState) (wsaBuf : WsaBuf) : List UInt8 :=
  s.client.mSendContext.mBuffer.slice wsaBuf.buf wsaBuf.len

/-- No `WSASend` is outstanding and no call is in progress. -/
def Quiescent (s : SendState) : Prop :=
  s.outstanding = [] ∧ s.waiting = 0 ∧ s.sending = 0 ∧ s.finishing = 0

/-- The number of parties that own the send context. -/
def owners (s : SendState) : ℕ := s.sending + s.finishing + s.outstanding.length

end SendState

def sendStep (s : SendState) : SendEvent → Option SendState
  | .enqueue packet =>
    if packet.BodyLength.toNat ≤ bodyCapacity then
      some { s with
        client := s.client.enqueuePacket packet
        waiting := s.waiting + 1
        pushed := s.pushed ++ [packet] }
    else none
  | .exchange =>
    if s.waiting = 0 then none
    else if s.client.mSending then some { s with waiting := s.waiting - 1 }
    else
      some { s with
        client := { s.client with mSending := true }
        waiting := s.waiting - 1
        sending := s.sending + 1 }
  | .send wsaSend =>
    if s.sending = 0 then none
    else some ({ s with sending := s.sending - 1 }.called (s.client.send wsaSend))
  | .complete i n =>
    match s.outstanding[i]? with
    | none => none
    | some submission =>
      if n = 0 ∨ submission.wsaBuf.len < n then none
      else
        let taken := { s with
          outstanding := s.outstanding.eraseIdx i
          transferred := s.transferred ++ s.window ⟨submission.wsaBuf.buf, n⟩ }
        match s.client.handleSendRead n with
        | none => some taken
        | some client => some { taken with client, finishing := s.finishing + 1 }
  | .finish wsaSend =>
    if s.finishing = 0 then none
    else some ({ s with finishing := s.finishing - 1 }.called (s.client.handleSendFinish wsaSend))

/-! ### The owner of the send context -/

/-- One party at most owns the send context, which holds the rest of the packet that is being sent,
and the packets behind it are in the queue. -/
structure SendState.OneSender (s : SendState) : Prop where
  ordered : s.client.mSendContext.Ordered
  one : s.owners ≤ 1
  released : s.client.mSending = false → s.owners = 0
  fresh : s.client.mSending = false ∨ 0 < s.sending → s.client.mSendContext.unread = []
  submitted : ∀ sub ∈ s.outstanding, s.client.mSendContext.unread ≠ [] ∧
    sub = ⟨⟨s.client.mSendContext.mReadPos, s.client.mSendContext.unread.length⟩,
      s.client.mSendContext.unread⟩
  queued : s.waiting + s.sending ≤ s.client.mSendQueue.length
  stream : s.transferred ++ s.client.mSendContext.unread ++
    s.client.mSendQueue.flatMap Packet.encode = s.pushed.flatMap Packet.encode
  held : ∀ b ∈ s.failures, b = true
  owned : s.client.mSending = true → s.failures = [] → s.owners = 1

variable {s t : SendState} {e : SendEvent} {es : List SendEvent} {client : NetworkClient}

/-- A client whose `Send` has written the packet at the front of the queue to `context`. -/
def NetworkClient.written (c : NetworkClient) (context : NetworkContext) (packet : Packet)
    (queue : List Packet) : NetworkClient :=
  { c with mSendContext := context, mSendQueue := queue, sending := some packet }

theorem sendStep_send {ok : Bool} (hs : s.OneSender) (h : sendStep s (.send ok) = some t) :
    0 < s.sending ∧ ∃ p queue context, s.client.mSendQueue = p :: queue ∧ context.Ordered ∧
      (headerSize + p.BodyLength.toNat ≤ bufferSize ∧ context.unread = p.encode ∧ t =
        { s with client := s.client.written context p queue, sending := s.sending - 1 }.called
          ((s.client.written context p queue).submit ok) ∨
      bufferSize < headerSize + p.BodyLength.toNat ∧ context.unread = [] ∧ t = { s with
        client := { s.client with mSendContext := context }
        sending := s.sending - 1
        failures := s.failures ++ [s.client.mSending] }) := by
  simp only [sendStep] at h
  split_ifs at h with hzero
  have hpos := Nat.pos_of_ne_zero hzero
  have hunread := hs.fresh (Or.inr hpos)
  have hqueued := hs.queued
  obtain ⟨p, queue, hqueue⟩ :=
    List.exists_cons_of_length_pos (show 0 < s.client.mSendQueue.length by omega)
  rcases Nat.lt_or_ge bufferSize (headerSize + p.BodyLength.toNat) with hlong | hfit
  · obtain ⟨context, hord, hempty, hsend⟩ :=
      NetworkClient.send_of_long ok hs.ordered hunread hqueue hlong
    rw [hsend] at h
    refine ⟨hpos, p, queue, context, hqueue, hord, Or.inr ⟨hlong, hempty, ?_⟩⟩
    simpa [SendState.called] using h.symm
  · obtain ⟨context, hord, hbytes, hsend⟩ :=
      NetworkClient.send_of_queue ok hs.ordered hunread hqueue hfit
    rw [hsend] at h
    exact ⟨hpos, p, queue, context, hqueue, hord,
      Or.inl ⟨hfit, hbytes, (Option.some.inj h).symm⟩⟩

/-- A completion is for the only `WSASend` outstanding, and takes the front of the unread bytes. -/
theorem sendStep_complete {i n : ℕ} (hs : s.OneSender)
    (h : sendStep s (.complete i n) = some t) :
    i = 0 ∧ ∃ sub context, s.outstanding = [sub] ∧
      s.client.mSendContext.read n = some context ∧ t = { s with
        client := { s.client with mSendContext := context }
        finishing := s.finishing + 1
        outstanding := []
        transferred := s.transferred ++ s.client.mSendContext.unread.take n } := by
  simp only [sendStep] at h
  cases hget : s.outstanding[i]? with
  | none => simp [hget] at h
  | some sub =>
    obtain ⟨hi, hsub⟩ := List.getElem?_eq_some_iff.mp hget
    have hone := hs.one
    unfold SendState.owners at hone
    obtain ⟨sub', hout⟩ := List.length_eq_one_iff.mp (show s.outstanding.length = 1 by omega)
    obtain rfl : i = 0 := by omega
    obtain rfl : sub' = sub := by simpa [hout] using hget
    obtain ⟨-, hsubmitted⟩ := hs.submitted sub' (by simp [hout])
    simp only [hget] at h
    split_ifs at h with hbounds
    have hlen : n ≤ s.client.mSendContext.unread.length := by
      rw [hsubmitted] at hbounds
      simp only at hbounds
      omega
    have hread := NetworkContext.read_of_le (c := s.client.mSendContext) (n := n)
      (by rw [NetworkContext.length_unread] at hlen; omega)
    have hbytes : s.window ⟨sub'.wsaBuf.buf, n⟩ = s.client.mSendContext.unread.take n := by
      rw [hsubmitted]
      simp only [SendState.window, NetworkContext.unread]
      rw [Memory.take_slice _ (by simpa using hlen)]
    simp only [NetworkClient.handleSendRead, hread, Option.map_some, hbytes, hout] at h
    exact ⟨rfl, sub', _, hout, hread, (Option.some.inj h).symm⟩

theorem sendStep_finish {ok : Bool} (hs : s.OneSender) (h : sendStep s (.finish ok) = some t) :
    0 < s.finishing ∧ (s.client.mSendContext.unread ≠ [] ∧
      t = { s with finishing := s.finishing - 1 }.called (s.client.submit ok) ∨
    s.client.mSendContext.unread = [] ∧ t = { s with
      client := { s.client with mSending := false }
      finishing := s.finishing - 1 }) := by
  simp only [sendStep] at h
  split_ifs at h with hzero
  refine ⟨Nat.pos_of_ne_zero hzero, ?_⟩
  by_cases hunread : s.client.mSendContext.unread = []
  · have hdata : ¬0 < s.client.mSendContext.getDataSize := by
      rw [(NetworkClient.dataSize_eq_zero_iff hs.ordered).mpr hunread]
      exact lt_irrefl 0
    refine Or.inr ⟨hunread, ?_⟩
    simpa [NetworkClient.handleSendFinish, hdata, SendState.called] using h.symm
  · have hdata : 0 < s.client.mSendContext.getDataSize := by
      have hr := hs.ordered.readPos_le
      rw [NetworkContext.unread_eq_nil_iff] at hunread
      unfold NetworkContext.getDataSize
      omega
    rw [NetworkClient.handleSendFinish, if_pos hdata,
      NetworkClient.send_of_unread ok hs.ordered hunread] at h
    exact Or.inl ⟨hunread, (Option.some.inj h).symm⟩

/-- What one event does, where one party at most owns the send context. -/
theorem sendStep_cases (hs : s.OneSender) (h : sendStep s e = some t) :
    (∃ p, e = .enqueue p ∧ t = { s with
        client := s.client.enqueuePacket p
        waiting := s.waiting + 1
        pushed := s.pushed ++ [p] }) ∨
    (e = .exchange ∧ 0 < s.waiting ∧ s.client.mSending = true ∧
      t = { s with waiting := s.waiting - 1 }) ∨
    (e = .exchange ∧ 0 < s.waiting ∧ s.client.mSending = false ∧ t = { s with
        client := { s.client with mSending := true }
        waiting := s.waiting - 1
        sending := s.sending + 1 }) ∨
    (∃ ok p queue context, e = .send ok ∧ 0 < s.sending ∧ s.client.mSendQueue = p :: queue ∧
      headerSize + p.BodyLength.toNat ≤ bufferSize ∧ context.Ordered ∧
      context.unread = p.encode ∧ t =
        { s with client := s.client.written context p queue, sending := s.sending - 1 }.called
          ((s.client.written context p queue).submit ok)) ∨
    (∃ ok p queue context, e = .send ok ∧ 0 < s.sending ∧ s.client.mSendQueue = p :: queue ∧
      bufferSize < headerSize + p.BodyLength.toNat ∧ context.Ordered ∧ context.unread = [] ∧
      t = { s with
        client := { s.client with mSendContext := context }
        sending := s.sending - 1
        failures := s.failures ++ [s.client.mSending] }) ∨
    (∃ n sub context, e = .complete 0 n ∧ s.outstanding = [sub] ∧
      s.client.mSendContext.read n = some context ∧ t = { s with
        client := { s.client with mSendContext := context }
        finishing := s.finishing + 1
        outstanding := []
        transferred := s.transferred ++ s.client.mSendContext.unread.take n }) ∨
    (∃ ok, e = .finish ok ∧ 0 < s.finishing ∧ s.client.mSendContext.unread ≠ [] ∧
      t = { s with finishing := s.finishing - 1 }.called (s.client.submit ok)) ∨
    (∃ ok, e = .finish ok ∧ 0 < s.finishing ∧ s.client.mSendContext.unread = [] ∧ t = { s with
        client := { s.client with mSending := false }
        finishing := s.finishing - 1 }) := by
  cases e with
  | enqueue p =>
    simp only [sendStep] at h
    split_ifs at h
    exact .inl ⟨p, rfl, (Option.some.inj h).symm⟩
  | exchange =>
    simp only [sendStep] at h
    split_ifs at h with hwaiting hsending
    · exact .inr (.inl ⟨rfl, Nat.pos_of_ne_zero hwaiting, hsending, (Option.some.inj h).symm⟩)
    · exact .inr (.inr (.inl ⟨rfl, Nat.pos_of_ne_zero hwaiting, by simpa using hsending,
        (Option.some.inj h).symm⟩))
  | send ok =>
    obtain ⟨hpos, p, queue, context, hqueue, hord, ⟨hfit, hbytes, ht⟩ | ⟨hlong, hempty, ht⟩⟩ :=
      sendStep_send hs h
    · exact .inr (.inr (.inr (.inl
        ⟨ok, p, queue, context, rfl, hpos, hqueue, hfit, hord, hbytes, ht⟩)))
    · exact .inr (.inr (.inr (.inr (.inl
        ⟨ok, p, queue, context, rfl, hpos, hqueue, hlong, hord, hempty, ht⟩))))
  | complete i n =>
    obtain ⟨rfl, sub, context, hout, hread, ht⟩ := sendStep_complete hs h
    exact .inr (.inr (.inr (.inr (.inr (.inl ⟨n, sub, context, rfl, hout, hread, ht⟩)))))
  | finish ok =>
    obtain ⟨hpos, ⟨hunread, ht⟩ | ⟨hunread, ht⟩⟩ := sendStep_finish hs h
    · exact .inr (.inr (.inr (.inr (.inr (.inr (.inl ⟨ok, rfl, hpos, hunread, ht⟩))))))
    · exact .inr (.inr (.inr (.inr (.inr (.inr (.inr ⟨ok, rfl, hpos, hunread, ht⟩))))))

theorem SendState.oneSender_start : (start client).OneSender := by
  have hempty : client.init.mSendContext.unread = [] := rfl
  constructor
  · exact NetworkContext.Ordered.resetBuffer
  · exact Nat.zero_le 1
  · exact fun _ => rfl
  · exact fun _ => hempty
  · intro sub hsub
    simp [start] at hsub
  · exact Nat.zero_le _
  · rfl
  · intro b hb
    simp [start] at hb
  · intro h
    simp [start, NetworkClient.init, NetworkClient.reset] at h

/-- A party that owns the send context with bytes in it submits these, which passes the context to
the `WSASend` or, where that is refused, to nobody. -/
theorem SendState.OneSender.submit (ok : Bool) (hord : s.client.mSendContext.Ordered)
    (hsending : s.client.mSending = true) (hone : s.owners = 0)
    (hunread : s.client.mSendContext.unread ≠ [])
    (hqueued : s.waiting + s.sending ≤ s.client.mSendQueue.length)
    (hstream : s.transferred ++ s.client.mSendContext.unread ++
      s.client.mSendQueue.flatMap Packet.encode = s.pushed.flatMap Packet.encode)
    (hheld : ∀ b ∈ s.failures, b = true) : (s.called (s.client.submit ok)).OneSender := by
  have hsubmitted := NetworkClient.submit_submitted ok hord
  simp only [owners] at hone
  obtain hout : s.outstanding = [] := List.length_eq_zero_iff.mp (by omega)
  have hnone : s.sending = 0 := by omega
  constructor
  · exact ⟨hord.readPos_le, hord.writePos_le⟩
  · simp only [owners, called, hsubmitted, hout]
    cases ok <;> simp <;> omega
  · intro hfalse
    exact absurd (hsending.symm.trans hfalse) (by simp)
  · rintro (hfalse | hpos)
    · exact absurd (hsending.symm.trans hfalse) (by simp)
    · exact absurd hpos (by simp [called, hnone])
  · intro sub hsub
    simp only [called, hsubmitted, hout, List.nil_append] at hsub
    cases ok with
    | false => simp at hsub
    | true =>
      simp only [if_true, Option.toList_some, List.mem_singleton] at hsub
      exact ⟨hunread, hsub⟩
  · exact hqueued
  · exact hstream
  · intro b hb
    cases ok with
    | true => exact hheld b hb
    | false =>
      rcases List.mem_append.mp hb with hb | hb
      · exact hheld b hb
      · rw [List.mem_singleton.mp hb]
        exact hsending
  · intro _ hfailures
    cases ok with
    | true => simp only [owners, called, hsubmitted, hout]; simp; omega
    | false => simp [called, NetworkClient.submit] at hfailures

theorem SendState.OneSender.mSending_of_owner (hs : s.OneSender)
    (h : 0 < s.sending ∨ 0 < s.finishing ∨ 0 < s.outstanding.length) :
    s.client.mSending = true := by
  by_contra hfalse
  have hzero := hs.released (by simpa using hfalse)
  unfold owners at hzero
  omega

/-- A call of `Send` that does not write the packet at the front of the queue, because it is too
long, releases the send context. -/
theorem SendState.OneSender.refused {context : NetworkContext} (hs : s.OneSender)
    (hpos : 0 < s.sending) (hord : context.Ordered) (hempty : context.unread = []) :
    ({ s with
      client := { s.client with mSendContext := context }
      sending := s.sending - 1
      failures := s.failures ++ [s.client.mSending] } : SendState).OneSender := by
  have hone := hs.one
  have hqueued := hs.queued
  have hstream := hs.stream
  unfold owners at hone
  have hown : s.client.mSending = true := hs.mSending_of_owner (Or.inl hpos)
  have hnone : s.outstanding = [] := List.length_eq_zero_iff.mp (by omega)
  have hunread := hs.fresh (Or.inr hpos)
  refine ⟨hord, ?_, ?_, fun _ => hempty, ?_, ?_, ?_, ?_, ?_⟩
  · simp only [owners]
    omega
  · intro hfalse
    exact absurd (hown.symm.trans hfalse) (by simp)
  · simp [hnone]
  · simp only
    omega
  · simpa [hempty, hunread] using hstream
  · intro b hb
    rcases List.mem_append.mp hb with hb | hb
    · exact hs.held b hb
    · rw [List.mem_singleton.mp hb]
      exact hown
  · intro _ hfailures
    simp at hfailures

/-- The completion of the outstanding `WSASend` passes the send context to its handler. -/
theorem SendState.OneSender.transferred {context : NetworkContext} {sub : Submission} {n : ℕ}
    (hs : s.OneSender) (hout : s.outstanding = [sub])
    (hread : s.client.mSendContext.read n = some context) :
    ({ s with
      client := { s.client with mSendContext := context }
      finishing := s.finishing + 1
      outstanding := []
      transferred := s.transferred ++ s.client.mSendContext.unread.take n } :
        SendState).OneSender := by
  have hone := hs.one
  simp only [owners, hout, List.length_singleton] at hone
  have hown : s.client.mSending = true :=
    hs.mSending_of_owner (Or.inr (Or.inr (by rw [hout]; exact Nat.one_pos)))
  refine ⟨hs.ordered.read hread, ?_, ?_, ?_, by simp, hs.queued, ?_, hs.held, fun _ _ => ?_⟩
  · simp only [owners, List.length_nil]
    omega
  · intro hfalse
    exact absurd (hown.symm.trans hfalse) (by simp)
  · rintro (hfalse | hpos)
    · exact absurd (hown.symm.trans hfalse) (by simp)
    · simp only at hpos
      omega
  · simp only
    rw [NetworkContext.unread_read hread, List.append_assoc s.transferred, List.take_append_drop]
    exact hs.stream
  · simp only [owners, List.length_nil]
    omega

theorem oneSender_step (hs : s.OneSender) (h : sendStep s e = some t) : t.OneSender := by
  have hone := hs.one
  have hqueued := hs.queued
  have hstream := hs.stream
  simp only [SendState.owners] at hone
  obtain ⟨p, rfl, rfl⟩ | ⟨rfl, hpos, hsending, rfl⟩ | ⟨rfl, hpos, hsending, rfl⟩ |
    ⟨ok, p, queue, context, rfl, hpos, hqueue, -, hord, hbytes, rfl⟩ |
    ⟨ok, p, queue, context, rfl, hpos, hqueue, -, hord, hempty, rfl⟩ |
    ⟨n, sub, context, rfl, hout, hread, rfl⟩ | ⟨ok, rfl, hpos, hne, rfl⟩ |
    ⟨ok, rfl, hpos, hempty, rfl⟩ := sendStep_cases hs h
  · refine ⟨hs.ordered, hs.one, hs.released, hs.fresh, hs.submitted, ?_, ?_, hs.held, hs.owned⟩
    · simp only [NetworkClient.enqueuePacket, List.length_append, List.length_singleton]
      omega
    · simp only [NetworkClient.enqueuePacket, List.flatMap_append, ← List.append_assoc]
      rw [hstream]
  · refine ⟨hs.ordered, hs.one, hs.released, hs.fresh, hs.submitted, ?_, hstream, hs.held,
      hs.owned⟩
    simp only
    omega
  · -- The exchange that finds `mSending` clear makes its call the owner.
    have hzero := hs.released hsending
    simp only [SendState.owners] at hzero
    refine ⟨hs.ordered, ?_, by simp, fun _ => hs.fresh (Or.inl hsending), hs.submitted, ?_, hstream,
      hs.held, fun _ _ => ?_⟩
    all_goals simp only [SendState.owners]; omega
  · refine .submit ok hord (hs.mSending_of_owner (Or.inl hpos)) ?_ ?_ ?_ ?_ hs.held
    · simp only [SendState.owners]
      omega
    · simp only [NetworkClient.written, hbytes]
      exact p.encode_ne_nil
    · simp only [hqueue, List.length_cons] at hqueued
      simp only [NetworkClient.written]
      omega
    · have hunread := hs.fresh (Or.inr hpos)
      simp only [hunread, hqueue, List.append_nil, List.flatMap_cons] at hstream
      simp only [NetworkClient.written, hbytes, List.append_assoc]
      exact hstream
  · exact hs.refused hpos hord hempty
  · exact hs.transferred hout hread
  · refine .submit ok hs.ordered (hs.mSending_of_owner (Or.inr (Or.inl hpos))) ?_ hne hqueued
      hstream hs.held
    simp only [SendState.owners]
    omega
  · have hnone : s.outstanding = [] := List.length_eq_zero_iff.mp (by omega)
    refine ⟨hs.ordered, ?_, fun _ => ?_, fun _ => hempty, hs.submitted, hqueued, hstream, hs.held,
      by simp⟩
    all_goals simp only [SendState.owners]; omega

/-! ### The byte stream -/

/-- The packets are sent in order: one `WSASend` at a time, from memory that keeps the bytes, and
the bytes taken are the first ones of the packets' encodings. -/
structure SendState.InStream (s : SendState) : Prop where
  one : s.outstanding.length ≤ 1
  kept : ∀ sub ∈ s.outstanding, s.window sub.wsaBuf = sub.bytes
  transferred_prefix : s.transferred <+: s.pushed.flatMap Packet.encode

theorem SendState.OneSender.inStream (hs : s.OneSender) : s.InStream := by
  refine ⟨?_, fun sub hsub => ?_, ?_⟩
  · have hone := hs.one
    unfold owners at hone
    omega
  · obtain ⟨-, heq⟩ := hs.submitted sub hsub
    rw [heq, window, NetworkContext.length_unread]
    rfl
  · rw [← hs.stream, List.append_assoc]
    exact List.prefix_append _ _

/-- The packets that the events of a run enqueue. -/
def enqueued (es : List SendEvent) : List Packet :=
  es.filterMap fun
    | .enqueue packet => some packet
    | _ => none

theorem pushed_of_step (h : sendStep s e = some t) : t.pushed = s.pushed ++ enqueued [e] := by
  cases e with
  | enqueue p =>
    simp only [sendStep] at h
    split_ifs at h
    rw [← Option.some.inj h]
    rfl
  | exchange =>
    simp only [sendStep] at h
    split_ifs at h <;> rw [← Option.some.inj h] <;> exact (List.append_nil _).symm
  | send ok =>
    simp only [sendStep] at h
    split_ifs at h
    rw [← Option.some.inj h]
    exact (List.append_nil _).symm
  | complete i n =>
    simp only [sendStep] at h
    split at h
    · cases h
    · split_ifs at h
      split at h <;> rw [← Option.some.inj h] <;> exact (List.append_nil _).symm
  | finish ok =>
    simp only [sendStep] at h
    split_ifs at h
    rw [← Option.some.inj h]
    exact (List.append_nil _).symm

theorem pushed_of_run (h : run sendStep s es = some t) : t.pushed = s.pushed ++ enqueued es :=
  run_appends rfl (fun e _ => List.filterMap_append (l := [e]))
    (fun _ _ _ hst => pushed_of_step hst) h

/-- Every run from an initialised client keeps its byte stream intact. -/
theorem send_inStream (client : NetworkClient) (es : List SendEvent) (s : SendState)
    (h : run sendStep (.start client) es = some s) :
    s.InStream ∧ s.pushed = client.mSendQueue ++ enqueued es := by
  have hs : s.OneSender :=
    run_invariant (fun _ _ _ hs hst => oneSender_step hs hst) SendState.oneSender_start h
  exact ⟨hs.inStream, pushed_of_run h⟩

/-- A packet of one byte. -/
def onePacket : Packet := { BodyLength := 1, PacketID := 1 }

/-- A packet whose first bytes are taken before the rest is submitted again. -/
theorem inStream_resubmitted :
    ∃ s, run sendStep (.start .new)
        [.enqueue onePacket, .exchange, .send true, .complete 0 5, .finish true] = some s ∧
      s.transferred.length = 5 ∧ s.outstanding.length = 1 ∧ s.InStream ∧
      s.pushed = [onePacket] :=
  ⟨_, rfl, rfl, rfl, send_inStream .new
    [.enqueue onePacket, .exchange, .send true, .complete 0 5, .finish true] _ rfl⟩

/-! ### Stranded packets -/

/-- No packet is stranded while every `Send` has succeeded, and a `Send` that fails releases
`mSending`. -/
structure SendState.Unstranded (s : SendState) : Prop where
  drained : s.failures = [] → s.Quiescent → s.client.mSending = false ∧
    s.client.mSendQueue = [] ∧ s.client.mSendContext.unread = []
  released : ∀ b ∈ s.failures, b = false

/-- Each call of `PushSendPacket` finds `mSending` clear, and each `Send` has a packet that fits the
buffer and a `WSASend` that is accepted. -/
def SendState.Unhindered (s : SendState) : SendEvent → Prop
  | .exchange => s.client.mSending = false
  | .send wsaSend => wsaSend = true ∧
    ∀ p ∈ s.client.mSendQueue.head?, headerSize + p.BodyLength.toNat ≤ bufferSize
  | .finish wsaSend => s.client.mSendContext.unread ≠ [] → wsaSend = true
  | _ => True

/-- On unhindered runs each queued packet belongs to a call that has yet to send it. -/
structure SendState.Attended (s : SendState) : Prop where
  oneSender : s.OneSender
  failures_eq : s.failures = []
  attended : s.client.mSendQueue.length = s.waiting + s.sending

theorem SendState.Attended.unstranded (hs : s.Attended) : s.Unstranded := by
  refine ⟨fun _ ⟨hout, hwaiting, hnone, hfinishing⟩ => ?_, by simp [hs.failures_eq]⟩
  have hzero : s.owners = 0 := by simp [owners, hout, hnone, hfinishing]
  have hclear : s.client.mSending = false := by
    by_contra htrue
    have := hs.oneSender.owned (by simpa using htrue) hs.failures_eq
    omega
  have hlength := hs.attended
  rw [hwaiting, hnone] at hlength
  exact ⟨hclear, List.length_eq_zero_iff.mp hlength, hs.oneSender.fresh (Or.inl hclear)⟩

theorem attended_step (hs : s.Attended) (hC : s.Unhindered e) (h : sendStep s e = some t) :
    t.Attended := by
  have hlength := hs.attended
  refine ⟨oneSender_step hs.oneSender h, ?_, ?_⟩ <;>
  obtain ⟨p, rfl, rfl⟩ | ⟨rfl, hpos, hsending, rfl⟩ | ⟨rfl, hpos, hsending, rfl⟩ |
    ⟨ok, p, queue, context, rfl, hpos, hqueue, -, -, -, rfl⟩ |
    ⟨ok, p, queue, context, rfl, hpos, hqueue, hlong, -, -, rfl⟩ |
    ⟨n, sub, context, rfl, -, -, rfl⟩ | ⟨ok, rfl, hpos, hne, rfl⟩ |
    ⟨ok, rfl, hpos, -, rfl⟩ := sendStep_cases hs.oneSender h
  · exact hs.failures_eq
  · exact hs.failures_eq
  · exact hs.failures_eq
  · obtain rfl := hC.1
    exact hs.failures_eq
  · have := hC.2 p (by rw [hqueue]; rfl)
    omega
  · exact hs.failures_eq
  · obtain rfl := hC hne
    exact hs.failures_eq
  · exact hs.failures_eq
  · simp only [NetworkClient.enqueuePacket, List.length_append, List.length_singleton]
    omega
  · exact absurd (hsending.symm.trans hC) (by simp)
  · simp only
    omega
  · simp only [hqueue, List.length_cons] at hlength
    simp only [SendState.called, NetworkClient.submit, NetworkClient.written]
    omega
  · have := hC.2 p (by rw [hqueue]; rfl)
    omega
  · exact hlength
  · exact hlength
  · exact hlength

theorem excess_step (hs : s.OneSender) (h : sendStep s e = some t)
    (hexcess : s.waiting + s.sending < s.client.mSendQueue.length) :
    t.waiting + t.sending < t.client.mSendQueue.length := by
  obtain ⟨p, rfl, rfl⟩ | ⟨rfl, hpos, -, rfl⟩ | ⟨rfl, hpos, -, rfl⟩ |
    ⟨ok, p, queue, context, rfl, hpos, hqueue, -, -, -, rfl⟩ |
    ⟨ok, p, queue, context, rfl, hpos, hqueue, -, -, -, rfl⟩ |
    ⟨n, sub, context, rfl, -, -, rfl⟩ | ⟨ok, rfl, -, -, rfl⟩ |
    ⟨ok, rfl, -, -, rfl⟩ := sendStep_cases hs h
  · simp only [NetworkClient.enqueuePacket, List.length_append, List.length_singleton]
    omega
  · simp only
    omega
  · simp only
    omega
  · simp only [hqueue, List.length_cons] at hexcess
    simp only [SendState.called, NetworkClient.submit, NetworkClient.written]
    omega
  · simp only
    omega
  · exact hexcess
  · exact hexcess
  · exact hexcess

theorem excess_run (hs : s.OneSender) (h : run sendStep s es = some t)
    (hexcess : s.waiting + s.sending < s.client.mSendQueue.length) : t.client.mSendQueue ≠ [] := by
  have hboth : t.OneSender ∧ t.waiting + t.sending < t.client.mSendQueue.length :=
    run_invariant (P := fun s => s.OneSender ∧ s.waiting + s.sending < s.client.mSendQueue.length)
      (fun _ _ _ hs hst => ⟨oneSender_step hs.1 hst, excess_step hs.1 hst hs.2⟩) ⟨hs, hexcess⟩ h
  rw [← List.length_pos_iff]
  exact Nat.zero_lt_of_lt hboth.2

/-- A `Send` that fails leaves `mSending` set, so on runs without stranded packets none does. -/
theorem SendState.OneSender.failures_eq_nil (hs : s.OneSender) (hP : s.Unstranded) :
    s.failures = [] := by
  rw [List.eq_nil_iff_forall_not_mem]
  intro b hb
  exact absurd ((hs.held b hb).symm.trans (hP.released b hb)) (by simp)

theorem unhindered_of_unstranded (hs : s.OneSender) (h : run sendStep s es = some t)
    (hend : t.Quiescent) (hP : Throughout sendStep SendState.Unstranded s es) :
    Meets sendStep SendState.Unhindered s es := by
  induction es generalizing s with
  | nil => trivial
  | cons e es ih =>
    obtain ⟨u, hu, hrun⟩ := run_cons_eq_some.mp h
    have hus := oneSender_step hs hu
    have hPu := hP.tail hu
    have hfailures := hus.failures_eq_nil hPu.head
    rw [meets_cons hu]
    refine ⟨?_, ih hus hrun hPu⟩
    obtain ⟨p, rfl, -⟩ | ⟨rfl, hpos, -, rfl⟩ | ⟨rfl, -, hclear, -⟩ |
      ⟨ok, p, queue, context, rfl, -, hqueue, hfit, -, -, rfl⟩ |
      ⟨ok, p, queue, context, rfl, -, -, -, -, -, rfl⟩ |
      ⟨n, sub, context, rfl, -, -, -⟩ | ⟨ok, rfl, -, -, rfl⟩ |
      ⟨ok, rfl, -, hempty, -⟩ := sendStep_cases hs hu
    · trivial
    · -- The packet of a call that finds `mSending` set is never taken out of the queue again.
      have hqueued := hs.queued
      have hleft := excess_run hus hrun (by simp only; omega)
      have hts : t.OneSender := run_invariant (fun _ _ _ hs hst => oneSender_step hs hst) hus hrun
      have hPt := hPu.last hrun
      exact absurd (hPt.drained (hts.failures_eq_nil hPt) hend).2.1 hleft
    · exact hclear
    · refine ⟨?_, ?_⟩
      · by_contra hrefused
        simp [SendState.called, NetworkClient.submit, hrefused] at hfailures
      · intro p' hp'
        rw [hqueue] at hp'
        obtain rfl : p = p' := by simpa using hp'
        exact hfit
    · simp at hfailures
    · trivial
    · intro _
      by_contra hrefused
      simp [SendState.called, NetworkClient.submit, hrefused] at hfailures
    · exact fun hne => absurd hempty hne

/-- On every unhindered run of a client with an empty queue no packet is stranded, and on a run that
ends with no send and no call in progress only then. -/
theorem unstranded_iff_unhindered (client : NetworkClient) (es : List SendEvent) (s : SendState)
    (h : run sendStep (.start client) es = some s) :
    (client.mSendQueue = [] ∧ Meets sendStep SendState.Unhindered (.start client) es →
      Throughout sendStep SendState.Unstranded (.start client) es) ∧
    (s.Quiescent → Throughout sendStep SendState.Unstranded (.start client) es →
      client.mSendQueue = [] ∧ Meets sendStep SendState.Unhindered (.start client) es) := by
  constructor
  · rintro ⟨hempty, hC⟩
    have hstart : (SendState.start client).Attended :=
      ⟨SendState.oneSender_start, rfl, congrArg List.length hempty⟩
    have hall : Throughout sendStep SendState.Attended (.start client) es :=
      throughout_of_meets (fun _ _ _ hs hC hst => attended_step hs hC hst) hstart hC
    exact hall.mono fun _ hs => hs.unstranded
  · intro hend hP
    have hfirst := hP.head.drained rfl ⟨rfl, rfl, rfl, rfl⟩
    exact ⟨hfirst.2.1, unhindered_of_unstranded SendState.oneSender_start h hend hP⟩

/-- Two packets, the second pushed and sent when the first one has been sent whole. -/
theorem unstranded_two_packets :
    ∃ s, run sendStep (.start .new) [.enqueue onePacket, .exchange, .send true, .complete 0 13,
        .finish true, .enqueue onePacket, .exchange, .send true, .complete 0 13, .finish true] =
        some s ∧
      s.Quiescent ∧ s.transferred = onePacket.encode ++ onePacket.encode ∧
      Throughout sendStep SendState.Unstranded (.start .new) [.enqueue onePacket, .exchange,
        .send true, .complete 0 13, .finish true, .enqueue onePacket, .exchange, .send true,
        .complete 0 13, .finish true] := by
  refine ⟨_, rfl, ⟨rfl, rfl, rfl, rfl⟩, rfl, (unstranded_iff_unhindered .new _ _ rfl).1
    ⟨rfl, meets_of_take fun n e he t ht => ?_⟩⟩
  have hsends (hqueue : t.client.mSendQueue = [onePacket]) : t.Unhindered (.send true) := by
    refine ⟨rfl, fun p hp => ?_⟩
    rw [hqueue] at hp
    obtain rfl := Option.some.inj hp
    decide
  rcases n with _ | _ | _ | _ | _ | _ | _ | _ | _ | _ | n <;> cases he <;> try trivial
  · exact eq_of_run (fun s => s.client.mSending) ht rfl
  · exact hsends (eq_of_run (fun s => s.client.mSendQueue) ht rfl)
  · exact fun _ => rfl
  · exact eq_of_run (fun s => s.client.mSending) ht rfl
  · exact hsends (eq_of_run (fun s => s.client.mSendQueue) ht rfl)
  · exact fun _ => rfl

/-- A packet pushed while the first one is being sent: when the completion of the first has been
handled, nothing is in progress and the second is still in the queue. -/
theorem second_packet_stranded :
    ∃ s, run sendStep (.start .new) [.enqueue onePacket, .exchange, .send true, .enqueue onePacket,
        .exchange, .complete 0 13, .finish true] = some s ∧
      s.failures = [] ∧ s.Quiescent ∧ s.client.mSending = false ∧
      s.client.mSendQueue.length = 1 ∧ ¬s.Unstranded := by
  refine ⟨_, rfl, rfl, ⟨rfl, rfl, rfl, rfl⟩, rfl, rfl, fun hP => ?_⟩
  have hqueue := (hP.drained rfl ⟨rfl, rfl, rfl, rfl⟩).2.1
  cases hqueue

end IocpStudy.StudyServer
