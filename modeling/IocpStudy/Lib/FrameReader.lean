import Mathlib.Data.List.Infix

/-! A reader of a stream of frames that announce their own lengths.  What is received is kept until
the frame at its front is complete.  Blocks that are sent one after the other are read back, however
the stream is cut, exactly where each announces the length that it has. -/

namespace FrameReader

variable {β : Type*} (header : ℕ) (announced : List β → ℕ)

/-- The length of the frame at the front, where the frame is complete. -/
def front (bs : List β) : Option ℕ :=
  if bs.length < header ∨ bs.length < announced bs then none else some (announced bs)

/-- The reader takes `frames` off the front of `bs` until the next one is not complete, which leaves
`rest`. -/
inductive Splits : List β → List (List β) → List β → Prop
  | short {bs : List β} (h : front header announced bs = none) : Splits bs [] bs
  | frame {bs rest : List β} {frames : List (List β)} {n : ℕ}
      (h : front header announced bs = some n) (hrest : Splits (bs.drop n) frames rest) :
      Splits bs (bs.take n :: frames) rest

/-- The reader takes `frames` as it receives `chunks`, starting with `held` and ending with
`rest`. -/
inductive Feeds : List β → List (List β) → List (List β) → List β → Prop
  | nil {held : List β} : Feeds held [] [] held
  | cons {held chunk next rest : List β} {chunks frames more : List (List β)}
      (h : Splits header announced (held ++ chunk) frames next)
      (hrest : Feeds next chunks more rest) : Feeds held (chunk :: chunks) (frames ++ more) rest

/-- The blocks are what is read, with nothing left, from any chunks that their bytes are sent in. -/
def ReadsBack (blocks : List (List β)) : Prop :=
  ∀ chunks : List (List β), chunks.flatten = blocks.flatten →
    Feeds header announced [] chunks blocks []

variable {header : ℕ} {announced : List β → ℕ} {bs rest : List β} {b : List β}
  {blocks frames chunks : List (List β)} {n : ℕ}

theorem front_eq_some (h : front header announced bs = some n) :
    n = announced bs ∧ n ≤ bs.length := by
  unfold front at h
  split_ifs at h with hshort
  obtain rfl := Option.some.inj h
  exact ⟨rfl, by omega⟩

theorem front_nil (hpos : 0 < header) : front header announced ([] : List β) = none :=
  if_pos (Or.inl hpos)

/-- One chunk is split at once. -/
theorem Feeds.splits {held chunk : List β} (h : Feeds header announced held [chunk] frames rest) :
    Splits header announced (held ++ chunk) frames rest := by
  cases h with
  | cons hsplits hrest =>
    cases hrest with
    | nil => rwa [List.append_nil]

/-- The header is at the front, so what follows a frame does not change its length. -/
def InHeader (header : ℕ) (announced : List β → ℕ) : Prop :=
  ∀ bs cs : List β, header ≤ bs.length → announced (bs ++ cs) = announced bs

theorem front_of_block (hin : InHeader header announced) (hb : header ≤ b.length)
    (hlength : announced b = b.length) (rest : List β) :
    front header announced (b ++ rest) = some b.length := by
  have hall : ¬((b ++ rest).length < header ∨ (b ++ rest).length < b.length) := by
    rw [List.length_append]
    omega
  rw [front, hin b rest hb, hlength, if_neg hall]

/-- A part of a block is not complete. -/
theorem front_of_part (hin : InHeader header announced) (hlength : announced b = b.length)
    (hpre : bs <+: b) (hpart : bs.length < b.length) : front header announced bs = none := by
  rw [front, if_pos]
  rw [or_iff_not_imp_left, Nat.not_lt]
  intro hheader
  obtain ⟨rest, hb⟩ := hpre
  rw [← hin bs rest hheader, hb, hlength]
  exact hpart

/-- The first part of a stream of blocks gives the first of them, and what is left starts the
others. -/
theorem splits_of_part (hpos : 0 < header) (hin : InHeader header announced)
    (hblocks : ∀ b ∈ blocks, header ≤ b.length ∧ announced b = b.length)
    (hpre : bs <+: blocks.flatten) :
    ∃ k rest, Splits header announced bs (blocks.take k) rest ∧
      bs = (blocks.take k).flatten ++ rest ∧ front header announced rest = none := by
  induction blocks generalizing bs with
  | nil =>
    obtain rfl : bs = [] := List.prefix_nil.mp hpre
    exact ⟨0, [], .short (front_nil hpos), rfl, front_nil hpos⟩
  | cons b blocks ih =>
    obtain ⟨hb, hlength⟩ := hblocks b List.mem_cons_self
    rw [List.flatten_cons] at hpre
    rcases Nat.lt_or_ge bs.length b.length with hpart | hwhole
    · have hnone := front_of_part hin hlength
        (List.prefix_of_prefix_length_le hpre (List.prefix_append b _) (Nat.le_of_lt hpart)) hpart
      exact ⟨0, bs, .short hnone, rfl, hnone⟩
    · obtain ⟨cs, rfl⟩ := List.prefix_of_prefix_length_le (List.prefix_append b _) hpre hwhole
      obtain ⟨k, rest, hsplits, hcs, hnone⟩ :=
        ih (fun b' hb' => hblocks b' (List.mem_cons_of_mem b hb'))
          ((List.prefix_append_right_inj b).mp hpre)
      refine ⟨k + 1, rest, ?_, ?_, hnone⟩
      · have hframe := Splits.frame (front_of_block hin hb hlength cs)
          (by rwa [List.drop_left])
        rwa [List.take_left] at hframe
      · rw [List.take_succ_cons, List.flatten_cons, List.append_assoc, ← hcs]

theorem feeds_of_announced (hpos : 0 < header) (hin : InHeader header announced)
    {held : List β} (hheld : front header announced held = none)
    (hblocks : ∀ b ∈ blocks, header ≤ b.length ∧ announced b = b.length)
    (hchunks : held ++ chunks.flatten = blocks.flatten) :
    Feeds header announced held chunks blocks [] := by
  induction chunks generalizing held blocks with
  | nil =>
    rw [List.flatten_nil, List.append_nil] at hchunks
    cases blocks with
    | nil =>
      rw [hchunks, List.flatten_nil]
      exact .nil
    | cons b blocks =>
      obtain ⟨hb, hlength⟩ := hblocks b List.mem_cons_self
      rw [hchunks, List.flatten_cons, front_of_block hin hb hlength] at hheld
      exact absurd hheld (Option.some_ne_none _)
  | cons chunk chunks ih =>
    rw [List.flatten_cons, ← List.append_assoc] at hchunks
    obtain ⟨k, rest, hsplits, heq, hnone⟩ := splits_of_part hpos hin hblocks ⟨_, hchunks⟩
    have hrest : Feeds header announced rest chunks (blocks.drop k) [] := by
      refine ih hnone (fun b hb => hblocks b (List.mem_of_mem_drop hb)) ?_
      apply (List.append_right_inj (blocks.take k).flatten).mp
      rw [← List.append_assoc, ← heq, hchunks, ← List.flatten_append, List.take_append_drop]
    have hfeeds := Feeds.cons hsplits hrest
    rwa [List.take_append_drop] at hfeeds

/-- What is split off a stream of blocks are these blocks only if they announce their lengths. -/
theorem announced_of_splits (hin : InHeader header announced)
    (hblocks : ∀ b ∈ blocks, header ≤ b.length)
    (h : Splits header announced blocks.flatten blocks rest) :
    ∀ b ∈ blocks, announced b = b.length := by
  induction blocks with
  | nil => exact fun b hb => absurd hb List.not_mem_nil
  | cons b blocks ih =>
    have hb := hblocks b List.mem_cons_self
    generalize hstream : (b :: blocks).flatten = bs at h
    generalize hframes : b :: blocks = frames at h
    cases h with
    | short => exact absurd hframes (List.cons_ne_nil b blocks)
    | @frame _ _ frames' n hfront hrest =>
      obtain ⟨hhead, rfl⟩ := List.cons.inj hframes
      rw [List.flatten_cons] at hstream
      obtain ⟨hn, hle⟩ := front_eq_some hfront
      have hlength : b.length = n := by
        rw [hhead, List.length_take, Nat.min_eq_left hle]
      rw [← hstream, ← hlength, List.drop_left] at hrest
      rw [← hframes, List.forall_mem_cons]
      refine ⟨?_, ih (fun b' hb' => hblocks b' (List.mem_cons_of_mem b hb')) hrest⟩
      rw [hlength, hn, ← hstream, hin b _ hb]

/-- Blocks that have a header are read back from any chunks if and only if each announces its own
length. -/
theorem readsBack_iff (hpos : 0 < header) (hin : InHeader header announced)
    (hblocks : ∀ b ∈ blocks, header ≤ b.length) :
    ReadsBack header announced blocks ↔ ∀ b ∈ blocks, announced b = b.length := by
  constructor
  · intro h
    have hfeeds := h [blocks.flatten] (by rw [List.flatten_singleton])
    exact announced_of_splits hin hblocks hfeeds.splits
  · intro h chunks hchunks
    exact feeds_of_announced hpos hin (front_nil hpos) (fun b hb => ⟨hblocks b hb, h b hb⟩) hchunks

end FrameReader
