import IocpStudy.Lib.KeyIndex
import IocpStudy.Lib.Runs
import IocpStudy.ChatServer.PacketManager

/-! The users that are logged in and the map of their IDs.  `AddUser` and `DeleteUserInfo` change a
user and the map together, without a look at what they had before, and the handlers of system
events clear a user past the map.  The map is the index of the users on exactly the runs that add
and delete as if these functions checked it. -/

namespace IocpStudy.ChatServer

open Runs KeyIndex

/-- The calls that change the users.  None of them is made with an index outside the pool. -/
inductive UserEvent
  | addUser (userID : List UInt8) (clientIndex : ℕ)
  | deleteUserInfo (clientIndex : ℕ)
  | processUserConnect (clientIndex : ℕ)
  | processUserDisconnect (clientIndex : ℕ)
deriving Repr, DecidableEq

/-- The index of the user that a call changes. -/
def UserEvent.clientIndex : UserEvent → ℕ
  | .addUser _ clientIndex => clientIndex
  | .deleteUserInfo clientIndex => clientIndex
  | .processUserConnect clientIndex => clientIndex
  | .processUserDisconnect clientIndex => clientIndex

/-- The ID that the user is logged in with after a call. -/
def UserEvent.leaves : UserEvent → Option (List UInt8)
  | .addUser userID _ => some userID
  | _ => none

namespace PacketManager

/-- The manager after a call. -/
def changed (m : PacketManager) : UserEvent → PacketManager
  | .addUser userID clientIndex =>
    { m with mUserManager := (m.mUserManager.addUser userID clientIndex).1 }
  | .deleteUserInfo clientIndex =>
    { m with mUserManager := m.mUserManager.deleteUserInfo clientIndex }
  | .processUserConnect clientIndex => m.processUserConnect clientIndex
  | .processUserDisconnect clientIndex => m.processUserDisconnect clientIndex

/-- The entry of `mUserIDMap` for an ID. -/
def entry (m : PacketManager) (userID : List UInt8) : Option ℤ :=
  m.mUserManager.mUserIDMap.lookup userID

/-- The ID of the user at an index of the pool, if the user is logged in. -/
def loggedIn (m : PacketManager) (i : ℤ) : Option (List UInt8) :=
  if 0 ≤ i ∧ i < m.mUserManager.mMaxUserCount ∧ (m.user i.toNat).mDomainState ≠ .NONE then
    some (m.user i.toNat).mUserID
  else none

/-- The map has an ID with an index exactly where the user at that index is logged in with it. -/
def Consistent (m : PacketManager) : Prop :=
  ∀ userID i, m.mUserManager.mUserIDMap.lookup userID = some i ↔
    (0 ≤ i ∧ i < m.mUserManager.mMaxUserCount) ∧ (m.user i.toNat).mDomainState ≠ .NONE ∧
      (m.user i.toNat).mUserID = userID

end PacketManager

def usersStep (m : PacketManager) (e : UserEvent) : Option PacketManager :=
  if (e.clientIndex : ℤ) < m.mUserManager.mMaxUserCount then some (m.changed e) else none

/-- A user is added who is not logged in, under an ID that nobody has, or who has it already; a user
is deleted who is logged in, or nobody is logged in under the empty ID; and a user is cleared who is
not logged in. -/
def PacketManager.Checked (m : PacketManager) : UserEvent → Prop
  | .addUser userID i =>
    m.loggedIn i = some userID ∨ (m.loggedIn i = none ∧ ∀ j, m.loggedIn j ≠ some userID)
  | .deleteUserInfo i => m.loggedIn i ≠ none ∨ ∀ j, m.loggedIn j ≠ some []
  | .processUserConnect i => m.loggedIn i = none
  | .processUserDisconnect i => m.loggedIn i = none

/-- What the map is for: it is consistent, an ID that was added is found until its user is deleted
or disconnected, no two users have one ID, and deleting a user keeps the entries of the others. -/
structure KeepsUsers (m : PacketManager) (es : List UserEvent) : Prop where
  consistent : Throughout usersStep PacketManager.Consistent m es
  found : ∀ pre userID (i : ℕ) post m', pre ++ .addUser userID i :: post <+: es →
    (∀ e ∈ post, e ≠ .deleteUserInfo i ∧ e ≠ .processUserDisconnect i) →
    run usersStep m (pre ++ .addUser userID i :: post) = some m' →
    m'.mUserManager.findUserIndexByID userID = i
  unique : Throughout usersStep
    (fun m => ∀ i j userID, m.loggedIn i = some userID → m.loggedIn j = some userID → i = j) m es
  others : EachStep usersStep
    (fun m e m' => ∀ (i : ℕ) j userID, e = .deleteUserInfo i → j ≠ (i : ℤ) →
      m.mUserManager.mUserIDMap.lookup userID = some j →
      m'.mUserManager.mUserIDMap.lookup userID = some j) m es

/-! ### The calls as changes of an index -/

namespace PacketManager

variable {m m' : PacketManager} {e : UserEvent} {i : ℕ} {j : ℤ} {u : User}
  {userID : List UInt8} {es : List UserEvent}

theorem loggedIn_eq_some_iff :
    m.loggedIn j = some userID ↔ (0 ≤ j ∧ j < m.mUserManager.mMaxUserCount) ∧
      (m.user j.toNat).mDomainState ≠ .NONE ∧ (m.user j.toNat).mUserID = userID := by
  unfold loggedIn
  split_ifs with h
  · simp [h]
  · refine iff_of_false nofun fun hj => h ⟨hj.1.1, hj.1.2, hj.2.1⟩

theorem loggedIn_eq_none_iff (hi : (i : ℤ) < m.mUserManager.mMaxUserCount) :
    m.loggedIn i = none ↔ (m.user i).mDomainState = .NONE := by
  have h0 : (0 : ℤ) ≤ i := Int.natCast_nonneg i
  unfold loggedIn
  simp [h0, hi]

theorem consistent_iff : m.Consistent ↔ Inverse m.entry m.loggedIn :=
  forall₂_congr fun _ _ => iff_congr Iff.rfl loggedIn_eq_some_iff.symm

/-- The users after a change of one of them. -/
theorem loggedIn_setUser (hi : (i : ℤ) < m.mUserManager.mMaxUserCount) (u : User) :
    (m.setUser i u).loggedIn =
      Function.update m.loggedIn i (if u.mDomainState = .NONE then none else some u.mUserID) := by
  funext j
  have h0 : (0 : ℤ) ≤ i := Int.natCast_nonneg i
  by_cases hj : j = i
  · subst hj
    have huser : (m.setUser i u).user i = u := by rw [user_setUser, if_pos rfl]
    rw [Function.update_self]
    unfold loggedIn
    simp only [Int.toNat_natCast, huser]
    by_cases hu : u.mDomainState = .NONE
    · simp [hu]
    · rw [if_neg hu]
      exact if_pos ⟨h0, hi, hu⟩
  · rw [Function.update_of_ne hj]
    by_cases hneg : 0 ≤ j
    · have huser : (m.setUser i u).user j.toNat = m.user j.toNat := by
        rw [user_setUser, if_neg (by omega)]
      unfold loggedIn
      rw [huser]
      rfl
    · unfold loggedIn
      rw [if_neg (fun h => hneg h.1), if_neg (fun h => hneg h.1)]

theorem loggedIn_changed (hi : (e.clientIndex : ℤ) < m.mUserManager.mMaxUserCount) :
    (m.changed e).loggedIn = Function.update m.loggedIn e.clientIndex e.leaves := by
  cases e with
  | addUser userID i => exact loggedIn_setUser hi ((m.user i).setLogin userID)
  | deleteUserInfo i => exact loggedIn_setUser hi (m.user i).clear
  | processUserConnect i => exact loggedIn_setUser hi (m.user i).clear
  | processUserDisconnect i => exact loggedIn_setUser hi (m.user i).clear

theorem lookup_cons_of_ne {k k' : List UInt8} {j : ℤ} {map : List (List UInt8 × ℤ)} (hk : k ≠ k') :
    ((k', j) :: map).lookup k = map.lookup k := by
  rw [List.lookup_cons, beq_false_of_ne hk]

theorem entry_addUser (m : PacketManager) (userID : List UInt8) (i : ℕ) :
    (m.changed (.addUser userID i)).entry =
      Function.update m.entry userID (some ((m.entry userID).getD i)) := by
  funext k
  unfold entry changed UserManager.addUser
  simp only
  by_cases hk : k = userID
  · subst hk
    rw [Function.update_self]
    cases hlookup : m.mUserManager.mUserIDMap.lookup k with
    | none => simp [List.lookup_append, hlookup]
    | some j => simp [hlookup]
  · rw [Function.update_of_ne hk]
    split_ifs with h
    · rfl
    · rw [List.lookup_append, lookup_cons_of_ne hk, List.lookup_nil, Option.or_none]

theorem lookup_filter_ne (map : List (List UInt8 × ℤ)) (k userID : List UInt8) :
    (map.filter fun entry => entry.1 ≠ userID).lookup k =
      if k = userID then none else map.lookup k := by
  induction map with
  | nil => simp
  | cons entry map ih =>
    obtain ⟨k', j⟩ := entry
    by_cases hk' : k' = userID
    · subst hk'
      rw [List.filter_cons_of_neg (by simp), ih]
      by_cases hk : k = k'
      · rw [if_pos hk, if_pos hk]
      · rw [if_neg hk, if_neg hk, lookup_cons_of_ne hk]
    · rw [List.filter_cons_of_pos (by simpa using hk')]
      by_cases hk : k = k'
      · subst hk
        rw [if_neg hk', List.lookup_cons_self, List.lookup_cons_self]
      · rw [lookup_cons_of_ne hk, lookup_cons_of_ne hk, ih]

theorem entry_deleteUserInfo (m : PacketManager) (i : ℕ) :
    (m.changed (.deleteUserInfo i)).entry =
      Function.update m.entry (m.user i).mUserID none := by
  funext k
  refine (lookup_filter_ne m.mUserManager.mUserIDMap k (m.user i).mUserID).trans ?_
  rw [Function.update_apply]
  rfl

/-! ### One call -/

/-- A user who is not logged in has the empty ID. -/
def Blank (m : PacketManager) : Prop :=
  ∀ i, (m.user i).mDomainState = .NONE → (m.user i).mUserID = []

theorem Blank.setUser (hm : m.Blank) (i : ℕ) (hu : u.mDomainState = .NONE → u.mUserID = []) :
    (m.setUser i u).Blank := by
  intro j
  rw [user_setUser]
  split_ifs
  · exact hu
  · exact hm j

theorem Blank.changed (hm : m.Blank) (e : UserEvent) : (m.changed e).Blank := by
  cases e with
  | addUser userID i => exact Blank.setUser (u := (m.user i).setLogin userID) hm i nofun
  | deleteUserInfo i => exact Blank.setUser (u := (m.user i).clear) hm i fun _ => rfl
  | processUserConnect i => exact Blank.setUser hm i fun _ => rfl
  | processUserDisconnect i => exact Blank.setUser hm i fun _ => rfl

theorem usersStep_eq_some (h : usersStep m e = some m') :
    (e.clientIndex : ℤ) < m.mUserManager.mMaxUserCount ∧ m' = m.changed e := by
  unfold usersStep at h
  split_ifs at h with hi
  exact ⟨hi, (Option.some.inj h).symm⟩

theorem entry_eq_none_iff (hm : m.Consistent) :
    m.entry userID = none ↔ ∀ j, m.loggedIn j ≠ some userID := by
  rw [consistent_iff] at hm
  constructor
  · intro hnone j
    exact hm.held_eq_none hnone
  · intro hnobody
    cases hentry : m.entry userID with
    | none => rfl
    | some j => exact absurd ((hm userID j).mp hentry) (hnobody j)

/-- A consistent map stays so in exactly the checked calls. -/
theorem consistent_step (hb : m.Blank) (hm : m.Consistent) (h : usersStep m e = some m') :
    m'.Consistent ↔ m.Checked e := by
  obtain ⟨hi, rfl⟩ := usersStep_eq_some h
  have hindex := consistent_iff.mp hm
  rw [consistent_iff, loggedIn_changed hi]
  cases e with
  | addUser userID i =>
    rw [entry_addUser]
    refine (hindex.take_iff userID (i : ℤ)).trans ?_
    rw [entry_eq_none_iff hm]
    rfl
  | deleteUserInfo i =>
    rw [entry_deleteUserInfo]
    refine (hindex.release_iff (m.user i).mUserID (i : ℤ)).trans ?_
    have hstate : m.loggedIn i = none ↔ (m.user i).mDomainState = .NONE := loggedIn_eq_none_iff hi
    by_cases hnone : m.loggedIn i = none
    · rw [entry_eq_none_iff hm, hb i (hstate.mp hnone)]
      simp only [Checked, hnone, reduceCtorEq, false_or, true_and, ne_eq, not_true_eq_false]
    · have hsome : m.loggedIn i = some (m.user i).mUserID := by
        rw [loggedIn_eq_some_iff]
        exact ⟨⟨Int.natCast_nonneg i, hi⟩, mt hstate.mpr hnone, rfl⟩
      exact iff_of_true (Or.inl hsome) (Or.inl hnone)
  | processUserConnect i => exact hindex.clear_iff (i : ℤ)
  | processUserDisconnect i => exact hindex.clear_iff (i : ℤ)

/-- A checked call leaves a user as he is, unless it deletes or disconnects him. -/
theorem loggedIn_step (hC : m.Checked e) (h : usersStep m e = some m')
    (hheld : m.loggedIn j = some userID)
    (hkeeps : ∀ i : ℕ, j = i → e ≠ .deleteUserInfo i ∧ e ≠ .processUserDisconnect i) :
    m'.loggedIn j = some userID := by
  obtain ⟨hi, rfl⟩ := usersStep_eq_some h
  rw [loggedIn_changed hi]
  by_cases hj : j = e.clientIndex
  · subst hj
    rw [Function.update_self]
    cases e with
    | addUser userID' i =>
      rcases hC with hsame | ⟨hnone, -⟩
      · exact hsame.symm.trans hheld
      · exact absurd (hnone.symm.trans hheld) nofun
    | deleteUserInfo i => exact absurd rfl (hkeeps i rfl).1
    | processUserConnect i => exact absurd (hC.symm.trans hheld) nofun
    | processUserDisconnect i => exact absurd rfl (hkeeps i rfl).2
  · rw [Function.update_of_ne hj, hheld]

/-! ### Runs -/

theorem consistent_start (maxClient : ℤ) (buffers : ℕ → Memory UInt8) :
    (PacketManager.start maxClient buffers).Consistent := by
  intro userID i
  exact iff_of_false nofun fun hi => hi.2.1 rfl

theorem loggedIn_run (hC : Meets usersStep Checked m es) (h : run usersStep m es = some m')
    (hheld : m.loggedIn i = some userID)
    (hkeeps : ∀ e ∈ es, e ≠ .deleteUserInfo i ∧ e ≠ .processUserDisconnect i) :
    m'.loggedIn i = some userID := by
  induction es generalizing m with
  | nil =>
    cases h
    exact hheld
  | cons e es ih =>
    obtain ⟨u, hu, hrun⟩ := run_cons_eq_some.mp h
    refine ih (hC.2 u hu) hrun ?_ fun e he => hkeeps e (List.mem_cons_of_mem _ he)
    refine loggedIn_step hC.1 hu hheld fun i' hi' => ?_
    obtain rfl : i = i' := Int.ofNat.inj hi'
    exact hkeeps e List.mem_cons_self

theorem Consistent.find (hm : m.Consistent) (hheld : m.loggedIn i = some userID) :
    m.mUserManager.findUserIndexByID userID = i := by
  have hentry : m.entry userID = some (i : ℤ) := (consistent_iff.mp hm userID i).mpr hheld
  rw [entry] at hentry
  rw [UserManager.findUserIndexByID, hentry, Option.getD_some]

/-- An ID that was added is found while its user stays. -/
theorem find_run (hall : Throughout usersStep Consistent m es) (hC : Meets usersStep Checked m es)
    {pre post : List UserEvent} (hp : pre ++ .addUser userID i :: post <+: es)
    (hkeeps : ∀ e ∈ post, e ≠ .deleteUserInfo i ∧ e ≠ .processUserDisconnect i)
    (h : run usersStep m (pre ++ .addUser userID i :: post) = some m') :
    m'.mUserManager.findUserIndexByID userID = i := by
  obtain ⟨u, hu, hrun⟩ := run_append_eq_some.mp h
  obtain ⟨v, hv, hrest⟩ := run_cons_eq_some.mp hrun
  obtain ⟨-, hafter⟩ := (meets_append hu).mp (hC.of_prefix hp)
  have hadded : v.loggedIn i = some userID := by
    obtain ⟨hi, rfl⟩ := usersStep_eq_some hv
    rw [loggedIn_changed hi]
    exact Function.update_self _ _ _
  exact (hall _ hp m' h).find (loggedIn_run (hafter.2 v hv) hrest hadded hkeeps)

end PacketManager

open PacketManager in
/-- From `Init` on, the map of user IDs does what it is for on exactly the runs of checked calls. -/
theorem keepsUsers_iff (maxClient : ℤ) (buffers : ℕ → Memory UInt8) (es : List UserEvent)
    (m : PacketManager) (h : run usersStep (.start maxClient buffers) es = some m) :
    KeepsUsers (.start maxClient buffers) es ↔
      Meets usersStep PacketManager.Checked (.start maxClient buffers) es := by
  have hblank : (PacketManager.start maxClient buffers).Blank := fun _ _ => rfl
  have hstart := consistent_start maxClient buffers
  have hiff : Throughout usersStep Consistent (.start maxClient buffers) es ↔
      Meets usersStep Checked (.start maxClient buffers) es :=
    throughout_iff_meets (I := Blank)
      (fun _ e _ hb hst => (usersStep_eq_some hst).2 ▸ hb.changed e)
      (fun _ _ _ hb hm hst => consistent_step hb hm hst) hblank hstart h
  refine ⟨fun hkeeps => hiff.mp hkeeps.consistent, fun hC => ?_⟩
  have hall := hiff.mpr hC
  refine ⟨hall, fun pre userID i post m' hp hkeeps hrun => find_run hall hC hp hkeeps hrun, ?_, ?_⟩
  · exact hall.mono fun m hm i j userID => (consistent_iff.mp hm).slot_unique
  · refine eachStep_of_meets (I := fun m => m.Blank ∧ m.Consistent)
      (fun _ e _ hI hCe hst => ⟨(usersStep_eq_some hst).2 ▸ hI.1.changed e,
        (consistent_step hI.1 hI.2 hst).mpr hCe⟩) ?_ ⟨hblank, hstart⟩ hC
    rintro m e m' hI hCe hst i j userID rfl hj hentry
    have hm' := (consistent_step hI.1 hI.2 hst).mpr hCe
    have hheld := (consistent_iff.mp hI.2 userID j).mp hentry
    refine (consistent_iff.mp hm' userID j).mpr ?_
    obtain ⟨hi, rfl⟩ := usersStep_eq_some hst
    rw [loggedIn_changed hi]
    exact (Function.update_of_ne hj _ _).trans hheld

/-- A user is added and deleted. -/
theorem keepsUsers_add_delete : KeepsUsers (.start 2 fun _ _ => 0)
    [.addUser [97] 0, .deleteUserInfo 0] := by
  refine (keepsUsers_iff 2 (fun _ _ => 0) _ _ rfl).mpr ⟨?_, fun _ ht => ?_⟩
  · have hnobody : ∀ i, (PacketManager.start 2 fun _ _ => 0).loggedIn i ≠ some [97] :=
      (PacketManager.entry_eq_none_iff (PacketManager.consistent_start 2 fun _ _ => 0)).mp rfl
    exact Or.inr ⟨rfl, hnobody⟩
  · obtain rfl := Option.some.inj ht
    refine ⟨Or.inl ?_, fun _ _ => trivial⟩
    show some [97] ≠ none
    exact nofun

/-- A user is disconnected: the map still has the ID. -/
theorem find_after_disconnect :
    ∃ m, run usersStep (.start 2 fun _ _ => 0) [.addUser [97] 0, .processUserDisconnect 0] =
        some m ∧
      (m.user 0).mDomainState = .NONE ∧ m.mUserManager.findUserIndexByID [97] = 0 ∧
      ¬m.Consistent := by
  refine ⟨_, rfl, rfl, rfl, fun hm => ?_⟩
  exact ((hm [97] 0).mp rfl).2.1 rfl

end IocpStudy.ChatServer
