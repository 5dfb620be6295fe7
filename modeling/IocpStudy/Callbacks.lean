import Mathlib.Data.List.Chain
import Mathlib.Logic.Function.Basic

/-! The callbacks of the two `IOCPServer` classes, which ChatServer and iocpsolution override:
`OnConnect` for a connection of a slot that is accepted, and `OnClose` for one that is closed.  Any
number of connections follow each other on a slot, and a server may close a slot for every operation
of it that fails. -/

namespace IocpStudy

/-- A call that a server makes for the index of a slot. -/
inductive Callback
  | OnConnect
  | OnClose
deriving Repr, DecidableEq

/-- The calls for one index alternate, and the first one is `OnConnect`. -/
structure Alternating (calls : List Callback) : Prop where
  chain : calls.IsChain (· ≠ ·)
  first : ∀ c ∈ calls.head?, c = .OnConnect

variable {calls : List Callback}

theorem alternating_nil : Alternating [] := ⟨List.IsChain.nil, nofun⟩

theorem alternating_concat {c : Callback} :
    Alternating (calls ++ [c]) ↔
      Alternating calls ∧ calls.getLast? ≠ some c ∧ (calls = [] → c = .OnConnect) := by
  constructor
  · rintro ⟨hchain, hfirst⟩
    obtain ⟨hcalls, -, hlast⟩ := List.isChain_append.mp hchain
    refine ⟨⟨hcalls, fun c' hc' => hfirst c' ?_⟩, fun hl => hlast c hl c rfl rfl, ?_⟩
    · rw [List.head?_append, Option.mem_def.mp hc']
      rfl
    · rintro rfl
      exact hfirst c rfl
  · rintro ⟨⟨hchain, hfirst⟩, hlast, hempty⟩
    refine ⟨List.isChain_append.mpr ⟨hchain, List.isChain_singleton c, ?_⟩, fun c' hc' => ?_⟩
    · rintro x hx y ⟨⟩ rfl
      exact hlast hx
    · cases calls with
      | nil =>
        obtain rfl : c = c' := Option.some.inj hc'
        exact hempty rfl
      | cons x calls => exact hfirst c' hc'

theorem alternating_onConnect :
    Alternating (calls ++ [.OnConnect]) ↔
      Alternating calls ∧ calls.getLast? ≠ some .OnConnect :=
  alternating_concat.trans (and_congr_right fun _ => and_iff_left fun _ => rfl)

theorem alternating_onClose :
    Alternating (calls ++ [.OnClose]) ↔
      Alternating calls ∧ calls.getLast? = some .OnConnect := by
  refine alternating_concat.trans (and_congr_right fun _ => ?_)
  constructor
  · rintro ⟨hlast, hempty⟩
    rcases hl : calls.getLast? with - | c
    · exact absurd (hempty (List.getLast?_eq_none_iff.mp hl)) nofun
    · cases c with
      | OnConnect => rfl
      | OnClose => exact absurd hl hlast
  · intro hlast
    refine ⟨by simp [hlast], ?_⟩
    rintro rfl
    cases hlast

/-- Which slots are connected, and the calls made for each. -/
structure CallRecord where
  connected : ℕ → Bool
  callbacks : ℕ → List Callback

namespace CallRecord

def set (r : CallRecord) (i : ℕ) (connected : Bool) (calls : List Callback) : CallRecord :=
  ⟨Function.update r.connected i connected, Function.update r.callbacks i calls⟩

/-- The calls for each index alternate, and a connection that was reported and is no longer there
has had its `OnClose`. -/
def Paired (r : CallRecord) : Prop :=
  ∀ i, Alternating (r.callbacks i) ∧
    ((r.callbacks i).getLast? = some .OnConnect → r.connected i = true)

/-- The connections that are there were reported. -/
def Reported (r : CallRecord) : Prop :=
  ∀ i, r.connected i = true → (r.callbacks i).getLast? = some .OnConnect

/-- A step of a server and the condition `C` under which it keeps the calls paired: it leaves the
slots alone, it reports a new connection or a close, or it closes a slot without a report. -/
inductive Step (r : CallRecord) (C : Prop) : CallRecord → Prop
  | silent (hC : C) : Step r C r
  | onConnect (i : ℕ) (hC : C ↔ r.connected i = false) :
      Step r C (r.set i true (r.callbacks i ++ [.OnConnect]))
  | onClose (i : ℕ) (hC : C ↔ r.connected i = true) :
      Step r C (r.set i false (r.callbacks i ++ [.OnClose]))
  | unreported (i : ℕ) (hC : C ↔ r.connected i = false) :
      Step r C (r.set i false (r.callbacks i))

variable {r r' : CallRecord} {C : Prop} {i : ℕ} {connected : Bool}

theorem set_eq_self (h : r.connected i = connected) :
    r.set i connected (r.callbacks i) = r := by
  subst h
  rw [set, Function.update_eq_self, Function.update_eq_self]

/-- The slots with a field `f` that says whether they are connected. -/
theorem set_mk {α : Type*} (f : α → Bool) (slots : ℕ → α) (callbacks : ℕ → List Callback)
    (i : ℕ) (slot : α) (calls : List Callback) :
    (⟨fun j => f (slots j), callbacks⟩ : CallRecord).set i (f slot) calls =
      ⟨fun j => f (Function.update slots i slot j), Function.update callbacks i calls⟩ :=
  congrArg (CallRecord.mk · _) (Function.comp_update f slots i slot).symm

theorem paired_set (hr : r.Paired) :
    (r.set i connected calls).Paired ↔
      Alternating calls ∧ (calls.getLast? = some .OnConnect → connected = true) := by
  constructor
  · intro h
    simpa only [set, Function.update_self] using h i
  · intro h j
    by_cases hj : j = i
    · subst hj
      simpa only [set, Function.update_self] using h
    · simpa only [set, Function.update_of_ne hj] using hr j

theorem reported_set (hr : r.Reported)
    (h : connected = true → calls.getLast? = some .OnConnect) :
    (r.set i connected calls).Reported := by
  intro j
  by_cases hj : j = i
  · subst hj
    simpa only [set, Function.update_self] using h
  · simpa only [set, Function.update_of_ne hj] using hr j

theorem last_iff (hreported : r.Reported) (hpaired : r.Paired) :
    (r.callbacks i).getLast? = some .OnConnect ↔ r.connected i = true :=
  ⟨(hpaired i).2, hreported i⟩

theorem Step.reported (h : Step r C r') (hr : r.Reported) : r'.Reported := by
  cases h with
  | silent hC => exact hr
  | onConnect i hC => exact reported_set hr fun _ => List.getLast?_concat
  | onClose i hC => exact reported_set hr nofun
  | unreported i hC => exact reported_set hr nofun

theorem Step.paired_iff (h : Step r C r') (hreported : r.Reported) (hr : r.Paired) :
    r'.Paired ↔ C := by
  cases h with
  | silent hC => exact iff_of_true hr hC
  | onConnect i hC =>
    rw [paired_set hr, alternating_onConnect, Ne, last_iff hreported hr, Bool.not_eq_true, hC]
    exact ⟨fun h => h.1.2, fun h => ⟨⟨(hr i).1, h⟩, fun _ => rfl⟩⟩
  | onClose i hC =>
    rw [paired_set hr, alternating_onClose, last_iff hreported hr, hC, List.getLast?_concat]
    exact ⟨fun h => h.1.2, fun h => ⟨⟨(hr i).1, h⟩, nofun⟩⟩
  | unreported i hC =>
    rw [paired_set hr, last_iff hreported hr, hC, Bool.eq_false_iff]
    exact ⟨fun h hconnected => Bool.false_ne_true (h.2 hconnected),
      fun h => ⟨(hr i).1, fun hconnected => absurd hconnected h⟩⟩

end CallRecord

end IocpStudy
