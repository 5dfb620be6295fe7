import Mathlib.Data.List.Infix

/-! Runs of a machine that takes labelled steps.  `step s e` is the state after event `e`, or `none`
where `e` cannot happen in `s`.  An invariant that each step preserves holds after every run, and
when the steps preserve it only under a condition `C`, it holds after the runs that `Meets` it.
`Throughout` is a property of every state that a run passes through, and `EachStep` one of every
step that it takes. -/

namespace Runs

variable {σ ε : Type*} (step : σ → ε → Option σ)

/-- The state after the events `es` from `s`, or `none` where one of them cannot happen. -/
def run : σ → List ε → Option σ
  | s, [] => some s
  | s, e :: es => (step s e).bind fun t => run t es

/-- Every event of a run meets `C` in the state it happens in. -/
def Meets (C : σ → ε → Prop) : σ → List ε → Prop
  | _, [] => True
  | s, e :: es => C s e ∧ ∀ t, step s e = some t → Meets C t es

/-- `P` holds in every state that a run passes through. -/
def Throughout (P : σ → Prop) (s : σ) (es : List ε) : Prop :=
  ∀ pre, pre <+: es → ∀ t, run step s pre = some t → P t

/-- `Q` relates the states before and after every step of a run. -/
def EachStep (Q : σ → ε → σ → Prop) : σ → List ε → Prop :=
  Meets step fun s e => ∀ t, step s e = some t → Q s e t

variable {step} {s t u : σ} {e : ε} {es fs : List ε} {P : σ → Prop} {C : σ → ε → Prop}
  {Q : σ → ε → σ → Prop}

@[simp] theorem run_nil : run step s [] = some s := rfl

@[simp] theorem run_cons : run step s (e :: es) = (step s e).bind fun t => run step t es := rfl

theorem run_cons_eq_some :
    run step s (e :: es) = some u ↔ ∃ t, step s e = some t ∧ run step t es = some u := by
  rw [run_cons, Option.bind_eq_some_iff]

theorem run_append_eq_some :
    run step s (es ++ fs) = some u ↔ ∃ t, run step s es = some t ∧ run step t fs = some u := by
  induction es generalizing s with
  | nil => simp
  | cons e es ih =>
    simp only [List.cons_append, run_cons_eq_some, ih]
    constructor
    · rintro ⟨v, hv, t, ht, hu⟩
      exact ⟨t, ⟨v, hv, ht⟩, hu⟩
    · rintro ⟨t, ⟨v, hv, ht⟩, hu⟩
      exact ⟨v, hv, t, ht, hu⟩

theorem eq_of_run {β : Type*} (f : σ → β) {x : β} (h : run step s es = some t)
    (hx : (run step s es).map f = some x) : f t = x := by
  rw [h] at hx
  exact Option.some.inj hx

/-- Where every event can happen in every state, every run goes through. -/
theorem exists_run (hstep : ∀ s e, ∃ t, step s e = some t) (s : σ) (es : List ε) :
    ∃ t, run step s es = some t := by
  induction es generalizing s with
  | nil => exact ⟨s, rfl⟩
  | cons e es ih =>
    obtain ⟨t, ht⟩ := hstep s e
    obtain ⟨u, hu⟩ := ih t
    exact ⟨u, run_cons_eq_some.mpr ⟨t, ht, hu⟩⟩

theorem run_invariant (hstep : ∀ s e t, P s → step s e = some t → P t) (h0 : P s)
    (h : run step s es = some t) : P t := by
  induction es generalizing s with
  | nil => cases h; exact h0
  | cons e es ih =>
    obtain ⟨u, hu, hrun⟩ := run_cons_eq_some.mp h
    exact ih (hstep s e u h0 hu) hrun

/-- A record `f` of the state to which each step appends what `g` makes of its event. -/
theorem run_appends {β : Type*} {f : σ → List β} {g : List ε → List β} (hnil : g [] = [])
    (hcons : ∀ e es, g (e :: es) = g [e] ++ g es)
    (hstep : ∀ s e t, step s e = some t → f t = f s ++ g [e]) (h : run step s es = some t) :
    f t = f s ++ g es := by
  induction es generalizing s with
  | nil =>
    cases h
    rw [hnil, List.append_nil]
  | cons e es ih =>
    obtain ⟨u, hu, hrun⟩ := run_cons_eq_some.mp h
    rw [ih hrun, hstep s e u hu, hcons e es, List.append_assoc]

/-- Where each step from `s` is matched by one from a related state, so is each run. -/
theorem run_simulates {σ' : Type*} {step' : σ' → ε → Option σ'} {R : σ → σ' → Prop} {s' : σ'}
    (hstep : ∀ s s' e t, R s s' → step s e = some t → ∃ t', step' s' e = some t' ∧ R t t')
    (h : R s s') (hrun : run step s es = some t) : ∃ t', run step' s' es = some t' ∧ R t t' := by
  induction es generalizing s s' with
  | nil =>
    cases hrun
    exact ⟨s', rfl, h⟩
  | cons e es ih =>
    obtain ⟨u, hu, hrest⟩ := run_cons_eq_some.mp hrun
    obtain ⟨u', hu', hnext⟩ := hstep s s' e u h hu
    obtain ⟨t', ht', hlast⟩ := ih hnext hrest
    exact ⟨t', run_cons_eq_some.mpr ⟨u', hu', ht'⟩, hlast⟩

/-- Where the steps from the states in `I` are steps of another machine, so are the runs. -/
theorem run_map {σ' ε' : Type*} {k : σ' → ε' → Option σ'} {f : σ → σ'} {g : ε → ε'}
    {I : σ → Prop}
    (hstep : ∀ s e t, I s → step s e = some t → k (f s) (g e) = some (f t) ∧ I t)
    (h0 : I s) (h : run step s es = some t) : run k (f s) (es.map g) = some (f t) ∧ I t := by
  induction es generalizing s with
  | nil =>
    cases h
    exact ⟨rfl, h0⟩
  | cons e es ih =>
    obtain ⟨u, hu, hrun⟩ := run_cons_eq_some.mp h
    obtain ⟨hfirst, hI⟩ := hstep s e u h0 hu
    obtain ⟨hrest, hlast⟩ := ih hI hrun
    exact ⟨run_cons_eq_some.mpr ⟨f u, hfirst, hrest⟩, hlast⟩

@[simp] theorem meets_nil : Meets step C s [] := trivial

theorem meets_cons (h : step s e = some t) :
    Meets step C s (e :: es) ↔ C s e ∧ Meets step C t es := by
  constructor
  · rintro ⟨hC, hrest⟩
    exact ⟨hC, hrest t h⟩
  · rintro ⟨hC, hrest⟩
    refine ⟨hC, fun u hu => ?_⟩
    obtain rfl : t = u := Option.some.inj (h.symm.trans hu)
    exact hrest

theorem meets_append (h : run step s es = some t) :
    Meets step C s (es ++ fs) ↔ Meets step C s es ∧ Meets step C t fs := by
  induction es generalizing s with
  | nil =>
    cases h
    exact (and_iff_right meets_nil).symm
  | cons e es ih =>
    obtain ⟨u, hu, hrun⟩ := run_cons_eq_some.mp h
    rw [List.cons_append, meets_cons hu, meets_cons hu, ih hrun, and_assoc]

/-- A condition on the events alone. -/
theorem meets_events_iff {C : ε → Prop} (h : run step s es = some t) :
    Meets step (fun _ e => C e) s es ↔ ∀ e ∈ es, C e := by
  induction es generalizing s with
  | nil => exact iff_of_true meets_nil fun _ he => absurd he List.not_mem_nil
  | cons e es ih =>
    obtain ⟨u, hu, hrun⟩ := run_cons_eq_some.mp h
    rw [meets_cons hu, List.forall_mem_cons, ih hrun]

/-- A run meets `C` where each of its events does in the state that the events before it lead to. -/
theorem meets_of_take
    (h : ∀ n e, es[n]? = some e → ∀ t, run step s (es.take n) = some t → C t e) :
    Meets step C s es := by
  induction es generalizing s with
  | nil => trivial
  | cons e es ih =>
    refine ⟨h 0 e rfl s rfl, fun t ht => ih fun n e' he u hu => ?_⟩
    exact h (n + 1) e' he u (run_cons_eq_some.mpr ⟨t, ht, hu⟩)

theorem Meets.of_prefix (hp : es <+: fs) (h : Meets step C s fs) : Meets step C s es := by
  induction es generalizing s fs with
  | nil => trivial
  | cons e es ih =>
    obtain ⟨rest, rfl⟩ := hp
    exact ⟨h.1, fun t ht => ih ⟨rest, rfl⟩ (h.2 t ht)⟩

theorem run_invariant_of_meets (hstep : ∀ s e t, P s → C s e → step s e = some t → P t) (h0 : P s)
    (hC : Meets step C s es) (h : run step s es = some t) : P t := by
  induction es generalizing s with
  | nil => cases h; exact h0
  | cons e es ih =>
    obtain ⟨u, hu, hrun⟩ := run_cons_eq_some.mp h
    exact ih (hstep s e u h0 hC.1 hu) (hC.2 u hu) hrun

theorem throughout_of_meets (hstep : ∀ s e t, P s → C s e → step s e = some t → P t) (h0 : P s)
    (hC : Meets step C s es) : Throughout step P s es :=
  fun _ hp _ ht => run_invariant_of_meets hstep h0 (hC.of_prefix hp) ht

theorem Throughout.mono {Q : σ → Prop} (hPQ : ∀ s, P s → Q s) (h : Throughout step P s es) :
    Throughout step Q s es :=
  fun pre hp t ht => hPQ t (h pre hp t ht)

theorem Throughout.tail (hs : step s e = some t) (h : Throughout step P s (e :: es)) :
    Throughout step P t es := by
  intro pre hp u hu
  refine h (e :: pre) (List.cons_prefix_cons.mpr ⟨rfl, hp⟩) u ?_
  rw [run_cons, hs]
  exact hu

theorem Throughout.head (h : Throughout step P s es) : P s :=
  h [] (List.nil_prefix) s rfl

theorem Throughout.last (h : Throughout step P s es) (hr : run step s es = some t) : P t :=
  h es (List.prefix_refl es) t hr

/-- A property that no step restores holds throughout the runs at whose end it holds. -/
theorem throughout_iff_last (hstep : ∀ s e t, step s e = some t → P t → P s)
    (h : run step s es = some t) : Throughout step P s es ↔ P t := by
  refine ⟨fun hP => hP.last h, fun hP pre hp u hu => ?_⟩
  obtain ⟨rest, rfl⟩ := hp
  obtain ⟨v, hv, hrest⟩ := run_append_eq_some.mp h
  obtain rfl : u = v := Option.some.inj (hu.symm.trans hv)
  by_contra hnot
  exact run_invariant (P := fun s => ¬P s) (fun s e t hs hst ht => hs (hstep s e t hst ht)) hnot
    hrest hP

theorem throughout_cons (h0 : P s) (h : ∀ t, step s e = some t → Throughout step P t es) :
    Throughout step P s (e :: es) := by
  intro pre hp u hu
  cases pre with
  | nil =>
    cases hu
    exact h0
  | cons e' pre =>
    obtain ⟨rfl, hrest⟩ := List.cons_prefix_cons.mp hp
    obtain ⟨t, ht, hrun⟩ := run_cons_eq_some.mp hu
    exact h t ht pre hrest u hrun

/-- A run that starts in `D` and gets out of it does not keep `P`, where each step from `D` stays
there or breaks `P`. -/
theorem not_throughout_of_trap {D : σ → Prop}
    (hstep : ∀ s e t, D s → step s e = some t → D t ∨ ¬P t) (hs : D s) (ht : ¬D t)
    (h : run step s es = some t) : ¬Throughout step P s es := by
  induction es generalizing s with
  | nil =>
    cases h
    exact absurd hs ht
  | cons e es ih =>
    obtain ⟨u, hu, hrun⟩ := run_cons_eq_some.mp h
    intro hP
    rcases hstep s e u hs hu with hD | hbroken
    · exact ih hD hrun (hP.tail hu)
    · exact hbroken (hP.tail hu).head

/-- Where `C` is exactly what a step needs to restore `P`, the runs on which `P` holds throughout
are those that meet `C`.  `I` is what the steps preserve while they meet `C`. -/
theorem throughout_iff_meets_of {I : σ → Prop}
    (hI : ∀ s e t, I s → P s → C s e → step s e = some t → I t)
    (hexact : ∀ s e t, I s → P s → step s e = some t → (P t ↔ C s e))
    (hI0 : I s) (hP0 : P s) (h : run step s es = some t) :
    Throughout step P s es ↔ Meets step C s es := by
  constructor
  · intro hP
    induction es generalizing s with
    | nil => trivial
    | cons e es ih =>
      obtain ⟨u, hu, hrun⟩ := run_cons_eq_some.mp h
      have hPu : P u := (hP.tail hu).head
      have hCs : C s e := (hexact s e u hI0 hP0 hu).mp hPu
      rw [meets_cons hu]
      exact ⟨hCs, ih (hI s e u hI0 hP0 hCs hu) hPu hrun (hP.tail hu)⟩
  · intro hC
    have hboth : Throughout step (fun s => I s ∧ P s) s es :=
      throughout_of_meets
        (fun s e t hs hCs hst =>
          ⟨hI s e t hs.1 hs.2 hCs hst, (hexact s e t hs.1 hs.2 hst).mpr hCs⟩)
        ⟨hI0, hP0⟩ hC
    exact hboth.mono fun _ hs => hs.2

/-- The same where the steps preserve `I` with or without `C`. -/
theorem throughout_iff_meets {I : σ → Prop}
    (hI : ∀ s e t, I s → step s e = some t → I t)
    (hexact : ∀ s e t, I s → P s → step s e = some t → (P t ↔ C s e))
    (hI0 : I s) (hP0 : P s) (h : run step s es = some t) :
    Throughout step P s es ↔ Meets step C s es :=
  throughout_iff_meets_of (fun s e t hs _ _ hst => hI s e t hs hst) hexact hI0 hP0 h

theorem eachStep_cons (h : step s e = some t) :
    EachStep step Q s (e :: es) ↔ Q s e t ∧ EachStep step Q t es := by
  refine (meets_cons h).trans (and_congr ⟨fun hQ => hQ t h, fun hQ u hu => ?_⟩ Iff.rfl)
  obtain rfl : t = u := Option.some.inj (h.symm.trans hu)
  exact hQ

theorem eachStep_of_meets {I : σ → Prop} (hI : ∀ s e t, I s → C s e → step s e = some t → I t)
    (hQ : ∀ s e t, I s → C s e → step s e = some t → Q s e t) (hI0 : I s)
    (hC : Meets step C s es) : EachStep step Q s es := by
  induction es generalizing s with
  | nil => trivial
  | cons e es ih =>
    exact ⟨fun t ht => hQ s e t hI0 hC.1 ht, fun t ht => ih (hI s e t hI0 hC.1 ht) (hC.2 t ht)⟩

/-- Where `C` is exactly what a step needs to be related by `Q`, the runs whose steps are all so
related are those that meet `C`. -/
theorem eachStep_iff_meets {I : σ → Prop} (hI : ∀ s e t, I s → step s e = some t → I t)
    (hexact : ∀ s e t, I s → step s e = some t → (Q s e t ↔ C s e)) (hI0 : I s)
    (h : run step s es = some t) : EachStep step Q s es ↔ Meets step C s es := by
  induction es generalizing s with
  | nil => exact Iff.rfl
  | cons e es ih =>
    obtain ⟨u, hu, hrun⟩ := run_cons_eq_some.mp h
    rw [eachStep_cons hu, meets_cons hu, hexact s e u hI0 hu, ih (hI s e u hI0 hu) hrun]

end Runs
