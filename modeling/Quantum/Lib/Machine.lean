import Mathlib.Data.Option.Basic

/-!
# Runs of a transition function

`run step s es` takes the events `es` one after another from `s`; it is `none` as soon as an event is
not enabled.  `Meets step C s es` says that every event of the run meets the condition `C`, which may
look at the state before it.  `run_induction` is the rule for invariants of such runs.
-/

namespace Quantum.Machine

variable {σ ε : Type} {step : σ → ε → Option σ} {C : σ → ε → Prop}

def run (step : σ → ε → Option σ) (s : σ) : List ε → Option σ
  | [] => some s
  | e :: es => (step s e).bind fun s' => run step s' es

def Meets (step : σ → ε → Option σ) (C : σ → ε → Prop) (s : σ) : List ε → Prop
  | [] => True
  | e :: es => C s e ∧ ∀ s', step s e = some s' → Meets step C s' es

theorem meets_cons_none {s : σ} {e : ε} {es : List ε} (h : step s e = none) :
    Meets step C s (e :: es) ↔ C s e := by
  simp [Meets, h]

theorem meets_cons_some {s s' : σ} {e : ε} {es : List ε} (h : step s e = some s') :
    Meets step C s (e :: es) ↔ C s e ∧ Meets step C s' es := by
  simp [Meets, h]

instance Meets.decidable [∀ s e, Decidable (C s e)] (s : σ) :
    (es : List ε) → Decidable (Meets step C s es)
  | [] => isTrue trivial
  | e :: es =>
    match h : step s e with
    | none => decidable_of_iff _ (meets_cons_none h).symm
    | some s' =>
      have := Meets.decidable s' es
      decidable_of_iff _ (meets_cons_some h).symm

@[simp]
theorem run_nil (s : σ) : run step s [] = some s :=
  rfl

theorem run_cons {s s' : σ} {e : ε} {es : List ε} :
    run step s (e :: es) = some s' ↔ ∃ s₁, step s e = some s₁ ∧ run step s₁ es = some s' :=
  Option.bind_eq_some_iff

theorem run_append {s s' : σ} {es₁ es₂ : List ε} :
    run step s (es₁ ++ es₂) = some s' ↔
      ∃ s₁, run step s es₁ = some s₁ ∧ run step s₁ es₂ = some s' := by
  induction es₁ generalizing s with
  | nil => simp
  | cons e es₁ ih =>
    rw [List.cons_append, run_cons]
    constructor
    · rintro ⟨s₁, he, hr⟩
      obtain ⟨s₂, h₁, h₂⟩ := ih.mp hr
      exact ⟨s₂, run_cons.mpr ⟨s₁, he, h₁⟩, h₂⟩
    · rintro ⟨s₂, h₁, h₂⟩
      obtain ⟨s₁, he, hr⟩ := run_cons.mp h₁
      exact ⟨s₁, he, ih.mpr ⟨s₂, hr, h₂⟩⟩

theorem Meets.append {s s₁ : σ} {es₁ es₂ : List ε} (h : Meets step C s (es₁ ++ es₂))
    (hr : run step s es₁ = some s₁) : Meets step C s es₁ ∧ Meets step C s₁ es₂ := by
  induction es₁ generalizing s with
  | nil =>
    obtain rfl := Option.some.inj hr
    exact ⟨trivial, h⟩
  | cons e es₁ ih =>
    obtain ⟨s₂, he, hr⟩ := run_cons.mp hr
    obtain ⟨hc, hm⟩ := h
    obtain ⟨-, h₂⟩ := ih (hm s₂ he) hr
    refine ⟨⟨hc, fun s' hs' => ?_⟩, h₂⟩
    obtain rfl := Option.some.inj (he.symm.trans hs')
    exact (ih (hm s₂ he) hr).1

/-- A property that every step under the condition keeps holds along the whole run. -/
theorem run_induction {I : σ → Prop}
    (hstep : ∀ s e s', I s → C s e → step s e = some s' → I s') {s s' : σ} {es : List ε}
    (hs : I s) (hm : Meets step C s es) (hr : run step s es = some s') : I s' := by
  induction es generalizing s with
  | nil =>
    obtain rfl := Option.some.inj hr
    exact hs
  | cons e es ih =>
    obtain ⟨s₁, he, hr⟩ := run_cons.mp hr
    exact ih (hstep s e s₁ hs hm.1 he) (hm.2 s₁ he) hr

/-- A property that every event of the run keeps holds along the whole run. -/
theorem run_invariant_of_mem {I : σ → Prop} {s s' : σ} {es : List ε}
    (hstep : ∀ s e s', e ∈ es → I s → step s e = some s' → I s') (hs : I s)
    (hr : run step s es = some s') : I s' := by
  induction es generalizing s with
  | nil =>
    obtain rfl := Option.some.inj hr
    exact hs
  | cons e es ih =>
    obtain ⟨s₁, he, hr⟩ := run_cons.mp hr
    refine ih (fun s e s' hmem => hstep s e s' (List.mem_cons_of_mem _ hmem)) ?_ hr
    exact hstep s e s₁ List.mem_cons_self hs he

/-- A property that every step keeps holds along the whole run. -/
theorem run_invariant {I : σ → Prop} (hstep : ∀ s e s', I s → step s e = some s' → I s')
    {s s' : σ} {es : List ε} (hs : I s) (hr : run step s es = some s') : I s' :=
  run_invariant_of_mem (fun s e s' _ => hstep s e s') hs hr

/-- If a property holds in every state of a run, then every step of it leads to such a state. -/
theorem meets_of_forall {P : σ → Prop} {s s' : σ} {es : List ε} (hr : run step s es = some s')
    (h : ∀ es₁ es₂ s₁, es = es₁ ++ es₂ → run step s es₁ = some s₁ → P s₁) :
    Meets step (fun s e => ∀ s', step s e = some s' → P s') s es := by
  induction es generalizing s with
  | nil => trivial
  | cons e es ih =>
    obtain ⟨s₂, he, hr⟩ := run_cons.mp hr
    refine ⟨fun s₁ hs₁ => ?_, fun s₁ hs₁ => ?_⟩
    · exact h [e] es s₁ rfl (run_cons.mpr ⟨s₁, hs₁, rfl⟩)
    · obtain rfl := Option.some.inj (he.symm.trans hs₁)
      refine ih hr fun es₁ es₂ s₁ hes hrun => ?_
      exact h (e :: es₁) es₂ s₁ (by rw [hes]; rfl) (run_cons.mpr ⟨s₂, he, hrun⟩)

/-- In a run whose steps all meet `A`: from the invariant a step reaches the property only when it meets
the condition, and then it keeps the invariant, so the property holds in every state of the run
exactly when every step meets the condition. -/
theorem run_all_iff_of_meets {I P : σ → Prop} {A : σ → ε → Prop} (hIP : ∀ s, I s → P s)
    (hstep : ∀ s e s', I s → A s e → step s e = some s' → (P s' → C s e) ∧ (C s e → I s'))
    {s s' : σ} {es : List ε} (hs : I s) (hA : Meets step A s es) (hr : run step s es = some s') :
    (∀ es₁ es₂ s₁, es = es₁ ++ es₂ → run step s es₁ = some s₁ → P s₁) ↔ Meets step C s es := by
  induction es generalizing s with
  | nil =>
    refine ⟨fun _ => trivial, fun _ es₁ es₂ s₁ hes hrun => ?_⟩
    obtain ⟨rfl, -⟩ := List.append_eq_nil_iff.mp hes.symm
    obtain rfl := Option.some.inj hrun
    exact hIP s hs
  | cons e es ih =>
    obtain ⟨s₂, he, hr⟩ := run_cons.mp hr
    obtain ⟨hneeds, hkeeps⟩ := hstep s e s₂ hs hA.1 he
    constructor
    · intro h
      have hc : C s e := hneeds (h [e] es s₂ rfl (run_cons.mpr ⟨s₂, he, rfl⟩))
      refine ⟨hc, fun s' hs' => ?_⟩
      obtain rfl := Option.some.inj (he.symm.trans hs')
      refine (ih (hkeeps hc) (hA.2 s₂ he) hr).mp fun es₁ es₂ s₁ hes hrun => ?_
      exact h (e :: es₁) es₂ s₁ (by rw [hes]; rfl) (run_cons.mpr ⟨s₂, he, hrun⟩)
    · rintro ⟨hc, hm⟩ es₁ es₂ s₁ hes hrun
      cases es₁ with
      | nil =>
        obtain rfl := Option.some.inj hrun
        exact hIP s hs
      | cons e' es₁ =>
        obtain ⟨rfl, hes'⟩ := List.cons.inj hes
        obtain ⟨s₂', he', hrun⟩ := run_cons.mp hrun
        obtain rfl := Option.some.inj (he.symm.trans he')
        exact (ih (hkeeps hc) (hA.2 s₂ he) hr).mpr (hm s₂ he) es₁ es₂ s₁ hes' hrun

theorem meets_true (s : σ) (es : List ε) : Meets step (fun _ _ => True) s es := by
  induction es generalizing s with
  | nil => trivial
  | cons e es ih => exact ⟨trivial, fun s' _ => ih s'⟩

/-- The same for a run with no assumption on its steps. -/
theorem run_all_iff_of_invariant {I P : σ → Prop} (hIP : ∀ s, I s → P s)
    (hstep : ∀ s e s', I s → step s e = some s' → (P s' → C s e) ∧ (C s e → I s')) {s s' : σ}
    {es : List ε} (hs : I s) (hr : run step s es = some s') :
    (∀ es₁ es₂ s₁, es = es₁ ++ es₂ → run step s es₁ = some s₁ → P s₁) ↔ Meets step C s es :=
  run_all_iff_of_meets hIP (fun s e s' hi _ => hstep s e s' hi) hs (meets_true s es) hr

/-- If a step keeps a property exactly when it meets the condition, then the property holds in every
state of a run exactly when every step meets the condition. -/
theorem run_all_iff {I : σ → Prop}
    (hstep : ∀ s e s', I s → step s e = some s' → (I s' ↔ C s e)) {s s' : σ} {es : List ε}
    (hs : I s) (hr : run step s es = some s') :
    (∀ es₁ es₂ s₁, es = es₁ ++ es₂ → run step s es₁ = some s₁ → I s₁) ↔ Meets step C s es :=
  run_all_iff_of_invariant (fun _ h => h)
    (fun s e s' hi h => ⟨(hstep s e s' hi h).mp, (hstep s e s' hi h).mpr⟩) hs hr

end Quantum.Machine
