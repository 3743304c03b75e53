import Mathlib.Data.List.Basic

/-!
# Runs of a labelled step relation

A run takes a list of labels from one state to another. What every step with a label of some kind
preserves, every run with labels of that kind preserves; and between two states of a run of which
one property holds and then another, there is a first step out of the first property.
-/

namespace Kinglet.Library

variable {σ ε ξ : Type*} {Step : σ → ε → σ → Prop} {s t u : σ} {es es' : List ε}

inductive Run (Step : σ → ε → σ → Prop) : σ → List ε → σ → Prop
  | refl (s : σ) : Run Step s [] s
  | head {s t u : σ} {e : ε} {es : List ε} (hstep : Step s e t) (hrun : Run Step t es u) :
      Run Step s (e :: es) u

namespace Run

theorem append (h : Run Step s es t) (h' : Run Step t es' u) : Run Step s (es ++ es') u := by
  induction h with
  | refl => exact h'
  | head hstep _ ih => exact .head hstep (ih h')

theorem single {e : ε} (h : Step s e t) : Run Step s [e] t := .head h (.refl t)

/-- **The invariant rule.** -/
theorem invariant {Inv : σ → Prop} {Good : ε → Prop}
    (hstep : ∀ s e t, Good e → Step s e t → Inv s → Inv t) (h : Run Step s es t)
    (hgood : ∀ e ∈ es, Good e) (hs : Inv s) : Inv t := by
  induction h with
  | refl => exact hs
  | head h _ ih =>
      obtain ⟨he, hes⟩ := List.forall_mem_cons.1 hgood
      exact ih hes (hstep _ _ _ he h hs)

/-- What every step preserves holds before each step of a run. -/
theorem guard {Inv : σ → Prop} (h : Run Step s es t) (hstep : ∀ s e t, Step s e t → Inv s → Inv t)
    (hs : Inv s) : Run (fun s e t => Inv s ∧ Step s e t) s es t := by
  induction h with
  | refl => exact .refl _
  | head h _ ih => exact .head ⟨hs, h⟩ (ih (hstep _ _ _ h hs))

/-- The invariant rule with the labels so far. -/
theorem history_invariant {Inv : List ε → σ → Prop}
    (hstep : ∀ es s e t, Step s e t → Inv es s → Inv (es ++ [e]) t) (h : Run Step s es t)
    {es₀ : List ε} (hs : Inv es₀ s) : Inv (es₀ ++ es) t := by
  induction h generalizing es₀ with
  | refl => rwa [List.append_nil]
  | head h _ ih =>
      have hrest := ih (hstep _ _ _ _ h hs)
      rwa [List.append_assoc] at hrest

theorem mono {Step' : σ → ε → σ → Prop} (h : Run Step s es t)
    (hstep : ∀ e ∈ es, ∀ s t, Step s e t → Step' s e t) : Run Step' s es t := by
  induction h with
  | refl => exact .refl _
  | head h _ ih =>
      obtain ⟨he, hes⟩ := List.forall_mem_cons.1 hstep
      exact .head (he _ _ h) (ih hes)

/-- A run from `P` to a state outside has a first step out of `P`. -/
theorem exists_exit {P : σ → Prop} (h : Run Step s es t) (hs : P s) (ht : ¬P t) :
    ∃ es₁ e es₂ v w, es = es₁ ++ e :: es₂ ∧ Run Step s es₁ v ∧ P v ∧ Step v e w ∧ ¬P w ∧
      Run Step w es₂ t := by
  induction h with
  | refl => exact absurd hs ht
  | @head s v _ e es hstep hrun ih =>
      by_cases hv : P v
      · obtain ⟨es₁, e', es₂, v', w, rfl, hbefore, hv', hexit, hw, hafter⟩ := ih hv ht
        exact ⟨e :: es₁, e', es₂, v', w, rfl, .head hstep hbefore, hv', hexit, hw, hafter⟩
      · exact ⟨[], e, es, s, v, rfl, .refl s, hs, hstep, hv, hrun⟩

/-- The run of a function that may refuse a label. -/
theorem of_foldlM {step : σ → ε → Except ξ σ} (h : es.foldlM step s = .ok t) :
    Run (fun s e t => step s e = .ok t) s es t := by
  induction es generalizing s with
  | nil =>
      obtain rfl := Except.ok.inj h
      exact .refl _
  | cons e es ih =>
      rw [List.foldlM_cons] at h
      cases hstep : step s e with
      | error error =>
          rw [hstep] at h
          cases h
      | ok v =>
          rw [hstep] at h
          exact .head hstep (ih h)

theorem foldlM_eq {step : σ → ε → Except ξ σ} (h : Run (fun s e t => step s e = .ok t) s es t) :
    es.foldlM step s = .ok t := by
  induction h with
  | refl => rfl
  | head hstep _ ih => rw [List.foldlM_cons, hstep, ← ih]; rfl

/-- What a run of given labels ends in, by evaluation. -/
theorem exists_of_foldlM {step : σ → ε → Option σ} {test : σ → Bool}
    (h : (es.foldlM step s).any test = true) :
    ∃ t, Run (fun s e t => step s e = some t) s es t ∧ test t = true := by
  induction es generalizing s with
  | nil => exact ⟨s, .refl s, h⟩
  | cons e es ih =>
      rw [List.foldlM_cons] at h
      cases hstep : step s e with
      | none =>
          rw [hstep] at h
          cases h
      | some v =>
          rw [hstep] at h
          obtain ⟨t, hrun, htest⟩ := ih h
          exact ⟨t, .head hstep hrun, htest⟩

end Run

end Kinglet.Library
