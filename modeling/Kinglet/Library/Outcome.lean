import Mathlib.Data.List.Basic
import Mathlib.Logic.Basic

/-!
# Outcomes of computations that may fail

Rules for computations in `Except`. `Ends E P x` says of one computation that it fails with an error
in `E` only and returns a value in `P` only. `Lockstep R x y` says of two that they fail with the
same error or return related values; a continuation that does not see the difference makes them
equal. Both compose along `bind`.
-/

namespace Kinglet.Library

universe u v

variable {ε : Type u} {α β γ δ : Type v} {R : α → β → Prop} {S : γ → δ → Prop}

theorem bind_eq_ok {x : Except ε α} {f : α → Except ε β} {b : β} :
    (x >>= f) = .ok b ↔ ∃ a, x = .ok a ∧ f a = .ok b := by
  cases x with
  | ok a =>
      constructor
      · exact fun h => ⟨a, rfl, h⟩
      · rintro ⟨_, ha, h⟩
        obtain rfl := Except.ok.inj ha
        exact h
  | error e =>
      constructor
      · exact fun h => nomatch h
      · rintro ⟨_, ha, -⟩
        cases ha

/-! ## Folds -/

section Folds

variable {ι : Type*} {step : β → ι → Except ε β} {items : List ι} {b b' : β}

/-- What no step touches but those that set it. -/
theorem foldlM_set {κ : Type*} (get : β → κ) (value : κ) (sets : ι → Prop) [DecidablePred sets]
    (hstep : ∀ b i b', step b i = .ok b' → get b' = if sets i then value else get b)
    (h : items.foldlM step b = .ok b') :
    get b' = if ∃ i ∈ items, sets i then value else get b := by
  induction items generalizing b with
  | nil =>
      obtain rfl := Except.ok.inj h
      rw [if_neg (by simp)]
  | cons i items ih =>
      rw [List.foldlM_cons] at h
      obtain ⟨middle, hmiddle, h⟩ := bind_eq_ok.1 h
      simp only [ih h, hstep b i middle hmiddle, List.exists_mem_cons_iff]
      by_cases hsets : sets i
      · simp only [hsets, if_true, ite_self, true_or]
      · simp only [hsets, if_false, false_or]

theorem foldlM_keeps {P : β → Prop} (hstep : ∀ b i b', step b i = .ok b' → P b → P b')
    (h : items.foldlM step b = .ok b') (hb : P b) : P b' := by
  induction items generalizing b with
  | nil =>
      obtain rfl := Except.ok.inj h
      exact hb
  | cons i items ih =>
      rw [List.foldlM_cons] at h
      obtain ⟨middle, hmiddle, h⟩ := bind_eq_ok.1 h
      exact ih h (hstep b i middle hmiddle hb)

end Folds

/-! ## One run -/

/-- The computation fails with an error in `E` or returns a value in `P`. -/
inductive Ends (E : ε → Prop) (P : α → Prop) : Except ε α → Prop
  | ok {a : α} (h : P a) : Ends E P (.ok a)
  | error {e : ε} (h : E e) : Ends E P (.error e)

namespace Ends

variable {E : ε → Prop} {P P' : α → Prop} {Q : β → Prop} {x : Except ε α}

theorem mono (h : Ends E P x) (hP : ∀ a, P a → P' a) : Ends E P' x := by
  cases h with
  | ok ha => exact .ok (hP _ ha)
  | error he => exact .error he

theorem bind {f : α → Except ε β} (h : Ends E P x) (hf : ∀ a, P a → Ends E Q (f a)) :
    Ends E Q (x >>= f) := by
  cases h with
  | ok ha => exact hf _ ha
  | error he => exact .error he

theorem map {f : α → β} (h : Ends E P x) (hf : ∀ a, P a → Q (f a)) : Ends E Q (x.map f) := by
  cases h with
  | ok ha => exact .ok (hf _ ha)
  | error he => exact .error he

theorem ite {c : Prop} [Decidable c] {y : Except ε α} (hx : c → Ends E P x)
    (hy : ¬c → Ends E P y) : Ends E P (if c then x else y) := by
  split
  · exact hx ‹c›
  · exact hy ‹¬c›

theorem of_error {e : ε} (h : Ends E P (.error e)) : E e := by
  cases h
  assumption

end Ends

/-! ## Two runs -/

/-- Both runs fail with the same error, or return related values. -/
inductive Lockstep (R : α → β → Prop) : Except ε α → Except ε β → Prop
  | ok {a : α} {b : β} (h : R a b) : Lockstep R (.ok a) (.ok b)
  | error (e : ε) : Lockstep R (.error e) (.error e)

namespace Lockstep

variable {x : Except ε α} {y : Except ε β}

theorem refl {R : α → α → Prop} (hR : ∀ a, R a a) (x : Except ε α) : Lockstep R x x := by
  cases x with
  | ok a => exact .ok (hR a)
  | error e => exact .error e

theorem mono {R' : α → β → Prop} (h : Lockstep R x y) (hR : ∀ a b, R a b → R' a b) :
    Lockstep R' x y := by
  cases h with
  | ok hab => exact .ok (hR _ _ hab)
  | error e => exact .error e

theorem bind {f : α → Except ε γ} {g : β → Except ε δ} (h : Lockstep R x y)
    (hfg : ∀ a b, R a b → Lockstep S (f a) (g b)) : Lockstep S (x >>= f) (y >>= g) := by
  cases h with
  | ok hab => exact hfg _ _ hab
  | error e => exact .error e

/-- Continuations that do not see the difference end the same. -/
theorem bind_eq {f : α → Except ε γ} {g : β → Except ε γ} (h : Lockstep R x y)
    (hfg : ∀ a b, R a b → f a = g b) : x >>= f = y >>= g := by
  cases h with
  | ok hab => exact hfg _ _ hab
  | error e => rfl

theorem eq {y : Except ε α} (h : Lockstep Eq x y) : x = y := by
  cases h with
  | ok hab => rw [hab]
  | error e => rfl

end Lockstep

end Kinglet.Library
