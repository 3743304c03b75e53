import Mathlib.Data.List.Infix

/-!
# Patterns with wildcards

A pattern is a sequence of symbols: a letter, any one letter, or any letters. Letters are compared
by a given relation, so that case may be ignored.
-/

namespace Kinglet.Library

inductive Symbol (α : Type*) where
  | exact (letter : α)
  | one
  | many

namespace Symbol

variable {α : Type*} (same : α → α → Bool)

/-- Whether the whole of a text is of the form of a pattern. -/
def matchesText : List (Symbol α) → List α → Bool
  | [], text => text.isEmpty
  | .exact _ :: _, [] => false
  | .exact letter :: pattern, first :: text => same letter first && matchesText pattern text
  | .one :: _, [] => false
  | .one :: pattern, _ :: text => matchesText pattern text
  | .many :: pattern, text => text.tails.any (matchesText pattern)

variable {same}

@[simp] theorem matchesText_many {pattern : List (Symbol α)} {text : List α} :
    matchesText same (.many :: pattern) text = true ↔
      ∃ rest, rest <:+ text ∧ matchesText same pattern rest = true := by
  simp [matchesText, List.any_eq_true]

theorem matchesText_many_nil (text : List α) : matchesText same [.many] text = true :=
  matchesText_many.2 ⟨[], List.nil_suffix, rfl⟩

/-- A symbol stands for a letter on its own. -/
def StandsFor (same : α → α → Bool) (symbol : Symbol α) (letter : α) : Prop :=
  ∀ expected, symbol = .exact expected → same expected letter = true

/-- A text whose first letters the symbols stand for, one by one, is of the form of the symbols
followed by anything. -/
theorem matchesText_append_many {symbols : List (Symbol α)} {front back : List α}
    (h : List.Forall₂ (StandsFor same) symbols front) :
    matchesText same (symbols ++ [.many]) (front ++ back) = true := by
  induction h with
  | nil => exact matchesText_many_nil back
  | @cons symbol letter symbols front hfirst _ ih =>
      cases symbol with
      | exact expected =>
          rw [List.cons_append, List.cons_append, matchesText, hfirst expected rfl]
          exact ih
      | one => exact ih
      | many => exact matchesText_many.2 ⟨front ++ back, List.suffix_cons letter _, ih⟩

end Symbol

end Kinglet.Library
