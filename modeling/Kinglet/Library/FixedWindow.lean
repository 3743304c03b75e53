import Mathlib.Data.List.Basic
import Mathlib.Order.Monotone.Defs
import Mathlib.Order.Nat

/-!
# Fixed-window counters

A counter that keeps one window number and the count in that window, and starts again when an event
of another window comes. With times that never decrease it counts exactly the events of the current
window: `Tracks` says so for every later time, and `Tracks.countOne` keeps it true.
-/

namespace Kinglet.Library

/-- The number of a window and the events counted in it. -/
structure WindowCount where
  windowId : ℕ
  count : ℕ
deriving DecidableEq

/-- The count a window has so far. -/
def countIn (entry : Option WindowCount) (windowId : ℕ) : ℕ :=
  match entry with
  | some entry => if entry.windowId = windowId then entry.count else 0
  | none => 0

theorem countIn_some (entry : WindowCount) (windowId : ℕ) :
    countIn (some entry) windowId = if entry.windowId = windowId then entry.count else 0 := rfl

/-- One more event in a window. -/
def countOne (entry : Option WindowCount) (windowId : ℕ) : Option WindowCount :=
  some ⟨windowId, countIn entry windowId + 1⟩

variable {τ : Type*} [Preorder τ] {window : τ → ℕ} {times : List τ} {entry : Option WindowCount}

/-- From the last event on, the counter agrees with the events of the window of the time. -/
def Tracks (window : τ → ℕ) (times : List τ) (entry : Option WindowCount) : Prop :=
  ∀ t, (∀ s ∈ times, s ≤ t) →
    countIn entry (window t) = times.countP fun s => decide (window s = window t)

theorem tracks_nil (window : τ → ℕ) : Tracks window [] none := fun _ _ => rfl

/-- **Counting an event keeps the counter true.** An event of a later window makes the earlier
counts void, and no earlier event lies in that window or a later one. -/
theorem Tracks.countOne (h : Tracks window times entry) (hwindow : Monotone window) {now : τ}
    (hnow : ∀ s ∈ times, s ≤ now) :
    Tracks window (times ++ [now]) (countOne entry (window now)) := by
  intro t ht
  have hlate : now ≤ t := ht now (by simp)
  rw [List.countP_append, List.countP_singleton]
  rw [Library.countOne, countIn_some]
  by_cases hsame : window now = window t
  · rw [if_pos hsame, hsame, h t fun s hs => (hnow s hs).trans hlate]
    simp
  · have hnone : times.countP (fun s => decide (window s = window t)) = 0 := by
      rw [List.countP_eq_zero]
      intro s hs heq
      have hle : window s ≤ window now := hwindow (hnow s hs)
      have hlt : window now < window t := lt_of_le_of_ne (hwindow hlate) hsame
      exact absurd (of_decide_eq_true heq) (hle.trans_lt hlt).ne
    simp [hsame, hnone]

end Kinglet.Library
