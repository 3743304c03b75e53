import Mathlib.Data.List.Basic

/-!
# Separation of owners

Events of several owners act on one state. When every owner has a part of the state that its own
events depend on and that the events of other owners leave alone, a history looks to an owner like
the same history without the events of the others.
-/

namespace Kinglet.Library

variable {State Event Output Owner : Type*}

/-- The state after some events. -/
def runEvents (step : State → Event → Output × State) (state : State) (events : List Event) :
    State :=
  events.foldl (fun state event => (step state event).2) state

/-- The events that are `valid` keep apart what `agree` compares: the part of the state an owner
depends on. -/
structure Separates (step : State → Event → Output × State) (owner : Event → Owner)
    (valid : Event → Prop) (agree : Owner → State → State → Prop) : Prop where
  own : ∀ event s t, valid event → agree (owner event) s t →
    (step s event).1 = (step t event).1 ∧ agree (owner event) (step s event).2 (step t event).2
  other : ∀ event i s t, valid event → owner event ≠ i → agree i s t →
    agree i (step s event).2 t

variable {step : State → Event → Output × State} {owner : Event → Owner} {valid : Event → Prop}
  {agree : Owner → State → State → Prop}

/-- Agreement outlives leaving out the events of the other owners. -/
theorem Separates.runEvents_filter [DecidableEq Owner] (h : Separates step owner valid agree)
    {events : List Event} (hvalid : ∀ event ∈ events, valid event) {i : Owner} {s t : State}
    (hagree : agree i s t) :
    agree i (runEvents step s events)
      (runEvents step t (events.filter fun event => owner event = i)) := by
  induction events generalizing s t with
  | nil => exact hagree
  | cons event events ih =>
      have hevent := hvalid event List.mem_cons_self
      have hrest := fun e he => hvalid e (List.mem_cons_of_mem event he)
      by_cases hi : owner event = i
      · subst hi
        rw [List.filter_cons_of_pos (by simp)]
        exact ih hrest (h.own event s t hevent hagree).2
      · rw [List.filter_cons_of_neg (by simpa using hi)]
        exact ih hrest (h.other event i s t hevent hi hagree)

/-- **An event is answered as in the history of its own owner.** -/
theorem Separates.output_filter [DecidableEq Owner] (h : Separates step owner valid agree)
    {events : List Event} (hvalid : ∀ event ∈ events, valid event) {event : Event}
    (hevent : valid event) {s : State} (hrefl : agree (owner event) s s) :
    (step (runEvents step s events) event).1 =
      (step (runEvents step s (events.filter fun e => owner e = owner event)) event).1 :=
  (h.own event _ _ hevent (h.runEvents_filter hvalid hrefl)).1

end Kinglet.Library
