import Mathlib.Data.List.Basic
import Mathlib.Data.List.Pairwise

/-!
# Recency

The uses of keys, in the order in which they happened, and lists of keys from the least to the most
recently used one. A key is as old as there have been uses since its last one.
-/

namespace Kinglet.Library.Recency

variable {κ : Type*} [DecidableEq κ] {uses : List κ} {keys keys' : List κ} {key other : κ}

/-- The number of uses of other keys since the last use of this one; all of them when there was
none. -/
def age (uses : List κ) (key : κ) : ℕ := uses.reverse.idxOf key

/-- The keys stand from the least to the most recently used one. -/
def Ordered (uses : List κ) (keys : List κ) : Prop :=
  keys.Pairwise fun earlier later => age uses later < age uses earlier

/-- A key among others of which none is older. -/
def LeastRecent (uses : List κ) (key : κ) (keys : List κ) : Prop :=
  key ∈ keys ∧ ∀ other ∈ keys, age uses other ≤ age uses key

@[simp] theorem age_append_self : age (uses ++ [key]) key = 0 := by
  rw [age, List.reverse_append, List.reverse_singleton, List.singleton_append, List.idxOf_cons_self]

theorem age_append_of_ne (h : other ≠ key) : age (uses ++ [key]) other = age uses other + 1 := by
  rw [age, List.reverse_append, List.reverse_singleton, List.singleton_append,
    List.idxOf_cons_ne _ h.symm]
  rfl

theorem Ordered.sublist (h : Ordered uses keys) (hsub : keys'.Sublist keys) : Ordered uses keys' :=
  List.Pairwise.sublist hsub h

/-- A key that is used goes to the end. -/
theorem Ordered.touch (h : Ordered uses keys) (hnew : key ∉ keys) :
    Ordered (uses ++ [key]) (keys ++ [key]) := by
  have hne : ∀ other ∈ keys, other ≠ key := by
    rintro other hother rfl
    exact hnew hother
  refine List.pairwise_append.2 ⟨?_, List.pairwise_singleton .., fun other hother last hlast => ?_⟩
  · refine h.imp_of_mem fun {earlier later} hearlier hlater hlt => ?_
    rw [age_append_of_ne (hne _ hearlier), age_append_of_ne (hne _ hlater)]
    omega
  · obtain rfl := List.mem_singleton.1 hlast
    rw [age_append_self, age_append_of_ne (hne other hother)]
    omega

/-- The first key is the least recently used one. -/
theorem Ordered.leastRecent_head (h : Ordered uses (key :: keys)) :
    LeastRecent uses key (key :: keys) := by
  refine ⟨List.mem_cons_self, fun other hother => ?_⟩
  rcases List.mem_cons.1 hother with rfl | hother
  · exact Nat.le_refl _
  · exact Nat.le_of_lt ((List.pairwise_cons.1 h).1 other hother)

end Kinglet.Library.Recency
