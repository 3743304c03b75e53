import Mathlib.Data.List.Basic

/-!
# Walks over pages

A list is read page by page: each request has a token, and its answer has a page and perhaps the token
of the next one. Where the tokens stand for offsets into one list, the walk from any of them ends, its
pages are the rest of the list, and all but the last are full.
-/

namespace Kinglet.Library.Paging

variable {τ α : Type*}

/-- The answers to a token. -/
structure Page (τ α : Type*) where
  items : List α
  next : Option τ

/-- The walk that starts with a token has these pages. -/
inductive Walk (page : τ → Page τ α) : τ → List (List α) → Prop
  | last {token : τ} (hlast : (page token).next = none) : Walk page token [(page token).items]
  | next {token token' : τ} {pages : List (List α)} (hnext : (page token).next = some token')
      (hrest : Walk page token' pages) : Walk page token ((page token).items :: pages)

variable {page : τ → Page τ α} {token : τ} {pages pages' : List (List α)}

theorem Walk.ne_nil (h : Walk page token pages) : pages ≠ [] := by
  cases h <;> exact List.cons_ne_nil _ _

/-- There is only one walk from a token. -/
theorem Walk.unique (h : Walk page token pages) (h' : Walk page token pages') : pages = pages' := by
  induction h generalizing pages' with
  | last hlast =>
      cases h' with
      | last => rfl
      | next hnext => exact nomatch hlast.symm.trans hnext
  | next hnext _ ih =>
      cases h' with
      | last hlast => exact nomatch hlast.symm.trans hnext
      | next hnext' hrest' =>
          obtain rfl := Option.some.inj (hnext.symm.trans hnext')
          rw [ih hrest']

/-- A token with the same answer has the same walk. -/
theorem Walk.of_page_eq {token' : τ} (h : Walk page token pages) (heq : page token = page token') :
    Walk page token' pages := by
  cases h with
  | last hlast =>
      rw [heq] at hlast ⊢
      exact .last hlast
  | next hnext hrest =>
      rw [heq] at hnext ⊢
      exact .next hnext hrest

/-- The pages of a list, by tokens for offsets. -/
structure Offsets (page : τ → Page τ α) (token : ℕ → τ) (size : ℕ) (list : List α) : Prop where
  items : ∀ offset, (page (token offset)).items = (list.drop offset).take size
  next : ∀ offset, (page (token offset)).next =
    if offset + size < list.length then some (token (offset + size)) else none

/-- **The walk.** It ends, has the rest of the list, and fills every page but the last. -/
theorem Offsets.exists_walk {token : ℕ → τ} {size : ℕ} {list : List α}
    (h : Offsets page token size list) (hsize : 0 < size) (offset : ℕ) :
    ∃ pages, Walk page (token offset) pages ∧ pages.flatten = list.drop offset ∧
      ∀ items ∈ pages.dropLast, items.length = size := by
  by_cases hmore : offset + size < list.length
  · obtain ⟨pages, hwalk, hflatten, hfull⟩ := h.exists_walk hsize (offset + size)
    refine ⟨_ :: pages, .next ((h.next offset).trans (if_pos hmore)) hwalk, ?_, ?_⟩
    · rw [List.flatten_cons, h.items, hflatten, ← List.drop_drop, List.take_append_drop]
    · intro items hitems
      rw [List.dropLast_cons_of_ne_nil hwalk.ne_nil] at hitems
      rcases List.mem_cons.1 hitems with rfl | hitems
      · rw [h.items, List.length_take, List.length_drop]
        omega
      · exact hfull items hitems
  · refine ⟨_, .last ((h.next offset).trans (if_neg hmore)), ?_, List.forall_mem_nil _⟩
    rw [List.flatten_singleton, h.items]
    refine List.take_of_length_le ?_
    rw [List.length_drop]
    omega
termination_by list.length - offset

end Kinglet.Library.Paging
