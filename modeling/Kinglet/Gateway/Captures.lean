import Kinglet.Gateway.Templates

/-!
# The groups of a match

`exec` tries the longest text for each group first. Where the texts of the groups are determined by
the whole text, the order of trying does not matter: then the groups found are those of any match
(`exec_eq_some_of_unique`).
-/

namespace Kinglet.Gateway

open Js

variable {config : RouterConfig} {pattern rest : List Node} {letters text : JsString}
  {groups : List JsString}

/-- The groups of some match of the whole text. -/
def Captures (config : RouterConfig) : List Node → JsString → List JsString → Prop
  | [], text, groups => text = [] ∧ groups = []
  | .char u :: pattern, text, groups =>
      ∃ v text', text = v :: text' ∧ foldCase config u = foldCase config v ∧
        Captures config pattern text' groups
  | .segment n :: pattern, text, groups =>
      ∃ w text' groups', text = w ++ text' ∧ (w ≠ [] ∧ unit '/' ∉ w) ∧
        groups = List.replicate n w ++ groups' ∧ Captures config pattern text' groups'
  | .any n :: pattern, text, groups =>
      ∃ w text' groups', text = w ++ text' ∧ (∀ u ∈ w, isLineTerminator u = false) ∧
        groups = List.replicate n w ++ groups' ∧ Captures config pattern text' groups'

/-! ## What `exec` finds -/

theorem mem_of_mem_take_takeWhile {test : UInt16 → Bool} {k : ℕ}
    (hk : k ≤ (text.takeWhile test).length) : ∀ u ∈ text.take k, test u = true := by
  intro u hu
  have htake : text.take k <+: text.takeWhile test :=
    List.prefix_of_prefix_length_le (List.take_prefix k text) (List.takeWhile_prefix test)
      ((List.length_take_le k text).trans hk)
  exact List.mem_takeWhile_imp (htake.subset hu)

theorem length_le_takeWhile {test : UInt16 → Bool} {w : JsString} (text' : JsString)
    (hw : ∀ u ∈ w, test u = true) : w.length ≤ ((w ++ text').takeWhile test).length := by
  rw [List.takeWhile_append_of_pos hw, List.length_append]
  exact Nat.le_add_right _ _

theorem captures_of_exec (h : exec config pattern text = some groups) :
    Captures config pattern text groups := by
  induction pattern generalizing text groups with
  | nil =>
    rw [exec] at h
    split at h
    · exact ⟨‹_›, (Option.some.inj h).symm⟩
    · cases h
  | cons node pattern ih =>
    cases node with
    | char u =>
      cases text with
      | nil => cases h
      | cons v text =>
        rw [exec] at h
        split at h
        · exact ⟨v, text, rfl, ‹_›, ih h⟩
        · cases h
    | segment n =>
      obtain ⟨k, hk, h⟩ := List.exists_of_findSome?_eq_some h
      obtain ⟨found, hfound, rfl⟩ := Option.map_eq_some_iff.1 h
      have hlt : k < (text.takeWhile (· ≠ unit '/')).length :=
        List.mem_range.1 (List.mem_reverse.1 hk)
      have hlong := hlt.trans_le (List.takeWhile_prefix _).length_le
      refine ⟨text.take (k + 1), text.drop (k + 1), found, (List.take_append_drop _ _).symm,
        ⟨?_, ?_⟩, rfl, ih hfound⟩
      · apply List.ne_nil_of_length_pos
        rw [List.length_take]
        omega
      · intro hmem
        simpa using mem_of_mem_take_takeWhile hlt _ hmem
    | any n =>
      obtain ⟨k, hk, h⟩ := List.exists_of_findSome?_eq_some h
      obtain ⟨found, hfound, rfl⟩ := Option.map_eq_some_iff.1 h
      have hle := Nat.lt_succ_iff.1 (List.mem_range.1 (List.mem_reverse.1 hk))
      refine ⟨text.take k, text.drop k, found, (List.take_append_drop _ _).symm, ?_, rfl,
        ih hfound⟩
      intro u hu
      simpa using mem_of_mem_take_takeWhile hle u hu

theorem isSome_exec_of_captures (h : Captures config pattern text groups) :
    (exec config pattern text).isSome = true := by
  induction pattern generalizing text groups with
  | nil =>
    rw [exec, if_pos h.1]
    rfl
  | cons node pattern ih =>
    cases node with
    | char u =>
      obtain ⟨v, text, rfl, hfold, h⟩ := h
      rw [exec, if_pos hfold]
      exact ih h
    | segment n =>
      obtain ⟨w, text, groups', rfl, ⟨hne, hslash⟩, -, h⟩ := h
      have hw : ∀ u ∈ w, decide (u ≠ unit '/') = true := by
        intro u hu
        exact decide_eq_true fun heq => hslash (heq ▸ hu)
      have hpos := List.length_pos_of_ne_nil hne
      have hle := length_le_takeWhile text hw
      rw [exec, List.findSome?_isSome_iff]
      refine ⟨w.length - 1, ?_, ?_⟩
      · rw [List.mem_reverse, List.mem_range]
        omega
      · rw [Nat.sub_add_cancel hpos, List.drop_left, Option.isSome_map]
        exact ih h
    | any n =>
      obtain ⟨w, text, groups', rfl, hline, -, h⟩ := h
      have hw : ∀ u ∈ w, (!isLineTerminator u) = true := by
        intro u hu
        rw [hline u hu]
        rfl
      have hle := length_le_takeWhile text hw
      rw [exec, List.findSome?_isSome_iff]
      refine ⟨w.length, ?_, ?_⟩
      · rw [List.mem_reverse, List.mem_range]
        omega
      · rw [List.drop_left, Option.isSome_map]
        exact ih h

/-- Groups that every match has are those found. -/
theorem exec_eq_some_of_unique (h : Captures config pattern text groups)
    (hunique : ∀ groups', Captures config pattern text groups' → groups' = groups) :
    exec config pattern text = some groups := by
  obtain ⟨found, hfound⟩ := Option.isSome_iff_exists.1 (isSome_exec_of_captures h)
  rw [hfound, hunique found (captures_of_exec hfound)]

/-- Literal letters stand for themselves, up to their case. -/
theorem captures_letters : Captures config (letters.map Node.char ++ rest) text groups ↔
    ∃ w text', text = w ++ text' ∧ w.map (foldCase config) = letters.map (foldCase config) ∧
      Captures config rest text' groups := by
  induction letters generalizing text with
  | nil =>
    constructor
    · intro h
      exact ⟨[], text, rfl, rfl, h⟩
    · rintro ⟨w, text', rfl, hw, h⟩
      obtain rfl := List.map_eq_nil_iff.1 hw
      exact h
  | cons u letters ih =>
    constructor
    · rintro ⟨v, text', rfl, hfold, h⟩
      obtain ⟨w, text', rfl, hw, h⟩ := ih.1 h
      exact ⟨v :: w, text', rfl, by rw [List.map_cons, List.map_cons, hfold, hw], h⟩
    · rintro ⟨w, text', rfl, hw, h⟩
      obtain ⟨v, w, rfl, hfold, hw⟩ := List.map_eq_cons_iff.1 hw
      exact ⟨v, w ++ text', rfl, hfold.symm, ih.2 ⟨w, text', rfl, hw, h⟩⟩

end Kinglet.Gateway
