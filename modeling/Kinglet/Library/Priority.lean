import Mathlib.Data.List.MinMax
import Mathlib.Data.List.Nodup
import Mathlib.Data.List.Sort

/-!
# First match in order of priority

Items with pairwise distinct keys are tried in the order of their keys. The first item of the
sorted list that has a property is the one of least key that has it, whatever order the items were
given in; the items tried before it are those of lesser key.
-/

namespace Kinglet.Library

variable {α κ : Type*} [LinearOrder κ] {key : α → κ} {l l' : List α}

/-- The keys increase along the list. -/
def Increasing (key : α → κ) (l : List α) : Prop := l.Pairwise fun a b => key a < key b

theorem Increasing.filter (hl : Increasing key l) (p : α → Bool) : Increasing key (l.filter p) :=
  List.Pairwise.filter p hl

theorem Increasing.nodup_map (hl : Increasing key l) : (l.map key).Nodup :=
  List.pairwise_map.2 (hl.imp fun hab => ne_of_lt hab)

/-- There is only one increasing arrangement of a list. -/
theorem Increasing.eq_of_perm (hl : Increasing key l) (hl' : Increasing key l') (hp : l.Perm l') :
    l = l' :=
  List.Perm.eq_of_pairwise (fun _ _ _ _ hab hba => absurd hab hba.not_gt) hl hl' hp

/-- Sorting by distinct keys makes them increase. -/
theorem increasing_insertionSort (hl : (l.map key).Nodup) :
    Increasing key (l.insertionSort fun a b => key a ≤ key b) := by
  have htotal : Std.Total fun a b : α => key a ≤ key b := ⟨fun a b => le_total (key a) (key b)⟩
  have htrans : IsTrans α fun a b => key a ≤ key b := ⟨fun _ _ _ => le_trans⟩
  have hsorted := List.pairwise_insertionSort (fun a b => key a ≤ key b) l
  have hnodup : ((l.insertionSort fun a b => key a ≤ key b).map key).Nodup :=
    ((List.perm_insertionSort _ l).map key).nodup_iff.2 hl
  exact (hsorted.and (List.pairwise_map.1 hnodup)).imp fun h => lt_of_le_of_ne h.1 h.2

theorem insertionSort_eq_of_perm (hl : (l.map key).Nodup) (hp : l.Perm l') :
    (l.insertionSort fun a b => key a ≤ key b) = l'.insertionSort fun a b => key a ≤ key b := by
  have hl' : (l'.map key).Nodup := (hp.map key).nodup_iff.1 hl
  refine (increasing_insertionSort hl).eq_of_perm (increasing_insertionSort hl') ?_
  exact (List.perm_insertionSort _ l).trans (hp.trans (List.perm_insertionSort _ l').symm)

/-- Sorting and selecting commute. -/
theorem insertionSort_filter (hl : (l.map key).Nodup) (p : α → Bool) :
    (l.insertionSort fun a b => key a ≤ key b).filter p =
      (l.filter p).insertionSort fun a b => key a ≤ key b := by
  have hfilter : ((l.filter p).map key).Nodup := hl.sublist (List.filter_sublist.map key)
  refine ((increasing_insertionSort hl).filter p).eq_of_perm (increasing_insertionSort hfilter) ?_
  exact ((List.perm_insertionSort _ l).filter p).trans (List.perm_insertionSort _ _).symm

/-! ## The least element -/

/-- The first of an increasing list is the least. -/
theorem Increasing.argmin_eq_head? (hl : Increasing key l) : l.argmin key = l.head? := by
  cases l with
  | nil => rfl
  | cons a l =>
      cases hmin : (a :: l).argmin key with
      | none => exact absurd (List.argmin_eq_none.1 hmin) (List.cons_ne_nil a l)
      | some m =>
          have hle : key m ≤ key a := List.le_of_mem_argmin List.mem_cons_self hmin
          rcases List.mem_cons.1 (List.argmin_mem hmin) with rfl | hm
          · rfl
          · exact absurd ((List.pairwise_cons.1 hl).1 m hm) hle.not_gt

/-- The least element does not depend on the order of the list. -/
theorem argmin_eq_of_perm (hl : (l.map key).Nodup) (hp : l.Perm l') :
    l.argmin key = l'.argmin key := by
  have hmem : ∀ {m}, l.argmin key = some m → m ∈ l' ∧ ∀ a ∈ l', key m ≤ key a := fun hm =>
    ⟨hp.subset (List.argmin_mem hm), fun a ha => List.le_of_mem_argmin (hp.symm.subset ha) hm⟩
  cases hmin : l.argmin key with
  | none =>
      have hnil : l' = [] := (List.nil_perm.1 (List.argmin_eq_none.1 hmin ▸ hp))
      rw [hnil]
      rfl
  | some m =>
      obtain ⟨hm, hle⟩ := hmem hmin
      cases hmin' : l'.argmin key with
      | none => exact absurd hm (List.argmin_eq_none.1 hmin' ▸ List.not_mem_nil)
      | some m' =>
          have hm' := List.argmin_mem hmin'
          have hkey : key m = key m' :=
            le_antisymm (hle m' hm') (List.le_of_mem_argmin hm hmin')
          rw [List.inj_on_of_nodup_map hl (List.argmin_mem hmin) (hp.symm.subset hm') hkey]

/-- The first match in an increasing list is the least match. -/
theorem Increasing.find?_eq_argmin (hl : Increasing key l) (p : α → Bool) :
    l.find? p = (l.filter p).argmin key := by
  rw [(hl.filter p).argmin_eq_head?, List.head?_filter]

theorem find?_insertionSort (hl : (l.map key).Nodup) (p : α → Bool) :
    (l.insertionSort fun a b => key a ≤ key b).find? p = (l.filter p).argmin key := by
  rw [(increasing_insertionSort hl).find?_eq_argmin]
  refine argmin_eq_of_perm ?_ ((List.perm_insertionSort _ l).filter p)
  exact ((increasing_insertionSort hl).filter p).nodup_map

/-- What stands before the first item that is not `q` is what is `q` and lies below that item. -/
theorem Increasing.takeWhile_eq_filter (hl : Increasing key l) (q : α → Bool) :
    l.takeWhile q =
      l.filter fun a => q a && (l.find? fun b => !q b).all fun e => decide (key a < key e) := by
  induction l with
  | nil => rfl
  | cons a l ih =>
      obtain ⟨hlt, hrest⟩ := List.pairwise_cons.1 hl
      by_cases ha : q a = true
      · have hall : (l.find? fun b => !q b).all (fun e => decide (key a < key e)) = true := by
          cases hfind : l.find? fun b => !q b with
          | none => rfl
          | some e => simpa using hlt e (List.mem_of_find?_eq_some hfind)
        rw [List.takeWhile_cons_of_pos ha, List.find?_cons_of_neg (by simp [ha]),
          List.filter_cons_of_pos (by rw [ha, hall]; rfl), ← ih hrest]
      · have hnone : ∀ b ∈ a :: l, ¬ (q b && decide (key b < key a)) = true := by
          intro b hb
          rcases List.mem_cons.1 hb with rfl | hb
          · simp
          · simp [(hlt b hb).le]
        rw [List.takeWhile_cons_of_neg ha, List.find?_cons_of_pos (by simp [ha])]
        exact (List.filter_eq_nil_iff.2 hnone).symm

end Kinglet.Library
