import Kinglet.Compute.Service
import Kinglet.Library.Run

/-!
# What a call does to the rules

Every call that succeeds edits the rules of the policy it names, in one of seven ways, and leaves all
other policies alone. What is proved about the rules of stored policies is proved about the edits.
-/

namespace Kinglet.Compute

open Js Library Armor

namespace PolicyOp

def project : PolicyOp → JsString
  | .insert project _ _ | .delete project _ | .patch project _ _ | .addRule project _ _
  | .removeRule project _ _ | .patchRule project _ _ _ => project

def name : PolicyOp → JsString
  | .insert _ name _ | .delete _ name | .patch _ name _ | .addRule _ name _
  | .removeRule _ name _ | .patchRule _ name _ _ => name

end PolicyOp

/-- The rules of a stored policy. -/
def Policies.rules (policies : Policies) (project name : JsString) : Option (List StoredRule) :=
  (policies project name).map PolicyRecord.rules

/-- The rules with the one of a priority replaced. -/
def replaceRule (rules : List StoredRule) (priority : Float) (rule : StoredRule) :
    List StoredRule :=
  rules.map fun other => if other.hasPriority priority then rule else other

/-- What a call may do to the rules of the policy it names. -/
inductive Edit (host : Host) : PolicyOp → Option (List StoredRule) → Option (List StoredRule) → Prop
  | insert {project name : JsString} {body : JsValue} {rules : List StoredRule}
      (hrules : validateAndNormalizeRules host (rawRulesOf body) = .ok rules) :
      Edit host (.insert project name body) none (some rules)
  | delete {project name : JsString} {rules : List StoredRule} :
      Edit host (.delete project name) (some rules) none
  | keep {project name : JsString} {body : JsValue} {rules : List StoredRule}
      (hbody : propOrUndefined body "rules" = .undefined) :
      Edit host (.patch project name body) (some rules) (some rules)
  | rewrite {project name : JsString} {body : JsValue} {rules rules' : List StoredRule}
      (hbody : propOrUndefined body "rules" ≠ .undefined)
      (hrules : validateAndNormalizeRules host (propOrUndefined body "rules") = .ok rules') :
      Edit host (.patch project name body) (some rules) (some rules')
  | add {project name : JsString} {body : JsValue} {rules : List StoredRule} {rule : StoredRule}
      (hrule : validateSingleRule host body = .ok rule)
      (hfresh : rule.priority ∉ rules.map StoredRule.priority) :
      Edit host (.addRule project name body) (some rules) (some (rules ++ [rule]))
  | remove {project name : JsString} {priority : Float} {rules : List StoredRule}
      (hdefault : intValue priority ≠ some (defaultRulePriority : ℤ)) :
      Edit host (.removeRule project name priority) (some rules)
        (some (rules.filter fun rule => !rule.hasPriority priority))
  | patchRule {project name : JsString} {priority : Float} {body : JsValue}
      {rules : List StoredRule} {existing rule : StoredRule} (hmem : existing ∈ rules)
      (hexisting : existing.hasPriority priority = true)
      (htransition : checkTransition existing body = .ok ())
      (hrule : validateSingleRule host (.obj none (spread existing.fields body)) = .ok rule)
      (hfresh : rule.hasPriority priority = true ∨
        rule.priority ∉ rules.map StoredRule.priority) :
      Edit host (.patchRule project name priority body) (some rules)
        (some (replaceRule rules priority rule))

section Inversion

variable {host : Host} {policies policies' : Policies} {project name : JsString}

theorem findPolicy_eq_ok {record : PolicyRecord} :
    findPolicy policies project name = .ok record ↔ policies project name = some record := by
  unfold findPolicy
  cases policies project name with
  | none => exact ⟨(nomatch ·), (nomatch ·)⟩
  | some other => simp

theorem rules_eq {record : PolicyRecord} (h : policies project name = some record) :
    policies.rules project name = some record.rules := by
  rw [Policies.rules, h, Option.map_some]

@[simp] theorem rules_set (record : Option PolicyRecord) :
    (policies.set project name record).rules project name = record.map PolicyRecord.rules := by
  rw [Policies.rules, Policies.set_self]

theorem not_mem_priorities {rules : List StoredRule} {priority : ℕ}
    (h : ¬(rules.any fun rule => rule.priority = priority) = true) :
    priority ∉ rules.map StoredRule.priority := by
  intro hmem
  obtain ⟨rule, hrule, hpriority⟩ := List.mem_map.1 hmem
  exact h (List.any_eq_true.2 ⟨rule, hrule, decide_eq_true hpriority⟩)

theorem findRule_ok {rules : List StoredRule} {priority : Float} {rule : StoredRule}
    (h : findRule rules priority = .ok rule) : rule ∈ rules ∧ rule.hasPriority priority = true := by
  unfold findRule at h
  split at h
  · rename_i found hfound
    obtain rfl := Except.ok.inj h
    have htest := List.find?_some (p := fun rule : StoredRule => rule.hasPriority priority) hfound
    exact ⟨List.mem_of_find?_eq_some hfound, htest⟩
  · cases h

/-- **Inversion.** A call that succeeds edits the policy it names and no other. -/
theorem edit_of_applyOp {op : PolicyOp} (h : applyOp host policies op = .ok policies') :
    Edit host op (policies.rules op.project op.name) (policies'.rules op.project op.name) ∧
      ∃ record, policies' = policies.set op.project op.name record := by
  cases op with
  | insert project name body =>
      simp only [applyOp, insert, bind_eq_ok] at h
      obtain ⟨_, -, _, -, _, -, rules, hrules, h⟩ := h
      split at h
      · cases h
      · rename_i hnone
        obtain ⟨config, -, h⟩ := bind_eq_ok.1 h
        obtain rfl := Except.ok.inj h
        refine ⟨?_, _, rfl⟩
        rw [Policies.rules, PolicyOp.project, PolicyOp.name, hnone, rules_set]
        exact .insert hrules
  | delete project name =>
      simp only [applyOp, delete, bind_eq_ok, findPolicy_eq_ok] at h
      obtain ⟨record, hrecord, h⟩ := h
      obtain rfl := Except.ok.inj h
      refine ⟨?_, _, rfl⟩
      rw [PolicyOp.project, PolicyOp.name, rules_eq hrecord, rules_set]
      exact .delete
  | patch project name body =>
      simp only [applyOp, patch, bind_eq_ok, findPolicy_eq_ok] at h
      obtain ⟨_, -, _, -, record, hrecord, rules, hrules, config, -, h⟩ := h
      obtain rfl := Except.ok.inj h
      refine ⟨?_, _, rfl⟩
      rw [PolicyOp.project, PolicyOp.name, rules_eq hrecord, rules_set]
      unfold patched at hrules
      split at hrules
      · rename_i hbody
        obtain rfl := Except.ok.inj hrules
        exact .keep hbody
      · rename_i hbody
        exact .rewrite hbody hrules
  | addRule project name body =>
      simp only [applyOp, addRule, bind_eq_ok, findPolicy_eq_ok] at h
      obtain ⟨record, hrecord, rule, hrule, h⟩ := h
      split at h
      · cases h
      · obtain rfl := Except.ok.inj h
        refine ⟨?_, _, rfl⟩
        rw [PolicyOp.project, PolicyOp.name, rules_eq hrecord, updateRules, rules_set]
        exact .add hrule (not_mem_priorities ‹_›)
  | removeRule project name priority =>
      simp only [applyOp, removeRule] at h
      split at h
      · cases h
      · rename_i hdefault
        simp only [bind_eq_ok, findPolicy_eq_ok] at h
        obtain ⟨record, hrecord, _, -, h⟩ := h
        obtain rfl := Except.ok.inj h
        refine ⟨?_, _, rfl⟩
        rw [PolicyOp.project, PolicyOp.name, rules_eq hrecord, updateRules, rules_set]
        exact .remove hdefault
  | patchRule project name priority body =>
      simp only [applyOp, patchRule, bind_eq_ok, findPolicy_eq_ok] at h
      obtain ⟨record, hrecord, existing, hexisting, _, htransition, rule, hrule, h⟩ := h
      obtain ⟨hmem, hhas⟩ := findRule_ok hexisting
      split at h
      · cases h
      · rename_i hshared
        obtain rfl := Except.ok.inj h
        refine ⟨?_, _, rfl⟩
        rw [PolicyOp.project, PolicyOp.name, rules_eq hrecord, updateRules, rules_set]
        refine .patchRule hmem hhas htransition hrule ?_
        rw [Bool.and_eq_true, Bool.not_eq_true', not_and] at hshared
        cases hpriority : rule.hasPriority priority with
        | true => exact .inl rfl
        | false => exact .inr (not_mem_priorities (hshared hpriority))

end Inversion

end Kinglet.Compute
