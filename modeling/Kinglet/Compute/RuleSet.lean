import Kinglet.Compute.Edit

/-!
# The rule set of a policy

In every store that calls can produce, the rules of a policy have distinct priorities in range. The
default rule is there as long as no call moves it to another priority: a rule patch addressed to it
may carry a priority of its own, and nothing keeps it from leaving.
-/

namespace Kinglet.Compute

open Js Library Armor

/-! ## Priorities -/

section Priorities

variable {rules : List StoredRule} {priority : Float} {rule other : StoredRule}

theorem hasPriority_iff : rule.hasPriority priority = true ↔
    intValue priority = some (rule.priority : ℤ) := decide_eq_true_iff

theorem hasPriority_congr (h : rule.hasPriority priority = true) :
    other.hasPriority priority = true ↔ other.priority = rule.priority := by
  rw [hasPriority_iff] at h ⊢
  rw [h]
  constructor
  · intro heq
    exact (Int.ofNat_inj.1 (Option.some.inj heq)).symm
  · intro heq
    rw [heq]

/-- Replacing a rule keeps priorities distinct if the new one is its own or not in use. -/
theorem nodup_replaceRule (hnodup : (rules.map StoredRule.priority).Nodup)
    (hfresh : rule.hasPriority priority = true ∨ rule.priority ∉ rules.map StoredRule.priority) :
    ((replaceRule rules priority rule).map StoredRule.priority).Nodup := by
  have hmap : (replaceRule rules priority rule).map StoredRule.priority =
      (rules.map StoredRule.priority).map fun p : ℕ =>
        if intValue priority = some (p : ℤ) then rule.priority else p := by
    rw [replaceRule, List.map_map, List.map_map]
    refine List.map_congr_left fun other _ => ?_
    simp only [Function.comp_apply, StoredRule.hasPriority, decide_eq_true_eq]
    split <;> rfl
  rw [hmap]
  refine hnodup.map_on fun p hp q hq heq => ?_
  by_cases hpx : intValue priority = some (p : ℤ) <;>
    by_cases hqx : intValue priority = some (q : ℤ)
  · rw [hpx] at hqx
    exact Int.ofNat_inj.1 (Option.some.inj hqx)
  · rw [if_pos hpx, if_neg hqx] at heq
    subst heq
    rcases hfresh with hhas | hfresh
    · exact absurd (hasPriority_iff.1 hhas) hqx
    · exact absurd hq hfresh
  · rw [if_neg hpx, if_pos hqx] at heq
    subst heq
    rcases hfresh with hhas | hfresh
    · exact absurd (hasPriority_iff.1 hhas) hpx
    · exact absurd hp hfresh
  · rwa [if_neg hpx, if_neg hqx] at heq

theorem mem_replaceRule :
    other ∈ replaceRule rules priority rule ↔
      (∃ old ∈ rules, old.hasPriority priority = true ∧ other = rule) ∨
        other ∈ rules ∧ other.hasPriority priority = false := by
  simp only [replaceRule, List.mem_map]
  constructor
  · rintro ⟨old, hmem, rfl⟩
    by_cases hold : old.hasPriority priority = true
    · exact .inl ⟨old, hmem, hold, if_pos hold⟩
    · rw [if_neg hold]
      exact .inr ⟨hmem, Bool.not_eq_true _ ▸ hold⟩
  · rintro (⟨old, hmem, hold, rfl⟩ | ⟨hmem, hold⟩)
    · exact ⟨old, hmem, if_pos hold⟩
    · exact ⟨other, hmem, by rw [if_neg (by simp [hold])]⟩

end Priorities

/-! ## Distinct priorities in range -/

variable {host : Host} {op : PolicyOp} {old new : Option (List StoredRule)}

/-- **Every edit keeps the priorities distinct and in range.** -/
theorem Edit.ruleList (h : Edit host op old new) (hold : ∀ rules ∈ old, RuleList rules) :
    ∀ rules ∈ new, RuleList rules := by
  rintro rules' hrules'
  cases h with
  | insert hrules =>
      obtain rfl := Option.some.inj hrules'
      exact (validateAndNormalizeRules_ok hrules).1
  | delete => cases hrules'
  | keep => exact hold rules' hrules'
  | rewrite _ hrules =>
      obtain rfl := Option.some.inj hrules'
      exact (validateAndNormalizeRules_ok hrules).1
  | @add _ _ _ rules rule hrule hfresh =>
      obtain rfl := Option.some.inj hrules'
      obtain ⟨hnodup, hbounded⟩ := hold rules rfl
      refine ⟨?_, fun other hmem => ?_⟩
      · rw [List.map_append, List.nodup_append]
        refine ⟨hnodup, List.nodup_singleton _, fun p hp q hq => ?_⟩
        obtain rfl := List.mem_singleton.1 hq
        rintro rfl
        exact hfresh hp
      · rcases List.mem_append.1 hmem with hmem | hmem
        · exact hbounded other hmem
        · obtain rfl := List.mem_singleton.1 hmem
          exact priority_le_of_validateSingleRule hrule
  | @remove _ _ priority rules _ =>
      obtain rfl := Option.some.inj hrules'
      obtain ⟨hnodup, hbounded⟩ := hold rules rfl
      exact ⟨hnodup.sublist (List.filter_sublist.map _),
        fun rule hmem => hbounded rule (List.mem_of_mem_filter hmem)⟩
  | @patchRule _ _ priority _ rules _ rule _ _ _ hrule hfresh =>
      obtain rfl := Option.some.inj hrules'
      obtain ⟨hnodup, hbounded⟩ := hold rules rfl
      refine ⟨nodup_replaceRule hnodup hfresh, fun other hmem => ?_⟩
      rcases mem_replaceRule.1 hmem with ⟨_, -, -, rfl⟩ | ⟨hmem, -⟩
      · exact priority_le_of_validateSingleRule hrule
      · exact hbounded other hmem

/-! ## The default rule -/

/-- A rule patch that is addressed to the default rule and carries another priority. -/
def movesDefault : PolicyOp → Bool
  | .patchRule _ _ priority body =>
      intValue priority = some (defaultRulePriority : ℤ) &&
        (ownProperty body "priority").any fun value =>
          integerOf value ≠ some (defaultRulePriority : ℤ)
  | _ => false

/-- The number a stored rule's priority is handed out as. -/
theorem intValue_defaultRulePriority :
    intValue (natNumber defaultRulePriority) = some (defaultRulePriority : ℤ) := by decide +kernel

theorem rulePriority_integerOf {value : JsValue} {n : ℕ} (h : rulePriority value = .ok n) :
    integerOf value = some (n : ℤ) := by
  obtain ⟨⟨x, rfl, hx⟩, -⟩ := rulePriority_ok h
  unfold arrayIndex at hx
  split at hx
  · rename_i i hi
    split at hx
    · obtain rfl := Option.some.inj hx
      exact hi
    · cases hx
  · cases hx

/-- The priority a patched rule gets: the body's own, or the one it had. -/
theorem patched_priority {existing rule : StoredRule} {body : JsValue}
    (h : validateSingleRule host (.obj none (spread existing.fields body)) = .ok rule) :
    integerOf ((ownProperty body "priority").getD (.num (natNumber existing.priority))) =
      some (rule.priority : ℤ) := by
  obtain ⟨⟨value, hvalue, hpriority⟩, -⟩ := validateSingleRule_ok h
  have hexisting : ownField existing.fields "priority" =
      some (.num (natNumber existing.priority)) := rfl
  have hown : (ownField (spread existing.fields body) "priority").getD .undefined = value :=
    Option.some.inj hvalue
  rw [ownField_spread, hexisting] at hown
  rw [← rulePriority_integerOf hpriority, ← hown]
  cases ownProperty body (js "priority") <;> rfl

theorem hasDefault_replaceRule {rules : List StoredRule} {priority : Float}
    {existing rule : StoredRule} (hmem : existing ∈ rules)
    (hexisting : existing.hasPriority priority = true) (hdefault : HasDefault rules) :
    HasDefault (replaceRule rules priority rule) ↔
      (existing.priority = defaultRulePriority → rule.priority = defaultRulePriority) := by
  constructor
  · intro hnew hpriority
    obtain ⟨other, hother, heq⟩ := List.mem_map.1 hnew
    rcases mem_replaceRule.1 hother with ⟨_, -, -, rfl⟩ | ⟨-, hstays⟩
    · exact heq
    · have hnamed : other.hasPriority priority = true :=
        (hasPriority_congr hexisting).2 (heq.trans hpriority.symm)
      rw [hstays] at hnamed
      cases hnamed
  · intro himp
    obtain ⟨other, hother, heq⟩ := List.mem_map.1 hdefault
    by_cases hpriority : existing.priority = defaultRulePriority
    · exact List.mem_map.2 ⟨rule, mem_replaceRule.2 (.inl ⟨existing, hmem, hexisting, rfl⟩),
        himp hpriority⟩
    · refine List.mem_map.2 ⟨other, mem_replaceRule.2 (.inr ⟨hother, ?_⟩), heq⟩
      rw [← Bool.not_eq_true]
      intro hnamed
      exact hpriority (((hasPriority_congr hexisting).1 hnamed).symm.trans heq)

/-- A successful rule patch moves the default rule exactly when it is addressed to it and leaves it
at another priority. -/
theorem movesDefault_patchRule {project name : JsString} {priority : Float} {body : JsValue}
    {existing rule : StoredRule} (hexisting : existing.hasPriority priority = true)
    (hrule : validateSingleRule host (.obj none (spread existing.fields body)) = .ok rule) :
    movesDefault (.patchRule project name priority body) = false ↔
      (existing.priority = defaultRulePriority → rule.priority = defaultRulePriority) := by
  have hpatched := patched_priority hrule
  rw [hasPriority_iff] at hexisting
  simp only [movesDefault, hexisting, Option.some.injEq, Int.ofNat_inj]
  by_cases hdefault : existing.priority = defaultRulePriority
  · cases hown : ownProperty body (js "priority") with
    | none =>
        rw [hown, Option.getD_none, hdefault] at hpatched
        have hsame := intValue_defaultRulePriority.symm.trans hpatched
        simp [hdefault, Int.ofNat_inj.1 (Option.some.inj hsame).symm]
    | some value =>
        rw [hown, Option.getD_some] at hpatched
        simp only [hdefault, hpatched, decide_true, Bool.true_and, Option.any_some, ne_eq,
          Option.some.injEq, Int.ofNat_inj, true_implies, decide_eq_false_iff_not, not_not]
  · simp [hdefault]

/-- **The default rule stays exactly when the call does not move it.** -/
theorem Edit.hasDefault_iff (h : Edit host op old new) (hdefault : ∀ rules ∈ old, HasDefault rules) :
    (∀ rules ∈ new, HasDefault rules) ↔ movesDefault op = false := by
  cases h with
  | insert hrules =>
      simp only [movesDefault, iff_true, Option.mem_some_iff, forall_eq']
      exact (validateAndNormalizeRules_ok hrules).2
  | delete => simp [movesDefault]
  | keep => exact iff_of_true hdefault rfl
  | rewrite _ hrules =>
      simp only [movesDefault, iff_true, Option.mem_some_iff, forall_eq']
      exact (validateAndNormalizeRules_ok hrules).2
  | @add _ _ _ rules =>
      simp only [movesDefault, iff_true, Option.mem_some_iff, forall_eq']
      rw [HasDefault, List.map_append]
      exact List.mem_append_left _ (hdefault rules rfl)
  | @remove _ _ priority rules hne =>
      simp only [movesDefault, iff_true, Option.mem_some_iff, forall_eq']
      obtain ⟨rule, hmem, heq⟩ := List.mem_map.1 (hdefault rules rfl)
      refine List.mem_map.2 ⟨rule, List.mem_filter.2 ⟨hmem, ?_⟩, heq⟩
      rw [Bool.not_eq_true', ← Bool.not_eq_true, hasPriority_iff, heq]
      exact hne
  | @patchRule _ _ priority _ rules existing rule hmem hexisting _ hrule _ =>
      rw [movesDefault_patchRule hexisting hrule,
        ← hasDefault_replaceRule hmem hexisting (hdefault rules rfl)]
      simp

/-! ## Runs of calls -/

/-- The rules of a policy as they should be: distinct priorities in range, one of them the default
rule's. -/
structure WellFormedRules (rules : List StoredRule) : Prop where
  distinct : (rules.map StoredRule.priority).Nodup
  inRange : ∀ rule ∈ rules, rule.priority ≤ defaultRulePriority
  oneDefault : (rules.filter fun rule => rule.priority = defaultRulePriority).length = 1

theorem wellFormedRules_of_hasDefault {rules : List StoredRule} (h : RuleList rules)
    (hdefault : HasDefault rules) : WellFormedRules rules := by
  refine ⟨h.nodup, h.bounded, ?_⟩
  have hcount : (rules.map StoredRule.priority).count defaultRulePriority = 1 :=
    List.count_eq_one_of_mem h.nodup hdefault
  rw [List.count, List.countP_map, List.countP_eq_length_filter] at hcount
  exact hcount

/-- The store after a successful call. -/
def Accepts (host : Host) (policies : Policies) (op : PolicyOp) (policies' : Policies) : Prop :=
  applyOp host policies op = .ok policies'

/-- What a store has to satisfy for all its policies. -/
def AllRules (P : List StoredRule → Prop) (policies : Policies) : Prop :=
  ∀ project name, ∀ rules ∈ policies.rules project name, P rules

/-- What the edits of a call preserve, the call preserves for the whole store. -/
theorem AllRules.of_edit {P : List StoredRule → Prop} {policies policies' : Policies}
    (h : Accepts host policies op policies') (hall : AllRules P policies)
    (hedit : ∀ old new, Edit host op old new → (∀ rules ∈ old, P rules) → ∀ rules ∈ new, P rules) :
    AllRules P policies' := by
  obtain ⟨hedited, record, hset⟩ := edit_of_applyOp h
  intro project name rules hrules
  by_cases htarget : project = op.project ∧ name = op.name
  · obtain ⟨rfl, rfl⟩ := htarget
    exact hedit _ _ hedited (hall _ _) rules hrules
  · rw [hset, Policies.rules, Policies.set_of_ne _ _ htarget] at hrules
    exact hall project name rules hrules

/-- In every run the priorities of each policy are distinct and in range. -/
theorem ruleList_of_run {ops : List PolicyOp} {policies : Policies}
    (h : Run (Accepts host) noPolicies ops policies) : AllRules RuleList policies := by
  refine h.invariant (fun s op t (_ : True) hstep hall => ?_) (fun _ _ => trivial) ?_
  · exact hall.of_edit hstep fun _ _ hedit hold => hedit.ruleList hold
  · exact fun _ _ _ hrules => nomatch hrules

/-- **The rule set of a policy.** In every run of successful calls that do not move the default rule
every policy has well-formed rules. -/
theorem ruleSet_wellFormed (host : Host) (ops : List PolicyOp) (policies : Policies)
    (h : Run (Accepts host) noPolicies ops policies)
    (hkeeps : ∀ op ∈ ops, movesDefault op = false) : AllRules WellFormedRules policies := by
  have hlists := ruleList_of_run h
  have hdefaults : AllRules HasDefault policies := by
    refine h.invariant (fun s op t hkeep hstep hall => ?_) hkeeps
      (fun _ _ _ hrules => nomatch hrules)
    exact hall.of_edit hstep fun _ _ hedit hold => (hedit.hasDefault_iff hold).2 hkeep
  intro project name rules hrules
  exact wellFormedRules_of_hasDefault (hlists project name rules hrules)
    (hdefaults project name rules hrules)

/-- A policy without rules of its own whose default rule is made to deny. -/
def denyByDefault : List PolicyOp :=
  [.insert "demo" "edge" (.obj none []),
    .patchRule "demo" "edge" 2147483647 (.obj none [("action", .str "deny(403)")])]

theorem ruleSet_wellFormed_denyByDefault :
    ∃ policies, denyByDefault.foldlM (applyOp asciiHost) noPolicies = .ok policies ∧
      AllRules WellFormedRules policies := by
  have hok : (denyByDefault.foldlM (applyOp asciiHost) noPolicies).isOk = true := by
    decide +kernel
  cases hrun : denyByDefault.foldlM (applyOp asciiHost) noPolicies with
  | error e =>
      rw [hrun] at hok
      exact nomatch hok
  | ok policies =>
      exact ⟨policies, rfl, ruleSet_wellFormed asciiHost denyByDefault policies (.of_foldlM hrun)
        (by decide +kernel)⟩

/-- The default rule is moved to priority 5. -/
def moveDefault : List PolicyOp :=
  [.insert "demo" "edge" (.obj none []),
    .patchRule "demo" "edge" 2147483647 (.obj none [("priority", .num 5)])]

/-- A policy is left without a default rule. -/
theorem not_ruleSet_wellFormed : ¬ ∀ (ops : List PolicyOp) (policies : Policies),
    Run (Accepts asciiHost) noPolicies ops policies → AllRules WellFormedRules policies := by
  intro hclaim
  have hpriorities : ((moveDefault.foldlM (applyOp asciiHost) noPolicies).toOption.bind
      fun policies => (policies.rules "demo" "edge").map (List.map StoredRule.priority)) =
      some [5] := by decide +kernel
  cases hrun : moveDefault.foldlM (applyOp asciiHost) noPolicies with
  | error e =>
      rw [hrun] at hpriorities
      exact nomatch hpriorities
  | ok policies =>
      rw [hrun] at hpriorities
      obtain ⟨rules, hrules, hfive⟩ := Option.map_eq_some_iff.1 hpriorities
      have hone := (hclaim _ policies (.of_foldlM hrun) _ _ rules hrules).oneDefault
      obtain ⟨rule, hmem⟩ := List.exists_mem_of_length_pos (hone ▸ Nat.one_pos)
      obtain ⟨hrule, hdefault⟩ := List.mem_filter.1 hmem
      have hlisted : rule.priority ∈ [5] := hfive ▸ List.mem_map_of_mem hrule
      rw [of_decide_eq_true hdefault] at hlisted
      exact absurd hlisted (by decide)

end Kinglet.Compute
