import Kinglet.Compute.RuleSet

/-!
# From a ban to a throttle

A rule patch refuses to turn a `rate_based_ban` rule into a `throttle` rule. Over a run of calls this
says that between the two the rule was gone or had another action for a while, as long as the rules
of the policy are not rewritten as a whole.
-/

namespace Kinglet.Compute

open Js Library Armor

/-! ## The rule at a priority -/

/-- The rule at a priority has an action. -/
def ActionAt (rules : List StoredRule) (priority : ℕ) (action : JsString) : Prop :=
  ∃ rule ∈ rules, rule.priority = priority ∧ rule.action = action

/-- A stored policy has a rule at a priority, with an action. -/
def Policies.ActionAt (policies : Policies) (project name : JsString) (priority : ℕ)
    (action : JsString) : Prop :=
  ∃ rules ∈ policies.rules project name, Compute.ActionAt rules priority action

theorem eq_of_priority_eq {rules : List StoredRule} (h : RuleList rules) {rule other : StoredRule}
    (hrule : rule ∈ rules) (hother : other ∈ rules) (heq : rule.priority = other.priority) :
    rule = other :=
  List.inj_on_of_nodup_map h.nodup hrule hother heq

/-- A policy patch that carries rules replaces the whole list. -/
def rewritesRules : PolicyOp → Bool
  | .patch _ _ body =>
      match propOrUndefined body "rules" with
      | .undefined => false
      | _ => true
  | _ => false

theorem rewritesRules_patch {project name : JsString} {body : JsValue}
    (h : propOrUndefined body "rules" ≠ .undefined) :
    rewritesRules (.patch project name body) = true := by
  rw [rewritesRules]
  split
  · exact absurd ‹_› h
  · rfl

/-! ## One call -/

section Edit

variable {host : Host} {existing rule : StoredRule} {body : JsValue} {priority : ℕ}

/-- The action a patched rule gets: the body's own, or the one it had. -/
theorem patched_action
    (h : validateSingleRule host (.obj none (spread existing.fields body)) = .ok rule) :
    (ownProperty body "action").getD (.str existing.action) = .str rule.action := by
  obtain ⟨-, haction, -⟩ := validateSingleRule_ok h
  have hexisting : ownField existing.fields "action" = some (.str existing.action) := rfl
  have hown : (ownField (spread existing.fields body) "action").getD .undefined =
      .str rule.action := haction
  rw [ownField_spread, hexisting] at hown
  rw [← hown]
  cases ownProperty body (js "action") <;> rfl

/-- A ban does not become a throttle through a rule patch. -/
theorem patched_action_ne_throttle (hban : existing.action = js "rate_based_ban")
    (htransition : checkTransition existing body = .ok ())
    (hrule : validateSingleRule host (.obj none (spread existing.fields body)) = .ok rule) :
    rule.action ≠ js "throttle" := by
  intro hthrottle
  have hpatched := patched_action hrule
  rw [hban, hthrottle] at hpatched
  simp only [checkTransition, bind_eq_ok, orInternal_eq_ok] at htransition
  obtain ⟨value, hvalue, htransition⟩ := htransition
  have hbody : isNullish body = false := by
    cases body with
    | undefined | null => cases hvalue
    | _ => rfl
  rw [prop_eq_ownProperty ⟨unit 'a', by decide, by decide⟩ (by decide) hbody] at hvalue
  cases hown : ownProperty body (js "action") with
  | none =>
      rw [hown] at hpatched
      exact absurd hpatched (by simp [Option.getD, js, utf16])
  | some own =>
      rw [hown] at hpatched hvalue
      obtain rfl : own = .str (js "throttle") := hpatched
      obtain rfl := Option.some.inj hvalue
      rw [Option.getD_some] at htransition
      simp [assertRateLimitActionTransition, hban] at htransition

/-- **No single call turns a ban into a throttle**, rewriting the rules apart. -/
theorem Edit.not_throttle {op : PolicyOp} {old : List StoredRule} {new : Option (List StoredRule)}
    (h : Edit host op (some old) new) (hrules : RuleList old) (hkeeps : rewritesRules op = false)
    (hban : ActionAt old priority "rate_based_ban") :
    ∀ rules ∈ new, ¬ActionAt rules priority "throttle" := by
  obtain ⟨banned, hbanned, rfl, haction⟩ := hban
  -- a rule that is not new is the banned one
  have hsame : ∀ rule ∈ old, rule.priority = banned.priority → rule.action ≠ js "throttle" := by
    intro rule hmem hpriority
    rw [eq_of_priority_eq hrules hmem hbanned hpriority, haction]
    decide
  rintro rules' hrules' ⟨rule, hmem, hpriority, hthrottle⟩
  cases h with
  | delete => cases hrules'
  | keep =>
      obtain rfl := Option.some.inj hrules'
      exact hsame rule hmem hpriority hthrottle
  | rewrite hbody _ =>
      rw [rewritesRules_patch hbody] at hkeeps
      cases hkeeps
  | add hrule hfresh =>
      obtain rfl := Option.some.inj hrules'
      rcases List.mem_append.1 hmem with hmem | hmem
      · exact hsame rule hmem hpriority hthrottle
      · obtain rfl := List.mem_singleton.1 hmem
        exact hfresh (hpriority ▸ List.mem_map_of_mem hbanned)
  | remove =>
      obtain rfl := Option.some.inj hrules'
      exact hsame rule (List.mem_of_mem_filter hmem) hpriority hthrottle
  | @patchRule _ _ named _ _ existing patched hexisting hnamed htransition hrule hfresh =>
      obtain rfl := Option.some.inj hrules'
      rcases mem_replaceRule.1 hmem with ⟨_, -, -, rfl⟩ | ⟨hmem, -⟩
      · rcases hfresh with hhas | hfresh
        · -- the patched rule stays at the priority of the banned one, so it is the banned one
          have hkept := (hasPriority_congr hnamed).1 hhas
          have heq := eq_of_priority_eq hrules hexisting hbanned (hkept.symm.trans hpriority)
          subst heq
          exact patched_action_ne_throttle haction htransition hrule hthrottle
        · exact hfresh (hpriority ▸ List.mem_map_of_mem hbanned)
      · exact hsame rule hmem hpriority hthrottle

end Edit

/-! ## Runs of calls -/

/-- **A ban is not turned into a throttle in place.** Between a ban at a priority and a throttle
there, a run that does not rewrite the policy's rules passes a state in which neither is there. -/
theorem ban_interrupted (host : Host) (ops₀ ops : List PolicyOp) (policies policies' : Policies)
    (project name : JsString) (priority : ℕ) (hreach : Run (Accepts host) noPolicies ops₀ policies)
    (hrun : Run (Accepts host) policies ops policies')
    (hkeeps : ∀ op ∈ ops, op.project = project → op.name = name → rewritesRules op = false)
    (hban : policies.ActionAt project name priority "rate_based_ban")
    (hthrottle : policies'.ActionAt project name priority "throttle") :
    ∃ ops₁ ops₂ between, ops = ops₁ ++ ops₂ ∧ Run (Accepts host) policies ops₁ between ∧
      Run (Accepts host) between ops₂ policies' ∧
      ¬between.ActionAt project name priority "rate_based_ban" ∧
      ¬between.ActionAt project name priority "throttle" := by
  have hended : ¬policies'.ActionAt project name priority "rate_based_ban" := by
    rintro ⟨rules, hrules, banned, hbanned, hpriority, haction⟩
    obtain ⟨rules', hrules', throttled, hthrottled, hpriority', haction'⟩ := hthrottle
    obtain rfl := Option.mem_unique hrules hrules'
    have hlist := ruleList_of_run (hreach.append hrun) project name rules hrules
    obtain rfl := eq_of_priority_eq hlist hbanned hthrottled (hpriority.trans hpriority'.symm)
    exact absurd (haction.symm.trans haction') (by decide)
  -- the first call after which the ban is gone
  obtain ⟨ops₁, op, ops₂, before, after, rfl, hbefore, hbanned, hstep, hgone, hafter⟩ :=
    hrun.exists_exit
    (P := fun v => v.ActionAt project name priority "rate_based_ban") hban hended
  refine ⟨ops₁ ++ [op], ops₂, after, by simp, hbefore.append (.single hstep), hafter, hgone, ?_⟩
  rintro ⟨rules', hrules', hthrottled⟩
  obtain ⟨rules, hrules, hbanned⟩ := hbanned
  obtain ⟨hedit, record, hset⟩ := edit_of_applyOp hstep
  by_cases htarget : project = op.project ∧ name = op.name
  · obtain ⟨rfl, rfl⟩ := htarget
    have hlist := ruleList_of_run (hreach.append hbefore) _ _ rules hrules
    rw [Option.mem_def.1 hrules] at hedit
    exact hedit.not_throttle hlist (hkeeps op (by simp) rfl rfl) hbanned rules' hrules' hthrottled
  · rw [hset, Policies.rules, Policies.set_of_ne _ _ htarget] at hrules'
    exact hgone ⟨rules, by rw [hset, Policies.rules, Policies.set_of_ne _ _ htarget]; exact hrules,
      hbanned⟩

/-- A rule of priority 1000 as a client sends it. -/
def banRule : JsValue :=
  .obj none [("priority", .num 1000), ("action", .str "rate_based_ban"),
    ("match", .obj none [("versionedExpr", .str "SRC_IPS_V1"),
      ("config", .obj none [("srcIpRanges", .arr none [.str "*"])])]),
    ("rateLimitOptions", .obj none [
      ("rateLimitThreshold", .obj none [("count", .num 10), ("intervalSec", .num 60)]),
      ("conformAction", .str "allow"), ("exceedAction", .str "deny(429)"),
      ("banDurationSec", .num 600)])]

def insertBan : PolicyOp := .insert "demo" "edge" (.obj none [("rules", .arr none [banRule])])

def patchAction (action : JsString) : PolicyOp :=
  .patchRule "demo" "edge" 1000 (.obj none [("action", .str action)])

/-- The priorities and actions of the sample policy after some calls. -/
def actionsAfter (ops : List PolicyOp) : Option (List (ℕ × JsString)) :=
  (ops.foldlM (applyOp asciiHost) noPolicies).toOption.bind fun policies =>
    (policies.rules "demo" "edge").map (List.map fun rule => (rule.priority, rule.action))

theorem actionAt_of_actionsAfter {ops : List PolicyOp} {policies : Policies} {action : JsString}
    {actions : List (ℕ × JsString)} (hrun : Run (Accepts asciiHost) noPolicies ops policies)
    (hactions : actionsAfter ops = some actions) :
    policies.ActionAt "demo" "edge" 1000 action ↔ (1000, action) ∈ actions := by
  rw [actionsAfter, hrun.foldlM_eq] at hactions
  obtain ⟨rules, hrules, rfl⟩ := Option.map_eq_some_iff.1 hactions
  constructor
  · rintro ⟨rules', hrules', rule, hmem, hpriority, haction⟩
    obtain rfl := Option.mem_unique hrules hrules'
    exact List.mem_map.2 ⟨rule, hmem, by rw [hpriority, haction]⟩
  · intro hmem
    obtain ⟨rule, hrule, heq⟩ := List.mem_map.1 hmem
    exact ⟨rules, hrules, rule, hrule, congrArg Prod.fst heq, congrArg Prod.snd heq⟩

theorem run_of_actionsAfter {ops : List PolicyOp} {actions : List (ℕ × JsString)}
    (h : actionsAfter ops = some actions) :
    ∃ policies, Run (Accepts asciiHost) noPolicies ops policies := by
  cases hrun : ops.foldlM (applyOp asciiHost) noPolicies with
  | error e =>
      rw [actionsAfter, hrun] at h
      cases h
  | ok policies => exact ⟨policies, .of_foldlM hrun⟩

/-- The two patches that turn a ban into a throttle. -/
def throttleByAllow : List PolicyOp := [patchAction "allow", patchAction "throttle"]

/-- The sample policy has a rule at priority 1000 all along. -/
theorem actionsAfter_throttleByAllow :
    actionsAfter [insertBan] = some [(1000, js "rate_based_ban"), (2147483647, js "allow")] ∧
      actionsAfter [insertBan, patchAction "allow"] =
        some [(1000, js "allow"), (2147483647, js "allow")] ∧
      actionsAfter (insertBan :: throttleByAllow) =
        some [(1000, js "throttle"), (2147483647, js "allow")] := by
  decide +kernel

theorem run_throttleByAllow : ∃ banned throttled,
    Run (Accepts asciiHost) noPolicies [insertBan] banned ∧
      Run (Accepts asciiHost) banned throttleByAllow throttled ∧
      banned.ActionAt "demo" "edge" 1000 "rate_based_ban" ∧
      throttled.ActionAt "demo" "edge" 1000 "throttle" := by
  obtain ⟨hbanned, -, hthrottled⟩ := actionsAfter_throttleByAllow
  obtain ⟨throttled, hrun⟩ := run_of_actionsAfter hthrottled
  have hthrottle := (actionAt_of_actionsAfter hrun hthrottled).2 List.mem_cons_self
  cases hrun with
  | @head _ banned _ _ _ hinsert hrun =>
      have hban := (actionAt_of_actionsAfter (.single hinsert) hbanned).2 List.mem_cons_self
      exact ⟨banned, throttled, .single hinsert, hrun, hban, hthrottle⟩

theorem ban_interrupted_throttleByAllow : ∃ banned throttled,
    Run (Accepts asciiHost) banned throttleByAllow throttled ∧
      ∃ ops₁ ops₂ between, throttleByAllow = ops₁ ++ ops₂ ∧
        Run (Accepts asciiHost) banned ops₁ between ∧
        Run (Accepts asciiHost) between ops₂ throttled ∧
        ¬between.ActionAt "demo" "edge" 1000 "rate_based_ban" ∧
        ¬between.ActionAt "demo" "edge" 1000 "throttle" := by
  obtain ⟨banned, throttled, hinsert, hrun, hban, hthrottle⟩ := run_throttleByAllow
  exact ⟨banned, throttled, hrun, ban_interrupted asciiHost [insertBan] throttleByAllow banned
    throttled "demo" "edge" 1000 hinsert hrun (by decide) hban hthrottle⟩

/-- A ban becomes a throttle while there is a rule at its priority all along. -/
theorem not_ban_removed : ¬ ∀ (ops₀ ops : List PolicyOp) (policies policies' : Policies)
    (project name : JsString) (priority : ℕ), Run (Accepts asciiHost) noPolicies ops₀ policies →
    Run (Accepts asciiHost) policies ops policies' →
    policies.ActionAt project name priority "rate_based_ban" →
    policies'.ActionAt project name priority "throttle" →
    ∃ ops₁ ops₂ between, ops = ops₁ ++ ops₂ ∧ Run (Accepts asciiHost) policies ops₁ between ∧
      Run (Accepts asciiHost) between ops₂ policies' ∧
      ∀ action, ¬between.ActionAt project name priority action := by
  intro hclaim
  obtain ⟨banned, throttled, hinsert, hrun, hban, hthrottle⟩ := run_throttleByAllow
  obtain ⟨ops₁, ops₂, between, hops, hbefore, -, hgone⟩ :=
    hclaim _ _ banned throttled "demo" "edge" 1000 hinsert hrun hban hthrottle
  obtain ⟨hbanned, hallowed, hthrottled⟩ := actionsAfter_throttleByAllow
  have hreach := hinsert.append hbefore
  -- the calls up to the state in between are one of the three prefixes
  match ops₁ with
  | [] => exact hgone _ ((actionAt_of_actionsAfter hreach hbanned).2 List.mem_cons_self)
  | [op] =>
      obtain ⟨rfl, -⟩ := List.cons.inj hops
      exact hgone _ ((actionAt_of_actionsAfter hreach hallowed).2 List.mem_cons_self)
  | op :: op' :: rest =>
      rw [throttleByAllow, List.cons_append, List.cons_append, List.cons.injEq,
        List.cons.injEq] at hops
      obtain ⟨rfl, rfl, hnil⟩ := hops
      obtain ⟨rfl, -⟩ := List.append_eq_nil_iff.1 hnil.symm
      exact hgone _ ((actionAt_of_actionsAfter hreach hthrottled).2 List.mem_cons_self)

end Kinglet.Compute
