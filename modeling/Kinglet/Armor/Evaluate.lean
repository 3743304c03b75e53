import Kinglet.Armor.Eval
import Kinglet.Armor.RateLimit

/-!
# Policy evaluation

The priority walk: rules in order of priority, each matched against the request as sent until the
first rule that uses the body, from there on against the inspected view. The rate limiter is the
store and the clock, whose readings are taken one after the other.
-/

namespace Kinglet.Armor

open Js

/-- The counters and the readings the clock is going to give. -/
structure Limiter where
  store : RateLimitStore
  clock : ℕ → ℕ

/-- What evaluation reads besides the policy, the request and the counters. -/
structure EvalOptions where
  host : Host
  lookupAddressGroup : Option (JsString → Option (List JsString))

def EvalOptions.context (opts : EvalOptions) (attributes : RequestAttributes) : EvalContext :=
  ⟨opts.host, attributes, opts.lookupAddressGroup⟩

namespace SecurityPolicyRule

variable (rule : SecurityPolicyRule)

/-- The expression of a rule, when it is not the empty text. -/
def expression : Option JsString :=
  ((rule.condition.bind (·.expr)).bind (·.expression)).filter (· ≠ [])

def isPreview : Bool := rule.preview = some true

def isBodyPhase : Bool := rule.expression.any expressionUsesBodyPhase

/-- `ruleMatches(rule, attributes, options)`. -/
def applies (opts : EvalOptions) (attributes : RequestAttributes) : Bool :=
  if rule.condition.bind (·.versionedExpr) = some (js "SRC_IPS_V1") then
    matchSrcIpRanges attributes.origin.ip
      (((rule.condition.bind (·.config)).bind (·.srcIpRanges)).getD [])
  else
    match rule.expression with
    | none => false
    | some expression => evaluateExpression (opts.context attributes) expression = .ok true

end SecurityPolicyRule

/-- A rule for all source addresses matches every request. -/
theorem applies_of_all_sources {rule : SecurityPolicyRule}
    (hversion : rule.condition.bind (·.versionedExpr) = some (js "SRC_IPS_V1"))
    (hall : js "*" ∈ ((rule.condition.bind (·.config)).bind (·.srcIpRanges)).getD [])
    (opts : EvalOptions) (attributes : RequestAttributes) :
    rule.applies opts attributes = true := by
  rw [SecurityPolicyRule.applies, if_pos hversion, matchSrcIpRanges, List.any_eq_true]
  exact ⟨js "*", hall, by simp⟩

def isRedirectAction (action : JsString) : Bool :=
  action = "redirect" || startsWith action "redirect("

def outcomeOf (action : JsString) : JsString :=
  if action = "allow" then "ALLOW"
  else if isRedirectAction action then "REDIRECT"
  else "DENY"

/-- The rate-limit action of a rule, if that is what its action says. -/
def rateAction (action : JsString) : Option RateAction :=
  if action = "throttle" then some .throttle
  else if action = "rate_based_ban" then some .rateBasedBan
  else none

/-- The action a matching rule takes before the body phase is considered, and the limiter after. -/
def limitedAction (opts : EvalOptions) (policyName : JsString) (rule : SecurityPolicyRule)
    (attributes : RequestAttributes) (limiter : Limiter) : JsString × Limiter :=
  match rateAction rule.action, rule.headerAction, rule.rateLimitOptions with
  | none, _, _ => (rule.action, limiter)
  | some _, some _, _ => ("allow", limiter)
  | some _, none, none => (rule.action, limiter)
  | some action, none, some options =>
      let (result, store) := applyRateLimit opts.host policyName rule.priority action options
        attributes (if rule.isPreview then .preview else .commit) (limiter.clock 0) limiter.store
      (result, ⟨store, fun i => limiter.clock (i + 1)⟩)

/-- A charge of the limiter: one reading of the clock is used up. -/
def Limiter.charge (limiter : Limiter) (action : RateAction) (options : RateLimitOptions)
    (mode : RateMode) (bucket : JsString) : JsString × Limiter :=
  let (result, store) := chargeBucket action options mode bucket (limiter.clock 0) limiter.store
  (result, ⟨store, fun i => limiter.clock (i + 1)⟩)

/-- A rule either has a fixed action and leaves the limiter alone, or charges it. -/
theorem limitedAction_cases (opts : EvalOptions) (policyName : JsString)
    (rule : SecurityPolicyRule) :
    (∃ fixed, ∀ attributes limiter,
        limitedAction opts policyName rule attributes limiter = (fixed, limiter)) ∨
      ∃ action options, ∀ attributes limiter,
        limitedAction opts policyName rule attributes limiter =
          limiter.charge action options (if rule.isPreview then .preview else .commit)
            (bucketKey policyName rule.priority
              (buildClientKey opts.host options attributes)) := by
  unfold limitedAction
  cases rateAction rule.action with
  | none => exact .inl ⟨rule.action, fun _ _ => rfl⟩
  | some action =>
      cases rule.headerAction with
      | some header => exact .inl ⟨js "allow", fun _ _ => rfl⟩
      | none =>
          cases rule.rateLimitOptions with
          | none => exact .inl ⟨rule.action, fun _ _ => rfl⟩
          | some options => exact .inr ⟨action, options, fun _ _ => rfl⟩

/-- A redirect that matches while the body is inspected is a denial. -/
def phaseAction (bodyPhase : Bool) (action : JsString) : JsString :=
  if bodyPhase && isRedirectAction action then "deny(403)" else action

def resolveAction (opts : EvalOptions) (policyName : JsString) (rule : SecurityPolicyRule)
    (attributes : RequestAttributes) (limiter : Limiter) : JsString × Limiter :=
  let (action, limiter) := limitedAction opts policyName rule attributes limiter
  (phaseAction rule.isBodyPhase action, limiter)

def toMatchedRule (rule : SecurityPolicyRule) (action policyName : JsString) : MatchedRule where
  name := if policyName = [] then none else some policyName
  priority := rule.priority
  action := action
  outcome := outcomeOf action

/-! ## The inspected view -/

/-- The names every object inherits, for which a lookup finds something that is no number. -/
def inheritedNames : List JsString :=
  ["constructor", "__defineGetter__", "__defineSetter__", "hasOwnProperty", "__lookupGetter__",
    "__lookupSetter__", "isPrototypeOf", "propertyIsEnumerable", "toString", "valueOf",
    "__proto__", "toLocaleString"]

def requestBodyInspectionBytes : List (JsString × ℕ) :=
  [("8KB", 8 * 1024), ("16KB", 16 * 1024), ("32KB", 32 * 1024), ("48KB", 48 * 1024),
    ("64KB", 64 * 1024)]

def inspectionLimitBytes (policy : SecurityPolicy) : ℕ :=
  let sizeKey :=
    (policy.advancedOptionsConfig.bind (·.requestBodyInspectionSize)).getD (js "8KB")
  match requestBodyInspectionBytes.lookup sizeKey with
  | some bytes => bytes
  -- no body is within a limit that is not a number, and the slice up to it is empty
  | none => if sizeKey ∈ inheritedNames then 0 else 8 * 1024

def inspected (opts : EvalOptions) (policy : SecurityPolicy) (attributes : RequestAttributes) :
    RequestAttributes :=
  withInspectedBody opts.host attributes (inspectionLimitBytes policy)
    (policy.advancedOptionsConfig.bind (·.jsonParsing))

/-! ## The walk -/

def SecurityPolicy.nameText (policy : SecurityPolicy) : JsString := policy.name.getD []

def SecurityPolicy.ruleList (policy : SecurityPolicy) : List SecurityPolicyRule :=
  policy.rules.getD []

/-- The rules in the order of the walk. -/
def SecurityPolicy.sortedRules (policy : SecurityPolicy) : List SecurityPolicyRule :=
  policy.ruleList.insertionSort fun a b => a.priority ≤ b.priority

/-- The loop of `evaluate`, from a state in which `current` is the view of the request. A body-phase
rule behind another one would inspect the same request again, so the view is built alike. -/
def walk (opts : EvalOptions) (policy : SecurityPolicy) (attributes : RequestAttributes) :
    List SecurityPolicyRule → RequestAttributes → Option MatchedRule → Limiter →
      EvaluationResult × Limiter
  | [], _, preview, limiter => (⟨none, preview⟩, limiter)
  | rule :: rules, current, preview, limiter =>
      let current := if rule.isBodyPhase then inspected opts policy attributes else current
      if !rule.applies opts current then
        walk opts policy attributes rules current preview limiter
      else
        let (action, limiter) := resolveAction opts policy.nameText rule current limiter
        let record := toMatchedRule rule action policy.nameText
        if rule.isPreview then
          walk opts policy attributes rules current (preview.or (some record)) limiter
        else (⟨some record, preview⟩, limiter)

/-- `evaluate(policy, attributes, options)`, with the limiter before and after. -/
def evaluate (opts : EvalOptions) (policy : SecurityPolicy) (attributes : RequestAttributes)
    (limiter : Limiter) : EvaluationResult × Limiter :=
  walk opts policy attributes policy.sortedRules attributes none limiter

end Kinglet.Armor
