import Kinglet.Armor.Check
import Kinglet.Armor.Request
import Kinglet.Js.Untyped
import Kinglet.Library.Outcome

/-!
# Writing a rule

The checks the security policy service makes of a rule's body before it stores the rule. Bodies are
untyped; a value of another type than the source expects makes a call throw, which the handlers
report as an internal error, unless the source lets it pass.
-/

namespace Kinglet.Compute

open Js Library Armor

/-! ## Errors -/

inductive ErrorStatus where
  | invalidArgument
  | notFound
  | alreadyExists
  | failedPrecondition
deriving DecidableEq

/-- A `SecurityPolicyServiceError`, or anything else that is thrown. -/
inductive ServiceError where
  | service (status : ErrorStatus) (message : JsString)
  | internal
deriving DecidableEq

abbrev ServiceResult (α : Type) := Except ServiceError α

def invalid {α : Type} (message : JsString) : ServiceResult α :=
  .error (.service .invalidArgument message)

/-- The outcome of an operation that throws nothing of the service's own. -/
def orInternal {α : Type} : Option α → ServiceResult α
  | some a => .ok a
  | none => .error .internal

/-- An `ArmorError` becomes an invalid argument. -/
def orInvalid {α : Type} : Except JsString α → ServiceResult α
  | .ok a => .ok a
  | .error message => invalid message

/-- `${value}` in the text of an error. -/
def invalidWith {α : Type} (before : JsString) (value : JsValue) (after : JsString) :
    ServiceResult α := do
  let text ← orInternal (toText value)
  invalid (before ++ text ++ after)

/-! ## Names, actions and descriptions -/

/-- `/^[a-z]([-a-z0-9]{0,61}[a-z0-9])?$/`. -/
def isPolicyName (name : JsString) : Bool :=
  let isLower := fun u : UInt16 => unit 'a' ≤ u && u ≤ unit 'z'
  match name with
  | [] => false
  | first :: rest =>
      isLower first && rest.length ≤ 62 &&
        rest.all (fun u => u = unit '-' || isLower u || isDigit u) &&
        rest.getLast? ≠ some (unit '-')

def assertPolicyName (name : JsString) : ServiceResult Unit :=
  if isPolicyName name then .ok ()
  else invalid (js "Invalid value for field 'resource.name': '" ++ name ++
    js "'. Must be a match of regex '[a-z](?:[-a-z0-9]\x7b0,61\x7d[a-z0-9])?'")

def allowedNamedActions : List JsString :=
  ["allow", "deny", "redirect", "throttle", "rate_based_ban"]

def allowedDenyStatuses : List ℕ := [403, 404, 429, 502]

/-- `/^deny\((\d+)\)$/` with an allowed status. -/
def isDenyAction (action : JsString) : Bool :=
  let digits := (action.drop 5).dropLast
  startsWith action "deny(" && endsWith action ")" && digits ≠ [] && digits.all isDigit &&
    digitsValue digits ∈ allowedDenyStatuses

def isRuleAction (action : JsString) : Bool :=
  action ∈ allowedNamedActions || startsWith action "redirect(" || isDenyAction action

/-- The action of a rule: the required field, then `assertRuleAction`. -/
def ruleAction (action : JsValue) : ServiceResult JsString :=
  match action with
  | .undefined | .null | .str [] => invalid "Rule action is required"
  | .str action =>
      if isRuleAction action then .ok action
      else invalid (js "Invalid rule action: " ++ action)
  | _ => .error .internal

/-- The number of a rule, when it is an integer in range. -/
def rulePriority (priority : JsValue) : ServiceResult ℕ :=
  match priority with
  | .num x =>
      match arrayIndex x (defaultRulePriority + 1) with
      | some n => .ok n
      | none => outOfRange
  | _ => outOfRange
where
  outOfRange : ServiceResult ℕ :=
    invalidWith "Invalid priority: " priority ". Must be an integer in [0, 2147483647]"

def maxDescription : ℕ := 2048

/-- The limit on a description; `what` is what the text of the error starts with. -/
def checkDescription (what : JsString) (description : JsValue) : ServiceResult Unit :=
  if isNullish description then .ok ()
  else do
    if ← orInternal (longerThan description maxDescription) then
      invalid (what ++ js " exceeds maximum of 2048 characters")

/-! ## Matches -/

/-- One source range: all of them, or a CIDR. Another value than a text throws. -/
def checkSrcIpRange (range : JsValue) : ServiceResult Unit :=
  match range with
  | .str range =>
      if range = "*" || isValidCidr range then .ok ()
      else invalid (js "Invalid srcIpRange: " ++ range)
  | _ => .error .internal

def validateSrcIpRanges (ranges : JsValue) : ServiceResult Unit := do
  if ← orInternal (longerThan ranges maxSrcIpRanges) then
    invalid (js "srcIpRanges exceeds maximum of " ++ decimal maxSrcIpRanges)
  (← orInternal (iterate ranges)).forM checkSrcIpRange

/-- An expression that is no text fails either way: its elements are refused by the tokenizer, and
without elements it is an empty expression. -/
def checkExpression (host : Host) (expression : JsValue) : ServiceResult Unit :=
  match expression with
  | .str expression => orInvalid (validateExpression host expression)
  | .arr _ (_ :: _) | .obj _ (_ :: _) => .error .internal
  | _ => orInvalid (validateExpression host [])

def validateMatch (host : Host) (condition : JsValue) : ServiceResult Unit := do
  let versionedExpr ← orInternal (prop condition "versionedExpr")
  let expr ← orInternal (prop condition "expr")
  match versionedExpr with
  | .str version =>
      if version = "SRC_IPS_V1" then do
        let config ← orInternal (prop condition "config")
        let ranges := propOrUndefined config "srcIpRanges"
        if !isNullish ranges then validateSrcIpRanges ranges
      else checkExpr expr
  | _ => checkExpr expr
where
  checkExpr (expr : JsValue) : ServiceResult Unit :=
    if isNullish expr then .ok ()
    else do
      let expression ← orInternal (prop expr "expression")
      if !isNullish expression then checkExpression host expression

def normalizeCidr (range : JsString) : JsString :=
  if range = "*" then range
  else
    let (ip, suffix) := match cutLast (unit '/') range with
      | none => (range, [])
      | some (ip, raw) => (ip, unit '/' :: raw)
    match canonicalizeIp ip with
    | some ip => ip ++ suffix
    | none => range

/-- The canonical form of one range. -/
def normalizeRange : JsValue → JsValue
  | .str range => .str (normalizeCidr range)
  | range => range

/-- `normalizeMatch(match)`; only a list has `map`. -/
def normalizeMatch (condition : JsValue) : ServiceResult JsValue := do
  let versionedExpr ← orInternal (prop condition "versionedExpr")
  match versionedExpr with
  | .str version =>
      if version = "SRC_IPS_V1" then do
        let config ← orInternal (prop condition "config")
        match propOrUndefined config "srcIpRanges" with
        | .undefined | .null => .ok condition
        | .arr _ ranges =>
            .ok (.obj none [("versionedExpr", .str "SRC_IPS_V1"),
              ("config", .obj none [("srcIpRanges", .arr none (ranges.map normalizeRange))])])
        | _ => .error .internal
      else .ok condition
  | _ => .ok condition

/-! ## Rate limits -/

def validIntervalSec : List ℤ :=
  [10, 30, 60, 120, 180, 240, 300, 600, 900, 1200, 1800, 2700, 3600]

def validBanDurationSec : List ℤ := [60, 120, 180, 240, 300, 600, 900, 1200, 1800, 2700, 3600]

def validKeyTypes : List JsString :=
  ["ALL", "IP", "XFF_IP", "USER_IP", "HTTP_HEADER", "HTTP_COOKIE", "HTTP_PATH", "SNI",
    "REGION_CODE", "TLS_JA3_FINGERPRINT", "TLS_JA4_FINGERPRINT"]

/-- The key types that may appear more than once, and that need a name. -/
def repeatableKeyTypes : List JsString := ["HTTP_HEADER", "HTTP_COOKIE"]

/-- `Number.isInteger(value) && low <= value && value <= high`. -/
def isIntegerBetween (value : JsValue) (low high : ℤ) : Bool :=
  match integerOf value with
  | some n => low ≤ n && n ≤ high
  | none => false

/-- Whether a number is one of a list. -/
def isOneOf (value : JsValue) (allowed : List ℤ) : Bool :=
  match integerOf value with
  | some n => n ∈ allowed
  | none => false

/-- `value == null || value === ''`. -/
def isBlank : JsValue → Bool
  | .undefined | .null | .str [] => true
  | _ => false

def validateKeyType (type : JsValue) : ServiceResult JsString :=
  match type with
  | .str type =>
      if type ∈ validKeyTypes then .ok type
      else invalid (js "Invalid enforceOnKeyType: " ++ type)
  | type => invalidWith "Invalid enforceOnKeyType: " type []

/-- The key types that need a name have one. -/
def checkKeyName (type : JsString) (name : JsValue) : ServiceResult Unit :=
  if type ∈ repeatableKeyTypes && isBlank name then
    invalid (type ++ js " requires enforceOnKeyName")
  else .ok ()

/-- The loop over the key configurations; `seen` are the types met. -/
def checkKeyConfigs (seen : List JsString) : List JsValue → ServiceResult Unit
  | [] => .ok ()
  | config :: configs => do
      let type ← orInternal (prop config "enforceOnKeyType")
      let type ← validateKeyType (if isNullish type then .str [] else type)
      if type ∉ repeatableKeyTypes && type ∈ seen then
        invalid (js "enforceOnKeyType " ++ type ++ js " may only appear once")
      checkKeyName type (propOrUndefined config "enforceOnKeyName")
      checkKeyConfigs (type :: seen) configs

/-- The keys of the options: a list of configurations or a single key. -/
def checkEnforceOnKey (options : JsValue) : ServiceResult Unit := do
  let configs := propOrUndefined options "enforceOnKeyConfigs"
  let key := propOrUndefined options "enforceOnKey"
  let listed ← if isNullish configs then .ok false else orInternal (longerThan configs 0)
  if listed then
    if !isBlank key then invalid "enforceOnKey must be empty when enforceOnKeyConfigs is set"
    if ← orInternal (longerThan configs maxEnforceOnKeyConfigs) then
      invalid (js "A maximum of " ++ decimal maxEnforceOnKeyConfigs ++
        js " enforceOnKeyConfigs are allowed")
    checkKeyConfigs [] (← orInternal (iterate configs))
  else if !isBlank key then
    let type ← validateKeyType key
    checkKeyName type (propOrUndefined options "enforceOnKeyName")

/-- A threshold, with the texts of its errors. -/
def checkThreshold (threshold : JsValue) (required count interval : JsString) (maxCount : ℕ) :
    ServiceResult Unit := do
  if isNullish threshold || isNullish (propOrUndefined threshold "count") ||
      isNullish (propOrUndefined threshold "intervalSec") then
    invalid required
  if !isIntegerBetween (propOrUndefined threshold "count") 1 maxCount then invalid count
  if !isOneOf (propOrUndefined threshold "intervalSec") validIntervalSec then
    invalidWith interval (propOrUndefined threshold "intervalSec") []

/-- The ban of a `rate_based_ban` rule. -/
def checkBan (options : JsValue) : ServiceResult Unit := do
  let duration := propOrUndefined options "banDurationSec"
  if isNullish duration then invalid "banDurationSec is required for rate_based_ban"
  if !isOneOf duration validBanDurationSec then invalidWith "Invalid banDurationSec: " duration []
  let ban := propOrUndefined options "banThreshold"
  if !isNullish ban then
    checkThreshold ban "banThreshold.count and intervalSec are required"
      "banThreshold.count must be between 1 and 10000" "Invalid banThreshold.intervalSec: " 10000

/-- `validateRateLimitOptions(action, options)`. -/
def validateRateLimitOptions (action : JsString) (options : JsValue) : ServiceResult Unit := do
  let maxCount := if action = "rate_based_ban" then 10000 else 1000000
  checkThreshold (propOrUndefined options "rateLimitThreshold")
    "rateLimitThreshold.count and intervalSec are required"
    (js "rateLimitThreshold.count must be between 1 and " ++ decimal maxCount)
    "Invalid intervalSec: " maxCount
  checkEnforceOnKey options
  if action = "rate_based_ban" then checkBan options

def isRateLimited (action : JsString) : Bool :=
  action = "throttle" || action = "rate_based_ban"

/-- `assertRateLimitActionTransition(from, to)`, with the text of the error it throws. -/
def assertRateLimitActionTransition (old new : JsString) : Except JsString Unit :=
  if old = "rate_based_ban" ∧ new = "throttle" then
    .error "Cannot change a rate_based_ban rule to throttle; delete and recreate the rule"
  else .ok ()

/-! ## Rules -/

/-- A rule as it is stored; `condition` is the field `match`. -/
structure StoredRule where
  priority : ℕ
  action : JsString
  description : Option JsValue
  condition : Option JsValue
  rateLimitOptions : Option JsValue
  headerAction : Option JsValue
  redirectOptions : Option JsValue
  preview : Option JsValue

/-- A field that is there, as it is read back from the text column. -/
def storedField (value : JsValue) : Option JsValue :=
  if isNullish value then none else some (jsonCopy value)

/-- The rate-limit options of a rule that needs them. -/
def checkRateLimit (action : JsString) (options : JsValue) : ServiceResult Unit :=
  if isRateLimited action then
    if isNullish options then invalid (js "rateLimitOptions is required for action " ++ action)
    else validateRateLimitOptions action options
  else .ok ()

/-- The match of a rule, checked and then normalized. -/
def checkMatch (host : Host) (condition : JsValue) : ServiceResult Unit :=
  if isNullish condition then .ok () else validateMatch host condition

def storedMatch (condition : JsValue) : ServiceResult (Option JsValue) :=
  if isNullish condition then .ok none
  else do return storedField (← normalizeMatch condition)

/-- `validateSingleRule(raw)`, with the rule as it is read back. -/
def validateSingleRule (host : Host) (raw : JsValue) : ServiceResult StoredRule := do
  let priority ← rulePriority (← orInternal (prop raw "priority"))
  let action ← ruleAction (propOrUndefined raw "action")
  let description := propOrUndefined raw "description"
  checkDescription "Rule description" description
  let condition := propOrUndefined raw "match"
  checkMatch host condition
  let options := propOrUndefined raw "rateLimitOptions"
  checkRateLimit action options
  let condition ← storedMatch condition
  return {
    priority := priority
    action := action
    description := storedField description
    condition := condition
    rateLimitOptions := storedField options
    headerAction := storedField (propOrUndefined raw "headerAction")
    redirectOptions := storedField (propOrUndefined raw "redirectOptions")
    preview := storedField (propOrUndefined raw "preview") }

/-- The rule that every policy is given. -/
def defaultRule : StoredRule where
  priority := defaultRulePriority
  action := "allow"
  description := some (.str "default allow rule")
  condition := some (.obj none [("versionedExpr", .str "SRC_IPS_V1"),
    ("config", .obj none [("srcIpRanges", .arr none [.str "*"])])])
  rateLimitOptions := none
  headerAction := none
  redirectOptions := none
  preview := none

def sharedPriority {α : Type} (priority : ℕ) : ServiceResult α :=
  invalid (js "Two rules cannot share priority " ++ decimal priority)

/-- The loop that looks for a priority met before. -/
def checkDistinct (seen : List ℕ) : List StoredRule → ServiceResult Unit
  | [] => .ok ()
  | rule :: rules =>
      if rule.priority ∈ seen then sharedPriority rule.priority
      else checkDistinct (rule.priority :: seen) rules

/-- `validateAndNormalizeRules(rawRules)`. -/
def validateAndNormalizeRules (host : Host) (rawRules : JsValue) :
    ServiceResult (List StoredRule) := do
  let rules ← (← orInternal (iterate rawRules)).mapM (validateSingleRule host)
  checkDistinct [] rules
  if rules.any fun rule => rule.priority = defaultRulePriority then return rules
  else return rules ++ [defaultRule]

/-- The fields of a stored rule. -/
def StoredRule.fields (rule : StoredRule) : Fields :=
  ("priority", .num (natNumber rule.priority)) :: ("action", .str rule.action) ::
    (optional "description" rule.description ++ optional "match" rule.condition ++
      optional "rateLimitOptions" rule.rateLimitOptions ++
      optional "headerAction" rule.headerAction ++
      optional "redirectOptions" rule.redirectOptions ++ optional "preview" rule.preview)
where
  optional (name : JsString) (value : Option JsValue) : Fields :=
    value.elim [] fun value => [(name, value)]

/-! ## What the checks establish -/

section Spec

variable {host : Host} {raw : JsValue} {rule : StoredRule}

theorem arrayIndex_lt {x : Float} {length i : ℕ} (h : arrayIndex x length = some i) :
    i < length := by
  unfold arrayIndex at h
  split at h
  · split at h
    · obtain rfl := Option.some.inj h
      assumption
    · cases h
  · cases h

theorem invalidWith_ne_ok {α : Type} {before after : JsString} {value : JsValue} {a : α} :
    invalidWith before value after ≠ .ok a := by
  intro h
  obtain ⟨text, -, htext⟩ := bind_eq_ok.1 h
  cases htext

theorem rulePriority_ok {value : JsValue} {n : ℕ} (h : rulePriority value = .ok n) :
    (∃ x, value = .num x ∧ arrayIndex x (defaultRulePriority + 1) = some n) ∧
      n ≤ defaultRulePriority := by
  cases value with
  | num x =>
      simp only [rulePriority] at h
      split at h
      · rename_i m hm
        obtain rfl := Except.ok.inj h
        exact ⟨⟨x, rfl, hm⟩, Nat.le_of_lt_succ (arrayIndex_lt hm)⟩
      · exact absurd h invalidWith_ne_ok
  | _ => exact absurd h invalidWith_ne_ok

theorem ruleAction_ok {value : JsValue} {action : JsString} (h : ruleAction value = .ok action) :
    value = .str action ∧ isRuleAction action = true := by
  unfold ruleAction at h
  split at h
  · cases h
  · cases h
  · cases h
  · split at h
    · obtain rfl := Except.ok.inj h
      exact ⟨rfl, ‹_›⟩
    · cases h
  · cases h

theorem orInternal_eq_ok {α : Type} {x : Option α} {a : α} : orInternal x = .ok a ↔ x = some a := by
  cases x with
  | none => exact ⟨(nomatch ·), (nomatch ·)⟩
  | some b =>
      constructor
      · exact fun h => congrArg some (Except.ok.inj h)
      · exact fun h => congrArg Except.ok (Option.some.inj h)

/-- A written rule has the priority and the action of its body, both checked. -/
theorem validateSingleRule_ok (h : validateSingleRule host raw = .ok rule) :
    (∃ value, prop raw "priority" = some value ∧ rulePriority value = .ok rule.priority) ∧
      propOrUndefined raw "action" = .str rule.action ∧ isRuleAction rule.action = true := by
  simp only [validateSingleRule, bind_eq_ok, orInternal_eq_ok] at h
  obtain ⟨value, hvalue, priority, hpriority, action, haction, _, -, _, -, _, -, _, -, hrule⟩ := h
  obtain rfl := Except.ok.inj hrule
  exact ⟨⟨value, hvalue, hpriority⟩, ruleAction_ok haction⟩

theorem priority_le_of_validateSingleRule (h : validateSingleRule host raw = .ok rule) :
    rule.priority ≤ defaultRulePriority := by
  obtain ⟨⟨value, -, hpriority⟩, -⟩ := validateSingleRule_ok h
  exact (rulePriority_ok hpriority).2

theorem exists_of_mapM {raws : List JsValue} {rules : List StoredRule}
    (h : raws.mapM (validateSingleRule host) = .ok rules) :
    ∀ rule ∈ rules, ∃ raw ∈ raws, validateSingleRule host raw = .ok rule := by
  induction raws generalizing rules with
  | nil =>
      obtain rfl := Except.ok.inj h
      exact fun _ hmem => absurd hmem List.not_mem_nil
  | cons raw raws ih =>
      rw [List.mapM_cons] at h
      obtain ⟨first, hfirst, h⟩ := bind_eq_ok.1 h
      obtain ⟨rest, hrest, h⟩ := bind_eq_ok.1 h
      obtain rfl := Except.ok.inj h
      intro rule hmem
      rcases List.mem_cons.1 hmem with rfl | hmem
      · exact ⟨raw, List.mem_cons_self, hfirst⟩
      · obtain ⟨r, hr, hrule⟩ := ih hrest rule hmem
        exact ⟨r, List.mem_cons_of_mem _ hr, hrule⟩

theorem checkDistinct_ok {seen : List ℕ} {rules : List StoredRule}
    (h : checkDistinct seen rules = .ok ()) :
    (rules.map StoredRule.priority).Nodup ∧ ∀ rule ∈ rules, rule.priority ∉ seen := by
  induction rules generalizing seen with
  | nil => exact ⟨List.nodup_nil, fun _ hmem => absurd hmem List.not_mem_nil⟩
  | cons rule rules ih =>
      unfold checkDistinct at h
      split at h
      · cases h
      · obtain ⟨hnodup, hseen⟩ := ih h
        refine ⟨List.nodup_cons.2 ⟨?_, hnodup⟩, List.forall_mem_cons.2 ⟨‹_›, fun r hr => ?_⟩⟩
        · intro hmem
          obtain ⟨r, hr, hpriority⟩ := List.mem_map.1 hmem
          exact hseen r hr (hpriority ▸ List.mem_cons_self)
        · exact fun hmem => hseen r hr (List.mem_cons_of_mem _ hmem)

end Spec

/-! ## Rule lists -/

/-- The rules of a policy are known by their priorities, which are in range. -/
structure RuleList (rules : List StoredRule) : Prop where
  nodup : (rules.map StoredRule.priority).Nodup
  bounded : ∀ rule ∈ rules, rule.priority ≤ defaultRulePriority

/-- The default rule is there. -/
def HasDefault (rules : List StoredRule) : Prop :=
  defaultRulePriority ∈ rules.map StoredRule.priority

theorem validateAndNormalizeRules_ok {host : Host} {rawRules : JsValue} {rules : List StoredRule}
    (h : validateAndNormalizeRules host rawRules = .ok rules) :
    RuleList rules ∧ HasDefault rules := by
  simp only [validateAndNormalizeRules, bind_eq_ok, orInternal_eq_ok] at h
  obtain ⟨raws, -, written, hwritten, _, hdistinct, h⟩ := h
  have hbounded : ∀ rule ∈ written, rule.priority ≤ defaultRulePriority := by
    intro rule hmem
    obtain ⟨raw, -, hrule⟩ := exists_of_mapM hwritten rule hmem
    exact priority_le_of_validateSingleRule hrule
  obtain ⟨hnodup, -⟩ := checkDistinct_ok hdistinct
  split at h
  · obtain rfl := Except.ok.inj h
    rename_i hany
    obtain ⟨rule, hmem, hdefault⟩ := List.any_eq_true.1 hany
    exact ⟨⟨hnodup, hbounded⟩, List.mem_map.2 ⟨rule, hmem, of_decide_eq_true hdefault⟩⟩
  · obtain rfl := Except.ok.inj h
    rename_i hany
    have hfresh : defaultRulePriority ∉ written.map StoredRule.priority := by
      intro hmem
      obtain ⟨rule, hrule, hpriority⟩ := List.mem_map.1 hmem
      exact hany (List.any_eq_true.2 ⟨rule, hrule, decide_eq_true hpriority⟩)
    refine ⟨⟨?_, ?_⟩, ?_⟩
    · rw [List.map_append, List.nodup_append]
      refine ⟨hnodup, List.nodup_singleton _, fun p hp q hq => ?_⟩
      obtain rfl := List.mem_singleton.1 hq
      rintro rfl
      exact hfresh hp
    · intro rule hmem
      rcases List.mem_append.1 hmem with hmem | hmem
      · exact hbounded rule hmem
      · obtain rfl := List.mem_singleton.1 hmem
        exact Nat.le_refl _
    · exact List.mem_map.2 ⟨defaultRule, List.mem_append_right _ List.mem_cons_self, rfl⟩

end Kinglet.Compute
