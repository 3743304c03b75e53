import Kinglet.Armor.Evaluate
import Kinglet.Compute.Rule

/-!
# The security policy service

The operations on stored policies. Each either fails, and then leaves the store as it was, or returns
the store after it. Calls for one policy are serialized by a lock, so an operation is one step.
-/

namespace Kinglet.Compute

open Js Library Armor

/-! ## The store -/

/-- A stored policy: its text columns as they are read back. -/
structure PolicyRecord where
  rules : List StoredRule
  advancedOptionsConfig : Option JsValue
  extraFields : Fields

/-- The stored policies by project and name. -/
abbrev Policies := JsString → JsString → Option PolicyRecord

def noPolicies : Policies := fun _ _ => none

def Policies.set (policies : Policies) (project name : JsString) (record : Option PolicyRecord) :
    Policies :=
  fun p n => if p = project ∧ n = name then record else policies p n

@[simp] theorem Policies.set_self (policies : Policies) (project name : JsString)
    (record : Option PolicyRecord) : policies.set project name record project name = record := by
  simp [Policies.set]

theorem Policies.set_of_ne (policies : Policies) {project name p n : JsString}
    (record : Option PolicyRecord) (hne : ¬(p = project ∧ n = name)) :
    policies.set project name record p n = policies p n := if_neg hne

def policyPath (project name : JsString) : JsString :=
  js "The resource 'projects/" ++ project ++ js "/global/securityPolicies/" ++ name

/-- The record of a policy that must exist. -/
def findPolicy (policies : Policies) (project name : JsString) : ServiceResult PolicyRecord :=
  match policies project name with
  | some record => .ok record
  | none => .error (.service .notFound (policyPath project name ++ js "' was not found"))

/-- Whether a rule has the priority a call names. -/
def StoredRule.hasPriority (rule : StoredRule) (priority : Float) : Bool :=
  intValue priority = some (rule.priority : ℤ)

/-- The rule a call names. -/
def findRule (rules : List StoredRule) (priority : Float) : ServiceResult StoredRule :=
  match rules.find? fun rule => rule.hasPriority priority with
  | some rule => .ok rule
  | none =>
      .error (.service .notFound (js "No rule found with priority " ++ numText priority))

/-! ## Other fields of a policy -/

def jsonParsingTexts : List JsString := ["DISABLED", "STANDARD", "STANDARD_WITH_GRAPHQL"]

/-- `size in REQUEST_BODY_INSPECTION_BYTES`. -/
def isInspectionSize (size : JsString) : Bool :=
  (requestBodyInspectionBytes.lookup size).isSome || size ∈ inheritedNames

def isText : JsValue → Bool
  | .str _ => true
  | _ => false

/-- `extractAdvancedOptionsConfig(body)`. -/
def extractAdvancedOptionsConfig (body : JsValue) : ServiceResult (Option JsValue) :=
  match propOrUndefined body "advancedOptionsConfig" with
  | .undefined | .null => .ok none
  | .obj ref fields => do
      let config := JsValue.obj ref fields
      match propOrUndefined config "jsonParsing" with
      | .undefined | .null => pure ()
      | .str text => if text ∉ jsonParsingTexts then invalid (js "Invalid jsonParsing: " ++ text)
      | value => invalidWith "Invalid jsonParsing: " value []
      match propOrUndefined config "requestBodyInspectionSize" with
      | .undefined | .null => pure ()
      | .str text =>
          if !isInspectionSize text then
            invalid (js "Invalid requestBodyInspectionSize: " ++ text)
      | value => invalidWith "Invalid requestBodyInspectionSize: " value []
      match propOrUndefined config "userIpRequestHeaders" with
      | .undefined | .null => pure ()
      | .arr _ headers =>
          if !headers.all isText then invalid "userIpRequestHeaders must be an array of strings"
      | _ => invalid "userIpRequestHeaders must be an array of strings"
      return some (jsonCopy config)
  | _ => invalid "advancedOptionsConfig must be an object"

/-- The fields of a body that are kept in columns or made up for responses. -/
def reservedFields : List JsString :=
  ["name", "rules", "advancedOptionsConfig", "kind", "id", "creationTimestamp", "selfLink",
    "fingerprint", "error"]

/-- `extractExtraFields(body)`. -/
def extractExtraFields (body : JsValue) : Fields :=
  (entriesOf body).foldl (fun extra (name, value) =>
    if name ∈ reservedFields then extra else assignField name value extra) []

/-- The extra fields as they are read back. -/
def storedFields (fields : Fields) : Fields := ownEntries (jsonCopyFields fields)

/-! ## Operations -/

section Operations

variable (host : Host) (policies : Policies) (project name : JsString)

/-- The rules of a body, an empty list where there are none. -/
def rawRulesOf (body : JsValue) : JsValue :=
  let rules := propOrUndefined body "rules"
  if isNullish rules then .arr none [] else rules

def insert (body : JsValue) : ServiceResult Policies := do
  assertPolicyName name
  checkDescription "description" (← orInternal (prop body "description"))
  let rules ← validateAndNormalizeRules host (rawRulesOf body)
  match policies project name with
  | some _ =>
      .error (.service .alreadyExists (policyPath project name ++ js "' already exists"))
  | none => do
      let config ← extractAdvancedOptionsConfig body
      return policies.set project name (some {
        rules := rules
        advancedOptionsConfig := config
        extraFields := storedFields (extractExtraFields body) })

def delete : ServiceResult Policies := do
  let _ ← findPolicy policies project name
  return policies.set project name none

/-- The new value of a column, the old one where the body leaves the field out. -/
def patched {α : Type} (body : JsValue) (field : JsString) (old : α)
    (new : JsValue → ServiceResult α) : ServiceResult α :=
  match propOrUndefined body field with
  | .undefined => .ok old
  | value => new value

def patch (body : JsValue) : ServiceResult Policies := do
  let description ← orInternal (prop body "description")
  checkDescription "description" description
  let record ← findPolicy policies project name
  let rules ← patched body "rules" record.rules (validateAndNormalizeRules host)
  let config ← patched body "advancedOptionsConfig" record.advancedOptionsConfig fun _ =>
    extractAdvancedOptionsConfig body
  let extra := spread record.extraFields (.obj none (extractExtraFields body))
  let extra := match description with
    | .undefined => extra
    | description => setField "description" description extra
  return policies.set project name (some {
    rules := rules
    advancedOptionsConfig := config
    extraFields := storedFields extra })

/-- Store other rules under a policy. -/
def updateRules (record : PolicyRecord) (rules : List StoredRule) : Policies :=
  policies.set project name (some { record with rules := rules })

def addRule (ruleBody : JsValue) : ServiceResult Policies := do
  let record ← findPolicy policies project name
  let newRule ← validateSingleRule host ruleBody
  if record.rules.any fun rule => rule.priority = newRule.priority then
    invalid (js "Rule with priority " ++ decimal newRule.priority ++ js " already exists")
  else return updateRules policies project name record (record.rules ++ [newRule])

def removeRule (priority : Float) : ServiceResult Policies :=
  if intValue priority = some (defaultRulePriority : ℤ) then
    invalid "Cannot delete the default rule (priority 2147483647)"
  else do
    let record ← findPolicy policies project name
    let _ ← findRule record.rules priority
    return updateRules policies project name record
      (record.rules.filter fun rule => !rule.hasPriority priority)

/-- The check of a change of action: the body's action, where it has one. -/
def checkTransition (existing : StoredRule) (ruleBody : JsValue) : ServiceResult Unit := do
  match ← orInternal (prop ruleBody "action") with
  | .str action =>
      match assertRateLimitActionTransition existing.action action with
      | .ok _ => .ok ()
      | .error message => .error (.service .failedPrecondition message)
  | _ => .ok ()

def patchRule (priority : Float) (ruleBody : JsValue) : ServiceResult Policies := do
  let record ← findPolicy policies project name
  let existing ← findRule record.rules priority
  checkTransition existing ruleBody
  let patchedRule ← validateSingleRule host (.obj none (spread existing.fields ruleBody))
  if !patchedRule.hasPriority priority &&
      record.rules.any (fun rule => rule.priority = patchedRule.priority) then
    sharedPriority patchedRule.priority
  else
    return updateRules policies project name record
      (record.rules.map fun rule => if rule.hasPriority priority then patchedRule else rule)

end Operations

/-! ## Steps -/

/-- A call of the service. -/
inductive PolicyOp where
  | insert (project name : JsString) (body : JsValue)
  | delete (project name : JsString)
  | patch (project name : JsString) (body : JsValue)
  | addRule (project name : JsString) (ruleBody : JsValue)
  | removeRule (project name : JsString) (priority : Float)
  | patchRule (project name : JsString) (priority : Float) (ruleBody : JsValue)

/-- The store after a call, or the error of the call. -/
def applyOp (host : Host) (policies : Policies) : PolicyOp → ServiceResult Policies
  | .insert project name body => insert host policies project name body
  | .delete project name => delete policies project name
  | .patch project name body => patch host policies project name body
  | .addRule project name ruleBody => addRule host policies project name ruleBody
  | .removeRule project name priority => removeRule policies project name priority
  | .patchRule project name priority ruleBody =>
      patchRule host policies project name priority ruleBody

end Kinglet.Compute
