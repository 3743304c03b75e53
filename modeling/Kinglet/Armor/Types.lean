import Kinglet.Js.Value

/-!
# Cloud Armor evaluation types

The request view the custom rules language reads, and the stored policy the engine walks. Of a
stored policy only what the engine reads is kept. Optional fields are `Option`s: absent and `null`
are treated alike throughout the engine.
-/

namespace Kinglet.Armor

open Js

def maxSrcIpRanges : ℕ := 10
def maxSubexpressions : ℕ := 5
def maxExpressionChars : ℕ := 2048
def maxSubexpressionChars : ℕ := 1024
def maxMatchesPerExpression : ℕ := 1
def maxEnforceOnKeyConfigs : ℕ := 3
def rateLimitKeyValueMaxBytes : ℕ := 128
def defaultRulePriority : ℕ := 2147483647

/-! ## The request view -/

structure OriginAttributes where
  ip : JsString
  userIp : JsString
  userIpResolved : Bool
  regionCode : JsString
  asn : Float
  tlsJa3Fingerprint : JsString
  tlsJa4Fingerprint : JsString

structure HttpRequestAttributes where
  headers : List (JsString × JsString)
  method : JsString
  path : JsString
  query : JsString
  scheme : JsString
  body : JsString
  params : Fields

structure WafSignatureMatch where
  ruleSet : JsString
  signatureId : JsString

structure RequestAttributes where
  origin : OriginAttributes
  request : HttpRequestAttributes
  sni : JsString
  wafMatches : List WafSignatureMatch
  adaptiveProtectionMatch : Bool

/-- A plain request, for examples. -/
def sampleRequest : RequestAttributes where
  origin := ⟨"203.0.113.7", "203.0.113.7", false, [], 0, [], []⟩
  request := ⟨[], "GET", "/admin", [], "https", [], []⟩
  sni := []
  wafMatches := []
  adaptiveProtectionMatch := false

/-! ## Stored policies -/

inductive JsonParsing where
  | disabled
  | standard
  | standardWithGraphql
deriving DecidableEq

/-- The inspection size is the text stored under the policy, whatever the write checks let in. -/
structure AdvancedOptionsConfig where
  jsonParsing : Option JsonParsing
  requestBodyInspectionSize : Option JsString

structure SrcIpConfig where
  srcIpRanges : Option (List JsString)

structure ExprMatch where
  expression : Option JsString

structure SecurityPolicyMatch where
  versionedExpr : Option JsString
  config : Option SrcIpConfig
  expr : Option ExprMatch

structure RateLimitThreshold where
  count : Option ℕ
  intervalSec : Option ℕ

structure EnforceOnKeyConfig where
  enforceOnKeyType : Option JsString
  enforceOnKeyName : Option JsString

structure RateLimitOptions where
  rateLimitThreshold : Option RateLimitThreshold
  banThreshold : Option RateLimitThreshold
  banDurationSec : Option ℕ
  conformAction : Option JsString
  exceedAction : Option JsString
  enforceOnKey : Option JsString
  enforceOnKeyName : Option JsString
  enforceOnKeyConfigs : Option (List EnforceOnKeyConfig)

structure RequestHeaderToAdd where
  headerName : Option JsString
  headerValue : Option JsString

structure HeaderAction where
  requestHeadersToAdds : Option (List RequestHeaderToAdd)

structure SecurityPolicyRule where
  priority : ℕ
  action : JsString
  preview : Option Bool
  condition : Option SecurityPolicyMatch
  rateLimitOptions : Option RateLimitOptions
  headerAction : Option HeaderAction

structure SecurityPolicy where
  name : Option JsString
  rules : Option (List SecurityPolicyRule)
  advancedOptionsConfig : Option AdvancedOptionsConfig

/-! ## Results -/

structure MatchedRule where
  name : Option JsString
  priority : ℕ
  action : JsString
  outcome : JsString
deriving DecidableEq

structure EvaluationResult where
  enforced : Option MatchedRule
  preview : Option MatchedRule
deriving DecidableEq

/-- What `evaluateExpression` returns. -/
inductive ExpressionEvaluation where
  | ok (matched : Bool)
  | failed (error : JsString)
deriving DecidableEq

end Kinglet.Armor
