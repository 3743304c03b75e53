import Kinglet.Armor.Blind
import Kinglet.Armor.Evaluate

/-!
# What the body can change

A rule that uses the body is evaluated against the inspected view, which the bytes past the
inspection limit do not reach. The rules before the first of these see the request as sent. The walk
does not depend on what lies past the limit if these rules access the request under literal keys; a
computed key reads the whole body unnoticed.
-/

namespace Kinglet.Armor

open Js Library

/-! ## Requests that agree up to the limit -/

/-- Two texts of which the first `limit` bytes agree, and which are the same if they are shorter. -/
def AgreeWithin (limit : ℕ) (a b : JsString) : Prop :=
  a = b ∨ limit ≤ (encode a).length ∧ limit ≤ (encode b).length ∧
    (encode a).take limit = (encode b).take limit

/-- Two requests that agree but for what lies past the limit and the parameters. -/
def AgreeUpToBody (limit : ℕ) (A B : RequestAttributes) : Prop :=
  ∃ body params, B = A.withBody body params ∧ AgreeWithin limit A.request.body body

/-- **Noninterference.** What lies past the inspection limit of a policy changes neither the result
nor the counters. -/
def BodyNoninterference (opts : EvalOptions) (policy : SecurityPolicy) : Prop :=
  ∀ (A B : RequestAttributes) (limiter : Limiter),
    AgreeUpToBody (inspectionLimitBytes policy) A B →
      evaluate opts policy A limiter = evaluate opts policy B limiter

/-! ## The inspected view -/

/-- A body of exactly the limit, which is inspected as sent, reads like its own bytes. -/
def ReadsAsBytes (limit : ℕ) (body : JsString) : Prop :=
  (encode body).length = limit → decode (encode body) = body

/-- From the limit on a body is inspected by its bytes. -/
theorem truncateUtf8_eq_decode {limit : ℕ} {body : JsString} (hbytes : ReadsAsBytes limit body)
    (hlimit : limit ≤ (encode body).length) :
    truncateUtf8 body limit = decode ((encode body).take limit) := by
  unfold truncateUtf8
  split
  · have hlength : (encode body).length = limit := Nat.le_antisymm ‹_› hlimit
    rw [← hlength, List.take_length, hbytes hlength]
  · rfl

theorem truncateUtf8_congr {limit : ℕ} {a b : JsString} (ha : ReadsAsBytes limit a)
    (hb : ReadsAsBytes limit b) (h : AgreeWithin limit a b) :
    truncateUtf8 a limit = truncateUtf8 b limit := by
  rcases h with rfl | ⟨hla, hlb, htake⟩
  · rfl
  · rw [truncateUtf8_eq_decode ha hla, truncateUtf8_eq_decode hb hlb, htake]

section Walk

variable (opts : EvalOptions) (policy : SecurityPolicy) {A : RequestAttributes} {body : JsString}
  {params : Fields}

/-- The inspected views of two such requests are the same. -/
theorem inspected_withBody
    (hbody : truncateUtf8 A.request.body (inspectionLimitBytes policy) =
      truncateUtf8 body (inspectionLimitBytes policy)) :
    inspected opts policy (A.withBody body params) = inspected opts policy A := by
  simp only [inspected, withInspectedBody, RequestAttributes.withBody, hbody]

/-! ## The walk -/

namespace SecurityPolicyRule

/-- A rule for source addresses, or one whose expression accesses the request under literal keys
other than those of the body. -/
def accessesDirectly (rule : SecurityPolicyRule) : Bool :=
  rule.condition.bind (·.versionedExpr) = some (js "SRC_IPS_V1") ||
    rule.expression.all (expressionFollows bodyRules)

end SecurityPolicyRule

/-- The rules walked before the first one that uses the body. -/
def SecurityPolicy.headerRules (policy : SecurityPolicy) : List SecurityPolicyRule :=
  policy.sortedRules.takeWhile fun rule => !rule.isBodyPhase

theorem applies_withBody {rule : SecurityPolicyRule} (h : rule.accessesDirectly = true) :
    rule.applies opts (A.withBody body params) = rule.applies opts A := by
  unfold SecurityPolicyRule.applies
  split
  · rfl
  · rename_i hversion
    rw [SecurityPolicyRule.accessesDirectly, decide_eq_false hversion, Bool.false_or] at h
    cases hexpression : rule.expression with
    | none => rfl
    | some expression =>
        rw [hexpression, Option.all_some] at h
        have hevaluate := evaluateExpression_withBody (opts.context A) body params h
        exact congrArg (fun result : ExpressionEvaluation => decide (result = .ok true)) hevaluate

/-- The counters are charged by the headers, the path and the origin only. -/
theorem resolveAction_withBody (name : JsString) (rule : SecurityPolicyRule) (limiter : Limiter) :
    resolveAction opts name rule (A.withBody body params) limiter =
      resolveAction opts name rule A limiter := by
  have hlimited : limitedAction opts name rule (A.withBody body params) limiter =
      limitedAction opts name rule A limiter := by
    rcases limitedAction_cases opts name rule with ⟨fixed, hcase⟩ | ⟨action, options, hcase⟩
    · rw [hcase, hcase]
    · rw [hcase, hcase]
      rfl
  unfold resolveAction
  rw [hlimited]

/-- From the first rule that uses the body on, both walks see the same view. -/
theorem walk_inspected_congr {B : RequestAttributes}
    (hview : inspected opts policy B = inspected opts policy A) (rules : List SecurityPolicyRule)
    (current : RequestAttributes) (preview : Option MatchedRule) (limiter : Limiter) :
    walk opts policy B rules current preview limiter =
      walk opts policy A rules current preview limiter := by
  induction rules generalizing current preview limiter with
  | nil => rfl
  | cons rule rules ih => simp only [walk, hview, ih]

theorem walk_withBody
    (hview : inspected opts policy (A.withBody body params) = inspected opts policy A)
    (rules : List SecurityPolicyRule)
    (hrules : ∀ rule ∈ rules.takeWhile (fun rule => !rule.isBodyPhase),
      rule.accessesDirectly = true) (preview : Option MatchedRule) (limiter : Limiter) :
    walk opts policy (A.withBody body params) rules (A.withBody body params) preview limiter =
      walk opts policy A rules A preview limiter := by
  induction rules generalizing preview limiter with
  | nil => rfl
  | cons rule rules ih =>
      by_cases hphase : rule.isBodyPhase = true
      · simp only [walk, hphase, if_true, hview, walk_inspected_congr opts policy hview]
      · rw [Bool.not_eq_true] at hphase
        rw [List.takeWhile_cons_of_pos (by simp [hphase]), List.forall_mem_cons] at hrules
        simp only [walk, hphase, Bool.false_eq_true, if_false, applies_withBody opts hrules.1,
          resolveAction_withBody, ih hrules.2]

end Walk

/-! ## Bodies that differ past the limit -/

/-- A body that fills the default inspection limit, and a tail past it. -/
def longBody (tail : JsString) : JsString := List.replicate 8192 (unit 'a') ++ tail

theorem encode_replicate (n : ℕ) (tail : JsString) :
    encode (List.replicate n (unit 'a') ++ tail) = List.replicate n 97 ++ encode tail := by
  induction n with
  | zero => rfl
  | succ n ih =>
      rw [List.replicate_succ, List.replicate_succ, List.cons_append, List.cons_append, ← ih]
      cases List.replicate n (unit 'a') ++ tail <;> rfl

theorem agreeWithin_longBody (s t : JsString) : AgreeWithin 8192 (longBody s) (longBody t) := by
  refine .inr ?_
  simp only [longBody, encode_replicate, List.length_append, List.length_replicate]
  exact ⟨Nat.le_add_right _ _, Nat.le_add_right _ _,
    by rw [List.take_left' List.length_replicate, List.take_left' List.length_replicate]⟩

theorem readsAsBytes_longBody (tail : JsString) (htail : encode tail ≠ []) :
    ReadsAsBytes 8192 (longBody tail) := by
  intro hlength
  rw [longBody, encode_replicate, List.length_append, List.length_replicate] at hlength
  exact absurd (List.length_eq_zero_iff.1 (by omega)) htail

def requestOf (body : JsString) : RequestAttributes := sampleRequest.withBody body []

theorem agreeUpToBody_requestOf (s t : JsString) :
    AgreeUpToBody 8192 (requestOf (longBody s)) (requestOf (longBody t)) :=
  ⟨longBody t, [], rfl, agreeWithin_longBody s t⟩

/-- A rule on an expression. -/
def expressionRule (priority : ℕ) (action expression : JsString) : SecurityPolicyRule where
  priority := priority
  action := action
  preview := none
  condition := some ⟨none, none, some ⟨some expression⟩⟩
  rateLimitOptions := none
  headerAction := none

/-- The default rule of a policy. -/
def allowAllRule : SecurityPolicyRule where
  priority := defaultRulePriority
  action := "allow"
  preview := none
  condition := some ⟨some "SRC_IPS_V1", some ⟨some ["*"]⟩, none⟩
  rateLimitOptions := none
  headerAction := none

/-- A rule on the path, one on the body and one for the rest. -/
def directPolicy : SecurityPolicy :=
  ⟨some "edge",
    some [allowAllRule,
      expressionRule 2000 "deny(403)" "request.body.endsWith('x')",
      expressionRule 1000 "deny(404)" "request['path'].startsWith('/private')"], none⟩

/-- A key that only evaluation puts together. -/
def computedKey : JsString := "request['bo' + 'dy'].endsWith('x')"

example : validateExpression asciiHost computedKey = .ok () := by decide +kernel

def computedKeyPolicy : SecurityPolicy :=
  ⟨some "edge", some [expressionRule 1000 "deny(403)" computedKey, allowAllRule], none⟩

/-- The tree of `computedKey`, up to the spans. -/
def isComputedKeyTree : Except JsString Ast → Bool
  | .ok (.call (.member (.index (.ident request _)
      (.binary .plus (.lit (.str bo) _) (.lit (.str dy) _) _) _) method _)
      [.lit (.str suffix) _] _) =>
      request = js "request" && bo = js "bo" && dy = js "dy" && method = js "endsWith" &&
        suffix = js "x"
  | _ => false

theorem evalAst_computedKey (body : JsString) (s₁ s₂ s₃ s₄ s₅ s₆ s₇ s₈ : Span) :
    evalAst ⟨asciiHost, requestOf body, none⟩
      (.call (.member (.index (.ident "request" s₁)
        (.binary .plus (.lit (.str "bo") s₂) (.lit (.str "dy") s₃) s₄) s₅) "endsWith" s₆)
        [.lit (.str "x") s₇] s₈) = .ok (.bool (endsWith body "x")) := by
  have hfunction : ∀ args, evalFunction ⟨asciiHost, requestOf body, none⟩ "endsWith" args = none :=
    fun _ => rfl
  have hrequest : ownField (toEnv (requestOf body)) (js "request") =
      some (requestValue (requestOf body)) := rfl
  have hbody : lookup asciiHost (requestValue (requestOf body)) (.str "body") =
      .ok (.str body) := rfl
  have hkey : js "bo" ++ js "dy" = js "body" := rfl
  simp only [evalAst, calleeName, evalTarget, evalArgs, evalHas, evalCall, Option.bind_some,
    hfunction, hrequest, evalBinary, Literal.value, asString, bind, Except.bind, pure, Except.pure,
    hkey, hbody, Option.getD_some, evalMethod, requiredArg]
  rfl
theorem evalAst_of_isComputedKeyTree (body : JsString) {tree : Ast}
    (htree : isComputedKeyTree (.ok tree) = true) :
    evalAst ⟨asciiHost, requestOf body, none⟩ tree = .ok (.bool (endsWith body "x")) := by
  unfold isComputedKeyTree at htree
  split at htree
  · rename_i heq
    obtain rfl := Except.ok.inj heq
    simp only [Bool.and_eq_true, decide_eq_true_eq] at htree
    obtain ⟨⟨⟨⟨rfl, rfl⟩, rfl⟩, rfl⟩, rfl⟩ := htree
    exact evalAst_computedKey body _ _ _ _ _ _ _ _
  · cases htree

theorem resolveAction_of_fixed (opts : EvalOptions) (name : JsString) (rule : SecurityPolicyRule)
    (attributes : RequestAttributes) (limiter : Limiter) (hfixed : rateAction rule.action = none)
    (hphase : rule.isBodyPhase = false) :
    resolveAction opts name rule attributes limiter = (rule.action, limiter) := by
  simp [resolveAction, limitedAction, hfixed, hphase, phaseAction]

theorem evaluate_computedKeyPolicy (body : JsString) (limiter : Limiter) :
    (evaluate ⟨asciiHost, none⟩ computedKeyPolicy (requestOf body) limiter).1.enforced.map
        MatchedRule.action =
      some (if endsWith body "x" then "deny(403)" else "allow") := by
  have hparse : isComputedKeyTree (parseExpressionAst computedKey) = true := by decide +kernel
  have hphase : (expressionRule 1000 "deny(403)" computedKey).isBodyPhase = false := by
    decide +kernel
  have happlies : (expressionRule 1000 "deny(403)" computedKey).applies ⟨asciiHost, none⟩
      (requestOf body) = endsWith body "x" := by
    have hevaluate : evaluateExpression ⟨asciiHost, requestOf body, none⟩ computedKey =
        .ok (endsWith body "x") := by
      unfold evaluateExpression
      cases htree : parseExpressionAst computedKey with
      | error message =>
          rw [htree] at hparse
          cases hparse
      | ok tree =>
          rw [htree] at hparse
          simp only [evalAst_of_isComputedKeyTree body hparse]
    have hexpression : (expressionRule 1000 "deny(403)" computedKey).expression =
      some computedKey := by decide +kernel
    unfold SecurityPolicyRule.applies
    rw [if_neg (by simp [expressionRule]), hexpression]
    simp only [EvalOptions.context, hevaluate]
    simp
  have hsorted : computedKeyPolicy.sortedRules =
      [expressionRule 1000 "deny(403)" computedKey, allowAllRule] := by
    simp [SecurityPolicy.sortedRules, SecurityPolicy.ruleList, computedKeyPolicy, expressionRule,
      allowAllRule, defaultRulePriority]
  have hallow : allowAllRule.applies ⟨asciiHost, none⟩ (requestOf body) = true :=
    applies_of_all_sources rfl List.mem_cons_self _ _
  have hallowPhase : allowAllRule.isBodyPhase = false := rfl
  have hdeny := resolveAction_of_fixed ⟨asciiHost, none⟩ computedKeyPolicy.nameText
    (expressionRule 1000 "deny(403)" computedKey) (requestOf body) limiter rfl hphase
  have hpass := resolveAction_of_fixed ⟨asciiHost, none⟩ computedKeyPolicy.nameText
    allowAllRule (requestOf body) limiter rfl hallowPhase
  have hpreview : (expressionRule 1000 "deny(403)" computedKey).isPreview = false := rfl
  have hallowPreview : allowAllRule.isPreview = false := rfl
  simp only [evaluate, hsorted, walk, hphase, hallowPhase, Bool.false_eq_true, if_false, happlies,
    hallow, hdeny, hpass, hpreview, hallowPreview]
  cases endsWith body "x" with
  | true => simp [toMatchedRule, expressionRule]
  | false => simp [toMatchedRule, allowAllRule]

theorem endsWith_longBody (s : JsString) : endsWith (longBody s) s = true := by
  rw [endsWith, List.isSuffixOf_iff_suffix]
  exact List.suffix_append _ _

theorem not_endsWith_longBody : endsWith (longBody "y") "x" = false := by
  rw [endsWith, ← Bool.not_eq_true, List.isSuffixOf_iff_suffix]
  intro hsuffix
  have hlast := hsuffix.getLast (by decide)
  simp only [longBody] at hlast
  rw [List.getLast_append_of_ne_nil _ (by decide)] at hlast
  exact absurd hlast (by decide)

end Kinglet.Armor
