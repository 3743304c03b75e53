import Kinglet.Armor.Bucket
import Kinglet.Armor.Evaluate
import Kinglet.Library.Priority

/-!
# The priority walk

`reference` says what a policy does to a request without a walk: each rule has a view of the
request, the enforced rule is the least one that matches in its view and is not in preview, and the
preview rules that count are the matching ones below it. `evaluate_eq_reference` shows that the loop
of the source computes it, for rules of distinct priorities stored in any order.
-/

namespace Kinglet.Armor

open Js Library

namespace SecurityPolicy

variable (opts : EvalOptions) (policy : SecurityPolicy) (attributes : RequestAttributes)

def DistinctPriorities : Prop := (policy.ruleList.map (·.priority)).Nodup

instance : Decidable policy.DistinctPriorities := inferInstanceAs (Decidable (List.Nodup _))

/-! ## The reference -/

/-- Whether the body has been inspected by the time a priority is reached. -/
def inspectedBy (priority : ℕ) : Bool :=
  policy.ruleList.any fun rule => rule.isBodyPhase && decide (rule.priority ≤ priority)

/-- The view of the request that a rule of a priority is matched against. -/
def viewAt (priority : ℕ) : RequestAttributes :=
  if policy.inspectedBy priority then inspected opts policy attributes else attributes

/-- Whether the match condition of a rule holds for the request. -/
def holds (rule : SecurityPolicyRule) : Bool :=
  rule.applies opts (policy.viewAt opts attributes rule.priority)

/-- The enforced rule: the least one that matches and is not in preview. -/
def enforcedRule : Option SecurityPolicyRule :=
  (policy.ruleList.filter fun rule =>
    policy.holds opts attributes rule && !rule.isPreview).argmin (·.priority)

/-- The matching preview rules below the enforced one. -/
def previewRules : List SecurityPolicyRule :=
  policy.ruleList.filter fun rule =>
    policy.holds opts attributes rule && (rule.isPreview &&
      (policy.enforcedRule opts attributes).all fun e => decide (rule.priority < e.priority))

def previewRule : Option SecurityPolicyRule :=
  (policy.previewRules opts attributes).argmin (·.priority)

/-- A matching rule takes its action: what it reports, and the limiter after it. -/
def fire (rule : SecurityPolicyRule) (limiter : Limiter) : MatchedRule × Limiter :=
  let (action, limiter) := resolveAction opts policy.nameText rule
    (policy.viewAt opts attributes rule.priority) limiter
  (toMatchedRule rule action policy.nameText, limiter)

/-- The limiter after some rules have fired one after the other. -/
def fireAll (rules : List SecurityPolicyRule) (limiter : Limiter) : Limiter :=
  rules.foldl (fun limiter rule => (policy.fire opts attributes rule limiter).2) limiter

/-- The result: the first preview rule fires on the limiter as it is, the enforced rule after all
preview rules below it. -/
def reference (limiter : Limiter) : EvaluationResult × Limiter :=
  let previews := (policy.previewRules opts attributes).insertionSort fun a b =>
    a.priority ≤ b.priority
  let before := policy.fireAll opts attributes previews limiter
  let preview := (policy.previewRule opts attributes).map fun rule =>
    (policy.fire opts attributes rule limiter).1
  match policy.enforcedRule opts attributes with
  | none => (⟨none, preview⟩, before)
  | some rule =>
      let (record, after) := policy.fire opts attributes rule before
      (⟨some record, preview⟩, after)

end SecurityPolicy

section Walk

variable {opts : EvalOptions} {policy : SecurityPolicy} {attributes : RequestAttributes}

open SecurityPolicy

/-! ## The walk over the matching rules -/

/-- The rest of the walk when every remaining rule matches. -/
def walkMatching (opts : EvalOptions) (policy : SecurityPolicy) (attributes : RequestAttributes) :
    List SecurityPolicyRule → Option MatchedRule → Limiter → EvaluationResult × Limiter
  | [], preview, limiter => (⟨none, preview⟩, limiter)
  | rule :: rules, preview, limiter =>
      let (record, limiter) := policy.fire opts attributes rule limiter
      if rule.isPreview then
        walkMatching opts policy attributes rules (preview.or (some record)) limiter
      else (⟨some record, preview⟩, limiter)

/-- Before a rule of an increasing list the view depends on the rules in front of it. -/
theorem inspectedBy_of_sorted {front rest : List SecurityPolicyRule} {rule : SecurityPolicyRule}
    (hsorted : Increasing (·.priority) (front ++ rule :: rest))
    (hperm : policy.ruleList.Perm (front ++ rule :: rest)) :
    policy.inspectedBy rule.priority = (rule.isBodyPhase || front.any (·.isBodyPhase)) := by
  obtain ⟨-, hrest, hfront⟩ := List.pairwise_append.1 hsorted
  have hbehind : ∀ other ∈ rest, ¬ other.priority ≤ rule.priority := fun other hother =>
    ((List.pairwise_cons.1 hrest).1 other hother).not_ge
  have hahead : ∀ other ∈ front, other.priority ≤ rule.priority := fun other hother =>
    (hfront other hother rule List.mem_cons_self).le
  rw [Bool.eq_iff_iff]
  simp only [inspectedBy, List.any_eq_true, Bool.and_eq_true, decide_eq_true_eq,
    Bool.or_eq_true]
  constructor
  · rintro ⟨other, hother, hbody, hle⟩
    rcases List.mem_append.1 (hperm.subset hother) with hmem | hmem
    · exact .inr ⟨other, hmem, hbody⟩
    · rcases List.mem_cons.1 hmem with rfl | hmem
      · exact .inl hbody
      · exact absurd hle (hbehind other hmem)
  · rintro (hbody | ⟨other, hother, hbody⟩)
    · exact ⟨rule, hperm.symm.subset (by simp), hbody, le_rfl⟩
    · exact ⟨other, hperm.symm.subset (by simp [hother]), hbody, hahead other hother⟩

/-- The walk only ever stops at matching rules, and each is matched and fired in its own view. The
induction is on the rules still ahead, with those behind fixing the current view. -/
theorem walk_eq_walkMatching {front rest : List SecurityPolicyRule}
    (hsorted : Increasing (·.priority) (front ++ rest))
    (hperm : policy.ruleList.Perm (front ++ rest)) {current : RequestAttributes}
    (hcurrent : current =
      if front.any (·.isBodyPhase) then inspected opts policy attributes else attributes)
    (preview : Option MatchedRule) (limiter : Limiter) :
    walk opts policy attributes rest current preview limiter =
      walkMatching opts policy attributes (rest.filter (policy.holds opts attributes)) preview
        limiter := by
  induction rest generalizing front current preview limiter with
  | nil => rfl
  | cons rule rest ih =>
      have hview : policy.viewAt opts attributes rule.priority =
          if rule.isBodyPhase then inspected opts policy attributes else current := by
        rw [viewAt, inspectedBy_of_sorted hsorted hperm, hcurrent]
        cases rule.isBodyPhase <;> simp
      have happend : front ++ rule :: rest = (front ++ [rule]) ++ rest := by simp
      have hnext : policy.viewAt opts attributes rule.priority =
          if (front ++ [rule]).any (·.isBodyPhase) then inspected opts policy attributes
          else attributes := by
        rw [viewAt, inspectedBy_of_sorted hsorted hperm]
        simp [Bool.or_comm]
      rw [happend] at hsorted hperm
      have hih := ih hsorted hperm hnext
      rw [walk]
      simp only [← hview]
      by_cases hholds : policy.holds opts attributes rule = true
      · have happlies : rule.applies opts (policy.viewAt opts attributes rule.priority) = true :=
          hholds
        rw [List.filter_cons_of_pos hholds, walkMatching, if_neg (by simp [happlies])]
        simp only [hih, fire]
      · have happlies : rule.applies opts (policy.viewAt opts attributes rule.priority) = false := by
          simpa [SecurityPolicy.holds] using hholds
        rw [List.filter_cons_of_neg hholds, if_pos (by simp [happlies])]
        exact hih preview limiter

/-- The walk over matching rules: the previews before the first rule that is enforced. -/
theorem walkMatching_eq (rules : List SecurityPolicyRule) (preview : Option MatchedRule)
    (limiter : Limiter) :
    walkMatching opts policy attributes rules preview limiter =
      let before := policy.fireAll opts attributes (rules.takeWhile (·.isPreview)) limiter
      let preview := preview.or ((rules.takeWhile (·.isPreview)).head?.map fun rule =>
        (policy.fire opts attributes rule limiter).1)
      match rules.find? fun rule => !rule.isPreview with
      | none => (⟨none, preview⟩, before)
      | some rule =>
          (⟨some (policy.fire opts attributes rule before).1, preview⟩,
            (policy.fire opts attributes rule before).2) := by
  induction rules generalizing preview limiter with
  | nil => simp [walkMatching, fireAll]
  | cons rule rules ih =>
      rw [walkMatching]
      by_cases hpreview : rule.isPreview = true
      · have hor : ∀ later : Option MatchedRule,
            (preview.or (some (policy.fire opts attributes rule limiter).1)).or later =
              preview.or (some (policy.fire opts attributes rule limiter).1) := fun later => by
          cases preview <;> rfl
        simp only [hpreview, if_true, ih, hor, List.takeWhile_cons_of_pos, List.head?_cons,
          Option.map_some, List.find?_cons, Bool.not_true]
        rfl
      · simp [hpreview, fireAll]

/-! ## Main results -/

theorem walkMatching_reference (hdistinct : policy.DistinctPriorities) (limiter : Limiter) :
    walkMatching opts policy attributes
        (policy.sortedRules.filter (policy.holds opts attributes)) none limiter =
      policy.reference opts attributes limiter := by
  have hsorted : Increasing (·.priority) policy.sortedRules := increasing_insertionSort hdistinct
  have hmatching := hsorted.filter (policy.holds opts attributes)
  have henforced : (policy.sortedRules.filter (policy.holds opts attributes)).find?
      (fun rule => !rule.isPreview) = policy.enforcedRule opts attributes := by
    rw [List.find?_filter, sortedRules, find?_insertionSort hdistinct, enforcedRule]
    simp only [Bool.decide_and, Bool.decide_eq_true]
  have hpreviews : (policy.sortedRules.filter (policy.holds opts attributes)).takeWhile
      (·.isPreview) = (policy.previewRules opts attributes).insertionSort fun a b =>
        a.priority ≤ b.priority := by
    rw [hmatching.takeWhile_eq_filter, henforced, List.filter_filter, sortedRules,
      insertionSort_filter hdistinct, previewRules]
    simp only [Bool.and_comm]
  have hleast : ((policy.previewRules opts attributes).insertionSort fun a b =>
      a.priority ≤ b.priority).head? = policy.previewRule opts attributes := by
    have hnodup : ((policy.previewRules opts attributes).map (·.priority)).Nodup :=
      hdistinct.sublist (List.filter_sublist.map _)
    have hfirst := (increasing_insertionSort hnodup).argmin_eq_head?
    rw [← hfirst]
    exact argmin_eq_of_perm (increasing_insertionSort hnodup).nodup_map
      (List.perm_insertionSort _ _)
  rw [walkMatching_eq, henforced, hpreviews, hleast]
  simp only [Option.none_or, reference]

/-- **The walk computes the reference.** -/
theorem evaluate_eq_reference (hdistinct : policy.DistinctPriorities) (limiter : Limiter) :
    evaluate opts policy attributes limiter = policy.reference opts attributes limiter := by
  have hsorted : Increasing (·.priority) policy.sortedRules := increasing_insertionSort hdistinct
  have hperm : policy.ruleList.Perm policy.sortedRules := (List.perm_insertionSort _ _).symm
  have hwalk := @walk_eq_walkMatching opts policy attributes [] _ hsorted hperm _ rfl none limiter
  exact hwalk.trans (walkMatching_reference hdistinct limiter)

/-- A matching rule that is not in preview gives the reference an enforced rule. -/
theorem exists_enforcedRule {rule : SecurityPolicyRule} (hrule : rule ∈ policy.ruleList)
    (hholds : policy.holds opts attributes rule = true) (hpreview : rule.isPreview = false) :
    ∃ e, policy.enforcedRule opts attributes = some e := by
  cases h : policy.enforcedRule opts attributes with
  | some e => exact ⟨e, rfl⟩
  | none =>
      have hempty := List.argmin_eq_none.1 h
      have hmem : rule ∈ policy.ruleList.filter fun rule =>
          policy.holds opts attributes rule && !rule.isPreview :=
        List.mem_filter.2 ⟨hrule, by simp [hholds, hpreview]⟩
      rw [hempty] at hmem
      exact absurd hmem List.not_mem_nil

/-! ## Order of the list -/

/-- The walk itself does not read the list of rules. -/
theorem walk_withRules (stored : Option (List SecurityPolicyRule))
    (rules : List SecurityPolicyRule) (current : RequestAttributes) (preview : Option MatchedRule)
    (limiter : Limiter) :
    walk opts { policy with rules := stored } attributes rules current preview limiter =
      walk opts policy attributes rules current preview limiter := by
  induction rules generalizing current preview limiter with
  | nil => rfl
  | cons rule rules ih =>
      simp only [walk, ih]
      rfl

/-- **The result does not depend on the order in which the rules are stored.** -/
theorem evaluate_of_perm (hdistinct : policy.DistinctPriorities) {rules : List SecurityPolicyRule}
    (hperm : rules.Perm policy.ruleList) (limiter : Limiter) :
    evaluate opts { policy with rules := some rules } attributes limiter =
      evaluate opts policy attributes limiter := by
  have hsorted : SecurityPolicy.sortedRules { policy with rules := some rules } =
      policy.sortedRules :=
    (insertionSort_eq_of_perm hdistinct hperm.symm).symm
  rw [evaluate, evaluate, hsorted, walk_withRules]

/-! ## Buckets the walk leaves alone -/

theorem resolveAction_bucket (rule : SecurityPolicyRule) {view : RequestAttributes}
    {limiter : Limiter} {name : JsString} {priority : ℕ} (hne : rule.priority ≠ priority)
    (clientKey : JsString) :
    (resolveAction opts name rule view limiter).2.store.bucket
        (bucketKey name priority clientKey) =
      limiter.store.bucket (bucketKey name priority clientKey) := by
  rw [resolveAction]
  rcases limitedAction_cases opts name rule with ⟨fixed, h⟩ | ⟨action, options, h⟩
  · rw [h]
  · rw [h]
    exact chargeBucket_bucket_of_ne _ _ _ _ _ fun h => hne (bucketKey_right_inj h).1.symm

theorem fireAll_bucket {rules : List SecurityPolicyRule} {priority : ℕ}
    (hne : ∀ rule ∈ rules, rule.priority ≠ priority) (limiter : Limiter) (clientKey : JsString) :
    (policy.fireAll opts attributes rules limiter).store.bucket
        (bucketKey policy.nameText priority clientKey) =
      limiter.store.bucket (bucketKey policy.nameText priority clientKey) := by
  induction rules generalizing limiter with
  | nil => rfl
  | cons rule rules ih =>
      have hrest := ih (fun other hother => hne other (List.mem_cons_of_mem rule hother))
        (policy.fire opts attributes rule limiter).2
      exact hrest.trans (resolveAction_bucket rule (hne rule List.mem_cons_self) clientKey)

/-- Only rules up to the enforced one are charged. -/
theorem evaluate_bucket (hdistinct : policy.DistinctPriorities) (limiter : Limiter)
    {e : SecurityPolicyRule} (henforced : policy.enforcedRule opts attributes = some e)
    {priority : ℕ} (hlt : e.priority < priority) (clientKey : JsString) :
    (evaluate opts policy attributes limiter).2.store.bucket
        (bucketKey policy.nameText priority clientKey) =
      limiter.store.bucket (bucketKey policy.nameText priority clientKey) := by
  have hpreviews : ∀ rule ∈ (policy.previewRules opts attributes).insertionSort
      (fun a b => a.priority ≤ b.priority), rule.priority ≠ priority := by
    intro rule hrule
    have hmem := (List.mem_filter.1 ((List.mem_insertionSort _).1 hrule)).2
    simp only [henforced, Option.all_some, Bool.and_eq_true, decide_eq_true_eq] at hmem
    omega
  rw [evaluate_eq_reference hdistinct, reference, henforced]
  exact (resolveAction_bucket e hlt.ne clientKey).trans (fireAll_bucket hpreviews limiter clientKey)

/-! ## Correctness -/

/-- **Priority-walk correctness.** -/
theorem priority_walk_correct (opts : EvalOptions) (policy : SecurityPolicy)
    (attributes : RequestAttributes) (limiter : Limiter) (hdistinct : policy.DistinctPriorities)
    (hdefault : ∃ rule ∈ policy.ruleList, rule.isPreview = false ∧
      rule.condition.bind (·.versionedExpr) = some (js "SRC_IPS_V1") ∧
      js "*" ∈ ((rule.condition.bind (·.config)).bind (·.srcIpRanges)).getD []) :
    evaluate opts policy attributes limiter = policy.reference opts attributes limiter ∧
      (∀ rules : List SecurityPolicyRule, rules.Perm policy.ruleList →
        evaluate opts { policy with rules := some rules } attributes limiter =
          evaluate opts policy attributes limiter) ∧
      ∃ e, policy.enforcedRule opts attributes = some e ∧
        ∀ rule ∈ policy.ruleList, e.priority < rule.priority → ∀ clientKey : JsString,
          (evaluate opts policy attributes limiter).2.store.bucket
              (bucketKey policy.nameText rule.priority clientKey) =
            limiter.store.bucket (bucketKey policy.nameText rule.priority clientKey) := by
  obtain ⟨default, hmem, hpreview, hversion, hall⟩ := hdefault
  obtain ⟨e, he⟩ := exists_enforcedRule hmem (applies_of_all_sources hversion hall opts _) hpreview
  refine ⟨evaluate_eq_reference hdistinct limiter, fun rules hperm => ?_, e, he, ?_⟩
  · exact evaluate_of_perm hdistinct hperm limiter
  · intro rule _ hlt clientKey
    exact evaluate_bucket hdistinct limiter he hlt clientKey

end Walk

/-- A preview rule in front of the default rule, stored behind it. -/
def samplePolicy : SecurityPolicy where
  name := some "edge"
  rules := some [
    { priority := defaultRulePriority, action := "allow", preview := none
      condition := some ⟨some "SRC_IPS_V1", some ⟨some ["*"]⟩, none⟩
      rateLimitOptions := none, headerAction := none },
    { priority := 1000, action := "deny(403)", preview := some true
      condition := some ⟨none, none, some ⟨some "request.path.startsWith('/admin')"⟩⟩
      rateLimitOptions := none, headerAction := none }]
  advancedOptionsConfig := none

theorem priority_walk_correct_sample :
    evaluate ⟨asciiHost, none⟩ samplePolicy sampleRequest ⟨emptyStore, fun _ => 0⟩ =
      samplePolicy.reference ⟨asciiHost, none⟩ sampleRequest ⟨emptyStore, fun _ => 0⟩ :=
  (priority_walk_correct ⟨asciiHost, none⟩ samplePolicy sampleRequest ⟨emptyStore, fun _ => 0⟩
    (by decide) ⟨_, List.mem_cons_self, rfl, rfl, List.mem_cons_self⟩).1

example : (evaluate ⟨asciiHost, none⟩ samplePolicy sampleRequest ⟨emptyStore, fun _ => 0⟩).1 =
    ⟨some ⟨some "edge", defaultRulePriority, "allow", "ALLOW"⟩,
      some ⟨some "edge", 1000, "deny(403)", "DENY"⟩⟩ := by
  decide +kernel

end Kinglet.Armor
