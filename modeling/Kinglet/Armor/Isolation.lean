import Kinglet.Armor.Bucket
import Kinglet.Armor.Evaluate
import Kinglet.Library.Purge

/-!
# Isolation of policies

One limiter serves all stored policies, and a bucket belongs to a policy by the policy's name alone.
`isolated_iff` says what that gives: the policies of a set do not disturb each other exactly when
their names are pairwise distinct. The project of a policy and whether it was deleted and inserted
again play no part.
-/

namespace Kinglet.Armor

open Js Library

/-- A stored policy: its self link names the project and the policy, and a policy inserted again
under the same self link is another one. -/
structure StoredPolicyId where
  project : JsString
  name : JsString
  incarnation : ℕ
deriving DecidableEq

/-- A request evaluated against a stored policy, with the rules the policy has at that time and the
readings of the clock. -/
structure PolicyEvent where
  id : StoredPolicyId
  policy : SecurityPolicy
  attributes : RequestAttributes
  clock : ℕ → ℕ

/-- The event is about a policy of the set, stored under its name. -/
def PolicyEvent.Of (S : Set StoredPolicyId) (event : PolicyEvent) : Prop :=
  event.id ∈ S ∧ event.policy.name = some event.id.name

/-- Evaluate a request on the shared counters. -/
def evaluateEvent (opts : EvalOptions) (store : RateLimitStore) (event : PolicyEvent) :
    EvaluationResult × RateLimitStore :=
  let (result, limiter) := evaluate opts event.policy event.attributes ⟨store, event.clock⟩
  (result, limiter.store)

/-- **Isolation.** In any history of requests to the policies of a set, a request is answered as in
the history of its own policy. -/
def Isolated (opts : EvalOptions) (S : Set StoredPolicyId) : Prop :=
  ∀ (events : List PolicyEvent) (event : PolicyEvent),
    (∀ e ∈ events, e.Of S) → event.Of S →
    (evaluateEvent opts (runEvents (evaluateEvent opts) emptyStore events) event).1 =
      (evaluateEvent opts (runEvents (evaluateEvent opts) emptyStore
        (events.filter fun e => e.id = event.id)) event).1

/-! ## The buckets of a name -/

/-- Two stores agree on the buckets of a policy name. -/
def AgreeOn (name : JsString) (s t : RateLimitStore) : Prop :=
  ∀ (priority : ℕ) (clientKey : JsString),
    s.bucket (bucketKey name priority clientKey) = t.bucket (bucketKey name priority clientKey)

/-- Two limiters agree on the buckets of a policy name and give the same readings. -/
def LimitersAgree (name : JsString) (l m : Limiter) : Prop :=
  AgreeOn name l.store m.store ∧ l.clock = m.clock

section Agreement

variable (opts : EvalOptions) {policy : SecurityPolicy} (attributes : RequestAttributes)
  {name : JsString} {l m : Limiter}

theorem LimitersAgree.charge (h : LimitersAgree name l m) (action : RateAction)
    (options : RateLimitOptions) (mode : RateMode) (priority : ℕ) (clientKey : JsString) :
    (l.charge action options mode (bucketKey name priority clientKey)).1 =
        (m.charge action options mode (bucketKey name priority clientKey)).1 ∧
      LimitersAgree name (l.charge action options mode (bucketKey name priority clientKey)).2
        (m.charge action options mode (bucketKey name priority clientKey)).2 := by
  obtain ⟨hstore, hclock⟩ := h
  simp only [Limiter.charge, LimitersAgree, hclock, and_true]
  refine ⟨by rw [chargeBucket_fst, chargeBucket_fst, hstore], fun p k => ?_⟩
  by_cases hkey : bucketKey name p k = bucketKey name priority clientKey
  · rw [hkey, chargeBucket_bucket, chargeBucket_bucket, hstore]
  · rw [chargeBucket_bucket_of_ne _ _ _ _ _ hkey, chargeBucket_bucket_of_ne _ _ _ _ _ hkey, hstore]

theorem LimitersAgree.resolveAction (h : LimitersAgree name l m) (rule : SecurityPolicyRule)
    (view : RequestAttributes) :
    (resolveAction opts name rule view l).1 = (resolveAction opts name rule view m).1 ∧
      LimitersAgree name (resolveAction opts name rule view l).2
        (resolveAction opts name rule view m).2 := by
  unfold Armor.resolveAction
  rcases limitedAction_cases opts name rule with ⟨fixed, hcase⟩ | ⟨action, options, hcase⟩
  · rw [hcase, hcase]
    exact ⟨rfl, h⟩
  · rw [hcase, hcase]
    obtain ⟨hresult, hlimiters⟩ := h.charge action options
      (if rule.isPreview then .preview else .commit) rule.priority
      (buildClientKey opts.host options view)
    exact ⟨congrArg (phaseAction rule.isBodyPhase) hresult, hlimiters⟩

/-- The walk depends on the counters through the buckets of the policy's name. -/
theorem LimitersAgree.walk (h : LimitersAgree policy.nameText l m) (rules : List SecurityPolicyRule)
    (current : RequestAttributes) (preview : Option MatchedRule) :
    (walk opts policy attributes rules current preview l).1 =
        (walk opts policy attributes rules current preview m).1 ∧
      LimitersAgree policy.nameText (walk opts policy attributes rules current preview l).2
        (walk opts policy attributes rules current preview m).2 := by
  induction rules generalizing current preview l m with
  | nil => exact ⟨rfl, h⟩
  | cons rule rules ih =>
      simp only [Armor.walk]
      generalize (if rule.isBodyPhase then inspected opts policy attributes else current) = view
      by_cases happlies : rule.applies opts view = true
      · obtain ⟨haction, hlimiters⟩ := h.resolveAction opts rule view
        rw [happlies, haction]
        simp only [Bool.not_true, Bool.false_eq_true, if_false]
        split
        · exact ih hlimiters _ _
        · exact ⟨rfl, hlimiters⟩
      · rw [Bool.not_eq_true] at happlies
        rw [happlies]
        exact ih h _ _

/-- The walk leaves the buckets of every other name alone. -/
theorem AgreeOn.walk_other (hne : name ≠ policy.nameText) (hname : (0 : UInt16) ∉ name)
    (hpolicy : (0 : UInt16) ∉ policy.nameText) (rules : List SecurityPolicyRule)
    (current : RequestAttributes) (preview : Option MatchedRule) (limiter : Limiter) :
    AgreeOn name (walk opts policy attributes rules current preview limiter).2.store
      limiter.store := by
  induction rules generalizing current preview limiter with
  | nil => exact fun _ _ => rfl
  | cons rule rules ih =>
      simp only [Armor.walk]
      generalize (if rule.isBodyPhase then inspected opts policy attributes else current) = view
      have hfire : AgreeOn name (resolveAction opts policy.nameText rule view limiter).2.store
          limiter.store := by
        intro p k
        have hkey : ∀ q j, bucketKey name p k ≠ bucketKey policy.nameText q j := fun q j h =>
          hne (bucketKey_left_inj hname hpolicy h)
        unfold Armor.resolveAction
        rcases limitedAction_cases opts policy.nameText rule with
          ⟨fixed, hcase⟩ | ⟨action, options, hcase⟩
        · rw [hcase]
        · rw [hcase]
          exact chargeBucket_bucket_of_ne _ _ _ _ _ (hkey _ _)
      split
      · exact ih _ _ _
      · split
        · exact fun p k => (ih _ _ _ p k).trans (hfire p k)
        · exact hfire

end Agreement

/-! ## Distinct names suffice -/

/-- Policies of distinct names are separated by the buckets of their names. -/
theorem events_separate (opts : EvalOptions) {S : Set StoredPolicyId}
    (hnul : ∀ id ∈ S, (0 : UInt16) ∉ id.name) (hinj : S.InjOn StoredPolicyId.name) :
    Separates (evaluateEvent opts) PolicyEvent.id (PolicyEvent.Of S)
      fun i s t => i ∈ S → AgreeOn i.name s t where
  own event s t hvalid hagree := by
    have hname : event.policy.nameText = event.id.name := by
      rw [SecurityPolicy.nameText, hvalid.2]
      rfl
    have hlimiters : LimitersAgree event.policy.nameText ⟨s, event.clock⟩ ⟨t, event.clock⟩ :=
      ⟨hname ▸ hagree hvalid.1, rfl⟩
    obtain ⟨hresult, hstore, -⟩ := hlimiters.walk opts event.attributes
      event.policy.sortedRules event.attributes none
    exact ⟨hresult, fun _ => hname ▸ hstore⟩
  other event i s t hvalid hne hagree hi := by
    have hname : event.policy.nameText = event.id.name := by
      rw [SecurityPolicy.nameText, hvalid.2]
      rfl
    have hnames : i.name ≠ event.policy.nameText := by
      rw [hname]
      exact fun h => hne (hinj hvalid.1 hi h.symm)
    have hother := AgreeOn.walk_other opts event.attributes hnames (hnul i hi)
      (hname ▸ hnul event.id hvalid.1) event.policy.sortedRules event.attributes none
      ⟨s, event.clock⟩
    exact fun p k => (hother p k).trans (hagree hi p k)

/-! ## Distinct names are needed -/

/-- One request a minute, whoever sends it. -/
def onceOptions : RateLimitOptions where
  rateLimitThreshold := some ⟨some 1, some 60⟩
  banThreshold := none
  banDurationSec := none
  conformAction := none
  exceedAction := none
  enforceOnKey := none
  enforceOnKeyName := none
  enforceOnKeyConfigs := none

def onceRule : SecurityPolicyRule where
  priority := 1000
  action := "throttle"
  preview := none
  condition := some ⟨some "SRC_IPS_V1", some ⟨some ["*"]⟩, none⟩
  rateLimitOptions := some onceOptions
  headerAction := none

def onceEvent (id : StoredPolicyId) : PolicyEvent :=
  ⟨id, ⟨some id.name, some [onceRule], none⟩, sampleRequest, fun _ => 0⟩

/-- The bucket all requests to `onceRule` share. -/
def onceBucket (id : StoredPolicyId) : JsString := bucketKey id.name 1000 "ALL"

theorem evaluate_onceEvent (opts : EvalOptions) (id : StoredPolicyId) (store : RateLimitStore) :
    evaluateEvent opts store (onceEvent id) =
      let (action, store) := chargeBucket .throttle onceOptions .commit (onceBucket id) 0 store
      (⟨some (toMatchedRule onceRule action id.name), none⟩, store) := by
  have happlies : onceRule.applies opts sampleRequest = true :=
    applies_of_all_sources rfl List.mem_cons_self opts sampleRequest
  have hsorted : SecurityPolicy.sortedRules ⟨some id.name, some [onceRule], none⟩ = [onceRule] :=
    rfl
  simp only [evaluateEvent, onceEvent, evaluate, hsorted, walk]
  rw [show onceRule.isBodyPhase = false from rfl]
  simp only [Bool.false_eq_true, if_false, happlies, Bool.not_true]
  rfl

/-- The second request to policies of one name within a minute is denied. -/
theorem not_isolated_of_same_name (opts : EvalOptions) {S : Set StoredPolicyId}
    {i j : StoredPolicyId} (hi : i ∈ S) (hj : j ∈ S) (hne : i ≠ j) (hname : i.name = j.name) :
    ¬ Isolated opts S := by
  intro h
  have hshared : onceBucket i = onceBucket j := by rw [onceBucket, onceBucket, hname]
  have hresults := h [onceEvent i] (onceEvent j) (by simp [PolicyEvent.Of, onceEvent, hi])
    ⟨hj, rfl⟩
  have hpurged : [onceEvent i].filter (fun e => e.id = (onceEvent j).id) = [] := by
    simp [onceEvent, hne]
  rw [hpurged] at hresults
  simp only [runEvents, List.foldl_cons, List.foldl_nil, evaluate_onceEvent] at hresults
  have hactions := congrArg (fun r : EvaluationResult => r.enforced.map MatchedRule.action) hresults
  simp only [toMatchedRule, Option.map_some, chargeBucket_fst, hshared, chargeBucket_bucket]
    at hactions
  rw [show emptyStore.bucket (onceBucket j) = ⟨none, none, none⟩ from rfl] at hactions
  exact absurd hactions (by decide)

/-- **Policies are isolated exactly when no two of them share a name.** -/
theorem isolated_iff (opts : EvalOptions) (S : Set StoredPolicyId)
    (hnul : ∀ id ∈ S, (0 : UInt16) ∉ id.name) :
    Isolated opts S ↔ S.InjOn StoredPolicyId.name := by
  constructor
  · intro h i hi j hj hname
    by_contra hne
    exact not_isolated_of_same_name opts hi hj hne hname h
  · intro hinj events event hevents hevent
    exact (events_separate opts hnul hinj).output_filter hevents hevent fun _ _ _ => rfl

/-- Two projects, one policy name. -/
theorem not_isolated_across_projects :
    ¬ Isolated ⟨asciiHost, none⟩ {⟨"alpha", "edge", 0⟩, ⟨"beta", "edge", 0⟩} :=
  not_isolated_of_same_name ⟨asciiHost, none⟩ (i := ⟨"alpha", "edge", 0⟩)
    (j := ⟨"beta", "edge", 0⟩) (by simp) (by simp) (by decide) rfl

theorem isolated_iff_two_policies :
    Isolated ⟨asciiHost, none⟩ {⟨"alpha", "edge", 0⟩, ⟨"alpha", "core", 0⟩} ↔
      Set.InjOn StoredPolicyId.name {⟨"alpha", "edge", 0⟩, ⟨"alpha", "core", 0⟩} :=
  isolated_iff ⟨asciiHost, none⟩ {⟨"alpha", "edge", 0⟩, ⟨"alpha", "core", 0⟩} (by
    rintro id (rfl | rfl) <;> decide)

end Kinglet.Armor
