import Kinglet.Discovery.ServiceRegistry
import Mathlib.Data.List.Pairwise

/-!
# One registration at a time

The services, the health records and the name index stay about the same registrations as long as each check
completes while the registration it was made for stands, and a failed one with no more failures than the
record it replaces. Then a record counts no more failures than the registration's own last checks, and a timer
that finds enough of them removes a service that has failed as often.
-/

namespace Kinglet.Discovery

open Js Library

/-! ## Streaks of failures -/

/-- The failures since the last success. -/
def streak (results : List Bool) : ℕ := (results.reverse.takeWhile id).length

/-- The last `n` checks have all failed. -/
def LastFailed (n : ℕ) (results : List Bool) : Prop :=
  n ≤ results.length ∧ ∀ failed ∈ results.reverse.take n, failed = true

theorem streak_append (results : List Bool) (failed : Bool) :
    streak (results ++ [failed]) = if failed then streak results + 1 else 0 := by
  cases failed <;> simp [streak]

theorem lastFailed_of_le_streak {n : ℕ} {results : List Bool} (h : n ≤ streak results) :
    LastFailed n results := by
  have htake : results.reverse.take (streak results) = results.reverse.takeWhile id :=
    List.prefix_iff_eq_take.1 (List.takeWhile_prefix id) |>.symm
  refine ⟨h.trans ?_, fun failed hfailed => ?_⟩
  · rw [← List.length_reverse]
    exact (List.takeWhile_prefix id).length_le
  · have hmem : failed ∈ results.reverse.takeWhile id := by
      rw [← htake]
      exact (List.take_prefix_take_left h).subset hfailed
    exact List.mem_takeWhile_imp hmem

/-! ## What is kept -/

structure Consistent (config : RegistryConfig) (registry : ServiceRegistry) : Prop where
  health : ∀ id, (registry.serviceHealth id).isSome ↔ (registry.getService id).isSome
  index : ∀ id, (∃ name ids, registry.servicesByName name = some ids ∧ id ∈ ids) ↔
    (registry.getService id).isSome
  current : ∀ id health service, registry.serviceHealth id = some health →
    registry.getService id = some service →
    health.registration = service.registration ∧
      health.consecutiveFailures ≤ streak (registry.results service.registration)
  dismissals : ∀ results ∈ registry.dismissals, LastFailed config.maxConsecutiveFailures results

/-- The registration a check was made for stands, and its failure is counted on top of no more failures than
the record has. -/
def Current (registry : ServiceRegistry) (check : HealthCheck) (result : HealthResult) : Bool :=
  match registry.getService check.service.definition.id,
    registry.serviceHealth check.service.definition.id with
  | some service, some health =>
      service.registration = check.service.registration &&
        (!result.failed || check.currentHealth.consecutiveFailures ≤ health.consecutiveFailures)
  | _, _ => false

/-- Every check completes while it is current. -/
def Orderly (pool : Pool ServiceRegistry RegistryCall RegistryOutcome) :
    Move RegistryRequest Input → Prop
  | .start _ => True
  | .resume index input =>
      match pool.calls[index]? with
      | some (.checking _ check) => Current pool.shared check input.result = true
      | _ => True

/-! ## The services -/

/-- Two registrations of different ids. -/
def Apart (a b : Registered) : Prop := a.definition.id ≠ b.definition.id ∧ a.registration ≠ b.registration

instance : Std.Symm Apart := ⟨fun _ _ h => ⟨h.1.symm, h.2.symm⟩⟩

section services

variable {registry : ServiceRegistry} {service : Registered} {id : JsString}

theorem mem_of_getService (h : registry.getService id = some service) :
    service ∈ registry.services ∧ service.definition.id = id :=
  ⟨List.mem_of_find?_eq_some h, by simpa using List.find?_some h⟩

theorem getService_of_mem (hids : registry.services.Pairwise Apart) (h : service ∈ registry.services) :
    registry.getService service.definition.id = some service := by
  cases hfound : registry.getService service.definition.id with
  | none => simpa using List.find?_eq_none.1 hfound service h
  | some other =>
    obtain ⟨hother, hid⟩ := mem_of_getService hfound
    by_contra hne
    have hdiffer : other ≠ service := fun heq => hne (congrArg some heq)
    exact (hids.forall hother h hdiffer).1 hid

theorem getService_isSome_iff :
    (registry.getService id).isSome ↔ ∃ service ∈ registry.services, service.definition.id = id := by
  rw [ServiceRegistry.getService, List.find?_isSome]
  simp

theorem getService_enrol {definition : ServiceDefinition} {now : ℕ}
    (habsent : registry.getService definition.id = none) :
    (registry.enrol definition now).getService id =
      if definition.id = id then some ⟨definition, registry.registrations⟩ else registry.getService id := by
  have hsplit : (registry.enrol definition now).getService id =
      (registry.getService id).or
        (if definition.id = id then some ⟨definition, registry.registrations⟩ else none) := by
    change (registry.services ++ [_]).find? _ = _
    rw [List.find?_append, List.find?_singleton]
    simp [ServiceRegistry.getService]
  rw [hsplit]
  split
  · next heq => rw [← heq, habsent, Option.none_or]
  · exact Option.or_none

theorem getService_deregister (h : registry.getService id = some service) (id' : JsString) :
    (registry.deregisterService id).2.getService id' =
      if id' = id then none else registry.getService id' := by
  have hfilter : (registry.deregisterService id).2.getService id' =
      (registry.services.filter fun other => other.definition.id ≠ id).find? fun service =>
        service.definition.id = id' := by
    rw [ServiceRegistry.deregisterService, h]
    dsimp only
    rw [ServiceRegistry.removeFromNameIndex]
    split <;> rfl
  rw [hfilter, List.find?_filter]
  split
  · next heq =>
      rw [List.find?_eq_none]
      rintro other - hboth
      simp [heq] at hboth
  · next hne =>
      rw [ServiceRegistry.getService]
      congr 1
      funext other
      by_cases hid : other.definition.id = id' <;> simp [hid, hne]

end services

/-- The invariant. -/
structure Kept (config : RegistryConfig) (registry : ServiceRegistry) : Prop where
  apart : registry.services.Pairwise Apart
  fresh : ∀ service ∈ registry.services, service.registration < registry.registrations
  index : ∀ name id, (∃ ids, registry.servicesByName name = some ids ∧ id ∈ ids) ↔
    ∃ service ∈ registry.services, service.definition.id = id ∧ service.definition.name = name
  health : ∀ id, (registry.serviceHealth id).isSome ↔ (registry.getService id).isSome
  current : ∀ id health service, registry.serviceHealth id = some health →
    registry.getService id = some service →
    health.registration = service.registration ∧
      health.consecutiveFailures ≤ streak (registry.results service.registration)
  dismissals : ∀ results ∈ registry.dismissals, LastFailed config.maxConsecutiveFailures results

@[simp] theorem healthUpdate_registration (check : HealthCheck) (result : HealthResult) (now : ℕ) :
    (check.healthUpdate result now).registration = check.currentHealth.registration := by
  unfold HealthCheck.healthUpdate
  split <;> rfl

theorem healthUpdate_consecutiveFailures (check : HealthCheck) (result : HealthResult) (now : ℕ) :
    (check.healthUpdate result now).consecutiveFailures =
      if result.failed then check.currentHealth.consecutiveFailures + 1 else 0 := by
  rcases result with ⟨status | status, details⟩ | message <;> rfl

namespace Kept

variable {config : RegistryConfig} {registry : ServiceRegistry}

theorem start : Kept config .start where
  apart := .nil
  fresh := nofun
  index := by simp [ServiceRegistry.start]
  health _ := by simp [ServiceRegistry.start, ServiceRegistry.getService]
  current := by simp [ServiceRegistry.start]
  dismissals := by simp [ServiceRegistry.start]

theorem consistent (h : Kept config registry) : Consistent config registry where
  health := h.health
  index id := by
    rw [getService_isSome_iff]
    constructor
    · rintro ⟨name, ids, hids, hmem⟩
      obtain ⟨service, hservice, hid, -⟩ := (h.index name id).1 ⟨ids, hids, hmem⟩
      exact ⟨service, hservice, hid⟩
    · rintro ⟨service, hservice, hid⟩
      obtain ⟨ids, hids, hmem⟩ := (h.index service.definition.name id).2 ⟨service, hservice, hid, rfl⟩
      exact ⟨_, ids, hids, hmem⟩
  current := h.current
  dismissals := h.dismissals

theorem emit (h : Kept config registry) (event : RegistryEvent) : Kept config (registry.emit event) :=
  ⟨h.apart, h.fresh, h.index, h.health, h.current, h.dismissals⟩

/-- A new registration. -/
theorem enrol (h : Kept config registry) {service : ServiceDefinition}
    (habsent : registry.getService service.id = none) (now : ℕ) :
    Kept config (registry.enrol service now) where
  apart := by
    refine List.pairwise_append.2 ⟨h.apart, List.pairwise_singleton _ _, fun other hother new hnew => ?_⟩
    obtain rfl := List.mem_singleton.1 hnew
    refine ⟨fun hid => ?_, (h.fresh other hother).ne⟩
    have hnone := List.find?_eq_none.1 habsent other hother
    exact hnone (by simpa using hid)
  fresh other hother := by
    rcases List.mem_append.1 hother with hother | hother
    · exact (h.fresh other hother).trans (Nat.lt_succ_self _)
    · obtain rfl := List.mem_singleton.1 hother
      exact Nat.lt_succ_self _
  index name id := by
    have hservices : (∃ other ∈ (registry.enrol service now).services,
        other.definition.id = id ∧ other.definition.name = name) ↔
          (∃ other ∈ registry.services, other.definition.id = id ∧ other.definition.name = name) ∨
            service.id = id ∧ service.name = name := by
      change (∃ other ∈ registry.services ++ [_], _) ↔ _
      simp only [List.mem_append, List.mem_singleton, or_and_right, exists_or, exists_eq_left]
    rw [hservices, ← h.index name id]
    change (∃ ids, Function.update registry.servicesByName service.name _ name = some ids ∧ id ∈ ids) ↔ _
    rcases eq_or_ne name service.name with rfl | hname
    · rw [Function.update_self]
      cases hids : registry.servicesByName service.name with
      | none => simp [eq_comm]
      | some ids =>
        by_cases hmem : service.id ∈ ids
        · simp only [Option.getD_some, if_pos hmem, Option.some.injEq, exists_eq_left']
          exact ⟨.inl, fun hid => hid.elim (·) fun heq => heq.1 ▸ hmem⟩
        · simp [hmem, eq_comm]
    · rw [Function.update_of_ne hname]
      simp [hname.symm]
  health id := by
    rw [getService_enrol habsent]
    change (Function.update registry.serviceHealth service.id _ id).isSome ↔ _
    rcases eq_or_ne id service.id with rfl | hid
    · simp
    · rw [Function.update_of_ne hid, if_neg hid.symm]
      exact h.health id
  current id health other hhealth hother := by
    rw [getService_enrol habsent] at hother
    change Function.update registry.serviceHealth service.id _ id = some health at hhealth
    rcases eq_or_ne id service.id with rfl | hid
    · rw [Function.update_self] at hhealth
      rw [if_pos rfl] at hother
      obtain rfl := Option.some.inj hhealth
      obtain rfl := Option.some.inj hother
      exact ⟨rfl, Nat.zero_le _⟩
    · rw [Function.update_of_ne hid] at hhealth
      rw [if_neg hid.symm] at hother
      exact h.current id health other hhealth hother
  dismissals := h.dismissals

theorem mem_removeFromNameIndex {service : ServiceDefinition} {name id : JsString} :
    (∃ ids, (registry.removeFromNameIndex service).servicesByName name = some ids ∧ id ∈ ids) ↔
      (∃ ids, registry.servicesByName name = some ids ∧ id ∈ ids) ∧
        ¬(name = service.name ∧ id = service.id) := by
  rw [ServiceRegistry.removeFromNameIndex]
  cases hids : registry.servicesByName service.name with
  | none =>
    refine ⟨fun hmem => ⟨hmem, ?_⟩, And.left⟩
    rintro ⟨rfl, -⟩
    obtain ⟨ids, hsome, -⟩ := hmem
    rw [hids] at hsome
    cases hsome
  | some ids =>
    dsimp only
    rcases eq_or_ne name service.name with rfl | hname
    · rw [Function.update_self, hids]
      by_cases hid : id = service.id
      · simp only [hid, Option.some.injEq, exists_eq_left', and_self, not_true_eq_false, and_false, iff_false]
        rintro ⟨left, hleft, hmem⟩
        split at hleft
        · cases hleft
        · rw [← Option.some.inj hleft] at hmem
          exact absurd (List.mem_filter.1 hmem).2 (by simp)
      · simp only [hid, Option.some.injEq, exists_eq_left', and_false, not_false_eq_true, and_true]
        constructor
        · rintro ⟨left, hleft, hmem⟩
          split at hleft
          · cases hleft
          · rw [← Option.some.inj hleft] at hmem
            exact (List.mem_filter.1 hmem).1
        · intro hmem
          have hleft : id ∈ ids.filter (· ≠ service.id) := List.mem_filter.2 ⟨hmem, by simpa using hid⟩
          exact ⟨_, if_neg (List.ne_nil_of_mem hleft), hleft⟩
    · rw [Function.update_of_ne hname]
      simp [hname]

theorem deregisterService (h : Kept config registry) (id : JsString) :
    Kept config (registry.deregisterService id).2 := by
  cases hservice : registry.getService id with
  | none =>
    rw [ServiceRegistry.deregisterService, hservice]
    exact h
  | some service =>
    obtain ⟨hmem, rfl⟩ := mem_of_getService hservice
    have hremoved : (registry.deregisterService service.definition.id).2 =
        ((({ registry with services := registry.services.filter fun other =>
            other.definition.id ≠ service.definition.id }).removeFromNameIndex
          service.definition).setHealth service.definition.id none).emit
            (.serviceDeregistered service.definition) := by
      rw [ServiceRegistry.deregisterService, hservice]
    have hservices : (registry.deregisterService service.definition.id).2.services =
        registry.services.filter fun other => other.definition.id ≠ service.definition.id := by
      rw [hremoved, ServiceRegistry.removeFromNameIndex]
      split <;> rfl
    have hhealth : (registry.deregisterService service.definition.id).2.serviceHealth =
        Function.update registry.serviceHealth service.definition.id none := by
      rw [hremoved, ServiceRegistry.removeFromNameIndex]
      split <;> rfl
    have hrest : (registry.deregisterService service.definition.id).2.checks = registry.checks ∧
        (registry.deregisterService service.definition.id).2.registrations = registry.registrations ∧
        (registry.deregisterService service.definition.id).2.dismissals = registry.dismissals := by
      rw [hremoved, ServiceRegistry.removeFromNameIndex]
      split <;> exact ⟨rfl, rfl, rfl⟩
    obtain ⟨hchecks, hregistrations, hdismissals⟩ := hrest
    refine ⟨?_, ?_, fun name id => ?_, fun id => ?_, fun id health other hother hget => ?_, ?_⟩
    · rw [hservices]
      exact h.apart.sublist List.filter_sublist
    · rw [hservices, hregistrations]
      exact fun other hother => h.fresh other (List.mem_filter.1 hother).1
    · have hindex : (∃ ids, (registry.deregisterService service.definition.id).2.servicesByName name =
          some ids ∧ id ∈ ids) ↔ (∃ ids, registry.servicesByName name = some ids ∧ id ∈ ids) ∧
            ¬(name = service.definition.name ∧ id = service.definition.id) := by
        rw [hremoved]
        exact mem_removeFromNameIndex
      rw [hindex, h.index name id, hservices]
      constructor
      · rintro ⟨⟨other, hother, rfl, rfl⟩, hdiffer⟩
        have hid : other.definition.id ≠ service.definition.id := by
          intro hid
          have hsame := getService_of_mem h.apart hother
          rw [hid, hservice] at hsame
          obtain rfl := Option.some.inj hsame
          exact hdiffer ⟨rfl, rfl⟩
        exact ⟨other, List.mem_filter.2 ⟨hother, by simpa using hid⟩, rfl, rfl⟩
      · rintro ⟨other, hother, rfl, rfl⟩
        obtain ⟨hother, hid⟩ := List.mem_filter.1 hother
        exact ⟨⟨other, hother, rfl, rfl⟩, fun hboth => by simp [hboth.2] at hid⟩
    · rw [hhealth, getService_deregister hservice]
      rcases eq_or_ne id service.definition.id with rfl | hid
      · simp
      · rw [Function.update_of_ne hid, if_neg hid]
        exact h.health id
    · rw [hhealth] at hother
      rw [getService_deregister hservice] at hget
      rcases eq_or_ne id service.definition.id with rfl | hid
      · simp at hget
      · rw [Function.update_of_ne hid] at hother
        rw [if_neg hid] at hget
        have hown := h.current id health other hother hget
        rwa [ServiceRegistry.results, hchecks]
    · rw [hdismissals]
      exact h.dismissals

theorem autoDeregisterService (h : Kept config registry) (id : JsString) :
    Kept config (registry.autoDeregisterService config id) := by
  unfold ServiceRegistry.autoDeregisterService
  cases hhealth : registry.serviceHealth id with
  | none => exact h
  | some health =>
    dsimp only
    split
    · exact h
    · next hfailing =>
        cases hservice : registry.getService id with
        | none => exact h
        | some service =>
          dsimp only
          have hdismissed : Kept config { registry with
              dismissals := registry.dismissals ++ [registry.results service.registration] } :=
            ⟨h.apart, h.fresh, h.index, h.health, h.current, ?_⟩
          · exact hdismissed.deregisterService id
          intro results hresults
          rcases List.mem_append.1 hresults with hresults | hresults
          · exact h.dismissals results hresults
          · obtain rfl := List.mem_singleton.1 hresults
            have hcount := (h.current id health service hhealth hservice).2
            exact lastFailed_of_le_streak ((Nat.le_of_not_lt hfailing).trans hcount)

theorem results_append {check : CompletedCheck} {registration : ℕ} :
    ({ registry with checks := registry.checks ++ [check] }).results registration =
      registry.results registration ++ if check.registration = registration then [check.failed] else [] := by
  unfold ServiceRegistry.results
  rw [List.filter_append, List.map_append, List.filter_singleton]
  congr 1
  by_cases h : check.registration = registration <;> simp [h]

/-- The record a check writes. -/
theorem written (h : Kept config registry) {check : HealthCheck} {result : HealthResult}
    (hown : check.currentHealth.registration = check.service.registration)
    (hcurrent : Current registry check result = true) (now : ℕ) :
    Kept config (({ registry with
      checks := registry.checks ++ [CompletedCheck.mk check.service.registration result.failed] }).setHealth
        check.service.definition.id (some (check.healthUpdate result now))) := by
  unfold Current at hcurrent
  split at hcurrent
  swap
  · cases hcurrent
  next service health hservice hhealth =>
  obtain ⟨hregistration, hcount⟩ := Bool.and_eq_true_iff.1 hcurrent
  replace hregistration : service.registration = check.service.registration := by simpa using hregistration
  have hbound := (h.current _ health service hhealth hservice).2
  obtain ⟨hmem, hid⟩ := mem_of_getService hservice
  refine ⟨h.apart, h.fresh, h.index, fun id => ?_, fun id record other hrecord hother => ?_, h.dismissals⟩
  · change (Function.update registry.serviceHealth _ _ id).isSome ↔ (registry.getService id).isSome
    rcases eq_or_ne id check.service.definition.id with rfl | hne
    · simp [hservice]
    · rw [Function.update_of_ne hne]
      exact h.health id
  · change Function.update registry.serviceHealth _ _ id = some record at hrecord
    change registry.getService id = some other at hother
    change record.registration = other.registration ∧ record.consecutiveFailures ≤
      streak (({ registry with checks := registry.checks ++
        [CompletedCheck.mk check.service.registration result.failed] }).results other.registration)
    rw [results_append]
    rcases eq_or_ne id check.service.definition.id with rfl | hne
    · rw [Function.update_self] at hrecord
      rw [hservice] at hother
      obtain rfl := Option.some.inj hrecord
      obtain rfl := Option.some.inj hother
      rw [if_pos hregistration.symm, streak_append, healthUpdate_consecutiveFailures,
        healthUpdate_registration]
      refine ⟨hown.trans hregistration.symm, ?_⟩
      cases hfailed : result.failed with
      | false => simp
      | true =>
        rw [hfailed] at hcount
        have hread : check.currentHealth.consecutiveFailures ≤ health.consecutiveFailures := by
          simpa using hcount
        simpa using hread.trans hbound
    · rw [Function.update_of_ne hne] at hrecord
      have hkept := h.current id record other hrecord hother
      obtain ⟨hother, hotherId⟩ := mem_of_getService hother
      have hapart : other ≠ service := by
        rintro rfl
        exact hne (hotherId.symm.trans hid)
      have hdiffer := (h.apart.forall hother hmem hapart).2
      rw [if_neg (by rw [← hregistration]; exact hdiffer.symm), List.append_nil]
      exact hkept

theorem endHealthCheck (h : Kept config registry) {check : HealthCheck} {result : HealthResult}
    (hown : check.currentHealth.registration = check.service.registration)
    (hcurrent : Current registry check result = true) (now : ℕ) :
    Kept config (registry.endHealthCheck config check result now).1 := by
  have hwritten := h.written hown hcurrent now
  unfold ServiceRegistry.endHealthCheck
  cases result with
  | answered status details =>
    dsimp only
    split
    · exact hwritten
    · exact hwritten.emit _
  | threw message =>
    dsimp only
    split
    · exact hwritten.emit _
    · exact (hwritten.emit _).emit _

end Kept

/-! ## Every run -/

variable (config : RegistryConfig)

/-- The shared state keeps the invariant, and a check holds a record of the registration it was made for. -/
def outline : Outline ServiceRegistry RegistryCall RegistryOutcome where
  Inv registry _ := Kept config registry
  Local _
    | .checking _ check => check.currentHealth.registration = check.service.registration
    | _ => True
  Pair _ _ := True
  symm h := h

variable {config} {registry : ServiceRegistry} {check : HealthCheck} {id : JsString} {now : ℕ}

theorem Kept.beginHealthCheck (h : Kept config registry)
    (hbegin : registry.beginHealthCheck id now = some check) :
    check.currentHealth.registration = check.service.registration := by
  obtain ⟨service, hservice, hbegin⟩ := Option.bind_eq_some_iff.1 hbegin
  obtain ⟨health, hhealth, hcheck⟩ := Option.bind_eq_some_iff.1 hbegin
  obtain rfl := Option.some.inj hcheck
  exact (h.current id health service hhealth hservice).1

theorem begins : Outline.Begins (registryCalls config) (outline config) Orderly :=
  fun _ _ _ _ => ⟨trivial, fun _ _ => trivial⟩

theorem Kept.segment {call : RegistryCall} {input : Input} (h : Kept config registry)
    (hlocal : (outline config).Local registry call)
    (hcurrent : ∀ caller check, call = .checking caller check →
      Current registry check input.result = true) :
    Kept config (registrySegment config registry call input).1 ∧
      ∀ rest ∈ (registrySegment config registry call input).2.calls, (outline config).Local
        (registrySegment config registry call input).1 rest := by
  have hnone (registry' : ServiceRegistry) (outcome : RegistryOutcome) (h' : Kept config registry') :
      Kept config registry' ∧ ∀ rest ∈ (Progress.finished outcome : Progress RegistryCall _).calls,
        (outline config).Local registry' rest := ⟨h', List.forall_mem_nil _⟩
  cases call with
  | request request =>
    cases request with
    | register service =>
      dsimp only [registrySegment]
      split
      · exact hnone _ _ h
      · split
        · exact hnone _ _ h
        · next habsent =>
            have henrol := h.enrol (by simpa using habsent) input.now
            split
            · exact ⟨henrol, by simp [Progress.calls, outline]⟩
            · next check hbegin =>
                refine ⟨henrol, fun rest hrest => ?_⟩
                obtain rfl := List.mem_singleton.1 hrest
                exact henrol.beginHealthCheck hbegin
    | deregister serviceId => exact hnone _ _ (h.deregisterService serviceId)
    | performAllHealthChecks =>
      refine ⟨h, fun rest hrest => ?_⟩
      rcases List.mem_cons.1 hrest with rfl | hrest
      · trivial
      · obtain ⟨check, hcheck, rfl⟩ := List.mem_map.1 hrest
        obtain ⟨service, -, hbegin⟩ := List.mem_filterMap.1 hcheck
        exact h.beginHealthCheck hbegin
  | checking caller check =>
    refine ⟨h.endHealthCheck hlocal (hcurrent caller check rfl) input.now, fun rest hrest => ?_⟩
    rcases List.mem_cons.1 hrest with rfl | hrest
    · trivial
    · change rest ∈ ite ((registry.endHealthCheck config check input.result input.now).2 = true) _ _ at hrest
      rcases em ((registry.endHealthCheck config check input.result input.now).2 = true) with hdue | hdue
      · rw [if_pos hdue] at hrest
        obtain rfl := List.mem_singleton.1 hrest
        trivial
      · rw [if_neg hdue] at hrest
        cases hrest
  | checked caller =>
    cases caller with
    | registration service => exact hnone _ _ (h.emit _)
    | interval => exact hnone _ _ h
  | timer serviceId => exact hnone _ _ (h.autoDeregisterService serviceId)

theorem segments : Outline.Segments (registryCalls config) (outline config) Orderly := by
  intro pool i input call hpool hallowed hcall
  have hlocal := hpool.each call (List.mem_of_getElem? hcall)
  have hcurrent : ∀ caller check, call = .checking caller check →
      Current pool.shared check input.result = true := by
    rintro caller check rfl
    simpa only [Orderly, hcall] using hallowed
  obtain ⟨hkept, hcalls⟩ := Kept.segment hpool.inv hlocal hcurrent
  refine ⟨.of_calls (fun _ => hkept) hcalls (List.pairwise_of_forall fun _ _ => trivial),
    fun other hother => .of ?_ fun _ _ => trivial⟩
  exact hpool.each other (List.mem_of_mem_eraseIdx hother)

def emptyPool : Pool ServiceRegistry RegistryCall RegistryOutcome := ⟨.start, [], []⟩

/-- **Consistency**: in every run of registrations, deregistrations, checks and timers whose checks all
complete while they are current, the services, the health records and the name index are about the same
registrations, and a service that a timer removes has failed its own last checks. -/
theorem registry_consistent {moves : List (Move RegistryRequest Input)}
    {pool : Pool ServiceRegistry RegistryCall RegistryOutcome}
    (h : Run ((registryCalls config).Step Orderly) emptyPool moves pool) : Consistent config pool.shared := by
  have hstart : (outline config).Holds emptyPool := .start Kept.start
  exact (hstart.of_run begins segments h).inv.consistent

instance (pool : Pool ServiceRegistry RegistryCall RegistryOutcome) :
    (move : Move RegistryRequest Input) → Decidable (Orderly pool move)
  | .start _ => .isTrue trivial
  | .resume index input =>
      match h : pool.calls[index]? with
      | some (.checking _ check) =>
          decidable_of_iff (Current pool.shared check input.result = true) (by simp only [Orderly, h])
      | some (.request _) | some (.checked _) | some (.timer _) | none =>
          .isTrue (by simp only [Orderly, h])

def sampleConfig : RegistryConfig := ⟨2, true⟩

def patientConfig : RegistryConfig := ⟨3, true⟩

def sampleService : ServiceDefinition := ⟨"s", "svc", "v1", some ⟨"localhost", 80⟩, [js "http"]⟩

def healthyAnswer : Input := ⟨0, .answered .healthy none⟩

def failedAnswer : Input := ⟨0, .answered .unhealthy none⟩

/-- A registration whose first check fails. -/
def failedRegistration : List (Move RegistryRequest Input) :=
  [.start (.register sampleService), .resume 0 failedAnswer, .resume 0 failedAnswer, .resume 0 failedAnswer]

/-- Its next check fails as well, and the timer fires. -/
def dismissal : List (Move RegistryRequest Input) :=
  failedRegistration ++ [.start .performAllHealthChecks, .resume 0 failedAnswer, .resume 1 failedAnswer,
    .resume 2 failedAnswer]

theorem registry_consistent_dismissal : ∃ pool,
    Run ((registryCalls sampleConfig).Step Orderly) emptyPool dismissal pool ∧
      pool.shared.dismissals = [[true, true]] ∧ Consistent sampleConfig pool.shared := by
  obtain ⟨pool, hrun, hdismissed⟩ : ∃ pool,
      Run ((registryCalls sampleConfig).Step Orderly) emptyPool dismissal pool ∧
        decide (pool.shared.dismissals = [[true, true]]) = true :=
    Async.exists_run (by decide +kernel)
  exact ⟨pool, hrun, of_decide_eq_true hdismissed, registry_consistent hrun⟩

/-- The service is deregistered while its first check waits. -/
def checkOutlivesService : List (Move RegistryRequest Input) :=
  [.start (.register sampleService), .resume 0 healthyAnswer, .start (.deregister "s"),
    .resume 1 healthyAnswer, .resume 0 healthyAnswer, .resume 0 healthyAnswer]

/-- It is deregistered and registered again while a check waits, which then counts on. -/
def checkOutlivesRegistration : List (Move RegistryRequest Input) :=
  failedRegistration ++ [.start .performAllHealthChecks, .resume 0 healthyAnswer, .start (.deregister "s"),
    .resume 2 healthyAnswer, .start (.register sampleService), .resume 2 healthyAnswer,
    .resume 2 healthyAnswer, .resume 1 failedAnswer, .resume 2 healthyAnswer, .resume 1 healthyAnswer,
    .resume 0 healthyAnswer]

/-- Two rounds of checks overlap: the second finds the service healthy before the first fails. -/
def overlappingChecks : List (Move RegistryRequest Input) :=
  failedRegistration ++ [.start .performAllHealthChecks, .resume 0 healthyAnswer,
    .start .performAllHealthChecks, .resume 2 healthyAnswer, .resume 3 healthyAnswer, .resume 1 failedAnswer,
    .resume 4 failedAnswer, .resume 3 healthyAnswer, .resume 2 healthyAnswer, .resume 1 healthyAnswer,
    .resume 0 healthyAnswer]

/-- A health record without a service, one of an earlier registration, and a service that is removed after a
successful check. -/
theorem not_registry_consistent :
    (∃ pool, Run ((registryCalls sampleConfig).Step fun _ _ => True) emptyPool checkOutlivesService pool ∧
        pool.calls = [] ∧ ¬ Consistent sampleConfig pool.shared) ∧
      (∃ pool,
        Run ((registryCalls patientConfig).Step fun _ _ => True) emptyPool checkOutlivesRegistration pool ∧
          pool.calls = [] ∧ ¬ Consistent patientConfig pool.shared) ∧
      ∃ pool, Run ((registryCalls sampleConfig).Step fun _ _ => True) emptyPool overlappingChecks pool ∧
        pool.calls = [] ∧ pool.shared.dismissals = [[true, false, true]] ∧
        ¬ Consistent sampleConfig pool.shared := by
  refine ⟨?_, ?_, ?_⟩
  · obtain ⟨pool, hrun, hstale⟩ : ∃ pool,
        Run ((registryCalls sampleConfig).Step fun _ _ => True) emptyPool checkOutlivesService pool ∧
          (pool.calls.isEmpty && (pool.shared.serviceHealth "s").isSome &&
            (pool.shared.getService "s").isNone) = true :=
      Async.exists_run (by decide +kernel)
    simp only [Bool.and_eq_true, List.isEmpty_iff, Option.isNone_iff_eq_none] at hstale
    obtain ⟨⟨hdone, hhealth⟩, hservice⟩ := hstale
    refine ⟨pool, hrun, hdone, fun hconsistent => ?_⟩
    have hfound := (hconsistent.health "s").1 hhealth
    rw [hservice] at hfound
    exact nomatch hfound
  · obtain ⟨pool, hrun, hstale⟩ : ∃ pool,
        Run ((registryCalls patientConfig).Step fun _ _ => True) emptyPool checkOutlivesRegistration pool ∧
          (pool.calls.isEmpty && decide ((pool.shared.serviceHealth "s").map (·.registration) = some 0) &&
            decide ((pool.shared.getService "s").map (·.registration) = some 1)) = true :=
      Async.exists_run (by decide +kernel)
    simp only [Bool.and_eq_true, List.isEmpty_iff, decide_eq_true_eq, Option.map_eq_some_iff] at hstale
    obtain ⟨⟨hdone, health, hhealth, hold⟩, service, hservice, hnew⟩ := hstale
    refine ⟨pool, hrun, hdone, fun hconsistent => ?_⟩
    have hsame := (hconsistent.current _ health service hhealth hservice).1
    rw [hold, hnew] at hsame
    exact nomatch hsame
  · obtain ⟨pool, hrun, hstale⟩ : ∃ pool,
        Run ((registryCalls sampleConfig).Step fun _ _ => True) emptyPool overlappingChecks pool ∧
          (pool.calls.isEmpty && decide (pool.shared.dismissals = [[true, false, true]])) = true :=
      Async.exists_run (by decide +kernel)
    simp only [Bool.and_eq_true, List.isEmpty_iff, decide_eq_true_eq] at hstale
    obtain ⟨hdone, hdismissals⟩ := hstale
    refine ⟨pool, hrun, hdone, hdismissals, fun hconsistent => ?_⟩
    have hmem : [true, false, true] ∈ pool.shared.dismissals := by
      rw [hdismissals]
      exact List.mem_singleton_self _
    have hfailed := hconsistent.dismissals _ hmem
    exact absurd (hfailed.2 false (by decide)) (by decide)

end Kinglet.Discovery
