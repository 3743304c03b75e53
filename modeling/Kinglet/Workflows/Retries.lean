import Kinglet.Library.Retry
import Kinglet.Workflows.Isolation
import Kinglet.Workflows.Lookup

/-!
# Try steps

A `try` step is a loop of attempts (`executeTry_eq_traced`). Its law holds unless `max_retries` admits no
attempt, counts no attempt as the last although all that it admits fail, the predicate throws, or it is
a function of the standard library, which is not asked.
-/

namespace Kinglet.Workflows

open Js Library Library.Procedure

/-! ## The configuration -/

/-- `retryConfig ? retryConfig.max_retries ?? 0 : 0`. -/
def retriesOf (retryConfig : Value) : Value :=
  if truthy retryConfig then
    if isNullish ((property retryConfig "max_retries").getD .undefined) then .num 0
    else (property retryConfig "max_retries").getD .undefined
  else .num 0

/-- `retryConfig?.predicate`. -/
def predicateOf (retryConfig : Value) : Value := (property retryConfig "predicate").getD .undefined

/-- The attempt of this number is within `max_retries`. -/
def AllowsRetry (host : Runtime) (retries : Value) (k : ℕ) : Prop :=
  ∃ limit, toPrimitive host retries = .ok limit ∧ atMost (.num (natNumber k)) limit

/-- The predicate is a subworkflow or a function of the standard library. -/
def HasPredicate (engine : Engine) (retryConfig : Value) : Prop :=
  truthy (predicateOf retryConfig) ∧ ∃ name, textOf engine.host (predicateOf retryConfig) = .ok name ∧
    ((engine.definition.subworkflow name).isSome ∨ name ∈ stdlibNames)

/-- The predicate is a function of the standard library and no subworkflow. -/
def HasStdlibPredicate (engine : Engine) (retryConfig : Value) : Prop :=
  truthy (predicateOf retryConfig) ∧ ∃ name, textOf engine.host (predicateOf retryConfig) = .ok name ∧
    engine.definition.subworkflow name = none ∧ name ∈ stdlibNames

/-! ## The attempts -/

section Attempts

variable (engine : Engine) (frames : ℕ) (tryBlock retryConfig exceptBlock : Value)

/-- The predicate, where the loop asks one. -/
def askPredicate : Option (ℕ → Failure → Run Bool) :=
  if truthy (predicateOf retryConfig) then
    match textOf engine.host (predicateOf retryConfig) with
    | .error failure => some fun _ _ => throw failure
    | .ok name =>
        (engine.definition.subworkflow name).map fun block n err => do
          let errorObj ← identify err.argument
          let shouldRetry ← callSubworkflow engine n frames block
            (setProperty "error" errorObj emptyObject)
          return truthy shouldRetry
  else none

/-- The attempts of a `try` step, whose `max_retries` converts to a limit. -/
def attemptsOf (limit : Value) : Retry Machine Failure (Option Signal) where
  admits k := atMost (.num (natNumber k)) limit
  isLast k := !truthy retryConfig || strictEquals (.num (natNumber k)) (retriesOf retryConfig)
  body n := do
    let steps ← attempt (stepsOf engine tryBlock)
    executeBlock engine n frames steps 0
  ask := askPredicate engine frames retryConfig
  giveUp n := executeExcept engine n frames exceptBlock
  exhausted := none

/-- The attempts that a `try` step makes. -/
def tryRounds : ℕ → Machine → List (Retry.Round Failure (Option Signal))
  | 0, _ => []
  | n + 1, m =>
      match toPrimitive engine.host (retriesOf retryConfig) with
      | .error _ => []
      | .ok limit =>
          ((attemptsOf engine frames tryBlock retryConfig exceptBlock limit).traced n 0 m).1

end Attempts

variable {engine : Engine} {frames : ℕ} {tryBlock retryConfig exceptBlock : Value}

theorem exists_textOf_of_falsy {host : Runtime} {value : Value} (h : ¬ truthy value) :
    ∃ text, textOf host value = .ok text := by
  cases value with
  | undefined | null => exact ⟨_, rfl⟩
  | bool b => cases b <;> exact ⟨_, rfl⟩
  | num x => exact ⟨_, rfl⟩
  | str s => exact ⟨_, rfl⟩
  | list _ _ | map _ _ _ | objectPrototype | arrayPrototype | inherited _ _ => exact absurd rfl h

theorem isLast_iff {limit : Value} (k : ℕ) :
    (attemptsOf engine frames tryBlock retryConfig exceptBlock limit).isLast k ↔
      ¬ (truthy retryConfig ∧ ¬ strictEquals (.num (natNumber k)) (retriesOf retryConfig)) := by
  simp only [attemptsOf]
  cases truthy retryConfig <;> simp

theorem executeAttempts_eq_loop {limit : Value}
    (hlimit : toPrimitive engine.host (retriesOf retryConfig) = .ok limit) (n count : ℕ) :
    executeAttempts engine n frames tryBlock (truthy retryConfig) exceptBlock (retriesOf retryConfig)
        (predicateOf retryConfig) count =
      (attemptsOf engine frames tryBlock retryConfig exceptBlock limit).loop n count := by
  induction n generalizing count with
  | zero => rfl
  | succ n ih =>
      unfold executeAttempts Retry.loop
      rw [hlimit, attempt_ok_bind]
      refine if_congr Iff.rfl (congrArg _ (funext fun err => ?_)) rfl
      by_cases hlast : (attemptsOf engine frames tryBlock retryConfig exceptBlock limit).isLast count
      · rw [if_pos hlast, if_neg ((isLast_iff count).1 hlast)]
        rfl
      · rw [if_neg hlast, if_pos (not_not.1 fun h => hlast ((isLast_iff count).2 h)), Retry.verdict]
        rw [show (attemptsOf engine frames tryBlock retryConfig exceptBlock limit).ask =
          askPredicate engine frames retryConfig from rfl, askPredicate, ← ih]
        by_cases hpredicate : truthy (predicateOf retryConfig)
        · rw [if_pos hpredicate]
          cases textOf engine.host (predicateOf retryConfig) with
          | error failure => rfl
          | ok name =>
              rw [attempt_ok_bind, if_pos hpredicate]
              dsimp only
              cases engine.definition.subworkflow name with
              | none => rfl
              | some block =>
                  dsimp only [Option.map_some]
                  rw [bind_assoc]
                  refine congrArg _ (funext fun errorObj => ?_)
                  rw [bind_assoc]
                  rfl
        · rw [if_neg hpredicate]
          obtain ⟨name, hname⟩ := @exists_textOf_of_falsy engine.host _ hpredicate
          rw [hname, attempt_ok_bind, if_neg hpredicate]
          rfl

theorem read_of_truthy {host : Runtime} {value : Value} (h : truthy value) (key : String) :
    read host value key = .ok ((property value key).getD .undefined) := by
  cases value <;> first | rfl | cases h

theorem readPredicate (host : Runtime) (retryConfig : Value) :
    (if isNullish retryConfig then .ok .undefined else read host retryConfig "predicate") =
      (.ok (predicateOf retryConfig) : Except Failure Value) := by
  cases retryConfig <;> rfl

theorem executeTry_succ (n : ℕ) :
    executeTry engine (n + 1) frames tryBlock retryConfig exceptBlock =
      executeAttempts engine n frames tryBlock (truthy retryConfig) exceptBlock
        (retriesOf retryConfig) (predicateOf retryConfig) 0 := by
  unfold executeTry
  rw [readPredicate, retriesOf]
  by_cases hretry : truthy retryConfig
  · rw [if_pos hretry, if_pos hretry, read_of_truthy hretry, attempt_ok_bind, attempt_ok_bind]
  · rw [if_neg hretry, if_neg hretry, attempt_ok_bind, attempt_ok_bind]
    rfl

/-- A `try` step makes its attempts, unless its `max_retries` does not convert. -/
theorem executeTry_eq_traced (n : ℕ) (m : Machine) :
    executeTry engine (n + 2) frames tryBlock retryConfig exceptBlock m =
      match toPrimitive engine.host (retriesOf retryConfig) with
      | .error failure => (.thrown failure, m)
      | .ok limit =>
          ((attemptsOf engine frames tryBlock retryConfig exceptBlock limit).traced (n + 1) 0 m).2 := by
  rw [executeTry_succ]
  cases hlimit : toPrimitive engine.host (retriesOf retryConfig) with
  | error failure =>
      unfold executeAttempts
      rw [hlimit]
      rfl
  | ok limit => rw [executeAttempts_eq_loop hlimit, ← Retry.traced_snd]

/-! ## The law -/

/-- When a `try` step that made these attempts keeps the law. -/
structure RetriesSoundly (engine : Engine) (retryConfig exceptBlock : Value)
    (rounds : List (Retry.Round Failure (Option Signal))) : Prop where
  /-- `max_retries` is at least 0. -/
  admits : AllowsRetry engine.host (retriesOf retryConfig) 0
  /-- `max_retries` is the number of an attempt, or an attempt does not fail or the predicate does not
  return true about it. -/
  ends : (∃ k, strictEquals (.num (natNumber k)) (retriesOf retryConfig) ∧
      ∀ i ≤ k, AllowsRetry engine.host (retriesOf retryConfig) i) ∨
    ∃ round ∈ rounds, (∀ e, round.outcome ≠ .thrown e) ∨
      ∃ answer, round.answer = some answer ∧ answer ≠ .value true
  /-- The predicate throws nothing, or nothing but the error it is asked about where that goes on. -/
  answers : ∀ round ∈ rounds, ∀ e, round.answer = some (.thrown e) →
    ¬ truthy exceptBlock ∧ round.outcome = .thrown e
  /-- A function of the standard library is the predicate only where there is nothing to ask. -/
  asks : HasStdlibPredicate engine retryConfig →
    (∀ round, rounds.head? = some round → ∀ e, round.outcome ≠ .thrown e) ∨
      strictEquals (.num (natNumber 0)) (retriesOf retryConfig) ∨
      ¬ AllowsRetry engine.host (retriesOf retryConfig) 1

theorem allowsRetry_iff (frames : ℕ) (tryBlock exceptBlock : Value) {limit : Value}
    (hlimit : toPrimitive engine.host (retriesOf retryConfig) = .ok limit) (k : ℕ) :
    AllowsRetry engine.host (retriesOf retryConfig) k ↔
      (attemptsOf engine frames tryBlock retryConfig exceptBlock limit).admits k := by
  constructor
  · rintro ⟨limit', hlimit', hmost⟩
    rw [hlimit] at hlimit'
    cases hlimit'
    exact hmost
  · exact fun hmost => ⟨limit, hlimit, hmost⟩

/-- Without a configuration for it, the first attempt is the last. -/
theorem strictEquals_retriesOf (h : ¬ truthy retryConfig) :
    strictEquals (.num (natNumber 0)) (retriesOf retryConfig) := by
  rw [retriesOf, if_neg h]
  decide +kernel

theorem isLast_zero_iff {limit : Value} :
    (attemptsOf engine frames tryBlock retryConfig exceptBlock limit).isLast 0 ↔
      strictEquals (.num (natNumber 0)) (retriesOf retryConfig) := by
  rw [isLast_iff]
  by_cases h : truthy retryConfig
  · simp [h]
  · simp [h, strictEquals_retriesOf h]

theorem asksNobody_iff {limit : Value} (h : HasPredicate engine retryConfig) :
    (attemptsOf engine frames tryBlock retryConfig exceptBlock limit).ask = none ↔
      HasStdlibPredicate engine retryConfig := by
  obtain ⟨htruthy, name, hname, hfound⟩ := h
  have hask : (attemptsOf engine frames tryBlock retryConfig exceptBlock limit).ask = none ↔
      engine.definition.subworkflow name = none := by
    show askPredicate engine frames retryConfig = none ↔ _
    rw [askPredicate, if_pos htruthy, hname]
    exact Option.map_eq_none_iff
  rw [hask]
  constructor
  · intro hnone
    refine ⟨htruthy, name, hname, hnone, hfound.resolve_left ?_⟩
    rw [hnone]
    exact Bool.false_ne_true
  · rintro ⟨-, name', hname', hnone, -⟩
    rw [hname] at hname'
    cases hname'
    exact hnone

theorem HasStdlibPredicate.hasPredicate (h : HasStdlibPredicate engine retryConfig) :
    HasPredicate engine retryConfig := by
  obtain ⟨htruthy, name, hname, -, hmem⟩ := h
  exact ⟨htruthy, name, hname, .inr hmem⟩

theorem suits_iff {limit : Value} {rounds : List (Retry.Round Failure (Option Signal))}
    (hlimit : toPrimitive engine.host (retriesOf retryConfig) = .ok limit) :
    (attemptsOf engine frames tryBlock retryConfig exceptBlock limit).Suits
        (HasPredicate engine retryConfig) (truthy exceptBlock) rounds ↔
      RetriesSoundly engine retryConfig exceptBlock rounds := by
  have hallows := allowsRetry_iff frames tryBlock exceptBlock hlimit
  constructor
  · intro h
    refine ⟨(hallows 0).2 h.admits, h.ends.imp_left ?_, h.answers, fun hstdlib => ?_⟩
    · rintro ⟨k, hlast, hadmits⟩
      by_cases hretry : truthy retryConfig
      · refine ⟨k, ?_, fun i hi => (hallows i).2 (hadmits i hi)⟩
        exact not_not.1 fun hother => (isLast_iff k).1 hlast ⟨hretry, hother⟩
      · refine ⟨0, strictEquals_retriesOf hretry, fun i hi => (hallows i).2 ?_⟩
        exact hadmits i (hi.trans (Nat.zero_le k))
    · have hasks := h.asks hstdlib.hasPredicate ((asksNobody_iff hstdlib.hasPredicate).2 hstdlib)
      rwa [isLast_zero_iff, ← hallows] at hasks
  · intro h
    refine ⟨(hallows 0).1 h.admits, h.ends.imp_left ?_, h.answers, fun hpredicate hnone => ?_⟩
    · rintro ⟨k, hlast, hadmits⟩
      exact ⟨k, (isLast_iff k).2 fun hother => hother.2 hlast, fun i hi => (hallows i).1 (hadmits i hi)⟩
    · rw [isLast_zero_iff, ← hallows]
      exact h.asks ((asksNobody_iff hpredicate).1 hnone)

theorem executeExcept_fst {n : ℕ} {err : Failure} {m : Machine} (hexcept : ¬ truthy exceptBlock)
    (hended : (executeExcept engine n frames exceptBlock err m).1 ≠ .running) :
    (executeExcept engine n frames exceptBlock err m).1 = .thrown err := by
  cases n with
  | zero => exact absurd rfl hended
  | succ n =>
      unfold executeExcept
      rw [if_neg hexcept]
      rfl

/-- **The law of `try` steps.** For a step that ends: it makes an attempt, and no more than
`max_retries` allows; it stops at the first success, which is its result; with a predicate, an attempt
follows another only if the predicate has returned true about its error; the `except` block runs if and
only if the last attempt has failed; and without one its error goes on. All of it holds if and only if
the step retries soundly. -/
theorem executeTry_lawful_iff {n : ℕ} {m : Machine}
    (hended : (executeTry engine n frames tryBlock retryConfig exceptBlock m).1 ≠ .running) :
    Retry.Lawful (AllowsRetry engine.host (retriesOf retryConfig)) (HasPredicate engine retryConfig)
        (truthy exceptBlock) (tryRounds engine frames tryBlock retryConfig exceptBlock n m)
        (executeTry engine n frames tryBlock retryConfig exceptBlock m).1 ↔
      RetriesSoundly engine retryConfig exceptBlock
        (tryRounds engine frames tryBlock retryConfig exceptBlock n m) := by
  match n with
  | 0 => exact absurd rfl hended
  | 1 =>
      rw [executeTry_succ] at hended
      exact absurd rfl hended
  | n + 2 =>
      rw [executeTry_eq_traced] at hended ⊢
      rw [tryRounds]
      cases hlimit : toPrimitive engine.host (retriesOf retryConfig) with
      | error failure =>
          refine iff_of_false (fun h => h.attempted rfl) fun h => ?_
          obtain ⟨limit, hlimit', -⟩ := h.admits
          rw [hlimit] at hlimit'
          cases hlimit'
      | ok limit =>
          rw [hlimit] at hended
          have hcourse := Retry.course_traced
            (fun err ending => ¬ truthy exceptBlock → ending = .thrown err)
            (fun k err s hs hexcept => executeExcept_fst hexcept hs) hended
          have hadmits : AllowsRetry engine.host (retriesOf retryConfig) = fun k =>
              (attemptsOf engine frames tryBlock retryConfig exceptBlock limit).admits k = true :=
            funext fun k => propext (allowsRetry_iff frames tryBlock exceptBlock hlimit k)
          rw [← suits_iff hlimit, hadmits]
          exact Retry.lawful_iff (fun hexcept err ending h => h hexcept) hcourse

/-- A block whose only step raises an error. -/
def raisingBlock : Value :=
  mapOf 0 [("steps", .list (some 1) [mapOf 2 [("fail", mapOf 3 [("raise", .str "down")])]])]

def retrying (retries : Float) : Value := mapOf 4 [("max_retries", .num retries)]

def retryEngine : Engine := ⟨plainRuntime, fun _ _ _ => .ok (.value .null), plainDefinition⟩

/-- With `max_retries` 1, two attempts fail, and the second error goes on. -/
theorem executeTry_lawful_iff_once :
    (executeTry retryEngine 9 0 raisingBlock (retrying 1) .undefined newMachine).1 ≠ .running ∧
      (tryRounds retryEngine 0 raisingBlock (retrying 1) .undefined 9 newMachine).length = 2 ∧
      Retry.Lawful (AllowsRetry plainRuntime (retriesOf (retrying 1)))
        (HasPredicate retryEngine (retrying 1)) (truthy .undefined)
        (tryRounds retryEngine 0 raisingBlock (retrying 1) .undefined 9 newMachine)
        (executeTry retryEngine 9 0 raisingBlock (retrying 1) .undefined newMachine).1 := by
  have hended : (executeTry retryEngine 9 0 raisingBlock (retrying 1) .undefined newMachine).1 ≠
      .running := by
    have hthrown : (executeTry retryEngine 9 0 raisingBlock (retrying 1) .undefined newMachine).1 =
        .thrown (workflowError (js "down") "ValueError") := by rfl
    rw [hthrown]
    simp
  have hanswers : (tryRounds retryEngine 0 raisingBlock (retrying 1) .undefined 9 newMachine).all
      fun round => round.answer.isNone := by decide +kernel
  refine ⟨hended, by decide +kernel, (executeTry_lawful_iff hended).2 ⟨?_, .inl ⟨1, ?_, ?_⟩, ?_, ?_⟩⟩
  · exact ⟨.num 1, rfl, by decide +kernel⟩
  · decide +kernel
  · intro i hi
    refine ⟨.num 1, rfl, ?_⟩
    rcases Nat.le_one_iff_eq_zero_or_eq_one.1 hi with rfl | rfl <;> decide +kernel
  · intro round hround e hanswer
    have hnone := List.all_eq_true.1 hanswers round hround
    rw [hanswer] at hnone
    cases hnone
  · rintro ⟨htruthy, -⟩
    exact absurd htruthy (by decide +kernel)

/-- With `max_retries` -1 the block is not executed, and the step succeeds. -/
theorem not_executeTry_lawful :
    ¬ ∀ engine frames tryBlock retryConfig exceptBlock n m,
      (executeTry engine n frames tryBlock retryConfig exceptBlock m).1 ≠ .running →
      Retry.Lawful (AllowsRetry engine.host (retriesOf retryConfig)) (HasPredicate engine retryConfig)
        (truthy exceptBlock) (tryRounds engine frames tryBlock retryConfig exceptBlock n m)
        (executeTry engine n frames tryBlock retryConfig exceptBlock m).1 := by
  intro hall
  have hrounds : (tryRounds retryEngine 0 raisingBlock (retrying (-1)) .undefined 9
      newMachine).isEmpty := by decide +kernel
  have hended : (executeTry retryEngine 9 0 raisingBlock (retrying (-1)) .undefined newMachine).1 =
      .value none := by rfl
  have hlawful := hall retryEngine 0 raisingBlock (retrying (-1)) .undefined 9 newMachine
    (by rw [hended]; simp)
  exact hlawful.attempted (List.isEmpty_iff.1 hrounds)

end Kinglet.Workflows
