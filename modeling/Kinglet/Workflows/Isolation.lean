import Kinglet.Workflows.Engine

/-!
# Isolation of subworkflows

Main statements:

* `sound_execute`: at every step of an execution the call depth is the number of live frames;
* `callDepth_executeStep`: a step that ends, by value or error, leaves the call depth as it was;
* `subworkflow_isolation`: with these, a call changes no variable of its caller but the result
  variable, unless that is named `__proto__`: the scope is an object, and the assignment replaces what
  it inherits.

Every method keeps the balance of its frame; a call of a subworkflow keeps the balance of the next
frame between the increment and the final decrement.
-/

namespace Kinglet.Workflows

open Js Library Library.Procedure

/-! ## Balance -/

/-- The call depth counts the live frames, of which there are 20 at most. -/
def Observation.Sound (o : Observation) : Prop :=
  o.callDepth = o.frames ∧ (o.frames : ℤ) ≤ callStackDepthLimit

/-- What has been observed since `past` is sound. -/
def Sound (past : List Observation) (m : Machine) : Prop :=
  ∃ added, m.observed = added ++ past ∧ ∀ o ∈ added, o.Sound

/-- The call depth is that of a frame, and all has been sound. -/
def Balanced (past : List Observation) (frames : ℕ) (m : Machine) : Prop :=
  m.callDepth = frames ∧ Sound past m

/-- A method keeps the balance of its frame. -/
abbrev Balances {α : Type} (past : List Observation) (frames : ℕ) (p : Run α) : Prop :=
  Keeps (Balanced past frames) (Sound past) p

/-- Properties that do not depend on the numbers of uses and identities. -/
def Indifferent (P : Machine → Prop) : Prop :=
  ∀ m uses nextRef, P m → P { m with uses := uses, nextRef := nextRef }

variable {engine : Engine} {past : List Observation} {frames : ℕ} {P Q : Machine → Prop}

theorem balanced_indifferent : Indifferent (Balanced past frames) := fun _ _ _ h => h

theorem Balanced.sound {m : Machine} (hm : Balanced past frames m) : Sound past m := hm.2

/-! ## Methods without steps -/

theorem keeps_identify (hP : Indifferent P) (value : Value) : Keeps P Q (identify value) :=
  fun m hm => hP m m.uses _ hm

theorem keeps_nextUse (hP : Indifferent P) : Keeps P Q nextUse := fun m hm => hP m _ m.nextRef hm

theorem keeps_template (hP : Indifferent P) (text : JsString) : Keeps P Q (template engine text) :=
  (keeps_nextUse hP).bind fun _ => keeps_get.bind fun _ => keeps_attempt _

mutual

theorem keeps_resolve (hP : Indifferent P) (value : Value) : Keeps P Q (resolve engine value) := by
  match value with
  | .str text => exact keeps_template hP text
  | .list ref elements => exact (keeps_resolveAll hP elements).bind fun _ => keeps_pure _
  | .map ref proto fields => exact keeps_resolveFields hP fields emptyObject
  | .objectPrototype | .arrayPrototype | .undefined | .null | .bool _ | .num _ | .inherited _ _ =>
      exact keeps_pure _

theorem keeps_resolveAll (hP : Indifferent P) (values : List Value) :
    Keeps P Q (resolveAll engine values) := by
  match values with
  | [] => exact keeps_pure _
  | value :: values =>
      exact (keeps_resolve hP value).bind fun _ =>
        (keeps_resolveAll hP values).bind fun _ => keeps_pure _

theorem keeps_resolveFields (hP : Indifferent P) (fields : List (JsString × Value)) (result : Value) :
    Keeps P Q (resolveFields engine fields result) := by
  match fields with
  | [] => exact keeps_pure _
  | (key, value) :: fields =>
      exact (keeps_resolve hP value).bind fun _ => keeps_resolveFields hP fields _

end

theorem keeps_resolveValue (hP : Indifferent P) (value : Value) :
    Keeps P Q (resolveValue engine value) :=
  (keeps_resolve hP value).bind fun _ => keeps_identify hP _

theorem keeps_resolveArgs (hP : Indifferent P) (fields : List (JsString × Value)) (args : Value) :
    Keeps P Q (resolveArgs engine fields args) := by
  induction fields generalizing args with
  | nil => exact keeps_pure _
  | cons entry fields ih => exact (keeps_resolveValue hP _).bind fun _ => ih _

theorem keeps_callStdlib (hP : Indifferent P) (fnName namedArgs : Value) :
    Keeps P Q (callStdlib engine fnName namedArgs) := by
  unfold callStdlib
  split
  · refine (keeps_nextUse hP).bind fun n => (keeps_attempt _).bind fun returned => ?_
    split
    · exact keeps_identify hP _
    · exact (keeps_attempt _).bind fun _ => keeps_identify hP _
  · exact keeps_throw _

theorem keeps_raise {α : Type} (raised : Value) : Keeps P Q (raise engine raised : Run α) := by
  unfold raise
  split
  · exact keeps_throw _
  · refine (keeps_attempt _).bind fun message => (keeps_attempt _).bind fun tags => ?_
    exact (keeps_attempt _).bind fun code => (keeps_attempt _).bind fun _ => keeps_throw _

theorem balances_setVariable (key : JsString) (value : Value) :
    Balances past frames (setVariable key value) :=
  keeps_modify fun _ hm => hm

theorem balances_inScope {α : Type} {p : Run α} (scope : Value) (hp : Balances past frames p) :
    Balances past frames (inScope scope p) :=
  Keeps.within (fun _ _ hm => hm) (fun _ _ hm => hm) hp

/-- A step is executed at a call depth that counts its frames. -/
theorem balances_observe (hframes : (frames : ℤ) ≤ callStackDepthLimit) :
    Balances past frames (observe frames) := by
  refine keeps_modify fun m hm => ⟨hm.1, ?_⟩
  obtain ⟨hdepth, added, hobserved, hsound⟩ := hm
  refine ⟨⟨m.callDepth, frames⟩ :: added, by rw [hobserved]; rfl, ?_⟩
  exact List.forall_mem_cons.2 ⟨⟨hdepth, hframes⟩, hsound⟩

/-! ## Methods with steps -/

/-- A call of a subworkflow: an error beyond the limit, else a frame between an increment and a
decrement. -/
theorem callSubworkflow_apply (n : ℕ) (block : Option Block) (args : Value) (m : Machine) :
    callSubworkflow engine (n + 1) frames block args m =
      if callStackDepthLimit < m.callDepth + 1 then
        (.thrown (workflowError "Call stack depth limit exceeded (max 20)" "RecursionError"),
          { m with callDepth := m.callDepth + 1 - 1 })
      else
        finally' (executeFrame engine n frames block args)
          (fun m => { m with callDepth := m.callDepth - 1 })
          { m with callDepth := m.callDepth + 1 } := by
  unfold callSubworkflow
  show (if _ then _ else _ : Run Value) _ = _
  split <;> rfl

/-! ## Invariants of frames -/

/-- A property of the machine, for each number of live frames, that the methods without steps keep,
and a call of a subworkflow if the block does that it runs. -/
structure FrameRules (engine : Engine) (P : ℕ → Machine → Prop) (Q : Machine → Prop)
    (allowed : ℕ → Prop) : Prop where
  found : ∀ {frames : ℕ} (m : Machine), P frames m → Q m
  indifferent : ∀ frames, Indifferent (P frames)
  observe : ∀ {frames : ℕ}, allowed frames → Keeps (P frames) Q (observe frames)
  setVariable : ∀ {frames : ℕ} key value, Keeps (P frames) Q (setVariable key value)
  restore : ∀ {frames : ℕ} valueVar indexVar before m, P frames m →
    P frames { m with scope := restoreLoopVars valueVar indexVar before m.scope }
  subworkflow : ∀ {n frames : ℕ},
    (∀ k < n, ∀ {frames : ℕ}, allowed frames → ∀ steps i,
      Keeps (P frames) Q (executeBlock engine k frames steps i)) →
    allowed frames → ∀ block args, Keeps (P frames) Q (callSubworkflow engine n frames block args)

/-- With some fuel, every method keeps the property of its frame. -/
structure Keeping (engine : Engine) (P : ℕ → Machine → Prop) (Q : Machine → Prop)
    (allowed : ℕ → Prop) (n : ℕ) : Prop where
  block : ∀ {frames : ℕ}, allowed frames → ∀ steps i,
    Keeps (P frames) Q (executeBlock engine n frames steps i)
  step : ∀ {frames : ℕ}, allowed frames → ∀ body,
    Keeps (P frames) Q (executeStep engine n frames body)
  call : ∀ {frames : ℕ}, allowed frames → ∀ fnName rawArgs,
    Keeps (P frames) Q (executeCall engine n frames fnName rawArgs)
  subworkflow : ∀ {frames : ℕ}, allowed frames → ∀ block args,
    Keeps (P frames) Q (callSubworkflow engine n frames block args)
  switch : ∀ {frames : ℕ}, allowed frames → ∀ cases,
    Keeps (P frames) Q (executeSwitch engine n frames cases)
  cases : ∀ {frames : ℕ}, allowed frames → ∀ cases,
    Keeps (P frames) Q (executeCases engine n frames cases)
  case : ∀ {frames : ℕ}, allowed frames → ∀ case,
    Keeps (P frames) Q (executeCase engine n frames case)
  loop : ∀ {frames : ℕ}, allowed frames → ∀ forDef,
    Keeps (P frames) Q (executeFor engine n frames forDef)
  items : ∀ {frames : ℕ}, allowed frames →
    ∀ valueVar indexVar steps items index,
      Keeps (P frames) Q (executeItems engine n frames valueVar indexVar steps items index)
  guarded : ∀ {frames : ℕ}, allowed frames → ∀ tryBlock retryConfig exceptBlock,
    Keeps (P frames) Q (executeTry engine n frames tryBlock retryConfig exceptBlock)
  attempts : ∀ {frames : ℕ}, allowed frames →
    ∀ tryBlock retry exceptBlock maxRetries predicate count,
      Keeps (P frames) Q
        (executeAttempts engine n frames tryBlock retry exceptBlock maxRetries predicate count)
  except : ∀ {frames : ℕ}, allowed frames → ∀ exceptBlock err,
    Keeps (P frames) Q (executeExcept engine n frames exceptBlock err)

section Invariants

variable {P : ℕ → Machine → Prop} {Q : Machine → Prop} {allowed : ℕ → Prop}
  (rules : FrameRules engine P Q allowed)

include rules

theorem keeps_executeAssign (assignments : Value) :
    Keeps (P frames) Q (executeAssign engine assignments) := by
  refine (keeps_attempt _).bind fun assignments => Keeps.forEach (fun assignment => ?_) assignments
  refine (keeps_attempt _).bind fun fields => Keeps.forEach (fun entry => ?_) fields
  exact (keeps_resolveValue (rules.indifferent frames) _).bind fun _ => rules.setVariable _ _

theorem keeping_zero : Keeping engine P Q allowed 0 where
  block _ _ _ := keeps_running rules.found
  step _ _ := keeps_running rules.found
  call _ _ _ := keeps_running rules.found
  subworkflow _ _ _ := keeps_running rules.found
  switch _ _ := keeps_running rules.found
  cases _ _ := keeps_running rules.found
  case _ _ := keeps_running rules.found
  loop _ _ := keeps_running rules.found
  items _ _ _ _ _ _ := keeps_running rules.found
  guarded _ _ _ _ := keeps_running rules.found
  attempts _ _ _ _ _ _ _ := keeps_running rules.found
  except _ _ _ := keeps_running rules.found

namespace Keeping

variable {n : ℕ} (h : Keeping engine P Q allowed n) (hframes : allowed frames)

include rules h hframes

omit rules in
theorem block_succ (steps : List Step) (i : ℕ) :
    Keeps (P frames) Q (executeBlock engine (n + 1) frames steps i) := by
  unfold executeBlock
  split
  case h_1 => exact keeps_pure _
  case h_2 step _ =>
    refine (h.step hframes step.body).bind fun result => ?_
    split
    · exact h.block hframes steps (i + 1)
    · exact keeps_pure _
    · exact keeps_pure _
    · split
      · exact keeps_pure _
      · split
        · exact h.block hframes steps _
        · exact (keeps_attempt _).bind fun _ => keeps_throw _

theorem call_succ (fnName rawArgs : Value) :
    Keeps (P frames) Q (executeCall engine (n + 1) frames fnName rawArgs) := by
  refine (keeps_attempt _).bind fun fields => ?_
  refine (keeps_resolveArgs (rules.indifferent frames) fields emptyObject).bind fun args => ?_
  refine (keeps_attempt _).bind fun name => ?_
  split
  · exact h.subworkflow hframes _ args
  · exact keeps_callStdlib (rules.indifferent frames) fnName args

theorem step_succ (body : Value) : Keeps (P frames) Q (executeStep engine (n + 1) frames body) := by
  refine (rules.observe hframes).bind fun _ => ?_
  refine (keeps_attempt _).bind fun nextTarget => (keeps_attempt _).bind fun assigns => ?_
  refine Keeps.ite (fun _ => (keeps_executeAssign rules _).bind fun _ => keeps_pure _) fun _ => ?_
  split
  · exact (keeps_resolveValue (rules.indifferent frames) _).bind fun _ => keeps_pure _
  · exact (keeps_resolveValue (rules.indifferent frames) _).bind fun _ => keeps_raise _
  · refine (h.call hframes _ _).bind fun result => Keeps.ite (fun _ => ?_) fun _ => keeps_pure _
    exact (keeps_attempt _).bind fun _ => (rules.setVariable _ _).bind fun _ => keeps_pure _
  · refine (h.switch hframes _).bind fun result => ?_
    split
    · exact keeps_pure _
    · exact keeps_pure _
    · exact Keeps.ite (fun _ => (keeps_executeAssign rules _).bind fun _ => keeps_pure _)
        fun _ => keeps_pure _
  · exact (h.loop hframes _).bind fun _ => keeps_pure _
  · exact (h.guarded hframes _ _ _).bind fun _ => keeps_pure _
  · exact (keeps_attempt _).bind fun _ => (h.block hframes _ _).bind fun _ => keeps_pure _
  · exact keeps_pure _

omit rules in
theorem switch_succ (cases : Value) :
    Keeps (P frames) Q (executeSwitch engine (n + 1) frames cases) :=
  (keeps_attempt _).bind fun cases => h.cases hframes cases

theorem cases_succ (cases : List Value) :
    Keeps (P frames) Q (executeCases engine (n + 1) frames cases) := by
  match cases with
  | [] => exact keeps_pure _
  | case :: cases =>
      refine (keeps_attempt _).bind fun condition => ?_
      refine (keeps_resolveValue (rules.indifferent frames) condition).bind fun condition => ?_
      exact Keeps.ite (fun _ => h.case hframes case) fun _ => h.cases hframes cases

theorem case_succ (case : Value) :
    Keeps (P frames) Q (executeCase engine (n + 1) frames case) := by
  refine (Keeps.forEach (keeps_executeAssign rules) _).bind fun _ => ?_
  split
  · exact (keeps_resolveValue (rules.indifferent frames) _).bind fun _ => keeps_pure _
  · exact (keeps_resolveValue (rules.indifferent frames) _).bind fun _ => keeps_raise _
  · refine Keeps.bind ?_ fun nested => ?_
    · split
      · exact h.switch hframes _
      · exact keeps_pure _
    split
    · exact keeps_pure _
    · refine (keeps_attempt _).bind fun steps => (h.block hframes steps 0).bind fun result => ?_
      split <;> exact keeps_pure _

theorem loop_succ (forDef : Value) :
    Keeps (P frames) Q (executeFor engine (n + 1) frames forDef) := by
  refine (keeps_attempt _).bind fun valueVar => (keeps_attempt _).bind fun indexVar => ?_
  refine (keeps_attempt _).bind fun collection => ?_
  refine (keeps_resolveValue (rules.indifferent frames) collection).bind fun collection => ?_
  refine (keeps_attempt _).bind fun steps => ?_
  split
  · exact keeps_throw _
  · refine (keeps_attempt _).bind fun valueVar => (keeps_attempt _).bind fun indexVar => ?_
    refine keeps_get.bind fun before m hm => ?_
    refine (h.items hframes valueVar indexVar steps _ 0).finally' ?_ hm
    exact rules.restore _ _ _

theorem items_succ (valueVar : JsString) (indexVar : Option JsString) (steps : List Step)
    (items : List Value) (index : ℕ) :
    Keeps (P frames) Q
      (executeItems engine (n + 1) frames valueVar indexVar steps items index) := by
  match items with
  | [] => exact keeps_pure _
  | item :: items =>
      refine (rules.setVariable valueVar item).bind fun _ => ?_
      refine (Keeps.forEach (fun indexVar => rules.setVariable indexVar _) _).bind fun _ => ?_
      refine (h.block hframes steps 0).bind fun result => ?_
      split
      · exact keeps_pure _
      · exact h.items hframes valueVar indexVar steps items (index + 1)

omit rules in
theorem guarded_succ (tryBlock retryConfig exceptBlock : Value) :
    Keeps (P frames) Q
      (executeTry engine (n + 1) frames tryBlock retryConfig exceptBlock) := by
  refine (keeps_attempt _).bind fun retries => (keeps_attempt _).bind fun predicate => ?_
  exact h.attempts hframes tryBlock (truthy retryConfig) exceptBlock _ predicate 0

theorem attempts_succ (tryBlock : Value) (retry : Bool) (exceptBlock maxRetries predicate : Value)
    (count : ℕ) :
    Keeps (P frames) Q (executeAttempts engine (n + 1) frames tryBlock retry exceptBlock
      maxRetries predicate count) := by
  refine (keeps_attempt _).bind fun limit => Keeps.ite (fun _ => ?_) fun _ => keeps_pure _
  refine Keeps.catching ((keeps_attempt _).bind fun steps => h.block hframes steps 0) fun err => ?_
  refine Keeps.ite (fun _ => ?_) fun _ => h.except hframes exceptBlock err
  refine (keeps_attempt _).bind fun name => ?_
  split
  · refine (keeps_identify (rules.indifferent frames) _).bind fun errorObj => ?_
    refine (h.subworkflow hframes _ _).bind fun shouldRetry => ?_
    exact Keeps.ite (fun _ => h.attempts hframes _ _ _ _ _ _)
      fun _ => h.except hframes exceptBlock err
  · exact h.attempts hframes _ _ _ _ _ _

theorem except_succ (exceptBlock : Value) (err : Failure) :
    Keeps (P frames) Q (executeExcept engine (n + 1) frames exceptBlock err) := by
  refine Keeps.ite (fun _ => ?_) fun _ => keeps_throw _
  refine (keeps_attempt _).bind fun asVar => ?_
  have hrest : Keeps (P frames) Q (do
      let steps ← attempt (stepsOf engine exceptBlock)
      executeBlock engine n frames steps 0) :=
    (keeps_attempt _).bind fun steps => h.block hframes steps 0
  refine Keeps.ite (fun _ => ?_) fun _ => hrest
  refine (keeps_identify (rules.indifferent frames) _).bind fun object => ?_
  exact (keeps_attempt _).bind fun key => (rules.setVariable key object).bind fun _ => hrest

end Keeping

theorem Keeping.succ {n : ℕ} (h : Keeping engine P Q allowed n)
    (hblock : ∀ k < n + 1, ∀ {frames : ℕ}, allowed frames → ∀ steps i,
      Keeps (P frames) Q (executeBlock engine k frames steps i)) :
    Keeping engine P Q allowed (n + 1) where
  block hframes := h.block_succ hframes
  step hframes := h.step_succ rules hframes
  call hframes := h.call_succ rules hframes
  subworkflow hframes := rules.subworkflow hblock hframes
  switch hframes := h.switch_succ hframes
  cases hframes := h.cases_succ rules hframes
  case hframes := h.case_succ rules hframes
  loop hframes := h.loop_succ rules hframes
  items hframes := h.items_succ rules hframes
  guarded hframes := h.guarded_succ hframes
  attempts hframes := h.attempts_succ rules hframes
  except hframes := h.except_succ rules hframes

include rules

/-- What the rules are for is kept by every method. -/
theorem FrameRules.keeping (n : ℕ) : Keeping engine P Q allowed n := by
  induction n using Nat.strong_induction_on with
  | _ n ih =>
      match n with
      | 0 => exact keeping_zero rules
      | n + 1 =>
          exact (ih n (Nat.lt_succ_self n)).succ rules fun k hk => (ih k hk).block

end Invariants

/-! ## Balance of frames -/

/-- Between the increment and the final decrement the next frame is balanced; beyond the limit there
is no frame. -/
theorem balances_callSubworkflow {n : ℕ} {block : Option Block} {args : Value}
    (hframe : ∀ {frames : ℕ}, ((frames + 1 : ℕ) : ℤ) ≤ callStackDepthLimit →
      Balances past (frames + 1) (executeFrame engine n frames block args)) :
    Balances past frames (callSubworkflow engine (n + 1) frames block args) := by
  intro m hm
  obtain ⟨hdepth, hsound⟩ := hm
  rw [callSubworkflow_apply]
  by_cases hlimit : callStackDepthLimit < m.callDepth + 1
  · rw [if_pos hlimit]
    exact ⟨by simpa using hdepth, hsound⟩
  · rw [if_neg hlimit]
    have hnext : ((frames + 1 : ℕ) : ℤ) ≤ callStackDepthLimit := by
      rw [hdepth] at hlimit
      push_cast
      omega
    have hentered : Balanced past (frames + 1) { m with callDepth := m.callDepth + 1 } :=
      ⟨by simp [hdepth], hsound⟩
    refine (hframe hnext).finally' ?_ hentered
    exact fun m' hm' => ⟨by simp [hm'.1], hm'.2⟩

theorem balances_executeFrame {n : ℕ} (block : Option Block) (args : Value)
    (hblock : ∀ steps i, Balances past (frames + 1) (executeBlock engine n (frames + 1) steps i)) :
    Balances past (frames + 1) (executeFrame engine (n + 1) frames block args) := by
  match block with
  | none => exact keeps_throw _
  | some block =>
      refine (keeps_attempt _).bind fun scope => ?_
      refine (balances_inScope scope (hblock block.steps 0)).bind fun result => ?_
      split <;> exact keeps_pure _

theorem balanceRules (engine : Engine) (past : List Observation) :
    FrameRules engine (Balanced past) (Sound past) fun frames => (frames : ℤ) ≤ callStackDepthLimit where
  found _ := Balanced.sound
  indifferent _ := balanced_indifferent
  observe := balances_observe
  setVariable := balances_setVariable
  restore _ _ _ _ hm := hm
  subworkflow {n _} hblock hframes block args := by
    match n with
    | 0 => exact keeps_running fun _ => Balanced.sound
    | 1 => exact balances_callSubworkflow fun _ => keeps_running fun _ => Balanced.sound
    | n + 2 =>
        refine balances_callSubworkflow fun hnext => balances_executeFrame block args fun steps i => ?_
        exact hblock n (Nat.lt_add_of_pos_right (by decide)) hnext steps i

/-- With some fuel, every method keeps the balance of its frame. -/
abbrev Balancing (engine : Engine) (past : List Observation) (n : ℕ) : Prop :=
  Keeping engine (Balanced past) (Sound past) (fun frames => (frames : ℤ) ≤ callStackDepthLimit) n

theorem balancing (engine : Engine) (past : List Observation) (n : ℕ) : Balancing engine past n :=
  (balanceRules engine past).keeping n

/-- At every step of an execution the call depth is the number of live frames. -/
theorem sound_execute (engine : Engine) (fuel : ℕ) (args : Value) (m : Machine) :
    Sound m.observed (execute engine fuel args m).2 := by
  have hbody : ∀ finish : Option Signal → Run EngineResult,
      (∀ result, Balances m.observed 0 (finish result)) → Balances m.observed 0 (do
        let scope ← attempt (mainScope engine.host engine.definition.main args)
        let result ← inScope scope (executeBlock engine fuel 0 engine.definition.main.steps 0)
        finish result) := by
    intro finish hfinish
    refine (keeps_attempt _).bind fun scope => ?_
    have hlimit : ((0 : ℕ) : ℤ) ≤ callStackDepthLimit := by decide
    have hblock := (balancing engine m.observed fuel).block hlimit engine.definition.main.steps 0
    exact (balances_inScope scope hblock).bind hfinish
  have hstart : Balanced m.observed 0 { m with callDepth := 0 } :=
    ⟨rfl, [], rfl, fun depth hdepth => by cases hdepth⟩
  refine ((hbody _ fun result => ?_).catching fun err => keeps_pure _).found (fun _ => Balanced.sound) hstart
  split <;> exact keeps_pure _

/-- Any step that ends leaves the call depth as it was. -/
theorem callDepth_executeStep {n : ℕ} {body : Value} {m m' : Machine}
    {ending : Ending Failure (Option Signal)} (hdepth : m.callDepth = frames)
    (hframes : (frames : ℤ) ≤ callStackDepthLimit)
    (hrun : executeStep engine n frames body m = (ending, m')) (hending : ending ≠ .running) :
    m'.callDepth = m.callDepth := by
  have hstart : Balanced m.observed frames m := ⟨hdepth, [], rfl, nofun⟩
  have hended := ((balancing engine m.observed n).step hframes body).ended hstart hrun hending
  rw [hended.1, hdepth]

/-! ## The scope of the caller -/

/-- A step that calls a function. -/
structure CallStep (body fnName : Value) : Prop where
  assign : (field body "assign").isNone ∨ (field body "switch").isSome
  noReturn : field body "return" = none
  noRaise : field body "raise" = none
  call : field body "call" = some fnName

/-- The step calls a subworkflow of the definition. -/
def CallsSubworkflow (engine : Engine) (body : Value) : Prop :=
  ∃ fnName name block, CallStep body fnName ∧ textOf engine.host fnName = .ok name ∧
    engine.definition.subworkflow name = some (some block)

/-- The variable that gets the result of a call. -/
def resultVariable (host : Runtime) (body : Value) : Option JsString :=
  match field body "result" with
  | some name => if truthy name then (textOf host name).toOption else none
  | none => none

/-- What the names of a scope stand for, but for a variable, is what they stood for. -/
def SameExcept (changed : Option JsString) (scope scope' : Value) : Prop :=
  ∀ name, some name ≠ changed → property scope' name = property scope name

theorem lookup_setField (key name : JsString) (value : Value) (fields : List (JsString × Value))
    (hne : name ≠ key) : (setField key value fields).lookup name = fields.lookup name := by
  induction fields with
  | nil => simp [setField, List.lookup_cons, beq_false_of_ne hne]
  | cons entry fields ih =>
      obtain ⟨k, v⟩ := entry
      by_cases hk : k = key
      · subst hk
        simp [setField, List.lookup_cons, beq_false_of_ne hne]
      · rw [setField, if_neg hk]
        split
        · simp [List.lookup_cons, beq_false_of_ne hne]
        · rw [List.lookup_cons, List.lookup_cons, ih]

/-- Setting a property, other than `__proto__`, changes what no other name stands for. -/
theorem property_setProperty {key name : JsString} (hproto : key ≠ js "__proto__") (hne : name ≠ key)
    (value object : Value) : property (setProperty key value object) name = property object name := by
  cases object with
  | map ref proto fields =>
      have hset : setProperty key value (.map ref proto fields) =
          .map ref proto (setField key value fields) := if_neg fun h => hproto h.1
      rw [hset]
      simp only [property, prototypeOf, propertyFrom, lookup_setField key name value fields hne]
  | _ => rfl

/-- The scope is this one. -/
def ScopeIs (scope : Value) (m : Machine) : Prop := m.scope = scope

variable {scope : Value}

theorem scopeIs_indifferent : Indifferent (ScopeIs scope) := fun _ _ _ h => h

/-- Whatever happens in another scope, the scope is put back. -/
theorem keeps_inScope {α : Type} (inner : Value) (p : Run α) :
    Keeps (ScopeIs scope) (ScopeIs scope) (inScope inner p) := by
  intro m hm
  have hback : (inScope inner p m).2.scope = scope := hm
  match hrun : inScope inner p m with
  | (.value _, m') | (.thrown _, m') | (.running, m') => rwa [hrun] at hback

theorem keeps_executeFrame (n : ℕ) (block : Option Block) (args : Value) :
    Keeps (ScopeIs scope) (ScopeIs scope) (executeFrame engine n frames block args) := by
  match n, block with
  | 0, _ => exact keeps_running fun _ h => h
  | _ + 1, none => exact keeps_throw _
  | n + 1, some block =>
      refine (keeps_attempt _).bind fun inner => (keeps_inScope inner _).bind fun result => ?_
      split <;> exact keeps_pure _

theorem keeps_callSubworkflow (n : ℕ) (block : Option Block) (args : Value) :
    Keeps (ScopeIs scope) (ScopeIs scope) (callSubworkflow engine n frames block args) := by
  match n with
  | 0 => exact keeps_running fun _ h => h
  | n + 1 =>
      intro m hm
      rw [callSubworkflow_apply]
      by_cases hlimit : callStackDepthLimit < m.callDepth + 1
      · rw [if_pos hlimit]
        exact hm
      · rw [if_neg hlimit]
        have hentered : ScopeIs scope { m with callDepth := m.callDepth + 1 } := hm
        refine (keeps_executeFrame n block args).finally' ?_ hentered
        exact fun m' hm' => hm'

theorem keeps_executeCall (n : ℕ) (fnName rawArgs : Value) :
    Keeps (ScopeIs scope) (ScopeIs scope) (executeCall engine n frames fnName rawArgs) := by
  match n with
  | 0 => exact keeps_running fun _ h => h
  | n + 1 =>
      refine (keeps_attempt _).bind fun fields => ?_
      refine (keeps_resolveArgs scopeIs_indifferent fields emptyObject).bind fun args => ?_
      refine (keeps_attempt _).bind fun name => ?_
      split
      · exact keeps_callSubworkflow n _ args
      · exact keeps_callStdlib scopeIs_indifferent fnName args

/-- What leaves every scope alone keeps whatever holds of the scope. -/
theorem keeps_of_scope {α : Type} {p : Run α} {R : Value → Prop}
    (hp : ∀ scope, Keeps (ScopeIs scope) (ScopeIs scope) p) :
    Keeps (fun m => R m.scope) (fun m => R m.scope) p := by
  intro m hm
  have hscope : (p m).2.scope = m.scope := (hp m.scope).found (fun _ h => h) rfl
  match hrun : p m with
  | (.value _, m') | (.thrown _, m') | (.running, m') =>
      rw [hrun] at hscope
      show R m'.scope
      rw [show m'.scope = m.scope from hscope]
      exact hm

theorem has_ok {host : Runtime} {body : Value} {found : Bool}
    (hhas : has host "assign" body = .ok found) : found = (field body "assign").isSome := by
  unfold has at hhas
  split at hhas
  · exact (Except.ok.inj hhas).symm
  · cases hhas

/-- The result of a call is stored under the name of the result variable. -/
theorem resultVariable_eq {host : Runtime} {body : Value} {key : JsString}
    (htruthy : truthy ((field body "result").getD .undefined))
    (hkey : textOf host ((field body "result").getD .undefined) = .ok key) :
    resultVariable host body = some key := by
  unfold resultVariable
  cases hfield : field body "result" with
  | none => rw [hfield] at htruthy; cases htruthy
  | some name =>
      rw [hfield] at htruthy hkey
      simp only [Option.getD_some] at htruthy hkey
      simp only [htruthy, if_true, hkey]
      rfl

/-- A call step changes the scope of its frame in the result variable at most. -/
theorem sameExcept_executeStep {n : ℕ} {body fnName : Value} (hcall : CallStep body fnName)
    (hresult : resultVariable engine.host body ≠ some (js "__proto__")) (m : Machine) :
    SameExcept (resultVariable engine.host body) m.scope
      (executeStep engine n frames body m).2.scope := by
  have hkeeps : Keeps (fun m' => SameExcept (resultVariable engine.host body) m.scope m'.scope)
      (fun m' => SameExcept (resultVariable engine.host body) m.scope m'.scope)
      (executeStep engine n frames body) := by
    match n with
    | 0 => exact keeps_running fun _ h => h
    | n + 1 =>
        refine Keeps.bind (fun _ h => h) fun _ => (keeps_attempt _).bind fun nextTarget => ?_
        refine keeps_attempt_bind fun assigns hassigns => ?_
        have hbranch : ¬ (assigns = true ∧ (field body "switch").isNone = true) := by
          rw [has_ok hassigns]
          rintro ⟨hassign, hswitch⟩
          rcases hcall.assign with h | h
          · simp_all
          · rw [Option.isNone_iff_eq_none.1 hswitch] at h
            cases h
        simp only [if_neg hbranch, hcall.noReturn, hcall.noRaise, hcall.call]
        refine Keeps.bind (keeps_of_scope fun _ => keeps_executeCall n _ _) fun result => ?_
        refine Keeps.ite (fun htruthy => ?_) fun _ => keeps_pure _
        refine keeps_attempt_bind fun key hkey => ?_
        have hvariable := resultVariable_eq htruthy hkey
        rw [hvariable] at hresult ⊢
        refine Keeps.bind (fun m' hm' name hname => ?_) fun _ => keeps_pure _
        calc
          property (setProperty key result m'.scope) name = property m'.scope name :=
            property_setProperty (fun h => hresult (congrArg some h))
              (fun h => hname (congrArg some h)) result m'.scope
          _ = property m.scope name := hm' name hname
  exact hkeeps.found (fun _ h => h) fun _ _ => rfl

/-! ## A result variable that replaces the prototype -/

/-- A map with these fields. -/
def mapOf (ref : ℕ) (fields : List (String × Value)) : Value :=
  .map (some ref) .objectPrototype (fields.map fun (key, value) => (js key, value))

/-- The step calls a subworkflow that returns a map, with `__proto__` as its result variable. -/
def leakingStep : Value :=
  mapOf 0 [("call", .str "settings"), ("result", .str "__proto__")]

/-- The subworkflow returns a map that has `limit`. -/
def leakingEngine : Engine where
  host := plainRuntime
  stdlib _ _ _ := .ok (.value .null)
  definition := {
    main := ⟨.undefined, [⟨"load", leakingStep⟩]⟩
    subworkflows := [(js "settings",
      ⟨.undefined, [⟨"done", mapOf 1 [("return", mapOf 2 [("limit", .str "low")])]⟩]⟩)]
    prototype := none }

theorem callsSubworkflow_leakingStep : CallsSubworkflow leakingEngine leakingStep :=
  ⟨.str "settings", js "settings", _, ⟨.inl rfl, rfl, rfl, rfl⟩, rfl, rfl⟩

/-- The call changes what another name than the result variable stands for. -/
theorem leakingStep_changes_limit :
    CallsSubworkflow leakingEngine leakingStep ∧
      resultVariable leakingEngine.host leakingStep = some (js "__proto__") ∧
      property newMachine.scope (js "limit") = none ∧
      property (executeStep leakingEngine 9 0 leakingStep newMachine).2.scope (js "limit") =
        some (.str "low") :=
  ⟨callsSubworkflow_leakingStep, by rfl, by rfl, by rfl⟩

theorem leakingStep_not_sameExcept :
    ¬ SameExcept (some (js "__proto__")) newMachine.scope
      (executeStep leakingEngine 9 0 leakingStep newMachine).2.scope := by
  intro hsame
  have hlimit := hsame (js "limit") (by decide +kernel)
  have hafter : (property (executeStep leakingEngine 9 0 leakingStep newMachine).2.scope
      (js "limit")).isSome := by decide +kernel
  rw [hlimit] at hafter
  exact absurd hafter (by decide +kernel)

/-- **Isolation of subworkflows.** At every step of an execution the call depth is the number of live
frames and within the limit; a call of a subworkflow that ends leaves it as it was; and whatever the
subworkflow does, the call changes no variable but this result variable. All of it holds if and only if
the result variable is not `__proto__`. -/
theorem subworkflow_isolation (changed : Option JsString) :
    ((∀ engine fuel args, ∀ o ∈ (execute engine fuel args newMachine).2.observed,
        o.callDepth = o.frames ∧ o.callDepth ≤ callStackDepthLimit) ∧
      (∀ engine n (frames : ℕ) body m m' ending, CallsSubworkflow engine body →
        m.callDepth = (frames : ℤ) → m.callDepth ≤ callStackDepthLimit →
        executeStep engine n frames body m = (ending, m') → ending ≠ .running →
        m'.callDepth = m.callDepth) ∧
      ∀ engine n frames body m, CallsSubworkflow engine body →
        resultVariable engine.host body = changed →
        SameExcept changed m.scope (executeStep engine n frames body m).2.scope) ↔
      changed ≠ some (js "__proto__") := by
  constructor
  · rintro ⟨-, -, hisolated⟩ rfl
    exact leakingStep_not_sameExcept
      (hisolated leakingEngine 9 0 leakingStep newMachine callsSubworkflow_leakingStep (by rfl))
  · intro hproto
    refine ⟨fun engine fuel args o ho => ?_, fun engine n frames body m m' ending _ hdepth hlimit hrun
      hending => ?_, ?_⟩
    · obtain ⟨added, hobserved, hsound⟩ := sound_execute engine fuel args newMachine
      have hmem : o ∈ added := by
        rw [hobserved] at ho
        exact (List.mem_append.1 ho).elim id nofun
      obtain ⟨hdepth, hframes⟩ := hsound o hmem
      exact ⟨hdepth, hdepth ▸ hframes⟩
    · exact callDepth_executeStep hdepth (hdepth ▸ hlimit) hrun hending
    · rintro engine n frames body m ⟨fnName, name, block, hcall, -⟩ rfl
      exact sameExcept_executeStep hcall hproto m

end Kinglet.Workflows
