import Kinglet.Workflows.Isolation
import Kinglet.Workflows.Lookup

/-!
# Loop variables

A `for` step puts its variables back whichever way the iterations end (`executeFor_scopes_iff`). What
they were is put back as properties of their own, so the law can fail in two ways. A loop variable that
was unbound stays bound if the iterations leave a prototype that has it. And a loop variable named
`__proto__` is the prototype of the variables, which takes other names with it when it is put back.
-/

namespace Kinglet.Workflows

open Js Library Library.Procedure

/-! ## The loop -/

section Loop

variable (engine : Engine) (frames : ℕ) (forDef : Value)

/-- `executeFor(forDef, scope)` with another final step, which is told the loop variables and the scope
before the loop. -/
def forLoop (n : ℕ) (last : JsString → Option JsString → Value → Machine → Machine) :
    Run (Option Signal) := do
  let valueVar ← attempt (read engine.host forDef "value")
  let indexVar ← attempt (read engine.host forDef "index")
  let collection ← attempt (read engine.host forDef "in")
  let collection ← resolveValue engine collection
  let steps ← attempt (stepsOf engine forDef)
  match elementsOf collection with
  | none => throw (workflowError "for loop requires an iterable (list)" "TypeError")
  | some items =>
      let valueVar ← attempt (textOf engine.host valueVar)
      let indexVar ← attempt (if truthy indexVar then (textOf engine.host indexVar).map some
        else .ok none)
      let before ← get
      finally' (executeItems engine n frames valueVar indexVar steps items 0)
        (last valueVar indexVar before.scope)

/-- The step without its final step: what the iterations that are executed leave. -/
def forIterations : ℕ → Run (Option Signal)
  | 0 => running
  | n + 1 => forLoop engine frames forDef n fun _ _ _ m => m

theorem executeFor_eq_forLoop (n : ℕ) :
    executeFor engine (n + 1) frames forDef = forLoop engine frames forDef n
      fun valueVar indexVar before m =>
        { m with scope := restoreLoopVars valueVar indexVar before m.scope } := by
  unfold executeFor
  rfl

end Loop

/-- The variables of a loop by their names. -/
structure LoopVariables (host : Runtime) (forDef : Value) (valueVar : JsString)
    (indexVar : Option JsString) : Prop where
  value : textOf host ((property forDef "value").getD .undefined) = .ok valueVar
  index : (if truthy ((property forDef "index").getD .undefined) then
      (textOf host ((property forDef "index").getD .undefined)).map some else .ok none) = .ok indexVar

variable {engine : Engine} {frames : ℕ} {forDef : Value} {valueVar : JsString}
  {indexVar : Option JsString}

theorem read_ok {host : Runtime} {value found : Value} {key : String}
    (h : read host value key = .ok found) : found = (property value key).getD .undefined := by
  unfold read at h
  split at h
  · cases h
  · cases h
  · exact (Except.ok.inj h).symm

/-- Before the iterations the scope is as it was, and the final step makes no difference. -/
theorem forLoop_cases (hvars : LoopVariables engine.host forDef valueVar indexVar) (n : ℕ)
    (m : Machine) :
    ∃ m', m'.scope = m.scope ∧
      ((∃ failure, ∀ last, forLoop engine frames forDef n last m = (.thrown failure, m')) ∨
        ∃ steps items, ∀ last, forLoop engine frames forDef n last m =
          finally' (executeItems engine n frames valueVar indexVar steps items 0)
            (last valueVar indexVar m.scope) m') := by
  unfold forLoop
  cases hvalue : read engine.host forDef "value" with
  | error failure => exact ⟨m, rfl, .inl ⟨failure, fun _ => rfl⟩⟩
  | ok value =>
    cases hindex : read engine.host forDef "index" with
    | error failure => exact ⟨m, rfl, .inl ⟨failure, fun _ => rfl⟩⟩
    | ok index =>
      cases read engine.host forDef "in" with
      | error failure => exact ⟨m, rfl, .inl ⟨failure, fun _ => rfl⟩⟩
      | ok collection =>
        -- resolving the collection leaves the scope alone and ends
        have hresolve : Keeps (ScopeIs m.scope) (fun _ => False)
            (resolveValue engine collection) := keeps_resolveValue scopeIs_indifferent collection
        have hkept := hresolve m rfl
        rw [read_ok hvalue, read_ok hindex]
        simp only [attempt_ok_bind]
        match hrun : resolveValue engine collection m with
        | (.running, m') =>
          rw [hrun] at hkept
          exact hkept.elim
        | (.thrown failure, m') =>
          rw [hrun] at hkept
          refine ⟨m', hkept, .inl ⟨failure, fun last => ?_⟩⟩
          simp only [Bind.bind, hrun]
        | (.value items, m') =>
          rw [hrun] at hkept
          have hscope : m'.scope = m.scope := hkept
          have hbind {β : Type} (f : Value → Run β) :
              (resolveValue engine collection >>= f) m = f items m' := by
            simp only [Bind.bind, hrun]
          simp only [hbind]
          cases stepsOf engine forDef with
          | error failure => exact ⟨m', hscope, .inl ⟨failure, fun _ => rfl⟩⟩
          | ok steps =>
            simp only [attempt_ok_bind]
            cases elementsOf items with
            | none => exact ⟨m', hscope, .inl ⟨_, fun _ => rfl⟩⟩
            | some items =>
              rw [hvars.value, hvars.index, ← hscope]
              exact ⟨m', rfl, .inr ⟨steps, items, fun last => rfl⟩⟩

/-! ## Scopes -/

theorem isMap_setProperty {scope : Value} (key : JsString) (value : Value) (h : isMap scope) :
    isMap (setProperty key value scope) := by
  cases scope with
  | map ref proto fields =>
    simp only [setProperty]
    split
    · split <;> rfl
    · rfl
  | _ => cases h

theorem isMap_restoreVariable {scope : Value} (key : JsString) (before : Option Value)
    (h : isMap scope) : isMap (restoreVariable key before scope) := by
  cases before with
  | some value => exact isMap_setProperty key value h
  | none => cases scope <;> first | rfl | cases h

theorem isMap_restoreLoopVars {scope : Value} (valueVar : JsString) (indexVar : Option JsString)
    (before : Value) (h : isMap scope) :
    isMap (restoreLoopVars valueVar indexVar before scope) := by
  cases indexVar with
  | some indexVar => exact isMap_restoreVariable _ _ (isMap_restoreVariable _ _ h)
  | none => exact isMap_restoreVariable _ _ h

/-- The variables are an object, whatever the methods do. -/
theorem scopeRules (engine : Engine) : FrameRules engine (fun _ m => isMap m.scope)
    (fun m => isMap m.scope) fun _ => True where
  found _ h := h
  indifferent _ _ _ _ h := h
  observe _ := keeps_modify fun _ h => h
  setVariable key value := keeps_modify fun _ h => isMap_setProperty key value h
  restore valueVar indexVar before _ h := isMap_restoreLoopVars valueVar indexVar before h
  subworkflow _ _ block args :=
    keeps_of_scope (R := fun scope => isMap scope) fun _ => keeps_callSubworkflow _ block args

/-- What a scope inherits under a name. -/
def inherited (scope : Value) (name : JsString) : Option Value :=
  propertyFrom (prototypeOf scope) name (prototypeOf scope)

theorem lookup_setField_self (key : JsString) (value : Value) (fields : List (JsString × Value)) :
    (setField key value fields).lookup key = some value := by
  induction fields with
  | nil => simp [setField]
  | cons entry fields ih =>
    obtain ⟨k, v⟩ := entry
    rw [setField]
    split
    · simp
    · rename_i hk
      split
      · simp
      · rw [List.lookup_cons, beq_false_of_ne fun h => hk h.symm]
        exact ih

theorem lookup_filter_ne (key name : JsString) (fields : List (JsString × Value)) :
    (fields.filter fun field => field.1 ≠ key).lookup name =
      if name = key then none else fields.lookup name := by
  induction fields with
  | nil => simp
  | cons entry fields ih =>
    obtain ⟨k, v⟩ := entry
    by_cases hk : k = key
    · rw [List.filter_cons_of_neg (by simp [hk]), ih]
      split
      · rfl
      · rename_i hname
        rw [List.lookup_cons, beq_false_of_ne fun h => hname (h.trans hk)]
    · rw [List.filter_cons_of_pos (by simp [hk]), List.lookup_cons, List.lookup_cons, ih]
      by_cases hname : name = k
      · rw [hname]
        simp [hk]
      · rw [beq_false_of_ne hname]

/-- Putting a variable back, other than `__proto__`, makes its old value its own. -/
theorem restoreVariable_map {key : JsString} (hproto : key ≠ js "__proto__") (before : Option Value)
    (ref : Option ℕ) (proto : Value) (fields : List (JsString × Value)) :
    ∃ fields', restoreVariable key before (.map ref proto fields) = .map ref proto fields' ∧
      ∀ name, fields'.lookup name = if name = key then before else fields.lookup name := by
  cases before with
  | some value =>
    refine ⟨setField key value fields, if_neg fun h => hproto h.1, fun name => ?_⟩
    split
    · rename_i hname
      rw [hname, lookup_setField_self]
    · rename_i hname
      exact lookup_setField key name value fields hname
  | none => exact ⟨_, rfl, fun name => lookup_filter_ne key name fields⟩

/-! ## The law -/

/-- What a `for` step does to the variables: a loop variable stands for what it stood for before, or
for nothing if it stood for nothing, and every other name for what it stands for after the
iterations. -/
structure ScopesLoop (valueVar : JsString) (indexVar : Option JsString) (before iterated after : Value) :
    Prop where
  restored : ∀ name, name = valueVar ∨ indexVar = some name → property after name = property before name
  kept : ∀ name, ¬ (name = valueVar ∨ indexVar = some name) →
    property after name = property iterated name

/-- The iterations leave no prototype that has a loop variable that stood for nothing. -/
def LeavesUnbound (valueVar : JsString) (indexVar : Option JsString) (before iterated : Value) : Prop :=
  ∀ name, name = valueVar ∨ indexVar = some name → property before name = none →
    inherited iterated name = none

theorem property_map (ref : Option ℕ) (proto : Value) (fields : List (JsString × Value))
    (name : JsString) :
    property (.map ref proto fields) name =
      (fields.lookup name).or (inherited (.map ref proto fields) name) := by
  simp only [property, inherited, prototypeOf, propertyFrom]
  cases fields.lookup name <;> rfl

/-- Putting the loop variables back, none of which is `__proto__`. -/
theorem restoreLoopVars_map (hvalue : valueVar ≠ js "__proto__")
    (hindex : indexVar ≠ some (js "__proto__")) (before : Value) (ref : Option ℕ) (proto : Value)
    (fields : List (JsString × Value)) :
    ∃ fields', restoreLoopVars valueVar indexVar before (.map ref proto fields) =
        .map ref proto fields' ∧
      (∀ name, name = valueVar ∨ indexVar = some name → fields'.lookup name = property before name) ∧
      ∀ name, ¬ (name = valueVar ∨ indexVar = some name) → fields'.lookup name = fields.lookup name := by
  obtain ⟨fields₁, hrestored₁, hlookup₁⟩ :=
    restoreVariable_map hvalue (property before valueVar) ref proto fields
  cases indexVar with
  | none =>
    refine ⟨fields₁, hrestored₁, fun name hname => ?_, fun name hname => ?_⟩
    · have hname := hname.resolve_right (by simp)
      rw [hlookup₁, if_pos hname, hname]
    · rw [hlookup₁, if_neg fun h => hname (.inl h)]
  | some indexVar =>
    obtain ⟨fields₂, hrestored₂, hlookup₂⟩ := restoreVariable_map (fun h => hindex (congrArg some h))
      (property before indexVar) ref proto fields₁
    refine ⟨fields₂, ?_, fun name hname => ?_, fun name hname => ?_⟩
    · rw [restoreLoopVars, hrestored₁, hrestored₂]
    · rw [hlookup₂, hlookup₁]
      by_cases hsame : name = indexVar
      · rw [if_pos hsame, hsame]
      · have hname := hname.resolve_right fun h => hsame (Option.some.inj h).symm
        rw [if_neg hsame, if_pos hname, hname]
    · rw [hlookup₂, if_neg fun h => hname (.inr (congrArg some h.symm)), hlookup₁,
        if_neg fun h => hname (.inl h)]

/-- With other loop variables than `__proto__`, putting them back keeps the law if and only if the
prototype has none that was unbound. -/
theorem scopesLoop_iff (hvalue : valueVar ≠ js "__proto__")
    (hindex : indexVar ≠ some (js "__proto__")) {before iterated : Value} (hmap : isMap iterated) :
    ScopesLoop valueVar indexVar before iterated (restoreLoopVars valueVar indexVar before iterated) ↔
      LeavesUnbound valueVar indexVar before iterated := by
  cases iterated with
  | map ref proto fields =>
    obtain ⟨fields', hrestored, hloop, hother⟩ :=
      restoreLoopVars_map hvalue hindex before ref proto fields
    have hinherited : ∀ name, inherited (.map ref proto fields') name =
        inherited (.map ref proto fields) name := fun _ => rfl
    rw [hrestored]
    constructor
    · intro hlaw name hname hunbound
      have hafter := hlaw.restored name hname
      rw [property_map, hloop name hname, hunbound] at hafter
      exact hafter
    · intro hunbound
      refine ⟨fun name hname => ?_, fun name hname => ?_⟩
      · rw [property_map, hloop name hname]
        cases hbefore : property before name with
        | some value => rfl
        | none => exact hunbound name hname hbefore
      · rw [property_map, property_map, hother name hname, hinherited]
  | _ => cases hmap

theorem LeavesUnbound.refl {scope : Value} (hmap : isMap scope) :
    LeavesUnbound valueVar indexVar scope scope := by
  intro name _ hunbound
  cases scope with
  | map ref proto fields =>
    rw [property_map] at hunbound
    exact (Option.or_eq_none_iff.1 hunbound).2
  | _ => cases hmap

/-- A run of a `for` step whose loop variables are not `__proto__`. -/
theorem executeFor_scopes (hvars : LoopVariables engine.host forDef valueVar indexVar)
    (hvalue : valueVar ≠ js "__proto__") (hindex : indexVar ≠ some (js "__proto__")) {n : ℕ}
    {m : Machine} (hmap : isMap m.scope)
    (hended : (executeFor engine n frames forDef m).1 ≠ .running) :
    ScopesLoop valueVar indexVar m.scope (forIterations engine frames forDef n m).2.scope
        (executeFor engine n frames forDef m).2.scope ↔
      LeavesUnbound valueVar indexVar m.scope (forIterations engine frames forDef n m).2.scope := by
  cases n with
  | zero => exact absurd rfl hended
  | succ n =>
    rw [executeFor_eq_forLoop] at hended ⊢
    rw [forIterations]
    obtain ⟨m', hscope, ⟨failure, hthrown⟩ | ⟨steps, items, hitems⟩⟩ :=
      forLoop_cases hvars n m
    · rw [hthrown, hthrown, hscope]
      exact iff_of_true ⟨fun _ _ => rfl, fun _ _ => rfl⟩ (.refl hmap)
    · rw [hitems] at hended ⊢
      rw [hitems]
      have hmap' : isMap m'.scope := by rwa [hscope]
      have hkeeps : Keeps (fun m => isMap m.scope) (fun m => isMap m.scope)
          (executeItems engine n frames valueVar indexVar steps items 0) :=
        ((scopeRules engine).keeping n).items trivial valueVar indexVar steps items 0
      have hkept := hkeeps m' hmap'
      simp only [finally'] at hended ⊢
      rcases hrun : executeItems engine n frames valueVar indexVar steps items 0 m' with ⟨outcome, m''⟩
      rw [hrun] at hkept
      cases outcome with
      | running =>
        rw [hrun] at hended
        exact absurd rfl hended
      | value _ | thrown _ => exact scopesLoop_iff hvalue hindex hkept

/-! ## A loop variable that is the prototype -/

/-- A loop over one value, whose block assigns an empty list to `__proto__`. -/
def protoLoop (valueVar : JsString) (indexVar : Option JsString) : Value :=
  .map (some 0) .objectPrototype
    ([(js "value", .str valueVar), (js "in", .list (some 1) [.bool true]),
      (js "steps", .list (some 2) [mapOf 3 [("set",
        mapOf 4 [("assign", .list (some 5) [mapOf 6 [("__proto__", .list (some 7) [])]])])]])] ++
      indexVar.toList.map fun indexVar => (js "index", .list (some 8) [.str indexVar]))

def protoEngine : Engine := ⟨plainRuntime, fun _ _ _ => .ok (.value .null), plainDefinition⟩

theorem loopVariables_protoLoop (valueVar : JsString) (indexVar : Option JsString) :
    LoopVariables protoEngine.host (protoLoop valueVar indexVar) valueVar indexVar := by
  cases indexVar with
  | none => exact ⟨rfl, rfl⟩
  | some indexVar =>
    refine ⟨rfl, ?_⟩
    show (textOf plainRuntime (.list (some 8) [.str indexVar])).map some = _
    simp [textOf, toText, elementTexts, join, Except.map]

def protoSteps : List Step :=
  [⟨js "set", mapOf 4 [("assign", .list (some 5) [mapOf 6 [("__proto__", .list (some 7) [])]])]⟩]

/-- The scope of the iteration, and what its block makes of it. -/
def iteration (valueVar : JsString) (indexVar : Option JsString) (scope : Value) : Value :=
  indexVar.elim (setProperty valueVar (.bool true) scope) fun indexVar =>
    setProperty indexVar (.num (natNumber 0)) (setProperty valueVar (.bool true) scope)

theorem executeItems_protoLoop (valueVar : JsString) (indexVar : Option JsString) (m : Machine) :
    ∃ m' ref, executeItems protoEngine 6 0 valueVar indexVar protoSteps [.bool true] 0 m =
        (.value none, m') ∧
      m'.scope = setProperty (js "__proto__") (.list (some ref) []) (iteration valueVar indexVar m.scope) := by
  cases indexVar with
  | none => exact ⟨_, m.nextRef, rfl, rfl⟩
  | some indexVar => exact ⟨_, m.nextRef, rfl, rfl⟩

theorem forLoop_protoLoop (valueVar : JsString) (indexVar : Option JsString) (m : Machine)
    (last : JsString → Option JsString → Value → Machine → Machine) :
    forLoop protoEngine 0 (protoLoop valueVar indexVar) 6 last m =
      finally' (executeItems protoEngine 6 0 valueVar indexVar protoSteps [.bool true] 0)
        (last valueVar indexVar m.scope) { m with nextRef := m.nextRef + 1 } := by
  have hvars := loopVariables_protoLoop valueVar indexVar
  have hread : ∀ key : String, read protoEngine.host (protoLoop valueVar indexVar) key =
      .ok ((property (protoLoop valueVar indexVar) key).getD .undefined) := fun _ => rfl
  have hin : (property (protoLoop valueVar indexVar) "in").getD .undefined =
      .list (some 1) [.bool true] := by cases indexVar <;> rfl
  have hsteps : stepsOf protoEngine (protoLoop valueVar indexVar) = .ok protoSteps := by
    cases indexVar <;> rfl
  unfold forLoop
  rw [hread, hread, hread, attempt_ok_bind, attempt_ok_bind, attempt_ok_bind, hin, hsteps]
  have hresolve : resolveValue protoEngine (.list (some 1) [.bool true]) m =
      (.value (.list (some m.nextRef) [.bool true]), { m with nextRef := m.nextRef + 1 }) := rfl
  have hbind {β : Type} (f : Value → Run β) :
      (resolveValue protoEngine (.list (some 1) [.bool true]) >>= f) m =
        f (.list (some m.nextRef) [.bool true]) { m with nextRef := m.nextRef + 1 } := by
    simp only [Bind.bind, hresolve]
  rw [hbind, attempt_ok_bind]
  show (attempt (textOf protoEngine.host _) >>= _) _ = _
  rw [hvars.value, attempt_ok_bind, hvars.index]
  rfl

/-- The loop variables but `__proto__` are bound. -/
def protoScope (valueVar : JsString) (indexVar : Option JsString) : Value :=
  .map none .objectPrototype
    (((valueVar :: indexVar.toList).filter fun name => name ≠ js "__proto__").map fun name => (name, .null))

/-- A scope with this prototype, in which a name is no variable. -/
def Hides (name : JsString) (proto scope : Value) : Prop :=
  ∃ ref fields, scope = .map ref proto fields ∧ fields.lookup name = none ∧
    fields.lookup (js "__proto__") = none

theorem Hides.setPrototype {name : JsString} {proto scope value : Value} (h : Hides name proto scope)
    (haccessor : findsAccessor proto) (hvalue : isPrototype value) :
    Hides name value (setProperty (js "__proto__") value scope) := by
  obtain ⟨ref, fields, rfl, hname, hproto⟩ := h
  refine ⟨ref, fields, ?_, hname, hproto⟩
  rw [setProperty, if_pos ⟨rfl, by simp [findsAccessor, hproto, haccessor]⟩, if_pos hvalue]

theorem Hides.setProperty {name key : JsString} {proto scope value : Value}
    (h : Hides name proto scope) (haccessor : findsAccessor proto) (hvalue : ¬ isPrototype value)
    (hne : name ≠ key) : Hides name proto (setProperty key value scope) := by
  obtain ⟨ref, fields, rfl, hname, hproto⟩ := h
  by_cases hkey : key = js "__proto__"
  · refine ⟨ref, fields, ?_, hname, hproto⟩
    rw [Workflows.setProperty, if_pos ⟨hkey, by simp [findsAccessor, hproto, haccessor]⟩,
      if_neg hvalue]
  · refine ⟨ref, setField key value fields, if_neg fun h => hkey h.1, ?_, ?_⟩
    · rw [lookup_setField key name value fields hne, hname]
    · rw [lookup_setField key _ value fields fun h => hkey h.symm, hproto]

theorem Hides.restoreVariable {name key : JsString} {proto scope before : Value}
    (h : Hides name proto scope) (haccessor : findsAccessor proto) (hne : name ≠ key)
    (hbefore : key = js "__proto__" → property before key = some .objectPrototype) :
    Hides name (if key = js "__proto__" then .objectPrototype else proto)
      (restoreVariable key (property before key) scope) := by
  by_cases hkey : key = js "__proto__"
  · rw [if_pos hkey, hbefore hkey, hkey]
    exact h.setPrototype haccessor rfl
  · obtain ⟨ref, fields, rfl, hname, hproto⟩ := h
    obtain ⟨fields', hrestored, hlookup⟩ :=
      restoreVariable_map hkey (property before key) ref proto fields
    rw [if_neg hkey, hrestored]
    refine ⟨ref, fields', rfl, ?_, ?_⟩
    · rw [hlookup, if_neg hne, hname]
    · rw [hlookup, if_neg fun h => hkey h.symm, hproto]

theorem lookup_protoScope (valueVar : JsString) (indexVar : Option JsString) (name : JsString) :
    (((valueVar :: indexVar.toList).filter fun name => name ≠ js "__proto__").map
        fun name => (name, Value.null)).lookup name =
      if name ≠ js "__proto__" ∧ (name = valueVar ∨ indexVar = some name) then some .null else none := by
  have hmem : name ∈ (valueVar :: indexVar.toList).filter (fun name => name ≠ js "__proto__") ↔
      name ≠ js "__proto__" ∧ (name = valueVar ∨ indexVar = some name) := by
    rw [List.mem_filter, List.mem_cons, Option.mem_toList, and_comm]
    simp
  split
  · rename_i hvars
    exact List.lookup_graph (fun _ => Value.null) (hmem.2 hvars)
  · rename_i hvars
    refine List.lookup_eq_none_iff.2 fun entry hentry => ?_
    obtain ⟨key, hkey, rfl⟩ := List.mem_map.1 hentry
    have hne : name ≠ key := by
      rintro rfl
      exact hvars (hmem.1 hkey)
    simp [hne]

theorem hides_protoScope {name : JsString} (hname : ¬ (name = valueVar ∨ indexVar = some name)) :
    Hides name .objectPrototype (protoScope valueVar indexVar) := by
  refine ⟨none, _, rfl, ?_, ?_⟩
  · rw [lookup_protoScope, if_neg fun h => hname h.2]
  · rw [lookup_protoScope, if_neg fun h => h.1 rfl]

/-- Every loop variable stands for something in the scope before the loop. -/
theorem property_protoScope (name : JsString) (hname : name = valueVar ∨ indexVar = some name) :
    property (protoScope valueVar indexVar) name =
      if name = js "__proto__" then some .objectPrototype else some .null := by
  rw [protoScope, property_map, lookup_protoScope]
  by_cases hproto : name = js "__proto__"
  · rw [if_pos hproto, if_neg fun h => h.1 hproto, hproto]
    rfl
  · rw [if_neg hproto, if_pos ⟨hproto, hname⟩]
    rfl

/-- A function of lists that is no loop variable, when one of the two is `__proto__`. -/
theorem exists_hidden (hproto : valueVar = js "__proto__" ∨ indexVar = some (js "__proto__")) :
    ∃ name, (name = js "at" ∨ name = js "push") ∧ ¬ (name = valueVar ∨ indexVar = some name) := by
  by_cases hat : js "at" = valueVar ∨ indexVar = some (js "at")
  · refine ⟨js "push", .inr rfl, ?_⟩
    rcases hproto with rfl | rfl <;> rcases hat with hat | hat
    · exact absurd hat (by decide)
    · rw [hat]
      decide
    · rw [← hat]
      decide
    · exact absurd hat (by decide)
  · exact ⟨js "at", .inl rfl, hat⟩

theorem Hides.property_eq {name : JsString} {proto scope : Value} (h : Hides name proto scope) :
    property scope name = propertyFrom proto name proto := by
  obtain ⟨ref, fields, rfl, hname, -⟩ := h
  rw [property_map, hname]
  rfl

theorem Hides.iteration {name : JsString} {scope : Value} (h : Hides name .objectPrototype scope)
    (hname : ¬ (name = valueVar ∨ indexVar = some name)) :
    Hides name .objectPrototype (iteration valueVar indexVar scope) := by
  have hvalue : Hides name .objectPrototype (Workflows.setProperty valueVar (.bool true) scope) :=
    h.setProperty rfl (by decide) fun hsame => hname (.inl hsame)
  cases indexVar with
  | none => exact hvalue
  | some indexVar =>
    exact hvalue.setProperty rfl (by simp [isPrototype]) fun hsame =>
      hname (.inr (congrArg some hsame.symm))

/-- Putting the loop variables back puts the prototype back, which one of them is. -/
theorem Hides.restoreLoopVars {name : JsString} {proto scope : Value} (h : Hides name proto scope)
    (haccessor : findsAccessor proto) (hname : ¬ (name = valueVar ∨ indexVar = some name))
    (hproto : valueVar = js "__proto__" ∨ indexVar = some (js "__proto__")) :
    Hides name .objectPrototype
      (restoreLoopVars valueVar indexVar (protoScope valueVar indexVar) scope) := by
  have hbefore : ∀ key, key = valueVar ∨ indexVar = some key → key = js "__proto__" →
      property (protoScope valueVar indexVar) key = some .objectPrototype := by
    intro key hkey hsame
    rw [property_protoScope key hkey, if_pos hsame]
  have hvalue := h.restoreVariable haccessor (fun hsame => hname (.inl hsame))
    (hbefore valueVar (.inl rfl))
  cases indexVar with
  | none =>
    rw [if_pos (hproto.resolve_right (by simp))] at hvalue
    exact hvalue
  | some indexVar =>
    have hfinds : findsAccessor (if valueVar = js "__proto__" then .objectPrototype else proto) := by
      split
      · rfl
      · exact haccessor
    have hindex := hvalue.restoreVariable hfinds
      (fun hsame => hname (.inr (congrArg some hsame.symm))) (hbefore indexVar (.inr rfl))
    have hprototype : (if indexVar = js "__proto__" then .objectPrototype
        else if valueVar = js "__proto__" then .objectPrototype else proto) =
          Value.objectPrototype := by
      rcases hproto with hproto | hproto
      · rw [if_pos hproto, ite_self]
      · rw [if_pos (Option.some.inj hproto)]
    rw [hprototype] at hindex
    exact hindex

/-- The loop puts the prototype back, and a name that the list has is hidden again. -/
theorem protoLoop_not_scopesLoop
    (hproto : valueVar = js "__proto__" ∨ indexVar = some (js "__proto__")) :
    ¬ ScopesLoop valueVar indexVar (protoScope valueVar indexVar)
      (forIterations protoEngine 0 (protoLoop valueVar indexVar) 7
        { newMachine with scope := protoScope valueVar indexVar }).2.scope
      (executeFor protoEngine 7 0 (protoLoop valueVar indexVar)
        { newMachine with scope := protoScope valueVar indexVar }).2.scope := by
  intro hlaw
  obtain ⟨name, hname, hother⟩ := exists_hidden hproto
  rw [executeFor_eq_forLoop, forIterations, forLoop_protoLoop, forLoop_protoLoop] at hlaw
  obtain ⟨m', ref, hrun, hscope⟩ := executeItems_protoLoop valueVar indexVar
    { newMachine with scope := protoScope valueVar indexVar, nextRef := newMachine.nextRef + 1 }
  simp only [finally', hrun] at hlaw
  have hkept := hlaw.kept name hother
  have hiterated : Hides name (.list (some ref) []) m'.scope := by
    rw [hscope]
    exact ((hides_protoScope hother).iteration hother).setPrototype rfl rfl
  rw [(hiterated.restoreLoopVars rfl hother hproto).property_eq, hiterated.property_eq] at hkept
  rcases hname with rfl | rfl
  · have hfound : (none : Option Value) = some (.inherited true (js "at")) := hkept
    cases hfound
  · have hfound : (none : Option Value) = some (.inherited true (js "push")) := hkept
    cases hfound

theorem leavesUnbound_protoScope (iterated : Value) :
    LeavesUnbound valueVar indexVar (protoScope valueVar indexVar) iterated := by
  intro name hname hunbound
  rw [property_protoScope name hname] at hunbound
  split at hunbound <;> cases hunbound

/-- **Loop variables.** However a `for` step ends, its loop variables stand for what they stood for
before, and every other name for what the executed iterations left, if and only if these leave no
prototype that has a loop variable which stood for nothing. This holds of every step with given loop
variables if and only if neither is `__proto__`. -/
theorem executeFor_scopes_iff (valueVar : JsString) (indexVar : Option JsString) :
    (∀ engine n frames forDef m, LoopVariables engine.host forDef valueVar indexVar →
        isMap m.scope → (executeFor engine n frames forDef m).1 ≠ .running →
        (ScopesLoop valueVar indexVar m.scope (forIterations engine frames forDef n m).2.scope
            (executeFor engine n frames forDef m).2.scope ↔
          LeavesUnbound valueVar indexVar m.scope (forIterations engine frames forDef n m).2.scope)) ↔
      valueVar ≠ js "__proto__" ∧ indexVar ≠ some (js "__proto__") := by
  constructor
  · intro hall
    by_contra hnames
    have hproto : valueVar = js "__proto__" ∨ indexVar = some (js "__proto__") := by
      rcases Classical.em (valueVar = js "__proto__") with hvalue | hvalue
      · exact .inl hvalue
      · exact .inr (not_not.1 fun hindex => hnames ⟨hvalue, hindex⟩)
    have hended : (executeFor protoEngine 7 0 (protoLoop valueVar indexVar)
        { newMachine with scope := protoScope valueVar indexVar }).1 ≠ .running := by
      obtain ⟨m', ref, hrun, -⟩ := executeItems_protoLoop valueVar indexVar
        { newMachine with scope := protoScope valueVar indexVar, nextRef := newMachine.nextRef + 1 }
      rw [executeFor_eq_forLoop, forLoop_protoLoop]
      simp [finally', hrun]
    exact protoLoop_not_scopesLoop hproto
      ((hall protoEngine 7 0 _ _ (loopVariables_protoLoop valueVar indexVar) rfl hended).2
        (leavesUnbound_protoScope _))
  · rintro ⟨hvalue, hindex⟩ engine n frames forDef m hvars hmap hended
    exact executeFor_scopes hvars hvalue hindex hmap hended

/-- A loop variable named `__proto__` hides a name again that the iterations have left. -/
theorem not_executeFor_scopes :
    ¬ ∀ engine n frames forDef m valueVar indexVar,
      LoopVariables engine.host forDef valueVar indexVar → isMap m.scope →
        (executeFor engine n frames forDef m).1 ≠ .running →
        ScopesLoop valueVar indexVar m.scope (forIterations engine frames forDef n m).2.scope
          (executeFor engine n frames forDef m).2.scope := by
  intro hall
  have hended : (executeFor protoEngine 7 0 (protoLoop (js "__proto__") none)
      { newMachine with scope := protoScope (js "__proto__") none }).1 = .value none := rfl
  exact protoLoop_not_scopesLoop (.inl rfl) (hall protoEngine 7 0 _ _ _ _
    (loopVariables_protoLoop (js "__proto__") none) rfl (by rw [hended]; simp))

end Kinglet.Workflows
