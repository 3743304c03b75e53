import Kinglet.Library.Procedure
import Kinglet.Workflows.Expressions

/-!
# The workflow engine

The interpreter of the source: a method is a procedure on the machine, which is found running when its
fuel runs out. The machine has the variables of the frame that runs, and beside the fields of the
source a record of what holds at each step that is executed: the call depth, and how many frames of
subworkflows are live, which the methods are told by an argument. The functions of the standard
library are given; `stdlib n` is what they return the `n`th time. Neither they nor the methods change
an object once it is a value, so values are trees.
-/

namespace Kinglet.Workflows

open Js Library Library.Procedure

/-! ## Objects -/

section Objects

variable (host : Runtime)

def typeError (operation : String) (value : Value) : Failure :=
  .thrown "TypeError" (host.typeErrorMessage operation value)

/-- `value.key`, which throws for `undefined` and `null`. -/
def read (value : Value) (key : String) : Except Failure Value :=
  match value with
  | .undefined | .null => .error (typeError host key value)
  | value => .ok ((property value key).getD .undefined)

/-- `key in value`, which throws for what is no object. -/
def has (key : String) (value : Value) : Except Failure Bool :=
  if isObject value then .ok (property value key).isSome else .error (typeError host key value)

/-- Values under their positions. -/
def indexed (values : List Value) : List (JsString × Value) :=
  values.zipIdx.map fun (value, i) => (decimal i, value)

/-- `Object.entries(value)`. -/
def entries (value : Value) : Except Failure (List (JsString × Value)) :=
  match value with
  | .undefined | .null => .error (typeError host "entries" value)
  | .str s => .ok (indexed (s.map fun u => .str [u]))
  | .list _ elements => .ok (indexed elements)
  | .map _ _ fields => .ok fields
  | _ => .ok []

/-- The characters of a text: a surrogate pair is one. -/
def characters : JsString → List JsString
  | [] => []
  | [u] => [[u]]
  | u :: v :: rest =>
      if 0xD800 ≤ u ∧ u < 0xDC00 ∧ 0xDC00 ≤ v ∧ v < 0xE000 then [u, v] :: characters rest
      else [u] :: characters (v :: rest)

/-- The values of `for (const x of value)`. -/
def iterate (value : Value) : Except Failure (List Value) :=
  match value with
  | .list _ elements => .ok elements
  | .arrayPrototype => .ok []
  | .str s => .ok ((characters s).map .str)
  | _ => .error (typeError host "iterate" value)

/-- `firstKey(obj)`, with what is there. -/
def firstEntry (value : Value) : Except Failure (JsString × Value) := do
  match ← entries host value with
  | [] => throw (workflowError "Empty parameter definition" "ValueError")
  | entry :: _ => return entry

/-- `{}`. -/
def emptyObject : Value := .map none .objectPrototype []

end Objects

/-! ## Templates -/

/-- Occurrences of a pattern replaced, from the left; `skip` of them has been read. -/
def replaceFrom (pattern replacement : JsString) : ℕ → JsString → JsString
  | _, [] => []
  | skip + 1, _ :: rest => replaceFrom pattern replacement skip rest
  | 0, u :: rest =>
      if pattern.isPrefixOf (u :: rest) then
        replacement ++ replaceFrom pattern replacement (pattern.length - 1) rest
      else u :: replaceFrom pattern replacement 0 rest

/-- What stands for an escaped dollar sign while a template is taken apart. -/
def dollarSentinel : JsString := 0 :: (js "DOLLAR" ++ [0])

def restoreDollar (s : JsString) : JsString := replaceFrom dollarSentinel "$" 0 s

/-- The loop of `findClosingBrace` from a position on: the depth, and the quote of the string it is
in. -/
def findClosing (i : ℕ) (depth : ℤ) (inString : Option UInt16) : JsString → Option ℕ
  | [] => none
  | u :: rest =>
      match inString with
      | some quote =>
          if u = unit '\\' then
            match rest with
            | [] => none
            | _ :: rest => findClosing (i + 2) depth (some quote) rest
          else findClosing (i + 1) depth (if u = quote then none else some quote) rest
      | none =>
          if u = unit '"' ∨ u = unit '\'' then findClosing (i + 1) depth (some u) rest
          else if u = 0x7B then findClosing (i + 1) (depth + 1) none rest
          else if u = 0x7D then
            if depth - 1 = 0 then some i else findClosing (i + 1) (depth - 1) none rest
          else findClosing (i + 1) depth none rest

def findClosingBrace (s : JsString) (openIndex : ℕ) : Option ℕ :=
  findClosing openIndex 0 none (s.drop openIndex)

/-- `evaluateTemplate(value, scope, stdlib)` of a string. -/
def evaluateTemplate (env : Env) (value : JsString) : Except Failure Value :=
  let escaped := replaceFrom "$$" dollarSentinel 0 value
  if [unit '$', 0x7B].isPrefixOf escaped ∧ findClosingBrace escaped 1 = some (escaped.length - 1) then
    evaluateExpression env (restoreDollar ((escaped.take (escaped.length - 1)).drop 2))
  else .ok (.str (restoreDollar escaped))

/-! ## Definitions -/

structure Step where
  name : JsString
  body : Value

/-- A block; the parameters are `undefined` where it has none. -/
structure Block where
  params : Value
  steps : List Step

/-- The subworkflows are an object, whose prototype a block named `__proto__` becomes. -/
structure Definition where
  main : Block
  subworkflows : List (JsString × Block)
  prototype : Option Block

def parseSteps (host : Runtime) (rawSteps : Value) : Except Failure (List Step) :=
  match elementsOf rawSteps with
  | none => .ok []
  | some steps => steps.mapM fun step => do
      let (name, body) ← firstEntry host step
      return ⟨name, body⟩

def parseBlock (host : Runtime) (block : Value) : Except Failure Block := do
  let steps ← read host block "steps"
  let steps ← parseSteps host steps
  let params ← read host block "params"
  return ⟨if truthy params then params else .undefined, steps⟩

/-- `parseWorkflowYaml`, from what YAML gives. -/
def parseDefinition (host : Runtime) (doc : Value) : Except Failure Definition := do
  let blocks ← entries host doc
  let blocks : List (JsString × Block) ← blocks.mapM fun (name, block) => do
    let block ← parseBlock host block
    return (name, block)
  return {
    main := (blocks.lookup (js "main")).getD ⟨.undefined, []⟩
    subworkflows := blocks.filter fun (name, _) => name ≠ js "main" ∧ name ≠ js "__proto__"
    prototype := blocks.lookup (js "__proto__") }

/-- `name in this.definition.subworkflows`, and what is there: a block, or something else that objects
have. -/
def Definition.subworkflow (definition : Definition) (name : JsString) : Option (Option Block) :=
  match definition.subworkflows.lookup name, definition.prototype with
  | some block, _ => some (some block)
  | none, some block =>
      if name = js "__proto__" then some (some block)
      else if name = js "steps" ∨ name = js "params" ∧ truthy block.params then some none
      else if name ∈ objectFunctions then some none
      else none
  | none, none => if name = js "__proto__" ∨ name ∈ objectFunctions then some none else none

/-- One parameter gets its argument or its default. -/
def bindParam (host : Runtime) (args scope param : Value) : Except Failure Value :=
  match param with
  | .str name =>
      match property args name with
      | some arg => .ok (setProperty name arg scope)
      | none => .ok scope
  | param => do
      let (name, default) ← firstEntry host param
      return setProperty name ((property args name).getD default) scope

/-- The scope of a frame with its parameters. -/
def bindParams (host : Runtime) (params args : Value) : Except Failure Value := do
  if truthy params then
    let params ← iterate host params
    params.foldlM (bindParam host args) emptyObject
  else return emptyObject

/-! ## Arguments of functions -/

def argMappings : List (JsString × List JsString) :=
  [("sys.get_env", ["name"]), ("sys.log", ["severity", "text"]), ("sys.sleep", ["seconds"]),
    ("json.encode_to_string", ["value"]), ("json.encode", ["value"]), ("json.decode", ["value"]),
    ("base64.encode", ["data"]), ("base64.decode", ["data"]), ("text.to_lower", ["s"]),
    ("text.to_upper", ["s"]), ("text.find_all", ["source", "value"]),
    ("text.replace_all", ["source", "value", "replacement"]),
    ("text.split", ["source", "delimiter"]), ("text.substring", ["source", "start", "end"]),
    ("text.url_encode", ["value"]), ("map.get", ["map", "key", "default"]),
    ("map.merge", ["first", "second"]), ("map.merge_nested", ["first", "second"]),
    ("map.keys", ["map"]), ("map.values", ["map"]), ("list.concat", ["list", "value"]),
    ("list.prepend", ["list", "value"]), ("list.range", ["start", "end"]), ("math.abs", ["value"]),
    ("math.max", ["first", "second"]), ("math.min", ["first", "second"])].map
    fun (name, args) => (js name, args.map js)

def isUndefined : Value → Bool
  | .undefined => true
  | _ => false

/-- `value ?? …` takes the other. -/
def isNullish : Value → Bool
  | .undefined | .null => true
  | _ => false

/-- `mapNamedToPositional(fnName, namedArgs)`. -/
def mapNamedToPositional (fnName : JsString) (namedArgs : Value) : List Value :=
  if startsWith fnName (js "http.") ∧ fnName ≠ js "http.default_retry_predicate" then [namedArgs]
  else
    match argMappings.lookup fnName with
    | some mapping =>
        (mapping.map fun name => (property namedArgs name).getD .undefined).rdropWhile isUndefined
    | none =>
        match namedArgs with
        | .map _ _ fields => fields.map Prod.snd
        | _ => []

/-! ## The machine -/

/-- What a function of the standard library returns. -/
inductive Returned
  | value (v : Value)
  | promise (settled : Except Failure Value)

/-- What holds when a step is executed. -/
structure Observation where
  callDepth : ℤ
  frames : ℕ

structure Machine where
  /-- `scope.variables` of the frame that runs. -/
  scope : Value
  callDepth : ℤ
  /-- How many expressions and calls there have been. -/
  uses : ℕ
  /-- The identity that the next object gets. -/
  nextRef : ℕ
  observed : List Observation

abbrev Run (α : Type) := Procedure Machine Failure α

/-- A sentinel that ends a block. -/
inductive Signal
  | returned (value : Value)
  | next (target : Value)
  | ended

/-- What a `switch` returns. -/
inductive SwitchResult
  | signal (signal : Signal)
  | matched
  | unmatched

structure Engine where
  host : Runtime
  stdlib : ℕ → JsString → List Value → Except Failure Returned
  definition : Definition

def callStackDepthLimit : ℤ := 20

/-- The step is executed with this many frames live. -/
def observe (frames : ℕ) : Run Unit :=
  modify fun m => { m with observed := ⟨m.callDepth, frames⟩ :: m.observed }

mutual

/-- New objects get identities. -/
def identified : Value → ℕ → Value × ℕ
  | .list ref elements, next =>
      match ref with
      | some r => (.list (some r) elements, next)
      | none =>
          let (elements, next) := identifiedAll elements next
          (.list (some next) elements, next + 1)
  | .map ref proto fields, next =>
      match ref with
      | some r => (.map (some r) proto fields, next)
      | none =>
          let (proto, next) := identified proto next
          let (fields, next) := identifiedFields fields next
          (.map (some next) proto fields, next + 1)
  | value, next => (value, next)

def identifiedAll : List Value → ℕ → List Value × ℕ
  | [], next => ([], next)
  | value :: values, next =>
      let (value, next) := identified value next
      let (values, next) := identifiedAll values next
      (value :: values, next)

def identifiedFields : List (JsString × Value) → ℕ → List (JsString × Value) × ℕ
  | [], next => ([], next)
  | (key, value) :: fields, next =>
      let (value, next) := identified value next
      let (fields, next) := identifiedFields fields next
      ((key, value) :: fields, next)

end

def identify (value : Value) : Run Value := do
  let m ← get
  let (value, next) := identified value m.nextRef
  modify fun m => { m with nextRef := next }
  return value

/-- The number of this use of the standard library. -/
def nextUse : Run ℕ := do
  let m ← get
  modify fun m => { m with uses := m.uses + 1 }
  return m.uses

def setVariable (key : JsString) (value : Value) : Run Unit :=
  modify fun m => { m with scope := setProperty key value m.scope }

def deleteVariable (key : JsString) : Run Unit :=
  modify fun m => { m with scope := deleteProperty key m.scope }

/-- Run in a scope of its own. -/
def inScope {α : Type} (scope : Value) (p : Run α) : Run α :=
  within Machine.scope (fun scope m => { m with scope := scope }) scope p

section Methods

variable (engine : Engine)

/-- `this.syncStdlib`, the `n`th time. -/
def syncStdlib (n : ℕ) (name : JsString) (args : List Value) : Except Failure Value := do
  match ← engine.stdlib n name args with
  | .value value => return value
  | .promise _ =>
      throw (workflowError (js "Async function '" ++ name ++
        js "' cannot be called inside expressions") "SystemError")

/-- `evaluateTemplate(value, scope, this.syncStdlib)`. -/
def template (text : JsString) : Run Value := do
  let n ← nextUse
  let m ← get
  attempt (evaluateTemplate ⟨engine.host, m.scope, syncStdlib engine n⟩ text)

mutual

def resolve : Value → Run Value
  | .str text => template engine text
  | .list _ elements => do
      let values ← resolveAll elements
      return .list none values
  | .map _ _ fields => resolveFields fields emptyObject
  | .objectPrototype => return emptyObject
  | .arrayPrototype => return .list none []
  | value => return value

def resolveAll : List Value → Run (List Value)
  | [] => return []
  | element :: elements => do
      let value ← resolve element
      let values ← resolveAll elements
      return value :: values

def resolveFields : List (JsString × Value) → Value → Run Value
  | [], result => return result
  | (key, value) :: fields, result => do
      let value ← resolve value
      resolveFields fields (setProperty key value result)

end

/-- `resolveValue(value, scope)`. -/
def resolveValue (value : Value) : Run Value := do
  let value ← resolve engine value
  identify value

/-- `executeAssign(assignments, scope)`. -/
def executeAssign (assignments : Value) : Run Unit := do
  let assignments ← attempt (iterate engine.host assignments)
  forEach (fun assignment => do
    let fields ← attempt (entries engine.host assignment)
    forEach (fun (key, value) => do
      let value ← resolveValue engine value
      setVariable key value) fields) assignments

/-- `callStdlib(fnName, namedArgs)`. -/
def callStdlib (fnName namedArgs : Value) : Run Value := do
  match fnName with
  | .str name =>
      let n ← nextUse
      match ← attempt (engine.stdlib n name (mapNamedToPositional name namedArgs)) with
      | .value value => identify value
      | .promise settled =>
          let value ← attempt settled
          identify value
  | fnName => throw (typeError engine.host "startsWith" fnName)

/-- What `raise` throws. -/
def raise {α : Type} (raised : Value) : Run α :=
  match raised with
  | .str message => throw (workflowError message "ValueError")
  | raised => do
      let message ← attempt (read engine.host raised "message")
      let tags ← attempt (read engine.host raised "tags")
      let code ← attempt (read engine.host raised "code")
      let message ← attempt (if isNullish message then .ok (js "Unknown error")
        else textOf engine.host message)
      throw (.workflow message (if isNullish tags then .list none [.str "ValueError"] else tags)
        (if isNullish code then .num 0 else code))

/-- The arguments of a call. -/
def resolveArgs : List (JsString × Value) → Value → Run Value
  | [], args => return args
  | (key, value) :: fields, args => do
      let value ← resolveValue engine value
      resolveArgs fields (setProperty key value args)

/-- The steps under a key. -/
def stepsOf (value : Value) : Except Failure (List Step) := do
  let rawSteps ← read engine.host value "steps"
  parseSteps engine.host rawSteps

end Methods

/-- `body.key` of an object, `none` unless `key in body`. -/
def field (body : Value) (key : String) : Option Value := property body key

/-- `if (nextTarget) return { type: NEXT_SENTINEL, target: nextTarget }`, unless there is a signal. -/
def orNext (nextTarget : Value) (signal : Option Signal) : Option Signal :=
  match signal with
  | some signal => some signal
  | none => if truthy nextTarget then some (.next nextTarget) else none

/-- `Object.keys(body).length === 1`. -/
def hasOneKey : Value → Bool
  | .list _ elements => elements.length = 1
  | .map _ _ fields => fields.length = 1
  | _ => false

/-- A loop variable gets back what it was before the loop. -/
def restoreVariable (key : JsString) (before : Option Value) (scope : Value) : Value :=
  match before with
  | some value => setProperty key value scope
  | none => deleteProperty key scope

/-- `restoreLoopVars()`. -/
def restoreLoopVars (valueVar : JsString) (indexVar : Option JsString) (before scope : Value) :
    Value :=
  match indexVar with
  | some indexVar =>
      restoreVariable indexVar (property before indexVar)
        (restoreVariable valueVar (property before valueVar) scope)
  | none => restoreVariable valueVar (property before valueVar) scope

def errorObject (message : JsString) (tags code : Value) : Value :=
  .map none .objectPrototype [(js "message", .str message), (js "tags", tags), (js "code", code)]

namespace Failure

/-- The error as the variable of an `except` block. -/
def object : Failure → Value
  | .workflow message tags code => errorObject message tags code
  | .thrown _ message => errorObject message (.list none [.str "SystemError"]) (.num 0)

/-- The error as the argument of a predicate, with `String(err)`. -/
def argument : Failure → Value
  | .workflow message tags code => errorObject message tags code
  | .thrown name message =>
      errorObject (name ++ js ": " ++ message) (.list none [.str "SystemError"]) (.num 0)

end Failure

mutual

/-- `executeBlock(steps, scope)`, from a step on. -/
def executeBlock (engine : Engine) : ℕ → ℕ → List Step → ℕ → Run (Option Signal)
  | 0, _, _, _ => running
  | n + 1, frames, steps, i =>
      match steps[i]? with
      | none => return none
      | some step => do
          let result ← executeStep engine n frames step.body
          match result with
          | none => executeBlock engine n frames steps (i + 1)
          | some (.returned value) => return some (.returned value)
          | some .ended => return some .ended
          | some (.next target) =>
              if strictEquals target (.str "end") then return some .ended
              else
                match steps.findIdx? fun s => strictEquals (.str s.name) target with
                | some targetIndex => executeBlock engine n frames steps targetIndex
                | none =>
                    let text ← attempt (textOf engine.host target)
                    throw (workflowError (js "Step '" ++ text ++ js "' not found") "ValueError")
termination_by structural n => n

/-- `executeStep(step, scope)`. -/
def executeStep (engine : Engine) : ℕ → ℕ → Value → Run (Option Signal)
  | 0, _, _ => running
  | n + 1, frames, body => do
      observe frames
      let nextTarget ← attempt (read engine.host body "next")
      let assigns ← attempt (has engine.host "assign" body)
      if assigns ∧ (field body "switch").isNone then
        executeAssign engine ((field body "assign").getD .undefined)
        return orNext nextTarget none
      else
        match field body "return", field body "raise", field body "call", field body "switch",
          field body "for", field body "try", field body "steps" with
        | some value, _, _, _, _, _, _ => do
            let value ← resolveValue engine value
            return some (.returned value)
        | none, some raised, _, _, _, _, _ => do
            let raised ← resolveValue engine raised
            raise engine raised
        | none, none, some call, _, _, _, _ => do
            let result ← executeCall engine n frames call ((field body "args").getD .undefined)
            let resultVar := (field body "result").getD .undefined
            if truthy resultVar then
              let key ← attempt (textOf engine.host resultVar)
              setVariable key result
              return orNext nextTarget none
            else return orNext nextTarget none
        | none, none, none, some cases, _, _, _ => do
            match ← executeSwitch engine n frames cases with
            | .signal signal => return some signal
            | .matched => return orNext nextTarget none
            | .unmatched =>
                if assigns then
                  executeAssign engine ((field body "assign").getD .undefined)
                  return orNext nextTarget none
                else return orNext nextTarget none
        | none, none, none, none, some forDef, _, _ => do
            let result ← executeFor engine n frames forDef
            return orNext nextTarget result
        | none, none, none, none, none, some tryBlock, _ => do
            let result ← executeTry engine n frames tryBlock ((field body "retry").getD .undefined)
              ((field body "except").getD .undefined)
            return orNext nextTarget result
        | none, none, none, none, none, none, some rawSteps => do
            let steps ← attempt (parseSteps engine.host rawSteps)
            let result ← executeBlock engine n frames steps 0
            return orNext nextTarget result
        | none, none, none, none, none, none, none =>
            return if (field body "next").isSome ∧ hasOneKey body then some (.next nextTarget)
              else none
termination_by structural n => n

/-- `executeCall(body, scope)`. -/
def executeCall (engine : Engine) : ℕ → ℕ → Value → Value → Run Value
  | 0, _, _, _ => running
  | n + 1, frames, fnName, rawArgs => do
      let fields ← attempt (if truthy rawArgs then entries engine.host rawArgs else .ok [])
      let args ← resolveArgs engine fields emptyObject
      let name ← attempt (textOf engine.host fnName)
      match engine.definition.subworkflow name with
      | some block => callSubworkflow engine n frames block args
      | none => callStdlib engine fnName args
termination_by structural n => n

/-- `callSubworkflow(name, args)`, with what is there under the name. -/
def callSubworkflow (engine : Engine) : ℕ → ℕ → Option Block → Value → Run Value
  | 0, _, _, _ => running
  | n + 1, frames, block, args => do
      modify fun m => { m with callDepth := m.callDepth + 1 }
      let m ← get
      if callStackDepthLimit < m.callDepth then
        modify fun m => { m with callDepth := m.callDepth - 1 }
        throw (workflowError "Call stack depth limit exceeded (max 20)" "RecursionError")
      else
        finally' (executeFrame engine n frames block args)
          fun m => { m with callDepth := m.callDepth - 1 }
termination_by structural n => n

/-- The block of `callSubworkflow` between the increment and the decrement. -/
def executeFrame (engine : Engine) : ℕ → ℕ → Option Block → Value → Run Value
  | 0, _, _, _ => running
  | _ + 1, _, none, _ => throw (typeError engine.host "steps.length" .undefined)
  | n + 1, frames, some block, args => do
      let scope ← attempt (bindParams engine.host block.params args)
      let result ← inScope scope (executeBlock engine n (frames + 1) block.steps 0)
      match result with
      | some (.returned value) => return value
      | _ => return .null
termination_by structural n => n

/-- `executeSwitch(cases, scope)`. -/
def executeSwitch (engine : Engine) : ℕ → ℕ → Value → Run SwitchResult
  | 0, _, _ => running
  | n + 1, frames, cases => do
      let cases ← attempt (iterate engine.host cases)
      executeCases engine n frames cases
termination_by structural n => n

/-- The loop of `executeSwitch`. -/
def executeCases (engine : Engine) : ℕ → ℕ → List Value → Run SwitchResult
  | 0, _, _ => running
  | _ + 1, _, [] => return .unmatched
  | n + 1, frames, case :: cases => do
      let condition ← attempt (read engine.host case "condition")
      let condition ← resolveValue engine condition
      if truthy condition then executeCase engine n frames case
      else executeCases engine n frames cases
termination_by structural n => n

/-- The body of the loop for the case that matches. -/
def executeCase (engine : Engine) : ℕ → ℕ → Value → Run SwitchResult
  | 0, _, _ => running
  | n + 1, frames, case => do
      forEach (executeAssign engine) (field case "assign").toList
      match field case "return", field case "raise" with
      | some value, _ => do
          let value ← resolveValue engine value
          return .signal (.returned value)
      | none, some raised => do
          let raised ← resolveValue engine raised
          raise engine raised
      | none, none => do
          let nested ← (match field case "switch" with
            | some cases => executeSwitch engine n frames cases
            | none => pure .unmatched : Run SwitchResult)
          match nested with
          | .signal signal => return .signal signal
          | _ =>
              let steps ← attempt (match field case "steps" with
                | some rawSteps => parseSteps engine.host rawSteps
                | none => .ok [])
              let result ← executeBlock engine n frames steps 0
              match result, field case "next" with
              | some signal, _ => return .signal signal
              | none, some target => return .signal (.next target)
              | none, none => return .matched
termination_by structural n => n

/-- `executeFor(forDef, scope)`. -/
def executeFor (engine : Engine) : ℕ → ℕ → Value → Run (Option Signal)
  | 0, _, _ => running
  | n + 1, frames, forDef => do
      let valueVar ← attempt (read engine.host forDef "value")
      let indexVar ← attempt (read engine.host forDef "index")
      let collection ← attempt (read engine.host forDef "in")
      let collection ← resolveValue engine collection
      let steps ← attempt (stepsOf engine forDef)
      match elementsOf collection with
      | none => throw (workflowError "for loop requires an iterable (list)" "TypeError")
      | some items =>
          let valueVar ← attempt (textOf engine.host valueVar)
          let indexVar ← attempt (if truthy indexVar then (textOf engine.host indexVar).map some
            else .ok none)
          let before ← get
          finally' (executeItems engine n frames valueVar indexVar steps items 0) fun m =>
            { m with scope := restoreLoopVars valueVar indexVar before.scope m.scope }
termination_by structural n => n

/-- The loop of `executeFor` over the items from an index on. -/
def executeItems (engine : Engine) :
    ℕ → ℕ → JsString → Option JsString → List Step → List Value → ℕ → Run (Option Signal)
  | 0, _, _, _, _, _, _ => running
  | _ + 1, _, _, _, _, [], _ => return none
  | n + 1, frames, valueVar, indexVar, steps, item :: items, index => do
      setVariable valueVar item
      forEach (fun indexVar => setVariable indexVar (.num (natNumber index))) indexVar.toList
      let result ← executeBlock engine n frames steps 0
      match result with
      | some signal => return some signal
      | none => executeItems engine n frames valueVar indexVar steps items (index + 1)
termination_by structural n => n

/-- `executeTry(body, scope)`. -/
def executeTry (engine : Engine) : ℕ → ℕ → Value → Value → Value → Run (Option Signal)
  | 0, _, _, _, _ => running
  | n + 1, frames, tryBlock, retryConfig, exceptBlock => do
      let retries ← attempt (if truthy retryConfig then read engine.host retryConfig "max_retries"
        else .ok (.num 0))
      let predicate ← attempt (if isNullish retryConfig then .ok .undefined
        else read engine.host retryConfig "predicate")
      let maxRetries := if isNullish retries then .num 0 else retries
      executeAttempts engine n frames tryBlock (truthy retryConfig) exceptBlock maxRetries predicate 0
termination_by structural n => n

/-- The loop of `executeTry` from an attempt on. -/
def executeAttempts (engine : Engine) :
    ℕ → ℕ → Value → Bool → Value → Value → Value → ℕ → Run (Option Signal)
  | 0, _, _, _, _, _, _, _ => running
  | n + 1, frames, tryBlock, retry, exceptBlock, maxRetries, predicate, count => do
      let limit ← attempt (toPrimitive engine.host maxRetries)
      if atMost (.num (natNumber count)) limit then
        catching (do
            let steps ← attempt (stepsOf engine tryBlock)
            executeBlock engine n frames steps 0)
          fun err =>
            if retry ∧ ¬ strictEquals (.num (natNumber count)) maxRetries then do
              let name ← attempt (textOf engine.host predicate)
              match if truthy predicate then engine.definition.subworkflow name else none with
              | some block =>
                  let errorObj ← identify err.argument
                  let shouldRetry ← callSubworkflow engine n frames block
                    (setProperty "error" errorObj emptyObject)
                  if truthy shouldRetry then
                    executeAttempts engine n frames tryBlock retry exceptBlock maxRetries predicate
                      (count + 1)
                  else executeExcept engine n frames exceptBlock err
              | none =>
                  executeAttempts engine n frames tryBlock retry exceptBlock maxRetries predicate
                    (count + 1)
            else executeExcept engine n frames exceptBlock err
      else return none
termination_by structural n => n

/-- `executeExcept(exceptBlock, err, scope)`; without the block the error goes on. -/
def executeExcept (engine : Engine) : ℕ → ℕ → Value → Failure → Run (Option Signal)
  | 0, _, _, _ => running
  | n + 1, frames, exceptBlock, err =>
      if truthy exceptBlock then do
        let asVar ← attempt (read engine.host exceptBlock "as")
        if truthy asVar then
          let object ← identify err.object
          let key ← attempt (textOf engine.host asVar)
          setVariable key object
        let steps ← attempt (stepsOf engine exceptBlock)
        executeBlock engine n frames steps 0
      else throw err
termination_by structural n => n

end

/-! ## Executions -/

inductive ExecutionState
  | succeeded
  | failed
  deriving DecidableEq

structure EngineResult where
  output : Value
  state : ExecutionState
  error : Option Value

/-- The scope of the main block. -/
def mainScope (host : Runtime) (main : Block) (args : Value) : Except Failure Value := do
  if truthy main.params then
    let length ← match main.params with
      | .str s => .ok (.num (natNumber s.length))
      | params => read host params "length"
    let length ← toPrimitive host length
    if lessThan (.num 0) length then bindParams host main.params args else return emptyObject
  else return emptyObject

/-- `execute(args)`. -/
def execute (engine : Engine) (fuel : ℕ) (args : Value) : Run EngineResult := do
  modify fun m => { m with callDepth := 0 }
  catching (do
      let scope ← attempt (mainScope engine.host engine.definition.main args)
      let result ← inScope scope (executeBlock engine fuel 0 engine.definition.main.steps 0)
      match result with
      | some (.returned value) => return ⟨value, .succeeded, none⟩
      | _ => return ⟨.null, .succeeded, none⟩)
    fun err => return ⟨.null, .failed, some err.object⟩

/-- A new engine. -/
def newMachine : Machine where
  scope := emptyObject
  callDepth := 0
  uses := 0
  nextRef := 0
  observed := []

end Kinglet.Workflows
