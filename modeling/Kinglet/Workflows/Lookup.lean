import Kinglet.Workflows.Engine
import Kinglet.Workflows.Operands

/-!
# Looking names up

Expressions and calls look names up in objects of JavaScript: the variables, a map, the registry of
the standard library, the subworkflows. Each finds what the object inherits beside what it owns. A
list is indexed by property access too, with one guard, for numbers out of range: an index that is no
number, or none of an integer, gets past it.
-/

namespace Kinglet.Workflows

open Js Library Library.Procedure

/-! ## Elements of a list -/

/-- The position that a value denotes: a number whose text is that of an array index. -/
def arrayPosition (index : Value) : Option ℕ :=
  match index with
  | .num x => if isIndexName (numText x) then some (digitsValue (numText x)) else none
  | _ => none

example : arrayPosition (.num 2) = some 2 ∧ arrayPosition (.num 0.5) = none := by decide +kernel

theorem exists_num_of_arrayPosition {index : Value} {i : ℕ} (h : arrayPosition index = some i) :
    ∃ x, index = .num x ∧ isIndexName (numText x) ∧ digitsValue (numText x) = i := by
  cases index with
  | num x =>
    change (if isIndexName (numText x) then some (digitsValue (numText x)) else none) = some i at h
    by_cases hname : isIndexName (numText x)
    · rw [if_pos hname] at h
      exact ⟨x, rfl, hname, Option.some.inj h⟩
    · rw [if_neg hname] at h
      cases h
  | _ => cases h

def Failure.IsIndexError : Failure → Prop
  | .workflow _ tags _ => tags = .list none [.str "IndexError"]
  | .thrown _ _ => False

/-- An index gives the element at the position it denotes, or raises one of the two errors. -/
def GivesElement (host : Runtime) (list index : Value) (elements : List Value) : Prop :=
  match getIndex host list index with
  | .ok value => ∃ i, arrayPosition index = some i ∧ elements[i]? = some value
  | .error failure => failure.IsIndexError ∨ failure.IsTypeError

/-- The index is a number below zero or from the length on, or it cannot be converted. -/
def GuardRefuses (host : Runtime) (index : Value) (length : ℕ) : Prop :=
  match toNumber host index, textOf host index with
  | .ok position, .ok _ => position < 0 ∨ natNumber length ≤ position
  | _, _ => True

section Lists

variable {host : Runtime} {list index : Value} {elements : List Value}

theorem isIndexName_ne_length {key : JsString} (h : isIndexName key) : key ≠ js "length" := by
  rintro rfl
  exact absurd h (by decide +kernel)

/-- At an array index that it has, a list has the element. -/
theorem property_list {key : JsString} (hlist : elementsOf list = some elements)
    (hkey : isIndexName key) (hlt : digitsValue key < elements.length) :
    property list key = elements[digitsValue key]? := by
  cases list with
  | list ref values =>
    cases hlist
    rw [property, propertyFrom, if_neg (isIndexName_ne_length hkey), if_pos ⟨hkey, hlt⟩]
  | arrayPrototype =>
    cases hlist
    exact absurd hlt (Nat.not_lt_zero _)
  | _ => cases hlist

theorem getIndex_list (hlist : elementsOf list = some elements) :
    getIndex host list index = (do
      let position ← toNumber host index
      let text ← textOf host index
      if position < 0 ∨ natNumber elements.length ≤ position then
        throw (workflowError (js "Index " ++ text ++ js " out of range for list of length " ++
          decimal elements.length) "IndexError")
      else return (property list text).getD .undefined) := by
  unfold getIndex
  rw [hlist]

/-- What the guard refuses raises an error. -/
theorem givesElement_of_guardRefuses (hlist : elementsOf list = some elements)
    (hrefuses : GuardRefuses host index elements.length) : GivesElement host list index elements := by
  unfold GivesElement GuardRefuses at *
  rw [getIndex_list hlist]
  cases hnumber : toNumber host index with
  | error failure =>
    refine .inr ?_
    cases hprimitive : toPrimitive host index with
    | ok primitive => rw [toNumber, hprimitive] at hnumber; cases hnumber
    | error failure' =>
      rw [toNumber, hprimitive] at hnumber
      cases hnumber
      exact isTypeError_of_toPrimitive hprimitive
  | ok position =>
    cases htext : textOf host index with
    | error failure => exact .inr (isTypeError_of_textOf htext)
    | ok text =>
      rw [hnumber, htext] at hrefuses
      simp only [bind, Except.bind, if_pos hrefuses]
      exact .inl rfl

/-- What gets past the guard is read as a property. -/
theorem getIndex_of_not_guardRefuses (hlist : elementsOf list = some elements)
    (hpast : ¬ GuardRefuses host index elements.length) :
    ∃ text, textOf host index = .ok text ∧
      getIndex host list index = .ok ((property list text).getD .undefined) := by
  unfold GuardRefuses at hpast
  rw [getIndex_list hlist]
  cases hnumber : toNumber host index with
  | error failure => rw [hnumber] at hpast; exact absurd trivial hpast
  | ok position =>
    cases htext : textOf host index with
    | error failure => rw [hnumber, htext] at hpast; exact absurd trivial hpast
    | ok text =>
      rw [hnumber, htext] at hpast
      refine ⟨text, rfl, ?_⟩
      simp only [bind, Except.bind, if_neg hpast]
      rfl

/-- **Indexing lists.** An index expression on a list gives the element at the integer position that
the index is, or raises an `IndexError` or a `TypeError`: if and only if the index is a position of
the list, or the guard refuses it. -/
theorem givesElement_iff (host : Runtime) (list index : Value) (elements : List Value)
    (hlist : elementsOf list = some elements) :
    GivesElement host list index elements ↔
      (∃ i, arrayPosition index = some i ∧ i < elements.length) ∨
        GuardRefuses host index elements.length := by
  by_cases hrefuses : GuardRefuses host index elements.length
  · exact iff_of_true (givesElement_of_guardRefuses hlist hrefuses) (.inr hrefuses)
  rw [or_iff_left hrefuses]
  obtain ⟨text, htext, hget⟩ := getIndex_of_not_guardRefuses hlist hrefuses
  unfold GivesElement
  rw [hget]
  constructor
  · rintro ⟨i, hi, helement⟩
    exact ⟨i, hi, (List.getElem?_eq_some_iff.1 helement).1⟩
  · rintro ⟨i, hi, hlt⟩
    refine ⟨i, hi, ?_⟩
    obtain ⟨x, rfl, hname, rfl⟩ := exists_num_of_arrayPosition hi
    cases htext
    rw [property_list hlist hname hlt, List.getElem?_eq_getElem hlt, Option.getD_some]

/-- `["a"][0]`. -/
theorem givesElement_first :
    GivesElement plainRuntime (.list none [.str "a"]) (.num 0) [.str "a"] ↔
      (∃ i, arrayPosition (.num 0) = some i ∧ i < 1) ∨ GuardRefuses plainRuntime (.num 0) 1 :=
  givesElement_iff plainRuntime (.list none [.str "a"]) (.num 0) [.str "a"] rfl

/-- `["a"][0.5]` is `undefined`. -/
theorem not_givesElement :
    ¬ ∀ (host : Runtime) (list index : Value) (elements : List Value),
      elementsOf list = some elements → GivesElement host list index elements := by
  intro h
  have hgives := h plainRuntime (.list none [.str "a"]) (.num 0.5) [.str "a"] rfl
  have hpast : ¬ GuardRefuses plainRuntime (.num 0.5) 1 := by
    show ¬ ((0.5 : Float) < 0 ∨ natNumber 1 ≤ 0.5)
    decide +kernel
  obtain ⟨text, -, hget⟩ := getIndex_of_not_guardRefuses
    (show elementsOf (.list none [.str "a"]) = some [.str "a"] from rfl) hpast
  unfold GivesElement at hgives
  rw [hget] at hgives
  obtain ⟨i, hi, -⟩ := hgives
  have hnone : arrayPosition (.num 0.5) = none := by decide +kernel
  exact absurd (hnone.symm.trans hi) (Option.some_ne_none i).symm

end Lists

/-! ## Names of an object -/

/-- The value that a map has under a key of its own. -/
def ownField (map : Value) (name : JsString) : Option Value :=
  match map with
  | .map _ _ fields => fields.lookup name
  | _ => none

/-- Whether a map inherits a name. -/
def inheritsName (map : Value) (name : JsString) : Bool :=
  match map with
  | .map _ proto _ => (propertyFrom proto name proto).isSome
  | _ => false

/-- A name that is the map's own, or not to be found in what it inherits. -/
def OwnOrAbsent (map : Value) (name : JsString) : Prop :=
  (ownField map name).isSome ∨ inheritsName map name = false

def isMap : Value → Bool
  | .map _ _ _ => true
  | _ => false

section Names

variable {map : Value} {name : JsString}

theorem property_of_ownField {value : Value} (hown : ownField map name = some value) :
    property map name = some value := by
  cases map with
  | map ref proto fields =>
    have hlookup : fields.lookup name = some value := hown
    rw [property, propertyFrom, hlookup]
  | _ => cases hown

theorem isSome_property_of_inheritsName (hinherits : inheritsName map name) :
    (property map name).isSome := by
  cases map with
  | map ref proto fields =>
    rw [property, propertyFrom]
    split
    · rfl
    · exact hinherits
  | _ => cases hinherits

theorem property_eq_none (hmap : isMap map) (hown : ownField map name = none)
    (hinherits : inheritsName map name = false) : property map name = none := by
  cases map with
  | map ref proto fields =>
    have hlookup : fields.lookup name = none := hown
    rw [property, propertyFrom, hlookup]
    exact Option.isSome_eq_false_iff.1 hinherits |> Option.isNone_iff_eq_none.1
  | _ => cases hmap

/-- A map finds what it owns, if and only if the name is its own or not inherited. -/
theorem property_eq_ownField_iff (hmap : isMap map) :
    property map name = ownField map name ↔ OwnOrAbsent map name := by
  unfold OwnOrAbsent
  cases hown : ownField map name with
  | some value => exact iff_of_true (property_of_ownField hown) (.inl rfl)
  | none =>
    cases hinherits : inheritsName map name with
    | false => exact iff_of_true (property_eq_none hmap hown hinherits) (.inr rfl)
    | true =>
      have hsome := isSome_property_of_inheritsName hinherits
      refine iff_of_false (fun hnone => ?_) (by simp)
      rw [hnone] at hsome
      cases hsome

end Names

/-- What a lookup gives for what is found under the name. -/
def found (value : Option Value) (missing : Failure) : Except Failure Value :=
  match value with
  | some value => .ok value
  | none => .error missing

theorem found_injective {value value' : Option Value} {missing : Failure}
    (h : found value missing = found value' missing) : value = value' := by
  cases value with
  | none =>
    cases value' with
    | none => rfl
    | some found => cases h
  | some found =>
    cases value' with
    | none => cases h
    | some found' => exact congrArg some (Except.ok.inj h)

def variableNotFound (name : JsString) : Failure :=
  workflowError (js "Variable not found: '" ++ name ++ js "'") "KeyError"

def keyNotFound (name : JsString) : Failure :=
  workflowError (js "Key not found: '" ++ name ++ js "'") "KeyError"

theorem getVariable_eq_found (env : Env) (name : JsString) :
    getVariable env name = found (property env.scope name) (variableNotFound name) := by
  unfold getVariable
  cases property env.scope name <;> rfl

theorem getMember_eq_found {map : Value} (hmap : isMap map) (name : JsString) :
    getMember map name = found (property map name) (keyNotFound name) := by
  cases map with
  | map ref proto fields =>
    have htype : typeOf (.map ref proto fields) = "object" := rfl
    unfold getMember
    simp only [htype, if_true]
    cases property (.map ref proto fields) name <;> rfl
  | _ => cases hmap

theorem getIndex_eq_found (host : Runtime) {map : Value} (hmap : isMap map) (name : JsString) :
    getIndex host map (.str name) = found (property map name) (keyNotFound name) := by
  cases map with
  | map ref proto fields =>
    show (match property (.map ref proto fields) name with
      | some found => .ok found
      | none => .error (keyNotFound name)) = found _ _
    cases property (.map ref proto fields) name <;> rfl
  | _ => cases hmap

theorem applyIn_map (host : Runtime) {map : Value} (hmap : isMap map) (name : JsString) :
    applyIn host (.str name) map = .ok (.bool (property map name).isSome) := by
  cases map with
  | map ref proto fields => rfl
  | _ => cases hmap

/-! ## Names of functions -/

/-- The functions in the registry of `createStdlib`. -/
def stdlibNames : List JsString :=
  ["default", "string", "int", "double", "len", "keys", "if", "sys.get_env", "sys.log", "sys.now",
    "sys.sleep", "json.encode_to_string", "json.encode", "json.decode", "base64.encode",
    "base64.decode", "map.get", "map.merge", "map.merge_nested", "map.keys", "map.values",
    "list.concat", "list.prepend", "list.range", "text.to_lower", "text.to_upper", "text.find_all",
    "text.replace_all", "text.split", "text.substring", "text.url_encode", "math.abs", "math.max",
    "math.min", "uuid.generate", "http.get", "http.post", "http.request",
    "http.default_retry_predicate"].map js

def unknownFunction (name : JsString) : Failure :=
  workflowError (js "Unknown function: " ++ name) "ValueError"

/-- Whether an object with the prototype of all objects inherits a name. -/
def inheritsFromObject (name : JsString) : Bool := name = js "__proto__" || name ∈ objectFunctions

/-- What `fn(args)` is for a function of all objects, which has no receiver there. -/
def callInherited (host : Runtime) (name : JsString) (args : List Value) : Except Failure Returned :=
  if name = js "constructor" then .ok (.value (.list none args))
  else if name = js "toString" then .ok (.value (.str "[object Undefined]"))
  else .error (.thrown "TypeError" (host.typeErrorMessage name .undefined))

/-- `createStdlib(options)`, with its functions given. -/
def createStdlib (host : Runtime) (functions : JsString → List Value → Except Failure Returned)
    (name : JsString) (args : List Value) : Except Failure Returned :=
  if name ∈ stdlibNames then functions name args
  else if inheritsFromObject name then callInherited host name args
  else .error (unknownFunction name)

/-- The subworkflow that the workflow defines under a name. -/
def Definition.defined (definition : Definition) (name : JsString) : Option Block :=
  match definition.subworkflows.lookup name with
  | some block => some block
  | none => if name = js "__proto__" then definition.prototype else none

/-- Whether the object of the subworkflows inherits a name. -/
def Definition.inherits (definition : Definition) (name : JsString) : Bool :=
  match definition.prototype with
  | some block =>
      name = js "steps" || (name = js "params" && truthy block.params) || name ∈ objectFunctions
  | none => inheritsFromObject name

theorem Definition.subworkflow_eq (definition : Definition) (name : JsString) :
    definition.subworkflow name =
      match definition.defined name with
      | some block => some (some block)
      | none => if definition.inherits name then some none else none := by
  unfold subworkflow defined inherits inheritsFromObject
  cases definition.subworkflows.lookup name with
  | some block => rfl
  | none =>
    cases definition.prototype with
    | none => by_cases hproto : name = js "__proto__" <;> simp [hproto]
    | some block =>
      by_cases hproto : name = js "__proto__"
      · simp [hproto]
      · simp only [if_neg hproto]
        by_cases hfield : name = js "steps" ∨ name = js "params" ∧ truthy block.params = true
        · have hany : (name = js "steps" || (name = js "params" && truthy block.params) ||
              decide (name ∈ objectFunctions)) = true := by
            simpa using Or.inl hfield
          rw [if_pos hfield, if_pos hany]
        · by_cases hfunction : name ∈ objectFunctions
          · rw [if_neg hfield, if_pos hfunction, if_pos (by simp [hfunction])]
          · rw [if_neg hfield, if_neg hfunction, if_neg (by simpa [hfunction] using hfield)]

/-- The names that objects inherit are no functions of the registry. -/
theorem notMem_stdlibNames_of_inherits {definition : Definition} {name : JsString}
    (h : definition.inherits name) : name ∉ stdlibNames := by
  have hnames : ∀ inherited ∈ [js "steps", js "params", js "__proto__"] ++ objectFunctions,
      inherited ∉ stdlibNames := by decide +kernel
  refine hnames name ?_
  unfold Definition.inherits inheritsFromObject at h
  split at h
  · simp only [Bool.or_eq_true, Bool.and_eq_true, decide_eq_true_eq] at h
    rcases h with (rfl | ⟨rfl, -⟩) | h
    · exact List.mem_append_left _ (by simp)
    · exact List.mem_append_left _ (by simp)
    · exact List.mem_append_right _ h
  · simp only [Bool.or_eq_true, decide_eq_true_eq] at h
    rcases h with rfl | h
    · exact List.mem_append_left _ (by simp)
    · exact List.mem_append_right _ h

section Calls

variable (host : Runtime) (functions : ℕ → JsString → List Value → Except Failure Returned)
  (definition : Definition) (name : JsString)

/-- The engine with the registry. -/
def engineOf : Engine := ⟨host, fun n => createStdlib host (functions n), definition⟩

/-- A call by name as it is documented: the subworkflow of that name, else the function, else the
error. -/
def documentedCall (n frames : ℕ) (rawArgs : Value) : Run Value := do
  let fields ← attempt (if truthy rawArgs then entries host rawArgs else .ok [])
  let args ← resolveArgs (engineOf host functions definition) fields emptyObject
  match definition.defined name with
  | some block => callSubworkflow (engineOf host functions definition) n frames (some block) args
  | none =>
      if name ∈ stdlibNames then callStdlib (engineOf host functions definition) (.str name) args
      else do
        let _ ← nextUse
        throw (unknownFunction name)

/-- The lookups find what is the object's own, and else raise their errors. -/
structure LooksUpOwn (scope map : Value) : Prop where
  reference : ∀ stdlib, getVariable ⟨host, scope, stdlib⟩ name =
    found (ownField scope name) (variableNotFound name)
  member : getMember map name = found (ownField map name) (keyNotFound name)
  index : getIndex host map (.str name) = found (ownField map name) (keyNotFound name)
  contains : applyIn host (.str name) map = .ok (.bool (ownField map name).isSome)
  function : ∀ n args, (engineOf host functions definition).stdlib n name args =
    if name ∈ stdlibNames then functions n name args else .error (unknownFunction name)
  call : ∀ n frames rawArgs,
    executeCall (engineOf host functions definition) (n + 1) frames (.str name) rawArgs =
      documentedCall host functions definition name n frames rawArgs

/-- The name is an object's own, or not inherited by it. -/
structure Unambiguous (scope map : Value) : Prop where
  reference : OwnOrAbsent scope name
  key : OwnOrAbsent map name
  function : name ∈ stdlibNames ∨ inheritsFromObject name = false
  subworkflow : (definition.defined name).isSome ∨ definition.inherits name = false

variable {host functions definition name}

theorem createStdlib_eq_iff :
    (∀ n args, createStdlib host (functions n) name args =
        if name ∈ stdlibNames then functions n name args else .error (unknownFunction name)) ↔
      name ∈ stdlibNames ∨ inheritsFromObject name = false := by
  constructor
  · intro h
    by_contra hcond
    obtain ⟨hregistered, hinherits⟩ := not_or.1 hcond
    have hcall := h 0 []
    rw [createStdlib, if_neg hregistered, if_neg hregistered,
      if_pos (by simpa using hinherits), callInherited] at hcall
    split at hcall
    · cases hcall
    · split at hcall
      · cases hcall
      · cases hcall
  · intro h n args
    unfold createStdlib
    by_cases hregistered : name ∈ stdlibNames
    · rw [if_pos hregistered, if_pos hregistered]
    · have hinherits := h.resolve_left hregistered
      rw [if_neg hregistered, if_neg hregistered, hinherits, if_neg Bool.false_ne_true]

/-- A call with the arguments resolved and the name looked up. -/
theorem executeCall_succ (n frames : ℕ) (rawArgs : Value) :
    executeCall (engineOf host functions definition) (n + 1) frames (.str name) rawArgs = (do
      let fields ← attempt (if truthy rawArgs then entries host rawArgs else .ok [])
      let args ← resolveArgs (engineOf host functions definition) fields emptyObject
      match definition.subworkflow name with
      | some block => callSubworkflow (engineOf host functions definition) n frames block args
      | none => callStdlib (engineOf host functions definition) (.str name) args) := by
  rw [executeCall]
  rfl

/-- Without arguments. -/
theorem executeCall_undefined (n frames : ℕ) (m : Machine) :
    executeCall (engineOf host functions definition) (n + 1) frames (.str name) .undefined m =
      (match definition.subworkflow name with
        | some block =>
          callSubworkflow (engineOf host functions definition) n frames block emptyObject
        | none => callStdlib (engineOf host functions definition) (.str name) emptyObject) m := by
  rw [executeCall_succ]
  rfl

theorem callStdlib_of_error {failure : Failure}
    (h : ∀ n args, (engineOf host functions definition).stdlib n name args = .error failure)
    (args : Value) :
    callStdlib (engineOf host functions definition) (.str name) args = (do
      let _ ← nextUse
      throw failure) := by
  unfold callStdlib
  simp only [h]
  rfl

/-- Where nothing inherited is found, a call is as it is documented. -/
theorem executeCall_eq_documentedCall
    (hfunction : name ∈ stdlibNames ∨ inheritsFromObject name = false)
    (hsubworkflow : (definition.defined name).isSome ∨ definition.inherits name = false)
    (n frames : ℕ) (rawArgs : Value) :
    executeCall (engineOf host functions definition) (n + 1) frames (.str name) rawArgs =
      documentedCall host functions definition name n frames rawArgs := by
  rw [executeCall_succ, documentedCall, definition.subworkflow_eq name]
  cases hdefined : definition.defined name with
  | some block => rfl
  | none =>
    have hinherits : definition.inherits name = false := by simpa [hdefined] using hsubworkflow
    simp only [hinherits, Bool.false_eq_true, if_false]
    by_cases hregistered : name ∈ stdlibNames
    · simp only [if_pos hregistered]
    · simp only [if_neg hregistered]
      have hunknown : ∀ n args, createStdlib host (functions n) name args =
          .error (unknownFunction name) := by
        intro n args
        rw [createStdlib_eq_iff.2 hfunction n args, if_neg hregistered]
      simp only [callStdlib_of_error hunknown]

/-- A call of what the subworkflows inherit fails for another reason than that there is no such
function. -/
theorem executeCall_inherited (host : Runtime)
    (functions : ℕ → JsString → List Value → Except Failure Returned)
    (hdefined : definition.defined name = none)
    (hinherits : definition.inherits name) :
    (executeCall (engineOf host functions definition) 3 0 (.str name) .undefined newMachine).1 =
      .thrown (typeError host "steps.length" .undefined) := by
  rw [executeCall_undefined, definition.subworkflow_eq name, hdefined]
  simp only [hinherits, if_true]
  rfl

theorem documentedCall_unknown (hdefined : definition.defined name = none)
    (hregistered : name ∉ stdlibNames) (n frames : ℕ) (m : Machine) :
    (documentedCall host functions definition name n frames .undefined m).1 =
      .thrown (unknownFunction name) := by
  unfold documentedCall
  rw [hdefined]
  simp only [if_neg hregistered]
  rfl

/-- Where calls are as they are documented, the name is not inherited. -/
theorem isSome_or_not_inherits (hcall : ∀ n frames rawArgs,
    executeCall (engineOf host functions definition) (n + 1) frames (.str name) rawArgs =
      documentedCall host functions definition name n frames rawArgs) :
    (definition.defined name).isSome ∨ definition.inherits name = false := by
  by_contra hcond
  obtain ⟨hdefined, hinherits⟩ := not_or.1 hcond
  have hnone : definition.defined name = none := by simpa using hdefined
  have hsome : definition.inherits name := by simpa using hinherits
  have hrun := executeCall_inherited host functions hnone hsome
  rw [hcall 2 0 .undefined,
    documentedCall_unknown hnone (notMem_stdlibNames_of_inherits hsome)] at hrun
  cases hrun

/-- **Own names.** References, member and index accesses, `in` and calls find a name exactly when it is
a variable, a key, a subworkflow or a function of the registry, and raise their errors otherwise: if and
only if none of the objects they look into inherits the name without having it. -/
theorem looksUpOwn_iff (host : Runtime)
    (functions : ℕ → JsString → List Value → Except Failure Returned) (definition : Definition)
    (name : JsString) (scopeRef mapRef : Option ℕ) (scopeProto mapProto : Value)
    (vars fields : List (JsString × Value)) :
    LooksUpOwn host functions definition name (.map scopeRef scopeProto vars)
        (.map mapRef mapProto fields) ↔
      Unambiguous definition name (.map scopeRef scopeProto vars)
        (.map mapRef mapProto fields) := by
  have hscope : isMap (.map scopeRef scopeProto vars) := rfl
  have hmap : isMap (.map mapRef mapProto fields) := rfl
  constructor
  · intro h
    refine ⟨(property_eq_ownField_iff hscope).1 ?_, (property_eq_ownField_iff hmap).1 ?_,
      createStdlib_eq_iff.1 h.function, isSome_or_not_inherits h.call⟩
    · have hreference := h.reference fun _ _ => .ok .undefined
      rw [getVariable_eq_found] at hreference
      exact found_injective hreference
    · have hmember := h.member
      rw [getMember_eq_found hmap] at hmember
      exact found_injective hmember
  · intro h
    have hreference := (property_eq_ownField_iff hscope).2 h.reference
    have hkey := (property_eq_ownField_iff hmap).2 h.key
    refine ⟨fun stdlib => ?_, ?_, ?_, ?_, createStdlib_eq_iff.2 h.function,
      executeCall_eq_documentedCall h.function h.subworkflow⟩
    · rw [getVariable_eq_found, hreference]
    · rw [getMember_eq_found hmap, hkey]
    · rw [getIndex_eq_found host hmap, hkey]
    · rw [applyIn_map host hmap, hkey]

end Calls

/-- A workflow without subworkflows. -/
def plainDefinition : Definition := ⟨⟨.undefined, []⟩, [], none⟩

/-- Without variables or functions, `constructor` is a variable. -/
theorem not_looksUpOwn :
    ¬ ∀ (host : Runtime) (functions : ℕ → JsString → List Value → Except Failure Returned)
        (definition : Definition) (name : JsString) (scopeRef mapRef : Option ℕ)
        (scopeProto mapProto : Value) (vars fields : List (JsString × Value)),
      LooksUpOwn host functions definition name (.map scopeRef scopeProto vars)
        (.map mapRef mapProto fields) := by
  intro h
  have hlooks := h plainRuntime (fun _ _ _ => .ok (.value .null)) plainDefinition (js "constructor")
    none none .objectPrototype .objectPrototype [] []
  have hreference := hlooks.reference fun _ _ => .ok .undefined
  rw [getVariable_eq_found] at hreference
  have hnone : property (.map none .objectPrototype []) (js "constructor") = none :=
    found_injective hreference
  have hsome : (property (.map none .objectPrototype []) (js "constructor")).isSome := by
    decide +kernel
  rw [hnone] at hsome
  exact nomatch hsome

end Kinglet.Workflows
