import Kinglet.Js.Untyped

/-!
# The values of workflows

The values that expressions compute with, and what the operators of JavaScript make of them. Maps and
lists have an identity, `none` for one made on the spot, and a map has the prototype from which it
inherits: that of all objects, unless an assignment to `__proto__` has replaced it. What is inherited
are functions, and `__proto__` itself.
-/

namespace Kinglet.Workflows

open Js

inductive Value
  | undefined
  | null
  | bool (b : Bool)
  | num (x : Float)
  | str (s : JsString)
  | list (ref : Option ℕ) (elements : List Value)
  | map (ref : Option ℕ) (proto : Value) (fields : List (JsString × Value))
  | objectPrototype
  | arrayPrototype
  /-- A function that objects, or only arrays, inherit. -/
  | inherited (ofArrays : Bool) (name : JsString)

instance : Inhabited Value := ⟨.undefined⟩

/-! ## Errors -/

/-- A `WorkflowRuntimeError`, or another error with its name. -/
inductive Failure
  | workflow (message : JsString) (tags code : Value)
  | thrown (name message : JsString)

/-- `new WorkflowRuntimeError(message, [tag], 0)`. -/
def workflowError (message : JsString) (tag : String) : Failure :=
  .workflow message (.list none [.str (js tag)]) (.num 0)

/-! ## Properties -/

/-- The functions of `Object.prototype`. -/
def objectFunctions : List JsString :=
  ["constructor", "__defineGetter__", "__defineSetter__", "hasOwnProperty", "__lookupGetter__",
    "__lookupSetter__", "isPrototypeOf", "propertyIsEnumerable", "toString", "valueOf",
    "toLocaleString"].map js

/-- The functions of `Array.prototype` under a name, which hide those of all objects. -/
def arrayFunctions : List JsString :=
  ["constructor", "at", "concat", "copyWithin", "fill", "find", "findIndex", "findLast",
    "findLastIndex", "lastIndexOf", "pop", "push", "reverse", "shift", "unshift", "slice", "sort",
    "splice", "includes", "indexOf", "join", "keys", "entries", "values", "forEach", "filter", "flat",
    "flatMap", "map", "every", "some", "reduce", "reduceRight", "toLocaleString", "toString",
    "toReversed", "toSorted", "toSpliced", "with"].map js

/-- The prototype of an object. -/
def prototypeOf : Value → Value
  | .list _ _ => .arrayPrototype
  | .map _ proto _ => proto
  | .arrayPrototype => .objectPrototype
  | _ => .null

/-- A property of an object by its name, its own or inherited; `receiver` is what `__proto__`
gives. -/
def propertyFrom (receiver : Value) (key : JsString) : Value → Option Value
  | .list _ elements =>
      if key = js "length" then some (.num (natNumber elements.length))
      else if isIndexName key ∧ digitsValue key < elements.length then elements[digitsValue key]?
      else if key = js "__proto__" then some receiver
      else if key ∈ arrayFunctions then some (.inherited true key)
      else if key ∈ objectFunctions then some (.inherited false key)
      else none
  | .map _ proto fields =>
      match fields.lookup key with
      | some value => some value
      | none => propertyFrom receiver key proto
  | .objectPrototype =>
      if key = js "__proto__" then some receiver
      else if key ∈ objectFunctions then some (.inherited false key)
      else none
  | .arrayPrototype =>
      if key = js "length" then some (.num 0)
      else if key = js "__proto__" then some receiver
      else if key ∈ arrayFunctions then some (.inherited true key)
      else if key ∈ objectFunctions then some (.inherited false key)
      else none
  | _ => none

/-- `key in value ? value[key] : …`, of an object. -/
def property (value : Value) (key : JsString) : Option Value :=
  propertyFrom (prototypeOf value) key value

/-- An own property gets a value in its place. A new one goes behind the others, but an index goes
before the greater ones and the names. -/
def setField (key : JsString) (value : Value) :
    List (JsString × Value) → List (JsString × Value)
  | [] => [(key, value)]
  | (k, v) :: fields =>
      if k = key then (key, value) :: fields
      else if isIndexName key ∧ (¬ isIndexName k ∨ digitsValue key < digitsValue k) then
        (key, value) :: (k, v) :: fields
      else (k, v) :: setField key value fields

/-- Whether an assignment to `__proto__` finds the accessor of all objects, not a property. -/
def findsAccessor : Value → Bool
  | .map _ proto fields => (fields.lookup (js "__proto__")).isNone && findsAccessor proto
  | .list _ _ | .objectPrototype | .arrayPrototype | .inherited _ _ => true
  | _ => false

/-- Whether a value may be a prototype: an object, a function or `null`. -/
def isPrototype : Value → Bool
  | .null | .list _ _ | .map _ _ _ | .objectPrototype | .arrayPrototype | .inherited _ _ => true
  | _ => false

/-- `map[key] = value`. -/
def setProperty (key : JsString) (value : Value) : Value → Value
  | .map ref proto fields =>
      if key = js "__proto__" ∧ findsAccessor (.map ref proto fields) then
        if isPrototype value then .map ref value fields else .map ref proto fields
      else .map ref proto (setField key value fields)
  | object => object

/-- `delete map[key]`. -/
def deleteProperty (key : JsString) : Value → Value
  | .map ref proto fields => .map ref proto (fields.filter fun field => field.1 ≠ key)
  | object => object

/-! ## Conversions -/

/-- `Array.isArray(value)`, with the elements. -/
def elementsOf : Value → Option (List Value)
  | .list _ elements => some elements
  | .arrayPrototype => some []
  | _ => none

/-- `typeof value`. -/
def typeOf : Value → JsString
  | .undefined => "undefined"
  | .bool _ => "boolean"
  | .num _ => "number"
  | .str _ => "string"
  | .inherited _ _ => "function"
  | .null | .list _ _ | .map _ _ _ | .objectPrototype | .arrayPrototype => "object"

/-- `Boolean(value)`. -/
def truthy : Value → Bool
  | .undefined | .null => false
  | .bool b => b
  | .num x => !(x == 0 || x.isNaN)
  | .str s => s ≠ []
  | _ => true

/-- The runtime, with what the conversions of a map give that does not inherit the functions for them
from all objects: `none` when they throw. -/
structure Runtime extends Host where
  mapText : Value → Option JsString
  mapPrimitive : Value → Option Value
  /-- The message of the `TypeError` for an operation that a value does not have. -/
  typeErrorMessage : JsString → Value → JsString

/-- A runtime for ASCII text. -/
def plainRuntime : Runtime :=
  { asciiHost with
    mapText := fun _ => none
    mapPrimitive := fun _ => none
    typeErrorMessage := fun _ _ => [] }

/-- Whether the conversions of a map find the functions that all objects inherit. -/
def inheritsConversions (map : Value) : Bool :=
  match property map (js "toString"), property map (js "valueOf") with
  | some (.inherited false name), some (.inherited false name') =>
      name = js "toString" && name' = js "valueOf"
  | _, _ => false

mutual
/-- `String(value)`, `none` when it throws. -/
def toText (host : Runtime) : Value → Option JsString
  | .undefined => some (js "undefined")
  | .null => some (js "null")
  | .bool true => some (js "true")
  | .bool false => some (js "false")
  | .num x => some (numText x)
  | .str s => some s
  | .list _ elements => (elementTexts host elements).map (join (js ","))
  | .map ref proto fields =>
      if inheritsConversions (.map ref proto fields) then some (js "[object Object]")
      else host.mapText (.map ref proto fields)
  | .objectPrototype => some (js "[object Object]")
  | .arrayPrototype => some []
  | .inherited _ name => host.inheritedText name

/-- The texts an array joins: nothing for `undefined` and `null`. -/
def elementTexts (host : Runtime) : List Value → Option (List JsString)
  | [] => some []
  | .undefined :: elements => (elementTexts host elements).map ([] :: ·)
  | .null :: elements => (elementTexts host elements).map ([] :: ·)
  | element :: elements => do
      let text ← toText host element
      let texts ← elementTexts host elements
      pure (text :: texts)
end

/-- The text of a value, or the `TypeError` of the engine. -/
def textOf (host : Runtime) (value : Value) : Except Failure JsString :=
  match toText host value with
  | some text => .ok text
  | none => .error (.thrown "TypeError" host.conversionError)

/-- Whether a value is an object or a function. -/
def isObject : Value → Bool
  | .list _ _ | .map _ _ _ | .objectPrototype | .arrayPrototype | .inherited _ _ => true
  | _ => false

/-- The primitive value that an operator works with: an object becomes its text. -/
def toPrimitive (host : Runtime) (value : Value) : Except Failure Value :=
  match value with
  | .map _ _ _ =>
      if inheritsConversions value then .ok (.str "[object Object]")
      else
        match host.mapPrimitive value with
        | some primitive => .ok primitive
        | none => .error (.thrown "TypeError" host.conversionError)
  | value => if isObject value then (textOf host value).map .str else .ok value

/-- `Number(value)` of a primitive value. -/
def primitiveNumber : Value → Float
  | .null => 0
  | .bool b => if b then 1 else 0
  | .num x => x
  | .str s => (textNumber s).getD (0 / 0)
  | _ => 0 / 0

/-- `Number(value)`. -/
def toNumber (host : Runtime) (value : Value) : Except Failure Float :=
  (toPrimitive host value).map primitiveNumber

/-! ## Operators -/

/-- `a === b`. -/
def strictEquals : Value → Value → Bool
  | .undefined, .undefined => true
  | .null, .null => true
  | .bool a, .bool b => a = b
  | .num a, .num b => a == b
  | .str a, .str b => a = b
  | .list a _, .list b _ => sameRef a b
  | .map a _ _, .map b _ _ => sameRef a b
  | .objectPrototype, .objectPrototype => true
  | .arrayPrototype, .arrayPrototype => true
  | .inherited a name, .inherited b name' => a = b && name = name'
  | _, _ => false

/-- What `includes` compares with: `NaN` equals itself. -/
def sameValueZero (a b : Value) : Bool :=
  match a, b with
  | .num x, .num y => x == y || (x.isNaN && y.isNaN)
  | _, _ => strictEquals a b

/-- `a < b` of primitive values. -/
def lessThan : Value → Value → Bool
  | .str a, .str b => a < b
  | a, b => primitiveNumber a < primitiveNumber b

/-- `a <= b` of primitive values. -/
def atMost : Value → Value → Bool
  | .str a, .str b => a ≤ b
  | a, b => primitiveNumber a ≤ primitiveNumber b

/-- `a + b` of primitive values neither of which is a text that was one before. -/
def addPrimitives (host : Runtime) (a b : Value) : Except Failure Value :=
  match a, b with
  | .str s, b => (textOf host b).map fun t => .str (s ++ t)
  | a, .str t => (textOf host a).map fun s => .str (s ++ t)
  | a, b => .ok (.num (primitiveNumber a + primitiveNumber b))

/-- `a % b`: the remainder has the sign of the dividend. -/
def remainder (a b : Float) : Float :=
  match unpack a, unpack b with
  | some (negative, m, e), some (_, m', e') =>
      -- both are multiples of the same power of two
      let low := min e e'
      let dividend := m * 2 ^ (e - low).toNat
      let divisor := m' * 2 ^ (e' - low).toNat
      let rest := Float.scaleB (natNumber (dividend % divisor)) low
      if divisor = 0 then 0 / 0 else if negative then -rest else rest
  | some _, none => if b.isNaN then 0 / 0 else a
  | none, _ => 0 / 0

end Kinglet.Workflows
