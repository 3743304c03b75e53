import Kinglet.Js.Number
import Mathlib.Data.List.Sort

/-!
# JavaScript values

The values the rule evaluator and the service layer compute with. Objects compare by identity, so
arrays and objects carry one: `none` for an object created on the spot, which no other value
shares. Fields are kept in insertion order.
-/

namespace Kinglet.Js

inductive JsValue where
  | undefined
  | null
  | bool (b : Bool)
  | num (x : Float)
  | str (s : JsString)
  | arr (ref : Option ℕ) (elements : List JsValue)
  | obj (ref : Option ℕ) (fields : List (JsString × JsValue))

/-- An object's own fields. -/
abbrev Fields := List (JsString × JsValue)

/-! ## Own fields -/

/-- `Object.hasOwn(obj, name) ? obj[name] : undefined`. -/
def ownField (fields : Fields) (name : JsString) : Option JsValue := fields.lookup name

/-- `Object.hasOwn(obj, name)`. -/
def hasOwn (fields : Fields) (name : JsString) : Bool := (ownField fields name).isSome

/-- `obj[name] = value` on an own field: an existing field keeps its position. -/
def setField {α : Type*} (name : JsString) (value : α) : List (JsString × α) → List (JsString × α)
  | [] => [(name, value)]
  | (other, old) :: fields =>
      if other = name then (name, value) :: fields
      else (other, old) :: setField name value fields

theorem lookup_setField {α : Type*} (name other : JsString) (value : α)
    (fields : List (JsString × α)) :
    (setField name value fields).lookup other =
      if other = name then some value else fields.lookup other := by
  induction fields with
  | nil =>
      by_cases heq : other = name
      · simp [setField, heq]
      · simp [setField, List.lookup_cons, heq, beq_false_of_ne heq]
  | cons field fields ih =>
      obtain ⟨key, old⟩ := field
      rw [setField]
      by_cases hkey : key = name
      · subst hkey
        by_cases heq : other = key
        · simp [heq]
        · simp [heq, List.lookup_cons, beq_false_of_ne heq]
      · rw [if_neg hkey, List.lookup_cons, List.lookup_cons, ih]
        by_cases heq : other = key
        · subst heq
          simp [hkey]
        · simp [beq_false_of_ne heq]

theorem mem_of_lookup_eq_some {α : Type*} {fields : List (JsString × α)} {name : JsString} {value : α}
    (h : fields.lookup name = some value) : (name, value) ∈ fields := by
  induction fields with
  | nil => cases h
  | cons field fields ih =>
      obtain ⟨key, old⟩ := field
      rw [List.lookup_cons] at h
      by_cases hkey : name = key
      · subst hkey
        rw [beq_self_eq_true] at h
        rw [Option.some.inj h]
        exact List.mem_cons_self
      · rw [beq_false_of_ne hkey] at h
        exact List.mem_cons_of_mem _ (ih h)

/-- Where no name comes twice, a lookup finds what stands there. -/
theorem lookup_eq_some_iff_mem {α : Type*} {fields : List (JsString × α)} {name : JsString}
    (hnodup : (fields.map Prod.fst).Nodup) {value : α} :
    fields.lookup name = some value ↔ (name, value) ∈ fields := by
  refine ⟨mem_of_lookup_eq_some, fun hmem => ?_⟩
  cases hlookup : fields.lookup name with
  | none =>
      have hnone := List.lookup_eq_none_iff.1 hlookup _ hmem
      simp at hnone
  | some other =>
      have heq := List.inj_on_of_nodup_map hnodup (mem_of_lookup_eq_some hlookup) hmem rfl
      rw [(Prod.mk.inj heq).2]

/-- `obj[name] = value` on an object literal: `__proto__` sets the prototype and creates no field. -/
def assignField {α : Type*} (name : JsString) (value : α) (fields : List (JsString × α)) :
    List (JsString × α) :=
  if name = js "__proto__" then fields else setField name value fields

/-- Whether a name is the canonical text of an array index. -/
def isIndexName (name : JsString) : Bool :=
  name = decimal (digitsValue name) && digitsValue name < 4294967295

/-- `Object.entries(obj)`: index names in ascending order, then the others as inserted. -/
def ownEntries {α : Type*} (fields : List (JsString × α)) : List (JsString × α) :=
  (fields.filter fun f => isIndexName f.1).insertionSort
      (fun f g => digitsValue f.1 ≤ digitsValue g.1) ++
    fields.filter fun f => !isIndexName f.1

mutual
/-- The value with every identity in it moved up by `n`. -/
def shiftRefs (n : ℕ) : JsValue → JsValue
  | .arr ref elements => .arr (ref.map (· + n)) (shiftElements n elements)
  | .obj ref fields => .obj (ref.map (· + n)) (shiftFields n fields)
  | value => value

def shiftElements (n : ℕ) : List JsValue → List JsValue
  | [] => []
  | element :: elements => shiftRefs n element :: shiftElements n elements

def shiftFields (n : ℕ) : List (JsString × JsValue) → List (JsString × JsValue)
  | [] => []
  | (name, value) :: fields => (name, shiftRefs n value) :: shiftFields n fields
end

/-! ## Conversions and comparison -/

mutual
/-- `String(value)`, `none` when it throws: an object whose own `toString` is no function has no
text. -/
def toText : JsValue → Option JsString
  | .undefined => some (js "undefined")
  | .null => some (js "null")
  | .bool true => some (js "true")
  | .bool false => some (js "false")
  | .num x => some (numText x)
  | .str s => some s
  | .arr _ elements => (elementTexts elements).map (join (js ","))
  | .obj _ fields => if hasOwn fields (js "toString") then none else some (js "[object Object]")

/-- The texts an array joins: nothing for `undefined` and `null`. -/
def elementTexts : List JsValue → Option (List JsString)
  | [] => some []
  | .undefined :: elements => (elementTexts elements).map ([] :: ·)
  | .null :: elements => (elementTexts elements).map ([] :: ·)
  | element :: elements => do
      let text ← toText element
      let texts ← elementTexts elements
      return text :: texts
end

/-- `typeof value`. -/
def typeOf : JsValue → JsString
  | .undefined => js "undefined"
  | .bool _ => js "boolean"
  | .num _ => js "number"
  | .str _ => js "string"
  | .null | .arr _ _ | .obj _ _ => js "object"

/-- Whether two identities are the same one. -/
def sameRef : Option ℕ → Option ℕ → Bool
  | some a, some b => a = b
  | _, _ => false

/-- `Object.is(a, b) || a === b`: `NaN` equals itself, `0` equals `-0`, objects equal by identity. -/
def sameValue : JsValue → JsValue → Bool
  | .undefined, .undefined => true
  | .null, .null => true
  | .bool a, .bool b => a = b
  | .num a, .num b => a == b || (a.isNaN && b.isNaN)
  | .str a, .str b => a = b
  | .arr a _, .arr b _ => sameRef a b
  | .obj a _, .obj b _ => sameRef a b
  | _, _ => false

/-- `value == null`. -/
def isNullish : JsValue → Bool
  | .undefined | .null => true
  | _ => false

/-- What the engine takes from its host environment: the Unicode case mappings, the regular
expression package (an error text, or the test of a compiled pattern), the texts of the members
every object inherits, and the text of the error that converting an object to text may throw. -/
structure Host where
  toLowerCase : JsString → JsString
  toUpperCase : JsString → JsString
  re2Compile : JsString → Except JsString (JsString → Bool)
  inheritedText : JsString → Option JsString
  conversionError : JsString

/-- A host for ASCII text, whose regular expressions are the words. -/
def asciiHost : Host where
  toLowerCase text := text.map fun u => if 65 ≤ u && u ≤ 90 then u + 32 else u
  toUpperCase text := text.map fun u => if 97 ≤ u && u ≤ 122 then u - 32 else u
  re2Compile pattern :=
    if pattern.all isWord then .ok fun text => includes text pattern
    else .error "unsupported regular expression"
  inheritedText name :=
    if name = js "constructor" then some "function Object() \x7b\n    [native code]\n\x7d"
    else if name = js "__proto__" then some "[object Object]"
    else none
  conversionError := "No default value"

end Kinglet.Js
