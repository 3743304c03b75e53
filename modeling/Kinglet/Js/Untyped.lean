import Kinglet.Js.Json

/-!
# Values of unknown type

What the service layer does with the bodies of requests, whose fields may have any type: reading a
property, comparing a length with a bound, iterating, spreading the entries into another object, and
writing a value to a text column and reading it back.
-/

namespace Kinglet.Js

/-! ## Properties -/

/-- `value[name]`, `none` when it throws. The names read are none that a value inherits, but for the
length of strings and arrays. -/
def prop (value : JsValue) (name : JsString) : Option JsValue :=
  match value with
  | .undefined | .null => none
  | .obj _ fields => some ((ownField fields name).getD .undefined)
  | .arr _ elements =>
      some (if name = "length" then .num (natNumber elements.length) else .undefined)
  | .str s => some (if name = "length" then .num (natNumber s.length) else .undefined)
  | .bool _ | .num _ => some .undefined

/-- `value?.[name]`. -/
def propOrUndefined (value : JsValue) (name : JsString) : JsValue :=
  (prop value name).getD .undefined

/-- The elements `for (const x of value)` goes through, `none` when it throws. -/
def iterate : JsValue → Option (List JsValue)
  | .arr _ elements => some elements
  | .str s => some ((codePoints s).map fun point => .str (fromCodePoint point))
  | _ => none

/-- `Object.entries(value)`. -/
def entriesOf : JsValue → Fields
  | .obj _ fields => ownEntries fields
  | .arr _ elements => elements.mapIdx fun i element => (decimal i, element)
  | .str s => s.mapIdx fun i u => (decimal i, .str [u])
  | _ => []

/-- A property a value has of its own and that can be enumerated. -/
def ownProperty (value : JsValue) (name : JsString) : Option JsValue :=
  ownField (entriesOf value) name

/-- `{ ...fields, ...value }`: the fields there are keep their position. -/
def spread (fields : Fields) (value : JsValue) : Fields :=
  fields.map (fun (name, old) => (name, (ownProperty value name).getD old)) ++
    (entriesOf value).filter fun entry => !hasOwn fields entry.1

theorem ownField_cons (key : JsString) (value : JsValue) (fields : Fields) (name : JsString) :
    ownField ((key, value) :: fields) name =
      if name = key then some value else ownField fields name := by
  simp only [ownField, List.lookup_cons]
  split
  · rw [if_pos (beq_iff_eq.1 ‹_›)]
  · rw [if_neg (beq_eq_false_iff_ne.1 ‹_›)]

theorem ownField_append (fields rest : Fields) (name : JsString) :
    ownField (fields ++ rest) name = (ownField fields name).or (ownField rest name) := by
  induction fields with
  | nil => rfl
  | cons field fields ih =>
      obtain ⟨key, value⟩ := field
      rw [List.cons_append, ownField_cons, ownField_cons, ih]
      split <;> rfl

/-- A test on names keeps the fields it holds of. -/
theorem ownField_filter (keep : JsString → Bool) (fields : Fields) {name : JsString}
    (hname : keep name = true) :
    ownField (fields.filter fun field => keep field.1) name = ownField fields name := by
  induction fields with
  | nil => rfl
  | cons field fields ih =>
      obtain ⟨key, value⟩ := field
      rw [List.filter_cons]
      split
      · rw [ownField_cons, ownField_cons, ih]
      · rename_i hkey
        rw [ih, ownField_cons, if_neg]
        rintro rfl
        exact hkey hname

theorem ownField_eq_none {fields : Fields} {name : JsString}
    (h : ∀ field ∈ fields, field.1 ≠ name) : ownField fields name = none := by
  induction fields with
  | nil => rfl
  | cons field fields ih =>
      obtain ⟨key, value⟩ := field
      obtain ⟨hkey, hrest⟩ := List.forall_mem_cons.1 h
      rw [ownField_cons, if_neg (Ne.symm hkey), ih hrest]

/-- Spreading puts the properties of the value over the fields there are. -/
theorem ownField_spread (fields : Fields) (value : JsValue) (name : JsString) :
    ownField (spread fields value) name =
      (ownProperty value name).or (ownField fields name) := by
  have hmap : ownField (fields.map fun (name, old) => (name, (ownProperty value name).getD old))
      name = (ownField fields name).map fun old => (ownProperty value name).getD old := by
    induction fields with
    | nil => rfl
    | cons field fields ih =>
        obtain ⟨key, old⟩ := field
        rw [List.map_cons, ownField_cons, ownField_cons, ih]
        split
        · rename_i hname
          rw [hname, Option.map_some]
        · rfl
  rw [spread, ownField_append, hmap]
  cases hold : ownField fields name with
  | some old => cases ownProperty value name <;> rfl
  | none =>
      have hnew : (!hasOwn fields name) = true := by rw [hasOwn, hold]; rfl
      rw [ownField_filter (fun name => !hasOwn fields name) _ hnew, Option.map_none, Option.none_or,
        Option.or_none, ownProperty]

/-- What is read off a value under a name that is no position in it. -/
theorem prop_eq_ownProperty {value : JsValue} {name : JsString}
    (hdigit : ∃ u ∈ name, isDigit u = false) (hlength : name ≠ js "length")
    (hvalue : isNullish value = false) :
    prop value name = some ((ownProperty value name).getD .undefined) := by
  have hdecimal : ∀ n, decimal n ≠ name := by
    rintro n rfl
    obtain ⟨u, hu, hne⟩ := hdigit
    rw [isDigit_of_mem_decimal hu] at hne
    cases hne
  have hindex : isIndexName name = false := by
    rw [isIndexName, decide_eq_false (hdecimal _).symm, Bool.false_and]
  cases value with
  | undefined | null => cases hvalue
  | bool | num => rfl
  | str s =>
      have hnone : ownProperty (.str s) name = none := by
        refine ownField_eq_none fun field hmem => ?_
        obtain ⟨i, _, rfl⟩ := List.mem_mapIdx.1 hmem
        exact hdecimal i
      rw [hnone, prop, if_neg hlength]
      rfl
  | arr ref elements =>
      have hnone : ownProperty (.arr ref elements) name = none := by
        refine ownField_eq_none fun field hmem => ?_
        obtain ⟨i, _, rfl⟩ := List.mem_mapIdx.1 hmem
        exact hdecimal i
      rw [hnone, prop, if_neg hlength]
      rfl
  | obj ref fields =>
      have hsorted : ownField ((fields.filter fun f => isIndexName f.1).insertionSort
          fun f g => digitsValue f.1 ≤ digitsValue g.1) name = none := by
        refine ownField_eq_none fun field hmem => ?_
        rw [List.mem_insertionSort, List.mem_filter] at hmem
        rintro rfl
        rw [hindex] at hmem
        exact nomatch hmem.2
      have hkeep : (!isIndexName name) = true := by rw [hindex]; rfl
      have hown : ownProperty (.obj ref fields) name = ownField fields name := by
        rw [ownProperty, entriesOf, ownEntries, ownField_append, hsorted, Option.none_or,
          ownField_filter (fun name => !isIndexName name) _ hkeep]
      rw [hown]
      rfl

/-! ## Numbers from values -/

/-- The digits of a number in another base, `none` when one is no digit of it. -/
def digitsOfBase (base : ℕ) (text : JsString) : Option ℕ :=
  if text = [] then none
  else text.foldl (fun n u => do
    let n ← n
    let d ← hexValue u
    if d < base then some (n * base + d) else none) (some 0)

/-- An unsigned decimal literal, as `Number` reads it: digits on one side of the point suffice. -/
def decimalLiteral (text : JsString) : Option Float := do
  let whole := text.takeWhile isDigit
  let (fraction, rest) := match text.dropWhile isDigit with
    | 46 :: rest => (rest.takeWhile isDigit, rest.dropWhile isDigit)
    | rest => ([], rest)
  if whole ++ fraction = [] then none
  let (exponent, rest) ← readExponent rest
  if rest = [] then some (scientific (digitsValue (whole ++ fraction)) (exponent - fraction.length))
  else none

/-- `Number(text)`, `none` for `NaN`. -/
def textNumber (text : JsString) : Option Float :=
  let signed := fun text : JsString =>
    if text = "Infinity" then some (1 / 0) else decimalLiteral text
  match trim text with
  | [] => some 0
  | 48 :: u :: digits =>
      let base := if u = unit 'x' || u = unit 'X' then some 16
        else if u = unit 'o' || u = unit 'O' then some 8
        else if u = unit 'b' || u = unit 'B' then some 2
        else none
      match base with
      | some base => (digitsOfBase base digits).map natNumber
      | none => signed (48 :: u :: digits)
  | 45 :: text => (signed text).map (-·)
  | 43 :: text => signed text
  | text => signed text

/-- `value > bound`, `none` when the conversion to a number throws. -/
def greaterThan (value : JsValue) (bound : ℕ) : Option Bool :=
  match value with
  | .undefined => some false
  | .null => some false
  | .bool b => some (b && bound < 1)
  | .num x => some (natNumber bound < x)
  | value => (toText value).map fun text => (textNumber text).any fun x => natNumber bound < x

/-- `value.length > bound`. -/
def longerThan (value : JsValue) (bound : ℕ) : Option Bool :=
  (prop value "length").bind fun length => greaterThan length bound

/-- The integer a value is, if it is one. -/
def integerOf : JsValue → Option ℤ
  | .num x => intValue x
  | _ => none

/-! ## Text columns -/

mutual
/-- `JSON.parse(JSON.stringify(value))` for a value that has a text, with `undefined` as `null`. -/
def jsonCopy : JsValue → JsValue
  | .undefined => .null
  | .num x => if x.isFinite then .num (if x == 0 then 0 else x) else .null
  | .arr _ elements => .arr none (jsonCopyElements elements)
  | .obj _ fields => .obj none (ownEntries (jsonCopyFields fields))
  | value => value

def jsonCopyElements : List JsValue → List JsValue
  | [] => []
  | element :: elements => jsonCopy element :: jsonCopyElements elements

/-- Fields that are `undefined` have no text. -/
def jsonCopyFields : List (JsString × JsValue) → List (JsString × JsValue)
  | [] => []
  | (_, .undefined) :: fields => jsonCopyFields fields
  | (name, value) :: fields => (name, jsonCopy value) :: jsonCopyFields fields
end

end Kinglet.Js
