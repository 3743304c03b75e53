import Kinglet.Js.Value
import Kinglet.Js.Utf8

/-!
# JSON

`JSON.parse` and `JSON.stringify`. The parser's fuel is one more than the length of the text:
every recursive call follows at least one code unit read.
-/

namespace Kinglet.Js

/-- JSON white space. -/
def isJsonSpace (u : UInt16) : Bool := u = 32 || u = 9 || u = 10 || u = 13

def skipJsonSpace (text : JsString) : JsString := text.dropWhile isJsonSpace

/-! ## Reading -/

/-- Four hexadecimal digits. -/
def hexUnit : JsString → Option (UInt16 × JsString)
  | a :: b :: c :: d :: rest => do
      let a ← hexValue a
      let b ← hexValue b
      let c ← hexValue c
      let d ← hexValue d
      return ((((a * 16 + b) * 16 + c) * 16 + d).toUInt16, rest)
  | _ => none

/-- The code unit of a one-letter escape. -/
def escapeUnit (u : UInt16) : Option UInt16 :=
  if u = unit '"' || u = unit '\\' || u = unit '/' then some u
  else if u = unit 'b' then some 8
  else if u = unit 'f' then some 12
  else if u = unit 'n' then some 10
  else if u = unit 'r' then some 13
  else if u = unit 't' then some 9
  else none

/-- The rest of a string literal, after its opening quote. -/
def readJsonString : ℕ → JsString → Option (JsString × JsString)
  | 0, _ => none
  | _ + 1, [] => none
  | fuel + 1, u :: rest =>
      if u = unit '"' then some ([], rest)
      else if u = unit '\\' then
        match rest with
        | [] => none
        | e :: rest => do
            let (v, rest) ← if e = unit 'u' then hexUnit rest else (escapeUnit e).map (·, rest)
            let (text, rest) ← readJsonString fuel rest
            return (v :: text, rest)
      else if u < 32 then none
      else do
        let (text, rest) ← readJsonString fuel rest
        return (u :: text, rest)

/-- The digits of the exponent of a number, if it has one: its value and what follows. -/
def readExponent : JsString → Option (ℤ × JsString)
  | e :: rest =>
      if e = unit 'e' || e = unit 'E' then
        let (negative, rest) := match rest with
          | 45 :: rest => (true, rest)
          | 43 :: rest => (false, rest)
          | rest => (false, rest)
        match rest.takeWhile isDigit with
        | [] => none
        | digits =>
            let n : ℤ := digitsValue digits
            some (if negative then -n else n, rest.dropWhile isDigit)
      else some (0, e :: rest)
  | [] => some (0, [])

/-- A number literal without its sign. -/
def readJsonNumber (text : JsString) : Option (Float × JsString) := do
  let whole := text.takeWhile isDigit
  let rest := text.dropWhile isDigit
  if whole = [] || (whole.head? = some 48 && whole.length ≠ 1) then none
  let (fraction, rest) ← match rest with
    | 46 :: rest =>
        match rest.takeWhile isDigit with
        | [] => none
        | digits => some (digits, rest.dropWhile isDigit)
    | rest => some ([], rest)
  let (exponent, rest) ← readExponent rest
  return (scientific (digitsValue (whole ++ fraction)) (exponent - fraction.length), rest)

/-- A literal name, when the text starts with it. -/
def readName (name : JsString) (value : JsValue) (text : JsString) : Option (JsValue × JsString) :=
  if startsWith text name then some (value, text.drop name.length) else none

mutual
/-- A value, after white space. -/
def readJsonValue : ℕ → JsString → Option (JsValue × JsString)
  | 0, _ => none
  | fuel + 1, text =>
      match skipJsonSpace text with
      | [] => none
      | u :: rest =>
          if u = unit '{' then
            match skipJsonSpace rest with
            | 125 :: rest => some (.obj none [], rest)
            | rest => readMembers fuel [] rest
          else if u = unit '[' then
            match skipJsonSpace rest with
            | 93 :: rest => some (.arr none [], rest)
            | rest => readElements fuel [] rest
          else if u = unit '"' then do
            let (s, rest) ← readJsonString fuel rest
            return (.str s, rest)
          else if u = unit '-' then do
            let (x, rest) ← readJsonNumber rest
            return (.num (-x), rest)
          else if isDigit u then do
            let (x, rest) ← readJsonNumber (u :: rest)
            return (.num x, rest)
          else
            readName (js "true") (.bool true) (u :: rest) <|>
              readName (js "false") (.bool false) (u :: rest) <|>
              readName (js "null") .null (u :: rest)

/-- The members of an object up to its closing brace; a repeated name keeps its first position and
its last value. -/
def readMembers : ℕ → Fields → JsString → Option (JsValue × JsString)
  | 0, _, _ => none
  | fuel + 1, fields, text =>
      match skipJsonSpace text with
      | 34 :: rest => do
          let (name, rest) ← readJsonString fuel rest
          match skipJsonSpace rest with
          | 58 :: rest =>
              let (value, rest) ← readJsonValue fuel rest
              let fields := setField name value fields
              match skipJsonSpace rest with
              | 44 :: rest => readMembers fuel fields rest
              | 125 :: rest => some (.obj none fields, rest)
              | _ => none
          | _ => none
      | _ => none

/-- The elements of an array up to its closing bracket. -/
def readElements : ℕ → List JsValue → JsString → Option (JsValue × JsString)
  | 0, _, _ => none
  | fuel + 1, elements, text => do
      let (value, rest) ← readJsonValue fuel text
      match skipJsonSpace rest with
      | 44 :: rest => readElements fuel (elements ++ [value]) rest
      | 93 :: rest => some (.arr none (elements ++ [value]), rest)
      | _ => none
end

/-- `JSON.parse(text)`, `none` when it throws. -/
def jsonParse (text : JsString) : Option JsValue :=
  match readJsonValue (text.length + 1) text with
  | some (value, rest) => if skipJsonSpace rest = [] then some value else none
  | none => none

/-! ## Writing -/

/-- The escape of one code unit, before surrogates are considered. -/
def quoteUnit (u : UInt16) : JsString :=
  if u = 8 then js "\\b"
  else if u = 9 then js "\\t"
  else if u = 10 then js "\\n"
  else if u = 12 then js "\\f"
  else if u = 13 then js "\\r"
  else if u = unit '"' then js "\\\""
  else if u = unit '\\' then js "\\\\"
  else if u < 32 then js "\\u" ++ padStart 4 (natText 16 u.toNat)
  else [u]

/-- The quoted form of a string; lone surrogates are escaped. -/
def quoteJson (s : JsString) : JsString :=
  unit '"' :: (codePoints s).flatMap (fun point =>
    if point < 0xD800 || (0xE000 ≤ point && point < 0x10000) then quoteUnit point.toUInt16
    else if point < 0x10000 then js "\\u" ++ natText 16 point
    else fromCodePoint point) ++ [unit '"']

mutual
/-- `JSON.stringify(value)`, `none` for `undefined`. -/
def jsonStringify : JsValue → Option JsString
  | .undefined => none
  | .null => some (js "null")
  | .bool true => some (js "true")
  | .bool false => some (js "false")
  | .num x => some (if x.isFinite then numText x else js "null")
  | .str s => some (quoteJson s)
  | .arr _ elements => some (unit '[' :: join (js ",") (stringifyElements elements) ++ [unit ']'])
  | .obj _ fields =>
      some (unit '{' :: join (js ",") ((ownEntries (stringifyFields fields)).map Prod.snd) ++
        [unit '}'])

/-- The elements of an array, `null` for `undefined`. -/
def stringifyElements : List JsValue → List JsString
  | [] => []
  | value :: elements => (jsonStringify value).getD (js "null") :: stringifyElements elements

/-- The members of an object with their names; a field that is `undefined` is left out. -/
def stringifyFields : Fields → List (JsString × JsString)
  | [] => []
  | (name, value) :: fields =>
      match jsonStringify value with
      | none => stringifyFields fields
      | some text => (name, quoteJson name ++ js ":" ++ text) :: stringifyFields fields
end

end Kinglet.Js
