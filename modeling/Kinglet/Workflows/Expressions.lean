import Kinglet.Library.FuelParser
import Kinglet.Workflows.Value

/-!
# Workflow expressions

The evaluator of the source: it cuts the text into tokens and computes the value while it descends the
grammar, one function for each of its methods. The five loops over binary operators are one function,
which takes the level; a loop of the source is a tail function of its own. The depth of nested
expressions is an argument, as every call restores it.
-/

namespace Kinglet.Workflows

open Js Library Library.FuelParser

/-! ## Tokens -/

inductive TokenType
  | number
  | string
  | identifier
  | operator
  | paren
  | bracket
  | dot
  | comma
  deriving DecidableEq

/-- The type as error messages spell it. -/
def TokenType.text : TokenType → JsString
  | .number => "Number"
  | .string => "String"
  | .identifier => "Identifier"
  | .operator => "Operator"
  | .paren => "Paren"
  | .bracket => "Bracket"
  | .dot => "Dot"
  | .comma => "Comma"

structure Token where
  type : TokenType
  value : JsString
  deriving DecidableEq

namespace Token

def op (value : String) : Token := ⟨.operator, js value⟩
def lparen : Token := ⟨.paren, [40]⟩
def rparen : Token := ⟨.paren, [41]⟩
def lbracket : Token := ⟨.bracket, [91]⟩
def rbracket : Token := ⟨.bracket, [93]⟩
def dot : Token := ⟨.dot, [46]⟩
def comma : Token := ⟨.comma, [44]⟩

/-- `isOperatorOrOpen(token)`. -/
def isOperatorOrOpen (token : Token) : Bool :=
  token.type = .operator || token = lparen || token = lbracket || token.type = .comma

end Token

/-- What an escaped code unit of a string literal stands for. -/
def unescape (u : UInt16) : UInt16 := if u = unit 'n' then 10 else if u = unit 't' then 9 else u

/-- The value of a string literal and its length, both from after the opening quote. The literal may
end with the text, and after a last backslash there is `undefined`. -/
def readString (quote : UInt16) : JsString → JsString × ℕ
  | [] => ([], 0)
  | [u] => if u = quote then ([], 1) else if u = unit '\\' then (js "undefined", 1) else ([u], 1)
  | u :: e :: rest =>
      if u = quote then ([], 1)
      else if u = unit '\\' then
        (unescape e :: (readString quote rest).1, (readString quote rest).2 + 2)
      else (u :: (readString quote (e :: rest)).1, (readString quote (e :: rest)).2 + 1)

/-- `/[0-9.]/`. -/
def isNumberPart (u : UInt16) : Bool := isDigit u || u = 46

/-- The identifiers that are operators. -/
def isOperatorWord (name : JsString) : Bool :=
  name = js "and" || name = js "or" || name = js "not" || name = js "in"

def wordToken (name : JsString) : Token :=
  ⟨if isOperatorWord name then .operator else .identifier, name⟩

/-- `['==', '!=', '>=', '<=']`. -/
def isTwoCharacterOperator (two : JsString) : Bool :=
  two = js "==" || two = js "!=" || two = js ">=" || two = js "<="

/-- `['+', '-', '*', '/', '%', '>', '<']`. -/
def isOneCharacterOperator (u : UInt16) : Bool :=
  u = unit '+' || u = unit '-' || u = unit '*' || u = unit '/' || u = unit '%' || u = unit '>' ||
    u = unit '<'

/-- The minus sign of a number rather than an operator: a digit follows, and no operand stands
before. -/
def isNegativeNumber (previous : Option Token) (u : UInt16) (rest : JsString) : Bool :=
  u = unit '-' && rest.head?.any isDigit && previous.all Token.isOperatorOrOpen

/-- The token at a code unit that is no white space, and its length. -/
def readToken (previous : Option Token) (u : UInt16) (rest : JsString) : Option (Token × ℕ) :=
  if u = unit '"' || u = unit '\'' then
    some (⟨.string, (readString u rest).1⟩, (readString u rest).2 + 1)
  else if isDigit u || isNegativeNumber previous u rest then
    some (⟨.number, u :: rest.takeWhile isNumberPart⟩, (rest.takeWhile isNumberPart).length + 1)
  else if isTwoCharacterOperator (u :: rest.take 1) then some (⟨.operator, u :: rest.take 1⟩, 2)
  else if isOneCharacterOperator u then some (⟨.operator, [u]⟩, 1)
  else if u = 40 || u = 41 then some (⟨.paren, [u]⟩, 1)
  else if u = 91 || u = 93 then some (⟨.bracket, [u]⟩, 1)
  else if u = 46 then some (.dot, 1)
  else if u = 44 then some (.comma, 1)
  else if isIdentStart u then
    some (wordToken (u :: rest.takeWhile isWord), (rest.takeWhile isWord).length + 1)
  else none

/-- The loop of `tokenize`, which visits each code unit and skips those of the token just read. -/
def tokenizeFrom (previous : Option Token) : ℕ → JsString → Except Failure (List Token)
  | _, [] => .ok []
  | skip + 1, _ :: rest => tokenizeFrom previous skip rest
  | 0, u :: rest =>
      if isSpace u then tokenizeFrom previous 0 rest
      else
        match readToken previous u rest with
        | none =>
            .error (workflowError (js "Unexpected character in expression: '" ++ u :: js "'")
              "ValueError")
        | some (token, length) =>
            (tokenizeFrom (some token) (length - 1) rest).map (token :: ·)

def tokenize (expr : JsString) : Except Failure (List Token) := tokenizeFrom none 0 expr

/-! ## Operators -/

inductive BinaryOp
  | or | and | eq | ne | gt | lt | ge | le | add | sub | mul | div | mod
  deriving DecidableEq

/-- A loop over binary operators: `parseOr`, `parseAnd`, `parseComparison`, `parseAddSub` and
`parseMulDiv`. -/
inductive BinaryLevel
  | or | and | comparison | addSub | mulDiv
  deriving DecidableEq

namespace BinaryOp

def text : BinaryOp → JsString
  | .or => "or"
  | .and => "and"
  | .eq => "=="
  | .ne => "!="
  | .gt => ">"
  | .lt => "<"
  | .ge => ">="
  | .le => "<="
  | .add => "+"
  | .sub => "-"
  | .mul => "*"
  | .div => "/"
  | .mod => "%"

def level : BinaryOp → BinaryLevel
  | .or => .or
  | .and => .and
  | .eq | .ne | .gt | .lt | .ge | .le => .comparison
  | .add | .sub => .addSub
  | .mul | .div | .mod => .mulDiv

def all : List BinaryOp := [.or, .and, .eq, .ne, .gt, .lt, .ge, .le, .add, .sub, .mul, .div, .mod]

def token (op : BinaryOp) : Token := ⟨.operator, op.text⟩

end BinaryOp

/-- The operator of a level that a token is. -/
def BinaryLevel.operator (level : BinaryLevel) (token : Option Token) : Option BinaryOp :=
  BinaryOp.all.find? fun op => op.level = level && token = some op.token

section Operators

variable (host : Runtime)

/-- `strictCompare(left, right, '==')`. -/
def strictCompare (left right : Value) : Except Failure Bool :=
  match left, right with
  | .null, .null => .ok true
  | .null, _ | _, .null =>
      .error (workflowError "Cannot compare null with non-null value" "TypeError")
  | left, right =>
      if typeOf left = typeOf right then .ok (strictEquals left right)
      else .error (workflowError (js "Cannot compare " ++ typeOf left ++ js " with " ++ typeOf right)
        "TypeError")

/-- `orderedCompare(left, right, op)`, with the operator on primitive values. -/
def orderedCompare (compare : Value → Value → Bool) (left right : Value) : Except Failure Value := do
  if typeOf left = typeOf right then
    let l ← toPrimitive host left
    let r ← toPrimitive host right
    return .bool (compare l r)
  else throw (workflowError (js "Cannot compare " ++ typeOf left ++ js " with " ++ typeOf right)
    "TypeError")

def isText : Value → Bool
  | .str _ => true
  | _ => false

def plus (left right : Value) : Except Failure Value := do
  if isText left || isText right then
    match left, right with
    | .str s, .str t => return .str (s ++ t)
    | _, _ =>
        throw (workflowError (js "Cannot concatenate " ++ typeOf left ++ js " with " ++ typeOf right ++
          js ". Use string() to convert.") "TypeError")
  else
    let l ← toPrimitive host left
    let r ← toPrimitive host right
    addPrimitives host l r

/-- An operator on numbers. -/
def arithmetic (f : Float → Float → Float) (left right : Value) : Except Failure Value := do
  let l ← toNumber host left
  let r ← toNumber host right
  return .num (f l r)

/-- `/` and `%`. -/
def dividing (f : Float → Float → Float) (left right : Value) : Except Failure Value :=
  if strictEquals right (.num 0) then .error (workflowError "Division by zero" "ZeroDivisionError")
  else arithmetic host f left right

def applyBinary : BinaryOp → Value → Value → Except Failure Value
  | .or, left, right => .ok (.bool (truthy left || truthy right))
  | .and, left, right => .ok (.bool (truthy left && truthy right))
  | .eq, left, right => (strictCompare left right).map .bool
  | .ne, left, right => (strictCompare left right).map fun equal => .bool !equal
  | .gt, left, right => orderedCompare host (fun l r => lessThan r l) left right
  | .lt, left, right => orderedCompare host lessThan left right
  | .ge, left, right => orderedCompare host (fun l r => atMost r l) left right
  | .le, left, right => orderedCompare host atMost left right
  | .add, left, right => plus host left right
  | .sub, left, right => arithmetic host (· - ·) left right
  | .mul, left, right => arithmetic host (· * ·) left right
  | .div, left, right => dividing host (· / ·) left right
  | .mod, left, right => dividing host remainder left right

def applyNot (value : Value) : Value := .bool !truthy value

def applyNegate (value : Value) : Except Failure Value := (toNumber host value).map fun x => .num (-x)

/-- What `in` computes. -/
def applyIn (left right : Value) : Except Failure Value :=
  match elementsOf right with
  | some elements => .ok (.bool (elements.any fun element => sameValueZero element left))
  | none =>
      match right with
      | .map _ _ _ | .objectPrototype =>
          (textOf host left).map fun key => .bool (property right key).isSome
      | _ =>
          .error (workflowError "The \"in\" operator requires a map or list on the right side"
            "TypeError")

/-- `value.name`. -/
def getMember (value : Value) (name : JsString) : Except Failure Value :=
  match value with
  | .null | .undefined =>
      .error (workflowError (js "Cannot access property '" ++ name ++ js "' of null") "ValueError")
  | value =>
      if typeOf value = "object" then
        match property value name with
        | some found => .ok found
        | none => .error (workflowError (js "Key not found: '" ++ name ++ js "'") "KeyError")
      else
        .error (workflowError (js "Cannot access property '" ++ name ++ js "' of " ++ typeOf value)
          "TypeError")

/-- `value[index]`. -/
def getIndex (value index : Value) : Except Failure Value :=
  match elementsOf value with
  | some elements => do
      let position ← toNumber host index
      let text ← textOf host index
      if position < 0 ∨ natNumber elements.length ≤ position then
        throw (workflowError (js "Index " ++ text ++ js " out of range for list of length " ++
          decimal elements.length) "IndexError")
      else return (property value text).getD .undefined
  | none =>
      match value with
      | .map _ _ _ | .objectPrototype => do
          let key ← textOf host index
          match property value key with
          | some found => return found
          | none => throw (workflowError (js "Key not found: '" ++ key ++ js "'") "KeyError")
      | value => .error (workflowError (js "Cannot index into " ++ typeOf value) "TypeError")

end Operators

/-! ## Evaluation -/

/-- The variables of the scope are an object; `stdlib` resolves the calls. -/
structure Env where
  host : Runtime
  scope : Value
  stdlib : JsString → List Value → Except Failure Value

abbrev Parser (α : Type) := FuelParser Token Failure α

def expressionDepthLimit : ℕ := 100

def peek : Parser (Option Token) := fun tokens => .ok tokens.head? tokens

def endOfExpression : Failure := workflowError "Unexpected end of expression" "ValueError"

def advance : Parser Token
  | [] => .fail endOfExpression
  | token :: rest => .ok token rest

/-- `expect(type, value)`. -/
def expect (type : TokenType) (value : JsString) : Parser Token := do
  let t ← advance
  if t.type ≠ type ∨ value ≠ [] ∧ t.value ≠ value then
    throw (workflowError (js "Expected " ++ type.text ++
      (if value = [] then [] else js " '" ++ value ++ js "'") ++ js ", got " ++ t.type.text ++
      js " '" ++ t.value ++ js "'") "ValueError")
  else return t

/-- A computation on values in the midst of parsing. -/
def lift {α : Type} (result : Except Failure α) : Parser α := fun tokens =>
  match result with
  | .ok value => .ok value tokens
  | .error error => .fail error

/-- The value of a number token. -/
def numberValue (text : JsString) : Float := if 46 ∈ text then signedFloat text else parseInt text
where
  /-- `parseFloat(text)`, which may start with a minus sign. -/
  signedFloat : JsString → Float
    | 45 :: text => -(parseFloat text)
    | text => parseFloat text

/-- The identifiers that are literals. -/
def constant (name : JsString) : Option Value :=
  if name = js "true" ∨ name = js "True" ∨ name = js "TRUE" then some (.bool true)
  else if name = js "false" ∨ name = js "False" ∨ name = js "FALSE" then some (.bool false)
  else if name = js "null" then some .null
  else none

def getVariable (env : Env) (name : JsString) : Except Failure Value :=
  match property env.scope name with
  | some value => .ok value
  | none => .error (workflowError (js "Variable not found: '" ++ name ++ js "'") "KeyError")

/-- The name of the function that a method call on a value calls. -/
def methodName (value : Value) (method : JsString) : Except Failure JsString :=
  match value with
  | .str s => .ok (s ++ js "." ++ method)
  | _ =>
      .error (workflowError (js "Cannot call method '" ++ method ++
        js "' on a resolved value — method calls on non-stdlib objects are not supported")
        "TypeError")

/-- After an identifier: a dot, another identifier and an opening parenthesis, with what follows. -/
def namespacedCall : List Token → Option (JsString × List Token)
  | ⟨.dot, _⟩ :: ⟨.identifier, method⟩ :: token :: rest =>
      if token = .lparen then some (method, rest) else none
  | _ => none

/-- Whether a namespaced call follows; if so it is read up to its arguments. -/
def peekNamespaced : Parser (Option JsString) := fun tokens =>
  match namespacedCall tokens with
  | some (method, rest) => .ok (some method) rest
  | none => .ok none tokens

mutual

/-- `parseExpression()`, at a depth. -/
def parseExpression (env : Env) : ℕ → ℕ → Parser Value
  | 0, _ => exhausted
  | n + 1, depth =>
      if expressionDepthLimit < depth + 1 then
        throw (workflowError "Expression nesting depth limit exceeded (max 100)" "RecursionError")
      else parseBinary env n (depth + 1) .or
termination_by structural n => n

/-- `parseOr`, `parseAnd`, `parseComparison`, `parseAddSub` and `parseMulDiv`. -/
def parseBinary (env : Env) : ℕ → ℕ → BinaryLevel → Parser Value
  | 0, _, _ => exhausted
  | n + 1, depth, level => do
      let left ← parseOperand env n depth level
      parseBinaryTail env n depth level left
termination_by structural n => n

/-- An operand of a level. -/
def parseOperand (env : Env) : ℕ → ℕ → BinaryLevel → Parser Value
  | 0, _, _ => exhausted
  | n + 1, depth, .or => parseBinary env n depth .and
  | n + 1, depth, .and => parseNot env n depth
  | n + 1, depth, .comparison => parseBinary env n depth .addSub
  | n + 1, depth, .addSub => parseBinary env n depth .mulDiv
  | n + 1, depth, .mulDiv => parseUnary env n depth
termination_by structural n => n

def parseBinaryTail (env : Env) : ℕ → ℕ → BinaryLevel → Value → Parser Value
  | 0, _, _, _ => exhausted
  | n + 1, depth, level, left => do
      let next ← peek
      match level.operator next with
      | none => return left
      | some op =>
          let _ ← advance
          let right ← parseOperand env n depth level
          let value ← lift (applyBinary env.host op left right)
          parseBinaryTail env n depth level value
termination_by structural n => n

def parseNot (env : Env) : ℕ → ℕ → Parser Value
  | 0, _ => exhausted
  | n + 1, depth => do
      let next ← peek
      if next = some (.op "not") then
        let _ ← advance
        let value ← parseNot env n depth
        return applyNot value
      else parseIn env n depth
termination_by structural n => n

def parseIn (env : Env) : ℕ → ℕ → Parser Value
  | 0, _ => exhausted
  | n + 1, depth => do
      let left ← parseBinary env n depth .comparison
      let next ← peek
      if next = some (.op "in") then
        let _ ← advance
        let right ← parseBinary env n depth .comparison
        lift (applyIn env.host left right)
      else return left
termination_by structural n => n

def parseUnary (env : Env) : ℕ → ℕ → Parser Value
  | 0, _ => exhausted
  | n + 1, depth => do
      let next ← peek
      if next = some (.op "-") then
        let _ ← advance
        let value ← parseUnary env n depth
        lift (applyNegate env.host value)
      else parsePostfix env n depth
termination_by structural n => n

def parsePostfix (env : Env) : ℕ → ℕ → Parser Value
  | 0, _ => exhausted
  | n + 1, depth => do
      let value ← parsePrimary env n depth
      parsePostfixTail env n depth value
termination_by structural n => n

def parsePostfixTail (env : Env) : ℕ → ℕ → Value → Parser Value
  | 0, _, _ => exhausted
  | n + 1, depth, value => do
      let next ← peek
      if (next.map Token.type) = some .dot then
        let _ ← advance
        let ident ← expect .identifier []
        let after ← peek
        if after = some .lparen then
          let function ← lift (methodName value ident.value)
          let _ ← advance
          let args ← parseArgList env n depth
          let _ ← expect .paren [41]
          let result ← lift (env.stdlib function args)
          parsePostfixTail env n depth result
        else
          let found ← lift (getMember value ident.value)
          parsePostfixTail env n depth found
      else if next = some .lbracket then
        let _ ← advance
        let index ← parseExpression env n depth
        let _ ← expect .bracket [93]
        let found ← lift (getIndex env.host value index)
        parsePostfixTail env n depth found
      else return value
termination_by structural n => n

def parsePrimary (env : Env) : ℕ → ℕ → Parser Value
  | 0, _ => exhausted
  | n + 1, depth => do
      match ← peek with
      | none => throw endOfExpression
      | some ⟨.number, text⟩ => let _ ← advance; return .num (numberValue text)
      | some ⟨.string, text⟩ => let _ ← advance; return .str text
      | some ⟨.identifier, name⟩ =>
          let _ ← advance
          parseIdentifier env n depth name
      | some token =>
          if token = .lparen then
            let _ ← advance
            let value ← parseExpression env n depth
            let _ ← expect .paren [41]
            return value
          else if token = .lbracket then
            let _ ← advance
            let items ← parseItems env n depth .rbracket
            let _ ← expect .bracket [93]
            return .list none items
          else
            throw (workflowError (js "Unexpected token: " ++ token.type.text ++ js " '" ++
              token.value ++ js "'") "ValueError")
termination_by structural n => n

/-- The part of `parsePrimary` about identifiers. -/
def parseIdentifier (env : Env) : ℕ → ℕ → JsString → Parser Value
  | 0, _, _ => exhausted
  | n + 1, depth, name =>
      match constant name with
      | some value => return value
      | none => do
          let next ← peek
          if next = some .lparen then
            let _ ← advance
            let args ← parseArgList env n depth
            let _ ← expect .paren [41]
            lift (env.stdlib name args)
          else
            match ← peekNamespaced with
            | some method =>
                let args ← parseArgList env n depth
                let _ ← expect .paren [41]
                lift (env.stdlib (name ++ js "." ++ method) args)
            | none => lift (getVariable env name)
termination_by structural n => n

/-- Expressions between commas, up to the closing token, which is left. -/
def parseItems (env : Env) : ℕ → ℕ → Token → Parser (List Value)
  | 0, _, _ => exhausted
  | n + 1, depth, close => do
      let next ← peek
      if next = some close then return []
      else
        let first ← parseExpression env n depth
        let rest ← parseMore env n depth
        return first :: rest
termination_by structural n => n

/-- `parseArgList()`. -/
def parseArgList (env : Env) : ℕ → ℕ → Parser (List Value)
  | 0, _ => exhausted
  | n + 1, depth => parseItems env n depth .rparen
termination_by structural n => n

/-- The expressions behind commas. -/
def parseMore (env : Env) : ℕ → ℕ → Parser (List Value)
  | 0, _ => exhausted
  | n + 1, depth => do
      let next ← peek
      if (next.map Token.type) = some .comma then
        let _ ← advance
        let value ← parseExpression env n depth
        let rest ← parseMore env n depth
        return value :: rest
      else return []
termination_by structural n => n

end

/-- `evaluateExpression(expr, scope, stdlib)`. -/
def evaluateExpression (env : Env) (expr : JsString) : Except Failure Value := do
  let tokens ← tokenize expr
  match parseExpression env (20 * tokens.length + 20) 0 tokens with
  | .ok value [] => return value
  | .ok _ (token :: _) => throw (workflowError (js "Unexpected token: " ++ token.value) "ValueError")
  | .fail error => throw error
  | .outOfFuel => throw (.thrown [] [])

end Kinglet.Workflows
