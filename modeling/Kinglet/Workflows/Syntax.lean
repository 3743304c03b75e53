import Kinglet.Workflows.Expressions

/-!
# The syntax of workflow expressions

The trees of the grammar, what they mean by recursion on the tree, and how they are printed. A
`Containment` says where the operator `in` stands among the ranks of the others: a printer that wraps
an operand exactly when its rank is too low takes it as a parameter.
-/

namespace Kinglet.Workflows

open Js

/-! ## Words -/

/-- `/^[a-zA-Z_][a-zA-Z0-9_]*$/`, and not an operator. -/
def isIdentifier (word : JsString) : Bool :=
  word.head?.any isIdentStart && word.all isWord && !isOperatorWord word

/-- `/^[0-9][0-9.]*$/`. -/
def isNumeral (text : JsString) : Bool := text.head?.any isDigit && text.all isNumberPart

structure Identifier where
  text : JsString
  valid : isIdentifier text

/-- An identifier that is not a literal. -/
structure Name extends Identifier where
  notConstant : constant text = none

/-- A literal that is spelled as an identifier, with its value. -/
structure Constant where
  word : JsString
  value : Value
  spelled : constant word = some value

structure Numeral where
  text : JsString
  valid : isNumeral text

/-! ## Trees -/

inductive Expr
  | number (numeral : Numeral)
  | string (text : JsString)
  | constant (literal : Constant)
  | variable (name : Name)
  | paren (e : Expr)
  | list (items : List Expr)
  | call (function : Name) (args : List Expr)
  | method (object : Expr) (name : Identifier) (args : List Expr)
  | member (object : Expr) (name : Identifier)
  | index (object key : Expr)
  | negate (e : Expr)
  | not (e : Expr)
  | contains (e container : Expr)
  | binary (op : BinaryOp) (left right : Expr)

namespace Expr

/-- The module that a method call on a bare name calls. -/
def moduleName : Expr → Option JsString
  | .variable name => some name.text
  | _ => none

mutual

/-- The meaning of a tree: operands from left to right, all of them, and the first error wins. -/
def eval (env : Env) : Expr → Except Failure Value
  | .number numeral => .ok (.num (numberValue numeral.text))
  | .string text => .ok (.str text)
  | .constant literal => .ok literal.value
  | .variable name => getVariable env name.text
  | .paren e => e.eval env
  | .list items => do
      let values ← evalAll env items
      return .list none values
  | .call function args => do
      let values ← evalAll env args
      env.stdlib function.text values
  | .method object name args =>
      match object.moduleName with
      | some module => do
          let values ← evalAll env args
          env.stdlib (module ++ js "." ++ name.text) values
      | none => do
          let value ← object.eval env
          let function ← methodName value name.text
          let values ← evalAll env args
          env.stdlib function values
  | .member object name => do
      let value ← object.eval env
      getMember value name.text
  | .index object key => do
      let value ← object.eval env
      let position ← key.eval env
      getIndex env.host value position
  | .negate e => do
      let value ← e.eval env
      applyNegate env.host value
  | .not e => do
      let value ← e.eval env
      return applyNot value
  | .contains e container => do
      let left ← e.eval env
      let right ← container.eval env
      applyIn env.host left right
  | .binary op left right => do
      let l ← left.eval env
      let r ← right.eval env
      applyBinary env.host op l r

def evalAll (env : Env) : List Expr → Except Failure (List Value)
  | [] => .ok []
  | e :: es => do
      let value ← e.eval env
      let values ← evalAll env es
      return value :: values

end

/-! ## Tokens of a tree -/

mutual

/-- The tokens of a tree, with no parentheses but those of its nodes. -/
def tokens : Expr → List Token
  | .number numeral => [⟨.number, numeral.text⟩]
  | .string text => [⟨.string, text⟩]
  | .constant literal => [⟨.identifier, literal.word⟩]
  | .variable name => [⟨.identifier, name.text⟩]
  | .paren e => .lparen :: (e.tokens ++ [.rparen])
  | .list items => .lbracket :: (itemTokens items ++ [.rbracket])
  | .call function args =>
      ⟨.identifier, function.text⟩ :: .lparen :: (itemTokens args ++ [.rparen])
  | .method object name args =>
      object.tokens ++ .dot :: ⟨.identifier, name.text⟩ :: .lparen :: (itemTokens args ++ [.rparen])
  | .member object name => object.tokens ++ [.dot, ⟨.identifier, name.text⟩]
  | .index object key => object.tokens ++ .lbracket :: (key.tokens ++ [.rbracket])
  | .negate e => .op "-" :: e.tokens
  | .not e => .op "not" :: e.tokens
  | .contains e container => e.tokens ++ .op "in" :: container.tokens
  | .binary op left right => left.tokens ++ op.token :: right.tokens

/-- Expressions with commas between them. -/
def itemTokens : List Expr → List Token
  | [] => []
  | e :: es => e.tokens ++ moreTokens es

def moreTokens : List Expr → List Token
  | [] => []
  | e :: es => .comma :: (e.tokens ++ moreTokens es)

end

mutual

/-- How deep the expressions within parentheses, brackets and arguments are nested. -/
def nesting : Expr → ℕ
  | .number _ | .string _ | .constant _ | .variable _ => 0
  | .paren e => e.nesting + 1
  | .list items => itemNesting items
  | .call _ args => itemNesting args
  | .method object _ args => max object.nesting (itemNesting args)
  | .member object _ => object.nesting
  | .index object key => max object.nesting (key.nesting + 1)
  | .negate e => e.nesting
  | .not e => e.nesting
  | .contains e container => max e.nesting container.nesting
  | .binary _ left right => max left.nesting right.nesting

def itemNesting : List Expr → ℕ
  | [] => 0
  | e :: es => max (e.nesting + 1) (itemNesting es)

end

end Expr

/-! ## Precedence -/

/-- The ranks of the binary operators; `not` has rank 2, unary minus 7, all else 8. -/
def BinaryLevel.rank : BinaryLevel → ℕ
  | .or => 0
  | .and => 1
  | .comparison => 4
  | .addSub => 5
  | .mulDiv => 6

/-- The rank of `in`, and the least ranks of its operands. -/
structure Containment where
  rank : ℕ
  left : ℕ
  right : ℕ

/-- Among the comparisons, which associate to the left. -/
def amongComparisons : Containment := ⟨4, 4, 5⟩

/-- Below the comparisons, which both operands may be. -/
def belowComparisons : Containment := ⟨3, 4, 4⟩

namespace Expr

variable (place : Containment)

def rank : Expr → ℕ
  | .not _ => 2
  | .negate _ => 7
  | .contains _ _ => place.rank
  | .binary op _ _ => op.level.rank
  | _ => 8

/-- An operand, in parentheses if its rank is below the least. -/
def wrapped (least : ℕ) (e : Expr) : Expr := if e.rank place < least then .paren e else e

mutual

/-- The tree with the parentheses it needs. -/
def parenthesized : Expr → Expr
  | .paren e => .paren e.parenthesized
  | .list items => .list (allParenthesized items)
  | .call function args => .call function (allParenthesized args)
  | .method object name args =>
      .method (wrapped place 8 object.parenthesized) name (allParenthesized args)
  | .member object name => .member (wrapped place 8 object.parenthesized) name
  | .index object key => .index (wrapped place 8 object.parenthesized) key.parenthesized
  | .negate e => .negate (wrapped place 7 e.parenthesized)
  | .not e => .not (wrapped place 2 e.parenthesized)
  | .contains e container =>
      .contains (wrapped place place.left e.parenthesized)
        (wrapped place place.right container.parenthesized)
  | .binary op left right =>
      .binary op (wrapped place op.level.rank left.parenthesized)
        (wrapped place (op.level.rank + 1) right.parenthesized)
  | e => e

def allParenthesized : List Expr → List Expr
  | [] => []
  | e :: es => e.parenthesized :: allParenthesized es

end

end Expr

/-! ## Text -/

/-- The body of a string literal. -/
def escape (text : JsString) : JsString :=
  text.flatMap fun u => if u = unit '"' ∨ u = unit '\\' then [unit '\\', u] else [u]

def Token.text (token : Token) : JsString :=
  match token.type with
  | .string => unit '"' :: (escape token.value ++ [unit '"'])
  | _ => token.value

/-- Tokens with a space between them. -/
def spell : List Token → JsString
  | [] => []
  | [token] => token.text
  | token :: tokens => token.text ++ 32 :: spell tokens

/-- The text of a tree with the parentheses it needs where `in` stands at this place. -/
def Expr.print (place : Containment) (e : Expr) : JsString := spell (e.parenthesized place).tokens

end Kinglet.Workflows
