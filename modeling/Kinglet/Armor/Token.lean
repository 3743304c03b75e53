import Kinglet.Js.Text

/-!
# Tokens of the custom rules language

`tokenize` walks the source once. The loop of the source moves its index past each token it reads;
here the walk visits every code unit and skips those of the token just read.
-/

namespace Kinglet.Armor

open Js

inductive TokKind where
  | ident | number | string | true | false | in
  | eq | ne | le | ge | lt | gt
  | and | or | not | plus | minus
  | dot | comma | colon
  | lparen | rparen | lbrack | rbrack | lbrace | rbrace
  | eof
deriving DecidableEq, Repr

/-- The kind as error messages spell it. -/
def TokKind.text : TokKind → JsString
  | .ident => "ident" | .number => "number" | .string => "string"
  | .true => "true" | .false => "false" | .in => "in"
  | .eq => "eq" | .ne => "ne" | .le => "le" | .ge => "ge" | .lt => "lt" | .gt => "gt"
  | .and => "and" | .or => "or" | .not => "not" | .plus => "plus" | .minus => "minus"
  | .dot => "dot" | .comma => "comma" | .colon => "colon"
  | .lparen => "lparen" | .rparen => "rparen" | .lbrack => "lbrack" | .rbrack => "rbrack"
  | .lbrace => "lbrace" | .rbrace => "rbrace" | .eof => "eof"

/-- A stretch of the source, `start` included and `stop` not. -/
structure Span where
  start : ℕ
  stop : ℕ
deriving DecidableEq, Repr

structure Token where
  kind : TokKind
  value : JsString
  span : Span
deriving DecidableEq, Repr

/-- The `peek` of a parser past its last token. -/
def endToken : Token := ⟨.eof, [], ⟨0, 0⟩⟩

/-! ## Reading one token -/

/-- The code unit an escape stands for. -/
def escape (u : UInt16) : UInt16 :=
  if u = unit 'n' then 10 else if u = unit 't' then 9 else u

/-- The value of a string literal and its length, both from after the opening quote; `none` when it
is not terminated. -/
def readString (quote : UInt16) : JsString → Option (JsString × ℕ)
  | [] => none
  | [u] => if u = quote then some ([], 1) else none
  | u :: e :: rest =>
      if u = quote then some ([], 1)
      else if u = unit '\\' then
        (readString quote rest).map fun (value, length) => (escape e :: value, length + 2)
      else (readString quote (e :: rest)).map fun (value, length) => (u :: value, length + 1)

/-- A raw string literal: no escapes. -/
def readRawString (quote : UInt16) (rest : JsString) : Option (JsString × ℕ) :=
  match cut quote rest with
  | (value, some _) => some (value, value.length + 1)
  | (_, none) => none

def isQuote (u : UInt16) : Bool := u = unit '"' || u = unit '\''

/-- The operators, those of two code units first. -/
def operators : List (JsString × TokKind) :=
  [("&&", .and), ("||", .or), ("==", .eq), ("!=", .ne), ("<=", .le), (">=", .ge), ("!", .not),
    ("<", .lt), (">", .gt), ("+", .plus), ("-", .minus), (".", .dot), (",", .comma), (":", .colon),
    ("(", .lparen), (")", .rparen), ("[", .lbrack), ("]", .rbrack), ("\x7b", .lbrace),
    ("\x7d", .rbrace)]

def wordKind (value : JsString) : TokKind :=
  if value = "true" then .true
  else if value = "false" then .false
  else if value = "in" then .in
  else .ident

/-- What one round of the loop does at a position: nothing of `n` code units, a token, or an
error. -/
inductive Scan where
  | skip (length : ℕ)
  | token (kind : TokKind) (value : JsString) (length : ℕ)
  | error (message : JsString)

/-- One round of the loop, at the code unit `u` followed by `rest`. -/
def scan (u : UInt16) (rest : JsString) : Scan :=
  if isSpace u then .skip 1
  else if startsWith (u :: rest) "//" then .skip ((u :: rest).takeWhile (· ≠ 10)).length
  else if (u = unit 'R' || u = unit 'r') && rest.head?.any isQuote then
    match readRawString (rest.headD 0) rest.tail with
    | some (value, length) => .token .string value (length + 2)
    | none => .error "Unterminated raw string literal"
  else if isQuote u then
    match readString u rest with
    | some (value, length) => .token .string value (length + 1)
    | none => .error "Unterminated string literal"
  else
    match operators.find? fun op => startsWith (u :: rest) op.1 with
    | some (text, kind) => .token kind text text.length
    | none =>
        if isDigit u then
          let value := (u :: rest).takeWhile fun v => isDigit v || v = unit '.'
          .token .number value value.length
        else if isIdentStart u then
          let value := (u :: rest).takeWhile isWord
          .token (wordKind value) value value.length
        else .error (js "Unexpected character '" ++ u :: js "' in expression")

/-! ## The walk -/

/-- The tokens from position `i` on, after `skipped` more code units. -/
def tokenizeFrom (skipped i : ℕ) : JsString → Except JsString (List Token)
  | [] => .ok [⟨.eof, [], ⟨i, i⟩⟩]
  | u :: rest =>
      if 0 < skipped then tokenizeFrom (skipped - 1) (i + 1) rest
      else
        match scan u rest with
        | .skip length => tokenizeFrom (length - 1) (i + 1) rest
        | .token kind value length => do
            let tokens ← tokenizeFrom (length - 1) (i + 1) rest
            return ⟨kind, value, ⟨i, i + length⟩⟩ :: tokens
        | .error message => .error message

/-- `tokenize(source)`: the tokens, or the message of the error thrown. -/
def tokenize (source : JsString) : Except JsString (List Token) := tokenizeFrom 0 0 source

example : (tokenize "a.b('x\\'y') >= 1.5").map (·.map Token.value) =
    .ok (["a", ".", "b", "(", "x'y", ")", ">=", "1.5", ""].map js) := by decide

end Kinglet.Armor
