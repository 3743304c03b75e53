import Kinglet.Armor.Token
import Kinglet.Js.Number
import Kinglet.Library.FuelParser

/-!
# Parsing the custom rules language

The recursive-descent parser of the source, one function for each of its methods; a loop of the
source is a tail function of its own. `parseTokens_ne_outOfFuel` says that the fuel given to
the parser suffices, so its errors are exactly those of the source.
-/

namespace Kinglet.Armor

open Js Library Library.FuelParser

inductive Literal where
  | str (s : JsString)
  | num (x : Float)
  | bool (b : Bool)

inductive UnaryOp where
  | not
  | minus
deriving DecidableEq

inductive BinaryOp where
  | or | and | plus | eq | ne | lt | gt | le | ge
deriving DecidableEq

inductive Ast where
  | lit (value : Literal) (span : Span)
  | ident (name : JsString) (span : Span)
  | member (object : Ast) (name : JsString) (span : Span)
  | index (object key : Ast) (span : Span)
  | call (callee : Ast) (args : List Ast) (span : Span)
  | unary (op : UnaryOp) (arg : Ast) (span : Span)
  | binary (op : BinaryOp) (left right : Ast) (span : Span)
  | list (elements : List Ast) (span : Span)
  | map (entries : List (Ast × Ast)) (span : Span)

namespace Ast

def span : Ast → Span
  | .lit _ s | .ident _ s | .member _ _ s | .index _ _ s | .call _ _ s | .unary _ _ s
  | .binary _ _ _ s | .list _ s | .map _ s => s

/-- `{ ...node, start, end }`. -/
def withSpan (s : Span) : Ast → Ast
  | .lit value _ => .lit value s
  | .ident name _ => .ident name s
  | .member object name _ => .member object name s
  | .index object key _ => .index object key s
  | .call callee args _ => .call callee args s
  | .unary op arg _ => .unary op arg s
  | .binary op left right _ => .binary op left right s
  | .list elements _ => .list elements s
  | .map entries _ => .map entries s

/-- From the start of one node to the end of another. -/
def spanTo (left right : Ast) : Span := ⟨left.span.start, right.span.stop⟩

end Ast

/-! ## Tokens -/

abbrev Parser (α : Type) := FuelParser Token JsString α

def peekToken (tokens : List Token) : Token := tokens.headD endToken

def peek : Parser Token := fun tokens => .ok (peekToken tokens) tokens

/-- The next token, which is taken off unless it is the last. -/
def advance : Parser Token := fun tokens =>
  let tok := peekToken tokens
  .ok tok (if tok.kind = .eof then tokens else tokens.tail)

def expect (kind : TokKind) : Parser Token := do
  let tok ← peek
  if tok.kind = kind then advance
  else throw (js "Expected " ++ kind.text ++ js " but found '" ++ tok.value ++ js "'")

def expectEof : Parser Unit := do
  let tok ← peek
  if tok.kind = .eof then return ()
  else throw (js "Unexpected token '" ++ tok.value ++ js "'")

def comparisonOp : TokKind → Option BinaryOp
  | .eq => some .eq
  | .ne => some .ne
  | .lt => some .lt
  | .gt => some .gt
  | .le => some .le
  | .ge => some .ge
  | _ => none

/-- The value of a number token. -/
def numberValue (text : JsString) : Float :=
  if unit '.' ∈ text then parseFloat text else parseDigits text

/-! ## The grammar -/

mutual

def parseOr : ℕ → Parser Ast
  | 0 => exhausted
  | n + 1 => do
      let left ← parseAnd n
      parseOrTail n left

def parseOrTail : ℕ → Ast → Parser Ast
  | 0, _ => exhausted
  | n + 1, left => do
      let tok ← peek
      if tok.kind = .or then
        let _ ← advance
        let right ← parseAnd n
        parseOrTail n (.binary .or left right (left.spanTo right))
      else return left

def parseAnd : ℕ → Parser Ast
  | 0 => exhausted
  | n + 1 => do
      let left ← parseComparison n
      parseAndTail n left

def parseAndTail : ℕ → Ast → Parser Ast
  | 0, _ => exhausted
  | n + 1, left => do
      let tok ← peek
      if tok.kind = .and then
        let _ ← advance
        let right ← parseComparison n
        parseAndTail n (.binary .and left right (left.spanTo right))
      else return left

def parseComparison : ℕ → Parser Ast
  | 0 => exhausted
  | n + 1 => do
      let left ← parseAdd n
      let tok ← peek
      if tok.kind = .in then throw "undeclared reference to '@in'"
      else
        match comparisonOp tok.kind with
        | none => return left
        | some op =>
            let _ ← advance
            let right ← parseAdd n
            return .binary op left right (left.spanTo right)

def parseAdd : ℕ → Parser Ast
  | 0 => exhausted
  | n + 1 => do
      let left ← parseUnary n
      parseAddTail n left

def parseAddTail : ℕ → Ast → Parser Ast
  | 0, _ => exhausted
  | n + 1, left => do
      let tok ← peek
      if tok.kind = .plus then
        let _ ← advance
        let right ← parseUnary n
        parseAddTail n (.binary .plus left right (left.spanTo right))
      else return left

def parseUnary : ℕ → Parser Ast
  | 0 => exhausted
  | n + 1 => do
      let tok ← peek
      if tok.kind = .not then
        let _ ← advance
        let arg ← parseUnary n
        return .unary .not arg ⟨tok.span.start, arg.span.stop⟩
      else if tok.kind = .minus then
        let _ ← advance
        let arg ← parseUnary n
        return .unary .minus arg ⟨tok.span.start, arg.span.stop⟩
      else parsePostfix n

def parsePostfix : ℕ → Parser Ast
  | 0 => exhausted
  | n + 1 => do
      let expr ← parsePrimary n
      parsePostfixTail n expr

def parsePostfixTail : ℕ → Ast → Parser Ast
  | 0, _ => exhausted
  | n + 1, expr => do
      let tok ← peek
      if tok.kind = .dot then
        let _ ← advance
        let nameTok ← expect .ident
        parsePostfixTail n (.member expr nameTok.value ⟨expr.span.start, nameTok.span.stop⟩)
      else if tok.kind = .lbrack then
        let _ ← advance
        let key ← parseOr n
        let close ← expect .rbrack
        parsePostfixTail n (.index expr key ⟨expr.span.start, close.span.stop⟩)
      else if tok.kind = .lparen then
        let (args, stop) ← parseArgList n
        parsePostfixTail n (.call expr args ⟨expr.span.start, stop⟩)
      else return expr

def parsePrimary : ℕ → Parser Ast
  | 0 => exhausted
  | n + 1 => do
      let tok ← peek
      match tok.kind with
      | .true => let _ ← advance; return .lit (.bool true) tok.span
      | .false => let _ ← advance; return .lit (.bool false) tok.span
      | .string => let _ ← advance; return .lit (.str tok.value) tok.span
      | .number => let _ ← advance; return .lit (.num (numberValue tok.value)) tok.span
      | .ident => let _ ← advance; return .ident tok.value tok.span
      | .lparen =>
          let _ ← advance
          let inner ← parseOr n
          let close ← expect .rparen
          return inner.withSpan ⟨tok.span.start, close.span.stop⟩
      | .lbrack => parseList n
      | .lbrace => parseMap n
      | _ => throw (js "Unexpected token '" ++ tok.value ++ js "'")

/-- The arguments and where the closing parenthesis ends. -/
def parseArgList : ℕ → Parser (List Ast × ℕ)
  | 0 => exhausted
  | n + 1 => do
      let _ ← expect .lparen
      let tok ← peek
      if tok.kind = .rparen then
        let close ← advance
        return ([], close.span.stop)
      else
        let first ← parseOr n
        let rest ← parseMore n
        let close ← expect .rparen
        return (first :: rest, close.span.stop)

def parseList : ℕ → Parser Ast
  | 0 => exhausted
  | n + 1 => do
      let opening ← expect .lbrack
      let tok ← peek
      if tok.kind = .rbrack then
        let close ← expect .rbrack
        return .list [] ⟨opening.span.start, close.span.stop⟩
      else
        let first ← parseOr n
        let rest ← parseMore n
        let close ← expect .rbrack
        return .list (first :: rest) ⟨opening.span.start, close.span.stop⟩

/-- The expressions after the first of an argument list or a list, each behind a comma. -/
def parseMore : ℕ → Parser (List Ast)
  | 0 => exhausted
  | n + 1 => do
      let tok ← peek
      if tok.kind = .comma then
        let _ ← advance
        let expr ← parseOr n
        let rest ← parseMore n
        return expr :: rest
      else return []

def parseMap : ℕ → Parser Ast
  | 0 => exhausted
  | n + 1 => do
      let opening ← expect .lbrace
      let tok ← peek
      if tok.kind = .rbrace then
        let close ← expect .rbrace
        return .map [] ⟨opening.span.start, close.span.stop⟩
      else
        let first ← parseMapEntry n
        let rest ← parseMoreEntries n
        let close ← expect .rbrace
        return .map (first :: rest) ⟨opening.span.start, close.span.stop⟩

def parseMoreEntries : ℕ → Parser (List (Ast × Ast))
  | 0 => exhausted
  | n + 1 => do
      let tok ← peek
      if tok.kind = .comma then
        let _ ← advance
        let entry ← parseMapEntry n
        let rest ← parseMoreEntries n
        return entry :: rest
      else return []

def parseMapEntry : ℕ → Parser (Ast × Ast)
  | 0 => exhausted
  | n + 1 => do
      let key ← parseMapKey n
      let _ ← expect .colon
      let value ← parseOr n
      return (key, value)

/-- A bare name before the colon is a string literal. -/
def parseMapKey : ℕ → Parser Ast
  | 0 => exhausted
  | n + 1 => do
      let tok ← peek
      if tok.kind = .ident || tok.kind = .string then
        let _ ← advance
        return .lit (.str tok.value) tok.span
      else parseOr n

end

/-- `Parser(tokens).parseOr()` and `expectEof()`. -/
def parseTokens (tokens : List Token) : ParseResult Token JsString Ast :=
  (do
    let ast ← parseOr (20 * tokens.length + 16)
    expectEof
    return ast : Parser Ast) tokens

/-- `parseExpressionAst(expression)`: the tree, or the message of the error thrown. -/
def parseExpressionAst (expression : JsString) : Except JsString Ast :=
  match tokenize expression with
  | .error message => .error message
  | .ok tokens =>
      match parseTokens tokens with
      | .ok ast _ => .ok ast
      | .fail message => .error message
      | .outOfFuel => .error []

/-! ## The fuel suffices -/

theorem peekToken_kind_length {tokens : List Token} (hkind : (peekToken tokens).kind ≠ .eof) :
    tokens.tail.length + 1 = tokens.length := by
  cases tokens with
  | nil => exact absurd rfl hkind
  | cons tok tokens => rfl

/-- What follows a look at the next token may depend on it. -/
theorem safe_peek {α : Type} {next : Token → Parser α} {tokens : List Token} {m : ℕ}
    (hnext : Safe (next (peekToken tokens)) tokens m) : Safe (peek >>= next) tokens m :=
  hnext

theorem safe_advance {tokens : List Token} (hkind : (peekToken tokens).kind ≠ .eof) :
    Safe advance tokens 1 := by
  have hlength := peekToken_kind_length hkind
  simp only [Safe, advance, if_neg hkind]
  omega

theorem safe_expect {kind : TokKind} (hkind : kind ≠ .eof) (tokens : List Token) :
    Safe (expect kind) tokens 1 := by
  apply safe_peek
  by_cases h : (peekToken tokens).kind = kind
  · rw [if_pos h]
    exact safe_advance (h ▸ hkind)
  · rw [if_neg h]
    exact safe_throw _ _ _

/-- With fuel `n` every function of the grammar is safe on inputs short enough for it: twenty units
for each token, and for the first one as many as functions it may pass through. -/
structure Enough (n : ℕ) : Prop where
  or : ∀ ts : List Token, 20 * ts.length + 15 ≤ n → Safe (parseOr n) ts 1
  orTail : ∀ left (ts : List Token), 20 * ts.length + 1 ≤ n → Safe (parseOrTail n left) ts 0
  and : ∀ ts : List Token, 20 * ts.length + 13 ≤ n → Safe (parseAnd n) ts 1
  andTail : ∀ left (ts : List Token), 20 * ts.length + 1 ≤ n → Safe (parseAndTail n left) ts 0
  comparison : ∀ ts : List Token, 20 * ts.length + 11 ≤ n → Safe (parseComparison n) ts 1
  add : ∀ ts : List Token, 20 * ts.length + 9 ≤ n → Safe (parseAdd n) ts 1
  addTail : ∀ left (ts : List Token), 20 * ts.length + 1 ≤ n → Safe (parseAddTail n left) ts 0
  unary : ∀ ts : List Token, 20 * ts.length + 7 ≤ n → Safe (parseUnary n) ts 1
  access : ∀ ts : List Token, 20 * ts.length + 5 ≤ n → Safe (parsePostfix n) ts 1
  accessTail : ∀ expr (ts : List Token), 20 * ts.length + 2 ≤ n →
    Safe (parsePostfixTail n expr) ts 0
  primary : ∀ ts : List Token, 20 * ts.length + 3 ≤ n → Safe (parsePrimary n) ts 1
  argList : ∀ ts : List Token, 20 * ts.length + 1 ≤ n → Safe (parseArgList n) ts 1
  list : ∀ ts : List Token, 20 * ts.length + 1 ≤ n → Safe (parseList n) ts 1
  more : ∀ ts : List Token, 20 * ts.length + 1 ≤ n → Safe (parseMore n) ts 0
  map : ∀ ts : List Token, 20 * ts.length + 1 ≤ n → Safe (parseMap n) ts 1
  moreEntries : ∀ ts : List Token, 20 * ts.length + 1 ≤ n → Safe (parseMoreEntries n) ts 0
  mapEntry : ∀ ts : List Token, 20 * ts.length + 17 ≤ n → Safe (parseMapEntry n) ts 1
  mapKey : ∀ ts : List Token, 20 * ts.length + 16 ≤ n → Safe (parseMapKey n) ts 1

/-- A loop of left-associative operators: look for the operator, take it, read an operand. -/
private theorem safe_loop {α : Type} {kind : TokKind} (hkind : kind ≠ .eof) {operand : Parser Ast}
    {next : Ast → Parser α} {left : α} {ts : List Token}
    (hoperand : ∀ rest : List Token, rest.length + 1 ≤ ts.length → Safe operand rest 1)
    (hnext : ∀ right (rest : List Token), rest.length + 1 ≤ ts.length →
      Safe (next right) rest 0) :
    Safe (do
      let tok ← peek
      if tok.kind = kind then
        let _ ← advance
        let right ← operand
        next right
      else return left) ts 0 := by
  apply safe_peek
  by_cases h : (peekToken ts).kind = kind
  · rw [if_pos h]
    refine ((safe_advance (h ▸ hkind)).andThen fun _ rest hrest => ?_).mono (Nat.zero_le 1)
    refine ((hoperand rest hrest).andThen fun right rest' hrest' => ?_).mono (Nat.zero_le 1)
    exact hnext right rest' (by omega)
  · rw [if_neg h]
    exact safe_pure _ _

/-- Take a token, and the rest takes what it likes. -/
private theorem safe_take {α : Type} {next : Token → Parser α} {ts : List Token}
    (hkind : (peekToken ts).kind ≠ .eof)
    (hnext : ∀ tok (rest : List Token), rest.length + 1 ≤ ts.length → Safe (next tok) rest 0) :
    Safe (advance >>= next) ts 1 :=
  (safe_advance hkind).andThen hnext

/-- Read a closing token and return. -/
private theorem safe_close {α : Type} {kind : TokKind} (hkind : kind ≠ .eof) (value : Token → α)
    (ts : List Token) : Safe (do let close ← expect kind; return value close) ts 0 :=
  ((safe_expect hkind ts).andThen fun _ _ _ => safe_pure _ _).mono (Nat.zero_le 1)

section Step

variable {n : ℕ} (h : Enough n)

include h

private theorem safe_unary (ts : List Token) (hfuel : 20 * ts.length + 7 ≤ n + 1) :
    Safe (parseUnary (n + 1)) ts 1 := by
  rw [parseUnary]
  apply safe_peek
  by_cases hnot : (peekToken ts).kind = .not
  · rw [if_pos hnot]
    refine safe_take (by rw [hnot]; decide) fun _ rest hrest => ?_
    exact ((h.unary rest (by omega)).andThen fun _ _ _ => safe_pure _ _).mono (Nat.zero_le 1)
  rw [if_neg hnot]
  by_cases hminus : (peekToken ts).kind = .minus
  · rw [if_pos hminus]
    refine safe_take (by rw [hminus]; decide) fun _ rest hrest => ?_
    exact ((h.unary rest (by omega)).andThen fun _ _ _ => safe_pure _ _).mono (Nat.zero_le 1)
  · rw [if_neg hminus]
    exact h.access ts (by omega)

private theorem safe_comparison (ts : List Token) (hfuel : 20 * ts.length + 11 ≤ n + 1) :
    Safe (parseComparison (n + 1)) ts 1 := by
  rw [parseComparison]
  refine (h.add ts (by omega)).andThen fun left rest hrest => ?_
  apply safe_peek
  by_cases hin : (peekToken rest).kind = .in
  · rw [if_pos hin]
    exact safe_throw _ _ _
  rw [if_neg hin]
  cases hop : comparisonOp (peekToken rest).kind with
  | none => exact safe_pure _ _
  | some op =>
      have hkind : (peekToken rest).kind ≠ .eof := fun heof => by
        rw [heof] at hop
        cases hop
      refine (safe_take hkind fun _ rest' hrest' => ?_).mono (Nat.zero_le 1)
      exact ((h.add rest' (by omega)).andThen fun _ _ _ => safe_pure _ _).mono (Nat.zero_le 1)

private theorem safe_accessTail (expr : Ast) (ts : List Token)
    (hfuel : 20 * ts.length + 2 ≤ n + 1) : Safe (parsePostfixTail (n + 1) expr) ts 0 := by
  rw [parsePostfixTail]
  apply safe_peek
  by_cases hdot : (peekToken ts).kind = .dot
  · rw [if_pos hdot]
    refine (safe_take (by rw [hdot]; decide) fun _ rest hrest => ?_).mono (Nat.zero_le 1)
    refine ((safe_expect (by decide) rest).andThen fun name rest' hrest' => ?_).mono
      (Nat.zero_le 1)
    exact h.accessTail _ rest' (by omega)
  rw [if_neg hdot]
  by_cases hbrack : (peekToken ts).kind = .lbrack
  · rw [if_pos hbrack]
    refine (safe_take (by rw [hbrack]; decide) fun _ rest hrest => ?_).mono (Nat.zero_le 1)
    refine ((h.or rest (by omega)).andThen fun key rest' hrest' => ?_).mono (Nat.zero_le 1)
    refine ((safe_expect (by decide) rest').andThen fun close rest'' hrest'' => ?_).mono
      (Nat.zero_le 1)
    exact h.accessTail _ rest'' (by omega)
  rw [if_neg hbrack]
  by_cases hparen : (peekToken ts).kind = .lparen
  · rw [if_pos hparen]
    refine ((h.argList ts (by omega)).andThen fun args rest hrest => ?_).mono (Nat.zero_le 1)
    exact h.accessTail _ rest (by omega)
  · rw [if_neg hparen]
    exact safe_pure _ _

private theorem safe_primary (ts : List Token) (hfuel : 20 * ts.length + 3 ≤ n + 1) :
    Safe (parsePrimary (n + 1)) ts 1 := by
  rw [parsePrimary]
  apply safe_peek
  have hleaf : ∀ {value : Ast}, (peekToken ts).kind ≠ .eof →
      Safe (do let _ ← advance; return value) ts 1 := fun hkind =>
    safe_take hkind fun _ _ _ => safe_pure _ _
  cases hkind : (peekToken ts).kind with
  | true | false | string | number | ident => exact hleaf (by rw [hkind]; decide)
  | lparen =>
      refine safe_take (by rw [hkind]; decide) fun _ rest hrest => ?_
      refine ((h.or rest (by omega)).andThen fun inner rest' _ => ?_).mono (Nat.zero_le 1)
      exact safe_close (by decide) _ _
  | lbrack => exact h.list ts (by omega)
  | lbrace => exact h.map ts (by omega)
  | _ => exact safe_throw _ _ _

private theorem safe_argList (ts : List Token) (hfuel : 20 * ts.length + 1 ≤ n + 1) :
    Safe (parseArgList (n + 1)) ts 1 := by
  rw [parseArgList]
  refine (safe_expect (by decide) ts).andThen fun _ rest hrest => ?_
  apply safe_peek
  by_cases hclose : (peekToken rest).kind = .rparen
  · rw [if_pos hclose]
    refine (safe_take (by rw [hclose]; decide) fun _ _ _ => ?_).mono (Nat.zero_le 1)
    exact safe_pure _ _
  · rw [if_neg hclose]
    refine ((h.or rest (by omega)).andThen fun first rest' hrest' => ?_).mono (Nat.zero_le 1)
    refine (h.more rest' (by omega)).andThen fun more rest'' _ => ?_
    exact safe_close (by decide) _ _

private theorem safe_list (ts : List Token) (hfuel : 20 * ts.length + 1 ≤ n + 1) :
    Safe (parseList (n + 1)) ts 1 := by
  rw [parseList]
  refine (safe_expect (by decide) ts).andThen fun _ rest hrest => ?_
  apply safe_peek
  by_cases hclose : (peekToken rest).kind = .rbrack
  · rw [if_pos hclose]
    exact safe_close (by decide) _ _
  · rw [if_neg hclose]
    refine ((h.or rest (by omega)).andThen fun first rest' hrest' => ?_).mono (Nat.zero_le 1)
    refine (h.more rest' (by omega)).andThen fun more rest'' _ => ?_
    exact safe_close (by decide) _ _

private theorem safe_map (ts : List Token) (hfuel : 20 * ts.length + 1 ≤ n + 1) :
    Safe (parseMap (n + 1)) ts 1 := by
  rw [parseMap]
  refine (safe_expect (by decide) ts).andThen fun _ rest hrest => ?_
  apply safe_peek
  by_cases hclose : (peekToken rest).kind = .rbrace
  · rw [if_pos hclose]
    exact safe_close (by decide) _ _
  · rw [if_neg hclose]
    refine ((h.mapEntry rest (by omega)).andThen fun first rest' hrest' => ?_).mono
      (Nat.zero_le 1)
    refine (h.moreEntries rest' (by omega)).andThen fun more rest'' _ => ?_
    exact safe_close (by decide) _ _

private theorem safe_moreEntries (ts : List Token) (hfuel : 20 * ts.length + 1 ≤ n + 1) :
    Safe (parseMoreEntries (n + 1)) ts 0 := by
  rw [parseMoreEntries]
  apply safe_peek
  by_cases hcomma : (peekToken ts).kind = .comma
  · rw [if_pos hcomma]
    refine (safe_take (by rw [hcomma]; decide) fun _ rest hrest => ?_).mono (Nat.zero_le 1)
    refine ((h.mapEntry rest (by omega)).andThen fun entry rest' hrest' => ?_).mono (Nat.zero_le 1)
    exact (h.moreEntries rest' (by omega)).andThen fun _ _ _ => safe_pure _ _
  · rw [if_neg hcomma]
    exact safe_pure _ _

private theorem safe_mapKey (ts : List Token) (hfuel : 20 * ts.length + 16 ≤ n + 1) :
    Safe (parseMapKey (n + 1)) ts 1 := by
  rw [parseMapKey]
  apply safe_peek
  split
  · rename_i hname
    refine safe_take (fun heof => ?_) fun _ _ _ => safe_pure _ _
    rw [heof] at hname
    exact absurd hname (by decide)
  · exact h.or ts (by omega)

/-- One more unit of fuel: each function calls others on the same tokens only further down the
list, and itself or those above only after a token is taken. -/
theorem Enough.succ : Enough (n + 1) where
  or ts hfuel := by
    rw [parseOr]
    exact (h.and ts (by omega)).andThen fun left rest _ => h.orTail left rest (by omega)
  orTail left ts hfuel := by
    rw [parseOrTail]
    exact safe_loop (by decide) (fun rest _ => h.and rest (by omega))
      fun right rest _ => h.orTail _ rest (by omega)
  and ts hfuel := by
    rw [parseAnd]
    exact (h.comparison ts (by omega)).andThen fun left rest _ => h.andTail left rest (by omega)
  andTail left ts hfuel := by
    rw [parseAndTail]
    exact safe_loop (by decide) (fun rest _ => h.comparison rest (by omega))
      fun right rest _ => h.andTail _ rest (by omega)
  comparison := safe_comparison h
  add ts hfuel := by
    rw [parseAdd]
    exact (h.unary ts (by omega)).andThen fun left rest _ => h.addTail left rest (by omega)
  addTail left ts hfuel := by
    rw [parseAddTail]
    exact safe_loop (by decide) (fun rest _ => h.unary rest (by omega))
      fun right rest _ => h.addTail _ rest (by omega)
  unary := safe_unary h
  access ts hfuel := by
    rw [parsePostfix]
    exact (h.primary ts (by omega)).andThen fun expr rest _ => h.accessTail expr rest (by omega)
  accessTail := safe_accessTail h
  primary := safe_primary h
  argList := safe_argList h
  list := safe_list h
  more ts hfuel := by
    rw [parseMore]
    exact safe_loop (by decide) (fun rest _ => h.or rest (by omega)) fun right rest _ =>
      (h.more rest (by omega)).andThen fun _ _ _ => safe_pure _ _
  map := safe_map h
  moreEntries := safe_moreEntries h
  mapEntry ts hfuel := by
    rw [parseMapEntry]
    refine (h.mapKey ts (by omega)).andThen fun key rest hrest => ?_
    refine ((safe_expect (by decide) rest).andThen fun _ rest' _ => ?_).mono (Nat.zero_le 1)
    exact ((h.or rest' (by omega)).andThen fun _ _ _ => safe_pure _ _).mono (Nat.zero_le 1)
  mapKey := safe_mapKey h

end Step

theorem enough (n : ℕ) : Enough n := by
  induction n with
  | zero => constructor <;> intros <;> omega
  | succ n ih => exact ih.succ

/-- **The parser never runs out of fuel**, on any list of tokens. -/
theorem parseTokens_ne_outOfFuel (tokens : List Token) : parseTokens tokens ≠ .outOfFuel := by
  unfold parseTokens
  generalize hfuel : 20 * tokens.length + 16 = n
  have hor := (enough n).or tokens (by omega)
  refine Safe.ne_outOfFuel (hor.andThen fun ast rest _ => ?_)
  refine Safe.andThen (p := expectEof) ?_ fun _ _ _ => safe_pure _ _
  apply safe_peek
  split
  · exact safe_pure _ _
  · exact safe_throw _ _ _

end Kinglet.Armor
