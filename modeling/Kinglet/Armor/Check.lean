import Kinglet.Armor.Parser
import Kinglet.Armor.Types

/-!
# Write-time checks of an expression

The walks over a parsed expression that do not evaluate it: the constraints checked when a rule is
written, and the test for rules that are evaluated in the body phase. Both visit every node of the
tree, the node before its children; `nodes` lists them in that order.
-/

namespace Kinglet.Armor

open Js

def stringMethods : List JsString :=
  ["contains", "startsWith", "endsWith", "matches", "lower", "upper", "base64Decode", "urlDecode",
    "urlDecodeUni", "utf8ToUnicode"]

def knownFunctions : List JsString :=
  ["inIpRange", "has", "int", "size", "evaluatePreconfiguredWaf", "evaluatePreconfiguredExpr",
    "evaluateAddressGroup", "evaluateOrganizationAddressGroup", "evaluateThreatIntelligence",
    "evaluateAdaptiveProtection", "evaluateAdaptiveProtectionAutoDeploy"]

def celMacros : List JsString := ["exists", "exists_one", "all", "filter", "map"]

def originFields : List JsString :=
  ["ip", "user_ip", "region_code", "asn", "tls_ja3_fingerprint", "tls_ja4_fingerprint"]

def requestFields : List JsString :=
  ["headers", "method", "path", "query", "scheme", "body", "params"]

/-! ## Nodes of a tree -/

def childrenOf : Ast → List Ast
  | .lit _ _ | .ident _ _ => []
  | .member object _ _ => [object]
  | .index object key _ => [object, key]
  | .call callee args _ => callee :: args
  | .unary _ arg _ => [arg]
  | .binary _ left right _ => [left, right]
  | .list elements _ => elements
  | .map entries _ => entries.flatMap fun e => [e.1, e.2]

mutual
/-- Every node of a tree, each before its children. -/
def nodes : Ast → List Ast
  | .lit value s => [.lit value s]
  | .ident name s => [.ident name s]
  | .member object name s => .member object name s :: nodes object
  | .index object key s => .index object key s :: (nodes object ++ nodes key)
  | .call callee args s => .call callee args s :: (nodes callee ++ nodesOfList args)
  | .unary op arg s => .unary op arg s :: nodes arg
  | .binary op left right s => .binary op left right s :: (nodes left ++ nodes right)
  | .list elements s => .list elements s :: nodesOfList elements
  | .map entries s => .map entries s :: nodesOfEntries entries

def nodesOfList : List Ast → List Ast
  | [] => []
  | node :: rest => nodes node ++ nodesOfList rest

def nodesOfEntries : List (Ast × Ast) → List Ast
  | [] => []
  | (key, value) :: rest => nodes key ++ nodes value ++ nodesOfEntries rest
end

theorem self_mem_nodes (node : Ast) : node ∈ nodes node := by
  cases node <;> simp [nodes]

theorem mem_nodesOfList {node : Ast} {list : List Ast} :
    node ∈ nodesOfList list ↔ ∃ child ∈ list, node ∈ nodes child := by
  induction list with
  | nil => simp [nodesOfList]
  | cons child rest ih => simp [nodesOfList, ih]

theorem mem_nodesOfEntries {node : Ast} {entries : List (Ast × Ast)} :
    node ∈ nodesOfEntries entries ↔
      ∃ entry ∈ entries, node ∈ nodes entry.1 ∨ node ∈ nodes entry.2 := by
  induction entries with
  | nil => simp [nodesOfEntries]
  | cons entry rest ih => simp [nodesOfEntries, ih, or_assoc]

/-- The nodes of a tree are the root and the nodes of its children. -/
theorem mem_nodes_iff {node root : Ast} :
    node ∈ nodes root ↔ node = root ∨ ∃ child ∈ childrenOf root, node ∈ nodes child := by
  cases root with
  | map entries s =>
      simp only [nodes, childrenOf, List.mem_cons, mem_nodesOfEntries, List.mem_flatMap,
        List.not_mem_nil, or_false]
      constructor
      · rintro (h | ⟨entry, hentry, h | h⟩)
        · exact .inl h
        · exact .inr ⟨entry.1, ⟨entry, hentry, .inl rfl⟩, h⟩
        · exact .inr ⟨entry.2, ⟨entry, hentry, .inr rfl⟩, h⟩
      · rintro (h | ⟨child, ⟨entry, hentry, rfl | rfl⟩, h⟩)
        · exact .inl h
        · exact .inr ⟨entry, hentry, .inl h⟩
        · exact .inr ⟨entry, hentry, .inr h⟩
  | _ => simp [nodes, childrenOf, mem_nodesOfList]

theorem mem_nodes_of_child {root child node : Ast} (hchild : child ∈ childrenOf root)
    (hnode : node ∈ nodes child) : node ∈ nodes root :=
  mem_nodes_iff.2 (.inr ⟨child, hchild, hnode⟩)

/-! ## Shapes -/

def calleeName : Ast → Option JsString
  | .ident name _ => some name
  | .member _ name _ => some name
  | _ => none

def callName : Ast → Option JsString
  | .call callee _ _ => calleeName callee
  | _ => none

def stringLiteralArg : Ast → Option JsString
  | .call _ (.lit (.str s) _ :: _) _ => some s
  | _ => none

def isIdent (name : JsString) : Ast → Bool
  | .ident other _ => other = name
  | _ => false

def isRequestQuery : Ast → Bool
  | .member object name _ => isIdent "request" object && name = "query"
  | _ => false

def requestFieldName : Ast → Option JsString
  | .member object name _ => if isIdent "request" object then some name else none
  | .index object (.lit (.str key) _) _ => if isIdent "request" object then some key else none
  | _ => none

/-! ## Capturing groups -/

/-- The scan for a capturing group; `inClass` inside a character class. -/
def capturingGroup (inClass : Bool) : JsString → Bool
  | [] => false
  | [u] => !inClass && u = unit '('
  | u :: v :: rest =>
      if u = unit '\\' then capturingGroup inClass rest
      else if inClass then capturingGroup (u ≠ unit ']') (v :: rest)
      else if u = unit '[' then capturingGroup true (v :: rest)
      else if u = unit '(' then
        if startsWith (v :: rest) "?P<" || startsWith (v :: rest) "?<" then true
        else if v = unit '?' then capturingGroup false (v :: rest)
        else true
      else capturingGroup false (v :: rest)

def hasCapturingGroup (pattern : JsString) : Bool := capturingGroup false pattern

/-! ## Constraints -/

def undeclaredReference (name : JsString) : JsString :=
  js "undeclared reference to '" ++ name ++ js "'"

def assertRegexAllowed (host : Host) (pattern : JsString) : Except JsString Unit :=
  if hasCapturingGroup pattern then
    .error "regular expression capture groups are not allowed; use (?:...) instead"
  else
    match host.re2Compile pattern with
    | .ok _ => .ok ()
    | .error message => .error message

def checkMatches (host : Host) (node : Ast) : Except JsString Unit :=
  if callName node = some "matches" then
    match stringLiteralArg node with
    | some pattern => assertRegexAllowed host pattern
    | none => .ok ()
  else .ok ()

/-- The checks of a call: its name, then its callee. -/
def checkCall (host : Host) (callee : Ast) (node : Ast) : Except JsString Unit := do
  checkMatches host node
  if calleeName callee = some "query_params" then throw (undeclaredReference "query_params")
  match calleeName callee with
  | some name => if name ∈ celMacros then throw (undeclaredReference name)
  | none => pure ()
  match callee with
  | .ident name _ => if name ∉ knownFunctions then throw (undeclaredReference name)
  | .member _ name _ =>
      if name ∉ stringMethods ∧ name ∉ celMacros then throw (undeclaredReference name)
  | _ => pure ()

/-- What the walk throws at a node, if anything. -/
def checkNode (host : Host) (node : Ast) : Except JsString Unit :=
  match node with
  | .call callee _ _ => checkCall host callee node
  | .ident name _ =>
      if name = "query_params" then .error (undeclaredReference "query_params") else .ok ()
  | .member object name _ =>
      if isRequestQuery object ∧ name ∉ stringMethods then .error "request.query is a string"
      else if isIdent "origin" object ∧ name ∉ originFields then .error (undeclaredReference name)
      else if isIdent "request" object ∧ name ∉ requestFields then
        .error (undeclaredReference name)
      else .ok ()
  | .index object _ _ =>
      if isRequestQuery object then .error "request.query is a string" else .ok ()
  | _ => .ok ()

def checkNodes (host : Host) : List Ast → Except JsString Unit
  | [] => .ok ()
  | node :: rest => do
      checkNode host node
      checkNodes host rest

/-- Comparisons and calls count as subexpressions. -/
def isSubexpression : Ast → Bool
  | .binary .eq _ _ _ | .binary .ne _ _ _ | .binary .lt _ _ _ | .binary .gt _ _ _
  | .binary .le _ _ _ | .binary .ge _ _ _ | .call _ _ _ => true
  | _ => false

def checkWriteTimeConstraints (host : Host) (ast : Ast) : Except JsString Unit := do
  checkNodes host (nodes ast)
  let subSpans := ((nodes ast).filter isSubexpression).map Ast.span
  if maxSubexpressions < subSpans.length then
    throw (js "Expression count of " ++ decimal subSpans.length ++ js " exceeded maximum of " ++
      decimal maxSubexpressions)
  if maxMatchesPerExpression < (nodes ast).countP fun n => callName n = some "matches" then
    throw (js "only one matches() call is allowed per expression")
  if subSpans.any fun s => maxSubexpressionChars < s.stop - s.start then
    throw (js "Subexpression exceeds maximum of " ++ decimal maxSubexpressionChars ++
      js " characters")

/-- `validateExpression(expression)`, with the message of the error it throws. -/
def validateExpression (host : Host) (expression : JsString) : Except JsString Unit := do
  if maxExpressionChars < expression.length then
    throw (js "Expression exceeds maximum of " ++ decimal maxExpressionChars ++ js " characters")
  let ast ← parseExpressionAst expression
  checkWriteTimeConstraints host ast

/-! ## The body phase -/

/-- Whether a node by itself puts the expression into the body phase. -/
def isBodyPhaseNode (node : Ast) : Bool :=
  requestFieldName node = some "body" || requestFieldName node = some "params" ||
    callName node = some "evaluatePreconfiguredWaf" ||
    callName node = some "evaluatePreconfiguredExpr"

def astUsesBodyPhase (ast : Ast) : Bool := (nodes ast).any isBodyPhaseNode

/-- A test at every position of a text that starts a word. -/
def anyWordStart (test : JsString → Bool) (afterWord : Bool) : JsString → Bool
  | [] => false
  | u :: rest => (!afterWord && test (u :: rest)) || anyWordStart test (isWord u) rest

/-- What follows one of two names, if the text starts with one. -/
def afterName (first second text : JsString) : Option JsString :=
  if startsWith text first then some (text.drop first.length)
  else if startsWith text second then some (text.drop second.length)
  else none

/-- `/request\s*(?:\.\s*(?:body|params)\b|\[\s*['"](?:body|params)['"]\s*\])/` at the front. -/
def bodyAccessText (text : JsString) : Bool :=
  startsWith text "request" &&
    match trimStart (text.drop 7) with
    | 46 :: rest =>
        match afterName "body" "params" (trimStart rest) with
        | some rest => !rest.head?.any isWord
        | none => false
    | 91 :: rest =>
        match trimStart rest with
        | q :: rest =>
            isQuote q &&
              match afterName "body" "params" rest with
              | some (q :: rest) => isQuote q && startsWith (trimStart rest) "]"
              | _ => false
        | [] => false
    | _ => false

/-- `/evaluatePreconfigured(Waf|Expr)\s*\(/` at the front. -/
def preconfiguredText (text : JsString) : Bool :=
  match afterName "evaluatePreconfiguredWaf" "evaluatePreconfiguredExpr" text with
  | some rest => startsWith (trimStart rest) "("
  | none => false

/-- `expressionUsesBodyPhase(expression)`: by its tree or, when it does not parse, by its text. -/
def expressionUsesBodyPhase (expression : JsString) : Bool :=
  match parseExpressionAst expression with
  | .ok ast => astUsesBodyPhase ast
  | .error _ =>
      anyWordStart bodyAccessText false expression ||
        anyWordStart preconfiguredText false expression

end Kinglet.Armor
