import Kinglet.Armor.Check
import Kinglet.Armor.Decode
import Kinglet.Armor.Request

/-!
# Evaluating an expression

The tree evaluator of the custom rules language. Evaluation has no effects, so a call is given the
outcomes of all its arguments and uses those the function it names evaluates, in the order in which
the function evaluates them.
-/

namespace Kinglet.Armor

open Js

/-! ## Errors -/

/-- What evaluation throws. A failed lookup remembers the identity of the object it was made in;
only `thrown` is not an `EvalRuntimeError`. -/
inductive EvalError where
  | undeclared (name : JsString)
  | noSuchKey (object : Option ℕ) (key : JsString)
  | cannotIndex (type : JsString)
  | runtime (message : JsString)
  | thrown (message : JsString)

namespace EvalError

def message : EvalError → JsString
  | .undeclared name => undeclaredReference name
  | .noSuchKey _ key => js "no such key: '" ++ key ++ js "'"
  | .cannotIndex type => js "cannot index '" ++ type ++ js "'"
  | .runtime message | .thrown message => message

def isRuntime : EvalError → Bool
  | .thrown _ => false
  | _ => true

end EvalError

abbrev EvalResult (α : Type) := Except EvalError α

/-! ## The environment -/

/-- What evaluation reads besides the expression. -/
structure EvalContext where
  host : Host
  attributes : RequestAttributes
  lookupAddressGroup : Option (JsString → Option (List JsString))

/-- The identities of the objects the environment is made of; those in the parameters follow. -/
def originRef : ℕ := 0
def requestRef : ℕ := 1
def headersRef : ℕ := 2
def paramsRef : ℕ := 3

def headersValue (attributes : RequestAttributes) : JsValue :=
  .obj (some headersRef) (attributes.request.headers.map fun (name, value) => (name, .str value))

def originValue (attributes : RequestAttributes) : JsValue :=
  .obj (some originRef)
    [("ip", .str attributes.origin.ip), ("user_ip", .str attributes.origin.userIp),
      ("region_code", .str attributes.origin.regionCode), ("asn", .num attributes.origin.asn),
      ("tls_ja3_fingerprint", .str attributes.origin.tlsJa3Fingerprint),
      ("tls_ja4_fingerprint", .str attributes.origin.tlsJa4Fingerprint)]

def requestValue (attributes : RequestAttributes) : JsValue :=
  .obj (some requestRef)
    [("headers", headersValue attributes), ("method", .str attributes.request.method),
      ("path", .str attributes.request.path), ("query", .str attributes.request.query),
      ("scheme", .str attributes.request.scheme), ("body", .str attributes.request.body),
      ("params", .obj (some paramsRef) (shiftFields 4 attributes.request.params))]

def toEnv (attributes : RequestAttributes) : Fields :=
  [("origin", originValue attributes), ("request", requestValue attributes)]

/-! ## Conversions -/

def asBool : JsValue → EvalResult Bool
  | .bool b => .ok b
  | _ => .error (.runtime "expected boolean")

def asString : JsValue → EvalResult JsString
  | .str s => .ok s
  | _ => .error (.runtime "expected string")

/-- `String(value)`. -/
def stringOf (host : Host) (value : JsValue) : EvalResult JsString :=
  match toText value with
  | some text => .ok text
  | none => .error (.thrown host.conversionError)

/-- `/^-?\d+$/`. -/
def isIntegerText (text : JsString) : Bool :=
  let digits := if startsWith text "-" then text.drop 1 else text
  digits ≠ [] && digits.all isDigit

def toInt : JsValue → EvalResult JsValue
  | .num x => if isInteger x then .ok (.num x) else .error (.runtime intMessage)
  | .str s => if isIntegerText s then .ok (.num (parseInt s)) else .error (.runtime intMessage)
  | _ => .error (.runtime intMessage)
where
  intMessage : JsString := "int() requires an integer string"

def sizeOf : JsValue → EvalResult JsValue
  | .str s => .ok (.num (natNumber s.length))
  | .arr _ elements => .ok (.num (natNumber elements.length))
  | .obj _ fields => .ok (.num (natNumber fields.length))
  | _ => .error (.runtime "size() requires a string, list, or map")

/-! ## Lookups -/

/-- The number an array is indexed with. -/
def indexNumber (host : Host) : JsValue → EvalResult Float
  | .num x => .ok x
  | key => do return parseInt (← stringOf host key)

def lookup (host : Host) (object key : JsValue) : EvalResult JsValue :=
  match object with
  | .arr ref elements => do
      let index ← indexNumber host key
      match arrayIndex index elements.length with
      | some i => .ok (elements.getD i .undefined)
      | none => do throw (.noSuchKey ref (← stringOf host key))
  | .obj ref fields => do
      let name ← stringOf host key
      match ownField fields name with
      | some value => .ok value
      | none => .error (.noSuchKey ref name)
  | other => .error (.cannotIndex (typeOf other))

def hasKey (host : Host) (object key : JsValue) : EvalResult Bool :=
  match object with
  | .arr _ elements => do return (arrayIndex (← indexNumber host key) elements.length).isSome
  | .obj _ fields => do return hasOwn fields (← stringOf host key)
  | _ => .ok false

/-! ## Functions -/

/-- An argument of a call: the outcome of evaluating it, and that of `has` on it. -/
structure Arg where
  value : EvalResult JsValue
  has : EvalResult Bool

def requiredArg (args : List Arg) (i : ℕ) : EvalResult JsValue :=
  match args[i]? with
  | some arg => arg.value
  | none => .error (.runtime "missing function argument")

/-- Evaluate every argument for its errors only. -/
def evalAll : List Arg → EvalResult Unit
  | [] => .ok ()
  | arg :: args => do
      let _ ← arg.value
      evalAll args

def stringListOf : List JsValue → Option (List JsString)
  | [] => some []
  | .str s :: rest => (stringListOf rest).map (s :: ·)
  | _ :: _ => none

def wafOptionKeys : List JsString := ["sensitivity", "opt_out_rule_ids", "opt_in_rule_ids"]

/-- The `sensitivity` option: 4 when absent, `none` when it is not an integer from 0 to 4. -/
def wafSensitivity (options : Fields) : Option ℕ :=
  match ownField options "sensitivity" with
  | none => some 4
  | some (.num x) => arrayIndex x 5
  | some _ => none

/-- An option that lists rule ids: absent, or a list of strings; `none` otherwise. -/
def wafRuleIds (options : Fields) (key : JsString) : Option (Option (List JsString)) :=
  match ownField options key with
  | none => some none
  | some (.arr _ elements) => (stringListOf elements).map some
  | some _ => none

/-- The result for the matches of one rule set. -/
def wafDecision (ruleSet : JsString) (options : Fields) (wafMatches : List WafSignatureMatch) :
    Bool :=
  if !options.all (fun f => f.1 ∈ wafOptionKeys) then false
  else
    match wafSensitivity options, wafRuleIds options "opt_out_rule_ids",
        wafRuleIds options "opt_in_rule_ids" with
    | some sensitivity, some optOut, some optIn =>
        if optOut.isSome && optIn.isSome then false
        else
          let matched := wafMatches.filter fun m => m.ruleSet = ruleSet
          if sensitivity = 0 then
            match optIn with
            | none => false
            | some ids => matched.any fun m => m.signatureId ∈ ids
          else if optIn.isSome then false
          else matched.any fun m => m.signatureId ∉ optOut.getD []
    | _, _, _ => false

def evalPreconfiguredWaf (ctx : EvalContext) (args : List Arg) : EvalResult Bool :=
  match args with
  | [ruleSet] => do
      let ruleSet ← asString (← ruleSet.value)
      return wafDecision ruleSet [] ctx.attributes.wafMatches
  | [ruleSet, options] => do
      let ruleSet ← asString (← ruleSet.value)
      match ← options.value with
      | .obj _ fields => return wafDecision ruleSet fields ctx.attributes.wafMatches
      | _ => return false
  | args => do
      evalAll args
      return false

def asStringList : JsValue → Option (List JsString)
  | .str s => some (((splitUnit (unit ',') s).map trim).filter (0 < ·.length))
  | .arr _ elements => stringListOf elements
  | _ => none

/-- The address a source names: itself, or the first one in the header of that name. -/
def resolveEvaluateIp (ctx : EvalContext) : JsValue → Option JsString
  | .str source =>
      if source = [] then none
      else if isValidIp source then some source
      else (ctx.attributes.request.headers.lookup (ctx.host.toLowerCase source)).bind
        parseFirstValidIp
  | _ => none

def addressGroupArity (n : ℕ) : JsString :=
  js "Function 'evaluateAddressGroup' declared with 2 or 3 args, called with " ++ decimal n

def evalAddressGroup (ctx : EvalContext) (args : List Arg) : EvalResult Bool :=
  if args.length < 2 || 3 < args.length then .error (.runtime (addressGroupArity args.length))
  else do
    let groupName ← requiredArg args 0
    let source ← requiredArg args 1
    match groupName, resolveEvaluateIp ctx source with
    | .str name, some ip =>
        if name = [] then return false
        let items := ((ctx.lookupAddressGroup.bind fun find => find name).getD [])
        if !items.any (ipInCidr ip) then return false
        if args.length < 3 then return true
        match asStringList (← requiredArg args 2) with
        | none => return false
        | some exclusions => return !exclusions.any (ipInCidr ip)
    | _, _ => return false

/-- The methods of a string, by name. -/
def evalMethod (ctx : EvalContext) (name : JsString) (target : JsString) (args : List Arg) :
    EvalResult JsValue :=
  if name = "contains" then do
    return .bool (includes target (← asString (← requiredArg args 0)))
  else if name = "startsWith" then do
    return .bool (startsWith target (← asString (← requiredArg args 0)))
  else if name = "endsWith" then do
    return .bool (endsWith target (← asString (← requiredArg args 0)))
  else if name = "matches" then do
    let pattern ← asString (← requiredArg args 0)
    if hasCapturingGroup pattern then
      throw (.runtime "regular expression capture groups are not allowed")
    match ctx.host.re2Compile pattern with
    | .ok test => return .bool (test target)
    | .error message => throw (.runtime message)
  else if name = "lower" then .ok (.str (ctx.host.toLowerCase target))
  else if name = "upper" then .ok (.str (ctx.host.toUpperCase target))
  else if name = "base64Decode" then .ok (.str (base64Decode target))
  else if name = "urlDecode" then .ok (.str (urlDecode target))
  else if name = "urlDecodeUni" then .ok (.str (urlDecodeUni target))
  else if name = "utf8ToUnicode" then .ok (.str (utf8ToUnicode target))
  else .error (.undeclared name)

/-- The functions, by name; `none` for the names that are not one. -/
def evalFunction (ctx : EvalContext) (name : JsString) (args : List Arg) :
    Option (EvalResult JsValue) :=
  if name = "has" then
    some (match args with
      | [] => .error (.runtime "has() requires an argument")
      | arg :: _ => arg.has.map .bool)
  else if name = "evaluateAddressGroup" then some ((evalAddressGroup ctx args).map .bool)
  else if name = "evaluatePreconfiguredWaf" then some ((evalPreconfiguredWaf ctx args).map .bool)
  else if name = "evaluateAdaptiveProtection" || name = "evaluateAdaptiveProtectionAutoDeploy" then
    some do
      evalAll args
      let expected := if name = "evaluateAdaptiveProtection" then 1 else 0
      return .bool (args.length = expected && ctx.attributes.adaptiveProtectionMatch)
  else if name = "evaluatePreconfiguredExpr" || name = "evaluateOrganizationAddressGroup" ||
      name = "evaluateThreatIntelligence" then
    some do
      evalAll args
      return .bool false
  else if name = "inIpRange" then
    some do
      let ip ← asString (← requiredArg args 0)
      let cidr ← asString (← requiredArg args 1)
      return .bool (ipInCidr ip cidr)
  else if name = "int" then some do toInt (← requiredArg args 0)
  else if name = "size" then some do sizeOf (← requiredArg args 0)
  else none

/-- A call: `target` is the outcome of evaluating the object of a member callee. -/
def evalCall (ctx : EvalContext) (name : Option JsString) (target : Option (EvalResult JsValue))
    (args : List Arg) : EvalResult JsValue :=
  match name.bind fun name => evalFunction ctx name args with
  | some result => result
  | none =>
      match target with
      | none => .error (.undeclared (name.getD "call"))
      | some target => do
          let text ← asString (← target)
          evalMethod ctx (name.getD "method") text args

/-! ## Operators -/

def BinaryOp.text : BinaryOp → JsString
  | .or => "||" | .and => "&&" | .plus => "+" | .eq => "==" | .ne => "!="
  | .lt => "<" | .gt => ">" | .le => "<=" | .ge => ">="

/-- A comparison of two numbers. -/
def compareNumbers (op : BinaryOp) (test : Float → Float → Bool) :
    JsValue → JsValue → EvalResult JsValue
  | .num a, .num b => .ok (.bool (test a b))
  | _, _ => .error (.runtime (js "operator " ++ op.text ++ js " requires numbers"))

def evalBinary (op : BinaryOp) (left right : EvalResult JsValue) : EvalResult JsValue :=
  match op with
  | .and => do
      if !(← asBool (← left)) then return .bool false
      return .bool (← asBool (← right))
  | .or => do
      if ← asBool (← left) then return .bool true
      return .bool (← asBool (← right))
  | .plus => do
      let left ← left
      let right ← right
      return .str ((← asString left) ++ (← asString right))
  | .eq => do return .bool (sameValue (← left) (← right))
  | .ne => do return .bool (!sameValue (← left) (← right))
  | .lt => do compareNumbers .lt (fun a b => a < b) (← left) (← right)
  | .gt => do compareNumbers .gt (fun a b => b < a) (← left) (← right)
  | .le => do compareNumbers .le (fun a b => a ≤ b) (← left) (← right)
  | .ge => do compareNumbers .ge (fun a b => b ≤ a) (← left) (← right)

def evalUnary (op : UnaryOp) (arg : JsValue) : EvalResult JsValue :=
  match op, arg with
  | .not, arg => do return .bool (!(← asBool arg))
  | .minus, .num x => .ok (.num (-x))
  | .minus, _ => .error (.runtime "unary minus requires a number")

/-! ## The evaluator -/

def Literal.value : Literal → JsValue
  | .str s => .str s
  | .num x => .num x
  | .bool b => .bool b

/-- `has` of an expression that is no access: whether it evaluates. -/
def settled : EvalResult JsValue → EvalResult Bool
  | .ok _ => .ok true
  | .error e => if e.isRuntime then .ok false else .error e

mutual

def evalAst (ctx : EvalContext) : Ast → EvalResult JsValue
  | .lit value _ => .ok value.value
  | .ident name _ =>
      match ownField (toEnv ctx.attributes) name with
      | some value => .ok value
      | none => .error (.undeclared name)
  | .member object name _ => do lookup ctx.host (← evalAst ctx object) (.str name)
  | .index object key _ => do
      let object ← evalAst ctx object
      let key ← evalAst ctx key
      lookup ctx.host object key
  | .call callee args _ =>
      evalCall ctx (calleeName callee) (evalTarget ctx callee) (evalArgs ctx args)
  | .unary op arg _ => do evalUnary op (← evalAst ctx arg)
  | .binary op left right _ => evalBinary op (evalAst ctx left) (evalAst ctx right)
  | .list elements _ => do return .arr none (← evalList ctx elements)
  | .map entries _ => do return .obj none (← evalEntries ctx [] entries)

/-- The object of a member callee. -/
def evalTarget (ctx : EvalContext) : Ast → Option (EvalResult JsValue)
  | .member object _ _ => some (evalAst ctx object)
  | _ => none

def evalArgs (ctx : EvalContext) : List Ast → List Arg
  | [] => []
  | arg :: args =>
      ⟨evalAst ctx arg, (evalHas ctx arg).getD (settled (evalAst ctx arg))⟩ :: evalArgs ctx args

/-- `has` of an access: whether the object has the key. -/
def evalHas (ctx : EvalContext) : Ast → Option (EvalResult Bool)
  | .index object key _ => some do
      let object ← evalAst ctx object
      let key ← evalAst ctx key
      hasKey ctx.host object key
  | .member object name _ => some do hasKey ctx.host (← evalAst ctx object) (.str name)
  | _ => none

def evalList (ctx : EvalContext) : List Ast → EvalResult (List JsValue)
  | [] => .ok []
  | element :: elements => do
      let value ← evalAst ctx element
      let values ← evalList ctx elements
      return value :: values

/-- The fields of a map literal, on top of those already made. -/
def evalEntries (ctx : EvalContext) (fields : Fields) : List (Ast × Ast) → EvalResult Fields
  | [] => .ok fields
  | (key, value) :: entries => do
      let name ← stringOf ctx.host (← evalAst ctx key)
      let value ← evalAst ctx value
      evalEntries ctx (assignField name value fields) entries

end

/-- `evaluateExpression(expression, attributes, options)`. -/
def evaluateExpression (ctx : EvalContext) (expression : JsString) : ExpressionEvaluation :=
  match parseExpressionAst expression with
  | .error message => .failed message
  | .ok ast =>
      match evalAst ctx ast with
      | .ok (.bool b) => .ok b
      | .ok _ => .failed "expression did not evaluate to a boolean"
      | .error e => .failed e.message

/-- `matchSrcIpRanges(ip, ranges)`. -/
def matchSrcIpRanges (ip : JsString) (ranges : List JsString) : Bool :=
  ranges.any fun range => range = "*" || ipInCidr ip range

end Kinglet.Armor
