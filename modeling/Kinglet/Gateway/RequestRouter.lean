import Kinglet.Js.Text
import Kinglet.Library.Rounding
import Mathlib.Logic.Function.Basic

/-!
# The request router

Every emulated service registers its routes into one router. A route has a template: literal text
with `:name`, `{name}`, `{name=**}`, `*` and `**`. `addRoute` refuses a template that reads the same
as a registered one of the method once parameter names are dropped; a request goes to the matching
route with the highest score, the first of them on a tie.

The pattern of a template is a regular expression. For templates in the accepted spellings it is a
sequence of literal letters, of groups `([^/]+)` and of groups `(.*)`; `pathToRegex` reads it off
the template in one pass, and refuses a template that uses other parts of the language of regular
expressions. The path trie of the source is written by `addRoute` and never read.
-/

namespace Kinglet.Gateway

open Js Library

/-- What the router takes from the JavaScript engine: the Unicode case mapping, and whether a text
is a regular expression. -/
structure Builtins where
  toLowerCase : JsString → JsString
  isRegExp : JsString → Bool

structure RouterConfig where
  enablePathNormalization : Bool
  caseSensitive : Bool
  strictTrailingSlash : Bool
  enableWildcards : Bool
  maxParams : ℕ
  deriving DecidableEq

/-- `DEFAULT_ROUTER_CONFIG`, the configuration of the server. -/
def defaultRouterConfig : RouterConfig where
  enablePathNormalization := true
  caseSensitive := false
  strictTrailingSlash := false
  enableWildcards := true
  maxParams := 50

inductive HttpMethod where
  | get | post | put | delete | patch | head | options
  deriving DecidableEq, Repr

def HttpMethod.text : HttpMethod → JsString
  | .get => js "GET"
  | .post => js "POST"
  | .put => js "PUT"
  | .delete => js "DELETE"
  | .patch => js "PATCH"
  | .head => js "HEAD"
  | .options => js "OPTIONS"

/-- A route; of its parameters, the names. -/
structure RouteDefinition (Handler : Type) where
  id : JsString
  method : HttpMethod
  path : JsString
  handler : Handler
  parameters : List JsString := []
  deriving DecidableEq

variable {Handler : Type}

/-! ## Replacing the matches of a regular expression -/

/-- `text.replace(pattern, replacement)` with the flag `g`. `find` says, of the code unit before a
position and the text from there, how long a match is and what it is replaced by; `skip` counts the
code units of the last match still to be passed over. -/
def replaceMatches (find : Option UInt16 → JsString → Option (ℕ × JsString)) :
    Option UInt16 → ℕ → JsString → JsString
  | _, _, [] => []
  | _, skip + 1, u :: rest => replaceMatches find (some u) skip rest
  | previous, 0, u :: rest =>
      match find previous (u :: rest) with
      | some (length, replacement) =>
          replacement ++ replaceMatches find (some u) (length - 1) rest
      | none => u :: replaceMatches find (some u) 0 rest

/-- The longest match of `[a-zA-Z_][a-zA-Z0-9_]*` at the start of a text. -/
def identifier (text : JsString) : Option JsString :=
  if text.head?.any isIdentStart then some (text.takeWhile isWord) else none

/-- The name in a match of `(?<=\/):([a-zA-Z_][a-zA-Z0-9_]*)`. -/
def colonName (previous : Option UInt16) : JsString → Option JsString
  | u :: rest =>
      if previous = some (unit '/') ∧ u = unit ':' then identifier rest else none
  | [] => none

/-- The name in a match of `\{([a-zA-Z_][a-zA-Z0-9_]*)\}`. -/
def bracedName : JsString → Option JsString
  | u :: rest =>
      if u = unit '\x7b' then
        (identifier rest).filter fun name => (rest.drop name.length).head? = some (unit '\x7d')
      else none
  | [] => none

/-- The text between a brace and the next closing one: a match of `\{([^}]*)\}`. -/
def braceSpec : JsString → Option JsString
  | u :: rest =>
      let spec := rest.takeWhile (· ≠ unit '\x7d')
      if u = unit '\x7b' ∧ spec.length < rest.length then some spec else none
  | [] => none

def stripRouteParamNames (path : JsString) : JsString :=
  let withoutColonNames := replaceMatches (fun previous text =>
    (colonName previous text).map fun name => (name.length + 1, js ":param")) none 0 path
  replaceMatches (fun _ text =>
    (bracedName text).map fun name => (name.length + 2, js "\x7bparam\x7d")) none 0 withoutColonNames

/-! ## Normalization -/

variable (builtins : Builtins) (config : RouterConfig)

/-- A match of `\/+`. -/
def slashRun (text : JsString) : Option ℕ :=
  match (text.takeWhile (· = unit '/')).length with
  | 0 => none
  | n + 1 => some (n + 1)

def normalizeRequestPath (path : JsString) : JsString :=
  let normalized := replaceMatches (fun _ text =>
    (slashRun text).map fun n => (n, [unit '/'])) none 0 path
  if 1 < normalized.length ∧ endsWith normalized [unit '/'] ∧ !config.strictTrailingSlash then
    normalized.dropLast
  else normalized

/-- The segment in a match of `\/([^/{}]+)`. -/
def staticSegment : JsString → Option JsString
  | u :: rest =>
      let segment := rest.takeWhile fun v =>
        v ≠ unit '/' ∧ v ≠ unit '\x7b' ∧ v ≠ unit '\x7d'
      if u = unit '/' ∧ segment ≠ [] then some segment else none
  | [] => none

def normalizeRoutePath (path : JsString) : JsString :=
  let normalized := normalizeRequestPath config path
  if config.caseSensitive then normalized
  else
    replaceMatches (fun _ text => (staticSegment text).map fun segment =>
      (segment.length + 1, unit '/' ::
        if startsWith segment [unit ':'] then segment else builtins.toLowerCase segment))
      none 0 normalized

def pathKey (method : HttpMethod) (path : JsString) : JsString :=
  let withoutParamNames := stripRouteParamNames path
  method.text ++ js " " ++
    if config.caseSensitive then withoutParamNames else builtins.toLowerCase withoutParamNames

/-! ## Patterns -/

/-- A part of a template, with the name of the parameter it spells. -/
inductive Piece where
  | literal (u : UInt16)
  | colon (name : JsString)
  | brace (name : JsString)
  | braceStar (name : JsString)
  | braceDoubleStar (name : JsString)
  | star
  | doubleStar
  deriving DecidableEq, Repr

/-- The part that `{spec}` stands for: the default pattern without `=`, and else the pattern after
it, which is a wildcard in the accepted spellings. -/
def bracePiece (spec : JsString) : Option Piece :=
  match splitUnit (unit '=') spec with
  | [] | [_] => if spec = [] then none else some (.brace spec)
  | name :: pattern :: _ =>
      if !config.enableWildcards then none
      else if pattern = js "*" then some (.braceStar name)
      else if pattern = js "**" then some (.braceDoubleStar name)
      else none

/-- The parts of a template, left to right. Braces and parentheses that do not spell a parameter
would be read as a part of the regular expression: such a template is refused. -/
def scan : Option UInt16 → ℕ → JsString → Option (List Piece)
  | _, _, [] => some []
  | _, skip + 1, u :: rest => scan (some u) skip rest
  | previous, 0, u :: rest =>
      match braceSpec (u :: rest), colonName previous (u :: rest) with
      | some spec, _ => do
          let piece ← bracePiece config spec
          return piece :: (← scan (some u) (spec.length + 1) rest)
      | none, some name => return .colon name :: (← scan (some u) name.length rest)
      | none, none =>
          if u = unit '*' then
            if !config.enableWildcards then none
            else if rest.head? = some (unit '*') then
              return .doubleStar :: (← scan (some u) 1 rest)
            else return .star :: (← scan (some u) 0 rest)
          else if u ∈ js "(){}" then none
          else return .literal u :: (← scan (some u) 0 rest)

/-- A part of a pattern: a letter, or a number of nested groups around `[^/]+` or `.*`. -/
inductive Node where
  | char (u : UInt16)
  | segment (groups : ℕ)
  | any (groups : ℕ)
  deriving DecidableEq, Repr

def Piece.node : Piece → Node
  | .literal u => .char u
  | .colon _ | .brace _ | .star => .segment 1
  | .braceStar _ => .segment 2
  | .braceDoubleStar _ => .any 2
  | .doubleStar => .any 1

def Piece.bracedName : Piece → Option JsString
  | .brace name | .braceStar name | .braceDoubleStar name => some name
  | _ => none

def Piece.colonName : Piece → Option JsString
  | .colon name => some name
  | _ => none

structure Regex where
  pattern : List Node
  paramNames : List JsString
  deriving DecidableEq, Repr

/-- The source replaces the parameters in braces before those with a colon, and so it lists their
names first. A template that spells out the placeholder of `**` is refused as well. -/
def pathToRegex (path : JsString) : Option Regex :=
  if includes path (js "DOUBLE_WILDCARD") then none
  else
    (scan config none 0 path).map fun pieces =>
      { pattern := pieces.map Piece.node
        paramNames := pieces.filterMap Piece.bracedName ++ pieces.filterMap Piece.colonName }

/-- Case folding of the flag `i`, for a request path, which has only ASCII letters. -/
def foldCase (u : UInt16) : UInt16 :=
  if !config.caseSensitive && 65 ≤ u && u ≤ 90 then u + 32 else u

/-- A code unit that `.` does not match. -/
def isLineTerminator (u : UInt16) : Bool := u = 10 || u = 13 || u = 0x2028 || u = 0x2029

/-- `pattern.exec(text)` between anchors: the groups of the first match, the longest one tried first
by each group in turn. -/
def exec : List Node → JsString → Option (List JsString)
  | [], text => if text = [] then some [] else none
  | .char _ :: _, [] => none
  | .char u :: pattern, v :: text =>
      if foldCase config u = foldCase config v then exec pattern text else none
  | .segment groups :: pattern, text =>
      (List.range (text.takeWhile (· ≠ unit '/')).length).reverse.findSome? fun k =>
        (exec pattern (text.drop (k + 1))).map (List.replicate groups (text.take (k + 1)) ++ ·)
  | .any groups :: pattern, text =>
      (List.range ((text.takeWhile (!isLineTerminator ·)).length + 1)).reverse.findSome? fun k =>
        (exec pattern (text.drop k)).map (List.replicate groups (text.take k) ++ ·)

/-! ## Matching -/

/-- A segment without a parameter at its start or in braces. -/
def isStaticSegment (segment : JsString) : Bool :=
  !includes segment [unit '\x7b'] && !startsWith segment [unit ':']

def totalSegments (path : JsString) : ℕ := (splitUnit (unit '/') path).length

def staticSegments (path : JsString) : ℕ :=
  ((splitUnit (unit '/') path).filter isStaticSegment).length

/-- `(staticSegments / totalSegments) * 100 + routePath.length * 0.01`, in doubles. -/
def score (path : JsString) : ℚ :=
  double (double (double (staticSegments path / totalSegments path) * 100) +
    double (path.length * double (1 / 100)))

/-- The parameters, in the order in which they are set, and the score. -/
def matchPath (routePath requestPath : JsString) : Option (List (JsString × JsString) × ℚ) := do
  let regex ← pathToRegex config routePath
  let groups ← exec config regex.pattern requestPath
  return (regex.paramNames.zip groups, score routePath)

structure RouteMatch (Handler : Type) where
  route : RouteDefinition Handler
  params : List (JsString × JsString)
  score : ℚ
  deriving DecidableEq

def matchRoute (route : RouteDefinition Handler) (requestPath : JsString) :
    Option (RouteMatch Handler) :=
  (matchPath config route.path requestPath).map fun (params, score) => ⟨route, params, score⟩

/-! ## The route table -/

structure RequestRouter (Handler : Type) where
  routes : JsString → Option (RouteDefinition Handler)
  routeIdsByPathKey : JsString → Option JsString
  methodRoutes : HttpMethod → List (RouteDefinition Handler)

/-- A new router. -/
def emptyRouter : RequestRouter Handler where
  routes _ := none
  routeIdsByPathKey _ := none
  methodRoutes _ := []

/-- One turn of the loop of `findRoute`, with the best match so far and its score. -/
def better (best : Option (RouteMatch Handler) × ℚ) (found : Option (RouteMatch Handler)) :
    Option (RouteMatch Handler) × ℚ :=
  match found with
  | some found => if best.2 < found.score then (some found, found.score) else best
  | none => best

/-- The loop of `findRoute` over the routes of a method. -/
def selectRoute (routes : List (RouteDefinition Handler)) (requestPath : JsString) :
    Option (RouteMatch Handler) :=
  (routes.foldl (fun best route => better best (matchRoute config route requestPath))
    (none, -1)).1

def findRoute (router : RequestRouter Handler) (method : HttpMethod) (requestPath : JsString) :
    Option (RouteMatch Handler) :=
  selectRoute config (router.methodRoutes method) requestPath

/-- The path that the routes are matched against, for the path name of a request. -/
def requestPath (pathname : JsString) : JsString :=
  if config.enablePathNormalization then normalizeRequestPath config pathname else pathname

/-! ### Registration -/

/-- The texts between braces. -/
def braceSpecs : ℕ → JsString → List JsString
  | _, [] => []
  | skip + 1, _ :: rest => braceSpecs skip rest
  | 0, u :: rest =>
      match braceSpec (u :: rest) with
      | some spec => spec :: braceSpecs (spec.length + 1) rest
      | none => braceSpecs 0 rest

def validateParamSpec (spec : JsString) : Except JsString Unit :=
  if trim spec = [] then .error (js "Empty parameter name")
  else
    match splitUnit (unit '=') spec with
    | [] | [_] => .ok ()
    | name :: pattern :: _ =>
        if trim name = [] ∨ trim pattern = [] then
          .error (js "Invalid parameter syntax: \x7b" ++ spec ++ js "\x7d")
        else if (includes pattern [unit '('] ∨ includes pattern [unit '[']) ∧
            !builtins.isRegExp pattern then
          .error (js "Invalid parameter pattern: " ++ pattern)
        else .ok ()

def validatePathSyntax (path : JsString) : Except JsString Unit :=
  if !startsWith path [unit '/'] then .error (js "Path must start with /")
  else (braceSpecs 0 path).forM (validateParamSpec builtins)

/-- The checks of the method and of the handler are those of their types. -/
def validateRoute (router : RequestRouter Handler) (route : RouteDefinition Handler) :
    Except JsString Unit :=
  if route.id = [] then .error (js "Route ID is required")
  else if route.path = [] then .error (js "Route path is required")
  else if (router.routes route.id).isSome then
    .error (js "Route with ID '" ++ route.id ++ js "' already exists")
  else if config.maxParams < route.parameters.length then
    .error (js "Too many parameters. Maximum allowed: " ++ decimal config.maxParams)
  else if [] ∈ route.parameters then .error (js "Parameter name is required")
  else validatePathSyntax builtins route.path

def validateNoPathConflict (router : RequestRouter Handler) (route : RouteDefinition Handler)
    (normalizedPath : JsString) : Except JsString Unit :=
  match router.routeIdsByPathKey (pathKey builtins config route.method normalizedPath) with
  | some existingRouteId =>
      if existingRouteId = [] then .ok ()
      else
        .error (js "Route '" ++ route.id ++ js "' conflicts with '" ++ existingRouteId ++ js "': " ++
          route.method.text ++ js " " ++ normalizedPath ++ js " is already registered")
  | none => .ok ()

/-- The path that a route is registered with. -/
def registeredPath (path : JsString) : JsString :=
  if config.enablePathNormalization then normalizeRoutePath builtins config path else path

def addRoute (router : RequestRouter Handler) (route : RouteDefinition Handler) :
    Except JsString (RequestRouter Handler) := do
  validateRoute builtins config router route
  let normalizedPath := registeredPath builtins config route.path
  validateNoPathConflict builtins config router route normalizedPath
  let normalizedRoute := { route with path := normalizedPath }
  return {
    routes := Function.update router.routes route.id (some normalizedRoute)
    routeIdsByPathKey := Function.update router.routeIdsByPathKey
      (pathKey builtins config route.method normalizedPath) (some route.id)
    methodRoutes := Function.update router.methodRoutes route.method
      (router.methodRoutes route.method ++ [normalizedRoute]) }

def removeRoute (router : RequestRouter Handler) (routeId : JsString) :
    RequestRouter Handler × Bool :=
  match router.routes routeId with
  | none => (router, false)
  | some route =>
      ({ routes := Function.update router.routes routeId none
         routeIdsByPathKey := Function.update router.routeIdsByPathKey
           (pathKey builtins config route.method route.path) none
         methodRoutes := Function.update router.methodRoutes route.method
           ((router.methodRoutes route.method).eraseP fun other => other.id = routeId) }, true)

end Kinglet.Gateway
