import Kinglet.Armor.Types
import Kinglet.Js.Json

/-!
# The request view

IP addresses and ranges, query and body parameters, and the view a body-phase rule gets: the body
cut at the inspection limit with its parameters built anew.
-/

namespace Kinglet.Armor

open Js

/-! ## IP addresses -/

def stripBrackets (value : JsString) : JsString :=
  if startsWith value (js "[") && endsWith value (js "]") then (value.drop 1).dropLast else value

def stripZone (value : JsString) : JsString := value.takeWhile (· ≠ unit '%')

/-- One octet: one to three digits, no leading zero, at most 255. -/
def parseOctet (raw : JsString) : Option ℕ :=
  if raw = [] || 3 < raw.length || !raw.all isDigit then none
  else if 1 < raw.length && startsWith raw (js "0") then none
  else if 255 < digitsValue raw then none
  else some (digitsValue raw)

def parseIpv4 (value : JsString) : Option (ℕ × ℕ × ℕ × ℕ) :=
  match splitUnit (unit '.') value with
  | [a, b, c, d] => do
      return (← parseOctet a, ← parseOctet b, ← parseOctet c, ← parseOctet d)
  | _ => none

/-- One group: one to four hexadecimal digits. -/
def parseHexGroup (part : JsString) : Option ℕ := do
  let digits ← part.mapM hexValue
  if digits = [] || 4 < digits.length then none
  else return digits.foldl (fun n d => 16 * n + d) 0

def parseHexGroups (parts : List JsString) : Option (List ℕ) := do
  let groups ← parts.mapM parseHexGroup
  if groups.length ≠ 8 then none else return groups

/-- An IPv6 text without an embedded IPv4 address. -/
def parseIpv6Plain (ip : JsString) : Option (List ℕ) :=
  if includes ip (js ":::") then none
  else
    match splitPair (unit ':') ip with
    | [_] => parseHexGroups (splitUnit (unit ':') ip)
    | [leftRaw, rightRaw] =>
        let left := if leftRaw = [] then [] else splitUnit (unit ':') leftRaw
        let right := if rightRaw = [] then [] else splitUnit (unit ':') rightRaw
        if left.any (· = []) || right.any (· = []) then none
        else
          let missing : ℤ := 8 - left.length - right.length
          if missing < 1 then none
          else parseHexGroups (left ++ List.replicate missing.toNat (js "0") ++ right)
    | _ => none

/-- `parseIpv6Groups` and `parseIpv6Mapped`, which call each other: a text with a dot ends in an
IPv4 address that becomes the last two groups. The inner call gets a text ending in `:0:0`, so a
third one could only fail. -/
def parseIpv6Nested : ℕ → JsString → Option (List ℕ)
  | 0, _ => none
  | depth + 1, value =>
      let ip := stripZone (stripBrackets value)
      if unit '.' ∈ ip then do
        let (head, last) ← cutLast (unit ':') ip
        let (a, b, c, d) ← parseIpv4 last
        let groups ← parseIpv6Nested depth (head ++ js ":0:0")
        return groups.take 6 ++ [a * 256 + b, c * 256 + d]
      else parseIpv6Plain ip

def parseIpv6Groups (value : JsString) : Option (List ℕ) := parseIpv6Nested 3 value

def isValidIp (value : JsString) : Bool :=
  (parseIpv4 value).isSome || (parseIpv6Groups value).isSome

/-- The start and length of the longest run of zero groups, the first of several: the loop of
`formatIpv6`, `start` and `length` being those of the run that ends here. -/
def longestZeroRun : ℕ → ℕ → ℕ → ℕ × ℕ → List ℕ → ℕ × ℕ
  | _, start, length, best, [] => if best.2 < length then (start, length) else best
  | i, start, length, best, g :: groups =>
      if g = 0 then
        longestZeroRun (i + 1) (if length = 0 then i else start) (length + 1) best groups
      else
        longestZeroRun (i + 1) start 0 (if best.2 < length then (start, length) else best) groups

def formatIpv6 (groups : List ℕ) : JsString :=
  let hex := fun gs : List ℕ => join (js ":") (gs.map (natText 16))
  match groups with
  | [0, 0, 0, 0, 0, 0xFFFF, g, h] =>
      js "::ffff:" ++ join (js ".") ([g / 256, g % 256, h / 256, h % 256].map decimal)
  | _ =>
      let (start, length) := longestZeroRun 0 0 0 (0, 0) groups
      if length < 2 then hex groups
      else hex (groups.take start) ++ js "::" ++ hex (groups.drop (start + length))

/-- `canonicalizeIp`, `none` when it throws. -/
def canonicalizeIp (value : JsString) : Option JsString :=
  let trimmed := stripZone (stripBrackets (trim value))
  match parseIpv4 trimmed with
  | some (a, b, c, d) => some (join (js ".") ([a, b, c, d].map decimal))
  | none => (parseIpv6Groups trimmed).map formatIpv6

/-- The first part of a comma-separated header that is an address. -/
def parseFirstValidIp (value : JsString) : Option JsString :=
  (splitUnit (unit ',') value).findSome? fun part =>
    let candidate := stripBrackets (trim part)
    if candidate ≠ [] && isValidIp candidate then canonicalizeIp candidate else none

/-! ## Address ranges -/

inductive Cidr where
  | v4 (network : ℕ) (prefixLength : ℕ)
  | v6 (network : ℕ) (prefixLength : ℕ)

def ipv4ToInt : ℕ × ℕ × ℕ × ℕ → ℕ
  | (a, b, c, d) => a * 2 ^ 24 + b * 2 ^ 16 + c * 2 ^ 8 + d

def ipv6ToBigint (groups : List ℕ) : ℕ := groups.foldl (fun n g => n * 2 ^ 16 + g) 0

def parsePrefixLength (raw : Option JsString) (max : ℕ) : Option ℕ :=
  match raw with
  | none => some max
  | some digits =>
      if digits = [] || !digits.all isDigit || max < digitsValue digits then none
      else some (digitsValue digits)

def parseCidr (cidr : JsString) : Option Cidr :=
  let trimmed := trim cidr
  let (addr, prefixRaw) := match cutLast (unit '/') trimmed with
    | none => (trimmed, none)
    | some (addr, raw) => (addr, some raw)
  match parseIpv4 addr with
  | some octets => (parsePrefixLength prefixRaw 32).map (.v4 (ipv4ToInt octets))
  | none =>
      match parseIpv6Groups addr with
      | some groups => (parsePrefixLength prefixRaw 128).map (.v6 (ipv6ToBigint groups))
      | none => none

def isValidCidr (range : JsString) : Bool := (parseCidr range).isSome

/-- The 32-bit mask of a prefix length: a shift of 32 would be a shift of 0, hence the first case. -/
def mask4 (prefixLength : ℕ) : BitVec 32 :=
  if prefixLength = 0 then 0 else BitVec.allOnes 32 <<< (32 - prefixLength)

def mask6 (prefixLength : ℕ) : ℕ :=
  if prefixLength = 0 then 0
  else if 128 ≤ prefixLength then 2 ^ 128 - 1
  else (2 ^ prefixLength - 1) <<< (128 - prefixLength)

def ipInCidr (ip cidr : JsString) : Bool :=
  match parseCidr cidr with
  | none => false
  | some (.v4 network prefixLength) =>
      match parseIpv4 (stripBrackets (trim ip)) with
      | none => false
      | some addr =>
          BitVec.ofNat 32 (ipv4ToInt addr) &&& mask4 prefixLength =
            BitVec.ofNat 32 network &&& mask4 prefixLength
  | some (.v6 network prefixLength) =>
      match parseIpv6Groups (stripZone (stripBrackets (trim ip))) with
      | none => false
      | some groups =>
          ipv6ToBigint groups &&& mask6 prefixLength = network &&& mask6 prefixLength

/-! ## Form parameters -/

/-- A code unit, or a byte written as `%XX`. -/
inductive UriPiece where
  | byte (b : ℕ)
  | code (u : UInt16)

/-- The pieces of a percent-encoded text, `none` where `decodeURIComponent` throws. -/
def uriPieces : JsString → Option (List UriPiece)
  | [] => some []
  | 37 :: a :: b :: rest => do
      let byte := (← hexValue a) * 16 + (← hexValue b)
      return .byte byte :: (← uriPieces rest)
  | u :: rest => if u = 37 then none else (uriPieces rest).map (.code u :: ·)

/-- Every run of bytes must be UTF-8. -/
def decodePieces : List ℕ → List UriPiece → Option JsString
  | bytes, [] => (decodeRun bytes)
  | bytes, .byte b :: pieces => decodePieces (bytes ++ [b]) pieces
  | bytes, .code u :: pieces => do return (← decodeRun bytes) ++ u :: (← decodePieces [] pieces)
where
  decodeRun (bytes : List ℕ) : Option JsString :=
    ((decodePoints none bytes).mapM id).map fun points => points.flatMap fromCodePoint

/-- `decodeURIComponent(text)`, `none` when it throws. -/
def decodeURIComponent (text : JsString) : Option JsString :=
  (uriPieces text).bind (decodePieces [])

def decodeFormComponent (value : JsString) : JsString :=
  (decodeURIComponent (value.map fun u => if u = unit '+' then 32 else u)).getD value

def parseForm (raw : JsString) : List (JsString × JsString) :=
  (splitUnit (unit '&') raw).foldl (fun out part =>
    if part = [] then out
    else
      let (rawName, rawValue) := cut (unit '=') part
      assignField (decodeFormComponent rawName) (decodeFormComponent (rawValue.getD [])) out) []

def stripQueryPrefix (query : JsString) : JsString :=
  if startsWith query (js "?") then query.drop 1 else query

/-! ## JSON parameters -/

def jsonParamString : JsValue → Option JsString
  | .undefined | .null => none
  | .str s => some s
  | .num x => some (numText x)
  | .bool b => some (if b then js "true" else js "false")
  | value => jsonStringify value

def stringifyJsonObject : JsValue → List (JsString × JsString)
  | .obj _ fields =>
      (ownEntries fields).foldl (fun out (name, value) =>
        match jsonParamString value with
        | none => out
        | some text => assignField name text out) []
  | _ => []

/-- The length of the string literal at the front, after its opening quote; the fuel is the number
of code units left. -/
def stringLength : ℕ → JsString → Option ℕ
  | 0, _ => none
  | fuel + 1, text =>
      match text with
      | [] => none
      | 92 :: [] => none
      | 92 :: 117 :: rest =>
          if rest.length < 4 then none else (stringLength fuel (rest.drop 4)).map (· + 6)
      | 92 :: _ :: rest => (stringLength fuel rest).map (· + 2)
      | 34 :: _ => some 1
      | _ :: rest => (stringLength fuel rest).map (· + 1)

/-- `endOfJsonString`, as a length from the opening quote on. -/
def endOfJsonString (text : JsString) : Option ℕ :=
  (stringLength text.length (text.drop 1)).map (· + 1)

/-- The length up to the bracket that closes the first one; the stack holds the closers awaited. -/
def containerLength : ℕ → List UInt16 → JsString → Option ℕ
  | 0, _, _ => none
  | _ + 1, _, [] => none
  | fuel + 1, stack, u :: rest =>
      if u = unit '"' then
        match endOfJsonString (u :: rest) with
        | none => none
        | some n => (containerLength fuel stack ((u :: rest).drop n)).map (· + n)
      else if u = unit '{' then (containerLength fuel (unit '}' :: stack) rest).map (· + 1)
      else if u = unit '[' then (containerLength fuel (unit ']' :: stack) rest).map (· + 1)
      else if u = unit '}' || u = unit ']' then
        match stack with
        | [] => none
        | closer :: stack =>
            if closer ≠ u then none
            else if stack = [] then some 1
            else (containerLength fuel stack rest).map (· + 1)
      else (containerLength fuel stack rest).map (· + 1)

def endOfJsonContainer (text : JsString) : Option ℕ := containerLength text.length [] text

/-- The length of the digits after a mark that must be followed by one. -/
def digitsAfter (mark : ℕ) (rest : JsString) : Option ℕ :=
  match rest.takeWhile isDigit with
  | [] => none
  | digits => some (mark + digits.length)

/-- `endOfJsonLiteral`, as a length. -/
def endOfJsonLiteral (text : JsString) : Option ℕ :=
  if startsWith text (js "true") then some 4
  else if startsWith text (js "false") then some 5
  else if startsWith text (js "null") then some 4
  else do
    let sign := if startsWith text (js "-") then 1 else 0
    let whole := (text.drop sign).takeWhile isDigit
    if whole = [] then none
    let n := sign + if whole.head? = some 48 then 1 else whole.length
    let n ← match text.drop n with
      | 46 :: rest => (digitsAfter 1 rest).map (n + ·)
      | _ => some n
    match text.drop n with
    | e :: rest =>
        if e = unit 'e' || e = unit 'E' then
          match rest with
          | s :: rest' =>
              if s = unit '+' || s = unit '-' then (digitsAfter 2 rest').map (n + ·)
              else (digitsAfter 1 rest).map (n + ·)
          | [] => none
        else some n
    | [] => some n

/-- A value that is complete within the text, and what follows it. -/
def sliceCompleteJsonValue (text : JsString) : Option (JsValue × JsString) := do
  let first ← text.head?
  let n ←
    if first = unit '"' then endOfJsonString text
    else if first = unit '{' || first = unit '[' then endOfJsonContainer text
    else do
      let n ← endOfJsonLiteral text
      let next ← (skipJsonSpace (text.drop n)).head?
      if next = unit ',' || next = unit '}' || next = unit ']' then some n else none
  let value ← jsonParse (text.take n)
  return (value, text.drop n)

/-- The members complete within a cut-off object. -/
def truncatedMembers : ℕ → List (JsString × JsString) → JsString → List (JsString × JsString)
  | 0, out, _ => out
  | fuel + 1, out, text =>
      match skipJsonSpace text with
      | [] => out
      | u :: rest =>
          if u = unit '}' then out
          else if u = unit ',' then truncatedMembers fuel out rest
          else if u ≠ unit '"' then out
          else
            match member (u :: rest) with
            | none => out
            | some (name, value, rest) =>
                match jsonParamString value with
                | none => truncatedMembers fuel out rest
                | some text => truncatedMembers fuel (assignField name text out) rest
where
  /-- A complete name, a colon and a complete value. -/
  member (text : JsString) : Option (JsString × JsValue × JsString) := do
    let n ← endOfJsonString text
    match jsonParse (text.take n), skipJsonSpace (text.drop n) with
    | some (.str name), 58 :: rest => do
        let (value, rest) ← sliceCompleteJsonValue (skipJsonSpace rest)
        return (name, value, rest)
    | _, _ => none

def parseTruncatedJsonObject (raw : JsString) : List (JsString × JsString) :=
  match skipJsonSpace (trimStart raw) with
  | 123 :: rest => truncatedMembers (rest.length + 1) [] rest
  | _ => []

def parseJsonParams (body : JsString) : List (JsString × JsString) :=
  if trim body = [] then []
  else
    match jsonParse body with
    | some value => stringifyJsonObject value
    | none => parseTruncatedJsonObject body

/-! ## The inspected view -/

def jsonParsingEnabled : Option JsonParsing → Bool
  | some .standard | some .standardWithGraphql => true
  | _ => false

def contentMediaType (host : Host) (contentType : JsString) : JsString :=
  host.toLowerCase (trim (contentType.takeWhile (· ≠ unit ';')))

/-- `Object.assign(params, parsed)` for parsed text parameters. -/
def assignTexts (parsed : List (JsString × JsString)) (params : Fields) : Fields :=
  (ownEntries parsed).foldl (fun params (name, text) => assignField name (.str text) params) params

/-- `mergeParams` without explicit parameters: the query's, then the body's on top. -/
def mergeParams (host : Host) (query body : JsString) (headers : List (JsString × JsString))
    (jsonParsing : Option JsonParsing) : Fields :=
  let params := assignTexts (parseForm (stripQueryPrefix query)) []
  let mediaType := contentMediaType host ((headers.lookup (js "content-type")).getD [])
  if jsonParsingEnabled jsonParsing && mediaType = js "application/json" then
    assignTexts (parseJsonParams body) params
  else if mediaType = js "application/x-www-form-urlencoded" then
    assignTexts (parseForm body) params
  else params

def truncateUtf8 (value : JsString) (maxBytes : ℕ) : JsString :=
  if (encode value).length ≤ maxBytes then value else decode ((encode value).take maxBytes)

/-- The request a body-phase rule sees. -/
def withInspectedBody (host : Host) (attributes : RequestAttributes) (maxBytes : ℕ)
    (jsonParsing : Option JsonParsing) : RequestAttributes :=
  let body := truncateUtf8 attributes.request.body maxBytes
  { attributes with
    request := { attributes.request with
      body := body
      params := mergeParams host attributes.request.query body attributes.request.headers
        jsonParsing } }

end Kinglet.Armor
