import Kinglet.Armor.RateLimit
import Kinglet.Js.Separators

/-!
# Header normalisation

`normalizeHeaders` gathers the headers of a request in an object literal. Names are written in
lower case, and the values of one name are joined by commas.

An object literal also answers for the members it inherits. Two of them have names without capital
letters, `constructor` and `__proto__`, and these are what separates a lookup from the headers that
were sent: `headers_lookup_iff` has the exact condition.
-/

namespace Kinglet.Armor

open Js

/-! ## Normalisation -/

/-- A header value as it is handed in. -/
inductive HeaderValue where
  | text (value : JsString)
  | list (values : List JsString)

def HeaderValue.piece : HeaderValue → JsString
  | .text value => value
  | .list values => join (js ",") values

/-- `headers[key] = existing != null ? existing,piece : piece`. -/
def mergeHeader (host : Host) (headers : List (JsString × JsString)) (key piece : JsString) :
    List (JsString × JsString) :=
  match headerText host headers key with
  | some existing => assignField key (existing ++ js "," ++ piece) headers
  | none => assignField key piece headers

/-- `normalizeHeaders` of the entries of its input; a value may be `undefined`. -/
def normalizeHeaders (host : Host) (input : List (JsString × Option HeaderValue)) :
    List (JsString × JsString) :=
  input.foldl (fun headers (rawKey, rawValue) =>
    match rawValue with
    | none => headers
    | some value => mergeHeader host headers (host.toLowerCase rawKey) value.piece) []

/-! ## What a lookup should give -/

/-- The values sent under a name, in order. -/
def sentPieces (host : Host) (input : List (JsString × Option HeaderValue)) (name : JsString) :
    List JsString :=
  input.filterMap fun (rawKey, rawValue) =>
    if host.toLowerCase rawKey = name then rawValue.map HeaderValue.piece else none

/-- The comma-join of the values sent under a name, `none` for a name that was not sent. -/
def sentHeader (host : Host) (input : List (JsString × Option HeaderValue)) (name : JsString) :
    Option JsString :=
  if sentPieces host input name = [] then none
  else some (join (js ",") (sentPieces host input name))

/-- What reading a property of the headers gives: a text of its own or an inherited member. -/
inductive HeaderRead where
  | text (value : JsString)
  | inherited (name : JsString)
deriving DecidableEq

/-- `headers[name]`. -/
def readHeader (host : Host) (headers : List (JsString × JsString)) (name : JsString) :
    Option HeaderRead :=
  (headers.lookup name).map .text <|> (host.inheritedText name).map fun _ => .inherited name

/-! ## The members of `Object.prototype` -/

/-- The names every object literal answers for. -/
def objectMembers : List JsString :=
  ["constructor", "__proto__", "__defineGetter__", "__defineSetter__", "__lookupGetter__",
    "__lookupSetter__", "hasOwnProperty", "isPrototypeOf", "propertyIsEnumerable",
    "toLocaleString", "toString", "valueOf"].map js

/-- Those without capital letters. -/
def lowerMembers : List JsString := ["constructor", "__proto__"].map js

def isCapital (u : UInt16) : Bool := 65 ≤ u && u ≤ 90

/-- What the standard says of a host: which members are inherited, and that lower case has no
capital letters. -/
structure Standard (host : Host) : Prop where
  members : ∀ name, (host.inheritedText name).isSome ↔ name ∈ objectMembers
  lower : ∀ text, (host.toLowerCase text).all (fun u => !isCapital u) = true

variable {host : Host}

theorem Standard.mem_lowerMembers (hhost : Standard host) {raw : JsString} :
    (host.inheritedText (host.toLowerCase raw)).isSome ↔
      host.toLowerCase raw ∈ lowerMembers := by
  have hlower := hhost.lower raw
  rw [hhost.members]
  generalize host.toLowerCase raw = name at hlower ⊢
  constructor
  · intro hmem
    -- all members but two have a capital letter
    have hcapital : ∀ member ∈ objectMembers, member ∉ lowerMembers →
        member.all (fun u => !isCapital u) = false := by decide
    by_contra hnot
    rw [hcapital name hmem hnot] at hlower
    exact absurd hlower (by decide)
  · intro hmem
    have hsub : ∀ member ∈ lowerMembers, member ∈ objectMembers := by decide
    exact hsub name hmem

/-! ## The fields built up -/

theorem join_append_singleton {separator : JsString} {parts : List JsString} (hne : parts ≠ [])
    (part : JsString) :
    join separator (parts ++ [part]) = join separator parts ++ separator ++ part := by
  induction parts with
  | nil => exact absurd rfl hne
  | cons first parts ih =>
      cases parts with
      | nil => simp [join]
      | cons second parts =>
          have hrest := ih (List.cons_ne_nil second parts)
          rw [List.cons_append, List.cons_append, join_cons_cons, join_cons_cons,
            ← List.cons_append, hrest]
          simp only [List.append_assoc]

/-- The own field of a name: what it inherits, when there is such a member, comes first. -/
def builtHeader (host : Host) (input : List (JsString × Option HeaderValue)) (name : JsString) :
    Option JsString :=
  if sentPieces host input name = [] then none
  else some (join (js ",") ((host.inheritedText name).toList ++ sentPieces host input name))

theorem sentPieces_append (input more : List (JsString × Option HeaderValue)) (name : JsString) :
    sentPieces host (input ++ more) name =
      sentPieces host input name ++ sentPieces host more name := List.filterMap_append ..

/-- One more value under the name itself. -/
theorem lookup_mergeHeader_same {headers : List (JsString × JsString)}
    {input : List (JsString × Option HeaderValue)} {name piece : JsString}
    (hproto : name ≠ js "__proto__") (h : headers.lookup name = builtHeader host input name) :
    (mergeHeader host headers name piece).lookup name =
      some (join (js ",") ((host.inheritedText name).toList ++
        (sentPieces host input name ++ [piece]))) := by
  unfold mergeHeader headerText
  rw [h, builtHeader]
  by_cases hsent : sentPieces host input name = []
  · rw [if_pos hsent, hsent]
    cases host.inheritedText name with
    | none => simp [assignField, hproto, lookup_setField, join]
    | some existing => simp [assignField, hproto, lookup_setField, join]
  · rw [if_neg hsent, ← List.append_assoc, join_append_singleton (by simp [hsent])]
    simp [assignField, hproto, lookup_setField]

theorem lookup_mergeHeader_other {headers : List (JsString × JsString)} {name other : JsString}
    (hne : other ≠ name) (piece : JsString) :
    (mergeHeader host headers name piece).lookup other = headers.lookup other := by
  unfold mergeHeader
  split <;>
    (unfold assignField; split
     · rfl
     · rw [lookup_setField, if_neg hne])

theorem lookup_mergeHeader_proto (headers : List (JsString × JsString)) (name piece : JsString) :
    (mergeHeader host headers name piece).lookup (js "__proto__") =
      headers.lookup (js "__proto__") := by
  by_cases hname : name = js "__proto__"
  · subst hname
    unfold mergeHeader
    split <;> rfl
  · exact lookup_mergeHeader_other (fun h => hname h.symm) piece

/-- **The own field of each name** after all headers. -/
theorem lookup_normalizeHeaders {name : JsString} (hproto : name ≠ js "__proto__")
    (input : List (JsString × Option HeaderValue)) :
    (normalizeHeaders host input).lookup name = builtHeader host input name := by
  induction input using List.reverseRecOn with
  | nil => rfl
  | append_singleton input header ih =>
      obtain ⟨rawKey, rawValue⟩ := header
      have hstep : normalizeHeaders host (input ++ [(rawKey, rawValue)]) =
          match rawValue with
          | none => normalizeHeaders host input
          | some value => mergeHeader host (normalizeHeaders host input)
              (host.toLowerCase rawKey) value.piece := by
        rw [normalizeHeaders, List.foldl_append]
        rfl
      rw [hstep, builtHeader, sentPieces_append]
      cases rawValue with
      | none =>
          have hnone : sentPieces host [(rawKey, none)] name = [] := by simp [sentPieces]
          rw [hnone, List.append_nil]
          exact ih
      | some value =>
          by_cases hkey : host.toLowerCase rawKey = name
          · have hone : sentPieces host [(rawKey, some value)] name = [value.piece] := by
              simp [sentPieces, hkey]
            rw [hone, if_neg (by simp)]
            dsimp only
            rw [hkey]
            exact lookup_mergeHeader_same hproto ih
          · have hnone : sentPieces host [(rawKey, some value)] name = [] := by
              simp [sentPieces, hkey]
            rw [hnone, List.append_nil]
            dsimp only
            rw [lookup_mergeHeader_other fun h => hkey h.symm]
            exact ih

/-- No header becomes a field `__proto__`. -/
theorem lookup_normalizeHeaders_proto (input : List (JsString × Option HeaderValue)) :
    (normalizeHeaders host input).lookup (js "__proto__") = none := by
  induction input using List.reverseRecOn with
  | nil => rfl
  | append_singleton input header ih =>
      obtain ⟨rawKey, rawValue⟩ := header
      rw [normalizeHeaders, List.foldl_append]
      cases rawValue with
      | none => exact ih
      | some value =>
          rw [← normalizeHeaders]
          exact (lookup_mergeHeader_proto _ _ _).trans ih

/-! ## Lookups -/

/-- A name that nothing inherits is answered by what was sent. -/
theorem lookup_of_not_inherited {name : JsString} (hnone : host.inheritedText name = none)
    (hproto : name ≠ js "__proto__") (input : List (JsString × Option HeaderValue)) :
    (normalizeHeaders host input).lookup name = sentHeader host input name := by
  rw [lookup_normalizeHeaders hproto, builtHeader, hnone]
  rfl

/-- What is inherited is answered, alone or in front of what was sent. -/
theorem readHeader_of_inherited {name : JsString} (hsome : (host.inheritedText name).isSome)
    (input : List (JsString × Option HeaderValue)) :
    readHeader host (normalizeHeaders host input) name ≠
      (sentHeader host input name).map .text := by
  obtain ⟨existing, hexisting⟩ := Option.isSome_iff_exists.1 hsome
  intro hread
  unfold readHeader at hread
  by_cases hproto : name = js "__proto__"
  · subst hproto
    rw [lookup_normalizeHeaders_proto, hexisting] at hread
    cases hsent : sentHeader host input (js "__proto__") with
    | none => rw [hsent] at hread; cases hread
    | some value => rw [hsent] at hread; cases hread
  · rw [lookup_normalizeHeaders hproto, builtHeader, sentHeader, hexisting] at hread
    by_cases hpieces : sentPieces host input name = []
    · rw [if_pos hpieces, if_pos hpieces] at hread
      cases hread
    · rw [if_neg hpieces, if_neg hpieces] at hread
      obtain ⟨piece, pieces, hcons⟩ := List.exists_cons_of_ne_nil hpieces
      have htext : join (js ",") (existing :: piece :: pieces) = join (js ",") (piece :: pieces) := by
        rw [hcons] at hread
        exact HeaderRead.text.inj (Option.some.inj hread)
      have hlength := congrArg List.length htext
      rw [join_cons_cons, List.length_append, List.length_append] at hlength
      have hcomma : (js ",").length = 1 := rfl
      omega

/-- The header component of a key is `ALL` exactly when the lookup finds nothing. -/
theorem componentKey_header_eq_all_iff {raw : JsString} (hraw : raw ≠ [])
    (attributes : RequestAttributes) :
    componentKey host (js "HTTP_HEADER") (some raw) attributes = js "ALL" ↔
      headerText host attributes.request.headers (host.toLowerCase raw) = none := by
  have hlabel : ∀ rest : JsString, js "HTTP_HEADER:" ++ rest ≠ js "ALL" := by
    intro rest h
    have hlength := congrArg List.length h
    rw [List.length_append] at hlength
    have hlong : (js "HTTP_HEADER:").length = 12 := rfl
    have hshort : (js "ALL").length = 3 := rfl
    omega
  have hkey : componentKey host (js "HTTP_HEADER") (some raw) attributes =
      match headerText host attributes.request.headers (host.toLowerCase raw) with
      | some value => js "HTTP_HEADER:" ++ host.toLowerCase raw ++ js "=" ++ truncateKey value
      | none => js "ALL" := by
    unfold componentKey
    rw [if_neg (by decide), if_neg (by decide), if_neg (by decide), if_neg (by decide),
      if_pos rfl, Option.getD_some]
    cases headerText host attributes.request.headers (host.toLowerCase raw) with
    | none => rfl
    | some value => exact if_neg hraw
  rw [hkey]
  cases headerText host attributes.request.headers (host.toLowerCase raw) with
  | none => exact iff_of_true rfl rfl
  | some value =>
      refine iff_of_false (fun h => ?_) nofun
      simp only [List.append_assoc] at h
      exact hlabel _ h

/-! ## The condition -/

/-- **Header lookups**: a lower-case name is answered by the comma-join of what was sent under it,
and a rate-limit key by header is `ALL` for the names that were not sent, exactly when the name is
not one of the two inherited names in lower case. -/
theorem headers_lookup_iff (hhost : Standard host)
    (input : List (JsString × Option HeaderValue)) (raw : JsString) :
    (readHeader host (normalizeHeaders host input) (host.toLowerCase raw) =
        (sentHeader host input (host.toLowerCase raw)).map .text ∧
      (raw ≠ [] → ∀ attributes : RequestAttributes,
        attributes.request.headers = normalizeHeaders host input →
          (componentKey host (js "HTTP_HEADER") (some raw) attributes = js "ALL" ↔
            sentHeader host input (host.toLowerCase raw) = none))) ↔
      host.toLowerCase raw ∉ lowerMembers := by
  rw [← hhost.mem_lowerMembers]
  constructor
  · rintro ⟨hread, -⟩ hsome
    exact readHeader_of_inherited hsome input hread
  · intro hnot
    have hnone : host.inheritedText (host.toLowerCase raw) = none :=
      Option.not_isSome_iff_eq_none.1 hnot
    have hproto : host.toLowerCase raw ≠ js "__proto__" := by
      intro h
      rw [hhost.mem_lowerMembers, h] at hnot
      exact hnot (by decide)
    have hlookup := lookup_of_not_inherited hnone hproto input
    refine ⟨?_, fun hraw attributes hheaders => ?_⟩
    · rw [readHeader, hlookup, hnone]
      cases sentHeader host input (host.toLowerCase raw) <;> rfl
    · rw [componentKey_header_eq_all_iff hraw, hheaders, headerText, hlookup, hnone]
      cases sentHeader host input (host.toLowerCase raw) <;> simp

/-- A host whose object literals inherit what the standard lists. -/
def standardHost : Host :=
  { asciiHost with
    inheritedText name :=
      if name = js "__proto__" then some "[object Object]"
      else if name ∈ objectMembers then
        some (js "function " ++ (if name = js "constructor" then js "Object" else name) ++
          js "() \x7b\n    [native code]\n\x7d")
      else none }

theorem standard_standardHost : Standard standardHost where
  members name := by
    have hproto : js "__proto__" ∈ objectMembers := by decide
    by_cases hname : name = js "__proto__"
    · simp [standardHost, hname, hproto]
    · by_cases hmem : name ∈ objectMembers <;> simp [standardHost, hname, hmem]
  lower text := by
    rw [List.all_eq_true]
    intro u hu
    obtain ⟨v, -, rfl⟩ := List.mem_map.1 hu
    change (!isCapital (if isCapital v then v + 32 else v)) = true
    cases hcapital : isCapital v with
    | false => simp [hcapital]
    | true =>
        simp only [isCapital, Bool.and_eq_true, decide_eq_true_eq, UInt16.le_iff_toNat_le,
          UInt16.reduceToNat] at hcapital
        have hvalue : (v + 32).toNat = v.toNat + 32 := by
          rw [UInt16.toNat_add]
          simp only [UInt16.reduceToNat]
          omega
        have hlarge : ¬ v.toNat + 32 ≤ 90 := by omega
        simp [isCapital, UInt16.le_iff_toNat_le, hvalue, hlarge]

theorem headers_lookup_iff_accept :
    (readHeader standardHost (normalizeHeaders standardHost
          [("Accept", some (.text "a")), ("X", none), ("ACCEPT", some (.list ["b", "c"]))])
          (standardHost.toLowerCase "Accept") =
        (sentHeader standardHost
          [("Accept", some (.text "a")), ("X", none), ("ACCEPT", some (.list ["b", "c"]))]
          (standardHost.toLowerCase "Accept")).map .text) ∧
      sentHeader standardHost
        [("Accept", some (.text "a")), ("X", none), ("ACCEPT", some (.list ["b", "c"]))]
        (standardHost.toLowerCase "Accept") = some "a,b,c" :=
  ⟨((headers_lookup_iff standard_standardHost
      [("Accept", some (.text "a")), ("X", none), ("ACCEPT", some (.list ["b", "c"]))]
      "Accept").2 (by decide)).1, by decide⟩

/-- Without any header the name `constructor` is answered, and a key by that header is not `ALL`;
a header of that name comes back behind the text of the inherited function, and one named
`__proto__` is lost. -/
theorem not_headers_lookup :
    ¬ (∀ input raw,
        readHeader standardHost (normalizeHeaders standardHost input)
            (standardHost.toLowerCase raw) =
          (sentHeader standardHost input (standardHost.toLowerCase raw)).map .text) ∧
      readHeader standardHost (normalizeHeaders standardHost []) "constructor" =
        some (.inherited "constructor") ∧
      sentHeader standardHost [] "constructor" = none ∧
      componentKey standardHost "HTTP_HEADER" (some "constructor") sampleRequest =
        js "HTTP_HEADER:constructor=function Object() \x7b\n    [native code]\n\x7d" ∧
      (normalizeHeaders standardHost [("constructor", some (.text "v"))]).lookup
          (js "constructor") = some (js "function Object() \x7b\n    [native code]\n\x7d,v") ∧
      readHeader standardHost
          (normalizeHeaders standardHost [("__proto__", some (.text "v"))]) "__proto__" =
        some (.inherited "__proto__") ∧
      sentHeader standardHost [("__proto__", some (.text "v"))] "__proto__" = some "v" := by
  refine ⟨fun h => ?_, ?_, ?_, ?_, ?_, ?_, ?_⟩
  · exact absurd (h [] "constructor") (by decide)
  all_goals decide

end Kinglet.Armor
