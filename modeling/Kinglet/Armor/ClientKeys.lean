import Kinglet.Armor.RateLimit
import Kinglet.Js.Separators

/-!
# Client keys

What the components of a client key say of a request, and which requests share a key. The components are
joined by a bar, and the values of headers, cookies and paths may contain one.
-/

namespace Kinglet.Armor

open Js

/-! ## Components -/

/-- What one component says of a request: nothing, the client's address, or a value of its own, cut at the
limit. A component whose value is absent says nothing, or the address. -/
inductive Component where
  | all
  | address (ip : JsString)
  | value (text : JsString)
deriving DecidableEq

def component (host : Host) (type : JsString) (name : Option JsString) (attributes : RequestAttributes) :
    Component :=
  let headers := attributes.request.headers
  let named (value : Option JsString) : Component :=
    match value with
    | some text => if name.getD [] = [] then .all else .value (truncateKey text)
    | none => .all
  let present (text : JsString) : Component := if text = [] then .all else .value (truncateKey text)
  if type = "ALL" then .all
  else if type = "IP" then .address attributes.origin.ip
  else if type = "USER_IP" then
    if !attributes.origin.userIpResolved then .address attributes.origin.ip
    else .value (truncateKey attributes.origin.userIp)
  else if type = "XFF_IP" then
    match (headers.lookup (js "x-forwarded-for")).bind parseFirstValidIp with
    | none => .address attributes.origin.ip
    | some hop => .value (truncateKey hop)
  else if type = "HTTP_HEADER" then
    named (headerText host headers (host.toLowerCase (name.getD [])))
  else if type = "HTTP_COOKIE" then named (cookieValue (headers.lookup (js "cookie")) (name.getD []))
  else if type = "HTTP_PATH" then .value (truncateKey attributes.request.path)
  else if type = "SNI" then present attributes.sni
  else if type = "REGION_CODE" then .value (truncateKey attributes.origin.regionCode)
  else if type = "TLS_JA3_FINGERPRINT" then present attributes.origin.tlsJa3Fingerprint
  else if type = "TLS_JA4_FINGERPRINT" then present attributes.origin.tlsJa4Fingerprint
  else .all

/-- The label before the value of a component. -/
def componentLabel (host : Host) (type : JsString) (name : Option JsString) : JsString :=
  if type = "USER_IP" then "USER_IP:"
  else if type = "XFF_IP" then "XFF_IP:"
  else if type = "HTTP_HEADER" then js "HTTP_HEADER:" ++ host.toLowerCase (name.getD []) ++ js "="
  else if type = "HTTP_COOKIE" then js "HTTP_COOKIE:" ++ name.getD [] ++ js "="
  else if type = "HTTP_PATH" then "HTTP_PATH:"
  else if type = "SNI" then "SNI:"
  else if type = "REGION_CODE" then "REGION_CODE:"
  else if type = "TLS_JA3_FINGERPRINT" then "JA3:"
  else "JA4:"

def Component.text (host : Host) (type : JsString) (name : Option JsString) : Component → JsString
  | .all => "ALL"
  | .address ip => js "IP:" ++ ip
  | .value text => componentLabel host type name ++ text

section

variable {host : Host} {type : JsString} {name : Option JsString} {attributes : RequestAttributes}

theorem ite_text {p : Prop} [Decidable p] {key key' : JsString} {c c' : Component}
    (h : p → key = c.text host type name) (h' : key' = c'.text host type name) :
    (if p then key else key') = (if p then c else c').text host type name := by
  split
  · exact h ‹p›
  · exact h'

/-- A key is the text of its component. -/
theorem componentKey_eq :
    componentKey host type name attributes =
      (component host type name attributes).text host type name := by
  unfold componentKey component
  dsimp only
  refine ite_text (fun _ => rfl) <| ite_text (fun _ => rfl) <| ite_text ?userIp <| ite_text ?xffIp <|
    ite_text ?header <| ite_text ?cookie <| ite_text ?path <| ite_text ?sni <| ite_text ?region <|
    ite_text ?ja3 <| ite_text ?ja4 rfl
  case userIp =>
    rintro rfl
    exact ite_text (fun _ => rfl) rfl
  case xffIp =>
    rintro rfl
    cases (List.lookup (js "x-forwarded-for") attributes.request.headers).bind parseFirstValidIp <;> rfl
  case header =>
    rintro rfl
    cases headerText host attributes.request.headers (host.toLowerCase (name.getD [])) with
    | none => rfl
    | some value => exact ite_text (fun _ => rfl) rfl
  case cookie =>
    rintro rfl
    cases cookieValue (List.lookup (js "cookie") attributes.request.headers) (name.getD []) with
    | none => rfl
    | some value => exact ite_text (fun _ => rfl) rfl
  case path | region =>
    rintro rfl
    rfl
  case sni | ja3 | ja4 =>
    rintro rfl
    exact ite_text (fun _ => rfl) rfl

/-- A label begins like neither of the other two texts. -/
theorem componentLabel_eq_cons :
    ∃ u rest, componentLabel host type name = u :: rest ∧ u ≠ unit 'A' ∧ u ≠ unit 'I' := by
  unfold componentLabel
  repeat' split
  all_goals exact ⟨_, _, rfl, by decide, by decide⟩

theorem text_injective : Function.Injective (Component.text host type name) := by
  obtain ⟨u, label, hlabel, hall, haddress⟩ := @componentLabel_eq_cons host type name
  intro c c' h
  cases c <;> cases c' <;> simp only [Component.text, hlabel] at h
  case all.all => rfl
  case address.address ip ip' => rw [List.append_cancel_left h]
  case value.value text text' => rw [List.append_cancel_left h]
  case all.address => exact absurd (List.cons.inj h).1 (by decide)
  case address.all => exact absurd (List.cons.inj h).1 (by decide)
  case all.value => exact absurd (List.cons.inj h).1.symm hall
  case value.all => exact absurd (List.cons.inj h).1 hall
  case address.value => exact absurd (List.cons.inj h).1.symm haddress
  case value.address => exact absurd (List.cons.inj h).1 haddress

end

/-! ## Keys -/

/-- The types and names whose components make up a key. -/
def keyConfigs (options : RateLimitOptions) : List (JsString × Option JsString) :=
  match options.enforceOnKeyConfigs with
  | some (config :: configs) =>
      (config :: configs).map fun c => (c.enforceOnKeyType.getD "ALL", c.enforceOnKeyName)
  | _ => [(options.enforceOnKey.getD "ALL", options.enforceOnKeyName)]

variable (host : Host) (options : RateLimitOptions)

/-- The values a key stands for. -/
def components (attributes : RequestAttributes) : List Component :=
  (keyConfigs options).map fun config => component host config.1 config.2 attributes

/-- Their texts, in the order of the key. -/
def componentTexts (attributes : RequestAttributes) : List JsString :=
  (keyConfigs options).map fun config =>
    (component host config.1 config.2 attributes).text host config.1 config.2

theorem buildClientKey_eq (attributes : RequestAttributes) :
    buildClientKey host options attributes = join [unit '|'] (componentTexts host options attributes) := by
  have hkeys : componentTexts host options attributes =
      (keyConfigs options).map fun config => componentKey host config.1 config.2 attributes := by
    simp only [componentTexts, componentKey_eq]
  rw [hkeys]
  unfold buildClientKey keyConfigs
  rcases options.enforceOnKeyConfigs with _ | (_ | ⟨config, configs⟩)
  · simp [join]
  · simp [join]
  · dsimp only
    rw [List.map_map]
    rfl

theorem componentTexts_eq_iff {a b : RequestAttributes} :
    componentTexts host options a = componentTexts host options b ↔
      components host options a = components host options b := by
  simp only [componentTexts, components, List.map_inj_left, text_injective.eq_iff]

/-- Two headers, each a component. -/
def twoHeaders : RateLimitOptions where
  rateLimitThreshold := none
  banThreshold := none
  banDurationSec := none
  conformAction := none
  exceedAction := none
  enforceOnKey := none
  enforceOnKeyName := none
  enforceOnKeyConfigs := some [⟨some "HTTP_HEADER", some "x"⟩, ⟨some "HTTP_HEADER", some "y"⟩]

def requestWith (x y : JsString) : RequestAttributes :=
  { sampleRequest with
    request := { sampleRequest.request with headers := [(js "x", x), (js "y", y)] } }

end Kinglet.Armor
