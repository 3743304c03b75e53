import Kinglet.Armor.Request
import Kinglet.Library.FixedWindow

/-!
# Rate-limit counters

The in-process counters behind `throttle` and `rate_based_ban`: a request count for each bucket and
rate window, one for each bucket and ban window, and the time until which a bucket is banned. Times
are in milliseconds.
-/

namespace Kinglet.Armor

open Js Library

/-! ## The store -/

/-- A `Map` keyed by bucket. -/
abbrev Table (α : Type) := JsString → Option α

structure RateLimitStore where
  rateWindows : Table WindowCount
  banWindows : Table WindowCount
  bans : Table ℕ

/-- The store after `resetRateLimitStore()`. -/
def emptyStore : RateLimitStore := ⟨fun _ => none, fun _ => none, fun _ => none⟩

/-- The count a window would have after one more request. -/
def nextCount (windows : Table WindowCount) (key : JsString) (windowId : ℕ) : ℕ :=
  match windows key with
  | some entry => if entry.windowId = windowId then entry.count + 1 else 1
  | none => 1

def bump (windows : Table WindowCount) (key : JsString) (windowId : ℕ) : Table WindowCount :=
  Function.update windows key (some ⟨windowId, nextCount windows key windowId⟩)

/-! ## Client keys -/

def truncateKey (value : JsString) : JsString :=
  if (encode value).length ≤ rateLimitKeyValueMaxBytes then value
  else decode ((encode value).take rateLimitKeyValueMaxBytes)

/-- The value of the first cookie of a name. -/
def cookieValue (header : Option JsString) (name : JsString) : Option JsString :=
  match header with
  | none | some [] => none
  | some text =>
      (splitUnit (unit ';') text).findSome? fun part =>
        let (key, value) := cut (unit '=') (trim part)
        if key = name then some (value.getD []) else none

/-- `headers[name]`: an own field, or a member every object inherits. -/
def headerText (host : Host) (headers : List (JsString × JsString)) (name : JsString) :
    Option JsString :=
  headers.lookup name <|> host.inheritedText name

def ipKey (attributes : RequestAttributes) : JsString := js "IP:" ++ attributes.origin.ip

/-- A component that names its value, and `ALL` where the value is the empty text. -/
def valueKey (label value : JsString) : JsString :=
  if value = [] then "ALL" else label ++ truncateKey value

def componentKey (host : Host) (type : JsString) (name : Option JsString)
    (attributes : RequestAttributes) : JsString :=
  let headers := attributes.request.headers
  if type = "ALL" then "ALL"
  else if type = "IP" then ipKey attributes
  else if type = "USER_IP" then
    if !attributes.origin.userIpResolved then ipKey attributes
    else js "USER_IP:" ++ truncateKey attributes.origin.userIp
  else if type = "XFF_IP" then
    match (headers.lookup (js "x-forwarded-for")).bind parseFirstValidIp with
    | none => ipKey attributes
    | some hop => js "XFF_IP:" ++ truncateKey hop
  else if type = "HTTP_HEADER" then
    match headerText host headers (host.toLowerCase (name.getD [])) with
    | some value =>
        if name.getD [] = [] then "ALL"
        else js "HTTP_HEADER:" ++ host.toLowerCase (name.getD []) ++ js "=" ++ truncateKey value
    | none => "ALL"
  else if type = "HTTP_COOKIE" then
    match cookieValue (headers.lookup (js "cookie")) (name.getD []) with
    | some value =>
        if name.getD [] = [] then "ALL"
        else js "HTTP_COOKIE:" ++ name.getD [] ++ js "=" ++ truncateKey value
    | none => "ALL"
  else if type = "HTTP_PATH" then js "HTTP_PATH:" ++ truncateKey attributes.request.path
  else if type = "SNI" then valueKey "SNI:" attributes.sni
  else if type = "REGION_CODE" then js "REGION_CODE:" ++ truncateKey attributes.origin.regionCode
  else if type = "TLS_JA3_FINGERPRINT" then valueKey "JA3:" attributes.origin.tlsJa3Fingerprint
  else if type = "TLS_JA4_FINGERPRINT" then valueKey "JA4:" attributes.origin.tlsJa4Fingerprint
  else "ALL"

def buildClientKey (host : Host) (options : RateLimitOptions) (attributes : RequestAttributes) :
    JsString :=
  match options.enforceOnKeyConfigs with
  | some (config :: configs) =>
      join "|" ((config :: configs).map fun c =>
        componentKey host (c.enforceOnKeyType.getD "ALL") c.enforceOnKeyName attributes)
  | _ => componentKey host (options.enforceOnKey.getD "ALL") options.enforceOnKeyName attributes

/-! ## Charging a request -/

inductive RateAction where
  | throttle
  | rateBasedBan
deriving DecidableEq

inductive RateMode where
  | commit
  | preview
deriving DecidableEq

/-- `${policyName}\0${priority}\0${clientKey}`. -/
def bucketKey (policyName : JsString) (priority : ℕ) (clientKey : JsString) : JsString :=
  policyName ++ 0 :: (decimal priority ++ 0 :: clientKey)

def banThresholdKey (bucket : JsString) : JsString := js "banThresh" ++ 0 :: bucket

namespace RateLimitOptions

variable (options : RateLimitOptions)

def exceed : JsString := options.exceedAction.getD "deny(429)"

def conform : JsString := options.conformAction.getD "allow"

def interval : ℕ := (options.rateLimitThreshold.bind (·.intervalSec)).getD 60

def limit : ℕ := (options.rateLimitThreshold.bind (·.count)).getD 1

def banDuration : ℕ := options.banDurationSec.getD 60

/-- The ban threshold, when both its parts are given: a count and an interval. -/
def ban : Option (ℕ × ℕ) := do
  let threshold ← options.banThreshold
  return (← threshold.count, ← threshold.intervalSec)

end RateLimitOptions

/-- The window of `intervalSec` seconds a time falls into. -/
def windowOf (now intervalSec : ℕ) : ℕ := now / (intervalSec * 1000)

/-- Whether a bucket is banned at a time. -/
def isBanned (store : RateLimitStore) (bucket : JsString) (now : ℕ) : Bool :=
  now < (store.bans bucket).getD 0

/-- Whether the next request of a bucket would set a ban. -/
def wouldBan (action : RateAction) (options : RateLimitOptions) (store : RateLimitStore)
    (bucket : JsString) (now : ℕ) : Bool :=
  match action with
  | .throttle => false
  | .rateBasedBan =>
      match options.ban with
      | some (count, intervalSec) =>
          count < nextCount store.banWindows (banThresholdKey bucket) (windowOf now intervalSec)
      | none =>
          options.limit < nextCount store.rateWindows bucket (windowOf now options.interval)

/-- `applyRateLimit` on the bucket of its policy, rule and client key. -/
def chargeBucket (action : RateAction) (options : RateLimitOptions) (mode : RateMode)
    (bucket : JsString) (now : ℕ) (store : RateLimitStore) : JsString × RateLimitStore :=
  if isBanned store bucket now then (options.exceed, store)
  else
    let windowId := windowOf now options.interval
    let rateCount := nextCount store.rateWindows bucket windowId
    let banned := wouldBan action options store bucket now
    let banWindows := match action, options.ban with
      | .rateBasedBan, some (_, intervalSec) =>
          bump store.banWindows (banThresholdKey bucket) (windowOf now intervalSec)
      | _, _ => store.banWindows
    let bans :=
      if mode = .commit ∧ banned then
        Function.update store.bans bucket (some (now + options.banDuration * 1000))
      else store.bans
    (if banned || options.limit < rateCount then options.exceed else options.conform,
      { rateWindows := bump store.rateWindows bucket windowId
        banWindows := banWindows
        bans := bans })

def applyRateLimit (host : Host) (policyName : JsString) (priority : ℕ) (action : RateAction)
    (options : RateLimitOptions) (attributes : RequestAttributes) (mode : RateMode) (now : ℕ)
    (store : RateLimitStore) : JsString × RateLimitStore :=
  chargeBucket action options mode
    (bucketKey policyName priority (buildClientKey host options attributes)) now store

end Kinglet.Armor
