import Kinglet.Js.Text
import Kinglet.Library.Interleaving
import Mathlib.Logic.Function.Basic

/-!
# The service registry

Registrations, deregistrations, periodic health checks and the timers that deregister a service that keeps
failing. A health check awaits an answer of the service and then writes a record made from the one it read
before; a timer carries the id of a service only.

With the state go the number of each registration, the checks that have completed with the registration they
were made for, and what was known of a service when a timer deregistered it, which the source does not keep.
-/

namespace Kinglet.Discovery

open Js Library

/-! ## The registry -/

structure ServiceEndpoint where
  host : JsString
  port : ℕ
deriving DecidableEq

structure ServiceDefinition where
  id : JsString
  name : JsString
  version : JsString
  endpoint : Option ServiceEndpoint
  protocols : List JsString
deriving DecidableEq

/-- A definition as it stands in the registry, with the number of its registration. -/
structure Registered where
  definition : ServiceDefinition
  registration : ℕ
deriving DecidableEq

inductive HealthStatus where
  | healthy
  | unhealthy
  | degraded
  | unknown
deriving DecidableEq

/-- What a service said of itself, or the error of its check. -/
inductive HealthDetails where
  | reported (body : JsString)
  | custom (error : JsString)
deriving DecidableEq

structure ServiceHealth where
  status : HealthStatus
  lastCheck : ℕ
  lastHealthy : Option ℕ
  consecutiveFailures : ℕ
  responseTime : Option ℕ
  details : Option HealthDetails
  registration : ℕ
deriving DecidableEq

structure RegistryConfig where
  maxConsecutiveFailures : ℕ
  enableAutoDeregistration : Bool

inductive RegistryEvent where
  | serviceRegistered (service : ServiceDefinition)
  | serviceDeregistered (service : ServiceDefinition)
  | healthChanged (service : ServiceDefinition) (oldStatus newStatus : HealthStatus)
  | healthCheckFailed (service : ServiceDefinition) (error : JsString)
deriving DecidableEq

/-- A check that has completed: the registration it was made for, and whether it failed. -/
structure CompletedCheck where
  registration : ℕ
  failed : Bool
deriving DecidableEq

structure ServiceRegistry where
  services : List Registered
  servicesByName : JsString → Option (List JsString)
  serviceHealth : JsString → Option ServiceHealth
  emitted : List RegistryEvent
  registrations : ℕ
  checks : List CompletedCheck
  /-- The results of its own checks, for each service that a timer deregistered. -/
  dismissals : List (List Bool)

namespace ServiceRegistry

def start : ServiceRegistry := ⟨[], fun _ => none, fun _ => none, [], 0, [], []⟩

variable (registry : ServiceRegistry)

/-- `services.get(id)`. -/
def getService (id : JsString) : Option Registered :=
  registry.services.find? fun service => service.definition.id = id

/-- The results of the checks of one registration, in the order of their completion. -/
def results (registration : ℕ) : List Bool :=
  (registry.checks.filter fun check => check.registration = registration).map (·.failed)

/-- `emit(event)`. -/
def emit (event : RegistryEvent) : ServiceRegistry :=
  { registry with emitted := registry.emitted ++ [event] }

/-- `updateServiceNameIndex(service)`. -/
def updateServiceNameIndex (service : ServiceDefinition) : ServiceRegistry :=
  let ids := (registry.servicesByName service.name).getD []
  { registry with
    servicesByName := Function.update registry.servicesByName service.name
      (some (if service.id ∈ ids then ids else ids ++ [service.id])) }

/-- The name index without an id. -/
def removeFromNameIndex (service : ServiceDefinition) : ServiceRegistry :=
  match registry.servicesByName service.name with
  | none => registry
  | some ids =>
      let left := ids.filter (· ≠ service.id)
      { registry with
        servicesByName := Function.update registry.servicesByName service.name
          (if left = [] then none else some left) }

def setHealth (id : JsString) (health : Option ServiceHealth) : ServiceRegistry :=
  { registry with serviceHealth := Function.update registry.serviceHealth id health }

/-- The first part of `registerService`: the definition, its name and a health record. -/
def enrol (service : ServiceDefinition) (now : ℕ) : ServiceRegistry :=
  let added := { registry with
    services := registry.services ++ [Registered.mk service registry.registrations]
    registrations := registry.registrations + 1 }
  (added.updateServiceNameIndex service).setHealth service.id
    (some ⟨.unknown, now, none, 0, none, none, registry.registrations⟩)

def deregisterService (serviceId : JsString) : Bool × ServiceRegistry :=
  match registry.getService serviceId with
  | none => (false, registry)
  | some service =>
      let removed := { registry with
        services := registry.services.filter fun other => other.definition.id ≠ serviceId }
      (true, (((removed.removeFromNameIndex service.definition).setHealth serviceId none).emit
        (.serviceDeregistered service.definition)))

end ServiceRegistry

/-! ## Health checks -/

/-- How the check of a service comes out. -/
inductive HealthResult where
  | answered (status : HealthStatus) (details : Option HealthDetails)
  | threw (message : JsString)

def HealthResult.failed : HealthResult → Bool
  | .answered .healthy _ => false
  | _ => true

/-- What a check has read when it starts to wait. -/
structure HealthCheck where
  service : Registered
  currentHealth : ServiceHealth
  startTime : ℕ

/-- The record a check writes: the one it read, with the answer it got. -/
def HealthCheck.healthUpdate (check : HealthCheck) (result : HealthResult) (now : ℕ) : ServiceHealth :=
  match result with
  | .answered .healthy details =>
      { check.currentHealth with
        status := .healthy
        lastCheck := now
        lastHealthy := some now
        consecutiveFailures := 0
        responseTime := some (now - check.startTime)
        details := details <|> check.currentHealth.details }
  | .answered status details =>
      { check.currentHealth with
        status := status
        lastCheck := now
        consecutiveFailures := check.currentHealth.consecutiveFailures + 1
        responseTime := some (now - check.startTime)
        details := details <|> check.currentHealth.details }
  | .threw message =>
      { check.currentHealth with
        status := .unhealthy
        lastCheck := now
        consecutiveFailures := check.currentHealth.consecutiveFailures + 1
        responseTime := some (now - check.startTime)
        details := some (.custom message) }

namespace ServiceRegistry

variable (registry : ServiceRegistry)

/-- The first part of `performHealthCheck`, up to the request. -/
def beginHealthCheck (serviceId : JsString) (now : ℕ) : Option HealthCheck := do
  let service ← registry.getService serviceId
  let currentHealth ← registry.serviceHealth serviceId
  return ⟨service, currentHealth, now⟩

/-- The rest of it: the record, the events, and whether a timer is set. -/
def endHealthCheck (config : RegistryConfig) (check : HealthCheck) (result : HealthResult) (now : ℕ) :
    ServiceRegistry × Bool :=
  let definition := check.service.definition
  let completed := { registry with
    checks := registry.checks ++ [CompletedCheck.mk check.service.registration result.failed] }
  let written := completed.setHealth definition.id (some (check.healthUpdate result now))
  -- The status that is compared stays `unknown` when the check throws.
  let (told, newStatus) := match result with
    | .answered status _ => (written, status)
    | .threw message => (written.emit (.healthCheckFailed definition message), .unknown)
  let changed :=
    if check.currentHealth.status = newStatus then told
    else told.emit (.healthChanged definition check.currentHealth.status newStatus)
  (changed, config.enableAutoDeregistration &&
    match changed.serviceHealth definition.id with
    | none => false
    | some health => config.maxConsecutiveFailures ≤ health.consecutiveFailures)

/-- `autoDeregisterService(serviceId)`, when its timer fires. -/
def autoDeregisterService (config : RegistryConfig) (serviceId : JsString) : ServiceRegistry :=
  match registry.serviceHealth serviceId with
  | none => registry
  | some health =>
      if health.consecutiveFailures < config.maxConsecutiveFailures then registry
      else
        match registry.getService serviceId with
        | none => registry
        | some service =>
            let dismissed := { registry with
              dismissals := registry.dismissals ++ [registry.results service.registration] }
            (dismissed.deregisterService serviceId).2

end ServiceRegistry

/-! ## Calls -/

/-- `validateServiceDefinition(service)`. -/
def validateServiceDefinition (service : ServiceDefinition) : Except JsString Unit :=
  if service.id = [] || service.name = [] || service.version = [] then
    .error "Service must have id, name, and version"
  else
    match service.endpoint with
    | none => .error "Service must have an endpoint"
    | some endpoint =>
        if service.protocols = [] then .error "Service must support at least one protocol"
        else if endpoint.host = [] || endpoint.port = 0 then
          .error "Service endpoint must have host and port"
        else
          match service.protocols.find? fun name => name ≠ js "http" && name ≠ js "grpc" with
          | some name => .error (js "Unsupported protocol: " ++ name)
          | none => .ok ()

/-- What waits for a health check: a registration, or a round of the interval. -/
inductive Caller where
  | registration (service : ServiceDefinition)
  | interval

inductive RegistryRequest where
  | register (service : ServiceDefinition)
  | deregister (serviceId : JsString)
  | performAllHealthChecks

inductive RegistryCall where
  | request (request : RegistryRequest)
  | checking (caller : Caller) (check : HealthCheck)
  | checked (caller : Caller)
  | timer (serviceId : JsString)

/-- The time, and the answer a check gets. -/
structure Input where
  now : ℕ
  result : HealthResult

inductive RegistryOutcome where
  | threw (message : JsString)
  | returned (value : Option Bool)

variable (config : RegistryConfig)

/-- A call's next segment. -/
def registrySegment (registry : ServiceRegistry) (call : RegistryCall) (input : Input) :
    ServiceRegistry × Progress RegistryCall RegistryOutcome :=
  match call with
  | .request (.register service) =>
      match validateServiceDefinition service with
      | .error message => (registry, .finished (.threw message))
      | .ok () =>
          if (registry.getService service.id).isSome then
            (registry, .finished (.threw
              (js "Service with ID '" ++ service.id ++ js "' already registered")))
          else
            let enrolled := registry.enrol service input.now
            match enrolled.beginHealthCheck service.id input.now with
            | none => (enrolled, .pending (.checked (.registration service)))
            | some check => (enrolled, .pending (.checking (.registration service) check))
  | .request (.deregister serviceId) =>
      let (found, removed) := registry.deregisterService serviceId
      (removed, .finished (.returned (some found)))
  | .request .performAllHealthChecks =>
      let checks := registry.services.filterMap fun service =>
        registry.beginHealthCheck service.definition.id input.now
      (registry, .forked (.checked .interval) (checks.map (.checking .interval)))
  | .checking caller check =>
      let (written, overdue) := registry.endHealthCheck config check input.result input.now
      (written, .forked (.checked caller) (if overdue then [.timer check.service.definition.id] else []))
  | .checked (.registration service) =>
      (registry.emit (.serviceRegistered service), .finished (.returned none))
  | .checked .interval => (registry, .finished (.returned none))
  | .timer serviceId => (registry.autoDeregisterService config serviceId, .finished (.returned none))

def registryCalls : Async ServiceRegistry RegistryRequest RegistryCall Input RegistryOutcome where
  begin := .request
  segment := registrySegment config

end Kinglet.Discovery
