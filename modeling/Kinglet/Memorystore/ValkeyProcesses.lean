import Kinglet.Library.Script
import Kinglet.Memorystore.Types
import Mathlib.Algebra.Group.Nat.Defs
import Mathlib.Logic.Function.Basic

/-!
# Valkey processes

`ValkeyProcessManager`: the ports, servers and degraded endpoints of the Memorystore instances. What the
source does between two awaits with the shared maps is an ask here, and so is each await; only a spawn
and the end of a process may fail. With a claimed port goes the instance that it is for, which the
source does not keep.
-/

namespace Kinglet.Memorystore

open Js Library

/-! ## The state -/

/-- The options, whose range the config schema checks. -/
structure ValkeyProcessManagerOptions where
  enabled : Bool
  portRangeStart : ℕ
  portRangeEnd : ℕ
  ordered : portRangeStart ≤ portRangeEnd

structure RunningServer where
  process : ℕ
  port : ℕ
deriving DecidableEq

structure ValkeyEndpoint where
  address : JsString
  port : ℕ
deriving DecidableEq

structure ValkeyPlane where
  allocatedPorts : List (ℕ × JsString)
  serversByInstanceName : JsString → Option RunningServer
  degradedPortsByInstanceName : JsString → Option ℕ
  /-- The endpoints that the callers hand out. -/
  advertised : JsString → Option ValkeyEndpoint
  /-- The processes that have not exited. -/
  processes : List (ℕ × JsString)
  nextProcess : ℕ

/-! ## Asks -/

inductive PlaneAsk where
  /-- A stop gives back the degraded port and looks up the server. -/
  | untrackDegraded (name : JsString)
  /-- `process.kill()` and `await process.exited`. -/
  | shutdown (name : JsString) (process : ℕ)
  | untrackServer (name : JsString) (port : ℕ)
  | resolveBinaryPath
  | claim (name : JsString) (port : ℕ)
  | isPortListening (port : ℕ)
  | release (port : ℕ)
  | spawn (name : JsString) (port : ℕ)
  | waitUntilPortIsListening (port process : ℕ)
  | trackServer (name : JsString) (server : RunningServer)
  | trackDegraded (name : JsString) (port : ℕ)
  /-- A caller keeps the endpoint of a start, or forgets it. -/
  | advertise (name : JsString) (endpoint : Option ValkeyEndpoint)

abbrev PlaneAnswer : PlaneAsk → Type
  | .untrackDegraded _ => Option RunningServer
  | .resolveBinaryPath => Option JsString
  | .claim _ _ | .isPortListening _ | .waitUntilPortIsListening _ _ => Bool
  | .spawn _ _ => ℕ
  | .shutdown _ _ | .untrackServer _ _ | .release _ | .trackServer _ _ | .trackDegraded _ _
  | .advertise _ _ => Unit

abbrev PlaneScript := Script PlaneAsk PlaneAnswer Thrown

/-- What comes from outside with an ask: `rejected` is what a spawn or a shutdown throws, and `exits` are
processes that have exited on their own. -/
structure PlaneInput where
  rejected : Option JsString
  binaryPath : Option JsString
  isListening : Bool
  exits : List ℕ

namespace ValkeyPlane

def empty : ValkeyPlane := ⟨[], fun _ => none, fun _ => none, fun _ => none, [], 0⟩

variable (plane : ValkeyPlane)

/-- `portAllocator.release(port)`. -/
def release (port : ℕ) : ValkeyPlane :=
  { plane with allocatedPorts := plane.allocatedPorts.filter fun claim => claim.1 ≠ port }

def has (port : ℕ) : Bool := plane.allocatedPorts.any fun claim => claim.1 = port

def exit (exits : List ℕ) : ValkeyPlane :=
  { plane with processes := plane.processes.filter fun process => process.1 ∉ exits }

/-- The state after an ask, and its answer. -/
def perform (plane : ValkeyPlane) (input : PlaneInput) :
    (ask : PlaneAsk) → ValkeyPlane × Except Thrown (PlaneAnswer ask)
  | .untrackDegraded name =>
      let released := match plane.degradedPortsByInstanceName name with
        | none => plane
        | some port => plane.release port
      ({ released with
          degradedPortsByInstanceName :=
            Function.update plane.degradedPortsByInstanceName name none },
        .ok (plane.serversByInstanceName name))
  | .shutdown _ process =>
      match input.rejected with
      | some message => (plane, .error (.error message))
      | none => (plane.exit [process], .ok ())
  | .untrackServer name port =>
      ({ plane.release port with
          serversByInstanceName := Function.update plane.serversByInstanceName name none }, .ok ())
  | .resolveBinaryPath => (plane, .ok input.binaryPath)
  | .claim name port =>
      if plane.has port then (plane, .ok false)
      else ({ plane with allocatedPorts := plane.allocatedPorts ++ [(port, name)] }, .ok true)
  | .isPortListening _ => (plane, .ok input.isListening)
  | .release port => (plane.release port, .ok ())
  | .spawn name _ =>
      match input.rejected with
      | some message => (plane, .error (.error message))
      | none =>
          ({ plane with
              processes := plane.processes ++ [(plane.nextProcess, name)]
              nextProcess := plane.nextProcess + 1 }, .ok plane.nextProcess)
  | .waitUntilPortIsListening _ process =>
      (plane, .ok (input.isListening && plane.processes.any fun running => running.1 = process))
  | .trackServer name server =>
      ({ plane with
          serversByInstanceName := Function.update plane.serversByInstanceName name (some server) },
        .ok ())
  | .trackDegraded name port =>
      ({ plane with
          degradedPortsByInstanceName :=
            Function.update plane.degradedPortsByInstanceName name (some port) }, .ok ())
  | .advertise name endpoint =>
      ({ plane with advertised := Function.update plane.advertised name endpoint }, .ok ())

/-- The same, after the processes that exit on their own. -/
def handle (ask : PlaneAsk) (input : PlaneInput) : ValkeyPlane × Except Thrown (PlaneAnswer ask) :=
  (plane.exit input.exits).perform input ask

end ValkeyPlane

def perform (ask : PlaneAsk) : PlaneScript (PlaneAnswer ask) := Script.request ask

/-! ## Ports -/

namespace ValkeyProcessManagerOptions

variable (options : ValkeyProcessManagerOptions)

def rangeSize : ℕ := options.portRangeEnd - options.portRangeStart + 1

/-- The ports of the range, in the order in which they are scanned. -/
def portRange : List ℕ := List.range' options.portRangeStart options.rangeSize

def deriveDeterministicPort (instanceName : JsString) : ℕ :=
  let hash := instanceName.foldl (fun hash u => (hash * 31 + u.toNat) % 2 ^ 32) 0
  options.portRangeStart + hash % options.rangeSize

/-- `portAllocator.claim(port)`. -/
def claim (instanceName : JsString) (port : ℕ) : PlaneScript Bool := do
  if port < options.portRangeStart ∨ options.portRangeEnd < port then pure false
  else if ← perform (.claim instanceName port) then
    if ← perform (.isPortListening port) then do
      perform (.release port)
      pure false
    else pure true
  else pure false

def scan (instanceName : JsString) : List ℕ → PlaneScript (Option ℕ)
  | [] => pure none
  | port :: ports => do
      if ← options.claim instanceName port then pure (some port)
      else scan instanceName ports

/-- `portAllocator.allocate({ preferredPort })`. -/
def allocate (instanceName : JsString) : Option ℕ → PlaneScript (Option ℕ)
  | none => options.scan instanceName options.portRange
  | some preferredPort => do
      if ← options.claim instanceName preferredPort then pure (some preferredPort)
      else options.scan instanceName options.portRange

/-! ## Endpoints -/

def advertisedHost : JsString := "127.0.0.1"

def noPortLeft (instanceName : JsString) : Thrown :=
  .memoryStore .failedPrecondition
    (js "Cannot provision a Memorystore data-plane endpoint for \"" ++ instanceName ++
      js "\": every port in " ++ decimal options.portRangeStart ++ js "-" ++
      decimal options.portRangeEnd ++ js " is already in use by a live Valkey server")

def buildDegradedEndpoint (instanceName : JsString) : PlaneScript ValkeyEndpoint := do
  let hashPort := options.deriveDeterministicPort instanceName
  if !options.enabled then pure ⟨advertisedHost, hashPort⟩
  else
    match ← options.allocate instanceName (some hashPort) with
    | none => throw (options.noPortLeft instanceName)
    | some port => do
        perform (.trackDegraded instanceName port)
        pure ⟨advertisedHost, port⟩

end ValkeyProcessManagerOptions

def stopServerForInstance (instanceName : JsString) : PlaneScript Unit := do
  match ← perform (.untrackDegraded instanceName) with
  | none => pure ()
  | some server => do
      perform (.shutdown instanceName server.process)
      perform (.untrackServer instanceName server.port)

/-- From the spawn on. -/
def spawnServer (options : ValkeyProcessManagerOptions) (instanceName : JsString) (port : ℕ) :
    PlaneScript ValkeyEndpoint := do
  let childProcess ← perform (.spawn instanceName port)
  if ← perform (.waitUntilPortIsListening port childProcess) then do
    perform (.trackServer instanceName ⟨childProcess, port⟩)
    pure ⟨ValkeyProcessManagerOptions.advertisedHost, port⟩
  else do
    perform (.shutdown instanceName childProcess)
    perform (.release port)
    options.buildDegradedEndpoint instanceName

def startServerForInstance (options : ValkeyProcessManagerOptions) (instanceName : JsString) :
    PlaneScript ValkeyEndpoint := do
  stopServerForInstance instanceName
  if !options.enabled then options.buildDegradedEndpoint instanceName
  else
    match ← perform .resolveBinaryPath with
    | none => options.buildDegradedEndpoint instanceName
    | some _ =>
        match ← options.allocate instanceName none with
        | none => options.buildDegradedEndpoint instanceName
        | some port => spawnServer options instanceName port

/-! ## Calls -/

/-- A start, whose endpoint takes the place of the one before. -/
def start (options : ValkeyProcessManagerOptions) (instanceName : JsString) : PlaneScript Unit := do
  perform (.advertise instanceName none)
  let endpoint ← startServerForInstance options instanceName
  perform (.advertise instanceName (some endpoint))

def stop (instanceName : JsString) : PlaneScript Unit := do
  stopServerForInstance instanceName
  perform (.advertise instanceName none)

end Kinglet.Memorystore
