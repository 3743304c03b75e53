import Kinglet.Js.Value
import Kinglet.Postgres.ExtendedProtocol
import Kinglet.Postgres.SessionRelease

/-!
# A connection of the wire server

A connection goes from its startup packet over the password to streaming. Its bytes are buffered and
cut into frames, and a loop handles one frame after the other; it waits for the resolution of the
database, for the session queue, and between two frames. The socket may deliver data, fail or close at
any of these points. The model runs one connection together with the queue of its database, on which
the other connections act as they like.
-/

namespace Kinglet.Postgres

open Js Library

def protocolVersion30 : ℤ := 196608
def sslRequestCode : ℤ := 80877103
def cancelRequestCode : ℤ := 80877102
def gssencRequestCode : ℤ := 80877104
def maxStartupMessageLength : ℤ := 10000
def maxMessageLength : ℕ := 64 * 1024 * 1024
def authenticationCleartextPassword : ℕ := 3
def passwordMessageTag : ℕ := 0x70
def terminateMessageTag : ℕ := 0x58
def maxPendingBatchLength : ℕ := maxMessageLength
def readPauseThreshold : ℕ := 8 * 1024 * 1024

def sqlstateInvalidAuthorizationSpecification : JsString := "28000"
def sqlstateInvalidPassword : JsString := "28P01"
def sqlstateProtocolViolation : JsString := "08P01"
def sqlstateInternalError : JsString := "XX000"

/-- `view.getInt32(offset)`. -/
def getInt32 (bytes : List ℕ) (offset : ℕ) : ℤ :=
  let n : ℕ := ((bytes.drop offset).take 4).foldl (fun n byte => 256 * n + byte) 0
  if n < 2 ^ 31 then n else (n : ℤ) - 2 ^ 32

/-- `${n}` of an integer. -/
def integerText (n : ℤ) : JsString := if n < 0 then js "-" ++ decimal n.natAbs else decimal n.toNat

/-! ## Messages -/

def buildBackendMessage (tag : ℕ) (body : List ℕ) : List ℕ :=
  tag :: int32Bytes (4 + body.length) ++ body

def buildErrorResponse (sqlState message : JsString) : List ℕ :=
  let fields := [js "SFATAL", js "VFATAL", js "C" ++ sqlState, js "M" ++ message]
  buildBackendMessage 0x45 ((fields.flatMap fun field => encode field ++ [0]) ++ [0])

def buildAuthenticationRequest (kind : ℕ) : List ℕ := buildBackendMessage 0x52 (int32Bytes kind)

inductive ParsedStartupPacket
  | startup (protocolVersion : ℤ) (parameters : List (JsString × JsString))
  | sslRequest
  | gssencRequest
  | cancelRequest
  deriving DecidableEq

/-- A C string, and what comes after its terminator. -/
def cString (bytes : List ℕ) : Option (List ℕ × List ℕ) :=
  match bytes.span (· ≠ 0) with
  | (text, _ :: rest) => some (text, rest)
  | (_, []) => none

/-- The loop over the parameters. Each takes two bytes at least, so the length of the packet is fuel
enough. -/
def readParameters : ℕ → List (JsString × JsString) → List ℕ →
    Except JsString (List (JsString × JsString))
  | 0, parameters, _ => .ok parameters
  | _, parameters, [] => .ok parameters
  | _, parameters, 0 :: _ => .ok parameters
  | fuel + 1, parameters, bytes =>
      match cString bytes with
      | none => .error "Unterminated parameter name in startup packet"
      | some (key, rest) =>
          match cString rest with
          | none => .error "Unterminated parameter value in startup packet"
          | some (value, rest) =>
              readParameters fuel (assignField (decode key) (decode value) parameters) rest

def parseStartupPacket (packet : List ℕ) : Except JsString ParsedStartupPacket :=
  if packet.length < 8 then .error "Startup packet is shorter than its fixed header"
  else if getInt32 packet 4 = sslRequestCode then .ok .sslRequest
  else if getInt32 packet 4 = gssencRequestCode then .ok .gssencRequest
  else if getInt32 packet 4 = cancelRequestCode then .ok .cancelRequest
  else (readParameters packet.length [] (packet.drop 8)).map (.startup (getInt32 packet 4))

/-! ## The connection -/

inductive ConnectionPhase
  | startup
  | password
  | streaming
  | closed
  deriving DecidableEq

/-- `ResolvedConnection`, on the one queue. -/
structure ResolvedConnection where
  password : JsString
  loginDisabled : Bool
  deriving DecidableEq

/-- What `resolveConnection` comes to. -/
inductive ConnectionResolution
  | allowed (connection : ResolvedConnection)
  | rejected (sqlState message : JsString)
  | thrown (message : JsString)
  deriving DecidableEq

/-- Without `isProcessing`, which says that the loop runs. -/
structure ConnectionState where
  id : JsString
  connectionNamespace : JsString
  phase : ConnectionPhase
  buffer : List ℕ
  pendingBatch : List (List ℕ)
  isReadPaused : Bool
  user : JsString
  database : JsString
  startupPacket : Option (List ℕ)
  connection : Option ResolvedConnection

/-- Where the loop of `processBuffered` is: it does not run, is between two frames, or awaits
`resolveConnection`, the `enqueue` of a message or the `ROLLBACK` of `releaseConnection`. -/
inductive Pump
  | idle
  | running
  | resolving
  | forwarding (number : ℕ)
  | releasing (rollback : Option ℕ)
  deriving DecidableEq

inductive SocketCall
  | write (bytes : List ℕ)
  | finish
  | pause
  | resume
  deriving DecidableEq

structure WireServer where
  state : ConnectionState
  pump : Pump
  socket : List SocketCall
  queue : SessionQueue

namespace ConnectionState

variable (s : ConnectionState)

/-- The socket's `open`. -/
def create (id : JsString) : ConnectionState where
  id := id
  connectionNamespace := buildConnectionNamespace id
  phase := .startup
  buffer := []
  pendingBatch := []
  isReadPaused := false
  user := []
  database := []
  startupPacket := none
  connection := none

def frameLengthAtHead : Option ℤ :=
  if s.phase = .startup then
    if s.buffer.length < 4 then none else some (getInt32 s.buffer 0)
  else if s.buffer.length < 5 then none
  else some (getInt32 s.buffer 1 + 1)

def holdsCompleteFrame : Bool :=
  match s.frameLengthAtHead with
  | none => false
  | some frameLength => frameLength ≤ s.buffer.length

/-- `declaredLength` and the bound on it. -/
def declaredLength (frameLength : ℤ) : ℤ :=
  if s.phase = .startup then frameLength else frameLength - 1

def maxLength : ℤ := if s.phase = .startup then maxStartupMessageLength else maxMessageLength

/-- `takeNextFrame(socket)`: the frame and the rest of the buffer, or the message to fail with. -/
def takeNextFrame : Except JsString (Option (List ℕ × List ℕ)) :=
  match s.frameLengthAtHead with
  | none => .ok none
  | some frameLength =>
      if s.declaredLength frameLength < 4 ∨ s.maxLength < s.declaredLength frameLength then
        .error (js "Invalid message length " ++ integerText (s.declaredLength frameLength))
      else if s.buffer.length < frameLength then .ok none
      else .ok (some (s.buffer.take frameLength.toNat, s.buffer.drop frameLength.toNat))

def pendingBatchLength : ℕ := (s.pendingBatch.map List.length).sum

end ConnectionState

namespace WireServer

variable (s : WireServer)

/-- The connection before its first byte, and the queue before its first message. -/
def start (id : JsString) : WireServer where
  state := .create id
  pump := .idle
  socket := []
  queue := .empty

def write (bytes : List ℕ) : WireServer := { s with socket := s.socket ++ [.write bytes] }

/-- `socket.end()`. -/
def finish : WireServer := { s with socket := s.socket ++ [.finish] }

def applyReadBackpressure : WireServer :=
  if s.state.phase = .closed then s
  else
    match decide (readPauseThreshold ≤ s.state.buffer.length) && s.state.holdsCompleteFrame,
      s.state.isReadPaused with
    | true, false =>
        { s with state := { s.state with isReadPaused := true }, socket := s.socket ++ [.pause] }
    | false, true =>
        { s with state := { s.state with isReadPaused := false }, socket := s.socket ++ [.resume] }
    | _, _ => s

/-- `releaseConnection(state)`, up to its await. -/
def releaseConnection : WireServer :=
  { s with
    state := { s.state with phase := .closed, connection := none }
    queue := if s.state.connection.isSome then s.queue.detach s.state.id else s.queue }

def fail (sqlState message : JsString) : WireServer :=
  if s.state.phase = .closed then s
  else
    ((({ s with state := { s.state with phase := .closed, pendingBatch := [] } } : WireServer).write
      (buildErrorResponse sqlState message)).finish).releaseConnection

/-- The handler returns. -/
def proceed : WireServer := { s with pump := .running }

/-- The loop returns. -/
def stop : WireServer := ({ s with pump := .idle } : WireServer).applyReadBackpressure

def forward (bytes : List ℕ) : WireServer :=
  if s.state.connection.isSome then
    { s with
      queue := s.queue.push false s.state.id bytes
      pump := .forwarding s.queue.enqueued.length }
  else (s.fail sqlstateInternalError "no database is attached to this connection").proceed

def beginStreaming : WireServer :=
  match s.state.startupPacket with
  | none =>
      (s.fail sqlstateInternalError "startup packet was lost before authentication").proceed
  | some startupPacket =>
      ({ s with state := { s.state with phase := .streaming } } : WireServer).forward startupPacket

/-- `handleStartupFrame(socket, frame)` with a startup message, up to `resolveConnection`. -/
def handleStartup (frame : List ℕ) (protocolVersion : ℤ)
    (parameters : List (JsString × JsString)) : WireServer :=
  if protocolVersion ≠ protocolVersion30 then
    (s.fail sqlstateProtocolViolation (js "Unsupported frontend protocol " ++
      integerText protocolVersion ++ js "; kinglet speaks 3.0")).proceed
  else if (parameters.lookup (js "user")).getD [] = [] then
    (s.fail sqlstateInvalidAuthorizationSpecification
      "no PostgreSQL user name specified in startup packet").proceed
  else
    { s with
      state := { s.state with
        user := (parameters.lookup (js "user")).getD []
        database := (parameters.lookup (js "database")).getD ((parameters.lookup (js "user")).getD [])
        startupPacket := some frame }
      pump := .resolving }

/-- `handleStartupFrame(socket, frame)`, up to `resolveConnection`. -/
def handleStartupFrame (frame : List ℕ) : WireServer :=
  match parseStartupPacket frame with
  | .error message => (s.fail sqlstateProtocolViolation message).proceed
  | .ok .sslRequest | .ok .gssencRequest => (s.write [0x4e]).proceed
  | .ok .cancelRequest =>
      (({ s with state := { s.state with phase := .closed } } : WireServer).finish).proceed
  | .ok (.startup protocolVersion parameters) => s.handleStartup frame protocolVersion parameters

/-- `handleStartupFrame(socket, frame)`, from `resolveConnection` on. -/
def resolved : ConnectionResolution → WireServer
  | .allowed connection =>
      if connection.loginDisabled ∨ connection.password ≠ [] then
        (({ s with state := { s.state with
            connection := some connection
            phase := .password } } : WireServer).write
          (buildAuthenticationRequest authenticationCleartextPassword)).proceed
      else
        ({ s with state := { s.state with connection := some connection } } :
          WireServer).beginStreaming
  | .rejected sqlState message => (s.fail sqlState message).proceed
  | .thrown message => (s.fail sqlstateInternalError message).stop

/-- `frame.subarray(5, Math.max(5, frame.length - 1))`, decoded. -/
def suppliedPassword (frame : List ℕ) : JsString :=
  decode ((frame.take (max 5 (frame.length - 1))).drop 5)

def handlePasswordFrame (frame : List ℕ) : WireServer :=
  if frame.headD 0 ≠ passwordMessageTag then
    (s.fail sqlstateProtocolViolation
      "expected a password message in response to the authentication request").proceed
  else if s.state.connection.any ResolvedConnection.loginDisabled ∨
      some (suppliedPassword frame) ≠ s.state.connection.map ResolvedConnection.password then
    (s.fail sqlstateInvalidPassword
      (js "password authentication failed for user \"" ++ s.state.user ++ js "\"")).proceed
  else s.beginStreaming

/-- The `ROLLBACK` that `releaseConnection` waits for. -/
def rollbackNumber : Option ℕ :=
  if s.state.connection.isSome ∧ s.queue.transactionOwnerId = some s.state.id then
    some s.queue.enqueued.length
  else none

def handleTerminate : WireServer :=
  { ({ s with state := { s.state with pendingBatch := [] } } : WireServer).releaseConnection with
    pump := .releasing s.rollbackNumber }

/-- `this.fail` of a sequence that is too long. -/
def failOversized : WireServer :=
  (s.fail sqlstateProtocolViolation
    "extended-query sequence exceeded the maximum size before a Sync").proceed

/-- `state.pendingBatch.push(namespaced)`. -/
def batch (namespaced : List ℕ) : WireServer :=
  { s with state := { s.state with pendingBatch := s.state.pendingBatch ++ [namespaced] } }

/-- `handleFrame(socket, frame)` while streaming, with the names rewritten. -/
def handleNamespaced (namespaced : List ℕ) : WireServer :=
  if maxPendingBatchLength < (s.batch namespaced).state.pendingBatchLength then
    (s.batch namespaced).failOversized
  else if isExtendedQueryFrame (namespaced.headD 0) then (s.batch namespaced).proceed
  else
    ({ s with state := { s.state with pendingBatch := [] } } : WireServer).forward
      (s.batch namespaced).state.pendingBatch.flatten

def handleFrame (frame : List ℕ) : WireServer :=
  match s.state.phase with
  | .startup => s.handleStartupFrame frame
  | .password => s.handlePasswordFrame frame
  | _ =>
      if frame.headD 0 = terminateMessageTag then s.handleTerminate
      else s.handleNamespaced (namespaceFrameNames frame s.state.connectionNamespace)

/-- A turn of the loop of `processBuffered(socket)`. -/
def turn : WireServer :=
  if s.state.phase = .closed then s.stop
  else
    match s.state.takeNextFrame with
    | .error message => (s.fail sqlstateProtocolViolation message).stop
    | .ok none => s.stop
    | .ok (some (frame, rest)) =>
        ({ s with state := { s.state with buffer := rest } } : WireServer).handleFrame frame

/-- The socket's `data`. -/
def data (chunk : List ℕ) : WireServer :=
  let received := ({ s with state := { s.state with buffer := s.state.buffer ++ chunk } } :
    WireServer).applyReadBackpressure
  if s.pump = .idle then received.turn else received

/-- Whether the promise of an `enqueue` has settled, and how. -/
def settledWith (number : ℕ) (ok : Bool) : Bool :=
  s.queue.settled.any fun entry => entry.1.number = number && entry.2 = ok

end WireServer

/-- What may happen next. The socket's `error` does what its `close` does. -/
inductive WireEvent
  | data (chunk : List ℕ)
  | close
  | resolved (resolution : ConnectionResolution)
  | turn
  | forwarded (error : Option JsString)
  | released (error : Option JsString)
  | response (bytes : List ℕ)
  | queue (event : Event)
  deriving DecidableEq

/-- The event of the queue is no call of the connection. -/
def Event.isForeign (id : JsString) : Event → Bool
  | .enqueue connectionId _ | .detach connectionId => connectionId ≠ id
  | _ => true

namespace WireServer

def step (s : WireServer) : WireEvent → Option WireServer
  | .data chunk => some (s.data chunk)
  | .close => some s.releaseConnection
  | .resolved resolution => if s.pump = .resolving then some (s.resolved resolution) else none
  | .turn => if s.pump = .running then some s.turn else none
  | .forwarded error =>
      match s.pump with
      | .forwarding number =>
          if s.settledWith number error.isNone then
            match error with
            | none => some s.proceed
            | some message => some (s.fail sqlstateInternalError message).proceed
          else none
      | _ => none
  | .released error =>
      match s.pump with
      | .releasing rollback =>
          if rollback.elim error.isNone fun number => s.settledWith number error.isNone then
            match error with
            | none => some s.finish.proceed
            | some message => some (s.fail sqlstateInternalError message).stop
          else none
      | _ => none
  | .response bytes =>
      -- what the backend answers to a message of the connection
      if s.queue.executing.any fun message =>
          message.connectionId = s.state.id && !message.compensating then
        some (if s.state.phase = .closed then s else s.write bytes)
      else none
  | .queue event =>
      if event.isForeign s.state.id then (s.queue.step event).map fun queue => { s with queue }
      else none

/-- What an event does, where it may happen. -/
inductive Reacts (s : WireServer) : WireEvent → WireServer → Prop
  | data (chunk : List ℕ) : Reacts s (.data chunk) (s.data chunk)
  | close : Reacts s .close s.releaseConnection
  | resolved (hpump : s.pump = .resolving) (resolution : ConnectionResolution) :
      Reacts s (.resolved resolution) (s.resolved resolution)
  | turn (hpump : s.pump = .running) : Reacts s .turn s.turn
  | forwarded {number : ℕ} (hpump : s.pump = .forwarding number)
      (hsettled : s.settledWith number true = true) : Reacts s (.forwarded none) s.proceed
  | forwardFailed {number : ℕ} (hpump : s.pump = .forwarding number) (message : JsString)
      (hsettled : s.settledWith number false = true) :
      Reacts s (.forwarded (some message)) (s.fail sqlstateInternalError message).proceed
  | released {rollback : Option ℕ} (hpump : s.pump = .releasing rollback)
      (hsettled : (rollback.elim true fun number => s.settledWith number true) = true) :
      Reacts s (.released none) s.finish.proceed
  | releaseFailed {rollback : Option ℕ} (hpump : s.pump = .releasing rollback) (message : JsString)
      (hsettled : (rollback.elim false fun number => s.settledWith number false) = true) :
      Reacts s (.released (some message)) (s.fail sqlstateInternalError message).stop
  | response (bytes : List ℕ) (hexecuting : (s.queue.executing.any fun message =>
        message.connectionId = s.state.id && !message.compensating) = true) :
      Reacts s (.response bytes) (if s.state.phase = .closed then s else s.write bytes)
  | queue {event : Event} {queue : SessionQueue} (hforeign : event.isForeign s.state.id = true)
      (hqueue : s.queue.step event = some queue) : Reacts s (.queue event) { s with queue }

theorem reacts_of_step {s s' : WireServer} {event : WireEvent} (hstep : s.step event = some s') :
    Reacts s event s' := by
  unfold step at hstep
  split at hstep
  · obtain rfl := Option.some.inj hstep
    exact .data _
  · obtain rfl := Option.some.inj hstep
    exact .close
  · split at hstep
    · obtain rfl := Option.some.inj hstep
      exact .resolved ‹_› _
    · cases hstep
  · split at hstep
    · obtain rfl := Option.some.inj hstep
      exact .turn ‹_›
    · cases hstep
  · split at hstep
    · split at hstep
      · split at hstep
        · obtain rfl := Option.some.inj hstep
          exact .forwarded ‹_› ‹_›
        · obtain rfl := Option.some.inj hstep
          exact .forwardFailed ‹_› _ ‹_›
      · cases hstep
    · cases hstep
  · split at hstep
    · split at hstep
      · split at hstep
        · obtain rfl := Option.some.inj hstep
          exact .released ‹_› ‹_›
        · obtain rfl := Option.some.inj hstep
          exact .releaseFailed ‹_› _ ‹_›
      · cases hstep
    · cases hstep
  · split at hstep
    · obtain rfl := Option.some.inj hstep
      exact .response _ ‹_›
    · cases hstep
  · split at hstep
    · obtain ⟨queue, hqueue, rfl⟩ := Option.map_eq_some_iff.1 hstep
      exact .queue ‹_› hqueue
    · cases hstep

/-- A `ROLLBACK` of the queue ends the transaction. -/
def rollsBack (s : WireServer) : WireEvent → Bool
  | .queue event => s.queue.rollsBack event
  | _ => true

def Steps (s : WireServer) (event : WireEvent) (s' : WireServer) : Prop :=
  s.step event = some s' ∧ s.rollsBack event = true

end WireServer

end Kinglet.Postgres
