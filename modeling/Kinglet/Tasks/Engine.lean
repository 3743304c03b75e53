import Kinglet.Js.Json
import Kinglet.Js.Time
import Kinglet.Library.Interleaving
import Mathlib.Data.List.Sort

/-!
# The dispatch engine of Cloud Tasks

A tick looks the running queues up, and for each its due tasks, starts a dispatch for every task the
queue's bucket has a token for, and waits for all of them. Dispatches run concurrently, as do
`runTask` and `deleteTask`; every call is split at its awaits. The time and the answers of the HTTP
requests come from outside, and `lte` is how the provider compares two texts.
-/

namespace Kinglet.Tasks

open Js Library

/-! ## Records -/

inductive TaskStatus
  | pending
  | dispatching
  | failed
  | tombstone
  deriving DecidableEq

/-- One attempt; the times are instants. -/
structure Attempt where
  scheduleTime : JsString
  dispatchTime : ℤ
  responseTime : ℤ
  code : ℕ
  message : JsString

structure Task where
  name : JsString
  queueName : JsString
  httpRequest : Option JsString
  scheduleTime : JsString
  dispatchCount : ℕ
  responseCount : ℕ
  firstAttempt : Option Attempt
  lastAttempt : Option Attempt
  status : TaskStatus
  tombstoneExpiry : Option JsString

structure RateLimits where
  maxDispatchesPerSecond : Float
  maxBurstSize : Float
  maxConcurrentDispatches : ℕ

/-- A retry configuration as the API stores it: a number of attempts, where `-1` is no limit, and
durations that nothing has checked. -/
structure TaskRetryConfig where
  maxAttempts : ℤ
  minBackoff : JsString
  maxBackoff : JsString
  maxDoublings : ℕ

structure Queue where
  name : JsString
  running : Bool
  rateLimits : RateLimits
  retryConfig : TaskRetryConfig
  tombstoneTtl : JsString

/-! ## Token buckets -/

structure TokenBucket where
  tokens : Float
  concurrent : ℕ
  limits : RateLimits

namespace TokenBucket

def new (limits : RateLimits) : TokenBucket := ⟨limits.maxBurstSize, 0, limits⟩

def acquire (bucket : TokenBucket) : Option TokenBucket :=
  if bucket.tokens ≤ 0 ∨ bucket.limits.maxConcurrentDispatches ≤ bucket.concurrent then none
  else some { bucket with tokens := bucket.tokens - 1, concurrent := bucket.concurrent + 1 }

def release (bucket : TokenBucket) : TokenBucket :=
  { bucket with concurrent := bucket.concurrent - 1 }

def refill (bucket : TokenBucket) : TokenBucket :=
  { bucket with
    tokens := mathMin (bucket.tokens + bucket.limits.maxDispatchesPerSecond)
      bucket.limits.maxBurstSize }

end TokenBucket

/-! ## The shared state -/

/-- The promise of a dispatch, with the task it is for. -/
inductive PromiseState
  | pending
  | resolved
  | rejected
  deriving DecidableEq

structure DispatchPromise where
  task : JsString
  state : PromiseState

/-- The tables, the engine's own fields, its promises, and the HTTP requests sent so far, each by
the name of its task. -/
structure State where
  tasks : List Task
  queues : List Queue
  buckets : JsString → Option TokenBucket
  running : Bool
  tombstoneCleanupCounter : ℕ
  promises : List DispatchPromise
  requests : List JsString

/-- What comes from outside: the time, and the answer to a request. -/
structure Response where
  ok : Bool
  code : ℕ
  message : JsString

structure Input where
  now : ℤ
  response : Response

namespace State

variable (s : State)

/-- `getTaskByName(name)`. -/
def getTaskByName (name : JsString) : Option Task := s.tasks.find? fun task => task.name = name

/-- `getQueueByName(name)`. -/
def getQueueByName (name : JsString) : Option Queue := s.queues.find? fun queue => queue.name = name

/-- `updateById` of a task, by its name, which is unique. -/
def updateTask (name : JsString) (update : Task → Task) : State :=
  { s with tasks := s.tasks.map fun task => if task.name = name then update task else task }

def updateBucket (name : JsString) (update : TokenBucket → TokenBucket) : State :=
  { s with buckets := fun other =>
      if other = name then (s.buckets other).map update else s.buckets other }

/-- `getOrCreateBucket(queue)`, then `refill`. -/
def refill (queue : Queue) : State :=
  let bucket := (s.buckets queue.name).getD (.new queue.rateLimits)
  { s with buckets := fun other =>
      if other = queue.name then some bucket.refill else s.buckets other }

def settle (promise : ℕ) (state : PromiseState) : State :=
  { s with promises := s.promises.modify promise fun p => { p with state := state } }

end State

/-- `a <= b` by code units, the order in which `scheduleTime` is sorted. -/
def textLe (a b : JsString) : Bool := !decide (b < a)

/-- `findDispatchableTasks(queueName, limit)`. -/
def findDispatchableTasks (lte : JsString → JsString → Bool) (s : State) (queueName : JsString) (limit : ℕ) (now : ℤ) :
    List Task :=
  ((s.tasks.filter fun task =>
    decide (task.queueName = queueName) && decide (task.status = .pending) &&
      lte task.scheduleTime (toISOString now) && task.httpRequest.isSome).insertionSort
    fun a b => textLe a.scheduleTime b.scheduleTime).take limit

/-- `cleanupExpiredTombstones()`. -/
def cleanupExpiredTombstones (lte : JsString → JsString → Bool) (s : State) (now : ℤ) : State :=
  { s with tasks := s.tasks.filter fun task =>
      !(decide (task.status = .tombstone) &&
        task.tombstoneExpiry.any fun expiry => lte expiry (toISOString now)) }

/-! ## Backoff -/

/-- The durations a dispatch parses before anything else, `none` when it throws. -/
def TaskRetryConfig.backoffs (config : TaskRetryConfig) : Option (Float × Float) := do
  let minBackoff ← parseDurationSeconds config.minBackoff
  let maxBackoff ← parseDurationSeconds config.maxBackoff
  return (minBackoff, maxBackoff)

/-- `computeBackoffSeconds(attempt, minBackoff, maxBackoff, maxDoublings)`. -/
def computeBackoffSeconds (attempt : ℕ) (minBackoff maxBackoff : Float) (maxDoublings : ℕ) : Float :=
  mathMin (minBackoff * twoPow (min attempt maxDoublings)) maxBackoff

/-- `nextAttempt >= maxAttempts`. -/
def TaskRetryConfig.exhausts (config : TaskRetryConfig) (nextAttempt : ℕ) : Bool :=
  config.maxAttempts ≠ -1 && decide (config.maxAttempts ≤ nextAttempt)

/-! ## Calls -/

/-- The last update of a dispatch. -/
inductive Closing
  | tombstone (tombstoneExpiry : JsString) (attempt : Attempt)
  | failed (attempt : Attempt)
  | retry (scheduleTime : JsString) (attempt : Attempt)

/-- The stored task after the last update, where `copy` is the task as the dispatch read it. -/
def Closing.apply (copy : Task) (closing : Closing) (task : Task) : Task :=
  let close := fun (attempt : Attempt) (task : Task) =>
    { task with
      responseCount := copy.responseCount + 1
      lastAttempt := some attempt
      firstAttempt := if copy.firstAttempt.isNone then some attempt else task.firstAttempt }
  match closing with
  | .tombstone expiry attempt =>
      close attempt { task with status := .tombstone, tombstoneExpiry := some expiry }
  | .failed attempt => close attempt { task with status := .failed }
  | .retry scheduleTime attempt =>
      close attempt { task with status := .pending, scheduleTime := scheduleTime }

/-- Where a dispatch is: what its next segment does. -/
inductive Stage
  | mark
  | send
  | answer (dispatchTime : ℤ)
  | close (closing : Closing)
  | settle (ok : Bool)

/-- A dispatch in flight, of a task and a queue as they were read; a tick waits for its promise. -/
structure Dispatch where
  task : Task
  queue : Queue
  promise : Option ℕ
  stage : Stage

inductive Request
  | tick
  | runTask (name : JsString)
  | deleteTask (name : JsString)

inductive Call
  | tick
  | visit (queues : List Queue)
  | start (queue : Queue) (tasks : List Task) (queues : List Queue) (promises : List ℕ)
  | wait (promises : List ℕ)
  | cleaned
  | dispatch (d : Dispatch)
  | runTask (name : JsString)
  | runQueue (task : Task)
  | runDispatch (task : Task) (queue : Option Queue)
  | deleteTask (name : JsString)
  | deleteQueue (task : Task)
  | deleteMark (name : JsString) (queue : Option Queue)
  | deleteWrite (name tombstoneExpiry : JsString)

inductive Outcome
  | ticked
  | dispatched (task : JsString) (ok : Bool)
  | notFound (name : JsString)
  | ran (name : JsString)
  | failed (name : JsString)
  | deleted (name : JsString)
  deriving DecidableEq

def Request.begin : Request → Call
  | .tick => .tick
  | .runTask name => .runTask name
  | .deleteTask name => .deleteTask name

/-- The synchronous part of `dispatchTask(task, queue)`: the durations are parsed and the request is
looked at; then the task is looked up for its first update. -/
def dispatchTask (task : Task) (queue : Queue) : Stage :=
  match queue.retryConfig.backoffs with
  | none => .settle false
  | some _ => if (task.httpRequest.bind jsonParse).isNone then .settle true else .mark

/-- What a dispatch computes from the answer, `none` when a date does not exist. -/
def closing (d : Dispatch) (dispatchTime : ℤ) (input : Input) : Option Closing := do
  let attempt : Attempt := {
    scheduleTime := d.task.scheduleTime
    dispatchTime := dispatchTime
    responseTime := input.now
    code := input.response.code
    message := input.response.message }
  if input.response.ok then
    let ttl ← parseDurationSeconds d.queue.tombstoneTtl
    let expiry ← dateAfter input.now ttl
    return .tombstone (toISOString expiry) attempt
  else if d.queue.retryConfig.exhausts (d.task.dispatchCount + 1) then return .failed attempt
  else
    let (minBackoff, maxBackoff) ← d.queue.retryConfig.backoffs
    let next ← dateAfter input.now
      (computeBackoffSeconds d.task.dispatchCount minBackoff maxBackoff
        d.queue.retryConfig.maxDoublings)
    return .retry (toISOString next) attempt

/-- A segment of a dispatch. -/
def dispatchSegment (s : State) (d : Dispatch) (input : Input) :
    State × Progress Call Outcome :=
  match d.stage with
  | .mark =>
      (s.updateTask d.task.name fun task =>
        { task with status := .dispatching, dispatchCount := d.task.dispatchCount + 1 },
        .pending (.dispatch { d with stage := .send }))
  | .send =>
      ({ s with requests := s.requests ++ [d.task.name] },
        .pending (.dispatch { d with stage := .answer input.now }))
  | .answer dispatchTime =>
      match closing d dispatchTime input with
      | some closing => (s, .pending (.dispatch { d with stage := .close closing }))
      | none => (s, .pending (.dispatch { d with stage := .settle false }))
  | .close closing =>
      (s.updateTask d.task.name (closing.apply d.task),
        .pending (.dispatch { d with stage := .settle true }))
  | .settle ok =>
      match d.promise with
      | some promise =>
          ((s.updateBucket d.queue.name .release).settle promise
            (if ok then .resolved else .rejected), .finished (.dispatched d.task.name ok))
      | none => (s, .finished (if ok then .ran d.task.name else .failed d.task.name))

/-- The loop over the tasks of a queue: a dispatch for each, as long as the bucket has tokens. -/
def startDispatches (queue : Queue) : State → List Task → State × List Dispatch
  | s, [] => (s, [])
  | s, task :: tasks =>
      match (s.buckets queue.name).bind TokenBucket.acquire with
      | none => (s, [])
      | some bucket =>
          let started : Dispatch :=
            ⟨task, queue, some s.promises.length, dispatchTask task queue⟩
          let (s, rest) := startDispatches queue
            { s with
              buckets := fun other => if other = queue.name then some bucket else s.buckets other
              promises := s.promises ++ [⟨task.name, .pending⟩] } tasks
          (s, started :: rest)

/-- The next queue of a tick, or the wait for all its dispatches. -/
def nextQueue (lte : JsString → JsString → Bool) (s : State) (promises : List ℕ) (now : ℤ) :
    List Queue → State × Call
  | [] => (s, .wait promises)
  | queue :: queues =>
      let s := s.refill queue
      (s, .start queue (findDispatchableTasks lte s queue.name 10 now) queues promises)

def State.promiseStates (s : State) (promises : List ℕ) : List PromiseState :=
  promises.filterMap fun promise => (s.promises[promise]?).map DispatchPromise.state

/-- `TOMBSTONE_CLEANUP_INTERVAL`. -/
def tombstoneCleanupInterval : ℕ := 60

/-- `await Promise.all(dispatchPromises)` and the end of a tick: a rejection ends the wait at once,
otherwise the tick stays here until all promises are resolved. -/
def waitSegment (lte : JsString → JsString → Bool) (s : State) (promises : List ℕ) (now : ℤ) :
    State × Progress Call Outcome :=
  if .rejected ∈ s.promiseStates promises then ({ s with running := false }, .finished .ticked)
  else if .pending ∈ s.promiseStates promises then (s, .pending (.wait promises))
  else if s.tombstoneCleanupCounter + 1 ≥ tombstoneCleanupInterval then
    (cleanupExpiredTombstones lte { s with tombstoneCleanupCounter := 0 } now, .pending .cleaned)
  else
    ({ s with tombstoneCleanupCounter := s.tombstoneCleanupCounter + 1, running := false },
      .finished .ticked)

def segment (lte : JsString → JsString → Bool) (s : State) (call : Call) (input : Input) :
    State × Progress Call Outcome :=
  match call with
  | .tick =>
      if s.running then (s, .finished .ticked)
      else
        ({ s with running := true }, .pending (.visit (s.queues.filter fun queue => queue.running)))
  | .visit queues =>
      let (s, rest) := nextQueue lte s [] input.now queues
      (s, .pending rest)
  | .start queue tasks queues promises =>
      let (s, started) := startDispatches queue s tasks
      let (s, rest) := nextQueue lte s (promises ++ started.filterMap Dispatch.promise) input.now
        queues
      (s, .forked rest (started.map .dispatch))
  | .wait promises => waitSegment lte s promises input.now
  | .cleaned => ({ s with running := false }, .finished .ticked)
  | .dispatch d => dispatchSegment s d input
  | .runTask name =>
      match s.getTaskByName name with
      | none => (s, .finished (.notFound name))
      | some task =>
          if task.status = .tombstone then (s, .finished (.notFound name))
          else (s, .pending (.runQueue task))
  | .runQueue task => (s, .pending (.runDispatch task (s.getQueueByName task.queueName)))
  | .runDispatch task queue =>
      match queue with
      | none => (s, .finished (.ran task.name))
      | some queue => (s, .pending (.dispatch ⟨task, queue, none, dispatchTask task queue⟩))
  | .deleteTask name =>
      match s.getTaskByName name with
      | none => (s, .finished (.notFound name))
      | some task =>
          if task.status = .tombstone then (s, .finished (.notFound name))
          else (s, .pending (.deleteQueue task))
  | .deleteQueue task =>
      (s, .pending (.deleteMark task.name (s.getQueueByName task.queueName)))
  | .deleteMark name queue =>
      let ttl := match queue with
        | some queue => parseDurationSeconds queue.tombstoneTtl
        | none => some 3600
      match ttl.bind (dateAfter input.now) with
      | some expiry => (s, .pending (.deleteWrite name (toISOString expiry)))
      | none => (s, .finished (.failed name))
  | .deleteWrite name expiry =>
      (s.updateTask name fun task =>
        { task with status := .tombstone, tombstoneExpiry := some expiry },
        .finished (.deleted name))

/-- The calls of the engine and of the task service. -/
def engine (lte : JsString → JsString → Bool) : Async State Request Call Input Outcome :=
  ⟨Request.begin, segment lte⟩

end Kinglet.Tasks
