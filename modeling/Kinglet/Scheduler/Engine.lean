import Kinglet.Js.Time
import Kinglet.Library.Run
import Kinglet.Scheduler.Jobs

/-!
# The execution engine of Cloud Scheduler

An execution of a job makes its attempts and then reschedules the job, by the copy of the record it
was started with. A tick executes the due jobs one after the other; `runJob` executes a job at any
time. What the attempts come to and how long they take is given from outside.
-/

namespace Kinglet.Scheduler

open Js Library

/-! ## Attempts -/

/-- What an execution meets: whether each attempt succeeds, and the milliseconds since the start once
it is over. -/
structure Outside where
  answers : ℕ → Bool
  elapsed : ℕ → ℤ

inductive Activity
  | attempt
  | retryIn (backoffMs : Float)

def Activity.isAttempt : Activity → Bool
  | .attempt => true
  | .retryIn _ => false

/-- The three durations in milliseconds, `none` when one does not parse: the least and the greatest
backoff, and how long to retry. -/
def RetryConfig.durations (config : RetryConfig) : Option (Float × Float × Float) := do
  let minBackoff ← parseDurationSeconds config.minBackoffDuration
  let maxBackoff ← parseDurationSeconds config.maxBackoffDuration
  let maxRetry ← parseDurationSeconds config.maxRetryDuration
  pure (minBackoff * 1000, maxBackoff * 1000, maxRetry * 1000)

def backoffMs (config : RetryConfig) (minBackoffMs maxBackoffMs : Float) (attempt : ℕ) : Float :=
  mathMin (minBackoffMs * twoPow (min attempt config.maxDoublings)) maxBackoffMs

/-- Whether the loop ends after an attempt, with so many left. -/
def endsAfter (outside : Outside) (maxRetryDurationMs : Float) (left attempt : ℕ) : Bool :=
  outside.answers attempt || left = 0 ||
    (0 < maxRetryDurationMs && maxRetryDurationMs ≤ Float.ofInt (outside.elapsed attempt))

/-- The loop of `runWithRetries`, with so many attempts left. -/
def retryLoop (config : RetryConfig) (outside : Outside)
    (minBackoffMs maxBackoffMs maxRetryDurationMs : Float) : ℕ → ℕ → List Activity
  | 0, _ => []
  | left + 1, attempt =>
      .attempt ::
        if endsAfter outside maxRetryDurationMs left attempt then []
        else
          .retryIn (backoffMs config minBackoffMs maxBackoffMs attempt) ::
            retryLoop config outside minBackoffMs maxBackoffMs maxRetryDurationMs left (attempt + 1)

/-- `runWithRetries(jobName, retryConfig, attemptFn)`, `none` when it throws. -/
def runWithRetries (config : RetryConfig) (outside : Outside) : Option (List Activity) :=
  config.durations.map fun durations =>
    retryLoop config outside durations.1 durations.2.1 durations.2.2 (1 + config.retryCount) 0

/-! ## Executions -/

variable (cron : Cron)

/-- `updateJobSchedule(job)`. -/
def updateJobSchedule (now : ℤ) (job : JobRecord) (jobs : List JobRecord) : List JobRecord :=
  match cron.getNextRunTime job.schedule job.timeZone now with
  | .error _ => jobs
  | .ok nextRun =>
      writeJob job.name (fun stored => { stored with
        lastAttemptTime := some now
        scheduleTime := some nextRun
        scheduledAt := now }) jobs

/-- `executeJob(job)`, which ends at `now`: the jobs it leaves, and what it did. -/
def executeJob (outside : Outside) (now : ℤ) (job : JobRecord) (jobs : List JobRecord) :
    List JobRecord × List Activity :=
  if job.pubsubTarget.isSome || job.httpTarget.isSome then
    match runWithRetries job.retryConfig outside with
    | none => (jobs, [])
    | some activities => (updateJobSchedule cron now job jobs, activities)
  else (jobs, [])

/-- The loop of `tick()` over the due jobs. `env` says what each execution meets and when it ends. -/
def executeJobs (env : JsString → Outside × ℤ) :
    List JobRecord → List JobRecord → List JobRecord × List (JsString × Activity)
  | [], jobs => (jobs, [])
  | job :: due, jobs =>
      let executed := executeJob cron (env job.name).1 (env job.name).2 job jobs
      let rest := executeJobs env due executed.1
      (rest.1, executed.2.map (Prod.mk job.name) ++ rest.2)

/-- `tick()` at `now`, with nothing else going on. -/
def tick (env : JsString → Outside × ℤ) (now : ℤ) (jobs : List JobRecord) :
    List JobRecord × List (JsString × Activity) :=
  executeJobs cron env (findDueJobs jobs now) jobs

/-! ## The service and the engine together -/

/-- The tick under way has its first job executed and the rest to execute; `runs` are the copies with
which `runJob` started executions that have not ended. -/
structure SchedulerService where
  jobs : List JobRecord
  clock : ℤ
  ticking : Option (List JobRecord)
  runs : List JobRecord

inductive SchedulerEvent
  | create (name : JsString) (request : CreateJobRequest)
  | update (name : JsString) (request : UpdateJobRequest)
  | delete (name : JsString)
  | pause (name : JsString)
  | resume (name : JsString)
  | run (name : JsString)
  | runEnds (index : ℕ) (outside : Outside)
  | tick
  | tickEnds (outside : Outside)
  | advance (milliseconds : ℕ)

namespace SchedulerService

def start (now : ℤ) : SchedulerService where
  jobs := []
  clock := now
  ticking := none
  runs := []

variable (s : SchedulerService)

/-- A call of the service, which changes nothing when it fails. -/
def commit (result : Except Failure (List JobRecord)) : SchedulerService :=
  match result with
  | .ok jobs => { s with jobs }
  | .error _ => s

/-- An execution ends. -/
def execute (outside : Outside) (job : JobRecord) : SchedulerService :=
  { s with jobs := (executeJob cron outside s.clock job s.jobs).1 }

def step : SchedulerEvent → Option SchedulerService
  | .create name request => some (s.commit (createJob cron s.clock s.jobs name request))
  | .update name request => some (s.commit (updateJob cron s.clock s.jobs name request))
  | .delete name => some (s.commit (deleteJob s.jobs name))
  | .pause name => some (s.commit (pauseJob s.clock s.jobs name))
  | .resume name => some (s.commit (resumeJob cron s.clock s.jobs name))
  | .run name =>
      match getJobByName s.jobs name with
      | none => some s
      | some existing => some { s with runs := s.runs ++ [existing] }
  | .runEnds index outside =>
      match s.runs[index]? with
      | none => none
      | some job => some { s.execute cron outside job with runs := s.runs.eraseIdx index }
  | .tick =>
      match s.ticking with
      | none => some { s with ticking := some (findDueJobs s.jobs s.clock) }
      | some _ => some s
  | .tickEnds outside =>
      match s.ticking with
      | none => none
      | some [] => some { s with ticking := none }
      | some (job :: due) => some { s.execute cron outside job with ticking := some due }
  | .advance milliseconds => some { s with clock := s.clock + milliseconds }

def Steps (cron : Cron) (s : SchedulerService) (event : SchedulerEvent) (s' : SchedulerService) :
    Prop :=
  s.step cron event = some s'

end SchedulerService

/-! ## What an execution writes -/

variable {cron} {outside : Outside} {now : ℤ} {job : JobRecord} {jobs : List JobRecord}

/-- The record as an execution reschedules it. -/
def JobRecord.attempted (stored : JobRecord) (now nextRun : ℤ) : JobRecord :=
  { stored with
    lastAttemptTime := some now
    scheduleTime := some nextRun
    scheduledAt := now }

/-- The execution gets to its attempts, and the next run exists. -/
def reschedules (cron : Cron) (now : ℤ) (job : JobRecord) : Bool :=
  (job.pubsubTarget.isSome || job.httpTarget.isSome) && job.retryConfig.durations.isSome &&
    (cron.getNextRunTime job.schedule job.timeZone now).isOk

theorem reschedules_iff : reschedules cron now job = true ↔
    (job.pubsubTarget.isSome || job.httpTarget.isSome) = true ∧
      job.retryConfig.durations.isSome = true ∧
        ∃ nextRun, cron.getNextRunTime job.schedule job.timeZone now = .ok nextRun := by
  unfold reschedules
  cases cron.getNextRunTime job.schedule job.timeZone now <;>
    simp [Except.isOk, Except.toBool]

/-- An execution leaves the jobs alone, or reschedules one. -/
theorem executeJob_jobs (cron : Cron) (outside : Outside) (now : ℤ) (job : JobRecord)
    (jobs : List JobRecord) : (executeJob cron outside now job jobs).1 = jobs ∨
    ∃ nextRun, reschedules cron now job = true ∧
      cron.getNextRunTime job.schedule job.timeZone now = .ok nextRun ∧
        (executeJob cron outside now job jobs).1 =
          writeJob job.name (fun stored => stored.attempted now nextRun) jobs := by
  unfold executeJob
  split
  · rename_i htarget
    split
    · exact .inl rfl
    · rename_i activities hruns
      unfold updateJobSchedule
      split
      · exact .inl rfl
      · rename_i nextRun hnext
        unfold runWithRetries at hruns
        obtain ⟨durations, hdurations, -⟩ := Option.map_eq_some_iff.1 hruns
        have hreschedules : reschedules cron now job = true :=
          reschedules_iff.2 ⟨htarget, by rw [hdurations]; rfl, nextRun, hnext⟩
        exact .inr ⟨nextRun, hreschedules, hnext, rfl⟩
  · exact .inl rfl

end Kinglet.Scheduler
