import Kinglet.Js.DateOrder

/-!
# The jobs of Cloud Scheduler

The operations of the job service on the table of jobs. A request is what its schema accepts: the
schedule, the URI and the topic name are not empty, and there is one target at most. Times are stored
as ISO texts; the records here hold their instants. `Cron` is the parser of schedules, whose next run
depends on the schedule, the time zone and the instant to start from.
-/

namespace Kinglet.Scheduler

open Js

/-! ## Schedules -/

/-- The parser: the error of a schedule it does not parse, and the next run, or the error it throws. -/
structure Cron where
  parseError : JsString → Option JsString
  next : JsString → Option JsString → ℤ → Except JsString ℤ

namespace Cron

variable (cron : Cron)

/-- `validate(expression)`: the error, if there is one. -/
def validate (expression : JsString) : Option JsString :=
  if trim expression = [] then some "Cron expression cannot be empty" else cron.parseError expression

/-- `getNextRunTime(expression, timezone)`: an empty time zone is not passed on. -/
def getNextRunTime (expression timeZone : JsString) (now : ℤ) : Except JsString ℤ :=
  cron.next expression (if timeZone = [] then none else some timeZone) now

end Cron

/-! ## Records -/

inductive JobState
  | enabled
  | paused
  | disabled
  | updateFailed
  deriving DecidableEq

/-- A text of a schema with `min(1)`. -/
abbrev NonemptyText := {text : JsString // text ≠ []}

structure HttpTarget where
  uri : NonemptyText
  httpMethod : JsString
  headers : Option (List (JsString × JsString))
  body : Option JsString
  deriving DecidableEq

structure PubsubTarget where
  topicName : NonemptyText
  data : Option JsString
  attributes : Option (List (JsString × JsString))
  deriving DecidableEq

structure RetryConfig where
  retryCount : ℕ
  maxRetryDuration : JsString
  minBackoffDuration : JsString
  maxBackoffDuration : JsString
  maxDoublings : ℕ
  deriving DecidableEq

/-- `DEFAULT_RETRY_CONFIG`. -/
def defaultRetryConfig : RetryConfig where
  retryCount := 0
  maxRetryDuration := "0s"
  minBackoffDuration := "5s"
  maxBackoffDuration := "3600s"
  maxDoublings := 5

def defaultTimezone : JsString := "UTC"

def defaultAttemptDeadline : JsString := "180s"

structure JobRecord where
  name : JsString
  description : JsString
  schedule : JsString
  timeZone : JsString
  state : JobState
  httpTarget : Option HttpTarget
  pubsubTarget : Option PubsubTarget
  retryConfig : RetryConfig
  attemptDeadline : JsString
  lastAttemptTime : Option ℤ
  scheduleTime : Option ℤ
  userUpdateTime : ℤ
  /-- The instant from which `scheduleTime` was computed last, which the code does not keep. -/
  scheduledAt : ℤ

/-! ## Requests -/

/-- A target of a request, with the method that the schema made of the one given. -/
inductive TargetRequest
  | http (uri : NonemptyText) (httpMethod : Option JsString)
      (headers : Option (List (JsString × JsString))) (body : Option JsString)
  | pubsub (target : PubsubTarget)
  deriving DecidableEq

namespace TargetRequest

/-- `normalizeHttpTarget(target)`. -/
def httpTarget : TargetRequest → Option HttpTarget
  | .http uri httpMethod headers body => some ⟨uri, httpMethod.getD "POST", headers, body⟩
  | .pubsub _ => none

def pubsubTarget : TargetRequest → Option PubsubTarget
  | .http .. => none
  | .pubsub target => some target

end TargetRequest

/-- What `RetryConfigSchema` accepts. Nothing has checked the durations. -/
structure RetryConfigRequest where
  retryCount : Option ℕ
  maxRetryDuration : Option JsString
  minBackoffDuration : Option JsString
  maxBackoffDuration : Option JsString
  maxDoublings : Option ℕ
  deriving DecidableEq

def mergeRetryConfig (request : Option RetryConfigRequest) (base : RetryConfig) : RetryConfig :=
  match request with
  | none => base
  | some request =>
      { retryCount := request.retryCount.getD base.retryCount
        maxRetryDuration := request.maxRetryDuration.getD base.maxRetryDuration
        minBackoffDuration := request.minBackoffDuration.getD base.minBackoffDuration
        maxBackoffDuration := request.maxBackoffDuration.getD base.maxBackoffDuration
        maxDoublings := request.maxDoublings.getD base.maxDoublings }

structure CreateJobRequest where
  description : Option JsString
  schedule : NonemptyText
  timeZone : Option JsString
  target : TargetRequest
  retryConfig : Option RetryConfigRequest
  attemptDeadline : Option JsString
  deriving DecidableEq

structure UpdateJobRequest where
  description : Option JsString
  schedule : Option NonemptyText
  timeZone : Option JsString
  target : Option TargetRequest
  retryConfig : Option RetryConfigRequest
  attemptDeadline : Option JsString
  deriving DecidableEq

def requestToJobRecord (name : JsString) (body : CreateJobRequest) (scheduleTime now : ℤ) :
    JobRecord where
  name := name
  description := body.description.getD []
  schedule := body.schedule.1
  timeZone := body.timeZone.getD defaultTimezone
  state := .enabled
  httpTarget := body.target.httpTarget
  pubsubTarget := body.target.pubsubTarget
  retryConfig := mergeRetryConfig body.retryConfig defaultRetryConfig
  attemptDeadline := body.attemptDeadline.getD defaultAttemptDeadline
  lastAttemptTime := none
  scheduleTime := some scheduleTime
  userUpdateTime := now
  scheduledAt := now

/-! ## The repository -/

/-- `getJobByName(name)`. -/
def getJobByName (jobs : List JobRecord) (name : JsString) : Option JobRecord :=
  jobs.find? fun job => job.name = name

/-- `repo.updateJob(name, …)`, which writes the first job of the name. -/
def writeJob (name : JsString) (write : JobRecord → JobRecord) : List JobRecord → List JobRecord
  | [] => []
  | job :: jobs => if job.name = name then write job :: jobs else job :: writeJob name write jobs

/-- The conditions of `findDueJobs(date)`: texts are compared. -/
def JobRecord.isDue (job : JobRecord) (now : ℤ) : Bool :=
  job.state = .enabled && job.scheduleTime.any fun time => toISOString time ≤ toISOString now

def findDueJobs (jobs : List JobRecord) (now : ℤ) : List JobRecord :=
  jobs.filter fun job => job.isDue now

/-! ## The service -/

inductive SchedulerErrorCode
  | notFound
  | alreadyExists
  | invalidArgument
  | failedPrecondition
  deriving DecidableEq

/-- A `SchedulerError`, or another error, with its message. -/
inductive Failure
  | scheduler (code : SchedulerErrorCode) (message : JsString)
  | thrown (message : JsString)
  deriving DecidableEq

variable (cron : Cron) (now : ℤ) (jobs : List JobRecord)

def notFound (name : JsString) : Failure := .scheduler .notFound (js "Job " ++ name ++ js " not found")

/-- The next run of a schedule that is valid. -/
def firstRun (schedule timeZone : JsString) : Except Failure ℤ :=
  (cron.getNextRunTime schedule timeZone now).mapError .thrown

def invalidCron (error : JsString) : Failure :=
  .scheduler .invalidArgument (js "Invalid cron expression: " ++ error)

def createJob (name : JsString) (request : CreateJobRequest) : Except Failure (List JobRecord) :=
  match cron.validate request.schedule.1 with
  | some error => .error (invalidCron error)
  | none =>
      match getJobByName jobs name with
      | some _ => .error (.scheduler .alreadyExists (js "Job " ++ name ++ js " already exists"))
      | none =>
          (firstRun cron now request.schedule.1 (request.timeZone.getD defaultTimezone)).map
            fun nextRun => jobs ++ [requestToJobRecord name request nextRun now]

/-- The part of `updateJob` about the schedule. -/
def rescheduled (existing : JobRecord) (request : UpdateJobRequest) : Except Failure JobRecord :=
  match request.schedule with
  | none => .ok existing
  | some schedule =>
      match cron.validate schedule.1 with
      | some error => .error (invalidCron error)
      | none =>
          (firstRun cron now schedule.1 (request.timeZone.getD existing.timeZone)).map fun nextRun =>
            { existing with
              schedule := schedule.1
              scheduleTime := some nextRun
              scheduledAt := now }

/-- The part of `updateJob` about everything else. -/
def revised (existing : JobRecord) (request : UpdateJobRequest) : JobRecord :=
  { existing with
    description := request.description.getD existing.description
    timeZone := request.timeZone.getD existing.timeZone
    httpTarget := request.target.elim existing.httpTarget TargetRequest.httpTarget
    pubsubTarget := request.target.elim existing.pubsubTarget TargetRequest.pubsubTarget
    retryConfig := mergeRetryConfig request.retryConfig existing.retryConfig
    attemptDeadline := request.attemptDeadline.getD existing.attemptDeadline
    userUpdateTime := now }

def updateJob (name : JsString) (request : UpdateJobRequest) : Except Failure (List JobRecord) :=
  match getJobByName jobs name with
  | none => .error (notFound name)
  | some existing =>
      (rescheduled cron now existing request).map fun updated =>
        writeJob name (fun _ => revised now updated request) jobs

def deleteJob (name : JsString) : Except Failure (List JobRecord) :=
  match getJobByName jobs name with
  | none => .error (notFound name)
  | some _ => .ok (jobs.eraseP fun job => job.name = name)

def pauseJob (name : JsString) : Except Failure (List JobRecord) :=
  match getJobByName jobs name with
  | none => .error (notFound name)
  | some existing =>
      if existing.state = .paused then
        .error (.scheduler .failedPrecondition (js "Job " ++ name ++ js " is already paused"))
      else
        .ok (writeJob name (fun job => { job with
          state := .paused
          scheduleTime := none
          userUpdateTime := now }) jobs)

/-- `existing.state` in a message. -/
def JobState.text : JobState → JsString
  | .enabled => "ENABLED"
  | .paused => "PAUSED"
  | .disabled => "DISABLED"
  | .updateFailed => "UPDATE_FAILED"

def resumeJob (name : JsString) : Except Failure (List JobRecord) :=
  match getJobByName jobs name with
  | none => .error (notFound name)
  | some existing =>
      match existing.state with
      | .enabled => .ok jobs
      | .paused =>
          (firstRun cron now existing.schedule existing.timeZone).map fun nextRun =>
            writeJob name (fun job => { job with
              state := .enabled
              scheduleTime := some nextRun
              scheduledAt := now
              userUpdateTime := now }) jobs
      | state =>
          .error (.scheduler .failedPrecondition (js "Job " ++ name ++
            js " is not paused (current state: " ++ state.text ++ js ")"))

/-! ## What is stored -/

/-- The jobs have names of their own and one target each. -/
structure Stored (jobs : List JobRecord) : Prop where
  names : (jobs.map JobRecord.name).Nodup
  target : ∀ job ∈ jobs, job.httpTarget.isSome ≠ job.pubsubTarget.isSome

theorem getJobByName_some {name : JsString} {job : JobRecord}
    (h : getJobByName jobs name = some job) : job ∈ jobs ∧ job.name = name := by
  unfold getJobByName at h
  exact ⟨List.mem_of_find?_eq_some h, by simpa using List.find?_some h⟩

theorem getJobByName_none {name : JsString} (h : getJobByName jobs name = none) :
    name ∉ jobs.map JobRecord.name := by
  intro hmem
  obtain ⟨job, hjob, rfl⟩ := List.mem_map.1 hmem
  have hfound := List.find?_eq_none.1 h job hjob
  simp at hfound

variable {jobs}

/-- What `writeJob` leaves and what it writes. -/
theorem mem_writeJob {name : JsString} {write : JobRecord → JobRecord} {job : JobRecord}
    (h : job ∈ writeJob name write jobs) :
    job ∈ jobs ∨ ∃ existing, getJobByName jobs name = some existing ∧ job = write existing := by
  induction jobs with
  | nil => exact .inl h
  | cons first jobs ih =>
      unfold writeJob at h
      split at h
      · have hfirst : getJobByName (first :: jobs) name = some first := by
          simp [getJobByName, ‹first.name = name›]
        rcases List.mem_cons.1 h with rfl | hmem
        · exact .inr ⟨first, hfirst, rfl⟩
        · exact .inl (List.mem_cons_of_mem _ hmem)
      · have hne : ¬first.name = name := ‹_›
        rcases List.mem_cons.1 h with rfl | hmem
        · exact .inl List.mem_cons_self
        · refine (ih hmem).imp (List.mem_cons_of_mem _) ?_
          rintro ⟨existing, hexisting, heq⟩
          refine ⟨existing, ?_, heq⟩
          rw [getJobByName, List.find?_cons_of_neg (by simpa using hne)]
          exact hexisting

theorem map_name_writeJob {name : JsString} {write : JobRecord → JobRecord}
    (hname : ∀ job, job.name = name → (write job).name = name) :
    (writeJob name write jobs).map JobRecord.name = jobs.map JobRecord.name := by
  induction jobs with
  | nil => rfl
  | cons first jobs ih =>
      unfold writeJob
      split
      · rename_i hfirst
        rw [List.map_cons, List.map_cons, hname first hfirst, hfirst]
      · rw [List.map_cons, List.map_cons, ih]

theorem Stored.writeJob (h : Stored jobs) {name : JsString} {write : JobRecord → JobRecord}
    (hname : ∀ job, job.name = name → (write job).name = name)
    (htarget : ∀ job ∈ jobs, job.name = name →
      (write job).httpTarget.isSome ≠ (write job).pubsubTarget.isSome) :
    Stored (writeJob name write jobs) := by
  refine ⟨(map_name_writeJob hname).symm ▸ h.names, fun job hmem => ?_⟩
  rcases mem_writeJob hmem with hmem | ⟨existing, hexisting, rfl⟩
  · exact h.target job hmem
  · obtain ⟨hmem, hsame⟩ := getJobByName_some jobs hexisting
    exact htarget existing hmem hsame

end Kinglet.Scheduler
