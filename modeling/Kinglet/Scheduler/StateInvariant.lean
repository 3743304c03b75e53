import Kinglet.Scheduler.Engine

/-!
# The state of a job and its schedule time

A paused job has no schedule time, and that of an enabled job is the next run of its schedule. An
update that gives a paused job a schedule, or an enabled one another time zone alone, breaks this, and
so does an execution that ends after its job was paused or updated, or was started while it was paused.
Everything else keeps it.
-/

namespace Kinglet.Scheduler

open Js Library

variable {cron : Cron} {s s' : SchedulerService} {event : SchedulerEvent} {job : JobRecord}

/-- The schedule time is what the state of the job asks for. -/
structure Scheduled (cron : Cron) (job : JobRecord) : Prop where
  paused : job.state = .paused → job.scheduleTime = none
  enabled : job.state = .enabled → ∃ nextRun,
    cron.getNextRunTime job.schedule job.timeZone job.scheduledAt = .ok nextRun ∧
      job.scheduleTime = some nextRun

/-- The schedule of an update goes to a job that is not paused, and a time zone alone to one that is
not enabled or has it already. -/
def UpdateFits (request : UpdateJobRequest) (existing : JobRecord) : Prop :=
  (request.schedule.isSome → existing.state ≠ .paused) ∧
    (request.schedule = none → existing.state = .enabled →
      request.timeZone.getD existing.timeZone = existing.timeZone)

/-- The stored job is not paused, and has the schedule and the time zone of the copy. -/
def CopyFits (copy stored : JobRecord) : Prop :=
  stored.state ≠ .paused ∧ stored.schedule = copy.schedule ∧ stored.timeZone = copy.timeZone

/-- An update that succeeds, and an execution that reschedules, fit the job they find. -/
def Fits (cron : Cron) (s : SchedulerService) : SchedulerEvent → Prop
  | .update name request => ∀ existing ∈ getJobByName s.jobs name,
      (rescheduled cron s.clock existing request).isOk → UpdateFits request existing
  | .runEnds index _ => ∀ copy ∈ s.runs[index]?, reschedules cron s.clock copy →
      ∀ stored ∈ getJobByName s.jobs copy.name, CopyFits copy stored
  | .tickEnds _ => ∀ copy ∈ s.ticking.bind List.head?, reschedules cron s.clock copy →
      ∀ stored ∈ getJobByName s.jobs copy.name, CopyFits copy stored
  | _ => True

instance (request : UpdateJobRequest) (existing : JobRecord) :
    Decidable (UpdateFits request existing) :=
  inferInstanceAs (Decidable (_ ∧ _))

instance (copy stored : JobRecord) : Decidable (CopyFits copy stored) :=
  inferInstanceAs (Decidable (_ ∧ _))

instance : ∀ event, Decidable (Fits cron s event)
  | .update name request => inferInstanceAs (Decidable (∀ existing ∈ getJobByName s.jobs name,
      (rescheduled cron s.clock existing request).isOk → UpdateFits request existing))
  | .runEnds index _ => inferInstanceAs (Decidable (∀ copy ∈ s.runs[index]?,
      reschedules cron s.clock copy →
        ∀ stored ∈ getJobByName s.jobs copy.name, CopyFits copy stored))
  | .tickEnds _ => inferInstanceAs (Decidable (∀ copy ∈ s.ticking.bind List.head?,
      reschedules cron s.clock copy →
        ∀ stored ∈ getJobByName s.jobs copy.name, CopyFits copy stored))
  | .create .. | .delete _ | .pause _ | .resume _ | .run _ | .tick | .advance _ => .isTrue trivial

def StepsFitting (cron : Cron) (s : SchedulerService) (event : SchedulerEvent)
    (s' : SchedulerService) : Prop :=
  s.Steps cron event s' ∧ Fits cron s event

/-! ## The operations -/

theorem map_eq_ok {ε α β : Type*} {x : Except ε α} {f : α → β} {b : β} (h : x.map f = .ok b) :
    ∃ a, x = .ok a ∧ f a = b := by
  cases x with
  | ok a => exact ⟨a, rfl, Except.ok.inj h⟩
  | error e => cases h

theorem firstRun_ok {now nextRun : ℤ} {schedule timeZone : JsString}
    (h : firstRun cron now schedule timeZone = .ok nextRun) :
    cron.getNextRunTime schedule timeZone now = .ok nextRun := by
  unfold firstRun at h
  cases hnext : cron.getNextRunTime schedule timeZone now with
  | ok time =>
      rw [hnext] at h
      rw [Except.ok.inj h]
  | error message =>
      rw [hnext] at h
      cases h

/-- What the first job of a name is written to. -/
theorem scheduled_writeJob {jobs : List JobRecord} (h : ∀ job ∈ jobs, Scheduled cron job)
    {name : JsString} {write : JobRecord → JobRecord}
    (hwrite : ∀ existing ∈ getJobByName jobs name, Scheduled cron (write existing)) :
    ∀ job ∈ writeJob name write jobs, Scheduled cron job := by
  intro job hmem
  rcases mem_writeJob hmem with hmem | ⟨existing, hexisting, rfl⟩
  · exact h job hmem
  · exact hwrite existing hexisting

variable {jobs jobs' : List JobRecord} {now : ℤ} {name : JsString}

theorem scheduled_createJob (h : ∀ job ∈ jobs, Scheduled cron job) {request : CreateJobRequest}
    (hcreate : createJob cron now jobs name request = .ok jobs') :
    ∀ job ∈ jobs', Scheduled cron job := by
  unfold createJob at hcreate
  split at hcreate
  · cases hcreate
  · split at hcreate
    · cases hcreate
    · obtain ⟨nextRun, hnext, rfl⟩ := map_eq_ok hcreate
      intro job hmem
      rcases List.mem_append.1 hmem with hmem | hmem
      · exact h job hmem
      · obtain rfl := List.mem_singleton.1 hmem
        exact ⟨nofun, fun _ => ⟨nextRun, firstRun_ok hnext, rfl⟩⟩

theorem scheduled_revised {existing updated : JobRecord} (h : Scheduled cron existing)
    {request : UpdateJobRequest} (hupdated : rescheduled cron now existing request = .ok updated)
    (hfits : UpdateFits request existing) : Scheduled cron (revised now updated request) := by
  obtain ⟨hpaused, hzone⟩ := hfits
  unfold rescheduled at hupdated
  split at hupdated
  · rename_i hnone
    obtain rfl := Except.ok.inj hupdated
    refine ⟨h.paused, fun henabled => ?_⟩
    obtain ⟨nextRun, hnext, htime⟩ := h.enabled henabled
    -- an enabled job keeps its time zone
    have hsame : (revised now existing request).timeZone = existing.timeZone := hzone hnone henabled
    rw [hsame]
    exact ⟨nextRun, hnext, htime⟩
  · rename_i schedule hsome
    split at hupdated
    · cases hupdated
    · obtain ⟨nextRun, hnext, rfl⟩ := map_eq_ok hupdated
      refine ⟨fun hstate => ?_, fun _ => ⟨nextRun, firstRun_ok hnext, rfl⟩⟩
      exact absurd hstate (hpaused (by rw [hsome]; rfl))

theorem scheduled_updateJob (h : ∀ job ∈ jobs, Scheduled cron job) {request : UpdateJobRequest}
    (hfits : ∀ existing ∈ getJobByName jobs name,
      (rescheduled cron now existing request).isOk → UpdateFits request existing)
    (hupdate : updateJob cron now jobs name request = .ok jobs') :
    ∀ job ∈ jobs', Scheduled cron job := by
  unfold updateJob at hupdate
  split at hupdate
  · cases hupdate
  · rename_i existing hexisting
    obtain ⟨updated, hupdated, rfl⟩ := map_eq_ok hupdate
    have hold := h existing (getJobByName_some jobs hexisting).1
    refine scheduled_writeJob h fun _ _ => scheduled_revised hold hupdated ?_
    exact hfits existing hexisting (by rw [hupdated]; rfl)

theorem scheduled_deleteJob (h : ∀ job ∈ jobs, Scheduled cron job)
    (hdelete : deleteJob jobs name = .ok jobs') : ∀ job ∈ jobs', Scheduled cron job := by
  unfold deleteJob at hdelete
  split at hdelete
  · cases hdelete
  · obtain rfl := Except.ok.inj hdelete
    exact fun job hmem => h job (List.mem_of_mem_eraseP hmem)

theorem scheduled_pauseJob (h : ∀ job ∈ jobs, Scheduled cron job)
    (hpause : pauseJob now jobs name = .ok jobs') : ∀ job ∈ jobs', Scheduled cron job := by
  unfold pauseJob at hpause
  split at hpause
  · cases hpause
  · split at hpause
    · cases hpause
    · obtain rfl := Except.ok.inj hpause
      exact scheduled_writeJob h fun _ _ => ⟨fun _ => rfl, nofun⟩

theorem scheduled_resumeJob (h : ∀ job ∈ jobs, Scheduled cron job)
    (hresume : resumeJob cron now jobs name = .ok jobs') : ∀ job ∈ jobs', Scheduled cron job := by
  unfold resumeJob at hresume
  split at hresume
  · cases hresume
  · rename_i existing hexisting
    split at hresume
    · obtain rfl := Except.ok.inj hresume
      exact h
    · obtain ⟨nextRun, hnext, rfl⟩ := map_eq_ok hresume
      refine scheduled_writeJob h fun found hfound => ⟨nofun, fun _ => ⟨nextRun, ?_, rfl⟩⟩
      obtain rfl := Option.some.inj (hexisting.symm.trans hfound)
      exact firstRun_ok hnext
    · cases hresume

theorem scheduled_executeJob (h : ∀ job ∈ jobs, Scheduled cron job) {outside : Outside}
    {copy : JobRecord} (hfits : reschedules cron now copy →
      ∀ stored ∈ getJobByName jobs copy.name, CopyFits copy stored) :
    ∀ job ∈ (executeJob cron outside now copy jobs).1, Scheduled cron job := by
  rcases executeJob_jobs cron outside now copy jobs with heq | ⟨nextRun, hreschedules, hnext, heq⟩
  · rwa [heq]
  · rw [heq]
    refine scheduled_writeJob h fun stored hstored => ?_
    obtain ⟨hstate, hschedule, hzone⟩ := hfits hreschedules stored hstored
    refine ⟨fun hpaused => absurd hpaused hstate, fun _ => ⟨nextRun, ?_, rfl⟩⟩
    rwa [← hschedule, ← hzone] at hnext

/-! ## Runs -/

theorem scheduled_commit (h : ∀ job ∈ s.jobs, Scheduled cron job)
    {result : Except Failure (List JobRecord)}
    (hresult : ∀ jobs', result = .ok jobs' → ∀ job ∈ jobs', Scheduled cron job) :
    ∀ job ∈ (s.commit result).jobs, Scheduled cron job := by
  unfold SchedulerService.commit
  split
  · exact hresult _ rfl
  · exact h

theorem scheduled_step (h : ∀ job ∈ s.jobs, Scheduled cron job)
    (hstep : StepsFitting cron s event s') : ∀ job ∈ s'.jobs, Scheduled cron job := by
  obtain ⟨hstep, hfits⟩ := hstep
  cases event with
  | create name request =>
      obtain rfl := Option.some.inj hstep
      exact scheduled_commit h fun _ => scheduled_createJob h
  | update name request =>
      obtain rfl := Option.some.inj hstep
      exact scheduled_commit h fun _ => scheduled_updateJob h hfits
  | delete name =>
      obtain rfl := Option.some.inj hstep
      exact scheduled_commit h fun _ => scheduled_deleteJob h
  | pause name =>
      obtain rfl := Option.some.inj hstep
      exact scheduled_commit h fun _ => scheduled_pauseJob h
  | resume name =>
      obtain rfl := Option.some.inj hstep
      exact scheduled_commit h fun _ => scheduled_resumeJob h
  | run name =>
      simp only [SchedulerService.Steps, SchedulerService.step] at hstep
      split at hstep <;> obtain rfl := Option.some.inj hstep <;> exact h
  | runEnds index outside =>
      simp only [SchedulerService.Steps, SchedulerService.step] at hstep
      split at hstep
      · cases hstep
      · obtain rfl := Option.some.inj hstep
        exact scheduled_executeJob h (hfits _ ‹_›)
  | tick =>
      simp only [SchedulerService.Steps, SchedulerService.step] at hstep
      split at hstep <;> obtain rfl := Option.some.inj hstep <;> exact h
  | tickEnds outside =>
      simp only [SchedulerService.Steps, SchedulerService.step] at hstep
      split at hstep
      · cases hstep
      · obtain rfl := Option.some.inj hstep
        exact h
      · rename_i job due hticking
        obtain rfl := Option.some.inj hstep
        exact scheduled_executeJob h (hfits job (by simp [hticking]))
  | advance milliseconds =>
      obtain rfl := Option.some.inj hstep
      exact h

/-- **The state of a job and its schedule time agree**, in every state of a run whose updates and
executions fit the jobs they find. -/
theorem state_and_schedule_agree {now : ℤ} {events : List SchedulerEvent}
    (hrun : Run (StepsFitting cron) (.start now) events s) : ∀ job ∈ s.jobs, Scheduled cron job :=
  hrun.invariant (fun _ _ _ (_ : True) hstep h => scheduled_step h hstep) (fun _ _ => trivial)
    fun _ hmem => nomatch hmem

/-! ## Samples -/

/-- A parser of two schedules, in whatever time zone. -/
def sampleCron : Cron where
  parseError schedule :=
    if schedule = "* * * * *" ∨ schedule = "*/5 * * * *" then none else some "Invalid expression"
  next schedule _ now :=
    if schedule = "* * * * *" then .ok ((now / 60000 + 1) * 60000)
    else if schedule = "*/5 * * * *" then .ok ((now / 300000 + 1) * 300000)
    else .error "Invalid expression"

def everyMinute : CreateJobRequest where
  description := none
  schedule := ⟨"* * * * *", by decide⟩
  timeZone := none
  target := .http ⟨"http://localhost/", by decide⟩ none none none
  retryConfig := none
  attemptDeadline := none

def everyFiveMinutes : UpdateJobRequest where
  description := none
  schedule := some ⟨"*/5 * * * *", by decide⟩
  timeZone := none
  target := none
  retryConfig := none
  attemptDeadline := none

/-- The attempts succeed. -/
def succeeding : Outside := ⟨fun _ => true, fun _ => 0⟩

/-- A job is executed by `runJob` and by a tick, paused, resumed and updated. -/
def fittingEvents : List SchedulerEvent :=
  [.create "j" everyMinute, .run "j", .advance 100, .runEnds 0 succeeding, .advance 60000, .tick,
    .advance 1000, .tickEnds succeeding, .pause "j", .advance 500, .resume "j",
    .update "j" everyFiveMinutes]

theorem state_and_schedule_agree_fittingEvents :
    ∃ s, Run (StepsFitting sampleCron) (.start 0) fittingEvents s ∧
      s.jobs.map JobRecord.scheduleTime = [some 300000] ∧
        ∀ job ∈ s.jobs, Scheduled sampleCron job := by
  obtain ⟨s, hrun, htest⟩ : ∃ s,
      Run (fun (s : SchedulerService) event s' => (if Fits sampleCron s event
        then s.step sampleCron event else none) = some s') (.start 0) fittingEvents s ∧
        decide (s.jobs.map JobRecord.scheduleTime = [some 300000]) = true :=
    Run.exists_of_foldlM (by decide +kernel)
  have hrun' : Run (StepsFitting sampleCron) (.start 0) fittingEvents s := by
    refine hrun.mono fun event _ s s' hstep => ?_
    split at hstep
    · exact ⟨hstep, ‹_›⟩
    · exact nomatch hstep
  exact ⟨s, hrun', of_decide_eq_true htest, state_and_schedule_agree hrun'⟩

/-- An update gives a paused job a schedule time. -/
theorem not_state_and_schedule_agree : ∃ s,
    Run (SchedulerService.Steps sampleCron) (.start 0)
      [.create "j" everyMinute, .pause "j", .update "j" everyFiveMinutes] s ∧
      s.jobs.map (fun job => (job.state, job.scheduleTime)) = [(.paused, some 300000)] ∧
        ¬∀ job ∈ s.jobs, Scheduled sampleCron job := by
  obtain ⟨s, hrun, htest⟩ : ∃ s,
      Run (SchedulerService.Steps sampleCron) (.start 0)
        [.create "j" everyMinute, .pause "j", .update "j" everyFiveMinutes] s ∧
        decide (s.jobs.map (fun job => (job.state, job.scheduleTime)) =
          [(.paused, some 300000)]) = true :=
    Run.exists_of_foldlM (by decide +kernel)
  have hjobs := of_decide_eq_true htest
  refine ⟨s, hrun, hjobs, fun h => ?_⟩
  cases hlist : s.jobs with
  | nil => simp [hlist] at hjobs
  | cons job jobs =>
      rw [hlist] at hjobs
      obtain ⟨hjob, -⟩ := List.cons.inj hjobs
      obtain ⟨hstate, htime⟩ := Prod.mk.inj hjob
      have hnone := (h job (by simp [hlist])).paused hstate
      exact nomatch hnone.symm.trans htime

end Kinglet.Scheduler
