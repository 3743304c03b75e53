import Kinglet.Scheduler.StateInvariant

/-!
# A tick serves the due jobs

A tick makes at least one attempt for a job it finds due, at most as many as the job's retry
configuration allows, and reschedules it, whatever becomes of the others; unless one of the job's
durations does not parse, which stops the execution before its first attempt, or the next run of its
schedule cannot be computed, which leaves the job due. The names of the stored jobs differ, so that
neither the log nor the table confuses two of them.
-/

namespace Kinglet.Scheduler

open Js Library

variable {cron : Cron} {env : JsString → Outside × ℤ} {outside : Outside} {now : ℤ}
  {job : JobRecord} {jobs jobs' due : List JobRecord} {name : JsString}

/-! ## Attempts -/

def attempts (activities : List Activity) : ℕ := activities.countP Activity.isAttempt

def attemptsOf (log : List (JsString × Activity)) (name : JsString) : ℕ :=
  log.countP fun entry => entry.1 = name && entry.2.isAttempt

@[simp] theorem attempts_attempt (activities : List Activity) :
    attempts (.attempt :: activities) = attempts activities + 1 :=
  List.countP_cons_of_pos rfl

@[simp] theorem attempts_retryIn (backoffMs : Float) (activities : List Activity) :
    attempts (.retryIn backoffMs :: activities) = attempts activities :=
  List.countP_cons_of_neg nofun

theorem attempts_retryLoop_le (config : RetryConfig) (outside : Outside) (least greatest retry : Float)
    (left attempt : ℕ) :
    attempts (retryLoop config outside least greatest retry left attempt) ≤ left := by
  induction left generalizing attempt with
  | zero => exact le_rfl
  | succ left ih =>
      unfold retryLoop
      rw [attempts_attempt, Nat.add_le_add_iff_right]
      split
      · exact Nat.zero_le left
      · rw [attempts_retryIn]
        exact ih (attempt + 1)

theorem attempts_retryLoop_pos (config : RetryConfig) (outside : Outside)
    (least greatest retry : Float) (left attempt : ℕ) :
    1 ≤ attempts (retryLoop config outside least greatest retry (left + 1) attempt) := by
  simp [retryLoop]

theorem attempts_of_reschedules (outside : Outside) (jobs : List JobRecord)
    (h : reschedules cron now job = true) :
    1 ≤ attempts (executeJob cron outside now job jobs).2 ∧
      attempts (executeJob cron outside now job jobs).2 ≤ 1 + job.retryConfig.retryCount := by
  obtain ⟨htarget, hdurations, -⟩ := reschedules_iff.1 h
  obtain ⟨durations, hdurations⟩ := Option.isSome_iff_exists.1 hdurations
  simp only [executeJob, runWithRetries, htarget, hdurations, if_true, Option.map_some]
  constructor
  · rw [Nat.add_comm]
    exact attempts_retryLoop_pos ..
  · exact attempts_retryLoop_le ..

theorem attemptsOf_append (log log' : List (JsString × Activity)) (name : JsString) :
    attemptsOf (log ++ log') name = attemptsOf log name + attemptsOf log' name :=
  List.countP_append

theorem attemptsOf_map (activities : List Activity) (name name' : JsString) :
    attemptsOf (activities.map (Prod.mk name)) name' =
      if name = name' then attempts activities else 0 := by
  unfold attemptsOf attempts
  rw [List.countP_map]
  split
  · rename_i hsame
    exact List.countP_congr fun activity _ => by simp [hsame]
  · rename_i hne
    exact List.countP_eq_zero.2 fun activity _ => by simp [hne]

/-! ## The table -/

theorem getJobByName_writeJob {write : JobRecord → JobRecord}
    (hname : ∀ job, job.name = name → (write job).name = name) :
    getJobByName (writeJob name write jobs) name = (getJobByName jobs name).map write := by
  induction jobs with
  | nil => rfl
  | cons first jobs ih =>
      unfold writeJob
      split
      · rename_i hfirst
        simp [getJobByName, hfirst, hname first hfirst]
      · rename_i hfirst
        unfold getJobByName at ih ⊢
        rw [List.find?_cons_of_neg (by simpa using hfirst),
          List.find?_cons_of_neg (by simpa using hfirst)]
        exact ih

theorem getJobByName_writeJob_of_ne {write : JobRecord → JobRecord} {other : JsString}
    (hname : ∀ job, job.name = name → (write job).name = name) (hne : name ≠ other) :
    getJobByName (writeJob name write jobs) other = getJobByName jobs other := by
  induction jobs with
  | nil => rfl
  | cons first jobs ih =>
      unfold writeJob
      split
      · rename_i hfirst
        unfold getJobByName
        rw [List.find?_cons_of_neg (by simpa [hname first hfirst] using hne),
          List.find?_cons_of_neg (by simpa [hfirst] using hne)]
      · unfold getJobByName at ih ⊢
        rw [List.find?_cons, List.find?_cons, ih]

theorem getJobByName_of_mem (h : (jobs.map JobRecord.name).Nodup) (hmem : job ∈ jobs) :
    getJobByName jobs job.name = some job := by
  induction jobs with
  | nil => cases hmem
  | cons first jobs ih =>
      obtain ⟨hfirst, hrest⟩ := List.nodup_cons.1 h
      unfold getJobByName at ih ⊢
      rcases List.mem_cons.1 hmem with rfl | hmem
      · simp
      · rw [List.find?_cons_of_neg]
        · exact ih hrest hmem
        · intro hsame
          refine hfirst (List.mem_map.2 ⟨job, hmem, ?_⟩)
          exact (of_decide_eq_true hsame).symm

theorem executeJob_of_not_reschedules (h : reschedules cron now job = false) :
    (executeJob cron outside now job jobs).1 = jobs := by
  rcases executeJob_jobs cron outside now job jobs with heq | ⟨nextRun, hreschedules, -⟩
  · exact heq
  · rw [h] at hreschedules
    cases hreschedules

theorem executeJob_of_reschedules (outside : Outside) (jobs : List JobRecord)
    (h : reschedules cron now job = true) :
    ∃ nextRun, cron.getNextRunTime job.schedule job.timeZone now = .ok nextRun ∧
      (executeJob cron outside now job jobs).1 =
        writeJob job.name (fun stored => stored.attempted now nextRun) jobs := by
  obtain ⟨htarget, hdurations, nextRun, hnext⟩ := reschedules_iff.1 h
  obtain ⟨durations, hdurations⟩ := Option.isSome_iff_exists.1 hdurations
  refine ⟨nextRun, hnext, ?_⟩
  simp only [executeJob, runWithRetries, htarget, hdurations, if_true, Option.map_some,
    updateJobSchedule, hnext]
  rfl

theorem getJobByName_executeJob_of_ne (hne : job.name ≠ name) :
    getJobByName (executeJob cron outside now job jobs).1 name = getJobByName jobs name := by
  cases h : reschedules cron now job with
  | false => rw [executeJob_of_not_reschedules h]
  | true =>
      obtain ⟨nextRun, -, heq⟩ := executeJob_of_reschedules outside jobs h
      rw [heq]
      exact getJobByName_writeJob_of_ne (fun _ hname => hname) hne

/-! ## The loop -/

/-- A job that is not due is neither attempted nor written. -/
theorem executeJobs_of_not_mem (cron : Cron) (env : JsString → Outside × ℤ)
    (jobs : List JobRecord) (h : name ∉ due.map JobRecord.name) :
    getJobByName (executeJobs cron env due jobs).1 name = getJobByName jobs name ∧
      attemptsOf (executeJobs cron env due jobs).2 name = 0 := by
  induction due generalizing jobs with
  | nil => exact ⟨rfl, rfl⟩
  | cons job due ih =>
      obtain ⟨hne, hrest⟩ := not_or.1 (mt List.mem_cons.2 h)
      obtain ⟨hlookup, hnone⟩ := ih (executeJob cron (env job.name).1 (env job.name).2 job jobs).1 hrest
      refine ⟨hlookup.trans (getJobByName_executeJob_of_ne (Ne.symm hne)), ?_⟩
      rw [executeJobs, attemptsOf_append, attemptsOf_map, if_neg (Ne.symm hne), hnone]

/-- A due job is executed once, between the jobs before it and those after. -/
theorem executeJobs_of_mem (cron : Cron) (env : JsString → Outside × ℤ)
    (jobs : List JobRecord) (hnodup : (due.map JobRecord.name).Nodup) (hmem : job ∈ due) :
    ∃ before, getJobByName before job.name = getJobByName jobs job.name ∧
      getJobByName (executeJobs cron env due jobs).1 job.name =
        getJobByName (executeJob cron (env job.name).1 (env job.name).2 job before).1 job.name ∧
      attemptsOf (executeJobs cron env due jobs).2 job.name =
        attempts (executeJob cron (env job.name).1 (env job.name).2 job before).2 := by
  induction due generalizing jobs with
  | nil => cases hmem
  | cons first due ih =>
      obtain ⟨hfirst, hrest⟩ := List.nodup_cons.1 hnodup
      rcases List.mem_cons.1 hmem with rfl | hmem
      · obtain ⟨hlookup, hnone⟩ := executeJobs_of_not_mem cron env
          (executeJob cron (env job.name).1 (env job.name).2 job jobs).1 hfirst
        refine ⟨jobs, rfl, hlookup, ?_⟩
        rw [executeJobs, attemptsOf_append, attemptsOf_map, if_pos rfl, hnone, Nat.add_zero]
      · have hne : first.name ≠ job.name := fun hsame =>
          hfirst (List.mem_map.2 ⟨job, hmem, hsame.symm⟩)
        obtain ⟨before, hbefore, hlookup, hattempts⟩ := ih (executeJob cron
          (env first.name).1 (env first.name).2 first jobs).1 hrest hmem
        refine ⟨before, hbefore.trans (getJobByName_executeJob_of_ne hne), hlookup, ?_⟩
        rw [executeJobs, attemptsOf_append, attemptsOf_map, if_neg hne, hattempts, Nat.zero_add]

/-! ## What the service stores -/

theorem Stored.createJob (h : Stored jobs) {request : CreateJobRequest}
    (hcreate : createJob cron now jobs name request = .ok jobs') : Stored jobs' := by
  unfold Scheduler.createJob at hcreate
  split at hcreate
  · cases hcreate
  · split at hcreate
    · cases hcreate
    · rename_i hnone
      obtain ⟨nextRun, -, rfl⟩ := map_eq_ok hcreate
      refine ⟨?_, fun job hmem => ?_⟩
      · rw [List.map_append, List.map_singleton]
        refine List.nodup_append.2 ⟨h.names, by simp, fun other hother new hnew => ?_⟩
        obtain rfl := List.mem_singleton.1 hnew
        rintro rfl
        exact getJobByName_none jobs hnone hother
      · rcases List.mem_append.1 hmem with hmem | hmem
        · exact h.target job hmem
        · obtain rfl := List.mem_singleton.1 hmem
          cases htarget : request.target <;>
            simp [requestToJobRecord, htarget, TargetRequest.httpTarget, TargetRequest.pubsubTarget]

theorem Stored.updateJob (h : Stored jobs) {request : UpdateJobRequest}
    (hupdate : updateJob cron now jobs name request = .ok jobs') : Stored jobs' := by
  unfold Scheduler.updateJob at hupdate
  split at hupdate
  · cases hupdate
  · rename_i existing hexisting
    obtain ⟨updated, hupdated, rfl⟩ := map_eq_ok hupdate
    obtain ⟨hmem, hname⟩ := getJobByName_some jobs hexisting
    have hsame : updated.name = existing.name ∧ updated.httpTarget = existing.httpTarget ∧
        updated.pubsubTarget = existing.pubsubTarget := by
      unfold rescheduled at hupdated
      split at hupdated
      · obtain rfl := Except.ok.inj hupdated
        exact ⟨rfl, rfl, rfl⟩
      · split at hupdated
        · cases hupdated
        · obtain ⟨nextRun, -, rfl⟩ := map_eq_ok hupdated
          exact ⟨rfl, rfl, rfl⟩
    refine h.writeJob (fun _ _ => hsame.1.trans hname) fun _ _ _ => ?_
    cases htarget : request.target with
    | none =>
        have hold := h.target existing hmem
        simpa [revised, htarget, hsame.2.1, hsame.2.2] using hold
    | some target =>
        cases target <;>
          simp [revised, htarget, TargetRequest.httpTarget, TargetRequest.pubsubTarget]

theorem Stored.deleteJob (h : Stored jobs) (hdelete : deleteJob jobs name = .ok jobs') :
    Stored jobs' := by
  unfold Scheduler.deleteJob at hdelete
  split at hdelete
  · cases hdelete
  · obtain rfl := Except.ok.inj hdelete
    exact ⟨h.names.sublist (List.eraseP_sublist.map _),
      fun job hmem => h.target job (List.mem_of_mem_eraseP hmem)⟩

theorem Stored.pauseJob (h : Stored jobs) (hpause : pauseJob now jobs name = .ok jobs') :
    Stored jobs' := by
  unfold Scheduler.pauseJob at hpause
  split at hpause
  · cases hpause
  · split at hpause
    · cases hpause
    · obtain rfl := Except.ok.inj hpause
      exact h.writeJob (fun _ hname => hname) fun job hmem _ => h.target job hmem

theorem Stored.resumeJob (h : Stored jobs) (hresume : resumeJob cron now jobs name = .ok jobs') :
    Stored jobs' := by
  unfold Scheduler.resumeJob at hresume
  split at hresume
  · cases hresume
  · split at hresume
    · obtain rfl := Except.ok.inj hresume
      exact h
    · obtain ⟨nextRun, -, rfl⟩ := map_eq_ok hresume
      exact h.writeJob (fun _ hname => hname) fun job hmem _ => h.target job hmem
    · cases hresume

theorem Stored.executeJob (h : Stored jobs) : Stored (executeJob cron outside now job jobs).1 := by
  rcases executeJob_jobs cron outside now job jobs with heq | ⟨nextRun, -, -, heq⟩
  · rwa [heq]
  · rw [heq]
    exact h.writeJob (fun _ hname => hname) fun job hmem _ => h.target job hmem

variable {s s' : SchedulerService} {event : SchedulerEvent} {events : List SchedulerEvent}

theorem Stored.commit (h : Stored s.jobs) {result : Except Failure (List JobRecord)}
    (hresult : ∀ jobs', result = .ok jobs' → Stored jobs') : Stored (s.commit result).jobs := by
  unfold SchedulerService.commit
  split
  · exact hresult _ rfl
  · exact h

theorem Stored.step (h : Stored s.jobs) (hstep : s.Steps cron event s') : Stored s'.jobs := by
  cases event with
  | create name request =>
      obtain rfl := Option.some.inj hstep
      exact h.commit fun _ => h.createJob
  | update name request =>
      obtain rfl := Option.some.inj hstep
      exact h.commit fun _ => h.updateJob
  | delete name =>
      obtain rfl := Option.some.inj hstep
      exact h.commit fun _ => h.deleteJob
  | pause name =>
      obtain rfl := Option.some.inj hstep
      exact h.commit fun _ => h.pauseJob
  | resume name =>
      obtain rfl := Option.some.inj hstep
      exact h.commit fun _ => h.resumeJob
  | run name =>
      simp only [SchedulerService.Steps, SchedulerService.step] at hstep
      split at hstep <;> obtain rfl := Option.some.inj hstep <;> exact h
  | runEnds index outside =>
      simp only [SchedulerService.Steps, SchedulerService.step] at hstep
      split at hstep
      · cases hstep
      · obtain rfl := Option.some.inj hstep
        exact h.executeJob
  | tick =>
      simp only [SchedulerService.Steps, SchedulerService.step] at hstep
      split at hstep <;> obtain rfl := Option.some.inj hstep <;> exact h
  | tickEnds outside =>
      simp only [SchedulerService.Steps, SchedulerService.step] at hstep
      split at hstep
      · cases hstep
      · obtain rfl := Option.some.inj hstep
        exact h
      · obtain rfl := Option.some.inj hstep
        exact h.executeJob
  | advance milliseconds =>
      obtain rfl := Option.some.inj hstep
      exact h

theorem stored_of_run {now : ℤ} (hrun : Run (SchedulerService.Steps cron) (.start now) events s) :
    Stored s.jobs := by
  have hstart : Stored (SchedulerService.start now).jobs :=
    ⟨List.nodup_nil, fun _ hmem => nomatch hmem⟩
  have h := hrun.invariant (fun (s : SchedulerService) _ _ (_ : True) hstep (h : Stored s.jobs) =>
    h.step hstep) (fun _ _ => trivial) hstart
  exact h

/-! ## The tick -/

/-- An enabled job whose schedule time has come. -/
def IsDueAt (now : ℤ) (job : JobRecord) : Prop :=
  job.state = .enabled ∧ ∃ time, job.scheduleTime = some time ∧ time ≤ now

/-- Of a tick at `now`: the job was attempted, within its bound, and its schedule time is later. -/
structure Served (now : ℤ) (job : JobRecord) (jobs : List JobRecord)
    (log : List (JsString × Activity)) : Prop where
  attempted : 1 ≤ attemptsOf log job.name
  bounded : attemptsOf log job.name ≤ 1 + job.retryConfig.retryCount
  advanced : ∃ stored time, getJobByName jobs job.name = some stored ∧
    stored.scheduleTime = some time ∧ now < time

variable (hcron : ∀ schedule zone start nextRun, cron.next schedule zone start = .ok nextRun →
  start < nextRun) (hlater : ∀ name, now ≤ (env name).2)

include hcron hlater in
theorem served_of_reschedules (hstored : Stored jobs) (hmem : job ∈ jobs)
    (hdue : job.isDue now = true) (hreschedules : reschedules cron (env job.name).2 job = true) :
    Served now job (tick cron env now jobs).1 (tick cron env now jobs).2 := by
  have hnodup : ((findDueJobs jobs now).map JobRecord.name).Nodup :=
    hstored.names.sublist (List.filter_sublist.map _)
  obtain ⟨before, hbefore, hlookup, hattempts⟩ := executeJobs_of_mem cron env jobs hnodup
    (List.mem_filter.2 ⟨hmem, hdue⟩)
  obtain ⟨hpos, hle⟩ := attempts_of_reschedules (env job.name).1 before hreschedules
  obtain ⟨nextRun, hnext, heq⟩ := executeJob_of_reschedules (env job.name).1 before
    hreschedules
  refine ⟨hattempts ▸ hpos, hattempts ▸ hle, job.attempted (env job.name).2 nextRun, nextRun, ?_,
    rfl, (hlater job.name).trans_lt (hcron _ _ _ _ hnext)⟩
  calc getJobByName (tick cron env now jobs).1 job.name
      = getJobByName (writeJob job.name
          (fun stored => stored.attempted (env job.name).2 nextRun) before) job.name := by
        rw [← heq]
        exact hlookup
    _ = (getJobByName before job.name).map
          fun stored => stored.attempted (env job.name).2 nextRun :=
        getJobByName_writeJob fun _ hname => hname
    _ = some (job.attempted (env job.name).2 nextRun) := by
        rw [hbefore, getJobByName_of_mem hstored.names hmem]
        rfl

include hcron hlater in
/-- **The due jobs are served**: a tick at `now` attempts and advances a due job exactly if it finds
the job by the text of its schedule time, the job's durations parse, and its next run can be computed
when its attempts are over. The other jobs do not matter. -/
theorem due_job_served_iff {start : ℤ}
    (hrun : Run (SchedulerService.Steps cron) (.start start) events s) (hmem : job ∈ s.jobs)
    (hdue : IsDueAt now job) :
    Served now job (tick cron env now s.jobs).1 (tick cron env now s.jobs).2 ↔
      job.isDue now = true ∧ reschedules cron (env job.name).2 job = true := by
  have hstored := stored_of_run hrun
  constructor
  · intro hserved
    have hnodup : ((findDueJobs s.jobs now).map JobRecord.name).Nodup :=
      hstored.names.sublist (List.filter_sublist.map _)
    have hisDue : job.isDue now = true := by
      by_contra hnot
      have hname : job.name ∉ (findDueJobs s.jobs now).map JobRecord.name := by
        intro hname
        obtain ⟨other, hother, hsame⟩ := List.mem_map.1 hname
        obtain ⟨hother, hotherDue⟩ := List.mem_filter.1 hother
        have hfound := getJobByName_of_mem hstored.names hother
        rw [hsame, getJobByName_of_mem hstored.names hmem] at hfound
        obtain rfl := Option.some.inj hfound
        exact hnot hotherDue
      have hnone := (executeJobs_of_not_mem cron env s.jobs hname).2
      have hattempted : 1 ≤ 0 := hnone ▸ hserved.attempted
      omega
    refine ⟨hisDue, ?_⟩
    by_contra hnot
    obtain ⟨before, hbefore, hlookup, -⟩ := executeJobs_of_mem cron env s.jobs hnodup
      (List.mem_filter.2 ⟨hmem, hisDue⟩)
    rw [executeJob_of_not_reschedules (Bool.eq_false_of_not_eq_true hnot), hbefore,
      getJobByName_of_mem hstored.names hmem] at hlookup
    -- the job is as it was
    obtain ⟨stored, time, hfound, htime, hafter⟩ := hserved.advanced
    obtain rfl := Option.some.inj (hlookup.symm.trans hfound)
    obtain ⟨-, time', htime', hbefore'⟩ := hdue
    obtain rfl := Option.some.inj (htime.symm.trans htime')
    omega
  · rintro ⟨hisDue, hreschedules⟩
    exact served_of_reschedules hcron hlater hstored hmem hisDue hreschedules

theorem sampleCron_later (schedule : JsString) (zone : Option JsString) (start nextRun : ℤ)
    (h : sampleCron.next schedule zone start = .ok nextRun) : start < nextRun := by
  simp only [sampleCron] at h
  split at h
  · obtain rfl := Except.ok.inj h
    omega
  · split at h
    · obtain rfl := Except.ok.inj h
      omega
    · cases h

/-- The only job of a run, by evaluation. -/
theorem exists_job_of_create (request : CreateJobRequest)
    (test : List JobRecord → JobRecord → Bool)
    (h : ((SchedulerService.start 0).step sampleCron (.create "j" request)).any
      (fun s => s.jobs.any (test s.jobs)) = true) :
    ∃ s, Run (SchedulerService.Steps sampleCron) (.start 0) [.create "j" request] s ∧
      ∃ job ∈ s.jobs, test s.jobs job = true := by
  cases hstep : (SchedulerService.start 0).step sampleCron (.create "j" request) with
  | none =>
      rw [hstep] at h
      cases h
  | some s =>
      rw [hstep] at h
      exact ⟨s, .single hstep, List.any_eq_true.1 h⟩

theorem due_job_served_iff_everyMinute : ∃ s,
    Run (SchedulerService.Steps sampleCron) (.start 0) [.create "j" everyMinute] s ∧
      ∃ job ∈ s.jobs, Served 60000 job (tick sampleCron (fun _ => (succeeding, 60100)) 60000 s.jobs).1
        (tick sampleCron (fun _ => (succeeding, 60100)) 60000 s.jobs).2 := by
  obtain ⟨s, hrun, job, hmem, htest⟩ := exists_job_of_create everyMinute (fun _ job =>
    decide (job.state = .enabled ∧ job.scheduleTime = some 60000) &&
      (job.isDue 60000 && reschedules sampleCron 60100 job)) (by decide +kernel)
  obtain ⟨hfields, htest⟩ := Bool.and_eq_true_iff.1 htest
  obtain ⟨hstate, htime⟩ := of_decide_eq_true hfields
  refine ⟨s, hrun, job, hmem, (due_job_served_iff sampleCron_later (fun _ => by decide) hrun hmem
    ⟨hstate, 60000, htime, le_rfl⟩).2 ?_⟩
  exact Bool.and_eq_true_iff.1 htest

/-- A backoff of `5` is accepted, and is no duration. -/
def badBackoff : CreateJobRequest :=
  { everyMinute with retryConfig := some ⟨none, none, some "5", none, none⟩ }

/-- The job is due, and is neither attempted nor advanced. -/
theorem not_due_job_served : ∃ s,
    Run (SchedulerService.Steps sampleCron) (.start 0) [.create "j" badBackoff] s ∧
      ∃ job ∈ s.jobs, IsDueAt 60000 job ∧
        attemptsOf (tick sampleCron (fun _ => (succeeding, 60100)) 60000 s.jobs).2 job.name = 0 ∧
          ¬Served 60000 job (tick sampleCron (fun _ => (succeeding, 60100)) 60000 s.jobs).1
            (tick sampleCron (fun _ => (succeeding, 60100)) 60000 s.jobs).2 := by
  obtain ⟨s, hrun, job, hmem, htest⟩ := exists_job_of_create badBackoff (fun jobs job =>
    decide (job.state = .enabled ∧ job.scheduleTime = some 60000) &&
      decide (attemptsOf (tick sampleCron (fun _ => (succeeding, 60100)) 60000 jobs).2 job.name = 0))
      (by decide +kernel)
  obtain ⟨hfields, hnone⟩ := Bool.and_eq_true_iff.1 htest
  obtain ⟨hstate, htime⟩ := of_decide_eq_true hfields
  refine ⟨s, hrun, job, hmem, ⟨hstate, 60000, htime, le_rfl⟩, of_decide_eq_true hnone, ?_⟩
  intro hserved
  have hattempted := hserved.attempted
  rw [of_decide_eq_true hnone] at hattempted
  omega

end Kinglet.Scheduler
