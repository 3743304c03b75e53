import Kinglet.Tasks.TickCompleteness

/-!
# Counting the attempts of a task

A dispatch stores the count of its copy plus one, and then sends its request. The stored count is
that of the requests sent, and of those about to be sent, as long as no dispatch counts from an old
copy. The retry of a dispatch makes the task pending again, whatever the count is by then: below the
limit it does no harm, so only the dispatch that reaches the limit has to have the task to itself.
-/

namespace Kinglet.Tasks

open Js Library

variable {lte : JsString → JsString → Bool} {s : State} {name queueName : JsString} {m : ℤ}
  {call : Call} {input : Input}

/-! ## Dispatches of one task -/

/-- A dispatch of the task. -/
def dispatches (name : JsString) : Call → Bool
  | .dispatch d => d.task.name = name
  | _ => false

/-- The copy of a dispatch whose next segment is the first update. -/
def marking (name : JsString) : Call → Option Task
  | .dispatch ⟨task, _, _, .mark⟩ => if task.name = name then some task else none
  | _ => none

/-- A dispatch that is about to send its request. -/
def sending (name : JsString) : Call → Bool
  | .dispatch ⟨task, _, _, .send⟩ => task.name = name
  | _ => false

/-- The copy of a dispatch between its first update and its last. -/
def marked (name : JsString) : Call → Option Task
  | .dispatch ⟨task, _, _, .send⟩ | .dispatch ⟨task, _, _, .answer _⟩
  | .dispatch ⟨task, _, _, .close _⟩ => if task.name = name then some task else none
  | _ => none

/-- The first update of a dispatch finds the count that the dispatch read, and brings it to the
limit only if no other dispatch is between its updates. -/
def InTurn (name : JsString) (m : ℤ) (pool : Pool State Call Outcome) : Move Request Input → Prop
  | .start _ => True
  | .resume index _ => ∀ call ∈ pool.calls[index]?, ∀ copy ∈ marking name call,
      (∃ task ∈ pool.shared.tasks, task.name = name ∧ task.dispatchCount = copy.dispatchCount) ∧
        ((copy.dispatchCount + 1 : ℤ) < m ∨ ∀ other ∈ pool.calls, marked name other = none)

instance (pool : Pool State Call Outcome) : ∀ move, Decidable (InTurn name m pool move)
  | .start _ => .isTrue trivial
  | .resume index _ => inferInstanceAs <| Decidable <|
      ∀ call ∈ pool.calls[index]?, ∀ copy ∈ marking name call,
        (∃ task ∈ pool.shared.tasks, task.name = name ∧ task.dispatchCount = copy.dispatchCount) ∧
          ((copy.dispatchCount + 1 : ℤ) < m ∨ ∀ other ∈ pool.calls, marked name other = none)

/-! ## What the calls know -/

/-- The queue has the limit, if it is the one of the task. -/
def Limits (queueName : JsString) (m : ℤ) (queue : Queue) : Prop :=
  queue.name = queueName → queue.retryConfig.maxAttempts = m

/-- A tick has copies below the limit only, and a task is made pending again below the limit. -/
def Knows (name queueName : JsString) (m : ℤ) : Call → Prop
  | .visit queues => ∀ queue ∈ queues, Limits queueName m queue
  | .start queue tasks queues _ => (∀ other ∈ queue :: queues, Limits queueName m other) ∧
      ∀ task ∈ tasks, task.name = name → queue.name = queueName ∧ (task.dispatchCount : ℤ) < m
  | .dispatch d => d.task.name = name → d.queue.retryConfig.maxAttempts = m ∧
      (d.promise.isSome → (d.task.dispatchCount : ℤ) < m) ∧
      ∀ scheduleTime attempt, d.stage = .close (.retry scheduleTime attempt) →
        (d.task.dispatchCount + 1 : ℤ) < m
  | .runQueue task => task.name = name → task.queueName = queueName
  | .runDispatch task queue =>
      task.name = name → ∀ found ∈ queue, found.retryConfig.maxAttempts = m
  | _ => True

/-- The task is in the queue, whose limit is given, and pending only below it. -/
structure Tabled (name queueName : JsString) (m : ℤ) (s : State) : Prop where
  homed : Homed s name queueName
  queues : ∀ queue ∈ s.queues, Limits queueName m queue
  pending : ∀ task ∈ s.tasks, task.name = name → task.status = .pending →
    (task.dispatchCount : ℤ) < m

theorem Homed.queueName_eq (h : Homed s name queueName) {task : Task} (htask : task ∈ s.tasks)
    (hname : task.name = name) : task.queueName = queueName :=
  h _ (List.mem_map_of_mem htask) hname

theorem knows_nextQueue (h : Tabled name queueName m s) (promises : List ℕ) (now : ℤ)
    {queues : List Queue} (hqueues : ∀ queue ∈ queues, Limits queueName m queue) :
    Knows name queueName m (nextQueue lte s promises now queues).2 := by
  cases queues with
  | nil => trivial
  | cons queue queues =>
    refine ⟨hqueues, fun task htask hname => ?_⟩
    obtain ⟨hstored, hqueue, hpending⟩ := mem_of_dispatchable htask
    exact ⟨hqueue.symm.trans (h.homed.queueName_eq hstored hname),
      h.pending task hstored hname hpending⟩

theorem dispatchTask_ne_close (task : Task) (queue : Queue) (closing : Closing) :
    dispatchTask task queue ≠ .close closing := by
  unfold dispatchTask
  repeat' split
  all_goals exact fun h => by cases h

/-- A retry is an attempt below the limit. -/
theorem lt_of_closing {d : Dispatch} (hm : 1 ≤ m) (hlimit : d.queue.retryConfig.maxAttempts = m)
    {dispatchTime : ℤ} {scheduleTime : JsString} {attempt : Attempt}
    (h : closing d dispatchTime input = some (.retry scheduleTime attempt)) :
    (d.task.dispatchCount + 1 : ℤ) < m := by
  have hexhausts : d.queue.retryConfig.exhausts (d.task.dispatchCount + 1) = false := by
    cases hcase : d.queue.retryConfig.exhausts (d.task.dispatchCount + 1) with
    | false => rfl
    | true =>
      unfold closing at h
      rw [hcase] at h
      cases hok : input.response.ok <;> simp [hok, Option.bind_eq_some_iff] at h
  rw [TaskRetryConfig.exhausts, hlimit] at hexhausts
  simp only [Bool.and_eq_false_iff, decide_eq_false_iff_not] at hexhausts
  rcases hexhausts with hunlimited | hlt
  · omega
  · push_cast at hlt
    omega

theorem knows_dispatchSegment (hm : 1 ≤ m) {d : Dispatch}
    (h : Knows name queueName m (.dispatch d)) :
    ∀ rest ∈ (dispatchSegment s d input).2.calls, Knows name queueName m rest := by
  intro rest hrest
  obtain ⟨task, queue, promise, stage⟩ := d
  cases stage with
  | mark | send | close closing =>
    obtain rfl := List.mem_singleton.1 hrest
    intro hname
    obtain ⟨hlimit, hbelow, -⟩ := h hname
    exact ⟨hlimit, hbelow, fun _ _ hstage => by cases hstage⟩
  | answer dispatchTime =>
    simp only [dispatchSegment] at hrest
    split at hrest
    · rename_i closing hclosing
      obtain rfl := List.mem_singleton.1 hrest
      intro hname
      obtain ⟨hlimit, hbelow, -⟩ := h hname
      refine ⟨hlimit, hbelow, fun scheduleTime attempt hstage => ?_⟩
      injection hstage with hretry
      subst hretry
      exact lt_of_closing hm hlimit hclosing
    · obtain rfl := List.mem_singleton.1 hrest
      intro hname
      obtain ⟨hlimit, hbelow, -⟩ := h hname
      exact ⟨hlimit, hbelow, fun _ _ hstage => by cases hstage⟩
  | settle ok =>
    rw [dispatchSegment] at hrest
    cases promise <;> cases hrest

theorem startDispatches_frame (queue : Queue) (s : State) (tasks : List Task) :
    (startDispatches queue s tasks).1.tasks = s.tasks ∧
      (startDispatches queue s tasks).1.queues = s.queues ∧
      (startDispatches queue s tasks).1.requests = s.requests := by
  induction tasks generalizing s with
  | nil => exact ⟨rfl, rfl, rfl⟩
  | cons task tasks ih =>
    rw [startDispatches]
    split
    · exact ⟨rfl, rfl, rfl⟩
    · exact ih _

theorem Tabled.of_eq {s' : State} (h : Tabled name queueName m s) (htasks : s'.tasks = s.tasks)
    (hqueues : s'.queues = s.queues) : Tabled name queueName m s' := by
  refine ⟨?_, hqueues ▸ h.queues, htasks ▸ h.pending⟩
  rw [Homed, State.addresses, htasks]
  exact h.homed

/-- The calls that a segment leaves know what the call knew. -/
theorem knows_calls (hm : 1 ≤ m) (htabled : Tabled name queueName m s)
    (h : Knows name queueName m call) :
    ∀ rest ∈ (segment lte s call input).2.calls, Knows name queueName m rest := by
  intro rest hrest
  cases call with
  | tick =>
    rw [segment] at hrest
    split at hrest
    · cases hrest
    · obtain rfl := List.mem_singleton.1 hrest
      exact fun queue hqueue => htabled.queues queue (List.mem_of_mem_filter hqueue)
  | visit queues =>
    obtain rfl := List.mem_singleton.1 hrest
    exact knows_nextQueue htabled [] input.now h
  | start queue tasks queues promises =>
    obtain ⟨hlimits, hcopies⟩ := h
    obtain ⟨hlimit, hqueues⟩ := List.forall_mem_cons.1 hlimits
    have hstarts := startDispatches_starts queue s tasks
    rcases List.mem_cons.1 hrest with rfl | hrest
    · obtain ⟨htasks, hsame, -⟩ := startDispatches_frame queue s tasks
      exact knows_nextQueue (htabled.of_eq htasks hsame) _ input.now hqueues
    · obtain ⟨d, hd, rfl⟩ := List.mem_map.1 hrest
      obtain ⟨htask, hqueue, hstage⟩ := hstarts.mem d hd
      intro hname
      obtain ⟨hhome, hbelow⟩ := hcopies d.task htask hname
      refine ⟨?_, fun _ => hbelow, fun scheduleTime attempt hclose => ?_⟩
      · rw [hqueue]
        exact hlimit hhome
      · exact absurd (hstage.symm.trans hclose) (dispatchTask_ne_close _ _ _)
  | wait promises =>
    simp only [segment, waitSegment] at hrest
    repeat' split at hrest
    · cases hrest
    · obtain rfl := List.mem_singleton.1 hrest
      trivial
    · obtain rfl := List.mem_singleton.1 hrest
      trivial
    · cases hrest
  | cleaned | deleteWrite => cases hrest
  | dispatch d => exact knows_dispatchSegment hm h rest hrest
  | runTask other =>
    rw [segment] at hrest
    split at hrest
    · cases hrest
    · rename_i task hfound
      split at hrest
      · cases hrest
      · obtain rfl := List.mem_singleton.1 hrest
        exact fun hname => htabled.homed.queueName_eq (getTaskByName_eq_some hfound).1 hname
  | runQueue task =>
    obtain rfl := List.mem_singleton.1 hrest
    intro hname queue hfound
    have hqueue : queue.name = task.queueName := by simpa using List.find?_some hfound
    exact htabled.queues queue (List.mem_of_find?_eq_some hfound) (hqueue.trans (h hname))
  | runDispatch task queue =>
    cases queue with
    | none => cases hrest
    | some queue =>
      obtain rfl := List.mem_singleton.1 hrest
      intro hname
      refine ⟨h hname queue rfl, (fun hsome => by cases hsome), ?_⟩
      intro scheduleTime attempt hclose
      exact absurd hclose (dispatchTask_ne_close _ _ _)
  | deleteTask other =>
    rw [segment] at hrest
    split at hrest
    · cases hrest
    · split at hrest
      · cases hrest
      · obtain rfl := List.mem_singleton.1 hrest
        trivial
  | deleteQueue task =>
    obtain rfl := List.mem_singleton.1 hrest
    trivial
  | deleteMark other queue =>
    simp only [segment] at hrest
    split at hrest
    · obtain rfl := List.mem_singleton.1 hrest
      trivial
    · cases hrest

/-! ## What the segments do to the counts -/

/-- The call makes the task pending again. -/
def retries (name : JsString) : Call → Bool
  | .dispatch ⟨task, _, _, .close (.retry _ _)⟩ => task.name = name
  | _ => false

/-- A segment that neither marks the task nor sends a request for it. -/
structure Quiet (name : JsString) (s : State) (call : Call)
    (result : State × Progress Call Outcome) : Prop where
  requests : result.1.requests.count name = s.requests.count name
  notSending : sending name call = false ∧ ∀ rest ∈ result.2.calls, sending name rest = false
  copies : ∀ rest ∈ result.2.calls, ∀ copy ∈ marked name rest, copy ∈ marked name call
  rows : ∀ task ∈ result.1.tasks, task.name = name → ∃ old ∈ s.tasks, old.name = name ∧
    old.dispatchCount = task.dispatchCount ∧
    (task.status = .pending → old.status = .pending ∨ retries name call = true)

theorem segment_queues (lte : JsString → JsString → Bool) (s : State) (call : Call)
    (input : Input) : (segment lte s call input).1.queues = s.queues := by
  cases call with
  | tick | runTask | deleteTask | deleteMark =>
    simp only [segment]
    repeat' split
    all_goals rfl
  | visit queues => cases queues <;> rfl
  | start queue tasks queues promises =>
    have hsame := (startDispatches_frame queue s tasks).2.1
    cases queues <;> exact hsame
  | wait promises =>
    simp only [segment, waitSegment]
    repeat' split
    all_goals rfl
  | dispatch d =>
    simp only [segment, dispatchSegment]
    repeat' split
    all_goals rfl
  | runDispatch task queue => cases queue <;> rfl
  | cleaned | runQueue | deleteQueue | deleteWrite => rfl

theorem mem_updateTask {other : JsString} {update : Task → Task} {task : Task}
    (h : task ∈ (s.updateTask other update).tasks) (hname : ∀ task, (update task).name = task.name) :
    ∃ old ∈ s.tasks, old.name = task.name ∧
      (old.name = other ∧ task = update old ∨ old.name ≠ other ∧ task = old) := by
  obtain ⟨old, hold, rfl⟩ := List.mem_map.1 h
  by_cases hother : old.name = other
  · rw [if_pos hother]
    exact ⟨old, hold, (hname old).symm, .inl ⟨hother, rfl⟩⟩
  · rw [if_neg hother]
    exact ⟨old, hold, rfl, .inr ⟨hother, rfl⟩⟩

/-- A segment that leaves the task as it is, and no dispatch between its updates. -/
theorem Quiet.of_same {result : State × Progress Call Outcome}
    (htasks : ∀ task ∈ result.1.tasks, task ∈ s.tasks) (hrequests : result.1.requests = s.requests)
    (hsending : sending name call = false)
    (hcalls : ∀ rest ∈ result.2.calls, marked name rest = none ∧ sending name rest = false) :
    Quiet name s call result := by
  refine ⟨congrArg _ hrequests, ⟨hsending, fun rest hrest => (hcalls rest hrest).2⟩, ?_, ?_⟩
  · intro rest hrest copy hcopy
    rw [(hcalls rest hrest).1] at hcopy
    cases hcopy
  · exact fun task htask hname => ⟨task, htasks task htask, hname, rfl, .inl⟩

theorem marked_dispatch {d : Dispatch} (h : d.stage = dispatchTask d.task d.queue) :
    marked name (.dispatch d) = none ∧ sending name (.dispatch d) = false := by
  obtain ⟨task, queue, promise, stage⟩ := d
  obtain rfl : stage = dispatchTask task queue := h
  rw [dispatchTask]
  repeat' split
  all_goals exact ⟨rfl, rfl⟩

theorem marked_nextQueue (s : State) (promises : List ℕ) (now : ℤ) (queues : List Queue) :
    marked name (nextQueue lte s promises now queues).2 = none ∧
      sending name (nextQueue lte s promises now queues).2 = false := by
  cases queues <;> exact ⟨rfl, rfl⟩

theorem dispatchSegment_quiet {d : Dispatch} (hmarking : marking name (.dispatch d) = none)
    (hsending : sending name (.dispatch d) = false) :
    Quiet name s (.dispatch d) (dispatchSegment s d input) := by
  obtain ⟨task, queue, promise, stage⟩ := d
  cases stage with
  | mark =>
    have hne : task.name ≠ name := by
      intro hname
      simp [marking, hname] at hmarking
    refine ⟨rfl, ⟨hsending, ?_⟩, ?_, ?_⟩
    · intro rest hrest
      obtain rfl := List.mem_singleton.1 hrest
      exact decide_eq_false hne
    · intro rest hrest copy hcopy
      obtain rfl := List.mem_singleton.1 hrest
      rw [marked, if_neg hne] at hcopy
      cases hcopy
    · intro row hrow hname
      obtain ⟨old, hold, hsame, ⟨hother, -⟩ | ⟨-, rfl⟩⟩ := mem_updateTask hrow fun _ => rfl
      · exact absurd (hother.symm.trans (hsame.trans hname)) hne
      · exact ⟨row, hold, hname, rfl, .inl⟩
  | send =>
    have hne : task.name ≠ name := of_decide_eq_false hsending
    refine ⟨?_, ⟨hsending, ?_⟩, ?_, fun row hrow hname => ⟨row, hrow, hname, rfl, .inl⟩⟩
    · show (s.requests ++ [task.name]).count name = _
      rw [List.count_append, List.count_singleton, if_neg (by simpa), Nat.add_zero]
    · intro rest hrest
      obtain rfl := List.mem_singleton.1 hrest
      rfl
    · intro rest hrest copy hcopy
      obtain rfl := List.mem_singleton.1 hrest
      exact hcopy
  | answer dispatchTime =>
    simp only [dispatchSegment]
    split
    · refine ⟨rfl, ⟨hsending, ?_⟩, ?_, fun row hrow hname => ⟨row, hrow, hname, rfl, .inl⟩⟩
      · intro rest hrest
        obtain rfl := List.mem_singleton.1 hrest
        rfl
      · intro rest hrest copy hcopy
        obtain rfl := List.mem_singleton.1 hrest
        exact hcopy
    · refine .of_same (fun _ h => h) rfl hsending fun rest hrest => ?_
      obtain rfl := List.mem_singleton.1 hrest
      exact ⟨rfl, rfl⟩
  | close closing =>
    refine ⟨rfl, ⟨hsending, ?_⟩, ?_, ?_⟩
    · intro rest hrest
      obtain rfl := List.mem_singleton.1 hrest
      rfl
    · intro rest hrest copy hcopy
      obtain rfl := List.mem_singleton.1 hrest
      cases hcopy
    · intro row hrow hname
      obtain ⟨old, hold, hsame, ⟨hother, rfl⟩ | ⟨-, rfl⟩⟩ :=
        mem_updateTask hrow (closing.apply_name task)
      · refine ⟨old, hold, hsame.trans hname, ?_, fun hpending => .inr ?_⟩
        · cases closing <;> rfl
        · have htask : task.name = name := hother.symm.trans (hsame.trans hname)
          cases closing with
          | retry scheduleTime attempt => exact decide_eq_true htask
          | tombstone | failed => cases hpending
      · exact ⟨row, hold, hname, rfl, .inl⟩
  | settle ok =>
    rw [dispatchSegment]
    cases promise <;> exact .of_same (fun _ h => h) rfl rfl fun rest hrest => by cases hrest

theorem segment_quiet (hmarking : marking name call = none) (hsending : sending name call = false) :
    Quiet name s call (segment lte s call input) := by
  cases call with
  | dispatch d => exact dispatchSegment_quiet hmarking hsending
  | tick | runTask | deleteTask | deleteMark =>
    simp only [segment]
    repeat' split
    all_goals
      refine .of_same (fun _ h => h) rfl rfl fun rest hrest => ?_
      first
        | obtain rfl := List.mem_singleton.1 hrest
          exact ⟨rfl, rfl⟩
        | cases hrest
  | visit queues =>
    refine .of_same ?_ ?_ rfl fun rest hrest => ?_
    · cases queues <;> exact fun _ h => h
    · cases queues <;> rfl
    · obtain rfl := List.mem_singleton.1 hrest
      exact marked_nextQueue _ _ _ _
  | start queue tasks queues promises =>
    obtain ⟨htasks, -, hrequests⟩ := startDispatches_frame queue s tasks
    refine .of_same ?_ ?_ rfl fun rest hrest => ?_
    · intro task htask
      have hsame : (segment lte s (.start queue tasks queues promises) input).1.tasks =
          (startDispatches queue s tasks).1.tasks := by cases queues <;> rfl
      rwa [hsame, htasks] at htask
    · cases queues <;> exact hrequests
    · rcases List.mem_cons.1 hrest with rfl | hrest
      · exact marked_nextQueue _ _ _ _
      · obtain ⟨d, hd, rfl⟩ := List.mem_map.1 hrest
        obtain ⟨-, hqueue, hstage⟩ := (startDispatches_starts queue s tasks).mem d hd
        exact marked_dispatch (hstage.trans (by rw [hqueue]))
  | wait promises =>
    simp only [segment, waitSegment]
    repeat' split
    · exact .of_same (fun _ h => h) rfl rfl fun rest hrest => by cases hrest
    · refine .of_same (fun _ h => h) rfl rfl fun rest hrest => ?_
      obtain rfl := List.mem_singleton.1 hrest
      exact ⟨rfl, rfl⟩
    · refine .of_same (fun _ h => List.mem_of_mem_filter h) rfl rfl fun rest hrest => ?_
      obtain rfl := List.mem_singleton.1 hrest
      exact ⟨rfl, rfl⟩
    · exact .of_same (fun _ h => h) rfl rfl fun rest hrest => by cases hrest
  | runDispatch task queue =>
    cases queue with
    | none => exact .of_same (fun _ h => h) rfl rfl fun rest hrest => by cases hrest
    | some queue =>
      refine .of_same (fun _ h => h) rfl rfl fun rest hrest => ?_
      obtain rfl := List.mem_singleton.1 hrest
      exact marked_dispatch rfl
  | cleaned => exact .of_same (fun _ h => h) rfl rfl fun rest hrest => by cases hrest
  | runQueue | deleteQueue =>
    refine .of_same (fun _ h => h) rfl rfl fun rest hrest => ?_
    obtain rfl := List.mem_singleton.1 hrest
    exact ⟨rfl, rfl⟩
  | deleteWrite other expiry =>
    refine ⟨rfl, ⟨rfl, fun rest hrest => by cases hrest⟩, (fun rest hrest => by cases hrest), ?_⟩
    intro row hrow hname
    obtain ⟨old, hold, hsame, ⟨-, rfl⟩ | ⟨-, rfl⟩⟩ := mem_updateTask hrow fun _ => rfl
    · exact ⟨old, hold, hsame.trans hname, rfl, fun hpending => by cases hpending⟩
    · exact ⟨row, hold, hname, rfl, .inl⟩

/-! ## The books -/

/-- The requests sent for the task and those about to be sent. -/
def committed (name : JsString) (pool : Pool State Call Outcome) : ℕ :=
  pool.shared.requests.count name + pool.calls.countP (sending name)

/-- The stored count is that of the requests. Two dispatches between their updates have not reached
the limit. -/
structure Books (name queueName : JsString) (m : ℤ) (pool : Pool State Call Outcome) : Prop where
  stored : ∀ task ∈ pool.shared.tasks, task.name = name → task.dispatchCount = committed name pool
  tabled : Tabled name queueName m pool.shared
  knows : ∀ call ∈ pool.calls, Knows name queueName m call
  below : ∀ call ∈ pool.calls, ∀ copy ∈ marked name call,
    committed name pool ≤ copy.dispatchCount + 1 ∨ (committed name pool : ℤ) < m

section Steps

variable {pool : Pool State Call Outcome} {index : ℕ} {d : Dispatch}

theorem committed_advance (name : JsString) (result : State × Progress Call Outcome)
    (hcall : pool.calls[index]? = some call) :
    committed name (Async.advance pool index result) + [call].countP (sending name) +
        pool.shared.requests.count name =
      committed name pool + result.2.calls.countP (sending name) +
        result.1.requests.count name := by
  have hcount : (Async.advance pool index result).calls.countP (sending name) +
      [call].countP (sending name) = _ := Async.countP_advance (sending name) hcall
  rw [committed, committed, Async.advance_shared]
  omega

theorem Books.knows_advance (h : Books name queueName m pool) (hm : 1 ≤ m)
    (hcall : pool.calls[index]? = some call) :
    ∀ other ∈ (Async.advance pool index (segment lte pool.shared call input)).calls,
      Knows name queueName m other := by
  intro other hother
  rcases (Async.mem_advance hcall).1 hother with hrest | hothers
  · exact knows_calls hm h.tabled (h.knows call (List.mem_of_getElem? hcall)) other hrest
  · exact h.knows other (List.mem_of_mem_eraseIdx hothers)

theorem Tabled.segment (h : Tabled name queueName m s)
    (hpending : ∀ task ∈ (segment lte s call input).1.tasks, task.name = name →
      task.status = .pending → (task.dispatchCount : ℤ) < m) :
    Tabled name queueName m (segment lte s call input).1 := by
  refine ⟨h.homed.mono (segment_addresses lte s call input), ?_, hpending⟩
  rw [segment_queues]
  exact h.queues

/-- A dispatch that retries has the task below the limit, whoever else has counted it. -/
theorem Books.lt_of_retries (h : Books name queueName m pool) (hmem : call ∈ pool.calls)
    (hretries : retries name call = true) : (committed name pool : ℤ) < m := by
  unfold retries at hretries
  split at hretries
  · rename_i task queue promise scheduleTime attempt
    have hname : task.name = name := of_decide_eq_true hretries
    obtain ⟨-, -, hretry⟩ := h.knows _ hmem hname
    have hlt : (task.dispatchCount + 1 : ℤ) < m := hretry scheduleTime attempt rfl
    rcases h.below _ hmem task (if_pos hname) with hle | hbelow
    · omega
    · exact hbelow
  · cases hretries

theorem Books.quiet (h : Books name queueName m pool) (hm : 1 ≤ m)
    (hcall : pool.calls[index]? = some call) (hmarking : marking name call = none)
    (hsending : sending name call = false) :
    Books name queueName m (Async.advance pool index (segment lte pool.shared call input)) := by
  have hmem := List.mem_of_getElem? hcall
  have hquiet : Quiet name pool.shared call (segment lte pool.shared call input) :=
    segment_quiet hmarking hsending
  have hsame : committed name (Async.advance pool index (segment lte pool.shared call input)) =
      committed name pool := by
    have hadvance := committed_advance name (segment lte pool.shared call input) hcall
    have hrest : (segment lte pool.shared call input).2.calls.countP (sending name) = 0 :=
      List.countP_eq_zero.2 fun rest hrest => by simp [hquiet.notSending.2 rest hrest]
    rw [hquiet.requests, hrest, List.countP_singleton, hsending] at hadvance
    simpa using hadvance
  refine ⟨?_, ?_, h.knows_advance hm hcall, ?_⟩
  · intro task htask hname
    rw [Async.advance_shared] at htask
    obtain ⟨old, hold, hother, hcount, -⟩ := hquiet.rows task htask hname
    rw [hsame, ← hcount]
    exact h.stored old hold hother
  · rw [Async.advance_shared]
    refine h.tabled.segment fun task htask hname hpending => ?_
    obtain ⟨old, hold, hother, hcount, hwas⟩ := hquiet.rows task htask hname
    rcases hwas hpending with hold' | hretries
    · rw [← hcount]
      exact h.tabled.pending old hold hother hold'
    · rw [← hcount, h.stored old hold hother]
      exact h.lt_of_retries hmem hretries
  · intro other hother copy hcopy
    rw [hsame]
    rcases (Async.mem_advance hcall).1 hother with hrest | hothers
    · exact h.below call hmem copy (hquiet.copies other hrest copy hcopy)
    · exact h.below other (List.mem_of_mem_eraseIdx hothers) copy hcopy

theorem exists_of_marking {copy : Task} (h : marking name call = some copy) :
    copy.name = name ∧ ∃ queue promise, call = .dispatch ⟨copy, queue, promise, .mark⟩ := by
  unfold marking at h
  split at h
  · obtain ⟨hname, hcopy⟩ := Option.ite_none_right_eq_some.1 h
    obtain rfl := Option.some.inj hcopy
    exact ⟨hname, _, _, rfl⟩
  · cases h

theorem exists_of_sending (h : sending name call = true) :
    ∃ copy queue promise, copy.name = name ∧ call = .dispatch ⟨copy, queue, promise, .send⟩ := by
  unfold sending at h
  split at h
  · exact ⟨_, _, _, of_decide_eq_true h, rfl⟩
  · cases h

/-- The first update of a dispatch in turn. -/
theorem Books.mark (h : Books name queueName m pool) (hm : 1 ≤ m) {copy : Task} {queue : Queue}
    {promise : Option ℕ} (hcall : pool.calls[index]? = some (.dispatch ⟨copy, queue, promise, .mark⟩))
    (hname : copy.name = name)
    (hfresh : ∃ task ∈ pool.shared.tasks, task.name = name ∧
      task.dispatchCount = copy.dispatchCount)
    (hlast : (copy.dispatchCount + 1 : ℤ) < m ∨ ∀ other ∈ pool.calls, marked name other = none) :
    Books name queueName m (Async.advance pool index
      (segment lte pool.shared (.dispatch ⟨copy, queue, promise, .mark⟩) input)) := by
  have hcommitted : committed name pool = copy.dispatchCount := by
    obtain ⟨task, htask, htaskName, hcount⟩ := hfresh
    rw [← hcount, h.stored task htask htaskName]
  have hnext : committed name (Async.advance pool index (segment lte pool.shared
      (.dispatch ⟨copy, queue, promise, .mark⟩) input)) = copy.dispatchCount + 1 := by
    have hadvance := committed_advance name (segment lte pool.shared
      (.dispatch ⟨copy, queue, promise, .mark⟩) input) hcall
    have hrest : (segment lte pool.shared (.dispatch ⟨copy, queue, promise, .mark⟩)
        input).2.calls.countP (sending name) = 1 :=
      (List.countP_singleton ..).trans (if_pos (decide_eq_true hname))
    have hsent : (segment lte pool.shared (.dispatch ⟨copy, queue, promise, .mark⟩)
        input).1.requests.count name = pool.shared.requests.count name := rfl
    rw [hrest, hsent, hcommitted, Nat.add_right_cancel_iff] at hadvance
    exact hadvance
  have hrow : ∀ task ∈ (segment lte pool.shared (.dispatch ⟨copy, queue, promise, .mark⟩)
      input).1.tasks, task.name = name →
      task.status = .dispatching ∧ task.dispatchCount = copy.dispatchCount + 1 := by
    intro task htask htaskName
    obtain ⟨old, -, hsame, ⟨-, rfl⟩ | ⟨hother, -⟩⟩ := mem_updateTask htask fun _ => rfl
    · exact ⟨rfl, rfl⟩
    · exact absurd (hsame.trans (htaskName.trans hname.symm)) hother
  refine ⟨?_, ?_, h.knows_advance hm hcall, ?_⟩
  · intro task htask htaskName
    rw [Async.advance_shared] at htask
    rw [hnext]
    exact (hrow task htask htaskName).2
  · rw [Async.advance_shared]
    refine h.tabled.segment fun task htask htaskName hpending => ?_
    exact nomatch (hrow task htask htaskName).1.symm.trans hpending
  · intro other hother taken htaken
    rw [hnext]
    rcases (Async.mem_advance hcall).1 hother with hrest | hothers
    · obtain rfl := List.mem_singleton.1 hrest
      obtain rfl : copy = taken := Option.some.inj ((if_pos hname).symm.trans htaken)
      exact .inl (le_refl _)
    · rcases hlast with hlt | hnone
      · exact .inr (by exact_mod_cast hlt)
      · exact nomatch (hnone other (List.mem_of_mem_eraseIdx hothers)).symm.trans htaken

/-- The request of a dispatch is one that the count has. -/
theorem Books.send (h : Books name queueName m pool) (hm : 1 ≤ m) {copy : Task} {queue : Queue}
    {promise : Option ℕ} (hcall : pool.calls[index]? = some (.dispatch ⟨copy, queue, promise, .send⟩))
    (hname : copy.name = name) :
    Books name queueName m (Async.advance pool index
      (segment lte pool.shared (.dispatch ⟨copy, queue, promise, .send⟩) input)) := by
  have hsame : committed name (Async.advance pool index (segment lte pool.shared
      (.dispatch ⟨copy, queue, promise, .send⟩) input)) = committed name pool := by
    have hadvance := committed_advance name (segment lte pool.shared
      (.dispatch ⟨copy, queue, promise, .send⟩) input) hcall
    have hown : [Call.dispatch ⟨copy, queue, promise, .send⟩].countP (sending name) = 1 :=
      (List.countP_singleton ..).trans (if_pos (decide_eq_true hname))
    have hrest : (segment lte pool.shared (.dispatch ⟨copy, queue, promise, .send⟩)
        input).2.calls.countP (sending name) = 0 := rfl
    have hsent : (segment lte pool.shared (.dispatch ⟨copy, queue, promise, .send⟩)
        input).1.requests.count name = pool.shared.requests.count name + 1 := by
      show (pool.shared.requests ++ [copy.name]).count name = _
      rw [hname, List.count_append, List.count_singleton_self]
    omega
  refine ⟨?_, ?_, h.knows_advance hm hcall, ?_⟩
  · intro task htask htaskName
    rw [Async.advance_shared] at htask
    rw [hsame]
    exact h.stored task htask htaskName
  · rw [Async.advance_shared]
    exact h.tabled.segment h.tabled.pending
  · intro other hother taken htaken
    rw [hsame]
    rcases (Async.mem_advance hcall).1 hother with hrest | hothers
    · obtain rfl := List.mem_singleton.1 hrest
      exact h.below _ (List.mem_of_getElem? hcall) taken htaken
    · exact h.below other (List.mem_of_mem_eraseIdx hothers) taken htaken

/-- An allowed move keeps the books. -/
theorem Books.of_step (h : Books name queueName m pool) (hm : 1 ≤ m)
    {pool' : Pool State Call Outcome} {move : Move Request Input}
    (hstep : (engine lte).Step (InTurn name m) pool move pool') : Books name queueName m pool' := by
  obtain ⟨hallowed, hmove⟩ := hstep
  cases move with
  | start request =>
    obtain rfl := Option.some.inj hmove
    have hnew : sending name request.begin = false ∧ marked name request.begin = none ∧
        Knows name queueName m request.begin := by
      cases request <;> exact ⟨rfl, rfl, trivial⟩
    have hsame : committed name ⟨pool.shared, pool.calls ++ [request.begin], pool.outcomes⟩ =
        committed name pool := by
      rw [committed, committed, List.countP_append, List.countP_singleton, hnew.1]
      rfl
    refine ⟨fun task htask hname => ?_, h.tabled, ?_, ?_⟩
    · exact (h.stored task htask hname).trans hsame.symm
    · exact List.forall_mem_append.2 ⟨h.knows, List.forall_mem_singleton.2 hnew.2.2⟩
    · intro other hother copy hcopy
      rcases List.mem_append.1 hother with hother | hother
      · have hbelow := h.below other hother copy hcopy
        rw [← hsame] at hbelow
        exact hbelow
      · obtain rfl := List.mem_singleton.1 hother
        exact nomatch hnew.2.1.symm.trans hcopy
  | resume index input =>
    obtain ⟨call, hcall, rfl⟩ := Option.map_eq_some_iff.1 hmove
    show Books name queueName m (Async.advance pool index (segment lte pool.shared call input))
    cases hmarking : marking name call with
    | some copy =>
      obtain ⟨hfresh, hlast⟩ := hallowed call hcall copy hmarking
      obtain ⟨hname, queue, promise, rfl⟩ := exists_of_marking hmarking
      exact h.mark hm hcall hname hfresh hlast
    | none =>
      cases hsending : sending name call with
      | false => exact h.quiet hm hcall hmarking hsending
      | true =>
        obtain ⟨copy, queue, promise, hname, rfl⟩ := exists_of_sending hsending
        exact h.send hm hcall hname

end Steps

/-! ## Runs -/

theorem books_of_run {state : State} {moves : List (Move Request Input)}
    {pool : Pool State Call Outcome} (hm : 1 ≤ m) (htabled : Tabled name queueName m state)
    (hcounts : ∀ task ∈ state.tasks, task.name = name →
      task.dispatchCount = state.requests.count name)
    (hrun : Run ((engine lte).Step (InTurn name m)) ⟨state, [], []⟩ moves pool) :
    Books name queueName m pool := by
  have hstart : Books name queueName m ⟨state, [], []⟩ :=
    ⟨hcounts, htabled, (fun call hcall => by cases hcall), (fun call hcall => by cases hcall)⟩
  have hkeeps : ∀ pool move pool', True → (engine lte).Step (InTurn name m) pool move pool' →
      Books name queueName m pool → Books name queueName m pool' :=
    fun _ _ _ _ hstep h => h.of_step hm hstep
  exact hrun.invariant hkeeps (fun _ _ => trivial) hstart

/-- A dispatch of a tick has its request in the count, and the count is at most the limit. -/
theorem Books.count_lt {pool : Pool State Call Outcome} (h : Books name queueName m pool)
    {d : Dispatch} (hmem : .dispatch d ∈ pool.calls) (hname : d.task.name = name)
    (hpromise : d.promise.isSome) (hstage : d.stage = .send) :
    (pool.shared.requests.count name : ℤ) < m := by
  obtain ⟨task, queue, promise, stage⟩ := d
  obtain rfl : stage = .send := hstage
  obtain ⟨-, hcopy, -⟩ := h.knows _ hmem hname
  have hbelow : (task.dispatchCount : ℤ) < m := hcopy hpromise
  have hsending : 0 < pool.calls.countP (sending name) :=
    List.countP_pos_iff.2 ⟨_, hmem, decide_eq_true hname⟩
  have hlt : pool.shared.requests.count name < committed name pool := by
    rw [committed]
    omega
  rcases h.below _ hmem task (if_pos hname) with hle | hlimit <;> omega

/-- **Attempt accounting.** In a run in which every first update of a dispatch of the task finds the
count that the dispatch read, and brings it to the limit only while no other dispatch of the task is
between its updates, the stored count is that of the requests sent once no dispatch is in flight, and
no tick sends a request for a task that had as many as the limit. -/
theorem attempts_accounted (lte : JsString → JsString → Bool) (state : State)
    (name queueName : JsString) (m : ℤ) (hm : 1 ≤ m) (htabled : Tabled name queueName m state)
    (hcounts : ∀ task ∈ state.tasks, task.name = name →
      task.dispatchCount = state.requests.count name)
    (moves : List (Move Request Input)) (pool : Pool State Call Outcome)
    (hrun : Run ((engine lte).Step (InTurn name m)) ⟨state, [], []⟩ moves pool) :
    ((∀ call ∈ pool.calls, dispatches name call = false) → ∀ task ∈ pool.shared.tasks,
      task.name = name → task.dispatchCount = pool.shared.requests.count name) ∧
    ∀ d : Dispatch, .dispatch d ∈ pool.calls → d.task.name = name → d.promise.isSome →
      d.stage = .send → (pool.shared.requests.count name : ℤ) < m := by
  have hbooks : Books name queueName m pool := books_of_run hm htabled hcounts hrun
  refine ⟨fun hidle task htask hname => ?_, fun d => hbooks.count_lt⟩
  have hnone : pool.calls.countP (sending name) = 0 := by
    refine List.countP_eq_zero.2 fun call hcall hsending => ?_
    obtain ⟨copy, queue, promise, hcopy, rfl⟩ := exists_of_sending hsending
    exact absurd hcopy (of_decide_eq_false (hidle _ hcall))
  calc
    task.dispatchCount = committed name pool := hbooks.stored task htask hname
    _ = pool.shared.requests.count name := by rw [committed, hnone, Nat.add_zero]

/-! ## Sample runs -/

/-- A tick dispatches the task, whose request fails; then `runTask` does. -/
def tickThenRun : List (Move Request Input) :=
  .start .tick :: List.replicate 3 (resumeJune 0) ++ List.replicate 5 (resumeJune 1) ++
    resumeJune 0 :: .start (.runTask "q/t") :: List.replicate 8 (resumeJune 0)

/-- While `runTask` has its copy, a tick dispatches the task. -/
def runMeanwhile : List (Move Request Input) :=
  .start (.runTask "q/t") :: resumeJune 0 :: .start .tick :: List.replicate 3 (resumeJune 1) ++
    List.replicate 5 (resumeJune 2) ++ resumeJune 1 :: List.replicate 7 (resumeJune 0)

theorem tabled_sample : Tabled "q/t" "q" 100 sampleState := by
  refine ⟨?_, ?_, ?_⟩
  · intro address haddress _
    obtain rfl := List.mem_singleton.1 haddress
    rfl
  · intro queue hqueue _
    obtain rfl := List.mem_singleton.1 hqueue
    rfl
  · intro task htask _ _
    obtain rfl := List.mem_singleton.1 htask
    decide

theorem attempts_accounted_tick : ∃ pool,
    Run ((engine textLe).Step (InTurn "q/t" 100)) idle tickThenRun pool ∧
      pool.shared.requests.count (js "q/t") = 2 ∧
      ((∀ call ∈ pool.calls, dispatches "q/t" call = false) → ∀ task ∈ pool.shared.tasks,
        task.name = "q/t" → task.dispatchCount = pool.shared.requests.count (js "q/t")) ∧
      ∀ d : Dispatch, .dispatch d ∈ pool.calls → d.task.name = "q/t" → d.promise.isSome →
        d.stage = .send → (pool.shared.requests.count (js "q/t") : ℤ) < 100 := by
  obtain ⟨pool, hrun, htest⟩ : ∃ pool,
      Run ((engine textLe).Step (InTurn "q/t" 100)) idle tickThenRun pool ∧
        decide (pool.shared.requests.count (js "q/t") = 2) = true :=
    Async.exists_run (by decide +kernel)
  refine ⟨pool, hrun, of_decide_eq_true htest, attempts_accounted textLe sampleState "q/t" "q" 100
    (by decide) tabled_sample ?_ tickThenRun pool hrun⟩
  intro task htask _
  obtain rfl := List.mem_singleton.1 htask
  rfl

/-- Nothing runs but ticks and `runTask`. -/
def TicksAndRuns (_ : Pool State Call Outcome) : Move Request Input → Prop
  | .start (.deleteTask _) => False
  | .start _ | .resume _ _ => True

instance (pool : Pool State Call Outcome) : ∀ move, Decidable (TicksAndRuns pool move)
  | .start (.deleteTask _) => .isFalse not_false
  | .start .tick | .start (.runTask _) | .resume _ _ => .isTrue trivial

/-- Two dispatches that overlap count one. -/
theorem not_attempts_accounted : ¬ ∀ (moves : List (Move Request Input))
    (pool : Pool State Call Outcome),
    Run ((engine textLe).Step TicksAndRuns) idle moves pool →
    ((∀ call ∈ pool.calls, dispatches "q/t" call = false) → ∀ task ∈ pool.shared.tasks,
      task.name = "q/t" → task.dispatchCount = pool.shared.requests.count (js "q/t")) ∧
    ∀ d : Dispatch, .dispatch d ∈ pool.calls → d.task.name = "q/t" → d.promise.isSome →
      d.stage = .send → (pool.shared.requests.count (js "q/t") : ℤ) < 100 := by
  intro hclaim
  obtain ⟨pool, hrun, htest⟩ : ∃ pool,
      Run ((engine textLe).Step TicksAndRuns) idle runMeanwhile pool ∧
        (pool.calls.isEmpty && pool.shared.tasks.any fun task => decide (task.name = "q/t") &&
          decide (task.dispatchCount ≠ pool.shared.requests.count (js "q/t"))) = true :=
    Async.exists_run (by decide +kernel)
  obtain ⟨hidle, hlost⟩ := Bool.and_eq_true_iff.1 htest
  obtain ⟨task, htask, hcount⟩ := List.any_eq_true.1 hlost
  obtain ⟨hname, hcount⟩ := Bool.and_eq_true_iff.1 hcount
  have hnone : pool.calls = [] := List.isEmpty_iff.1 hidle
  refine of_decide_eq_true hcount ((hclaim _ pool hrun).1 ?_ task htask (of_decide_eq_true hname))
  rw [hnone]
  exact fun call hcall => by cases hcall

end Kinglet.Tasks
