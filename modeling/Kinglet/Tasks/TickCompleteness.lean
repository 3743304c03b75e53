import Kinglet.Tasks.Deleted

/-!
# A tick that ends is complete

A tick waits for the promises of all its dispatches, but the first rejection ends the wait. As long
as no dispatch throws, nothing is in flight once the running flag is cleared, and no task that was
picked is left dispatching.
-/

namespace Kinglet.Tasks

open Js Library

variable {lte : JsString → JsString → Bool} {s : State} {name : JsString} {call : Call}
  {input : Input}

/-! ## Dispatches that do not throw -/

/-- The date a dispatch computes from the answer exists: the end of the tombstone, or the next
attempt if there is one. -/
def HasDate (d : Dispatch) (input : Input) : Prop :=
  if input.response.ok then
    ∃ ttl ∈ parseDurationSeconds d.queue.tombstoneTtl, (dateAfter input.now ttl).isSome
  else
    d.queue.retryConfig.exhausts (d.task.dispatchCount + 1) = true ∨
      ∃ backoffs ∈ d.queue.retryConfig.backoffs, (dateAfter input.now
        (computeBackoffSeconds d.task.dispatchCount backoffs.1 backoffs.2
          d.queue.retryConfig.maxDoublings)).isSome

instance (d : Dispatch) (input : Input) : Decidable (HasDate d input) :=
  inferInstanceAs (Decidable (if input.response.ok then _ else _))

/-- The next segment does not throw: the backoff durations of a queue from which a dispatch starts
are durations, and the date that an answer leads to exists. -/
def DoesNotThrow (s : State) (input : Input) : Call → Prop
  | .start queue tasks _ _ => tasks ≠ [] →
      ((s.buckets queue.name).bind TokenBucket.acquire).isSome → queue.retryConfig.backoffs.isSome
  | .dispatch d =>
      match d.stage with
      | .answer _ => HasDate d input
      | _ => True
  | _ => True

instance : ∀ call, Decidable (DoesNotThrow s input call)
  | .start queue tasks _ _ => inferInstanceAs <| Decidable <| tasks ≠ [] →
      ((s.buckets queue.name).bind TokenBucket.acquire).isSome → queue.retryConfig.backoffs.isSome
  | .dispatch ⟨task, queue, promise, .answer time⟩ =>
      inferInstanceAs (Decidable (HasDate ⟨task, queue, promise, .answer time⟩ input))
  | .dispatch ⟨_, _, _, .mark⟩ | .dispatch ⟨_, _, _, .send⟩ | .dispatch ⟨_, _, _, .close _⟩
  | .dispatch ⟨_, _, _, .settle _⟩ => .isTrue trivial
  | .tick | .visit _ | .wait _ | .cleaned | .runTask _ | .runQueue _ | .runDispatch _ _
  | .deleteTask _ | .deleteQueue _ | .deleteMark _ _ | .deleteWrite _ _ => .isTrue trivial

/-- Nothing runs but ticks. -/
def OnlyTicks (_ : Pool State Call Outcome) : Move Request Input → Prop
  | .start request => request = .tick
  | .resume _ _ => True

/-- Ticks, none of whose dispatches throws. -/
def NoThrow (pool : Pool State Call Outcome) : Move Request Input → Prop
  | .start request => request = .tick
  | .resume index input => ∀ call ∈ pool.calls[index]?, DoesNotThrow pool.shared input call

deriving instance DecidableEq for Request

instance (pool : Pool State Call Outcome) : ∀ m, Decidable (OnlyTicks pool m)
  | .start request => inferInstanceAs (Decidable (request = .tick))
  | .resume _ _ => .isTrue trivial

instance (pool : Pool State Call Outcome) : ∀ m, Decidable (NoThrow pool m)
  | .start request => inferInstanceAs (Decidable (request = .tick))
  | .resume index input =>
      inferInstanceAs (Decidable (∀ call ∈ pool.calls[index]?, DoesNotThrow pool.shared input call))

theorem closing_isSome {d : Dispatch} (dispatchTime : ℤ) (h : HasDate d input) :
    (closing d dispatchTime input).isSome := by
  unfold HasDate at h
  unfold closing
  split at h
  · rw [if_pos ‹_›]
    obtain ⟨ttl, httl, hdate⟩ := h
    obtain ⟨expiry, hexpiry⟩ := Option.isSome_iff_exists.1 hdate
    simp [Option.mem_def.1 httl, hexpiry]
  · rw [if_neg ‹_›]
    rcases h with hexhausts | ⟨backoffs, hbackoffs, hdate⟩
    · simp [hexhausts]
    · obtain ⟨next, hnext⟩ := Option.isSome_iff_exists.1 hdate
      split
      · rfl
      · simp [Option.mem_def.1 hbackoffs, hnext]

/-! ## What the segments do to the tables -/

/-- Only these are the names and queues of the tasks; no segment adds or changes one. -/
def State.addresses (s : State) : List (JsString × JsString) :=
  s.tasks.map fun task => (task.name, task.queueName)

theorem Closing.apply_queueName (copy task : Task) (closing : Closing) :
    (closing.apply copy task).queueName = task.queueName := by
  cases closing <;> rfl

theorem updateTask_addresses {update : Task → Task}
    (h : ∀ task, (update task).name = task.name ∧ (update task).queueName = task.queueName) :
    (s.updateTask name update).addresses = s.addresses := by
  refine (List.map_map ..).trans (List.map_congr_left fun task _ => ?_)
  rw [Function.comp_apply]
  split
  · rw [(h task).1, (h task).2]
  · rfl

theorem dispatchSegment_addresses (s : State) (d : Dispatch) (input : Input) :
    (dispatchSegment s d input).1.addresses = s.addresses := by
  obtain ⟨task, queue, promise, stage⟩ := d
  cases stage with
  | mark => exact updateTask_addresses fun _ => ⟨rfl, rfl⟩
  | send => rfl
  | answer dispatchTime =>
    simp only [dispatchSegment]
    split <;> rfl
  | close closing =>
    exact updateTask_addresses fun task =>
      ⟨closing.apply_name _ task, closing.apply_queueName _ task⟩
  | settle ok =>
    rw [dispatchSegment]
    cases promise <;> rfl

/-- What the loop over the tasks of a queue does: each dispatch it starts gets the next promise. -/
structure Starts (queue : Queue) (s : State) (tasks : List Task) (result : State × List Dispatch) :
    Prop where
  rows : result.1.tasks = s.tasks
  running : result.1.running = s.running
  promises : result.1.promises = s.promises ++ result.2.map fun d => ⟨d.task.name, .pending⟩
  numbers : result.2.map Dispatch.promise =
    (List.range' s.promises.length result.2.length).map some
  mem : ∀ d ∈ result.2, d.task ∈ tasks ∧ d.queue = queue ∧ d.stage = dispatchTask d.task queue

theorem startDispatches_starts (queue : Queue) (s : State) (tasks : List Task) :
    Starts queue s tasks (startDispatches queue s tasks) := by
  induction tasks generalizing s with
  | nil => exact ⟨rfl, rfl, (List.append_nil _).symm, rfl, fun d hd => by cases hd⟩
  | cons task tasks ih =>
    rw [startDispatches]
    split
    · exact ⟨rfl, rfl, (List.append_nil _).symm, rfl, fun d hd => by cases hd⟩
    · rename_i bucket hbucket
      obtain ⟨htasks, hrunning, hpromises, hnumbers, hmem⟩ := ih
        { s with
          buckets := fun other => if other = queue.name then some bucket else s.buckets other
          promises := s.promises ++ [⟨task.name, .pending⟩] }
      refine ⟨htasks, hrunning, ?_, ?_, ?_⟩
      · rw [hpromises, List.append_assoc]
        rfl
      · rw [List.map_cons, hnumbers, List.length_cons, List.range'_succ, List.map_cons,
          List.length_append, List.length_singleton]
      · refine List.forall_mem_cons.2 ⟨⟨List.mem_cons_self, rfl, rfl⟩, fun d hd => ?_⟩
        obtain ⟨htask, hqueue, hstage⟩ := hmem d hd
        exact ⟨List.mem_cons_of_mem _ htask, hqueue, hstage⟩

/-- A dispatch starts only if there is a task and a token. -/
theorem startDispatches_ne_nil {queue : Queue} {tasks : List Task}
    (h : (startDispatches queue s tasks).2 ≠ []) :
    tasks ≠ [] ∧ ((s.buckets queue.name).bind TokenBucket.acquire).isSome := by
  cases tasks with
  | nil => exact absurd rfl h
  | cons task tasks =>
    rw [startDispatches] at h
    split at h
    · exact absurd rfl h
    · exact ⟨List.cons_ne_nil _ _, by simp [‹_ = some _›]⟩

theorem segment_addresses (lte : JsString → JsString → Bool) (s : State) (call : Call)
    (input : Input) : (segment lte s call input).1.addresses.Sublist s.addresses := by
  cases call with
  | tick | runTask | deleteTask =>
    simp only [segment]
    repeat' split
    all_goals exact .refl _
  | visit queues => cases queues <;> exact .refl _
  | start queue tasks queues promises =>
    have hsame := (startDispatches_starts queue s tasks).rows
    have haddresses : (startDispatches queue s tasks).1.addresses = s.addresses :=
      congrArg (List.map _) hsame
    cases queues <;> exact haddresses ▸ .refl _
  | wait promises =>
    simp only [segment, waitSegment]
    repeat' split
    · exact .refl _
    · exact .refl _
    · exact List.filter_sublist.map _
    · exact .refl _
  | dispatch d => exact dispatchSegment_addresses s d input ▸ .refl _
  | runDispatch task queue => cases queue <;> exact .refl _
  | deleteMark other queue =>
    simp only [segment]
    split <;> exact .refl _
  | deleteWrite other expiry =>
    have hsame : (s.updateTask other fun task =>
        { task with status := .tombstone, tombstoneExpiry := some expiry }).addresses =
          s.addresses := updateTask_addresses fun _ => ⟨rfl, rfl⟩
    exact hsame ▸ .refl _
  | cleaned | runQueue | deleteQueue => exact .refl _

/-! ## Queues do not disturb each other -/

/-- The rows of a task belong to a queue. -/
def Homed (s : State) (name queueName : JsString) : Prop :=
  ∀ address ∈ s.addresses, address.1 = name → address.2 = queueName

theorem Homed.mono {s' : State} {queueName : JsString} (h : Homed s name queueName)
    (hsub : s'.addresses.Sublist s.addresses) : Homed s' name queueName :=
  fun address hmem => h address (hsub.subset hmem)

/-- Names are unique. -/
def NamesUnique (s : State) : Prop := (s.addresses.map Prod.fst).Nodup

instance : Decidable (NamesUnique s) := inferInstanceAs (Decidable (s.addresses.map Prod.fst).Nodup)

theorem NamesUnique.mono {s' : State} (h : NamesUnique s)
    (hsub : s'.addresses.Sublist s.addresses) : NamesUnique s' :=
  h.sublist (hsub.map _)

theorem mem_of_dispatchable {queueName : JsString} {limit : ℕ} {now : ℤ} {task : Task}
    (h : task ∈ findDispatchableTasks lte s queueName limit now) :
    task ∈ s.tasks ∧ task.queueName = queueName ∧ task.status = .pending := by
  have hfound := List.mem_of_mem_take h
  rw [List.mem_insertionSort, List.mem_filter] at hfound
  obtain ⟨hstored, htest⟩ := hfound
  simp only [Bool.and_eq_true, decide_eq_true_eq] at htest
  exact ⟨hstored, htest.1.1.1, htest.1.1.2⟩

/-- Rows of one name are one row. -/
theorem NamesUnique.eq (h : NamesUnique s) {task other : Task} (htask : task ∈ s.tasks)
    (hother : other ∈ s.tasks) (hname : task.name = other.name) : task = other := by
  have hnodup : (s.tasks.map Task.name).Nodup := by
    have hmap : s.addresses.map Prod.fst = s.tasks.map Task.name := List.map_map ..
    rw [← hmap]
    exact h
  exact List.inj_on_of_nodup_map hnodup htask hother hname

theorem homed_of_dispatchable (h : NamesUnique s) {queueName : JsString} {limit : ℕ} {now : ℤ}
    {task : Task} (hmem : task ∈ findDispatchableTasks lte s queueName limit now) :
    Homed s task.name queueName := by
  obtain ⟨hstored, hqueue, -⟩ := mem_of_dispatchable hmem
  intro address haddress hname
  obtain ⟨other, hother, rfl⟩ := List.mem_map.1 haddress
  rw [h.eq hother hstored hname]
  exact hqueue

/-- Tasks are dispatched from the queue they belong to. -/
def homes : Outline State Call Outcome where
  Inv s _ := NamesUnique s
  Local s
    | .start queue tasks _ _ => ∀ task ∈ tasks, Homed s task.name queue.name
    | .dispatch d => Homed s d.task.name d.queue.name
    | .tick | .visit _ | .wait _ | .cleaned => True
    | _ => False
  Pair _ _ := True
  symm h := h

theorem homes_mono {s' : State} (h : homes.Local s call)
    (hsub : s'.addresses.Sublist s.addresses) : homes.Local s' call := by
  cases call with
  | start queue tasks queues promises => exact fun task htask => (h task htask).mono hsub
  | dispatch d => exact Homed.mono h hsub
  | _ => exact h

theorem homes_nextQueue (h : NamesUnique s) (promises : List ℕ) (now : ℤ) (queues : List Queue) :
    homes.Local (nextQueue lte s promises now queues).1
      (nextQueue lte s promises now queues).2 := by
  cases queues with
  | nil => trivial
  | cons queue queues =>
    intro task htask
    have hnames : NamesUnique (s.refill queue) := h
    exact homed_of_dispatchable hnames htask

/-- The calls a segment leaves dispatch from the queues the tasks belong to. -/
theorem homes_calls (h : NamesUnique s) (hlocal : homes.Local s call) :
    ∀ other ∈ (segment lte s call input).2.calls,
      homes.Local (segment lte s call input).1 other := by
  intro other hother
  cases call with
  | tick =>
    rw [segment] at hother ⊢
    split at hother
    · cases hother
    · obtain rfl := List.mem_singleton.1 hother
      trivial
  | visit queues =>
    obtain rfl := List.mem_singleton.1 hother
    exact homes_nextQueue h [] input.now queues
  | start queue tasks queues promises =>
    have hstarts := startDispatches_starts queue s tasks
    have hsame : (startDispatches queue s tasks).1.addresses = s.addresses :=
      congrArg (List.map _) hstarts.rows
    rcases List.mem_cons.1 hother with rfl | hother
    · have hnames : NamesUnique (startDispatches queue s tasks).1 := by
        rw [NamesUnique, hsame]
        exact h
      exact homes_nextQueue hnames _ input.now queues
    · obtain ⟨d, hd, rfl⟩ := List.mem_map.1 hother
      obtain ⟨htask, hqueue, -⟩ := hstarts.mem d hd
      refine Homed.mono ?_ (segment_addresses lte s (.start queue tasks queues promises) input)
      rw [hqueue]
      exact hlocal d.task htask
  | wait promises =>
    simp only [segment, waitSegment] at hother ⊢
    repeat' split at hother
    · cases hother
    · obtain rfl := List.mem_singleton.1 hother
      trivial
    · obtain rfl := List.mem_singleton.1 hother
      trivial
    · cases hother
  | dispatch d =>
    have hstays : Homed (dispatchSegment s d input).1 d.task.name d.queue.name := by
      refine Homed.mono hlocal ?_
      rw [dispatchSegment_addresses]
    obtain ⟨task, queue, promise, stage⟩ := d
    cases stage with
    | answer dispatchTime =>
      simp only [segment, dispatchSegment] at hother hstays ⊢
      split at hother
      all_goals
        obtain rfl := List.mem_singleton.1 hother
        exact hlocal
    | settle ok =>
      rw [segment, dispatchSegment] at hother
      cases promise <;> cases hother
    | mark | send | close closing =>
      obtain rfl := List.mem_singleton.1 hother
      exact hstays
  | cleaned => cases hother
  | runTask | runQueue | runDispatch | deleteTask | deleteQueue | deleteMark | deleteWrite =>
    exact hlocal.elim

theorem homes_of_run {pool pool' : Pool State Call Outcome} {moves : List (Move Request Input)}
    (hrun : Run ((engine lte).Step OnlyTicks) pool moves pool') (h : homes.Holds pool) :
    homes.Holds pool' := by
  refine Outline.Holds.of_run ?_ ?_ hrun h
  · intro pool request _ hallowed
    obtain rfl := hallowed
    exact ⟨trivial, fun _ _ => trivial⟩
  · intro pool i input call h _ hcall
    have hsub := segment_addresses lte pool.shared call input
    have hcalls : ∀ other ∈ (segment lte pool.shared call input).2.calls,
        homes.Local (segment lte pool.shared call input).1 other :=
      homes_calls h.inv (h.each call (List.mem_of_getElem? hcall))
    refine ⟨.of_calls (fun _ => h.inv.mono hsub) hcalls
      (List.pairwise_of_forall fun _ _ => trivial), fun other hother => ?_⟩
    exact .of (homes_mono (h.each other (List.mem_of_mem_eraseIdx hother)) hsub) fun _ _ => trivial

/-- A filter does not see changes outside of it. -/
theorem filter_map_of_outside {α : Type*} {p : α → Bool} {f : α → α} {l : List α}
    (h : ∀ x ∈ l, f x = x ∨ p x = false ∧ p (f x) = false) : (l.map f).filter p = l.filter p := by
  induction l with
  | nil => rfl
  | cons x l ih =>
    obtain ⟨hx, hl⟩ := List.forall_mem_cons.1 h
    rw [List.map_cons]
    rcases hx with hx | ⟨hx, hfx⟩
    · rw [hx, List.filter_cons, List.filter_cons, ih hl]
    · rw [List.filter_cons_of_neg (by simp [hfx]), List.filter_cons_of_neg (by simp [hx]), ih hl]

/-- **A dispatch stays in its queue.** Whatever comes of it, no other queue has other tasks to
dispatch or another bucket. -/
theorem dispatchSegment_other {d : Dispatch} (hhome : Homed s d.task.name d.queue.name)
    (input : Input) {queueName : JsString} (hne : queueName ≠ d.queue.name) (limit : ℕ) (now : ℤ) :
    findDispatchableTasks lte (dispatchSegment s d input).1 queueName limit now =
        findDispatchableTasks lte s queueName limit now ∧
      (dispatchSegment s d input).1.buckets queueName = s.buckets queueName := by
  have hupdate : ∀ update : Task → Task, (∀ task, (update task).queueName = task.queueName) →
      findDispatchableTasks lte (s.updateTask d.task.name update) queueName limit now =
        findDispatchableTasks lte s queueName limit now := by
    intro update hqueue
    have hfilter := filter_map_of_outside (l := s.tasks)
      (p := fun task => decide (task.queueName = queueName) && decide (task.status = .pending) &&
        lte task.scheduleTime (toISOString now) && task.httpRequest.isSome)
      (f := fun task => if task.name = d.task.name then update task else task) ?_
    · rw [findDispatchableTasks, findDispatchableTasks, State.updateTask, hfilter]
    · intro task htask
      by_cases hname : task.name = d.task.name
      · have hhomed := hhome _ (List.mem_map_of_mem htask) hname
        have hother : decide (task.queueName = queueName) = false :=
          decide_eq_false fun hsame => hne (hsame.symm.trans hhomed)
        refine .inr ⟨?_, ?_⟩
        · simp [hother]
        · simp [hname, hqueue, hother]
      · exact .inl (if_neg hname)
  obtain ⟨task, queue, promise, stage⟩ := d
  cases stage with
  | mark => exact ⟨hupdate _ fun _ => rfl, rfl⟩
  | send => exact ⟨rfl, rfl⟩
  | answer dispatchTime =>
    simp only [dispatchSegment]
    split <;> exact ⟨rfl, rfl⟩
  | close closing => exact ⟨hupdate _ fun _ => closing.apply_queueName _ _, rfl⟩
  | settle ok =>
    rw [dispatchSegment]
    cases promise with
    | none => exact ⟨rfl, rfl⟩
    | some promise => exact ⟨rfl, if_neg hne⟩

/-! ## The assertions -/

def Dispatching (s : State) (name : JsString) : Prop :=
  ∃ task ∈ s.tasks, task.name = name ∧ task.status = .dispatching

/-- A dispatch has been started for the task. -/
def Picked (s : State) (name : JsString) : Prop := name ∈ s.promises.map DispatchPromise.task

instance : Decidable (Picked s name) :=
  inferInstanceAs (Decidable (name ∈ s.promises.map DispatchPromise.task))

/-- Only these promises may be pending. -/
def PendingIn (s : State) (promises : List ℕ) : Prop :=
  ∀ k p, s.promises[k]? = some p → p.state = .pending → k ∈ promises

/-- Names are unique, no promise is rejected, and outside of ticks none is pending. -/
structure Orderly (s : State) : Prop where
  names : NamesUnique s
  notRejected : ∀ p ∈ s.promises, p.state ≠ .rejected
  idle : s.running = false → PendingIn s []

/-- A tick between its first and its last segment. -/
def Ticking : Call → Prop
  | .visit _ | .start _ _ _ _ | .wait _ | .cleaned => True
  | _ => False

/-- What a call of a tick knows. -/
def TickLocal (s : State) : Call → Prop
  | .tick => True
  | .visit _ | .cleaned => s.running = true ∧ PendingIn s []
  | .start _ tasks _ promises => (s.running = true ∧ PendingIn s promises) ∧
      ∀ task ∈ tasks, Dispatching s task.name → Picked s task.name
  | .wait promises => s.running = true ∧ PendingIn s promises
  | .dispatch d => (∃ k ∈ d.promise, s.promises[k]? = some ⟨d.task.name, .pending⟩) ∧
      ∀ ok, d.stage = .settle ok → ok = true
  | _ => False

/-- There is one tick at a time, and dispatches have their own promises. -/
def TickPair : Call → Call → Prop
  | .dispatch d, .dispatch d' => d.promise ≠ d'.promise
  | call, other => ¬(Ticking call ∧ Ticking other)

def ticks : Outline State Call Outcome where
  Inv s _ := Orderly s
  Local := TickLocal
  Pair := TickPair
  symm {call other} h := by
    cases call <;> cases other <;> first | exact Ne.symm h | exact fun hboth => h hboth.symm

/-! ## What the segments keep -/

theorem TickLocal.of_eq {s' : State} (h : TickLocal s call) (hrunning : s'.running = s.running)
    (hpromises : s'.promises = s.promises) (htasks : s'.tasks = s.tasks) : TickLocal s' call := by
  obtain ⟨tasks, queues, buckets, running, counter, promises, requests⟩ := s
  obtain ⟨tasks', queues', buckets', running', counter', promises', requests'⟩ := s'
  obtain ⟨rfl, rfl, rfl⟩ : running' = running ∧ promises' = promises ∧ tasks' = tasks :=
    ⟨hrunning, hpromises, htasks⟩
  cases call <;> exact h

theorem dispatching_updateTask {update : Task → Task} {other : JsString}
    (hname : ∀ task, (update task).name = task.name)
    (h : Dispatching (s.updateTask other update) name) :
    name = other ∧ (∃ task, (update task).status = .dispatching) ∨
      name ≠ other ∧ Dispatching s name := by
  obtain ⟨task, htask, rfl, hstatus⟩ := h
  obtain ⟨old, hold, rfl⟩ := List.mem_map.1 htask
  by_cases hother : old.name = other
  · rw [if_pos hother] at hstatus ⊢
    exact .inl ⟨(hname old).trans hother, old, hstatus⟩
  · rw [if_neg hother] at hstatus ⊢
    exact .inr ⟨hother, old, hold, rfl, hstatus⟩

theorem not_dispatching_of_dispatchable (h : NamesUnique s) {queueName : JsString} {limit : ℕ}
    {now : ℤ} {task : Task} (hmem : task ∈ findDispatchableTasks lte s queueName limit now) :
    ¬Dispatching s task.name := by
  rintro ⟨other, hother, hname, hstatus⟩
  obtain ⟨hstored, -, hpending⟩ := mem_of_dispatchable hmem
  rw [h.eq hother hstored hname, hpending] at hstatus
  cases hstatus

theorem Closing.apply_status (copy task : Task) (closing : Closing) :
    (closing.apply copy task).status ≠ .dispatching := by
  cases closing <;> exact fun h => by cases h

/-- What a segment of a call leaves, for itself and for another call. -/
structure TickStep (s : State) (call : Call) (result : State × Progress Call Outcome) : Prop where
  orderly : Orderly result.1
  own : ∀ rest ∈ result.2.calls, TickLocal result.1 rest
  pairs : result.2.calls.Pairwise TickPair
  other : ∀ other, TickLocal s other → TickPair call other →
    TickLocal result.1 other ∧ ∀ rest ∈ result.2.calls, TickPair rest other

theorem ticks_nextQueue (lte : JsString → JsString → Bool) (now : ℤ) {promises : List ℕ}
    (hnames : NamesUnique s)
    (hrunning : s.running = true) (hpending : PendingIn s promises) (queues : List Queue) :
    TickLocal (nextQueue lte s promises now queues).1 (nextQueue lte s promises now queues).2 ∧
      Ticking (nextQueue lte s promises now queues).2 := by
  cases queues with
  | nil => exact ⟨⟨hrunning, hpending⟩, trivial⟩
  | cons queue queues =>
    refine ⟨⟨⟨hrunning, hpending⟩, fun task htask hdispatching => ?_⟩, trivial⟩
    have hnames' : NamesUnique (s.refill queue) := hnames
    exact absurd hdispatching (not_dispatching_of_dispatchable hnames' htask)

theorem nextQueue_same (lte : JsString → JsString → Bool) (s : State) (promises : List ℕ) (now : ℤ) (queues : List Queue) :
    (nextQueue lte s promises now queues).1.running = s.running ∧
      (nextQueue lte s promises now queues).1.promises = s.promises ∧
      (nextQueue lte s promises now queues).1.tasks = s.tasks := by
  cases queues <;> exact ⟨rfl, rfl, rfl⟩

theorem Orderly.of_eq {s' : State} (h : Orderly s) (hrunning : s'.running = s.running)
    (hpromises : s'.promises = s.promises) (htasks : s'.tasks = s.tasks) : Orderly s' := by
  obtain ⟨tasks, queues, buckets, running, counter, promises, requests⟩ := s
  obtain ⟨tasks', queues', buckets', running', counter', promises', requests'⟩ := s'
  obtain ⟨rfl, rfl, rfl⟩ : running' = running ∧ promises' = promises ∧ tasks' = tasks :=
    ⟨hrunning, hpromises, htasks⟩
  exact ⟨h.names, h.notRejected, h.idle⟩

/-- Another call of the tick takes its place. -/
theorem pair_of_ticking {rest other : Call} (hcall : Ticking call) (hrest : Ticking rest)
    (h : TickPair call other) : TickPair rest other := by
  cases call <;> cases rest <;> first | exact hcall.elim | exact hrest.elim | exact h

theorem tick_tickStep (h : Orderly s) : TickStep s .tick (segment lte s .tick input) := by
  rw [segment]
  split
  · exact ⟨h, (fun rest hrest => by cases hrest), .nil, fun other hother _ =>
      ⟨hother, fun rest hrest => by cases hrest⟩⟩
  · have hidle : s.running = false := Bool.eq_false_iff.2 ‹_›
    refine ⟨⟨h.names, h.notRejected, fun hrunning => by cases hrunning⟩, ?_, List.pairwise_singleton ..,
      fun other hother _ => ?_⟩
    · intro rest hrest
      obtain rfl := List.mem_singleton.1 hrest
      exact ⟨rfl, h.idle hidle⟩
    · -- no other tick can be under way, and no dispatch
      have hbusy : s.running ≠ true := ‹_›
      refine ⟨?_, fun rest hrest => ?_⟩
      · cases other with
        | visit | cleaned | wait => exact absurd hother.1 hbusy
        | start => exact absurd hother.1.1 hbusy
        | _ => exact hother
      · obtain rfl := List.mem_singleton.1 hrest
        rintro ⟨-, hticking⟩
        cases other with
        | visit | cleaned | wait => exact absurd hother.1 hbusy
        | start => exact absurd hother.1.1 hbusy
        | _ => exact hticking

theorem visit_tickStep {queues : List Queue} (h : Orderly s) (hlocal : TickLocal s (.visit queues)) :
    TickStep s (.visit queues) (segment lte s (.visit queues) input) := by
  obtain ⟨hrunning, hpending⟩ := hlocal
  obtain ⟨hrest, hticking⟩ := ticks_nextQueue lte input.now h.names hrunning hpending
    queues
  obtain ⟨hsame, hsame', hsame''⟩ := nextQueue_same lte s [] input.now queues
  refine ⟨h.of_eq hsame hsame' hsame'', ?_, List.pairwise_singleton .., fun other hother hpair => ?_⟩
  · intro rest hmem
    obtain rfl := List.mem_singleton.1 hmem
    exact hrest
  · refine ⟨hother.of_eq hsame hsame' hsame'', fun rest hmem => ?_⟩
    obtain rfl := List.mem_singleton.1 hmem
    have hvisit : Ticking (.visit queues) := trivial
    exact pair_of_ticking hvisit hticking hpair

/-- The promises there were keep their places. -/
theorem getElem?_append_of_some {α : Type*} {l l' : List α} {k : ℕ} {x : α} (h : l[k]? = some x) :
    (l ++ l')[k]? = some x := by
  obtain ⟨hk, -⟩ := List.getElem?_eq_some_iff.1 h
  rw [List.getElem?_append_left hk, h]

theorem start_tickStep {queue : Queue} {tasks : List Task} {queues : List Queue}
    {promises : List ℕ} (h : Orderly s) (hlocal : TickLocal s (.start queue tasks queues promises))
    (hthrow : DoesNotThrow s input (.start queue tasks queues promises)) :
    TickStep s (.start queue tasks queues promises)
      (segment lte s (.start queue tasks queues promises) input) := by
  obtain ⟨⟨hrunning, hpending⟩, hfresh⟩ := hlocal
  have hbackoffs : (startDispatches queue s tasks).2 ≠ [] → queue.retryConfig.backoffs.isSome :=
    fun hne => hthrow (startDispatches_ne_nil hne).1 (startDispatches_ne_nil hne).2
  have hstarts := startDispatches_starts queue s tasks
  rw [segment]
  generalize startDispatches queue s tasks = result at hstarts hbackoffs ⊢
  obtain ⟨s', started⟩ := result
  obtain ⟨hrows, hrun, hpromises, hnumbers, hmem⟩ := hstarts
  dsimp only at hrows hrun hpromises hnumbers hmem hbackoffs ⊢
  -- the dispatches that start, and the promises they get
  have hpromise : ∀ d ∈ started, ∃ k ∈ d.promise, s.promises.length ≤ k ∧
      s'.promises[k]? = some ⟨d.task.name, .pending⟩ := by
    intro d hd
    obtain ⟨j, hj, rfl⟩ := List.mem_iff_getElem.1 hd
    have hnumber := congrArg (fun l => l[j]?) hnumbers
    refine ⟨s.promises.length + j, ?_, Nat.le_add_right .., ?_⟩
    · simpa [hj] using hnumber
    · rw [hpromises, List.getElem?_append_right (Nat.le_add_right ..), Nat.add_sub_cancel_left]
      simp [hj]
  have hdistinct : (started.map Call.dispatch).Pairwise TickPair := by
    have hnodup : (started.map Dispatch.promise).Nodup := by
      rw [hnumbers]
      exact (List.nodup_range').map (Option.some_injective ℕ)
    have hpairs : started.Pairwise fun d d' => d.promise ≠ d'.promise := List.pairwise_map.1 hnodup
    exact List.pairwise_map.2 hpairs
  have hallpending : PendingIn s' (promises ++ started.filterMap Dispatch.promise) := by
    intro k p hk hp
    rw [hpromises] at hk
    rcases Nat.lt_or_ge k s.promises.length with hold | hnew
    · rw [List.getElem?_append_left hold] at hk
      exact List.mem_append_left _ (hpending k p hk hp)
    · rw [List.getElem?_append_right hnew, List.getElem?_map] at hk
      obtain ⟨d, hd, -⟩ := Option.map_eq_some_iff.1 hk
      obtain ⟨hj, hd⟩ := List.getElem?_eq_some_iff.1 hd
      have hnumber := congrArg (fun l => l[k - s.promises.length]?) hnumbers
      refine List.mem_append_right _ (List.mem_filterMap.2 ⟨d, hd ▸ List.getElem_mem hj, ?_⟩)
      have hk : s.promises.length + (k - s.promises.length) = k := Nat.add_sub_cancel' hnew
      simpa [hj, hd, hk] using hnumber
  -- what holds after the loop, before the next queue is looked up
  have horderly : Orderly s' := by
    refine ⟨?_, fun p hp => ?_, fun hidle => ?_⟩
    · rw [NamesUnique, State.addresses, hrows]
      exact h.names
    · rw [hpromises] at hp
      rcases List.mem_append.1 hp with hp | hp
      · exact h.notRejected p hp
      · obtain ⟨d, -, rfl⟩ := List.mem_map.1 hp
        exact fun h => by cases h
    · exact absurd (hrunning.symm.trans (hrun.symm.trans hidle)) (by decide)
  have hothers : ∀ other, TickLocal s other →
      TickPair (.start queue tasks queues promises) other → TickLocal s' other := by
    intro other hother hpair
    cases other with
    | dispatch d =>
      obtain ⟨⟨k, hk, hold⟩, hok⟩ := hother
      refine ⟨⟨k, hk, ?_⟩, hok⟩
      rw [hpromises]
      exact getElem?_append_of_some hold
    | visit | start | wait | cleaned => exact absurd ⟨trivial, trivial⟩ hpair
    | _ => exact hother
  obtain ⟨hrest, hticking⟩ := ticks_nextQueue lte input.now horderly.names (hrun.trans hrunning)
    hallpending queues
  obtain ⟨hsame, hsame', hsame''⟩ := nextQueue_same lte s'
    (promises ++ started.filterMap Dispatch.promise) input.now queues
  refine ⟨horderly.of_eq hsame hsame' hsame'', ?_, ?_, fun other hother hpair => ?_⟩
  · refine List.forall_mem_cons.2 ⟨hrest, fun call hcall => ?_⟩
    obtain ⟨d, hd, rfl⟩ := List.mem_map.1 hcall
    obtain ⟨k, hk, -, hpending⟩ := hpromise d hd
    obtain ⟨-, -, hstage⟩ := hmem d hd
    have hlocal : TickLocal s' (.dispatch d) := by
      refine ⟨⟨k, hk, hpending⟩, fun ok hok => ?_⟩
      obtain ⟨backoffs, hparsed⟩ :=
        Option.isSome_iff_exists.1 (hbackoffs (List.ne_nil_of_mem hd))
      simp only [hstage, dispatchTask, hparsed] at hok
      split at hok
      · exact (Stage.settle.inj hok).symm
      · cases hok
    exact hlocal.of_eq hsame hsame' hsame''
  · refine List.pairwise_cons.2 ⟨fun call hcall => ?_, hdistinct⟩
    obtain ⟨d, -, rfl⟩ := List.mem_map.1 hcall
    have hnot : TickPair (.cleaned) (.dispatch d) := fun hboth => hboth.2
    exact pair_of_ticking (show Ticking .cleaned from trivial) hticking hnot
  · refine ⟨(hothers other hother hpair).of_eq hsame hsame' hsame'', ?_⟩
    have hstart : Ticking (.start queue tasks queues promises) := trivial
    refine List.forall_mem_cons.2 ⟨pair_of_ticking hstart hticking hpair, fun call hcall => ?_⟩
    obtain ⟨d, hd, rfl⟩ := List.mem_map.1 hcall
    cases other with
    | dispatch d' =>
      obtain ⟨k, hk, hge, -⟩ := hpromise d hd
      obtain ⟨⟨k', hk', hold⟩, -⟩ := hother
      obtain ⟨hlt, -⟩ := List.getElem?_eq_some_iff.1 hold
      intro hsame
      obtain rfl := Option.some.inj (hk.symm.trans (hsame.trans hk'))
      omega
    | _ => exact fun hboth => hboth.1

theorem wait_tickStep {promises : List ℕ} (h : Orderly s) (hlocal : TickLocal s (.wait promises)) :
    TickStep s (.wait promises) (segment lte s (.wait promises) input) := by
  obtain ⟨hrunning, hpending⟩ := hlocal
  have hstates : ∀ state ∈ s.promiseStates promises, ∃ p ∈ s.promises, p.state = state := by
    intro state hstate
    obtain ⟨k, -, hk⟩ := List.mem_filterMap.1 hstate
    obtain ⟨p, hp, rfl⟩ := Option.map_eq_some_iff.1 hk
    exact ⟨p, List.mem_of_getElem? hp, rfl⟩
  have hwait : Ticking (.wait promises) := trivial
  rw [segment, waitSegment]
  split
  · obtain ⟨p, hp, hrejected⟩ := hstates .rejected ‹_›
    exact absurd hrejected (h.notRejected p hp)
  split
  · refine ⟨h, fun rest hrest => ?_, List.pairwise_singleton .., fun other hother hpair =>
      ⟨hother, fun rest hrest => ?_⟩⟩
    · obtain rfl := List.mem_singleton.1 hrest
      exact ⟨hrunning, hpending⟩
    · obtain rfl := List.mem_singleton.1 hrest
      exact hpair
  -- all promises the tick waits for are resolved, and no others could be pending
  have hnone : PendingIn s [] := by
    intro k p hk hp
    have hwaited := hpending k p hk hp
    refine absurd (List.mem_filterMap.2 ⟨k, hwaited, ?_⟩) ‹.pending ∉ s.promiseStates promises›
    rw [hk, Option.map_some, hp]
  have hothers : ∀ other, TickLocal s other → TickPair (.wait promises) other →
      other = .tick := by
    intro other hother hpair
    cases other with
    | tick => rfl
    | visit | start | wait | cleaned => exact absurd ⟨trivial, trivial⟩ hpair
    | dispatch d =>
      obtain ⟨⟨k, -, hk⟩, -⟩ := hother
      exact absurd (hnone k _ hk rfl) List.not_mem_nil
    | _ => exact hother.elim
  split
  · have hcleaned : (cleanupExpiredTombstones lte { s with tombstoneCleanupCounter := 0 }
        input.now).addresses.Sublist s.addresses := List.filter_sublist.map _
    refine ⟨⟨h.names.mono hcleaned, h.notRejected, fun _ => hnone⟩, fun rest hrest => ?_,
      List.pairwise_singleton .., fun other hother hpair => ?_⟩
    · obtain rfl := List.mem_singleton.1 hrest
      exact ⟨hrunning, hnone⟩
    · obtain rfl := hothers other hother hpair
      refine ⟨trivial, fun rest hrest => ?_⟩
      obtain rfl := List.mem_singleton.1 hrest
      exact fun hboth => hboth.2
  · refine ⟨⟨h.names, h.notRejected, fun _ => hnone⟩, (fun rest hrest => by cases hrest), .nil,
      fun other hother hpair => ?_⟩
    obtain rfl := hothers other hother hpair
    exact ⟨trivial, fun rest hrest => by cases hrest⟩

theorem cleaned_tickStep (h : Orderly s) (hlocal : TickLocal s .cleaned) :
    TickStep s .cleaned (segment lte s .cleaned input) := by
  obtain ⟨hrunning, hnone⟩ := hlocal
  refine ⟨⟨h.names, h.notRejected, fun _ => hnone⟩, (fun rest hrest => by cases hrest), .nil,
    fun other hother hpair => ⟨?_, fun rest hrest => by cases hrest⟩⟩
  cases other with
  | visit | start | wait | cleaned => exact absurd ⟨trivial, trivial⟩ hpair
  | _ => exact hother

theorem TickLocal.updateTask (h : TickLocal s call) {other : JsString} (hpicked : Picked s other)
    {update : Task → Task} (hname : ∀ task, (update task).name = task.name) :
    TickLocal (s.updateTask other update) call := by
  cases call with
  | start queue tasks queues promises =>
    refine ⟨h.1, fun task htask hdispatching => ?_⟩
    rcases dispatching_updateTask hname hdispatching with ⟨heq, -⟩ | ⟨-, hdispatching⟩
    · exact heq ▸ hpicked
    · exact h.2 task htask hdispatching
  | _ => exact h

theorem picked_of_promise {k : ℕ} {p : DispatchPromise} (h : s.promises[k]? = some p) :
    Picked s p.task := List.mem_map_of_mem (List.mem_of_getElem? h)

/-- A segment that leaves the dispatch under way, with its promise pending. -/
theorem tickStep_of_pending {d d' : Dispatch} {s' : State} (horderly : Orderly s')
    (hlocal : TickLocal s' (.dispatch d')) (hpromise : d'.promise = d.promise)
    (hothers : ∀ other, TickLocal s other → TickLocal s' other) :
    TickStep s (.dispatch d) (s', .pending (.dispatch d')) := by
  refine ⟨horderly, fun rest hrest => ?_, List.pairwise_singleton .., fun other hother hpair =>
    ⟨hothers other hother, fun rest hrest => ?_⟩⟩
  · obtain rfl := List.mem_singleton.1 hrest
    exact hlocal
  · obtain rfl := List.mem_singleton.1 hrest
    cases other with
    | dispatch other => exact fun hsame => hpair (hpromise.symm.trans hsame)
    | _ => exact fun hboth => hboth.1

theorem settle_promises {k j : ℕ} {p : DispatchPromise}
    (h : (s.settle k .resolved).promises[j]? = some p) :
    k ≠ j ∧ s.promises[j]? = some p ∨ p.state = .resolved := by
  rw [State.settle, List.getElem?_modify] at h
  obtain ⟨old, hold, rfl⟩ := Option.map_eq_some_iff.1 h
  by_cases hsame : k = j
  · exact .inr (by rw [if_pos hsame])
  · rw [if_neg hsame]
    exact .inl ⟨hsame, hold⟩

theorem settle_tasks (s : State) (k : ℕ) (state : PromiseState) :
    (s.settle k state).promises.map DispatchPromise.task = s.promises.map DispatchPromise.task := by
  refine List.ext_getElem? fun j => ?_
  rw [State.settle, List.getElem?_map, List.getElem?_modify, List.getElem?_map]
  cases s.promises[j]? with
  | none => rfl
  | some p =>
    rw [Option.map_eq_map, Option.map_some, Option.map_some, Option.map_some]
    split <;> rfl

/-- A promise that is resolved does not concern the other calls. -/
theorem settle_tickStep {task : Task} {queue : Queue} {k : ℕ} {outcome : Outcome} {ok : Bool}
    (h : Orderly s) :
    TickStep s (.dispatch ⟨task, queue, some k, .settle ok⟩)
      ((s.updateBucket queue.name .release).settle k .resolved, .finished outcome) := by
  have hpending : ∀ promises, PendingIn s promises → PendingIn (s.settle k .resolved) promises := by
    intro promises hin j p hj hp
    rcases settle_promises hj with ⟨-, hold⟩ | hresolved
    · exact hin j p hold hp
    · exact nomatch hresolved.symm.trans hp
  refine ⟨⟨h.names, fun p hp => ?_, fun hidle => hpending [] (h.idle hidle)⟩,
    (fun rest hrest => by cases hrest), .nil,
    fun other hother hpair => ⟨?_, fun rest hrest => by cases hrest⟩⟩
  · obtain ⟨j, hj⟩ := List.mem_iff_getElem?.1 hp
    have hj' : (s.settle k .resolved).promises[j]? = some p := hj
    rcases settle_promises hj' with ⟨-, hold⟩ | hresolved
    · exact h.notRejected p (List.mem_of_getElem? hold)
    · exact fun hrejected => nomatch hresolved.symm.trans hrejected
  · cases other with
    | visit | wait | cleaned => exact ⟨hother.1, hpending _ hother.2⟩
    | start queue' tasks queues promises =>
      refine ⟨⟨hother.1.1, hpending _ hother.1.2⟩, fun task htask hdispatching => ?_⟩
      have hpicked := hother.2 task htask hdispatching
      rw [Picked, ← settle_tasks s k .resolved] at hpicked
      exact hpicked
    | dispatch d =>
      obtain ⟨⟨k', hk', hold⟩, hok⟩ := hother
      refine ⟨⟨k', hk', ?_⟩, hok⟩
      have hne : k ≠ k' := fun hsame => hpair (hsame ▸ hk'.symm)
      have hmodify : (s.settle k .resolved).promises[k']? =
          some ⟨d.task.name, .pending⟩ := by
        rw [State.settle, List.getElem?_modify, hold, Option.map_eq_map, Option.map_some,
          if_neg hne]
      exact hmodify
    | _ => exact hother

theorem dispatch_tickStep {d : Dispatch} (h : Orderly s) (hlocal : TickLocal s (.dispatch d))
    (hthrow : DoesNotThrow s input (.dispatch d)) :
    TickStep s (.dispatch d) (segment lte s (.dispatch d) input) := by
  obtain ⟨⟨k, hk, hpending⟩, hsettle⟩ := hlocal
  have hpicked : Picked s d.task.name := picked_of_promise hpending
  obtain ⟨task, queue, promise, stage⟩ := d
  obtain rfl : promise = some k := hk
  -- an update of the task itself leaves the promises alone
  have hupdate : ∀ (update : Task → Task) (stage' : Stage),
      (∀ task, (update task).name = task.name ∧ (update task).queueName = task.queueName) →
      (∀ ok, stage' = .settle ok → ok = true) →
      TickStep s (.dispatch ⟨task, queue, some k, stage⟩)
        (s.updateTask task.name update, .pending (.dispatch ⟨task, queue, some k, stage'⟩)) := by
    intro update stage' haddress hstage
    have hsame : (s.updateTask task.name update).addresses = s.addresses :=
      updateTask_addresses haddress
    refine tickStep_of_pending ⟨?_, h.notRejected, h.idle⟩ ⟨⟨k, rfl, hpending⟩, hstage⟩ rfl
      fun other hother => hother.updateTask hpicked fun task => (haddress task).1
    rw [NamesUnique, hsame]
    exact h.names
  cases stage with
  | mark => exact hupdate _ _ (fun _ => ⟨rfl, rfl⟩) fun ok hok => by cases hok
  | send =>
    exact tickStep_of_pending (h.of_eq rfl rfl rfl) ⟨⟨k, rfl, hpending⟩, fun ok hok => by cases hok⟩
      rfl fun other hother => hother.of_eq rfl rfl rfl
  | answer dispatchTime =>
    have hdate : HasDate ⟨task, queue, some k, .answer dispatchTime⟩ input := hthrow
    obtain ⟨closing, hclosing⟩ :=
      Option.isSome_iff_exists.1 (closing_isSome dispatchTime hdate)
    simp only [segment, dispatchSegment, hclosing]
    exact tickStep_of_pending h ⟨⟨k, rfl, hpending⟩, fun ok hok => by cases hok⟩ rfl
      fun other hother => hother
  | close closing =>
    refine hupdate _ _ (fun task => ⟨closing.apply_name _ task, closing.apply_queueName _ task⟩) ?_
    intro ok hok
    exact (Stage.settle.inj hok).symm
  | settle ok =>
    obtain rfl := hsettle ok rfl
    exact settle_tickStep h

/-! ## Tasks that are being dispatched -/

/-- A dispatch between its first update of the task and its last. -/
def Stage.Active : Stage → Prop
  | .send | .answer _ | .close _ => True
  | .mark | .settle _ => False

def ActiveIn (calls : List Call) (name : JsString) : Prop :=
  ∃ d : Dispatch, .dispatch d ∈ calls ∧ d.task.name = name ∧ d.stage.Active

/-- Whenever a task that was picked is dispatching, a dispatch of it is under way. -/
def Tracked (pool : Pool State Call Outcome) : Prop :=
  ∀ name, Picked pool.shared name → Dispatching pool.shared name → ActiveIn pool.calls name

/-- After a segment, a task that is dispatching is so because of the call, or was before, and then
not because of the call. -/
theorem segment_tracked (hlocal : TickLocal s call) (hthrow : DoesNotThrow s input call)
    (hpicked : Picked (segment lte s call input).1 name)
    (hdispatching : Dispatching (segment lte s call input).1 name) :
    ActiveIn (segment lte s call input).2.calls name ∨
      (Picked s name ∧ Dispatching s name ∧ ¬ActiveIn [call] name) := by
  have hcall : (∀ d, call ≠ .dispatch d) → ¬ActiveIn [call] name := by
    rintro hne ⟨d, hd, -⟩
    exact hne d (List.mem_singleton.1 hd).symm
  cases call with
  | tick =>
    rw [segment] at hpicked hdispatching
    split at hpicked
    · rw [if_pos ‹_›] at hdispatching
      exact .inr ⟨hpicked, hdispatching, hcall fun d h => by cases h⟩
    · rw [if_neg ‹_›] at hdispatching
      exact .inr ⟨hpicked, hdispatching, hcall fun d h => by cases h⟩
  | visit queues =>
    have hsame := nextQueue_same lte s [] input.now queues
    refine .inr ⟨?_, ?_, hcall fun d h => by cases h⟩
    · rw [Picked, ← hsame.2.1]
      exact hpicked
    · rw [Dispatching, ← hsame.2.2]
      exact hdispatching
  | start queue tasks queues promises =>
    have hstarts := startDispatches_starts queue s tasks
    have hsame := nextQueue_same lte (startDispatches queue s tasks).1
      (promises ++ (startDispatches queue s tasks).2.filterMap Dispatch.promise) input.now queues
    have hwas : Dispatching s name := by
      rw [Dispatching, ← hstarts.rows, ← hsame.2.2]
      exact hdispatching
    refine .inr ⟨?_, hwas, hcall fun d h => by cases h⟩
    have hmem : name ∈ (startDispatches queue s tasks).1.promises.map DispatchPromise.task := by
      rw [← hsame.2.1]
      exact hpicked
    rw [hstarts.promises, List.map_append] at hmem
    rcases List.mem_append.1 hmem with hmem | hmem
    · exact hmem
    · rw [List.map_map] at hmem
      obtain ⟨d, hd, rfl⟩ := List.mem_map.1 hmem
      exact hlocal.2 d.task (hstarts.mem d hd).1 hwas
  | wait promises =>
    have hsub : (segment lte s (.wait promises) input).1.tasks ⊆ s.tasks ∧
        (segment lte s (.wait promises) input).1.promises = s.promises := by
      rw [segment, waitSegment]
      repeat' split
      · exact ⟨List.Subset.refl _, rfl⟩
      · exact ⟨List.Subset.refl _, rfl⟩
      · exact ⟨List.filter_sublist.subset, rfl⟩
      · exact ⟨List.Subset.refl _, rfl⟩
    obtain ⟨task, htask, hname, hstatus⟩ := hdispatching
    refine .inr ⟨?_, ⟨task, hsub.1 htask, hname, hstatus⟩, hcall fun d h => by cases h⟩
    rw [Picked, ← hsub.2]
    exact hpicked
  | cleaned => exact .inr ⟨hpicked, hdispatching, hcall fun d h => by cases h⟩
  | dispatch d =>
    obtain ⟨⟨k, hk, -⟩, hsettle⟩ := hlocal
    obtain ⟨task, queue, promise, stage⟩ := d
    obtain rfl : promise = some k := hk
    have hother : name ≠ task.name →
        ¬ActiveIn [.dispatch ⟨task, queue, some k, stage⟩] name := by
      rintro hne ⟨d, hd, hname, -⟩
      obtain rfl := Call.dispatch.inj (List.mem_singleton.1 hd)
      exact hne hname.symm
    have hown : ∀ stage' : Stage, stage'.Active → name = task.name →
        ActiveIn [.dispatch ⟨task, queue, some k, stage'⟩] name :=
      fun stage' hactive hname => ⟨_, List.mem_singleton_self _, hname.symm, hactive⟩
    cases stage with
    | mark =>
      have hnames : ∀ old : Task, ({ old with
          status := .dispatching, dispatchCount := task.dispatchCount + 1 } : Task).name =
            old.name := fun _ => rfl
      obtain ⟨hname, -⟩ | ⟨hne, hwas⟩ := dispatching_updateTask hnames hdispatching
      · exact .inl (hown _ trivial hname)
      · exact .inr ⟨hpicked, hwas, hother hne⟩
    | send =>
      by_cases hname : name = task.name
      · exact .inl (hown _ trivial hname)
      · exact .inr ⟨hpicked, hdispatching, hother hname⟩
    | answer dispatchTime =>
      obtain ⟨closing, hclosing⟩ := Option.isSome_iff_exists.1 (closing_isSome dispatchTime hthrow)
      simp only [segment, dispatchSegment, hclosing] at hpicked hdispatching ⊢
      by_cases hname : name = task.name
      · exact .inl (hown _ trivial hname)
      · exact .inr ⟨hpicked, hdispatching, hother hname⟩
    | close closing =>
      obtain ⟨-, task', hstatus⟩ | ⟨hne, hwas⟩ :=
        dispatching_updateTask (fun task => closing.apply_name _ task) hdispatching
      · exact absurd hstatus (closing.apply_status _ _)
      · exact .inr ⟨hpicked, hwas, hother hne⟩
    | settle ok =>
      obtain rfl := hsettle ok rfl
      refine .inr ⟨?_, hdispatching, ?_⟩
      · rw [Picked, ← settle_tasks s k .resolved]
        exact hpicked
      · rintro ⟨d, hd, -, hactive⟩
        obtain rfl := Call.dispatch.inj (List.mem_singleton.1 hd)
        exact hactive
  | runTask | runQueue | runDispatch | deleteTask | deleteQueue | deleteMark | deleteWrite =>
    exact hlocal.elim

theorem tracked_of_step {pool pool' : Pool State Call Outcome} {m : Move Request Input}
    (h : ticks.Holds pool) (htracked : Tracked pool)
    (hstep : (engine lte).Step NoThrow pool m pool') : Tracked pool' := by
  obtain ⟨hallowed, hmove⟩ := hstep
  intro name hpicked hdispatching
  cases m with
  | start request =>
    obtain rfl := Option.some.inj hmove
    obtain ⟨d, hd, hactive⟩ := htracked name hpicked hdispatching
    exact ⟨d, List.mem_append_left _ hd, hactive⟩
  | resume i input =>
    obtain ⟨call, hcall, rfl⟩ := Option.map_eq_some_iff.1 hmove
    have hshared : (Async.advance pool i ((engine lte).segment pool.shared call input)).shared =
        (segment lte pool.shared call input).1 := Async.advance_shared ..
    rw [hshared] at hpicked hdispatching
    have hlocal := h.each call (List.mem_of_getElem? hcall)
    rcases segment_tracked hlocal (hallowed call hcall) hpicked hdispatching with
      ⟨d, hd, hactive⟩ | ⟨hwas, hwas', hnot⟩
    · exact ⟨d, (Async.mem_advance hcall).2 (.inl hd), hactive⟩
    · obtain ⟨d, hd, hname, hactive⟩ := htracked name hwas hwas'
      refine ⟨d, (Async.mem_advance hcall).2 (.inr ?_), hname, hactive⟩
      refine Async.mem_eraseIdx_of_ne hcall hd fun hsame => hnot ?_
      exact ⟨d, List.mem_singleton.2 hsame, hname, hactive⟩

/-! ## Runs -/

theorem TickStep.keeps {result : State × Progress Call Outcome} (h : TickStep s call result)
    (outcomes : List Outcome) : ticks.Keeps outcomes result :=
  .of_calls (fun _ => h.orderly) h.own h.pairs

theorem segment_tickStep (h : Orderly s) (hlocal : TickLocal s call)
    (hthrow : DoesNotThrow s input call) : TickStep s call (segment lte s call input) := by
  cases call with
  | tick => exact tick_tickStep h
  | visit queues => exact visit_tickStep h hlocal
  | start queue tasks queues promises => exact start_tickStep h hlocal hthrow
  | wait promises => exact wait_tickStep h hlocal
  | cleaned => exact cleaned_tickStep h hlocal
  | dispatch d => exact dispatch_tickStep h hlocal hthrow
  | runTask | runQueue | runDispatch | deleteTask | deleteQueue | deleteMark | deleteWrite =>
    exact hlocal.elim

theorem ticks_of_step {pool pool' : Pool State Call Outcome} {m : Move Request Input}
    (hstep : (engine lte).Step NoThrow pool m pool') (h : ticks.Holds pool) :
    ticks.Holds pool' := by
  refine h.of_step ?_ ?_ hstep
  · intro pool request _ hallowed
    obtain rfl := hallowed
    refine ⟨trivial, fun other _ => ?_⟩
    have hnot : ¬(Ticking other ∧ Ticking .tick) := fun hboth => hboth.2
    cases other <;> exact hnot
  · intro pool i input call h hallowed hcall
    have hstep : TickStep pool.shared call (segment lte pool.shared call input) :=
      segment_tickStep h.inv (h.each call (List.mem_of_getElem? hcall)) (hallowed call hcall)
    refine ⟨hstep.keeps _, fun other hother => ?_⟩
    obtain ⟨-, hlocal, hpair⟩ := h.pair_of_others hcall hother
    obtain ⟨hlocal, hpairs⟩ := hstep.other other hlocal hpair
    exact .of hlocal hpairs

/-- A tick that is over leaves nothing behind. -/
def Complete (pool : Pool State Call Outcome) : Prop :=
  pool.shared.running = false → (∀ d, .dispatch d ∉ pool.calls) ∧
    ∀ name, Picked pool.shared name → ¬Dispatching pool.shared name

theorem complete_of_ticks {pool : Pool State Call Outcome} (h : ticks.Holds pool)
    (htracked : Tracked pool) : Complete pool := by
  intro hidle
  have hnone : ∀ d, .dispatch d ∉ pool.calls := by
    intro d hd
    obtain ⟨⟨k, -, hpending⟩, -⟩ := h.each _ hd
    exact absurd (h.inv.idle hidle k _ hpending rfl) List.not_mem_nil
  refine ⟨hnone, fun name hpicked hdispatching => ?_⟩
  obtain ⟨d, hd, -⟩ := htracked name hpicked hdispatching
  exact hnone d hd

/-- No next segment of a dispatch in flight changes what there is to dispatch from another queue, or
the bucket of that queue. -/
def Undisturbed (lte : JsString → JsString → Bool) (pool : Pool State Call Outcome) : Prop :=
  ∀ d, .dispatch d ∈ pool.calls → ∀ input queueName, queueName ≠ d.queue.name → ∀ limit now,
    findDispatchableTasks lte (dispatchSegment pool.shared d input).1 queueName limit now =
        findDispatchableTasks lte pool.shared queueName limit now ∧
      (dispatchSegment pool.shared d input).1.buckets queueName = pool.shared.buckets queueName

/-- A tick, its one dispatch, and the end of the wait. -/
def wholeTick : List (Move Request Input) :=
  .start .tick :: List.replicate 3 (resumeJune 0) ++ List.replicate 5 (resumeJune 1) ++ [resumeJune 0]

/-- A second queue, whose shortest backoff is not a duration. -/
def brokenQueue : Queue :=
  { sampleQueue with name := "b", retryConfig := ⟨100, "abc", "3600s", 16⟩ }

def brokenState : State :=
  { sampleState with
    tasks := [sampleTask, { sampleTask with name := "b/t", queueName := "b" }]
    queues := [sampleQueue, brokenQueue] }

/-- Both queues are visited; the first task is marked; the second dispatch throws, and the wait ends. -/
def brokenTick : List (Move Request Input) :=
  .start .tick :: List.replicate 4 (resumeJune 0) ++ [resumeJune 1, resumeJune 2, resumeJune 0]

end Kinglet.Tasks
