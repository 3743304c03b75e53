import Kinglet.Tasks.Engine

/-!
# Deleted tasks stay deleted

A dispatch works on a copy of its task and writes the status back when the request is answered. As
long as a delete writes its tombstone while no call holds a copy, nothing revives the task.
-/

namespace Kinglet.Tasks

open Js Library

variable {lte : JsString → JsString → Bool} {s : State} {name : JsString}

/-! ## Copies of a task -/

/-- A call in flight has a copy of the task, on which it will act. -/
def holdsCopy (name : JsString) : Call → Bool
  | .start _ tasks _ _ => tasks.any fun task => task.name = name
  | .runQueue task | .runDispatch task _ => task.name = name
  | .dispatch ⟨task, _, _, stage⟩ =>
      match stage with
      | .settle _ => false
      | _ => task.name = name
  | _ => false

/-- The task whose tombstone the next segment of a call writes. -/
def deletes : Call → Option JsString
  | .deleteWrite name _ => some name
  | _ => none

/-- A delete writes the tombstone while no other call has a copy of the task. -/
def NoCopies (pool : Pool State Call Outcome) : Move Request Input → Prop
  | .start _ => True
  | .resume index _ => ∀ call ∈ pool.calls[index]?, ∀ name ∈ deletes call,
      ∀ other ∈ pool.calls.eraseIdx index, holdsCopy name other = false

instance (pool : Pool State Call Outcome) : ∀ m, Decidable (NoCopies pool m)
  | .start _ => .isTrue trivial
  | .resume index _ => inferInstanceAs <| Decidable <|
      ∀ call ∈ pool.calls[index]?, ∀ name ∈ deletes call,
        ∀ other ∈ pool.calls.eraseIdx index, holdsCopy name other = false

/-! ## A task that is gone -/

/-- Every row of the task, if there is one, is a tombstone. -/
def Dead (name : JsString) (s : State) : Prop :=
  ∀ task ∈ s.tasks, task.name = name → task.status = .tombstone

theorem dead_updateTask_self {update : Task → Task}
    (h : ∀ task, (update task).status = .tombstone) : Dead name (s.updateTask name update) := by
  intro task hmem hname
  obtain ⟨old, -, rfl⟩ := List.mem_map.1 hmem
  split
  · exact h old
  · rw [if_neg ‹_›] at hname
    exact absurd hname ‹_›

theorem Dead.updateTask (h : Dead name s) {other : JsString} {update : Task → Task}
    (hne : other ≠ name) (hname : ∀ task, (update task).name = task.name) :
    Dead name (s.updateTask other update) := by
  intro task hmem htask
  obtain ⟨old, hold, rfl⟩ := List.mem_map.1 hmem
  by_cases hother : old.name = other
  · rw [if_pos hother, hname] at htask
    exact absurd (hother.symm.trans htask) hne
  · rw [if_neg hother] at htask ⊢
    exact h old hold htask

theorem Closing.apply_name (copy task : Task) (closing : Closing) :
    (closing.apply copy task).name = task.name := by
  cases closing <;> rfl

theorem Dead.ne_of_dispatchable (h : Dead name s) {queueName : JsString} {limit : ℕ} {now : ℤ}
    {task : Task} (hmem : task ∈ findDispatchableTasks lte s queueName limit now) :
    task.name ≠ name := by
  intro hname
  have hfound := List.mem_of_mem_take hmem
  rw [List.mem_insertionSort, List.mem_filter] at hfound
  obtain ⟨hstored, htest⟩ := hfound
  simp [h task hstored hname] at htest

theorem getTaskByName_eq_some {task : Task} (h : s.getTaskByName name = some task) :
    task ∈ s.tasks ∧ task.name = name :=
  ⟨List.mem_of_find?_eq_some h, by simpa using List.find?_some h⟩

/-- The task is dead, a number of requests was sent for it, and no call has a copy of it. -/
def gone (name : JsString) (sent : ℕ) : Outline State Call Outcome where
  Inv s _ := Dead name s ∧ s.requests.count name = sent
  Local _ call := holdsCopy name call = false
  Pair _ _ := True
  symm h := h

section Segments

variable {sent : ℕ} {outcomes : List Outcome} {call : Call} {input : Input}

/-- What a segment leaves of a task that is gone. -/
structure StaysGone (name : JsString) (sent : ℕ) (result : State × Progress Call Outcome) :
    Prop where
  dead : Dead name result.1
  sent : result.1.requests.count name = sent
  copies : ∀ call ∈ result.2.calls, holdsCopy name call = false

theorem nextQueue_gone (h : Dead name s) (promises : List ℕ) (now : ℤ) (queues : List Queue) :
    (nextQueue lte s promises now queues).1.tasks = s.tasks ∧
      (nextQueue lte s promises now queues).1.requests = s.requests ∧
      holdsCopy name (nextQueue lte s promises now queues).2 = false := by
  cases queues with
  | nil => exact ⟨rfl, rfl, rfl⟩
  | cons queue queues =>
    refine ⟨rfl, rfl, List.any_eq_false.2 fun task htask => ?_⟩
    have hdead : Dead name (s.refill queue) := h
    simpa using hdead.ne_of_dispatchable htask

theorem startDispatches_gone (s : State) (queue : Queue) {tasks : List Task}
    (h : ∀ task ∈ tasks, task.name ≠ name) :
    (startDispatches queue s tasks).1.tasks = s.tasks ∧
      (startDispatches queue s tasks).1.requests = s.requests ∧
      ∀ d ∈ (startDispatches queue s tasks).2, d.task.name ≠ name := by
  induction tasks generalizing s with
  | nil => exact ⟨rfl, rfl, fun d hd => absurd hd List.not_mem_nil⟩
  | cons task tasks ih =>
    obtain ⟨htask, htasks⟩ := List.forall_mem_cons.1 h
    rw [startDispatches]
    split
    · exact ⟨rfl, rfl, fun d hd => absurd hd List.not_mem_nil⟩
    · obtain ⟨hsame, hsent, hrest⟩ := ih _ htasks
      exact ⟨hsame, hsent, List.forall_mem_cons.2 ⟨htask, hrest⟩⟩

theorem dispatchSegment_gone {d : Dispatch} (hdead : Dead name s)
    (hsent : s.requests.count name = sent) (hcopy : holdsCopy name (.dispatch d) = false) :
    StaysGone name sent (dispatchSegment s d input) := by
  obtain ⟨task, queue, promise, stage⟩ := d
  cases stage with
  | settle ok =>
    rw [dispatchSegment]
    cases promise <;> exact ⟨hdead, hsent, fun call hcall => nomatch hcall⟩
  | mark =>
    have hne : task.name ≠ name := of_decide_eq_false hcopy
    refine ⟨hdead.updateTask hne fun _ => rfl, hsent, fun call hcall => ?_⟩
    obtain rfl := List.mem_singleton.1 hcall
    exact hcopy
  | send =>
    have hne : task.name ≠ name := of_decide_eq_false hcopy
    refine ⟨hdead, ?_, fun call hcall => ?_⟩
    · rw [dispatchSegment, List.count_append, hsent, List.count_singleton, if_neg (by simpa),
        Nat.add_zero]
    · obtain rfl := List.mem_singleton.1 hcall
      exact hcopy
  | answer dispatchTime =>
    simp only [dispatchSegment]
    split
    · refine ⟨hdead, hsent, fun call hcall => ?_⟩
      obtain rfl := List.mem_singleton.1 hcall
      exact hcopy
    · refine ⟨hdead, hsent, fun call hcall => ?_⟩
      obtain rfl := List.mem_singleton.1 hcall
      rfl
  | close closing =>
    have hne : task.name ≠ name := of_decide_eq_false hcopy
    refine ⟨hdead.updateTask hne fun _ => Closing.apply_name _ _ _, hsent, fun call hcall => ?_⟩
    obtain rfl := List.mem_singleton.1 hcall
    rfl

theorem waitSegment_gone {promises : List ℕ} {now : ℤ} (hdead : Dead name s)
    (hsent : s.requests.count name = sent) :
    StaysGone name sent (waitSegment lte s promises now) := by
  rw [waitSegment]
  split
  · exact ⟨hdead, hsent, fun call hcall => nomatch hcall⟩
  · split
    · refine ⟨hdead, hsent, fun call hcall => ?_⟩
      obtain rfl := List.mem_singleton.1 hcall
      rfl
    · split
      · refine ⟨fun task htask => hdead task (List.mem_of_mem_filter htask), hsent, ?_⟩
        intro call hcall
        obtain rfl := List.mem_singleton.1 hcall
        rfl
      · exact ⟨hdead, hsent, fun call hcall => nomatch hcall⟩

/-- A segment does not revive the task and gets no copy of it. -/
theorem segment_gone (hdead : Dead name s) (hsent : s.requests.count name = sent)
    (hcopy : holdsCopy name call = false) : StaysGone name sent (segment lte s call input) := by
  have stay : ∀ rest, holdsCopy name rest = false →
      StaysGone name sent (s, (.pending rest : Progress Call Outcome)) := by
    refine fun rest hrest => ⟨hdead, hsent, fun call hcall => ?_⟩
    obtain rfl := List.mem_singleton.1 hcall
    exact hrest
  have done : ∀ outcome, StaysGone name sent (s, (.finished outcome : Progress Call Outcome)) :=
    fun _ => ⟨hdead, hsent, fun call hcall => nomatch hcall⟩
  cases call with
  | tick =>
    rw [segment]
    split
    · exact done _
    · refine ⟨hdead, hsent, fun call hcall => ?_⟩
      obtain rfl := List.mem_singleton.1 hcall
      rfl
  | visit queues =>
    obtain ⟨htasks, hrequests, hrest⟩ := nextQueue_gone hdead [] input.now queues
    refine ⟨fun task htask => hdead task (htasks ▸ htask), hrequests ▸ hsent, fun call hcall => ?_⟩
    obtain rfl := List.mem_singleton.1 hcall
    exact hrest
  | start queue tasks queues promises =>
    have hother : ∀ task ∈ tasks, task.name ≠ name := fun task htask => by
      simpa using List.any_eq_false.1 hcopy task htask
    obtain ⟨hsame, hrequests, hstarted⟩ := startDispatches_gone s queue hother
    have hdead' : Dead name (startDispatches queue s tasks).1 :=
      fun task htask => hdead task (hsame ▸ htask)
    obtain ⟨hsame', hrequests', hrest⟩ := nextQueue_gone hdead'
      (promises ++ (startDispatches queue s tasks).2.filterMap Dispatch.promise) input.now queues
    refine ⟨fun task htask => hdead' task (hsame' ▸ htask), ?_, fun call hcall => ?_⟩
    · exact (congrArg _ (hrequests'.trans hrequests)).trans hsent
    · rcases List.mem_cons.1 hcall with rfl | hcall
      · exact hrest
      · obtain ⟨d, hd, rfl⟩ := List.mem_map.1 hcall
        obtain ⟨task, _, _, stage⟩ := d
        cases stage <;> first | rfl | exact decide_eq_false (hstarted _ hd)
  | wait promises => exact waitSegment_gone hdead hsent
  | cleaned => exact ⟨hdead, hsent, fun call hcall => nomatch hcall⟩
  | dispatch d => exact dispatchSegment_gone hdead hsent hcopy
  | runTask other =>
    rw [segment]
    split
    · exact done _
    · rename_i task hfound
      split
      · exact done _
      · obtain ⟨hmem, rfl⟩ := getTaskByName_eq_some hfound
        exact stay _ (decide_eq_false fun hname => ‹¬_› (hdead task hmem hname))
  | runQueue task => exact stay _ hcopy
  | runDispatch task queue =>
    cases queue with
    | none => exact done _
    | some queue =>
      refine stay _ ?_
      cases hstage : dispatchTask task queue with
      | settle ok => rfl
      | _ => exact hcopy
  | deleteTask other =>
    rw [segment]
    split
    · exact done _
    · split
      · exact done _
      · exact stay _ rfl
  | deleteQueue task => exact stay _ rfl
  | deleteMark other queue =>
    simp only [segment]
    split
    · exact stay _ rfl
    · exact done _
  | deleteWrite other expiry =>
    refine ⟨?_, hsent, fun call hcall => nomatch hcall⟩
    by_cases hother : other = name
    · subst hother
      exact dead_updateTask_self fun _ => rfl
    · exact hdead.updateTask hother fun _ => rfl

end Segments

/-! ## Runs -/

theorem StaysGone.keeps {sent : ℕ} {outcomes : List Outcome}
    {result : State × Progress Call Outcome} (h : StaysGone name sent result) :
    (gone name sent).Keeps outcomes result := by
  obtain ⟨s, rest | ⟨rest, started⟩ | outcome⟩ := result
  · exact ⟨⟨h.dead, h.sent⟩, h.copies rest List.mem_cons_self⟩
  · exact ⟨⟨h.dead, h.sent⟩, h.copies, List.pairwise_of_forall fun _ _ => trivial⟩
  · exact ⟨h.dead, h.sent⟩

theorem gone_begins {Allowed : Pool State Call Outcome → Move Request Input → Prop} {sent : ℕ} :
    Outline.Begins (engine lte) (gone name sent) Allowed := by
  intro pool request _ _
  cases request <;> exact ⟨rfl, fun _ _ => trivial⟩

theorem gone_segments {Allowed : Pool State Call Outcome → Move Request Input → Prop} {sent : ℕ} :
    Outline.Segments (engine lte) (gone name sent) Allowed := by
  intro pool i i' call h _ hcall
  have hgone : StaysGone name sent (segment lte pool.shared call i') :=
    segment_gone h.inv.1 h.inv.2 (h.each call (List.mem_of_getElem? hcall))
  refine ⟨hgone.keeps, fun other hother => .of ?_ fun _ _ => trivial⟩
  exact h.each other (List.mem_of_mem_eraseIdx hother)

theorem deleteWrite_of_deleted {s' : State} {call : Call} {input : Input}
    (h : segment lte s call input = (s', .finished (.deleted name))) :
    deletes call = some name ∧ Dead name s' := by
  have hprogress := congrArg Prod.snd h
  cases call with
  | deleteWrite other expiry =>
    injection hprogress with houtcome
    injection houtcome with hname
    subst hname
    have hstate : s.updateTask other _ = s' := congrArg Prod.fst h
    exact ⟨rfl, hstate ▸ dead_updateTask_self fun _ => rfl⟩
  | tick | runTask | deleteTask =>
    simp only [segment] at hprogress
    repeat' split at hprogress
    all_goals cases hprogress
  | wait promises =>
    simp only [segment, waitSegment] at hprogress
    repeat' split at hprogress
    all_goals cases hprogress
  | dispatch d =>
    simp only [segment, dispatchSegment] at hprogress
    repeat' split at hprogress
    all_goals cases hprogress
  | runDispatch | deleteMark =>
    simp only [segment] at hprogress
    split at hprogress <;> cases hprogress
  | visit | start | cleaned | runQueue | deleteQueue => cases hprogress

/-- A task is gone when its delete returns. -/
theorem gone_of_deleted {pool pool' : Pool State Call Outcome} {m : Move Request Input}
    (hstep : (engine lte).Step NoCopies pool m pool') (hdeleted : .deleted name ∈ pool'.outcomes)
    (hnew : .deleted name ∉ pool.outcomes) :
    (gone name (pool'.shared.requests.count name)).Holds pool' := by
  obtain ⟨hallowed, hmove⟩ := hstep
  obtain hold | ⟨index, input, call, shared, rfl, hcall, hsegment, rfl⟩ :=
    Async.outcome_of_move hmove hdeleted
  · exact absurd hold hnew
  · obtain ⟨hdeletes, hdead⟩ := deleteWrite_of_deleted hsegment
    exact ⟨⟨hdead, rfl⟩, hallowed call hcall name hdeletes, List.pairwise_of_forall fun _ _ => trivial⟩

/-- A task is gone once its delete has returned. -/
def DeletesLast (name : JsString) (pool : Pool State Call Outcome) : Prop :=
  .deleted name ∈ pool.outcomes → (gone name (pool.shared.requests.count name)).Holds pool

theorem deletesLast_of_run {state : State} {moves : List (Move Request Input)}
    {pool : Pool State Call Outcome}
    (hrun : Run ((engine lte).Step NoCopies) ⟨state, [], []⟩ moves pool) :
    DeletesLast name pool := by
  have hkeeps : ∀ pool m pool', True → (engine lte).Step NoCopies pool m pool' →
      DeletesLast name pool → DeletesLast name pool' := by
    intro pool m pool' _ hstep h hdeleted
    by_cases hbefore : .deleted name ∈ pool.outcomes
    · have hgone := (h hbefore).of_step gone_begins gone_segments hstep
      rw [hgone.inv.2]
      exact hgone
    · exact gone_of_deleted hstep hdeleted hbefore
  exact hrun.invariant hkeeps (fun _ _ => trivial) (fun hstart => absurd hstart List.not_mem_nil)

/-- **Deleted tasks stay deleted.** In a run in which every delete writes its tombstone while no call
has a copy of the task, a task whose delete has returned is never pending again, and no further
request is sent for it. -/
theorem deleted_stays_deleted (lte : JsString → JsString → Bool) (state : State) (name : JsString)
    (moves moves' : List (Move Request Input)) (pool pool' : Pool State Call Outcome)
    (hrun : Run ((engine lte).Step NoCopies) ⟨state, [], []⟩ moves pool)
    (hdeleted : .deleted name ∈ pool.outcomes)
    (hrun' : Run ((engine lte).Step NoCopies) pool moves' pool') :
    (∀ task ∈ pool'.shared.tasks, task.name = name → task.status ≠ .pending) ∧
      pool'.shared.requests.count name = pool.shared.requests.count name := by
  obtain ⟨hdead, hsent⟩ := ((deletesLast_of_run hrun hdeleted).of_run gone_begins gone_segments hrun').inv
  refine ⟨fun task htask hname hpending => ?_, hsent⟩
  exact absurd ((hdead task htask hname).symm.trans hpending) (by decide)

/-! ## Sample runs -/

def sampleQueue : Queue where
  name := "q"
  running := true
  rateLimits := ⟨500, 100, 1000⟩
  retryConfig := ⟨100, "0.100s", "3600s", 16⟩
  tombstoneTtl := "3600s"

def sampleTask : Task where
  name := "q/t"
  queueName := "q"
  httpRequest := some "\x7b\x7d"
  scheduleTime := "2024-01-01T00:00:00.000Z"
  dispatchCount := 0
  responseCount := 0
  firstAttempt := none
  lastAttempt := none
  status := .pending
  tombstoneExpiry := none

def sampleState : State where
  tasks := [sampleTask]
  queues := [sampleQueue]
  buckets _ := none
  running := false
  tombstoneCleanupCounter := 0
  promises := []
  requests := []

/-- A segment in June 2024, whose request fails. -/
def resumeJune (index : ℕ) : Move Request Input :=
  .resume index ⟨1717200000000, ⟨false, 500, "Internal Server Error"⟩⟩

/-- The task is deleted before a tick. -/
def deleteFirst : List (Move Request Input) :=
  .start (.deleteTask "q/t") :: List.replicate 4 (resumeJune 0)

/-- A tick that finds what there is to dispatch. -/
def tickAfterwards : List (Move Request Input) :=
  .start .tick :: List.replicate 4 (resumeJune 0)

/-- A tick sends the request; the task is deleted; then the request fails. -/
def deleteInFlight : List (Move Request Input) :=
  .start .tick :: List.replicate 3 (resumeJune 0) ++ List.replicate 2 (resumeJune 1) ++
    .start (.deleteTask "q/t") :: List.replicate 4 (resumeJune 2)

def requestFails : List (Move Request Input) := List.replicate 2 (resumeJune 1)

def idle : Pool State Call Outcome := ⟨sampleState, [], []⟩

theorem deleted_stays_deleted_tick : ∃ pool pool',
    Run ((engine textLe).Step NoCopies) idle deleteFirst pool ∧
      Run ((engine textLe).Step NoCopies) pool tickAfterwards pool' ∧
      (∀ task ∈ pool'.shared.tasks, task.name = "q/t" → task.status ≠ .pending) ∧
      pool'.shared.requests.count (js "q/t") = pool.shared.requests.count (js "q/t") := by
  obtain ⟨pool, hrun, htest⟩ : ∃ pool,
      Run ((engine textLe).Step NoCopies) idle deleteFirst pool ∧
        (decide (.deleted "q/t" ∈ pool.outcomes) &&
          ((engine textLe).play NoCopies pool tickAfterwards).isSome) = true :=
    Async.exists_run (by decide +kernel)
  obtain ⟨hdeleted, hplay⟩ := Bool.and_eq_true_iff.1 htest
  obtain ⟨pool', hplay⟩ := Option.isSome_iff_exists.1 hplay
  exact ⟨pool, pool', hrun, Async.run_of_play hplay,
    deleted_stays_deleted textLe sampleState "q/t" deleteFirst tickAfterwards pool pool' hrun
      (of_decide_eq_true hdeleted) (Async.run_of_play hplay)⟩

/-- A delete is overwritten by the dispatch that was in flight. -/
theorem not_deleted_stays_deleted : ¬ ∀ (moves moves' : List (Move Request Input))
    (pool pool' : Pool State Call Outcome),
    Run ((engine textLe).Step fun _ _ => True) idle moves pool → .deleted "q/t" ∈ pool.outcomes →
    Run ((engine textLe).Step fun _ _ => True) pool moves' pool' →
    ∀ task ∈ pool'.shared.tasks, task.name = "q/t" → task.status ≠ .pending := by
  intro hclaim
  obtain ⟨pool, hrun, htest⟩ : ∃ pool,
      Run ((engine textLe).Step fun _ _ => True) idle deleteInFlight pool ∧
        (decide (.deleted "q/t" ∈ pool.outcomes) &&
          ((engine textLe).play (fun _ _ => True) pool requestFails).any fun pool' =>
            pool'.shared.tasks.any fun task =>
              decide (task.name = "q/t") && decide (task.status = .pending)) = true :=
    Async.exists_run (by decide +kernel)
  obtain ⟨hdeleted, hplay⟩ := Bool.and_eq_true_iff.1 htest
  obtain ⟨pool', hrun', hpending⟩ := Async.exists_run hplay
  obtain ⟨task, htask, hstatus⟩ := List.any_eq_true.1 hpending
  obtain ⟨hname, hstatus⟩ := Bool.and_eq_true_iff.1 hstatus
  exact hclaim _ _ pool pool' hrun (of_decide_eq_true hdeleted) hrun' task htask
    (of_decide_eq_true hname) (of_decide_eq_true hstatus)

end Kinglet.Tasks
