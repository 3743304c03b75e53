import Kinglet.Workflows.RevisionService
import Mathlib.Data.List.Nodup

/-!
# The revisions of a workflow

The workflows and their revisions are a ledger: the versions a workflow has had are its changes, and
its revisions their records. The calls keep the ledger as long as an update writes the version after
those there have been, a snapshot is inserted when those before it have been, and nothing comes
between the two halves of a delete.
-/

namespace Kinglet.Workflows

open Js Library Storage

/-! ## Ordinals -/

/-- The ordinal in a revision id. -/
def revisionOrdinal (revisionId : JsString) : ℕ :=
  digitsValue (revisionId.takeWhile (· ≠ unit '-'))

theorem digitsValue_padStart (width : ℕ) (text : JsString) :
    digitsValue (padStart width text) = digitsValue text := by
  unfold digitsValue padStart
  rw [List.foldl_append]
  congr 1
  generalize width - text.length = n
  induction n with
  | zero => rfl
  | succ n ih => rw [List.replicate_succ, List.foldl_cons]; exact ih

theorem dash_notMem_padStart {width n : ℕ} : unit '-' ∉ padStart width (decimal n) := by
  intro hmem
  rcases List.mem_append.1 hmem with hzero | hdigit
  · exact absurd (List.eq_of_mem_replicate hzero) (by decide)
  · exact absurd (isDigit_of_mem_decimal hdigit) (by decide)

@[simp] theorem revisionOrdinal_generateRevisionId (ordinal : ℕ) (random : JsString) :
    revisionOrdinal (generateRevisionId ordinal random) = ordinal := by
  have hdigits : ∀ u ∈ padStart 6 (decimal ordinal), (u ≠ unit '-' : Bool) = true := by
    intro u hu
    have hne : u ≠ unit '-' := fun heq => dash_notMem_padStart (heq ▸ hu)
    simpa using hne
  rw [revisionOrdinal, generateRevisionId, List.takeWhile_append_of_pos hdigits, List.takeWhile_cons_of_neg
    (by simp), List.append_nil, digitsValue_padStart, digitsValue_decimal]

/-! ## What the history of a workflow is -/

/-- The revisions of a workflow: their ordinals are `1` to `n`, the last is the current one, and each
is found by its id. -/
structure History (store : WorkflowStore) (workflow : WorkflowRecord) (n : ℕ) : Prop where
  ordinals : (store.revisionsOf workflow.name).map (fun revision => revisionOrdinal revision.revisionId) =
    List.range' 1 n
  current : ∃ revision, (store.revisionsOf workflow.name).getLast? = some revision ∧
    revision.revisionId = workflow.revisionId ∧ revisionOrdinal workflow.revisionId = n ∧
    revision.fields.sourceContents = workflow.fields.sourceContents ∧
    revision.fields.serviceAccount = workflow.fields.serviceAccount
  found : ∀ revision ∈ store.revisionsOf workflow.name,
    store.getWorkflowRevision workflow.name revision.revisionId = some revision

def HistoryKept (store : WorkflowStore) : Prop :=
  ∀ name, match store.getWorkflowByName name with
    | none => store.revisionsOf name = []
    | some workflow => ∃ n, History store workflow n

/-! ## Orderly calls -/

/-- A call that is to insert the snapshot of a workflow, or to delete it. -/
def WorkflowCall.records (id : ℕ) : WorkflowCall → Bool
  | .insertRevision record _ => record.id = id
  | _ => false

def WorkflowCall.removes (id : ℕ) : WorkflowCall → Bool
  | .deleteById _ id' => id' = id
  | _ => false

/-- When the next step of a call beside others is in order. -/
def Orderly (provider : Provider) (store : WorkflowStore) (others : List WorkflowCall) :
    WorkflowCall → Bool
  | .insertWorkflow name _ _ _ => provider = .sqlite || (store.getWorkflowByName name).isNone
  | .insertRevision record _ => record.versions.length = store.countRevisions record.name + 1
  | .updateById _ id (.revision _ ordinal _ _) =>
      match store.findById id with
      | none => true
      | some existing =>
          ordinal = existing.versions.length + 1 && !others.any (WorkflowCall.removes id)
  | .deleteRevisions name id =>
      match store.findById id with
      | none => store.revisionsOf name = []
      | some _ => !others.any (WorkflowCall.records id)
  | _ => true

def KeepsHistory (provider : Provider) (pool : Pool WorkflowStore WorkflowCall WorkflowOutcome) :
    Move WorkflowRequest WorkflowInput → Prop
  | .start _ => True
  | .resume index _ => ∀ call ∈ pool.calls[index]?,
      Orderly provider pool.shared (pool.calls.eraseIdx index) call = true

/-! ## The ledger -/

def ledgerRow (workflow : WorkflowRecord) : LedgerRow JsString Version :=
  ⟨workflow.id, workflow.name, workflow.versions⟩

def WorkflowStore.ledger (store : WorkflowStore) : Ledger JsString Version where
  rows := store.workflows.map ledgerRow
  records name := (store.revisionsOf name).map (·.version)
  nextId := store.nextId

def WorkflowCall.role : WorkflowCall → LedgerRole JsString Version
  | .insertRevision record _ =>
      .recording record.id record.name (record.versions.length - 1) record.version
  | .updateById name id _ | .deleteRevisions name id => .found id name
  | .deleteById _ id => .clearing id
  | _ => .idle

section ledger

variable {store : WorkflowStore} {workflow : WorkflowRecord} {name : JsString} {id : ℕ}

theorem mem_of_getWorkflowByName (h : store.getWorkflowByName name = some workflow) :
    ledgerRow workflow ∈ store.ledger.rows ∧ workflow.name = name :=
  ⟨List.mem_map_of_mem (List.mem_of_find?_eq_some h), by simpa using List.find?_some h⟩

theorem mem_of_findById (h : store.findById id = some workflow) :
    workflow ∈ store.workflows ∧ workflow.id = id :=
  ⟨List.mem_of_find?_eq_some h, by simpa using List.find?_some h⟩

theorem free_of_getWorkflowByName (h : store.getWorkflowByName name = none) :
    ∀ row ∈ store.ledger.rows, row.name ≠ name := by
  intro row hrow
  obtain ⟨workflow, hworkflow, rfl⟩ := List.mem_map.1 hrow
  simpa [ledgerRow] using List.find?_eq_none.1 h workflow hworkflow

theorem absent_of_findById (h : store.findById id = none) :
    ∀ row ∈ store.ledger.rows, row.id ≠ id := by
  intro row hrow
  obtain ⟨workflow, hworkflow, rfl⟩ := List.mem_map.1 hrow
  simpa [ledgerRow] using List.find?_eq_none.1 h workflow hworkflow

theorem eq_of_id (h : store.ledger.Inv) {other : WorkflowRecord} (hworkflow : workflow ∈ store.workflows)
    (hother : other ∈ store.workflows) (hid : workflow.id = other.id) : workflow = other := by
  have hpairs : store.workflows.Pairwise fun a b => a.id ≠ b.id := by
    have := h.ids
    rwa [WorkflowStore.ledger, List.pairwise_map] at this
  by_contra hne
  have : Std.Symm fun a b : WorkflowRecord => a.id ≠ b.id := ⟨fun _ _ h => h.symm⟩
  exact hpairs.forall hworkflow hother hne hid

theorem ledger_insertWorkflow (name revisionId now : JsString) (fields : WorkflowFields) :
    (store.insertWorkflow (store.newWorkflow name revisionId now fields)).ledger =
      store.ledger.insert name ⟨revisionId, fields.serviceAccount, fields.sourceContents⟩ := by
  simp [WorkflowStore.ledger, WorkflowStore.insertWorkflow, Ledger.insert, ledgerRow,
    WorkflowStore.newWorkflow, WorkflowStore.revisionsOf]

theorem ledger_createRevision (record : WorkflowRecord) :
    (store.createRevision (buildRevisionSnapshot record)).ledger =
      store.ledger.record record.name record.version := by
  have hrecords : (fun name =>
      ((store.createRevision (buildRevisionSnapshot record)).revisionsOf name).map (·.version)) =
        Function.update store.ledger.records record.name
          (store.ledger.records record.name ++ [record.version]) := by
    funext name
    change ((store.revisions ++ [buildRevisionSnapshot record]).filter _).map _ = _
    rw [List.filter_append, List.map_append]
    rcases eq_or_ne name record.name with rfl | hne
    · rw [Function.update_self]
      simp [buildRevisionSnapshot, WorkflowStore.ledger, WorkflowStore.revisionsOf,
        WorkflowRevisionRecord.version, WorkflowRecord.version]
    · rw [Function.update_of_ne hne]
      simp [buildRevisionSnapshot, WorkflowStore.ledger, WorkflowStore.revisionsOf, hne.symm]
  exact congrArg (fun records => (⟨store.ledger.rows, records, store.nextId⟩ : Ledger _ _)) hrecords

theorem ledger_deleteRevisions : (store.deleteRevisions name).ledger = store.ledger.clear name := by
  have hrecords : (fun other => ((store.deleteRevisions name).revisionsOf other).map (·.version)) =
      Function.update store.ledger.records name [] := by
    funext other
    change ((store.revisions.filter _).filter _).map _ = _
    rw [List.filter_filter]
    rcases eq_or_ne other name with rfl | hne
    · rw [Function.update_self, List.map_eq_nil_iff, List.filter_eq_nil_iff]
      simp
    · rw [Function.update_of_ne hne]
      have hsame : (fun revision : WorkflowRevisionRecord =>
          decide (revision.workflowName = other) && decide (revision.workflowName ≠ name)) =
            fun revision => decide (revision.workflowName = other) := by
        funext revision
        by_cases h : revision.workflowName = other <;> simp [h, hne]
      rw [hsame]
      rfl
  exact congrArg (fun records => (⟨store.ledger.rows, records, store.nextId⟩ : Ledger _ _)) hrecords

theorem ledger_deleteById : (store.deleteById id).ledger = store.ledger.remove id := by
  simp only [WorkflowStore.ledger, WorkflowStore.deleteById, Ledger.remove, List.filter_map]
  rfl

@[simp] theorem apply_id (update : PlannedUpdate) (workflow : WorkflowRecord) :
    (update.apply workflow).id = workflow.id := by
  cases update <;> rfl

theorem ledger_replaceWorkflow (hworkflow : store.findById id = some workflow)
    {record : WorkflowRecord} (hid : record.id = workflow.id) :
    (store.replaceWorkflow record).ledger =
      { store.ledger with
        rows := store.workflows.map fun other =>
          if other.id = id then ledgerRow record else ledgerRow other } := by
  obtain ⟨-, rfl⟩ := mem_of_findById hworkflow
  have hrows : (store.replaceWorkflow record).workflows.map ledgerRow =
      store.workflows.map fun other =>
        if other.id = workflow.id then ledgerRow record else ledgerRow other := by
    rw [WorkflowStore.replaceWorkflow, List.map_map, hid]
    refine List.map_congr_left fun other _ => ?_
    rw [Function.comp_apply]
    split <;> rfl
  exact congrArg (fun rows => (⟨rows, store.ledger.records, store.nextId⟩ : Ledger _ _)) hrows

theorem ledger_plain (h : store.ledger.Inv) (hworkflow : store.findById id = some workflow)
    (request : UpdateWorkflowRequest) (hplain : request.needsNewRevision = false) :
    (store.replaceWorkflow ((PlannedUpdate.plain request hplain).apply workflow)).ledger =
      store.ledger := by
  rw [ledger_replaceWorkflow hworkflow (apply_id _ _)]
  have hrows : (store.workflows.map fun other =>
      if other.id = id then ledgerRow ((PlannedUpdate.plain request hplain).apply workflow)
      else ledgerRow other) = store.workflows.map ledgerRow := by
    refine List.map_congr_left fun other hother => ?_
    obtain ⟨hmem, rfl⟩ := mem_of_findById hworkflow
    split
    · next hid =>
        obtain rfl := eq_of_id h hother hmem hid
        rfl
    · rfl
  rw [hrows]
  rfl

theorem ledger_revision (h : store.ledger.Inv) (hworkflow : store.findById id = some workflow)
    (request : UpdateWorkflowRequest) (ordinal : ℕ) (random now : JsString) :
    (store.replaceWorkflow ((PlannedUpdate.revision request ordinal random now).apply workflow)).ledger =
      store.ledger.change id
        ((PlannedUpdate.revision request ordinal random now).apply workflow).version := by
  rw [ledger_replaceWorkflow hworkflow (apply_id _ _)]
  have hrows : (store.workflows.map fun other =>
      if other.id = id then ledgerRow ((PlannedUpdate.revision request ordinal random now).apply workflow)
      else ledgerRow other) = (store.workflows.map ledgerRow).map (Ledger.changeRow id
        ((PlannedUpdate.revision request ordinal random now).apply workflow).version) := by
    rw [List.map_map]
    refine List.map_congr_left fun other hother => ?_
    obtain ⟨hmem, rfl⟩ := mem_of_findById hworkflow
    rw [Function.comp_apply, Ledger.changeRow]
    by_cases hid : other.id = workflow.id
    · obtain rfl := eq_of_id h hother hmem hid
      rw [if_pos rfl]
      exact (if_pos rfl).symm
    · rw [if_neg hid]
      exact (if_neg hid).symm
  rw [hrows]
  rfl

end ledger

/-! ## The calls keep the ledger -/

section keeps

variable {provider : Provider} {store : WorkflowStore} {others : List WorkflowCall}

theorem role_recording {call : WorkflowCall} {id index : ℕ} {name : JsString} {version : Version}
    (h : call.role = .recording id name index version) : call.records id = true := by
  cases call <;> simp_all [WorkflowCall.role, WorkflowCall.records]

theorem role_clearing {call : WorkflowCall} {id : ℕ} (h : call.role = .clearing id) :
    call.removes id = true := by
  cases call <;> simp_all [WorkflowCall.role, WorkflowCall.removes]

/-- An orderly segment is a step of the ledger. -/
theorem step_of_orderly {call : WorkflowCall} {input : WorkflowInput} (hinv : store.ledger.Inv)
    (hlocal : Ledger.Local store.ledger call.role)
    (horderly : Orderly provider store others call = true) :
    Ledger.Step store.ledger (others.map WorkflowCall.role) call.role
      (workflowSegment provider store call input).1.ledger
      (Ledger.roleAfter WorkflowCall.role (workflowSegment provider store call input).2) := by
  cases call with
  | request request =>
    cases request with
    | create project location workflowId body =>
      cases body with
      | error message => exact .stay _
      | ok body =>
        dsimp only [workflowSegment]
        split
        · exact .stay _
        · split <;> exact .stay _
    | update name body =>
      cases body with
      | error message => exact .stay _
      | ok request =>
        dsimp only [workflowSegment]
        split
        · exact .stay _
        · split <;> exact .stay _
    | delete name =>
      dsimp only [workflowSegment]
      split <;> exact .stay _
  | checkName name random now fields =>
    dsimp only [workflowSegment]
    split <;> exact .stay _
  | insertWorkflow name random now fields =>
    dsimp only [workflowSegment]
    split
    · exact .stay _
    · next hfree =>
        have hnone : store.getWorkflowByName name = none := by
          by_contra hsome
          obtain ⟨workflow, hworkflow⟩ := Option.ne_none_iff_exists'.1 hsome
          simp only [Orderly, hworkflow, Option.isNone_some, Bool.or_false, decide_eq_true_eq] at horderly
          exact hfree ⟨horderly, by rw [hworkflow]; rfl⟩
        rw [ledger_insertWorkflow]
        exact .insert _ (free_of_getWorkflowByName hnone)
  | insertRevision record verb =>
    obtain ⟨row, hrow, hid, hname, -⟩ := hlocal
    have hcount : record.versions.length - 1 = (store.ledger.records row.name).length := by
      have hlength : record.versions.length = store.countRevisions record.name + 1 :=
        of_decide_eq_true horderly
      rw [hname, hlength, Nat.add_sub_cancel]
      exact (List.length_map _).symm
    have hstep : Ledger.Step store.ledger (others.map WorkflowCall.role) _ _ _ :=
      .record record.version hrow hcount
    rw [hid, hname] at hstep
    dsimp only [workflowSegment]
    rw [ledger_createRevision]
    exact hstep
  | countRevisions name request => exact .stay _
  | findForUpdate name update =>
    dsimp only [workflowSegment]
    split
    · exact .stay _
    · next existing hexisting =>
        obtain ⟨hrow, rfl⟩ := mem_of_getWorkflowByName hexisting
        exact .find hrow
  | updateById name id update =>
    dsimp only [workflowSegment]
    split
    · exact .forget id name
    · next existing hexisting =>
        obtain ⟨hmem, rfl⟩ := mem_of_findById hexisting
        cases update with
        | plain request hplain =>
          dsimp only
          rw [ledger_plain hinv hexisting]
          exact .forget _ name
        | revision request ordinal random now =>
          simp only [Orderly, hexisting, Bool.and_eq_true, decide_eq_true_eq,
            Bool.not_eq_true'] at horderly
          dsimp only
          rw [ledger_revision hinv hexisting]
          have hrow : ledgerRow existing ∈ store.ledger.rows := List.mem_map_of_mem hmem
          have hopen : .clearing existing.id ∉ others.map WorkflowCall.role := ?_
          · have hstep : Ledger.Step store.ledger (others.map WorkflowCall.role)
                (.found existing.id name) _ _ :=
              .change ((PlannedUpdate.revision request ordinal random now).apply existing).version
                hrow hopen
            simpa [Ledger.roleAfter, WorkflowCall.role, PlannedUpdate.apply, ledgerRow,
              WorkflowRecord.version] using hstep
          intro hclearing
          obtain ⟨other, hother, hrole⟩ := List.mem_map.1 hclearing
          exact List.any_eq_false.1 horderly.2 other hother (role_clearing hrole)
  | findForDelete name =>
    dsimp only [workflowSegment]
    split
    · exact .stay _
    · next existing hexisting =>
        obtain ⟨hrow, rfl⟩ := mem_of_getWorkflowByName hexisting
        exact .find hrow
  | deleteRevisions name id =>
    dsimp only [workflowSegment]
    rw [ledger_deleteRevisions]
    refine .clear (fun row hrow hid index version hrecording => ?_) fun hgone => ?_
    · obtain ⟨other, hother, hrole⟩ := List.mem_map.1 hrecording
      cases hfound : store.findById id with
      | none => exact absent_of_findById hfound row hrow hid
      | some existing =>
        simp only [Orderly, hfound, Bool.not_eq_true'] at horderly
        exact List.any_eq_false.1 horderly other hother (role_recording hrole)
    · cases hfound : store.findById id with
      | some existing =>
        obtain ⟨hmem, hid⟩ := mem_of_findById hfound
        exact absurd hid (hgone _ (List.mem_map_of_mem hmem))
      | none =>
        simp only [Orderly, hfound, decide_eq_true_eq] at horderly
        change (store.revisionsOf name).map _ = []
        rw [horderly]
        rfl
  | deleteById name id =>
    dsimp only [workflowSegment]
    split
    · next habsent =>
        have hsame : store.ledger.remove id = store.ledger := by
          rw [Ledger.remove, List.filter_eq_self.2]
          exact fun row hrow => by simpa using absent_of_findById habsent row hrow
        have hstep : Ledger.Step store.ledger (others.map WorkflowCall.role) _ _ _ := .remove id
        rw [hsame] at hstep
        exact hstep
    · rw [ledger_deleteById]
      exact .remove id
  | createOperation name verb =>
    dsimp only [workflowSegment]
    split <;> exact .stay _

theorem not_forked (provider : Provider) (store : WorkflowStore) (call : WorkflowCall)
    (input : WorkflowInput) (rest : WorkflowCall) (started : List WorkflowCall) :
    (workflowSegment provider store call input).2 ≠ .forked rest started := by
  intro hforked
  cases call
  case request request =>
    rcases request with ⟨project, location, workflowId, message | body⟩ | ⟨name, message | request⟩ |
      name
    all_goals
      dsimp only [workflowSegment] at hforked
      repeat' split at hforked
      all_goals cases hforked
  all_goals
    dsimp only [workflowSegment] at hforked
    repeat' split at hforked
    all_goals cases hforked

theorem keeps (provider : Provider) : Ledger.Keeps (workflowService provider) WorkflowStore.ledger
    WorkflowCall.role (KeepsHistory provider) where
  begins _ := rfl
  steps _ _ _ call hinv hlocal hallowed hcall :=
    step_of_orderly hinv hlocal (hallowed call hcall)
  alone := not_forked provider

/-- The versions of a workflow are numbered, and the last is the current one. -/
def Numbered (store : WorkflowStore) : Prop :=
  ∀ workflow ∈ store.workflows,
    workflow.versions.map (fun version => revisionOrdinal version.revisionId) =
      List.range' 1 workflow.versions.length ∧
    workflow.versions.getLast? = some workflow.version

theorem PlannedUpdate.numbered {workflow : WorkflowRecord} (update : PlannedUpdate)
    (hordinal : ∀ request ordinal random now, update = .revision request ordinal random now →
      ordinal = workflow.versions.length + 1)
    (h : workflow.versions.map (fun version => revisionOrdinal version.revisionId) =
        List.range' 1 workflow.versions.length ∧
      workflow.versions.getLast? = some workflow.version) :
    (update.apply workflow).versions.map (fun version => revisionOrdinal version.revisionId) =
        List.range' 1 (update.apply workflow).versions.length ∧
      (update.apply workflow).versions.getLast? = some (update.apply workflow).version := by
  cases update with
  | plain request hplain =>
    simp only [UpdateWorkflowRequest.needsNewRevision, Bool.or_eq_false_iff,
      Option.isSome_eq_false_iff, Option.isNone_iff_eq_none] at hplain
    refine ⟨h.1, h.2.trans ?_⟩
    simp [PlannedUpdate.apply, WorkflowRecord.version, UpdateWorkflowRequest.apply, hplain]
  | revision request ordinal random now =>
    obtain rfl := hordinal request ordinal random now rfl
    refine ⟨?_, by simp [PlannedUpdate.apply, WorkflowRecord.version]⟩
    simp [PlannedUpdate.apply, h.1, List.range'_concat, Nat.add_comm]

theorem Numbered.segment {call : WorkflowCall} {input : WorkflowInput} (h : Numbered store)
    (horderly : Orderly provider store others call = true) :
    Numbered (workflowSegment provider store call input).1 := by
  cases call with
  | insertWorkflow name random now fields =>
    dsimp only [workflowSegment]
    split
    · exact h
    · intro workflow hworkflow
      rcases List.mem_append.1 hworkflow with hworkflow | hworkflow
      · exact h workflow hworkflow
      · obtain rfl := List.mem_singleton.1 hworkflow
        exact ⟨by simp [WorkflowStore.newWorkflow], rfl⟩
  | updateById name id update =>
    dsimp only [workflowSegment]
    split
    · exact h
    · next existing hexisting =>
        intro workflow hworkflow
        obtain ⟨before, hbefore, rfl⟩ := List.mem_map.1 hworkflow
        obtain ⟨hmem, -⟩ := mem_of_findById hexisting
        split
        · refine update.numbered ?_ (h existing hmem)
          rintro request ordinal random now rfl
          simp only [Orderly, hexisting, Bool.and_eq_true, decide_eq_true_eq] at horderly
          exact horderly.1
        · exact h before hbefore
  | deleteById name id =>
    dsimp only [workflowSegment]
    split
    · exact h
    · exact fun workflow hworkflow => h workflow (List.mem_filter.1 hworkflow).1
  | insertRevision | deleteRevisions | countRevisions => exact h
  | request request =>
    rcases request with ⟨project, location, workflowId, message | body⟩ | ⟨name, message | request⟩ |
      name
    all_goals
      dsimp only [workflowSegment]
      repeat' split
      all_goals exact h
  | checkName | findForUpdate | findForDelete =>
    dsimp only [workflowSegment]
    split <;> exact h
  | createOperation =>
    dsimp only [workflowSegment]
    split <;> exact h

end keeps

/-! ## Every run -/

def emptyPool : Pool WorkflowStore WorkflowCall WorkflowOutcome := ⟨.start, [], []⟩

variable {provider : Provider} {moves : List (Move WorkflowRequest WorkflowInput)}
  {pool : Pool WorkflowStore WorkflowCall WorkflowOutcome}

theorem numbered_of_run (h : Run ((workflowService provider).Step (KeepsHistory provider)) emptyPool
    moves pool) : Numbered pool.shared := by
  have hstep : ∀ before move after, True → (workflowService provider).Step (KeepsHistory provider)
      before move after → Numbered before.shared → Numbered after.shared := by
    rintro before move after - ⟨hallowed, hmove⟩ hnumbered
    cases move with
    | start request =>
      obtain rfl := Option.some.inj hmove
      exact hnumbered
    | resume index input =>
      obtain ⟨call, hcall, rfl⟩ := Option.map_eq_some_iff.1 hmove
      rw [Async.advance_shared]
      exact hnumbered.segment (hallowed call hcall)
  exact @Run.invariant _ _ _ _ _ _ (fun pool => Numbered pool.shared) (fun _ => True) hstep h
    (fun _ _ => trivial) fun workflow hworkflow => nomatch hworkflow

/-- The revisions of a workflow whose versions have all been recorded. -/
theorem history_of_records {store : WorkflowStore} {workflow : WorkflowRecord}
    (hrecords : (store.revisionsOf workflow.name).map (·.version) = workflow.versions)
    (hordinals : workflow.versions.map (fun version => revisionOrdinal version.revisionId) =
      List.range' 1 workflow.versions.length)
    (hlast : workflow.versions.getLast? = some workflow.version) :
    History store workflow workflow.versions.length := by
  have hmap : (store.revisionsOf workflow.name).map
      (fun revision => revisionOrdinal revision.revisionId) =
        List.range' 1 workflow.versions.length := by
    rw [← hordinals, ← hrecords, List.map_map]
    rfl
  refine ⟨hmap, ?_, fun revision hrevision => ?_⟩
  · rw [← hrecords, List.getLast?_map, Option.map_eq_some_iff] at hlast
    obtain ⟨revision, hrevision, hversion⟩ := hlast
    obtain ⟨hid, haccount, hsource⟩ := Version.mk.inj hversion
    refine ⟨revision, hrevision, hid, ?_, hsource, haccount⟩
    have hordinal := congrArg List.getLast? hmap
    rw [List.getLast?_map, hrevision, Option.map_some, hid, List.getLast?_range'] at hordinal
    split at hordinal
    · cases hordinal
    · have hvalue := Option.some.inj hordinal
      omega
  · -- The first revision of that id is this one, since no two have the same ordinal.
    cases hfound : store.getWorkflowRevision workflow.name revision.revisionId with
    | none =>
      have hnone := List.find?_eq_none.1 hfound revision (List.mem_filter.1 hrevision).1
      have hname : revision.workflowName = workflow.name := by
        simpa using (List.mem_filter.1 hrevision).2
      simp [hname] at hnone
    | some other =>
      have hother := List.find?_some hfound
      simp only [Bool.and_eq_true, decide_eq_true_eq] at hother
      have hmem : other ∈ store.revisionsOf workflow.name :=
        List.mem_filter.2 ⟨List.mem_of_find?_eq_some hfound, by simpa using hother.1⟩
      have hnodup : ((store.revisionsOf workflow.name).map
          fun revision => revisionOrdinal revision.revisionId).Nodup := by
        rw [hmap]
        exact List.nodup_range'
      rw [List.inj_on_of_nodup_map hnodup hmem hrevision (by rw [hother.2])]

instance (provider : Provider) (pool : Pool WorkflowStore WorkflowCall WorkflowOutcome) :
    (move : Move WorkflowRequest WorkflowInput) → Decidable (KeepsHistory provider pool move)
  | .start _ => .isTrue trivial
  | .resume index _ => inferInstanceAs (Decidable (∀ call ∈ pool.calls[index]?, _))

def sampleInput : WorkflowInput := ⟨"2026-01-01T00:00:00.000Z", "a4d"⟩

def sampleWorkflow : JsString := "projects/p/locations/l/workflows/w"

def sampleCreate : WorkflowRequest :=
  .create "p" "l" "w" (.ok ⟨"main", none, none, none, none, none, none, none, none⟩)

/-- An update of the source. -/
def sampleUpdate (source : JsString) : WorkflowRequest :=
  .update sampleWorkflow (.ok ⟨some source, none, none, none, none, none, none, none, none⟩)

/-- The segments of the calls at some indices. -/
def resumes (indices : List ℕ) : List (Move WorkflowRequest WorkflowInput) :=
  indices.map fun index => .resume index sampleInput

def createAlone : List (Move WorkflowRequest WorkflowInput) :=
  .start sampleCreate :: resumes [0, 0, 0, 0, 0]

def createThenUpdate : List (Move WorkflowRequest WorkflowInput) :=
  createAlone ++ .start (sampleUpdate "second") :: resumes [0, 0, 0, 0, 0, 0]

/-- Two updates count the revisions before either has inserted one. -/
def overlappingUpdates : List (Move WorkflowRequest WorkflowInput) :=
  createAlone ++ .start (sampleUpdate "second") :: .start (sampleUpdate "third") ::
    resumes [0, 1, 0, 1, 0, 0, 0, 0, 0, 0, 0, 0]

/-- A delete runs between the write of an update and its snapshot. -/
def deleteOvertakesUpdate : List (Move WorkflowRequest WorkflowInput) :=
  createAlone ++ .start (sampleUpdate "second") :: .start (.delete sampleWorkflow) ::
    resumes [0, 0, 0, 0, 1, 1, 1, 1, 1, 0, 0]

end Kinglet.Workflows
