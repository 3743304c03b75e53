import Kinglet.Js.Text
import Kinglet.Library.Ledger
import Kinglet.Storage.Repository

/-!
# Workflows and their revisions

`WorkflowService` and `WorkflowRepository`: creates, updates and deletes of workflows, which await the
storage at every read and write. An update that sets the source or the service account counts the
revisions, writes the workflow and then inserts the snapshot; a delete removes the revisions first.

With each workflow go the versions it has had, which the source does not keep.
-/

namespace Kinglet.Workflows

open Js Library Storage

/-! ## Records -/

/-- The columns that a workflow and a revision have in common. Labels, variables and tags are JSON
texts. -/
structure WorkflowFields where
  description : JsString
  state : JsString
  labels : JsString
  serviceAccount : JsString
  sourceContents : JsString
  cryptoKeyName : Option JsString
  stateError : Option JsString
  callLogLevel : JsString
  userEnvVars : Option JsString
  executionHistoryLevel : JsString
  tags : Option JsString
deriving DecidableEq

/-- What a revision has to keep of its workflow. -/
structure Version where
  revisionId : JsString
  serviceAccount : JsString
  sourceContents : JsString
deriving DecidableEq

structure WorkflowRecord where
  id : ℕ
  name : JsString
  revisionId : JsString
  revisionCreateTime : JsString
  fields : WorkflowFields
  versions : List Version
deriving DecidableEq

structure WorkflowRevisionRecord where
  workflowName : JsString
  revisionId : JsString
  revisionCreateTime : JsString
  fields : WorkflowFields
deriving DecidableEq

def WorkflowRecord.version (record : WorkflowRecord) : Version :=
  ⟨record.revisionId, record.fields.serviceAccount, record.fields.sourceContents⟩

def WorkflowRevisionRecord.version (revision : WorkflowRevisionRecord) : Version :=
  ⟨revision.revisionId, revision.fields.serviceAccount, revision.fields.sourceContents⟩

/-- `buildRevisionSnapshot(record, record.revisionId, record.revisionCreateTime)`. -/
def buildRevisionSnapshot (record : WorkflowRecord) : WorkflowRevisionRecord :=
  ⟨record.name, record.revisionId, record.revisionCreateTime, record.fields⟩

/-! ## Requests -/

structure CreateWorkflowRequest where
  sourceContents : JsString
  description : Option JsString
  labels : Option JsString
  serviceAccount : Option JsString
  cryptoKeyName : Option JsString
  callLogLevel : Option JsString
  userEnvVars : Option JsString
  executionHistoryLevel : Option JsString
  tags : Option JsString

structure UpdateWorkflowRequest where
  sourceContents : Option JsString
  description : Option JsString
  labels : Option JsString
  serviceAccount : Option JsString
  cryptoKeyName : Option JsString
  callLogLevel : Option JsString
  userEnvVars : Option JsString
  executionHistoryLevel : Option JsString
  tags : Option JsString

/-- `requestToWorkflowRecord(name, body, revisionId)`, without the name and the revision. -/
def CreateWorkflowRequest.fields (body : CreateWorkflowRequest) : WorkflowFields where
  description := body.description.getD []
  state := "ACTIVE"
  labels := body.labels.getD "\x7b\x7d"
  serviceAccount := body.serviceAccount.getD []
  sourceContents := body.sourceContents
  cryptoKeyName := body.cryptoKeyName
  stateError := none
  callLogLevel := body.callLogLevel.getD "CALL_LOG_LEVEL_UNSPECIFIED"
  userEnvVars := body.userEnvVars
  executionHistoryLevel := body.executionHistoryLevel.getD "EXECUTION_HISTORY_LEVEL_UNSPECIFIED"
  tags := body.tags

namespace UpdateWorkflowRequest

variable (request : UpdateWorkflowRequest)

def needsNewRevision : Bool := request.sourceContents.isSome || request.serviceAccount.isSome

/-- `{ ...fields, ...updates }`. -/
def apply (fields : WorkflowFields) : WorkflowFields :=
  { fields with
    sourceContents := request.sourceContents.getD fields.sourceContents
    serviceAccount := request.serviceAccount.getD fields.serviceAccount
    description := request.description.getD fields.description
    labels := request.labels.getD fields.labels
    cryptoKeyName := request.cryptoKeyName <|> fields.cryptoKeyName
    callLogLevel := request.callLogLevel.getD fields.callLogLevel
    userEnvVars := request.userEnvVars <|> fields.userEnvVars
    executionHistoryLevel := request.executionHistoryLevel.getD fields.executionHistoryLevel
    tags := request.tags <|> fields.tags }

end UpdateWorkflowRequest

/-- `${paddedOrdinal}-${randomHex}`, from the hexadecimal digits of a random number. -/
def generateRevisionId (ordinal : ℕ) (random : JsString) : JsString :=
  let randomHex := random.take 3
  padStart 6 (decimal ordinal) ++ unit '-' :: (randomHex ++ List.replicate (3 - randomHex.length) 48)

def buildWorkflowName (project location workflowId : JsString) : JsString :=
  js "projects/" ++ project ++ js "/locations/" ++ location ++ js "/workflows/" ++ workflowId

/-- `parseNameComponents(name)`, `none` when it throws. -/
def parseNameComponents (name : JsString) : Option (JsString × JsString) :=
  match splitUnit (unit '/') name with
  | projects :: project :: locations :: location :: _ :: _ =>
      if projects = "projects" ∧ project ≠ [] ∧ locations = "locations" ∧ location ≠ [] then
        some (project, location)
      else none
  | _ => none

/-! ## The store -/

structure WorkflowStore where
  workflows : List WorkflowRecord
  revisions : List WorkflowRevisionRecord
  /-- The targets and verbs of the operations. -/
  operations : List (JsString × JsString)
  nextId : ℕ

namespace WorkflowStore

def start : WorkflowStore := ⟨[], [], [], 0⟩

variable (store : WorkflowStore)

def getWorkflowByName (name : JsString) : Option WorkflowRecord :=
  store.workflows.find? fun workflow => workflow.name = name

def revisionsOf (name : JsString) : List WorkflowRevisionRecord :=
  store.revisions.filter fun revision => revision.workflowName = name

def countRevisions (name : JsString) : ℕ := (store.revisionsOf name).length

def getWorkflowRevision (name revisionId : JsString) : Option WorkflowRevisionRecord :=
  store.revisions.find? fun revision =>
    revision.workflowName = name && revision.revisionId = revisionId

/-- `storage.create(WORKFLOWS_TABLE, data)`: the record. -/
def newWorkflow (name revisionId now : JsString) (fields : WorkflowFields) : WorkflowRecord where
  id := store.nextId
  name := name
  revisionId := revisionId
  revisionCreateTime := now
  fields := fields
  versions := [⟨revisionId, fields.serviceAccount, fields.sourceContents⟩]

def insertWorkflow (record : WorkflowRecord) : WorkflowStore :=
  { store with workflows := store.workflows ++ [record], nextId := store.nextId + 1 }

def findById (id : ℕ) : Option WorkflowRecord :=
  store.workflows.find? fun workflow => workflow.id = id

/-- `storage.updateById(WORKFLOWS_TABLE, record.id, data)`. -/
def replaceWorkflow (record : WorkflowRecord) : WorkflowStore :=
  { store with
    workflows := store.workflows.map fun workflow =>
      if workflow.id = record.id then record else workflow }

def createRevision (revision : WorkflowRevisionRecord) : WorkflowStore :=
  { store with revisions := store.revisions ++ [revision] }

/-- `storage.deleteMany(WORKFLOW_REVISIONS_TABLE, workflowName = name)`. -/
def deleteRevisions (name : JsString) : WorkflowStore :=
  { store with revisions := store.revisions.filter fun revision => revision.workflowName ≠ name }

def deleteById (id : ℕ) : WorkflowStore :=
  { store with workflows := store.workflows.filter fun workflow => workflow.id ≠ id }

def createOperation (target verb : JsString) : WorkflowStore :=
  { store with operations := store.operations ++ [(target, verb)] }

end WorkflowStore

/-! ## Calls -/

/-- What an update is about to write: a new revision with its ordinal, its random digits and its time,
or none, when neither the source nor the service account is set. -/
inductive PlannedUpdate where
  | plain (request : UpdateWorkflowRequest) (h : request.needsNewRevision = false)
  | revision (request : UpdateWorkflowRequest) (ordinal : ℕ) (random now : JsString)

/-- The record after an update. -/
def PlannedUpdate.apply (record : WorkflowRecord) : PlannedUpdate → WorkflowRecord
  | .plain request _ => { record with fields := request.apply record.fields }
  | .revision request ordinal random now =>
      let fields := request.apply record.fields
      let revisionId := generateRevisionId ordinal random
      { record with
        revisionId := revisionId
        revisionCreateTime := now
        fields := fields
        versions := record.versions ++ [⟨revisionId, fields.serviceAccount, fields.sourceContents⟩] }

/-- A request, with the body as its schema reads it or the message of the schema. -/
inductive WorkflowRequest where
  | create (project location workflowId : JsString) (body : Except JsString CreateWorkflowRequest)
  | update (name : JsString) (body : Except JsString UpdateWorkflowRequest)
  | delete (name : JsString)

/-- A call in flight, by the storage operation it awaits next. -/
inductive WorkflowCall where
  | request (request : WorkflowRequest)
  | checkName (name random now : JsString) (fields : WorkflowFields)
  | insertWorkflow (name random now : JsString) (fields : WorkflowFields)
  | insertRevision (record : WorkflowRecord) (verb : JsString)
  | countRevisions (name : JsString) (request : UpdateWorkflowRequest)
  | findForUpdate (name : JsString) (update : PlannedUpdate)
  | updateById (name : JsString) (id : ℕ) (update : PlannedUpdate)
  | findForDelete (name : JsString)
  | deleteRevisions (name : JsString) (id : ℕ)
  | deleteById (name : JsString) (id : ℕ)
  | createOperation (name verb : JsString)

inductive WorkflowsErrorCode where
  | notFound
  | alreadyExists
  | invalidArgument
deriving DecidableEq

inductive WorkflowOutcome where
  | failed (code : WorkflowsErrorCode) (message : JsString)
  | threw (message : JsString)
  | operation (target verb : JsString)

/-- The clock and the random number of a segment. -/
structure WorkflowInput where
  now : JsString
  random : JsString

def workflowNotFound (name : JsString) : WorkflowOutcome :=
  .failed .notFound (js "Workflow " ++ name ++ js " not found")

/-- A call's next segment: the storage operation, and the code up to the next. -/
def workflowSegment (provider : Provider) (store : WorkflowStore) (call : WorkflowCall)
    (input : WorkflowInput) : WorkflowStore × Progress WorkflowCall WorkflowOutcome :=
  match call with
  | .request (.create project location workflowId body) =>
      match body with
      | .error message =>
          (store, .finished (.failed .invalidArgument (js "Invalid workflow request: " ++ message)))
      | .ok body =>
          if workflowId = [] then
            (store, .finished (.failed .invalidArgument "workflowId is required"))
          else
            let name := buildWorkflowName project location workflowId
            match store.getWorkflowByName name with
            | some _ =>
                (store, .finished (.failed .alreadyExists (js "Workflow " ++ name ++ js " already exists")))
            | none =>
                (store, .pending (.checkName name input.random input.now body.fields))
  | .checkName name random now fields =>
      match store.getWorkflowByName name with
      | some _ => (store, .finished (.threw (js "Workflow " ++ name ++ js " already exists")))
      | none => (store, .pending (.insertWorkflow name random now fields))
  | .insertWorkflow name random now fields =>
      if provider = .sqlite ∧ (store.getWorkflowByName name).isSome then
        (store, .finished (.threw "Record already exists"))
      else
        let record := store.newWorkflow name (generateRevisionId 1 random) now fields
        (store.insertWorkflow record, .pending (.insertRevision record "create"))
  | .insertRevision record verb =>
      (store.createRevision (buildRevisionSnapshot record), .pending (.createOperation record.name verb))
  | .request (.update name body) =>
      match body with
      | .error message =>
          (store, .finished (.failed .invalidArgument (js "Invalid update request: " ++ message)))
      | .ok request =>
          match store.getWorkflowByName name with
          | none => (store, .finished (workflowNotFound name))
          | some _ =>
              if h : request.needsNewRevision then (store, .pending (.countRevisions name request))
              else (store, .pending (.findForUpdate name (.plain request (Bool.eq_false_iff.2 h))))
  | .countRevisions name request =>
      (store, .pending (.findForUpdate name
        (.revision request (store.countRevisions name + 1) input.random input.now)))
  | .findForUpdate name update =>
      match store.getWorkflowByName name with
      | none => (store, .finished (workflowNotFound name))
      | some existing => (store, .pending (.updateById name existing.id update))
  | .updateById name id update =>
      match store.findById id with
      | none => (store, .finished (workflowNotFound name))
      | some existing =>
          let updated := update.apply existing
          (store.replaceWorkflow updated, .pending (
            match update with
            | .plain _ _ => .createOperation name "update"
            | .revision _ _ _ _ => .insertRevision updated "update"))
  | .request (.delete name) =>
      match store.getWorkflowByName name with
      | none => (store, .finished (workflowNotFound name))
      | some _ => (store, .pending (.findForDelete name))
  | .findForDelete name =>
      match store.getWorkflowByName name with
      | none => (store, .finished (workflowNotFound name))
      | some existing => (store, .pending (.deleteRevisions name existing.id))
  | .deleteRevisions name id => (store.deleteRevisions name, .pending (.deleteById name id))
  | .deleteById name id =>
      match store.findById id with
      | none => (store, .finished (workflowNotFound name))
      | some _ => (store.deleteById id, .pending (.createOperation name "delete"))
  | .createOperation name verb =>
      if verb ≠ "create" ∧ parseNameComponents name = none then
        (store, .finished (.threw (js "Cannot parse project/location from name: " ++ name)))
      else (store.createOperation name verb, .finished (.operation name verb))

/-- The calls of the service. -/
def workflowService (provider : Provider) :
    Async WorkflowStore WorkflowRequest WorkflowCall WorkflowInput WorkflowOutcome where
  begin := .request
  segment := workflowSegment provider

end Kinglet.Workflows
