import Kinglet.Library.Ledger
import Kinglet.Memorystore.Types
import Kinglet.Storage.Repository

/-!
# ACL policies and their revisions

`AclPolicyService` and `AclPolicyRepository`: reads, creates, updates and deletes of policies, which
await the storage at every read and write. A change of the rules writes the policy, counts the
revisions and inserts a snapshot under the next number; a delete removes the revisions first.

Beside the tables the model keeps what the source does not: the rules a policy has had, and the order
in which etags were read, rules changed and policies deleted. The times of records are left out.
-/

namespace Kinglet.Memorystore

open Js Library Storage

/-! ## Records -/

/-- A policy, with the JSON text of its rules. Its `etag` counts the calls of `randomUUID`, and
`changes` are the rules it has had. -/
structure AclPolicyRecord where
  id : ℕ
  name : JsString
  state : JsString
  rules : JsString
  etag : ℕ
  changes : List JsString
deriving DecidableEq

/-- `aclPolicyRecordToResponse(record)`. -/
structure AclPolicyResponse where
  name : JsString
  state : JsString
  rules : JsString
  etag : ℕ
deriving DecidableEq

def aclPolicyRecordToResponse (record : AclPolicyRecord) : AclPolicyResponse :=
  ⟨record.name, record.state, record.rules, record.etag⟩

structure AclPolicyRevisionRecord where
  name : JsString
  policyName : JsString
  revisionNumber : JsString
  attachedInstances : JsString
  snapshot : AclPolicyResponse
deriving DecidableEq

/-! ## Names -/

/-- The variable parts of the name of a policy. -/
structure AclPolicyPath where
  project : JsString
  location : JsString
  aclPolicy : JsString

def buildAclPolicyName (project location aclPolicy : JsString) : JsString :=
  js "projects/" ++ project ++ js "/locations/" ++ location ++ js "/aclPolicies/" ++ aclPolicy

/-- `parseAclPolicyName(name)`, `none` when it throws. -/
def parseAclPolicyName (name : JsString) : Option AclPolicyPath :=
  match splitUnit (unit '/') name with
  | [projects, project, locations, location, aclPolicies, aclPolicy] =>
      if projects = "projects" ∧ project ≠ [] ∧ locations = "locations" ∧ location ≠ [] ∧
          aclPolicies = "aclPolicies" ∧ aclPolicy ≠ [] then
        some ⟨project, location, aclPolicy⟩
      else none
  | _ => none

def invalidAclPolicyName (name : JsString) : JsString :=
  js "Invalid ACL policy resource name: \"" ++ name ++ js "\". Expected format: " ++
    js "projects/\x7bproject\x7d/locations/\x7blocation\x7d/aclPolicies/\x7baclPolicy\x7d"

def buildAclPolicyRevisionName (project location aclPolicy revision : JsString) : JsString :=
  js "projects/" ++ project ++ js "/locations/" ++ location ++ js "/aclPolicies/" ++ aclPolicy ++
    js "/revisions/" ++ revision

/-! ## The store -/

/-- What happened, in the order in which it took effect: an etag was read, the rules of a policy were
replaced, or a delete that presented an etag or none came to its removal. -/
inductive AclEvent where
  | read (name : JsString) (etag : ℕ)
  | rulesUpdated (name : JsString)
  | deleted (name : JsString) (presented : Option ℕ)
deriving DecidableEq

structure AclStore where
  policies : List AclPolicyRecord
  revisions : List AclPolicyRevisionRecord
  /-- The targets and verbs of the operations. -/
  operations : List (JsString × JsString)
  nextId : ℕ
  nextEtag : ℕ
  events : List AclEvent

namespace AclStore

def start : AclStore := ⟨[], [], [], 0, 0, []⟩

variable (store : AclStore)

def getAclPolicyByName (name : JsString) : Option AclPolicyRecord :=
  store.policies.find? fun policy => policy.name = name

def findById (id : ℕ) : Option AclPolicyRecord :=
  store.policies.find? fun policy => policy.id = id

def revisionsOf (policyName : JsString) : List AclPolicyRevisionRecord :=
  store.revisions.filter fun revision => revision.policyName = policyName

def countRevisionsForPolicy (policyName : JsString) : ℕ := (store.revisionsOf policyName).length

def getRevisionByName (name : JsString) : Option AclPolicyRevisionRecord :=
  store.revisions.find? fun revision => revision.name = name

/-- The store after a call of `randomUUID`. -/
def drawEtag : AclStore := { store with nextEtag := store.nextEtag + 1 }

def log (event : AclEvent) : AclStore := { store with events := store.events ++ [event] }

/-- `storage.create(MEMORYSTORE_ACL_POLICIES_TABLE, aclPolicyRequestToRecord(name, body))`: the
record. -/
def newPolicy (name rules : JsString) (etag : ℕ) : AclPolicyRecord where
  id := store.nextId
  name := name
  state := "ACTIVE"
  rules := rules
  etag := etag
  changes := [rules]

def insertPolicy (record : AclPolicyRecord) : AclStore :=
  { store with policies := store.policies ++ [record], nextId := store.nextId + 1 }

/-- `storage.updateById(MEMORYSTORE_ACL_POLICIES_TABLE, record.id, updates)`. -/
def replacePolicy (record : AclPolicyRecord) : AclStore :=
  { store with
    policies := store.policies.map fun policy => if policy.id = record.id then record else policy }

def createRevision (revision : AclPolicyRevisionRecord) : AclStore :=
  { store with revisions := store.revisions ++ [revision] }

def deleteRevisionsForPolicy (policyName : JsString) : AclStore :=
  { store with
    revisions := store.revisions.filter fun revision => revision.policyName ≠ policyName }

def deleteById (id : ℕ) : AclStore :=
  { store with policies := store.policies.filter fun policy => policy.id ≠ id }

def createOperation (target verb : JsString) : AclStore :=
  { store with operations := store.operations ++ [(target, verb)] }

end AclStore

/-! ## Calls -/

/-- What an update sets: rules and a fresh etag. -/
structure RulesUpdate where
  rules : JsString
  etag : ℕ

def RulesUpdate.apply (update : RulesUpdate) (policy : AclPolicyRecord) : AclPolicyRecord :=
  { policy with
    rules := update.rules
    etag := update.etag
    changes := policy.changes ++ [update.rules] }

/-- A request. Of a body only the JSON text of its rules counts, `none` when it has none; an empty
mask or etag is none. -/
inductive AclRequest where
  | get (name : JsString)
  | create (project location aclPolicyId : JsString) (rules : Option JsString)
  | update (name : JsString) (rules : Option JsString) (updateMask : JsString)
  | delete (name : JsString) (etag : Option ℕ)

/-- What follows a snapshot: the answer of a create, or the operation of an update. -/
inductive AfterSnapshot where
  | created
  | updated
deriving DecidableEq

/-- A call in flight, by the storage operation it awaits next. -/
inductive AclCall where
  | request (request : AclRequest)
  | checkName (name rules : JsString) (etag : ℕ)
  | insertPolicy (name rules : JsString) (etag : ℕ)
  | countRevisions (policy : AclPolicyRecord) (path : AclPolicyPath)
      (hpath : parseAclPolicyName policy.name = some path) (after : AfterSnapshot)
  | createRevision (policy : AclPolicyRecord) (path : AclPolicyPath)
      (hpath : parseAclPolicyName policy.name = some path) (revisionNumber : JsString)
      (after : AfterSnapshot)
  | findForUpdate (name : JsString) (update : Option RulesUpdate)
  | updateById (name : JsString) (id : ℕ) (update : Option RulesUpdate)
  | findForDelete (name : JsString) (etag : Option ℕ)
  | deleteRevisions (name : JsString) (id : ℕ) (etag : Option ℕ)
  | deleteById (name : JsString) (id : ℕ) (etag : Option ℕ)
  | createOperation (name verb : JsString)

inductive AclOutcome where
  | failed (code : MemoryStoreErrorCode) (message : JsString)
  | threw (message : JsString)
  | policy (response : AclPolicyResponse)
  | operation (target verb : JsString)

/-- The first field of a mask that is not `rules`. -/
def readOnlyField (updateMask : JsString) : Option JsString :=
  if updateMask = [] then none
  else ((splitUnit (unit ',') updateMask).map trim).find? fun field =>
    (splitUnit (unit '.') field).head? ≠ some (js "rules")

/-- `rulesChanged`, with the rules. -/
def changedRules (rules : Option JsString) (updateMask : JsString) : Option JsString :=
  if updateMask = [] ∨ js "rules" ∈ (splitUnit (unit ',') updateMask).map trim then rules else none

def aclPolicyNotFound (name : JsString) : AclOutcome :=
  .failed .notFound (js "AclPolicy " ++ name ++ js " not found")

/-- The name is parsed, and then the operation is created. -/
def startOperation (name verb : JsString) : Progress AclCall AclOutcome :=
  match parseAclPolicyName name with
  | none => .finished (.threw (invalidAclPolicyName name))
  | some _ => .pending (.createOperation name verb)

/-- `snapshotRevision(policy)` up to the count of the revisions. -/
def startSnapshot (policy : AclPolicyRecord) (after : AfterSnapshot) : Progress AclCall AclOutcome :=
  match hpath : parseAclPolicyName policy.name with
  | none => .finished (.threw (invalidAclPolicyName policy.name))
  | some path => .pending (.countRevisions policy path hpath after)

def revisionRecord (policy : AclPolicyRecord) (path : AclPolicyPath) (revisionNumber : JsString) :
    AclPolicyRevisionRecord where
  name := buildAclPolicyRevisionName path.project path.location path.aclPolicy revisionNumber
  policyName := policy.name
  revisionNumber := revisionNumber
  attachedInstances := "[]"
  snapshot := aclPolicyRecordToResponse policy

/-- A call's next segment: the storage operation, and the code up to the next. -/
def aclSegment (provider : Provider) (store : AclStore) (call : AclCall) :
    AclStore × Progress AclCall AclOutcome :=
  match call with
  | .request (.get name) =>
      match store.getAclPolicyByName name with
      | none => (store, .finished (aclPolicyNotFound name))
      | some record =>
          (store.log (.read name record.etag), .finished (.policy (aclPolicyRecordToResponse record)))
  | .request (.create project location aclPolicyId rules) =>
      if aclPolicyId = [] then
        (store, .finished (.failed .invalidArgument "aclPolicyId is required"))
      else
        let name := buildAclPolicyName project location aclPolicyId
        match store.getAclPolicyByName name with
        | some _ =>
            (store, .finished (.failed .alreadyExists
              (js "AclPolicy " ++ name ++ js " already exists")))
        | none => (store.drawEtag, .pending (.checkName name (rules.getD "[]") store.nextEtag))
  | .checkName name rules etag =>
      match store.getAclPolicyByName name with
      | some _ =>
          (store, .finished (.threw (js "An ACL policy named \"" ++ name ++ js "\" already exists")))
      | none => (store, .pending (.insertPolicy name rules etag))
  | .insertPolicy name rules etag =>
      if provider = .sqlite ∧ (store.getAclPolicyByName name).isSome then
        (store, .finished (.threw "Record already exists"))
      else
        let record := store.newPolicy name rules etag
        (store.insertPolicy record, startSnapshot record .created)
  | .countRevisions policy path hpath after =>
      (store, .pending (.createRevision policy path hpath
        (decimal (store.countRevisionsForPolicy policy.name + 1)) after))
  | .createRevision policy path _ revisionNumber after =>
      let revision := revisionRecord policy path revisionNumber
      if provider = .sqlite ∧ (store.getRevisionByName revision.name).isSome then
        (store, .finished (.threw "Record already exists"))
      else
        (store.createRevision revision,
          match after with
          | .created => .finished (.policy (aclPolicyRecordToResponse policy))
          | .updated => startOperation policy.name "update")
  | .request (.update name rules updateMask) =>
      match store.getAclPolicyByName name with
      | none => (store, .finished (aclPolicyNotFound name))
      | some _ =>
          match readOnlyField updateMask with
          | some field =>
              (store, .finished (.failed .invalidArgument
                (js "Field \"" ++ field ++ js "\" is read-only or unknown and cannot be updated")))
          | none =>
              match changedRules rules updateMask with
              | none => (store, .pending (.findForUpdate name none))
              | some rules =>
                  (store.drawEtag, .pending (.findForUpdate name (some ⟨rules, store.nextEtag⟩)))
  | .findForUpdate name update =>
      match store.getAclPolicyByName name with
      | none => (store, startOperation name "update")
      | some existing => (store, .pending (.updateById name existing.id update))
  | .updateById name id update =>
      match store.findById id with
      | none => (store, startOperation name "update")
      | some existing =>
          match update with
          | none => (store, startOperation name "update")
          | some update =>
              let updated := update.apply existing
              ((store.replacePolicy updated).log (.rulesUpdated updated.name),
                startSnapshot updated .updated)
  | .request (.delete name etag) =>
      match store.getAclPolicyByName name with
      | none => (store, .finished (aclPolicyNotFound name))
      | some existing =>
          if etag.any fun etag => etag ≠ existing.etag then
            (store, .finished (.failed .aborted (js "Etag mismatch for AclPolicy " ++ name)))
          else (store, .pending (.findForDelete name etag))
  | .findForDelete name etag =>
      match store.getAclPolicyByName name with
      | none => (store.log (.deleted name etag), startOperation name "delete")
      | some existing => (store, .pending (.deleteRevisions name existing.id etag))
  | .deleteRevisions name id etag =>
      (store.deleteRevisionsForPolicy name, .pending (.deleteById name id etag))
  | .deleteById name id etag =>
      ((store.deleteById id).log (.deleted name etag), startOperation name "delete")
  | .createOperation name verb => (store.createOperation name verb, .finished (.operation name verb))

/-- The calls of the service. -/
def aclPolicyService (provider : Provider) : Async AclStore AclRequest AclCall Unit AclOutcome where
  begin := .request
  segment store call _ := aclSegment provider store call

end Kinglet.Memorystore
