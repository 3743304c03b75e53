import Kinglet.Js.Json
import Kinglet.Js.Time
import Kinglet.Js.Untyped
import Kinglet.Library.Interleaving

/-!
# The Cloud SQL admin service

The calls of `SqlAdminService` that create, delete, restart and update instances and add databases and
users to them. Each awaits the storage at every read and write and the data plane at every start and
drop, and the calls interleave there. Both may reject.

An endpoint of the data plane is its key here, project and instance: what the data plane does for one
key it does one after the other. With the tables go the updates that were written, in this order, and
with each row of a database or user the instance in whose creation it was made; the source keeps
neither.
-/

namespace Kinglet.CloudSql

open Js Library

/-! ## Records -/

/-- The project and the name of an instance. -/
abbrev InstanceKey := JsString × JsString

structure SqlInstanceRecord where
  id : ℕ
  project : JsString
  name : JsString
  region : JsString
  databaseVersion : JsString
  state : JsString
  settings : JsString
  settingsVersion : ℕ
  createTime : JsString
  deriving DecidableEq

def SqlInstanceRecord.key (record : SqlInstanceRecord) : InstanceKey := (record.project, record.name)

structure SqlDatabaseRecord where
  id : ℕ
  project : JsString
  instanceName : JsString
  name : JsString
  charset : JsString
  collation : JsString
  within : Option ℕ
  deriving DecidableEq

def SqlDatabaseRecord.key (record : SqlDatabaseRecord) : InstanceKey :=
  (record.project, record.instanceName)

structure SqlUserRecord where
  id : ℕ
  project : JsString
  instanceName : JsString
  name : JsString
  host : JsString
  type : JsString
  password : JsString
  within : Option ℕ
  deriving DecidableEq

def SqlUserRecord.key (record : SqlUserRecord) : InstanceKey := (record.project, record.instanceName)

/-! ## Errors and requests -/

inductive CloudSqlErrorCode
  | notFound
  | alreadyExists
  | invalidArgument
  | failedPrecondition
  | internal
  deriving DecidableEq

/-- What a call throws: a `SqlAdminError`, or another error. -/
inductive Thrown
  | admin (code : CloudSqlErrorCode) (message : JsString)
  | error (message : JsString)
  deriving DecidableEq

/-- `InsertInstanceRequestSchema`. -/
structure InsertInstanceRequest where
  name : JsString
  databaseVersion : JsString
  region : Option JsString
  rootPassword : Option JsString
  settings : Option Fields

/-- `InsertDatabaseRequestSchema`, with its defaults. -/
structure InsertDatabaseRequest where
  name : JsString
  charset : JsString
  collation : JsString

/-- `InsertUserRequestSchema`, with its defaults. -/
structure InsertUserRequest where
  name : JsString
  host : JsString
  type : JsString
  password : JsString

/-- The calls; a body that its schema rejects is the message of that. -/
inductive Request
  | createInstance (project : JsString) (body : Except JsString InsertInstanceRequest)
  | deleteInstance (key : InstanceKey)
  | restartInstance (key : InstanceKey)
  | updateInstance (key : InstanceKey) (body : Except JsString (Option Fields))
  | patchInstance (key : InstanceKey) (body : Except JsString (Option Fields))
  | createDatabase (key : InstanceKey) (body : Except JsString InsertDatabaseRequest)
  | createUser (key : InstanceKey) (body : Except JsString InsertUserRequest)

/-! ## Settings -/

/-- `const { settingsVersion, kind, ...userSettings } = incoming`. -/
def userSettings (incoming : Fields) : Fields :=
  incoming.filter fun field => field.1 ≠ js "settingsVersion" && field.1 ≠ js "kind"

/-- `{ ...fields, ...others }`. -/
def spread (fields others : Fields) : Fields :=
  others.foldl (fun fields field => setField field.1 field.2 fields) fields

/-- The settings that an update leaves: PUT replaces them, PATCH merges into those that are stored. -/
def nextSettings (replaces : Bool) (provided : Fields) (settings : JsString) :
    Except Thrown JsString :=
  if replaces then .ok ((jsonStringify (.obj none provided)).getD [])
  else
    match jsonParse settings with
    | none => .error (.error "JSON Parse error")
    | some (.obj _ fields) => .ok ((jsonStringify (.obj none (spread fields provided))).getD [])
    | some _ => .ok ((jsonStringify (.obj none (spread [] provided))).getD [])

/-- An update that has passed its checks: the version it was checked against, and what it writes. -/
structure SettingsUpdate where
  key : InstanceKey
  replaces : Bool
  provided : Fields
  version : ℕ
  settings : JsString

/-- `version + 1` in double precision. -/
def nextVersion (version : ℕ) : ℕ := if version < 2 ^ 53 then version + 1 else version

/-- What `applySettings` checks before it reads. -/
def checkBody (requireVersion : Bool) :
    Except JsString (Option Fields) → Except Thrown Fields
  | .error message => .error (.admin .invalidArgument (js "Invalid update request: " ++ message))
  | .ok none =>
      if requireVersion then
        .error (.admin .invalidArgument "settings is required for instances.update")
      else .ok []
  | .ok (some incoming) => .ok incoming

/-- The comparison of the version that is presented. -/
def checkVersion (requireVersion : Bool) (incoming : Fields) (existing : SqlInstanceRecord) :
    Except Thrown Unit :=
  let presented := (ownField incoming "settingsVersion").getD .undefined
  let compared := match presented with
    | .undefined | .null => requireVersion
    | _ => true
  let equal := match presented with
    | .num provided => intValue provided = some existing.settingsVersion
    | _ => false
  if compared && !equal then
    match toText presented with
    | some text => .error (.admin .failedPrecondition (js "settings.settingsVersion mismatch: expected " ++
        decimal existing.settingsVersion ++ js ", got " ++ text))
    | none => .error (.error "Cannot convert object to primitive value")
  else .ok ()

/-- What `applySettings` does between its first read and its second. -/
def checkSettings (requireVersion : Bool) (incoming : Fields) (existing : SqlInstanceRecord) :
    Except Thrown SettingsUpdate := do
  checkVersion requireVersion incoming existing
  let settings ← nextSettings requireVersion (userSettings incoming) existing.settings
  pure ⟨existing.key, requireVersion, userSettings incoming, existing.settingsVersion, settings⟩

/-! ## Calls -/

/-- How a creation ended that did not throw: with an instance, or with an operation that carries an
error; with the row that it had inserted. -/
inductive CreateResult
  | running (id : ℕ)
  | failed (id : ℕ) (message : JsString)
  deriving DecidableEq

inductive Outcome
  | created (key : InstanceKey) (result : Except Thrown CreateResult)
  | deleted (key : InstanceKey) (result : Except Thrown Unit)
  | restarted (key : InstanceKey) (result : Except Thrown Unit)
  | updated (key : InstanceKey) (id : Option ℕ) (result : Except Thrown SettingsUpdate)
  | databaseCreated (key : InstanceKey) (result : Except Thrown Unit)
  | userCreated (key : InstanceKey) (result : Except Thrown Unit)

/-- The same call, ended by an error. -/
def Outcome.withError (thrown : Thrown) : Outcome → Outcome
  | .created key _ => .created key (.error thrown)
  | .deleted key _ => .deleted key (.error thrown)
  | .restarted key _ => .restarted key (.error thrown)
  | .updated key id _ => .updated key id (.error thrown)
  | .databaseCreated key _ => .databaseCreated key (.error thrown)
  | .userCreated key _ => .userCreated key (.error thrown)

/-- The row of a new instance, before the storage gives it an id, and the password of its user. -/
structure NewInstance where
  project : JsString
  name : JsString
  region : JsString
  databaseVersion : JsString
  settings : JsString
  createTime : JsString
  rootPassword : JsString
  deriving DecidableEq

def NewInstance.key (new : NewInstance) : InstanceKey := (new.project, new.name)

/-- For what a database or a user is added: a request of its own, or the creation of an instance whose
row is already there. -/
inductive Purpose
  | requested
  | creating (new : NewInstance) (id : ℕ)
  deriving DecidableEq

/-- A call in flight, named for what it awaits. -/
inductive Call
  | requested (request : Request)
  | guardingInstance (new : NewInstance)
  | insertingInstance (new : NewInstance)
  | starting (new : NewInstance) (id : ℕ)
  | dropping (key : InstanceKey) (after : Outcome)
  | findingInstance (key : InstanceKey) (after : Outcome)
  | deletingDatabases (key : InstanceKey) (id : ℕ) (after : Outcome)
  | deletingUsers (key : InstanceKey) (id : ℕ) (after : Outcome)
  | deletingInstance (key : InstanceKey) (id : ℕ) (after : Outcome)
  | listingDatabases (key : InstanceKey)
  | restarting (key : InstanceKey)
  | findingSettings (update : SettingsUpdate)
  | writingSettings (id : ℕ) (update : SettingsUpdate)
  | checkingDatabase (database : SqlDatabaseRecord)
  | guardingDatabase (database : SqlDatabaseRecord) (purpose : Purpose)
  | insertingDatabase (database : SqlDatabaseRecord) (purpose : Purpose)
  | openingDatabase (database : SqlDatabaseRecord)
  | findingDatabase (database : SqlDatabaseRecord) (message : JsString)
  | removingDatabase (id : ℕ) (database : SqlDatabaseRecord) (message : JsString)
  | checkingUser (user : SqlUserRecord)
  | guardingUser (user : SqlUserRecord) (purpose : Purpose)
  | insertingUser (user : SqlUserRecord) (purpose : Purpose)
  | recording (outcome : Outcome)

/-- What the storage or the data plane answers. -/
inductive Answer
  | done
  | rejected (applied : Bool) (message : JsString)
  deriving DecidableEq

/-- What a segment gets from outside. -/
structure Outside where
  answer : Answer
  now : ℤ

/-! ## The store -/

structure AdminStore where
  instances : List SqlInstanceRecord
  databases : List SqlDatabaseRecord
  users : List SqlUserRecord
  nextId : ℕ
  /-- Which endpoints the data plane has up. -/
  live : InstanceKey → Bool
  updates : List (ℕ × SettingsUpdate)

namespace AdminStore

variable (store : AdminStore)

/-- `repo.getInstance(project, name)`. -/
def getInstance (key : InstanceKey) : Option SqlInstanceRecord :=
  store.instances.find? fun record => record.key = key

/-- `repo.getDatabase(project, instance, name)`. -/
def getDatabase (key : InstanceKey) (name : JsString) : Option SqlDatabaseRecord :=
  store.databases.find? fun record => record.key = key && record.name = name

/-- `repo.getUser(project, instance, name, host)`. -/
def getUser (key : InstanceKey) (name host : JsString) : Option SqlUserRecord :=
  store.users.find? fun record => record.key = key && record.name = name && record.host = host

def insertInstance (new : NewInstance) : AdminStore :=
  { store with
    instances := store.instances ++ [
      { id := store.nextId
        project := new.project
        name := new.name
        region := new.region
        databaseVersion := new.databaseVersion
        state := js "RUNNABLE"
        settings := new.settings
        settingsVersion := 1
        createTime := new.createTime }]
    nextId := store.nextId + 1 }

def insertDatabase (database : SqlDatabaseRecord) : AdminStore :=
  { store with
    databases := store.databases ++ [{ database with id := store.nextId }]
    nextId := store.nextId + 1 }

def insertUser (user : SqlUserRecord) : AdminStore :=
  { store with
    users := store.users ++ [{ user with id := store.nextId }]
    nextId := store.nextId + 1 }

def setLive (key : InstanceKey) (up : Bool) : AdminStore :=
  { store with live := Function.update store.live key up }

def writeSettings (id : ℕ) (update : SettingsUpdate) : AdminStore :=
  { store with
    instances := store.instances.map fun record =>
      if record.id = id then
        { record with
          settings := update.settings
          settingsVersion := nextVersion update.version }
      else record
    updates := if store.instances.any fun record => record.id = id then
        store.updates ++ [(id, update)]
      else store.updates }

/-- What a call's request to the storage or the data plane does. -/
def written : Call → AdminStore
  | .insertingInstance new => store.insertInstance new
  | .insertingDatabase database _ => store.insertDatabase database
  | .insertingUser user _ => store.insertUser user
  | .starting new _ => store.setLive new.key true
  | .restarting key => store.setLive key true
  | .dropping key _ => store.setLive key false
  | .deletingDatabases key _ _ =>
      { store with databases := store.databases.filter fun record => record.key ≠ key }
  | .deletingUsers key _ _ =>
      { store with users := store.users.filter fun record => record.key ≠ key }
  | .deletingInstance _ id _ =>
      { store with instances := store.instances.filter fun record => record.id ≠ id }
  | .removingDatabase id _ _ =>
      { store with databases := store.databases.filter fun record => record.id ≠ id }
  | .writingSettings id update => store.writeSettings id update
  | _ => store

end AdminStore

/-! ## Segments -/

def instanceName (key : InstanceKey) : JsString := key.1 ++ js "/" ++ key.2

def instanceNotFound (key : InstanceKey) : Thrown :=
  .admin .notFound (js "The Cloud SQL instance does not exist: " ++ instanceName key)

/-- What `createInstance` checks before it reads. -/
def checkInsert : Except JsString InsertInstanceRequest → Except Thrown InsertInstanceRequest
  | .error message => .error (.admin .invalidArgument (js "Invalid instance request: " ++ message))
  | .ok request =>
      if startsWith request.databaseVersion (js "POSTGRES_") then .ok request
      else .error (.admin .invalidArgument (js "kinglet emulates Cloud SQL for PostgreSQL only; " ++
        js "databaseVersion must start with POSTGRES_ (got " ++ request.databaseVersion ++ js ")"))

/-- The row that `createInstance` inserts. -/
def newInstance (project : JsString) (request : InsertInstanceRequest) (now : ℤ) : NewInstance where
  project := project
  name := request.name
  region := request.region.getD (js "us-central1")
  databaseVersion := request.databaseVersion
  settings := (jsonStringify (.obj none (userSettings (request.settings.getD [])))).getD []
  createTime := toISOString now
  rootPassword := request.rootPassword.getD []

/-- The database that every instance begins with. -/
def postgresDatabase (new : NewInstance) (id : ℕ) : SqlDatabaseRecord :=
  ⟨0, new.project, new.name, "postgres", "UTF8", "en_US.UTF8", some id⟩

/-- The user that every instance begins with. -/
def postgresUser (new : NewInstance) (id : ℕ) : SqlUserRecord :=
  ⟨0, new.project, new.name, "postgres", [], "BUILT_IN", new.rootPassword, some id⟩

/-- How a request ends that throws. -/
def Request.failed (thrown : Thrown) : Request → Outcome
  | .createInstance project (.ok request) => .created (project, request.name) (.error thrown)
  | .createInstance project (.error _) => .created (project, []) (.error thrown)
  | .deleteInstance key => .deleted key (.error thrown)
  | .restartInstance key => .restarted key (.error thrown)
  | .updateInstance key _ | .patchInstance key _ => .updated key none (.error thrown)
  | .createDatabase key _ => .databaseCreated key (.error thrown)
  | .createUser key _ => .userCreated key (.error thrown)

/-- How the call ends for which a database is added, when that throws. -/
def Purpose.databaseFailed (key : InstanceKey) (thrown : Thrown) : Purpose → Outcome
  | .requested => .databaseCreated key (.error thrown)
  | .creating new _ => .created new.key (.error thrown)

def Purpose.userFailed (key : InstanceKey) (thrown : Thrown) : Purpose → Outcome
  | .requested => .userCreated key (.error thrown)
  | .creating new _ => .created new.key (.error thrown)

/-- How a call ends that throws. -/
def Call.failed (thrown : Thrown) : Call → Outcome
  | .requested request => request.failed thrown
  | .guardingInstance new | .insertingInstance new | .starting new _ => .created new.key (.error thrown)
  | .dropping _ after | .findingInstance _ after | .deletingDatabases _ _ after
  | .deletingUsers _ _ after | .deletingInstance _ _ after => after.withError thrown
  | .listingDatabases key | .restarting key => .restarted key (.error thrown)
  | .findingSettings update => .updated update.key none (.error thrown)
  | .writingSettings id update => .updated update.key (some id) (.error thrown)
  | .checkingDatabase database | .openingDatabase database | .findingDatabase database _
  | .removingDatabase _ database _ => .databaseCreated database.key (.error thrown)
  | .guardingDatabase database purpose | .insertingDatabase database purpose =>
      purpose.databaseFailed database.key thrown
  | .checkingUser user => .userCreated user.key (.error thrown)
  | .guardingUser user purpose | .insertingUser user purpose => purpose.userFailed user.key thrown
  | .recording outcome => outcome.withError thrown

/-- The error of a database that could not be opened. -/
def openFailed (database : SqlDatabaseRecord) (message : JsString) : Outcome :=
  .databaseCreated database.key (.error (.admin .internal (js "Failed to open database " ++
    database.name ++ js " on " ++ instanceName database.key ++ js ": " ++ message)))

/-- Whether a call goes on with an answer, and not at once. -/
def Call.awaits : Call → Bool
  | .requested (.createInstance _ body) => (checkInsert body).isOk
  | .requested (.updateInstance _ body) => (checkBody true body).isOk
  | .requested (.patchInstance _ body) => (checkBody false body).isOk
  | _ => true

namespace AdminStore

variable (store : AdminStore)

/-- `updateInstance` and `patchInstance`, up to their second await. -/
def applySettings (key : InstanceKey) (body : Except JsString (Option Fields)) (requireVersion : Bool) :
    AdminStore × Progress Call Outcome :=
  match checkBody requireVersion body with
  | .error thrown => (store, .finished (.updated key none (.error thrown)))
  | .ok incoming =>
      match store.getInstance key with
      | none => (store, .finished (.updated key none (.error (instanceNotFound key))))
      | some existing =>
          match checkSettings requireVersion incoming existing with
          | .error thrown => (store, .finished (.updated key none (.error thrown)))
          | .ok update => (store, .pending (.findingSettings update))

/-- A request, up to its second await. -/
def request (outside : Outside) : Request → AdminStore × Progress Call Outcome
  | .createInstance project body =>
      match checkInsert body with
      | .error thrown =>
          (store, .finished ((Request.createInstance project body).failed thrown))
      | .ok request =>
          let new := newInstance project request outside.now
          match store.getInstance new.key with
          | some _ => (store, .finished (.created new.key (.error (.admin .alreadyExists
              (js "The Cloud SQL instance already exists: " ++ instanceName new.key)))))
          | none => (store, .pending (.guardingInstance new))
  | .deleteInstance key =>
      match store.getInstance key with
      | none => (store, .finished (.deleted key (.error (instanceNotFound key))))
      | some _ => (store, .pending (.dropping key (.deleted key (.ok ()))))
  | .restartInstance key =>
      match store.getInstance key with
      | none => (store, .finished (.restarted key (.error (instanceNotFound key))))
      | some _ => (store, .pending (.listingDatabases key))
  | .updateInstance key body => store.applySettings key body true
  | .patchInstance key body => store.applySettings key body false
  | .createDatabase key body =>
      match store.getInstance key with
      | none => (store, .finished (.databaseCreated key (.error (instanceNotFound key))))
      | some _ =>
          match body with
          | .error message => (store, .finished (.databaseCreated key
              (.error (.admin .invalidArgument (js "Invalid database request: " ++ message)))))
          | .ok request => (store, .pending (.checkingDatabase
              ⟨0, key.1, key.2, request.name, request.charset, request.collation, none⟩))
  | .createUser key body =>
      match store.getInstance key with
      | none => (store, .finished (.userCreated key (.error (instanceNotFound key))))
      | some _ =>
          match body with
          | .error message => (store, .finished (.userCreated key
              (.error (.admin .invalidArgument (js "Invalid user request: " ++ message)))))
          | .ok request => (store, .pending (.checkingUser
              ⟨0, key.1, key.2, request.name, request.host, request.type, request.password, none⟩))

/-- A segment of a call that got the answer it waited for. -/
def answered (outside : Outside) (call : Call) : AdminStore × Progress Call Outcome :=
  match call with
  | .requested request => store.request outside request
  | .guardingInstance new =>
      match store.getInstance new.key with
      | some _ => (store, .finished (call.failed
          (.error (js "Instance " ++ instanceName new.key ++ js " already exists"))))
      | none => (store, .pending (.insertingInstance new))
  | .insertingInstance new => (store.written call, .pending
      (.guardingDatabase (postgresDatabase new store.nextId) (.creating new store.nextId)))
  | .starting new id => (store.written call, .pending (.recording (.created new.key (.ok (.running id)))))
  | .dropping key after => (store.written call, .pending (.findingInstance key after))
  | .findingInstance key after =>
      match store.getInstance key with
      | none => (store, .pending (.recording after))
      | some existing => (store, .pending (.deletingDatabases key existing.id after))
  | .deletingDatabases key id after => (store.written call, .pending (.deletingUsers key id after))
  | .deletingUsers key id after => (store.written call, .pending (.deletingInstance key id after))
  | .deletingInstance _ _ after => (store.written call, .pending (.recording after))
  | .listingDatabases key => (store, .pending (.restarting key))
  | .restarting key => (store.written call, .pending (.recording (.restarted key (.ok ()))))
  | .findingSettings update =>
      match store.getInstance update.key with
      | none => (store, .pending (.recording (.updated update.key none (.ok update))))
      | some existing => (store, .pending (.writingSettings existing.id update))
  | .writingSettings id update => (store.written call, .pending (.recording
      (.updated update.key (if store.instances.any fun record => record.id = id then some id else none)
        (.ok update))))
  | .checkingDatabase database =>
      match store.getDatabase database.key database.name with
      | some _ => (store, .finished (call.failed (.admin .alreadyExists (js "Database " ++ database.name ++
          js " already exists on instance " ++ instanceName database.key))))
      | none => (store, .pending (.guardingDatabase database .requested))
  | .guardingDatabase database purpose =>
      match store.getDatabase database.key database.name with
      | some _ => (store, .finished (call.failed (.error (js "Database " ++ database.name ++
          js " already exists on instance " ++ instanceName database.key))))
      | none => (store, .pending (.insertingDatabase database purpose))
  | .insertingDatabase database purpose => (store.written call, .pending (match purpose with
      | .requested => .openingDatabase database
      | .creating new id => .guardingUser (postgresUser new id) purpose))
  | .openingDatabase database =>
      (store, .pending (.recording (.databaseCreated database.key (.ok ()))))
  | .findingDatabase database message =>
      match store.getDatabase database.key database.name with
      | none => (store, .finished (openFailed database message))
      | some existing => (store, .pending (.removingDatabase existing.id database message))
  | .removingDatabase _ database message => (store.written call, .finished (openFailed database message))
  | .checkingUser user =>
      match store.getUser user.key user.name user.host with
      | some _ => (store, .finished (call.failed (.admin .alreadyExists (js "User " ++ user.name ++
          js " already exists on instance " ++ instanceName user.key))))
      | none => (store, .pending (.guardingUser user .requested))
  | .guardingUser user purpose =>
      match store.getUser user.key user.name user.host with
      | some _ => (store, .finished (call.failed (.error (js "User " ++ user.name ++
          js " already exists on instance " ++ instanceName user.key))))
      | none => (store, .pending (.insertingUser user purpose))
  | .insertingUser user purpose => (store.written call, .pending (match purpose with
      | .requested => .recording (.userCreated user.key (.ok ()))
      | .creating new id => .starting new id))
  | .recording outcome => (store, .finished outcome)

/-- A segment of a call whose request was refused. An endpoint that does not start is down, and its
creation is undone; a database that does not open is removed. -/
def refused (applied : Bool) (message : JsString) (call : Call) : AdminStore × Progress Call Outcome :=
  match call with
  | .starting new id => (store.setLive new.key false, .pending (.dropping new.key (.created new.key
      (.ok (.failed id (js "Failed to start the data plane for " ++ instanceName new.key ++ js ": " ++
        message))))))
  | .restarting key => (store.setLive key false, .finished (.restarted key (.error (.error message))))
  | .openingDatabase database => (store, .pending (.findingDatabase database message))
  | call => (if applied then store.written call else store, .finished (call.failed (.error message)))

/-- One segment of a call, up to its next await. -/
def segment (call : Call) (outside : Outside) : AdminStore × Progress Call Outcome :=
  match outside.answer, call.awaits with
  | .rejected applied message, true => store.refused applied message call
  | _, _ => store.answered outside call

end AdminStore

/-- The calls of the service. -/
def adminService : Async AdminStore Request Call Outside Outcome := ⟨.requested, AdminStore.segment⟩

end Kinglet.CloudSql
