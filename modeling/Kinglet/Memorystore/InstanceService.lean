import Kinglet.Memorystore.Instances

/-!
# Calls on instances, token auth users and auth tokens

The functions of the services as scripts of what they await. The undo of a failed create is that of the
`catch` in the source, with the flags as they are where it fails.
-/

namespace Kinglet.Memorystore.Instances

open Js Library Storage

/-! ## Repositories -/

/-- `storage.findFirst` by name. -/
def getByName (kind : Kind) (name : JsString) : InstanceScript (Option kind.Row) :=
  perform (.rows (.findFirst kind name))

def create (kind : Kind) (row : NewRow kind.Data) : InstanceScript kind.Row := do
  match ← getByName kind row.name with
  | some _ => throw (.error (kind.label ++ js " named \"" ++ row.name ++ js "\" already exists"))
  | none => perform (.rows (.create kind row))

def delete (kind : Kind) (name : JsString) : InstanceScript Bool := do
  match ← getByName kind name with
  | none => pure false
  | some existing => perform (.rows (.deleteById kind existing.id))

def deleteAuthTokensForUser (tokenAuthUser : JsString) : InstanceScript ℕ :=
  perform (.rows (.deleteTokensOf tokenAuthUser))

def deleteTokenAuthUsersForInstance (instanceName : JsString) : InstanceScript Unit := do
  let users ← (perform (.rows (.usersOf instanceName)) : InstanceScript (List Kind.tokenAuthUsers.Row))
  Script.forEach (fun user => do
    let _ ← deleteAuthTokensForUser user.name
    let _ ← (perform (.rows (.deleteById .tokenAuthUsers user.id)) : InstanceScript Bool)
    pure ()) users

/-- Whether the call is what has created the collection. -/
def createBackupCollectionIfMissing (name inInstance instanceUid : JsString) : InstanceScript Bool := do
  match ← perform (.findCollection name) with
  | some _ => pure false
  | none => do
      let uid ← perform .randomUUID
      let _ ← perform (.createCollection ⟨name, ⟨uid, inInstance, instanceUid⟩⟩)
      pure true

def deleteBackupCollection (name : JsString) : InstanceScript Bool := do
  match ← perform (.findCollection name) with
  | none => pure false
  | some existing => perform (.deleteCollectionById existing.id)

def createOperation (project location target verb resourceType : JsString) :
    InstanceScript OperationRecord := do
  let operationId ← perform .randomUUID
  perform (.createOperation
    ⟨buildMemorystoreOperationName project location operationId, target, verb, resourceType⟩)

/-! ## Instances -/

def invalidInstanceId (instanceId : JsString) : Thrown :=
  .memoryStore .invalidArgument (js "Invalid instanceId \"" ++ instanceId ++ js "\": must be 4-63 " ++
    js "characters, begin with a lowercase letter or digit, contain only lowercase letters, digits " ++
    js "and hyphens, and not end with a hyphen")

def getExistingInstanceOrThrow (name : JsString) : InstanceScript Kind.instances.Row := do
  match ← getByName .instances name with
  | none => throw (.memoryStore .notFound (js "Instance " ++ name ++ js " not found"))
  | some record => pure record

/-- The undo of a failed create. -/
def rollback (name backupCollectionName : JsString) (isInstancePersisted wasBackupCollectionCreatedHere : Bool) :
    InstanceScript Unit := do
  onPlane (stopServerForInstance name)
  if wasBackupCollectionCreatedHere then
    let _ ← deleteBackupCollection backupCollectionName
  if isInstancePersisted then
    let _ ← delete .instances name

/-- What a create does once its server is running. -/
def persistInstance (path : InstancePath) (uid : JsString) (deletionProtectionEnabled : Bool)
    (endpoint : ValkeyEndpoint) : InstanceScript OperationRecord := do
  let name := buildInstanceName path
  let backupCollectionName := buildBackupCollectionName path
  let undo (isInstancePersisted wasBackupCollectionCreatedHere : Bool) {α : Type} (error : Thrown) :
      InstanceScript α := do
    rollback name backupCollectionName isInstancePersisted wasBackupCollectionCreatedHere
    throw error
  let created ← (create .instances
    ⟨name, ⟨uid, backupCollectionName, [endpoint], deletionProtectionEnabled⟩⟩).catching
      (undo false false)
  let wasBackupCollectionCreatedHere ←
    (createBackupCollectionIfMissing backupCollectionName name created.data.uid).catching (undo true false)
  (createOperation path.project path.location name "create" "Instance").catching
    (undo true wasBackupCollectionCreatedHere)

def createInstanceExclusively (options : ValkeyProcessManagerOptions) (path : InstancePath)
    (deletionProtectionEnabled : Bool) : InstanceScript OperationRecord := do
  let name := buildInstanceName path
  match ← getByName .instances name with
  | some _ => throw (.memoryStore .alreadyExists (js "Instance " ++ name ++ js " already exists"))
  | none => do
      let uid ← perform .randomUUID
      let endpoint ← onPlane (startServerForInstance options name)
      persistInstance path uid deletionProtectionEnabled endpoint

def deleteInstanceExclusively (name : JsString) : InstanceScript OperationRecord := do
  let existing ← getExistingInstanceOrThrow name
  if existing.data.deletionProtectionEnabled then
    throw (.memoryStore .failedPrecondition (js "Instance " ++ name ++
      js " has deletion protection enabled and cannot be deleted"))
  else do
    deleteTokenAuthUsersForInstance name
    let _ ← delete .instances name
    onPlane (stopServerForInstance name)
    let path ← liftM (parseInstanceName name)
    createOperation path.project path.location name "delete" "Instance"

/-! ## Token auth users -/

def getExistingTokenAuthUserOrThrow (name : JsString) : InstanceScript Kind.tokenAuthUsers.Row := do
  match ← getByName .tokenAuthUsers name with
  | none => throw (.memoryStore .notFound (js "TokenAuthUser " ++ name ++ js " not found"))
  | some record => pure record

def addTokenAuthUserExclusively (name tokenAuthUser : JsString) : InstanceScript OperationRecord := do
  let existing ← getExistingInstanceOrThrow name
  let path ← liftM (parseInstanceName name)
  let userName := buildTokenAuthUserName ⟨path, extractResourceId tokenAuthUser⟩
  match ← getByName .tokenAuthUsers userName with
  | some _ =>
      throw (.memoryStore .alreadyExists (js "TokenAuthUser " ++ userName ++ js " already exists"))
  | none => do
      let _ ← create .tokenAuthUsers ⟨userName, ⟨name, existing.id⟩⟩
      createOperation path.project path.location userName "addTokenAuthUser" "TokenAuthUser"

def stillHasTokens (name : JsString) (authTokenCount : ℕ) : Thrown :=
  .memoryStore .failedPrecondition (js "TokenAuthUser " ++ name ++ js " still has " ++
    decimal authTokenCount ++ js " auth token(s); retry with force=true to delete them alongside the user")

def deleteTokenAuthUserExclusively (name : JsString) (force : Bool) : InstanceScript OperationRecord := do
  let _ ← getExistingTokenAuthUserOrThrow name
  let authTokenCount ← (perform (.rows (.countTokensOf name)) : InstanceScript ℕ)
  if 0 < authTokenCount ∧ !force then throw (stillHasTokens name authTokenCount)
  else do
    let _ ← deleteAuthTokensForUser name
    let _ ← delete .tokenAuthUsers name
    let path ← liftM (parseTokenAuthUserName name)
    createOperation path.project path.location name "delete" "TokenAuthUser"

/-! ## Auth tokens -/

def addAuthTokenExclusively (tokenAuthUserName authTokenId : JsString) :
    InstanceScript OperationRecord := do
  let existing ← getExistingTokenAuthUserOrThrow tokenAuthUserName
  let path ← liftM (parseTokenAuthUserName tokenAuthUserName)
  let authTokenName := buildAuthTokenName ⟨path, extractResourceId authTokenId⟩
  match ← getByName .authTokens authTokenName with
  | some _ =>
      throw (.memoryStore .alreadyExists (js "AuthToken " ++ authTokenName ++ js " already exists"))
  | none => do
      let token ← perform .randomUUID
      let _ ← create .authTokens ⟨authTokenName, ⟨tokenAuthUserName, token, existing.id⟩⟩
      createOperation path.project path.location authTokenName "addAuthToken" "AuthToken"

def deleteAuthTokenExclusively (name : JsString) (parsedName : AuthTokenPath) :
    InstanceScript OperationRecord := do
  match ← getByName .authTokens name with
  | none => throw (.memoryStore .notFound (js "AuthToken " ++ name ++ js " not found"))
  | some _ => do
      let _ ← delete .authTokens name
      createOperation parsedName.project parsedName.location name "delete" "AuthToken"

/-! ## Requests -/

/-- A request. Of a body that a schema checks it has the outcome: the text, which is not empty, or the
schema's message. -/
inductive InstanceRequest
  | createInstance (path : InstancePath) (deletionProtectionEnabled : Bool)
  | deleteInstance (name : JsString)
  | addTokenAuthUser (name : JsString) (parsed : Except JsString JsString)
  | deleteTokenAuthUser (name : JsString) (force : Bool)
  | addAuthToken (tokenAuthUserName : JsString) (parsed : Except JsString JsString)
  | deleteAuthToken (name : JsString)

/-- What a call does before it takes its turn: it throws, or it has the key of its turn and the rest. -/
def InstanceRequest.call (options : ValkeyProcessManagerOptions) :
    InstanceRequest → Except Thrown (JsString × InstanceScript OperationRecord)
  | .createInstance path deletionProtectionEnabled =>
      if isValidInstanceId path.instanceId then
        .ok (buildInstanceName path, createInstanceExclusively options path deletionProtectionEnabled)
      else .error (invalidInstanceId path.instanceId)
  | .deleteInstance name => .ok (name, deleteInstanceExclusively name)
  | .addTokenAuthUser name parsed =>
      match parsed with
      | .error message =>
          .error (.memoryStore .invalidArgument (js "Invalid addTokenAuthUser request: " ++ message))
      | .ok tokenAuthUser => .ok (name, addTokenAuthUserExclusively name tokenAuthUser)
  | .deleteTokenAuthUser name force => do
      let path ← parseTokenAuthUserName name
      return (buildInstanceName path.toInstancePath, deleteTokenAuthUserExclusively name force)
  | .addAuthToken tokenAuthUserName parsed =>
      match parsed with
      | .error message =>
          .error (.memoryStore .invalidArgument (js "Invalid addAuthToken request: " ++ message))
      | .ok authTokenId => do
          let path ← parseTokenAuthUserName tokenAuthUserName
          return (buildInstanceName path.toInstancePath,
            addAuthTokenExclusively tokenAuthUserName authTokenId)
  | .deleteAuthToken name => do
      let path ← parseAuthTokenName name
      return (buildInstanceName path.toInstancePath, deleteAuthTokenExclusively name path)

/-- The calls under the mutex, each with the key of its turn. -/
def Calls (options : ValkeyProcessManagerOptions) (key : JsString)
    (script : InstanceScript OperationRecord) : Prop :=
  ∃ request : InstanceRequest, request.call options = .ok (key, script)

end Kinglet.Memorystore.Instances
