import Kinglet.Memorystore.ValkeyProcesses
import Kinglet.Storage.Repository

/-!
# Instances and their token auth users

`InstanceService` and `TokenAuthService`: creates and deletes of instances, of the token auth users of an
instance and of the auth tokens of a user. Each await of the storage is an ask here, which may be
rejected, and so are the asks of the data plane. A call checks what it can check at once, and then runs
exclusively among the calls on its instance.
-/

namespace Kinglet.Memorystore.Instances

open Js Library Storage

/-! ## Names -/

structure InstancePath where
  project : JsString
  location : JsString
  instanceId : JsString

structure TokenAuthUserPath extends InstancePath where
  tokenAuthUser : JsString

structure AuthTokenPath extends TokenAuthUserPath where
  authToken : JsString

def buildInstanceName (path : InstancePath) : JsString :=
  buildName ["projects", "locations", "instances"] [path.project, path.location, path.instanceId]

def buildTokenAuthUserName (path : TokenAuthUserPath) : JsString :=
  buildName ["projects", "locations", "instances", "tokenAuthUsers"]
    [path.project, path.location, path.instanceId, path.tokenAuthUser]

def buildAuthTokenName (path : AuthTokenPath) : JsString :=
  buildName ["projects", "locations", "instances", "tokenAuthUsers", "authTokens"]
    [path.project, path.location, path.instanceId, path.tokenAuthUser, path.authToken]

def buildBackupCollectionName (path : InstancePath) : JsString :=
  buildName ["projects", "locations", "backupCollections"] [path.project, path.location, path.instanceId]

def buildMemorystoreOperationName (project location operationId : JsString) : JsString :=
  buildName ["projects", "locations", "operations"] [project, location, operationId]

def invalidName (resource name format : JsString) : Thrown :=
  .error (js "Invalid " ++ resource ++ js " resource name: \"" ++ name ++ js "\". Expected format: " ++
    format)

def instanceFormat : JsString :=
  "projects/\x7bproject\x7d/locations/\x7blocation\x7d/instances/\x7binstance\x7d"

def tokenAuthUserFormat : JsString :=
  instanceFormat ++ js "/tokenAuthUsers/\x7btokenAuthUser\x7d"

def authTokenFormat : JsString := tokenAuthUserFormat ++ js "/authTokens/\x7bauthToken\x7d"

def parseInstanceName (name : JsString) : Except Thrown InstancePath :=
  match parseName ["projects", "locations", "instances"] name with
  | some [project, location, instanceId] => .ok ⟨project, location, instanceId⟩
  | _ => .error (invalidName "instance" name instanceFormat)

def parseTokenAuthUserName (name : JsString) : Except Thrown TokenAuthUserPath :=
  match parseName ["projects", "locations", "instances", "tokenAuthUsers"] name with
  | some [project, location, instanceId, tokenAuthUser] =>
      .ok ⟨⟨project, location, instanceId⟩, tokenAuthUser⟩
  | _ => .error (invalidName "token auth user" name tokenAuthUserFormat)

def parseAuthTokenName (name : JsString) : Except Thrown AuthTokenPath :=
  match parseName ["projects", "locations", "instances", "tokenAuthUsers", "authTokens"] name with
  | some [project, location, instanceId, tokenAuthUser, authToken] =>
      .ok ⟨⟨⟨project, location, instanceId⟩, tokenAuthUser⟩, authToken⟩
  | _ => .error (invalidName "auth token" name authTokenFormat)

def extractResourceId (nameOrId : JsString) : JsString :=
  (splitUnit (unit '/') nameOrId).getLast?.getD nameOrId

/-- `[a-z0-9]`. -/
def isLowerOrDigit (u : UInt16) : Bool := 97 ≤ u && u ≤ 122 || isDigit u

/-- `/^[a-z0-9][a-z0-9-]{2,61}[a-z0-9]$/`. -/
def isValidInstanceId (instanceId : JsString) : Bool :=
  4 ≤ instanceId.length && instanceId.length ≤ 63 &&
    instanceId.all (fun u => isLowerOrDigit u || u = unit '-') &&
    instanceId.head?.any isLowerOrDigit && instanceId.getLast?.any isLowerOrDigit

/-! ## Rows -/

inductive Kind
  | instances
  | tokenAuthUsers
  | authTokens
  deriving DecidableEq

structure InstanceData where
  uid : JsString
  backupCollection : JsString
  discoveryEndpoints : List ValkeyEndpoint
  deletionProtectionEnabled : Bool

/-- `parent` is the row that the call has found, which the source does not keep. -/
structure TokenAuthUserData where
  inInstance : JsString
  parent : ℕ

structure AuthTokenData where
  tokenAuthUser : JsString
  token : JsString
  parent : ℕ

/-- What the rows of a table have beyond their names. -/
abbrev Kind.Data : Kind → Type
  | .instances => InstanceData
  | .tokenAuthUsers => TokenAuthUserData
  | .authTokens => AuthTokenData

/-- What a repository calls its resources. -/
def Kind.label : Kind → JsString
  | .instances => "A Memorystore instance"
  | .tokenAuthUsers => "A token auth user"
  | .authTokens => "An auth token"

abbrev Kind.Row (kind : Kind) := Storage.Row kind.Data

structure BackupCollectionData where
  uid : JsString
  inInstance : JsString
  instanceUid : JsString
deriving DecidableEq

structure OperationRecord where
  name : JsString
  target : JsString
  verb : JsString
  resourceType : JsString
deriving DecidableEq

/-! ## Asks -/

/-- What the repositories of instances, users and tokens ask for. -/
inductive RowsAsk
  | findFirst (kind : Kind) (name : JsString)
  | create (kind : Kind) (row : NewRow kind.Data)
  | deleteById (kind : Kind) (id : ℕ)
  | usersOf (instanceName : JsString)
  | countTokensOf (tokenAuthUser : JsString)
  | deleteTokensOf (tokenAuthUser : JsString)

inductive Ask
  | rows (ask : RowsAsk)
  | findCollection (name : JsString)
  | createCollection (row : NewRow BackupCollectionData)
  | deleteCollectionById (id : ℕ)
  | createOperation (record : OperationRecord)
  | randomUUID
  | plane (ask : PlaneAsk)

abbrev RowsAnswer : RowsAsk → Type
  | .findFirst kind _ => Option kind.Row
  | .create kind _ => kind.Row
  | .deleteById _ _ => Bool
  | .usersOf _ => List Kind.tokenAuthUsers.Row
  | .countTokensOf _ | .deleteTokensOf _ => ℕ

abbrev Answer : Ask → Type
  | .rows ask => RowsAnswer ask
  | .findCollection _ => Option (Row BackupCollectionData)
  | .createCollection _ => Row BackupCollectionData
  | .deleteCollectionById _ => Bool
  | .createOperation _ => OperationRecord
  | .randomUUID => JsString
  | .plane ask => PlaneAnswer ask

abbrev InstanceScript := Script Ask Answer Thrown

def perform (ask : Ask) : InstanceScript (Answer ask) := Script.request ask

/-- What the data plane does within a call. -/
def onPlane {α : Type} (script : PlaneScript α) : InstanceScript α := script.embed .plane fun _ answer => answer

/-! ## The store -/

abbrev Rows := (kind : Kind) → List kind.Row

structure MemoryStore where
  rows : Rows
  collections : List (Row BackupCollectionData)
  operations : List OperationRecord
  nextId : ℕ
  plane : ValkeyPlane

/-- What comes from outside with an ask. The storage may reject one, also a write that it has made: a
second row with a unique name is one of the rejections. -/
structure Outside where
  rejected : Option JsString
  applied : Bool
  uuid : JsString
  plane : PlaneInput

namespace Rows

variable (rows : Rows)

def usersOf (instanceName : JsString) : List Kind.tokenAuthUsers.Row :=
  (rows .tokenAuthUsers).filter fun user => user.data.inInstance = instanceName

def tokensOf (tokenAuthUser : JsString) : List Kind.authTokens.Row :=
  (rows .authTokens).filter fun token => token.data.tokenAuthUser = tokenAuthUser

/-- The rows after an ask that was done, where a new row has the identifier `id`. -/
def written (id : ℕ) : RowsAsk → Rows
  | .create kind row => Function.update rows kind (rows kind ++ [⟨id, row.name, row.data⟩])
  | .deleteById kind id => Function.update rows kind ((rows kind).filter fun row => row.id ≠ id)
  | .deleteTokensOf tokenAuthUser =>
      Function.update rows .authTokens
        ((rows .authTokens).filter fun token => token.data.tokenAuthUser ≠ tokenAuthUser)
  | .findFirst _ _ | .usersOf _ | .countTokensOf _ => rows

def answered (id : ℕ) : (ask : RowsAsk) → RowsAnswer ask
  | .findFirst kind name => (rows kind).find? fun row => row.name = name
  | .create _ row => ⟨id, row.name, row.data⟩
  | .deleteById kind id => (rows kind).any fun row => row.id = id
  | .usersOf instanceName => rows.usersOf instanceName
  | .countTokensOf tokenAuthUser | .deleteTokensOf tokenAuthUser => (rows.tokensOf tokenAuthUser).length

def handle (ask : RowsAsk) (rejected : Option JsString) (applied : Bool) (id : ℕ) :
    Rows × Except Thrown (RowsAnswer ask) :=
  match rejected with
  | some message => (if applied then rows.written id ask else rows, .error (.error message))
  | none => (rows.written id ask, .ok (rows.answered id ask))

end Rows

namespace MemoryStore

def empty : MemoryStore := ⟨fun _ => [], [], [], 0, .empty⟩

variable (store : MemoryStore)

/-- The collections after an ask that was done. -/
def writtenCollections : Ask → List (Row BackupCollectionData)
  | .createCollection row => store.collections ++ [⟨store.nextId, row.name, row.data⟩]
  | .deleteCollectionById id => store.collections.filter fun row => row.id ≠ id
  | _ => store.collections

def writtenOperations : Ask → List OperationRecord
  | .createOperation record => store.operations ++ [record]
  | _ => store.operations

/-- A write of the collections or the operations, and its answer when it is done. -/
def write (ask : Ask) (outside : Outside) (answer : Answer ask) :
    MemoryStore × Except Thrown (Answer ask) :=
  let written : MemoryStore :=
    { store with
      collections := store.writtenCollections ask
      operations := store.writtenOperations ask
      nextId := store.nextId + 1 }
  match outside.rejected with
  | some message => (if outside.applied then written else store, .error (.error message))
  | none => (written, .ok answer)

/-- The state after an ask, and its answer. -/
def handle (ask : Ask) (outside : Outside) : MemoryStore × Except Thrown (Answer ask) :=
  match ask with
  | .rows ask =>
      let (rows, answer) := store.rows.handle ask outside.rejected outside.applied store.nextId
      ({ store with rows := rows, nextId := store.nextId + 1 }, answer)
  | .findCollection name =>
      store.write (.findCollection name) outside (store.collections.find? fun row => row.name = name)
  | .createCollection row =>
      store.write (.createCollection row) outside ⟨store.nextId, row.name, row.data⟩
  | .deleteCollectionById id =>
      store.write (.deleteCollectionById id) outside (store.collections.any fun row => row.id = id)
  | .createOperation record => store.write (.createOperation record) outside record
  | .randomUUID => (store, .ok outside.uuid)
  | .plane ask =>
      let (plane, answer) := store.plane.handle ask outside.plane
      ({ store with plane := plane }, answer)

end MemoryStore

end Kinglet.Memorystore.Instances
