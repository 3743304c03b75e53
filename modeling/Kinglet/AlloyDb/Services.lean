import Kinglet.AlloyDb.Store

/-!
# The AlloyDB services

`ClusterService`, `InstanceService` and `UserService`: every mutation of a cluster, its instances and its
users. A call checks what it can check at once, and then runs exclusively among the calls on its cluster.
-/

namespace Kinglet.AlloyDb

open Js Library Storage

def Thrown.message : Thrown → JsString
  | .alloyDb _ message _ _ => message
  | .error message => message

/-- What a conversion throws that has no result. -/
def conversionThrows : Thrown := .error "No default value"

/-- `String(value)`. -/
def stringOf (value : JsValue) : Except Thrown JsString :=
  match toText value with
  | some text => .ok text
  | none => .error conversionThrows

/-- `Number(value)`. -/
def numberOf : JsValue → Except Thrown Float
  | .undefined => .ok (0 / 0)
  | .null => .ok 0
  | .bool b => .ok (if b then 1 else 0)
  | .num x => .ok x
  | .str s => .ok ((textNumber s).getD (0 / 0))
  | value => do
      let text ← stringOf value
      return (textNumber text).getD (0 / 0)

/-- `typeof value === 'string' && value.length > 0`. -/
def isNonEmptyString : JsValue → Bool
  | .str s => s ≠ []
  | _ => false

/-- The fields of an object or an array, of which the latter has none that is read. -/
def asRecord : JsValue → Option Fields
  | .obj _ fields => some fields
  | .arr _ _ => some []
  | _ => none

/-! ## Clusters -/

namespace ClusterService

def validateClusterId (clusterId : JsString) : Except Thrown Unit :=
  if isValidClusterId clusterId then .ok ()
  else .error (invalidArgument (js "Cluster ID \"" ++ clusterId ++
    js "\" must be 1-63 characters of lowercase letters, numbers, and dashes"))

def validateNetworkConfiguration (body : Fields) : Except Thrown Unit :=
  let configuredNetwork := match asRecord (read body "networkConfig") with
    | some fields => read fields "network"
    | none => .undefined
  let pscEnabled := match asRecord (read body "pscConfig") with
    | some fields => read fields "pscEnabled"
    | none => .undefined
  let hasEnabledPsc := match pscEnabled with
    | .bool b => b
    | _ => false
  if isNonEmptyString (read body "network") || isNonEmptyString configuredNetwork || hasEnabledPsc then
    .ok ()
  else .error (invalidArgument (js "Cluster requires a network: set networkConfig.network, the " ++
    js "deprecated network field, or pscConfig.pscEnabled=true for a PSC-only cluster"))

def validateInitialUser (body : Fields) : Except Thrown Unit :=
  let username := (resolveInitialUser body).1
  if isValidUserId username then .ok ()
  else .error (invalidArgument
    (js "Cluster.initialUser.user \"" ++ username ++ js "\" must not contain \"/\""))

/-- `firstRecord(body, ...keys)`. -/
def firstRecord (body : Fields) (keys : List JsString) : Option Fields :=
  keys.findSome? fun key => asRecord (read body key)

/-- `firstString(record, ...keys)`. -/
def firstString (record : Fields) (keys : List JsString) : Option JsString :=
  keys.findSome? fun key => match read record key with
    | .str s => if s ≠ [] then some s else none
    | _ => none

/-- `value === undefined ? {} : { [name]: value }`. -/
def optionalField (name : JsString) : Option JsString → Fields
  | none => []
  | some value => [(name, .str value)]

/-- One of the sources of a restore: the field that it is stored in, if the request has it. -/
def restoreSource (body : Fields) (keys : List JsString) (field : JsString)
    (values : Fields → Fields) : Fields :=
  match firstRecord body keys with
  | none => []
  | some source => [(field, .obj none (values source))]

/-- `splitRestoreRequest(body)`: the cluster and the sources. -/
def splitRestoreRequest (body : Fields) : Fields × Fields :=
  ((firstRecord body ["cluster"]).getD body,
    restoreSource body
        ["backupSource", "backup_source", "restoreBackupSource", "restore_backup_source"] "backupSource"
        (fun source => optionalField "backupName" (firstString source ["backupName", "backup_name"])) ++
      restoreSource body
        ["continuousBackupSource", "continuous_backup_source", "restoreContinuousBackupSource",
          "restore_continuous_backup_source"] "continuousBackupSource"
        (fun source => optionalField "cluster" (firstString source
            ["cluster", "clusterName", "cluster_name"]) ++
          optionalField "pointInTime" (firstString source ["pointInTime", "point_in_time"])) ++
      restoreSource body
        ["backupdrBackupSource", "backupdr_backup_source", "restoreBackupdrBackupSource",
          "restore_backupdr_backup_source", "restore_backupdr_backup"] "backupdrBackupSource"
        (fun source => optionalField "backup" (firstString source ["backup"])) ++
      restoreSource body
        ["backupdrPitrSource", "backupdr_pitr_source", "restoreBackupdrPitrSource",
          "restore_backupdr_pitr_source"] "backupdrPitrSource"
        (fun source => optionalField "dataSource" (firstString source ["dataSource", "data_source"]) ++
          optionalField "pointInTime" (firstString source ["pointInTime", "point_in_time"])))

/-- The columns that a PATCH writes. -/
structure ClusterUpdates where
  initialUserName : Option (Option JsString)
  spec : Fields

def ClusterUpdates.apply (updates : ClusterUpdates) (now : JsString) (record : ClusterData) :
    ClusterData :=
  { record with
    initialUserName := updates.initialUserName.getD record.initialUserName
    updateTime := now
    spec := storedSpec updates.spec }

def buildClusterUpdates (existing : ClusterData) (body : Fields) (updateMask : Option JsString) :
    Except Thrown ClusterUpdates := do
  let maskedFields ← resolveMaskedFields body mutableClusterFields updateMask
  let updates := maskedFields.foldl (fun updates field =>
    if field = js "initialUser" then { updates with initialUserName := some (readInitialUser body).1 }
    else { updates with spec := writeField clusterEnumFields body field updates.spec })
    (⟨none, existing.spec⟩ : ClusterUpdates)
  validateNetworkConfiguration updates.spec
  return updates

def completeMutation (path : ClusterPath) (name verb : JsString) (validateOnly : Bool)
    (projected : ClusterData) (apply : AlloyScript (Option ClusterRecord)) :
    AlloyScript OperationResponse := do
  if validateOnly then
    buildUnpersistedOperation path name verb "Cluster" (some (clusterRecordToResponse name projected))
  else
    match ← apply with
    | none => throw (notFound "Cluster" name)
    | some applied =>
        createOperation path name verb "Cluster" (some (clusterRecordToResponse applied.name applied.data))

def createInitialUser (path : ClusterPath) (body : Fields) : AlloyScript Unit := do
  let (username, password) := resolveInitialUser body
  let _ ← create .users (userRequestToRecord (buildUserName path username)
    [("password", .str password), ("userType", .str "ALLOYDB_BUILT_IN")])

def createClusterExclusively (path : ClusterPath) (body : Fields) (validateOnly : Bool)
    (verb : JsString) (restoreSources : Fields) : AlloyScript OperationResponse := do
  let name := buildClusterName path
  match ← getByName .clusters name with
  | some _ => throw (alreadyExists "Cluster" name)
  | none =>
      let now ← perform .now
      let uid ← perform .randomUUID
      let requested := clusterRequestToRecord name body now uid
      let record : NewRow ClusterData :=
        if restoreSources = [] then requested
        else
          { requested with
            data :=
              { requested.data with
                spec := storedSpec (setFields requested.data.spec restoreSources) } }
      completeMutation path name verb validateOnly record.data do
        let created ← create .clusters record
        createInitialUser path body
        pure (some created)

def updateClusterExclusively (path : ClusterPath) (body : Fields) (updateMask : Option JsString)
    (allowMissing validateOnly : Bool) : AlloyScript OperationResponse := do
  let name := buildClusterName path
  match ← getByName .clusters name with
  | none =>
      if allowMissing then
        validateClusterId path.clusterId
        validateInitialUser body
        validateNetworkConfiguration body
        createClusterExclusively path body validateOnly "create" []
      else throw (notFound "Cluster" name)
  | some existing =>
      let updates ← buildClusterUpdates existing.data body updateMask
      let now ← perform .now
      completeMutation path name "update" validateOnly (updates.apply now existing.data)
        (update .clusters name (updates.apply now))

def getClusterOrThrow (name : JsString) : AlloyScript ClusterRecord := do
  match ← getByName .clusters name with
  | none => throw (notFound "Cluster" name)
  | some record => pure record

def validateNoBlockingInstances (path : ClusterPath) (force : Bool) : AlloyScript Unit := do
  if force then pure ()
  else
    let childInstances ← countByPrefix .instances (buildInstanceListPrefix path)
    if childInstances > 0 then
      throw (.alloyDb .failedPrecondition (js "Cluster " ++ buildClusterName path ++ js " still has " ++
        decimal childInstances ++
        js " instance(s); set force=true to delete them along with the cluster") none none)
    else pure ()

/-- What a deletion does for a child instance; an endpoint that cannot be dropped stays. -/
def dropChild (path : ClusterPath) (record : InstanceRecord) : AlloyScript Unit := do
  match parseInstanceName record.name with
  | none => pure ()
  | some (location, clusterId, instanceId) =>
      let _ ← Script.attempt (perform
        (.dropInstance (path.project, buildDataPlaneInstanceKey location clusterId instanceId)))

def deleteClusterExclusively (path : ClusterPath) (force validateOnly : Bool) :
    AlloyScript OperationResponse := do
  let name := buildClusterName path
  let _ ← getClusterOrThrow name
  validateNoBlockingInstances path force
  if validateOnly then buildUnpersistedOperation path name "delete" "Cluster" none
  else
    let childInstances ← listAllByPrefix .instances (buildInstanceListPrefix path)
    Script.forEach (dropChild path) childInstances
    let _ ← deleteByPrefix .instances (buildInstanceListPrefix path)
    let _ ← deleteByPrefix .users (buildUserListPrefix path)
    let _ ← delete .clusters name
    createOperation path name "delete" "Cluster" none

end ClusterService

/-- `requireCluster(…)`, which the services of instances and users share. -/
def requireCluster (path : ClusterPath) : AlloyScript Unit := do
  let clusterName := buildClusterName path
  match ← getByName .clusters clusterName with
  | some _ => pure ()
  | none => throw (.alloyDb .notFound (js "Cluster " ++ clusterName ++ js " not found") (some clusterName)
      (some "Cluster"))

/-! ## Instances -/

namespace InstanceService

def validateInstanceIdFormat (instanceId : JsString) : Except Thrown Unit :=
  if isValidInstanceId instanceId then .ok ()
  else .error (invalidArgument (js "Instance ID \"" ++ instanceId ++
    js "\" must be 1-63 characters, start with a lowercase letter, contain only lowercase letters, " ++
    js "digits and dashes, and end alphanumerically"))

def requireInstanceType : JsValue → Except Thrown Unit
  | .undefined => .error (invalidArgument
      (js "Instance.instanceType is required and must be one of " ++ join (js ", ") instanceTypes))
  | _ => .ok ()

def validateInstanceType (instanceType : JsValue) : Except Thrown Unit := do
  if typeOf instanceType = js "undefined" then return
  let normalized ← stringOf (normalizeEnum instanceType instanceTypeEnum)
  if normalized ∈ instanceTypes then return
  let given ← stringOf instanceType
  .error (invalidArgument (js "Instance.instanceType \"" ++ given ++ js "\" must be one of " ++
    join (js ", ") instanceTypes))

/-- The `nodeCount` of a `readPoolConfig`. -/
def readNodeCount (body : Fields) : JsValue :=
  match asRecord (read body "readPoolConfig") with
  | some fields => read fields "nodeCount"
  | none => .undefined

/-- `Number.isInteger(nodeCount) && nodeCount >= 1`. -/
def isNodeCount (nodeCount : Float) : Bool := (intValue nodeCount).any fun n => 1 ≤ n

def validateReadPoolNodeCount (body : Fields) : Except Thrown Unit :=
  match normalizeEnum (read body "instanceType") instanceTypeEnum with
  | .str type =>
      if type = js "READ_POOL" then do
        let nodeCount ← numberOf (readNodeCount body)
        if isNodeCount nodeCount then return
        .error (invalidArgument "READ_POOL instances require readPoolConfig.nodeCount to be at least 1")
      else .ok ()
  | _ => .ok ()

/-- The checks that a creation makes of its arguments. -/
def validateCreate (instanceId : JsString) (body : Fields) : Except Thrown Unit := do
  validateInstanceIdFormat instanceId
  requireInstanceType (read body "instanceType")
  validateInstanceType (read body "instanceType")
  validateReadPoolNodeCount body

/-- The columns that a PATCH writes. -/
structure InstanceUpdates where
  instanceType : Option JsString
  spec : Fields

def InstanceUpdates.apply (updates : InstanceUpdates) (now : JsString) (record : InstanceData) :
    InstanceData :=
  { record with
    instanceType := updates.instanceType.getD record.instanceType
    updateTime := now
    spec := storedSpec updates.spec }

def buildInstanceUpdates (existing : InstanceData) (body : Fields) (updateMask : Option JsString) :
    Except Thrown InstanceUpdates := do
  let maskedFields ← resolveMaskedFields body mutableInstanceFields updateMask
  maskedFields.foldlM (fun updates field =>
    if field = js "instanceType" then
      if hasOwn body "instanceType" then do
        validateInstanceType (read body "instanceType")
        return { updates with
          instanceType := some (stringOr existing.instanceType
            (normalizeEnum (read body "instanceType") instanceTypeEnum)) }
      else .ok updates
    else .ok { updates with spec := writeField instanceEnumFields body field updates.spec })
    (⟨none, existing.spec⟩ : InstanceUpdates)

def validateInstancePlacement (path : ClusterPath) (instanceName instanceType : JsString) :
    AlloyScript Unit := do
  if instanceType = js "SECONDARY" then
    throw (invalidArgument (js "SECONDARY instances are created through instances.createsecondary, " ++
      js "which this emulator does not implement"))
  else
    let clusterName := buildClusterName path
    let instances ← listAllByPrefix .instances (buildInstanceListPrefix path)
    let anotherIsPrimary := instances.any fun record =>
      record.name ≠ instanceName && record.data.instanceType = js "PRIMARY"
    if instanceType = js "PRIMARY" ∧ anotherIsPrimary then
      throw (.alloyDb .failedPrecondition
        (js "Cluster " ++ clusterName ++ js " already has a primary instance") (some clusterName) none)
    else if instanceType = js "READ_POOL" ∧ !anotherIsPrimary then
      throw (.alloyDb .failedPrecondition (js "Cluster " ++ clusterName ++
        js " has no primary instance; a read pool requires an existing primary") (some clusterName) none)
    else pure ()

/-- `rollbackFailedCreate(…)`: what fails in it is logged. -/
def rollbackFailedCreate (key : EndpointKey) (name : JsString) : AlloyScript Unit := do
  let _ ← Script.attempt (perform (.dropInstance key))
  let _ ← Script.attempt (delete .instances name)

def createInstanceExclusively (path : ClusterPath) (instanceId : JsString) (body : Fields)
    (validateOnly : Bool) : AlloyScript OperationResponse := do
  requireCluster path
  let name := buildInstanceName path instanceId
  match ← getByName .instances name with
  | some _ => throw (alreadyExists "Instance" name)
  | none =>
      let instanceType :=
        stringOr "PRIMARY" (normalizeEnum (read body "instanceType") instanceTypeEnum)
      validateInstancePlacement path name instanceType
      let now ← perform .now
      let uid ← perform .randomUUID
      let record := instanceRequestToRecord name body now uid
      if validateOnly then
        buildUnpersistedOperation path name "create" "Instance"
          (some (instanceRecordToResponse name record.data))
      else
        let created ← create .instances record
        let key := (path.project, buildDataPlaneInstanceKey path.location path.clusterId instanceId)
        match ← Script.attempt (perform (.startInstance key)) with
        | .error thrown =>
            rollbackFailedCreate key name
            createFailedOperation path name "create" "Instance"
              ⟨13, js "Failed to start the data plane for " ++ name ++ js ": " ++ thrown.message⟩
        | .ok _ =>
            createOperation path name "create" "Instance"
              (some (instanceRecordToResponse created.name created.data))

def completeMutation (path : ClusterPath) (name verb : JsString) (validateOnly : Bool)
    (projected : InstanceData) (apply : AlloyScript (Option InstanceRecord)) :
    AlloyScript OperationResponse := do
  if validateOnly then
    buildUnpersistedOperation path name verb "Instance" (some (instanceRecordToResponse name projected))
  else
    match ← apply with
    | none => throw (notFound "Instance" name)
    | some applied =>
        createOperation path name verb "Instance"
          (some (instanceRecordToResponse applied.name applied.data))

def updateInstanceExclusively (path : ClusterPath) (instanceId : JsString) (body : Fields)
    (updateMask : Option JsString) (allowMissing validateOnly : Bool) :
    AlloyScript OperationResponse := do
  let name := buildInstanceName path instanceId
  match ← getByName .instances name with
  | none =>
      if allowMissing then
        validateCreate instanceId body
        createInstanceExclusively path instanceId body validateOnly
      else throw (notFound "Instance" name)
  | some existing =>
      let updates ← buildInstanceUpdates existing.data body updateMask
      match updates.instanceType with
      | some instanceType => validateInstancePlacement path name instanceType
      | none => pure ()
      let now ← perform .now
      completeMutation path name "update" validateOnly (updates.apply now existing.data)
        (update .instances name (updates.apply now))

def getInstanceOrThrow (name : JsString) : AlloyScript InstanceRecord := do
  match ← getByName .instances name with
  | none => throw (notFound "Instance" name)
  | some record => pure record

def validatePrimaryHasNoDependentReadPools (path : ClusterPath) (record : InstanceRecord) :
    AlloyScript Unit := do
  if record.data.instanceType ≠ js "PRIMARY" then pure ()
  else
    let instances ← listAllByPrefix .instances (buildInstanceListPrefix path)
    let dependentReadPools := instances.filter fun other =>
      other.name ≠ record.name && other.data.instanceType = js "READ_POOL"
    if dependentReadPools = [] then pure ()
    else
      let clusterName := buildClusterName path
      throw (.alloyDb .failedPrecondition (js "Cluster " ++ clusterName ++
        js " primary cannot be deleted while " ++ decimal dependentReadPools.length ++
        js " read pool(s) depend on it") (some clusterName) none)

def deleteInstanceExclusively (path : ClusterPath) (instanceId : JsString) (validateOnly : Bool) :
    AlloyScript OperationResponse := do
  let name := buildInstanceName path instanceId
  let record ← getInstanceOrThrow name
  validatePrimaryHasNoDependentReadPools path record
  if validateOnly then buildUnpersistedOperation path name "delete" "Instance" none
  else
    perform (.dropInstance
      (path.project, buildDataPlaneInstanceKey path.location path.clusterId instanceId))
    let _ ← delete .instances name
    createOperation path name "delete" "Instance" none

end InstanceService

/-! ## Users -/

namespace UserService

def validateUserId (userId : JsString) : Except Thrown Unit :=
  if isValidUserId userId then .ok ()
  else .error (invalidArgument
    (js "User ID \"" ++ userId ++ js "\" must be non-empty and must not contain \"/\""))

def validateUserType (userType : JsValue) : Except Thrown Unit := do
  if typeOf userType = js "undefined" then return
  let normalized ← stringOf (normalizeEnum userType userTypeEnum)
  if normalized ∈ userTypes then return
  let given ← stringOf userType
  .error (invalidArgument (js "User.userType \"" ++ given ++ js "\" must be one of " ++
    join (js ", ") userTypes))

def userRecordToResponse (name : JsString) (record : UserData) : Except Thrown Fields := do
  let spec ← match read record.spec "databaseRoles" with
    | .arr _ roles => do
        let texts ← roles.mapM stringOf
        return setField "databaseRoles" (.arr none ((texts.insertionSort fun a b =>
          !decide (b < a)).map .str)) record.spec
    | _ => .ok record.spec
  return setFields spec [("name", .str name), ("userType", .str record.userType)]

/-- The columns that a PATCH writes. -/
structure UserUpdates where
  userType : Option JsString
  password : Option JsString
  spec : Fields

def UserUpdates.apply (updates : UserUpdates) (record : UserData) : UserData where
  userType := updates.userType.getD record.userType
  password := updates.password.getD record.password
  spec := storedSpec updates.spec

def buildUserUpdates (existing : UserData) (body : Fields) (updateMask : Option JsString) :
    Except Thrown UserUpdates := do
  let maskedFields ← resolveMaskedFields body mutableUserFields updateMask
  maskedFields.foldlM (fun updates field =>
    if field = js "userType" then
      if hasOwn body "userType" then do
        validateUserType (read body "userType")
        return { updates with
          userType := some (stringOr existing.userType
            (normalizeEnum (read body "userType") userTypeEnum)) }
      else .ok updates
    else if field = js "password" then
      match read body "password" with
      | .str password => .ok { updates with password := some password }
      | _ => .ok updates
    else if field = js "keepExtraRoles" then .ok updates
    else .ok { updates with spec := writeField userEnumFields body field updates.spec })
    (⟨none, none, existing.spec⟩ : UserUpdates)

def createUserExclusively (path : ClusterPath) (userId : JsString) (body : Fields)
    (validateOnly : Bool) : AlloyScript Fields := do
  requireCluster path
  let name := buildUserName path userId
  match ← getByName .users name with
  | some _ => throw (alreadyExists "User" name)
  | none =>
      let record := userRequestToRecord name body
      if validateOnly then userRecordToResponse name record.data
      else
        let created ← create .users record
        userRecordToResponse created.name created.data

def updateUserExclusively (path : ClusterPath) (userId : JsString) (body : Fields)
    (updateMask : Option JsString) (allowMissing validateOnly : Bool) : AlloyScript Fields := do
  let name := buildUserName path userId
  match ← getByName .users name with
  | none =>
      if allowMissing then
        validateUserId userId
        validateUserType (read body "userType")
        createUserExclusively path userId body validateOnly
      else throw (notFound "User" name)
  | some existing =>
      let updates ← buildUserUpdates existing.data body updateMask
      if validateOnly then userRecordToResponse name (updates.apply existing.data)
      else
        match ← update .users name updates.apply with
        | none => throw (notFound "User" name)
        | some applied => userRecordToResponse applied.name applied.data

def deleteUserExclusively (path : ClusterPath) (userId : JsString) (validateOnly : Bool) :
    AlloyScript Unit := do
  let name := buildUserName path userId
  match ← getByName .users name with
  | none => throw (notFound "User" name)
  | some _ =>
      if validateOnly then pure ()
      else
        let _ ← delete .users name

end UserService

/-! ## Requests -/

inductive Request
  | createCluster (path : ClusterPath) (body : Fields) (validateOnly : Bool)
  | restoreCluster (path : ClusterPath) (body : Fields) (validateOnly : Bool)
  | updateCluster (path : ClusterPath) (body : Fields) (updateMask : Option JsString)
      (allowMissing validateOnly : Bool)
  | deleteCluster (path : ClusterPath) (force validateOnly : Bool)
  | createInstance (path : ClusterPath) (instanceId : JsString) (body : Fields) (validateOnly : Bool)
  | updateInstance (path : ClusterPath) (instanceId : JsString) (body : Fields)
      (updateMask : Option JsString) (allowMissing validateOnly : Bool)
  | deleteInstance (path : ClusterPath) (instanceId : JsString) (validateOnly : Bool)
  | createUser (path : ClusterPath) (userId : JsString) (body : Fields) (validateOnly : Bool)
  | updateUser (path : ClusterPath) (userId : JsString) (body : Fields)
      (updateMask : Option JsString) (allowMissing validateOnly : Bool)
  | deleteUser (path : ClusterPath) (userId : JsString) (validateOnly : Bool)

inductive Result
  | operation (operation : OperationResponse)
  | user (user : Fields)
  | empty

namespace Request

/-- The cluster under whose name a call runs exclusively. -/
def path : Request → ClusterPath
  | .createCluster path _ _ | .restoreCluster path _ _ | .updateCluster path _ _ _ _
  | .deleteCluster path _ _ | .createInstance path _ _ _ | .updateInstance path _ _ _ _ _
  | .deleteInstance path _ _ | .createUser path _ _ _ | .updateUser path _ _ _ _ _
  | .deleteUser path _ _ => path

/-- What a call checks at once. -/
def check : Request → Except Thrown Unit
  | .createCluster path body _ => do
      ClusterService.validateClusterId path.clusterId
      ClusterService.validateInitialUser body
      ClusterService.validateNetworkConfiguration body
  | .restoreCluster path body _ => do
      ClusterService.validateClusterId path.clusterId
      ClusterService.validateInitialUser (ClusterService.splitRestoreRequest body).1
      ClusterService.validateNetworkConfiguration (ClusterService.splitRestoreRequest body).1
  | .createInstance _ instanceId body _ => InstanceService.validateCreate instanceId body
  | .createUser _ userId body _ => do
      UserService.validateUserId userId
      UserService.validateUserType (read body "userType")
  | _ => .ok ()

/-- What a call does exclusively. -/
def exclusively : Request → AlloyScript Result
  | .createCluster path body validateOnly =>
      .operation <$> ClusterService.createClusterExclusively path body validateOnly "create" []
  | .restoreCluster path body validateOnly =>
      .operation <$> ClusterService.createClusterExclusively path
        (ClusterService.splitRestoreRequest body).1 validateOnly "restore"
        (ClusterService.splitRestoreRequest body).2
  | .updateCluster path body updateMask allowMissing validateOnly =>
      .operation <$> ClusterService.updateClusterExclusively path body updateMask allowMissing
        validateOnly
  | .deleteCluster path force validateOnly =>
      .operation <$> ClusterService.deleteClusterExclusively path force validateOnly
  | .createInstance path instanceId body validateOnly =>
      .operation <$> InstanceService.createInstanceExclusively path instanceId body validateOnly
  | .updateInstance path instanceId body updateMask allowMissing validateOnly =>
      .operation <$> InstanceService.updateInstanceExclusively path instanceId body updateMask
        allowMissing validateOnly
  | .deleteInstance path instanceId validateOnly =>
      .operation <$> InstanceService.deleteInstanceExclusively path instanceId validateOnly
  | .createUser path userId body validateOnly =>
      .user <$> UserService.createUserExclusively path userId body validateOnly
  | .updateUser path userId body updateMask allowMissing validateOnly =>
      .user <$> UserService.updateUserExclusively path userId body updateMask allowMissing validateOnly
  | .deleteUser path userId validateOnly =>
      (fun _ => .empty) <$> UserService.deleteUserExclusively path userId validateOnly

/-- A whole call. -/
def script (request : Request) : AlloyScript Result := do
  request.check
  request.exclusively

end Request

end Kinglet.AlloyDb
