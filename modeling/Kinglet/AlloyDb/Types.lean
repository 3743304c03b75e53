import Kinglet.Js.Time
import Kinglet.Js.Untyped
import Kinglet.Storage.Repository

/-!
# AlloyDB resources

The records of clusters, instances and users, their names, and what the bodies of requests make of them.
A column with JSON holds what its text is read back as.
-/

namespace Kinglet.AlloyDb

open Js Storage

/-! ## Errors -/

inductive AlloyDbErrorCode
  | notFound
  | alreadyExists
  | invalidArgument
  | failedPrecondition
  deriving DecidableEq

/-- What a call throws: an `AlloyDbError`, or another error. -/
inductive Thrown
  | alloyDb (code : AlloyDbErrorCode) (message : JsString) (resourceName resourceType : Option JsString)
  | error (message : JsString)
  deriving DecidableEq

def notFound (label name : JsString) : Thrown :=
  .alloyDb .notFound (label ++ js " " ++ name ++ js " not found") (some name) none

def alreadyExists (label name : JsString) : Thrown :=
  .alloyDb .alreadyExists (label ++ js " " ++ name ++ js " already exists") (some name) none

def invalidArgument (message : JsString) : Thrown := .alloyDb .invalidArgument message none none

/-! ## Names -/

/-- The path of a cluster. -/
structure ClusterPath where
  project : JsString
  location : JsString
  clusterId : JsString
  deriving DecidableEq

def buildClusterName (path : ClusterPath) : JsString :=
  js "projects/" ++ path.project ++ js "/locations/" ++ path.location ++ js "/clusters/" ++ path.clusterId

def buildInstanceListPrefix (path : ClusterPath) : JsString := buildClusterName path ++ js "/instances/"

def buildUserListPrefix (path : ClusterPath) : JsString := buildClusterName path ++ js "/users/"

def buildInstanceName (path : ClusterPath) (instanceId : JsString) : JsString :=
  buildInstanceListPrefix path ++ instanceId

def buildUserName (path : ClusterPath) (userId : JsString) : JsString :=
  buildUserListPrefix path ++ userId

/-- The project, and the key of an instance in it. -/
abbrev EndpointKey := JsString × JsString

def buildDataPlaneInstanceKey (location clusterId instanceId : JsString) : JsString :=
  location ++ js "/" ++ clusterId ++ js "/" ++ instanceId

/-- `parseInstanceName(name)`: the location, the cluster and the instance. -/
def parseInstanceName (name : JsString) : Option (JsString × JsString × JsString) :=
  match splitUnit (unit '/') name with
  | [projects, project, locations, location, clusters, clusterId, instances, instanceId] =>
      if projects = js "projects" ∧ locations = js "locations" ∧ clusters = js "clusters" ∧
          instances = js "instances" ∧ project ≠ [] ∧ location ≠ [] ∧ clusterId ≠ [] ∧ instanceId ≠ [] then
        some (location, clusterId, instanceId)
      else none
  | _ => none

def isLower (u : UInt16) : Bool := 97 ≤ u && u ≤ 122

/-- `[a-z0-9]`. -/
def isLowerOrDigit (u : UInt16) : Bool := isLower u || isDigit u

/-- `[a-z0-9-]`. -/
def isIdUnit (u : UInt16) : Bool := isLowerOrDigit u || u = unit '-'

def isValidClusterId (clusterId : JsString) : Bool :=
  clusterId ≠ [] && clusterId.length ≤ 63 && clusterId.all isIdUnit

def isValidInstanceId : JsString → Bool
  | [] => false
  | first :: rest => isLower first &&
      (rest.isEmpty || rest.length ≤ 62 && rest.all isIdUnit && rest.getLast?.any isLowerOrDigit)

def isValidUserId (userId : JsString) : Bool := userId ≠ [] && !userId.contains (unit '/')

/-! ## Enumerations -/

abbrev EnumNumberMap := List (ℕ × JsString)

def instanceTypeEnum : EnumNumberMap :=
  [(0, "INSTANCE_TYPE_UNSPECIFIED"), (1, "PRIMARY"), (2, "READ_POOL"), (3, "SECONDARY")]

def userTypeEnum : EnumNumberMap :=
  [(0, "USER_TYPE_UNSPECIFIED"), (1, "ALLOYDB_BUILT_IN"), (2, "ALLOYDB_IAM_USER")]

def databaseVersionEnum : EnumNumberMap :=
  [(0, "DATABASE_VERSION_UNSPECIFIED"), (1, "POSTGRES_13"), (2, "POSTGRES_14"), (3, "POSTGRES_15"),
    (4, "POSTGRES_16"), (5, "POSTGRES_17"), (6, "POSTGRES_18")]

def subscriptionTypeEnum : EnumNumberMap :=
  [(0, "SUBSCRIPTION_TYPE_UNSPECIFIED"), (1, "STANDARD"), (2, "TRIAL")]

def availabilityTypeEnum : EnumNumberMap :=
  [(0, "AVAILABILITY_TYPE_UNSPECIFIED"), (1, "ZONAL"), (2, "REGIONAL")]

def activationPolicyEnum : EnumNumberMap :=
  [(0, "ACTIVATION_POLICY_UNSPECIFIED"), (1, "ALWAYS"), (2, "NEVER")]

def dataApiAccessEnum : EnumNumberMap :=
  [(0, "DEFAULT_DATA_API_ENABLED_FOR_GOOGLE_CLOUD_SERVICES"), (1, "DISABLED"), (2, "ENABLED")]

def maintenanceVersionSelectionPolicyEnum : EnumNumberMap :=
  [(0, "MAINTENANCE_VERSION_SELECTION_POLICY_UNSPECIFIED"),
    (1, "MAINTENANCE_VERSION_SELECTION_POLICY_LATEST"),
    (2, "MAINTENANCE_VERSION_SELECTION_POLICY_DEFAULT")]

def clusterEnumFields : List (JsString × EnumNumberMap) :=
  [("databaseVersion", databaseVersionEnum), ("subscriptionType", subscriptionTypeEnum),
    ("maintenanceVersionSelectionPolicy", maintenanceVersionSelectionPolicyEnum)]

def instanceEnumFields : List (JsString × EnumNumberMap) :=
  [("instanceType", instanceTypeEnum), ("availabilityType", availabilityTypeEnum),
    ("activationPolicy", activationPolicyEnum), ("dataApiAccess", dataApiAccessEnum)]

def userEnumFields : List (JsString × EnumNumberMap) := [("userType", userTypeEnum)]

/-- `byNumber[n] ?? value`. -/
def enumName (byNumber : EnumNumberMap) (value : JsValue) (n : ℤ) : JsValue :=
  match byNumber.find? fun entry => (entry.1 : ℤ) = n with
  | some (_, name) => .str name
  | none => value

def normalizeEnum (value : JsValue) (byNumber : EnumNumberMap) : JsValue :=
  match value with
  | .num x =>
      match intValue x with
      | some n => enumName byNumber value n
      | none => value
  | .str s => if s ≠ [] ∧ s.all isDigit then enumName byNumber value (digitsValue s) else value
  | _ => value

def normalizeSpecFieldValue (enumFields : List (JsString × EnumNumberMap)) (field : JsString)
    (value : JsValue) : JsValue :=
  match enumFields.lookup field with
  | none => value
  | some byNumber => normalizeEnum value byNumber

def instanceTypes : List JsString := ["PRIMARY", "READ_POOL", "SECONDARY"]

def userTypes : List JsString := ["ALLOYDB_BUILT_IN", "ALLOYDB_IAM_USER"]

/-- `typeof value === 'string' ? value : fallback`. -/
def stringOr (fallback : JsString) : JsValue → JsString
  | .str s => s
  | _ => fallback

/-! ## Writable fields -/

def mutableClusterFields : List JsString :=
  ["annotations", "automatedBackupPolicy", "continuousBackupConfig", "databaseVersion", "dataplexConfig",
    "displayName", "encryptionConfig", "etag", "initialUser", "labels", "maintenanceUpdatePolicy",
    "maintenanceVersionSelectionPolicy", "network", "networkConfig", "pscConfig", "secondaryConfig",
    "sslConfig", "subscriptionType", "tags"]

def mutableInstanceFields : List JsString :=
  ["activationPolicy", "annotations", "availabilityType", "clientConnectionConfig",
    "connectionPoolConfig", "dataApiAccess", "databaseFlags", "displayName", "etag", "gceZone",
    "instanceType", "labels", "machineConfig", "networkConfig", "observabilityConfig",
    "pscInstanceConfig", "queryInsightsConfig", "readPoolConfig"]

def mutableUserFields : List JsString := ["databaseRoles", "keepExtraRoles", "password", "userType"]

def columnedClusterFields : List JsString := ["initialUser"]

def columnedInstanceFields : List JsString := ["instanceType"]

def columnedUserFields : List JsString := ["userType", "password", "keepExtraRoles"]

/-! ## Records -/

structure ClusterData where
  uid : JsString
  state : JsString
  clusterType : JsString
  initialUserName : Option JsString
  reconciling : ℕ
  createTime : JsString
  updateTime : JsString
  deleteTime : Option JsString
  spec : Fields

structure InstanceData where
  uid : JsString
  state : JsString
  instanceType : JsString
  reconciling : ℕ
  createTime : JsString
  updateTime : JsString
  deleteTime : Option JsString
  spec : Fields

structure UserData where
  userType : JsString
  password : JsString
  spec : Fields

abbrev ClusterRecord := Row ClusterData

abbrev InstanceRecord := Row InstanceData

abbrev UserRecord := Row UserData

/-- `body[field]`. -/
def read (body : Fields) (field : JsString) : JsValue := (ownField body field).getD .undefined

/-- A number of assignments `fields[name] = value`. -/
def setFields (fields values : Fields) : Fields :=
  values.foldl (fun fields entry => setField entry.1 entry.2 fields) fields

/-- `JSON.parse(JSON.stringify(fields))`. -/
def storedSpec (fields : Fields) : Fields := ownEntries (jsonCopyFields fields)

def pickSpecFields (body : Fields) (mutableFields columnedFields : List JsString)
    (enumFields : List (JsString × EnumNumberMap)) : Fields :=
  (ownEntries body).foldl (fun spec entry =>
    if entry.1 ∈ mutableFields ∧ entry.1 ∉ columnedFields then
      setField entry.1 (normalizeSpecFieldValue enumFields entry.1 entry.2) spec
    else spec) []

/-- `readInitialUser(body)`: the username and the password. -/
def readInitialUser (body : Fields) : Option JsString × Option JsString :=
  match read body "initialUser" with
  | .obj _ fields =>
      (match read fields "user" with
        | .str user => if user ≠ [] then some user else none
        | _ => none,
      match read fields "password" with
        | .str password => some password
        | _ => none)
  | _ => (none, none)

def resolveInitialUser (body : Fields) : JsString × JsString :=
  ((readInitialUser body).1.getD "postgres", (readInitialUser body).2.getD [])

/-- `fields[name] ??= value`. -/
def defaultField (name : JsString) (value : JsValue) (fields : Fields) : Fields :=
  if isNullish (read fields name) then setField name value fields else fields

/-- `DEFAULT_CONTINUOUS_BACKUP_CONFIG`. -/
def defaultContinuousBackupConfig : JsValue :=
  .obj none [("enabled", .bool true), ("recoveryWindowDays", .num 14)]

/-- `clusterRequestToRecord(name, body)`, at a time and with an identifier. -/
def clusterRequestToRecord (name : JsString) (body : Fields) (now uid : JsString) :
    NewRow ClusterData where
  name := name
  data :=
    { uid := uid
      state := "READY"
      clusterType := "PRIMARY"
      initialUserName := some (resolveInitialUser body).1
      reconciling := 0
      createTime := now
      updateTime := now
      deleteTime := none
      spec := storedSpec (defaultField "continuousBackupConfig" defaultContinuousBackupConfig
        (defaultField "databaseVersion" (.str "POSTGRES_15")
          (pickSpecFields body mutableClusterFields columnedClusterFields clusterEnumFields))) }

/-- `deleteTime == null ? {} : { deleteTime }`. -/
def deleteTimeField : Option JsString → Fields
  | none => []
  | some deleteTime => [("deleteTime", .str deleteTime)]

/-- What the emulator owns of a cluster, in a response. -/
def clusterFields (name : JsString) (record : ClusterData) : Fields :=
  [("name", .str name), ("uid", .str record.uid), ("state", .str record.state),
    ("clusterType", .str record.clusterType), ("reconciling", .bool (record.reconciling == 1)),
    ("createTime", .str record.createTime), ("updateTime", .str record.updateTime)]

def clusterRecordToResponse (name : JsString) (record : ClusterData) : Fields :=
  setFields record.spec (clusterFields name record ++ deleteTimeField record.deleteTime)

/-- `applyInstanceResponseDefaults(spec)`; a field of an array has no text. -/
def applyInstanceResponseDefaults (spec : Fields) : Fields :=
  let spec := defaultField "connectionPoolConfig" (.obj none [("enabled", .bool false)]) spec
  match read spec "observabilityConfig" with
  | .obj ref config =>
      setField "observabilityConfig" (.obj ref (defaultField "trackWaitEventTypes" (.bool true) config))
        spec
  | _ => spec

def instanceRequestToRecord (name : JsString) (body : Fields) (now uid : JsString) :
    NewRow InstanceData where
  name := name
  data :=
    { uid := uid
      state := "READY"
      instanceType := stringOr "PRIMARY" (normalizeEnum (read body "instanceType") instanceTypeEnum)
      reconciling := 0
      createTime := now
      updateTime := now
      deleteTime := none
      spec := storedSpec (applyInstanceResponseDefaults
        (pickSpecFields body mutableInstanceFields columnedInstanceFields instanceEnumFields)) }

/-- `ADVERTISED_HOST`. -/
def advertisedHost : JsString := "127.0.0.1"

/-- What the emulator owns of an instance, in a response. -/
def instanceFields (name : JsString) (record : InstanceData) : Fields :=
  [("name", .str name), ("uid", .str record.uid), ("state", .str record.state),
    ("instanceType", .str record.instanceType), ("ipAddress", .str advertisedHost),
    ("reconciling", .bool (record.reconciling == 1)), ("createTime", .str record.createTime),
    ("updateTime", .str record.updateTime)]

def instanceRecordToResponse (name : JsString) (record : InstanceData) : Fields :=
  setFields (applyInstanceResponseDefaults record.spec)
    (instanceFields name record ++ deleteTimeField record.deleteTime)

def userRequestToRecord (name : JsString) (body : Fields) : NewRow UserData where
  name := name
  data :=
    { userType := stringOr "ALLOYDB_BUILT_IN" (normalizeEnum (read body "userType") userTypeEnum)
      password := stringOr [] (read body "password")
      spec := storedSpec (pickSpecFields body mutableUserFields columnedUserFields userEnumFields) }

/-! ## Update masks -/

/-- `resolveMaskedFields(body, mutableFields, updateMask)`. -/
def resolveMaskedFields (body : Fields) (mutableFields : List JsString) (updateMask : Option JsString) :
    Except Thrown (List JsString) :=
  let mask := trim (updateMask.getD [])
  if mask = [] then
    .ok (((ownEntries body).map Prod.fst).filter fun field => field ∈ mutableFields)
  else
    (splitUnit (unit ',') (updateMask.getD [])).foldlM (fun rootFields rawPath =>
      let path := trim rawPath
      if path = js "*" then
        .error (invalidArgument
          "Field mask wildcard \"*\" is not supported; specify explicit field paths")
      else
        let rootField := path.takeWhile fun u => u ≠ unit '.'
        if rootField ∉ mutableFields then
          .error (invalidArgument
            (js "Field \"" ++ rootField ++ js "\" is output-only or unknown and cannot be updated"))
        else .ok (if rootField ∈ rootFields then rootFields else rootFields ++ [rootField])) []

/-- What a masked field makes of a specification: the value of the body, or nothing if it has none. -/
def writeField (enumFields : List (JsString × EnumNumberMap)) (body : Fields) (field : JsString)
    (spec : Fields) : Fields :=
  match ownField body field with
  | some value => setField field (normalizeSpecFieldValue enumFields field value) spec
  | none => spec.filter fun entry => entry.1 ≠ field

/-! ## Operations -/

structure OperationMetadata where
  type : JsString
  createTime : JsString
  endTime : JsString
  target : JsString
  verb : JsString
  apiVersion : JsString

structure OperationError where
  code : ℕ
  message : JsString

structure OperationRow where
  name : JsString
  metadata : OperationMetadata
  done : ℕ
  response : Option Fields
  error : Option OperationError

structure OperationResponse where
  name : JsString
  metadata : OperationMetadata
  done : Bool
  response : Option Fields
  error : Option OperationError

def operationRecordToResponse (record : OperationRow) : OperationResponse :=
  ⟨record.name, record.metadata, record.done == 1, record.response, record.error⟩

/-- `buildOperationRow(…)`, at a time and with an identifier. -/
def buildOperationRow (project location target verb resourceType : JsString) (response : Option Fields)
    (error : Option OperationError) (now operationId : JsString) : OperationRow where
  name := js "projects/" ++ project ++ js "/locations/" ++ location ++ js "/operations/" ++ operationId
  metadata :=
    { type := "type.googleapis.com/google.cloud.alloydb.v1.OperationMetadata"
      createTime := now
      endTime := now
      target := target
      verb := verb
      apiVersion := "v1" }
  done := 1
  response :=
    if error.isSome then none
    else response.map fun fields => storedSpec (setFields
      [("@type", .str (js "type.googleapis.com/google.cloud.alloydb.v1." ++ resourceType))] fields)
  error := error

end Kinglet.AlloyDb
