import Kinglet.AlloyDb.Types
import Kinglet.Library.Script
import Kinglet.Storage.Prefix
import Mathlib.Logic.Function.Basic

/-!
# What the AlloyDB services ask for

The services await the storage and the data plane; they also take the time and random identifiers. Each
of these is an ask here, and a function of the source is the script of its asks. An ask of the storage
or the data plane may be rejected.
-/

namespace Kinglet.AlloyDb

open Js Library Storage

/-! ## Tables -/

inductive Kind
  | clusters
  | instances
  | users
  deriving DecidableEq

/-- What the rows of a table have beyond their names. -/
abbrev Kind.Data : Kind → Type
  | clusters => ClusterData
  | instances => InstanceData
  | users => UserData

/-- The `resourceLabel` of a repository. -/
def Kind.label : Kind → JsString
  | clusters => "cluster"
  | instances => "instance"
  | users => "user"

abbrev Kind.Row (kind : Kind) := Storage.Row kind.Data

/-! ## Asks -/

inductive Ask
  | findFirst (kind : Kind) (name : JsString)
  | create (kind : Kind) (row : NewRow kind.Data)
  | updateById (kind : Kind) (id : ℕ) (patch : kind.Data → kind.Data)
  | deleteById (kind : Kind) (id : ℕ)
  | find (kind : Kind) (stem : JsString)
  | count (kind : Kind) (stem : JsString)
  | deleteMany (kind : Kind) (stem : JsString)
  | createOperation (row : OperationRow)
  | startInstance (key : EndpointKey)
  | dropInstance (key : EndpointKey)
  | now
  | randomUUID

abbrev Answer : Ask → Type
  | .findFirst kind _ => Option kind.Row
  | .create kind _ => kind.Row
  | .updateById kind _ _ => Option kind.Row
  | .deleteById _ _ => Bool
  | .find kind _ => List kind.Row
  | .count _ _ => ℕ
  | .deleteMany _ _ => ℕ
  | .createOperation _ => OperationRow
  | .startInstance _ | .dropInstance _ => Unit
  | .now | .randomUUID => JsString

abbrev AlloyScript := Script Ask Answer Thrown

/-- `await` on one ask. -/
def perform (ask : Ask) : AlloyScript (Answer ask) := Script.request ask

/-- Whether an ask is answered at once. -/
def Ask.isLocal : Ask → Bool
  | .now | .randomUUID => true
  | _ => false

/-- What the data plane has of an instance: nothing, its files, or an endpoint. -/
inductive Endpoint
  | absent
  | stopped
  | running
  deriving DecidableEq

/-- How the storage or the data plane answers. -/
inductive Reply
  | done
  | rejected (applied : Bool) (message : JsString)
  deriving DecidableEq

/-- Whether a write is made. -/
def Reply.applied : Reply → Bool
  | .done => true
  | .rejected applied _ => applied

/-- What comes from outside with an ask: `id` is for a new row, and `left` is what a start or a drop that is
rejected leaves. -/
structure Outside where
  reply : Reply
  id : ℕ
  left : Endpoint
  now : ℤ
  uuid : JsString

/-! ## Rows -/

/-- The rows of the tables. -/
abbrev Rows := (kind : Kind) → List kind.Row

namespace Rows

variable (provider : Provider) (rows : Rows)

def table (kind : Kind) : Table kind.Data := ⟨rows kind, 0⟩

def updateRow {kind : Kind} (id : ℕ) (patch : kind.Data → kind.Data) (row : kind.Row) : kind.Row :=
  if row.id = id then { row with data := patch row.data } else row

/-- The rows after an ask that was done. -/
def written (outside : Outside) : Ask → Rows
  | .create kind row =>
      Function.update rows kind (rows kind ++ [⟨outside.id, row.name, row.data⟩])
  | .updateById kind id patch => Function.update rows kind ((rows kind).map (updateRow id patch))
  | .deleteById kind id => Function.update rows kind ((rows kind).filter fun row => row.id ≠ id)
  | .deleteMany kind stem =>
      Function.update rows kind (Storage.deleteByPrefix provider (rows.table kind) stem).1.rows
  | _ => rows

/-- What an ask answers that was done. -/
def answered (outside : Outside) : (ask : Ask) → Answer ask
  | .findFirst kind name => (rows.table kind).getByName name
  | .create kind row => (⟨outside.id, row.name, row.data⟩ : kind.Row)
  | .updateById kind id patch =>
      ((rows kind).find? fun row => row.id = id).map (updateRow id patch)
  | .deleteById kind id => (rows.table kind).hasId id
  | .find kind stem => Storage.listAllByPrefix provider (rows.table kind) stem
  | .count kind stem => Storage.countByPrefix provider (rows.table kind) stem
  | .deleteMany kind stem => (Storage.deleteByPrefix provider (rows.table kind) stem).2
  | .createOperation row => row
  | .startInstance _ | .dropInstance _ => ()
  | .now => toISOString outside.now
  | .randomUUID => outside.uuid

/-- Whether SQLite refuses an ask: the name is taken. -/
def refuses : Ask → Bool
  | .create kind row => provider = .sqlite && row.name ∈ (rows kind).map Storage.Row.name
  | _ => false

/-- The rows after an ask, and its answer. -/
def handle (ask : Ask) (outside : Outside) : Rows × Except Thrown (Answer ask) :=
  if rows.refuses provider ask then (rows, .error (.error "Record already exists"))
  else
    match outside.reply, ask.isLocal with
    | .rejected applied message, false =>
        (if applied then rows.written provider outside ask else rows, .error (.error message))
    | _, _ => (rows.written provider outside ask, .ok (rows.answered provider outside ask))

end Rows

/-! ## The store -/

structure AlloyStore where
  rows : Rows
  operations : List OperationRow
  plane : EndpointKey → Endpoint

namespace AlloyStore

def empty : AlloyStore := ⟨fun _ => [], [], fun _ => .absent⟩

variable (store : AlloyStore)

/-- The operations after an ask. -/
def nextOperations (outside : Outside) : Ask → List OperationRow
  | .createOperation row =>
      if outside.reply.applied then
        store.operations ++ [row]
      else store.operations
  | _ => store.operations

/-- The data plane after an ask. -/
def nextPlane (outside : Outside) : Ask → EndpointKey → Endpoint
  | .startInstance key =>
      Function.update store.plane key (if outside.reply = .done then .running else outside.left)
  | .dropInstance key =>
      Function.update store.plane key (if outside.reply = .done then .absent else outside.left)
  | _ => store.plane

/-- The store after an ask, and its answer. -/
def handle (provider : Provider) (ask : Ask) (outside : Outside) :
    AlloyStore × Except Thrown (Answer ask) :=
  (⟨(store.rows.handle provider ask outside).1, store.nextOperations outside ask,
    store.nextPlane outside ask⟩, (store.rows.handle provider ask outside).2)

end AlloyStore

/-- The storage and the data plane, with inputs of which some are allowed. -/
def alloyWorld (provider : Provider) (allows : AlloyStore → Ask → Outside → Prop) :
    World Ask Answer Thrown AlloyStore Outside := ⟨fun store => store.handle provider, allows⟩

/-! ## Repositories -/

section Repositories

variable (kind : Kind)

def getByName (name : JsString) : AlloyScript (Option kind.Row) := perform (.findFirst kind name)

/-- `create(data)`, which rejects duplicate names. -/
def create (row : NewRow kind.Data) : AlloyScript kind.Row := do
  match ← getByName kind row.name with
  | some _ => throw (.error (js "A " ++ kind.label ++ js " named \"" ++ row.name ++
      js "\" already exists"))
  | none => perform (.create kind row)

def update (name : JsString) (patch : kind.Data → kind.Data) : AlloyScript (Option kind.Row) := do
  match ← getByName kind name with
  | none => pure none
  | some existing => perform (.updateById kind existing.id patch)

def delete (name : JsString) : AlloyScript Bool := do
  match ← getByName kind name with
  | none => pure false
  | some existing => perform (.deleteById kind existing.id)

def listAllByPrefix (stem : JsString) : AlloyScript (List kind.Row) := perform (.find kind stem)

def countByPrefix (stem : JsString) : AlloyScript ℕ := perform (.count kind stem)

def deleteByPrefix (stem : JsString) : AlloyScript ℕ := perform (.deleteMany kind stem)

end Repositories

/-! ## The operations store -/

/-- `buildOperationRow(…)`, with the time and a random identifier. -/
def operationRow (path : ClusterPath) (target verb resourceType : JsString) (response : Option Fields)
    (error : Option OperationError) : AlloyScript OperationRow := do
  let now ← perform .now
  let operationId ← perform .randomUUID
  pure (buildOperationRow path.project path.location target verb resourceType response error now
    operationId)

def createOperation (path : ClusterPath) (target verb resourceType : JsString)
    (response : Option Fields) : AlloyScript OperationResponse := do
  let data ← operationRow path target verb resourceType response none
  let record ← perform (.createOperation data)
  pure (operationRecordToResponse record)

def createFailedOperation (path : ClusterPath) (target verb resourceType : JsString)
    (error : OperationError) : AlloyScript OperationResponse := do
  let data ← operationRow path target verb resourceType none (some error)
  let record ← perform (.createOperation data)
  pure (operationRecordToResponse record)

def buildUnpersistedOperation (path : ClusterPath) (target verb resourceType : JsString)
    (response : Option Fields) : AlloyScript OperationResponse := do
  let row ← operationRow path target verb resourceType response none
  pure (operationRecordToResponse row)

end Kinglet.AlloyDb
