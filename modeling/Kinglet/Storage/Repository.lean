import Kinglet.Js.Text
import Kinglet.Library.Interleaving

/-!
# Repositories of named resources

A repository keeps the rows of one table, each with a name. Every call looks a name up and, after an
await, writes. The in-memory provider does not enforce unique indexes; SQLite does.
-/

namespace Kinglet.Storage

open Js Library

inductive Provider
  | memory
  | sqlite
  deriving DecidableEq

/-- A stored resource: `data` is what a repository's record has beyond its name. -/
structure Row (α : Type*) where
  id : ℕ
  name : JsString
  data : α

/-- The table, in the order of insertion, and the next `randomUUID`. -/
structure Table (α : Type*) where
  rows : List (Row α)
  nextId : ℕ

structure NewRow (α : Type*) where
  name : JsString
  data : α

/-- The fields an update sets: maybe the name, and any others. -/
structure Patch (α : Type*) where
  name : Option JsString
  data : α → α

/-- The errors a call throws, by their class. -/
inductive StorageError
  | error (message : JsString)
  | conflict (message : JsString)
  | storage (message code : JsString)
  deriving DecidableEq

/-- The error of a name that is taken: the repository's own, or the provider's. -/
def StorageError.isAlreadyExists : StorageError → Bool
  | .error _ | .conflict _ => true
  | .storage _ _ => false

inductive Request (α : Type*)
  | create (row : NewRow α)
  | update (name : JsString) (patch : Patch α)
  | delete (name : JsString)

/-- A call in flight, before its first segment or between its lookup and its write. -/
inductive Call (α : Type*)
  | create (row : NewRow α)
  | insert (row : NewRow α)
  | update (name : JsString) (patch : Patch α)
  | updateById (name : JsString) (id : ℕ) (patch : Patch α)
  | delete (name : JsString)
  | deleteById (name : JsString) (id : ℕ)

/-- How a call ended: a create with the id of the record, the others with whether they found one. -/
inductive Outcome
  | created (name : JsString) (result : Except StorageError ℕ)
  | updated (name : JsString) (result : Except StorageError Bool)
  | deleted (name : JsString) (result : Bool)

variable {α : Type*}

namespace Table

def names (table : Table α) : List JsString := table.rows.map Row.name

/-- `getByName(name)`. -/
def getByName (table : Table α) (name : JsString) : Option (Row α) :=
  table.rows.find? fun row => row.name = name

def insert (table : Table α) (row : NewRow α) : Table α :=
  { rows := table.rows ++ [⟨table.nextId, row.name, row.data⟩], nextId := table.nextId + 1 }

/-- `{ ...existing, ...data }`. -/
def patchRow (patch : Patch α) (row : Row α) : Row α :=
  { row with name := patch.name.getD row.name, data := patch.data row.data }

def updateById (table : Table α) (id : ℕ) (patch : Patch α) : Table α :=
  { table with rows := table.rows.map fun row => if row.id = id then patchRow patch row else row }

def deleteById (table : Table α) (id : ℕ) : Table α :=
  { table with rows := table.rows.filter fun row => row.id ≠ id }

def hasId (table : Table α) (id : ℕ) : Bool := table.rows.any fun row => row.id = id

/-- Whether an update would give a row a name that another row has. -/
def violatesUnique (table : Table α) (id : ℕ) (patch : Patch α) : Bool :=
  table.hasId id &&
    match patch.name with
    | none => false
    | some name => table.rows.any fun row => row.id ≠ id && row.name = name

end Table

def Request.begin : Request α → Call α
  | .create row => .create row
  | .update name patch => .update name patch
  | .delete name => .delete name

def nameTaken (label name : JsString) : StorageError :=
  .error (js "A " ++ label ++ js " named \"" ++ name ++ js "\" already exists")

/-- One segment of a call, up to its next await. -/
def segment (provider : Provider) (label : JsString) (table : Table α) :
    Call α → Unit → Table α × Progress (Call α) Outcome
  | .create row, _ =>
      match table.getByName row.name with
      | some _ => (table, .finished (.created row.name (.error (nameTaken label row.name))))
      | none => (table, .pending (.insert row))
  | .insert row, _ =>
      if provider = .sqlite ∧ row.name ∈ table.names then
        (table, .finished (.created row.name (.error (.conflict "Record already exists"))))
      else (table.insert row, .finished (.created row.name (.ok table.nextId)))
  | .update name patch, _ =>
      match table.getByName name with
      | none => (table, .finished (.updated name (.ok false)))
      | some existing => (table, .pending (.updateById name existing.id patch))
  | .updateById name id patch, _ =>
      if provider = .sqlite ∧ table.violatesUnique id patch then
        (table, .finished (.updated name
          (.error (.storage "Failed to update record" "UPDATE_FAILED"))))
      else (table.updateById id patch, .finished (.updated name (.ok (table.hasId id))))
  | .delete name, _ =>
      match table.getByName name with
      | none => (table, .finished (.deleted name false))
      | some existing => (table, .pending (.deleteById name existing.id))
  | .deleteById name id, _ =>
      (table.deleteById id, .finished (.deleted name (table.hasId id)))

/-- The calls of a repository that rejects duplicate names. -/
def repository (provider : Provider) (label : JsString) :
    Async (Table α) (Request α) (Call α) Unit Outcome :=
  ⟨Request.begin, segment provider label⟩

end Kinglet.Storage
