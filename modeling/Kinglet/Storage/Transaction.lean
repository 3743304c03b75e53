import Kinglet.Storage.Repository

/-!
# Transactions

The in-memory provider works on its tables directly: a rollback runs the rollback operations of the
transaction, and no call registers one. SQLite keeps the tables of the `BEGIN`; its `createMany`
opens a transaction of its own, which fails inside another one and ends it.
-/

namespace Kinglet.Storage.Transactions

open Js

structure Record (α : Type*) where
  id : ℕ
  data : α
  deriving DecidableEq

/-- The tables there are, each with its records in order. -/
abbrev Tables (α : Type*) := JsString → Option (List (Record α))

/-- The calls that write, with the ids that `randomUUID` gives. An update sets fields of a record,
the time among them. -/
inductive Call (α : Type*)
  | create (table : JsString) (record : Record α)
  | createMany (table : JsString) (records : List (Record α))
  | update (table : JsString) (id : ℕ) (patch : α → α)
  | updateMany (table : JsString) (filter : Record α → Bool) (patch : α → α)
  | delete (table : JsString) (id : ℕ)
  | deleteMany (table : JsString) (filter : Record α → Bool)

variable {α : Type*}

namespace Call

def table : Call α → JsString
  | create table _ | createMany table _ | update table _ _ | updateMany table _ _
  | delete table _ | deleteMany table _ => table

/-- What a call makes of the records of its table. -/
def records : Call α → List (Record α) → List (Record α)
  | create _ record, rows => rows ++ [record]
  | createMany _ records, rows => rows ++ records
  | update _ id patch, rows =>
      rows.map fun row => if row.id = id then { row with data := patch row.data } else row
  | updateMany _ filter patch, rows =>
      rows.map fun row => if filter row then { row with data := patch row.data } else row
  | delete _ id, rows => rows.filter fun row => row.id ≠ id
  | deleteMany _ filter, rows => rows.filter fun row => !filter row

/-- The tables after a call. -/
def apply (call : Call α) (tables : Tables α) : Tables α :=
  Function.update tables call.table ((tables call.table).map call.records)

end Call

/-! ## The in-memory provider -/

/-- `getTable(name)`, which throws, and then the call. -/
def memoryCall (tables : Tables α) (call : Call α) : Tables α × Except StorageError Unit :=
  match tables call.table with
  | none => (tables, .error (.storage (js "Table '" ++ call.table ++ js "' not found") "NOT_FOUND"))
  | some _ => (call.apply tables, .ok ())

/-! ## SQLite -/

inductive Violation
  | unique
  | other

inductive SqlError
  | noSuchTable
  | violated (violation : Violation)
  | transaction

/-- The constraints of the schema, as what is wrong with the rows of a table if anything is. -/
abbrev Constraints (α : Type*) := JsString → List (Record α) → Option Violation

/-- A connection: the tables, and in a transaction what they were when it began. -/
structure Connection (α : Type*) where
  tables : Tables α
  saved : Option (Tables α)

namespace Connection

variable (conn : Connection α)

/-- `BEGIN`, which fails inside a transaction. -/
def begin : Option (Connection α) :=
  match conn.saved with
  | none => some { conn with saved := some conn.tables }
  | some _ => none

/-- `COMMIT`, which fails outside of one. -/
def commit : Option (Connection α) :=
  match conn.saved with
  | none => none
  | some _ => some { conn with saved := none }

/-- `ROLLBACK`, which fails outside of one. -/
def rollback : Option (Connection α) :=
  match conn.saved with
  | none => none
  | some tables => some ⟨tables, none⟩

end Connection

/-- One statement, which takes effect as a whole or fails. -/
def statement (constraints : Constraints α) (tables : Tables α) (call : Call α) :
    Except SqlError (Tables α) :=
  match tables call.table with
  | none => .error .noSuchTable
  | some rows =>
      match constraints call.table (call.records rows) with
      | some violation => .error (.violated violation)
      | none => .ok (call.apply tables)

/-- What a call throws for an error of SQLite. -/
def failure : Call α → SqlError → StorageError
  | .create _ _, .violated .unique => .conflict "Record already exists"
  | .create _ _, _ => .storage "Failed to create record" "CREATE_FAILED"
  | .createMany _ _, _ => .storage "Failed to create records" "CREATE_MANY_FAILED"
  | .update _ _ _, _ => .storage "Failed to update record" "UPDATE_FAILED"
  | .updateMany _ _ _, _ => .storage "Failed to update records" "UPDATE_MANY_FAILED"
  | .delete _ _, _ => .storage "Failed to delete record" "DELETE_FAILED"
  | .deleteMany _ _, _ => .storage "Failed to delete records" "DELETE_MANY_FAILED"

/-- The statements of `createMany`, one for each record. -/
def insertAll (constraints : Constraints α) (table : JsString) (tables : Tables α) :
    List (Record α) → Except SqlError (Tables α)
  | [] => .ok tables
  | record :: records =>
      match statement constraints tables (.create table record) with
      | .error error => .error error
      | .ok tables => insertAll constraints table tables records

/-- The `catch` of `createMany`: a `ROLLBACK`, whose own error would take over. -/
def abandonCreateMany (conn : Connection α) (call : Call α) (error : SqlError) :
    Connection α × Except StorageError Unit :=
  match conn.rollback with
  | none => (conn, .error (.error "cannot rollback - no transaction is active"))
  | some conn => (conn, .error (failure call error))

def createMany (constraints : Constraints α) (conn : Connection α) (table : JsString)
    (records : List (Record α)) : Connection α × Except StorageError Unit :=
  match conn.begin with
  | none => abandonCreateMany conn (.createMany table records) .transaction
  | some conn =>
      match insertAll constraints table conn.tables records with
      | .error error => abandonCreateMany conn (.createMany table records) error
      | .ok tables =>
          match { conn with tables := tables }.commit with
          | none => abandonCreateMany { conn with tables := tables } (.createMany table records)
              .transaction
          | some conn => (conn, .ok ())

def sqliteCall (constraints : Constraints α) (conn : Connection α) (call : Call α) :
    Connection α × Except StorageError Unit :=
  match call with
  | .createMany table records => createMany constraints conn table records
  | call =>
      match statement constraints conn.tables call with
      | .error error => (conn, .error (failure call error))
      | .ok tables => ({ conn with tables := tables }, .ok ())

/-! ## `withTransaction` -/

/-- A transaction object; only those of memory have rollback operations. -/
structure Transaction (α : Type*) where
  isActive : Bool
  rollbackOperations : List (Tables α → Tables α)

/-- The body of a transaction: calls, and maybe an error it throws after them. -/
structure Body (α : Type*) where
  calls : List (Call α)
  throws : Option StorageError

section

variable (provider : Provider) (constraints : Constraints α)

def call (conn : Connection α) (call : Call α) : Connection α × Except StorageError Unit :=
  match provider with
  | .memory =>
      let (tables, result) := memoryCall conn.tables call
      ({ conn with tables := tables }, result)
  | .sqlite => sqliteCall constraints conn call

/-- The calls of a body, up to the first that throws. -/
def runCalls (conn : Connection α) : List (Call α) → Connection α × Except StorageError Unit
  | [] => (conn, .ok ())
  | next :: calls =>
      match call provider constraints conn next with
      | (conn, .ok ()) => runCalls conn calls
      | (conn, .error error) => (conn, .error error)

def Body.run (body : Body α) (conn : Connection α) : Connection α × Except StorageError Unit :=
  match runCalls provider constraints conn body.calls, body.throws with
  | (conn, .ok ()), some error => (conn, .error error)
  | result, _ => result

/-- `beginTransaction()`. -/
def beginTransaction (conn : Connection α) : Option (Connection α × Transaction α) :=
  match provider with
  | .memory => some (conn, ⟨true, []⟩)
  | .sqlite => conn.begin.map fun conn => (conn, ⟨true, []⟩)

def Transaction.commit (tx : Transaction α) (conn : Connection α) :
    Connection α × Transaction α × Except StorageError Unit :=
  if !tx.isActive then
    (conn, tx, .error (.storage "Transaction is no longer active" "TRANSACTION_ERROR"))
  else
    match provider with
    | .memory => (conn, ⟨false, []⟩, .ok ())
    | .sqlite =>
        match conn.commit with
        | none => (conn, tx, .error (.storage "Failed to commit transaction" "TRANSACTION_ERROR"))
        | some conn => (conn, { tx with isActive := false }, .ok ())

def Transaction.rollback (tx : Transaction α) (conn : Connection α) :
    Connection α × Transaction α × Except StorageError Unit :=
  if !tx.isActive then (conn, tx, .ok ())
  else
    match provider with
    | .memory =>
        ({ conn with
            tables := tx.rollbackOperations.reverse.foldl (fun tables undo => undo tables)
              conn.tables }, ⟨false, []⟩, .ok ())
    | .sqlite =>
        match conn.rollback with
        | none => (conn, tx, .error (.storage "Failed to rollback transaction" "TRANSACTION_ERROR"))
        | some conn => (conn, { tx with isActive := false }, .ok ())

/-- `execute(fn)`: an error of the body, or of the rollback that follows it, is thrown. -/
def Transaction.execute (tx : Transaction α) (conn : Connection α) (body : Body α) :
    Connection α × Transaction α × Except StorageError Unit :=
  match body.run provider constraints conn with
  | (conn, .ok ()) => (conn, tx, .ok ())
  | (conn, .error error) =>
      match tx.rollback provider conn with
      | (conn, tx, .ok ()) => (conn, tx, .error error)
      | (conn, tx, .error error) => (conn, tx, .error error)

/-- The `catch` of `withTransaction`. -/
def Transaction.abandon (tx : Transaction α) (conn : Connection α) (error : StorageError) :
    Connection α × Except StorageError Unit :=
  match tx.rollback provider conn with
  | (conn, _, .ok ()) => (conn, .error error)
  | (conn, _, .error error) => (conn, .error error)

def withTransaction (tables : Tables α) (body : Body α) : Connection α × Except StorageError Unit :=
  match beginTransaction provider ⟨tables, none⟩ with
  | none => (⟨tables, none⟩, .error (.error "cannot start a transaction within a transaction"))
  | some (conn, tx) =>
      match tx.execute provider constraints conn body with
      | (conn, tx, .error error) => tx.abandon provider conn error
      | (conn, tx, .ok ()) =>
          match tx.commit provider conn with
          | (conn, tx, .error error) => tx.abandon provider conn error
          | (conn, _, .ok ()) => (conn, .ok ())

/-- All or nothing, wherever the body throws: if it returns, all its calls are applied, and
otherwise every table is as before. -/
def Atomic (tables : Tables α) (calls : List (Call α)) : Prop :=
  ∀ count throws, match withTransaction provider constraints tables ⟨calls.take count, throws⟩ with
    | (conn, .ok ()) => conn.tables = (calls.take count).foldl (fun tables call => call.apply tables)
        tables
    | (conn, .error _) => conn.tables = tables

end

/-- The calls applied one after the other. -/
def applyAll (tables : Tables α) (calls : List (Call α)) : Tables α :=
  calls.foldl (fun tables call => call.apply tables) tables

variable {constraints : Constraints α}

/-! ## SQLite -/

/-- The tables of the `BEGIN` are at hand, or in place already. -/
def Recoverable (before : Tables α) (conn : Connection α) : Prop :=
  conn.saved = some before ∨ conn.saved = none ∧ conn.tables = before

/-- How calls end inside a transaction: what they do is done and the transaction is open, or the
tables before it can be had again. -/
def Within (before after : Tables α) : Connection α × Except StorageError Unit → Prop
  | (conn, .ok ()) => conn.saved = some before ∧ conn.tables = after
  | (conn, .error _) => Recoverable before conn

theorem statement_eq_ok {tables tables' : Tables α} {call : Call α}
    (h : statement constraints tables call = .ok tables') : tables' = call.apply tables := by
  unfold statement at h
  split at h
  · cases h
  · split at h
    · cases h
    · exact (Except.ok.inj h).symm

variable (constraints)

theorem sqliteCall_within {before : Tables α} {conn : Connection α} (hopen : conn.saved = some before)
    (call : Call α) :
    Within before (call.apply conn.tables) (sqliteCall constraints conn call) := by
  have hstatement : Within before (call.apply conn.tables)
      (match statement constraints conn.tables call with
        | .error error => (conn, .error (failure call error))
        | .ok tables => ({ conn with tables := tables }, .ok ())) := by
    split
    · exact .inl hopen
    · exact ⟨hopen, statement_eq_ok ‹_›⟩
  cases call with
  | createMany table records =>
      -- the nested `BEGIN` fails, and the `ROLLBACK` that follows ends the transaction
      simp only [sqliteCall, createMany, Connection.begin, hopen, abandonCreateMany,
        Connection.rollback]
      exact .inr ⟨rfl, rfl⟩
  | create | update | updateMany | delete | deleteMany => exact hstatement

theorem runCalls_within {before : Tables α} {conn : Connection α} (hopen : conn.saved = some before)
    (calls : List (Call α)) :
    Within before (applyAll conn.tables calls) (runCalls .sqlite constraints conn calls) := by
  induction calls generalizing conn with
  | nil => exact ⟨hopen, rfl⟩
  | cons next calls ih =>
      have hnext := sqliteCall_within constraints hopen next
      rw [runCalls, call]
      generalize sqliteCall constraints conn next = result at hnext ⊢
      obtain ⟨conn', _ | ⟨⟩⟩ := result
      · exact hnext
      · obtain ⟨hopen', htables⟩ := hnext
        have hrest := ih hopen'
        rw [htables] at hrest
        exact hrest

theorem bodyRun_within {before : Tables α} {conn : Connection α} (hopen : conn.saved = some before)
    (body : Body α) :
    Within before (applyAll conn.tables body.calls) (body.run .sqlite constraints conn) := by
  have hcalls := runCalls_within constraints hopen body.calls
  unfold Body.run
  split
  · rw [‹runCalls _ _ _ _ = _›] at hcalls
    exact .inl hcalls.1
  · exact hcalls

/-- Whatever the body does, SQLite has the tables back when it throws. -/
theorem atomic_sqlite (tables : Tables α) (calls : List (Call α)) :
    Atomic .sqlite constraints tables calls := by
  intro count throws
  have hopen : (Connection.mk tables (some tables)).saved = some tables := rfl
  have hbody := bodyRun_within constraints hopen ⟨calls.take count, throws⟩
  simp only [withTransaction, beginTransaction, Connection.begin, Option.map_some,
    Transaction.execute]
  generalize Body.run .sqlite constraints ⟨calls.take count, throws⟩ ⟨tables, some tables⟩ = result
    at hbody ⊢
  obtain ⟨⟨tables', saved⟩, error | ⟨⟩⟩ := result
  · rcases hbody with hsaved | ⟨hsaved, htables⟩
    · obtain rfl : saved = some tables := hsaved
      rfl
    · obtain rfl : saved = none := hsaved
      exact htables
  · obtain ⟨hsaved, htables⟩ := hbody
    obtain rfl : saved = some tables := hsaved
    exact htables

/-! ## Memory -/

/-- The calls of a body that are made: those before the first that names no table. -/
def reached (tables : Tables α) (calls : List (Call α)) : List (Call α) :=
  calls.takeWhile fun call => (tables call.table).isSome

theorem isSome_apply (call : Call α) (tables : Tables α) (name : JsString) :
    (call.apply tables name).isSome = (tables name).isSome := by
  by_cases hname : name = call.table
  · subst hname
    rw [Call.apply, Function.update_self, Option.isSome_map]
  · rw [Call.apply, Function.update_of_ne hname]

theorem reached_cons {tables : Tables α} {next : Call α} (h : (tables next.table).isSome)
    (calls : List (Call α)) : reached tables (next :: calls) = next :: reached tables calls := by
  simp [reached, h]

theorem reached_cons_of_missing {tables : Tables α} {next : Call α}
    (h : tables next.table = none) (calls : List (Call α)) : reached tables (next :: calls) = [] := by
  simp [reached, h]

theorem reached_apply (next : Call α) (tables : Tables α) (calls : List (Call α)) :
    reached (next.apply tables) calls = reached tables calls := by
  simp only [reached, isSome_apply]

theorem runCalls_memory (conn : Connection α) (calls : List (Call α)) :
    (runCalls .memory constraints conn calls).1.tables =
        applyAll conn.tables (reached conn.tables calls) ∧
      ((runCalls .memory constraints conn calls).2 = .ok () →
        reached conn.tables calls = calls) := by
  induction calls generalizing conn with
  | nil => exact ⟨rfl, fun _ => rfl⟩
  | cons next calls ih =>
      cases hrows : conn.tables next.table with
      | none =>
          simp only [runCalls, call, memoryCall, hrows, reached_cons_of_missing hrows]
          exact ⟨rfl, fun hok => nomatch hok⟩
      | some rows =>
          have hsome : (conn.tables next.table).isSome := by rw [hrows]; rfl
          obtain ⟨htables, hall⟩ := ih { conn with tables := next.apply conn.tables }
          rw [reached_apply] at htables hall
          simp only [runCalls, call, memoryCall, hrows, reached_cons hsome]
          exact ⟨htables, fun hok => congrArg (next :: ·) (hall hok)⟩

/-- In memory a transaction is its body: nothing is undone. -/
theorem withTransaction_memory (tables : Tables α) (body : Body α) :
    withTransaction .memory constraints tables body =
      body.run .memory constraints ⟨tables, none⟩ := by
  simp only [withTransaction, beginTransaction, Transaction.execute]
  generalize body.run .memory constraints ⟨tables, none⟩ = result
  obtain ⟨conn, _ | ⟨⟩⟩ := result <;> rfl

theorem bodyRun_memory (tables : Tables α) (body : Body α) :
    (body.run .memory constraints ⟨tables, none⟩).1.tables =
        applyAll tables (reached tables body.calls) ∧
      ((body.run .memory constraints ⟨tables, none⟩).2 = .ok () →
        reached tables body.calls = body.calls) := by
  obtain ⟨htables, hall⟩ := runCalls_memory constraints ⟨tables, none⟩ body.calls
  unfold Body.run
  split
  · rename_i conn error hcalls hthrows
    rw [hcalls] at htables
    exact ⟨htables, fun hok => nomatch hok⟩
  · exact ⟨htables, hall⟩

/-- A body that is to throw does not return. -/
theorem bodyRun_of_throws (provider : Provider) (conn : Connection α) (calls : List (Call α))
    (error : StorageError) :
    (Body.run provider constraints ⟨calls, some error⟩ conn).2 ≠ .ok () := by
  rw [Body.run]
  generalize runCalls provider constraints conn calls = result
  obtain ⟨conn, _ | ⟨⟩⟩ := result <;> exact fun hok => nomatch hok

theorem applyAll_of_same {tables : Tables α} {calls : List (Call α)}
    (h : ∀ call ∈ calls, call.apply tables = tables) : applyAll tables calls = tables := by
  induction calls with
  | nil => rfl
  | cons next calls ih =>
      obtain ⟨hnext, hrest⟩ := List.forall_mem_cons.1 h
      rw [applyAll, List.foldl_cons, hnext]
      exact ih hrest

theorem reached_take_subset (tables : Tables α) (calls : List (Call α)) (count : ℕ) :
    reached tables (calls.take count) ⊆ reached tables calls := by
  induction calls generalizing count with
  | nil => simp [reached]
  | cons next calls ih =>
      cases count with
      | zero => exact List.nil_subset _
      | succ count =>
          rw [List.take_succ_cons]
          cases hnext : tables next.table with
          | none =>
              rw [reached_cons_of_missing hnext]
              exact List.nil_subset _
          | some rows =>
              have hsome : (tables next.table).isSome := by rw [hnext]; rfl
              rw [reached_cons hsome, reached_cons hsome]
              exact List.cons_subset_cons next (ih count)

/-- If the tables are the same after each prefix, each call leaves them as they are. -/
theorem same_of_prefixes {tables : Tables α} {calls : List (Call α)}
    (h : ∀ count, applyAll tables (reached tables (calls.take count)) = tables) :
    ∀ call ∈ reached tables calls, call.apply tables = tables := by
  induction calls with
  | nil => exact fun call hcall => nomatch hcall
  | cons next calls ih =>
      cases hnext : tables next.table with
      | none =>
          rw [reached_cons_of_missing hnext]
          exact fun call hcall => nomatch hcall
      | some rows =>
          have hsome : (tables next.table).isSome := by rw [hnext]; rfl
          have hfirst : next.apply tables = tables := by
            have hone := h 1
            rwa [List.take_succ_cons, reached_cons hsome] at hone
          rw [reached_cons hsome]
          refine List.forall_mem_cons.2 ⟨hfirst, ih fun count => ?_⟩
          have hmore := h (count + 1)
          rwa [List.take_succ_cons, reached_cons hsome, applyAll, List.foldl_cons, hfirst] at hmore

theorem atomic_memory_iff (tables : Tables α) (calls : List (Call α)) :
    Atomic .memory constraints tables calls ↔
      ∀ call ∈ reached tables calls, call.apply tables = tables := by
  constructor
  · intro h
    refine same_of_prefixes fun count => ?_
    have hthrow := h count (some (.error ""))
    obtain ⟨htables, -⟩ := bodyRun_memory constraints tables
      ⟨calls.take count, some (.error "")⟩
    rw [← htables, ← withTransaction_memory]
    split at hthrow
    · rename_i conn hresult
      rw [withTransaction_memory] at hresult
      exact absurd (congrArg Prod.snd hresult) (bodyRun_of_throws constraints _ _ _ _)
    · rename_i conn error hresult
      rw [hresult]
      exact hthrow
  · intro h count throws
    obtain ⟨htables, hall⟩ := bodyRun_memory constraints tables ⟨calls.take count, throws⟩
    rw [withTransaction_memory]
    split
    · rename_i conn hresult
      rw [hresult] at htables hall
      rw [hall rfl] at htables
      exact htables
    · rename_i conn error hresult
      rw [hresult] at htables
      refine htables.trans (applyAll_of_same fun call hcall => ?_)
      exact h call (reached_take_subset tables calls count hcall)

/-- An empty table. -/
def oneTable : Tables ℕ := fun name => if name = js "t" then some [] else none

end Kinglet.Storage.Transactions
