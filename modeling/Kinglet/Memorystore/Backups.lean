import Kinglet.Js.Time
import Kinglet.Library.Custody
import Kinglet.Storage.Repository

/-!
# Backups and their collections

`BackupRepository`: creates and deletes of backups, which await the storage at every read and write.
After its own write each reads the backups of the collection anew and writes the aggregates.
-/

namespace Kinglet.Memorystore

open Js Library Storage

/-! ## Sizes -/

/-- The digits of a number in a base of at most 16. -/
def digitsIn (base : ℕ) (text : JsString) : Option ℕ :=
  if text = [] then none
  else text.foldlM (fun n u => (hexValue u).bind fun digit =>
    if digit < base then some (n * base + digit) else none) 0

/-- `BigInt(text)`, `none` when it throws. -/
def toBigInt (text : JsString) : Option ℤ :=
  match trim text with
  | [] => some 0
  | 45 :: digits => (digitsIn 10 digits).map fun n => -(n : ℤ)
  | 43 :: digits => (digitsIn 10 digits).map Nat.cast
  | 48 :: base :: digits =>
      if base = unit 'x' ∨ base = unit 'X' then (digitsIn 16 digits).map Nat.cast
      else if base = unit 'o' ∨ base = unit 'O' then (digitsIn 8 digits).map Nat.cast
      else if base = unit 'b' ∨ base = unit 'B' then (digitsIn 2 digits).map Nat.cast
      else (digitsIn 10 (48 :: base :: digits)).map Nat.cast
  | digits => (digitsIn 10 digits).map Nat.cast

example : toBigInt "-9223372036854775808" = some (-9223372036854775808) := by decide +kernel
example : toBigInt " 0x1F " = some 31 := by decide +kernel
example : toBigInt "1.5" = none := by decide +kernel

/-- `String(value)` of a BigInt. -/
def bigIntText (value : ℤ) : JsString :=
  if value < 0 then unit '-' :: decimal value.natAbs else decimal value.natAbs

/-- A size, with the value of `BigInt(text || '0')`. -/
structure SizeText where
  text : JsString
  value : ℤ
  reads : toBigInt (if text = [] then js "0" else text) = some value

/-! ## The store -/

structure BackupStats where
  totalBackupCount : ℕ
  totalBackupSizeBytes : JsString
  lastBackupTime : Option JsString
deriving DecidableEq

structure BackupCollectionRecord where
  id : ℕ
  name : JsString
  stats : BackupStats

/-- What `createBackup` is given. -/
structure BackupData where
  name : JsString
  backupCollection : JsString
  totalSizeBytes : SizeText

structure BackupRecord where
  id : ℕ
  name : JsString
  backupCollection : JsString
  totalSizeBytes : SizeText
  createdAt : ℤ

structure BackupStore where
  collections : List BackupCollectionRecord
  backups : List BackupRecord
  nextId : ℕ

namespace BackupStore

variable (store : BackupStore)

def getBackupByName (name : JsString) : Option BackupRecord :=
  store.backups.find? fun backup => backup.name = name

def getBackupCollectionByName (name : JsString) : Option BackupCollectionRecord :=
  store.collections.find? fun collection => collection.name = name

def backupsOf (backupCollection : JsString) : List BackupRecord :=
  store.backups.filter fun backup => backup.backupCollection = backupCollection

/-- `storage.create(MEMORYSTORE_BACKUPS_TABLE, data)`. -/
def insertBackup (data : BackupData) (now : ℤ) : BackupStore :=
  { store with
    backups := store.backups ++
      [⟨store.nextId, data.name, data.backupCollection, data.totalSizeBytes, now⟩]
    nextId := store.nextId + 1 }

def deleteById (id : ℕ) : BackupStore :=
  { store with backups := store.backups.filter fun backup => backup.id ≠ id }

def updateStats (id : ℕ) (stats : BackupStats) : BackupStore :=
  { store with
    collections := store.collections.map fun collection =>
      if collection.id = id then { collection with stats := stats } else collection }

end BackupStore

/-! ## Calls -/

def latestTime (latest : Option JsString) (backup : BackupRecord) : Option JsString :=
  let createTime := toISOString backup.createdAt
  match latest with
  | none => some createTime
  | some latest => some (if latest < createTime then createTime else latest)

/-- The aggregates that `refreshBackupCollectionStats` computes. -/
def statsOf (backups : List BackupRecord) : BackupStats where
  totalBackupCount := backups.length
  totalBackupSizeBytes :=
    bigIntText (backups.foldl (fun total backup => total + backup.totalSizeBytes.value) 0)
  lastBackupTime := backups.foldl latestTime none

inductive BackupRequest where
  | create (data : BackupData)
  | delete (name : JsString)

inductive BackupOutcome where
  | created (name : JsString)
  | deleted (found : Bool)
  | threw (message : JsString)

/-- A call in flight, by the storage operation it awaits next. -/
inductive BackupCall where
  | request (request : BackupRequest)
  | insertBackup (data : BackupData)
  | deleteById (id : ℕ) (backupCollection : JsString)
  | findCollection (name : JsString) (outcome : BackupOutcome)
  | readBackups (id : ℕ) (name : JsString) (outcome : BackupOutcome)
  | updateStats (id : ℕ) (name : JsString) (stats : BackupStats) (outcome : BackupOutcome)

/-- A call's next segment at a time: the storage operation, and the code up to the next. -/
def backupSegment (provider : Provider) (store : BackupStore) (call : BackupCall) (now : ℤ) :
    BackupStore × Progress BackupCall BackupOutcome :=
  match call with
  | .request (.create data) =>
      match store.getBackupByName data.name with
      | some _ =>
          (store, .finished (.threw (js "A backup named \"" ++ data.name ++ js "\" already exists")))
      | none => (store, .pending (.insertBackup data))
  | .insertBackup data =>
      if provider = .sqlite ∧ (store.getBackupByName data.name).isSome then
        (store, .finished (.threw "Record already exists"))
      else
        (store.insertBackup data now,
          .pending (.findCollection data.backupCollection (.created data.name)))
  | .request (.delete name) =>
      match store.getBackupByName name with
      | none => (store, .finished (.deleted false))
      | some existing => (store, .pending (.deleteById existing.id existing.backupCollection))
  | .deleteById id backupCollection =>
      let wasDeleted := store.backups.any fun backup => backup.id = id
      (store.deleteById id, .pending (.findCollection backupCollection (.deleted wasDeleted)))
  | .findCollection name outcome =>
      match store.getBackupCollectionByName name with
      | none => (store, .finished outcome)
      | some collection => (store, .pending (.readBackups collection.id name outcome))
  | .readBackups id name outcome =>
      (store, .pending (.updateStats id name (statsOf (store.backupsOf name)) outcome))
  | .updateStats id _ stats outcome => (store.updateStats id stats, .finished outcome)

/-- The calls of the repository. -/
def backupRepository (provider : Provider) :
    Async BackupStore BackupRequest BackupCall ℤ BackupOutcome where
  begin := .request
  segment := backupSegment provider

end Kinglet.Memorystore
