import Kinglet.Js.Base64
import Kinglet.Js.Time
import Kinglet.Js.Utf8
import Kinglet.Js.Value
import Kinglet.Library.Script
import Kinglet.Shared.Crc32c
import Mathlib.Logic.Function.Basic

/-!
# Objects of Cloud Storage

`ObjectService` over the tables of buckets and objects, and over the files of the blob store. A row of
the table names the file that has the content of the object.

The service awaits the storage and the blob store, and reads the clock; each of these is an ask here.
`sha256` and `md5` are the digests of the runtime.
-/

namespace Kinglet.Gcs

open Js Library

/-! ## Records -/

inductive GcsErrorCode
  | notFound
  | alreadyExists
  | invalidArgument
  | failedPrecondition
  deriving DecidableEq

inductive Thrown
  | gcs (code : GcsErrorCode) (message : JsString)
  | error (message : JsString)
  deriving DecidableEq

/-- The path of a blob: the directory of the bucket, and the two parts of the file's name. -/
structure BlobPath where
  bucket : JsString
  nameHash : JsString
  generation : JsString
  deriving DecidableEq

structure BucketRecord where
  name : JsString
  storageClass : JsString

/-- The column with JSON holds what its text is read back as. -/
structure ObjectRecord where
  bucket : JsString
  name : JsString
  generation : JsString
  metageneration : ℕ
  contentType : JsString
  size : ℕ
  md5Hash : JsString
  crc32c : JsString
  etag : JsString
  storageClass : JsString
  timeCreated : JsString
  updated : JsString
  metadata : Option JsValue
  blobPath : BlobPath
  contentEncoding : Option JsString
  contentDisposition : Option JsString
  contentLanguage : Option JsString
  cacheControl : Option JsString

structure ObjectRow where
  id : ℕ
  record : ObjectRecord

structure ObjectResponse where
  id : JsString
  selfLink : JsString
  mediaLink : JsString
  metageneration : JsString
  size : JsString
  record : ObjectRecord

/-- `value ? … : …`. -/
def isTruthy : JsValue → Bool
  | .undefined | .null => false
  | .bool b => b
  | .num x => !(x == 0 || x.isNaN)
  | .str s => s ≠ []
  | .arr _ _ | .obj _ _ => true

/-- A text that is given, and not empty. -/
def given (text : Option JsString) : Option JsString := text.filter fun s => s ≠ []

/-- `objectRecordToResponse(record)`; the fields that it takes over are those of the record. -/
def objectRecordToResponse (record : ObjectRecord) : Except Thrown ObjectResponse :=
  match encodeURIComponent record.name with
  | none => .error (.error "String contained an illegal UTF-16 sequence.")
  | some name => .ok
      { id := record.bucket ++ js "/" ++ record.name ++ js "/" ++ record.generation
        selfLink := js "https://www.googleapis.com/storage/v1/b/" ++ record.bucket ++ js "/o/" ++ name
        mediaLink := js "https://www.googleapis.com/download/storage/v1/b/" ++ record.bucket ++
          js "/o/" ++ name ++ js "?generation=" ++ record.generation ++ js "&alt=media"
        metageneration := decimal record.metageneration
        size := decimal record.size
        record :=
          { record with
            contentEncoding := given record.contentEncoding
            contentDisposition := given record.contentDisposition
            contentLanguage := given record.contentLanguage
            cacheControl := given record.cacheControl } }

/-! ## The stores -/

/-- The tables, the files, and the counter of the service. -/
structure ObjectStore where
  buckets : List BucketRecord
  rows : List ObjectRow
  blobs : BlobPath → Option (List UInt8)
  generationCounter : ℕ

/-- The first of the rows with the greatest generation, when another one comes. -/
def newer (best : Option ObjectRow) (row : ObjectRow) : Option ObjectRow :=
  match best with
  | none => some row
  | some old => if old.record.generation < row.record.generation then some row else some old

def findObject (rows : List ObjectRow) (bucket name : JsString) : Option ObjectRow :=
  (rows.filter fun row => row.record.bucket = bucket ∧ row.record.name = name).foldl newer none

namespace ObjectStore

variable (store : ObjectStore)

def getBucketByName (bucket : JsString) : Option BucketRecord :=
  store.buckets.find? fun record => record.name = bucket

/-- `ObjectRepository.getObject(bucket, name)`. -/
def getObject (bucket name : JsString) : Option ObjectRow := findObject store.rows bucket name

end ObjectStore

inductive Ask
  | getBucketByName (bucket : JsString)
  | getObject (bucket name : JsString)
  | create (record : ObjectRecord)
  | deleteById (id : ℕ)
  | write (path : BlobPath) (data : List UInt8)
  | retrieve (path : BlobPath)
  | delete (path : BlobPath)
  | count
  | now

abbrev Answer : Ask → Type
  | .getBucketByName _ => Option BucketRecord
  | .getObject _ _ => Option ObjectRow
  | .create _ => ObjectRow
  | .deleteById _ => Bool
  | .write _ _ => Unit
  | .retrieve _ => Option (List UInt8)
  | .delete _ => Bool
  | .count | .now => ℕ

abbrev ObjectScript := Script Ask Answer Thrown

/-- `await` on one ask. -/
def perform (ask : Ask) : ObjectScript (Answer ask) := Script.request ask

/-- Whether an ask is answered at once. -/
def Ask.isLocal : Ask → Bool
  | .count | .now => true
  | _ => false

inductive Reply
  | done
  | rejected (applied : Bool)
  deriving DecidableEq

/-- What comes from outside with an ask: `id` is for a new row, and a write that is rejected may leave
the first `written` bytes. -/
structure Outside where
  reply : Reply
  id : ℕ
  now : ℕ
  written : ℕ

namespace ObjectStore

variable (store : ObjectStore)

/-- The store after an ask that was done. -/
def written (outside : Outside) : Ask → ObjectStore
  | .create record => { store with rows := store.rows ++ [⟨outside.id, record⟩] }
  | .deleteById id => { store with rows := store.rows.filter fun row => row.id ≠ id }
  | .write path data => { store with blobs := Function.update store.blobs path (some data) }
  | .delete path => { store with blobs := Function.update store.blobs path none }
  | .count => { store with generationCounter := store.generationCounter + 1 }
  | _ => store

/-- The store after an ask that was rejected, and made nevertheless. -/
def left (outside : Outside) : Ask → ObjectStore
  | .write path data => store.written outside (.write path (data.take outside.written))
  | ask => store.written outside ask

def answered (outside : Outside) : (ask : Ask) → Answer ask
  | .getBucketByName bucket => store.getBucketByName bucket
  | .getObject bucket name => store.getObject bucket name
  | .create record => (⟨outside.id, record⟩ : ObjectRow)
  | .deleteById id => store.rows.any fun row => row.id = id
  | .write _ _ => ()
  | .retrieve path => store.blobs path
  | .delete path => (store.blobs path).isSome
  | .count => (store.generationCounter + 1 : ℕ)
  | .now => outside.now

def handle (ask : Ask) (outside : Outside) : ObjectStore × Except Thrown (Answer ask) :=
  match outside.reply, ask.isLocal with
  | .rejected applied, false =>
      (if applied then store.left outside ask else store, .error (.error "Storage error"))
  | _, _ => (store.written outside ask, .ok (store.answered outside ask))

end ObjectStore

def objectWorld : World Ask Answer Thrown ObjectStore Outside := ⟨ObjectStore.handle, fun _ _ _ => True⟩

/-! ## The service -/

section Service

variable (sha256 : JsString → JsString) (md5 : List UInt8 → JsString)

structure BlobStoreResult where
  blobPath : BlobPath
  md5Hash : JsString
  crc32c : JsString
  size : ℕ

/-- `setUint32(0, value, false)`. -/
def uint32Bytes (value : ℤ) : List UInt8 :=
  [24, 16, 8, 0].map fun shift => (value.toNat >>> shift).toUInt8

/-- The `crc32c` of `computeHashes(data)`. -/
def crc32cText (data : List UInt8) : JsString :=
  bufferToBase64 (uint32Bytes (Shared.Crc32c.computeCrc32c data))

/-- `BlobStore.store(…)`. -/
def storeBlob (bucket name generation : JsString) (data : List UInt8) : ObjectScript BlobStoreResult := do
  let blobPath : BlobPath := ⟨bucket, sha256 name, generation⟩
  perform (.write blobPath data)
  pure ⟨blobPath, md5 data, crc32cText data, data.length⟩

structure InsertOptions where
  contentType : Option JsString := none
  metadata : Option JsValue := none
  contentEncoding : Option JsString := none
  contentDisposition : Option JsString := none
  contentLanguage : Option JsString := none
  cacheControl : Option JsString := none

/-- `requestToObjectRecord(…)`, with the generation that the service puts in its place. -/
def requestToObjectRecord (bucket name generation : JsString) (stored : BlobStoreResult)
    (storageClass : Option JsString) (options : InsertOptions) (now etag : ℕ) : ObjectRecord where
  bucket := bucket
  name := name
  generation := generation
  metageneration := 1
  contentType := (given options.contentType).getD "application/octet-stream"
  size := stored.size
  md5Hash := stored.md5Hash
  crc32c := stored.crc32c
  etag := js "CL" ++ decimal (etag * 1000) ++ js "="
  storageClass := (given storageClass).getD "STANDARD"
  timeCreated := toISOString now
  updated := toISOString now
  metadata := options.metadata.filter isTruthy
  blobPath := stored.blobPath
  contentEncoding := given options.contentEncoding
  contentDisposition := given options.contentDisposition
  contentLanguage := given options.contentLanguage
  cacheControl := given options.cacheControl

def ensureBucketExists (bucket : JsString) : ObjectScript Unit := do
  match ← perform (.getBucketByName bucket) with
  | none => throw (.gcs .notFound (js "Bucket " ++ bucket ++ js " not found"))
  | some _ => pure ()

/-- `ObjectRepository.deleteObject(bucket, name)`. -/
def deleteRecord (bucket name : JsString) : ObjectScript Bool := do
  match ← perform (.getObject bucket name) with
  | none => pure false
  | some existing => perform (.deleteById existing.id)

/-- The part of `insertObject` that stores the new object. -/
def storeObject (bucket name : JsString) (data : List UInt8) (options : InsertOptions) :
    ObjectScript ObjectResponse := do
  let counter ← perform .count
  let millis ← perform .now
  let generation := decimal (millis * 1000 + counter)
  let stored ← storeBlob sha256 md5 bucket name generation data
  let bucketRecord ← perform (.getBucketByName bucket)
  let now ← perform .now
  let etag ← perform .now
  let row ← perform (.create (requestToObjectRecord bucket name generation stored
    (bucketRecord.map BucketRecord.storageClass) options now etag))
  objectRecordToResponse row.record

def insertObject (bucket name : JsString) (data : List UInt8) (options : InsertOptions) :
    ObjectScript ObjectResponse := do
  ensureBucketExists bucket
  match ← perform (.getObject bucket name) with
  | none => storeObject sha256 md5 bucket name data options
  | some existing =>
      let _ ← perform (.delete existing.record.blobPath)
      let _ ← deleteRecord bucket name
      storeObject sha256 md5 bucket name data options

/-- A source object with its content, as copies and compositions look it up. -/
def readSource (bucket name : JsString) (noObject noData : JsString) :
    ObjectScript (ObjectRecord × List UInt8) := do
  match ← perform (.getObject bucket name) with
  | none => throw (.gcs .notFound noObject)
  | some row =>
      match ← perform (.retrieve row.record.blobPath) with
      | none => throw (.gcs .notFound noData)
      | some data => pure (row.record, data)

def noSource (bucket name : JsString) : JsString :=
  js "Source object " ++ name ++ js " not found in bucket " ++ bucket

def noSourceData (name : JsString) : JsString := js "Source object data for " ++ name ++ js " not found"

def copyObject (srcBucket srcName dstBucket dstName : JsString) : ObjectScript ObjectResponse := do
  ensureBucketExists dstBucket
  let (source, data) ← readSource srcBucket srcName (noSource srcBucket srcName) (noSourceData srcName)
  insertObject sha256 md5 dstBucket dstName data
    { contentType := some source.contentType, metadata := source.metadata }

structure RewriteResponse where
  totalBytesRewritten : JsString
  objectSize : JsString
  done : Bool
  resource : ObjectResponse

def rewriteObject (srcBucket srcName dstBucket dstName : JsString) : ObjectScript RewriteResponse := do
  let resource ← copyObject sha256 md5 srcBucket srcName dstBucket dstName
  pure ⟨resource.size, resource.size, true, resource⟩

/-- What `ComposeRequestSchema` makes of a body: the names of the sources, and the options. -/
structure ComposeRequest where
  sourceObjects : List JsString
  contentType : Option JsString
  metadata : Option JsValue

def readSources (bucket : JsString) : List JsString → ObjectScript (List (List UInt8))
  | [] => pure []
  | name :: names => do
      let (_, data) ← readSource bucket name (noSource bucket name) (noSourceData name)
      let chunks ← readSources bucket names
      pure (data :: chunks)

/-- `composeObjects(bucket, destinationName, body)`, with what the schema says of the body. -/
def composeObjects (bucket destinationName : JsString) (parsed : Except JsString ComposeRequest) :
    ObjectScript ObjectResponse := do
  match parsed with
  | .error message => throw (.gcs .invalidArgument (js "Invalid compose request: " ++ message))
  | .ok request =>
      ensureBucketExists bucket
      let chunks ← readSources bucket request.sourceObjects
      insertObject sha256 md5 bucket destinationName chunks.flatten
        { contentType := request.contentType, metadata := request.metadata }

end Service

/-! ## Steps -/

section Steps

variable {store store' : ObjectStore} {ask : Ask} {outside : Outside} {inputs : ℕ → Outside} {α : Type}
  {bucket name : JsString} {rows : List ObjectRow} {row old existing : ObjectRow}

theorem handle_done (h : outside.reply = .done) :
    store.handle ask outside = (store.written outside ask, .ok (store.answered outside ask)) := by
  rw [ObjectStore.handle, h]

theorem handle_answer {answer : Answer ask} (h : outside.reply = .done)
    (hanswer : store.answered outside ask = answer) :
    store.handle ask outside = (store.written outside ask, .ok answer) := by
  rw [handle_done h, hanswer]

theorem handle_local (h : ask.isLocal = true) :
    store.handle ask outside = (store.written outside ask, .ok (store.answered outside ask)) := by
  rw [ObjectStore.handle, h]
  cases outside.reply <;> rfl

theorem handle_rejected {applied : Bool} (h : outside.reply = .rejected applied)
    (hask : ask.isLocal = false) : store.handle ask outside =
      (if applied then store.left outside ask else store, .error (.error "Storage error")) := by
  rw [ObjectStore.handle, h, hask]

theorem play_ask {answer : Except Thrown (Answer ask)} {go : Except Thrown (Answer ask) → ObjectScript α}
    (h : store.handle ask (inputs 0) = (store', answer)) :
    (Script.ask ask go : ObjectScript α).play objectWorld inputs store =
      (go answer).play objectWorld (fun n => inputs (n + 1)) store' := by
  change (go (store.handle ask (inputs 0)).2).play objectWorld _ (store.handle ask (inputs 0)).1 = _
  rw [h]

/-! ## Rows -/

theorem mem_of_foldl_newer {best : Option ObjectRow} (h : rows.foldl newer best = some row) :
    row ∈ rows ∨ best = some row := by
  induction rows generalizing best with
  | nil => exact .inr h
  | cons next rows ih =>
      rcases ih h with hmem | hnext
      · exact .inl (List.mem_cons_of_mem _ hmem)
      · cases best with
        | none => exact .inl (Option.some.inj hnext ▸ List.mem_cons_self)
        | some old =>
            rw [newer] at hnext
            split at hnext
            · exact .inl (Option.some.inj hnext ▸ List.mem_cons_self)
            · exact .inr hnext

theorem of_findObject (h : findObject rows bucket name = some row) :
    row ∈ rows ∧ row.record.bucket = bucket ∧ row.record.name = name := by
  rcases mem_of_foldl_newer h with hmem | hnone
  · obtain ⟨hrow, hkey⟩ := List.mem_filter.1 hmem
    exact ⟨hrow, of_decide_eq_true hkey⟩
  · cases hnone

theorem findObject_append : findObject (rows ++ [row]) bucket name =
    if row.record.bucket = bucket ∧ row.record.name = name then newer (findObject rows bucket name) row
    else findObject rows bucket name := by
  rw [findObject, List.filter_append, List.foldl_append, List.filter_singleton]
  by_cases hkey : row.record.bucket = bucket ∧ row.record.name = name
  · simp only [hkey, and_self, decide_true, cond_true, List.foldl_cons, List.foldl_nil, if_true]
    rfl
  · simp only [hkey, decide_false, cond_false, List.foldl_nil, if_false]
    rfl

/-- The objects of other names keep their rows. -/
theorem findObject_filter_of_ne (hids : (rows.map ObjectRow.id).Nodup) (hmem : existing ∈ rows)
    (hne : ¬(existing.record.bucket = bucket ∧ existing.record.name = name)) :
    findObject (rows.filter fun row => row.id ≠ existing.id) bucket name =
      findObject rows bucket name := by
  rw [findObject, findObject, List.filter_filter]
  refine congrArg (List.foldl newer none) (List.filter_congr fun row hrow => ?_)
  by_cases hid : row.id = existing.id
  · rw [List.inj_on_of_nodup_map hids hrow hmem hid, decide_eq_false hne, Bool.false_and]
  · rw [decide_eq_true hid, Bool.and_true]

end Steps

end Kinglet.Gcs
