import Kinglet.Armor.Request
import Kinglet.Gateway.PathParameters
import Kinglet.Gcs.ObjectService
import Kinglet.Storage.Prefix

/-!
# Requests for objects

The routes of Cloud Storage, and what a request to them does: the path and the query of its url, the
route that is selected, the handler with the name that it reads, and the service. Of the handlers for
objects those that insert, get, list, patch and delete one are here, and requests come one at a time.
-/

namespace Kinglet.Gcs

open Js Library Gateway

/-! ## Urls -/

/-- What `url.pathname` tells segments apart by. -/
def lowered (segment : JsString) : JsString :=
  segment.map fun u => if 65 ≤ u && u ≤ 90 then u + 32 else u

def isSingleDot (segment : JsString) : Bool := lowered segment ∈ [js ".", js "%2e"]

def isDoubleDot (segment : JsString) : Bool :=
  lowered segment ∈ [js "..", js ".%2e", js "%2e.", js "%2e%2e"]

/-- The segments of a path without `.` and `..`; the path ends with a slash where one of them was last. -/
def resolveDots (path : List JsString) : List JsString → List JsString
  | [] => path
  | segment :: rest =>
      if isDoubleDot segment then
        resolveDots (path.dropLast ++ if rest = [] then [[]] else []) rest
      else if isSingleDot segment then resolveDots (path ++ if rest = [] then [[]] else []) rest
      else resolveDots (path ++ [segment]) rest

/-- `new URL(request.url).pathname`, for the segments of the url, written in the characters of a path. -/
def urlPathname (segments : List JsString) : JsString :=
  (resolveDots [] segments).flatMap (unit '/' :: ·)

/-- The bytes of a text in which `%XX` stands for a byte. -/
def percentDecode : JsString → List ℕ
  | [] => []
  | 37 :: a :: b :: rest =>
      match hexValue a, hexValue b with
      | some high, some low => (high * 16 + low) :: percentDecode rest
      | _, _ => 37 :: percentDecode (a :: b :: rest)
  | u :: rest => u.toNat :: percentDecode rest

/-- A name or a value in a query. -/
def queryText (text : JsString) : JsString :=
  (decodePoints none (percentDecode (text.map fun u => if u = unit '+' then 32 else u))).flatMap
    fun point => fromCodePoint (point.getD 0xFFFD)

/-- `url.searchParams.entries()`. -/
def searchParams (search : JsString) : List (JsString × JsString) :=
  ((splitUnit (unit '&') search).filter (· ≠ [])).map fun part =>
    (queryText (part.takeWhile (· ≠ unit '=')), queryText ((part.dropWhile (· ≠ unit '=')).drop 1))

/-- One turn of the loop of `parseRequest`, for the value of one key: the empty text is replaced. -/
def addValue (found : Option (List JsString)) (value : JsString) : Option (List JsString) :=
  match found with
  | none | some [[]] => some [value]
  | some values => some (values ++ [value])

/-- `query[key]`: the values that the key was given. -/
def queryValues (query : List (JsString × JsString)) (key : JsString) : Option (List JsString) :=
  ((query.filter fun entry => entry.1 = key).map Prod.snd).foldl addValue none

/-- `query[key]`, where a text is read. -/
def queryValue (query : List (JsString × JsString)) (key : JsString) : Option JsString :=
  (queryValues query key).map (join (js ","))

/-! ## Routes -/

inductive Operation
  | insertObject
  | getObject
  | listObjects
  | deleteObject
  | patchObject
  | other
  deriving DecidableEq

/-- `getRoutes()`. -/
def storageRoutes : List (RouteDefinition Operation) :=
  [⟨js "storage.buckets.insert", .post, js "/storage/v1/b", .other, []⟩,
    ⟨js "storage.buckets.get", .get, js "/storage/v1/b/:bucket", .other, []⟩,
    ⟨js "storage.buckets.list", .get, js "/storage/v1/b", .other, []⟩,
    ⟨js "storage.buckets.delete", .delete, js "/storage/v1/b/:bucket", .other, []⟩,
    ⟨js "storage.buckets.patch", .patch, js "/storage/v1/b/:bucket", .other, []⟩,
    ⟨js "storage.buckets.update", .put, js "/storage/v1/b/:bucket", .other, []⟩,
    ⟨js "storage.objects.insert", .post, js "/upload/storage/v1/b/:bucket/o", .insertObject, []⟩,
    ⟨js "storage.objects.resumable", .put, js "/upload/storage/v1/b/:bucket/o", .other, []⟩,
    ⟨js "storage.objects.get", .get, js "/storage/v1/b/:bucket/o/:object", .getObject, []⟩,
    ⟨js "storage.objects.list", .get, js "/storage/v1/b/:bucket/o", .listObjects, []⟩,
    ⟨js "storage.objects.delete", .delete, js "/storage/v1/b/:bucket/o/:object", .deleteObject, []⟩,
    ⟨js "storage.objects.patch", .patch, js "/storage/v1/b/:bucket/o/:object", .patchObject, []⟩,
    ⟨js "storage.objects.update", .put, js "/storage/v1/b/:bucket/o/:object", .other, []⟩,
    ⟨js "storage.objects.compose", .post, js "/storage/v1/b/:bucket/o/:object/compose", .other, []⟩,
    ⟨js "storage.objects.copy", .post,
      js "/storage/v1/b/:srcBucket/o/:srcObject/copyTo/b/:dstBucket/o/:dstObject", .other, []⟩,
    ⟨js "storage.objects.rewrite", .post,
      js "/storage/v1/b/:srcBucket/o/:srcObject/rewriteTo/b/:dstBucket/o/:dstObject", .other, []⟩]

/-- A router with the routes. -/
def Registered (builtins : Builtins) (router : RequestRouter Operation) : Prop :=
  storageRoutes.foldlM (addRoute builtins defaultRouterConfig) emptyRouter = .ok router

/-! ## The service -/

/-- `(req.body ?? {})` of a patch. -/
structure PatchBody where
  metadata : Option JsValue
  contentType : Option JsString

namespace ObjectStore

variable (store : ObjectStore) (bucket name : JsString)

def objectNotFound : Thrown :=
  .gcs .notFound (js "Object " ++ name ++ js " not found in bucket " ++ bucket)

/-- The record after a patch. -/
def patched (body : PatchBody) (now : ℕ) (record : ObjectRecord) : ObjectRecord :=
  { record with
    metadata := body.metadata.or record.metadata
    contentType := body.contentType.getD record.contentType
    metageneration := record.metageneration + 1
    updated := toISOString now }

/-- `updateById(id, …)`. -/
def updateById (id : ℕ) (record : ObjectRecord) : ObjectStore :=
  { store with rows := store.rows.map fun row => if row.id = id then ⟨id, record⟩ else row }

/-- Without an object and its content. -/
def without (existing : ObjectRow) : ObjectStore :=
  { store with
    rows := store.rows.filter fun row => row.id ≠ existing.id
    blobs := Function.update store.blobs existing.record.blobPath none }

/-- `getObjectMedia(bucket, name)`. -/
def getObjectMedia : Except Thrown (List UInt8 × JsString) :=
  match store.getObject bucket name with
  | none => .error (objectNotFound bucket name)
  | some row =>
      match store.blobs row.record.blobPath with
      | none => .error (.gcs .notFound (js "Object data for " ++ name ++ js " not found"))
      | some data => .ok (data, row.record.contentType)

def patchObject (body : PatchBody) (now : ℕ) : ObjectStore × Except Thrown ObjectResponse :=
  match store.getObject bucket name with
  | none => (store, .error (objectNotFound bucket name))
  | some existing =>
      let record := patched body now existing.record
      (store.updateById existing.id record, objectRecordToResponse record)

def deleteObject : ObjectStore × Except Thrown Unit :=
  match store.getObject bucket name with
  | none => (store, .error (objectNotFound bucket name))
  | some existing => (store.without existing, .ok ())

/-- The objects of a bucket in the order of their names. -/
def listed (provider : Storage.Provider) : List ObjectRow :=
  (store.rows.filter fun row => row.record.bucket = bucket).insertionSort
    fun a b => Storage.nameLe provider a.record.name b.record.name

/-- `listObjects(bucket, { pageToken })`. -/
def listObjects (provider : Storage.Provider) (pageToken : Option JsString) :
    Except Thrown (List ObjectResponse × Option JsString) :=
  if (store.getBucketByName bucket).isNone then
    .error (.gcs .notFound (js "Bucket " ++ bucket ++ js " not found"))
  else do
    let rows := store.listed bucket provider
    let offset := Storage.parseOffsetToken pageToken
    let items ← ((rows.drop offset).take 1000).mapM fun row => objectRecordToResponse row.record
    pure (items, if offset + 1000 < rows.length then some (decimal (offset + 1000)) else none)

end ObjectStore

/-! ## Handlers -/

/-- A request: the segments of its path and the text after the question mark. The data are those of
`extractBodyBytes(req)`. -/
structure HttpRequest where
  method : HttpMethod
  segments : List JsString
  search : JsString
  contentType : Option JsString
  data : List UInt8
  body : PatchBody

inductive Reaction
  | object (response : ObjectResponse)
  | media (data : List UInt8) (contentType : JsString)
  | objects (items : List ObjectResponse) (nextPageToken : Option JsString)
  | noContent
  | failed (thrown : Thrown)
  | noRoute
  | elsewhere

def Reaction.ofObject : Except Thrown ObjectResponse → Reaction
  | .ok response => .object response
  | .error thrown => .failed thrown

/-- The text of a parameter, `''` without one. -/
def paramText (params : List (JsString × JsString)) (name : JsString) : JsString :=
  (param params name).getD []

/-- `parseObjectName(rawName)` -/
def parseObjectName (rawName : JsString) : Except Thrown JsString :=
  match Armor.decodeURIComponent rawName with
  | none => .error (.error "URI error")
  | some name => .ok name

section Serve

variable (sha256 : JsString → JsString) (md5 : List UInt8 → JsString) (provider : Storage.Provider)
  (router : RequestRouter Operation) (inputs : ℕ → Outside) (request : HttpRequest)

/-- The handler of an operation. A list is asked for with a page token at most. -/
def handleOperation (params : List (JsString × JsString)) (store : ObjectStore) :
    Operation → ObjectStore × Reaction
  | .insertObject =>
      let query := searchParams request.search
      if queryValues query (js "uploadType") = some [js "resumable"] then (store, .elsewhere)
      else
        match parseObjectName ((queryValue query (js "name")).getD []) with
        | .error thrown => (store, .failed thrown)
        | .ok name =>
            ((insertObject sha256 md5 (paramText params (js "bucket")) name request.data
              { contentType := some (request.contentType.getD "application/octet-stream") }).play
                objectWorld inputs store).map id Reaction.ofObject
  | .getObject =>
      match parseObjectName (paramText params (js "object")) with
      | .error thrown => (store, .failed thrown)
      | .ok name =>
          let bucket := paramText params (js "bucket")
          if queryValues (searchParams request.search) (js "alt") = some [js "media"] then
            match store.getObjectMedia bucket name with
            | .error thrown => (store, .failed thrown)
            | .ok (data, contentType) => (store, .media data contentType)
          else
            match store.getObject bucket name with
            | none => (store, .failed (ObjectStore.objectNotFound bucket name))
            | some row => (store, .ofObject (objectRecordToResponse row.record))
  | .listObjects =>
      match store.listObjects (paramText params (js "bucket")) provider
          (queryValue (searchParams request.search) (js "pageToken")) with
      | .error thrown => (store, .failed thrown)
      | .ok (items, nextPageToken) => (store, .objects items nextPageToken)
  | .deleteObject =>
      match parseObjectName (paramText params (js "object")) with
      | .error thrown => (store, .failed thrown)
      | .ok name =>
          (store.deleteObject (paramText params (js "bucket")) name).map id fun
            | .ok () => .noContent
            | .error thrown => .failed thrown
  | .patchObject =>
      match parseObjectName (paramText params (js "object")) with
      | .error thrown => (store, .failed thrown)
      | .ok name =>
          (store.patchObject (paramText params (js "bucket")) name request.body (inputs 0).now).map id
            Reaction.ofObject
  | .other => (store, .elsewhere)

/-- `route(request)`. -/
def route (store : ObjectStore) : ObjectStore × Reaction :=
  match findRoute defaultRouterConfig router request.method
      (requestPath defaultRouterConfig (urlPathname request.segments)) with
  | none => (store, .noRoute)
  | some found => handleOperation sha256 md5 provider inputs request found.params store found.route.handler

end Serve

end Kinglet.Gcs
