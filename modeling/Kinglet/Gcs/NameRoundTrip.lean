import Kinglet.Gcs.Copies
import Kinglet.Gcs.ObjectPaths
import Kinglet.Storage.PageWalk

/-!
# The round trip of a name

An object is uploaded with its name in the query, and got, patched and deleted with its name in the path.
The query is decoded by the url and once more by the handler, the path by the handler only. So the name
comes back exactly when it has no percent sign and is neither `.` nor `..` (`roundTrip_iff`).
-/

namespace Kinglet.Gcs

open Js Library Gateway

variable {text name bucket : JsString} {builtins : Builtins}

/-! ## Round trips -/

section RoundTrip

variable (sha256 : JsString → JsString) (md5 : List UInt8 → JsString) (provider : Storage.Provider)
  (router : RequestRouter Operation) (inputs : ℕ → Outside)

/-- The name as it is written in a url. -/
def escapedName (name : JsString) : JsString := (encodeURIComponent name).getD []

def noPatch : PatchBody := ⟨none, none⟩

def uploadRequest (bucket name : JsString) (data : List UInt8) (contentType : Option JsString) :
    HttpRequest where
  method := .post
  segments := js "upload" :: listSegments bucket
  search := js "uploadType=media&name=" ++ escapedName name
  contentType := contentType
  data := data
  body := noPatch

def objectRequest (m : HttpMethod) (bucket name : JsString) (body : PatchBody) : HttpRequest where
  method := m
  segments := objectSegments bucket (escapedName name)
  search := []
  contentType := none
  data := []
  body := body

def listRequest (bucket : JsString) (offset : ℕ) : HttpRequest where
  method := .get
  segments := listSegments bucket
  search := js "pageToken=" ++ escapedName (decimal offset)
  contentType := none
  data := []
  body := noPatch

/-- The requests for the path of a name are about the object that the store has under that name. -/
structure Addressed (after : ObjectStore) (bucket name : JsString) (found : ObjectRow) : Prop where
  held : after.getObject bucket name = some found
  get : ∃ response, objectRecordToResponse found.record = .ok response ∧
    route sha256 md5 provider router inputs (objectRequest .get bucket name noPatch) after =
      (after, .object response)
  patch : ∀ body, ∃ response,
    objectRecordToResponse (ObjectStore.patched body (inputs 0).now found.record) = .ok response ∧
      route sha256 md5 provider router inputs (objectRequest .patch bucket name body) after =
        (after.updateById found.id (ObjectStore.patched body (inputs 0).now found.record), .object response)
  delete : route sha256 md5 provider router inputs (objectRequest .delete bucket name noPatch) after =
    (after.without found, .noContent)

/-- What an upload is followed by: its row has the name, the requests for the path of the name find an
object of that name, which is the new one if there is no other, and a page of the list has it. -/
structure Uploaded (after : ObjectStore) (bucket name : JsString) (row found : ObjectRow)
    (response : ObjectResponse) : Prop where
  stored : row ∈ after.rows ∧ row.record.bucket = bucket ∧ row.record.name = name
  answered : objectRecordToResponse row.record = .ok response
  addressed : Addressed sha256 md5 provider router inputs after bucket name found
  only : (∀ other ∈ after.rows, other.record.bucket = bucket → other.record.name = name → other = row) →
    found = row
  listed : ∃ offset items nextPageToken, response ∈ items ∧
    route sha256 md5 provider router inputs (listRequest bucket offset) after =
      (after, .objects items nextPageToken)

/-- An upload with the name in the query is followed by that. -/
def RoundTrip (store : ObjectStore) (bucket name : JsString) (data : List UInt8)
    (contentType : Option JsString) : Prop :=
  ∃ after row found response,
    route sha256 md5 provider router inputs (uploadRequest bucket name data contentType) store =
        (after, .object response) ∧
      Uploaded sha256 md5 provider router inputs after bucket name row found response

end RoundTrip

section Requests

variable {sha256 : JsString → JsString} {md5 : List UInt8 → JsString} {provider : Storage.Provider}
  {router : RequestRouter Operation} {inputs : ℕ → Outside} {store : ObjectStore} {data : List UInt8}
  {contentType : Option JsString} {request : HttpRequest} {params : List (JsString × JsString)}
  {handler : Operation}

theorem route_of_reaches (request : HttpRequest)
    (h : Reaches router request.method (urlPathname request.segments) handler params) :
    route sha256 md5 provider router inputs request store =
      handleOperation sha256 md5 provider inputs request params store handler := by
  obtain ⟨found, hfound, rfl, rfl⟩ := h
  rw [route, hfound]

theorem escapedName_eq (hname : WellFormed name) : escapedName name = (encode name).flatMap escapeByte := by
  rw [escapedName, encodeURIComponent, if_pos hname, Option.getD_some]

theorem escapedName_spec (hname : WellFormed name) (hne : name ≠ []) :
    encodeURIComponent name = some (escapedName name) ∧ escapedName name ≠ [] ∧
      (∀ u ∈ escapedName name, u ∉ js "/&=+") := by
  rw [escapedName_eq hname]
  refine ⟨if_pos hname, fun hnil => ?_, fun u hu => (mem_escaped (encode_lt name) hu).2⟩
  exact hne (encode_eq_nil (eq_nil_of_lowered (congrArg lowered hnil)))

/-- The escaped name is read as dots for two names only. -/
theorem dots_escapedName (hname : WellFormed name) (hne : name ≠ [])
    (h : isDots (escapedName name) = true) : name = js "." ∨ name = js ".." := by
  have hdecode := decode_encodeURIComponent (escapedName_spec hname hne).1
  rw [escapedName_eq hname] at h hdecode
  rcases dots_of_escaped (encode_lt name) h with heq | heq
  · rw [heq] at hdecode
    exact .inl (Option.some.inj hdecode).symm
  · rw [heq] at hdecode
    exact .inr (Option.some.inj hdecode).symm

theorem searchParams_upload (hname : WellFormed name) (hne : name ≠ []) :
    searchParams (uploadRequest bucket name data contentType).search =
      [(js "uploadType", js "media"), (js "name", name)] := by
  obtain ⟨hencoded, -, hplain⟩ := escapedName_spec hname hne
  have hpairs := searchParams_join [(js "uploadType", js "media"), (js "name", escapedName name)]
    (List.cons_ne_nil _ _) (by
      simp only [List.forall_mem_cons]
      exact ⟨⟨by decide, by decide, by decide⟩,
        ⟨by decide, by decide, fun h => hplain _ h (by decide)⟩, fun _ h => absurd h List.not_mem_nil⟩)
  have hsearch : (uploadRequest bucket name data contentType).search = join [unit '&']
      ([(js "uploadType", js "media"), (js "name", escapedName name)].map fun p => p.1 ++ unit '=' :: p.2) :=
    (List.append_nil _).symm.trans (by rfl)
  rw [hsearch, hpairs, List.map_cons, List.map_cons, List.map_nil, queryText_encoded hencoded]
  rfl

theorem searchParams_list (offset : ℕ) :
    searchParams (listRequest bucket offset).search = [(js "pageToken", decimal offset)] := by
  obtain ⟨hencoded, -, hplain⟩ := escapedName_spec (wellFormed_decimal offset) (decimal_ne_nil offset)
  have hpairs := searchParams_join [(js "pageToken", escapedName (decimal offset))]
    (List.cons_ne_nil _ _) (by
      simp only [List.forall_mem_cons]
      exact ⟨⟨by decide, by decide, fun h => hplain _ h (by decide)⟩, fun _ h => absurd h List.not_mem_nil⟩)
  have hsearch : (listRequest bucket offset).search = join [unit '&']
      ([(js "pageToken", escapedName (decimal offset))].map fun p => p.1 ++ unit '=' :: p.2) :=
    (List.append_nil _).symm.trans (by rfl)
  rw [hsearch, hpairs, List.map_cons, List.map_nil, queryText_encoded hencoded]
  rfl

/-! ## The service -/

theorem name_of_response {record : ObjectRecord} {response : ObjectResponse}
    (h : objectRecordToResponse record = .ok response) : response.record.name = record.name := by
  unfold objectRecordToResponse at h
  split at h
  · cases h
  · obtain rfl := Except.ok.inj h
    rfl

/-- An object is inserted under its name. -/
theorem exists_inserted (sha256 : JsString → JsString) (md5 : List UInt8 → JsString) (name : JsString)
    (data : List UInt8) (hdone : ∀ n, (inputs n).reply = .done) {record : BucketRecord}
    (hbucket : store.getBucketByName bucket = some record) (options : InsertOptions) :
    ∃ after row, (insertObject sha256 md5 bucket name data options).play objectWorld inputs store =
        (after, objectRecordToResponse row.record) ∧
      (row ∈ after.rows ∧ row.record.bucket = bucket ∧ row.record.name = name) ∧
      after.getBucketByName bucket = some record ∧
      ∀ other ∈ after.rows, other ∈ store.rows ∨ other = row := by
  refine ⟨_, newRow sha256 md5 (store.vacated bucket name)
    (fun n => inputs (n + asksBefore store bucket name)) bucket name data options,
    insertObject_done hdone (Option.isSome_of_eq_some hbucket),
    ⟨List.mem_append_right _ (List.mem_singleton_self _), rfl, rfl⟩, ?_, fun other hother => ?_⟩
  · have hbuckets : (store.vacated bucket name).buckets = store.buckets := by
      rw [ObjectStore.vacated]
      split <;> rfl
    exact (congrArg (List.find? _) hbuckets).trans hbucket
  · exact (List.mem_append.1 hother).imp (rows_vacated other) List.mem_singleton.1

theorem exists_foundObject {rows : List ObjectRow} {row : ObjectRow} (hmem : row ∈ rows)
    (hbucket : row.record.bucket = bucket) (hname : row.record.name = name) :
    ∃ found, findObject rows bucket name = some found := by
  have hfold (rows : List ObjectRow) (best : ObjectRow) :
      ∃ found, rows.foldl newer (some best) = some found := by
    induction rows generalizing best with
    | nil => exact ⟨best, rfl⟩
    | cons next rows ih =>
        rw [List.foldl_cons, newer]
        split
        · exact ih next
        · exact ih best
  have hfiltered : row ∈ rows.filter fun row => row.record.bucket = bucket ∧ row.record.name = name :=
    List.mem_filter.2 ⟨hmem, decide_eq_true ⟨hbucket, hname⟩⟩
  unfold findObject
  cases hrows : rows.filter fun row => row.record.bucket = bucket ∧ row.record.name = name with
  | nil =>
      rw [hrows] at hfiltered
      exact absurd hfiltered List.not_mem_nil
  | cons first rest => exact hfold rest first

theorem mapM_responses (rows : List ObjectRow) (h : ∀ row ∈ rows, WellFormed row.record.name) :
    ∃ items, (rows.mapM fun row => objectRecordToResponse row.record) = .ok items ∧
      ∀ row ∈ rows, ∀ response, objectRecordToResponse row.record = .ok response → response ∈ items := by
  induction rows with
  | nil => exact ⟨[], rfl, fun row hrow => absurd hrow List.not_mem_nil⟩
  | cons row rows ih =>
      obtain ⟨hrow, h⟩ := List.forall_mem_cons.1 h
      obtain ⟨items, hitems, hmem⟩ := ih h
      obtain ⟨first, hfirst⟩ := exists_response hrow
      refine ⟨first :: items, ?_, fun other hother response hresponse => ?_⟩
      · rw [List.mapM_cons, hfirst]
        dsimp only [bind, Except.bind]
        rw [hitems]
        rfl
      · rcases List.mem_cons.1 hother with rfl | hother
        · obtain rfl := Except.ok.inj (hfirst.symm.trans hresponse)
          exact List.mem_cons_self
        · exact List.mem_cons_of_mem _ (hmem other hother response hresponse)

/-- Every object of a bucket is on a page of its list. -/
theorem exists_page {row : ObjectRow} {record : BucketRecord} {response : ObjectResponse}
    (hstored : row ∈ store.rows ∧ row.record.bucket = bucket)
    (hbucket : store.getBucketByName bucket = some record)
    (hnames : ∀ row ∈ store.rows, WellFormed row.record.name)
    (hresponse : objectRecordToResponse row.record = .ok response) :
    ∃ offset items nextPageToken, response ∈ items ∧
      store.listObjects bucket provider (some (decimal offset)) = .ok (items, nextPageToken) := by
  have hlisted {other : ObjectRow} : other ∈ store.listed bucket provider ↔
      other ∈ store.rows ∧ other.record.bucket = bucket := by
    rw [ObjectStore.listed, List.mem_insertionSort, List.mem_filter, decide_eq_true_eq]
  obtain ⟨offset, hoffset, hat⟩ := List.getElem_of_mem (hlisted.2 hstored)
  have hpage : row ∈ ((store.listed bucket provider).drop offset).take 1000 := by
    rw [List.drop_eq_getElem_cons hoffset, hat]
    exact List.mem_cons_self
  obtain ⟨items, hitems, hmem⟩ := mapM_responses
    (((store.listed bucket provider).drop offset).take 1000) (by
      intro other hother
      have hother := hlisted.1 (List.mem_of_mem_drop (List.mem_of_mem_take hother))
      exact hnames other hother.1)
  have hlist : ∃ nextPageToken, store.listObjects bucket provider (some (decimal offset)) =
      .ok (items, nextPageToken) := by
    rw [ObjectStore.listObjects, hbucket, Option.isNone_some, if_neg Bool.false_ne_true]
    dsimp only
    rw [Storage.parseOffsetToken_decimal, hitems]
    exact ⟨_, rfl⟩
  obtain ⟨nextPageToken, hlist⟩ := hlist
  exact ⟨offset, items, nextPageToken, hmem row hpage response hresponse, hlist⟩

/-! ## The requests -/

theorem dots_listSegments (hbucket : IsSegment bucket) :
    ∀ segment ∈ listSegments bucket, isDots segment = false := by
  simp only [listSegments, bucketSegments, List.cons_append, List.nil_append, List.forall_mem_cons]
  exact ⟨by decide, by decide, by decide, hbucket.dots, by decide, fun _ h => absurd h List.not_mem_nil⟩

theorem parseObjectName_eq {raw : JsString} (h : Armor.decodeURIComponent raw = some name) :
    parseObjectName raw = .ok name := by
  rw [parseObjectName, h]

/-- An upload decodes the name of the query once more. -/
theorem route_upload (hregistered : Registered builtins router) (hlower : LowersAscii builtins)
    (hbucket : IsSegment bucket) (hname : WellFormed name) (hne : name ≠ []) :
    route sha256 md5 provider router inputs (uploadRequest bucket name data contentType) store =
      match parseObjectName name with
      | .error thrown => (store, .failed thrown)
      | .ok stored =>
          ((insertObject sha256 md5 bucket stored data
            { contentType := some (contentType.getD "application/octet-stream") }).play objectWorld inputs
              store).map id Reaction.ofObject := by
  have hpath : urlPathname (js "upload" :: listSegments bucket) =
      (js "upload" :: listSegments bucket).flatMap (unit '/' :: ·) :=
    urlPathname_plain (List.forall_mem_cons.2 ⟨by decide, dots_listSegments hbucket⟩)
  have hreaches := reaches_upload hregistered hlower hbucket
  rw [← hpath] at hreaches
  refine (route_of_reaches (uploadRequest bucket name data contentType) hreaches).trans ?_
  have hkeys : js "uploadType" ≠ js "name" := by decide
  have htype : queryValues [(js "uploadType", js "media"), (js "name", name)] (js "uploadType") =
      some [js "media"] := by
    simp [queryValues, addValue, hkeys.symm]
  have hvalue : queryValue [(js "uploadType", js "media"), (js "name", name)] (js "name") = some name := by
    simp [queryValue, queryValues, addValue, hkeys, join]
  have hmedia : some [js "media"] ≠ some [js "resumable"] := by decide
  rw [handleOperation, searchParams_upload hname hne, htype, if_neg hmedia, hvalue, params_bucket]
  rfl

theorem reaches_escaped {id : JsString} {m : HttpMethod}
    (hregistered : Registered builtins router) (hlower : LowersAscii builtins) (hbucket : IsSegment bucket)
    (hname : WellFormed name) (hne : name ≠ []) (hdots : name ≠ js "." ∧ name ≠ js "..")
    (hhandler : handler ≠ .other)
    (hroute : (⟨id, m, js "/storage/v1/b/:bucket/o/:object", handler, []⟩ : RouteDefinition Operation) ∈
      storageRoutes) :
    Reaches router m (urlPathname (objectSegments bucket (escapedName name))) handler
      [(js "bucket", bucket), (js "object", escapedName name)] := by
  obtain ⟨-, hescaped, hplain⟩ := escapedName_spec hname hne
  have hname' : isDots (escapedName name) = false := by
    by_contra h
    rcases dots_escapedName hname hne (Bool.not_eq_false _ ▸ h) with heq | heq
    · exact hdots.1 heq
    · exact hdots.2 heq
  have hpath : urlPathname (objectSegments bucket (escapedName name)) =
      (objectSegments bucket (escapedName name)).flatMap (unit '/' :: ·) := by
    refine urlPathname_plain fun segment hsegment => ?_
    rcases List.mem_append.1 hsegment with h | h
    · exact dots_listSegments hbucket segment h
    · rwa [List.mem_singleton.1 h]
  rw [hpath]
  exact reaches_object hregistered hlower hbucket hescaped (fun h => hplain _ h (by decide)) hhandler hroute

/-- A request for an object decodes its name once. -/
theorem route_object {id : JsString} {m : HttpMethod} {body : PatchBody}
    (hregistered : Registered builtins router) (hlower : LowersAscii builtins) (hbucket : IsSegment bucket)
    (hname : WellFormed name) (hne : name ≠ []) (hdots : name ≠ js "." ∧ name ≠ js "..")
    (hhandler : handler ≠ .other)
    (hroute : (⟨id, m, js "/storage/v1/b/:bucket/o/:object", handler, []⟩ : RouteDefinition Operation) ∈
      storageRoutes) :
    route sha256 md5 provider router inputs (objectRequest m bucket name body) store =
      handleOperation sha256 md5 provider inputs (objectRequest m bucket name body)
        [(js "bucket", bucket), (js "object", escapedName name)] store handler :=
  route_of_reaches (objectRequest m bucket name body)
    (reaches_escaped hregistered hlower hbucket hname hne hdots hhandler hroute)

/-- A request to get `.` or `..` is not one for an object. -/
theorem route_dots {body : PatchBody} (hregistered : Registered builtins router)
    (hlower : LowersAscii builtins) (hbucket : IsSegment bucket) (hdots : name = js "." ∨ name = js "..")
    (response : ObjectResponse) :
    (route sha256 md5 provider router inputs (objectRequest .get bucket name body) store).2 ≠
      .object response := by
  have hplain := dots_listSegments hbucket
  rcases hdots with rfl | rfl
  · have hpath : urlPathname (objectSegments bucket (escapedName (js "."))) =
        (listSegments bucket).flatMap (unit '/' :: ·) ++ [unit '/'] := by
      rw [urlPathname, objectSegments, resolveDots_plain hplain]
      exact List.flatMap_append
    have hreaches := (reaches_list hregistered hlower hbucket).2
    rw [← hpath] at hreaches
    rw [route_of_reaches (objectRequest .get bucket (js ".") body) hreaches, handleOperation]
    split
    · exact fun h => by cases h
    · exact fun h => by cases h
  · have hpath : urlPathname (objectSegments bucket (escapedName (js ".."))) =
        (bucketSegments bucket).flatMap (unit '/' :: ·) ++ [unit '/'] := by
      rw [urlPathname, objectSegments, resolveDots_plain hplain]
      exact List.flatMap_append
    have hreaches := reaches_bucket hregistered hlower hbucket
    rw [← hpath] at hreaches
    rw [route_of_reaches (objectRequest .get bucket (js "..") body) hreaches]
    exact fun h => by cases h

/-- An object that the store has is addressed by its name. -/
theorem addressed {after : ObjectStore} {found : ObjectRow} (hregistered : Registered builtins router)
    (hlower : LowersAscii builtins) (hbucket : IsSegment bucket) (hname : WellFormed name) (hne : name ≠ [])
    (hdots : name ≠ js "." ∧ name ≠ js "..") (hfound : after.getObject bucket name = some found) :
    Addressed sha256 md5 provider router inputs after bucket name found := by
  have hparsed : parseObjectName (escapedName name) = .ok name :=
    parseObjectName_eq (decode_encodeURIComponent (escapedName_spec hname hne).1)
  have hparams := params_object bucket (escapedName name)
  have hrecord : WellFormed found.record.name := (of_findObject hfound).2.2 ▸ hname
  constructor
  · exact hfound
  · obtain ⟨response, hresponse⟩ := exists_response hrecord
    refine ⟨response, hresponse, ?_⟩
    have halt : ¬queryValues (searchParams []) (js "alt") = some [js "media"] := by decide +kernel
    rw [route_object hregistered hlower hbucket hname hne hdots (by decide)
      (List.mem_of_getElem? (i := 8) rfl), handleOperation, hparams.1, hparams.2, hparsed]
    dsimp only
    rw [show (objectRequest .get bucket name noPatch).search = [] from rfl, if_neg halt, hfound]
    dsimp only
    rw [hresponse]
    rfl
  · intro body
    obtain ⟨response, hresponse⟩ :=
      @exists_response (ObjectStore.patched body (inputs 0).now found.record) hrecord
    refine ⟨response, hresponse, ?_⟩
    rw [route_object hregistered hlower hbucket hname hne hdots (by decide)
      (List.mem_of_getElem? (i := 11) rfl), handleOperation, hparams.1, hparams.2, hparsed]
    dsimp only
    rw [ObjectStore.patchObject, hfound]
    dsimp only
    rw [show (objectRequest .patch bucket name body).body = body from rfl, hresponse]
    rfl
  · rw [route_object hregistered hlower hbucket hname hne hdots (by decide)
      (List.mem_of_getElem? (i := 10) rfl), handleOperation, hparams.1, hparams.2, hparsed]
    dsimp only
    rw [ObjectStore.deleteObject, hfound]
    rfl

/-- **A name makes the round trip** exactly when it has no percent sign and is neither `.` nor `..`: an
upload decodes it twice, and these two are no segments of a path. -/
theorem roundTrip_iff (sha256 : JsString → JsString) (md5 : List UInt8 → JsString)
    (provider : Storage.Provider) (builtins : Builtins) (router : RequestRouter Operation)
    (inputs : ℕ → Outside) (store : ObjectStore) (bucket name : JsString) (data : List UInt8)
    (contentType : Option JsString) (hlower : LowersAscii builtins) (hregistered : Registered builtins router)
    (hbucket : IsSegment bucket) (hexists : (store.getBucketByName bucket).isSome = true)
    (hnames : ∀ row ∈ store.rows, WellFormed row.record.name) (hdone : ∀ n, (inputs n).reply = .done)
    (hname : WellFormed name) (hne : name ≠ []) :
    RoundTrip sha256 md5 provider router inputs store bucket name data contentType ↔
      unit '%' ∉ name ∧ name ≠ js "." ∧ name ≠ js ".." := by
  obtain ⟨record, hrecord⟩ := Option.isSome_iff_exists.1 hexists
  constructor
  · rintro ⟨after, row, found, response, hupload, h⟩
    have hdots : ¬(name = js "." ∨ name = js "..") := by
      intro hdots
      obtain ⟨other, -, hget⟩ := h.addressed.get
      exact route_dots hregistered hlower hbucket hdots other (congrArg Prod.snd hget)
    refine ⟨?_, not_or.1 hdots⟩
    rw [route_upload hregistered hlower hbucket hname hne] at hupload
    cases hdecode : Armor.decodeURIComponent name with
    | none =>
        rw [parseObjectName, hdecode] at hupload
        cases hupload
    | some stored =>
        rw [parseObjectName_eq hdecode] at hupload
        obtain ⟨after', row', hplay, ⟨-, -, hstored⟩, -⟩ := exists_inserted sha256 md5 stored data hdone
          hrecord { contentType := some (contentType.getD "application/octet-stream") }
        dsimp only at hupload
        rw [hplay] at hupload
        cases hresponse : objectRecordToResponse row'.record with
        | error thrown =>
            rw [hresponse] at hupload
            cases hupload
        | ok response' =>
            rw [hresponse] at hupload
            obtain ⟨rfl, hsame⟩ := Prod.mk.inj hupload
            obtain rfl := Reaction.object.inj hsame
            have hagain : stored = name := calc
              stored = row'.record.name := hstored.symm
              _ = response'.record.name := (name_of_response hresponse).symm
              _ = row.record.name := name_of_response h.answered
              _ = name := h.stored.2.2
            rw [hagain] at hdecode
            exact decodeURIComponent_eq_self_iff.1 hdecode
  · rintro ⟨hpercent, hdots⟩
    obtain ⟨after, row, hplay, hstored, hafter, hrows⟩ := exists_inserted sha256 md5 name data hdone hrecord
      { contentType := some (contentType.getD "application/octet-stream") }
    have hwellFormed : ∀ other ∈ after.rows, WellFormed other.record.name := by
      intro other hother
      rcases hrows other hother with hold | rfl
      · exact hnames other hold
      · rw [hstored.2.2]
        exact hname
    obtain ⟨response, hresponse⟩ := exists_response (hwellFormed row hstored.1)
    obtain ⟨found, hfound⟩ := exists_foundObject hstored.1 hstored.2.1 hstored.2.2
    obtain ⟨offset, items, nextPageToken, hitem, hlist⟩ :=
      @exists_page bucket provider after row record response ⟨hstored.1, hstored.2.1⟩ hafter hwellFormed
        hresponse
    refine ⟨after, row, found, response, ?_, hstored, hresponse,
      addressed hregistered hlower hbucket hname hne hdots hfound, fun honly => ?_,
      offset, items, nextPageToken, hitem, ?_⟩
    · rw [route_upload hregistered hlower hbucket hname hne,
        parseObjectName_eq (decodeURIComponent_eq_self_iff.2 hpercent)]
      dsimp only
      rw [hplay, hresponse]
      rfl
    · obtain ⟨hmem, hkey⟩ := of_findObject hfound
      exact honly found hmem hkey.1 hkey.2
    · have hpath := urlPathname_plain (dots_listSegments hbucket)
      have hreaches := (reaches_list hregistered hlower hbucket).1
      rw [← hpath] at hreaches
      have htoken : queryValue [(js "pageToken", decimal offset)] (js "pageToken") =
          some (decimal offset) := by
        simp [queryValue, queryValues, addValue, join]
      rw [route_of_reaches (listRequest bucket offset) hreaches, handleOperation,
        searchParams_list, htoken, params_bucket, hlist]

end Requests

/-! ## A name with a percent sign -/

/-- A store with one bucket. -/
def picsStore : ObjectStore where
  buckets := [⟨js "pics", js "STANDARD"⟩]
  rows := []
  blobs _ := none
  generationCounter := 0

def undisturbed (_ : ℕ) : Outside := ⟨.done, 1, 0, 0⟩

theorem exists_registered : ∃ router, Registered asciiBuiltins router := by
  have h : (storageRoutes.foldlM (addRoute asciiBuiltins defaultRouterConfig) emptyRouter).toBool = true := by
    decide +kernel
  cases hrouter : storageRoutes.foldlM (addRoute asciiBuiltins defaultRouterConfig) emptyRouter with
  | error message =>
      rw [hrouter] at h
      cases h
  | ok router => exact ⟨router, hrouter⟩

theorem roundTrip_iff_slash : ∃ router, Registered asciiBuiltins router ∧
    RoundTrip (fun name => name) (fun _ => []) .sqlite router undisturbed picsStore (js "pics")
      (js "a/b?c+d #1") [1, 2] none := by
  obtain ⟨router, hregistered⟩ := exists_registered
  refine ⟨router, hregistered, ?_⟩
  exact (roundTrip_iff (fun name => name) (fun _ => []) .sqlite asciiBuiltins router undisturbed picsStore
    (js "pics") (js "a/b?c+d #1") [1, 2] none (fun _ _ => rfl) hregistered
    ⟨by decide, by decide, by decide⟩ (by decide)
    (fun row hrow => absurd hrow List.not_mem_nil) (fun _ => rfl) (by decide) (by decide)).2
      ⟨by decide, by decide, by decide⟩

/-- The upload of `100%` is refused, since its name is no encoding. -/
theorem not_roundTrip : ¬∀ (router : RequestRouter Operation) (store : ObjectStore) (name : JsString),
    Registered asciiBuiltins router → (store.getBucketByName (js "pics")).isSome = true →
      (∀ row ∈ store.rows, WellFormed row.record.name) → WellFormed name → name ≠ [] →
        RoundTrip (fun name => name) (fun _ => []) .sqlite router undisturbed store (js "pics") name [1]
          none := by
  intro h
  obtain ⟨router, hregistered⟩ := exists_registered
  obtain ⟨after, row, found, response, hupload, -⟩ := h router picsStore (js "100%") hregistered (by decide)
    (fun row hrow => absurd hrow List.not_mem_nil) (by decide) (by decide)
  have hmalformed : (Armor.decodeURIComponent (js "100%")).isNone = true := by decide
  rw [route_upload hregistered (fun _ _ => rfl) ⟨by decide, by decide, by decide⟩ (by decide) (by decide),
    parseObjectName, Option.isNone_iff_eq_none.1 hmalformed] at hupload
  cases hupload

end Kinglet.Gcs
