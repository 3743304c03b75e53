import Kinglet.Gcs.Overwrite

/-!
# Copies and compositions

A copy, a rewrite and a composition read the content of their sources, and insert it under the name of the
destination, which may be one of the sources. What they read is what there was before the call, and the
objects of other names are as they were. But an insertion takes an empty content type, or metadata that
counts as false, for none, so a copy does not keep these.
-/

namespace Kinglet.Gcs

open Js Library

/-! ## What the calls are for -/

section Purpose

variable (md5 : List UInt8 → JsString) (before after : ObjectStore) (bucket name : JsString)

/-- The objects of other names have the rows and the content that they had. -/
structure Framed : Prop where
  object : ∀ b n, ¬(b = bucket ∧ n = name) → after.getObject b n = before.getObject b n
  content : ∀ b n row, ¬(b = bucket ∧ n = name) → before.getObject b n = some row →
    after.blobs row.record.blobPath = before.blobs row.record.blobPath

/-- There is a new object of the name, with this content and these options. -/
structure Inserted (data : List UInt8) (options : InsertOptions) (response : ObjectResponse)
    (row : ObjectRow) : Prop where
  serves : Serves md5 after bucket name row.id data options row
  new : ∀ old ∈ before.rows, old.id ≠ row.id
  response : objectRecordToResponse row.record = .ok response
  framed : Framed before after bucket name

/-- The object of a name, with its content. -/
def ObjectStore.source (store : ObjectStore) (bucket name : JsString) :
    Option (ObjectRecord × List UInt8) :=
  (store.getObject bucket name).bind fun row => (store.blobs row.record.blobPath).map (row.record, ·)

/-- A composition inserts the contents one after the other, or changes nothing. -/
structure Composes (contents : Option (List (List UInt8))) (request : ComposeRequest)
    (result : Except Thrown ObjectResponse) : Prop where
  failed : ∀ thrown, result = .error thrown → after = before
  succeeded : ∀ response, result = .ok response → ∃ chunks row, contents = some chunks ∧
    Inserted md5 before after bucket name chunks.flatten
      { contentType := request.contentType, metadata := request.metadata } response row

/-- A copy has the content, the content type and the metadata of its source, or nothing changes. -/
structure Copies (source : Option (ObjectRecord × List UInt8)) (result : Except Thrown ObjectResponse) :
    Prop where
  failed : ∀ thrown, result = .error thrown → after = before
  succeeded : ∀ response, result = .ok response → ∃ record data row, source = some (record, data) ∧
    Inserted md5 before after bucket name data
      { contentType := some record.contentType, metadata := record.metadata } response row ∧
    row.record.contentType = record.contentType ∧ row.record.metadata = record.metadata

end Purpose

/-- Rows have identifiers of their own and the paths that the blob store made for them, and no other name
has the hash of this one. -/
structure Tidy (sha256 : JsString → JsString) (store : ObjectStore) (name : JsString) : Prop where
  ids : (store.rows.map ObjectRow.id).Nodup
  paths : ∀ row ∈ store.rows,
    row.record.blobPath = ⟨row.record.bucket, sha256 row.record.name, row.record.generation⟩
  hashes : ∀ row ∈ store.rows, sha256 row.record.name = sha256 name → row.record.name = name

/-- Nothing is rejected, and the identifiers are new ones. -/
structure Calm (store : ObjectStore) (inputs : ℕ → Outside) : Prop where
  done : ∀ n, (inputs n).reply = .done
  fresh : ∀ n, ∀ row ∈ store.rows, row.id ≠ (inputs n).id

/-- The store once an insertion has made room. -/
def ObjectStore.vacated (store : ObjectStore) (bucket name : JsString) : ObjectStore :=
  match store.getObject bucket name with
  | none => store
  | some existing => store.cleared existing

/-- How often an insertion asks before it stores the new object. -/
def asksBefore (store : ObjectStore) (bucket name : JsString) : ℕ :=
  if (store.getObject bucket name).isSome then 5 else 2

/-- The object that an insertion stores is the newest of its name, where it begins with the given ask. -/
def StoresNewest (store : ObjectStore) (inputs : ℕ → Outside) (bucket name : JsString) (asked : ℕ) : Prop :=
  Newest store (fun n => inputs (n + asksBefore store bucket name + asked))
    (store.vacated bucket name).rows bucket name

variable {sha256 : JsString → JsString} {md5 : List UInt8 → JsString} {store : ObjectStore}
  {inputs : ℕ → Outside} {bucket name : JsString} {data : List UInt8} {options : InsertOptions}

/-! ## Insertions -/

theorem Calm.shift (h : Calm store inputs) (k : ℕ) : Calm store fun n => inputs (n + k) :=
  ⟨fun n => h.done (n + k), fun n => h.fresh (n + k)⟩

theorem rows_vacated : ∀ row ∈ (store.vacated bucket name).rows, row ∈ store.rows := by
  intro row hrow
  rw [ObjectStore.vacated] at hrow
  split at hrow
  · exact hrow
  · exact (List.mem_filter.1 hrow).1

/-- An insertion into a bucket that exists makes room and stores the object. -/
theorem insertObject_done (hdone : ∀ n, (inputs n).reply = .done)
    (hbucket : (store.getBucketByName bucket).isSome) :
    (insertObject sha256 md5 bucket name data options).play objectWorld inputs store =
      ((store.vacated bucket name).stored sha256 md5
        (fun n => inputs (n + asksBefore store bucket name)) bucket name data options,
        objectRecordToResponse (newRecord sha256 md5 (store.vacated bucket name)
          (fun n => inputs (n + asksBefore store bucket name)) bucket name data options)) := by
  obtain ⟨record, hrecord⟩ := Option.isSome_iff_exists.1 hbucket
  have hlookup : store.answered (inputs 0) (.getBucketByName bucket) = some record := hrecord
  rw [ObjectStore.vacated, asksBefore]
  cases hfound : store.getObject bucket name with
  | none =>
    have hobject : store.answered (inputs 1) (.getObject bucket name) = none := hfound
    refine (play_ask (handle_answer (hdone 0) hlookup)).trans ?_
    refine (play_ask (handle_answer (hdone 1) hobject)).trans ?_
    exact storeObject_done (hdone 4) (hdone 5) (hdone 8)
  | some existing =>
    have hobject : store.answered (inputs 1) (.getObject bucket name) = some existing := hfound
    have hcleared : (store.written (inputs 2) (.delete existing.record.blobPath)).answered (inputs 3)
        (.getObject bucket name) = some existing := hfound
    refine (play_ask (handle_answer (hdone 0) hlookup)).trans ?_
    refine (play_ask (handle_answer (hdone 1) hobject)).trans ?_
    refine (play_ask (handle_done (hdone 2))).trans ?_
    refine (play_ask (handle_answer (hdone 3) hcleared)).trans ?_
    refine (play_ask (handle_done (hdone 4))).trans ?_
    exact storeObject_done (hdone 7) (hdone 8) (hdone 11)

theorem play_insertObject (hcalm : Calm store inputs) (hname : WellFormed name)
    (hbucket : (store.getBucketByName bucket).isSome) :
    ∃ response,
      (insertObject sha256 md5 bucket name data options).play objectWorld inputs store =
        ((store.vacated bucket name).stored sha256 md5
          (fun n => inputs (n + asksBefore store bucket name)) bucket name data options, .ok response) ∧
      objectRecordToResponse (newRecord sha256 md5 (store.vacated bucket name)
        (fun n => inputs (n + asksBefore store bucket name)) bucket name data options) = .ok response := by
  obtain ⟨response, hresponse⟩ := @exists_response (newRecord sha256 md5 (store.vacated bucket name)
    (fun n => inputs (n + asksBefore store bucket name)) bucket name data options) hname
  refine ⟨response, ?_, hresponse⟩
  rw [insertObject_done hcalm.done hbucket, hresponse]

/-- An insertion touches the rows and the files of its own name. -/
theorem framed_stored (htidy : Tidy sha256 store name) (inputs : ℕ → Outside) :
    Framed store ((store.vacated bucket name).stored sha256 md5 inputs bucket name data options) bucket
      name := by
  have hpath : ∀ b n row, ¬(b = bucket ∧ n = name) → store.getObject b n = some row →
      ∀ generation, row.record.blobPath ≠ ⟨bucket, sha256 name, generation⟩ := by
    intro b n row hne hrow generation hsame
    obtain ⟨hmem, rfl, rfl⟩ := of_findObject hrow
    rw [htidy.paths row hmem, BlobPath.mk.injEq] at hsame
    exact hne ⟨hsame.1, htidy.hashes row hmem hsame.2.1⟩
  constructor
  · intro b n hne
    refine (findObject_append.trans (if_neg fun h => hne ⟨h.1.symm, h.2.symm⟩)).trans ?_
    rw [ObjectStore.vacated]
    split
    · rfl
    · rename_i existing hfound
      obtain ⟨hmem, hbucket, hname⟩ := of_findObject hfound
      exact findObject_filter_of_ne htidy.ids hmem fun h =>
        hne ⟨h.1.symm.trans hbucket, h.2.symm.trans hname⟩
  · intro b n row hne hrow
    refine (Function.update_of_ne (hpath b n row hne hrow _) ..).trans ?_
    rw [ObjectStore.vacated]
    split
    · rfl
    · rename_i existing hfound
      obtain ⟨hmem, rfl, rfl⟩ := of_findObject hfound
      refine Function.update_of_ne ?_ ..
      rw [htidy.paths existing hmem]
      exact hpath b n row hne hrow _

/-- The object is there if and only if it is the newest of its name. -/
theorem inserted_iff {inputs : ℕ → Outside} (htidy : Tidy sha256 store name)
    (hfresh : ∀ row ∈ store.rows, row.id ≠ (inputs 6).id) {response : ObjectResponse}
    (hresponse : objectRecordToResponse (newRecord sha256 md5 (store.vacated bucket name) inputs bucket
      name data options) = .ok response) {row : ObjectRow} :
    Inserted md5 store ((store.vacated bucket name).stored sha256 md5 inputs bucket name data options)
        bucket name data options response row ↔
      row = newRow sha256 md5 (store.vacated bucket name) inputs bucket name data options ∧
        Newest store inputs (store.vacated bucket name).rows bucket name := by
  have hfresh' : ∀ row ∈ (store.vacated bucket name).rows, row.id ≠ (inputs 6).id :=
    fun row hrow => hfresh row (rows_vacated row hrow)
  have hserves := @serves_stored_iff sha256 md5 (store.vacated bucket name) inputs bucket name data options
    hfresh' row
  have hnewest : Newest (store.vacated bucket name) inputs (store.vacated bucket name).rows bucket name ↔
      Newest store inputs (store.vacated bucket name).rows bucket name := by
    rw [Newest, Newest, newGeneration, newGeneration]
    rw [ObjectStore.vacated]
    split <;> rfl
  constructor
  · intro hinserted
    have hid : row.id = (inputs 6).id := by
      rcases List.mem_append.1 (of_findObject hinserted.serves.found).1 with hold | hnew
      · exact absurd rfl (hinserted.new row (rows_vacated row hold))
      · rw [List.mem_singleton.1 hnew]
        rfl
    exact (hserves.1 (hid ▸ hinserted.serves)).imp id hnewest.1
  · rintro ⟨rfl, h⟩
    exact ⟨hserves.2 ⟨rfl, hnewest.2 h⟩, hfresh, hresponse, framed_stored htidy inputs⟩

/-- An insertion after other asks: the object is there if and only if it is the newest of its name. -/
theorem exists_inserted_iff (htidy : Tidy sha256 store name) (hcalm : Calm store inputs)
    (hname : WellFormed name) {record : BucketRecord} (hbucket : store.getBucketByName bucket = some record)
    (data : List UInt8) (options : InsertOptions) (asked : ℕ) :
    ∃ after response, (insertObject sha256 md5 bucket name data options).play objectWorld
        (fun n => inputs (n + asked)) store = (after, .ok response) ∧
      ((∃ row, Inserted md5 store after bucket name data options response row) ↔
        StoresNewest store inputs bucket name asked) := by
  obtain ⟨response, hplay, hresponse⟩ := @play_insertObject sha256 md5 store (fun n => inputs (n + asked))
    bucket name data options (hcalm.shift asked) hname (Option.isSome_of_eq_some hbucket)
  refine ⟨_, response, hplay, ?_⟩
  have hrow := fun row => @inserted_iff sha256 md5 store bucket name data options
    (fun n => inputs (n + asksBefore store bucket name + asked)) htidy (hcalm.fresh _) response hresponse row
  constructor
  · rintro ⟨row, hinserted⟩
    exact ((hrow row).1 hinserted).2
  · exact fun h => ⟨_, (hrow _).2 ⟨rfl, h⟩⟩

/-! ## Sources -/

theorem play_readSource_none {α : Type} {next : ObjectRecord × List UInt8 → ObjectScript α}
    {noObject noData : JsString} (hcalm : Calm store inputs) (h : store.source bucket name = none) :
    ∃ thrown, (readSource bucket name noObject noData >>= next).play objectWorld inputs store =
      (store, .error thrown) := by
  cases hrow : store.getObject bucket name with
  | none =>
    have hanswer : store.answered (inputs 0) (.getObject bucket name) = none := hrow
    exact ⟨_, (play_ask (handle_answer (hcalm.done 0) hanswer)).trans rfl⟩
  | some row =>
    rw [ObjectStore.source, hrow, Option.bind_some, Option.map_eq_none_iff] at h
    have hanswer : store.answered (inputs 0) (.getObject bucket name) = some row := hrow
    have hcontent : store.answered (inputs 1) (.retrieve row.record.blobPath) = none := h
    refine ⟨.gcs .notFound noData, ?_⟩
    refine (play_ask (handle_answer (hcalm.done 0) hanswer)).trans ?_
    refine (play_ask (handle_answer (hcalm.done 1) hcontent)).trans ?_
    rfl

theorem play_readSource_some {α : Type} {next : ObjectRecord × List UInt8 → ObjectScript α}
    {noObject noData : JsString} {found : ObjectRecord × List UInt8} (hcalm : Calm store inputs)
    (h : store.source bucket name = some found) :
    (readSource bucket name noObject noData >>= next).play objectWorld inputs store =
      (next found).play objectWorld (fun n => inputs (n + 2)) store := by
  obtain ⟨row, hrow, hdata⟩ := Option.bind_eq_some_iff.1 h
  obtain ⟨data, hblob, rfl⟩ := Option.map_eq_some_iff.1 hdata
  have hanswer : store.answered (inputs 0) (.getObject bucket name) = some row := hrow
  have hcontent : store.answered (inputs 1) (.retrieve row.record.blobPath) = some data := hblob
  refine (play_ask (handle_answer (hcalm.done 0) hanswer)).trans ?_
  refine (play_ask (handle_answer (hcalm.done 1) hcontent)).trans ?_
  rfl

/-- The contents of a list of sources. -/
def ObjectStore.contents (store : ObjectStore) (bucket : JsString) :
    List JsString → Option (List (List UInt8))
  | [] => some []
  | name :: names => (store.source bucket name).bind fun found =>
      (store.contents bucket names).map (found.2 :: ·)

/-- The contents are read one after the other, unless one is missing. -/
theorem play_readSources {α : Type} {next : List (List UInt8) → ObjectScript α}
    (hcalm : Calm store inputs) (names : List JsString) :
    (store.contents bucket names = none →
      ∃ thrown, (readSources bucket names >>= next).play objectWorld inputs store =
        (store, .error thrown)) ∧
    ∀ chunks, store.contents bucket names = some chunks →
      (readSources bucket names >>= next).play objectWorld inputs store =
        (next chunks).play objectWorld (fun n => inputs (n + 2 * names.length)) store := by
  induction names generalizing inputs next with
  | nil =>
    refine ⟨fun h => (nomatch h), fun chunks h => ?_⟩
    obtain rfl := Option.some.inj h
    rfl
  | cons name names ih =>
    have hrest : ∀ found : ObjectRecord × List UInt8,
        (readSources bucket names >>= fun chunks => pure (found.2 :: chunks)) >>= next =
          readSources bucket names >>= fun chunks => next (found.2 :: chunks) :=
      fun found => Script.bind_bind _ _ _
    rw [ObjectStore.contents, readSources, Script.bind_bind]
    cases hsource : store.source bucket name with
    | none => exact ⟨fun _ => play_readSource_none hcalm hsource, fun chunks h => nomatch h⟩
    | some found =>
      rw [play_readSource_some hcalm hsource, hrest found, Option.bind_some]
      obtain ⟨hnone, hsome⟩ := @ih (fun n => inputs (n + 2)) (fun chunks => next (found.2 :: chunks))
        (hcalm.shift 2)
      refine ⟨fun h => hnone (Option.map_eq_none_iff.1 h), fun chunks h => ?_⟩
      obtain ⟨chunks, hchunks, rfl⟩ := Option.map_eq_some_iff.1 h
      rw [hsome chunks hchunks]
      simp only [List.length_cons, Nat.mul_add, Nat.add_assoc, Nat.mul_one]

/-! ## The calls -/

theorem play_ensureBucketExists_none {α : Type} {next : Unit → ObjectScript α} (hcalm : Calm store inputs)
    (h : store.getBucketByName bucket = none) :
    ∃ thrown, (ensureBucketExists bucket >>= next).play objectWorld inputs store =
      (store, .error thrown) := by
  have hlookup : store.answered (inputs 0) (.getBucketByName bucket) = none := h
  exact ⟨_, (play_ask (handle_answer (hcalm.done 0) hlookup)).trans rfl⟩

theorem play_ensureBucketExists_some {α : Type} {next : Unit → ObjectScript α} {record : BucketRecord}
    (hcalm : Calm store inputs) (h : store.getBucketByName bucket = some record) :
    (ensureBucketExists bucket >>= next).play objectWorld inputs store =
      (next ()).play objectWorld (fun n => inputs (n + 1)) store := by
  have hlookup : store.answered (inputs 0) (.getBucketByName bucket) = some record := h
  exact (play_ask (handle_answer (hcalm.done 0) hlookup)).trans rfl

theorem composes_iff (htidy : Tidy sha256 store name) (hcalm : Calm store inputs) (hname : WellFormed name)
    (request : ComposeRequest) :
    Composes md5 store
        ((composeObjects sha256 md5 bucket name (.ok request)).play objectWorld inputs store).1 bucket name
        (store.contents bucket request.sourceObjects) request
        ((composeObjects sha256 md5 bucket name (.ok request)).play objectWorld inputs store).2 ↔
      ((store.getBucketByName bucket).isSome → (store.contents bucket request.sourceObjects).isSome →
        StoresNewest store inputs bucket name (2 * request.sourceObjects.length + 1)) := by
  have hunchanged : ∀ thrown, Composes md5 store store bucket name
      (store.contents bucket request.sourceObjects) request (.error thrown) :=
    fun thrown => ⟨fun _ _ => rfl, fun _ h => nomatch h⟩
  rw [composeObjects]
  cases hbucket : store.getBucketByName bucket with
  | none =>
    obtain ⟨thrown, hplay⟩ := play_ensureBucketExists_none hcalm hbucket
    rw [hplay]
    exact iff_of_true (hunchanged thrown) fun h => nomatch h
  | some record =>
    rw [play_ensureBucketExists_some hcalm hbucket]
    obtain ⟨hnone, hsome⟩ := @play_readSources store (fun n => inputs (n + 1)) bucket _ (fun chunks =>
      insertObject sha256 md5 bucket name chunks.flatten
        { contentType := request.contentType, metadata := request.metadata }) (hcalm.shift 1)
      request.sourceObjects
    cases hcontents : store.contents bucket request.sourceObjects with
    | none =>
      obtain ⟨thrown, hplay⟩ := hnone hcontents
      rw [hplay, ← hcontents]
      refine iff_of_true (hunchanged thrown) fun _ h => ?_
      rw [hcontents] at h
      cases h
    | some chunks =>
      obtain ⟨after, response, hplay, hinserted⟩ := @exists_inserted_iff sha256 md5 store inputs bucket
        name htidy hcalm hname record hbucket chunks.flatten
        { contentType := request.contentType, metadata := request.metadata }
        (2 * request.sourceObjects.length + 1)
      rw [(hsome chunks hcontents).trans hplay, ← hinserted]
      constructor
      · intro hcomposes _ _
        obtain ⟨chunks', row, heq, hrow⟩ := hcomposes.succeeded response rfl
        obtain rfl := Option.some.inj heq
        exact ⟨row, hrow⟩
      · intro h
        refine ⟨fun _ h => (nomatch h), fun response' hok => ?_⟩
        obtain rfl := Except.ok.inj hok
        obtain ⟨row, hrow⟩ := h rfl rfl
        exact ⟨chunks, row, rfl, hrow⟩

/-- What an insertion takes for a content type and for metadata. -/
def Keepable (record : ObjectRecord) : Prop :=
  record.contentType ≠ [] ∧ ∀ value, record.metadata = some value → isTruthy value = true

theorem keepable_iff {record : ObjectRecord} : Keepable record ↔
    (given (some record.contentType)).getD "application/octet-stream" = record.contentType ∧
      record.metadata.filter isTruthy = record.metadata := by
  refine and_congr ?_ ?_
  · by_cases hempty : record.contentType = []
    · rw [hempty]
      exact iff_of_false (fun h => h rfl) (by decide)
    · rw [given, Option.filter_some, if_pos (by simpa using hempty)]
      exact iff_of_true hempty rfl
  · cases record.metadata with
    | none => simp
    | some value => simp

theorem copies_iff {srcBucket srcName : JsString} (htidy : Tidy sha256 store name)
    (hcalm : Calm store inputs) (hname : WellFormed name) :
    Copies md5 store
        ((copyObject sha256 md5 srcBucket srcName bucket name).play objectWorld inputs store).1 bucket name
        (store.source srcBucket srcName)
        ((copyObject sha256 md5 srcBucket srcName bucket name).play objectWorld inputs store).2 ↔
      ((store.getBucketByName bucket).isSome → ∀ record data, store.source srcBucket srcName =
        some (record, data) → StoresNewest store inputs bucket name 3 ∧ Keepable record) := by
  have hunchanged : ∀ thrown, Copies md5 store store bucket name (store.source srcBucket srcName)
      (.error thrown) := fun thrown => ⟨fun _ _ => rfl, fun _ h => nomatch h⟩
  rw [copyObject]
  cases hbucket : store.getBucketByName bucket with
  | none =>
    obtain ⟨thrown, hplay⟩ := play_ensureBucketExists_none hcalm hbucket
    rw [hplay]
    exact iff_of_true (hunchanged thrown) fun h => nomatch h
  | some record =>
    rw [play_ensureBucketExists_some hcalm hbucket]
    cases hsource : store.source srcBucket srcName with
    | none =>
      obtain ⟨thrown, hplay⟩ := play_readSource_none (hcalm.shift 1) hsource
      rw [hplay, ← hsource]
      refine iff_of_true (hunchanged thrown) fun _ record data h => ?_
      rw [hsource] at h
      cases h
    | some found =>
      obtain ⟨source, data⟩ := found
      obtain ⟨after, response, hplay, hinserted⟩ := @exists_inserted_iff sha256 md5 store inputs bucket
        name htidy hcalm hname record hbucket data
        { contentType := some source.contentType, metadata := source.metadata } 3
      rw [(play_readSource_some (hcalm.shift 1) hsource).trans hplay]
      constructor
      · intro hcopies _ _ _ heq
        obtain ⟨rfl, rfl⟩ := Prod.mk.inj (Option.some.inj heq)
        obtain ⟨_, _, row, heq, hrow, htype, hmetadata⟩ := hcopies.succeeded response rfl
        obtain ⟨rfl, rfl⟩ := Prod.mk.inj (Option.some.inj heq)
        refine ⟨hinserted.1 ⟨row, hrow⟩, keepable_iff.2 ⟨?_, ?_⟩⟩
        · exact hrow.serves.object.contentType.symm.trans htype
        · exact hrow.serves.object.metadata.symm.trans hmetadata
      · intro h
        obtain ⟨hnewest, hkeepable⟩ := h rfl source data rfl
        refine ⟨fun _ h => (nomatch h), fun response' hok => ?_⟩
        obtain rfl := Except.ok.inj hok
        obtain ⟨row, hrow⟩ := hinserted.2 hnewest
        refine ⟨source, data, row, rfl, hrow, ?_, ?_⟩
        · exact hrow.serves.object.contentType.trans (keepable_iff.1 hkeepable).1
        · exact hrow.serves.object.metadata.trans (keepable_iff.1 hkeepable).2

theorem play_rewriteObject {srcBucket srcName : JsString} :
    ((rewriteObject sha256 md5 srcBucket srcName bucket name).play objectWorld inputs store).1 =
        ((copyObject sha256 md5 srcBucket srcName bucket name).play objectWorld inputs store).1 ∧
      ((rewriteObject sha256 md5 srcBucket srcName bucket name).play objectWorld inputs store).2.map
        RewriteResponse.resource =
      ((copyObject sha256 md5 srcBucket srcName bucket name).play objectWorld inputs store).2 := by
  rw [rewriteObject, Script.play_bind_pure]
  refine ⟨rfl, ?_⟩
  cases ((copyObject sha256 md5 srcBucket srcName bucket name).play objectWorld inputs store).2 <;> rfl

/-- **Copies and compositions** have the content of their sources, and touch no other object, if and only
if the object that they store is the newest of its name and, for a copy or a rewrite, the source has a
content type and no metadata that counts as false. -/
theorem transfers_exact_iff (sha256 : JsString → JsString) (md5 : List UInt8 → JsString)
    (store : ObjectStore) (inputs : ℕ → Outside) (bucket name : JsString)
    (htidy : Tidy sha256 store name) (hcalm : Calm store inputs) (hname : WellFormed name) :
    (∀ request, Composes md5 store
        ((composeObjects sha256 md5 bucket name (.ok request)).play objectWorld inputs store).1 bucket name
        (store.contents bucket request.sourceObjects) request
        ((composeObjects sha256 md5 bucket name (.ok request)).play objectWorld inputs store).2 ↔
      ((store.getBucketByName bucket).isSome → (store.contents bucket request.sourceObjects).isSome →
        StoresNewest store inputs bucket name (2 * request.sourceObjects.length + 1))) ∧
    ∀ srcBucket srcName,
      (Copies md5 store
          ((copyObject sha256 md5 srcBucket srcName bucket name).play objectWorld inputs store).1 bucket
          name (store.source srcBucket srcName)
          ((copyObject sha256 md5 srcBucket srcName bucket name).play objectWorld inputs store).2 ↔
        ((store.getBucketByName bucket).isSome → ∀ record data, store.source srcBucket srcName =
          some (record, data) → StoresNewest store inputs bucket name 3 ∧ Keepable record)) ∧
      (Copies md5 store
          ((rewriteObject sha256 md5 srcBucket srcName bucket name).play objectWorld inputs store).1 bucket
          name (store.source srcBucket srcName)
          (((rewriteObject sha256 md5 srcBucket srcName bucket name).play objectWorld inputs store).2.map
            RewriteResponse.resource) ↔
        ((store.getBucketByName bucket).isSome → ∀ record data, store.source srcBucket srcName =
          some (record, data) → StoresNewest store inputs bucket name 3 ∧ Keepable record)) := by
  refine ⟨fun request => composes_iff htidy hcalm hname request, fun srcBucket srcName => ⟨?_, ?_⟩⟩
  · exact copies_iff htidy hcalm hname
  · rw [play_rewriteObject.1, play_rewriteObject.2]
    exact copies_iff htidy hcalm hname

/-- The bucket with its object, after a PATCH with an empty content type. -/
def untypedStore : ObjectStore :=
  { sampleStore with rows := [{ sampleRow with record := { sampleRow.record with contentType := [] } }] }

theorem untypedStore_tidy : Tidy id untypedStore "b.txt" where
  ids := List.nodup_singleton _
  paths := List.forall_mem_singleton.2 rfl
  hashes := List.forall_mem_singleton.2 fun h => h

theorem untypedStore_calm : Calm untypedStore fun _ => ⟨.done, 1, 2, 0⟩ where
  done _ := rfl
  fresh _ := List.forall_mem_singleton.2 (by decide)

/-- A composition with a repeated source. -/
def repeated : ComposeRequest := ⟨["a.txt", "a.txt"], none, none⟩

theorem transfers_exact_iff_sample : Composes (fun _ => []) untypedStore
      ((composeObjects id (fun _ => []) "bucket" "b.txt" (.ok repeated)).play objectWorld
        (fun _ => ⟨.done, 1, 2, 0⟩) untypedStore).1 "bucket" "b.txt"
      (untypedStore.contents "bucket" repeated.sourceObjects) repeated
      ((composeObjects id (fun _ => []) "bucket" "b.txt" (.ok repeated)).play objectWorld
        (fun _ => ⟨.done, 1, 2, 0⟩) untypedStore).2 := by
  refine ((transfers_exact_iff id (fun _ => []) untypedStore (fun _ => ⟨.done, 1, 2, 0⟩) "bucket" "b.txt"
    untypedStore_tidy untypedStore_calm (by decide +kernel)).1 repeated).2 fun _ _ row hrow => ?_
  have hnone : (findObject (untypedStore.vacated "bucket" "b.txt").rows "bucket" "b.txt").isNone = true := by
    decide +kernel
  rw [hrow] at hnone
  cases hnone

/-- The copy has the content type that an insertion puts in for none. -/
theorem not_transfers_exact : ¬∀ inputs : ℕ → Outside, Calm untypedStore inputs →
    Copies (fun _ => []) untypedStore
      ((copyObject id (fun _ => []) "bucket" "a.txt" "bucket" "b.txt").play objectWorld inputs
        untypedStore).1 "bucket" "b.txt" (untypedStore.source "bucket" "a.txt")
      ((copyObject id (fun _ => []) "bucket" "a.txt" "bucket" "b.txt").play objectWorld inputs
        untypedStore).2 := by
  intro h
  have hcopies := (copies_iff untypedStore_tidy untypedStore_calm (by decide +kernel)).1
    (h _ untypedStore_calm) rfl
  exact (hcopies _ _ rfl).2.1 rfl

end Kinglet.Gcs
