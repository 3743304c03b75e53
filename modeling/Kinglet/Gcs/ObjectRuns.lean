import Kinglet.Gcs.NameRoundTrip
import Kinglet.Library.Run

/-!
# Runs of requests for objects

While requests come one at a time, and none of them fails, a bucket has one object of a name at most. So
an insertion is of the newest object of its name, and no older one comes back after a deletion.
-/

namespace Kinglet.Gcs

open Js Library Gateway

/-- What a row is looked up by. -/
def ObjectRow.key (row : ObjectRow) : JsString × JsString := (row.record.bucket, row.record.name)

/-- Rows have identifiers and keys of their own, and the paths that the blob store made for them. -/
structure Keyed (sha256 : JsString → JsString) (store : ObjectStore) : Prop where
  rows : store.rows.Pairwise fun a b => a.id ≠ b.id ∧ a.key ≠ b.key
  paths : ∀ row ∈ store.rows,
    row.record.blobPath = ⟨row.record.bucket, sha256 row.record.name, row.record.generation⟩

/-- One request, for the object of a key. -/
inductive Steps (sha256 : JsString → JsString) (md5 : List UInt8 → JsString) (store : ObjectStore) :
    JsString × JsString → ObjectStore → Prop
  | insert {bucket : JsString} {inputs : ℕ → Outside} (name : JsString) (data : List UInt8)
      (options : InsertOptions) (hcalm : Calm store inputs)
      (hbucket : (store.getBucketByName bucket).isSome) : Steps sha256 md5 store (bucket, name)
        ((insertObject sha256 md5 bucket name data options).play objectWorld inputs store).1
  | patch (bucket name : JsString) (body : PatchBody) (now : ℕ) :
      Steps sha256 md5 store (bucket, name) (store.patchObject bucket name body now).1
  | delete (bucket name : JsString) :
      Steps sha256 md5 store (bucket, name) (store.deleteObject bucket name).1

variable {sha256 : JsString → JsString} {md5 : List UInt8 → JsString} {before store after : ObjectStore}
  {inputs : ℕ → Outside} {bucket name : JsString} {data : List UInt8} {options : InsertOptions}

namespace Keyed

theorem ids (h : Keyed sha256 store) : (store.rows.map ObjectRow.id).Nodup :=
  List.pairwise_map.2 (h.rows.imp And.left)

theorem sublist (h : Keyed sha256 store) (hrows : after.rows.Sublist store.rows) : Keyed sha256 after :=
  ⟨h.rows.sublist hrows, fun row hrow => h.paths row (hrows.subset hrow)⟩

theorem getObject_iff (h : Keyed sha256 store) {row : ObjectRow} :
    store.getObject bucket name = some row ↔ row ∈ store.rows ∧ row.key = (bucket, name) := by
  have hkeys : (store.rows.map ObjectRow.key).Nodup := List.pairwise_map.2 (h.rows.imp And.right)
  constructor
  · intro hfound
    obtain ⟨hmem, hbucket, hname⟩ := of_findObject hfound
    exact ⟨hmem, Prod.ext hbucket hname⟩
  · rintro ⟨hmem, hkey⟩
    obtain ⟨hbucket, hname⟩ := Prod.mk.inj hkey
    obtain ⟨found, hfound⟩ := exists_foundObject hmem hbucket hname
    obtain ⟨hmem', hbucket', hname'⟩ := of_findObject hfound
    obtain rfl := List.inj_on_of_nodup_map hkeys hmem hmem' (hkey.trans (Prod.ext hbucket' hname').symm)
    exact hfound

/-! ## Steps -/

theorem key_vacated (h : Keyed sha256 store) :
    ∀ row ∈ (store.vacated bucket name).rows, row.key ≠ (bucket, name) := by
  intro row hrow hkey
  have hfound := h.getObject_iff.2 ⟨rows_vacated row hrow, hkey⟩
  -- the row would be the one that was cleared
  rw [ObjectStore.vacated, hfound] at hrow
  exact absurd rfl (of_decide_eq_true (List.mem_filter.1 hrow).2)

theorem insert (h : Keyed sha256 store) (hcalm : Calm store inputs)
    (hbucket : (store.getBucketByName bucket).isSome) : Keyed sha256
      ((insertObject sha256 md5 bucket name data options).play objectWorld inputs store).1 := by
  have hvacated : Keyed sha256 (store.vacated bucket name) := by
    refine h.sublist ?_
    rw [ObjectStore.vacated]
    split
    · exact List.Sublist.refl _
    · exact List.filter_sublist
  rw [insertObject_done hcalm.done hbucket]
  refine ⟨List.pairwise_append.2 ⟨hvacated.rows, List.pairwise_singleton .., ?_⟩, ?_⟩
  · refine fun old hold => List.forall_mem_singleton.2 ⟨?_, h.key_vacated old hold⟩
    exact hcalm.fresh _ old (rows_vacated old hold)
  · exact List.forall_mem_append.2 ⟨hvacated.paths, List.forall_mem_singleton.2 rfl⟩

theorem patch (h : Keyed sha256 store) (body : PatchBody) (now : ℕ) :
    Keyed sha256 (store.patchObject bucket name body now).1 := by
  rw [ObjectStore.patchObject]
  split
  · exact h
  rename_i existing hfound
  -- a patch leaves what a row is looked up by as it was
  have hrows : (store.updateById existing.id (ObjectStore.patched body now existing.record)).rows =
      store.rows.map fun row =>
        if row.id = existing.id then ⟨row.id, ObjectStore.patched body now row.record⟩ else row := by
    refine List.map_congr_left fun row hrow => ?_
    split
    · obtain rfl := List.inj_on_of_nodup_map h.ids hrow (of_findObject hfound).1 ‹_›
      rfl
    · rfl
  constructor
  · rw [hrows]
    refine List.pairwise_map.2 (h.rows.imp fun hne => ?_)
    split <;> split <;> exact hne
  · rw [hrows]
    refine List.forall_mem_map.2 fun row hrow => ?_
    split <;> exact h.paths row hrow

theorem getObject_delete (h : Keyed sha256 store) :
    (store.deleteObject bucket name).1.getObject bucket name = none := by
  rw [ObjectStore.deleteObject]
  cases hfound : store.getObject bucket name with
  | none => exact hfound
  | some existing =>
    refine Option.eq_none_iff_forall_ne_some.2 fun row hrow => ?_
    -- what is found afterwards was there before, under the same key
    obtain ⟨hmem, hkey⟩ := (h.sublist List.filter_sublist).getObject_iff.1 hrow
    obtain ⟨hmem, hid⟩ := List.mem_filter.1 hmem
    obtain rfl := Option.some.inj ((h.getObject_iff.2 ⟨hmem, hkey⟩).symm.trans hfound)
    exact absurd rfl (of_decide_eq_true hid)

theorem step {key : JsString × JsString} (h : Keyed sha256 store)
    (hstep : Steps sha256 md5 store key after) : Keyed sha256 after := by
  cases hstep with
  | insert name data options hcalm hbucket => exact h.insert hcalm hbucket
  | patch bucket name body now => exact h.patch body now
  | delete bucket name =>
      rw [ObjectStore.deleteObject]
      split
      · exact h
      · exact h.sublist List.filter_sublist

/-- No row is left that could be as new as the one of an insertion. -/
theorem storesNewest (h : Keyed sha256 store) (inputs : ℕ → Outside) (asked : ℕ) :
    StoresNewest store inputs bucket name asked := by
  intro row hrow
  obtain ⟨hmem, hbucket, hname⟩ := of_findObject hrow
  exact absurd (Prod.ext hbucket hname) (h.key_vacated row hmem)

theorem inserted (h : Keyed sha256 store) (data : List UInt8) (options : InsertOptions)
    (hcalm : Calm store inputs) (hname : WellFormed name) (hbucket : (store.getBucketByName bucket).isSome)
    (hhash : ∀ row ∈ store.rows, sha256 row.record.name = sha256 name → row.record.name = name) :
    ∃ after response row,
      (insertObject sha256 md5 bucket name data options).play objectWorld inputs store =
        (after, .ok response) ∧ Inserted md5 store after bucket name data options response row := by
  obtain ⟨record, hrecord⟩ := Option.isSome_iff_exists.1 hbucket
  obtain ⟨after, response, hplay, hinserted⟩ := @exists_inserted_iff sha256 md5 store inputs bucket name
    ⟨h.ids, h.paths, hhash⟩ hcalm hname record hrecord data options 0
  obtain ⟨row, hrow⟩ := hinserted.2 (h.storesNewest inputs 0)
  exact ⟨after, response, row, hplay, hrow⟩

end Keyed

/-! ## Runs -/

theorem keyed_of_run {keys : List (JsString × JsString)}
    (hrun : Run (Steps sha256 md5) before keys store) (hbefore : before.rows = []) :
    Keyed sha256 store := by
  have hnone : Keyed sha256 before := by constructor <;> simp [hbefore]
  exact hrun.invariant (fun _ _ _ (_ : True) hstep h => h.step hstep) (fun _ _ => trivial) hnone

/-- **Objects of a run.** After any run of requests from an empty table, a deletion leaves no object of
its name, and an insertion is of the object that is served from then on. -/
theorem objects_of_run {keys : List (JsString × JsString)}
    (hrun : Run (Steps sha256 md5) before keys store) (hbefore : before.rows = []) :
    (store.deleteObject bucket name).1.getObject bucket name = none ∧
      ∀ inputs data options, Calm store inputs → WellFormed name →
        (store.getBucketByName bucket).isSome →
        (∀ row ∈ store.rows, sha256 row.record.name = sha256 name → row.record.name = name) →
        ∃ after response row,
          (insertObject sha256 md5 bucket name data options).play objectWorld inputs store =
            (after, .ok response) ∧ Inserted md5 store after bucket name data options response row := by
  have h := keyed_of_run hrun hbefore
  exact ⟨h.getObject_delete, fun inputs data options => h.inserted data options⟩

/-- The table without its object, which is inserted and then patched. -/
theorem objects_of_run_sample :
    let vacant : ObjectStore := { sampleStore with rows := [] }
    let inserted := ((insertObject id (fun _ => []) "bucket" "a.txt" [8] {}).play objectWorld
      (fun _ => ⟨.done, 1, 2, 0⟩) vacant).1
    let store := (inserted.patchObject "bucket" "a.txt" noPatch 3).1
    (store.deleteObject "bucket" "a.txt").1.getObject "bucket" "a.txt" = none :=
  (objects_of_run (.head (.insert "a.txt" [8] {} ⟨fun _ => rfl, by simp⟩ rfl)
    (.single (.patch "bucket" "a.txt" noPatch 3))) rfl).1

/-- **Copies after a run** are exact, and so are compositions, unless the source of a copy has no content
type or metadata that counts as false. -/
theorem transfers_of_run {keys : List (JsString × JsString)}
    (hrun : Run (Steps sha256 md5) before keys store) (hbefore : before.rows = [])
    (hcalm : Calm store inputs) (hname : WellFormed name)
    (hhash : ∀ row ∈ store.rows, sha256 row.record.name = sha256 name → row.record.name = name) :
    (∀ request, Composes md5 store
      ((composeObjects sha256 md5 bucket name (.ok request)).play objectWorld inputs store).1 bucket name
      (store.contents bucket request.sourceObjects) request
      ((composeObjects sha256 md5 bucket name (.ok request)).play objectWorld inputs store).2) ∧
    ∀ srcBucket srcName, (∀ record data, store.source srcBucket srcName = some (record, data) →
        Keepable record) → Copies md5 store
      ((copyObject sha256 md5 srcBucket srcName bucket name).play objectWorld inputs store).1 bucket name
      (store.source srcBucket srcName)
      ((copyObject sha256 md5 srcBucket srcName bucket name).play objectWorld inputs store).2 := by
  have h := keyed_of_run hrun hbefore
  have htidy : Tidy sha256 store name := ⟨h.ids, h.paths, hhash⟩
  constructor
  · intro request
    exact (composes_iff htidy hcalm hname request).2 fun _ _ => h.storesNewest inputs _
  · intro srcBucket srcName hkeepable
    exact (copies_iff htidy hcalm hname).2 fun _ record data hsource =>
      ⟨h.storesNewest inputs _, hkeepable record data hsource⟩

/-- An object that is inserted, and then composed with itself under another name. -/
theorem transfers_of_run_sample :
    let vacant : ObjectStore := { sampleStore with rows := [] }
    let store := ((insertObject id (fun _ => []) "bucket" "a.txt" [8] {}).play objectWorld
      (fun _ => ⟨.done, 1, 2, 0⟩) vacant).1
    Composes (fun _ => []) store
      ((composeObjects id (fun _ => []) "bucket" "b" (.ok repeated)).play objectWorld
        (fun _ => ⟨.done, 2, 3, 0⟩) store).1 "bucket" "b" (store.contents "bucket" repeated.sourceObjects)
      repeated
      ((composeObjects id (fun _ => []) "bucket" "b" (.ok repeated)).play objectWorld
        (fun _ => ⟨.done, 2, 3, 0⟩) store).2 := by
  intro vacant store
  exact (transfers_of_run (.single (.insert "a.txt" [8] {} ⟨fun _ => rfl, by simp [vacant]⟩ rfl)) rfl
    ⟨fun _ => rfl, fun _ => by decide +kernel⟩ (by decide) fun _ _ h => h).1 repeated

/-! ## Media -/

/-- The request for the content of an object. -/
def mediaRequest (bucket name : JsString) : HttpRequest :=
  { objectRequest .get bucket name noPatch with search := js "alt=media" }

/-- **Media.** What is uploaded after a run of requests comes back, the same bytes with the content type. -/
theorem media_of_upload {keys : List (JsString × JsString)} {builtins : Builtins}
    {router : RequestRouter Operation} {provider : Storage.Provider} {contentType : Option JsString}
    (hrun : Run (Steps sha256 md5) before keys store) (hbefore : before.rows = [])
    (hregistered : Registered builtins router) (hlower : LowersAscii builtins)
    (hbucket : IsSegment bucket) (hexists : (store.getBucketByName bucket).isSome) (hcalm : Calm store inputs)
    (hhash : ∀ row ∈ store.rows, sha256 row.record.name = sha256 name → row.record.name = name)
    (hname : WellFormed name) (hne : name ≠ [])
    (hplain : unit '%' ∉ name ∧ name ≠ js "." ∧ name ≠ js "..") :
    ∃ after response,
      route sha256 md5 provider router inputs (uploadRequest bucket name data contentType) store =
        (after, .object response) ∧
      ∀ inputs', route sha256 md5 provider router inputs' (mediaRequest bucket name) after =
        (after, .media data ((given contentType).getD "application/octet-stream")) := by
  obtain ⟨after, response, row, hplay, hinserted⟩ := @Keyed.inserted sha256 md5 store inputs bucket name
    (keyed_of_run hrun hbefore) data { contentType := some (contentType.getD "application/octet-stream") }
    hcalm hname hexists hhash
  refine ⟨after, response, ?_, fun inputs' => ?_⟩
  · rw [route_upload hregistered hlower hbucket hname hne,
      parseObjectName_eq (decodeURIComponent_eq_self_iff.2 hplain.1)]
    dsimp only
    rw [hplay]
    rfl
  · have hparsed : parseObjectName (escapedName name) = .ok name :=
      parseObjectName_eq (decode_encodeURIComponent (escapedName_spec hname hne).1)
    have hparams := params_object bucket (escapedName name)
    have halt : queryValues (searchParams (js "alt=media")) (js "alt") = some [js "media"] := by
      decide +kernel
    have hreaches := reaches_escaped hregistered hlower hbucket hname hne hplain.2 (by decide)
      (List.mem_of_getElem? (i := 8) rfl)
    rw [route_of_reaches (mediaRequest bucket name) hreaches, handleOperation, hparams.1, hparams.2, hparsed]
    dsimp only
    rw [show (mediaRequest bucket name).search = js "alt=media" from rfl, if_pos halt,
      ObjectStore.getObjectMedia, hinserted.serves.found]
    dsimp only
    rw [hinserted.serves.content]
    dsimp only
    rw [hinserted.serves.object.contentType]
    cases contentType <;> rfl

theorem media_of_upload_sample : ∃ router, Registered asciiBuiltins router ∧ ∃ after response,
    route id (fun _ => []) .sqlite router undisturbed (uploadRequest (js "pics") (js "a/b") [0, 255] none)
        picsStore = (after, .object response) ∧
      ∀ inputs', route id (fun _ => []) .sqlite router inputs' (mediaRequest (js "pics") (js "a/b")) after =
        (after, .media [0, 255] ((given none).getD "application/octet-stream")) := by
  obtain ⟨router, hregistered⟩ := exists_registered
  have hcalm : Calm picsStore undisturbed := ⟨fun _ => rfl, fun _ _ hrow => absurd hrow List.not_mem_nil⟩
  exact ⟨router, hregistered, media_of_upload (.refl picsStore) rfl hregistered (fun _ _ => rfl)
    ⟨by decide, by decide, by decide⟩ (by decide) hcalm (fun _ hrow => absurd hrow List.not_mem_nil)
    (by decide) (by decide) ⟨by decide, by decide, by decide⟩⟩

end Kinglet.Gcs
