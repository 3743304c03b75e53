import Kinglet.Gcs.ObjectService

/-!
# Overwriting an object

An insertion that finds an object of its name removes the content and the row of that object first, and
stores the new ones afterwards. So the object that was there is lost, as soon as one of the later steps
fails.
-/

namespace Kinglet.Gcs

open Js Library

section Insertion

variable (sha256 : JsString → JsString) (md5 : List UInt8 → JsString) (store : ObjectStore)
  (inputs : ℕ → Outside) (bucket name : JsString) (data : List UInt8) (options : InsertOptions)

/-! ## Storing an object

`storeObject` asks for 0: the count, 1: the clock, 2: the write of the content, 3: the bucket, 4 and 5: the
clock, and 6: the new row. -/

def newGeneration : JsString := decimal ((inputs 1).now * 1000 + (store.generationCounter + 1))

def newPath : BlobPath := ⟨bucket, sha256 name, newGeneration store inputs⟩

def newRecord : ObjectRecord :=
  requestToObjectRecord bucket name (newGeneration store inputs)
    ⟨newPath sha256 store inputs bucket name, md5 data, crc32cText data, data.length⟩
    ((store.getBucketByName bucket).map BucketRecord.storageClass) options (inputs 4).now (inputs 5).now

def newRow : ObjectRow := ⟨(inputs 6).id, newRecord sha256 md5 store inputs bucket name data options⟩

/-- The store with the new object. -/
def ObjectStore.stored : ObjectStore where
  buckets := store.buckets
  rows := store.rows ++ [newRow sha256 md5 store inputs bucket name data options]
  blobs := Function.update store.blobs (newPath sha256 store inputs bucket name) (some data)
  generationCounter := store.generationCounter + 1

variable {sha256 md5 store inputs bucket name data options}

theorem exists_response {record : ObjectRecord} (h : WellFormed record.name) :
    ∃ response, objectRecordToResponse record = .ok response := by
  have hencoded : ∃ text, encodeURIComponent record.name = some text := ⟨_, if_pos h⟩
  obtain ⟨text, htext⟩ := hencoded
  rw [objectRecordToResponse, htext]
  exact ⟨_, rfl⟩

theorem storeObject_done (hwrite : (inputs 2).reply = .done) (hbucket : (inputs 3).reply = .done)
    (hcreate : (inputs 6).reply = .done) :
    (storeObject sha256 md5 bucket name data options).play objectWorld inputs store =
      (store.stored sha256 md5 inputs bucket name data options,
        objectRecordToResponse (newRecord sha256 md5 store inputs bucket name data options)) := by
  refine (play_ask (handle_local rfl)).trans ?_
  refine (play_ask (handle_local rfl)).trans ?_
  refine (play_ask (handle_done hwrite)).trans ?_
  refine (play_ask (handle_done hbucket)).trans ?_
  refine (play_ask (handle_local rfl)).trans ?_
  refine (play_ask (handle_local rfl)).trans ?_
  exact (play_ask (handle_done hcreate)).trans rfl

theorem play_storeObject (hname : WellFormed name) (hwrite : (inputs 2).reply = .done)
    (hbucket : (inputs 3).reply = .done) (hcreate : (inputs 6).reply = .done) :
    ∃ response, objectRecordToResponse (newRecord sha256 md5 store inputs bucket name data options) =
        .ok response ∧
      (storeObject sha256 md5 bucket name data options).play objectWorld inputs store =
        (store.stored sha256 md5 inputs bucket name data options, .ok response) := by
  obtain ⟨response, hresponse⟩ :=
    @exists_response (newRecord sha256 md5 store inputs bucket name data options) hname
  refine ⟨response, hresponse, ?_⟩
  rw [storeObject_done hwrite hbucket hcreate, hresponse]

/-- Whatever of it fails, the rows that were there are there, and perhaps the new one. -/
theorem storeObject_rejected (h : ¬((inputs 2).reply = .done ∧ (inputs 3).reply = .done ∧
      (inputs 6).reply = .done)) :
    ∃ store' thrown,
      (storeObject sha256 md5 bucket name data options).play objectWorld inputs store =
        (store', .error thrown) ∧
      ∀ row ∈ store'.rows, row ∈ store.rows ∨ row.id = (inputs 6).id := by
  cases hwrite : (inputs 2).reply with
  | rejected applied =>
      refine ⟨_, _, (play_ask (handle_local rfl)).trans ((play_ask (handle_local rfl)).trans
        ((play_ask (handle_rejected hwrite rfl)).trans rfl)), fun row hrow => .inl ?_⟩
      cases applied <;> exact hrow
  | done =>
      cases hbucket : (inputs 3).reply with
      | rejected applied =>
          refine ⟨_, _, (play_ask (handle_local rfl)).trans ((play_ask (handle_local rfl)).trans
            ((play_ask (handle_done hwrite)).trans ((play_ask (handle_rejected hbucket rfl)).trans rfl))),
            fun row hrow => .inl ?_⟩
          cases applied <;> exact hrow
      | done =>
          cases hcreate : (inputs 6).reply with
          | done => exact absurd ⟨hwrite, hbucket, hcreate⟩ h
          | rejected applied =>
              refine ⟨_, _, (play_ask (handle_local rfl)).trans ((play_ask (handle_local rfl)).trans
                ((play_ask (handle_done hwrite)).trans ((play_ask (handle_done hbucket)).trans
                ((play_ask (handle_local rfl)).trans ((play_ask (handle_local rfl)).trans
                ((play_ask (handle_rejected hcreate rfl)).trans rfl)))))), fun row hrow => ?_⟩
              cases applied with
              | false => exact .inl hrow
              | true =>
                  refine (List.mem_append.1 hrow).imp id fun hnew => ?_
                  rw [List.mem_singleton.1 hnew]

/-! ## Overwriting

`insertObject` asks for 0: the bucket, 1: the object, and of an object that is there for 2: the removal of
its content, 3: the object again, 4: the removal of its row. -/

/-- The record is that of an object with this content and these options. -/
structure IsObject (md5 : List UInt8 → JsString) (record : ObjectRecord) (bucket name : JsString)
    (data : List UInt8) (options : InsertOptions) : Prop where
  bucket : record.bucket = bucket
  name : record.name = name
  size : record.size = data.length
  md5Hash : record.md5Hash = md5 data
  crc32c : record.crc32c = crc32cText data
  contentType : record.contentType = (given options.contentType).getD "application/octet-stream"
  metadata : record.metadata = options.metadata.filter isTruthy

/-- A get finds the row with the identifier, which is that of the object and names its content. -/
structure Serves (md5 : List UInt8 → JsString) (after : ObjectStore) (bucket name : JsString) (id : ℕ)
    (data : List UInt8) (options : InsertOptions) (row : ObjectRow) : Prop where
  found : after.getObject bucket name = some row
  id : row.id = id
  object : IsObject md5 row.record bucket name data options
  content : after.blobs row.record.blobPath = some data

/-- Without an object. -/
def ObjectStore.cleared (store : ObjectStore) (existing : ObjectRow) : ObjectStore :=
  { store with
    rows := store.rows.filter fun row => row.id ≠ existing.id
    blobs := Function.update store.blobs existing.record.blobPath none }

/-- What an overwriting insertion is for. -/
structure Atomic (md5 : List UInt8 → JsString) (before after : ObjectStore) (bucket name : JsString)
    (existing : ObjectRow) (id : ℕ) (data : List UInt8) (options : InsertOptions)
    (result : Except Thrown ObjectResponse) : Prop where
  failed : ∀ thrown, result = .error thrown → after.getObject bucket name = some existing ∧
    after.blobs existing.record.blobPath = before.blobs existing.record.blobPath
  succeeded : ∀ response, result = .ok response → ∃ row,
    Serves md5 after bucket name id data options row ∧
    objectRecordToResponse row.record = .ok response ∧
    (existing.record.blobPath = row.record.blobPath ∨ after.blobs existing.record.blobPath = none)

/-- No other row of the name is left that is as new. -/
def Newest (store : ObjectStore) (inputs : ℕ → Outside) (rows : List ObjectRow) (bucket name : JsString) :
    Prop :=
  ∀ row, findObject rows bucket name = some row → row.record.generation < newGeneration store inputs

/-- Nothing fails once the object was touched, and the new one is the newest of its name. -/
def Spared (store : ObjectStore) (inputs : ℕ → Outside) (bucket name : JsString) (existing : ObjectRow) :
    Prop :=
  match (inputs 0).reply, (inputs 1).reply, (inputs 2).reply, (inputs 3).reply, (inputs 4).reply with
  | .done, .done, .done, .done, .done =>
      (inputs 7).reply = .done ∧ (inputs 8).reply = .done ∧ (inputs 11).reply = .done ∧
        Newest store (fun n => inputs (n + 5)) (store.cleared existing).rows bucket name
  -- an object whose content is missing anyway loses nothing with its file
  | .done, .done, .rejected applied, _, _ => applied = false ∨ store.blobs existing.record.blobPath = none
  | .done, .done, .done, .rejected _, _ => store.blobs existing.record.blobPath = none
  | .done, .done, .done, .done, .rejected applied =>
      applied = false ∧ store.blobs existing.record.blobPath = none
  | _, _, _, _, _ => True

variable {existing : ObjectRow}

theorem newer_eq_new_iff {rows : List ObjectRow} {row : ObjectRow}
    (hfresh : ∀ old ∈ rows, old.id ≠ row.id) : newer (findObject rows bucket name) row = some row ↔
      ∀ old, findObject rows bucket name = some old → old.record.generation < row.record.generation := by
  cases hold : findObject rows bucket name with
  | none => simp [newer]
  | some old =>
      have hne : old ≠ row := by
        rintro rfl
        exact hfresh old (of_findObject hold).1 rfl
      simp [newer, hne]

/-- The row that is served is the new one, if it is the newest. -/
theorem serves_stored_iff (hfresh : ∀ row ∈ store.rows, row.id ≠ (inputs 6).id) {row : ObjectRow} :
    Serves md5 (store.stored sha256 md5 inputs bucket name data options) bucket name (inputs 6).id data
        options row ↔
      row = newRow sha256 md5 store inputs bucket name data options ∧
        Newest store inputs store.rows bucket name := by
  have hget : (store.stored sha256 md5 inputs bucket name data options).getObject bucket name =
      newer (findObject store.rows bucket name)
        (newRow sha256 md5 store inputs bucket name data options) :=
    findObject_append.trans (if_pos ⟨rfl, rfl⟩)
  have hnewest : newer (findObject store.rows bucket name)
      (newRow sha256 md5 store inputs bucket name data options) = some _ ↔
        Newest store inputs store.rows bucket name := newer_eq_new_iff hfresh
  constructor
  · intro hserves
    have hnew : row = newRow sha256 md5 store inputs bucket name data options := by
      rcases List.mem_append.1 (of_findObject hserves.found).1 with hold | hnew
      · exact absurd hserves.id (hfresh row hold)
      · exact List.mem_singleton.1 hnew
    subst hnew
    exact ⟨rfl, hnewest.1 (hget.symm.trans hserves.found)⟩
  · rintro ⟨rfl, h⟩
    exact ⟨hget.trans (hnewest.2 h), rfl, ⟨rfl, rfl, rfl, rfl, rfl, rfl, rfl⟩, Function.update_self ..⟩

/-- Where the row of an object is gone, it is found no more. -/
theorem getObject_ne {after : ObjectStore} (h : ∀ row ∈ after.rows, row.id ≠ existing.id) :
    after.getObject bucket name ≠ some existing :=
  fun hfound => h existing (of_findObject hfound).1 rfl

theorem not_atomic {after : ObjectStore} {thrown : Thrown} {id : ℕ}
    (h : ∀ row ∈ after.rows, row.id ≠ existing.id) :
    ¬Atomic md5 store after bucket name existing id data options (.error thrown) :=
  fun hatomic => getObject_ne h (hatomic.failed thrown rfl).1

theorem atomic_unchanged {thrown : Thrown} {id : ℕ} (hfound : store.getObject bucket name = some existing) :
    Atomic md5 store store bucket name existing id data options (.error thrown) :=
  ⟨fun _ _ => ⟨hfound, rfl⟩, fun _ h => nomatch h⟩

/-- A failure that leaves the rows as they were, but not the content. -/
theorem atomic_deleted_iff {thrown : Thrown} {id : ℕ} (outside : Outside)
    (hfound : store.getObject bucket name = some existing) :
    Atomic md5 store (store.written outside (.delete existing.record.blobPath)) bucket name existing id data
        options (.error thrown) ↔ store.blobs existing.record.blobPath = none := by
  have hgone : (store.written outside (.delete existing.record.blobPath)).blobs existing.record.blobPath =
      none := Function.update_self ..
  constructor
  · intro hatomic
    exact (hatomic.failed thrown rfl).2.symm.trans hgone
  · intro hnone
    exact ⟨fun _ _ => ⟨hfound, hgone.trans hnone.symm⟩, fun _ h => nomatch h⟩

/-- **Overwriting is atomic** if and only if nothing fails once the object was touched, and the new one is
the newest of its name. -/
theorem overwrite_atomic_iff (sha256 : JsString → JsString) (md5 : List UInt8 → JsString)
    (store : ObjectStore) (inputs : ℕ → Outside) (bucket name : JsString) (data : List UInt8)
    (options : InsertOptions) (existing : ObjectRow) (hname : WellFormed name)
    (hfound : store.getObject bucket name = some existing)
    (hfresh : ∀ row ∈ store.rows, row.id ≠ (inputs 11).id) :
    Atomic md5 store ((insertObject sha256 md5 bucket name data options).play objectWorld inputs store).1
        bucket name existing (inputs 11).id data options
        ((insertObject sha256 md5 bucket name data options).play objectWorld inputs store).2 ↔
      (store.getBucketByName bucket).isNone ∨ Spared store inputs bucket name existing := by
  cases h0 : (inputs 0).reply with
  | rejected applied =>
      have hplay : (insertObject sha256 md5 bucket name data options).play objectWorld inputs store =
          (store, .error (.error "Storage error")) :=
        (play_ask (handle_rejected h0 rfl)).trans (by cases applied <;> rfl)
      rw [hplay, Spared, h0]
      exact iff_of_true (atomic_unchanged hfound) (.inr trivial)
  | done =>
  cases hbucket : store.answered (inputs 0) (.getBucketByName bucket) with
  | none =>
      have hplay : (insertObject sha256 md5 bucket name data options).play objectWorld inputs store =
          (store, .error (.gcs .notFound (js "Bucket " ++ bucket ++ js " not found"))) :=
        (play_ask (handle_answer h0 hbucket)).trans rfl
      rw [hplay]
      exact iff_of_true (atomic_unchanged hfound) (.inl (Option.isNone_iff_eq_none.2 hbucket))
  | some record =>
  have hsome : ¬(store.getBucketByName bucket).isNone = true := by
    rw [show store.getBucketByName bucket = some record from hbucket]
    exact Bool.false_ne_true
  have hobject : store.answered (inputs 1) (.getObject bucket name) = some existing := hfound
  rw [or_iff_right hsome]
  cases h1 : (inputs 1).reply with
  | rejected applied =>
      have hplay : (insertObject sha256 md5 bucket name data options).play objectWorld inputs store =
          (store, .error (.error "Storage error")) :=
        (play_ask (handle_answer h0 hbucket)).trans
          ((play_ask (handle_rejected h1 rfl)).trans (by cases applied <;> rfl))
      rw [hplay, Spared, h0, h1]
      exact iff_of_true (atomic_unchanged hfound) trivial
  | done =>
  cases h2 : (inputs 2).reply with
  | rejected applied =>
      have hplay : (insertObject sha256 md5 bucket name data options).play objectWorld inputs store =
          (if applied then store.left (inputs 2) (.delete existing.record.blobPath) else store,
            .error (.error "Storage error")) := by
        refine (play_ask (handle_answer h0 hbucket)).trans ?_
        refine (play_ask (handle_answer h1 hobject)).trans ?_
        exact play_ask (handle_rejected h2 rfl)
      rw [hplay, Spared, h0, h1, h2]
      cases applied with
      | false => exact iff_of_true (atomic_unchanged hfound) (.inl rfl)
      | true =>
          refine (atomic_deleted_iff (inputs 2) hfound).trans ?_
          exact (or_iff_right Bool.true_eq_false.mp).symm
  | done =>
  have hcleared : (store.written (inputs 2) (.delete existing.record.blobPath)).answered (inputs 3)
      (.getObject bucket name) = some existing := hfound
  cases h3 : (inputs 3).reply with
  | rejected applied =>
      have hplay : (insertObject sha256 md5 bucket name data options).play objectWorld inputs store =
          (store.written (inputs 2) (.delete existing.record.blobPath),
            .error (.error "Storage error")) := by
        refine (play_ask (handle_answer h0 hbucket)).trans ?_
        refine (play_ask (handle_answer h1 hobject)).trans ?_
        refine (play_ask (handle_done h2)).trans ?_
        refine (play_ask (handle_rejected h3 rfl)).trans ?_
        cases applied <;> rfl
      rw [hplay, Spared, h0, h1, h2, h3]
      exact atomic_deleted_iff (inputs 2) hfound
  | done =>
  cases h4 : (inputs 4).reply with
  | rejected applied =>
      have hplay : (insertObject sha256 md5 bucket name data options).play objectWorld inputs store =
          (if applied then store.cleared existing
            else store.written (inputs 2) (.delete existing.record.blobPath),
            .error (.error "Storage error")) := by
        refine (play_ask (handle_answer h0 hbucket)).trans ?_
        refine (play_ask (handle_answer h1 hobject)).trans ?_
        refine (play_ask (handle_done h2)).trans ?_
        refine (play_ask (handle_answer h3 hcleared)).trans ?_
        exact play_ask (handle_rejected h4 rfl)
      rw [hplay, Spared, h0, h1, h2, h3, h4]
      cases applied with
      | true =>
          refine iff_of_false (not_atomic fun row hrow => ?_) fun h => nomatch h.1
          exact of_decide_eq_true (List.mem_filter.1 hrow).2
      | false =>
          refine (atomic_deleted_iff (inputs 2) hfound).trans ?_
          exact (and_iff_right rfl).symm
  | done =>
  have hplay : (insertObject sha256 md5 bucket name data options).play objectWorld inputs store =
      (storeObject sha256 md5 bucket name data options).play objectWorld (fun n => inputs (n + 5))
        (store.cleared existing) := by
    refine (play_ask (handle_answer h0 hbucket)).trans ?_
    refine (play_ask (handle_answer h1 hobject)).trans ?_
    refine (play_ask (handle_done h2)).trans ?_
    refine (play_ask (handle_answer h3 hcleared)).trans ?_
    exact play_ask (handle_done h4)
  rw [hplay, Spared, h0, h1, h2, h3, h4]
  have hkept : ∀ row ∈ (store.cleared existing).rows, row ∈ store.rows ∧ row.id ≠ existing.id :=
    fun row hrow => (List.mem_filter.1 hrow).imp id of_decide_eq_true
  by_cases hstored : (inputs 7).reply = .done ∧ (inputs 8).reply = .done ∧ (inputs 11).reply = .done
  · obtain ⟨hwrite, hread, hcreate⟩ := hstored
    obtain ⟨response, hresponse, hplayed⟩ := @play_storeObject sha256 md5 (store.cleared existing)
      (fun n => inputs (n + 5)) bucket name data options hname hwrite hread hcreate
    have hserves := @serves_stored_iff sha256 md5 (store.cleared existing) (fun n => inputs (n + 5)) bucket
      name data options fun row hrow => hfresh row (hkept row hrow).1
    rw [hplayed]
    constructor
    · intro hatomic
      obtain ⟨row, hrow, -⟩ := hatomic.succeeded response rfl
      exact ⟨hwrite, hread, hcreate, (hserves.1 hrow).2⟩
    · rintro ⟨-, -, -, hnewest⟩
      refine ⟨(fun _ h => nomatch h), fun response' h => ?_⟩
      obtain rfl := Except.ok.inj h
      refine ⟨_, hserves.2 ⟨rfl, hnewest⟩, hresponse, ?_⟩
      by_cases hpath : existing.record.blobPath =
          newPath sha256 (store.cleared existing) (fun n => inputs (n + 5)) bucket name
      · exact .inl hpath
      · refine .inr ((Function.update_of_ne hpath ..).trans ?_)
        exact Function.update_self ..
  · obtain ⟨after, thrown, hplayed, hrows⟩ := @storeObject_rejected sha256 md5 (store.cleared existing)
      (fun n => inputs (n + 5)) bucket name data options hstored
    rw [hplayed]
    refine iff_of_false (not_atomic fun row hrow => ?_) fun h => hstored ⟨h.1, h.2.1, h.2.2.1⟩
    rcases hrows row hrow with hold | hnew
    · exact (hkept row hold).2
    · rw [hnew]
      exact Ne.symm (hfresh existing (of_findObject hfound).1)

end Insertion

def sampleRow : ObjectRow :=
  ⟨0, ⟨"bucket", "a.txt", "1000", 1, "text/plain", 1, "md5", "crc", "etag", "STANDARD", "then", "then", none,
    ⟨"bucket", "a.txt", "1000"⟩, none, none, none, none⟩⟩

/-- A bucket with one object. -/
def sampleStore : ObjectStore where
  buckets := [⟨"bucket", "STANDARD"⟩]
  rows := [sampleRow]
  blobs := fun path => if path = sampleRow.record.blobPath then some [7] else none
  generationCounter := 1

theorem overwrite_atomic_iff_sample :
    Atomic (fun _ => []) sampleStore ((insertObject id (fun _ => []) "bucket" "a.txt" [8] {}).play
        objectWorld (fun _ => ⟨.done, 1, 2, 0⟩) sampleStore).1
        "bucket" "a.txt" sampleRow 1 [8] {}
        ((insertObject id (fun _ => []) "bucket" "a.txt" [8] {}).play objectWorld
          (fun _ => ⟨.done, 1, 2, 0⟩) sampleStore).2 ↔
      (sampleStore.getBucketByName "bucket").isNone ∨
        Spared sampleStore (fun _ => ⟨.done, 1, 2, 0⟩) "bucket" "a.txt" sampleRow :=
  overwrite_atomic_iff id (fun _ => []) sampleStore (fun _ => ⟨.done, 1, 2, 0⟩) "bucket" "a.txt" [8] {}
    sampleRow (by decide +kernel) rfl (List.forall_mem_singleton.2 (by decide))

/-- The write of the new content fails. -/
def fullDisk (n : ℕ) : Outside := ⟨if n = 7 then .rejected false else .done, 1, 2, 0⟩

theorem not_overwrite_atomic : ¬∀ inputs : ℕ → Outside,
    Atomic (fun _ => []) sampleStore ((insertObject id (fun _ => []) "bucket" "a.txt" [8] {}).play
        objectWorld inputs sampleStore).1
        "bucket" "a.txt" sampleRow (inputs 11).id [8] {}
        ((insertObject id (fun _ => []) "bucket" "a.txt" [8] {}).play objectWorld inputs sampleStore).2 := by
  intro h
  have hatomic := h fullDisk
  have hlost : (match (insertObject id (fun _ => []) "bucket" "a.txt" [8] {}).play objectWorld fullDisk
      sampleStore with
    | (after, .error _) => (after.getObject "bucket" "a.txt").isNone
    | _ => false) = true := by decide +kernel
  split at hlost
  · rename_i after thrown hplay
    rw [hplay] at hatomic
    rw [(hatomic.failed thrown rfl).1] at hlost
    exact nomatch hlost
  · exact nomatch hlost

end Kinglet.Gcs
