import Kinglet.Js.Value
import Kinglet.Storage.PageWalk

/-!
# Composed operations

Services that own the same operations paths share one set of routes over a list of stores. A list asks
every store for its whole table beneath a project and location, and cuts the merged and sorted answers
into pages; get, cancel and delete try one store after the other. So every name is served by the store
that owns it, and the walk over the pages lists what the `LIKE` filters of the stores let through.

`localeCompare` is the collation of the JavaScript engine.
-/

namespace Kinglet.Gateway

open Js Storage Library Library.Paging

/-! ## Stores -/

structure OperationMetadata where
  type : Option JsString
  createTime : JsString
  endTime : JsString
  target : JsString
  verb : JsString
  apiVersion : JsString
  requestedCancellation : Option Bool

/-- The columns beside the name; those with JSON hold what their text is read back as. -/
structure OperationData where
  metadata : OperationMetadata
  done : ℕ
  response : Option Fields
  error : Option Fields

structure OperationResponse where
  name : JsString
  metadata : OperationMetadata
  done : Bool
  response : Option Fields
  error : Option Fields

def operationRecordToResponse (record : Row OperationData) : OperationResponse :=
  ⟨record.name, record.data.metadata, record.data.done == 1, record.data.response, record.data.error⟩

/-- The store of a service, and whether its API has a `cancelOperation`. -/
structure OperationsStore where
  table : Table OperationData
  cancellable : Bool

/-- `projects/${project}/locations/${location}/operations/`. -/
def operationsPrefix (project location : JsString) : JsString :=
  js "projects/" ++ project ++ js "/locations/" ++ location ++ js "/operations/"

def buildOperationName (project location operationId : JsString) : JsString :=
  operationsPrefix project location ++ operationId

namespace OperationsStore

variable (store : OperationsStore)

def getOperation (name : JsString) : Option OperationResponse :=
  (store.table.getByName name).map operationRecordToResponse

/-- The operations that `listOperations(project, location, pageSize)` returns. -/
def listOperations (provider : Provider) (project location : JsString) (pageSize : ℕ) :
    List OperationResponse :=
  (listByPrefix provider store.table (operationsPrefix project location) (some pageSize) none).records.map
    operationRecordToResponse

/-- `deleteOperation(name)`: the store afterwards, when it returns `true`. -/
def deleteOperation (name : JsString) : Option OperationsStore :=
  (store.table.getByName name).map fun record =>
    { store with table := store.table.deleteById record.id }

def requestCancellation (data : OperationData) : OperationData :=
  { data with metadata := { data.metadata with requestedCancellation := some true } }

/-- `cancelOperation?.(name)`: the store afterwards, when it returns `true`. -/
def cancelOperation (name : JsString) : Option OperationsStore :=
  if store.cancellable then
    (store.table.getByName name).map fun record =>
      { store with table := store.table.updateById record.id ⟨none, requestCancellation⟩ }
  else none

end OperationsStore

/-! ## The routes -/

/-- `parsePageSize(raw)`: what is no number, or not positive, is no page size. -/
def parsePageSize (raw : Option JsString) : Option ℕ :=
  if 0 < parseOffsetToken raw then some (parseOffsetToken raw) else none

/-- `UNBOUNDED_STORE_PAGE_SIZE`. -/
def unboundedStorePageSize : ℕ := 1000000

section Routes

variable (localeCompare : JsString → JsString → Ordering) (provider : Provider)
  (stores : List OperationsStore)

/-- `compareOperationsByName(a, b) <= 0`. -/
def operationLe (a b : OperationResponse) : Bool := localeCompare a.name b.name ≠ .gt

/-- The operations of all stores, as the list route merges them. -/
def mergedOperations (project location : JsString) : List OperationResponse :=
  (stores.flatMap fun store =>
    store.listOperations provider project location unboundedStorePageSize).mergeSort
      (operationLe localeCompare)

/-- `composedOperations.list`: the operations of a page, and the token of the next one. -/
def composedList (project location : JsString) (pageSize pageToken : Option JsString) :
    Page (Option JsString) OperationResponse :=
  let size := (parsePageSize pageSize).getD defaultListPageSize
  let offset := parseOffsetToken pageToken
  let merged := mergedOperations localeCompare provider stores project location
  { items := (merged.drop offset).take size
    next := if offset + size < merged.length then some (some (decimal (offset + size))) else none }

/-- `composedOperations.get`; `none` is the answer that there is no such operation. -/
def composedGet (name : JsString) : Option OperationResponse :=
  stores.findSome? fun store => store.getOperation name

/-- The stores after the first of them that acts, and whether one did. -/
def firstActing (act : OperationsStore → Option OperationsStore) :
    List OperationsStore → Bool × List OperationsStore
  | [] => (false, [])
  | store :: stores =>
      match act store with
      | some acted => (true, acted :: stores)
      | none => ((firstActing act stores).1, store :: (firstActing act stores).2)

/-- `composedOperations.cancel`. -/
def composedCancel (name : JsString) : Bool × List OperationsStore :=
  firstActing (fun store => store.cancelOperation name) stores

/-- `composedOperations.delete`. -/
def composedDelete (name : JsString) : Bool × List OperationsStore :=
  firstActing (fun store => store.deleteOperation name) stores

end Routes

/-! ## What the routes are for -/

namespace OperationsStore

def Owns (store : OperationsStore) (name : JsString) : Prop := name ∈ store.table.names

/-- The store without the operation. -/
def without (store : OperationsStore) (name : JsString) : OperationsStore :=
  { store with
    table := { store.table with rows := store.table.rows.filter fun row => row.name ≠ name } }

/-- The store with the cancellation of the operation requested. -/
def cancelled (store : OperationsStore) (name : JsString) : OperationsStore :=
  { store with
    table := { store.table with
      rows := store.table.rows.map fun row =>
        if row.name = name then { row with data := requestCancellation row.data } else row } }

end OperationsStore

/-- Stores with disjoint names, which are unique in each as its identifiers are, and no more
operations than the routes ask a store for. -/
structure Disjoint (stores : List OperationsStore) : Prop where
  names : (stores.flatMap fun store => store.table.names).Nodup
  ids : ∀ store ∈ stores, (store.table.rows.map Row.id).Nodup
  length_le : ∀ store ∈ stores, store.table.rows.length ≤ unboundedStorePageSize

/-- The walk from the first page ends, and lists each operation of the stores beneath the project and
location once. -/
def ListsBeneath (localeCompare : JsString → JsString → Ordering) (provider : Provider)
    (stores : List OperationsStore) (project location : JsString) (size : ℕ) : Prop :=
  ∃ pages, Walk (composedList localeCompare provider stores project location (some (decimal size)))
      none pages ∧
    pages.flatten.Perm (stores.flatMap fun store =>
      (beneath store.table (operationsPrefix project location)).map operationRecordToResponse)

/-- The routes act on the store that owns a name, and on nothing else. -/
structure ActsOnOwner (stores : List OperationsStore) (name : JsString) : Prop where
  get : ∀ store ∈ stores, store.Owns name → composedGet stores name = store.getOperation name
  cancel : ∀ before store after, stores = before ++ store :: after → store.Owns name →
    composedCancel stores name =
      if store.cancellable then (true, before ++ store.cancelled name :: after) else (false, stores)
  delete : ∀ before store after, stores = before ++ store :: after → store.Owns name →
    composedDelete stores name = (true, before ++ store.without name :: after)
  absent : (∀ store ∈ stores, ¬store.Owns name) → composedGet stores name = none ∧
    composedCancel stores name = (false, stores) ∧ composedDelete stores name = (false, stores)

variable {localeCompare : JsString → JsString → Ordering} {provider : Provider}
  {store : OperationsStore} {stores : List OperationsStore} {project location name : JsString}
  {size : ℕ}

/-! ## The walk -/

theorem parsePageSize_decimal (hsize : 0 < size) : parsePageSize (some (decimal size)) = some size := by
  rw [parsePageSize, parseOffsetToken_decimal, if_pos hsize]

theorem offsets_composedList (hsize : 0 < size) :
    Offsets (composedList localeCompare provider stores project location (some (decimal size)))
      (fun offset => some (decimal offset)) size
      (mergedOperations localeCompare provider stores project location) where
  items offset := by
    simp only [composedList, parsePageSize_decimal hsize, parseOffsetToken_decimal, Option.getD_some]
  next offset := by
    simp only [composedList, parsePageSize_decimal hsize, parseOffsetToken_decimal, Option.getD_some]

/-- The walk from the first page lists what the filters let through. -/
theorem exists_walk_merged (localeCompare : JsString → JsString → Ordering) (provider : Provider)
    (stores : List OperationsStore) (project location : JsString) (hsize : 0 < size) :
    ∃ pages, Walk (composedList localeCompare provider stores project location (some (decimal size)))
        none pages ∧
      pages.flatten = mergedOperations localeCompare provider stores project location := by
  obtain ⟨pages, hwalk, hflatten, -⟩ := (offsets_composedList hsize).exists_walk hsize 0
  refine ⟨pages, hwalk.of_page_eq ?_, hflatten⟩
  have hzero : parseOffsetToken none = parseOffsetToken (some (decimal 0)) :=
    (parseOffsetToken_decimal 0).symm
  simp only [composedList, hzero]

/-- A store with no more operations than it is asked for answers with all that its filter lets
through. -/
theorem listOperations_perm (hlength : store.table.rows.length ≤ unboundedStorePageSize) :
    (store.listOperations provider project location unboundedStorePageSize).Perm
      ((matching provider store.table (operationsPrefix project location)).map
        operationRecordToResponse) := by
  have hmatching : (sortByName provider (matching provider store.table
      (operationsPrefix project location))).length ≤ unboundedStorePageSize := by
    rw [(perm_sortByName _).length_eq]
    exact (List.length_filter_le _ _).trans hlength
  refine List.Perm.map _ ?_
  have hrecords : (listByPrefix provider store.table (operationsPrefix project location)
      (some unboundedStorePageSize) none).records =
        sortByName provider (matching provider store.table (operationsPrefix project location)) := by
    have hlimit : unboundedStorePageSize ≠ 0 := by decide
    have hzero : parseOffsetToken none = 0 := rfl
    have hall := List.take_of_length_le hmatching
    cases provider <;>
      simp only [listByPrefix, paginate, Option.getD_some, hzero, if_neg hlimit, List.drop_zero, hall]
  rw [hrecords]
  exact perm_sortByName _

theorem mergedOperations_perm (h : Disjoint stores) :
    (mergedOperations localeCompare provider stores project location).Perm (stores.flatMap fun store =>
      (matching provider store.table (operationsPrefix project location)).map
        operationRecordToResponse) := by
  refine (List.mergeSort_perm _ _).trans ?_
  exact List.Perm.flatMap_left _ fun store hstore => listOperations_perm (h.length_le store hstore)

/-- Whether a stored operation is among the filtered ones depends on its name alone. -/
theorem mem_names_filter (test : JsString → Bool) {row : Row OperationData}
    (hstore : store ∈ stores) (hrow : row ∈ store.table.rows) :
    row.name ∈ (stores.flatMap fun store =>
      (store.table.rows.filter fun row => test row.name).map operationRecordToResponse).map
        OperationResponse.name ↔ test row.name = true := by
  simp only [List.mem_map, List.mem_flatMap, List.mem_filter]
  constructor
  · rintro ⟨response, ⟨other, hother, row', ⟨hrow', htest⟩, rfl⟩, hname⟩
    have hname : row'.name = row.name := hname
    rwa [← hname]
  · intro htest
    exact ⟨_, ⟨store, hstore, row, ⟨hrow, htest⟩, rfl⟩, rfl⟩

/-- The walk lists the operations beneath a project and location if and only if `LIKE` tells which of
the stored names start with the prefix. -/
theorem listsBeneath_iff (h : Disjoint stores) (hsize : 0 < size) :
    ListsBeneath localeCompare provider stores project location size ↔
      ∀ store ∈ stores, ∀ row ∈ store.table.rows,
        like provider row.name (operationsPrefix project location ++ js "%") =
          startsWith row.name (operationsPrefix project location) := by
  obtain ⟨pages, hwalk, hflatten⟩ :=
    exists_walk_merged localeCompare provider stores project location hsize
  have hmerged : (mergedOperations localeCompare provider stores project location).Perm _ :=
    mergedOperations_perm h
  constructor
  · rintro ⟨pages', hwalk', hbeneath⟩ store hstore row hrow
    obtain rfl := hwalk'.unique hwalk
    rw [hflatten] at hbeneath
    have hnames := ((hmerged.symm.trans hbeneath).map OperationResponse.name).mem_iff (a := row.name)
    have hlet := mem_names_filter
      (fun name => like provider name (operationsPrefix project location ++ js "%")) hstore hrow
    have hbelow := mem_names_filter
      (fun name => startsWith name (operationsPrefix project location)) hstore hrow
    exact Bool.eq_iff_iff.2 (hlet.symm.trans (hnames.trans hbelow))
  · intro hlike
    refine ⟨pages, hwalk, ?_⟩
    rw [hflatten]
    refine hmerged.trans (List.Perm.flatMap_left _ fun store hstore => ?_)
    have hmatching : matching provider store.table (operationsPrefix project location) =
        beneath store.table (operationsPrefix project location) :=
      List.filter_congr (hlike store hstore)
    rw [hmatching]

/-! ## The owner -/

theorem getOperation_eq_none (h : ¬store.Owns name) : store.table.getByName name = none := by
  refine List.find?_eq_none.2 fun row hrow heq => h ?_
  exact List.mem_map.2 ⟨row, hrow, of_decide_eq_true heq⟩

theorem exists_getByName (h : store.Owns name) :
    ∃ record ∈ store.table.rows, store.table.getByName name = some record ∧ record.name = name := by
  obtain ⟨row, hrow, hname⟩ := List.mem_map.1 h
  obtain ⟨record, hrecord⟩ : ∃ record, store.table.getByName name = some record :=
    Option.isSome_iff_exists.1 (List.find?_isSome.2 ⟨row, hrow, decide_eq_true hname⟩)
  exact ⟨record, List.mem_of_find?_eq_some hrecord, hrecord,
    of_decide_eq_true (List.find?_some (p := fun row : Row OperationData => row.name = name) hrecord)⟩

/-- In a store with unique names and identifiers, the identifier of a name tells its row. -/
theorem id_eq_iff {record row : Row OperationData} (hnames : store.table.names.Nodup)
    (hids : (store.table.rows.map Row.id).Nodup) (hrecord : record ∈ store.table.rows)
    (hrow : row ∈ store.table.rows) : row.id = record.id ↔ row.name = record.name :=
  ⟨fun h => congrArg Row.name (List.inj_on_of_nodup_map hids hrow hrecord h),
    fun h => congrArg Row.id (List.inj_on_of_nodup_map hnames hrow hrecord h)⟩

theorem deleteOperation_eq (hnames : store.table.names.Nodup)
    (hids : (store.table.rows.map Row.id).Nodup) (h : store.Owns name) :
    store.deleteOperation name = some (store.without name) := by
  obtain ⟨record, hrecord, hget, rfl⟩ := exists_getByName h
  have hrows : store.table.rows.filter (fun row => row.id ≠ record.id) =
      store.table.rows.filter fun row => row.name ≠ record.name :=
    List.filter_congr fun row hrow =>
      decide_eq_decide.2 (not_congr (id_eq_iff hnames hids hrecord hrow))
  rw [OperationsStore.deleteOperation, hget, Option.map_some, Table.deleteById, hrows,
    OperationsStore.without]

theorem cancelOperation_eq (hnames : store.table.names.Nodup)
    (hids : (store.table.rows.map Row.id).Nodup) (h : store.Owns name)
    (hcancellable : store.cancellable = true) :
    store.cancelOperation name = some (store.cancelled name) := by
  obtain ⟨record, hrecord, hget, rfl⟩ := exists_getByName h
  rw [OperationsStore.cancelOperation, if_pos hcancellable, hget, Option.map_some, Table.updateById,
    OperationsStore.cancelled]
  have hrows : (store.table.rows.map fun row =>
      if row.id = record.id then
        Table.patchRow ⟨none, OperationsStore.requestCancellation⟩ row else row) =
      store.table.rows.map fun row =>
        if row.name = record.name then
          { row with data := OperationsStore.requestCancellation row.data } else row := by
    refine List.map_congr_left fun row hrow => ?_
    simp only [id_eq_iff hnames hids hrecord hrow]
    rfl
  rw [hrows]

/-- The stores before the first one that acts are passed over. -/
theorem firstActing_append {act : OperationsStore → Option OperationsStore}
    {before after : List OperationsStore} {acted : OperationsStore}
    (hbefore : ∀ other ∈ before, act other = none) (hact : act store = some acted) :
    firstActing act (before ++ store :: after) = (true, before ++ acted :: after) := by
  induction before with
  | nil => rw [List.nil_append, firstActing, hact, List.nil_append]
  | cons other before ih =>
      obtain ⟨hother, hbefore⟩ := List.forall_mem_cons.1 hbefore
      rw [List.cons_append, firstActing, hother, ih hbefore, List.cons_append]

theorem firstActing_none {act : OperationsStore → Option OperationsStore}
    (h : ∀ other ∈ stores, act other = none) : firstActing act stores = (false, stores) := by
  induction stores with
  | nil => rfl
  | cons other stores ih =>
      obtain ⟨hother, hstores⟩ := List.forall_mem_cons.1 h
      rw [firstActing, hother, ih hstores]

/-- No store beside the owner has the name. -/
theorem Disjoint.not_owns {before after : List OperationsStore}
    (h : Disjoint (before ++ store :: after)) (howns : store.Owns name) :
    ∀ other ∈ before ++ after, ¬other.Owns name := by
  have hperm : (before ++ store :: after).Perm (store :: (before ++ after)) := List.perm_middle
  have hnames := (hperm.flatMap_right fun store => store.table.names).nodup_iff.1 h.names
  rw [List.flatMap_cons, List.nodup_append] at hnames
  intro other hother hother'
  exact hnames.2.2 _ howns _ (List.mem_flatMap.2 ⟨other, hother, hother'⟩) rfl

theorem Disjoint.names_nodup (h : Disjoint stores) (hstore : store ∈ stores) :
    store.table.names.Nodup :=
  (List.nodup_flatMap.1 h.names).1 store hstore

theorem not_acting (h : ¬store.Owns name) :
    store.deleteOperation name = none ∧ store.cancelOperation name = none ∧
      store.getOperation name = none := by
  have hnone := getOperation_eq_none h
  refine ⟨?_, ?_, ?_⟩
  · rw [OperationsStore.deleteOperation, hnone, Option.map_none]
  · rw [OperationsStore.cancelOperation, hnone, Option.map_none, ite_self]
  · rw [OperationsStore.getOperation, hnone, Option.map_none]

theorem actsOnOwner (h : Disjoint stores) (name : JsString) : ActsOnOwner stores name where
  get store hstore howns := by
    obtain ⟨before, after, rfl⟩ := List.append_of_mem hstore
    have hothers := h.not_owns howns
    obtain ⟨record, -, hget, -⟩ := exists_getByName howns
    have hbefore : before.findSome? (fun store => store.getOperation name) = none :=
      List.findSome?_eq_none_iff.2 fun other hother =>
        (not_acting (hothers other (List.mem_append_left _ hother))).2.2
    have hfound : store.getOperation name = some (operationRecordToResponse record) := by
      rw [OperationsStore.getOperation, hget, Option.map_some]
    rw [composedGet, List.findSome?_append, hbefore, Option.none_or, List.findSome?_cons, hfound]
  cancel before store after hstores howns := by
    subst hstores
    have hothers := h.not_owns howns
    have hstore : store ∈ before ++ store :: after :=
      List.mem_append_right _ List.mem_cons_self
    by_cases hcancellable : store.cancellable = true
    · rw [if_pos hcancellable]
      refine firstActing_append (fun other hother => ?_)
        (cancelOperation_eq (h.names_nodup hstore) (h.ids store hstore) howns hcancellable)
      exact (not_acting (hothers other (List.mem_append_left _ hother))).2.1
    · rw [if_neg hcancellable]
      refine firstActing_none fun other hother => ?_
      by_cases hother' : other = store
      · rw [hother']
        exact if_neg hcancellable
      · refine (not_acting (hothers other ?_)).2.1
        simpa [hother'] using hother
  delete before store after hstores howns := by
    subst hstores
    have hothers := h.not_owns howns
    have hstore : store ∈ before ++ store :: after :=
      List.mem_append_right _ List.mem_cons_self
    refine firstActing_append (fun other hother => ?_)
      (deleteOperation_eq (h.names_nodup hstore) (h.ids store hstore) howns)
    exact (not_acting (hothers other (List.mem_append_left _ hother))).1
  absent hnone :=
    ⟨List.findSome?_eq_none_iff.2 fun store hstore => (not_acting (hnone store hstore)).2.2,
      firstActing_none fun store hstore => (not_acting (hnone store hstore)).2.1,
      firstActing_none fun store hstore => (not_acting (hnone store hstore)).1⟩

/-- **Composed operations.** Get, cancel and delete act on the owner of a name alone. The walk over the
pages lists the operations of all stores beneath a project and location if and only if `LIKE` tells
which of the stored names start with the prefix. -/
theorem composed_operations_iff (localeCompare : JsString → JsString → Ordering) (provider : Provider)
    (stores : List OperationsStore) (h : Disjoint stores) :
    (∀ project location size, 0 < size →
      (ListsBeneath localeCompare provider stores project location size ↔
        ∀ store ∈ stores, ∀ row ∈ store.table.rows,
          like provider row.name (operationsPrefix project location ++ js "%") =
            startsWith row.name (operationsPrefix project location))) ∧
      ∀ name, ActsOnOwner stores name :=
  ⟨fun _ _ _ hsize => listsBeneath_iff h hsize, actsOnOwner h⟩

def sampleOperation (id : ℕ) (name : String) : Row OperationData :=
  ⟨id, name, ⟨⟨none, [], [], [], js "create", js "v1", none⟩, 1, none, none⟩⟩

/-- Two stores, with an operation of one project each. -/
def sampleStores : List OperationsStore :=
  [⟨⟨[sampleOperation 0 "projects/my-app/locations/us/operations/1"], 1⟩, false⟩,
    ⟨⟨[sampleOperation 0 "projects/other/locations/us/operations/2"], 1⟩, true⟩]

theorem sampleStores_disjoint : Disjoint sampleStores where
  names := by decide +kernel
  ids := by decide +kernel
  length_le := by decide +kernel

theorem composed_operations_iff_sample :
    (∀ project location size, 0 < size →
      (ListsBeneath (fun _ _ => .eq) .sqlite sampleStores project location size ↔
        ∀ store ∈ sampleStores, ∀ row ∈ store.table.rows,
          like .sqlite row.name (operationsPrefix project location ++ js "%") =
            startsWith row.name (operationsPrefix project location))) ∧
      ∀ name, ActsOnOwner sampleStores name :=
  composed_operations_iff (fun _ _ => .eq) .sqlite sampleStores sampleStores_disjoint

/-- In SQLite the `_` of a project lets the hyphen of another one through. -/
theorem not_composed_operations :
    ¬∀ project location size, 0 < size →
      ListsBeneath (fun _ _ => .eq) .sqlite sampleStores project location size := by
  intro h
  have hlists := h "my_app" "us" 10 (by decide)
  have hlike := (listsBeneath_iff sampleStores_disjoint (by decide)).1 hlists _ List.mem_cons_self _
    List.mem_cons_self
  exact absurd hlike (by decide +kernel)

end Kinglet.Gateway
