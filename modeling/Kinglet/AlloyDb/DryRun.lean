import Kinglet.AlloyDb.ClusterRuns
import Mathlib.Data.Fintype.EquivFin

/-!
# Dry runs

A request with `validateOnly` ends as it would end without it, where the storage and the data plane reject
nothing: with the same response, for the same readings of the clock and the same identifiers, or with the
same error. The creation of a cluster is the exception: a user of the initial user's name that is left
from before is met by the real request only.
-/

namespace Kinglet.AlloyDb

open Js Library Storage Shared

/-- Nothing is rejected, the clock stands, and the identifiers are given. -/
def calmWorld (provider : Provider) (now : ℤ) (uuid : JsString) :
    World Ask Answer Thrown AlloyStore Outside :=
  alloyWorld provider fun store ask outside =>
    outside.reply = .done ∧ outside.now = now ∧ outside.uuid = uuid ∧ Fresh store.rows outside ask

/-- The request with `validateOnly`, or without it. -/
def Request.validating (validateOnly : Bool) : Request → Request
  | .createCluster path body _ => .createCluster path body validateOnly
  | .restoreCluster path body _ => .restoreCluster path body validateOnly
  | .updateCluster path body updateMask allowMissing _ =>
      .updateCluster path body updateMask allowMissing validateOnly
  | .deleteCluster path force _ => .deleteCluster path force validateOnly
  | .createInstance path instanceId body _ => .createInstance path instanceId body validateOnly
  | .updateInstance path instanceId body updateMask allowMissing _ =>
      .updateInstance path instanceId body updateMask allowMissing validateOnly
  | .deleteInstance path instanceId _ => .deleteInstance path instanceId validateOnly
  | .createUser path userId body _ => .createUser path userId body validateOnly
  | .updateUser path userId body updateMask allowMissing _ =>
      .updateUser path userId body updateMask allowMissing validateOnly
  | .deleteUser path userId _ => .deleteUser path userId validateOnly

/-- What the creation of a cluster checks. -/
def ClusterService.validateCreate (path : ClusterPath) (body : Fields) : Except Thrown Unit := do
  validateClusterId path.clusterId
  validateInitialUser body
  validateNetworkConfiguration body

/-- The path and the body of the cluster that a request creates where there is none. -/
def Request.creation : Request → Option (ClusterPath × Fields)
  | .createCluster path body _ => some (path, body)
  | .restoreCluster path body _ => some (path, (ClusterService.splitRestoreRequest body).1)
  | .updateCluster path body _ allowMissing _ => if allowMissing then some (path, body) else none
  | _ => none

/-- The request creates a cluster, for which a user of the initial user's name is left from before. -/
def Request.MeetsUser (request : Request) (rows : Rows) : Prop :=
  ∃ path body, request.creation = some (path, body) ∧
    ClusterService.validateCreate path body = .ok () ∧
    (rows.table .clusters).getByName (buildClusterName path) = none ∧
    (rows.table .users).getByName (buildUserName path (resolveInitialUser body).1) ≠ none

variable {provider : Provider} {now : ℤ} {uuid : JsString} {store : AlloyStore} {ask : Ask}
  {outside : Outside} {path : ClusterPath} {body : Fields} {α β : Type}

/-! ## Scripts that only read -/

/-- An ask that changes nothing. -/
def Ask.reads : Ask → Bool
  | .findFirst _ _ | .find _ _ | .count _ _ | .now | .randomUUID => true
  | _ => false

theorem handle_reads (h : ask.reads = true) : (store.handle provider ask outside).1 = store := by
  have hrows : (store.rows.handle provider ask outside).1 = store.rows := by
    have hwritten : store.rows.written provider outside ask = store.rows := by
      cases ask <;> first | rfl | cases h
    rcases handle_cases provider store.rows ask outside with hdone | ⟨thrown, hdone | hdone⟩
    · rw [hdone, hwritten]
    · rw [hdone, hwritten]
    · rw [hdone]
  have hrest : store.nextOperations outside ask = store.operations ∧
      store.nextPlane outside ask = store.plane := by
    cases ask <;> first | exact ⟨rfl, rfl⟩ | cases h
  rw [AlloyStore.handle, hrows, hrest.1, hrest.2]

/-- The script leaves everything as it is, whatever comes from outside. -/
def Reads (provider : Provider) (p : AlloyScript α) : Prop :=
  ∀ allows store, Script.Safe (alloyWorld provider allows) (fun _ _ => True)
    (fun store' _ => store' = store) p store

namespace Reads

theorem pure {a : α} : Reads provider (Pure.pure a) := fun _ _ => rfl

theorem throw {thrown : Thrown} : Reads provider (MonadExcept.throw thrown : AlloyScript α) :=
  fun _ _ => rfl

theorem lift {result : Except Thrown α} : Reads provider (liftM result : AlloyScript α) :=
  fun _ _ => rfl

theorem perform (h : ask.reads = true) : Reads provider (AlloyDb.perform ask) :=
  fun _ _ => Script.safe_request.2 ⟨trivial, fun _ _ => handle_reads h⟩

theorem bind {p : AlloyScript α} {next : α → AlloyScript β} (hp : Reads provider p)
    (hnext : ∀ a, Reads provider (next a)) : Reads provider (p >>= next) := by
  intro allows store
  refine Script.Safe.bind (Script.Safe.mono (hp allows store) fun store' result hsame => ?_)
  subst hsame
  cases result with
  | ok a => exact hnext a allows store'
  | error thrown => exact rfl

theorem map {p : AlloyScript α} {f : α → β} (hp : Reads provider p) : Reads provider (f <$> p) := by
  change Reads provider (p >>= fun a => Pure.pure (f a))
  exact bind hp fun _ => pure

theorem getByName {kind : Kind} {name : JsString} : Reads provider (AlloyDb.getByName kind name) :=
  perform rfl

theorem buildUnpersistedOperation {target verb resourceType : JsString} {response : Option Fields} :
    Reads provider (AlloyDb.buildUnpersistedOperation path target verb resourceType response) :=
  bind (bind (perform rfl) fun _ => bind (perform rfl) fun _ => pure) fun _ => pure

theorem validateInstancePlacement {name instanceType : JsString} :
    Reads provider (InstanceService.validateInstancePlacement path name instanceType) := by
  rw [InstanceService.validateInstancePlacement]
  split
  · exact throw
  · refine bind (perform rfl) fun instances => ?_
    dsimp only
    split
    · exact throw
    · split
      · exact throw
      · exact pure

theorem validatePrimaryHasNoDependentReadPools {record : InstanceRecord} :
    Reads provider (InstanceService.validatePrimaryHasNoDependentReadPools path record) := by
  rw [InstanceService.validatePrimaryHasNoDependentReadPools]
  split
  · exact pure
  · refine bind (perform rfl) fun instances => ?_
    dsimp only
    split
    · exact pure
    · exact throw

theorem validateNoBlockingInstances {force : Bool} :
    Reads provider (ClusterService.validateNoBlockingInstances path force) := by
  cases force with
  | true => exact pure
  | false =>
    refine bind (perform rfl) fun n => ?_
    split
    · exact throw
    · exact pure

theorem requireCluster : Reads provider (AlloyDb.requireCluster path) := by
  refine bind getByName fun found => ?_
  cases found with
  | none => exact throw
  | some _ => exact pure

theorem getClusterOrThrow {name : JsString} :
    Reads provider (ClusterService.getClusterOrThrow name) := by
  refine bind getByName fun found => ?_
  cases found with
  | none => exact throw
  | some _ => exact pure

theorem getInstanceOrThrow {name : JsString} :
    Reads provider (InstanceService.getInstanceOrThrow name) := by
  refine bind getByName fun found => ?_
  cases found with
  | none => exact throw
  | some _ => exact pure

theorem createClusterExclusively {verb : JsString} {sources : Fields} :
    Reads provider (ClusterService.createClusterExclusively path body true verb sources) := by
  refine bind getByName fun found => ?_
  cases found with
  | some _ => exact throw
  | none => exact bind (perform rfl) fun _ => bind (perform rfl) fun _ => buildUnpersistedOperation

theorem createInstanceExclusively {instanceId : JsString} :
    Reads provider (InstanceService.createInstanceExclusively path instanceId body true) := by
  refine bind requireCluster fun _ => bind getByName fun found => ?_
  cases found with
  | some _ => exact throw
  | none =>
    refine bind validateInstancePlacement fun _ => ?_
    exact bind (perform rfl) fun _ => bind (perform rfl) fun _ => buildUnpersistedOperation

theorem createUserExclusively {userId : JsString} :
    Reads provider (UserService.createUserExclusively path userId body true) := by
  refine bind requireCluster fun _ => bind getByName fun found => ?_
  cases found with
  | some _ => exact throw
  | none => exact lift

/-- A dry run leaves every table as it is. -/
theorem exclusively (request : Request) : Reads provider (request.validating true).exclusively := by
  cases request with
  | createCluster path body validateOnly => exact map createClusterExclusively
  | restoreCluster path body validateOnly => exact map createClusterExclusively
  | updateCluster path body updateMask allowMissing validateOnly =>
    refine map (bind getByName fun found => ?_)
    cases found with
    | none =>
      dsimp only
      split
      · exact bind lift fun _ => bind lift fun _ => bind lift fun _ => createClusterExclusively
      · exact throw
    | some existing => exact bind lift fun _ => bind (perform rfl) fun _ => buildUnpersistedOperation
  | deleteCluster path force validateOnly =>
    refine map (bind getClusterOrThrow fun _ => ?_)
    exact bind validateNoBlockingInstances fun _ => buildUnpersistedOperation
  | createInstance path instanceId body validateOnly => exact map createInstanceExclusively
  | updateInstance path instanceId body updateMask allowMissing validateOnly =>
    refine map (bind getByName fun found => ?_)
    cases found with
    | none =>
      dsimp only
      split
      · exact bind lift fun _ => createInstanceExclusively
      · exact throw
    | some existing =>
      refine bind lift fun updates => ?_
      dsimp only
      split
      · refine bind validateInstancePlacement fun _ => ?_
        exact bind (perform rfl) fun _ => buildUnpersistedOperation
      · exact bind (perform rfl) fun _ => buildUnpersistedOperation
  | deleteInstance path instanceId validateOnly =>
    refine map (bind getInstanceOrThrow fun _ => ?_)
    exact bind validatePrimaryHasNoDependentReadPools fun _ => buildUnpersistedOperation
  | createUser path userId body validateOnly => exact map createUserExclusively
  | updateUser path userId body updateMask allowMissing validateOnly =>
    refine map (bind getByName fun found => ?_)
    cases found with
    | none =>
      dsimp only
      split
      · exact bind lift fun _ => bind lift fun _ => createUserExclusively
      · exact throw
    | some existing => exact bind lift fun _ => lift
  | deleteUser path userId validateOnly =>
    refine map (bind getByName fun found => ?_)
    cases found with
    | none => exact throw
    | some _ => exact pure

end Reads

/-! ## Scripts that succeed -/

theorem calm_handle (h : (calmWorld provider now uuid).Allows store ask outside)
    (hrefuses : store.rows.refuses provider ask = false) :
    store.handle provider ask outside =
      (⟨store.rows.written provider outside ask, store.nextOperations outside ask,
        store.nextPlane outside ask⟩, .ok (store.rows.answered provider outside ask)) := by
  have hrows : store.rows.handle provider ask outside =
      (store.rows.written provider outside ask, .ok (store.rows.answered provider outside ask)) := by
    rw [Rows.handle, if_neg (by rw [hrefuses]; exact Bool.false_ne_true), h.1]
  rw [AlloyStore.handle, hrows]

theorem exists_allowed (provider : Provider) (now : ℤ) (uuid : JsString) (store : AlloyStore)
    (ask : Ask) : ∃ outside, (calmWorld provider now uuid).Allows store ask outside := by
  cases ask with
  | create kind row =>
    obtain ⟨id, hid⟩ := Infinite.exists_notMem_finset ((store.rows kind).map Row.id).toFinset
    refine ⟨⟨.done, id, .absent, now, uuid⟩, rfl, rfl, rfl, fun old hold hsame => hid ?_⟩
    exact List.mem_toFinset.2 (List.mem_map.2 ⟨old, hold, hsame⟩)
  | _ => exact ⟨⟨.done, 0, .absent, now, uuid⟩, rfl, rfl, rfl, trivial⟩

namespace Calm

/-- The script always succeeds, and ends in `Q`. -/
abbrev Succeeds (provider : Provider) (now : ℤ) (uuid : JsString) (p : AlloyScript α)
    (store : AlloyStore) (Q : AlloyStore → α → Prop) : Prop :=
  Script.Succeeds (calmWorld provider now uuid) p store Q

theorem perform {Q : AlloyStore → Answer ask → Prop} (hrefuses : store.rows.refuses provider ask = false)
    (hQ : ∀ outside, (calmWorld provider now uuid).Allows store ask outside →
      Q ⟨store.rows.written provider outside ask, store.nextOperations outside ask,
        store.nextPlane outside ask⟩ (store.rows.answered provider outside ask)) :
    Succeeds provider now uuid (AlloyDb.perform ask) store Q := by
  refine Script.Succeeds.request (exists_allowed provider now uuid store ask) fun outside h => ?_
  have hhandle := calm_handle h hrefuses
  change ∃ a, (store.handle provider ask outside).2 = .ok a ∧ Q (store.handle provider ask outside).1 a
  rw [hhandle]
  exact ⟨_, rfl, hQ outside h⟩

theorem getByName {kind : Kind} {name : JsString} :
    Succeeds provider now uuid (AlloyDb.getByName kind name) store
      fun store' found => store' = store ∧ found = (store.rows.table kind).getByName name :=
  perform rfl fun _ _ => ⟨rfl, rfl⟩

theorem clock : Succeeds provider now uuid (AlloyDb.perform .now) store
    fun store' text => store' = store ∧ text = toISOString now :=
  perform rfl fun _ h => ⟨rfl, congrArg toISOString h.2.1⟩

theorem randomUUID : Succeeds provider now uuid (AlloyDb.perform .randomUUID) store
    fun store' text => store' = store ∧ text = uuid :=
  perform rfl fun _ h => ⟨rfl, h.2.2.1⟩

theorem create {kind : Kind} {row : NewRow kind.Data}
    (hfree : (store.rows.table kind).getByName row.name = none) :
    Succeeds provider now uuid (AlloyDb.create kind row) store fun store' created =>
      ∃ id, store' = { store with
          rows := Function.update store.rows kind (store.rows kind ++ [⟨id, row.name, row.data⟩]) } ∧
        created = ⟨id, row.name, row.data⟩ := by
  refine Script.Succeeds.bind (getByName.mono fun store' found hfound => ?_)
  obtain ⟨rfl, rfl⟩ := hfound
  rw [hfree]
  refine perform ?_ fun outside _ => ⟨outside.id, rfl, rfl⟩
  have hnot : row.name ∉ (store'.rows kind).map Storage.Row.name := by
    intro hmem
    obtain ⟨old, hold, hname⟩ := List.mem_map.1 hmem
    simpa [hname] using List.find?_eq_none.1 hfree old hold
  simp [Rows.refuses, hnot]

theorem update {kind : Kind} {name : JsString} {patch : kind.Data → kind.Data} {existing : kind.Row}
    (hids : DistinctIds store.rows) (hfound : (store.rows.table kind).getByName name = some existing) :
    Succeeds provider now uuid (AlloyDb.update kind name patch) store fun _ found =>
      found = some { existing with data := patch existing.data } := by
  refine Script.Succeeds.bind (getByName.mono fun store' found hsame => ?_)
  obtain ⟨rfl, rfl⟩ := hsame
  rw [hfound]
  refine perform rfl fun outside _ => ?_
  obtain ⟨hmem, -⟩ := Fine.exists_of_getByName hfound
  have hfind : (store'.rows kind).find? (fun row => row.id = existing.id) = some existing := by
    cases hcase : (store'.rows kind).find? fun row => row.id = existing.id with
    | none => simpa using List.find?_eq_none.1 hcase existing hmem
    | some row =>
      have hid : row.id = existing.id := by simpa using List.find?_some hcase
      rw [List.inj_on_of_nodup_map (hids kind) (List.mem_of_find?_eq_some hcase) hmem hid]
  simp [Rows.answered, hfind, Rows.updateRow]

theorem delete {kind : Kind} {name : JsString} :
    Succeeds provider now uuid (AlloyDb.delete kind name) store fun _ _ => True := by
  refine Script.Succeeds.bind (getByName.mono fun store' found _ => ?_)
  cases found with
  | none => exact Script.Succeeds.pure trivial
  | some existing => exact perform rfl fun _ _ => trivial

theorem dropChild {record : InstanceRecord} :
    Succeeds provider now uuid (ClusterService.dropChild path record) store fun _ _ => True := by
  rw [ClusterService.dropChild]
  split
  · exact Script.Succeeds.pure trivial
  · exact Script.Succeeds.bind (Script.Succeeds.attempt
      (perform rfl fun _ _ => Script.Succeeds.pure trivial))

theorem operationRow {target verb resourceType : JsString} {response : Option Fields}
    {error : Option OperationError} :
    Succeeds provider now uuid (AlloyDb.operationRow path target verb resourceType response error) store
      fun _ row => row = buildOperationRow path.project path.location target verb resourceType response
        error (toISOString now) uuid := by
  refine Script.Succeeds.bind (clock.mono fun store' text h => ?_)
  obtain ⟨-, rfl⟩ := h
  refine Script.Succeeds.bind (randomUUID.mono fun store' text h => ?_)
  obtain ⟨-, rfl⟩ := h
  exact Script.Succeeds.pure rfl

/-- The operation is the same, stored or not, and whatever there is. -/
theorem operation_agrees {store' : AlloyStore} {target verb resourceType : JsString}
    {response : Option Fields} :
    Script.SameResults (calmWorld provider now uuid)
      (createOperation path target verb resourceType response)
      (buildUnpersistedOperation path target verb resourceType response) store store' := by
  refine Script.SameResults.of_succeeds
    (a := operationRecordToResponse (buildOperationRow path.project path.location target verb
      resourceType response none (toISOString now) uuid)) ?_ ?_
  · refine Script.Succeeds.bind (operationRow.mono fun _ row hrow => ?_)
    subst hrow
    exact Script.Succeeds.bind (perform rfl fun _ _ => Script.Succeeds.pure rfl)
  · refine Script.Succeeds.bind (operationRow.mono fun _ row hrow => ?_)
    subst hrow
    exact Script.Succeeds.pure rfl

/-! ## Real requests and dry ones -/

/-- The scripts end in the same way. -/
abbrev Agree (provider : Provider) (now : ℤ) (uuid : JsString) (p q : AlloyScript α)
    (store : AlloyStore) : Prop :=
  Script.SameResults (calmWorld provider now uuid) p q store store

theorem Agree.reads {p : AlloyScript β} {next next' : β → AlloyScript α} (hp : Reads provider p)
    (h : ∀ b, Agree provider now uuid (next b) (next' b) store) :
    Agree provider now uuid (p >>= next) (p >>= next') store := by
  refine Script.SameResults.bind fun store' b hends => ?_
  obtain rfl : store' = store := (hp _ store).of_ends hends
  exact h b

/-- Scripts that begin with one lookup agree if they do for what it finds. -/
theorem Agree.lookup {kind : Kind} {name : JsString} {next next' : Option kind.Row → AlloyScript α}
    (h : Agree provider now uuid (next ((store.rows.table kind).getByName name))
      (next' ((store.rows.table kind).getByName name)) store) :
    Agree provider now uuid (AlloyDb.getByName kind name >>= next)
      (AlloyDb.getByName kind name >>= next') store := by
  refine Script.SameResults.bind_of_succeeds getByName fun store' found hfound => ?_
  obtain ⟨rfl, rfl⟩ := hfound
  exact h

theorem completeClusterMutation_agrees {name verb : JsString} {projected : ClusterData}
    {apply : AlloyScript (Option ClusterRecord)}
    (happly : Succeeds provider now uuid apply store fun _ applied =>
      ∃ id, applied = some ⟨id, name, projected⟩) :
    Agree provider now uuid (ClusterService.completeMutation path name verb false projected apply)
      (ClusterService.completeMutation path name verb true projected apply) store := by
  refine Script.SameResults.skip happly fun store' applied h => ?_
  obtain ⟨id, rfl⟩ := h
  exact operation_agrees

theorem completeInstanceMutation_agrees {name verb : JsString} {projected : InstanceData}
    {apply : AlloyScript (Option InstanceRecord)}
    (happly : Succeeds provider now uuid apply store fun _ applied =>
      ∃ id, applied = some ⟨id, name, projected⟩) :
    Agree provider now uuid (InstanceService.completeMutation path name verb false projected apply)
      (InstanceService.completeMutation path name verb true projected apply) store := by
  refine Script.SameResults.skip happly fun store' applied h => ?_
  obtain ⟨id, rfl⟩ := h
  exact operation_agrees

/-- A cluster that is missing, whose initial user is missing as well. -/
theorem createClusterExclusively_agrees {verb : JsString} {sources : Fields}
    (huser : (store.rows.table .clusters).getByName (buildClusterName path) = none →
      (store.rows.table .users).getByName (buildUserName path (resolveInitialUser body).1) = none) :
    Agree provider now uuid (ClusterService.createClusterExclusively path body false verb sources)
      (ClusterService.createClusterExclusively path body true verb sources) store := by
  refine Agree.lookup ?_
  cases hfound : (store.rows.table .clusters).getByName (buildClusterName path) with
  | some existing => exact Script.SameResults.refl _ _ _
  | none =>
    refine Agree.reads (Reads.perform rfl) fun createTime => Agree.reads (Reads.perform rfl) fun uid => ?_
    refine completeClusterMutation_agrees (Script.Succeeds.bind ((create ?_).mono fun store created h => ?_))
    · split <;> exact hfound
    · obtain ⟨id, rfl, rfl⟩ := h
      refine Script.Succeeds.bind (Script.Succeeds.bind ((create (huser hfound)).mono fun _ _ _ => ?_))
      refine Script.Succeeds.pure (Script.Succeeds.pure ⟨id, ?_⟩)
      split <;> rfl

theorem createInstanceExclusively_agrees {instanceId : JsString} :
    Agree provider now uuid (InstanceService.createInstanceExclusively path instanceId body false)
      (InstanceService.createInstanceExclusively path instanceId body true) store := by
  refine Agree.reads Reads.requireCluster fun _ => ?_
  refine Agree.lookup ?_
  cases hfound : (store.rows.table .instances).getByName (buildInstanceName path instanceId) with
  | some existing => exact Script.SameResults.refl _ _ _
  | none =>
    refine Agree.reads Reads.validateInstancePlacement fun _ => ?_
    refine Agree.reads (Reads.perform rfl) fun createTime => Agree.reads (Reads.perform rfl) fun uid => ?_
    refine Script.SameResults.skip (create hfound) fun store created h => ?_
    obtain ⟨id, -, rfl⟩ := h
    refine Script.SameResults.skip (Script.Succeeds.attempt (Q := fun _ result => result = .ok ())
      (perform rfl fun _ _ => rfl)) fun store result h => ?_
    subst h
    exact operation_agrees

theorem createUserExclusively_agrees {userId : JsString} :
    Agree provider now uuid (UserService.createUserExclusively path userId body false)
      (UserService.createUserExclusively path userId body true) store := by
  refine Agree.reads Reads.requireCluster fun _ => ?_
  refine Agree.lookup ?_
  cases hfound : (store.rows.table .users).getByName (buildUserName path userId) with
  | some existing => exact Script.SameResults.refl _ _ _
  | none =>
    refine Script.SameResults.skip (create hfound) fun store created h => ?_
    obtain ⟨id, -, rfl⟩ := h
    exact Script.SameResults.lift

theorem Agree.lift {result : Except Thrown β} {next next' : β → AlloyScript α}
    (h : ∀ b, result = .ok b → Agree provider now uuid (next b) (next' b) store) :
    Agree provider now uuid ((liftM result : AlloyScript β) >>= next) (liftM result >>= next') store := by
  refine Script.SameResults.bind fun store' b hends => ?_
  obtain ⟨rfl, hresult⟩ := hends
  exact h b hresult.symm

/-- An update of a cluster that is there, or is created. -/
theorem updateClusterExclusively_agrees {updateMask : Option JsString} {allowMissing : Bool}
    (hids : DistinctIds store.rows)
    (huser : allowMissing = true → ClusterService.validateCreate path body = .ok () →
      (store.rows.table .clusters).getByName (buildClusterName path) = none →
        (store.rows.table .users).getByName (buildUserName path (resolveInitialUser body).1) = none) :
    Agree provider now uuid
      (ClusterService.updateClusterExclusively path body updateMask allowMissing false)
      (ClusterService.updateClusterExclusively path body updateMask allowMissing true) store := by
  refine Agree.lookup ?_
  cases hfound : (store.rows.table .clusters).getByName (buildClusterName path) with
  | none =>
    dsimp only
    split
    · rename_i hallow
      refine Agree.lift fun _ hid => Agree.lift fun _ hinitial => Agree.lift fun _ hnetwork => ?_
      refine createClusterExclusively_agrees (huser hallow ?_)
      rw [ClusterService.validateCreate, hid, hinitial, hnetwork]
      rfl
    · exact Script.SameResults.refl _ _ _
  | some existing =>
    obtain ⟨-, hname⟩ := Fine.exists_of_getByName hfound
    refine Agree.lift fun updates _ => Agree.reads (Reads.perform rfl) fun updateTime => ?_
    refine completeClusterMutation_agrees ((update hids hfound).mono fun _ found h => ?_)
    exact ⟨existing.id, hname ▸ h⟩

theorem deleteClusterExclusively_agrees {force : Bool} :
    Agree provider now uuid (ClusterService.deleteClusterExclusively path force false)
      (ClusterService.deleteClusterExclusively path force true) store := by
  refine Agree.reads Reads.getClusterOrThrow fun _ => ?_
  refine Agree.reads Reads.validateNoBlockingInstances fun _ => ?_
  -- the children and the cluster are gone, and the operation is that of the dry run
  refine Script.SameResults.skip (perform (Q := fun _ _ => True) rfl fun _ _ => trivial) fun _ found _ => ?_
  refine Script.SameResults.skip (Script.Succeeds.forEach (I := fun _ => True)
    (fun _ _ _ => dropChild) found trivial) fun _ _ _ => ?_
  refine Script.SameResults.skip (perform (Q := fun _ _ => True) rfl fun _ _ => trivial) fun _ _ _ => ?_
  refine Script.SameResults.skip (perform (Q := fun _ _ => True) rfl fun _ _ => trivial) fun _ _ _ => ?_
  exact Script.SameResults.skip delete fun _ _ _ => operation_agrees

theorem updateInstanceExclusively_agrees {instanceId : JsString} {updateMask : Option JsString}
    {allowMissing : Bool} (hids : DistinctIds store.rows) :
    Agree provider now uuid
      (InstanceService.updateInstanceExclusively path instanceId body updateMask allowMissing false)
      (InstanceService.updateInstanceExclusively path instanceId body updateMask allowMissing true)
      store := by
  refine Agree.lookup ?_
  cases hfound : (store.rows.table .instances).getByName (buildInstanceName path instanceId) with
  | none =>
    dsimp only
    split
    · exact Agree.lift fun _ _ => createInstanceExclusively_agrees
    · exact Script.SameResults.refl _ _ _
  | some existing =>
    obtain ⟨-, hname⟩ := Fine.exists_of_getByName hfound
    have happly : ∀ updates : InstanceService.InstanceUpdates,
        Agree provider now uuid
          (AlloyDb.perform .now >>= fun updateTime => InstanceService.completeMutation path
            (buildInstanceName path instanceId) "update" false (updates.apply updateTime existing.data)
              (AlloyDb.update .instances (buildInstanceName path instanceId) (updates.apply updateTime)))
          (AlloyDb.perform .now >>= fun updateTime => InstanceService.completeMutation path
            (buildInstanceName path instanceId) "update" true (updates.apply updateTime existing.data)
              (AlloyDb.update .instances (buildInstanceName path instanceId) (updates.apply updateTime)))
          store := by
      intro updates
      refine Agree.reads (Reads.perform rfl) fun updateTime => ?_
      refine completeInstanceMutation_agrees ((update hids hfound).mono fun _ found h => ?_)
      exact ⟨existing.id, hname ▸ h⟩
    refine Agree.lift fun updates _ => ?_
    dsimp only
    split
    · exact Agree.reads Reads.validateInstancePlacement fun _ => happly updates
    · exact happly updates

theorem deleteInstanceExclusively_agrees {instanceId : JsString} :
    Agree provider now uuid (InstanceService.deleteInstanceExclusively path instanceId false)
      (InstanceService.deleteInstanceExclusively path instanceId true) store := by
  refine Agree.reads Reads.getInstanceOrThrow fun _ => ?_
  refine Agree.reads Reads.validatePrimaryHasNoDependentReadPools fun _ => ?_
  refine Script.SameResults.skip (perform (Q := fun _ _ => True) rfl fun _ _ => trivial) fun _ _ _ => ?_
  exact Script.SameResults.skip delete fun _ _ _ => operation_agrees

theorem updateUserExclusively_agrees {userId : JsString} {updateMask : Option JsString}
    {allowMissing : Bool} (hids : DistinctIds store.rows) :
    Agree provider now uuid
      (UserService.updateUserExclusively path userId body updateMask allowMissing false)
      (UserService.updateUserExclusively path userId body updateMask allowMissing true) store := by
  refine Agree.lookup ?_
  cases hfound : (store.rows.table .users).getByName (buildUserName path userId) with
  | none =>
    dsimp only
    split
    · exact Agree.lift fun _ _ => Agree.lift fun _ _ => createUserExclusively_agrees
    · exact Script.SameResults.refl _ _ _
  | some existing =>
    obtain ⟨-, hname⟩ := Fine.exists_of_getByName hfound
    refine Agree.lift fun updates _ => ?_
    refine Script.SameResults.skip (update hids hfound) fun _ found h => ?_
    subst h
    dsimp only
    rw [hname]
    exact Script.SameResults.lift

theorem deleteUserExclusively_agrees {userId : JsString} :
    Agree provider now uuid (UserService.deleteUserExclusively path userId false)
      (UserService.deleteUserExclusively path userId true) store := by
  refine Agree.lookup ?_
  cases hfound : (store.rows.table .users).getByName (buildUserName path userId) with
  | none => exact Script.SameResults.refl _ _ _
  | some existing => exact Script.SameResults.skip delete fun _ _ _ => Script.SameResults.lift

/-- A creation that meets a user of the initial user's name fails, but for a dry run. -/
theorem createClusterExclusively_fails {verb : JsString} {sources : Fields}
    (hcluster : (store.rows.table .clusters).getByName (buildClusterName path) = none)
    (huser : (store.rows.table .users).getByName
      (buildUserName path (resolveInitialUser body).1) ≠ none) :
    Script.Fails (calmWorld provider now uuid)
        (ClusterService.createClusterExclusively path body false verb sources) store ∧
      Succeeds provider now uuid (ClusterService.createClusterExclusively path body true verb sources)
        store fun _ _ => True := by
  constructor
  · refine Script.Fails.bind_of_succeeds getByName fun store' found h => ?_
    obtain ⟨rfl, rfl⟩ := h
    rw [hcluster]
    refine Script.Fails.bind_of_succeeds clock fun store createTime h => ?_
    obtain ⟨rfl, -⟩ := h
    refine Script.Fails.bind_of_succeeds randomUUID fun store uid h => ?_
    obtain ⟨rfl, -⟩ := h
    refine Script.Fails.bind (Script.Fails.bind_of_succeeds (create ?_) fun store' created h => ?_)
    · split <;> exact hcluster
    · obtain ⟨id, rfl, -⟩ := h
      refine Script.Fails.bind (Script.Fails.bind (Script.Fails.bind_of_succeeds getByName
        fun store' found h => ?_))
      obtain ⟨existing, hexisting⟩ := Option.ne_none_iff_exists'.1 huser
      obtain rfl : found = some existing := h.2.trans hexisting
      exact Script.Fails.throw _
  · refine Script.Succeeds.bind (getByName.mono fun store' found h => ?_)
    obtain ⟨rfl, rfl⟩ := h
    rw [hcluster]
    refine Script.Succeeds.bind (clock.mono fun _ _ _ => ?_)
    refine Script.Succeeds.bind (randomUUID.mono fun _ _ _ => ?_)
    refine Script.Succeeds.bind (operationRow.mono fun _ _ _ => ?_)
    exact Script.Succeeds.pure trivial

/-- Every request agrees with its dry run, but for a creation that meets a user. -/
theorem exclusively_agrees (request : Request) (hids : DistinctIds store.rows)
    (hcheck : request.check = .ok ()) (hmeets : ¬request.MeetsUser store.rows) :
    Agree provider now uuid (request.validating false).exclusively
      (request.validating true).exclusively store := by
  have huser : ∀ path body, request.creation = some (path, body) →
      ClusterService.validateCreate path body = .ok () →
      (store.rows.table .clusters).getByName (buildClusterName path) = none →
        (store.rows.table .users).getByName (buildUserName path (resolveInitialUser body).1) = none := by
    intro path body hcreation hvalid hcluster
    by_contra huser
    exact hmeets ⟨path, body, hcreation, hvalid, hcluster, huser⟩
  cases request with
  | createCluster path body validateOnly =>
    exact Script.SameResults.map (createClusterExclusively_agrees (huser path body rfl hcheck))
  | restoreCluster path body validateOnly =>
    exact Script.SameResults.map (createClusterExclusively_agrees (huser path _ rfl hcheck))
  | updateCluster path body updateMask allowMissing validateOnly =>
    refine Script.SameResults.map (updateClusterExclusively_agrees hids fun hallow => ?_)
    exact huser path body (if_pos hallow)
  | deleteCluster path force validateOnly =>
    exact Script.SameResults.map deleteClusterExclusively_agrees
  | createInstance path instanceId body validateOnly =>
    exact Script.SameResults.map createInstanceExclusively_agrees
  | updateInstance path instanceId body updateMask allowMissing validateOnly =>
    exact Script.SameResults.map (updateInstanceExclusively_agrees hids)
  | deleteInstance path instanceId validateOnly =>
    exact Script.SameResults.map deleteInstanceExclusively_agrees
  | createUser path userId body validateOnly =>
    exact Script.SameResults.map createUserExclusively_agrees
  | updateUser path userId body updateMask allowMissing validateOnly =>
    exact Script.SameResults.map (updateUserExclusively_agrees hids)
  | deleteUser path userId validateOnly =>
    exact Script.SameResults.map deleteUserExclusively_agrees

theorem updateClusterExclusively_fails {updateMask : Option JsString}
    (hvalid : ClusterService.validateCreate path body = .ok ())
    (hcluster : (store.rows.table .clusters).getByName (buildClusterName path) = none)
    (huser : (store.rows.table .users).getByName
      (buildUserName path (resolveInitialUser body).1) ≠ none) :
    Script.Fails (calmWorld provider now uuid)
        (ClusterService.updateClusterExclusively path body updateMask true false) store ∧
      Succeeds provider now uuid (ClusterService.updateClusterExclusively path body updateMask true true)
        store fun _ _ => True := by
  obtain ⟨_, hid, hvalid⟩ := bind_eq_ok.1 hvalid
  obtain ⟨_, hinitial, hnetwork⟩ := bind_eq_ok.1 hvalid
  constructor
  · refine Script.Fails.bind_of_succeeds getByName fun store' found h => ?_
    obtain ⟨rfl, rfl⟩ := h
    rw [hcluster, hid, hinitial, hnetwork]
    exact (createClusterExclusively_fails hcluster huser).1
  · refine Script.Succeeds.bind (getByName.mono fun store' found h => ?_)
    obtain ⟨rfl, rfl⟩ := h
    rw [hcluster, hid, hinitial, hnetwork]
    exact (createClusterExclusively_fails hcluster huser).2

theorem check_of_meetsUser {request : Request} (hmeets : request.MeetsUser store.rows) :
    request.check = .ok () := by
  obtain ⟨path, body, hcreation, hvalid, -⟩ := hmeets
  cases request with
  | createCluster path' body' validateOnly =>
    obtain ⟨rfl, rfl⟩ := Prod.mk.inj (Option.some.inj hcreation)
    exact hvalid
  | restoreCluster path' body' validateOnly =>
    obtain ⟨rfl, rfl⟩ := Prod.mk.inj (Option.some.inj hcreation)
    exact hvalid
  | updateCluster path' body' updateMask allowMissing validateOnly => rfl
  | _ => cases hcreation

theorem exclusively_fails {request : Request} (hmeets : request.MeetsUser store.rows) :
    Script.Fails (calmWorld provider now uuid) (request.validating false).exclusively store ∧
      Succeeds provider now uuid (request.validating true).exclusively store fun _ _ => True := by
  obtain ⟨path, body, hcreation, hvalid, hcluster, huser⟩ := hmeets
  cases request with
  | createCluster path' body' validateOnly =>
    obtain ⟨rfl, rfl⟩ := Prod.mk.inj (Option.some.inj hcreation)
    exact ⟨Script.Fails.map (createClusterExclusively_fails hcluster huser).1,
      Script.Succeeds.map (createClusterExclusively_fails hcluster huser).2⟩
  | restoreCluster path' body' validateOnly =>
    obtain ⟨rfl, rfl⟩ := Prod.mk.inj (Option.some.inj hcreation)
    exact ⟨Script.Fails.map (createClusterExclusively_fails hcluster huser).1,
      Script.Succeeds.map (createClusterExclusively_fails hcluster huser).2⟩
  | updateCluster path' body' updateMask allowMissing validateOnly =>
    cases allowMissing with
    | false => cases hcreation
    | true =>
      obtain ⟨rfl, rfl⟩ := Prod.mk.inj (Option.some.inj hcreation)
      exact ⟨Script.Fails.map (updateClusterExclusively_fails hvalid hcluster huser).1,
        Script.Succeeds.map (updateClusterExclusively_fails hvalid hcluster huser).2⟩
  | _ => cases hcreation

end Calm

/-! ## Whole calls -/

/-- The dry run of a request ends as the request does, whatever the time and the identifiers, and
changes nothing. -/
structure DryRunAgrees (provider : Provider) (request : Request) (store : AlloyStore) : Prop where
  results : ∀ now uuid, Script.SameResults (calmWorld provider now uuid)
    (request.validating false).script (request.validating true).script store store
  unchanged : ∀ now uuid store' result, Script.Ends (calmWorld provider now uuid)
    (request.validating true).script store store' result → store' = store

/-- The states that calls bring about, whatever is rejected in them. -/
def Reachable (provider : Provider) (store : AlloyStore) : Prop :=
  ∃ events machine, Run (CallStep provider) (Exclusive.start AlloyStore.empty) events machine ∧
    machine.shared = store

theorem distinctIds_of_reachable (h : Reachable provider store) : DistinctIds store.rows := by
  obtain ⟨events, machine, hrun, rfl⟩ := h
  refine Exclusive.shared_of_run (P := fun store => DistinctIds store.rows)
    (fun store ask outside hids hfresh => distinctIds_handle hids hfresh) hrun ?_
  exact fun _ => List.nodup_nil

theorem check_validating (request : Request) (validateOnly : Bool) :
    (request.validating validateOnly).check = request.check := by
  cases request <;> rfl

theorem script_unchanged (request : Request) (now : ℤ) (uuid : JsString) (store' : AlloyStore)
    (result : Except Thrown Result)
    (hends : Script.Ends (calmWorld provider now uuid) (request.validating true).script store store'
      result) : store' = store := by
  have hreads : Reads provider (request.validating true).script :=
    Reads.bind Reads.lift fun _ => Reads.exclusively request
  exact (hreads _ store).of_ends hends

theorem script_agrees (request : Request) (hids : DistinctIds store.rows)
    (hmeets : ¬request.MeetsUser store.rows) :
    Script.SameResults (calmWorld provider now uuid) (request.validating false).script
      (request.validating true).script store store := by
  rw [Request.script, Request.script, check_validating, check_validating]
  exact Calm.Agree.lift fun _ hcheck => Calm.exclusively_agrees request hids hcheck hmeets

theorem not_script_agrees {request : Request} (hmeets : request.MeetsUser store.rows) :
    ¬Script.SameResults (calmWorld provider now uuid) (request.validating false).script
      (request.validating true).script store store := by
  rw [Request.script, Request.script, check_validating, check_validating, Calm.check_of_meetsUser hmeets]
  obtain ⟨hfails, hsucceeds⟩ : Script.Fails (calmWorld provider now uuid) _ store ∧ _ :=
    Calm.exclusively_fails hmeets
  exact Script.SameResults.not_of_fails hfails hsucceeds

/-- **A dry run agrees** with the request, in every reachable state, unless the request creates a cluster
for which a user of the initial user's name is left from before. -/
theorem dry_run_agrees (provider : Provider) (request : Request) (store : AlloyStore)
    (hstore : Reachable provider store) :
    DryRunAgrees provider request store ↔ ¬request.MeetsUser store.rows := by
  constructor
  · intro hagrees hmeets
    exact not_script_agrees hmeets (hagrees.results 0 [])
  · intro hmeets
    exact ⟨fun now uuid => script_agrees request (distinctIds_of_reachable hstore) hmeets,
      fun now uuid => script_unchanged request now uuid⟩

theorem exists_reachable {requests : List (Request × ℕ)} {test : AlloyStore → Bool}
    (hrequests : ∀ entry ∈ requests, entry.1.Routed ∧ entry.1.check = .ok ())
    (h : ((served requests).foldlM
      (Exclusive.play (alloyWorld provider fun store ask outside => Fresh store.rows outside ask))
      (Exclusive.start AlloyStore.empty)).any (fun machine => test machine.shared) = true) :
    ∃ store, Reachable provider store ∧ test store = true := by
  obtain ⟨machine, hrun, htest⟩ := exists_served hrequests h
  exact ⟨machine.shared, ⟨_, machine, hrun, rfl⟩, htest⟩

/-- The deletion of a primary, which a dry run lets through as well. -/
theorem dry_run_agrees_deletePrimary : ∃ store, store.rows .instances ≠ [] ∧
    DryRunAgrees .sqlite (.deleteInstance (mainCluster "my-app") "writer" false) store := by
  have hexists : ∃ store, Reachable .sqlite store ∧
      decide ((store.rows .instances).length = 1) = true :=
    @exists_reachable .sqlite [(.createCluster (mainCluster "my-app") clusterBody false, 10),
      (.createInstance (mainCluster "my-app") "writer" primaryBody false, 11)] _
      (by decide +kernel) (by decide +kernel)
  obtain ⟨store, hstore, htest⟩ := hexists
  refine ⟨store, ?_, (dry_run_agrees .sqlite _ store hstore).2 ?_⟩
  · intro hnone
    simp [hnone] at htest
  · rintro ⟨path, body, hcreation, -⟩
    exact nomatch hcreation

/-- In a project with a percent sign, the users of a cluster stay behind: the pattern with which the cluster
takes them along does not let them through. -/
theorem not_dry_run_agrees : ¬∀ (provider : Provider) (request : Request) (store : AlloyStore),
    Reachable provider store → DryRunAgrees provider request store := by
  intro hagrees
  have hexists : ∃ store, Reachable .memory store ∧
      decide (((store.rows.table .clusters).getByName (buildClusterName (mainCluster "my%app"))).isNone ∧
        ((store.rows.table .users).getByName
          (buildUserName (mainCluster "my%app") (resolveInitialUser clusterBody).1)).isSome) = true :=
    @exists_reachable .memory [(.createCluster (mainCluster "my%app") clusterBody false, 10),
      (.deleteCluster (mainCluster "my%app") false false, 10)] _
      (by decide +kernel) (by decide +kernel)
  obtain ⟨store, hstore, htest⟩ := hexists
  obtain ⟨hcluster, huser⟩ := of_decide_eq_true htest
  refine not_script_agrees ⟨_, _, rfl, by decide +kernel, Option.isNone_iff_eq_none.1 hcluster, ?_⟩
    ((hagrees .memory (.createCluster (mainCluster "my%app") clusterBody false) store hstore).results 0 [])
  exact Option.isSome_iff_ne_none.1 huser

end Kinglet.AlloyDb
