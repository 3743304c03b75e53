import Kinglet.AlloyDb.Topology
import Kinglet.Library.Outcome

/-!
# The calls keep the topology

Each call of the three services, run on the rows of its cluster alone: what it checks before a write is
what the write needs. The identifiers in a path have no slash, which the router promises.
-/

namespace Kinglet.AlloyDb

open Js Library Storage Shared

variable {provider : Provider} {rows : Rows} {path : ClusterPath} {body : Fields} {α : Type}

/-- The script keeps the topology of its cluster. -/
def Keeps (provider : Provider) (path : ClusterPath) (p : AlloyScript α) (rows : Rows) : Prop :=
  Fine provider (buildClusterName path) p rows fun rows _ => ClusterTopology (buildClusterName path) rows

/-! ## Clusters -/

namespace ClusterService

theorem completeMutation_keeps {name verb : JsString} {validateOnly : Bool} {projected : ClusterData}
    {apply : AlloyScript (Option ClusterRecord)} (h : ClusterTopology (buildClusterName path) rows)
    (happly : Keeps provider path apply rows) :
    Keeps provider path (completeMutation path name verb validateOnly projected apply) rows := by
  cases validateOnly with
  | true => exact Fine.buildUnpersistedOperation h
  | false =>
    refine Fine.bind (Fine.mono happly fun rows applied h => ?_)
    cases applied with
    | none => exact Fine.throw h
    | some applied => exact Fine.createOperation h

theorem isValidUserId_of_validateInitialUser (h : validateInitialUser body = .ok ()) :
    unit '/' ∉ (resolveInitialUser body).1 := by
  intro hmem
  have hvalid : isValidUserId (resolveInitialUser body).1 = false := by simp [isValidUserId, hmem]
  simp [validateInitialUser, hvalid] at h

theorem createInitialUser_keeps (h : ClusterTopology (buildClusterName path) rows)
    (hclusters : rows .clusters ≠ []) (huser : validateInitialUser body = .ok ()) :
    Keeps provider path (createInitialUser path body) rows := by
  have hown : Kind.users.owner (buildUserName path (resolveInitialUser body).1) = buildClusterName path :=
    owner_user path (isValidUserId_of_validateInitialUser huser)
  exact Fine.bind (Fine.create h hown (fun _ _ => h.placed.users fun _ => hclusters)
    fun _ _ hcreated => Fine.pure hcreated)

theorem createClusterExclusively_keeps {validateOnly : Bool} {verb : JsString} {sources : Fields}
    (h : ClusterTopology (buildClusterName path) rows) (huser : validateInitialUser body = .ok ()) :
    Keeps provider path (createClusterExclusively path body validateOnly verb sources) rows := by
  refine Fine.bind (Fine.getByName h rfl ?_)
  split
  · exact Fine.throw h
  · refine Fine.bind (Fine.now h fun now => Fine.bind (Fine.randomUUID h fun uid => ?_))
    refine completeMutation_keeps h (Fine.bind (Fine.create h ?_
      (fun _ _ => h.placed.clusters (by simp)) fun id _ hcreated => ?_))
    · split <;> rfl
    · refine Fine.bind (Fine.mono (createInitialUser_keeps hcreated ?_ huser) fun rows _ h => ?_)
      · simp
      · exact Fine.pure h

theorem updateClusterExclusively_keeps {updateMask : Option JsString} {allowMissing validateOnly : Bool}
    (h : ClusterTopology (buildClusterName path) rows) :
    Keeps provider path (updateClusterExclusively path body updateMask allowMissing validateOnly)
      rows := by
  refine Fine.bind (Fine.getByName h rfl ?_)
  split
  · split
    · refine Fine.bind (Fine.lift h fun _ _ => Fine.bind (Fine.lift h fun _ huser => ?_))
      exact Fine.bind (Fine.lift h fun _ _ => createClusterExclusively_keeps h huser)
    · exact Fine.throw h
  · refine Fine.bind (Fine.lift h fun updates _ => Fine.bind (Fine.now h fun now => ?_))
    refine completeMutation_keeps h (Fine.update h rfl (fun existing hmem _ => ?_) fun _ _ h => h)
    refine h.placed.clusters fun hnone => ?_
    exact List.not_mem_nil (List.map_eq_nil_iff.1 hnone ▸ hmem)

theorem dropChild_keeps {record : InstanceRecord} (h : ClusterTopology (buildClusterName path) rows) :
    Keeps provider path (dropChild path record) rows := by
  rw [dropChild]
  split
  · exact Fine.pure h
  · exact Fine.bind (Fine.attemptRead trivial (fun _ => rfl) fun _ => Fine.pure h)

theorem validateNoBlockingInstances_keeps {force : Bool}
    (h : ClusterTopology (buildClusterName path) rows) :
    Keeps provider path (validateNoBlockingInstances path force) rows := by
  cases force with
  | true => exact Fine.pure h
  | false =>
    refine Fine.bind (Fine.countByPrefix h (parentName_instanceListPrefix path) fun n => ?_)
    split
    · exact Fine.throw h
    · exact Fine.pure h

/-- The children go before the cluster. -/
theorem deleteClusterExclusively_keeps {force validateOnly : Bool}
    (h : ClusterTopology (buildClusterName path) rows) :
    Keeps provider path (deleteClusterExclusively path force validateOnly) rows := by
  refine Fine.bind (Fine.bind (Fine.getByName h rfl ?_))
  split
  · exact Fine.throw h
  · refine Fine.pure (Fine.bind (Fine.mono (validateNoBlockingInstances_keeps h) fun rows _ h => ?_))
    cases validateOnly with
    | true => exact Fine.buildUnpersistedOperation h
    | false =>
      refine Fine.bind (Fine.listAllByPrefix h (parentName_instanceListPrefix path) fun found _ => ?_)
      refine Fine.bind (Script.Safe.forEach
        (I := fun rows => ClusterTopology (buildClusterName path) rows) (fun record rows h => ?_)
        (fun rows h => ?_) found h)
      · refine Script.Safe.mono (dropChild_keeps h) fun rows result hresult => ?_
        cases result with
        | ok _ => exact hresult
        | error _ => exact hresult
      · refine Fine.bind (Fine.deleteByPrefix h (parentName_instanceListPrefix path)
          h.placed.noInstances fun _ h => ?_)
        refine Fine.bind (Fine.deleteByPrefix h (parentName_userListPrefix path)
          (h.placed.users fun hnone => absurd rfl hnone) fun _ h => ?_)
        refine Fine.bind (Fine.delete h rfl (fun existing _ _ => ?_) fun _ _ h => ?_)
        · exact Placed.lastCluster rfl rfl _
        · exact Fine.createOperation h

end ClusterService

/-- A call on an instance or a user goes on with a cluster. -/
theorem Fine.requireCluster {Q : Rows → Unit → Prop} (h : ClusterTopology (buildClusterName path) rows)
    (hQ : rows .clusters ≠ [] → Q rows ()) :
    Fine provider (buildClusterName path) (requireCluster path) rows Q := by
  refine Fine.bind (Fine.getByName h rfl ?_)
  cases hfound : (rows.table .clusters).getByName (buildClusterName path) with
  | none => exact Fine.throw h
  | some existing =>
    refine Fine.pure (hQ fun hnone => ?_)
    exact List.not_mem_nil (hnone ▸ (exists_of_getByName hfound).1)

/-! ## Instances -/

namespace InstanceService

variable {instanceId : JsString}

/-- What is let through may be placed, among the rows as they are. -/
theorem validateInstancePlacement_fine {name instanceType : JsString} {Q : Rows → Unit → Prop}
    (h : ClusterTopology (buildClusterName path) rows)
    (hQ : instanceType ≠ js "SECONDARY" → MayPlace rows name instanceType → Q rows ()) :
    Fine provider (buildClusterName path) (validateInstancePlacement path name instanceType) rows Q := by
  rw [validateInstancePlacement]
  split
  · exact Fine.throw h
  · rename_i hsecondary
    refine Fine.bind (Fine.listAllByPrefix h (parentName_instanceListPrefix path) fun found hfound => ?_)
    have hany : (found.any fun record =>
        record.name ≠ name && record.data.instanceType = js "PRIMARY") = true ↔
          ∃ row ∈ rows .instances, row.name ≠ name ∧ row.data.instanceType = js "PRIMARY" := by
      simp only [List.any_eq_true, Bool.and_eq_true, decide_eq_true_eq, hfound]
    dsimp only
    split
    · exact Fine.throw h
    · rename_i hprimary
      split
      · exact Fine.throw h
      · rename_i hpool
        refine Fine.pure (hQ hsecondary ⟨fun htype row hrow hne hother => hprimary ⟨htype, ?_⟩,
          fun htype => ?_⟩)
        · exact hany.2 ⟨row, hrow, hne, hother⟩
        · by_contra hnone
          refine hpool ⟨htype, ?_⟩
          rw [Bool.not_eq_true', ← Bool.not_eq_true, hany]
          exact hnone

/-- The new row goes again, whatever of it fails. -/
theorem rollbackFailedCreate_keeps {key : EndpointKey} {name : JsString}
    (h : ClusterTopology (buildClusterName path) rows)
    (hown : Kind.instances.owner name = buildClusterName path)
    (hpools : ∀ existing ∈ rows .instances, existing.name = name →
      existing.data.instanceType = js "PRIMARY" → ∀ row ∈ rows .instances,
        row.name ≠ existing.name → row.data.instanceType ≠ js "READ_POOL") :
    Keeps provider path (rollbackFailedCreate key name) rows := by
  refine Fine.bind (Fine.attemptRead trivial (fun _ => rfl) fun _ => Fine.bind (Fine.attempt ?_ ?_))
  · exact Fine.delete h hown (fun existing hmem hname => h.placed.deleteInstance hmem h.ids
      (hpools existing hmem hname)) fun _ _ h => Fine.pure h
  · intro rows thrown h
    exact Fine.pure h

theorem createInstanceExclusively_keeps {validateOnly : Bool}
    (h : ClusterTopology (buildClusterName path) rows) (hid : unit '/' ∉ instanceId) :
    Keeps provider path (createInstanceExclusively path instanceId body validateOnly) rows := by
  have hown : Kind.instances.owner (buildInstanceName path instanceId) = buildClusterName path :=
    owner_instance path hid
  refine Fine.bind (Fine.requireCluster h fun hclusters => Fine.bind (Fine.getByName h hown ?_))
  cases hfound : (rows.table .instances).getByName (buildInstanceName path instanceId) with
  | some _ => exact Fine.throw h
  | none =>
    refine Fine.bind (validateInstancePlacement_fine h fun _ hplace => Fine.bind (Fine.now h
      fun now => Fine.bind (Fine.randomUUID h fun uid => ?_)))
    have hfree : ∀ row ∈ rows .instances, row.name ≠ buildInstanceName path instanceId := by
      intro row hrow
      simpa using List.find?_eq_none.1 hfound row hrow
    cases validateOnly with
    | true => exact Fine.buildUnpersistedOperation h
    | false =>
      refine Fine.bind (Fine.create h hown (fun _ _ => h.placed.insertInstance hclusters hfree
        hplace) fun id _ hcreated => Fine.bind (Fine.attemptRead trivial (fun _ => rfl)
          fun result => ?_))
      cases result with
      | ok _ => exact Fine.createOperation hcreated
      | error thrown =>
        exact Fine.bind (Fine.mono (rollbackFailedCreate_keeps hcreated hown
          (h.placed.no_readPools hfree hplace)) fun rows _ h => Fine.createFailedOperation h)

theorem eq_undefined_of_typeOf {value : JsValue} (h : typeOf value = js "undefined") :
    value = .undefined := by
  cases value with
  | undefined => rfl
  | _ =>
    simp only [typeOf] at h
    exact absurd h (by decide)

theorem stringOr_of_validateInstanceType {value : JsValue} (h : validateInstanceType value = .ok ())
    (fallback : JsString) :
    stringOr fallback (normalizeEnum value instanceTypeEnum) ∈ instanceTypes ∨
      stringOr fallback (normalizeEnum value instanceTypeEnum) = fallback := by
  cases hvalue : normalizeEnum value instanceTypeEnum with
  | str s =>
    refine .inl ?_
    by_contra hnot
    have hdefined : typeOf value ≠ js "undefined" := by
      intro hundefined
      obtain rfl := eq_undefined_of_typeOf hundefined
      cases hvalue
    have hstring : stringOf (.str s) = .ok s := rfl
    rw [validateInstanceType, if_neg hdefined, hvalue, hstring] at h
    change (if s ∈ instanceTypes then _ else _ : Except Thrown Unit) = _ at h
    rw [if_neg (show s ∉ instanceTypes from hnot)] at h
    obtain ⟨given, -, herror⟩ := bind_eq_ok.1 h
    cases herror
  | _ => exact .inr rfl

/-- A type that an update writes is one of the types, or the one that was there. -/
def Typed (existing : InstanceData) (updates : InstanceUpdates) : Prop :=
  ∀ type, updates.instanceType = some type → type ∈ instanceTypes ∨ type = existing.instanceType

theorem typed_buildInstanceUpdates {existing : InstanceData} {updateMask : Option JsString}
    {updates : InstanceUpdates} (h : buildInstanceUpdates existing body updateMask = .ok updates) :
    Typed existing updates := by
  obtain ⟨maskedFields, -, h⟩ := bind_eq_ok.1 h
  have hnone : Typed existing ⟨none, existing.spec⟩ := nofun
  refine Run.invariant ?_ (Run.of_foldlM h) (fun _ _ => trivial) hnone
  intro updates field updates' _ hstep hold
  split at hstep
  · split at hstep
    · obtain ⟨_, hvalid, hstep⟩ := bind_eq_ok.1 hstep
      obtain rfl := Except.ok.inj hstep
      intro type htype
      obtain rfl := Option.some.inj htype
      exact stringOr_of_validateInstanceType hvalid _
    · obtain rfl := Except.ok.inj hstep
      exact hold
  · obtain rfl := Except.ok.inj hstep
    exact hold

/-- What an update makes of a primary that is placed again. -/
theorem primary_or_readPool {existing : InstanceData} {type : JsString}
    (htype : type ∈ instanceTypes ∨ type = existing.instanceType) (hsecondary : type ≠ js "SECONDARY")
    (hprimary : existing.instanceType = js "PRIMARY") :
    type = js "PRIMARY" ∨ type = js "READ_POOL" := by
  rcases htype with hmem | rfl
  · simp only [instanceTypes, List.mem_cons, List.not_mem_nil, or_false] at hmem
    rcases hmem with rfl | rfl | rfl
    · exact .inl rfl
    · exact .inr rfl
    · exact absurd rfl hsecondary
  · exact .inl hprimary

theorem completeMutation_keeps {name verb : JsString} {validateOnly : Bool} {projected : InstanceData}
    {apply : AlloyScript (Option InstanceRecord)} (h : ClusterTopology (buildClusterName path) rows)
    (happly : Keeps provider path apply rows) :
    Keeps provider path (completeMutation path name verb validateOnly projected apply) rows := by
  cases validateOnly with
  | true => exact Fine.buildUnpersistedOperation h
  | false =>
    refine Fine.bind (Fine.mono happly fun rows applied h => ?_)
    cases applied with
    | none => exact Fine.throw h
    | some applied => exact Fine.createOperation h

/-- The row is written with the type that was let through, or with its own. -/
theorem applyUpdates_keeps {existing : InstanceRecord} {updates : InstanceUpdates} {now : JsString}
    {validateOnly : Bool} (h : ClusterTopology (buildClusterName path) rows) (hid : unit '/' ∉ instanceId)
    (hmem : existing ∈ rows .instances) (hname : existing.name = buildInstanceName path instanceId)
    (hplace : MayPlace rows existing.name (updates.apply now existing.data).instanceType)
    (hprimary : existing.data.instanceType = js "PRIMARY" →
      (updates.apply now existing.data).instanceType = js "PRIMARY" ∨
        (updates.apply now existing.data).instanceType = js "READ_POOL") :
    Keeps provider path (completeMutation path (buildInstanceName path instanceId) "update" validateOnly
      (updates.apply now existing.data)
      (update .instances (buildInstanceName path instanceId) (updates.apply now))) rows := by
  refine completeMutation_keeps h (Fine.update h (owner_instance path hid) (fun found hfound hsame => ?_)
    fun _ _ h => h)
  obtain rfl := List.inj_on_of_nodup_map h.placed.names hfound hmem (hsame.trans hname.symm)
  exact h.placed.updateInstance hfound h.ids hplace hprimary

theorem updateInstanceExclusively_keeps {updateMask : Option JsString} {allowMissing validateOnly : Bool}
    (h : ClusterTopology (buildClusterName path) rows) (hid : unit '/' ∉ instanceId) :
    Keeps provider path
      (updateInstanceExclusively path instanceId body updateMask allowMissing validateOnly) rows := by
  refine Fine.bind (Fine.getByName h (owner_instance path hid) ?_)
  cases hfound : (rows.table .instances).getByName (buildInstanceName path instanceId) with
  | none =>
    dsimp only
    split
    · exact Fine.bind (Fine.lift h fun _ _ => createInstanceExclusively_keeps h hid)
    · exact Fine.throw h
  | some existing =>
    obtain ⟨hmem, hname⟩ := Fine.exists_of_getByName hfound
    refine Fine.bind (Fine.lift h fun updates hupdates => ?_)
    have htype := typed_buildInstanceUpdates hupdates
    cases hnew : updates.instanceType with
    | none =>
      have hsame : ∀ now, (updates.apply now existing.data).instanceType =
          existing.data.instanceType := by
        intro now
        rw [InstanceUpdates.apply, hnew]
        rfl
      refine Fine.bind (Fine.now h fun now => ?_)
      refine applyUpdates_keeps h hid hmem hname ?_ fun hprimary => .inl ?_
      · rw [hsame]
        exact h.placed.mayPlace hmem
      · rw [hsame]
        exact hprimary
    | some type =>
      have hsame : ∀ now, (updates.apply now existing.data).instanceType = type := by
        intro now
        rw [InstanceUpdates.apply, hnew]
        rfl
      refine Fine.bind (validateInstancePlacement_fine h fun hsecondary hplace =>
        Fine.bind (Fine.now h fun now => ?_))
      refine applyUpdates_keeps h hid hmem hname ?_ fun hprimary => ?_
      · rw [hsame, hname]
        exact hplace
      · rw [hsame]
        exact primary_or_readPool (htype type hnew) hsecondary hprimary

/-- A primary that is let go has no read pools. -/
theorem validatePrimaryHasNoDependentReadPools_fine {record : InstanceRecord} {Q : Rows → Unit → Prop}
    (h : ClusterTopology (buildClusterName path) rows)
    (hQ : (record.data.instanceType = js "PRIMARY" → ∀ row ∈ rows .instances, row.name ≠ record.name →
      row.data.instanceType ≠ js "READ_POOL") → Q rows ()) :
    Fine provider (buildClusterName path) (validatePrimaryHasNoDependentReadPools path record) rows Q := by
  rw [validatePrimaryHasNoDependentReadPools]
  split
  · rename_i hprimary
    exact Fine.pure (hQ fun htype => absurd htype hprimary)
  · refine Fine.bind (Fine.listAllByPrefix h (parentName_instanceListPrefix path) fun found hfound => ?_)
    dsimp only
    split
    · rename_i hnone
      refine Fine.pure (hQ fun _ row hrow hne hpool => ?_)
      have hnot := List.filter_eq_nil_iff.1 hnone row ((hfound row).2 hrow)
      simp [hne, hpool] at hnot
    · exact Fine.throw h

theorem deleteInstanceExclusively_keeps {validateOnly : Bool}
    (h : ClusterTopology (buildClusterName path) rows) (hid : unit '/' ∉ instanceId) :
    Keeps provider path (deleteInstanceExclusively path instanceId validateOnly) rows := by
  have hown : Kind.instances.owner (buildInstanceName path instanceId) = buildClusterName path :=
    owner_instance path hid
  refine Fine.bind (Fine.bind (Fine.getByName h hown ?_))
  cases hfound : (rows.table .instances).getByName (buildInstanceName path instanceId) with
  | none => exact Fine.throw h
  | some record =>
    obtain ⟨hmem, hname⟩ := Fine.exists_of_getByName hfound
    refine Fine.pure (Fine.bind (validatePrimaryHasNoDependentReadPools_fine h fun hpools => ?_))
    cases validateOnly with
    | true => exact Fine.buildUnpersistedOperation h
    | false =>
      refine Fine.bind (Fine.read h trivial (fun _ => rfl) fun _ _ => ?_)
      refine Fine.bind (Fine.delete h hown (fun existing hexisting hsame => ?_) fun _ _ h =>
        Fine.createOperation h)
      obtain rfl := List.inj_on_of_nodup_map h.placed.names hexisting hmem (hsame.trans hname.symm)
      exact h.placed.deleteInstance hexisting h.ids hpools

end InstanceService

/-! ## Users -/

namespace UserService

variable {userId : JsString}

theorem createUserExclusively_keeps {validateOnly : Bool}
    (h : ClusterTopology (buildClusterName path) rows) (hid : unit '/' ∉ userId) :
    Keeps provider path (UserService.createUserExclusively path userId body validateOnly) rows := by
  have hown : Kind.users.owner (buildUserName path userId) = buildClusterName path := owner_user path hid
  refine Fine.bind (Fine.requireCluster h fun hclusters => Fine.bind (Fine.getByName h hown ?_))
  split
  · exact Fine.throw h
  · cases validateOnly with
    | true => exact Fine.lift h fun _ _ => h
    | false =>
      exact Fine.bind (Fine.create h hown (fun _ _ => h.placed.users fun _ => hclusters)
        fun _ _ h => Fine.lift h fun _ _ => h)

/-- Users among which there were some before. -/
theorem placed_users (h : Placed rows) {existing : UserRecord} (hmem : existing ∈ rows .users)
    (new : List UserRecord) : Placed (Function.update rows .users new) :=
  h.users fun _ => h.children (.inr (List.ne_nil_of_mem hmem))

theorem updateUserExclusively_keeps {updateMask : Option JsString} {allowMissing validateOnly : Bool}
    (h : ClusterTopology (buildClusterName path) rows) (hid : unit '/' ∉ userId) :
    Keeps provider path
      (UserService.updateUserExclusively path userId body updateMask allowMissing validateOnly) rows := by
  have hown : Kind.users.owner (buildUserName path userId) = buildClusterName path := owner_user path hid
  refine Fine.bind (Fine.getByName h hown ?_)
  split
  · split
    · refine Fine.bind (Fine.lift h fun _ _ => Fine.bind (Fine.lift h fun _ _ => ?_))
      exact createUserExclusively_keeps h hid
    · exact Fine.throw h
  · refine Fine.bind (Fine.lift h fun updates _ => ?_)
    cases validateOnly with
    | true => exact Fine.lift h fun _ _ => h
    | false =>
      refine Fine.bind (Fine.update h hown (fun _ hmem _ => placed_users h.placed hmem _)
        fun _ applied h => ?_)
      cases applied with
      | none => exact Fine.throw h
      | some applied => exact Fine.lift h fun _ _ => h

theorem deleteUserExclusively_keeps {validateOnly : Bool}
    (h : ClusterTopology (buildClusterName path) rows) (hid : unit '/' ∉ userId) :
    Keeps provider path (UserService.deleteUserExclusively path userId validateOnly) rows := by
  have hown : Kind.users.owner (buildUserName path userId) = buildClusterName path := owner_user path hid
  refine Fine.bind (Fine.getByName h hown ?_)
  split
  · exact Fine.throw h
  · cases validateOnly with
    | true => exact Fine.pure h
    | false =>
      exact Fine.bind (Fine.delete h hown (fun _ hmem _ => placed_users h.placed hmem _)
        fun _ _ h => Fine.pure h)

end UserService

/-! ## Requests -/

namespace Request

/-- The identifier of an instance or a user in the path of a request. -/
def pathId : Request → JsString
  | .updateInstance _ id _ _ _ _ | .deleteInstance _ id _ | .updateUser _ id _ _ _ _
  | .deleteUser _ id _ => id
  | _ => []

/-- A parameter of a route has no slash. -/
def Routed (request : Request) : Prop := unit '/' ∉ request.pathId

instance (request : Request) : Decidable request.Routed :=
  inferInstanceAs (Decidable (unit '/' ∉ request.pathId))

theorem not_mem_of_isValidInstanceId {instanceId : JsString} (h : isValidInstanceId instanceId = true) :
    unit '/' ∉ instanceId := by
  cases instanceId with
  | nil => exact List.not_mem_nil
  | cons first rest =>
    simp only [isValidInstanceId, Bool.and_eq_true, Bool.or_eq_true, List.isEmpty_iff] at h
    obtain ⟨hfirst, hrest⟩ := h
    have hslash : isLower (unit '/') = false ∧ isIdUnit (unit '/') = false := by decide
    rintro (_ | ⟨_, hmem⟩)
    · exact absurd hfirst (by simp [hslash.1])
    · rcases hrest with rfl | ⟨⟨-, hall⟩, -⟩
      · exact List.not_mem_nil hmem
      · exact absurd (List.all_eq_true.1 hall _ hmem) (by simp [hslash.2])

theorem not_mem_of_validateCreate {instanceId : JsString} {body : Fields}
    (h : InstanceService.validateCreate instanceId body = .ok ()) : unit '/' ∉ instanceId := by
  obtain ⟨_, hformat, -⟩ := bind_eq_ok.1 h
  refine not_mem_of_isValidInstanceId ?_
  by_contra hnot
  rw [InstanceService.validateInstanceIdFormat, if_neg hnot] at hformat
  cases hformat

theorem not_mem_of_validateUserId {userId : JsString} (h : UserService.validateUserId userId = .ok ()) :
    unit '/' ∉ userId := by
  intro hmem
  have hvalid : isValidUserId userId = false := by simp [isValidUserId, hmem]
  simp [UserService.validateUserId, hvalid] at h

theorem exclusively_keeps (request : Request) (hrouted : request.Routed) (hcheck : request.check = .ok ())
    (h : ClusterTopology (buildClusterName request.path) rows) :
    Keeps provider request.path request.exclusively rows := by
  cases request with
  | createCluster path body validateOnly =>
    obtain ⟨_, -, hcheck⟩ := bind_eq_ok.1 hcheck
    obtain ⟨_, huser, -⟩ := bind_eq_ok.1 hcheck
    exact Fine.map (ClusterService.createClusterExclusively_keeps h huser)
  | restoreCluster path body validateOnly =>
    obtain ⟨_, -, hcheck⟩ := bind_eq_ok.1 hcheck
    obtain ⟨_, huser, -⟩ := bind_eq_ok.1 hcheck
    exact Fine.map (ClusterService.createClusterExclusively_keeps h huser)
  | updateCluster path body updateMask allowMissing validateOnly =>
    exact Fine.map (ClusterService.updateClusterExclusively_keeps h)
  | deleteCluster path force validateOnly =>
    exact Fine.map (ClusterService.deleteClusterExclusively_keeps h)
  | createInstance path instanceId body validateOnly =>
    exact Fine.map (InstanceService.createInstanceExclusively_keeps h (not_mem_of_validateCreate hcheck))
  | updateInstance path instanceId body updateMask allowMissing validateOnly =>
    exact Fine.map (InstanceService.updateInstanceExclusively_keeps h hrouted)
  | deleteInstance path instanceId validateOnly =>
    exact Fine.map (InstanceService.deleteInstanceExclusively_keeps h hrouted)
  | createUser path userId body validateOnly =>
    obtain ⟨_, hid, -⟩ := bind_eq_ok.1 hcheck
    exact Fine.map (UserService.createUserExclusively_keeps h (not_mem_of_validateUserId hid))
  | updateUser path userId body updateMask allowMissing validateOnly =>
    exact Fine.map (UserService.updateUserExclusively_keeps h hrouted)
  | deleteUser path userId validateOnly =>
    exact Fine.map (UserService.deleteUserExclusively_keeps h hrouted)

end Request

/-- The scripts that the mutex runs: those of the calls that their checks let through, each under the name of
its cluster. -/
def Calls (key : JsString) (script : AlloyScript Result) : Prop :=
  ∃ request : Request, request.Routed ∧ request.check = .ok () ∧ key = buildClusterName request.path ∧
    script = request.exclusively

end Kinglet.AlloyDb
