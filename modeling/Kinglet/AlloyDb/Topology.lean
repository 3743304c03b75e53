import Kinglet.AlloyDb.Clusterwise

/-!
# The topology of the clusters

A cluster has at most one primary instance, its read pools have a primary to read from, and every instance
and user belongs to a cluster that exists. Each call keeps this on the rows of its own cluster, whatever
the storage and the data plane reject; the mutex of the cluster and the separation of the rows do the
rest.
-/

namespace Kinglet.AlloyDb

open Js Library Storage Shared

/-- What holds of the rows of one cluster. -/
structure Placed (rows : Rows) : Prop where
  names : ((rows .instances).map Row.name).Nodup
  primaries : ∀ row ∈ rows .instances, ∀ other ∈ rows .instances,
    row.data.instanceType = js "PRIMARY" → other.data.instanceType = js "PRIMARY" → row.name = other.name
  readPools : ∀ row ∈ rows .instances, row.data.instanceType = js "READ_POOL" →
    ∃ other ∈ rows .instances, other.data.instanceType = js "PRIMARY"
  children : rows .instances ≠ [] ∨ rows .users ≠ [] → rows .clusters ≠ []

structure ClusterTopology (cluster : JsString) (rows : Rows) : Prop where
  owned : ∀ kind, ∀ row ∈ rows kind, kind.owner row.name = cluster
  ids : DistinctIds rows
  placed : Placed rows

/-- The script keeps to the rows of its cluster, ends in `Q` with a value, and otherwise leaves the
topology. -/
def Fine {α : Type} (provider : Provider) (cluster : JsString) (p : AlloyScript α) (rows : Rows)
    (Q : Rows → α → Prop) : Prop :=
  Script.Safe (rowsWorld provider) (OwnRows cluster) (fun rows result => match result with
    | .ok a => Q rows a
    | .error _ => ClusterTopology cluster rows) p rows

variable {provider : Provider} {rows : Rows} {cluster : JsString} {ask : Ask} {outside : Outside}
  {α β : Type} {Q : Rows → α → Prop} {p : AlloyScript α}

/-! ## Rules -/

namespace Fine

theorem pure {a : α} (h : Q rows a) : Fine provider cluster (Pure.pure a) rows Q := h

theorem throw {thrown : Thrown} (h : ClusterTopology cluster rows) :
    Fine provider cluster (MonadExcept.throw thrown) rows Q := h

theorem lift {result : Except Thrown α} (h : ClusterTopology cluster rows)
    (hQ : ∀ a, result = .ok a → Q rows a) :
    Fine provider cluster (liftM result : AlloyScript α) rows Q := by
  cases result with
  | ok a => exact hQ a rfl
  | error thrown => exact h

theorem bind {next : α → AlloyScript β} {Q : Rows → β → Prop}
    (h : Fine provider cluster p rows fun rows a => Fine provider cluster (next a) rows Q) :
    Fine provider cluster (p >>= next) rows Q := by
  refine Script.Safe.bind (Script.Safe.mono h fun rows result hresult => ?_)
  cases result with
  | ok a => exact hresult
  | error thrown => exact hresult

theorem mono {Q' : Rows → α → Prop} (h : Fine provider cluster p rows Q)
    (hQ : ∀ rows a, Q rows a → Q' rows a) : Fine provider cluster p rows Q' := by
  refine Script.Safe.mono h fun rows result hresult => ?_
  cases result with
  | ok a => exact hQ rows a hresult
  | error thrown => exact hresult

theorem map {f : α → β} (h : Fine provider cluster p rows fun rows _ => ClusterTopology cluster rows) :
    Fine provider cluster (f <$> p) rows fun rows _ => ClusterTopology cluster rows := by
  change Fine provider cluster (p >>= fun a => Pure.pure (f a)) rows _
  exact bind h

theorem attempt {Q : Rows → Except Thrown α → Prop}
    (h : Fine provider cluster p rows fun rows a => Q rows (.ok a))
    (herror : ∀ rows thrown, ClusterTopology cluster rows → Q rows (.error thrown)) :
    Fine provider cluster (Script.attempt p) rows Q := by
  refine Script.Safe.attempt (Script.Safe.mono h fun rows result hresult => ?_)
  cases result with
  | ok a => exact hresult
  | error thrown => exact herror rows thrown hresult

/-- An ask, whose rejection leaves the topology as well. -/
theorem perform {Q : Rows → Answer ask → Prop} (h : ClusterTopology cluster rows)
    (hown : OwnRows cluster rows ask)
    (hplaced : ∀ outside, Clear provider rows outside ask →
      Placed (rows.written provider outside ask))
    (hQ : ∀ outside, Clear provider rows outside ask →
      ClusterTopology cluster (rows.written provider outside ask) →
        Q (rows.written provider outside ask) (rows.answered provider outside ask)) :
    Fine provider cluster (AlloyDb.perform ask) rows Q := by
  refine Script.safe_request.2 ⟨hown, fun outside hclear => ?_⟩
  have hwritten : ClusterTopology cluster (rows.written provider outside ask) := by
    refine ⟨part_eq_self.1 ?_, distinctIds_written h.ids hclear.fresh, hplaced outside hclear⟩
    have hpart : rows.part cluster = rows := part_eq_self.2 h.owned
    rw [written_part (hpart.symm ▸ hown) hclear, hpart]
  dsimp only [rowsWorld]
  rcases handle_cases provider rows ask outside with hdone | ⟨thrown, hdone | hdone⟩
  · rw [hdone]
    exact hQ outside hclear hwritten
  · rw [hdone]
    exact hwritten
  · rw [hdone]
    exact h

/-- An ask that leaves the rows alone. -/
theorem read {Q : Rows → Answer ask → Prop} (h : ClusterTopology cluster rows)
    (hown : OwnRows cluster rows ask)
    (hsame : ∀ outside, rows.written provider outside ask = rows)
    (hQ : ∀ outside, Clear provider rows outside ask → Q rows (rows.answered provider outside ask)) :
    Fine provider cluster (AlloyDb.perform ask) rows Q := by
  refine perform h hown (fun outside _ => ?_) fun outside hclear _ => ?_
  · rw [hsame]
    exact h.placed
  · rw [hsame]
    exact hQ outside hclear

/-- An ask that leaves the rows alone, whatever comes of it. -/
theorem attemptRead {Q : Rows → Except Thrown (Answer ask) → Prop} (hown : OwnRows cluster rows ask)
    (hsame : ∀ outside, rows.written provider outside ask = rows) (hQ : ∀ result, Q rows result) :
    Fine provider cluster (Script.attempt (AlloyDb.perform ask)) rows Q := by
  refine Script.Safe.attempt (Script.safe_request.2 ⟨hown, fun outside _ => ?_⟩)
  dsimp only [rowsWorld]
  rcases handle_cases provider rows ask outside with hdone | ⟨thrown, hdone | hdone⟩
  · rw [hdone, hsame]
    exact hQ _
  · rw [hdone, hsame]
    exact hQ _
  · rw [hdone]
    exact hQ _

theorem now {Q : Rows → JsString → Prop} (h : ClusterTopology cluster rows)
    (hQ : ∀ text, Q rows text) : Fine provider cluster (AlloyDb.perform .now) rows Q :=
  read h trivial (fun _ => rfl) fun _ _ => hQ _

theorem randomUUID {Q : Rows → JsString → Prop} (h : ClusterTopology cluster rows)
    (hQ : ∀ text, Q rows text) : Fine provider cluster (AlloyDb.perform .randomUUID) rows Q :=
  read h trivial (fun _ => rfl) fun _ _ => hQ _

theorem getByName {kind : Kind} {name : JsString} {Q : Rows → Option kind.Row → Prop}
    (h : ClusterTopology cluster rows) (hown : kind.owner name = cluster)
    (hQ : Q rows ((rows.table kind).getByName name)) :
    Fine provider cluster (AlloyDb.getByName kind name) rows Q :=
  read h hown (fun _ => rfl) fun _ _ => hQ

/-- The rows with a new one. -/
theorem create {kind : Kind} {row : NewRow kind.Data} {Q : Rows → kind.Row → Prop}
    (h : ClusterTopology cluster rows) (hown : kind.owner row.name = cluster)
    (hplaced : (rows.table kind).getByName row.name = none → ∀ id,
      Placed (Function.update rows kind (rows kind ++ [⟨id, row.name, row.data⟩])))
    (hQ : ∀ id, (∀ old ∈ rows kind, old.id ≠ id) →
      ClusterTopology cluster (Function.update rows kind (rows kind ++ [⟨id, row.name, row.data⟩])) →
        Q (Function.update rows kind (rows kind ++ [⟨id, row.name, row.data⟩]))
          ⟨id, row.name, row.data⟩) :
    Fine provider cluster (AlloyDb.create kind row) rows Q := by
  refine bind (getByName h hown ?_)
  cases hfound : (rows.table kind).getByName row.name with
  | some existing => exact throw h
  | none =>
      exact perform h hown (fun outside _ => hplaced hfound outside.id)
        fun outside hclear hwritten => hQ outside.id hclear hwritten

theorem exists_of_getByName {kind : Kind} {name : JsString} {existing : kind.Row}
    (h : (rows.table kind).getByName name = some existing) :
    existing ∈ rows kind ∧ existing.name = name := by
  have hfound : (rows kind).find? (fun row => row.name = name) = some existing := h
  exact ⟨List.mem_of_find?_eq_some hfound, by simpa using List.find?_some hfound⟩

theorem update {kind : Kind} {name : JsString} {patch : kind.Data → kind.Data}
    {Q : Rows → Option kind.Row → Prop} (h : ClusterTopology cluster rows)
    (hown : kind.owner name = cluster)
    (hplaced : ∀ existing ∈ rows kind, existing.name = name →
      Placed (Function.update rows kind ((rows kind).map (Rows.updateRow existing.id patch))))
    (hQ : ∀ rows found, ClusterTopology cluster rows → Q rows found) :
    Fine provider cluster (AlloyDb.update kind name patch) rows Q := by
  refine bind (getByName h hown ?_)
  cases hfound : (rows.table kind).getByName name with
  | none => exact pure (hQ rows none h)
  | some existing =>
      obtain ⟨hmem, hname⟩ := exists_of_getByName hfound
      exact perform h ⟨existing, hmem, rfl⟩ (fun _ _ => hplaced existing hmem hname)
        fun _ _ hwritten => hQ _ _ hwritten

theorem delete {kind : Kind} {name : JsString} {Q : Rows → Bool → Prop}
    (h : ClusterTopology cluster rows) (hown : kind.owner name = cluster)
    (hplaced : ∀ existing ∈ rows kind, existing.name = name →
      Placed (Function.update rows kind ((rows kind).filter fun row => row.id ≠ existing.id)))
    (hQ : ∀ rows found, ClusterTopology cluster rows → Q rows found) :
    Fine provider cluster (AlloyDb.delete kind name) rows Q := by
  refine bind (getByName h hown ?_)
  cases hfound : (rows.table kind).getByName name with
  | none => exact pure (hQ rows false h)
  | some existing =>
      obtain ⟨hmem, hname⟩ := exists_of_getByName hfound
      exact perform h ⟨existing, hmem, rfl⟩ (fun _ _ => hplaced existing hmem hname)
        fun _ _ hwritten => hQ _ _ hwritten

/-- The rows that a listing answers are all of the kind. -/
theorem listAllByPrefix {kind : Kind} {stem : JsString} {Q : Rows → List kind.Row → Prop}
    (h : ClusterTopology cluster rows) (hstem : parentName stem = cluster)
    (hQ : ∀ found, (∀ row, row ∈ found ↔ row ∈ rows kind) → Q rows found) :
    Fine provider cluster (AlloyDb.listAllByPrefix kind stem) rows Q := by
  refine read h hstem (fun _ => rfl) fun outside hclear => hQ _ fun row => ?_
  have hall := (matching_part hclear hstem).1
  rw [part_eq_self.2 h.owned] at hall
  simp only [Rows.answered, Storage.listAllByPrefix, sortByName, hall]
  exact (List.perm_insertionSort ..).mem_iff

theorem countByPrefix {kind : Kind} {stem : JsString} {Q : Rows → ℕ → Prop}
    (h : ClusterTopology cluster rows) (hstem : parentName stem = cluster)
    (hQ : ∀ n, Q rows n) : Fine provider cluster (AlloyDb.countByPrefix kind stem) rows Q :=
  read h hstem (fun _ => rfl) fun _ _ => hQ _

/-- All rows of the kind go. -/
theorem deleteByPrefix {kind : Kind} {stem : JsString} {Q : Rows → ℕ → Prop}
    (h : ClusterTopology cluster rows) (hstem : parentName stem = cluster)
    (hplaced : Placed (Function.update rows kind []))
    (hQ : ∀ n, ClusterTopology cluster (Function.update rows kind []) →
      Q (Function.update rows kind []) n) :
    Fine provider cluster (AlloyDb.deleteByPrefix kind stem) rows Q := by
  have hwritten : ∀ outside, Clear provider rows outside (.deleteMany kind stem) →
      rows.written provider outside (.deleteMany kind stem) = Function.update rows kind [] := by
    intro outside hclear
    have hgone := (deleteByPrefix_part hclear hstem).2.1
    rw [part_eq_self.2 h.owned] at hgone
    simp only [Rows.written, hgone]
  refine perform h hstem (fun outside hclear => ?_) fun outside hclear htopology => ?_
  · rw [hwritten outside hclear]
    exact hplaced
  · rw [hwritten outside hclear] at htopology ⊢
    exact hQ _ htopology

theorem operationRow {path : ClusterPath} {target verb resourceType : JsString}
    {response : Option Fields} {error : Option OperationError} {Q : Rows → OperationRow → Prop}
    (h : ClusterTopology cluster rows) (hQ : ∀ row, Q rows row) :
    Fine provider cluster (AlloyDb.operationRow path target verb resourceType response error) rows Q :=
  bind (now h fun _ => bind (randomUUID h fun _ => hQ _))

theorem createOperation {path : ClusterPath} {target verb resourceType : JsString}
    {response : Option Fields} (h : ClusterTopology cluster rows) :
    Fine provider cluster (AlloyDb.createOperation path target verb resourceType response) rows
      fun rows _ => ClusterTopology cluster rows :=
  bind (operationRow h fun _ => bind (read h trivial (fun _ => rfl) fun _ _ => pure h))

theorem createFailedOperation {path : ClusterPath} {target verb resourceType : JsString}
    {error : OperationError} (h : ClusterTopology cluster rows) :
    Fine provider cluster (AlloyDb.createFailedOperation path target verb resourceType error) rows
      fun rows _ => ClusterTopology cluster rows :=
  bind (operationRow h fun _ => bind (read h trivial (fun _ => rfl) fun _ _ => pure h))

theorem buildUnpersistedOperation {path : ClusterPath} {target verb resourceType : JsString}
    {response : Option Fields} (h : ClusterTopology cluster rows) :
    Fine provider cluster (AlloyDb.buildUnpersistedOperation path target verb resourceType response)
      rows fun rows _ => ClusterTopology cluster rows :=
  bind (operationRow h fun _ => pure h)

end Fine

/-! ## Changes of the rows -/

/-- Other clusters of the name, of which there is one. -/
theorem Placed.clusters (h : Placed rows) {new : List ClusterRecord} (hnew : new ≠ []) :
    Placed (Function.update rows .clusters new) where
  names := h.names
  primaries := h.primaries
  readPools := h.readPools
  children _ := hnew

theorem Placed.users (h : Placed rows) {new : List UserRecord}
    (hnew : new ≠ [] → rows .clusters ≠ []) : Placed (Function.update rows .users new) where
  names := h.names
  primaries := h.primaries
  readPools := h.readPools
  children hchildren := hchildren.elim (fun hinstances => h.children (.inl hinstances)) hnew

/-- Where a new row may be placed. -/
def MayPlace (rows : Rows) (name instanceType : JsString) : Prop :=
  (instanceType = js "PRIMARY" → ∀ row ∈ rows .instances, row.name ≠ name →
    row.data.instanceType ≠ js "PRIMARY") ∧
  (instanceType = js "READ_POOL" → ∃ row ∈ rows .instances, row.name ≠ name ∧
    row.data.instanceType = js "PRIMARY")

/-- A row stands where it may. -/
theorem Placed.mayPlace (h : Placed rows) {existing : InstanceRecord}
    (hmem : existing ∈ rows .instances) : MayPlace rows existing.name existing.data.instanceType := by
  refine ⟨fun hprimary row hrow hne hother => ?_, fun hpool => ?_⟩
  · exact hne (h.primaries row hrow existing hmem hother hprimary)
  · obtain ⟨other, hother, hprimary⟩ := h.readPools existing hmem hpool
    refine ⟨other, hother, fun hname => ?_, hprimary⟩
    obtain rfl := List.inj_on_of_nodup_map h.names hother hmem hname
    exact absurd (hprimary.symm.trans hpool) (by decide)

theorem Placed.noInstances (h : Placed rows) : Placed (Function.update rows .instances []) where
  names := List.nodup_nil
  primaries := nofun
  readPools := nofun
  children hchildren := hchildren.elim (fun hnone => absurd rfl hnone) fun husers => h.children (.inr husers)

/-- A cluster without instances and users, which may go. -/
theorem Placed.lastCluster (hinstances : rows .instances = []) (husers : rows .users = [])
    (new : List ClusterRecord) : Placed (Function.update rows .clusters new) := by
  have hnone : Function.update rows .clusters new .instances = [] := hinstances
  refine ⟨?_, ?_, ?_, ?_⟩
  · rw [hnone]
    exact List.nodup_nil
  · rw [hnone]
    nofun
  · rw [hnone]
    nofun
  · rintro (hrest | hrest)
    · exact absurd hnone hrest
    · exact absurd husers hrest

theorem Placed.insertInstance (h : Placed rows) {new : InstanceRecord}
    (hclusters : rows .clusters ≠ []) (hname : ∀ row ∈ rows .instances, row.name ≠ new.name)
    (hplace : MayPlace rows new.name new.data.instanceType) :
    Placed (Function.update rows .instances (rows .instances ++ [new])) := by
  have hmem : ∀ row : InstanceRecord, row ∈ rows .instances ++ [new] ↔
      row ∈ rows .instances ∨ row = new := by simp
  refine ⟨?_, fun row hrow other hother hprimary hprimary' => ?_, fun row hrow hpool => ?_,
    fun _ => hclusters⟩
  · change ((rows .instances ++ [new]).map Row.name).Nodup
    rw [List.map_append, List.nodup_append]
    refine ⟨h.names, List.nodup_singleton _, ?_⟩
    rintro _ hold _ hnew rfl
    obtain ⟨row, hrow, hsame⟩ := List.mem_map.1 hold
    exact hname row hrow (hsame.trans (List.mem_singleton.1 hnew))
  · rcases (hmem row).1 hrow with hold | rfl
    · rcases (hmem other).1 hother with hold' | rfl
      · exact h.primaries row hold other hold' hprimary hprimary'
      · exact absurd hprimary (hplace.1 hprimary' row hold (hname row hold))
    · rcases (hmem other).1 hother with hold' | rfl
      · exact absurd hprimary' (hplace.1 hprimary other hold' (hname other hold'))
      · rfl
  · rcases (hmem row).1 hrow with hold | rfl
    · obtain ⟨other, hother, hprimary⟩ := h.readPools row hold hpool
      exact ⟨other, (hmem other).2 (.inl hother), hprimary⟩
    · obtain ⟨other, hother, -, hprimary⟩ := hplace.2 hpool
      exact ⟨other, (hmem other).2 (.inl hother), hprimary⟩

/-- A new primary has no read pools yet, for they would have another. -/
theorem Placed.no_readPools (h : Placed rows) {new : InstanceRecord}
    (hname : ∀ row ∈ rows .instances, row.name ≠ new.name)
    (hplace : MayPlace rows new.name new.data.instanceType) :
    ∀ existing ∈ rows .instances ++ [new], existing.name = new.name →
      existing.data.instanceType = js "PRIMARY" → ∀ row ∈ rows .instances ++ [new],
        row.name ≠ existing.name → row.data.instanceType ≠ js "READ_POOL" := by
  intro existing hexisting hsame hprimary row hrow hne hpool
  have hnew : existing = new := by
    rcases List.mem_append.1 hexisting with hold | hnew
    · exact absurd hsame (hname existing hold)
    · exact List.mem_singleton.1 hnew
  subst hnew
  have hold : row ∈ rows .instances := by
    rcases List.mem_append.1 hrow with hold | hnew
    · exact hold
    · exact absurd (congrArg Row.name (List.mem_singleton.1 hnew)) hne
  obtain ⟨other, hother, hotherPrimary⟩ := h.readPools row hold hpool
  exact hplace.1 hprimary other hother (hname other hother) hotherPrimary

/-- A deletion leaves no read pool without the primary that goes. -/
theorem Placed.deleteInstance (h : Placed rows) {existing : InstanceRecord}
    (hmem : existing ∈ rows .instances) (hids : DistinctIds rows)
    (hpools : existing.data.instanceType = js "PRIMARY" → ∀ row ∈ rows .instances,
      row.name ≠ existing.name → row.data.instanceType ≠ js "READ_POOL") :
    Placed (Function.update rows .instances
      ((rows .instances).filter fun row => row.id ≠ existing.id)) := by
  have hsub : ∀ row ∈ (rows .instances).filter (fun row => row.id ≠ existing.id),
      row ∈ rows .instances := fun row hrow => (List.mem_filter.1 hrow).1
  refine ⟨h.names.sublist (List.filter_sublist.map _), fun row hrow other hother =>
    h.primaries row (hsub row hrow) other (hsub other hother), fun row hrow hpool => ?_, ?_⟩
  · obtain ⟨other, hother, hprimary⟩ := h.readPools row (hsub row hrow) hpool
    refine ⟨other, List.mem_filter.2 ⟨hother, decide_eq_true fun hid => ?_⟩, hprimary⟩
    obtain rfl := List.inj_on_of_nodup_map (hids .instances) hother hmem hid
    refine hpools hprimary row (hsub row hrow) (fun hname => ?_) hpool
    obtain rfl := List.inj_on_of_nodup_map h.names (hsub row hrow) hmem hname
    exact absurd (hprimary.symm.trans hpool) (by decide)
  · rintro (hrest | husers)
    · refine h.children (.inl fun hnone => hrest ?_)
      change (rows .instances).filter _ = []
      rw [hnone]
      rfl
    · exact h.children (.inr husers)

theorem mem_updateRow {patch : InstanceData → InstanceData} {id : ℕ} {row : InstanceRecord}
    (h : row ∈ (rows .instances).map (@Rows.updateRow .instances id patch)) :
    ∃ old ∈ rows .instances, row.name = old.name ∧
      (old.id ≠ id ∧ row.data = old.data ∨ old.id = id ∧ row.data = patch old.data) := by
  obtain ⟨old, hold, rfl⟩ := List.mem_map.1 h
  refine ⟨old, hold, name_updateRow .., ?_⟩
  by_cases hid : old.id = id
  · exact .inr ⟨hid, by rw [Rows.updateRow, if_pos hid]⟩
  · exact .inl ⟨hid, by rw [Rows.updateRow, if_neg hid]⟩

/-- An update of a row, after which its type may stand where it stands. -/
theorem Placed.updateInstance (h : Placed rows) {existing : InstanceRecord}
    {patch : InstanceData → InstanceData} (hmem : existing ∈ rows .instances) (hids : DistinctIds rows)
    (hplace : MayPlace rows existing.name (patch existing.data).instanceType)
    (hprimary : existing.data.instanceType = js "PRIMARY" →
      (patch existing.data).instanceType = js "PRIMARY" ∨
        (patch existing.data).instanceType = js "READ_POOL") :
    Placed (Function.update rows .instances
      ((rows .instances).map (@Rows.updateRow .instances existing.id patch))) := by
  have hsame : ∀ old ∈ rows .instances, old.id = existing.id → old = existing :=
    fun old hold hid => List.inj_on_of_nodup_map (hids .instances) hold hmem hid
  have hname : ∀ old ∈ rows .instances, old.id ≠ existing.id → old.name ≠ existing.name := by
    intro old hold hid heq
    exact hid (congrArg Row.id (List.inj_on_of_nodup_map h.names hold hmem heq))
  -- a primary other than the one that is updated stays
  have hstays : ∀ old ∈ rows .instances, old.name ≠ existing.name →
      old ∈ (rows .instances).map (@Rows.updateRow .instances existing.id patch) := by
    intro old hold hne
    refine List.mem_map.2 ⟨old, hold, ?_⟩
    rw [Rows.updateRow, if_neg fun hid => hne (congrArg Row.name (hsame old hold hid))]
  refine ⟨?_, fun row hrow other hother hrowPrimary hotherPrimary => ?_, fun row hrow hpool => ?_, ?_⟩
  · change (((rows .instances).map _).map Row.name).Nodup
    rw [List.map_map]
    have hcomp : Row.name ∘ @Rows.updateRow .instances existing.id patch = Row.name :=
      funext fun row => name_updateRow ..
    rw [hcomp]
    exact h.names
  · obtain ⟨old, hold, hrowName, hcase⟩ := mem_updateRow hrow
    obtain ⟨old', hold', hotherName, hcase'⟩ := mem_updateRow hother
    rw [hrowName, hotherName]
    rcases hcase with ⟨hid, hdata⟩ | ⟨hid, hdata⟩
    · rcases hcase' with ⟨hid', hdata'⟩ | ⟨hid', hdata'⟩
      · exact h.primaries old hold old' hold' (hdata ▸ hrowPrimary) (hdata' ▸ hotherPrimary)
      · obtain rfl := hsame old' hold' hid'
        exact absurd (hdata ▸ hrowPrimary)
          (hplace.1 (hdata' ▸ hotherPrimary) old hold (hname old hold hid))
    · obtain rfl := hsame old hold hid
      rcases hcase' with ⟨hid', hdata'⟩ | ⟨hid', hdata'⟩
      · exact absurd (hdata' ▸ hotherPrimary)
          (hplace.1 (hdata ▸ hrowPrimary) old' hold' (hname old' hold' hid'))
      · rw [hsame old' hold' hid']
  · obtain ⟨old, hold, -, ⟨hid, hdata⟩ | ⟨hid, hdata⟩⟩ := mem_updateRow hrow
    · obtain ⟨other, hother, hotherPrimary⟩ := h.readPools old hold (hdata ▸ hpool)
      by_cases hne : other.name = existing.name
      · obtain rfl := List.inj_on_of_nodup_map h.names hother hmem hne
        -- the primary itself is updated: it stays one, for as a read pool it would need another
        rcases hprimary hotherPrimary with hstill | hnow
        · refine ⟨_, List.mem_map.2 ⟨other, hother, rfl⟩, ?_⟩
          rw [Rows.updateRow, if_pos rfl]
          exact hstill
        · obtain ⟨another, hanother, hne, hanotherPrimary⟩ := hplace.2 hnow
          exact absurd (h.primaries another hanother other hother hanotherPrimary hotherPrimary) hne
      · exact ⟨other, hstays other hother hne, hotherPrimary⟩
    · obtain rfl := hsame old hold hid
      obtain ⟨other, hother, hne, hotherPrimary⟩ := hplace.2 (hdata ▸ hpool)
      exact ⟨other, hstays other hother hne, hotherPrimary⟩
  · rintro (hinstances | husers)
    · refine h.children (.inl fun hnone => hinstances ?_)
      change (rows .instances).map _ = []
      rw [hnone]
      rfl
    · exact h.children (.inr husers)

end Kinglet.AlloyDb
