import Kinglet.AlloyDb.Placement

/-!
# The topology in every state

Whatever calls on clusters, instances and users come, in whatever order they are served, and whatever the
storage and the data plane reject: when no call is running, the topology holds. This rests on the
patterns with which a call lists, counts and deletes the rows of its cluster, which have to let through
just these; and they do not, where a name has an underscore.
-/

namespace Kinglet.AlloyDb

open Js Library Storage Shared

abbrev AlloyMachine := Exclusive Ask Answer Thrown Result AlloyStore

abbrev AlloyEvent := ExclusiveEvent Ask Answer Thrown Result Outside

/-- The primary instances of a cluster. -/
def primaries (rows : Rows) (cluster : JsString) : List InstanceRecord :=
  (rows .instances).filter fun row =>
    parentName row.name = cluster ∧ row.data.instanceType = js "PRIMARY"

/-- Each cluster has at most one primary, each read pool is in a cluster that has one, and each instance
and user is in a cluster that exists. -/
structure Topology (rows : Rows) : Prop where
  primaries : ∀ cluster, (primaries rows cluster).length ≤ 1
  readPools : ∀ row ∈ rows .instances, row.data.instanceType = js "READ_POOL" →
    AlloyDb.primaries rows (parentName row.name) ≠ []
  instances : ∀ row ∈ rows .instances, parentName row.name ∈ (rows .clusters).map Row.name
  users : ∀ row ∈ rows .users, parentName row.name ∈ (rows .clusters).map Row.name

/-- The calls under the mutex, where each pattern lets through the rows of its own cluster. -/
def ClearStep (provider : Provider) : AlloyMachine → AlloyEvent → AlloyMachine → Prop :=
  Exclusive.Step (alloyWorld provider fun store ask outside => Clear provider store.rows outside ask) Calls

/-- The calls under the mutex. -/
def CallStep (provider : Provider) : AlloyMachine → AlloyEvent → AlloyMachine → Prop :=
  Exclusive.Step (alloyWorld provider fun store ask outside => Fresh store.rows outside ask) Calls

variable {provider : Provider} {rows : Rows} {machine : AlloyMachine} {events : List AlloyEvent}

theorem length_le_one_of_same_name {found : List InstanceRecord} (hnames : (found.map Row.name).Nodup)
    (hsame : ∀ row ∈ found, ∀ other ∈ found, row.name = other.name) : found.length ≤ 1 := by
  match found, hnames, hsame with
  | [], _, _ => exact Nat.zero_le 1
  | [_], _, _ => exact le_rfl
  | row :: other :: rest, hnames, hsame =>
      have hne : row.name ≠ other.name := by
        intro heq
        simp [heq] at hnames
      exact absurd (hsame row List.mem_cons_self other (List.mem_cons_of_mem _ List.mem_cons_self)) hne

/-- The topology, from that of each cluster. -/
theorem topology_of_parts (h : ∀ cluster, ClusterTopology cluster (rows.part cluster)) :
    Topology rows := by
  have hmem : ∀ row ∈ rows .instances, row ∈ rows.part (parentName row.name) .instances :=
    fun row hrow => mem_part.2 ⟨hrow, rfl⟩
  -- a cluster that has a child is there
  have hcluster : ∀ cluster, rows.part cluster .clusters ≠ [] →
      cluster ∈ (rows .clusters).map Row.name := by
    intro cluster hne
    obtain ⟨row, hrow⟩ := List.exists_mem_of_ne_nil _ hne
    obtain ⟨hrow, howner⟩ := mem_part.1 hrow
    exact List.mem_map.2 ⟨row, hrow, howner⟩
  refine ⟨fun cluster => ?_, fun row hrow hpool => ?_, fun row hrow => ?_, fun row hrow => ?_⟩
  · have hsub : primaries rows cluster = (rows.part cluster .instances).filter
        fun row => row.data.instanceType = js "PRIMARY" := by
      rw [primaries, Rows.part, List.filter_filter]
      exact List.filter_congr fun row _ => (Bool.decide_and ..).trans (Bool.and_comm ..)
    rw [hsub]
    refine length_le_one_of_same_name ((h cluster).placed.names.sublist (List.filter_sublist.map _)) ?_
    intro row hrow other hother
    obtain ⟨hrow, hprimary⟩ := List.mem_filter.1 hrow
    obtain ⟨hother, hprimary'⟩ := List.mem_filter.1 hother
    exact (h cluster).placed.primaries row hrow other hother (of_decide_eq_true hprimary)
      (of_decide_eq_true hprimary')
  · obtain ⟨other, hother, hprimary⟩ := (h _).placed.readPools row (hmem row hrow) hpool
    obtain ⟨hother, howner⟩ := mem_part.1 hother
    exact List.ne_nil_of_mem (List.mem_filter.2 ⟨hother, decide_eq_true ⟨howner, hprimary⟩⟩)
  · exact hcluster _ ((h _).placed.children (.inl (List.ne_nil_of_mem (hmem row hrow))))
  · have huser : row ∈ rows.part (parentName row.name) .users := mem_part.2 ⟨hrow, rfl⟩
    exact hcluster _ ((h _).placed.children (.inr (List.ne_nil_of_mem huser)))

theorem clusterTopology_empty (cluster : JsString) :
    ClusterTopology cluster (Rows.part cluster AlloyStore.empty.rows) where
  owned := nofun
  ids _ := List.nodup_nil
  placed := ⟨List.nodup_nil, nofun, nofun, fun h => h.elim (absurd rfl) (absurd rfl)⟩

/-- What the running calls keep. -/
theorem holds_of_run (hrun : Run (ClearStep provider) (Exclusive.start AlloyStore.empty) events machine) :
    Exclusive.Holds (rowsWorld provider) (fun cluster store => Rows.part cluster store.rows)
      (fun store => DistinctIds store.rows) (fun cluster => OwnRows cluster) Calls ClusterTopology
      machine := by
  refine Exclusive.Holds.run (separates provider) ?_ hrun
    (Exclusive.holds_start (fun _ => List.nodup_nil) clusterTopology_empty)
  rintro _ _ part ⟨request, hrouted, hcheck, rfl, rfl⟩ h
  refine Script.Safe.mono (request.exclusively_keeps hrouted hcheck h) fun rows result hresult => ?_
  cases result with
  | ok _ => exact hresult
  | error _ => exact hresult

/-- **The topology is kept** in every run whose patterns let through the rows of their own clusters. -/
theorem topology_kept (provider : Provider) (events : List AlloyEvent) (machine : AlloyMachine)
    (hrun : Run (ClearStep provider) (Exclusive.start AlloyStore.empty) events machine)
    (hanswered : machine.AllAnswered) : Topology machine.shared.rows :=
  topology_of_parts ((holds_of_run hrun).allAnswered hanswered)

/-! ## Runs by evaluation -/

instance (rows : Rows) (outside : Outside) (ask : Ask) : Decidable (Fresh rows outside ask) :=
  match ask with
  | .create kind _ => inferInstanceAs (Decidable (∀ row ∈ rows kind, row.id ≠ outside.id))
  | .findFirst _ _ | .updateById _ _ _ | .deleteById _ _ | .find _ _ | .count _ _ | .deleteMany _ _
  | .createOperation _ | .startInstance _ | .dropInstance _ | .now | .randomUUID =>
      inferInstanceAs (Decidable True)

instance (provider : Provider) (rows : Rows) (outside : Outside) (ask : Ask) :
    Decidable (Clear provider rows outside ask) :=
  match ask with
  | .create kind _ => inferInstanceAs (Decidable (∀ row ∈ rows kind, row.id ≠ outside.id))
  | .find kind stem | .count kind stem | .deleteMany kind stem =>
      inferInstanceAs (Decidable (∀ row ∈ rows kind,
        like provider row.name (stem ++ js "%") = decide (kind.owner row.name = parentName stem)))
  | .findFirst _ _ | .updateById _ _ _ | .deleteById _ _ | .createOperation _ | .startInstance _
  | .dropInstance _ | .now | .randomUUID => inferInstanceAs (Decidable True)

instance (provider : Provider) (allows : AlloyStore → Ask → Outside → Prop)
    [∀ store ask outside, Decidable (allows store ask outside)] (store : AlloyStore) (ask : Ask)
    (outside : Outside) : Decidable ((alloyWorld provider allows).Allows store ask outside) :=
  inferInstanceAs (Decidable (allows store ask outside))

/-- An ask that is done, with an identifier for a new row. -/
def doneWith (id : ℕ) : Outside := ⟨.done, id, .absent, 0, "5f3e"⟩

/-- Calls one after the other, each with the number of its asks. -/
def served (requests : List (Request × ℕ)) : List AlloyEvent :=
  requests.zipIdx.flatMap fun entry =>
    Exclusive.alone entry.2 (buildClusterName entry.1.1.path) entry.1.1.exclusively
      ((List.range entry.1.2).map fun n => doneWith (100 * entry.2 + n))

theorem calls_served {requests : List (Request × ℕ)}
    (h : ∀ entry ∈ requests, entry.1.Routed ∧ entry.1.check = .ok ()) {key : JsString}
    {script : AlloyScript Result} (hcall : .call key script ∈ served requests) : Calls key script := by
  obtain ⟨entry, hentry, hmem⟩ := List.mem_flatMap.1 hcall
  obtain ⟨rfl, rfl⟩ := Exclusive.mem_alone hmem
  obtain ⟨hrouted, hcheck⟩ := h entry.1 (List.fst_mem_of_mem_zipIdx hentry)
  exact ⟨entry.1.1, hrouted, hcheck, rfl, rfl⟩

theorem exists_served {allows : AlloyStore → Ask → Outside → Prop}
    [∀ store ask outside, Decidable (allows store ask outside)] {requests : List (Request × ℕ)}
    {test : AlloyMachine → Bool}
    (hrequests : ∀ entry ∈ requests, entry.1.Routed ∧ entry.1.check = .ok ())
    (h : ((served requests).foldlM (Exclusive.play (alloyWorld provider allows))
      (Exclusive.start AlloyStore.empty)).any test = true) :
    ∃ machine, Run (Exclusive.Step (alloyWorld provider allows) Calls)
      (Exclusive.start AlloyStore.empty) (served requests) machine ∧ test machine = true :=
  Exclusive.exists_run (fun _ _ => calls_served hrequests) h

def clusterBody : Fields := [("network", .str "default")]

def primaryBody : Fields := [("instanceType", .str "PRIMARY")]

def readPoolBody : Fields :=
  [("instanceType", .str "READ_POOL"), ("readPoolConfig", .obj none [("nodeCount", .num 1)])]

/-- A cluster of a project. -/
def mainCluster (project : JsString) : ClusterPath := ⟨project, "us-central1", "main"⟩

/-- A cluster with a primary and a read pool. -/
def servedWithPrimary : List AlloyEvent :=
  served [(.createCluster (mainCluster "my-app") clusterBody false, 10),
    (.createInstance (mainCluster "my-app") "writer" primaryBody false, 11),
    (.createInstance (mainCluster "my-app") "reader" readPoolBody false, 11)]

theorem topology_kept_withPrimary : ∃ machine,
    Run (ClearStep .sqlite) (Exclusive.start AlloyStore.empty) servedWithPrimary machine ∧
      (machine.shared.rows .instances).length = 2 ∧ Topology machine.shared.rows := by
  have hexists : ∃ machine,
      Run (ClearStep .sqlite) (Exclusive.start AlloyStore.empty) servedWithPrimary machine ∧
        decide ((machine.shared.rows .instances).length = 2 ∧ machine.AllAnswered) = true :=
    exists_served (by decide +kernel) (by decide +kernel)
  obtain ⟨machine, hrun, htest⟩ := hexists
  obtain ⟨hlength, hanswered⟩ := of_decide_eq_true htest
  exact ⟨machine, hrun, hlength, topology_kept .sqlite _ machine hrun hanswered⟩

/-- Two clusters, of which one has a primary and the other gets a read pool: to the pattern
`projects/my_app/…` the primary of `my-app` is one of its own. -/
def servedWithUnderscore : List AlloyEvent :=
  served [(.createCluster (mainCluster "my-app") clusterBody false, 10),
    (.createInstance (mainCluster "my-app") "writer" primaryBody false, 11),
    (.createCluster (mainCluster "my_app") clusterBody false, 10),
    (.createInstance (mainCluster "my_app") "reader" readPoolBody false, 11)]

theorem not_topology_kept : ¬∀ (provider : Provider) (events : List AlloyEvent) (machine : AlloyMachine),
    Run (CallStep provider) (Exclusive.start AlloyStore.empty) events machine → machine.AllAnswered →
      Topology machine.shared.rows := by
  intro hkept
  have hexists : ∃ machine,
      Run (CallStep .sqlite) (Exclusive.start AlloyStore.empty) servedWithUnderscore machine ∧
        decide (machine.AllAnswered ∧ ∃ row ∈ machine.shared.rows .instances,
          row.data.instanceType = js "READ_POOL" ∧
            primaries machine.shared.rows (parentName row.name) = []) = true :=
    exists_served (by decide +kernel) (by decide +kernel)
  obtain ⟨machine, hrun, htest⟩ := hexists
  obtain ⟨hanswered, row, hrow, hpool, hnone⟩ := of_decide_eq_true htest
  exact (hkept .sqlite _ machine hrun hanswered).readPools row hrow hpool hnone

end Kinglet.AlloyDb
