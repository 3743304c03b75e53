import Kinglet.AlloyDb.Services
import Kinglet.Js.Separators
import Kinglet.Shared.Exclusive

/-!
# The rows of one cluster

The name of an instance or a user begins with that of its cluster. A call on a cluster names its own rows
only, but for the prefixes that it lists, counts and deletes: those are `LIKE` patterns. As long as each
pattern lets through the rows of its own cluster and no others, the rows separate by clusters.
-/

namespace Kinglet.AlloyDb

open Js Library Storage Shared

/-! ## Owners -/

/-- A name without its last two segments. -/
def parentName (name : JsString) : JsString :=
  match cutLast (unit '/') name with
  | none => []
  | some (front, _) => ((cutLast (unit '/') front).map Prod.fst).getD []

/-- The name of the cluster that a row belongs to. -/
def Kind.owner : Kind → JsString → JsString
  | .clusters, name => name
  | .instances, name | .users, name => parentName name

theorem parentName_append {name collection id : JsString} (hcollection : unit '/' ∉ collection)
    (hid : unit '/' ∉ id) :
    parentName (name ++ unit '/' :: collection ++ unit '/' :: id) = name := by
  rw [parentName, cutLast_append hid]
  dsimp only
  rw [cutLast_append hcollection]
  rfl

theorem owner_instance (path : ClusterPath) {instanceId : JsString} (h : unit '/' ∉ instanceId) :
    Kind.instances.owner (buildInstanceName path instanceId) = buildClusterName path := by
  have hname : buildInstanceName path instanceId =
      buildClusterName path ++ unit '/' :: js "instances" ++ unit '/' :: instanceId := by
    simp only [buildInstanceName, buildInstanceListPrefix, List.append_assoc]
    rfl
  rw [hname]
  exact parentName_append (by decide) h

theorem owner_user (path : ClusterPath) {userId : JsString} (h : unit '/' ∉ userId) :
    Kind.users.owner (buildUserName path userId) = buildClusterName path := by
  have hname : buildUserName path userId =
      buildClusterName path ++ unit '/' :: js "users" ++ unit '/' :: userId := by
    simp only [buildUserName, buildUserListPrefix, List.append_assoc]
    rfl
  rw [hname]
  exact parentName_append (by decide) h

theorem parentName_instanceListPrefix (path : ClusterPath) :
    parentName (buildInstanceListPrefix path) = buildClusterName path := by
  have howner : Kind.instances.owner (buildInstanceName path []) = buildClusterName path :=
    owner_instance path List.not_mem_nil
  rwa [buildInstanceName, List.append_nil] at howner

theorem parentName_userListPrefix (path : ClusterPath) :
    parentName (buildUserListPrefix path) = buildClusterName path := by
  have howner : Kind.users.owner (buildUserName path []) = buildClusterName path :=
    owner_user path List.not_mem_nil
  rwa [buildUserName, List.append_nil] at howner

/-! ## Parts -/

/-- The rows of one cluster. -/
def Rows.part (cluster : JsString) (rows : Rows) : Rows :=
  fun kind => (rows kind).filter fun row => kind.owner row.name = cluster

/-- A pattern lets through the rows of its own cluster, and no others. -/
def Exact (provider : Provider) (rows : Rows) (kind : Kind) (stem : JsString) : Prop :=
  ∀ row ∈ rows kind, like provider row.name (stem ++ js "%") = decide (kind.owner row.name = parentName stem)

/-- A new row gets an identifier of its own. -/
def Fresh (rows : Rows) (outside : Outside) : Ask → Prop
  | .create kind _ => ∀ row ∈ rows kind, row.id ≠ outside.id
  | _ => True

/-- The patterns of an ask let through what they are for, and a new row gets an identifier of its own. -/
def Clear (provider : Provider) (rows : Rows) (outside : Outside) : Ask → Prop
  | .create kind _ => ∀ row ∈ rows kind, row.id ≠ outside.id
  | .find kind stem | .count kind stem | .deleteMany kind stem => Exact provider rows kind stem
  | _ => True

/-- What a call on a cluster may ask for: its own rows. -/
def OwnRows (cluster : JsString) (rows : Rows) : Ask → Prop
  | .findFirst kind name => kind.owner name = cluster
  | .create kind row => kind.owner row.name = cluster
  | .updateById kind id _ | .deleteById kind id => ∃ row ∈ rows kind, row.id = id
  | .find _ stem | .count _ stem | .deleteMany _ stem => parentName stem = cluster
  | _ => True

/-- The rows, with inputs that come with clear asks. -/
def rowsWorld (provider : Provider) : World Ask Answer Thrown Rows Outside :=
  ⟨fun rows => rows.handle provider, fun rows ask outside => Clear provider rows outside ask⟩

/-- The rows of a kind have different identifiers. -/
def DistinctIds (rows : Rows) : Prop := ∀ kind, ((rows kind).map Row.id).Nodup

variable {provider : Provider} {rows : Rows} {cluster other : JsString} {ask : Ask} {outside : Outside}

theorem mem_part {kind : Kind} {row : kind.Row} :
    row ∈ rows.part cluster kind ↔ row ∈ rows kind ∧ kind.owner row.name = cluster := by
  simp [Rows.part]

theorem part_eq_self : rows.part cluster = rows ↔ ∀ kind, ∀ row ∈ rows kind, kind.owner row.name = cluster := by
  constructor
  · intro h kind row hrow
    rw [← h] at hrow
    exact (mem_part.1 hrow).2
  · intro h
    funext kind
    exact List.filter_eq_self.2 fun row hrow => decide_eq_true (h kind row hrow)

theorem part_update (kind : Kind) (new : List kind.Row) :
    Rows.part cluster (Function.update rows kind new) = Function.update (rows.part cluster) kind
      (new.filter fun row => kind.owner row.name = cluster) := by
  funext kind'
  by_cases hkind : kind' = kind
  · subst hkind
    simp [Rows.part]
  · simp [Rows.part, Function.update_of_ne hkind]

@[simp] theorem name_updateRow {kind : Kind} (id : ℕ) (patch : kind.Data → kind.Data) (row : kind.Row) :
    (Rows.updateRow id patch row).name = row.name := by
  rw [Rows.updateRow]
  split <;> rfl

@[simp] theorem id_updateRow {kind : Kind} (id : ℕ) (patch : kind.Data → kind.Data) (row : kind.Row) :
    (Rows.updateRow id patch row).id = row.id := by
  rw [Rows.updateRow]
  split <;> rfl

/-- On the part of the cluster, the pattern of an ask lets through every row. -/
theorem like_part {kind : Kind} {stem : JsString} (h : Exact provider rows kind stem)
    (hstem : parentName stem = cluster) {row : kind.Row} (hrow : row ∈ rows kind) :
    like provider row.name (stem ++ js "%") = decide (kind.owner row.name = cluster) := by
  rw [h row hrow, hstem]

theorem matching_part {kind : Kind} {stem : JsString} (h : Exact provider rows kind stem)
    (hstem : parentName stem = cluster) :
    matching provider (rows.table kind) stem = rows.part cluster kind ∧
      matching provider ((rows.part cluster).table kind) stem = rows.part cluster kind := by
  constructor
  · exact List.filter_congr fun row hrow => like_part h hstem hrow
  · refine List.filter_eq_self.2 fun row hrow => ?_
    obtain ⟨hmem, howner⟩ := mem_part.1 hrow
    rw [like_part h hstem hmem]
    exact decide_eq_true howner

/-- A filter that lets through what is looked for. -/
theorem find?_filter_of_imp {α : Type*} {p q : α → Bool} {l : List α}
    (h : ∀ x ∈ l, p x = true → q x = true) : (l.filter q).find? p = l.find? p := by
  induction l with
  | nil => rfl
  | cons x l ih =>
      obtain ⟨hx, hl⟩ := List.forall_mem_cons.1 h
      by_cases hq : q x = true
      · rw [List.filter_cons_of_pos hq, List.find?_cons, List.find?_cons, ih hl]
      · have hp : p x = false := by simpa using fun hp => hq (hx hp)
        rw [List.filter_cons_of_neg hq, List.find?_cons, hp, ih hl]

theorem find?_part {kind : Kind} {p : kind.Row → Bool}
    (h : ∀ row ∈ rows kind, p row = true → kind.owner row.name = cluster) :
    (rows.part cluster kind).find? p = (rows kind).find? p :=
  find?_filter_of_imp fun row hrow hp => decide_eq_true (h row hrow hp)

/-- A row that has the identifier of a row of the cluster is of the cluster. -/
theorem owner_of_id {kind : Kind} {id : ℕ} (hids : DistinctIds rows)
    (hown : ∃ row ∈ rows.part cluster kind, row.id = id) {row : kind.Row} (hrow : row ∈ rows kind)
    (hid : row.id = id) : kind.owner row.name = cluster := by
  obtain ⟨found, hfound, rfl⟩ := hown
  obtain ⟨hmem, howner⟩ := mem_part.1 hfound
  rw [List.inj_on_of_nodup_map (hids kind) hrow hmem hid]
  exact howner

theorem filter_updateRow (kind : Kind) (id : ℕ) (patch : kind.Data → kind.Data)
    (found : List kind.Row) :
    (found.map (Rows.updateRow id patch)).filter (fun row => kind.owner row.name = cluster) =
      (found.filter fun row => kind.owner row.name = cluster).map (Rows.updateRow id patch) := by
  rw [List.filter_map]
  congr 1
  refine List.filter_congr fun row _ => ?_
  simp

/-- Rows outside the cluster that an update does not reach. -/
theorem map_updateRow_part {kind : Kind} {id : ℕ} (patch : kind.Data → kind.Data)
    (h : ∀ row ∈ rows kind, row.id = id → kind.owner row.name ≠ cluster) :
    (rows.part cluster kind).map (Rows.updateRow id patch) = rows.part cluster kind := by
  refine (List.map_congr_left fun row hrow => ?_).trans (List.map_id _)
  obtain ⟨hmem, howner⟩ := mem_part.1 hrow
  rw [Rows.updateRow, if_neg fun hid => h row hmem hid howner]
  rfl

theorem deleteByPrefix_part {kind : Kind} {stem : JsString} (h : Exact provider rows kind stem)
    (hstem : parentName stem = cluster) :
    ((Storage.deleteByPrefix provider (rows.table kind) stem).1.rows.filter
        fun row => kind.owner row.name = cluster) = [] ∧
      (Storage.deleteByPrefix provider ((rows.part cluster).table kind) stem).1.rows = [] ∧
        ∀ other ≠ cluster, ((Storage.deleteByPrefix provider (rows.table kind) stem).1.rows.filter
          fun row => kind.owner row.name = other) = rows.part other kind := by
  refine ⟨?_, ?_, fun other hother => ?_⟩
  · rw [List.filter_eq_nil_iff]
    intro row hrow
    obtain ⟨hmem, hlike⟩ := List.mem_filter.1 hrow
    rw [like_part h hstem hmem] at hlike
    simpa using hlike
  · refine List.filter_eq_nil_iff.2 fun row hrow => ?_
    obtain ⟨hmem, howner⟩ := mem_part.1 hrow
    rw [like_part h hstem hmem]
    simp [howner]
  · refine (List.filter_filter ..).trans (List.filter_congr fun row hrow => ?_)
    rw [like_part h hstem hrow]
    by_cases howner : kind.owner row.name = other
    · simp [howner, hother]
    · simp [howner]

/-! ## Asks -/

theorem written_part (hown : OwnRows cluster (rows.part cluster) ask)
    (hclear : Clear provider rows outside ask) :
    Rows.part cluster (rows.written provider outside ask) =
      (rows.part cluster).written provider outside ask := by
  cases ask with
  | create kind row =>
      simp only [Rows.written, part_update, List.filter_append]
      congr 2
      exact List.filter_eq_self.2 fun new hnew => by
        obtain rfl := List.mem_singleton.1 hnew
        exact decide_eq_true hown
  | updateById kind id patch =>
      simp only [Rows.written, part_update, filter_updateRow]
      rfl
  | deleteById kind id =>
      simp only [Rows.written, part_update, List.filter_filter, Rows.part]
      congr 1
      exact List.filter_congr fun row _ => Bool.and_comm ..
  | deleteMany kind stem =>
      obtain ⟨hall, hpart, -⟩ := deleteByPrefix_part hclear hown
      simp only [Rows.written, part_update, hall, hpart]
  | _ => rfl

theorem written_others (hids : DistinctIds rows) (hown : OwnRows cluster (rows.part cluster) ask)
    (hclear : Clear provider rows outside ask) (hne : other ≠ cluster) :
    Rows.part other (rows.written provider outside ask) = rows.part other := by
  have hsame : ∀ kind, Function.update (rows.part other) kind (rows.part other kind) = rows.part other :=
    fun kind => Function.update_eq_self kind _
  cases ask with
  | create kind row =>
      have hnone : ([⟨outside.id, row.name, row.data⟩] : List kind.Row).filter
          (fun row => kind.owner row.name = other) = [] := by
        have howner : kind.owner row.name = cluster := hown
        simp [howner, hne.symm]
      simp only [Rows.written, part_update, List.filter_append, hnone, List.append_nil]
      exact hsame kind
  | updateById kind id patch =>
      simp only [Rows.written, part_update, filter_updateRow]
      have hkeep : (rows.part other kind).map (Rows.updateRow id patch) = rows.part other kind :=
        map_updateRow_part patch fun row hrow hid howner =>
          hne (howner.symm.trans (owner_of_id hids hown hrow hid))
      rw [Rows.part] at hkeep
      rw [hkeep]
      exact hsame kind
  | deleteById kind id =>
      simp only [Rows.written, part_update, List.filter_filter]
      have hkeep : (rows kind).filter (fun row => decide (kind.owner row.name = other) &&
          decide (row.id ≠ id)) = rows.part other kind := by
        refine List.filter_congr fun row hrow => ?_
        by_cases howner : kind.owner row.name = other
        · have hid : row.id ≠ id := fun hid =>
            hne (howner.symm.trans (owner_of_id hids hown hrow hid))
          simp [howner, hid]
        · simp [howner]
      rw [hkeep]
      exact hsame kind
  | deleteMany kind stem =>
      obtain ⟨-, -, hothers⟩ := deleteByPrefix_part hclear hown
      simp only [Rows.written, part_update, hothers other hne]
      exact hsame kind
  | _ => rfl

theorem answered_part (hids : DistinctIds rows) (hown : OwnRows cluster (rows.part cluster) ask)
    (hclear : Clear provider rows outside ask) :
    (rows.part cluster).answered provider outside ask = rows.answered provider outside ask := by
  cases ask with
  | findFirst kind name =>
      refine find?_part fun row _ hname => ?_
      rw [of_decide_eq_true hname]
      exact hown
  | updateById kind id patch =>
      refine congrArg (Option.map _) (find?_part fun row hrow hid => ?_)
      exact owner_of_id hids hown hrow (of_decide_eq_true hid)
  | deleteById kind id =>
      obtain ⟨row, hrow, hid⟩ := hown
      have hany : ∀ found : List kind.Row, row ∈ found →
          (found.any fun row => row.id = id) = true := by
        intro found hfound
        rw [List.any_eq_true]
        exact ⟨row, hfound, decide_eq_true hid⟩
      exact (hany _ hrow).trans (hany _ (mem_part.1 hrow).1).symm
  | find kind stem | count kind stem | deleteMany kind stem =>
      obtain ⟨hall, hpart⟩ := matching_part hclear hown
      simp only [Rows.answered, Storage.listAllByPrefix, Storage.countByPrefix, Storage.deleteByPrefix,
        hall, hpart]
  | _ => rfl

theorem refuses_part (hown : OwnRows cluster (rows.part cluster) ask) :
    (rows.part cluster).refuses provider ask = rows.refuses provider ask := by
  cases ask with
  | create kind row =>
      have hname : row.name ∈ (rows.part cluster kind).map Row.name ↔
          row.name ∈ (rows kind).map Row.name := by
        constructor
        · intro hmem
          exact (List.filter_sublist.map _).subset hmem
        · intro hmem
          obtain ⟨found, hfound, hsame⟩ := List.mem_map.1 hmem
          refine List.mem_map.2 ⟨found, mem_part.2 ⟨hfound, ?_⟩, hsame⟩
          rw [hsame]
          exact hown
      simp only [Rows.refuses, hname]
  | _ => rfl

theorem handle_part (hids : DistinctIds rows) (hown : OwnRows cluster (rows.part cluster) ask)
    (hclear : Clear provider rows outside ask) :
    Rows.part cluster (rows.handle provider ask outside).1 =
        ((rows.part cluster).handle provider ask outside).1 ∧
      (rows.handle provider ask outside).2 = ((rows.part cluster).handle provider ask outside).2 := by
  have hwritten := written_part hown hclear
  have hanswered := answered_part hids hown hclear
  simp only [Rows.handle, refuses_part hown, hanswered]
  split
  · exact ⟨rfl, rfl⟩
  · split
    · split
      · exact ⟨hwritten, rfl⟩
      · exact ⟨rfl, rfl⟩
    · exact ⟨hwritten, rfl⟩

theorem Clear.fresh (h : Clear provider rows outside ask) : Fresh rows outside ask := by
  cases ask with
  | create kind row => exact h
  | _ => trivial

/-- Identifiers stay different. -/
theorem distinctIds_written (hids : DistinctIds rows) (hfresh : Fresh rows outside ask) :
    DistinctIds (rows.written provider outside ask) := by
  have hupdate : ∀ kind (new : List kind.Row), (new.map Row.id).Nodup →
      DistinctIds (Function.update rows kind new) := by
    intro kind new hnew kind'
    by_cases hkind : kind' = kind
    · subst hkind
      rwa [Function.update_self]
    · rw [Function.update_of_ne hkind]
      exact hids kind'
  cases ask with
  | create kind row =>
      refine hupdate kind _ ?_
      rw [List.map_append, List.nodup_append]
      refine ⟨hids kind, List.nodup_singleton _, ?_⟩
      rintro _ hid _ hnew rfl
      obtain ⟨found, hfound, hsame⟩ := List.mem_map.1 hid
      exact hfresh found hfound (hsame.trans (List.mem_singleton.1 hnew))
  | updateById kind id patch =>
      refine hupdate kind _ ?_
      have hsame : Row.id ∘ Rows.updateRow id patch = (Row.id : kind.Row → ℕ) := by
        funext row
        exact id_updateRow id patch row
      rw [List.map_map, hsame]
      exact hids kind
  | deleteById kind id | deleteMany kind stem =>
      exact hupdate kind _ ((hids kind).sublist (List.filter_sublist.map _))
  | _ => exact hids

/-- The rows after an ask are those there were, or what was asked for is done; and then it is done if
there is an answer. -/
theorem handle_cases (provider : Provider) (rows : Rows) (ask : Ask) (outside : Outside) :
    rows.handle provider ask outside =
        (rows.written provider outside ask, .ok (rows.answered provider outside ask)) ∨
      ∃ thrown, rows.handle provider ask outside = (rows.written provider outside ask, .error thrown) ∨
        rows.handle provider ask outside = (rows, .error thrown) := by
  rw [Rows.handle]
  split
  · exact .inr ⟨_, .inr rfl⟩
  · split
    · rename_i applied message _ _
      cases applied with
      | true => exact .inr ⟨_, .inl rfl⟩
      | false => exact .inr ⟨_, .inr rfl⟩
    · exact .inl rfl

theorem distinctIds_handle (hids : DistinctIds rows) (hfresh : Fresh rows outside ask) :
    DistinctIds (rows.handle provider ask outside).1 := by
  rcases handle_cases provider rows ask outside with hdone | ⟨thrown, hdone | hdone⟩
  · rw [hdone]
    exact distinctIds_written hids hfresh
  · rw [hdone]
    exact distinctIds_written hids hfresh
  · rw [hdone]
    exact hids

theorem handle_others (hids : DistinctIds rows) (hown : OwnRows cluster (rows.part cluster) ask)
    (hclear : Clear provider rows outside ask) (hne : other ≠ cluster) :
    Rows.part other (rows.handle provider ask outside).1 = rows.part other := by
  rcases handle_cases provider rows ask outside with hdone | ⟨thrown, hdone | hdone⟩
  · rw [hdone]
    exact written_others hids hown hclear hne
  · rw [hdone]
    exact written_others hids hown hclear hne
  · rw [hdone]

theorem clear_part (hclear : Clear provider rows outside ask) :
    Clear provider (rows.part cluster) outside ask := by
  have hmem : ∀ {kind : Kind} {row : kind.Row}, row ∈ rows.part cluster kind → row ∈ rows kind :=
    fun hrow => (mem_part.1 hrow).1
  cases ask with
  | create kind row => exact fun row hrow => hclear row (hmem hrow)
  | find kind stem | count kind stem | deleteMany kind stem =>
      exact fun row hrow => hclear row (hmem hrow)
  | _ => trivial

/-- **The rows separate by clusters**, as long as the asks are clear. -/
theorem separates (provider : Provider) : Exclusive.Separates
    (alloyWorld provider fun store ask outside => Clear provider store.rows outside ask)
    (rowsWorld provider) (fun cluster store => store.rows.part cluster)
    (fun store => DistinctIds store.rows) (fun cluster => OwnRows cluster) where
  keeps hids _ hclear := distinctIds_handle hids hclear.fresh
  own hids hown hclear := ⟨_, clear_part hclear, handle_part hids hown hclear⟩
  others hids hown hclear hne := handle_others hids hown hclear hne

end Kinglet.AlloyDb
