import Kinglet.Storage.Repository
import Mathlib.Data.List.Nodup

/-!
# Names are unique

SQLite enforces the unique index on names. In memory a create checks that its name is free and
inserts after an await, so names stay unique as long as nothing takes the name in between.
-/

namespace Kinglet.Storage

open Js Library

variable {α : Type*} {provider : Provider} {label : JsString}

/-! ## Moves that keep names apart -/

/-- A write of the in-memory provider does not give a row a name that another row has. -/
def Clear (table : Table α) : Call α → Prop
  | .updateById _ id patch =>
      ∀ name ∈ patch.name, ∀ row ∈ table.rows, row.id ≠ id → row.name ≠ name
  | _ => True

/-- A create does not look a name up, nor does an update write it, while another create is between
the lookup of that name and its insert. -/
def Apart : Call α → Call α → Prop
  | .create row, .insert other => row.name ≠ other.name
  | .updateById _ _ patch, .insert other => patch.name ≠ some other.name
  | _, _ => True

/-- The moves under which names stay unique: all of them on SQLite, and in memory those that do not
come between a lookup and its insert. -/
def KeepsApart (provider : Provider) (pool : Pool (Table α) (Call α) Outcome) :
    Move (Request α) Unit → Prop
  | .start _ => True
  | .resume index _ => provider = .memory → ∀ call ∈ pool.calls[index]?,
      Clear pool.shared call ∧ ∀ other ∈ pool.calls.eraseIdx index, Apart call other

instance (table : Table α) (call : Call α) : Decidable (Clear table call) := by
  cases call <;> unfold Clear <;> infer_instance

instance (call other : Call α) : Decidable (Apart call other) := by
  cases call <;> cases other <;> unfold Apart <;> infer_instance

instance (provider : Provider) (pool : Pool (Table α) (Call α) Outcome)
    (m : Move (Request α) Unit) : Decidable (KeepsApart provider pool m) := by
  cases m <;> unfold KeepsApart <;> infer_instance

/-! ## Tables -/

/-- Ids are unique, and a new one is new. -/
structure Table.Keyed (table : Table α) : Prop where
  ids : ∀ row ∈ table.rows, row.id < table.nextId
  idsNodup : (table.rows.map Row.id).Nodup

structure Table.Unique (table : Table α) : Prop extends table.Keyed where
  names : table.names.Nodup

namespace Table

variable {table : Table α} {row : NewRow α} {name : JsString} {id : ℕ} {patch : Patch α}

theorem getByName_eq_none (h : table.getByName name = none) : name ∉ table.names := by
  intro hmem
  obtain ⟨row, hrow, rfl⟩ := List.mem_map.1 hmem
  simpa using List.find?_eq_none.1 h row hrow

theorem getByName_eq_some {existing : Row α} (h : table.getByName name = some existing) :
    existing ∈ table.rows ∧ existing.name = name :=
  ⟨List.mem_of_find?_eq_some h, by simpa using List.find?_some h⟩

@[simp] theorem names_insert : (table.insert row).names = table.names ++ [row.name] := by
  simp [names, insert]

theorem Keyed.insert (h : table.Keyed) : (table.insert row).Keyed where
  ids := by
    intro other hother
    rcases List.mem_append.1 hother with hother | hother
    · exact Nat.lt_succ_of_lt (h.ids other hother)
    · obtain rfl := List.mem_singleton.1 hother
      exact Nat.lt_succ_self _
  idsNodup := by
    rw [Table.insert, List.map_append, List.nodup_append]
    refine ⟨h.idsNodup, List.nodup_singleton _, fun id hid other hother => ?_⟩
    obtain rfl := List.mem_singleton.1 hother
    obtain ⟨stored, hstored, rfl⟩ := List.mem_map.1 hid
    exact Nat.ne_of_lt (h.ids stored hstored)

theorem ids_updateById :
    (table.updateById id patch).rows.map Row.id = table.rows.map Row.id := by
  rw [updateById, List.map_map]
  refine List.map_congr_left fun row _ => ?_
  rw [Function.comp_apply]
  split <;> rfl

theorem Keyed.updateById (h : table.Keyed) : (table.updateById id patch).Keyed where
  ids := by
    intro row hrow
    obtain ⟨stored, hstored, rfl⟩ := List.mem_map.1 hrow
    have hid := h.ids stored hstored
    split <;> exact hid
  idsNodup := by
    rw [ids_updateById]
    exact h.idsNodup

theorem Keyed.deleteById (h : table.Keyed) : (table.deleteById id).Keyed where
  ids := fun row hrow => h.ids row (List.mem_of_mem_filter hrow)
  idsNodup := h.idsNodup.sublist (List.filter_sublist.map _)

theorem Unique.insert (h : table.Unique) (hfresh : row.name ∉ table.names) :
    (table.insert row).Unique where
  toKeyed := h.toKeyed.insert
  names := by
    rw [names_insert, List.nodup_append]
    refine ⟨h.names, List.nodup_singleton _, fun name hname other hother => ?_⟩
    obtain rfl := List.mem_singleton.1 hother
    exact fun heq => hfresh (heq ▸ hname)

theorem Unique.deleteById (h : table.Unique) : (table.deleteById id).Unique where
  toKeyed := h.toKeyed.deleteById
  names := h.names.sublist (List.filter_sublist.map _)

/-- An update of a row to a name that no other row has. -/
theorem Unique.updateById (h : table.Unique)
    (hclear : ∀ name ∈ patch.name, ∀ row ∈ table.rows, row.id ≠ id → row.name ≠ name) :
    (table.updateById id patch).Unique where
  toKeyed := h.toKeyed.updateById
  names := by
    have hpairs : table.rows.Pairwise fun row other => row.id ≠ other.id ∧ row.name ≠ other.name :=
      List.pairwise_and_iff.2 ⟨List.pairwise_map.1 h.idsNodup, List.pairwise_map.1 h.names⟩
    rw [Table.names, Table.updateById, List.map_map, List.Nodup, List.pairwise_map]
    refine hpairs.imp_of_mem fun {row other} hrow hother hne => ?_
    obtain ⟨hid, hname⟩ := hne
    simp only [Function.comp_apply]
    cases hpatch : patch.name with
    | none => split <;> split <;> simpa [patchRow, hpatch] using hname
    | some name =>
      split <;> split
      · exact absurd (‹row.id = id›.trans ‹other.id = id›.symm) hid
      · simpa [patchRow, hpatch] using (hclear name hpatch other hother ‹_›).symm
      · simpa [patchRow, hpatch] using hclear name hpatch row hrow ‹_›
      · exact hname

theorem mem_names_updateById (h : name ∈ (table.updateById id patch).names) :
    name ∈ table.names ∨ patch.name = some name := by
  rw [names, Table.updateById, List.map_map] at h
  obtain ⟨row, hrow, hname⟩ := List.mem_map.1 h
  rw [Function.comp_apply] at hname
  split at hname
  · cases hpatch : patch.name with
    | none =>
      rw [patchRow, hpatch] at hname
      exact .inl (List.mem_map.2 ⟨row, hrow, hname⟩)
    | some other =>
      rw [patchRow, hpatch] at hname
      exact .inr (congrArg some hname)
  · exact .inl (List.mem_map.2 ⟨row, hrow, hname⟩)

theorem mem_names_deleteById (h : name ∈ (table.deleteById id).names) : name ∈ table.names :=
  (List.filter_sublist.map _).subset h

/-- An update that SQLite accepts keeps the names unique. -/
theorem Unique.updateById_of_not_violates (h : table.Unique)
    (hok : table.violatesUnique id patch = false) : (table.updateById id patch).Unique := by
  cases hid : table.hasId id with
  | false =>
    have hsame : table.updateById id patch = table := by
      have hrows : ∀ row ∈ table.rows, (if row.id = id then patchRow patch row else row) = row := by
        intro row hrow
        exact if_neg (by simpa using List.any_eq_false.1 hid row hrow)
      rw [Table.updateById, List.map_congr_left hrows, List.map_id']
    rw [hsame]
    exact h
  | true =>
    refine h.updateById fun name hname row hrow hne heq => ?_
    rw [violatesUnique, hid, Option.mem_def.1 hname] at hok
    exact absurd (List.any_eq_false.1 hok row hrow) (by simp [hne, heq])

end Table

/-! ## Names are unique in every run -/

/-- What a call in flight knows: nothing but, in memory, that the name it looked up is still free. -/
def NameFree (provider : Provider) (table : Table α) : Call α → Prop
  | .insert row => provider = .memory → row.name ∉ table.names
  | _ => True

def DifferentNames (provider : Provider) : Call α → Call α → Prop
  | .insert row, .insert other => provider = .memory → row.name ≠ other.name
  | _, _ => True

/-- The names are unique, and of two inserts in flight in memory neither takes the other's name. -/
def uniqueNames (provider : Provider) : Outline (Table α) (Call α) Outcome where
  Inv table _ := table.Unique
  Local := NameFree provider
  Pair := DifferentNames provider
  symm {call other} h := by
    cases call <;> cases other <;> first | trivial | exact fun hmemory => (h hmemory).symm

section Segments

variable {pool : Pool (Table α) (Call α) Outcome} {index : ℕ} {call other : Call α}

theorem uniqueNames_keeps (h : (uniqueNames provider).Holds pool)
    (hallowed : KeepsApart provider pool (.resume index ()))
    (hcall : pool.calls[index]? = some call) :
    (uniqueNames provider).Keeps pool.outcomes (segment provider label pool.shared call ()) := by
  have hunique : pool.shared.Unique := h.inv
  have hfree := h.each call (List.mem_of_getElem? hcall)
  cases call with
  | create row =>
    rw [segment]
    cases hfound : pool.shared.getByName row.name with
    | none => exact ⟨hunique, fun _ => Table.getByName_eq_none hfound⟩
    | some existing => exact hunique
  | insert row =>
    rw [segment]
    split
    · exact hunique
    · rename_i hok
      refine hunique.insert ?_
      cases provider with
      | memory => exact hfree rfl
      | sqlite => exact fun hmem => hok ⟨rfl, hmem⟩
  | update name patch =>
    rw [segment]
    cases pool.shared.getByName name with
    | none => exact hunique
    | some existing => exact ⟨hunique, trivial⟩
  | updateById name id patch =>
    rw [segment]
    split
    · exact hunique
    · rename_i hok
      cases provider with
      | memory => exact hunique.updateById (hallowed rfl _ hcall).1
      | sqlite =>
        refine hunique.updateById_of_not_violates (Bool.eq_false_iff.2 fun hviolates => ?_)
        exact hok ⟨rfl, hviolates⟩
  | delete name =>
    rw [segment]
    cases pool.shared.getByName name with
    | none => exact hunique
    | some existing => exact ⟨hunique, trivial⟩
  | deleteById name id => exact hunique.deleteById

/-- No other call's name is taken by the segment. -/
theorem nameFree_segment (h : (uniqueNames provider).Holds pool)
    (hallowed : KeepsApart provider pool (.resume index ()))
    (hcall : pool.calls[index]? = some call) (hother : other ∈ pool.calls.eraseIdx index) :
    NameFree provider (segment provider label pool.shared call ()).1 other := by
  cases other with
  | insert row =>
    intro hmemory
    obtain ⟨-, hfree, hpair⟩ := h.pair_of_others hcall hother
    obtain ⟨-, hapart⟩ := hallowed hmemory _ hcall
    have hapart := hapart _ hother
    have hfree := hfree hmemory
    cases call with
    | create | update | delete =>
      rw [segment]
      split <;> exact hfree
    | insert taken =>
      rw [segment]
      split
      · exact hfree
      · rw [Table.names_insert]
        intro hmem
        rcases List.mem_append.1 hmem with hmem | hmem
        · exact hfree hmem
        · exact hpair hmemory (List.mem_singleton.1 hmem).symm
    | updateById name id patch =>
      rw [segment]
      split
      · exact hfree
      · intro hmem
        rcases Table.mem_names_updateById hmem with hmem | hmem
        · exact hfree hmem
        · exact hapart hmem
    | deleteById name id => exact fun hmem => hfree (Table.mem_names_deleteById hmem)
  | _ => trivial

theorem create_of_insert_mem {table : Table α} {row : NewRow α}
    (h : .insert row ∈ (segment provider label table call ()).2.calls) : call = .create row := by
  cases call with
  | create row' =>
    rw [segment] at h
    split at h
    · cases h
    · injection List.mem_singleton.1 h with h
      rw [h]
  | insert | updateById =>
    rw [segment] at h
    split at h <;> cases h
  | update | delete =>
    rw [segment] at h
    split at h
    · cases h
    · exact nomatch List.mem_singleton.1 h
  | deleteById => cases h

theorem uniqueNames_spares (h : (uniqueNames provider).Holds pool)
    (hallowed : KeepsApart provider pool (.resume index ()))
    (hcall : pool.calls[index]? = some call) (hother : other ∈ pool.calls.eraseIdx index) :
    (uniqueNames provider).Spares other (segment provider label pool.shared call ()) := by
  refine .of (nameFree_segment h hallowed hcall hother) fun rest hrest => ?_
  cases other with
  | insert row =>
    cases rest with
    | insert row' =>
      obtain rfl := create_of_insert_mem hrest
      exact fun hmemory => (hallowed hmemory _ hcall).2 _ hother
    | _ => trivial
  | _ => cases rest <;> trivial

end Segments

theorem uniqueNames_of_run {pool pool' : Pool (Table α) (Call α) Outcome}
    {moves : List (Move (Request α) Unit)}
    (hrun : Run ((repository provider label).Step (KeepsApart provider)) pool moves pool')
    (h : (uniqueNames provider).Holds pool) : (uniqueNames provider).Holds pool' := by
  refine h.of_run ?_ ?_ hrun
  · intro pool request _ _
    cases request <;> exact ⟨trivial, fun other _ => by cases other <;> trivial⟩
  · intro pool index input call h hallowed hcall
    exact ⟨uniqueNames_keeps h hallowed hcall,
      fun other hother => uniqueNames_spares h hallowed hcall hother⟩

/-! ## Creates of one name -/

/-- Requests that neither update nor delete the resource of a name, nor give another one the name. -/
def LeavesAlone (name : JsString) : Request α → Prop
  | .create _ => True
  | .update other patch => other ≠ name ∧ patch.name ≠ some name
  | .delete other => other ≠ name

def Outcome.succeeded (name : JsString) : Outcome → Bool
  | .created other (.ok _) => other = name
  | _ => false

/-- Every failed create of the name saw it taken, and as many succeeded as there are rows of that
name. -/
structure CreatesCounted (name : JsString) (table : Table α) (outcomes : List Outcome) : Prop where
  keyed : table.Keyed
  count : table.names.count name = outcomes.countP (Outcome.succeeded name)
  failed : ∀ error, .created name (.error error) ∈ outcomes →
    error.isAlreadyExists = true ∧ name ∈ table.names

namespace Table

variable {table : Table α} {name : JsString} {id : ℕ} {patch : Patch α}

/-- The rows of an id do not have the name. -/
def NotNamed (table : Table α) (name : JsString) (id : ℕ) : Prop :=
  id < table.nextId ∧ ∀ row ∈ table.rows, row.id = id → row.name ≠ name

theorem notNamed_of_getByName {existing : Row α} {other : JsString} (h : table.Keyed)
    (hfound : table.getByName other = some existing) (hne : other ≠ name) :
    table.NotNamed name existing.id := by
  obtain ⟨hmem, rfl⟩ := getByName_eq_some hfound
  refine ⟨h.ids existing hmem, fun row hrow hid => ?_⟩
  obtain rfl := List.inj_on_of_nodup_map h.idsNodup hrow hmem hid
  exact hne

theorem count_names_updateById (h : table.NotNamed name id) (hpatch : patch.name ≠ some name) :
    (table.updateById id patch).names.count name = table.names.count name := by
  rw [names, names, List.count, List.countP_map, List.countP_map, updateById,
    List.countP_map]
  refine List.countP_congr fun row hrow => ?_
  simp only [Function.comp_apply, beq_iff_eq]
  split
  · have hne := h.2 row hrow ‹_›
    cases hname : patch.name with
    | none => rw [patchRow, hname, Option.getD_none]
    | some other =>
      have hother : other ≠ name := fun heq => hpatch (heq ▸ hname)
      simp [patchRow, hname, hne, hother]
  · rfl

theorem count_names_deleteById (h : table.NotNamed name id) :
    (table.deleteById id).names.count name = table.names.count name := by
  rw [names, names, List.count, List.countP_map, List.countP_map, deleteById,
    List.countP_filter]
  refine List.countP_congr fun row hrow => ?_
  have hne := h.2 row hrow
  simpa [Function.comp_apply] using fun heq hid => hne hid heq

theorem NotNamed.insert {row : NewRow α} (h : table.NotNamed name id) :
    (table.insert row).NotNamed name id := by
  refine ⟨Nat.lt_succ_of_lt h.1, fun other hother hid => ?_⟩
  rcases List.mem_append.1 hother with hother | hother
  · exact h.2 other hother hid
  · obtain rfl := List.mem_singleton.1 hother
    exact absurd h.1 (hid ▸ Nat.lt_irrefl _)

theorem NotNamed.updateById {other : ℕ} (h : table.NotNamed name id)
    (hpatch : patch.name ≠ some name) : (table.updateById other patch).NotNamed name id := by
  refine ⟨h.1, fun row hrow hid => ?_⟩
  obtain ⟨stored, hstored, rfl⟩ := List.mem_map.1 hrow
  by_cases hother : stored.id = other
  · rw [if_pos hother] at hid ⊢
    have hne := h.2 stored hstored hid
    cases hname : patch.name with
    | none => rwa [patchRow, hname]
    | some new =>
      rw [patchRow, hname]
      exact fun heq => hpatch (heq ▸ hname)
  · rw [if_neg hother] at hid ⊢
    exact h.2 stored hstored hid

theorem NotNamed.deleteById {other : ℕ} (h : table.NotNamed name id) :
    (table.deleteById other).NotNamed name id :=
  ⟨h.1, fun row hrow hid => h.2 row (List.mem_of_mem_filter hrow) hid⟩

end Table

/-- The row a call is about to write is not of that name. -/
def WritesOther (name : JsString) (table : Table α) : Call α → Prop
  | .create _ | .insert _ => True
  | .update other patch => other ≠ name ∧ patch.name ≠ some name
  | .delete other => other ≠ name
  | .updateById _ id patch => patch.name ≠ some name ∧ table.NotNamed name id
  | .deleteById _ id => table.NotNamed name id

def createsCounted (name : JsString) : Outline (Table α) (Call α) Outcome where
  Inv := CreatesCounted name
  Local := WritesOther name
  Pair _ _ := True
  symm := id

namespace CreatesCounted

variable {name : JsString} {table table' : Table α} {outcomes : List Outcome}

/-- A write that leaves the rows of the name alone. -/
theorem write (h : CreatesCounted name table outcomes) (hkeyed : table'.Keyed)
    (hcount : table'.names.count name = table.names.count name) :
    CreatesCounted name table' outcomes where
  keyed := hkeyed
  count := hcount.trans h.count
  failed error hmem := by
    obtain ⟨hexists, hname⟩ := h.failed error hmem
    exact ⟨hexists, List.count_pos_iff.1 (hcount ▸ List.count_pos_iff.2 hname)⟩

/-- An outcome that is no successful create of the name. -/
theorem append {outcome : Outcome} (h : CreatesCounted name table outcomes)
    (hsucceeded : outcome.succeeded name = false)
    (hfailed : ∀ error, outcome = .created name (.error error) →
      error.isAlreadyExists = true ∧ name ∈ table.names) :
    CreatesCounted name table (outcomes ++ [outcome]) where
  keyed := h.keyed
  count := by
    rw [h.count, List.countP_append, List.countP_singleton, hsucceeded]
    simp
  failed error hmem := by
    rcases List.mem_append.1 hmem with hmem | hmem
    · exact h.failed error hmem
    · exact hfailed error (List.mem_singleton.1 hmem).symm

theorem append_failed {other : JsString} {error : StorageError}
    (h : CreatesCounted name table outcomes) (hexists : error.isAlreadyExists = true)
    (hname : other ∈ table.names) :
    CreatesCounted name table (outcomes ++ [.created other (.error error)]) := by
  refine h.append rfl fun error' heq => ?_
  injection heq with hother herror
  injection herror with herror
  exact ⟨herror ▸ hexists, hother ▸ hname⟩

theorem insert {row : NewRow α} {id : ℕ} (h : CreatesCounted name table outcomes) :
    CreatesCounted name (table.insert row) (outcomes ++ [.created row.name (.ok id)]) where
  keyed := h.keyed.insert
  count := by
    rw [Table.names_insert, List.count_append, h.count, List.countP_append, List.countP_singleton,
      List.count_singleton]
    simp [Outcome.succeeded]
  failed error hmem := by
    rcases List.mem_append.1 hmem with hmem | hmem
    · obtain ⟨hexists, hname⟩ := h.failed error hmem
      exact ⟨hexists, Table.names_insert ▸ List.mem_append_left _ hname⟩
    · exact absurd (List.mem_singleton.1 hmem) (by simp)

end CreatesCounted

section Segments

variable {name : JsString} {table : Table α} {outcomes : List Outcome} {call other : Call α}

theorem createsCounted_keeps (h : CreatesCounted name table outcomes)
    (hother : WritesOther name table call) :
    (createsCounted name).Keeps outcomes (segment provider label table call ()) := by
  cases call with
  | create row =>
    rw [segment]
    cases hfound : table.getByName row.name with
    | none => exact ⟨h, trivial⟩
    | some existing =>
      obtain ⟨hmem, hname⟩ := Table.getByName_eq_some hfound
      exact h.append_failed rfl (hname ▸ List.mem_map_of_mem hmem)
  | insert row =>
    rw [segment]
    split
    · exact h.append_failed rfl (‹_ ∧ _›).2
    · exact h.insert
  | update name' patch =>
    rw [segment]
    cases hfound : table.getByName name' with
    | none => exact h.append rfl fun _ heq => nomatch heq
    | some existing =>
      exact ⟨h, hother.2, Table.notNamed_of_getByName h.keyed hfound hother.1⟩
  | updateById name' id patch =>
    rw [segment]
    split
    · exact h.append rfl fun _ heq => nomatch heq
    · have hwrite := h.write h.keyed.updateById
        (Table.count_names_updateById hother.2 hother.1)
      exact hwrite.append rfl fun _ heq => nomatch heq
  | delete name' =>
    rw [segment]
    cases hfound : table.getByName name' with
    | none => exact h.append rfl fun _ heq => nomatch heq
    | some existing => exact ⟨h, Table.notNamed_of_getByName h.keyed hfound hother⟩
  | deleteById name' id =>
    have hwrite := h.write h.keyed.deleteById (Table.count_names_deleteById hother)
    exact hwrite.append rfl fun _ heq => nomatch heq

theorem notNamed_segment {id : ℕ} (hcall : WritesOther name table call)
    (hid : table.NotNamed name id) :
    (segment provider label table call ()).1.NotNamed name id := by
  cases call with
  | create | update | delete =>
    rw [segment]
    split <;> exact hid
  | insert row =>
    rw [segment]
    split
    · exact hid
    · exact hid.insert
  | updateById name' id' patch =>
    rw [segment]
    split
    · exact hid
    · exact hid.updateById hcall.1
  | deleteById name' id' => exact hid.deleteById

theorem createsCounted_spares (hcall : WritesOther name table call)
    (hother : WritesOther name table other) :
    (createsCounted name).Spares other (segment provider label table call ()) := by
  refine .of ?_ fun _ _ => trivial
  cases other with
  | updateById => exact ⟨hother.1, notNamed_segment hcall hother.2⟩
  | deleteById => exact notNamed_segment hcall hother
  | _ => exact hother

end Segments

/-- Requests that leave the name alone, whatever else they do. -/
theorem createsCounted_of_run (name : JsString) {pool pool' : Pool (Table α) (Call α) Outcome}
    {moves : List (Move (Request α) Unit)}
    (hrun : Run ((repository provider label).Step (KeepsApart provider)) pool moves pool')
    (hmoves : ∀ request, .start request ∈ moves → LeavesAlone name request)
    (h : (createsCounted name).Holds pool) : (createsCounted name).Holds pool' := by
  let Allowed : Pool (Table α) (Call α) Outcome → Move (Request α) Unit → Prop := fun _ m =>
    ∀ request, m = .start request → LeavesAlone name request
  have hrun' : Run ((repository provider label).Step Allowed) pool moves pool' := by
    refine hrun.mono fun m hm pool pool' hstep => ⟨?_, hstep.2⟩
    rintro request rfl
    exact hmoves request hm
  refine h.of_run ?_ ?_ hrun'
  · intro pool request _ hallowed
    have halone := hallowed request rfl
    cases request <;> exact ⟨halone, fun _ _ => trivial⟩
  · intro pool index input call h _ hcall
    have hlocal := h.each call (List.mem_of_getElem? hcall)
    exact ⟨createsCounted_keeps h.inv hlocal, fun other hother =>
      createsCounted_spares hlocal (h.each other (List.mem_of_mem_eraseIdx hother))⟩

/-- One create of the name succeeded, and every other failed because the name exists. -/
def OneCreate (name : JsString) (outcomes : List Outcome) : Prop :=
  ∃ before id after, outcomes = before ++ .created name (.ok id) :: after ∧
    ∀ result, .created name result ∈ before ++ after →
      ∃ error, result = .error error ∧ error.isAlreadyExists = true

theorem CreatesCounted.oneCreate {name : JsString} {table : Table α} {outcomes : List Outcome}
    (h : CreatesCounted name table outcomes) (hnodup : table.names.Nodup)
    {result : Except StorageError ℕ} (hresult : .created name result ∈ outcomes) :
    OneCreate name outcomes := by
  have hone : outcomes.countP (Outcome.succeeded name) = 1 := by
    refine Nat.le_antisymm (h.count ▸ List.nodup_iff_count_le_one.1 hnodup name) ?_
    cases result with
    | ok id => exact List.countP_pos_iff.2 ⟨_, hresult, by simp [Outcome.succeeded]⟩
    | error error => exact h.count ▸ List.count_pos_iff.2 (h.failed error hresult).2
  obtain ⟨outcome, hmem, hsucceeded⟩ := List.countP_pos_iff.1 (hone ▸ Nat.one_pos)
  obtain ⟨before, after, rfl⟩ := List.append_of_mem hmem
  match outcome, hsucceeded with
  | .created other (.ok id), hsucceeded =>
    obtain rfl := of_decide_eq_true hsucceeded
    refine ⟨before, id, after, rfl, fun result hother => ?_⟩
    have hnone : (before ++ after).countP (Outcome.succeeded other) = 0 := by
      rw [List.countP_append, List.countP_cons_of_pos hsucceeded] at hone
      rw [List.countP_append]
      omega
    cases result with
    | ok id' => exact absurd (by simp [Outcome.succeeded]) (List.countP_eq_zero.1 hnone _ hother)
    | error error =>
      have hmem : .created other (.error error) ∈ before ++ .created other (.ok id) :: after := by
        rcases List.mem_append.1 hother with hother | hother
        · exact List.mem_append_left _ hother
        · exact List.mem_append_right _ (List.mem_cons_of_mem _ hother)
      exact ⟨error, rfl, (h.failed error hmem).1⟩

/-- **Name uniqueness.** In every run of moves that keep names apart no two rows have one name, and
of the creates of a new name that nothing else touches exactly one succeeds. -/
theorem unique_names (provider : Provider) (label : JsString) (table : Table α)
    (moves : List (Move (Request α) Unit)) (pool : Pool (Table α) (Call α) Outcome)
    (hunique : table.Unique)
    (hrun : Run ((repository provider label).Step (KeepsApart provider)) ⟨table, [], []⟩ moves pool) :
    pool.shared.names.Nodup ∧
      ∀ name, name ∉ table.names → (∀ request, .start request ∈ moves → LeavesAlone name request) →
        ∀ result, .created name result ∈ pool.outcomes → OneCreate name pool.outcomes := by
  have hnodup := (uniqueNames_of_run hrun ⟨hunique, by simp, .nil⟩).inv.names
  refine ⟨hnodup, fun name hnew hmoves result hresult => ?_⟩
  have hcounted := createsCounted_of_run name hrun hmoves
    ⟨⟨hunique.toKeyed, List.count_eq_zero.2 hnew, by simp⟩, by simp, .nil⟩
  exact hcounted.inv.oneCreate hnodup hresult

def noRows : Table α := ⟨[], 0⟩

theorem noRows_unique : (noRows : Table α).Unique :=
  ⟨⟨fun _ hmem => absurd hmem List.not_mem_nil, .nil⟩, .nil⟩

/-- A name that is created a second time once it is there. -/
def createAgain : List (Move (Request Unit) Unit) :=
  [.start (.create ⟨"a", ()⟩), .resume 0 (), .resume 0 (), .start (.create ⟨"a", ()⟩), .resume 0 ()]

theorem unique_names_createAgain : ∃ pool,
    Run ((repository .memory "instance").Step (KeepsApart .memory)) ⟨noRows, [], []⟩ createAgain
      pool ∧ pool.shared.names.Nodup ∧ OneCreate "a" pool.outcomes := by
  obtain ⟨pool, hrun, hsome⟩ : ∃ pool,
      Run ((repository .memory "instance").Step (KeepsApart .memory)) ⟨noRows, [], []⟩ createAgain
        pool ∧ pool.outcomes.any (Outcome.succeeded "a") = true :=
    Async.exists_run (by decide +kernel)
  obtain ⟨hnodup, hone⟩ := unique_names .memory "instance" noRows createAgain pool noRows_unique hrun
  obtain ⟨outcome, hmem, hsucceeded⟩ := List.any_eq_true.1 hsome
  refine ⟨pool, hrun, hnodup, ?_⟩
  match outcome, hsucceeded with
  | .created name (.ok id), hsucceeded =>
      obtain rfl := of_decide_eq_true hsucceeded
      refine hone _ (by decide) (fun request hrequest => ?_) _ hmem
      simp only [createAgain, List.mem_cons, reduceCtorEq, false_or, List.not_mem_nil, or_false,
        Move.start.injEq, or_self] at hrequest
      rw [hrequest]
      trivial

/-- Two creates of one name look it up before either inserts. -/
def createTogether : List (Move (Request Unit) Unit) :=
  [.start (.create ⟨"a", ()⟩), .start (.create ⟨"a", ()⟩), .resume 0 (), .resume 1 (), .resume 0 (),
    .resume 0 ()]

/-- In memory two rows get one name. -/
theorem not_unique_names : ¬ ∀ (moves : List (Move (Request Unit) Unit))
    (pool : Pool (Table Unit) (Call Unit) Outcome),
    Run ((repository .memory "instance").Step fun _ _ => True) ⟨noRows, [], []⟩ moves pool →
    pool.shared.names.Nodup := by
  intro hclaim
  obtain ⟨pool, hrun, hnames⟩ : ∃ pool,
      Run ((repository .memory "instance").Step fun _ _ => True) ⟨noRows, [], []⟩ createTogether
        pool ∧ decide (pool.shared.names = [js "a", js "a"]) = true :=
    Async.exists_run (by decide +kernel)
  have hnodup := hclaim createTogether pool hrun
  rw [of_decide_eq_true hnames] at hnodup
  exact absurd hnodup (by decide)

end Kinglet.Storage
