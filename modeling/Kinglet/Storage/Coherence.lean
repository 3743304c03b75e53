import Kinglet.Storage.Manager

/-!
# The cache is coherent

A cached record is the stored one, as long as nothing writes the record while a read of it waits to
put what it found into the cache.
-/

namespace Kinglet.Storage.Manager

open Library

variable {α : Type*} {table : CachedTable α} {id : ℕ} {record : α} {filter : α → Bool}

/-! ## Moves that do not overtake a read -/

/-- The record that the next segment of a call writes or deletes. -/
def written (table : CachedTable α) : Call α → Option ℕ
  | .updateById id _ | .deleteById id => some id
  | .updateMany filter _ start _ => (table.nextMatch filter start).map Prod.fst
  | .deleteRows filter _ => (table.matching filter).head?
  | .removeMany toDelete _ _ => toDelete.head?
  | _ => none

/-- The record a call has read and is about to cache. -/
def toCache : Call α → Option ℕ
  | .cacheResult id _ => some id
  | _ => none

/-- No record is written or deleted while a read of it is between the provider and the cache. -/
def NotOvertaking (pool : Pool (CachedTable α) (Call α) (Outcome α)) :
    Move (Request α) Unit → Prop
  | .start _ => True
  | .resume index _ => ∀ call ∈ pool.calls[index]?, ∀ other ∈ pool.calls.eraseIdx index,
      ∀ id ∈ toCache other, written pool.shared call ≠ some id

instance (pool : Pool (CachedTable α) (Call α) (Outcome α)) :
    ∀ m : Move (Request α) Unit, Decidable (NotOvertaking pool m)
  | .start _ => .isTrue trivial
  | .resume index _ => inferInstanceAs <| Decidable <|
      ∀ call ∈ pool.calls[index]?, ∀ other ∈ pool.calls.eraseIdx index,
        ∀ id ∈ toCache other, written pool.shared call ≠ some id

/-! ## Reads after writes -/

/-- A cached record is the stored one. -/
structure Coherent (table : CachedTable α) : Prop where
  ids : ∀ row ∈ table.rows, row.1 < table.nextId
  cached : ∀ id record, table.cache id = some record → table.lookup id = some record

namespace Coherent

theorem uncache (h : Coherent table) : Coherent (table.setCache id none) where
  ids := h.ids
  cached other stored hcache := by
    rw [CachedTable.cache_setCache] at hcache
    split at hcache
    · cases hcache
    · exact h.cached other stored hcache

theorem setCache (h : Coherent table) (hstored : table.lookup id = some record) :
    Coherent (table.setCache id (some record)) where
  ids := h.ids
  cached other stored hcache := by
    rw [CachedTable.cache_setCache] at hcache
    split at hcache
    · subst other
      exact hstored.trans hcache
    · exact h.cached other stored hcache

theorem create (h : Coherent table) : Coherent (table.create record) where
  ids row hrow := by
    rcases List.mem_append.1 hrow with hrow | hrow
    · exact Nat.lt_succ_of_lt (h.ids row hrow)
    · obtain rfl := List.mem_singleton.1 hrow
      exact Nat.lt_succ_self _
  cached other stored hcache := by
    rw [CachedTable.lookup_create h.ids]
    rw [CachedTable.create, CachedTable.cache_setCache] at hcache
    split
    · rwa [if_pos ‹_›] at hcache
    · rw [if_neg ‹_›] at hcache
      exact h.cached other stored hcache

theorem write (h : Coherent table) (hstored : (table.lookup id).isSome) :
    Coherent (table.write id record) where
  ids row hrow := by
    obtain ⟨old, hold, rfl⟩ := List.mem_map.1 hrow
    have hlt := h.ids old hold
    split
    · exact ‹old.1 = id› ▸ hlt
    · exact hlt
  cached other stored hcache := by
    rw [CachedTable.lookup_write]
    rw [CachedTable.write, CachedTable.cache_setCache] at hcache
    split
    · rw [if_pos ‹_›] at hcache
      obtain ⟨old, hold⟩ := Option.isSome_iff_exists.1 hstored
      rw [hold, Option.map_some, hcache]
    · rw [if_neg ‹_›] at hcache
      exact h.cached other stored hcache

theorem remove (h : Coherent table) : Coherent (table.remove id) where
  ids row hrow := h.ids row (List.mem_of_mem_filter hrow)
  cached other stored hcache := by
    rw [CachedTable.lookup_remove]
    rw [CachedTable.remove, CachedTable.cache_setCache] at hcache
    split
    · rw [if_pos ‹_›] at hcache
      cases hcache
    · rw [if_neg ‹_›] at hcache
      exact h.cached other stored hcache

theorem lt_nextId (h : Coherent table) (hstored : table.lookup id = some record) :
    id < table.nextId := by
  obtain ⟨row, hrow, rfl⟩ := CachedTable.lookup_isSome.1 (Option.isSome_of_eq_some hstored)
  exact h.ids row hrow

end Coherent

/-- The record a read is about to cache is the stored one. -/
def Fresh (table : CachedTable α) : Call α → Prop
  | .cacheResult id record => table.lookup id = some record
  | _ => True

def coherence : Outline (CachedTable α) (Call α) (Outcome α) where
  Inv table _ := Coherent table
  Local := Fresh
  Pair _ _ := True
  symm h := h

section Segments

variable {call other : Call α} {outcomes : List (Outcome α)}

theorem coherent_invalidateNext {ids : List ℕ} {outcome : Outcome α} (h : Coherent table) :
    coherence.Keeps outcomes (invalidateNext table outcome ids) := by
  cases ids with
  | nil => exact h
  | cons id ids => exact ⟨h.uncache, trivial⟩

theorem coherent_removeNext {toDelete affectedIds : List ℕ} {count : ℕ} (h : Coherent table) :
    coherence.Keeps outcomes (removeNext table affectedIds count toDelete) := by
  cases toDelete with
  | nil => exact ⟨h, trivial⟩
  | cons id ids => exact ⟨h.remove, trivial⟩

theorem coherence_keeps (h : Coherent table) (hfresh : Fresh table call) :
    coherence.Keeps outcomes (segment table call ()) := by
  cases call with
  | findById id =>
      rw [segment]
      split
      · exact h
      · exact ⟨h, trivial⟩
  | providerFind id =>
      rw [segment]
      split
      · exact ⟨h, h.cached id _ ‹_›⟩
      · exact ⟨h, trivial⟩
  | readRecord id =>
      rw [segment]
      split
      · exact ⟨h.setCache ‹_›, ‹_›⟩
      · exact h
  | cacheResult id record => exact h.setCache hfresh
  | create record => exact h.create
  | updateById id patch =>
      rw [segment]
      split
      · exact ⟨h.write (Option.isSome_of_eq_some ‹_›), trivial⟩
      · exact h
  | updateMany filter patch start count =>
      rw [segment]
      split
      · exact ⟨h.write (CachedTable.lookup_of_nextMatch ‹_›), trivial⟩
      · exact ⟨h, trivial⟩
  | affected filter count =>
      rw [segment]
      split
      · exact h
      · exact ⟨h, trivial⟩
  | deleteById id =>
      rw [segment]
      split
      · exact ⟨h.remove, trivial⟩
      · exact h
  | deleteMany filter => exact ⟨h, trivial⟩
  | deleteRows filter affectedIds => exact coherent_removeNext h
  | removeMany toDelete affectedIds count => exact coherent_removeNext h
  | deletedRows affectedIds count =>
      rw [segment]
      split
      · exact h
      · exact coherent_invalidateNext h
  | invalidate ids outcome => exact coherent_invalidateNext h
  | evict id => exact h.uncache

theorem lookup_invalidateNext {ids : List ℕ} {outcome : Outcome α} :
    (invalidateNext table outcome ids).1.lookup id = table.lookup id := by
  cases ids <;> rfl

theorem lookup_removeNext {toDelete affectedIds : List ℕ} {count : ℕ}
    (hne : toDelete.head? ≠ some id) :
    (removeNext table affectedIds count toDelete).1.lookup id = table.lookup id := by
  cases toDelete with
  | nil => rfl
  | cons other rest =>
      rw [removeNext, CachedTable.lookup_remove, if_neg]
      exact fun heq => hne (congrArg some heq.symm)

/-- A segment leaves the stored records alone that it does not write. -/
theorem lookup_segment (h : Coherent table) (hstored : table.lookup id = some record)
    (hne : written table call ≠ some id) :
    (segment table call ()).1.lookup id = some record := by
  rw [← hstored]
  cases call with
  | findById | providerFind | readRecord | affected =>
      rw [segment]
      split <;> rfl
  | create record =>
      rw [segment, CachedTable.lookup_create h.ids, if_neg]
      exact Nat.ne_of_lt (h.lt_nextId hstored)
  | updateById other patch =>
      rw [segment]
      split
      · rw [CachedTable.lookup_write, if_neg]
        exact fun heq => hne (congrArg some heq.symm)
      · rfl
  | updateMany filter patch start count =>
      rw [segment]
      split
      · rename_i hnext
        rw [CachedTable.lookup_write, if_neg]
        rintro rfl
        exact hne (by rw [written, hnext, Option.map_some])
      · rfl
  | deleteById other =>
      rw [segment]
      split
      · rw [CachedTable.lookup_remove, if_neg]
        exact fun heq => hne (congrArg some heq.symm)
      · rfl
  | deleteRows | removeMany => exact lookup_removeNext hne
  | deletedRows affectedIds count =>
      rw [segment]
      split
      · rfl
      · exact lookup_invalidateNext
  | invalidate => exact lookup_invalidateNext
  | cacheResult | deleteMany | evict => rfl

theorem coherence_spares (h : Coherent table) (hfresh : Fresh table other)
    (hne : ∀ id ∈ toCache other, written table call ≠ some id) :
    coherence.Spares other (segment table call ()) := by
  refine .of ?_ fun _ _ => trivial
  cases other with
  | cacheResult id record => exact lookup_segment h hfresh (hne id rfl)
  | _ => trivial

end Segments

/-! ## Runs of calls -/

theorem coherence_of_run {pool pool' : Pool (CachedTable α) (Call α) (Outcome α)}
    {moves : List (Move (Request α) Unit)}
    (hrun : Run (manager.Step NotOvertaking) pool moves pool') (h : coherence.Holds pool) :
    coherence.Holds pool' := by
  refine h.of_run ?_ ?_ hrun
  · intro pool request _ _
    cases request <;> exact ⟨trivial, fun _ _ => trivial⟩
  · intro pool index input call h hallowed hcall
    refine ⟨coherence_keeps h.inv (h.each call (List.mem_of_getElem? hcall)), ?_⟩
    intro other hother
    exact coherence_spares h.inv (h.each other (List.mem_of_mem_eraseIdx hother))
      (hallowed call hcall other hother)

/-- A find on its own returns the stored record. -/
theorem Coherent.findById_alone (h : Coherent table) :
    ∃ table', manager.alone table (.findById id) [(), (), (), ()] =
      some (table', .found (table.lookup id)) := by
  cases hcache : table.cache id with
  | some record =>
      rw [h.cached id record hcache]
      exact ⟨table, by simp [Async.alone, manager, segment, hcache]⟩
  | none =>
      cases hlookup : table.lookup id with
      | none => exact ⟨table, by simp [Async.alone, manager, segment, hcache, hlookup]⟩
      | some record =>
          refine ⟨(table.setCache id (some record)).setCache id (some record), ?_⟩
          simp only [Async.alone, manager, segment, hcache, hlookup]

def noRecords : CachedTable α := ⟨[], 0, fun _ => none⟩

/-- **Cache coherence.** After a run in which no record is written while a read of it waits to cache
what it found, a find returns the stored record. -/
theorem find_current (moves : List (Move (Request α) Unit))
    (pool : Pool (CachedTable α) (Call α) (Outcome α))
    (hrun : Run (manager.Step NotOvertaking) ⟨noRecords, [], []⟩ moves pool) (id : ℕ) :
    ∃ table', manager.alone pool.shared (.findById id) [(), (), (), ()] =
      some (table', .found (pool.shared.lookup id)) := by
  have hstart : Coherent (noRecords : CachedTable α) :=
    ⟨fun _ hrow => absurd hrow List.not_mem_nil, fun _ _ hcache => nomatch hcache⟩
  have hpool : coherence.Holds pool := coherence_of_run hrun ⟨hstart, by simp, .nil⟩
  have hcoherent : Coherent pool.shared := hpool.inv
  exact hcoherent.findById_alone

/-- A record is created, changed and read, one call after the other. -/
def writeThenRead : List (Move (Request ℕ) Unit) :=
  [.start (.create 0), .resume 0 (), .start (.updateById 0 (· + 1)), .resume 0 (), .resume 0 (),
    .resume 0 (), .start (.findById 0), .resume 0 (), .resume 0 (), .resume 0 (), .resume 0 ()]

theorem find_current_writeThenRead : ∃ pool,
    Run (manager.Step NotOvertaking) ⟨noRecords, [], []⟩ writeThenRead pool ∧ pool.calls = [] ∧
      ∃ table', manager.alone pool.shared (.findById 0) [(), (), (), ()] =
        some (table', .found (pool.shared.lookup 0)) := by
  obtain ⟨pool, hrun, hdone⟩ : ∃ pool,
      Run (manager.Step NotOvertaking) ⟨noRecords, [], []⟩ writeThenRead pool ∧
        pool.calls.isEmpty = true :=
    Async.exists_run (by decide +kernel)
  exact ⟨pool, hrun, List.isEmpty_iff.1 hdone, find_current writeThenRead pool hrun 0⟩

/-- An update runs while a read waits to cache what it found. -/
def updateOvertakesRead : List (Move (Request ℕ) Unit) :=
  [.start (.create 0), .resume 0 (), .start (.updateById 0 (· + 1)), .resume 0 (), .resume 0 (),
    .resume 0 (), .start (.findById 0), .resume 0 (), .resume 0 (), .resume 0 (),
    .start (.updateById 0 (· + 1)), .resume 1 (), .resume 1 (), .resume 1 (), .resume 0 ()]

/-- The read leaves a stale entry behind. -/
theorem not_find_current : ¬ ∀ (moves : List (Move (Request ℕ) Unit))
    (pool : Pool (CachedTable ℕ) (Call ℕ) (Outcome ℕ)),
    Run (manager.Step fun _ _ => True) ⟨noRecords, [], []⟩ moves pool → pool.calls = [] →
    ∀ id, ∃ table', manager.alone pool.shared (.findById id) [(), (), (), ()] =
      some (table', .found (pool.shared.lookup id)) := by
  intro hclaim
  obtain ⟨pool, hrun, hstale⟩ : ∃ pool,
      Run (manager.Step fun _ _ => True) ⟨noRecords, [], []⟩ updateOvertakesRead pool ∧
        (pool.calls.isEmpty && decide (pool.shared.cache 0 = some 1) &&
          decide (pool.shared.lookup 0 = some 2)) = true :=
    Async.exists_run (by decide +kernel)
  simp only [Bool.and_eq_true, decide_eq_true_eq, List.isEmpty_iff] at hstale
  obtain ⟨⟨hdone, hcache⟩, hlookup⟩ := hstale
  obtain ⟨table', hfind⟩ := hclaim _ pool hrun hdone 0
  simp [Async.alone, manager, segment, hcache, hlookup] at hfind

end Kinglet.Storage.Manager
