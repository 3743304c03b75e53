import Kinglet.Library.Interleaving

/-!
# The storage manager over the in-memory provider

The manager looks a record up in the cache first and invalidates entries after writes. The cache is
the provider's own, which writes to it as well. A call is split at every await of the manager and of
the provider. The cache drops entries when they expire or when it is full; here a call `evict` does.
-/

namespace Kinglet.Storage

open Library

/-- A table with the cache entries of its records. Ids grow, so the rows are in the order of their
ids, which is the order in which a `Map` is walked. -/
structure CachedTable (α : Type*) where
  rows : List (ℕ × α)
  nextId : ℕ
  cache : ℕ → Option α

namespace CachedTable

variable {α : Type*} (table : CachedTable α)

/-- `records.get(id)`. -/
def lookup (id : ℕ) : Option α := (table.rows.find? fun row => row.1 = id).map Prod.snd

/-- `cache.set(key, record)` or, without a record, `cache.delete(key)`. -/
def setCache (id : ℕ) (entry : Option α) : CachedTable α :=
  { table with cache := fun other => if other = id then entry else table.cache other }

/-- `records.set(id, record)` for a new id, and the cache entry. -/
def create (record : α) : CachedTable α :=
  { table with rows := table.rows ++ [(table.nextId, record)], nextId := table.nextId + 1 }
    |>.setCache table.nextId (some record)

/-- `records.set(id, record)` for an id that is there, and the cache entry. -/
def write (id : ℕ) (record : α) : CachedTable α :=
  { table with rows := table.rows.map fun row : ℕ × α => if row.1 = id then (id, record) else row }
    |>.setCache id (some record)

/-- `records.delete(id)` and `cache.delete(key)`. -/
def remove (id : ℕ) : CachedTable α :=
  { table with rows := table.rows.filter fun row : ℕ × α => row.1 ≠ id } |>.setCache id none

/-- The ids of the records that match a filter. -/
def matching (filter : α → Bool) : List ℕ :=
  (table.rows.filter fun row => filter row.2).map Prod.fst

/-- The first record that matches, from an id on: where the walk of `updateMany` stops next. -/
def nextMatch (filter : α → Bool) (start : ℕ) : Option (ℕ × α) :=
  table.rows.find? fun row => decide (start ≤ row.1) && filter row.2

/-- The keys of the cache, for `deleteByPrefix`. -/
def cachedIds : List ℕ := (List.range table.nextId).filter fun id => (table.cache id).isSome

section Lemmas

variable {table} {id other : ℕ} {record : α} {entry : Option α} {filter : α → Bool} {start : ℕ}

@[simp] theorem lookup_setCache : (table.setCache id entry).lookup other = table.lookup other := rfl

@[simp] theorem cache_setCache :
    (table.setCache id entry).cache other = if other = id then entry else table.cache other := rfl

@[simp] theorem rows_setCache : (table.setCache id entry).rows = table.rows := rfl

@[simp] theorem nextId_setCache : (table.setCache id entry).nextId = table.nextId := rfl

theorem lookup_isSome : (table.lookup id).isSome ↔ ∃ row ∈ table.rows, row.1 = id := by
  simp [lookup, List.find?_isSome]

theorem lookup_create (hids : ∀ row ∈ table.rows, row.1 < table.nextId) :
    (table.create record).lookup id = if id = table.nextId then some record else table.lookup id := by
  rw [create, lookup_setCache, lookup, lookup, List.find?_append]
  by_cases hid : id = table.nextId
  · subst hid
    have hnone : table.rows.find? (fun row => decide (row.1 = table.nextId)) = none :=
      List.find?_eq_none.2 fun row hrow => by simpa using Nat.ne_of_lt (hids row hrow)
    simp [hnone]
  · simp [hid, Ne.symm hid]

theorem lookup_write : (table.write id record).lookup other =
    if other = id then (table.lookup id).map fun _ => record else table.lookup other := by
  rw [write, lookup_setCache, lookup, lookup, lookup]
  induction table.rows with
  | nil => simp
  | cons row rows ih =>
      rw [List.map_cons, List.find?_cons, List.find?_cons, List.find?_cons]
      by_cases hrow : row.1 = id
      · rw [if_pos hrow]
        by_cases hother : other = id
        · simp [hother, hrow]
        · have hne : row.1 ≠ other := fun heq => hother (heq.symm.trans hrow)
          simpa [hother, Ne.symm hother, hne] using ih
      · rw [if_neg hrow]
        by_cases hother : row.1 = other
        · have hne : other ≠ id := fun heq => hrow (hother.trans heq)
          simp [hother, hne]
        · simpa [hrow, hother] using ih

theorem lookup_remove :
    (table.remove id).lookup other = if other = id then none else table.lookup other := by
  rw [remove, lookup_setCache, lookup, lookup]
  induction table.rows with
  | nil => simp
  | cons row rows ih =>
      by_cases hrow : row.1 = id
      · rw [List.filter_cons_of_neg (by simpa using hrow), List.find?_cons]
        by_cases hother : other = id
        · simp [hother]
        · have hne : row.1 ≠ other := fun heq => hother (heq.symm.trans hrow)
          simpa [hother, hne] using ih
      · rw [List.filter_cons_of_pos (by simpa using hrow), List.find?_cons, List.find?_cons]
        by_cases hother : row.1 = other
        · have hne : other ≠ id := fun heq => hrow (hother.trans heq)
          simp [hother, hne]
        · simpa [hother] using ih

theorem lookup_of_nextMatch {row : ℕ × α} (h : table.nextMatch filter start = some row) :
    (table.lookup row.1).isSome :=
  lookup_isSome.2 ⟨row, List.mem_of_find?_eq_some h, rfl⟩

end Lemmas

end CachedTable

namespace Manager

variable {α : Type*}

inductive Request (α : Type*)
  | findById (id : ℕ)
  | create (record : α)
  | updateById (id : ℕ) (patch : α → α)
  | updateMany (filter : α → Bool) (patch : α → α)
  | deleteById (id : ℕ)
  | deleteMany (filter : α → Bool)
  | evict (id : ℕ)

inductive Outcome (α : Type*)
  | found (record : Option α)
  | created (id : ℕ)
  | updated (record : Option α)
  | updatedMany (count : ℕ)
  | deleted (existed : Bool)
  | deletedMany (count : ℕ)
  | evicted

/-- A call in flight, by the segment that comes next. -/
inductive Call (α : Type*)
  | findById (id : ℕ)
  | providerFind (id : ℕ)
  | readRecord (id : ℕ)
  | cacheResult (id : ℕ) (record : α)
  | create (record : α)
  | updateById (id : ℕ) (patch : α → α)
  | updateMany (filter : α → Bool) (patch : α → α) (start count : ℕ)
  | affected (filter : α → Bool) (count : ℕ)
  | deleteById (id : ℕ)
  | deleteMany (filter : α → Bool)
  | deleteRows (filter : α → Bool) (affectedIds : List ℕ)
  | removeMany (toDelete affectedIds : List ℕ) (count : ℕ)
  | deletedRows (affectedIds : List ℕ) (count : ℕ)
  | invalidate (ids : List ℕ) (outcome : Outcome α)
  | evict (id : ℕ)

def Request.begin : Request α → Call α
  | .findById id => .findById id
  | .create record => .create record
  | .updateById id patch => .updateById id patch
  | .updateMany filter patch => .updateMany filter patch 0 0
  | .deleteById id => .deleteById id
  | .deleteMany filter => .deleteMany filter
  | .evict id => .evict id

/-- The next `cache.delete` of an invalidation, or its end. -/
def invalidateNext (table : CachedTable α) (outcome : Outcome α) :
    List ℕ → CachedTable α × Progress (Call α) (Outcome α)
  | [] => (table, .finished outcome)
  | id :: ids => (table.setCache id none, .pending (.invalidate ids outcome))

/-- The next removal of the provider's `deleteMany`, or its end. -/
def removeNext (table : CachedTable α) (affectedIds : List ℕ) (count : ℕ) :
    List ℕ → CachedTable α × Progress (Call α) (Outcome α)
  | [] => (table, .pending (.deletedRows affectedIds count))
  | id :: ids => (table.remove id, .pending (.removeMany ids affectedIds (count + 1)))

def segment (table : CachedTable α) :
    Call α → Unit → CachedTable α × Progress (Call α) (Outcome α)
  | .findById id, _ =>
      match table.cache id with
      | some cached => (table, .finished (.found (some cached)))
      | none => (table, .pending (.providerFind id))
  | .providerFind id, _ =>
      match table.cache id with
      | some cached => (table, .pending (.cacheResult id cached))
      | none => (table, .pending (.readRecord id))
  | .readRecord id, _ =>
      match table.lookup id with
      | some record => (table.setCache id (some record), .pending (.cacheResult id record))
      | none => (table, .finished (.found none))
  | .cacheResult id record, _ =>
      (table.setCache id (some record), .finished (.found (some record)))
  | .create record, _ => (table.create record, .finished (.created table.nextId))
  | .updateById id patch, _ =>
      match table.lookup id with
      | some record =>
          (table.write id (patch record), .pending (.invalidate [id] (.updated (patch record))))
      | none => (table, .finished (.updated none))
  | .updateMany filter patch start count, _ =>
      match table.nextMatch filter start with
      | some (id, record) =>
          (table.write id (patch record), .pending (.updateMany filter patch (id + 1) (count + 1)))
      | none => (table, .pending (.affected filter count))
  | .affected filter count, _ =>
      if count = 0 then (table, .finished (.updatedMany 0))
      else (table, .pending (.invalidate (table.matching filter) (.updatedMany count)))
  | .deleteById id, _ =>
      match table.lookup id with
      | some _ => (table.remove id, .pending (.invalidate [id] (.deleted true)))
      | none => (table, .finished (.deleted false))
  | .deleteMany filter, _ => (table, .pending (.deleteRows filter (table.matching filter)))
  | .deleteRows filter affectedIds, _ => removeNext table affectedIds 0 (table.matching filter)
  | .removeMany toDelete affectedIds count, _ => removeNext table affectedIds count toDelete
  | .deletedRows affectedIds count, _ =>
      if count = 0 then (table, .finished (.deletedMany 0))
      else
        invalidateNext table (.deletedMany count)
          (if affectedIds.isEmpty then table.cachedIds else affectedIds)
  | .invalidate ids outcome, _ => invalidateNext table outcome ids
  | .evict id, _ => (table.setCache id none, .finished .evicted)

/-- The calls of a manager with a cache. -/
def manager : Async (CachedTable α) (Request α) (Call α) Unit (Outcome α) :=
  ⟨Request.begin, segment⟩

end Manager

end Kinglet.Storage
