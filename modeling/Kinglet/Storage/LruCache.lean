import Kinglet.Js.Json
import Kinglet.Library.Recency
import Kinglet.Library.Run
import Mathlib.Algebra.Order.BigOperators.Group.List
import Mathlib.Data.Rat.Cast.Order
import Mathlib.Tactic.Linarith
import Mathlib.Tactic.Positivity
import Mathlib.Algebra.Order.Ring.Rat

/-!
# The LRU cache

The entries are a `Map`, in the order in which it lists them. Times, times to live and limits are
exact numbers. The log is not part of the cache: it says what happened, for statements about runs.

## Strategy

The keys of the map stand from the least to the most recently used one (`Recency.Ordered`), so the key
that `evictLRU` takes is the least recently used. What the map has under a key is what the log says was
last stored there and not taken away, except that an entry seen to have expired is gone. The memory
stays within its limit because a new entry evicts until it does; overwriting an entry does not evict,
and stays within the limit only if the new estimate does.
-/

namespace Kinglet.Storage.Lru

open Js Library Library.Recency

/-! ## The source -/

structure CacheEntry where
  value : JsValue
  expiresAt : Option ℚ

structure LRUCacheConfig where
  maxSize : ℚ
  defaultTTL : Option ℚ
  maxMemoryMb : Option ℚ

structure Stats where
  hits : ℕ
  misses : ℕ
  sets : ℕ
  deletes : ℕ
  evictions : ℕ

/-- What happens to a cache. An eviction has the keys that were there. -/
inductive Event
  | stored (key : JsString) (value : JsValue) (expiresAt : Option ℚ)
  | used (key : JsString)
  | deleted (key : JsString)
  | cleared
  | evicted (key : JsString) (present : List JsString)

structure LRUCache where
  entries : List (JsString × CacheEntry)
  stats : Stats
  log : List Event

/-- A cache without entries. -/
def LRUCache.start : LRUCache := ⟨[], ⟨0, 0, 0, 0, 0⟩, []⟩

/-- `entries.delete(key)`. -/
def mapDelete (key : JsString) (entries : List (JsString × CacheEntry)) :
    List (JsString × CacheEntry) :=
  entries.filter fun entry => entry.1 ≠ key

/-- `markRecentlyUsed(key, entry)`. -/
def markRecentlyUsed (key : JsString) (entry : CacheEntry)
    (entries : List (JsString × CacheEntry)) : List (JsString × CacheEntry) :=
  setField key entry (mapDelete key entries)

/-- `entry.expiresAt && now > entry.expiresAt`. -/
def CacheEntry.isExpired (entry : CacheEntry) (now : ℚ) : Bool :=
  entry.expiresAt.any fun time => time ≠ 0 && time < now

/-- `estimateValueSize(value)`. -/
def estimateValueSize : JsValue → ℕ
  | .null | .undefined => 8
  | .str s => s.length * 2
  | .num _ => 8
  | .bool _ => 4
  | .arr ref elements => ((jsonStringify (.arr ref elements)).map fun text => text.length * 2).getD 100
  | .obj ref fields => ((jsonStringify (.obj ref fields)).map fun text => text.length * 2).getD 100

/-- What an entry adds to the estimate. -/
def entrySize (entry : JsString × CacheEntry) : ℕ :=
  entry.1.length * 2 + estimateValueSize entry.2.value + 64

namespace LRUCache

variable (config : LRUCacheConfig)

/-- `getMemoryUsage()`. -/
def getMemoryUsage (c : LRUCache) : ℕ :=
  c.entries.foldl (fun total entry => total + entrySize entry) 0

def evictLRU (c : LRUCache) : LRUCache :=
  match c.entries.head? with
  | none => c
  | some (leastRecentlyUsedKey, _) =>
      { entries := mapDelete leastRecentlyUsedKey c.entries
        stats := { c.stats with evictions := c.stats.evictions + 1 }
        log := c.log ++ [.evicted leastRecentlyUsedKey (c.entries.map Prod.fst)] }

/-- The loop of `evictByMemory()`, which takes an entry in each round. -/
def evictWhile (maxMemoryBytes : ℚ) : ℕ → LRUCache → LRUCache
  | 0, c => c
  | rounds + 1, c =>
      if maxMemoryBytes < c.getMemoryUsage ∧ 0 < c.entries.length then
        evictWhile maxMemoryBytes rounds c.evictLRU
      else c

def evictByMemory (maxMemoryMb : ℚ) (c : LRUCache) : LRUCache :=
  evictWhile (maxMemoryMb * 1024 * 1024) c.entries.length c

/-- The time at which a value expires that is set now; no time to live, or one of zero, is forever. -/
def expiry (now : ℚ) (ttlSeconds : Option ℚ) : Option ℚ :=
  ((ttlSeconds <|> config.defaultTTL).filter (· ≠ 0)).map fun ttl => now + ttl * 1000

/-- The check of the size after a new entry. -/
def evictBySize (c : LRUCache) : LRUCache :=
  if config.maxSize < c.entries.length then c.evictLRU else c

/-- Both checks after a new entry. -/
def evictAfterInsert (c : LRUCache) : LRUCache :=
  match config.maxMemoryMb.filter (· ≠ 0) with
  | none => c.evictBySize config
  | some maxMemoryMb =>
      if maxMemoryMb * 1024 * 1024 < (c.evictBySize config).getMemoryUsage then
        (c.evictBySize config).evictByMemory maxMemoryMb
      else c.evictBySize config

def set (now : ℚ) (key : JsString) (value : JsValue) (ttlSeconds : Option ℚ) (c : LRUCache) :
    LRUCache :=
  let entry : CacheEntry := ⟨value, expiry config now ttlSeconds⟩
  let log := c.log ++ [.stored key value entry.expiresAt]
  let c :=
    if (c.entries.lookup key).isSome then
      { c with entries := markRecentlyUsed key entry c.entries, log }
    else evictAfterInsert config { c with entries := setField key entry c.entries, log }
  { c with stats := { c.stats with sets := c.stats.sets + 1 } }

def get (now : ℚ) (key : JsString) (c : LRUCache) : LRUCache × JsValue :=
  match c.entries.lookup key with
  | none => ({ c with stats := { c.stats with misses := c.stats.misses + 1 } }, .null)
  | some entry =>
      if entry.isExpired now then
        ({ c with
            entries := mapDelete key c.entries
            stats := { c.stats with misses := c.stats.misses + 1 } }, .null)
      else
        ({ entries := markRecentlyUsed key entry c.entries
           stats := { c.stats with hits := c.stats.hits + 1 }
           log := c.log ++ [.used key] }, entry.value)

/-- `delete(key)`. -/
def remove (key : JsString) (c : LRUCache) : LRUCache × Bool :=
  match c.entries.lookup key with
  | none => (c, false)
  | some _ =>
      ({ entries := mapDelete key c.entries
         stats := { c.stats with deletes := c.stats.deletes + 1 }
         log := c.log ++ [.deleted key] }, true)

def has (now : ℚ) (key : JsString) (c : LRUCache) : LRUCache × Bool :=
  match c.entries.lookup key with
  | none => (c, false)
  | some entry =>
      if entry.isExpired now then ({ c with entries := mapDelete key c.entries }, false)
      else (c, true)

def clear (c : LRUCache) : LRUCache := ⟨[], ⟨0, 0, 0, 0, 0⟩, c.log ++ [.cleared]⟩

def cleanup (now : ℚ) (c : LRUCache) : LRUCache :=
  let expiredKeys := (c.entries.filter fun entry => entry.2.isExpired now).map Prod.fst
  { c with entries := expiredKeys.foldl (fun entries key => mapDelete key entries) c.entries }

end LRUCache

/-! ## Runs -/

inductive Op
  | get (key : JsString)
  | set (key : JsString) (value : JsValue) (ttlSeconds : Option ℚ)
  | delete (key : JsString)
  | has (key : JsString)
  | clear
  | cleanup

/-- A cache and the time of the last call. -/
structure World where
  clock : ℚ
  cache : LRUCache

def Op.apply (config : LRUCacheConfig) (now : ℚ) (c : LRUCache) : Op → LRUCache
  | .get key => (c.get now key).1
  | .set key value ttlSeconds => c.set config now key value ttlSeconds
  | .delete key => (c.remove key).1
  | .has key => (c.has now key).1
  | .clear => c.clear
  | .cleanup => c.cleanup now

/-- One call, at a time that is not before that of the last. -/
def Call (config : LRUCacheConfig) (w : World) (call : ℚ × Op) (w' : World) : Prop :=
  w.clock ≤ call.1 ∧ w' = ⟨call.1, call.2.apply config call.1 w.cache⟩

/-! ## What the log says -/

/-- The uses of keys: every set, and every get that finds a value. -/
def Event.use? : Event → Option JsString
  | .stored key _ _ | .used key => some key
  | _ => none

def uses (log : List Event) : List JsString := log.filterMap Event.use?

/-- What is stored under a key after an event. -/
def Event.after (key : JsString) (stored : Option CacheEntry) : Event → Option CacheEntry
  | .stored k value expiresAt => if k = key then some ⟨value, expiresAt⟩ else stored
  | .deleted k | .evicted k _ => if k = key then none else stored
  | .cleared => none
  | .used _ => stored

/-- The last value set for a key that has neither been deleted nor evicted. -/
def lastStored (log : List Event) (key : JsString) : Option CacheEntry :=
  log.foldl (Event.after key) none

/-- It, if its time has not passed. -/
def live (log : List Event) (now : ℚ) (key : JsString) : Option JsValue :=
  ((lastStored log key).filter fun entry => entry.expiresAt.all (now ≤ ·)).map CacheEntry.value

/-- Whether each eviction took the least recently used of the keys that were there. -/
def EvictsLeastRecent (log : List Event) : Prop :=
  ∀ before key present later, log = before ++ .evicted key present :: later →
    LeastRecent (uses before) key present

/-- What is asked of a cache at a time. -/
structure Sound (config : LRUCacheConfig) (w : World) : Prop where
  size : (w.cache.entries.length : ℚ) ≤ config.maxSize
  memory : ∀ mb ∈ config.maxMemoryMb, (w.cache.getMemoryUsage : ℚ) ≤ mb * 1024 * 1024
  tracked : w.cache.getMemoryUsage = (w.cache.entries.map entrySize).sum
  evictions : EvictsLeastRecent w.cache.log
  answers : ∀ now key, w.clock ≤ now →
    (w.cache.get now key).2 = (live w.cache.log now key).getD .null

/-- A maximum of entries that is not negative, and a maximum of memory, when there is one, that is
not zero. -/
structure LRUCacheConfig.Sensible (config : LRUCacheConfig) : Prop where
  maxSize : 0 ≤ config.maxSize
  maxMemoryMb : ∀ mb ∈ config.maxMemoryMb, 0 < mb

/-- The estimate with another value in the place of the one under a key. -/
def estimateWith (key : JsString) (value : JsValue) (c : LRUCache) : ℕ :=
  ((mapDelete key c.entries).map entrySize).sum + entrySize (key, ⟨value, none⟩)

/-- A set that puts a value in the place of another keeps the estimate within the maximum, and none
gives a value the time zero to expire. -/
def Op.Fits (config : LRUCacheConfig) (now : ℚ) (c : LRUCache) : Op → Prop
  | .set key value ttlSeconds =>
      ((c.entries.lookup key).isSome → ∀ mb ∈ config.maxMemoryMb,
        (estimateWith key value c : ℚ) ≤ mb * 1024 * 1024) ∧
      LRUCache.expiry config now ttlSeconds ≠ some 0
  | _ => True

/-! ## Entries -/

section Entries

variable {key other : JsString} {entry : CacheEntry} {entries : List (JsString × CacheEntry)}

def keys (entries : List (JsString × CacheEntry)) : List JsString := entries.map Prod.fst

theorem keys_mapDelete_sublist (key : JsString) (entries : List (JsString × CacheEntry)) :
    (keys (mapDelete key entries)).Sublist (keys entries) :=
  List.filter_sublist.map Prod.fst

theorem notMem_keys_mapDelete (key : JsString) (entries : List (JsString × CacheEntry)) :
    key ∉ keys (mapDelete key entries) := by
  intro hmem
  obtain ⟨entry, hentry, rfl⟩ := List.mem_map.1 hmem
  exact absurd rfl (of_decide_eq_true (List.mem_filter.1 hentry).2)

theorem lookup_mapDelete_self (key : JsString) (entries : List (JsString × CacheEntry)) :
    (mapDelete key entries).lookup key = none := by
  rw [List.lookup_eq_none_iff]
  intro entry hentry
  have hne : entry.1 ≠ key := of_decide_eq_true (List.mem_filter.1 hentry).2
  simpa using hne.symm

theorem lookup_mapDelete_of_ne (h : other ≠ key) :
    (mapDelete key entries).lookup other = entries.lookup other := by
  induction entries with
  | nil => rfl
  | cons entry entries ih =>
    unfold mapDelete at ih ⊢
    by_cases hentry : entry.1 = key
    · have hother : (other == entry.1) = false := by
        rw [hentry]
        exact beq_false_of_ne h
      rw [List.filter_cons_of_neg (by simpa using hentry), ih, List.lookup_cons, hother]
    · rw [List.filter_cons_of_pos (by simpa using hentry), List.lookup_cons, List.lookup_cons, ih]

theorem mapDelete_eq_self (h : entries.lookup key = none) : mapDelete key entries = entries := by
  refine List.filter_eq_self.2 fun entry hentry => ?_
  have hne := List.lookup_eq_none_iff.1 h entry hentry
  exact decide_eq_true (Ne.symm (bne_iff_ne.1 hne))

theorem setField_of_lookup_eq_none (h : entries.lookup key = none) :
    setField key entry entries = entries ++ [(key, entry)] := by
  induction entries with
  | nil => rfl
  | cons first entries ih =>
    obtain ⟨other, old⟩ := first
    rw [List.lookup_cons] at h
    by_cases hother : key = other
    · simp [hother] at h
    · rw [beq_false_of_ne hother] at h
      rw [setField, if_neg (Ne.symm hother), ih h, List.cons_append]

theorem markRecentlyUsed_eq (key : JsString) (entry : CacheEntry)
    (entries : List (JsString × CacheEntry)) :
    markRecentlyUsed key entry entries = mapDelete key entries ++ [(key, entry)] :=
  setField_of_lookup_eq_none (lookup_mapDelete_self key entries)

/-- A new entry is put where one that is used is put. -/
theorem setField_eq_markRecentlyUsed (h : entries.lookup key = none) :
    setField key entry entries = markRecentlyUsed key entry entries := by
  rw [markRecentlyUsed, mapDelete_eq_self h]

theorem lookup_markRecentlyUsed :
    (markRecentlyUsed key entry entries).lookup other =
      if other = key then some entry else entries.lookup other := by
  rw [markRecentlyUsed, lookup_setField]
  split
  · rfl
  · rename_i hne
    exact lookup_mapDelete_of_ne hne

theorem keys_markRecentlyUsed :
    keys (markRecentlyUsed key entry entries) = keys (mapDelete key entries) ++ [key] := by
  rw [markRecentlyUsed_eq, keys, List.map_append]
  rfl

theorem getMemoryUsage_eq (c : LRUCache) : c.getMemoryUsage = (c.entries.map entrySize).sum := by
  have hfold : ∀ (entries : List (JsString × CacheEntry)) (total : ℕ),
      entries.foldl (fun total entry => total + entrySize entry) total =
        total + (entries.map entrySize).sum := by
    intro entries
    induction entries with
    | nil => exact fun total => rfl
    | cons entry entries ih =>
      intro total
      rw [List.foldl_cons, ih, List.map_cons, List.sum_cons, Nat.add_assoc]
  rw [LRUCache.getMemoryUsage, hfold, Nat.zero_add]

end Entries

/-! ## The log -/

theorem uses_append (log : List Event) (event : Event) :
    uses (log ++ [event]) = uses log ++ event.use?.toList := by
  rw [uses, List.filterMap_append]
  cases h : event.use? <;> simp [uses, h]

theorem lastStored_append (log : List Event) (event : Event) (key : JsString) :
    lastStored (log ++ [event]) key = event.after key (lastStored log key) := by
  rw [lastStored, List.foldl_append]
  rfl

theorem EvictsLeastRecent.append {log : List Event} {event : Event} (h : EvictsLeastRecent log)
    (hevent : ∀ key present, event = .evicted key present → LeastRecent (uses log) key present) :
    EvictsLeastRecent (log ++ [event]) := by
  intro before key present later heq
  rcases List.eq_nil_or_concat later with rfl | ⟨later, last, rfl⟩
  · obtain ⟨rfl, hlast⟩ := List.append_inj' heq rfl
    exact hevent key present (List.singleton_inj.1 hlast)
  · have hassoc : log ++ [event] = (before ++ .evicted key present :: later) ++ [last] := by
      rw [heq, List.append_assoc, List.cons_append, List.concat_eq_append]
    obtain ⟨rfl, -⟩ := List.append_inj' hassoc rfl
    exact h before key present later rfl

/-! ## The invariant -/

/-- The entries stand by recency, and are what the log says; what is missing there has expired. -/
structure Coherent (clock : ℚ) (entries : List (JsString × CacheEntry)) (log : List Event) :
    Prop where
  nodup : (keys entries).Nodup
  ordered : Ordered (uses log) (keys entries)
  stored : ∀ key entry, entries.lookup key = some entry → lastStored log key = some entry
  gone : ∀ key entry, entries.lookup key = none → lastStored log key = some entry →
    ∃ time ∈ entry.expiresAt, time < clock
  lasting : ∀ key entry, entries.lookup key = some entry → entry.expiresAt ≠ some 0
  evictions : EvictsLeastRecent log

namespace Coherent

variable {clock now : ℚ} {entries : List (JsString × CacheEntry)} {log : List Event}
  {key : JsString} {entry : CacheEntry} {event : Event}

theorem start (clock : ℚ) : Coherent clock [] [] where
  nodup := .nil
  ordered := .nil
  stored _ _ h := nomatch h
  gone _ _ _ h := nomatch h
  lasting _ _ h := nomatch h
  evictions before key present later h := absurd (congrArg List.length h) (by simp)

theorem later (h : Coherent clock entries log) (hle : clock ≤ now) : Coherent now entries log :=
  { h with
    gone := fun key entry hlookup hlast => by
      obtain ⟨time, htime, hlt⟩ := h.gone key entry hlookup hlast
      exact ⟨time, htime, hlt.trans_le hle⟩ }

/-- An entry is used, or stored. -/
theorem touched (h : Coherent clock entries log) (huse : event.use? = some key)
    (hafter : ∀ other, event.after other (lastStored log other) =
      if other = key then some entry else lastStored log other)
    (hlasting : entry.expiresAt ≠ some 0) (hevent : ∀ key present, event ≠ .evicted key present) :
    Coherent clock (markRecentlyUsed key entry entries) (log ++ [event]) where
  nodup := by
    rw [keys_markRecentlyUsed]
    refine List.nodup_append'.2 ⟨h.nodup.sublist (keys_mapDelete_sublist key entries),
      List.nodup_singleton key, ?_⟩
    rw [List.disjoint_singleton]
    exact notMem_keys_mapDelete key entries
  ordered := by
    rw [keys_markRecentlyUsed, uses_append, huse]
    exact (h.ordered.sublist (keys_mapDelete_sublist key entries)).touch
      (notMem_keys_mapDelete key entries)
  stored other found hlookup := by
    rw [lookup_markRecentlyUsed] at hlookup
    rw [lastStored_append, hafter]
    split at hlookup
    · rename_i hkey
      rw [if_pos hkey, hlookup]
    · rename_i hkey
      rw [if_neg hkey]
      exact h.stored other found hlookup
  gone other found hlookup hlast := by
    rw [lookup_markRecentlyUsed] at hlookup
    rw [lastStored_append, hafter] at hlast
    split at hlookup
    · cases hlookup
    · rename_i hkey
      rw [if_neg hkey] at hlast
      exact h.gone other found hlookup hlast
  lasting other found hlookup := by
    rw [lookup_markRecentlyUsed] at hlookup
    split at hlookup
    · obtain rfl := Option.some.inj hlookup
      exact hlasting
    · exact h.lasting other found hlookup
  evictions := h.evictions.append fun key present heq => absurd heq (hevent key present)

/-- An entry that has expired is dropped. -/
theorem dropped (h : Coherent clock entries log)
    (hexpired : ∀ entry, entries.lookup key = some entry → ∃ time ∈ entry.expiresAt, time < clock) :
    Coherent clock (mapDelete key entries) log where
  nodup := h.nodup.sublist (keys_mapDelete_sublist key entries)
  ordered := h.ordered.sublist (keys_mapDelete_sublist key entries)
  stored other found hlookup := by
    by_cases hkey : other = key
    · rw [hkey, lookup_mapDelete_self] at hlookup
      cases hlookup
    · rw [lookup_mapDelete_of_ne hkey] at hlookup
      exact h.stored other found hlookup
  gone other found hlookup hlast := by
    by_cases hkey : other = key
    · subst hkey
      cases hfound : entries.lookup other with
      | none => exact h.gone other found hfound hlast
      | some entry =>
        obtain rfl : entry = found :=
          Option.some.inj ((h.stored other entry hfound).symm.trans hlast)
        exact hexpired entry hfound
    · rw [lookup_mapDelete_of_ne hkey] at hlookup
      exact h.gone other found hlookup hlast
  lasting other found hlookup := by
    by_cases hkey : other = key
    · rw [hkey, lookup_mapDelete_self] at hlookup
      cases hlookup
    · rw [lookup_mapDelete_of_ne hkey] at hlookup
      exact h.lasting other found hlookup
  evictions := h.evictions

/-- An entry is deleted or evicted. -/
theorem removed (h : Coherent clock entries log) (huse : event.use? = none)
    (hafter : ∀ other stored, event.after other stored = if key = other then none else stored)
    (hevent : ∀ key present, event = .evicted key present → LeastRecent (uses log) key present) :
    Coherent clock (mapDelete key entries) (log ++ [event]) where
  nodup := h.nodup.sublist (keys_mapDelete_sublist key entries)
  ordered := by
    rw [uses_append, huse, Option.toList_none, List.append_nil]
    exact h.ordered.sublist (keys_mapDelete_sublist key entries)
  stored other found hlookup := by
    by_cases hkey : other = key
    · rw [hkey, lookup_mapDelete_self] at hlookup
      cases hlookup
    · rw [lookup_mapDelete_of_ne hkey] at hlookup
      rw [lastStored_append, hafter, if_neg (Ne.symm hkey)]
      exact h.stored other found hlookup
  gone other found hlookup hlast := by
    rw [lastStored_append, hafter] at hlast
    split at hlast
    · cases hlast
    · rename_i hkey
      rw [lookup_mapDelete_of_ne (Ne.symm hkey)] at hlookup
      exact h.gone other found hlookup hlast
  lasting other found hlookup := by
    by_cases hkey : other = key
    · rw [hkey, lookup_mapDelete_self] at hlookup
      cases hlookup
    · rw [lookup_mapDelete_of_ne hkey] at hlookup
      exact h.lasting other found hlookup
  evictions := h.evictions.append hevent

theorem cleared (h : Coherent clock entries log) : Coherent clock [] (log ++ [.cleared]) where
  nodup := .nil
  ordered := .nil
  stored _ _ hlookup := nomatch hlookup
  gone key entry _ hlast := by
    rw [lastStored_append] at hlast
    cases hlast
  lasting _ _ hlookup := nomatch hlookup
  evictions := h.evictions.append fun _ _ heq => nomatch heq

/-- The first entry is the least recently used one. -/
theorem evictLRU {c : LRUCache} (h : Coherent clock c.entries c.log) :
    Coherent clock c.evictLRU.entries c.evictLRU.log := by
  unfold LRUCache.evictLRU
  cases hentries : c.entries with
  | nil =>
    show Coherent clock c.entries c.log
    exact h
  | cons first rest =>
    obtain ⟨first, entry⟩ := first
    rw [hentries] at h
    refine h.removed rfl (fun other stored => rfl) fun key present heq => ?_
    cases heq
    exact h.ordered.leastRecent_head

end Coherent

/-! ## Evictions -/

section Evictions

variable {clock : ℚ} {c : LRUCache} {config : LRUCacheConfig}

theorem length_evictLRU (c : LRUCache) : c.evictLRU.entries.length ≤ c.entries.length - 1 := by
  unfold LRUCache.evictLRU
  cases hentries : c.entries with
  | nil => simp [hentries]
  | cons first rest =>
    show (mapDelete first.1 (first :: rest)).length ≤ rest.length
    rw [mapDelete, List.filter_cons_of_neg (by simp)]
    exact List.length_filter_le _ rest

/-- Within the maximum, or without entries. -/
theorem evictWhile_spec (maxMemoryBytes : ℚ) :
    ∀ (rounds : ℕ) (c : LRUCache), c.entries.length ≤ rounds → Coherent clock c.entries c.log →
      Coherent clock (c.evictWhile maxMemoryBytes rounds).entries
          (c.evictWhile maxMemoryBytes rounds).log ∧
        (c.evictWhile maxMemoryBytes rounds).entries.length ≤ c.entries.length ∧
        ((c.evictWhile maxMemoryBytes rounds).entries = [] ∨
          ((c.evictWhile maxMemoryBytes rounds).getMemoryUsage : ℚ) ≤ maxMemoryBytes) := by
  intro rounds
  induction rounds with
  | zero =>
    intro c hlength h
    exact ⟨h, le_rfl, .inl (List.eq_nil_of_length_eq_zero (Nat.le_zero.1 hlength))⟩
  | succ rounds ih =>
    intro c hlength h
    rw [LRUCache.evictWhile]
    split
    · have hshorter := length_evictLRU c
      obtain ⟨hcoherent, hle, hend⟩ := ih c.evictLRU (by omega) h.evictLRU
      exact ⟨hcoherent, hle.trans (by omega), hend⟩
    · rename_i hstop
      refine ⟨h, le_rfl, ?_⟩
      rw [not_and_or, not_lt, not_lt, Nat.le_zero] at hstop
      exact hstop.symm.imp_left List.eq_nil_of_length_eq_zero

theorem evictBySize_spec (hsensible : config.Sensible) (h : Coherent clock c.entries c.log)
    (hlength : (c.entries.length : ℚ) ≤ config.maxSize + 1) :
    Coherent clock (c.evictBySize config).entries (c.evictBySize config).log ∧
      ((c.evictBySize config).entries.length : ℚ) ≤ config.maxSize := by
  unfold LRUCache.evictBySize
  split
  · rename_i hexceeds
    have hpositive : (0 : ℚ) < c.entries.length := hsensible.maxSize.trans_lt hexceeds
    have hshorter := length_evictLRU c
    have hless : c.evictLRU.entries.length + 1 ≤ c.entries.length := by
      have hcast : 0 < c.entries.length := by exact_mod_cast hpositive
      omega
    have hless' : (c.evictLRU.entries.length : ℚ) + 1 ≤ c.entries.length := by exact_mod_cast hless
    exact ⟨h.evictLRU, by linarith⟩
  · rename_i hfits
    exact ⟨h, not_lt.1 hfits⟩

/-- After the checks the cache is within both limits. -/
theorem evictAfterInsert_spec (hsensible : config.Sensible) (h : Coherent clock c.entries c.log)
    (hlength : (c.entries.length : ℚ) ≤ config.maxSize + 1) :
    Coherent clock (c.evictAfterInsert config).entries (c.evictAfterInsert config).log ∧
      ((c.evictAfterInsert config).entries.length : ℚ) ≤ config.maxSize ∧
      ∀ mb ∈ config.maxMemoryMb,
        ((c.evictAfterInsert config).getMemoryUsage : ℚ) ≤ mb * 1024 * 1024 := by
  obtain ⟨hcoherent, hsize⟩ := evictBySize_spec hsensible h hlength
  unfold LRUCache.evictAfterInsert
  cases hmax : config.maxMemoryMb with
  | none => exact ⟨hcoherent, hsize, nofun⟩
  | some mb =>
    have hmb : 0 < mb := hsensible.maxMemoryMb mb hmax
    rw [Option.filter_some_pos (by simpa using hmb.ne')]
    dsimp only
    split
    · obtain ⟨hevicted, hle, hend⟩ := evictWhile_spec (mb * 1024 * 1024) _ _ le_rfl hcoherent
      refine ⟨hevicted, le_trans (by exact_mod_cast hle) hsize, ?_⟩
      rintro _ ⟨⟩
      rcases hend with hnil | hfits
      · have hzero : (c.evictBySize config |>.evictByMemory mb).getMemoryUsage = 0 := by
          rw [getMemoryUsage_eq, LRUCache.evictByMemory, hnil]
          rfl
        rw [hzero, Nat.cast_zero]
        positivity
      · exact hfits
    · rename_i hfits
      refine ⟨hcoherent, hsize, ?_⟩
      rintro _ ⟨⟩
      exact not_lt.1 hfits

end Evictions

/-! ## Calls -/

/-- The entries are within the limits. -/
structure Within (config : LRUCacheConfig) (entries : List (JsString × CacheEntry)) : Prop where
  size : (entries.length : ℚ) ≤ config.maxSize
  memory : ∀ mb ∈ config.maxMemoryMb, ((entries.map entrySize).sum : ℚ) ≤ mb * 1024 * 1024

structure Inv (config : LRUCacheConfig) (clock : ℚ) (c : LRUCache) : Prop where
  coherent : Coherent clock c.entries c.log
  within : Within config c.entries

section Limits

variable {config : LRUCacheConfig} {entries entries' : List (JsString × CacheEntry)}
  {key : JsString} {entry : CacheEntry}

theorem Within.sublist (h : Within config entries) (hsub : entries'.Sublist entries) :
    Within config entries' where
  size := le_trans (by exact_mod_cast hsub.length_le) h.size
  memory mb hmb := by
    have hle : (entries'.map entrySize).sum ≤ (entries.map entrySize).sum :=
      (hsub.map entrySize).sum_le_sum fun _ _ => Nat.zero_le _
    exact le_trans (by exact_mod_cast hle) (h.memory mb hmb)

theorem Within.perm (h : Within config entries) (hperm : entries'.Perm entries) :
    Within config entries' where
  size := by
    rw [hperm.length_eq]
    exact h.size
  memory mb hmb := by
    rw [(hperm.map entrySize).sum_eq]
    exact h.memory mb hmb

/-- An entry that is used changes its place only. -/
theorem perm_markRecentlyUsed (hnodup : (keys entries).Nodup)
    (hlookup : entries.lookup key = some entry) :
    (markRecentlyUsed key entry entries).Perm entries := by
  rw [markRecentlyUsed_eq]
  induction entries with
  | nil => cases hlookup
  | cons first rest ih =>
    obtain ⟨other, old⟩ := first
    obtain ⟨hnot, hrest⟩ := List.nodup_cons.1 hnodup
    rw [List.lookup_cons] at hlookup
    by_cases hkey : key = other
    · subst hkey
      rw [BEq.rfl] at hlookup
      obtain rfl := Option.some.inj hlookup
      have hnone : rest.lookup key = none := by
        refine List.lookup_eq_none_iff.2 fun other hother => bne_iff_ne.2 fun heq => hnot ?_
        exact List.mem_map.2 ⟨other, hother, heq.symm⟩
      have hdelete : mapDelete key ((key, old) :: rest) = rest := by
        rw [mapDelete, List.filter_cons_of_neg (by simp)]
        exact mapDelete_eq_self hnone
      rw [hdelete]
      exact List.perm_append_singleton _ rest
    · rw [beq_false_of_ne hkey] at hlookup
      have hkeep : mapDelete key ((other, old) :: rest) = (other, old) :: mapDelete key rest := by
        rw [mapDelete, List.filter_cons_of_pos (by simpa using Ne.symm hkey)]
        rfl
      rw [hkeep, List.cons_append]
      exact (ih hrest hlookup).cons _

theorem length_mapDelete (hnodup : (keys entries).Nodup)
    (hlookup : entries.lookup key = some entry) :
    (mapDelete key entries).length + 1 = entries.length := by
  have hlength := (perm_markRecentlyUsed hnodup hlookup).length_eq
  rwa [markRecentlyUsed_eq, List.length_append] at hlength

end Limits

theorem exists_of_isExpired {entry : CacheEntry} {now : ℚ} (h : entry.isExpired now) :
    ∃ time ∈ entry.expiresAt, time < now := by
  obtain ⟨time, htime, hlt⟩ := (Option.any_eq_true _ _).1 h
  exact ⟨time, htime, of_decide_eq_true (Bool.and_eq_true_iff.1 hlt).2⟩

namespace Inv

variable {config : LRUCacheConfig} {clock : ℚ} {c : LRUCache} {key : JsString}

/-- An expired entry is dropped. -/
theorem dropped (h : Inv config clock c)
    (hexpired : ∀ entry, c.entries.lookup key = some entry →
      ∃ time ∈ entry.expiresAt, time < clock) (stats : Stats) :
    Inv config clock ⟨mapDelete key c.entries, stats, c.log⟩ :=
  ⟨h.coherent.dropped hexpired, h.within.sublist List.filter_sublist⟩

theorem get (h : Inv config clock c) (key : JsString) : Inv config clock (c.get clock key).1 := by
  unfold LRUCache.get
  cases hlookup : c.entries.lookup key with
  | none => exact ⟨h.coherent, h.within⟩
  | some entry =>
    dsimp only
    split
    · rename_i hexpired
      refine h.dropped (fun found hfound => ?_) _
      obtain rfl := Option.some.inj (hlookup.symm.trans hfound)
      exact exists_of_isExpired hexpired
    · refine ⟨h.coherent.touched rfl (fun other => ?_) (h.coherent.lasting key entry hlookup) nofun,
        h.within.perm (perm_markRecentlyUsed h.coherent.nodup hlookup)⟩
      show lastStored c.log other = _
      split
      · rename_i hkey
        rw [hkey, h.coherent.stored key entry hlookup]
      · rfl

theorem has (h : Inv config clock c) (key : JsString) : Inv config clock (c.has clock key).1 := by
  unfold LRUCache.has
  cases hlookup : c.entries.lookup key with
  | none => exact h
  | some entry =>
    dsimp only
    split
    · rename_i hexpired
      refine h.dropped (fun found hfound => ?_) _
      obtain rfl := Option.some.inj (hlookup.symm.trans hfound)
      exact exists_of_isExpired hexpired
    · exact h

theorem remove (h : Inv config clock c) (key : JsString) : Inv config clock (c.remove key).1 := by
  unfold LRUCache.remove
  split
  · exact h
  · exact ⟨h.coherent.removed rfl (fun _ _ => rfl) nofun, h.within.sublist List.filter_sublist⟩

theorem clear (h : Inv config clock c) : Inv config clock c.clear :=
  ⟨h.coherent.cleared, h.within.sublist (List.nil_sublist _)⟩

theorem cleanup (h : Inv config clock c) : Inv config clock (c.cleanup clock) := by
  have hfold : ∀ (expiredKeys : List JsString) (entries : List (JsString × CacheEntry)),
      (∀ key ∈ expiredKeys, ∀ entry, (key, entry) ∈ entries → entry.isExpired clock) →
      Coherent clock entries c.log → Within config entries →
      Coherent clock (expiredKeys.foldl (fun entries key => mapDelete key entries) entries) c.log ∧
        Within config (expiredKeys.foldl (fun entries key => mapDelete key entries) entries) := by
    intro expiredKeys
    induction expiredKeys with
    | nil => exact fun entries _ hcoherent hwithin => ⟨hcoherent, hwithin⟩
    | cons key expiredKeys ih =>
      intro entries hexpired hcoherent hwithin
      refine ih (mapDelete key entries) (fun other hother entry hmem => ?_)
        (hcoherent.dropped fun entry hlookup => ?_) (hwithin.sublist List.filter_sublist)
      · exact hexpired other (List.mem_cons_of_mem _ hother) entry (List.mem_of_mem_filter hmem)
      · exact exists_of_isExpired
          (hexpired key List.mem_cons_self entry (mem_of_lookup_eq_some hlookup))
  suffices hexpired : ∀ key ∈ (c.entries.filter fun entry => entry.2.isExpired clock).map Prod.fst,
      ∀ entry, (key, entry) ∈ c.entries → entry.isExpired clock by
    obtain ⟨hcoherent, hwithin⟩ := hfold _ c.entries hexpired h.coherent h.within
    exact ⟨hcoherent, hwithin⟩
  intro key hkey entry hmem
  obtain ⟨found, hfound, rfl⟩ := List.mem_map.1 hkey
  obtain ⟨hfound, hexpired⟩ := List.mem_filter.1 hfound
  have heq : (found.1, entry) = found :=
    List.inj_on_of_nodup_map h.coherent.nodup hmem hfound rfl
  rw [← heq] at hexpired
  exact hexpired

/-- A new entry evicts others until the cache is within the limits. -/
theorem setNew (hsensible : config.Sensible) (h : Inv config clock c) {value : JsValue}
    {expiresAt : Option ℚ} (hlasting : expiresAt ≠ some 0) (hnew : c.entries.lookup key = none)
    {c' : LRUCache} (hentries : c'.entries = setField key ⟨value, expiresAt⟩ c.entries)
    (hlog : c'.log = c.log ++ [.stored key value expiresAt]) :
    Inv config clock (c'.evictAfterInsert config) := by
  have hput : Coherent clock c'.entries c'.log := by
    rw [hentries, hlog, setField_eq_markRecentlyUsed hnew]
    refine h.coherent.touched rfl (fun other => ?_) hlasting nofun
    simp only [Event.after, eq_comm]
  have hlength : (c'.entries.length : ℚ) ≤ config.maxSize + 1 := by
    have hone : c'.entries.length = c.entries.length + 1 := by
      rw [hentries, setField_of_lookup_eq_none hnew, List.length_append, List.length_singleton]
    have hsize := h.within.size
    rw [hone, Nat.cast_add, Nat.cast_one]
    linarith
  obtain ⟨hcoherent, hsize, hmemory⟩ := evictAfterInsert_spec hsensible hput hlength
  refine ⟨hcoherent, hsize, fun mb hmb => ?_⟩
  rw [← getMemoryUsage_eq]
  exact hmemory mb hmb

/-- An entry that is overwritten evicts nothing. -/
theorem setOld (h : Inv config clock c) {old : CacheEntry} {value : JsValue} {expiresAt : Option ℚ}
    (hlasting : expiresAt ≠ some 0) (hold : c.entries.lookup key = some old)
    (hfits : ∀ mb ∈ config.maxMemoryMb, (estimateWith key value c : ℚ) ≤ mb * 1024 * 1024)
    (stats : Stats) :
    Inv config clock ⟨markRecentlyUsed key ⟨value, expiresAt⟩ c.entries, stats,
      c.log ++ [.stored key value expiresAt]⟩ where
  coherent := by
    refine h.coherent.touched rfl (fun other => ?_) hlasting nofun
    simp only [Event.after, eq_comm]
  within := {
    size := by
      have hlength := length_mapDelete h.coherent.nodup hold
      rw [markRecentlyUsed_eq, List.length_append, List.length_singleton, hlength]
      exact h.within.size
    memory := fun mb hmb => by
      have hsum : ((markRecentlyUsed key ⟨value, expiresAt⟩ c.entries).map entrySize).sum =
          estimateWith key value c := by
        rw [markRecentlyUsed_eq, List.map_append, List.sum_append, List.map_singleton,
          List.sum_singleton]
        rfl
      rw [hsum]
      exact hfits mb hmb }

/-- **The step lemma.** -/
theorem apply (hsensible : config.Sensible) (h : Inv config clock c) (op : Op)
    (hfits : op.Fits config clock c) : Inv config clock (op.apply config clock c) := by
  cases op with
  | get key => exact h.get key
  | delete key => exact h.remove key
  | has key => exact h.has key
  | clear => exact h.clear
  | cleanup => exact h.cleanup
  | set key value ttlSeconds =>
    obtain ⟨hoverwrites, hlasting⟩ := hfits
    show Inv config clock (c.set config clock key value ttlSeconds)
    unfold LRUCache.set
    dsimp only
    cases hlookup : c.entries.lookup key with
    | none =>
      have hset : Inv config clock (LRUCache.evictAfterInsert config
          { c with
            entries := setField key ⟨value, LRUCache.expiry config clock ttlSeconds⟩ c.entries
            log := c.log ++
              [.stored key value (LRUCache.expiry config clock ttlSeconds)] }) :=
        h.setNew hsensible hlasting hlookup rfl rfl
      exact ⟨hset.coherent, hset.within⟩
    | some old =>
      have hset := h.setOld hlasting hlookup (hoverwrites (by rw [hlookup]; rfl)) c.stats
      exact ⟨hset.coherent, hset.within⟩

end Inv

/-! ## Runs -/

/-- What `get` answers is what the log says. -/
theorem get_eq_live {clock now : ℚ} {c : LRUCache} (h : Coherent clock c.entries c.log)
    (hle : clock ≤ now) (key : JsString) :
    (c.get now key).2 = (live c.log now key).getD .null := by
  unfold LRUCache.get live
  cases hlookup : c.entries.lookup key with
  | none =>
    cases hlast : lastStored c.log key with
    | none => rfl
    | some entry =>
      obtain ⟨time, htime, hlt⟩ := h.gone key entry hlookup hlast
      have hpast : entry.expiresAt.all (now ≤ ·) = false := by
        rw [htime]
        simpa using hlt.trans_le hle
      rw [Option.filter_some_neg (by simpa using hpast)]
      rfl
  | some entry =>
    rw [h.stored key entry hlookup]
    have hlasting := h.lasting key entry hlookup
    have hexpired : entry.isExpired now = !entry.expiresAt.all (now ≤ ·) := by
      unfold CacheEntry.isExpired
      cases htime : entry.expiresAt with
      | none => rfl
      | some time =>
        have hne : time ≠ 0 := fun hzero => hlasting (by rw [htime, hzero])
        rw [Option.any_some, Option.all_some, Bool.eq_iff_iff]
        simp [hne]
    dsimp only
    rw [hexpired]
    cases hall : entry.expiresAt.all (now ≤ ·) with
    | false =>
      rw [Option.filter_some_neg (by simpa using hall)]
      rfl
    | true =>
      rw [Option.filter_some_pos (by exact hall)]
      rfl

theorem Inv.sound {config : LRUCacheConfig} {w : World} (h : Inv config w.clock w.cache) :
    Sound config w where
  size := h.within.size
  memory mb hmb := by
    rw [getMemoryUsage_eq]
    exact h.within.memory mb hmb
  tracked := getMemoryUsage_eq w.cache
  evictions := h.coherent.evictions
  answers now key hle := get_eq_live h.coherent hle key

def World.Kept (config : LRUCacheConfig) (w : World) : Prop := Inv config w.clock w.cache

/-- A call that meets the condition. -/
def FittingCall (config : LRUCacheConfig) (w : World) (call : ℚ × Op) (w' : World) : Prop :=
  Call config w call w' ∧ call.2.Fits config call.1 w.cache

/-- **The LRU cache.** Where the limits are sensible and no overwriting value brings the estimate over
the maximum, the cache is within its limits after every sequence of calls, each eviction has taken the
least recently used entry, and `get` answers with the last value set that has neither expired nor been
deleted nor evicted. -/
theorem lruCache_sound (config : LRUCacheConfig) (hsensible : config.Sensible) (clock : ℚ)
    {calls : List (ℚ × Op)} {w : World}
    (hrun : Run (FittingCall config) ⟨clock, .start⟩ calls w) : Sound config w := by
  have hstart : Inv config clock .start :=
    ⟨.start clock, by simpa [LRUCache.start] using hsensible.maxSize, fun mb hmb => by
      have hmb := hsensible.maxMemoryMb mb hmb
      simp only [LRUCache.start, List.map_nil, List.sum_nil, Nat.cast_zero]
      positivity⟩
  have hstep : ∀ (w : World) (call : ℚ × Op) (w' : World), True → FittingCall config w call w' →
      w.Kept config → w'.Kept config := by
    rintro w call w' - ⟨⟨hle, rfl⟩, hfits⟩ h
    exact Inv.apply hsensible ⟨h.coherent.later hle, h.within⟩ call.2 hfits
  have hkept : w.Kept config := hrun.invariant hstep (fun _ _ => trivial) hstart
  exact Inv.sound hkept

/-- Room for about a hundred bytes. -/
def smallConfig : LRUCacheConfig := ⟨10, none, some (1 / 10000)⟩

theorem sensible_smallConfig : smallConfig.Sensible where
  maxSize := by decide +kernel
  maxMemoryMb := by
    rintro _ ⟨⟩
    decide +kernel

/-- A cache with an empty text under a key. -/
def smallCache : LRUCache := LRUCache.start.set smallConfig 0 (js "k") (.str []) none

theorem run_smallCache : Run (FittingCall smallConfig) ⟨0, .start⟩
    [(0, .set (js "k") (.str []) none)] ⟨0, smallCache⟩ :=
  .head ⟨⟨le_rfl, rfl⟩, And.intro (fun h => nomatch h) fun h => nomatch h⟩ (.refl _)

theorem lruCache_sound_smallCache : Sound smallConfig ⟨0, smallCache⟩ :=
  lruCache_sound smallConfig sensible_smallConfig 0 run_smallCache

/-- The text of forty letters in the place of the empty one. -/
def overwritten : LRUCache := smallCache.set smallConfig 0 (js "k") (.str (List.replicate 40 97)) none

/-- A value that overwrites a shorter one brings the estimate over the maximum. -/
theorem not_lruCache_sound :
    ¬ ∀ (config : LRUCacheConfig) (clock : ℚ) (calls : List (ℚ × Op)) (w : World),
      config.Sensible → Run (Call config) ⟨clock, .start⟩ calls w → Sound config w := by
  intro h
  have hrun : Run (Call smallConfig) ⟨0, .start⟩ [(0, .set (js "k") (.str []) none),
      (0, .set (js "k") (.str (List.replicate 40 97)) none)] ⟨0, overwritten⟩ :=
    .head ⟨le_rfl, rfl⟩ (.head ⟨le_rfl, rfl⟩ (.refl _))
  have hmemory := (h smallConfig 0 _ _ sensible_smallConfig hrun).memory (1 / 10000) rfl
  exact absurd hmemory (by decide +kernel)

end Kinglet.Storage.Lru
