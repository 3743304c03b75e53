import Kinglet.Js.DateOrder
import Kinglet.Memorystore.Backups
import Mathlib.Data.List.Nodup

/-!
# The aggregates of a backup collection

A collection is right, or some call has still to write its aggregates: a create or a delete of one of
its backups owes them from its own write to that of the aggregates. The last such write is right when
no backup came or went since its read; before that any may be wrong.
-/

namespace Kinglet.Memorystore.Backups

open Js Library Storage

/-! ## What the aggregates are -/

/-- The number of the backups, the sum of their sizes and the time of the latest. -/
def aggregates (backups : List BackupRecord) : BackupStats where
  totalBackupCount := backups.length
  totalBackupSizeBytes := bigIntText (backups.map fun backup => backup.totalSizeBytes.value).sum
  lastBackupTime := (backups.map (·.createdAt)).max?.map toISOString

def StatsRight (store : BackupStore) : Prop :=
  ∀ collection ∈ store.collections, collection.stats = aggregates (store.backupsOf collection.name)

/-- The times whose ISO texts have years of four digits. -/
def InRange (time : ℤ) : Prop := yearZero ≤ time ∧ time < year10000

instance (time : ℤ) : Decidable (InRange time) := inferInstanceAs (Decidable (_ ∧ _))

theorem foldl_size (backups : List BackupRecord) (total : ℤ) :
    backups.foldl (fun total backup => total + backup.totalSizeBytes.value) total =
      total + (backups.map fun backup => backup.totalSizeBytes.value).sum := by
  induction backups generalizing total with
  | nil => simp
  | cons backup backups ih =>
    rw [List.foldl_cons, ih, List.map_cons, List.sum_cons]
    omega

/-- The later of two texts is that of the later time. -/
theorem latestTime_some {latest : ℤ} (hlatest : InRange latest) {backup : BackupRecord}
    (hbackup : InRange backup.createdAt) :
    latestTime (some (toISOString latest)) backup =
      some (toISOString (max latest backup.createdAt)) := by
  have horder : toISOString backup.createdAt ≤ toISOString latest ↔ backup.createdAt ≤ latest := by
    rw [toISOString_le_iff hlatest.1 hlatest.2]
    exact ⟨fun h => h.resolve_right (by have := hbackup.2; omega), .inl⟩
  dsimp only [latestTime]
  by_cases h : backup.createdAt ≤ latest
  · rw [if_neg (horder.2 h), max_eq_left h]
  · have hlt : toISOString latest < toISOString backup.createdAt :=
      toISOString_lt hlatest.1 (by omega) hbackup.2
    rw [if_pos hlt, max_eq_right (by omega)]

theorem foldl_latestTime {backups : List BackupRecord} {latest : ℤ} (hlatest : InRange latest)
    (hbackups : ∀ backup ∈ backups, InRange backup.createdAt) :
    backups.foldl latestTime (some (toISOString latest)) =
      some (toISOString ((backups.map (·.createdAt)).foldl max latest)) := by
  induction backups generalizing latest with
  | nil => rfl
  | cons backup backups ih =>
    obtain ⟨hbackup, hrest⟩ := List.forall_mem_cons.1 hbackups
    rw [List.foldl_cons, latestTime_some hlatest hbackup, List.map_cons, List.foldl_cons]
    refine ih ?_ hrest
    rcases max_choice latest backup.createdAt with h | h <;> rwa [h]

theorem statsOf_eq {backups : List BackupRecord}
    (h : ∀ backup ∈ backups, InRange backup.createdAt) : statsOf backups = aggregates backups := by
  have hsize := foldl_size backups 0
  rw [zero_add] at hsize
  have htime : backups.foldl latestTime none = (backups.map (·.createdAt)).max?.map toISOString := by
    cases backups with
    | nil => rfl
    | cons backup backups =>
      obtain ⟨hbackup, hrest⟩ := List.forall_mem_cons.1 h
      rw [List.foldl_cons, List.map_cons, List.max?_cons', Option.map_some]
      exact foldl_latestTime hbackup hrest
  rw [statsOf, aggregates, hsize, htime]

/-! ## Orderly writes -/

/-- The collection whose aggregates a call has still to write. -/
def refreshes : BackupCall → Option JsString
  | .findCollection name _ | .readBackups _ name _ | .updateStats _ name _ _ => some name
  | _ => none

/-- A backup is created at a time whose year has four digits, and aggregates are written that are right,
or before another call writes them. -/
def Orderly (store : BackupStore) (others : List BackupCall) (now : ℤ) : BackupCall → Bool
  | .insertBackup _ => InRange now
  | .updateStats _ name stats _ =>
      stats = statsOf (store.backupsOf name) || others.any fun other => refreshes other = some name
  | _ => true

def KeepsStats (pool : Pool BackupStore BackupCall BackupOutcome) :
    Move BackupRequest ℤ → Prop
  | .start _ => True
  | .resume index now => ∀ call ∈ pool.calls[index]?,
      Orderly pool.shared (pool.calls.eraseIdx index) now call = true

/-! ## The invariant -/

structure Kept (store : BackupStore) : Prop where
  ids : store.backups.Pairwise fun backup other => backup.id ≠ other.id
  fresh : ∀ backup ∈ store.backups, backup.id < store.nextId
  times : ∀ backup ∈ store.backups, InRange backup.createdAt
  collections : store.collections.Pairwise fun collection other =>
    collection.id ≠ other.id ∧ collection.name ≠ other.name

/-- A collection that a call has found. -/
def Found (store : BackupStore) (id : ℕ) (name : JsString) : Prop :=
  ∃ collection ∈ store.collections, collection.id = id ∧ collection.name = name

def Local (store : BackupStore) : BackupCall → Prop
  | .deleteById id backupCollection => id < store.nextId ∧
      ∀ backup ∈ store.backups, backup.id = id → backup.backupCollection = backupCollection
  | .readBackups id name _ | .updateStats id name _ _ => Found store id name
  | _ => True

def Settled (store : BackupStore) (name : JsString) : Prop :=
  ∀ collection ∈ store.collections, collection.name = name →
    collection.stats = statsOf (store.backupsOf name)

def outline : Outline BackupStore BackupCall BackupOutcome where
  Inv store _ := Kept store
  Local := Local
  Pair _ _ := True
  symm := id

def custody : Custody BackupStore BackupCall JsString where
  Present _ _ := True
  Settled := Settled
  Holds call name := refreshes call = some name

section operations

variable {store : BackupStore} {name : JsString} {id : ℕ} {data : BackupData} {now : ℤ}
  {stats : BackupStats}

theorem Kept.insertBackup (h : Kept store) (hnow : InRange now) : Kept (store.insertBackup data now) := by
  refine ⟨?_, fun backup hbackup => ?_, fun backup hbackup => ?_, h.collections⟩
  · refine List.pairwise_append.2 ⟨h.ids, List.pairwise_singleton _ _, fun backup hbackup new hnew => ?_⟩
    obtain rfl := List.mem_singleton.1 hnew
    exact Nat.ne_of_lt (h.fresh backup hbackup)
  · rcases List.mem_append.1 hbackup with hbackup | hbackup
    · exact Nat.lt_succ_of_lt (h.fresh backup hbackup)
    · obtain rfl := List.mem_singleton.1 hbackup
      exact Nat.lt_succ_self _
  · rcases List.mem_append.1 hbackup with hbackup | hbackup
    · exact h.times backup hbackup
    · obtain rfl := List.mem_singleton.1 hbackup
      exact hnow

theorem Kept.deleteById (h : Kept store) (id : ℕ) : Kept (store.deleteById id) :=
  ⟨h.ids.sublist List.filter_sublist, fun backup hbackup => h.fresh backup (List.mem_filter.1 hbackup).1,
    fun backup hbackup => h.times backup (List.mem_filter.1 hbackup).1, h.collections⟩

theorem Kept.updateStats (h : Kept store) (id : ℕ) (stats : BackupStats) :
    Kept (store.updateStats id stats) := by
  refine ⟨h.ids, h.fresh, h.times, List.pairwise_map.2 (h.collections.imp fun hne => ?_)⟩
  split <;> split <;> exact hne

/-- The backups of the other collections stay. -/
theorem backupsOf_insertBackup (hname : data.backupCollection ≠ name) :
    (store.insertBackup data now).backupsOf name = store.backupsOf name := by
  change (store.backups ++ [_]).filter _ = _
  rw [List.filter_append, List.filter_singleton, decide_eq_false hname]
  exact List.append_nil _

theorem backupsOf_deleteById {backupCollection : JsString}
    (hfound : ∀ backup ∈ store.backups, backup.id = id → backup.backupCollection = backupCollection)
    (hname : backupCollection ≠ name) :
    (store.deleteById id).backupsOf name = store.backupsOf name := by
  change (store.backups.filter _).filter _ = _
  rw [List.filter_filter]
  refine List.filter_congr fun backup hbackup => ?_
  by_cases hid : backup.id = id
  · have hother : backup.backupCollection ≠ name := hfound backup hbackup hid ▸ hname
    simp [hother]
  · simp [hid]

theorem Found.updateStats {other : ℕ} (h : Found store other name) :
    Found (store.updateStats id stats) other name := by
  obtain ⟨collection, hcollection, hid, hname⟩ := h
  refine ⟨_, List.mem_map_of_mem hcollection, ?_, ?_⟩ <;> split <;> assumption

theorem Kept.eq_of_name (h : Kept store) {collection other : BackupCollectionRecord}
    (hcollection : collection ∈ store.collections) (hother : other ∈ store.collections)
    (hname : collection.name = other.name) : collection = other :=
  List.inj_on_of_nodup_map (List.pairwise_map.2 (h.collections.imp And.right)) hcollection hother hname

theorem Kept.eq_of_id (h : Kept store) {collection other : BackupCollectionRecord}
    (hcollection : collection ∈ store.collections) (hother : other ∈ store.collections)
    (hid : collection.id = other.id) : collection = other :=
  List.inj_on_of_nodup_map (List.pairwise_map.2 (h.collections.imp And.left)) hcollection hother hid

theorem Settled.updateStats (h : Kept store) (hfound : Found store id name)
    (hstats : stats = statsOf (store.backupsOf name)) :
    Settled (store.updateStats id stats) name := by
  intro collection hcollection hname
  obtain ⟨before, hbefore, rfl⟩ := List.mem_map.1 hcollection
  obtain ⟨found, hmem, rfl, rfl⟩ := hfound
  by_cases hid : before.id = found.id
  · rw [if_pos hid]
    exact hstats
  · rw [if_neg hid] at hname
    exact absurd (congrArg _ (h.eq_of_name hbefore hmem hname)) hid

theorem Settled.updateStats_of_ne (h : Kept store) (hfound : Found store id name) {other : JsString}
    (hne : other ≠ name) (hsettled : Settled store other) :
    Settled (store.updateStats id stats) other := by
  intro collection hcollection hname
  obtain ⟨before, hbefore, rfl⟩ := List.mem_map.1 hcollection
  obtain ⟨found, hmem, rfl, rfl⟩ := hfound
  by_cases hid : before.id = found.id
  · obtain rfl := h.eq_of_id hbefore hmem hid
    rw [if_pos hid] at hname
    exact absurd hname.symm hne
  · rw [if_neg hid] at hname ⊢
    exact hsettled before hbefore hname

end operations

/-! ## Segments -/

section segments

variable {provider : Provider} {store : BackupStore} {others : List BackupCall} {call : BackupCall}
  {now : ℤ}

theorem Kept.segment (h : Kept store) (horderly : Orderly store others now call = true) :
    Kept (backupSegment provider store call now).1 := by
  cases call with
  | request request =>
    cases request
    all_goals
      dsimp only [backupSegment]
      split <;> exact h
  | insertBackup data =>
    dsimp only [backupSegment]
    split
    · exact h
    · exact h.insertBackup (of_decide_eq_true horderly)
  | deleteById id backupCollection => exact h.deleteById id
  | findCollection name outcome =>
    dsimp only [backupSegment]
    split <;> exact h
  | readBackups id name outcome => exact h
  | updateStats id name stats outcome => exact h.updateStats id stats

theorem local_segment (h : Kept store) (hlocal : Local store call) :
    ∀ rest ∈ (backupSegment provider store call now).2.calls,
      Local (backupSegment provider store call now).1 rest := by
  intro rest hrest
  cases call with
  | request request =>
    cases request with
    | create data =>
      dsimp only [backupSegment] at hrest
      split at hrest
      · cases hrest
      · obtain rfl := List.mem_singleton.1 hrest
        trivial
    | delete name =>
      dsimp only [backupSegment] at hrest ⊢
      cases hfound : store.getBackupByName name with
      | none =>
        rw [hfound] at hrest
        cases hrest
      | some existing =>
        rw [hfound] at hrest
        obtain rfl := List.mem_singleton.1 hrest
        have hmem := List.mem_of_find?_eq_some hfound
        refine ⟨h.fresh existing hmem, fun backup hbackup hid => ?_⟩
        rw [List.inj_on_of_nodup_map (List.pairwise_map.2 h.ids) hbackup hmem hid]
  | insertBackup data =>
    dsimp only [backupSegment] at hrest
    split at hrest
    · cases hrest
    · obtain rfl := List.mem_singleton.1 hrest
      trivial
  | deleteById id backupCollection =>
    obtain rfl := List.mem_singleton.1 hrest
    trivial
  | findCollection name outcome =>
    dsimp only [backupSegment] at hrest ⊢
    cases hfound : store.getBackupCollectionByName name with
    | none =>
      rw [hfound] at hrest
      cases hrest
    | some collection =>
      rw [hfound] at hrest
      obtain rfl := List.mem_singleton.1 hrest
      exact ⟨collection, List.mem_of_find?_eq_some hfound, rfl, by simpa using List.find?_some hfound⟩
  | readBackups id name outcome =>
    obtain rfl := List.mem_singleton.1 hrest
    exact hlocal
  | updateStats id name stats outcome => cases hrest

theorem local_of_other {other : BackupCall} (hother : Local store other) :
    Local (backupSegment provider store call now).1 other := by
  have hinsert (data : BackupData) : Local (store.insertBackup data now) other := by
    cases other with
    | deleteById id backupCollection =>
      refine ⟨Nat.lt_succ_of_lt hother.1, fun backup hbackup hid => ?_⟩
      rcases List.mem_append.1 hbackup with hbackup | hbackup
      · exact hother.2 backup hbackup hid
      · obtain rfl := List.mem_singleton.1 hbackup
        exact absurd hid (Nat.ne_of_gt hother.1)
    | request | insertBackup | findCollection | readBackups | updateStats => exact hother
  cases call with
  | request request =>
    cases request
    all_goals
      dsimp only [backupSegment]
      split <;> exact hother
  | insertBackup data =>
    dsimp only [backupSegment]
    split
    · exact hother
    · exact hinsert data
  | deleteById id backupCollection =>
    cases other with
    | deleteById id' backupCollection' =>
      exact ⟨hother.1, fun backup hbackup => hother.2 backup (List.mem_filter.1 hbackup).1⟩
    | request | insertBackup | findCollection | readBackups | updateStats => exact hother
  | findCollection name outcome =>
    dsimp only [backupSegment]
    split <;> exact hother
  | readBackups id name outcome => exact hother
  | updateStats id name stats outcome =>
    cases other with
    | readBackups | updateStats => exact Found.updateStats hother
    | deleteById | request | insertBackup | findCollection => exact hother

theorem passes (h : Kept store) (hlocal : Local store call)
    (horderly : Orderly store others now call = true) :
    custody.PassesBeside store others call (backupSegment provider store call now) := by
  intro item _
  -- A segment that leaves the collection and its backups as they are.
  have hsame {store' : BackupStore} {progress : Progress BackupCall BackupOutcome}
      (hsettled : Settled store item → Settled store' item) (hholds : refreshes call ≠ some item) :
      Settled store' item ∨ (∃ rest ∈ progress.calls ++ others, refreshes rest = some item) ∨
        True ∧ ¬Settled store item ∧ ¬refreshes call = some item := by
    by_cases hbefore : Settled store item
    · exact .inl (hsettled hbefore)
    · exact .inr (.inr ⟨trivial, hbefore, hholds⟩)
  cases call with
  | request request =>
    cases request
    all_goals
      dsimp only [backupSegment]
      split <;> exact hsame id nofun
  | insertBackup data =>
    dsimp only [backupSegment]
    split
    · exact hsame id nofun
    · by_cases hname : data.backupCollection = item
      · exact .inr (.inl ⟨_, List.mem_append_left _ (List.mem_singleton_self _), congrArg some hname⟩)
      · refine hsame (fun hsettled collection hcollection hcollectionName => ?_) nofun
        rw [backupsOf_insertBackup hname]
        exact hsettled collection hcollection hcollectionName
  | deleteById id backupCollection =>
    by_cases hname : backupCollection = item
    · exact .inr (.inl ⟨_, List.mem_append_left _ (List.mem_singleton_self _), congrArg some hname⟩)
    · refine hsame (fun hsettled collection hcollection hcollectionName => ?_) nofun
      change collection.stats = statsOf ((store.deleteById id).backupsOf item)
      rw [backupsOf_deleteById hlocal.2 hname]
      exact hsettled collection hcollection hcollectionName
  | findCollection name outcome =>
    by_cases hname : name = item
    · subst hname
      dsimp only [backupSegment]
      split
      · next hnone =>
          refine .inl fun collection hcollection hcollectionName => ?_
          exact absurd hcollectionName (by simpa using List.find?_eq_none.1 hnone collection hcollection)
      · exact .inr (.inl ⟨_, List.mem_append_left _ (List.mem_singleton_self _), rfl⟩)
    · dsimp only [backupSegment]
      split <;> exact hsame id fun heq => hname (Option.some.inj heq)
  | readBackups id name outcome =>
    by_cases hname : name = item
    · exact .inr (.inl ⟨_, List.mem_append_left _ (List.mem_singleton_self _), congrArg some hname⟩)
    · exact hsame (fun hsettled => hsettled) fun heq => hname (Option.some.inj heq)
  | updateStats id name stats outcome =>
    by_cases hname : name = item
    · subst hname
      simp only [Orderly, Bool.or_eq_true, decide_eq_true_eq, List.any_eq_true] at horderly
      rcases horderly with hright | ⟨other, hother, hrefreshes⟩
      · exact .inl (Settled.updateStats h hlocal hright)
      · exact .inr (.inl ⟨other, List.mem_append_right _ hother, hrefreshes⟩)
    · exact hsame (Settled.updateStats_of_ne h hlocal (Ne.symm hname))
        fun heq => hname (Option.some.inj heq)

end segments

/-! ## Every run -/

section runs

variable {provider : Provider} {store : BackupStore} {moves : List (Move BackupRequest ℤ)}
  {pool : Pool BackupStore BackupCall BackupOutcome}

theorem begins : Outline.Begins (backupRepository provider) outline KeepsStats :=
  fun _ _ _ _ => ⟨trivial, fun _ _ => trivial⟩

theorem segments : Outline.Segments (backupRepository provider) outline KeepsStats := by
  intro pool i now call hpool hallowed hcall
  have hinv : Kept pool.shared := hpool.inv
  have hlocal := hpool.each call (List.mem_of_getElem? hcall)
  refine ⟨.of_calls (fun _ => hinv.segment (hallowed call hcall)) (local_segment hinv hlocal)
    (List.pairwise_of_forall fun _ _ => trivial), fun other hother => .of ?_ fun _ _ => trivial⟩
  exact local_of_other (hpool.each other (List.mem_of_mem_eraseIdx hother))

theorem custody_segments :
    Custody.SegmentsBeside (backupRepository provider) outline custody KeepsStats := by
  intro pool i now call hpool hallowed hcall
  exact passes hpool.inv (hpool.each call (List.mem_of_getElem? hcall)) (hallowed call hcall)

/-- In a run whose writes are all in order, a collection is right that no call refreshes. -/
theorem stats_of_run (hkept : Kept store) (hright : StatsRight store)
    (h : Run ((backupRepository provider).Step KeepsStats) ⟨store, [], []⟩ moves pool)
    {collection : BackupCollectionRecord} (hcollection : collection ∈ pool.shared.collections)
    (hdone : ∀ call ∈ pool.calls, refreshes call ≠ some collection.name) :
    collection.stats = aggregates (pool.shared.backupsOf collection.name) := by
  have hholds : outline.Holds (⟨store, [], []⟩ : Pool BackupStore BackupCall BackupOutcome) :=
    .start hkept
  have htimes (store : BackupStore) (hkept : Kept store) (name : JsString) :
      statsOf (store.backupsOf name) = aggregates (store.backupsOf name) :=
    statsOf_eq fun backup hbackup => hkept.times backup (List.mem_filter.1 hbackup).1
  have hcovers : custody.Covers (⟨store, [], []⟩ : Pool BackupStore BackupCall BackupOutcome) := by
    intro name _
    refine .inl fun collection hcollection hname => ?_
    change collection.stats = statsOf (store.backupsOf name)
    rw [htimes store hkept, ← hname]
    exact hright collection hcollection
  obtain ⟨hholds', hcovers'⟩ := hcovers.of_run_beside begins segments custody_segments h hholds
  rcases hcovers' collection.name trivial with hsettled | ⟨call, hcall, hrefreshes⟩
  · rw [← htimes pool.shared hholds'.inv]
    exact hsettled collection hcollection rfl
  · exact absurd hrefreshes (hdone call hcall)

instance (pool : Pool BackupStore BackupCall BackupOutcome) :
    (move : Move BackupRequest ℤ) → Decidable (KeepsStats pool move)
  | .start _ => .isTrue trivial
  | .resume index _ => inferInstanceAs (Decidable (∀ call ∈ pool.calls[index]?, _))

/-- Two collections without backups. -/
def sampleStore : BackupStore where
  collections := [⟨0, "c", ⟨0, "0", none⟩⟩, ⟨1, "d", ⟨0, "0", none⟩⟩]
  backups := []
  nextId := 0

def sampleBackup (name : JsString) : BackupData := ⟨name, "c", ⟨"9223372036854775807", 2 ^ 63 - 1, by decide +kernel⟩⟩

/-- The segments of the calls at some indices, at 1970-01-01. -/
def resumes (indices : List ℕ) : List (Move BackupRequest ℤ) :=
  indices.map fun index => .resume index 0

/-- The call that read first writes first. -/
def createsInOrder : List (Move BackupRequest ℤ) :=
  .start (.create (sampleBackup "a")) :: .start (.create (sampleBackup "b")) ::
    resumes [0, 0, 0, 0, 1, 1, 1, 0, 0, 0]

/-- The call that read first writes last. -/
def createsOvertaken : List (Move BackupRequest ℤ) :=
  .start (.create (sampleBackup "a")) :: .start (.create (sampleBackup "b")) ::
    resumes [0, 0, 0, 0, 1, 1, 1, 1, 1, 0]

end runs

end Kinglet.Memorystore.Backups
