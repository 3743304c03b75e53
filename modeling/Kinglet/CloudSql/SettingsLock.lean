import Kinglet.CloudSql.AdminService
import Kinglet.Library.Outcome
import Mathlib.Data.List.Nodup

/-!
# The optimistic lock on the settings

An update compares the version that its caller presents with a copy of the row, and writes two awaits
later. As long as it writes over the version it has compared, the updates of an instance are written
one version after the other, each once, and the settings are those of all of them in this order. An
update that overtakes another in between makes both succeed and loses one of them.
-/

namespace Kinglet.CloudSql

open Js Library

variable {store : AdminStore} {call other : Call} {outside : Outside}

/-! ## Conditions on the moves -/

/-- Only updates and patches are called. -/
def Updates (_ : Pool AdminStore Call Outcome) : Move Request Outside → Prop
  | .start (.updateInstance _ _) | .start (.patchInstance _ _) | .resume _ _ => True
  | .start _ => False

/-- An update is written over the version that it was checked against. -/
def Fresh (store : AdminStore) : Call → Prop
  | .writingSettings id update => update.version < 2 ^ 53 ∧
      ∀ record ∈ store.instances, record.id = id → record.settingsVersion = update.version
  | _ => True

/-- Only updates and patches are called, and none overtakes another. -/
def FreshUpdates (pool : Pool AdminStore Call Outcome) : Move Request Outside → Prop
  | .start (.updateInstance _ _) | .start (.patchInstance _ _) => True
  | .start _ => False
  | .resume index _ => ∀ call ∈ pool.calls[index]?, Fresh pool.shared call

instance (store : AdminStore) : DecidablePred (Fresh store)
  | .writingSettings id update => inferInstanceAs (Decidable (update.version < 2 ^ 53 ∧
      ∀ record ∈ store.instances, record.id = id → record.settingsVersion = update.version))
  | .requested _ | .guardingInstance _ | .insertingInstance _ | .starting _ _ | .dropping _ _
  | .findingInstance _ _ | .deletingDatabases _ _ _ | .deletingUsers _ _ _ | .deletingInstance _ _ _
  | .listingDatabases _ | .restarting _ | .findingSettings _ | .checkingDatabase _
  | .guardingDatabase _ _ | .insertingDatabase _ _ | .openingDatabase _ | .findingDatabase _ _
  | .removingDatabase _ _ _ | .checkingUser _ | .guardingUser _ _ | .insertingUser _ _
  | .recording _ => isTrue trivial

instance (pool : Pool AdminStore Call Outcome) : DecidablePred (Updates pool)
  | .start (.updateInstance _ _) | .start (.patchInstance _ _) | .resume _ _ => isTrue trivial
  | .start (.createInstance _ _) | .start (.deleteInstance _) | .start (.restartInstance _)
  | .start (.createDatabase _ _) | .start (.createUser _ _) => isFalse id

instance (pool : Pool AdminStore Call Outcome) : DecidablePred (FreshUpdates pool)
  | .start (.updateInstance _ _) | .start (.patchInstance _ _) => isTrue trivial
  | .start (.createInstance _ _) | .start (.deleteInstance _) | .start (.restartInstance _)
  | .start (.createDatabase _ _) | .start (.createUser _ _) => isFalse id
  | .resume index _ => inferInstanceAs (Decidable (∀ call ∈ pool.calls[index]?, Fresh pool.shared call))

/-! ## What the lock keeps -/

/-- The updates of an instance that were written. -/
def AdminStore.updatesOf (store : AdminStore) (id : ℕ) : List SettingsUpdate :=
  (store.updates.filter fun entry => entry.1 = id).map Prod.snd

/-- A row after some updates: one for each version from the first on, with the settings that they give
one after the other. -/
structure Applied (record : SqlInstanceRecord) (updates : List SettingsUpdate)
    (record' : SqlInstanceRecord) : Prop where
  id : record'.id = record.id
  key : record'.key = record.key
  versions : updates.map SettingsUpdate.version =
    List.range' record.settingsVersion updates.length
  version : record'.settingsVersion = record.settingsVersion + updates.length
  settings : updates.foldlM (fun settings update =>
    nextSettings update.replaces update.provided settings) record.settings = .ok record'.settings

/-- The instance of a successful update, with the version that it was checked against. -/
def Outcome.succeeded : Outcome → Option (ℕ × ℕ)
  | .updated _ (some id) (.ok update) => some (id, update.version)
  | _ => none

/-- No version of an instance is updated twice with success, each row is the one at the start with all
the updates that were written, and each successful update is among them. -/
structure LockKept (start : AdminStore) (pool : Pool AdminStore Call Outcome) : Prop where
  once : (pool.outcomes.filterMap Outcome.succeeded).Nodup
  applied : ∀ (i : ℕ) (record : SqlInstanceRecord), start.instances[i]? = some record →
    ∃ record', pool.shared.instances[i]? = some record' ∧
      Applied record (pool.shared.updatesOf record.id) record'
  included : ∀ key id update, .updated key (some id) (.ok update) ∈ pool.outcomes →
    (id, update) ∈ pool.shared.updates

/-! ## What a segment of an update does -/

/-- An update fits a row that has not been updated since. -/
structure Based (record : SqlInstanceRecord) (update : SettingsUpdate) : Prop where
  le : update.version ≤ record.settingsVersion
  settings : record.settingsVersion = update.version →
    nextSettings update.replaces update.provided record.settings = .ok update.settings

/-- A call of an update. -/
def Updating : Call → Prop
  | .requested (.updateInstance _ _) | .requested (.patchInstance _ _) | .findingSettings _
  | .writingSettings _ _ | .recording (.updated _ _ _) => True
  | _ => False

inductive Effect (store : AdminStore) : Call → AdminStore × Progress Call Outcome → Prop
  | ends (call : Call) (outcome : Outcome) (h : outcome.succeeded = none) :
      Effect store call (store, .finished outcome)
  | checks (request : Request) (update : SettingsUpdate) (record : SqlInstanceRecord)
      (hrecord : store.getInstance update.key = some record) (hbased : Based record update) :
      Effect store (.requested request) (store, .pending (.findingSettings update))
  | finds (update : SettingsUpdate) (record : SqlInstanceRecord)
      (h : store.getInstance update.key = some record) :
      Effect store (.findingSettings update) (store, .pending (.writingSettings record.id update))
  | gone (update : SettingsUpdate) (h : store.getInstance update.key = none) :
      Effect store (.findingSettings update)
        (store, .pending (.recording (.updated update.key none (.ok update))))
  | writes (id : ℕ) (update : SettingsUpdate) :
      Effect store (.writingSettings id update) (store.writeSettings id update, .pending (.recording
        (.updated update.key (if store.instances.any fun record => record.id = id then some id else none)
          (.ok update))))
  | writesAndEnds (id : ℕ) (update : SettingsUpdate) (outcome : Outcome)
      (h : outcome.succeeded = none) :
      Effect store (.writingSettings id update) (store.writeSettings id update, .finished outcome)
  | records (outcome : Outcome) : Effect store (.recording outcome) (store, .finished outcome)

theorem getInstance_eq_some {key : InstanceKey} {record : SqlInstanceRecord}
    (h : store.getInstance key = some record) : record ∈ store.instances ∧ record.key = key :=
  ⟨List.mem_of_find?_eq_some h, by simpa using List.find?_some h⟩

theorem effect_applySettings {key : InstanceKey} {body : Except JsString (Option Fields)}
    {requireVersion : Bool} {request : Request} :
    Effect store (.requested request) (store.applySettings key body requireVersion) := by
  unfold AdminStore.applySettings
  split
  · exact .ends _ _ rfl
  · split
    · exact .ends _ _ rfl
    · rename_i existing hexisting
      split
      · exact .ends _ _ rfl
      · rename_i update hupdate
        obtain ⟨_, -, hupdate⟩ := bind_eq_ok.1 hupdate
        obtain ⟨settings, hsettings, hupdate⟩ := bind_eq_ok.1 hupdate
        obtain rfl := Except.ok.inj hupdate
        obtain ⟨-, hkey⟩ := getInstance_eq_some hexisting
        exact .checks _ _ existing (by rw [hkey, hexisting]) ⟨le_rfl, fun _ => hsettings⟩

theorem succeeded_withError (thrown : Thrown) (outcome : Outcome) :
    (outcome.withError thrown).succeeded = none := by
  cases outcome with
  | updated key id result => cases id <;> rfl
  | _ => rfl

theorem effect_segment (store : AdminStore) (outside : Outside) (h : Updating call) :
    Effect store call (store.segment call outside) := by
  unfold AdminStore.segment
  split
  · rename_i applied message _ _
    have hends : ∀ outcome : Outcome, outcome.succeeded = none →
        Effect store call (if applied then store else store, .finished outcome) := by
      intro outcome houtcome
      rw [ite_self]
      exact .ends _ _ houtcome
    cases call with
    | requested request =>
      cases request with
      | updateInstance | patchInstance => exact hends _ rfl
      | _ => cases h
    | findingSettings update => exact hends _ rfl
    | writingSettings id update =>
      cases applied with
      | true => exact .writesAndEnds _ _ _ rfl
      | false => exact .ends _ _ rfl
    | recording outcome => exact hends _ (succeeded_withError _ _)
    | _ => cases h
  · cases call with
    | requested request =>
      cases request with
      | updateInstance | patchInstance => exact effect_applySettings
      | _ => cases h
    | findingSettings update =>
      simp only [AdminStore.answered]
      split
      · exact .gone _ ‹_›
      · exact .finds _ _ ‹_›
    | writingSettings id update => exact .writes _ _
    | recording outcome => exact .records _
    | _ => cases h

/-! ## The invariant -/

/-- What a call relies on when it goes on. -/
def Standing (store : AdminStore) : Call → Prop
  | .findingSettings update => ∃ record, store.getInstance update.key = some record ∧
      Based record update
  | .writingSettings id update => ∃ record ∈ store.instances, record.id = id ∧ Based record update
  | .recording (.updated _ id (.ok update)) => ∃ i, id = some i ∧ (i, update) ∈ store.updates
  | call => Updating call

theorem Standing.updating (h : Standing store call) : Updating call := by
  cases call with
  | requested | findingSettings | writingSettings => first | exact h | exact trivial
  | recording outcome =>
    cases outcome with
    | updated => exact trivial
    | _ => cases h
  | _ => cases h

/-- The rows are those of the start with the updates that were written. -/
structure Kept (start store : AdminStore) : Prop where
  ids : (store.instances.map SqlInstanceRecord.id).Nodup
  length : store.instances.length = start.instances.length
  applied : ∀ (i : ℕ) (record : SqlInstanceRecord), start.instances[i]? = some record →
    ∃ record', store.instances[i]? = some record' ∧
      Applied record (store.updatesOf record.id) record'
  known : ∀ entry ∈ store.updates, ∃ record ∈ store.instances, record.id = entry.1

def locking (start : AdminStore) : Outline AdminStore Call Outcome where
  Inv store outcomes := Kept start store ∧
    ∀ key id update, .updated key (some id) (.ok update) ∈ outcomes → (id, update) ∈ store.updates
  Local := Standing
  Pair _ _ := True
  symm _ := trivial

theorem eq_of_id (h : (store.instances.map SqlInstanceRecord.id).Nodup)
    {record record' : SqlInstanceRecord} (hrecord : record ∈ store.instances)
    (hrecord' : record' ∈ store.instances) (hid : record.id = record'.id) : record = record' :=
  List.inj_on_of_nodup_map h hrecord hrecord' hid

section Write

variable {id : ℕ} {update : SettingsUpdate} {record : SqlInstanceRecord} {start : AdminStore}

/-- A row after an update. -/
def SqlInstanceRecord.after (record : SqlInstanceRecord) (id : ℕ) (update : SettingsUpdate) :
    SqlInstanceRecord :=
  if record.id = id then
    { record with settings := update.settings, settingsVersion := nextVersion update.version }
  else record

@[simp] theorem SqlInstanceRecord.id_after : (record.after id update).id = record.id := by
  unfold SqlInstanceRecord.after
  split <;> rfl

@[simp] theorem SqlInstanceRecord.key_after : (record.after id update).key = record.key := by
  unfold SqlInstanceRecord.after
  split <;> rfl

theorem instances_writeSettings : (store.writeSettings id update).instances =
    store.instances.map fun record => record.after id update := rfl

theorem getInstance_writeSettings {key : InstanceKey} (h : store.getInstance key = some record) :
    (store.writeSettings id update).getInstance key = some (record.after id update) := by
  unfold AdminStore.getInstance at h ⊢
  rw [instances_writeSettings, List.find?_map]
  have hkey : ((fun record : SqlInstanceRecord => decide (record.key = key)) ∘
      fun record : SqlInstanceRecord => record.after id update) =
        fun record => decide (record.key = key) := by
    funext record
    simp
  rw [hkey, h]
  rfl

theorem mem_updates_writeSettings {entry : ℕ × SettingsUpdate} (h : entry ∈ store.updates) :
    entry ∈ (store.writeSettings id update).updates := by
  unfold AdminStore.writeSettings
  dsimp only
  split
  · exact List.mem_append_left _ h
  · exact h

/-- An update that fitted a row fits it after another one has been written. -/
theorem Based.after {update' : SettingsUpdate} (hfresh : Fresh store (.writingSettings id update))
    (hrecord : record ∈ store.instances) (h : Based record update') :
    Based (record.after id update) update' := by
  unfold SqlInstanceRecord.after
  split
  · rename_i hid
    have hversion := hfresh.2 record hrecord hid
    have hle := h.le
    have hnext : nextVersion update.version = record.settingsVersion + 1 := by
      rw [nextVersion, if_pos hfresh.1, hversion]
    refine ⟨?_, fun hsame => ?_⟩
    · change update'.version ≤ nextVersion update.version
      omega
    · change nextVersion update.version = update'.version at hsame
      omega
  · exact h

theorem Standing.after (hfresh : Fresh store (.writingSettings id update)) (h : Standing store other) :
    Standing (store.writeSettings id update) other := by
  cases other with
  | findingSettings update' =>
    obtain ⟨record, hrecord, hbased⟩ := h
    exact ⟨_, getInstance_writeSettings hrecord, hbased.after hfresh (getInstance_eq_some hrecord).1⟩
  | writingSettings id' update' =>
    obtain ⟨record, hrecord, hid, hbased⟩ := h
    refine ⟨record.after id update, List.mem_map_of_mem hrecord, ?_, hbased.after hfresh hrecord⟩
    rw [SqlInstanceRecord.id_after, hid]
  | recording outcome =>
    cases outcome with
    | updated key id' result =>
      cases result with
      | error thrown => exact h
      | ok update' =>
        obtain ⟨i, hi, hmem⟩ := h
        exact ⟨i, hi, mem_updates_writeSettings hmem⟩
    | _ => exact h
  | _ => exact h

theorem updates_writeSettings (h : ∃ record ∈ store.instances, record.id = id) :
    (store.writeSettings id update).updates = store.updates ++ [(id, update)] := by
  have hany : (store.instances.any fun record => record.id = id) = true := by
    simpa [List.any_eq_true] using h
  simp only [AdminStore.writeSettings, hany, if_true]

/-- The next update of a row. -/
theorem Applied.after {before : SqlInstanceRecord} {updates : List SettingsUpdate}
    (h : Applied before updates record) (hid : record.id = id) (hlt : update.version < 2 ^ 53)
    (hversion : record.settingsVersion = update.version) (hbased : Based record update) :
    Applied before (updates ++ [update]) (record.after id update) := by
  have hafter : record.after id update =
      { record with settings := update.settings, settingsVersion := update.version + 1 } := by
    rw [SqlInstanceRecord.after, if_pos hid, nextVersion, if_pos hlt]
  obtain ⟨hsame, hkey, hversions, hlength, hsettings⟩ := h
  rw [hafter]
  refine ⟨hsame, hkey, ?_, ?_, ?_⟩
  · rw [List.map_append, hversions, List.length_append, List.length_singleton, List.range'_concat]
    simp [← hversion, hlength]
  · change update.version + 1 = _
    rw [List.length_append, List.length_singleton, ← hversion, hlength]
    omega
  · rw [List.foldlM_append, hsettings]
    simp [List.foldlM, bind, Except.bind, pure, Except.pure, hbased.settings hversion]

theorem Kept.after (h : Kept start store) (hfresh : Fresh store (.writingSettings id update))
    (hrecord : record ∈ store.instances) (hid : record.id = id) (hbased : Based record update) :
    Kept start (store.writeSettings id update) := by
  have hupdates : (store.writeSettings id update).updates = store.updates ++ [(id, update)] :=
    updates_writeSettings ⟨record, hrecord, hid⟩
  refine ⟨?_, ?_, fun i before hbefore => ?_, fun entry hentry => ?_⟩
  · rw [instances_writeSettings, List.map_map]
    simpa [Function.comp_def] using h.ids
  · rw [instances_writeSettings, List.length_map, h.length]
  · obtain ⟨current, hcurrent, happlied⟩ := h.applied i before hbefore
    refine ⟨current.after id update, by simp [instances_writeSettings, hcurrent], ?_⟩
    by_cases hsame : before.id = id
    · have hof : (store.writeSettings id update).updatesOf before.id =
          store.updatesOf before.id ++ [update] := by
        simp [AdminStore.updatesOf, hupdates, hsame]
      have hmem := List.mem_of_getElem? hcurrent
      obtain rfl := eq_of_id h.ids hmem hrecord (happlied.id.trans (hsame.trans hid.symm))
      rw [hof]
      exact happlied.after hid hfresh.1 (hfresh.2 current hrecord hid) hbased
    · have hof : (store.writeSettings id update).updatesOf before.id = store.updatesOf before.id := by
        simp [AdminStore.updatesOf, hupdates, Ne.symm hsame]
      have hother : current.after id update = current := by
        rw [SqlInstanceRecord.after, if_neg (happlied.id ▸ hsame)]
      rw [hof, hother]
      exact happlied
  · rw [hupdates] at hentry
    rcases List.mem_append.1 hentry with hentry | hentry
    · obtain ⟨known, hknown, hsame⟩ := h.known entry hentry
      exact ⟨known.after id update, List.mem_map_of_mem hknown, by simpa using hsame⟩
    · obtain rfl := List.mem_singleton.1 hentry
      exact ⟨record.after id update, List.mem_map_of_mem hrecord, by simpa using hid⟩

end Write

/-! ## Steps -/

variable {start : AdminStore} {pool pool' : Pool AdminStore Call Outcome} {m : Move Request Outside}
  {moves : List (Move Request Outside)}

theorem keeps_of_effect {outcomes : List Outcome} {result : AdminStore × Progress Call Outcome}
    (hinv : (locking start).Inv store outcomes) (hfresh : Fresh store call) (h : Standing store call)
    (heffect : Effect store call result) : (locking start).Keeps outcomes result := by
  obtain ⟨hkept, hincluded⟩ := hinv
  have hfinished : ∀ {left : AdminStore} {outcome : Outcome}, Kept start left →
      (∀ entry ∈ store.updates, entry ∈ left.updates) →
        (∀ key id update, outcome = .updated key (some id) (.ok update) → (id, update) ∈ left.updates) →
          (locking start).Inv left (outcomes ++ [outcome]) := by
    intro left outcome hleft hmono houtcome
    refine ⟨hleft, fun key id update hmem => ?_⟩
    rcases List.mem_append.1 hmem with hmem | hmem
    · exact hmono _ (hincluded key id update hmem)
    · exact houtcome key id update (List.mem_singleton.1 hmem).symm
  cases heffect with
  | ends _ outcome hnone =>
    refine hfinished hkept (fun _ hentry => hentry) ?_
    rintro key id update rfl
    cases hnone
  | checks request update record hrecord hbased => exact ⟨⟨hkept, hincluded⟩, record, hrecord, hbased⟩
  | finds update record hrecord =>
    obtain ⟨found, hfound, hbased⟩ := h
    obtain rfl := Option.some.inj (hrecord.symm.trans hfound)
    exact ⟨⟨hkept, hincluded⟩, record, (getInstance_eq_some hrecord).1, rfl, hbased⟩
  | gone update hnone =>
    obtain ⟨found, hfound, -⟩ := h
    exact nomatch hnone.symm.trans hfound
  | writes id update =>
    obtain ⟨record, hrecord, hid, hbased⟩ := h
    have hany : (store.instances.any fun record => record.id = id) = true := by
      rw [List.any_eq_true]
      exact ⟨record, hrecord, decide_eq_true hid⟩
    rw [hany]
    refine ⟨⟨hkept.after hfresh hrecord hid hbased, fun key id' update' hmem =>
      mem_updates_writeSettings (hincluded key id' update' hmem)⟩, id, rfl, ?_⟩
    rw [updates_writeSettings ⟨record, hrecord, hid⟩]
    exact List.mem_append_right _ List.mem_cons_self
  | writesAndEnds id update outcome hnone =>
    obtain ⟨record, hrecord, hid, hbased⟩ := h
    refine hfinished (hkept.after hfresh hrecord hid hbased)
      (fun entry hentry => mem_updates_writeSettings hentry) ?_
    rintro key id' update' rfl
    cases hnone
  | records outcome =>
    refine hfinished hkept (fun _ hentry => hentry) ?_
    rintro key id update rfl
    obtain ⟨i, hi, hmem⟩ := h
    obtain rfl := Option.some.inj hi
    exact hmem

theorem spares_of_effect {result : AdminStore × Progress Call Outcome} (hfresh : Fresh store call)
    (hother : Standing store other) (heffect : Effect store call result) :
    (locking start).Spares other result := by
  have hsame : ∀ progress : Progress Call Outcome, (locking start).Spares other (store, progress) :=
    fun progress => Outline.Spares.of hother fun _ _ => trivial
  cases heffect with
  | writes id update => exact ⟨hother.after hfresh, trivial⟩
  | writesAndEnds id update outcome hnone => exact hother.after hfresh
  | _ => exact hsame _

theorem locking_begins : Outline.Begins adminService (locking start) FreshUpdates := by
  intro pool request _ hallowed
  refine ⟨?_, fun _ _ => trivial⟩
  cases request with
  | updateInstance | patchInstance => exact trivial
  | _ => exact absurd hallowed id

theorem locking_segments : Outline.Segments adminService (locking start) FreshUpdates := by
  intro pool index outside call h hallowed hcall
  have hstanding : Standing pool.shared call := h.each call (List.mem_of_getElem? hcall)
  have hfresh := hallowed call hcall
  have heffect := effect_segment pool.shared outside hstanding.updating
  exact ⟨keeps_of_effect h.inv hfresh hstanding heffect, fun other hother =>
    spares_of_effect hfresh (h.each other (List.mem_of_mem_eraseIdx hother)) heffect⟩

/-! ## Each version once -/

/-- A call that has written and not returned yet. -/
def Call.succeeding : Call → Option (ℕ × ℕ)
  | .recording outcome => outcome.succeeded
  | _ => none

def Succeeds (version : ℕ × ℕ) (outcome : Outcome) : Bool := outcome.succeeded = some version

def Succeeding (version : ℕ × ℕ) (call : Call) : Bool := call.succeeding = some version

def Writes (version : ℕ × ℕ) (entry : ℕ × SettingsUpdate) : Bool :=
  (entry.1, entry.2.version) = version

/-- No more calls succeed with a version than have written over it. -/
def Accounted (pool : Pool AdminStore Call Outcome) : Prop :=
  ∀ version, pool.outcomes.countP (Succeeds version) + pool.calls.countP (Succeeding version) ≤
    pool.shared.updates.countP (Writes version)

theorem accounted_of_effect {result : AdminStore × Progress Call Outcome} (h : Standing store call)
    (heffect : Effect store call result) (version : ℕ × ℕ) :
    result.2.outcomes.countP (Succeeds version) + result.2.calls.countP (Succeeding version) +
        store.updates.countP (Writes version) ≤
      [call].countP (Succeeding version) + result.1.updates.countP (Writes version) := by
  cases heffect with
  | ends _ outcome hnone => simp [Progress.outcomes, Progress.calls, Succeeds, hnone]
  | checks | finds => simp [Progress.outcomes, Progress.calls, Succeeding, Call.succeeding]
  | gone update hnone =>
    obtain ⟨found, hfound, -⟩ := h
    exact nomatch hnone.symm.trans hfound
  | writes id update =>
    obtain ⟨record, hrecord, hid, -⟩ := h
    have hany : (store.instances.any fun record => record.id = id) = true := by
      rw [List.any_eq_true]
      exact ⟨record, hrecord, decide_eq_true hid⟩
    rw [hany, updates_writeSettings ⟨record, hrecord, hid⟩, List.countP_append]
    simp [Progress.outcomes, Progress.calls, Succeeding, Call.succeeding, Outcome.succeeded, Writes]
    omega
  | writesAndEnds id update outcome hnone =>
    obtain ⟨record, hrecord, hid, -⟩ := h
    rw [updates_writeSettings ⟨record, hrecord, hid⟩, List.countP_append]
    simp [Progress.outcomes, Progress.calls, Succeeds, hnone]
    omega
  | records outcome =>
    by_cases hsame : outcome.succeeded = some version <;>
      simp [Progress.outcomes, Progress.calls, Succeeds, Succeeding, Call.succeeding, hsame]

theorem accounted_of_step (hstep : adminService.Step FreshUpdates pool m pool')
    (hholds : (locking start).Holds pool) (h : Accounted pool) : Accounted pool' := by
  obtain ⟨-, hmove⟩ := hstep
  cases m with
  | start request =>
    obtain rfl := Option.some.inj hmove
    intro version
    have hversion := h version
    simpa [adminService, List.countP_append, Succeeding, Call.succeeding] using hversion
  | resume index outside =>
    obtain ⟨call, hcall, rfl⟩ := Option.map_eq_some_iff.1 hmove
    have hstanding : Standing pool.shared call := hholds.each call (List.mem_of_getElem? hcall)
    have heffect := effect_segment pool.shared outside hstanding.updating
    change Accounted (Async.advance pool index (pool.shared.segment call outside))
    generalize pool.shared.segment call outside = result at heffect
    intro version
    have hsegment := accounted_of_effect hstanding heffect version
    have hcount : (Async.advance pool index result).calls.countP (Succeeding version) +
        [call].countP (Succeeding version) =
          pool.calls.countP (Succeeding version) + result.2.calls.countP (Succeeding version) :=
      Async.countP_advance _ hcall
    have hversion := h version
    rw [Async.advance_outcomes, List.countP_append, Async.advance_shared]
    omega

theorem accounted_of_run (hrun : Run (adminService.Step FreshUpdates) pool moves pool')
    (hholds : (locking start).Holds pool) (h : Accounted pool) : Accounted pool' := by
  induction hrun with
  | refl => exact h
  | head hstep _ ih =>
    exact ih (hholds.of_step locking_begins locking_segments hstep)
      (accounted_of_step hstep hholds h)

/-- A version is written over once. -/
theorem Kept.countP_le (h : Kept start store) (version : ℕ × ℕ) :
    store.updates.countP (Writes version) ≤ 1 := by
  obtain ⟨id, number⟩ := version
  have hcount : store.updates.countP (Writes (id, number)) =
      ((store.updatesOf id).map SettingsUpdate.version).count number := by
    rw [AdminStore.updatesOf, List.map_map, List.count, List.countP_map, List.countP_filter]
    refine List.countP_congr fun entry _ => ?_
    simp [Writes, and_comm]
  rw [hcount]
  by_cases hknown : ∃ record ∈ store.instances, record.id = id
  · obtain ⟨record, hrecord, rfl⟩ := hknown
    obtain ⟨i, hi⟩ := List.mem_iff_getElem?.1 hrecord
    obtain ⟨hlt, -⟩ := List.getElem?_eq_some_iff.1 hi
    rw [h.length] at hlt
    obtain ⟨current, hcurrent, happlied⟩ := h.applied i _ (List.getElem?_eq_getElem hlt)
    obtain rfl := Option.some.inj (hi.symm.trans hcurrent)
    rw [happlied.id, happlied.versions]
    exact List.nodup_iff_count_le_one.1 List.nodup_range' _
  · have hnone : store.updatesOf id = [] := by
      rw [AdminStore.updatesOf, List.map_eq_nil_iff, List.filter_eq_nil_iff]
      intro entry hentry hid
      obtain ⟨record, hrecord, hsame⟩ := h.known entry hentry
      exact hknown ⟨record, hrecord, hsame.trans (of_decide_eq_true hid)⟩
    rw [hnone]
    exact Nat.zero_le _

/-! ## Runs -/

def sampleInstance : InstanceKey := ("p", "db")

/-- One instance, as it was created. -/
def sampleStore : AdminStore where
  instances := [⟨0, "p", "db", "us-central1", "POSTGRES_16", "RUNNABLE", "\x7b\x7d", 1, []⟩]
  databases := []
  users := []
  nextId := 1
  live := fun key => key = sampleInstance
  updates := []

/-- The storage does what it is asked. -/
def atOnce : Outside := ⟨.done, 0⟩

/-- Settings with a version and one field. -/
def sampleSettings (version : ℕ) (name : JsString) : Except JsString (Option Fields) :=
  .ok (some [(js "settingsVersion", .num (natNumber version)), (name, .bool true)])

/-- An update and then a patch, each with the version that is stored. -/
def updateThenPatch : List (Move Request Outside) :=
  .start (.updateInstance sampleInstance (sampleSettings 1 "a")) :: List.replicate 4 (.resume 0 atOnce) ++
    .start (.patchInstance sampleInstance (sampleSettings 2 "b")) :: List.replicate 4 (.resume 0 atOnce)

/-- Two updates with the same version, both checked before either is written. -/
def updatesOverlap : List (Move Request Outside) :=
  [.start (.updateInstance sampleInstance (sampleSettings 1 "a")),
    .start (.updateInstance sampleInstance (sampleSettings 1 "b")), .resume 0 atOnce, .resume 1 atOnce] ++
    List.replicate 6 (.resume 0 atOnce)

end Kinglet.CloudSql
