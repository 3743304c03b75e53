import Kinglet.Js.Value
import Kinglet.Kms.KeyManagement

/-!
# The lifecycle of a key version

A call that changes a version checks the state of the copy it has read and writes two awaits later.
What it writes fits the state it finds then in all cases but one: a patch that lands on a version
whose destruction was scheduled in the meantime makes the version usable and leaves its destroy time
behind. Without that, the state and the destroy time of a version agree, every change is an edge of
the lifecycle, and only a restore takes a version out of its scheduled destruction.
-/

namespace Kinglet.Kms

open Js Library

/-! ## The lifecycle -/

/-- The edges: enable and disable, destroy, and restore. -/
inductive Edge : CryptoKeyVersionState → CryptoKeyVersionState → Prop
  | enable : Edge .disabled .enabled
  | disable : Edge .enabled .disabled
  | destroyEnabled : Edge .enabled .destroyScheduled
  | destroyDisabled : Edge .disabled .destroyScheduled
  | restore : Edge .destroyScheduled .disabled

/-- The state and the destroy time agree; nothing is ever destroyed. -/
structure Agrees (version : CryptoKeyVersionRecord) : Prop where
  scheduled : version.state = .destroyScheduled ↔ version.destroyTime.isSome
  kept : version.state ≠ .destroyed

/-- Every version is still there, with its state or one an edge away. -/
def Evolves (store store' : KeyStore) : Prop :=
  ∀ (i : ℕ) (version : CryptoKeyVersionRecord), store.versions[i]? = some version →
    ∃ version', store'.versions[i]? = some version' ∧ version'.name = version.name ∧
      (version'.state = version.state ∨ Edge version.state version'.state)

/-- A patch does not land on a version whose destruction is scheduled. -/
def Lands (store : KeyStore) : Call → Prop
  | .writingVersion _ id (.setState _) =>
      ∀ version ∈ store.versions, version.id = id → version.state ≠ .destroyScheduled
  | _ => True

/-- The moves with which no patch lands on a scheduled destruction. -/
def PatchesLand (pool : Pool KeyStore Call Outcome) : Move Request Outside → Prop
  | .start _ => True
  | .resume index _ => ∀ call ∈ pool.calls[index]?, Lands pool.shared call

instance (store : KeyStore) : DecidablePred (Lands store)
  | .writingVersion _ id (.setState _) => inferInstanceAs (Decidable
      (∀ version ∈ store.versions, version.id = id → version.state ≠ .destroyScheduled))
  | .writingVersion _ _ (.destroy _) | .writingVersion _ _ .restore => isTrue trivial
  | .requested _ | .checkingKey _ | .guardingKey _ | .insertingKey _ | .queued _ _ | .readingKey _
  | .numbering _ _ | .guardingVersion _ _ _ | .insertingVersion _ _ _ | .findingKey _ _
  | .settingPrimary _ _ _ | .forgetting _ _ | .readingPrimary _ _ | .findingPrimary _ _
  | .writingPrimary _ _ _ | .findingVersion _ _ => isTrue trivial

instance (pool : Pool KeyStore Call Outcome) : DecidablePred (PatchesLand pool)
  | .start _ => isTrue trivial
  | .resume index _ => inferInstanceAs (Decidable (∀ call ∈ pool.calls[index]?, Lands pool.shared call))

variable {toUpperCase : JsString → JsString} {store : KeyStore} {call : Call} {outside : Outside}

/-! ## What a segment does with the versions -/

/-- A segment leaves the versions, or is the insert of one or the change of one. -/
inductive Writes (store : KeyStore) : Call → List CryptoKeyVersionRecord → Prop
  | nothing (call : Call) : Writes store call store.versions
  | insert (allocation : Allocation) (key : CryptoKeyRecord) (version : CryptoKeyVersionRecord) :
      Writes store (.insertingVersion allocation key version)
        (store.versions ++ [store.inserted version])
  | change (name : JsString) (id : ℕ) (change : VersionChange) :
      Writes store (.writingVersion name id change)
        (store.versions.map fun version => if version.id = id then change.apply version else version)

theorem writes_written (store : KeyStore) (call : Call) :
    Writes store call (store.written call).versions := by
  cases call with
  | insertingVersion allocation key version => exact .insert allocation key version
  | writingVersion name id change => exact .change name id change
  | _ => exact .nothing _

@[simp] theorem versions_fails (store : KeyStore) (thrown : Thrown) (call : Call) :
    (store.fails thrown call).1.versions = store.versions := by
  cases call with
  | requested request => cases request <;> rfl
  | _ => rfl

@[simp] theorem versions_change (store : KeyStore) (name : JsString)
    (check : CryptoKeyVersionRecord → Except Thrown (Option VersionChange)) :
    (store.change name check).1 = store := by
  unfold KeyStore.change
  split
  · rfl
  · split <;> rfl

theorem versions_request (store : KeyStore) (outside : Outside) (request : Request) :
    (store.request toUpperCase outside request).1.versions = store.versions := by
  cases request with
  | createCryptoKey caller keyRingName cryptoKeyId body skip =>
    simp only [KeyStore.request]
    split
    · rfl
    · split
      · rfl
      · split <;> rfl
  | createCryptoKeyVersion caller cryptoKeyName =>
    simp only [KeyStore.request]
    split <;> rfl
  | updatePrimaryVersion name versionId =>
    simp only [KeyStore.request]
    split
    · rfl
    · split
      · rfl
      · split <;> rfl
  | _ => simp [KeyStore.request]

theorem writes_answered (store : KeyStore) (outside : Outside) (call : Call) :
    Writes store call (store.answered toUpperCase outside call).1.versions := by
  have hnothing : ∀ versions, versions = store.versions → Writes store call versions := by
    rintro versions rfl
    exact .nothing call
  cases call with
  | requested request => exact hnothing _ (versions_request store outside request)
  | insertingKey new =>
    simp only [KeyStore.answered]
    split <;> exact .nothing _
  | insertingVersion allocation key version =>
    simp only [KeyStore.answered]
    split <;> exact .insert allocation key version
  | writingVersion name id change =>
    simp only [KeyStore.answered]
    split
    · exact hnothing _ (versions_fails ..)
    · exact .change name id change
  | forgetting cryptoKeyName allocation =>
    refine hnothing _ ?_
    simp only [KeyStore.answered]
    split
    · split <;> rfl
    · rfl
  | readingPrimary name versionId =>
    refine hnothing _ ?_
    simp only [KeyStore.answered]
    split
    · rfl
    · split <;> rfl
  | _ =>
    refine hnothing _ ?_
    simp only [KeyStore.answered]
    first | rfl | (split <;> rfl)

theorem writes_segment (toUpperCase : JsString → JsString) (store : KeyStore) (call : Call)
    (outside : Outside) :
    Writes store call (store.segment toUpperCase call outside).1.versions := by
  unfold KeyStore.segment
  split
  · rw [versions_fails]
    split
    · exact writes_written store call
    · exact .nothing call
  · exact writes_answered store outside call

/-! ## What the calls in flight carry -/

/-- A new version is enabled, and a patch sets one of the two states it may set. -/
def Sound : Call → Prop
  | .findingVersion _ (.setState target) | .writingVersion _ _ (.setState target) =>
      target = .enabled ∨ target = .disabled
  | .guardingVersion _ _ version | .insertingVersion _ _ version =>
      version.state = .enabled ∧ version.destroyTime = none
  | _ => True

@[simp] theorem calls_fails (store : KeyStore) (thrown : Thrown) (call : Call) :
    (store.fails thrown call).2.calls = [] := by
  cases call with
  | requested request => cases request <;> rfl
  | _ => rfl

/-- A patch asks for one of the two states. -/
theorem requestedState_eq_some {body : Except JsString (Option EnumOrInt)}
    {updateMask : Option JsString} {target : CryptoKeyVersionState}
    (h : requestedState toUpperCase body updateMask = .ok (some target)) :
    target = .enabled ∨ target = .disabled := by
  unfold requestedState at h
  split at h
  · cases h
  · simp only at h
    split at h
    · cases h
    · cases h
    · cases hstate : normalizeState toUpperCase _ with
      | error thrown =>
        rw [hstate] at h
        cases h
      | ok state =>
        rw [hstate] at h
        rcases state with text | (_ | _ | _ | _)
        · cases h
        · exact .inl (Option.some.inj (Except.ok.inj h)).symm
        · exact .inr (Option.some.inj (Except.ok.inj h)).symm
        · cases h
        · cases h

theorem checkUpdate_eq_some {existing : CryptoKeyVersionRecord}
    {body : Except JsString (Option EnumOrInt)} {updateMask : Option JsString}
    {change : VersionChange} (h : checkUpdate toUpperCase existing body updateMask = .ok (some change)) :
    ∃ target, change = .setState target ∧ (target = .enabled ∨ target = .disabled) := by
  unfold checkUpdate at h
  cases htarget : requestedState toUpperCase body updateMask with
  | error thrown =>
    rw [htarget] at h
    cases h
  | ok target =>
    rw [htarget] at h
    cases target with
    | none => cases h
    | some target =>
      change (if _ then _ else _) = _ at h
      split at h
      · exact ⟨target, (Option.some.inj (Except.ok.inj h)).symm, requestedState_eq_some htarget⟩
      · cases h

theorem sound_change {name : JsString}
    {check : CryptoKeyVersionRecord → Except Thrown (Option VersionChange)}
    (hcheck : ∀ existing change, check existing = .ok (some change) →
      Sound (.findingVersion name change)) :
    ∀ rest ∈ (store.change name check).2.calls, Sound rest := by
  unfold KeyStore.change
  split
  · simp [Progress.calls]
  · split
    · simp [Progress.calls]
    · simp [Progress.calls]
    · intro rest hrest
      obtain rfl := List.mem_singleton.1 hrest
      exact hcheck _ _ ‹_›

theorem sound_request (store : KeyStore) (outside : Outside) (request : Request) :
    ∀ rest ∈ (store.request toUpperCase outside request).2.calls, Sound rest := by
  cases request with
  | createCryptoKey caller keyRingName cryptoKeyId body skip =>
    simp only [KeyStore.request]
    split
    · simp [Progress.calls]
    · split
      · simp [Progress.calls]
      · split <;> simp [Progress.calls, Sound]
  | createCryptoKeyVersion caller cryptoKeyName =>
    simp only [KeyStore.request]
    split <;> simp [Progress.calls, KeyStore.addVersion, Sound]
  | updatePrimaryVersion name versionId =>
    simp only [KeyStore.request]
    split
    · simp [Progress.calls]
    · split
      · simp [Progress.calls]
      · split <;> simp [Progress.calls, Sound]
  | updateCryptoKeyVersion name body updateMask =>
    refine sound_change fun existing change hcheck => ?_
    obtain ⟨target, rfl, htarget⟩ := checkUpdate_eq_some hcheck
    exact htarget
  | destroyCryptoKeyVersion name =>
    refine sound_change fun existing change hcheck => ?_
    unfold checkDestroy at hcheck
    split at hcheck
    · cases hcheck
    · obtain rfl := Option.some.inj (Except.ok.inj hcheck)
      exact trivial
  | restoreCryptoKeyVersion name =>
    refine sound_change fun existing change hcheck => ?_
    unfold checkRestore at hcheck
    split at hcheck
    · obtain rfl := Option.some.inj (Except.ok.inj hcheck)
      exact trivial
    · cases hcheck

theorem sound_segment (store : KeyStore) (outside : Outside) (h : Sound call) :
    ∀ rest ∈ (store.segment toUpperCase call outside).2.calls, Sound rest := by
  unfold KeyStore.segment
  split
  · simp
  · cases call with
    | requested request => exact sound_request store outside request
    | insertingKey new =>
      simp only [KeyStore.answered]
      split <;> simp [Progress.calls, KeyStore.addVersion, Sound]
    | insertingVersion allocation key version =>
      simp only [KeyStore.answered]
      split <;> simp [Progress.calls, KeyStore.allocated, Sound]
    | numbering allocation key =>
      simp only [KeyStore.answered]
      split
      · simp
      · rename_i version hnew
        intro rest hrest
        obtain rfl := List.mem_singleton.1 hrest
        obtain ⟨material, -, rfl⟩ := Option.map_eq_some_iff.1 hnew
        exact ⟨rfl, rfl⟩
    | guardingVersion allocation key version =>
      simp only [KeyStore.answered]
      split
      · simp
      · intro rest hrest
        obtain rfl := List.mem_singleton.1 hrest
        exact h
    | findingVersion name change =>
      simp only [KeyStore.answered]
      split
      · simp
      · intro rest hrest
        obtain rfl := List.mem_singleton.1 hrest
        cases change <;> exact h
    | readingPrimary name versionId =>
      simp only [KeyStore.answered]
      split
      · simp
      · split <;> simp [Progress.calls, KeyStore.fails, Sound]
    | _ =>
      simp only [KeyStore.answered]
      first
      | simp [Progress.calls, KeyStore.allocated, Sound]; done
      | (split <;> simp [Progress.calls, KeyStore.fails, KeyStore.allocated, Sound])

/-! ## The invariant -/

theorem agrees_apply {version : CryptoKeyVersionRecord} {change : VersionChange} {name : JsString}
    {id : ℕ} (h : Agrees version) (hsound : Sound (.writingVersion name id change))
    (hlands : ∀ target, change = .setState target → version.state ≠ .destroyScheduled) :
    Agrees (change.apply version) := by
  cases change with
  | setState target =>
    have hnone : version.destroyTime = none := by
      have hstate := mt h.scheduled.2 (hlands target rfl)
      simpa using hstate
    rcases hsound with rfl | rfl
    · exact ⟨by simp [VersionChange.apply, hnone], nofun⟩
    · exact ⟨by simp [VersionChange.apply, hnone], nofun⟩
  | destroy destroyTime => exact ⟨by simp [VersionChange.apply], nofun⟩
  | restore => exact ⟨by simp [VersionChange.apply], nofun⟩

/-- What is written is the state before, or one an edge away. -/
theorem edge_apply {version : CryptoKeyVersionRecord} {change : VersionChange} {name : JsString}
    {id : ℕ} (h : Agrees version) (hsound : Sound (.writingVersion name id change))
    (hlands : ∀ target, change = .setState target → version.state ≠ .destroyScheduled) :
    (change.apply version).state = version.state ∨ Edge version.state (change.apply version).state := by
  have hkept := h.kept
  cases change with
  | setState target =>
    have hscheduled := hlands target rfl
    cases hstate : version.state with
    | enabled =>
      rcases hsound with rfl | rfl
      · exact .inl rfl
      · exact .inr .disable
    | disabled =>
      rcases hsound with rfl | rfl
      · exact .inr .enable
      · exact .inl rfl
    | destroyed => exact absurd hstate hkept
    | destroyScheduled => exact absurd hstate hscheduled
  | destroy destroyTime =>
    cases hstate : version.state with
    | enabled => exact .inr .destroyEnabled
    | disabled => exact .inr .destroyDisabled
    | destroyed => exact absurd hstate hkept
    | destroyScheduled => exact .inl rfl
  | restore =>
    cases hstate : version.state with
    | enabled => exact .inr .disable
    | disabled => exact .inl rfl
    | destroyed => exact absurd hstate hkept
    | destroyScheduled => exact .inr .restore

/-- Each version agrees, and each call carries what it may write. -/
def lifecycle : Outline KeyStore Call Outcome where
  Inv store _ := ∀ version ∈ store.versions, Agrees version
  Local _ call := Sound call
  Pair _ _ := True
  symm _ := trivial

section Segment

variable (h : ∀ version ∈ store.versions, Agrees version) (hsound : Sound call)
  (hlands : Lands store call)

include h hsound hlands

theorem agrees_segment :
    ∀ version ∈ (store.segment toUpperCase call outside).1.versions, Agrees version := by
  have hwrites := writes_segment toUpperCase store call outside
  generalize (store.segment toUpperCase call outside).1.versions = versions at hwrites
  cases hwrites with
  | nothing => exact h
  | insert allocation key version =>
    intro other hother
    rcases List.mem_append.1 hother with hother | hother
    · exact h other hother
    · obtain rfl := List.mem_singleton.1 hother
      obtain ⟨hstate, htime⟩ := hsound
      exact ⟨by simp [KeyStore.inserted, hstate, htime], by simp [KeyStore.inserted, hstate]⟩
  | change name id change =>
    intro other hother
    obtain ⟨version, hversion, rfl⟩ := List.mem_map.1 hother
    split
    · rename_i hid
      refine agrees_apply (h version hversion) hsound ?_
      rintro target rfl
      exact hlands version hversion hid
    · exact h version hversion

variable (toUpperCase outside) in
/-- A version keeps its place and its name, and its state moves along the edges; a restore is the only
segment that takes it out of its scheduled destruction. -/
theorem evolves_segment (i : ℕ) (version : CryptoKeyVersionRecord)
    (hversion : store.versions[i]? = some version) :
    ∃ version', (store.segment toUpperCase call outside).1.versions[i]? = some version' ∧
      version'.id = version.id ∧ version'.name = version.name ∧
      (version'.state = version.state ∨ Edge version.state version'.state) ∧
      (version.state = .destroyScheduled → version'.state ≠ .destroyScheduled →
        ∃ name, call = .writingVersion name version.id .restore) := by
  have hwrites := writes_segment toUpperCase store call outside
  have hmem := List.mem_of_getElem? hversion
  generalize (store.segment toUpperCase call outside).1.versions = versions at hwrites
  cases hwrites with
  | nothing => exact ⟨version, hversion, rfl, rfl, .inl rfl, fun hstate hne => absurd hstate hne⟩
  | insert allocation key new =>
    obtain ⟨hlt, -⟩ := List.getElem?_eq_some_iff.1 hversion
    refine ⟨version, ?_, rfl, rfl, .inl rfl, fun hstate hne => absurd hstate hne⟩
    rw [List.getElem?_append_left hlt, hversion]
  | change name id change =>
    refine ⟨if version.id = id then change.apply version else version, ?_, ?_, ?_, ?_, ?_⟩
    · simp [hversion]
    · split
      · cases change <;> rfl
      · rfl
    · split
      · cases change <;> rfl
      · rfl
    · split
      · rename_i hid
        refine edge_apply (h version hmem) hsound ?_
        rintro target rfl
        exact hlands version hmem hid
      · exact .inl rfl
    · split
      · rename_i hid
        intro hstate hne
        cases change with
        | setState target => exact absurd hstate (hlands version hmem hid)
        | destroy destroyTime => exact absurd rfl hne
        | restore => exact ⟨name, by rw [hid]⟩
      · exact fun hstate hne => absurd hstate hne

end Segment

theorem lifecycle_of_step {pool pool' : Pool KeyStore Call Outcome} {m : Move Request Outside}
    (hstep : (keyManagement toUpperCase).Step PatchesLand pool m pool') (h : lifecycle.Holds pool) :
    lifecycle.Holds pool' := by
  have hbegin : Outline.Begins (keyManagement toUpperCase) lifecycle PatchesLand :=
    fun pool request _ _ => ⟨trivial, fun _ _ => trivial⟩
  refine h.of_step hbegin ?_ hstep
  intro pool index outside call h hallowed hcall
  have hsound : Sound call := h.each call (List.mem_of_getElem? hcall)
  refine ⟨Outline.Keeps.of_calls (fun _ => agrees_segment h.inv hsound (hallowed call hcall))
    (sound_segment _ _ hsound) (List.pairwise_of_forall fun _ _ => trivial), fun other hother => ?_⟩
  have hother := h.each other (List.mem_of_mem_eraseIdx hother)
  exact Outline.Spares.of hother fun _ _ => trivial

theorem lifecycle_of_run {pool pool' : Pool KeyStore Call Outcome} {moves : List (Move Request Outside)}
    (hrun : Run ((keyManagement toUpperCase).Step PatchesLand) pool moves pool')
    (h : lifecycle.Holds pool) : lifecycle.Holds pool' :=
  hrun.invariant (fun _ _ _ (_ : True) hstep h => lifecycle_of_step hstep h) (fun _ _ => trivial) h

/-! ## Runs -/

variable {Allowed : Pool KeyStore Call Outcome → Move Request Outside → Prop}
  {pool pool' : Pool KeyStore Call Outcome} {m : Move Request Outside}
  {moves : List (Move Request Outside)}

/-- Among the moves from a pool is the write of a restore of the version with an id. -/
def Restored (toUpperCase : JsString → JsString)
    (Allowed : Pool KeyStore Call Outcome → Move Request Outside → Prop)
    (pool : Pool KeyStore Call Outcome) (moves : List (Move Request Outside)) (id : ℕ) : Prop :=
  ∃ before index outside after reached name, moves = before ++ .resume index outside :: after ∧
    Run ((keyManagement toUpperCase).Step Allowed) pool before reached ∧
      reached.calls[index]? = some (.writingVersion name id .restore)

/-- In the state of a run and from it on: the state and the destroy time of each version agree, each
step is along the edges, and a version whose destruction is scheduled is enabled only after a restore. -/
structure LifecycleKept (toUpperCase : JsString → JsString)
    (Allowed : Pool KeyStore Call Outcome → Move Request Outside → Prop)
    (pool : Pool KeyStore Call Outcome) : Prop where
  scheduled : ∀ version ∈ pool.shared.versions,
    version.state = .destroyScheduled ↔ version.destroyTime.isSome
  evolves : ∀ m pool', (keyManagement toUpperCase).Step Allowed pool m pool' →
    Evolves pool.shared pool'.shared
  restored : ∀ moves pool', Run ((keyManagement toUpperCase).Step Allowed) pool moves pool' →
    ∀ (i : ℕ) (version version' : CryptoKeyVersionRecord), pool.shared.versions[i]? = some version →
      version.state = .destroyScheduled → pool'.shared.versions[i]? = some version' →
        version'.state = .enabled → Restored toUpperCase Allowed pool moves version.id

theorem evolves_step (h : lifecycle.Holds pool)
    (hstep : (keyManagement toUpperCase).Step PatchesLand pool m pool') (i : ℕ)
    (version : CryptoKeyVersionRecord) (hversion : pool.shared.versions[i]? = some version) :
    ∃ version', pool'.shared.versions[i]? = some version' ∧ version'.id = version.id ∧
      version'.name = version.name ∧
      (version'.state = version.state ∨ Edge version.state version'.state) ∧
      (version.state = .destroyScheduled → version'.state ≠ .destroyScheduled →
        ∃ index outside name, m = .resume index outside ∧
          pool.calls[index]? = some (.writingVersion name version.id .restore)) := by
  obtain ⟨hallowed, hmove⟩ := hstep
  cases m with
  | start request =>
    obtain rfl := Option.some.inj hmove
    exact ⟨version, hversion, rfl, rfl, .inl rfl, fun hstate hne => absurd hstate hne⟩
  | resume index outside =>
    obtain ⟨call, hcall, rfl⟩ := Option.map_eq_some_iff.1 hmove
    have hsound : Sound call := h.each call (List.mem_of_getElem? hcall)
    obtain ⟨version', hversion', hid, hname, hedge, hleaves⟩ :=
      evolves_segment toUpperCase outside h.inv hsound (hallowed call hcall) i version hversion
    refine ⟨version', ?_, hid, hname, hedge, fun hstate hne => ?_⟩
    · rw [Async.advance_shared]
      exact hversion'
    · obtain ⟨name, rfl⟩ := hleaves hstate hne
      exact ⟨index, outside, name, rfl, hcall⟩

/-- **The lifecycle of a key version**, in every run in which no patch lands on a version whose
destruction was scheduled meanwhile. -/
theorem lifecycle_kept {keyRings : List JsString}
    (hrun : Run ((keyManagement toUpperCase).Step PatchesLand) ⟨.start keyRings, [], []⟩ moves pool) :
    LifecycleKept toUpperCase PatchesLand pool := by
  have hstart : lifecycle.Holds ⟨.start keyRings, [], []⟩ :=
    ⟨fun _ hversion => absurd hversion List.not_mem_nil, fun _ hcall => absurd hcall List.not_mem_nil,
      .nil⟩
  have h := lifecycle_of_run hrun hstart
  refine ⟨fun version hversion => (h.inv version hversion).scheduled, fun m pool' hstep => ?_, ?_⟩
  · intro i version hversion
    obtain ⟨version', hversion', -, hname, hedge, -⟩ := evolves_step h hstep i version hversion
    exact ⟨version', hversion', hname, hedge⟩
  · intro moves' pool' hrun' i version version' hversion hscheduled hversion' henabled
    -- the first step out of the scheduled destruction
    let P (p : Pool KeyStore Call Outcome) : Prop :=
      ∃ v, p.shared.versions[i]? = some v ∧ v.id = version.id ∧ v.state = .destroyScheduled
    have hout : ¬P pool' := by
      rintro ⟨v, hv, -, hstate⟩
      obtain rfl := Option.some.inj (hversion'.symm.trans hv)
      exact nomatch henabled.symm.trans hstate
    obtain ⟨before, m, after, reached, left, rfl, hbefore, ⟨v, hv, hid, hstate⟩, hexit, hleft, -⟩ :=
      hrun'.exists_exit ⟨version, hversion, rfl, hscheduled⟩ hout
    obtain ⟨w, hw, hwid, -, -, hleaves⟩ := evolves_step (lifecycle_of_run hbefore h) hexit i v hv
    have hwstate : w.state ≠ .destroyScheduled := fun hstate =>
      hleft ⟨w, hw, hwid.trans hid, hstate⟩
    obtain ⟨index, outside, name, rfl, hcall⟩ := hleaves hstate hwstate
    exact ⟨before, index, outside, after, reached, name, rfl, hbefore, hid ▸ hcall⟩

/-! ## Samples -/

/-- The storage does what it is asked, at the beginning of 1970. -/
def atOnce : Outside := ⟨.done, 0, ⟨List.replicate 32 7, "private", "public", rfl⟩⟩

def sampleRing : JsString := "projects/p/locations/l/keyRings/r"

def sampleKey : JsString := "projects/p/locations/l/keyRings/r/cryptoKeys/k"

def sampleVersion : JsString := sampleKey ++ js "/cryptoKeyVersions/1"

/-- A key for encryption is created, and its first version. -/
def createSampleKey : List (Move Request Outside) :=
  .start (.createCryptoKey 0 sampleRing "k" (.ok ⟨some (.int 1), none⟩) false) ::
    List.replicate 11 (.resume 0 atOnce)

/-- A version is destroyed, restored and enabled, one call after the other. -/
def restoreAndEnable : List (Move Request Outside) :=
  createSampleKey ++ .resume 0 atOnce ::
    .start (.destroyCryptoKeyVersion sampleVersion) :: List.replicate 3 (.resume 0 atOnce) ++
    .start (.restoreCryptoKeyVersion sampleVersion) :: List.replicate 3 (.resume 0 atOnce) ++
    .start (.updateCryptoKeyVersion sampleVersion (.ok (some (.text "enabled"))) none) ::
    List.replicate 3 (.resume 0 atOnce)

theorem lifecycle_kept_restoreAndEnable : ∃ pool,
    Run ((keyManagement asciiHost.toUpperCase).Step PatchesLand) ⟨.start [sampleRing], [], []⟩
      restoreAndEnable pool ∧
      pool.shared.versions.map (fun version => (version.state, version.destroyTime)) =
        [(.enabled, none)] ∧
        LifecycleKept asciiHost.toUpperCase PatchesLand pool := by
  obtain ⟨pool, hrun, htest⟩ : ∃ pool,
      Run ((keyManagement asciiHost.toUpperCase).Step PatchesLand) ⟨.start [sampleRing], [], []⟩
        restoreAndEnable pool ∧
        decide (pool.shared.versions.map (fun version => (version.state, version.destroyTime)) =
          [(.enabled, none)]) = true :=
    Async.exists_run (by decide +kernel)
  exact ⟨pool, hrun, of_decide_eq_true htest, lifecycle_kept hrun⟩

/-- A patch has checked the version before a destroy, and lands after it. -/
def patchOvertaken : List (Move Request Outside) :=
  createSampleKey ++
    [.resume 0 atOnce, .start (.updateCryptoKeyVersion sampleVersion (.ok (some (.int 1))) none),
      .resume 0 atOnce, .start (.destroyCryptoKeyVersion sampleVersion), .resume 1 atOnce,
      .resume 1 atOnce, .resume 1 atOnce, .resume 0 atOnce, .resume 0 atOnce]

/-- The version is usable, with a destroy time and without a restore. -/
theorem not_lifecycle_kept : ¬ ∀ (toUpperCase : JsString → JsString) (keyRings : List JsString)
    (moves : List (Move Request Outside)) (pool : Pool KeyStore Call Outcome),
    Run ((keyManagement toUpperCase).Step fun _ _ => True) ⟨.start keyRings, [], []⟩ moves pool →
      LifecycleKept toUpperCase (fun _ _ => True) pool := by
  intro h
  obtain ⟨pool, hrun, htest⟩ : ∃ pool,
      Run ((keyManagement asciiHost.toUpperCase).Step fun _ _ => True) ⟨.start [sampleRing], [], []⟩
        patchOvertaken pool ∧
        decide (pool.shared.versions.map (fun version => (version.state, version.destroyTime)) =
          [(.enabled, some (js "1970-01-02T00:00:00.000Z"))]) = true :=
    Async.exists_run (by decide +kernel)
  have hversions := of_decide_eq_true htest
  have hkept := (h _ _ _ _ hrun).scheduled
  cases hlist : pool.shared.versions with
  | nil => simp [hlist] at hversions
  | cons version versions =>
      rw [hlist] at hversions hkept
      obtain ⟨hversion, -⟩ := List.cons.inj hversions
      obtain ⟨hstate, htime⟩ := Prod.mk.inj hversion
      have hscheduled := (hkept version List.mem_cons_self).2 (by rw [htime]; rfl)
      exact nomatch hstate.symm.trans hscheduled

end Kinglet.Kms
