import Kinglet.Kms.Lifecycle
import Kinglet.Library.Custody
import Kinglet.Library.Outcome

/-!
# The allocation of version numbers

An allocation waits for the one before it on its key, reads the highest number that is persisted and
inserts the next. With an invariant for the queue (who has begun, who has ended, where the chain of
promises ends) and one for the records, creations that interleave in any way number the versions of
each key from 1 on without a gap, and an allocation that fails stands in nobody's way.

The allocations of a key run in the order in which they enter its queue. A creation enters it only
after its own reads, so this is not the order in which the creations were called.
-/

namespace Kinglet.Kms

open Js Library

/-! ## Allocations in flight -/

/-- The allocation of a call. -/
def Call.allocation : Call → Option Allocation
  | .queued allocation _ | .readingKey allocation | .numbering allocation _
  | .guardingVersion allocation _ _ | .insertingVersion allocation _ _ | .findingKey allocation _
  | .settingPrimary allocation _ _ => some allocation
  | _ => none

/-- The allocation of a call that does not wait any more. -/
def Call.running : Call → Option Allocation
  | .queued _ _ => none
  | call => call.allocation

theorem Call.allocation_of_running {call : Call} {allocation : Allocation}
    (h : call.running = some allocation) : call.allocation = some allocation := by
  cases call <;> first | exact h | cases h

/-- The version a creation was given. -/
def Outcome.given : Outcome → Option CryptoKeyVersionRecord
  | .created _ (.ok given) => given
  | _ => none

/-- The versions of a key, oldest first. -/
def KeyStore.versionsOf (store : KeyStore) (cryptoKeyName : JsString) : List CryptoKeyVersionRecord :=
  store.versions.filter fun version => version.cryptoKeyName = cryptoKeyName

/-- Only creations are called. -/
def Creations (_ : Pool KeyStore Call Outcome) : Move Request Outside → Prop
  | .start (.createCryptoKey _ _ _ _ _) | .start (.createCryptoKeyVersion _ _) | .resume _ _ => True
  | .start _ => False

instance (pool : Pool KeyStore Call Outcome) : DecidablePred (Creations pool)
  | .start (.createCryptoKey _ _ _ _ _) | .start (.createCryptoKeyVersion _ _) | .resume _ _ =>
      isTrue trivial
  | .start (.updatePrimaryVersion _ _) | .start (.updateCryptoKeyVersion _ _ _)
  | .start (.destroyCryptoKeyVersion _) | .start (.restoreCryptoKeyVersion _) => isFalse id

variable {toUpperCase : JsString → JsString} {store store' : KeyStore} {call other : Call}
  {outside : Outside} {allocation : Allocation}

/-! ## What a segment of a creation does -/

def Supported (algorithm : JsString) : Prop := (specs.lookup algorithm).isSome

/-- A creation before it has inserted its key. -/
def Preparing : Call → Prop
  | .checkingKey new | .guardingKey new | .insertingKey new => Supported new.algorithm
  | _ => False

/-- A key is there, or it is inserted now. -/
inductive Provides (store : KeyStore) (name : JsString) : Call → KeyStore → Prop
  | found (call : Call) (key : CryptoKeyRecord) (h : store.getCryptoKeyByName name = some key)
      (hcall : call.allocation = none) : Provides store name call store
  | inserted (new : NewCryptoKey) (h : new.name = name) :
      Provides store name (.insertingKey new) (store.insertKey new)

/-- An allocation returns the version it has inserted. -/
inductive Returns (store : KeyStore) :
    Call → KeyStore → Except Thrown CryptoKeyVersionRecord → Prop
  | error (call : Call) (thrown : Thrown) : Returns store call store (.error thrown)
  | errorWritten (call : Call) (thrown : Thrown) :
      Returns store call (store.written call) (.error thrown)
  | inserted (allocation : Allocation) (key : CryptoKeyRecord) (version : CryptoKeyVersionRecord) :
      Returns store (.insertingVersion allocation key version) (store.insertVersion version)
        (.ok (store.inserted version))
  | gone (allocation : Allocation) (version : CryptoKeyVersionRecord)
      (h : store.getCryptoKeyByName version.cryptoKeyName = none) :
      Returns store (.findingKey allocation version) store (.ok version)
  | primary (allocation : Allocation) (id : ℕ) (version : CryptoKeyVersionRecord) :
      Returns store (.settingPrimary allocation id version)
        (store.setPrimary id (decimal version.versionNumber)) (.ok version)

inductive Effect (store : KeyStore) : Call → KeyStore × Progress Call Outcome → Prop
  | ends (call : Call) (outcome : Outcome) (hcall : call.allocation = none)
      (houtcome : outcome.given = none) : Effect store call (store, .finished outcome)
  | checks (call rest : Call) (hcall : call.allocation = none) (hrest : Preparing rest) :
      Effect store call (store, .pending rest)
  | insertsKey (new : NewCryptoKey) (outcome : Outcome) (houtcome : outcome.given = none) :
      Effect store (.insertingKey new) (store.insertKey new, .finished outcome)
  | enters (call : Call) (provided : KeyStore) (caller : ℕ) (name : JsString)
      (h : Provides store name call provided) : Effect store call (provided.addVersion caller name)
  | waits (call : Call) (h : call.running = none) : Effect store call (store, .pending call)
  | begins (allocation : Allocation) (previous : Option ℕ)
      (h : ∀ number ∈ previous, number ∈ store.settled) :
      Effect store (.queued allocation previous)
        ({ store with begun := store.begun ++ [allocation.number] }, .pending (.readingKey allocation))
  | reads (allocation : Allocation) (key : CryptoKeyRecord)
      (h : store.getCryptoKeyByName allocation.cryptoKeyName = some key) :
      Effect store (.readingKey allocation) (store, .pending (.numbering allocation key))
  | numbers (allocation : Allocation) (key : CryptoKeyRecord) (outside : Outside)
      (version : CryptoKeyVersionRecord)
      (h : newVersion key (store.getHighestVersionNumber allocation.cryptoKeyName + 1) outside =
        some version) :
      Effect store (.numbering allocation key) (store, .pending (.guardingVersion allocation key version))
  | guards (allocation : Allocation) (key : CryptoKeyRecord) (version : CryptoKeyVersionRecord) :
      Effect store (.guardingVersion allocation key version)
        (store, .pending (.insertingVersion allocation key version))
  | inserts (allocation : Allocation) (key : CryptoKeyRecord) (version : CryptoKeyVersionRecord)
      (h : key.primaryVersion = none) :
      Effect store (.insertingVersion allocation key version)
        (store.insertVersion version, .pending (.findingKey allocation (store.inserted version)))
  | finds (allocation : Allocation) (version : CryptoKeyVersionRecord) (key : CryptoKeyRecord)
      (h : store.getCryptoKeyByName version.cryptoKeyName = some key) :
      Effect store (.findingKey allocation version)
        (store, .pending (.settingPrimary allocation key.id version))
  | returns (call : Call) (allocation : Allocation) (left : KeyStore)
      (result : Except Thrown CryptoKeyVersionRecord) (hcall : call.running = some allocation)
      (h : Returns store call left result) : Effect store call (left.allocated allocation result)
  | forgets (cryptoKeyName : JsString) (number : ℕ) (hsettled : number ∈ store.settled)
      (h : store.versionAllocations cryptoKeyName = some number) :
      Effect store (.forgetting cryptoKeyName number)
        ({ store with
            versionAllocations := Function.update store.versionAllocations cryptoKeyName none },
          .finished .forgotten)

/-- A call of a creation. -/
def Creating : Call → Prop
  | .requested (.createCryptoKey _ _ _ _ _) | .requested (.createCryptoKeyVersion _ _)
  | .checkingKey _ | .guardingKey _ | .insertingKey _ | .forgetting _ _ => True
  | call => call.allocation.isSome

theorem requestedAlgorithm_supported {request : CreateCryptoKeyRequest} {purpose : CryptoKeyPurpose}
    {algorithm : JsString} (h : requestedAlgorithm toUpperCase request purpose = .ok algorithm) :
    Supported algorithm := by
  unfold requestedAlgorithm at h
  extract_lets chosen at h
  split at h
  · rename_i hmatches
    rw [Except.ok.inj h] at hmatches
    cases hspec : specs.lookup algorithm with
    | none => simp [algorithmMatchesPurpose, hspec] at hmatches
    | some spec => simp [Supported, hspec]
  · cases h

theorem checkCreate_supported {caller : ℕ} {keyRingName cryptoKeyId : JsString}
    {body : Except JsString CreateCryptoKeyRequest} {skip : Bool} {new : NewCryptoKey}
    (h : checkCreate toUpperCase caller keyRingName cryptoKeyId body skip = .ok new) :
    Supported new.algorithm := by
  cases body with
  | error message => cases h
  | ok request =>
    obtain ⟨purpose, -, h⟩ := bind_eq_ok.1 h
    obtain ⟨algorithm, halgorithm, h⟩ := bind_eq_ok.1 h
    obtain ⟨level, -, h⟩ := bind_eq_ok.1 h
    split at h
    · obtain rfl := Except.ok.inj h
      exact requestedAlgorithm_supported halgorithm
    · cases h

theorem effect_request (store : KeyStore) (outside : Outside) {request : Request}
    (h : Creating (.requested request)) :
    Effect store (.requested request) (store.request toUpperCase outside request) := by
  cases request with
  | createCryptoKey caller keyRingName cryptoKeyId body skip =>
    simp only [KeyStore.request]
    split
    · exact .ends _ _ rfl rfl
    · split
      · exact .ends _ _ rfl rfl
      · split
        · exact .ends _ _ rfl rfl
        · rename_i new hnew
          exact .checks _ _ rfl (checkCreate_supported hnew)
  | createCryptoKeyVersion caller cryptoKeyName =>
    simp only [KeyStore.request]
    split
    · exact .ends _ _ rfl rfl
    · rename_i key hkey
      exact .enters _ _ _ _ (.found _ key hkey rfl)
  | _ => cases h

/-- A rejection ends the call; with an allocation it ends that too. -/
theorem effect_fails (store : KeyStore) (thrown : Thrown) (applied : Bool) (h : Creating call)
    (hstorage : call.awaitsStorage = true) :
    Effect store call ((if applied then store.written call else store).fails thrown call) := by
  have hreturns : ∀ allocation, call.running = some allocation → Effect store call
      ((if applied then store.written call else store).allocated allocation (.error thrown)) := by
    intro allocation hcall
    cases applied with
    | true => exact .returns _ _ _ _ hcall (.errorWritten _ _)
    | false => exact .returns _ _ _ _ hcall (.error _ _)
  cases call with
  | requested request =>
    have hsame : (if applied then store.written (.requested request) else store) = store := by
      cases applied <;> rfl
    rw [hsame]
    cases request with
    | createCryptoKey | createCryptoKeyVersion => exact .ends _ _ rfl rfl
    | _ => cases h
  | checkingKey new | guardingKey new =>
    have hsame : (if applied then store else store) = store := ite_self store
    simp only [KeyStore.written, KeyStore.fails, hsame]
    exact .ends _ _ rfl rfl
  | insertingKey new =>
    cases applied with
    | true => exact .insertsKey _ _ rfl
    | false => exact .ends _ _ rfl rfl
  | queued | forgetting => cases hstorage
  | readingKey allocation | numbering allocation key | guardingVersion allocation key version
  | insertingVersion allocation key version | findingKey allocation version
  | settingPrimary allocation id version => exact hreturns allocation rfl
  | _ => cases h

theorem effect_answered (store : KeyStore) (outside : Outside) (hcreating : Creating call)
    (hcall : ∀ new, call = .checkingKey new ∨ call = .guardingKey new → Supported new.algorithm) :
    Effect store call (store.answered toUpperCase outside call) := by
  cases call with
  | requested request => exact effect_request store outside hcreating
  | checkingKey new =>
    simp only [KeyStore.answered]
    split
    · exact .ends _ _ rfl rfl
    · exact .checks _ _ rfl (hcall new (.inl rfl))
  | guardingKey new =>
    simp only [KeyStore.answered]
    split
    · exact .ends _ _ rfl rfl
    · exact .checks _ _ rfl (hcall new (.inr rfl))
  | insertingKey new =>
    simp only [KeyStore.answered]
    split
    · exact .insertsKey _ _ rfl
    · exact .enters _ _ _ _ (.inserted new rfl)
  | queued allocation previous =>
    simp only [KeyStore.answered]
    split
    · rename_i h
      exact .begins allocation previous (by simpa [Option.all_eq_true] using h)
    · exact .waits _ rfl
  | readingKey allocation =>
    simp only [KeyStore.answered]
    split
    · exact .returns _ _ _ _ rfl (.error _ _)
    · exact .reads _ _ ‹_›
  | numbering allocation key =>
    simp only [KeyStore.answered]
    split
    · exact .returns _ _ _ _ rfl (.error _ _)
    · exact .numbers _ _ outside _ ‹_›
  | guardingVersion allocation key version =>
    simp only [KeyStore.answered]
    split
    · exact .returns _ _ _ _ rfl (.error _ _)
    · exact .guards _ _ _
  | insertingVersion allocation key version =>
    simp only [KeyStore.answered]
    split
    · exact .returns _ _ _ _ rfl (.inserted _ _ _)
    · rename_i h
      exact .inserts _ _ _ (by simpa using (not_or.1 h).1)
  | findingKey allocation version =>
    simp only [KeyStore.answered]
    split
    · exact .returns _ _ _ _ rfl (.gone _ _ ‹_›)
    · exact .finds _ _ _ ‹_›
  | settingPrimary allocation id version =>
    exact .returns _ _ _ _ rfl (.primary _ _ _)
  | forgetting cryptoKeyName number =>
    simp only [KeyStore.answered]
    split
    · split
      · exact .forgets _ _ ‹_› ‹_›
      · exact .ends _ _ rfl rfl
    · exact .waits _ rfl
  | _ => cases hcreating

theorem effect_segment (store : KeyStore) (outside : Outside) (hcreating : Creating call)
    (hcall : ∀ new, call = .checkingKey new ∨ call = .guardingKey new → Supported new.algorithm) :
    Effect store call (store.segment toUpperCase call outside) := by
  unfold KeyStore.segment
  split
  · exact effect_fails store _ _ hcreating ‹_›
  · exact effect_answered store outside hcreating hcall

/-! ## The invariant -/

/-- What the queue says of an allocation that has not ended. -/
structure Enqueued (store : KeyStore) (allocation : Allocation) : Prop where
  lt : allocation.number < store.allocations
  key : store.keyOf allocation.number = allocation.cryptoKeyName
  unsettled : allocation.number ∉ store.settled
  last : ∃ last, store.versionAllocations allocation.cryptoKeyName = some last ∧
    allocation.number ≤ last
  front : ∀ number ∈ store.begun, store.keyOf number = allocation.cryptoKeyName →
    number ≤ allocation.number

structure Queue (store : KeyStore) : Prop where
  begun_lt : ∀ number ∈ store.begun, number < store.allocations
  begun_of_settled : ∀ number ∈ store.settled, number ∈ store.begun
  ordered : store.begun.Pairwise fun number later =>
    store.keyOf number = store.keyOf later → number < later
  last : ∀ name number, store.versionAllocations name = some number →
    number < store.allocations ∧ store.keyOf number = name

/-- The keys and versions as they are persisted. -/
structure Records (store : KeyStore) : Prop where
  ids : ∀ (i : ℕ) (key : CryptoKeyRecord), store.cryptoKeys[i]? = some key → key.id = i
  supported : ∀ key ∈ store.cryptoKeys, Supported key.algorithm
  numbered : ∀ name, (store.versionsOf name).map CryptoKeyVersionRecord.versionNumber =
    List.range' 1 (store.versionsOf name).length
  named : ∀ version ∈ store.versions, version.name =
    buildCryptoKeyVersionName version.cryptoKeyName (decimal version.versionNumber)

/-- The next version of a key. -/
structure Next (store : KeyStore) (name : JsString) (version : CryptoKeyVersionRecord) : Prop where
  key : version.cryptoKeyName = name
  number : version.versionNumber = (store.versionsOf name).length + 1
  named : version.name = buildCryptoKeyVersionName name (decimal version.versionNumber)

/-- What a call relies on when it goes on. -/
def Phase (store : KeyStore) : Call → Prop
  | .checkingKey new | .guardingKey new | .insertingKey new => Supported new.algorithm
  | .queued allocation previous => allocation.number ∉ store.begun ∧
      ∀ number ∈ previous, number < allocation.number ∧
        store.keyOf number = allocation.cryptoKeyName
  | .readingKey allocation => allocation.number ∈ store.begun
  | .numbering allocation key => allocation.number ∈ store.begun ∧
      store.getCryptoKeyByName allocation.cryptoKeyName = some key
  | .guardingVersion allocation key version | .insertingVersion allocation key version =>
      allocation.number ∈ store.begun ∧
        store.getCryptoKeyByName allocation.cryptoKeyName = some key ∧
        Next store allocation.cryptoKeyName version
  | .findingKey allocation version => allocation.number ∈ store.begun ∧
      version ∈ store.versionsOf allocation.cryptoKeyName ∧
      ∃ key, store.getCryptoKeyByName allocation.cryptoKeyName = some key ∧ key.primaryVersion = none
  | .settingPrimary allocation id version => allocation.number ∈ store.begun ∧
      version ∈ store.versionsOf allocation.cryptoKeyName ∧
      ∃ key, store.getCryptoKeyByName allocation.cryptoKeyName = some key ∧
        key.primaryVersion = none ∧ key.id = id
  | _ => True

structure Standing (store : KeyStore) (call : Call) : Prop where
  creating : Creating call
  enqueued : ∀ allocation ∈ call.allocation, Enqueued store allocation
  known : ∀ allocation ∈ call.allocation,
    (store.getCryptoKeyByName allocation.cryptoKeyName).isSome
  phase : Phase store call

/-- A call waits for a number or for one after it. -/
def Behind (number : ℕ) : Call → Prop
  | .queued _ (some previous) => number ≤ previous
  | _ => False

/-- Of two allocations of one key, the later one waits. -/
def Ordered (call other : Call) : Prop :=
  ∀ allocation ∈ call.allocation, ∀ later ∈ other.allocation,
    allocation.number < later.number ∧
        (allocation.cryptoKeyName = later.cryptoKeyName → Behind allocation.number other) ∨
      later.number < allocation.number ∧
        (allocation.cryptoKeyName = later.cryptoKeyName → Behind later.number call)

theorem Ordered.symm (h : Ordered call other) : Ordered other call := by
  intro allocation hallocation later hlater
  rcases h later hlater allocation hallocation with ⟨hlt, hbehind⟩ | ⟨hlt, hbehind⟩
  · exact .inr ⟨hlt, fun hkey => hbehind hkey.symm⟩
  · exact .inl ⟨hlt, fun hkey => hbehind hkey.symm⟩

theorem Ordered.of_none (h : call.allocation = none) : Ordered call other := by
  intro allocation hallocation
  rw [h] at hallocation
  cases hallocation

/-- The queue, the records, and the versions that were given. -/
def allocating : Outline KeyStore Call Outcome where
  Inv store outcomes := Queue store ∧ Records store ∧
    ∀ outcome ∈ outcomes, ∀ version ∈ outcome.given, version ∈ store.versions
  Local := Standing
  Pair := Ordered
  symm := Ordered.symm

/-! ## Reading the invariant -/

theorem not_behind_of_running {number : ℕ} (h : call.running = some allocation) :
    ¬Behind number call := by
  cases call <;> first | exact id | cases h

/-- Two running allocations are of two keys. -/
theorem Ordered.ne_of_running {later : Allocation} (h : Ordered call other)
    (hcall : call.running = some allocation) (hother : other.running = some later) :
    allocation.cryptoKeyName ≠ later.cryptoKeyName := by
  intro hkey
  rcases h _ (Call.allocation_of_running hcall) _ (Call.allocation_of_running hother) with
    ⟨-, hbehind⟩ | ⟨-, hbehind⟩
  · exact not_behind_of_running hother (hbehind hkey)
  · exact not_behind_of_running hcall (hbehind hkey)

theorem Ordered.number_ne {later : Allocation} (h : Ordered call other)
    (hcall : call.allocation = some allocation) (hother : other.allocation = some later) :
    later.number ≠ allocation.number := by
  rcases h _ hcall _ hother with ⟨hlt, -⟩ | ⟨hlt, -⟩
  · exact hlt.ne'
  · exact hlt.ne

/-- A call that goes on with its allocation stands to the others as before. -/
theorem Ordered.goes_on {rest : Call} (h : Ordered call other)
    (hcall : call.running = some allocation) (hrest : rest.allocation = some allocation) :
    Ordered rest other := by
  intro a ha later hlater
  obtain rfl := Option.some.inj (hrest.symm.trans ha)
  rcases h _ (Call.allocation_of_running hcall) _ hlater with ⟨hlt, hbehind⟩ | ⟨hlt, hbehind⟩
  · exact .inl ⟨hlt, hbehind⟩
  · exact .inr ⟨hlt, fun hkey => absurd (hbehind hkey) (not_behind_of_running hcall)⟩

theorem getCryptoKeyByName_eq_some {name : JsString} {key : CryptoKeyRecord}
    (h : store.getCryptoKeyByName name = some key) : key ∈ store.cryptoKeys ∧ key.name = name :=
  ⟨List.mem_of_find?_eq_some h, by simpa using List.find?_some h⟩

/-- The highest number is how many versions there are. -/
theorem Records.highest (h : Records store) (name : JsString) :
    store.getHighestVersionNumber name = (store.versionsOf name).length := by
  have hmax : ∀ n, (List.range' 1 n).foldl max 0 = n := by
    intro n
    induction n with
    | zero => rfl
    | succ n ih =>
      rw [List.range'_1_concat, List.foldl_append, ih]
      simp [Nat.add_comm]
  calc store.getHighestVersionNumber name
      = ((store.versionsOf name).map CryptoKeyVersionRecord.versionNumber).foldl max 0 := by
        rw [List.foldl_map]
        rfl
    _ = (store.versionsOf name).length := by rw [h.numbered, hmax]

theorem Records.number_le (h : Records store) {version : CryptoKeyVersionRecord}
    (hversion : version ∈ store.versions) :
    version.versionNumber ≤ (store.versionsOf version.cryptoKeyName).length := by
  have hmem : version ∈ store.versionsOf version.cryptoKeyName :=
    List.mem_filter.2 ⟨hversion, by simp⟩
  have hnumber := List.mem_map_of_mem (f := CryptoKeyVersionRecord.versionNumber) hmem
  rw [h.numbered, List.mem_range'_1] at hnumber
  omega

theorem slash_notMem_decimal (number : ℕ) : unit '/' ∉ decimal number := by
  intro hmem
  have hdigit := isDigit_of_mem_decimal hmem
  exact absurd hdigit (by decide)

/-- The name of a version says its key and its id, as long as the id has no slash. -/
theorem buildCryptoKeyVersionName_inj {name name' versionId versionId' : JsString}
    (hslash : unit '/' ∉ versionId) (hslash' : unit '/' ∉ versionId')
    (h : buildCryptoKeyVersionName name versionId = buildCryptoKeyVersionName name' versionId') :
    name = name' ∧ versionId = versionId' := by
  have hreverse : ∀ name versionId : JsString,
      (buildCryptoKeyVersionName name versionId).reverse =
        versionId.reverse ++ unit '/' :: ((js "/cryptoKeyVersions").reverse ++ name.reverse) := by
    intro name versionId
    have hpath : js "/cryptoKeyVersions/" = js "/cryptoKeyVersions" ++ [unit '/'] := by decide
    simp [buildCryptoKeyVersionName, hpath]
  have hreversed := congrArg List.reverse h
  rw [hreverse, hreverse] at hreversed
  obtain ⟨hid, hname⟩ := append_cons_inj (fun hmem => hslash (List.mem_reverse.1 hmem))
    (fun hmem => hslash' (List.mem_reverse.1 hmem)) hreversed
  exact ⟨List.reverse_injective (List.append_cancel_left hname), List.reverse_injective hid⟩

theorem buildCryptoKeyVersionName_injective {name name' : JsString} {number number' : ℕ}
    (h : buildCryptoKeyVersionName name (decimal number) =
      buildCryptoKeyVersionName name' (decimal number')) : name = name' ∧ number = number' := by
  obtain ⟨hname, hnumber⟩ := buildCryptoKeyVersionName_inj (slash_notMem_decimal number)
    (slash_notMem_decimal number') h
  exact ⟨hname, decimal_injective hnumber⟩

/-- The name of the next version is free. -/
theorem Records.free (h : Records store) {name : JsString} {version : CryptoKeyVersionRecord}
    (hnext : Next store name version) : store.getVersionByName version.name = none := by
  refine List.find?_eq_none.2 fun other hother => ?_
  simp only [decide_eq_true_eq]
  intro hname
  rw [h.named other hother, hnext.named] at hname
  obtain ⟨hkey, hnumber⟩ := buildCryptoKeyVersionName_injective hname
  have hle := h.number_le hother
  rw [hkey, hnumber, hnext.number] at hle
  omega

/-! ## What the changes keep of the queue and the records -/

theorem isSome_getCryptoKeyByName_insertKey (new : NewCryptoKey) (name : JsString)
    (h : (store.getCryptoKeyByName name).isSome ∨ new.name = name) :
    ((store.insertKey new).getCryptoKeyByName name).isSome := by
  simp only [KeyStore.getCryptoKeyByName, KeyStore.insertKey, List.find?_append,
    Option.isSome_or, Bool.or_eq_true]
  rcases h with h | rfl
  · exact .inl h
  · exact .inr (by simp)

theorem getCryptoKeyByName_insertKey (new : NewCryptoKey) {name : JsString} {key : CryptoKeyRecord}
    (h : store.getCryptoKeyByName name = some key) :
    (store.insertKey new).getCryptoKeyByName name = some key := by
  simp only [KeyStore.getCryptoKeyByName] at h
  simp [KeyStore.getCryptoKeyByName, KeyStore.insertKey, List.find?_append, h]

theorem getCryptoKeyByName_setPrimary (id : ℕ) (versionId name : JsString) :
    (store.setPrimary id versionId).getCryptoKeyByName name =
      (store.getCryptoKeyByName name).map fun key =>
        if key.id = id then { key with primaryVersion := some versionId } else key := by
  simp only [KeyStore.getCryptoKeyByName, KeyStore.setPrimary, List.find?_map]
  congr 2
  funext key
  simp only [Function.comp]
  split <;> rfl

theorem versionsOf_insertVersion_of_ne {version : CryptoKeyVersionRecord} {name : JsString}
    (h : version.cryptoKeyName ≠ name) :
    (store.insertVersion version).versionsOf name = store.versionsOf name := by
  simp [KeyStore.versionsOf, KeyStore.insertVersion, KeyStore.inserted, h]

theorem versionsOf_insertVersion_self (version : CryptoKeyVersionRecord) :
    (store.insertVersion version).versionsOf version.cryptoKeyName =
      store.versionsOf version.cryptoKeyName ++ [store.inserted version] := by
  simp [KeyStore.versionsOf, KeyStore.insertVersion, KeyStore.inserted]

theorem Queue.addVersion (h : Queue store) (caller : ℕ) (name : JsString) :
    Queue (store.addVersion caller name).1 := by
  have hkeyOf : ∀ number < store.allocations,
      (store.addVersion caller name).1.keyOf number = store.keyOf number := by
    intro number hlt
    exact Function.update_of_ne hlt.ne _ _
  refine ⟨fun number hnumber => ?_, h.begun_of_settled, ?_, fun other number hlast => ?_⟩
  · exact (h.begun_lt number hnumber).trans (Nat.lt_succ_self _)
  · refine h.ordered.imp_of_mem fun hnumber hlater hlt hkey => hlt ?_
    rwa [hkeyOf _ (h.begun_lt _ hnumber), hkeyOf _ (h.begun_lt _ hlater)] at hkey
  · change Function.update store.versionAllocations name (some store.allocations) other = _ at hlast
    by_cases hname : other = name
    · rw [hname, Function.update_self] at hlast
      obtain rfl := Option.some.inj hlast
      exact ⟨Nat.lt_succ_self _, hname ▸ Function.update_self _ _ _⟩
    · rw [Function.update_of_ne hname] at hlast
      obtain ⟨hlt, hkey⟩ := h.last other number hlast
      exact ⟨hlt.trans (Nat.lt_succ_self _), (hkeyOf number hlt).trans hkey⟩

theorem Queue.begin (h : Queue store) (henqueued : Enqueued store allocation)
    (hnew : allocation.number ∉ store.begun) :
    Queue { store with begun := store.begun ++ [allocation.number] } := by
  refine ⟨fun number hnumber => ?_, fun number hnumber => ?_, ?_, h.last⟩
  · rcases List.mem_append.1 hnumber with hnumber | hnumber
    · exact h.begun_lt number hnumber
    · obtain rfl := List.mem_singleton.1 hnumber
      exact henqueued.lt
  · exact List.mem_append_left _ (h.begun_of_settled number hnumber)
  · refine List.pairwise_append.2 ⟨h.ordered, List.pairwise_singleton _ _, ?_⟩
    intro number hnumber later hlater hkey
    obtain rfl := List.mem_singleton.1 hlater
    have hle := henqueued.front number hnumber (hkey.trans henqueued.key)
    exact lt_of_le_of_ne hle fun heq => hnew (heq ▸ hnumber)

theorem Queue.settle (h : Queue store) {number : ℕ} (hbegun : number ∈ store.begun) :
    Queue (store.settle number) :=
  ⟨h.begun_lt, List.forall_mem_cons.2 ⟨hbegun, h.begun_of_settled⟩, h.ordered, h.last⟩

theorem Queue.forget (h : Queue store) (name : JsString) :
    Queue { store with
      versionAllocations := Function.update store.versionAllocations name none } := by
  refine ⟨h.begun_lt, h.begun_of_settled, h.ordered, fun other number hlast => ?_⟩
  by_cases hname : other = name
  · change Function.update _ _ _ _ = _ at hlast
    rw [hname, Function.update_self] at hlast
    cases hlast
  · exact h.last other number ((Function.update_of_ne hname _ _).symm.trans hlast)

theorem Queue.records (h : Queue store) (cryptoKeys : List CryptoKeyRecord)
    (versions : List CryptoKeyVersionRecord) :
    Queue { store with cryptoKeys := cryptoKeys, versions := versions } :=
  ⟨h.begun_lt, h.begun_of_settled, h.ordered, h.last⟩

theorem Records.insertKey (h : Records store) {new : NewCryptoKey} (hnew : Supported new.algorithm) :
    Records (store.insertKey new) := by
  refine ⟨fun i key hkey => ?_, fun key hkey => ?_, h.numbered, h.named⟩
  · rcases Nat.lt_or_ge i store.cryptoKeys.length with hlt | hge
    · exact h.ids i key ((List.getElem?_append_left hlt).symm.trans hkey)
    · rw [KeyStore.insertKey, List.getElem?_append_right hge] at hkey
      rw [List.getElem?_singleton] at hkey
      split at hkey
      · obtain rfl := Option.some.inj hkey
        exact le_antisymm hge (Nat.sub_eq_zero_iff_le.1 ‹_›)
      · cases hkey
  · rcases List.mem_append.1 hkey with hkey | hkey
    · exact h.supported key hkey
    · obtain rfl := List.mem_singleton.1 hkey
      exact hnew

theorem Records.setPrimary (h : Records store) (id : ℕ) (versionId : JsString) :
    Records (store.setPrimary id versionId) := by
  refine ⟨fun i key hkey => ?_, fun key hkey => ?_, h.numbered, h.named⟩
  · obtain ⟨before, hbefore, rfl⟩ := Option.map_eq_some_iff.1 (List.getElem?_map ▸ hkey)
    have hid := h.ids i before hbefore
    split <;> exact hid
  · obtain ⟨before, hbefore, rfl⟩ := List.mem_map.1 hkey
    have hsupported := h.supported before hbefore
    split <;> exact hsupported

theorem Records.insertVersion (h : Records store) {version : CryptoKeyVersionRecord}
    (hnext : Next store version.cryptoKeyName version) : Records (store.insertVersion version) := by
  refine ⟨h.ids, h.supported, fun name => ?_, fun other hother => ?_⟩
  · by_cases hname : version.cryptoKeyName = name
    · rw [← hname, versionsOf_insertVersion_self, List.map_append, h.numbered, List.length_append,
        List.length_singleton, List.range'_1_concat, Nat.add_comm 1, ← hnext.number]
      rfl
    · rw [versionsOf_insertVersion_of_ne hname, h.numbered]
  · rcases List.mem_append.1 hother with hother | hother
    · exact h.named other hother
    · obtain rfl := List.mem_singleton.1 hother
      exact hnext.named

/-! ## What they keep of another call -/

section Other

variable (h : Standing store other)

include h

theorem Standing.frame (henqueued : ∀ allocation ∈ other.allocation, Enqueued store' allocation)
    (hbegun : ∀ allocation ∈ other.allocation,
      (allocation.number ∈ store'.begun ↔ allocation.number ∈ store.begun))
    (hkeyOf : ∀ number < store.allocations, store'.keyOf number = store.keyOf number)
    (hknown : ∀ name, (store.getCryptoKeyByName name).isSome →
      (store'.getCryptoKeyByName name).isSome)
    (hkeys : ∀ allocation ∈ other.running, ∀ key,
      store.getCryptoKeyByName allocation.cryptoKeyName = some key →
        store'.getCryptoKeyByName allocation.cryptoKeyName = some key)
    (hversions : ∀ allocation ∈ other.running,
      store'.versionsOf allocation.cryptoKeyName = store.versionsOf allocation.cryptoKeyName) :
    Standing store' other := by
  refine ⟨h.creating, henqueued,
    fun allocation hallocation => hknown _ (h.known allocation hallocation), ?_⟩
  have hphase := h.phase
  have hnext : ∀ allocation ∈ other.running, ∀ version,
      Next store allocation.cryptoKeyName version → Next store' allocation.cryptoKeyName version := by
    intro allocation hallocation version hnext
    exact ⟨hnext.key, by rw [hversions allocation hallocation, hnext.number], hnext.named⟩
  cases other with
  | queued allocation previous =>
    obtain ⟨hnew, hprevious⟩ := hphase
    refine ⟨fun hmem => hnew ((hbegun allocation rfl).1 hmem), fun number hnumber => ?_⟩
    obtain ⟨hlt, hkey⟩ := hprevious number hnumber
    exact ⟨hlt, (hkeyOf number (hlt.trans (h.enqueued allocation rfl).lt)).trans hkey⟩
  | readingKey allocation => exact (hbegun allocation rfl).2 hphase
  | numbering allocation key =>
    exact ⟨(hbegun allocation rfl).2 hphase.1, hkeys allocation rfl key hphase.2⟩
  | guardingVersion allocation key version | insertingVersion allocation key version =>
    obtain ⟨hmem, hkey, hversion⟩ := hphase
    exact ⟨(hbegun allocation rfl).2 hmem, hkeys allocation rfl key hkey,
      hnext allocation rfl version hversion⟩
  | findingKey allocation version | settingPrimary allocation id version =>
    obtain ⟨hmem, hversion, key, hkey, hprimary⟩ := hphase
    exact ⟨(hbegun allocation rfl).2 hmem, hversions allocation rfl ▸ hversion, key,
      hkeys allocation rfl key hkey, hprimary⟩
  | _ => exact hphase

theorem Standing.insertKey (new : NewCryptoKey) : Standing (store.insertKey new) other := by
  refine h.frame (fun allocation hallocation => ?_) (fun _ _ => .rfl) (fun _ _ => rfl)
    (fun name hname => isSome_getCryptoKeyByName_insertKey new name (.inl hname))
    (fun _ _ key hkey => getCryptoKeyByName_insertKey new hkey) fun _ _ => rfl
  obtain ⟨hlt, hkey, hunsettled, hlast, hfront⟩ := h.enqueued allocation hallocation
  exact ⟨hlt, hkey, hunsettled, hlast, hfront⟩

theorem Standing.insertVersion {version : CryptoKeyVersionRecord}
    (hne : ∀ allocation ∈ other.running, version.cryptoKeyName ≠ allocation.cryptoKeyName) :
    Standing (store.insertVersion version) other := by
  refine h.frame (fun allocation hallocation => ?_) (fun _ _ => .rfl) (fun _ _ => rfl)
    (fun _ hname => hname) (fun _ _ _ hkey => hkey) fun allocation hallocation =>
      versionsOf_insertVersion_of_ne (hne allocation hallocation)
  obtain ⟨hlt, hkey, hunsettled, hlast, hfront⟩ := h.enqueued allocation hallocation
  exact ⟨hlt, hkey, hunsettled, hlast, hfront⟩

theorem Standing.setPrimary {id : ℕ} {versionId : JsString}
    (hne : ∀ allocation ∈ other.running, ∀ key,
      store.getCryptoKeyByName allocation.cryptoKeyName = some key → key.id ≠ id) :
    Standing (store.setPrimary id versionId) other := by
  refine h.frame (fun allocation hallocation => ?_) (fun _ _ => .rfl) (fun _ _ => rfl)
    (fun name hname => ?_) (fun allocation hallocation key hkey => ?_) fun _ _ => rfl
  · obtain ⟨hlt, hkey, hunsettled, hlast, hfront⟩ := h.enqueued allocation hallocation
    exact ⟨hlt, hkey, hunsettled, hlast, hfront⟩
  · rwa [getCryptoKeyByName_setPrimary, Option.isSome_map]
  · simp [getCryptoKeyByName_setPrimary, hkey, hne allocation hallocation key hkey]

theorem Standing.addVersion (hqueue : Queue store) (caller : ℕ) (name : JsString) :
    Standing (store.addVersion caller name).1 other := by
  have hkeyOf : ∀ number < store.allocations,
      (store.addVersion caller name).1.keyOf number = store.keyOf number := by
    intro number hlt
    exact Function.update_of_ne hlt.ne _ _
  refine h.frame (fun allocation hallocation => ?_) (fun _ _ => .rfl) hkeyOf
    (fun _ hname => hname) (fun _ _ _ hkey => hkey) fun _ _ => rfl
  obtain ⟨hlt, hkey, hunsettled, ⟨last, hlast, hle⟩, hfront⟩ := h.enqueued allocation hallocation
  refine ⟨hlt.trans (Nat.lt_succ_self _), (hkeyOf _ hlt).trans hkey, hunsettled, ?_,
    fun number hnumber hsame => hfront number hnumber ?_⟩
  · by_cases hname : allocation.cryptoKeyName = name
    · exact ⟨store.allocations, hname ▸ Function.update_self _ _ _, hlt.le⟩
    · exact ⟨last, (Function.update_of_ne hname _ _).trans hlast, hle⟩
  · rwa [hkeyOf number (hqueue.begun_lt number hnumber)] at hsame

theorem Standing.begin {number : ℕ} (hne : ∀ later ∈ other.allocation, later.number ≠ number)
    (hfront : ∀ later ∈ other.allocation, store.keyOf number = later.cryptoKeyName →
      number ≤ later.number) :
    Standing { store with begun := store.begun ++ [number] } other := by
  refine h.frame (fun later hlater => ?_) (fun later hlater => ?_) (fun _ _ => rfl)
    (fun _ hname => hname) (fun _ _ _ hkey => hkey) fun _ _ => rfl
  · obtain ⟨hlt, hkey, hunsettled, hlast, hbefore⟩ := h.enqueued later hlater
    refine ⟨hlt, hkey, hunsettled, hlast, fun n hn hsame => ?_⟩
    rcases List.mem_append.1 hn with hn | hn
    · exact hbefore n hn hsame
    · obtain rfl := List.mem_singleton.1 hn
      exact hfront later hlater hsame
  · simp [hne later hlater]

theorem Standing.settle {number : ℕ} (hne : ∀ later ∈ other.allocation, later.number ≠ number) :
    Standing (store.settle number) other := by
  refine h.frame (fun later hlater => ?_) (fun _ _ => .rfl) (fun _ _ => rfl)
    (fun _ hname => hname) (fun _ _ _ hkey => hkey) fun _ _ => rfl
  obtain ⟨hlt, hkey, hunsettled, hlast, hbefore⟩ := h.enqueued later hlater
  exact ⟨hlt, hkey, List.not_mem_cons_of_ne_of_not_mem (hne later hlater) hunsettled, hlast, hbefore⟩

/-- A promise is forgotten only when nobody of its key is in flight any more. -/
theorem Standing.forget (hqueue : Queue store) {name : JsString} {number : ℕ}
    (hsettled : number ∈ store.settled) (hlast : store.versionAllocations name = some number) :
    Standing { store with
      versionAllocations := Function.update store.versionAllocations name none } other := by
  refine h.frame (fun later hlater => ?_) (fun _ _ => .rfl) (fun _ _ => rfl)
    (fun _ hname => hname) (fun _ _ _ hkey => hkey) fun _ _ => rfl
  obtain ⟨hlt, hkey, hunsettled, ⟨last, hlater, hle⟩, hfront⟩ := h.enqueued later hlater
  have hne : later.cryptoKeyName ≠ name := by
    intro hname
    rw [hname, hlast] at hlater
    obtain rfl := Option.some.inj hlater
    -- it has begun, so `later` is not before it, and then it is `later`
    have hge := hfront number (hqueue.begun_of_settled number hsettled)
      ((hqueue.last name number hlast).2.trans hname.symm)
    exact hunsettled (le_antisymm hge hle ▸ hsettled)
  exact ⟨hlt, hkey, hunsettled, ⟨last, (Function.update_of_ne hne _ _).trans hlater, hle⟩, hfront⟩

end Other

/-! ## What a segment keeps -/

theorem Records.eq_of_id (h : Records store) {key key' : CryptoKeyRecord}
    (hkey : key ∈ store.cryptoKeys) (hkey' : key' ∈ store.cryptoKeys) (hid : key.id = key'.id) :
    key = key' := by
  obtain ⟨i, hi⟩ := List.mem_iff_getElem?.1 hkey
  obtain ⟨j, hj⟩ := List.mem_iff_getElem?.1 hkey'
  obtain rfl : i = j := (h.ids i key hi).symm.trans (hid.trans (h.ids j key' hj))
  exact Option.some.inj (hi.symm.trans hj)

section Segment

variable (hrecords : Records store) (h : Standing store call)

include hrecords h

/-- What was asked of the storage keeps what another call relies on. -/
theorem standing_written (hother : Standing store other) (hpair : Ordered call other) :
    Standing (store.written call) other := by
  have hcreating := h.creating
  have hphase := h.phase
  cases call with
  | insertingKey new => exact hother.insertKey new
  | insertingVersion allocation key version =>
    obtain ⟨-, -, hnext⟩ := hphase
    refine hother.insertVersion fun later hlater => ?_
    rw [hnext.key]
    exact hpair.ne_of_running rfl hlater
  | settingPrimary allocation id version =>
    obtain ⟨-, -, key, hkey, -, rfl⟩ := hphase
    refine hother.setPrimary fun later hlater key' hkey' hid => ?_
    obtain ⟨hmem, hname⟩ := getCryptoKeyByName_eq_some hkey
    obtain ⟨hmem', hname'⟩ := getCryptoKeyByName_eq_some hkey'
    obtain rfl := hrecords.eq_of_id hmem' hmem hid
    exact hpair.ne_of_running rfl hlater (hname.symm.trans hname')
  | writingPrimary | writingVersion => cases hcreating
  | _ => exact hother

theorem standing_returns {left : KeyStore} {result : Except Thrown CryptoKeyVersionRecord}
    (hcall : call.running = some allocation) (hreturns : Returns store call left result)
    (hother : Standing store other) (hpair : Ordered call other) :
    Standing (left.settle allocation.number) other := by
  have hwritten := standing_written hrecords h hother hpair
  have hleft : Standing left other := by
    cases hreturns with
    | error | gone => exact hother
    | errorWritten | inserted | primary => exact hwritten
  exact hleft.settle fun later hlater =>
    hpair.number_ne (Call.allocation_of_running hcall) hlater

variable (hqueue : Queue store)

include hqueue

/-- And it keeps the queue and the records. -/
theorem inv_written : Queue (store.written call) ∧ Records (store.written call) ∧
    store.versions ⊆ (store.written call).versions := by
  have hcreating := h.creating
  have hphase := h.phase
  cases call with
  | insertingKey new => exact ⟨hqueue.records _ _, hrecords.insertKey hphase, List.Subset.refl _⟩
  | insertingVersion allocation key version =>
    obtain ⟨-, -, hnext⟩ := hphase
    exact ⟨hqueue.records _ _, hrecords.insertVersion (hnext.key ▸ hnext),
      List.subset_append_left _ _⟩
  | settingPrimary allocation id version =>
    exact ⟨hqueue.records _ _, hrecords.setPrimary _ _, List.Subset.refl _⟩
  | writingPrimary | writingVersion => cases hcreating
  | _ => exact ⟨hqueue, hrecords, List.Subset.refl _⟩

theorem inv_provides {name : JsString} {provided : KeyStore}
    (hprovides : Provides store name call provided) :
    Queue provided ∧ Records provided ∧ store.versions ⊆ provided.versions ∧
      (provided.getCryptoKeyByName name).isSome := by
  cases hprovides with
  | found _ key hkey =>
    exact ⟨hqueue, hrecords, List.Subset.refl _, by simp [hkey]⟩
  | inserted new hname =>
    obtain ⟨hqueue, hrecords, hversions⟩ := inv_written hrecords h hqueue
    exact ⟨hqueue, hrecords, hversions, isSome_getCryptoKeyByName_insertKey new name (.inr hname)⟩

theorem inv_returns {left : KeyStore} {result : Except Thrown CryptoKeyVersionRecord}
    (hcall : call.running = some allocation) (hreturns : Returns store call left result) :
    Queue (left.settle allocation.number) ∧ Records (left.settle allocation.number) ∧
      store.versions ⊆ left.versions ∧ ∀ version, result = .ok version → version ∈ left.versions := by
  have hwritten := inv_written hrecords h hqueue
  have hphase := h.phase
  have hbegun : allocation.number ∈ store.begun := by
    cases call with
    | readingKey =>
      obtain rfl := Option.some.inj hcall
      exact hphase
    | numbering | guardingVersion | insertingVersion | findingKey | settingPrimary =>
      obtain rfl := Option.some.inj hcall
      exact hphase.1
    | _ => exact absurd hcall (by simp [Call.running, Call.allocation])
  have hleft : Queue left ∧ Records left ∧ store.versions ⊆ left.versions ∧
      left.begun = store.begun ∧ ∀ version, result = .ok version → version ∈ left.versions := by
    cases hreturns with
    | error thrown => exact ⟨hqueue, hrecords, List.Subset.refl _, rfl, nofun⟩
    | errorWritten thrown =>
      refine ⟨hwritten.1, hwritten.2.1, hwritten.2.2, ?_, nofun⟩
      cases call <;> rfl
    | inserted key version =>
      refine ⟨hwritten.1, hwritten.2.1, hwritten.2.2, rfl, ?_⟩
      rintro _ ⟨⟩
      exact List.mem_append_right _ List.mem_cons_self
    | gone version hnone =>
      refine ⟨hqueue, hrecords, List.Subset.refl _, rfl, ?_⟩
      rintro _ ⟨⟩
      exact (List.mem_filter.1 hphase.2.1).1
    | primary id version =>
      refine ⟨hwritten.1, hwritten.2.1, hwritten.2.2, rfl, ?_⟩
      rintro _ ⟨⟩
      exact (List.mem_filter.1 hphase.2.1).1
  obtain ⟨hqueue, ⟨hids, hsupported, hnumbered, hnamed⟩, hversions, hsame, hresult⟩ := hleft
  exact ⟨hqueue.settle (hsame ▸ hbegun), ⟨hids, hsupported, hnumbered, hnamed⟩, hversions, hresult⟩

end Segment

/-- The allocation that enters the queue of a key. -/
theorem Standing.entered (hqueue : Queue store) (caller : ℕ) {name : JsString}
    (hname : (store.getCryptoKeyByName name).isSome) :
    Standing (store.addVersion caller name).1
      (.queued ⟨caller, name, store.allocations⟩ (store.versionAllocations name)) := by
  have hnew : store.allocations ∉ store.begun := fun hmem => (hqueue.begun_lt _ hmem).ne rfl
  refine ⟨rfl, ?_, ?_, hnew, fun number hnumber => ?_⟩
  · rintro _ ⟨⟩
    refine ⟨Nat.lt_succ_self _, Function.update_self _ _ _,
      fun hmem => hnew (hqueue.begun_of_settled _ hmem),
      ⟨store.allocations, Function.update_self _ _ _, le_rfl⟩, fun number hnumber _ => ?_⟩
    exact (hqueue.begun_lt number hnumber).le
  · rintro _ ⟨⟩
    exact hname
  · obtain ⟨hlt, hkey⟩ := hqueue.last name number hnumber
    exact ⟨hlt, (Function.update_of_ne hlt.ne _ _).trans hkey⟩

/-- It waits for those that are already in it. -/
theorem Ordered.entered (caller : ℕ) (name : JsString) (hother : Standing store other) :
    Ordered (.queued ⟨caller, name, store.allocations⟩ (store.versionAllocations name)) other := by
  rintro _ ⟨⟩ later hlater
  have henqueued := hother.enqueued later hlater
  refine .inr ⟨henqueued.lt, fun hname => ?_⟩
  obtain ⟨last, hlast, hle⟩ := henqueued.last
  simp only at hname
  rw [hname, hlast]
  exact hle

/-- When its turn has come, nobody of its key is before it. -/
theorem Ordered.begun {previous : Option ℕ} (hqueue : Queue store)
    (h : Standing store (.queued allocation previous)) (hother : Standing store other)
    (hpair : Ordered (.queued allocation previous) other)
    (hturn : ∀ number ∈ previous, number ∈ store.settled) :
    Ordered (.readingKey allocation) other := by
  rintro _ ⟨⟩ later hlater
  rcases hpair _ rfl later hlater with hbefore | ⟨hlt, hbehind⟩
  · exact .inl hbefore
  · refine .inr ⟨hlt, fun hkey => ?_⟩
    cases previous with
    | none => exact absurd (hbehind hkey) id
    | some number =>
      have hle : later.number ≤ number := hbehind hkey
      have hsettled := hturn number rfl
      have henqueued := hother.enqueued later hlater
      obtain ⟨-, hprevious⟩ := h.phase
      have hge := henqueued.front number (hqueue.begun_of_settled number hsettled)
        ((hprevious number rfl).2.trans hkey)
      exact absurd (le_antisymm hge hle ▸ hsettled) henqueued.unsettled

theorem Standing.preparing (h : Preparing call) : Standing store call := by
  cases call with
  | checkingKey | guardingKey | insertingKey => exact ⟨trivial, nofun, nofun, h⟩
  | _ => cases h

theorem keeps_of_effect {outcomes : List Outcome} {result : KeyStore × Progress Call Outcome}
    (hinv : allocating.Inv store outcomes) (h : Standing store call)
    (heffect : Effect store call result) : allocating.Keeps outcomes result := by
  obtain ⟨hqueue, hrecords, hgiven⟩ := hinv
  have henqueued := h.enqueued
  have hphase := h.phase
  have hfinished : ∀ {left : KeyStore} {outcome : Outcome}, Queue left → Records left →
      store.versions ⊆ left.versions → (∀ version ∈ outcome.given, version ∈ left.versions) →
        allocating.Inv left (outcomes ++ [outcome]) := by
    intro left outcome hqueue hrecords hversions houtcome
    refine ⟨hqueue, hrecords, fun other hother version hversion => ?_⟩
    rcases List.mem_append.1 hother with hother | hother
    · exact hversions (hgiven other hother version hversion)
    · obtain rfl := List.mem_singleton.1 hother
      exact houtcome version hversion
  -- a call goes on with its allocation
  have hgoes : ∀ {rest : Call}, rest.allocation = call.allocation → Creating rest →
      Phase store rest → allocating.Keeps outcomes (store, .pending rest) := by
    intro rest hrest hcreating hphase
    exact ⟨⟨hqueue, hrecords, hgiven⟩, hcreating, hrest ▸ h.enqueued, hrest ▸ h.known, hphase⟩
  cases heffect with
  | ends _ outcome hcall houtcome =>
    refine hfinished hqueue hrecords (List.Subset.refl _) fun version hversion => ?_
    rw [houtcome] at hversion
    cases hversion
  | checks _ rest hcall hrest => exact ⟨⟨hqueue, hrecords, hgiven⟩, .preparing hrest⟩
  | insertsKey new outcome houtcome =>
    obtain ⟨hqueue, hrecords, hversions⟩ := inv_written hrecords h hqueue
    refine hfinished hqueue hrecords hversions fun version hversion => ?_
    rw [houtcome] at hversion
    cases hversion
  | enters _ provided caller name hprovides =>
    obtain ⟨hqueue', ⟨hids, hsupported, hnumbered, hnamed⟩, hversions, hname⟩ :=
      inv_provides hrecords h hqueue hprovides
    refine ⟨⟨hqueue'.addVersion caller name, ⟨hids, hsupported, hnumbered, hnamed⟩,
      fun outcome houtcome version hversion => hversions (hgiven outcome houtcome version hversion)⟩,
      ?_, ?_⟩
    · refine List.forall_mem_cons.2 ⟨.entered hqueue' caller hname, fun rest hrest => ?_⟩
      obtain rfl := List.mem_singleton.1 hrest
      exact ⟨trivial, nofun, nofun, trivial⟩
    · exact List.pairwise_pair.2 (Ordered.symm (.of_none rfl))
  | waits _ hcall => exact ⟨⟨hqueue, hrecords, hgiven⟩, h⟩
  | begins allocation previous hturn =>
    have hbegin := hqueue.begin (henqueued allocation rfl) hphase.1
    obtain ⟨hids, hsupported, hnumbered, hnamed⟩ := hrecords
    obtain ⟨hlt, hkey, hunsettled, hlast, hfront⟩ := henqueued allocation rfl
    refine ⟨⟨hbegin, ⟨hids, hsupported, hnumbered, hnamed⟩, hgiven⟩, rfl, ?_, ?_,
      List.mem_append_right _ List.mem_cons_self⟩
    · rintro _ ⟨⟩
      refine ⟨hlt, hkey, hunsettled, hlast, fun number hnumber hsame => ?_⟩
      rcases List.mem_append.1 hnumber with hnumber | hnumber
      · exact hfront number hnumber hsame
      · exact (List.mem_singleton.1 hnumber).le
    · rintro _ ⟨⟩
      exact h.known allocation rfl
  | reads allocation key hkey => exact hgoes rfl rfl ⟨hphase, hkey⟩
  | numbers allocation key outside version hnew =>
    obtain ⟨hbegun, hkey⟩ := hphase
    obtain ⟨-, hname⟩ := getCryptoKeyByName_eq_some hkey
    obtain ⟨material, -, rfl⟩ := Option.map_eq_some_iff.1 hnew
    exact hgoes rfl rfl ⟨hbegun, hkey, hname, by simp [hrecords.highest], by simp [hname]⟩
  | guards allocation key version => exact hgoes rfl rfl hphase
  | inserts allocation key version hprimary =>
    obtain ⟨hqueue', hrecords', hversions⟩ := inv_written hrecords h hqueue
    obtain ⟨hbegun, hkey, hnext⟩ := hphase
    obtain ⟨hlt, hsame, hunsettled, hlast, hfront⟩ := henqueued allocation rfl
    refine ⟨⟨hqueue', hrecords', fun outcome houtcome other hother =>
      hversions (hgiven outcome houtcome other hother)⟩, rfl, ?_, ?_, hbegun, ?_, key, hkey, hprimary⟩
    · rintro _ ⟨⟩
      exact ⟨hlt, hsame, hunsettled, hlast, hfront⟩
    · rintro _ ⟨⟩
      exact h.known allocation rfl
    · rw [← hnext.key, versionsOf_insertVersion_self]
      exact List.mem_append_right _ List.mem_cons_self
  | finds allocation version key hkey =>
    obtain ⟨hbegun, hversion, key', hkey', hprimary⟩ := hphase
    have hname : version.cryptoKeyName = allocation.cryptoKeyName := by
      simpa using (List.mem_filter.1 hversion).2
    obtain rfl := Option.some.inj (hkey.symm.trans (hname ▸ hkey'))
    exact hgoes rfl rfl ⟨hbegun, hversion, key, hkey', hprimary, rfl⟩
  | returns _ allocation left result hcall hreturns =>
    obtain ⟨hqueue', hrecords', hversions, hresult⟩ :=
      inv_returns hrecords h hqueue hcall hreturns
    refine hfinished hqueue' hrecords' hversions fun version hversion => ?_
    cases result with
    | error thrown => cases hversion
    | ok returned =>
      obtain rfl := Option.some.inj hversion
      exact hresult returned rfl
  | forgets name number hsettled hlast =>
    obtain ⟨hids, hsupported, hnumbered, hnamed⟩ := hrecords
    refine hfinished (hqueue.forget name) ⟨hids, hsupported, hnumbered, hnamed⟩
      (List.Subset.refl _) ?_
    exact fun version hversion => nomatch hversion

theorem spares_of_effect {result : KeyStore × Progress Call Outcome} (hqueue : Queue store)
    (hrecords : Records store) (h : Standing store call) (hother : Standing store other)
    (hpair : Ordered call other) (heffect : Effect store call result) :
    allocating.Spares other result := by
  cases heffect with
  | ends _ outcome hcall houtcome => exact hother
  | checks _ rest hcall hrest =>
    refine ⟨hother, .of_none ?_⟩
    cases rest <;> first | rfl | cases hrest
  | insertsKey new outcome houtcome => exact standing_written hrecords h hother hpair
  | enters _ provided caller name hprovides =>
    obtain ⟨hqueue', -⟩ := inv_provides hrecords h hqueue hprovides
    have hprovided : Standing provided other := by
      cases hprovides with
      | found => exact hother
      | inserted => exact standing_written hrecords h hother hpair
    refine ⟨hprovided.addVersion hqueue' caller name, ?_⟩
    refine List.forall_mem_cons.2 ⟨.entered caller name hprovided, fun rest hrest => ?_⟩
    obtain rfl := List.mem_singleton.1 hrest
    exact .of_none rfl
  | waits _ hcall => exact ⟨hother, hpair⟩
  | begins allocation previous hturn =>
    have hreading := Ordered.begun hqueue h hother hpair hturn
    refine ⟨hother.begin (fun later hlater => hpair.number_ne rfl hlater)
      fun later hlater hkey => ?_, hreading⟩
    rcases hreading _ rfl later hlater with ⟨hlt, -⟩ | ⟨-, hbehind⟩
    · exact hlt.le
    · exact absurd (hbehind (((h.enqueued allocation rfl).key).symm.trans hkey)) id
  | reads | numbers | guards | finds => exact ⟨hother, hpair.goes_on rfl rfl⟩
  | inserts => exact ⟨standing_written hrecords h hother hpair, hpair.goes_on rfl rfl⟩
  | returns _ allocation left result hcall hreturns =>
    exact standing_returns hrecords h hcall hreturns hother hpair
  | forgets name number hsettled hlast => exact hother.forget hqueue hsettled hlast

variable {pool pool' : Pool KeyStore Call Outcome} {m : Move Request Outside}
  {moves : List (Move Request Outside)}

theorem Standing.effect (h : Standing store call) (outside : Outside) :
    Effect store call (store.segment toUpperCase call outside) := by
  refine effect_segment store outside h.creating ?_
  rintro new (rfl | rfl)
  · exact h.phase
  · exact h.phase

/-- What a call in flight does. -/
theorem effect_of_holds (toUpperCase : JsString → JsString) (h : allocating.Holds pool) {index : ℕ}
    (hcall : pool.calls[index]? = some call) (outside : Outside) :
    Standing pool.shared call ∧
      Effect pool.shared call (pool.shared.segment toUpperCase call outside) := by
  have hstanding : Standing pool.shared call := h.each call (List.mem_of_getElem? hcall)
  exact ⟨hstanding, hstanding.effect outside⟩

theorem allocating_begins :
    Outline.Begins (keyManagement toUpperCase) allocating Creations := by
  intro pool request _ hallowed
  have hcreating : Creating (.requested request) := by
    cases request <;> first | exact trivial | exact absurd hallowed id
  exact ⟨⟨hcreating, nofun, nofun, trivial⟩, fun other _ => Ordered.symm (.of_none rfl)⟩

theorem allocating_segments :
    Outline.Segments (keyManagement toUpperCase) allocating Creations := by
  intro pool index outside call h _ hcall
  obtain ⟨hstanding, heffect⟩ := effect_of_holds toUpperCase h hcall outside
  refine ⟨keeps_of_effect h.inv hstanding heffect, fun other hother => ?_⟩
  obtain ⟨-, hstands, hpair⟩ := h.pair_of_others hcall hother
  exact spares_of_effect h.inv.1 h.inv.2.1 hstanding hstands hpair heffect

/-! ## Versions given -/

/-- The version that a call has inserted and not returned yet. -/
def Call.inserted : Call → Option CryptoKeyVersionRecord
  | .findingKey _ version | .settingPrimary _ _ version => some version
  | _ => none

def Gives (id : ℕ) (outcome : Outcome) : Bool := outcome.given.any fun version => version.id = id

def Carries (id : ℕ) (call : Call) : Bool := call.inserted.any fun version => version.id = id

/-- Each version is with one caller at most, and with none before it is inserted. -/
def Distinct (pool : Pool KeyStore Call Outcome) : Prop :=
  ∀ id, pool.outcomes.countP (Gives id) + pool.calls.countP (Carries id) ≤
    if id < pool.shared.versions.length then 1 else 0

theorem length_versions_written (store : KeyStore) (call : Call) :
    store.versions.length ≤ (store.written call).versions.length := by
  cases call <;> simp [KeyStore.written, KeyStore.insertKey, KeyStore.insertVersion,
    KeyStore.setPrimary, KeyStore.changeVersion]

/-- A segment hands its version on, or inserts it. -/
theorem handed_of_effect {result : KeyStore × Progress Call Outcome} (heffect : Effect store call result)
    (id : ℕ) : store.versions.length ≤ result.1.versions.length ∧
      result.2.outcomes.countP (Gives id) + result.2.calls.countP (Carries id) ≤
        [call].countP (Carries id) +
          if store.versions.length ≤ id ∧ id < result.1.versions.length then 1 else 0 := by
  cases heffect with
  | ends _ outcome hcall houtcome =>
    exact ⟨le_rfl, by simp [Progress.outcomes, Progress.calls, Gives, houtcome]⟩
  | checks _ rest hcall hrest =>
    refine ⟨le_rfl, ?_⟩
    have hinserted : rest.inserted = none := by
      cases rest <;> first | rfl | cases hrest
    simp [Progress.outcomes, Progress.calls, Carries, hinserted]
  | insertsKey new outcome houtcome =>
    exact ⟨le_rfl, by simp [Progress.outcomes, Progress.calls, Gives, houtcome]⟩
  | enters _ provided caller name hprovides =>
    have hversions : provided.versions = store.versions := by
      cases hprovides <;> rfl
    simp [KeyStore.addVersion, Progress.outcomes, Progress.calls, Carries, Call.inserted, hversions]
  | waits _ hcall => exact ⟨le_rfl, by simp [Progress.outcomes, Progress.calls]⟩
  | begins | reads | numbers | guards =>
    exact ⟨le_rfl, by simp [Progress.outcomes, Progress.calls, Carries, Call.inserted]⟩
  | inserts allocation key version hprimary =>
    refine ⟨length_versions_written store (.insertingVersion allocation key version), ?_⟩
    by_cases hid : store.versions.length = id
    · simp [← hid, Progress.outcomes, Progress.calls, KeyStore.insertVersion, KeyStore.inserted,
        Carries, Call.inserted]
    · simp [hid, Progress.outcomes, Progress.calls, KeyStore.inserted, Carries, Call.inserted]
  | finds allocation version key hkey =>
    exact ⟨le_rfl, by simp [Progress.outcomes, Progress.calls, Carries, Call.inserted]⟩
  | returns _ allocation left result hcall hreturns =>
    cases hreturns with
    | error thrown =>
      exact ⟨le_rfl, by simp [KeyStore.allocated, Progress.outcomes, Progress.calls, Gives,
        Outcome.given, Except.map]⟩
    | errorWritten thrown =>
      exact ⟨length_versions_written store call, by simp [KeyStore.allocated, Progress.outcomes,
        Progress.calls, Gives, Outcome.given, Except.map]⟩
    | inserted allocation key version =>
      refine ⟨length_versions_written store (.insertingVersion allocation key version), ?_⟩
      by_cases hid : store.versions.length = id
      · simp [← hid, KeyStore.allocated, KeyStore.settle, Except.map, Progress.outcomes,
          Progress.calls, KeyStore.insertVersion, KeyStore.inserted, Gives, Outcome.given]
      · simp [hid, KeyStore.allocated, Except.map, Progress.outcomes, Progress.calls,
          KeyStore.inserted, Gives, Outcome.given]
    | gone | primary =>
      exact ⟨le_rfl, by simp [KeyStore.allocated, Except.map, Progress.outcomes, Progress.calls,
        Gives, Outcome.given, Carries, Call.inserted]⟩
  | forgets name number hsettled hlast =>
    exact ⟨le_rfl, by simp [Progress.outcomes, Progress.calls, Gives, Outcome.given]⟩

theorem distinct_of_step (hstep : (keyManagement toUpperCase).Step Creations pool m pool')
    (hholds : allocating.Holds pool) (h : Distinct pool) : Distinct pool' := by
  obtain ⟨-, hmove⟩ := hstep
  cases m with
  | start request =>
    obtain rfl := Option.some.inj hmove
    intro id
    have hid := h id
    simpa [keyManagement, List.countP_append, Carries, Call.inserted] using hid
  | resume index outside =>
    obtain ⟨call, hcall, rfl⟩ := Option.map_eq_some_iff.1 hmove
    obtain ⟨hstanding, heffect⟩ := effect_of_holds toUpperCase hholds hcall outside
    change Distinct (Async.advance pool index (pool.shared.segment toUpperCase call outside))
    generalize pool.shared.segment toUpperCase call outside = result at heffect
    intro id
    obtain ⟨hlength, hhanded⟩ := handed_of_effect heffect id
    have hcount : (Async.advance pool index result).calls.countP (Carries id) +
        [call].countP (Carries id) =
          pool.calls.countP (Carries id) + result.2.calls.countP (Carries id) :=
      Async.countP_advance _ hcall
    have hid := h id
    rw [Async.advance_outcomes, List.countP_append, Async.advance_shared]
    by_cases hold : id < pool.shared.versions.length
    · rw [if_pos hold] at hid
      rw [if_neg (fun h => absurd hold (not_lt.2 h.1))] at hhanded
      rw [if_pos (hold.trans_le hlength)]
      omega
    · rw [if_neg hold] at hid
      have hle : pool.shared.versions.length ≤ id := not_lt.1 hold
      simp only [hle, true_and] at hhanded
      omega

theorem distinct_of_run (hrun : Run ((keyManagement toUpperCase).Step Creations) pool moves pool')
    (hholds : allocating.Holds pool) (h : Distinct pool) : Distinct pool' := by
  induction hrun with
  | refl => exact h
  | head hstep _ ih =>
    exact ih (hholds.of_step allocating_begins allocating_segments hstep)
      (distinct_of_step hstep hholds h)

/-! ## Nobody is blocked -/

/-- Each promise that is not settled belongs to an allocation in flight. -/
def promises : Custody KeyStore Call ℕ where
  Present store number := number < store.allocations
  Settled store number := number ∈ store.settled
  Holds call number := ∃ allocation, call.allocation = some allocation ∧ allocation.number = number

theorem promises_segments :
    Custody.Segments (keyManagement toUpperCase) allocating promises Creations := by
  intro pool index outside call h _ hcall number hpresent
  obtain ⟨hstanding, heffect⟩ := effect_of_holds toUpperCase h hcall outside
  change number < (pool.shared.segment toUpperCase call outside).1.allocations at hpresent
  change number ∈ (pool.shared.segment toUpperCase call outside).1.settled ∨
    (∃ rest ∈ (pool.shared.segment toUpperCase call outside).2.calls, promises.Holds rest number) ∨ _
  generalize pool.shared.segment toUpperCase call outside = result at heffect hpresent
  by_cases hsettled : number ∈ pool.shared.settled
  · refine .inl ?_
    cases heffect with
    | enters _ provided caller name hprovides => cases hprovides <;> exact hsettled
    | returns _ allocation left result hcall hreturns =>
      have hsame : left.settled = pool.shared.settled := by
        cases hreturns with
        | errorWritten => cases call <;> rfl
        | _ => rfl
      exact List.mem_cons_of_mem _ (hsame ▸ hsettled)
    | _ => exact hsettled
  by_cases hholds : promises.Holds call number
  · obtain ⟨allocation, hallocation, rfl⟩ := hholds
    have hgoes : ∀ rest : Call, rest.allocation = call.allocation →
        promises.Holds rest allocation.number := by
      intro rest hrest
      exact ⟨allocation, hrest.trans hallocation, rfl⟩
    cases heffect with
    | ends _ outcome hnone => exact nomatch hnone.symm.trans hallocation
    | checks _ rest hnone => exact nomatch hnone.symm.trans hallocation
    | enters _ provided caller name hprovides =>
      cases hprovides with
      | found _ key hkey hnone => exact nomatch hnone.symm.trans hallocation
      | inserted => cases hallocation
    | insertsKey | forgets => cases hallocation
    | waits | begins | reads | numbers | guards | inserts | finds =>
      exact .inr (.inl ⟨_, List.mem_cons_self, hgoes _ rfl⟩)
    | returns _ returned left result hrunning hreturns =>
      obtain rfl := Option.some.inj ((Call.allocation_of_running hrunning).symm.trans hallocation)
      exact .inl List.mem_cons_self
  · by_cases hold : number < pool.shared.allocations
    · exact .inr (.inr ⟨hold, hsettled, hholds⟩)
    · -- the number is the one that was given out now
      cases heffect with
      | enters _ provided caller name hprovides =>
        have hsame : provided.allocations = pool.shared.allocations := by
          cases hprovides <;> rfl
        refine .inr (.inl ⟨_, List.mem_cons_self, _, rfl, ?_⟩)
        have hlt : number < provided.allocations + 1 := hpresent
        change provided.allocations = number
        omega
      | returns _ allocation left result hcall hreturns =>
        have hsame : left.allocations = pool.shared.allocations := by
          cases hreturns with
          | errorWritten => cases call <;> rfl
          | _ => rfl
        exact absurd (hsame ▸ hpresent) hold
      | _ => exact absurd hpresent hold

/-- A call does not wait for another one. -/
def Ready (store : KeyStore) : Call → Prop
  | .queued _ previous => ∀ number ∈ previous, number ∈ store.settled
  | _ => True

/-- Before an allocation that waits, or with it, some allocation of its key does not. -/
theorem exists_ready (hholds : allocating.Holds pool) (hcovers : promises.Covers pool)
    (number : ℕ) : ∀ call ∈ pool.calls, ∀ allocation ∈ call.allocation, allocation.number = number →
      ∃ first ∈ pool.calls, ∃ earlier ∈ first.allocation,
        earlier.cryptoKeyName = allocation.cryptoKeyName ∧ earlier.number ≤ allocation.number ∧
          Ready pool.shared first := by
  induction number using Nat.strong_induction_on with
  | h number ih =>
    intro call hcall allocation hallocation hnumber
    by_cases hready : Ready pool.shared call
    · exact ⟨call, hcall, allocation, hallocation, rfl, le_rfl, hready⟩
    · have hstanding : Standing pool.shared call := hholds.each call hcall
      have hphase := hstanding.phase
      cases call with
      | queued queued previous =>
        obtain rfl := Option.some.inj hallocation
        obtain ⟨-, hprevious⟩ := hphase
        simp only [Ready, not_forall] at hready
        obtain ⟨before, hbefore, hunsettled⟩ := hready
        obtain ⟨hlt, hkey⟩ := hprevious before hbefore
        rcases hcovers before (hlt.trans (hstanding.enqueued _ rfl).lt) with
          hsettled | ⟨other, hother, waited, hwaited, rfl⟩
        · exact absurd hsettled hunsettled
        · have henqueued := (hholds.each other hother).enqueued waited hwaited
          obtain ⟨first, hfirst, earlier, hearlier, hsame, hle, hready⟩ :=
            ih waited.number (hnumber ▸ hlt) other hother waited hwaited rfl
          refine ⟨first, hfirst, earlier, hearlier, hsame.trans ?_, hle.trans hlt.le, hready⟩
          exact henqueued.key.symm.trans hkey
      | _ => exact absurd trivial hready

/-- An allocation whose requests to the storage are done does not fail. -/
theorem succeeds (hrecords : Records store) (h : Standing store call) (hcall : call.allocation.isSome)
    (hdone : outside.storage = .done) (caller : ℕ) (thrown : Thrown) :
    (store.segment toUpperCase call outside).2 ≠ .finished (.created caller (.error thrown)) := by
  have hsegment : store.segment toUpperCase call outside = store.answered toUpperCase outside call := by
    simp [KeyStore.segment, hdone]
  rw [hsegment]
  have hknown := h.known
  have hphase := h.phase
  cases call with
  | queued allocation previous =>
    simp only [KeyStore.answered]
    split <;> exact fun h => by cases h
  | readingKey allocation =>
    obtain ⟨key, hkey⟩ := Option.isSome_iff_exists.1 (hknown allocation rfl)
    simp [KeyStore.answered, hkey]
  | numbering allocation key =>
    obtain ⟨-, hkey⟩ := hphase
    obtain ⟨spec, hspec⟩ := Option.isSome_iff_exists.1
      (hrecords.supported key (getCryptoKeyByName_eq_some hkey).1)
    simp [KeyStore.answered, newVersion, generateKeyMaterial, hspec]
  | guardingVersion allocation key version =>
    obtain ⟨-, -, hnext⟩ := hphase
    simp [KeyStore.answered, hrecords.free hnext]
  | insertingVersion allocation key version =>
    simp only [KeyStore.answered]
    split
    · simp [KeyStore.allocated, Except.map]
    · exact fun h => by cases h
  | findingKey allocation version =>
    simp only [KeyStore.answered]
    split
    · simp [KeyStore.allocated, Except.map]
    · exact fun h => by cases h
  | settingPrimary allocation id version => simp [KeyStore.answered, KeyStore.allocated, Except.map]
  | _ => cases hcall

/-! ## The primary of a key -/

theorem cryptoKeys_of_effect {result : KeyStore × Progress Call Outcome}
    (heffect : Effect store call result) : result.1.cryptoKeys = store.cryptoKeys ∨
      result.1.cryptoKeys = (store.written call).cryptoKeys := by
  cases heffect with
  | insertsKey => exact .inr rfl
  | enters _ provided caller name hprovides =>
    cases hprovides with
    | found => exact .inl rfl
    | inserted => exact .inr rfl
  | returns _ allocation left result hcall hreturns =>
    cases hreturns with
    | errorWritten | primary => exact .inr rfl
    | _ => exact .inl rfl
  | _ => exact .inl rfl

/-- A segment changes the primary of a key only from none to the version of its own allocation. -/
theorem primary_of_effect (hrecords : Records store) (h : Standing store call)
    {result : KeyStore × Progress Call Outcome} (heffect : Effect store call result) {i : ℕ}
    {key : CryptoKeyRecord} (hkey : store.cryptoKeys[i]? = some key) :
    ∃ key', result.1.cryptoKeys[i]? = some key' ∧ key'.name = key.name ∧
      (key'.primaryVersion = key.primaryVersion ∨ key.primaryVersion = none ∧
        ∃ allocation id version, call = .settingPrimary allocation id version ∧
          version ∈ store.versionsOf key.name ∧
          key'.primaryVersion = some (decimal version.versionNumber)) := by
  have hcreating := h.creating
  have hphase := h.phase
  rcases cryptoKeys_of_effect heffect with hsame | hwritten
  · exact ⟨key, hsame ▸ hkey, rfl, .inl rfl⟩
  rw [hwritten]
  cases call with
  | insertingKey new =>
    obtain ⟨hlt, -⟩ := List.getElem?_eq_some_iff.1 hkey
    exact ⟨key, (List.getElem?_append_left hlt).trans hkey, rfl, .inl rfl⟩
  | settingPrimary allocation id version =>
    obtain ⟨-, hversion, owner, howner, hprimary, rfl⟩ := hphase
    obtain ⟨hmem, hname⟩ := getCryptoKeyByName_eq_some howner
    by_cases hid : key.id = owner.id
    · obtain rfl := hrecords.eq_of_id (List.mem_of_getElem? hkey) hmem hid
      refine ⟨{ key with primaryVersion := some (decimal version.versionNumber) }, ?_, rfl, ?_⟩
      · simp [KeyStore.written, KeyStore.setPrimary, hkey]
      · exact .inr ⟨hprimary, allocation, key.id, version, rfl, hname ▸ hversion, rfl⟩
    · exact ⟨key, by simp [KeyStore.written, KeyStore.setPrimary, hkey, hid], rfl, .inl rfl⟩
  | writingPrimary => cases hcreating
  | _ => exact ⟨key, hkey, rfl, .inl rfl⟩

/-! ## Runs -/

theorem Records.eq_of_name (h : Records store) {version other : CryptoKeyVersionRecord}
    (hversion : version ∈ store.versions) (hother : other ∈ store.versions)
    (hname : version.name = other.name) : version = other := by
  rw [h.named version hversion, h.named other hother] at hname
  obtain ⟨hkey, hnumber⟩ := buildCryptoKeyVersionName_injective hname
  have hnodup : ((store.versionsOf version.cryptoKeyName).map
      CryptoKeyVersionRecord.versionNumber).Nodup := by
    rw [h.numbered]
    exact List.nodup_range'
  exact List.inj_on_of_nodup_map hnodup (List.mem_filter.2 ⟨hversion, by simp⟩)
    (List.mem_filter.2 ⟨hother, by simp [hkey]⟩) hnumber

/-- In a state that creations reach: the versions of each key are numbered from 1 on, no two callers
were given one version, the allocations of a key run one at a time and in the order in which they
entered its queue, a step sets a primary that was not set to the version it allocates, in front of each
allocation is one that does not wait, and none fails unless one of its own requests to the storage
does. -/
structure CreationsKept (toUpperCase : JsString → JsString) (pool : Pool KeyStore Call Outcome) :
    Prop where
  numbered : ∀ name, (pool.shared.versionsOf name).map CryptoKeyVersionRecord.versionNumber =
    List.range' 1 (pool.shared.versionsOf name).length
  distinct : (pool.outcomes.filterMap Outcome.given).Pairwise fun version other =>
    version.name ≠ other.name
  apart : pool.calls.Pairwise fun call other =>
    ∀ allocation ∈ call.running, ∀ later ∈ other.running,
      allocation.cryptoKeyName ≠ later.cryptoKeyName
  ordered : pool.shared.begun.Pairwise fun number later =>
    pool.shared.keyOf number = pool.shared.keyOf later → number < later
  primary : ∀ m pool', (keyManagement toUpperCase).Step Creations pool m pool' →
    ∀ (i : ℕ) (key : CryptoKeyRecord), pool.shared.cryptoKeys[i]? = some key →
      ∃ key', pool'.shared.cryptoKeys[i]? = some key' ∧ key'.name = key.name ∧
        (key'.primaryVersion = key.primaryVersion ∨ key.primaryVersion = none ∧
          ∃ index outside allocation id version, m = .resume index outside ∧
            pool.calls[index]? = some (.settingPrimary allocation id version) ∧
              version ∈ pool.shared.versionsOf key.name ∧
                key'.primaryVersion = some (decimal version.versionNumber))
  ready : ∀ call ∈ pool.calls, ∀ allocation ∈ call.allocation,
    ∃ first ∈ pool.calls, ∃ earlier ∈ first.allocation,
      earlier.cryptoKeyName = allocation.cryptoKeyName ∧ earlier.number ≤ allocation.number ∧
        Ready pool.shared first
  succeeds : ∀ call ∈ pool.calls, call.allocation.isSome → ∀ outside : Outside,
    outside.storage = .done → ∀ caller thrown,
      (pool.shared.segment toUpperCase call outside).2 ≠ .finished (.created caller (.error thrown))

theorem creations_of_run {keyRings : List JsString}
    (hrun : Run ((keyManagement toUpperCase).Step Creations) ⟨.start keyRings, [], []⟩ moves pool) :
    allocating.Holds pool ∧ promises.Covers pool ∧ Distinct pool := by
  have hstart : allocating.Holds ⟨.start keyRings, [], []⟩ :=
    .start ⟨⟨nofun, nofun, .nil, nofun⟩, ⟨nofun, nofun, fun _ => rfl, nofun⟩, nofun⟩
  have hcovers : promises.Covers (⟨.start keyRings, [], []⟩ : Pool KeyStore Call Outcome) := by
    intro number hpresent
    exact absurd hpresent (Nat.not_lt_zero number)
  obtain ⟨hholds, hcovers⟩ := Custody.Covers.of_run allocating_begins allocating_segments
    promises_segments hrun hstart hcovers
  exact ⟨hholds, hcovers, distinct_of_run hrun hstart fun id => by simp⟩

theorem distinct_names (hholds : allocating.Holds pool) (h : Distinct pool) :
    (pool.outcomes.filterMap Outcome.given).Pairwise fun version other =>
      version.name ≠ other.name := by
  obtain ⟨-, hrecords, hgiven⟩ := hholds.inv
  have hids : ((pool.outcomes.filterMap Outcome.given).map CryptoKeyVersionRecord.id).Nodup := by
    refine List.nodup_iff_count_le_one.2 fun id => ?_
    have hid := h id
    have hcount : ((pool.outcomes.filterMap Outcome.given).map CryptoKeyVersionRecord.id).count id =
        pool.outcomes.countP (Gives id) := by
      rw [List.count, List.countP_map, List.countP_filterMap]
      refine List.countP_congr fun outcome _ => ?_
      cases hversion : outcome.given <;> simp [Gives, hversion]
    rw [hcount]
    split at hid <;> omega
  have hmem : ∀ version ∈ pool.outcomes.filterMap Outcome.given, version ∈ pool.shared.versions := by
    intro version hversion
    obtain ⟨outcome, houtcome, hsome⟩ := List.mem_filterMap.1 hversion
    exact hgiven outcome houtcome version hsome
  refine (List.pairwise_map.1 hids).imp_of_mem fun hversion hother hne hname => hne ?_
  rw [hrecords.eq_of_name (hmem _ hversion) (hmem _ hother) hname]

/-- **The allocation of version numbers**, in every run of creations that interleave and fail at will. -/
theorem creations_kept {keyRings : List JsString}
    (hrun : Run ((keyManagement toUpperCase).Step Creations) ⟨.start keyRings, [], []⟩ moves pool) :
    CreationsKept toUpperCase pool := by
  obtain ⟨hholds, hcovers, hdistinct⟩ := creations_of_run hrun
  obtain ⟨hqueue, hrecords, -⟩ := hholds.inv
  refine ⟨hrecords.numbered, distinct_names hholds hdistinct, ?_, hqueue.ordered, ?_, ?_, ?_⟩
  · exact hholds.pairs.imp fun hpair allocation hallocation later hlater =>
      Ordered.ne_of_running hpair hallocation hlater
  · rintro m pool' ⟨-, hmove⟩ i key hkey
    cases m with
    | start request =>
        obtain rfl := Option.some.inj hmove
        exact ⟨key, hkey, rfl, .inl rfl⟩
    | resume index outside =>
        obtain ⟨call, hcall, rfl⟩ := Option.map_eq_some_iff.1 hmove
        obtain ⟨hstanding, heffect⟩ := effect_of_holds toUpperCase hholds hcall outside
        obtain ⟨key', hkey', hname, hprimary⟩ := primary_of_effect hrecords hstanding heffect hkey
        refine ⟨key', ?_, hname, ?_⟩
        · rw [Async.advance_shared]
          exact hkey'
        · rcases hprimary with hsame | ⟨hnone, allocation, id, version, rfl, hversion, hset⟩
          · exact .inl hsame
          · exact .inr ⟨hnone, index, outside, allocation, id, version, rfl, hcall, hversion, hset⟩
  · exact fun call hcall allocation hallocation =>
      exists_ready hholds hcovers allocation.number call hcall allocation hallocation rfl
  · exact fun call hcall hallocation outside hdone caller thrown =>
      succeeds hrecords (hholds.each call hcall) hallocation hdone caller thrown

/-! ## Samples -/

theorem length_sevens : (List.replicate 32 7).length = 32 := rfl

/-- The storage rejects a request that it has not carried out. -/
def rejecting : Outside :=
  ⟨.rejected false "disk full", 0, ⟨List.replicate 32 7, "private", "public", length_sevens⟩⟩

/-- Two more versions are asked for; the first fails at its insert, the second is allocated after it. -/
def failedThenAllocated : List (Move Request Outside) :=
  createSampleKey ++ [.resume 0 atOnce, .start (.createCryptoKeyVersion 1 sampleKey),
    .start (.createCryptoKeyVersion 2 sampleKey), .resume 0 atOnce, .resume 1 atOnce] ++
    List.replicate 4 (.resume 0 atOnce) ++ .resume 0 rejecting :: List.replicate 5 (.resume 0 atOnce)

/-- The callers, and the numbers of the versions they were given. -/
def results (pool : Pool KeyStore Call Outcome) : List (ℕ × Option ℕ) :=
  pool.outcomes.filterMap fun outcome =>
    match outcome with
    | .created caller _ => some (caller, outcome.given.map CryptoKeyVersionRecord.versionNumber)
    | _ => none

theorem creations_kept_failedThenAllocated : ∃ pool,
    Run ((keyManagement asciiHost.toUpperCase).Step Creations) ⟨.start [sampleRing], [], []⟩
      failedThenAllocated pool ∧ results pool = [(0, some 1), (1, none), (2, some 2)] ∧
        CreationsKept asciiHost.toUpperCase pool := by
  obtain ⟨pool, hrun, htest⟩ : ∃ pool,
      Run ((keyManagement asciiHost.toUpperCase).Step Creations) ⟨.start [sampleRing], [], []⟩
        failedThenAllocated pool ∧
        decide (results pool = [(0, some 1), (1, none), (2, some 2)]) = true :=
    Async.exists_run (by decide +kernel)
  exact ⟨pool, hrun, of_decide_eq_true htest, creations_kept hrun⟩

/-- Two more versions are asked for, and the key is read for the second first. -/
def secondReadFirst : List (Move Request Outside) :=
  createSampleKey ++ [.resume 0 atOnce, .start (.createCryptoKeyVersion 1 sampleKey),
    .start (.createCryptoKeyVersion 2 sampleKey), .resume 1 atOnce] ++
    List.replicate 5 (.resume 1 atOnce) ++ .resume 0 atOnce :: List.replicate 5 (.resume 0 atOnce)

/-- The caller of a creation. -/
def callerOf : Move Request Outside → Option ℕ
  | .start (.createCryptoKey caller _ _ _ _) | .start (.createCryptoKeyVersion caller _) =>
      some caller
  | _ => none

/-- Of two callers on one key, the one that called first has the lower number. -/
def InOrderOfCalls (moves : List (Move Request Outside)) (pool : Pool KeyStore Call Outcome) : Prop :=
  ∀ before between after caller later name number number',
    moves = before ++ .start (.createCryptoKeyVersion caller name) :: between ++
      .start (.createCryptoKeyVersion later name) :: after →
    (caller, some number) ∈ results pool → (later, some number') ∈ results pool → number < number'

/-- The allocations do not run in the order in which the creations were called. -/
theorem not_in_order_of_calls : ¬ ∀ (toUpperCase : JsString → JsString) (keyRings : List JsString)
    (moves : List (Move Request Outside)) (pool : Pool KeyStore Call Outcome),
    Run ((keyManagement toUpperCase).Step Creations) ⟨.start keyRings, [], []⟩ moves pool →
      (moves.filterMap callerOf).Nodup → InOrderOfCalls moves pool := by
  intro h
  obtain ⟨pool, hrun, htest⟩ : ∃ pool,
      Run ((keyManagement asciiHost.toUpperCase).Step Creations) ⟨.start [sampleRing], [], []⟩
        secondReadFirst pool ∧
        decide (results pool = [(0, some 1), (2, some 2), (1, some 3)]) = true :=
    Async.exists_run (by decide +kernel)
  have hresults := of_decide_eq_true htest
  have hlt : 3 < 2 := h _ _ _ _ hrun (by decide) (createSampleKey ++ [.resume 0 atOnce]) []
    (.resume 1 atOnce :: List.replicate 5 (.resume 1 atOnce) ++
      .resume 0 atOnce :: List.replicate 5 (.resume 0 atOnce)) 1 2 sampleKey 3 2 rfl
    (by rw [hresults]; decide) (by rw [hresults]; decide)
  exact absurd hlt (by decide)

end Kinglet.Kms
