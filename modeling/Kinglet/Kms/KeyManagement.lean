import Kinglet.Js.Time
import Kinglet.Kms.Types
import Kinglet.Library.Interleaving
import Mathlib.Logic.Function.Basic

/-!
# Key management

The calls of `KeyManagementService` that create keys and versions, move the primary and change the
state of a version. Each awaits the storage at every read and write, and the calls interleave there.
An answer of the storage may be a rejection, of a write that was done or was not.

The versions of one key are allocated one after the other: `addVersion` chains an allocation to the
promise of the one before it. A promise is the number of its allocation here; with the state go the
key of each allocation, those that have begun, in this order, and those that have settled, which the
source does not keep.
-/

namespace Kinglet.Kms

open Js Library

/-! ## The store -/

structure KeyStore where
  keyRings : List JsString
  cryptoKeys : List CryptoKeyRecord
  versions : List CryptoKeyVersionRecord
  /-- `versionAllocations`, by the name of the key. -/
  versionAllocations : JsString → Option ℕ
  allocations : ℕ
  keyOf : ℕ → JsString
  begun : List ℕ
  settled : List ℕ

namespace KeyStore

/-- Before the first key, with some key rings. -/
def start (keyRings : List JsString) : KeyStore :=
  ⟨keyRings, [], [], fun _ => none, 0, fun _ => [], [], []⟩

variable (store : KeyStore)

/-- `getCryptoKeyByName(name)`. -/
def getCryptoKeyByName (name : JsString) : Option CryptoKeyRecord :=
  store.cryptoKeys.find? fun key => key.name = name

/-- `getVersionByName(name)`. -/
def getVersionByName (name : JsString) : Option CryptoKeyVersionRecord :=
  store.versions.find? fun version => version.name = name

/-- `getHighestVersionNumber(cryptoKeyName)`. -/
def getHighestVersionNumber (cryptoKeyName : JsString) : ℕ :=
  (store.versions.filter fun version => version.cryptoKeyName = cryptoKeyName).foldl
    (fun highest version => max highest version.versionNumber) 0

/-- `storage.updateById` on the keys. -/
def setPrimary (id : ℕ) (versionId : JsString) : KeyStore :=
  { store with
    cryptoKeys := store.cryptoKeys.map fun key =>
      if key.id = id then { key with primaryVersion := some versionId } else key }

/-- `storage.updateById` on the versions. -/
def changeVersion (id : ℕ) (change : CryptoKeyVersionRecord → CryptoKeyVersionRecord) : KeyStore :=
  { store with
    versions := store.versions.map fun version => if version.id = id then change version else version }

def settle (allocation : ℕ) : KeyStore := { store with settled := allocation :: store.settled }

end KeyStore

/-! ## Requests -/

/-- `VersionTemplateSchema`. -/
structure VersionTemplate where
  protectionLevel : Option EnumOrInt
  algorithm : EnumOrInt
  deriving DecidableEq

/-- `CreateCryptoKeyRequestSchema`, without labels and rotation. -/
structure CreateCryptoKeyRequest where
  purpose : Option EnumOrInt
  versionTemplate : Option VersionTemplate
  deriving DecidableEq

/-- The calls; a body that its schema rejects is the message of that. A creation carries the caller it is
for. -/
inductive Request
  | createCryptoKey (caller : ℕ) (keyRingName cryptoKeyId : JsString)
      (body : Except JsString CreateCryptoKeyRequest) (skipInitialVersionCreation : Bool)
  | createCryptoKeyVersion (caller : ℕ) (cryptoKeyName : JsString)
  | updatePrimaryVersion (name versionId : JsString)
  | updateCryptoKeyVersion (name : JsString) (body : Except JsString (Option EnumOrInt))
      (updateMask : Option JsString)
  | destroyCryptoKeyVersion (name : JsString)
  | restoreCryptoKeyVersion (name : JsString)
  deriving DecidableEq

/-- What a call that has passed its checks writes to a version. -/
inductive VersionChange
  | setState (target : CryptoKeyVersionState)
  | destroy (destroyTime : JsString)
  | restore
  deriving DecidableEq

def VersionChange.apply (version : CryptoKeyVersionRecord) : VersionChange → CryptoKeyVersionRecord
  | .setState target => { version with state := target }
  | .destroy destroyTime =>
      { version with state := .destroyScheduled, destroyTime := some destroyTime }
  | .restore => { version with state := .disabled, destroyTime := none }

/-- A call of `addVersion`: for whom, on which key, and the number of its promise. -/
structure Allocation where
  caller : ℕ
  cryptoKeyName : JsString
  number : ℕ
  deriving DecidableEq

/-- The record of a key to be created. -/
structure NewCryptoKey where
  caller : ℕ
  name : JsString
  purpose : CryptoKeyPurpose
  protectionLevel : JsString
  algorithm : JsString
  skipInitialVersionCreation : Bool
  deriving DecidableEq

/-- A call in flight, named for what it awaits. -/
inductive Call
  | requested (request : Request)
  | checkingKey (new : NewCryptoKey)
  | guardingKey (new : NewCryptoKey)
  | insertingKey (new : NewCryptoKey)
  | queued (allocation : Allocation) (previous : Option ℕ)
  | readingKey (allocation : Allocation)
  | numbering (allocation : Allocation) (key : CryptoKeyRecord)
  | guardingVersion (allocation : Allocation) (key : CryptoKeyRecord)
      (version : CryptoKeyVersionRecord)
  | insertingVersion (allocation : Allocation) (key : CryptoKeyRecord)
      (version : CryptoKeyVersionRecord)
  | findingKey (allocation : Allocation) (version : CryptoKeyVersionRecord)
  | settingPrimary (allocation : Allocation) (id : ℕ) (version : CryptoKeyVersionRecord)
  | forgetting (cryptoKeyName : JsString) (allocation : ℕ)
  | readingPrimary (name versionId : JsString)
  | findingPrimary (name versionId : JsString)
  | writingPrimary (name versionId : JsString) (id : ℕ)
  | findingVersion (name : JsString) (change : VersionChange)
  | writingVersion (name : JsString) (id : ℕ) (change : VersionChange)
  deriving DecidableEq

/-- How a call ended: a creation with the version it was given, if it asked for one, a change with the
version it leaves. -/
inductive Outcome
  | created (caller : ℕ) (result : Except Thrown (Option CryptoKeyVersionRecord))
  | primary (name : JsString) (result : Except Thrown Unit)
  | version (name : JsString) (result : Except Thrown CryptoKeyVersionRecord)
  | forgotten

/-- What the storage answers: it has done what it was asked, or it rejects. -/
inductive StorageAnswer
  | done
  | rejected (applied : Bool) (message : JsString)
  deriving DecidableEq

/-- What a segment gets from outside. -/
structure Outside where
  storage : StorageAnswer
  now : ℤ
  random : Randomness

/-! ## Checks -/

def cryptoKeyNotFound (name : JsString) : Thrown :=
  .kms .notFound (js "CryptoKey " ++ name ++ js " not found")

def versionNotFound (name : JsString) : Thrown :=
  .kms .notFound (js "CryptoKeyVersion " ++ name ++ js " not found")

section Checks

variable (toUpperCase : JsString → JsString)

/-- The purpose of a new key. -/
def requestedPurpose (request : CreateCryptoKeyRequest) : Except Thrown CryptoKeyPurpose := do
  match request.purpose with
  | none => throw (.kms .invalidArgument "purpose is required")
  | some input =>
      match ← normalizePurpose toUpperCase input with
      | .inl purpose => throw (.kms .invalidArgument (js "Unsupported purpose: " ++ purpose))
      | .inr purpose => pure purpose

/-- The algorithm of a new key. -/
def requestedAlgorithm (request : CreateCryptoKeyRequest) (purpose : CryptoKeyPurpose) :
    Except Thrown JsString :=
  let algorithm := match request.versionTemplate with
    | none => defaultAlgorithmForPurpose purpose
    | some template => normalizeAlgorithm toUpperCase template.algorithm
  if algorithmMatchesPurpose algorithm purpose then .ok algorithm
  else .error (.kms .invalidArgument
    (js "Algorithm " ++ algorithm ++ js " is not supported for purpose " ++ purpose.text))

/-- The protection level of a new key. -/
def requestedProtectionLevel (request : CreateCryptoKeyRequest) : Except Thrown JsString := do
  let level ← match request.versionTemplate.bind VersionTemplate.protectionLevel with
    | none => pure (js "SOFTWARE")
    | some input => normalizeProtectionLevel toUpperCase input
  if level = js "SOFTWARE" then pure level
  else throw (.kms .invalidArgument
    (js "protectionLevel " ++ level ++ js " is not supported by the emulator (only SOFTWARE)"))

/-- What `createCryptoKey` checks between its first two reads. -/
def checkCreate (caller : ℕ) (keyRingName cryptoKeyId : JsString)
    (body : Except JsString CreateCryptoKeyRequest) (skipInitialVersionCreation : Bool) :
    Except Thrown NewCryptoKey := do
  match body with
  | .error message => throw (.kms .invalidArgument (js "Invalid CryptoKey: " ++ message))
  | .ok request =>
      let purpose ← requestedPurpose toUpperCase request
      let algorithm ← requestedAlgorithm toUpperCase request purpose
      let protectionLevel ← requestedProtectionLevel toUpperCase request
      if parsesAsKeyRing keyRingName then
        pure ⟨caller, buildCryptoKeyName keyRingName cryptoKeyId, purpose, protectionLevel, algorithm,
          skipInitialVersionCreation⟩
      else
        throw (.error (js "Invalid key ring resource name: \"" ++ keyRingName ++ js "\""))

/-- The state that a patch asks for, `none` when it asks for nothing. -/
def requestedState (body : Except JsString (Option EnumOrInt)) (updateMask : Option JsString) :
    Except Thrown (Option CryptoKeyVersionState) := do
  match body with
  | .error message => throw (.kms .invalidArgument (js "Invalid update: " ++ message))
  | .ok state =>
      let allowed := match updateMask with
        | none | some [] => true
        | some mask => ((splitUnit (unit ',') mask).map trim).contains (js "state")
      match state, allowed with
      | none, _ | _, false => pure none
      | some input, true =>
          match ← normalizeState toUpperCase input with
          | .inr .enabled => pure (some .enabled)
          | .inr .disabled => pure (some .disabled)
          | _ => throw (.kms .invalidArgument
              "state can only be set to ENABLED or DISABLED; use destroy/restore otherwise")

/-- What `updateCryptoKeyVersion` checks: the state to write, `none` when there is nothing to do. -/
def checkUpdate (existing : CryptoKeyVersionRecord) (body : Except JsString (Option EnumOrInt))
    (updateMask : Option JsString) : Except Thrown (Option VersionChange) := do
  match ← requestedState toUpperCase body updateMask with
  | none => pure none
  | some target =>
      if existing.state = .enabled ∨ existing.state = .disabled then pure (some (.setState target))
      else throw (.kms .failedPrecondition (js "CryptoKeyVersion " ++ existing.name ++
        js " cannot transition from " ++ existing.state.text))

end Checks

/-- `DESTROY_SCHEDULED_MS`. -/
def destroyScheduledMs : ℤ := 24 * 60 * 60 * 1000

/-- What `destroyCryptoKeyVersion` checks. -/
def checkDestroy (now : ℤ) (existing : CryptoKeyVersionRecord) : Except Thrown VersionChange :=
  if existing.state = .destroyed ∨ existing.state = .destroyScheduled then
    .error (.kms .failedPrecondition (js "CryptoKeyVersion " ++ existing.name ++ js " is already " ++
      existing.state.text))
  else .ok (.destroy (toISOString (now + destroyScheduledMs)))

/-- What `restoreCryptoKeyVersion` checks. -/
def checkRestore (existing : CryptoKeyVersionRecord) : Except Thrown VersionChange :=
  if existing.state = .destroyScheduled then .ok .restore
  else .error (.kms .failedPrecondition (js "CryptoKeyVersion " ++ existing.name ++
    js " is not scheduled for destruction"))

/-! ## Segments -/

/-- The record of a version that is allocated, before the storage gives it an id. -/
def newVersion (key : CryptoKeyRecord) (number : ℕ) (outside : Outside) :
    Option CryptoKeyVersionRecord :=
  (generateKeyMaterial key.algorithm outside.random).map fun keyMaterial =>
    { id := 0
      name := buildCryptoKeyVersionName key.name (decimal number)
      cryptoKeyName := key.name
      versionNumber := number
      state := .enabled
      protectionLevel := key.protectionLevel
      algorithm := key.algorithm
      keyMaterial := keyMaterial
      generateTime := toISOString outside.now
      destroyTime := none }

namespace KeyStore

variable (store : KeyStore)

def insertKey (new : NewCryptoKey) : KeyStore :=
  { store with
    cryptoKeys := store.cryptoKeys ++ [
      { id := store.cryptoKeys.length
        name := new.name
        purpose := new.purpose
        protectionLevel := new.protectionLevel
        algorithm := new.algorithm
        primaryVersion := none }] }

/-- The version as it is inserted. -/
def inserted (version : CryptoKeyVersionRecord) : CryptoKeyVersionRecord :=
  { version with id := store.versions.length }

def insertVersion (version : CryptoKeyVersionRecord) : KeyStore :=
  { store with versions := store.versions ++ [store.inserted version] }

/-- What a call's request to the storage writes. -/
def written : Call → KeyStore
  | .insertingKey new => store.insertKey new
  | .insertingVersion _ _ version => store.insertVersion version
  | .settingPrimary _ id version => store.setPrimary id (decimal version.versionNumber)
  | .writingPrimary _ versionId id => store.setPrimary id versionId
  | .writingVersion _ id change => store.changeVersion id fun version => change.apply version
  | _ => store

/-- `addVersion(cryptoKeyName)`. -/
def addVersion (caller : ℕ) (cryptoKeyName : JsString) : KeyStore × Progress Call Outcome :=
  ({ store with
      versionAllocations :=
        Function.update store.versionAllocations cryptoKeyName (some store.allocations)
      allocations := store.allocations + 1
      keyOf := Function.update store.keyOf store.allocations cryptoKeyName },
    .forked (.queued ⟨caller, cryptoKeyName, store.allocations⟩
        (store.versionAllocations cryptoKeyName))
      [.forgetting cryptoKeyName store.allocations])

/-- The allocation ends, and with it the call. -/
def allocated (allocation : Allocation) (result : Except Thrown CryptoKeyVersionRecord) :
    KeyStore × Progress Call Outcome :=
  (store.settle allocation.number, .finished (.created allocation.caller (result.map some)))

/-- The call ends with an error. -/
def fails (thrown : Thrown) : Call → KeyStore × Progress Call Outcome
  | .requested (.createCryptoKey caller _ _ _ _) | .requested (.createCryptoKeyVersion caller _) =>
      (store, .finished (.created caller (.error thrown)))
  | .checkingKey new | .guardingKey new | .insertingKey new =>
      (store, .finished (.created new.caller (.error thrown)))
  | .queued allocation _ | .readingKey allocation | .numbering allocation _
  | .guardingVersion allocation _ _ | .insertingVersion allocation _ _ | .findingKey allocation _
  | .settingPrimary allocation _ _ => store.allocated allocation (.error thrown)
  | .forgetting _ _ => (store, .finished .forgotten)
  | .requested (.updatePrimaryVersion name _) | .readingPrimary name _ | .findingPrimary name _
  | .writingPrimary name _ _ => (store, .finished (.primary name (.error thrown)))
  | .requested (.updateCryptoKeyVersion name _ _) | .requested (.destroyCryptoKeyVersion name)
  | .requested (.restoreCryptoKeyVersion name) | .findingVersion name _
  | .writingVersion name _ _ => (store, .finished (.version name (.error thrown)))

/-- A change of a version goes on once its version was read. -/
def change (name : JsString) (check : CryptoKeyVersionRecord → Except Thrown (Option VersionChange)) :
    KeyStore × Progress Call Outcome :=
  match store.getVersionByName name with
  | none => (store, .finished (.version name (.error (versionNotFound name))))
  | some existing =>
      match check existing with
      | .error thrown => (store, .finished (.version name (.error thrown)))
      | .ok none => (store, .finished (.version name (.ok existing)))
      | .ok (some change) => (store, .pending (.findingVersion name change))

end KeyStore

variable (toUpperCase : JsString → JsString)

/-- A request, up to its second await. -/
def KeyStore.request (store : KeyStore) (outside : Outside) :
    Request → KeyStore × Progress Call Outcome
  | .createCryptoKey caller keyRingName cryptoKeyId body skip =>
      if cryptoKeyId = [] then
        (store, .finished (.created caller
          (.error (.kms .invalidArgument "cryptoKeyId is required"))))
      else if keyRingName ∉ store.keyRings then
        (store, .finished (.created caller
          (.error (.kms .notFound (js "KeyRing " ++ keyRingName ++ js " not found")))))
      else
        match checkCreate toUpperCase caller keyRingName cryptoKeyId body skip with
        | .error thrown => (store, .finished (.created caller (.error thrown)))
        | .ok new => (store, .pending (.checkingKey new))
  | .createCryptoKeyVersion caller cryptoKeyName =>
      match store.getCryptoKeyByName cryptoKeyName with
      | none => (store, .finished (.created caller (.error (cryptoKeyNotFound cryptoKeyName))))
      | some _ => store.addVersion caller cryptoKeyName
  | .updatePrimaryVersion name versionId =>
      match store.getCryptoKeyByName name with
      | none => (store, .finished (.primary name (.error (cryptoKeyNotFound name))))
      | some key =>
          if purposeUsesPrimaryVersion key.purpose = false then
            (store, .finished (.primary name (.error (.kms .invalidArgument
              (js "CryptoKey " ++ name ++ js " (purpose " ++ key.purpose.text ++
                js ") does not use a primary version")))))
          else if versionId = [] then
            (store, .finished (.primary name
              (.error (.kms .invalidArgument "cryptoKeyVersionId is required"))))
          else (store, .pending (.readingPrimary name versionId))
  | .updateCryptoKeyVersion name body updateMask =>
      store.change name fun existing => checkUpdate toUpperCase existing body updateMask
  | .destroyCryptoKeyVersion name =>
      store.change name fun existing => (checkDestroy outside.now existing).map some
  | .restoreCryptoKeyVersion name => store.change name fun existing => (checkRestore existing).map some

/-- A segment of a call that the storage has answered. -/
def KeyStore.answered (store : KeyStore) (outside : Outside) (call : Call) :
    KeyStore × Progress Call Outcome :=
  match call with
  | .requested request => store.request toUpperCase outside request
  | .checkingKey new =>
      match store.getCryptoKeyByName new.name with
      | some _ =>
          store.fails (.kms .alreadyExists (js "CryptoKey " ++ new.name ++ js " already exists")) call
      | none => (store, .pending (.guardingKey new))
  | .guardingKey new =>
      match store.getCryptoKeyByName new.name with
      | some _ => store.fails (.error (js "CryptoKey " ++ new.name ++ js " already exists")) call
      | none => (store, .pending (.insertingKey new))
  | .insertingKey new =>
      if new.skipInitialVersionCreation then
        (store.written call, .finished (.created new.caller (.ok none)))
      else (store.written call).addVersion new.caller new.name
  | .queued allocation previous =>
      if previous.all fun previous => previous ∈ store.settled then
        ({ store with begun := store.begun ++ [allocation.number] },
          .pending (.readingKey allocation))
      else (store, .pending call)
  | .readingKey allocation =>
      match store.getCryptoKeyByName allocation.cryptoKeyName with
      | none => store.fails (cryptoKeyNotFound allocation.cryptoKeyName) call
      | some key => (store, .pending (.numbering allocation key))
  | .numbering allocation key =>
      match newVersion key (store.getHighestVersionNumber allocation.cryptoKeyName + 1) outside with
      | none => store.fails (.error (js "Unsupported algorithm: " ++ key.algorithm)) call
      | some version => (store, .pending (.guardingVersion allocation key version))
  | .guardingVersion allocation key version =>
      match store.getVersionByName version.name with
      | some _ =>
          store.fails (.error (js "CryptoKeyVersion " ++ version.name ++ js " already exists")) call
      | none => (store, .pending (.insertingVersion allocation key version))
  | .insertingVersion allocation key version =>
      if key.primaryVersion.isSome ∨ purposeUsesPrimaryVersion key.purpose = false then
        (store.written call).allocated allocation (.ok (store.inserted version))
      else (store.written call, .pending (.findingKey allocation (store.inserted version)))
  | .findingKey allocation version =>
      match store.getCryptoKeyByName version.cryptoKeyName with
      | none => store.allocated allocation (.ok version)
      | some existing => (store, .pending (.settingPrimary allocation existing.id version))
  | .settingPrimary allocation _ version => (store.written call).allocated allocation (.ok version)
  | .forgetting cryptoKeyName allocation =>
      if allocation ∈ store.settled then
        (if store.versionAllocations cryptoKeyName = some allocation then
            { store with
              versionAllocations := Function.update store.versionAllocations cryptoKeyName none }
          else store,
          .finished .forgotten)
      else (store, .pending call)
  | .readingPrimary name versionId =>
      match store.getVersionByName (buildCryptoKeyVersionName name versionId) with
      | none => store.fails (versionNotFound versionId) call
      | some version =>
          if version.state = .enabled then (store, .pending (.findingPrimary name versionId))
          else store.fails (.kms .failedPrecondition
            (js "CryptoKeyVersion " ++ versionId ++ js " is not ENABLED")) call
  | .findingPrimary name versionId =>
      match store.getCryptoKeyByName name with
      | none => store.fails (cryptoKeyNotFound name) call
      | some existing => (store, .pending (.writingPrimary name versionId existing.id))
  | .writingPrimary name _ id =>
      if store.cryptoKeys.any fun key => key.id = id then
        (store.written call, .finished (.primary name (.ok ())))
      else store.fails (cryptoKeyNotFound name) call
  | .findingVersion name change =>
      match store.getVersionByName name with
      | none => store.fails (versionNotFound name) call
      | some existing => (store, .pending (.writingVersion name existing.id change))
  | .writingVersion name id change =>
      match store.versions.find? fun version => version.id = id with
      | none => store.fails (versionNotFound name) call
      | some existing => (store.written call, .finished (.version name (.ok (change.apply existing))))

/-- Whether a call goes on with an answer of the storage, and not with a promise or at once. -/
def Call.awaitsStorage : Call → Bool
  | .queued _ _ | .forgetting _ _ | .requested (.createCryptoKey _ _ [] _ _) => false
  | _ => true

/-- One segment of a call, up to its next await. -/
def KeyStore.segment (store : KeyStore) (call : Call) (outside : Outside) :
    KeyStore × Progress Call Outcome :=
  match outside.storage, call.awaitsStorage with
  | .rejected applied message, true =>
      (if applied then store.written call else store).fails (.error message) call
  | _, _ => store.answered toUpperCase outside call

/-- The calls of the service. -/
def keyManagement : Async KeyStore Request Call Outside Outcome :=
  ⟨.requested, KeyStore.segment toUpperCase⟩

end Kinglet.Kms
