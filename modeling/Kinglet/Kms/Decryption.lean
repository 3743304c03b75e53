import Kinglet.Kms.Allocation
import Kinglet.Kms.Crypto

/-!
# What was encrypted stays decryptable

Whatever is called after an `encrypt`, the version that it used keeps its name and its key material,
and the envelope says its number; so `decrypt` opens the ciphertext while the version is enabled and
refuses it otherwise. This holds when the primary of the key is one of its own versions. A version id
with a slash in it may name a version of another key, whose number the envelope does not say.
-/

namespace Kinglet.Kms

open Js Library

variable {toUpperCase : JsString → JsString} {store : KeyStore} {call : Call} {outside : Outside}

/-! ## The records of versions -/

/-- The version that a call is about to insert. -/
def Call.carried : Call → Option CryptoKeyVersionRecord
  | .guardingVersion _ _ version | .insertingVersion _ _ version => some version
  | _ => none

/-- A version is named for its key and its number, and a secret has the size of a key. -/
structure Formed (version : CryptoKeyVersionRecord) : Prop where
  named : version.name =
    buildCryptoKeyVersionName version.cryptoKeyName (decimal version.versionNumber)
  sized : version.keyMaterial.Sized

theorem generateKeyMaterial_sized {algorithm : JsString} {random : Randomness}
    {keyMaterial : KeyMaterial} (h : generateKeyMaterial algorithm random = some keyMaterial) :
    keyMaterial.Sized := by
  obtain ⟨spec, -, rfl⟩ := Option.map_eq_some_iff.1 h
  intro bytes hbytes
  split at hbytes
  · cases hbytes
    exact random.length_secret
  · cases hbytes
  · cases hbytes

theorem newVersion_formed {key : CryptoKeyRecord} {number : ℕ} {version : CryptoKeyVersionRecord}
    (h : newVersion key number outside = some version) : Formed version := by
  obtain ⟨keyMaterial, hmaterial, rfl⟩ := Option.map_eq_some_iff.1 h
  exact ⟨rfl, generateKeyMaterial_sized hmaterial⟩

theorem formed_request (store : KeyStore) (outside : Outside) (request : Request) :
    ∀ rest ∈ (store.request toUpperCase outside request).2.calls, rest.carried = none := by
  have hchange : ∀ name check, ∀ rest ∈ (store.change name check).2.calls, rest.carried = none := by
    intro name check
    unfold KeyStore.change
    split
    · simp [Progress.calls]
    · split <;> simp [Progress.calls, Call.carried]
  cases request with
  | createCryptoKey caller keyRingName cryptoKeyId body skip =>
    simp only [KeyStore.request]
    split
    · simp [Progress.calls]
    · split
      · simp [Progress.calls]
      · split <;> simp [Progress.calls, Call.carried]
  | createCryptoKeyVersion caller cryptoKeyName =>
    simp only [KeyStore.request]
    split <;> simp [Progress.calls, KeyStore.addVersion, Call.carried]
  | updatePrimaryVersion name versionId =>
    simp only [KeyStore.request]
    split
    · simp [Progress.calls]
    · split
      · simp [Progress.calls]
      · split <;> simp [Progress.calls, Call.carried]
  | _ => exact hchange _ _

theorem formed_segment (store : KeyStore) (outside : Outside)
    (h : ∀ version ∈ call.carried, Formed version) :
    ∀ rest ∈ (store.segment toUpperCase call outside).2.calls, ∀ version ∈ rest.carried,
      Formed version := by
  unfold KeyStore.segment
  split
  · simp
  · cases call with
    | requested request =>
      intro rest hrest version hversion
      rw [formed_request store outside request rest hrest] at hversion
      cases hversion
    | insertingKey new =>
      simp only [KeyStore.answered]
      split <;> simp [Progress.calls, KeyStore.addVersion, Call.carried]
    | insertingVersion allocation key version =>
      simp only [KeyStore.answered]
      split <;> simp [Progress.calls, KeyStore.allocated, Call.carried]
    | numbering allocation key =>
      simp only [KeyStore.answered]
      split
      · simp
      · rename_i version hnew
        intro rest hrest version' hversion'
        obtain rfl := List.mem_singleton.1 hrest
        obtain rfl := Option.some.inj hversion'
        exact newVersion_formed hnew
    | guardingVersion allocation key version =>
      simp only [KeyStore.answered]
      split
      · simp
      · intro rest hrest
        obtain rfl := List.mem_singleton.1 hrest
        exact h
    | readingPrimary name versionId =>
      simp only [KeyStore.answered]
      split
      · simp
      · split <;> simp [Progress.calls, KeyStore.fails, Call.carried]
    | _ =>
      simp only [KeyStore.answered]
      first
      | simp [Progress.calls, KeyStore.allocated, Call.carried]; done
      | (split <;> simp [Progress.calls, KeyStore.fails, KeyStore.allocated, Call.carried])

/-- Every version is well formed, also one that is about to be inserted. -/
def formation : Outline KeyStore Call Outcome where
  Inv store _ := ∀ version ∈ store.versions, Formed version
  Local _ call := ∀ version ∈ call.carried, Formed version
  Pair _ _ := True
  symm _ := trivial

theorem formed_versions (h : ∀ version ∈ store.versions, Formed version)
    (hcarried : ∀ version ∈ call.carried, Formed version) :
    ∀ version ∈ (store.segment toUpperCase call outside).1.versions, Formed version := by
  have hwrites := writes_segment toUpperCase store call outside
  generalize (store.segment toUpperCase call outside).1.versions = versions at hwrites
  cases hwrites with
  | nothing => exact h
  | insert allocation key version =>
    obtain ⟨hnamed, hsized⟩ := hcarried version rfl
    intro other hother
    rcases List.mem_append.1 hother with hother | hother
    · exact h other hother
    · obtain rfl := List.mem_singleton.1 hother
      exact ⟨hnamed, hsized⟩
  | change name id change =>
    intro other hother
    obtain ⟨version, hversion, rfl⟩ := List.mem_map.1 hother
    obtain ⟨hnamed, hsized⟩ := h version hversion
    split
    · cases change <;> exact ⟨hnamed, hsized⟩
    · exact ⟨hnamed, hsized⟩

variable {pool pool' : Pool KeyStore Call Outcome} {m : Move Request Outside}
  {moves : List (Move Request Outside)} {Allowed : Pool KeyStore Call Outcome →
    Move Request Outside → Prop}

theorem formed_of_run {keyRings : List JsString}
    (hrun : Run ((keyManagement toUpperCase).Step Allowed) ⟨.start keyRings, [], []⟩ moves pool) :
    ∀ version ∈ pool.shared.versions, Formed version := by
  have hbegin : Outline.Begins (keyManagement toUpperCase) formation Allowed := by
    intro pool request _ _
    exact ⟨nofun, fun _ _ => trivial⟩
  have hsegment : Outline.Segments (keyManagement toUpperCase) formation Allowed := by
    intro pool index outside call h _ hcall
    have hcarried : ∀ version ∈ call.carried, Formed version :=
      h.each call (List.mem_of_getElem? hcall)
    refine ⟨Outline.Keeps.of_calls (fun _ => formed_versions h.inv hcarried)
      (formed_segment _ _ hcarried) (List.pairwise_of_forall fun _ _ => trivial),
      fun other hother => ?_⟩
    exact Outline.Spares.of (h.each other (List.mem_of_mem_eraseIdx hother)) fun _ _ => trivial
  have hstart : formation.Holds ⟨.start keyRings, [], []⟩ := .start (List.forall_mem_nil _)
  exact (hstart.of_run hbegin hsegment hrun).inv

/-! ## What the calls leave of a key and its versions -/

theorem cryptoKeys_fails (store : KeyStore) (thrown : Thrown) (call : Call) :
    (store.fails thrown call).1.cryptoKeys = store.cryptoKeys := by
  cases call with
  | requested request => cases request <;> rfl
  | _ => rfl

/-- A segment leaves the keys, or does with them what was asked of the storage. -/
theorem cryptoKeys_segment (toUpperCase : JsString → JsString) (store : KeyStore) (call : Call)
    (outside : Outside) :
    (store.segment toUpperCase call outside).1.cryptoKeys = store.cryptoKeys ∨
      (store.segment toUpperCase call outside).1.cryptoKeys = (store.written call).cryptoKeys := by
  unfold KeyStore.segment
  split
  · rw [cryptoKeys_fails]
    split
    · exact .inr rfl
    · exact .inl rfl
  · cases call with
    | requested request =>
      refine .inl ?_
      cases request with
      | createCryptoKey caller keyRingName cryptoKeyId body skip =>
        simp only [KeyStore.answered, KeyStore.request]
        split
        · rfl
        · split
          · rfl
          · split <;> rfl
      | createCryptoKeyVersion caller cryptoKeyName =>
        simp only [KeyStore.answered, KeyStore.request]
        split <;> rfl
      | updatePrimaryVersion name versionId =>
        simp only [KeyStore.answered, KeyStore.request]
        split
        · rfl
        · split
          · rfl
          · split <;> rfl
      | _ => simp [KeyStore.answered, KeyStore.request]
    | insertingKey new =>
      simp only [KeyStore.answered]
      split <;> exact .inr rfl
    | settingPrimary allocation id version => exact .inr rfl
    | insertingVersion allocation key version =>
      simp only [KeyStore.answered]
      split <;> exact .inl rfl
    | writingPrimary name versionId id =>
      simp only [KeyStore.answered]
      split
      · exact .inr rfl
      · exact .inl rfl
    | forgetting cryptoKeyName number =>
      simp only [KeyStore.answered]
      split
      · split <;> exact .inl rfl
      · exact .inl rfl
    | readingPrimary name versionId =>
      simp only [KeyStore.answered]
      split
      · exact .inl rfl
      · split <;> exact .inl rfl
    | writingVersion name id change =>
      simp only [KeyStore.answered]
      split
      · exact .inl rfl
      · exact .inr rfl
    | _ =>
      simp only [KeyStore.answered]
      first | exact .inl rfl | (split <;> exact .inl rfl)

/-- Keys are not deleted, and keep their purpose. -/
theorem getCryptoKeyByName_written {name : JsString} {key : CryptoKeyRecord}
    (hkey : store.getCryptoKeyByName name = some key) (call : Call) :
    ∃ key', (store.written call).getCryptoKeyByName name = some key' ∧
      key'.purpose = key.purpose := by
  have hset : ∀ id versionId, ∃ key', (store.setPrimary id versionId).getCryptoKeyByName name =
      some key' ∧ key'.purpose = key.purpose := by
    intro id versionId
    rw [getCryptoKeyByName_setPrimary, hkey]
    refine ⟨_, rfl, ?_⟩
    dsimp only
    split <;> rfl
  cases call with
  | insertingKey new => exact ⟨key, getCryptoKeyByName_insertKey new hkey, rfl⟩
  | settingPrimary allocation id version => exact hset _ _
  | writingPrimary name versionId id => exact hset _ _
  | _ => exact ⟨key, hkey, rfl⟩

/-- Nor are versions, and they keep their key material. -/
theorem find_of_writes {versions : List CryptoKeyVersionRecord} (h : Writes store call versions)
    {name : JsString} {version : CryptoKeyVersionRecord}
    (hversion : store.getVersionByName name = some version) :
    ∃ version', versions.find? (fun version => version.name = name) = some version' ∧
      version'.keyMaterial = version.keyMaterial := by
  unfold KeyStore.getVersionByName at hversion
  cases h with
  | nothing => exact ⟨version, hversion, rfl⟩
  | insert allocation key new =>
    exact ⟨version, by rw [List.find?_append, hversion, Option.some_or], rfl⟩
  | change other id change =>
    have hname : ((fun version : CryptoKeyVersionRecord => decide (version.name = name)) ∘
        fun version => if version.id = id then change.apply version else version) =
          fun version => decide (version.name = name) := by
      funext version
      simp only [Function.comp_apply]
      split
      · cases change <;> rfl
      · rfl
    rw [List.find?_map, hname, hversion]
    refine ⟨_, rfl, ?_⟩
    dsimp only
    split
    · cases change <;> rfl
    · rfl

/-- What a later call needs to open a ciphertext: the key, and the material of the version. -/
structure Keeps (cryptoKeyName versionName : JsString) (keyMaterial : KeyMaterial)
    (store : KeyStore) : Prop where
  key : ∃ key, store.getCryptoKeyByName cryptoKeyName = some key ∧ key.purpose = .encryptDecrypt
  version : ∃ version, store.getVersionByName versionName = some version ∧
    version.keyMaterial = keyMaterial

theorem keeps_of_step {cryptoKeyName versionName : JsString} {keyMaterial : KeyMaterial}
    (hstep : (keyManagement toUpperCase).Step Allowed pool m pool')
    (h : Keeps cryptoKeyName versionName keyMaterial pool.shared) :
    Keeps cryptoKeyName versionName keyMaterial pool'.shared := by
  obtain ⟨-, hmove⟩ := hstep
  cases m with
  | start request =>
    obtain rfl := Option.some.inj hmove
    exact h
  | resume index outside =>
    obtain ⟨call, hcall, rfl⟩ := Option.map_eq_some_iff.1 hmove
    rw [Async.advance_shared]
    obtain ⟨⟨key, hkey, hpurpose⟩, version, hversion, hmaterial⟩ := h
    refine ⟨?_, ?_⟩
    · obtain ⟨key', hkey', hsame⟩ := getCryptoKeyByName_written hkey call
      unfold KeyStore.getCryptoKeyByName at hkey hkey' ⊢
      rcases cryptoKeys_segment toUpperCase pool.shared call outside with hkeys | hkeys
      · exact ⟨key, by rw [← hkey, ← hkeys]; rfl, hpurpose⟩
      · exact ⟨key', by rw [← hkey', ← hkeys]; rfl, hsame.trans hpurpose⟩
    · obtain ⟨version', hversion', hsame⟩ :=
        find_of_writes (writes_segment toUpperCase pool.shared call outside) hversion
      exact ⟨version', hversion', hsame.trans hmaterial⟩

theorem keeps_of_run {cryptoKeyName versionName : JsString} {keyMaterial : KeyMaterial}
    (hrun : Run ((keyManagement toUpperCase).Step Allowed) pool moves pool')
    (h : Keeps cryptoKeyName versionName keyMaterial pool.shared) :
    Keeps cryptoKeyName versionName keyMaterial pool'.shared := by
  induction hrun with
  | refl => exact h
  | head hstep _ ih => exact ih (keeps_of_step hstep h)

/-! ## Decryption -/

variable {cipher : Cipher} {iv plaintext : List ℕ} {aad : Option (List ℕ)} {cryptoKeyName : JsString}
  {encrypted : EncryptResult}

/-- What decrypting gives in some state: the plaintext while the version that encrypted is enabled, a
failed precondition else, and whether this version is the primary one. -/
structure Decrypts (cipher : Cipher) (cryptoKeyName : JsString) (encrypted : EncryptResult)
    (plaintext : List ℕ) (aad : Option (List ℕ)) (store : KeyStore) : Prop where
  present : (store.getVersionByName encrypted.keyVersionName).isSome
  opened : ∀ version, store.getVersionByName encrypted.keyVersionName = some version →
    version.state = .enabled → ∃ usedPrimary,
      store.decrypt cipher cryptoKeyName encrypted.ciphertext aad = .ok ⟨plaintext, usedPrimary⟩
  refused : ∀ version, store.getVersionByName encrypted.keyVersionName = some version →
    version.state ≠ .enabled → ∃ message,
      store.decrypt cipher cryptoKeyName encrypted.ciphertext aad =
        .error (.kms .failedPrecondition message)
  usedPrimary : ∀ result, store.decrypt cipher cryptoKeyName encrypted.ciphertext aad = .ok result →
    (result.usedPrimary = true ↔ ∃ key primaryVersion,
      store.getCryptoKeyByName cryptoKeyName = some key ∧ key.primaryVersion = some primaryVersion ∧
        buildCryptoKeyVersionName key.name primaryVersion = encrypted.keyVersionName)

/-- A ciphertext of a version of the key itself. -/
theorem decrypts_of_keeps {number : ℕ} {keyMaterial : KeyMaterial}
    (hkeeps : Keeps cryptoKeyName (buildCryptoKeyVersionName cryptoKeyName (decimal number)) keyMaterial
      store)
    (hname : encrypted.keyVersionName = buildCryptoKeyVersionName cryptoKeyName (decimal number))
    (hread : readEnvelopeVersionId encrypted.ciphertext = .ok number)
    (hopens : symmetricDecrypt cipher keyMaterial encrypted.ciphertext aad = .ok plaintext) :
    Decrypts cipher cryptoKeyName encrypted plaintext aad store := by
  obtain ⟨⟨key, hkey, hpurpose⟩, version, hversion, rfl⟩ := hkeeps
  have hrequire : store.requireEncryptionKey cryptoKeyName "decrypt" = .ok key :=
    requireEncryptionKey_eq_ok.2 ⟨hkey, hpurpose⟩
  obtain ⟨-, hkeyName⟩ := getCryptoKeyByName_eq_some hkey
  have hdecrypt : store.decrypt cipher cryptoKeyName encrypted.ciphertext aad =
      if version.state = .enabled then
        .ok ⟨plaintext, decide (some (decimal number) = key.primaryVersion)⟩
      else .error (.kms .failedPrecondition
        (js "Key version " ++ version.name ++ js " is not ENABLED")) := by
    simp only [KeyStore.decrypt, hrequire, hread, hversion, bind, Except.bind, hopens]
    rfl
  rw [← hname] at hversion
  refine ⟨by simp [hversion], fun other hother hstate => ?_, fun other hother hstate => ?_,
    fun result hresult => ?_⟩
  · obtain rfl := Option.some.inj (hversion.symm.trans hother)
    rw [hdecrypt, if_pos hstate]
    exact ⟨_, rfl⟩
  · obtain rfl := Option.some.inj (hversion.symm.trans hother)
    rw [hdecrypt, if_neg hstate]
    exact ⟨_, rfl⟩
  · rw [hdecrypt] at hresult
    split at hresult
    · obtain rfl := Except.ok.inj hresult
      simp only [decide_eq_true_eq]
      constructor
      · intro hprimary
        exact ⟨key, decimal number, hkey, hprimary.symm, by rw [hname, hkeyName]⟩
      · rintro ⟨other, primaryVersion, hother, hprimary, hbuild⟩
        obtain rfl := Option.some.inj (hkey.symm.trans hother)
        rw [hname, hkeyName] at hbuild
        rw [hprimary, List.append_cancel_left hbuild]
    · cases hresult

/-- The number that an envelope says is never the id of a version of another key. -/
theorem not_decrypts_of_slash {key : CryptoKeyRecord} {primaryVersion : JsString}
    (hkey : store.getCryptoKeyByName cryptoKeyName = some key)
    (hprimary : key.primaryVersion = some primaryVersion) (hslash : unit '/' ∈ primaryVersion)
    (hname : encrypted.keyVersionName = buildCryptoKeyVersionName key.name primaryVersion)
    (henabled : ∀ version, store.getVersionByName encrypted.keyVersionName = some version →
      version.state = .enabled) :
    ¬Decrypts cipher cryptoKeyName encrypted plaintext aad store := by
  intro h
  obtain ⟨version, hversion⟩ := Option.isSome_iff_exists.1 h.present
  obtain ⟨usedPrimary, hdecrypt⟩ := h.opened version hversion (henabled version hversion)
  -- the version is the primary one, so this is what `usedPrimary` has to say
  have hused : usedPrimary = true :=
    (h.usedPrimary _ hdecrypt).2 ⟨key, primaryVersion, hkey, hprimary, hname.symm⟩
  obtain ⟨found, hfound, hrest⟩ := bind_eq_ok.1 hdecrypt
  obtain ⟨versionId, -, hrest⟩ := bind_eq_ok.1 hrest
  obtain rfl := Option.some.inj (hkey.symm.trans (requireEncryptionKey_eq_ok.1 hfound).1)
  split at hrest
  · cases hrest
  · split at hrest
    · obtain ⟨opened, -, hrest⟩ := bind_eq_ok.1 hrest
      obtain ⟨-, hsame⟩ := DecryptResult.mk.inj (Except.ok.inj hrest)
      rw [hused, decide_eq_true_eq, hprimary] at hsame
      exact slash_notMem_decimal versionId (Option.some.inj hsame ▸ hslash)
    · cases hrest

/-- **Decryptability**: what a key has encrypted decrypts as it should in every state that can follow,
exactly when the primary version of the key was given without a slash. -/
theorem decrypts_iff {keyRings : List JsString} (hcorrect : cipher.Correct) (hiv : iv.length = ivLength)
    (hrun : Run ((keyManagement toUpperCase).Step fun _ _ => True) ⟨.start keyRings, [], []⟩ moves pool)
    (hnumbers : ∀ version ∈ pool.shared.versions, version.versionNumber < 2 ^ 32)
    (hencrypt : pool.shared.encrypt cipher iv cryptoKeyName plaintext aad = .ok encrypted) :
    (∀ later pool', Run ((keyManagement toUpperCase).Step fun _ _ => True) pool later pool' →
        Decrypts cipher cryptoKeyName encrypted plaintext aad pool'.shared) ↔
      ∀ key primaryVersion, pool.shared.getCryptoKeyByName cryptoKeyName = some key →
        key.primaryVersion = some primaryVersion → unit '/' ∉ primaryVersion := by
  obtain ⟨key, primaryVersion, primary, hkey, hpurpose, hprimary, hversion, hstate, hname, hsealed⟩ :=
    encrypt_eq_ok hencrypt
  obtain ⟨-, hkeyName⟩ := getCryptoKeyByName_eq_some hkey
  have hbuilt : primary.name = buildCryptoKeyVersionName key.name primaryVersion := by
    simpa using List.find?_some hversion
  constructor
  · intro h other text hother htext hslash
    obtain rfl := Option.some.inj (hkey.symm.trans hother)
    obtain rfl := Option.some.inj (hprimary.symm.trans htext)
    refine not_decrypts_of_slash hkey hprimary hslash (hname.symm.trans hbuilt) ?_ (h [] pool (.refl _))
    intro version hfound
    rw [← hname, hbuilt, hversion] at hfound
    exact Option.some.inj hfound ▸ hstate
  · intro hslash later pool' hlater
    have hmem : primary ∈ pool.shared.versions := List.mem_of_find?_eq_some hversion
    obtain ⟨hnamed, hsized⟩ := formed_of_run hrun primary hmem
    -- without a slash, the primary is a number, and the version is one of the key
    obtain ⟨-, rfl⟩ := buildCryptoKeyVersionName_inj (hslash key primaryVersion hkey hprimary)
      (slash_notMem_decimal _) (hbuilt.symm.trans hnamed)
    have hnumber := hnumbers primary hmem
    rw [parseUint32_decimal hnumber] at hsealed
    obtain ⟨hread, hopens⟩ := decrypt_symmetricEncrypt hcorrect hiv hsized hnumber hsealed
    rw [hkeyName] at hbuilt hversion
    have hkeeps : Keeps cryptoKeyName
        (buildCryptoKeyVersionName cryptoKeyName (decimal primary.versionNumber)) primary.keyMaterial
        pool.shared := ⟨⟨key, hkey, hpurpose⟩, primary, hversion, rfl⟩
    exact decrypts_of_keeps (keeps_of_run hlater hkeeps) (hname.symm.trans hbuilt) hread hopens

/-! ## Samples -/

def sampleIv : List ℕ := List.replicate 12 0

/-- AES-256-GCM of `hi` under the sample secret and initialisation vector. -/
def sampleSealed : List ℕ × List ℕ :=
  ([9, 177], [18, 191, 113, 88, 223, 54, 36, 34, 187, 236, 83, 69, 123, 182, 105, 38])

/-- A cipher that does on the sample what AES-256-GCM does. -/
def sampleCipher : Cipher where
  encipher key iv aad plaintext :=
    if key = List.replicate 32 7 ∧ iv = sampleIv ∧ aad = [] ∧ plaintext = [104, 105] then sampleSealed
    else (plaintext, List.replicate 16 0)
  decipher key iv aad ciphertext tag :=
    if key = List.replicate 32 7 ∧ iv = sampleIv ∧ aad = [] ∧ (ciphertext, tag) = sampleSealed then
      some [104, 105]
    else if tag = List.replicate 16 0 then some ciphertext else none

theorem sampleCipher_correct : sampleCipher.Correct := by
  refine ⟨fun key iv aad plaintext _ _ => ?_, fun key iv aad plaintext _ _ => ?_⟩
  · simp only [sampleCipher]
    split <;> rfl
  · have htag : (plaintext, List.replicate 16 0) ≠ sampleSealed := by
      intro h
      exact absurd (Prod.mk.inj h).2 (by decide)
    by_cases h : key = List.replicate 32 7 ∧ iv = sampleIv ∧ aad = [] ∧ plaintext = [104, 105]
    · obtain ⟨rfl, rfl, rfl, rfl⟩ := h
      simp [sampleCipher]
    · have hplain : sampleCipher.encipher key iv aad plaintext = (plaintext, List.replicate 16 0) :=
        if_neg h
      rw [hplain]
      exact (if_neg fun hmatch => htag hmatch.2.2.2).trans (if_pos rfl)

/-- What a key has encrypted, and what the storage says of it, for the sample. -/
def encryptsSample (pool : Pool KeyStore Call Outcome) (result : EncryptResult) : Bool :=
  match pool.shared.encrypt sampleCipher sampleIv sampleKey [104, 105] none with
  | .ok encrypted => encrypted = result
  | .error _ => false

theorem encrypt_of_encryptsSample {result : EncryptResult} (h : encryptsSample pool result = true) :
    pool.shared.encrypt sampleCipher sampleIv sampleKey [104, 105] none = .ok result := by
  unfold encryptsSample at h
  split at h
  · rename_i encrypted hencrypted
    rw [hencrypted, of_decide_eq_true h]
  · cases h

/-- `hi` under the first version of the sample key. -/
def sampleEncrypted : EncryptResult :=
  ⟨[1, 0, 0, 0, 1] ++ sampleIv ++ sampleSealed.2 ++ sampleSealed.1, sampleVersion⟩

theorem decrypts_iff_sampleKey : ∃ pool,
    Run ((keyManagement asciiHost.toUpperCase).Step fun _ _ => True) ⟨.start [sampleRing], [], []⟩
      createSampleKey pool ∧
      pool.shared.encrypt sampleCipher sampleIv sampleKey [104, 105] none = .ok sampleEncrypted ∧
        ∀ later pool', Run ((keyManagement asciiHost.toUpperCase).Step fun _ _ => True) pool later pool' →
          Decrypts sampleCipher sampleKey sampleEncrypted [104, 105] none pool'.shared := by
  obtain ⟨pool, hrun, htest⟩ : ∃ pool,
      Run ((keyManagement asciiHost.toUpperCase).Step fun _ _ => True) ⟨.start [sampleRing], [], []⟩
        createSampleKey pool ∧
        (encryptsSample pool sampleEncrypted &&
          (pool.shared.versions.all fun version => version.versionNumber < 2 ^ 32) &&
            (pool.shared.cryptoKeys.all fun key => key.primaryVersion = some (js "1"))) = true :=
    Async.exists_run (by decide +kernel)
  simp only [Bool.and_eq_true, List.all_eq_true, decide_eq_true_eq] at htest
  obtain ⟨⟨hencrypts, hnumbers⟩, hkeys⟩ := htest
  have hencrypt := encrypt_of_encryptsSample hencrypts
  refine ⟨pool, hrun, hencrypt, (decrypts_iff sampleCipher_correct rfl hrun hnumbers hencrypt).2 ?_⟩
  intro key primaryVersion hkey hprimary
  obtain ⟨hmem, -⟩ := getCryptoKeyByName_eq_some hkey
  rw [hkeys key hmem] at hprimary
  obtain rfl := Option.some.inj hprimary
  decide

/-- A second key, named like a version of the first, whose own version becomes the primary of the
first. -/
def primaryOfOtherKey : List (Move Request Outside) :=
  createSampleKey ++ .resume 0 atOnce ::
    .start (.createCryptoKey 1 sampleRing "k/cryptoKeyVersions/3" (.ok ⟨some (.int 1), none⟩) false) ::
    List.replicate 12 (.resume 0 atOnce) ++
    .start (.updatePrimaryVersion sampleKey "3/cryptoKeyVersions/1") ::
    List.replicate 4 (.resume 0 atOnce)

/-- The version that encrypted is enabled, and `decrypt` looks for another one. -/
theorem not_decrypts : ¬ ∀ (toUpperCase : JsString → JsString) (cipher : Cipher)
    (iv plaintext : List ℕ) (aad : Option (List ℕ)) (cryptoKeyName : JsString)
    (encrypted : EncryptResult) (keyRings : List JsString) (moves later : List (Move Request Outside))
    (pool pool' : Pool KeyStore Call Outcome), cipher.Correct → iv.length = ivLength →
    Run ((keyManagement toUpperCase).Step fun _ _ => True) ⟨.start keyRings, [], []⟩ moves pool →
    (∀ version ∈ pool.shared.versions, version.versionNumber < 2 ^ 32) →
    pool.shared.encrypt cipher iv cryptoKeyName plaintext aad = .ok encrypted →
    Run ((keyManagement toUpperCase).Step fun _ _ => True) pool later pool' →
      Decrypts cipher cryptoKeyName encrypted plaintext aad pool'.shared := by
  intro h
  let encrypted : EncryptResult :=
    ⟨[1, 0, 0, 0, 3] ++ sampleIv ++ sampleSealed.2 ++ sampleSealed.1,
      sampleKey ++ js "/cryptoKeyVersions/3/cryptoKeyVersions/1"⟩
  obtain ⟨pool, hrun, htest⟩ : ∃ pool,
      Run ((keyManagement asciiHost.toUpperCase).Step fun _ _ => True) ⟨.start [sampleRing], [], []⟩
        primaryOfOtherKey pool ∧
        (encryptsSample pool encrypted &&
          (pool.shared.versions.all fun version =>
            version.versionNumber < 2 ^ 32 && version.state = .enabled) &&
            !(pool.shared.decrypt sampleCipher sampleKey encrypted.ciphertext none).isOk) = true :=
    Async.exists_run (by decide +kernel)
  simp only [Bool.and_eq_true, List.all_eq_true, decide_eq_true_eq] at htest
  obtain ⟨⟨hencrypts, hversions⟩, hfails⟩ := htest
  have hdecrypts := h _ sampleCipher sampleIv _ none sampleKey _ _ _ [] pool pool sampleCipher_correct
    rfl hrun (fun version hversion => (hversions version hversion).1)
    (encrypt_of_encryptsSample hencrypts) (.refl _)
  obtain ⟨version, hversion⟩ := Option.isSome_iff_exists.1 hdecrypts.present
  obtain ⟨usedPrimary, hdecrypt⟩ := hdecrypts.opened version hversion
    (hversions version (List.mem_of_find?_eq_some hversion)).2
  rw [hdecrypt] at hfails
  exact nomatch hfails

end Kinglet.Kms
