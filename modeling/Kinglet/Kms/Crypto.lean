import Kinglet.Js.Words
import Kinglet.Kms.KeyManagement
import Kinglet.Library.Outcome
import Kinglet.Library.Rounding

/-!
# Encryption with a crypto key

`encrypt` seals with the primary version of a key and puts the number of the version in front;
`decrypt` reads the number back and opens with the version of that number. AES-256-GCM is the
platform's: a pair of functions that are inverse to each other.
-/

namespace Kinglet.Kms

open Js Library

/-! ## The cipher -/

/-- AES-256-GCM on bytes: a ciphertext with its tag, and what they open to. -/
structure Cipher where
  encipher : (key iv aad plaintext : List ℕ) → List ℕ × List ℕ
  decipher : (key iv aad ciphertext tag : List ℕ) → Option (List ℕ)

def ivLength : ℕ := 12

def gcmTagLength : ℕ := 16

structure Cipher.Correct (cipher : Cipher) : Prop where
  length_tag : ∀ key iv aad plaintext, key.length = 32 → iv.length = ivLength →
    (cipher.encipher key iv aad plaintext).2.length = gcmTagLength
  decipher_encipher : ∀ key iv aad plaintext, key.length = 32 → iv.length = ivLength →
    cipher.decipher key iv aad (cipher.encipher key iv aad plaintext).1
      (cipher.encipher key iv aad plaintext).2 = some plaintext

/-! ## The envelope -/

def writeUInt32BE (n : ℕ) : List ℕ := [n / 2 ^ 24 % 256, n / 2 ^ 16 % 256, n / 2 ^ 8 % 256, n % 256]

/-- `buf.readUInt32BE(0)`. -/
def readUInt32BE (bytes : List ℕ) : ℕ := (bytes.take 4).foldl (fun n byte => 256 * n + byte) 0

def envelopeFormatVersion : ℕ := 1

/-- `CryptoEngineError`, which the service turns into an `INVALID_ARGUMENT`. -/
def cryptoEngineError (message : JsString) : Thrown := .kms .invalidArgument message

/-- `secretBytes(keyMaterial)`. -/
def secretBytes : KeyMaterial → Except Thrown (List ℕ)
  | .secret (byte :: bytes) => .ok (byte :: bytes)
  | .secret [] | .keyPair _ _ => .error (cryptoEngineError "Key version has no symmetric secret")

/-- `symmetricEncrypt`, with the random bytes of the initialisation vector. -/
def symmetricEncrypt (cipher : Cipher) (iv : List ℕ) (keyMaterial : KeyMaterial) (versionId : ℕ)
    (plaintext : List ℕ) (aad : Option (List ℕ)) : Except Thrown (List ℕ) := do
  let key ← secretBytes keyMaterial
  let (ciphertext, tag) := cipher.encipher key iv (aad.getD []) plaintext
  pure (envelopeFormatVersion :: writeUInt32BE versionId ++ iv ++ tag ++ ciphertext)

/-- What an envelope must look like to be read. -/
def checkEnvelope (envelope : List ℕ) : Except Thrown Unit :=
  if envelope.length < 5 + ivLength + gcmTagLength then
    .error (cryptoEngineError "Ciphertext is too short to be a valid envelope")
  else if envelope.head? ≠ some envelopeFormatVersion then
    .error (cryptoEngineError "Unrecognized ciphertext envelope format")
  else .ok ()

def readEnvelopeVersionId (envelope : List ℕ) : Except Thrown ℕ := do
  checkEnvelope envelope
  pure (readUInt32BE (envelope.drop 1))

def symmetricDecrypt (cipher : Cipher) (keyMaterial : KeyMaterial) (envelope : List ℕ)
    (aad : Option (List ℕ)) : Except Thrown (List ℕ) := do
  checkEnvelope envelope
  let iv := (envelope.drop 5).take ivLength
  let tag := (envelope.drop (5 + ivLength)).take gcmTagLength
  let ciphertext := envelope.drop (5 + ivLength + gcmTagLength)
  let key ← secretBytes keyMaterial
  match cipher.decipher key iv (aad.getD []) ciphertext tag with
  | some plaintext => pure plaintext
  | none => throw (cryptoEngineError
      "Decryption failed: ciphertext is corrupt or AAD does not match")

/-! ## The service -/

/-- `Number.parseInt(text, 10) >>> 0`. -/
def parseUint32 (text : JsString) : ℕ :=
  let (negative, rest) :=
    match trimStart text with
    | 45 :: rest => (true, rest)
    | 43 :: rest => (false, rest)
    | rest => (false, rest)
  let value := ⌊double (digitsValue (rest.takeWhile isDigit))⌋
  ((if negative then -value else value) % 2 ^ 32).toNat

structure EncryptResult where
  ciphertext : List ℕ
  keyVersionName : JsString
  deriving DecidableEq

structure DecryptResult where
  plaintext : List ℕ
  usedPrimary : Bool
  deriving DecidableEq

namespace KeyStore

variable (store : KeyStore) (cipher : Cipher)

/-- `requireKey(name)`, and the purpose that both calls ask for. -/
def requireEncryptionKey (cryptoKeyName verb : JsString) : Except Thrown CryptoKeyRecord :=
  match store.getCryptoKeyByName cryptoKeyName with
  | none => .error (cryptoKeyNotFound cryptoKeyName)
  | some key =>
      if key.purpose = .encryptDecrypt then .ok key
      else .error (.kms .invalidArgument (js "CryptoKey " ++ cryptoKeyName ++ js " (purpose " ++
        key.purpose.text ++ js ") cannot " ++ verb))

def encrypt (iv : List ℕ) (cryptoKeyName : JsString) (plaintext : List ℕ)
    (aad : Option (List ℕ)) : Except Thrown EncryptResult := do
  let key ← store.requireEncryptionKey cryptoKeyName "encrypt"
  match key.primaryVersion with
  | none | some [] => throw (.kms .failedPrecondition
      (js "CryptoKey " ++ cryptoKeyName ++ js " has no primary version"))
  | some primaryVersion =>
      match store.getVersionByName (buildCryptoKeyVersionName key.name primaryVersion) with
      | none => throw (.kms .failedPrecondition
          (js "Primary version of " ++ cryptoKeyName ++ js " is not ENABLED"))
      | some primary =>
          if primary.state = .enabled then
            let ciphertext ← symmetricEncrypt cipher iv primary.keyMaterial
              (parseUint32 primaryVersion) plaintext aad
            pure ⟨ciphertext, primary.name⟩
          else throw (.kms .failedPrecondition
            (js "Primary version of " ++ cryptoKeyName ++ js " is not ENABLED"))

def decrypt (cryptoKeyName : JsString) (ciphertext : List ℕ) (aad : Option (List ℕ)) :
    Except Thrown DecryptResult := do
  let key ← store.requireEncryptionKey cryptoKeyName "decrypt"
  let versionId ← readEnvelopeVersionId ciphertext
  match store.getVersionByName (buildCryptoKeyVersionName cryptoKeyName (decimal versionId)) with
  | none => throw (.kms .invalidArgument "Ciphertext references a key version that does not exist")
  | some version =>
      if version.state = .enabled then
        let plaintext ← symmetricDecrypt cipher version.keyMaterial ciphertext aad
        pure ⟨plaintext, decide (some (decimal versionId) = key.primaryVersion)⟩
      else throw (.kms .failedPrecondition
        (js "Key version " ++ version.name ++ js " is not ENABLED"))

end KeyStore

/-! ## Round trips -/

theorem readUInt32BE_writeUInt32BE {n : ℕ} (h : n < 2 ^ 32) (rest : List ℕ) :
    readUInt32BE (writeUInt32BE n ++ rest) = n := by
  simp only [readUInt32BE, writeUInt32BE, List.cons_append, List.take_succ_cons, List.take_zero,
    List.foldl_cons, List.foldl_nil]
  omega

theorem parseUint32_decimal {n : ℕ} (h : n < 2 ^ 32) : parseUint32 (decimal n) = n := by
  have hvalue : (⌊double (digitsValue (decimal n) : ℕ)⌋ % 2 ^ 32).toNat = n := by
    have hlt : n < 2 ^ 53 := by omega
    rw [digitsValue_decimal, double_natCast hlt, Int.floor_natCast]
    omega
  have hdigits : ∀ u ∈ decimal n, isDigit u := fun u hu => isDigit_of_mem_decimal hu
  have htake : (decimal n).takeWhile isDigit = decimal n := List.takeWhile_eq_self_iff.2 hdigits
  have hstart : trimStart (decimal n) = decimal n := by
    cases htext : decimal n with
    | nil => rfl
    | cons u rest =>
        have hdigit := hdigits u (htext ▸ List.mem_cons_self)
        exact List.dropWhile_cons_of_neg (by simp [isSpace_of_isDigit hdigit])
  have hminus : ∀ rest, decimal n ≠ 45 :: rest := fun rest hrest =>
    absurd (hdigits 45 (hrest ▸ List.mem_cons_self)) (by decide)
  have hplus : ∀ rest, decimal n ≠ 43 :: rest := fun rest hrest =>
    absurd (hdigits 43 (hrest ▸ List.mem_cons_self)) (by decide)
  unfold parseUint32
  rw [hstart]
  split
  · rename_i hmatch
    split at hmatch
    · exact absurd ‹_› (hminus _)
    · exact absurd ‹_› (hplus _)
    · obtain ⟨rfl, rfl⟩ := Prod.mk.inj hmatch
      rw [htake]
      exact hvalue

variable {cipher : Cipher} {iv plaintext : List ℕ} {keyMaterial : KeyMaterial} {versionId : ℕ}
  {aad : Option (List ℕ)} {envelope : List ℕ}

/-- Keys for AES-256 have 32 bytes. -/
def KeyMaterial.Sized (keyMaterial : KeyMaterial) : Prop :=
  ∀ bytes, keyMaterial = .secret bytes → bytes.length = 32

/-- What was sealed under a number is opened with the same material, and says the number. -/
theorem decrypt_symmetricEncrypt (hcorrect : cipher.Correct) (hiv : iv.length = ivLength)
    (hsized : keyMaterial.Sized) (hversion : versionId < 2 ^ 32)
    (h : symmetricEncrypt cipher iv keyMaterial versionId plaintext aad = .ok envelope) :
    readEnvelopeVersionId envelope = .ok versionId ∧
      symmetricDecrypt cipher keyMaterial envelope aad = .ok plaintext := by
  obtain ⟨key, hkey, h⟩ := bind_eq_ok.1 h
  have hlength : key.length = 32 := by
    cases keyMaterial with
    | keyPair privateKeyPem publicKeyPem => cases hkey
    | secret bytes =>
        cases bytes with
        | nil => cases hkey
        | cons byte bytes =>
            obtain rfl := Except.ok.inj hkey
            exact hsized _ rfl
  have htag := hcorrect.length_tag key iv (aad.getD []) plaintext hlength hiv
  have hopens := hcorrect.decipher_encipher key iv (aad.getD []) plaintext hlength hiv
  generalize cipher.encipher key iv (aad.getD []) plaintext = sealed at h htag hopens
  obtain ⟨ciphertext, tag⟩ := sealed
  obtain rfl := Except.ok.inj h
  simp only at htag hopens
  have hdrop : (envelopeFormatVersion :: writeUInt32BE versionId ++ iv ++ tag ++ ciphertext).drop 5 =
      iv ++ (tag ++ ciphertext) := by
    simp [writeUInt32BE]
  have hcheck : checkEnvelope
      (envelopeFormatVersion :: writeUInt32BE versionId ++ iv ++ tag ++ ciphertext) = .ok () := by
    have hlong : ¬(envelopeFormatVersion :: writeUInt32BE versionId ++ iv ++ tag ++ ciphertext).length <
        5 + ivLength + gcmTagLength := by
      simp [writeUInt32BE, hiv, htag]
      omega
    rw [checkEnvelope, if_neg hlong]
    simp
  refine ⟨bind_eq_ok.2 ⟨(), hcheck, ?_⟩, bind_eq_ok.2 ⟨(), hcheck, bind_eq_ok.2 ⟨key, hkey, ?_⟩⟩⟩
  · have hread := readUInt32BE_writeUInt32BE hversion (iv ++ (tag ++ ciphertext))
    simpa [pure, Except.pure, List.append_assoc] using hread
  · rw [← List.drop_drop, ← List.drop_drop, hdrop, ← hiv, List.take_left,
      List.drop_left, ← htag, List.take_left, List.drop_left, hopens]
    rfl

variable {store : KeyStore} {cryptoKeyName : JsString} {encrypted : EncryptResult}

theorem requireEncryptionKey_eq_ok {verb : JsString} {key : CryptoKeyRecord} :
    store.requireEncryptionKey cryptoKeyName verb = .ok key ↔
      store.getCryptoKeyByName cryptoKeyName = some key ∧ key.purpose = .encryptDecrypt := by
  unfold KeyStore.requireEncryptionKey
  split
  · rename_i hnone
    simp [hnone]
  · rename_i found hfound
    rw [hfound]
    split
    · rename_i hpurpose
      constructor
      · rintro ⟨⟩
        exact ⟨rfl, hpurpose⟩
      · rintro ⟨hsome, -⟩
        rw [Option.some.inj hsome]
    · rename_i hpurpose
      constructor
      · exact nofun
      · rintro ⟨hsome, hkey⟩
        exact absurd (Option.some.inj hsome ▸ hkey) hpurpose

/-- A successful `encrypt` sealed with an enabled version, the primary one. -/
theorem encrypt_eq_ok (h : store.encrypt cipher iv cryptoKeyName plaintext aad = .ok encrypted) :
    ∃ key primaryVersion primary, store.getCryptoKeyByName cryptoKeyName = some key ∧
      key.purpose = .encryptDecrypt ∧ key.primaryVersion = some primaryVersion ∧
      store.getVersionByName (buildCryptoKeyVersionName key.name primaryVersion) = some primary ∧
      primary.state = .enabled ∧ primary.name = encrypted.keyVersionName ∧
      symmetricEncrypt cipher iv primary.keyMaterial (parseUint32 primaryVersion) plaintext aad =
        .ok encrypted.ciphertext := by
  obtain ⟨key, hkey, h⟩ := bind_eq_ok.1 h
  obtain ⟨hkey, hpurpose⟩ := requireEncryptionKey_eq_ok.1 hkey
  split at h
  · cases h
  · cases h
  · rename_i primaryVersion _ hprimary
    split at h
    · cases h
    · rename_i primary hversion
      split at h
      · rename_i hstate
        obtain ⟨ciphertext, hciphertext, h⟩ := bind_eq_ok.1 h
        obtain rfl := Except.ok.inj h
        exact ⟨key, primaryVersion, primary, hkey, hpurpose, hprimary, hversion, hstate, rfl,
          hciphertext⟩
      · cases h

end Kinglet.Kms
