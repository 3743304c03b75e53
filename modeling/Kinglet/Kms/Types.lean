import Kinglet.Js.Text

/-!
# Cloud KMS records

The names, the enumerations and the records of crypto keys and their versions, and the table of the
supported algorithms.
-/

namespace Kinglet.Kms

open Js

/-! ## Enumerations -/

inductive CryptoKeyPurpose
  | encryptDecrypt
  | asymmetricSign
  | asymmetricDecrypt
  | mac
  deriving DecidableEq

def CryptoKeyPurpose.text : CryptoKeyPurpose → JsString
  | .encryptDecrypt => "ENCRYPT_DECRYPT"
  | .asymmetricSign => "ASYMMETRIC_SIGN"
  | .asymmetricDecrypt => "ASYMMETRIC_DECRYPT"
  | .mac => "MAC"

/-- `VALID_PURPOSES`. -/
def validPurposes : List CryptoKeyPurpose :=
  [.encryptDecrypt, .asymmetricSign, .asymmetricDecrypt, .mac]

inductive CryptoKeyVersionState
  | enabled
  | disabled
  | destroyed
  | destroyScheduled
  deriving DecidableEq

def CryptoKeyVersionState.text : CryptoKeyVersionState → JsString
  | .enabled => "ENABLED"
  | .disabled => "DISABLED"
  | .destroyed => "DESTROYED"
  | .destroyScheduled => "DESTROY_SCHEDULED"

/-- `purposeUsesPrimaryVersion(purpose)`. -/
def purposeUsesPrimaryVersion (purpose : CryptoKeyPurpose) : Bool := purpose = .encryptDecrypt

/-- `DEFAULT_ALGORITHM_FOR_PURPOSE`. -/
def defaultAlgorithmForPurpose : CryptoKeyPurpose → JsString
  | .encryptDecrypt => "GOOGLE_SYMMETRIC_ENCRYPTION"
  | .asymmetricSign => "EC_SIGN_P256_SHA256"
  | .asymmetricDecrypt => "RSA_DECRYPT_OAEP_2048_SHA256"
  | .mac => "HMAC_SHA256"

/-! ## Algorithms -/

/-- How the key material of an algorithm is generated. -/
inductive KeyGen
  | symmetric
  | rsa (modulusLength : ℕ)
  | ec (namedCurve : JsString)

structure AlgorithmSpec where
  purpose : CryptoKeyPurpose
  keyGen : KeyGen

/-- `SPECS`, without how the signatures are made. -/
def specs : List (JsString × AlgorithmSpec) :=
  [("GOOGLE_SYMMETRIC_ENCRYPTION", ⟨.encryptDecrypt, .symmetric⟩),
    ("HMAC_SHA256", ⟨.mac, .symmetric⟩),
    ("EC_SIGN_P256_SHA256", ⟨.asymmetricSign, .ec "P-256"⟩),
    ("EC_SIGN_P384_SHA384", ⟨.asymmetricSign, .ec "P-384"⟩),
    ("RSA_SIGN_PKCS1_2048_SHA256", ⟨.asymmetricSign, .rsa 2048⟩),
    ("RSA_SIGN_PKCS1_3072_SHA256", ⟨.asymmetricSign, .rsa 3072⟩),
    ("RSA_SIGN_PKCS1_4096_SHA256", ⟨.asymmetricSign, .rsa 4096⟩),
    ("RSA_SIGN_PSS_2048_SHA256", ⟨.asymmetricSign, .rsa 2048⟩),
    ("RSA_SIGN_PSS_3072_SHA256", ⟨.asymmetricSign, .rsa 3072⟩),
    ("RSA_SIGN_PSS_4096_SHA256", ⟨.asymmetricSign, .rsa 4096⟩),
    ("RSA_DECRYPT_OAEP_2048_SHA256", ⟨.asymmetricDecrypt, .rsa 2048⟩),
    ("RSA_DECRYPT_OAEP_3072_SHA256", ⟨.asymmetricDecrypt, .rsa 3072⟩),
    ("RSA_DECRYPT_OAEP_4096_SHA256", ⟨.asymmetricDecrypt, .rsa 4096⟩)]

/-- `isSupportedAlgorithm(algorithm) && algorithmMatchesPurpose(algorithm, purpose)`. -/
def algorithmMatchesPurpose (algorithm : JsString) (purpose : CryptoKeyPurpose) : Bool :=
  (specs.lookup algorithm).any fun spec => spec.purpose = purpose

/-- What `randomBytes(32)` and the generators of key pairs give. -/
structure Randomness where
  secret : List ℕ
  privateKeyPem : JsString
  publicKeyPem : JsString
  length_secret : secret.length = 32

/-- The key material of a version, which is stored as a JSON text. -/
inductive KeyMaterial
  | secret (bytes : List ℕ)
  | keyPair (privateKeyPem publicKeyPem : JsString)
  deriving DecidableEq

/-- `generateKeyMaterial(algorithm)`, `none` when it throws. -/
def generateKeyMaterial (algorithm : JsString) (random : Randomness) : Option KeyMaterial :=
  (specs.lookup algorithm).map fun spec =>
    match spec.keyGen with
    | .symmetric => .secret random.secret
    | .rsa _ | .ec _ => .keyPair random.privateKeyPem random.publicKeyPem

/-! ## Names -/

def buildKeyRingName (project location keyRing : JsString) : JsString :=
  js "projects/" ++ project ++ js "/locations/" ++ location ++ js "/keyRings/" ++ keyRing

/-- Whether `parseKeyRingName(name)` finds the three parts; else it throws. -/
def parsesAsKeyRing (name : JsString) : Bool :=
  match splitUnit (unit '/') name with
  | [projects, project, locations, location, keyRings, keyRing] =>
      projects = js "projects" && project ≠ [] && locations = js "locations" && location ≠ [] &&
        keyRings = js "keyRings" && keyRing ≠ []
  | _ => false

/-- `buildCryptoKeyName`, with the parts of a key ring's name put together again. -/
def buildCryptoKeyName (keyRingName cryptoKey : JsString) : JsString :=
  keyRingName ++ js "/cryptoKeys/" ++ cryptoKey

def buildCryptoKeyVersionName (cryptoKeyName versionId : JsString) : JsString :=
  cryptoKeyName ++ js "/cryptoKeyVersions/" ++ versionId

/-! ## Records -/

/-- Without labels and rotation. -/
structure CryptoKeyRecord where
  id : ℕ
  name : JsString
  purpose : CryptoKeyPurpose
  protectionLevel : JsString
  algorithm : JsString
  primaryVersion : Option JsString
  deriving DecidableEq

structure CryptoKeyVersionRecord where
  id : ℕ
  name : JsString
  cryptoKeyName : JsString
  versionNumber : ℕ
  state : CryptoKeyVersionState
  protectionLevel : JsString
  algorithm : JsString
  keyMaterial : KeyMaterial
  generateTime : JsString
  destroyTime : Option JsString
  deriving DecidableEq

/-! ## Errors -/

inductive KmsErrorCode
  | notFound
  | alreadyExists
  | invalidArgument
  | failedPrecondition
  deriving DecidableEq

/-- What a call throws: a `KmsError`, or another error. -/
inductive Thrown
  | kms (code : KmsErrorCode) (message : JsString)
  | error (message : JsString)
  deriving DecidableEq

/-! ## Enumerations as clients send them -/

inductive EnumOrInt
  | text (value : JsString)
  | int (value : ℤ)
  deriving DecidableEq

/-- `String(value)`. -/
def intText (value : ℤ) : JsString :=
  if value < 0 then js "-" ++ decimal value.natAbs else decimal value.toNat

/-- `normalizeEnum(() => normalize…(value))` for an enumeration with given numbers and texts: the
value, the text of an unknown one, or the error for an unknown number. -/
def normalizeEnum {α : Type*} (toUpperCase : JsString → JsString) (enumName : JsString)
    (numbers : List (ℤ × α)) (texts : List (JsString × α)) : EnumOrInt → Except Thrown (JsString ⊕ α)
  | .int value =>
      match numbers.lookup value with
      | some known => .ok (.inr known)
      | none => .error (.kms .invalidArgument
          (js "Unsupported " ++ enumName ++ js " enum value: " ++ intText value))
  | .text value =>
      match texts.lookup (toUpperCase value) with
      | some known => .ok (.inr known)
      | none => .ok (.inl (toUpperCase value))

/-- `normalizePurpose(value)`. -/
def normalizePurpose (toUpperCase : JsString → JsString) :
    EnumOrInt → Except Thrown (JsString ⊕ CryptoKeyPurpose) :=
  normalizeEnum toUpperCase "CryptoKeyPurpose"
    [(1, .encryptDecrypt), (5, .asymmetricSign), (6, .asymmetricDecrypt), (9, .mac)]
    (validPurposes.map fun purpose => (purpose.text, purpose))

/-- `normalizeState(value)`. -/
def normalizeState (toUpperCase : JsString → JsString) :
    EnumOrInt → Except Thrown (JsString ⊕ CryptoKeyVersionState) :=
  normalizeEnum toUpperCase "CryptoKeyVersionState"
    [(1, .enabled), (2, .disabled), (3, .destroyed), (4, .destroyScheduled)]
    ([CryptoKeyVersionState.enabled, .disabled, .destroyed, .destroyScheduled].map
      fun state => (state.text, state))

/-- `normalizeProtectionLevel(value)`. -/
def normalizeProtectionLevel (toUpperCase : JsString → JsString) (value : EnumOrInt) :
    Except Thrown JsString :=
  (normalizeEnum toUpperCase "ProtectionLevel"
    [(1, js "SOFTWARE"), (2, js "HSM"), (3, js "EXTERNAL")] [] value).map (Sum.elim id id)

/-- `ALGORITHM_INT_MAP`. -/
def algorithmIntMap : List (ℤ × JsString) :=
  [(1, "GOOGLE_SYMMETRIC_ENCRYPTION"), (2, "RSA_SIGN_PSS_2048_SHA256"),
    (3, "RSA_SIGN_PSS_3072_SHA256"), (4, "RSA_SIGN_PSS_4096_SHA256"),
    (5, "RSA_SIGN_PKCS1_2048_SHA256"), (6, "RSA_SIGN_PKCS1_3072_SHA256"),
    (7, "RSA_SIGN_PKCS1_4096_SHA256"), (8, "RSA_DECRYPT_OAEP_2048_SHA256"),
    (9, "RSA_DECRYPT_OAEP_3072_SHA256"), (10, "RSA_DECRYPT_OAEP_4096_SHA256"),
    (12, "EC_SIGN_P256_SHA256"), (13, "EC_SIGN_P384_SHA384"), (32, "HMAC_SHA256")]

/-- `normalizeAlgorithm(value)`: an unknown number becomes its decimal text. -/
def normalizeAlgorithm (toUpperCase : JsString → JsString) : EnumOrInt → JsString
  | .int value => (algorithmIntMap.lookup value).getD (intText value)
  | .text value => toUpperCase value

end Kinglet.Kms
