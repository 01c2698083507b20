import Mathlib.Data.List.AList
import Delego.Data.Base64
import Delego.Data.CodeUnits
import Delego.Data.Number
import Delego.Data.Text

/-! The primitives of column encryption (`utils/src/encryption/cipher.ts`).

AES, SHA-256 and HMAC are those of the platform. A value sealed under GCM carries the digest of its
context, and opens with that digest only; under CBC it carries no context. -/
namespace Delego.Encryption
open Delego.Data

abbrev Bytes := List UInt8

def GCM_IV_LENGTH : Nat := 12
def GCM_AUTH_TAG_LENGTH : Nat := 16
def CBC_IV_LENGTH : Nat := 16
def KEY_LENGTH : Nat := 32
def ENCRYPTION_ENVELOPE_PREFIX : String := "enc:v1:"

abbrev Key := {bytes : Bytes // bytes.length = KEY_LENGTH}

abbrev Context := List (String × String)

inductive EncryptionAlgorithm where
  | gcm | cbc

/-- What is stored for a value. -/
structure EncryptedField where
  (ciphertext iv authTag : String)
  keyVersion : Nat
  algorithm : EncryptionAlgorithm

/-- AES-256 of texts in UTF-8, by key and initialization vector; what does not open is `none`. -/
structure Aes where
  gcmSeal : Key → Bytes → BitVec 256 → String → Bytes × Bytes
  gcmOpen : Key → Bytes → BitVec 256 → Bytes → Bytes → Option String
  cbcSeal : Key → Bytes → String → Bytes
  cbcOpen : Key → Bytes → Bytes → Option String

/-- What was sealed opens: under GCM with the same key and digest, and with no other. -/
structure Aes.Sound (aes : Aes) : Prop where
  tag_length : ∀ key iv aad text, (aes.gcmSeal key iv aad text).2.length = GCM_AUTH_TAG_LENGTH
  gcm_open : ∀ key key' iv aad aad' text,
    aes.gcmOpen key' iv aad' (aes.gcmSeal key iv aad text).1 (aes.gcmSeal key iv aad text).2 =
      if key' = key ∧ aad' = aad then some text else none
  cbc_open : ∀ key iv text, aes.cbcOpen key iv (aes.cbcSeal key iv text) = some text

structure Crypto where
  aes : Aes
  sha256 : String → BitVec 256
  sha256Key : Key → BitVec 256
  hmac : Key → String → BitVec 256
  /-- HKDF to the length of a key, without salt. -/
  hkdf : BitVec 256 → String → Key

abbrev Random := (size : Nat) → {bytes : Bytes // bytes.length = size}

section
variable (crypto : Crypto)

def serializeContext (context : Context) : String :=
  String.intercalate ";" (sortStrings ((context.filter fun e => decide (e.2 ≠ "")).map fun e => s!"{e.1}={e.2}"))

def contextAad (context : Context) : BitVec 256 := crypto.sha256 (serializeContext context)

def encryptField (plaintext : String) (key : Key) (algorithm : EncryptionAlgorithm) (context : Context) (random : Random) :
    Except String EncryptedField :=
  if plaintext = "" then .error "plaintext must be a non-empty string"
  else match algorithm with
    | .cbc =>
      let iv := (random CBC_IV_LENGTH).1
      let rawCiphertext := toBase64 (crypto.aes.cbcSeal key iv plaintext)
      .ok { ciphertext := ENCRYPTION_ENVELOPE_PREFIX ++ rawCiphertext, iv := toBase64 iv, authTag := ""
            keyVersion := 0, algorithm := .cbc }
    | .gcm =>
      let iv := (random GCM_IV_LENGTH).1
      let (rawCiphertext, authTag) := crypto.aes.gcmSeal key iv (contextAad crypto context) plaintext
      .ok { ciphertext := ENCRYPTION_ENVELOPE_PREFIX ++ toBase64 rawCiphertext, iv := toBase64 iv
            authTag := toBase64 authTag, keyVersion := 0, algorithm := .gcm }

def hasEncryptionEnvelope (ciphertext : String) : Bool := ENCRYPTION_ENVELOPE_PREFIX.toList.isPrefixOf ciphertext.toList

def stripEncryptionEnvelope (ciphertext : String) : String :=
  if hasEncryptionEnvelope ciphertext then String.ofList (ciphertext.toList.drop ENCRYPTION_ENVELOPE_PREFIX.toList.length)
  else ciphertext

def decryptionFailed : String := "Decryption failed: ciphertext or auth tag mismatch"

def decryptField (field : EncryptedField) (key : Key) (context : Context) : Except String String :=
  let rawCiphertext := fromBase64 (stripEncryptionEnvelope field.ciphertext)
  let iv := fromBase64 field.iv
  match field.algorithm with
  | .cbc =>
    if iv.length ≠ CBC_IV_LENGTH then .error "Invalid IV length for AES-256-CBC"
    else match crypto.aes.cbcOpen key iv rawCiphertext with
      | some plaintext => .ok plaintext
      | none => .error decryptionFailed
  | .gcm =>
    let authTag := fromBase64 field.authTag
    if iv.length ≠ GCM_IV_LENGTH then .error s!"Invalid IV length for AES-256-GCM (expected {GCM_IV_LENGTH} bytes)"
    else if authTag.length ≠ GCM_AUTH_TAG_LENGTH then
      .error s!"Invalid auth tag length for AES-256-GCM (expected {GCM_AUTH_TAG_LENGTH} bytes)"
    else match crypto.aes.gcmOpen key iv (contextAad crypto context) rawCiphertext authTag with
      | some plaintext => .ok plaintext
      | none => .error decryptionFailed

/-- The index of a value, for lookups by equality. -/
def blindIndex (value : String) (key : Key) (nameSpace : String) : Except String String :=
  if value = "" then .error "value must be non-empty"
  else if trim nameSpace = "" then .error "namespace must be non-empty"
  else .ok (hex (crypto.hmac key s!"blind:{nameSpace}\x00{value}"))

theorem stripEncryptionEnvelope_prefixed (raw : String) :
    stripEncryptionEnvelope (ENCRYPTION_ENVELOPE_PREFIX ++ raw) = raw := by
  have hprefixed : hasEncryptionEnvelope (ENCRYPTION_ENVELOPE_PREFIX ++ raw) = true := by
    unfold hasEncryptionEnvelope
    rw [String.toList_append, List.isPrefixOf_iff_prefix]
    exact List.prefix_append ..
  unfold stripEncryptionEnvelope
  rw [if_pos hprefixed, String.toList_append, List.drop_left, String.ofList_toList]

variable {plaintext : String} {key : Key} {context : Context}

/-- A field that was sealed: its plaintext is not empty, and it has the algorithm it was asked to have. -/
theorem encryptField_ok {algorithm : EncryptionAlgorithm}
    {random : Random} {field : EncryptedField}
    (h : encryptField crypto plaintext key algorithm context random = .ok field) :
    plaintext ≠ "" ∧ field.algorithm = algorithm := by
  unfold encryptField at h
  by_cases hempty : plaintext = ""
  · simp [hempty] at h
  · rw [if_neg hempty] at h
    cases algorithm with
    | gcm => exact ⟨hempty, by cases h; rfl⟩
    | cbc => exact ⟨hempty, by cases h; rfl⟩

theorem encryptField_some (h : plaintext ≠ "") (key : Key) (algorithm : EncryptionAlgorithm)
    (context : Context) (random : Random) :
    ∃ field, encryptField crypto plaintext key algorithm context random = .ok field := by
  unfold encryptField
  rw [if_neg h]
  cases algorithm with
  | gcm => exact ⟨_, rfl⟩
  | cbc => exact ⟨_, rfl⟩

section
variable {crypto} (haes : crypto.aes.Sound)
include haes

variable {field : EncryptedField} {random : Random}

theorem decryptField_gcm
    (h : encryptField crypto plaintext key .gcm context random = .ok field) (key' : Key) (context' : Context) :
    decryptField crypto field key' context' =
      if key' = key ∧ contextAad crypto context' = contextAad crypto context then .ok plaintext
      else .error decryptionFailed := by
  obtain ⟨hplaintext, -⟩ := encryptField_ok crypto h
  unfold encryptField at h
  rw [if_neg hplaintext] at h
  cases h
  have htag := haes.tag_length key (random GCM_IV_LENGTH).1 (contextAad crypto context) plaintext
  have hiv := (random GCM_IV_LENGTH).2
  have hopen := haes.gcm_open key key' (random GCM_IV_LENGTH).1 (contextAad crypto context) (contextAad crypto context') plaintext
  simp only [decryptField, stripEncryptionEnvelope_prefixed, fromBase64_toBase64, hiv, htag, ne_eq, not_true_eq_false,
    if_false, hopen]
  by_cases hsame : key' = key ∧ contextAad crypto context' = contextAad crypto context
  · simp only [if_pos hsame]
  · simp only [if_neg hsame]

theorem decryptField_cbc
    (h : encryptField crypto plaintext key .cbc context random = .ok field) (context' : Context) :
    decryptField crypto field key context' = .ok plaintext := by
  obtain ⟨hplaintext, -⟩ := encryptField_ok crypto h
  unfold encryptField at h
  rw [if_neg hplaintext] at h
  cases h
  have hiv := (random CBC_IV_LENGTH).2
  simp only [decryptField, stripEncryptionEnvelope_prefixed, fromBase64_toBase64, hiv, ne_eq, not_true_eq_false, if_false,
    haes.cbc_open]

/-- With its key a field opens to its plaintext; under GCM, where the context has the digest of the one bound. -/
theorem decryptField_iff {plaintext plaintext' : String} {algorithm : EncryptionAlgorithm}
    {context context' : Context}
    (h : encryptField crypto plaintext key algorithm context random = .ok field) :
    decryptField crypto field key context' = .ok plaintext' ↔
      (algorithm = .gcm → contextAad crypto context' = contextAad crypto context) ∧ plaintext = plaintext' := by
  cases algorithm with
  | gcm =>
    rw [decryptField_gcm haes h]
    by_cases hsame : contextAad crypto context' = contextAad crypto context <;> simp [hsame]
  | cbc =>
    rw [decryptField_cbc haes h]
    simp

end
end

/-! ### The key providers (`utils/src/encryption/keyProvider.ts`)

A provider gives the data key of each version it knows: derived from a secret, or unwrapped by the service that minted
it. -/

/-- A data key, in the clear and wrapped. -/
structure DataKey where
  key : Key
  wrappedKey : String
  keyVersion : Nat
  keyId : String

abbrev VersionMap (α : Type) := AList fun _ : Nat => α

inductive KeyProviderName where
  | localSecrets | awsKms | vault
  deriving DecidableEq

def requireKeyBytes (value : Bytes) : Except String Key :=
  if h : value.length = KEY_LENGTH then .ok ⟨value, h⟩
  else .error s!"Provider returned an invalid data key (expected {KEY_LENGTH} bytes)"

/-- Keys derived from a secret for each version. -/
structure LocalKeyProvider where
  keyId : String
  masterSecrets : VersionMap String
  active : Nat
  cache : VersionMap DataKey

section
variable (crypto : Crypto)

def deriveLocalDataKey (masterSecret : String) (version : Nat) (keyId : String) : Key :=
  crypto.hkdf (crypto.sha256 masterSecret) s!"delego:pii:{keyId}:v{version}"

def localKeyFingerprint (key : Key) : String := hex (crypto.sha256Key key)

namespace LocalKeyProvider

def assertKnownVersion (p : LocalKeyProvider) (version : Nat) : Except String String :=
  if version < 1 then .error "key version must be >= 1"
  else match p.masterSecrets.lookup version with
    | none => .error s!"Unknown local key version {version} — set ENCRYPTION_MASTER_KEY_V{version}"
    | some secret => .ok secret

def getDataKey (p : LocalKeyProvider) (version : Nat) : Except String DataKey × LocalKeyProvider :=
  match p.assertKnownVersion version with
  | .error message => (.error message, p)
  | .ok secret =>
    match p.cache.lookup version with
    | some dataKey => (.ok dataKey, p)
    | none =>
      let key := deriveLocalDataKey crypto secret version p.keyId
      let dataKey : DataKey :=
        { key, wrappedKey := localKeyFingerprint crypto key, keyVersion := version, keyId := p.keyId }
      (.ok dataKey, { p with cache := p.cache.insert version dataKey })

def generateDataKey (p : LocalKeyProvider) (version : Nat) : Except String DataKey × LocalKeyProvider :=
  if version < 1 then (.error "key version must be >= 1", p)
  else if version ∉ p.masterSecrets then (.error s!"No master secret configured for version {version}", p)
  else p.getDataKey crypto version

def setActiveVersion (p : LocalKeyProvider) (version : Nat) : Except String LocalKeyProvider :=
  if version < 1 then .error "key version must be >= 1"
  else if version ∉ p.masterSecrets then
    .error s!"Cannot promote unknown local key version {version} — set ENCRYPTION_MASTER_KEY_V{version}"
  else .ok { p with active := version }

end LocalKeyProvider
end

/-- The services that mint data keys and wrap them. -/
inductive KeyService where
  | awsKms | vault

namespace KeyService

def noWrappedKey (service : KeyService) (version : Nat) : String :=
  match service with
  | .awsKms => s!"No wrapped data key on record for AWS KMS version {version} — rotate to mint one"
  | .vault => s!"No wrapped data key on record for Vault version {version} — rotate to mint one"

def noPlaintext : KeyService → String
  | .awsKms => "AWS KMS Decrypt returned no plaintext data key"
  | .vault => "Vault transit decrypt returned no plaintext data key"

def incomplete : KeyService → String
  | .awsKms => "AWS KMS GenerateDataKey returned an incomplete payload"
  | .vault => "Vault transit datakey/plaintext returned an incomplete payload"

end KeyService

/-- What a service answers when it is asked for a new key: the key and its wrapped copy, as far as they are there. -/
abbrev Minted := Except String (Option Bytes × Option String)

/-- Keys of a service, in wrapped copies on record; what was unwrapped or minted is remembered. `unwrap` is what the
service answers to a wrapped copy. -/
structure WrappedKeyProvider where
  service : KeyService
  keyId : String
  active : Nat
  unwrap : String → Except String (Option Bytes)
  store : VersionMap String
  cache : VersionMap DataKey
  recorded : ∀ version, version ∈ cache → version ∈ store

namespace WrappedKeyProvider
variable (p : WrappedKeyProvider)

def unwrapKey (version : Nat) : Except String DataKey := do
  let some wrapped := (p.store.lookup version).filter fun wrapped => decide (wrapped ≠ "")
    | throw (p.service.noWrappedKey version)
  let some plaintext ← p.unwrap wrapped | throw p.service.noPlaintext
  let key ← requireKeyBytes plaintext
  return { key, wrappedKey := wrapped, keyVersion := version, keyId := p.keyId }

variable {version : Nat} {dataKey : DataKey}

theorem mem_store_of_unwrapKey (h : p.unwrapKey version = .ok dataKey) :
    version ∈ p.store := by
  unfold unwrapKey at h
  cases hwrapped : p.store.lookup version with
  | none =>
    simp [hwrapped] at h
  | some wrapped => exact AList.lookup_isSome.mp (hwrapped ▸ rfl)

/-- With the key of a version on record in the cache. -/
def remember (version : Nat) (dataKey : DataKey) (h : version ∈ p.store) : WrappedKeyProvider where
  __ := p
  cache := p.cache.insert version dataKey
  recorded := by
    intro other hother
    obtain rfl | hother := AList.mem_insert _ |>.mp hother
    · exact h
    · exact p.recorded other hother

def getDataKey (version : Nat) : Except String DataKey × WrappedKeyProvider :=
  match p.cache.lookup version with
  | some dataKey => (.ok dataKey, p)
  | none =>
    match h : p.unwrapKey version with
    | .error message => (.error message, p)
    | .ok dataKey => (.ok dataKey, p.remember version dataKey (p.mem_store_of_unwrapKey h))

theorem getDataKey_cached (h : p.cache.lookup version = some dataKey) :
    p.getDataKey version = (.ok dataKey, p) := by
  unfold getDataKey
  rw [h]

theorem getDataKey_error {message : String} (hcache : p.cache.lookup version = none)
    (h : p.unwrapKey version = .error message) : p.getDataKey version = (.error message, p) := by
  unfold getDataKey
  rw [hcache]
  simp only
  split <;> simp_all

theorem getDataKey_unwrapped (hcache : p.cache.lookup version = none)
    (h : p.unwrapKey version = .ok dataKey) :
    p.getDataKey version = (.ok dataKey, p.remember version dataKey (p.mem_store_of_unwrapKey h)) := by
  unfold getDataKey
  rw [hcache]
  simp only
  split
  · simp_all
  · rename_i other hother
    obtain rfl := Except.ok.inj (hother.symm.trans h)
    rfl

def mintedKey (version : Nat) (minted : Minted) : Except String DataKey := do
  let (some plaintext, some wrapped) ← minted | throw p.service.incomplete
  let key ← requireKeyBytes plaintext
  return { key, wrappedKey := wrapped, keyVersion := version, keyId := p.keyId }

def generateDataKey (version : Nat) (minted : Minted) : Except String DataKey × WrappedKeyProvider :=
  match p.cache.lookup version with
  | some dataKey => (.ok dataKey, p)
  | none =>
    match p.mintedKey version minted with
    | .error message => (.error message, p)
    | .ok dataKey =>
      let stored : WrappedKeyProvider := { p with
        store := p.store.insert version dataKey.wrappedKey
        recorded := fun other hother => AList.mem_insert _ |>.mpr (.inr (p.recorded other hother)) }
      (.ok dataKey, stored.remember version dataKey (AList.mem_insert _ |>.mpr (.inl rfl)))

def setActiveVersion (version : Nat) : Except String WrappedKeyProvider :=
  if version < 1 then .error "key version must be >= 1" else .ok { p with active := version }

end WrappedKeyProvider

inductive KeyProvider where
  | ofSecrets (p : LocalKeyProvider)
  | ofService (p : WrappedKeyProvider)

namespace KeyProvider

def name : KeyProvider → KeyProviderName
  | .ofSecrets _ => .localSecrets
  | .ofService p => match p.service with
    | .awsKms => .awsKms
    | .vault => .vault

def activeVersion : KeyProvider → Nat
  | .ofSecrets p => p.active
  | .ofService p => p.active

def listVersions : KeyProvider → List Nat
  | .ofSecrets p => p.masterSecrets.keys.insertionSort (· ≤ ·)
  | .ofService p => p.store.keys.insertionSort (· ≤ ·)

def setActiveVersion (p : KeyProvider) (version : Nat) : Except String KeyProvider :=
  match p with
  | .ofSecrets p => (p.setActiveVersion version).map .ofSecrets
  | .ofService p => (p.setActiveVersion version).map .ofService

section
variable (crypto : Crypto)

def getDataKey (p : KeyProvider) (version : Nat) : Except String DataKey × KeyProvider :=
  match p with
  | .ofSecrets p => (p.getDataKey crypto version).map id .ofSecrets
  | .ofService p => (p.getDataKey version).map id .ofService

def generateDataKey (p : KeyProvider) (version : Nat) (minted : Minted) : Except String DataKey × KeyProvider :=
  match p with
  | .ofSecrets p => (p.generateDataKey crypto version).map id .ofSecrets
  | .ofService p => (p.generateDataKey version minted).map id .ofService

def keyOf (p : KeyProvider) (version : Nat) : Option Key :=
  match (p.getDataKey crypto version).1 with
  | .ok dataKey => some dataKey.key
  | .error _ => none

theorem keyOf_ofSecrets (p : LocalKeyProvider) (version : Nat) :
    (ofSecrets p).keyOf crypto version = match p.assertKnownVersion version, p.cache.lookup version with
      | .error _, _ => none
      | .ok _, some dataKey => some dataKey.key
      | .ok secret, none => some (deriveLocalDataKey crypto secret version p.keyId) := by
  simp only [keyOf, getDataKey, LocalKeyProvider.getDataKey]
  cases p.assertKnownVersion version with
  | error message => rfl
  | ok secret => cases p.cache.lookup version <;> rfl

theorem keyOf_ofService (p : WrappedKeyProvider) (version : Nat) :
    (ofService p).keyOf crypto version = match p.cache.lookup version, p.unwrapKey version with
      | some dataKey, _ => some dataKey.key
      | none, .ok dataKey => some dataKey.key
      | none, .error _ => none := by
  simp only [keyOf, getDataKey]
  cases hcache : p.cache.lookup version with
  | some dataKey => rw [p.getDataKey_cached hcache]; rfl
  | none =>
    cases hkey : p.unwrapKey version with
    | error message => rw [p.getDataKey_error hcache hkey]; rfl
    | ok dataKey => rw [p.getDataKey_unwrapped hcache hkey]; rfl

variable {version : Nat}

theorem keyOf_remember {p : WrappedKeyProvider} (dataKey : DataKey) (h : version ∈ p.store) (other : Nat) :
    (ofService (p.remember version dataKey h)).keyOf crypto other =
      if other = version then some dataKey.key else (ofService p).keyOf crypto other := by
  rw [keyOf_ofService, keyOf_ofService]
  unfold WrappedKeyProvider.remember
  by_cases hother : other = version
  · subst hother
    simp only [AList.lookup_insert, if_true]
  · simp only [AList.lookup_insert_ne hother, if_neg hother]
    rfl

variable {p : KeyProvider}

theorem keyOf_of_getDataKey {dataKey : DataKey}
    (h : (p.getDataKey crypto version).1 = .ok dataKey) : p.keyOf crypto version = some dataKey.key := by
  unfold keyOf
  rw [h]

theorem getDataKey_of_keyOf (h : p.keyOf crypto version = some key) :
    ∃ dataKey, (p.getDataKey crypto version).1 = .ok dataKey ∧ dataKey.key = key := by
  unfold keyOf at h
  cases hkey : (p.getDataKey crypto version).1 with
  | error message =>
    simp [hkey] at h
  | ok dataKey =>
    rw [hkey] at h
    exact ⟨dataKey, rfl, Option.some.inj h⟩

/-- The keys of all versions, and which are known and active, are as they were. -/
structure Same (p p' : KeyProvider) : Prop where
  keys : ∀ version, p'.keyOf crypto version = p.keyOf crypto version
  versions : p'.listVersions = p.listVersions
  active : p'.activeVersion = p.activeVersion
  name : p'.name = p.name

variable {crypto} in
theorem Same.refl (p : KeyProvider) : Same crypto p p := ⟨fun _ => rfl, rfl, rfl, rfl⟩

variable {crypto} in
theorem Same.trans {p p' p'' : KeyProvider} (h : Same crypto p p') (h' : Same crypto p' p'') : Same crypto p p'' :=
  ⟨fun version => (h'.keys version).trans (h.keys version), h'.versions.trans h.versions, h'.active.trans h.active,
    h'.name.trans h.name⟩

theorem getDataKey_same (p : KeyProvider) (version : Nat) : Same crypto p (p.getDataKey crypto version).2 := by
  cases p with
  | ofSecrets p =>
    simp only [getDataKey, LocalKeyProvider.getDataKey]
    cases hsecret : p.assertKnownVersion version with
    | error message => exact .refl _
    | ok secret =>
      cases hcache : p.cache.lookup version with
      | some dataKey => exact .refl _
      | none =>
        refine ⟨fun other => ?_, rfl, rfl, rfl⟩
        have hassert : ∀ cache, LocalKeyProvider.assertKnownVersion { p with cache } other = p.assertKnownVersion other :=
          fun _ => rfl
        simp only [Prod.map, keyOf_ofSecrets, hassert]
        by_cases hother : other = version
        · subst hother
          rw [AList.lookup_insert, hcache, hsecret]
        · rw [AList.lookup_insert_ne hother]
  | ofService p =>
    simp only [getDataKey]
    cases hcache : p.cache.lookup version with
    | some dataKey =>
      rw [p.getDataKey_cached hcache]
      exact .refl _
    | none =>
      cases hkey : p.unwrapKey version with
      | error message =>
        rw [p.getDataKey_error hcache hkey]
        exact .refl _
      | ok dataKey =>
        rw [p.getDataKey_unwrapped hcache hkey]
        have hkeyOf : (ofService p).keyOf crypto version = some dataKey.key := by rw [keyOf_ofService, hcache, hkey]
        refine ⟨fun other => ?_, rfl, rfl, rfl⟩
        show (ofService (p.remember version dataKey _)).keyOf crypto other = _
        rw [keyOf_remember]
        by_cases hother : other = version
        · rw [if_pos hother, hother, hkeyOf]
        · rw [if_neg hother]

theorem getDataKey_cases (p : KeyProvider) (version : Nat) : ∃ p', Same crypto p p' ∧
    ((∃ dataKey, p.getDataKey crypto version = (.ok dataKey, p') ∧ p.keyOf crypto version = some dataKey.key) ∨
      ∃ message, p.getDataKey crypto version = (.error message, p') ∧ p.keyOf crypto version = none) := by
  refine ⟨_, p.getDataKey_same crypto version, ?_⟩
  unfold keyOf
  rcases p.getDataKey crypto version with ⟨message | dataKey, p'⟩
  · exact .inr ⟨message, rfl, rfl⟩
  · exact .inl ⟨dataKey, rfl, rfl⟩

/-- What it is to have a key under a version from now on. -/
structure Generated (p p' : KeyProvider) (version : Nat) (key : Key) : Prop where
  key : p'.keyOf crypto version = some key
  others : ∀ other, other ≠ version → p'.keyOf crypto other = p.keyOf crypto other
  versions : ∀ other, other ∈ p'.listVersions ↔ other = version ∨ other ∈ p.listVersions
  active : p'.activeVersion = p.activeVersion
  name : p'.name = p.name

theorem mem_listVersions_ofSecrets {p : LocalKeyProvider} :
    version ∈ (ofSecrets p).listVersions ↔ version ∈ p.masterSecrets := by
  unfold listVersions
  rw [List.mem_insertionSort, AList.mem_keys]

theorem mem_listVersions_ofService {p : WrappedKeyProvider} :
    version ∈ (ofService p).listVersions ↔ version ∈ p.store := by
  unfold listVersions
  rw [List.mem_insertionSort, AList.mem_keys]

theorem Same.generated {p p' : KeyProvider} (h : Same crypto p p')
    (hver : version ∈ p.listVersions) (hkey : p.keyOf crypto version = some key) : Generated crypto p p' version key where
  key := (h.keys version).trans hkey
  others other _ := h.keys other
  versions other := by
    rw [h.versions]
    exact ⟨.inr, fun hother => hother.elim (fun heq => heq ▸ hver) id⟩
  active := h.active
  name := h.name

theorem generateDataKey_ok {minted : Minted} {dataKey : DataKey}
    (h : (p.generateDataKey crypto version minted).1 = .ok dataKey) :
    Generated crypto p (p.generateDataKey crypto version minted).2 version dataKey.key := by
  cases p with
  | ofSecrets p =>
    simp only [generateDataKey, LocalKeyProvider.generateDataKey] at h ⊢
    by_cases hfirst : version < 1
    · simp [hfirst] at h
    · by_cases hknown : version ∈ p.masterSecrets
      · simp only [hfirst, hknown, not_true_eq_false, if_false] at h ⊢
        have hkey := keyOf_of_getDataKey crypto (p := ofSecrets p) h
        exact (getDataKey_same crypto (ofSecrets p) version).generated crypto (mem_listVersions_ofSecrets.mpr hknown) hkey
      · simp [hfirst, hknown] at h
  | ofService p =>
    simp only [generateDataKey, WrappedKeyProvider.generateDataKey] at h ⊢
    cases hcache : p.cache.lookup version with
    | some cached =>
      simp only [hcache, Prod.map, id] at h ⊢
      cases h
      have hstore := p.recorded version (AList.lookup_isSome.mp (hcache ▸ rfl))
      refine (Same.refl (ofService p)).generated crypto (mem_listVersions_ofService.mpr hstore) ?_
      rw [keyOf_ofService, hcache]
    | none =>
      cases hminted : p.mintedKey version minted with
      | error message => simp [hcache, hminted] at h
      | ok key =>
        simp only [hcache, hminted, Prod.map, id] at h ⊢
        cases h
        refine ⟨?_, fun other hother => ?_, fun other => ?_, rfl, rfl⟩
        · rw [keyOf_remember, if_pos rfl]
        · rw [keyOf_remember, if_neg hother, keyOf_ofService, keyOf_ofService]
          simp only [WrappedKeyProvider.unwrapKey, AList.lookup_insert_ne hother]
        · rw [mem_listVersions_ofService, mem_listVersions_ofService]
          exact AList.mem_insert _

theorem generateDataKey_error {minted : Minted} {message : String}
    (h : (p.generateDataKey crypto version minted).1 = .error message) :
    Same crypto p (p.generateDataKey crypto version minted).2 := by
  cases p with
  | ofSecrets p =>
    simp only [generateDataKey, LocalKeyProvider.generateDataKey]
    split
    · exact .refl _
    · split
      · exact .refl _
      · exact getDataKey_same crypto (ofSecrets p) version
  | ofService p =>
    simp only [generateDataKey, WrappedKeyProvider.generateDataKey] at h ⊢
    cases hcache : p.cache.lookup version with
    | some cached => exact .refl _
    | none =>
      cases hminted : p.mintedKey version minted with
      | error message => exact .refl _
      | ok key => simp [hcache, hminted] at h

theorem setActiveVersion_ok {p p' : KeyProvider} (h : p.setActiveVersion version = .ok p') :
    (∀ other, p'.keyOf crypto other = p.keyOf crypto other) ∧ p'.listVersions = p.listVersions ∧
      p'.activeVersion = version ∧ p'.name = p.name := by
  cases p with
  | ofSecrets p =>
    simp only [setActiveVersion, LocalKeyProvider.setActiveVersion] at h
    split at h
    · cases h
    · split at h
      · cases h
      · cases h
        refine ⟨fun other => ?_, rfl, rfl, rfl⟩
        rw [keyOf_ofSecrets, keyOf_ofSecrets]
        rfl
  | ofService p =>
    simp only [setActiveVersion, WrappedKeyProvider.setActiveVersion] at h
    split at h
    · cases h
    · cases h
      refine ⟨fun other => ?_, rfl, rfl, rfl⟩
      rw [keyOf_ofService, keyOf_ofService]
      rfl

end
end KeyProvider

end Delego.Encryption
