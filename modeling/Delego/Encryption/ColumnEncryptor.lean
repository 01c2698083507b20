import Delego.Encryption.KeyProvider

/-! The column encryptor (`utils/src/encryption/columnEncryptor.ts`).

A value is sealed with the data key of the version it is written under. -/
namespace Delego.Encryption
open Delego.Data

inductive FieldAccessRole where
  | admin | support | compliance | service | owner | system
  deriving DecidableEq

def FieldAccessRole.text : FieldAccessRole → String
  | .admin => "admin"
  | .support => "support"
  | .compliance => "compliance"
  | .service => "service"
  | .owner => "owner"
  | .system => "system"

structure PiiColumn where
  indexed : Bool
  decryptRoles : List FieldAccessRole

structure EncryptOptions where
  context : Option Context
  keyVersion : Option Nat

def EncryptOptions.boundContext (options : EncryptOptions) : Context := options.context.getD []

/-- A field as it is stored, with its index where the column has one. -/
structure StoredField where
  field : EncryptedField
  blindIndex : Option String

/-- The algorithm of the configuration, and the registry of columns. -/
structure ColumnEncryptor where
  algorithm : EncryptionAlgorithm
  lookup : String → String → Option PiiColumn

def notRegistered (table column : String) : String :=
  s!"{table}.{column} is not a registered PII column (see pii-registry.ts) — refusing to encrypt"

def denial (entry : Option PiiColumn) (role : FieldAccessRole) : Option String :=
  match entry with
  | none => some "not a registered PII column — fail closed (see pii-registry.ts)"
  | some entry =>
    if entry.decryptRoles = [] then some "column grants decryption to no roles (system-only)"
    else if role ∈ entry.decryptRoles then none
    else
      let roles := String.intercalate ", " (entry.decryptRoles.map (·.text))
      some s!"role '{role.text}' is not in allowed decrypt roles [{roles}]"

section
variable (crypto : Crypto)

def openField (p : KeyProvider) (field : EncryptedField) (context : Context) : Except String String × KeyProvider :=
  match p.getDataKey crypto field.keyVersion with
  | (.error message, p) => (.error message, p)
  | (.ok dataKey, p) => (decryptField crypto field dataKey.key context, p)

namespace ColumnEncryptor
variable (encryptor : ColumnEncryptor)

/-- The field, and its index, with a key at hand. -/
def encryptWith (piiColumn : PiiColumn) (table column plaintext : String) (context : Context) (version : Nat) (key : Key)
    (random : Random) : Except String StoredField := do
  let field ← encryptField crypto plaintext key encryptor.algorithm context random
  let field := { field with keyVersion := version }
  if piiColumn.indexed then
    let index ← blindIndex crypto plaintext key s!"{table}.{column}"
    return { field, blindIndex := some index }
  else return { field, blindIndex := none }

def encrypt (p : KeyProvider) (table column plaintext : String) (options : EncryptOptions) (random : Random) :
    Except String StoredField × KeyProvider :=
  match encryptor.lookup table column with
  | none => (.error (notRegistered table column), p)
  | some piiColumn =>
    let version := options.keyVersion.getD p.activeVersion
    match p.getDataKey crypto version with
    | (.error message, p) => (.error message, p)
    | (.ok dataKey, p) =>
      (encryptor.encryptWith crypto piiColumn table column plaintext options.boundContext version dataKey.key random, p)

def decrypt (p : KeyProvider) (table column : String) (field : EncryptedField) (context : Context) (role : FieldAccessRole) :
    Except String String × KeyProvider :=
  match denial (encryptor.lookup table column) role with
  | some reason => (.error s!"Access denied decrypting {table}.{column} for role '{role.text}': {reason}", p)
  | none => openField crypto p field context

def computeIndex (p : KeyProvider) (table column value : String) : Except String String × KeyProvider :=
  match p.getDataKey crypto p.activeVersion with
  | (.error message, p) => (.error message, p)
  | (.ok dataKey, p) => (blindIndex crypto value dataKey.key s!"{table}.{column}", p)

variable {crypto encryptor}
  {p : KeyProvider}

theorem encrypt_ok {table column plaintext : String} {options : EncryptOptions} {random : Random} {stored : StoredField}
    (h : (encryptor.encrypt crypto p table column plaintext options random).1 = .ok stored) :
    ∃ piiColumn key field, encryptor.lookup table column = some piiColumn ∧
      p.keyOf crypto (options.keyVersion.getD p.activeVersion) = some key ∧
      encryptField crypto plaintext key encryptor.algorithm options.boundContext random = .ok field ∧
      stored.field = { field with keyVersion := options.keyVersion.getD p.activeVersion } ∧
      (piiColumn.indexed = true → ∃ index, blindIndex crypto plaintext key s!"{table}.{column}" = .ok index ∧
        stored.blindIndex = some index) := by
  unfold encrypt at h
  cases hcolumn : encryptor.lookup table column with
  | none => simp [hcolumn] at h
  | some piiColumn =>
    simp only [hcolumn] at h
    cases hkey : p.getDataKey crypto (options.keyVersion.getD p.activeVersion) with
    | mk answer p' =>
      cases answer with
      | error message => simp [hkey] at h
      | ok dataKey =>
        simp only [hkey, encryptWith] at h
        have hkeyOf := KeyProvider.keyOf_of_getDataKey crypto (congrArg Prod.fst hkey)
        cases hfield : encryptField crypto plaintext dataKey.key encryptor.algorithm options.boundContext random with
        | error message => simp [hfield, bind, Except.bind] at h
        | ok field =>
          simp only [hfield, bind, Except.bind] at h
          refine ⟨piiColumn, dataKey.key, field, rfl, hkeyOf, hfield, ?_⟩
          by_cases hidx : piiColumn.indexed = true
          · rw [if_pos hidx] at h
            cases hindex : blindIndex crypto plaintext dataKey.key s!"{table}.{column}" with
            | error message => simp [hindex] at h
            | ok index =>
              simp only [hindex, pure, Except.pure] at h
              cases h
              exact ⟨rfl, fun _ => ⟨index, rfl, rfl⟩⟩
          · rw [if_neg hidx] at h
            cases h
            exact ⟨rfl, fun htrue => absurd htrue hidx⟩

variable (crypto encryptor) in
theorem encrypt_same (p : KeyProvider) (table column plaintext : String) (options : EncryptOptions) (random : Random) :
    KeyProvider.Same crypto p (encryptor.encrypt crypto p table column plaintext options random).2 := by
  have heq := p.getDataKey_same crypto (options.keyVersion.getD p.activeVersion)
  unfold encrypt
  cases encryptor.lookup table column with
  | none => exact .refl _
  | some piiColumn =>
    cases hkey : p.getDataKey crypto (options.keyVersion.getD p.activeVersion) with
    | mk answer p' =>
      rw [hkey] at heq
      cases answer <;> simpa [hkey] using heq

theorem openField_iff {field : EncryptedField} {context : Context} {plaintext : String} :
    (openField crypto p field context).1 = .ok plaintext ↔
      ∃ key, p.keyOf crypto field.keyVersion = some key ∧ decryptField crypto field key context = .ok plaintext := by
  unfold openField KeyProvider.keyOf
  cases hkey : p.getDataKey crypto field.keyVersion with
  | mk answer p' => cases answer <;> simp

theorem computeIndex_of_keyOf {key : Key} (h : p.keyOf crypto p.activeVersion = some key) (table column value : String) :
    (computeIndex crypto p table column value).1 = blindIndex crypto value key s!"{table}.{column}" := by
  obtain ⟨dataKey, hdataKey, rfl⟩ := KeyProvider.getDataKey_of_keyOf crypto h
  unfold computeIndex
  cases hkey : p.getDataKey crypto p.activeVersion with
  | mk answer p' =>
    rw [hkey] at hdataKey
    cases hdataKey
    rfl

end ColumnEncryptor
end

/-! ### Key rotation (`utils/src/encryption/rotation.ts`)

A rotation mints the next version and makes it the active one. A sweep reads every value, opens it with
the key of its version and seals it again with the key of the last version that the provider knows; what
it binds and what it opens with is the context that the sweep passes on, which is empty. -/

inductive KeyVersionStatus where
  | active | previous | retired
  deriving DecidableEq

structure EncryptionKeyVersionRow where
  keyId : String
  version : Nat
  keyProvider : KeyProviderName
  wrappedKey : String
  status : KeyVersionStatus

def updateStatus (keyId : String) (version : Nat) (status : KeyVersionStatus) :
    List EncryptionKeyVersionRow → List EncryptionKeyVersionRow
  | [] => []
  | row :: rows =>
    if row.keyId = keyId ∧ row.version = version then { row with status } :: rows
    else row :: updateStatus keyId version status rows

/-- A value to sweep: what reading it gives, whether it is written, and the bytes drawn to seal it again. -/
structure ReEncryptTarget where
  read : Except String (Option (EncryptedField × Option Context))
  write : Except String Unit
  random : Random

structure ReEncryptResult where
  (scanned rotated skipped : Nat)

/-- What a sweep has written, target by target, and what it returns. -/
structure Sweep where
  written : List (Option EncryptedField)
  result : Except String ReEncryptResult

structure KeyRotationManager where
  keyProvider : KeyProvider
  versionStore : List EncryptionKeyVersionRow
  keyId : String
  rotationInProgress : Bool

section
variable (crypto : Crypto)

/-- The plaintext sealed again, under another key. -/
def dualEncryptField (field : EncryptedField) (oldKey newKey : Key) (algorithm : EncryptionAlgorithm) (context : Context)
    (targetVersion : Nat) (random : Random) : Except String EncryptedField :=
  let reEncrypted := do
    let plaintext ← decryptField crypto field oldKey context
    let reEncrypted ← encryptField crypto plaintext newKey algorithm context random
    return { reEncrypted with keyVersion := targetVersion }
  reEncrypted.mapError fun message => s!"dualEncryptField failed (v{field.keyVersion} → v{targetVersion}): {message}"

namespace KeyRotationManager
variable (m : KeyRotationManager)

def listVersions : List EncryptionKeyVersionRow :=
  (m.versionStore.filter fun row => decide (row.keyId = m.keyId)).insertionSort fun a b => a.version ≤ b.version

def currentVersion : Nat := (m.listVersions.map (·.version)).max?.getD 1

/-- The highest version that the provider knows. -/
def latestProviderVersion : Nat := m.keyProvider.listVersions.max?.getD 1

def recordVersion (version : Nat) (dataKey : DataKey) : KeyRotationManager :=
  { m with versionStore := m.versionStore ++
      [⟨m.keyId, version, m.keyProvider.name, dataKey.wrappedKey, .active⟩] }

def beginRotation (minted : Minted) : Except String Nat × KeyRotationManager :=
  if m.rotationInProgress then (.error "A key rotation is already in progress", m)
  else
    let nextVersion := m.currentVersion + 1
    match m.keyProvider.generateDataKey crypto nextVersion minted with
    | (.error message, keyProvider) => (.error message, { m with keyProvider })
    | (.ok dataKey, keyProvider) =>
      let recorded := { m with keyProvider }.recordVersion nextVersion dataKey
      match keyProvider.setActiveVersion nextVersion with
      | .error message => (.error message, recorded)
      | .ok keyProvider =>
        let versionStore := recorded.listVersions.foldl (fun rows row =>
          if row.version < nextVersion ∧ row.status ≠ .previous then updateStatus m.keyId row.version .previous rows
          else rows) recorded.versionStore
        (.ok nextVersion, { recorded with keyProvider, versionStore, rotationInProgress := true })

def reEncryptValue (target : ReEncryptTarget) (context : Context) :
    Except String (Option EncryptedField) × KeyRotationManager :=
  let active := m.latestProviderVersion
  match target.read with
  | .error message => (.error message, m)
  | .ok none => (.ok none, m)
  | .ok (some (field, _)) =>
    if field.keyVersion = active then (.ok none, m)
    else match m.keyProvider.getDataKey crypto field.keyVersion with
      | (.error message, keyProvider) => (.error message, { m with keyProvider })
      | (.ok oldDataKey, keyProvider) =>
        match keyProvider.getDataKey crypto active with
        | (.error message, keyProvider) => (.error message, { m with keyProvider })
        | (.ok newDataKey, keyProvider) =>
          let algorithm := if m.keyProvider.name = .localSecrets then .gcm else field.algorithm
          let written := do
            let reEncrypted ←
              dualEncryptField crypto field oldDataKey.key newDataKey.key algorithm context active target.random
            target.write
            return some reEncrypted
          (written, { m with keyProvider })

@[simp] def reEncryptFrom (result : ReEncryptResult) : List ReEncryptTarget → KeyRotationManager → Sweep × KeyRotationManager
  | [], m => (⟨[], .ok result⟩, m)
  | target :: targets, m =>
    let result := { result with scanned := result.scanned + 1 }
    match m.reEncryptValue crypto target [] with
    | (.error message, m) => (⟨none :: targets.map fun _ => none, .error message⟩, m)
    | (.ok written, m) =>
      let result := if written.isSome then { result with rotated := result.rotated + 1 }
        else { result with skipped := result.skipped + 1 }
      let (sweep, m) := reEncryptFrom result targets m
      (⟨written :: sweep.written, sweep.result⟩, m)

def reEncryptAll (targets : List ReEncryptTarget) : Sweep × KeyRotationManager := reEncryptFrom crypto ⟨0, 0, 0⟩ targets m

/-- `remaining` is the count that the caller's check gives. -/
def completeRotation (remaining : Except String Nat) : Except String Unit × KeyRotationManager :=
  match remaining with
  | .error message => (.error message, m)
  | .ok remaining =>
    if 0 < remaining then
      (.error s!"Cannot complete rotation: {remaining} value(s) still reference a previous key version — re-encrypt first", m)
    else
      let active := m.currentVersion
      let versionStore := m.listVersions.foldl (fun rows row =>
        if row.version ≠ active then updateStatus m.keyId row.version .retired rows else rows) m.versionStore
      (.ok (), { m with versionStore, rotationInProgress := false })

end KeyRotationManager
end

end Delego.Encryption
