import Delego.Encryption.ColumnEncryptor

/-! What a rotation keeps of the values.

A sweep opens and seals with the empty context, so it moves a value that GCM binds only where the context has the digest
of the empty one, and it moves to the last version that the provider knows, which is the active one where none is later. -/
namespace Delego.Encryption
open Delego.Data List Option

/-- A value as it was encrypted, with the bytes drawn when it is swept. -/
structure Row where
  encryptor : ColumnEncryptor
  (table column plaintext : String)
  options : EncryptOptions
  random : Random
  stored : StoredField
  redraw : Random

namespace Row

def context (row : Row) : Context := row.options.boundContext

def target (row : Row) : ReEncryptTarget where
  read := .ok (some (row.stored.field, row.options.context))
  write := .ok ()
  random := row.redraw

def after (row : Row) (written : Option EncryptedField) : EncryptedField := written.getD row.stored.field

end Row

section
variable (crypto : Crypto)

def Row.Written (p : KeyProvider) (row : Row) : Prop :=
  (row.encryptor.encrypt crypto p row.table row.column row.plaintext row.options row.random).1 = .ok row.stored

/-- The value is stored under the active version, and opens with its own context to its plaintext. -/
def Row.Readable (p : KeyProvider) (row : Row) (written : Option EncryptedField) : Prop :=
  (row.after written).keyVersion = p.activeVersion ∧
    (openField crypto p (row.after written) row.context).1 = .ok row.plaintext

/-- The sweep ends, every value is readable after it, and each one scanned was rotated or skipped. -/
def Preserved (m : KeyRotationManager) (rows : List Row) : Prop :=
  let (sweep, m') := m.reEncryptAll crypto (rows.map Row.target)
  ∃ result, sweep.result = .ok result ∧ result.scanned = result.rotated + result.skipped ∧
    List.Forall₂ (fun row written => row.Readable crypto m'.keyProvider written) rows sweep.written

def KeyProvider.nextKey (p : KeyProvider) (version : Nat) (minted : Minted) : Option Key :=
  match (p.generateDataKey crypto version minted).1 with
  | .ok dataKey => some dataKey.key
  | .error _ => none

/-- A value of the next version opens with the key that this then has; any other has a context whose digest is that
of the empty one, or none, before and after. -/
def Row.Survives (p : KeyProvider) (next : Nat) (minted : Minted) (row : Row) : Prop :=
  if row.stored.field.keyVersion = next then
    ∃ key, p.nextKey crypto next minted = some key ∧ decryptField crypto row.stored.field key row.context = .ok row.plaintext
  else contextAad crypto row.context = contextAad crypto [] ∨ row.stored.field.algorithm = .cbc ∧ p.name ≠ .localSecrets

def Moves (p : KeyProvider) (active : Nat) (target : ReEncryptTarget) (context : Context)
    (written : Option EncryptedField) : Prop :=
  match target.read with
  | .error _ => False
  | .ok none => written = none
  | .ok (some (field, _)) =>
    if field.keyVersion = active then written = none
    else ∃ oldKey newKey reEncrypted, p.keyOf crypto field.keyVersion = some oldKey ∧ p.keyOf crypto active = some newKey ∧
      dualEncryptField crypto field oldKey newKey (if p.name = .localSecrets then .gcm else field.algorithm) context active
        target.random = .ok reEncrypted ∧ target.write = .ok () ∧ written = some reEncrypted

variable {crypto}
  {p p' : KeyProvider}

theorem Moves.of_same (h : KeyProvider.Same crypto p p') (active : Nat) (target : ReEncryptTarget)
    (context : Context) (written : Option EncryptedField) :
    Moves crypto p' active target context written ↔ Moves crypto p active target context written := by
  unfold Moves
  simp only [h.keys, h.name]

theorem reEncryptValue_same (crypto : Crypto) (m : KeyRotationManager) (target : ReEncryptTarget) (context : Context) :
    KeyProvider.Same crypto m.keyProvider (m.reEncryptValue crypto target context).2.keyProvider := by
  unfold KeyRotationManager.reEncryptValue
  match target.read with
  | .error _ => exact .refl _
  | .ok none => exact .refl _
  | .ok (some (field, _)) =>
    simp only
    by_cases hact : field.keyVersion = m.latestProviderVersion
    · rw [if_pos hact]
      exact .refl _
    · rw [if_neg hact]
      obtain ⟨p, hold, ⟨oldDataKey, hread, -⟩ | ⟨message, hread, -⟩⟩ :=
        m.keyProvider.getDataKey_cases crypto field.keyVersion
      · obtain ⟨p', hnew, ⟨newDataKey, hact, -⟩ | ⟨message, hact, -⟩⟩ :=
          p.getDataKey_cases crypto m.latestProviderVersion
        · simpa only [hread, hact] using hold.trans hnew
        · simpa only [hread, hact] using hold.trans hnew
      · simpa only [hread] using hold

theorem reEncryptValue_iff (crypto : Crypto) (m : KeyRotationManager) (target : ReEncryptTarget) (context : Context)
    (written : Option EncryptedField) : (m.reEncryptValue crypto target context).1 = .ok written ↔
      Moves crypto m.keyProvider m.latestProviderVersion target context written := by
  unfold KeyRotationManager.reEncryptValue Moves
  match target.read with
  | .error _ => simp
  | .ok none => simp [eq_comm]
  | .ok (some (field, _)) =>
    simp only
    by_cases hact : field.keyVersion = m.latestProviderVersion
    · simp [hact, eq_comm]
    · rw [if_neg hact, if_neg hact]
      obtain ⟨p, hold, ⟨oldDataKey, hread, hkey⟩ | ⟨message, hread, hkey⟩⟩ :=
        m.keyProvider.getDataKey_cases crypto field.keyVersion
      · obtain ⟨p', -, ⟨newDataKey, hread', hkey'⟩ | ⟨message, hread', hkey'⟩⟩ :=
          p.getDataKey_cases crypto m.latestProviderVersion
        · rw [hold.keys] at hkey'
          simp only [hread, hread', hkey, hkey', some.injEq, exists_eq_left', exists_and_left]
          cases dualEncryptField crypto field oldDataKey.key newDataKey.key _ context m.latestProviderVersion target.random with
          | error message => simp [bind, Except.bind]
          | ok reEncrypted => cases target.write <;> simp [bind, Except.bind, pure, Except.pure, eq_comm]
        · rw [hold.keys] at hkey'
          simp [hread, hread', hkey, hkey']
      · simp [hread, hkey]

def KeyProvider.latest (p : KeyProvider) : Nat := p.listVersions.max?.getD 1

theorem reEncryptFrom_same (crypto : Crypto) (targets : List ReEncryptTarget) (result : ReEncryptResult) (m : KeyRotationManager) :
    KeyProvider.Same crypto m.keyProvider (m.reEncryptFrom crypto result targets).2.keyProvider := by
  induction targets generalizing result m with
  | nil => exact .refl _
  | cons target targets ih =>
    have hvalue := reEncryptValue_same crypto m target []
    unfold KeyRotationManager.reEncryptFrom
    cases hmoved : m.reEncryptValue crypto target [] with
    | mk answer m' =>
      rw [hmoved] at hvalue
      cases answer with
      | error message => exact hvalue
      | ok written => exact hvalue.trans (ih _ m')

theorem reEncryptFrom_iff {p : KeyProvider} (targets : List ReEncryptTarget) (result : ReEncryptResult)
    (m : KeyRotationManager) (hp : KeyProvider.Same crypto p m.keyProvider) (written : List (Option EncryptedField)) :
    ((∃ total, (m.reEncryptFrom crypto result targets).1.result = .ok total) ∧
        (m.reEncryptFrom crypto result targets).1.written = written) ↔
      List.Forall₂ (fun target => Moves crypto p p.latest target []) targets written := by
  induction targets generalizing result m written with
  | nil => simp [KeyRotationManager.reEncryptFrom, eq_comm]
  | cons target targets ih =>
    have hlat : m.latestProviderVersion = p.latest := by
      unfold KeyRotationManager.latestProviderVersion KeyProvider.latest
      rw [hp.versions]
    have hvalue := reEncryptValue_same crypto m target []
    have hiff := reEncryptValue_iff crypto m target []
    rw [hlat] at hiff
    simp only [Moves.of_same hp] at hiff
    unfold KeyRotationManager.reEncryptFrom
    cases hmoved : m.reEncryptValue crypto target [] with
    | mk answer m' =>
      rw [hmoved] at hvalue hiff
      cases answer with
      | error message =>
        constructor
        · rintro ⟨⟨total, htotal⟩, -⟩
          cases htotal
        · intro hmoves
          cases hmoves with
          | cons hfirst _ => exact absurd ((hiff _).mpr hfirst) (by simp)
      | ok first =>
        have hfirst : ∀ written, Moves crypto p p.latest target [] written ↔ written = first := by
          intro written
          rw [← hiff written]
          simp [eq_comm]
        cases written with
        | nil => simp
        | cons other written =>
          simp only [forall₂_cons, hfirst, cons.injEq, eq_comm (a := first)]
          rw [and_left_comm]
          exact and_congr_right fun _ => ih _ m' (hp.trans hvalue) written

theorem reEncryptFrom_counts {targets : List ReEncryptTarget} {result total : ReEncryptResult} {m : KeyRotationManager}
    (h : (m.reEncryptFrom crypto result targets).1.result = .ok total)
    (hres : result.scanned = result.rotated + result.skipped) : total.scanned = total.rotated + total.skipped := by
  induction targets generalizing result m with
  | nil =>
    cases h
    exact hres
  | cons target targets ih =>
    unfold KeyRotationManager.reEncryptFrom at h
    cases hmoved : m.reEncryptValue crypto target [] with
    | mk answer m' =>
      rw [hmoved] at h
      cases answer with
      | error message => cases h
      | ok written =>
        refine ih h ?_
        cases written with
        | none =>
          show result.scanned + 1 = result.rotated + (result.skipped + 1)
          omega
        | some field =>
          show result.scanned + 1 = result.rotated + 1 + result.skipped
          omega

/-! ### The rotation -/

variable (crypto) in
/-- What the provider is once a rotation has begun. -/
structure Begun (p p' : KeyProvider) (next : Nat) (minted : Minted) : Prop where
  key : ∃ key, p.nextKey crypto next minted = some key ∧ p'.keyOf crypto next = some key
  others : ∀ version, version ≠ next → p'.keyOf crypto version = p.keyOf crypto version
  versions : ∀ version, version ∈ p'.listVersions ↔ version = next ∨ version ∈ p.listVersions
  active : p'.activeVersion = next
  name : p'.name = p.name

variable {next : Nat}

theorem beginRotation_ok {m m' : KeyRotationManager} {minted : Minted}
    (h : m.beginRotation crypto minted = (.ok next, m')) : Begun crypto m.keyProvider m'.keyProvider next minted := by
  unfold KeyRotationManager.beginRotation at h
  by_cases hprogress : m.rotationInProgress = true
  · simp [hprogress] at h
  · rw [if_neg hprogress] at h
    cases hgenerate : m.keyProvider.generateDataKey crypto (m.currentVersion + 1) minted with
    | mk answer p =>
      cases answer with
      | error message => simp [hgenerate] at h
      | ok dataKey =>
        have hgenerated := KeyProvider.generateDataKey_ok crypto (congrArg Prod.fst hgenerate)
        cases hact : p.setActiveVersion (m.currentVersion + 1) with
        | error message => simp [hgenerate, hact] at h
        | ok p' =>
          simp only [hgenerate, hact, Prod.mk.injEq, Except.ok.injEq] at h
          obtain ⟨rfl, rfl⟩ := h
          obtain ⟨hkeys, hversions, hver, hname⟩ := KeyProvider.setActiveVersion_ok crypto hact
          rw [hgenerate] at hgenerated
          have hnext : m.keyProvider.nextKey crypto (m.currentVersion + 1) minted = some dataKey.key := by
            unfold KeyProvider.nextKey
            rw [hgenerate]
          exact {
            key := ⟨dataKey.key, hnext, (hkeys _).trans hgenerated.key⟩
            others := fun version hother => (hkeys version).trans (hgenerated.others version hother)
            versions := fun version => by
              show version ∈ p'.listVersions ↔ _
              rw [hversions]
              exact hgenerated.versions version
            active := hver
            name := hname.trans hgenerated.name }

theorem Begun.latest_iff {minted : Minted} (h : Begun crypto p p' next minted) :
    p'.latest = next ↔ ∀ version ∈ p.listVersions, version ≤ next := by
  have hnext := (h.versions next).mpr (.inl rfl)
  unfold KeyProvider.latest
  cases hmax : p'.listVersions.max? with
  | none =>
    simp [max?_eq_none_iff.mp hmax] at hnext
  | some latest =>
    obtain ⟨hmem, hbound⟩ := max?_eq_some_iff.mp hmax
    constructor
    · intro hlat version hver
      exact (hbound version ((h.versions version).mpr (.inr hver))).trans_eq hlat
    · intro hall
      rcases (h.versions latest).mp hmem with heq | hknown
      · exact heq
      · exact Nat.le_antisymm (hall latest hknown) (hbound next hnext)

theorem Row.Written.seal {p : KeyProvider} {row : Row} (h : row.Written crypto p) : ∃ key field,
    p.keyOf crypto row.stored.field.keyVersion = some key ∧
      encryptField crypto row.plaintext key row.stored.field.algorithm row.context row.random = .ok field ∧
      row.stored.field = { field with keyVersion := row.stored.field.keyVersion } := by
  obtain ⟨_, key, field, -, hkey, hfield, hstore, -⟩ := ColumnEncryptor.encrypt_ok h
  have halgorithm := (encryptField_ok crypto hfield).2
  refine ⟨key, field, ?_, ?_, ?_⟩
  · rw [hstore]
    exact hkey
  · rw [hstore]
    show encryptField crypto row.plaintext key field.algorithm row.options.boundContext row.random = .ok field
    rw [halgorithm]
    exact hfield
  · rw [hstore]

theorem readable_moved {p' : KeyProvider} {row : Row} {newKey : Key} {reEncrypted : EncryptedField}
    (hact : p'.activeVersion = next) (hver : reEncrypted.keyVersion = next) (hkey : p'.keyOf crypto next = some newKey) :
    row.Readable crypto p' (some reEncrypted) ↔ decryptField crypto reEncrypted newKey row.context = .ok row.plaintext := by
  unfold Row.Readable Row.after
  rw [ColumnEncryptor.openField_iff]
  simp only [getD_some, hver, hact, hkey, some.injEq, exists_eq_left', true_and]

variable {algorithm : EncryptionAlgorithm} {context : Context}

theorem dualEncryptField_ok {field reEncrypted : EncryptedField} {oldKey newKey : Key}
    {random : Random} :
    dualEncryptField crypto field oldKey newKey algorithm context next random = .ok reEncrypted ↔
      ∃ plaintext again, decryptField crypto field oldKey context = .ok plaintext ∧
        encryptField crypto plaintext newKey algorithm context random = .ok again ∧
        reEncrypted = { again with keyVersion := next } := by
  unfold dualEncryptField
  cases decryptField crypto field oldKey context with
  | error message => simp [bind, Except.bind, Except.mapError]
  | ok plaintext =>
    cases hagain : encryptField crypto plaintext newKey algorithm context random with
    | error message => simp [bind, Except.bind, Except.mapError, hagain]
    | ok again => simp [bind, Except.bind, pure, Except.pure, Except.mapError, hagain, eq_comm]

theorem dualEncryptField_version {field reEncrypted : EncryptedField} {oldKey newKey : Key}
    {random : Random}
    (h : dualEncryptField crypto field oldKey newKey algorithm context next random = .ok reEncrypted) :
    reEncrypted.keyVersion = next := by
  obtain ⟨_, again, -, -, rfl⟩ := dualEncryptField_ok.mp h
  rfl

section
variable (haes : crypto.aes.Sound)
include haes

/-- A value that is moved opens again where neither of its seals binds another context than the sweep's. -/
theorem moved_iff {plaintext : String} {key : Key} {random : Random}
    {field sealed : EncryptedField} {version : Nat} (newKey : Key) (algorithm' : EncryptionAlgorithm) (next : Nat)
    (redraw : Random) (h : encryptField crypto plaintext key algorithm context random = .ok sealed)
    (hfield : field = { sealed with keyVersion := version }) :
    (∃ reEncrypted, dualEncryptField crypto field key newKey algorithm' [] next redraw = .ok reEncrypted ∧
        decryptField crypto reEncrypted newKey context = .ok plaintext) ↔
      (algorithm = .gcm ∨ algorithm' = .gcm → contextAad crypto context = contextAad crypto []) := by
  have hopen : ∀ plaintext', decryptField crypto field key [] = .ok plaintext' ↔
      (algorithm = .gcm → contextAad crypto [] = contextAad crypto context) ∧ plaintext = plaintext' := by
    intro plaintext'
    rw [hfield]
    show decryptField crypto sealed key [] = .ok plaintext' ↔ _
    exact decryptField_iff haes h
  obtain ⟨again, hagain⟩ := encryptField_some crypto (encryptField_ok crypto h).1 newKey algorithm' [] redraw
  have hreopen : decryptField crypto { again with keyVersion := next } newKey context = .ok plaintext ↔
      (algorithm' = .gcm → contextAad crypto context = contextAad crypto []) := by
    refine (decryptField_iff haes hagain).trans ?_
    rw [and_iff_left rfl]
  simp only [dualEncryptField_ok, hopen]
  constructor
  · rintro ⟨_, ⟨_, again', ⟨hbound, rfl⟩, hsealed, rfl⟩, hback⟩
    obtain rfl := Except.ok.inj (hagain.symm.trans hsealed)
    rintro (hgcm | hgcm)
    · exact (hbound hgcm).symm
    · exact hreopen.mp hback hgcm
  · intro hcontext
    exact ⟨_, ⟨plaintext, again, ⟨fun hgcm => (hcontext (.inl hgcm)).symm, rfl⟩, hagain, rfl⟩,
      hreopen.mpr fun hgcm => hcontext (.inr hgcm)⟩

theorem Row.survives_iff {p p' : KeyProvider} {next : Nat} {minted : Minted} {row : Row}
    (hbegun : Begun crypto p p' next minted) (hrow : row.Written crypto p) :
    (∃ written, Moves crypto p' next row.target [] written ∧ row.Readable crypto p' written) ↔
      row.Survives crypto p next minted := by
  obtain ⟨key, field, hkey, hfield, hstore⟩ := hrow.seal
  obtain ⟨newKey, hnext, hnewKey⟩ := hbegun.key
  unfold Row.Survives Moves
  simp only [Row.target]
  by_cases hver : row.stored.field.keyVersion = next
  · simp only [hver, if_true, exists_eq_left]
    unfold Row.Readable Row.after
    rw [ColumnEncryptor.openField_iff]
    simp only [getD_none, hver, hbegun.active, hnewKey, hnext, some.injEq, exists_eq_left', true_and]
  · simp only [hver, if_false, hbegun.others _ hver, hkey, hnewKey, some.injEq, exists_eq_left', exists_and_left,
      true_and, hbegun.name]
    have hcontext : (row.stored.field.algorithm = .gcm ∨
          (if p.name = .localSecrets then EncryptionAlgorithm.gcm else row.stored.field.algorithm) = .gcm →
          contextAad crypto row.context = contextAad crypto []) ↔
        contextAad crypto row.context = contextAad crypto [] ∨ row.stored.field.algorithm = .cbc ∧ p.name ≠ .localSecrets := by
      by_cases hlocal : p.name = .localSecrets
      · simp [hlocal]
      · cases row.stored.field.algorithm <;> simp [hlocal]
    rw [← hcontext, ← moved_iff haes newKey _ next row.redraw hfield hstore]
    constructor
    · rintro ⟨_, ⟨reEncrypted, hmoved, rfl⟩, hread⟩
      exact ⟨reEncrypted, hmoved, (readable_moved hbegun.active (dualEncryptField_version hmoved) hnewKey).mp hread⟩
    · rintro ⟨reEncrypted, hmoved, hread⟩
      exact ⟨_, ⟨reEncrypted, hmoved, rfl⟩,
        (readable_moved hbegun.active (dualEncryptField_version hmoved) hnewKey).mpr hread⟩

end

theorem exists_forall₂ {α β : Type} {R : α → β → Prop} {l : List α} :
    (∃ l', List.Forall₂ R l l') ↔ ∀ a ∈ l, ∃ b, R a b := by
  induction l with
  | nil => simp
  | cons a l ih =>
    rw [forall_mem_cons, ← ih]
    constructor
    · rintro ⟨_, hall⟩
      cases hall with
      | cons hfirst hrest => exact ⟨⟨_, hfirst⟩, _, hrest⟩
    · rintro ⟨⟨b, hfirst⟩, l', hrest⟩
      exact ⟨b :: l', .cons hfirst hrest⟩

theorem forall₂_both {α β : Type} {R S : α → β → Prop} {l : List α} {l' : List β} :
    List.Forall₂ (fun a b => R a b ∧ S a b) l l' ↔ List.Forall₂ R l l' ∧ List.Forall₂ S l l' := by
  induction l generalizing l' with
  | nil => cases l' <;> simp
  | cons a l ih => cases l' <;> simp [ih, and_assoc, and_left_comm]

theorem Moves.version {p : KeyProvider} {active : Nat} {row : Row} {written : Option EncryptedField}
    (h : Moves crypto p active row.target [] written) : (row.after written).keyVersion = active := by
  unfold Moves Row.target at h
  by_cases hver : row.stored.field.keyVersion = active
  · simp only [hver, if_true] at h
    rw [h]
    exact hver
  · simp only [hver, if_false] at h
    obtain ⟨_, _, reEncrypted, -, -, hmoved, -, rfl⟩ := h
    exact dualEncryptField_version hmoved

theorem Row.Readable.of_same (h : KeyProvider.Same crypto p p') (row : Row)
    (written : Option EncryptedField) : row.Readable crypto p' written ↔ row.Readable crypto p written := by
  unfold Row.Readable
  simp only [ColumnEncryptor.openField_iff, h.keys, h.active]

theorem preserved_iff_moves {m : KeyRotationManager} {rows : List Row} : Preserved crypto m rows ↔
    ∀ row ∈ rows, ∃ written, Moves crypto m.keyProvider m.keyProvider.latest row.target [] written ∧
      row.Readable crypto m.keyProvider written := by
  have hsame := reEncryptFrom_same crypto (rows.map Row.target) ⟨0, 0, 0⟩ m
  have hrefl : KeyProvider.Same crypto m.keyProvider m.keyProvider := .refl _
  have hiff := reEncryptFrom_iff (rows.map Row.target) ⟨0, 0, 0⟩ m hrefl
  unfold Preserved KeyRotationManager.reEncryptAll
  simp only [Row.Readable.of_same hsame]
  rw [← exists_forall₂]
  simp only [forall₂_map_left_iff] at hiff
  simp only [forall₂_both, ← hiff]
  constructor
  · rintro ⟨total, htotal, -, hreadable⟩
    exact ⟨_, ⟨⟨total, htotal⟩, rfl⟩, hreadable⟩
  · rintro ⟨_, ⟨⟨total, htotal⟩, rfl⟩, hreadable⟩
    exact ⟨total, htotal, reEncryptFrom_counts htotal rfl, hreadable⟩

/-- **A rotation preserves every value** where there is none, or where no version known is later than the next one and
every value survives. -/
theorem preserves_iff (haes : crypto.aes.Sound) {m m' : KeyRotationManager} {minted : Minted} {next : Nat} {rows : List Row}
    (hbegin : m.beginRotation crypto minted = (.ok next, m')) (hrows : ∀ row ∈ rows, row.Written crypto m.keyProvider) :
    Preserved crypto m' rows ↔ rows = [] ∨ (∀ version ∈ m.keyProvider.listVersions, version ≤ next) ∧
        ∀ row ∈ rows, row.Survives crypto m.keyProvider next minted := by
  have hbegun := beginRotation_ok hbegin
  rw [preserved_iff_moves, ← hbegun.latest_iff]
  by_cases hlat : m'.keyProvider.latest = next
  · have hsurvive : ∀ row ∈ rows, ((∃ written, Moves crypto m'.keyProvider m'.keyProvider.latest row.target [] written ∧
        row.Readable crypto m'.keyProvider written) ↔ row.Survives crypto m.keyProvider next minted) := by
      intro row hrow
      rw [hlat]
      exact Row.survives_iff haes hbegun (hrows row hrow)
    rw [and_iff_right hlat]
    constructor
    · intro hmoves
      exact .inr fun row hrow => (hsurvive row hrow).mp (hmoves row hrow)
    · rintro (rfl | hall) row hrow
      · cases hrow
      · exact (hsurvive row hrow).mpr (hall row hrow)
  · constructor
    · intro hmoves
      cases rows with
      | nil => exact .inl rfl
      | cons row rows =>
        obtain ⟨written, hmoved, hver, -⟩ := hmoves row mem_cons_self
        exact absurd (hmoved.version.symm.trans (hver.trans hbegun.active)) hlat
    · rintro (rfl | ⟨hlast, -⟩) row hrow
      · cases hrow
      · exact absurd hlast hlat

end

def textBytes (text : String) : Bytes := text.toByteArray.data.toList

/-- A cipher that keeps the key and the digest in front of the text, in the clear. -/
def plainAes : Aes where
  gcmSeal key _ aad text := (key.1 ++ (replicate aad.toNat 0 ++ 1 :: textBytes text), replicate GCM_AUTH_TAG_LENGTH 0)
  gcmOpen key _ aad sealed _ :=
    if sealed.take KEY_LENGTH = key.1 ∧ ((sealed.drop KEY_LENGTH).takeWhile (· == 0)).length = aad.toNat then
      String.fromUTF8? ⟨(sealed.drop (KEY_LENGTH + (aad.toNat + 1))).toArray⟩
    else none
  cbcSeal _ _ text := textBytes text
  cbcOpen _ _ sealed := String.fromUTF8? ⟨sealed.toArray⟩

theorem fromUTF8_textBytes (text : String) : String.fromUTF8? ⟨(textBytes text).toArray⟩ = some text := by
  have hbytes : (⟨(textBytes text).toArray⟩ : ByteArray) = text.toByteArray := by simp [textBytes]
  rw [hbytes, String.fromUTF8?, dif_pos text.isValidUTF8]
  rfl

theorem plainAes_sound : plainAes.Sound where
  tag_length key iv aad text := length_replicate
  cbc_open key iv text := fromUTF8_textBytes text
  gcm_open key key' iv aad aad' text := by
    have hkey : ∀ rest, (key.1 ++ rest).take KEY_LENGTH = key.1 := fun rest => take_left' key.2
    have hrest : ∀ rest, (key.1 ++ rest).drop KEY_LENGTH = rest := fun rest => drop_left' key.2
    have hzeros : (replicate aad.toNat 0 ++ 1 :: textBytes text).takeWhile (· == 0) = replicate aad.toNat 0 := by
      rw [takeWhile_append_of_pos (by simp), takeWhile_cons_of_neg (by simp), append_nil]
    have htext : (replicate aad.toNat 0 ++ 1 :: textBytes text).drop (aad.toNat + 1) = textBytes text := by
      rw [← drop_drop, drop_left' length_replicate]
      rfl
    have htail : ∀ n rest, (key.1 ++ rest).drop (KEY_LENGTH + n) = rest.drop n := by
      intro n rest
      rw [← drop_drop, hrest]
    simp only [plainAes, hkey, hrest, htail, hzeros, length_replicate]
    by_cases hsame : key' = key ∧ aad' = aad
    · obtain ⟨rfl, rfl⟩ := hsame
      rw [if_pos ⟨rfl, rfl⟩, if_pos ⟨rfl, rfl⟩, htext]
      exact fromUTF8_textBytes text
    · rw [if_neg hsame, if_neg]
      rintro ⟨hbytes, hdigest⟩
      exact hsame ⟨Subtype.ext hbytes.symm, BitVec.eq_of_toNat_eq hdigest.symm⟩

def samplePlatform : Crypto where
  aes := plainAes
  sha256 text := if text = "" then 0 else 1
  sha256Key _ := 0
  hmac key _ := BitVec.ofNat 256 (key.1.headD 0).toNat
  hkdf _ info := ⟨replicate KEY_LENGTH (info.toByteArray.data.toList.getLastD 0), length_replicate⟩

def sampleManager : KeyRotationManager where
  keyProvider := .ofSecrets {
    keyId := "local"
    masterSecrets := AList.insert 2 "the second master secret" (AList.insert 1 "the first master secret" ∅)
    active := 1
    cache := ∅ }
  versionStore := []
  keyId := "local"
  rotationInProgress := false

def sampleEncryptor : ColumnEncryptor where
  algorithm := .gcm
  lookup _ _ := some { indexed := true, decryptRoles := [.system] }

def zeros : Random := fun size => ⟨replicate size 0, length_replicate⟩

/-- An address, with the context that it is bound to. -/
def sampleRow (context : Option Context) : Row where
  encryptor := sampleEncryptor
  table := "users"
  column := "email"
  plaintext := "a@b.c"
  options := ⟨context, none⟩
  random := zeros
  stored := match (sampleEncryptor.encrypt samplePlatform sampleManager.keyProvider "users" "email" "a@b.c" ⟨context, none⟩ zeros).1 with
    | .ok stored => stored
    | .error message => ⟨⟨message, "", "", 0, .gcm⟩, none⟩
  redraw := zeros

/-- A value without a context comes through. -/
theorem preserves_iff_unbound :
    Preserved samplePlatform (sampleManager.beginRotation samplePlatform (.error "")).2 [sampleRow none] := by
  have hwrit : ∀ row ∈ [sampleRow none], row.Written samplePlatform sampleManager.keyProvider := by
    intro row hrow
    rw [mem_singleton.mp hrow]
    rfl
  have hbegin : sampleManager.beginRotation samplePlatform (.error "") =
      (.ok 2, (sampleManager.beginRotation samplePlatform (.error "")).2) := rfl
  refine (preserves_iff plainAes_sound hbegin hwrit).mpr (.inr ⟨by decide, fun row hrow => ?_⟩)
  rw [mem_singleton.mp hrow]
  exact (if_neg (by decide)).mpr (.inl rfl)

/-- A value with the context that it is bound to does not. -/
theorem bound_value_lost : (sampleRow (some [("userId", "user-1")])).Written samplePlatform sampleManager.keyProvider ∧
    (sampleManager.beginRotation samplePlatform (.error "")).1 = .ok 2 ∧
    ¬Preserved samplePlatform (sampleManager.beginRotation samplePlatform (.error "")).2
      [sampleRow (some [("userId", "user-1")])] := by
  refine ⟨rfl, rfl, ?_⟩
  rintro ⟨total, htotal, -⟩
  cases htotal

end Delego.Encryption
