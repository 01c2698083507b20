import Delego.Data.History
import Delego.Encryption.Preserved

/-! Lookups by blind index, over a history of writes and rotations.

The index of a row is made with the key of the version it was written under, and that of a lookup with the key of the
active version; neither is made again. -/
namespace Delego.Encryption
open Delego.Data List

/-- A row of a table, its plaintext kept beside what is stored. -/
structure TableRow where
  (table column plaintext : String)
  context : Option Context
  stored : StoredField

/-- The rows, and the keys that they are read with. -/
structure Database where
  manager : KeyRotationManager
  rows : List TableRow

/-- How a sweep finds a row: whether it is read, and then given, whether it is written, and the bytes drawn. -/
structure Visit where
  read : Except String Bool
  write : Except String Unit
  redraw : Random

def TableRow.target (row : TableRow) (visit : Visit) : ReEncryptTarget where
  read := visit.read.map fun given => if given then some (row.stored.field, row.context) else none
  write := visit.write
  random := visit.redraw

def TableRow.rewrite (row : TableRow) (written : Option EncryptedField) : TableRow :=
  { row with stored := { row.stored with field := written.getD row.stored.field } }

inductive Event where
  | encrypt (table column plaintext : String) (options : EncryptOptions) (random : Random)
  | beginRotation (minted : Minted)
  | reEncryptAll (visits : List Visit)
  | completeRotation (remaining : Except String Nat)

section
variable (crypto : Crypto) (encryptor : ColumnEncryptor)

namespace Database

def keyProvider (db : Database) : KeyProvider := db.manager.keyProvider

def apply (db : Database) : Event → Database
  | .encrypt table column plaintext options random =>
    let (answer, keyProvider) := encryptor.encrypt crypto db.keyProvider table column plaintext options random
    let manager := { db.manager with keyProvider }
    match answer with
    | .error _ => { db with manager }
    | .ok stored => ⟨manager, db.rows ++ [⟨table, column, plaintext, options.context, stored⟩]⟩
  | .beginRotation minted => { db with manager := (db.manager.beginRotation crypto minted).2 }
  | .reEncryptAll visits =>
    let (sweep, manager) := db.manager.reEncryptAll crypto (zipWith TableRow.target db.rows visits)
    ⟨manager, db.rows.zipIdx.map fun (row, i) => row.rewrite (sweep.written[i]?).join⟩
  | .completeRotation remaining => { db with manager := (db.manager.completeRotation remaining).2 }

def run (db : Database) (events : List Event) : Database := History.run (apply crypto encryptor) db events

end Database

def indexed (table column : String) : Bool := (encryptor.lookup table column).any (·.indexed)

def TableRow.Found (p : KeyProvider) (row : TableRow) : Prop :=
  indexed encryptor row.table row.column = true → ∃ index, row.stored.blindIndex = some index ∧
      (ColumnEncryptor.computeIndex crypto p row.table row.column row.plaintext).1 = .ok index

/-- An indexed value is written under a version whose key is the active one's; a rotation begins while no row has an
index, or leaves the key that writes and lookups use. -/
def Database.Allows (db : Database) : Event → Prop
  | .encrypt table column _ options _ => indexed encryptor table column = true →
    db.keyProvider.keyOf crypto (options.keyVersion.getD db.keyProvider.activeVersion) =
      db.keyProvider.keyOf crypto db.keyProvider.activeVersion
  | .beginRotation minted => (∃ row ∈ db.rows, indexed encryptor row.table row.column = true) →
    db.manager.rotationInProgress = false →
      ∀ key, db.keyProvider.nextKey crypto (db.manager.currentVersion + 1) minted = some key →
        db.keyProvider.keyOf crypto db.keyProvider.activeVersion = some key
  | .reEncryptAll _ => True
  | .completeRotation _ => True

def Database.Orderly (db : Database) (events : List Event) : Prop :=
  History.Orderly (Database.apply crypto encryptor) (Database.Allows crypto encryptor) db events

def TableRow.Indexed (p : KeyProvider) (row : TableRow) : Prop :=
  indexed encryptor row.table row.column = true → ∃ key index, p.keyOf crypto p.activeVersion = some key ∧
    blindIndex crypto row.plaintext key s!"{row.table}.{row.column}" = .ok index ∧ row.stored.blindIndex = some index

variable {crypto encryptor}
  {p : KeyProvider} {row : TableRow}

theorem TableRow.Indexed.found (h : row.Indexed crypto encryptor p) :
    row.Found crypto encryptor p := by
  intro hidx
  obtain ⟨key, index, hkey, hindex, hstore⟩ := h hidx
  exact ⟨index, hstore, (ColumnEncryptor.computeIndex_of_keyOf hkey ..).trans hindex⟩

theorem TableRow.Indexed.of_key {p' : KeyProvider} (h : row.Indexed crypto encryptor p)
    (hkey : ∀ key, p.keyOf crypto p.activeVersion = some key → p'.keyOf crypto p'.activeVersion = some key) :
    row.Indexed crypto encryptor p' := by
  intro hidx
  obtain ⟨key, index, hact, hindex⟩ := h hidx
  exact ⟨key, index, hkey key hact, hindex⟩

theorem TableRow.Indexed.of_same {p' : KeyProvider} (h : row.Indexed crypto encryptor p)
    (heq : KeyProvider.Same crypto p p') : row.Indexed crypto encryptor p' := by
  refine h.of_key fun key hkey => ?_
  rw [heq.keys, heq.active]
  exact hkey

theorem keyOf_beginRotation {m : KeyRotationManager} {minted : Minted}
    (h : m.rotationInProgress = false → ∀ key, m.keyProvider.nextKey crypto (m.currentVersion + 1) minted = some key →
      m.keyProvider.keyOf crypto m.keyProvider.activeVersion = some key) {key : Key}
    (hkey : m.keyProvider.keyOf crypto m.keyProvider.activeVersion = some key) :
    (m.beginRotation crypto minted).2.keyProvider.keyOf crypto
      (m.beginRotation crypto minted).2.keyProvider.activeVersion = some key := by
  unfold KeyRotationManager.beginRotation
  by_cases hprogress : m.rotationInProgress = true
  · rw [if_pos hprogress]
    exact hkey
  · rw [if_neg hprogress]
    have hnext := h (Bool.eq_false_iff.mpr hprogress)
    unfold KeyProvider.nextKey at hnext
    cases hgenerate : m.keyProvider.generateDataKey crypto (m.currentVersion + 1) minted with
    | mk answer p =>
      cases answer with
      | error message =>
        have heq := KeyProvider.generateDataKey_error crypto (congrArg Prod.fst hgenerate)
        rw [hgenerate] at heq
        simp only [hgenerate]
        rw [heq.keys, heq.active]
        exact hkey
      | ok dataKey =>
        have hgenerated := KeyProvider.generateDataKey_ok crypto (congrArg Prod.fst hgenerate)
        rw [hgenerate] at hgenerated hnext
        -- the next version has the key that writes and lookups use
        obtain rfl := Option.some.inj (hkey.symm.trans (hnext dataKey.key rfl))
        have hkept : p.keyOf crypto m.keyProvider.activeVersion = some dataKey.key := by
          by_cases hact : m.keyProvider.activeVersion = m.currentVersion + 1
          · rw [hact]
            exact hgenerated.key
          · rw [hgenerated.others _ hact]
            exact hkey
        cases hact : p.setActiveVersion (m.currentVersion + 1) with
        | error message =>
          simp only [hgenerate, hact, KeyRotationManager.recordVersion]
          rw [hgenerated.active]
          exact hkept
        | ok p' =>
          obtain ⟨hkeys, -, hver, -⟩ := KeyProvider.setActiveVersion_ok crypto hact
          simp only [hgenerate, hact]
          rw [hver, hkeys]
          exact hgenerated.key

theorem indexed_apply {db : Database} {event : Event} (hrows : ∀ row ∈ db.rows, row.Indexed crypto encryptor db.keyProvider)
    (hallows : db.Allows crypto encryptor event) :
    ∀ row ∈ (db.apply crypto encryptor event).rows,
      row.Indexed crypto encryptor (db.apply crypto encryptor event).keyProvider := by
  cases event with
  | encrypt table column plaintext options random =>
    have heq := ColumnEncryptor.encrypt_same crypto encryptor db.keyProvider table column plaintext options random
    simp only [Database.apply]
    cases hans : encryptor.encrypt crypto db.keyProvider table column plaintext options random with
    | mk answer p =>
      rw [hans] at heq
      cases answer with
      | error message =>
        intro row hrow
        exact (hrows row hrow).of_same heq
      | ok stored =>
        intro row hrow
        rcases mem_append.mp hrow with hold | hnew
        · exact (hrows row hold).of_same heq
        · rw [mem_singleton.mp hnew]
          refine TableRow.Indexed.of_same (fun hidx => ?_) heq
          obtain ⟨piiColumn, key, _, hcolumn, hkey, -, -, hindex⟩ := ColumnEncryptor.encrypt_ok (congrArg Prod.fst hans)
          have hpii : piiColumn.indexed = true := by
            unfold indexed at hidx
            rw [hcolumn] at hidx
            exact hidx
          obtain ⟨index, hmade, hstore⟩ := hindex hpii
          exact ⟨key, index, (hallows hidx).symm.trans hkey, hmade, hstore⟩
  | beginRotation minted =>
    intro row hrow hidx
    refine (hrows row hrow).of_key (fun key hkey => ?_) hidx
    exact keyOf_beginRotation (hallows ⟨row, hrow, hidx⟩) hkey
  | reEncryptAll visits =>
    have heq := reEncryptFrom_same crypto (zipWith TableRow.target db.rows visits) ⟨0, 0, 0⟩ db.manager
    intro row hrow
    obtain ⟨⟨old, i⟩, hold, rfl⟩ := mem_map.mp hrow
    exact TableRow.Indexed.of_same (hrows old (fst_mem_of_mem_zipIdx hold)) heq
  | completeRotation remaining =>
    have hprovider : (db.manager.completeRotation remaining).2.keyProvider = db.manager.keyProvider := by
      unfold KeyRotationManager.completeRotation
      cases remaining with
      | error message => rfl
      | ok remaining => by_cases hrem : 0 < remaining <;> simp [hrem]
    intro row hrow
    show row.Indexed crypto encryptor (db.manager.completeRotation remaining).2.keyProvider
    rw [hprovider]
    exact hrows row hrow

theorem indexed_run {events : List Event} {db : Database} (hord : db.Orderly crypto encryptor events)
    (hrows : ∀ row ∈ db.rows, row.Indexed crypto encryptor db.keyProvider) :
    ∀ row ∈ (db.run crypto encryptor events).rows, row.Indexed crypto encryptor (db.run crypto encryptor events).keyProvider :=
  History.Orderly.invariant (fun _ _ => indexed_apply) hord hrows

/-- **Lookups survive** a history whose steps leave writes and lookups one key: every row of an indexed column is found under
the index of its plaintext. -/
theorem lookups_survive (manager : KeyRotationManager) {events : List Event}
    (hord : Database.Orderly crypto encryptor ⟨manager, []⟩ events) :
    ∀ row ∈ (Database.run crypto encryptor ⟨manager, []⟩ events).rows,
      row.Found crypto encryptor (Database.run crypto encryptor ⟨manager, []⟩ events).keyProvider := by
  intro row hrow
  have hnone : ∀ row ∈ (⟨manager, []⟩ : Database).rows, row.Indexed crypto encryptor manager.keyProvider :=
    fun row hrow => absurd hrow not_mem_nil
  exact (indexed_run hord hnone row hrow).found

end

def writeAddress : Event := .encrypt "users" "email" "a@b.c" ⟨none, none⟩ zeros

def rotatedFirst : Database := Database.run samplePlatform sampleEncryptor ⟨sampleManager, []⟩
  [.beginRotation (.error ""), writeAddress, .reEncryptAll [], .completeRotation (.ok 0)]

theorem lookups_survive_fresh : rotatedFirst.rows ≠ [] ∧
    ∀ row ∈ rotatedFirst.rows, row.Found samplePlatform sampleEncryptor rotatedFirst.keyProvider := by
  refine ⟨nofun, lookups_survive sampleManager ⟨?_, fun _ => rfl, trivial, trivial, trivial⟩⟩
  rintro ⟨row, hrow, -⟩
  cases hrow

/-- Written first: after a rotation the address is looked up under another index. -/
theorem lookup_misses : ∃ row ∈ (Database.run samplePlatform sampleEncryptor ⟨sampleManager, []⟩
      [writeAddress, .beginRotation (.error "")]).rows,
    ¬row.Found samplePlatform sampleEncryptor (Database.run samplePlatform sampleEncryptor ⟨sampleManager, []⟩
      [writeAddress, .beginRotation (.error "")]).keyProvider := by
  refine ⟨_, mem_singleton.mpr rfl, fun hfound => ?_⟩
  obtain ⟨index, hstore, hlook⟩ := hfound rfl
  have hwrit : index = hex 49 := (Option.some.inj hstore).symm
  have hsought : index = hex 50 := (Except.ok.inj hlook).symm
  exact absurd (hex_injective (hwrit.symm.trans hsought)) (by decide)

end Delego.Encryption
