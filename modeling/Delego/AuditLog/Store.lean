import Delego.Data.CodeUnits
import Delego.Data.Calendar
import Delego.Data.Column
import Delego.Data.Json

/-! The hash chain of the audit log (`utils/src/audit/hashChain.ts`).

An entry is hashed with the hash before it, from a JSON text of its fields in which the properties
of its old and new values are sorted, at the top. -/
namespace Delego.AuditLog
open Delego.Data

inductive AuditOperation where
  | INSERT | UPDATE | DELETE

def AuditOperation.text : AuditOperation → String
  | .INSERT => "INSERT"
  | .UPDATE => "UPDATE"
  | .DELETE => "DELETE"

/-- A record, as its properties in their order. -/
abbrev Values := List (String × Json)

structure HashableAuditFields where
  (tableName recordId : String)
  operation : AuditOperation
  (userId sessionId ipAddress userAgent : Option String)
  (oldValues newValues : Option Values)
  changedFields : List String
  occurredAt : Date
  transactionId : String

/-- An entry as it is read back. -/
structure AuditLogEntry extends HashableAuditFields where
  id : String
  sequenceNum : Int
  prevHash : Option String
  entryHash : String

structure ChainVerificationResult where
  valid : Bool
  entriesChecked : Nat
  (firstBrokenEntryId reason : Option String)

/-- The properties by their keys. Of the key `__proto__` an assignment makes no property, and those that are indices come
before the others again. -/
def sortKeys (value : Values) : Values := ownOrder ((sortByKey value).filter fun e => decide (e.1 ≠ "__proto__"))

def stringOrNull : Option String → Json
  | some text => .string text
  | none => .null

def valuesOrNull : Option Values → Json
  | some value => .object (sortKeys value)
  | none => .null

/-- A text of the fields; nothing where the date is invalid. -/
def canonicalize (fields : HashableAuditFields) : Except String String := do
  let occurredAt ← toISOString fields.occurredAt
  return Json.stringify (.object [ ("tableName", .string fields.tableName), ("recordId", .string fields.recordId),
    ("operation", .string fields.operation.text),
    ("userId", stringOrNull fields.userId),
    ("sessionId", stringOrNull fields.sessionId),
    ("ipAddress", stringOrNull fields.ipAddress),
    ("userAgent", stringOrNull fields.userAgent),
    ("oldValues", valuesOrNull fields.oldValues),
    ("newValues", valuesOrNull fields.newValues),
    ("changedFields", .array ((sortStrings fields.changedFields).map .string)),
    ("occurredAt", .string occurredAt),
    ("transactionId", .string fields.transactionId)])

def computeEntryHash (sha256 : String → BitVec 256) (fields : HashableAuditFields) (prevHash : Option String) :
    Except String String := do
  let canonical ← canonicalize fields
  let prev := prevHash.getD ""
  return hex (sha256 s!"{prev}:{canonical}")

def prevHashMismatch (entry : AuditLogEntry) (expectedPrevHash : Option String) : String :=
  let expected := expectedPrevHash.getD "null"
  let got := entry.prevHash.getD "null"
  s!"prevHash mismatch on entry {entry.id}: expected {expected}, got {got}"

def entryHashMismatch (entry : AuditLogEntry) : String :=
  s!"entryHash mismatch on entry {entry.id}: stored hash does not match recomputed hash " ++
    "— row contents may have been altered"

def verifyFrom (sha256 : String → BitVec 256) (expectedPrevHash : Option String) (entriesChecked : Nat) :
    List AuditLogEntry → Except String ChainVerificationResult
  | [] => return { valid := true, entriesChecked, firstBrokenEntryId := none, reason := none }
  | entry :: rest =>
    if entry.prevHash ≠ expectedPrevHash then
      return {
        valid := false
        entriesChecked
        firstBrokenEntryId := some entry.id
        reason := some (prevHashMismatch entry expectedPrevHash) }
    else do
      let recomputed ← computeEntryHash sha256 entry.toHashableAuditFields entry.prevHash
      if recomputed ≠ entry.entryHash then
        return {
          valid := false
          entriesChecked
          firstBrokenEntryId := some entry.id
          reason := some (entryHashMismatch entry) }
      else verifyFrom sha256 (some entry.entryHash) (entriesChecked + 1) rest

def verifyChain (sha256 : String → BitVec 256) (entries : List AuditLogEntry) (startPrevHash : Option String) :
    Except String ChainVerificationResult :=
  verifyFrom sha256 startPrevHash 0 entries

section
def lastHash (prev : Option String) (entries : List AuditLogEntry) : Option String :=
  entries.getLast?.elim prev fun entry => some entry.entryHash

/-- An entry cannot be hashed, or its hashes are not those that belong there, or the walk goes on after it. -/
theorem verifyFrom_cons (sha256 : String → BitVec 256) (prev : Option String) (entry : AuditLogEntry) :
    (∃ message, ∀ rest checked, verifyFrom sha256 prev checked (entry :: rest) = .error message) ∨
      (∃ reason, ∀ rest checked,
        verifyFrom sha256 prev checked (entry :: rest) = .ok ⟨false, checked, some entry.id, some reason⟩) ∨
      ∀ rest checked, verifyFrom sha256 prev checked (entry :: rest) =
        verifyFrom sha256 (some entry.entryHash) (checked + 1) rest := by
  by_cases hprev : entry.prevHash = prev
  · cases hcomputed : computeEntryHash sha256 entry.toHashableAuditFields entry.prevHash with
    | error message =>
      refine .inl ⟨message, fun rest checked => ?_⟩
      rw [verifyFrom, if_neg (not_not.mpr hprev), hcomputed]
      rfl
    | ok recomputed =>
      by_cases hhash : recomputed = entry.entryHash
      · refine .inr (.inr fun rest checked => ?_)
        rw [verifyFrom, if_neg (not_not.mpr hprev), hcomputed]
        exact if_neg (not_not.mpr hhash)
      · refine .inr (.inl ⟨entryHashMismatch entry, fun rest checked => ?_⟩)
        rw [verifyFrom, if_neg (not_not.mpr hprev), hcomputed]
        exact if_pos hhash
  · refine .inr (.inl ⟨prevHashMismatch entry prev, fun rest checked => ?_⟩)
    rw [verifyFrom, if_pos hprev]
    rfl

theorem verifyFrom_cases (sha256 : String → BitVec 256) (prev : Option String) (entries : List AuditLogEntry) :
    (∃ message, ∀ rest checked, verifyFrom sha256 prev checked (entries ++ rest) = .error message) ∨
      (∃ n id reason, n < entries.length ∧ ∀ rest checked,
        verifyFrom sha256 prev checked (entries ++ rest) = .ok ⟨false, checked + n, some id, some reason⟩) ∨
      ∀ rest checked, verifyFrom sha256 prev checked (entries ++ rest) =
        verifyFrom sha256 (lastHash prev entries) (checked + entries.length) rest := by
  induction entries generalizing prev with
  | nil => exact .inr (.inr fun rest checked => rfl)
  | cons entry entries ih =>
    rcases verifyFrom_cons sha256 prev entry with ⟨message, hfails⟩ | ⟨reason, hbroken⟩ | hstep
    · exact .inl ⟨message, fun rest checked => hfails (entries ++ rest) checked⟩
    · exact .inr (.inl ⟨0, entry.id, reason, Nat.succ_pos _, fun rest checked => hbroken (entries ++ rest) checked⟩)
    · rcases ih (some entry.entryHash) with ⟨message, hall⟩ | ⟨n, id, reason, hn, hall⟩ | hall
      · exact .inl ⟨message, fun rest checked => (hstep (entries ++ rest) checked).trans (hall rest _)⟩
      · refine .inr (.inl ⟨n + 1, id, reason, Nat.succ_lt_succ hn, fun rest checked => ?_⟩)
        rw [List.cons_append, hstep, hall, Nat.add_assoc, Nat.add_comm 1]
      · refine .inr (.inr fun rest checked => ?_)
        have hlast : lastHash (some entry.entryHash) entries = lastHash prev (entry :: entries) := by
          unfold lastHash
          rw [List.getLast?_cons]
          cases entries.getLast? <;> rfl
        rw [List.cons_append, hstep, hall, hlast, List.length_cons, Nat.add_assoc, Nat.add_comm 1]

end

/-! ### The audit log and its verification (`utils/src/audit/auditLogStore.ts`, `verifyStoredChain.ts`)

A row is numbered by a sequence of the database and given its hashes by the caller. What is verified
is read in pages, each after the number of the last row of the one before it. A number of a row
comes to the caller as a number of the language, and goes back as the text of that. -/

structure AuditLogRow where
  id : String
  sequenceNum : Int
  (tableName recordId : String)
  operation : AuditOperation
  (userId sessionId ipAddress userAgent : Option String)
  (oldValues newValues : Option Values)
  changedFields : Option (List String)
  occurredAt : Date
  transactionId : String
  prevHash : Option String
  entryHash : String

def mapRow (row : AuditLogRow) : AuditLogEntry where
  id := row.id
  sequenceNum := toNumber row.sequenceNum
  tableName := row.tableName
  recordId := row.recordId
  operation := row.operation
  userId := row.userId
  sessionId := row.sessionId
  ipAddress := row.ipAddress
  userAgent := row.userAgent
  oldValues := row.oldValues
  newValues := row.newValues
  changedFields := row.changedFields.getD []
  occurredAt := row.occurredAt
  transactionId := row.transactionId
  prevHash := row.prevHash
  entryHash := row.entryHash

def inSequence (rows : List AuditLogRow) : List AuditLogRow := rows.insertionSort fun a b => a.sequenceNum ≤ b.sequenceNum

/-- The first rows after a number. `LIMIT` takes an integer of 64 bits. -/
def getChainSegment (rows : List AuditLogRow) (limit : Nat) (afterSequenceNum : Option Int) :
    Except String (List AuditLogEntry) :=
  if limit < 2 ^ 63 then
    .ok (((inSequence (rows.filter fun row =>
      afterSequenceNum.all fun number => decide (row.sequenceNum > shown number))).take limit).map mapRow)
  else .error "value is out of range for type bigint"

structure StoredChainVerificationResult extends ChainVerificationResult where
  pagesChecked : Nat
  lastSequenceNum : Option Int

/-- How far the walk over the chain has come. -/
structure Walk where
  afterSequenceNum : Option Int := none
  expectedPrevHash : Option String := none
  entriesChecked : Nat := 0
  pagesChecked : Nat := 0
  lastSequenceNum : Option Int := none

/-- The pages from one on; nothing where they do not end within as many as the fuel. -/
def walkPages (sha256 : String → BitVec 256) (rows : List AuditLogRow) (pageSize : Nat) :
    Nat → Walk → Option (Except String StoredChainVerificationResult)
  | 0, _ => none
  | fuel + 1, walk =>
    match getChainSegment rows pageSize walk.afterSequenceNum with
    | .error message => some (.error message)
    | .ok page =>
      let pagesChecked := walk.pagesChecked + 1
      match page.getLast? with
      | none => some (.ok {
          valid := true
          entriesChecked := walk.entriesChecked
          firstBrokenEntryId := none
          reason := none
          pagesChecked
          lastSequenceNum := walk.lastSequenceNum })
      | some last =>
        match verifyChain sha256 page walk.expectedPrevHash with
        | .error message => some (.error message)
        | .ok pageResult =>
          if pageResult.valid = false then
            let brokenIndex := pageResult.entriesChecked
            some (.ok { pageResult with
              entriesChecked := walk.entriesChecked + pageResult.entriesChecked
              pagesChecked
              lastSequenceNum := if brokenIndex > 0 then (page[brokenIndex - 1]?).map (·.sequenceNum)
                else walk.lastSequenceNum })
          else
            let entriesChecked := walk.entriesChecked + page.length
            if page.length < pageSize then some (.ok {
              valid := true
              entriesChecked
              firstBrokenEntryId := none
              reason := none
              pagesChecked
              lastSequenceNum := some last.sequenceNum })
            else walkPages sha256 rows pageSize fuel {
              afterSequenceNum := some last.sequenceNum
              expectedPrevHash := some last.entryHash
              entriesChecked
              pagesChecked
              lastSequenceNum := some last.sequenceNum }

def verifyStoredChain (sha256 : String → BitVec 256) (numeral : Number → String) (rows : List AuditLogRow)
    (pageSize : Number) (fuel : Nat) : Option (Except String StoredChainVerificationResult) :=
  match pageSize with
  | .finite size =>
    if size.isInt ∧ 1 ≤ size then walkPages sha256 rows size.num.toNat fuel {}
    else
      let got := numeral pageSize
      some (.error s!"pageSize must be a positive integer, got {got}")
  | _ =>
    let got := numeral pageSize
    some (.error s!"pageSize must be a positive integer, got {got}")

structure AuditLogEntryInput where
  (tableName recordId : String)
  operation : AuditOperation
  userId : Option String := none
  sessionId : Option String := none
  ipAddress : Option String := none
  userAgent : Option String := none
  oldValues : Option Values := none
  newValues : Option Values := none
  changedFields : Option (List String) := none
  transactionId : String

/-- `JSON.stringify(values?.[key])`. A record has a value for `__proto__` that is no property of its own. -/
def written (values : Option Values) (key : String) : Option String :=
  match values with
  | none => none
  | some members =>
    match members.find? fun e => decide (e.1 = key) with
    | some (_, value) => some value.stringify
    | none => if key = "__proto__" then some "\x7b\x7d" else none

def deriveChangedFields (oldValues newValues : Option Values) : List String :=
  let keys := ((oldValues.getD []).map (·.1) ++ (newValues.getD []).map (·.1)).dedup
  sortStrings (keys.filter fun key => decide (written oldValues key ≠ written newValues key))

/-- The hash of the row with the highest number. -/
def getLatestEntryHash (rows : List AuditLogRow) : Option String := (inSequence rows).getLast?.map (·.entryHash)

/-- What the database adds to a row, what it makes of its records, and why it refuses it, if it does (a text may hold a
character that no column takes). -/
structure Insertion where
  id : String
  sequenceNum : Int
  (oldValues newValues : Option Values)
  refused : Option String := none

/-- The columns that keep a value and not its text: `user_id UUID` and `ip_address INET`. -/
structure Columns where
  (uuid inet : Column)

def recordAuditEntry (sha256 : String → BitVec 256) (columns : Columns) (input : AuditLogEntryInput) (now : Instant)
    (insertion : Insertion) (rows : List AuditLogRow) : Except String (List AuditLogRow) := do
  if trim input.tableName = "" then throw "tableName is required"
  if trim input.recordId = "" then throw "recordId is required"
  if trim input.transactionId = "" then throw "transactionId is required"
  let changedFields := input.changedFields.getD (deriveChangedFields input.oldValues input.newValues)
  let prevHash := getLatestEntryHash rows
  let entryHash ← computeEntryHash sha256 {
    tableName := input.tableName
    recordId := input.recordId
    operation := input.operation
    userId := input.userId
    sessionId := input.sessionId
    ipAddress := input.ipAddress
    userAgent := input.userAgent
    oldValues := input.oldValues
    newValues := input.newValues
    changedFields
    occurredAt := some now
    transactionId := input.transactionId } prevHash
  if let some message := insertion.refused then throw message
  let some userId := columns.uuid.readOption input.userId | throw "invalid input syntax for type uuid"
  let some ipAddress := columns.inet.readOption input.ipAddress | throw "invalid input syntax for type inet"
  return rows ++ [{
    id := insertion.id
    sequenceNum := insertion.sequenceNum
    tableName := input.tableName
    recordId := input.recordId
    operation := input.operation
    userId
    sessionId := input.sessionId
    ipAddress
    userAgent := input.userAgent
    oldValues := insertion.oldValues
    newValues := insertion.newValues
    changedFields := some changedFields
    occurredAt := some now
    transactionId := input.transactionId
    prevHash
    entryHash }]

end Delego.AuditLog
