import Delego.Data.Number
import Delego.Data.Text
import Mathlib.Data.List.Sort

/-! Transactions in batches (`wallet/src/batching/batchQueue.ts`).

A batch that is submitted is cut to the size that its gas cap allows and waits in the queue of its priority, or is kept
aside for a ledger.

A transaction that is submitted is an object, and two entries of a batch can be the same object: `ref` is which one. A
batch is named by how many had been named before it, since no UUID is drawn twice. Its queue is one of three, and calls
follow one another. -/
namespace Delego.Batching
open Delego.Data Function

structure BatchTransactionItem where
  ref : Nat
  (sourceAddress contractId method : String)
  memo : Option String
  userId : String
  required : Option Bool

inductive BatchPriority where
  | low | normal | high
  deriving DecidableEq

inductive BatchStatus where
  | queued | scheduled | processing | completed | partialFailure | failed | rolledBack
  deriving DecidableEq

structure BatchTransactionRequest where
  transactions : List BatchTransactionItem
  priority : BatchPriority
  executeAtLedger : Option Number := none
  maxGasStroops : Option String := none

structure BatchItemResult where
  userId : String
  success : Bool
  (hash error : Option String)
  ledger : Option Nat
  gasUsed : Option String
  index : Nat

structure BatchTransactionResult where
  batchId : Nat
  transactionHash : Option String
  results : List BatchItemResult
  (gasUsed gasSaved totalGasSaved : String)
  status : BatchStatus
  completedAt : Int

/-- A batch in the store. -/
structure QueuedBatch where
  batchId : Nat
  items : List BatchTransactionItem
  priority : BatchPriority
  status : BatchStatus
  (submittedAt estimatedCompletion : Int)
  result : Option BatchTransactionResult
  executeAtLedger : Option Number
  maxGasStroops : Option String
  (progress operationsCompleted : Nat)

/-- What a batch that has been taken is answered with. -/
structure BatchTransactionResponse where
  batchId : Nat
  status : BatchStatus
  (submittedAt estimatedCompletion : Int)

/-- Whether `NODE_ENV` is `test`, and the numerals of the language. -/
structure Settings where
  test : Bool
  conv : Conversions

def MAX_BATCH_SIZE : Nat := 50

/-- A ledger that is 0 or `NaN` is no ledger. -/
def truthy : Number → Bool
  | .nan => false
  | .finite q => decide (q ≠ 0)
  | _ => true

def isScheduled (executeAtLedger : Option Number) : Bool := executeAtLedger.any truthy

def calculateGasUsed (count : Nat) : Int := 100 + ((count : Int) - 1) * 10

def calculateGasSaved (count : Nat) : Int := max 0 (count * 100 - calculateGasUsed count)

def countWithin (maxGas accumulatedGas : Int) : List BatchTransactionItem → Nat
  | [] => 0
  | _ :: items =>
    if accumulatedGas + 100 > maxGas then 0
    else countWithin maxGas (accumulatedGas + 100) items + 1

/-- The size that a batch is cut to; nothing where the cap is no integer. -/
def calculateDynamicBatchSize (cfg : Settings) (items : List BatchTransactionItem) : Option String → Option Nat
  | none | some "" => some (min items.length MAX_BATCH_SIZE)
  | some cap => (cfg.conv.bigInt cap).map fun maxGas => max 1 (min (countWithin maxGas 0 items) MAX_BATCH_SIZE)

/-! ### Execution -/

/-- What submitting transactions comes back with. -/
structure BatchSubmissionResult where
  hash : String
  (ledger savedGasStroops : Nat)

/-- What the submissions of a batch come to. -/
structure Outcome where
  /-- The module of the submitter does not load. -/
  importError : Option String := none
  /-- The submission of the required transactions. -/
  required : Except String BatchSubmissionResult
  /-- The submission of each of the others. -/
  single : Nat → Except String BatchSubmissionResult
  /-- The hash that is drawn for a simulated transaction. -/
  randomHash : Nat → String
  completedAt : Int

def BatchTransactionItem.isRequired (item : BatchTransactionItem) : Bool := decide (item.required ≠ some false)

/-- `batch.items.indexOf(item)` -/
def indexOf (items : List BatchTransactionItem) (item : BatchTransactionItem) : Nat :=
  items.findIdx fun other => decide (other.ref = item.ref)

/-- What the attempts on the transactions of a batch add up to. -/
structure Attempts where
  results : List BatchItemResult := []
  overallHash : Option String := none
  anySuccess : Bool := false
  anyRequiredFailure : Bool := false
  operationsCompleted : Nat := 0

/-- `if (!overallHash) overallHash = hash` -/
def orHash (overallHash hash : Option String) : Option String :=
  if overallHash.any fun hash => decide (hash ≠ "") then overallHash else hash

def simulate (outcome : Outcome) (attempts : Attempts) (entry : BatchTransactionItem × Nat) : Attempts :=
  let (item, i) := entry
  let success := !item.memo.any fun memo => includes memo "FORCE_FAIL"
  let itemHash := if success then some (outcome.randomHash i) else none
  { results := attempts.results ++ [{
      userId := item.userId
      success
      hash := itemHash
      error := if success then none else some "Simulated transaction failure"
      ledger := if success then some 100 else none
      gasUsed := if success then some "100" else none
      index := i }]
    overallHash := if success then orHash attempts.overallHash itemHash else attempts.overallHash
    anySuccess := attempts.anySuccess || success
    anyRequiredFailure := attempts.anyRequiredFailure || (!success && item.isRequired)
    operationsCompleted := i + 1 }

def failedItem (items : List BatchTransactionItem) (errMsg : String) (item : BatchTransactionItem) : BatchItemResult where
  userId := item.userId
  success := false
  hash := none
  error := some errMsg
  ledger := none
  gasUsed := none
  index := indexOf items item

def succeededItem (items : List BatchTransactionItem) (submitted : BatchSubmissionResult) (gasUsed : String)
    (item : BatchTransactionItem) : BatchItemResult where
  userId := item.userId
  success := true
  hash := some submitted.hash
  error := none
  ledger := some submitted.ledger
  gasUsed := some gasUsed
  index := indexOf items item

/-- The required transactions, as one submission. -/
def submitRequired (outcome : Outcome) (items : List BatchTransactionItem) (attempts : Attempts) : Attempts :=
  let requiredItems := items.filter fun item => item.isRequired
  if requiredItems.isEmpty then attempts
  else match outcome.required with
    | .ok batchResult =>
      { attempts with
        results := attempts.results ++ requiredItems.map
          (succeededItem items batchResult (toString (batchResult.savedGasStroops / requiredItems.length)))
        overallHash := some batchResult.hash
        anySuccess := true
        operationsCompleted := attempts.operationsCompleted + requiredItems.length }
    | .error errMsg =>
      { attempts with
        results := attempts.results ++ requiredItems.map (failedItem items errMsg)
        anyRequiredFailure := true
        operationsCompleted := attempts.operationsCompleted + requiredItems.length }

def submitOther (outcome : Outcome) (items : List BatchTransactionItem) (attempts : Attempts)
    (entry : BatchTransactionItem × Nat) : Attempts :=
  let (item, k) := entry
  match outcome.single k with
  | .ok singleResult =>
    { attempts with
      results := attempts.results ++ [succeededItem items singleResult "100" item]
      overallHash := orHash attempts.overallHash (some singleResult.hash)
      anySuccess := true
      operationsCompleted := attempts.operationsCompleted + 1 }
  | .error errMsg =>
    { attempts with
      results := attempts.results ++ [failedItem items errMsg item]
      operationsCompleted := attempts.operationsCompleted + 1 }

def attemptAll (cfg : Settings) (outcome : Outcome) (items : List BatchTransactionItem) (attempts : Attempts) :
    Attempts :=
  if cfg.test then items.zipIdx.foldl (simulate outcome) attempts
  else match outcome.importError with
    | some errMsg =>
      { attempts with
        results := attempts.results ++ items.map (failedItem items errMsg)
        anyRequiredFailure := true }
    | none =>
      (items.filter fun item => !item.isRequired).zipIdx.foldl (submitOther outcome items)
        (submitRequired outcome items attempts)

def finalStatus (items : List BatchTransactionItem) (attempts : Attempts) : BatchStatus :=
  let reached : BatchStatus :=
    if attempts.anyRequiredFailure && !attempts.anySuccess then .failed
    else if attempts.anyRequiredFailure then .partialFailure
    else if !attempts.anySuccess then .failed
    else if attempts.results.all fun r => r.success || (items[r.index]?).any fun item => !item.isRequired then .completed
    else .partialFailure
  if reached = .failed && attempts.anyRequiredFailure then .rolledBack else reached

def executeBatch (cfg : Settings) (outcome : Outcome) (batch : QueuedBatch) : QueuedBatch :=
  let attempts := attemptAll cfg outcome batch.items { operationsCompleted := batch.operationsCompleted }
  let count := batch.items.length
  let status := finalStatus batch.items attempts
  { batch with
    status
    result := some {
      batchId := batch.batchId
      transactionHash := attempts.overallHash
      results := attempts.results.insertionSort fun a b => a.index ≤ b.index
      gasUsed := toString (calculateGasUsed count)
      gasSaved := toString (calculateGasSaved count)
      totalGasSaved := toString (calculateGasSaved count)
      status
      completedAt := outcome.completedAt }
    progress := 100
    operationsCompleted := attempts.operationsCompleted }

structure World where
  batchStore : Nat → Option QueuedBatch
  /-- `normalQueue`, `highQueue` and `lowQueue`. -/
  queues : BatchPriority → List Nat
  /-- The batches that have been taken, each at its name. -/
  accepted : List BatchTransactionRequest

def World.empty : World := ⟨fun _ => none, fun _ => [], []⟩

def checkTransaction (tx : BatchTransactionItem) : Except String Unit := do
  if tx.sourceAddress = "" then throw "Each transaction requires sourceAddress"
  if tx.contractId = "" then throw "Each transaction requires contractId"
  if tx.method = "" then throw "Each transaction requires method"
  if tx.userId = "" then throw "Each transaction requires userId"

def checkRequest (cfg : Settings) (req : BatchTransactionRequest) : Except String Nat := do
  if req.transactions.isEmpty then throw "Batch must contain at least one transaction"
  let effectiveBatchSize ← match calculateDynamicBatchSize cfg req.transactions req.maxGasStroops with
    | some size => pure size
    | none =>
      let cap := req.maxGasStroops.getD ""
      throw s!"Cannot convert {cap} to a BigInt"
  if req.transactions.length > MAX_BATCH_SIZE then throw s!"Batch size exceeds maximum of {MAX_BATCH_SIZE}"
  req.transactions.forM checkTransaction
  return effectiveBatchSize

def flushDelayMs : BatchPriority → Int
  | .high => 1000
  | .low => 10000
  | .normal => 5000

def newBatch (req : BatchTransactionRequest) (batchId effectiveBatchSize : Nat) (now : Int) : QueuedBatch where
  batchId
  items := req.transactions.take effectiveBatchSize
  priority := req.priority
  status := if isScheduled req.executeAtLedger then .scheduled else .queued
  submittedAt := now
  estimatedCompletion := now + flushDelayMs req.priority + 1000
  result := none
  executeAtLedger := req.executeAtLedger
  maxGasStroops := req.maxGasStroops
  progress := 0
  operationsCompleted := 0

def submitBatch (cfg : Settings) (req : BatchTransactionRequest) (now : Int) (w : World) :
    Except String BatchTransactionResponse × World :=
  match checkRequest cfg req with
  | .error message => (.error message, w)
  | .ok effectiveBatchSize =>
    let batchId := w.accepted.length
    let batch := newBatch req batchId effectiveBatchSize now
    (.ok ⟨batchId, batch.status, batch.submittedAt, batch.estimatedCompletion⟩, {
      batchStore := update w.batchStore batchId (some batch)
      queues := if isScheduled req.executeAtLedger then w.queues
        else update w.queues req.priority (w.queues req.priority ++ [batchId])
      accepted := w.accepted ++ [req] })

def flushBatch (cfg : Settings) (outcomes : Nat → Outcome) (batchStore : Nat → Option QueuedBatch) (batchId : Nat) :
    Nat → Option QueuedBatch :=
  match batchStore batchId with
  | none => batchStore
  | some batch =>
    if batch.status ≠ .queued then batchStore
    else if isScheduled batch.executeAtLedger then batchStore
    else update batchStore batchId (some (executeBatch cfg (outcomes batchId) batch))

def flushQueue (cfg : Settings) (outcomes : Nat → Outcome) (priority : BatchPriority) (w : World) : World :=
  let queue := w.queues priority
  { w with
    queues := update w.queues priority (queue.drop MAX_BATCH_SIZE)
    batchStore := (queue.take MAX_BATCH_SIZE).foldl (flushBatch cfg outcomes) w.batchStore }

/-- A batch is handed in, or a queue is flushed. -/
inductive Event where
  | submitBatch (req : BatchTransactionRequest) (now : Int)
  | flushQueue (priority : BatchPriority) (outcomes : Nat → Outcome)

def World.apply (cfg : Settings) (w : World) : Event → World
  | .submitBatch req now => (Batching.submitBatch cfg req now w).2
  | .flushQueue priority outcomes => Batching.flushQueue cfg outcomes priority w

def after (cfg : Settings) (history : List Event) : World := history.foldl (World.apply cfg) .empty

end Delego.Batching
