import Delego.Data.CodeUnits
import Delego.Data.Ranges
import Delego.Data.Table
import Delego.Process.Pool

/-! Contract events, and the store that holds them with a checkpoint for each contract.

A batch is committed in one transaction: the events that are new, the ids that are claimed, and the checkpoint, which
must be the one that was expected. -/
namespace Delego.Ingestion
open Delego.Data

/-- `{ xdr?, str? }` -/
structure ScVal where
  (xdr str : Option String)

inductive RpcValue where
  | text (xdr : String)
  | fields (value : ScVal)

structure RpcContractEvent where
  ledger : Int
  (ledgerClosedAt contractId id : String)
  topic : Option (List String)
  value : Option RpcValue
  inSuccessfulContractCall : Option Bool
  txHash : String

structure LedgerEvent where
  (eventId contractId : String)
  ledger : Int
  (ledgerClosedAt txHash : String)
  topics : List String
  value : ScVal
  inSuccessfulContractCall : Bool

def RpcValue.toScVal : RpcValue → ScVal
  | .text xdr => ⟨some xdr, none⟩
  | .fields value => value

def toLedgerEvent (raw : RpcContractEvent) : LedgerEvent where
  eventId := raw.id
  contractId := raw.contractId
  ledger := raw.ledger
  ledgerClosedAt := raw.ledgerClosedAt
  txHash := raw.txHash
  topics := raw.topic.getD []
  value := (raw.value.map RpcValue.toScVal).getD ⟨none, none⟩
  inSuccessfulContractCall := raw.inSuccessfulContractCall.getD true

def compareLedgerEvents (a b : LedgerEvent) : Int :=
  if a.ledger ≠ b.ledger then a.ledger - b.ledger
  else if codeUnits a.eventId < codeUnits b.eventId then -1
  else if codeUnits b.eventId < codeUnits a.eventId then 1
  else 0

structure IngestionCheckpoint where
  contractId : String
  lastProcessedLedger : Int
  lastEventId : String

structure CommitBatchInput where
  contractId : String
  expected : Option IngestionCheckpoint
  throughLedger : Int
  events : List LedgerEvent

structure CommitBatchResult where
  checkpoint : IngestionCheckpoint
  processed : List LedgerEvent

inductive IngestionError where
  | checkpointConflict (contractId : String) (stored : Option IngestionCheckpoint)
  | ledgerRetentionGap (contractId : String) (resumeLedger oldestLedger : Int)
  | other (message : String)

def IngestionError.message : IngestionError → String
  | .checkpointConflict contractId stored => "Checkpoint for " ++ contractId ++ " changed concurrently (stored ledger " ++
      (stored.map fun checkpoint => toString checkpoint.lastProcessedLedger).getD "none" ++ ")"
  | .ledgerRetentionGap contractId resumeLedger oldestLedger => "Cannot resume " ++ contractId ++ " at ledger " ++
      toString resumeLedger ++ ": RPC only retains ledgers from " ++ toString oldestLedger ++ ". Ledgers " ++
      toString resumeLedger ++ "-" ++ toString (oldestLedger - 1) ++
      " must be backfilled from an archive before ingestion can continue."
  | .other message => message

def ledgerOf (checkpoint : Option IngestionCheckpoint) : Int :=
  (checkpoint.map IngestionCheckpoint.lastProcessedLedger).getD 0

def sameWatermark (a b : Option IngestionCheckpoint) : Bool :=
  decide (ledgerOf a = ledgerOf b) &&
    decide ((a.map IngestionCheckpoint.lastEventId).getD "" = (b.map IngestionCheckpoint.lastEventId).getD "")

def assertEvents (input : CommitBatchInput) : Option LedgerEvent → List LedgerEvent → Except String Unit
  | _, [] => .ok ()
  | previous, event :: rest =>
    if event.contractId ≠ input.contractId then
      .error ("Event " ++ event.eventId ++ " belongs to " ++ event.contractId ++ ", not " ++ input.contractId)
    else if input.throughLedger < event.ledger then
      .error ("Event " ++ event.eventId ++ " at ledger " ++ toString event.ledger ++ " is beyond watermark " ++
        toString input.throughLedger)
    else if previous.any fun before => decide (0 ≤ compareLedgerEvents before event) then
      .error ("Events for " ++ input.contractId ++ " are not in strict ledger order at " ++ event.eventId)
    else assertEvents input (some event) rest

def assertCommitInput (input : CommitBatchInput) : Except String Unit :=
  if input.throughLedger < ledgerOf input.expected then
    .error ("Refusing to move checkpoint for " ++ input.contractId ++ " backwards (" ++ toString (ledgerOf input.expected) ++
      " -> " ++ toString input.throughLedger ++ ")")
  else assertEvents input none input.events

def nextCheckpoint (input : CommitBatchInput) : IngestionCheckpoint where
  contractId := input.contractId
  lastProcessedLedger := input.throughLedger
  lastEventId := (input.events.getLast?.map LedgerEvent.eventId).getD
    ((input.expected.map IngestionCheckpoint.lastEventId).getD "")

/-- A row of `soroban_event_sync_checkpoints`. -/
structure CheckpointRow where
  contractId : String
  lastLedgerSequence : Int
  lastEventId : String

def rowToCheckpoint (row : CheckpointRow) : IngestionCheckpoint := ⟨row.contractId, row.lastLedgerSequence, row.lastEventId⟩

/-- The tables, and what processors were handed in transactions that were committed. -/
structure Tables where
  rows : List CheckpointRow
  events : List LedgerEvent
  processedIds : List String
  handed : List LedgerEvent

def Tables.empty : Tables := ⟨[], [], [], []⟩

def CheckpointRow.isWatermark (row : CheckpointRow) : Bool := decide (0 < row.lastLedgerSequence)

def Tables.stored (t : Tables) (contractId : String) : Option IngestionCheckpoint :=
  ((lookup CheckpointRow.contractId t.rows contractId).filter CheckpointRow.isWatermark).map rowToCheckpoint

def loadAll (t : Tables) (contractIds : List String) : List IngestionCheckpoint :=
  (t.rows.filter fun row => contractIds.contains row.contractId && row.isWatermark).map rowToCheckpoint

/-- `ON CONFLICT (event_id) DO NOTHING` -/
def upsertEvents (t : Tables) (events : List LedgerEvent) : List LedgerEvent := insertNew LedgerEvent.eventId t.events events

def claimIds (t : Tables) (events : List LedgerEvent) : List String :=
  insertNew id t.processedIds (events.map LedgerEvent.eventId)

def claimEvents (t : Tables) (events : List LedgerEvent) : List LedgerEvent :=
  events.filter fun event => decide (event.eventId ∉ t.processedIds)

def committed (t : Tables) (input : CommitBatchInput) : Tables where
  rows := put CheckpointRow.contractId t.rows ⟨input.contractId, input.throughLedger, (nextCheckpoint input).lastEventId⟩
  events := upsertEvents t input.events
  processedIds := claimIds t input.events
  handed := t.handed ++ claimEvents t input.events

def commitBatch (t : Tables) (input : CommitBatchInput) : Except IngestionError CommitBatchResult × Tables :=
  match assertCommitInput input with
  | .error message => (.error (.other message), t)
  | .ok () =>
    let stored := t.stored input.contractId
    if sameWatermark stored input.expected then (.ok ⟨nextCheckpoint input, claimEvents t input.events⟩, committed t input)
    else (.error (.checkpointConflict input.contractId stored), t)

/-- A batch is committed if the watermark is the expected one and does not go back; else nothing is done. -/
theorem commitBatch_cases (t : Tables) (input : CommitBatchInput) : (∃ e, commitBatch t input = (.error e, t) ∧
      ∀ contractId stored, e = .checkpointConflict contractId stored → stored = t.stored input.contractId) ∨
    commitBatch t input = (.ok ⟨nextCheckpoint input, claimEvents t input.events⟩, committed t input) ∧
      ledgerOf (t.stored input.contractId) = ledgerOf input.expected ∧ ledgerOf input.expected ≤ input.throughLedger := by
  unfold commitBatch
  cases hassert : assertCommitInput input with
  | error message => exact .inl ⟨_, rfl, fun _ _ h => nomatch h⟩
  | ok _ =>
    dsimp only
    split
    · rename_i heq
      refine .inr ⟨rfl, of_decide_eq_true (Bool.and_eq_true_iff.mp heq).1, ?_⟩
      unfold assertCommitInput at hassert
      split at hassert
      · cases hassert
      · omega
    · refine .inl ⟨_, rfl, fun _ _ h => ?_⟩
      cases h
      rfl

/-! ### Ingestion that resumes where it stopped

A worker reads a contract's events window by window, and a window page by page. A page may end within a ledger, so what
it has of its last ledger is carried into the next page, and only complete ledgers are committed. -/
open Delego.Data Delego.Process

/-- The events of all contracts, in order, and the cursor that continues right after each. -/
structure History where
  events : List RpcContractEvent
  cursor : RpcContractEvent → String
  ids : (events.map RpcContractEvent.id).Nodup
  ordered : (events.map toLedgerEvent).Pairwise fun a b => compareLedgerEvents a b < 0
  cursors : (events.map cursor).Nodup
  cursor_ne : ∀ e ∈ events, cursor e ≠ ""

def History.of (history : History) (contractId : String) : List RpcContractEvent :=
  history.events.filter fun e => decide (e.contractId = contractId)

def History.eventsOf (history : History) (contractId : String) : List LedgerEvent := (history.of contractId).map toLedgerEvent

/-- A contract's events from one ledger to another, both included. -/
def History.between (history : History) (contractId : String) (first last : Int) : List LedgerEvent :=
  Data.between LedgerEvent.ledger (history.eventsOf contractId) first last

/-- Ledgers from the first to the last. -/
structure LedgerRange where
  (oldestLedger latestLedger : Int)

structure GetEventsWindowParams where
  contractId : String
  (startLedger endLedger : Int)
  cursor : Option String
  limit : Nat

structure GetEventsWindowResult where
  events : List RpcContractEvent
  cursor : Option String

def History.asked (history : History) (params : GetEventsWindowParams) : List RpcContractEvent :=
  match params.cursor with
  | none => onward RpcContractEvent.ledger (history.of params.contractId) params.startLedger
  | some cursor => after (fun e => decide (history.cursor e = cursor)) (history.of params.contractId)

/-- A page: the events up to the end of the window or beyond it, as many as fit. One that is full has the cursor that
continues right after it. -/
def History.page (history : History) (params : GetEventsWindowParams) (bound : Int) (cursor : Option String) :
    GetEventsWindowResult :=
  let events := pageOf RpcContractEvent.ledger (history.asked params) (max bound params.endLedger) params.limit
  ⟨events, if events.length = params.limit then events.getLast?.map history.cursor else cursor⟩

structure ResumableIngestionConfig where
  contractIds : List String
  (initialLedger windowSize pageSize : Option Int)

structure Config where
  contractIds : List String
  initialLedger : Option Int
  windowSize : Int
  pageSize : Nat
  windowSize_pos : 1 ≤ windowSize
  pageSize_pos : 1 ≤ pageSize

def defaultWindowSize : Int := 1000

def defaultPageSize : Int := 100

def Config.make (config : ResumableIngestionConfig) : Except String Config :=
  let windowSize := config.windowSize.getD defaultWindowSize
  let pageSize := config.pageSize.getD defaultPageSize
  if hwindow : windowSize < 1 then .error "windowSize must be a positive integer"
  else if hpage : pageSize < 1 then .error "pageSize must be a positive integer"
  else if config.contractIds = [] then .error "At least one contractId is required"
  else .ok ⟨config.contractIds.eraseDups, config.initialLedger, windowSize, pageSize.toNat, by omega, by omega⟩

/-! ### Workers -/

inductive ContractSyncState where
  | idle | syncing | halted
  deriving DecidableEq

structure Entry where
  contractId : String
  checkpoint : Option IngestionCheckpoint

structure Status where
  contractId : String
  state : ContractSyncState

/-- What a worker keeps between its steps. -/
structure Memory where
  checkpoints : List Entry
  status : List Status

/-- The tables, and the memory of each worker. -/
structure World where
  tables : Tables
  memory : Nat → Memory

def World.start : World := ⟨.empty, fun _ => ⟨[], []⟩⟩

def Memory.checkpoint (m : Memory) (contractId : String) : Option IngestionCheckpoint :=
  (lookup Entry.contractId m.checkpoints contractId).bind Entry.checkpoint

def Memory.setCheckpoint (m : Memory) (entry : Entry) : Memory :=
  { m with checkpoints := put Entry.contractId m.checkpoints entry }

def Memory.setState (m : Memory) (contractId : String) (state : ContractSyncState) : Memory :=
  { m with status := put Status.contractId m.status ⟨contractId, state⟩ }

def Memory.setLoaded (m : Memory) (entries : List Entry) : Memory :=
  entries.foldl (fun m entry => (m.setCheckpoint entry).setState entry.contractId .idle) m

inductive Op where
  | isStopping (worker : Nat)
  | isEmpty (worker : Nat)
  | getCheckpoint (worker : Nat) (contractId : String)
  | setCheckpoint (worker : Nat) (entry : Entry)
  | getState (worker : Nat) (contractId : String)
  | setState (worker : Nat) (contractId : String) (state : ContractSyncState)
  | setLoaded (worker : Nat) (entries : List Entry)
  | loadAll (contractIds : List String)
  | getLedgerRange
  | getEventsWindow (params : GetEventsWindowParams)
  | commitBatch (input : CommitBatchInput)
  | onCommitted (contractId : String) (events : List LedgerEvent)

@[reducible] def Op.Reply : Op → Type
  | .isStopping _ => Bool
  | .isEmpty _ => Bool
  | .getCheckpoint _ _ => Option IngestionCheckpoint
  | .setCheckpoint _ _ => Unit
  | .getState _ _ => Option ContractSyncState
  | .setState _ _ _ => Unit
  | .setLoaded _ _ => Unit
  | .loadAll _ => List IngestionCheckpoint
  | .getLedgerRange => LedgerRange
  | .getEventsWindow _ => GetEventsWindowResult
  | .commitBatch _ => CommitBatchResult
  | .onCommitted _ _ => Unit

@[reducible] def ingestSignature : Signature := ⟨Op, Op.Reply, IngestionError⟩

abbrev IngestM (α : Type) := Program ingestSignature α

def ingest (o : Op) : IngestM o.Reply := Program.perform (S := ingestSignature) o

/-- What the environment decides: what becomes of an operation, the ledgers that the RPC has, how far beyond a window a page
goes, the cursor of a page that is not full, and whether the worker is to stop. -/
structure Choice where
  fate : Fate
  range : LedgerRange
  bound : Int
  cursor : Option String
  stopping : Bool

def World.remember (w : World) (worker : Nat) (m : Memory) : World := { w with memory := Function.update w.memory worker m }

def answer (history : History) (ch : Choice) (w : World) : (o : Op) → Except IngestionError o.Reply × World
  | .isStopping _ => (.ok ch.stopping, w)
  | .isEmpty worker => (.ok (w.memory worker).checkpoints.isEmpty, w)
  | .getCheckpoint worker contractId => (.ok ((w.memory worker).checkpoint contractId), w)
  | .setCheckpoint worker entry => (.ok (), w.remember worker ((w.memory worker).setCheckpoint entry))
  | .getState worker contractId =>
    (.ok ((lookup Status.contractId (w.memory worker).status contractId).map Status.state), w)
  | .setState worker contractId state => (.ok (), w.remember worker ((w.memory worker).setState contractId state))
  | .setLoaded worker entries => (.ok (), w.remember worker ((w.memory worker).setLoaded entries))
  | .loadAll contractIds => (.ok (loadAll w.tables contractIds), w)
  | .getLedgerRange => (.ok ch.range, w)
  | .getEventsWindow params => (.ok (history.page params ch.bound ch.cursor), w)
  | .commitBatch input =>
    let (result, tables) := commitBatch w.tables input
    (result, { w with tables := tables })
  | .onCommitted _ _ => (.ok (), w)

def Op.isAwaited : Op → Bool
  | .loadAll _ => true
  | .getLedgerRange => true
  | .getEventsWindow _ => true
  | .commitBatch _ => true
  | .onCommitted _ _ => true
  | _ => false

def perform (history : History) (o : Op) (ch : Choice) (w : World) : Except IngestionError o.Reply × World :=
  match ch.fate with
  | .done => answer history ch w o
  | .refused message => if o.isAwaited then (.error (.other message), w) else answer history ch w o
  | .lost message =>
    if o.isAwaited then (.error (.other message), (answer history ch w o).2) else answer history ch w o

/-! ### What a worker does -/

section
variable (config : Config) (worker : Nat)

def comesBefore (a b : LedgerEvent) : Prop := compareLedgerEvents a b ≤ 0

instance : DecidableRel comesBefore := fun a b => inferInstanceAs (Decidable (compareLedgerEvents a b ≤ 0))

/-- One event, followed by what `rest` makes of the others, merged into a list. -/
def mergeFrom (event : LedgerEvent) (rest : List LedgerEvent → List LedgerEvent) : List LedgerEvent → List LedgerEvent
  | [] => event :: rest []
  | b :: bs => if comesBefore event b then event :: rest (b :: bs) else b :: mergeFrom event rest bs

def merge : List LedgerEvent → List LedgerEvent → List LedgerEvent
  | [], b => b
  | event :: a, b => mergeFrom event (merge a) b

def mergeOrdered (a b : List LedgerEvent) : List LedgerEvent := insertNew LedgerEvent.eventId [] (merge a b)

def loadCheckpoints : IngestM Unit := do
  let loaded ← ingest (.loadAll config.contractIds)
  ingest (.setLoaded worker (config.contractIds.map fun contractId =>
    ⟨contractId, lookup IngestionCheckpoint.contractId loaded contractId⟩))

def commit (contractId : String) (throughLedger : Int) (events : List LedgerEvent) : IngestM Nat := do
  let expected ← ingest (.getCheckpoint worker contractId)
  if events = [] ∧ throughLedger ≤ ledgerOf expected then return 0
  else do
    let result ← ingest (.commitBatch ⟨contractId, expected, throughLedger, events⟩)
    ingest (.setCheckpoint worker ⟨contractId, some result.checkpoint⟩)
    if result.processed = [] then return 0
    else do
      -- whatever becomes of the hook
      let _ ← (ingest (.onCommitted contractId result.processed)).attempt
      return result.processed.length

structure PageRead where
  pending : List LedgerEvent
  windowExhausted : Bool

def readPage (contractId : String) (startLedger endLedger : Int) (cursor : Option String) (carry : List LedgerEvent)
    (page : GetEventsWindowResult) : PageRead :=
  let pageEvents := (page.events.map toLedgerEvent).filter fun e =>
    decide (e.contractId = contractId ∧ startLedger ≤ e.ledger)
  let inWindow := (pageEvents.filter fun e => decide (e.ledger ≤ endLedger)).insertionSort comesBefore
  ⟨mergeOrdered carry inWindow,
    decide (page.events.length < config.pageSize) || page.cursor.all (fun cursor => decide (cursor = "")) ||
      decide (page.cursor = cursor) || pageEvents.any fun e => decide (endLedger < e.ledger)⟩

def lastLedger (startLedger : Int) (pending : List LedgerEvent) : Int :=
  (pending.getLast?.map LedgerEvent.ledger).getD startLedger

/-- The loop of `processWindow`, for as many pages; after these it ends as if the RPC had failed. -/
def processPages (contractId : String) (startLedger endLedger : Int) :
    Nat → Option String → List LedgerEvent → Nat → IngestM Nat
  | 0, _, _, _ => .fail (.other "stopped")
  | pages + 1, cursor, carry, processed => do
    let page ← ingest (.getEventsWindow ⟨contractId, startLedger, endLedger, cursor, config.pageSize⟩)
    let read := readPage config contractId startLedger endLedger cursor carry page
    if read.windowExhausted then do
      let count ← commit worker contractId endLedger read.pending
      return processed + count
    else do
      let last := lastLedger startLedger read.pending
      let complete := read.pending.filter fun e => decide (e.ledger < last)
      let carry := read.pending.filter fun e => decide (last ≤ e.ledger)
      let count ← commit worker contractId (last - 1) complete
      processPages contractId startLedger endLedger pages page.cursor carry (processed + count)

def processWindow (pages : Nat) (contractId : String) (startLedger endLedger : Int) : IngestM Nat :=
  processPages config worker contractId startLedger endLedger pages none [] 0

def processWindows (pages : Nat) (contractId : String) (latestLedger : Int) : Nat → Int → Nat → IngestM Nat
  | 0, _, processedTotal => return processedTotal
  | windows + 1, resume, processedTotal => do
    let stopping ← ingest (.isStopping worker)
    if stopping = false ∧ resume ≤ latestLedger then do
      let windowEnd := min (resume + config.windowSize - 1) latestLedger
      let processed ← processWindow config worker pages contractId resume windowEnd
      processWindows pages contractId latestLedger windows (windowEnd + 1) (processedTotal + processed)
    else return processedTotal

def resumeLedger (checkpoint : Option IngestionCheckpoint) (range : LedgerRange) : Int :=
  match checkpoint with
  | some checkpoint => checkpoint.lastProcessedLedger + 1
  | none => config.initialLedger.getD range.oldestLedger

def syncContract (pages : Nat) (contractId : String) (range : LedgerRange) : IngestM Nat := do
  match ← ingest (.getState worker contractId) with
  | none => .fail (.other "Cannot set properties of undefined (setting 'state')")
  | some _ => do
    ingest (.setState worker contractId .syncing)
    let checkpoint ← ingest (.getCheckpoint worker contractId)
    let resume := resumeLedger config checkpoint range
    if resume < range.oldestLedger then .fail (.ledgerRetentionGap contractId resume range.oldestLedger)
    else do
      let processedTotal ← processWindows config worker pages contractId range.latestLedger
        (range.latestLedger + 1 - resume).toNat resume 0
      ingest (.setState worker contractId .idle)
      return processedTotal

def handleContractError (contractId : String) : IngestionError → IngestM Unit
  | .checkpointConflict _ stored => do
    ingest (.setCheckpoint worker ⟨contractId, stored⟩)
    ingest (.setState worker contractId .idle)
  | .ledgerRetentionGap _ _ _ => ingest (.setState worker contractId .halted)
  | .other _ => ingest (.setState worker contractId .idle)

def syncEach (pages : Nat) (range : LedgerRange) : List String → Bool → IngestM Bool
  | [], ok => return ok
  | contractId :: rest, ok => do
    match ← ingest (.getState worker contractId) with
    | none => .fail (.other "Cannot read properties of undefined (reading 'state')")
    | some state =>
      if state = .halted then syncEach pages range rest ok
      else do
        let synced ← Program.tryCatch (do
            let _ ← syncContract config worker pages contractId range
            return true)
          fun e => do
            handleContractError worker contractId e
            return false
        syncEach pages range rest (ok && synced)

def syncOnce (pages : Nat) : IngestM Bool := do
  let isEmpty ← ingest (.isEmpty worker)
  if isEmpty then loadCheckpoints config worker
  let range ← ingest .getLedgerRange
  syncEach config worker pages range config.contractIds true

end

/-- Calls, and how many pages of a window each may read. -/
inductive Call where
  | loadCheckpoints (worker : Nat)
  | syncContract (worker : Nat) (contractId : String) (range : LedgerRange) (pages : Nat)
  | syncOnce (worker : Nat) (pages : Nat)

def Call.body (config : Config) : Call → IngestM Unit
  | .loadCheckpoints worker => Ingestion.loadCheckpoints config worker
  | .syncContract worker contractId range pages => do
    let _ ← Ingestion.syncContract config worker pages contractId range
    return ()
  | .syncOnce worker pages => do
    let _ ← Ingestion.syncOnce config worker pages
    return ()

def system (config : Config) (history : History) : System ingestSignature World where
  Choice := Choice
  Event := Empty
  Call := Call
  perform := perform history
  drift := fun e _ => e.elim
  arrive := fun _ w => some w
  body := Call.body config

end Delego.Ingestion
