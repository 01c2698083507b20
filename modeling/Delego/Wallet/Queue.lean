import Delego.Data.Text
import Delego.Wallet.Sequence
import Delego.Wallet.Spending

/-! Failures of a submission (`wallet/src/queue/submissionFailure.ts`, and `isRpcGatewayTimeout` of
`txQueue.ts`).

A failure is told by the text of its error: by what the text contains, in small letters. -/
namespace Delego.Wallet
open Data (includes toLowerCase)

structure SubmissionFailure where
  (code message : String)
  retryable : Bool
  txHash : Option String := none

def MALFORMED_XDR_PATTERNS : List String :=
  ["malformed xdr", "invalid xdr", "failed to parse xdr", "fromxdr", "xdr decode", "bad xdr"]

def AUTH_FAILURE_PATTERNS : List String :=
  ["auth failure", "authentication failed", "unauthorized", "forbidden", "access denied", "invalid auth tag",
    "decryption failed", "failed to decrypt"]

def RETRYABLE_NETWORK_PATTERNS : List String :=
  ["timeout", "network", "econnrefused", "enotfound", "econnreset", "etimedout", "socket hang up", "fetch failed",
    "rate limit", "429", "500", "502", "503", "504", "temporarily unavailable", "service unavailable"]

def matchesPatterns (message : String) (patterns : List String) : Bool :=
  patterns.any fun pattern => includes (toLowerCase message) pattern

@[irreducible] def classifySubmissionFailure (message : String) (txHash : Option String) : SubmissionFailure :=
  let lower := toLowerCase message
  if matchesPatterns lower MALFORMED_XDR_PATTERNS then ⟨"TX_MALFORMED_XDR", message, false, txHash⟩
  else if matchesPatterns lower AUTH_FAILURE_PATTERNS then ⟨"TX_AUTH_FAILURE", message, false, txHash⟩
  else if includes lower "simulation failed" then ⟨"TX_SIMULATION_FAILED", message, false, txHash⟩
  else if includes lower "tx_bad_seq" || includes lower "bad_seq" then ⟨"TX_SEQUENCE_CONFLICT", message, true, txHash⟩
  else if includes lower "transaction failed" then ⟨"TX_EXECUTION_FAILED", message, false, txHash⟩
  else if includes lower "submission failed" then
    if matchesPatterns lower RETRYABLE_NETWORK_PATTERNS then ⟨"TX_RPC_TRANSIENT", message, true, txHash⟩
    else ⟨"TX_SUBMISSION_REJECTED", message, false, txHash⟩
  else if includes lower "transaction timeout" || includes lower "status untracked" then
    ⟨"TX_POLL_TIMEOUT", message, true, txHash⟩
  else if matchesPatterns lower RETRYABLE_NETWORK_PATTERNS then ⟨"TX_RPC_TRANSIENT", message, true, txHash⟩
  else ⟨"TX_SUBMISSION_UNKNOWN", message, false, txHash⟩

/-! ### Gateway timeouts -/

/-- `\w` -/
def isWordCharacter (c : Char) : Bool := c.isAlphanum || decide (c = '_')

def startsWord (word : List Char) (text : List Char) : Bool :=
  word.isPrefixOf text && (text.drop word.length).head?.all fun c => !isWordCharacter c

/-- `/\b<word>\b/`: the word is in the text, with no word character on either side. -/
def hasWord (word : List Char) : List Char → Bool
  | [] => false
  | c :: rest => hasWord word rest || (!isWordCharacter c && startsWord word rest)

def containsWord (word text : String) : Bool := startsWord word.toList text.toList || hasWord word.toList text.toList

def isRpcGatewayTimeout (status : Option Nat) (message : String) : Bool :=
  decide (status = some 504) || decide (status = some 503) || containsWord "504" message || containsWord "503" message ||
    includes (toLowerCase message) "gateway timeout" || includes (toLowerCase message) "service unavailable"

-- A text with the number in a word is no timeout; a reset connection is none either, and is tried again.
example : isRpcGatewayTimeout none "status 504" = true := by decide
example : isRpcGatewayTimeout none "port 15040" = false := by decide
example : isRpcGatewayTimeout none "timeout" = false := by decide
example : (classifySubmissionFailure "timeout" none).retryable = true := by decide +kernel

/-! ### The transaction queue of the wallet (`wallet/src/queue/txQueue.ts`: `executeTxJob`, `addTransactionToQueue` and what they use)

The worker attempts a job up to five times: it builds a transaction with the next number of the account, sends it, and
polls for what has become of it. An attempt that throws is repeated unless its error is said to be final.

A request comes with its amount as a number. The ledger applies a transaction that it has received at its own time, when
the account is at the number before. A hash stands for what it was computed from. -/
open Delego.Process
open Data (includes)

structure TransactionRequest where
  sourceAddress : String
  (userId walletId delegationId : Option String)
  amountStroops : Option Int

structure TransactionResult where
  hash : String
  ledger : Nat
  success : Bool
  deriving DecidableEq

/-- A signed transaction: of a job and an attempt, with its account and number. -/
structure Envelope where
  (job attempt : Nat)
  account : String
  sequence : Int
  deriving DecidableEq

/-- What a simulation answers. -/
inductive Simulation where
  | success
  | failure (reasons : String)

inductive SendStatus where
  | pending | duplicate | tryAgainLater | error
  deriving DecidableEq

def SendStatus.text : SendStatus → String
  | .pending => "PENDING"
  | .duplicate => "DUPLICATE"
  | .tryAgainLater => "TRY_AGAIN_LATER"
  | .error => "ERROR"

structure SendResponse where
  status : SendStatus
  hash : String
  /-- `JSON.stringify` of it. -/
  text : String

inductive TransactionStatus where
  | success (ledger : Nat)
  | failed (resultXdr : String)
  | notFound

structure WalletRow where
  (id userId stellarAddress : String)

inductive AuditStatus where
  | success | failure

inductive QueueOp where
  | findWallet (stellarAddress : String)
  | findSpendLimit (filter : LimitFilter)
  /-- `MGET` of the three counters. -/
  | spends (userId walletId : String)
  | addJob
  | getKey (address : String)
  /-- Arguments become values of the contract, or are none. -/
  | convertArgs
  | getTransactionFee
  | simulateTransaction (envelope : Envelope)
  /-- The transaction is assembled and signed, and its hash is computed. -/
  | assembleTransaction (envelope : Envelope)
  | sendTransaction (envelope : Envelope)
  | getTransaction (txHash : String)
  /-- The ledger is asked, by way of Horizon. -/
  | lookupTransaction (txHash : String)
  | insertAuditLog (walletId : String) (status : AuditStatus) (txHash : Option String)
  | recordSpend (userId walletId : String) (amount : Int)
  /-- A transaction is known to have succeeded, and is not recorded. -/
  | unrecorded (userId walletId : String) (amount : Int)
  | ended (outcome : Except WalletError TransactionResult)

@[reducible] def QueueOp.Reply : QueueOp → Type
  | .findWallet _ => Option WalletRow
  | .findSpendLimit _ => Option SpendLimit
  | .spends _ _ => Spends
  | .addJob => Nat
  | .getTransactionFee => Nat
  | .simulateTransaction _ => Simulation
  | .assembleTransaction _ => String
  | .sendTransaction _ => SendResponse
  | .getTransaction _ => TransactionStatus
  | _ => Unit

@[reducible] def queueSignature : Signature := sequenceSignature.extend QueueOp QueueOp.Reply

abbrev QueueM := Program queueSignature

def queue (o : QueueOp) : QueueM o.Reply := Program.perform (S := queueSignature) (.inr o)

def numbers {α : Type} (program : SequenceM α) : QueueM α := program.lift

/-! ### One attempt -/

def present (text : Option String) : Option String := text.filter fun s => decide (s ≠ "")

def TransactionRequest.spend (request : TransactionRequest) : Option (String × String × Int) :=
  match present request.userId, present request.walletId, request.amountStroops with
  | some userId, some walletId, some amount => if 0 < amount then some (userId, walletId, amount) else none
  | _, _, _ => none

def audit (request : TransactionRequest) (status : AuditStatus) (txHash : Option String) : QueueM Unit :=
  match present request.walletId with
  | some walletId => do
    let _ ← (queue (.insertAuditLog walletId status txHash)).attempt
    return ()
  | none => return ()

def recordConfirmed (request : TransactionRequest) : QueueM Unit :=
  match request.spend with
  | some (userId, walletId, amount) => do
    let _ ← (queue (.recordSpend userId walletId amount)).attempt
    return ()
  | none => return ()

def passUnrecorded (request : TransactionRequest) : QueueM Unit :=
  match request.spend with
  | some (userId, walletId, amount) => queue (.unrecorded userId walletId amount)
  | none => return ()

def reconcileTimedOutSubmission (txHash : String) : Nat → QueueM (Option TransactionResult)
  | 0 => return none
  | attempts + 1 => do
    let status ← (queue (.getTransaction txHash)).attempt
    match status with
    | .ok (.success ledger) => return some ⟨txHash, ledger, true⟩
    | .ok (.failed _) => return none
    | _ => do
      numbers (seq (.sleep 5000))
      reconcileTimedOutSubmission txHash attempts

/-- Whatever error the ledger's interface answers with, the transaction counts as missing. -/
def verifyLedgerSubmission (txHash : String) : QueueM Bool := do
  let found ← (queue (.lookupTransaction txHash)).attempt
  match found with
  | .ok _ => return true
  | .error _ => return false

def mentionsBadSequence (text : String) : Bool := includes text "tx_bad_seq" || includes text "bad_seq"

def resetOnBadSequence (next : NextSequence) (text : String) : QueueM Unit :=
  if mentionsBadSequence text then numbers next.reset else return ()

def pollTransaction (request : TransactionRequest) (next : NextSequence) (response : SendResponse) :
    Nat → QueueM TransactionResult
  | 0 => do
    let isConfirmed ← verifyLedgerSubmission response.hash
    if isConfirmed then do
      passUnrecorded request
      audit request .success (some response.hash)
      return ⟨response.hash, 0, true⟩
    else .fail { message := s!"Transaction timeout or status untracked: {response.status.text}" }
  | retries + 1 => do
    numbers (seq (.sleep 5000))
    let status ← (queue (.getTransaction response.hash)).attempt
    match status with
    | .error e => if isRpcGatewayTimeout e.status e.message then pollTransaction request next response retries else .fail e
    | .ok (.success ledger) => do
      recordConfirmed request
      audit request .success (some response.hash)
      return ⟨response.hash, ledger, true⟩
    | .ok (.failed resultXdr) => do
      resetOnBadSequence next resultXdr
      .fail { message := s!"Transaction failed: {resultXdr}" }
    | .ok .notFound => pollTransaction request next response retries

/-- A gateway that timed out may have let the transaction through: its status is asked for. -/
def reconcile (request : TransactionRequest) (txHash : String) (e : WalletError) : QueueM TransactionResult := do
  let reconciled ← reconcileTimedOutSubmission txHash 6
  match reconciled with
  | some result => do
    passUnrecorded request
    audit request .success (some txHash)
    return result
  | none =>
    let text := e.message
    .fail { message :=
      s!"Submission failed: RPC gateway timeout (504/503) and transaction not found on-chain: {text}" }

def sendAndConfirm (request : TransactionRequest) (next : NextSequence) (envelope : Envelope) (txHash : String) :
    QueueM TransactionResult := do
  let sent ← (queue (.sendTransaction envelope)).attempt
  match sent with
  | .error e => if isRpcGatewayTimeout e.status e.message then reconcile request txHash e else .fail e
  | .ok response =>
    if response.status = .error then do
      resetOnBadSequence next response.text
      .fail { message := s!"Submission failed: {response.text}" }
    else pollTransaction request next response 12

def buildAndSend (job : Nat) (request : TransactionRequest) (attempt : Nat) (next : NextSequence) :
    QueueM TransactionResult := do
  queue .convertArgs
  let _ ← queue .getTransactionFee
  let envelope : Envelope := ⟨job, attempt, request.sourceAddress, next.carried⟩
  let simulation ← queue (.simulateTransaction envelope)
  match simulation with
  | .failure reasons => .fail { message := s!"Transaction simulation failed: {reasons}" }
  | .success => do
    let txHash ← queue (.assembleTransaction envelope)
    sendAndConfirm request next envelope txHash

def SubmissionFailure.thrown (failure : SubmissionFailure) : WalletError :=
  if failure.retryable then { message := failure.message }
  else { message := s!"{failure.code}: {failure.message}", unrecoverable := true }

def failSubmission (request : TransactionRequest) (e : WalletError) : QueueM TransactionResult := do
  let failure := classifySubmissionFailure e.message none
  if failure.retryable then pure () else audit request .failure none
  .fail failure.thrown

def executeTxJob (job : Nat) (request : TransactionRequest) (attempt : Nat) : QueueM TransactionResult := do
  queue (.getKey request.sourceAddress)
  let next ← numbers (getNextSequenceNumber request.sourceAddress attempt)
  (buildAndSend job request attempt next).tryCatch (failSubmission request)

def runAttempts (job : Nat) (request : TransactionRequest) : Nat → Nat → QueueM TransactionResult
  | 0, attempt => executeTxJob job request attempt
  | left + 1, attempt => do
    let outcome ← (executeTxJob job request attempt).attempt
    match outcome with
    | .ok result => return result
    | .error e =>
      if e.unrecoverable then .fail e
      else do
        numbers (seq (.sleep (2000 * 2 ^ (attempt - 1))))
        runAttempts job request left (attempt + 1)

def processJob (job : Nat) (request : TransactionRequest) : QueueM TransactionResult := runAttempts job request 4 1

/-- The first of the filters that selects a limit. -/
def findFirst : List LimitFilter → QueueM (Option SpendLimit)
  | [] => return none
  | filter :: rest => do
    let config ← queue (.findSpendLimit filter)
    match config with
    | some config => return some config
    | none => findFirst rest

def limitFilters (userId walletId : String) (delegationId : Option String) : List LimitFilter :=
  let delegationId := present delegationId
  [{ userId := some userId, walletId := some (present (some walletId)), delegationId := some delegationId }] ++
    (delegationId.toList.map fun delegationId => { delegationId := some (some delegationId) }) ++
    ((present (some walletId)).toList.map fun walletId =>
      { walletId := some (some walletId), delegationId := some none }) ++
    [{ userId := some userId, walletId := some none, delegationId := some none }]

def checkSpendLimit (userId walletId : String) (delegationId : Option String) (amount : Int) :
    QueueM SpendCheckResult := do
  let config ← findFirst (limitFilters userId walletId delegationId)
  match config with
  | none => return { allowed := true }
  | some config =>
    match checkPerTransaction config amount with
    | some result => return result
    | none => do
      let spends ← queue (.spends userId walletId)
      return checkSpends config spends amount

def identify (request : TransactionRequest) : QueueM (Option String × Option String) :=
  let userId := present request.userId
  let walletId := present request.walletId
  if userId.isSome && walletId.isSome then return (userId, walletId)
  else do
    let found ← (queue (.findWallet request.sourceAddress)).attempt
    match found with
    | .ok (some wallet) => return (userId.or (some wallet.userId), walletId.or (some wallet.id))
    | _ => return (userId, walletId)

def enqueue (request : TransactionRequest) : QueueM TransactionResult := do
  let job ← queue .addJob
  processJob job request

def checkAndEnqueue (request : TransactionRequest) (userId walletId : String) : QueueM TransactionResult := do
  let amount := request.amountStroops.getD 0
  let outcome ← (checkSpendLimit userId walletId request.delegationId amount).attempt
  match outcome with
  | .ok result =>
    if result.allowed then
      enqueue { request with userId := some userId, walletId := some walletId, amountStroops := some amount }
    else
      let reason := (present result.reason).getD "limit exceeded"
      .fail { message := s!"Spending limit exceeded: {reason}" }
  | .error e => if includes e.message "Spending limit exceeded" then .fail e else enqueue request

structure Settings where
  sizeBytes : TransactionRequest → Nat
  maxBytes : Nat

def addTransactionToQueue (cfg : Settings) (request : TransactionRequest) : QueueM TransactionResult :=
  let sizeBytes := cfg.sizeBytes request
  let maxBytes := cfg.maxBytes
  if maxBytes < sizeBytes then
    .fail { message := s!"Payload too large: {sizeBytes} bytes exceeds limit of {maxBytes} bytes" }
  else do
    let found ← identify request
    match found with
    | (some userId, some walletId) => checkAndEnqueue request userId walletId
    | _ => enqueue request

/-! ### Calls that interleave -/

/-- A spend that is known to have succeeded, and when. -/
structure Confirmed where
  (userId walletId : String)
  (amount time : Int)

structure QueueState where
  sequences : SequenceState
  /-- What has reached the network, the latest first. -/
  (submitted applied : List Envelope)
  jobs : Nat
  counters : Counters
  limits : List SpendLimit
  wallets : List WalletRow
  confirmed : List Confirmed

/-- What the environment decides about an operation, and what the network answers. -/
structure QueueChoice where
  fate : Fate := .done
  status : Option Nat := none
  fee : Nat := 100
  simulation : Simulation := .success
  txHash : String := "hash"
  response : SendResponse := ⟨.pending, "hash", "PENDING"⟩
  found : TransactionStatus := .notFound

namespace QueueState
variable (w : QueueState)

def now : Int := w.sequences.clock

def ledger (account : String) : Int := w.sequences.ledger account

def confirm (userId walletId : String) (amount : Int) : QueueState :=
  { w with confirmed := ⟨userId, walletId, amount, w.now⟩ :: w.confirmed }

def receive (envelope : Envelope) (status : SendStatus) : QueueState :=
  if status = .pending ∨ status = .duplicate then { w with submitted := envelope :: w.submitted } else w

end QueueState

def QueueOp.local : QueueOp → Bool
  | .unrecorded _ _ _ => true
  | .ended _ => true
  | _ => false

def answerQueue (o : QueueOp) (ch : QueueChoice) (w : QueueState) : o.Reply × QueueState :=
  match o with
  | .findWallet stellarAddress => (w.wallets.find? fun wallet => decide (wallet.stellarAddress = stellarAddress), w)
  | .findSpendLimit filter => (w.limits.find? filter.selects, w)
  | .spends userId walletId => (readSpends w.counters w.now userId walletId, w)
  | .addJob => (w.jobs, { w with jobs := w.jobs + 1 })
  | .getKey _ => ((), w)
  | .convertArgs => ((), w)
  | .getTransactionFee => (ch.fee, w)
  | .simulateTransaction _ => (ch.simulation, w)
  | .assembleTransaction _ => (ch.txHash, w)
  | .sendTransaction envelope => (ch.response, w.receive envelope ch.response.status)
  | .getTransaction _ => (ch.found, w)
  | .lookupTransaction _ => ((), w)
  | .insertAuditLog _ _ _ => ((), w)
  | .recordSpend userId walletId amount => ((), { w with counters := recordSpend w.counters w.now userId walletId amount })
  | .unrecorded _ _ _ => ((), w)
  | .ended _ => ((), w)

def QueueOp.confirms (o : QueueOp) (w : QueueState) : QueueState :=
  match o with
  | .recordSpend userId walletId amount => w.confirm userId walletId amount
  | .unrecorded userId walletId amount => w.confirm userId walletId amount
  | _ => w

def performQueue (o : queueSignature.Op) (ch : QueueChoice) (w : QueueState) : queueSignature.Result o × QueueState :=
  match o with
  | .inl o =>
    let answer := performSeq o ⟨ch.fate, ch.status⟩ w.sequences
    (answer.1, { w with sequences := answer.2 })
  | .inr o =>
    let w' := o.confirms w
    carryOut (if o.local then Fate.done else ch.fate) ch.status (answerQueue o ch w') w'

inductive QueueEvent where
  | sequence (e : SeqEvent)
  /-- The ledger applies a transaction that it has received. -/
  | apply (envelope : Envelope)

def QueueState.applicable (w : QueueState) (envelope : Envelope) : Bool :=
  decide (envelope ∈ w.submitted) && decide (envelope.sequence = w.ledger envelope.account + 1)

def driftQueue (e : QueueEvent) (w : QueueState) : QueueState :=
  match e with
  | .sequence e => { w with sequences := driftSeq e w.sequences }
  | .apply envelope =>
    if w.applicable envelope then
      { w with
        sequences := driftSeq (.advance envelope.account) w.sequences
        applied := envelope :: w.applied }
    else w

inductive QueueCall where
  | submit (request : TransactionRequest)
  /-- A call of the sequence numbers by another part of the service. -/
  | sequence (c : SeqCall)

def QueueCall.body (cfg : Settings) : QueueCall → QueueM Unit
  | .submit request => do
    let outcome ← (addTransactionToQueue cfg request).attempt
    queue (.ended outcome)
  | .sequence c => numbers c.body

def transactions (cfg : Settings) : System queueSignature QueueState where
  Choice := QueueChoice
  Event := QueueEvent
  Call := QueueCall
  perform := performQueue
  drift := driftQueue
  arrive := fun _ w => some w
  body := QueueCall.body cfg

abbrev QueuePool := Pool queueSignature QueueState

abbrev QueueTrace := List (Entry queueSignature)

def QueueState.empty (ledger : String → Int) (limits : List SpendLimit) : QueueState where
  sequences := .empty ledger
  submitted := []
  applied := []
  jobs := 0
  counters := ∅
  limits := limits
  wallets := []
  confirmed := []

end Delego.Wallet
