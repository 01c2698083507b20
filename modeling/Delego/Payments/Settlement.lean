import Delego.Payments.Services

/-! Order-level settlement (`payments/settlement/index.ts`): `settleOrder` and
`refundOrder`, as the orchestrator's compensation calls them.

The two are one function of the direction in which the escrow goes
(`Direction.settle`). The status of the payment record is read first and written
last; in between stands the call of the escrow service, which is one operation here,
with its circuit breaker and its retries. -/
namespace Delego.Settlement
open Delego.Process Delego.Data
open Delego.Payments (PaymentRecord PaymentRecordStatus PaymentRecordUpdate updateWhere findPaymentRecordByOrderId)

inductive RefundReasonCode where
  | timeout | buyerCancelled | merchantCancelled | disputeBuyer | systemError

inductive PaymentEventType where
  | escrowReleased | escrowRefunded

structure PaymentEvent where
  type : PaymentEventType
  (orderId escrowId txHash : String)
  reasonCode : Option RefundReasonCode

inductive EscrowOperation where
  | release
  | refund (refundReasonCode : RefundReasonCode)

structure EscrowOperationResult where
  success : Bool
  txHash : String

inductive Op where
  | findPaymentRecordByOrderId (orderId : String)
  /-- `escrowService.release` or `escrowService.refund` -/
  | escrowService (operation : EscrowOperation) (sourceAddress escrowId : String)
  | updatePaymentRecord (id : String) (update : PaymentRecordUpdate)
  | publishPaymentEvent (event : PaymentEvent)

@[reducible] def Op.Reply : Op → Type
  | .findPaymentRecordByOrderId _ => Option PaymentRecord
  | .escrowService _ _ _ => EscrowOperationResult
  | .updatePaymentRecord _ _ => PaymentRecord
  | .publishPaymentEvent _ => Unit

@[reducible] def settlementSignature : Signature := ⟨Op, Op.Reply, String⟩

abbrev SettlementM := Program settlementSignature

structure World where
  records : List PaymentRecord

inductive Choice where
  | normal
  /-- The store, the escrow service or the publisher throws. -/
  | fault (message : String)
  | answered (success : Bool) (txHash : String)

def fallible {α : Type} (ch : Choice) (w : World) (answer : Except String α × World) : Except String α × World :=
  match ch with
  | .fault message => (.error message, w)
  | _ => answer

def perform (o : Op) (ch : Choice) (w : World) : Except String o.Reply × World :=
  match o with
  | .findPaymentRecordByOrderId orderId => fallible ch w (.ok (findPaymentRecordByOrderId orderId w.records), w)
  | .escrowService _ _ _ =>
    (match ch with
      | .answered success txHash => .ok ⟨success, txHash⟩
      | .fault message => .error message
      -- a call that gets no answer is lost
      | .normal => .error "", w)
  | .updatePaymentRecord id update =>
    fallible ch w <| match lookup PaymentRecord.id w.records id with
      | some record => (.ok (update.apply record), ⟨updateWhere id update.apply w.records⟩)
      | none => (.error s!"Payment record not found: {id}", w)
  | .publishPaymentEvent _ => fallible ch w (.ok (), w)

def op (o : Op) : SettlementM o.Reply := Program.perform (S := settlementSignature) o

def raise {α : Type} (message : String) : SettlementM α := .fail message

structure Settings where
  conv : Conversions
  SETTLEMENT_SOURCE_ADDRESS : Option String

inductive SettlementOutcomeStatus where
  | released | refunded | failed | noEscrow
  deriving DecidableEq

structure SettlementOutcome where
  orderId : String
  escrowId : Option String
  status : SettlementOutcomeStatus
  txHash : Option String
  /-- This call found the escrow already in the target terminal state. -/
  alreadySettled : Bool
  reason : Option String := none

/-- A record with the escrow that was funded for it. -/
def fundedEscrow (record : PaymentRecord) : Option (PaymentRecord × String) :=
  (record.escrowId.filter fun escrowId => decide (escrowId ≠ "")).map fun escrowId => (record, escrowId)

structure Direction where
  operation : EscrowOperation
  /-- The status aimed at, and the one that forbids it. -/
  (status opposite : PaymentRecordStatus)
  outcome : SettlementOutcomeStatus
  txHash : PaymentRecord → Option String
  setTxHash : String → PaymentRecordUpdate
  /-- The reason given when the escrow went the other way. -/
  refusal : String → String
  failureReason : String
  event : PaymentEventType
  reasonCode : Option RefundReasonCode

namespace Direction
variable (dir : Direction)

def failure (orderId escrowId : String) (txHash : Option String) (reason : String) : SettlementOutcome :=
  { orderId := orderId, escrowId := some escrowId, status := .failed, txHash := txHash, alreadySettled := false
    reason := some reason }

/-- The body of the `try`. -/
def submit (orderId escrowId sourceAddress : String) (record : PaymentRecord) :
    SettlementM SettlementOutcome := do
  let result ← op (.escrowService dir.operation sourceAddress escrowId)
  if !result.success then do
    let _ ← op (.updatePaymentRecord record.id { status := some .failed, failureReason := some (some dir.failureReason) })
    return failure orderId escrowId (some result.txHash) dir.failureReason
  else do
    let _ ← op (.updatePaymentRecord record.id
      {dir.setTxHash result.txHash with status := some dir.status, failureReason := some none})
    -- an event that cannot be published is logged
    let _ ← (op (.publishPaymentEvent
      { type := dir.event, orderId := orderId, escrowId := escrowId, txHash := result.txHash
        reasonCode := dir.reasonCode })).attempt
    return {
      orderId := orderId
      escrowId := some escrowId
      status := dir.outcome
      txHash := some result.txHash
      alreadySettled := false }

def settleRecord (cfg : Settings) (orderId escrowId : String) (record : PaymentRecord) :
    SettlementM SettlementOutcome :=
  if record.status = dir.status then
    return {
      orderId := orderId
      escrowId := some escrowId
      status := dir.outcome
      txHash := dir.txHash record
      alreadySettled := true }
  else if record.status = dir.opposite then return failure orderId escrowId none (dir.refusal orderId)
  else match cfg.SETTLEMENT_SOURCE_ADDRESS.filter fun address => decide (address ≠ "") with
    | none => raise "SETTLEMENT_SOURCE_ADDRESS environment variable is not configured"
    | some sourceAddress =>
      (dir.submit orderId escrowId sourceAddress record).tryCatch fun message => do
        -- `.catch(() => {})`
        let _ ← (op (.updatePaymentRecord record.id
          { status := some .failed, failureReason := some (some message) })).attempt
        return failure orderId escrowId none message

def settle (cfg : Settings) (orderId : String) : SettlementM SettlementOutcome := do
  let trimmedOrderId := cfg.conv.trim orderId
  if trimmedOrderId = "" then raise "orderId is required"
  else do
    let record ← op (.findPaymentRecordByOrderId trimmedOrderId)
    match record.bind fundedEscrow with
    | some (record, escrowId) => dir.settleRecord cfg trimmedOrderId escrowId record
    | none => return {
        orderId := trimmedOrderId
        escrowId := record.bind PaymentRecord.escrowId
        status := .noEscrow
        txHash := none
        alreadySettled := false
        reason := some "No funded escrow found for order" }

end Direction

def settleOrder (cfg : Settings) (orderId : String) : SettlementM SettlementOutcome :=
  Direction.settle
    { operation := .release, status := .released, opposite := .refunded, outcome := .released
      txHash := PaymentRecord.releaseTxHash
      setTxHash := fun txHash => { releaseTxHash := some (some txHash) }
      refusal := fun orderId => s!"Cannot release order {orderId}: escrow was already refunded"
      failureReason := "Release transaction failed on-chain", event := .escrowReleased
      reasonCode := none } cfg orderId

def refundOrder (cfg : Settings) (orderId : String)
    (reasonCode : RefundReasonCode := .systemError) : SettlementM SettlementOutcome :=
  Direction.settle
    { operation := .refund reasonCode, status := .refunded, opposite := .released, outcome := .refunded
      txHash := PaymentRecord.refundTxHash
      setTxHash := fun txHash => { refundTxHash := some (some txHash) }
      refusal := fun orderId => s!"Cannot refund order {orderId}: escrow was already released"
      failureReason := "Refund transaction failed on-chain", event := .escrowRefunded
      reasonCode := some reasonCode } cfg orderId

inductive Call where
  | settleOrder (orderId : String)
  | refundOrder (orderId : String) (reasonCode : RefundReasonCode)

def discard {α : Type} (p : SettlementM α) : SettlementM Unit := do
  let _ ← p
  return ()

def body (cfg : Settings) : Call → SettlementM Unit
  | .settleOrder orderId => discard (settleOrder cfg orderId)
  | .refundOrder orderId reasonCode => discard (refundOrder cfg orderId reasonCode)

/-- Any number of calls for any orders; the world does nothing on its own. -/
def system (cfg : Settings) : System settlementSignature World where
  Choice := Choice
  Event := Empty
  Call := Call
  perform := perform
  drift := fun e _ => e.elim
  arrive := fun _ w => some w
  body := body cfg

abbrev SettlementPool := Pool settlementSignature World

abbrev SettlementTrace := List (Entry settlementSignature)

end Delego.Settlement
