import Delego.Data.Text
import Delego.Data.Table
import Delego.Process.Pool

/-! Payment records, disputes and the chain (`payments/src/escrowCoordinator/types.ts`,
`paymentRecordStore.ts`, `payments/src/disputes/types.ts`).

The three amounts of a payment record are `BIGINT` columns, read as decimal strings
and turned into integers wherever they are used; they are integers here. The amount of
a request stays the string it is. Tax columns and timestamps are left out: nothing here
reads them. -/
namespace Delego.Payments
open Delego.Data

inductive PaymentRecordStatus where
  | pending | funded | released | refunded | disputed | failed
  deriving DecidableEq

/-- A row of `payment_records`. -/
structure PaymentRecord where
  (id orderId : String)
  escrowId : Option String
  (buyerAddress sellerAddress : String)
  amountStroops : Int
  status : PaymentRecordStatus
  (releaseTxHash refundTxHash disputeTxHash : Option String)
  /-- Cumulative amount released to the seller so far. -/
  releasedAmountStroops : Int
  /-- Cumulative amount refunded to the buyer so far. -/
  refundedAmountStroops : Int
  failureReason : Option String
  deriving DecidableEq

/-- Escrow balance still available for release/refund: total - released - refunded. -/
def computeRemaining (record : PaymentRecord) : Int :=
  record.amountStroops - record.releasedAmountStroops - record.refundedAmountStroops

/-! ### The payment record store -/

/-- The columns an update sets; a column that may be null is set to a value or to null. -/
structure PaymentRecordUpdate where
  status : Option PaymentRecordStatus := none
  releaseTxHash : Option (Option String) := none
  refundTxHash : Option (Option String) := none
  disputeTxHash : Option (Option String) := none
  failureReason : Option (Option String) := none

def PaymentRecordUpdate.apply (update : PaymentRecordUpdate) (record : PaymentRecord) : PaymentRecord :=
  { record with
    status := update.status.getD record.status
    releaseTxHash := update.releaseTxHash.getD record.releaseTxHash
    refundTxHash := update.refundTxHash.getD record.refundTxHash
    disputeTxHash := update.disputeTxHash.getD record.disputeTxHash
    failureReason := update.failureReason.getD record.failureReason }

structure PaymentRecordAmountDelta where
  releasedDelta : Option Int := none
  refundedDelta : Option Int := none
  /-- Status to set alongside the increment. -/
  status : Option PaymentRecordStatus := none

/-- `SET col = col + $delta`, in one statement with the status. -/
def PaymentRecordAmountDelta.apply (delta : PaymentRecordAmountDelta) (record : PaymentRecord) :
    PaymentRecord :=
  { record with
    releasedAmountStroops := record.releasedAmountStroops + delta.releasedDelta.getD 0
    refundedAmountStroops := record.refundedAmountStroops + delta.refundedDelta.getD 0
    status := delta.status.getD record.status }

/-- `UPDATE payment_records SET .. WHERE id = $1` -/
def updateWhere (id : String) (set : PaymentRecord → PaymentRecord) (records : List PaymentRecord) :
    List PaymentRecord :=
  records.map fun record => if record.id = id then set record else record

def findPaymentRecordByEscrowId (escrowId : String) (records : List PaymentRecord) :
    Option PaymentRecord :=
  lookup PaymentRecord.escrowId records (some escrowId)

def findPaymentRecordByOrderId (orderId : String) (records : List PaymentRecord) :
    Option PaymentRecord :=
  lookup PaymentRecord.orderId records orderId

theorem lookup_updateWhere {κ : Type} [DecidableEq κ] {key : PaymentRecord → κ} {id : String}
    {set : PaymentRecord → PaymentRecord} (hkey : ∀ record, key (set record) = key record)
    (records : List PaymentRecord) (k : κ) :
    lookup key (updateWhere id set records) k =
      (lookup key records k).map fun record => if record.id = id then set record else record := by
  induction records with
  | nil => rfl
  | cons record rest ih =>
    have heq : key (if record.id = id then set record else record) = key record := by
      split
      · exact hkey record
      · rfl
    have hcons : updateWhere id set (record :: rest) =
        (if record.id = id then set record else record) :: updateWhere id set rest := rfl
    rw [hcons, lookup_cons, lookup_cons, heq, ih]
    split <;> rfl

inductive DisputeStatus where
  | open | evidenceCollection | negotiation | merchantResponded | decided | resolved
  deriving DecidableEq

inductive ResolutionType where
  | fullRefund | partialRefund | releaseToSeller | split
  deriving DecidableEq

structure DisputeResolution where
  type : ResolutionType
  (buyerAmount sellerAmount decidedBy : String)
  deriving DecidableEq

structure Dispute where
  (id escrowId : String)
  mediator : Option String
  status : DisputeStatus
  resolution : Option DisputeResolution

structure DisputeUpdate where
  status : Option DisputeStatus := none
  /-- Kept in a column that nothing reads back. -/
  resolutionError : Option (Option String) := none

def DisputeUpdate.apply (update : DisputeUpdate) (dispute : Dispute) : Dispute :=
  { dispute with status := update.status.getD dispute.status }

/-- An escrow as the contract has it. -/
structure ChainEscrow where
  (amount toBuyer toSeller : Int)

def ChainEscrow.paid (escrow : ChainEscrow) : Int := escrow.toBuyer + escrow.toSeller

/-- Whatever of the amount has not been paid yet. -/
def ChainEscrow.unpaid (escrow : ChainEscrow) : Int := max 0 (escrow.amount - escrow.paid)

inductive ContractMethod where
  | release | refund | dispute | partialRefund | partialRelease

structure TransactionRequest where
  (sourceAddress contractId : String)
  method : ContractMethod
  escrowId : Nat
  /-- The last argument of a partial payout. -/
  amount : Int := 0
  memo : String

structure TransactionResult where
  success : Bool
  hash : String
  ledger : Nat

def ChainEscrow.invoke (escrow : ChainEscrow) (request : TransactionRequest) : ChainEscrow :=
  match request.method with
  | .release => { escrow with toSeller := escrow.toSeller + escrow.unpaid }
  | .refund => { escrow with toBuyer := escrow.toBuyer + escrow.unpaid }
  | .dispute => escrow
  | .partialRefund => { escrow with toBuyer := escrow.toBuyer + request.amount }
  | .partialRelease => { escrow with toSeller := escrow.toSeller + request.amount }

inductive PaymentError where
  | insufficientBalance (escrowId remainingAmount requestedAmount : String)
  | other (message : String)

def PaymentError.message : PaymentError → String
  | .insufficientBalance escrowId remaining requested =>
    s!"Escrow {escrowId} has {remaining} stroops remaining; requested {requested} exceeds the available balance"
  | .other message => message

/-! ### What the escrow coordinator and the dispute mediation await: the payment record store, the dispute store, the contract client and the event publishers

The chain and the stores make up the world. The environment decides whether a
contract call is applied, rejected on chain, or lost before it gets there, whether
a store or the publisher can be reached, and whether the answer of an operation
arrives. The audit log and the party
notifications swallow their own errors. -/
open Delego.Process Delego.Data

inductive PaymentStatusChannel where
  | released | refunded | disputed | partialReleased | partialRefunded | failed

structure PaymentStatusEvent where
  channel : PaymentStatusChannel
  orderId : String
  (escrowId txHash : Option String)
  status : PaymentRecordStatus
  reason : Option String

inductive DisputeEventType where
  | disputeResolved | disputeResolutionFailed | disputeStatusChanged

/-- An entry of the audit log, or what the parties are told. -/
structure DisputeEvent where
  type : DisputeEventType
  (disputeId escrowId : String)
  status : Option DisputeStatus := none
  mediator : Option String := none
  resolution : Option DisputeResolution := none
  error : Option String := none
  buyerTx : Option String := none
  sellerTx : Option String := none

inductive Op where
  | findPaymentRecordByEscrowId (escrowId : String)
  | updatePaymentRecord (id : String) (update : PaymentRecordUpdate)
  | incrementPaymentRecordAmounts (id : String) (delta : PaymentRecordAmountDelta)
  | submitContractInvocation (request : TransactionRequest)
  | sleep (ms : Nat)
  | publishPaymentStatusEvent (event : PaymentStatusEvent)
  | findDispute (id : String)
  | updateDispute (id : String) (update : DisputeUpdate)
  | recordAuditEvent (entry : DisputeEvent)
  | notifyDisputeParties (orderId : String) (event : DisputeEvent)
  | recordDisputeOutcome (buyerAddress sellerAddress buyerAmount sellerAmount : String)

@[reducible] def Op.Reply : Op → Type
  | .findPaymentRecordByEscrowId _ => Option PaymentRecord
  | .updatePaymentRecord _ _ => PaymentRecord
  | .incrementPaymentRecordAmounts _ _ => PaymentRecord
  | .submitContractInvocation _ => TransactionResult
  | .findDispute _ => Option Dispute
  | .updateDispute _ _ => Dispute
  | _ => Unit

@[reducible] def paymentSignature : Signature := ⟨Op, Op.Reply, PaymentError⟩

abbrev PaymentM := Program paymentSignature

structure World where
  records : List PaymentRecord
  disputes : List Dispute := []
  chain : Nat → ChainEscrow

/-- What the environment decides about one operation; `normal` where it has no say. -/
inductive Choice where
  | normal
  /-- The service cannot be reached; nothing happens. -/
  | fault (message : String)
  /-- A contract call that succeeds on chain. -/
  | applied (hash : String) (ledger : Nat)
  /-- A contract call that the chain rejects. -/
  | rejected (hash : String) (ledger : Nat)
  /-- The operation is carried out, a contract call on chain, but its answer is lost: the
  caller gets an error. -/
  | unanswered (message : String)

def World.setRecord (w : World) (id : String) (set : PaymentRecord → PaymentRecord) : World :=
  {w with records := updateWhere id set w.records}

def World.setEscrow (w : World) (id : Nat) (escrow : ChainEscrow) : World :=
  {w with chain := Function.update w.chain id escrow}

/-- `UPDATE .. WHERE id = $1 RETURNING *` -/
def updateReturning (id : String) (set : PaymentRecord → PaymentRecord) (w : World) :
    Except PaymentError PaymentRecord × World :=
  match lookup PaymentRecord.id w.records id with
  | some record => (.ok (set record), w.setRecord id set)
  | none => (.error (.other s!"Payment record not found: {id}"), w)

def invokeChain (request : TransactionRequest) (ch : Choice) (w : World) :
    Except PaymentError TransactionResult × World :=
  match ch with
  | .applied hash ledger =>
    (.ok ⟨true, hash, ledger⟩, w.setEscrow request.escrowId ((w.chain request.escrowId).invoke request))
  | .rejected hash ledger => (.ok ⟨false, hash, ledger⟩, w)
  | .unanswered message =>
    (.error (.other message), w.setEscrow request.escrowId ((w.chain request.escrowId).invoke request))
  | .fault message => (.error (.other message), w)
  -- a call that gets no answer is lost
  | .normal => (.error (.other ""), w)

/-- An operation that fails when its service cannot be reached, without effect, or when the
answer is lost. -/
def fallible {α : Type} (ch : Choice) (w : World) (answer : Except PaymentError α × World) :
    Except PaymentError α × World :=
  match ch with
  | .fault message => (.error (.other message), w)
  | .unanswered message => (.error (.other message), answer.2)
  | _ => answer

def perform (o : Op) (ch : Choice) (w : World) : Except PaymentError o.Reply × World :=
  match o with
  | .findPaymentRecordByEscrowId escrowId => fallible ch w (.ok (findPaymentRecordByEscrowId escrowId w.records), w)
  | .updatePaymentRecord id update => fallible ch w (updateReturning id update.apply w)
  | .incrementPaymentRecordAmounts id delta => fallible ch w (updateReturning id delta.apply w)
  | .submitContractInvocation request => invokeChain request ch w
  | .sleep _ => (.ok (), w)
  | .publishPaymentStatusEvent _ => fallible ch w (.ok (), w)
  | .findDispute id => fallible ch w (.ok (lookup Dispute.id w.disputes id), w)
  | .updateDispute id update =>
    fallible ch w <| match lookup Dispute.id w.disputes id with
      | some dispute =>
        (.ok (update.apply dispute), {w with disputes := replace Dispute.id w.disputes (update.apply dispute)})
      | none => (.error (.other s!"Dispute not found: {id}"), w)
  | .recordAuditEvent _ => (.ok (), w)
  | .notifyDisputeParties _ _ => (.ok (), w)
  | .recordDisputeOutcome _ _ _ _ => fallible ch w (.ok (), w)

def op (o : Op) : PaymentM o.Reply := Program.perform (S := paymentSignature) o

def raise {α : Type} (message : String) : PaymentM α := .fail (.other message)

end Delego.Payments
