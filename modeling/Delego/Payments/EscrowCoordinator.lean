import Delego.Payments.Services

/-! The escrow coordinator (`payments/src/escrowCoordinator/index.ts`) from
`releaseEscrow` on, with the retry of contract calls (`contractInvocationRetry.ts`,
`autoRelease/retry.ts`).

`releaseEscrow`, `refundEscrow` and `disputeEscrow` are one function of their method,
status and texts (`invokeEscrow`); so are the two partial payouts, of the party paid
(`partialPayout`). A full payout shows in the record's status only, a partial one in
its counters. -/
namespace Delego.Payments
open Delego.Process Delego.Data

def TRANSIENT_NETWORK_PATTERNS : List String :=
  ["timeout", "timed out", "network", "econnrefused", "econnreset", "econnaborted", "epipe",
    "enotfound", "eai_again", "socket hang up", "socket closed", "connection reset",
    "connection refused", "fetch failed", "failed to fetch", "rate limit", "too many requests",
    "429", "500", "502", "503", "504", "temporarily unavailable", "service unavailable",
    "wallet service unavailable"]

def isTransientNetworkError (err : PaymentError) : Bool :=
  TRANSIENT_NETWORK_PATTERNS.any fun pattern => includes (toLowerCase err.message) pattern

def DEFAULT_MAX_RETRIES : Nat := 3
def DEFAULT_BASE_DELAY_MS : Nat := 2000

/-- Attempt number `attempt`, with a number of retries left; the error of the last one
is the caller's. -/
def retryWithBackoff {α : Type} (fn : PaymentM α) (shouldRetry : PaymentError → Bool)
    (baseDelayMs attempt : Nat) : Nat → PaymentM α
  | 0 => fn
  | retries + 1 => do
    let outcome ← fn.attempt
    match outcome with
    | .ok value => return value
    | .error err =>
      if shouldRetry err then do
        op (.sleep (baseDelayMs * 2 ^ attempt))
        retryWithBackoff fn shouldRetry baseDelayMs (attempt + 1) retries
      else .fail err

def submitContractInvocationWithRetry (request : TransactionRequest) : PaymentM TransactionResult :=
  retryWithBackoff (op (.submitContractInvocation request)) isTransientNetworkError
    DEFAULT_BASE_DELAY_MS 0 DEFAULT_MAX_RETRIES

/-- `Number.isInteger(id) && id >= 0`, or an error. -/
def parseEscrowId (conv : Conversions) (escrowId : String) : PaymentM Nat :=
  match conv.number escrowId with
  | some id => return id
  | none => raise s!"Invalid escrow ID: {escrowId}"

def emitStatusEvent (channel : PaymentStatusChannel) (record : PaymentRecord)
    (txHash reason : Option String) : PaymentM Unit :=
  op (.publishPaymentStatusEvent
    { channel := channel, orderId := record.orderId, escrowId := record.escrowId, txHash := txHash, status := record.status
      reason := reason })

def markFailed (id : String) (txHash : Option String) (failureReason reason : String) :
    PaymentM Unit := do
  let updated ← op (.updatePaymentRecord id { status := some .failed, failureReason := some (some failureReason) })
  emitStatusEvent .failed updated txHash (some reason)

def findRecord (escrowId : String) : PaymentM PaymentRecord := do
  let found ← op (.findPaymentRecordByEscrowId escrowId)
  match found with
  | some record => return record
  | none => raise s!"Payment record not found for escrow {escrowId}"

structure EscrowParams where
  (escrowId escrowContractId callerAddress : String)

structure FullInvocation where
  method : ContractMethod
  memo : String
  /-- The status of a record for which this was done before. -/
  status : PaymentRecordStatus
  channel : PaymentStatusChannel
  txHash : PaymentRecord → Option String
  setTxHash : String → PaymentRecordUpdate
  /-- Recorded when the transaction fails on chain, and told in the event. -/
  (failureReason failureEvent : String)

structure InvocationResult where
  txHash : String
  ledger : Nat
  /-- The status aimed at, or failed. -/
  status : PaymentRecordStatus

def FullInvocation.recorded (inv : FullInvocation) (record : PaymentRecord) : Option String :=
  if record.status = inv.status then (inv.txHash record).filter fun hash => decide (hash ≠ "")
  else none

/-- The body of the `try`. -/
def FullInvocation.submit (inv : FullInvocation) (conv : Conversions) (params : EscrowParams)
    (record : PaymentRecord) : PaymentM InvocationResult := do
  let escrowId ← parseEscrowId conv params.escrowId
  let tx ← submitContractInvocationWithRetry
    { sourceAddress := params.callerAddress, contractId := params.escrowContractId, method := inv.method
      escrowId := escrowId
      memo := inv.memo }
  if !tx.success then do
    markFailed record.id (some tx.hash) inv.failureReason inv.failureEvent
    return ⟨tx.hash, tx.ledger, .failed⟩
  else do
    let updated ← op (.updatePaymentRecord record.id
      {inv.setTxHash tx.hash with status := some inv.status, failureReason := some none})
    emitStatusEvent inv.channel updated (some tx.hash) none
    return ⟨tx.hash, tx.ledger, inv.status⟩

def invokeEscrow (inv : FullInvocation) (conv : Conversions) (params : EscrowParams) :
    PaymentM (PaymentRecord × InvocationResult) := do
  let record ← findRecord params.escrowId
  match inv.recorded record with
  | some txHash => return (record, ⟨txHash, 0, inv.status⟩)
  | none => do
    let _ ← op (.updatePaymentRecord record.id { failureReason := some none })
    let result ← (inv.submit conv params record).tryCatch fun err => do
      markFailed record.id none err.message err.message
      return ⟨(inv.txHash record).getD "", 0, .failed⟩
    return (record, result)

structure ReleaseResult extends InvocationResult where
  sellerAddress : String
  amount : Int

def releaseEscrow (conv : Conversions) (params : EscrowParams) : PaymentM ReleaseResult := do
  let (record, result) ← invokeEscrow
    { method := .release
      memo := s!"Release escrow {params.escrowId}", status := .released, channel := .released
      txHash := PaymentRecord.releaseTxHash
      setTxHash := fun hash => { releaseTxHash := some (some hash) }, failureReason := "Release transaction failed on-chain"
      failureEvent := "Release transaction failed on-chain" } conv params
  return {result with sellerAddress := record.sellerAddress, amount := record.amountStroops}

structure RefundResult extends InvocationResult where
  buyerAddress : String
  amount : Int

def refundEscrow (conv : Conversions) (params : EscrowParams) (reason : String) :
    PaymentM RefundResult := do
  let (record, result) ← invokeEscrow
    { method := .refund
      memo := s!"Refund escrow {params.escrowId} ({reason})", status := .refunded, channel := .refunded
      txHash := PaymentRecord.refundTxHash
      setTxHash := fun hash => { refundTxHash := some (some hash) }, failureReason := "Refund transaction failed on-chain"
      failureEvent := s!"Refund transaction failed on-chain ({reason})" } conv params
  return {result with buyerAddress := record.buyerAddress, amount := record.amountStroops}

structure DisputeResult extends InvocationResult where
  disputedBy : String

def disputeEscrow (conv : Conversions) (params : EscrowParams) : PaymentM DisputeResult := do
  let (_, result) ← invokeEscrow
    { method := .dispute
      memo := s!"Dispute escrow {params.escrowId}", status := .disputed, channel := .disputed
      txHash := PaymentRecord.disputeTxHash
      setTxHash := fun hash => { disputeTxHash := some (some hash) }, failureReason := "Dispute transaction failed on-chain"
      failureEvent := "Dispute transaction failed on-chain" } conv params
  return {result with disputedBy := params.callerAddress}

/-! ### Partial payouts -/

inductive Party where
  | buyer | seller
  deriving DecidableEq

namespace Party

def method : Party → ContractMethod
  | .buyer => .partialRefund
  | .seller => .partialRelease

def channel : Party → PaymentStatusChannel
  | .buyer => .partialRefunded
  | .seller => .partialReleased

def otherPaid : Party → PaymentRecord → Int
  | .buyer, record => record.releasedAmountStroops
  | .seller, record => record.refundedAmountStroops

def status : Party → PaymentRecordStatus
  | .buyer => .refunded
  | .seller => .released

def delta (party : Party) (amount : Int) (status : Option PaymentRecordStatus) :
    PaymentRecordAmountDelta :=
  match party with
  | .buyer => { refundedDelta := some amount, status := status }
  | .seller => { releasedDelta := some amount, status := status }

end Party

inductive PartialStatus where
  | paid | failed
  deriving DecidableEq

structure PartialResult where
  txHash : String
  ledger : Nat
  status : PartialStatus
  /-- `refundedAmount` or `releasedAmount`. -/
  amount : String
  remainingAmount : Int

structure PartialPayout where
  party : Party
  (memo failureReason failureEvent : String)
  successEvent : Option String

/-- The body of the `try`. -/
def PartialPayout.submit (payout : PartialPayout) (conv : Conversions) (params : EscrowParams)
    (amountStroops : String) (record : PaymentRecord) (requested : Int) : PaymentM PartialResult := do
  let escrowId ← parseEscrowId conv params.escrowId
  let tx ← submitContractInvocationWithRetry
    { sourceAddress := params.callerAddress, contractId := params.escrowContractId
      method := payout.party.method, escrowId := escrowId, amount := requested
      memo := payout.memo }
  if !tx.success then do
    markFailed record.id (some tx.hash) payout.failureReason payout.failureEvent
    return ⟨tx.hash, tx.ledger, .failed, "0", computeRemaining record⟩
  else do
    let newRemaining := computeRemaining record - requested
    let updated ← op (.incrementPaymentRecordAmounts record.id (payout.party.delta requested
      (if newRemaining = 0 ∧ payout.party.otherPaid record = 0 then some payout.party.status
        else none)))
    emitStatusEvent payout.party.channel updated (some tx.hash) payout.successEvent
    return ⟨tx.hash, tx.ledger, .paid, amountStroops, newRemaining⟩

def partialPayout (payout : PartialPayout) (conv : Conversions) (params : EscrowParams)
    (amountStroops : String) : PaymentM (PaymentRecord × PartialResult) := do
  let record ← findRecord params.escrowId
  match conv.bigInt amountStroops with
  | none => raise s!"Cannot convert {amountStroops} to a BigInt"
  | some requested =>
    if requested ≤ 0 ∨ computeRemaining record < requested then
      .fail (.insufficientBalance params.escrowId (toString (computeRemaining record)) amountStroops)
    else do
      let _ ← op (.updatePaymentRecord record.id { failureReason := some none })
      let result ← (payout.submit conv params amountStroops record requested).tryCatch fun err =>
        match err with
        | .insufficientBalance _ _ _ => .fail err
        | .other message => do
          markFailed record.id none message message
          return ⟨"", 0, .failed, "0", computeRemaining record⟩
      return (record, result)

structure PartialRefundResult extends PartialResult where
  buyerAddress : String

def partialRefundEscrow (conv : Conversions) (params : EscrowParams) (amountStroops reason : String) :
    PaymentM PartialRefundResult := do
  let (record, result) ← partialPayout
    { party := .buyer
      memo := s!"Partial refund escrow {params.escrowId} ({reason})"
      failureReason := "Partial refund transaction failed on-chain"
      failureEvent := s!"Partial refund transaction failed on-chain ({reason})"
      successEvent := some reason } conv params amountStroops
  return {result with buyerAddress := record.buyerAddress}

structure PartialReleaseResult extends PartialResult where
  sellerAddress : String

def partialReleaseEscrow (conv : Conversions) (params : EscrowParams) (amountStroops : String)
    (memo : Option String) : PaymentM PartialReleaseResult := do
  let (record, result) ← partialPayout
    { party := .seller
      memo := memo.getD s!"Partial release escrow {params.escrowId}"
      failureReason := "Partial release transaction failed on-chain"
      failureEvent := "Partial release transaction failed on-chain"
      successEvent := none } conv params amountStroops
  return {result with sellerAddress := record.sellerAddress}

structure RemainingBalance where
  (escrowId orderId buyerAddress sellerAddress : String)
  (totalAmount releasedAmount refundedAmount remainingAmount : Int)

def remainingBalance (escrowId : String) (record : PaymentRecord) : RemainingBalance :=
  { escrowId := escrowId, orderId := record.orderId, buyerAddress := record.buyerAddress
    sellerAddress := record.sellerAddress, totalAmount := record.amountStroops
    releasedAmount := record.releasedAmountStroops, refundedAmount := record.refundedAmountStroops
    remainingAmount := computeRemaining record }

def getRemainingBalance (escrowId : String) : PaymentM RemainingBalance := do
  let record ← findRecord escrowId
  return remainingBalance escrowId record

/-! ### Mediated decisions (`payments/src/disputes/mediation.ts`): the check of a decision's amounts and its execution -/

def DisputeStatus.text : DisputeStatus → String
  | .open => "open"
  | .evidenceCollection => "evidence_collection"
  | .negotiation => "negotiation"
  | .merchantResponded => "merchant_responded"
  | .decided => "decided"
  | .resolved => "resolved"

structure MediationDecision where
  (disputeId mediator : String)
  decision : ResolutionType
  (buyerAmount sellerAmount : String)

def validateResolutionAmounts (conv : Conversions) (decision : MediationDecision) (remaining : Int) :
    Except String Unit :=
  match conv.bigInt decision.buyerAmount, conv.bigInt decision.sellerAmount with
  | some buyerAmount, some sellerAmount =>
    if buyerAmount < 0 ∨ sellerAmount < 0 then .error "buyerAmount and sellerAmount must not be negative"
    else if buyerAmount + sellerAmount ≠ remaining then
      .error s!"buyerAmount + sellerAmount ({buyerAmount + sellerAmount}) must equal the remaining escrow balance ({remaining})"
    else if decision.decision = .fullRefund ∧ sellerAmount ≠ 0 then
      .error "full_refund resolutions must set sellerAmount to \"0\""
    else if decision.decision = .releaseToSeller ∧ buyerAmount ≠ 0 then
      .error "release_to_seller resolutions must set buyerAmount to \"0\""
    else .ok ()
  | _, _ => .error "buyerAmount and sellerAmount must be integer stroops strings"

/-- The resolution that `submitMediationDecision` stores. -/
def MediationDecision.resolution (decision : MediationDecision) : DisputeResolution :=
  { type := decision.decision, buyerAmount := decision.buyerAmount, sellerAmount := decision.sellerAmount
    decidedBy := decision.mediator }

theorem validateResolutionAmounts_ok {conv : Conversions} {decision : MediationDecision}
    {remaining : Int} (h : validateResolutionAmounts conv decision remaining = .ok ()) :
    ∃ buyerAmount sellerAmount, conv.bigInt decision.buyerAmount = some buyerAmount ∧
      conv.bigInt decision.sellerAmount = some sellerAmount ∧ 0 ≤ buyerAmount ∧ 0 ≤ sellerAmount ∧
      buyerAmount + sellerAmount = remaining := by
  unfold validateResolutionAmounts at h
  split at h
  · rename_i buyerAmount sellerAmount hbuyer hseller
    split at h
    · cases h
    · split at h
      · cases h
      · exact ⟨buyerAmount, sellerAmount, hbuyer, hseller, by omega, by omega, by omega⟩
  · cases h

/-- The configuration that the mediation reads. -/
structure Settings where
  conv : Conversions
  ESCROW_CONTRACT_ID : Option String

def getEscrowContractId (cfg : Settings) : PaymentM String :=
  match cfg.ESCROW_CONTRACT_ID.filter fun id => decide (id ≠ "") with
  | some contractId => return contractId
  | none => raise "ESCROW_CONTRACT_ID environment variable is not configured"

def parseBigInt (conv : Conversions) (s : String) : PaymentM Int :=
  match conv.bigInt s with
  | some value => return value
  | none => raise s!"Cannot convert {s} to a BigInt"

def refundShare (conv : Conversions) (dispute : Dispute) (resolution : DisputeResolution)
    (contractId : String) (buyerAmount : Int) : PaymentM (Option String) :=
  if 0 < buyerAmount then do
    let refund ← partialRefundEscrow conv ⟨dispute.escrowId, contractId, resolution.decidedBy⟩
      resolution.buyerAmount s!"dispute_resolution:{dispute.id}"
    if refund.status ≠ .paid then raise "Buyer-side dispute resolution transfer failed on-chain"
    else return some refund.txHash
  else return none

def releaseShare (conv : Conversions) (dispute : Dispute) (resolution : DisputeResolution)
    (contractId : String) (sellerAmount : Int) : PaymentM (Option String) :=
  if 0 < sellerAmount then do
    let release ← partialReleaseEscrow conv ⟨dispute.escrowId, contractId, resolution.decidedBy⟩
      resolution.sellerAmount (some s!"Dispute {dispute.id} resolution: release to seller")
    if release.status ≠ .paid then raise "Seller-side dispute resolution transfer failed on-chain"
    else return some release.txHash
  else return none

/-- The two transactions as the `try` leaves them, and what it threw. -/
structure Transfers where
  buyerTx : Option String := none
  sellerTx : Option String := none
  error : Option PaymentError := none

def transferShares (conv : Conversions) (dispute : Dispute) (resolution : DisputeResolution)
    (contractId : String) (buyerAmount sellerAmount : Int) : PaymentM Transfers := do
  let refunded ← (refundShare conv dispute resolution contractId buyerAmount).attempt
  match refunded with
  | .error err => return { error := some err }
  | .ok buyerTx => do
    let released ← (releaseShare conv dispute resolution contractId sellerAmount).attempt
    match released with
    | .error err => return { buyerTx := buyerTx, error := some err }
    | .ok sellerTx => return { buyerTx := buyerTx, sellerTx := sellerTx }

def recordFailure (dispute : Dispute) (orderId : String) (transfers : Transfers)
    (err : PaymentError) : PaymentM Dispute := do
  let _ ← op (.updateDispute dispute.id { resolutionError := some (some err.message) })
  op (.recordAuditEvent
    { type := .disputeResolutionFailed, disputeId := dispute.id, escrowId := dispute.escrowId
      error := some err.message, buyerTx := transfers.buyerTx
      sellerTx := transfers.sellerTx })
  op (.notifyDisputeParties orderId
    { type := .disputeStatusChanged, disputeId := dispute.id, escrowId := dispute.escrowId
      status := some dispute.status, mediator := dispute.mediator
      error := some err.message })
  return dispute

def recordResolved (dispute : Dispute) (resolution : DisputeResolution) (balance : RemainingBalance)
    (transfers : Transfers) : PaymentM Dispute := do
  let resolved ← op (.updateDispute dispute.id { status := some .resolved, resolutionError := some none })
  op (.recordAuditEvent
    { type := .disputeResolved, disputeId := dispute.id, escrowId := dispute.escrowId
      resolution := some resolution, buyerTx := transfers.buyerTx
      sellerTx := transfers.sellerTx })
  op (.notifyDisputeParties balance.orderId
    { type := .disputeResolved, disputeId := resolved.id, escrowId := resolved.escrowId
      status := some resolved.status, mediator := resolved.mediator, buyerTx := transfers.buyerTx
      sellerTx := transfers.sellerTx })
  op (.recordDisputeOutcome balance.buyerAddress balance.sellerAddress resolution.buyerAmount resolution.sellerAmount)
  return resolved

def executeDecision (cfg : Settings) (disputeId : String) : PaymentM Dispute := do
  let found ← op (.findDispute disputeId)
  match found with
  | none => raise s!"Dispute {disputeId} not found"
  | some dispute =>
    if dispute.status = .resolved then return dispute
    else match dispute.resolution.filter fun _ => decide (dispute.status = .decided) with
      | none => raise s!"Cannot transition dispute from \"{dispute.status.text}\" to \"resolved\""
      | some resolution => do
        let balance ← getRemainingBalance dispute.escrowId
        let contractId ← getEscrowContractId cfg
        let buyerAmount ← parseBigInt cfg.conv resolution.buyerAmount
        let sellerAmount ← parseBigInt cfg.conv resolution.sellerAmount
        let transfers ← transferShares cfg.conv dispute resolution contractId buyerAmount sellerAmount
        match transfers.error with
        | some err => recordFailure dispute balance.orderId transfers err
        | none => recordResolved dispute resolution balance transfers

end Delego.Payments
