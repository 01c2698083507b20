import Delego.Payments.EscrowCoordinator
import Delego.Process.Extend

/-! The lifecycle of a dispute (`payments/src/disputes/stateMachine.ts`, `mediation.ts`, `disputeStore.ts`).

Every call reads the dispute, checks its status against the state machine, and later writes a new status whatever the
stored one is by then. Each call of the store is one operation. What the mediation awaits of the escrow coordinator and
of the execution of a decision is as in `Payments`; here the store also takes evidence, a mediator and a resolution.
Evidence is kept in a table of its own. The audit log and the party notifications swallow their own errors. -/
namespace Delego.Disputes
open Delego.Process Delego.Data Delego.Payments

def ORDER : List DisputeStatus := [.open, .evidenceCollection, .negotiation, .merchantResponded, .decided, .resolved]

def ALLOWED_TRANSITIONS : DisputeStatus → List DisputeStatus
  | .open => [.open, .evidenceCollection]
  | .evidenceCollection => [.evidenceCollection, .negotiation]
  | .negotiation => [.negotiation, .merchantResponded, .decided]
  | .merchantResponded => [.merchantResponded, .decided]
  | .decided => [.decided, .resolved]
  | .resolved => [.resolved]

def canTransition (source target : DisputeStatus) : Bool := decide (target ∈ ALLOWED_TRANSITIONS source)

def invalidTransition (source target : DisputeStatus) : PaymentError :=
  .other s!"Cannot transition dispute from \"{source.text}\" to \"{target.text}\""

def assertTransition (source target : DisputeStatus) : Except PaymentError Unit :=
  if canTransition source target then .ok () else .error (invalidTransition source target)

def stageIndex (status : DisputeStatus) : Nat := ORDER.idxOf status

/-- A change of the status of a dispute. -/
structure TransitionStep where
  (source target : DisputeStatus)

def planHops : List DisputeStatus → Nat → Except PaymentError (List TransitionStep)
  | source :: target :: rest, hops + 1 => do
    assertTransition source target
    let steps ← planHops (target :: rest) hops
    return ⟨source, target⟩ :: steps
  | _, _ => return []

def planAdvance (source target : DisputeStatus) : Except PaymentError (List TransitionStep) :=
  let fromIndex := stageIndex source
  let toIndex := stageIndex target
  if toIndex < fromIndex then .error (invalidTransition source target)
  else planHops (ORDER.drop fromIndex) (toIndex - fromIndex)

structure DisputeEvidenceEntry where
  (party description : String)
  files : List String
  submittedAt : String

/-- The columns of a dispute that are set here. -/
structure MediationUpdate where
  status : Option DisputeStatus := none
  mediator : Option String := none
  resolution : Option DisputeResolution := none

def MediationUpdate.apply (update : MediationUpdate) (dispute : Dispute) : Dispute :=
  { dispute with
    status := update.status.getD dispute.status
    mediator := update.mediator.or dispute.mediator
    resolution := update.resolution.or dispute.resolution }

inductive MediationEventType where
  | disputeEvidenceSubmitted | disputeMediatorAssigned | disputeMerchantResponseSubmitted | disputeDecided

/-- An entry of the audit log, or what the parties are told. -/
structure MediationEvent where
  type : MediationEventType
  (disputeId escrowId : String)
  actor : Option String := none
  status : Option DisputeStatus := none
  mediator : Option String := none
  description : Option String := none
  files : Option (List String) := none
  partialRefundAmountStroops : Option String := none
  resolution : Option DisputeResolution := none
  reasoning : Option String := none

inductive MediationOp where
  | updateDispute (id : String) (update : MediationUpdate)
  | addEvidence (disputeId : String) (entry : DisputeEvidenceEntry)
  | recordAuditEvent (entry : MediationEvent)
  | notifyDisputeParties (orderId : String) (event : MediationEvent)

@[reducible] def MediationOp.Reply : MediationOp → Type
  | .updateDispute _ _ => Dispute
  | .addEvidence _ _ => Dispute
  | _ => Unit

@[reducible] def mediationSignature : Signature := paymentSignature.extend MediationOp MediationOp.Reply

abbrev MediationM := Program mediationSignature

structure World where
  payments : Payments.World
  evidence : List (String × DisputeEvidenceEntry) := []

def World.dispute (w : World) (id : String) : Option Dispute := lookup Dispute.id w.payments.disputes id

def World.setDispute (w : World) (dispute : Dispute) : World :=
  { w with payments := { w.payments with disputes := replace Dispute.id w.payments.disputes dispute } }

def storeAnswer (w : World) (id : String) (set : Dispute → Dispute) (evidence : List (String × DisputeEvidenceEntry)) :
    Except PaymentError Dispute × World :=
  match w.dispute id with
  | some dispute => (.ok (set dispute), { w.setDispute (set dispute) with evidence := evidence })
  | none => (.error (.other s!"Dispute not found: {id}"), w)

def reached {α : Type} (ch : Choice) (w : World) (answer : Except PaymentError α × World) :
    Except PaymentError α × World :=
  match ch with
  | .fault message => (.error (.other message), w)
  | .unanswered message => (.error (.other message), answer.2)
  | _ => answer

def perform (o : mediationSignature.Op) (ch : Choice) (w : World) : mediationSignature.Result o × World :=
  match o with
  | .inl o =>
    let answer := Payments.perform o ch w.payments
    (answer.1, { w with payments := answer.2 })
  | .inr (.updateDispute id update) => reached ch w (storeAnswer w id update.apply w.evidence)
  | .inr (.addEvidence id entry) => reached ch w (storeAnswer w id (fun dispute => dispute) (w.evidence ++ [(id, entry)]))
  | .inr (.recordAuditEvent _) => (.ok (), w)
  | .inr (.notifyDisputeParties _ _) => (.ok (), w)

/-! ### The calls -/

def payment {α : Type} (p : PaymentM α) : MediationM α := p.lift

def store (o : MediationOp) : MediationM o.Reply := Program.perform (S := mediationSignature) (.inr o)

def raise {α : Type} (message : String) : MediationM α := .fail (.other message)

def check {α : Type} : Except PaymentError α → MediationM α
  | .ok a => .ret a
  | .error e => .fail e

def findById (disputeId : String) : MediationM Dispute := do
  let found ← payment (Payments.op (.findDispute disputeId))
  match found with
  | none => raise s!"Dispute {disputeId} not found"
  | some dispute => return dispute

def safeGetBalance (escrowId : String) : MediationM (Option RemainingBalance) := do
  let outcome ← (payment (getRemainingBalance escrowId)).attempt
  return outcome.toOption

def notifyIfKnown (balance : Option RemainingBalance) (event : MediationEvent) : MediationM Unit :=
  match balance with
  | some balance => store (.notifyDisputeParties balance.orderId event)
  | none => return ()

def advanceFrom (source target : DisputeStatus) (updated : Dispute) (disputeId : String) : MediationM Dispute :=
  if updated.status = source then do
    check (assertTransition source target)
    store (.updateDispute disputeId { status := some target })
  else return updated

structure DisputeEvidenceInput where
  (party description : String)
  files : List String

def submitEvidence (disputeId : String) (input : DisputeEvidenceInput) (now : String) : MediationM Dispute := do
  let dispute ← findById disputeId
  if dispute.status ≠ .open ∧ dispute.status ≠ .evidenceCollection then
    .fail (invalidTransition dispute.status .evidenceCollection)
  else do
    let updated ← store (.addEvidence disputeId ⟨input.party, input.description, input.files, now⟩)
    let updated ← advanceFrom .open .evidenceCollection updated disputeId
    store (.recordAuditEvent
      { type := .disputeEvidenceSubmitted, disputeId := disputeId, escrowId := dispute.escrowId
        actor := some input.party, description := some input.description
        files := some input.files })
    let balance ← safeGetBalance dispute.escrowId
    notifyIfKnown balance
      { type := .disputeEvidenceSubmitted, disputeId := updated.id, escrowId := updated.escrowId
        actor := some input.party, status := some updated.status
        mediator := updated.mediator }
    return updated

def assignMediator (disputeId mediator : String) (assignedBy : Option String) : MediationM Dispute := do
  let dispute ← findById disputeId
  if dispute.status = .decided ∨ dispute.status = .resolved then .fail (invalidTransition dispute.status .negotiation)
  else do
    let _ ← check (planAdvance dispute.status .negotiation)
    let updated ← store (.updateDispute disputeId { status := some .negotiation, mediator := some mediator })
    store (.recordAuditEvent
      { type := .disputeMediatorAssigned, disputeId := disputeId, escrowId := dispute.escrowId
        actor := some (assignedBy.getD mediator)
        mediator := some mediator })
    let balance ← safeGetBalance dispute.escrowId
    notifyIfKnown balance
      { type := .disputeMediatorAssigned, disputeId := updated.id, escrowId := updated.escrowId
        status := some updated.status
        mediator := updated.mediator }
    return updated

/-- `/^[0-9]+$/`, and positive. -/
def parseRefundAmount (amount : String) : Except PaymentError Nat :=
  match (readDigits 0 amount.toList).filter fun _ => decide (amount ≠ "") with
  | none => .error (.other s!"Invalid amount format: {amount}")
  | some value => if value = 0 then .error (.other s!"Amount must be positive: {amount}") else .ok value

def validateOffer (balance : RemainingBalance) (partialRefundAmountStroops : Option String) :
    Except PaymentError Unit :=
  match partialRefundAmountStroops.filter fun amount => decide (amount ≠ "") with
  | none => .ok ()
  | some amount => do
    let requested ← parseRefundAmount amount
    if balance.remainingAmount < (requested : Int) then
      .error (.other s!"Partial refund amount {amount} exceeds remaining balance {balance.remainingAmount}")
    else .ok ()

structure MerchantResponse where
  (party responseStatement : String)
  evidenceFiles : Option (List String) := none
  partialRefundAmountStroops : Option String := none

def recordResponse (disputeId : String) (dispute : Dispute) (balance : RemainingBalance) (response : MerchantResponse)
    (now : String) : MediationM Dispute := do
  let updated ← store (.addEvidence disputeId
    ⟨response.party, response.responseStatement, response.evidenceFiles.getD [], now⟩)
  let updated ← advanceFrom .negotiation .merchantResponded updated disputeId
  store (.recordAuditEvent
    { type := .disputeMerchantResponseSubmitted, disputeId := disputeId, escrowId := dispute.escrowId
      actor := some response.party, description := some response.responseStatement, files := response.evidenceFiles
      partialRefundAmountStroops := response.partialRefundAmountStroops })
  store (.notifyDisputeParties balance.orderId
    { type := .disputeMerchantResponseSubmitted, disputeId := updated.id, escrowId := updated.escrowId
      actor := some response.party, status := some updated.status, mediator := updated.mediator
      description := some response.responseStatement, files := response.evidenceFiles
      partialRefundAmountStroops := response.partialRefundAmountStroops })
  return updated

def submitMerchantResponse (disputeId : String) (response : MerchantResponse) (now : String) : MediationM Dispute := do
  let dispute ← findById disputeId
  if dispute.status ≠ .negotiation then .fail (invalidTransition dispute.status .merchantResponded)
  else do
    let found ← safeGetBalance dispute.escrowId
    match found with
    | none => raise "Unable to retrieve escrow balance"
    | some balance =>
      if response.party ≠ balance.sellerAddress then raise "Only the merchant can submit a merchant response"
      else do
        check (validateOffer balance response.partialRefundAmountStroops)
        recordResponse disputeId dispute balance response now

def submitMediationDecision (cfg : Settings) (decision : MediationDecision) (reasoning : String) :
    MediationM Dispute := do
  let dispute ← findById decision.disputeId
  if dispute.status = .resolved then raise s!"Dispute {dispute.id} is already resolved"
  else do
    check (assertTransition dispute.status .decided)
    let balance ← payment (getRemainingBalance dispute.escrowId)
    check ((validateResolutionAmounts cfg.conv decision balance.remainingAmount).mapError PaymentError.other)
    let updated ← store (.updateDispute dispute.id { status := some .decided, resolution := some decision.resolution })
    store (.recordAuditEvent
      { type := .disputeDecided, disputeId := dispute.id, escrowId := dispute.escrowId
        actor := some decision.mediator, resolution := some decision.resolution
        reasoning := some reasoning })
    store (.notifyDisputeParties balance.orderId
      { type := .disputeDecided, disputeId := updated.id, escrowId := updated.escrowId
        status := some updated.status, mediator := updated.mediator
        reasoning := some reasoning })
    payment (executeDecision cfg updated.id)

inductive Call where
  | submitEvidence (disputeId : String) (input : DisputeEvidenceInput) (now : String)
  | assignMediator (disputeId mediator : String) (assignedBy : Option String)
  | submitMerchantResponse (disputeId : String) (response : MerchantResponse) (now : String)
  | submitMediationDecision (decision : MediationDecision) (reasoning : String)
  | executeDecision (disputeId : String)

def Call.run (cfg : Settings) : Call → MediationM Dispute
  | .submitEvidence disputeId input now => Disputes.submitEvidence disputeId input now
  | .assignMediator disputeId mediator assignedBy => Disputes.assignMediator disputeId mediator assignedBy
  | .submitMerchantResponse disputeId response now => Disputes.submitMerchantResponse disputeId response now
  | .submitMediationDecision decision reasoning => Disputes.submitMediationDecision cfg decision reasoning
  | .executeDecision disputeId => payment (Payments.executeDecision cfg disputeId)

def system (cfg : Settings) : System mediationSignature World where
  Choice := Choice
  Event := Empty
  Call := Call
  perform := perform
  drift := fun e => e.elim
  arrive := fun _ w => some w
  body := fun call => do
    let _ ← call.run cfg
    return ()

abbrev MediationPool := Pool mediationSignature World

abbrev MediationTrace := List (Entry mediationSignature)

end Delego.Disputes
