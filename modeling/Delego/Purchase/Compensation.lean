import Delego.Process.Serial
import Delego.Payments.Settlement

/-! Purchase compensation (`orchestrator/workflows/purchase/compensation.ts`): the steps of a
purchase that were completed are undone, the last one first.

The payments service is here as the orchestrator
reaches it (`paymentsCompensationClient.ts`, and the two order routes of the payments
service): a release runs `settleOrder`, a refund runs `refundOrder`, and the client throws
what the route reports as an error. A merchant's answer is any. -/
namespace Delego.Purchase
open Delego.Process Delego.Data
open Delego.Settlement (SettlementOutcome RefundReasonCode settleOrder refundOrder)

/-! ### Operations -/

/-- The fields the compensations read and write. -/
structure PurchaseContext where
  workflowId : String
  escrowContractId : Option String

inductive MerchantCancellationStatus where
  | cancelled | alreadyCancelled | notCancellable | failed
  deriving DecidableEq

structure MerchantCancellationOutcome where
  merchantOrderId : String
  status : MerchantCancellationStatus
  reason : Option String := none

structure WorkflowTransitionAudit where
  orderId : String
  fromState : Option String
  (toState eventType : String)

structure FailedStep where
  (step error : String)

inductive CompensationStatus where
  | success | partialFailure

/-- What is stored of a run: its status, or that the escrow is stuck. -/
inductive OutcomeStatus where
  | ended (status : CompensationStatus)
  | escrowStuck

structure CompensationOutcomeInput where
  workflowId : String
  status : OutcomeStatus
  compensatedSteps : List String
  failedSteps : List FailedStep
  cause : Option String

structure CompensationOutcomeRecord extends CompensationOutcomeInput where
  attempts : Nat

structure DeadLetterEntry where
  (sagaId orderId reason originalStatus : String)
  context : PurchaseContext

inductive Op where
  /-- `paymentsClient.release` -/
  | release (orderId : String)
  /-- `paymentsClient.refund` -/
  | refund (orderId : String) (reasonCode : RefundReasonCode)
  /-- `merchantClient.cancel` -/
  | cancel (merchantOrderId reasonCode : String)
  | insertWorkflowTransitionAudit (input : WorkflowTransitionAudit)
  | upsertCompensationOutcome (input : CompensationOutcomeInput)
  | moveToDeadLetter (entry : DeadLetterEntry)

@[reducible] def Op.Reply : Op → Type
  | .release _ => SettlementOutcome
  | .refund _ _ => SettlementOutcome
  | .cancel _ _ => MerchantCancellationOutcome
  | .insertWorkflowTransitionAudit _ => Unit
  | .upsertCompensationOutcome _ => Unit
  | .moveToDeadLetter _ => Unit

@[reducible] def compensationSignature : Signature := ⟨Op, Op.Reply, String⟩

abbrev CompensationM := Program compensationSignature

def op (o : Op) : CompensationM o.Reply := Program.perform (S := compensationSignature) o

structure World where
  payments : Settlement.World
  audit : List WorkflowTransitionAudit
  outcomes : List CompensationOutcomeRecord
  deadLetters : List DeadLetterEntry

/-- An order route of the payments service, and the client that calls it: a failed outcome
is sent as status 502 with its reason, which the client throws. -/
def postOrder (failed : String) (order : Settlement.SettlementM SettlementOutcome)
    (ch : Settlement.Op → Settlement.Choice) (w : World) : Except String SettlementOutcome × World :=
  match order.alone (fun o => Settlement.perform o (ch o)) w.payments with
  | (.ok outcome, payments) =>
    (if outcome.status = .failed then .error (outcome.reason.getD failed) else .ok outcome, { w with payments := payments })
  | (.error message, payments) => (.error message, { w with payments := payments })

/-- The in-memory outcome store: a later run of a workflow replaces the outcome. -/
def upsert (outcomes : List CompensationOutcomeRecord) (input : CompensationOutcomeInput) :
    List CompensationOutcomeRecord :=
  match lookup (fun record => record.workflowId) outcomes input.workflowId with
  | some existing => replace (fun record => record.workflowId) outcomes ⟨input, existing.attempts + 1⟩
  | none => outcomes ++ [⟨input, 1⟩]

inductive Choice where
  /-- The operation throws, with nothing done. -/
  | fault (message : String)
  /-- The operation is carried out, and throws: its answer is lost. -/
  | lost (payments : Settlement.Op → Settlement.Choice) (message : String)
  | answered (payments : Settlement.Op → Settlement.Choice) (cancelled : MerchantCancellationOutcome)

def answer (cfg : Settlement.Settings) (payments : Settlement.Op → Settlement.Choice)
    (cancelled : MerchantCancellationOutcome) (o : Op) (w : World) : Except String o.Reply × World :=
  match o with
  | .release orderId => postOrder "Release failed" (settleOrder cfg orderId) payments w
  | .refund orderId reasonCode => postOrder "Refund failed" (refundOrder cfg orderId reasonCode) payments w
  | .cancel _ _ => (.ok cancelled, w)
  | .insertWorkflowTransitionAudit input =>
    if cfg.conv.trim input.orderId = "" then (.error "orderId is required", w)
    else if cfg.conv.trim input.toState = "" then (.error "toState is required", w)
    else if cfg.conv.trim input.eventType = "" then (.error "eventType is required", w)
    else (.ok (), { w with audit := w.audit ++ [input] })
  | .upsertCompensationOutcome input =>
    if cfg.conv.trim input.workflowId = "" then (.error "workflowId is required", w)
    else (.ok (), { w with outcomes := upsert w.outcomes input })
  | .moveToDeadLetter entry => (.ok (), { w with deadLetters := w.deadLetters ++ [entry] })

def perform (cfg : Settlement.Settings) (o : Op) (ch : Choice) (w : World) : Except String o.Reply × World :=
  match ch with
  | .fault message => (.error message, w)
  | .lost payments message => (.error message, (answer cfg payments ⟨"", .failed, none⟩ o w).2)
  | .answered payments cancelled => answer cfg payments cancelled o w

structure CompensationStep where
  name : String
  /-- The context after the rollback of this step; the error that started it is a message. -/
  compensate : PurchaseContext → String → CompensationM PurchaseContext

/-- `/not configured/i.test(message)` -/
def notConfigured (message : String) : Bool := includes (toLowerCase message) "not configured"

/-- Undo `fundEscrow` by releasing the escrow. -/
def fundEscrow : CompensationStep where
  name := "fundEscrow"
  compensate := fun context _ =>
    match context.escrowContractId.filter fun id => decide (id ≠ "") with
    -- nothing was funded
    | none => return context
    | some _ => do
      let outcome ← op (.release context.workflowId)
      if outcome.status = .failed then .fail (outcome.reason.getD "Escrow release failed")
      else return { context with escrowContractId := none }

/-- Undo `confirmPurchase` by cancelling the merchant's order, if there is a merchant service. -/
def confirmPurchase : CompensationStep where
  name := "confirmPurchase"
  compensate := fun context _ =>
    Program.tryCatch
      (do
        let outcome ← op (.cancel context.workflowId "system_error")
        if outcome.status = .failed then .fail (outcome.reason.getD "Merchant cancellation failed")
        else return context)
      fun message => if notConfigured message then return context else .fail message

/-- Undo `settleEscrow` by refunding the buyer. -/
def settleEscrow : CompensationStep where
  name := "settleEscrow"
  compensate := fun context _ => do
    let outcome ← op (.refund context.workflowId .systemError)
    if outcome.status = .failed then .fail (outcome.reason.getD "Escrow refund failed")
    else return context

def defaultPurchaseCompensationSteps : List CompensationStep := [fundEscrow, confirmPurchase, settleEscrow]

/-- `ESCROW_CRITICAL_STEPS` -/
def escrowCritical (step : String) : Bool := step = "fundEscrow" || step = "settleEscrow"

structure CompensationResult where
  status : CompensationStatus
  compensatedSteps : List String
  failedSteps : List FailedStep
  finalContext : PurchaseContext
  escrowStuck : Bool

structure Progress where
  compensatedSteps : List String
  failedSteps : List FailedStep
  currentContext : PurchaseContext
  escrowStuck : Bool

def registered (allSteps : List CompensationStep) (stepName : String) : Option CompensationStep :=
  allSteps.reverse.find? fun step => decide (step.name = stepName)

section
variable (workflowId cause : String) (allSteps : List CompensationStep)

/-- The `catch` of a step. -/
def recordFailure (progress : Progress) (stepName message : String) : CompensationM Progress := do
  -- an audit record that cannot be written is logged
  let _ ← (op (.insertWorkflowTransitionAudit
    { orderId := workflowId, fromState := some stepName
      toState := s!"{stepName}_compensation_failed"
      eventType := "COMPENSATION_FAILED" })).attempt
  return { progress with
    failedSteps := progress.failedSteps ++ [⟨stepName, message⟩]
    escrowStuck := progress.escrowStuck || escrowCritical stepName }

def compensateStep (progress : Progress) (stepName : String) : CompensationM Progress :=
  match registered allSteps stepName with
  | none => return { progress with
      failedSteps := progress.failedSteps ++ [⟨stepName, "No compensator registered"⟩] }
  | some step => do
    let compensated ← (step.compensate progress.currentContext cause).attempt
    match compensated with
    | .error message => recordFailure workflowId progress stepName message
    | .ok context => do
      -- the context is taken over before the audit record is written
      let audited ← (op (.insertWorkflowTransitionAudit
        { orderId := workflowId, fromState := some stepName
          toState := s!"{stepName}_compensated"
          eventType := "COMPENSATION" })).attempt
      match audited with
      | .error message => recordFailure workflowId { progress with currentContext := context } stepName message
      | .ok _ => return { progress with
          compensatedSteps := progress.compensatedSteps ++ [stepName]
          currentContext := context }

def compensateSteps : List String → Progress → CompensationM Progress
  | [], progress => return progress
  | stepName :: rest, progress => do
    let progress ← compensateStep workflowId cause allSteps progress stepName
    compensateSteps rest progress

/-- The end of a run: what came of it is stored, and an escrow that is stuck is sent to the
dead letter queue. -/
def finish (progress : Progress) : CompensationM CompensationResult := do
  let status : CompensationStatus := if progress.failedSteps.length = 0 then .success else .partialFailure
  let _ ← (op (.upsertCompensationOutcome
    { workflowId := workflowId, status := if progress.escrowStuck then .escrowStuck else .ended status
      compensatedSteps := progress.compensatedSteps, failedSteps := progress.failedSteps
      cause := some cause })).attempt
  let result : CompensationResult :=
    ⟨status, progress.compensatedSteps, progress.failedSteps, progress.currentContext, progress.escrowStuck⟩
  if progress.escrowStuck then do
    let stuckStep := progress.failedSteps.find? fun failed => escrowCritical failed.step
    let step := (stuckStep.map FailedStep.step).getD "unknown step"
    let error := (stuckStep.map FailedStep.error).getD cause
    let _ ← (op (.moveToDeadLetter
      { sagaId := workflowId, orderId := workflowId
        reason := s!"Escrow compensation stuck: {step} — {error}", originalStatus := "failed"
        context := progress.currentContext })).attempt
    return result
  else return result

def runCompensation (completedStepNames : List String) (context : PurchaseContext) :
    CompensationM CompensationResult := do
  let progress ← compensateSteps workflowId cause allSteps completedStepNames.reverse ⟨[], [], context, false⟩
  finish workflowId cause progress

end

end Delego.Purchase
