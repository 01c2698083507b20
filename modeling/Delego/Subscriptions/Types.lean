import Delego.Data.Calendar
import Delego.Data.Text
import Delego.Data.Table
import Delego.Process.Serial

/-! Recurring payments: what the subscription service stores, and what it calls (`payments/src/subscriptions/types.ts`, the
stores beside it, migration 017).

A time, or an ISO string, is a number of milliseconds. A charge is found by its subscription and the start of its period,
the unique key of the table and, for identifiers without a colon, of the in-memory store. Plans do not change here.

Calls of one subscription are taken one after another (`Process/Serial.lean`); every operation may throw, and a write that
throws may have been made or not. -/
namespace Delego.Subscriptions
open Delego.Process Delego.Data

inductive BillingInterval where
  | day | week | month | year

structure SubscriptionPlan where
  (id amount currency : String)
  interval : BillingInterval
  intervalCount : Int
  trialDays : Option Int := none
  usageBased : Bool := false
  /-- Caps a usage-based charge; ignored for flat-rate plans. -/
  maxAmount : Option String := none

inductive SubscriptionStatus where
  | active | paused | cancelled | pastDue | trialing
  deriving DecidableEq

def SubscriptionStatus.text : SubscriptionStatus → String
  | .active => "active"
  | .paused => "paused"
  | .cancelled => "cancelled"
  | .pastDue => "past_due"
  | .trialing => "trialing"

inductive PaymentMethodType where
  | escrow | wallet
  deriving DecidableEq

def PaymentMethodType.text : PaymentMethodType → String
  | .escrow => "escrow"
  | .wallet => "wallet"

structure SubscriptionPaymentMethod where
  type : PaymentMethodType
  escrowContractId : Option String := none

/-- A row of the subscriptions. -/
structure Subscription where
  (id planId buyerAddress sellerAddress : String)
  status : SubscriptionStatus
  (currentPeriodStart currentPeriodEnd : Int)
  trialEnd : Option Int
  cancelAtPeriodEnd : Bool
  paymentMethod : SubscriptionPaymentMethod

inductive SubscriptionError where
  | planNotFound (planId : String)
  | notFound (subscriptionId : String)
  | notActive (subscriptionId : String) (status : SubscriptionStatus)
  | unsupportedPaymentMethod (type : PaymentMethodType)
  | error (message : String)
  deriving DecidableEq

def SubscriptionError.message : SubscriptionError → String
  | .planNotFound planId => s!"Subscription plan {planId} not found"
  | .notFound subscriptionId => s!"Subscription {subscriptionId} not found"
  | .notActive subscriptionId status =>
    let text := status.text
    s!"Subscription {subscriptionId} is \"{text}\" and cannot be modified this way"
  | .unsupportedPaymentMethod type =>
    let text := type.text
    s!"Subscription billing for payment method \"{text}\" is not supported yet"
  | .error message => message

inductive ChargeStatus where
  | pending | succeeded | failed
  deriving DecidableEq

/-- The charge of a period. -/
structure SubscriptionCharge where
  (id subscriptionId : String)
  (periodStart periodEnd : Int)
  amount : String
  status : ChargeStatus
  escrowId : Option String := none
  fundTxHash : Option String := none
  releaseTxHash : Option String := none
  failureReason : Option String := none
  attemptCount : Nat := 0

def SubscriptionCharge.key (charge : SubscriptionCharge) : String × Int := (charge.subscriptionId, charge.periodStart)

structure UpsertChargeInput where
  subscriptionId : String
  (periodStart periodEnd : Int)
  amount : String

structure ChargeUpdate where
  status : Option ChargeStatus := none
  escrowId : Option String := none
  fundTxHash : Option String := none
  releaseTxHash : Option String := none
  /-- `null` clears the reason. -/
  failureReason : Option (Option String) := none

def SubscriptionCharge.apply (charge : SubscriptionCharge) (update : ChargeUpdate) : SubscriptionCharge :=
  { charge with
    status := update.status.getD charge.status
    escrowId := update.escrowId.or charge.escrowId
    fundTxHash := update.fundTxHash.or charge.fundTxHash
    releaseTxHash := update.releaseTxHash.or charge.releaseTxHash
    failureReason := update.failureReason.getD charge.failureReason }

def SubscriptionCharge.attempt (charge : SubscriptionCharge) : SubscriptionCharge :=
  { charge with attemptCount := charge.attemptCount + 1 }

structure CreateSubscriptionInput where
  (planId buyerAddress sellerAddress : String)
  paymentMethod : SubscriptionPaymentMethod
  /-- Overrides the plan's trial days; 0 skips the trial. -/
  trialDaysOverride : Option Int := none

structure SubscriptionUpdate where
  status : Option SubscriptionStatus := none
  currentPeriodStart : Option Int := none
  currentPeriodEnd : Option Int := none
  /-- `null` clears the end of the trial. -/
  trialEnd : Option (Option Int) := none
  cancelAtPeriodEnd : Option Bool := none

def Subscription.apply (subscription : Subscription) (update : SubscriptionUpdate) : Subscription :=
  { subscription with
    status := update.status.getD subscription.status
    currentPeriodStart := update.currentPeriodStart.getD subscription.currentPeriodStart
    currentPeriodEnd := update.currentPeriodEnd.getD subscription.currentPeriodEnd
    trialEnd := update.trialEnd.getD subscription.trialEnd
    cancelAtPeriodEnd := update.cancelAtPeriodEnd.getD subscription.cancelAtPeriodEnd }

inductive SubscriptionEvent where
  | created (subscriptionId planId : String) (trialing : Bool)
  | renewed (subscriptionId : String) (periodStart periodEnd : Int) (amount : String) (txHash : Option String)
  | paymentFailed (subscriptionId : String) (reason : Option String) (periodStart : Int)
  | paused (subscriptionId : String)
  | cancelled (subscriptionId : String) (immediate : Bool)

/-- The order reference of a deposit is a digest; it is given by the subscription and the
period start that it is the digest of. -/
inductive ContractCall where
  | deposit (buyer seller currency amount : String) (reference : String × Int) (timeoutLedgers : Int)
  | release (escrowId : Nat) (caller : String)

structure TransactionRequest where
  (sourceAddress contractId : String)
  call : ContractCall
  amountStroops : Option String := none

structure TransactionResult where
  success : Bool
  hash : String

inductive Op where
  | findPlan (planId : String)
  /-- The identifier is drawn by the store. -/
  | createSubscription (id : String) (input : CreateSubscriptionInput) (status : SubscriptionStatus)
      (currentPeriodStart currentPeriodEnd : Int) (trialEnd : Option Int)
  | findSubscription (id : String)
  | updateSubscription (id : String) (update : SubscriptionUpdate)
  | findDue (now : Int) (statuses : List SubscriptionStatus)
  | findPendingCancellation (now : Int)
  /-- The identifier is drawn by the store where the charge is new. -/
  | getOrCreateCharge (id : String) (input : UpsertChargeInput)
  | updateCharge (id : String) (update : ChargeUpdate)
  | incrementAttempt (id : String)
  | submitContractInvocation (request : TransactionRequest)
  | extractEscrowIdFromTx (txHash : String)
  | emitSubscriptionEvent (event : SubscriptionEvent)
  | now

@[reducible] def Op.Reply : Op → Type
  | .findPlan _ => Option SubscriptionPlan
  | .createSubscription .. => Subscription
  | .findSubscription _ => Option Subscription
  | .updateSubscription .. => Subscription
  | .findDue .. => List Subscription
  | .findPendingCancellation _ => List Subscription
  | .getOrCreateCharge .. => SubscriptionCharge
  | .updateCharge .. => SubscriptionCharge
  | .incrementAttempt _ => SubscriptionCharge
  | .submitContractInvocation _ => TransactionResult
  | .extractEscrowIdFromTx _ => String
  | .emitSubscriptionEvent _ => Unit
  | .now => Int

@[reducible] def subscriptionSignature : Signature := ⟨Op, Op.Reply, SubscriptionError⟩

abbrev SubscriptionM := Program subscriptionSignature

def perform (o : Op) : SubscriptionM o.Reply := Program.perform (S := subscriptionSignature) o

def raise {α : Type} (e : SubscriptionError) : SubscriptionM α := .fail e

/-- What is stored, and what calls leave behind them. -/
structure World where
  plans : List SubscriptionPlan
  subscriptions : List Subscription
  charges : List SubscriptionCharge
  /-- The deposit invocations that succeeded, by their references. -/
  deposits : List (String × Int)
  /-- The start of the first period of each subscription. -/
  begun : List (String × Int)

/-- How an operation comes out: answered, with what the chain, the clock or the node say
where they are asked; not made; or made, with its answer lost. -/
inductive Choice where
  | answered (tx : TransactionResult) (text : String) (time : Int)
  | failed (e : SubscriptionError)
  | lost (e : SubscriptionError)

def notFoundCharge (id : String) : SubscriptionError := .error s!"Subscription charge not found: {id}"

def notFoundSubscription (id : String) : SubscriptionError := .error s!"Subscription not found: {id}"

@[simp] def answer (tx : TransactionResult) (text : String) (time : Int) :
    (o : Op) → World → Except SubscriptionError (o.Reply × World)
  | .findPlan planId, w => .ok (lookup SubscriptionPlan.id w.plans planId, w)
  | .createSubscription id input status periodStart periodEnd trialEnd, w =>
    if (lookup Subscription.id w.subscriptions id).isSome then .error (.error s!"duplicate key: {id}")
    else
      let subscription : Subscription :=
        { id := id, planId := input.planId, buyerAddress := input.buyerAddress
          sellerAddress := input.sellerAddress, status := status, currentPeriodStart := periodStart
          currentPeriodEnd := periodEnd, trialEnd := trialEnd, cancelAtPeriodEnd := false
          paymentMethod := input.paymentMethod }
      .ok (subscription,
        { w with
          subscriptions := w.subscriptions ++ [subscription]
          begun := w.begun ++ [(id, periodStart)] })
  | .findSubscription id, w => .ok (lookup Subscription.id w.subscriptions id, w)
  | .updateSubscription id update, w =>
    match lookup Subscription.id w.subscriptions id with
    | some existing =>
      .ok (existing.apply update,
        { w with subscriptions := replace Subscription.id w.subscriptions (existing.apply update) })
    | none => .error (notFoundSubscription id)
  | .findDue now statuses, w =>
    .ok (w.subscriptions.filter fun s => statuses.contains s.status && decide (s.currentPeriodEnd ≤ now), w)
  | .findPendingCancellation now, w =>
    .ok (w.subscriptions.filter fun s =>
      s.cancelAtPeriodEnd && decide (s.status ≠ .cancelled) && decide (s.currentPeriodEnd ≤ now), w)
  | .getOrCreateCharge id input, w =>
    match lookup SubscriptionCharge.key w.charges (input.subscriptionId, input.periodStart) with
    | some existing => .ok (existing, w)
    | none =>
      if (lookup SubscriptionCharge.id w.charges id).isSome then .error (.error s!"duplicate key: {id}")
      else
        let charge : SubscriptionCharge :=
          { id := id, subscriptionId := input.subscriptionId, periodStart := input.periodStart
            periodEnd := input.periodEnd, amount := input.amount
            status := .pending }
        .ok (charge, { w with charges := w.charges ++ [charge] })
  | .updateCharge id update, w =>
    match lookup SubscriptionCharge.id w.charges id with
    | some existing =>
      .ok (existing.apply update, { w with charges := replace SubscriptionCharge.id w.charges (existing.apply update) })
    | none => .error (notFoundCharge id)
  | .incrementAttempt id, w =>
    match lookup SubscriptionCharge.id w.charges id with
    | some existing =>
      .ok (existing.attempt, { w with charges := replace SubscriptionCharge.id w.charges existing.attempt })
    | none => .error (notFoundCharge id)
  | .submitContractInvocation request, w =>
    .ok (tx, match request.call with
      | .deposit _ _ _ _ reference _ => if tx.success then { w with deposits := w.deposits ++ [reference] } else w
      | .release .. => w)
  | .extractEscrowIdFromTx _, w => .ok (text, w)
  | .emitSubscriptionEvent _, w => .ok ((), w)
  | .now, w => .ok (time, w)

def Op.throws : Op → Bool
  | .emitSubscriptionEvent _ => false
  | .now => false
  | _ => true

/-- An invocation that throws has not succeeded. -/
def outcome (o : Op) (ch : Choice) (w : World) : subscriptionSignature.Result o × World :=
  let answered := match ch with
    | .answered tx text time => answer tx text time o w
    | _ => answer ⟨false, ""⟩ "" 0 o w
  match answered with
  | .error e => (.error e, w)
  | .ok (a, w') => match ch with
    | .answered .. => (.ok a, w')
    | .failed e => if o.throws then (.error e, w) else (.ok a, w')
    | .lost e => if o.throws then (.error e, w') else (.ok a, w')

def does : Effect subscriptionSignature World := fun o w r w' => ∃ ch, (r, w') = outcome o ch w

theorem does_cases {o : Op} {w w' : World} {r : subscriptionSignature.Result o} (h : does o w r w') :
    w' = w ∧ (∃ e, r = .error e) ∨
      ∃ tx text time a, answer tx text time o w = .ok (a, w') ∧ (r = .ok a ∨ tx.success = false ∧ ∃ e, r = .error e) := by
  obtain ⟨ch, h⟩ := h
  cases ch with
  | answered tx text time =>
    simp only [outcome] at h
    split at h
    · cases h
      exact .inl ⟨rfl, _, rfl⟩
    · rename_i hans
      cases h
      exact .inr ⟨tx, text, time, _, hans, .inl rfl⟩
  | failed e =>
    simp only [outcome] at h
    split at h
    · cases h
      exact .inl ⟨rfl, _, rfl⟩
    rename_i hans
    split at h
    · cases h
      exact .inl ⟨rfl, e, rfl⟩
    · cases h
      exact .inr ⟨_, _, _, _, hans, .inl rfl⟩
  | lost e =>
    simp only [outcome] at h
    split at h
    · cases h
      exact .inl ⟨rfl, _, rfl⟩
    rename_i hans
    split at h
    · cases h
      exact .inr ⟨_, _, _, _, hans, .inr ⟨rfl, e, rfl⟩⟩
    · cases h
      exact .inr ⟨_, _, _, _, hans, .inl rfl⟩

end Delego.Subscriptions
