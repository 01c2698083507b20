import Delego.Subscriptions.Billing

/-! Subscriptions and their billing cycle (`payments/src/subscriptions/service.ts`,
`billingCycle.ts`, `billingScheduler.ts`).

A subscription is created with its first period, which is charged at once unless there is
a trial; a renewal charges the period that starts where the current one ends and makes it
the current one. A date that is out of range is thrown where it is written down
(`toISOString`). -/
namespace Delego.Subscriptions
open Delego.Process Delego.Data

def WEEK_MS : Int := 7 * msPerDay

def clampDay (anchorDay : Int) (result : Option Int) : Option Int :=
  result.bind fun t => if getUTCDate t ≠ anchorDay then setUTCDate t 0 else some t

/-- `start` advanced by one billing period. -/
def addBillingInterval (start : Int) (interval : BillingInterval) (intervalCount : Int) :
    Except SubscriptionError (Option Int) :=
  if intervalCount ≤ 0 then .error (.error "intervalCount must be a positive integer")
  else .ok (match interval with
    | .day => timeClip (start + intervalCount * msPerDay)
    | .week => timeClip (start + intervalCount * WEEK_MS)
    | .month => clampDay (getUTCDate start) (setUTCMonth start (getUTCMonth start + intervalCount))
    | .year => clampDay (getUTCDate start) (setUTCFullYear start (getUTCFullYear start + intervalCount)))

structure InitialPeriod where
  periodStart : Int
  periodEnd : Option Int
  trialing : Bool

def computeInitialPeriod (start : Int) (interval : BillingInterval) (intervalCount : Int) (trialDays : Option Int) :
    Except SubscriptionError InitialPeriod :=
  let days := trialDays.getD 0
  if days > 0 then .ok ⟨start, timeClip (start + days * msPerDay), true⟩
  else do
    let periodEnd ← addBillingInterval start interval intervalCount
    return ⟨start, periodEnd, false⟩

def orThrow {α : Type} : Except SubscriptionError α → SubscriptionM α
  | .ok a => return a
  | .error e => raise e

def toISOString : Option Int → SubscriptionM Int
  | some t => return t
  | none => raise (.error "Invalid time value")

/-! ### Subscriptions -/

def getSubscriptionPlan (planId : String) : SubscriptionM SubscriptionPlan := do
  let plan ← perform (.findPlan planId)
  match plan with
  | some plan => return plan
  | none => raise (.planNotFound planId)

def getSubscription (subscriptionId : String) : SubscriptionM Subscription := do
  let subscription ← perform (.findSubscription subscriptionId)
  match subscription with
  | some subscription => return subscription
  | none => raise (.notFound subscriptionId)

def chargeFirstPeriod (cfg : Settings) (chargeId : String) (subscription : Subscription)
    (plan : SubscriptionPlan) (periodStart periodEnd : Int) : SubscriptionM Subscription := do
  let charge ← chargeSubscriptionPeriod cfg chargeId subscription plan periodStart periodEnd plan.amount
  if charge.status ≠ .succeeded then do
    let subscription ← perform (.updateSubscription subscription.id { status := some .pastDue })
    let _ ← perform (.emitSubscriptionEvent (.paymentFailed subscription.id charge.failureReason periodStart))
    return subscription
  else return subscription

def startSubscription (cfg : Settings) (id chargeId : String) (input : CreateSubscriptionInput)
    (plan : SubscriptionPlan) (initial : InitialPeriod) (periodEnd : Int) : SubscriptionM Subscription := do
  let status := if initial.trialing then SubscriptionStatus.trialing else .active
  let trialEnd := if initial.trialing then some periodEnd else none
  let subscription ← perform (.createSubscription id input status initial.periodStart periodEnd trialEnd)
  let _ ← perform (.emitSubscriptionEvent (.created subscription.id plan.id initial.trialing))
  if initial.trialing then return subscription
  else chargeFirstPeriod cfg chargeId subscription plan initial.periodStart periodEnd

def createSubscription (cfg : Settings) (id chargeId : String) (input : CreateSubscriptionInput) :
    SubscriptionM Subscription := do
  let plan ← getSubscriptionPlan input.planId
  let now ← perform .now
  let trialDays := input.trialDaysOverride.or plan.trialDays
  let initial ← orThrow (computeInitialPeriod now plan.interval plan.intervalCount trialDays)
  let periodEnd ← toISOString initial.periodEnd
  startSubscription cfg id chargeId input plan initial periodEnd

structure RenewSubscriptionOptions where
  usageAmount : Option String := none
  force : Bool := false

/-- `BigInt(s)` -/
def parseBigInt (conv : Conversions) (s : String) : SubscriptionM Int :=
  match conv.bigInt s with
  | some n => return n
  | none => raise (.error s!"Cannot convert {s} to a BigInt")

def resolveChargeAmount (conv : Conversions) (plan : SubscriptionPlan) (usageAmount : Option String) :
    SubscriptionM String :=
  match usageAmount with
  | none => return plan.amount
  | some usageAmount =>
    if !plan.usageBased then return plan.amount
    else match plan.maxAmount with
      | none => return usageAmount
      | some maxAmount => do
        let usage ← parseBigInt conv usageAmount
        let limit ← parseBigInt conv maxAmount
        if usage > limit then return maxAmount else return usageAmount

def chargeNextPeriod (cfg : Settings) (chargeId : String) (subscription : Subscription)
    (plan : SubscriptionPlan) (periodEnd : Int) (amount : String) : SubscriptionM Subscription := do
  let periodStart := subscription.currentPeriodEnd
  let charge ← chargeSubscriptionPeriod cfg chargeId subscription plan periodStart periodEnd amount
  if charge.status ≠ .succeeded then do
    let failed ← perform (.updateSubscription subscription.id { status := some .pastDue })
    let _ ← perform (.emitSubscriptionEvent (.paymentFailed subscription.id charge.failureReason periodStart))
    return failed
  else do
    let renewed ← perform (.updateSubscription subscription.id {
      status := some .active
      currentPeriodStart := some periodStart
      currentPeriodEnd := some periodEnd
      trialEnd := some none })
    let _ ← perform (.emitSubscriptionEvent (.renewed subscription.id periodStart periodEnd amount charge.releaseTxHash))
    return renewed

def renewSubscription (cfg : Settings) (chargeId subscriptionId : String) (options : RenewSubscriptionOptions) :
    SubscriptionM Subscription := do
  let subscription ← getSubscription subscriptionId
  let plan ← getSubscriptionPlan subscription.planId
  if subscription.status ≠ .active ∧ subscription.status ≠ .pastDue ∧ subscription.status ≠ .trialing then
    raise (.notActive subscriptionId subscription.status)
  else do
    let now ← perform .now
    if !options.force && decide (subscription.currentPeriodEnd > now) then
      -- Not due yet: unchanged rather than charged early.
      return subscription
    else do
      let amount ← resolveChargeAmount cfg.conv plan options.usageAmount
      let next ← orThrow (addBillingInterval subscription.currentPeriodEnd plan.interval plan.intervalCount)
      let periodEnd ← toISOString next
      chargeNextPeriod cfg chargeId subscription plan periodEnd amount

def pauseSubscription (subscriptionId : String) : SubscriptionM Subscription := do
  let subscription ← getSubscription subscriptionId
  if subscription.status = .cancelled then raise (.notActive subscriptionId subscription.status)
  else do
    let updated ← perform (.updateSubscription subscriptionId { status := some .paused })
    let _ ← perform (.emitSubscriptionEvent (.paused subscriptionId))
    return updated

def resumeSubscription (subscriptionId : String) : SubscriptionM Subscription := do
  let subscription ← getSubscription subscriptionId
  if subscription.status ≠ .paused then raise (.notActive subscriptionId subscription.status)
  else perform (.updateSubscription subscriptionId { status := some .active })

def cancelSubscription (subscriptionId : String) (atPeriodEnd : Bool) : SubscriptionM Subscription := do
  let subscription ← getSubscription subscriptionId
  if subscription.status = .cancelled then return subscription
  else if atPeriodEnd then perform (.updateSubscription subscriptionId { cancelAtPeriodEnd := some true })
  else do
    let cancelled ← perform (.updateSubscription subscriptionId
      { status := some .cancelled, cancelAtPeriodEnd := some false })
    let _ ← perform (.emitSubscriptionEvent (.cancelled subscriptionId true))
    return cancelled

def DUE_STATUSES : List SubscriptionStatus := [.active, .pastDue, .trialing]

structure BillingCycleResult where
  renewed : List Subscription := []
  failed : List Subscription := []
  cancelled : List Subscription := []

/-- Renewal of what is due; what a renewal throws is logged. -/
def renewDue (cfg : Settings) (draw : String → String) :
    List Subscription → BillingCycleResult → SubscriptionM BillingCycleResult
  | [], result => return result
  | subscription :: rest, result =>
    if subscription.cancelAtPeriodEnd then renewDue cfg draw rest result
    else do
      let updated ← (renewSubscription cfg (draw subscription.id) subscription.id { force := true }).attempt
      renewDue cfg draw rest (match updated with
        | .ok updated =>
          if updated.status = .pastDue then { result with failed := result.failed ++ [updated] }
          else { result with renewed := result.renewed ++ [updated] }
        | .error _ => result)

def finalizeCancellations : List Subscription → BillingCycleResult → SubscriptionM BillingCycleResult
  | [], result => return result
  | subscription :: rest, result => do
    let cancelled ← (do
      let cancelled ← perform (.updateSubscription subscription.id { status := some .cancelled })
      let _ ← perform (.emitSubscriptionEvent (.cancelled subscription.id false))
      return cancelled : SubscriptionM Subscription).attempt
    finalizeCancellations rest (match cancelled with
      | .ok cancelled => { result with cancelled := result.cancelled ++ [cancelled] }
      | .error _ => result)

/-- `draw` gives the identifiers of new charges, by their subscriptions. -/
def runBillingCycle (cfg : Settings) (draw : String → String) (now : Int) : SubscriptionM BillingCycleResult := do
  let due ← perform (.findDue now DUE_STATUSES)
  let result ← renewDue cfg draw due {}
  let pendingCancellation ← perform (.findPendingCancellation now)
  finalizeCancellations pendingCancellation result

inductive Call where
  | create (id chargeId : String) (input : CreateSubscriptionInput)
  | renew (chargeId subscriptionId : String) (options : RenewSubscriptionOptions)
  | pause (subscriptionId : String)
  | resume (subscriptionId : String)
  | cancel (subscriptionId : String) (atPeriodEnd : Bool)
  | billingCycle (draw : String → String) (now : Int)

def Call.body (cfg : Settings) : Call → SubscriptionM Unit
  | .create id chargeId input => do
    let _ ← createSubscription cfg id chargeId input
    return ()
  | .renew chargeId subscriptionId options => do
    let _ ← renewSubscription cfg chargeId subscriptionId options
    return ()
  | .pause subscriptionId => do
    let _ ← pauseSubscription subscriptionId
    return ()
  | .resume subscriptionId => do
    let _ ← resumeSubscription subscriptionId
    return ()
  | .cancel subscriptionId atPeriodEnd => do
    let _ ← cancelSubscription subscriptionId atPeriodEnd
    return ()
  | .billingCycle draw now => do
    let _ ← runBillingCycle cfg draw now
    return ()

end Delego.Subscriptions
