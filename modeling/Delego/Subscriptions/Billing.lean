import Delego.Subscriptions.Types

/-! Escrow-backed billing of one period (`payments/src/subscriptions/billing.ts`).

A charge deposits the period's amount in escrow and releases it at once; it is marked
succeeded only after the release. A charge that is not marked so is made again from the
deposit on, whatever became of the deposit before: a period is funded at most once only
if no call is made for a period that is funded and not marked (`SettledFirst`,
`funded_once`), and twice after a release that failed (`funded_twice`). -/
namespace Delego.Subscriptions
open Delego.Process Delego.Data

structure Settings where
  conv : Conversions
  /-- `ESCROW_CONTRACT_ID` -/
  escrowContractId : Option String
  /-- `SUBSCRIPTION_ESCROW_TIMEOUT_LEDGERS` -/
  timeoutLedgers : Int := 17280

def Settings.getEscrowContractId (cfg : Settings) : SubscriptionM String :=
  match cfg.escrowContractId.filter fun id => decide (id ≠ "") with
  | some id => return id
  | none => raise (.error "ESCROW_CONTRACT_ID environment variable is not configured")

/-- `subscription.paymentMethod.escrowContractId ?? getEscrowContractId()` -/
def Settings.contractIdOf (cfg : Settings) (paymentMethod : SubscriptionPaymentMethod) : SubscriptionM String :=
  match paymentMethod.escrowContractId with
  | some contractId => return contractId
  | none => cfg.getEscrowContractId

def parseEscrowId (conv : Conversions) (escrowId : String) : SubscriptionM Nat :=
  match conv.number escrowId with
  | some id => return id
  | none => raise (.error s!"Invalid escrow ID returned for subscription charge: {escrowId}")

section
variable (cfg : Settings) (subscription : Subscription) (plan : SubscriptionPlan) (periodStart : Int)
  (amount contractId : String)

def depositRequest : TransactionRequest where
  sourceAddress := subscription.buyerAddress
  contractId := contractId
  call := .deposit subscription.buyerAddress subscription.sellerAddress plan.currency amount
    (subscription.id, periodStart) cfg.timeoutLedgers
  amountStroops := some amount

def releaseRequest (escrowId : Nat) : TransactionRequest where
  sourceAddress := subscription.sellerAddress
  contractId := contractId
  call := .release escrowId subscription.sellerAddress

/-- The two invocations, and what the charge is marked with after them. The update itself
is not awaited in the `try`, so what it throws is not caught. -/
def fundAndRelease (chargeId : String) : SubscriptionM ChargeUpdate := do
  let fundTx ← perform (.submitContractInvocation (depositRequest cfg subscription plan periodStart amount contractId))
  if !fundTx.success then return { status := some .failed, failureReason := some (some "Fund transaction failed on-chain") }
  else do
    let escrowId ← perform (.extractEscrowIdFromTx fundTx.hash)
    let _ ← perform (.updateCharge chargeId { fundTxHash := some fundTx.hash, escrowId := some escrowId })
    let id ← parseEscrowId cfg.conv escrowId
    let releaseTx ← perform (.submitContractInvocation (releaseRequest subscription contractId id))
    if !releaseTx.success then
      return {
        status := some .failed
        failureReason := some (some "Release transaction failed on-chain after funding succeeded") }
    else return { status := some .succeeded, releaseTxHash := some releaseTx.hash, failureReason := some none }

end

def chargeSubscriptionPeriod (cfg : Settings) (chargeId : String) (subscription : Subscription)
    (plan : SubscriptionPlan) (periodStart periodEnd : Int) (amount : String) :
    SubscriptionM SubscriptionCharge := do
  let charge ← perform (.getOrCreateCharge chargeId ⟨subscription.id, periodStart, periodEnd, amount⟩)
  if charge.status = .succeeded then return charge
  else if subscription.paymentMethod.type ≠ .escrow then raise (.unsupportedPaymentMethod subscription.paymentMethod.type)
  else do
    let charge ← perform (.incrementAttempt charge.id)
    let contractId ← cfg.contractIdOf subscription.paymentMethod
    let outcome ← (fundAndRelease cfg subscription plan periodStart amount contractId charge.id).attempt
    match outcome with
    | .ok update => perform (.updateCharge charge.id update)
    | .error e => perform (.updateCharge charge.id { status := some .failed, failureReason := some (some e.message) })

/-! ### Deposits of a call -/

def World.Charged (w : World) (k : String × Int) : Prop :=
  ∃ charge, lookup SubscriptionCharge.key w.charges k = some charge ∧ charge.status = .succeeded

theorem deposits_of_does {o : Op} {w w' : World} {r : subscriptionSignature.Result o} (h : does o w r w')
    (ho : ∀ request, o = .submitContractInvocation request → ∃ id caller, request.call = .release id caller) :
    w'.deposits = w.deposits := by
  rcases does_cases h with ⟨rfl, -⟩ | ⟨tx, text, time, a, hans, -⟩
  · rfl
  cases o with
  | submitContractInvocation request =>
    obtain ⟨id, caller, hcall⟩ := ho request rfl
    simp only [answer, hcall] at hans
    cases hans
    rfl
  | createSubscription id input status periodStart periodEnd trialEnd =>
    simp only [answer] at hans
    split at hans
    · cases hans
    · cases hans
      rfl
  | updateSubscription id update =>
    simp only [answer] at hans
    split at hans
    · cases hans
      rfl
    · cases hans
  | getOrCreateCharge id input =>
    simp only [answer] at hans
    split at hans
    · cases hans
      rfl
    · split at hans
      · cases hans
      · cases hans
        rfl
  | updateCharge id update =>
    simp only [answer] at hans
    split at hans
    · cases hans
      rfl
    · cases hans
  | incrementAttempt id =>
    simp only [answer] at hans
    split at hans
    · cases hans
      rfl
    · cases hans
  | _ =>
    cases hans
    rfl

theorem deposit_cases {w w' : World} {request : TransactionRequest} {buyer seller currency amount : String}
    {reference : String × Int} {timeoutLedgers : Int}
    (hcall : request.call = .deposit buyer seller currency amount reference timeoutLedgers)
    {r : subscriptionSignature.Result (.submitContractInvocation request)}
    (h : does (.submitContractInvocation request) w r w') :
    w'.deposits = w.deposits ∧ (∀ tx, r = .ok tx → tx.success = false) ∨ w'.deposits = w.deposits ++ [reference] := by
  rcases does_cases h with ⟨rfl, e, rfl⟩ | ⟨tx, text, time, a, hans, hr⟩
  · refine .inl ⟨rfl, ?_⟩
    rintro tx ⟨⟩
  simp only [answer, hcall] at hans
  cases hans
  by_cases hsucs : tx.success = true
  · rw [if_pos hsucs]
    exact .inr rfl
  · rw [if_neg hsucs]
    refine .inl ⟨rfl, ?_⟩
    rintro tx' rfl
    rcases hr with hok | ⟨-, e, herror⟩
    · cases hok
      simpa using hsucs
    · cases herror

theorem getOrCreate_charged {w w' : World} {id : String} {input : UpsertChargeInput}
    {charge : SubscriptionCharge} (hchg : w.Charged (input.subscriptionId, input.periodStart))
    (h : does (.getOrCreateCharge id input) w (.ok charge) w') : charge.status = .succeeded := by
  obtain ⟨existing, hfound, hstat⟩ := hchg
  rcases does_cases h with ⟨-, e, herror⟩ | ⟨tx, text, time, a, hans, hok | ⟨-, e, herror⟩⟩
  · cases herror
  · simp only [answer, hfound] at hans
    cases hans
    cases hok
    exact hstat
  · cases herror

section
variable {cfg : Settings} {subscription : Subscription} {plan : SubscriptionPlan} {w : World}
  {deposits : List (String × Int)}

theorem follows_keeps {o : Op} (hw : w.deposits = deposits)
    (ho : ∀ request, o = .submitContractInvocation request → ∃ id caller, request.call = .release id caller) :
    Follows (machine does) w (perform o) fun _ w' => w'.deposits = deposits := by
  apply follows_op
  intro r w' h
  exact (deposits_of_does h ho).trans hw

theorem follows_contractIdOf {paymentMethod : SubscriptionPaymentMethod} :
    Follows (machine does) w (cfg.contractIdOf paymentMethod) fun _ w' => w' = w := by
  unfold Settings.contractIdOf
  split
  · exact rfl
  · unfold Settings.getEscrowContractId
    split
    · exact rfl
    · exact rfl

theorem follows_release {fundTx : TransactionResult} {chargeId contractId : String} (hw : w.deposits = deposits) :
    Follows (machine does) w
      (do
        let escrowId ← perform (.extractEscrowIdFromTx fundTx.hash)
        let _ ← perform (.updateCharge chargeId { fundTxHash := some fundTx.hash, escrowId := some escrowId })
        let id ← parseEscrowId cfg.conv escrowId
        let releaseTx ← perform (.submitContractInvocation (releaseRequest subscription contractId id))
        if !releaseTx.success then
          return {
            status := some .failed
            failureReason := some (some "Release transaction failed on-chain after funding succeeded") }
        else return { status := some .succeeded, releaseTxHash := some releaseTx.hash, failureReason := some none }
        : SubscriptionM ChargeUpdate)
      fun _ w' => w'.deposits = deposits := by
  apply follows_andThen (follows_keeps hw (by rintro request ⟨⟩))
  intro escrowId w₁ h₁
  apply follows_andThen (follows_keeps h₁ (by rintro request ⟨⟩))
  intro _ w₂ h₂
  apply follows_andThen
  · unfold parseEscrowId
    split
    · exact h₂
    · exact h₂
  intro id w₃ h₃
  apply follows_andThen
  · apply follows_keeps h₃
    rintro request ⟨⟩
    exact ⟨_, _, rfl⟩
  intro releaseTx w₄ h₄
  split
  · exact h₄
  · exact h₄

theorem follows_fundAndRelease {periodStart : Int} {amount contractId chargeId : String} :
    Follows (machine does) w (fundAndRelease cfg subscription plan periodStart amount contractId chargeId)
      fun _ w' => w'.deposits = w.deposits ∨ w'.deposits = w.deposits ++ [(subscription.id, periodStart)] := by
  apply follows_bind
  apply follows_op
  intro r w' h
  rcases deposit_cases rfl h with ⟨heq, hunsuccessful⟩ | hfunded
  · cases r with
    | error e => exact .inl heq
    | ok fundTx =>
      show Follows _ _ (if !fundTx.success then _ else _) _
      rw [if_pos (by simp [hunsuccessful fundTx rfl])]
      exact .inl heq
  · cases r with
    | error e => exact .inr hfunded
    | ok fundTx =>
      show Follows _ _ (if !fundTx.success then _ else _) _
      split
      · exact .inr hfunded
      · exact follows_mono (follows_release hfunded) fun _ _ hkept => .inr hkept

/-- **What a charge deposits.** At most once, and nothing where the charge is marked. -/
theorem follows_chargeSubscriptionPeriod {chargeId amount : String} {periodStart periodEnd : Int} :
    Follows (machine does) w (chargeSubscriptionPeriod cfg chargeId subscription plan periodStart periodEnd amount)
      fun _ w' => w'.deposits = w.deposits ∨ ¬w.Charged (subscription.id, periodStart) ∧
          w'.deposits = w.deposits ++ [(subscription.id, periodStart)] := by
  apply follows_bind
  apply follows_op
  intro r w₁ hget
  have h₁ : w₁.deposits = w.deposits := deposits_of_does hget (by rintro request ⟨⟩)
  cases r with
  | error e => exact .inl h₁
  | ok charge =>
    show Follows _ _ (if charge.status = .succeeded then _ else _) _
    split
    · exact .inl h₁
    rename_i hstat
    have hchg : ¬w.Charged (subscription.id, periodStart) := fun h => hstat (getOrCreate_charged h hget)
    split
    · exact .inl h₁
    refine follows_bind (follows_mono (follows_keeps h₁ (by rintro request ⟨⟩))
      (forall_except (fun _ _ h₂ => .inl h₂) fun _ _ h₂ => ?_))
    apply follows_bind
    refine follows_mono follows_contractIdOf ?_
    rintro r _ rfl
    cases r with
    | error e => exact .inl h₂
    | ok contractId =>
      refine follows_bind (follows_attempt (follows_mono follows_fundAndRelease ?_))
      intro r w₄ h₄
      rw [h₂] at h₄
      have hlast : w₄.deposits = w.deposits ∨ ¬w.Charged (subscription.id, periodStart) ∧
            w₄.deposits = w.deposits ++ [(subscription.id, periodStart)] := by
        rcases h₄ with h₄ | h₄
        · exact .inl h₄
        · exact .inr ⟨hchg, h₄⟩
      show Follows _ _ (match r with | .ok update => _ | .error e => _) _
      split
      · apply follows_op
        intro r w₅ hupdate
        rw [deposits_of_does hupdate (by rintro request ⟨⟩)]
        exact hlast
      · apply follows_op
        intro r w₅ hupdate
        rw [deposits_of_does hupdate (by rintro request ⟨⟩)]
        exact hlast

end

structure ChargeCall where
  chargeId : String
  subscription : Subscription
  plan : SubscriptionPlan
  (periodStart periodEnd : Int)
  amount : String

def ChargeCall.period (call : ChargeCall) : String × Int := (call.subscription.id, call.periodStart)

def ChargeCall.Performs (cfg : Settings) (call : ChargeCall) (w : World)
    (outcome : Except SubscriptionError SubscriptionCharge) (w' : World) : Prop :=
  Ends does (chargeSubscriptionPeriod cfg call.chargeId call.subscription call.plan call.periodStart
    call.periodEnd call.amount) w outcome w'

def SettledFirst (w : World) (call : ChargeCall) : Prop := call.period ∈ w.deposits → w.Charged call.period

/-- **Funded once** at most is a period in every run whose calls come before it is funded or after it is marked
succeeded. -/
theorem funded_once {cfg : Settings} {w₀ w : World} (start : w₀.deposits = [])
    (run : Relation.ReflTransGen (fun w w' => ∃ call outcome,
      SettledFirst w call ∧ call.Performs cfg w outcome w') w₀ w) (period : String × Int) :
    w.deposits.count period ≤ 1 := by
  induction run with
  | refl => simp [start]
  | tail _ hstep ih =>
    obtain ⟨call, outcome, hsett, hperforms⟩ := hstep
    rcases follows_chargeSubscriptionPeriod.ends hperforms with heq | ⟨hchg, hfunded⟩
    · rw [heq]
      exact ih
    · have hfirst : call.period ∉ _ := fun h => hchg (hsett h)
      rw [show _ = _ ++ [call.period] from hfunded, List.count_append]
      by_cases hper : call.period = period
      · rw [← hper, List.count_eq_zero.mpr hfirst]
        simp
      · rw [List.count_singleton, if_neg (by simpa using hper)]
        exact ih

def sampleSettings : Settings := ⟨decimal, some "contract-1", 17280⟩

def samplePlan : SubscriptionPlan := { id := "plan-1", amount := "100", currency := "token-1", interval := .day, intervalCount := 1 }

def sampleSubscription : Subscription where
  id := "subscription-1"
  planId := "plan-1"
  buyerAddress := "buyer-1"
  sellerAddress := "seller-1"
  status := .active
  currentPeriodStart := 0
  currentPeriodEnd := 86400000
  trialEnd := none
  cancelAtPeriodEnd := false
  paymentMethod := ⟨.escrow, none⟩

def sampleWorld : World := ⟨[samplePlan], [sampleSubscription], [], [], [("subscription-1", 0)]⟩

def sampleCall : ChargeCall := ⟨"charge-1", sampleSubscription, samplePlan, 0, 86400000, "100"⟩

def steady (released : Bool) (o : Op) : Choice :=
  let success := match o with
    | .submitContractInvocation ⟨_, _, .release .., _⟩ => released
    | _ => true
  .answered ⟨success, "tx"⟩ "7" 0

def charged (released : Bool) (w : World) : Except SubscriptionError SubscriptionCharge × World :=
  (chargeSubscriptionPeriod sampleSettings "charge-1" sampleSubscription samplePlan 0 86400000 "100").alone
    (fun o w => outcome o (steady released o) w) w

theorem performs_charged (released : Bool) (w : World) :
    sampleCall.Performs sampleSettings w (charged released w).1 (charged released w).2 :=
  Ends.of_alone (fun o _ => ⟨steady released o, rfl⟩) _ w

/-- A period charged twice, with every invocation succeeding. -/
theorem funded_once_at_sample : (charged true (charged true sampleWorld).2).2.deposits.count ("subscription-1", 0) ≤ 1 := by
  refine @funded_once sampleSettings sampleWorld _ rfl ?_ ("subscription-1", 0)
  refine .tail (.single ⟨sampleCall, _, ?_, performs_charged true _⟩) ⟨sampleCall, _, ?_, performs_charged true _⟩
  · intro h
    cases h
  · intro _
    exact ⟨_, rfl, rfl⟩

/-- The release fails and the charge is made again: the period is funded twice. -/
theorem funded_twice : sampleWorld.deposits = [] ∧
      Relation.ReflTransGen (fun w w' => ∃ outcome, sampleCall.Performs sampleSettings w outcome w')
        sampleWorld (charged true (charged false sampleWorld).2).2 ∧
      (charged true (charged false sampleWorld).2).2.deposits.count sampleCall.period = 2 := by
  refine ⟨rfl, ?_, by decide⟩
  exact .tail (.single ⟨_, performs_charged false _⟩) ⟨_, performs_charged true _⟩

end Delego.Subscriptions
