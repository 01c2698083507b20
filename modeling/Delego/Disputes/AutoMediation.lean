import Delego.Data.JsonParse
import Delego.Disputes.Service
import Delego.Process.Stepping

/-! Disputes that are mediated by rules (`payments/src/disputes/mediator.ts`).

The verdict is found from the tracking status first and from an accepted offer after that; the amounts are found from
the verdict and from whether there is an offer. What is submitted passes the check of `submitMediationDecision`, which
reads the balance again. -/
namespace Delego.Disputes
open Delego.Process Delego.Data Delego.Payments

inductive Verdict where
  | refundBuyer | payoutMerchant | escalateHuman
  deriving DecidableEq

structure DisputeMediationDecision where
  disputeId : String
  verdict : Verdict
  confidence : Number
  reasoning : String

inductive CarrierStatus where
  | delivered | returnToSender | inTransit | outForDelivery | failedDelivery | unknown
  deriving DecidableEq

def CarrierStatus.text : CarrierStatus → String
  | .delivered => "delivered"
  | .returnToSender => "return_to_sender"
  | .inTransit => "in_transit"
  | .outForDelivery => "out_for_delivery"
  | .failedDelivery => "failed_delivery"
  | .unknown => "unknown"

structure PartialRefundOffer where
  amountStroops : String

structure AutoMediationInput where
  disputeId : String
  /-- `tracking.carrierStatus` -/
  tracking : Option CarrierStatus
  partialRefundOffer : Option PartialRefundOffer

/-- The configuration, and the case conversion of strings. -/
structure AutoSettings extends Settings where
  DISPUTE_MEDIATOR_POOL : Option String
  /-- `parseFloat(process.env.DISPUTE_AUTO_EXECUTE_CONFIDENCE ?? "0.8")` -/
  AUTO_EXECUTE_CONFIDENCE_THRESHOLD : Number
  toLowerCase : String → String

def confidence (decimal : Rat) : Number := .finite ((decimal * 2 ^ 53 + 1 / 2).floor / 2 ^ 53)

structure Signals where
  verdict : Verdict
  confidence : Number
  reasoning : String

def analyzeEvidence (cfg : AutoSettings) (evidence : List DisputeEvidenceEntry) : Option Signals :=
  let allText := " ".intercalate (evidence.map fun e => cfg.toLowerCase e.description)
  if includes allText "returned to sender" || includes allText "return to sender" || includes allText "not received" ||
      includes allText "package lost" then
    some
      { verdict := .refundBuyer, confidence := confidence (75 / 100)
        reasoning := "Evidence descriptions contain clear indicators that goods were not received " ++
          "or were returned. Refunding buyer based on evidence analysis." }
  else if includes allText "proof of delivery" || includes allText "signed for" ||
      includes allText "delivered successfully" || includes allText "confirmed delivery" then
    some
      { verdict := .payoutMerchant, confidence := confidence (75 / 100)
        reasoning := "Evidence contains proof-of-delivery indicators. Releasing funds to merchant " ++
          "based on evidence analysis." }
  else none

def ruleSignals (cfg : AutoSettings) (evidence : List DisputeEvidenceEntry) (tracking : Option CarrierStatus)
    (partialRefundOffer : Option PartialRefundOffer) : Signals :=
  if tracking = some .returnToSender then
    { verdict := .refundBuyer, confidence := confidence (95 / 100)
      reasoning := "Carrier tracking confirms the package was returned to sender. " ++
        "Buyer is entitled to a full refund per return-to-sender policy." }
  else if tracking = some .delivered then
    { verdict := .payoutMerchant, confidence := confidence (90 / 100)
      reasoning := "Carrier tracking confirms the package was delivered successfully. " ++
        "Funds will be released to the merchant." }
  else
    match partialRefundOffer with
    | some offer =>
      { verdict := .refundBuyer, confidence := confidence (85 / 100)
        reasoning := s!"Merchant accepted a partial refund offer of {offer.amountStroops} stroops. " ++
          "The agreed partial refund will be executed and remaining funds released to the merchant." }
    | none =>
      if tracking = some .failedDelivery then
        { verdict := .refundBuyer, confidence := confidence (80 / 100)
          reasoning := "Carrier tracking indicates a failed delivery attempt. " ++
            "Buyer will be refunded as the item was not delivered." }
      else
        (analyzeEvidence cfg evidence).getD
          { verdict := .escalateHuman, confidence := confidence 1, reasoning := match tracking with
              | some status => s!"Carrier status is \"{status.text}\" — insufficient evidence for automated resolution."
              | none => "No carrier tracking data available and evidence is ambiguous." }

def evaluateDisputeRules (cfg : AutoSettings) (dispute : Dispute) (evidence : List DisputeEvidenceEntry)
    (tracking : Option CarrierStatus) (partialRefundOffer : Option PartialRefundOffer) : DisputeMediationDecision :=
  let signals := ruleSignals cfg evidence tracking partialRefundOffer
  ⟨dispute.id, signals.verdict, signals.confidence, signals.reasoning⟩

inductive AutoEventType where
  | disputeAutoMediationEvaluated | disputeEscalatedToHuman | disputeAutoMediationFailed

structure AutoEvent where
  type : AutoEventType
  (disputeId escrowId : String)
  decision : Option DisputeMediationDecision := none
  reasoning : Option String := none
  confidence : Option Number := none
  error : Option String := none

/-- What is awaited beside the operations of the mediation: the dispute with its evidence, an entry of the audit log,
and the next turn of the mediators. -/
inductive AutoOp where
  | findById (disputeId : String)
  | recordAuditEvent (event : AutoEvent)
  | nextMediator

@[reducible] def AutoOp.Reply : AutoOp → Type
  | .findById _ => Option (Dispute × List DisputeEvidenceEntry)
  | .recordAuditEvent _ => Unit
  | .nextMediator => Nat

@[reducible] def autoSignature : Signature := mediationSignature.extend AutoOp AutoOp.Reply

abbrev AutoM := Program autoSignature

def mediation {α : Type} (p : MediationM α) : AutoM α := p.lift

def auto (o : AutoOp) : AutoM o.Reply := Program.perform (S := autoSignature) (.inr o)

def autoAssignMediator (cfg : AutoSettings) (disputeId : String) : AutoM Dispute := do
  let pool := (((cfg.DISPUTE_MEDIATOR_POOL.getD "").splitOn ",").map cfg.conv.trim).filter
    fun mediator => decide (mediator ≠ "")
  match pool with
  | [] => .fail (.other "DISPUTE_MEDIATOR_POOL is not configured; assign a mediator explicitly")
  | first :: rest => do
    let cursor ← auto .nextMediator
    let mediator := (first :: rest).getD (cursor % (first :: rest).length) first
    mediation (assignMediator disputeId mediator (some "auto-assignment"))

def mediationDecision (cfg : AutoSettings) (dispute : Dispute) (decision : DisputeMediationDecision)
    (partialRefundOffer : Option PartialRefundOffer) (remaining : Int) : Except PaymentError MediationDecision :=
  if decision.verdict = .refundBuyer then
    match partialRefundOffer with
    | some offer =>
      match cfg.conv.bigInt offer.amountStroops with
      | some refund => .ok ⟨dispute.id, "auto-mediator", .partialRefund, offer.amountStroops, toString (remaining - refund)⟩
      | none => .error (.other s!"Cannot convert {offer.amountStroops} to a BigInt")
    | none => .ok ⟨dispute.id, "auto-mediator", .fullRefund, toString remaining, "0"⟩
  else .ok ⟨dispute.id, "auto-mediator", .releaseToSeller, "0", toString remaining⟩

def executeAutomatedVerdict (cfg : AutoSettings) (dispute : Dispute) (decision : DisputeMediationDecision)
    (partialRefundOffer : Option PartialRefundOffer) : AutoM Unit := do
  let balance ← mediation (payment (getRemainingBalance dispute.escrowId))
  let _ ← mediation (payment (getEscrowContractId cfg.toSettings))
  let submission ← mediation (check (mediationDecision cfg dispute decision partialRefundOffer balance.remainingAmount))
  let submitted ← (mediation (submitMediationDecision cfg.toSettings submission decision.reasoning)).attempt
  match submitted with
  | .ok _ => return ()
  | .error error => do
    auto (.recordAuditEvent
      { type := .disputeAutoMediationFailed, disputeId := dispute.id, escrowId := dispute.escrowId
        error := some error.message
        decision := some decision })
    .fail error

def carryOut (cfg : AutoSettings) (dispute : Dispute) (decision : DisputeMediationDecision)
    (partialRefundOffer : Option PartialRefundOffer) : AutoM DisputeMediationDecision :=
  if decision.verdict = .escalateHuman ∨ decision.confidence.lt cfg.AUTO_EXECUTE_CONFIDENCE_THRESHOLD = true then do
    let _ ← (autoAssignMediator cfg dispute.id).attempt
    auto (.recordAuditEvent
      { type := .disputeEscalatedToHuman, disputeId := dispute.id, escrowId := dispute.escrowId
        reasoning := some decision.reasoning
        confidence := some decision.confidence })
    return decision
  else do
    executeAutomatedVerdict cfg dispute decision partialRefundOffer
    return decision

def mediate (cfg : AutoSettings) (input : AutoMediationInput) (dispute : Dispute)
    (evidence : List DisputeEvidenceEntry) : AutoM DisputeMediationDecision :=
  if dispute.status = .resolved ∨ dispute.status = .decided then
    return {
      disputeId := input.disputeId
      verdict := .escalateHuman
      confidence := confidence 1
      reasoning := s!"Dispute is already in status \"{dispute.status.text}\"; no auto-mediation needed." }
  else do
    let decision := evaluateDisputeRules cfg dispute evidence input.tracking input.partialRefundOffer
    auto (.recordAuditEvent
      { type := .disputeAutoMediationEvaluated, disputeId := dispute.id, escrowId := dispute.escrowId
        decision := some decision })
    carryOut cfg dispute decision input.partialRefundOffer

def runAutoMediation (cfg : AutoSettings) (input : AutoMediationInput) : AutoM DisputeMediationDecision := do
  let found ← auto (.findById input.disputeId)
  match found with
  | none => .fail (.other s!"Dispute {input.disputeId} not found")
  | some (dispute, evidence) => mediate cfg input dispute evidence

/-! ### What is paid -/

/-- The amounts of the rule: all to the buyer of a package that was returned, all to the seller of one delivered,
else the accepted offer to the buyer. -/
def Pays (cfg : AutoSettings) (input : AutoMediationInput) (remaining : Int) (resolution : DisputeResolution) : Prop :=
  ∃ buyerAmount sellerAmount, cfg.conv.bigInt resolution.buyerAmount = some buyerAmount ∧
    cfg.conv.bigInt resolution.sellerAmount = some sellerAmount ∧
    0 ≤ buyerAmount ∧ 0 ≤ sellerAmount ∧ buyerAmount + sellerAmount = remaining ∧
    (input.tracking = some .returnToSender → buyerAmount = remaining) ∧
    (input.tracking = some .delivered → sellerAmount = remaining) ∧
    (input.tracking ≠ some .returnToSender → input.tracking ≠ some .delivered →
      ∀ offer, input.partialRefundOffer = some offer → cfg.conv.bigInt offer.amountStroops = some buyerAmount)

def balanceIs (remaining : Int) : (o : autoSignature.Op) → autoSignature.Result o → Prop
  | .inl (.inl (.findPaymentRecordByEscrowId _)), .ok (some record) => computeRemaining record = remaining
  | _, _ => True

/-- A resolution that is stored pays by the rule. -/
def storesPaying (cfg : AutoSettings) (input : AutoMediationInput) (remaining : Int) : autoSignature.Op → Prop
  | .inl (.inr (.updateDispute _ update)) =>
    ∀ resolution, update.resolution = some resolution → Pays cfg input remaining resolution
  | _ => True

abbrev paying (cfg : AutoSettings) (input : AutoMediationInput) (remaining : Int) : Protocol autoSignature Unit :=
  expecting (balanceIs remaining) (fun _ o => storesPaying cfg input remaining o) fun _ _ _ => ()

def Unresolved : mediationSignature.Op → Prop
  | .inr (.updateDispute _ update) => update.resolution = none
  | _ => True

section
variable {α β : Type} {cfg : AutoSettings} {input : AutoMediationInput} {remaining : Int} {dispute : Dispute}
  {evidence : List DisputeEvidenceEntry} {Q : Except PaymentError α → Unit → Prop}

theorem unresolved_payment (p : PaymentM α) : (payment p).Only Unresolved := by
  induction p with
  | ret a => trivial
  | fail e => trivial
  | call o next ih => exact ⟨trivial, ih⟩

theorem follows_unresolved {p : MediationM α} (h : p.Only Unresolved) :
    Follows (paying cfg input remaining).restrict () p fun _ _ => True := by
  refine follows_within (I := fun _ => True) h trivial ?_ fun _ _ _ _ _ _ _ => trivial
  intro _ o _ ho
  cases o with
  | inl o => trivial
  | inr o =>
    cases o with
    | updateDispute id update =>
      intro resolution hresolution
      simp [show update.resolution = none from ho] at hresolution
    | addEvidence disputeId entry => trivial
    | recordAuditEvent entry => trivial
    | notifyDisputeParties orderId event => trivial

variable {R : Except PaymentError β → Unit → Prop}

theorem follows_then {p : MediationM α} {f : α → MediationM β} (h : p.Only Unresolved) (herror : ∀ e, R (.error e) ())
    (hf : ∀ a, Follows (paying cfg input remaining).restrict () (f a) R) :
    Follows (paying cfg input remaining).restrict () (p >>= f) R := by
  exact follows_bind (follows_mono (follows_unresolved h) (forall_except (fun e _ _ => herror e) fun a _ _ => hf a))

theorem follows_getRemainingBalance {escrowId : String} :
    Follows (paying cfg input remaining).restrict () (payment (getRemainingBalance escrowId)) fun r _ =>
      ∀ balance, r = .ok balance → balance.remainingAmount = remaining := by
  refine ⟨trivial, ?_⟩
  rintro r _ ⟨hexpected, rfl⟩
  cases r with
  | error e => exact fun _ hnone => nomatch hnone
  | ok found =>
    cases found with
    | none => exact fun _ hnone => nomatch hnone
    | some record =>
      rintro balance hbal
      cases hbal
      exact hexpected

theorem follows_check_ok {result : Except PaymentError α} {f : α → MediationM β} (herror : ∀ e, R (.error e) ())
    (hf : ∀ a, result = .ok a → Follows (paying cfg input remaining).restrict () (f a) R) :
    Follows (paying cfg input remaining).restrict () (check result >>= f) R := by
  cases result with
  | ok a => exact hf a rfl
  | error e => exact herror e

variable {decision : MediationDecision}

theorem follows_submit {reasoning : String} (hpays : validateResolutionAmounts cfg.conv decision remaining = .ok () →
      Pays cfg input remaining decision.resolution) :
    Follows (paying cfg input remaining).restrict ()
      (submitMediationDecision cfg.toSettings decision reasoning) fun _ _ => True := by
  have hfind : (findById decision.disputeId).Only Unresolved := by
    refine only_bind (unresolved_payment _) fun found => ?_
    cases found with
    | none => trivial
    | some dispute => trivial
  refine follows_then hfind (fun _ => trivial) fun dispute => ?_
  split
  · trivial
  · refine follows_check_ok (fun _ => trivial) fun _ _ => ?_
    refine follows_bind (follows_mono follows_getRemainingBalance
      (forall_except (fun _ _ _ => trivial) fun balance _ hbal => ?_))
    refine follows_check_ok (fun _ => trivial) fun _ hvalid => ?_
    rw [hbal balance rfl] at hvalid
    have hpassed : validateResolutionAmounts cfg.conv decision remaining = .ok () := by
      cases hres : validateResolutionAmounts cfg.conv decision remaining with
      | ok u => rfl
      | error e =>
        rw [hres] at hvalid
        cases hvalid
    refine follows_bind (follows_perform ?_ ?_)
    · intro resolution hresolution
      cases hresolution
      exact hpays hpassed
    · rintro r _ -
      cases r with
      | error e => trivial
      | ok updated =>
        refine follows_unresolved (only_bind (only_perform trivial) fun _ => ?_)
        exact only_bind (only_perform trivial) fun _ => unresolved_payment _

/-- The offer for a package that was returned, if the verdict is executed and the offer can be paid, is all that
remains. -/
def OffersAll (cfg : AutoSettings) (input : AutoMediationInput) (remaining : Int) : Prop :=
  input.tracking = some .returnToSender → ∀ offer, input.partialRefundOffer = some offer →
    ∀ refund, cfg.conv.bigInt offer.amountStroops = some refund → 0 ≤ refund → refund ≤ remaining →
    (confidence (95 / 100)).lt cfg.AUTO_EXECUTE_CONFIDENCE_THRESHOLD = false →
    (cfg.ESCROW_CONTRACT_ID.filter fun id => decide (id ≠ "")).isSome = true → refund = remaining

theorem validate_amounts {conv : Conversions} (h : validateResolutionAmounts conv decision remaining = .ok ()) :
    ∃ buyerAmount sellerAmount, conv.bigInt decision.buyerAmount = some buyerAmount ∧
      conv.bigInt decision.sellerAmount = some sellerAmount ∧ 0 ≤ buyerAmount ∧ 0 ≤ sellerAmount ∧
      buyerAmount + sellerAmount = remaining ∧ (decision.decision = .fullRefund → sellerAmount = 0) ∧
      (decision.decision = .releaseToSeller → buyerAmount = 0) := by
  obtain ⟨buyerAmount, sellerAmount, hbuyer, hseller, hbuyerPos, hsellerPos, hsum⟩ := validateResolutionAmounts_ok h
  refine ⟨buyerAmount, sellerAmount, hbuyer, hseller, hbuyerPos, hsellerPos, hsum, ?_, ?_⟩
  · intro htype
    by_contra hne
    simp [validateResolutionAmounts, hbuyer, hseller, htype, hne, not_lt.mpr hbuyerPos, not_lt.mpr hsellerPos, hsum] at h
  · intro htype
    by_contra hne
    simp [validateResolutionAmounts, hbuyer, hseller, htype, hne, not_lt.mpr hbuyerPos, not_lt.mpr hsellerPos, hsum] at h

/-- **The amounts of a verdict**, where they pass the check. -/
theorem pays_of_valid {submission : MediationDecision} (hoffers : OffersAll cfg input remaining)
    (hconfident : (evaluateDisputeRules cfg dispute evidence input.tracking input.partialRefundOffer).confidence.lt
      cfg.AUTO_EXECUTE_CONFIDENCE_THRESHOLD = false)
    (hcontr : (cfg.ESCROW_CONTRACT_ID.filter fun id => decide (id ≠ "")).isSome = true)
    (hsubm : mediationDecision cfg dispute
      (evaluateDisputeRules cfg dispute evidence input.tracking input.partialRefundOffer)
      input.partialRefundOffer remaining = .ok submission)
    (hvalid : validateResolutionAmounts cfg.conv submission remaining = .ok ()) :
    Pays cfg input remaining submission.resolution := by
  obtain ⟨buyerAmount, sellerAmount, hbuyer, hseller, hbuyerPos, hsellerPos, hsum, hfull, hrels⟩ :=
    validate_amounts hvalid
  refine ⟨buyerAmount, sellerAmount, hbuyer, hseller, hbuyerPos, hsellerPos, hsum, ?_, ?_, ?_⟩
  · intro hret
    simp only [evaluateDisputeRules, ruleSignals, hret, if_true] at hconfident hsubm
    unfold mediationDecision at hsubm
    rw [if_pos rfl] at hsubm
    split at hsubm
    · rename_i offer hoffer
      split at hsubm
      · rename_i refund hrefund
        obtain rfl := Except.ok.inj hsubm
        obtain rfl := Option.some.inj (hbuyer.symm.trans hrefund)
        exact hoffers hret offer hoffer _ hrefund hbuyerPos (by omega) hconfident hcontr
      · cases hsubm
    · obtain rfl := Except.ok.inj hsubm
      have := hfull rfl
      omega
  · intro hdelivered
    have hverdict : (evaluateDisputeRules cfg dispute evidence input.tracking input.partialRefundOffer).verdict =
        .payoutMerchant := by
      simp [evaluateDisputeRules, ruleSignals, hdelivered]
    unfold mediationDecision at hsubm
    rw [if_neg (by rw [hverdict]; decide)] at hsubm
    obtain rfl := Except.ok.inj hsubm
    have := hrels rfl
    omega
  · intro hret hdelivered offer hoffer
    have hverdict : (evaluateDisputeRules cfg dispute evidence input.tracking input.partialRefundOffer).verdict =
        .refundBuyer := by
      simp [evaluateDisputeRules, ruleSignals, hret, hdelivered, hoffer]
    unfold mediationDecision at hsubm
    rw [if_pos hverdict, hoffer] at hsubm
    simp only at hsubm
    split at hsubm
    · obtain rfl := Except.ok.inj hsubm
      exact hbuyer
    · cases hsubm

theorem follows_aside_auto {p : AutoM α} {f : α → AutoM β}
    (h : Follows (paying cfg input remaining) () p fun _ _ => True) (herror : ∀ e, R (.error e) ())
    (hf : ∀ a, Follows (paying cfg input remaining) () (f a) R) :
    Follows (paying cfg input remaining) () (p >>= f) R := by
  exact follows_bind (follows_mono h (forall_except (fun e _ _ => herror e) fun a _ _ => hf a))

theorem follows_auto (o : AutoOp) : Follows (paying cfg input remaining) () (auto o) fun _ _ => True :=
  follows_perform trivial fun _ _ _ => trivial

theorem follows_autoAssignMediator {disputeId : String} :
    Follows (paying cfg input remaining) () (autoAssignMediator cfg disputeId) fun _ _ => True := by
  unfold autoAssignMediator
  dsimp only
  split
  · trivial
  · refine follows_aside_auto (follows_auto _) (fun _ => trivial) fun cursor => ?_
    refine follows_lift (follows_unresolved ?_)
    have hfind : (findById disputeId).Only Unresolved := by
      refine only_bind (unresolved_payment _) fun found => ?_
      cases found with
      | none => trivial
      | some dispute => trivial
    refine only_bind hfind fun dispute => ?_
    split
    · trivial
    · refine only_bind ?_ fun _ => only_bind (only_perform rfl) fun updated => only_bind (only_perform trivial) fun _ => ?_
      · cases planAdvance dispute.status .negotiation with
        | ok steps => trivial
        | error e => trivial
      · refine only_bind (only_bind (only_attempt (unresolved_payment _)) fun _ => trivial) fun balance => ?_
        refine only_bind ?_ fun _ => trivial
        cases balance with
        | none => trivial
        | some balance => exact only_perform trivial

theorem follows_contract {f : String → AutoM β} (herror : ∀ e, R (.error e) ())
    (hf : ∀ contractId, (cfg.ESCROW_CONTRACT_ID.filter fun id => decide (id ≠ "")).isSome = true →
      Follows (paying cfg input remaining) () (f contractId) R) :
    Follows (paying cfg input remaining) ()
      (mediation (payment (getEscrowContractId cfg.toSettings)) >>= f) R := by
  unfold getEscrowContractId
  split
  · rename_i contractId hcontr
    exact hf contractId (by rw [hcontr]; rfl)
  · exact herror _

theorem follows_check_auto {result : Except PaymentError α} {f : α → AutoM β} (herror : ∀ e, R (.error e) ())
    (hf : ∀ a, result = .ok a → Follows (paying cfg input remaining) () (f a) R) :
    Follows (paying cfg input remaining) () (mediation (check result) >>= f) R := by
  cases result with
  | ok a => exact hf a rfl
  | error e => exact herror e

theorem follows_executeAutomatedVerdict (hoffers : OffersAll cfg input remaining)
    (hconfident : (evaluateDisputeRules cfg dispute evidence input.tracking input.partialRefundOffer).confidence.lt
      cfg.AUTO_EXECUTE_CONFIDENCE_THRESHOLD = false) :
    Follows (paying cfg input remaining) () (executeAutomatedVerdict cfg dispute
      (evaluateDisputeRules cfg dispute evidence input.tracking input.partialRefundOffer)
      input.partialRefundOffer) fun _ _ => True := by
  refine follows_bind (follows_mono (follows_lift follows_getRemainingBalance)
    (forall_except (fun _ _ _ => trivial) fun balance _ hbal => ?_))
  have hrem := hbal balance rfl
  refine follows_contract (fun _ => trivial) fun contractId hconfigured => ?_
  rw [hrem]
  refine follows_check_auto (fun _ => trivial) fun submission hsubm => ?_
  refine follows_bind (follows_attempt (follows_mono (follows_lift (follows_submit fun hvalid =>
    pays_of_valid hoffers hconfident hconfigured hsubm hvalid)) ?_))
  rintro outcome _ -
  cases outcome with
  | ok updated => trivial
  | error e => exact follows_aside_auto (follows_auto _) (fun _ => trivial) fun _ => trivial

theorem follows_runAutoMediation (hoffers : OffersAll cfg input remaining) :
    Follows (paying cfg input remaining) () (runAutoMediation cfg input) fun _ _ => True := by
  refine follows_aside_auto (follows_auto _) (fun _ => trivial) fun found => ?_
  cases found with
  | none => trivial
  | some pair =>
    obtain ⟨dispute, evidence⟩ := pair
    show Follows _ _ (mediate cfg input dispute evidence) _
    unfold mediate
    split
    · trivial
    · refine follows_aside_auto (follows_auto _) (fun _ => trivial) fun _ => ?_
      unfold carryOut
      split
      · have hassign : Follows (paying cfg input remaining) () (autoAssignMediator cfg dispute.id).attempt
            fun _ _ => True := follows_attempt (follows_mono follows_autoAssignMediator fun _ _ _ => trivial)
        refine follows_aside_auto hassign (fun _ => trivial) fun _ => ?_
        exact follows_aside_auto (follows_auto _) (fun _ => trivial) fun _ => trivial
      · rename_i hexec
        have hconfident := (Bool.not_eq_true _).mp (not_or.mp hexec).2
        exact follows_aside_auto (follows_executeAutomatedVerdict hoffers hconfident) (fun _ => trivial) fun _ => trivial

def negotiated : Dispute := ⟨"dispute", "escrow", none, .negotiation, none⟩

def recordOf (remaining : Int) : PaymentRecord :=
  ⟨"record", "order", some "escrow", "buyer", "seller", remaining, .disputed, none, none, none, 0, 0, none⟩

theorem computeRemaining_recordOf (remaining : Int) : computeRemaining (recordOf remaining) = remaining := by
  simp [computeRemaining, recordOf]

theorem balance_read {escrowId : String} {R : Except PaymentError RemainingBalance → Unit → Prop}
    (h : Follows (paying cfg input remaining).restrict () (payment (getRemainingBalance escrowId)) R) :
    R (.ok (remainingBalance escrowId (recordOf remaining))) () :=
  h.2 (.ok (some (recordOf remaining))) () ⟨computeRemaining_recordOf remaining, rfl⟩

theorem pays_of_submit {reasoning : String} {R : Except PaymentError Dispute → Unit → Prop}
    (h : Follows (paying cfg input remaining).restrict ()
      (submitMediationDecision cfg.toSettings decision reasoning) R)
    (hvalid : validateResolutionAmounts cfg.conv decision remaining = .ok ()) :
    Pays cfg input remaining decision.resolution := by
  have hfound := (then_of_follows h).2 (.ok (some negotiated)) () ⟨trivial, rfl⟩
  have hasked : Follows _ () (payment (getRemainingBalance negotiated.escrowId) >>= _) R := hfound
  have hchk : Follows _ () (check ((validateResolutionAmounts cfg.conv decision
      (computeRemaining (recordOf remaining))).mapError PaymentError.other) >>= _) R :=
    balance_read (then_of_follows hasked)
  rw [computeRemaining_recordOf, hvalid] at hchk
  have hstore : Follows _ () (store (.updateDispute negotiated.id
      { status := some .decided, resolution := some decision.resolution }) >>= _) R := hchk
  exact (then_of_follows hstore).1 decision.resolution rfl

theorem pays_of_execute {decision : DisputeMediationDecision} {offer : Option PartialRefundOffer}
    {submission : MediationDecision} {R : Except PaymentError Unit → Unit → Prop}
    (h : Follows (paying cfg input remaining) () (executeAutomatedVerdict cfg negotiated decision offer) R)
    (hcontr : (cfg.ESCROW_CONTRACT_ID.filter fun id => decide (id ≠ "")).isSome = true)
    (hsubm : mediationDecision cfg negotiated decision offer remaining = .ok submission)
    (hvalid : validateResolutionAmounts cfg.conv submission remaining = .ok ()) :
    Pays cfg input remaining submission.resolution := by
  obtain ⟨contractId, hcontractId⟩ := Option.isSome_iff_exists.mp hcontr
  have hconfigured : Follows _ () (mediation (payment (getEscrowContractId cfg.toSettings)) >>= _) R :=
    balance_read (follows_of_lift (then_of_follows h))
  unfold getEscrowContractId at hconfigured
  rw [hcontractId] at hconfigured
  have hdecided : Follows _ () (mediation (check (mediationDecision cfg negotiated decision offer
      (computeRemaining (recordOf remaining)))) >>= _) R := hconfigured
  rw [computeRemaining_recordOf, hsubm] at hdecided
  have hsub : Follows _ () ((mediation (submitMediationDecision cfg.toSettings submission
      decision.reasoning)).attempt >>= _) R := hdecided
  exact pays_of_submit (follows_of_lift (follows_of_attempt (then_of_follows hsub))) hvalid

/-- A run that pays by the rules whatever it is answered was given no offer that the rules leave out. -/
theorem offersAll_of_follows (hconv : ∀ n : Int, cfg.conv.bigInt (toString n) = some n)
    (h : Follows (paying cfg input remaining) () (runAutoMediation cfg input) fun _ _ => True) :
    OffersAll cfg input remaining := by
  intro hret offer hoffer refund hrefund hpos hle hconfident hcontr
  have hmed : Follows _ () (mediate cfg input negotiated []) fun _ _ => True :=
    (then_of_follows h).2 (.ok (some (negotiated, []))) () ⟨trivial, rfl⟩
  have hcarried : Follows _ () (carryOut cfg negotiated
      (evaluateDisputeRules cfg negotiated [] input.tracking input.partialRefundOffer)
      input.partialRefundOffer) fun _ _ => True :=
    (then_of_follows hmed).2 (.ok ()) () ⟨trivial, rfl⟩
  have hdecision : evaluateDisputeRules cfg negotiated [] input.tracking input.partialRefundOffer =
      ⟨"dispute", .refundBuyer, confidence (95 / 100), "Carrier tracking confirms the package was returned to sender. " ++
        "Buyer is entitled to a full refund per return-to-sender policy."⟩ := by
    simp [evaluateDisputeRules, ruleSignals, hret, negotiated]
  rw [hdecision, hoffer, carryOut, if_neg (by simp [hconfident])] at hcarried
  have hsubm : mediationDecision cfg negotiated
      ⟨"dispute", .refundBuyer, confidence (95 / 100), "Carrier tracking confirms the package was returned to sender. " ++
        "Buyer is entitled to a full refund per return-to-sender policy."⟩ (some offer) remaining =
      .ok ⟨"dispute", "auto-mediator", .partialRefund, offer.amountStroops, toString (remaining - refund)⟩ := by
    unfold mediationDecision
    rw [if_pos rfl]
    simp only [hrefund]
    rfl
  have hvalid : validateResolutionAmounts cfg.conv
      ⟨"dispute", "auto-mediator", .partialRefund, offer.amountStroops, toString (remaining - refund)⟩ remaining =
      .ok () := by
    unfold validateResolutionAmounts
    simp only [hrefund, hconv (remaining - refund)]
    rw [if_neg (by omega), if_neg (by omega), if_neg (by simp), if_neg (by simp)]
  obtain ⟨buyerAmount, -, hbuyer, -, -, -, -, hall, -⟩ :=
    pays_of_execute (then_of_follows hcarried) hcontr hsubm hvalid
  obtain rfl := Option.some.inj (hbuyer.symm.trans hrefund)
  exact hall hret

/-- **Auto-mediation pays what its rule says**, exactly if there is no offer of less than the balance for a package
that was returned. -/
theorem auto_mediation_pays (cfg : AutoSettings) (hconv : ∀ n : Int, cfg.conv.bigInt (toString n) = some n)
    (input : AutoMediationInput) (remaining : Int) :
    Follows (paying cfg input remaining) () (runAutoMediation cfg input) (fun _ _ => True) ↔
      OffersAll cfg input remaining :=
  ⟨offersAll_of_follows hconv, follows_runAutoMediation⟩

end

def sampleAutoSettings : AutoSettings where
  conv := decimal
  ESCROW_CONTRACT_ID := some "contract"
  DISPUTE_MEDIATOR_POOL := none
  AUTO_EXECUTE_CONFIDENCE_THRESHOLD := confidence (80 / 100)
  toLowerCase := toLowerCase

theorem bigInt_toString (n : Int) : sampleAutoSettings.conv.bigInt (toString n) = some n := readInteger_toString n

theorem auto_mediation_pays_delivered : Follows (paying sampleAutoSettings ⟨"dispute", some .delivered, some ⟨"40"⟩⟩ 100) ()
      (runAutoMediation sampleAutoSettings ⟨"dispute", some .delivered, some ⟨"40"⟩⟩) fun _ _ => True :=
  (auto_mediation_pays sampleAutoSettings bigInt_toString _ 100).mpr fun hret => nomatch hret

/-- Of 100 the offer is 40, and the package was returned: the buyer is paid 40. -/
theorem returned_but_offered : ¬ Follows (paying sampleAutoSettings ⟨"dispute", some .returnToSender, some ⟨"40"⟩⟩ 100) ()
      (runAutoMediation sampleAutoSettings ⟨"dispute", some .returnToSender, some ⟨"40"⟩⟩) fun _ _ => True := by
  intro h
  have hall := offersAll_of_follows bigInt_toString h rfl ⟨"40"⟩ rfl 40 (by decide) (by decide) (by decide)
    (by decide +kernel) (by decide)
  exact absurd hall (by decide)

end Delego.Disputes
