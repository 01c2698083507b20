import Delego.Payments.Services

/-! Payouts to merchants (`payments/src/payouts/service.ts`, `orchestrator.ts`, `store.ts` and what they use of `trustlines.ts`).

Both `initiatePayout` and the orchestrator's `orchestratePayout` read the payment record of an escrow, check the
merchant's trustline for an asset other than the native one, release the escrow through the wallet service and store a
payout record. Neither writes the payment record; that other components do is an event.

The trustline check, the notification and the release answer as the environment likes. -/
namespace Delego.Payouts
open Delego.Process Delego.Payments

structure InitiatePayoutRequest where
  (escrowId merchantAddress sourceAddress : String)
  assetCode : Option String := none
  assetIssuer : Option String := none

structure PayoutCalculation where
  escrowId : String
  (grossAmountStroops platformFeeStroops netMerchantPayoutStroops : Int)
  merchantAddress : String

/-- Of the statuses in the type, those that are written. -/
inductive PayoutStatus where
  | confirmed | paused
  deriving DecidableEq

inductive PauseReason where
  | missingTrustline | unauthorizedTrustline

/-- A payout, as it is stored. -/
structure PayoutRecord where
  /-- `randomUUID()`: the draws are counted. -/
  payoutId : Nat
  calculation : PayoutCalculation
  transactionHash : Option String
  ledger : Option Nat
  status : PayoutStatus
  pausedReason : Option PauseReason
  createdAt : Int

structure TrustlineCheckResult where
  (trustlineEstablished authorized : Bool)
  (currentBalance creditLimit : String)

def isTrustlineValidForPayout (result : TrustlineCheckResult) : Bool := result.trustlineEstablished && result.authorized

structure TrustlineSetupInstructions where
  (account assetCode assetIssuer limit instructions : String)
  steps : List String
  stellarLaboratoryUrl : String

def generateTrustlineSetupInstructions (account assetCode assetIssuer : String) : TrustlineSetupInstructions :=
  let limit := "9223372036854775807"
  let labUrl := "https://laboratory.stellar.org/#txbuilder?network=testnet"
  { account := account, assetCode := assetCode, assetIssuer := assetIssuer, limit := limit
    instructions := s!"Merchant destination address {account} must establish a ChangeTrust trustline for {assetCode} (issuer: {assetIssuer}) before payout funds can be disbursed."
    steps :=
      [s!"1. Open your Stellar wallet (Freighter, Albedo, LOBSTR) or the Stellar Laboratory at {labUrl}.",
        "2. Navigate to Add Asset / Change Trust.",
        s!"3. Enter Asset Code: {assetCode} and Issuer Account: {assetIssuer}.",
        s!"4. Set Trust Limit to {limit} (or leave blank for maximum limit).",
        "5. Sign and submit the ChangeTrust transaction. Once established, payout will resume immediately."]
    stellarLaboratoryUrl := labUrl }

structure MerchantNotificationPayload where
  (merchantAddress assetCode assetIssuer : String)
  /-- The orchestrator's payload names the escrow and the amount. -/
  escrowId : Option String := none
  amountStroops : Option Int := none
  instructions : TrustlineSetupInstructions
  checkResult : TrustlineCheckResult

structure EscrowReleaseResult where
  success : Bool
  txHash : String
  ledger : Nat

/-- Where both are given, the check and the instructions come with a paused payout. -/
structure InitiatePayoutResponse where
  record : PayoutRecord
  trustline : Option (TrustlineCheckResult × TrustlineSetupInstructions) := none

/-- `getCommissionConfig`, with the rate as `Math.floor(rate * 1000000)`. -/
structure PlatformCommissionConfig where
  (ratePerMillion minimumStroops : Int)

structure Settings where
  /-- A rate or a minimum that is not a number makes `BigInt` throw. -/
  commission : Except String PlatformCommissionConfig

def calculatePayout (config : PlatformCommissionConfig) (grossAmountStroops : Int)
    (merchantAddress escrowId : String) : PayoutCalculation :=
  let rawFee := (grossAmountStroops * config.ratePerMillion).tdiv 1000000
  let platformFeeStroops := if rawFee < config.minimumStroops then config.minimumStroops else rawFee
  { escrowId := escrowId, grossAmountStroops := grossAmountStroops, platformFeeStroops := platformFeeStroops
    netMerchantPayoutStroops := grossAmountStroops - platformFeeStroops
    merchantAddress := merchantAddress }

/-- The fee and what is left are parts of the amount. -/
structure PayoutCalculation.Sound (p : PayoutCalculation) : Prop where
  fee_nonneg : 0 ≤ p.platformFeeStroops
  fee_le : p.platformFeeStroops ≤ p.grossAmountStroops
  net_nonneg : 0 ≤ p.netMerchantPayoutStroops
  total : p.platformFeeStroops + p.netMerchantPayoutStroops = p.grossAmountStroops

section
variable (config : PlatformCommissionConfig) (merchantAddress escrowId : String)

/-- The proportional fee, rounded down. -/
def rawFee (gross : Int) : Int := gross * config.ratePerMillion / 1000000

theorem fee_eq {gross : Int} (hrate : 0 ≤ config.ratePerMillion) (hgross : 0 ≤ gross) :
    (calculatePayout config gross merchantAddress escrowId).platformFeeStroops =
      max config.minimumStroops (rawFee config gross) := by
  simp only [calculatePayout, rawFee, Int.tdiv_eq_ediv_of_nonneg (Int.mul_nonneg hgross hrate)]
  split <;> omega

theorem rawFee_mono {gross gross' : Int} (hrate : 0 ≤ config.ratePerMillion ∧ config.ratePerMillion ≤ 1000000)
    (hle : gross ≤ gross') :
    rawFee config gross ≤ rawFee config gross' ∧ rawFee config gross' - rawFee config gross ≤ gross' - gross := by
  obtain ⟨d, rfl⟩ := Int.le.dest hle
  have hnonneg : 0 ≤ (d : Int) * config.ratePerMillion := Int.mul_nonneg (by omega) hrate.1
  have hbounded : (d : Int) * config.ratePerMillion ≤ d * 1000000 := Int.mul_le_mul_of_nonneg_left hrate.2 (by omega)
  simp only [rawFee, Int.add_mul]
  omega

/-- **A payout is sound if and only if the minimum fee is not more than the amount; and the fee and what is left grow
with the amount.** -/
theorem calculatePayout_sound_iff (hrate : 0 ≤ config.ratePerMillion ∧ config.ratePerMillion ≤ 1000000)
    (hminimum : 0 ≤ config.minimumStroops) {gross : Int} (hgross : 0 ≤ gross) :
    ((calculatePayout config gross merchantAddress escrowId).Sound ↔ config.minimumStroops ≤ gross) ∧
      ∀ gross', gross ≤ gross' →
        (calculatePayout config gross merchantAddress escrowId).platformFeeStroops ≤
            (calculatePayout config gross' merchantAddress escrowId).platformFeeStroops ∧
          (calculatePayout config gross merchantAddress escrowId).netMerchantPayoutStroops ≤
            (calculatePayout config gross' merchantAddress escrowId).netMerchantPayoutStroops := by
  have hfee := fee_eq config merchantAddress escrowId hrate.1 hgross
  have hnet : ∀ g, (calculatePayout config g merchantAddress escrowId).netMerchantPayoutStroops =
      g - (calculatePayout config g merchantAddress escrowId).platformFeeStroops := fun g => rfl
  constructor
  · have hraw : rawFee config gross ≤ gross := by simpa [rawFee] using (rawFee_mono config hrate hgross).2
    constructor
    · intro h
      have hle : _ ≤ gross := h.fee_le
      omega
    · intro hle
      constructor
      · omega
      · change _ ≤ gross
        omega
      · rw [hnet]
        omega
      · rw [hnet]
        change _ = gross
        omega
  · intro gross' hle
    have hfee' := fee_eq config merchantAddress escrowId hrate.1 (hgross.trans hle)
    have hraw := rawFee_mono config hrate hle
    rw [hnet, hnet]
    omega

end

/-- Half an XLM at the default rate and minimum fee. -/
theorem calculatePayout_sound : (calculatePayout ⟨10000, 1000000⟩ 5000000 "GM" "escrow-1").Sound :=
  ((calculatePayout_sound_iff ⟨10000, 1000000⟩ "GM" "escrow-1" (by decide) (by decide) (by decide)).1).mpr (by decide)

/-- **A twentieth of an XLM is less than the minimum fee: the merchant's part is negative.** -/
theorem net_payout_negative : ¬ (calculatePayout ⟨10000, 1000000⟩ 500000 "GM" "escrow-1").Sound ∧
    (calculatePayout ⟨10000, 1000000⟩ 500000 "GM" "escrow-1").netMerchantPayoutStroops = -500000 :=
  ⟨fun h => absurd h.net_nonneg (by decide), by decide⟩

inductive Op where
  | findPaymentRecordByEscrowId (escrowId : String)
  | checkTrustline (account assetCode assetIssuer : String)
  | notifyMerchant (payload : MerchantNotificationPayload)
  /-- `escrowReleaseFn` is called .. -/
  | release (sourceAddress escrowId : String)
  | releaseResult (escrowId : String)
  | createPayoutRecord (calculation : PayoutCalculation) (transactionHash : Option String)
      (ledger : Option Nat) (status : PayoutStatus) (pausedReason : Option PauseReason)

@[reducible] def Op.Reply : Op → Type
  | .findPaymentRecordByEscrowId _ => Option PaymentRecord
  | .checkTrustline _ _ _ => TrustlineCheckResult
  | .releaseResult _ => EscrowReleaseResult
  | .createPayoutRecord _ _ _ _ _ => PayoutRecord
  | _ => Unit

@[reducible] def payoutSignature : Signature := ⟨Op, Op.Reply, String⟩

abbrev PayoutM := Program payoutSignature

def op (o : Op) : PayoutM o.Reply := Program.perform (S := payoutSignature) o

structure World where
  records : List PaymentRecord
  payouts : List PayoutRecord

/-- What the environment decides about an operation. -/
structure Choice where
  fate : Fate := .done
  trustline : TrustlineCheckResult := ⟨true, true, "0", "0"⟩
  released : EscrowReleaseResult := ⟨true, "", 0⟩
  time : Int := 0

def answer (o : Op) (ch : Choice) (w : World) : o.Reply × World :=
  match o with
  | .findPaymentRecordByEscrowId escrowId => (findPaymentRecordByEscrowId escrowId w.records, w)
  | .checkTrustline _ _ _ => (ch.trustline, w)
  | .notifyMerchant _ => ((), w)
  | .release _ _ => ((), w)
  | .releaseResult _ => (ch.released, w)
  | .createPayoutRecord calculation transactionHash ledger status pausedReason =>
    let record : PayoutRecord :=
      { payoutId := w.payouts.length, calculation := calculation, transactionHash := transactionHash
        ledger := ledger, status := status, pausedReason := pausedReason
        createdAt := ch.time }
    (record, { w with payouts := w.payouts ++ [record] })

/-- The payout store is a map in memory, and a call that is made is not yet answered. -/
def Op.reliable : Op → Bool
  | .release _ _ => true
  | .createPayoutRecord _ _ _ _ _ => true
  | _ => false

def perform (o : Op) (ch : Choice) (w : World) : Except String o.Reply × World :=
  (if o.reliable then Fate.done else ch.fate).carry (answer o ch w) w

def statusName : PaymentRecordStatus → String
  | .pending => "pending"
  | .funded => "funded"
  | .released => "released"
  | .refunded => "refunded"
  | .disputed => "disputed"
  | .failed => "failed"

def releaseAndRecord (request : InitiatePayoutRequest) (calculation : PayoutCalculation) :
    PayoutM InitiatePayoutResponse := do
  op (.release request.sourceAddress request.escrowId)
  let result ← op (.releaseResult request.escrowId)
  let txHash := result.txHash
  if result.success then do
    let record ← op (.createPayoutRecord calculation (some txHash) (some result.ledger) .confirmed none)
    return ⟨record, none⟩
  else .fail s!"Escrow release failed: {txHash}"

def pausePayout (calculation : PayoutCalculation) (checkResult : TrustlineCheckResult)
    (payload : MerchantNotificationPayload) : PayoutM InitiatePayoutResponse := do
  let pauseReason := if checkResult.trustlineEstablished then PauseReason.unauthorizedTrustline
    else .missingTrustline
  let record ← op (.createPayoutRecord calculation none none .paused (some pauseReason))
  op (.notifyMerchant payload)
  return ⟨record, some (checkResult, payload.instructions)⟩

/-- The asset that a trustline is needed for. No text but these three letters, in either case, is
`XLM` in upper case. -/
def nonNativeAsset (request : InitiatePayoutRequest) : Option String :=
  request.assetCode.filter fun assetCode => decide (assetCode ≠ "" ∧ assetCode.toUpper ≠ "XLM")

/-- What the merchant is told. -/
abbrev Notification := PayoutCalculation → TrustlineSetupInstructions → TrustlineCheckResult → MerchantNotificationPayload

def payOut (cfg : Settings) (notification : Notification) (request : InitiatePayoutRequest) :
    PayoutM InitiatePayoutResponse := do
  let escrowId := request.escrowId
  let found ← op (.findPaymentRecordByEscrowId escrowId)
  match found with
  | none => .fail s!"Escrow not found: {escrowId}"
  | some paymentRecord =>
    let status := statusName paymentRecord.status
    if paymentRecord.status ≠ .funded then .fail s!"Escrow {escrowId} is not in funded status (current: {status})"
    else match cfg.commission with
      | .error thrown => .fail thrown
      | .ok config =>
        let calculation := calculatePayout config paymentRecord.amountStroops request.merchantAddress escrowId
        match nonNativeAsset request with
        | none => releaseAndRecord request calculation
        | some assetCode => match request.assetIssuer.filter fun assetIssuer => decide (assetIssuer ≠ "") with
          | none => .fail s!"Asset issuer must be specified for non-native asset payout ({assetCode})"
          | some assetIssuer => do
            let checkResult ← op (.checkTrustline request.merchantAddress assetCode assetIssuer)
            if isTrustlineValidForPayout checkResult then releaseAndRecord request calculation
            else
              let instructions := generateTrustlineSetupInstructions request.merchantAddress assetCode assetIssuer
              pausePayout calculation checkResult (notification calculation instructions checkResult)

def initiatePayout (cfg : Settings) (request : InitiatePayoutRequest) : PayoutM InitiatePayoutResponse :=
  payOut cfg (fun _ instructions checkResult =>
    { merchantAddress := request.merchantAddress, assetCode := instructions.assetCode
      assetIssuer := instructions.assetIssuer, instructions := instructions
      checkResult := checkResult }) request

def orchestratePayout (cfg : Settings) (request : InitiatePayoutRequest) :
    PayoutM InitiatePayoutResponse :=
  payOut cfg (fun calculation instructions checkResult =>
    { merchantAddress := request.merchantAddress, assetCode := instructions.assetCode
      assetIssuer := instructions.assetIssuer, escrowId := some request.escrowId
      amountStroops := some calculation.netMerchantPayoutStroops, instructions := instructions
      checkResult := checkResult }) request

structure BatchPayoutOrchestrationResult where
  successful : List InitiatePayoutResponse := []
  paused : List InitiatePayoutResponse := []
  failed : List (InitiatePayoutRequest × String) := []

/-- One request after the other; one that throws does not stop the batch. -/
def orchestrateBatchPayouts (cfg : Settings) :
    List InitiatePayoutRequest → BatchPayoutOrchestrationResult → PayoutM BatchPayoutOrchestrationResult
  | [], result => return result
  | request :: rest, result => do
    let outcome ← (orchestratePayout cfg request).attempt
    orchestrateBatchPayouts cfg rest <| match outcome with
      | .error thrown => { result with failed := result.failed ++ [(request, thrown)] }
      | .ok response => match response.record.status with
        | .paused => { result with paused := result.paused ++ [response] }
        | .confirmed => { result with successful := result.successful ++ [response] }

inductive Call where
  | initiatePayout (request : InitiatePayoutRequest)
  | orchestratePayout (request : InitiatePayoutRequest)
  | orchestrateBatchPayouts (requests : List InitiatePayoutRequest)

def Call.body (cfg : Settings) : Call → PayoutM Unit
  | .initiatePayout request => do
    let _ ← Payouts.initiatePayout cfg request
    return ()
  | .orchestratePayout request => do
    let _ ← Payouts.orchestratePayout cfg request
    return ()
  | .orchestrateBatchPayouts requests => do
    let _ ← Payouts.orchestrateBatchPayouts cfg requests {}
    return ()

/-- The update that another component makes of a payment record. -/
structure RecordChange where
  id : String
  update : PaymentRecordUpdate

def system (cfg : Settings) : System payoutSignature World where
  Choice := Choice
  Event := RecordChange
  Call := Call
  perform := perform
  drift := fun e w => { w with records := updateWhere e.id e.update.apply w.records }
  arrive := fun _ w => some w
  body := Call.body cfg

abbrev PayoutPool := Pool payoutSignature World

abbrev PayoutTrace := List (Entry payoutSignature)

end Delego.Payouts
