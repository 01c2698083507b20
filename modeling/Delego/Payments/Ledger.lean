import Delego.Payments.EscrowCoordinator

/-! The calls on one escrow as a protocol about money.

Of a payment record only its account matters here: the amount and the two counters. Between the payout and its record
the call owes the books that amount, and no call ends before it has recorded it.

Every function of the coordinator and the mediation follows this protocol (`body_follows`); `Terms` says which escrow it
is about and what its callers ask for. -/
namespace Delego.Payments
open Delego.Process Delego.Data

inductive Call where
  | releaseEscrow (params : EscrowParams)
  | refundEscrow (params : EscrowParams) (reason : String)
  | disputeEscrow (params : EscrowParams)
  | partialRefundEscrow (params : EscrowParams) (amountStroops reason : String)
  | partialReleaseEscrow (params : EscrowParams) (amountStroops : String) (memo : Option String)
  | getRemainingBalance (escrowId : String)
  | executeDecision (disputeId : String)

def Call.escrowId : Call → Option String
  | .releaseEscrow params | .refundEscrow params _ | .disputeEscrow params
  | .partialRefundEscrow params _ _ | .partialReleaseEscrow params _ _ => some params.escrowId
  | .getRemainingBalance escrowId => some escrowId
  | .executeDecision _ => none

def Call.method : Call → Option ContractMethod
  | .releaseEscrow _ => some .release
  | .refundEscrow _ _ => some .refund
  | .disputeEscrow _ => some .dispute
  | .partialRefundEscrow _ _ _ => some .partialRefund
  | .partialReleaseEscrow _ _ _ => some .partialRelease
  | .getRemainingBalance _ | .executeDecision _ => none

def discard {α : Type} (p : PaymentM α) : PaymentM Unit := do
  let _ ← p
  return ()

def body (cfg : Settings) : Call → PaymentM Unit
  | .releaseEscrow params => discard (releaseEscrow cfg.conv params)
  | .refundEscrow params reason => discard (refundEscrow cfg.conv params reason)
  | .disputeEscrow params => discard (disputeEscrow cfg.conv params)
  | .partialRefundEscrow params amountStroops reason =>
    discard (partialRefundEscrow cfg.conv params amountStroops reason)
  | .partialReleaseEscrow params amountStroops memo =>
    discard (partialReleaseEscrow cfg.conv params amountStroops memo)
  | .getRemainingBalance escrowId => discard (getRemainingBalance escrowId)
  | .executeDecision disputeId => discard (executeDecision cfg disputeId)

def system (cfg : Settings) : System paymentSignature World where
  Choice := Choice
  Event := Empty
  Call := Call
  perform := perform
  drift := fun e _ => e.elim
  arrive := fun _ w => some w
  body := body cfg

abbrev PaymentPool := Pool paymentSignature World

abbrev PaymentTrace := List (Entry paymentSignature)

/-- What a call has in hand. -/
inductive Hand where
  | empty
  | read (record : PaymentRecord)
  /-- The contract paid, and the record does not show it yet. -/
  | paid (record : PaymentRecord) (party : Party) (amount : Int)

structure Phase where
  /-- This call has recorded a refund. -/
  refunded : Bool := false
  hand : Hand := .empty

def Phase.owes (φ : Phase) : Bool :=
  match φ.hand with
  | .paid _ _ _ => true
  | _ => false

/-- What the call has yet to record for a party. -/
def Phase.owed (party : Party) (φ : Phase) : Int :=
  match φ.hand with
  | .paid _ payee amount => if payee = party then amount else 0
  | _ => 0

/-- The party that a contract method pays in part. -/
def ContractMethod.party : ContractMethod → Option Party
  | .partialRefund => some .buyer
  | .partialRelease => some .seller
  | _ => none

def Phase.pay (φ : Phase) (request : TransactionRequest) : Phase :=
  match request.method.party, φ.hand with
  | some party, .read record => {φ with hand := .paid record party request.amount}
  | _, _ => φ

def Phase.settle (φ : Phase) : Phase :=
  match φ.hand with
  | .paid _ party _ => ⟨φ.refunded || decide (party = .buyer), .empty⟩
  | _ => φ

def Phase.next (φ : Phase) : (o : Op) → Except PaymentError o.Reply → Phase
  | .findPaymentRecordByEscrowId _, .ok (some record) => {φ with hand := .read record}
  | .submitContractInvocation request, .ok tx => if tx.success then φ.pay request else φ
  | .incrementPaymentRecordAmounts _ _, .ok _ => φ.settle
  | _, _ => φ

/-- The escrow a run is about, and what may be asked for it. -/
structure Terms where
  escrowId : String
  chainId : Nat
  /-- The contract calls that may be made, given whether this call has refunded. -/
  may : Bool → TransactionRequest → Prop
  /-- What a stored dispute is: id, escrow, resolution. -/
  dispute : String → String → Option DisputeResolution → Prop

def Fits (record : PaymentRecord) (request : TransactionRequest) : Prop :=
  request.method.party ≠ none → 0 < request.amount ∧ request.amount ≤ computeRemaining record

def Allowed (t : Terms) (φ : Phase) : Op → Prop
  | .findPaymentRecordByEscrowId escrowId => escrowId = t.escrowId ∧ φ.owes = false
  | .submitContractInvocation request =>
    request.escrowId = t.chainId ∧ t.may φ.refunded request ∧ ∃ record, φ.hand = .read record ∧ Fits record request
  | .incrementPaymentRecordAmounts id delta =>
    ∃ record party amount status, φ.hand = .paid record party amount ∧ id = record.id ∧ delta = party.delta amount status
  | _ => True

def Answer (t : Terms) : (o : Op) → Except PaymentError o.Reply → Prop
  | .incrementPaymentRecordAmounts _ _, .error _ => False
  | .findDispute id, .ok (some dispute) => dispute.id = id ∧ t.dispute dispute.id dispute.escrowId dispute.resolution
  | _, _ => True

def protocol (t : Terms) : Protocol paymentSignature Phase where
  Allowed := Allowed t
  Moves := fun φ o result φ' => Answer t o result ∧ φ' = φ.next o result
  Ends := fun φ => φ.owes = false

/-! ### Operations -/

variable {t : Terms} {φ : Phase} {record : PaymentRecord} {conv : Conversions}

theorem follows_op {o : Op} {Q : Except PaymentError o.Reply → Phase → Prop} (ha : Allowed t φ o)
    (h : ∀ result, Answer t o result → Q result (φ.next o result)) :
    Follows (protocol t) φ (op o) Q := by
  apply follows_perform ha
  intro result φ' hm
  rw [hm.2]
  exact h result hm.1

theorem follows_updatePaymentRecord {id : String} {update : PaymentRecordUpdate}
    {Q : Except PaymentError PaymentRecord → Phase → Prop} (h : ∀ result, Q result φ) :
    Follows (protocol t) φ (op (.updatePaymentRecord id update)) Q := by
  refine follows_op trivial ?_
  intro result _
  exact h result

theorem follows_emitStatusEvent {channel : PaymentStatusChannel} {txHash reason : Option String}
    {Q : Except PaymentError Unit → Phase → Prop} (h : ∀ result, Q result φ) :
    Follows (protocol t) φ (emitStatusEvent channel record txHash reason) Q := by
  refine follows_op trivial ?_
  intro result _
  exact h result

theorem follows_markFailed {id failureReason reason : String} {txHash : Option String}
    {Q : Except PaymentError Unit → Phase → Prop} (h : ∀ result, Q result φ) :
    Follows (protocol t) φ (markFailed id txHash failureReason reason) Q := by
  apply follows_bind
  apply follows_updatePaymentRecord
  intro result
  cases result with
  | ok updated => exact follows_emitStatusEvent h
  | error e => exact h _

theorem follows_findRecord (hfree : φ.owes = false) {Q : Except PaymentError PaymentRecord → Phase → Prop}
    (hok : ∀ record, Q (.ok record) {φ with hand := .read record}) (herr : ∀ e, Q (.error e) φ) :
    Follows (protocol t) φ (findRecord t.escrowId) Q := by
  refine follows_bind (follows_op ⟨rfl, hfree⟩ (forall_except (fun e _ => herr e) fun found _ => ?_))
  cases found with
  | some record => exact hok record
  | none => exact herr _

theorem follows_submit {request : TransactionRequest} (ha : Allowed t φ (.submitContractInvocation request))
    {Q : Except PaymentError TransactionResult → Phase → Prop}
    (hok : ∀ tx, Q (.ok tx) (φ.next (.submitContractInvocation request) (.ok tx)))
    (herr : ∀ e, Q (.error e) φ) :
    Follows (protocol t) φ (submitContractInvocationWithRetry request) Q := by
  unfold submitContractInvocationWithRetry
  generalize DEFAULT_MAX_RETRIES = retries
  generalize 0 = attempt
  have honce : Follows (protocol t) φ (op (.submitContractInvocation request)) Q := by
    apply follows_op ha
    intro result _
    cases result with
    | ok tx => exact hok tx
    | error e => exact herr e
  induction retries generalizing attempt with
  | zero => exact honce
  | succ retries ih =>
    apply follows_bind
    apply follows_attempt
    apply follows_op ha
    intro result _
    cases result with
    | ok tx => exact hok tx
    | error e =>
      simp only [Then]
      cases isTransientNetworkError e with
      | true =>
        exact follows_bind (follows_op trivial (forall_except (fun e _ => herr e) fun _ _ => ih (attempt + 1)))
      | false => exact herr e

variable {escrowId : String}

theorem follows_parseEscrowId {Q : Except PaymentError Nat → Phase → Prop}
    (hok : ∀ id, conv.number escrowId = some id → Q (.ok id) φ) (herr : ∀ e, Q (.error e) φ) :
    Follows (protocol t) φ (parseEscrowId conv escrowId) Q := by
  unfold parseEscrowId
  split
  · rename_i id hid
    exact hok id hid
  · exact herr _

/-- The call is about the escrow of the terms. -/
structure Terms.Covers (t : Terms) (conv : Conversions) (escrowId : String) : Prop where
  escrow : escrowId = t.escrowId
  number : conv.number escrowId = some t.chainId

theorem Terms.Covers.chainId {t : Terms} {conv : Conversions}
    (h : t.Covers conv escrowId) {id : Nat} (hid : conv.number escrowId = some id) : id = t.chainId :=
  Option.some.inj (hid.symm.trans h.number)

def Free {α : Type} : Except PaymentError α → Phase → Prop := fun _ φ => φ.owes = false

variable {params : EscrowParams}

theorem follows_fullSubmit {inv : FullInvocation} {refunded : Bool} (hcov : t.Covers conv params.escrowId)
    (hmethod : inv.method.party = none) (hmay : ∀ request, request.method = inv.method → t.may refunded request) :
    Follows (protocol t) ⟨refunded, .read record⟩ (inv.submit conv params record) Free := by
  apply follows_bind
  apply follows_parseEscrowId
  case herr => exact fun _ => rfl
  intro id hid
  apply follows_bind
  apply follows_submit
  case ha => exact ⟨hcov.chainId hid, hmay _ rfl, record, rfl, fun hparty => absurd hmethod hparty⟩
  case herr => exact fun _ => rfl
  intro tx
  have hphase : Phase.next ⟨refunded, .read record⟩ (.submitContractInvocation
      { sourceAddress := params.callerAddress, contractId := params.escrowContractId, method := inv.method, escrowId := id
        memo := inv.memo }) (.ok tx) = ⟨refunded, .read record⟩ := by
    simp [Phase.next, Phase.pay, hmethod]
  rw [hphase]
  simp only [Then]
  split
  · apply follows_bind
    apply follows_markFailed
    intro result
    cases result with
    | ok _ => exact rfl
    | error e => exact rfl
  · apply follows_bind
    apply follows_updatePaymentRecord
    intro result
    cases result with
    | error e => exact rfl
    | ok updated =>
      apply follows_bind
      apply follows_emitStatusEvent
      intro emitted
      cases emitted with
      | ok _ => exact rfl
      | error e => exact rfl

theorem follows_invokeEscrow {inv : FullInvocation} (hfree : φ.owes = false) (hcov : t.Covers conv params.escrowId)
    (hmethod : inv.method.party = none) (hmay : ∀ request, request.method = inv.method → t.may φ.refunded request) :
    Follows (protocol t) φ (invokeEscrow inv conv params) Free := by
  unfold invokeEscrow
  apply follows_bind
  rw [hcov.escrow]
  apply follows_findRecord hfree
  case herr => exact fun _ => hfree
  intro record
  simp only [Then]
  split
  · exact rfl
  · apply follows_bind
    apply follows_updatePaymentRecord
    intro result
    cases result with
    | error e => exact rfl
    | ok _ =>
      apply follows_bind
      apply follows_tryCatch
      apply follows_mono (follows_fullSubmit hcov hmethod hmay)
      intro outcome φ' hdone
      cases outcome with
      | ok result => exact hdone
      | error e =>
        apply follows_bind
        apply follows_markFailed
        intro marked
        cases marked with
        | ok _ => exact hdone
        | error e => exact hdone

def Recorded (party : Party) : Except PaymentError PartialResult → Phase → Prop := fun outcome φ =>
  φ.owes = false ∧ ∀ result, outcome = .ok result → result.status = .paid → party = .buyer → φ.refunded = true

theorem recorded_error {party : Party} {e : PaymentError} (hfree : φ.owes = false) :
    Recorded party (.error e) φ := ⟨hfree, fun _ h => by cases h⟩

theorem recorded_failed {party : Party} {result : PartialResult} (hfree : φ.owes = false)
    (hfail : result.status = .failed) : Recorded party (.ok result) φ := by
  refine ⟨hfree, ?_⟩
  intro result' heq hpaid
  cases heq
  simp [hfail] at hpaid

variable {amountStroops : String}

theorem follows_partialSubmit {payout : PartialPayout} {requested : Int} {refunded : Bool}
    (hcov : t.Covers conv params.escrowId)
    (hmay : ∀ request, request.method = payout.party.method → request.amount = requested → t.may refunded request)
    (hpos : 0 < requested) (hfits : requested ≤ computeRemaining record) :
    Follows (protocol t) ⟨refunded, .read record⟩
      (payout.submit conv params amountStroops record requested) (Recorded payout.party) := by
  have hparty : payout.party.method.party = some payout.party := by cases payout.party <;> rfl
  apply follows_bind
  apply follows_parseEscrowId
  case herr => exact fun _ => recorded_error rfl
  intro id hid
  apply follows_bind
  apply follows_submit
  case ha => exact ⟨hcov.chainId hid, hmay _ rfl rfl, record, rfl, fun _ => ⟨hpos, hfits⟩⟩
  case herr => exact fun _ => recorded_error rfl
  intro tx
  simp only [Then]
  cases hsucs : tx.success with
  | false =>
    have hphase : ∀ request, Phase.next ⟨refunded, .read record⟩
        (.submitContractInvocation request) (.ok tx) = ⟨refunded, .read record⟩ := by
      intro request
      simp [Phase.next, hsucs]
    rw [hphase]
    apply follows_bind
    apply follows_markFailed
    intro marked
    cases marked with
    | ok _ => exact recorded_failed rfl rfl
    | error e => exact recorded_error rfl
  | true =>
    have hphase : Phase.next ⟨refunded, .read record⟩ (.submitContractInvocation
        { sourceAddress := params.callerAddress, contractId := params.escrowContractId
          method := payout.party.method, escrowId := id, amount := requested
          memo := payout.memo }) (.ok tx) =
        ⟨refunded, .paid record payout.party requested⟩ := by
      simp [Phase.next, Phase.pay, hsucs, hparty]
    rw [hphase]
    refine follows_bind (follows_op ⟨record, payout.party, requested, _, rfl, rfl, rfl⟩
      (forall_except (fun _ hans => hans.elim) fun _ _ => ?_))
    apply follows_bind
    apply follows_emitStatusEvent
    intro emitted
    cases emitted with
    | error e => exact recorded_error rfl
    | ok _ =>
      refine ⟨rfl, ?_⟩
      intro _ _ _ hbuyer
      simp [Phase.next, Phase.settle, hbuyer]

theorem follows_partialPayout {payout : PartialPayout} (hfree : φ.owes = false) (hcov : t.Covers conv params.escrowId)
    (hmay : ∀ request, request.method = payout.party.method →
      conv.bigInt amountStroops = some request.amount → t.may φ.refunded request) :
    Follows (protocol t) φ (partialPayout payout conv params amountStroops)
      (fun outcome => Recorded payout.party (outcome.map Prod.snd)) := by
  unfold partialPayout
  apply follows_bind
  rw [hcov.escrow]
  apply follows_findRecord hfree
  case herr => exact fun _ => recorded_error hfree
  intro record
  simp only [Then]
  split
  · exact recorded_error rfl
  rename_i requested hrequested
  split
  · exact recorded_error rfl
  rename_i hfits
  apply follows_bind
  apply follows_updatePaymentRecord
  intro updated
  cases updated with
  | error e => exact recorded_error rfl
  | ok _ =>
    apply follows_bind
    apply follows_tryCatch
    have hsubmit : Follows (protocol t) ⟨φ.refunded, .read record⟩
        (payout.submit conv params amountStroops record requested) (Recorded payout.party) :=
      follows_partialSubmit hcov (fun request hmethod hamount => hmay request hmethod (hamount ▸ hrequested))
        (by omega) (by omega)
    apply follows_mono hsubmit
    intro outcome φ' hdone
    cases outcome with
    | ok result => exact hdone
    | error e => cases e with
      | insufficientBalance _ _ _ => exact recorded_error hdone.1
      | other message =>
        apply follows_bind
        apply follows_markFailed
        intro marked
        cases marked with
        | ok _ => exact recorded_failed hdone.1 rfl
        | error e => exact recorded_error hdone.1

theorem follows_getRemainingBalance (hfree : φ.owes = false) (hesc : escrowId = t.escrowId) :
    Follows (protocol t) φ (getRemainingBalance escrowId) Free := by
  rw [hesc]
  apply follows_bind
  apply follows_findRecord hfree
  · exact fun _ => rfl
  · exact fun _ => hfree

theorem follows_partialRefundEscrow {reason : String} (hfree : φ.owes = false) (hcov : t.Covers conv params.escrowId)
    (hmay : ∀ request, request.method = .partialRefund →
      conv.bigInt amountStroops = some request.amount → t.may φ.refunded request) :
    Follows (protocol t) φ (partialRefundEscrow conv params amountStroops reason)
      (fun outcome => Recorded .buyer (outcome.map PartialRefundResult.toPartialResult)) := by
  exact follows_bind (follows_mono (follows_partialPayout hfree hcov hmay)
    (forall_except (fun _ _ hdone => hdone) fun _ _ hdone => hdone))

theorem follows_partialReleaseEscrow {memo : Option String} (hfree : φ.owes = false)
    (hcov : t.Covers conv params.escrowId)
    (hmay : ∀ request, request.method = .partialRelease →
      conv.bigInt amountStroops = some request.amount → t.may φ.refunded request) :
    Follows (protocol t) φ (partialReleaseEscrow conv params amountStroops memo)
      (fun outcome => Recorded .seller (outcome.map PartialReleaseResult.toPartialResult)) := by
  exact follows_bind (follows_mono (follows_partialPayout hfree hcov hmay)
    (forall_except (fun _ _ hdone => hdone) fun _ _ hdone => hdone))

theorem body_follows {cfg : Settings} {call : Call} (hesc : call.escrowId = some t.escrowId)
    (hnumber : cfg.conv.number t.escrowId = some t.chainId)
    (hmay : ∀ refunded request, call.method = some request.method → t.may refunded request) :
    Follows (protocol t) {} (body cfg call) Free := by
  have hcov : ∀ escrowId, some escrowId = call.escrowId → t.Covers cfg.conv escrowId := by
    intro escrowId h
    rw [hesc, Option.some.injEq] at h
    exact ⟨h, h ▸ hnumber⟩
  cases call with
  | executeDecision disputeId => cases hesc
  | getRemainingBalance escrowId =>
    apply follows_andThen (follows_getRemainingBalance rfl (hcov _ rfl).escrow)
    exact fun _ _ hfree => hfree
  | releaseEscrow params =>
    apply follows_andThen (follows_andThen (follows_invokeEscrow rfl (hcov _ rfl) rfl ?_) ?_)
    · exact fun _ _ hfree => hfree
    · exact fun request h => hmay _ request (congrArg some h.symm)
    · exact fun _ _ hfree => hfree
  | refundEscrow params reason =>
    apply follows_andThen (follows_andThen (follows_invokeEscrow rfl (hcov _ rfl) rfl ?_) ?_)
    · exact fun _ _ hfree => hfree
    · exact fun request h => hmay _ request (congrArg some h.symm)
    · exact fun _ _ hfree => hfree
  | disputeEscrow params =>
    apply follows_andThen (follows_andThen (follows_invokeEscrow rfl (hcov _ rfl) rfl ?_) ?_)
    · exact fun _ _ hfree => hfree
    · exact fun request h => hmay _ request (congrArg some h.symm)
    · exact fun _ _ hfree => hfree
  | partialRefundEscrow params amountStroops reason =>
    apply follows_andThen (follows_mono (follows_partialRefundEscrow rfl (hcov _ rfl) ?_) ?_)
    · exact fun _ _ hfree => hfree
    · exact fun request h _ => hmay _ request (congrArg some h.symm)
    · exact fun _ _ hdone => hdone.1
  | partialReleaseEscrow params amountStroops memo =>
    apply follows_andThen (follows_mono (follows_partialReleaseEscrow rfl (hcov _ rfl) ?_) ?_)
    · exact fun _ _ hfree => hfree
    · exact fun request h _ => hmay _ request (congrArg some h.symm)
    · exact fun _ _ hdone => hdone.1

end Delego.Payments
