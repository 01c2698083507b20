import Delego.Payments.SettledOnce
import Delego.Purchase.Compensation

/-! Whether a rollback returns the money to the buyer.

It does not. The escrow is funded by the first step, so that the compensation of
`fundEscrow` comes last, and that compensation is a release: an escrow that nothing has
settled before goes to the seller, and one that the compensation of `settleEscrow` has
refunded is refused, which is reported as a stuck escrow (`buyer_never_made_whole`). -/
namespace Delego.Purchase
open Delego.Process Delego.Data List
open Delego.Payments (PaymentRecord PaymentRecordStatus PaymentRecordUpdate updateWhere lookup_updateWhere
  findPaymentRecordByOrderId)
open Delego.Settlement (Direction SettlementOutcome settleOrder escrowOf escrowOf_perform)

/-! ### The record of an order -/

def settles : Effect Settlement.settlementSignature Settlement.World :=
  fun o w r w' => ∃ ch, Settlement.perform o ch w = (r, w')

def statusOf (w : Settlement.World) (orderId : String) : Option PaymentRecordStatus :=
  (findPaymentRecordByOrderId orderId w.records).map PaymentRecord.status

def Escrowed (w : Settlement.World) (orderId : String) : Prop :=
  ∃ escrowId, escrowOf w orderId = some escrowId ∧ escrowId ≠ ""

theorem Escrowed.found {w : Settlement.World} {orderId : String} (h : Escrowed w orderId) :
    ∃ record escrowId, findPaymentRecordByOrderId orderId w.records = some record ∧
      Settlement.fundedEscrow record = some (record, escrowId) := by
  obtain ⟨escrowId, hesc, hne⟩ := h
  obtain ⟨record, hfound, hrec⟩ := Option.bind_eq_some_iff.mp hesc
  exact ⟨record, escrowId, hfound, by simp [Settlement.fundedEscrow, hrec, hne]⟩

theorem escrowOf_alone {α : Type} (ch : Settlement.Op → Settlement.Choice) (p : Settlement.SettlementM α)
    (w : Settlement.World) (orderId : String) :
    escrowOf (p.alone (fun o => Settlement.perform o (ch o)) w).2 orderId = escrowOf w orderId := by
  induction p generalizing w with
  | ret a => rfl
  | fail e => rfl
  | call o next ih =>
    calc escrowOf ((next _).alone _ _).2 orderId
        = escrowOf (Settlement.perform o (ch o) w).2 orderId := ih _ _
      _ = escrowOf w orderId := escrowOf_perform o (ch o) w orderId

theorem ends_alone {α : Type} (ch : Settlement.Op → Settlement.Choice) (p : Settlement.SettlementM α)
    (w : Settlement.World) :
    Ends settles p w (p.alone (fun o => Settlement.perform o (ch o)) w).1
      (p.alone (fun o => Settlement.perform o (ch o)) w).2 :=
  Ends.of_alone (fun o _ => ⟨ch o, rfl⟩) p w

section
variable {dir : Direction} {w w' : Settlement.World} {record : PaymentRecord} {orderId : String}

theorem statusOf_update {update : PaymentRecordUpdate} {status : PaymentRecordStatus} {r : PaymentRecord}
    (hfound : findPaymentRecordByOrderId orderId w.records = some record) (hstat : update.status = some status)
    (h : settles (.updatePaymentRecord record.id update) w (.ok r) w') : statusOf w' orderId = some status := by
  obtain ⟨ch, h⟩ := h
  have hw : w' = ⟨updateWhere record.id update.apply w.records⟩ := by
    cases ch with
    | fault message => cases h
    | _ =>
      simp only [Settlement.perform, Settlement.fallible] at h
      split at h
      · cases h
        rfl
      · cases h
  have hkeeps : ∀ record, (update.apply record).orderId = record.orderId := fun _ => rfl
  rw [findPaymentRecordByOrderId] at hfound
  rw [hw, statusOf, findPaymentRecordByOrderId, lookup_updateWhere hkeeps, hfound]
  simp [PaymentRecordUpdate.apply, hstat]

theorem records_of_settles {o : Settlement.Op} {r : Settlement.settlementSignature.Result o}
    (ho : ∀ id update, o ≠ .updatePaymentRecord id update) (h : settles o w r w') : w' = w := by
  obtain ⟨ch, h⟩ := h
  cases o with
  | updatePaymentRecord id update => exact absurd rfl (ho id update)
  | findPaymentRecordByOrderId orderId => cases ch <;> cases h <;> rfl
  | escrowService operation sourceAddress escrowId => cases h; rfl
  | publishPaymentEvent event => cases ch <;> cases h <;> rfl

/-- A call of `settleOrder` or `refundOrder` that does not fail has settled the order. -/
def Settled (dir : Direction) (orderId : String) (r : Except String SettlementOutcome) (w : Settlement.World) : Prop :=
  ∀ outcome, r = .ok outcome → outcome.status = .failed ∨ statusOf w orderId = some dir.status

variable {escrowId : String}

theorem settled_failure {reason : String} {txHash : Option String} :
    Settled dir orderId (.ok (Direction.failure orderId escrowId txHash reason)) w := by
  rintro outcome ⟨⟩
  exact .inl rfl

theorem settled_error {message : String} : Settled dir orderId (.error message) w := by rintro outcome ⟨⟩

theorem follows_submit {sourceAddress : String} (hfound : findPaymentRecordByOrderId orderId w.records = some record) :
    Follows (machine settles) w (dir.submit orderId escrowId sourceAddress record) (Settled dir orderId) := by
  apply follows_bind
  apply follows_op
  intro r w₁ hinvoked
  obtain rfl := records_of_settles (by rintro _ _ ⟨⟩) hinvoked
  cases r with
  | error message => exact settled_error
  | ok result =>
    show Follows _ _ (if !result.success then _ else _) _
    split
    · apply follows_bind
      apply follows_op
      intro r w₂ _
      cases r with
      | error message => exact settled_error
      | ok _ => exact settled_failure
    · apply follows_bind
      apply follows_op
      intro r w₂ hupdated
      cases r with
      | error message => exact settled_error
      | ok _ =>
        have hstat := statusOf_update hfound rfl hupdated
        apply follows_bind
        apply follows_attempt
        apply follows_op
        intro r w₃ hpub
        obtain rfl := records_of_settles (by rintro _ _ ⟨⟩) hpub
        rintro outcome ⟨⟩
        exact .inr hstat

theorem follows_settleRecord {cfg : Settlement.Settings}
    (hfound : findPaymentRecordByOrderId orderId w.records = some record) :
    Follows (machine settles) w (dir.settleRecord cfg orderId escrowId record) (Settled dir orderId) := by
  unfold Direction.settleRecord
  split
  · rename_i hstat
    rintro outcome ⟨⟩
    right
    rw [statusOf, hfound, Option.map_some, hstat]
  split
  · exact settled_failure
  split
  · exact settled_error
  · refine follows_tryCatch (follows_mono (follows_submit hfound) ?_)
    intro r w₁ hsett
    cases r with
    | ok outcome => exact hsett
    | error message =>
      apply follows_bind
      apply follows_attempt
      apply follows_op
      intro r w₂ _
      exact settled_failure

theorem follows_settle {cfg : Settlement.Settings} {givenId : String} (h : Escrowed w (cfg.conv.trim givenId)) :
    Follows (machine settles) w (dir.settle cfg givenId) (Settled dir (cfg.conv.trim givenId)) := by
  obtain ⟨record, escrowId, hfound, hesc⟩ := h.found
  show Follows _ _ (if cfg.conv.trim givenId = "" then _ else _) _
  split
  · exact settled_error
  apply follows_bind
  apply follows_op
  rintro r w₁ ⟨ch, hread⟩
  have hread' : w₁ = w ∧ ∀ found, r = .ok found → found = some record := by
    cases ch with
    | fault message =>
      cases hread
      refine ⟨rfl, ?_⟩
      rintro found ⟨⟩
    | _ =>
      cases hread
      refine ⟨rfl, ?_⟩
      rintro found ⟨⟩
      exact hfound
  obtain ⟨rfl, hrec⟩ := hread'
  cases r with
  | error message => exact settled_error
  | ok found =>
    obtain rfl := hrec found rfl
    simp only [Then, Option.bind_some, hesc]
    exact follows_settleRecord hfound

end

def does (cfg : Settlement.Settings) : Effect compensationSignature World :=
  fun o w r w' => ∃ ch, perform cfg o ch w = (r, w')

section
variable {cfg : Settlement.Settings} {w w' : World} {orderId : String}

theorem escrowed_postOrder {order : Settlement.SettlementM SettlementOutcome} {failed : String}
    (ch : Settlement.Op → Settlement.Choice) (h : Escrowed w.payments orderId) :
    Escrowed (postOrder failed order ch w).2.payments orderId := by
  have hkept : Escrowed (order.alone (fun o => Settlement.perform o (ch o)) w.payments).2 orderId := by
    rw [Escrowed, escrowOf_alone]
    exact h
  unfold postOrder
  split
  · rename_i hran
    rw [hran] at hkept
    exact hkept
  · rename_i hran
    rw [hran] at hkept
    exact hkept

variable {o : Op}

theorem payments_answer {payments : Settlement.Op → Settlement.Choice} {cancelled : MerchantCancellationOutcome}
    (hrels : ∀ orderId, o ≠ .release orderId) (hrefund : ∀ orderId reasonCode, o ≠ .refund orderId reasonCode) :
    (answer cfg payments cancelled o w).2.payments = w.payments := by
  cases o with
  | release orderId => exact absurd rfl (hrels orderId)
  | refund orderId reasonCode => exact absurd rfl (hrefund orderId reasonCode)
  | cancel merchantOrderId reasonCode => rfl
  | insertWorkflowTransitionAudit input =>
    simp only [answer]
    split_ifs <;> rfl
  | upsertCompensationOutcome input =>
    simp only [answer]
    split_ifs <;> rfl
  | moveToDeadLetter entry => rfl

theorem escrowed_answer {payments : Settlement.Op → Settlement.Choice} {cancelled : MerchantCancellationOutcome}
    (h : Escrowed w.payments orderId) :
    Escrowed (answer cfg payments cancelled o w).2.payments orderId := by
  cases o with
  | release id => exact escrowed_postOrder payments h
  | refund id reasonCode => exact escrowed_postOrder payments h
  | _ =>
    rw [payments_answer]
    · exact h
    · rintro _ ⟨⟩
    · rintro _ _ ⟨⟩

variable {r : compensationSignature.Result o}

theorem world_of_does (hdoes : does cfg o w r w') :
    w' = w ∨ ∃ payments cancelled, w' = (answer cfg payments cancelled o w).2 := by
  obtain ⟨ch, hdoes⟩ := hdoes
  cases ch with
  | fault message =>
    cases hdoes
    exact .inl rfl
  | lost payments message =>
    cases hdoes
    exact .inr ⟨payments, _, rfl⟩
  | answered payments cancelled => exact .inr ⟨payments, cancelled, (congrArg Prod.snd hdoes).symm⟩

theorem escrowed_does (h : Escrowed w.payments orderId)
    (hdoes : does cfg o w r w') : Escrowed w'.payments orderId := by
  rcases world_of_does hdoes with rfl | ⟨payments, cancelled, rfl⟩
  · exact h
  · exact escrowed_answer h

theorem follows_escrowed {α : Type} {p : CompensationM α} (h : Escrowed w.payments orderId) :
    Follows (machine (does cfg)) w p fun _ w' => Escrowed w'.payments orderId := by
  induction p generalizing w with
  | ret a => exact h
  | fail e => exact h
  | call o next ih => exact ⟨trivial, fun r w' hdoes => ih r (escrowed_does h hdoes)⟩

theorem payments_does (hrels : ∀ orderId, o ≠ .release orderId)
    (hrefund : ∀ orderId reasonCode, o ≠ .refund orderId reasonCode) (hdoes : does cfg o w r w') :
    w'.payments = w.payments := by
  rcases world_of_does hdoes with rfl | ⟨payments, cancelled, rfl⟩
  · rfl
  · exact payments_answer hrels hrefund

theorem released_of_release {outcome : SettlementOutcome} (h : Escrowed w.payments (cfg.conv.trim orderId))
    (hdoes : does cfg (.release orderId) w (.ok outcome) w') :
    statusOf w'.payments (cfg.conv.trim orderId) = some .released := by
  obtain ⟨ch, hdoes⟩ := hdoes
  cases ch with
  | fault message => cases hdoes
  | lost payments message => cases hdoes
  | answered payments cancelled =>
    have hsett := (follows_settle h).ends (ends_alone payments (settleOrder cfg orderId) w.payments)
    simp only [perform, answer, postOrder] at hdoes
    split at hdoes
    · rename_i ended records hran
      rw [hran] at hsett
      split at hdoes
      · cases hdoes
      · rename_i hok
        cases hdoes
        exact (hsett outcome rfl).resolve_left hok
    · cases hdoes

end

/-! ### The rollback -/

section
variable {cfg : Settlement.Settings} {workflowId cause orderId : String} {w : World} {progress : Progress}

/-- The order of the context has an escrow, and the context knows of it. -/
structure Funded (cfg : Settlement.Settings) (context : PurchaseContext) (w : World) : Prop where
  escrowed : Escrowed w.payments (cfg.conv.trim context.workflowId)
  known : ∃ id, context.escrowContractId = some id ∧ id ≠ ""

/-- Nothing can give the money back any more: a step has failed, or the seller has it. -/
def Lost (orderId : String) (progress : Progress) (w : World) : Prop :=
  progress.failedSteps ≠ [] ∨ statusOf w.payments orderId = some .released

theorem follows_recordFailure {stepName message : String} :
    Follows (machine (does cfg)) w (recordFailure workflowId progress stepName message) fun r _ => ∀ p, r = .ok p →
        p.failedSteps ≠ [] ∧ p.currentContext = progress.currentContext := by
  apply follows_bind
  apply follows_attempt
  apply follows_op
  rintro r w' - p ⟨⟩
  simp

theorem follows_fundEscrow (h : Funded cfg progress.currentContext w) : Follows (machine (does cfg)) w
      (compensateStep workflowId cause defaultPurchaseCompensationSteps progress "fundEscrow")
      fun r w' => ∀ p, r = .ok p → Lost (cfg.conv.trim progress.currentContext.workflowId) p w' := by
  obtain ⟨id, hid, hne⟩ := h.known
  have hregd : registered defaultPurchaseCompensationSteps "fundEscrow" = some fundEscrow := rfl
  have hreleases : Follows (machine (does cfg)) w (fundEscrow.compensate progress.currentContext cause)
      fun r w' => ∀ context, r = .ok context →
        statusOf w'.payments (cfg.conv.trim progress.currentContext.workflowId) = some .released := by
    simp only [fundEscrow, hid, Option.filter_some, hne, ne_eq, not_false_eq_true, decide_true, if_true]
    apply follows_bind
    apply follows_op
    intro r w₁ hdoes
    cases r with
    | error message => rintro context ⟨⟩
    | ok outcome =>
      have hrel := released_of_release h.escrowed hdoes
      simp only [Then]
      split
      · rintro context ⟨⟩
      · rintro context ⟨⟩
        exact hrel
  simp only [compensateStep, hregd]
  refine follows_bind (follows_attempt (follows_mono hreleases ?_))
  intro r w₁ hrel
  cases r with
  | error message =>
    refine follows_mono follows_recordFailure ?_
    intro r w₂ hfail p hp
    exact .inl (hfail p hp).1
  | ok context =>
    apply follows_bind
    apply follows_attempt
    apply follows_op
    intro r w₂ haudit
    cases r with
    | error message =>
      refine follows_mono follows_recordFailure ?_
      intro r w₃ hfail p hp
      exact .inl (hfail p hp).1
    | ok _ =>
      rintro p ⟨⟩
      right
      rw [payments_does (by rintro _ ⟨⟩) (by rintro _ _ ⟨⟩) haudit]
      exact hrel context rfl

def Leaves (cfg : Settlement.Settings) (step : CompensationStep) : Prop :=
  ∀ w context cause, Follows (machine (does cfg)) w (step.compensate context cause)
    fun r _ => ∀ context', r = .ok context' → context' = context

theorem leaves_confirmPurchase : Leaves cfg confirmPurchase := by
  intro w context cause
  apply follows_tryCatch
  apply follows_bind
  apply follows_op
  intro r w₁ _
  cases r with
  | error message =>
    dsimp only [Then]
    cases notConfigured message with
    | true =>
      rintro context' ⟨⟩
      rfl
    | false => rintro context' ⟨⟩
  | ok outcome =>
    simp only [Then]
    split
    · dsimp only [Follows]
      cases notConfigured (outcome.reason.getD "Merchant cancellation failed") with
      | true =>
        rintro context' ⟨⟩
        rfl
      | false => rintro context' ⟨⟩
    · rintro context' ⟨⟩
      rfl

theorem leaves_settleEscrow : Leaves cfg settleEscrow := by
  intro w context cause
  apply follows_bind
  apply follows_op
  intro r w₁ _
  cases r with
  | error message => rintro context' ⟨⟩
  | ok outcome =>
    simp only [Then]
    split
    · rintro context' ⟨⟩
    · rintro context' ⟨⟩
      rfl

theorem follows_compensateStep {step : CompensationStep} {stepName : String} {allSteps : List CompensationStep}
    (hregd : registered allSteps stepName = some step) (hleaves : Leaves cfg step)
    (h : Funded cfg progress.currentContext w) :
    Follows (machine (does cfg)) w (compensateStep workflowId cause allSteps progress stepName)
      fun r w' => ∀ p, r = .ok p → p.currentContext = progress.currentContext ∧ Funded cfg p.currentContext w' := by
  have hcontext : Follows (machine (does cfg)) w (compensateStep workflowId cause allSteps progress stepName)
      fun r _ => ∀ p, r = .ok p → p.currentContext = progress.currentContext := by
    simp only [compensateStep, hregd]
    refine follows_bind (follows_attempt (follows_mono (hleaves w progress.currentContext cause) ?_))
    intro r w₁ heq
    cases r with
    | error message =>
      refine follows_mono follows_recordFailure ?_
      intro r w₂ hfail p hp
      exact (hfail p hp).2
    | ok context =>
      obtain rfl := heq context rfl
      apply follows_bind
      apply follows_attempt
      apply follows_op
      intro r w₂ _
      cases r with
      | error message =>
        refine follows_mono follows_recordFailure ?_
        intro r w₃ hfail p hp
        exact (hfail p hp).2
      | ok _ =>
        rintro p ⟨⟩
        rfl
  refine follows_mono (follows_and hcontext (follows_escrowed h.escrowed)) ?_
  rintro r w' ⟨heq, hescrowed⟩ p hp
  refine ⟨heq p hp, ?_⟩
  rw [heq p hp]
  exact ⟨hescrowed, h.known⟩

theorem follows_compensateSteps {earlier : List String}
    (hearlier : ∀ stepName ∈ earlier, stepName = "confirmPurchase" ∨ stepName = "settleEscrow")
    (h : Funded cfg progress.currentContext w) :
    Follows (machine (does cfg)) w
      (compensateSteps workflowId cause defaultPurchaseCompensationSteps (earlier ++ ["fundEscrow"]) progress)
      fun r w' => ∀ p, r = .ok p → Lost (cfg.conv.trim progress.currentContext.workflowId) p w' := by
  induction earlier generalizing w progress with
  | nil =>
    refine follows_bind (follows_mono (follows_fundEscrow h) (forall_except (fun _ _ _ => ?_) fun _ _ hlost => hlost))
    rintro p ⟨⟩
  | cons stepName rest ih =>
    have hstep : ∃ step, registered defaultPurchaseCompensationSteps stepName = some step ∧ Leaves cfg step := by
      rcases hearlier stepName mem_cons_self with rfl | rfl
      · exact ⟨confirmPurchase, rfl, leaves_confirmPurchase⟩
      · exact ⟨settleEscrow, rfl, leaves_settleEscrow⟩
    obtain ⟨step, hregd, hleaves⟩ := hstep
    refine follows_bind (follows_mono (follows_compensateStep hregd hleaves h) ?_)
    intro r w₁ hafter
    cases r with
    | error message => rintro p ⟨⟩
    | ok p =>
      obtain ⟨heq, hfunded⟩ := hafter p rfl
      rw [← heq]
      exact ih (fun name hname => hearlier name (mem_cons_of_mem stepName hname)) hfunded

/-- It is reported that nothing is stuck, and the payment is refunded. -/
def MadeWhole (orderId : String) (outcome : Except String CompensationResult) (w : World) : Prop :=
  ∃ result, outcome = .ok result ∧ result.status = .success ∧ result.escrowStuck = false ∧
    statusOf w.payments orderId = some .refunded

theorem not_madeWhole {status : CompensationStatus} {compensatedSteps : List String} (hlost : Lost orderId progress w)
    (hstat : status = if progress.failedSteps.length = 0 then .success else .partialFailure) :
    ¬MadeWhole orderId
      (.ok ⟨status, compensatedSteps, progress.failedSteps, progress.currentContext, progress.escrowStuck⟩) w := by
  rintro ⟨result, ⟨⟩, hsucs, -, hrefunded⟩
  rcases hlost with hfail | hrel
  · have hlen : progress.failedSteps.length ≠ 0 := fun h => hfail (length_eq_zero_iff.mp h)
    rw [hstat, if_neg hlen] at hsucs
    cases hsucs
  · simp [hrel] at hrefunded

theorem follows_finish (hlost : Lost orderId progress w) :
    Follows (machine (does cfg)) w (finish workflowId cause progress) fun r w' => ¬MadeWhole orderId r w' := by
  apply follows_bind
  apply follows_attempt
  apply follows_op
  intro r w₁ hupsert
  have hlost₁ : Lost orderId progress w₁ := by
    rw [Lost, payments_does (by rintro _ ⟨⟩) (by rintro _ _ ⟨⟩) hupsert]
    exact hlost
  simp only [Then]
  split
  · apply follows_bind
    apply follows_attempt
    apply follows_op
    intro r w₂ hmoved
    have hlost₂ : Lost orderId progress w₂ := by
      rw [Lost, payments_does (by rintro _ ⟨⟩) (by rintro _ _ ⟨⟩) hmoved]
      exact hlost₁
    exact not_madeWhole hlost₂ rfl
  · exact not_madeWhole hlost₁ rfl

end

def purchaseSteps : List String := ["fundEscrow", "confirmPurchase", "settleEscrow"]

/-- **The buyer is never made whole**: no rollback of a purchase whose escrow is funded succeeds with the money back
at the buyer. -/
theorem buyer_never_made_whole {cfg : Settlement.Settings} {workflowId cause : String}
    {completedStepNames : List String} {context : PurchaseContext} {w w' : World}
    {outcome : Except String CompensationResult} (hsome : completedStepNames ≠ [])
    (hcomp : completedStepNames <+: purchaseSteps) (hfunded : Funded cfg context w)
    (run : Ends (does cfg)
      (runCompensation workflowId cause defaultPurchaseCompensationSteps completedStepNames context) w outcome w') :
    ¬MadeWhole (cfg.conv.trim context.workflowId) outcome w' := by
  obtain ⟨rest, rfl, hrest⟩ : ∃ rest, completedStepNames = "fundEscrow" :: rest ∧
      rest <+: ["confirmPurchase", "settleEscrow"] := by
    cases completedStepNames with
    | nil => exact absurd rfl hsome
    | cons stepName rest =>
      obtain ⟨rfl, hrest⟩ := cons_prefix_cons.mp hcomp
      exact ⟨rest, rfl, hrest⟩
  have hearlier : ∀ stepName ∈ rest.reverse, stepName = "confirmPurchase" ∨ stepName = "settleEscrow" := by
    intro stepName hname
    simpa using hrest.subset (mem_reverse.mp hname)
  have hroll : Follows (machine (does cfg)) w
      (runCompensation workflowId cause defaultPurchaseCompensationSteps ("fundEscrow" :: rest) context)
      fun r w' => ¬MadeWhole (cfg.conv.trim context.workflowId) r w' := by
    rw [runCompensation, reverse_cons]
    refine follows_bind (follows_mono (follows_compensateSteps hearlier hfunded)
      (forall_except (fun _ _ _ => ?_) fun progress _ hlost => follows_finish (hlost progress rfl)))
    rintro ⟨result, ⟨⟩, -⟩
  exact hroll.ends run

def smoothly : Choice :=
  .answered
    (fun o => match o with
      | .escrowService _ _ _ => .answered true "tx-1"
      | _ => .normal)
    ⟨"order-1", .cancelled, none⟩

def sampleContext : PurchaseContext := ⟨"order-1", some "escrow-1"⟩

def sampleWorld : World := ⟨Settlement.sampleWorld, [], [], []⟩

def rolledBack (completedStepNames : List String) : Except String CompensationResult × World :=
  (runCompensation "order-1" "boom" defaultPurchaseCompensationSteps completedStepNames sampleContext).alone
    (fun o w => perform Settlement.sampleSettings o smoothly w) sampleWorld

theorem ends_rolledBack (completedStepNames : List String) : Ends (does Settlement.sampleSettings)
      (runCompensation "order-1" "boom" defaultPurchaseCompensationSteps completedStepNames sampleContext)
      sampleWorld (rolledBack completedStepNames).1 (rolledBack completedStepNames).2 :=
  Ends.of_alone (fun _ _ => ⟨smoothly, rfl⟩) _ sampleWorld

theorem buyer_never_made_whole_at_sample : statusOf sampleWorld.payments "order-1" = some .funded ∧
      ¬MadeWhole "order-1" (rolledBack purchaseSteps).1 (rolledBack purchaseSteps).2 := by
  have hfunded : Funded Settlement.sampleSettings sampleContext sampleWorld :=
    ⟨⟨"7", rfl, by decide⟩, "escrow-1", rfl, by decide⟩
  exact ⟨rfl, buyer_never_made_whole (by decide) (by decide) hfunded (ends_rolledBack purchaseSteps)⟩

/-- Every operation succeeds. A purchase that came as far as its escrow pays the seller; one
that came to its end is refunded, and reported as stuck. -/
theorem seller_paid_or_stuck : statusOf sampleWorld.payments "order-1" = some .funded ∧
      statusOf (rolledBack ["fundEscrow"]).2.payments "order-1" = some .released ∧
      ¬MadeWhole "order-1" (rolledBack ["fundEscrow"]).1 (rolledBack ["fundEscrow"]).2 ∧
      statusOf (rolledBack purchaseSteps).2.payments "order-1" = some .refunded ∧
      (rolledBack purchaseSteps).1 = .ok
        { status := .partialFailure, compensatedSteps := ["settleEscrow", "confirmPurchase"]
          failedSteps := [⟨"fundEscrow", "Cannot release order order-1: escrow was already refunded"⟩]
          finalContext := sampleContext
          escrowStuck := true } ∧
      ¬MadeWhole "order-1" (rolledBack purchaseSteps).1 (rolledBack purchaseSteps).2 := by
  have hrel : statusOf (rolledBack ["fundEscrow"]).2.payments "order-1" = some .released := by decide
  have hstuck : (rolledBack purchaseSteps).1 = .ok
      { status := .partialFailure, compensatedSteps := ["settleEscrow", "confirmPurchase"]
        failedSteps := [⟨"fundEscrow", "Cannot release order order-1: escrow was already refunded"⟩]
        finalContext := sampleContext
        escrowStuck := true } := by rfl
  refine ⟨rfl, hrel, ?_, by decide, hstuck, ?_⟩
  · rintro ⟨result, -, -, -, hrefunded⟩
    simp [hrel] at hrefunded
  · rintro ⟨result, hres, hsucs, -⟩
    rw [hstuck] at hres
    cases hres
    cases hsucs

end Delego.Purchase
