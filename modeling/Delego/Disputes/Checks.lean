import Delego.Disputes.Service

/-! What a call checks before it writes a status.

A call writes a status on the strength of a check of the dispute that it read: `checked` is that check, by the status
that is written. -/
namespace Delego.Disputes
open Delego.Process Delego.Data Delego.Payments Option

def World.status (w : World) (id : String) : Option DisputeStatus := (w.dispute id).map Dispute.status

def writes : mediationSignature.Op → Option (String × DisputeStatus)
  | .inl (.updateDispute id update) => update.status.map fun status => (id, status)
  | .inr (.updateDispute id update) => update.status.map fun status => (id, status)
  | _ => none

def returned : (o : mediationSignature.Op) → mediationSignature.Result o → Option Dispute
  | .inl (.findDispute _), .ok found => found
  | .inl (.updateDispute _ _), .ok dispute => some dispute
  | .inr (.updateDispute _ _), .ok dispute => some dispute
  | .inr (.addEvidence _ _), .ok dispute => some dispute
  | _, _ => none

/-- The dispute that an operation asks the store for. -/
def asks : mediationSignature.Op → Option String
  | .inl (.findDispute id) => some id
  | .inl (.updateDispute id _) => some id
  | .inr (.updateDispute id _) => some id
  | .inr (.addEvidence id _) => some id
  | _ => none

def checked (read target : DisputeStatus) : Bool :=
  match target with
  | .open => false
  | .evidenceCollection => decide (read = .open)
  | .negotiation => decide (read ≠ .decided ∧ read ≠ .resolved) && (planAdvance read .negotiation).toBool
  | .merchantResponded => decide (read = .negotiation)
  | .decided => decide (read ≠ .resolved) && canTransition read .decided
  | .resolved => decide (read = .decided)

variable {target source : DisputeStatus}

theorem stage_of_canTransition (h : canTransition source target = true) :
    stageIndex source ≤ stageIndex target := by
  revert h
  cases source <;> cases target <;> decide

theorem stage_of_checked {read : DisputeStatus} (h : checked read target = true) : stageIndex read ≤ stageIndex target := by
  revert h
  cases read <;> cases target <;> decide

/-- A status that is past the one read, and from which the state machine does not lead to the
new one, is past that too. -/
theorem stage_of_stale {read stored : DisputeStatus} (h : checked read target = true)
    (hpast : stageIndex read ≤ stageIndex stored) (hne : read ≠ stored) (hno : canTransition stored target = false) :
    stageIndex target < stageIndex stored := by
  revert h hpast hne hno
  cases read <;> cases stored <;> cases target <;> decide

theorem stage_resolved {status : DisputeStatus} (h : stageIndex .resolved ≤ stageIndex status) : status = .resolved := by
  revert h
  cases status <;> decide

def mediating : Protocol mediationSignature (Option Dispute) where
  Allowed := fun read o => ∀ id target, writes o = some (id, target) →
    ∃ dispute, read = some dispute ∧ dispute.id = id ∧ checked dispute.status target = true
  Moves := fun read o r read' =>
    (∀ dispute, returned o r = some dispute → asks o = some dispute.id) ∧ read' = (returned o r).or read

/-! ### What the operations do to a dispute -/

section
variable {w : World} {o : mediationSignature.Op} {ch : Choice} {id : String} {dispute : Dispute}

theorem dispute_setDispute {before : Dispute} (hpre : w.dispute dispute.id = some before)
    {evidence : List (String × DisputeEvidenceEntry)} :
    ({ w.setDispute dispute with evidence := evidence } : World).dispute id =
      if id = dispute.id then some dispute else w.dispute id := by
  split
  · rename_i hid
    rw [hid]
    exact lookup_replace_self hpre
  · rename_i hid
    exact lookup_replace_ne hid

/-- A write to the store: the dispute that is asked for as it is set, if it is there and the
store can be reached, whether or not the answer arrives. -/
def Stores (ch : Choice) (w : World) (id : String) (set : Dispute → Dispute)
    (answer : Except PaymentError Dispute × World) : Prop :=
  (∃ dispute, w.dispute id = some dispute ∧ (∀ message, ch ≠ .fault message) ∧
    (answer.1 = .ok (set dispute) ∨ ∃ e, answer.1 = .error e) ∧
    answer.2.dispute id = some (set dispute) ∧ ∀ id', id' ≠ id → answer.2.dispute id' = w.dispute id') ∨
  (w.dispute id = none ∨ ∃ message, ch = .fault message) ∧ ∃ e, answer.1 = .error e ∧ answer.2 = w

theorem stores_storeAnswer {set : Dispute → Dispute} {evidence : List (String × DisputeEvidenceEntry)}
    (hset : ∀ dispute, (set dispute).id = dispute.id) :
    Stores ch w id set (reached ch w (storeAnswer w id set evidence)) := by
  have hstored : (∀ message, ch ≠ .fault message) → ∀ result,
      (∀ dispute, w.dispute id = some dispute → result = .ok (set dispute) ∨ ∃ e, result = .error e) →
      (w.dispute id = none → ∃ e, result = .error e) →
      Stores ch w id set (result, (storeAnswer w id set evidence).2) := by
    intro hreach result hok hnone
    unfold storeAnswer
    cases hfound : w.dispute id with
    | none =>
      obtain ⟨e, herror⟩ := hnone hfound
      exact .inr ⟨.inl hfound, e, herror, rfl⟩
    | some dispute =>
      have hkey : (set dispute).id = id := (hset dispute).trans (lookup_key hfound)
      have hpre : w.dispute (set dispute).id = some dispute := hkey ▸ hfound
      refine .inl ⟨dispute, hfound, hreach, hok dispute hfound, ?_, ?_⟩
      · rw [dispute_setDispute hpre, if_pos hkey.symm]
      · intro id' hid'
        rw [dispute_setDispute hpre, if_neg (hkey ▸ hid')]
  unfold reached
  split
  · exact .inr ⟨.inr ⟨_, rfl⟩, _, rfl, rfl⟩
  · exact hstored (by simp) _ (fun _ _ => .inr ⟨_, rfl⟩) fun _ => ⟨_, rfl⟩
  · rename_i hreach _
    refine hstored hreach _ ?_ ?_
    · intro dispute hfound
      exact .inl (by simp [hfound])
    · intro hfound
      simp [hfound]

theorem stores_payment {update : DisputeUpdate} :
    Stores ch w id update.apply (perform (.inl (.updateDispute id update)) ch w) := by
  have hans : perform (.inl (.updateDispute id update)) ch w =
      reached ch w (storeAnswer w id update.apply w.evidence) := by
    cases hfound : lookup Dispute.id w.payments.disputes id with
    | none => cases ch <;> simp [perform, Payments.perform, fallible, reached, storeAnswer, World.dispute, hfound]
    | some dispute =>
      cases ch <;>
        simp [perform, Payments.perform, fallible, reached, storeAnswer, World.dispute, World.setDispute, hfound]
  have hset : ∀ dispute : Dispute, (update.apply dispute).id = dispute.id := fun _ => rfl
  rw [hans]
  exact stores_storeAnswer hset

theorem stores_mediation {update : MediationUpdate} :
    Stores ch w id update.apply (perform (.inr (.updateDispute id update)) ch w) := by
  have hset : ∀ dispute : Dispute, (update.apply dispute).id = dispute.id := fun _ => rfl
  exact stores_storeAnswer hset

variable {entry : DisputeEvidenceEntry}

theorem stores_evidence :
    Stores ch w id (fun dispute => dispute) (perform (.inr (.addEvidence id entry)) ch w) :=
  stores_storeAnswer fun _ => rfl

def storing : mediationSignature.Op → Bool
  | .inl (.updateDispute _ _) => true
  | .inr (.updateDispute _ _) => true
  | .inr (.addEvidence _ _) => true
  | _ => false

theorem dispute_kept (h : storing o = false) : (perform o ch w).2.dispute id = w.dispute id := by
  have hupdate : ∀ (recordId : String) (set : PaymentRecord → PaymentRecord),
      (updateReturning recordId set w.payments).2.disputes = w.payments.disputes := by
    intro recordId set
    unfold updateReturning
    split
    · rfl
    · rfl
  have hfallible : ∀ {α : Type} (answer : Except PaymentError α × Payments.World),
      answer.2.disputes = w.payments.disputes → (fallible ch w.payments answer).2.disputes = w.payments.disputes := by
    intro α answer hans
    unfold fallible
    split
    · rfl
    · exact hans
    · exact hans
  have hdisputes : (perform o ch w).2.payments.disputes = w.payments.disputes := by
    cases o with
    | inr o =>
      cases o with
      | updateDispute id update => cases h
      | addEvidence id entry => cases h
      | recordAuditEvent entry => rfl
      | notifyDisputeParties orderId event => rfl
    | inl o =>
      cases o with
      | updateDispute id update => cases h
      | findPaymentRecordByEscrowId escrowId => exact hfallible _ rfl
      | updatePaymentRecord recordId update => exact hfallible _ (hupdate recordId _)
      | incrementPaymentRecordAmounts recordId delta => exact hfallible _ (hupdate recordId _)
      | submitContractInvocation request => cases ch <;> rfl
      | sleep ms => rfl
      | publishPaymentStatusEvent event => exact hfallible _ rfl
      | findDispute id => exact hfallible _ rfl
      | recordAuditEvent entry => rfl
      | notifyDisputeParties orderId event => rfl
      | recordDisputeOutcome buyer seller buyerAmount sellerAmount => exact hfallible _ rfl
  exact congrArg (fun disputes => lookup Dispute.id disputes id) hdisputes

section
variable {set : Dispute → Dispute} {answer : Except PaymentError Dispute × World}

theorem Stores.status (target : Option DisputeStatus) (h : Stores ch w id set answer)
    (hset : ∀ dispute, (set dispute).status = target.getD dispute.status) (id' : String) :
    answer.2.status id' = w.status id' ∨
      ∃ status, target.map (fun status => (id, status)) = some (id', status) ∧ w.dispute id' ≠ none ∧
        (∀ message, ch ≠ .fault message) ∧ answer.2.status id' = some status := by
  obtain ⟨dispute, hfound, hreach, -, hset', hothers⟩ | ⟨-, e, -, heq⟩ := h
  · by_cases hid : id' = id
    · subst hid
      cases target with
      | none =>
        refine .inl ?_
        simp [World.status, hset', hfound, hset]
      | some status =>
        refine .inr ⟨status, rfl, by simp [hfound], hreach, ?_⟩
        simp [World.status, hset', hset]
    · exact .inl (congrArg (Option.map Dispute.status) (hothers id' hid))
  · rw [heq]
    exact .inl rfl

theorem Stores.written {target : DisputeStatus} (h : Stores ch w id set answer)
    (hset : ∀ dispute, (set dispute).status = target) (hfound : w.dispute id ≠ none)
    (hreach : ∀ message, ch ≠ .fault message) : answer.2.status id = some target := by
  obtain ⟨dispute, -, -, -, hstore, -⟩ | ⟨hnone | ⟨message, hfault⟩, -⟩ := h
  · rw [World.status, hstore, map_some, hset]
  · exact absurd hnone hfound
  · exact absurd hfault (hreach message)

theorem Stores.returns (h : Stores ch w id set answer)
    (hset : ∀ dispute, (set dispute).id = dispute.id) (hret : answer.1.toOption = some dispute) :
    some id = some dispute.id ∧ answer.2.dispute dispute.id = some dispute := by
  obtain ⟨before, hfound, -, hans | ⟨e, herror⟩, hstore, -⟩ | ⟨-, e, herror, -⟩ := h
  · rw [hans] at hret
    cases hret
    have hkey : id = (set before).id := (lookup_key hfound).symm.trans (hset before).symm
    exact ⟨congrArg some hkey, hkey ▸ hstore⟩
  · rw [herror] at hret
    cases hret
  · rw [herror] at hret
    cases hret

end

theorem status_perform (o : mediationSignature.Op) (ch : Choice) (w : World) (id : String) :
    (perform o ch w).2.status id = w.status id ∨
      ∃ target, writes o = some (id, target) ∧ w.dispute id ≠ none ∧ (∀ message, ch ≠ .fault message) ∧
        (perform o ch w).2.status id = some target := by
  cases hstoring : storing o with
  | false => exact .inl (congrArg (Option.map Dispute.status) (dispute_kept hstoring))
  | true =>
    cases o with
    | inl o =>
      cases o with
      | updateDispute id' update => exact stores_payment.status update.status (fun _ => rfl) id
      | _ => cases hstoring
    | inr o =>
      cases o with
      | updateDispute id' update => exact stores_mediation.status update.status (fun _ => rfl) id
      | addEvidence id' entry =>
        refine .inl ?_
        obtain heq | ⟨status, hnone, -⟩ := stores_evidence.status none (fun _ => rfl) id
        · exact heq
        · cases hnone
      | recordAuditEvent entry => cases hstoring
      | notifyDisputeParties orderId event => cases hstoring

theorem status_written {target : DisputeStatus} (hwr : writes o = some (id, target)) (hfound : w.dispute id ≠ none)
    (hreach : ∀ message, ch ≠ .fault message) : (perform o ch w).2.status id = some target := by
  cases o with
  | inl o =>
    cases o with
    | updateDispute id' update =>
      obtain ⟨status, hstat, hpair⟩ := map_eq_some_iff.mp hwr
      cases hpair
      exact stores_payment.written (fun dispute => by simp [DisputeUpdate.apply, hstat]) hfound hreach
    | _ => cases hwr
  | inr o =>
    cases o with
    | updateDispute id' update =>
      obtain ⟨status, hstat, hpair⟩ := map_eq_some_iff.mp hwr
      cases hpair
      exact stores_mediation.written (fun dispute => by simp [MediationUpdate.apply, hstat]) hfound hreach
    | addEvidence id' entry => cases hwr
    | recordAuditEvent entry => cases hwr
    | notifyDisputeParties orderId event => cases hwr

theorem returned_payment {update : DisputeUpdate} (answer : Except PaymentError Dispute) :
    returned (.inl (.updateDispute id update)) answer = answer.toOption := by
  cases answer with
  | ok dispute => rfl
  | error e => rfl

theorem returned_mediation {update : MediationUpdate} (answer : Except PaymentError Dispute) :
    returned (.inr (.updateDispute id update)) answer = answer.toOption := by
  cases answer with
  | ok dispute => rfl
  | error e => rfl

theorem returned_evidence (answer : Except PaymentError Dispute) :
    returned (.inr (.addEvidence id entry)) answer = answer.toOption := by
  cases answer with
  | ok dispute => rfl
  | error e => rfl

theorem returned_perform (h : returned o (perform o ch w).1 = some dispute) :
    asks o = some dispute.id ∧ (perform o ch w).2.dispute dispute.id = some dispute := by
  cases o with
  | inl o =>
    cases o with
    | findDispute id =>
      have hfound : lookup Dispute.id w.payments.disputes id = some dispute := by
        cases ch with
        | fault message => cases h
        | unanswered message => cases h
        | _ => exact h
      have hkey : dispute.id = id := lookup_key hfound
      refine ⟨congrArg some hkey.symm, ?_⟩
      rw [dispute_kept rfl, hkey]
      exact hfound
    | updateDispute id update => exact stores_payment.returns (fun _ => rfl) ((returned_payment _).symm.trans h)
    | _ => cases h
  | inr o =>
    cases o with
    | updateDispute id update => exact stores_mediation.returns (fun _ => rfl) ((returned_mediation _).symm.trans h)
    | addEvidence id entry => exact stores_evidence.returns (fun _ => rfl) ((returned_evidence _).symm.trans h)
    | recordAuditEvent entry => cases h
    | notifyDisputeParties orderId event => cases h

end

/-- An operation that is none of the dispute store. -/
def Aside : Payments.Op → Prop
  | .findDispute _ => False
  | .updateDispute _ _ => False
  | _ => True

section
variable {conv : Conversions} {params : EscrowParams} {escrowId : String}

theorem only_retry {α : Type} {fn : PaymentM α} (h : fn.Only Aside) (shouldRetry : PaymentError → Bool)
    (baseDelayMs attempt retries : Nat) :
    (retryWithBackoff fn shouldRetry baseDelayMs attempt retries).Only Aside := by
  induction retries generalizing attempt with
  | zero => exact h
  | succ retries ih =>
    refine only_bind (only_attempt h) ?_
    intro outcome
    cases outcome with
    | ok value => trivial
    | error err =>
      show Program.Only (S := paymentSignature) Aside (if shouldRetry err then _ else _)
      split
      · exact only_bind (only_perform trivial) fun _ => ih (attempt + 1)
      · trivial

theorem only_invocation {request : TransactionRequest} : (submitContractInvocationWithRetry request).Only Aside := by
  apply only_retry
  exact only_perform trivial

theorem only_markFailed {id failureReason reason : String} {txHash : Option String} :
    (markFailed id txHash failureReason reason).Only Aside :=
  only_bind (only_perform trivial) fun _ => only_perform trivial

theorem only_findRecord : (findRecord escrowId).Only Aside := by
  refine only_bind (only_perform trivial) ?_
  intro found
  cases found with
  | none => trivial
  | some record => trivial

theorem only_getRemainingBalance : (getRemainingBalance escrowId).Only Aside := only_bind only_findRecord fun _ => trivial

theorem only_submit {payout : PartialPayout} {amountStroops : String} {record : PaymentRecord} {requested : Int} :
    (payout.submit conv params amountStroops record requested).Only Aside := by
  have hparse : (parseEscrowId conv params.escrowId).Only Aside := by
    unfold parseEscrowId
    split
    · trivial
    · trivial
  refine only_bind hparse fun escrowId => ?_
  refine only_bind only_invocation fun tx => ?_
  show Program.Only (S := paymentSignature) Aside (if !tx.success then _ else _)
  split
  · exact only_bind only_markFailed fun _ => trivial
  · exact only_bind (only_perform trivial) fun _ => only_bind (only_perform trivial) fun _ => trivial

theorem only_partialPayout {payout : PartialPayout} {amountStroops : String} :
    (partialPayout payout conv params amountStroops).Only Aside := by
  refine only_bind only_findRecord fun record => ?_
  cases conv.bigInt amountStroops with
  | none => trivial
  | some requested =>
    show Program.Only (S := paymentSignature) Aside (if _ then _ else _)
    split
    · trivial
    · refine only_bind (only_perform trivial) fun _ => only_bind (only_tryCatch only_submit ?_) fun _ => trivial
      intro err
      cases err with
      | insufficientBalance escrowId remaining requested => trivial
      | other message => exact only_bind only_markFailed fun _ => trivial

theorem only_transferShares {resolution : DisputeResolution} {contractId : String}
    {buyerAmount sellerAmount : Int} :
    (transferShares conv dispute resolution contractId buyerAmount sellerAmount).Only Aside := by
  have hrefund : (refundShare conv dispute resolution contractId buyerAmount).Only Aside := by
    unfold refundShare
    split
    · refine only_bind (only_bind only_partialPayout fun _ => trivial) fun refund => ?_
      show Program.Only (S := paymentSignature) Aside (if refund.status ≠ .paid then _ else _)
      split
      · trivial
      · trivial
    · trivial
  have hrels : (releaseShare conv dispute resolution contractId sellerAmount).Only Aside := by
    unfold releaseShare
    split
    · refine only_bind (only_bind only_partialPayout fun _ => trivial) fun release => ?_
      show Program.Only (S := paymentSignature) Aside (if release.status ≠ .paid then _ else _)
      split
      · trivial
      · trivial
    · trivial
  refine only_bind (only_attempt hrefund) fun refunded => ?_
  cases refunded with
  | error err => trivial
  | ok buyerTx =>
    refine only_bind (only_attempt hrels) fun released => ?_
    cases released with
    | error err => trivial
    | ok sellerTx => trivial

end

/-! ### The calls check what they write -/

section
variable {read : Option Dispute}

theorem follows_store {o : MediationOp} {Q : Except PaymentError o.Reply → Option Dispute → Prop}
    (ha : mediating.Allowed read (.inr o))
    (hm : ∀ r : mediationSignature.Result (.inr o),
      (∀ dispute, returned (.inr o) r = some dispute → asks (.inr o) = some dispute.id) →
      Q r ((returned (.inr o) r).or read)) : Follows mediating read (store o) Q := by
  apply follows_perform ha
  rintro r _ ⟨hasked, rfl⟩
  exact hm r hasked

variable {α : Type}
  {p : PaymentM α}

theorem follows_aside (h : p.Only Aside) :
    Follows mediating.restrict read p fun _ read' => read' = read := by
  refine follows_of_only h ?_ ?_
  · intro o ho id target hwr
    cases o with
    | updateDispute id update => exact ho.elim
    | _ => cases hwr
  · rintro o r _ ho ⟨-, rfl⟩
    cases o with
    | findDispute id => exact ho.elim
    | updateDispute id update => exact ho.elim
    | _ => rfl

theorem allowed_aside {o : mediationSignature.Op} (h : writes o = none) : mediating.Allowed read o := by
  intro id target hwr
  cases h.symm.trans hwr

variable {target : DisputeStatus}

theorem allowed_write {o : mediationSignature.Op} {id : String}
    (hwr : writes o = some (id, target)) (hid : dispute.id = id) (hchk : checked dispute.status target = true) :
    mediating.Allowed (some dispute) o := by
  intro id' target' hwr'
  cases hwr.symm.trans hwr'
  exact ⟨dispute, rfl, hid, hchk⟩

theorem follows_findById (disputeId : String) :
    Follows mediating read (findById disputeId) fun outcome read' =>
      ∀ dispute, outcome = .ok dispute → read' = some dispute ∧ dispute.id = disputeId := by
  apply follows_bind
  refine follows_lift (follows_perform (allowed_aside rfl) ?_)
  rintro r _ ⟨hasked, rfl⟩
  cases r with
  | error e => rintro dispute ⟨⟩
  | ok found =>
    cases found with
    | none => rintro dispute ⟨⟩
    | some dispute =>
      rintro _ ⟨⟩
      exact ⟨rfl, (some.inj (hasked dispute rfl)).symm⟩

variable {β : Type}

theorem follows_rest {f : α → MediationM β} (h : p.Only Aside)
    (hf : ∀ a, Follows mediating read (f a) fun _ _ => True) :
    Follows mediating read (payment p >>= f) fun _ _ => True := by
  refine follows_bind (follows_mono (follows_lift (follows_aside h)) ?_)
  rintro outcome _ rfl
  cases outcome with
  | ok a => exact hf a
  | error e => trivial

theorem follows_event {o : MediationOp} {f : o.Reply → MediationM α} (hwr : writes (.inr o) = none)
    (hret : ∀ r, returned (.inr o) r = none) (hf : ∀ a, Follows mediating read (f a) fun _ _ => True) :
    Follows mediating read (store o >>= f) fun _ _ => True := by
  apply follows_bind
  refine follows_store (allowed_aside hwr) ?_
  intro r _
  rw [hret r]
  cases r with
  | ok a => exact hf a
  | error e => trivial

theorem follows_safeGetBalance {escrowId : String} :
    Follows mediating read (safeGetBalance escrowId) fun _ read' => read' = read := by
  refine follows_bind (follows_attempt (follows_mono (follows_lift (follows_aside only_getRemainingBalance)) ?_))
  rintro outcome _ rfl
  rfl

theorem follows_check {result : Except PaymentError α} {f : α → MediationM β}
    {Q : Except PaymentError β → Option Dispute → Prop} (herror : ∀ e, Q (.error e) read)
    (hf : ∀ a, result = .ok a → Follows mediating read (f a) Q) : Follows mediating read (check result >>= f) Q := by
  cases result with
  | ok a => exact hf a rfl
  | error e => exact herror e

theorem follows_notified {escrowId : String} {event : MediationEvent} {updated : Dispute} : Follows mediating read (do
      let balance ← safeGetBalance escrowId
      notifyIfKnown balance event
      return updated) fun _ _ => True := by
  refine follows_bind (follows_mono follows_safeGetBalance (forall_except (fun _ _ rfl => trivial) ?_))
  rintro balance _ rfl
  cases balance with
  | none => trivial
  | some balance => exact follows_event rfl (fun _ => rfl) fun _ => trivial

variable {disputeId : String}

theorem follows_advanceFrom {updated : Dispute} (hid : updated.id = disputeId)
    (hchk : checked source target = true) :
    Follows mediating (some updated) (advanceFrom source target updated disputeId) fun _ _ => True := by
  unfold advanceFrom
  split
  · rename_i hstat
    refine follows_check (fun _ => trivial) fun _ _ => ?_
    refine follows_store (allowed_write rfl hid (hstat ▸ hchk)) ?_
    intro r _
    trivial
  · trivial

theorem follows_found {f : Dispute → MediationM Dispute}
    (hf : ∀ dispute, dispute.id = disputeId → Follows mediating (some dispute) (f dispute) fun _ _ => True) :
    Follows mediating read (findById disputeId >>= f) fun _ _ => True := by
  refine follows_bind (follows_mono (follows_findById disputeId)
    (forall_except (fun _ _ _ => trivial) fun dispute _ hfound => ?_))
  obtain ⟨rfl, hid⟩ := hfound dispute rfl
  exact hf dispute hid

theorem follows_submission {f : Dispute → MediationM Dispute}
    (hchk : checked source target = true) (hf : ∀ read dispute, Follows mediating read (f dispute) fun _ _ => True) :
    Follows mediating read (do
      let updated ← store (.addEvidence disputeId entry)
      let updated ← advanceFrom source target updated disputeId
      f updated) fun _ _ => True := by
  refine follows_bind (follows_store (allowed_aside rfl) (forall_except (fun _ _ => trivial) fun updated hasked => ?_))
  have hid : updated.id = disputeId := (some.inj (hasked updated rfl)).symm
  exact follows_bind (follows_mono (follows_advanceFrom hid hchk)
    (forall_except (fun _ _ _ => trivial) fun dispute read' _ => hf read' dispute))

theorem follows_submitEvidence {input : DisputeEvidenceInput} {now : String} :
    Follows mediating none (submitEvidence disputeId input now) fun _ _ => True := by
  refine follows_found fun dispute _ => ?_
  show Follows mediating _ (if _ then _ else _) _
  split
  · trivial
  · refine follows_submission rfl fun read updated => ?_
    exact follows_event rfl (fun _ => rfl) fun _ => follows_notified

theorem follows_assignMediator {mediator : String} {assignedBy : Option String} :
    Follows mediating none (assignMediator disputeId mediator assignedBy) fun _ _ => True := by
  refine follows_found fun dispute hid => ?_
  show Follows mediating _ (if _ then _ else _) _
  split
  · trivial
  · rename_i hstat
    refine follows_check (fun _ => trivial) fun steps hplan => ?_
    have hchk : checked dispute.status .negotiation = true := by
      simp only [not_or] at hstat
      simp [checked, hstat, hplan, Except.toBool]
    exact follows_bind (follows_store (allowed_write rfl hid hchk)
      (forall_except (fun _ _ => trivial) fun _ _ => follows_event rfl (fun _ => rfl) fun _ => follows_notified))

theorem follows_submitMerchantResponse {response : MerchantResponse} {now : String} :
    Follows mediating none (submitMerchantResponse disputeId response now) fun _ _ => True := by
  refine follows_found fun dispute _ => ?_
  show Follows mediating _ (if _ then _ else _) _
  split
  · trivial
  · refine follows_bind (follows_mono follows_safeGetBalance (forall_except (fun _ _ rfl => trivial) ?_))
    rintro found _ rfl
    cases found with
    | none => trivial
    | some balance =>
      show Follows mediating _ (if _ then _ else _) _
      split
      · trivial
      · refine follows_check (fun _ => trivial) fun _ _ => ?_
        refine follows_submission rfl fun read updated => ?_
        exact follows_event rfl (fun _ => rfl) fun _ => follows_event rfl (fun _ => rfl) fun _ => trivial

theorem follows_payment {f : α → PaymentM β} (h : p.Only Aside)
    (hf : ∀ a, Follows mediating.restrict read (f a) fun _ _ => True) :
    Follows mediating.restrict read (p >>= f) fun _ _ => True := by
  refine follows_bind (follows_mono (follows_aside h) ?_)
  rintro outcome _ rfl
  cases outcome with
  | ok a => exact hf a
  | error e => trivial

theorem follows_updated {id : String} {update : DisputeUpdate} {f : Dispute → PaymentM α}
    (ha : mediating.Allowed read (.inl (.updateDispute id update))) (hf : ∀ dispute, (f dispute).Only Aside) :
    Follows mediating.restrict read (Payments.op (.updateDispute id update) >>= f) fun _ _ => True := by
  apply follows_bind
  refine follows_perform ha ?_
  rintro r _ ⟨-, rfl⟩
  cases r with
  | error e => trivial
  | ok dispute => exact follows_mono (follows_aside (hf dispute)) fun _ _ _ => trivial

theorem follows_executeDecision {cfg : Settings} :
    Follows mediating.restrict read (executeDecision cfg disputeId) fun _ _ => True := by
  apply follows_bind
  refine follows_perform (allowed_aside rfl) ?_
  rintro r _ ⟨hasked, rfl⟩
  cases r with
  | error e => trivial
  | ok found =>
    cases found with
    | none => trivial
    | some dispute =>
      show Follows mediating.restrict (some dispute) (if _ then _ else _) _
      split
      · trivial
      · split
        · trivial
        · rename_i resolution hresolution
          have hdecided : dispute.status = .decided := by
            have hfilter := (filter_eq_some_iff.mp hresolution).2
            exact of_decide_eq_true hfilter
          have hcontr : (getEscrowContractId cfg).Only Aside := by
            unfold getEscrowContractId
            split
            · trivial
            · trivial
          have hparse : ∀ amount, (parseBigInt cfg.conv amount).Only Aside := by
            intro amount
            unfold parseBigInt
            split
            · trivial
            · trivial
          refine follows_payment only_getRemainingBalance fun balance => ?_
          refine follows_payment hcontr fun contractId => ?_
          refine follows_payment (hparse _) fun buyerAmount => ?_
          refine follows_payment (hparse _) fun sellerAmount => ?_
          refine follows_payment only_transferShares fun transfers => ?_
          cases transfers.error with
          | some err =>
            refine follows_updated (allowed_aside rfl) fun _ => ?_
            exact only_bind (only_perform trivial) fun _ => only_bind (only_perform trivial) fun _ => trivial
          | none =>
            refine follows_updated (allowed_write rfl rfl (by rw [hdecided]; rfl)) fun _ => ?_
            refine only_bind (only_perform trivial) fun _ => only_bind (only_perform trivial) fun _ => ?_
            exact only_bind (only_perform trivial) fun _ => trivial

theorem follows_submitMediationDecision {cfg : Settings} {decision : MediationDecision} {reasoning : String} :
    Follows mediating none (submitMediationDecision cfg decision reasoning) fun _ _ => True := by
  refine follows_found fun dispute hid => ?_
  show Follows mediating _ (if _ then _ else _) _
  split
  · trivial
  · rename_i hstat
    refine follows_check (fun _ => trivial) fun _ hassert => ?_
    have hchk : checked dispute.status .decided = true := by
      have hallow : canTransition dispute.status .decided = true := by
        unfold assertTransition at hassert
        split at hassert
        · assumption
        · cases hassert
      simp [checked, hstat, hallow]
    refine follows_rest only_getRemainingBalance fun balance => ?_
    refine follows_check (fun _ => trivial) fun _ _ => ?_
    refine follows_bind (follows_store (allowed_write rfl rfl hchk)
      (forall_except (fun _ _ => trivial) fun _ _ => ?_))
    refine follows_event rfl (fun _ => rfl) fun _ => follows_event rfl (fun _ => rfl) fun _ => ?_
    exact follows_lift follows_executeDecision

theorem follows_run (cfg : Settings) (call : Call) :
    Follows mediating none ((system cfg).body call) fun _ _ => True := by
  have hcall : Follows mediating none (call.run cfg) fun _ _ => True := by
    cases call with
    | submitEvidence disputeId input now => exact follows_submitEvidence
    | assignMediator disputeId mediator assignedBy => exact follows_assignMediator
    | submitMerchantResponse disputeId response now => exact follows_submitMerchantResponse
    | submitMediationDecision decision reasoning => exact follows_submitMediationDecision
    | executeDecision disputeId => exact follows_lift follows_executeDecision
  exact follows_bind (follows_mono hcall (forall_except (fun _ _ _ => trivial) fun _ _ _ => trivial))

end

end Delego.Disputes
