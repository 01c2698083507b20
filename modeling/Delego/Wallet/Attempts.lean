import Delego.Wallet.Counted

/-! The attempts of a job, by their answers.

From the answers that a job gets it can be told how its attempt goes on: whether it asks for what has become of its
transaction, may send another, or sends no more (`Attempt.next`). An attempt ends with an error that is tried again only
as it is told here (`follows_executeTxJob_attempt`). -/
namespace Delego.Wallet
open Delego.Process

/-- How far an attempt has come. -/
inductive Stage where
  /-- A transaction may be sent. -/
  | free
  /-- The gateway timed out with this error, and the status is asked for so often yet. -/
  | reconciling (e : WalletError) (left : Nat)
  | polling (response : SendResponse)
  /-- No more is sent. -/
  | settled

namespace Stage

/-- The attempt ends with an error of this text, or with another one. -/
def dropped (message : String) (another : Bool) : Stage :=
  if (classifySubmissionFailure message none).retryable || another then .free else .settled

def timedOutMessage (e : WalletError) : String :=
  let text := e.message
  s!"Submission failed: RPC gateway timeout (504/503) and transaction not found on-chain: {text}"

def waiting (e : WalletError) : Nat → Stage
  | 0 => dropped (timedOutMessage e) false
  | left + 1 => .reconciling e (left + 1)

def sent : Except WalletError SendResponse → Stage
  | .error e => if isRpcGatewayTimeout e.status e.message then waiting e 6 else dropped e.message false
  | .ok response =>
    if response.status = .error then
      dropped s!"Submission failed: {response.text}" (mentionsBadSequence response.text)
    else .polling response

def told : Stage → Except WalletError TransactionStatus → Stage
  | .reconciling _ _, .ok (.success _) => .settled
  | .reconciling e _, .ok (.failed _) => dropped (timedOutMessage e) false
  | .reconciling e left, _ => waiting e (left - 1)
  | .polling response, .error e =>
    if isRpcGatewayTimeout e.status e.message then .polling response else dropped e.message false
  | .polling _, .ok (.success _) => .settled
  | .polling _, .ok (.failed resultXdr) =>
    dropped s!"Transaction failed: {resultXdr}" (mentionsBadSequence resultXdr)
  | stage, _ => stage

def lookedUp : Stage → Except WalletError Unit → Stage
  | .polling response, .error _ => dropped s!"Transaction timeout or status untracked: {response.status.text}" false
  | _, _ => .settled

end Stage

/-- The job that an attempt is of, and its stage. -/
structure Attempt where
  job : Option Nat := none
  stage : Stage := .free

namespace Attempt

def next (φ : Attempt) : (o : queueSignature.Op) → queueSignature.Result o → Attempt
  | .inr .addJob, .ok job => ⟨some job, .free⟩
  | .inr (.sendTransaction _), r => { φ with stage := .sent r }
  | .inr (.getTransaction _), r => { φ with stage := φ.stage.told r }
  | .inr (.lookupTransaction _), r => { φ with stage := φ.stage.lookedUp r }
  | _, _ => φ

def Allows (φ : Attempt) : queueSignature.Op → Prop
  | .inr .addJob => φ.job = none
  | .inr (.sendTransaction envelope) => φ = ⟨some envelope.job, .free⟩
  | _ => True

end Attempt

def attempting : Protocol queueSignature Attempt where
  Allowed := Attempt.Allows
  Moves := fun φ o r φ' => (isLocal o = true → ∃ a, r = .ok a) ∧ φ' = φ.next o r

section
variable {φ : Attempt} {request : TransactionRequest} {α β : Type}

theorem follows_attempting {o : QueueOp} {Q : Except WalletError o.Reply → Attempt → Prop} (ha : φ.Allows (.inr o))
    (h : ∀ r, (o.local = true → ∃ a, r = .ok a) → Q r (φ.next (.inr o) r)) : Follows attempting φ (queue o) Q := by
  refine follows_perform ha ?_
  rintro r _ ⟨hlocal, rfl⟩
  exact h r hlocal

/-! ### Operations that tell nothing -/

def Beside : queueSignature.Op → Prop
  | .inr .addJob => False
  | .inr (.sendTransaction _) => False
  | .inr (.getTransaction _) => False
  | .inr (.lookupTransaction _) => False
  | _ => True

theorem follows_beside {p : QueueM α} (h : p.Only Beside) : Follows attempting φ p fun _ φ' => φ' = φ := by
  refine follows_of_only h ?_ ?_
  · intro o ho
    cases o with
    | inl o => trivial
    | inr o =>
      cases o with
      | addJob | sendTransaction | getTransaction | lookupTransaction => exact absurd ho id
      | _ => trivial
  · rintro o r _ ho ⟨-, rfl⟩
    cases o with
    | inl o => rfl
    | inr o =>
      cases o with
      | addJob | sendTransaction | getTransaction | lookupTransaction => exact absurd ho id
      | _ => rfl

variable {Q : Except WalletError β → Attempt → Prop}

theorem follows_beside_bind {p : QueueM α} {f : α → QueueM β}
    (h : p.Only Beside) (herror : ∀ e, Q (.error e) φ) (hok : ∀ a, Follows attempting φ (f a) Q) :
    Follows attempting φ (p >>= f) Q := by
  refine follows_bind (follows_mono (follows_beside h) ?_)
  rintro r _ rfl
  cases r with
  | ok a => exact hok a
  | error e => exact herror e

theorem only_numbers (program : SequenceM α) : (numbers program).Only Beside := by
  induction program with
  | ret a => trivial
  | fail e => trivial
  | call o next ih => exact ⟨trivial, ih⟩

variable {f : Unit → QueueM β}

/-- A pause does not fail. -/
theorem follows_sleep_bind {ms : Nat}
    (hok : Follows attempting φ (f ()) Q) : Follows attempting φ (numbers (seq (.sleep ms)) >>= f) Q := by
  refine follows_bind ⟨trivial, ?_⟩
  rintro r _ ⟨hlocal, rfl⟩
  obtain ⟨a, rfl⟩ := hlocal rfl
  exact hok

theorem follows_audit_bind {status : AuditStatus} {txHash : Option String}
    (hok : Follows attempting φ (f ()) Q) :
    Follows attempting φ (audit request status txHash >>= f) Q := by
  unfold audit
  cases present request.walletId with
  | none => exact hok
  | some walletId =>
    refine follows_bind (follows_bind (follows_attempt (follows_attempting trivial fun r _ => ?_)))
    exact hok

theorem follows_passUnrecorded_bind
    (hok : Follows attempting φ (f ()) Q) : Follows attempting φ (passUnrecorded request >>= f) Q := by
  unfold passUnrecorded
  cases request.spend with
  | none => exact hok
  | some s =>
    refine follows_bind (follows_attempting trivial fun r hlocal => ?_)
    obtain ⟨a, rfl⟩ := hlocal rfl
    exact hok

theorem follows_recordConfirmed_bind
    (hok : Follows attempting φ (f ()) Q) : Follows attempting φ (recordConfirmed request >>= f) Q := by
  unfold recordConfirmed
  cases request.spend with
  | none => exact hok
  | some s =>
    refine follows_bind (follows_bind (follows_attempt (follows_attempting trivial fun r _ => ?_)))
    exact hok

end

/-! ### One attempt -/

section
variable {φ : Attempt} {request : TransactionRequest} {job : Nat}

/-- An attempt that has failed may be followed by another, or its error is not tried again. -/
def Tried (job : Nat) : Except WalletError TransactionResult → Attempt → Prop
  | .ok _, _ => True
  | .error e, φ => φ.job = some job ∧
    (φ.stage = .free ∨ φ.stage = .settled ∧ (classifySubmissionFailure e.message none).retryable = false)

theorem tried_dropped {message : String} : Tried job (.error { message := message }) ⟨some job, .dropped message false⟩ := by
  refine ⟨rfl, ?_⟩
  unfold Stage.dropped
  cases hretry : (classifySubmissionFailure message none).retryable with
  | true => exact .inl rfl
  | false => exact .inr ⟨rfl, rfl⟩

theorem follows_dropped {next : NextSequence} {message text : String} :
    Follows attempting ⟨some job, .dropped message (mentionsBadSequence text)⟩ (do
      resetOnBadSequence next text
      .fail { message := message }) (Tried job) := by
  unfold resetOnBadSequence
  cases hbad : mentionsBadSequence text with
  | false => exact tried_dropped
  | true =>
    have hfree : Stage.dropped message true = .free := by simp [Stage.dropped]
    rw [hfree]
    exact follows_beside_bind (only_numbers _) (fun e => ⟨rfl, .inl rfl⟩) fun _ => ⟨rfl, .inl rfl⟩

theorem follows_reconcileTimedOutSubmission_attempt (e : WalletError) (txHash : String) (attempts : Nat) :
    Follows attempting ⟨some job, .waiting e attempts⟩ (reconcileTimedOutSubmission txHash attempts) fun r φ' =>
      (∃ result, r = .ok (some result)) ∨ r = .ok none ∧ φ' = ⟨some job, .dropped (Stage.timedOutMessage e) false⟩ := by
  induction attempts with
  | zero => exact .inr ⟨rfl, rfl⟩
  | succ attempts ih =>
    refine follows_bind (follows_attempt (follows_attempting trivial fun status _ => ?_))
    rcases status with e' | ledger | resultXdr | _
    · exact follows_sleep_bind ih
    · exact .inl ⟨_, rfl⟩
    · exact .inr ⟨rfl, rfl⟩
    · exact follows_sleep_bind ih

theorem follows_reconcile_attempt (e : WalletError) (txHash : String) :
    Follows attempting ⟨some job, .waiting e 6⟩ (reconcile request txHash e) (Tried job) := by
  refine follows_bind (follows_mono (follows_reconcileTimedOutSubmission_attempt e txHash 6) ?_)
  rintro _ φ' (⟨result, rfl⟩ | ⟨rfl, rfl⟩)
  · exact follows_passUnrecorded_bind (follows_audit_bind trivial)
  · exact tried_dropped

theorem follows_pollTransaction_attempt (next : NextSequence) (response : SendResponse) (retries : Nat) :
    Follows attempting ⟨some job, .polling response⟩ (pollTransaction request next response retries) (Tried job) := by
  induction retries with
  | zero =>
    refine follows_bind (follows_bind (follows_attempt (follows_attempting trivial
      (forall_except (fun _ _ => ?_) fun _ _ => ?_))))
    · exact tried_dropped
    · exact follows_passUnrecorded_bind (follows_audit_bind trivial)
  | succ retries ih =>
    refine follows_sleep_bind (follows_bind (follows_attempt (follows_attempting trivial fun status _ => ?_)))
    rcases status with e | ledger | resultXdr | _
    · by_cases hgateway : isRpcGatewayTimeout e.status e.message = true
      · simp only [Then, Attempt.next, Stage.told, hgateway, if_true]
        exact ih
      · simp only [Then, Attempt.next, Stage.told, hgateway]
        exact tried_dropped
    · exact follows_recordConfirmed_bind (follows_audit_bind trivial)
    · exact follows_dropped
    · exact ih

theorem follows_sendAndConfirm_attempt (next : NextSequence) (envelope : Envelope) (txHash : String) :
    Follows attempting ⟨some envelope.job, .free⟩ (sendAndConfirm request next envelope txHash) (Tried envelope.job) := by
  refine follows_bind (follows_attempt (follows_attempting rfl fun sent _ => ?_))
  cases sent with
  | error e =>
    by_cases hgateway : isRpcGatewayTimeout e.status e.message = true
    · simp only [Then, Attempt.next, Stage.sent, hgateway, if_true]
      exact follows_reconcile_attempt e txHash
    · simp only [Then, Attempt.next, Stage.sent, hgateway]
      exact tried_dropped
  | ok response =>
    by_cases hstatus : response.status = .error
    · simp only [Then, Attempt.next, Stage.sent, hstatus, if_true]
      exact follows_dropped
    · simp only [Then, Attempt.next, Stage.sent, hstatus, if_false]
      exact follows_pollTransaction_attempt next response 12

theorem follows_buildAndSend_attempt (attempt : Nat) (next : NextSequence) :
    Follows attempting ⟨some job, .free⟩ (buildAndSend job request attempt next) (Tried job) := by
  have hfree : ∀ e, Tried job (.error e) ⟨some job, .free⟩ := fun e => ⟨rfl, .inl rfl⟩
  refine follows_beside_bind (only_perform trivial) hfree fun _ => ?_
  refine follows_beside_bind (only_perform trivial) hfree fun _ => ?_
  refine follows_beside_bind (only_perform trivial) hfree fun simulation => ?_
  cases simulation with
  | failure reasons => exact hfree _
  | success =>
    refine follows_beside_bind (only_perform trivial) hfree fun txHash => ?_
    exact follows_sendAndConfirm_attempt next ⟨job, attempt, request.sourceAddress, next.carried⟩ txHash

/-- What an attempt throws is tried again only if a transaction may be sent. -/
def Thrown (job : Nat) : Except WalletError TransactionResult → Attempt → Prop
  | .ok _, _ => True
  | .error e, φ => φ.job = some job ∧ (φ.stage = .free ∨ e.unrecoverable = true)

theorem follows_failSubmission_attempt {e : WalletError} (h : Tried job (.error e) φ) :
    Follows attempting φ (failSubmission request e) (Thrown job) := by
  obtain ⟨hjob, hstage⟩ := h
  unfold failSubmission
  cases hretry : (classifySubmissionFailure e.message none).retryable with
  | true =>
    have hfree : φ.stage = .free := by
      rcases hstage with hfree | ⟨-, hno⟩
      · exact hfree
      · cases hno.symm.trans hretry
    simp only [hretry, if_true]
    exact ⟨hjob, .inl hfree⟩
  | false =>
    have hunrec : (classifySubmissionFailure e.message none).thrown.unrecoverable = true := by
      simp [SubmissionFailure.thrown, hretry]
    simp only [hretry, Bool.false_eq_true, if_false]
    refine follows_audit_bind ?_
    exact ⟨hjob, .inr hunrec⟩

theorem follows_executeTxJob_attempt (attempt : Nat) :
    Follows attempting ⟨some job, .free⟩ (executeTxJob job request attempt) (Thrown job) := by
  have hfree : ∀ e, Thrown job (.error e) ⟨some job, .free⟩ := fun e => ⟨rfl, .inl rfl⟩
  refine follows_beside_bind (only_perform trivial) hfree fun _ => ?_
  refine follows_beside_bind (only_numbers _) hfree fun next => ?_
  refine follows_tryCatch (follows_mono (follows_buildAndSend_attempt attempt next) ?_)
  intro r φ' htried
  cases r with
  | ok result => trivial
  | error e => exact follows_failSubmission_attempt htried

theorem follows_runAttempts_attempt (left attempt : Nat) :
    Follows attempting ⟨some job, .free⟩ (runAttempts job request left attempt) fun _ _ => True := by
  induction left generalizing attempt with
  | zero => exact follows_mono (follows_executeTxJob_attempt attempt) fun _ _ _ => trivial
  | succ left ih =>
    refine follows_bind (follows_attempt (follows_mono (follows_executeTxJob_attempt attempt) ?_))
    intro r φ' hthrown
    cases r with
    | ok result => trivial
    | error e =>
      simp only [Then]
      split
      · trivial
      · rename_i hagain
        obtain ⟨hjob, hfree | hunrec⟩ := hthrown
        · obtain ⟨job', stage⟩ := φ'
          cases hjob
          cases hfree
          exact follows_sleep_bind (ih (attempt + 1))
        · exact absurd hunrec hagain

/-! ### A call -/

theorem follows_enqueue_attempt : Follows attempting {} (enqueue request) fun _ _ => True := by
  refine follows_bind (follows_attempting rfl (forall_except (fun _ _ => trivial) fun job _ => ?_))
  exact follows_runAttempts_attempt 4 1

theorem only_findFirst (filters : List LimitFilter) : (findFirst filters).Only Beside := by
  induction filters with
  | nil => trivial
  | cons filter rest ih =>
    refine only_bind (only_perform trivial) fun found => ?_
    cases found with
    | none => exact ih
    | some config => trivial

theorem only_checkSpendLimit {userId walletId : String} {delegationId : Option String} {amount : Int} :
    (checkSpendLimit userId walletId delegationId amount).Only Beside := by
  refine only_bind (only_findFirst _) fun found => ?_
  cases found with
  | none => trivial
  | some config =>
    simp only
    split
    · trivial
    · exact only_bind (only_perform trivial) fun _ => trivial

theorem only_identify : (identify request).Only Beside := by
  unfold identify
  simp only
  split
  · trivial
  · refine only_bind (only_attempt (only_perform trivial)) fun found => ?_
    rcases found with e | _ | wallet
    · trivial
    · trivial
    · trivial

theorem follows_checkAndEnqueue_attempt {userId walletId : String} :
    Follows attempting {} (checkAndEnqueue request userId walletId) fun _ _ => True := by
  refine follows_beside_bind (only_attempt only_checkSpendLimit) (fun _ => trivial) fun outcome => ?_
  cases outcome with
  | ok result =>
    simp only
    split
    · exact follows_enqueue_attempt
    · trivial
  | error e =>
    simp only
    split
    · trivial
    · exact follows_enqueue_attempt

theorem follows_addTransactionToQueue_attempt {cfg : Settings} :
    Follows attempting {} (addTransactionToQueue cfg request) fun _ _ => True := by
  unfold addTransactionToQueue
  simp only
  split
  · trivial
  · refine follows_beside_bind only_identify (fun _ => trivial) fun found => ?_
    rcases found with ⟨_ | userId, _ | walletId⟩
    · exact follows_enqueue_attempt
    · exact follows_enqueue_attempt
    · exact follows_enqueue_attempt
    · exact follows_checkAndEnqueue_attempt

theorem follows_body_attempt {cfg : Settings} (call : QueueCall) :
    Follows attempting {} (call.body cfg) fun _ _ => True := by
  cases call with
  | sequence call => exact follows_mono (follows_beside (only_numbers _)) fun _ _ _ => trivial
  | submit request =>
    refine follows_bind (follows_attempt (follows_mono follows_addTransactionToQueue_attempt ?_))
    intro r φ' _
    exact follows_attempting trivial fun _ _ => trivial

end

end Delego.Wallet
