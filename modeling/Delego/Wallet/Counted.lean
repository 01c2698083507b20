import Delego.Process.Serial
import Delego.Wallet.Leases
import Delego.Wallet.Queue

/-! Spends that are counted.

A job can conclude in three ways that its transaction has succeeded: while it polls, after the gateway has timed out
when it sent, and by a look at the ledger when it has polled in vain. Only the first records the spend
(`uncounted_spend`). -/
namespace Delego.Wallet
open Delego.Process

/-- An operation and what came of it. -/
abbrev Performed := (o : queueSignature.Op) × queueSignature.Result o

abbrev Log := List Performed

def isLocal : queueSignature.Op → Bool
  | .inl o => o.local
  | .inr o => o.local

/-- Every operation may be answered in any way; what needs no other party does not throw. -/
def anyAnswer : Effect queueSignature Log := fun o log r log' => (isLocal o = true → ∃ a, r = .ok a) ∧ log' = ⟨o, r⟩ :: log

/-- The spends that were recorded, the latest first. -/
def recorded : Log → List (String × String × Int)
  | [] => []
  | ⟨.inr (.recordSpend userId walletId amount), _⟩ :: log => (userId, walletId, amount) :: recorded log
  | _ :: log => recorded log

/-- The last transaction was sent without an answer. -/
def unanswered : Log → Bool
  | [] => false
  | ⟨.inr (.sendTransaction _), .error _⟩ :: _ => true
  | ⟨.inr (.sendTransaction _), .ok _⟩ :: _ => false
  | _ :: log => unanswered log

/-- A transaction was found to have succeeded after it was sent without an answer, or by a look at the ledger. -/
def foundLater : Log → Bool
  | [] => false
  | ⟨.inr (.getTransaction _), .ok (.success _)⟩ :: log => unanswered log || foundLater log
  | ⟨.inr (.lookupTransaction _), .ok _⟩ :: _ => true
  | _ :: log => foundLater log

def Counted (spend : String × String × Int) (log : Log) : Except WalletError TransactionResult → Prop
  | .ok _ => recorded log = [spend]
  | .error _ => recorded log = []

/-- Nothing is recorded, and nothing was found later. -/
structure Clean (log : Log) : Prop where
  recorded : recorded log = []
  later : foundLater log = false

def Settled (spend : Option (String × String × Int)) (log : Log) : Prop :=
  (recorded log = spend.toList ∧ foundLater log = false) ∨ (recorded log = [] ∧ foundLater log = true)

def Concluded (spend : Option (String × String × Int)) : Except WalletError TransactionResult → Log → Prop
  | .ok _, log => Settled spend log
  | .error _, log => Clean log

def Records (spend : Option (String × String × Int)) (log : Log) : queueSignature.Op → Prop
  | .inr (.spends _ _) => False
  | .inr (.recordSpend userId walletId amount) => recorded log = [] ∧ spend = some (userId, walletId, amount)
  | _ => True

def counting (spend : Option (String × String × Int)) : Protocol queueSignature Log where
  Allowed := Records spend
  Moves := fun log o r log' => anyAnswer o log r log'

/-! ### What an attempt does -/

section
variable {log log' : Log} {request : TransactionRequest} {spend : Option (String × String × Int)}

theorem follows_queue {o : QueueOp} {Q : Except WalletError o.Reply → Log → Prop} (ha : Records spend log (.inr o))
    (h : ∀ r, (o.local = true → ∃ a, r = .ok a) → Q r (⟨.inr o, r⟩ :: log)) :
    Follows (counting spend) log (queue o) Q := by
  refine follows_perform ha ?_
  rintro r _ ⟨hlocal, rfl⟩
  exact h r hlocal

/-- The logs agree in what was recorded and found, and in the last answer. -/
structure Agree (log log' : Log) : Prop where
  recorded : recorded log' = recorded log
  later : foundLater log' = foundLater log
  unanswered : unanswered log' = unanswered log

theorem Agree.clean (h : Agree log log') (hclean : Clean log) : Clean log' :=
  ⟨h.recorded.trans hclean.recorded, h.later.trans hclean.later⟩

theorem follows_queue_bind {o : QueueOp} {β : Type} {f : o.Reply → QueueM β} {Q : Except WalletError β → Log → Prop}
    (ha : Records spend log (.inr o)) (hclean : Clean log) (hagree : ∀ r, Agree log (⟨.inr o, r⟩ :: log))
    (herror : ∀ e log', Clean log' → Q (.error e) log')
    (hok : ∀ reply log', Clean log' → Follows (counting spend) log' (f reply) Q) :
    Follows (counting spend) log (queue o >>= f) Q := by
  apply follows_bind
  refine follows_queue ha ?_
  intro r _
  have hclean' := (hagree r).clean hclean
  cases r with
  | ok reply => exact hok reply _ hclean'
  | error e => exact herror e _ hclean'

theorem follows_numbers {α : Type} (program : SequenceM α) :
    Follows (counting spend) log (numbers program) fun _ log' => Agree log log' := by
  refine follows_within (I := Agree log) (only_lift program) ⟨rfl, rfl, rfl⟩ ?_ ?_
  · rintro log' _ - ⟨o, rfl⟩
    trivial
  · rintro log' _ r _ hagree ⟨o, rfl⟩ ⟨-, rfl⟩
    exact ⟨hagree.recorded, hagree.later, hagree.unanswered⟩

theorem follows_numbers_bind {α β : Type} {program : SequenceM α} {f : α → QueueM β}
    {Q : Except WalletError β → Log → Prop} (herror : ∀ e log', Agree log log' → Q (.error e) log')
    (hok : ∀ a log', Agree log log' → Follows (counting spend) log' (f a) Q) :
    Follows (counting spend) log (numbers program >>= f) Q := by
  exact follows_bind (follows_mono (follows_numbers program)
    (forall_except (fun e log' hagree => herror e log' hagree) fun a log' hagree => hok a log' hagree))

theorem follows_audit (status : AuditStatus) (txHash : Option String) :
    Follows (counting spend) log (audit request status txHash) fun r log' => (∃ a, r = .ok a) ∧ Agree log log' := by
  unfold audit
  cases present request.walletId with
  | none => exact ⟨⟨(), rfl⟩, rfl, rfl, rfl⟩
  | some walletId =>
    apply follows_bind
    refine follows_attempt (follows_queue trivial ?_)
    intro r _
    exact ⟨⟨(), rfl⟩, rfl, rfl, rfl⟩

theorem follows_passUnrecorded :
    Follows (counting spend) log (passUnrecorded request) fun r log' => (∃ a, r = .ok a) ∧ Agree log log' := by
  unfold passUnrecorded
  cases request.spend with
  | none => exact ⟨⟨(), rfl⟩, rfl, rfl, rfl⟩
  | some s =>
    refine follows_queue trivial ?_
    intro r hlocal
    exact ⟨hlocal rfl, rfl, rfl, rfl⟩

theorem follows_unrecorded (hrecd : recorded log = []) (hlater : foundLater log = true) (txHash : Option String)
    (result : TransactionResult) : Follows (counting spend) log (do
      passUnrecorded request
      audit request .success txHash
      return result) (Concluded spend) := by
  apply follows_bind
  refine follows_mono follows_passUnrecorded ?_
  rintro _ log₁ ⟨⟨_, rfl⟩, h₁⟩
  apply follows_bind
  refine follows_mono (follows_audit _ _) ?_
  rintro _ log₂ ⟨⟨_, rfl⟩, h₂⟩
  right
  exact ⟨(h₂.recorded.trans h₁.recorded).trans hrecd, (h₂.later.trans h₁.later).trans hlater⟩

theorem follows_recordConfirmed (hclean : Clean log) :
    Follows (counting request.spend) log (recordConfirmed request) fun r log' =>
      (∃ a, r = .ok a) ∧ recorded log' = request.spend.toList ∧ foundLater log' = false := by
  unfold recordConfirmed
  cases hspend : request.spend with
  | none => exact ⟨⟨(), rfl⟩, hclean.recorded, hclean.later⟩
  | some s =>
    apply follows_bind
    refine follows_attempt (follows_queue ⟨hclean.recorded, rfl⟩ ?_)
    intro r _
    exact ⟨⟨(), rfl⟩, congrArg (List.cons s) hclean.recorded, hclean.later⟩

theorem follows_recorded (hclean : Clean log) (txHash : Option String) (result : TransactionResult) :
    Follows (counting request.spend) log (do
      recordConfirmed request
      audit request .success txHash
      return result) (Concluded request.spend) := by
  apply follows_bind
  refine follows_mono (follows_recordConfirmed hclean) ?_
  rintro _ log₁ ⟨⟨_, rfl⟩, hrecd, hlater⟩
  apply follows_bind
  refine follows_mono (follows_audit _ _) ?_
  rintro _ log₂ ⟨⟨_, rfl⟩, h₂⟩
  left
  exact ⟨h₂.recorded.trans hrecd, h₂.later.trans hlater⟩

def FoundOrClean : Option TransactionResult → Log → Prop
  | some _, log => recorded log = [] ∧ foundLater log = true
  | none, log => Clean log

theorem follows_reconcileTimedOutSubmission (txHash : String) (attempts : Nat) (hclean : Clean log)
    (hunanswered : unanswered log = true) :
    Follows (counting request.spend) log (reconcileTimedOutSubmission txHash attempts) fun r log' =>
      match r with
      | .ok found => FoundOrClean found log'
      | .error _ => Clean log' := by
  induction attempts generalizing log with
  | zero => exact hclean
  | succ attempts ih =>
    apply follows_bind
    refine follows_attempt (follows_queue trivial ?_)
    intro status _
    -- the status is asked for again, after a pause
    have hagain : ∀ log', Clean log' → unanswered log' = true →
        Follows (counting request.spend) log' (do
          numbers (seq (.sleep 5000))
          reconcileTimedOutSubmission txHash attempts) fun r log' =>
            match r with
            | .ok found => FoundOrClean found log'
            | .error _ => Clean log' := by
      intro log' hclean' hunanswered'
      refine follows_numbers_bind (fun _ _ hagree => hagree.clean hclean') ?_
      intro _ log'' hagree
      exact ih (hagree.clean hclean') (hagree.unanswered.trans hunanswered')
    rcases status with e | ledger | resultXdr | _
    · exact hagain _ ⟨hclean.recorded, hclean.later⟩ hunanswered
    · refine ⟨hclean.recorded, ?_⟩
      simp only [foundLater, hunanswered, Bool.true_or]
    · exact ⟨hclean.recorded, hclean.later⟩
    · exact hagain _ ⟨hclean.recorded, hclean.later⟩ hunanswered

theorem follows_reconcile (txHash : String) (e : WalletError) (hclean : Clean log) (hunanswered : unanswered log = true) :
    Follows (counting request.spend) log (reconcile request txHash e) (Concluded request.spend) := by
  apply follows_bind
  refine follows_mono (follows_reconcileTimedOutSubmission txHash 6 hclean hunanswered) ?_
  rintro (e' | _ | result) log' hfound
  · exact hfound
  · exact hfound
  · exact follows_unrecorded hfound.1 hfound.2 _ result

theorem follows_resetOnBadSequence {next : NextSequence} {text : String} {e : WalletError} (hclean : Clean log) :
    Follows (counting request.spend) log (do
      resetOnBadSequence next text
      .fail e) (Concluded request.spend) := by
  unfold resetOnBadSequence
  split
  · exact follows_numbers_bind (fun _ _ hagree => hagree.clean hclean) fun _ _ hagree => hagree.clean hclean
  · exact hclean

theorem follows_pollTransaction (next : NextSequence) (response : SendResponse)
    (retries : Nat) (hclean : Clean log) (hansd : unanswered log = false) :
    Follows (counting request.spend) log (pollTransaction request next response retries) (Concluded request.spend) := by
  induction retries generalizing log with
  | zero =>
    refine follows_bind (follows_bind (follows_attempt (follows_queue trivial
      (forall_except (fun _ _ => ⟨hclean.recorded, hclean.later⟩) fun _ _ => ?_))))
    refine follows_unrecorded ?_ ?_ _ _
    · exact hclean.recorded
    · rfl
  | succ retries ih =>
    refine follows_numbers_bind (fun _ _ hagree => hagree.clean hclean) ?_
    intro _ log₁ hagree
    have hclean₁ := hagree.clean hclean
    have hansd₁ := hagree.unanswered.trans hansd
    apply follows_bind
    refine follows_attempt (follows_queue trivial ?_)
    intro status _
    rcases status with e | ledger | resultXdr | _
    · simp only [Then]
      split
      · exact ih ⟨hclean₁.recorded, hclean₁.later⟩ hansd₁
      · exact ⟨hclean₁.recorded, hclean₁.later⟩
    · refine follows_recorded ?_ _ _
      refine ⟨hclean₁.recorded, ?_⟩
      simp only [foundLater, hansd₁, hclean₁.later, Bool.or_self]
    · exact follows_resetOnBadSequence ⟨hclean₁.recorded, hclean₁.later⟩
    · exact ih ⟨hclean₁.recorded, hclean₁.later⟩ hansd₁

theorem follows_sendAndConfirm (next : NextSequence) (envelope : Envelope) (txHash : String) (hclean : Clean log) :
    Follows (counting request.spend) log (sendAndConfirm request next envelope txHash) (Concluded request.spend) := by
  apply follows_bind
  refine follows_attempt (follows_queue trivial ?_)
  intro sent _
  cases sent with
  | error e =>
    simp only [Then]
    split
    · exact follows_reconcile txHash e ⟨hclean.recorded, hclean.later⟩ rfl
    · exact ⟨hclean.recorded, hclean.later⟩
  | ok response =>
    simp only [Then]
    split
    · exact follows_resetOnBadSequence ⟨hclean.recorded, hclean.later⟩
    · exact follows_pollTransaction next response 12 ⟨hclean.recorded, hclean.later⟩ rfl

theorem follows_buildAndSend (job attempt : Nat) (next : NextSequence) (hclean : Clean log) :
    Follows (counting request.spend) log (buildAndSend job request attempt next) (Concluded request.spend) := by
  refine follows_queue_bind trivial hclean (fun _ => ⟨rfl, rfl, rfl⟩) (fun _ _ => id) ?_
  intro _ log₁ hclean₁
  refine follows_queue_bind trivial hclean₁ (fun _ => ⟨rfl, rfl, rfl⟩) (fun _ _ => id) ?_
  intro _ log₂ hclean₂
  refine follows_queue_bind trivial hclean₂ (fun _ => ⟨rfl, rfl, rfl⟩) (fun _ _ => id) ?_
  intro simulation log₃ hclean₃
  cases simulation with
  | failure reasons => exact hclean₃
  | success =>
    refine follows_queue_bind trivial hclean₃ (fun _ => ⟨rfl, rfl, rfl⟩) (fun _ _ => id) ?_
    intro txHash log₄ hclean₄
    exact follows_sendAndConfirm next _ txHash hclean₄

theorem follows_failSubmission (e : WalletError) (hclean : Clean log) :
    Follows (counting request.spend) log (failSubmission request e) (Concluded request.spend) := by
  unfold failSubmission
  simp only
  split
  · exact hclean
  · refine follows_bind (follows_mono (follows_audit _ _) ?_)
    rintro _ log' ⟨⟨_, rfl⟩, hagree⟩
    exact hagree.clean hclean

theorem follows_executeTxJob (job attempt : Nat) (hclean : Clean log) :
    Follows (counting request.spend) log (executeTxJob job request attempt) (Concluded request.spend) := by
  refine follows_queue_bind trivial hclean (fun _ => ⟨rfl, rfl, rfl⟩) (fun _ _ => id) ?_
  intro _ log₁ hclean₁
  refine follows_numbers_bind (fun _ _ hagree => hagree.clean hclean₁) ?_
  intro next log₂ hagree
  refine follows_tryCatch (follows_mono (follows_buildAndSend job attempt next (hagree.clean hclean₁)) ?_)
  intro r log₃ hconcluded
  cases r with
  | ok result => exact hconcluded
  | error e => exact follows_failSubmission e hconcluded

theorem follows_runAttempts (job left attempt : Nat) (hclean : Clean log) :
    Follows (counting request.spend) log (runAttempts job request left attempt) (Concluded request.spend) := by
  induction left generalizing attempt log with
  | zero => exact follows_executeTxJob job attempt hclean
  | succ left ih =>
    apply follows_bind
    refine follows_attempt (follows_mono (follows_executeTxJob job attempt hclean) ?_)
    intro r log₁ hconcluded
    cases r with
    | ok result => exact hconcluded
    | error e =>
      simp only [Then]
      split
      · exact hconcluded
      · exact follows_numbers_bind (fun _ _ hagree => hagree.clean hconcluded) fun _ _ hagree =>
          ih (attempt + 1) (hagree.clean hconcluded)

theorem follows_processJob (job : Nat) (hclean : Clean log) :
    Follows (counting request.spend) log (processJob job request) (Concluded request.spend) :=
  follows_runAttempts job 4 1 hclean

end

theorem concluded {job : Nat} {request : TransactionRequest} {outcome : Except WalletError TransactionResult}
    {log : Log} (h : Ends anyAnswer (processJob job request) [] outcome log) :
    Concluded request.spend outcome log := by
  have hfollows : Follows (machine anyAnswer) [] (processJob job request) fun r log' =>
      ∃ log, log = log' ∧ Concluded request.spend r log := by
    refine follows_simulated Eq (fun _ _ _ _ _ => trivial) ?_ (follows_processJob job ⟨rfl, rfl⟩) rfl
    rintro log _ o r log' rfl - hm
    exact ⟨log', hm, rfl⟩
  obtain ⟨_, rfl, hconcluded⟩ := hfollows.ends h
  exact hconcluded

/-- A job records its spend once if it succeeds and not at all if it fails, if and only if its transaction was not
found to have succeeded later. -/
theorem counted_iff {job : Nat} {request : TransactionRequest} {spend : String × String × Int}
    {outcome : Except WalletError TransactionResult} {log : Log} (hspend : request.spend = some spend)
    (h : Ends anyAnswer (processJob job request) [] outcome log) :
    Counted spend log outcome ↔ foundLater log = false := by
  have hconcluded := concluded h
  cases outcome with
  | error e => exact ⟨fun _ => hconcluded.later, fun _ => hconcluded.recorded⟩
  | ok result =>
    rcases hconcluded with ⟨hrecd, hlater⟩ | ⟨hrecd, hlater⟩
    · rw [hspend] at hrecd
      exact ⟨fun _ => hlater, fun _ => hrecd⟩
    · constructor
      · intro hcnt
        simp [Counted, hrecd] at hcnt
      · intro hno
        simp [hlater] at hno

theorem performQueue_local {o : queueSignature.Op} (h : isLocal o = true) (ch : QueueChoice) (w : QueueState) :
    ∃ a, (performQueue o ch w).1 = .ok a := by
  cases o with
  | inl o => exact ⟨(answerSeq o w.sequences).1, congrArg Prod.fst (performSeq_local h _ _)⟩
  | inr o =>
    have hlocal : o.local = true := h
    refine ⟨(answerQueue o ch (o.confirms w)).1, ?_⟩
    simp only [performQueue, hlocal, if_true]
    rfl

def answerAnew (choices : queueSignature.Op → QueueChoice) (o : queueSignature.Op) (log : Log) :
    queueSignature.Result o × Log :=
  let result := (performQueue o (choices o) (.empty (fun _ => 100) [])).1
  (result, ⟨o, result⟩ :: log)

def spendingRequest : TransactionRequest := ⟨"GA", some "u", some "w", none, some 5⟩

def jobAnew (choices : queueSignature.Op → QueueChoice) : Except WalletError TransactionResult × Log :=
  (processJob 0 spendingRequest).alone (answerAnew choices) []

theorem ends_jobAnew (choices : queueSignature.Op → QueueChoice) :
    Ends anyAnswer (processJob 0 spendingRequest) [] (jobAnew choices).1 (jobAnew choices).2 :=
  Ends.of_alone (fun _ _ => ⟨fun h => performQueue_local h _ _, rfl⟩) _ _

def succeeds (_ : queueSignature.Op) : QueueChoice := { found := .success 7 }

def timesOut : queueSignature.Op → QueueChoice
  | .inr (.sendTransaction _) => { fate := .lost "Gateway Timeout", status := some 504 }
  | o => succeeds o

theorem counted_iff_polled : Counted ("u", "w", 5) (jobAnew succeeds).2 (jobAnew succeeds).1 :=
  (counted_iff rfl (ends_jobAnew succeeds)).mpr (by decide)

/-- **A spend that is not counted.** The gateway times out, and the transaction is found to have succeeded. -/
theorem uncounted_spend : (jobAnew timesOut).1 = .ok ⟨"hash", 7, true⟩ ∧ recorded (jobAnew timesOut).2 = [] ∧
      ¬ ∀ (job : Nat) (request : TransactionRequest) (spend : String × String × Int)
        (outcome : Except WalletError TransactionResult) (log : Log), request.spend = some spend →
        Ends anyAnswer (processJob job request) [] outcome log → Counted spend log outcome := by
  have hsucs : (jobAnew timesOut).1.toOption = some ⟨"hash", 7, true⟩ := by decide
  have hnothing : recorded (jobAnew timesOut).2 = [] := by decide
  have hok : (jobAnew timesOut).1 = .ok ⟨"hash", 7, true⟩ := by
    cases houtcome : (jobAnew timesOut).1 with
    | ok result =>
      rw [houtcome] at hsucs
      exact congrArg Except.ok (Option.some.inj hsucs)
    | error e =>
      rw [houtcome] at hsucs
      cases hsucs
  refine ⟨hok, hnothing, ?_⟩
  intro h
  have hcnt := h 0 spendingRequest ("u", "w", 5) _ _ rfl (ends_jobAnew timesOut)
  simp [hok, Counted, hnothing] at hcnt

end Delego.Wallet
