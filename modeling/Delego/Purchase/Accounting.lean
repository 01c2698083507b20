import Delego.Purchase.Compensation

/-! What a compensation run accounts for.

The completed steps are undone one after the other, the last one first, and each ends on one of the two lists of the
result (`account`). A step that has no compensator is on the list of those that failed, but it is not asked whether the
escrow is stuck (`compensation_accounted`). -/
namespace Delego.Purchase
open Delego.Process Delego.Data List

/-! ### What becomes of the steps -/

inductive StepEnd where
  | missing
  | compensated
  /-- The compensation, or the audit record after it, throws. -/
  | thrown (message : String)
  deriving DecidableEq

structure StepRecord where
  step : String
  /-- What was performed for the step. -/
  ops : List Op
  ended : StepEnd

def StepRecord.compensated (record : StepRecord) : Bool := record.ended = .compensated

def StepRecord.failure (record : StepRecord) : Option FailedStep :=
  match record.ended with
  | .missing => some ⟨record.step, "No compensator registered"⟩
  | .compensated => none
  | .thrown message => some ⟨record.step, message⟩

def StepRecord.stuck (record : StepRecord) : Bool :=
  match record.ended with
  | .thrown _ => escrowCritical record.step
  | _ => false

section
variable {W : Type} (run : (o : Op) → W → Except String o.Reply × W) (workflowId cause : String)
  (allSteps : List CompensationStep)

def compensatedAudit (stepName : String) : Op :=
  .insertWorkflowTransitionAudit
    { orderId := workflowId, fromState := some stepName
      toState := s!"{stepName}_compensated"
      eventType := "COMPENSATION" }

def failedAudit (stepName : String) : Op :=
  .insertWorkflowTransitionAudit
    { orderId := workflowId, fromState := some stepName
      toState := s!"{stepName}_compensation_failed"
      eventType := "COMPENSATION_FAILED" }

def attempted (stepName : String) (context : PurchaseContext) (w : W) : StepRecord × PurchaseContext × W :=
  match registered allSteps stepName with
  | none => (⟨stepName, [], .missing⟩, context, w)
  | some step =>
    let ops := Program.ops (S := compensationSignature) run (step.compensate context cause) w
    match Program.alone (S := compensationSignature) run (step.compensate context cause) w with
    | (.error message, w) =>
      (⟨stepName, ops ++ [failedAudit workflowId stepName], .thrown message⟩, context,
        (run (failedAudit workflowId stepName) w).2)
    | (.ok context, w) =>
      match run (compensatedAudit workflowId stepName) w with
      | (.error message, w) =>
        (⟨stepName, ops ++ [compensatedAudit workflowId stepName, failedAudit workflowId stepName], .thrown message⟩, context,
          (run (failedAudit workflowId stepName) w).2)
      | (.ok _, w) => (⟨stepName, ops ++ [compensatedAudit workflowId stepName], .compensated⟩, context, w)

def account : List String → PurchaseContext → W → List StepRecord × PurchaseContext × W
  | [], context, w => ([], context, w)
  | stepName :: rest, context, w =>
    let (record, context, w) := attempted run workflowId cause allSteps stepName context w
    let (records, context, w) := account rest context w
    (record :: records, context, w)

variable {run workflowId cause allSteps}

theorem account_cons (stepName : String) (rest : List String) (context : PurchaseContext) (w : W) :
    account run workflowId cause allSteps (stepName :: rest) context w =
      let first := attempted run workflowId cause allSteps stepName context w
      let others := account run workflowId cause allSteps rest first.2.1 first.2.2
      (first.1 :: others.1, others.2) := rfl

theorem attempted_step (stepName : String) (context : PurchaseContext) (w : W) :
    (attempted run workflowId cause allSteps stepName context w).1.step = stepName := by
  unfold attempted
  split
  · rfl
  · dsimp only
    split
    · rfl
    · split <;> rfl

theorem account_steps (names : List String) (context : PurchaseContext) (w : W) :
    (account run workflowId cause allSteps names context w).1.map StepRecord.step = names := by
  induction names generalizing context w with
  | nil => rfl
  | cons stepName rest ih =>
    rw [account_cons, map_cons, attempted_step]
    exact congrArg (stepName :: ·) (ih _ _)

theorem attempted_missing {stepName : String} {context : PurchaseContext} {w : W} :
    (attempted run workflowId cause allSteps stepName context w).1.ended = .missing ↔ registered allSteps stepName = none := by
  unfold attempted
  split
  · rename_i h
    exact ⟨fun _ => h, fun _ => rfl⟩
  · rename_i step h
    rw [h]
    dsimp only
    split
    · exact ⟨nofun, nofun⟩
    · split <;> exact ⟨nofun, nofun⟩

end

/-- The variables of the loop once these records have come to them. -/
def Progress.add (progress : Progress) (records : List StepRecord) (context : PurchaseContext) : Progress where
  compensatedSteps := progress.compensatedSteps ++ (records.filter StepRecord.compensated).map StepRecord.step
  failedSteps := progress.failedSteps ++ records.filterMap StepRecord.failure
  currentContext := context
  escrowStuck := progress.escrowStuck || records.any StepRecord.stuck

theorem Progress.add_nil (progress : Progress) : progress.add [] progress.currentContext = progress := by
  simp [Progress.add]

theorem Progress.add_cons (progress : Progress) (record : StepRecord) (records : List StepRecord)
    (context context' : PurchaseContext) :
    (progress.add [record] context).add records context' = progress.add (record :: records) context' := by
  have hlist : record :: records = [record] ++ records := rfl
  rw [hlist]
  simp only [Progress.add, filter_append, filterMap_append, map_append, append_assoc, any_append,
    Bool.or_assoc]

section
variable {W : Type} (run : (o : Op) → W → Except String o.Reply × W) (workflowId cause : String)
  (allSteps : List CompensationStep)

theorem alone_op (o : Op) (w : W) : (op o).attempt.alone run w = (.ok (run o w).1, (run o w).2) := by
  rw [op, Program.alone_attempt, Program.alone_perform]

theorem ops_op (o : Op) (w : W) : (op o).attempt.ops run w = [o] := by rw [op, Program.ops_attempt, Program.ops_perform]

theorem alone_recordFailure (progress : Progress) (stepName message : String) (w : W) :
    (recordFailure workflowId progress stepName message).alone run w =
      (.ok { progress with
        failedSteps := progress.failedSteps ++ [⟨stepName, message⟩]
        escrowStuck := progress.escrowStuck || escrowCritical stepName },
        (run (failedAudit workflowId stepName) w).2) := by
  rw [recordFailure, Program.alone_bind_ok (alone_op run _ w)]
  rfl

theorem ops_recordFailure (progress : Progress) (stepName message : String) (w : W) :
    (recordFailure workflowId progress stepName message).ops run w = [failedAudit workflowId stepName] := by
  rw [recordFailure, Program.ops_bind (alone_op run _ w), ops_op]
  rfl

theorem compensateStep_attempted (progress : Progress) (stepName : String) (w : W) :
    let next := attempted run workflowId cause allSteps stepName progress.currentContext w
    (compensateStep workflowId cause allSteps progress stepName).alone run w =
        (.ok (progress.add [next.1] next.2.1), next.2.2) ∧
      (compensateStep workflowId cause allSteps progress stepName).ops run w = next.1.ops := by
  unfold compensateStep attempted
  cases registered allSteps stepName with
  | none =>
    refine ⟨?_, rfl⟩
    simp [Progress.add, StepRecord.compensated, StepRecord.failure, StepRecord.stuck, pure, Program.alone]
  | some step =>
    dsimp only
    have htried := Program.alone_attempt (S := compensationSignature) run (step.compensate progress.currentContext cause) w
    have hops := Program.ops_attempt (S := compensationSignature) run (step.compensate progress.currentContext cause) w
    rcases hstep : Program.alone (S := compensationSignature) run (step.compensate progress.currentContext cause) w
      with ⟨message | context, w'⟩
    · rw [hstep] at htried
      rw [Program.alone_bind_ok htried, Program.ops_bind htried, hops]
      dsimp only
      rw [alone_recordFailure, ops_recordFailure]
      refine ⟨?_, rfl⟩
      simp [Progress.add, StepRecord.compensated, StepRecord.failure, StepRecord.stuck]
    · rw [hstep] at htried
      rw [Program.alone_bind_ok htried, Program.ops_bind htried, hops]
      dsimp only
      have haudited := alone_op run (compensatedAudit workflowId stepName) w'
      have hauditOps := ops_op run (compensatedAudit workflowId stepName) w'
      unfold compensatedAudit at haudited hauditOps
      rw [Program.alone_bind_ok haudited, Program.ops_bind haudited, hauditOps]
      unfold compensatedAudit
      rcases run _ w' with ⟨message | reply, w''⟩
      · dsimp only
        rw [alone_recordFailure, ops_recordFailure]
        refine ⟨?_, by simp⟩
        simp [Progress.add, StepRecord.compensated, StepRecord.failure, StepRecord.stuck]
      · dsimp only
        refine ⟨?_, by simp [pure, Program.ops]⟩
        simp [Progress.add, StepRecord.compensated, StepRecord.failure, StepRecord.stuck, pure, Program.alone]

theorem compensateSteps_account (names : List String) (progress : Progress) (w : W) :
    let all := account run workflowId cause allSteps names progress.currentContext w
    (compensateSteps workflowId cause allSteps names progress).alone run w = (.ok (progress.add all.1 all.2.1), all.2.2) ∧
      (compensateSteps workflowId cause allSteps names progress).ops run w = all.1.flatMap StepRecord.ops := by
  induction names generalizing progress w with
  | nil =>
    refine ⟨?_, rfl⟩
    exact congrArg (fun progress => (Except.ok progress, w)) progress.add_nil.symm
  | cons stepName rest ih =>
    obtain ⟨hstep, hops⟩ := compensateStep_attempted run workflowId cause allSteps progress stepName w
    obtain ⟨hrest, hrestOps⟩ := ih (progress.add [(attempted run workflowId cause allSteps stepName progress.currentContext w).1]
      (attempted run workflowId cause allSteps stepName progress.currentContext w).2.1)
      (attempted run workflowId cause allSteps stepName progress.currentContext w).2.2
    rw [compensateSteps, Program.alone_bind_ok hstep, Program.ops_bind hstep, hops, hrest, hrestOps, Progress.add_cons]
    exact ⟨rfl, rfl⟩

/-- The operations at the end of a run: the outcome is stored, and a stuck escrow is sent to the dead letter queue. -/
theorem finish_ends (progress : Progress) (w : W) : ∃ input entry w', (finish workflowId cause progress).alone run w =
        (.ok ⟨if progress.failedSteps.length = 0 then .success else .partialFailure, progress.compensatedSteps,
          progress.failedSteps, progress.currentContext, progress.escrowStuck⟩, w') ∧
      (finish workflowId cause progress).ops run w =
        .upsertCompensationOutcome input :: if progress.escrowStuck then [.moveToDeadLetter entry] else [] := by
  unfold finish
  dsimp only
  rw [Program.alone_bind_ok (alone_op run _ w), Program.ops_bind (alone_op run _ w), ops_op]
  cases progress.escrowStuck with
  | false => exact ⟨_, ⟨"", "", "", "", ⟨"", none⟩⟩, _, rfl, rfl⟩
  | true =>
    rw [if_pos rfl, Program.alone_bind_ok (alone_op run _ _), Program.ops_bind (alone_op run _ _), ops_op]
    exact ⟨_, _, _, rfl, rfl⟩

end

/-- What a run is to account for: the steps are undone from the last one on, each is on a list of the result, and
the escrow is stuck when a step that it depends on has failed. -/
structure Accounted (completedStepNames : List String) (records : List StepRecord) (ops : List Op)
    (result : CompensationResult) : Prop where
  reversed : records.map StepRecord.step = completedStepNames.reverse
  performed : ∃ input closing, ops = records.flatMap StepRecord.ops ++ .upsertCompensationOutcome input :: closing
  compensated : result.compensatedSteps = (records.filter StepRecord.compensated).map StepRecord.step
  failed : result.failedSteps.map FailedStep.step = (records.filter fun record => !record.compensated).map StepRecord.step
  success : result.status = .success ↔ result.failedSteps = []
  stuck : result.escrowStuck = true ↔ ∃ failed ∈ result.failedSteps, escrowCritical failed.step = true
  sent : (∃ entry, ops.getLast? = some (.moveToDeadLetter entry)) ↔
    ∃ failed ∈ result.failedSteps, escrowCritical failed.step = true

theorem failures_steps (records : List StepRecord) : (records.filterMap StepRecord.failure).map FailedStep.step =
      (records.filter fun record => !record.compensated).map StepRecord.step := by
  induction records with
  | nil => rfl
  | cons record records ih => cases hended : record.ended <;> simp [StepRecord.failure, StepRecord.compensated, hended, ih]

theorem mem_failures {records : List StepRecord} :
    (∃ failed ∈ records.filterMap StepRecord.failure, escrowCritical failed.step = true) ↔
      ∃ record ∈ records, record.ended ≠ .compensated ∧ escrowCritical record.step = true := by
  constructor
  · rintro ⟨failed, hmem, hcritical⟩
    obtain ⟨record, hrec, hfailure⟩ := mem_filterMap.mp hmem
    unfold StepRecord.failure at hfailure
    cases hended : record.ended with
    | compensated =>
      simp [hended] at hfailure
    | missing =>
      rw [hended] at hfailure
      obtain rfl := Option.some.inj hfailure
      exact ⟨record, hrec, by rw [hended]; exact nofun, hcritical⟩
    | thrown message =>
      rw [hended] at hfailure
      obtain rfl := Option.some.inj hfailure
      exact ⟨record, hrec, by rw [hended]; exact nofun, hcritical⟩
  · rintro ⟨record, hrec, hended, hcritical⟩
    cases hend : record.ended with
    | compensated => exact absurd hend hended
    | missing => exact ⟨_, mem_filterMap.mpr ⟨record, hrec, by rw [StepRecord.failure, hend]⟩, hcritical⟩
    | thrown message => exact ⟨_, mem_filterMap.mpr ⟨record, hrec, by rw [StepRecord.failure, hend]⟩, hcritical⟩

theorem any_stuck {records : List StepRecord} : records.any StepRecord.stuck = true ↔
      ∃ record ∈ records, (∃ message, record.ended = .thrown message) ∧ escrowCritical record.step = true := by
  rw [any_eq_true]
  refine exists_congr fun record => and_congr_right fun _ => ?_
  cases hended : record.ended <;> simp [StepRecord.stuck, hended]

section
variable {W : Type} (run : (o : Op) → W → Except String o.Reply × W) (workflowId cause : String)
  (allSteps : List CompensationStep)

theorem missing_mem {names : List String} {context : PurchaseContext} {w : W} :
    (∃ record ∈ (account run workflowId cause allSteps names context w).1,
      record.ended = .missing ∧ escrowCritical record.step = true) ↔
      ∃ stepName ∈ names, registered allSteps stepName = none ∧ escrowCritical stepName = true := by
  induction names generalizing context w with
  | nil => exact ⟨nofun, nofun⟩
  | cons stepName rest ih =>
    rw [account_cons, exists_mem_cons_iff, exists_mem_cons_iff, ih, attempted_missing, attempted_step]

theorem run_ends (completedStepNames : List String) (context : PurchaseContext) (w : W) :
    let all := account run workflowId cause allSteps completedStepNames.reverse context w
    ∃ result w' input entry,
      (runCompensation workflowId cause allSteps completedStepNames context).alone run w = (.ok result, w') ∧
      (runCompensation workflowId cause allSteps completedStepNames context).ops run w = all.1.flatMap StepRecord.ops ++
        .upsertCompensationOutcome input :: (if result.escrowStuck then [.moveToDeadLetter entry] else []) ∧
      result.compensatedSteps = (all.1.filter StepRecord.compensated).map StepRecord.step ∧
      result.failedSteps = all.1.filterMap StepRecord.failure ∧
      (result.status = .success ↔ result.failedSteps = []) ∧
      result.escrowStuck = all.1.any StepRecord.stuck := by
  intro all
  obtain ⟨hloop, hloopOps⟩ := compensateSteps_account run workflowId cause allSteps
    completedStepNames.reverse ⟨[], [], context, false⟩ w
  obtain ⟨input, entry, w', hfinish, hfinishOps⟩ := finish_ends run workflowId cause
    ((⟨[], [], context, false⟩ : Progress).add all.1 all.2.1) all.2.2
  refine ⟨_, w', input, entry, (Program.alone_bind_ok hloop _).trans hfinish, ?_, nil_append _, nil_append _, ?_,
    Bool.false_or _⟩
  · rw [runCompensation, Program.ops_bind hloop, hloopOps, hfinishOps]
  · dsimp only
    split
    · rename_i hnone
      exact ⟨fun _ => eq_nil_of_length_eq_zero hnone, fun _ => rfl⟩
    · rename_i hsome
      exact ⟨nofun, fun hnone => absurd (congrArg length hnone) hsome⟩

/-- **A run accounts for every step, unless a step that the escrow depends on has no compensator and none that has one
throws.** -/
theorem compensation_accounted (completedStepNames : List String) (context : PurchaseContext) (w : W) :
    let records := (account run workflowId cause allSteps completedStepNames.reverse context w).1
    ∃ result w', (runCompensation workflowId cause allSteps completedStepNames context).alone run w = (.ok result, w') ∧
      (Accounted completedStepNames records
          ((runCompensation workflowId cause allSteps completedStepNames context).ops run w) result ↔
        (∀ stepName ∈ completedStepNames, escrowCritical stepName = true → registered allSteps stepName ≠ none) ∨
          ∃ record ∈ records, (∃ message, record.ended = .thrown message) ∧ escrowCritical record.step = true) := by
  intro records
  obtain ⟨result, w', input, entry, hrun, hops, hcompensated, hfail, hsucs, hstuck⟩ :=
    run_ends run workflowId cause allSteps completedStepNames context w
  have hcritical : (∃ failed ∈ result.failedSteps, escrowCritical failed.step = true) ↔
      ∃ record ∈ records, record.ended ≠ .compensated ∧ escrowCritical record.step = true := by
    rw [hfail]
    exact mem_failures
  have hstuck : result.escrowStuck = true ↔
      ∃ record ∈ records, (∃ message, record.ended = .thrown message) ∧ escrowCritical record.step = true := by
    rw [hstuck]
    exact any_stuck
  refine ⟨result, w', hrun, ?_⟩
  constructor
  · intro h
    by_cases hthrown : ∃ record ∈ records, (∃ message, record.ended = .thrown message) ∧ escrowCritical record.step = true
    · exact .inr hthrown
    · refine .inl fun stepName hname hesc hnone => hthrown (hstuck.mp (h.stuck.mpr (hcritical.mpr ?_)))
      obtain ⟨record, hrec, hmissing, hstep⟩ := (missing_mem run workflowId cause allSteps).mpr ⟨stepName, mem_reverse.mpr hname, hnone, hesc⟩
      exact ⟨record, hrec, by rw [hmissing]; exact nofun, hstep⟩
  · intro h
    have hagree : result.escrowStuck = true ↔ ∃ failed ∈ result.failedSteps, escrowCritical failed.step = true := by
      rw [hstuck, hcritical]
      constructor
      · rintro ⟨record, hrec, ⟨message, hended⟩, hstep⟩
        exact ⟨record, hrec, by rw [hended]; exact nofun, hstep⟩
      · rintro ⟨record, hrec, hended, hstep⟩
        rcases h with hregd | hthrown
        · cases hend : record.ended with
          | compensated => exact absurd hend hended
          | thrown message => exact ⟨record, hrec, ⟨message, hend⟩, hstep⟩
          | missing =>
            obtain ⟨stepName, hname, hnone, hesc⟩ := (missing_mem run workflowId cause allSteps).mp ⟨record, hrec, hend, hstep⟩
            exact absurd hnone (hregd stepName (mem_reverse.mp hname) hesc)
        · exact hthrown
    refine ⟨account_steps _ _ _, ⟨input, _, hops⟩, hcompensated, ?_, hsucs, hagree, ?_⟩
    · rw [hfail]
      exact failures_steps _
    · rw [← hagree, hops]
      cases hesc : result.escrowStuck with
      | false => simp
      | true => simp

end

/-- The escrow was funded, and the step that would release it is not registered. -/
theorem unregistered_not_stuck :
    ¬∀ (run : (o : Op) → Unit → Except String o.Reply × Unit) (allSteps : List CompensationStep)
      (completedStepNames : List String) (context : PurchaseContext),
      ∃ result, (runCompensation "order" "declined" allSteps completedStepNames context).alone run () = (.ok result, ()) ∧
        Accounted completedStepNames (account run "order" "declined" allSteps completedStepNames.reverse context ()).1
          ((runCompensation "order" "declined" allSteps completedStepNames context).ops run ()) result := by
  intro h
  let run : (o : Op) → Unit → Except String o.Reply × Unit := fun o w =>
    match o with
    | .upsertCompensationOutcome _ => (.ok (), w)
    | _ => (.error "unavailable", w)
  obtain ⟨result, hrun, haccounted⟩ := h run [confirmPurchase] ["fundEscrow"] ⟨"order", some "escrow"⟩
  have hres : (runCompensation "order" "declined" [confirmPurchase] ["fundEscrow"] ⟨"order", some "escrow"⟩).alone run () =
      (.ok ⟨.partialFailure, [], [⟨"fundEscrow", "No compensator registered"⟩], ⟨"order", some "escrow"⟩, false⟩, ()) := rfl
  obtain rfl := Except.ok.inj (congrArg Prod.fst (hres.symm.trans hrun))
  exact Bool.false_ne_true (haccounted.stuck.mpr ⟨_, mem_singleton_self _, rfl⟩)

end Delego.Purchase
