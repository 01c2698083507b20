import Delego.Data.Table
import Delego.Data.Text
import Delego.Process.Pool

/-! Sagas and the store they are kept in (`orchestrator/src/saga/types.ts`,
`memory-store.ts`).

Times are milliseconds. The context of a saga, which the coordinator passes to
its steps and stores back, is a type parameter. The store is the in-memory one;
the PostgreSQL store answers the same (`save` is one conditional update on
`version`, and the two list filters are the same). -/
namespace Delego.Saga
open Delego.Data

inductive SagaWorkflowType where
  | checkout | purchase | refund | dispute

inductive SagaStatus where
  | running | completed | compensating | compensated | failed | timedOut
  deriving DecidableEq

inductive CompletedStepStatus where
  | completed | failed | compensated
  deriving DecidableEq

def SagaStatus.text : SagaStatus → String
  | .running => "running"
  | .completed => "completed"
  | .compensating => "compensating"
  | .compensated => "compensated"
  | .failed => "failed"
  | .timedOut => "timed_out"

/-- The three statuses after which `run` and `resume` do nothing. -/
def SagaStatus.terminal : SagaStatus → Bool
  | .completed | .compensated | .failed => true
  | _ => false

/-- The two statuses that send `advance` into the rollback. -/
def SagaStatus.rollingBack : SagaStatus → Bool
  | .compensating | .timedOut => true
  | _ => false

theorem SagaStatus.not_terminal {s : SagaStatus} : s.terminal = false ↔ s = .running ∨ s.rollingBack = true := by
  cases s <;> decide

structure CompletedStep (Ctx : Type) where
  stepName : String
  status : CompletedStepStatus
  output : Ctx
  completedAt : Nat
  compensationAction : Option String

structure SagaRetryPolicy where
  (maxAttempts backoffMs : Nat)
  retryableErrors : List String

/-- A step as the coordinator sees it. What its `execute` and `compensate`
callbacks return is the environment's choice. -/
structure SagaStep where
  name : String
  retryPolicy : Option SagaRetryPolicy := none

/-- A saga as it is stored. -/
structure SagaRecord (Ctx : Type) where
  (sagaId orderId : String)
  workflowType : SagaWorkflowType
  status : SagaStatus
  currentStep : Option String
  completedSteps : List (CompletedStep Ctx)
  context : Ctx
  version : Nat
  correlationId : String
  error : Option String
  expiresAt : Option Nat
  /-- Lease of the claimed `currentStep`. -/
  claimExpiresAt : Option Nat
  (createdAt updatedAt : Nat)

def SagaRecord.completedNames {Ctx : Type} (r : SagaRecord Ctx) : List String := r.completedSteps.map CompletedStep.stepName

/-- `SagaConcurrencyError`, or any other error with its message. -/
inductive SagaError where
  | concurrency (sagaId : String)
  | other (message : String)

def SagaError.message : SagaError → String
  | .concurrency sagaId => s!"Saga {sagaId} was modified by another runner — aborting to avoid duplicate step execution"
  | .other message => message

structure SagaEvent where
  (sagaId correlationId eventType : String)
  (fromStatus toStatus : Option SagaStatus)
  payload : List (String × String)
  createdAt : Nat

inductive SagaRecoveryAction where
  | resumed | compensated | markedFailed
  deriving DecidableEq

structure SagaRecoveryDetail where
  sagaId : String
  action : SagaRecoveryAction
  reason : String

structure SagaRecoveryResult where
  (recovered failed : Nat)
  details : List SagaRecoveryDetail

/-! ### The store -/

structure InMemorySagaStore (Ctx : Type) where
  records : List (SagaRecord Ctx) := []
  events : List SagaEvent := []

namespace InMemorySagaStore
variable {Ctx : Type}

def get (store : InMemorySagaStore Ctx) (sagaId : String) : Option (SagaRecord Ctx) :=
  lookup SagaRecord.sagaId store.records sagaId

/-- `records.set` over an existing saga. -/
def put (store : InMemorySagaStore Ctx) (record : SagaRecord Ctx) : InMemorySagaStore Ctx :=
  {store with records := replace SagaRecord.sagaId store.records record}

/-- An existing saga is returned as it is; a new one starts at version zero. -/
def create (store : InMemorySagaStore Ctx) (record : SagaRecord Ctx) : SagaRecord Ctx × InMemorySagaStore Ctx :=
  match store.get record.sagaId with
  | some existing => (existing, store)
  | none =>
    let stored := {record with version := 0}
    (stored, {store with records := store.records ++ [stored]})

/-- The version check and the write are one step. -/
def save (store : InMemorySagaStore Ctx) (record : SagaRecord Ctx) :
    Except SagaError (SagaRecord Ctx) × InMemorySagaStore Ctx :=
  match store.get record.sagaId with
  | none => (.error (.concurrency record.sagaId), store)
  | some existing =>
    if existing.version = record.version then
      let updated := {record with version := record.version + 1}
      (.ok updated, store.put updated)
    else (.error (.concurrency record.sagaId), store)

def listIncomplete (store : InMemorySagaStore Ctx) : List (SagaRecord Ctx) :=
  store.records.filter fun record => record.status = .running || record.status = .compensating

def listTimedOut (store : InMemorySagaStore Ctx) (now : Nat) : List (SagaRecord Ctx) :=
  store.records.filter fun record =>
    (record.status = .running || record.status = .compensating) &&
      match record.expiresAt with
      | some deadline => decide (deadline ≤ now)
      | none => false

def appendEvent (store : InMemorySagaStore Ctx) (event : SagaEvent) : InMemorySagaStore Ctx :=
  {store with events := store.events ++ [event]}

variable {store : InMemorySagaStore Ctx} {record existing : SagaRecord Ctx}

theorem get_sagaId {sagaId : String} (h : store.get sagaId = some record) : record.sagaId = sagaId := lookup_key h

/-- A save either writes the record it was given, one version up, over the version
it was read at, or changes nothing. -/
theorem save_cases (store : InMemorySagaStore Ctx) (record : SagaRecord Ctx) :
    (∃ existing, store.get record.sagaId = some existing ∧ existing.version = record.version ∧
      store.save record = (.ok {record with version := record.version + 1},
        store.put {record with version := record.version + 1})) ∨
    (store.save record = (.error (.concurrency record.sagaId), store) ∧
      ∀ existing, store.get record.sagaId = some existing → existing.version ≠ record.version) := by
  cases h : store.get record.sagaId with
  | none =>
    refine .inr ⟨?_, ?_⟩
    · simp only [save, h]
    · intro existing he
      cases he
  | some existing =>
    by_cases hv : existing.version = record.version
    · refine .inl ⟨existing, rfl, hv, ?_⟩
      simp only [save, h, hv, if_true]
    · refine .inr ⟨?_, ?_⟩
      · simp only [save, h, hv, if_false]
      · intro existing' he
        cases he
        exact hv

end InMemorySagaStore

/-! ### The saga coordinator (`orchestrator/src/saga/coordinator.ts`)

Each method is a program over the operations it awaits: the store's, the lock manager's, the step callbacks, the timers
and the clock. A callback is two operations, its start and its outcome, so that anything may happen while it runs.

What the environment decides is a `Choice`: what a callback returns or throws, whether a lock is granted or was stolen,
and whether a store or lock operation fails. -/

open Delego.Process Delego.Data

inductive Callback (Ctx : Type) where
  | execute
  | compensate (output : Ctx)

inductive Op (Ctx : Type) where
  | now
  | generateId
  | create (record : SagaRecord Ctx)
  | get (sagaId : String)
  | save (record : SagaRecord Ctx)
  | listIncomplete
  | listTimedOut
  | appendEvent (event : SagaEvent)
  /-- `record.expiresAt && record.expiresAt.getTime() <= Date.now()` -/
  | pastDeadline (record : SagaRecord Ctx)
  /-- `record.currentStep === stepName && record.claimExpiresAt &&
  record.claimExpiresAt.getTime() > Date.now()` -/
  | leaseActive (record : SagaRecord Ctx) (stepName : String)
  /-- The callback is invoked on the context of the claimed record. -/
  | start (callback : Callback Ctx) (stepName : String) (record : SagaRecord Ctx)
  | finish (callback : Callback Ctx) (stepName : String) (record : SagaRecord Ctx)
  | sleep (ms : Nat)
  /-- A timer that calls `recoverOne`. -/
  | setTimeout (sagaId : String) (delayMs : Nat)
  | acquire (key : String)
  | release (key : String)
  | wasStolen (key : String)

@[reducible] def Op.Reply {Ctx : Type} : Op Ctx → Type
  | .now => Nat
  | .generateId => String
  | .create _ => SagaRecord Ctx
  | .get _ => Option (SagaRecord Ctx)
  | .save _ => SagaRecord Ctx
  | .listIncomplete => List (SagaRecord Ctx)
  | .listTimedOut => List (SagaRecord Ctx)
  | .pastDeadline _ => Bool
  | .leaseActive _ _ => Bool
  | .finish _ _ _ => Ctx
  | .acquire _ => Bool
  | .wasStolen _ => Bool
  | _ => Unit

@[reducible] def sagaSignature (Ctx : Type) : Signature := ⟨Op Ctx, Op.Reply, SagaError⟩

abbrev SagaM (Ctx : Type) := Program (sagaSignature Ctx)

structure Timer where
  sagaId : String
  dueAt : Nat
  deriving DecidableEq

/-- The store, the clock and the step locks. -/
structure World (Ctx : Type) where
  store : InMemorySagaStore Ctx := {}
  clock : Nat := 0
  timers : List Timer := []

abbrev World.get {Ctx : Type} (w : World Ctx) (sagaId : String) : Option (SagaRecord Ctx) := w.store.get sagaId

/-- What the environment decides about one operation; `normal` where it has no say. -/
inductive Choice (Ctx : Type) where
  | normal
  /-- The store or the lock manager cannot be reached. -/
  | fault (message : String)
  | returns (context : Ctx)
  | throws (message : String)
  | lockRefused
  | lockStolen
  | identifier (id : String)

section
variable {Ctx : Type}

/-- `expiresAt && expiresAt.getTime() <= now` -/
def SagaRecord.pastDeadline (record : SagaRecord Ctx) (now : Nat) : Bool :=
  match record.expiresAt with
  | some deadline => decide (deadline ≤ now)
  | none => false

/-- The record carries a claim whose lease runs at `now`. -/
def SagaRecord.leased (record : SagaRecord Ctx) (now : Nat) : Bool :=
  match record.claimExpiresAt with
  | some expiry => decide (now < expiry)
  | none => false

def SagaRecord.leaseActive (record : SagaRecord Ctx) (stepName : String) (now : Nat) : Bool :=
  decide (record.currentStep = some stepName) && record.leased now

/-- An operation that fails when its service cannot be reached, without effect. -/
def fallible {α : Type} (ch : Choice Ctx) (w : World Ctx)
    (answer : Except SagaError α × World Ctx) : Except SagaError α × World Ctx :=
  match ch with
  | .fault message => (.error (.other message), w)
  | _ => answer

def perform (o : Op Ctx) (ch : Choice Ctx) (w : World Ctx) : Except SagaError o.Reply × World Ctx :=
  match o with
  | .now => (.ok w.clock, w)
  | .generateId => (.ok (match ch with | .identifier id => id | _ => ""), w)
  | .create record => fallible ch w (.ok (w.store.create record).1, {w with store := (w.store.create record).2})
  | .get sagaId => fallible ch w (.ok (w.store.get sagaId), w)
  | .save record => fallible ch w ((w.store.save record).1, {w with store := (w.store.save record).2})
  | .listIncomplete => fallible ch w (.ok w.store.listIncomplete, w)
  | .listTimedOut => fallible ch w (.ok (w.store.listTimedOut w.clock), w)
  | .appendEvent event => fallible ch w (.ok (), {w with store := w.store.appendEvent event})
  | .pastDeadline record => (.ok (record.pastDeadline w.clock), w)
  | .leaseActive record stepName => (.ok (record.leaseActive stepName w.clock), w)
  | .start _ _ _ => (.ok (), w)
  | .finish _ _ record =>
    (match ch with
      | .returns context => .ok context
      | .throws message => .error (.other message)
      | .fault message => .error (.other message)
      | _ => .ok record.context, w)
  | .sleep _ => (.ok (), w)
  | .setTimeout sagaId delayMs => (.ok (), {w with timers := w.timers ++ [⟨sagaId, w.clock + delayMs⟩]})
  | .acquire _ => fallible ch w (.ok (match ch with | .lockRefused => false | _ => true), w)
  | .release _ => fallible ch w (.ok (), w)
  | .wasStolen _ => (.ok (match ch with | .lockStolen => true | _ => false), w)

end

/-! ### The coordinator -/

structure SagaCoordinatorOptions where
  steps : List SagaStep
  claimLeaseMs : Option Int := none
  sagaTimeoutMs : Option Int := none
  locks : Bool := false

def DEFAULT_CLAIM_LEASE_MS : Int := 30000
def DEFAULT_SAGA_TIMEOUT_MS : Int := 5 * 60000

/-- `Number.MAX_SAFE_INTEGER` -/
def MAX_SAFE_INTEGER : Int := 9007199254740991

/-- A constructed coordinator: the constructor's checks are its fields. -/
structure SagaCoordinator where
  steps : List SagaStep
  claimLeaseMs : Nat
  sagaTimeoutMs : Int
  /-- A Redis lock manager was given. -/
  locks : Bool
  nonempty : steps ≠ []
  distinct : (steps.map SagaStep.name).Nodup
  lease_pos : 0 < claimLeaseMs

def firstDuplicate (seen : List String) : List String → Option String
  | [] => none
  | name :: rest => if name ∈ seen then some name else firstDuplicate (name :: seen) rest

theorem firstDuplicate_none {names seen : List String} (h : firstDuplicate seen names = none) :
    names.Nodup ∧ ∀ name ∈ names, name ∉ seen := by
  induction names generalizing seen with
  | nil => exact ⟨List.nodup_nil, fun _ h => by cases h⟩
  | cons name rest ih =>
    simp only [firstDuplicate] at h
    split at h
    · cases h
    · rename_i hseen
      obtain ⟨hnodup, hrest⟩ := ih h
      refine ⟨List.nodup_cons.mpr ⟨fun hmem => hrest name hmem (List.mem_cons_self ..), hnodup⟩, ?_⟩
      intro other hother
      rcases List.mem_cons.mp hother with rfl | hother
      · exact hseen
      · exact fun hmem => hrest other hother (List.mem_cons_of_mem _ hmem)

def SagaCoordinator.new (options : SagaCoordinatorOptions) : Except String SagaCoordinator :=
  if hsteps : options.steps = [] then .error "SagaCoordinator requires at least one step"
  else match hdup : firstDuplicate [] (options.steps.map SagaStep.name) with
    | some name => .error s!"Duplicate saga step name: {name}"
    | none =>
      let claimLeaseMs := options.claimLeaseMs.getD DEFAULT_CLAIM_LEASE_MS
      if hlease : MAX_SAFE_INTEGER < claimLeaseMs ∨ claimLeaseMs ≤ 0 then
        .error "claimLeaseMs must be a positive safe integer"
      else .ok
        { steps := options.steps, claimLeaseMs := claimLeaseMs.toNat
          sagaTimeoutMs := options.sagaTimeoutMs.getD DEFAULT_SAGA_TIMEOUT_MS, locks := options.locks
          nonempty := hsteps, distinct := (firstDuplicate_none hdup).1
          lease_pos := by omega }

structure RunOptions where
  workflowType : Option SagaWorkflowType := none
  correlationId : Option String := none

def lockKeyForWorkflow (sagaId : String) : String := "lock:wf:\x7bworkflow:" ++ sagaId ++ "\x7d"

def lockKeyForStep (sagaId stepName : String) : String := "lock:step:\x7bworkflow:" ++ sagaId ++ "\x7d:" ++ stepName

namespace SagaCoordinator
variable {Ctx : Type} (c : SagaCoordinator)

def stepOrder : List String := c.steps.map SagaStep.name

def step? (name : String) : Option SagaStep := c.steps.find? fun step => decide (step.name = name)

def op (o : Op Ctx) : SagaM Ctx o.Reply := Program.perform (S := sagaSignature Ctx) o

def raise {α : Type} (message : String) : SagaM Ctx α := .fail (.other message)

def recordEvent (record : SagaRecord Ctx) (eventType : String) (fromStatus toStatus : Option SagaStatus)
    (payload : List (String × String)) : SagaM Ctx Unit := do
  let now ← op .now
  op (.appendEvent
    { sagaId := record.sagaId, correlationId := record.correlationId, eventType := eventType
      fromStatus := fromStatus, toStatus := toStatus, payload := payload
      createdAt := now })

/-- `this.save({...record, updatedAt: new Date()})` -/
def save (record : SagaRecord Ctx) : SagaM Ctx (SagaRecord Ctx) := do
  let now ← op .now
  op (.save {record with updatedAt := now})

def releaseStepLock (sagaId stepName : String) : SagaM Ctx Unit :=
  if c.locks then op (.release (lockKeyForStep sagaId stepName)) else pure ()

def acquireStepLock (sagaId stepName : String) : SagaM Ctx Bool :=
  if c.locks then op (.acquire (lockKeyForStep sagaId stepName)) else pure true

/-- `this.locks?.wasStolen(..)` -/
def stepLockStolen (sagaId stepName : String) : SagaM Ctx Bool :=
  if c.locks then op (.wasStolen (lockKeyForStep sagaId stepName)) else pure false

def claimStep (record : SagaRecord Ctx) (stepName : String) : SagaM Ctx (Option (SagaRecord Ctx)) := do
  let active ← op (.leaseActive record stepName)
  if active then return none
  else do
    let granted ← c.acquireStepLock record.sagaId stepName
    if !granted then return none
    else
      Program.tryCatch
        (do
          let now ← op .now
          let claimed ← save {record with
            currentStep := some stepName, claimExpiresAt := some (now + c.claimLeaseMs)}
          return some claimed)
        fun err => do
          c.releaseStepLock record.sagaId stepName
          match err with
          | .concurrency _ => return none
          | .other _ => .fail err

def invoke (callback : Callback Ctx) (stepName : String) (record : SagaRecord Ctx) : SagaM Ctx Ctx := do
  op (.start callback stepName record)
  op (.finish callback stepName record)

/-- The step's policy asks for another attempt after this error. -/
def retryable (step : SagaStep) (error : SagaError) : Bool :=
  match step.retryPolicy with
  | some policy => policy.retryableErrors.any fun pattern => includes error.message pattern
  | none => false

/-- The attempts left of `executeWithRetry`'s loop. -/
def executeAttempts (step : SagaStep) (record : SagaRecord Ctx) : Nat → SagaM Ctx Ctx
  | 0 => raise s!"Saga step {step.name} failed"
  | remaining + 1 => do
    let outcome ← (invoke .execute step.name record).attempt
    match outcome with
    | .ok context => return context
    | .error error =>
      if !retryable step error || remaining = 0 then .fail error
      else do
        op (.sleep (match step.retryPolicy with | some policy => policy.backoffMs | none => 0))
        executeAttempts step record remaining

def executeWithRetry (step : SagaStep) (record : SagaRecord Ctx) : SagaM Ctx Ctx :=
  executeAttempts step record (match step.retryPolicy with | some policy => policy.maxAttempts | none => 1)

def markCompensated (completedSteps : List (CompletedStep Ctx)) (completedStep : CompletedStep Ctx) :
    List (CompletedStep Ctx) :=
  completedSteps.map fun entry =>
    if entry.stepName = completedStep.stepName then {completedStep with status := .compensated} else entry

/-- One step of the rollback after its claim: the body of `compensate`'s `try`. The
record in the outcome is the one `current` holds when the block is left; `none`
says that the step lock was stolen. -/
def compensateStep (current : SagaRecord Ctx) (completedStep : CompletedStep Ctx) :
    SagaM Ctx (Except (SagaRecord Ctx × SagaError) (Option (SagaRecord Ctx))) := do
  let called ← (do
    let context ← invoke (.compensate completedStep.output) completedStep.stepName current
    let stolen ← c.stepLockStolen current.sagaId completedStep.stepName
    if stolen then return none
    else do
      let saved ← save {current with
        context := context
        completedSteps := markCompensated current.completedSteps completedStep
        claimExpiresAt := none}
      return some saved).attempt
  match called with
  | .error err => return .error (current, err)
  | .ok none => return .ok none
  | .ok (some saved) => do
    let recorded ← (do
      c.releaseStepLock saved.sagaId completedStep.stepName
      recordEvent saved "step_compensated" (some .compensating) (some .compensating)
        [("step", completedStep.stepName)]).attempt
    match recorded with
    | .error err => return .error (saved, err)
    | .ok () => return .ok (some saved)

/-- `compensate`'s loop over the steps still to undo, latest first. -/
def compensateLoop (current : SagaRecord Ctx) : List (CompletedStep Ctx) → SagaM Ctx (SagaRecord Ctx)
  | [] => do
    let compensated ← save {current with
      status := .compensated, currentStep := none, claimExpiresAt := none}
    recordEvent compensated "saga_compensated" (some .compensating) (some .compensated) []
    return compensated
  | completedStep :: rest =>
    match c.step? completedStep.stepName with
    | none => do
      let message := s!"Unknown saga step during compensation: {completedStep.stepName}"
      let _ ← save {current with error := some message}
      raise message
    | some _ => do
      let claimed ← c.claimStep current completedStep.stepName
      match claimed with
      | none => return current
      | some claimed => do
        let outcome ← c.compensateStep claimed completedStep
        match outcome with
        | .ok none => return claimed
        | .ok (some saved) => compensateLoop saved rest
        | .error (held, err) => do
          c.releaseStepLock held.sagaId completedStep.stepName
          let _ ← save {held with claimExpiresAt := none}
          .fail err

def compensate (record : SagaRecord Ctx) : SagaM Ctx (SagaRecord Ctx) :=
  c.compensateLoop record record.completedSteps.reverse

/-- `this.stepOrder[this.stepOrder.indexOf(stepName) + 1] ?? null` -/
def stepAfter (stepName : String) : Option String := c.stepOrder[c.stepOrder.idxOf stepName + 1]?

/-- `advance`'s loop over the remaining steps. -/
def advanceLoop (current : SagaRecord Ctx) : List String → SagaM Ctx (SagaRecord Ctx)
  | [] => do
    let completed ← save {current with status := .completed, currentStep := none, claimExpiresAt := none}
    recordEvent completed "saga_completed" (some .running) (some .completed) []
    return completed
  | stepName :: rest =>
    match c.step? stepName with
    | none => raise s!"Unknown saga step: {stepName}"
    | some step => do
      let claimed ← c.claimStep current stepName
      match claimed with
      | none => return current
      | some current => do
        let outcome ← (executeWithRetry step current).attempt
        match outcome with
        | .error error => do
          c.releaseStepLock current.sagaId stepName
          let failed ← save {current with
            status := .compensating, error := some error.message, claimExpiresAt := none}
          recordEvent failed "step_failed" (some .running) (some .compensating)
            [("step", stepName), ("error", error.message)]
          c.compensate failed
        | .ok context => do
          let stolen ← c.stepLockStolen current.sagaId stepName
          if stolen then return current
          else do
            let now ← op .now
            let saved ← save {current with
              context := context
              completedSteps := current.completedSteps ++ [
                { stepName := stepName, status := .completed, output := context, completedAt := now
                  compensationAction := some step.name }]
              currentStep := c.stepAfter stepName
              claimExpiresAt := none}
            c.releaseStepLock saved.sagaId stepName
            recordEvent saved "step_completed" (some .running) (some .running) [("step", stepName)]
            advanceLoop saved rest

def advance (record : SagaRecord Ctx) : SagaM Ctx (SagaRecord Ctx) :=
  if record.status.rollingBack then c.compensate record
  else c.advanceLoop record (c.stepOrder.filter fun name => decide (name ∉ record.completedNames))

def withWorkflowLock (sagaId : String) (fn : SagaM Ctx (SagaRecord Ctx)) : SagaM Ctx (SagaRecord Ctx) :=
  if !c.locks then fn
  else do
    let acquired ← op (.acquire (lockKeyForWorkflow sagaId))
    if !acquired then do
      let current ← op (.get sagaId)
      match current with
      | none => raise s!"Saga not found: {sagaId}"
      | some current => return current
    else do
      let outcome ← fn.attempt
      op (.release (lockKeyForWorkflow sagaId))
      match outcome with
      | .ok record => return record
      | .error err => .fail err

/-- The record `run` offers to the store. -/
def newRecord (sagaId orderId : String) (initialContext : Ctx) (options : RunOptions)
    (correlationId : String) (now : Nat) : SagaRecord Ctx :=
  { sagaId := sagaId, orderId := orderId, workflowType := options.workflowType.getD .checkout
    status := .running, currentStep := c.stepOrder.head?, completedSteps := [], context := initialContext
    version := 0, correlationId := correlationId, error := none
    expiresAt := if 0 < c.sagaTimeoutMs then some (now + c.sagaTimeoutMs.toNat) else none
    claimExpiresAt := none, createdAt := now
    updatedAt := now }

/-- `options.correlationId ?? generateId()` -/
def correlationIdOf (options : RunOptions) : SagaM Ctx String :=
  match options.correlationId with
  | some id => return id
  | none => op .generateId

def run (sagaId orderId : String) (initialContext : Ctx) (options : RunOptions) : SagaM Ctx (SagaRecord Ctx) := do
  let now ← op .now
  let correlationId ← correlationIdOf options
  let record ← op (.create (c.newRecord sagaId orderId initialContext options correlationId now))
  recordEvent record "saga_started" none (some .running) [("orderId", orderId)]
  if record.status.terminal then return record
  else c.withWorkflowLock record.sagaId (c.advance record)

def resume (sagaId : String) : SagaM Ctx (SagaRecord Ctx) := do
  let record ← op (.get sagaId)
  match record with
  | none => raise s!"Saga not found: {sagaId}"
  | some record =>
    if record.status.terminal then return record
    else c.withWorkflowLock record.sagaId (c.advance record)

def scheduleRetryIfLeased (record : SagaRecord Ctx) : SagaM Ctx Unit :=
  if record.status ≠ .running ∧ record.status ≠ .compensating then return ()
  else match record.claimExpiresAt with
    | none => return ()
    | some expiry => do
      let now ← op .now
      if expiry ≤ now then return ()
      else op (.setTimeout record.sagaId (expiry - now + 50))

/-- The deadline branch of `recoverOne`. -/
def timeOut (latest : SagaRecord Ctx) : SagaM Ctx SagaRecoveryDetail := do
  recordEvent latest "saga_timed_out" (some latest.status) (some .timedOut) []
  let timedOut ← save {latest with
    status := .timedOut
    error := some (latest.error.getD "Saga exceeded its deadline")
    claimExpiresAt := none}
  let outcome ← (c.compensate timedOut).attempt
  match outcome with
  | .ok compensated => return {
      sagaId := latest.sagaId
      action := if compensated.status = .compensated then .compensated else .markedFailed
      reason := "Saga exceeded its timeout deadline and was auto-compensated" }
  | .error _ => return {
      sagaId := latest.sagaId
      action := .markedFailed
      reason := "Saga timed out and compensation failed" }

/-- The resumed saga may have been claimed by another runner since it was read. -/
def scheduleRetryIfFreshlyLeased (sagaId : String) (result : SagaRecord Ctx) : SagaM Ctx Unit :=
  if (result.status = .running ∨ result.status = .compensating) ∧ result.claimExpiresAt = none then do
    let fresh ← op (.get sagaId)
    match fresh with
    | some fresh => scheduleRetryIfLeased fresh
    | none => return ()
  else return ()

/-- The other branch: resume, and a timer if another runner still holds a lease. -/
def resumeOne (sagaId : String) : SagaM Ctx SagaRecoveryDetail := do
  let result ← c.resume sagaId
  scheduleRetryIfLeased result
  scheduleRetryIfFreshlyLeased sagaId result
  return {
    sagaId := sagaId
    action := .resumed
    reason := "Recovered in status " ++ result.status.text }

def recoverOne (sagaId : String) : SagaM Ctx (Option SagaRecoveryDetail) :=
  Program.tryCatch
    (do
      let fetched ← op (.get sagaId)
      match fetched with
      | none => return none
      | some latest => do
        let expired ← op (.pastDeadline latest)
        if expired then do
          let detail ← c.timeOut latest
          return some detail
        else do
          let detail ← c.resumeOne sagaId
          return some detail)
    fun err => return some { sagaId := sagaId, action := .markedFailed, reason := err.message }

/-- `recoverOne` on each listed saga, in order. -/
def recoverEach : List (SagaRecord Ctx) → SagaM Ctx (List SagaRecoveryDetail)
  | [] => return []
  | record :: rest => do
    let detail ← c.recoverOne record.sagaId
    let details ← recoverEach rest
    return detail.toList ++ details

def recoverAll : SagaM Ctx SagaRecoveryResult := do
  let incomplete ← op .listIncomplete
  let details ← c.recoverEach incomplete
  return {
    recovered := details.countP fun detail => decide (detail.action ≠ .markedFailed)
    failed := details.countP fun detail => decide (detail.action = .markedFailed)
    details := details }

/-- One pass of the timer that `startTimeoutSweeper` sets. -/
def sweep : SagaM Ctx Unit :=
  Program.tryCatch
    (do
      let timedOut ← op .listTimedOut
      let _ ← c.recoverEach timedOut
      return ())
    fun _ => return ()

end SagaCoordinator

inductive Call (Ctx : Type) where
  | run (sagaId orderId : String) (initialContext : Ctx) (options : RunOptions)
  | resume (sagaId : String)
  | recoverAll
  | sweep
  | fire (timer : Timer)

variable {Ctx : Type}

/-- A timer fires once, when it is due; every other call may come at any time. -/
def arrive (call : Call Ctx) (w : World Ctx) : Option (World Ctx) :=
  match call with
  | .fire timer =>
    if timer ∈ w.timers ∧ timer.dueAt ≤ w.clock then some {w with timers := w.timers.erase timer}
    else none
  | _ => some w

def discard {α : Type} (p : SagaM Ctx α) : SagaM Ctx Unit := do
  let _ ← p
  return ()

def body (c : SagaCoordinator) : Call Ctx → SagaM Ctx Unit
  | .run sagaId orderId initialContext options => discard (c.run sagaId orderId initialContext options)
  | .resume sagaId => discard (c.resume sagaId)
  | .recoverAll => discard c.recoverAll
  | .sweep => c.sweep
  | .fire timer => discard (c.recoverOne timer.sagaId)

/-- Any number of instances of one coordinator on one store; the clock advances by
any amount at any time. -/
def system (c : SagaCoordinator) (Ctx : Type) : System (sagaSignature Ctx) (World Ctx) where
  Choice := Choice Ctx
  Event := Nat
  Call := Call Ctx
  perform := perform
  drift := fun ms w => {w with clock := w.clock + ms}
  arrive := arrive
  body := body c

abbrev SagaPool (Ctx : Type) := Pool (sagaSignature Ctx) (World Ctx)

abbrev SagaTrace (Ctx : Type) := List (Entry (sagaSignature Ctx))

def init (Ctx : Type) : SagaPool Ctx := Pool.start {}

/-- Runner `i` takes `n` operations, none of which fails. -/
def advances {c : SagaCoordinator} (i n : Nat) : List (Action (system c Ctx)) := List.replicate n (.step i Choice.normal)

/-- `workflows/checkout/index.ts`, without a lock manager. -/
def createCheckoutSagaCoordinator : SagaCoordinator where
  steps := [{ name := "deposit-escrow" }, { name := "confirm-checkout" }]
  claimLeaseMs := 30000
  sagaTimeoutMs := 300000
  locks := false
  nonempty := by decide
  distinct := by decide
  lease_pos := by decide

/-- `workflows/escrow/index.ts` -/
def createEscrowSagaCoordinator : SagaCoordinator where
  steps := [{ name := "reserve_stock" }, { name := "submit_soroban_escrow" },
    { name := "record_order_db" }, { name := "complete" }]
  claimLeaseMs := 30000
  sagaTimeoutMs := 300000
  locks := false
  nonempty := by decide
  distinct := by decide
  lease_pos := by decide

end Delego.Saga
