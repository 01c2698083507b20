import Mathlib.Data.List.Sort

/-! The purchase workflow (`orchestrator/state/machine.ts`, `state/types.ts`) and the event
store it records to (`orchestrator/src/events/eventStore.ts`).

A machine holds its snapshot; the event store and the counter of event identifiers belong
to the process. Every reading of the clock in a call of `send`, and whether the store took
the record, come with the call (`Moment`). The hook is the caller's: it answers or throws. -/
namespace Delego.Workflow

inductive PurchaseState where
  | discovery | spendingCheck | userApprovalPending | escrowLocking | merchantFulfillment
  | deliveryVerification | completed | refunded
  deriving DecidableEq

def PurchaseState.name : PurchaseState → String
  | .discovery => "Discovery"
  | .spendingCheck => "SpendingCheck"
  | .userApprovalPending => "UserApprovalPending"
  | .escrowLocking => "EscrowLocking"
  | .merchantFulfillment => "MerchantFulfillment"
  | .deliveryVerification => "DeliveryVerification"
  | .completed => "Completed"
  | .refunded => "Refunded"

inductive PurchaseEvent where
  | productFound (productId merchantId : String) (totalStroops : Int)
  | spendApproved
  | spendDenied (reason : String)
  | userApproved
  | userRejected
  | escrowLocked (escrowContractId : String)
  | escrowFailed (reason : String)
  | fulfillmentConfirmed
  | deliveryVerified
  | refundInitiated (reason : String)

/-- `PurchaseEvent["type"]`. -/
inductive EventType where
  | productFound | spendApproved | spendDenied | userApproved | userRejected | escrowLocked
  | escrowFailed | fulfillmentConfirmed | deliveryVerified | refundInitiated
  deriving DecidableEq

def EventType.name : EventType → String
  | .productFound => "PRODUCT_FOUND"
  | .spendApproved => "SPEND_APPROVED"
  | .spendDenied => "SPEND_DENIED"
  | .userApproved => "USER_APPROVED"
  | .userRejected => "USER_REJECTED"
  | .escrowLocked => "ESCROW_LOCKED"
  | .escrowFailed => "ESCROW_FAILED"
  | .fulfillmentConfirmed => "FULFILLMENT_CONFIRMED"
  | .deliveryVerified => "DELIVERY_VERIFIED"
  | .refundInitiated => "REFUND_INITIATED"

def PurchaseEvent.type : PurchaseEvent → EventType
  | .productFound .. => .productFound
  | .spendApproved => .spendApproved
  | .spendDenied _ => .spendDenied
  | .userApproved => .userApproved
  | .userRejected => .userRejected
  | .escrowLocked _ => .escrowLocked
  | .escrowFailed _ => .escrowFailed
  | .fulfillmentConfirmed => .fulfillmentConfirmed
  | .deliveryVerified => .deliveryVerified
  | .refundInitiated _ => .refundInitiated

structure PurchaseContext where
  (workflowId delegationId userId : String)
  (productId merchantId : Option String)
  totalStroops : Option Int
  (escrowContractId rejectionReason : Option String)
  (createdAt updatedAt : Int)

structure StateTransitionRecord where
  workflowId : String
  fromState : Option PurchaseState
  toState : PurchaseState
  event : EventType
  context : PurchaseContext
  timestamp : Int

/-- What is kept of a machine. -/
structure WorkflowSnapshot where
  workflowId : String
  currentState : PurchaseState
  context : PurchaseContext
  history : List StateTransitionRecord
  version : Nat

/-- `TRANSITIONS`. -/
def transitions : PurchaseState → EventType → Option PurchaseState
  | .discovery, .productFound => some .spendingCheck
  | .spendingCheck, .spendApproved => some .userApprovalPending
  | .spendingCheck, .spendDenied => some .refunded
  | .userApprovalPending, .userApproved => some .escrowLocking
  | .userApprovalPending, .userRejected => some .refunded
  | .escrowLocking, .escrowLocked => some .merchantFulfillment
  | .escrowLocking, .escrowFailed => some .refunded
  | .merchantFulfillment, .fulfillmentConfirmed => some .deliveryVerification
  | .merchantFulfillment, .refundInitiated => some .refunded
  | .deliveryVerification, .deliveryVerified => some .completed
  | .deliveryVerification, .refundInitiated => some .refunded
  | _, _ => none

/-- `TERMINAL_STATES`. -/
def terminalStates : List PurchaseState := [.completed, .refunded]

def applyContextUpdate (now : Int) (ctx : PurchaseContext) : PurchaseEvent → PurchaseContext
  | .productFound productId merchantId totalStroops =>
    { ctx with
      productId := some productId
      merchantId := some merchantId
      totalStroops := some totalStroops
      updatedAt := now }
  | .spendDenied reason => { ctx with rejectionReason := some reason, updatedAt := now }
  | .userRejected => { ctx with rejectionReason := some "user_rejected", updatedAt := now }
  | .escrowLocked escrowContractId => { ctx with escrowContractId := some escrowContractId, updatedAt := now }
  | .escrowFailed reason => { ctx with rejectionReason := some reason, updatedAt := now }
  | .refundInitiated reason => { ctx with rejectionReason := some reason, updatedAt := now }
  | _ => { ctx with updatedAt := now }

structure WorkflowEventRecord where
  (id workflowId : String)
  eventType : EventType
  payload : PurchaseEvent
  fromState : Option PurchaseState
  toState : PurchaseState
  /-- `metadata.snapshotVersion`. -/
  snapshotVersion : Nat
  recordedAt : Int

/-- What the process holds: the global store and the counter of identifiers. -/
structure EventStore where
  events : List WorkflowEventRecord
  idCounter : Nat

/-- `Array.prototype.sort` is stable, and so is an insertion sort. -/
def EventStore.getEvents (store : EventStore) (workflowId : String) : List WorkflowEventRecord :=
  (store.events.filter fun e => decide (e.workflowId = workflowId)).insertionSort fun a b => a.recordedAt ≤ b.recordedAt

/-- The clock as one call of `send` reads it, and what the store answers the record with. -/
structure Moment where
  (updatedAt timestamp : Int)
  /-- `Date.now()` in the event's identifier. -/
  (drawnAt recordedAt : Int)
  recording : Except String Unit

def createWorkflowEventRecord (moment : Moment) (store : EventStore) (version : Nat)
    (event : PurchaseEvent) (record : StateTransitionRecord) : WorkflowEventRecord :=
  { id := s!"evt_{moment.drawnAt}_{store.idCounter + 1}"
    workflowId := record.workflowId
    eventType := event.type
    payload := event
    fromState := record.fromState
    toState := record.toState
    snapshotVersion := version
    recordedAt := moment.recordedAt }

/-- The identifier is drawn before the store is asked, so a refused record uses it up. -/
def recordWorkflowEvent (moment : Moment) (version : Nat) (event : PurchaseEvent)
    (record : StateTransitionRecord) (store : EventStore) : EventStore :=
  { events := match moment.recording with
      | .ok () => store.events ++ [createWorkflowEventRecord moment store version event record]
      | .error _ => store.events
    idCounter := store.idCounter + 1 }

abbrev TransitionHook := StateTransitionRecord → Except String Unit

/-- The fields of the context that the caller gives. -/
structure InitialContext where
  (workflowId delegationId userId : String)

/-- A machine: its state, context and history. -/
structure PurchaseWorkflowMachine where
  snapshot : WorkflowSnapshot
  onTransition : Option TransitionHook

/-- `SNAPSHOT_VERSION`. -/
def snapshotVersion : Nat := 1

/-- The constructor, called at `now`. -/
def PurchaseWorkflowMachine.new (now : Int) (initialContext : InitialContext)
    (onTransition : Option TransitionHook) : PurchaseWorkflowMachine :=
  { snapshot :=
      { workflowId := initialContext.workflowId, currentState := .discovery
        context :=
          { workflowId := initialContext.workflowId, delegationId := initialContext.delegationId
            userId := initialContext.userId, productId := none, merchantId := none, totalStroops := none
            escrowContractId := none, rejectionReason := none, createdAt := now
            updatedAt := now }
        history := []
        version := snapshotVersion }
    onTransition := onTransition }

def PurchaseWorkflowMachine.isTerminal (machine : PurchaseWorkflowMachine) : Bool :=
  terminalStates.contains machine.snapshot.currentState

def PurchaseWorkflowMachine.getSnapshot (machine : PurchaseWorkflowMachine) : WorkflowSnapshot :=
  { workflowId := machine.snapshot.workflowId, currentState := machine.snapshot.currentState
    context := machine.snapshot.context, history := machine.snapshot.history
    version := machine.snapshot.version }

def PurchaseWorkflowMachine.hook (machine : PurchaseWorkflowMachine)
    (record : StateTransitionRecord) : Except String Unit :=
  match machine.onTransition with
  | none => .ok ()
  | some onTransition => onTransition record

/-- The record of a transition to `nextState`. -/
def PurchaseWorkflowMachine.record (machine : PurchaseWorkflowMachine) (moment : Moment)
    (event : PurchaseEvent) (nextState : PurchaseState) : StateTransitionRecord :=
  { workflowId := machine.snapshot.workflowId, fromState := some machine.snapshot.currentState
    toState := nextState, event := event.type, context := applyContextUpdate moment.updatedAt machine.snapshot.context event
    timestamp := moment.timestamp }

/-- The machine once it has assigned its snapshot. -/
def PurchaseWorkflowMachine.advance (machine : PurchaseWorkflowMachine) (moment : Moment)
    (event : PurchaseEvent) (nextState : PurchaseState) : PurchaseWorkflowMachine :=
  { machine with
    snapshot :=
      { machine.snapshot with
        currentState := nextState
        context := applyContextUpdate moment.updatedAt machine.snapshot.context event
        history := machine.snapshot.history ++ [machine.record moment event nextState] } }

/-- What a call answers, and the machine and the store it leaves. -/
structure Sent where
  answer : Except String WorkflowSnapshot
  machine : PurchaseWorkflowMachine
  store : EventStore

def PurchaseWorkflowMachine.send (machine : PurchaseWorkflowMachine) (moment : Moment)
    (event : PurchaseEvent) (store : EventStore) : Sent :=
  if machine.isTerminal then
    ⟨.error s!"Workflow {machine.snapshot.workflowId} is in terminal state \"{machine.snapshot.currentState.name}\" and cannot accept further events",
      machine, store⟩
  else match transitions machine.snapshot.currentState event.type with
    | none =>
      ⟨.error s!"Event \"{event.type.name}\" is not valid in state \"{machine.snapshot.currentState.name}\"",
        machine, store⟩
    | some nextState =>
      let record := machine.record moment event nextState
      let machine := machine.advance moment event nextState
      match machine.hook record with
      -- The snapshot stands when the hook throws, and nothing is recorded.
      | .error thrown => ⟨.error thrown, machine, store⟩
      | .ok () => ⟨.ok machine.getSnapshot, machine, recordWorkflowEvent moment machine.snapshot.version event record store⟩

end Delego.Workflow
