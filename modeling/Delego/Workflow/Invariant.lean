import Delego.Workflow.Machine

/-! What holds of a purchase workflow after any sequence of events.

A call either is refused and changes nothing or advances the machine along `transitions` (`send_cases`). -/
namespace Delego.Workflow
open PurchaseWorkflowMachine List

/-- One call of `send` in a run. -/
structure Call where
  event : PurchaseEvent
  moment : Moment

def sendAll (machine : PurchaseWorkflowMachine) (store : EventStore) : List Call → PurchaseWorkflowMachine × EventStore
  | [] => (machine, store)
  | call :: rest =>
    let sent := machine.send call.moment call.event store
    sendAll sent.machine sent.store rest

def accepted (machine : PurchaseWorkflowMachine) (store : EventStore) : List Call → List PurchaseEvent
  | [] => []
  | call :: rest =>
    let sent := machine.send call.moment call.event store
    if sent.answer.isOk then call.event :: accepted sent.machine sent.store rest
    else accepted sent.machine sent.store rest

def HookSucceeds (onTransition : Option TransitionHook) : Prop := ∀ hook ∈ onTransition, ∀ record, hook record = .ok ()

variable {machine : PurchaseWorkflowMachine}

theorem hook_ok (h : HookSucceeds machine.onTransition)
    (record : StateTransitionRecord) : machine.hook record = .ok () := by
  unfold PurchaseWorkflowMachine.hook
  cases hhook : machine.onTransition with
  | none => rfl
  | some hook => exact h hook hhook record

theorem transitions_terminal (h : machine.isTerminal = true)
    (type : EventType) : transitions machine.snapshot.currentState type = none := by
  have hstate : machine.snapshot.currentState = .completed ∨ machine.snapshot.currentState = .refunded := by
    simpa [isTerminal, terminalStates] using h
  obtain hstate | hstate := hstate <;> rw [hstate] <;> rfl

theorem send_cases (hhook : HookSucceeds machine.onTransition)
    (moment : Moment) (event : PurchaseEvent) (store : EventStore) :
    (transitions machine.snapshot.currentState event.type = none ∧
      ∃ refusal, machine.send moment event store = ⟨.error refusal, machine, store⟩) ∨
    (∃ nextState, transitions machine.snapshot.currentState event.type = some nextState ∧
      machine.send moment event store = ⟨.ok (machine.advance moment event nextState).getSnapshot,
          machine.advance moment event nextState,
          recordWorkflowEvent moment machine.snapshot.version event (machine.record moment event nextState) store⟩) := by
  cases hterminal : machine.isTerminal with
  | true =>
    left
    exact ⟨transitions_terminal hterminal _, _, if_pos hterminal⟩
  | false =>
    have hlive : ¬ machine.isTerminal = true := by simp [hterminal]
    cases hnext : transitions machine.snapshot.currentState event.type with
    | none =>
      left
      refine ⟨rfl, s!"Event \"{event.type.name}\" is not valid in state \"{machine.snapshot.currentState.name}\"", ?_⟩
      rw [send, if_neg hlive, hnext]
    | some nextState =>
      right
      refine ⟨nextState, rfl, ?_⟩
      have hkept : HookSucceeds (machine.advance moment event nextState).onTransition := hhook
      have hans : (machine.advance moment event nextState).hook (machine.record moment event nextState) =
          .ok () := hook_ok hkept _
      rw [send, if_neg hlive, hnext]
      simp only [hans]
      rfl

def Chained : PurchaseState → List StateTransitionRecord → PurchaseState → Prop
  | start, [], last => start = last
  | start, record :: rest, last => record.fromState = some start ∧ Chained record.toState rest last

theorem Chained.append {start last : PurchaseState} {history : List StateTransitionRecord}
    (h : Chained start history last) {record : StateTransitionRecord}
    (hrec : record.fromState = some last) : Chained start (history ++ [record]) record.toState := by
  induction history generalizing start with
  | nil =>
    have hstart : start = last := h
    subst hstart
    exact ⟨hrec, rfl⟩
  | cons first rest ih => exact ⟨h.1, ih h.2⟩

/-- The states after `EscrowLocking` on the success path. -/
def escrowHeld : List PurchaseState := [.merchantFulfillment, .deliveryVerification, .completed]

def PurchaseContext.Describes (context : PurchaseContext) (productId merchantId : String) (totalStroops : Int) : Prop :=
  context.productId = some productId ∧ context.merchantId = some merchantId ∧ context.totalStroops = some totalStroops

/-- The snapshot agrees with its history and with the events that led to it. -/
structure WorkflowInvariant (events : List PurchaseEvent) (snapshot : WorkflowSnapshot) : Prop where
  chained : Chained .discovery snapshot.history snapshot.currentState
  recorded : snapshot.history.map StateTransitionRecord.event = events.map PurchaseEvent.type
  found : snapshot.currentState ≠ .discovery → ∃ productId merchantId totalStroops,
    PurchaseEvent.productFound productId merchantId totalStroops ∈ events
  described : ∀ productId merchantId totalStroops, PurchaseEvent.productFound productId merchantId totalStroops ∈ events →
      snapshot.currentState ≠ .discovery ∧ snapshot.context.Describes productId merchantId totalStroops
  locked : snapshot.currentState ∈ escrowHeld → ∃ escrowContractId, PurchaseEvent.escrowLocked escrowContractId ∈ events
  escrow : ∀ escrowContractId, PurchaseEvent.escrowLocked escrowContractId ∈ events →
    snapshot.currentState ∈ .refunded :: escrowHeld ∧ snapshot.context.escrowContractId = some escrowContractId
  rejected : snapshot.currentState = .refunded → snapshot.context.rejectionReason ≠ none

theorem WorkflowInvariant.new (now : Int) (initialContext : InitialContext) (onTransition : Option TransitionHook) :
    WorkflowInvariant [] (PurchaseWorkflowMachine.new now initialContext onTransition).snapshot where
  chained := rfl
  recorded := rfl
  found h := absurd rfl h
  described _ _ _ h := absurd h (not_mem_nil)
  locked h := by simp [PurchaseWorkflowMachine.new, escrowHeld] at h
  escrow _ h := absurd h (not_mem_nil)
  rejected h := by cases h

section
variable {state nextState : PurchaseState} {type : EventType}

theorem transitions_ne_discovery (h : transitions state type = some nextState) : nextState ≠ .discovery := by
  cases state <;> cases type <;> cases h <;> decide

theorem transitions_discovery_iff (h : transitions state type = some nextState) :
    type = .productFound ↔ state = .discovery := by
  cases state <;> cases type <;> cases h <;> decide

theorem transitions_escrowLocked (h : transitions state type = some nextState)
    (htype : type = .escrowLocked) : nextState ∈ escrowHeld ∧ state ∉ .refunded :: escrowHeld := by
  subst htype
  cases state <;> cases h
  decide

theorem transitions_escrowHeld (h : transitions state type = some nextState)
    (hheld : nextState ∈ escrowHeld) : type = .escrowLocked ∨ state ∈ escrowHeld := by
  cases state <;> cases type <;> cases h <;> revert hheld <;> decide

theorem transitions_from_escrowHeld (h : transitions state type = some nextState)
    (hheld : state ∈ .refunded :: escrowHeld) : nextState ∈ .refunded :: escrowHeld := by
  cases state <;> cases type <;> cases h <;> revert hheld <;> decide

end

section
variable {now : Int} {ctx : PurchaseContext} {event : PurchaseEvent}

theorem describes_applyContextUpdate (h : event.type ≠ .productFound) {productId merchantId : String}
    {totalStroops : Int} (hctx : ctx.Describes productId merchantId totalStroops) :
    (applyContextUpdate now ctx event).Describes productId merchantId totalStroops := by
  cases event with
  | productFound => exact absurd rfl h
  | _ => exact hctx

theorem escrowContractId_applyContextUpdate (h : event.type ≠ .escrowLocked) :
    (applyContextUpdate now ctx event).escrowContractId = ctx.escrowContractId := by
  cases event with
  | escrowLocked => exact absurd rfl h
  | _ => rfl

theorem rejectionReason_applyContextUpdate {state : PurchaseState} (h : transitions state event.type = some .refunded) :
    (applyContextUpdate now ctx event).rejectionReason ≠ none := by
  cases event with
  | spendDenied | userRejected | escrowFailed | refundInitiated => simp [applyContextUpdate]
  | _ => cases state <;> cases h

end

@[simp] theorem advance_onTransition (machine : PurchaseWorkflowMachine) (moment : Moment)
    (event : PurchaseEvent) (nextState : PurchaseState) :
    (machine.advance moment event nextState).onTransition = machine.onTransition := rfl

theorem WorkflowInvariant.advance {events : List PurchaseEvent}
    (h : WorkflowInvariant events machine.snapshot) (moment : Moment) {event : PurchaseEvent}
    {nextState : PurchaseState}
    (hnext : transitions machine.snapshot.currentState event.type = some nextState) :
    WorkflowInvariant (events ++ [event]) (machine.advance moment event nextState).snapshot where
  chained := h.chained.append rfl
  recorded := by
    show (machine.snapshot.history ++ [machine.record moment event nextState]).map _ = _
    rw [map_append, map_append, h.recorded]
    rfl
  found _ := by
    by_cases hstart : machine.snapshot.currentState = .discovery
    · have htype := (transitions_discovery_iff hnext).mpr hstart
      cases event with
      | productFound productId merchantId totalStroops => exact ⟨productId, merchantId, totalStroops, by simp⟩
      | _ => cases htype
    · obtain ⟨productId, merchantId, totalStroops, hmem⟩ := h.found hstart
      exact ⟨productId, merchantId, totalStroops, mem_append_left _ hmem⟩
  described productId merchantId totalStroops hmem := by
    refine ⟨transitions_ne_discovery hnext, ?_⟩
    obtain hmem | hmem := mem_append.mp hmem
    · obtain ⟨hstart, hctx⟩ := h.described _ _ _ hmem
      have htype : event.type ≠ .productFound := fun htype => hstart ((transitions_discovery_iff hnext).mp htype)
      exact describes_applyContextUpdate htype hctx
    · obtain rfl := mem_singleton.mp hmem
      exact ⟨rfl, rfl, rfl⟩
  locked hheld := by
    obtain htype | hpre := transitions_escrowHeld hnext hheld
    · cases event with
      | escrowLocked escrowContractId => exact ⟨escrowContractId, by simp⟩
      | _ => cases htype
    · obtain ⟨escrowContractId, hmem⟩ := h.locked hpre
      exact ⟨escrowContractId, mem_append_left _ hmem⟩
  escrow escrowContractId hmem := by
    obtain hmem | hmem := mem_append.mp hmem
    · obtain ⟨hstate, hctx⟩ := h.escrow _ hmem
      have htype : event.type ≠ .escrowLocked := fun htype => (transitions_escrowLocked hnext htype).2 hstate
      exact ⟨transitions_from_escrowHeld hnext hstate, (escrowContractId_applyContextUpdate htype).trans hctx⟩
    · obtain rfl := mem_singleton.mp hmem
      exact ⟨mem_cons_of_mem _ (transitions_escrowLocked hnext rfl).1, rfl⟩
  rejected hrefunded := by
    have hstate : nextState = .refunded := hrefunded
    subst hstate
    exact rejectionReason_applyContextUpdate hnext

theorem WorkflowInvariant.sendAll {events : List PurchaseEvent}
    (h : WorkflowInvariant events machine.snapshot) (hhook : HookSucceeds machine.onTransition)
    (store : EventStore) (calls : List Call) :
    WorkflowInvariant (events ++ accepted machine store calls) (Workflow.sendAll machine store calls).1.snapshot ∧
      (Workflow.sendAll machine store calls).1.onTransition = machine.onTransition := by
  induction calls generalizing machine events store with
  | nil => simpa [Workflow.sendAll, accepted] using h
  | cons call rest ih =>
    obtain ⟨-, refusal, hsend⟩ | ⟨nextState, hnext, hsend⟩ := send_cases hhook call.moment call.event store
    · simpa [Workflow.sendAll, accepted, hsend, Except.isOk, Except.toBool] using ih h hhook store
    · have hstep := ih (h.advance call.moment hnext) hhook
        (recordWorkflowEvent call.moment machine.snapshot.version call.event
          (machine.record call.moment call.event nextState) store)
      simpa [Workflow.sendAll, accepted, hsend, Except.isOk, Except.toBool] using hstep

/-! ### The workflow -/

theorem snapshot_of_refused (hhook : HookSucceeds machine.onTransition)
    {moment : Moment} {event : PurchaseEvent} {store : EventStore} {refusal : String}
    (h : (machine.send moment event store).answer = .error refusal) :
    (machine.send moment event store).machine.snapshot = machine.snapshot := by
  obtain ⟨-, other, hsend⟩ | ⟨nextState, -, hsend⟩ := send_cases hhook moment event store
  · rw [hsend]
  · simp [hsend] at h

theorem refused_of_terminal (hhook : HookSucceeds machine.onTransition)
    (h : machine.snapshot.currentState = .completed ∨ machine.snapshot.currentState = .refunded)
    (moment : Moment) (event : PurchaseEvent) (store : EventStore) :
    ∃ refusal, (machine.send moment event store).answer = .error refusal := by
  have hterminal : machine.isTerminal = true := by simpa [isTerminal, terminalStates] using h
  obtain ⟨-, refusal, hsend⟩ | ⟨nextState, hnext, -⟩ := send_cases hhook moment event store
  · exact ⟨refusal, by rw [hsend]⟩
  · simp [transitions_terminal hterminal] at hnext

/-- After any sequence of events sent to a fresh machine whose hook does not throw, the snapshot agrees with its
history and with the accepted events. -/
theorem workflow_consistent (now : Int) (initialContext : InitialContext)
    (onTransition : Option TransitionHook) (hhook : HookSucceeds onTransition) (store : EventStore)
    (calls : List Call) :
    WorkflowInvariant (accepted (.new now initialContext onTransition) store calls)
        (sendAll (.new now initialContext onTransition) store calls).1.snapshot ∧
      ∀ (moment : Moment) (event : PurchaseEvent) (later : EventStore), (∀ refusal,
          ((sendAll (.new now initialContext onTransition) store calls).1.send moment event later).answer = .error refusal →
            ((sendAll (.new now initialContext onTransition) store calls).1.send moment event later).machine.snapshot =
              (sendAll (.new now initialContext onTransition) store calls).1.snapshot) ∧
        ((sendAll (.new now initialContext onTransition) store calls).1.snapshot.currentState = .completed ∨
            (sendAll (.new now initialContext onTransition) store calls).1.snapshot.currentState = .refunded →
          ∃ refusal, ((sendAll (.new now initialContext onTransition) store calls).1.send moment event later).answer =
              .error refusal) := by
  have hfresh := WorkflowInvariant.new now initialContext onTransition
  obtain ⟨hinvariant, hkept⟩ := hfresh.sendAll hhook store calls
  have hhook' : HookSucceeds (sendAll (.new now initialContext onTransition) store calls).1.onTransition := by
    rw [hkept]
    exact hhook
  refine ⟨hinvariant, fun moment event later => ⟨fun refusal h => snapshot_of_refused hhook' h, fun h => ?_⟩⟩
  exact refused_of_terminal hhook' h moment event later

/-! ### A purchase that goes through, with a hook -/

def buyer : InitialContext := ⟨"workflow", "delegation", "user"⟩

def quietHook : TransitionHook := fun _ => .ok ()

def momentAt (time : Int) : Moment := ⟨time, time, time, time, .ok ()⟩

def purchase : List Call :=
  [⟨.productFound "lamp" "shop" 700, momentAt 1⟩, ⟨.userApproved, momentAt 2⟩, ⟨.spendApproved, momentAt 3⟩,
    ⟨.userApproved, momentAt 4⟩,
    ⟨.escrowLocked "escrow", momentAt 5⟩,
    ⟨.fulfillmentConfirmed, momentAt 6⟩,
    ⟨.deliveryVerified, momentAt 7⟩]

theorem workflow_consistent_purchase :
    (sendAll (.new 0 buyer (some quietHook)) ⟨[], 0⟩ purchase).1.snapshot.currentState = .completed ∧
      ∃ refusal, ((sendAll (.new 0 buyer (some quietHook)) ⟨[], 0⟩ purchase).1.send (momentAt 8)
        (.refundInitiated "late") ⟨[], 0⟩).answer = .error refusal := by
  have hhook : HookSucceeds (some quietHook) := by
    intro hook hmem record
    obtain rfl := Option.mem_some_iff.mp hmem
    rfl
  have hconsistent := workflow_consistent 0 buyer (some quietHook) hhook ⟨[], 0⟩ purchase
  exact ⟨rfl, (hconsistent.2 _ _ _).2 (.inl rfl)⟩

/-! ### A call of `send` that rejects

The machine assigns its snapshot before it awaits the hook. A hook that throws therefore leaves a machine that has moved
on while its caller has been told that it has not, and the event sent again meets the next state (`send_again_refused`). -/

def PurchaseWorkflowMachine.withHook (machine : PurchaseWorkflowMachine)
    (onTransition : Option TransitionHook) : PurchaseWorkflowMachine :=
  { machine with onTransition := onTransition }

/-- One call in a run, with what the hook does in it. -/
structure Attempt extends Call where
  onTransition : Option TransitionHook

def Attempt.send (attempt : Attempt) (machine : PurchaseWorkflowMachine) (store : EventStore) : Sent :=
  (machine.withHook attempt.onTransition).send attempt.moment attempt.event store

/-- The table allows the event, and the hook throws. -/
def Attempt.throws (attempt : Attempt) (machine : PurchaseWorkflowMachine) : Bool :=
  (transitions machine.snapshot.currentState attempt.event.type).any fun nextState =>
    !((machine.withHook attempt.onTransition).hook (machine.record attempt.moment attempt.event nextState)).isOk

/-- If the attempt rejects, snapshot and store are what they were, and the same event sent again goes as if for the
first time. -/
def Attempt.Undone (attempt : Attempt) (machine : PurchaseWorkflowMachine) (store : EventStore) : Prop :=
  ∀ refusal, (attempt.send machine store).answer = .error refusal →
    (attempt.send machine store).machine.snapshot = machine.snapshot ∧ (attempt.send machine store).store = store ∧
      ∀ (moment : Moment) (onTransition : Option TransitionHook), HookSucceeds onTransition →
        ((attempt.send machine store).machine.withHook onTransition).send moment attempt.event
            (attempt.send machine store).store =
          (machine.withHook onTransition).send moment attempt.event store

section
variable {machine : PurchaseWorkflowMachine} {attempt : Attempt} {store : EventStore}

theorem send_throws (h : attempt.throws machine = true) : ∃ thrown nextState, attempt.send machine store = ⟨.error thrown,
      (machine.withHook attempt.onTransition).advance attempt.moment attempt.event nextState, store⟩ := by
  obtain ⟨nextState, hnext, hhook⟩ := (Option.any_eq_true ..).mp h
  have hlive : ¬ (machine.withHook attempt.onTransition).isTerminal = true := by
    intro hterminal
    have hnone := transitions_terminal hterminal attempt.event.type
    simp [show transitions machine.snapshot.currentState attempt.event.type = none from hnone] at hnext
  have hnext' : transitions (machine.withHook attempt.onTransition).snapshot.currentState attempt.event.type =
      some nextState := hnext
  rw [Attempt.send, PurchaseWorkflowMachine.send, if_neg hlive, hnext']
  cases hans : (machine.withHook attempt.onTransition).hook (machine.record attempt.moment attempt.event nextState) with
  | ok _ =>
    rw [hans] at hhook
    cases hhook
  | error thrown =>
    refine ⟨thrown, nextState, ?_⟩
    have hans' : ((machine.withHook attempt.onTransition).advance attempt.moment attempt.event nextState).hook
        ((machine.withHook attempt.onTransition).record attempt.moment attempt.event nextState) = .error thrown :=
      hans
    simp only [hans']

theorem send_refused (h : attempt.throws machine = false) {refusal : String}
    (href : (attempt.send machine store).answer = .error refusal) :
    attempt.send machine store = ⟨.error refusal, machine.withHook attempt.onTransition, store⟩ := by
  rw [Attempt.send, PurchaseWorkflowMachine.send] at href ⊢
  by_cases hterminal : (machine.withHook attempt.onTransition).isTerminal = true
  · rw [if_pos hterminal] at href ⊢
    cases href
    rfl
  · rw [if_neg hterminal] at href ⊢
    cases hnext : transitions (machine.withHook attempt.onTransition).snapshot.currentState attempt.event.type with
    | none =>
      rw [hnext] at href
      cases href
      rfl
    | some nextState =>
      have hok : ((machine.withHook attempt.onTransition).advance attempt.moment attempt.event nextState).hook
          ((machine.withHook attempt.onTransition).record attempt.moment attempt.event nextState) = .ok () := by
        have hnext' : transitions machine.snapshot.currentState attempt.event.type = some nextState := hnext
        rw [Attempt.throws, hnext'] at h
        cases hans : (machine.withHook attempt.onTransition).hook
            (machine.record attempt.moment attempt.event nextState) with
        | ok _ => exact hans
        | error thrown =>
          simp only [Option.any_some, hans] at h
          cases h
      rw [hnext] at href
      simp only [hok] at href
      cases href

theorem snapshot_advance_ne (machine : PurchaseWorkflowMachine) (moment : Moment) (event : PurchaseEvent)
    (nextState : PurchaseState) : (machine.advance moment event nextState).snapshot ≠ machine.snapshot := by
  intro heq
  have hlen := congrArg (fun snapshot => snapshot.history.length) heq
  simp [advance] at hlen

/-- **A rejected call is undone exactly when no hook threw**: what is left is what was there before, and the event
can be sent again. -/
theorem undone_iff (machine : PurchaseWorkflowMachine) (attempt : Attempt) (store : EventStore) :
    attempt.Undone machine store ↔ attempt.throws machine = false := by
  constructor
  · intro hundone
    by_contra hthrows
    obtain ⟨thrown, nextState, hsent⟩ : ∃ thrown nextState, attempt.send machine store = ⟨.error thrown,
        (machine.withHook attempt.onTransition).advance attempt.moment attempt.event nextState, store⟩ :=
      send_throws (eq_true_of_ne_false hthrows)
    have hkept := (hundone thrown (by rw [hsent])).1
    rw [hsent] at hkept
    exact snapshot_advance_ne _ _ _ _ hkept
  · intro hthrows refusal href
    have hsent := send_refused hthrows href
    rw [hsent]
    exact ⟨rfl, rfl, fun _ _ _ => rfl⟩

end

/-! ### A hook that fails once, when the product is found -/

def failingHook : TransitionHook := fun _ => .error "database unavailable"

def productFound (onTransition : TransitionHook) : Attempt :=
  ⟨⟨.productFound "lamp" "shop" 700, momentAt 1⟩, some onTransition⟩

/-- **A rejected call is not undone.** The event is rejected by the hook; sent again, it is not valid
in the state that the machine has moved to. -/
theorem send_again_refused :
    let machine := PurchaseWorkflowMachine.new 0 buyer none
    let rejected := (productFound failingHook).send machine ⟨[], 0⟩
    rejected.answer.isOk = false ∧ rejected.machine.snapshot.currentState = .spendingCheck ∧
      ((productFound quietHook).send rejected.machine rejected.store).answer.isOk = false ∧
      ((productFound quietHook).send machine ⟨[], 0⟩).answer.isOk = true ∧
      ¬ (productFound failingHook).Undone machine ⟨[], 0⟩ := by
  refine ⟨rfl, rfl, rfl, rfl, ?_⟩
  intro hundone
  have hkept := (hundone "database unavailable" rfl).1
  have hlen := congrArg (fun snapshot => snapshot.history.length) hkept
  cases hlen

end Delego.Workflow
