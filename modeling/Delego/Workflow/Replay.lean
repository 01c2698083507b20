import Delego.Workflow.Invariant

/-! Reconstruction of a workflow from its stored events (`PurchaseWorkflowMachine.fromEventReplay`).

A replay sends the stored events to a fresh machine, and sending is what records. So the
replay itself adds to the events that it has read (`stored_sendEach`), and a second replay
meets the first event twice. -/
namespace Delego.Workflow
open PurchaseWorkflowMachine List

/-- Sends the events one after another and stops at the first that throws. -/
def sendEach (machine : PurchaseWorkflowMachine) (store : EventStore) :
    List Call → Except String PurchaseWorkflowMachine × EventStore
  | [] => (.ok machine, store)
  | call :: rest =>
    let sent := machine.send call.moment call.event store
    match sent.answer with
    | .error thrown => (.error thrown, sent.store)
    | .ok _ => sendEach sent.machine sent.store rest

/-- The calls of a replay; `moments` are the readings of the clock at each of them. -/
def replayCalls (moments : Nat → Moment) (events : List WorkflowEventRecord) : List Call :=
  events.mapIdx fun i event => ⟨event.payload, moments i⟩

def fromEventReplay (now : Int) (moments : Nat → Moment) (workflowId : String)
    (initialContext : InitialContext) (onTransition : Option TransitionHook) (store : EventStore) :
    Except String PurchaseWorkflowMachine × EventStore :=
  let events := store.getEvents workflowId
  if events.length = 0 then (.error s!"No events found for workflow {workflowId}", store)
  else sendEach (.new now initialContext onTransition) store (replayCalls moments events)

def PurchaseContext.untimed (context : PurchaseContext) : PurchaseContext := { context with createdAt := 0, updatedAt := 0 }

def StateTransitionRecord.move (record : StateTransitionRecord) : Option PurchaseState × PurchaseState × EventType :=
  (record.fromState, record.toState, record.event)

/-- The same state, the same context up to timestamps, the same states and events in the history. -/
structure Agrees (a b : WorkflowSnapshot) : Prop where
  currentState : a.currentState = b.currentState
  context : a.context.untimed = b.context.untimed
  history : a.history.map StateTransitionRecord.move = b.history.map StateTransitionRecord.move

/-- A replay gives a machine that agrees with the original and leaves the stored events of the
workflow as they were. -/
def Reconstructs (original : WorkflowSnapshot) (workflowId : String) (before : EventStore)
    (replayed : Except String PurchaseWorkflowMachine × EventStore) : Prop :=
  (∃ machine, replayed.1 = .ok machine ∧ Agrees machine.snapshot original) ∧
    replayed.2.getEvents workflowId = before.getEvents workflowId

def EventStore.stored (store : EventStore) (workflowId : String) : List WorkflowEventRecord :=
  store.events.filter fun e => decide (e.workflowId = workflowId)

theorem length_getEvents (store : EventStore) (workflowId : String) :
    (store.getEvents workflowId).length = (store.stored workflowId).length :=
  length_insertionSort _ _

variable {store : EventStore}

theorem getEvents_of_ordered {workflowId : String}
    (h : (store.stored workflowId).Pairwise fun a b => a.recordedAt ≤ b.recordedAt) :
    store.getEvents workflowId = store.stored workflowId :=
  h.insertionSort_eq

variable {machine : PurchaseWorkflowMachine}

theorem send_accepted {moment : Moment} {event : PurchaseEvent} {snapshot : WorkflowSnapshot}
    (h : (machine.send moment event store).answer = .ok snapshot) :
    ∃ nextState, transitions machine.snapshot.currentState event.type = some nextState ∧
      (machine.send moment event store).machine = machine.advance moment event nextState ∧
      (machine.send moment event store).store =
        recordWorkflowEvent moment machine.snapshot.version event (machine.record moment event nextState) store := by
  cases hterminal : machine.isTerminal with
  | true =>
    simp [send, if_pos hterminal] at h
  | false =>
    have hlive : ¬ machine.isTerminal = true := by simp [hterminal]
    cases hnext : transitions machine.snapshot.currentState event.type with
    | none =>
      simp [send, if_neg hlive, hnext] at h
    | some nextState =>
      rw [send, if_neg hlive, hnext] at h ⊢
      cases hhook : (machine.advance moment event nextState).hook (machine.record moment event nextState) with
      | error thrown =>
        simp only [hhook] at h
        cases h
      | ok =>
        refine ⟨nextState, rfl, ?_, ?_⟩ <;> simp only [hhook]
        rfl

variable {last : PurchaseWorkflowMachine} {call : Call} {rest : List Call}

theorem sendEach_cons (h : (sendEach machine store (call :: rest)).1 = .ok last) :
    ∃ nextState, transitions machine.snapshot.currentState call.event.type = some nextState ∧
      ∀ more, sendEach machine store (call :: more) =
        sendEach (machine.advance call.moment call.event nextState)
          (recordWorkflowEvent call.moment machine.snapshot.version call.event
            (machine.record call.moment call.event nextState) store) more := by
  cases hans : (machine.send call.moment call.event store).answer with
  | error thrown =>
    simp only [sendEach, hans] at h
    cases h
  | ok snapshot =>
    obtain ⟨nextState, hnext, hmachine, hstore⟩ := send_accepted hans
    refine ⟨nextState, hnext, fun more => ?_⟩
    simp only [sendEach, hans, hmachine, hstore]

theorem stored_recordWorkflowEvent {moment : Moment} (h : moment.recording = .ok ()) (version : Nat)
    (event : PurchaseEvent) (record : StateTransitionRecord) (store : EventStore) :
    (recordWorkflowEvent moment version event record store).stored record.workflowId =
      store.stored record.workflowId ++ [createWorkflowEventRecord moment store version event record] := by
  simp [EventStore.stored, recordWorkflowEvent, h, createWorkflowEventRecord]

/-- What the events of a run look like once they are stored. -/
structure Recorded (calls : List Call) (records : List WorkflowEventRecord) : Prop where
  payloads : records.map WorkflowEventRecord.payload = calls.map Call.event
  times : records.map WorkflowEventRecord.recordedAt = calls.map fun call => call.moment.recordedAt

variable {calls : List Call}

theorem stored_sendEach (hrecording : ∀ call ∈ calls, call.moment.recording = .ok ())
    (h : (sendEach machine store calls).1 = .ok last) :
    ∃ records, Recorded calls records ∧ (sendEach machine store calls).2.stored machine.snapshot.workflowId =
        store.stored machine.snapshot.workflowId ++ records := by
  induction calls generalizing machine store with
  | nil => exact ⟨[], ⟨rfl, rfl⟩, by simp [sendEach]⟩
  | cons call rest ih =>
    obtain ⟨nextState, -, hsent⟩ := sendEach_cons h
    have hhead := hrecording call mem_cons_self
    rw [hsent] at h ⊢
    obtain ⟨records, hrecs, hstored⟩ := ih (fun c hc => hrecording c (mem_cons_of_mem _ hc)) h
    have hgrown := stored_recordWorkflowEvent hhead machine.snapshot.version call.event
      (machine.record call.moment call.event nextState) store
    refine ⟨createWorkflowEventRecord call.moment store machine.snapshot.version call.event
      (machine.record call.moment call.event nextState) :: records, ⟨?_, ?_⟩, ?_⟩
    · rw [map_cons, map_cons, hrecs.payloads]
      rfl
    · rw [map_cons, map_cons, hrecs.times]
      rfl
    · refine hstored.trans ?_
      show EventStore.stored _ (machine.record call.moment call.event nextState).workflowId ++ records = _
      rw [hgrown, append_assoc]
      rfl

theorem getEvents_sendEach (hrecording : ∀ call ∈ calls, call.moment.recording = .ok ())
    (h : (sendEach machine store calls).1 = .ok last)
    (htimes : ((store.stored machine.snapshot.workflowId).map WorkflowEventRecord.recordedAt ++
      calls.map fun call => call.moment.recordedAt).Pairwise (· ≤ ·)) :
    ∃ records, Recorded calls records ∧ (sendEach machine store calls).2.stored machine.snapshot.workflowId =
        store.stored machine.snapshot.workflowId ++ records ∧
      (sendEach machine store calls).2.getEvents machine.snapshot.workflowId =
        store.stored machine.snapshot.workflowId ++ records := by
  obtain ⟨records, hrecs, hstored⟩ := stored_sendEach hrecording h
  refine ⟨records, hrecs, hstored, ?_⟩
  rw [getEvents_of_ordered, hstored]
  rw [hstored]
  rwa [← pairwise_map (f := WorkflowEventRecord.recordedAt) (R := (· ≤ ·)), map_append, hrecs.times]

theorem untimed_applyContextUpdate (now : Int) (context : PurchaseContext) (event : PurchaseEvent) :
    (applyContextUpdate now context event).untimed = applyContextUpdate 0 context.untimed event := by
  cases event <;> rfl

theorem Agrees.advance {a b : PurchaseWorkflowMachine} (h : Agrees a.snapshot b.snapshot)
    (moment moment' : Moment) (event : PurchaseEvent) (nextState : PurchaseState) :
    Agrees (a.advance moment event nextState).snapshot (b.advance moment' event nextState).snapshot where
  currentState := rfl
  context := by
    show (applyContextUpdate _ _ event).untimed = (applyContextUpdate _ _ event).untimed
    rw [untimed_applyContextUpdate, untimed_applyContextUpdate, h.context]
  history := by
    show (a.snapshot.history ++ [_]).map _ = (b.snapshot.history ++ [_]).map _
    rw [map_append, map_append, h.history]
    simp [PurchaseWorkflowMachine.record, StateTransitionRecord.move, h.currentState]

/-- What one machine accepted, another that agrees with it accepts too, at whatever times and
on whatever store, and they go on agreeing. -/
theorem sendEach_agrees {a b : PurchaseWorkflowMachine} (h : Agrees b.snapshot a.snapshot)
    (hhook : HookSucceeds b.onTransition) {calls' : List Call}
    (hevents : calls'.map Call.event = calls.map Call.event) (hlast : (sendEach a store calls).1 = .ok last)
    (store' : EventStore) :
    ∃ last', (sendEach b store' calls').1 = .ok last' ∧ Agrees last'.snapshot last.snapshot := by
  induction calls generalizing a b store store' calls' with
  | nil =>
    obtain rfl : calls' = [] := by simpa using hevents
    obtain rfl : a = last := by simpa [sendEach] using hlast
    exact ⟨b, rfl, h⟩
  | cons call rest ih =>
    obtain ⟨call', rest', rfl, hevent, hrest⟩ := map_eq_cons_iff.mp hevents
    obtain ⟨nextState, hnext, hsent⟩ := sendEach_cons hlast
    rw [hsent, ← hevent] at hlast
    rw [← h.currentState, ← hevent] at hnext
    obtain ⟨hnone, -⟩ | ⟨nextState', hnext', hsend⟩ := send_cases hhook call'.moment call'.event store'
    · simp [hnext] at hnone
    · obtain rfl : nextState = nextState' := Option.some.inj (hnext.symm.trans hnext')
      simp only [sendEach, hsend]
      exact ih (h.advance _ _ _ _) hhook hrest hlast _

theorem Agrees.new (now now' : Int) (initialContext : InitialContext) (hook hook' : Option TransitionHook) :
    Agrees (PurchaseWorkflowMachine.new now initialContext hook).snapshot
      (PurchaseWorkflowMachine.new now' initialContext hook').snapshot :=
  ⟨rfl, rfl, rfl⟩

theorem sendEach_append (h : (sendEach machine store calls).1 = .ok last) (more : List Call) :
    sendEach machine store (calls ++ more) = sendEach last (sendEach machine store calls).2 more := by
  induction calls generalizing machine store with
  | nil =>
    obtain rfl : machine = last := by simpa [sendEach] using h
    rfl
  | cons call rest ih =>
    obtain ⟨nextState, -, hsent⟩ := sendEach_cons h
    rw [hsent] at h
    rw [cons_append, hsent, hsent]
    exact ih h

theorem past_discovery (h : (sendEach machine store (call :: rest)).1 = .ok last) :
    last.snapshot.currentState ≠ .discovery := by
  induction rest generalizing machine store call with
  | nil =>
    obtain ⟨nextState, hnext, hsent⟩ := sendEach_cons h
    rw [hsent] at h
    obtain rfl : machine.advance call.moment call.event nextState = last := by simpa [sendEach] using h
    exact transitions_ne_discovery hnext
  | cons next rest ih =>
    obtain ⟨nextState, -, hsent⟩ := sendEach_cons h
    rw [hsent] at h
    exact ih h

theorem first_productFound {now : Int} {initialContext : InitialContext} {hook : Option TransitionHook} (h : (sendEach (.new now initialContext hook) store (call :: rest)).1 = .ok last) :
    call.event.type = .productFound := by
  obtain ⟨nextState, hnext, -⟩ := sendEach_cons h
  exact (transitions_discovery_iff hnext).mpr rfl

theorem sendEach_throws (hstate : machine.snapshot.currentState ≠ .discovery) (htype : call.event.type = .productFound)
    (store : EventStore) (rest : List Call) :
    ∃ thrown, (sendEach machine store (call :: rest)).1 = .error thrown := by
  cases hans : (machine.send call.moment call.event store).answer with
  | error thrown => exact ⟨thrown, by simp only [sendEach, hans]⟩
  | ok snapshot =>
    obtain ⟨nextState, hnext, -, -⟩ := send_accepted hans
    exact absurd ((transitions_discovery_iff hnext).mp htype) hstate

section
variable {now : Int} {moments : Nat → Moment} {initialContext : InitialContext}
  {onTransition : Option TransitionHook} {store : EventStore}

theorem fromEventReplay_of_stored (now : Int) (moments : Nat → Moment)
    (onTransition : Option TransitionHook) (h : store.getEvents initialContext.workflowId ≠ []) :
    fromEventReplay now moments initialContext.workflowId initialContext onTransition store =
      sendEach (.new now initialContext onTransition) store
        (replayCalls moments (store.getEvents initialContext.workflowId)) :=
  if_neg fun hlen => h (length_eq_zero_iff.mp hlen)

theorem events_replayCalls (moments : Nat → Moment) (events : List WorkflowEventRecord) :
    (replayCalls moments events).map Call.event = events.map WorkflowEventRecord.payload := by
  apply ext_getElem
  · simp [replayCalls]
  · simp [replayCalls]

theorem times_replayCalls (moments : Nat → Moment) (events : List WorkflowEventRecord) :
    (replayCalls moments events).map (fun call => call.moment.recordedAt) =
      (range events.length).map fun i => (moments i).recordedAt := by
  apply ext_getElem
  · simp [replayCalls]
  · simp [replayCalls]

theorem replayCalls_cons (moments : Nat → Moment) (event : WorkflowEventRecord) (rest : List WorkflowEventRecord) :
    replayCalls moments (event :: rest) = ⟨event.payload, moments 0⟩ :: replayCalls (fun i => moments (i + 1)) rest :=
  mapIdx_cons

theorem replayCalls_append (moments : Nat → Moment) (events more : List WorkflowEventRecord) :
    replayCalls moments (events ++ more) =
      replayCalls moments events ++ replayCalls (fun i => moments (i + events.length)) more :=
  mapIdx_append

theorem recording_replayCalls (h : ∀ i, (moments i).recording = .ok ()) {events : List WorkflowEventRecord} :
    ∀ call ∈ replayCalls moments events, call.moment.recording = .ok () := by
  intro call hcall
  obtain ⟨i, -, rfl⟩ := mem_mapIdx.mp hcall
  exact h i

/-- A replay that returns has added to the stored events: whatever is stored, it does not
leave the store as it was. -/
theorem not_reconstructs (h : ∀ i, (moments i).recording = .ok ()) (original : WorkflowSnapshot) :
    ¬ Reconstructs original initialContext.workflowId store
      (fromEventReplay now moments initialContext.workflowId initialContext onTransition store) := by
  rintro ⟨⟨machine, hmachine, -⟩, hstored⟩
  by_cases hempty : store.getEvents initialContext.workflowId = []
  · simp [fromEventReplay, hempty] at hmachine
  · rw [fromEventReplay_of_stored _ _ _ hempty] at hmachine hstored
    obtain ⟨records, hrecs, hgrown⟩ := stored_sendEach (recording_replayCalls h) hmachine
    have hnew : records.length = (store.getEvents initialContext.workflowId).length := by
      have hlen := congrArg length hrecs.payloads
      simpa [replayCalls] using hlen
    have hlen := congrArg length hstored
    rw [length_getEvents, length_getEvents] at hlen
    have hsum := congrArg length hgrown
    rw [length_append] at hsum
    have hpos := length_pos_iff.mpr hempty
    have heq : (PurchaseWorkflowMachine.new now initialContext onTransition).snapshot.workflowId =
        initialContext.workflowId := rfl
    rw [heq] at hsum
    omega

theorem sendEach_twice_throws {createdAt : Int} {hook : Option TransitionHook} {before : EventStore}
    {calls : List Call} {machine : PurchaseWorkflowMachine} {records copies : List WorkflowEventRecord}
    (hacc : (sendEach (.new createdAt initialContext hook) before calls).1 = .ok machine)
    (hcalls : calls ≠ []) (hhook : HookSucceeds onTransition)
    (hrecs : records.map WorkflowEventRecord.payload = calls.map Call.event)
    (hcopies : copies.map WorkflowEventRecord.payload = calls.map Call.event) :
    ∃ thrown, (sendEach (.new now initialContext onTransition) store
      (replayCalls moments (records ++ copies))).1 = .error thrown := by
  obtain ⟨call, rest, rfl⟩ := exists_cons_of_ne_nil hcalls
  have hfirst := first_productFound hacc
  obtain ⟨record, others, rfl, -, -⟩ := map_eq_cons_iff.mp hrecs
  obtain ⟨copy, more, rfl, hcopy, -⟩ := map_eq_cons_iff.mp hcopies
  have hevents := (events_replayCalls moments (record :: others)).trans hrecs
  obtain ⟨reached, hreach, -⟩ := sendEach_agrees
    (Agrees.new now createdAt initialContext onTransition hook) hhook hevents hacc store
  rw [replayCalls_append, sendEach_append hreach]
  rw [replayCalls_cons _ copy]
  rw [replayCalls_cons] at hreach
  rw [← hcopy] at hfirst
  exact sendEach_throws (past_discovery hreach) hfirst _ _

end

def recordingTimes (calls : List Call) (moments : Nat → Moment) : List Int :=
  calls.map (fun call => call.moment.recordedAt) ++ (range calls.length).map fun i => (moments i).recordedAt

/-- The first replay of a workflow reconstructs it and stores every event a second time; the
second replay throws. -/
theorem replay_once {createdAt now now' : Int} {initialContext : InitialContext}
    {hook onTransition : Option TransitionHook} {before store : EventStore} {moments moments' : Nat → Moment}
    (hacc : sendEach (.new createdAt initialContext hook) before calls = (.ok machine, store))
    (hcalls : calls ≠ []) (hhook : HookSucceeds onTransition) (hpre : before.stored initialContext.workflowId = [])
    (hrecording : ∀ call ∈ calls, call.moment.recording = .ok ()) (hmoments : ∀ i, (moments i).recording = .ok ())
    (htimes : (recordingTimes calls moments).Pairwise (· ≤ ·)) :
    ∃ replayed after, fromEventReplay now moments initialContext.workflowId initialContext onTransition store =
        (.ok replayed, after) ∧
      Agrees replayed.snapshot machine.snapshot ∧
      (after.getEvents initialContext.workflowId).map WorkflowEventRecord.payload =
        calls.map Call.event ++ calls.map Call.event ∧
      ∃ thrown, (fromEventReplay now' moments' initialContext.workflowId initialContext onTransition
        after).1 = .error thrown := by
  have hrun : (sendEach (.new createdAt initialContext hook) before calls).1 = .ok machine := by rw [hacc]
  have hwhole : ((before.stored initialContext.workflowId).map WorkflowEventRecord.recordedAt ++
      calls.map fun call => call.moment.recordedAt).Pairwise (· ≤ ·) := by
    rw [hpre]
    exact (pairwise_append.mp htimes).1
  obtain ⟨records, hrecs, hstored, hread⟩ := getEvents_sendEach hrecording hrun hwhole
  rw [hacc] at hstored hread
  have hstored₁ : store.stored initialContext.workflowId = records := by
    refine hstored.trans ?_
    show before.stored initialContext.workflowId ++ records = records
    rw [hpre, nil_append]
  have hread₁ : store.getEvents initialContext.workflowId = records := hread.trans (hstored.symm.trans hstored₁)
  have hlen : records.length = calls.length := by simpa using congrArg length hrecs.payloads
  have hne : records ≠ [] := by
    intro h
    rw [h] at hlen
    exact hcalls (length_eq_zero_iff.mp hlen.symm)
  -- The first replay sends the stored events to a fresh machine.
  have hfirst := fromEventReplay_of_stored now moments onTransition (hread₁ ▸ hne)
  rw [hread₁] at hfirst
  have hevents := (events_replayCalls moments records).trans hrecs.payloads
  obtain ⟨replayed, hreplayed, hagr⟩ := sendEach_agrees
    (Agrees.new now createdAt initialContext onTransition hook) hhook hevents hrun store
  have hordered : ((store.stored initialContext.workflowId).map WorkflowEventRecord.recordedAt ++
      (replayCalls moments records).map fun call => call.moment.recordedAt).Pairwise (· ≤ ·) := by
    rw [hstored₁, hrecs.times, times_replayCalls, hlen]
    exact htimes
  obtain ⟨copies, hcopies, -, hread₂⟩ := getEvents_sendEach (recording_replayCalls hmoments) hreplayed hordered
  have hread₃ : (sendEach (.new now initialContext onTransition) store
      (replayCalls moments records)).2.getEvents initialContext.workflowId = records ++ copies := by
    refine hread₂.trans ?_
    show store.stored initialContext.workflowId ++ copies = _
    rw [hstored₁]
  have hpayloads := hcopies.payloads.trans hevents
  refine ⟨replayed, _, hfirst.trans (Prod.ext hreplayed rfl), hagr, ?_, ?_⟩
  · rw [hread₃, map_append, hrecs.payloads, hpayloads]
  · rw [fromEventReplay_of_stored _ _ _ (by rw [hread₃]; simp [hne]), hread₃]
    exact sendEach_twice_throws hrun hcalls hhook hrecs.payloads hpayloads

/-- No replay that records does what is relied on. Of a workflow that has an event and no other history the first
replay is right all the same, and the second throws. -/
theorem replay_disturbs {createdAt : Int} {initialContext : InitialContext}
    {hook : Option TransitionHook} {before store : EventStore} {calls : List Call}
    {machine : PurchaseWorkflowMachine} (now now' : Int) (onTransition : Option TransitionHook)
    (moments moments' : Nat → Moment)
    (hacc : sendEach (.new createdAt initialContext hook) before calls = (.ok machine, store))
    (hmoments : ∀ i, (moments i).recording = .ok ()) :
    ¬ (Reconstructs machine.snapshot initialContext.workflowId store
          (fromEventReplay now moments initialContext.workflowId initialContext onTransition store) ∧
        Reconstructs machine.snapshot initialContext.workflowId
          (fromEventReplay now moments initialContext.workflowId initialContext onTransition store).2
          (fromEventReplay now' moments' initialContext.workflowId initialContext onTransition
            (fromEventReplay now moments initialContext.workflowId initialContext onTransition store).2)) ∧
      (calls ≠ [] → HookSucceeds onTransition → before.stored initialContext.workflowId = [] →
        (∀ call ∈ calls, call.moment.recording = .ok ()) →
        (recordingTimes calls moments).Pairwise (· ≤ ·) → ∃ replayed after,
            fromEventReplay now moments initialContext.workflowId initialContext onTransition store =
              (.ok replayed, after) ∧
            Agrees replayed.snapshot machine.snapshot ∧
            (after.getEvents initialContext.workflowId).map WorkflowEventRecord.payload =
              calls.map Call.event ++ calls.map Call.event ∧
            ∃ thrown, (fromEventReplay now' moments' initialContext.workflowId initialContext onTransition
              after).1 = .error thrown) := by
  refine ⟨fun h => not_reconstructs hmoments _ h.1, ?_⟩
  intro hcalls hhook hpre hrecording htimes
  exact replay_once hacc hcalls hhook hpre hrecording hmoments htimes

/-! ### A workflow with one event, replayed twice -/

def foundCalls : List Call := [⟨.productFound "lamp" "shop" 700, momentAt 1⟩]

def foundMachine : PurchaseWorkflowMachine := (sendAll (.new 0 buyer none) ⟨[], 0⟩ foundCalls).1

def foundStore : EventStore := (sendAll (.new 0 buyer none) ⟨[], 0⟩ foundCalls).2

def foundReplay : Except String PurchaseWorkflowMachine × EventStore :=
  fromEventReplay 2 (fun _ => momentAt 2) buyer.workflowId buyer none foundStore

def foundReplayAgain : Except String PurchaseWorkflowMachine × EventStore :=
  fromEventReplay 3 (fun _ => momentAt 3) buyer.workflowId buyer none foundReplay.2

theorem replay_disturbs_found : sendEach (.new 0 buyer none) ⟨[], 0⟩ foundCalls = (.ok foundMachine, foundStore) ∧
      ¬ (Reconstructs foundMachine.snapshot buyer.workflowId foundStore foundReplay ∧
          Reconstructs foundMachine.snapshot buyer.workflowId foundReplay.2 foundReplayAgain) ∧
      ∃ replayed after, foundReplay = (.ok replayed, after) ∧
        Agrees replayed.snapshot foundMachine.snapshot := by
  have hacc : sendEach (.new 0 buyer none) ⟨[], 0⟩ foundCalls = (.ok foundMachine, foundStore) := rfl
  have hhook : HookSucceeds none := by
    intro hook hmem
    cases hmem
  obtain ⟨hnever, honce⟩ := replay_disturbs 2 3 none (fun _ => momentAt 2) (fun _ => momentAt 3) hacc fun _ => rfl
  obtain ⟨replayed, after, hreplayed, hagr, -, -⟩ := honce (by decide) hhook rfl (by decide) (by decide)
  exact ⟨hacc, hnever, replayed, after, hreplayed, hagr⟩

/-- The first replay leaves two events where there was one, and the second throws. -/
theorem replay_of_found : sendEach (.new 0 buyer none) ⟨[], 0⟩ foundCalls = (.ok foundMachine, foundStore) ∧
      ¬ (Reconstructs foundMachine.snapshot buyer.workflowId foundStore foundReplay ∧
          Reconstructs foundMachine.snapshot buyer.workflowId foundReplay.2 foundReplayAgain) ∧
      (foundStore.getEvents buyer.workflowId).length = 1 ∧
      (foundReplay.2.getEvents buyer.workflowId).length = 2 ∧
      foundReplayAgain.1 = .error "Event \"PRODUCT_FOUND\" is not valid in state \"SpendingCheck\"" := by
  have hone : (foundStore.getEvents buyer.workflowId).length = 1 := rfl
  have htwo : (foundReplay.2.getEvents buyer.workflowId).length = 2 := rfl
  refine ⟨rfl, ?_, hone, htwo, rfl⟩
  rintro ⟨⟨-, hkept⟩, -⟩
  have hlen := congrArg length hkept
  simp [hone, htwo] at hlen

end Delego.Workflow
