import Delego.Saga.Protocol

/-! The coordinator follows its protocol: one lemma for each method, from the helpers to the five calls (`body_follows`).

A method's precondition is the phase its caller is in; its postcondition says in which phase it returns or throws. -/
namespace Delego.Saga
open Delego.Process List

variable {Ctx : Type} {c : SagaCoordinator} {b r : SagaRecord Ctx} {φ : Phase Ctx}
  {todo : List (CompletedStep Ctx)} {s : String}

def Settles {α : Type} : Except SagaError α → Phase Ctx → Prop := fun _ φ => φ.settled = true

theorem follows_op {o : Op Ctx} {Q : Except SagaError o.Reply → Phase Ctx → Prop} (ha : Allowed c φ o)
    (h : ∀ result, Answer c o result → (φ.next o result).Ok c → Q result (φ.next o result)) :
    Follows (protocol c Ctx) φ (SagaCoordinator.op o) Q := by
  refine follows_perform ha ?_
  rintro result φ' ⟨hans, rfl, hok⟩
  exact h result hans hok

theorem follows_now {Q : Except SagaError Nat → Phase Ctx → Prop} (h : ∀ t, Q (.ok t) φ) :
    Follows (protocol c Ctx) φ (SagaCoordinator.op .now) Q := by
  refine follows_op trivial ?_
  intro result hr _
  cases result with
  | ok t => exact h t
  | error e => exact hr.elim

theorem follows_recordEvent {eventType : String} {fromStatus toStatus : Option SagaStatus}
    {payload : List (String × String)} {Q : Except SagaError Unit → Phase Ctx → Prop}
    (h : ∀ result, Q result φ) :
    Follows (protocol c Ctx) φ (SagaCoordinator.recordEvent r eventType fromStatus toStatus payload) Q := by
  exact follows_bind (follows_now fun t => follows_op trivial (forall_except (fun _ _ _ => h _) fun _ _ _ => h _))

theorem follows_save {Q : Except SagaError (SagaRecord Ctx) → Phase Ctx → Prop}
    (hsaves : ∀ u, Saves c φ {r with updatedAt := u})
    (hok : ∀ u, (φ.saved {r with updatedAt := u, version := r.version + 1}).Ok c →
      Q (.ok {r with updatedAt := u, version := r.version + 1}) (φ.saved {r with updatedAt := u, version := r.version + 1}))
    (herr : ∀ e, Q (.error e) φ.refused) :
    Follows (protocol c Ctx) φ (SagaCoordinator.save r) Q := by
  refine follows_bind (follows_now fun u => follows_op (hsaves u)
    (forall_except (fun e _ _ => herr e) fun saved hr hok' => ?_))
  have hsaved : saved = {r with updatedAt := u, version := r.version + 1} := hr
  subst hsaved
  exact hok u hok'

variable {sagaId : String}

theorem follows_releaseStepLock {Q : Except SagaError Unit → Phase Ctx → Prop} (h : ∀ result, Q result φ) :
    Follows (protocol c Ctx) φ (c.releaseStepLock sagaId s) Q := by
  unfold SagaCoordinator.releaseStepLock
  split
  · refine follows_op trivial ?_
    intro result _ _
    cases result with
    | ok _ => exact h _
    | error e => exact h _
  · exact h _

theorem follows_acquireStepLock {Q : Except SagaError Bool → Phase Ctx → Prop} (h : ∀ result, Q result φ) :
    Follows (protocol c Ctx) φ (c.acquireStepLock sagaId s) Q := by
  unfold SagaCoordinator.acquireStepLock
  split
  · refine follows_op trivial ?_
    intro result _ _
    cases result with
    | ok _ => exact h _
    | error e => exact h _
  · exact h _

theorem follows_stepLockStolen {context : Ctx} {Q : Except SagaError Bool → Phase Ctx → Prop}
    (hno : Q (.ok false) (.acted b todo context)) (hyes : Q (.ok true) (.dropped b)) :
    Follows (protocol c Ctx) (.acted b todo context) (c.stepLockStolen sagaId s) Q := by
  unfold SagaCoordinator.stepLockStolen
  split
  · rename_i hlocks
    refine follows_op hlocks ?_
    intro result hr _
    cases result with
    | ok stolen => cases stolen with
      | true => exact hyes
      | false => exact hno
    | error e => exact hr.elim
  · exact hno

def IsClaim (b : SagaRecord Ctx) (s : String) (claimed : SagaRecord Ctx) : Prop :=
  ∃ t u, claimed = {b with
    currentStep := some s, claimExpiresAt := some t, updatedAt := u, version := b.version + 1}

theorem follows_claimStep (hclaim : Claimable c b todo s)
    {Q : Except SagaError (Option (SagaRecord Ctx)) → Phase Ctx → Prop}
    (hsome : ∀ claimed, IsClaim b s claimed → (Phase.claimed claimed todo).Ok c →
      Q (.ok (some claimed)) (.claimed claimed todo))
    (hnone : ∀ φ', φ'.settled = true → Q (.ok none) φ')
    (herr : ∀ e φ', φ'.settled = true → Q (.error e) φ') :
    Follows (protocol c Ctx) (.holds b todo) (c.claimStep b s) Q := by
  refine follows_bind (follows_op ⟨todo, rfl, hclaim⟩ (forall_except (fun _ hr _ => hr.elim) fun active _ _ => ?_))
  cases active with
  | true => exact hnone _ rfl
  | false =>
    refine follows_bind (follows_acquireStepLock (forall_except (fun e => herr e _ rfl) fun granted => ?_))
    cases granted with
    | false => exact hnone _ rfl
    | true =>
      refine follows_tryCatch (follows_bind (follows_now fun t => ?_))
      refine follows_bind (follows_save (fun u => .claim _ u hclaim) ?_ ?_)
      · intro u hok
        exact hsome _ ⟨_, u, rfl⟩ hok
      · intro e
        refine follows_bind (follows_releaseStepLock (forall_except (fun e' => herr e' _ rfl) fun _ => ?_))
        cases e with
        | concurrency => exact hnone _ rfl
        | other => exact herr _ _ rfl

variable {Q : Except SagaError Ctx → Phase Ctx → Prop}

theorem follows_invoke {callback : Callback Ctx} (hcalls : Calls callback s b)
    (hok : ∀ context, Q (.ok context) (.acted b todo context)) (herr : ∀ e, Q (.error e) (.claimed b todo)) :
    Follows (protocol c Ctx) (.claimed b todo) (SagaCoordinator.invoke callback s b) Q := by
  refine follows_bind (follows_op ⟨⟨todo, rfl⟩, hcalls⟩ (forall_except (fun _ hr _ => hr.elim) fun _ _ _ => ?_))
  refine follows_op ⟨⟨todo, rfl⟩, hcalls⟩ ?_
  intro result _ _
  cases result with
  | ok context => exact hok context
  | error e => exact herr e

theorem follows_executeAttempts (step : SagaStep) (n : Nat) (hs : b.status = .running)
    (hc : b.currentStep = some step.name) (hok : ∀ context, Q (.ok context) (.acted b todo context))
    (herr : ∀ e, Q (.error e) (.claimed b todo)) :
    Follows (protocol c Ctx) (.claimed b todo) (SagaCoordinator.executeAttempts step b n) Q := by
  induction n with
  | zero => exact herr _
  | succ n ih =>
    refine follows_bind (follows_attempt (follows_invoke ⟨hc, .inl ⟨hs, rfl⟩⟩ hok ?_))
    intro e
    by_cases hstop : (!SagaCoordinator.retryable step e || decide (n = 0)) = true
    · simp only [Then, hstop, if_true]
      exact herr e
    · simp only [Then, hstop]
      exact follows_bind (follows_op trivial (forall_except (fun _ hr _ => hr.elim) fun _ _ _ => ih))

theorem follows_executeWithRetry (step : SagaStep) (hs : b.status = .running) (hc : b.currentStep = some step.name)
    (hok : ∀ context, Q (.ok context) (.acted b todo context)) (herr : ∀ e, Q (.error e) (.claimed b todo)) :
    Follows (protocol c Ctx) (.claimed b todo) (SagaCoordinator.executeWithRetry step b) Q :=
  follows_executeAttempts step _ hs hc hok herr

/-- What the caller of a rollback step needs to know: the step lock was stolen, the
entry is undone and the next one is up, or there is a record left to release. -/
def AfterUndo (c : SagaCoordinator) (b : SagaRecord Ctx) (todo : List (CompletedStep Ctx)) :
    Except SagaError (Except (SagaRecord Ctx × SagaError) (Option (SagaRecord Ctx))) →
    Phase Ctx → Prop
  | .ok (.ok none), φ => φ.settled = true
  | .ok (.ok (some saved)), φ => φ = .holds saved todo ∧ φ.Ok c ∧ saved.status = b.status
  | .ok (.error (held, _)), φ => held.status = b.status ∧ φ.settled = true ∧
      ((∃ todo', φ = .claimed held todo') ∨ φ = .dropped held ∨
        ((∃ todo', φ = .holds held todo') ∧ held.claimExpiresAt = none))
  | .error _, _ => False

theorem follows_compensateStep {e : CompletedStep Ctx} (hs : b.status.rollingBack = true)
    (hc : b.currentStep = some e.stepName) :
    Follows (protocol c Ctx) (.claimed b (e :: todo)) (c.compensateStep b e) (AfterUndo c b todo) := by
  refine follows_bind (follows_attempt (follows_bind
    (follows_invoke ⟨hc, .inr ⟨hs, _, rfl⟩⟩ (fun context => ?_) (fun err => ?_))))
  · refine follows_bind (follows_stepLockStolen ?_ ?_)
    · refine follows_bind (follows_save (fun u => .undo u hs) (fun u hok => ?_) (fun err => ?_))
      · rw [Phase.saved_acted_undo hs] at hok ⊢
        refine follows_bind (follows_attempt (follows_bind (follows_releaseStepLock
          (forall_except (fun _ => ⟨rfl, rfl, .inr (.inr ⟨⟨_, rfl⟩, rfl⟩)⟩) fun _ => ?_))))
        refine follows_recordEvent fun recorded => ?_
        cases recorded with
        | error err => exact ⟨rfl, rfl, .inr (.inr ⟨⟨_, rfl⟩, rfl⟩)⟩
        | ok _ => exact ⟨rfl, hok, rfl⟩
      · exact ⟨rfl, rfl, .inr (.inl rfl)⟩
    · exact rfl
  · exact ⟨rfl, rfl, .inl ⟨_, rfl⟩⟩

theorem step?_isSome {name : String} (h : name ∈ c.stepOrder) : ∃ step, c.step? name = some step ∧ step.name = name := by
  obtain ⟨step, hstep, rfl⟩ := mem_map.mp h
  cases hfind : c.step? step.name with
  | none =>
    have := find?_eq_none.mp hfind step hstep
    simp at this
  | some found => exact ⟨found, rfl, by simpa using find?_some hfind⟩

theorem step?_of_todo {e : CompletedStep Ctx} (hok : (Phase.holds b (e :: todo)).Ok c)
    (hs : b.status.rollingBack = true) : ∃ step, c.step? e.stepName = some step := by
  have hmem : e ∈ b.completedSteps := hok.2.1.mem hs (mem_cons_self ..)
  have hname : e.stepName ∈ b.completedNames := mem_map_of_mem hmem
  obtain ⟨step, hstep, _⟩ := step?_isSome (hok.1.progress.subset hname)
  exact ⟨step, hstep⟩

variable {claimed : SagaRecord Ctx}

theorem IsClaim.status (h : IsClaim b s claimed) : claimed.status = b.status := by
  obtain ⟨t, u, rfl⟩ := h
  rfl

theorem IsClaim.currentStep (h : IsClaim b s claimed) : claimed.currentStep = some s := by
  obtain ⟨t, u, rfl⟩ := h
  rfl

theorem IsClaim.completedSteps (h : IsClaim b s claimed) : claimed.completedSteps = b.completedSteps := by
  obtain ⟨t, u, rfl⟩ := h
  rfl

theorem follows_compensateLoop (hok : (Phase.holds b todo).Ok c) (hs : b.status.rollingBack = true) :
    Follows (protocol c Ctx) (.holds b todo) (c.compensateLoop b todo) Settles := by
  induction todo generalizing b with
  | nil =>
    refine follows_bind (follows_save (fun u => .undone u hs) (fun u _ => ?_) (fun e => rfl))
    exact follows_bind (follows_recordEvent (forall_except (fun _ => rfl) fun _ => rfl))
  | cons e rest ih =>
    obtain ⟨step, hstep⟩ := step?_of_todo hok hs
    rw [SagaCoordinator.compensateLoop, hstep]
    refine follows_bind (follows_claimStep (.inr ⟨hs, e, rest, rfl, rfl⟩) ?_ (fun _ h => h) (fun _ _ h => h))
    intro claimed hclaimed _
    have hs' : claimed.status.rollingBack = true := hclaimed.status ▸ hs
    refine follows_bind (follows_mono (follows_compensateStep hs' hclaimed.currentStep)
      (forall_except (fun _ _ hafter => hafter.elim) fun outcome _ hafter => ?_))
    cases outcome with
    | ok saved => cases saved with
      | none => exact hafter
      | some saved =>
        obtain ⟨rfl, hok', hstat⟩ := hafter
        exact ih hok' (hstat ▸ hs')
    | error failure =>
      obtain ⟨held, err⟩ := failure
      obtain ⟨hstat, hsett, hφ⟩ := hafter
      refine follows_bind (follows_releaseStepLock (forall_except (fun _ => hsett) fun _ => ?_))
      have hback : held.status.rollingBack = true := hstat ▸ hs'
      refine follows_bind (follows_save (fun u => .release (b := held) u hback hφ) ?_ ?_)
      · intro u _
        rw [Phase.saved_release hback hφ]
        exact rfl
      · intro e
        rcases hφ with ⟨_, rfl⟩ | rfl | ⟨⟨_, rfl⟩, _⟩ <;> rfl

theorem follows_compensate (hwf : WellFormed c b) (hs : b.status.rollingBack = true) :
    Follows (protocol c Ctx) (Phase.fresh b) (c.compensate b) Settles :=
  follows_compensateLoop (Phase.fresh_ok hwf) hs

theorem remaining_eq_drop (hwf : WellFormed c b) : (c.stepOrder.filter fun name => decide (name ∉ b.completedNames)) =
      c.stepOrder.drop b.completedSteps.length := by
  obtain ⟨rest, hrest⟩ := hwf.progress
  have hnodup := c.stepOrder_nodup
  rw [← completedNames_length]
  rw [← hrest] at hnodup ⊢
  rw [drop_left, filter_append]
  have hfirst : (b.completedNames.filter fun name => decide (name ∉ b.completedNames)) = [] := by simp
  have hlast : (rest.filter fun name => decide (name ∉ b.completedNames)) = rest := by
    rw [filter_eq_self]
    intro name hname
    have hdisjoint := (nodup_append.mp hnodup).2.2
    simpa using fun hmem => hdisjoint name hmem name hname rfl
  rw [hfirst, hlast, nil_append]

theorem names_of_drop_nil (hwf : WellFormed c b)
    (h : c.stepOrder.drop b.completedSteps.length = []) : b.completedNames = c.stepOrder := by
  obtain ⟨rest, hrest⟩ := hwf.progress
  rw [← hrest, ← completedNames_length, drop_left] at h
  rw [← hrest, h, append_nil]

theorem follows_advanceLoop {remaining : List String} (hwf : WellFormed c b)
    (hs : b.status = .running) (hrem : remaining = c.stepOrder.drop b.completedSteps.length) :
    Follows (protocol c Ctx) (Phase.fresh b) (c.advanceLoop b remaining) Settles := by
  induction remaining generalizing b with
  | nil =>
    refine follows_bind (follows_save (fun u => .finish u hs (names_of_drop_nil hwf hrem.symm))
      (fun u _ => ?_) (fun e => rfl))
    exact follows_bind (follows_recordEvent (forall_except (fun _ => rfl) fun _ => rfl))
  | cons name rest ih =>
    have hnext : c.stepOrder[b.completedSteps.length]? = some name := by rw [← head?_drop, ← hrem, head?_cons]
    have hrest : rest = c.stepOrder.drop (b.completedSteps.length + 1) := by rw [← tail_drop, ← hrem, tail_cons]
    obtain ⟨step, hstep, hname⟩ := step?_isSome (mem_of_getElem? hnext)
    rw [SagaCoordinator.advanceLoop, hstep]
    refine follows_bind (follows_claimStep (.inl ⟨hs, hnext⟩) ?_ (fun _ h => h) (fun _ _ h => h))
    intro claimed hclaimed _
    have hs' : claimed.status = .running := hclaimed.status.trans hs
    have hc' : claimed.currentStep = some step.name := hname ▸ hclaimed.currentStep
    refine follows_bind (follows_attempt (follows_executeWithRetry step hs' hc' ?_ ?_))
    · intro context
      refine follows_bind (follows_stepLockStolen ?_ rfl)
      refine follows_bind (follows_now fun t => ?_)
      refine follows_bind (follows_save (fun u => ?_) (fun u hok => ?_) (fun e => rfl))
      · rw [← hname]
        exact .complete step.name t u hs' hc'
      · rw [Phase.saved_acted_running hs'] at hok ⊢
        refine follows_bind (follows_releaseStepLock (forall_except (fun _ => rfl) fun _ => ?_))
        refine follows_bind (follows_recordEvent (forall_except (fun _ => rfl) fun _ => ?_))
        refine ih hok.1 hs' ?_
        rw [hrest, length_append, hclaimed.completedSteps]
        rfl
    · intro e
      refine follows_bind (follows_releaseStepLock (forall_except (fun _ => rfl) fun _ => ?_))
      refine follows_bind (follows_save (fun u => .fail _ u hs') (fun u hok => ?_) (fun e => rfl))
      rw [Phase.saved_claimed_running hs'] at hok ⊢
      exact follows_bind (follows_recordEvent (forall_except (fun _ => rfl) fun _ => follows_compensate hok.1 rfl))

theorem follows_advance (hwf : WellFormed c b) (ht : b.status.terminal = false) :
    Follows (protocol c Ctx) (Phase.fresh b) (c.advance b) Settles := by
  unfold SagaCoordinator.advance
  split
  · rename_i hs
    exact follows_compensate hwf hs
  · rename_i hs
    rcases SagaStatus.not_terminal.mp ht with hrun | hroll
    · exact follows_advanceLoop hwf hrun (remaining_eq_drop hwf)
    · exact absurd hroll hs

theorem follows_get (hφ : φ.settled = true) {Q : Except SagaError (Option (SagaRecord Ctx)) → Phase Ctx → Prop}
    (hsome : ∀ b, b.sagaId = sagaId → WellFormed c b → Q (.ok (some b)) (Phase.fresh b)) (hnone : Q (.ok none) φ)
    (herr : ∀ e, Q (.error e) φ) :
    Follows (protocol c Ctx) φ (SagaCoordinator.op (.get sagaId)) Q := by
  refine follows_op hφ ?_
  intro result hr _
  cases result with
  | error e => exact herr e
  | ok found => cases found with
    | none => exact hnone
    | some b => exact hsome b hr.1 hr.2

theorem follows_withWorkflowLock {fn : SagaM Ctx (SagaRecord Ctx)} (hφ : φ.settled = true)
    (h : Follows (protocol c Ctx) φ fn Settles) :
    Follows (protocol c Ctx) φ (c.withWorkflowLock sagaId fn) Settles := by
  unfold SagaCoordinator.withWorkflowLock
  split
  · exact h
  · refine follows_bind (follows_op trivial (forall_except (fun _ _ _ => hφ) fun acquired _ _ => ?_))
    cases acquired with
    | false => exact follows_bind (follows_get hφ (fun _ _ _ => rfl) hφ (fun _ => hφ))
    | true =>
      refine follows_bind (follows_attempt (follows_mono h ?_))
      intro outcome φ' hsett
      refine follows_bind (follows_op trivial (forall_except (fun _ _ _ => hsett) fun _ _ _ => ?_))
      cases outcome with
      | ok record => exact hsett
      | error e => exact hsett

theorem follows_resume (hφ : φ.settled = true) : Follows (protocol c Ctx) φ (c.resume sagaId) Settles := by
  refine follows_bind (follows_get hφ (fun b _ hwf => ?_) hφ (fun _ => hφ))
  show Follows (protocol c Ctx) (Phase.fresh b) (if _ then _ else _) Settles
  split
  · exact rfl
  · rename_i ht
    exact follows_withWorkflowLock rfl (follows_advance hwf (by simpa using ht))

theorem follows_scheduleRetryIfLeased (hφ : φ.settled = true) :
    Follows (protocol c Ctx) φ (SagaCoordinator.scheduleRetryIfLeased r) Settles := by
  unfold SagaCoordinator.scheduleRetryIfLeased
  split
  · exact hφ
  · split
    · exact hφ
    · refine follows_bind (follows_now fun t => ?_)
      show Follows (protocol c Ctx) φ (if _ then _ else _) Settles
      split
      · exact hφ
      · refine follows_op trivial ?_
        intro result _ _
        cases result with
        | ok _ => exact hφ
        | error e => exact hφ

theorem follows_timeOut : Follows (protocol c Ctx) (.expired b) (c.timeOut b) Settles := by
  refine follows_bind (follows_recordEvent (forall_except (fun _ => rfl) fun _ => ?_))
  refine follows_bind (follows_save (fun u => .timeOut _ u) (fun u hok => ?_) (fun e => rfl))
  exact follows_bind (follows_attempt (follows_mono (follows_compensate hok.1 rfl)
    (forall_except (fun _ _ hsett => hsett) fun _ _ hsett => hsett)))

theorem follows_scheduleRetryIfFreshlyLeased (hφ : φ.settled = true) :
    Follows (protocol c Ctx) φ (SagaCoordinator.scheduleRetryIfFreshlyLeased sagaId r) Settles := by
  unfold SagaCoordinator.scheduleRetryIfFreshlyLeased
  split
  · exact follows_bind (follows_get hφ (fun _ _ _ => follows_scheduleRetryIfLeased rfl) hφ (fun _ => hφ))
  · exact hφ

theorem follows_resumeOne (hφ : φ.settled = true) : Follows (protocol c Ctx) φ (c.resumeOne sagaId) Settles := by
  apply follows_andThen (follows_resume hφ)
  intro record φ₁ h₁
  apply follows_andThen (follows_scheduleRetryIfLeased h₁)
  intro _ φ₂ h₂
  apply follows_andThen (follows_scheduleRetryIfFreshlyLeased h₂)
  exact fun _ _ h₃ => h₃

theorem follows_recoverOne (hφ : φ.settled = true) : Follows (protocol c Ctx) φ (c.recoverOne sagaId) Settles := by
  refine follows_tryCatch (follows_bind (follows_get hφ (fun b _ hwf => ?_) hφ (fun _ => hφ)))
  refine follows_bind (follows_op ⟨_, rfl⟩ (forall_except (fun _ hr _ => hr.elim) fun expired _ _ => ?_))
  cases expired with
  | true =>
    exact follows_bind (follows_mono follows_timeOut (forall_except (fun _ _ h => h) fun _ _ h => h))
  | false =>
    exact follows_bind (follows_mono (follows_resumeOne rfl) (forall_except (fun _ _ h => h) fun _ _ h => h))

theorem follows_recoverEach (records : List (SagaRecord Ctx)) (hφ : φ.settled = true) :
    Follows (protocol c Ctx) φ (c.recoverEach records) Settles := by
  induction records generalizing φ with
  | nil => exact hφ
  | cons record rest ih =>
    apply follows_andThen (follows_recoverOne hφ)
    intro detail φ' h
    apply follows_andThen (ih h)
    exact fun _ _ h' => h'

theorem follows_recoverAll (hφ : φ.settled = true) : Follows (protocol c Ctx) φ c.recoverAll Settles := by
  refine follows_bind (follows_op trivial (forall_except (fun _ _ _ => hφ) fun records _ _ => ?_))
  apply follows_andThen (follows_recoverEach records hφ)
  exact fun _ _ h => h

theorem follows_sweep (hφ : φ.settled = true) : Follows (protocol c Ctx) φ c.sweep Settles := by
  exact follows_tryCatch (follows_bind (follows_op trivial
    (forall_except (fun _ _ _ => hφ) fun records _ _ => follows_bind (follows_mono (follows_recoverEach records hφ) (forall_except (fun _ _ h => h) fun _ _ h => h)))))

theorem follows_correlationIdOf {options : RunOptions} {Q : Except SagaError String → Phase Ctx → Prop}
    (h : ∀ id, Q (.ok id) φ) :
    Follows (protocol c Ctx) φ (SagaCoordinator.correlationIdOf options) Q := by
  unfold SagaCoordinator.correlationIdOf
  split
  · exact h _
  · refine follows_op trivial ?_
    intro result hr _
    cases result with
    | ok id => exact h id
    | error e => exact hr.elim

theorem follows_run {orderId : String} {initialContext : Ctx} {options : RunOptions} (hφ : φ.settled = true) :
    Follows (protocol c Ctx) φ (c.run sagaId orderId initialContext options) Settles := by
  refine follows_bind (follows_now fun t => ?_)
  refine follows_bind (follows_correlationIdOf fun id => ?_)
  refine follows_bind (follows_op ⟨hφ, rfl, rfl, rfl⟩ (forall_except (fun _ _ _ => hφ) fun record hr _ => ?_))
  refine follows_bind (follows_recordEvent (forall_except (fun _ => rfl) fun _ => ?_))
  show Follows (protocol c Ctx) (Phase.fresh record) (if _ then _ else _) Settles
  split
  · exact rfl
  · rename_i ht
    exact follows_withWorkflowLock rfl (follows_advance hr.2 (by simpa using ht))

theorem follows_discard {α : Type} {p : SagaM Ctx α} (h : Follows (protocol c Ctx) φ p Settles) :
    Follows (protocol c Ctx) φ (discard p) Settles := by
  apply follows_andThen h
  exact fun _ _ h' => h'

/-- **Every call of the coordinator follows the protocol.** -/
theorem body_follows (c : SagaCoordinator) (call : Call Ctx) : Follows (protocol c Ctx) .idle (body c call) Settles := by
  cases call with
  | run => exact follows_discard (follows_run rfl)
  | resume => exact follows_discard (follows_resume rfl)
  | recoverAll => exact follows_discard (follows_recoverAll rfl)
  | sweep => exact follows_sweep rfl
  | fire => exact follows_discard (follows_recoverOne rfl)

end Delego.Saga
