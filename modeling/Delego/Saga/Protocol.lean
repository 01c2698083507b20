import Delego.Saga.Coordinator

/-! What a runner of the coordinator may do, phase by phase.

Between two operations a runner holds a copy of the record, was told that a step may be claimed, owns a claim, has its
callback run, or has lost its claim; in a rollback it has steps to undo. `Saves` lists the eight writes of the
coordinator with the phase each is made from; nothing else is ever saved.

A phase is `Ok` when its copy is well formed and, in a rollback, the steps already undone are exactly those outside
`todo`: a fact about one runner alone (`next_ok`). -/
namespace Delego.Saga
open Delego.Process List

section
variable {Ctx : Type}

/-- A record that the coordinator can have written. -/
structure WellFormed (c : SagaCoordinator) (r : SagaRecord Ctx) : Prop where
  /-- Completed steps are the first ones of the order, in order. -/
  progress : r.completedNames <+: c.stepOrder
  running : r.status = .running → ∀ e ∈ r.completedSteps, e.status = .completed
  completed : r.status = .completed → r.completedNames = c.stepOrder ∧ ∀ e ∈ r.completedSteps, e.status = .completed
  compensated : r.status = .compensated → ∀ e ∈ r.completedSteps, e.status = .compensated
  /-- A claim is on the next step, or in a rollback on a completed one. -/
  claim : r.claimExpiresAt ≠ none → ∃ s, r.currentStep = some s ∧
    ((r.status = .running ∧ c.stepOrder[r.completedSteps.length]? = some s) ∨
      (r.status.rollingBack = true ∧ s ∈ r.completedNames))

inductive Phase (Ctx : Type) where
  | idle
  /-- A copy, read or saved, and no claim. -/
  | holds (b : SagaRecord Ctx) (todo : List (CompletedStep Ctx))
  /-- The deadline of the copy has passed. -/
  | expired (b : SagaRecord Ctx)
  /-- The lease test let step `s` be claimed. -/
  | cleared (b : SagaRecord Ctx) (todo : List (CompletedStep Ctx)) (s : String)
  /-- The claim is saved and no callback runs. -/
  | claimed (b : SagaRecord Ctx) (todo : List (CompletedStep Ctx))
  | acting (b : SagaRecord Ctx) (todo : List (CompletedStep Ctx))
  | acted (b : SagaRecord Ctx) (todo : List (CompletedStep Ctx)) (context : Ctx)
  /-- The save that ends the claim failed, or the step lock was stolen. -/
  | dropped (b : SagaRecord Ctx)
  /-- The last save on this copy is made. -/
  | spent (b : SagaRecord Ctx)

namespace Phase

def copy : Phase Ctx → Option (SagaRecord Ctx)
  | .idle => none
  | .holds b _ | .expired b | .cleared b _ _ | .claimed b _ | .acting b _ | .acted b _ _
  | .dropped b | .spent b => some b

def claim : Phase Ctx → Option (SagaRecord Ctx)
  | .claimed b _ | .acting b _ | .acted b _ _ | .dropped b => some b
  | _ => none

/-- No callback runs and none has just returned. -/
def settled : Phase Ctx → Bool
  | .acting _ _ | .acted _ _ _ => false
  | _ => true

end Phase

/-- The step a runner goes for: the next one, or in a rollback the first to undo. -/
def Claimable (c : SagaCoordinator) (b : SagaRecord Ctx) (todo : List (CompletedStep Ctx)) (s : String) : Prop :=
  (b.status = .running ∧ c.stepOrder[b.completedSteps.length]? = some s) ∨
    (b.status.rollingBack = true ∧ ∃ e rest, todo = e :: rest ∧ e.stepName = s)

def Undoing (b : SagaRecord Ctx) (todo : List (CompletedStep Ctx)) : Prop :=
  b.status.rollingBack = true → ∃ undone, b.completedSteps = todo.reverse ++ undone ∧ ∀ e ∈ undone, e.status = .compensated

def Unstarted (b : SagaRecord Ctx) (todo : List (CompletedStep Ctx)) : Prop :=
  todo = b.completedSteps.reverse ∨ b.claimExpiresAt = none

/-- A claimed copy: the claim is on the step the runner goes for. -/
structure Owned (c : SagaCoordinator) (b : SagaRecord Ctx) (todo : List (CompletedStep Ctx)) :
    Prop where
  leased : b.claimExpiresAt ≠ none
  step : ∃ s, b.currentStep = some s ∧ Claimable c b todo s

def Phase.Ok (c : SagaCoordinator) : Phase Ctx → Prop
  | .idle => True
  | .holds b todo => WellFormed c b ∧ Undoing b todo ∧ Unstarted b todo
  | .expired b => WellFormed c b
  | .cleared b todo s => WellFormed c b ∧ Undoing b todo ∧ Unstarted b todo ∧ Claimable c b todo s
  | .claimed b todo | .acting b todo | .acted b todo _ =>
      WellFormed c b ∧ Undoing b todo ∧ Owned c b todo
  | .dropped b => WellFormed c b ∧ b.status.terminal = false ∧ b.claimExpiresAt ≠ none
  | .spent b => WellFormed c b

/-- The eight records a coordinator saves, each with the phase it is saved from. -/
inductive Saves (c : SagaCoordinator) : Phase Ctx → SagaRecord Ctx → Prop where
  | claim {b : SagaRecord Ctx} {todo : List (CompletedStep Ctx)} {s : String} (t u : Nat) (h : Claimable c b todo s) :
      Saves c (.cleared b todo s) {b with currentStep := some s, claimExpiresAt := some t, updatedAt := u}
  | complete {b : SagaRecord Ctx} {todo : List (CompletedStep Ctx)} {context : Ctx} (s : String)
      (t u : Nat) (hs : b.status = .running) (hc : b.currentStep = some s) :
      Saves c (.acted b todo context)
        {b with
          context := context
          completedSteps := b.completedSteps ++ [⟨s, .completed, context, t, some s⟩]
          currentStep := c.stepAfter s
          claimExpiresAt := none
          updatedAt := u}
  | fail {b : SagaRecord Ctx} {todo : List (CompletedStep Ctx)} (message : String) (u : Nat) (hs : b.status = .running) :
      Saves c (.claimed b todo)
        {b with
          status := .compensating, error := some message, claimExpiresAt := none, updatedAt := u}
  | undo {b : SagaRecord Ctx} {e : CompletedStep Ctx} {todo : List (CompletedStep Ctx)}
      {context : Ctx} (u : Nat) (hs : b.status.rollingBack = true) :
      Saves c (.acted b (e :: todo) context)
        {b with
          context := context
          completedSteps := SagaCoordinator.markCompensated b.completedSteps e
          claimExpiresAt := none
          updatedAt := u}
  /-- After a failed compensation: the claim is given up, or there was none left. -/
  | release {φ : Phase Ctx} {b : SagaRecord Ctx} (u : Nat) (hs : b.status.rollingBack = true)
      (hφ : (∃ todo, φ = .claimed b todo) ∨ φ = .dropped b ∨ ((∃ todo, φ = .holds b todo) ∧ b.claimExpiresAt = none)) :
      Saves c φ {b with claimExpiresAt := none, updatedAt := u}
  | finish {b : SagaRecord Ctx} {todo : List (CompletedStep Ctx)} (u : Nat)
      (hs : b.status = .running) (hall : b.completedNames = c.stepOrder) :
      Saves c (.holds b todo) {b with status := .completed, currentStep := none, claimExpiresAt := none, updatedAt := u}
  | undone {b : SagaRecord Ctx} (u : Nat) (hs : b.status.rollingBack = true) :
      Saves c (.holds b []) {b with status := .compensated, currentStep := none, claimExpiresAt := none, updatedAt := u}
  | timeOut {b : SagaRecord Ctx} (error : Option String) (u : Nat) :
      Saves c (.expired b) {b with status := .timedOut, error := error, claimExpiresAt := none, updatedAt := u}

/-! ### The protocol -/

/-- The callback that goes with a claimed record. -/
def Calls (callback : Callback Ctx) (s : String) (r : SagaRecord Ctx) : Prop :=
  r.currentStep = some s ∧ ((r.status = .running ∧ callback = .execute) ∨
      (r.status.rollingBack = true ∧ ∃ output, callback = .compensate output))

def Allowed (c : SagaCoordinator) (φ : Phase Ctx) : Op Ctx → Prop
  | .create r => φ.settled = true ∧ r.status = .running ∧ r.completedSteps = [] ∧ r.claimExpiresAt = none
  | .get _ => φ.settled = true
  | .save r => Saves c φ r
  | .pastDeadline r => ∃ todo, φ = .holds r todo
  | .leaseActive r s => ∃ todo, φ = .holds r todo ∧ Claimable c r todo s
  | .start callback s r => (∃ todo, φ = .claimed r todo) ∧ Calls callback s r
  | .finish callback s r => (∃ todo, φ = .acting r todo) ∧ Calls callback s r
  | .wasStolen _ => c.locks = true
  | _ => True

def Answer (c : SagaCoordinator) : (o : Op Ctx) → Except SagaError o.Reply → Prop
  | .create r, .ok b => b.sagaId = r.sagaId ∧ WellFormed c b
  | .get sagaId, .ok (some b) => b.sagaId = sagaId ∧ WellFormed c b
  | .save r, .ok b => b = {r with version := r.version + 1}
  | .now, .error _ | .generateId, .error _ | .pastDeadline _, .error _ | .leaseActive _ _, .error _
  | .start _ _ _, .error _ | .sleep _, .error _ | .setTimeout _ _, .error _
  | .wasStolen _, .error _ => False
  | _, _ => True

namespace Phase

/-- A record just read, or just saved at the start of a rollback or outside one. -/
def fresh (b : SagaRecord Ctx) : Phase Ctx := .holds b b.completedSteps.reverse

def saved (b : SagaRecord Ctx) : Phase Ctx → Phase Ctx
  | .cleared _ todo _ => .claimed b todo
  | .acted old todo _ => if old.status = .running then fresh b else .holds b todo.tail
  | .claimed old _ => if old.status = .running then fresh b else .spent b
  | .expired _ => fresh b
  | _ => .spent b

def refused : Phase Ctx → Phase Ctx
  | .cleared b todo _ => .holds b todo
  | .claimed b _ | .acted b _ _ => .dropped b
  | φ => φ

def next (φ : Phase Ctx) : (o : Op Ctx) → Except SagaError o.Reply → Phase Ctx
  | .create _, .ok b => fresh b
  | .get _, .ok (some b) => fresh b
  | .save _, .ok b => φ.saved b
  | .save _, .error _ => φ.refused
  | .pastDeadline r, .ok true => .expired r
  | .leaseActive r s, .ok false => match φ with
    | .holds _ todo => .cleared r todo s
    | φ => φ
  | .start _ _ r, .ok _ => match φ with
    | .claimed _ todo => .acting r todo
    | φ => φ
  | .finish _ _ r, .ok context => match φ with
    | .acting _ todo => .acted r todo context
    | φ => φ
  | .finish _ _ r, .error _ => match φ with
    | .acting _ todo => .claimed r todo
    | φ => φ
  | .wasStolen _, .ok true => match φ with
    | .acted b _ _ => .dropped b
    | φ => φ
  | _, _ => φ

end Phase

/-- The coordinator's protocol: a reply is one the services may give, and leads to a
phase that is `Ok`. -/
def protocol (c : SagaCoordinator) (Ctx : Type) : Protocol (sagaSignature Ctx) (Phase Ctx) where
  Allowed := Allowed c
  Moves := fun φ o r φ' => Answer c o r ∧ φ' = φ.next o r ∧ φ'.Ok c

end

/-! ### Every write of the coordinator keeps records well formed, and every reply leads a runner from an `Ok` phase to an `Ok` phase (`next_ok`) -/

variable {Ctx : Type} {c : SagaCoordinator} {b r : SagaRecord Ctx} {φ : Phase Ctx}
  {todo : List (CompletedStep Ctx)} {s : String}

theorem SagaCoordinator.stepOrder_nodup (c : SagaCoordinator) : c.stepOrder.Nodup := c.distinct

theorem WellFormed.names_nodup (h : WellFormed c b) : b.completedNames.Nodup := c.stepOrder_nodup.sublist h.progress.sublist

theorem WellFormed.withVersion (h : WellFormed c r) (v : Nat) : WellFormed c {r with version := v} :=
  ⟨h.progress, h.running, h.completed, h.compensated, h.claim⟩

theorem WellFormed.initial (hs : r.status = .running) (hsteps : r.completedSteps = [])
    (hclaim : r.claimExpiresAt = none) : WellFormed c r where
  progress := by simp [SagaRecord.completedNames, hsteps]
  running := by simp [hsteps]
  completed := by simp [hs]
  compensated := by simp [hs]
  claim := fun h => absurd hclaim h

theorem markCompensated_names (steps : List (CompletedStep Ctx)) (e : CompletedStep Ctx) :
    (SagaCoordinator.markCompensated steps e).map CompletedStep.stepName =
      steps.map CompletedStep.stepName := by
  induction steps with
  | nil => rfl
  | cons a rest ih =>
    simp only [SagaCoordinator.markCompensated, map_cons, map_map] at ih ⊢
    rw [ih]
    by_cases ha : a.stepName = e.stepName
    · rw [if_pos ha, ha]
    · rw [if_neg ha]

variable {e : CompletedStep Ctx}

theorem markCompensated_other {steps : List (CompletedStep Ctx)} (h : e.stepName ∉ steps.map CompletedStep.stepName) :
    SagaCoordinator.markCompensated steps e = steps := by
  induction steps with
  | nil => rfl
  | cons a rest ih =>
    simp only [map_cons, mem_cons, not_or] at h
    have hrest := ih h.2
    simp only [SagaCoordinator.markCompensated, map_cons] at hrest ⊢
    rw [hrest, if_neg (Ne.symm h.1)]

theorem markCompensated_middle {before after : List (CompletedStep Ctx)}
    (h : ((before ++ e :: after).map CompletedStep.stepName).Nodup) :
    SagaCoordinator.markCompensated (before ++ e :: after) e = before ++ {e with status := .compensated} :: after := by
  rw [map_append, map_cons, nodup_append] at h
  obtain ⟨_, hright, hdisjoint⟩ := h
  have hpre : e.stepName ∉ before.map CompletedStep.stepName := fun hmem =>
    hdisjoint _ hmem _ (mem_cons_self ..) rfl
  have hafter : e.stepName ∉ after.map CompletedStep.stepName := (nodup_cons.mp hright).1
  have hb := markCompensated_other hpre
  have ha := markCompensated_other hafter
  unfold SagaCoordinator.markCompensated at hb ha ⊢
  rw [map_append, map_cons, hb, ha, if_pos rfl]

theorem Claimable.not_terminal (h : Claimable c b todo s) : b.status.terminal = false := by
  rw [SagaStatus.not_terminal]
  rcases h with ⟨hs, _⟩ | ⟨hs, _⟩
  · exact .inl hs
  · exact .inr hs

theorem Owned.not_terminal (h : Owned c b todo) : b.status.terminal = false := by
  obtain ⟨_, _, hs⟩ := h.step
  exact hs.not_terminal

theorem Undoing.fresh (b : SagaRecord Ctx) : Undoing b b.completedSteps.reverse := fun _ => ⟨[], by simp, by simp⟩

theorem Undoing.mem (h : Undoing b todo) (hs : b.status.rollingBack = true) (he : e ∈ todo) : e ∈ b.completedSteps := by
  obtain ⟨undone, hsplit, _⟩ := h hs
  rw [hsplit]
  exact mem_append_left _ (mem_reverse.mpr he)

theorem Claimable.wellFormed_claim (h : Claimable c b todo s) (hu : Undoing b todo) :
    (b.status = .running ∧ c.stepOrder[b.completedSteps.length]? = some s) ∨
      (b.status.rollingBack = true ∧ s ∈ b.completedNames) := by
  rcases h with h | ⟨hs, e, rest, htodo, rfl⟩
  · exact .inl h
  · have he : e ∈ todo := by
      rw [htodo]
      exact mem_cons_self ..
    exact .inr ⟨hs, mem_map_of_mem (hu.mem hs he)⟩

theorem Phase.Ok.copy (h : φ.Ok c) (hb : φ.copy = some b) : WellFormed c b := by
  cases φ with
  | idle => cases hb
  | expired => cases hb; exact h
  | holds => cases hb; exact h.1
  | cleared => cases hb; exact h.1
  | claimed => cases hb; exact h.1
  | acting => cases hb; exact h.1
  | acted => cases hb; exact h.1
  | dropped => cases hb; exact h.1
  | spent => cases hb; exact h

theorem Phase.Ok.claim_leased (h : φ.Ok c) (hb : φ.claim = some b) : b.claimExpiresAt ≠ none := by
  cases φ with
  | claimed => cases hb; exact h.2.2.leased
  | acting => cases hb; exact h.2.2.leased
  | acted => cases hb; exact h.2.2.leased
  | dropped => cases hb; exact h.2.2
  | _ => cases hb

theorem release_copy (h : (∃ todo, φ = .claimed b todo) ∨ φ = .dropped b ∨
    ((∃ todo, φ = .holds b todo) ∧ b.claimExpiresAt = none)) : φ.copy = some b := by
  rcases h with ⟨todo, rfl⟩ | rfl | ⟨⟨todo, rfl⟩, _⟩ <;> rfl

theorem progress_snoc {names order : List String} (h : names <+: order)
    (hs : order[names.length]? = some s) : names ++ [s] <+: order := by
  obtain ⟨rest, rfl⟩ := h
  rw [getElem?_append_right (Nat.le_refl _), Nat.sub_self] at hs
  cases rest with
  | nil => cases hs
  | cons a rest =>
    rw [getElem?_cons_zero, Option.some.injEq] at hs
    subst hs
    exact ⟨rest, by simp⟩

theorem completedNames_length (b : SagaRecord Ctx) : b.completedNames.length = b.completedSteps.length := length_map ..

theorem Owned.next_step (h : Owned c b todo) (hs : b.status = .running) (hc : b.currentStep = some s) :
    c.stepOrder[b.completedSteps.length]? = some s := by
  obtain ⟨s', hs', hclaim⟩ := h.step
  rw [hc, Option.some.injEq] at hs'
  subst hs'
  rcases hclaim with ⟨_, h⟩ | ⟨h, _⟩
  · exact h
  · rw [hs] at h
    cases h

theorem WellFormed.complete (h : WellFormed c b) (hs : b.status = .running) (context : Ctx) (t u : Nat)
    (hnext : c.stepOrder[b.completedSteps.length]? = some s) :
    WellFormed c {b with
      context := context
      completedSteps := b.completedSteps ++ [⟨s, .completed, context, t, some s⟩]
      currentStep := c.stepAfter s
      claimExpiresAt := none
      updatedAt := u} where
  progress := by
    simp only [SagaRecord.completedNames, map_append, map_cons, map_nil]
    apply progress_snoc h.progress
    rw [completedNames_length]
    exact hnext
  running := by
    intro _ e he
    rcases mem_append.mp he with he | he
    · exact h.running hs e he
    · rw [mem_singleton] at he
      rw [he]
  completed := fun hc => by simp [hs] at hc
  compensated := fun hc => by simp [hs] at hc
  claim := fun hc => absurd rfl hc

theorem undo_split (h : WellFormed c b) (hs : b.status.rollingBack = true) (hu : Undoing b (e :: todo)) :
    ∃ undone, SagaCoordinator.markCompensated b.completedSteps e = todo.reverse ++ undone ∧
      ∀ e' ∈ undone, e'.status = .compensated := by
  obtain ⟨undone, hsplit, hall⟩ := hu hs
  have hnodup := h.names_nodup
  rw [SagaRecord.completedNames, hsplit] at hnodup
  rw [reverse_cons, append_assoc, singleton_append] at hsplit hnodup
  refine ⟨{e with status := .compensated} :: undone, ?_, ?_⟩
  · rw [hsplit, markCompensated_middle hnodup]
  · intro e' he'
    rcases mem_cons.mp he' with rfl | he'
    · rfl
    · exact hall e' he'

theorem rollingBack_ne {st : SagaStatus} (h : st.rollingBack = true) :
    st ≠ .running ∧ st ≠ .completed ∧ st ≠ .compensated := by
  cases st <;> simp [SagaStatus.rollingBack] at h ⊢

theorem WellFormed.unclaimed (h : WellFormed c b) {steps : List (CompletedStep Ctx)}
    (hnames : steps.map CompletedStep.stepName = b.completedNames) (hr : r.completedSteps = steps)
    (hs : r.status.rollingBack = true) (hclaim : r.claimExpiresAt = none) : WellFormed c r := by
  obtain ⟨h1, h2, h3⟩ := rollingBack_ne hs
  refine ⟨?_, fun h => absurd h h1, fun h => absurd h h2, fun h => absurd h h3, fun h => absurd hclaim h⟩
  rw [SagaRecord.completedNames, hr, hnames]
  exact h.progress

/-- **Every write keeps records well formed.** -/
theorem Saves.wellFormed (h : Saves c φ r) (hok : φ.Ok c) : WellFormed c r := by
  cases h with
  | claim t u hclaim =>
    obtain ⟨hwf, hu, _⟩ := hok
    exact ⟨hwf.progress, hwf.running, hwf.completed, hwf.compensated, fun _ => ⟨_, rfl, hclaim.wellFormed_claim hu⟩⟩
  | complete s t u hs hc =>
    obtain ⟨hwf, _, hown⟩ := hok
    exact hwf.complete hs _ t u (hown.next_step hs hc)
  | fail message u hs => exact hok.1.unclaimed rfl rfl rfl rfl
  | undo u hs => exact hok.1.unclaimed (markCompensated_names _ _) rfl hs rfl
  | @release _ b u hs hφ => exact (hok.copy (release_copy hφ)).unclaimed rfl rfl hs rfl
  | finish u hs hall =>
    refine ⟨hok.1.progress, ?_, fun _ => ⟨hall, hok.1.running hs⟩, ?_, fun h => absurd rfl h⟩
    · intro h
      cases h
    · intro h
      cases h
  | undone u hs =>
    obtain ⟨hwf, hu, _⟩ := hok
    obtain ⟨undone, hsplit, hall⟩ := hu hs
    refine ⟨hwf.progress, ?_, ?_, ?_, fun h => absurd rfl h⟩
    · intro h
      cases h
    · intro h
      cases h
    · intro _ e he
      rw [reverse_nil, nil_append] at hsplit
      exact hall e (hsplit ▸ he)
  | timeOut error u => exact WellFormed.unclaimed hok rfl rfl rfl rfl

theorem Phase.fresh_ok (h : WellFormed c b) : (Phase.fresh b).Ok c := ⟨h, Undoing.fresh b, .inl rfl⟩

theorem Phase.saved_acted_running {context : Ctx} (hs : b.status = .running) :
    (Phase.acted b todo context).saved r = Phase.fresh r := if_pos hs

theorem Phase.saved_acted_undo {context : Ctx} (hs : b.status.rollingBack = true) :
    (Phase.acted b todo context).saved r = .holds r todo.tail := if_neg (rollingBack_ne hs).1

theorem Phase.saved_claimed_running (hs : b.status = .running) : (Phase.claimed b todo).saved r = Phase.fresh r := if_pos hs

theorem Phase.saved_release (hs : b.status.rollingBack = true) (hφ : (∃ todo, φ = .claimed b todo) ∨ φ = .dropped b ∨
      ((∃ todo, φ = .holds b todo) ∧ b.claimExpiresAt = none)) : φ.saved r = .spent r := by
  rcases hφ with ⟨todo, rfl⟩ | rfl | ⟨⟨todo, rfl⟩, _⟩
  · exact if_neg (rollingBack_ne hs).1
  · rfl
  · rfl

theorem Phase.saved_ok (h : Saves c φ r) (hok : φ.Ok c) (v : Nat) : (φ.saved {r with version := v}).Ok c := by
  have hwf := (h.wellFormed hok).withVersion v
  cases h with
  | claim t u hclaim =>
    obtain ⟨_, hu, _⟩ := hok
    exact ⟨hwf, hu, ⟨nofun, _, rfl, hclaim⟩⟩
  | complete s t u hs hc =>
    rw [Phase.saved_acted_running hs]
    exact Phase.fresh_ok hwf
  | undo u hs =>
    obtain ⟨hb, hu, _⟩ := hok
    rw [Phase.saved_acted_undo hs]
    exact ⟨hwf, fun _ => undo_split hb hs hu, .inr rfl⟩
  | release u hs hφ =>
    rw [Phase.saved_release hs hφ]
    exact hwf
  | fail message u hs =>
    rw [Phase.saved_claimed_running hs]
    exact Phase.fresh_ok hwf
  | finish => exact hwf
  | undone => exact hwf
  | timeOut => exact Phase.fresh_ok hwf

theorem Phase.refused_ok (hok : φ.Ok c) : φ.refused.Ok c := by
  cases φ with
  | cleared b todo s => exact ⟨hok.1, hok.2.1, hok.2.2.1⟩
  | claimed b todo => exact ⟨hok.1, hok.2.2.not_terminal, hok.2.2.leased⟩
  | acted b todo context => exact ⟨hok.1, hok.2.2.not_terminal, hok.2.2.leased⟩
  | idle => exact hok
  | holds => exact hok
  | expired => exact hok
  | acting => exact hok
  | dropped => exact hok
  | spent => exact hok

/-- **A permitted operation and an expected reply lead to an `Ok` phase.** -/
theorem Phase.next_ok {o : Op Ctx} {result : Except SagaError o.Reply} (hok : φ.Ok c)
    (ha : Allowed c φ o) (hr : Answer c o result) : (φ.next o result).Ok c := by
  cases o with
  | create r => cases result with
    | ok b => exact Phase.fresh_ok hr.2
    | error e => exact hok
  | get sagaId => cases result with
    | ok found => cases found with
      | none => exact hok
      | some b => exact Phase.fresh_ok hr.2
    | error e => exact hok
  | save r => cases result with
    | ok b =>
      have hb : b = {r with version := r.version + 1} := hr
      rw [hb]
      exact Phase.saved_ok ha hok _
    | error e => exact Phase.refused_ok hok
  | pastDeadline r =>
    obtain ⟨todo, rfl⟩ := ha
    cases result with
    | ok passed => cases passed with
      | true => exact hok.1
      | false => exact hok
    | error e => exact hok
  | leaseActive r s =>
    obtain ⟨todo, rfl, hclaim⟩ := ha
    cases result with
    | ok active => cases active with
      | true => exact hok
      | false => exact ⟨hok.1, hok.2.1, hok.2.2, hclaim⟩
    | error e => exact hok
  | start callback s r =>
    obtain ⟨⟨todo, rfl⟩, _⟩ := ha
    cases result with
    | ok _ => exact hok
    | error e => exact hok
  | finish callback s r =>
    obtain ⟨⟨todo, rfl⟩, _⟩ := ha
    cases result with
    | ok _ => exact hok
    | error e => exact hok
  | wasStolen key => cases result with
    | ok stolen => cases stolen with
      | true => cases φ with
        | acted b todo context => exact ⟨hok.1, hok.2.2.not_terminal, hok.2.2.leased⟩
        | _ => exact hok
      | false => exact hok
    | error e => exact hok
  | _ => cases result with
    | ok _ => exact hok
    | error e => exact hok

end Delego.Saga
