import Delego.Saga.Orphans

/-! Steps that are undone twice.

`compensate` goes over all completed steps of the record it is given, also those already marked compensated. A rollback
that fails half way and is resumed therefore undoes its last steps again. -/
namespace Delego.Saga
open Delego.Process Delego.Data List Function

variable {Ctx : Type} {c : SagaCoordinator} {tr : SagaTrace Ctx} {sagaId s : String}

def Lists (r : SagaRecord Ctx) (s : String) : Prop := ∃ e ∈ r.completedSteps, e.stepName = s ∧ e.status = .compensated

def SavedUndone (tr : SagaTrace Ctx) (sagaId s : String) : Prop :=
  ∃ e ∈ tr, ∃ b, Saved e.op e.result = some b ∧ b.sagaId = sagaId ∧ Lists b s

/-- The action starts to undo a step that was undone and saved as compensated. -/
def Repeats (p : SagaPool Ctx) : Action (system c Ctx) → Prop
  | .step j _ => ∃ output s r, p.pending j = some (.start (.compensate output) s r) ∧
      Undone p.trace r.sagaId s ∧ SavedUndone p.trace r.sagaId s
  | _ => False

/-! ### Calls one after another -/

def Call.isDirect : Call Ctx → Bool
  | .run _ _ _ _ | .resume _ | .recoverAll => true
  | _ => false

/-- `run`, `resume` and `recoverAll`, each after the earlier calls have ended. -/
def oneByOne (p : SagaPool Ctx) : Action (system c Ctx) → Bool
  | .call call => p.quiet && Call.isDirect call
  | _ => true

def SagaRecord.partlyUndone (r : SagaRecord Ctx) : Bool := r.completedSteps.any fun e => decide (e.status = .compensated)

def wholeStep (p : SagaPool Ctx) (_ : Nat) (o : Op Ctx) (_ : Choice Ctx) : Bool :=
  match o with
  | .create r => (p.world.get r.sagaId).all fun stored => !(stored.status.rollingBack && stored.partlyUndone)
  | .get sagaId => (p.world.get sagaId).all fun stored => !(stored.status.rollingBack && stored.partlyUndone)
  | .pastDeadline r => !(r.pastDeadline p.world.clock && r.partlyUndone)
  | _ => true

def whole (c : SagaCoordinator) (p : SagaPool Ctx) (a : Action (system c Ctx)) : Prop :=
  oneByOne p a = true ∧ onStep wholeStep p a = true

variable {r : SagaRecord Ctx}

theorem not_partlyUndone (h : r.partlyUndone = false) : ∀ e ∈ r.completedSteps, e.status ≠ .compensated := by
  intro e he hstat
  have hnot := any_eq_false.mp h e he
  simp [hstat] at hnot

def Clean : Phase Ctx → Prop
  | .holds b todo | .cleared b todo _ | .claimed b todo | .acting b todo | .acted b todo _ =>
      b.status.rollingBack = true → ∀ e ∈ todo, e.status ≠ .compensated
  | .expired b => ∀ e ∈ b.completedSteps, e.status ≠ .compensated
  | _ => True

variable {b : SagaRecord Ctx}

theorem clean_fresh (h : b.status.rollingBack = true → ∀ e ∈ b.completedSteps, e.status ≠ .compensated) :
    Clean (Phase.fresh b) := fun hs e he => h hs e (mem_reverse.mp he)

variable {φ : Phase Ctx}

theorem Saves.clean (h : Saves c φ r) (hok : φ.Ok c) (hclean : Clean φ) (v : Nat) :
    Clean (φ.saved {r with version := v}) := by
  cases h with
  | claim => exact hclean
  | complete s t u hs hc =>
    rw [Phase.saved_acted_running hs]
    apply clean_fresh
    intro hback
    exact absurd hs (rollingBack_ne hback).1
  | fail message u hs =>
    rw [Phase.saved_claimed_running hs]
    apply clean_fresh
    intro _ e he hstat
    simp [hok.1.running hs e he] at hstat
  | undo u hs =>
    rw [Phase.saved_acted_undo hs]
    intro _ e he
    exact hclean hs e (mem_cons_of_mem _ he)
  | release u hs hφ =>
    rw [Phase.saved_release hs hφ]
    trivial
  | finish => trivial
  | undone => trivial
  | timeOut =>
    apply clean_fresh
    intro _
    exact hclean

theorem Turn.clean {w : World Ctx} {φ φ' : Phase Ctx} {o : Op Ctx}
    {result : Except SagaError o.Reply} (h : Turn c w φ o result φ') (hok : φ.Ok c)
    (hans : Answer c o result) (hclean : Clean φ)
    (hread : ∀ b, Returned o result = some b → Saved o result = none →
      b.status.rollingBack = true → ∀ e ∈ b.completedSteps, e.status ≠ .compensated)
    (hlate : ∀ r, o = .pastDeadline r → r.pastDeadline w.clock = true →
      ∀ e ∈ r.completedSteps, e.status ≠ .compensated) : Clean φ' := by
  cases h with
  | stay => exact hclean
  | read settled returned unsaved => exact clean_fresh (hread _ returned unsaved)
  | @saved _ r b saves =>
    have hb : b = {r with version := r.version + 1} := hans
    rw [hb]
    exact saves.clean hok hclean _
  | refused => cases φ <;> first | exact hclean | trivial
  | late past => exact hlate _ rfl past
  | clear => exact hclean
  | start => exact hclean
  | returned => exact hclean
  | threw => exact hclean
  | stolen => trivial

theorem read_whole {p : SagaPool Ctx} {i : Nat} {o : Op Ctx} {ch : Choice Ctx}
    (hg : wholeStep p i o ch = true) (ha : Allowed c φ o) (hans : Answer c o (perform o ch p.world).1)
    (hb : Returned o (perform o ch p.world).1 = some b) (hunsaved : Saved o (perform o ch p.world).1 = none)
    (hback : b.status.rollingBack = true) : ∀ e ∈ b.completedSteps, e.status ≠ .compensated := by
  have hw := perform_writes o ch p.world
  have hstore : p.world.get b.sagaId = some b → (p.world.get b.sagaId).all
      (fun stored => !(stored.status.rollingBack && stored.partlyUndone)) = true →
      ∀ e ∈ b.completedSteps, e.status ≠ .compensated := by
    intro hget hall
    apply not_partlyUndone
    simpa [hget, hback] using hall
  generalize (perform o ch p.world).1 = result at hb hunsaved hans hw
  cases o with
  | create r =>
    cases result with
    | error e => cases hb
    | ok stored =>
      cases hb
      cases hw with
      | same _ returned =>
        rw [wholeStep, ← hans.1] at hg
        exact hstore (returned _ rfl) hg
      | insert hnew =>
        rw [hnew, ha.2.1] at hback
        cases hback
  | get id =>
    cases result with
    | error e => cases hb
    | ok found =>
      cases hb
      cases hw with
      | same _ returned =>
        rw [← hans.1] at hg
        exact hstore (returned _ rfl) hg
  | save r =>
    cases result with
    | error e => cases hb
    | ok saved => cases hunsaved
  | _ => cases hb

theorem Saves.lists (h : Saves c φ r) (hb : φ.copy = some b) (hlists : Lists b s) : Lists r s := by
  obtain ⟨e, he, hname, hstat⟩ := hlists
  cases h with
  | complete =>
    cases hb
    exact ⟨e, mem_append_left _ he, hname, hstat⟩
  | @undo _ undone _ _ _ _ =>
    cases hb
    refine ⟨_, mem_map_of_mem he, ?_⟩
    by_cases heq : e.stepName = undone.stepName
    · rw [if_pos heq]
      exact ⟨heq ▸ hname, rfl⟩
    · rw [if_neg heq]
      exact ⟨hname, hstat⟩
  | release u hs hφ =>
    rw [release_copy hφ, Option.some.injEq] at hb
    subst hb
    exact ⟨e, he, hname, hstat⟩
  | _ =>
    cases hb
    exact ⟨e, he, hname, hstat⟩

/-- The books of calls that come one after another. -/
structure InOrder (w : World Ctx) (tr : SagaTrace Ctx) (φ : Nat → Phase Ctx) : Prop where
  /-- A call that has done nothing yet knows nothing. -/
  later : ∀ i, (∀ e ∈ tr, e.runner < i) → φ i = .idle
  /-- The copy of the last call is the stored record. -/
  current : ∀ i, (∀ e ∈ tr, e.runner ≤ i) → ∀ b, (φ i).copy = some b → w.get b.sagaId = some b
  clean : ∀ i, (∀ e ∈ tr, e.runner ≤ i) → Clean (φ i)
  lasting : ∀ sagaId s, SavedUndone tr sagaId s → ∃ r, w.get sagaId = some r ∧ Lists r s

section
variable {p : SagaPool Ctx} {φ : Nat → Phase Ctx} {i : Nat} {o : Op Ctx} {ch : Choice Ctx}

theorem InOrder.current_self (h : InOrder p.world p.trace φ) (ha : Allowed c (φ i) o)
    (hlat : ∀ e ∈ p.trace, e.runner ≤ i) {b : SagaRecord Ctx}
    (hb : ((φ i).next o (perform o ch p.world).1).copy = some b) :
    (perform o ch p.world).2.get b.sagaId = some b := by
  have hw := perform_writes o ch p.world
  rw [next_copy ha] at hb
  rcases Option.or_eq_some_iff.mp hb with hb | ⟨hnone, hb⟩
  · exact hw.returned_get hb
  · rcases hw.record (h.current i hlat b hb) with heq | ⟨r, rfl, _, _, hsaved, _⟩
    · exact heq
    · generalize (perform (.save r) ch p.world).1 = result at hnone hsaved
      cases result with
      | ok saved => cases hnone
      | error e => cases hsaved

theorem InOrder.lasting_step (h : InOrder p.world p.trace φ) (hc : Consistent c p.world φ) (ha : Allowed c (φ i) o)
    (hundone : SavedUndone (⟨i, o, (perform o ch p.world).1⟩ :: p.trace) sagaId s) :
    ∃ r, (perform o ch p.world).2.get sagaId = some r ∧ Lists r s := by
  have hw := perform_writes o ch p.world
  obtain ⟨e, he, b, hsaved, hid, hlists⟩ := hundone
  rcases mem_cons.mp he with rfl | he
  · obtain ⟨_, _, _, _, _, _, hget⟩ := hw.saved hsaved
    exact ⟨b, hid ▸ hget, hlists⟩
  · obtain ⟨r, hr, hlists⟩ := h.lasting sagaId s ⟨e, he, b, hsaved, hid, hlists⟩
    rcases hw.record hr with heq | ⟨r', rfl, hid', hver, _, hnew⟩
    · exact ⟨r, heq, hlists⟩
    · have hcopy := Saves.persisted ha (hc.copies i) (hid' ▸ hr) hver
      have hkept : Lists r' s := Saves.lists ha hcopy hlists
      exact ⟨_, hnew, hkept⟩

end

theorem inOrder_inductive (c : SagaCoordinator) :
    Inductive (system c Ctx) (protocol c Ctx) .idle (fun p a => whole c p a ∧ InTurn p)
      (fun w tr φ => Consistent c w φ ∧ InOrder w tr φ) := by
  apply (consistent_inductive c).and (fun _ _ _ => trivial)
  · intro p φ call w _ _ h hw
    refine ⟨h.later, ?_, h.clean, ?_⟩
    · intro i hlat b hb
      exact (arrive_get hw _).trans (h.current i hlat b hb)
    · intro sagaId s hundone
      obtain ⟨r, hr, hlists⟩ := h.lasting sagaId s hundone
      exact ⟨r, (arrive_get hw _).trans hr, hlists⟩
  · exact fun p φ ms _ _ h => ⟨h.later, h.current, h.clean, h.lasting⟩
  rintro p φ i o ch φ' ⟨⟨_, hg⟩, hturns⟩ hp ⟨_, _, hc⟩ h ha ⟨hans, rfl, _⟩
  have hlat := hturns.latest hp
  have hwhole : wholeStep p i o ch = true := onStep_pending hg hp
  -- a later call than the one that takes this step has done nothing
  have hidle : ∀ j, i < j → φ j = .idle := fun j hj => h.later j fun e he => lt_of_le_of_lt (hlat e he) hj
  refine ⟨?_, ?_, ?_, fun sagaId s => h.lasting_step hc ha⟩
  · intro j hlater
    have hij : i < j := hlater _ (mem_cons_self ..)
    rw [update_of_ne (by omega)]
    exact hidle j hij
  · intro j hlast b hb
    have hij : i ≤ j := hlast _ (mem_cons_self ..)
    by_cases hj : j = i
    · subst hj
      rw [update_self] at hb
      exact h.current_self ha hlat hb
    · rw [update_of_ne hj, hidle j (by omega)] at hb
      cases hb
  · intro j hlast
    have hij : i ≤ j := hlast _ (mem_cons_self ..)
    by_cases hj : j = i
    · subst hj
      rw [update_self]
      apply (turn ha ch p.world).clean (hc.ok j) hans (h.clean j hlat)
      · exact fun b => read_whole hwhole ha hans
      · rintro r rfl hpast
        apply not_partlyUndone
        simpa [wholeStep, hpast] using hwhole
    · rw [update_of_ne hj, hidle j (by omega)]
      trivial

theorem inOrder_init : InOrder (init Ctx).world [] (fun _ => .idle) where
  later := fun _ _ => rfl
  current := fun _ _ _ h => by cases h
  clean := fun _ _ => trivial
  lasting := fun _ _ ⟨_, h, _⟩ => by cases h

/-- **No step is undone twice**, over all calls that come one after another and pick up no
saga of which some step is already compensated. -/
theorem undone_once (c : SagaCoordinator) {p : SagaPool Ctx} {a : Action (system c Ctx)}
    (h : Run (system c Ctx) (whole c) (init Ctx) p) : ¬Repeats p a := by
  obtain ⟨hturns, hrun⟩ := h.strengthen (inTurn_start _) (by
    intro p a q hturns hg hstep
    refine hturns.step ?_ hstep
    rintro call rfl
    exact (Bool.and_eq_true_iff.mp hg.1).1)
  obtain ⟨φ, ht⟩ := (inOrder_inductive c).run hrun ⟨_, .start ⟨consistent_init c, inOrder_init⟩⟩
  obtain ⟨hc, hbooks⟩ := ht.holds
  cases a with
  | call call => exact id
  | drift ms => exact id
  | step j ch =>
    rintro ⟨output, s, r, hpend, _, hsaved⟩
    obtain ⟨⟨todo, hφ⟩, hcur, ⟨_, hexecute⟩ | ⟨hback, _⟩⟩ := ht.allowed hpend
    · cases hexecute
    have hlat := hturns.latest hpend
    have hget := hbooks.current j hlat r (by rw [hφ]; rfl)
    have hclean := hbooks.clean j hlat
    have hok := hc.ok j
    rw [hφ] at hclean hok
    obtain ⟨hwf, hundoing, hown⟩ := hok
    obtain ⟨e, rest, rfl, hname⟩ := hown.undoing hback hcur
    have he : e ∈ r.completedSteps := hundoing.mem hback (mem_cons_self ..)
    -- the stored record lists the step once: as compensated, and as still to undo
    obtain ⟨r', hr', e', he', hname', hstat⟩ := hbooks.lasting r.sagaId s hsaved
    rw [hget, Option.some.injEq] at hr'
    subst hr'
    have heq : e' = e := inj_on_of_nodup_map hwf.names_nodup he' he (hname'.trans hname.symm)
    rw [heq] at hstat
    exact hclean hback e (mem_cons_self ..) hstat

def marks (sagaId s : String) (e : Entry (sagaSignature Ctx)) : Bool :=
  (Saved e.op e.result).any fun b => decide (b.sagaId = sagaId) &&
    b.completedSteps.any fun e => decide (e.stepName = s) && decide (e.status = .compensated)

theorem savedUndone_of_any (h : tr.any (marks sagaId s) = true) : SavedUndone tr sagaId s := by
  obtain ⟨e, he, hmarks⟩ := any_eq_true.mp h
  obtain ⟨b, hb, hlists⟩ := (Option.any_eq_true ..).mp hmarks
  simp only [Bool.and_eq_true, decide_eq_true_eq, any_eq_true] at hlists
  exact ⟨e, he, b, hb, hlists⟩

def aboutToUndo (p : SagaPool Ctx) (j : Nat) (sagaId s : String) : Bool :=
  (p.pending j).any fun o => match o with
    | .start (.compensate _) stepName r => decide (stepName = s) && decide (r.sagaId = sagaId)
    | _ => false

theorem repeats_of {p : SagaPool Ctx} {j : Nat} (ch : Choice Ctx)
    (hstart : aboutToUndo p j sagaId s = true) (hundone : p.trace.any (undoes sagaId s) = true)
    (hsaved : p.trace.any (marks sagaId s) = true) :
    Repeats p (.step j ch : Action (system c Ctx)) := by
  obtain ⟨o, ho, hmatch⟩ := (Option.any_eq_true ..).mp hstart
  split at hmatch
  · rename_i output stepName r
    simp only [Bool.and_eq_true, decide_eq_true_eq] at hmatch
    obtain ⟨rfl, rfl⟩ := hmatch
    exact ⟨output, stepName, r, ho, undone_of_any hundone, savedUndone_of_any hsaved⟩
  · cases hmatch

/-- The second step of a checkout has failed, and the first is about to be undone. -/
theorem undone_once_checkout : ∃ p, Run (system createCheckoutSagaCoordinator Unit) (whole _) (init Unit) p ∧
      aboutToUndo p 0 "saga-1" "deposit-escrow" = true ∧
      ¬Repeats p (.step 0 Choice.normal : Action (system createCheckoutSagaCoordinator Unit)) := by
  obtain ⟨p, hp, htest⟩ := Run.exists_of_any (init Unit) (fun p a => oneByOne p a && onStep wholeStep p a)
    (.call (Call.run "saga-1" "order-1" () {}) :: advances 0 21 ++
      .step 0 (Choice.throws "checkout refused" : Choice Unit) :: advances 0 8 :
      List (Action (system createCheckoutSagaCoordinator Unit)))
    (fun p => aboutToUndo p 0 "saga-1" "deposit-escrow") (by decide)
  have hp : Run (system createCheckoutSagaCoordinator Unit) (whole _) (init Unit) p :=
    hp.mono fun _ _ h => Bool.and_eq_true_iff.mp h
  exact ⟨p, hp, htest, undone_once _ hp⟩

/-- **A step is undone again.** The second step of an escrow saga is undone, undoing the first fails, and the call
ends. `resume` starts over with the second. -/
theorem undone_again : ∃ p, Run (system createEscrowSagaCoordinator Unit) (fun p a => oneByOne p a = true) (init Unit) p ∧
      Repeats p (.step 1 Choice.normal : Action (system createEscrowSagaCoordinator Unit)) := by
  obtain ⟨p, hp, htest⟩ := Run.exists_of_any (init Unit) oneByOne
    (.call (Call.run "saga-1" "order-1" () {}) :: advances 0 32 ++
      .step 0 (Choice.throws "database error" : Choice Unit) :: advances 0 19 ++
      .step 0 (Choice.throws "inventory unreachable" : Choice Unit) :: advances 0 2 ++
      .call (Call.resume "saga-1") :: advances 1 5 :
      List (Action (system createEscrowSagaCoordinator Unit)))
    (fun p => aboutToUndo p 1 "saga-1" "submit_soroban_escrow" && p.trace.any (undoes "saga-1" "submit_soroban_escrow") &&
      p.trace.any (marks "saga-1" "submit_soroban_escrow")) (by decide)
  simp only [Bool.and_eq_true] at htest
  exact ⟨p, hp, repeats_of _ htest.1.1 htest.1.2 htest.2⟩

end Delego.Saga
