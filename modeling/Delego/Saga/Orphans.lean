import Delego.Saga.Lease

/-! Steps that were executed and never undone.

A step whose callback is still running when another runner times the saga out, or takes it over after the lease, is not
on that list when it returns, and its own save is refused. Where nobody saves over a running claim of another runner
(`soleStep`), every step that was executed gets onto the list, and a saga ends `compensated` only with all of them
undone (`no_orphans`). -/
namespace Delego.Saga
open Delego.Process Delego.Data List Option Function

variable {Ctx : Type} {c : SagaCoordinator} {tr : SagaTrace Ctx} {sagaId s : String}

def Performed : (o : Op Ctx) → Except SagaError o.Reply → Option (Callback Ctx × String × String)
  | .finish callback stepName r, .ok _ => some (callback, stepName, r.sagaId)
  | _, _ => none

/-- A runner's `execute` of the step returned. -/
def Executed (tr : SagaTrace Ctx) (sagaId s : String) : Prop :=
  ∃ e ∈ tr, Performed e.op e.result = some (.execute, s, sagaId)

/-- A runner's `compensate` of the step returned. -/
def Undone (tr : SagaTrace Ctx) (sagaId s : String) : Prop :=
  ∃ e ∈ tr, ∃ output, Performed e.op e.result = some (.compensate output, s, sagaId)

/-- What a compensated saga has executed is undone. -/
def NoOrphans (p : SagaPool Ctx) : Prop :=
  ∀ sagaId r, p.world.get sagaId = some r → r.status = .compensated →
    ∀ s, Executed p.trace sagaId s → Undone p.trace sagaId s

theorem Undone.cons (h : Undone tr sagaId s) (e : Entry (sagaSignature Ctx)) : Undone (e :: tr) sagaId s := by
  obtain ⟨e', he', h⟩ := h
  exact ⟨e', mem_cons_of_mem _ he', h⟩

def SagaRecord.executing (r : SagaRecord Ctx) : Bool := decide (r.status = .running) && r.claimExpiresAt.isSome

def savedStep (_ : SagaPool Ctx) (_ : Nat) (o : Op Ctx) (ch : Choice Ctx) : Bool :=
  match o, ch with
  | .save _, .fault _ => false
  | _, _ => true

/-- Saves reach the store, and only its holder saves over a claim for execution. -/
def soleStep (p : SagaPool Ctx) (j : Nat) (o : Op Ctx) (ch : Choice Ctx) : Bool :=
  savedStep p j o ch && match o with
    | .save r => (p.world.get r.sagaId).all fun stored =>
        !(decide (stored.version = r.version) && stored.executing) ||
          (openClaim p.trace j r.sagaId).any fun b => decide (b.version = stored.version)
    | _ => true

def sole (c : SagaCoordinator) (p : SagaPool Ctx) (a : Action (system c Ctx)) : Prop := onStep soleStep p a = true

variable {r : SagaRecord Ctx}

theorem save_passes {p : SagaPool Ctx} {j : Nat} {stored : SagaRecord Ctx} {ch : Choice Ctx}
    (hg : savedStep p j (.save r) ch = true) (hget : p.world.get r.sagaId = some stored)
    (hver : stored.version = r.version) :
    (perform (.save r) ch p.world).1 = .ok {r with version := r.version + 1} := by
  have hsave : (p.world.store.save r).1 = .ok {r with version := r.version + 1} := by
    rcases p.world.store.save_cases r with ⟨_, _, _, hcase⟩ | ⟨_, hne⟩
    · rw [hcase]
    · exact absurd hver (hne stored hget)
  cases ch with
  | fault message => cases hg
  | _ => exact hsave

def Honest (tr : SagaTrace Ctx) (r : SagaRecord Ctx) : Prop :=
  ∀ e ∈ r.completedSteps, e.status = .compensated → Undone tr r.sagaId e.stepName

theorem Honest.cons (h : Honest tr r) (e : Entry (sagaSignature Ctx)) :
    Honest (e :: tr) r := fun step hstep hstat => (h step hstep hstat).cons e

/-- The runner's `execute` of the step has returned and is not yet saved. -/
def Pending (φ : Phase Ctx) (sagaId s : String) : Prop :=
  ∃ b todo context, φ = .acted b todo context ∧ b.status = .running ∧ b.sagaId = sagaId ∧ b.currentStep = some s

def Undid (tr : SagaTrace Ctx) (φ : Phase Ctx) : Prop :=
  ∀ b todo context, φ = .acted b todo context → b.status.rollingBack = true →
    ∀ s, b.currentStep = some s → Undone tr b.sagaId s

/-- What was executed is on a record, or about to be. -/
structure Accounted (w : World Ctx) (tr : SagaTrace Ctx) (φ : Nat → Phase Ctx) : Prop where
  /-- A claim for execution is the stored record. -/
  standing : ∀ i b, (φ i).claim = some b → b.status = .running → w.get b.sagaId = some b
  /-- An executed step is on its record, or about to be. -/
  executed : ∀ sagaId s, Executed tr sagaId s →
    (∃ r, w.get sagaId = some r ∧ s ∈ r.completedNames) ∨ ∃ i, Pending (φ i) sagaId s
  undid : ∀ i, Undid tr (φ i)
  stored : ∀ r ∈ w.store.records, Honest tr r
  copies : ∀ i b, (φ i).copy = some b → Honest tr b

variable {b : SagaRecord Ctx}

theorem Saves.names {φ : Phase Ctx} (h : Saves c φ r) (hb : φ.copy = some b) (hs : s ∈ b.completedNames) :
    s ∈ r.completedNames := by
  cases h with
  | complete =>
    cases hb
    simp only [SagaRecord.completedNames, map_append, mem_append]
    exact .inl hs
  | undo =>
    cases hb
    simp only [SagaRecord.completedNames, markCompensated_names]
    exact hs
  | release u hroll hφ =>
    rw [release_copy hφ, some.injEq] at hb
    subst hb
    exact hs
  | _ =>
    cases hb
    exact hs

theorem Owned.undoing {todo : List (CompletedStep Ctx)} (h : Owned c b todo) (hs : b.status.rollingBack = true)
    (hcur : b.currentStep = some s) :
    ∃ e rest, todo = e :: rest ∧ e.stepName = s := by
  obtain ⟨s', hcur', ⟨hrunning, _⟩ | ⟨_, e, rest, htodo, rfl⟩⟩ := h.step
  · exact absurd hrunning (rollingBack_ne hs).1
  · rw [hcur, some.injEq] at hcur'
    exact ⟨e, rest, htodo, hcur'.symm⟩

theorem Owned.undo_step {e : CompletedStep Ctx} {todo : List (CompletedStep Ctx)} (h : Owned c b (e :: todo))
    (hs : b.status.rollingBack = true) : b.currentStep = some e.stepName := by
  obtain ⟨s, hcur, _⟩ := h.step
  obtain ⟨e', rest, htodo, hname⟩ := h.undoing hs hcur
  cases htodo
  rw [hcur, hname]

theorem Saves.honest {φ : Phase Ctx} (h : Saves c φ r) (hok : φ.Ok c) (hcopy : ∀ b, φ.copy = some b → Honest tr b)
    (hundid : Undid tr φ) : Honest tr r := by
  cases h with
  | @complete b =>
    intro e he hstat
    rcases mem_append.mp he with he | he
    · exact hcopy b rfl e he hstat
    · rw [mem_singleton] at he
      simp [he] at hstat
  | @undo b e todo context u hs =>
    intro e' he' hstat
    obtain ⟨old, hold, rfl⟩ := mem_map.mp he'
    by_cases hname : old.stepName = e.stepName
    · rw [if_pos hname]
      exact hundid b _ context rfl hs e.stepName (hok.2.2.undo_step hs)
    · rw [if_neg hname] at hstat ⊢
      exact hcopy b rfl old hold hstat
  | @release _ b u hs hφ => exact hcopy b (release_copy hφ)
  | @claim b => exact hcopy b rfl
  | @fail b => exact hcopy b rfl
  | @finish b => exact hcopy b rfl
  | @undone b => exact hcopy b rfl
  | @timeOut b => exact hcopy b rfl

section
variable {p : SagaPool Ctx} {φ : Nat → Phase Ctx} {i : Nat} {o : Op Ctx} {ch : Choice Ctx}

theorem Accounted.kept (hclaims : Claims p.world p.trace φ) (h : Accounted p.world p.trace φ) (hok : ∀ j, (φ j).Ok c)
    (hg : soleStep p i o ch = true) {j : Nat} {b : SagaRecord Ctx}
    (hb : (φ j).claim = some b) (hrunning : b.status = .running)
    (hother : j = i → Saved o (perform o ch p.world).1 = none) :
    (perform o ch p.world).2.get b.sagaId = some b := by
  have hget := h.standing j b hb hrunning
  rcases (perform_writes o ch p.world).record hget with
    heq | ⟨r, rfl, hid, hver, hsaved, _⟩
  · exact heq
  · -- the save is by the holder, which is `i`
    have hleased : b.claimExpiresAt.isSome = true := isSome_iff_ne_none.mpr ((hok j).claim_leased hb)
    have hexecuting : b.executing = true := by simp [SagaRecord.executing, hrunning, hleased]
    have hclaim : (openClaim p.trace i b.sagaId).any
        (fun mine => decide (mine.version = b.version)) = true := by
      have hcond := (Bool.and_eq_true_iff.mp hg).2
      simpa [hid, hget, hver, hexecuting] using hcond
    obtain ⟨mine, hmine, heq⟩ := (Option.any_eq_true ..).mp hclaim
    have hji : j = i := hclaims.unique j i b.sagaId b mine (hclaims.phases j b hb) hmine (of_decide_eq_true heq).symm
    simp [hother hji] at hsaved

theorem names_kept (hc : Consistent c p.world φ) (ha : Allowed c (φ i) o) {r : SagaRecord Ctx}
    (hget : p.world.get sagaId = some r) (hs : s ∈ r.completedNames) :
    ∃ r', (perform o ch p.world).2.get sagaId = some r' ∧ s ∈ r'.completedNames := by
  rcases (perform_writes o ch p.world).record hget with
    heq | ⟨r', rfl, hid, hver, _, hnew⟩
  · exact ⟨r, heq, hs⟩
  · have hcopy := Saves.persisted ha (hc.copies i) (hid ▸ hget) hver
    have hkept : s ∈ r'.completedNames := Saves.names ha hcopy hs
    exact ⟨_, hnew, hkept⟩

theorem Accounted.pending_kept (hlocks : c.locks = false) (h : Accounted p.world p.trace φ)
    (ha : Allowed c (φ i) o) (hg : soleStep p i o ch = true)
    (hpend : Pending (φ i) sagaId s) :
    Pending ((φ i).next o (perform o ch p.world).1) sagaId s ∨
      ∃ r, (perform o ch p.world).2.get sagaId = some r ∧ s ∈ r.completedNames := by
  have hturn := turn ha ch p.world
  have hw := perform_writes o ch p.world
  obtain ⟨b, todo, context, hφ, hrunning, rfl, hcur⟩ := hpend
  have hget := h.standing i b (by rw [hφ]; rfl) hrunning
  generalize hres : (perform o ch p.world).1 = result at hturn hw
  generalize (φ i).next o result = φ' at hturn
  rw [hφ] at hturn
  cases hturn with
  | stay => exact .inl ⟨b, todo, context, rfl, hrunning, rfl, hcur⟩
  | read settled => cases settled
  | @saved _ r b' saves =>
    right
    obtain ⟨_, _, ho, _, _, hb', hnew⟩ := hw.saved rfl
    cases ho
    cases saves with
    | complete s' t u hs hcur' =>
      rw [hcur, some.injEq] at hcur'
      subst hcur'
      rw [hb'] at hnew
      exact ⟨_, hnew, by simp [SagaRecord.completedNames]⟩
    | undo u hs => exact absurd hrunning (rollingBack_ne hs).1
    | release u hs hφ' => rcases hφ' with ⟨_, h⟩ | h | ⟨⟨_, h⟩, _⟩ <;> cases h
  | @refused _ r e saves =>
    -- the claim stands, so the save passes
    obtain ⟨_, hcopy, hid, hver⟩ := saves.copy
    cases hcopy
    simp [save_passes (Bool.and_eq_true_iff.mp hg).1 (hid ▸ hget) hver.symm] at hres
  | stolen locks =>
    rw [hlocks] at locks
    cases locks

end

section
variable {w : World Ctx} {φ φ' : Phase Ctx} {o : Op Ctx} {result : Except SagaError o.Reply}

theorem performed_finish {effect : Callback Ctx × String × String}
    (h : Performed o result = some effect) : o.isFinish = true := by
  cases o with
  | finish => rfl
  | _ => cases h

theorem Turn.executed (h : Turn c w φ o result φ')
    (he : Performed o result = some (.execute, s, sagaId)) : Pending φ' sagaId s := by
  cases h with
  | stay _ unfinished =>
    rw [performed_finish he] at unfinished
    cases unfinished
  | read _ _ _ unfinished =>
    rw [performed_finish he] at unfinished
    cases unfinished
  | @returned r todo callback _ context calls =>
    cases he
    obtain ⟨hcur, ⟨hrunning, _⟩ | ⟨_, _, hcallback⟩⟩ := calls
    · exact ⟨r, todo, context, rfl, hrunning, rfl, hcur⟩
    · cases hcallback
  | _ => cases he

theorem Turn.undid (h : Turn c w φ o result φ') (hu : Undid tr φ) (i : Nat) : Undid (⟨i, o, result⟩ :: tr) φ' := by
  intro b todo context hφ' hs s hcur
  cases h with
  | stay => exact (hu b todo context hφ' hs s hcur).cons _
  | saved =>
    cases φ with
    | acted old _ _ =>
      simp only [Phase.saved] at hφ'
      split at hφ' <;> cases hφ'
    | claimed old _ =>
      simp only [Phase.saved] at hφ'
      split at hφ' <;> cases hφ'
    | _ => cases hφ'
  | refused => cases φ <;> cases hφ'
  | returned context calls =>
    cases hφ'
    obtain ⟨hcur', ⟨hrunning, _⟩ | ⟨_, output, rfl⟩⟩ := calls
    · exact absurd hrunning (rollingBack_ne hs).1
    · rw [hcur, some.injEq] at hcur'
      subst hcur'
      exact ⟨_, mem_cons_self .., output, rfl⟩
  | _ => cases hφ'

end

theorem Accounted.honest {w w' : World Ctx} {φ : Nat → Phase Ctx} {i : Nat} {o : Op Ctx}
    {result : Except SagaError o.Reply} (h : Accounted w tr φ) (hok : (φ i).Ok c)
    (ha : Allowed c (φ i) o) (hw : Writes w o result w') : ∀ r ∈ w'.store.records, Honest tr r := by
  intro r hr
  cases hw with
  | same records =>
    rw [records] at hr
    exact h.stored r hr
  | insert hstore absent records =>
    rw [records] at hr
    rcases mem_append.mp hr with hr | hr
    · exact h.stored r hr
    · rw [mem_singleton] at hr
      intro e he
      simp [hr, hstore, ha.2.2.1] at he
  | update hsaved present version records =>
    rw [records] at hr
    obtain ⟨old, hold, rfl⟩ := mem_map.mp hr
    split
    · have hnew := Saves.honest ha hok (h.copies i) (h.undid i)
      rw [hsaved]
      exact hnew
    · exact h.stored old hold

theorem accounted_inductive (c : SagaCoordinator) (hlocks : c.locks = false) :
    Inductive (system c Ctx) (protocol c Ctx) .idle (sole c)
      (fun w tr φ => (Consistent c w φ ∧ Claims w tr φ) ∧ Accounted w tr φ) := by
  apply (claims_inductive c).and (fun _ _ _ => trivial)
  · intro p φ call w _ _ h hw
    refine ⟨?_, ?_, h.undid, ?_, h.copies⟩
    · intro i b hb hrunning
      exact (arrive_get hw _).trans (h.standing i b hb hrunning)
    · intro sagaId s he
      rcases h.executed sagaId s he with ⟨r, hr, hs⟩ | hpend
      · exact .inl ⟨r, (arrive_get hw _).trans hr, hs⟩
      · exact .inr hpend
    · rw [(arrive_store hw).1]
      exact h.stored
  · exact fun p φ ms _ _ h => ⟨h.standing, h.executed, h.undid, h.stored, h.copies⟩
  rintro p φ i o ch φ' hg hp ⟨_, _, hc, hclaims⟩ h ha ⟨_, rfl, _⟩
  have hsole : soleStep p i o ch = true := onStep_pending hg hp
  have hturn := turn ha ch p.world
  have hw := perform_writes o ch p.world
  have hhonest := h.honest (hc.ok i) ha hw
  refine ⟨?_, ?_, ?_, fun r hr => (hhonest r hr).cons _, ?_⟩
  · intro j b hb hrunning
    by_cases hj : j = i
    · subst hj
      rw [update_self] at hb
      rcases hturn.claim hb with ⟨hb, hunsaved⟩ | ⟨hsaved, _⟩
      · exact h.kept hclaims hc.ok hsole hb hrunning fun _ => hunsaved
      · obtain ⟨_, _, _, _, _, _, hget⟩ := hw.saved hsaved
        exact hget
    · rw [update_of_ne hj] at hb
      exact h.kept hclaims hc.ok hsole hb hrunning fun hji => absurd hji hj
  · intro sagaId s hexec
    obtain ⟨e, he, heffect⟩ := hexec
    rcases mem_cons.mp he with rfl | he
    · refine .inr ⟨i, ?_⟩
      rw [update_self]
      exact hturn.executed heffect
    · rcases h.executed sagaId s ⟨e, he, heffect⟩ with ⟨r, hr, hs⟩ | ⟨j, hpend⟩
      · exact .inl (names_kept hc ha hr hs)
      · by_cases hj : j = i
        · subst hj
          rcases h.pending_kept hlocks ha hsole hpend with hpend | hstore
          · refine .inr ⟨j, ?_⟩
            rw [update_self]
            exact hpend
          · exact .inl hstore
        · refine .inr ⟨j, ?_⟩
          rw [update_of_ne hj]
          exact hpend
  · apply (forall_update_iff φ (fun _ φ' => Undid _ φ')).mpr
    refine ⟨hturn.undid (h.undid i) i, fun j _ b todo context hφ hs s hcur => ?_⟩
    exact (h.undid j b todo context hφ hs s hcur).cons _
  · intro j b hb
    by_cases hj : j = i
    · subst hj
      rw [update_self, next_copy ha] at hb
      rcases or_eq_some_iff.mp hb with hb | ⟨_, hb⟩
      · exact (hhonest b (lookup_mem (hw.returned_get hb))).cons _
      · exact (h.copies j b hb).cons _
    · rw [update_of_ne hj] at hb
      exact (h.copies j b hb).cons _

theorem accounted_init : Accounted (init Ctx).world [] (fun _ => .idle) where
  standing := fun _ _ h _ => by cases h
  executed := fun _ _ ⟨_, h, _⟩ => by cases h
  undid := fun _ _ _ _ h => by cases h
  stored := fun _ h => by cases h
  copies := fun _ _ h => by cases h

/-- **No orphaned side effect**, in every run without a lock manager in which saves reach the store and only its
holder saves over a claim for execution. -/
theorem no_orphans (c : SagaCoordinator) (hlocks : c.locks = false) {p : SagaPool Ctx}
    (h : Run (system c Ctx) (sole c) (init Ctx) p) : NoOrphans p := by
  intro sagaId r hr hstat s hexec
  obtain ⟨φ, ht⟩ := (accounted_inductive c hlocks).run h ⟨_, .start ⟨⟨consistent_init c, claims_init⟩, accounted_init⟩⟩
  obtain ⟨⟨hc, _⟩, hbooks⟩ := ht.holds
  rcases hbooks.executed sagaId s hexec with
    ⟨r', hr', hs⟩ | ⟨i, b, todo, context, hφ, hrunning, rfl, _⟩
  · rw [hr, some.injEq] at hr'
    subst hr'
    obtain ⟨e, he, rfl⟩ := mem_map.mp hs
    have hundone := hbooks.stored r (lookup_mem hr) e he ((hc.get hr).compensated hstat e he)
    rw [InMemorySagaStore.get_sagaId hr] at hundone
    exact hundone
  · have hstore := hbooks.standing i b (by rw [hφ]; rfl) hrunning
    rw [hr, some.injEq] at hstore
    simp [hstore, hrunning] at hstat

def executes (sagaId s : String) (e : Entry (sagaSignature Ctx)) : Bool :=
  match Performed e.op e.result with
  | some (.execute, stepName, id) => decide (stepName = s) && decide (id = sagaId)
  | _ => false

def undoes (sagaId s : String) (e : Entry (sagaSignature Ctx)) : Bool :=
  match Performed e.op e.result with
  | some (.compensate _, stepName, id) => decide (stepName = s) && decide (id = sagaId)
  | _ => false

theorem executed_of_any (h : tr.any (executes sagaId s) = true) : Executed tr sagaId s := by
  obtain ⟨e, he, h⟩ := any_eq_true.mp h
  refine ⟨e, he, ?_⟩
  unfold executes at h
  split at h
  · rename_i heffect
    simp only [Bool.and_eq_true, decide_eq_true_eq] at h
    rw [heffect, h.1, h.2]
  · cases h

theorem undone_of_any (h : tr.any (undoes sagaId s) = true) : Undone tr sagaId s := by
  obtain ⟨e, he, h⟩ := any_eq_true.mp h
  unfold undoes at h
  split at h
  · rename_i output stepName id heffect
    simp only [Bool.and_eq_true, decide_eq_true_eq] at h
    refine ⟨e, he, output, ?_⟩
    rw [heffect, h.1, h.2]
  · cases h

theorem not_undone_of_any (h : tr.any (undoes sagaId s) = false) : ¬Undone tr sagaId s := by
  rintro ⟨e, he, output, heffect⟩
  have hnot := any_eq_false.mp h e he
  simp [undoes, heffect] at hnot

/-- The second step of a checkout fails, and the first is undone. -/
theorem no_orphans_checkout : ∃ p r, Run (system createCheckoutSagaCoordinator Unit) (sole _) (init Unit) p ∧
      p.world.get "saga-1" = some r ∧ r.status = .compensated ∧
      Executed p.trace "saga-1" "deposit-escrow" ∧ Undone p.trace "saga-1" "deposit-escrow" := by
  obtain ⟨p, hp, htest⟩ := Run.exists_of_any (init Unit) (onStep soleStep)
    (.call (Call.run "saga-1" "order-1" () {}) :: advances 0 21 ++
      .step 0 (Choice.throws "checkout refused" : Choice Unit) :: advances 0 18 :
      List (Action (system createCheckoutSagaCoordinator Unit)))
    (fun p => ((p.world.get "saga-1").any fun r => r.status = .compensated) &&
      p.trace.any (executes "saga-1" "deposit-escrow")) (by decide)
  obtain ⟨hrec, hany⟩ := Bool.and_eq_true_iff.mp htest
  obtain ⟨r, hr, hstat⟩ := (Option.any_eq_true ..).mp hrec
  have hstat : r.status = .compensated := of_decide_eq_true hstat
  have hexec := executed_of_any hany
  exact ⟨p, r, hp, hr, hstat, hexec, no_orphans _ rfl hp _ r hr hstat _ hexec⟩

/-- **An orphan.** The first step of a checkout is still running at the deadline; the sweeper sets the saga to
`compensated`; then the step returns. -/
theorem orphaned_execute : ∃ p, createCheckoutSagaCoordinator.locks = false ∧
      Run (system createCheckoutSagaCoordinator Unit) (fun p a => onStep savedStep p a = true)
        (init Unit) p ∧ ¬NoOrphans p := by
  obtain ⟨p, hp, htest⟩ := Run.exists_of_any (init Unit) (onStep savedStep)
    (.call (Call.run "saga-1" "order-1" () {}) :: advances 0 10 ++ .drift (300000 : Nat) ::
      .call Call.sweep :: advances 1 11 ++ advances 0 1 :
      List (Action (system createCheckoutSagaCoordinator Unit)))
    (fun p => ((p.world.get "saga-1").any fun r => r.status = .compensated) &&
      p.trace.any (executes "saga-1" "deposit-escrow") &&
      !p.trace.any (undoes "saga-1" "deposit-escrow")) (by decide)
  simp only [Bool.and_eq_true, Bool.not_eq_true'] at htest
  obtain ⟨⟨hrec, hexec⟩, hundone⟩ := htest
  obtain ⟨r, hr, hstat⟩ := (Option.any_eq_true ..).mp hrec
  refine ⟨p, rfl, hp, fun h => ?_⟩
  exact not_undone_of_any hundone (h "saga-1" r hr (of_decide_eq_true hstat) _ (executed_of_any hexec))

end Delego.Saga
