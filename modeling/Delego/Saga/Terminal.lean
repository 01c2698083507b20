import Delego.Saga.Turns

/-! Finality of a finished saga.

`run` and `resume` return at once on a finished record, but `recoverOne` tests the deadline before it looks at the
status, and a runner whose claim was overtaken still starts its callback. -/
namespace Delego.Saga
open Delego.Process Delego.Data List Function

section
variable {Ctx : Type} {c : SagaCoordinator}

def starts (sagaId : String) (e : Entry (sagaSignature Ctx)) : Bool :=
  match e.op with
  | .start _ _ r => decide (r.sagaId = sagaId)
  | _ => false

/-- The record at `p` kept its status and its steps up to `q`, and no callback of the
saga started in between. -/
structure Untouched (sagaId : String) (r : SagaRecord Ctx) (p q : SagaPool Ctx) : Prop where
  record : ∃ r', q.world.get sagaId = some r' ∧ r'.status = r.status ∧ r'.completedSteps = r.completedSteps
  callbacks : ∃ later, q.trace = later ++ p.trace ∧ ∀ e ∈ later, starts sagaId e = false

/-- The claim in `r` is the last save of its saga. -/
def standing (w : World Ctx) (r : SagaRecord Ctx) : Bool :=
  (w.get r.sagaId).any fun stored => decide (stored.version = r.version)

/-- A finished saga is not tested after its deadline, and a callback starts only under
a claim that stands. -/
def orderlyStep (p : SagaPool Ctx) (_ : Nat) (o : Op Ctx) (_ : Choice Ctx) : Bool :=
  match o with
  | .pastDeadline r => !(r.status.terminal && r.pastDeadline p.world.clock)
  | .start _ _ r => standing p.world r
  | _ => true

def orderly (c : SagaCoordinator) (p : SagaPool Ctx) (a : Action (system c Ctx)) : Prop := onStep orderlyStep p a = true

/-- No runner is about to time out a finished saga. -/
def Unfinished (φ : Nat → Phase Ctx) : Prop := ∀ i b, φ i = .expired b → b.status.terminal = false

theorem unfinished_inductive (c : SagaCoordinator) : Inductive (system c Ctx) (protocol c Ctx) .idle (orderly c)
      (fun w _ φ => Consistent c w φ ∧ Unfinished φ) := by
  apply (consistent_inductive c).and (fun _ _ _ => trivial) (fun _ _ _ _ _ _ h _ => h) (fun _ _ _ _ _ h => h)
  rintro p φ i o ch φ' hg hp _ h ha ⟨_, rfl, _⟩ j b hb
  by_cases hj : j = i
  · subst hj
    rw [update_self] at hb
    rcases (turn ha ch p.world).expired hb with hb | ⟨rfl, hpast⟩
    · exact h j b hb
    · have hcond : orderlyStep p j (.pastDeadline b) ch = true := onStep_pending hg hp
      simpa [orderlyStep, hpast] using hcond
  · rw [update_of_ne hj] at hb
    exact h j b hb

theorem Saves.unfinished {φ : Phase Ctx} {r : SagaRecord Ctx} (h : Saves c φ r)
    (hφ : ∀ b, φ = .expired b → b.status.terminal = false) {b : SagaRecord Ctx}
    (hb : φ.copy = some b) : b.status.terminal = false := by
  rw [SagaStatus.not_terminal]
  cases h with
  | claim t u hclaim =>
    cases hb
    rw [← SagaStatus.not_terminal]
    exact hclaim.not_terminal
  | complete s t u hs hc =>
    cases hb
    exact .inl hs
  | fail message u hs =>
    cases hb
    exact .inl hs
  | undo u hs =>
    cases hb
    exact .inr hs
  | release u hs hφ =>
    rw [release_copy hφ, Option.some.injEq] at hb
    subst hb
    exact .inr hs
  | finish u hs hall =>
    cases hb
    exact .inl hs
  | undone u hs =>
    cases hb
    exact .inr hs
  | timeOut error u =>
    cases hb
    rw [← SagaStatus.not_terminal]
    exact hφ _ rfl

section
variable {p q : SagaPool Ctx} {φ : Nat → Phase Ctx} {i : Nat} {o : Op Ctx} {ch : Choice Ctx}
  {sagaId : String} {r : SagaRecord Ctx}

theorem terminal_kept (hc : Consistent c p.world φ) (hu : Unfinished φ) (ha : Allowed c (φ i) o)
    (hr : p.world.get sagaId = some r) (ht : r.status.terminal = true) :
    (perform o ch p.world).2.get sagaId = some r := by
  rcases (perform_writes o ch p.world).record hr with heq | ⟨s, rfl, hid, hver, _, _⟩
  · exact heq
  · have hcopy := Saves.persisted ha (hc.copies i) (hid ▸ hr) hver
    have hopen := Saves.unfinished ha (hu i) hcopy
    simp [ht] at hopen

theorem start_unfinished (hc : Consistent c p.world φ) {callback : Callback Ctx} {s : String}
    {b : SagaRecord Ctx} (ha : Allowed c (φ i) (.start callback s b))
    (hstands : standing p.world b = true) (hr : p.world.get b.sagaId = some r) :
    r.status.terminal = false := by
  obtain ⟨⟨todo, hφ⟩, _⟩ := ha
  have hver : r.version = b.version := by simpa [standing, hr] using hstands
  have hcopy : Copy p.world b := hc.copies i b (by rw [hφ]; rfl)
  have hok := hc.ok i
  rw [hφ] at hok
  rw [hcopy.eq hr hver]
  exact hok.2.2.not_terminal

theorem terminal_step {a : Action (system c Ctx)} (hg : orderly c p a)
    (htracked : Tracked (protocol c Ctx) .idle (fun w _ φ => Consistent c w φ ∧ Unfinished φ) p φ)
    (hstep : p.step (system c Ctx) a = some q) (hr : p.world.get sagaId = some r)
    (ht : r.status.terminal = true) :
    q.world.get sagaId = some r ∧ ∃ new, q.trace = new ++ p.trace ∧ ∀ e ∈ new, starts sagaId e = false := by
  obtain ⟨hc, hu⟩ := htracked.holds
  rcases step_cases hstep with ⟨hstore, heq⟩ | ⟨i, ch, o, rfl, hpend, hworld, hnew⟩
  · refine ⟨?_, [], heq, by simp⟩
    show q.world.store.get sagaId = some r
    rw [hstore]
    exact hr
  · have ha := htracked.allowed hpend
    refine ⟨?_, [_], hnew, ?_⟩
    · rw [hworld]
      exact terminal_kept hc hu ha hr ht
    · simp only [mem_singleton, forall_eq]
      cases o with
      | start callback s b =>
        have hstands : orderlyStep p i (.start callback s b) ch = true := onStep_pending hg hpend
        apply decide_eq_false
        intro hid
        rw [← hid] at hr
        have hopen := start_unfinished hc ha hstands hr
        simp [ht] at hopen
      | _ => rfl

end

/-- **A finished saga is final**, over any run in which none is tested after its deadline and every callback starts
under a claim that stands. -/
theorem terminal_final (c : SagaCoordinator) {p q : SagaPool Ctx} {sagaId : String}
    {r : SagaRecord Ctx} (hp : Run (system c Ctx) (orderly c) (init Ctx) p)
    (hq : Run (system c Ctx) (orderly c) p q) (hr : p.world.get sagaId = some r)
    (ht : r.status.terminal = true) : Untouched sagaId r p q := by
  suffices h : q.world.get sagaId = some r ∧ ∃ later, q.trace = later ++ p.trace ∧ ∀ e ∈ later, starts sagaId e = false from
    ⟨⟨r, h.1, rfl, rfl⟩, h.2⟩
  induction hq with
  | refl => exact ⟨hr, [], rfl, by simp⟩
  | step before meets next ih =>
    obtain ⟨hget, later, htrace, hlater⟩ := ih
    obtain ⟨φ, htracked⟩ := (unfinished_inductive c).run (hp.trans before)
      ⟨_, .start ⟨consistent_init c, fun _ _ h => by cases h⟩⟩
    obtain ⟨hget', new, hnew, hquiet⟩ := terminal_step meets htracked next hget ht
    refine ⟨hget', new ++ later, ?_, ?_⟩
    · rw [hnew, htrace, append_assoc]
    · intro e he
      rcases mem_append.mp he with he | he
      · exact hquiet e he
      · exact hlater e he

/-- `recoverAll` lists a checkout that then completes, and finds it still finished. -/
def recoveredRun : List (Action (system createCheckoutSagaCoordinator Unit)) :=
  .call (Call.run "saga-1" "order-1" () {}) :: advances 0 3 ++ .call Call.recoverAll :: advances 1 1 ++ advances 0 28

theorem terminal_final_checkout : ∃ p q r, Run (system createCheckoutSagaCoordinator Unit) (orderly _) (init Unit) p ∧
      Run (system createCheckoutSagaCoordinator Unit) (orderly _) p q ∧ q.quiet = true ∧
      p.world.get "saga-1" = some r ∧ r.status = .completed ∧ Untouched "saga-1" r p q := by
  obtain ⟨p, hp, htest⟩ := Run.exists_of_any (init Unit) (onStep orderlyStep) recoveredRun
    (fun p =>
      ((p.world.get "saga-1").any fun r => r.status = .completed) &&
      (p.runWhile (system createCheckoutSagaCoordinator Unit) (onStep orderlyStep)
        (advances 1 3)).any Pool.quiet) (by decide)
  obtain ⟨hrec, hrest⟩ := Bool.and_eq_true_iff.mp htest
  obtain ⟨q, hq, hquiet⟩ := Run.exists_of_any _ _ _ _ hrest
  obtain ⟨r, hr, hstat⟩ := (Option.any_eq_true ..).mp hrec
  have hstat : r.status = .completed := of_decide_eq_true hstat
  exact ⟨p, q, r, hp, hq, hquiet, hr, hstat, terminal_final _ hp hq hr (by rw [hstat]; rfl)⟩

/-- **A finished saga may be reopened.** The same run, but the deadline passes before
`recoverAll` comes to the saga: the completed record is set to `timed_out`. -/
theorem terminal_reopened : ∃ p q r, Run (system createCheckoutSagaCoordinator Unit) unguarded (init Unit) p ∧
      Run (system createCheckoutSagaCoordinator Unit) unguarded p q ∧
      p.world.get "saga-1" = some r ∧ r.status = .completed ∧ ¬Untouched "saga-1" r p q := by
  obtain ⟨p, hp, htest⟩ := Run.exists_of_any (init Unit) (fun _ _ => true) recoveredRun
    (fun p =>
      ((p.world.get "saga-1").any fun r => r.status = .completed) &&
      (p.runWhile (system createCheckoutSagaCoordinator Unit) (fun _ _ => true)
        (.drift (300000 : Nat) :: advances 1 6)).any fun q =>
          (q.world.get "saga-1").any fun r => r.status = .timedOut) (by decide)
  obtain ⟨hrec, hrest⟩ := Bool.and_eq_true_iff.mp htest
  obtain ⟨q, hq, hreopened⟩ := Run.exists_of_any _ _ _ _ hrest
  obtain ⟨r, hr, hstat⟩ := (Option.any_eq_true ..).mp hrec
  obtain ⟨r', hr', hstat'⟩ := (Option.any_eq_true ..).mp hreopened
  have hstat : r.status = .completed := of_decide_eq_true hstat
  have hstat' : r'.status = .timedOut := of_decide_eq_true hstat'
  refine ⟨p, q, r, hp.mono fun _ _ _ => trivial, hq.mono fun _ _ _ => trivial, hr, hstat, ?_⟩
  intro h
  obtain ⟨r'', hr'', heq, _⟩ := h.record
  rw [hr', Option.some.injEq] at hr''
  subst hr''
  simp [hstat, hstat'] at heq

end

/-! ### Unfinished sagas and the recovery pass

`listIncomplete` filters on `running` and `compensating`. The deadline branch of `recoverOne` writes a third unfinished
status, `timed_out`, before it rolls back, and a saga that stops there is on no list. -/

variable {Ctx : Type} {c : SagaCoordinator}

/-- `listIncomplete` returns this list; everything else may reply anything. -/
def listing (records : List (SagaRecord Ctx)) : (o : Op Ctx) → Except SagaError o.Reply → Prop
  | .listIncomplete, result => result = .ok records
  | _, _ => True

section
variable {replies : (o : Op Ctx) → Except SagaError o.Reply → Prop} {goal : Op Ctx}

theorem recoverOne_reads (performed : Prop) (sagaId : String) :
    Follows (awaiting (S := sagaSignature Ctx) replies goal) performed (c.recoverOne sagaId)
      (fun result performed' => (∃ detail, result = .ok detail) ∧ (performed ∨ Op.get sagaId = goal → performed')) := by
  apply follows_tryCatch
  apply follows_bind
  apply follows_perform trivial
  rintro fetched _ ⟨_, rfl⟩
  cases fetched with
  | error e => exact ⟨⟨_, rfl⟩, id⟩
  | ok fetched =>
    apply follows_mono (awaiting_kept _ _)
    intro result performed' h
    cases result with
    | ok detail => exact ⟨⟨_, rfl⟩, h⟩
    | error e => exact ⟨⟨_, rfl⟩, h⟩

theorem recoverEach_reads (performed : Prop) (records : List (SagaRecord Ctx)) :
    Follows (awaiting (S := sagaSignature Ctx) replies goal) performed (c.recoverEach records)
      (fun _ performed' =>
        (performed ∨ ∃ r ∈ records, Op.get r.sagaId = goal) → performed') := by
  induction records generalizing performed with
  | nil =>
    rintro (hp | ⟨_, hr, _⟩)
    · exact hp
    · cases hr
  | cons r rest ih =>
    apply follows_bind
    apply follows_mono (recoverOne_reads performed r.sagaId)
    rintro _ performed' ⟨⟨detail, rfl⟩, hread⟩
    apply follows_bind
    apply follows_mono (ih performed')
    intro result performed'' hrest
    have hall : (performed ∨ ∃ r' ∈ r :: rest, Op.get r'.sagaId = goal) → performed'' := by
      rintro (hp | ⟨r', hr', hgoal⟩)
      · exact hrest (.inl (hread (.inl hp)))
      · rcases mem_cons.mp hr' with rfl | hr'
        · exact hrest (.inl (hread (.inr hgoal)))
        · exact hrest (.inr ⟨r', hr', hgoal⟩)
    cases result with
    | ok details => exact hall
    | error e => exact hall

end

variable {r : SagaRecord Ctx}

theorem recoverAll_reads (c : SagaCoordinator) {records : List (SagaRecord Ctx)} (hr : r ∈ records) :
    Follows (awaiting (S := sagaSignature Ctx) (listing records) (.get r.sagaId)) False c.recoverAll
      (fun _ performed => performed) := by
  apply follows_bind
  apply follows_perform trivial
  rintro listed _ ⟨hlisted, rfl⟩
  have hlisted : listed = .ok records := hlisted
  subst hlisted
  apply follows_bind
  apply follows_mono (recoverEach_reads _ records)
  intro result performed h
  have hperformed : performed := h (.inr ⟨r, hr, rfl⟩)
  cases result with
  | ok details => exact hperformed
  | error e => exact hperformed

def timelyStep (p : SagaPool Ctx) (_ : Nat) (o : Op Ctx) (_ : Choice Ctx) : Bool :=
  match o with
  | .pastDeadline r => !r.pastDeadline p.world.clock
  | _ => true

def timely (c : SagaCoordinator) (p : SagaPool Ctx) (a : Action (system c Ctx)) : Prop := onStep timelyStep p a = true

theorem Saves.status {φ : Phase Ctx} (h : Saves c φ r) :
    (∃ b, φ.copy = some b ∧ r.status = b.status) ∨ r.status = .compensating ∨
      r.status.terminal = true ∨ ∃ b, φ = .expired b := by
  cases h with
  | fail => exact .inr (.inl rfl)
  | finish => exact .inr (.inr (.inl rfl))
  | undone => exact .inr (.inr (.inl rfl))
  | timeOut => exact .inr (.inr (.inr ⟨_, rfl⟩))
  | claim => exact .inl ⟨_, rfl, rfl⟩
  | complete => exact .inl ⟨_, rfl, rfl⟩
  | undo => exact .inl ⟨_, rfl, rfl⟩
  | @release _ b u hs hφ => exact .inl ⟨b, release_copy hφ, rfl⟩

/-- No saga, in the store or in a runner's copy, is timed out or about to be. -/
structure InTime (w : World Ctx) (φ : Nat → Phase Ctx) : Prop where
  stored : ∀ r ∈ w.store.records, r.status ≠ .timedOut
  copies : ∀ i b, (φ i).copy = some b → b.status ≠ .timedOut
  expired : ∀ i b, φ i ≠ .expired b

theorem InTime.saves {w : World Ctx} {φ : Nat → Phase Ctx} {i : Nat}
    (h : InTime w φ) (hs : Saves c (φ i) r) : r.status ≠ .timedOut := by
  rcases hs.status with ⟨b, hb, hstat⟩ | hstat | hstat | ⟨b, hb⟩
  · rw [hstat]
    exact h.copies i b hb
  · rw [hstat]
    nofun
  · intro hout
    rw [hout] at hstat
    cases hstat
  · exact absurd hb (h.expired i b)

theorem InTime.records {w w' : World Ctx} {φ : Nat → Phase Ctx} {i : Nat} {o : Op Ctx}
    {result : Except SagaError o.Reply} (h : InTime w φ) (ha : Allowed c (φ i) o)
    (hw : Writes w o result w') : ∀ r ∈ w'.store.records, r.status ≠ .timedOut := by
  intro r hr
  cases hw with
  | same records =>
    rw [records] at hr
    exact h.stored r hr
  | insert hstored absent records =>
    rw [records] at hr
    rcases mem_append.mp hr with hr | hr
    · exact h.stored r hr
    · rw [mem_singleton] at hr
      rw [hr, hstored, ha.2.1]
      nofun
  | update hsaved present version records =>
    rw [records] at hr
    obtain ⟨old, hold, rfl⟩ := mem_map.mp hr
    split
    · have hnew := h.saves ha
      rw [hsaved]
      exact hnew
    · exact h.stored old hold

theorem inTime_inductive (c : SagaCoordinator) : Inductive (system c Ctx) (protocol c Ctx) .idle (timely c)
      (fun w _ φ => Consistent c w φ ∧ InTime w φ) := by
  apply (consistent_inductive c).and (fun _ _ _ => trivial)
  · intro p φ call w _ _ h hw
    refine ⟨?_, h.copies, h.expired⟩
    rw [(arrive_store hw).1]
    exact h.stored
  · exact fun p φ ms _ _ h => ⟨h.stored, h.copies, h.expired⟩
  rintro p φ i o ch φ' hg hp _ h ha ⟨_, rfl, _⟩
  have hw := perform_writes o ch p.world
  have hstored := h.records ha hw
  refine ⟨hstored, ?_, ?_⟩
  · intro j b hb
    by_cases hj : j = i
    · subst hj
      rw [update_self, next_copy ha] at hb
      rcases Option.or_eq_some_iff.mp hb with hb | ⟨_, hb⟩
      · exact hstored b (lookup_mem (hw.returned_get hb))
      · exact h.copies j b hb
    · rw [update_of_ne hj] at hb
      exact h.copies j b hb
  · intro j b hb
    by_cases hj : j = i
    · subst hj
      rw [update_self] at hb
      rcases (turn ha ch p.world).expired hb with hb | ⟨rfl, hpast⟩
      · exact h.expired j b hb
      · have hcond : timelyStep p j (.pastDeadline b) ch = true := onStep_pending hg hp
        simp [timelyStep, hpast] at hcond
    · rw [update_of_ne hj] at hb
      exact h.expired j b hb

theorem inTime_init : InTime (init Ctx).world (fun _ => .idle) where
  stored := fun _ hr => by cases hr
  copies := fun _ _ hb => by cases hb
  expired := fun _ _ hb => by cases hb

theorem mem_listIncomplete {store : InMemorySagaStore Ctx}
    (hr : r ∈ store.records) (hstat : r.status = .running ∨ r.status = .compensating) :
    r ∈ store.listIncomplete := by
  rw [InMemorySagaStore.listIncomplete, mem_filter]
  exact ⟨hr, by simpa using hstat⟩

/-- The saga is on `listIncomplete`, and `recoverAll` comes to it. -/
structure Recoverable (c : SagaCoordinator) (w : World Ctx) (r : SagaRecord Ctx) : Prop where
  listed : r ∈ w.store.listIncomplete
  considered : Follows (awaiting (S := sagaSignature Ctx) (listing w.store.listIncomplete)
    (.get r.sagaId)) False c.recoverAll (fun _ performed => performed)

/-- **Every unfinished saga stays recoverable**, in every state of every run in which no
deadline test finds its saga late. -/
theorem unfinished_recoverable (c : SagaCoordinator) {p : SagaPool Ctx} (h : Run (system c Ctx) (timely c) (init Ctx) p) :
    ∀ r ∈ p.world.store.records, r.status.terminal = false → Recoverable c p.world r := by
  intro r hr hopen
  obtain ⟨φ, ht⟩ := (inTime_inductive c).run h ⟨_, .start ⟨consistent_init c, inTime_init⟩⟩
  have hin : r.status ≠ .timedOut := ht.holds.2.stored r hr
  have hstat : r.status = .running ∨ r.status = .compensating := by cases hs : r.status <;> simp_all [SagaStatus.terminal]
  have hlisted := mem_listIncomplete hr hstat
  exact ⟨hlisted, recoverAll_reads c hlisted⟩

def failedRun : List (Action (system createCheckoutSagaCoordinator Unit)) :=
  .call (Call.run "saga-1" "order-1" () {}) :: advances 0 10 ++
    .step 0 (Choice.throws "escrow refused" : Choice Unit) :: advances 0 2

theorem unfinished_recoverable_checkout : ∃ p r, Run (system createCheckoutSagaCoordinator Unit) (timely _) (init Unit) p ∧
      r ∈ p.world.store.records ∧ r.status = .compensating ∧
      Recoverable createCheckoutSagaCoordinator p.world r := by
  obtain ⟨p, hp, htest⟩ := Run.exists_of_any (init Unit) (onStep timelyStep) failedRun
    (fun p => (p.world.get "saga-1").any fun r => r.status = .compensating) (by decide)
  obtain ⟨r, hr, hstat⟩ := (Option.any_eq_true ..).mp htest
  have hstat : r.status = .compensating := of_decide_eq_true hstat
  exact ⟨p, r, hp, lookup_mem hr, hstat, unfinished_recoverable _ hp r (lookup_mem hr) (by rw [hstat]; rfl)⟩

/-- **A timed-out saga is on no list.** After the deadline of a checkout `recoverAll` marks it `timed_out` and stops
before the rollback. -/
theorem timedOut_unlisted : ∃ p r, Run (system createCheckoutSagaCoordinator Unit) unguarded (init Unit) p ∧
      r ∈ p.world.store.records ∧ r.status.terminal = false ∧
      ¬Recoverable createCheckoutSagaCoordinator p.world r := by
  obtain ⟨p, hp, htest⟩ := Run.exists_of_any (init Unit) (fun _ _ => true)
    (.call (Call.run "saga-1" "order-1" () {}) :: advances 0 3 ++ [.drift (300000 : Nat)] ++
      .call Call.recoverAll :: advances 1 7 :
      List (Action (system createCheckoutSagaCoordinator Unit)))
    (fun p => (p.world.get "saga-1").any fun r => r.status = .timedOut) (by decide)
  obtain ⟨r, hr, hstat⟩ := (Option.any_eq_true ..).mp htest
  have hstat : r.status = .timedOut := of_decide_eq_true hstat
  refine ⟨p, r, hp.mono fun _ _ _ => trivial, lookup_mem hr, by rw [hstat]; rfl, ?_⟩
  intro h
  have hlisted := (mem_filter.mp h.listed).2
  simp [hstat] at hlisted

end Delego.Saga
