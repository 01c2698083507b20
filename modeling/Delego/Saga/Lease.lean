import Delego.Saga.Terminal

/-! Exclusion by the claim lease.

`claimStep` refuses a step that is claimed under a running lease, but it compares the step alone: a runner that goes for
another step of the same saga is let through. And the lease is not tested again when the callback starts. Where a tested
lease is on the tested step and callbacks start under claims that stand (`leasedStep`), the lease excludes
(`lease_exclusive`). -/
namespace Delego.Saga
open Delego.Process Delego.Data Function

variable {Ctx : Type} {c : SagaCoordinator}

/-- Runner `i` has claimed the saga, not yet saved its end, and its lease runs. -/
def Holds (p : SagaPool Ctx) (i : Nat) (sagaId : String) : Prop :=
  ∃ b, openClaim p.trace i sagaId = some b ∧ b.leased p.world.clock = true

/-- The action starts a callback of a saga that another runner holds. -/
def Intrudes (p : SagaPool Ctx) : Action (system c Ctx) → Prop
  | .step j _ => ∃ callback s r i, p.pending j = some (.start callback s r) ∧ i ≠ j ∧ Holds p i r.sagaId
  | _ => False

/-- Deadlines are ahead, a running lease is tested for the step it is on, and a callback
starts under a claim that stands. -/
def leasedStep (p : SagaPool Ctx) (_ : Nat) (o : Op Ctx) (_ : Choice Ctx) : Bool :=
  match o with
  | .pastDeadline r => !r.pastDeadline p.world.clock
  | .leaseActive r s => !r.leased p.world.clock || decide (r.currentStep = some s)
  | .start _ _ r => standing p.world r
  | _ => true

def leasedOnly (c : SagaCoordinator) (p : SagaPool Ctx) (a : Action (system c Ctx)) : Prop := onStep leasedStep p a = true

variable {t : Nat}
  {b : SagaRecord Ctx}

theorem leased_earlier {u : Nat} (h : b.leased u = true) (hle : t ≤ u) : b.leased t = true := by
  unfold SagaRecord.leased at h ⊢
  cases hclaim : b.claimExpiresAt with
  | none => simp [hclaim] at h
  | some expiry =>
    simp only [hclaim, decide_eq_true_eq] at h ⊢
    omega

theorem claimed_of_leased (h : b.leased t = true) : b.claimExpiresAt ≠ none := by
  intro hnone
  simp [SagaRecord.leased, hnone] at h

theorem Turn.cleared {w : World Ctx} {φ φ' : Phase Ctx} {o : Op Ctx}
    {result : Except SagaError o.Reply} {todo : List (CompletedStep Ctx)}
    {s : String} (h : Turn c w φ o result φ') (hb : φ' = .cleared b todo s) :
    φ = .cleared b todo s ∨ (o = .leaseActive b s ∧ b.leaseActive s w.clock = false) := by
  cases h with
  | stay => exact .inl hb
  | saved =>
    cases φ with
    | acted old todo context =>
      simp only [Phase.saved] at hb
      split at hb <;> cases hb
    | claimed old todo =>
      simp only [Phase.saved] at hb
      split at hb <;> cases hb
    | _ => cases hb
  | refused => cases φ <;> cases hb
  | clear free =>
    cases hb
    exact .inr ⟨rfl, free⟩
  | _ => cases hb

/-- A lease that runs is respected. -/
structure Leases (w : World Ctx) (tr : SagaTrace Ctx) (φ : Nat → Phase Ctx) : Prop where
  /-- A runner goes for a step only when no lease runs. -/
  cleared : ∀ i b todo s, φ i = .cleared b todo s → b.leased w.clock = false
  expired : ∀ i b, φ i ≠ .expired b
  /-- Nobody has saved over a claim whose lease runs. -/
  standing : ∀ i sagaId b, openClaim tr i sagaId = some b → b.leased w.clock = true → w.get sagaId = some b

theorem Saves.holder {φ : Phase Ctx} {r b : SagaRecord Ctx} (h : Saves c φ r) (hok : φ.Ok c) (hb : φ.copy = some b)
    (hleased : b.leased t = true) (hcleared : ∀ b todo s, φ = .cleared b todo s → b.leased t = false)
    (hexp : ∀ b, φ ≠ .expired b) : φ.claim = some b := by
  have hclaim := claimed_of_leased hleased
  cases h with
  | claim =>
    cases hb
    simp [hcleared _ _ _ rfl] at hleased
  | complete => exact hb
  | fail => exact hb
  | undo => exact hb
  | release u hs hφ =>
    rcases hφ with ⟨todo, rfl⟩ | rfl | ⟨⟨todo, rfl⟩, hnone⟩
    · exact hb
    · exact hb
    · cases hb
      exact absurd hnone hclaim
  | finish u hs hall =>
    cases hb
    -- a running claim is on the next step, and there is none
    obtain ⟨s, _, ⟨_, hnext⟩ | ⟨hback, _⟩⟩ := hok.1.claim hclaim
    · rw [← hall, ← completedNames_length] at hnext
      simp at hnext
    · rw [hs] at hback
      cases hback
  | undone u hs =>
    cases hb
    -- a rollback's claim is on a completed step, and there is none
    obtain ⟨hwf, _, htodo⟩ := hok
    rcases htodo with htodo | hnone
    · obtain ⟨s, _, ⟨hrunning, _⟩ | ⟨_, hmem⟩⟩ := hwf.claim hclaim
      · exact absurd hrunning (rollingBack_ne hs).1
      · have hempty : b.completedSteps = [] := by simpa using htodo.symm
        simp [SagaRecord.completedNames, hempty] at hmem
    · exact absurd hnone hclaim
  | timeOut => exact absurd rfl (hexp _)

section
variable {p : SagaPool Ctx} {φ : Nat → Phase Ctx} {i j : Nat} {o : Op Ctx} {ch : Choice Ctx}
  {sagaId : String} {b : SagaRecord Ctx}

theorem Leases.kept (hc : Consistent c p.world φ) (hclaims : Claims p.world p.trace φ)
    (h : Leases p.world p.trace φ) (ha : Allowed c (φ i) o)
    (hb : openClaim p.trace j sagaId = some b)
    (hb' : openClaim (⟨i, o, (perform o ch p.world).1⟩ :: p.trace) j sagaId = some b)
    (hleased : b.leased p.world.clock = true) :
    (perform o ch p.world).2.get sagaId = some b := by
  have hget := h.standing j sagaId b hb hleased
  have hw := perform_writes o ch p.world
  rcases hw.record hget with heq | ⟨s, rfl, hid, hver, hsaved, _⟩
  · exact heq
  · have hcopy := Saves.persisted ha (hc.copies i) (hid ▸ hget) hver
    have hclaim := Saves.holder ha (hc.ok i) hcopy hleased (h.cleared i) (h.expired i)
    have hown := hclaims.phases i b hclaim
    have hsaga : b.sagaId = sagaId := (hclaims.copies j sagaId b hb).1
    have hij : i = j := hclaims.unique i j sagaId b b (hsaga ▸ hown) hb rfl
    subst hij
    -- the holder's own save ends the claim or makes a later one
    have hver' := congrArg SagaRecord.version (openClaim_own hsaved (by exact hid) hb')
    simp at hver'

end

theorem leases_inductive (c : SagaCoordinator) : Inductive (system c Ctx) (protocol c Ctx) .idle (leasedOnly c)
      (fun w tr φ => (Consistent c w φ ∧ Claims w tr φ) ∧ Leases w tr φ) := by
  apply (claims_inductive c).and (fun _ _ _ => trivial)
  · intro p φ call w _ _ h hw
    refine ⟨?_, h.expired, ?_⟩
    · rw [(arrive_store hw).2]
      exact h.cleared
    · intro i sagaId b hb hleased
      rw [(arrive_store hw).2] at hleased
      exact (arrive_get hw sagaId).trans (h.standing i sagaId b hb hleased)
  · intro p φ ms _ _ h
    refine ⟨?_, h.expired, ?_⟩
    · intro i b todo s hb
      have hpre := h.cleared i b todo s hb
      by_contra hafter
      simp [leased_earlier (eq_true_of_ne_false hafter) (Nat.le_add_right _ _)] at hpre
    · intro i sagaId b hb hleased
      exact h.standing i sagaId b hb (leased_earlier hleased (Nat.le_add_right _ _))
  rintro p φ i o ch φ' hg hp ⟨_, _, hc, hclaims⟩ h ha ⟨_, rfl, _⟩
  have hclock : ((system c Ctx).perform o ch p.world).2.clock = p.world.clock := perform_clock o ch p.world
  have hturn := turn ha ch p.world
  refine ⟨?_, ?_, ?_⟩
  · rw [hclock]
    intro j b todo s hb
    by_cases hj : j = i
    · subst hj
      rw [update_self] at hb
      rcases hturn.cleared hb with hb | ⟨rfl, hfree⟩
      · exact h.cleared j b todo s hb
      · have hcond : leasedStep p j (.leaseActive b s) ch = true := onStep_pending hg hp
        by_contra hleased
        simp_all [leasedStep, SagaRecord.leaseActive]
    · rw [update_of_ne hj] at hb
      exact h.cleared j b todo s hb
  · intro j b hb
    by_cases hj : j = i
    · subst hj
      rw [update_self] at hb
      rcases hturn.expired hb with hb | ⟨rfl, hpast⟩
      · exact h.expired j b hb
      · have hcond : leasedStep p j (.pastDeadline b) ch = true := onStep_pending hg hp
        simp [leasedStep, hpast] at hcond
    · rw [update_of_ne hj] at hb
      exact h.expired j b hb
  · rw [hclock]
    intro j sagaId b hb hleased
    rcases openClaim_cons hb with hold | ⟨hsaved, _, hid, _⟩
    · exact h.kept hc hclaims ha hold hb hleased
    · obtain ⟨_, _, _, _, _, _, hget⟩ := (perform_writes o ch p.world).saved hsaved
      rw [← hid]
      exact hget

theorem leases_init : Leases (init Ctx).world [] (fun _ => .idle) where
  cleared := fun _ _ _ _ h => by cases h
  expired := fun _ _ h => by cases h
  standing := fun _ _ _ h _ => by cases h

/-- **The lease excludes**, in every run before the deadlines in which a running lease is tested for the step it is
on and callbacks start under claims that stand. -/
theorem lease_exclusive (c : SagaCoordinator) {p : SagaPool Ctx} {a : Action (system c Ctx)}
    (h : Run (system c Ctx) (leasedOnly c) (init Ctx) p) (hg : leasedOnly c p a) :
    ¬Intrudes p a := by
  obtain ⟨φ, ht⟩ := (leases_inductive c).run h ⟨_, .start ⟨⟨consistent_init c, claims_init⟩, leases_init⟩⟩
  obtain ⟨⟨_, hclaims⟩, hleases⟩ := ht.holds
  cases a with
  | step j ch =>
    rintro ⟨callback, s, r, i, hpend, hij, b, hb, hleased⟩
    have hstands : leasedStep p j (.start callback s r) ch = true := onStep_pending hg hpend
    obtain ⟨⟨todo, hφ⟩, _⟩ := ht.allowed hpend
    have hown : openClaim p.trace j r.sagaId = some r := hclaims.phases j r (by rw [hφ]; rfl)
    have hget : p.world.get r.sagaId = some b := hleases.standing i r.sagaId b hb hleased
    have hver : b.version = r.version := by simpa [leasedStep, standing, hget] using hstands
    exact hij (hclaims.unique i j r.sagaId b r hb hown hver)
  | call call => exact id
  | drift ms => exact id

def Call.isSession : Call Ctx → Bool
  | .run _ _ _ _ | .resume _ => true
  | _ => false

/-- No calls but `run` and `resume`. -/
def sessions (_ : SagaPool Ctx) : Action (system c Ctx) → Bool
  | .call call => Call.isSession call
  | _ => true

def aboutToStart (p : SagaPool Ctx) (j : Nat) (sagaId : String) : Bool :=
  (p.pending j).any fun o => match o with
    | .start _ _ r => decide (r.sagaId = sagaId)
    | _ => false

theorem intrudes_of {p : SagaPool Ctx} {i j : Nat} {sagaId : String}
    (ch : Choice Ctx) (hij : i ≠ j) (hstart : aboutToStart p j sagaId = true)
    (hb : openClaim p.trace i sagaId = some b) (hleased : b.leased p.world.clock = true) :
    Intrudes p (.step j ch : Action (system c Ctx)) := by
  obtain ⟨o, ho, hmatch⟩ := (Option.any_eq_true ..).mp hstart
  cases o with
  | start callback s r =>
    have hid : r.sagaId = sagaId := of_decide_eq_true hmatch
    exact ⟨callback, s, r, i, ho, hij, b, by rw [hid]; exact hb, hleased⟩
  | _ => cases hmatch

/-- A second runner resumes a checkout whose first step runs. -/
theorem lease_exclusive_checkout : ∃ p, Run (system createCheckoutSagaCoordinator Unit) (leasedOnly _) (init Unit) p ∧
      Holds p 0 "saga-1" ∧ p.pending 1 ≠ none ∧
      ¬Intrudes p (.step 1 Choice.normal : Action (system createCheckoutSagaCoordinator Unit)) := by
  obtain ⟨p, hp, htest⟩ := Run.exists_of_any (init Unit) (onStep leasedStep)
    (.call (Call.run "saga-1" "order-1" () {}) :: advances 0 10 ++ .call (Call.resume "saga-1") :: advances 1 1 :
      List (Action (system createCheckoutSagaCoordinator Unit)))
    (fun p => (openClaim p.trace 0 "saga-1").any (fun b => b.leased p.world.clock) && (p.pending 1).isSome &&
      onStep leasedStep p (.step 1 Choice.normal : Action (system createCheckoutSagaCoordinator Unit))) (by decide)
  simp only [Bool.and_eq_true] at htest
  obtain ⟨⟨hholds, hpend⟩, hguard⟩ := htest
  obtain ⟨b, hb, hleased⟩ := (Option.any_eq_true ..).mp hholds
  exact ⟨p, hp, ⟨b, hb, hleased⟩, Option.isSome_iff_ne_none.mp hpend, lease_exclusive _ hp hguard⟩

/-- **The lease does not exclude a rollback.** Runner 0 undoes the first step under a running lease; runner 1 finds
the second not leased, claims it and starts to undo it again. -/
theorem lease_intruded : ∃ p, Run (system createEscrowSagaCoordinator Unit) (fun p a => sessions p a = true) (init Unit) p ∧
      Intrudes p (.step 1 Choice.normal : Action (system createEscrowSagaCoordinator Unit)) := by
  obtain ⟨p, hp, htest⟩ := Run.exists_of_any (init Unit) sessions
    (.call (Call.run "saga-1" "order-1" () {}) :: advances 0 32 ++
      .step 0 (Choice.throws "database error" : Choice Unit) :: advances 0 19 ++
      .call (Call.resume "saga-1") :: advances 1 5 :
      List (Action (system createEscrowSagaCoordinator Unit)))
    (fun p => aboutToStart p 1 "saga-1" && (openClaim p.trace 0 "saga-1").any fun b => b.leased p.world.clock) (by decide)
  obtain ⟨hstart, hholds⟩ := Bool.and_eq_true_iff.mp htest
  obtain ⟨b, hb, hleased⟩ := (Option.any_eq_true ..).mp hholds
  exact ⟨p, hp, intrudes_of _ (by decide) hstart hb hleased⟩

/-- **No two runners have claimed one version of a saga**, and the store is at the last one claimed or past it. -/
theorem claims_exclusive {p : SagaPool Ctx} (h : Run (system c Ctx) unguarded (init Ctx) p) {i j : Nat} {sagaId : String}
    {b b' : SagaRecord Ctx} (hb : openClaim p.trace i sagaId = some b) (hb' : openClaim p.trace j sagaId = some b') :
    (b.version = b'.version → i = j) ∧
      ∃ r, p.world.get sagaId = some r ∧ b.version ≤ r.version ∧ (b.version = r.version → b = r) := by
  obtain ⟨φ, ht⟩ := (claims_inductive c).run h ⟨_, .start ⟨consistent_init c, claims_init⟩⟩
  obtain ⟨hid, hcopy⟩ := ht.holds.2.copies i sagaId b hb
  exact ⟨ht.holds.2.unique i j sagaId b b' hb hb', hid ▸ hcopy⟩

theorem claims_apart : ∃ p b b', Run (system createEscrowSagaCoordinator Unit) unguarded (init Unit) p ∧
    openClaim p.trace 0 "saga-1" = some b ∧ openClaim p.trace 1 "saga-1" = some b' ∧ b.version ≠ b'.version := by
  obtain ⟨p, hp, htest⟩ := Run.exists_of_any (init Unit) (fun _ _ => true) (.call (Call.run "saga-1" "order-1" () {}) :: advances 0 32 ++
      .step 0 (Choice.throws "database error" : Choice Unit) :: advances 0 19 ++
      .call (Call.resume "saga-1") :: advances 1 5 : List (Action (system createEscrowSagaCoordinator Unit)))
    (fun p => (openClaim p.trace 0 "saga-1").isSome && (openClaim p.trace 1 "saga-1").isSome) (by decide)
  obtain ⟨hclaim, hclaim'⟩ := Bool.and_eq_true_iff.mp htest
  obtain ⟨b, hb⟩ := Option.isSome_iff_exists.mp hclaim
  obtain ⟨b', hb'⟩ := Option.isSome_iff_exists.mp hclaim'
  have hrun := hp.mono fun _ _ _ => trivial
  exact ⟨p, b, b', hrun, hb, hb', fun heq => absurd ((claims_exclusive hrun hb hb').1 heq) (by decide)⟩

end Delego.Saga
