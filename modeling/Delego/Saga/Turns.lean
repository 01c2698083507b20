import Delego.Saga.Consistency

/-! Progress of a saga, over every interleaving of runners.

Whatever runs, stops or fails, every stored record lists as completed the first
steps of the order, `completed` means all of them and `compensated` means all of
those undone. A record changes only by a save that was computed from exactly that
record, and the save raises its version by one: no update is lost. -/
namespace Delego.Saga
open Delego.Process Delego.Data

section
variable {Ctx : Type} {c : SagaCoordinator}

/-- The last record a runner read, created or saved. -/
def lastCopy : SagaTrace Ctx → Nat → Option (SagaRecord Ctx)
  | [], _ => none
  | e :: rest, i => if e.runner = i then (Returned e.op e.result).or (lastCopy rest i) else lastCopy rest i

theorem copies_inductive (c : SagaCoordinator) : Inductive (system c Ctx) (protocol c Ctx) .idle unguarded
      (fun w tr φ => Consistent c w φ ∧ ∀ i, (φ i).copy = lastCopy tr i) := by
  refine (consistent_inductive c).and (fun _ _ h => h) (fun _ _ _ _ _ _ h _ => h) (fun _ _ _ _ _ h => h) ?_
  rintro p φ i o ch φ' _ _ _ h ha ⟨_, rfl, _⟩ j
  by_cases hj : j = i
  · subst hj
    rw [Function.update_self, lastCopy, if_pos rfl, ← h j]
    exact next_copy ha
  · rw [Function.update_of_ne hj, lastCopy, if_neg (Ne.symm hj)]
    exact h j

theorem copies_run {p : SagaPool Ctx} (h : Run (system c Ctx) unguarded (init Ctx) p) :
    ∃ φ, Tracked (protocol c Ctx) .idle (fun w tr φ => Consistent c w φ ∧ ∀ i, (φ i).copy = lastCopy tr i) p φ :=
  (copies_inductive c).run h ⟨_, .start ⟨consistent_init c, fun _ => rfl⟩⟩

/-- What one operation does to a stored record: nothing, or the save of an update of
that very record, one version up. -/
theorem Writes.record {w w' : World Ctx} {o : Op Ctx} {result : Except SagaError o.Reply}
    (hw : Writes w o result w') {sagaId : String} {r : SagaRecord Ctx} (hr : w.get sagaId = some r) :
    w'.get sagaId = some r ∨ ∃ s, o = .save s ∧ s.sagaId = sagaId ∧ r.version = s.version ∧
        Saved o result = some {s with version := r.version + 1} ∧
        w'.get sagaId = some {s with version := r.version + 1} := by
  cases hw with
  | same records => exact .inl ((get_of_records records _).trans hr)
  | @insert new stored _ hstored absent records =>
    left
    have hne : sagaId ≠ stored.sagaId := by
      intro heq
      simp [heq, hstored, absent] at hr
    show lookup SagaRecord.sagaId w'.store.records sagaId = some r
    rw [records, lookup_append_ne hne]
    exact hr
  | @update new existing saved _ hsaved present version records =>
    by_cases hid : sagaId = new.sagaId
    · right
      subst hid
      rw [present, Option.some.injEq] at hr
      subst hr
      have heq : {new with version := existing.version + 1} = saved := by rw [version, ← hsaved]
      refine ⟨new, rfl, rfl, version, by rw [heq]; rfl, ?_⟩
      rw [heq]
      show lookup SagaRecord.sagaId w'.store.records new.sagaId = some saved
      have hkey : new.sagaId = saved.sagaId := by rw [hsaved]
      rw [records, hkey]
      exact lookup_replace_self (r := existing) (by rw [hsaved]; exact present)
    · left
      show lookup SagaRecord.sagaId w'.store.records sagaId = some r
      rw [records, lookup_replace_ne (by rw [hsaved]; exact hid)]
      exact hr

/-- One step of a pool: a call or the clock leaves the store alone, a runner
performs the operation it waits on. -/
theorem step_cases {p q : SagaPool Ctx} {a : Action (system c Ctx)} (h : p.step (system c Ctx) a = some q) :
    (q.world.store = p.world.store ∧ q.trace = p.trace) ∨ ∃ i ch o, a = .step i ch ∧ p.pending i = some o ∧
        q.world = (perform o ch p.world).2 ∧
        q.trace = ⟨i, o, (perform o ch p.world).1⟩ :: p.trace := by
  cases a with
  | call call =>
    obtain ⟨w, hw, rfl⟩ := Option.map_eq_some_iff.mp h
    exact .inl ⟨(arrive_store hw).1, rfl⟩
  | drift ms =>
    cases h
    exact .inl ⟨rfl, rfl⟩
  | step i ch =>
    simp only [Pool.step] at h
    split at h
    · rename_i o next hi
      cases h
      exact .inr ⟨i, ch, o, rfl, by simp [Pool.pending, hi, Program.pending], rfl, rfl⟩
    · cases h

/-- **Progress.** Each stored record lists the first steps of the order as completed, and is replaced only by the
save of a runner whose last copy it is, with the version one up. -/
theorem saga_progress (c : SagaCoordinator) {p : SagaPool Ctx} (h : Run (system c Ctx) unguarded (init Ctx) p) :
    (∀ r ∈ p.world.store.records, r.completedNames <+: c.stepOrder ∧
      (r.status = .completed → r.completedNames = c.stepOrder ∧ ∀ e ∈ r.completedSteps, e.status = .completed) ∧
      (r.status = .compensated → ∀ e ∈ r.completedSteps, e.status = .compensated)) ∧
    ∀ a q sagaId r, p.step (system c Ctx) a = some q → p.world.get sagaId = some r → q.world.get sagaId = some r ∨
        ∃ i ch s, a = .step i ch ∧ p.pending i = some (.save s) ∧
          lastCopy p.trace i = some r ∧ s.version = r.version ∧
          q.world.get sagaId = some {s with version := r.version + 1} := by
  obtain ⟨φ, ht⟩ := copies_run h
  obtain ⟨hconsistent, hcopies⟩ := ht.holds
  refine ⟨?_, ?_⟩
  · intro r hr
    have hwf := hconsistent.wellFormed r hr
    exact ⟨hwf.progress, hwf.completed, hwf.compensated⟩
  · intro a q sagaId r hstep hr
    rcases step_cases hstep with ⟨hstore, _⟩ | ⟨i, ch, o, ha, hpend, hworld, _⟩
    · left
      show q.world.store.get sagaId = some r
      rw [hstore]
      exact hr
    · have hw := perform_writes o ch p.world
      rw [← hworld] at hw
      rcases hw.record hr with hsame | ⟨s, ho, hid, hver, _, hnew⟩
      · exact .inl hsame
      · subst ho
        refine .inr ⟨i, ch, s, ha, hpend, ?_, hver.symm, hnew⟩
        rw [← hcopies i]
        exact Saves.persisted (ht.allowed hpend) (hconsistent.copies i) (hid ▸ hr) hver

def checkoutRun : List (Action (system createCheckoutSagaCoordinator Unit)) :=
  .call (Call.run "saga-1" "order-1" () {}) :: advances 0 31

theorem saga_progress_checkout : ∃ p r, Run (system createCheckoutSagaCoordinator Unit) unguarded (init Unit) p ∧
      p.world.get "saga-1" = some r ∧ r.status = .completed ∧
      r.completedNames = createCheckoutSagaCoordinator.stepOrder := by
  obtain ⟨p, hrun, htest⟩ := Run.exists_of_any (init Unit) (fun _ _ => true) checkoutRun
    (fun p => (p.world.get "saga-1").any fun r => r.status = .completed) (by decide)
  obtain ⟨r, hr, hstat⟩ := (Option.any_eq_true ..).mp htest
  have hstat : r.status = .completed := of_decide_eq_true hstat
  have hfree : Run (system createCheckoutSagaCoordinator Unit) unguarded (init Unit) p := hrun.mono fun _ _ _ => trivial
  exact ⟨p, r, hfree, hr, hstat, ((saga_progress _ hfree).1 r (lookup_mem hr)).2.1 hstat |>.1⟩

end

/-! ### What one operation can do to its runner

`Turn` lists the ways in which a performed operation moves a runner from one phase to the next, each with what the world
said. -/

section
variable {Ctx : Type} {c : SagaCoordinator} {φ φ' : Phase Ctx} {o : Op Ctx} {w w' : World Ctx}
  {result : Except SagaError o.Reply} {b : SagaRecord Ctx}

def Op.isFinish : Op Ctx → Bool
  | .finish _ _ _ => true
  | _ => false

/-- What one operation does to a phase. -/
inductive Turn (c : SagaCoordinator) (w : World Ctx) :
    Phase Ctx → (o : Op Ctx) → Except SagaError o.Reply → Phase Ctx → Prop where
  | stay {φ : Phase Ctx} {o : Op Ctx} {result : Except SagaError o.Reply}
      (unsaved : Saved o result = none) (unfinished : o.isFinish = false) : Turn c w φ o result φ
  | read {φ : Phase Ctx} {o : Op Ctx} {result : Except SagaError o.Reply} {b : SagaRecord Ctx}
      (settled : φ.settled = true) (returned : Returned o result = some b)
      (unsaved : Saved o result = none) (unfinished : o.isFinish = false) :
      Turn c w φ o result (.fresh b)
  | saved {φ : Phase Ctx} {r b : SagaRecord Ctx} (saves : Saves c φ r) : Turn c w φ (.save r) (.ok b) (φ.saved b)
  | refused {φ : Phase Ctx} {r : SagaRecord Ctx} {e : SagaError} (saves : Saves c φ r) :
      Turn c w φ (.save r) (.error e) φ.refused
  | late {r : SagaRecord Ctx} {todo : List (CompletedStep Ctx)} (past : r.pastDeadline w.clock = true) :
      Turn c w (.holds r todo) (.pastDeadline r) (.ok true) (.expired r)
  | clear {r : SagaRecord Ctx} {todo : List (CompletedStep Ctx)} {s : String}
      (free : r.leaseActive s w.clock = false) (claimable : Claimable c r todo s) :
      Turn c w (.holds r todo) (.leaseActive r s) (.ok false) (.cleared r todo s)
  | start {r : SagaRecord Ctx} {todo : List (CompletedStep Ctx)} {callback : Callback Ctx}
      {s : String} (calls : Calls callback s r) :
      Turn c w (.claimed r todo) (.start callback s r) (.ok ()) (.acting r todo)
  | returned {r : SagaRecord Ctx} {todo : List (CompletedStep Ctx)} {callback : Callback Ctx}
      {s : String} (context : Ctx) (calls : Calls callback s r) :
      Turn c w (.acting r todo) (.finish callback s r) (.ok context) (.acted r todo context)
  | threw {r : SagaRecord Ctx} {todo : List (CompletedStep Ctx)} {callback : Callback Ctx}
      {s : String} (e : SagaError) (calls : Calls callback s r) :
      Turn c w (.acting r todo) (.finish callback s r) (.error e) (.claimed r todo)
  | stolen {b : SagaRecord Ctx} {todo : List (CompletedStep Ctx)} {context : Ctx} {key : String}
      (locks : c.locks = true) : Turn c w (.acted b todo context) (.wasStolen key) (.ok true) (.dropped b)

/-- **Every performed operation is one of these turns.** -/
theorem turn (ha : Allowed c φ o) (ch : Choice Ctx) (w : World Ctx) :
    Turn c w φ o (perform o ch w).1 (φ.next o (perform o ch w).1) := by
  cases o with
  | create r =>
    generalize (perform (.create r) ch w).1 = result
    cases result with
    | ok b => exact .read ha.1 rfl rfl rfl
    | error e => exact .stay rfl rfl
  | get sagaId =>
    generalize (perform (.get sagaId) ch w).1 = result
    cases result with
    | ok found => cases found with
      | some b => exact .read ha rfl rfl rfl
      | none => exact .stay rfl rfl
    | error e => exact .stay rfl rfl
  | save r =>
    generalize (perform (.save r) ch w).1 = result
    cases result with
    | ok b => exact .saved ha
    | error e => exact .refused ha
  | pastDeadline r =>
    obtain ⟨todo, rfl⟩ := ha
    simp only [perform]
    cases hpast : r.pastDeadline w.clock with
    | true => exact .late hpast
    | false => exact .stay rfl rfl
  | leaseActive r s =>
    obtain ⟨todo, rfl, hclaimable⟩ := ha
    simp only [perform]
    cases hfree : r.leaseActive s w.clock with
    | true => exact .stay rfl rfl
    | false => exact .clear hfree hclaimable
  | start callback s r =>
    obtain ⟨⟨todo, rfl⟩, hcalls⟩ := ha
    exact .start hcalls
  | finish callback s r =>
    obtain ⟨⟨todo, rfl⟩, hcalls⟩ := ha
    generalize (perform (.finish callback s r) ch w).1 = result
    cases result with
    | ok context => exact .returned context hcalls
    | error e => exact .threw e hcalls
  | wasStolen key =>
    generalize (perform (.wasStolen key) ch w).1 = result
    cases result with
    | ok stolen => cases stolen with
      | true => cases φ with
        | acted b todo context => exact .stolen ha
        | _ => exact .stay rfl rfl
      | false => exact .stay rfl rfl
    | error e => exact .stay rfl rfl
  | _ => exact .stay rfl rfl

theorem saved_ne_expired (φ : Phase Ctx) (b b' : SagaRecord Ctx) : φ.saved b ≠ .expired b' := by
  intro h
  cases φ with
  | acted old todo context =>
    simp only [Phase.saved] at h
    split at h <;> cases h
  | claimed old todo =>
    simp only [Phase.saved] at h
    split at h <;> cases h
  | _ => cases h

theorem Turn.expired (h : Turn c w φ o result φ') (hb : φ' = .expired b) :
    φ = .expired b ∨ (o = .pastDeadline b ∧ b.pastDeadline w.clock = true) := by
  cases h with
  | stay => exact .inl hb
  | saved => exact absurd hb (saved_ne_expired _ _ _)
  | refused =>
    cases φ with
    | expired => exact .inl hb
    | _ => cases hb
  | late past =>
    cases hb
    exact .inr ⟨rfl, past⟩
  | _ => cases hb

theorem Turn.claim (h : Turn c w φ o result φ') (hb : φ'.claim = some b) : (φ.claim = some b ∧ Saved o result = none) ∨
      (Saved o result = some b ∧ ∃ old todo s, φ = .cleared old todo s) := by
  cases h with
  | stay unsaved => exact .inl ⟨hb, unsaved⟩
  | read => cases hb
  | @saved _ r b' saves =>
    cases φ with
    | cleared old todo s =>
      cases hb
      exact .inr ⟨rfl, old, todo, s, rfl⟩
    | acted old todo context =>
      simp only [Phase.saved] at hb
      split at hb <;> cases hb
    | claimed old todo =>
      simp only [Phase.saved] at hb
      split at hb <;> cases hb
    | _ => cases hb
  | refused =>
    cases φ with
    | cleared => cases hb
    | idle => cases hb
    | holds => cases hb
    | expired => cases hb
    | spent => cases hb
    | _ => exact .inl ⟨hb, rfl⟩
  | late => cases hb
  | clear => cases hb
  | start => exact .inl ⟨hb, rfl⟩
  | returned => exact .inl ⟨hb, rfl⟩
  | threw => exact .inl ⟨hb, rfl⟩
  | stolen => exact .inl ⟨hb, rfl⟩

theorem Writes.saved (hw : Writes w o result w') (hb : Saved o result = some b) :
    ∃ r old, o = .save r ∧ w.get b.sagaId = some old ∧ old.version = r.version ∧
      b = {r with version := r.version + 1} ∧ w'.get b.sagaId = some b := by
  cases hw with
  | same records returned notSaved =>
    cases o with
    | save r =>
      cases result with
      | ok b' => exact absurd ⟨rfl, rfl⟩ (notSaved r b')
      | error e => cases hb
    | _ => cases hb
  | insert => cases hb
  | @update r old new _ hsaved present version records =>
    cases hb
    have hid : b.sagaId = r.sagaId := by rw [hsaved]
    refine ⟨r, old, rfl, hid ▸ present, version, hsaved, ?_⟩
    show lookup SagaRecord.sagaId w'.store.records b.sagaId = some b
    rw [records]
    exact lookup_replace_self (hid ▸ present)

end

/-! ### Claims as the trace shows them

A runner holds a claim on a saga when its last successful save of that saga carries
a lease. Each claim is a version of the record, no version is claimed by two
runners (`Claims`), and the claim a phase carries is the one in the trace. -/

variable {Ctx : Type} {c : SagaCoordinator} {tr : SagaTrace Ctx} {i j : Nat} {sagaId : String} {b : SagaRecord Ctx}

/-- The claim of runner `i`: its last save of the saga, if that carries a lease. -/
def openClaim : SagaTrace Ctx → Nat → String → Option (SagaRecord Ctx)
  | [], _, _ => none
  | e :: rest, i, sagaId => match Saved e.op e.result with
    | some b =>
      if e.runner = i ∧ b.sagaId = sagaId then if b.claimExpiresAt.isSome then some b else none
      else openClaim rest i sagaId
    | none => openClaim rest i sagaId

variable {e : Entry (sagaSignature Ctx)}

theorem openClaim_unsaved (h : Saved e.op e.result = none) : openClaim (e :: tr) j sagaId = openClaim tr j sagaId := by
  rw [openClaim, h]

variable {saved : SagaRecord Ctx}

theorem openClaim_other (h : Saved e.op e.result = some saved)
    (hne : ¬(e.runner = j ∧ saved.sagaId = sagaId)) :
    openClaim (e :: tr) j sagaId = openClaim tr j sagaId := by
  simp only [openClaim, h, if_neg hne]

theorem openClaim_self (h : Saved e.op e.result = some saved) :
    openClaim (e :: tr) e.runner saved.sagaId =
      if saved.claimExpiresAt.isSome then some saved else none := by
  simp [openClaim, h]

theorem openClaim_own (h : Saved e.op e.result = some saved) (hid : saved.sagaId = sagaId)
    (hb : openClaim (e :: tr) e.runner sagaId = some b) : b = saved := by
  rw [← hid, openClaim_self h] at hb
  split at hb
  · cases hb
    rfl
  · cases hb

theorem openClaim_cons (h : openClaim (e :: tr) j sagaId = some b) :
    openClaim tr j sagaId = some b ∨ (Saved e.op e.result = some b ∧ e.runner = j ∧ b.sagaId = sagaId ∧
        b.claimExpiresAt ≠ none) := by
  cases hsaved : Saved e.op e.result with
  | none =>
    rw [openClaim_unsaved hsaved] at h
    exact .inl h
  | some saved =>
    by_cases hself : e.runner = j ∧ saved.sagaId = sagaId
    · obtain ⟨rfl, rfl⟩ := hself
      rw [openClaim_self hsaved] at h
      split at h
      · rename_i hleased
        cases h
        exact .inr ⟨rfl, rfl, rfl, Option.isSome_iff_ne_none.mp hleased⟩
      · cases h
    · rw [openClaim_other hsaved hself] at h
      exact .inl h

theorem Saves.leased {φ : Phase Ctx} {r : SagaRecord Ctx} (h : Saves c φ r) :
    r.claimExpiresAt.isSome = true ↔ ∃ old todo s, φ = .cleared old todo s := by
  cases h with
  | claim => exact iff_of_true rfl ⟨_, _, _, rfl⟩
  | release u hs hφ =>
    refine iff_of_false nofun ?_
    rintro ⟨old, todo, s, rfl⟩
    rcases hφ with ⟨_, h⟩ | h | ⟨⟨_, h⟩, _⟩ <;> cases h
  | _ => exact iff_of_false nofun (fun ⟨_, _, _, h⟩ => by cases h)

/-- Open claims are copies of stored records. -/
structure Claims (w : World Ctx) (tr : SagaTrace Ctx) (φ : Nat → Phase Ctx) : Prop where
  /-- A claim is the record as it stood at the claim's version. -/
  copies : ∀ i sagaId b, openClaim tr i sagaId = some b → b.sagaId = sagaId ∧ Copy w b
  /-- No version is claimed by two runners. -/
  unique : ∀ i j sagaId b b', openClaim tr i sagaId = some b → openClaim tr j sagaId = some b' →
    b.version = b'.version → i = j
  phases : ∀ i b, (φ i).claim = some b → openClaim tr i b.sagaId = some b

theorem Claims.fresh {w w' : World Ctx} {φ : Nat → Phase Ctx} (h : Claims w tr φ) {o : Op Ctx}
    {result : Except SagaError o.Reply} (hw : Writes w o result w')
    (hsaved : Saved o result = some saved) (hb : openClaim tr j saved.sagaId = some b) :
    b.version < saved.version := by
  obtain ⟨r, old, _, hold, hver, heq, _⟩ := hw.saved hsaved
  obtain ⟨hid, r', hr', hle, _⟩ := h.copies j _ b hb
  rw [hid, hold, Option.some.injEq] at hr'
  subst hr'
  rw [heq]
  show b.version < r.version + 1
  omega

theorem claims_inductive (c : SagaCoordinator) : Inductive (system c Ctx) (protocol c Ctx) .idle unguarded
      (fun w tr φ => Consistent c w φ ∧ Claims w tr φ) := by
  apply (consistent_inductive c).and (fun _ _ _ => trivial)
  · intro p φ call w _ _ h hw
    refine ⟨?_, h.unique, h.phases⟩
    intro i sagaId b hb
    obtain ⟨hid, r, hr, hcopy⟩ := h.copies i sagaId b hb
    exact ⟨hid, r, (arrive_get hw _).trans hr, hcopy⟩
  · exact fun p φ ms _ _ h => ⟨h.copies, h.unique, h.phases⟩
  rintro p φ i o ch φ' _ _ _ h ha ⟨_, rfl, _⟩
  have hw := perform_writes o ch p.world
  refine ⟨?_, ?_, ?_⟩
  · intro j sagaId b hb
    rcases openClaim_cons hb with hb | ⟨hsaved, _, hid, _⟩
    · obtain ⟨hid, hcopy⟩ := h.copies j sagaId b hb
      exact ⟨hid, hcopy.writes hw⟩
    · obtain ⟨_, _, _, _, _, _, hget⟩ := hw.saved hsaved
      exact ⟨hid, Copy.of_get hget⟩
  · intro j k sagaId b b' hb hb' hver
    rcases openClaim_cons hb with hb | ⟨hsaved, rfl, rfl, _⟩
    · rcases openClaim_cons hb' with hb' | ⟨hsaved', rfl, rfl, _⟩
      · exact h.unique j k sagaId b b' hb hb' hver
      · have hlt := h.fresh hw hsaved' hb
        omega
    · rcases openClaim_cons hb' with hb' | ⟨hsaved', rfl, _, _⟩
      · have hlt := h.fresh hw hsaved hb'
        omega
      · rfl
  · intro j b hb
    by_cases hj : j = i
    · subst hj
      rw [Function.update_self] at hb
      rcases (turn ha ch p.world).claim hb with ⟨hb, hunsaved⟩ | ⟨hsaved, hcleared⟩
      · rw [openClaim_unsaved hunsaved]
        exact h.phases j b hb
      · obtain ⟨r, _, rfl, _, _, rfl, _⟩ := hw.saved hsaved
        rw [openClaim_self hsaved]
        exact if_pos ((Saves.leased ha).mpr hcleared)
    · rw [Function.update_of_ne hj] at hb
      have hclaim := h.phases j b hb
      cases hsaved : Saved o (perform o ch p.world).1 with
      | none =>
        rw [openClaim_unsaved hsaved]
        exact hclaim
      | some saved =>
        rw [openClaim_other hsaved (fun hself => hj hself.1.symm)]
        exact hclaim

theorem claims_init : Claims (init Ctx).world [] (fun _ => .idle) where
  copies := fun _ _ _ h => by cases h
  unique := fun _ _ _ _ _ h => by cases h
  phases := fun _ _ h => by cases h

end Delego.Saga
