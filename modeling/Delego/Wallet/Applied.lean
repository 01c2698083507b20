import Delego.Wallet.Attempts

/-! A request takes effect once.

An attempt that fails may have left its transaction on the network, and the next attempt builds another with the number
that follows the ledger's then. Where the error is not that of a gateway, nobody looks for what has become of the first:
it is applied, the ledger moves on, and the second is applied too (`applied_twice`).

The answers that an attempt gives up on are those after which another may be sent. If none of them comes while a
transaction of the job is applied, or still can be, at most one is (`applied_once`). -/
namespace Delego.Wallet
open Delego.Process List Function

def QueueState.appliedOf (w : QueueState) (job : Nat) : List Envelope := w.applied.filter fun e => decide (e.job = job)

def QueueState.pending (w : QueueState) (e : Envelope) : Bool := decide (w.ledger e.account < e.sequence)

/-- A transaction of the job is applied, or can be applied yet. -/
def QueueState.loose (w : QueueState) (job : Nat) : Bool :=
  !(w.appliedOf job).isEmpty || w.submitted.any fun e => decide (e.job = job) && w.pending e

/-- How the attempt of a runner stands. -/
def attemptOf : QueueTrace → Nat → Attempt
  | [], _ => {}
  | e :: tr, i => if e.runner = i then (attemptOf tr i).next e.op e.result else attemptOf tr i

def Attempt.maySend (φ : Attempt) (job : Nat) : Bool :=
  decide (φ.job = some job) && match φ.stage with
    | .free => true
    | _ => false

/-- Operations whose answers tell what has become of a transaction. -/
def telling : queueSignature.Op → Bool
  | .inr (.sendTransaction _) => true
  | .inr (.getTransaction _) => true
  | .inr (.lookupTransaction _) => true
  | _ => false

/-- No answer by which an attempt of the job is given up, for another to follow, comes while a transaction of the
job is loose. -/
def resolved (job : Nat) (p : QueuePool) (i : Nat) (o : queueSignature.Op) (ch : QueueChoice) : Bool :=
  let answer := performQueue o ch p.world
  !(telling o && ((attemptOf p.trace i).next o answer.1).maySend job) || !answer.2.loose job

section
variable {w : QueueState} {ch : QueueChoice}

/-- The accounts and the transactions of two states are the same. -/
structure SameLedger (w w' : QueueState) : Prop where
  ledger : w'.sequences.ledger = w.sequences.ledger
  submitted : w'.submitted = w.submitted
  applied : w'.applied = w.applied

theorem SameLedger.trans {w' w'' : QueueState} (h : SameLedger w w') (h' : SameLedger w' w'') : SameLedger w w'' :=
  ⟨h'.ledger.trans h.ledger, h'.submitted.trans h.submitted, h'.applied.trans h.applied⟩

theorem confirms_sameLedger (o : QueueOp) (w : QueueState) : SameLedger w (o.confirms w) := by
  cases o with
  | _ => exact ⟨rfl, rfl, rfl⟩

theorem performQueue_world (o : QueueOp) (ch : QueueChoice) (w : QueueState) :
    (performQueue (.inr o) ch w).2 = o.confirms w ∨
      (performQueue (.inr o) ch w).2 = (answerQueue o ch (o.confirms w)).2 :=
  carryOut_world (if o.local then Fate.done else ch.fate) ch.status
    (answerQueue o ch (o.confirms w)) (o.confirms w)

theorem performQueue_ledger (o : queueSignature.Op) (ch : QueueChoice) (w : QueueState) :
    SameLedger w (performQueue o ch w).2 ∨
      ∃ e, o = .inr (.sendTransaction e) ∧ (performQueue o ch w).2 = { w with submitted := e :: w.submitted } := by
  cases o with
  | inl o =>
    left
    refine ⟨?_, rfl, rfl⟩
    rcases performSeq_world o ⟨ch.fate, ch.status⟩ w.sequences with hw | hw
    · exact congrArg SequenceState.ledger hw
    · exact (congrArg SequenceState.ledger hw).trans (steady_answer o w.sequences).ledger
  | inr o =>
    have hconfirms := confirms_sameLedger o w
    have hworld := performQueue_world o ch w
    cases o with
    | sendTransaction e =>
      rcases hworld with hw | hw
      · rw [hw]
        exact .inl (hconfirms.trans ⟨rfl, rfl, rfl⟩)
      · rw [hw]
        by_cases hreceived : ch.response.status = .pending ∨ ch.response.status = .duplicate
        · exact .inr ⟨e, rfl, if_pos hreceived⟩
        · have hnot : (answerQueue (.sendTransaction e) ch w).2 = w := if_neg hreceived
          left
          show SameLedger w (answerQueue (.sendTransaction e) ch w).2
          rw [hnot]
          exact ⟨rfl, rfl, rfl⟩
    | _ =>
      left
      refine hconfirms.trans ?_
      rcases hworld with hw | hw
      · rw [hw]
        exact ⟨rfl, rfl, rfl⟩
      · rw [hw]
        exact ⟨rfl, rfl, rfl⟩

end

/-! ### At most one is applied -/

/-- Of the transactions of the job at most one is applied, and then none is pending; those that are pending have
one number. -/
structure Single (job : Nat) (w : QueueState) : Prop where
  once : (w.appliedOf job).length ≤ 1
  spent : w.appliedOf job ≠ [] → ∀ e ∈ w.submitted, e.job = job → e.sequence ≤ w.ledger e.account
  alike : ∀ e ∈ w.submitted, ∀ e' ∈ w.submitted, e.job = job → e'.job = job → w.pending e = true → w.pending e' = true →
    e'.account = e.account ∧ e'.sequence = e.sequence

section
variable {job : Nat} {w w' : QueueState}
  {e : Envelope}

theorem pending_iff : w.pending e = true ↔ w.ledger e.account < e.sequence := decide_eq_true_iff

theorem Single.later (h : Single job w) (hledg : ∀ account, w.ledger account ≤ w'.ledger account)
    (hsub : w'.submitted = w.submitted) (happlied : w'.applied = w.applied) : Single job w' := by
  have hof : w'.appliedOf job = w.appliedOf job := by rw [QueueState.appliedOf, happlied, QueueState.appliedOf]
  have hpend : ∀ e, w'.pending e = true → w.pending e = true := by
    intro e he
    rw [pending_iff] at he ⊢
    exact Int.lt_of_le_of_lt (hledg e.account) he
  refine ⟨hof ▸ h.once, ?_, ?_⟩
  · rw [hof, hsub]
    exact fun happ e he hjob => Int.le_trans (h.spent happ e he hjob) (hledg e.account)
  · rw [hsub]
    exact fun e he e' he' hj hj' hp hp' => h.alike e he e' he' hj hj' (hpend e hp) (hpend e' hp')

theorem loose_iff : w.loose job = false ↔
    w.appliedOf job = [] ∧ ∀ e ∈ w.submitted, e.job = job → ¬ w.pending e = true := by
  simp only [QueueState.loose, Bool.or_eq_false_iff, Bool.not_eq_false', List.isEmpty_iff, List.any_eq_false,
    Bool.and_eq_true, decide_eq_true_eq, not_and]

theorem Single.send (h : Single job w) (hsend : e.job = job → w.loose job = false) :
    Single job { w with submitted := e :: w.submitted } := by
  have hnew : e.job = job → w.appliedOf job = [] ∧ ∀ e' ∈ w.submitted, e'.job = job → ¬ w.pending e' = true :=
    fun hjob => loose_iff.mp (hsend hjob)
  refine ⟨h.once, ?_, ?_⟩
  · intro happ x hx hjob
    rcases mem_cons.mp hx with rfl | hx
    · exact absurd (hnew hjob).1 happ
    · exact h.spent happ x hx hjob
  · intro x hx y hy hxjob hyjob hxp hyp
    rcases mem_cons.mp hx with rfl | hx'
    · rcases mem_cons.mp hy with rfl | hy'
      · exact ⟨rfl, rfl⟩
      · exact absurd hyp ((hnew hxjob).2 y hy' hyjob)
    · rcases mem_cons.mp hy with rfl | hy'
      · exact absurd hxp ((hnew hyjob).2 x hx' hxjob)
      · exact h.alike x hx' y hy' hxjob hyjob hxp hyp

theorem ledger_apply (happl : w.applicable e = true) (account : String) : (driftQueue (.apply e) w).ledger account =
      if account = e.account then w.ledger account + 1 else w.ledger account := by
  rw [driftQueue, if_pos happl]
  by_cases hacct : account = e.account
  · subst hacct
    rw [if_pos rfl]
    exact update_self ..
  · rw [if_neg hacct]
    exact update_of_ne hacct ..

theorem applied_apply (happl : w.applicable e = true) :
    (driftQueue (.apply e) w).applied = e :: w.applied ∧ (driftQueue (.apply e) w).submitted = w.submitted := by
  rw [driftQueue, if_pos happl]
  exact ⟨rfl, rfl⟩

theorem ledger_drift (e : QueueEvent) (w : QueueState) (account : String) :
    w.ledger account ≤ (driftQueue e w).ledger account := by
  cases e with
  | sequence e =>
    cases e with
    | tick ms => exact Int.le_refl _
    | advance account' =>
      show w.ledger account ≤ update w.sequences.ledger account' (w.sequences.ledger account' + 1) account
      by_cases hacct : account = account'
      · subst hacct
        rw [update_self]
        exact Int.le_of_lt (Int.lt_succ _)
      · rw [update_of_ne hacct]
        exact Int.le_refl _
  | apply e =>
    by_cases happl : w.applicable e = true
    · rw [ledger_apply happl]
      split
      · exact Int.le_of_lt (Int.lt_succ _)
      · exact Int.le_refl _
    · rw [driftQueue, if_neg happl]

theorem Single.apply (h : Single job w) (happl : w.applicable e = true) : Single job (driftQueue (.apply e) w) := by
  obtain ⟨happlied, hsub⟩ := applied_apply happl
  have hledg := ledger_apply happl
  have hle := ledger_drift (.apply e) w
  simp only [QueueState.applicable, Bool.and_eq_true, decide_eq_true_eq] at happl
  obtain ⟨hmem, hnext⟩ := happl
  have hpend : w.pending e = true := pending_iff.mpr (by omega)
  by_cases hjob : e.job = job
  · have hnone : w.appliedOf job = [] := by
      by_contra happ
      have := h.spent happ e hmem hjob
      omega
    have hof : (driftQueue (.apply e) w).appliedOf job = [e] := by
      rw [QueueState.appliedOf, happlied, filter_cons_of_pos (by simpa using hjob)]
      exact congrArg (cons e) hnone
    have hspent : ∀ x ∈ w.submitted, x.job = job → x.sequence ≤ (driftQueue (.apply e) w).ledger x.account := by
      intro x hx hxjob
      by_cases hxp : w.pending x = true
      · obtain ⟨hacct, hseq⟩ := h.alike e hmem x hx hjob hxjob hpend hxp
        rw [hledg, if_pos hacct, hacct]
        omega
      · have hdead : ¬w.ledger x.account < x.sequence := fun hlt => hxp (pending_iff.mpr hlt)
        exact Int.le_trans (Int.not_lt.mp hdead) (hle x.account)
    refine ⟨by rw [hof]; exact Nat.le_refl 1, ?_, ?_⟩
    · rw [hsub]
      exact fun _ => hspent
    · rw [hsub]
      intro x hx y _ hxjob _ hxp _
      have hle' := hspent x hx hxjob
      rw [pending_iff] at hxp
      omega
  · have hof : (driftQueue (.apply e) w).appliedOf job = w.appliedOf job := by
      rw [QueueState.appliedOf, happlied, filter_cons_of_neg (by simpa using hjob)]
      rfl
    have hlater : ∀ x, (driftQueue (.apply e) w).pending x = true → w.pending x = true := by
      intro x hx
      rw [pending_iff] at hx ⊢
      exact Int.lt_of_le_of_lt (hle x.account) hx
    refine ⟨hof ▸ h.once, ?_, ?_⟩
    · rw [hof, hsub]
      exact fun happ x hx hxjob => Int.le_trans (h.spent happ x hx hxjob) (hle x.account)
    · rw [hsub]
      exact fun x hx y hy hxj hyj hxp hyp => h.alike x hx y hy hxj hyj (hlater x hxp) (hlater y hyp)

theorem Single.drift (h : Single job w) (e : QueueEvent) : Single job (driftQueue e w) := by
  cases e with
  | sequence e => exact h.later (ledger_drift (.sequence e) w) rfl rfl
  | apply e =>
    by_cases happl : w.applicable e = true
    · exact h.apply happl
    · rw [driftQueue, if_neg happl]
      exact h

theorem Single.perform {o : queueSignature.Op} {ch : QueueChoice} (h : Single job w)
    (hsend : ∀ e, o = .inr (.sendTransaction e) → e.job = job → w.loose job = false) :
    Single job (performQueue o ch w).2 := by
  rcases performQueue_ledger o ch w with hsame | ⟨e, ho, hw⟩
  · exact h.later (fun account => Int.le_of_eq (congrFun hsame.ledger account).symm) hsame.submitted hsame.applied
  · rw [hw]
    exact h.send (hsend e ho)

end

/-! ### No transaction is loose when another is sent -/

section
variable {job : Nat} {w w' : QueueState} {tr : QueueTrace} {φ : Nat → Attempt} {i : Nat} {o : queueSignature.Op}
  {ch : QueueChoice}

theorem unloose_later (h : w.loose job = false) (hledg : ∀ account, w.ledger account ≤ w'.ledger account)
    (hsub : w'.submitted = w.submitted) (happlied : w'.applied = w.applied) : w'.loose job = false := by
  obtain ⟨hnone, hdead⟩ := loose_iff.mp h
  refine loose_iff.mpr ⟨?_, ?_⟩
  · rw [QueueState.appliedOf, happlied]
    exact hnone
  · rw [hsub]
    intro e he hjob hpend
    rw [pending_iff] at hpend
    exact hdead e he hjob (pending_iff.mpr (Int.lt_of_le_of_lt (hledg e.account) hpend))

theorem unloose_send {e : Envelope} (h : w.loose job = false) (hjob : e.job ≠ job) :
    QueueState.loose { w with submitted := e :: w.submitted } job = false := by
  obtain ⟨hnone, hdead⟩ := loose_iff.mp h
  refine loose_iff.mpr ⟨hnone, ?_⟩
  intro x hx hxjob
  rcases mem_cons.mp hx with rfl | hx
  · exact absurd hxjob hjob
  · exact hdead x hx hxjob

theorem unloose_drift (h : w.loose job = false) (e : QueueEvent) : (driftQueue e w).loose job = false := by
  have hledg : ∀ account, w.ledger account ≤ (driftQueue e w).ledger account := ledger_drift e w
  cases e with
  | sequence e => exact unloose_later h hledg rfl rfl
  | apply e =>
    by_cases happl : w.applicable e = true
    · obtain ⟨hnone, hdead⟩ := loose_iff.mp h
      obtain ⟨happlied, hsub⟩ := applied_apply happl
      have hother : e.job ≠ job := by
        intro hjob
        simp only [QueueState.applicable, Bool.and_eq_true, decide_eq_true_eq] at happl
        exact hdead e happl.1 hjob (pending_iff.mpr (by omega))
      refine loose_iff.mpr ⟨?_, ?_⟩
      · rw [QueueState.appliedOf, happlied, filter_cons_of_neg (by simpa using hother)]
        exact hnone
      · rw [hsub]
        intro x hx hjob hpend
        rw [pending_iff] at hpend
        exact hdead x hx hjob (pending_iff.mpr (Int.lt_of_le_of_lt (hledg x.account) hpend))
    · rw [driftQueue, if_neg happl]
      exact h

/-- The job belongs to one call, which may send a transaction only while none of the job is loose. -/
structure Careful (job : Nat) (w : QueueState) (tr : QueueTrace) (φ : Nat → Attempt) : Prop where
  told : ∀ i, φ i = attemptOf tr i
  single : Single job w
  idle : (w.jobs ≤ job ∨ ∃ i, φ i = ⟨some job, .free⟩) → w.loose job = false
  numbered : ∀ i n, (φ i).job = some n → n < w.jobs
  sole : ∀ i j, (φ i).job = some job → (φ j).job = some job → i = j

theorem jobs_perform (o : queueSignature.Op) (ch : QueueChoice) (w : QueueState) :
    w.jobs ≤ (performQueue o ch w).2.jobs := by
  cases o with
  | inl o => exact Nat.le_refl _
  | inr o =>
    have hconfirms : (o.confirms w).jobs = w.jobs := by cases o <;> rfl
    rcases performQueue_world o ch w with hw | hw
    · rw [hw, hconfirms]
    · rw [hw]
      cases o with
      | addJob => exact Nat.le_succ _
      | sendTransaction e =>
        show w.jobs ≤ (w.receive e ch.response.status).jobs
        unfold QueueState.receive
        split <;> exact Nat.le_refl _
      | _ => exact Nat.le_refl _

theorem performQueue_ok {o : QueueOp} {reply : o.Reply} (h : (performQueue (.inr o) ch w).1 = .ok reply) :
    reply = (answerQueue o ch (o.confirms w)).1 ∧ (performQueue (.inr o) ch w).2 = (answerQueue o ch (o.confirms w)).2 :=
  carryOut_ok h

/-- Only an answer about a transaction changes the stage, and only the answer to a new job the job. -/
theorem next_perform (φ : Attempt) (o : queueSignature.Op) (ch : QueueChoice) (w : QueueState) :
    ((φ.next o (performQueue o ch w).1).job = φ.job ∧ (telling o = false → φ.next o (performQueue o ch w).1 = φ)) ∨
      o = .inr .addJob ∧ φ.next o (performQueue o ch w).1 = ⟨some w.jobs, .free⟩ ∧
        (performQueue o ch w).2 = { w with jobs := w.jobs + 1 } := by
  cases o with
  | inl o => exact .inl ⟨rfl, fun _ => rfl⟩
  | inr o =>
    cases o with
    | addJob =>
      cases hres : (performQueue (.inr .addJob) ch w).1 with
      | error e => exact .inl ⟨rfl, fun _ => rfl⟩
      | ok n =>
        obtain ⟨hn, hw⟩ := performQueue_ok hres
        subst hn
        exact .inr ⟨rfl, rfl, hw⟩
    | sendTransaction | getTransaction | lookupTransaction => exact .inl ⟨rfl, fun h => nomatch h⟩
    | _ => exact .inl ⟨rfl, fun _ => rfl⟩

theorem unloose_perform (h : w.loose job = false) (hother : ∀ e, o = .inr (.sendTransaction e) → e.job ≠ job) :
    (performQueue o ch w).2.loose job = false := by
  rcases performQueue_ledger o ch w with hsame | ⟨e, ho, hw⟩
  · exact unloose_later h (fun account => Int.le_of_eq (congrFun hsame.ledger account).symm) hsame.submitted hsame.applied
  · rw [hw]
    exact unloose_send h (hother e ho)

theorem Careful.told_next (h : Careful job w tr φ) (r : queueSignature.Result o) (j : Nat) :
    update φ i ((φ i).next o r) j = attemptOf (⟨i, o, r⟩ :: tr) j := by
  rw [attemptOf]
  by_cases hj : j = i
  · subst hj
    rw [update_self, if_pos rfl, h.told j]
  · rw [update_of_ne hj, if_neg (Ne.symm hj), h.told j]

theorem Careful.add (h : Careful job w tr φ) (r : queueSignature.Result (.inr .addJob))
    (hnew : (φ i).next (.inr .addJob) r = ⟨some w.jobs, .free⟩) :
    Careful job { w with jobs := w.jobs + 1 } (⟨i, .inr .addJob, r⟩ :: tr)
      (update φ i ((φ i).next (.inr .addJob) r)) := by
  refine ⟨h.told_next r, h.single.later (fun _ => Int.le_refl _) rfl rfl, ?_, ?_, ?_⟩
  · rintro (hnone | ⟨j, hj⟩)
    · exact h.idle (.inl (Nat.le_of_succ_le hnone))
    · by_cases hij : j = i
      · subst hij
        rw [update_self, hnew] at hj
        cases hj
        exact h.idle (.inl (Nat.le_refl _))
      · rw [update_of_ne hij] at hj
        exact h.idle (.inr ⟨j, hj⟩)
  · intro j n hj
    by_cases hij : j = i
    · subst hij
      rw [update_self, hnew] at hj
      cases hj
      exact Nat.lt_succ_self _
    · rw [update_of_ne hij] at hj
      exact Nat.lt_succ_of_lt (h.numbered j n hj)
  · -- a job that is new belongs to no other call
    have hother : ∀ j, j ≠ i → (update φ i ((φ i).next (.inr .addJob) r) j).job = some w.jobs → False := by
      intro j hj hjob
      rw [update_of_ne hj] at hjob
      exact Nat.lt_irrefl _ (h.numbered j _ hjob)
    intro j k hj hk
    by_cases hji : j = i
    · by_cases hki : k = i
      · rw [hji, hki]
      · subst hji
        rw [update_self, hnew] at hj
        cases hj
        exact absurd hk (hother k hki)
    · by_cases hki : k = i
      · subst hki
        rw [update_self, hnew] at hk
        cases hk
        exact absurd hj (hother j hji)
      · rw [update_of_ne hji] at hj
        rw [update_of_ne hki] at hk
        exact h.sole j k hj hk

theorem Careful.keep {φ' : Attempt} {r : queueSignature.Result o} (h : Careful job w tr φ)
    (htold : ∀ j, update φ i φ' j = attemptOf (⟨i, o, r⟩ :: tr) j) (hjob : φ'.job = (φ i).job)
    (hsingle : Single job w') (hjobs : w.jobs ≤ w'.jobs) (hfree : φ' = ⟨some job, .free⟩ → w'.loose job = false)
    (hidle : (w.jobs ≤ job ∨ ∃ j, j ≠ i ∧ φ j = ⟨some job, .free⟩) → w'.loose job = false) :
    Careful job w' (⟨i, o, r⟩ :: tr) (update φ i φ') := by
  have hsame : ∀ j, (update φ i φ' j).job = (φ j).job := by
    intro j
    by_cases hj : j = i
    · subst hj
      rw [update_self, hjob]
    · rw [update_of_ne hj]
  refine ⟨htold, hsingle, ?_, ?_, ?_⟩
  · rintro (hnone | ⟨j, hj⟩)
    · exact hidle (.inl (Nat.le_trans hjobs hnone))
    · by_cases hij : j = i
      · subst hij
        rw [update_self] at hj
        exact hfree hj
      · rw [update_of_ne hij] at hj
        exact hidle (.inr ⟨j, hij, hj⟩)
  · intro j n hj
    exact Nat.lt_of_lt_of_le (h.numbered j n ((hsame j).symm.trans hj)) hjobs
  · intro j k hj hk
    exact h.sole j k ((hsame j).symm.trans hj) ((hsame k).symm.trans hk)

theorem Careful.step {p : QueuePool} (h : Careful job p.world p.trace φ) (ha : (φ i).Allows o)
    (hguard : resolved job p i o ch = true) : Careful job (performQueue o ch p.world).2
      (⟨i, o, (performQueue o ch p.world).1⟩ :: p.trace) (update φ i ((φ i).next o (performQueue o ch p.world).1)) := by
  rcases next_perform (φ i) o ch p.world with ⟨hjob, hquiet⟩ | ⟨rfl, hnew, hw⟩
  · have hsend : ∀ e, o = .inr (.sendTransaction e) → e.job = job → φ i = ⟨some job, .free⟩ := by
      rintro e rfl rfl
      exact ha
    refine h.keep (h.told_next _) hjob ?_ (jobs_perform o ch p.world) ?_ ?_
    · refine h.single.perform fun e ho hejob => h.idle (.inr ⟨i, hsend e ho hejob⟩)
    · intro hfree
      cases htelling : telling o with
      | true =>
        simpa [resolved, htelling, ← h.told i, hfree, Attempt.maySend] using hguard
      | false =>
        rw [hquiet htelling] at hfree
        refine unloose_perform (h.idle (.inr ⟨i, hfree⟩)) ?_
        rintro e rfl
        cases htelling
    · intro hidle
      refine unloose_perform (h.idle (hidle.imp_right fun ⟨j, _, hj⟩ => ⟨j, hj⟩)) ?_
      intro e ho hejob
      have hi := hsend e ho hejob
      rcases hidle with hnone | ⟨j, hj, hfree⟩
      · have hlt := h.numbered i job (by rw [hi])
        omega
      · exact hj (h.sole j i (by rw [hfree]) (by rw [hi]))
  · rw [hw]
    exact h.add _ hnew

theorem Careful.drift (h : Careful job w tr φ) (e : QueueEvent) : Careful job (driftQueue e w) tr φ := by
  have hjobs : (driftQueue e w).jobs = w.jobs := by
    cases e with
    | sequence e => rfl
    | apply e =>
      rw [driftQueue]
      split
      · rfl
      · rfl
  refine ⟨h.told, h.single.drift e, ?_, ?_, h.sole⟩
  · rw [hjobs]
    exact fun hidle => unloose_drift (h.idle hidle) e
  · rw [hjobs]
    exact h.numbered

theorem careful_inductive (cfg : Settings) : Inductive (transactions cfg) attempting {}
    (fun p a => onStep (resolved job) p a = true) (Careful job) where
  body := fun _ c _ => follows_mono (follows_body_attempt c) fun _ _ _ => trivial
  arrive := by
    rintro p φ c w - ht ⟨⟩
    exact ht.holds
  drift := fun p φ e _ ht => ht.holds.drift e
  answers := by
    intro p φ i o ch _ _ _ _
    exact ⟨_, fun hlocal => performQueue_local hlocal ch p.world, rfl⟩
  step := by
    rintro p φ i o ch _ hguard hp ht ha ⟨-, rfl⟩
    exact ht.holds.step ha (onStep_pending hguard hp)

end

/-- **A request takes effect at most once, if no attempt is given up whose transaction is loose.** The calls of any
number of requests interleave, and so do those of the sequence numbers; operations are refused, or are carried out and
their answers are lost, and the ledger applies what it has received when it likes. -/
theorem applied_once (cfg : Settings) (job : Nat) {w : QueueState} {q : QueuePool} (hsub : w.submitted = [])
    (happlied : w.applied = []) (run : Run (transactions cfg) (fun p a => onStep (resolved job) p a = true)
      (Pool.start w) q) : (q.world.appliedOf job).length ≤ 1 := by
  have hnone : w.appliedOf job = [] := by rw [QueueState.appliedOf, happlied, filter_nil]
  have hstart : Careful job w [] fun _ => {} := by
    refine ⟨fun _ => rfl, ⟨?_, ?_, ?_⟩, ?_, (fun i n hn => nomatch hn), (fun i j hi => nomatch hi)⟩
    · rw [hnone]
      exact Nat.zero_le 1
    · exact fun happ => absurd hnone happ
    · simp [hsub]
    · exact fun _ => loose_iff.mpr ⟨hnone, by simp [hsub]⟩
  obtain ⟨φ, htracked⟩ := (careful_inductive cfg).run run ⟨_, Tracked.start hstart⟩
  exact htracked.holds.single.once

def anySize : Settings := ⟨fun _ => 0, 65536⟩

def sampleRequest : TransactionRequest := ⟨"GA", none, none, none, none⟩

def go (n : Nat) : List (Action (transactions anySize)) := replicate n (.step 0 {})

def firstAttempt : List (Action (transactions anySize)) := .call (.submit sampleRequest) :: go 12

def applies (e : Envelope) : List (Action (transactions anySize)) := [.drift (.apply e)]

/-- The first transaction never reaches the network; the gateway times out on the second, which the ledger applies
before it is asked for again. -/
theorem applied_once_reconciled : ∃ q, Run (transactions anySize) (fun p a => onStep (resolved 0) p a = true)
        (Pool.start (.empty (fun _ => 100) [])) q ∧
      q.quiet = true ∧ q.world.submitted = [⟨0, 2, "GA", 101⟩] ∧ q.world.applied = [⟨0, 2, "GA", 101⟩] ∧
      (q.world.appliedOf 0).length ≤ 1 := by
  obtain ⟨q, hrun, htest⟩ := Run.exists_of_any (Pool.start (QueueState.empty (fun _ => 100) [])) (onStep (resolved 0))
    (firstAttempt ++ .step 0 { fate := .refused "timeout" } :: go 15 ++
      .step 0 { fate := .lost "Gateway Timeout", status := some 504 } :: go 2 ++
      applies ⟨0, 2, "GA", 101⟩ ++ .step 0 { found := .success 7 } :: go 1)
    (fun q : QueuePool => decide (q.quiet = true ∧ q.world.submitted = [⟨0, 2, "GA", 101⟩] ∧
      q.world.applied = [⟨0, 2, "GA", 101⟩])) (by decide +kernel)
  obtain ⟨hquiet, hsub, happlied⟩ := of_decide_eq_true htest
  exact ⟨q, hrun, hquiet, hsub, happlied, applied_once anySize 0 rfl rfl hrun⟩

/-- **A request takes effect twice.** The connection is reset after the transaction has reached the network; it is
applied, and so is that of the next attempt. -/
theorem applied_twice : ∃ q, Run (transactions anySize) (fun _ _ => True) (Pool.start (.empty (fun _ => 100) [])) q ∧
      q.quiet = true ∧ q.world.appliedOf 0 = [⟨0, 2, "GA", 102⟩, ⟨0, 1, "GA", 101⟩] := by
  obtain ⟨q, hrun, htest⟩ := Run.exists_of_any (Pool.start (QueueState.empty (fun _ => 100) [])) (fun _ _ => true)
    (firstAttempt ++ .step 0 { fate := .lost "timeout" } :: applies ⟨0, 1, "GA", 101⟩ ++ go 17 ++
      .step 0 { found := .success 1 } :: go 1 ++ applies ⟨0, 2, "GA", 102⟩)
    (fun q : QueuePool => decide (q.quiet = true ∧ q.world.appliedOf 0 = [⟨0, 2, "GA", 102⟩, ⟨0, 1, "GA", 101⟩]))
    (by decide +kernel)
  exact ⟨q, hrun.mono fun _ _ _ => trivial, of_decide_eq_true htest⟩

end Delego.Wallet
