import Delego.Checkout.Idempotency

/-! Leases and records, one operation at a time.

A lease is new when it is taken, and held until it is released. -/
namespace Delego.Checkout
open Delego.Process Delego.Data Function

def taken : (o : Op) → checkoutSignature.Result o → Option (String × Nat)
  | .acquireLease id, .ok (some token) => some (id, token)
  | _, _ => none

/-- The completed record that an operation has read. -/
def seen : (o : Op) → checkoutSignature.Result o → Option (String × IdempotencyRecord)
  | .getRecord id, .ok record => (completed record).map fun record => (id, record)
  | _, _ => none

/-- The record that an operation writes or deletes. -/
def Op.writes : Op → Option String
  | .markInProgress id _ _ => some id
  | .complete id _ _ _ => some id
  | .discard id => some id
  | _ => none

def Stage.writing : Stage → Bool
  | .cleared => true
  | .leased => true
  | .running => true
  | .ended _ => true
  | _ => false

section
variable {φ : Phase} {o : Op} {r : checkoutSignature.Result o} {id : String} {token : Nat} {stage : Stage}

theorem holder_of_writes (ha : φ.Allows o) (hwr : o.writes = some id) :
    ∃ token stage, φ = .holding id token stage ∧ stage.writing = true := by
  cases o with
  | markInProgress id' fingerprint requestHash =>
    cases hwr
    cases φ with
    | holding id'' token stage =>
      cases stage with
      | cleared =>
        cases ha
        exact ⟨token, .cleared, rfl, rfl⟩
      | _ => cases ha
    | _ => cases ha
  | complete id' fingerprint requestHash response =>
    cases hwr
    cases φ with
    | holding id'' token stage =>
      cases stage with
      | ended response' =>
        cases ha.1
        exact ⟨token, .ended response', rfl, rfl⟩
      | _ => cases ha
    | _ => cases ha
  | discard id' =>
    cases hwr
    cases φ with
    | holding id'' token stage =>
      cases stage with
      | ended response' =>
        cases ha.1
        exact ⟨token, .ended response', rfl, rfl⟩
      | _ => cases ha
    | _ => cases ha
  | _ => cases hwr

theorem next_taken (h : taken o r = some (id, token)) : φ.next o r = .holding id token .acquired := by
  cases o with
  | acquireLease id' =>
    cases r with
    | error message => cases h
    | ok token' =>
      cases token' with
      | none => cases h
      | some token' =>
        cases h
        rfl
  | _ => cases h

inductive Phase.Leads (φ : Phase) (o : Op) (r : checkoutSignature.Result o) : Phase → Prop where
  | same : φ.Leads o r φ
  | fails {message : String} (hr : r = .error message) : φ.Leads o r .failedOpen
  | takes {id : String} {token : Nat} (htaken : taken o r = some (id, token)) : φ.Leads o r (.holding id token .acquired)
  | reaches {id : String} {token : Nat} {before stage : Stage} (hφ : φ = .holding id token before)
    (hstage : ∀ record, stage ≠ .yielding record) : φ.Leads o r (.holding id token stage)
  | yields {id id' : String} {token : Nat} {before : Stage} {record : IdempotencyRecord}
    (hφ : φ = .holding id token before) (hseen : seen o r = some (id', record)) :
    φ.Leads o r (.holding id token (.yielding record))
  | replays {id : String} {record : IdempotencyRecord} (hseen : seen o r = some (id, record)) :
    φ.Leads o r (.replaying id record)
  | returns {id : String} {token : Nat} {record : IdempotencyRecord}
    (hφ : φ = .holding id token (.yielding record)) : φ.Leads o r (.replaying id record)
  | frees : φ.Leads o r .free

theorem leads_reach (hstage : ∀ record, stage ≠ .yielding record) : φ.Leads o r (φ.reach stage) := by
  cases φ with
  | holding id token before => exact .reaches rfl hstage
  | _ => exact .same

theorem leads_look {read : Option IdempotencyRecord} : φ.Leads (.getRecord id) (.ok read) (φ.look id read) := by
  have hseen : ∀ {record}, completed read = some record →
      seen (.getRecord id) (.ok read) = some (id, record) := by
    intro record hread
    simp [seen, hread]
  cases φ with
  | holding id' token before =>
    simp only [Phase.look]
    cases hread : completed read with
    | none => exact .reaches rfl (by rintro record ⟨⟩)
    | some record => exact .yields rfl (hseen hread)
  | _ =>
    simp only [Phase.look]
    cases hread : completed read with
    | none => exact .same
    | some record => exact .replays (hseen hread)

theorem leads_next : φ.Leads o r (φ.next o r) := by
  cases o with
  | getRecord id' =>
    cases r with
    | error message => exact .fails rfl
    | ok read => exact leads_look
  | acquireLease id' =>
    cases r with
    | error message => exact .fails rfl
    | ok token' =>
      cases token' with
      | none => exact .same
      | some token' => exact .takes rfl
  | releaseLease id' token' =>
    simp only [Phase.next, Phase.release]
    split
    · exact .returns rfl
    · exact .frees
  | markInProgress id' fingerprint requestHash =>
    cases r with
    | error message => exact .fails rfl
    | ok _ => exact leads_reach (by rintro record ⟨⟩)
  | complete id' fingerprint requestHash response => exact leads_reach (by rintro record ⟨⟩)
  | discard id' => exact leads_reach (by rintro record ⟨⟩)
  | start id' => exact leads_reach (by rintro record ⟨⟩)
  | finish id' =>
    cases r with
    | error message => exact .same
    | ok output => exact leads_reach (by rintro record ⟨⟩)
  | _ => exact .same

theorem holding_of_next (h : φ.next o r = .holding id token stage) (htaken : taken o r = none) :
    ∃ stage', φ = .holding id token stage' := by
  have hleads : φ.Leads o r (.holding id token stage) := h ▸ leads_next
  cases hleads with
  | same => exact ⟨stage, rfl⟩
  | takes hnew =>
    simp [htaken] at hnew
  | reaches hφ hstage => exact ⟨_, hφ⟩
  | yields hφ hseen => exact ⟨_, hφ⟩

theorem holding_step {φ : Nat → Phase} {i j : Nat} (h : update φ i ((φ i).next o r) j = .holding id token stage) :
    (∃ stage', φ j = .holding id token stage') ∨ j = i ∧ taken o r = some (id, token) ∧ stage = .acquired := by
  by_cases hji : j = i
  · subst hji
    rw [update_self] at h
    cases htaken : taken o r with
    | none => exact .inl (holding_of_next h htaken)
    | some lease =>
      obtain ⟨id', token'⟩ := lease
      rw [next_taken htaken] at h
      cases h
      exact .inr ⟨rfl, rfl, rfl⟩
  · rw [update_of_ne hji] at h
    exact .inl ⟨stage, h⟩

theorem release_ne_holding : φ.release ≠ .holding id token stage := by
  intro h
  unfold Phase.release at h
  split at h
  · cases h
  · cases h

theorem holder_of_release (ha : φ.Allows (.releaseLease id token)) : ∃ stage, φ = .holding id token stage := by
  cases φ with
  | holding id' token' stage =>
    cases stage with
    | yielding record =>
      obtain ⟨rfl, rfl⟩ := ha
      exact ⟨_, rfl⟩
    | stored =>
      obtain ⟨rfl, rfl⟩ := ha
      exact ⟨_, rfl⟩
    | _ => cases ha
  | _ => cases ha

end

section
variable {o : Op} {ch : Choice} {w : World} {id : String} {token : Nat}

theorem records_perform (h : o.writes ≠ some id) : (perform o ch w).2.records id = w.records id := by
  have hans : (answer o ch w).2.records id = w.records id := by
    cases o with
    | acquireLease id' =>
      simp only [answer]
      split
      · rfl
      · rfl
    | releaseLease id' token' =>
      simp only [answer]
      split
      · rfl
      · rfl
    | markInProgress id' fingerprint requestHash => exact update_of_ne (fun heq => h (congrArg some heq.symm)) _ _
    | complete id' fingerprint requestHash response =>
      exact update_of_ne (fun heq => h (congrArg some heq.symm)) _ _
    | discard id' => exact update_of_ne (fun heq => h (congrArg some heq.symm)) _ _
    | _ => rfl
  exact Fate.carry_kept (P := fun w' : World => w'.records id = w.records id) rfl hans

theorem issued_perform : w.issued ≤ (perform o ch w).2.issued := by
  have hans : w.issued ≤ (answer o ch w).2.issued := by
    cases o with
    | acquireLease id' =>
      simp only [answer]
      split
      · exact Nat.le_succ _
      · exact Nat.le_succ _
    | releaseLease id' token' =>
      simp only [answer]
      split
      · exact Nat.le_refl _
      · exact Nat.le_refl _
    | _ => exact Nat.le_refl _
  exact Fate.carry_kept (P := fun w' : World => w.issued ≤ w'.issued) (Nat.le_refl _) hans

theorem locks_perform (h : (perform o ch w).2.locks id = some token) :
    w.locks id = some token ∨ token = w.issued ∧ w.issued < (perform o ch w).2.issued := by
  have hans : (answer o ch w).2.locks id = some token →
      w.locks id = some token ∨ token = w.issued ∧ w.issued < (answer o ch w).2.issued := by
    intro h
    cases o with
    | acquireLease id' =>
      simp only [answer] at h ⊢
      split at h
      · exact .inl h
      · dsimp only at h
        by_cases hid : id = id'
        · subst hid
          rw [update_self] at h
          cases h
          exact .inr ⟨rfl, Nat.lt_succ_self _⟩
        · rw [update_of_ne hid] at h
          exact .inl h
    | releaseLease id' token' =>
      simp only [answer] at h
      split at h
      · dsimp only at h
        by_cases hid : id = id'
        · subst hid
          simp [update_self] at h
        · rw [update_of_ne hid] at h
          exact .inl h
      · exact .inl h
    | _ => exact .inl h
  exact Fate.carry_kept (P := fun w' : World => w'.locks id = some token →
    w.locks id = some token ∨ token = w.issued ∧ w.issued < w'.issued) .inl hans h

theorem taken_perform (h : taken o (perform o ch w).1 = some (id, token)) :
    token = w.issued ∧ w.issued < (perform o ch w).2.issued ∧ w.locks id = none ∧
      (perform o ch w).2.locks id = some token := by
  cases o with
  | acquireLease id' =>
    simp only [perform, Op.command, if_true] at h ⊢
    cases hfate : ch.fate with
    | done =>
      simp only [hfate, Fate.carry, answer] at h ⊢
      cases hlock : w.locks id' with
      | some token' =>
        rw [hlock] at h
        cases h
      | none =>
        rw [hlock] at h
        cases h
        exact ⟨rfl, Nat.lt_succ_self _, hlock, update_self _ _ _⟩
    | refused message =>
      rw [hfate] at h
      cases h
    | lost message =>
      rw [hfate] at h
      cases h
  | _ => cases h

theorem lock_kept (h : w.locks id = some token) (hkept : o ≠ .releaseLease id token) :
    (perform o ch w).2.locks id = some token := by
  have hans : (answer o ch w).2.locks id = some token := by
    cases o with
    | acquireLease id' =>
      simp only [answer]
      split
      · exact h
      · rename_i hfree
        have hid : id ≠ id' := by
          rintro rfl
          simp [h] at hfree
        exact (update_of_ne hid _ _).trans h
    | releaseLease id' token' =>
      simp only [answer]
      split
      · rename_i hlock
        have hid : id ≠ id' := by
          rintro rfl
          rw [h] at hlock
          cases hlock
          exact hkept rfl
        exact (update_of_ne hid _ _).trans h
      · exact h
    | _ => exact h
  exact Fate.carry_kept (P := fun w' : World => w'.locks id = some token) h hans

theorem answered_perform (ch : Choice) (w : World) (h : o.command = false) : ∃ a, (perform o ch w).1 = .ok a := by
  refine ⟨(answer o ch w).1, ?_⟩
  simp [perform, Fate.carry, h]

end

/-! ### A sample request -/

def sampleSettings : Settings := ⟨id, 5000, 50⟩

def sampleWorld : World := ⟨fun _ => none, fun _ => none, 0⟩

def sampleInput : Fingerprint.CheckoutFingerprintInput := ⟨"wallet-1", none, "order-1", fun _ hnone => nomatch hnone⟩

def sampleCall : Call := ⟨⟨"user-1", some "key-1", sampleInput⟩, 3⟩

def sampleId : String := sampleCall.request.id sampleSettings

/-- The call of a request takes the lease, marks the record and starts its handler. -/
def starts (i : Nat) : List (Action (system sampleSettings)) :=
  [.step i {}, .step i {}, .step i {}, .step i {}, .step i {}, .step i {}]

/-- A response that is written as one text. -/
def sampleOutput (statusCode : Nat) (text : String) : Output := ⟨statusCode, [.string text (utf8 text)]⟩

/-- The handler ends, and its response is persisted. -/
def ends (i : Nat) (output : Output) : List (Action (system sampleSettings)) :=
  [.step i { output := output }, .step i {}]

/-! ### What a holder whose lease has expired can do to the record

The record has no such guard: a slow request that ends after a newer one has completed deletes or replaces its record
(`outcome_discarded`).

Where every write of the record comes from a request whose token is in the lock, a holder that may still write has found
no completed record, and a completed record stays until it expires (`outcome_survives`). -/

def leaseOf : CheckoutTrace → Nat → Option Nat
  | [], _ => none
  | e :: tr, i => if e.runner = i then ((taken e.op e.result).map Prod.snd).or (leaseOf tr i) else leaseOf tr i

def holds (p : CheckoutPool) (i : Nat) (o : Op) (_ : Choice) : Bool :=
  o.writes.all fun id => (p.world.locks id).isSome && p.world.locks id = leaseOf p.trace i

/-- No token is held twice, and a holder that may write and whose token is in the lock has found
no completed record. -/
structure Guarded (k : String) (w : World) (tr : CheckoutTrace) (φ : Nat → Phase) : Prop where
  lock : ∀ token, w.locks k = some token → token < w.issued
  issued : ∀ {i id token stage}, φ i = .holding id token stage → token < w.issued
  own : ∀ {i j id id' token stage stage'}, φ i = .holding id token stage → φ j = .holding id' token stage' → i = j
  lease : ∀ {i id token stage}, φ i = .holding id token stage → leaseOf tr i = some token
  clear : ∀ {i token stage}, φ i = .holding k token stage → stage.writing = true → w.locks k = some token →
    completed (w.records k) = none

theorem guarded_start {k : String} {w : World} (h : ∀ token, w.locks k = some token → token < w.issued) :
    Guarded k w [] fun _ => .free where
  lock := h
  issued := fun h => by cases h
  own := fun h => by cases h
  lease := fun h => by cases h
  clear := fun h => by cases h

section
variable {k : String} {w : World} {tr : CheckoutTrace} {φ : Nat → Phase} {i : Nat} {o : Op} {ch : Choice}

theorem clear_self {token : Nat} {stage stage' : Stage} (ha : (Phase.holding k token stage').Allows o)
    (hclear : stage'.writing = true → completed (w.records k) = none)
    (hnext : (Phase.holding k token stage').next o (perform o ch w).1 = .holding k token stage)
    (hwriting : stage.writing = true) : completed ((perform o ch w).2.records k) = none := by
  cases stage' with
  | acquired =>
    cases o with
    | getRecord id =>
      cases ha
      simp only [perform, Op.command, if_true] at hnext ⊢
      cases hfate : ch.fate with
      | done =>
        simp only [hfate, Fate.carry, answer, Phase.next, Phase.look] at hnext ⊢
        cases hrec : completed (w.records k) with
        | none => rfl
        | some record =>
          rw [hrec] at hnext
          cases hnext
          cases hwriting
      | refused message =>
        rw [hfate] at hnext
        cases hnext
      | lost message =>
        rw [hfate] at hnext
        cases hnext
    | _ => cases ha
  | cleared =>
    cases o with
    | markInProgress id fingerprint requestHash =>
      cases ha
      simp only [perform, Op.command, if_true] at hnext ⊢
      cases hfate : ch.fate with
      | done => simp [Fate.carry, answer, completed]
      | refused message =>
        rw [hfate] at hnext
        cases hnext
      | lost message =>
        rw [hfate] at hnext
        cases hnext
    | _ => cases ha
  | leased =>
    cases o with
    | start id => exact hclear rfl
    | _ => cases ha
  | running =>
    cases o with
    | finish id => exact hclear rfl
    | _ => cases ha
  | ended response =>
    cases o with
    | complete id fingerprint requestHash response' =>
      cases hnext
      cases hwriting
    | discard id =>
      cases hnext
      cases hwriting
    | _ => cases ha
  | yielding record =>
    cases o with
    | releaseLease id token' => cases hnext
    | _ => cases ha
  | stored =>
    cases o with
    | flush id response =>
      cases hnext
      cases hwriting
    | releaseLease id token' => cases hnext
    | _ => cases ha

theorem Guarded.only_holder_writes (h : Guarded k w tr φ) (ha : (φ i).Allows o)
    (hholds : o.writes = some k → ∃ token, w.locks k = some token ∧ leaseOf tr i = some token)
    {j token : Nat} {stage : Stage} (hj : φ j = .holding k token stage) (hlock : w.locks k = some token)
    (hji : j ≠ i) : o.writes ≠ some k := by
  intro hwr
  obtain ⟨token', hlocked, hlease⟩ := hholds hwr
  obtain ⟨token'', stage'', hholder, -⟩ := holder_of_writes ha hwr
  rw [h.lease hholder] at hlease
  rw [hlock] at hlocked
  cases hlocked
  cases hlease
  exact hji (h.own hj hholder)

theorem Guarded.step (h : Guarded k w tr φ) (ha : (φ i).Allows o)
    (hholds : o.writes = some k → ∃ token, w.locks k = some token ∧ leaseOf tr i = some token) :
    Guarded k (perform o ch w).2 (⟨i, o, (perform o ch w).1⟩ :: tr)
      (update φ i ((φ i).next o (perform o ch w).1)) where
  lock := by
    intro token hlock
    rcases locks_perform hlock with hpre | ⟨rfl, hnew⟩
    · exact Nat.lt_of_lt_of_le (h.lock token hpre) issued_perform
    · exact hnew
  issued := by
    intro j id token stage hj
    rcases holding_step hj with ⟨stage', hpre⟩ | ⟨-, htaken, -⟩
    · exact Nat.lt_of_lt_of_le (h.issued hpre) issued_perform
    · obtain ⟨rfl, hnew, -⟩ := taken_perform htaken
      exact hnew
  own := by
    intro j j' id id' token stage stage' hj hj'
    rcases holding_step hj with ⟨_, hpre⟩ | ⟨rfl, htaken, -⟩
    · rcases holding_step hj' with ⟨_, hpre'⟩ | ⟨-, htaken', -⟩
      · exact h.own hpre hpre'
      · exact absurd (taken_perform htaken').1 (Nat.ne_of_lt (h.issued hpre))
    · rcases holding_step hj' with ⟨_, hpre'⟩ | ⟨rfl, -, -⟩
      · exact absurd (taken_perform htaken).1 (Nat.ne_of_lt (h.issued hpre'))
      · rfl
  lease := by
    intro j id token stage hj
    by_cases hji : j = i
    · subst hji
      rw [leaseOf, if_pos rfl]
      cases htaken : taken o (perform o ch w).1 with
      | some lease =>
        obtain ⟨id', token'⟩ := lease
        rw [update_self, next_taken htaken] at hj
        cases hj
        rfl
      | none =>
        rw [update_self] at hj
        obtain ⟨stage', hpre⟩ := holding_of_next hj htaken
        exact h.lease hpre
    · rw [update_of_ne hji] at hj
      rw [leaseOf, if_neg (Ne.symm hji)]
      exact h.lease hj
  clear := by
    intro j token stage hj hwriting hlock
    rcases holding_step hj with ⟨stage', hpre⟩ | ⟨-, -, rfl⟩
    · have hlock' : w.locks k = some token := by
        rcases locks_perform hlock with hkept | ⟨hnew, -⟩
        · exact hkept
        · exact absurd hnew (Nat.ne_of_lt (h.issued hpre))
      by_cases hji : j = i
      · subst hji
        rw [update_self] at hj
        rw [hpre] at hj ha
        exact clear_self ha (fun hw => h.clear hpre hw hlock') hj hwriting
      · rw [update_of_ne hji] at hj
        rw [records_perform (h.only_holder_writes ha hholds hj hlock' hji)]
        exact h.clear hj hwriting hlock'
    · cases hwriting

end

section
variable (cfg : Settings) (k : String)

theorem holds_of_guard {p : CheckoutPool} {i : Nat} {o : Op} {ch : Choice} (h : holds p i o ch = true)
    (hwr : o.writes = some k) : ∃ token, p.world.locks k = some token ∧ leaseOf p.trace i = some token := by
  rw [holds, hwr] at h
  simp only [Option.all_some, Bool.and_eq_true, decide_eq_true_eq] at h
  obtain ⟨token, hlock⟩ := Option.isSome_iff_exists.mp h.1
  exact ⟨token, hlock, h.2 ▸ hlock⟩

theorem guarded_inductive :
    Inductive (system cfg) requesting .free (fun p a => onStep holds p a = true) (Guarded k) where
  body := fun _ call _ => follows_checkout call.request call.rounds
  arrive := by
    rintro p φ call w - ht ⟨⟩
    exact ht.holds
  drift := by
    intro p φ e _ ht
    have h := ht.holds
    cases e with
    | lock id =>
      have hlock : ∀ token, (expire (.lock id) p.world).locks k = some token → p.world.locks k = some token := by
        intro token hlock
        simp only [expire] at hlock
        by_cases hid : k = id
        · subst hid
          simp [update_self] at hlock
        · rwa [update_of_ne hid] at hlock
      refine ⟨fun token hkept => h.lock token (hlock token hkept), h.issued, h.own, h.lease, ?_⟩
      intro i token stage hi hwriting hkept
      exact h.clear hi hwriting (hlock token hkept)
    | record id =>
      refine ⟨h.lock, h.issued, h.own, h.lease, ?_⟩
      intro i token stage hi hwriting hkept
      show completed (update p.world.records id none k) = none
      by_cases hid : k = id
      · subst hid
        rw [update_self]
        rfl
      · rw [update_of_ne hid]
        exact h.clear hi hwriting hkept
  answers := fun p _ _ _ ch _ _ _ _ => ⟨_, answered_perform ch p.world, rfl⟩
  step := by
    rintro p φ i o ch _ hg hp ht ha ⟨-, rfl⟩
    exact ht.holds.step ha (holds_of_guard k (onStep_pending hg hp))

/-- Every write comes while the writer's token is in the lock, and the record does not expire. -/
def unexpired (p : CheckoutPool) (a : Action (system cfg)) : Prop := onStep holds p a = true ∧ a ≠ .drift (.record k)

theorem survives_inductive (record : IdempotencyRecord) (hcomp : record.status = .completed) :
    Inductive (system cfg) requesting .free (unexpired cfg k)
      fun w tr φ => Guarded k w tr φ ∧ w.records k = some record := by
  apply (guarded_inductive cfg k).and
  · exact fun _ _ h => h.1
  · rintro p φ call w - - hrec ⟨⟩
    exact hrec
  · intro p φ e hg _ hrec
    cases e with
    | lock id => exact hrec
    | record id =>
      have hid : k ≠ id := by
        rintro rfl
        exact hg.2 rfl
      exact (update_of_ne hid _ _).trans hrec
  · intro p φ i o ch φ' hg hp ht hrec ha _
    have hother : o.writes ≠ some k := by
      -- a writer that holds the lock has found no completed record
      intro hwr
      obtain ⟨token, hlock, hlease⟩ := holds_of_guard k (onStep_pending hg.1 hp) hwr
      obtain ⟨token', stage, hholder, hwriting⟩ := holder_of_writes ha hwr
      rw [ht.holds.lease hholder] at hlease
      cases hlease
      have hclear := ht.holds.clear hholder hwriting hlock
      rw [hrec] at hclear
      simp [completed, hcomp] at hclear
    exact (records_perform hother).trans hrec

end

/-- **A recorded outcome survives**, whatever leases expire, in every run in which records are written by requests
whose token is in the lock. -/
theorem outcome_survives {cfg : Settings} {k : String} {w : World} {q r : CheckoutPool}
    {record : IdempotencyRecord} (start : ∀ token, w.locks k = some token → token < w.issued)
    (run : Run (system cfg) (fun p a => onStep holds p a = true) (Pool.start w) q)
    (hrec : q.world.records k = some record) (hcomp : record.status = .completed)
    (later : Run (system cfg) (unexpired cfg k) q r) : r.world.records k = some record := by
  obtain ⟨φ, ht⟩ := (guarded_inductive cfg k).run run ⟨_, .start (guarded_start start)⟩
  obtain ⟨φ', ht'⟩ := (survives_inductive cfg k record hcomp).run later ⟨φ, ht.mono fun h => ⟨h, hrec⟩⟩
  exact ht'.holds.2

/-- The first request is slow: its lease expires, and a second one is executed and recorded. -/
def overtaken : List (Action (system sampleSettings)) :=
  .call sampleCall :: .call sampleCall :: starts 0 ++ .drift (.lock sampleId) :: starts 1 ++ ends 1 (sampleOutput 201 "order-1")

def sampleRecord : IdempotencyRecord where
  fingerprint := sampleCall.request.fingerprint sampleSettings
  status := .completed
  statusCode := some 201
  responseBody := some "order-1"
  createdAt := 0
  requestHash := some (Fingerprint.computeCheckoutFingerprint sampleSettings.sha256 sampleInput)

/-- A request is executed and recorded; its lease expires before it is released. -/
theorem outcome_survives_at_sample :
    ∃ q, Run (system sampleSettings) (fun p a => onStep holds p a = true) (Pool.start sampleWorld) q ∧
      q.world.records sampleId = some sampleRecord ∧
      ∀ r, Run (system sampleSettings) (unexpired sampleSettings sampleId) q r →
        r.world.records sampleId = some sampleRecord := by
  obtain ⟨q, hrun, htest⟩ := Run.exists_of_any (Pool.start sampleWorld) (onStep holds)
    (.call sampleCall :: .call sampleCall :: starts 0 ++ ends 0 (sampleOutput 201 "order-1") ++
      [.drift (.lock sampleId), .step 1 {}] : List (Action (system sampleSettings)))
    (fun q => decide (q.world.records sampleId = some sampleRecord)) (by decide)
  have hrec := of_decide_eq_true htest
  refine ⟨q, hrun, hrec, ?_⟩
  intro r later
  exact outcome_survives (by rintro token ⟨⟩) hrun hrec rfl later

def recorded : CheckoutPool :=
  ((Pool.start sampleWorld).runWhile (system sampleSettings) (fun _ _ => true) overtaken).getD (Pool.start sampleWorld)

def lasting (_ : CheckoutPool) : Action (system sampleSettings) → Bool
  | .drift _ => false
  | _ => true

/-- **A recorded outcome is discarded.** The second request has completed; then the handler of the
first fails, and the record is deleted. -/
theorem outcome_discarded : Run (system sampleSettings) (fun _ _ => True) (Pool.start sampleWorld) recorded ∧
      recorded.world.records sampleId = some sampleRecord ∧
      ∃ r, Run (system sampleSettings) (fun _ a => a ≠ .drift (.record sampleId)) recorded r ∧
        r.world.records sampleId = none := by
  have hrecd : (Pool.start sampleWorld).runWhile (system sampleSettings) (fun _ _ => true) overtaken =
      some recorded := rfl
  refine ⟨(Run.of_runWhile hrecd).mono fun _ _ _ => trivial, by decide, ?_⟩
  obtain ⟨r, hrun, htest⟩ := Run.exists_of_any recorded lasting (ends 0 (sampleOutput 502 ""))
    (fun r => decide (r.world.records sampleId = none)) (by decide)
  refine ⟨r, hrun.mono ?_, of_decide_eq_true htest⟩
  rintro p a hstep rfl
  cases hstep

end Delego.Checkout
