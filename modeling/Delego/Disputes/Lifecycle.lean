import Delego.Disputes.Checks

/-! The status of a dispute over whole runs.

If the stored status has moved on since a call read it, the status that the call writes takes the dispute back: an
evidence submission that read an open dispute ends a negotiation that was started meanwhile. -/
namespace Delego.Disputes
open Delego.Process Delego.Data Delego.Payments Option Function

def lastRead : MediationTrace → Nat → Option Dispute
  | [], _ => none
  | e :: tr, i => if e.runner = i then (returned e.op e.result).or (lastRead tr i) else lastRead tr i

/-- A status that is written is written over the one that the call read, or over one from which
the state machine leads to it. A write that fails is none. -/
def current (p : MediationPool) (i : Nat) (o : mediationSignature.Op) (ch : Choice) : Bool :=
  match ch, writes o with
  | .fault _, _ => true
  | _, none => true
  | _, some (id, target) => (p.world.dispute id).all fun dispute =>
    canTransition dispute.status target ||
      (lastRead p.trace i).any fun read => decide (read.id = id ∧ read.status = dispute.status)

/-- What a call has read is what it last read, and the dispute has not moved back since. -/
structure Reads (w : World) (tr : MediationTrace) (φ : Nat → Option Dispute) : Prop where
  agree : ∀ i, φ i = lastRead tr i
  known : ∀ i read, φ i = some read → ∃ status, w.status read.id = some status ∧ stageIndex read.status ≤ stageIndex status

def Forward (w w' : World) : Prop :=
  ∀ id status, w.status id = some status → ∃ status', w'.status id = some status' ∧ stageIndex status ≤ stageIndex status'

theorem Forward.refl (w : World) : Forward w w := fun _ status h => ⟨status, h, le_refl _⟩

theorem Forward.trans {w w' w'' : World} (h : Forward w w') (h' : Forward w' w'') : Forward w w'' := by
  intro id status hstat
  obtain ⟨status', hstat', hle⟩ := h id status hstat
  obtain ⟨status'', hstat'', hle'⟩ := h' id status' hstat'
  exact ⟨status'', hstat'', le_trans hle hle'⟩

section
variable {p : MediationPool} {φ : Nat → Option Dispute} {i : Nat} {o : mediationSignature.Op} {ch : Choice}

theorem current_iff {id : String} {target : DisputeStatus} {dispute : Dispute} (hwr : writes o = some (id, target))
    (hreach : ∀ message, ch ≠ .fault message) (hdispute : p.world.dispute id = some dispute) :
    current p i o ch = true ↔ canTransition dispute.status target = true ∨
      ∃ read, lastRead p.trace i = some read ∧ read.id = id ∧ read.status = dispute.status := by
  have hcur : current p i o ch = (canTransition dispute.status target ||
      (lastRead p.trace i).any fun read => decide (read.id = id ∧ read.status = dispute.status)) := by
    cases ch with
    | fault message => exact absurd rfl (hreach message)
    | _ => simp [current, hwr, hdispute]
  rw [hcur, Bool.or_eq_true, any_eq_true]
  simp only [decide_eq_true_eq]

theorem forward_step (h : Reads p.world p.trace φ) (ha : mediating.Allowed (φ i) o)
    (hcur : current p i o ch = true) : Forward p.world (perform o ch p.world).2 := by
  intro id status hstat
  obtain heq | ⟨target, hwr, -, hreach, hstore⟩ := status_perform o ch p.world id
  · exact ⟨status, heq.trans hstat, le_refl _⟩
  · refine ⟨target, hstore, ?_⟩
    obtain ⟨dispute, hdispute, rfl⟩ := map_eq_some_iff.mp hstat
    obtain hleads | ⟨read, hread, -, heq⟩ := (current_iff hwr hreach hdispute).mp hcur
    · exact stage_of_canTransition hleads
    · obtain ⟨read', hread', -, hchk⟩ := ha id target hwr
      cases hread'.symm.trans ((h.agree i).trans hread)
      rw [← heq]
      exact stage_of_checked hchk

theorem back_of_stale (h : Reads p.world p.trace φ) (ha : mediating.Allowed (φ i) o)
    (hstale : current p i o ch = false) :
    ∃ id status target, p.world.status id = some status ∧ (perform o ch p.world).2.status id = some target ∧
      stageIndex target < stageIndex status := by
  have hreach : ∀ message, ch ≠ .fault message := by
    rintro message rfl
    cases hstale
  cases hwr : writes o with
  | none =>
    have hcur : current p i o ch = true := by cases ch <;> simp [current, hwr]
    cases hcur.symm.trans hstale
  | some write =>
    obtain ⟨id, target⟩ := write
    cases hdispute : p.world.dispute id with
    | none =>
      have hcur : current p i o ch = true := by cases ch <;> simp [current, hwr, hdispute]
      cases hcur.symm.trans hstale
    | some dispute =>
      obtain ⟨read, hread, hid, hchk⟩ := ha id target hwr
      obtain ⟨status, hstat, hpast⟩ := h.known i read hread
      have hstore : p.world.status id = some dispute.status := by rw [World.status, hdispute, map_some]
      rw [hid] at hstat
      cases hstat.symm.trans hstore
      have hnot := mt (current_iff (i := i) hwr hreach hdispute).mpr (by simp [hstale])
      have hno : canTransition dispute.status target = false := by simpa using fun hleads => hnot (.inl hleads)
      have hne : read.status ≠ dispute.status := by
        intro heq
        exact hnot (.inr ⟨read, (h.agree i).symm.trans hread, hid, heq⟩)
      exact ⟨id, dispute.status, target, hstore, status_written hwr (by simp [hdispute]) hreach,
        stage_of_stale hchk hpast hne hno⟩

theorem Reads.step (h : Reads p.world p.trace φ) (ha : mediating.Allowed (φ i) o) (hcur : current p i o ch = true) :
    Reads (perform o ch p.world).2 (⟨i, o, (perform o ch p.world).1⟩ :: p.trace)
      (update φ i ((returned o (perform o ch p.world).1).or (φ i))) where
  agree := by
    intro j
    by_cases hj : i = j
    · subst hj
      rw [update_self, lastRead, if_pos rfl, h.agree]
    · rw [update_of_ne (Ne.symm hj), lastRead, if_neg hj, h.agree]
  known := by
    have hforward := forward_step h ha hcur
    have hkept : ∀ j read, φ j = some read → ∃ status, (perform o ch p.world).2.status read.id = some status ∧
        stageIndex read.status ≤ stageIndex status := by
      intro j read hread
      obtain ⟨status, hstat, hle⟩ := h.known j read hread
      obtain ⟨status', hstat', hle'⟩ := hforward read.id status hstat
      exact ⟨status', hstat', le_trans hle hle'⟩
    intro j read hread
    by_cases hj : j = i
    · subst hj
      rw [update_self] at hread
      cases hret : returned o (perform o ch p.world).1 with
      | none =>
        rw [hret, none_or] at hread
        exact hkept j read hread
      | some dispute =>
        rw [hret, some_or] at hread
        cases hread
        refine ⟨read.status, ?_, le_refl _⟩
        rw [World.status, (returned_perform hret).2, map_some]
    · rw [update_of_ne hj] at hread
      exact hkept j read hread

end

theorem reads_start (w : World) : Reads w [] fun _ => none where
  agree := fun _ => rfl
  known := fun _ _ h => by cases h

theorem reads_inductive (cfg : Settings) :
    Inductive (system cfg) mediating none (fun p a => onStep current p a = true) Reads where
  body := fun _ call _ => follows_run cfg call
  arrive := by
    rintro p φ call w - ht ⟨⟩
    exact ht.holds
  drift := fun _ _ e => e.elim
  answers := fun p φ i o ch _ _ ht ha => ⟨_, fun dispute hret => (returned_perform hret).1, rfl⟩
  step := by
    rintro p φ i o ch _ hg hp ht ha ⟨-, rfl⟩
    exact ht.holds.step ha (onStep_pending hg hp)

theorem forward_inductive (cfg : Settings) (w₀ : World) :
    Inductive (system cfg) mediating none (fun p a => onStep current p a = true)
      fun w tr φ => Reads w tr φ ∧ Forward w₀ w := by
  apply (reads_inductive cfg).and
  · exact fun _ _ h => h
  · rintro p φ call w - - hforward ⟨⟩
    exact hforward
  · exact fun _ _ e => e.elim
  · intro p φ i o ch φ' hg hp ht hforward ha _
    exact hforward.trans (forward_step ht.holds ha (onStep_pending hg hp))

/-- **A dispute never moves back**, in every run in which a status is written only over the one that the call last
read, or one that may move to it. Any other write takes its dispute back. -/
theorem lifecycle_forward {cfg : Settings} {w : World} {q r : MediationPool}
    (run : Run (system cfg) (fun p a => onStep current p a = true) (Pool.start w) q)
    (later : Run (system cfg) (fun p a => onStep current p a = true) q r) :
    (∀ id status, q.world.status id = some status →
      ∃ status', r.world.status id = some status' ∧ stageIndex status ≤ stageIndex status' ∧
        (status = .resolved → status' = .resolved)) ∧
      ∀ i ch r', r.step (system cfg) (.step i ch) = some r' →
        onStep current r (.step i ch : Action (system cfg)) = false →
        ∃ id status target, r.world.status id = some status ∧ r'.world.status id = some target ∧
          stageIndex target < stageIndex status := by
  obtain ⟨φ, ht⟩ := (reads_inductive cfg).run run ⟨_, .start (reads_start w)⟩
  obtain ⟨φ', ht'⟩ := (forward_inductive cfg q.world).run later ⟨φ, ht.mono fun h => ⟨h, Forward.refl _⟩⟩
  obtain ⟨hreads, hforward⟩ := ht'.holds
  constructor
  · intro id status hstat
    obtain ⟨status', hstat', hle⟩ := hforward id status hstat
    refine ⟨status', hstat', hle, ?_⟩
    rintro rfl
    exact stage_resolved hle
  · intro i ch r' hstep hstale
    simp only [Pool.step] at hstep
    split at hstep
    · rename_i o next hi
      cases hstep
      have hpend : r.pending i = some o := by simp [Pool.pending, hi, Program.pending]
      simp only [onStep, hpend, all_some] at hstale
      exact back_of_stale hreads (ht'.allowed hpend) hstale
    · cases hstep

def disputed : World where
  payments :=
    { records := [], disputes := [⟨"dispute-1", "7", none, .open, none⟩]
      chain := fun _ => ⟨0, 0, 0⟩ }

def sampleSettings : Settings := ⟨decimal, some "CESCROW"⟩

def photo : Call := .submitEvidence "dispute-1" ⟨"GBUYER", "Broken on arrival", ["photo.png"]⟩ "2026-01-01T00:00:00Z"

def assignment : Call := .assignMediator "dispute-1" "GMEDIATOR" none

def steps (i n : Nat) : List (Action (system sampleSettings)) := List.replicate n (.step i .normal)

def submitted : MediationPool :=
  ((Pool.start disputed).runWhile (system sampleSettings) (onStep current) (.call photo :: steps 0 5)).getD
    (Pool.start disputed)

/-- Then a mediator is assigned. -/
theorem lifecycle_forward_assigned :
    ∃ r, Run (system sampleSettings) (fun p a => onStep current p a = true) (Pool.start disputed) submitted ∧
      Run (system sampleSettings) (fun p a => onStep current p a = true) submitted r ∧
      submitted.world.status "dispute-1" = some .evidenceCollection ∧
      ∃ status, r.world.status "dispute-1" = some status ∧ stageIndex .evidenceCollection ≤ stageIndex status := by
  have hsub : (Pool.start disputed).runWhile (system sampleSettings) (onStep current) (.call photo :: steps 0 5) =
      some submitted := rfl
  have hrun := Run.of_runWhile hsub
  obtain ⟨r, hlater, -⟩ := Run.exists_of_any submitted (onStep current) (.call assignment :: steps 1 2)
    (fun r => decide (r.world.status "dispute-1" = some .negotiation)) (by decide)
  have hstat : submitted.world.status "dispute-1" = some .evidenceCollection := by decide
  obtain ⟨status, hlast, hle, -⟩ := (lifecycle_forward hrun hlater).1 "dispute-1" _ hstat
  exact ⟨r, hrun, hlater, hstat, status, hlast, hle⟩

/-- A submission has read the dispute open, and added its evidence; a mediator is assigned. -/
def assigned : MediationPool :=
  ((Pool.start disputed).runWhile (system sampleSettings) (fun _ _ => true)
    (.call photo :: .call assignment :: steps 0 2 ++ steps 1 2)).getD (Pool.start disputed)

/-- The submission goes on: the dispute is in negotiation no more. -/
theorem moved_back : ∃ r, Run (system sampleSettings) (fun _ _ => True) (Pool.start disputed) assigned ∧
      Run (system sampleSettings) (fun _ _ => True) assigned r ∧
      assigned.world.status "dispute-1" = some .negotiation ∧ r.world.status "dispute-1" = some .evidenceCollection ∧
      stageIndex .evidenceCollection < stageIndex .negotiation := by
  have hassigned : (Pool.start disputed).runWhile (system sampleSettings) (fun _ _ => true)
      (.call photo :: .call assignment :: steps 0 2 ++ steps 1 2) = some assigned := rfl
  have hrun := Run.of_runWhile hassigned
  obtain ⟨r, hlater, htest⟩ := Run.exists_of_any assigned (fun _ _ => true) (steps 0 1)
    (fun r => decide (r.world.status "dispute-1" = some .evidenceCollection)) (by decide)
  exact ⟨r, hrun.mono fun _ _ _ => trivial, hlater.mono fun _ _ _ => trivial, by decide,
    of_decide_eq_true htest, by decide⟩

end Delego.Disputes
