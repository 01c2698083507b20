import Delego.Scheduler.History

/-! Occurrences that are dispatched once.

A run that has claimed a record and is not disturbed has it as it is in the store, so completing it moves its time on or
ends it, and no later claim gives the occurrence again. -/
namespace Delego.Scheduler
open Delego.Data Delego.Process List Function

def Phase.asOf : Phase → Int
  | .idle => 0
  | .found asOf _ => asOf
  | .working asOf _ _ => asOf

/-- A record as it is in the store, and as it was claimed. -/
structure Same (record record' : ScheduledNotification) : Prop where
  runAt : record.runAt = record'.runAt
  runCount : record.runCount = record'.runCount
  maxRuns : record.maxRuns = record'.maxRuns

def IsOpen (tr : List (Entry scheduleSignature)) (i : Nat) (record : ScheduledNotification) : Prop :=
  record.status = .pending ∨ record.status = .cancelled ∧ cancelledSince tr i record.id = true

/-- A record that has not run too often, and may run again if it is pending. -/
def Valid (record : ScheduledNotification) : Prop :=
  ∀ maxRuns, record.maxRuns = some maxRuns →
    record.runCount ≤ maxRuns ∧ (record.status = .pending → record.runCount < maxRuns)

def Setting.Advances (setting : Setting) : Prop :=
  ∀ cronExpression timezone asOf next, setting.nextCronOccurrence cronExpression timezone asOf = .ok next → asOf < next

/-- The invariant: who holds a due record holds it alone, unless disturbed. -/
structure Scheduled (w : World) (tr : List (Entry scheduleSignature)) (φ : Nat → Phase) : Prop where
  keyed : Keyed Row.id w.rows
  valid : ∀ row ∈ w.rows, Valid row.record
  found : ∀ i asOf due, φ i = .found asOf due → due.Nodup ∧ ∀ id ∈ due, disturbed tr i id = true ∨
    ∀ row ∈ w.rows, row.id = id → row.record.runAt ≤ asOf ∧ IsOpen tr i row.record
  held : ∀ i, ∀ record ∈ (φ i).held, disturbed tr i record.id = true ∨ record.runAt ≤ (φ i).asOf ∧
    ∀ row ∈ w.rows, row.id = record.id → Same row.record record ∧ IsOpen tr i row.record
  nodup : ∀ i, ((φ i).held.map ScheduledNotification.id).Nodup
  apart : ∀ i j, i ≠ j → ∀ record ∈ (φ i).held, ∀ other ∈ (φ j).held, record.id = other.id →
    disturbed tr i record.id = true ∨ disturbed tr j record.id = true
  fresh : ∀ i, ∀ record ∈ (φ i).todo, disturbed tr i record.id = true ∨ successes tr record.id record.runAt = 0
  reached : ∀ id runAt, successes tr id runAt ≠ 0 → ∀ row ∈ w.rows, row.id = id → runAt ≤ row.record.runAt ∧
    (runAt = row.record.runAt → owed tr id = true ∨ row.record.status = .dispatched)
  once : ∀ id runAt, successes tr id runAt ≤ 1

/-- What a run's operation may be, in a run that is not disturbed. -/
structure Move (setting : Setting) (w w' : World) (tr : List (Entry scheduleSignature)) (φ φ' : Phase)
    (e : Entry scheduleSignature) : Prop where
  atRest : looks e.op = true → φ = .idle
  found : ∀ asOf due, φ' = .found asOf due → φ' = φ ∨ due.Nodup ∧
    ∀ id ∈ due, ∀ row ∈ w'.rows, row.id = id → row.record.isDue asOf = true
  held : ∀ record ∈ φ'.held, record ∈ φ.held ∧ φ'.asOf = φ.asOf ∨ record ∈ taken e
  todo : ∀ record ∈ φ'.todo, record ∈ φ.todo ∨ record ∈ taken e
  nodup : (φ'.held.map ScheduledNotification.id).Nodup
  gives : ∀ record ∈ taken e, owed tr record.id = false ∧ ∃ row ∈ w'.rows, row.id = record.id ∧ Same row.record record ∧
    (disturbed (e :: tr) e.runner record.id = true ∨ record.runAt ≤ φ'.asOf ∧ IsOpen (e :: tr) e.runner row.record)
  dispatches : ∀ record, succeeded e = some record → record ∈ φ.todo ∧ (∀ other ∈ φ'.todo, other.id ≠ record.id) ∧
    disturbed tr e.runner record.id = false
  finishes : ∀ id nextRunAt, completed e = some (id, nextRunAt) → ∃ record ∈ φ.held, record.id = id ∧
    computeNextRunAt setting record φ.asOf = .ok nextRunAt ∧ (∀ other ∈ φ'.held, other.id ≠ id) ∧
    disturbed tr e.runner id = false ∧ cancelledSince tr e.runner id = false

theorem todo_held {φ : Phase} {record : ScheduledNotification} (h : record ∈ φ.todo) : record ∈ φ.held := by
  cases φ with
  | idle => cases h
  | found asOf due => cases h
  | working asOf owing todo => exact mem_append_right _ h

section
variable {setting : Setting} {w w' : World} {tr : List (Entry scheduleSignature)} {φ : Nat → Phase} {φ' : Phase}
  {e : Entry scheduleSignature} {i : Nat}
  {record : ScheduledNotification}

theorem IsOpen.of_kept {record' : ScheduledNotification} (h : IsOpen tr i record) (hkept : Kept e record record')
    (hid : record'.id = record.id) (hlooks : e.runner = i → looks e.op = false) : IsOpen (e :: tr) i record' := by
  rcases hkept.status with heq | ⟨-, hcanc, hnow⟩
  · rcases h with hpend | ⟨hcanc, hsince⟩
    · exact .inl (heq.trans hpend)
    · refine .inr ⟨heq.trans hcanc, ?_⟩
      rw [hid]
      exact cancelledSince_mono hsince hlooks
  · refine .inr ⟨hcanc, ?_⟩
    rw [hid]
    exact cancelledSince_now hlooks hnow

theorem Same.of_kept {record' other : ScheduledNotification} (h : Same record other) (hkept : Kept e record record') :
    Same record' other :=
  ⟨hkept.runAt.trans h.runAt, hkept.runCount.trans h.runCount, hkept.maxRuns.trans h.maxRuns⟩

theorem Turns.row (h : Turns e w w') {row' : Row} (hrow' : row' ∈ w'.rows) : ∃ row ∈ w.rows, row'.id = row.id ∧
    (Kept e row.record row'.record ∨ ∃ nextRunAt, completed e = some (row.id, nextRunAt) ∧
      Completed nextRunAt row.record row'.record) := by
  obtain ⟨f, hrows, hf⟩ := h
  rw [hrows] at hrow'
  obtain ⟨row, hrow, rfl⟩ := mem_map.mp hrow'
  exact ⟨row, hrow, hf row hrow⟩

theorem Turns.keyed (h : Turns e w w') (hkeyed : Keyed Row.id w.rows) : Keyed Row.id w'.rows := by
  obtain ⟨f, hrows, hf⟩ := h
  have hkeys : w.rows.map (Row.id ∘ f) = w.rows.map Row.id := map_congr_left fun row hrow => (hf row hrow).1
  unfold Keyed at hkeyed ⊢
  rw [hrows, map_map, hkeys]
  exact hkeyed

theorem computeNextRunAt_some (hsetting : setting.Advances) {asOf next : Int}
    (h : computeNextRunAt setting record asOf = .ok (some next)) :
    asOf < next ∧ ∀ maxRuns, record.maxRuns = some maxRuns → record.runCount + 1 < maxRuns := by
  unfold computeNextRunAt at h
  split at h
  · cases h
  · split at h
    · cases h
    · rename_i hruns
      split at h
      · cases h
      · rename_i next' hnext
        split at h
        · cases h
        · cases h
          refine ⟨hsetting _ _ _ _ hnext, fun maxRuns hmax => ?_⟩
          rw [hmax, Option.any_some, decide_eq_true_eq] at hruns
          omega

variable {nextRunAt : Option Int}

theorem Scheduled.completing (h : Scheduled w tr φ) (hm : Move setting w w' tr (φ i) φ' e) (hi : e.runner = i) {id : String}
    (hcomp : completed e = some (id, nextRunAt)) : ∃ record asOf, record.runAt ≤ asOf ∧
      computeNextRunAt setting record asOf = .ok nextRunAt ∧
        ∀ row ∈ w.rows, row.id = id → Same row.record record ∧ row.record.status = .pending := by
  obtain ⟨record, hrec, rfl, hnext, -, hdisturbed, hcanc⟩ := hm.finishes _ _ hcomp
  rw [hi] at hdisturbed hcanc
  rcases h.held i record hrec with hnow | ⟨hasOf, hrows⟩
  · rw [hdisturbed] at hnow
    cases hnow
  · refine ⟨record, _, hasOf, hnext, fun row hrow hid => ⟨(hrows row hrow hid).1, ?_⟩⟩
    rcases (hrows row hrow hid).2 with hpend | ⟨-, hsince⟩
    · exact hpend
    · have heq : row.record.id = record.id := hid
      rw [heq, hcanc] at hsince
      cases hsince

theorem Move.quiet (hm : Move setting w w' tr (φ i) φ' e) (hi : e.runner = i) {j : Nat} (hj : φ j ≠ .idle) (hrunner : e.runner = j) :
    looks e.op = false := by
  obtain rfl : i = j := hi.symm.trans hrunner
  cases hlooks : looks e.op with
  | false => rfl
  | true => exact absurd (hm.atRest hlooks) hj

theorem held_ne_idle {φ : Phase} (h : record ∈ φ.held) : φ ≠ .idle := by
  rintro rfl
  cases h

theorem carried {P : ScheduledNotification → Prop} (hP : ∀ record record', P record → Kept e record record' → P record')
    (hturns : Turns e w w') {j : Nat} {id : String} (hlooks : e.runner = j → looks e.op = false)
    (hcompl : e.runner = j → completes id e = false) (h : disturbed tr j id = true ∨
      ∀ row ∈ w.rows, row.id = id → P row.record ∧ IsOpen tr j row.record) :
    disturbed (e :: tr) j id = true ∨ ∀ row ∈ w'.rows, row.id = id → P row.record ∧ IsOpen (e :: tr) j row.record := by
  rcases h with hdisturbed | hrows
  · exact .inl (disturbed_mono hdisturbed hlooks)
  · cases hcomp : completes id e with
    | true =>
      refine .inl (disturbed_now (fun heq => ?_) (.inr hcomp))
      rw [hcompl heq] at hcomp
      cases hcomp
    | false =>
      refine .inr fun row' hrow' hid => ?_
      obtain ⟨row, hrow, heq, hkept | ⟨nextRunAt, hnow, -⟩⟩ := hturns.row hrow'
      · obtain ⟨hknown, hopen⟩ := hrows row hrow (heq.symm.trans hid)
        exact ⟨hP _ _ hknown hkept, hopen.of_kept hkept heq hlooks⟩
      · rw [← hid, heq, completes_of_some hnow] at hcomp
        cases hcomp

theorem Scheduled.next_valid (hsetting : setting.Advances) (h : Scheduled w tr φ) (hturns : Turns e w w')
    (hm : Move setting w w' tr (φ i) φ' e) (hi : e.runner = i) : ∀ row ∈ w'.rows, Valid row.record := by
  intro row' hrow' maxRuns hmax
  obtain ⟨row, hrow, -, hkept | ⟨nextRunAt, hcomp, hdone⟩⟩ := hturns.row hrow'
  · obtain ⟨hle, hlt⟩ := h.valid row hrow maxRuns (hkept.maxRuns.symm.trans hmax)
    rw [hkept.runCount]
    refine ⟨hle, fun hpend => ?_⟩
    rcases hkept.status with heq | ⟨-, hcanc, -⟩
    · exact hlt (heq.symm.trans hpend)
    · rw [hcanc] at hpend
      cases hpend
  · obtain ⟨record, asOf, -, hnext, hrows⟩ := h.completing hm hi hcomp
    obtain ⟨heq, hpend⟩ := hrows row hrow rfl
    have hlt := (h.valid row hrow maxRuns (hdone.maxRuns.symm.trans hmax)).2 hpend
    rw [hdone.runCount]
    refine ⟨hlt, fun hagain => ?_⟩
    rw [hdone.status] at hagain
    cases nextRunAt with
    | none => cases hagain
    | some next =>
      rw [heq.runCount]
      refine (computeNextRunAt_some hsetting hnext).2 maxRuns ?_
      rw [← heq.maxRuns, ← hdone.maxRuns, hmax]

theorem Scheduled.next_found (h : Scheduled w tr φ) (hturns : Turns e w w') (hm : Move setting w w' tr (φ i) φ' e)
    (hi : e.runner = i) (j : Nat) (asOf : Int) (due : List String) (hj : update φ i φ' j = .found asOf due) :
    due.Nodup ∧ ∀ id ∈ due, disturbed (e :: tr) j id = true ∨
      ∀ row ∈ w'.rows, row.id = id → row.record.runAt ≤ asOf ∧ IsOpen (e :: tr) j row.record := by
  have hP : ∀ record record', record.runAt ≤ asOf → Kept e record record' → record'.runAt ≤ asOf :=
    fun record record' hle hkept => hkept.runAt ▸ hle
  -- a run that had found them before has completed nothing now
  have hkept : φ j = .found asOf due → due.Nodup ∧ ∀ id ∈ due, disturbed (e :: tr) j id = true ∨
      ∀ row ∈ w'.rows, row.id = id → row.record.runAt ≤ asOf ∧ IsOpen (e :: tr) j row.record := by
    intro hfound
    obtain ⟨hnodup, hdue⟩ := h.found j asOf due hfound
    have hquiet := hm.quiet hi (j := j) (by rw [hfound]; exact Phase.noConfusion)
    refine ⟨hnodup, fun id hid => carried hP hturns hquiet (fun hrunner => ?_) (hdue id hid)⟩
    obtain rfl : i = j := hi.symm.trans hrunner
    cases hcompl : completes id e with
    | false => rfl
    | true =>
      obtain ⟨nextRunAt, hcomp⟩ := completed_of_completes hcompl
      obtain ⟨record, hrec, -⟩ := hm.finishes _ _ hcomp
      rw [hfound] at hrec
      cases hrec
  by_cases hij : j = i
  · subst hij
    rw [update_self] at hj
    rcases hm.found asOf due hj with heq | ⟨hnodup, hrows⟩
    · exact hkept (heq.symm.trans hj)
    · refine ⟨hnodup, fun id hid => .inr fun row hrow heq => ?_⟩
      have hdue : row.record.status = .pending ∧ row.record.runAt ≤ asOf := of_decide_eq_true (hrows id hid row hrow heq)
      exact ⟨hdue.2, .inl hdue.1⟩
  · rw [update_of_ne hij] at hj
    exact hkept hj

theorem Scheduled.next_held (h : Scheduled w tr φ) (hturns : Turns e w w') (hm : Move setting w w' tr (φ i) φ' e)
    (hi : e.runner = i) (j : Nat) (record : ScheduledNotification) (hrec : record ∈ (update φ i φ' j).held) :
    disturbed (e :: tr) j record.id = true ∨ record.runAt ≤ (update φ i φ' j).asOf ∧
      ∀ row ∈ w'.rows, row.id = record.id → Same row.record record ∧ IsOpen (e :: tr) j row.record := by
  have hP : ∀ r r', Same r record → Kept e r r' → Same r' record := fun r r' heq hkept => heq.of_kept hkept
  have hkept : record ∈ (φ j).held → (e.runner = j → completes record.id e = false) →
      disturbed (e :: tr) j record.id = true ∨ record.runAt ≤ (φ j).asOf ∧
        ∀ row ∈ w'.rows, row.id = record.id → Same row.record record ∧ IsOpen (e :: tr) j row.record := by
    intro hheld hcompl
    have hknown := h.held j record hheld
    have hrows := carried hP hturns (hm.quiet hi (held_ne_idle hheld)) hcompl (hknown.imp_right And.right)
    rcases hrows with hdisturbed | hrows
    · exact .inl hdisturbed
    · rcases hknown with hdisturbed | ⟨hasOf, -⟩
      · exact .inl (disturbed_mono hdisturbed (hm.quiet hi (held_ne_idle hheld)))
      · exact .inr ⟨hasOf, hrows⟩
  by_cases hij : j = i
  · subst hij
    rw [update_self] at hrec ⊢
    have hcompl : completes record.id e = false := by
      cases hcompl : completes record.id e with
      | false => rfl
      | true =>
        obtain ⟨nextRunAt, hcomp⟩ := completed_of_completes hcompl
        obtain ⟨-, -, -, -, hothers, -⟩ := hm.finishes _ _ hcomp
        exact absurd rfl (hothers record hrec)
    rcases hm.held record hrec with ⟨hheld, hasOf⟩ | hgiven
    · rw [hasOf]
      exact hkept hheld fun _ => hcompl
    · obtain ⟨-, row, hrow, hid, heq, hopen⟩ := hm.gives record hgiven
      rw [hi] at hopen
      refine hopen.imp_right fun ⟨hasOf, hopen⟩ => ⟨hasOf, fun row' hrow' hid' => ?_⟩
      rw [(hturns.keyed h.keyed).eq hrow' hrow (hid'.trans hid.symm)]
      exact ⟨heq, hopen⟩
  · rw [update_of_ne hij] at hrec ⊢
    exact hkept hrec fun hrunner => absurd (hrunner.symm.trans hi) hij

theorem Scheduled.next_apart (h : Scheduled w tr φ) (hm : Move setting w w' tr (φ i) φ' e) (hi : e.runner = i)
    (j k : Nat) (hjk : j ≠ k) (record : ScheduledNotification) (hrec : record ∈ (update φ i φ' j).held)
    (other : ScheduledNotification) (hother : other ∈ (update φ i φ' k).held) (hid : record.id = other.id) :
    disturbed (e :: tr) j record.id = true ∨ disturbed (e :: tr) k record.id = true := by
  -- either run may be the one that moves
  have hmoves : ∀ k, i ≠ k → ∀ record ∈ φ'.held, ∀ other ∈ (φ k).held, record.id = other.id →
      disturbed (e :: tr) i record.id = true ∨ disturbed (e :: tr) k record.id = true := by
    intro k hik record hrec other hother hid
    rcases hm.held record hrec with ⟨hheld, -⟩ | hgiven
    · exact (h.apart i k hik record hheld other hother hid).imp
        (fun hnow => disturbed_mono hnow (hm.quiet hi (held_ne_idle hheld)))
        fun hnow => disturbed_mono hnow (hm.quiet hi (held_ne_idle hother))
    · exact .inr (disturbed_now (fun hrunner => hik (hi.symm.trans hrunner)) (.inl (takes_of_mem hgiven)))
  by_cases hji : j = i
  · subst hji
    rw [update_self] at hrec
    rw [update_of_ne (Ne.symm hjk)] at hother
    exact hmoves k hjk record hrec other hother hid
  · rw [update_of_ne hji] at hrec
    by_cases hki : k = i
    · subst hki
      rw [update_self] at hother
      rw [hid]
      exact (hmoves j (Ne.symm hji) other hother record hrec hid.symm).symm
    · rw [update_of_ne hki] at hother
      exact (h.apart j k hjk record hrec other hother hid).imp
        (fun hnow => disturbed_mono hnow (hm.quiet hi (held_ne_idle hrec)))
        fun hnow => disturbed_mono hnow (hm.quiet hi (held_ne_idle hother))

theorem completed_of_taken (h : record ∈ taken e) : completed e = none := by
  obtain ⟨i, o, r⟩ := e
  cases o <;> cases r <;> first | rfl | cases h

theorem Scheduled.given_fresh (h : Scheduled w tr φ) (hturns : Turns e w w') (hm : Move setting w w' tr (φ i) φ' e)
    (hi : e.runner = i) (hgiven : record ∈ taken e) :
    disturbed (e :: tr) i record.id = true ∨ successes tr record.id record.runAt = 0 := by
  obtain ⟨howed, row', hrow', hid, heq, hopen⟩ := hm.gives record hgiven
  rw [hi] at hopen
  refine hopen.imp_right fun ⟨_, hopen⟩ => ?_
  by_contra hpre
  obtain ⟨row, hrow, hrowid, hkept | ⟨nextRunAt, hcomp, -⟩⟩ := hturns.row hrow'
  · have hdone := (h.reached _ _ hpre row hrow (hrowid.symm.trans hid)).2 (heq.runAt.symm.trans hkept.runAt)
    rw [howed] at hdone
    have hdisp := hdone.resolve_left Bool.false_ne_true
    rcases hkept.status with hstat | ⟨hpend, -⟩
    · rw [hdisp] at hstat
      rcases hopen with hopen | ⟨hopen, -⟩
      · rw [hopen] at hstat
        cases hstat
      · rw [hopen] at hstat
        cases hstat
    · rw [hdisp] at hpend
      cases hpend
  · rw [completed_of_taken hgiven] at hcomp
    cases hcomp

theorem Scheduled.next_fresh (h : Scheduled w tr φ) (hturns : Turns e w w') (hm : Move setting w w' tr (φ i) φ' e)
    (hi : e.runner = i) (j : Nat) (record : ScheduledNotification) (hrec : record ∈ (update φ i φ' j).todo) :
    disturbed (e :: tr) j record.id = true ∨ successes (e :: tr) record.id record.runAt = 0 := by
  by_cases hij : j = i
  · subst hij
    rw [update_self] at hrec
    have hnow : succeedsAt record.id record.runAt e = false := by
      cases hnow : succeedsAt record.id record.runAt e with
      | false => rfl
      | true =>
        obtain ⟨done, hdone, hid, -⟩ := succeeded_of_succeedsAt hnow
        exact absurd hid.symm ((hm.dispatches done hdone).2.1 record hrec)
    rw [successes_cons, hnow]
    rcases hm.todo record hrec with htodo | hgiven
    · exact (h.fresh j record htodo).imp_left fun hnow => disturbed_mono hnow (hm.quiet hi (held_ne_idle (todo_held htodo)))
    · exact h.given_fresh hturns hm hi hgiven
  · rw [update_of_ne hij] at hrec
    rw [successes_cons]
    have hquiet := hm.quiet hi (held_ne_idle (todo_held hrec))
    cases hnow : succeedsAt record.id record.runAt e with
    | false => exact (h.fresh j record hrec).imp_left fun hnow => disturbed_mono hnow hquiet
    | true =>
      -- the run that dispatches it is not disturbed, so this one is
      obtain ⟨done, hdone, hid, -⟩ := succeeded_of_succeedsAt hnow
      obtain ⟨htodo, -, hundisturbed⟩ := hm.dispatches done hdone
      rw [hi] at hundisturbed
      rcases h.apart i j (Ne.symm hij) done (todo_held htodo) record (todo_held hrec) hid with hnow | hnow
      · rw [hundisturbed] at hnow
        cases hnow
      · rw [hid] at hnow
        exact .inl (disturbed_mono hnow hquiet)

theorem Scheduled.next_reached (hsetting : setting.Advances) (h : Scheduled w tr φ) (hturns : Turns e w w')
    (hm : Move setting w w' tr (φ i) φ' e) (hi : e.runner = i) (id : String) (runAt : Int)
    (hsucs : successes (e :: tr) id runAt ≠ 0) (row' : Row) (hrow' : row' ∈ w'.rows) (hid : row'.id = id) :
    runAt ≤ row'.record.runAt ∧ (runAt = row'.record.runAt → owed (e :: tr) id = true ∨ row'.record.status = .dispatched) := by
  obtain ⟨row, hrow, hrowid, hrow⟩ := hturns.row hrow'
  have hrowid' : row.id = id := hrowid.symm.trans hid
  rw [successes_cons] at hsucs
  cases hnow : succeedsAt id runAt e with
  | true =>
    obtain ⟨done, hdone, rfl, rfl⟩ := succeeded_of_succeedsAt hnow
    obtain ⟨htodo, -, hundisturbed⟩ := hm.dispatches done hdone
    rw [hi] at hundisturbed
    rcases h.held i done (todo_held htodo) with hdisturbed | ⟨-, hrows⟩
    · rw [hundisturbed] at hdisturbed
      cases hdisturbed
    · rcases hrow with hkept | ⟨nextRunAt, hcomp, -⟩
      · rw [hkept.runAt, (hrows row ‹_› hrowid').1.runAt]
        refine ⟨le_rfl, fun _ => .inl ?_⟩
        rw [owed_cons, succeeds_of_some hdone, Bool.true_or]
      · rw [completed_of_succeeded hdone] at hcomp
        cases hcomp
  | false =>
    rw [hnow] at hsucs
    have hpre := h.reached id runAt (by simpa using hsucs) row ‹_› hrowid'
    rcases hrow with hkept | ⟨nextRunAt, hcomp, hdone⟩
    · rw [hkept.runAt]
      refine ⟨hpre.1, fun heq => ?_⟩
      rcases hpre.2 heq with howed | hdisp
      · have hcompl : completes id e = false := hrowid' ▸ hkept.unfinished
        rw [owed_cons, hcompl, howed]
        exact .inl (Bool.or_true _)
      · rcases hkept.status with hstat | ⟨hpend, -⟩
        · exact .inr (hstat.trans hdisp)
        · rw [hdisp] at hpend
          cases hpend
    · obtain ⟨record, asOf, hasOf, hnext, hrows⟩ := h.completing hm hi (hrowid' ▸ hcomp)
      obtain ⟨heq, -⟩ := hrows row ‹_› hrowid'
      rw [hdone.runAt, hdone.status]
      cases nextRunAt with
      | none => exact ⟨hpre.1, fun _ => .inr rfl⟩
      | some next =>
        have hlt := (computeNextRunAt_some hsetting hnext).1
        have hle := hpre.1
        rw [heq.runAt] at hle
        simp only [Option.getD_some]
        exact ⟨by omega, fun h => by omega⟩

theorem Scheduled.next_once (h : Scheduled w tr φ) (hm : Move setting w w' tr (φ i) φ' e) (hi : e.runner = i)
    (id : String) (runAt : Int) : successes (e :: tr) id runAt ≤ 1 := by
  rw [successes_cons]
  cases hnow : succeedsAt id runAt e with
  | false => exact h.once id runAt
  | true =>
    obtain ⟨done, hdone, rfl, rfl⟩ := succeeded_of_succeedsAt hnow
    obtain ⟨htodo, -, hundisturbed⟩ := hm.dispatches done hdone
    rw [hi] at hundisturbed
    rcases h.fresh i done htodo with hdisturbed | hnone
    · rw [hundisturbed] at hdisturbed
      cases hdisturbed
    · rw [hnone]
      exact le_rfl

theorem Scheduled.next (hsetting : setting.Advances) (h : Scheduled w tr φ) (hturns : Turns e w w')
    (hm : Move setting w w' tr (φ i) φ' e) (hi : e.runner = i) : Scheduled w' (e :: tr) (update φ i φ') where
  keyed := hturns.keyed h.keyed
  valid := h.next_valid hsetting hturns hm hi
  found := h.next_found hturns hm hi
  held := h.next_held hturns hm hi
  nodup j := by
    by_cases hij : j = i
    · subst hij
      rw [update_self]
      exact hm.nodup
    · rw [update_of_ne hij]
      exact h.nodup j
  apart := h.next_apart hm hi
  fresh := h.next_fresh hturns hm hi
  reached id runAt hsucs row hrow hid := h.next_reached hsetting hturns hm hi id runAt hsucs row hrow hid
  once := h.next_once hm hi

end

/-! ### Operations -/

section
variable {setting : Setting} {w w' : World} {tr : List (Entry scheduleSignature)} {φ φ' : Phase}
  {e : Entry scheduleSignature} {i : Nat} {o : Op} {ch : Choice}

theorem perform_cases (o : Op) (ch : Choice) (w : World) :
    perform o ch w = answer ch w o ∨ o.isStatement = true ∧ ∃ message, perform o ch w = (.error message, w) := by
  unfold perform
  cases ch.failure with
  | none => exact .inl rfl
  | some message =>
    by_cases hstatement : o.isStatement = true
    · exact .inr ⟨hstatement, message, if_pos hstatement⟩
    · exact .inl (if_neg hstatement)

variable {id : String}

theorem turns_completed {f : Row → Row} (hcomp : completed e = some (id, nextRunAt))
    (hrows : w'.rows = update Row.id w.rows id f) (hf : ∀ row, (f row).record = row.record.completed w.clock nextRunAt) :
    Turns e w w' := by
  refine turns_update hrows (fun other hother => ?_) fun row _ hid => ⟨?_, .inr ⟨nextRunAt, hid ▸ hcomp, ?_⟩⟩
  · unfold completes
    rw [hcomp]
    exact decide_eq_false (Ne.symm hother)
  · rw [Row.id, hf, completed_id]
    rfl
  · rw [hf]
    exact completed_record w.clock nextRunAt row.record

theorem turns_cancelled (hcomp : completed e = none)
    (hcancels : ∀ row ∈ w.rows, row.id = id → row.record.status = .pending → cancels id e = true)
    (hrows : w'.rows = update Row.id w.rows id (.cancelled w.clock)) : Turns e w w' := by
  refine turns_update hrows (fun other _ => completes_of_none hcomp other) fun row hrow hid => ⟨?_, .inl ?_⟩
  · exact cancelled_id w.clock row.record
  · refine kept_cancelled w.clock row.record (fun hpend => ?_) (completes_of_none hcomp _)
    have heq : row.record.id = id := hid
    rw [heq]
    exact hcancels row hrow hid hpend

theorem turns_answer (h : Keyed Row.id w.rows) (i : Nat) (o : Op) (ch : Choice) :
    Turns ⟨i, o, (answer ch w o).1⟩ w (answer ch w o).2 := by
  cases o with
  | dispatch record =>
    refine turns_refl rfl ?_
    simp only [answer]
    cases ch.dispatched <;> rfl
  | claimRows claimedBy leaseExpiresAt asOf batchSize =>
    refine turns_map rfl rfl fun row => ?_
    unfold Row.picked
    split <;> exact ⟨rfl, rfl, rfl, rfl, rfl⟩
  | releaseRow id =>
    refine turns_map rfl rfl fun row => ?_
    split <;> exact ⟨rfl, rfl, rfl, rfl, rfl⟩
  | completeRow id nextRunAt => exact turns_completed rfl rfl fun _ => rfl
  | cancelRow id =>
    simp only [answer, cancelRow]
    cases hrec : recordOf w id with
    | none => exact turns_refl rfl rfl
    | some record =>
      simp only
      split
      · exact turns_cancelled rfl (fun _ _ _ _ => decide_eq_true rfl) rfl
      · exact turns_refl rfl rfl
  | claimFound due batchSize now leaseMs =>
    obtain ⟨-, -, -, -, hrows⟩ := claimFound_spec (w := w) ch.random now leaseMs due batchSize [] w
    exact turns_refl hrows rfl
  | releaseClaim id claimToken =>
    simp only [answer]
    split <;> exact turns_refl rfl rfl
  | complete id claimToken nextRunAt =>
    simp only [answer]
    split
    · cases hrec : recordOf w id with
      | none =>
        refine turns_completed (f := fun row => { row with record := row.record.completed w.clock nextRunAt }) rfl ?_ fun _ => rfl
        rw [update_of_none (Option.map_eq_none_iff.mp hrec)]
      | some record =>
        exact turns_completed (f := fun row => { row with record := row.record.completed w.clock nextRunAt }) rfl rfl fun _ => rfl
    · exact turns_refl rfl rfl
  | cancel id =>
    refine turns_cancelled rfl (fun row hrow hid hpend => ?_) rfl
    simp only [answer]
    rw [← hid, recordOf_found h hrow, Option.map_some]
    refine decide_eq_true ⟨rfl, ?_⟩
    rw [ScheduledNotification.cancelled, if_pos hpend]
  | _ => exact turns_refl rfl rfl

theorem turns_perform (h : Keyed Row.id w.rows) (i : Nat) (o : Op) (ch : Choice) :
    Turns ⟨i, o, (perform o ch w).1⟩ w (perform o ch w).2 := by
  rcases perform_cases o ch w with hans | ⟨-, message, herror⟩
  · rw [hans]
    exact turns_answer h i o ch
  · rw [herror]
    refine turns_refl rfl ?_
    cases o <;> rfl

theorem move_shrink (hatRest : looks e.op = true → φ = .idle) (hfound : ∀ asOf due, φ' = .found asOf due → φ' = φ)
    (hheld : φ'.held.Sublist φ.held) (htodo : φ'.todo.Sublist φ.todo) (hasOf : φ'.held ≠ [] → φ'.asOf = φ.asOf)
    (hnodup : (φ.held.map ScheduledNotification.id).Nodup) (htaken : taken e = []) (hsucc : succeeded e = none)
    (hcomp : completed e = none) : Move setting w w' tr φ φ' e where
  atRest := hatRest
  found asOf due h := .inl (hfound asOf due h)
  held record h := .inl ⟨hheld.subset h, hasOf (ne_nil_of_mem h)⟩
  todo record h := .inl (htodo.subset h)
  nodup := hnodup.sublist (hheld.map _)
  gives record h := by
    rw [htaken] at h
    cases h
  dispatches record h := by
    rw [hsucc] at h
    cases h
  finishes id nextRunAt h := by
    rw [hcomp] at h
    cases h

theorem move_free (h : o.isFree) (hnodup : (φ.held.map ScheduledNotification.id).Nodup) (r : scheduleSignature.Result o) :
    Move setting w w' tr φ (φ.next o r) ⟨i, o, r⟩ := by
  rw [(free_stays setting φ o h).2]
  have hnothing : taken ⟨i, o, r⟩ = [] ∧ succeeded ⟨i, o, r⟩ = none ∧ completed ⟨i, o, r⟩ = none ∧ looks o = false := by
    cases o <;> first | exact ⟨rfl, rfl, rfl, rfl⟩ | exact h.elim
  obtain ⟨htaken, hsucc, hcomp, hlooks⟩ := hnothing
  exact move_shrink (fun hnow => absurd (hlooks.symm.trans hnow) Bool.false_ne_true) (fun _ _ _ => rfl) (.refl _) (.refl _)
    (fun _ => rfl) hnodup htaken hsucc hcomp

theorem move_taken {asOf : Int} {records : List ScheduledNotification}
    (hatRest : looks e.op = true → φ = .idle) (hnodup : (records.map ScheduledNotification.id).Nodup) (htaken : taken e = records)
    (hgives : ∀ record ∈ records, owed tr record.id = false ∧ ∃ row ∈ w'.rows, row.id = record.id ∧ Same row.record record ∧
      (disturbed (e :: tr) e.runner record.id = true ∨ record.runAt ≤ asOf ∧ IsOpen (e :: tr) e.runner row.record))
    (hsucc : succeeded e = none) (hcomp : completed e = none) :
    Move setting w w' tr φ (.working asOf none records) e where
  atRest := hatRest
  found _ _ h := nomatch h
  held record h := .inr (htaken ▸ h)
  todo record h := .inr (htaken ▸ h)
  nodup := hnodup
  gives record h := hgives record (htaken ▸ h)
  dispatches record h := by
    rw [hsucc] at h
    cases h
  finishes id nextRunAt h := by
    rw [hcomp] at h
    cases h

theorem move_dispatch {record : ScheduledNotification} (ha : φ.Allows setting (.dispatch record))
    (hnodup : (φ.held.map ScheduledNotification.id).Nodup) (r : scheduleSignature.Result (.dispatch record))
    (hr : r = .ok () → disturbed tr i record.id = false) :
    Move setting w w' tr φ (φ.next (.dispatch record) r) ⟨i, .dispatch record, r⟩ := by
  obtain ⟨asOf, owing, todo, rfl⟩ := ha
  have htail : (record :: todo).Sublist (Phase.held (.working asOf owing (record :: todo))) := sublist_append_right _ _
  cases r with
  | error message =>
    refine move_shrink (fun h => nomatch h) (fun _ _ h => nomatch h) ?_ (sublist_cons_self _ _) (fun _ => rfl) hnodup
      rfl rfl rfl
    exact (sublist_cons_self record todo).trans htail
  | ok _ =>
    have hids : ((record :: todo).map ScheduledNotification.id).Nodup := hnodup.sublist (htail.map _)
    refine ⟨fun h => (nomatch h), fun _ _ h => (nomatch h), fun other h => .inl ⟨htail.subset h, rfl⟩,
      fun other h => .inl (mem_cons_of_mem _ h), hids, fun _ h => (nomatch h), fun other h => ?_, fun _ _ h => (nomatch h)⟩
    obtain rfl := Option.some.inj h
    refine ⟨mem_cons_self, fun other hother heq => ?_, hr rfl⟩
    exact (nodup_cons.mp hids).1 (mem_map.mpr ⟨other, hother, heq⟩)

theorem move_complete (hcompl : φ.Completes setting id nextRunAt)
    (hnodup : (φ.held.map ScheduledNotification.id).Nodup) (hnext : φ' = φ.completed) (hlooks : looks e.op = false)
    (htaken : taken e = []) (hsucc : succeeded e = none)
    (hcomp : completed e = none ∨ completed e = some (id, nextRunAt) ∧ disturbed tr e.runner id = false ∧
      cancelledSince tr e.runner id = false) : Move setting w w' tr φ φ' e := by
  obtain ⟨asOf, record, todo, rfl, rfl, hrun⟩ := hcompl
  subst hnext
  have hnot : looks e.op = true → Phase.working asOf (some record) todo = .idle := fun h => by
    rw [hlooks] at h
    cases h
  have hsublist : todo.Sublist (Phase.held (.working asOf (some record) todo)) := sublist_cons_self record todo
  rcases hcomp with hnone | ⟨hsome, hundisturbed⟩
  · exact move_shrink hnot (fun _ _ h => nomatch h) hsublist (.refl _) (fun _ => rfl) hnodup htaken hsucc hnone
  · refine ⟨hnot, fun _ _ h => (nomatch h), fun other h => .inl ⟨hsublist.subset h, rfl⟩, fun other h => .inl h,
      hnodup.sublist (hsublist.map _), fun other h => ?_, fun other h => ?_, fun other runAt h => ?_⟩
    · rw [htaken] at h
      cases h
    · rw [hsucc] at h
      cases h
    · cases hsome.symm.trans h
      refine ⟨record, mem_cons_self, rfl, hrun, fun other hother heq => ?_, hundisturbed⟩
      exact (nodup_cons.mp hnodup).1 (mem_map.mpr ⟨other, hother, heq⟩)

theorem same_refl (record : ScheduledNotification) : Same record record := ⟨rfl, rfl, rfl⟩

theorem move_claimRows {claimedBy : String} {leaseExpiresAt asOf : Int} {batchSize : Nat} (hkeyed : Keyed Row.id w.rows)
    (ha : φ.Allows setting (.claimRows claimedBy leaseExpiresAt asOf batchSize))
    (howed : ∀ record ∈ (claimRows w ch.locked claimedBy leaseExpiresAt asOf batchSize).1, owed tr record.id = false) :
    Move setting w (claimRows w ch.locked claimedBy leaseExpiresAt asOf batchSize).2 tr φ
      (.working asOf none (claimRows w ch.locked claimedBy leaseExpiresAt asOf batchSize).1)
      ⟨i, .claimRows claimedBy leaseExpiresAt asOf batchSize,
        .ok (claimRows w ch.locked claimedBy leaseExpiresAt asOf batchSize).1⟩ := by
  obtain ⟨hnodup, hrecs⟩ := claimRows_spec hkeyed ch.locked claimedBy leaseExpiresAt asOf batchSize
  refine move_taken (fun _ => ha) hnodup rfl (fun record hrec => ⟨howed record hrec, ?_⟩) rfl rfl
  obtain ⟨row, hrow, rfl, hdue⟩ := hrecs record hrec
  obtain ⟨hpend, hasOf⟩ : row.record.status = .pending ∧ row.record.runAt ≤ asOf := of_decide_eq_true hdue
  -- the row is stored with its claim, and otherwise as it was
  refine ⟨row.picked w (pickedRows w ch.locked asOf batchSize) claimedBy leaseExpiresAt, mem_map_of_mem hrow, ?_⟩
  unfold Row.picked
  split <;> exact ⟨rfl, ⟨rfl, rfl, rfl⟩, .inr ⟨hasOf, .inl hpend⟩⟩

theorem move_claimFound {due : List String} {batchSize : Nat} {now leaseMs asOf : Int} {random : Nat → String}
    (hnodup : due.Nodup) (hdue : ∀ id ∈ due, disturbed tr i id = true ∨
      ∀ row ∈ w.rows, row.id = id → row.record.runAt ≤ asOf ∧ IsOpen tr i row.record)
    (howed : ∀ c ∈ (claimFound w random now leaseMs due batchSize [] w).1, owed tr c.record.id = false) :
    Move setting w (claimFound w random now leaseMs due batchSize [] w).2 tr (.found asOf due)
      (.working asOf none ((claimFound w random now leaseMs due batchSize [] w).1.map ClaimedScheduledNotification.record))
      ⟨i, .claimFound due batchSize now leaseMs, .ok (claimFound w random now leaseMs due batchSize [] w).1⟩ := by
  obtain ⟨more, hmore, hsublist, hrecs, hrows⟩ := claimFound_spec (w := w) random now leaseMs due batchSize [] w
  rw [nil_append] at hmore
  refine move_taken (fun h => nomatch h) ?_ rfl (fun record hrec => ?_) rfl rfl
  · rw [hmore, map_map]
    exact hnodup.sublist hsublist
  · obtain ⟨c, hc, rfl⟩ := mem_map.mp hrec
    refine ⟨howed c hc, ?_⟩
    rw [hmore] at hc
    obtain ⟨row, hrow, hid, heq⟩ := recordOf_mem (hrecs c hc)
    refine ⟨row, hrows ▸ hrow, hid, heq ▸ same_refl _, ?_⟩
    rcases hdue c.record.id (hsublist.subset (mem_map_of_mem hc)) with hdisturbed | hopen
    · exact .inl (disturbed_mono hdisturbed fun _ => rfl)
    · obtain ⟨hasOf, hopen⟩ := hopen row hrow hid
      refine .inr ⟨heq ▸ hasOf, hopen.imp_right fun ⟨hcanc, hsince⟩ => ⟨hcanc, ?_⟩⟩
      exact cancelledSince_mono hsince fun _ => rfl

theorem move_step {φ : Nat → Phase} (h : Scheduled w tr φ) (ha : (φ i).Allows setting o)
    (runners : List (Program scheduleSignature Unit)) (hguard : undisturbed ⟨w, tr, runners⟩ i o ch = true) :
    Move setting w (perform o ch w).2 tr (φ i) ((φ i).next o (perform o ch w).1) ⟨i, o, (perform o ch w).1⟩ := by
  obtain ⟨hgiven, hcomp⟩ := Bool.and_eq_true_iff.mp hguard
  obtain ⟨howed, hdisp⟩ := Bool.and_eq_true_iff.mp hgiven
  have howed : ∀ record ∈ taken ⟨i, o, (perform o ch w).1⟩, owed tr record.id = false := fun record hrec => by
    simpa using all_eq_true.mp howed record hrec
  have hnodup := h.nodup i
  cases o with
  | findDue asOf =>
    have hidle : φ i = .idle := ha
    rcases perform_cases (.findDue asOf) ch w with hans | ⟨hstatement, -⟩
    · rw [hans, hidle]
      refine ⟨fun _ => rfl, fun asOf' due hfound => .inr ?_, fun _ h => (nomatch h), fun _ h => (nomatch h), .nil,
        fun _ h => (nomatch h), fun _ h => (nomatch h), fun _ _ h => (nomatch h)⟩
      cases hfound
      refine ⟨h.keyed.sublist (filter_sublist.map _), fun id hid row hrow heq => ?_⟩
      obtain ⟨other, hother, rfl⟩ := mem_map.mp hid
      obtain ⟨hmem, hdue⟩ := mem_filter.mp hother
      rw [h.keyed.eq hrow hmem heq]
      exact hdue
    · cases hstatement
  | claimRows claimedBy leaseExpiresAt asOf batchSize =>
    rcases perform_cases (.claimRows claimedBy leaseExpiresAt asOf batchSize) ch w with hans | ⟨-, message, herror⟩
    · rw [hans] at howed ⊢
      have hidle : φ i = .idle := ha
      rw [hidle]
      exact move_claimRows h.keyed rfl howed
    · rw [herror]
      exact move_shrink (fun _ => ha) (fun _ _ _ => rfl) (.refl _) (.refl _) (fun _ => rfl) hnodup rfl rfl rfl
  | claimFound due batchSize now leaseMs =>
    obtain ⟨asOf, hfound⟩ := ha
    obtain ⟨hdist, hdue⟩ := h.found i asOf due hfound
    rcases perform_cases (.claimFound due batchSize now leaseMs) ch w with hans | ⟨hstatement, -⟩
    · rw [hans] at howed ⊢
      rw [hfound]
      exact move_claimFound hdist hdue fun c hc => howed c.record (mem_map_of_mem hc)
    · cases hstatement
  | dispatch record =>
    refine move_dispatch ha hnodup _ fun hr => ?_
    rw [hr] at hdisp
    simpa [succeeded] using hdisp
  | completeRow id nextRunAt =>
    refine move_complete ha hnodup (by cases (perform (.completeRow id nextRunAt) ch w).1 <;> rfl) rfl ?_ ?_ ?_
    · cases (perform (.completeRow id nextRunAt) ch w).1 <;> rfl
    · cases (perform (.completeRow id nextRunAt) ch w).1 <;> rfl
    · cases hr : (perform (.completeRow id nextRunAt) ch w).1 with
      | error message => exact .inl rfl
      | ok record =>
        rw [hr] at hcomp
        exact .inr ⟨rfl, by simpa [completed] using hcomp⟩
  | complete id claimToken nextRunAt =>
    refine move_complete ha hnodup (by cases (perform (.complete id claimToken nextRunAt) ch w).1 <;> rfl) rfl ?_ ?_ ?_
    · cases (perform (.complete id claimToken nextRunAt) ch w).1 <;> rfl
    · cases (perform (.complete id claimToken nextRunAt) ch w).1 <;> rfl
    · cases hr : (perform (.complete id claimToken nextRunAt) ch w).1 with
      | error message => exact .inl rfl
      | ok record =>
        rw [hr] at hcomp
        exact .inr ⟨rfl, by simpa [completed] using hcomp⟩
  | _ =>
    refine move_free ?_ hnodup _
    trivial

end

abbrev Undisturbed (setting : Setting) (store : Store) (p : SchedulePool) (a : Action (system setting store)) : Prop :=
  onStep undisturbed p a = true

section
variable {setting : Setting} {store : Store}

theorem inductive_scheduled (hsetting : setting.Advances) :
    Inductive (system setting store) (dispatching setting) .idle (Undisturbed setting store) Scheduled := by
  refine inductive_stepping (follows_body setting store) ?_ ?_ ?_
  · intro p φ c w _ h hw
    cases hw
    exact h
  · intro p φ elapsed _ h
    exact ⟨h.keyed, h.valid, h.found, h.held, h.nodup, h.apart, h.fresh, h.reached, h.once⟩
  · intro p φ i o ch hguard hp h ha
    exact h.next hsetting (turns_perform h.keyed i o ch) (move_step h ha p.runners (onStep_pending hguard hp)) rfl

def Cancelled (id : String) (w : World) : Prop := ∀ row ∈ w.rows, row.id = id → row.record.status = .cancelled

theorem inductive_cancelled (hsetting : setting.Advances) (id : String) :
    Inductive (system setting store) (dispatching setting) .idle (Undisturbed setting store) fun w tr φ =>
      Scheduled w tr φ ∧ Cancelled id w := by
  refine (inductive_scheduled hsetting).and (fun _ _ h => h) ?_ (fun _ _ _ _ _ h => h) ?_
  · intro p φ c w _ _ hcanc hw
    cases hw
    exact hcanc
  · intro p φ i o ch φ' hguard hp ht hcanc ha hm
    cases hm
    have hmove := move_step ht.holds ha p.runners (onStep_pending hguard hp)
    intro row' hrow' hid
    obtain ⟨row, hrow, heq, hkept | ⟨nextRunAt, hcomp, -⟩⟩ := (turns_perform ht.holds.keyed i o ch).row hrow'
    · have hpre := hcanc row hrow (heq.symm.trans hid)
      rcases hkept.status with hstat | ⟨-, hnow, -⟩
      · exact hstat.trans hpre
      · exact hnow
    · -- what is completed is pending
      obtain ⟨record, asOf, -, -, hrows⟩ := ht.holds.completing hmove rfl hcomp
      have hpend := (hrows row hrow rfl).2
      rw [hcanc row hrow (heq.symm.trans hid)] at hpend
      cases hpend

theorem scheduled_start {w : World} (hkeyed : Keyed Row.id w.rows) (hvalid : ∀ row ∈ w.rows, Valid row.record) :
    Scheduled w [] fun _ => .idle where
  keyed := hkeyed
  valid := hvalid
  found _ _ _ h := nomatch h
  held _ _ h := nomatch h
  nodup _ := .nil
  apart _ _ _ _ h := nomatch h
  fresh _ _ h := nomatch h
  reached _ _ h := absurd rfl h
  once _ _ := Nat.zero_le 1

/-- **An occurrence is dispatched once.** In runs that are not disturbed, each occurrence of a record is dispatched
with success once at most, no record runs more often than it may, and what is cancelled stays cancelled. -/
theorem dispatched_once (hsetting : setting.Advances) {w : World} (hkeyed : Keyed Row.id w.rows)
    (hvalid : ∀ row ∈ w.rows, Valid row.record) {q : SchedulePool}
    (h : Run (system setting store) (Undisturbed setting store) (Pool.start w) q) :
    (∀ id runAt, successes q.trace id runAt ≤ 1) ∧
      (∀ row ∈ q.world.rows, ∀ maxRuns, row.record.maxRuns = some maxRuns → row.record.runCount ≤ maxRuns) ∧
        ∀ r, Run (system setting store) (Undisturbed setting store) q r → ∀ id, Cancelled id q.world →
          Cancelled id r.world := by
  obtain ⟨φ, ht⟩ := (inductive_scheduled hsetting).run h ⟨_, Tracked.start (scheduled_start hkeyed hvalid)⟩
  refine ⟨ht.holds.once, fun row hrow maxRuns hmax => (ht.holds.valid row hrow maxRuns hmax).1, fun r hrun id hcanc => ?_⟩
  obtain ⟨φ', ht'⟩ := (inductive_cancelled hsetting id).run hrun ⟨φ, ht.mono fun hk => ⟨hk, hcanc⟩⟩
  exact ht'.holds.2

end

def everyMinute : Setting := ⟨fun _ _ asOf => .ok ((asOf / 60000 + 1) * 60000), 7⟩

theorem everyMinute_advances : everyMinute.Advances := by
  intro cronExpression timezone asOf next h
  cases h
  omega

def notification (id : String) (cronExpression : Option String) (maxRuns : Option Nat) : Row :=
  ⟨⟨id, "alice", "reminder", .null, 120000, cronExpression, none, none, maxRuns, 0, .pending, 0, 0, none⟩, none, none⟩

def world : World := ⟨120000, [notification "daily" (some "* * * * *") (some 2), notification "once" none none], [], 0⟩

abbrev everyMinuteOn (store : Store) : System scheduleSignature World := system everyMinute store

def processing (store : Store) (asOf : Int) : Action (everyMinuteOn store) :=
  .call (.processDueNotifications (some asOf) ⟨none, none, none⟩)

def cancelling (store : Store) (id : String) : Action (everyMinuteOn store) := .call (.cancelScheduledNotification id)

def goes (store : Store) (i n : Nat) : List (Action (everyMinuteOn store)) :=
  replicate n (.step i ⟨none, .ok (), [], fun _ => "random"⟩)

def elapses (store : Store) (milliseconds : Nat) : Action (everyMinuteOn store) := .drift milliseconds

def hasStatus (q : SchedulePool) (id : String) (status : Status) : Bool :=
  q.world.rows.all fun row => decide (row.id = id → row.record.status = status)

theorem cancelled_of_hasStatus {q : SchedulePool} {id : String} (h : hasStatus q id .cancelled = true) : Cancelled id q.world :=
  fun row hrow => of_decide_eq_true (all_eq_true.mp h row hrow)

/-- The one record is cancelled, and the other dispatched twice, once for each of its times. -/
theorem dispatched_once_daily : ∃ q r : SchedulePool,
    Run (everyMinuteOn .postgres) (Undisturbed everyMinute .postgres) (Pool.start world) q ∧
      Run (everyMinuteOn .postgres) (Undisturbed everyMinute .postgres) q r ∧
        successes r.trace "daily" 120000 = 1 ∧ successes r.trace "daily" 180000 = 1 ∧
          (∀ id runAt, successes r.trace id runAt ≤ 1) ∧ Cancelled "once" r.world := by
  have htest : ((Pool.start world).runWhile (everyMinuteOn .postgres) (onStep undisturbed)
      (cancelling .postgres "once" :: goes .postgres 0 1 ++ processing .postgres 120000 :: goes .postgres 1 5)).any (fun q =>
        hasStatus q "once" .cancelled && (q.runWhile (everyMinuteOn .postgres) (onStep undisturbed)
          (elapses .postgres 60000 :: processing .postgres 180000 :: goes .postgres 2 5)).any fun r =>
            decide (successes r.trace "daily" 120000 = 1) && decide (successes r.trace "daily" 180000 = 1)) = true := by
    decide
  obtain ⟨q, hq, htest⟩ := (Option.any_eq_true ..).mp htest
  obtain ⟨hcanc, htest⟩ := Bool.and_eq_true_iff.mp htest
  obtain ⟨r, hr, htest⟩ := (Option.any_eq_true ..).mp htest
  obtain ⟨hfirst, hsecond⟩ := Bool.and_eq_true_iff.mp htest
  have hkeyed : Keyed Row.id world.rows := by decide
  have hvalid : ∀ row ∈ world.rows, Valid row.record := by
    intro row hrow maxRuns hmax
    rcases mem_cons.mp hrow with rfl | hrow
    · cases hmax
      exact ⟨by decide, fun _ => by decide⟩
    · rw [mem_singleton.mp hrow] at hmax
      cases hmax
  have hrunq := Run.of_runWhile hq
  have hrunr := Run.of_runWhile hr
  refine ⟨q, r, hrunq, hrunr, of_decide_eq_true hfirst, of_decide_eq_true hsecond, ?_, ?_⟩
  · exact (dispatched_once everyMinute_advances hkeyed hvalid (hrunq.trans hrunr)).1
  · exact (dispatched_once everyMinute_advances hkeyed hvalid hrunq).2.2 r hrunr "once" (cancelled_of_hasStatus hcanc)

/-- In memory a record is cancelled after it was claimed. In Postgres a lease expires before the record's turn in a
batch, or between the check of a claim and the update. -/
theorem dispatched_again :
    (∃ q r : SchedulePool, Run (everyMinuteOn .inMemory) (fun _ _ => True) (Pool.start world) q ∧ hasStatus q "once" .cancelled = true ∧
      Run (everyMinuteOn .inMemory) (fun _ _ => True) q r ∧ hasStatus r "once" .dispatched = true) ∧
    (∃ q : SchedulePool, Run (everyMinuteOn .postgres) (fun _ _ => True) (Pool.start world) q ∧ successes q.trace "once" 120000 = 2) ∧
      ∃ q : SchedulePool, Run (everyMinuteOn .postgres) (fun _ _ => True)
        (Pool.start ⟨120000, [notification "single" (some "* * * * *") (some 1)], [], 0⟩) q ∧
          (q.world.rows.map fun row => (row.record.maxRuns, row.record.runCount)) = [(some 1, 2)] := by
  refine ⟨?_, ?_, ?_⟩
  · have htest : ((Pool.start world).runWhile (everyMinuteOn .inMemory) (fun _ _ => true)
        (processing .inMemory 120000 :: goes .inMemory 0 3 ++ cancelling .inMemory "once" :: goes .inMemory 1 1)).any (fun q =>
          hasStatus q "once" .cancelled && (q.runWhile (everyMinuteOn .inMemory) (fun _ _ => true) (goes .inMemory 0 4)).any fun r =>
            hasStatus r "once" .dispatched) = true := by
      decide
    obtain ⟨q, hq, htest⟩ := (Option.any_eq_true ..).mp htest
    obtain ⟨hcanc, htest⟩ := Bool.and_eq_true_iff.mp htest
    obtain ⟨r, hr, hdisp⟩ := (Option.any_eq_true ..).mp htest
    exact ⟨q, r, (Run.of_runWhile hq).mono fun _ _ _ => trivial, hcanc,
      (Run.of_runWhile hr).mono fun _ _ _ => trivial, hdisp⟩
  · obtain ⟨q, hrun, htest⟩ := Run.exists_of_any (Pool.start world) (fun _ _ => true)
      (processing .postgres 120000 :: goes .postgres 0 2 ++ elapses .postgres 50000 :: goes .postgres 0 3 ++
        elapses .postgres 11000 :: processing .postgres 120000 :: goes .postgres 1 3 ++
        elapses .postgres 39000 :: goes .postgres 0 1)
      (fun q => decide (successes q.trace "once" 120000 = 2)) (by decide)
    exact ⟨q, hrun.mono fun _ _ _ => trivial, of_decide_eq_true htest⟩
  · obtain ⟨q, hrun, htest⟩ := Run.exists_of_any
      (Pool.start (⟨120000, [notification "single" (some "* * * * *") (some 1)], [], 0⟩ : World)) (fun _ _ => true)
      (processing .postgres 120000 :: goes .postgres 0 4 ++ elapses .postgres 61000 :: processing .postgres 120000 ::
        goes .postgres 1 5 ++ goes .postgres 0 1)
      (fun q => decide ((q.world.rows.map fun row => (row.record.maxRuns, row.record.runCount)) = [(some 1, 2)]))
      (by decide)
    exact ⟨q, hrun.mono fun _ _ _ => trivial, of_decide_eq_true htest⟩

end Delego.Scheduler
