import Delego.Scheduler.Dispatch

/-! What has happened to the records: who was given them, which occurrences were dispatched, which were completed. -/
namespace Delego.Scheduler
open Delego.Data Delego.Process List

abbrev SchedulePool := Pool scheduleSignature World

def taken : Entry scheduleSignature → List ScheduledNotification
  | ⟨_, .claimRows _ _ _ _, .ok records⟩ => records
  | ⟨_, .claimFound _ _ _ _, .ok claimed⟩ => claimed.map ClaimedScheduledNotification.record
  | _ => []

/-- The record that was dispatched, with success. -/
def succeeded : Entry scheduleSignature → Option ScheduledNotification
  | ⟨_, .dispatch record, .ok _⟩ => some record
  | _ => none

/-- The record that was completed, and its next run. -/
def completed : Entry scheduleSignature → Option (String × Option Int)
  | ⟨_, .completeRow id nextRunAt, .ok _⟩ => some (id, nextRunAt)
  | ⟨_, .complete id _ nextRunAt, .ok _⟩ => some (id, nextRunAt)
  | _ => none

def takes (id : String) (e : Entry scheduleSignature) : Bool := (taken e).any fun record => decide (record.id = id)

def succeeds (id : String) (e : Entry scheduleSignature) : Bool := (succeeded e).any fun record => decide (record.id = id)

/-- An occurrence of a record is one of its times. -/
def succeedsAt (id : String) (runAt : Int) (e : Entry scheduleSignature) : Bool :=
  (succeeded e).any fun record => decide (record.id = id ∧ record.runAt = runAt)

def completes (id : String) (e : Entry scheduleSignature) : Bool := (completed e).any fun c => decide (c.1 = id)

def cancels (id : String) : Entry scheduleSignature → Bool
  | ⟨_, .cancelRow other, .ok (some _)⟩ => decide (other = id)
  | ⟨_, .cancel other, .ok (some record)⟩ => decide (other = id ∧ record.status = .cancelled)
  | _ => false

def looks : Op → Bool
  | .findDue _ => true
  | .claimRows _ _ _ _ => true
  | _ => false

def successes (tr : List (Entry scheduleSignature)) (id : String) (runAt : Int) : Nat := tr.countP (succeedsAt id runAt)

/-- Since the run looked for what is due, another was given the record or completed it. -/
def disturbed (tr : List (Entry scheduleSignature)) (i : Nat) (id : String) : Bool :=
  (since looks tr i).any fun e => decide (e.runner ≠ i) && (takes id e || completes id e)

def cancelledSince (tr : List (Entry scheduleSignature)) (i : Nat) (id : String) : Bool :=
  (since looks tr i).any (cancels id)

def owed (tr : List (Entry scheduleSignature)) (id : String) : Bool :=
  (tr.find? fun e => succeeds id e || completes id e).any (succeeds id)

/-- No record is claimed that was dispatched and not completed; and from a run's look for what is due to its
completion of a record, no other run changes the record. -/
def undisturbed (p : SchedulePool) (i : Nat) (o : Op) (ch : Choice) : Bool :=
  let e : Entry scheduleSignature := ⟨i, o, (perform o ch p.world).1⟩
  ((taken e).all fun record => !owed p.trace record.id) &&
    ((succeeded e).all fun record => !disturbed p.trace i record.id) &&
    (completed e).all fun c => !disturbed p.trace i c.1 && !cancelledSince p.trace i c.1

section
variable {tr : List (Entry scheduleSignature)} {e : Entry scheduleSignature} {i : Nat} {id : String} {runAt : Int}

theorem disturbed_mono (h : disturbed tr i id = true) (hlooks : e.runner = i → looks e.op = false) :
    disturbed (e :: tr) i id = true := by
  unfold disturbed at h ⊢
  rw [since_cons hlooks, any_cons, h, Bool.or_true]

theorem disturbed_now (hi : e.runner ≠ i) (h : takes id e = true ∨ completes id e = true) :
    disturbed (e :: tr) i id = true := by
  unfold disturbed
  rw [since_cons fun heq => absurd heq hi, any_cons, decide_eq_true hi, Bool.true_and]
  rcases h with h | h
  · rw [h, Bool.true_or, Bool.true_or]
  · rw [h, Bool.or_true, Bool.true_or]

theorem cancelledSince_mono (h : cancelledSince tr i id = true) (hlooks : e.runner = i → looks e.op = false) :
    cancelledSince (e :: tr) i id = true := by
  unfold cancelledSince at h ⊢
  rw [since_cons hlooks, any_cons, h, Bool.or_true]

theorem cancelledSince_now (hlooks : e.runner = i → looks e.op = false) (h : cancels id e = true) :
    cancelledSince (e :: tr) i id = true := by
  unfold cancelledSince
  rw [since_cons hlooks, any_cons, h, Bool.true_or]

theorem owed_cons (e : Entry scheduleSignature) (tr : List (Entry scheduleSignature)) (id : String) :
    owed (e :: tr) id = (succeeds id e || !completes id e && owed tr id) := by
  unfold owed
  rw [find?_cons]
  cases hsucceeds : succeeds id e with
  | true =>
    simp only [Bool.true_or, Option.any_some]
    exact hsucceeds
  | false =>
    cases hcompl : completes id e with
    | true =>
      simp only [Bool.or_true, Option.any_some, Bool.not_true, Bool.false_and, Bool.or_false]
      exact hsucceeds
    | false => rfl

theorem successes_cons (e : Entry scheduleSignature) (tr : List (Entry scheduleSignature)) (id : String) (runAt : Int) :
    successes (e :: tr) id runAt = successes tr id runAt + if succeedsAt id runAt e then 1 else 0 := countP_cons ..

variable {record : ScheduledNotification}

theorem takes_of_mem (h : record ∈ taken e) : takes record.id e = true :=
  any_eq_true.mpr ⟨record, h, decide_eq_true rfl⟩

theorem completes_of_some {nextRunAt : Option Int} (h : completed e = some (id, nextRunAt)) : completes id e = true := by
  unfold completes
  rw [h]
  exact decide_eq_true rfl

theorem completed_of_completes (h : completes id e = true) : ∃ nextRunAt, completed e = some (id, nextRunAt) := by
  unfold completes at h
  obtain ⟨⟨other, nextRunAt⟩, hcompleted, hid⟩ := (Option.any_eq_true ..).mp h
  obtain rfl : other = id := of_decide_eq_true hid
  exact ⟨nextRunAt, hcompleted⟩

theorem succeeded_of_succeedsAt (h : succeedsAt id runAt e = true) :
    ∃ record, succeeded e = some record ∧ record.id = id ∧ record.runAt = runAt := by
  obtain ⟨record, hsucc, heq⟩ := (Option.any_eq_true ..).mp h
  exact ⟨record, hsucc, of_decide_eq_true heq⟩

theorem succeeds_of_some (h : succeeded e = some record) : succeeds record.id e = true := by
  unfold succeeds
  rw [h]
  exact decide_eq_true rfl

theorem completed_of_succeeded (h : succeeded e = some record) : completed e = none := by
  obtain ⟨i, o, r⟩ := e
  cases o <;> cases r <;> first | rfl | cases h

end

/-- A record that is as it was, but that it may have been cancelled. -/
structure Kept (e : Entry scheduleSignature) (record record' : ScheduledNotification) : Prop where
  runAt : record'.runAt = record.runAt
  runCount : record'.runCount = record.runCount
  maxRuns : record'.maxRuns = record.maxRuns
  status : record'.status = record.status ∨
    record.status = .pending ∧ record'.status = .cancelled ∧ cancels record.id e = true
  unfinished : completes record.id e = false

/-- A record that was completed, with its next run. -/
structure Completed (nextRunAt : Option Int) (record record' : ScheduledNotification) : Prop where
  runAt : record'.runAt = nextRunAt.getD record.runAt
  runCount : record'.runCount = record.runCount + 1
  maxRuns : record'.maxRuns = record.maxRuns
  status : record'.status = if nextRunAt.isSome then .pending else .dispatched

def Turns (e : Entry scheduleSignature) (w w' : World) : Prop :=
  ∃ f : Row → Row, w'.rows = w.rows.map f ∧ ∀ row ∈ w.rows, (f row).id = row.id ∧ (Kept e row.record (f row).record ∨
    ∃ nextRunAt, completed e = some (row.id, nextRunAt) ∧ Completed nextRunAt row.record (f row).record)

section
variable {w : World} {e : Entry scheduleSignature} {row : Row}

theorem completes_of_none (h : completed e = none) (id : String) : completes id e = false := by
  unfold completes
  rw [h]
  rfl

theorem kept_refl {record : ScheduledNotification} (h : completes record.id e = false) : Kept e record record :=
  ⟨rfl, rfl, rfl, .inl rfl, h⟩

variable {w' : World}

theorem turns_map {f : Row → Row} (hrows : w'.rows = w.rows.map f) (hcompleted : completed e = none)
    (hf : ∀ row, (f row).id = row.id ∧ (f row).record.runAt = row.record.runAt ∧
      (f row).record.runCount = row.record.runCount ∧ (f row).record.maxRuns = row.record.maxRuns ∧
      (f row).record.status = row.record.status) : Turns e w w' := by
  refine ⟨f, hrows, fun row _ => ?_⟩
  obtain ⟨hid, hrunAt, hrunCount, hmaxRuns, hstat⟩ := hf row
  exact ⟨hid, .inl ⟨hrunAt, hrunCount, hmaxRuns, .inl hstat, completes_of_none hcompleted _⟩⟩

theorem turns_refl (h : w'.rows = w.rows) (hcompleted : completed e = none) : Turns e w w' :=
  turns_map (f := id) (by rw [h, map_id]) hcompleted fun _ => ⟨rfl, rfl, rfl, rfl, rfl⟩

theorem turns_update {id : String} {f : Row → Row} (hrows : w'.rows = update Row.id w.rows id f)
    (hothers : ∀ other, other ≠ id → completes other e = false)
    (h : ∀ row ∈ w.rows, row.id = id → (f row).id = row.id ∧ (Kept e row.record (f row).record ∨
      ∃ nextRunAt, completed e = some (row.id, nextRunAt) ∧ Completed nextRunAt row.record (f row).record)) :
    Turns e w w' := by
  refine ⟨_, hrows, fun row hrow => ?_⟩
  split
  · rename_i hid
    exact h row hrow hid
  · rename_i hid
    exact ⟨rfl, .inl (kept_refl (hothers row.id hid))⟩

theorem completed_record (now : Int) (nextRunAt : Option Int) (record : ScheduledNotification) :
    Completed nextRunAt record (record.completed now nextRunAt) := by
  cases nextRunAt <;> exact ⟨rfl, rfl, rfl, rfl⟩

theorem completed_id (now : Int) (nextRunAt : Option Int) (record : ScheduledNotification) :
    (record.completed now nextRunAt).id = record.id := by
  cases nextRunAt <;> rfl

theorem kept_cancelled (now : Int) (record : ScheduledNotification)
    (h : record.status = .pending → cancels record.id e = true) (hunfinished : completes record.id e = false) :
    Kept e record (record.cancelled now) := by
  unfold ScheduledNotification.cancelled
  split
  · rename_i hpend
    exact ⟨rfl, rfl, rfl, .inr ⟨hpend, rfl, h hpend⟩, hunfinished⟩
  · exact kept_refl hunfinished

theorem cancelled_id (now : Int) (record : ScheduledNotification) : (record.cancelled now).id = record.id := by
  unfold ScheduledNotification.cancelled
  split <;> rfl

theorem recordOf_found (h : Keyed Row.id w.rows) (hrow : row ∈ w.rows) : recordOf w row.id = some row.record := by
  rw [recordOf, h.found hrow]
  rfl

theorem recordOf_mem {id : String} {record : ScheduledNotification} (h : recordOf w id = some record) :
    ∃ row ∈ w.rows, row.id = id ∧ row.record = record := by
  obtain ⟨row, hrow, rfl⟩ := Option.map_eq_some_iff.mp h
  exact ⟨row, lookup_mem hrow, lookup_key hrow, rfl⟩

theorem claimFound_spec (random : Nat → String) (now leaseMs : Int) (due : List String) (batchSize : Nat)
    (claimed : List ClaimedScheduledNotification) (w' : World) :
    ∃ more, (claimFound w random now leaseMs due batchSize claimed w').1 = claimed ++ more ∧
      (more.map fun c => c.record.id).Sublist due ∧ (∀ c ∈ more, recordOf w c.record.id = some c.record) ∧
      (claimFound w random now leaseMs due batchSize claimed w').2.rows = w'.rows := by
  induction due generalizing claimed w' with
  | nil => exact ⟨[], (append_nil _).symm, .slnil, fun _ h => (nomatch h), rfl⟩
  | cons id due ih =>
    unfold claimFound
    split
    · exact ⟨[], (append_nil _).symm, nil_sublist _, fun _ h => (nomatch h), rfl⟩
    · cases hrec : recordOf w id with
      | none =>
        obtain ⟨more, hmore, hsublist, hrecs, hrows⟩ := ih claimed w'
        exact ⟨more, hmore, hsublist.cons id, hrecs, hrows⟩
      | some record =>
        simp only
        split
        · obtain ⟨more, hmore, hsublist, hrecs, hrows⟩ := ih claimed w'
          exact ⟨more, hmore, hsublist.cons id, hrecs, hrows⟩
        · obtain ⟨more, hmore, hsublist, hrecs, hrows⟩ := ih (claimed ++ [⟨record, .claim _⟩])
            { w' with claims := put Claim.id w'.claims ⟨id, _, now + leaseMs⟩, idCounter := w'.idCounter + 1 }
          obtain ⟨row, -, hid, rfl⟩ := recordOf_mem hrec
          have heq : row.record.id = id := hid
          refine ⟨⟨row.record, .claim (claimText w.clock (w'.idCounter + 1) (random (w'.idCounter + 1)))⟩ :: more,
            ?_, ?_, ?_, hrows⟩
          · rw [hmore, append_assoc]
            rfl
          · rw [map_cons, heq]
            exact hsublist.cons_cons id
          · intro c hc
            rcases mem_cons.mp hc with rfl | hc
            · rw [heq]
              exact hrec
            · exact hrecs c hc

theorem claimRows_spec (h : Keyed Row.id w.rows) (locked : List String) (claimedBy : String) (leaseExpiresAt asOf : Int)
    (batchSize : Nat) :
    ((claimRows w locked claimedBy leaseExpiresAt asOf batchSize).1.map ScheduledNotification.id).Nodup ∧
      ∀ record ∈ (claimRows w locked claimedBy leaseExpiresAt asOf batchSize).1, ∃ row ∈ w.rows,
        record = { row.record with updatedAt := w.clock } ∧ row.record.isDue asOf = true := by
  have hids : ∀ ids, ∀ row : Row, (row.picked w ids claimedBy leaseExpiresAt).id = row.id := by
    intro ids row
    unfold Row.picked
    split <;> rfl
  refine ⟨?_, fun record hrec => ?_⟩
  · simp only [claimRows, map_map]
    refine List.Nodup.sublist (filter_sublist.map _) ?_
    rw [map_map]
    have hcomp : (ScheduledNotification.id ∘ Row.record) ∘ Row.picked w (pickedRows w locked asOf batchSize) claimedBy
        leaseExpiresAt = Row.id := funext (hids _)
    rw [hcomp]
    exact h
  · simp only [claimRows] at hrec
    obtain ⟨row', hrow', rfl⟩ := mem_map.mp hrec
    obtain ⟨hmem, hpicked⟩ := mem_filter.mp hrow'
    obtain ⟨row, hrow, rfl⟩ := mem_map.mp hmem
    rw [hids] at hpicked
    refine ⟨row, hrow, ?_, ?_⟩
    · rw [Row.picked, if_pos hpicked]
      rfl
    · obtain ⟨other, hother, hid⟩ := mem_map.mp (contains_iff_mem.mp hpicked)
      have hfiltered := mem_filter.mp ((mem_insertionSort _).mp (mem_of_mem_take hother))
      obtain rfl := h.eq hfiltered.1 hrow hid
      exact (Bool.and_eq_true_iff.mp (Bool.and_eq_true_iff.mp hfiltered.2).1).1

end

end Delego.Scheduler
