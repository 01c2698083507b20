import Delego.Ingestion.Committing

/-! Ingestion is exact.

`Exact` is what the store keeps to: what it holds of a contract, and what processors were handed, are the contract's
events from the initial ledger up to its watermark, in order. -/
namespace Delego.Ingestion
open Delego.Data Delego.Process List

def Tables.handedOf (t : Tables) (contractId : String) : List LedgerEvent :=
  t.handed.filter fun event => decide (event.contractId = contractId)

def Tables.eventsOf (t : Tables) (contractId : String) : List LedgerEvent :=
  t.events.filter fun event => decide (event.contractId = contractId)

def Tables.watermark (t : Tables) (contractId : String) : Option Int :=
  (lookup CheckpointRow.contractId t.rows contractId).map CheckpointRow.lastLedgerSequence

section
variable (history : History) (initial : Int)

def Reached (t : Tables) (contractId : String) : Option CheckpointRow → Prop
  | some row => 0 ≤ row.lastLedgerSequence ∧ initial ≤ row.lastLedgerSequence + 1 ∧
      t.handedOf contractId = history.between contractId initial row.lastLedgerSequence
  | none => t.handedOf contractId = []

/-- The tables hold what was handed over, once. -/
structure Exact (t : Tables) : Prop where
  keyed : Keyed CheckpointRow.contractId t.rows
  events : t.events = t.handed
  processed : t.processedIds = t.handed.map LedgerEvent.eventId
  reached : ∀ contractId, Reached history initial t contractId (lookup CheckpointRow.contractId t.rows contractId)

/-- What processors were handed, which only grows. -/
def Tables.known (t : Tables) : Set LedgerEvent := {event | event ∈ t.handed}

end

section
variable {history : History} {initial : Int} {t : Tables} {contractId : String} {f : Int} {event : LedgerEvent}

theorem mem_handedOf :
    event ∈ t.handedOf contractId ↔ event ∈ t.handed ∧ event.contractId = contractId := by
  simp only [Tables.handedOf, mem_filter, decide_eq_true_eq]

theorem stored_nonneg (t : Tables) (contractId : String) : 0 ≤ ledgerOf (t.stored contractId) := by
  cases hstore : t.stored contractId with
  | none => exact Int.le_refl 0
  | some checkpoint =>
    obtain ⟨row, hrow, rfl⟩ := Option.map_eq_some_iff.mp hstore
    exact le_of_lt (of_decide_eq_true (Option.filter_eq_some_iff.mp hrow).2)

theorem exact_empty : Exact history initial .empty where
  keyed := nodup_nil
  events := rfl
  processed := rfl
  reached := fun _ => rfl

namespace Exact
variable (h : Exact history initial t)
include h

theorem row_le {row : CheckpointRow} (hrow : lookup CheckpointRow.contractId t.rows contractId = some row) {through : Int}
    (hle : ledgerOf (t.stored contractId) ≤ through) : row.lastLedgerSequence ≤ through := by
  have hreach := h.reached contractId
  rw [hrow] at hreach
  rw [Tables.stored, hrow, Option.filter_some] at hle
  by_cases hwatermark : row.isWatermark = true
  · rw [if_pos hwatermark] at hle
    exact hle
  · rw [if_neg hwatermark] at hle
    have hzero : (0 : Int) ≤ through := hle
    simp only [CheckpointRow.isWatermark, decide_eq_true_eq] at hwatermark
    omega

/-- Up to a ledger that a commit may not go back behind, processors were handed all events from the initial ledger on. -/
theorem level (contractId : String) : ∃ m, t.handedOf contractId = history.between contractId initial m ∧
    initial ≤ m + 1 ∧ ∀ through, initial ≤ through + 1 → ledgerOf (t.stored contractId) ≤ through → m ≤ through := by
  have hreach := h.reached contractId
  cases hrow : lookup CheckpointRow.contractId t.rows contractId with
  | none =>
    rw [hrow] at hreach
    exact ⟨initial - 1, hreach.trans (between_nil (by omega)).symm, by omega, fun through hthrough _ => by omega⟩
  | some row =>
    rw [hrow] at hreach
    exact ⟨row.lastLedgerSequence, hreach.2.2, hreach.2.1, fun through _ hle => h.row_le hrow hle⟩

theorem storedBefore_row {row : CheckpointRow} (hrow : lookup CheckpointRow.contractId t.rows contractId = some row) :
    StoredBefore history initial t.known contractId (row.lastLedgerSequence + 1) := by
  have hreach := h.reached contractId
  rw [hrow] at hreach
  obtain ⟨-, hini, hhanded⟩ := hreach
  refine ⟨hini, fun event hevent hfirst hlast => ?_⟩
  have hmem : event ∈ t.handedOf contractId := by
    rw [hhanded]
    exact History.mem_between.mpr ⟨hevent, hfirst, by omega⟩
  exact (mem_handedOf.mp hmem).1

theorem told_stored (contractId : String) : Told history initial t.known contractId (t.stored contractId) := by
  rintro checkpoint hstore
  obtain ⟨row, hrow, rfl⟩ := Option.map_eq_some_iff.mp hstore
  exact h.storedBefore_row (Option.filter_eq_some_iff.mp hrow).1

theorem told_loaded {contractIds : List String} {checkpoint : IngestionCheckpoint}
    (hmem : checkpoint ∈ loadAll t contractIds) :
    Told history initial t.known checkpoint.contractId (some checkpoint) := by
  rintro _ ⟨⟩
  obtain ⟨row, hrow, rfl⟩ := mem_map.mp hmem
  exact h.storedBefore_row (h.keyed.found (mem_of_mem_filter hrow))

theorem mem_history (hevent : event ∈ t.handed) : event ∈ history.events.map toLedgerEvent := by
  obtain ⟨m, hhanded, -⟩ := h.level event.contractId
  have hmem : event ∈ t.handedOf event.contractId := mem_handedOf.mpr ⟨hevent, rfl⟩
  rw [hhanded] at hmem
  exact (History.mem_eventsOf.mp (History.mem_between.mp hmem).1).1

theorem mem_processed (hevent : event ∈ history.events.map toLedgerEvent) :
    event.eventId ∈ t.processedIds ↔ event ∈ t.handed := by
  rw [h.processed]
  refine ⟨fun hid => ?_, fun hhanded => mem_map_of_mem hhanded⟩
  obtain ⟨event', hhanded, hid⟩ := mem_map.mp hid
  rwa [history.keyed.eq hevent (h.mem_history hhanded) hid.symm]

section
variable {input : CommitBatchInput} (hpre : StoredBefore history initial t.known input.contractId f)
  (hevents : input.events = history.between input.contractId f input.throughLedger)
include hpre hevents

theorem claimEvents_eq {m : Int} (hhanded : t.handedOf input.contractId = history.between input.contractId initial m)
    (hm : initial ≤ m + 1) :
    claimEvents t input.events = history.between input.contractId (m + 1) input.throughLedger := by
  have hnew : ∀ event ∈ history.eventsOf input.contractId, initial ≤ event.ledger →
      (event.eventId ∉ t.processedIds ↔ m + 1 ≤ event.ledger) := by
    intro event hevent hfirst
    have hcontr := History.mem_eventsOf.mp hevent
    have hmem : event ∈ t.handed ↔ event ∈ t.handedOf input.contractId :=
      ⟨fun hmem => mem_handedOf.mpr ⟨hmem, hcontr.2⟩, fun hmem => (mem_handedOf.mp hmem).1⟩
    rw [h.mem_processed hcontr.1, hmem, hhanded, History.mem_between]
    exact ⟨fun hnot => by by_contra hlt; exact hnot ⟨hevent, hfirst, by omega⟩, fun hle hmem => by omega⟩
  have hini := hpre.begins
  rw [hevents, claimEvents, History.between, History.between, Data.between, Data.between, upTo, upTo, onward, onward,
    filter_filter, filter_filter, filter_filter]
  refine filter_congr fun event hevent => ?_
  rw [← Bool.decide_and, ← Bool.decide_and, ← Bool.decide_and, decide_eq_decide]
  constructor
  · rintro ⟨⟨hunclaimed, hle⟩, hge⟩
    exact ⟨hle, (hnew event hevent (by omega)).mp hunclaimed⟩
  · rintro ⟨hle, hge⟩
    have hunclaimed := (hnew event hevent (by omega)).mpr hge
    refine ⟨⟨hunclaimed, hle⟩, ?_⟩
    by_contra hlt
    have hstore := hpre.all event hevent (by omega) (by omega)
    exact hunclaimed ((h.mem_processed (History.mem_eventsOf.mp hevent).1).mpr hstore)

theorem committed (hf : f ≤ input.throughLedger + 1)
    (hle : ledgerOf (t.stored input.contractId) ≤ input.throughLedger) : Exact history initial (committed t input) := by
  have hpos := (stored_nonneg t input.contractId).trans hle
  obtain ⟨m, hhanded, hm, hlevel⟩ := h.level input.contractId
  have hini := hpre.begins
  have hthrough := hlevel input.throughLedger (by omega) hle
  have hclaimed := h.claimEvents_eq hpre hevents hhanded hm
  have hkeyed : Keyed LedgerEvent.eventId input.events := by
    rw [hevents]
    exact (history.eventsOf_keyed input.contractId).sublist
      ((filter_sublist.trans filter_sublist).map LedgerEvent.eventId)
  have hids : Keyed id (input.events.map LedgerEvent.eventId) := by
    rw [Keyed, map_id]
    exact hkeyed
  have hof : ∀ contractId, (Ingestion.committed t input).handedOf contractId =
      t.handedOf contractId ++ (claimEvents t input.events).filter fun event => decide (event.contractId = contractId) :=
    fun contractId => filter_append ..
  have hown : ∀ event ∈ claimEvents t input.events, event.contractId = input.contractId := by
    intro event hevent
    rw [hclaimed] at hevent
    exact (History.mem_eventsOf.mp (History.mem_between.mp hevent).1).2
  constructor
  · exact h.keyed.put _
  · show upsertEvents t input.events = t.handed ++ claimEvents t input.events
    rw [upsertEvents, insertNew_of_keyed hkeyed, claimEvents, h.processed, h.events]
  · show claimIds t input.events = (t.handed ++ claimEvents t input.events).map LedgerEvent.eventId
    rw [claimIds, insertNew_of_keyed hids, claimEvents, map_append, ← h.processed, map_id, filter_map]
    rfl
  · intro contractId
    show Reached history initial (Ingestion.committed t input) contractId
      (lookup CheckpointRow.contractId (put CheckpointRow.contractId t.rows _) contractId)
    rw [lookup_put]
    split
    · rename_i hcontr
      obtain rfl : contractId = input.contractId := hcontr
      refine ⟨hpos, by simp only; omega, ?_⟩
      rw [hof, filter_eq_self.mpr fun event hevent => decide_eq_true (hown event hevent), hhanded, hclaimed]
      exact History.between_append hm hthrough
    · rename_i hcontr
      have hothers : ((claimEvents t input.events).filter fun event => decide (event.contractId = contractId)) = [] := by
        refine filter_eq_nil_iff.mpr fun event hevent => ?_
        rw [decide_eq_true_eq, hown event hevent]
        exact fun heq => hcontr heq.symm
      have hsame : (Ingestion.committed t input).handedOf contractId = t.handedOf contractId := by
        rw [hof, hothers, append_nil]
      have hreach := h.reached contractId
      cases hrow : lookup CheckpointRow.contractId t.rows contractId with
      | none =>
        rw [hrow] at hreach
        exact hsame.trans hreach
      | some row =>
        rw [hrow] at hreach
        exact ⟨hreach.1, hreach.2.1, hsame.trans hreach.2.2⟩

theorem storedBefore_committed (hf : f ≤ input.throughLedger + 1)
    (hle : ledgerOf (t.stored input.contractId) ≤ input.throughLedger) :
    StoredBefore history initial (Ingestion.committed t input).known input.contractId (input.throughLedger + 1) := by
  have hrow : lookup CheckpointRow.contractId (Ingestion.committed t input).rows input.contractId =
      some ⟨input.contractId, input.throughLedger, (nextCheckpoint input).lastEventId⟩ := by
    show lookup CheckpointRow.contractId (put CheckpointRow.contractId t.rows _) input.contractId = _
    rw [lookup_put]
    exact if_pos rfl
  exact (h.committed hpre hevents hf hle).storedBefore_row hrow

end

end Exact

end

/-! ### Resumable ingestion over whole runs

Any number of workers sync the contracts of one history, and any pass may stop at any of its operations. What a caller has
learnt and what a worker remembers stays so, since what is stored is never taken back; so every batch that is committed
follows what is stored (`inductive_ingested`). -/

section
variable {config : Config} {history : History} {initial : Int} {w : World}

def Memory.Recalls (history : History) (initial : Int) (t : Tables) (m : Memory) : Prop :=
  ∀ contractId, Told history initial t.known contractId (m.checkpoint contractId)

/-- The tables are exact, and so is what workers remember. -/
structure Ingested (history : History) (initial : Int) (w : World) : Prop where
  exact : Exact history initial w.tables
  memory : ∀ worker, (w.memory worker).Recalls history initial w.tables

theorem ingested_start : Ingested history initial .start where
  exact := exact_empty
  memory := fun _ _ _ h => nomatch h

namespace Memory
variable {t : Tables} {m : Memory} {entry : Entry} {entries : List Entry}

theorem Recalls.setCheckpoint (h : m.Recalls history initial t)
    (hentry : Told history initial t.known entry.contractId entry.checkpoint) :
    (m.setCheckpoint entry).Recalls history initial t := by
  intro contractId c hc
  simp only [Memory.checkpoint, Memory.setCheckpoint, lookup_put] at hc
  split at hc
  · rename_i hcontr
    rw [hcontr]
    exact hentry c hc
  · exact h contractId c hc

theorem Recalls.setLoaded (h : m.Recalls history initial t)
    (hentries : ∀ entry ∈ entries, Told history initial t.known entry.contractId entry.checkpoint) :
    (m.setLoaded entries).Recalls history initial t := by
  induction entries generalizing m with
  | nil => exact h
  | cons entry rest ih =>
    have hentry : (m.setCheckpoint entry).Recalls history initial t := h.setCheckpoint (hentries entry mem_cons_self)
    exact ih (m := (m.setCheckpoint entry).setState entry.contractId .idle) hentry
      fun entry' hmem => hentries entry' (mem_cons_of_mem entry hmem)

end Memory

namespace Ingested

theorem remember (h : Ingested history initial w) {worker : Nat} {m : Memory}
    (hm : m.Recalls history initial w.tables) : Ingested history initial (w.remember worker m) := by
  refine ⟨h.exact, fun worker' => ?_⟩
  show (Function.update w.memory worker m worker').Recalls history initial w.tables
  by_cases hworker : worker' = worker
  · rw [hworker, Function.update_self]
    exact hm
  · rw [Function.update_of_ne hworker]
    exact h.memory worker'

theorem store (h : Ingested history initial w) {t : Tables} (ht : Exact history initial t)
    (hsub : w.tables.known ⊆ t.known) : Ingested history initial { w with tables := t } where
  exact := ht
  memory := fun worker contractId => (h.memory worker contractId).mono hsub

/-- What an operation that is carried out keeps and teaches. -/
structure Step (history : History) (initial : Int) (w : World) (o : Op) (r : ingestSignature.Result o) (w' : World) :
    Prop where
  ingested : Ingested history initial w'
  grows : w.tables.known ⊆ w'.tables.known
  teaches : ∀ stored, w'.tables.known ⊆ stored → Teaches history initial o r stored

theorem commit (h : Ingested history initial w) {input : CommitBatchInput}
    (ha : Requires history initial (.commitBatch input) w.tables.known) :
    Step history initial w (.commitBatch input) (commitBatch w.tables input).1
      { w with tables := (commitBatch w.tables input).2 } := by
  obtain ⟨f, hpre, hf, hevents⟩ := ha
  rcases commitBatch_cases w.tables input with ⟨e, hcommit, hconflict⟩ | ⟨hcommit, hsame, hle⟩
  · rw [hcommit]
    refine ⟨h, subset_rfl, fun stored hsub => ?_⟩
    cases e with
    | checkpointConflict contractId checkpoint =>
      obtain rfl := hconflict contractId checkpoint rfl
      exact (h.exact.told_stored input.contractId).mono hsub
    | ledgerRetentionGap contractId resumeLedger oldestLedger => trivial
    | other message => trivial
  · rw [hcommit]
    rw [← hsame] at hle
    have hgrows : w.tables.known ⊆ (committed w.tables input).known := subset_append_left _ _
    have hthrough := h.exact.storedBefore_committed hpre hevents hf hle
    refine ⟨h.store (h.exact.committed hpre hevents hf hle) hgrows, hgrows, fun stored hsub => ?_⟩
    refine ⟨hthrough.mono hsub, ?_⟩
    rintro _ ⟨⟩
    exact hthrough.mono hsub

theorem answer (h : Ingested history initial w) {o : Op} (ch : Choice) (ha : Requires history initial o w.tables.known) :
    Step history initial w o (answer history ch w o).1 (answer history ch w o).2 := by
  cases o with
  | getCheckpoint worker contractId => exact ⟨h, subset_rfl, fun stored hsub => (h.memory worker contractId).mono hsub⟩
  | loadAll contractIds => exact ⟨h, subset_rfl, fun stored hsub c hc => (h.exact.told_loaded hc).mono hsub⟩
  | setCheckpoint worker entry => exact ⟨h.remember ((h.memory worker).setCheckpoint ha), subset_rfl, fun _ _ => trivial⟩
  | setLoaded worker entries => exact ⟨h.remember ((h.memory worker).setLoaded ha), subset_rfl, fun _ _ => trivial⟩
  | setState worker contractId state =>
    exact ⟨h.remember (m := (w.memory worker).setState contractId state) (h.memory worker), subset_rfl, fun _ _ => trivial⟩
  | commitBatch input => exact h.commit ha
  | _ => exact ⟨h, subset_rfl, fun _ _ => trivial⟩

end Ingested

theorem teaches_other (o : Op) (message : String) (stored : Set LedgerEvent) :
    Teaches history initial o (.error (.other message)) stored := by
  cases o <;> trivial

theorem Ingested.perform (h : Ingested history initial w) {o : Op} (ch : Choice)
    (ha : Requires history initial o w.tables.known) :
    Step history initial w o (perform history o ch w).1 (perform history o ch w).2 := by
  have hdone := h.answer ch ha
  unfold Ingestion.perform
  split
  · exact hdone
  · split
    · exact ⟨h, subset_rfl, fun stored _ => teaches_other o _ stored⟩
    · exact hdone
  · split
    · exact ⟨hdone.ingested, hdone.grows, fun stored _ => teaches_other o _ stored⟩
    · exact hdone

theorem expects_perform (history : History) (o : Op) (ch : Choice) (w : World) :
    Expects history o (perform history o ch w).1 := by
  have hother : ∀ message, Expects history o (.error (.other message)) := by
    intro message
    cases o <;> trivial
  have hdone : Expects history o (answer history ch w o).1 := by
    cases o with
    | getEventsWindow params => exact ⟨ch.bound, ch.cursor, rfl⟩
    | _ => trivial
  unfold perform
  split
  · exact hdone
  · split
    · exact hother _
    · exact hdone
  · split
    · exact hother _
    · exact hdone

abbrev IngestPool : Type := Pool ingestSignature World

theorem inductive_ingested (hini : config.initialLedger = some initial) :
    Inductive (system config history) (committing history initial) (fun _ => True) (fun _ _ => True)
      fun w _ known => KnownAll (fun w => w.tables.known) (Ingested history initial) w known := by
  refine inductive_knowing (fun w => w.tables.known) (Ingested history initial) ?_ ?_ ?_ ?_
  · exact follows_body hini
  · rintro c w w' h ⟨⟩
    exact ⟨h, le_rfl⟩
  · rintro p e
    exact e.elim
  · rintro p i o ch - - h ha
    have hstep := h.perform ch ha
    exact ⟨expects_perform history o ch p.world, hstep.ingested, hstep.grows, hstep.teaches⟩

def Beyond (contractId : String) (W : Int) (t : Tables) : Prop := ∃ W', t.watermark contractId = some W' ∧ W ≤ W'

theorem beyond_commit {t : Tables} (h : Exact history initial t) {contractId : String} {W : Int}
    (hbeyond : Beyond contractId W t) (input : CommitBatchInput) :
    Beyond contractId W (commitBatch t input).2 := by
  rcases commitBatch_cases t input with ⟨e, hcommit, -⟩ | ⟨hcommit, hsame, hle⟩
  · rw [hcommit]
    exact hbeyond
  · rw [hcommit]
    obtain ⟨W', hW', hWW'⟩ := hbeyond
    obtain ⟨row, hrow, rfl⟩ := Option.map_eq_some_iff.mp hW'
    unfold Beyond Tables.watermark
    show ∃ W', (lookup CheckpointRow.contractId (put CheckpointRow.contractId t.rows _) contractId).map _ = some W' ∧ _
    rw [lookup_put]
    split
    · rename_i hcontr
      obtain rfl : contractId = input.contractId := hcontr
      exact ⟨_, rfl, hWW'.trans (h.row_le hrow (hsame ▸ hle))⟩
    · exact ⟨_, by rw [hrow]; rfl, hWW'⟩

theorem beyond_step (h : Exact history initial w.tables) {contractId : String} {W : Int}
    (hbeyond : Beyond contractId W w.tables) (o : Op) (ch : Choice) :
    Beyond contractId W (perform history o ch w).2.tables := by
  have hdone : Beyond contractId W (answer history ch w o).2.tables := by
    cases o with
    | commitBatch input => exact beyond_commit h hbeyond input
    | _ => exact hbeyond
  unfold perform
  split
  · exact hdone
  · split
    · exact hbeyond
    · exact hdone
  · split <;> exact hdone

theorem inductive_beyond (hini : config.initialLedger = some initial) (contractId : String) (W : Int) :
    Inductive (system config history) (committing history initial) (fun _ => True) (fun _ _ => True)
      fun w _ known => KnownAll (fun w => w.tables.known) (Ingested history initial) w known ∧
        Beyond contractId W w.tables :=
  (inductive_ingested hini).and (fun _ _ _ => trivial) (fun p φ c w _ _ h hw => by cases hw; exact h)
    (fun p φ e _ _ h => e.elim)
    (fun p φ i o ch φ' _ _ ht h _ _ => beyond_step ht.holds.holds.exact h o ch)

/-- In every run what is stored, and what processors were handed, are the events of a contract up to its watermark,
each once and in order; and that never goes back. -/
theorem ingested_exactly (hini : config.initialLedger = some initial) {p q : IngestPool}
    (hp : Run (system config history) (fun _ _ => True) (Pool.start .start) p)
    (hq : Run (system config history) (fun _ _ => True) p q) {contractId : String} {W : Int}
    (hW : p.world.tables.watermark contractId = some W) :
    p.world.tables.eventsOf contractId = history.between contractId initial W ∧
      p.world.tables.handedOf contractId = history.between contractId initial W ∧
      ((p.world.tables.handedOf contractId).Pairwise fun a b => compareLedgerEvents a b < 0) ∧
      ∃ W', q.world.tables.watermark contractId = some W' ∧ W ≤ W' := by
  obtain ⟨φ, ht⟩ := (inductive_ingested hini).run hp ⟨_, Tracked.start (knownAll_start ingested_start)⟩
  have hexact := ht.holds.holds.exact
  have hhanded : p.world.tables.handedOf contractId = history.between contractId initial W := by
    obtain ⟨row, hrow, rfl⟩ := Option.map_eq_some_iff.mp hW
    have hreach := hexact.reached contractId
    rw [hrow] at hreach
    exact hreach.2.2
  obtain ⟨φ', ht'⟩ := (inductive_beyond hini contractId W).run hq ⟨φ, ht.mono fun h => ⟨h, W, hW, Int.le_refl W⟩⟩
  refine ⟨?_, hhanded, ?_, ht'.holds.2⟩
  · rw [Tables.eventsOf, hexact.events]
    exact hhanded
  · rw [hhanded]
    exact List.Pairwise.sublist (filter_sublist.trans filter_sublist) (history.eventsOf_ordered contractId)

end

def event (ledger : Int) (id : String) : RpcContractEvent :=
  ⟨ledger, "2026-01-01T00:00:00Z", "escrow", id, none, none, none, "tx"⟩

def history : History where
  events := [event 5 "5-0", event 5 "5-1", event 6 "6-0"]
  cursor := RpcContractEvent.id
  ids := by decide
  ordered := by decide
  cursors := by decide
  cursor_ne := by decide

def config : Config := ⟨["escrow"], some 5, 1000, 2, by decide, by decide⟩

def done (latestLedger : Int) : Choice := ⟨.done, ⟨1, latestLedger⟩, 0, none, false⟩

def syncs (runner : Nat) (latestLedger : Int) (steps : Nat) : List (Action (system config history)) :=
  .call (.syncOnce 0 5) :: replicate steps (.step runner (done latestLedger))

def storedIds (t : Tables) : List String := (t.eventsOf "escrow").map LedgerEvent.eventId

/-- The first two events are carried into the second page, and all three are committed; a later sync finds no more. -/
theorem ingested_exactly_carried : ∃ p q : IngestPool, Run (system config history) (fun _ _ => True) (Pool.start .start) p ∧
      Run (system config history) (fun _ _ => True) p q ∧ storedIds p.world.tables = ["5-0", "5-1", "6-0"] ∧
      p.world.tables.handedOf "escrow" = history.between "escrow" 5 7 ∧
      ∃ W', q.world.tables.watermark "escrow" = some W' ∧ 7 ≤ W' := by
  obtain ⟨p, q, hp, hq, htest⟩ := Run.exists_then_of_any (Pool.start .start) (fun _ _ => true) (syncs 0 7 20) (syncs 1 9 12)
    (fun p _ => decide (p.world.tables.watermark "escrow" = some 7) &&
      decide (storedIds p.world.tables = ["5-0", "5-1", "6-0"])) (by decide)
  obtain ⟨hwatermark, hstore⟩ := Bool.and_eq_true_iff.mp htest
  have hp' := hp.mono fun _ _ _ => trivial
  have hq' := hq.mono fun _ _ _ => trivial
  obtain ⟨-, hhanded, -, hlater⟩ := ingested_exactly rfl hp' hq' (of_decide_eq_true hwatermark)
  exact ⟨p, q, hp', hq', of_decide_eq_true hstore, hhanded, hlater⟩

end Delego.Ingestion
