import Delego.Polling.Appending

/-! What the polling worker skips.

A page that is full may leave out events below the tip of the chain, and yet the checkpoint is set to the tip
(`skipped_events`). -/
namespace Delego.Polling
open Delego.Data Delego.Process List

def World.known (w : World) : Set (List (String × String)) := {fields | fields ∈ w.stream}

abbrev PollPool : Type := Pool pollSignature World

def History.leftOut (history : History) (params : GetEventsParams) (ch : Choice) (tip : Int) : List RawSorobanEvent :=
  (history.asked params.contractId (params.start ch.fromLedger)).filter fun raw =>
    decide (raw.id ∉ (history.answer params ch.fromLedger ch.hasCursor tip).events.map RawSorobanEvent.id)

def leavesNothing (history : History) (p : PollPool) (_ : Nat) (o : Op) (ch : Choice) : Bool :=
  match o with
  | .getEvents params => decide (ch.fate ≠ .done) || (history.leftOut params ch p.world.tip).all fun raw =>
      decide (p.world.tip ≤ raw.ledger) || decide (fieldsOf raw ∈ p.world.stream)
  | _ => true

section
variable {config : SorobanRpcConfig} {history : History} {first : String → Option Int} {w : World}

/-- Checkpoints and cursors stand where everything before them is on the stream. -/
structure Polled (history : History) (first : String → Option Int) (w : World) : Prop where
  checkpoints : ∀ c ∈ w.checkpoints, Appended history first w.known c.contractId (.ledger c.lastLedgerSequence)
  cursors : ∀ c ∈ w.cursors, CursorTold history first w.known c
  processed : Published history w.known w.processed

/-- Contracts have their first checkpoints, and nothing was read yet. -/
structure Seeded (w : World) : Prop where
  keyed : Keyed EventSyncCheckpoint.contractId w.checkpoints
  cursors : w.cursors = []
  processed : w.processed = []

/-- The ledger of a contract's first checkpoint. -/
def World.firstLedger (w : World) (contractId : String) : Option Int :=
  (w.checkpoint contractId).map EventSyncCheckpoint.lastLedgerSequence

theorem polled_start (h : Seeded w) : Polled history w.firstLedger w where
  checkpoints := by
    rintro c hc raw hraw hfirst hnot
    have hledg : w.firstLedger c.contractId = some c.lastLedgerSequence := by
      rw [World.firstLedger, World.checkpoint, h.keyed.found hc]
      rfl
    exact absurd (mem_onward.mpr ⟨hraw, hfirst _ hledg⟩) hnot
  cursors := fun c hc => by
    simp [h.cursors] at hc
  processed := fun raw _ hid => by
    simp [h.processed] at hid

theorem answers_answer {params : GetEventsParams} {ch : Choice} (hdone : ch.fate = .done) {p : PollPool} {i : Nat}
    (hw : p.world = w) (hleaves : leavesNothing history p i (.getEvents params) ch = true) :
    Answers history w.known params (params.start ch.fromLedger)
      (history.answer params ch.fromLedger ch.hasCursor w.tip) where
  begins := ( take_prefix _ _).trans
    ⟨_, upTo_append_onward (history.asked_ascending params.contractId (params.start ch.fromLedger)) w.tip⟩
  complete := by
    rintro raw hraw hledg
    subst hw
    simp only [leavesNothing, hdone, ne_eq, not_true_eq_false, decide_false, Bool.false_or, all_eq_true] at hleaves
    by_cases hid : raw.id ∈ (history.answer params ch.fromLedger ch.hasCursor p.world.tip).events.map RawSorobanEvent.id
    · obtain ⟨raw', hraw', heq⟩ := mem_map.mp hid
      have hsub := (history.asked_sublist params.contractId (params.start ch.fromLedger)).subset
      have hasked : raw' ∈ history.asked params.contractId (params.start ch.fromLedger) :=
        mem_of_mem_filter (mem_of_mem_take hraw')
      obtain rfl : raw' = raw := inj_on_of_nodup_map history.ids (hsub hasked) (hsub hraw) heq
      exact .inl hraw'
    · rcases Bool.or_eq_true_iff.mp (hleaves raw (mem_filter.mpr ⟨hraw, decide_eq_true hid⟩)) with hbeyond | hstream
      · exact absurd hledg (not_lt.mpr (of_decide_eq_true hbeyond))
      · have hmem : fieldsOf raw ∈ p.world.stream := of_decide_eq_true hstream
        exact .inr hmem
  cursor := by
    unfold History.answer
    dsimp only
    split
    · cases (pageOf RawSorobanEvent.ledger (history.asked params.contractId (params.start ch.fromLedger)) w.tip
        params.limit).getLast? with
      | none => exact .inl rfl
      | some lastEvent => exact .inr rfl
    · exact .inl rfl

namespace Polled
variable (h : Polled history first w)
include h

variable {stream : Set (List (String × String))}

theorem cursor {contractId : String} {c : ContractEventCursor} (hc : w.cursor contractId = some c)
    (hsub : w.known ⊆ stream) :
    c.contractId = contractId ∧ CursorTold history first stream c :=
  ⟨lookup_key hc, (h.cursors c (lookup_mem hc)).mono hsub⟩

theorem checkpoint {contractId : String} {c : EventSyncCheckpoint} (hc : w.checkpoint contractId = some c)
    (hsub : w.known ⊆ stream) :
    Appended history first stream contractId (.ledger c.lastLedgerSequence) := by
  obtain rfl := lookup_key hc
  exact (h.checkpoints c (lookup_mem hc)).mono hsub

theorem appends (fields : List (String × String)) : Polled history first { w with stream := w.stream ++ [fields] } where
  checkpoints := fun c hc => (h.checkpoints c hc).mono (subset_append_left _ _)
  cursors := fun c hc => (h.cursors c hc).mono (subset_append_left _ _)
  processed := h.processed.mono (subset_append_left _ _)

theorem kept {o : Op} (ch : Choice) (ha : Requires history first o w.known) :
    Polled history first (answer history ch w o).2 ∧ w.known ⊆ (answer history ch w o).2.known := by
  cases o with
  | xadd fields => exact ⟨h.appends fields, subset_append_left _ _⟩
  | setCheckpoint checkpoint =>
    refine ⟨{ h with checkpoints := fun c hc => ?_ }, subset_rfl⟩
    rcases mem_put hc with rfl | hc
    · exact ha
    · exact h.checkpoints c hc
  | saveCursor cursor =>
    refine ⟨{ h with cursors := fun c hc => ?_ }, subset_rfl⟩
    rcases mem_put hc with rfl | hc
    · exact ha
    · exact h.cursors c hc
  | markPublishedMany eventIds =>
    refine ⟨{ h with processed := fun raw hraw hid => ?_ }, subset_rfl⟩
    exact (mem_insertNew hid).elim (h.processed raw hraw) (ha raw hraw)
  | _ => exact ⟨h, subset_rfl⟩

theorem teaches {o : Op} {ch : Choice} (hdone : ch.fate = .done) {p : PollPool} {i : Nat} (hw : p.world = w)
    (hleaves : leavesNothing history p i o ch = true) (hsub : (answer history ch w o).2.known ⊆ stream) :
    Teaches history first o (.ok (answer history ch w o).1) stream := by
  cases o with
  | getCheckpoint contractId => exact fun c hc => h.checkpoint hc hsub
  | loadCursor contractId => exact fun c hc => h.cursor hc hsub
  | getEvents params => exact ⟨ch.fromLedger, (answers_answer hdone hw hleaves).mono hsub⟩
  | hasMany eventIds => exact fun raw hraw hid => hsub (h.processed raw hraw (of_decide_eq_true (mem_filter.mp hid).2))
  | xadd fields => exact hsub (mem_append_right _ mem_cons_self)
  | _ => trivial

theorem drift (e : Event) : Polled history first (drift e w) ∧ w.known ⊆ (Polling.drift e w).known := by
  cases e with
  | ledgersClose count => exact ⟨⟨h.checkpoints, h.cursors, h.processed⟩, subset_rfl⟩
  | cursorExpires contractId =>
    exact ⟨⟨h.checkpoints, fun c hc => h.cursors c (mem_of_mem_filter hc), h.processed⟩, subset_rfl⟩

end Polled

theorem polled_perform (h : Polled history first w) {o : Op} {ch : Choice} {p : PollPool} {i : Nat} (hw : p.world = w)
    (hleaves : leavesNothing history p i o ch = true) (ha : Requires history first o w.known) :
    Polled history first (perform history o ch w).2 ∧ w.known ⊆ (perform history o ch w).2.known ∧
      ∀ stream, (perform history o ch w).2.known ⊆ stream →
        Teaches history first o (perform history o ch w).1 stream := by
  have hfail : ∀ message stream, Teaches history first o (.error message) stream := by
    rintro message stream
    cases o <;> trivial
  obtain ⟨hkept, hgrows⟩ := h.kept ch ha
  unfold perform
  cases hfate : ch.fate with
  | done => exact ⟨hkept, hgrows, fun stream hsub => h.teaches hfate hw hleaves hsub⟩
  | refused message => exact ⟨h, subset_rfl, fun stream _ => hfail message stream⟩
  | lost message => exact ⟨hkept, hgrows, fun stream _ => hfail message stream⟩

theorem inductive_polled (config : SorobanRpcConfig) (history : History) (first : String → Option Int) :
    Inductive (system config history) (polling history first) (fun _ => True)
      (fun p a => onStep (leavesNothing history) p a = true)
      fun w _ known => KnownAll World.known (Polled history first) w known := by
  refine inductive_knowing World.known (Polled history first) ?_ ?_ ?_ ?_
  · exact fun c => follows_body c
  · rintro c w w' h ⟨⟩
    exact ⟨h, le_rfl⟩
  · rintro p e - h
    exact h.drift e
  · rintro p i o ch hg hp h ha
    exact ⟨trivial, polled_perform h rfl (onStep_pending hg hp) ha⟩

/-- In every run whose answers leave out nothing below the tip that is not on the stream, all events of a contract
from its first checkpoint to the present one are on the stream. -/
theorem skips_nothing {w : World} (hseeded : Seeded w) {q : PollPool}
    (h : Run (system config history) (fun p a => onStep (leavesNothing history) p a = true) (Pool.start w) q)
    {contractId : String} {checkpoint : EventSyncCheckpoint} (hchkp : q.world.checkpoint contractId = some checkpoint)
    {raw : RawSorobanEvent} (hraw : raw ∈ history.of contractId)
    (hfirst : ∀ ledger, w.firstLedger contractId = some ledger → ledger ≤ raw.ledger)
    (hbelow : raw.ledger < checkpoint.lastLedgerSequence) : fieldsOf raw ∈ q.world.stream := by
  obtain ⟨known, ht⟩ := (inductive_polled config history w.firstLedger).run h
    ⟨_, Tracked.start (knownAll_start (polled_start hseeded))⟩
  refine ht.holds.holds.checkpoint hchkp subset_rfl raw hraw hfirst fun hasked => ?_
  have := (mem_onward.mp hasked).2
  omega

end

def event (ledger : Int) (id : String) : RawSorobanEvent :=
  ⟨ledger, "2026-01-01T00:00:00Z", "escrow", id, id, ["release"], none, "tx"⟩

def history : History where
  events := [event 5 "5-0", event 6 "6-0"]
  ids := by decide
  tokens := by decide
  ascending := by
    unfold Ascending
    decide

def seeded : World := ⟨10, [⟨"escrow", 5, ""⟩], [], [], []⟩

abbrev onePage (pageSize : Nat) : System pollSignature World := system ⟨some pageSize⟩ history

def backfills (pageSize runner steps : Nat) : List (Action (onePage pageSize)) :=
  .call (.backfillContract "escrow" 5) :: replicate steps (.step runner ⟨.done, false, true⟩)

def isOnStream (p : PollPool) (raw : RawSorobanEvent) : Bool := decide (fieldsOf raw ∈ p.world.stream)

def checkpointLedger (p : PollPool) : Option Int := (p.world.checkpoint "escrow").map EventSyncCheckpoint.lastLedgerSequence

/-- A page that holds both events: the checkpoint is at the tip, and the second event is on the stream. -/
theorem skips_nothing_backfilled : ∃ q : PollPool,
    Run (onePage 2) (fun p a => onStep (leavesNothing history) p a = true) (Pool.start seeded) q ∧
      checkpointLedger q = some 10 ∧ fieldsOf (event 6 "6-0") ∈ q.world.stream := by
  obtain ⟨q, hrun, htest⟩ := Run.exists_of_any (Pool.start seeded) (onStep (leavesNothing history)) (backfills 2 0 9)
    (fun q => decide (checkpointLedger q = some 10)) (by decide)
  have hledg := of_decide_eq_true htest
  obtain ⟨checkpoint, hchkp, hten⟩ := Option.map_eq_some_iff.mp hledg
  have hseeded : Seeded seeded := ⟨by decide, rfl, rfl⟩
  have hmem : event 6 "6-0" ∈ history.of "escrow" := mem_cons_of_mem _ mem_cons_self
  refine ⟨q, hrun, hledg, skips_nothing hseeded hrun hchkp hmem ?_ ?_⟩
  · rintro ledger ⟨⟩
    decide
  · rw [hten]
    decide

/-- Pages of one event: the worker crashes once the first is published and the checkpoint set to the tip, from which
its successor reads on. -/
theorem skipped_events : ∃ q : PollPool, Run (onePage 1) (fun _ _ => True) (Pool.start seeded) q ∧
    event 6 "6-0" ∈ history.of "escrow" ∧ seeded.firstLedger "escrow" = some 5 ∧ checkpointLedger q = some 10 ∧
      fieldsOf (event 6 "6-0") ∉ q.world.stream ∧ (q.runners[1]?).any Program.done = true := by
  obtain ⟨q, hrun, htest⟩ := Run.exists_of_any (Pool.start seeded) (fun _ _ => true) (backfills 1 0 8 ++ backfills 1 1 4)
    (fun q => (decide (checkpointLedger q = some 10) && !isOnStream q (event 6 "6-0")) && (q.runners[1]?).any Program.done)
    (by decide)
  obtain ⟨htest, hdone⟩ := Bool.and_eq_true_iff.mp htest
  obtain ⟨hledg, hmissing⟩ := Bool.and_eq_true_iff.mp htest
  refine ⟨q, hrun.mono fun _ _ _ => trivial, mem_cons_of_mem _ mem_cons_self, rfl, of_decide_eq_true hledg, ?_,
    hdone⟩
  simpa only [isOnStream, Bool.not_eq_true', decide_eq_false_iff_not] using hmissing

end Delego.Polling
