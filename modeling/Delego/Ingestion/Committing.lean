import Mathlib.Data.Set.Lattice
import Mathlib.Order.CompletePartialOrder
import Delego.Ingestion.Worker
import Delego.Process.Stepping

/-! What a worker makes of a page.

Of a contract's events from some ledger on, a worker holds those it carries, and the pages to come have the rest
(`Reading`). A page that exhausts the window leaves nothing of the window unread (`read_exhausted`); one that does not is
complete up to its last ledger, and what follows it is what the next page is asked for (`read_full`). -/
namespace Delego.Ingestion
open Delego.Data

theorem ledger_le_of_compare {a b : LedgerEvent} (h : compareLedgerEvents a b < 0) : a.ledger ≤ b.ledger := by
  unfold compareLedgerEvents at h
  split at h
  · omega
  · rename_i hne
    exact le_of_eq (not_not.mp hne)

section
variable {history : History} {contractId : String} {f m e : Int}

theorem History.mem_of {raw : RpcContractEvent} :
    raw ∈ history.of contractId ↔ raw ∈ history.events ∧ raw.contractId = contractId := by
  simp only [History.of, List.mem_filter, decide_eq_true_eq]

variable {event : LedgerEvent}

theorem History.mem_eventsOf :
    event ∈ history.eventsOf contractId ↔ event ∈ history.events.map toLedgerEvent ∧ event.contractId = contractId := by
  constructor
  · rintro h
    obtain ⟨raw, hraw, rfl⟩ := List.mem_map.mp h
    obtain ⟨hmem, hcontr⟩ := History.mem_of.mp hraw
    exact ⟨List.mem_map_of_mem hmem, hcontr⟩
  · rintro ⟨h, hcontr⟩
    obtain ⟨raw, hraw, rfl⟩ := List.mem_map.mp h
    exact List.mem_map_of_mem (History.mem_of.mpr ⟨hraw, hcontr⟩)

theorem History.eventsOf_sublist : (history.eventsOf contractId).Sublist (history.events.map toLedgerEvent) :=
  List.Sublist.map toLedgerEvent List.filter_sublist

theorem History.eventsOf_ordered (history : History) (contractId : String) :
    (history.eventsOf contractId).Pairwise fun a b => compareLedgerEvents a b < 0 :=
  List.Pairwise.sublist History.eventsOf_sublist history.ordered

theorem History.eventsOf_ascending (history : History) (contractId : String) :
    Ascending LedgerEvent.ledger (history.eventsOf contractId) :=
  (history.eventsOf_ordered contractId).imp ledger_le_of_compare

theorem History.keyed (history : History) : Keyed LedgerEvent.eventId (history.events.map toLedgerEvent) := by
  rw [Keyed, List.map_map]
  exact history.ids

theorem History.eventsOf_keyed (history : History) (contractId : String) :
    Keyed LedgerEvent.eventId (history.eventsOf contractId) :=
  history.keyed.sublist (History.eventsOf_sublist.map LedgerEvent.eventId)

theorem History.of_ascending (history : History) (contractId : String) :
    Ascending RpcContractEvent.ledger (history.of contractId) :=
  (List.pairwise_map (f := toLedgerEvent)).mp (history.eventsOf_ascending contractId)

theorem History.mem_between :
    event ∈ history.between contractId f e ↔ event ∈ history.eventsOf contractId ∧ f ≤ event.ledger ∧ event.ledger ≤ e :=
  Data.mem_between

theorem History.between_append (hfm : f ≤ m + 1) (hme : m ≤ e) :
    history.between contractId f m ++ history.between contractId (m + 1) e = history.between contractId f e :=
  Data.between_append (history.eventsOf_ascending contractId) hfm hme

end

theorem merge_append {a b : List LedgerEvent} (h : ∀ x ∈ a, ∀ y ∈ b, comesBefore x y) : merge a b = a ++ b := by
  induction a with
  | nil => rfl
  | cons x a ih =>
    have hrest := ih fun x' hx' => h x' (List.mem_cons_of_mem x hx')
    cases b with
    | nil =>
      show x :: merge a [] = _
      rw [hrest, List.cons_append]
    | cons y b =>
      have hle := h x List.mem_cons_self y List.mem_cons_self
      show (if comesBefore x y then x :: merge a (y :: b) else _) = _
      rw [if_pos hle, hrest, List.cons_append]

theorem mergeOrdered_append {carry events : List LedgerEvent}
    (hordered : (carry ++ events).Pairwise fun a b => compareLedgerEvents a b < 0)
    (hkeyed : Keyed LedgerEvent.eventId (carry ++ events)) : mergeOrdered carry events = carry ++ events := by
  have hmerge : merge carry events = carry ++ events :=
    merge_append fun a ha b hb => le_of_lt ((List.pairwise_append.mp hordered).2.2 a ha b hb)
  rw [mergeOrdered, hmerge, insertNew_of_keyed hkeyed, List.nil_append]
  exact List.filter_eq_self.mpr fun event _ => by simp

theorem sort_ordered {events : List LedgerEvent} (h : events.Pairwise fun a b => compareLedgerEvents a b < 0) :
    events.insertionSort comesBefore = events :=
  List.Pairwise.insertionSort_eq (h.imp fun hlt => le_of_lt hlt)

/-! ### Pages -/

def History.Answers (history : History) (params : GetEventsWindowParams) (page : GetEventsWindowResult) : Prop :=
  ∃ bound cursor, page = history.page params bound cursor

section
variable {config : Config} {history : History} {contractId : String} {startLedger endLedger f : Int}
  {cursor : Option String} {carry : List LedgerEvent} {page : GetEventsWindowResult}

def request (config : Config) (contractId : String) (startLedger endLedger : Int) (cursor : Option String) :
    GetEventsWindowParams := ⟨contractId, startLedger, endLedger, cursor, config.pageSize⟩

/-- The events from ledger `f` on are those that are carried and those still to be asked for. -/
structure Reading (config : Config) (history : History) (contractId : String) (startLedger endLedger f : Int)
    (cursor : Option String) (carry : List LedgerEvent) : Prop where
  split : onward LedgerEvent.ledger (history.eventsOf contractId) f =
    carry ++ (history.asked (request config contractId startLedger endLedger cursor)).map toLedgerEvent
  begins : startLedger ≤ f
  within : f ≤ endLedger + 1
  carried : ∀ event ∈ carry, event.ledger ≤ endLedger
  /-- The cursor is the one of an event that was read. -/
  place : ∃ seen, history.of contractId = seen ++ history.asked (request config contractId startLedger endLedger cursor) ∧
    ∀ k, cursor = some k → ∃ raw ∈ seen, history.cursor raw = k

theorem reading_start (config : Config) (history : History) (contractId : String) (h : startLedger ≤ endLedger + 1) :
    Reading config history contractId startLedger endLedger startLedger none [] where
  split := by
    rw [List.nil_append]
    exact List.filter_map
  begins := Int.le_refl _
  within := h
  carried := fun _ h => nomatch h
  place := by
    have hsplit := upTo_append_onward (history.of_ascending contractId) (startLedger - 1)
    rw [sub_add_cancel] at hsplit
    exact ⟨_, hsplit.symm, fun _ h => nomatch h⟩

theorem Reading.answered (h : Reading config history contractId startLedger endLedger f cursor carry)
    (hpage : history.Answers (request config contractId startLedger endLedger cursor) page) :
    ∃ rest, page.events ++ rest = history.asked (request config contractId startLedger endLedger cursor) ∧
      (page.events.length < config.pageSize → ∀ raw ∈ rest, endLedger < raw.ledger) ∧
      (config.pageSize ≤ page.events.length → page.cursor = page.events.getLast?.map history.cursor) := by
  obtain ⟨bound, cursor', rfl⟩ := hpage
  obtain ⟨seen, hplace, -⟩ := h.place
  have hascending : Ascending RpcContractEvent.ledger
      (history.asked (request config contractId startLedger endLedger cursor)) := by
    refine (history.of_ascending contractId).sublist ?_
    rw [hplace]
    exact List.sublist_append_right ..
  obtain ⟨rest, hrest, hshort⟩ := pageOf_append hascending (max bound endLedger) config.pageSize
  refine ⟨rest, hrest, fun hlt raw hraw => ?_, fun hfull => if_pos ?_⟩
  · exact lt_of_le_of_lt (le_max_right bound endLedger) (hshort hlt raw hraw)
  · exact Nat.le_antisymm (List.length_take_le ..) hfull

section
variable {rest : List RpcContractEvent} (h : Reading config history contractId startLedger endLedger f cursor carry)
  (hrest : page.events ++ rest = history.asked (request config contractId startLedger endLedger cursor))
include h hrest

theorem Reading.parts : onward LedgerEvent.ledger (history.eventsOf contractId) f =
    carry ++ (page.events.map toLedgerEvent ++ rest.map toLedgerEvent) := by
  rw [h.split, ← hrest, List.map_append]

theorem Reading.belongs (hevent : event ∈ page.events.map toLedgerEvent) :
    event ∈ history.eventsOf contractId ∧ f ≤ event.ledger := by
  refine mem_onward.mp ?_
  rw [h.parts hrest]
  exact List.mem_append_right _ (List.mem_append_left _ hevent)

theorem Reading.pageEvents : ((page.events.map toLedgerEvent).filter fun e =>
    decide (e.contractId = contractId ∧ startLedger ≤ e.ledger)) = page.events.map toLedgerEvent := by
  refine List.filter_eq_self.mpr fun event hevent => decide_eq_true ?_
  obtain ⟨hmem, hf⟩ := h.belongs hrest hevent
  exact ⟨(History.mem_eventsOf.mp hmem).2, h.begins.trans hf⟩

theorem Reading.pending : (readPage config contractId startLedger endLedger cursor carry page).pending =
    carry ++ upTo LedgerEvent.ledger (page.events.map toLedgerEvent) endLedger := by
  have hsub : (carry ++ upTo LedgerEvent.ledger (page.events.map toLedgerEvent) endLedger).Sublist
      (history.eventsOf contractId) := by
    refine List.Sublist.trans ?_ (List.filter_sublist (p := fun event : LedgerEvent => decide (f ≤ event.ledger)))
    have hparts := h.parts hrest
    rw [onward] at hparts
    rw [hparts]
    exact List.Sublist.append (List.Sublist.refl carry) (List.filter_sublist.trans (List.sublist_append_left _ _))
  have hordered := List.Pairwise.sublist hsub (history.eventsOf_ordered contractId)
  have hkeyed : Keyed LedgerEvent.eventId _ := (history.eventsOf_keyed contractId).sublist (hsub.map LedgerEvent.eventId)
  have hsort := sort_ordered (List.Pairwise.sublist (List.sublist_append_right carry _) hordered)
  simp only [readPage]
  rw [h.pageEvents hrest]
  exact (congrArg (mergeOrdered carry) hsort).trans (mergeOrdered_append hordered hkeyed)

theorem Reading.follows {event after : LedgerEvent} (hevent : event ∈ page.events.map toLedgerEvent)
    (hafter : after ∈ rest.map toLedgerEvent) : event.ledger ≤ after.ledger := by
  have hascending := (history.eventsOf_ascending contractId).onward f
  rw [h.parts hrest] at hascending
  exact (hascending.sublist (List.sublist_append_right carry _)).le_of_append hevent hafter

end

theorem History.cursors_disjoint {seen unseen : List RpcContractEvent} (hplace : history.of contractId = seen ++ unseen)
    {raw raw' : RpcContractEvent} (hraw : raw ∈ seen) (hraw' : raw' ∈ unseen) : history.cursor raw ≠ history.cursor raw' := by
  have hnodup : ((history.of contractId).map history.cursor).Nodup :=
    history.cursors.sublist (List.filter_sublist.map history.cursor)
  rw [hplace, List.map_append] at hnodup
  exact fun heq => (List.nodup_append.mp hnodup).2.2 _ (List.mem_map_of_mem hraw) _ (List.mem_map_of_mem hraw') heq

theorem Reading.last
    (hcursor : config.pageSize ≤ page.events.length → page.cursor = page.events.getLast?.map history.cursor)
    (hfull : config.pageSize ≤ page.events.length) :
    ∃ init raw, page.events = init ++ [raw] ∧ page.cursor = some (history.cursor raw) := by
  rcases List.eq_nil_or_concat page.events with hnil | ⟨init, raw, hpage⟩
  · have := config.pageSize_pos
    rw [hnil, List.length_nil] at hfull
    omega
  · rw [List.concat_eq_append] at hpage
    refine ⟨init, raw, hpage, ?_⟩
    rw [hcursor hfull, hpage, List.getLast?_concat]
    rfl

theorem Reading.exhausted (h : Reading config history contractId startLedger endLedger f cursor carry)
    (hpage : history.Answers (request config contractId startLedger endLedger cursor) page)
    (hexhausted : (readPage config contractId startLedger endLedger cursor carry page).windowExhausted = true) :
    (readPage config contractId startLedger endLedger cursor carry page).pending =
      history.between contractId f endLedger := by
  obtain ⟨rest, hrest, hshort, hcursor⟩ := h.answered hpage
  rw [h.pending hrest]
  refine between_of_read (h.parts hrest) h.carried fun event hevent => ?_
  obtain ⟨raw, hraw, rfl⟩ := List.mem_map.mp hevent
  by_cases hfull : page.events.length < config.pageSize
  · exact hshort hfull raw hraw
  obtain ⟨init, last, hinit, hlast⟩ := Reading.last hcursor (Nat.le_of_not_lt hfull)
  obtain ⟨seen, hplace, hseen⟩ := h.place
  have hasked : last ∈ history.asked (request config contractId startLedger endLedger cursor) := by
    rw [← hrest, hinit]
    exact List.mem_append_left _ (List.mem_append_right _ List.mem_cons_self)
  have hof : last ∈ history.of contractId := by
    rw [hplace]
    exact List.mem_append_right _ hasked
  simp only [readPage, h.pageEvents hrest, Bool.or_eq_true, decide_eq_true_eq] at hexhausted
  obtain ((hlt | hnone) | hsame) | hbeyond := hexhausted
  · exact absurd hlt hfull
  · rw [hlast, Option.all_some, decide_eq_true_eq] at hnone
    exact absurd hnone (history.cursor_ne last (History.mem_of.mp hof).1)
  · obtain ⟨raw', hraw', heq⟩ := hseen _ (hsame.symm.trans hlast)
    exact absurd heq (History.cursors_disjoint hplace hraw' hasked)
  · obtain ⟨event, hevent', hlt⟩ := List.any_eq_true.mp hbeyond
    exact lt_of_lt_of_le (of_decide_eq_true hlt) (h.follows hrest hevent' (List.mem_map_of_mem hraw))

/-- A page that does not: what is pending is complete before its last ledger, and reading goes on from there. -/
theorem Reading.full (h : Reading config history contractId startLedger endLedger f cursor carry)
    (hpage : history.Answers (request config contractId startLedger endLedger cursor) page)
    {read : PageRead} (hread : readPage config contractId startLedger endLedger cursor carry page = read)
    (hexhausted : read.windowExhausted = false) :
    f ≤ lastLedger startLedger read.pending ∧
      (read.pending.filter fun e => decide (e.ledger < lastLedger startLedger read.pending)) =
        history.between contractId f (lastLedger startLedger read.pending - 1) ∧
      Reading config history contractId startLedger endLedger (lastLedger startLedger read.pending) page.cursor
        (read.pending.filter fun e => decide (lastLedger startLedger read.pending ≤ e.ledger)) := by
  obtain ⟨rest, hrest, -, hcursor⟩ := h.answered hpage
  obtain ⟨seen, hplace, -⟩ := h.place
  subst hread
  have hpend := h.pending hrest
  simp only [readPage, h.pageEvents hrest, Bool.or_eq_false_iff, decide_eq_false_iff_not, List.any_eq_false,
    decide_eq_true_eq] at hexhausted
  obtain ⟨⟨⟨hfull, -⟩, -⟩, hinside⟩ := hexhausted
  obtain ⟨init, last, hinit, hlast⟩ := Reading.last hcursor (Nat.le_of_not_lt hfull)
  rw [upTo_eq_self fun event hevent => Int.not_lt.mp (hinside event hevent)] at hpend
  have hmem : toLedgerEvent last ∈ page.events.map toLedgerEvent := by
    rw [hinit]
    exact List.mem_map_of_mem (List.mem_append_right _ List.mem_cons_self)
  have hledg : lastLedger startLedger (readPage config contractId startLedger endLedger cursor carry page).pending =
      (toLedgerEvent last).ledger := by
    rw [hpend, hinit, List.map_append, List.map_singleton, ← List.append_assoc, lastLedger, List.getLast?_concat]
    rfl
  rw [hledg, hpend]
  have hf := (h.belongs hrest hmem).2
  have hparts : onward LedgerEvent.ledger (history.eventsOf contractId) f =
      (carry ++ page.events.map toLedgerEvent) ++ rest.map toLedgerEvent := by
    rw [h.parts hrest, List.append_assoc]
  have hafter : ∀ event ∈ rest.map toLedgerEvent, (toLedgerEvent last).ledger ≤ event.ledger :=
    fun event hevent => h.follows hrest hmem hevent
  have hwithin : ∀ event ∈ carry ++ page.events.map toLedgerEvent, event.ledger ≤ endLedger := by
    intro event hevent
    rcases List.mem_append.mp hevent with hcarry | hpage
    · exact h.carried event hcarry
    · exact Int.not_lt.mp (hinside event hpage)
  have hnow : history.of contractId = (seen ++ init) ++ last :: rest := by
    rw [hplace, ← hrest, hinit, List.append_assoc, List.append_assoc, List.singleton_append]
  have hasked : history.asked (request config contractId startLedger endLedger page.cursor) = rest := by
    rw [hlast]
    show after (fun e => decide (history.cursor e = history.cursor last)) (history.of contractId) = rest
    rw [hnow]
    refine after_append (fun raw hraw => decide_eq_false ?_) (decide_eq_true rfl)
    exact History.cursors_disjoint hnow hraw List.mem_cons_self
  refine ⟨hf, ?_, ?_⟩
  · rw [History.between, between_of_last hparts hafter]
    refine List.filter_congr fun event _ => ?_
    rw [decide_eq_decide]
    omega
  · exact {
      split := by
        rw [hasked, onward_of_last hparts hafter hf]
        rfl
      begins := h.begins.trans hf
      within := (hwithin _ (List.mem_append_right _ hmem)).trans (by omega)
      carried := fun event hevent => hwithin event (List.mem_of_mem_filter hevent)
      place := by
        refine ⟨seen ++ page.events, ?_, fun k hk => ⟨last, ?_, ?_⟩⟩
        · rw [hasked, hnow, hinit, List.append_assoc, List.append_assoc, List.append_assoc, List.singleton_append]
        · rw [hinit]
          exact List.mem_append_right _ (List.mem_append_right _ List.mem_cons_self)
        · rw [hlast] at hk
          exact Option.some.inj hk }

end

/-! ### What a worker commits, in turn

A caller knows up to which ledger a contract's events are stored: from a checkpoint that it read, or from a batch that it
committed. It commits the events that follow, and what it keeps in memory is a checkpoint that it knows of. -/
open Delego.Data Delego.Process

section
variable (history : History) (initial : Int)

/-- Of the events that are stored: a contract's from the initial ledger on and before ledger `f` are among them. -/
structure StoredBefore (stored : Set LedgerEvent) (contractId : String) (f : Int) : Prop where
  begins : initial ≤ f
  all : ∀ event ∈ history.eventsOf contractId, initial ≤ event.ledger → event.ledger < f → event ∈ stored

def Told (stored : Set LedgerEvent) (contractId : String) (checkpoint : Option IngestionCheckpoint) : Prop :=
  ∀ c, checkpoint = some c → StoredBefore history initial stored contractId (c.lastProcessedLedger + 1)

def Adopts (stored : Set LedgerEvent) (contractId : String) : IngestionError → Prop
  | .checkpointConflict _ checkpoint => Told history initial stored contractId checkpoint
  | _ => True

def Requires : Op → Set LedgerEvent → Prop
  | .commitBatch input, stored => ∃ f, StoredBefore history initial stored input.contractId f ∧
      f ≤ input.throughLedger + 1 ∧ input.events = history.between input.contractId f input.throughLedger
  | .setCheckpoint _ entry, stored => Told history initial stored entry.contractId entry.checkpoint
  | .setLoaded _ entries, stored => ∀ entry ∈ entries, Told history initial stored entry.contractId entry.checkpoint
  | _, _ => True

def Teaches : (o : Op) → ingestSignature.Result o → Set LedgerEvent → Prop
  | .getCheckpoint _ contractId, .ok checkpoint, stored => Told history initial stored contractId checkpoint
  | .loadAll _, .ok checkpoints, stored => ∀ c ∈ checkpoints, Told history initial stored c.contractId (some c)
  | .commitBatch input, .ok result, stored => StoredBefore history initial stored input.contractId (input.throughLedger + 1) ∧
      Told history initial stored input.contractId (some result.checkpoint)
  | .commitBatch input, .error e, stored => Adopts history initial stored input.contractId e
  | _, _, _ => True

def Expects : (o : Op) → ingestSignature.Result o → Prop
  | .commitBatch _, _ => True
  | .getEventsWindow params, .ok page => history.Answers params page
  | _, .error (.checkpointConflict _ _) => False
  | _, _ => True

abbrev committing : Protocol ingestSignature (Set LedgerEvent → Prop) :=
  knowing (Expects history) (Requires history initial) (Teaches history initial)

end

section
variable {history : History} {initial : Int} {stored stored' : Set LedgerEvent} {contractId : String} {f g : Int}

theorem StoredBefore.mono (h : StoredBefore history initial stored contractId f) (hsub : stored ⊆ stored') :
    StoredBefore history initial stored' contractId f :=
  ⟨h.begins, fun event hevent hini hf => hsub (h.all event hevent hini hf)⟩

theorem Told.mono {checkpoint : Option IngestionCheckpoint} (h : Told history initial stored contractId checkpoint)
    (hsub : stored ⊆ stored') : Told history initial stored' contractId checkpoint :=
  fun c hc => (h c hc).mono hsub

theorem storedBefore_initial : StoredBefore history initial stored contractId initial :=
  ⟨Int.le_refl initial, fun _ _ _ _ => by omega⟩

theorem StoredBefore.skip (h : StoredBefore history initial stored contractId f) (hle : f ≤ g + 1)
    (hnone : history.between contractId f g = []) : StoredBefore history initial stored contractId (g + 1) := by
  refine ⟨h.begins.trans hle, fun event hevent hini hg => ?_⟩
  by_cases hf : event.ledger < f
  · exact h.all event hevent hini hf
  · have hmem : event ∈ history.between contractId f g := History.mem_between.mpr ⟨hevent, by omega, by omega⟩
    simp [hnone] at hmem

end

section
variable {config : Config} {history : History} {initial : Int} {worker : Nat} {contractId : String}
  {known : Set LedgerEvent → Prop} {f : Int} {α β : Type}

def Leaves (history : History) (initial : Int) (contractId : String) (Done : Set LedgerEvent → Prop)
    (r : Except IngestionError α) (known : Set LedgerEvent → Prop) : Prop :=
  match r with
  | .ok _ => ∀ stored, known stored → Done stored
  | .error e => ∀ stored, known stored → Adopts history initial stored contractId e

def Op.isFree : Op → Bool
  | .commitBatch _ => false
  | .setCheckpoint _ _ => false
  | .setLoaded _ _ => false
  | _ => true

theorem adopts_expected {o : Op} (ho : ∀ input, o ≠ .commitBatch input) {e : IngestionError}
    (h : Expects history o (.error e)) (stored : Set LedgerEvent) : Adopts history initial stored contractId e := by
  cases e with
  | checkpointConflict conflicting checkpoint =>
    cases o with
    | commitBatch input => exact absurd rfl (ho input)
    | _ => exact h.elim
  | ledgerRetentionGap conflicting resume oldest => trivial
  | other message => trivial

theorem follows_free {o : Op} (ho : o.isFree = true) {next : o.Reply → IngestM α} {Done : Set LedgerEvent → Prop}
    (hnext : ∀ a, Expects history o (.ok a) → Follows (committing history initial)
      (fun stored => known stored ∧ Teaches history initial o (.ok a) stored) (next a)
      (Leaves history initial contractId Done)) :
    Follows (committing history initial) known (ingest o >>= next) (Leaves history initial contractId Done) := by
  refine follows_knowing (fun stored _ => ?_) (fun e he stored _ => adopts_expected ?_ he stored) hnext
  · cases o <;> trivial
  · rintro input rfl
    cases ho

theorem follows_commit {throughLedger : Int} {events : List LedgerEvent}
    (hknown : ∀ stored, known stored → StoredBefore history initial stored contractId f) (hf : f ≤ throughLedger + 1)
    (hevents : events = history.between contractId f throughLedger) :
    Follows (committing history initial) known (commit worker contractId throughLedger events)
      (Leaves history initial contractId fun stored =>
        StoredBefore history initial stored contractId (throughLedger + 1)) := by
  refine follows_free rfl fun expected _ => ?_
  dsimp only
  split
  · rename_i hskip
    exact fun stored hstore => (hknown stored hstore.1).skip hf (hevents ▸ hskip.1)
  · refine follows_knowing (fun stored hstore => ⟨f, hknown stored hstore.1, hf, hevents⟩) (fun e _ stored h => h.2)
      fun result _ => ?_
    refine follows_knowing (fun stored hstore => hstore.2.2) (fun _ he stored _ => adopts_expected (by nofun) he stored)
      fun _ _ => ?_
    split
    · exact fun stored hstore => hstore.1.2.1
    · refine follows_bind (follows_attempt (follows_perform (fun _ _ => trivial) ?_))
      rintro r _ ⟨-, rfl⟩ stored hstore
      exact hstore.1.1.2.1

theorem follows_processPages {startLedger endLedger : Int} (pages : Nat) {cursor : Option String}
    {carry : List LedgerEvent} (processed : Nat)
    (hknown : ∀ stored, known stored → StoredBefore history initial stored contractId f)
    (hreading : Reading config history contractId startLedger endLedger f cursor carry) :
    Follows (committing history initial) known
      (processPages config worker contractId startLedger endLedger pages cursor carry processed)
      (Leaves history initial contractId fun stored =>
        StoredBefore history initial stored contractId (endLedger + 1)) := by
  induction pages generalizing known f cursor carry processed with
  | zero => exact fun _ _ => trivial
  | succ pages ih =>
    refine follows_free rfl fun page hpage => ?_
    have hknown : ∀ stored, (known stored ∧ True) → StoredBefore history initial stored contractId f :=
      fun stored hstore => hknown stored hstore.1
    dsimp only
    split
    · rename_i hexhausted
      refine follows_bind (follows_mono
        (follows_commit hknown hreading.within (hreading.exhausted hpage hexhausted)) fun r known' h => ?_)
      cases r with
      | ok count => exact h
      | error e => exact h
    · rename_i hexhausted
      obtain ⟨hf, hcomplete, hnext⟩ := hreading.full hpage rfl (Bool.eq_false_iff.mpr hexhausted)
      refine follows_bind (follows_mono (follows_commit hknown ?_ hcomplete) fun r known' h => ?_)
      · omega
      cases r with
      | ok count =>
        refine ih (processed + count) (fun stored hstore => ?_) hnext
        have hstore := h stored hstore
        rwa [sub_add_cancel] at hstore
      | error e => exact h

theorem follows_processWindows (pages : Nat) (latestLedger : Int) (windows : Nat) (processedTotal : Nat)
    (hknown : ∀ stored, known stored → StoredBefore history initial stored contractId f) :
    Follows (committing history initial) known
      (processWindows config worker pages contractId latestLedger windows f processedTotal)
      (Leaves history initial contractId fun _ => True) := by
  induction windows generalizing known f processedTotal with
  | zero => exact fun _ _ => trivial
  | succ windows ih =>
    refine follows_free rfl fun stopping _ => ?_
    split
    · rename_i hgo
      have hwindow := config.windowSize_pos
      have hreading : Reading config history contractId f (min (f + config.windowSize - 1) latestLedger) f none [] :=
        reading_start config history contractId (by omega)
      refine follows_bind (follows_mono
        (follows_processPages pages 0 (fun stored hstore => hknown stored hstore.1) hreading) fun r known' h => ?_)
      cases r with
      | ok processed => exact ih (processedTotal + processed) h
      | error e => exact h
    · exact fun _ _ => trivial

theorem follows_syncContract (hini : config.initialLedger = some initial) (pages : Nat) (range : LedgerRange) :
    Follows (committing history initial) known (syncContract config worker pages contractId range)
      (Leaves history initial contractId fun _ => True) := by
  refine follows_free rfl fun state _ => ?_
  cases state with
  | none => exact fun _ _ => trivial
  | some state =>
    refine follows_free rfl fun _ _ => ?_
    refine follows_free rfl fun checkpoint _ => ?_
    dsimp only
    split
    · exact fun _ _ => trivial
    · refine follows_bind (follows_mono
        (follows_processWindows pages range.latestLedger _ 0 fun stored hstore => ?_) fun r known' h => ?_)
      · cases checkpoint with
        | none =>
          rw [resumeLedger, hini]
          exact storedBefore_initial
        | some checkpoint => exact hstore.2 checkpoint rfl
      · cases r with
        | ok processedTotal => exact follows_free rfl fun _ _ _ _ => trivial
        | error e => exact h

theorem follows_handleContractError {e : IngestionError}
    (h : ∀ stored, known stored → Adopts history initial stored contractId e) :
    Follows (committing history initial) known (handleContractError worker contractId e) fun _ _ => True := by
  cases e with
  | checkpointConflict conflicting checkpoint =>
    exact follows_knowing h (fun _ _ => trivial) fun _ _ => follows_perform (fun _ _ => trivial) fun _ _ _ => trivial
  | ledgerRetentionGap conflicting resume oldest => exact follows_perform (fun _ _ => trivial) fun _ _ _ => trivial
  | other message => exact follows_perform (fun _ _ => trivial) fun _ _ _ => trivial

theorem follows_loadCheckpoints (config : Config) (worker : Nat) :
    Follows (committing history initial) known (loadCheckpoints config worker) fun _ _ => True := by
  refine follows_knowing (fun _ _ => trivial) (fun _ _ => trivial) fun loaded _ => ?_
  refine follows_perform ?_ fun _ _ _ => trivial
  rintro stored hstore entry hentry c hc
  obtain ⟨contractId, -, rfl⟩ := List.mem_map.mp hentry
  obtain rfl := lookup_key hc
  exact hstore.2 c (lookup_mem hc) c rfl

theorem follows_syncEach (hini : config.initialLedger = some initial) (pages : Nat) (range : LedgerRange)
    (contractIds : List String) (ok : Bool) :
    Follows (committing history initial) known (syncEach config worker pages range contractIds ok) fun _ _ => True := by
  induction contractIds generalizing known ok with
  | nil => trivial
  | cons contractId rest ih =>
    refine follows_knowing (fun _ _ => trivial) (fun _ _ => trivial) fun state _ => ?_
    cases state with
    | none => trivial
    | some state =>
      dsimp only
      split
      · exact ih ok
      · refine follows_bind (follows_tryCatch (follows_mono
          (Q := Leaves history initial contractId fun _ => True) ?_ fun r known' h => ?_))
        · exact follows_bind (follows_mono (follows_syncContract hini pages range)
            (forall_except (fun _ _ h => h) fun _ _ _ => fun _ _ => trivial))
        · cases r with
          | ok synced => exact ih (ok && synced)
          | error e =>
            exact follows_bind (follows_mono (follows_handleContractError h)
              (forall_except (fun _ _ _ => trivial) fun _ _ _ => ih (ok && false)))

theorem follows_body (hini : config.initialLedger = some initial) (c : Call) :
    Follows (committing history initial) known (c.body config) fun _ _ => True := by
  have hdiscard : ∀ {γ : Type} {p : IngestM γ}, Follows (committing history initial) known p (fun _ _ => True) →
      Follows (committing history initial) known (p >>= fun _ => Program.ret ()) fun _ _ => True := by
    intro γ p h
    refine follows_bind (follows_mono h fun r known' _ => ?_)
    cases r <;> trivial
  cases c with
  | loadCheckpoints worker => exact follows_loadCheckpoints config worker
  | syncContract worker contractId range pages =>
    exact hdiscard (follows_mono (follows_syncContract hini pages range) fun _ _ _ => trivial)
  | syncOnce worker pages =>
    refine hdiscard (follows_knowing (fun _ _ => trivial) (fun _ _ => trivial) fun isEmpty _ => ?_)
    have hrange : ∀ known, Follows (committing history initial) known (do
        let range ← ingest .getLedgerRange
        syncEach config worker pages range config.contractIds true) fun _ _ => True := fun known =>
      follows_knowing (fun _ _ => trivial) (fun _ _ => trivial) fun range _ => follows_syncEach hini pages range _ true
    cases isEmpty with
    | false => exact hrange _
    | true =>
      exact follows_bind (follows_mono (follows_loadCheckpoints config worker)
        (forall_except (fun _ _ _ => trivial) fun _ known' _ => hrange known'))

end

end Delego.Ingestion
