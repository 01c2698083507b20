import Mathlib.Data.List.Sort
import Delego.Data.Table
import Delego.Process.Pool

/-! The outbox relay (`orchestrator/src/events/outboxRelay.ts`) over the Postgres store (`postgres-service-event-outbox.ts`).

A relay cycle claims a batch of due rows and publishes them in turn. The claim is one transaction: it locks the rows it
selects, but the locks end with it, and all it writes is `updated_at`. What the cycle then does with its batch are
further operations, between which other relays come in. -/
namespace Delego.Outbox
open Delego.Process Delego.Data List Function

inductive ServiceEventOutboxStatus where
  | pending | published | failed
  deriving DecidableEq

/-- A row of the outbox. -/
structure ServiceEventOutboxRecord where
  (id topic payload : String)
  status : ServiceEventOutboxStatus
  attempts : Nat
  lastError : Option String
  nextAttemptAt : Int
  publishedAt : Option Int
  (createdAt updatedAt : Int)

namespace ServiceEventOutboxRecord

/-- `status = 'pending' AND next_attempt_at <= $1` -/
def due (now : Int) (row : ServiceEventOutboxRecord) : Bool := row.status = .pending && decide (row.nextAttemptAt ≤ now)

def publish (row : ServiceEventOutboxRecord) (now : Int) : ServiceEventOutboxRecord :=
  { row with status := .published, publishedAt := some now, updatedAt := now }

/-- The `CASE` of the update looks at the attempts before it. -/
def fail (row : ServiceEventOutboxRecord) (error : String) (nextAttemptAt : Int) (maxAttempts : Nat) (now : Int) :
    ServiceEventOutboxRecord :=
  { row with
    attempts := row.attempts + 1
    lastError := some error
    updatedAt := now
    status := if maxAttempts ≤ row.attempts + 1 then .failed else .pending
    nextAttemptAt := if maxAttempts ≤ row.attempts + 1 then row.nextAttemptAt else nextAttemptAt }

end ServiceEventOutboxRecord

structure PublishResult where
  delivered : Bool
  error : Option String

inductive Op where
  /-- `now()` -/
  | now
  /-- `Math.floor(random() * capped)` -/
  | jitter (capped : Nat)
  | claimPendingBatch (limit : Nat) (now : Int)
  | publish (topic message : String)
  | markPublished (id : String) (now : Int)
  | recordFailure (id error : String) (nextAttemptAt : Int) (maxAttempts : Nat)

@[reducible] def Op.Reply : Op → Type
  | .now => Int
  | .jitter _ => Nat
  | .claimPendingBatch _ _ => List ServiceEventOutboxRecord
  | .publish _ _ => PublishResult
  | .markPublished _ _ => Unit
  | .recordFailure _ _ _ _ => Unit

@[reducible] def relaySignature : Signature := ⟨Op, Op.Reply, String⟩

abbrev RelayM := Program relaySignature

def op (o : Op) : RelayM o.Reply := Program.perform (S := relaySignature) o

structure World where
  rows : List ServiceEventOutboxRecord

/-- The rows a claim selects: `ORDER BY created_at ASC LIMIT $2`. A transaction is one
operation, so that no row is locked by another. -/
def select (rows : List ServiceEventOutboxRecord) (limit : Nat) (now : Int) : List ServiceEventOutboxRecord :=
  ((rows.filter (·.due now)).insertionSort fun a b => a.createdAt ≤ b.createdAt).take limit

/-- `UPDATE service_event_outbox SET updated_at = $1 WHERE id = ANY($2)` -/
def touch (rows : List ServiceEventOutboxRecord) (ids : List String) (now : Int) : List ServiceEventOutboxRecord :=
  rows.map fun row => if row.id ∈ ids then { row with updatedAt := now } else row

/-- What the environment decides about an operation. -/
structure Choice where
  fate : Fate := .done
  result : PublishResult := ⟨true, none⟩
  time : Int := 0
  draw : Nat := 0

def answer (o : Op) (ch : Choice) (w : World) : o.Reply × World :=
  match o with
  | .now => (ch.time, w)
  | .jitter capped => (min ch.draw capped, w)
  | .claimPendingBatch limit now =>
    let rows := select w.rows limit now
    (rows, ⟨touch w.rows (rows.map ServiceEventOutboxRecord.id) now⟩)
  | .publish _ _ => (ch.result, w)
  | .markPublished id now => ((), ⟨update ServiceEventOutboxRecord.id w.rows id (·.publish now)⟩)
  | .recordFailure id error nextAttemptAt maxAttempts =>
    ((), ⟨update ServiceEventOutboxRecord.id w.rows id (·.fail error nextAttemptAt maxAttempts ch.time)⟩)

def Op.own : Op → Bool
  | .now => true
  | .jitter _ => true
  | _ => false

def perform (o : Op) (ch : Choice) (w : World) : Except String o.Reply × World :=
  (if o.own then Fate.done else ch.fate).carry (answer o ch w) w

structure Options where
  batchSize : Nat := 25
  maxAttempts : Nat := 5
  baseBackoffMs : Nat := 200
  maxBackoffMs : Nat := 30000

structure OutboxRelayMetrics where
  (polls claimed published : Nat)
  /-- Failed attempts that will be retried. -/
  retried : Nat
  /-- Rows that exhausted their attempts. -/
  exhausted : Nat

def computeBackoffDelayMs (attempts baseBackoffMs maxBackoffMs : Nat) : RelayM Nat :=
  op (.jitter (min (baseBackoffMs * 2 ^ (attempts - 1)) maxBackoffMs))

/-- The body of the `try`. -/
def publishRow (row : ServiceEventOutboxRecord) : RelayM Unit := do
  let result ← op (.publish row.topic row.payload)
  if !result.delivered then .fail (result.error.getD "publish did not report delivery")
  else do
    let now ← op .now
    op (.markPublished row.id now)

def relayRow (options : Options) (metrics : OutboxRelayMetrics) (row : ServiceEventOutboxRecord) :
    RelayM OutboxRelayMetrics := do
  let outcome ← (publishRow row).attempt
  match outcome with
  | .ok _ => return { metrics with published := metrics.published + 1 }
  | .error message => do
    let nextAttempts := row.attempts + 1
    let delayMs ← computeBackoffDelayMs nextAttempts options.baseBackoffMs options.maxBackoffMs
    let now ← op .now
    op (.recordFailure row.id message (now + delayMs) options.maxAttempts)
    if options.maxAttempts ≤ nextAttempts then return { metrics with exhausted := metrics.exhausted + 1 }
    else return { metrics with retried := metrics.retried + 1 }

def relayRows (options : Options) : List ServiceEventOutboxRecord → OutboxRelayMetrics → RelayM OutboxRelayMetrics
  | [], metrics => return metrics
  | row :: rest, metrics => do
    let metrics ← relayRow options metrics row
    relayRows options rest metrics

def runOutboxRelayCycle (options : Options) : RelayM OutboxRelayMetrics := do
  let now ← op .now
  let batch ← op (.claimPendingBatch options.batchSize now)
  relayRows options batch ⟨1, batch.length, 0, 0, 0⟩

/-- A producer inserts a row, under an id that is new. -/
structure Insert where
  (id topic payload : String)
  status : ServiceEventOutboxStatus := .pending
  now : Int

def insert (input : Insert) (w : World) : World :=
  match lookup ServiceEventOutboxRecord.id w.rows input.id with
  | some _ => w
  | none => ⟨w.rows ++ [⟨input.id, input.topic, input.payload, input.status, 0, none, input.now, none, input.now,
      input.now⟩]⟩

def system : System relaySignature World where
  Choice := Choice
  Event := Insert
  Call := Options
  perform := perform
  drift := insert
  arrive := fun _ w => some w
  body := fun options => do
    let _ ← runOutboxRelayCycle options
    return ()

abbrev RelayPool := Pool relaySignature World

abbrev RelayTrace := List (Entry relaySignature)

/-! ### Who holds a row of the outbox

A relay holds the rows of its batch until it has marked them published or recorded their failure (`held`). While a row
is held it stays pending and due, and the next claim takes it again: two relays that claim one after the other hold the
same rows, and the one that fails later makes a published row pending (`claimed_twice`). -/

/-- What a relay holds after an operation. A failure that cannot be recorded ends the cycle. -/
def holdsAfter : (o : Op) → relaySignature.Result o → List String → List String
  | .claimPendingBatch _ _, .ok rows, _ => rows.map ServiceEventOutboxRecord.id
  | .markPublished id _, .ok _, ids => ids.erase id
  | .recordFailure id _ _ _, .ok _, ids => ids.erase id
  | .recordFailure _ _ _ _, .error _, _ => []
  | _, _, ids => ids

/-- The rows that a relay holds: claimed, and neither marked nor recorded since. -/
def held : RelayTrace → Nat → List String
  | [], _ => []
  | e :: tr, i => if e.runner = i then holdsAfter e.op e.result (held tr i) else held tr i

def relaying : Protocol relaySignature (List String) where
  Allowed := fun ids o => match o with
    | .claimPendingBatch _ _ => ids = []
    | .markPublished id _ => ids.head? = some id
    | .recordFailure id _ _ _ => ids.head? = some id
    | _ => True
  Moves := fun ids o r ids' => (o.own = true → ∃ a, r = .ok a) ∧ ids' = holdsAfter o r ids
  Ends := fun ids => ids = []

section
variable {id : String} {rest : List String} {row : ServiceEventOutboxRecord} {options : Options} {ids : List String}

theorem follows_op {o : Op} {Q : Except String o.Reply → List String → Prop}
    (ha : relaying.Allowed ids o) (hm : ∀ r, (o.own = true → ∃ a, r = .ok a) → Q r (holdsAfter o r ids)) :
    Follows relaying ids (op o) Q := by
  apply follows_perform ha
  rintro r ids' ⟨hown, rfl⟩
  exact hm r hown

theorem follows_publishRow : Follows relaying (row.id :: rest) (publishRow row) fun r ids => ids = match r with
        | .ok _ => rest
        | .error _ => row.id :: rest := by
  refine follows_bind (follows_op trivial (forall_except (fun _ _ => rfl) fun _ _ => ?_))
  simp only [Then]
  split
  · rfl
  · apply follows_bind
    refine follows_op trivial ?_
    intro r hown
    obtain ⟨now, rfl⟩ := hown rfl
    refine follows_op rfl ?_
    intro r _
    cases r with
    | error message => rfl
    | ok _ => exact erase_cons_head row.id rest

theorem follows_relayRow {metrics : OutboxRelayMetrics} : Follows relaying (row.id :: rest) (relayRow options metrics row)
      fun r ids => ids = match r with
        | .ok _ => rest
        | .error _ => [] := by
  refine follows_bind (follows_attempt (follows_mono follows_publishRow (forall_except ?_ fun _ _ rfl => rfl)))
  rintro message _ rfl
  apply follows_bind
  refine follows_op trivial ?_
  intro r hown
  obtain ⟨delayMs, rfl⟩ := hown rfl
  apply follows_bind
  refine follows_op trivial ?_
  intro r hown
  obtain ⟨now, rfl⟩ := hown rfl
  refine follows_bind (follows_op rfl (forall_except (fun _ _ => rfl) fun _ _ => ?_))
  simp only [Then, holdsAfter, erase_cons_head]
  split
  · rfl
  · rfl

theorem follows_relayRows (batch : List ServiceEventOutboxRecord) (metrics : OutboxRelayMetrics) :
    Follows relaying (batch.map ServiceEventOutboxRecord.id) (relayRows options batch metrics) fun _ ids => ids = [] := by
  induction batch generalizing metrics with
  | nil => rfl
  | cons row rest ih =>
    refine follows_bind (follows_mono follows_relayRow ?_)
    rintro r _ rfl
    cases r with
    | error message => rfl
    | ok metrics => exact ih metrics

theorem body_follows (options : Options) : Follows relaying [] (system.body options) fun _ ids => relaying.Ends ids := by
  refine follows_bind (follows_mono (Q := fun _ ids => ids = []) ?_ ?_)
  · apply follows_bind
    refine follows_op trivial ?_
    intro r hown
    obtain ⟨now, rfl⟩ := hown rfl
    exact follows_bind (follows_op rfl (forall_except (fun _ _ => rfl) fun batch _ => follows_relayRows batch _))
  · rintro r _ rfl
    cases r with
    | error message => rfl
    | ok metrics => rfl

end

def World.status (w : World) (id : String) : Option ServiceEventOutboxStatus :=
  (lookup ServiceEventOutboxRecord.id w.rows id).map ServiceEventOutboxRecord.status

def Op.writes : Op → Option String
  | .markPublished id _ => some id
  | .recordFailure id _ _ _ => some id
  | _ => none

section
variable {o : Op} {ch : Choice} {w : World} {id : String}

theorem touch_status (rows : List ServiceEventOutboxRecord) (ids : List String) (now : Int) :
    (World.mk (touch rows ids now)).status id = (World.mk rows).status id := by
  have hid : ∀ row : ServiceEventOutboxRecord,
      (if row.id ∈ ids then { row with updatedAt := now } else row).id = row.id := by
    intro row
    split
    · rfl
    · rfl
  simp only [World.status, touch, lookup_map hid, Option.map_map]
  congr 1
  funext row
  simp only [comp_apply]
  split
  · rfl
  · rfl

theorem status_answer (h : o.writes ≠ some id) : (answer o ch w).2.status id = w.status id := by
  cases o with
  | claimPendingBatch limit now => exact touch_status w.rows _ now
  | markPublished id' now =>
    have hne : id ≠ id' := fun heq => h (congrArg some heq.symm)
    have hid : ∀ row : ServiceEventOutboxRecord, (row.publish now).id = row.id := fun _ => rfl
    simp [answer, World.status, lookup_update hid, hne]
  | recordFailure id' error nextAttemptAt maxAttempts =>
    have hne : id ≠ id' := fun heq => h (congrArg some heq.symm)
    have hid : ∀ row : ServiceEventOutboxRecord,
        (row.fail error nextAttemptAt maxAttempts ch.time).id = row.id := fun _ => rfl
    simp [answer, World.status, lookup_update hid, hne]
  | _ => rfl

theorem keyed_answer (h : Keyed ServiceEventOutboxRecord.id w.rows) :
    Keyed ServiceEventOutboxRecord.id (answer o ch w).2.rows := by
  cases o with
  | claimPendingBatch limit now =>
    have hids : ∀ ids, (touch w.rows ids now).map ServiceEventOutboxRecord.id =
        w.rows.map ServiceEventOutboxRecord.id := by
      intro ids
      rw [touch, map_map]
      apply map_congr_left
      intro row _
      simp only [comp_apply]
      split
      · rfl
      · rfl
    unfold Keyed
    rw [answer, hids]
    exact h
  | markPublished id now => exact h.update fun _ => rfl
  | recordFailure id error nextAttemptAt maxAttempts => exact h.update fun _ => rfl
  | _ => exact h

theorem status_perform (h : o.writes ≠ some id) : (perform o ch w).2.status id = w.status id :=
  Fate.carry_kept (P := fun w' : World => w'.status id = w.status id) rfl (status_answer h)

theorem keyed_perform (h : Keyed ServiceEventOutboxRecord.id w.rows) :
    Keyed ServiceEventOutboxRecord.id (perform o ch w).2.rows :=
  Fate.carry_kept (P := fun w' : World => Keyed ServiceEventOutboxRecord.id w'.rows) h (keyed_answer h)

theorem status_insert {input : Insert} (h : w.status id ≠ none) : (insert input w).status id = w.status id := by
  unfold insert
  split
  · rfl
  · rename_i hnone
    have hne : id ≠ input.id := by
      intro heq
      rw [World.status, heq, hnone] at h
      exact h rfl
    exact congrArg (Option.map _) (lookup_append_ne hne)

theorem keyed_insert {input : Insert} (h : Keyed ServiceEventOutboxRecord.id w.rows) :
    Keyed ServiceEventOutboxRecord.id (insert input w).rows := by
  unfold insert
  split
  · exact h
  · exact h.append ‹_›

end

/-! ### Claims -/

theorem mem_select {rows : List ServiceEventOutboxRecord} {limit : Nat} {now : Int} {row : ServiceEventOutboxRecord}
    (h : row ∈ select rows limit now) : row ∈ rows ∧ row.due now = true := by
  have hsorted := mem_of_mem_take h
  rw [mem_insertionSort] at hsorted
  exact mem_filter.mp hsorted

theorem select_nodup {rows : List ServiceEventOutboxRecord} {limit : Nat} {now : Int}
    (h : Keyed ServiceEventOutboxRecord.id rows) :
    ((select rows limit now).map ServiceEventOutboxRecord.id).Nodup := by
  have hfilter : ((rows.filter (·.due now)).map ServiceEventOutboxRecord.id).Nodup := h.sublist (filter_sublist.map _)
  have hsorted : (((rows.filter (·.due now)).insertionSort fun a b => a.createdAt ≤ b.createdAt).map
      ServiceEventOutboxRecord.id).Nodup :=
    ((perm_insertionSort _ _).map _).nodup_iff.mpr hfilter
  exact hsorted.sublist ((take_sublist _ _).map _)

def noneHeld (p : RelayPool) (now : Int) : Bool :=
  p.world.rows.all fun row => !row.due now || (range p.runners.length).all fun i => decide (row.id ∉ held p.trace i)

/-- Claims come when no held row is due, and a mark that throws was not made. -/
def apart (p : RelayPool) (_ : Nat) (o : Op) (ch : Choice) : Bool :=
  match o with
  | .claimPendingBatch _ now => noneHeld p now
  | .markPublished _ _ => match ch.fate with
    | .lost _ => false
    | _ => true
  | _ => true

/-- Every relay holds its own rows, and they are pending. -/
structure Claims (w : World) (tr : RelayTrace) (φ : Nat → List String) : Prop where
  keyed : Keyed ServiceEventOutboxRecord.id w.rows
  agree : ∀ i, φ i = held tr i
  distinct : ∀ i, (φ i).Nodup
  pending : ∀ i, ∀ id ∈ φ i, w.status id = some .pending
  own : ∀ i j, ∀ id ∈ φ i, id ∈ φ j → i = j

theorem claims_start {w : World} (h : Keyed ServiceEventOutboxRecord.id w.rows) : Claims w [] fun _ => [] where
  keyed := h
  agree := fun _ => rfl
  distinct := fun _ => nodup_nil
  pending := fun _ _ h => by cases h
  own := fun _ _ _ h => by cases h

section
variable {w : World} {tr : RelayTrace} {φ : Nat → List String} {i : Nat} {o : Op} {ch : Choice}
  {r : relaySignature.Result o}

theorem agree_step (h : ∀ i, φ i = held tr i) (j : Nat) :
    update φ i (holdsAfter o r (φ i)) j = held (⟨i, o, r⟩ :: tr) j := by
  by_cases hij : i = j
  · subst hij
    simp [held, h]
  · rw [update_of_ne (Ne.symm hij), held, if_neg hij, h]

theorem holdsAfter_sublist (ho : ∀ limit now, o ≠ .claimPendingBatch limit now) :
    (holdsAfter o r ids).Sublist ids := by
  cases o with
  | claimPendingBatch limit now => exact absurd rfl (ho limit now)
  | markPublished id now =>
    cases r with
    | ok _ => exact erase_sublist
    | error message => exact List.Sublist.refl ids
  | recordFailure id error nextAttemptAt maxAttempts =>
    cases r with
    | ok _ => exact erase_sublist
    | error message => exact nil_sublist ids
  | _ => exact List.Sublist.refl ids

theorem not_mem_holdsAfter {id : String} (hids : ids.Nodup) (hwr : o.writes = some id)
    (hrep : (∃ now, o = .markPublished id now) → ∃ a, r = .ok a) :
    id ∉ holdsAfter o r ids := by
  cases o with
  | markPublished id' now =>
    cases hwr
    obtain ⟨a, rfl⟩ := hrep ⟨now, rfl⟩
    exact hids.not_mem_erase
  | recordFailure id' error nextAttemptAt maxAttempts =>
    cases hwr
    cases r with
    | ok _ => exact hids.not_mem_erase
    | error message => exact not_mem_nil
  | now => cases hwr
  | jitter capped => cases hwr
  | claimPendingBatch limit now => cases hwr
  | publish topic message => cases hwr

theorem perform_cases (hmade : (∃ id now, o = .markPublished id now) → ∀ message, ch.fate ≠ .lost message) :
    (perform o ch w).2 = w ∨ (perform o ch w).2 = (answer o ch w).2 ∧
      ((∃ id now, o = .markPublished id now) → ∃ a, (perform o ch w).1 = .ok a) := by
  by_cases hmark : ∃ id now, o = .markPublished id now
  · obtain ⟨id, now, rfl⟩ := hmark
    simp only [perform, Op.own, Bool.false_eq_true, if_false]
    cases hfate : ch.fate with
    | done => exact .inr ⟨rfl, fun _ => ⟨_, rfl⟩⟩
    | refused message => exact .inl rfl
    | lost message => exact absurd hfate (hmade ⟨id, now, rfl⟩ message)
  · rcases Fate.carry_world _ (answer o ch w) w with hsame | hdone
    · exact .inl hsame
    · exact .inr ⟨hdone, fun h => absurd h hmark⟩

theorem Claims.act (h : Claims w tr φ) (ho : ∀ limit now, o ≠ .claimPendingBatch limit now)
    (hheld : ∀ id, o.writes = some id → id ∈ φ i)
    (hmade : (∃ id now, o = .markPublished id now) → ∀ message, ch.fate ≠ .lost message) :
    Claims (perform o ch w).2 (⟨i, o, (perform o ch w).1⟩ :: tr)
      (update φ i (holdsAfter o (perform o ch w).1 (φ i))) := by
  have hsublist : ∀ j, (update φ i (holdsAfter o (perform o ch w).1 (φ i)) j).Sublist (φ j) := by
    intro j
    by_cases hij : j = i
    · subst hij
      rw [update_self]
      exact holdsAfter_sublist ho
    · rw [update_of_ne hij]
  refine ⟨keyed_perform h.keyed, agree_step h.agree, ?_, ?_, ?_⟩
  · intro j
    exact (h.distinct j).sublist (hsublist j)
  · intro j id hid
    have hpre := h.pending j id ((hsublist j).subset hid)
    rcases perform_cases hmade with hsame | ⟨hdone, hrep⟩
    · rw [hsame]
      exact hpre
    · by_cases hwr : o.writes = some id
      · -- the row was held by the relay that has written it, and by no other
        obtain rfl := h.own i j id (hheld id hwr) ((hsublist j).subset hid)
        rw [update_self] at hid
        refine absurd hid (not_mem_holdsAfter (h.distinct i) hwr ?_)
        rintro ⟨now, rfl⟩
        exact hrep ⟨id, now, rfl⟩
      · rw [hdone, status_answer hwr]
        exact hpre
  · intro j k id hj hk
    exact h.own j k id ((hsublist j).subset hj) ((hsublist k).subset hk)

theorem Claims.claim {limit : Nat} {now : Int} (h : Claims w tr φ) (hi : φ i = [])
    (hnone : ∀ row ∈ w.rows, row.due now = true → ∀ j, row.id ∉ φ j) :
    Claims (perform (.claimPendingBatch limit now) ch w).2
      (⟨i, .claimPendingBatch limit now, (perform (.claimPendingBatch limit now) ch w).1⟩ :: tr)
      (update φ i (holdsAfter (.claimPendingBatch limit now)
        (perform (.claimPendingBatch limit now) ch w).1 (φ i))) := by
  have hstat : ∀ id, (perform (.claimPendingBatch limit now) ch w).2.status id = w.status id :=
    fun id => status_perform (by rintro ⟨⟩)
  have hclaimed : (holdsAfter (.claimPendingBatch limit now) (perform (.claimPendingBatch limit now) ch w).1
      (φ i)).Sublist ((select w.rows limit now).map ServiceEventOutboxRecord.id) := by
    simp only [perform, Op.own, Bool.false_eq_true, if_false]
    cases ch.fate with
    | done => exact List.Sublist.refl _
    | refused message =>
      rw [hi]
      exact nil_sublist _
    | lost message =>
      rw [hi]
      exact nil_sublist _
  have hselected : ∀ id ∈ holdsAfter (.claimPendingBatch limit now)
      (perform (.claimPendingBatch limit now) ch w).1 (φ i),
      w.status id = some .pending ∧ ∀ j, id ∉ φ j := by
    intro id hid
    obtain ⟨row, hrow, rfl⟩ := mem_map.mp (hclaimed.subset hid)
    obtain ⟨hmem, hdue⟩ := mem_select hrow
    refine ⟨?_, hnone row hmem hdue⟩
    simp only [ServiceEventOutboxRecord.due, Bool.and_eq_true, decide_eq_true_eq] at hdue
    rw [World.status, h.keyed.found hmem, Option.map_some, hdue.1]
  refine ⟨keyed_perform h.keyed, agree_step h.agree, ?_, ?_, ?_⟩
  · intro j
    by_cases hij : j = i
    · subst hij
      rw [update_self]
      exact (select_nodup h.keyed).sublist hclaimed
    · rw [update_of_ne hij]
      exact h.distinct j
  · intro j id hid
    rw [hstat]
    by_cases hij : j = i
    · subst hij
      rw [update_self] at hid
      exact (hselected id hid).1
    · rw [update_of_ne hij] at hid
      exact h.pending j id hid
  · intro j k id hj hk
    by_cases hji : j = i
    · by_cases hki : k = i
      · rw [hji, hki]
      · rw [update_of_ne hki] at hk
        rw [hji, update_self] at hj
        exact absurd hk ((hselected id hj).2 k)
    · rw [update_of_ne hji] at hj
      by_cases hki : k = i
      · rw [hki, update_self] at hk
        exact absurd hj ((hselected id hk).2 j)
      · rw [update_of_ne hki] at hk
        exact h.own j k id hj hk

end

theorem held_of_writes {o : Op} {id : String} (ha : relaying.Allowed ids o)
    (hwr : o.writes = some id) : id ∈ ids := by
  cases o with
  | markPublished id' now =>
    cases hwr
    exact mem_of_mem_head? ha
  | recordFailure id' error nextAttemptAt maxAttempts =>
    cases hwr
    exact mem_of_mem_head? ha
  | now => cases hwr
  | jitter capped => cases hwr
  | claimPendingBatch limit now => cases hwr
  | publish topic message => cases hwr

theorem mark_made {p : RelayPool} {i : Nat} {o : Op} {ch : Choice} (h : apart p i o ch = true)
    (hmark : ∃ id now, o = .markPublished id now) (message : String) : ch.fate ≠ .lost message := by
  obtain ⟨id, now, rfl⟩ := hmark
  intro hlost
  simp [apart, hlost] at h

theorem claims_inductive : Inductive system relaying [] (fun p a => onStep apart p a = true) Claims where
  body := fun _ options _ => body_follows options
  arrive := by
    rintro p φ options w - ht ⟨⟩
    exact ht.holds
  drift := by
    intro p φ input _ ht
    refine ⟨keyed_insert ht.holds.keyed, ht.holds.agree, ht.holds.distinct, ?_, ht.holds.own⟩
    intro i id hid
    have hpre := ht.holds.pending i id hid
    exact (status_insert (by simp [hpre])).trans hpre
  answers := by
    intro p φ i o ch _ _ ht _
    refine ⟨_, ?_, rfl⟩
    intro hown
    refine ⟨(answer o ch p.world).1, ?_⟩
    simp [system, perform, hown, Fate.carry]
  step := by
    rintro p φ i o ch _ hg hp ht ha ⟨-, rfl⟩
    have hapart := onStep_pending hg hp
    by_cases hclaim : ∃ limit now, o = .claimPendingBatch limit now
    · obtain ⟨limit, now, rfl⟩ := hclaim
      apply ht.holds.claim ha
      intro row hrow hdue j hheld
      have hnone := all_eq_true.mp hapart row hrow
      simp only [hdue, Bool.not_true, Bool.false_or, all_eq_true, mem_range, decide_eq_true_eq] at hnone
      by_cases hj : j < p.runners.length
      · exact hnone j hj (ht.holds.agree j ▸ hheld)
      · simp [ht.fresh j (by omega)] at hheld
    · exact ht.holds.act (fun limit now h => hclaim ⟨limit, now, h⟩) (fun id => held_of_writes ha) (mark_made hapart)

theorem published_inductive (id : String) : Inductive system relaying [] (fun p a => onStep apart p a = true)
      fun w tr φ => Claims w tr φ ∧ w.status id = some .published := by
  apply claims_inductive.and
  · exact fun _ _ h => h
  · rintro p φ options w - - hpub ⟨⟩
    exact hpub
  · intro p φ input _ _ hpub
    exact (status_insert (by simp [hpub])).trans hpub
  · intro p φ i o ch φ' _ _ ht hpub ha _
    have hother : o.writes ≠ some id := by
      intro hwr
      have hpend := ht.holds.pending i id (held_of_writes ha hwr)
      simp [hpub] at hpend
    exact (status_perform hother).trans hpub

/-- **The outbox is exclusive**, and what is published stays so, where claims come when no held row is due, and
marks that throw were not made. -/
theorem outbox_exclusive {w : World} {q r : RelayPool} (start : Keyed ServiceEventOutboxRecord.id w.rows)
    (run : Run system (fun p a => onStep apart p a = true) (Pool.start w) q)
    (later : Run system (fun p a => onStep apart p a = true) q r) :
    (∀ i j, ∀ id ∈ held q.trace i, id ∈ held q.trace j → i = j) ∧
      ∀ id, q.world.status id = some .published → r.world.status id = some .published := by
  obtain ⟨φ, ht⟩ := claims_inductive.run run ⟨_, .start (claims_start start)⟩
  refine ⟨?_, ?_⟩
  · intro i j id hi hj
    rw [← ht.holds.agree] at hi hj
    exact ht.holds.own i j id hi hj
  · intro id hpub
    obtain ⟨φ', ht'⟩ := (published_inductive id).run later ⟨φ, ht.mono fun h => ⟨h, hpub⟩⟩
    exact ht'.holds.2

def sampleWorld : World where
  rows := [
    { id := "event-1", topic := "order.created", payload := "order-1", status := .pending, attempts := 0
      lastError := none, nextAttemptAt := 0, publishedAt := none, createdAt := 0
      updatedAt := 0 }]

/-- A first cycle fails to publish the row, a second one, started before and claiming after, does. -/
theorem outbox_exclusive_at_sample : ∃ q, Run system (fun p a => onStep apart p a = true) (Pool.start sampleWorld) q ∧
      q.world.status "event-1" = some .published ∧
      ∀ r, Run system (fun p a => onStep apart p a = true) q r → r.world.status "event-1" = some .published := by
  obtain ⟨q, hrun, htest⟩ := Run.exists_of_any (Pool.start sampleWorld) (onStep apart)
    ([.call ({} : Options), .call ({} : Options), .step 0 { time := 1 }, .step 1 { time := 900 }, .step 0 {},
      .step 0 { result := ⟨false, none⟩ }, .step 0 { draw := 150 }, .step 0 { time := 2 }, .step 0 { time := 2 },
      .step 1 {}, .step 1 {}, .step 1 { time := 901 }, .step 1 {}] : List (Action system))
    (fun q => decide (q.world.status "event-1" = some .published)) (by decide)
  have hpub := of_decide_eq_true htest
  refine ⟨q, hrun, hpub, ?_⟩
  intro r later
  exact (outbox_exclusive (by decide) hrun later).2 "event-1" hpub

def bothClaim : List (Action system) := [.call {}, .call {}, .step 0 {}, .step 1 {}, .step 0 {}, .step 1 {}]

def firstPublishes : List (Action system) := [.step 0 {}, .step 0 {}, .step 0 {}]

def secondFails : List (Action system) := [.step 1 { result := ⟨false, none⟩ }, .step 1 {}, .step 1 {}, .step 1 {}]

def published : RelayPool :=
  ((Pool.start sampleWorld).runWhile system (fun _ _ => true) (bothClaim ++ firstPublishes)).getD (Pool.start sampleWorld)

/-- **A row is claimed twice.** Both relays hold it; one publishes it, and the other makes it
pending again. -/
theorem claimed_twice : Keyed ServiceEventOutboxRecord.id sampleWorld.rows ∧
      (∃ q, Run system (fun _ _ => True) (Pool.start sampleWorld) q ∧
        "event-1" ∈ held q.trace 0 ∧ "event-1" ∈ held q.trace 1) ∧
      ∃ q r, Run system (fun _ _ => True) (Pool.start sampleWorld) q ∧ Run system (fun _ _ => True) q r ∧
        q.world.status "event-1" = some .published ∧ r.world.status "event-1" = some .pending := by
  refine ⟨by decide, ?_, ?_⟩
  · obtain ⟨q, hrun, htest⟩ := Run.exists_of_any (Pool.start sampleWorld) (fun _ _ => true) bothClaim
      (fun q => decide ("event-1" ∈ held q.trace 0 ∧ "event-1" ∈ held q.trace 1)) (by decide)
    exact ⟨q, hrun.mono fun _ _ _ => trivial, of_decide_eq_true htest⟩
  · have hpub : (Pool.start sampleWorld).runWhile system (fun _ _ => true) (bothClaim ++ firstPublishes) =
        some published := rfl
    have hrun := Run.of_runWhile hpub
    obtain ⟨r, hlater, htest⟩ := Run.exists_of_any published (fun _ _ => true) secondFails
      (fun r => decide (r.world.status "event-1" = some .pending)) (by decide)
    exact ⟨published, r, hrun.mono fun _ _ _ => trivial, hlater.mono fun _ _ _ => trivial, by decide,
      of_decide_eq_true htest⟩

end Delego.Outbox
