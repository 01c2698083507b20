import Mathlib.Algebra.Ring.Nat
import Delego.Process.Returned

/-! The dead letter queue of transactions (`wallet/src/queue/transactionDLQ.ts`).

An entry is a key of Redis, with a sorted set of all ids beside. It is read, changed and written as a
whole, in two operations; a failure of the read is taken for a missing entry (`getDLQEntry`). -/
namespace Delego.DeadLetters
open Delego.Process

inductive Category where
  | transient | permanent | unknown
  deriving DecidableEq

inductive Status where
  | pending | retrying | replayed | archived | discarded
  deriving DecidableEq

structure Failure where
  (code message : String)
  category : Category
  retryable : Bool
  txHash : Option String
  deriving DecidableEq

/-- An entry of the queue. -/
structure DeadLetterEntry where
  (id originalJobId request : String)
  failure : Failure
  attempts : Nat
  (lastAttemptAt createdAt : Int)
  nextRetryAt : Option Int
  replayCount : Nat
  status : Status
  deriving DecidableEq

/-- Whole numbers, as in the policies that there are. -/
structure RetryPolicy where
  failureCode : String
  (maxRetries backoffMs backoffMultiplier maxBackoffMs : Nat)
  category : Category

def DEFAULT_RETRY_POLICIES : List RetryPolicy :=
  [⟨"TX_RPC_TRANSIENT", 5, 1000, 2, 30000, .transient⟩, ⟨"TX_SEQUENCE_CONFLICT", 3, 2000, 2, 15000, .transient⟩,
    ⟨"TX_POLL_TIMEOUT", 3, 5000, 2, 30000, .transient⟩,
    ⟨"TX_MALFORMED_XDR", 0, 0, 1, 0, .permanent⟩,
    ⟨"TX_AUTH_FAILURE", 0, 0, 1, 0, .permanent⟩,
    ⟨"TX_SIMULATION_FAILED", 2, 5000, 2, 30000, .unknown⟩,
    ⟨"TX_EXECUTION_FAILED", 0, 0, 1, 0, .permanent⟩,
    ⟨"TX_SUBMISSION_REJECTED", 1, 5000, 2, 15000, .unknown⟩,
    ⟨"TX_SUBMISSION_UNKNOWN", 1, 5000, 2, 15000, .unknown⟩]

def getRetryPolicy (policies : List RetryPolicy) (failureCode : String) : Option RetryPolicy :=
  policies.find? fun p => decide (p.failureCode = failureCode)

def RetryPolicy.backoff (policy : RetryPolicy) (attempts : Nat) : Nat :=
  min (policy.backoffMs * policy.backoffMultiplier ^ attempts) policy.maxBackoffMs

namespace DeadLetterEntry

def retriesLeft (policies : List RetryPolicy) (entry : DeadLetterEntry) : Bool :=
  match getRetryPolicy policies entry.failure.code with
  | none => false
  | some policy => decide (0 < policy.maxRetries) && decide (entry.attempts < policy.maxRetries)

/-- What `getRetriableEntries` selects. -/
def isRetriable (policies : List RetryPolicy) (now : Int) (entry : DeadLetterEntry) : Bool :=
  decide (entry.status = .pending) && entry.retriesLeft policies && match entry.nextRetryAt with
    | none => true
    | some nextRetryAt => decide (nextRetryAt ≤ now)

def retrying (now : Int) (entry : DeadLetterEntry) : DeadLetterEntry :=
  { entry with
    status := .retrying
    lastAttemptAt := now
    attempts := entry.attempts + 1 }

def replayed (txHash : String) (entry : DeadLetterEntry) : DeadLetterEntry :=
  { entry with
    status := .replayed
    replayCount := entry.replayCount + 1
    failure := { entry.failure with txHash := some txHash } }

def archived (entry : DeadLetterEntry) : DeadLetterEntry := { entry with status := .archived }

def discarded (entry : DeadLetterEntry) : DeadLetterEntry := { entry with status := .discarded }

end DeadLetterEntry

inductive Op where
  | zrange
  | get (id : String)
  /-- The entry is written, with the entry that it was made of. -/
  | set (id : String) (read entry : DeadLetterEntry)
  | replay (id request : String)
  | now

@[reducible] def Op.Reply : Op → Type
  | .zrange => List String
  | .get _ => Option DeadLetterEntry
  | .replay .. => String
  | .now => Int
  | _ => Unit

@[reducible] def dlqSignature : Signature := ⟨Op, Op.Reply, String⟩

abbrev DLQ := Program dlqSignature

def op (o : Op) : DLQ o.Reply := Program.perform (S := dlqSignature) o

/-- A call of the replay function, with the entry as stored. -/
structure Replay where
  id : String
  entry : Option DeadLetterEntry

structure World where
  clock : Int
  entries : String → Option DeadLetterEntry
  index : List String
  /-- What has been replayed, in order. -/
  replays : List Replay
  /-- The entries of which a replay has succeeded, in order. -/
  successes : List String

/-- What the environment decides about an operation. -/
structure Choice where
  fate : Fate := .done
  txHash : String := ""

def answer (o : Op) (ch : Choice) (w : World) : Except String (o.Reply × World) :=
  match o with
  | .zrange => .ok (w.index, w)
  | .get id => .ok (w.entries id, w)
  | .set id _ entry => .ok ((), { w with entries := Function.update w.entries id (some entry) })
  | .replay id _ => match ch.fate with
    | .done => .ok (ch.txHash, { w with
        replays := w.replays ++ [⟨id, w.entries id⟩]
        successes := w.successes ++ [id] })
    | _ => .ok (ch.txHash, { w with replays := w.replays ++ [⟨id, w.entries id⟩] })
  | .now => .ok (w.clock, w)

def fateOf (o : Op) (ch : Choice) : Fate :=
  match o, ch.fate with
  | .replay .., .refused message => .lost message
  | .now, _ => .done
  | _, fate => fate

def perform (o : Op) (ch : Choice) (w : World) : Except String o.Reply × World :=
  (fateOf o ch).deliver (answer o ch w) w

def getDLQEntry (id : String) : DLQ (Option DeadLetterEntry) := (op (.get id)).tryCatch fun _ => return none

section
variable (policies : List RetryPolicy)

/-- The loop of `getRetriableEntries`. -/
def retriableOf (now : Int) : List String → DLQ (List DeadLetterEntry)
  | [] => return []
  | id :: ids => do
    let entry ← getDLQEntry id
    let retriable ← retriableOf now ids
    return (entry.filter fun e => e.isRetriable policies now).toList ++ retriable

def getRetriableEntries : DLQ (List DeadLetterEntry) := do
  let ids ← op .zrange
  let now ← op .now
  retriableOf policies now ids

def markAs (id : String) (change : DeadLetterEntry → DLQ DeadLetterEntry) : DLQ Unit := do
  let entry ← getDLQEntry id
  match entry with
  | none => return ()
  | some entry => do
    let changed ← change entry
    op (.set id entry changed)

def scheduled (entry : DeadLetterEntry) : DLQ DeadLetterEntry :=
  match getRetryPolicy policies entry.failure.code with
  | none => return entry
  | some policy =>
    if entry.attempts < policy.maxRetries then do
      let now ← op .now
      return { entry with nextRetryAt := some (now + policy.backoff entry.attempts) }
    else return entry

def markAsRetrying (id : String) : DLQ Unit :=
  markAs id fun entry => do
    let now ← op .now
    scheduled policies (entry.retrying now)

def markAsReplayed (id txHash : String) : DLQ Unit := markAs id fun entry => return entry.replayed txHash

def markAsArchived (id : String) : DLQ Unit := markAs id fun entry => return entry.archived

def markAsDiscarded (id : String) : DLQ Unit := markAs id fun entry => return entry.discarded

def replay (id request : String) : DLQ String := do
  markAsRetrying policies id
  let txHash ← op (.replay id request)
  markAsReplayed id txHash
  return txHash

structure Outcome where
  (replayed failed skipped : Nat)

/-- The loop of `processAutoReplays`. -/
def replayAll : List DeadLetterEntry → Outcome → DLQ Outcome
  | [], outcome => return outcome
  | entry :: entries, outcome =>
    if entry.failure.category ≠ .transient then replayAll entries { outcome with skipped := outcome.skipped + 1 }
    else do
      let outcome ← (do
        let _ ← replay policies entry.id entry.request
        return { outcome with replayed := outcome.replayed + 1 } : DLQ Outcome).tryCatch fun _ =>
          return { outcome with failed := outcome.failed + 1 }
      replayAll entries outcome

def processAutoReplays : DLQ Outcome := do
  let retriable ← getRetriableEntries policies
  replayAll policies retriable ⟨0, 0, 0⟩

structure ReplayResult where
  success : Bool
  (txHash error : Option String)

def manualReplay (id : String) : DLQ ReplayResult := do
  let entry ← getDLQEntry id
  match entry with
  | none => return ⟨false, none, some "DLQ entry not found"⟩
  | some entry =>
    (do
      let txHash ← replay policies id entry.request
      return ⟨true, some txHash, none⟩ : DLQ ReplayResult).tryCatch fun message => return ⟨false, none, some message⟩

def force (id : String) (mark : String → DLQ Unit) : DLQ Bool := do
  let entry ← getDLQEntry id
  match entry with
  | none => return false
  | some _ => do
    mark id
    return true

def archiveEntry (id : String) : DLQ Bool := force id markAsArchived

def discardEntry (id : String) : DLQ Bool := force id markAsDiscarded

end

/-! ### Calls -/

inductive Call where
  | processAutoReplays
  | manualReplay (id : String)
  | archiveEntry (id : String)
  | discardEntry (id : String)

def Call.body (policies : List RetryPolicy) : Call → DLQ Unit
  | .processAutoReplays => do
    let _ ← DeadLetters.processAutoReplays policies
    return ()
  | .manualReplay id => do
    let _ ← DeadLetters.manualReplay policies id
    return ()
  | .archiveEntry id => do
    let _ ← DeadLetters.archiveEntry id
    return ()
  | .discardEntry id => do
    let _ ← DeadLetters.discardEntry id
    return ()

inductive Event where
  | passes (ms : Nat)
  | expires (id : String)

def system (policies : List RetryPolicy) : System dlqSignature World where
  Choice := Choice
  Event := Event
  Call := Call
  perform := perform
  drift := fun e w => match e with
    | .passes ms => { w with clock := w.clock + ms }
    | .expires id => { w with entries := Function.update w.entries id none }
  arrive := fun _ w => some w
  body := Call.body policies

abbrev DLQPool := Pool dlqSignature World

abbrev DLQTrace := List (Entry dlqSignature)

/-! ### The way of a call through the replays it makes: marked, replayed, and marked as replayed

Where it is, is what its own operations have made of it (`stage`). -/

/-- How far a retry has come. -/
inductive Phase where
  | idle
  /-- The entry is marked as retrying, and not replayed yet. -/
  | marked (id : String)
  /-- A replay has succeeded, and this still to be marked. -/
  | succeeded (id : String)
  deriving DecidableEq

def turn : (o : Op) → dlqSignature.Result o → Option Phase
  | .set id _ entry, .ok _ => some (if entry.status = .retrying then .marked id else .idle)
  | .set .., .error _ => some .idle
  | .replay id _, .ok _ => some (.succeeded id)
  | .replay .., .error _ => some .idle
  | .get _, .ok none => some .idle
  | .get _, .error _ => some .idle
  | _, _ => none

def stage (i : Nat) (tr : DLQTrace) : Phase :=
  (tr.findSome? fun e => if e.runner = i then turn e.op e.result else none).getD .idle

namespace Phase

def Replays (φ : Phase) (id : String) : Prop := φ = .marked id ∨ φ = .succeeded id

instance (φ : Phase) (id : String) : Decidable (φ.Replays id) :=
  inferInstanceAs (Decidable (φ = .marked id ∨ φ = .succeeded id))

def next (φ : Phase) (o : Op) (r : dlqSignature.Result o) : Phase := (turn o r).getD φ

def Allows : Phase → Op → Prop
  | .idle, .zrange => True
  | .idle, .get _ => True
  | .idle, .now => True
  | .idle, .replay .. => True
  | .idle, .set _ _ entry => entry.status = .retrying ∨ entry.status = .archived ∨ entry.status = .discarded
  | .marked id, .replay id' _ => id' = id
  | .succeeded id, .get id' => id' = id
  | .succeeded id, .set id' _ entry => id' = id ∧ entry.status = .replayed
  | _, _ => False

end Phase

theorem stage_cons (j i : Nat) (o : Op) (r : dlqSignature.Result o) (tr : DLQTrace) :
    stage j (⟨i, o, r⟩ :: tr) = if i = j then (stage j tr).next o r else stage j tr := by
  simp only [stage, Phase.next, List.findSome?_cons]
  by_cases hij : i = j
  · simp only [hij, if_true]
    cases turn o r with
    | none => rfl
    | some φ => rfl
  · simp only [hij, if_false]

theorem idle_replays (id : String) : ¬Phase.Replays .idle id := by rintro (h | h) <;> cases h

def replaying : Protocol dlqSignature Phase where
  Allowed := Phase.Allows
  Moves := fun φ o r φ' => φ' = φ.next o r
  Ends := fun φ => φ = .idle

section
variable {policies : List RetryPolicy} {id : String} {φ : Phase}

theorem follows_op {o : Op} {Q : Except String o.Reply → Phase → Prop} (ha : φ.Allows o)
    (hm : ∀ r, Q r (φ.next o r)) : Follows replaying φ (op o) Q := by
  apply follows_perform ha
  rintro r φ' rfl
  exact hm r

theorem follows_getDLQEntry {Q : Except String (Option DeadLetterEntry) → Phase → Prop} (ha : φ.Allows (.get id))
    (hnone : Q (.ok none) .idle) (hsome : ∀ entry, Q (.ok (some entry)) φ) : Follows replaying φ (getDLQEntry id) Q := by
  apply follows_tryCatch
  refine follows_op ha ?_
  intro r
  cases r with
  | error message => exact hnone
  | ok found =>
    cases found with
    | none => exact hnone
    | some entry => exact hsome entry

theorem follows_retriableOf (now : Int) (ids : List String) :
    Follows replaying .idle (retriableOf policies now ids) fun _ φ' => φ' = .idle := by
  induction ids with
  | nil => rfl
  | cons id ids ih =>
    have hrest : ∀ found : Option DeadLetterEntry, Follows replaying .idle (do
        let retriable ← retriableOf policies now ids
        return (found.filter fun e => e.isRetriable policies now).toList ++ retriable) fun _ φ' => φ' = .idle := by
      intro found
      exact follows_bind (follows_mono ih (forall_except (fun _ _ rfl => rfl) fun _ _ rfl => rfl))
    exact follows_bind (follows_getDLQEntry trivial (hrest none) fun entry => hrest (some entry))

theorem follows_getRetriableEntries : Follows replaying .idle (getRetriableEntries policies) fun _ φ' => φ' = .idle := by
  exact follows_bind (follows_op trivial
    (forall_except (fun _ => rfl) fun ids => follows_bind (follows_op trivial (forall_except (fun _ => rfl) fun now => follows_retriableOf now ids))))

theorem follows_markAs {change : DeadLetterEntry → DLQ DeadLetterEntry} {Q : Except String Unit → Phase → Prop}
    (ha : φ.Allows (.get id)) (hnone : Q (.ok ()) .idle)
    (hchange : ∀ entry, Follows replaying φ (change entry) fun r φ' =>
      match r with
      | .error message => Q (.error message) φ'
      | .ok changed => φ'.Allows (.set id entry changed) ∧ ∀ r, Q r (φ'.next (.set id entry changed) r)) :
    Follows replaying φ (markAs id change) Q := by
  refine follows_bind (follows_getDLQEntry ha hnone ?_)
  intro entry
  exact follows_bind (follows_mono (hchange entry) (forall_except (fun _ _ hr => hr) fun _ _ hr => follows_op hr.1 hr.2))

theorem follows_scheduled (entry : DeadLetterEntry) :
    Follows replaying .idle (scheduled policies entry) fun r φ' =>
      φ' = .idle ∧ ∀ changed, r = .ok changed → changed.status = entry.status := by
  simp only [scheduled]
  split
  · exact ⟨rfl, by rintro changed h; cases h; rfl⟩
  · split
    · exact follows_bind (follows_op trivial
        (forall_except (fun _ => ⟨rfl, nofun⟩) fun _ => ⟨rfl, by rintro changed h; cases h; rfl⟩))
    · exact ⟨rfl, by rintro changed h; cases h; rfl⟩

theorem follows_markAsRetrying : Follows replaying .idle (markAsRetrying policies id) fun r φ' =>
    φ' = .idle ∨ φ' = .marked id ∧ r = .ok () := by
  refine follows_markAs trivial (.inl rfl) ?_
  intro entry
  refine follows_bind (follows_op trivial (forall_except (fun _ => .inl rfl) fun now => ?_))
  refine follows_mono (follows_scheduled (entry.retrying now)) ?_
  rintro r _ ⟨rfl, hstat⟩
  cases r with
  | error message => exact .inl rfl
  | ok changed =>
    have hretry : changed.status = .retrying := hstat changed rfl
    refine ⟨.inl hretry, fun r => ?_⟩
    cases r with
    | error message => exact .inl rfl
    | ok a =>
      refine .inr ⟨?_, rfl⟩
      simp only [Phase.next, turn, if_pos hretry, Option.getD_some]

theorem follows_markAsReplayed (txHash : String) :
    Follows replaying (.succeeded id) (markAsReplayed id txHash) fun _ φ' => φ' = .idle := by
  refine follows_markAs rfl rfl fun entry => ⟨⟨rfl, rfl⟩, fun r => ?_⟩
  cases r with
  | error message => rfl
  | ok a => rfl

theorem follows_replay (request : String) :
    Follows replaying .idle (replay policies id request) fun _ φ' => φ' = .idle := by
  refine follows_bind (follows_mono follows_markAsRetrying ?_)
  intro r φ' hr
  have hreplay : ∀ ψ : Phase, ψ.Allows (.replay id request) → Follows replaying ψ (do
      let txHash ← op (.replay id request)
      markAsReplayed id txHash
      return txHash) fun _ φ' => φ' = .idle := by
    intro ψ hψ
    refine follows_bind (follows_op hψ (forall_except (fun _ => rfl) fun txHash => ?_))
    refine follows_bind (follows_mono (follows_markAsReplayed txHash) ?_)
    rintro r _ rfl
    cases r <;> rfl
  rcases hr with rfl | ⟨rfl, rfl⟩
  · cases r with
    | error message => rfl
    | ok a => exact hreplay .idle trivial
  · exact hreplay (.marked id) rfl

theorem follows_replayAll (entries : List DeadLetterEntry) (outcome : Outcome) :
    Follows replaying .idle (replayAll policies entries outcome) fun _ φ' => φ' = .idle := by
  induction entries generalizing outcome with
  | nil => rfl
  | cons entry entries ih =>
    simp only [replayAll]
    split
    · exact ih _
    · refine follows_bind (follows_tryCatch (follows_bind (follows_mono (follows_replay entry.request) ?_)))
      rintro r _ rfl
      cases r with
      | error message => exact ih _
      | ok txHash => exact ih _

theorem follows_processAutoReplays : Follows replaying .idle (processAutoReplays policies) fun _ φ' => φ' = .idle := by
  refine follows_bind (follows_mono follows_getRetriableEntries ?_)
  rintro r _ rfl
  cases r with
  | error message => rfl
  | ok retriable => exact follows_replayAll retriable ⟨0, 0, 0⟩

theorem follows_manualReplay : Follows replaying .idle (manualReplay policies id) fun _ φ' => φ' = .idle := by
  refine follows_bind (follows_getDLQEntry trivial rfl ?_)
  intro entry
  refine follows_tryCatch (follows_bind (follows_mono (follows_replay entry.request) ?_))
  rintro r _ rfl
  cases r <;> rfl

theorem follows_force {mark : String → DLQ Unit} (hmark : Follows replaying .idle (mark id) fun _ φ' => φ' = .idle) :
    Follows replaying .idle (force id mark) fun _ φ' => φ' = .idle := by
  refine follows_bind (follows_getDLQEntry trivial rfl ?_)
  intro entry
  refine follows_bind (follows_mono hmark ?_)
  rintro r _ rfl
  cases r <;> rfl

theorem follows_markAsArchived : Follows replaying .idle (markAsArchived id) fun _ φ' => φ' = .idle := by
  refine follows_markAs trivial rfl fun entry => ⟨.inr (.inl rfl), fun r => ?_⟩
  cases r <;> rfl

theorem follows_markAsDiscarded : Follows replaying .idle (markAsDiscarded id) fun _ φ' => φ' = .idle := by
  refine follows_markAs trivial rfl fun entry => ⟨.inr (.inr rfl), fun r => ?_⟩
  cases r <;> rfl

theorem follows_returned {α : Type} {p : DLQ α} (h : Follows replaying .idle p fun _ φ' => φ' = .idle) :
    Follows replaying .idle (do let _ ← p; return ()) fun _ φ' => φ' = .idle := by
  refine follows_bind (follows_mono h ?_)
  rintro r _ rfl
  cases r <;> rfl

theorem follows_body (call : Call) : Follows replaying .idle (call.body policies) fun _ φ' => replaying.Ends φ' := by
  cases call with
  | processAutoReplays => exact follows_returned follows_processAutoReplays
  | manualReplay id => exact follows_returned follows_manualReplay
  | archiveEntry id => exact follows_returned (follows_force follows_markAsArchived)
  | discardEntry id => exact follows_returned (follows_force follows_markAsDiscarded)

end

end Delego.DeadLetters
