import Delego.Data.Calendar
import Delego.Data.Json
import Delego.Data.Table
import Delego.Process.Stepping

/-! Scheduled notifications, and the two stores that hold them.

The store in memory works step by step between its awaits, the store in Postgres statement by statement; a statement may
fail with nothing done. Rows that another statement has locked are skipped by a claim. The clock advances on its own. -/
namespace Delego.Scheduler
open Delego.Data Delego.Process

inductive Status where
  | pending | cancelled | dispatched | failed
  deriving DecidableEq

/-- Times are milliseconds, where the source has their texts. -/
structure ScheduledNotification where
  (id userId templateName : String)
  payload : Json
  runAt : Int
  (cronExpression timezone : Option String)
  endAt : Option Int
  maxRuns : Option Nat
  runCount : Nat
  status : Status
  (createdAt updatedAt : Int)
  lastDispatchedAt : Option Int

/-- A record, and the columns of its claim in Postgres. -/
structure Row where
  record : ScheduledNotification
  claimedBy : Option String
  claimExpiresAt : Option Int

def Row.id (row : Row) : String := row.record.id

/-- Who has claimed a record, and until when. -/
structure Claim where
  (id token : String)
  expiresAt : Int

/-- In Postgres the token of a claim is when its lease expires. -/
inductive ClaimToken where
  | claim (text : String)
  | lease (expiresAt : Int)
  deriving DecidableEq

def ClaimToken.text : ClaimToken → String
  | .claim text => text
  | .lease expiresAt => String.ofList (isoChars expiresAt)

structure ClaimedScheduledNotification where
  record : ScheduledNotification
  claimToken : ClaimToken

structure World where
  clock : Int
  rows : List Row
  claims : List Claim
  idCounter : Nat

inductive Op where
  | now
  | dispatch (notification : ScheduledNotification)
  -- in Postgres
  | claimRows (claimedBy : String) (leaseExpiresAt asOf : Int) (batchSize : Nat)
  | selectClaimed (id : String) (claimToken : ClaimToken)
  | releaseRow (id : String)
  | completeRow (id : String) (nextRunAt : Option Int)
  | cancelRow (id : String)
  | selectRow (id : String)
  -- in memory
  | findDue (asOf : Int)
  | claimFound (due : List String) (batchSize : Nat) (now leaseMs : Int)
  | releaseClaim (id : String) (claimToken : ClaimToken)
  | complete (id : String) (claimToken : ClaimToken) (nextRunAt : Option Int)
  | cancel (id : String)

@[reducible] def Op.Reply : Op → Type
  | .now => Int
  | .dispatch _ => Unit
  | .claimRows _ _ _ _ => List ScheduledNotification
  | .selectClaimed _ _ => Nat
  | .releaseRow _ => Unit
  | .completeRow _ _ => Option ScheduledNotification
  | .cancelRow _ => Option ScheduledNotification
  | .selectRow _ => Option ScheduledNotification
  | .findDue _ => List String
  | .claimFound _ _ _ _ => List ClaimedScheduledNotification
  | .releaseClaim _ _ => Unit
  | .complete _ _ _ => Option ScheduledNotification
  | .cancel _ => Option ScheduledNotification

@[reducible] def scheduleSignature : Signature := ⟨Op, Op.Reply, String⟩

abbrev ScheduleM (α : Type) := Program scheduleSignature α

def schedule (o : Op) : ScheduleM o.Reply := Program.perform (S := scheduleSignature) o

/-- What the environment decides: whether a statement fails, what a dispatch does, the rows that are locked, and the random
parts of tokens. -/
structure Choice where
  failure : Option String
  dispatched : Except String Unit
  locked : List String
  random : Nat → String

def ScheduledNotification.completed (now : Int) (nextRunAt : Option Int) (record : ScheduledNotification) :
    ScheduledNotification :=
  let record := { record with lastDispatchedAt := some now, updatedAt := now, runCount := record.runCount + 1 }
  match nextRunAt with
  | some runAt => { record with runAt := runAt, status := .pending }
  | none => { record with status := .dispatched }

def ScheduledNotification.cancelled (now : Int) (record : ScheduledNotification) : ScheduledNotification :=
  if record.status = .pending then { record with status := .cancelled, updatedAt := now } else record

def ScheduledNotification.isDue (asOf : Int) (record : ScheduledNotification) : Bool :=
  decide (record.status = .pending ∧ record.runAt ≤ asOf)

def Row.completed (now : Int) (nextRunAt : Option Int) (row : Row) : Row := ⟨row.record.completed now nextRunAt, none, none⟩

def Row.cancelled (now : Int) (row : Row) : Row := { row with record := row.record.cancelled now }

def Row.released (now : Int) (row : Row) : Row := ⟨{ row.record with updatedAt := now }, none, none⟩

def Row.claimed (now : Int) (claimedBy : String) (leaseExpiresAt : Int) (row : Row) : Row :=
  ⟨{ row.record with updatedAt := now }, some claimedBy, some leaseExpiresAt⟩

def recordOf (w : World) (id : String) : Option ScheduledNotification := (lookup Row.id w.rows id).map Row.record

def updateRow (w : World) (id : String) (f : Row → Row) : World := { w with rows := update Row.id w.rows id f }

def runsBefore (row row' : Row) : Prop := row.record.runAt ≤ row'.record.runAt

instance : DecidableRel runsBefore := fun row row' => inferInstanceAs (Decidable (row.record.runAt ≤ row'.record.runAt))

def pickedRows (w : World) (locked : List String) (asOf : Int) (batchSize : Nat) : List String :=
  ((w.rows.filter fun row => row.record.isDue asOf && row.claimExpiresAt.all (fun expiresAt => decide (expiresAt ≤ w.clock)) &&
    !locked.contains row.id).insertionSort runsBefore |>.take batchSize).map Row.id

def Row.picked (w : World) (ids : List String) (claimedBy : String) (leaseExpiresAt : Int) (row : Row) : Row :=
  if ids.contains row.id then row.claimed w.clock claimedBy leaseExpiresAt else row

def claimRows (w : World) (locked : List String) (claimedBy : String) (leaseExpiresAt asOf : Int) (batchSize : Nat) :
    List ScheduledNotification × World :=
  let ids := pickedRows w locked asOf batchSize
  let rows := w.rows.map (.picked w ids claimedBy leaseExpiresAt)
  ((rows.filter fun row => ids.contains row.id).map Row.record, { w with rows := rows })

def selectClaimed (w : World) (id : String) (claimToken : ClaimToken) : Nat :=
  w.rows.countP fun row => decide (row.id = id) && row.claimExpiresAt.any fun expiresAt =>
    decide (ClaimToken.lease expiresAt = claimToken ∧ w.clock < expiresAt)

def cancelRow (w : World) (id : String) : Option ScheduledNotification × World :=
  match recordOf w id with
  | some record =>
    if record.status = .pending then (some (record.cancelled w.clock), updateRow w id (.cancelled w.clock)) else (none, w)
  | none => (none, w)

/-! ### In memory -/

def isClaimed (claims : List Claim) (id : String) (now : Int) : Bool :=
  (lookup Claim.id claims id).any fun claim => decide (now < claim.expiresAt)

def claimText (clock : Int) (idCounter : Nat) (random : String) : String :=
  "claim-" ++ toString clock ++ "-" ++ toString idCounter ++ "-" ++ random

def claimFound (w : World) (random : Nat → String) (now leaseMs : Int) :
    List String → Nat → List ClaimedScheduledNotification → World → List ClaimedScheduledNotification × World
  | [], _, claimed, w' => (claimed, w')
  | id :: due, batchSize, claimed, w' =>
    if batchSize ≤ claimed.length then (claimed, w')
    else match recordOf w id with
      | none => claimFound w random now leaseMs due batchSize claimed w'
      | some record =>
        if isClaimed w'.claims id now then claimFound w random now leaseMs due batchSize claimed w'
        else
          let token := claimText w.clock (w'.idCounter + 1) (random (w'.idCounter + 1))
          claimFound w random now leaseMs due batchSize (claimed ++ [⟨record, .claim token⟩])
            { w' with claims := put Claim.id w'.claims ⟨id, token, now + leaseMs⟩, idCounter := w'.idCounter + 1 }

def noActiveClaim (claimToken : ClaimToken) (id : String) : String :=
  "No active claim " ++ claimToken.text ++ " for scheduled notification " ++ id

/-- The claim is the one of the token, expired or not. -/
def holdsClaim (w : World) (id : String) (claimToken : ClaimToken) : Bool :=
  (lookup Claim.id w.claims id).any fun claim => decide (ClaimToken.claim claim.token = claimToken)

def deleteClaim (w : World) (id : String) : World :=
  { w with claims := w.claims.filter fun claim => decide (claim.id ≠ id) }

def answer (ch : Choice) (w : World) : (o : Op) → Except String o.Reply × World
  | .now => (.ok w.clock, w)
  | .dispatch _ => (ch.dispatched, w)
  | .claimRows claimedBy leaseExpiresAt asOf batchSize =>
    let (records, w') := claimRows w ch.locked claimedBy leaseExpiresAt asOf batchSize
    (.ok records, w')
  | .selectClaimed id claimToken => (.ok (selectClaimed w id claimToken), w)
  | .releaseRow id => (.ok (), updateRow w id (.released w.clock))
  | .completeRow id nextRunAt =>
    (.ok ((recordOf w id).map (.completed w.clock nextRunAt)), updateRow w id (.completed w.clock nextRunAt))
  | .cancelRow id =>
    let (record, w') := cancelRow w id
    (.ok record, w')
  | .selectRow id => (.ok (recordOf w id), w)
  | .findDue asOf => (.ok ((w.rows.filter fun row => row.record.isDue asOf).map Row.id), w)
  | .claimFound due batchSize now leaseMs =>
    let (claimed, w') := claimFound w ch.random now leaseMs due batchSize [] w
    (.ok claimed, w')
  | .releaseClaim id claimToken =>
    if holdsClaim w id claimToken then (.ok (), deleteClaim w id) else (.error (noActiveClaim claimToken id), w)
  | .complete id claimToken nextRunAt =>
    if holdsClaim w id claimToken then
      match recordOf w id with
      | none => (.ok none, w)
      | some record =>
        (.ok (some (record.completed w.clock nextRunAt)),
          deleteClaim (updateRow w id fun row => { row with record := row.record.completed w.clock nextRunAt }) id)
    else (.error (noActiveClaim claimToken id), w)
  | .cancel id => (.ok ((recordOf w id).map (.cancelled w.clock)), updateRow w id (.cancelled w.clock))

def Op.isStatement : Op → Bool
  | .claimRows _ _ _ _ => true
  | .selectClaimed _ _ => true
  | .releaseRow _ => true
  | .completeRow _ _ => true
  | .cancelRow _ => true
  | .selectRow _ => true
  | _ => false

def perform (o : Op) (ch : Choice) (w : World) : Except String o.Reply × World :=
  match ch.failure with
  | some message => if o.isStatement then (.error message, w) else answer ch w o
  | none => answer ch w o

inductive Store where
  | inMemory | postgres

def Store.claimDue (asOf : Int) (batchSize : Nat) (claimedBy : String) (leaseMs : Int) :
    Store → ScheduleM (List ClaimedScheduledNotification)
  | .inMemory => do
    let now ← schedule .now
    let due ← schedule (.findDue asOf)
    schedule (.claimFound due batchSize now leaseMs)
  | .postgres => do
    let now ← schedule .now
    let leaseExpiresAt := now + leaseMs
    let rows ← schedule (.claimRows claimedBy leaseExpiresAt asOf batchSize)
    return rows.map fun record => ⟨record, .lease leaseExpiresAt⟩

def assertClaimed (id : String) (claimToken : ClaimToken) : ScheduleM Unit := do
  let rows ← schedule (.selectClaimed id claimToken)
  if rows = 0 then .fail (noActiveClaim claimToken id) else return ()

def Store.releaseClaim (id : String) (claimToken : ClaimToken) : Store → ScheduleM Unit
  | .inMemory => schedule (.releaseClaim id claimToken)
  | .postgres => do
    assertClaimed id claimToken
    schedule (.releaseRow id)

def Store.markDispatchedAndReschedule (id : String) (claimToken : ClaimToken) (nextRunAt : Option Int) :
    Store → ScheduleM (Option ScheduledNotification)
  | .inMemory => schedule (.complete id claimToken nextRunAt)
  | .postgres => do
    assertClaimed id claimToken
    schedule (.completeRow id nextRunAt)

def Store.cancel (id : String) : Store → ScheduleM (Option ScheduledNotification)
  | .inMemory => schedule (.cancel id)
  | .postgres => do
    match ← schedule (.cancelRow id) with
    | some record => return some record
    | none => schedule (.selectRow id)

/-- The scheduler's setting: `getNextCronOccurrenceInTimezone`, and the process that claims. -/
structure Setting where
  nextCronOccurrence : String → String → Int → Except String Int
  pid : Nat

structure Options where
  batchSize : Option Nat
  claimedBy : Option String
  claimLeaseMs : Option Int

inductive Outcome where
  | dispatched | failed | rescheduled

structure Processed where
  (dispatched failed rescheduled : Nat)

def computeNextRunAt (setting : Setting) (notification : ScheduledNotification) (asOf : Int) : Except String (Option Int) :=
  match notification.cronExpression.filter fun text => text ≠ "" with
  | none => .ok none
  | some cronExpression =>
    if notification.maxRuns.any fun maxRuns => decide (maxRuns ≤ notification.runCount + 1) then .ok none
    else match setting.nextCronOccurrence cronExpression (notification.timezone.getD "UTC") asOf with
      | .error message => .error message
      | .ok next => if notification.endAt.any fun endAt => decide (endAt ≤ next) then .ok none else .ok (some next)

def dispatchClaimed (setting : Setting) (store : Store) (claimed : ClaimedScheduledNotification) (asOf : Int) :
    ScheduleM Outcome :=
  Program.tryCatch (do
    schedule (.dispatch claimed.record)
    match computeNextRunAt setting claimed.record asOf with
    | .error message => .fail message
    | .ok nextRunAt => do
      let _ ← store.markDispatchedAndReschedule claimed.record.id claimed.claimToken nextRunAt
      return if nextRunAt.isSome then .rescheduled else .dispatched)
    fun _ => do
      -- whatever becomes of the release
      let _ ← (store.releaseClaim claimed.record.id claimed.claimToken).attempt
      return .failed

def Processed.counting (processed : Processed) : Outcome → Processed
  | .dispatched => { processed with dispatched := processed.dispatched + 1 }
  | .rescheduled => { processed with dispatched := processed.dispatched + 1, rescheduled := processed.rescheduled + 1 }
  | .failed => { processed with failed := processed.failed + 1 }

def dispatchAll (setting : Setting) (store : Store) (asOf : Int) :
    List ClaimedScheduledNotification → Processed → ScheduleM Processed
  | [], processed => return processed
  | claimed :: rest, processed => do
    let outcome ← dispatchClaimed setting store claimed asOf
    dispatchAll setting store asOf rest (processed.counting outcome)

def processDueNotifications (setting : Setting) (store : Store) (asOf : Int) (options : Options) : ScheduleM Processed := do
  let claimedBatch ← store.claimDue asOf (options.batchSize.getD 50)
    (options.claimedBy.getD ("scheduler-" ++ toString setting.pid)) (options.claimLeaseMs.getD 60000)
  dispatchAll setting store asOf claimedBatch ⟨0, 0, 0⟩

/-! ### Calls -/

inductive Call where
  | processDueNotifications (asOf : Option Int) (options : Options)
  | cancelScheduledNotification (id : String)

def Call.body (setting : Setting) (store : Store) : Call → ScheduleM Unit
  | .processDueNotifications (some asOf) options => do
    let _ ← Scheduler.processDueNotifications setting store asOf options
    return ()
  | .processDueNotifications none options => do
    let asOf ← schedule .now
    let _ ← Scheduler.processDueNotifications setting store asOf options
    return ()
  | .cancelScheduledNotification id => do
    let _ ← store.cancel id
    return ()

def system (setting : Setting) (store : Store) : System scheduleSignature World where
  Choice := Choice
  Event := Nat
  Call := Call
  perform := perform
  drift := fun elapsed w => { w with clock := w.clock + elapsed }
  arrive := fun _ w => some w
  body := Call.body setting store

/-! ### What a run of the scheduler does in turn: it finds what is due, claims it, and dispatches and completes one record after another -/

/-- How far a run has come: in memory it has found what is due; and of what it has claimed, what it has dispatched and not
completed, and what it has still to dispatch. -/
inductive Phase where
  | idle
  | found (asOf : Int) (due : List String)
  | working (asOf : Int) (owing : Option ScheduledNotification) (todo : List ScheduledNotification)

def Phase.todo : Phase → List ScheduledNotification
  | .working _ _ todo => todo
  | _ => []

def Phase.held : Phase → List ScheduledNotification
  | .working _ owing todo => owing.toList ++ todo
  | _ => []

def Phase.Completes (setting : Setting) (φ : Phase) (id : String) (nextRunAt : Option Int) : Prop :=
  ∃ asOf record todo, φ = .working asOf (some record) todo ∧ record.id = id ∧
    computeNextRunAt setting record asOf = .ok nextRunAt

def Phase.Allows (setting : Setting) : Phase → Op → Prop
  | φ, .findDue _ => φ = .idle
  | φ, .claimRows _ _ _ _ => φ = .idle
  | φ, .claimFound due _ _ _ => ∃ asOf, φ = .found asOf due
  | φ, .dispatch record => ∃ asOf owing todo, φ = .working asOf owing (record :: todo)
  | φ, .completeRow id nextRunAt => φ.Completes setting id nextRunAt
  | φ, .complete id _ nextRunAt => φ.Completes setting id nextRunAt
  | _, _ => True

def Phase.dispatched (succeeded : Bool) : Phase → Phase
  | .working asOf _ (record :: todo) => .working asOf (if succeeded then some record else none) todo
  | φ => φ

def Phase.completed : Phase → Phase
  | .working asOf _ todo => .working asOf none todo
  | φ => φ

def Phase.next : Phase → (o : Op) → scheduleSignature.Result o → Phase
  | _, .findDue asOf, .ok due => .found asOf due
  | _, .claimRows _ _ asOf _, .ok records => .working asOf none records
  | .found asOf _, .claimFound _ _ _ _, .ok claimed => .working asOf none (claimed.map ClaimedScheduledNotification.record)
  | _, .claimFound _ _ _ _, _ => .idle
  | φ, .dispatch _, .ok _ => φ.dispatched true
  | φ, .dispatch _, .error _ => φ.dispatched false
  | φ, .completeRow _ _, _ => φ.completed
  | φ, .complete _ _ _, _ => φ.completed
  | φ, _, _ => φ

abbrev dispatching (setting : Setting) : Protocol scheduleSignature Phase := stepping (Phase.Allows setting) Phase.next

def Op.isFree : Op → Prop
  | .now => True
  | .selectClaimed _ _ => True
  | .releaseRow _ => True
  | .cancelRow _ => True
  | .selectRow _ => True
  | .releaseClaim _ _ => True
  | .cancel _ => True
  | _ => False

section
variable {setting : Setting} {store : Store} {α β : Type} {φ : Phase} {asOf : Int} {id : String}
  {record : ScheduledNotification} {todo : List ScheduledNotification}

theorem free_stays (setting : Setting) (φ : Phase) (o : Op) (h : o.isFree) : φ.Allows setting o ∧ ∀ r, φ.next o r = φ := by
  cases o with
  | findDue asOf => exact h.elim
  | claimRows claimedBy leaseExpiresAt asOf batchSize => exact h.elim
  | claimFound due batchSize now leaseMs => exact h.elim
  | dispatch record => exact h.elim
  | completeRow id nextRunAt => exact h.elim
  | complete id claimToken nextRunAt => exact h.elim
  | _ => exact ⟨trivial, fun _ => rfl⟩

theorem follows_free {p : ScheduleM α} {f : α → ScheduleM β} {Q : Except String β → Phase → Prop} (h : p.Only Op.isFree)
    (hfail : ∀ e, Q (.error e) φ) (hf : ∀ a, Follows (dispatching setting) φ (f a) Q) :
    Follows (dispatching setting) φ (p >>= f) Q :=
  follows_stay h (free_stays setting φ) hfail hf

theorem free_schedule {o : Op} (h : o.isFree) : (schedule o).Only Op.isFree := only_perform h

theorem free_assertClaimed (id : String) (claimToken : ClaimToken) : (assertClaimed id claimToken).Only Op.isFree := by
  refine only_bind (free_schedule trivial) fun rows => ?_
  split <;> trivial

theorem free_releaseClaim (id : String) (claimToken : ClaimToken) (store : Store) :
    (store.releaseClaim id claimToken).Only Op.isFree := by
  cases store with
  | inMemory => exact free_schedule trivial
  | postgres => exact only_bind (free_assertClaimed id claimToken) fun _ => free_schedule trivial

theorem free_cancel (id : String) (store : Store) : (store.cancel id).Only Op.isFree := by
  cases store with
  | inMemory => exact free_schedule trivial
  | postgres =>
    refine only_bind (free_schedule trivial) fun record => ?_
    cases record with
    | none => exact free_schedule trivial
    | some record => trivial

def Leaves (asOf : Int) (todo : List ScheduledNotification) (φ : Phase) : Prop := ∃ owing, φ = .working asOf owing todo

theorem follows_mark {nextRunAt : Option Int} (claimToken : ClaimToken) (store : Store)
    (h : computeNextRunAt setting record asOf = .ok nextRunAt) :
    Follows (dispatching setting) (.working asOf (some record) todo)
      (store.markDispatchedAndReschedule record.id claimToken nextRunAt) fun _ φ' => Leaves asOf todo φ' := by
  cases store with
  | inMemory =>
    refine follows_perform ⟨asOf, record, todo, rfl, rfl, h⟩ ?_
    rintro r φ' rfl
    exact ⟨none, rfl⟩
  | postgres =>
    refine follows_free (free_assertClaimed record.id claimToken) (fun e => ⟨some record, rfl⟩) fun _ => ?_
    refine follows_perform ⟨asOf, record, todo, rfl, rfl, h⟩ ?_
    rintro r φ' rfl
    exact ⟨none, rfl⟩

theorem follows_dispatchClaimed (owing : Option ScheduledNotification) (claimed : ClaimedScheduledNotification)
    (store : Store) (todo : List ScheduledNotification) :
    Follows (dispatching setting) (.working asOf owing (claimed.record :: todo)) (dispatchClaimed setting store claimed asOf)
      fun r φ' => ∀ a, r = .ok a → Leaves asOf todo φ' := by
  have hrels : ∀ φ, Leaves asOf todo φ → Follows (dispatching setting) φ
      ((store.releaseClaim claimed.record.id claimed.claimToken).attempt >>= fun _ => Program.ret Outcome.failed)
      fun r φ' => ∀ a, r = .ok a → Leaves asOf todo φ' := by
    rintro φ h
    exact follows_free (only_attempt (free_releaseClaim _ _ store)) (fun e a he => nomatch he) fun _ a _ => h
  refine follows_tryCatch (follows_mono (Q := fun _ φ' => Leaves asOf todo φ') ?_ fun r φ' h => ?_)
  · refine follows_step ⟨asOf, owing, todo, rfl⟩ (fun e => ⟨none, rfl⟩) fun _ => ?_
    cases hnext : computeNextRunAt setting claimed.record asOf with
    | error message => exact ⟨some claimed.record, rfl⟩
    | ok nextRunAt =>
      refine follows_bind (follows_mono (follows_mark claimed.claimToken store hnext) fun r φ' h => ?_)
      cases r <;> exact h
  · cases r with
    | ok outcome => exact fun _ _ => h
    | error e => exact hrels φ' h

theorem follows_dispatchAll (store : Store) (batch : List ClaimedScheduledNotification) (owing : Option ScheduledNotification)
    (processed : Processed) :
    Follows (dispatching setting) (.working asOf owing (batch.map ClaimedScheduledNotification.record))
      (dispatchAll setting store asOf batch processed) fun _ _ => True := by
  induction batch generalizing owing processed with
  | nil => trivial
  | cons claimed rest ih =>
    refine follows_bind (follows_mono (follows_dispatchClaimed owing claimed store _)
      (forall_except (fun _ _ _ => trivial) fun outcome _ h => ?_))
    obtain ⟨owing', rfl⟩ := h outcome rfl
    exact ih owing' (processed.counting outcome)

theorem follows_processDueNotifications (store : Store) (asOf : Int) (options : Options) :
    Follows (dispatching setting) .idle (processDueNotifications setting store asOf options) fun _ _ => True := by
  unfold processDueNotifications
  refine follows_bind (follows_mono (Q := fun r φ' => ∀ batch, r = .ok batch →
    φ' = .working asOf none (batch.map ClaimedScheduledNotification.record)) ?_ fun r φ' h => ?_)
  · have hfail : ∀ φ e (batch : List ClaimedScheduledNotification), Except.error e = .ok batch →
        φ = Phase.working asOf none (batch.map ClaimedScheduledNotification.record) := fun _ (_ : String) _ h => nomatch h
    cases store with
    | inMemory =>
      refine follows_free (free_schedule trivial) (hfail _) fun now => ?_
      refine follows_step rfl (hfail _) fun due => ?_
      refine follows_perform ⟨asOf, rfl⟩ ?_
      rintro r φ' rfl batch rfl
      rfl
    | postgres =>
      refine follows_free (free_schedule trivial) (hfail _) fun now => ?_
      refine follows_step rfl (hfail _) fun rows batch hbatch => ?_
      cases hbatch
      simp only [Phase.next, List.map_map, Function.comp_def, List.map_id']
  · cases r with
    | error e => trivial
    | ok batch =>
      rw [h batch rfl]
      exact follows_dispatchAll store batch none ⟨0, 0, 0⟩

theorem follows_body (setting : Setting) (store : Store) (c : Call) :
    Follows (dispatching setting) .idle (c.body setting store) fun _ _ => True := by
  have hdiscard : ∀ {α : Type} {p : ScheduleM α}, Follows (dispatching setting) .idle p (fun _ _ => True) →
      Follows (dispatching setting) .idle (p >>= fun _ => Program.ret ()) fun _ _ => True := by
    intro α p h
    refine follows_bind (follows_mono h fun r φ' _ => ?_)
    cases r <;> trivial
  cases c with
  | processDueNotifications asOf options =>
    cases asOf with
    | some asOf => exact hdiscard (follows_processDueNotifications store asOf options)
    | none =>
      refine follows_free (free_schedule trivial) (fun _ => trivial) fun asOf => ?_
      exact hdiscard (follows_processDueNotifications store asOf options)
  | cancelScheduledNotification id => exact follows_free (free_cancel id store) (fun _ => trivial) fun _ => trivial

end

end Delego.Scheduler
