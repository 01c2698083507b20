import Delego.Process.Extend
import Delego.Process.Pool
import Mathlib.Data.List.AList

/-! Sequence numbers of the wallet (`wallet/src/queue/txQueue.ts`: `reserveSequenceBlock`, `getNextSequenceNumber` and what
they use; `sequenceMonitoring.ts`).

A transaction carries the number after the one its builder is given. Numbers come from blocks reserved in advance, each
with a cursor, or, where no block has one left, from the ledger and a cached number. Blocks are computed from those still
reserved, under a lock of five seconds.

Redis holds the lock, the list and the cached number of an account, and the cursor of a lease, each for its time to live.
Every command, and every look at the ledger, is one operation. -/
namespace Delego.Wallet
open Delego.Process Function

/-- A block of sequence numbers, leased for a time. -/
structure SequenceReservation where
  account : String
  (firstSequence lastSequence size : Int)
  leaseId : Nat
  expiresAt : Int
  deriving DecidableEq

/-- An error as it is thrown: with the status of an HTTP answer, or not to be retried. -/
structure WalletError where
  message : String
  status : Option Nat := none
  unrecoverable : Bool := false

inductive AuditAction where
  | reserve | consume | expire
  deriving DecidableEq

inductive Monitor where
  | audit (account : String) (action : AuditAction) (leaseId : Option Nat) (sequence : Option Int) (details : String)
  | lockAcquired (account holder : String)
  | lockReleased (account : String)
  | contention (account : String)
  | gap (account : String) (expected actual : Int)
  deriving DecidableEq

/-! ### Operations -/

inductive SeqOp where
  /-- `SET seq:lock:<account> locked PX 5000 NX` -/
  | setLock (account : String)
  | delLock (account : String)
  | sleep (ms : Nat)
  | loadAccount (account : String)
  | lrange (account : String)
  | lrem (account : String) (reservation : SequenceReservation)
  | rpush (account : String) (reservation : SequenceReservation)
  | expire (account : String) (seconds : Int)
  | delList (account : String)
  | getCursor (leaseId : Nat)
  | setCursor (leaseId : Nat) (cursor px : Int)
  /-- `KEYS seq:res:*:cursor` -/
  | cursorKeys
  | delCursors (leaseIds : List Nat)
  | getCached (account : String)
  /-- `SET seq:<account> <sequence> EX 60` -/
  | setCached (account : String) (sequence : Int)
  | delCached (account : String)
  /-- `Date.now()` -/
  | now
  | generateLeaseId
  | monitor (entry : Monitor)
  | asked (account : String)
  /-- A number is handed out, from a lease or not. -/
  | answer (account : String) (sequence : Int) (leaseId : Option Nat)
  deriving DecidableEq

@[reducible] def SeqOp.Reply : SeqOp → Type
  | .setLock _ => Bool
  | .loadAccount _ => Int
  | .lrange _ => List SequenceReservation
  | .getCursor _ => Option Int
  | .cursorKeys => List Nat
  | .getCached _ => Option Int
  | .now => Int
  | .generateLeaseId => Nat
  | _ => Unit

@[reducible] def sequenceSignature : Signature := ⟨SeqOp, SeqOp.Reply, WalletError⟩

abbrev SequenceM := Program sequenceSignature

def seq (o : SeqOp) : SequenceM o.Reply := Program.perform (S := sequenceSignature) o

abbrev Cursors := AList fun _ : Nat => Int × Int

structure SequenceState where
  clock : Int
  ledger : String → Int
  locks : String → Option Int
  lists : String → List SequenceReservation
  /-- When the list goes, if it has a time to live. -/
  listUntil : String → Option Int
  cursors : Cursors
  cached : String → Option (Int × Int)
  drawn : Nat
  /-- Every reservation that was ever stored, the latest first. -/
  made : List SequenceReservation

namespace SequenceState
variable (w : SequenceState)

def lapsed (ends : Option Int) : Bool := ends.any fun t => decide (t ≤ w.clock)

def list (account : String) : List SequenceReservation :=
  if w.lapsed (w.listUntil account) then [] else w.lists account

def deadline (account : String) : Option Int :=
  if w.lapsed (w.listUntil account) then none else w.listUntil account

def cursor (leaseId : Nat) : Option Int :=
  ((w.cursors.lookup leaseId).filter fun entry => decide (w.clock < entry.2)).map Prod.fst

def cursorKeys : List Nat := w.cursors.keys.filter fun leaseId => (w.cursor leaseId).isSome

def delCursors (leaseIds : List Nat) : SequenceState :=
  { w with cursors := leaseIds.foldl (fun cursors leaseId => cursors.erase leaseId) w.cursors }

def cachedSequence (account : String) : Option Int :=
  ((w.cached account).filter fun entry => decide (w.clock < entry.2)).map Prod.fst

def locked (account : String) : Bool := (w.locks account).any fun t => decide (w.clock < t)

def setList (account : String) (reservations : List SequenceReservation) (ends : Option Int) : SequenceState :=
  { w with
    lists := update w.lists account reservations
    listUntil := update w.listUntil account (if reservations.isEmpty then none else ends) }

end SequenceState

def SequenceState.empty (ledger : String → Int) : SequenceState where
  clock := 0
  ledger := ledger
  locks := fun _ => none
  lists := fun _ => []
  listUntil := fun _ => none
  cursors := ∅
  cached := fun _ => none
  drawn := 0
  made := []

/-- What the environment decides about an operation. -/
structure SeqChoice where
  fate : Fate := .done
  status : Option Nat := none

def answerSeq (o : SeqOp) (w : SequenceState) : o.Reply × SequenceState :=
  match o with
  | .setLock account =>
    if w.locked account then (false, w)
    else (true, { w with locks := update w.locks account (some (w.clock + 5000)) })
  | .delLock account => ((), { w with locks := update w.locks account none })
  | .sleep _ => ((), w)
  | .loadAccount account => (w.ledger account, w)
  | .lrange account => (w.list account, w)
  | .lrem account reservation =>
    ((), w.setList account ((w.list account).filter fun r => decide (r ≠ reservation)) (w.deadline account))
  | .rpush account reservation =>
    ((), { w.setList account (w.list account ++ [reservation]) (w.deadline account) with
      made := reservation :: w.made })
  | .expire account seconds =>
    if (w.list account).isEmpty then ((), w)
    else ((), w.setList account (w.list account) (some (w.clock + 1000 * seconds)))
  | .delList account => ((), w.setList account [] none)
  | .getCursor leaseId => (w.cursor leaseId, w)
  | .setCursor leaseId cursor px => ((), { w with cursors := w.cursors.insert leaseId (cursor, w.clock + px) })
  | .cursorKeys => (w.cursorKeys, w)
  | .delCursors leaseIds => ((), w.delCursors leaseIds)
  | .getCached account => (w.cachedSequence account, w)
  | .setCached account sequence =>
    ((), { w with cached := update w.cached account (some (sequence, w.clock + 60000)) })
  | .delCached account => ((), { w with cached := update w.cached account none })
  | .now => (w.clock, w)
  | .generateLeaseId => (w.drawn, { w with drawn := w.drawn + 1 })
  | .monitor _ => ((), w)
  | .asked _ => ((), w)
  | .answer _ _ _ => ((), w)

/-- What an operation leaves. -/
structure Steady (o : SeqOp) (w w' : SequenceState) : Prop where
  clock : w'.clock = w.clock
  ledger : w'.ledger = w.ledger
  drawn : o ≠ .generateLeaseId → w'.drawn = w.drawn
  made : (∀ account reservation, o ≠ .rpush account reservation) → w'.made = w.made
  cursors : (∀ leaseId cursor px, o ≠ .setCursor leaseId cursor px) → (∀ leaseIds, o ≠ .delCursors leaseIds) →
    w'.cursors = w.cursors

theorem steady_answer (o : SeqOp) (w : SequenceState) : Steady o w (answerSeq o w).2 := by
  cases o with
  | generateLeaseId => exact ⟨rfl, rfl, fun h => absurd rfl h, fun _ => rfl, fun _ _ => rfl⟩
  | rpush account reservation => exact ⟨rfl, rfl, fun _ => rfl, fun h => absurd rfl (h _ _), fun _ _ => rfl⟩
  | setCursor leaseId cursor px => exact ⟨rfl, rfl, fun _ => rfl, fun _ => rfl, fun h => absurd rfl (h _ _ _)⟩
  | delCursors leaseIds => exact ⟨rfl, rfl, fun _ => rfl, fun _ => rfl, fun _ h => absurd rfl (h _)⟩
  | setLock account =>
    simp only [answerSeq]
    split
    · exact ⟨rfl, rfl, fun _ => rfl, fun _ => rfl, fun _ _ => rfl⟩
    · exact ⟨rfl, rfl, fun _ => rfl, fun _ => rfl, fun _ _ => rfl⟩
  | expire account seconds =>
    simp only [answerSeq]
    split
    · exact ⟨rfl, rfl, fun _ => rfl, fun _ => rfl, fun _ _ => rfl⟩
    · exact ⟨rfl, rfl, fun _ => rfl, fun _ => rfl, fun _ _ => rfl⟩
  | _ => exact ⟨rfl, rfl, fun _ => rfl, fun _ => rfl, fun _ _ => rfl⟩

def SeqOp.local : SeqOp → Bool
  | .sleep _ => true
  | .now => true
  | .generateLeaseId => true
  | .asked _ => true
  | .answer _ _ _ => true
  | _ => false

def SeqOp.refused : SeqOp → Bool
  | .setCursor _ _ px => decide (px ≤ 0)
  | _ => false

def carryOut {α W : Type} (fate : Fate) (status : Option Nat) (answer : α × W) (w : W) : Except WalletError α × W :=
  match fate.carry answer w with
  | (.ok a, w') => (.ok a, w')
  | (.error message, w') => (.error { message := message, status := status }, w')

def performSeq (o : SeqOp) (ch : SeqChoice) (w : SequenceState) : Except WalletError o.Reply × SequenceState :=
  if o.refused then (.error { message := "ERR invalid expire time in 'set' command" }, w)
  else carryOut (if o.local then Fate.done else ch.fate) ch.status (answerSeq o w) w

/-- The lock is tried for so often, 50 ms apart. -/
def acquireLock (account : String) : Nat → SequenceM Bool
  | 0 => return false
  | tries + 1 => do
    let acquired ← seq (.setLock account)
    if acquired then return true
    else do
      seq (.sleep 50)
      acquireLock account tries

def removeAll (account : String) : List SequenceReservation → SequenceM Unit
  | [] => return ()
  | reservation :: rest => do
    seq (.lrem account reservation)
    removeAll account rest

def getActiveReservations (account : String) : SequenceM (List SequenceReservation) := do
  let reservations ← seq (.lrange account)
  let now ← seq .now
  removeAll account (reservations.filter fun r => decide (r.expiresAt ≤ now))
  return reservations.filter fun r => decide (now < r.expiresAt)

def highestReserved (ledgerSequence : Int) (reservations : List SequenceReservation) : Int :=
  reservations.foldl (fun highest r => if highest < r.lastSequence then r.lastSequence else highest) ledgerSequence

def LEASE_MS : Int := 60 * 60 * 1000

def reserveLocked (account : String) (size : Int) : SequenceM SequenceReservation := do
  seq (.monitor (.lockAcquired account "txQueue"))
  let ledgerSequence ← seq (.loadAccount account)
  let activeReservations ← getActiveReservations account
  let firstSequence := highestReserved ledgerSequence activeReservations + 1
  let lastSequence := firstSequence + size - 1
  let leaseId ← seq .generateLeaseId
  let now ← seq .now
  let reservation : SequenceReservation :=
    { account := account, firstSequence := firstSequence, lastSequence := lastSequence, size := size, leaseId := leaseId
      expiresAt := now + LEASE_MS }
  seq (.rpush account reservation)
  seq (.expire account (LEASE_MS / 1000))
  seq (.monitor (.audit account .reserve (some leaseId) (some firstSequence)
    s!"Reserved {size} sequences: {firstSequence}-{lastSequence}"))
  return reservation

def reserveSequenceBlock (account : String) (size : Int) : SequenceM SequenceReservation := do
  let lockAcquired ← acquireLock account 20
  if lockAcquired then do
    let outcome ← (reserveLocked account size).attempt
    -- the lock is deleted whoever holds it by now
    seq (.delLock account)
    seq (.monitor (.lockReleased account))
    match outcome with
    | .ok reservation => return reservation
    | .error e => .fail e
  else do
    seq (.monitor (.contention account))
    .fail { message := "Failed to acquire sequence reservation lock" }

/-! ### The next number -/

/-- A number of the reservation, if it has one left. -/
def consume (account : String) (reservation : SequenceReservation) : SequenceM (Option Int) := do
  let stored ← seq (.getCursor reservation.leaseId)
  let cursor := stored.getD reservation.firstSequence
  let leaseId := reservation.leaseId
  if cursor ≤ reservation.lastSequence then do
    let now ← seq .now
    seq (.setCursor leaseId (cursor + 1) (reservation.expiresAt - now))
    seq (.monitor (.audit account .consume (some leaseId) (some cursor)
      s!"Consumed sequence {cursor} from reservation {leaseId}"))
    return some cursor
  else return none

/-- The first reservation with a number left; one that throws is passed over. -/
def consumeFirst (account : String) (now : Int) : List SequenceReservation → SequenceM (Option (Int × SequenceReservation))
  | [] => return none
  | reservation :: rest =>
    if reservation.expiresAt ≤ now then consumeFirst account now rest
    else do
      let outcome ← (consume account reservation).attempt
      match outcome with
      | .ok (some cursor) => return some (cursor, reservation)
      | _ => consumeFirst account now rest

def getNextSequenceFromReservation (account : String) : SequenceM (Option (Int × SequenceReservation)) := do
  let now ← seq .now
  let reservations ← seq (.lrange account)
  consumeFirst account now reservations

def resetCache (account : String) : SequenceM Unit := do
  seq (.delCached account)
  seq (.delList account)
  let cursorKeys ← seq .cursorKeys
  if cursorKeys.isEmpty then pure () else seq (.delCursors cursorKeys)
  seq (.monitor (.audit account .expire none none "Cache and reservations reset"))

/-- A number to build with, and the reservation that it comes from. -/
structure NextSequence where
  account : String
  sequence : Int
  reservation : Option SequenceReservation

def releaseReservation (account : String) (sequence : Int) (reservation : SequenceReservation) : SequenceM Unit :=
  let leaseId := reservation.leaseId
  if reservation.lastSequence < sequence + 1 then do
    seq (.lrem account reservation)
    seq (.delCursors [leaseId])
    seq (.monitor (.audit account .expire (some leaseId) none s!"Reservation {leaseId} exhausted"))
  else pure ()

/-- The `resetCache` that comes with a number. -/
def NextSequence.reset (next : NextSequence) : SequenceM Unit :=
  match next.reservation with
  | none => resetCache next.account
  | some reservation => do
    releaseReservation next.account next.sequence reservation
    resetCache next.account

def nextFromLedger (account : String) : SequenceM NextSequence := do
  let ledgerSequence ← seq (.loadAccount account)
  let cached ← seq (.getCached account)
  let nextSequence := match cached with
    | some cachedSequence => if ledgerSequence ≤ cachedSequence then cachedSequence + 1 else ledgerSequence + 1
    | none => ledgerSequence + 1
  seq (.setCached account nextSequence)
  -- minus one, since the builder increments it
  return ⟨account, nextSequence - 1, none⟩

def detectSequenceGap (account : String) (expected actual : Int) : SequenceM Unit :=
  if expected + 1 < actual then seq (.monitor (.gap account expected actual)) else pure ()

def nextSequence (account : String) : SequenceM NextSequence := do
  let found ← getNextSequenceFromReservation account
  match found with
  | some (sequence, reservation) => do
    detectSequenceGap account reservation.firstSequence sequence
    return ⟨account, sequence, some reservation⟩
  | none => nextFromLedger account

def resetOnRetry (account : String) (attempt : Nat) : SequenceM Unit :=
  if 1 < attempt then resetCache account else pure ()

def getNextSequenceNumber (account : String) (attempt : Nat) : SequenceM NextSequence := do
  resetOnRetry account attempt
  nextSequence account

/-- `TransactionBuilder` increments the number of the account it is given. -/
def NextSequence.carried (next : NextSequence) : Int := next.sequence + 1

inductive SeqCall where
  | reserve (account : String) (size : Int)
  /-- A number is asked for, and given up again if the transaction is refused for it. -/
  | next (account : String) (attempt : Nat) (refused : Bool)

def SeqCall.body : SeqCall → SequenceM Unit
  | .reserve account size => do
    let _ ← reserveSequenceBlock account size
    return ()
  | .next account attempt refused => do
    seq (.asked account)
    let next ← getNextSequenceNumber account attempt
    seq (.answer account next.sequence (next.reservation.map SequenceReservation.leaseId))
    if refused then next.reset else return ()

inductive SeqEvent where
  | tick (ms : Nat)
  /-- A transaction of the account is applied. -/
  | advance (account : String)

def driftSeq (e : SeqEvent) (w : SequenceState) : SequenceState :=
  match e with
  | .tick ms => { w with clock := w.clock + ms }
  | .advance account => { w with ledger := update w.ledger account (w.ledger account + 1) }

def sequences : System sequenceSignature SequenceState where
  Choice := SeqChoice
  Event := SeqEvent
  Call := SeqCall
  perform := performSeq
  drift := driftSeq
  arrive := fun _ w => some w
  body := SeqCall.body

abbrev SequencePool := Pool sequenceSignature SequenceState

abbrev SequenceTrace := List (Entry sequenceSignature)

end Delego.Wallet
