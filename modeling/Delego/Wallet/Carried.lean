import Delego.Wallet.Sequence

/-! What the transaction of a number carries (`wallet/src/queue/txQueue.ts`: `getNextSequenceNumber`).

A number from the ledger is given to the builder as the one before it. A number from a block is given to it as it is,
and the builder increments that one too: the k-th transaction of a block carries the k-th number after its first
(`next_block`), so a block of `n` is used as the numbers from its second to the one after its last. -/
namespace Delego.Wallet
open Delego.Process List Function

def SequenceState.run {α : Type} (w : SequenceState) (program : SequenceM α) : Except WalletError α × SequenceState :=
  program.alone (fun o => performSeq o {}) w

section
variable {α β : Type} {w w' : SequenceState}

theorem run_seq {o : SeqOp} (h : o.refused = false) (w : SequenceState) :
    w.run (seq o) = (.ok (answerSeq o w).1, (answerSeq o w).2) := by
  refine (Program.alone_perform _ _ _).trans ?_
  simp [performSeq, h, carryOut, Fate.carry]

theorem run_bind {program : SequenceM α} {a : α} (h : w.run program = (.ok a, w')) (f : α → SequenceM β) :
    w.run (program >>= f) = w'.run (f a) := Program.alone_bind_ok h f

theorem run_then {o : SeqOp} (h : o.refused = false) (w : SequenceState) (f : o.Reply → SequenceM β) :
    w.run (seq o >>= f) = (answerSeq o w).2.run (f (answerSeq o w).1) := run_bind (run_seq h w) f

theorem run_attempt {program : SequenceM α} {a : α} (h : w.run program = (.ok a, w')) :
    w.run program.attempt = (.ok (.ok a), w') := by
  refine (Program.alone_attempt _ _ _).trans ?_
  rw [SequenceState.run] at h
  rw [h]

end

/-! ### One call -/

namespace SequenceState
variable (w : SequenceState) (account : String)

def left (reservation : SequenceReservation) : Option (Int × SequenceReservation) :=
  let cursor := (w.cursor reservation.leaseId).getD reservation.firstSequence
  if w.clock < reservation.expiresAt ∧ cursor ≤ reservation.lastSequence then some (cursor, reservation) else none

def available : Option (Int × SequenceReservation) := (w.list account).findSome? w.left

def used (cursor : Int) (reservation : SequenceReservation) : SequenceState :=
  { w with cursors := w.cursors.insert reservation.leaseId (cursor + 1, w.clock + (reservation.expiresAt - w.clock)) }

def cleared : SequenceState :=
  ({ w with cached := update w.cached account none }.setList account [] none).delCursors w.cursorKeys

def entered (attempt : Nat) : SequenceState := if 1 < attempt then w.cleared account else w

/-- The number after the ledger's or the cached one. -/
def following : Int :=
  match w.cachedSequence account with
  | some cachedSequence => if w.ledger account ≤ cachedSequence then cachedSequence + 1 else w.ledger account + 1
  | none => w.ledger account + 1

def next : NextSequence × SequenceState :=
  match w.available account with
  | some (cursor, reservation) => (⟨account, cursor, some reservation⟩, w.used cursor reservation)
  | none => (⟨account, w.following account - 1, none⟩,
      { w with cached := update w.cached account (some (w.following account, w.clock + 60000)) })

end SequenceState

section
variable (w : SequenceState) (account : String) {reservation : SequenceReservation}

theorem run_consume (h : w.clock < reservation.expiresAt) :
    w.run (consume account reservation) = match w.left reservation with
      | some (cursor, _) => (.ok (some cursor), w.used cursor reservation)
      | none => (.ok none, w) := by
  unfold consume SequenceState.left
  rw [run_then rfl]
  simp only [answerSeq]
  by_cases hleft : (w.cursor reservation.leaseId).getD reservation.firstSequence ≤ reservation.lastSequence
  · simp only [h, hleft, true_and, if_true]
    have hpos : ¬reservation.expiresAt - w.clock ≤ 0 := by omega
    rw [run_then rfl]
    simp only [answerSeq]
    rw [run_then (by simp [SeqOp.refused, hpos]), run_then rfl]
    rfl
  · simp only [hleft, and_false, if_false]
    rfl

theorem run_consumeFirst (reservations : List SequenceReservation) :
    w.run (consumeFirst account w.clock reservations) = match reservations.findSome? w.left with
      | some (cursor, reservation) => (.ok (some (cursor, reservation)), w.used cursor reservation)
      | none => (.ok none, w) := by
  induction reservations with
  | nil => rfl
  | cons reservation rest ih =>
    rw [consumeFirst, findSome?_cons]
    by_cases hexp : reservation.expiresAt ≤ w.clock
    · have hnone : w.left reservation = none := by simp [SequenceState.left, Int.not_lt.mpr hexp]
      rw [if_pos hexp, hnone, ih]
    · rw [if_neg hexp]
      have hconsume := run_consume w account (Int.not_le.mp hexp)
      cases hleft : w.left reservation with
      | some found =>
        obtain ⟨cursor, found⟩ := found
        have hfound : reservation = found := by
          simp only [SequenceState.left] at hleft
          split at hleft
          · cases hleft
            rfl
          · cases hleft
        subst hfound
        rw [hleft] at hconsume
        rw [run_bind (run_attempt hconsume)]
        rfl
      | none =>
        rw [hleft] at hconsume
        rw [run_bind (run_attempt hconsume)]
        exact ih

theorem run_resetCache : w.run (resetCache account) = (.ok (), w.cleared account) := by
  unfold resetCache
  rw [run_then rfl, run_then rfl, run_then rfl]
  split
  · rename_i hempty
    have hkeys : w.cursorKeys = [] := isEmpty_iff.mp hempty
    refine (run_seq rfl _).trans ?_
    simp only [SequenceState.cleared, hkeys]
    rfl
  · rw [run_then rfl]
    exact run_seq rfl _

theorem run_nextFromLedger : w.run (nextFromLedger account) = (.ok ⟨account, w.following account - 1, none⟩,
    { w with cached := update w.cached account (some (w.following account, w.clock + 60000)) }) := by
  unfold nextFromLedger SequenceState.following
  rw [run_then rfl, run_then rfl]
  simp only [answerSeq]
  cases w.cachedSequence account with
  | some cachedSequence =>
    rw [run_then rfl]
    rfl
  | none =>
    rw [run_then rfl]
    rfl

theorem run_nextSequence : w.run (nextSequence account) = (.ok (w.next account).1, (w.next account).2) := by
  have hfound : w.run (getNextSequenceFromReservation account) = match w.available account with
      | some (cursor, reservation) => (.ok (some (cursor, reservation)), w.used cursor reservation)
      | none => (.ok none, w) := by
    unfold getNextSequenceFromReservation
    rw [run_then rfl, run_then rfl]
    exact run_consumeFirst w account (w.list account)
  unfold nextSequence SequenceState.next
  cases havail : w.available account with
  | some found =>
    rw [havail] at hfound
    rw [run_bind hfound]
    simp only [detectSequenceGap]
    split
    · rw [run_then rfl]
      rfl
    · rfl
  | none =>
    rw [havail] at hfound
    rw [run_bind hfound]
    exact run_nextFromLedger w account

/-- **A call, run by itself.** -/
theorem run_getNextSequenceNumber (attempt : Nat) : w.run (getNextSequenceNumber account attempt) =
      (.ok ((w.entered account attempt).next account).1, ((w.entered account attempt).next account).2) := by
  have hentered : w.run (resetOnRetry account attempt) = (.ok (), w.entered account attempt) := by
    unfold resetOnRetry SequenceState.entered
    split
    · exact run_resetCache w account
    · rfl
  unfold getNextSequenceNumber
  rw [run_bind hentered]
  exact run_nextSequence _ account

end

/-- What happens before a call, and which attempt it is. -/
structure Asking where
  events : List SeqEvent
  attempt : Nat

/-- A call: the state that it finds, after the reset of a retry, and its outcome. -/
structure Served where
  found : SequenceState
  outcome : Except WalletError NextSequence

/-- What the transaction that is built next carries. -/
def Served.carried (served : Served) : Option Int := served.outcome.toOption.map NextSequence.carried

def SequenceState.drifted (w : SequenceState) (events : List SeqEvent) : SequenceState :=
  events.foldl (fun w e => driftSeq e w) w

def callAll (account : String) : List Asking → SequenceState → List Served
  | [], _ => []
  | ⟨events, attempt⟩ :: rest, w =>
    let found := w.drifted events
    let answer := found.run (getNextSequenceNumber account attempt)
    ⟨found.entered account attempt, answer.1⟩ :: callAll account rest answer.2

/-- The transaction carries the number that its block is at, and the one after the ledger's if
there is no reservation and nothing is cached. -/
structure Served.InOrder (account : String) (served : Served) : Prop where
  block : ∀ cursor reservation, served.found.available account = some (cursor, reservation) → served.carried = some cursor
  ledger : served.found.list account = [] → served.found.cachedSequence account = none →
    served.carried = some (served.found.ledger account + 1)

section
variable {account : String}

theorem callAll_cons (events : List SeqEvent) (attempt : Nat) (rest : List Asking) (w : SequenceState) :
    callAll account (⟨events, attempt⟩ :: rest) w =
      let found := (w.drifted events).entered account attempt
      ⟨found, .ok (found.next account).1⟩ :: callAll account rest (found.next account).2 := by
  simp only [callAll, run_getNextSequenceNumber]

theorem outcome_of_mem {calls : List Asking} {w : SequenceState} {served : Served}
    (h : served ∈ callAll account calls w) : served.outcome = .ok (served.found.next account).1 := by
  induction calls generalizing w with
  | nil => cases h
  | cons asking rest ih =>
    obtain ⟨events, attempt⟩ := asking
    rw [callAll_cons] at h
    rcases mem_cons.mp h with rfl | h
    · rfl
    · exact ih h

theorem inOrder_iff {served : Served} (h : served.outcome = .ok (served.found.next account).1) :
    served.InOrder account ↔ served.found.available account = none := by
  have hcarried : served.carried = some ((served.found.next account).1.sequence + 1) := by
    simp [Served.carried, h, Except.toOption, NextSequence.carried]
  constructor
  · intro horder
    cases havail : served.found.available account with
    | none => rfl
    | some taken =>
      obtain ⟨cursor, reservation⟩ := taken
      have hblock := horder.block cursor reservation havail
      simp only [hcarried, SequenceState.next, havail, Option.some.injEq] at hblock
      omega
  · intro havail
    refine ⟨fun cursor reservation hsome => absurd (havail.symm.trans hsome) nofun, ?_⟩
    intro _ hcached
    simp [hcarried, SequenceState.next, havail, SequenceState.following, hcached]

theorem cursor_used (w : SequenceState) (cursor : Int)
    (h : w.clock < reservation.expiresAt) :
    (w.used cursor reservation).cursor reservation.leaseId = some (cursor + 1) := by
  have hlive : w.clock < w.clock + (reservation.expiresAt - w.clock) := by omega
  simp only [SequenceState.cursor, SequenceState.used, AList.lookup_insert, Option.filter, hlive, decide_true,
    if_true, Option.map_some]

/-- A block that comes first serves one call after another, and each transaction carries the number
after the one that the block is at. -/
theorem next_block {w : SequenceState} {rest : List SequenceReservation}
    (hlist : w.list account = reservation :: rest) (hlive : w.clock < reservation.expiresAt) (n : Nat)
    (hleft : (w.cursor reservation.leaseId).getD reservation.firstSequence + n ≤ reservation.lastSequence + 1) :
    (callAll account (replicate n ⟨[], 1⟩) w).map Served.carried = (range n).map fun k : Nat =>
      some ((w.cursor reservation.leaseId).getD reservation.firstSequence + 1 + k) := by
  induction n generalizing w with
  | zero => rfl
  | succ n ih =>
    generalize hcursor : (w.cursor reservation.leaseId).getD reservation.firstSequence = cursor at hleft ⊢
    have havail : w.available account = some (cursor, reservation) := by
      have hnumber : w.left reservation = some (cursor, reservation) := by
        simp only [SequenceState.left, hcursor]
        rw [if_pos ⟨hlive, by omega⟩]
      simp only [SequenceState.available, hlist, findSome?_cons, hnumber]
    have hused := cursor_used w cursor hlive
    have hrest := ih (w := w.used cursor reservation) hlist hlive (by rw [hused, Option.getD_some]; omega)
    rw [hused, Option.getD_some] at hrest
    rw [replicate_succ, callAll_cons, range_succ_eq_map]
    have hnext : ((w.drifted []).entered account 1).next account =
        (⟨account, cursor, some reservation⟩, w.used cursor reservation) := by
      simp [SequenceState.drifted, SequenceState.entered, SequenceState.next, havail]
    simp only [hnext, map_cons, map_map, hrest]
    refine cons_eq_cons.mpr ⟨?_, ?_⟩
    · simp [Served.carried, Except.toOption, NextSequence.carried]
    · refine map_congr_left ?_
      intro k _
      simp only [comp_apply, Option.some.injEq]
      push_cast
      omega

end

section
variable (w : SequenceState) (account : String)

theorem run_removeAll (expired : List SequenceReservation) :
    ∃ lists ends, w.run (removeAll account expired) = (.ok (), { w with lists := lists, listUntil := ends }) := by
  induction expired generalizing w with
  | nil => exact ⟨w.lists, w.listUntil, rfl⟩
  | cons reservation rest ih =>
    rw [removeAll, run_then rfl]
    exact ih _

theorem run_getActiveReservations : ∃ lists ends, w.run (getActiveReservations account) =
    (.ok ((w.list account).filter fun r => decide (w.clock < r.expiresAt)),
      { w with lists := lists, listUntil := ends }) := by
  unfold getActiveReservations
  rw [run_then rfl, run_then rfl]
  obtain ⟨lists, ends, hremoved⟩ :=
    run_removeAll w account ((w.list account).filter fun r => decide (r.expiresAt ≤ w.clock))
  refine ⟨lists, ends, ?_⟩
  exact run_bind hremoved _

def SequenceState.block (size : Int) : SequenceReservation :=
  let highest := highestReserved (w.ledger account) ((w.list account).filter fun r => decide (w.clock < r.expiresAt))
  { account := account, firstSequence := highest + 1, lastSequence := highest + 1 + size - 1, size := size
    leaseId := w.drawn
    expiresAt := w.clock + LEASE_MS }

theorem run_reserveLocked (size : Int) : ∃ w', w.run (reserveLocked account size) = (.ok (w.block account size), w') := by
  unfold reserveLocked
  rw [run_then rfl, run_then rfl]
  simp only [answerSeq]
  obtain ⟨lists, ends, hact⟩ := run_getActiveReservations w account
  rw [run_bind hact, run_then rfl, run_then rfl, run_then rfl, run_then rfl, run_then rfl]
  exact ⟨_, rfl⟩

theorem run_reserveSequenceBlock (size : Int) (hfree : w.locked account = false) :
    ∃ w', w.run (reserveSequenceBlock account size) = (.ok (w.block account size), w') := by
  let v : SequenceState := { w with locks := update w.locks account (some (w.clock + 5000)) }
  have hlock : w.run (acquireLock account 20) = (.ok true, v) := by
    rw [acquireLock, run_then rfl]
    simp only [answerSeq, hfree]
    rfl
  obtain ⟨w', hresd⟩ := run_reserveLocked v account size
  unfold reserveSequenceBlock
  rw [run_bind hlock, if_pos rfl, run_bind (run_attempt hresd), run_then rfl, run_then rfl]
  exact ⟨_, rfl⟩

theorem firstSequence_block (size : Int) (hexp : ∀ r ∈ w.list account, r.expiresAt ≤ w.clock) :
    (w.block account size).firstSequence = w.ledger account + 1 := by
  have hnone : (w.list account).filter (fun r => decide (w.clock < r.expiresAt)) = [] := by
    rw [filter_eq_nil_iff]
    intro r hr
    have := hexp r hr
    simpa using this
  simp [SequenceState.block, hnone, highestReserved]

end

/-- **Calls conform unless a block serves them.** The k-th transaction of a block carries the number `k` after its
first, although the first block that is reserved starts after the ledger's number. -/
theorem carried_iff (account : String) (w : SequenceState) :
    (∀ calls, (∀ served ∈ callAll account calls w, served.InOrder account) ↔
      ∀ served ∈ callAll account calls w, served.found.available account = none) ∧
    (∀ reservation rest (n : Nat), w.list account = reservation :: rest → w.clock < reservation.expiresAt →
      w.cursor reservation.leaseId = none → reservation.firstSequence + n ≤ reservation.lastSequence + 1 →
      (callAll account (replicate n ⟨[], 1⟩) w).map Served.carried =
        (range n).map fun k : Nat => some (reservation.firstSequence + 1 + k)) ∧
    (∀ size, w.locked account = false → (∀ r ∈ w.list account, r.expiresAt ≤ w.clock) →
      ∃ reservation w', w.run (reserveSequenceBlock account size) = (.ok reservation, w') ∧
        reservation.firstSequence = w.ledger account + 1 ∧
        reservation.lastSequence = w.ledger account + size) := by
  refine ⟨?_, ?_, ?_⟩
  · intro calls
    refine forall₂_congr ?_
    intro served hserved
    exact inOrder_iff (outcome_of_mem hserved)
  · intro reservation rest n hlist hlive hcursor hleft
    have hblock := next_block hlist hlive n (by simpa [hcursor] using hleft)
    simpa [hcursor] using hblock
  · intro size hfree hexp
    obtain ⟨w', hrun⟩ := run_reserveSequenceBlock w account size hfree
    have hfirst := firstSequence_block w account size hexp
    refine ⟨_, w', hrun, hfirst, ?_⟩
    have hlast : (w.block account size).lastSequence = (w.block account size).firstSequence + size - 1 := rfl
    omega

def sampleState : SequenceState := .empty fun _ => 100

def reservedState : SequenceState := (sampleState.run (reserveSequenceBlock "GA" 2)).2

/-- Of three calls the first two are served from the block, which is 101 and 102; the third is not. -/
theorem carried_beyond_block : ((reservedState.list "GA").map fun r => (r.firstSequence, r.lastSequence)) = [(101, 102)] ∧
    (callAll "GA" (replicate 3 ⟨[], 1⟩) reservedState).map Served.carried = [some 102, some 103, some 101] ∧
    (callAll "GA" [⟨[], 1⟩] sampleState).map Served.carried = [some 101] ∧
    ¬∀ served ∈ callAll "GA" (replicate 3 ⟨[], 1⟩) reservedState, served.InOrder "GA" := by
  have hcarried : (callAll "GA" (replicate 3 ⟨[], 1⟩) reservedState).map Served.carried =
      [some 102, some 103, some 101] := by decide
  refine ⟨by decide, hcarried, by decide, ?_⟩
  intro horder
  have hfirst := horder ⟨reservedState, .ok (reservedState.next "GA").1⟩ (by
    rw [replicate_succ, callAll_cons]
    exact mem_cons_self)
  have havail : (reservedState.available "GA").isNone = false := by decide
  simp [(inOrder_iff rfl).mp hfirst] at havail

/-- A retry drops the block. -/
theorem carried_iff_retry : (∀ served ∈ callAll "GA" [⟨[], 2⟩, ⟨[.tick 1], 1⟩] reservedState, served.InOrder "GA") ∧
    (callAll "GA" (replicate 2 ⟨[], 1⟩) reservedState).map Served.carried = [some 102, some 103] ∧
    ∃ reservation w', sampleState.run (reserveSequenceBlock "GA" 2) = (.ok reservation, w') ∧
      reservation.firstSequence = 101 ∧ reservation.lastSequence = 102 := by
  have hlist : reservedState.list "GA" = [⟨"GA", 101, 102, 2, 0, 3600000⟩] := by decide
  have hblock := (carried_iff "GA" reservedState).2.1 _ _ 2 hlist (by decide) (by decide) (by decide)
  refine ⟨((carried_iff "GA" reservedState).1 _).mpr ?_, hblock, ?_⟩
  · have hnone : (callAll "GA" [⟨[], 2⟩, ⟨[.tick 1], 1⟩] reservedState).all
        (fun served => (served.found.available "GA").isNone) = true := by decide
    intro served hserved
    exact Option.isNone_iff_eq_none.mp (all_eq_true.mp hnone served hserved)
  · exact (carried_iff "GA" sampleState).2.2 2 rfl nofun

end Delego.Wallet
