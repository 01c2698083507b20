import Mathlib.Data.Rat.Lemmas

/-! The lock on the funding of an escrow (`payments/src/escrowCoordinator/escrowFundingLock.ts`).

The pool keeps one expiry per stripe; the acquisition that a caller is handed carries its own, which `extendLock`
assigns. So the acquisitions are objects here, found by the order in which they were granted. A call of `acquireLock`
that finds its stripe taken sleeps and comes back at any later time. -/
namespace Delego.FundingLock
open List

inductive LockType where
  | pessimistic | optimistic | adaptive
  deriving DecidableEq

structure EscrowLockConfig where
  lockType : LockType
  stripingFactor : Nat
  (lockTimeoutMs waitTimeoutMs : Int)
  contentionThreshold : Rat

/-- What a caller is given for a lock. -/
structure LockAcquisition where
  lockId : String
  stripeIndex : Int
  lockType : LockType
  (acquiredAt expiresAt : Int)
  holderId : String
  deriving DecidableEq

structure LockStripe where
  holderId : Option String
  (acquiredAt expiresAt : Int)
  deriving DecidableEq

def freeStripe : LockStripe := ⟨none, 0, 0⟩

/-- The units that `charCodeAt` reads. -/
def codeUnits (c : Char) : List Int :=
  if c.toNat < 65536 then [c.toNat]
  else [55296 + (c.toNat - 65536) / 1024, 56320 + (c.toNat - 65536) % 1024]

/-- `value | 0` -/
def toInt32 (value : Int) : Int := (value + 2147483648) % 4294967296 - 2147483648

def hash (escrowId : String) : Int :=
  (escrowId.toList.flatMap codeUnits).foldl (fun hash unit => toInt32 (hash * 31 + unit)) 0

def getStripeIndex (stripingFactor : Nat) (escrowId : String) : Nat := (hash escrowId).natAbs % stripingFactor

def LockStripe.taken (stripe : LockStripe) (now : Int) : Bool := stripe.holderId.isSome && decide (now < stripe.expiresAt)

/-- Without the stripe, reading its holder throws. -/
def tryAcquire (stripes : List LockStripe) (escrowId holderId : String) (timeoutMs now : Int) :
    Except String (Option (LockAcquisition × List LockStripe)) :=
  let stripeIndex := getStripeIndex stripes.length escrowId
  match stripes[stripeIndex]? with
  | none => .error "Cannot read properties of undefined (reading 'holderId')"
  | some stripe =>
    if stripe.taken now then .ok none
    else .ok (some
      ({ lockId := s!"{escrowId}:{stripeIndex}"
         stripeIndex := stripeIndex
         lockType := .pessimistic
         acquiredAt := now
         expiresAt := now + timeoutMs
         holderId := holderId },
        stripes.set stripeIndex ⟨some holderId, now, now + timeoutMs⟩))

/-- The stripes after `release`, and what it answers. An index that no stripe has is never
handed out. -/
def release (stripes : List LockStripe) (stripeIndex : Nat) (holderId : String) : Bool × List LockStripe :=
  match stripes[stripeIndex]? with
  | none => (false, stripes)
  | some stripe =>
    if stripe.holderId = some holderId then (true, stripes.set stripeIndex freeStripe)
    else (false, stripes)

structure Metrics where
  (acquisitions waits : Nat)
  waitTimes : List Int
  (contentions timeouts stolenLocks : Nat)

abbrev Tracker := String → Metrics

def Tracker.record (tracker : Tracker) (escrowId : String) (f : Metrics → Metrics) : Tracker :=
  Function.update tracker escrowId (f (tracker escrowId))

def Tracker.recordAcquisition (tracker : Tracker) (escrowId : String) (waitMs : Int) : Tracker :=
  tracker.record escrowId fun m =>
    if 0 < waitMs then
      { m with acquisitions := m.acquisitions + 1, waits := m.waits + 1, waitTimes := m.waitTimes ++ [waitMs] }
    else { m with acquisitions := m.acquisitions + 1 }

def Tracker.recordContention (tracker : Tracker) (escrowId : String) : Tracker :=
  tracker.record escrowId fun m => { m with contentions := m.contentions + 1 }

def Tracker.recordTimeout (tracker : Tracker) (escrowId : String) : Tracker :=
  tracker.record escrowId fun m => { m with timeouts := m.timeouts + 1 }

def Tracker.recordStolenLock (tracker : Tracker) (escrowId : String) : Tracker :=
  tracker.record escrowId fun m => { m with stolenLocks := m.stolenLocks + 1 }

def Tracker.getContentionRatio (tracker : Tracker) (escrowId : String) : Rat :=
  let m := tracker escrowId
  if m.acquisitions = 0 then 0 else (m.contentions : Rat) / m.acquisitions

def selectLockType (escrowId : String) (tracker : Tracker) (config : EscrowLockConfig) : LockType :=
  if config.lockType ≠ .adaptive then config.lockType
  else if config.contentionThreshold ≤ tracker.getContentionRatio escrowId then .pessimistic
  else .optimistic

/-- Versions by escrow; one never committed is 0. -/
abbrev Versions := String → Nat

def commitOptimistic (versions : Versions) (escrowId : String) (expectedVersion : Nat) : Bool × Versions :=
  if versions escrowId ≠ expectedVersion then (false, versions)
  else (true, Function.update versions escrowId (versions escrowId + 1))

/-- `text.replace(pattern, "")`: the first occurrence goes. -/
def dropFirst (pattern : List Char) : List Char → List Char
  | [] => []
  | c :: rest =>
    if pattern.isPrefixOf (c :: rest) then (c :: rest).drop pattern.length
    else c :: dropFirst pattern rest

/-! ### The manager and its callers -/

structure EscrowFundingLockManager where
  config : EscrowLockConfig
  stripes : List LockStripe
  tracker : Tracker
  versions : Versions

def EscrowFundingLockManager.new (config : EscrowLockConfig) : EscrowFundingLockManager :=
  { config := config, stripes := replicate config.stripingFactor freeStripe, tracker := fun _ => ⟨0, 0, [], 0, 0, 0⟩
    versions := fun _ => 0 }

/-- A call of `acquireLock` that sleeps. -/
structure Waiting where
  (escrowId holderId : String)
  (effectiveTimeout startMs deadline : Int)
  attempts : Nat

/-- An acquisition that was returned, and the escrow for which it was asked. -/
structure Granted where
  escrowId : String
  acquisition : LockAcquisition
  deriving DecidableEq

/-- What happened to the acquisitions: granted, or released by their holder with some answer. -/
inductive Event where
  | acquired (ref : Nat)
  | released (ref : Nat) (answer : Bool)
  deriving DecidableEq

structure World where
  manager : EscrowFundingLockManager
  clock : Int
  waiting : List Waiting
  granted : List Granted
  log : List Event

def World.new (config : EscrowLockConfig) (clock : Int) : World := ⟨.new config, clock, [], [], []⟩

def World.grant (w : World) (escrowId : String) (acquisition : LockAcquisition) : World :=
  { w with
    granted := w.granted ++ [⟨escrowId, acquisition⟩]
    log := w.log ++ [.acquired w.granted.length] }

/-- One turn of the loop in `acquireLock`: the stripe is tried `tried` after the clock is read, and the wait is
measured `returned` later. -/
def World.attempt (w : World) (call : Waiting) (tried returned : Nat) : World :=
  if w.clock < call.deadline then
    let now := w.clock + tried
    match tryAcquire w.manager.stripes call.escrowId call.holderId call.effectiveTimeout now with
    | .error _ => { w with clock := now }
    | .ok (some (acquisition, stripes)) =>
      let waitMs := now + returned - call.startMs
      { w with
        clock := now + returned
        manager :=
          { w.manager with
            stripes := stripes
            tracker := w.manager.tracker.recordAcquisition call.escrowId waitMs } }.grant
        call.escrowId acquisition
    | .ok none =>
      { w with
        clock := now
        manager := { w.manager with tracker := w.manager.tracker.recordContention call.escrowId }
        waiting := w.waiting ++ [{ call with attempts := call.attempts + 1 }] }
  else { w with manager := { w.manager with tracker := w.manager.tracker.recordTimeout call.escrowId } }

def World.acquireLock (w : World) (escrowId holderId : String) (timeoutMs : Option Int)
    (checked tried returned : Nat) : World :=
  let effectiveTimeout := timeoutMs.getD w.manager.config.lockTimeoutMs
  let startMs := w.clock
  if selectLockType escrowId w.manager.tracker w.manager.config = .optimistic then
    -- `tryOptimistic` always answers; the version that it reads is dropped here.
    { w with
      manager := { w.manager with tracker := w.manager.tracker.recordAcquisition escrowId 0 } }.grant
      escrowId
      { lockId := s!"opt:{escrowId}"
        stripeIndex := -1
        lockType := .optimistic
        acquiredAt := startMs
        expiresAt := startMs + effectiveTimeout
        holderId := holderId }
  else
    { w with clock := w.clock + checked }.attempt
      ⟨escrowId, holderId, effectiveTimeout, startMs, startMs + w.manager.config.waitTimeoutMs, 0⟩
      tried returned

/-- What `releaseLock` answers its holder, and the manager after it. -/
def EscrowFundingLockManager.releaseHeld (manager : EscrowFundingLockManager) (acquisition : LockAcquisition) :
    Bool × EscrowFundingLockManager :=
  if acquisition.lockType = .optimistic then
    let escrowId := String.ofList (dropFirst "opt:".toList acquisition.lockId.toList)
    let committed := commitOptimistic manager.versions escrowId 0
    (committed.1, { manager with versions := committed.2 })
  else
    let released := release manager.stripes acquisition.stripeIndex.toNat acquisition.holderId
    (released.1, { manager with stripes := released.2 })

def EscrowFundingLockManager.releaseLock (manager : EscrowFundingLockManager) (acquisition : LockAcquisition)
    (holderId : String) : Bool × EscrowFundingLockManager :=
  if acquisition.holderId ≠ holderId then
    (false, { manager with tracker := manager.tracker.recordStolenLock acquisition.lockId })
  else manager.releaseHeld acquisition

theorem config_releaseHeld (manager : EscrowFundingLockManager) (acquisition : LockAcquisition) :
    (manager.releaseHeld acquisition).2.config = manager.config := by
  unfold EscrowFundingLockManager.releaseHeld
  split
  · rfl
  · rfl

/-- The acquisition after `extendLock`; no stripe is touched. -/
def LockAcquisition.extendLock (acquisition : LockAcquisition) (holderId : String) (additionalMs : Int) :
    LockAcquisition :=
  if acquisition.holderId ≠ holderId then acquisition
  else { acquisition with expiresAt := acquisition.expiresAt + additionalMs }

inductive Action where
  | acquireLock (escrowId holderId : String) (timeoutMs : Option Int) (checked tried returned : Nat)
  /-- The call that sleeps at this place wakes. -/
  | wake (index checked tried returned : Nat)
  | releaseLock (ref : Nat) (holderId : String)
  | extendLock (ref : Nat) (holderId : String) (additionalMs : Int)
  | advance (elapsed : Nat)

def step (w : World) : Action → World
  | .acquireLock escrowId holderId timeoutMs checked tried returned =>
    w.acquireLock escrowId holderId timeoutMs checked tried returned
  | .wake index checked tried returned =>
    match w.waiting[index]? with
    | none => w
    | some call => { w with clock := w.clock + checked, waiting := w.waiting.eraseIdx index }.attempt call tried returned
  | .releaseLock ref holderId =>
    match w.granted[ref]? with
    | none => w
    | some granted =>
      let answered := w.manager.releaseLock granted.acquisition holderId
      { w with
        manager := answered.2
        log := if granted.acquisition.holderId = holderId then w.log ++ [.released ref answered.1] else w.log }
  | .extendLock ref holderId additionalMs =>
    { w with
      granted := w.granted.modify ref fun granted =>
        { granted with acquisition := granted.acquisition.extendLock holderId additionalMs } }
  | .advance elapsed => { w with clock := w.clock + elapsed }

theorem releaseLock_cases (w : World) (ref : Nat) (holderId : String) : (∃ tracker, step w (.releaseLock ref holderId) =
      { w with manager := { w.manager with tracker := tracker } }) ∨
    ∃ granted, w.granted[ref]? = some granted ∧ granted.acquisition.holderId = holderId ∧
      step w (.releaseLock ref holderId) =
        { w with
          manager := (w.manager.releaseHeld granted.acquisition).2
          log := w.log ++ [.released ref (w.manager.releaseHeld granted.acquisition).1] } := by
  cases hget : w.granted[ref]? with
  | none =>
    left
    exact ⟨w.manager.tracker, by simp only [step, hget]⟩
  | some granted =>
    by_cases hholder : granted.acquisition.holderId = holderId
    · right
      refine ⟨granted, rfl, hholder, ?_⟩
      simp [step, hget, EscrowFundingLockManager.releaseLock, hholder]
    · left
      refine ⟨w.manager.tracker.recordStolenLock granted.acquisition.lockId, ?_⟩
      simp [step, hget, EscrowFundingLockManager.releaseLock, hholder]

def run (w : World) (actions : List Action) : World := actions.foldl step w

/-! ### Conflicts seen by the optimistic lock

`acquireLock` drops the version that it reads and `releaseLock` commits against version 0,
so an escrow's first release succeeds and no later one does, whatever has happened between
(`Counted`). -/

def World.Committed (w : World) (escrowId : String) : Prop :=
  ∃ ref granted, w.granted[ref]? = some granted ∧ granted.escrowId = escrowId ∧ Event.released ref true ∈ w.log

def World.Conflict (w : World) (ref : Nat) (escrowId : String) : Prop :=
  ∃ other granted, other ≠ ref ∧ w.granted[other]? = some granted ∧ granted.escrowId = escrowId ∧
    Event.released other true ∈ w.log.dropWhile fun event => decide (event ≠ .acquired ref)

variable {w : World}

theorem World.Conflict.committed {ref : Nat} {escrowId : String} (h : w.Conflict ref escrowId) :
    w.Committed escrowId := by
  obtain ⟨other, granted, -, hget, hesc, hmem⟩ := h
  exact ⟨other, granted, hget, hesc, (dropWhile_sublist _).subset hmem⟩

theorem dropFirst_opt (escrowId : String) :
    String.ofList (dropFirst "opt:".toList s!"opt:{escrowId}".toList) = escrowId := by
  have hchars : s!"opt:{escrowId}".toList = "opt:".toList ++ escrowId.toList := by
    show ("opt:" ++ escrowId).toList = _
    exact String.toList_append
  rw [hchars]
  show String.ofList escrowId.toList = escrowId
  exact String.ofList_toList

/-- The version of an escrow is 0 until its first release. -/
structure Counted (w : World) : Prop where
  config : w.manager.config.lockType = .optimistic
  waiting : w.waiting = []
  optimistic : ∀ granted ∈ w.granted, granted.acquisition.lockType = .optimistic ∧
    granted.acquisition.lockId = s!"opt:{granted.escrowId}"
  logged : ∀ ref answer, Event.released ref answer ∈ w.log → ref < w.granted.length
  versions : ∀ escrowId, w.manager.versions escrowId = 0 ↔ ¬ w.Committed escrowId

theorem Counted.new {config : EscrowLockConfig} (h : config.lockType = .optimistic) (clock : Int) :
    Counted (World.new config clock) where
  config := h
  waiting := rfl
  optimistic _ hmem := absurd hmem not_mem_nil
  logged _ _ hmem := absurd hmem not_mem_nil
  versions escrowId := by simp [World.new, EscrowFundingLockManager.new, World.Committed]

theorem releaseHeld_optimistic (h : Counted w) {granted : Granted} (hmem : granted ∈ w.granted) :
    w.manager.releaseHeld granted.acquisition = ((commitOptimistic w.manager.versions granted.escrowId 0).1,
        { w.manager with versions := (commitOptimistic w.manager.versions granted.escrowId 0).2 }) := by
  obtain ⟨htype, hid⟩ := h.optimistic granted hmem
  rw [EscrowFundingLockManager.releaseHeld, if_pos htype, hid, dropFirst_opt]

theorem commitOptimistic_fst (versions : Versions) (escrowId : String) :
    (commitOptimistic versions escrowId 0).1 = true ↔ versions escrowId = 0 := by
  by_cases h : versions escrowId = 0
  · simp [commitOptimistic, h]
  · simp [commitOptimistic, h]

theorem commitOptimistic_snd (versions : Versions) (escrowId other : String) :
    (commitOptimistic versions escrowId 0).2 other = 0 ↔ other ≠ escrowId ∧ versions other = 0 := by
  by_cases h : versions escrowId = 0
  · by_cases hother : other = escrowId
    · subst hother
      simp [commitOptimistic, h]
    · simp [commitOptimistic, h, hother]
  · have hkept : (commitOptimistic versions escrowId 0).2 = versions := by simp [commitOptimistic, h]
    rw [hkept]
    constructor
    · intro hzero
      exact ⟨fun hsame => h (hsame ▸ hzero), hzero⟩
    · exact fun hboth => hboth.2

/-- A call that changes no version, and whose acquisitions are those before under the same
references, with at most some granted in addition. -/
theorem Counted.of_kept {w' : World} (h : Counted w) (hcfg : w'.manager.config = w.manager.config)
    (hwaiting : w'.waiting = w.waiting) (hversions : w'.manager.versions = w.manager.versions)
    (hkept : ∀ ref < w.granted.length, ∀ escrowId,
      (∃ granted, w'.granted[ref]? = some granted ∧ granted.escrowId = escrowId) ↔
        ∃ granted, w.granted[ref]? = some granted ∧ granted.escrowId = escrowId)
    (hlen : w.granted.length ≤ w'.granted.length)
    (hoptimistic : ∀ granted ∈ w'.granted, granted.acquisition.lockType = .optimistic ∧
      granted.acquisition.lockId = s!"opt:{granted.escrowId}")
    (hlog : ∀ ref answer, Event.released ref answer ∈ w'.log ↔ Event.released ref answer ∈ w.log) :
    Counted w' where
  config := by
    rw [hcfg]
    exact h.config
  waiting := hwaiting.trans h.waiting
  optimistic := hoptimistic
  logged ref answer hmem := lt_of_lt_of_le (h.logged ref answer ((hlog ref answer).mp hmem)) hlen
  versions escrowId := by
    rw [hversions, h.versions escrowId]
    have hcommitted : w'.Committed escrowId ↔ w.Committed escrowId := by
      constructor
      · rintro ⟨ref, granted, hget, hesc, hmem⟩
        have hmem' := (hlog ref true).mp hmem
        obtain ⟨granted', hget', hesc'⟩ := (hkept ref (h.logged ref true hmem') escrowId).mp ⟨granted, hget, hesc⟩
        exact ⟨ref, granted', hget', hesc', hmem'⟩
      · rintro ⟨ref, granted, hget, hesc, hmem⟩
        obtain ⟨granted', hget', hesc'⟩ := (hkept ref (h.logged ref true hmem) escrowId).mpr ⟨granted, hget, hesc⟩
        exact ⟨ref, granted', hget', hesc', (hlog ref true).mpr hmem⟩
    rw [hcommitted]

theorem Counted.acquireLock (h : Counted w) (escrowId holderId : String) (timeoutMs : Option Int)
    (checked tried returned : Nat) :
    Counted (step w (.acquireLock escrowId holderId timeoutMs checked tried returned)) := by
  have hselect : selectLockType escrowId w.manager.tracker w.manager.config = .optimistic := by
    simp [selectLockType, h.config]
  simp only [step, World.acquireLock, if_pos hselect]
  refine h.of_kept rfl rfl rfl ?_ ?_ ?_ ?_
  · intro ref href escrow
    simp only [World.grant, getElem?_append_left href]
  · simp [World.grant]
  · intro granted hmem
    simp only [World.grant, mem_append, mem_singleton] at hmem
    obtain hmem | rfl := hmem
    · exact h.optimistic granted hmem
    · exact ⟨rfl, rfl⟩
  · intro ref answer
    simp [World.grant]

theorem Counted.extendLock (h : Counted w) (ref : Nat) (holderId : String) (additionalMs : Int) :
    Counted (step w (.extendLock ref holderId additionalMs)) := by
  have hsame : ∀ acquisition : LockAcquisition,
      (acquisition.extendLock holderId additionalMs).lockType = acquisition.lockType ∧
        (acquisition.extendLock holderId additionalMs).lockId = acquisition.lockId := by
    intro acquisition
    unfold LockAcquisition.extendLock
    split
    · exact ⟨rfl, rfl⟩
    · exact ⟨rfl, rfl⟩
  refine h.of_kept rfl rfl rfl ?_ ?_ ?_ fun _ _ => Iff.rfl
  · intro other hother escrow
    simp only [step, getElem?_modify, getElem?_eq_getElem hother]
    by_cases heq : ref = other
    · simp [heq]
    · simp [heq]
  · simp [step]
  · intro granted hmem
    obtain ⟨i, hget⟩ := mem_iff_getElem?.mp hmem
    simp only [step, getElem?_modify] at hget
    obtain ⟨before, hpre, rfl⟩ := Option.map_eq_some_iff.mp hget
    have hoptimistic := h.optimistic before (mem_of_getElem? hpre)
    split
    · exact ⟨(hsame _).1.trans hoptimistic.1, (hsame _).2.trans hoptimistic.2⟩
    · exact hoptimistic

theorem Counted.releaseLock (h : Counted w) (ref : Nat) (holderId : String) :
    Counted (step w (.releaseLock ref holderId)) := by
  obtain ⟨tracker, hstep⟩ | ⟨granted, hget, -, hstep⟩ := releaseLock_cases w ref holderId
  · rw [hstep]
    exact h.of_kept rfl rfl rfl (fun _ _ _ => Iff.rfl) (le_refl _) h.optimistic fun _ _ => Iff.rfl
  · rw [hstep, releaseHeld_optimistic h (mem_of_getElem? hget)]
    refine ⟨h.config, h.waiting, h.optimistic, ?_, ?_⟩
    · intro other answer hmem
      obtain hmem | hmem := mem_append.mp hmem
      · exact h.logged other answer hmem
      · cases mem_singleton.mp hmem
        exact (List.getElem?_eq_some_iff.mp hget).1
    · intro escrowId
      show (commitOptimistic w.manager.versions granted.escrowId 0).2 escrowId = 0 ↔ _
      rw [commitOptimistic_snd, h.versions escrowId]
      constructor
      · rintro ⟨hne, hnone⟩ ⟨other, released, hother, hesc, hmem⟩
        obtain hmem | hmem := mem_append.mp hmem
        · exact hnone ⟨other, released, hother, hesc, hmem⟩
        · obtain ⟨rfl, -⟩ := Event.released.inj (mem_singleton.mp hmem)
          obtain rfl := Option.some.inj (hget.symm.trans hother)
          exact hne hesc.symm
      · intro hnone
        have hpre : ∀ escrow, w.Committed escrow → escrow ≠ escrowId := by
          rintro escrow ⟨other, released, hother, hesc, hmem⟩ rfl
          exact hnone ⟨other, released, hother, hesc, mem_append_left _ hmem⟩
        refine ⟨?_, fun hcommitted => hpre escrowId hcommitted rfl⟩
        rintro rfl
        -- Either this release commits, or one before it did.
        cases hans : (commitOptimistic w.manager.versions granted.escrowId 0).1 with
        | true => exact hnone ⟨ref, granted, hget, rfl, by simp [hans]⟩
        | false =>
          have hver : ¬ w.manager.versions granted.escrowId = 0 := by
            rw [← commitOptimistic_fst, hans]
            exact Bool.false_ne_true
          rw [h.versions, not_not] at hver
          exact hpre _ hver rfl

theorem Counted.step (h : Counted w) (action : Action) : Counted (FundingLock.step w action) := by
  cases action with
  | acquireLock escrowId holderId timeoutMs checked tried returned =>
    exact h.acquireLock escrowId holderId timeoutMs checked tried returned
  | wake index checked tried returned =>
    have hnone : w.waiting[index]? = none := by simp [h.waiting]
    simp only [FundingLock.step, hnone]
    exact h
  | releaseLock ref holderId => exact h.releaseLock ref holderId
  | extendLock ref holderId additionalMs => exact h.extendLock ref holderId additionalMs
  | advance elapsed => exact h.of_kept rfl rfl rfl (fun _ _ _ => Iff.rfl) (le_refl _) h.optimistic fun _ _ => Iff.rfl

theorem Counted.run (h : Counted w) (actions : List Action) : Counted (FundingLock.run w actions) := by
  induction actions generalizing w with
  | nil => exact h
  | cons action rest ih => exact ih (h.step action)

theorem releaseLock_optimistic (h : Counted w) {granted : Granted} (hmem : granted ∈ w.granted) (holderId : String) :
    (w.manager.releaseLock granted.acquisition holderId).1 = true ↔
      granted.acquisition.holderId = holderId ∧ ¬ w.Committed granted.escrowId := by
  by_cases hholder : granted.acquisition.holderId = holderId
  · rw [EscrowFundingLockManager.releaseLock, if_neg (not_not.mpr hholder), releaseHeld_optimistic h hmem,
      commitOptimistic_fst, h.versions]
    exact (and_iff_right hholder).symm
  · simp [EscrowFundingLockManager.releaseLock, hholder]

/-- After any calls, a release succeeds exactly when there was no conflict, if and only if there was one or the
holder releases the first acquisition of the escrow to be released at all. -/
theorem release_exact_iff (config : EscrowLockConfig) (hcfg : config.lockType = .optimistic) (clock : Int)
    (actions : List Action) {ref : Nat} {granted : Granted}
    (hget : (run (World.new config clock) actions).granted[ref]? = some granted) (holderId : String) :
    (((run (World.new config clock) actions).manager.releaseLock granted.acquisition holderId).1 = true ↔
        ¬ (run (World.new config clock) actions).Conflict ref granted.escrowId) ↔
      (run (World.new config clock) actions).Conflict ref granted.escrowId ∨ (granted.acquisition.holderId = holderId ∧
          ¬ (run (World.new config clock) actions).Committed granted.escrowId) := by
  have hcnt := (Counted.new hcfg clock).run actions
  rw [releaseLock_optimistic hcnt (mem_of_getElem? hget)]
  by_cases hconflict : (run (World.new config clock) actions).Conflict ref granted.escrowId
  · simp [hconflict, hconflict.committed]
  · simp [hconflict]

/-! ### Two fundings of one escrow, one after the other -/

def optimisticConfig : EscrowLockConfig := ⟨.optimistic, 4, 5000, 10000, 3 / 10⟩

def inTurn : List Action :=
  [.acquireLock "escrow" "first" none 0 0 0, .releaseLock 0 "first", .acquireLock "escrow" "second" none 0 0 0]

def secondGranted : Granted := ⟨"escrow", ⟨"opt:escrow", -1, .optimistic, 0, 5000, "second"⟩⟩

theorem no_conflict_inTurn : ¬ (run (World.new optimisticConfig 0) inTurn).Conflict 1 "escrow" := by
  rintro ⟨other, granted, -, -, -, hmem⟩
  have hsince : Event.released other true ∈ [Event.acquired 1] := hmem
  simp at hsince

theorem release_exact_iff_first :
    ((run (World.new optimisticConfig 0) [.acquireLock "escrow" "first" none 0 0 0]).manager.releaseLock
        ⟨"opt:escrow", -1, .optimistic, 0, 5000, "first"⟩ "first").1 = true ↔
      ¬ (run (World.new optimisticConfig 0) [.acquireLock "escrow" "first" none 0 0 0]).Conflict 0 "escrow" := by
  have hget : (run (World.new optimisticConfig 0) [.acquireLock "escrow" "first" none 0 0 0]).granted[0]? =
      some ⟨"escrow", ⟨"opt:escrow", -1, .optimistic, 0, 5000, "first"⟩⟩ := by decide
  refine (release_exact_iff optimisticConfig rfl 0 [.acquireLock "escrow" "first" none 0 0 0] hget "first").mpr ?_
  refine .inr ⟨rfl, ?_⟩
  rintro ⟨other, granted, -, -, hmem⟩
  have hlog : Event.released other true ∈ [Event.acquired 0] := hmem
  simp at hlog

/-- The second funding runs alone, and its release fails. -/
theorem release_inTurn_fails : (run (World.new optimisticConfig 0) inTurn).granted[1]? = some secondGranted ∧
      ((run (World.new optimisticConfig 0) inTurn).manager.releaseLock secondGranted.acquisition "second").1 = false ∧
      ¬ (run (World.new optimisticConfig 0) inTurn).Conflict 1 secondGranted.escrowId :=
  ⟨by decide, by decide, no_conflict_inTurn⟩

end Delego.FundingLock
