import Delego.Data.Table
import Delego.FundingLock.Manager

/-! Exclusion by the pessimistic lock.

An acquisition protects its holder while its stripe stands behind it: held in the same name and not to expire before it
(`Backed`). Two calls can take the stripe from under an acquisition. In runs without either (`Safe`) every acquisition
in force is backed, and no one else gets in. -/
namespace Delego.FundingLock
open Delego.Data List

/-- The holder has called `releaseLock` with the acquisition. -/
def World.Released (w : World) (ref : Nat) : Prop := ∃ answer, Event.released ref answer ∈ w.log

def World.InForce (w : World) (ref : Nat) (granted : Granted) : Prop :=
  w.granted[ref]? = some granted ∧ ¬ w.Released ref ∧ w.clock < granted.acquisition.expiresAt

/-- The stripe stands behind a holder until `time`. -/
def Behind (stripes : List LockStripe) (stripeIndex : Int) (holderId : String) (time : Int) : Prop :=
  ∃ stripe, stripes[stripeIndex.toNat]? = some stripe ∧ stripe.holderId = some holderId ∧ time ≤ stripe.expiresAt

/-- What a call must find: an extension stays within what the stripe still grants, or ends in the past; a release
finds no other acquisition of its holder in force on the stripe. -/
def Safe (w : World) : Action → Prop
  | .extendLock ref holderId additionalMs =>
    ∀ granted, w.granted[ref]? = some granted → granted.acquisition.holderId = holderId →
      w.Released ref ∨ granted.acquisition.expiresAt + additionalMs ≤ w.clock ∨
        Behind w.manager.stripes granted.acquisition.stripeIndex holderId (granted.acquisition.expiresAt + additionalMs)
  | .releaseLock ref holderId =>
    ∀ granted, w.granted[ref]? = some granted → granted.acquisition.holderId = holderId →
      ∀ other later, other ≠ ref → w.InForce other later → later.acquisition.holderId = holderId →
        later.acquisition.stripeIndex ≠ granted.acquisition.stripeIndex
  | _ => True

/-- Every call of the run is safe where it is made. -/
def SafeRun (w : World) : List Action → Prop
  | [] => True
  | action :: rest => Safe w action ∧ SafeRun (step w action) rest

/-- Nothing happened but that time passed and calls came and went. -/
structure Quiet (w w' : World) : Prop where
  stripes : w'.manager.stripes = w.manager.stripes
  config : w'.manager.config = w.manager.config
  granted : w'.granted = w.granted
  log : w'.log = w.log
  clock : w.clock ≤ w'.clock

/-- An acquisition was returned: its stripe was not taken when it was tried. -/
structure Grants (w w' : World) (fresh : Granted) : Prop where
  tried : w.clock ≤ fresh.acquisition.acquiredAt
  index : fresh.acquisition.stripeIndex = getStripeIndex w.manager.stripes.length fresh.escrowId
  found : ∃ stripe, w.manager.stripes[fresh.acquisition.stripeIndex.toNat]? = some stripe ∧
    stripe.taken fresh.acquisition.acquiredAt = false
  lockType : fresh.acquisition.lockType = .pessimistic
  stripes : w'.manager.stripes = w.manager.stripes.set fresh.acquisition.stripeIndex.toNat
    ⟨some fresh.acquisition.holderId, fresh.acquisition.acquiredAt, fresh.acquisition.expiresAt⟩
  config : w'.manager.config = w.manager.config
  granted : w'.granted = w.granted ++ [fresh]
  log : w'.log = w.log ++ [.acquired w.granted.length]
  clock : fresh.acquisition.acquiredAt ≤ w'.clock

theorem attempt_cases (w : World) (call : Waiting) (tried returned : Nat) : Quiet w (w.attempt call tried returned) ∨
      ∃ fresh, Grants w (w.attempt call tried returned) fresh := by
  unfold World.attempt
  by_cases hdead : w.clock < call.deadline
  · rw [if_pos hdead]
    cases hfound : w.manager.stripes[getStripeIndex w.manager.stripes.length call.escrowId]? with
    | none =>
      left
      simp only [tryAcquire, hfound]
      exact ⟨rfl, rfl, rfl, rfl, Int.le_add_of_nonneg_right (Int.natCast_nonneg tried)⟩
    | some stripe =>
      cases htaken : stripe.taken (w.clock + tried) with
      | true =>
        left
        simp only [tryAcquire, hfound, htaken, if_true]
        exact ⟨rfl, rfl, rfl, rfl, Int.le_add_of_nonneg_right (Int.natCast_nonneg tried)⟩
      | false =>
        right
        simp only [tryAcquire, hfound, htaken, Bool.false_eq_true, if_false]
        refine ⟨⟨call.escrowId,
          { lockId := s!"{call.escrowId}:{getStripeIndex w.manager.stripes.length call.escrowId}"
            stripeIndex := getStripeIndex w.manager.stripes.length call.escrowId
            lockType := .pessimistic
            acquiredAt := w.clock + tried
            expiresAt := w.clock + tried + call.effectiveTimeout
            holderId := call.holderId }⟩, ⟨?_, rfl, ⟨stripe, hfound, htaken⟩, rfl, rfl, rfl, rfl, rfl, ?_⟩⟩
        · exact Int.le_add_of_nonneg_right (Int.natCast_nonneg tried)
        · exact Int.le_add_of_nonneg_right (Int.natCast_nonneg returned)
  · rw [if_neg hdead]
    exact .inl ⟨rfl, rfl, rfl, rfl, le_refl _⟩

variable {w : World}

theorem acquireLock_cases (hcfg : w.manager.config.lockType = .pessimistic) (escrowId holderId : String)
    (timeoutMs : Option Int) (checked tried returned : Nat) :
    Quiet w (step w (.acquireLock escrowId holderId timeoutMs checked tried returned)) ∨
      ∃ fresh, Grants w (step w (.acquireLock escrowId holderId timeoutMs checked tried returned)) fresh := by
  have hselect : ¬ selectLockType escrowId w.manager.tracker w.manager.config = .optimistic := by
    simp [selectLockType, hcfg]
  have hlater : w.clock ≤ w.clock + checked := Int.le_add_of_nonneg_right (Int.natCast_nonneg checked)
  simp only [step, World.acquireLock, if_neg hselect]
  obtain hquiet | ⟨fresh, hgrants⟩ := attempt_cases { w with clock := w.clock + checked }
    ⟨escrowId, holderId, timeoutMs.getD w.manager.config.lockTimeoutMs, w.clock,
      w.clock + w.manager.config.waitTimeoutMs, 0⟩ tried returned
  · exact .inl ⟨hquiet.stripes, hquiet.config, hquiet.granted, hquiet.log, hlater.trans hquiet.clock⟩
  · exact .inr ⟨fresh, { hgrants with tried := hlater.trans hgrants.tried }⟩

theorem wake_cases (w : World) (index checked tried returned : Nat) :
    Quiet w (step w (.wake index checked tried returned)) ∨
      ∃ fresh, Grants w (step w (.wake index checked tried returned)) fresh := by
  have hlater : w.clock ≤ w.clock + checked := Int.le_add_of_nonneg_right (Int.natCast_nonneg checked)
  cases hcall : w.waiting[index]? with
  | none =>
    simp only [step, hcall]
    exact .inl ⟨rfl, rfl, rfl, rfl, le_refl _⟩
  | some call =>
    simp only [step, hcall]
    obtain hquiet | ⟨fresh, hgrants⟩ := attempt_cases
      { w with clock := w.clock + checked, waiting := w.waiting.eraseIdx index } call tried returned
    · exact .inl ⟨hquiet.stripes, hquiet.config, hquiet.granted, hquiet.log, hlater.trans hquiet.clock⟩
    · exact .inr ⟨fresh, { hgrants with tried := hlater.trans hgrants.tried }⟩

/-- Every acquisition in force has its stripe behind it. -/
structure Backed (w : World) : Prop where
  config : w.manager.config.lockType = .pessimistic
  indexed : ∀ granted ∈ w.granted,
    granted.acquisition.stripeIndex = getStripeIndex w.manager.stripes.length granted.escrowId ∧
      granted.acquisition.lockType = .pessimistic
  logged : ∀ ref answer, Event.released ref answer ∈ w.log → ref < w.granted.length
  behind : ∀ ref granted, w.InForce ref granted →
    Behind w.manager.stripes granted.acquisition.stripeIndex granted.acquisition.holderId granted.acquisition.expiresAt

theorem Backed.new {config : EscrowLockConfig} (h : config.lockType = .pessimistic) (clock : Int) :
    Backed (World.new config clock) where
  config := h
  indexed _ hmem := absurd hmem not_mem_nil
  logged _ _ hmem := absurd hmem not_mem_nil
  behind ref granted hforce := by simp [World.InForce, World.new] at hforce

variable {w' : World}

theorem Backed.quiet (h : Backed w) (hquiet : Quiet w w') : Backed w' where
  config := by
    rw [hquiet.config]
    exact h.config
  indexed := by
    rw [hquiet.granted, hquiet.stripes]
    exact h.indexed
  logged := by
    rw [hquiet.granted, hquiet.log]
    exact h.logged
  behind ref granted hforce := by
    obtain ⟨hget, hrel, hclock⟩ := hforce
    rw [hquiet.granted] at hget
    rw [World.Released, hquiet.log] at hrel
    rw [hquiet.stripes]
    exact h.behind ref granted ⟨hget, hrel, lt_of_le_of_lt hquiet.clock hclock⟩

variable {fresh granted : Granted} {ref : Nat}

theorem Backed.expired (h : Backed w) (hgrants : Grants w w' fresh) (hget : w.granted[ref]? = some granted)
    (hrel : ¬ w.Released ref) (hstripe : granted.acquisition.stripeIndex = fresh.acquisition.stripeIndex) :
    granted.acquisition.expiresAt ≤ fresh.acquisition.acquiredAt := by
  by_contra hlater
  have hclock : w.clock < granted.acquisition.expiresAt := by
    have htried := hgrants.tried
    omega
  obtain ⟨stripe, hstripe', hholder, hexpires⟩ := h.behind ref granted ⟨hget, hrel, hclock⟩
  obtain ⟨found, hfound, hfree⟩ := hgrants.found
  rw [hstripe, hfound] at hstripe'
  obtain rfl := Option.some.inj hstripe'
  have hpast : ¬ fresh.acquisition.acquiredAt < found.expiresAt := by simpa [LockStripe.taken, hholder] using hfree
  omega

theorem Backed.grants (h : Backed w) (hgrants : Grants w w' fresh) : Backed w' where
  config := by
    rw [hgrants.config]
    exact h.config
  indexed granted hmem := by
    rw [hgrants.granted, mem_append, mem_singleton] at hmem
    rw [hgrants.stripes, length_set]
    obtain hmem | rfl := hmem
    · exact h.indexed granted hmem
    · exact ⟨hgrants.index, hgrants.lockType⟩
  logged ref answer hmem := by
    rw [hgrants.log, mem_append, mem_singleton] at hmem
    rw [hgrants.granted, length_append]
    obtain hmem | hmem := hmem
    · exact Nat.lt_add_right _ (h.logged ref answer hmem)
    · cases hmem
  behind ref granted hforce := by
    obtain ⟨hget, hrel, hclock⟩ := hforce
    have hpre : ¬ w.Released ref := by
      rintro ⟨answer, hmem⟩
      exact hrel ⟨answer, by rw [hgrants.log]; exact mem_append_left _ hmem⟩
    rw [hgrants.stripes]
    rw [hgrants.granted] at hget
    obtain hget | ⟨-, rfl⟩ := getElem?_concat_cases hget
    · -- An older acquisition: it is on another stripe, or else it has expired.
      have hne : granted.acquisition.stripeIndex ≠ fresh.acquisition.stripeIndex := by
        intro heq
        have hexp := h.expired hgrants hget hpre heq
        have hlast := hgrants.clock
        omega
      have hold : w.clock < granted.acquisition.expiresAt := by
        have htried := hgrants.tried
        have hlast := hgrants.clock
        omega
      obtain ⟨stripe, hstripe, hholder, hexpires⟩ := h.behind ref granted ⟨hget, hpre, hold⟩
      refine ⟨stripe, ?_, hholder, hexpires⟩
      have hindex := (h.indexed granted (mem_of_getElem? hget)).1
      have hindex' := hgrants.index
      rw [getElem?_set_ne (by omega)]
      exact hstripe
    · obtain ⟨stripe, hstripe, -⟩ := hgrants.found
      refine ⟨_, getElem?_set_self ?_, rfl, le_refl _⟩
      exact (List.getElem?_eq_some_iff.mp hstripe).1

variable {holderId : String}

theorem getElem?_release {stripes : List LockStripe} {stripeIndex i : Nat} {stripe : LockStripe}
    (h : stripes[i]? = some stripe) (hother : i ≠ stripeIndex ∨ stripe.holderId ≠ some holderId) :
    (release stripes stripeIndex holderId).2[i]? = some stripe := by
  cases hfound : stripes[stripeIndex]? with
  | none =>
    simp only [release, hfound]
    exact h
  | some found =>
    by_cases hheld : found.holderId = some holderId
    · have hne : stripeIndex ≠ i := by
        rintro rfl
        obtain hne | hne := hother
        · exact hne rfl
        · obtain rfl := Option.some.inj (hfound.symm.trans h)
          exact hne hheld
      simp only [release, hfound, hheld, if_true]
      rw [getElem?_set_ne hne]
      exact h
    · simp only [release, hfound, hheld, if_false]
      exact h

theorem length_release (stripes : List LockStripe) (stripeIndex : Nat) (holderId : String) :
    (release stripes stripeIndex holderId).2.length = stripes.length := by
  unfold release
  split
  · rfl
  · split
    · exact length_set
    · rfl

theorem stripes_releaseHeld (h : Backed w) (hmem : granted ∈ w.granted) :
    (w.manager.releaseHeld granted.acquisition).2.stripes =
      (release w.manager.stripes granted.acquisition.stripeIndex.toNat granted.acquisition.holderId).2 := by
  have hpessimistic := (h.indexed granted hmem).2
  simp [EscrowFundingLockManager.releaseHeld, hpessimistic]

/-- A release leaves the stripe of another acquisition in force: it is another stripe, or in
another's name. -/
theorem Backed.behind_release (h : Backed w) {other : Nat} {released : Granted}
    (hsafe : Safe w (.releaseLock ref released.acquisition.holderId)) (hget : w.granted[ref]? = some released)
    (hne : other ≠ ref) (hforce : w.InForce other granted) :
    Behind (release w.manager.stripes released.acquisition.stripeIndex.toNat released.acquisition.holderId).2
      granted.acquisition.stripeIndex granted.acquisition.holderId granted.acquisition.expiresAt := by
  obtain ⟨stripe, hstripe, hname, hexpires⟩ := h.behind other granted hforce
  refine ⟨stripe, getElem?_release hstripe ?_, hname, hexpires⟩
  by_cases heq : granted.acquisition.holderId = released.acquisition.holderId
  · left
    have hindex := hsafe released hget rfl other granted hne hforce heq
    have hnat := (h.indexed granted (mem_of_getElem? hforce.1)).1
    have hnat' := (h.indexed released (mem_of_getElem? hget)).1
    omega
  · right
    rw [hname]
    simpa using heq

theorem Backed.releaseLock (h : Backed w) (hsafe : Safe w (.releaseLock ref holderId)) :
    Backed (step w (.releaseLock ref holderId)) := by
  obtain ⟨tracker, hstep⟩ | ⟨released, hget, rfl, hstep⟩ := releaseLock_cases w ref holderId
  · rw [hstep]
    exact h.quiet ⟨rfl, rfl, rfl, rfl, le_refl _⟩
  · have hstripes := stripes_releaseHeld h (mem_of_getElem? hget)
    rw [hstep]
    refine ⟨?_, ?_, ?_, ?_⟩
    · exact (congrArg EscrowLockConfig.lockType (config_releaseHeld _ _)).trans h.config
    · simp only [hstripes, length_release]
      exact h.indexed
    · intro other answer hmem
      obtain hmem | hmem := mem_append.mp hmem
      · exact h.logged other answer hmem
      · cases mem_singleton.mp hmem
        exact (List.getElem?_eq_some_iff.mp hget).1
    · rintro other granted ⟨hother, hrel, htime⟩
      -- What is in force afterwards was so before, and is not what was released.
      have hpre : w.InForce other granted := by
        refine ⟨hother, ?_, htime⟩
        rintro ⟨answer, hmem⟩
        exact hrel ⟨answer, mem_append_left _ hmem⟩
      have hne : other ≠ ref := by
        rintro rfl
        exact hrel ⟨_, mem_append_right _ (mem_singleton_self _)⟩
      simp only [hstripes]
      exact h.behind_release hsafe hget hne hpre

theorem Backed.extendLock (h : Backed w) {additionalMs : Int} (hsafe : Safe w (.extendLock ref holderId additionalMs)) :
    Backed (step w (.extendLock ref holderId additionalMs)) where
  config := h.config
  indexed granted hmem := by
    obtain ⟨i, hget⟩ := mem_iff_getElem?.mp hmem
    have hget' : (w.granted.modify ref fun granted =>
        { granted with acquisition := granted.acquisition.extendLock holderId additionalMs })[i]? =
          some granted := hget
    rw [getElem?_modify] at hget'
    obtain ⟨before, hpre, rfl⟩ := Option.map_eq_some_iff.mp hget'
    have hidx := h.indexed before (mem_of_getElem? hpre)
    split
    · simp only [LockAcquisition.extendLock]
      split
      · exact hidx
      · exact hidx
    · exact hidx
  logged ref' answer hmem := by
    show ref' < (w.granted.modify _ _).length
    rw [length_modify]
    exact h.logged ref' answer hmem
  behind other granted hforce := by
    obtain ⟨hget, hrel, hclock⟩ := hforce
    have hget' : (w.granted.modify ref fun granted =>
        { granted with acquisition := granted.acquisition.extendLock holderId additionalMs })[other]? =
          some granted := hget
    rw [getElem?_modify] at hget'
    obtain ⟨before, hpre, rfl⟩ := Option.map_eq_some_iff.mp hget'
    by_cases hother : ref = other
    · subst hother
      simp only [if_true] at hclock ⊢
      by_cases hholder : before.acquisition.holderId = holderId
      · simp only [LockAcquisition.extendLock, hholder, ne_eq, not_true, if_false] at hclock ⊢
        obtain hdone | hpast | hbehind := hsafe before hpre hholder
        · exact absurd hdone hrel
        · exact absurd hclock (not_lt.mpr hpast)
        · exact hbehind
      · simp only [LockAcquisition.extendLock, hholder, ne_eq, not_false_eq_true, if_true] at hclock ⊢
        exact h.behind ref before ⟨hpre, hrel, hclock⟩
    · simp only [hother, if_false] at hclock ⊢
      exact h.behind other before ⟨hpre, hrel, hclock⟩

theorem Backed.step (h : Backed w) {action : Action} (hsafe : Safe w action) : Backed (FundingLock.step w action) := by
  cases action with
  | acquireLock escrowId holderId timeoutMs checked tried returned =>
    obtain hquiet | ⟨fresh, hgrants⟩ := acquireLock_cases h.config escrowId holderId timeoutMs checked tried returned
    · exact h.quiet hquiet
    · exact h.grants hgrants
  | wake index checked tried returned =>
    obtain hquiet | ⟨fresh, hgrants⟩ := wake_cases w index checked tried returned
    · exact h.quiet hquiet
    · exact h.grants hgrants
  | releaseLock ref holderId => exact h.releaseLock hsafe
  | extendLock ref holderId additionalMs => exact h.extendLock hsafe
  | advance elapsed => exact h.quiet ⟨rfl, rfl, rfl, rfl, Int.le_add_of_nonneg_right (Int.natCast_nonneg elapsed)⟩

theorem Backed.run (h : Backed w) {actions : List Action} (hsafe : SafeRun w actions) :
    Backed (FundingLock.run w actions) := by
  induction actions generalizing w with
  | nil => exact h
  | cons action rest ih => exact ih (h.step hsafe.1) hsafe.2

theorem grants_of_step (h : Backed w) {action : Action} (hfresh : (step w action).granted = w.granted ++ [fresh]) :
    Grants w (step w action) fresh := by
  have hgrown : (step w action).granted.length = w.granted.length + 1 := by
    rw [hfresh, length_append]
    rfl
  have hcases : Quiet w (step w action) ∨ ∃ other, Grants w (step w action) other := by
    cases action with
    | acquireLock escrowId holderId timeoutMs checked tried returned =>
      exact acquireLock_cases h.config escrowId holderId timeoutMs checked tried returned
    | wake index checked tried returned => exact wake_cases w index checked tried returned
    | releaseLock ref holderId =>
      obtain ⟨tracker, hstep⟩ | ⟨granted, -, -, hstep⟩ := releaseLock_cases w ref holderId
      · simp [hstep] at hgrown
      · simp [hstep] at hgrown
    | extendLock ref holderId additionalMs => simp [step] at hgrown
    | advance elapsed => simp [step] at hgrown
  obtain hquiet | ⟨other, hgrants⟩ := hcases
  · rw [hquiet.granted] at hgrown
    omega
  · have heq : [other] = [fresh] := append_cancel_left (hgrants.granted.symm.trans hfresh)
    cases heq
    exact hgrants

theorem stripe_of_release (h : Backed w) {i : Nat} {other : String} {stripe : LockStripe}
    (hstripe : w.manager.stripes[i]? = some stripe) (hheld : stripe.holderId = some other) (hother : other ≠ holderId) :
    (step w (.releaseLock ref holderId)).manager.stripes[i]? = some stripe := by
  obtain ⟨tracker, hstep⟩ | ⟨granted, hget, rfl, hstep⟩ := releaseLock_cases w ref holderId
  · rw [hstep]
    exact hstripe
  · simp only [hstep, stripes_releaseHeld h (mem_of_getElem? hget)]
    apply getElem?_release hstripe
    right
    rw [hheld]
    simpa using hother

/-- In a run of safe calls, an acquisition that is granted finds every earlier one of the same
escrow released or expired, as last extended; and a release never frees a stripe that is in
another's name. -/
theorem exclusive_of_safe (config : EscrowLockConfig) (hcfg : config.lockType = .pessimistic) (clock : Int)
    {actions : List Action} (hsafe : SafeRun (World.new config clock) actions) (action : Action) :
    (∀ fresh, (step (run (World.new config clock) actions) action).granted =
          (run (World.new config clock) actions).granted ++ [fresh] →
        ∀ ref granted, (run (World.new config clock) actions).granted[ref]? = some granted →
          granted.escrowId = fresh.escrowId → (run (World.new config clock) actions).Released ref ∨
              granted.acquisition.expiresAt ≤ fresh.acquisition.acquiredAt) ∧
      (∀ ref holderId, action = .releaseLock ref holderId → ∀ (i : Nat) (stripe : LockStripe) (other : String),
          (run (World.new config clock) actions).manager.stripes[i]? = some stripe →
          stripe.holderId = some other → other ≠ holderId →
            (step (run (World.new config clock) actions) action).manager.stripes[i]? = some stripe) := by
  have hbacked := (Backed.new hcfg clock).run hsafe
  constructor
  · intro fresh hfresh ref granted hget hesc
    by_cases hrel : (run (World.new config clock) actions).Released ref
    · exact .inl hrel
    · right
      have hgrants := grants_of_step hbacked hfresh
      have hindex := (hbacked.indexed granted (mem_of_getElem? hget)).1
      rw [hesc] at hindex
      exact hbacked.expired hgrants hget hrel (hindex.trans hgrants.index.symm)
  · rintro ref holderId rfl i stripe other hstripe hheld hother
    exact stripe_of_release hbacked hstripe hheld hother

/-! ### Two holders of one escrow -/

def pessimisticConfig : EscrowLockConfig := ⟨.pessimistic, 4, 5000, 10000, 3 / 10⟩

/-- The first holder gives up a second of its time, and releases once that has passed. -/
def shortened : List Action :=
  [.acquireLock "escrow" "first" none 0 0 0, .extendLock 0 "first" (-1000), .advance 4000, .releaseLock 0 "first"]

def second : Action := .acquireLock "escrow" "second" none 0 0 0

theorem safeRun_shortened : SafeRun (World.new pessimisticConfig 0) shortened := by
  refine ⟨trivial, ?_, trivial, ?_, trivial⟩
  · intro granted hget _
    have hgranted : some (⟨"escrow", ⟨"escrow:3", 3, .pessimistic, 0, 5000, "first"⟩⟩ : Granted) = some granted := hget
    cases hgranted
    exact .inr (.inr ⟨⟨some "first", 0, 5000⟩, by decide, rfl, by decide⟩)
  · intro granted _ _ other later hother hforce _
    -- There is no other acquisition.
    have hlen : other < 1 := (List.getElem?_eq_some_iff.mp hforce.1).1
    omega

theorem exclusive_of_safe_shortened : SafeRun (World.new pessimisticConfig 0) shortened ∧
      ∀ granted, (run (World.new pessimisticConfig 0) shortened).granted[0]? = some granted →
        granted.escrowId = "escrow" → (run (World.new pessimisticConfig 0) shortened).Released 0 ∨
            granted.acquisition.expiresAt ≤ 4000 := by
  refine ⟨safeRun_shortened, fun granted hget hesc => ?_⟩
  have hexclusive := exclusive_of_safe pessimisticConfig rfl 0 safeRun_shortened second
  exact hexclusive.1 ⟨"escrow", ⟨"escrow:3", 3, .pessimistic, 4000, 9000, "second"⟩⟩ (by decide) 0 granted hget hesc

def extended : List Action := [.acquireLock "escrow" "first" none 0 0 0, .extendLock 0 "first" 10000, .advance 6000]

/-- Nine seconds before the extended acquisition expires, its stripe is free for the second. -/
theorem granted_over_extended : ∃ granted fresh, (run (World.new pessimisticConfig 0) extended).granted[0]? = some granted ∧
      ¬ (run (World.new pessimisticConfig 0) extended).Released 0 ∧
      (step (run (World.new pessimisticConfig 0) extended) second).granted =
        (run (World.new pessimisticConfig 0) extended).granted ++ [fresh] ∧
      granted.escrowId = fresh.escrowId ∧
      granted.acquisition.holderId ≠ fresh.acquisition.holderId ∧
      fresh.acquisition.acquiredAt < granted.acquisition.expiresAt := by
  refine ⟨⟨"escrow", ⟨"escrow:3", 3, .pessimistic, 0, 15000, "first"⟩⟩,
    ⟨"escrow", ⟨"escrow:3", 3, .pessimistic, 6000, 11000, "second"⟩⟩, by decide, ?_, by decide, rfl,
    by decide, by decide⟩
  rintro ⟨answer, hmem⟩
  have hlog : Event.released 0 answer ∈ [Event.acquired 0] := hmem
  simp at hlog

/-- The first holder lets an acquisition expire, acquires again and then releases the old one. -/
def stale : List Action :=
  [.acquireLock "escrow" "first" none 0 0 0, .advance 6000, .acquireLock "escrow" "first" none 0 0 0,
    .releaseLock 0 "first"]

/-- The stripe is free although the later acquisition, not released, has five seconds left. -/
example : (run (World.new pessimisticConfig 0) stale).manager.stripes = replicate 4 freeStripe ∧
    (run (World.new pessimisticConfig 0) stale).granted[1]? =
      some ⟨"escrow", ⟨"escrow:3", 3, .pessimistic, 6000, 11000, "first"⟩⟩ := by
  decide

end Delego.FundingLock
