import Delego.GasTank.Books

/-! What an account is charged.

The submitter says of a duplicate that it has been charged already, and records it like any other: it is charged again.
An account is charged under the name it is written with, though it is the same one if blanks stand around it
(`charged_twice`). -/
namespace Delego.GasTank
open Delego.Process Delego.Data List

def sameDay (cfg : Settings) (p : TankPool) : Action (system cfg) → Bool
  | .drift (.passes ms) => decide (utcDay (p.world.clock + ms) = p.world.today) ||
    p.trace.all fun e => decide ((stage e.runner p.trace).uncounted = 0)
  | _ => true

def firstTime (p : TankPool) (request : SponsoredSubmitRequest) (_ : Seen) (hash : String) : Bool :=
  decide (hash ∉ (p.world.acknowledgedFor (trim request.buyerAccount)).map Acknowledgement.hash) &&
    decide (hash ∉ (p.world.acknowledgedOn p.world.today).map Acknowledgement.hash)

def charging (cfg : Settings) (p : TankPool) (a : Action (system cfg)) : Bool :=
  onStep (recorded cfg) p a &&
    onStep (fun p _ o ch => whenAcknowledged cfg p.world o ch (firstTime p)) p a && sameDay cfg p a

def distinct (acknowledged : List Acknowledgement) : List Acknowledgement :=
  acknowledged.pwFilter fun a b => a.hash ≠ b.hash

theorem distinct_self {acknowledged : List Acknowledgement} (h : (acknowledged.map Acknowledgement.hash).Nodup) :
    distinct acknowledged = acknowledged :=
  pwFilter_eq_self.mpr (pairwise_map.mp h)

def Stage.DatedOn (today : Int) : Stage → Prop
  | .dated _ _ _ time => utcDay time = today
  | _ => True

/-- What the day's counter says, with what is owed to it, is what has been acknowledged today. -/
structure Counted (w : World) (φ : Nat → Stage) : Prop where
  dated : ∀ i, (φ i).DatedOn w.today
  ledgers : ∃ total, Balance Stage.uncounted φ total ∧ w.dailyLedgers w.today + total = (w.acknowledgedOn w.today).length

section
variable {cfg : Settings} {cond : SponsoredSubmitRequest → Seen → String → Bool} {w w' : World} {tr : TankTrace}
  {φ : Nat → Stage} {i : Nat}

theorem Posts.ledgers {ψ φ' : Stage} (h : Posts cfg cond w ψ w' φ') (hdated : ψ.DatedOn w.today) :
    w'.dailyLedgers w.today + φ'.uncounted - ψ.uncounted - ((w'.acknowledgedOn w.today).length : Int) =
      w.dailyLedgers w.today - ((w.acknowledgedOn w.today).length : Int) := by
  cases h with
  | nothing _ same =>
    simp only [World.dailyLedgers, World.dailyCounter, World.acknowledgedOn, same.daily, same.clock, same.acknowledged]
    omega
  | dates | redates =>
    simp only [Stage.uncounted]
    omega
  | acknowledges request seen hash =>
    rw [acknowledgedOn_acknowledge]
    change w.dailyLedgers w.today + _ - _ - _ = _
    simp only [Stage.uncounted]
    omega
  | counts account fee day time =>
    have hday : utcDay time = w.today := hdated
    rw [hday, dailyLedgers_count]
    change _ - ((w.acknowledgedOn w.today).length : Int) = _
    simp only [Stage.uncounted]
    omega
  | expires account fee day =>
    rw [dailyLedgers_expireAt (by simp only [DAY_SECONDS]; omega)]
    change _ - ((w.acknowledgedOn w.today).length : Int) = _
    omega
  | charges account fee =>
    change w.dailyLedgers w.today + _ - _ - ((w.acknowledgedOn w.today).length : Int) = _
    simp only [Stage.uncounted]
    omega

theorem Counted.step {φ' : Stage} (h : Counted w φ) (hposts : Posts cfg cond w (φ i) w' φ') :
    Counted w' (Function.update φ i φ') := by
  constructor
  · rw [hposts.today]
    refine update_cases h.dated ?_
    have hpre := h.dated i
    generalize φ i = ψ at hposts hpre
    cases hposts with
    | nothing _ same => exact hpre
    | dates | redates => rfl
    | acknowledges | counts | expires | charges => trivial
  · obtain ⟨total, hbal, htotal⟩ := h.ledgers
    refine ⟨_, hbal.update i φ', ?_⟩
    have hkept := hposts.ledgers (h.dated i)
    rw [hposts.today]
    omega

theorem Counted.passes {clock : Int} (h : Counted w φ) (hbooks : Books w tr φ) (hclock : w.clock ≤ clock)
    (hday : utcDay clock = w.today ∨ ∀ i, (φ i).uncounted = 0) : Counted { w with clock := clock } φ := by
  have hlater : w.today ≤ utcDay clock := by
    simp only [World.today, utcDay]
    omega
  rcases Int.lt_or_eq_of_le hlater with hnew | heq
  · have hcnt := hday.resolve_left (by omega)
    obtain ⟨hledgers, hacknowledged⟩ := hbooks.newDay hnew
    refine ⟨?_, 0, balance_zero hcnt, ?_⟩
    · intro i
      have hzero := hcnt i
      generalize φ i = ψ at hzero
      cases ψ with
      | dated account fee day time => cases hzero
      | idle | acknowledged | counted => trivial
    · change World.dailyLedgers { w with clock := clock } (utcDay clock) + 0 =
        ((World.acknowledgedOn { w with clock := clock } (utcDay clock)).length : Int)
      rw [hledgers, hacknowledged]
      rfl
  · have htoday : World.today { w with clock := clock } = w.today := heq.symm
    constructor
    · rw [htoday]
      exact h.dated
    · rw [htoday, hbooks.sameDay heq.symm]
      exact h.ledgers

end

/-- The transactions acknowledged for an account, or on a day, are different ones. -/
structure Once (w : World) : Prop where
  accounts : ∀ account, ((w.acknowledgedFor account).map Acknowledgement.hash).Nodup
  days : ∀ day, ((w.acknowledgedOn day).map Acknowledgement.hash).Nodup

theorem nodup_filter_cons {acknowledged : List Acknowledgement} {a : Acknowledgement} {cond : Acknowledgement → Bool}
    (h : ((acknowledged.filter cond).map Acknowledgement.hash).Nodup)
    (ha : cond a = true → a.hash ∉ (acknowledged.filter cond).map Acknowledgement.hash) :
    (((a :: acknowledged).filter cond).map Acknowledgement.hash).Nodup := by
  rw [filter_cons]
  split
  · rename_i hcond
    exact nodup_cons.mpr ⟨ha hcond, h⟩
  · exact h

section
variable {cfg : Settings}

theorem Once.step {p : TankPool} {w' : World} {ψ φ' : Stage} (h : Once p.world)
    (hposts : Posts cfg (firstTime p) p.world ψ w' φ') : Once w' := by
  rcases hposts.acknowledged with heq | ⟨request, seen, hash, rfl, -, -, hfirst⟩
  · constructor
    · intro account
      rw [World.acknowledgedFor, heq]
      exact h.accounts account
    · intro day
      rw [World.acknowledgedOn, heq]
      exact h.days day
  · simp only [firstTime, Bool.and_eq_true, decide_eq_true_eq] at hfirst
    constructor
    · intro account
      refine nodup_filter_cons (h.accounts account) ?_
      intro hacct
      rw [← of_decide_eq_true hacct]
      exact hfirst.1
    · intro day
      refine nodup_filter_cons (h.days day) ?_
      intro hday
      rw [← of_decide_eq_true hday]
      exact hfirst.2

theorem inductive_charged : Inductive (system cfg) (sponsoring cfg) .idle
    (fun p a => charging cfg p a = true) fun w tr φ => Books w tr φ ∧ Counted w φ ∧ Once w := by
  refine inductive_books.and (fun p a hg => (Bool.and_eq_true_iff.mp (Bool.and_eq_true_iff.mp hg).1).1) ?_ ?_ ?_
  · intro p φ call w _ _ hchg hw
    cases hw
    exact hchg
  · intro p φ e hg ht hchg
    cases e with
    | passes ms =>
      simp only [charging, Bool.and_eq_true, sameDay, Bool.or_eq_true, decide_eq_true_eq] at hg
      refine ⟨hchg.1.passes ht.holds (by omega) (hg.2.imp id ?_), hchg.2.accounts, hchg.2.days⟩
      exact fun hall => ht.holds.nothing rfl fun e he => of_decide_eq_true (all_eq_true.mp hall e he)
  · rintro p φ i o ch φ' hg hp ht hchg ha ⟨-, rfl⟩
    obtain ⟨hsteps, -⟩ := Bool.and_eq_true_iff.mp hg
    obtain ⟨hrecd, hfirst⟩ := Bool.and_eq_true_iff.mp hsteps
    have hposts := posts ha (onStep_pending hrecd hp) (onStep_pending hfirst hp)
    exact ⟨hchg.1.step hposts, hchg.2.step hposts⟩

theorem Counted.settled {p : TankPool} {φ : Nat → Stage} (ht : Tracked (sponsoring cfg) .idle Books p φ)
    (h : Counted p.world φ) (hquiet : p.quiet = true) :
    p.world.dailyLedgers p.world.today = (p.world.acknowledgedOn p.world.today).length ∧
      ∀ account, p.world.spent account = fees (p.world.acknowledgedFor account) := by
  have hidle : ∀ i, φ i = .idle := fun i => (ht.quiet hquiet i).elim id id
  constructor
  · obtain ⟨total, hbal, htotal⟩ := h.ledgers
    have hzero := hbal.single 0 fun j _ => by rw [hidle j]; rfl
    rw [hidle 0] at hzero
    simp only [Stage.uncounted] at hzero
    omega
  · intro account
    obtain ⟨total, hbal, htotal⟩ := ht.holds.stroops account
    have hzero := hbal.single 0 fun j _ => by rw [hidle j]; rfl
    rw [hidle 0] at hzero
    simp only [Stage.owed] at hzero
    omega

/-- **Where each acknowledged transaction is a new one and is recorded on its day, the counters say at rest what was
acknowledged.** -/
theorem spent_matches {w₀ : World} {q : TankPool} (hempty : Empty w₀)
    (hq : Run (system cfg) (fun p a => charging cfg p a = true) (Pool.start w₀) q) (hquiet : q.quiet = true) :
    q.world.dailyLedgers q.world.today = (distinct (q.world.acknowledgedOn q.world.today)).length ∧
      ∀ account, q.world.spent account = fees (distinct (q.world.acknowledgedFor account)) := by
  have hcnt : Counted w₀ fun _ => .idle := by
    refine ⟨fun _ => trivial, 0, balance_zero fun _ => rfl, ?_⟩
    simp [World.dailyLedgers, World.dailyCounter, World.acknowledgedOn, hempty.daily, hempty.acknowledged]
  have honce : Once w₀ := by constructor <;> simp [World.acknowledgedFor, World.acknowledgedOn, hempty.acknowledged]
  obtain ⟨φ, ht⟩ := inductive_charged.run hq ⟨_, .start ⟨hempty.books, hcnt, honce⟩⟩
  obtain ⟨-, hcnt, honce⟩ := ht.holds
  obtain ⟨hledgers, hstroops⟩ := hcnt.settled (ht.mono And.left) hquiet
  constructor
  · rw [distinct_self (honce.days _)]
    exact hledgers
  · intro account
    rw [distinct_self (honce.accounts account)]
    exact hstroops account

end

/-! ### Two submissions -/

def buyer : String := String.ofList ('G' :: replicate 55 'A')

def shop : String := String.ofList ('C' :: replicate 55 'A')

def sampleSettings (maxDailySponsoredLedgers : Int) : Settings where
  policy := ⟨maxDailySponsoredLedgers, "1000", [shop]⟩
  sponsorSecret := "sponsor"
  sign := .ok
  hash := fun xdr => "hash of " ++ xdr
  written := fun fee => some (fee : Int)
  bigInt := fun s => (parseStroops s).map Int.ofNat

def unused : World := ⟨1700000000000, fun _ => none, fun _ => none, [], []⟩

theorem empty_unused : Empty unused := ⟨fun _ => rfl, fun _ => rfl, rfl⟩

section
variable {cfg : Settings}

def submits (account txXdr feeStroops : String) : Action (system cfg) := .call ⟨account, txXdr, shop, feeStroops⟩

def goes (i steps : Nat) (status : RpcStatus) : List (Action (system cfg)) :=
  replicate steps (.step i { status := status })

end

/-- Two transactions, one after the other. -/
theorem spent_matches_twice :
    ∃ q, Run (system (sampleSettings 5)) (fun p a => charging (sampleSettings 5) p a = true) (Pool.start unused) q ∧
      (q.world.acknowledged.length = 2 ∧ q.world.spent buyer = 200) ∧
      (q.world.dailyLedgers q.world.today = (distinct (q.world.acknowledgedOn q.world.today)).length ∧
        ∀ account, q.world.spent account = fees (distinct (q.world.acknowledgedFor account))) := by
  obtain ⟨q, hq, htest⟩ := Run.exists_of_any (Pool.start unused) (charging (sampleSettings 5))
    (submits buyer "one" "100" :: goes 0 11 .pending ++ submits buyer "two" "100" :: goes 1 10 .pending)
    (fun q : TankPool => q.quiet && decide (q.world.acknowledged.length = 2) && decide (q.world.spent buyer = 200))
    (by decide +kernel)
  simp only [Bool.and_eq_true, decide_eq_true_eq] at htest
  exact ⟨q, hq, ⟨htest.1.2, htest.2⟩, spent_matches empty_unused hq htest.1.1⟩

/-- **A buyer is charged twice for a transaction that is submitted again; and what is charged with blanks around the
account is not charged to it.** -/
theorem charged_twice :
    (∃ q, Run (system (sampleSettings 5)) (fun _ _ => true = true) (Pool.start unused) q ∧ q.quiet = true ∧
      q.world.spent buyer = 200 ∧ fees (distinct (q.world.acknowledgedFor buyer)) = 100 ∧
      q.world.dailyLedgers q.world.today = 2 ∧ (distinct (q.world.acknowledgedOn q.world.today)).length = 1) ∧
    ∃ q, Run (system (sampleSettings 5)) (fun _ _ => true = true) (Pool.start unused) q ∧ q.quiet = true ∧
      q.world.spent buyer = 100 ∧ fees (distinct (q.world.acknowledgedFor buyer)) = 200 := by
  constructor
  · obtain ⟨q, hq, htest⟩ := Run.exists_of_any (Pool.start unused)
      (fun (_ : TankPool) (_ : Action (system (sampleSettings 5))) => true)
      (submits buyer "one" "100" :: goes 0 11 .pending ++ submits buyer "one" "100" :: goes 1 10 .duplicate)
      (fun q : TankPool => decide (q.quiet = true ∧ q.world.spent buyer = 200 ∧
        fees (distinct (q.world.acknowledgedFor buyer)) = 100 ∧ q.world.dailyLedgers q.world.today = 2 ∧
        (distinct (q.world.acknowledgedOn q.world.today)).length = 1)) (by decide +kernel)
    exact ⟨q, hq, of_decide_eq_true htest⟩
  · obtain ⟨q, hq, htest⟩ := Run.exists_of_any (Pool.start unused)
      (fun (_ : TankPool) (_ : Action (system (sampleSettings 5))) => true)
      (submits buyer "one" "100" :: goes 0 11 .pending ++ submits (" " ++ buyer) "two" "100" :: goes 1 10 .pending)
      (fun q : TankPool => decide (q.quiet = true ∧ q.world.spent buyer = 100 ∧
        fees (distinct (q.world.acknowledgedFor buyer)) = 200)) (by decide +kernel)
    exact ⟨q, hq, of_decide_eq_true htest⟩

/-! ### The budgets of the gas tank

The budgets are read before a transaction is submitted, and charged after it has been acknowledged: what has been
acknowledged in between is not seen, and two that are checked at once may both pass (`budgets_overspent`). -/

/-- The counters are as they have been read, and nothing is still to be recorded. -/
def fresh (p : TankPool) (request : SponsoredSubmitRequest) (seen : Seen) (_ : String) : Bool :=
  decide (seen = ⟨p.world.today, p.world.dailyLedgers p.world.today, p.world.spent request.buyerAccount⟩) &&
    p.trace.all fun e => decide ((stage e.runner p.trace).uncountedOn p.world.today = 0 ∧
      (stage e.runner p.trace).owed request.buyerAccount = 0)

/-- A submission is acknowledged while its checks are fresh. -/
def budgeting (cfg : Settings) (p : TankPool) (i : Nat) (o : Op) (ch : Choice) : Bool :=
  recorded cfg p i o ch && whenAcknowledged cfg p.world o ch (fresh p)

def Stage.BegunBy (today : Int) : Stage → Prop
  | .acknowledged _ _ day => day ≤ today
  | .dated _ _ day time => day ≤ utcDay time
  | _ => True

/-- What the day's counter says, with what is owed to it, is no less than what has been acknowledged today. -/
structure Covered (w : World) (φ : Nat → Stage) : Prop where
  begun : ∀ i, (φ i).BegunBy w.today
  ledgers : ∃ total, Balance (Stage.uncountedOn w.today) φ total ∧
    ((w.acknowledgedOn w.today).length : Int) ≤ w.dailyLedgers w.today + total

/-- What has been acknowledged is within the budgets. -/
structure Within (cfg : Settings) (w : World) : Prop where
  ledgers : ∀ day, ((w.acknowledgedOn day).length : Int) ≤ max 0 cfg.policy.maxDailySponsoredLedgers
  stroops : ∀ account, fees (w.acknowledgedFor account) ≤
    max 0 ((cfg.bigInt cfg.policy.maxSpendPerAccountStroops).getD 0)

section
variable {cfg : Settings} {p : TankPool} {w w' : World} {tr : TankTrace} {φ : Nat → Stage} {i : Nat}

theorem fresh_seen {request : SponsoredSubmitRequest} {seen : Seen} {hash : String} (h : fresh p request seen hash = true) :
    seen = ⟨p.world.today, p.world.dailyLedgers p.world.today, p.world.spent request.buyerAccount⟩ := by
  simp only [fresh, Bool.and_eq_true, decide_eq_true_eq] at h
  exact h.1

variable {φ' : Stage}

theorem Posts.covers {ψ : Stage} (h : Posts cfg (fresh p) p.world ψ w' φ') (hdated : ψ.DatedBy p.world.today)
    (hbegun : ψ.BegunBy p.world.today) :
    p.world.dailyLedgers p.world.today - ((p.world.acknowledgedOn p.world.today).length : Int) ≤
      w'.dailyLedgers p.world.today + φ'.uncountedOn p.world.today - ψ.uncountedOn p.world.today -
        ((w'.acknowledgedOn p.world.today).length : Int) := by
  cases h with
  | nothing _ same =>
    simp only [World.dailyLedgers, World.dailyCounter, World.acknowledgedOn, same.daily, same.clock, same.acknowledged]
    omega
  | dates | redates =>
    simp only [Stage.uncountedOn]
    omega
  | acknowledges request seen hash _ _ meets =>
    rw [acknowledgedOn_acknowledge, fresh_seen meets]
    change _ ≤ p.world.dailyLedgers p.world.today + _ - _ - _
    simp only [Stage.uncountedOn, if_true]
    omega
  | counts account fee day time =>
    change _ ≤ _ - ((p.world.acknowledgedOn p.world.today).length : Int)
    simp only [Stage.uncountedOn]
    by_cases htime : p.world.today = utcDay time
    · rw [← htime, dailyLedgers_count]
      split <;> omega
    · -- what has been counted for another day was not acknowledged today
      have hpre : utcDay time ≤ p.world.today := hdated
      have hday : day ≤ utcDay time := hbegun
      rw [dailyLedgers_count_ne htime, if_neg (by omega)]
      omega
  | expires account fee day =>
    rw [dailyLedgers_expireAt (by simp only [DAY_SECONDS]; omega)]
    change _ ≤ _ - ((p.world.acknowledgedOn p.world.today).length : Int)
    omega
  | charges account fee =>
    change _ ≤ p.world.dailyLedgers p.world.today + _ - _ - ((p.world.acknowledgedOn p.world.today).length : Int)
    simp only [Stage.uncountedOn]
    omega

theorem Covered.step (h : Covered p.world φ) (hdated : (φ i).DatedBy p.world.today)
    (hposts : Posts cfg (fresh p) p.world (φ i) w' φ') : Covered w' (Function.update φ i φ') := by
  have hbegun := h.begun i
  constructor
  · rw [hposts.today]
    refine update_cases h.begun ?_
    generalize φ i = ψ at hposts hbegun hdated
    cases hposts with
    | nothing _ same => exact hbegun
    | dates => exact hbegun
    | redates => exact Int.le_trans hbegun hdated
    | acknowledges request seen hash _ _ meets =>
      rw [fresh_seen meets]
      exact Int.le_refl _
    | counts | expires | charges => trivial
  · obtain ⟨total, hbal, htotal⟩ := h.ledgers
    rw [hposts.today]
    refine ⟨_, hbal.update i φ', ?_⟩
    have hcov := hposts.covers hdated hbegun
    omega

theorem Covered.passes {clock : Int} (h : Covered w φ) (hbooks : Books w tr φ) (hclock : w.clock ≤ clock) :
    Covered { w with clock := clock } φ := by
  have hlater : w.today ≤ utcDay clock := by
    simp only [World.today, utcDay]
    omega
  rcases Int.lt_or_eq_of_le hlater with hnew | heq
  · -- nothing has been acknowledged on the new day
    obtain ⟨hledgers, hacknowledged⟩ := hbooks.newDay hnew
    refine ⟨?_, 0, balance_zero ?_, ?_⟩
    · intro i
      have hbegun := h.begun i
      generalize φ i = ψ at hbegun
      cases ψ with
      | acknowledged account fee day => exact Int.le_trans hbegun hlater
      | dated account fee day time => exact hbegun
      | idle | counted => trivial
    · intro i
      have hbegun := h.begun i
      have hdated := hbooks.dated i
      generalize φ i = ψ at hbegun hdated
      cases ψ with
      | acknowledged account fee day =>
        have hday : day ≤ w.today := hbegun
        exact if_neg (by simp only [World.today] at hnew hday ⊢; omega)
      | dated account fee day time =>
        have hday : day ≤ utcDay time := hbegun
        have htime : utcDay time ≤ w.today := hdated
        exact if_neg (by simp only [World.today] at hnew htime ⊢; omega)
      | idle | counted => rfl
    · change ((World.acknowledgedOn { w with clock := clock } (utcDay clock)).length : Int) ≤
        World.dailyLedgers { w with clock := clock } (utcDay clock) + 0
      rw [hledgers, hacknowledged]
      exact Int.le_refl _
  · have htoday : World.today { w with clock := clock } = w.today := heq.symm
    constructor
    · rw [htoday]
      exact h.begun
    · rw [htoday, hbooks.sameDay heq.symm]
      exact h.ledgers

theorem Eligible.fee {request : SponsoredSubmitRequest} {seen : Seen} (h : Eligible cfg request seen) :
    seen.spent + ((parseStroops request.feeStroops).getD 0 : Int) ≤
      (cfg.bigInt cfg.policy.maxSpendPerAccountStroops).getD 0 := by
  obtain ⟨fee, -, hfee, hpos⟩ := h.valid
  obtain ⟨remaining, hrem, hleft⟩ := h.stroops
  rw [hfee, Option.getD_some] at hleft ⊢
  simp only [remainingStroops] at hrem
  cases hcap : cfg.bigInt cfg.policy.maxSpendPerAccountStroops with
  | none =>
    simp [hcap] at hrem
  | some cap =>
    rw [hcap] at hrem
    cases hrem
    rw [Option.getD_some]
    split at hleft
    · omega
    · omega

theorem Within.step (h : Within cfg p.world) (hbooks : Books p.world p.trace φ) (hcovered : Covered p.world φ)
    (hposts : Posts cfg (fresh p) p.world (φ i) w' φ') : Within cfg w' := by
  rcases hposts.acknowledged with heq | ⟨request, seen, hash, rfl, heligible, htrim, hfresh⟩
  · constructor
    · intro day
      rw [World.acknowledgedOn, heq]
      exact h.ledgers day
    · intro account
      rw [World.acknowledgedFor, heq]
      exact h.stroops account
  · obtain rfl := fresh_seen hfresh
    simp only [fresh, Bool.and_eq_true, all_eq_true, decide_eq_true_eq] at hfresh
    constructor
    · intro day
      by_cases hday : day = p.world.today
      · subst hday
        obtain ⟨total, hbal, htotal⟩ := hcovered.ledgers
        have hnothing := hbooks.nothing rfl fun e he => (hfresh.2 e he).1
        have hzero := (hbal.single 0 fun j _ => hnothing j).trans (hnothing 0)
        have hroom := heligible.ledgers
        rw [acknowledgedOn_acknowledge]
        simp only [Nat.cast_add, Nat.cast_one] at hroom ⊢
        omega
      · have hother : (p.world.acknowledge request hash).acknowledgedOn day = p.world.acknowledgedOn day :=
          filter_cons_of_neg (by simpa [World.today] using Ne.symm hday)
        rw [hother]
        exact h.ledgers day
    · intro account
      rw [fees_acknowledge htrim]
      split
      · rename_i hacct
        subst hacct
        obtain ⟨total, hbal, htotal⟩ := hbooks.stroops request.buyerAccount
        have hnothing := hbooks.nothing rfl fun e he => (hfresh.2 e he).2
        have hzero := (hbal.single 0 fun j _ => hnothing j).trans (hnothing 0)
        have hfee := heligible.fee
        simp only at hfee
        omega
      · rw [add_zero]
        exact h.stroops account

end

section
variable {cfg : Settings}

theorem inductive_within : Inductive (system cfg) (sponsoring cfg) .idle
    (fun p a => onStep (budgeting cfg) p a = true)
    fun w tr φ => Books w tr φ ∧ Covered w φ ∧ Within cfg w := by
  refine inductive_books.and ?_ ?_ ?_ ?_
  · intro p a hg
    cases a with
    | call | drift => rfl
    | step i ch =>
      simp only [onStep, Option.all_eq_true, budgeting, Bool.and_eq_true] at hg ⊢
      exact fun o ho => (hg o ho).1
  · intro p φ call w _ _ hwithin hw
    cases hw
    exact hwithin
  · intro p φ e _ ht hwithin
    cases e with
    | passes ms => exact ⟨hwithin.1.passes ht.holds (by omega), hwithin.2.ledgers, hwithin.2.stroops⟩
  · rintro p φ i o ch φ' hg hp ht hwithin ha ⟨-, rfl⟩
    obtain ⟨hrecd, hfresh⟩ := Bool.and_eq_true_iff.mp (onStep_pending hg hp)
    have hposts := posts ha hrecd hfresh
    exact ⟨hwithin.1.step (ht.holds.dated i) hposts, hwithin.2.step ht.holds hwithin.1 hposts⟩

/-- **Where transactions are acknowledged by counters that are up to date, and recorded, no more are acknowledged on
a day, nor fees for an account, than the policy allows.** -/
theorem within_budgets {w₀ : World} {q : TankPool} (hempty : Empty w₀)
    (hq : Run (system cfg) (fun p a => onStep (budgeting cfg) p a = true) (Pool.start w₀) q) :
    (∀ day, ((q.world.acknowledgedOn day).length : Int) ≤ max 0 cfg.policy.maxDailySponsoredLedgers) ∧
      ∀ account, fees (q.world.acknowledgedFor account) ≤
        max 0 ((cfg.bigInt cfg.policy.maxSpendPerAccountStroops).getD 0) := by
  have hcovered : Covered w₀ fun _ => .idle := by
    refine ⟨fun _ => trivial, 0, balance_zero fun _ => rfl, ?_⟩
    simp [World.dailyLedgers, World.dailyCounter, World.acknowledgedOn, hempty.daily, hempty.acknowledged]
  have hwithin : Within cfg w₀ := by
    constructor <;> simp [World.acknowledgedFor, World.acknowledgedOn, fees, hempty.acknowledged]
  obtain ⟨φ, ht⟩ := inductive_within.run hq ⟨_, .start ⟨hempty.books, hcovered, hwithin⟩⟩
  exact ⟨ht.holds.2.2.ledgers, ht.holds.2.2.stroops⟩

end

/-- Two submissions come one after the other, and use the budgets up. -/
theorem within_budgets_spent :
    ∃ q, Run (system (sampleSettings 2)) (fun p a => onStep (budgeting (sampleSettings 2)) p a = true)
        (Pool.start unused) q ∧
      (q.world.acknowledged.length = 2 ∧ fees (q.world.acknowledgedFor buyer) = 1000) ∧
      (∀ day, ((q.world.acknowledgedOn day).length : Int) ≤ max 0 (sampleSettings 2).policy.maxDailySponsoredLedgers) ∧
        ∀ account, fees (q.world.acknowledgedFor account) ≤
          max 0 (((sampleSettings 2).bigInt (sampleSettings 2).policy.maxSpendPerAccountStroops).getD 0) := by
  obtain ⟨q, hq, htest⟩ := Run.exists_of_any (Pool.start unused)
    (fun (p : TankPool) (a : Action (system (sampleSettings 2))) => onStep (budgeting (sampleSettings 2)) p a)
    (submits buyer "one" "600" :: goes 0 11 .pending ++ submits buyer "two" "400" :: goes 1 10 .pending)
    (fun q : TankPool => decide (q.world.acknowledged.length = 2 ∧ fees (q.world.acknowledgedFor buyer) = 1000))
    (by decide +kernel)
  exact ⟨q, hq, of_decide_eq_true htest, within_budgets empty_unused hq⟩

/-- **Two submissions are checked before either is recorded: together they exceed both budgets.** -/
theorem budgets_overspent : ∃ q, Run (system (sampleSettings 1)) (fun _ _ => true = true) (Pool.start unused) q ∧
      (q.world.acknowledgedOn q.world.today).length = 2 ∧ (sampleSettings 1).policy.maxDailySponsoredLedgers = 1 ∧
      fees (q.world.acknowledgedFor buyer) = 1200 ∧
      (sampleSettings 1).bigInt (sampleSettings 1).policy.maxSpendPerAccountStroops = some 1000 := by
  obtain ⟨q, hq, htest⟩ := Run.exists_of_any (Pool.start unused)
    (fun (_ : TankPool) (_ : Action (system (sampleSettings 1))) => true)
    (submits buyer "one" "600" :: submits buyer "two" "600" :: goes 0 3 .pending ++ goes 1 3 .pending ++
      goes 0 8 .pending ++ goes 1 7 .pending)
    (fun q : TankPool => decide ((q.world.acknowledgedOn q.world.today).length = 2 ∧
      fees (q.world.acknowledgedFor buyer) = 1200)) (by decide +kernel)
  have hspent := of_decide_eq_true htest
  exact ⟨q, hq, hspent.1, rfl, hspent.2, by decide⟩

end Delego.GasTank
