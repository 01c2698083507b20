import Delego.GasTank.Sponsorship
import Delego.Process.Balance

/-! What the counters of the gas tank say.

What an account's counter says, together with what calls still owe to it, is the fees of what has been acknowledged for
it (`Books`), where accounts are written without blanks, fees are written exactly, and what is acknowledged is recorded. -/
namespace Delego.GasTank
open Delego.Process Delego.Data List Option Function

def whenAcknowledged (cfg : Settings) (w : World) (o : Op) (ch : Choice)
    (cond : SponsoredSubmitRequest → Seen → String → Bool) : Bool :=
  match o with
  | .sendTransaction request seen signedXdr =>
    match (perform cfg (.sendTransaction request seen signedXdr) ch w).1 with
    | .ok response => !response.status.acknowledges || cond request seen response.hash
    | .error _ => true
  | _ => true

def answers (cfg : Settings) (w : World) (o : Op) (ch : Choice) : Bool := (perform cfg o ch w).1.isOk

def recorded (cfg : Settings) (p : TankPool) (_ : Nat) (o : Op) (ch : Choice) : Bool :=
  (!o.records || answers cfg p.world o ch) &&
    whenAcknowledged cfg p.world o ch (fun request _ _ => decide (trim request.buyerAccount = request.buyerAccount)) &&
    match o with
    | .incrby _ fee => decide (cfg.written fee = some (fee : Int))
    | _ => true

def World.acknowledgedOn (w : World) (day : Int) : List Acknowledgement :=
  w.acknowledged.filter fun a => decide (utcDay a.time = day)

def World.acknowledgedFor (w : World) (account : String) : List Acknowledgement :=
  w.acknowledged.filter fun a => decide (trim a.account = account)

def fees (acknowledged : List Acknowledgement) : Int := (acknowledged.map fun a => (a.fee : Int)).sum

/-! ### What operations do -/

def World.acknowledge (w : World) (request : SponsoredSubmitRequest) (hash : String) : World :=
  { w with
    acknowledged := ⟨hash, request.buyerAccount, (parseStroops request.feeStroops).getD 0, w.clock⟩ :: w.acknowledged }

def World.count (w : World) (day : Int) : World :=
  { w with
    daily := update w.daily day (some ⟨w.dailyLedgers day + 1, (w.dailyCounter day).bind Counter.expiresAt⟩) }

def World.expireAt (w : World) (day t : Int) : World :=
  { w with
    daily := update w.daily day ((w.dailyCounter day).map fun counter => { counter with expiresAt := some t }) }

def World.charge (w : World) (account : String) (fee : Nat) : World :=
  { w with spend := update w.spend account (some (w.spent account + fee)) }

/-- The counters, and what they count, are as they were. -/
structure SameCounters (w w' : World) : Prop where
  clock : w'.clock = w.clock
  daily : w'.daily = w.daily
  spend : w'.spend = w.spend
  acknowledged : w'.acknowledged = w.acknowledged

theorem SameCounters.refl (w : World) : SameCounters w w := ⟨rfl, rfl, rfl, rfl⟩

/-- What an operation of a call does to the counters, and to what the call owes them. -/
inductive Posts (cfg : Settings) (cond : SponsoredSubmitRequest → Seen → String → Bool) (w : World) :
    Stage → World → Stage → Prop where
  | nothing {w' : World} (φ : Stage) (same : SameCounters w w') : Posts cfg cond w φ w' φ
  | dates (account : String) (fee : Nat) (day : Int) :
      Posts cfg cond w (.acknowledged account fee day) w (.dated account fee day w.clock)
  | redates (account : String) (fee : Nat) (day time : Int) :
      Posts cfg cond w (.dated account fee day time) w (.dated account fee day w.clock)
  | acknowledges (request : SponsoredSubmitRequest) (seen : Seen) (hash : String)
      (eligible : Eligible cfg request seen) (trimmed : trim request.buyerAccount = request.buyerAccount)
      (meets : cond request seen hash = true) :
      Posts cfg cond w .idle (w.acknowledge request hash)
        (.acknowledged request.buyerAccount ((parseStroops request.feeStroops).getD 0) seen.day)
  | counts (account : String) (fee : Nat) (day time : Int) :
      Posts cfg cond w (.dated account fee day time) (w.count (utcDay time)) (.counted account fee)
  | expires (account : String) (fee : Nat) (day : Int) :
      Posts cfg cond w (.counted account fee) (w.expireAt day (w.clock + (DAY_SECONDS + 3600) * 1000))
        (.counted account fee)
  | charges (account : String) (fee : Nat) : Posts cfg cond w (.counted account fee) (w.charge account fee) .idle

section
variable {cfg : Settings} {o : Op} {ch : Choice} {w : World} {φ : Stage}
  {cond : SponsoredSubmitRequest → Seen → String → Bool}

theorem answer_of_ok {a : o.Reply} (h : (perform cfg o ch w).1 = .ok a) :
    answer cfg o ch w = .ok (a, (perform cfg o ch w).2) := by
  rcases (fateOf o ch).deliver_cases (answer cfg o ch w) w with
    ⟨message, hd⟩ | ⟨b, w', hans, hd | ⟨message, hd⟩⟩
  · simp [perform, hd] at h
  · rw [perform, hd] at h ⊢
    cases h
    exact hans
  · simp [perform, hd] at h

theorem answers_ok (h : answers cfg w o ch = true) : ∃ a, (perform cfg o ch w).1 = .ok a := by
  simp only [answers] at h
  cases hr : (perform cfg o ch w).1 with
  | error message =>
    rw [hr] at h
    cases h
  | ok a => exact ⟨a, rfl⟩

theorem sameCounters_perform (h : ∀ a w', answer cfg o ch w = .ok (a, w') → SameCounters w w') :
    SameCounters w (perform cfg o ch w).2 :=
  Fate.deliver_kept (P := SameCounters w) (.refl w) h

theorem perform_send (cfg : Settings) (ch : Choice) (w : World) (request : SponsoredSubmitRequest) (seen : Seen) (signedXdr : String) :
    (∃ response : RpcResponse, (perform cfg (.sendTransaction request seen signedXdr) ch w).1 = .ok response ∧
        response.status.acknowledges = true ∧
        (perform cfg (.sendTransaction request seen signedXdr) ch w).2 = w.acknowledge request response.hash) ∨
      (perform cfg (.sendTransaction request seen signedXdr) ch w).2 = w ∧
        Stage.next .idle (.sendTransaction request seen signedXdr)
          (perform cfg (.sendTransaction request seen signedXdr) ch w).1 = .idle := by
  simp only [perform, fateOf, answer]
  cases ch.fate with
  | done =>
    simp only [Fate.deliver, Fate.carry]
    cases hstat : (w.status (cfg.hash signedXdr) ch.status).acknowledges with
    | true => exact .inl ⟨_, rfl, hstat, by rw [if_pos rfl]; rfl⟩
    | false =>
      refine .inr ⟨by rw [if_neg (by simp)], ?_⟩
      simp only [Stage.next, hstat, Bool.false_eq_true, if_false]
  | refused message | lost message => exact .inr ⟨rfl, rfl⟩

theorem int64_ok {value next : Int} (h : int64 value = .ok next) : next = value := by
  simp only [int64] at h
  split at h
  · cases h
    rfl
  · cases h

theorem answer_incr {day next : Int} {w' : World} (h : answer cfg (.incr day) ch w = .ok (next, w')) :
    w' = w.count day := by
  simp only [answer] at h
  cases hvalue : int64 (w.dailyLedgers day + 1) with
  | error message =>
    simp [hvalue] at h
  | ok value =>
    rw [hvalue] at h
    cases h
    rw [int64_ok hvalue]
    rfl

theorem answer_incrby {account : String} {fee : Nat} {w' : World} (hwrit : cfg.written fee = some (fee : Int))
    (h : answer cfg (.incrby account fee) ch w = .ok ((), w')) : w' = w.charge account fee := by
  simp only [answer, hwrit] at h
  cases hvalue : int64 (w.spent account + fee) with
  | error message =>
    simp [hvalue] at h
  | ok value =>
    rw [hvalue] at h
    cases h
    rw [int64_ok hvalue]
    rfl

theorem posts_aside (hφ : φ = .idle) (hnext : ∀ r, Stage.next .idle o r = .idle)
    (heq : ∀ a w', answer cfg o ch w = .ok (a, w') → SameCounters w w') :
    Posts cfg cond w φ (perform cfg o ch w).2 (φ.next o (perform cfg o ch w).1) := by
  rw [hφ, hnext]
  exact .nothing .idle (sameCounters_perform heq)

theorem posts {p : TankPool} {i : Nat} (ha : φ.Allows cfg o) (hg : recorded cfg p i o ch = true)
    (hcond : whenAcknowledged cfg p.world o ch cond = true) :
    Posts cfg cond p.world φ (perform cfg o ch p.world).2
      (φ.next o (perform cfg o ch p.world).1) := by
  simp only [recorded, Bool.and_eq_true, Bool.or_eq_true, Bool.not_eq_true'] at hg
  obtain ⟨⟨hanswers, htrim⟩, hwrit⟩ := hg
  have hansd : o.records = true → ∃ a, (perform cfg o ch p.world).1 = .ok a := fun hrecs =>
    answers_ok (hanswers.resolve_left (by rw [hrecs]; nofun))
  cases o with
  | now =>
    cases φ with
    | idle => exact .nothing .idle (.refl p.world)
    | acknowledged account fee day => exact .dates account fee day
    | dated account fee day time => exact .redates account fee day time
    | counted => exact ha.elim
  | getDailyLedgers day | getAccountSpend account =>
    cases φ with
    | idle =>
      refine posts_aside rfl (fun r => by cases r <;> rfl) ?_
      intro a w' hans
      cases hans
      exact .refl p.world
    | acknowledged | dated | counted => exact ha.elim
  | lpush | ltrim =>
    cases φ with
    | idle =>
      refine posts_aside rfl (fun r => by cases r <;> rfl) ?_
      intro a w' hans
      cases hans
      exact ⟨rfl, rfl, rfl, rfl⟩
    | acknowledged | dated | counted => exact ha.elim
  | sendTransaction request seen signedXdr =>
    cases φ with
    | idle =>
      rcases perform_send cfg ch p.world request seen signedXdr with
        ⟨response, hresp, hacknowledged, hworld⟩ | ⟨hworld, hstays⟩
      · simp only [whenAcknowledged, hresp, hacknowledged, Bool.not_true, Bool.false_or, decide_eq_true_eq]
          at htrim hcond
        rw [hworld, hresp]
        simp only [Stage.next, hacknowledged, if_true]
        exact .acknowledges request seen response.hash ha htrim hcond
      · rw [hworld, hstays]
        exact .nothing .idle (.refl p.world)
    | acknowledged | dated | counted => exact ha.elim
  | incr day =>
    obtain ⟨next, hnext⟩ := hansd rfl
    cases φ with
    | dated account fee day' time =>
      obtain rfl : day = utcDay time := ha
      rw [answer_incr (answer_of_ok hnext), hnext]
      exact .counts account fee day' time
    | idle | acknowledged | counted => exact ha.elim
  | expire day seconds =>
    obtain ⟨a, hdone⟩ := hansd rfl
    cases φ with
    | counted account fee =>
      obtain rfl : seconds = DAY_SECONDS + 3600 := ha
      have hworld := answer_of_ok hdone
      simp only [answer, Except.ok.injEq, Prod.mk.injEq, true_and] at hworld
      rw [← hworld]
      exact .expires account fee day
    | idle | acknowledged | dated => exact ha.elim
  | incrby account fee =>
    obtain ⟨a, hdone⟩ := hansd rfl
    cases φ with
    | counted account' fee' =>
      obtain ⟨rfl, rfl⟩ := ha
      rw [answer_incrby (of_decide_eq_true hwrit) (answer_of_ok hdone), hdone]
      exact .charges account fee
    | idle | acknowledged | dated => exact ha.elim

theorem whenAcknowledged_true : whenAcknowledged cfg w o ch (fun _ _ _ => true) = true := by
  cases o with
  | sendTransaction request seen signedXdr =>
    simp only [whenAcknowledged, Bool.or_true]
    split <;> rfl
  | _ => rfl

end

section
variable {w : World} {day : Int}

theorem dailyLedgers_count : (w.count day).dailyLedgers day = w.dailyLedgers day + 1 := by
  have hlive : Counter.live w.clock ⟨w.dailyLedgers day + 1, (w.dailyCounter day).bind Counter.expiresAt⟩ = true := by
    cases hcounter : w.dailyCounter day with
    | none => rfl
    | some counter => exact (filter_eq_some_iff.mp hcounter).2
  have hcnt : (w.count day).daily day =
      some ⟨w.dailyLedgers day + 1, (w.dailyCounter day).bind Counter.expiresAt⟩ := update_self ..
  rw [World.dailyLedgers, World.dailyCounter, hcnt]
  exact congrArg (fun counter : Option Counter => (counter.map Counter.value).getD 0)
    ((filter_some ..).trans (if_pos hlive))

theorem dailyLedgers_count_ne {day' : Int} (h : day' ≠ day) : (w.count day).dailyLedgers day' = w.dailyLedgers day' := by
  simp only [World.dailyLedgers, World.dailyCounter, World.count, update_of_ne h]

theorem dailyLedgers_expireAt {t : Int} (ht : w.clock < t) (day' : Int) :
    (w.expireAt day t).dailyLedgers day' = w.dailyLedgers day' := by
  by_cases hday : day' = day
  · subst hday
    simp only [World.dailyLedgers, World.dailyCounter, World.expireAt, update_self]
    cases (w.daily day').filter (Counter.live w.clock) with
    | none => rfl
    | some counter => simp [Counter.live, ht, filter_some]
  · simp only [World.dailyLedgers, World.dailyCounter, World.expireAt, update_of_ne hday]

end

/-! ### The books -/

def Stage.DatedBy (today : Int) : Stage → Prop
  | .dated _ _ _ time => utcDay time ≤ today
  | _ => True

/-- What is acknowledged is on the counters, or owed by a call. -/
structure Books (w : World) (tr : TankTrace) (φ : Nat → Stage) : Prop where
  staged : ∀ i, φ i = stage i tr
  dated : ∀ i, (φ i).DatedBy w.today
  past : ∀ a ∈ w.acknowledged, a.time ≤ w.clock
  trimmed : ∀ a ∈ w.acknowledged, trim a.account = a.account
  future : ∀ day, w.today < day → w.daily day = none
  lasting : ∀ counter t, w.daily w.today = some counter → counter.expiresAt = some t → (w.today + 1) * 86400000 ≤ t
  stroops : ∀ account, ∃ total, Balance (Stage.owed account) φ total ∧
    w.spent account + total = fees (w.acknowledgedFor account)

section
variable {cfg : Settings} {cond : SponsoredSubmitRequest → Seen → String → Bool} {w w' : World} {tr : TankTrace}
  {φ : Nat → Stage} {i : Nat}

theorem stage_update {o : Op} {r : tankSignature.Result o} (h : ∀ i, φ i = stage i tr) (j : Nat) :
    update φ i ((φ i).next o r) j = stage j (⟨i, o, r⟩ :: tr) := by
  rw [stage]
  by_cases hij : i = j
  · subst hij
    rw [update_self, if_pos rfl, h]
  · rw [update_of_ne (Ne.symm hij), if_neg hij, h]

variable {φ' : Stage}

theorem update_cases {P : Stage → Prop} (h : ∀ j, P (φ j)) (hφ' : P φ') (j : Nat) : P (update φ i φ' j) := by
  by_cases hji : j = i
  · subst hji
    rw [update_self]
    exact hφ'
  · rw [update_of_ne hji]
    exact h j

theorem fees_acknowledge {request : SponsoredSubmitRequest} (htrim : trim request.buyerAccount = request.buyerAccount)
    (hash account : String) : fees ((w.acknowledge request hash).acknowledgedFor account) =
      fees (w.acknowledgedFor account) +
        if request.buyerAccount = account then ((parseStroops request.feeStroops).getD 0 : Int) else 0 := by
  by_cases hacct : request.buyerAccount = account
  · have hcons : (w.acknowledge request hash).acknowledgedFor account =
        ⟨hash, request.buyerAccount, (parseStroops request.feeStroops).getD 0, w.clock⟩ :: w.acknowledgedFor account :=
      filter_cons_of_pos (decide_eq_true (htrim.trans hacct))
    rw [hcons, if_pos hacct]
    simp only [fees, map_cons, sum_cons]
    omega
  · have heq : (w.acknowledge request hash).acknowledgedFor account = w.acknowledgedFor account :=
      filter_cons_of_neg (by simpa [htrim] using hacct)
    rw [heq, if_neg hacct, add_zero]

theorem acknowledgedOn_acknowledge (request : SponsoredSubmitRequest) (hash : String) :
    ((w.acknowledge request hash).acknowledgedOn w.today).length = (w.acknowledgedOn w.today).length + 1 := by
  have hcons : (w.acknowledge request hash).acknowledgedOn w.today =
      ⟨hash, request.buyerAccount, (parseStroops request.feeStroops).getD 0, w.clock⟩ :: w.acknowledgedOn w.today :=
    filter_cons_of_pos (decide_eq_true rfl)
  rw [hcons, length_cons]

theorem Posts.stroops (h : Posts cfg cond w (φ i) w' φ') (account : String) :
    w'.spent account + φ'.owed account - (φ i).owed account - fees (w'.acknowledgedFor account) =
      w.spent account - fees (w.acknowledgedFor account) := by
  generalize φ i = ψ at h
  cases h with
  | nothing _ same =>
    simp only [World.spent, World.acknowledgedFor, same.spend, same.acknowledged]
    omega
  | dates | redates =>
    simp only [Stage.owed]
    omega
  | acknowledges request seen hash _ htrim _ =>
    rw [fees_acknowledge htrim]
    change w.spent account + _ - _ - _ = _
    simp only [Stage.owed]
    omega
  | counts | expires =>
    change w.spent account + _ - _ - fees (w.acknowledgedFor account) = _
    simp only [Stage.owed]
    omega
  | charges account' fee =>
    change (update w.spend account' _ account).getD 0 + _ - _ - fees (w.acknowledgedFor account) = _
    simp only [World.spent, Stage.owed]
    by_cases hacct : account = account'
    · subst hacct
      simp only [update_self, getD_some, if_true]
      omega
    · simp only [update_of_ne hacct, if_neg (Ne.symm hacct)]
      omega

variable {ψ : Stage}

theorem Posts.clock (h : Posts cfg cond w ψ w' φ') : w'.clock = w.clock := by
  cases h with
  | nothing _ same => exact same.clock
  | dates | redates | acknowledges | counts | expires | charges => rfl

theorem Posts.today (h : Posts cfg cond w ψ w' φ') : w'.today = w.today := congrArg utcDay h.clock

theorem Posts.acknowledged (h : Posts cfg cond w ψ w' φ') :
    w'.acknowledged = w.acknowledged ∨ ∃ request seen hash, w' = w.acknowledge request hash ∧
      Eligible cfg request seen ∧ trim request.buyerAccount = request.buyerAccount ∧
      cond request seen hash = true := by
  cases h with
  | nothing _ same => exact .inl same.acknowledged
  | dates | redates | counts | expires | charges => exact .inl rfl
  | acknowledges request seen hash eligible trimmed meets => exact .inr ⟨request, seen, hash, rfl, eligible, trimmed, meets⟩

theorem Books.future_step (h : Books w tr φ) (hdated : ψ.DatedBy w.today) (hposts : Posts cfg cond w ψ w' φ') :
    ∀ day, w.today < day → w'.daily day = none := by
  intro later hlater
  cases hposts with
  | nothing _ same =>
    rw [same.daily]
    exact h.future later hlater
  | dates | redates | acknowledges | charges => exact h.future later hlater
  | counts account fee day time =>
    have hpre : utcDay time ≤ w.today := hdated
    exact (update_of_ne (by omega) _ _).trans (h.future later hlater)
  | expires account fee day =>
    change update w.daily day _ later = none
    by_cases hday : later = day
    · subst hday
      rw [update_self, World.dailyCounter, h.future later hlater]
      rfl
    · rw [update_of_ne hday]
      exact h.future later hlater

theorem Books.lasting_step (h : Books w tr φ) (hposts : Posts cfg cond w ψ w' φ') :
    ∀ counter t, w'.daily w.today = some counter → counter.expiresAt = some t → (w.today + 1) * 86400000 ≤ t := by
  intro counter t hcounter ht
  cases hposts with
  | nothing _ same =>
    rw [same.daily] at hcounter
    exact h.lasting counter t hcounter ht
  | dates | redates | acknowledges | charges => exact h.lasting counter t hcounter ht
  | counts account fee day time =>
    change update w.daily (utcDay time) _ w.today = some counter at hcounter
    by_cases hday : w.today = utcDay time
    · rw [← hday, update_self] at hcounter
      cases hcounter
      obtain ⟨before, hpre, hexpires⟩ := bind_eq_some_iff.mp ht
      exact h.lasting before t (filter_eq_some_iff.mp hpre).1 hexpires
    · rw [update_of_ne hday] at hcounter
      exact h.lasting counter t hcounter ht
  | expires account fee day =>
    change update w.daily day _ w.today = some counter at hcounter
    by_cases hday : w.today = day
    · rw [← hday, update_self] at hcounter
      obtain ⟨before, -, rfl⟩ := map_eq_some_iff.mp hcounter
      cases ht
      simp only [World.today, utcDay, DAY_SECONDS]
      omega
    · rw [update_of_ne hday] at hcounter
      exact h.lasting counter t hcounter ht

theorem Books.step {tr' : TankTrace} (h : Books w tr φ) (hstaged : ∀ j, update φ i φ' j = stage j tr')
    (hposts : Posts cfg cond w (φ i) w' φ') :
    Books w' tr' (update φ i φ') where
  staged := hstaged
  dated := by
    rw [hposts.today]
    refine update_cases h.dated ?_
    have hpre := h.dated i
    generalize φ i = ψ at hposts hpre
    cases hposts with
    | nothing _ same => exact hpre
    | dates | redates => exact Int.le_refl _
    | acknowledges | counts | expires | charges => trivial
  past := by
    rw [hposts.clock]
    intro a ha
    rcases hposts.acknowledged with heq | ⟨request, seen, hash, rfl, -⟩
    · rw [heq] at ha
      exact h.past a ha
    · rcases mem_cons.mp ha with rfl | ha
      · exact Int.le_refl _
      · exact h.past a ha
  trimmed := by
    intro a ha
    rcases hposts.acknowledged with heq | ⟨request, seen, hash, rfl, -, htrim, -⟩
    · rw [heq] at ha
      exact h.trimmed a ha
    · rcases mem_cons.mp ha with rfl | ha
      · exact htrim
      · exact h.trimmed a ha
  future := by
    rw [hposts.today]
    exact h.future_step (h.dated i) hposts
  lasting := by
    rw [hposts.today]
    exact h.lasting_step hposts
  stroops := by
    intro account
    obtain ⟨total, hbal, htotal⟩ := h.stroops account
    refine ⟨_, hbal.update i φ', ?_⟩
    have hkept := hposts.stroops account
    omega

theorem Books.nothing (h : Books w tr φ) {worth : Stage → Int} (hidle : worth .idle = 0)
    (hall : ∀ e ∈ tr, worth (stage e.runner tr) = 0) (i : Nat) : worth (φ i) = 0 := by
  rw [h.staged]
  by_cases hstage : stage i tr = .idle
  · rw [hstage]
    exact hidle
  · obtain ⟨e, he, rfl⟩ := stage_performed hstage
    exact hall e he

theorem Books.passes {clock : Int} (h : Books w tr φ) (hclock : w.clock ≤ clock) :
    Books { w with clock := clock } tr φ := by
  have hlater : w.today ≤ utcDay clock := by
    simp only [World.today, utcDay]
    omega
  refine ⟨h.staged, ?_, fun a ha => (h.past a ha).trans hclock, h.trimmed,
    fun day hday => h.future day (Int.lt_of_le_of_lt hlater hday), ?_, h.stroops⟩
  · intro i
    have hpre := h.dated i
    generalize φ i = ψ at hpre
    cases ψ with
    | dated account fee day time => exact Int.le_trans hpre hlater
    | idle | acknowledged | counted => trivial
  intro counter t hcounter ht
  rcases Int.lt_or_eq_of_le hlater with hnew | heq
  · exact absurd ((h.future _ hnew).symm.trans hcounter) nofun
  · change w.daily (utcDay clock) = some counter at hcounter
    change (utcDay clock + 1) * 86400000 ≤ t
    rw [← heq] at hcounter ⊢
    exact h.lasting counter t hcounter ht

theorem Books.newDay {clock : Int} (h : Books w tr φ) (hnew : w.today < utcDay clock) :
    World.dailyLedgers { w with clock := clock } (utcDay clock) = 0 ∧
      World.acknowledgedOn { w with clock := clock } (utcDay clock) = [] := by
  constructor
  · rw [World.dailyLedgers, World.dailyCounter, h.future _ hnew]
    rfl
  · rw [World.acknowledgedOn, filter_eq_nil_iff]
    intro a ha hequal
    have hpre := h.past a ha
    have hequal : utcDay a.time = utcDay clock := of_decide_eq_true hequal
    simp only [World.today, utcDay] at hnew hequal
    omega

theorem Books.sameDay {clock : Int} (h : Books w tr φ) (heq : utcDay clock = w.today) :
    World.dailyLedgers { w with clock := clock } w.today = w.dailyLedgers w.today := by
  simp only [World.dailyLedgers, World.dailyCounter]
  cases hcounter : w.daily w.today with
  | none => rfl
  | some counter =>
    have hlive : ∀ now : Int, now < (w.today + 1) * 86400000 → counter.live now = true := by
      intro now hpre
      simp only [Counter.live, Option.all_eq_true, decide_eq_true_eq]
      intro t ht
      exact Int.lt_of_lt_of_le hpre (h.lasting counter t hcounter ht)
    have hnow : w.clock < (w.today + 1) * 86400000 ∧ clock < (w.today + 1) * 86400000 := by
      simp only [World.today, utcDay] at heq ⊢
      omega
    rw [filter_some, filter_some, if_pos (hlive w.clock hnow.1), if_pos (hlive clock hnow.2)]

end

/-- No counter, and nothing acknowledged. -/
structure Empty (w : World) : Prop where
  daily : ∀ day, w.daily day = none
  spend : ∀ account, w.spend account = none
  acknowledged : w.acknowledged = []

theorem Empty.books {w : World} (h : Empty w) : Books w [] fun _ => .idle where
  staged := fun _ => rfl
  dated := fun _ => trivial
  past := by simp [h.acknowledged]
  trimmed := by simp [h.acknowledged]
  future := fun day _ => h.daily day
  lasting := by simp [h.daily]
  stroops := by
    intro account
    refine ⟨0, balance_zero fun _ => rfl, ?_⟩
    simp [World.spent, World.acknowledgedFor, fees, h.spend, h.acknowledged]

section
variable {cfg : Settings}

theorem inductive_books : Inductive (system cfg) (sponsoring cfg) .idle
    (fun p a => onStep (recorded cfg) p a = true) Books where
  body := fun _ _ _ => follows_body
  arrive := by
    intro p φ call w _ ht hw
    cases hw
    exact ht.holds
  drift := by
    intro p φ e _ ht
    cases e with
    | passes ms => exact ht.holds.passes (by omega)
  answers := by
    intro p φ i o ch hg hp ht ha
    have hrecd := onStep_pending hg hp
    simp only [recorded, Bool.and_eq_true, Bool.or_eq_true, Bool.not_eq_true'] at hrecd
    refine ⟨_, ?_, rfl⟩
    intro hrecs
    exact answers_ok (hrecd.1.1.resolve_left (by rw [hrecs]; nofun))
  step := by
    rintro p φ i o ch φ' hg hp ht ha ⟨-, rfl⟩
    exact ht.holds.step (stage_update ht.holds.staged) (posts ha (onStep_pending hg hp) whenAcknowledged_true)

end

end Delego.GasTank
