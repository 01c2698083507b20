import Delego.Subscriptions.Charges
import Delego.Subscriptions.Service

/-! What is paid, and what keeps it so.

The periods of a subscription follow one another and each was charged with success
(`PaidUp`): a renewal starts where the current period ends and is made only after its charge
succeeded, and a charge that succeeded stays so. Every call but a creation keeps this,
whatever fails in it. -/
namespace Delego.Subscriptions
open Delego.Process Delego.Data List

/-- Periods that follow one another, from `start` to `close`. -/
def Contiguous (start : Int) (periods : List (Int × Int)) (close : Int) : Prop :=
  match periods with
  | [] => start = close
  | (periodStart, periodEnd) :: rest => start = periodStart ∧ Contiguous periodEnd rest close

theorem Contiguous.append {start middle close : Int} {periods : List (Int × Int)}
    (h : Contiguous start periods middle) : Contiguous start (periods ++ [(middle, close)]) close := by
  induction periods generalizing start with
  | nil => exact ⟨h, rfl⟩
  | cons period rest ih => exact ⟨h.1, ih h.2⟩

/-- The periods of a subscription from its first one to `close` are contiguous, and each
has a charge that succeeded. -/
def PaidTo (w : World) (id : String) (close : Int) : Prop :=
  ∃ start periods, lookup Prod.fst w.begun id = some (id, start) ∧ Contiguous start periods close ∧
    ∀ period ∈ periods, ∃ c, w.charge (id, period.1) = some c ∧ c.periodEnd = period.2 ∧ c.status = .succeeded

/-- Every subscription is paid up to the end of its period. -/
structure PaidUp (w : World) : Prop where
  indexed : w.Indexed
  /-- A charge ends where the plan of its subscription says. -/
  closes : ∀ {k c}, w.charge k = some c → ∃ row plan, w.subscription k.1 = some row ∧
    lookup SubscriptionPlan.id w.plans row.planId = some plan ∧
    addBillingInterval k.2 plan.interval plan.intervalCount = .ok (some c.periodEnd)
  begun : ∀ {id}, w.subscription id = none → lookup Prod.fst w.begun id = none
  paid : ∀ {id row}, w.subscription id = some row → PaidTo w id row.currentPeriodEnd

section
variable {k : String × Int} {close : Int} {w w' : World} {id : String}

theorem PaidTo.evolves (h : PaidTo w id close) {k : String × Int} {close' : Int} (hev : Evolves k close' w w') :
    PaidTo w' id close := by
  obtain ⟨start, periods, hbegun, hcontiguous, hchg⟩ := h
  refine ⟨start, periods, by rw [hev.begun, hbegun], hcontiguous, ?_⟩
  intro period hper
  obtain ⟨c, hc, hend, hsucc⟩ := hchg period hper
  obtain ⟨c', hc', hend', hsucc'⟩ := hev.kept hc
  exact ⟨c', hc', hend'.trans hend, hsucc' hsucc⟩

theorem Evolves.subscription (h : Evolves k close w w') (id : String) : w'.subscription id = w.subscription id := by
  rw [World.subscription, h.subscriptions]
  rfl

variable {plan : SubscriptionPlan}

theorem PaidUp.evolves (h : PaidUp w) (hev : Evolves k close w w') {row : Subscription}
    (hrow : w.subscription k.1 = some row) (hplan : lookup SubscriptionPlan.id w.plans row.planId = some plan)
    (hclose : addBillingInterval k.2 plan.interval plan.intervalCount = .ok (some close)) : PaidUp w' := by
  refine ⟨hev.indexed, ?_, ?_, ?_⟩
  · intro k' c' hc'
    rw [hev.subscription, hev.plans]
    rcases hev.known hc' with ⟨c, hc, hend⟩ | ⟨rfl, rfl⟩
    · rw [← hend]
      exact h.closes hc
    · exact ⟨row, plan, hrow, hplan, hclose⟩
  · intro id hnone
    rw [hev.subscription] at hnone
    rw [hev.begun]
    exact h.begun hnone
  · intro id row' hrow'
    rw [hev.subscription] at hrow'
    exact (h.paid hrow').evolves hev

theorem PaidUp.update (h : PaidUp w) {update : SubscriptionUpdate} {r : Except SubscriptionError Subscription}
    (hpaid : ∀ close, update.currentPeriodEnd = some close → PaidTo w id close)
    (hdoes : does (.updateSubscription id update) w r w') : PaidUp w' := by
  rcases does_cases hdoes with ⟨rfl, -⟩ | ⟨tx, text, time, a, hans, -⟩
  · exact h
  simp only [answer] at hans
  split at hans
  · rename_i existing hfound
    cases hans
    have hkey : existing.id = id := lookup_key hfound
    have hid : (existing.apply update).id = id := hkey
    generalize hw' : ({ w with subscriptions := replace Subscription.id w.subscriptions (existing.apply update) } :
      World) = w'
    have hself : w'.subscription id = some (existing.apply update) := by
      rw [← hw', ← hid]
      exact lookup_replace_self (by rw [hid]; exact hfound)
    have hother : ∀ id', id' ≠ id → w'.subscription id' = w.subscription id' := by
      intro id' hne
      rw [← hw']
      exact lookup_replace_ne (by rw [hid]; exact hne)
    have hidx : w'.Indexed := by
      rw [← hw']
      exact ⟨h.indexed.ids, h.indexed.keys⟩
    refine ⟨hidx, ?_, ?_, ?_⟩
    · intro k c hc
      obtain ⟨row, plan, hrow, hplan, hcloses⟩ := h.closes (k := k) (c := c) (by rw [← hw'] at hc; exact hc)
      have hplan' : lookup SubscriptionPlan.id w'.plans row.planId = some plan := by
        rw [← hw']
        exact hplan
      by_cases hk : k.1 = id
      · rw [hk, show w.subscription id = some existing from hfound] at hrow
        cases hrow
        exact ⟨existing.apply update, plan, hk ▸ hself, hplan', hcloses⟩
      · exact ⟨row, plan, (hother k.1 hk).trans hrow, hplan', hcloses⟩
    · intro id' hnone
      by_cases hid' : id' = id
      · simp [hid', hself] at hnone
      · rw [hother id' hid'] at hnone
        rw [← hw']
        exact h.begun hnone
    · intro id' row hrow
      have heq : ∀ close, PaidTo w id' close → PaidTo w' id' close := by
        rw [← hw']
        exact fun close hclose => hclose
      apply heq
      by_cases hid' : id' = id
      · rw [hid', hself] at hrow
        cases hrow
        rw [hid']
        show PaidTo w id (update.currentPeriodEnd.getD existing.currentPeriodEnd)
        cases hclose : update.currentPeriodEnd with
        | none => exact h.paid hfound
        | some close => exact hpaid close hclose
      · rw [hother id' hid'] at hrow
        exact h.paid hrow
  · cases hans

end

section
variable {cfg : Settings} {w w' : World} {id : String}

theorem does_read {o : Op} {r : subscriptionSignature.Result o} {P : o.Reply → Prop} (h : does o w r w')
    (hread : ∀ tx text time, ∃ a, answer tx text time o w = .ok (a, w) ∧ P a) : w' = w ∧ ∀ a, r = .ok a → P a := by
  rcases does_cases h with ⟨rfl, e, rfl⟩ | ⟨tx, text, time, a, hans, hr⟩
  · refine ⟨rfl, ?_⟩
    rintro a ⟨⟩
  · obtain ⟨a', ha', hP⟩ := hread tx text time
    rw [ha'] at hans
    cases hans
    refine ⟨rfl, ?_⟩
    rintro a rfl
    rcases hr with hok | ⟨-, e, herror⟩
    · cases hok
      exact hP
    · cases herror

theorem does_now {r : Except SubscriptionError Int} (h : does .now w r w') : w' = w :=
  (does_read (P := fun _ => True) h fun _ _ _ => ⟨_, rfl, trivial⟩).1

theorem follows_getSubscription :
    Follows (machine does) w (getSubscription id) fun r w' =>
      w' = w ∧ ∀ row, r = .ok row → w.subscription id = some row := by
  apply follows_bind
  apply follows_op
  intro r w' hdoes
  obtain ⟨rfl, hread⟩ := does_read (P := (· = w.subscription id)) hdoes fun _ _ _ => ⟨_, rfl, rfl⟩
  cases r with
  | error e =>
    refine ⟨rfl, ?_⟩
    rintro row ⟨⟩
  | ok found =>
    show Follows _ _ (match found with | some subscription => _ | none => _) _
    split
    · refine ⟨rfl, ?_⟩
      rintro row ⟨⟩
      exact (hread _ rfl).symm
    · refine ⟨rfl, ?_⟩
      rintro row ⟨⟩

theorem follows_getSubscriptionPlan {planId : String} :
    Follows (machine does) w (getSubscriptionPlan planId) fun r w' =>
      w' = w ∧ ∀ plan, r = .ok plan → lookup SubscriptionPlan.id w.plans planId = some plan := by
  apply follows_bind
  apply follows_op
  intro r w' hdoes
  obtain ⟨rfl, hread⟩ := does_read (P := (· = lookup SubscriptionPlan.id w.plans planId)) hdoes fun _ _ _ => ⟨_, rfl, rfl⟩
  cases r with
  | error e =>
    refine ⟨rfl, ?_⟩
    rintro plan ⟨⟩
  | ok found =>
    show Follows _ _ (match found with | some plan => _ | none => _) _
    split
    · refine ⟨rfl, ?_⟩
      rintro plan ⟨⟩
      exact (hread _ rfl).symm
    · refine ⟨rfl, ?_⟩
      rintro plan ⟨⟩

theorem PaidUp.same (h : PaidUp w) (heq : w' = { w with deposits := w'.deposits }) : PaidUp w' := by
  rw [heq]
  exact ⟨⟨h.indexed.ids, h.indexed.keys⟩, h.closes, h.begun, h.paid⟩

theorem paidUp_quiet {o : Op} (ho : o.quiet = true) (h : PaidUp w) :
    Follows (machine does) w (perform o) fun _ w' => PaidUp w' := by
  apply follows_op
  intro r w' hdoes
  exact h.same (same_of_quiet ho hdoes)

theorem paidUp_update {update : SubscriptionUpdate} (h : PaidUp w) (hper : update.currentPeriodEnd = none) :
    Follows (machine does) w (perform (.updateSubscription id update)) fun _ w' => PaidUp w' := by
  apply follows_op
  intro r w' hdoes
  refine h.update ?_ hdoes
  intro close hclose
  simp [hper] at hclose

theorem paidUp_updateAndEmit {update : SubscriptionUpdate} {event : Subscription → SubscriptionEvent} (h : PaidUp w)
    (hper : update.currentPeriodEnd = none) :
    Follows (machine does) w
      (do
        let updated ← perform (.updateSubscription id update)
        let _ ← perform (.emitSubscriptionEvent (event updated))
        return updated : SubscriptionM Subscription) fun _ w' => PaidUp w' := by
  apply follows_andThen (paidUp_update h hper)
  intro updated w₁ h₁
  apply follows_andThen (paidUp_quiet rfl h₁)
  intro _ w₂ h₂
  exact h₂

theorem follows_resolveChargeAmount {conv : Conversions} {usageAmount : Option String} :
    Follows (machine does) w (resolveChargeAmount conv plan usageAmount) fun _ w' => w' = w := by
  have hparse : ∀ s, Follows (machine does) w (parseBigInt conv s) fun _ w' => w' = w := by
    intro s
    unfold parseBigInt
    split
    · rfl
    · rfl
  unfold resolveChargeAmount
  split
  · rfl
  split
  · rfl
  split
  · rfl
  apply follows_andThen (hparse _)
  rintro usage _ rfl
  apply follows_andThen (hparse _)
  rintro limit _ rfl
  split
  · rfl
  · rfl

theorem paidUp_chargeNextPeriod {chargeId amount : String} {subscription : Subscription}
    {periodEnd : Int} (h : PaidUp w) (hrow : w.subscription subscription.id = some subscription)
    (hplan : lookup SubscriptionPlan.id w.plans subscription.planId = some plan)
    (hclose : addBillingInterval subscription.currentPeriodEnd plan.interval plan.intervalCount = .ok (some periodEnd)) :
    Follows (machine does) w (chargeNextPeriod cfg chargeId subscription plan periodEnd amount)
      fun _ w' => PaidUp w' := by
  refine follows_bind (follows_mono (follows_chargeSubscriptionPeriod_made h.indexed) ?_)
  intro r w₁ hmade
  obtain ⟨hev, hret⟩ := hmade
  have h₁ : PaidUp w₁ := h.evolves hev hrow hplan hclose
  cases r with
  | error e => exact h₁
  | ok charge =>
    show Follows _ _ (if charge.status ≠ .succeeded then _ else _) _
    split
    · exact paidUp_updateAndEmit h₁ rfl
    rename_i hstat
    have hcharge := hret charge rfl
    have hend : charge.periodEnd = periodEnd := by
      obtain ⟨row, plan', hrow', hplan', hcloses⟩ := h₁.closes hcharge
      rw [hev.subscription, hrow] at hrow'
      cases hrow'
      rw [hev.plans, hplan] at hplan'
      cases hplan'
      rw [hclose] at hcloses
      cases hcloses
      rfl
    have hpaid : PaidTo w₁ subscription.id periodEnd := by
      obtain ⟨start, periods, hbegun, hcontiguous, hchg⟩ := (h.paid hrow).evolves hev
      refine ⟨start, periods ++ [(subscription.currentPeriodEnd, periodEnd)], hbegun, hcontiguous.append, ?_⟩
      intro period hper
      rcases mem_append.mp hper with hper | hper
      · exact hchg period hper
      · rw [mem_singleton.mp hper]
        exact ⟨charge, hcharge, hend, not_not.mp hstat⟩
    apply follows_andThen
    · apply follows_op
      intro r w₂ hdoes
      refine h₁.update ?_ hdoes
      rintro close ⟨⟩
      exact hpaid
    intro renewed w₂ h₂
    apply follows_andThen (paidUp_quiet rfl h₂)
    intro _ w₃ h₃
    exact h₃

theorem paidUp_renewSubscription {chargeId : String} {options : RenewSubscriptionOptions} (h : PaidUp w) :
    Follows (machine does) w (renewSubscription cfg chargeId id options) fun _ w' => PaidUp w' := by
  refine follows_bind (follows_mono follows_getSubscription (forall_except (fun _ _ ⟨rfl, hread⟩ => h) ?_))
  rintro subscription _ ⟨rfl, hread⟩
  have hrow := hread subscription rfl
  have hid : subscription.id = id := lookup_key hrow
  refine follows_bind (follows_mono follows_getSubscriptionPlan (forall_except (fun _ _ ⟨rfl, hreadPlan⟩ => h) ?_))
  rintro plan _ ⟨rfl, hreadPlan⟩
  have hplan := hreadPlan plan rfl
  show Follows _ _ (if _ then _ else _) _
  split
  · exact h
  apply follows_bind
  apply follows_op
  intro r w₁ hdoes
  cases does_now hdoes
  cases r with
  | error e => exact h
  | ok now =>
    show Follows _ _ (if _ then _ else _) _
    split
    · exact h
    refine follows_bind (follows_mono follows_resolveChargeAmount ?_)
    rintro r _ rfl
    cases r with
    | error e => exact h
    | ok amount =>
      apply follows_bind
      cases hnext : addBillingInterval subscription.currentPeriodEnd plan.interval plan.intervalCount with
      | error e => exact h
      | ok next =>
        cases next with
        | none => exact h
        | some periodEnd => exact paidUp_chargeNextPeriod h (hid ▸ hrow) hplan hnext

theorem paidUp_onSubscription {f : Subscription → SubscriptionM Subscription} (h : PaidUp w)
    (hf : ∀ subscription, Follows (machine does) w (f subscription) fun _ w' => PaidUp w') :
    Follows (machine does) w (getSubscription id >>= f) fun _ w' => PaidUp w' := by
  refine follows_bind (follows_mono follows_getSubscription ?_)
  rintro r _ ⟨rfl, -⟩
  cases r with
  | error e => exact h
  | ok subscription => exact hf subscription

theorem paidUp_pauseSubscription (h : PaidUp w) :
    Follows (machine does) w (pauseSubscription id) fun _ w' => PaidUp w' := by
  refine paidUp_onSubscription h ?_
  intro subscription
  split
  · exact h
  · exact paidUp_updateAndEmit h rfl

theorem paidUp_resumeSubscription (h : PaidUp w) :
    Follows (machine does) w (resumeSubscription id) fun _ w' => PaidUp w' := by
  refine paidUp_onSubscription h ?_
  intro subscription
  split
  · exact h
  · exact paidUp_update h rfl

theorem paidUp_cancelSubscription {atPeriodEnd : Bool} (h : PaidUp w) :
    Follows (machine does) w (cancelSubscription id atPeriodEnd) fun _ w' => PaidUp w' := by
  refine paidUp_onSubscription h ?_
  intro subscription
  split
  · exact h
  split
  · exact paidUp_update h rfl
  · exact paidUp_updateAndEmit h rfl

theorem paidUp_renewDue {draw : String → String} (due : List Subscription) (result : BillingCycleResult)
    (h : PaidUp w) : Follows (machine does) w (renewDue cfg draw due result) fun _ w' => PaidUp w' := by
  induction due generalizing w result with
  | nil => exact h
  | cons subscription rest ih =>
    unfold renewDue
    split
    · exact ih result h
    · apply follows_andThen (follows_attempt (paidUp_renewSubscription h))
      intro updated w₁ h₁
      exact ih _ h₁

theorem paidUp_finalizeCancellations (pending : List Subscription) (result : BillingCycleResult) (h : PaidUp w) :
    Follows (machine does) w (finalizeCancellations pending result) fun _ w' => PaidUp w' := by
  induction pending generalizing w result with
  | nil => exact h
  | cons subscription rest ih =>
    apply follows_andThen (follows_attempt (paidUp_updateAndEmit h rfl))
    intro cancelled w₁ h₁
    exact ih _ h₁

theorem paidUp_runBillingCycle {draw : String → String} {now : Int} (h : PaidUp w) :
    Follows (machine does) w (runBillingCycle cfg draw now) fun _ w' => PaidUp w' := by
  apply follows_andThen (paidUp_quiet rfl h)
  intro due w₁ h₁
  apply follows_andThen (paidUp_renewDue due {} h₁)
  intro result w₂ h₂
  apply follows_andThen (paidUp_quiet rfl h₂)
  intro pending w₃ h₃
  exact paidUp_finalizeCancellations pending result h₃

end

/-! ### What an active subscription has paid for

Calls of every kind keep what is paid (`PaidUp`), but for one: a subscription is created whether or not its first charge
succeeds, and a renewal does not go back to it. -/

/-! ### Creation -/

/-- What the first charge of a new subscription needs, beside answers: there is no trial, the
payment method is an escrow whose contract is known, and the drawn identifier is new. -/
structure FirstChargePaid (cfg : Settings) (w : World) (chargeId : String) (input : CreateSubscriptionInput) :
    Prop where
  untrialed : ∀ plan, lookup SubscriptionPlan.id w.plans input.planId = some plan →
    (input.trialDaysOverride.or plan.trialDays).getD 0 ≤ 0
  escrow : input.paymentMethod.type = .escrow
  knows : cfg.Knows input.paymentMethod
  fresh : lookup SubscriptionCharge.id w.charges chargeId = none

section
variable {cfg : Settings} {w : World} {id chargeId : String} {input : CreateSubscriptionInput}

def World.enrol (w : World) (row : Subscription) : World :=
  { w with
    subscriptions := w.subscriptions ++ [row]
    begun := w.begun ++ [(row.id, row.currentPeriodStart)] }

variable {row : Subscription}

theorem begun_enrol_ne (h : id ≠ row.id) : lookup Prod.fst (w.enrol row).begun id = lookup Prod.fst w.begun id :=
  lookup_append_ne h

theorem begun_enrol_self (h : lookup Prod.fst w.begun row.id = none) :
    lookup Prod.fst (w.enrol row).begun row.id = some (row.id, row.currentPeriodStart) :=
  lookup_append_self h

theorem PaidUp.enrol {w' : World} {c : SubscriptionCharge} (h : PaidUp w)
    (hfresh : w.subscription row.id = none) (hplan : lookup SubscriptionPlan.id w.plans row.planId = some plan)
    (hclose : addBillingInterval row.currentPeriodStart plan.interval plan.intervalCount = .ok (some row.currentPeriodEnd))
    (hev : Evolves (row.id, row.currentPeriodStart) row.currentPeriodEnd (w.enrol row) w')
    (hcharge : w'.charge (row.id, row.currentPeriodStart) = some c) (hsucc : c.status = .succeeded) :
    PaidUp w' := by
  have hself : w'.subscription row.id = some row := by
    rw [hev.subscription]
    exact lookup_append_self hfresh
  have hother : ∀ id', id' ≠ row.id → w'.subscription id' = w.subscription id' := by
    intro id' hne
    rw [hev.subscription]
    exact lookup_append_ne hne
  have hknown : ∀ {k' c'}, w'.charge k' = some c' →
      (k'.1 ≠ row.id ∧ ∃ c, w.charge k' = some c ∧ c.periodEnd = c'.periodEnd) ∨
        k' = (row.id, row.currentPeriodStart) ∧ c'.periodEnd = row.currentPeriodEnd := by
    intro k' c' hc'
    rcases hev.known hc' with ⟨x, hx, hend⟩ | hnew
    · refine .inl ⟨?_, x, hx, hend⟩
      intro hk'
      obtain ⟨row', -, hrow', -⟩ := h.closes (k := k') (c := x) hx
      simp [hk', hfresh] at hrow'
    · exact .inr hnew
  refine ⟨hev.indexed, ?_, ?_, ?_⟩
  · intro k' c' hc'
    rw [hev.plans]
    rcases hknown hc' with ⟨hne, x, hx, hend⟩ | ⟨rfl, hend⟩
    · obtain ⟨row', plan', hrow', hplan', hclose'⟩ := h.closes hx
      exact ⟨row', plan', (hother k'.1 hne).trans hrow', hplan', hend ▸ hclose'⟩
    · exact ⟨row, plan, hself, hplan, hend ▸ hclose⟩
  · intro id' hnone
    have hne : id' ≠ row.id := by
      rintro rfl
      simp [hself] at hnone
    rw [hother id' hne] at hnone
    rw [hev.begun]
    exact (begun_enrol_ne hne).trans (h.begun hnone)
  · intro id' row' hrow'
    by_cases hid' : id' = row.id
    · rw [hid', hself] at hrow'
      cases hrow'
      have hend : c.periodEnd = row.currentPeriodEnd := by
        rcases hknown hcharge with ⟨hne, -⟩ | ⟨-, hend⟩
        · exact absurd rfl hne
        · exact hend
      rw [hid']
      refine ⟨row.currentPeriodStart, [(row.currentPeriodStart, row.currentPeriodEnd)], ?_, ⟨rfl, rfl⟩, ?_⟩
      · rw [hev.begun]
        exact begun_enrol_self (h.begun hfresh)
      · intro period hper
        rw [mem_singleton.mp hper]
        exact ⟨c, hcharge, hend, hsucc⟩
    · rw [hother id' hid'] at hrow'
      obtain ⟨start, periods, hbegun, hcontiguous, hchg⟩ := h.paid hrow'
      refine ⟨start, periods, ?_, hcontiguous, ?_⟩
      · rw [hev.begun]
        exact (begun_enrol_ne hid').trans hbegun
      · intro period hper
        obtain ⟨x, hx, hend, hsucc'⟩ := hchg period hper
        obtain ⟨x', hx', hend', hkept⟩ := hev.kept (c := x) hx
        exact ⟨x', hx', hend'.trans hend, hkept hsucc'⟩

theorem does_createSubscription {w' : World} {status : SubscriptionStatus} {periodStart periodEnd : Int}
    {trialEnd : Option Int} {r : Except SubscriptionError Subscription}
    (h : smooth cfg.conv (.createSubscription id input status periodStart periodEnd trialEnd) w r w') :
    w' = w ∧ (∃ e, r = .error e) ∨ w.subscription id = none ∧
      ∃ row : Subscription, r = .ok row ∧ w' = w.enrol row ∧ row.id = id ∧ row.planId = input.planId ∧
        row.currentPeriodStart = periodStart ∧ row.currentPeriodEnd = periodEnd ∧
        row.paymentMethod = input.paymentMethod := by
  obtain ⟨tx, text, time, -, -, hr⟩ := h
  simp only [outcome, answer] at hr
  split at hr
  · cases hr
    exact .inl ⟨rfl, _, rfl⟩
  · rename_i hans
    split at hans
    · cases hans
    · rename_i hfresh
      cases hans
      cases hr
      exact .inr ⟨by simpa [World.subscription] using hfresh, _, rfl, rfl, rfl, rfl, rfl, rfl, rfl⟩

theorem paidUp_startSubscription {now periodEnd : Int} (h : PaidUp w)
    (hfirst : FirstChargePaid cfg w chargeId input)
    (hplan : lookup SubscriptionPlan.id w.plans input.planId = some plan)
    (hclose : addBillingInterval now plan.interval plan.intervalCount = .ok (some periodEnd)) :
    Follows (machine (smooth cfg.conv)) w
      (startSubscription cfg id chargeId input plan ⟨now, some periodEnd, false⟩ periodEnd)
      fun _ w' => PaidUp w' := by
  apply follows_bind
  apply follows_op
  intro r w₁ hsmooth
  rcases does_createSubscription hsmooth with
    ⟨rfl, e, rfl⟩ | ⟨hfresh, row, rfl, rfl, rfl, hplanId, rfl, rfl, hmethod⟩
  · exact h
  have hidx : (w.enrol row).Indexed := ⟨h.indexed.ids, h.indexed.keys⟩
  apply follows_bind
  apply follows_op
  intro r w₂ hemit
  obtain ⟨rfl, rfl⟩ := smooth_emit hemit
  have hcharges : Follows (machine (smooth cfg.conv)) (w.enrol row)
      (chargeSubscriptionPeriod cfg chargeId row plan row.currentPeriodStart row.currentPeriodEnd plan.amount)
      _ :=
    follows_and (follows_of_does (follows_chargeSubscriptionPeriod_made hidx))
      (smooth_chargeSubscriptionPeriod hidx hfirst.fresh (hmethod ▸ hfirst.escrow) (hmethod ▸ hfirst.knows))
  refine follows_bind (follows_mono hcharges ?_)
  rintro r w₃ ⟨⟨hev, hret⟩, charge, rfl, hstat⟩
  show Follows _ _ (if charge.status ≠ .succeeded then _ else _) _
  rw [if_neg (not_not.mpr hstat)]
  exact h.enrol hfresh (hplanId ▸ hplan) hclose hev (hret charge rfl) hstat

theorem paidUp_createSubscription (h : PaidUp w) (hfirst : FirstChargePaid cfg w chargeId input) :
    Follows (machine (smooth cfg.conv)) w (createSubscription cfg id chargeId input) fun _ w' => PaidUp w' := by
  refine follows_bind (follows_mono (follows_of_does follows_getSubscriptionPlan)
    (forall_except (fun _ _ ⟨rfl, hread⟩ => h) ?_))
  rintro plan _ ⟨rfl, hread⟩
  have hplan := hread plan rfl
  apply follows_bind
  apply follows_op
  intro r w₁ hsmooth
  cases does_now (does_of_smooth hsmooth)
  cases r with
  | error e => exact h
  | ok now =>
    apply follows_bind
    simp only [computeInitialPeriod, if_neg (Int.not_lt.mpr (hfirst.untrialed plan hplan)), gt_iff_lt]
    cases hclose : addBillingInterval now plan.interval plan.intervalCount with
    | error e => exact h
    | ok close =>
      cases close with
      | none => exact h
      | some periodEnd => exact paidUp_startSubscription h hfirst hplan hclose

end

/-- A call, with every outcome of its operations; but the first charge of a new subscription
succeeds. -/
inductive Steps (cfg : Settings) (w w' : World) : Prop where
  | create {id chargeId : String} {input : CreateSubscriptionInput} {outcome : Except SubscriptionError Unit}
      (first : FirstChargePaid cfg w chargeId input)
      (ends : Ends (smooth cfg.conv) (Call.body cfg (.create id chargeId input)) w outcome w')
  | other {call : Call} {outcome : Except SubscriptionError Unit}
      (existing : ∀ id chargeId input, call ≠ .create id chargeId input)
      (ends : Ends does (call.body cfg) w outcome w')

theorem paidUp_steps {cfg : Settings} {w w' : World} (h : PaidUp w) (hstep : Steps cfg w w') : PaidUp w' := by
  have hdrop : ∀ {α : Type} {does : Effect subscriptionSignature World} {p : SubscriptionM α},
      Follows (machine does) w p (fun _ w' => PaidUp w') →
      Follows (machine does) w (do let _ ← p; return ()) (fun _ w' => PaidUp w') :=
    fun hp => follows_andThen hp fun _ _ hw => hw
  cases hstep with
  | create first ends => exact (hdrop (paidUp_createSubscription h first)).ends ends
  | @other call outcome existing ends =>
    cases call with
    | create id chargeId input => exact absurd rfl (existing id chargeId input)
    | renew chargeId subscriptionId options => exact (hdrop (paidUp_renewSubscription h)).ends ends
    | pause subscriptionId => exact (hdrop (paidUp_pauseSubscription h)).ends ends
    | resume subscriptionId => exact (hdrop (paidUp_resumeSubscription h)).ends ends
    | cancel subscriptionId atPeriodEnd => exact (hdrop (paidUp_cancelSubscription h)).ends ends
    | billingCycle draw now => exact (hdrop (paidUp_runBillingCycle h)).ends ends

def World.Fresh (w : World) : Prop := w.subscriptions = [] ∧ w.charges = [] ∧ w.begun = []

theorem paidUp_fresh {w : World} (h : w.Fresh) : PaidUp w := by
  obtain ⟨hsubscriptions, hcharges, hbegun⟩ := h
  refine ⟨⟨?_, ?_⟩, ?_, ?_, ?_⟩
  · rw [Keyed, hcharges]
    exact nodup_nil
  · rw [Keyed, hcharges]
    exact nodup_nil
  · intro k c hc
    rw [World.charge, hcharges] at hc
    cases hc
  · intro id _
    rw [hbegun]
    rfl
  · intro id row hrow
    rw [World.subscription, hsubscriptions] at hrow
    cases hrow

theorem paidUp_run {cfg : Settings} {w₀ w : World} (start : w₀.Fresh)
    (run : Relation.ReflTransGen (Steps cfg) w₀ w) : PaidUp w := by
  induction run with
  | refl => exact paidUp_fresh start
  | tail _ hstep ih => exact paidUp_steps ih hstep

/-- **Paid through.** Where first charges succeed, the periods of an active subscription are contiguous up to the
current one, each with a charge that succeeded. -/
theorem paid_through {cfg : Settings} {w₀ w : World} (start : w₀.Fresh)
    (run : Relation.ReflTransGen (Steps cfg) w₀ w) {id : String} {row : Subscription}
    (hrow : w.subscription id = some row) (_hactive : row.status = .active) : PaidTo w id row.currentPeriodEnd :=
  (paidUp_run start run).paid hrow

def offered : World := ⟨[samplePlan], [], [], [], []⟩

def sampleInput : CreateSubscriptionInput where
  planId := "plan-1"
  buyerAddress := "buyer-1"
  sellerAddress := "seller-1"
  paymentMethod := ⟨.escrow, none⟩

def subscribes : Call := .create "subscription-1" "charge-1" sampleInput

def renews : Call := .renew "charge-2" "subscription-1" { force := true }

def answering (success : Bool) (o : Op) (w : World) : subscriptionSignature.Result o × World :=
  outcome o (.answered ⟨success, "tx"⟩ "7" 0) w

def after (success : Bool) (call : Call) (w : World) : World := ((call.body sampleSettings).alone (answering success) w).2

theorem ends_after (success : Bool) (call : Call) (w : World) :
    Ends does (call.body sampleSettings) w ((call.body sampleSettings).alone (answering success) w).1
      (after success call w) :=
  Ends.of_alone (fun _ _ => ⟨.answered ⟨success, "tx"⟩ "7" 0, rfl⟩) _ w

theorem paid_through_at_sample : PaidTo (after true renews (after true subscribes offered)) "subscription-1" 172800000 := by
  have hcreate : Steps sampleSettings offered (after true subscribes offered) := by
    have hfirst : FirstChargePaid sampleSettings offered "charge-1" sampleInput := by
      refine ⟨?_, rfl, .inr rfl, rfl⟩
      intro plan hplan
      cases hplan
      decide
    exact .create hfirst (Ends.of_alone (fun _ _ => ⟨⟨true, "tx"⟩, "7", 0, rfl, rfl, rfl⟩) _ offered)
  have hrenew : Steps sampleSettings (after true subscribes offered)
      (after true renews (after true subscribes offered)) := by
    refine .other ?_ (ends_after true renews _)
    rintro id chargeId input ⟨⟩
  have hrow : (after true renews (after true subscribes offered)).subscription "subscription-1" =
      some { sampleSubscription with currentPeriodStart := 86400000, currentPeriodEnd := 172800000 } := rfl
  have start : offered.Fresh := ⟨rfl, rfl, rfl⟩
  exact paid_through start (.tail (.single hcreate) hrenew) hrow rfl

/-- The first deposit fails; the renewal that follows makes the subscription active, with
nothing paid for its first period. -/
theorem first_period_unpaid : offered.Fresh ∧
      Relation.ReflTransGen (fun w w' => ∃ call outcome, Ends does (Call.body sampleSettings call) w outcome w')
        offered (after true renews (after false subscribes offered)) ∧
      ∃ row, (after true renews (after false subscribes offered)).subscription "subscription-1" = some row ∧
        row.status = .active ∧
        ¬PaidTo (after true renews (after false subscribes offered)) "subscription-1" row.currentPeriodEnd := by
  refine ⟨⟨rfl, rfl, rfl⟩, ?_, _, rfl, rfl, ?_⟩
  · exact .tail (.single ⟨subscribes, _, ends_after false subscribes _⟩) ⟨renews, _, ends_after true renews _⟩
  · rintro ⟨start, periods, hbegun, hcontiguous, hchg⟩
    cases hbegun
    cases periods with
    | nil => cases hcontiguous
    | cons period rest =>
      obtain ⟨c, hc, -, hsucc⟩ := hchg period mem_cons_self
      rw [← hcontiguous.1] at hc
      cases hc
      cases hsucc

end Delego.Subscriptions
