import Delego.Subscriptions.Billing

/-! What a charge leaves of the charges that are stored.

Whatever fails on the way, only charges change, and of these only the one of the period that is charged: one that
succeeded stays so, and none changes its period (`Evolves`). -/
namespace Delego.Subscriptions
open Delego.Process Delego.Data Option

def World.charge (w : World) (k : String × Int) : Option SubscriptionCharge := lookup SubscriptionCharge.key w.charges k

def World.subscription (w : World) (id : String) : Option Subscription := lookup Subscription.id w.subscriptions id

/-- Charges are found by identifier and by period. -/
structure World.Indexed (w : World) : Prop where
  ids : Keyed SubscriptionCharge.id w.charges
  keys : Keyed SubscriptionCharge.key w.charges

/-- From `w` to `w'` only charges changed: those that succeeded stay so, none changes its
period, and only the one of period `k`, ending at `close`, may be new. -/
structure Evolves (k : String × Int) (close : Int) (w w' : World) : Prop where
  plans : w'.plans = w.plans
  subscriptions : w'.subscriptions = w.subscriptions
  begun : w'.begun = w.begun
  indexed : w'.Indexed
  kept : ∀ {k' c}, w.charge k' = some c → ∃ c', w'.charge k' = some c' ∧ c'.periodEnd = c.periodEnd ∧
    (c.status = .succeeded → c'.status = .succeeded)
  known : ∀ {k' c'}, w'.charge k' = some c' →
    (∃ c, w.charge k' = some c ∧ c.periodEnd = c'.periodEnd) ∨ k' = k ∧ c'.periodEnd = close

/-- The charge with an identifier is of period `k` and has not succeeded. -/
def World.Open (w : World) (id : String) (k : String × Int) : Prop :=
  ∃ c, lookup SubscriptionCharge.id w.charges id = some c ∧ c.key = k ∧ c.status ≠ .succeeded

section
variable {k : String × Int} {close : Int} {w w' w'' : World}

theorem Evolves.of_same (hw : w.Indexed) (h : w' = { w with deposits := w'.deposits }) : Evolves k close w w' := by
  have hcharges : w'.charges = w.charges := by rw [h]
  have hcharge : ∀ k', w'.charge k' = w.charge k' := by
    intro k'
    rw [World.charge, hcharges]
    rfl
  refine ⟨by rw [h], by rw [h], by rw [h], ⟨hcharges ▸ hw.ids, hcharges ▸ hw.keys⟩, ?_, ?_⟩
  · intro k' c hc
    exact ⟨c, (hcharge k').trans hc, rfl, id⟩
  · intro k' c' hc'
    exact .inl ⟨c', (hcharge k').symm.trans hc', rfl⟩

theorem Evolves.refl (hw : w.Indexed) : Evolves k close w w := Evolves.of_same hw rfl

theorem Evolves.trans (h : Evolves k close w w') (h' : Evolves k close w' w'') : Evolves k close w w'' := by
  refine ⟨h'.plans.trans h.plans, h'.subscriptions.trans h.subscriptions, h'.begun.trans h.begun, h'.indexed, ?_, ?_⟩
  · intro k' c hc
    obtain ⟨c', hc', hend', hsucc'⟩ := h.kept hc
    obtain ⟨c'', hc'', hend'', hsucc''⟩ := h'.kept hc'
    exact ⟨c'', hc'', hend''.trans hend', fun hs => hsucc'' (hsucc' hs)⟩
  · intro k' c'' hc''
    rcases h'.known hc'' with ⟨c', hc', hend'⟩ | hnew
    · rcases h.known hc' with ⟨c, hc, hend⟩ | ⟨hk, hclose⟩
      · exact .inl ⟨c, hc, hend.trans hend'⟩
      · exact .inr ⟨hk, hend'.symm.trans hclose⟩
    · exact .inr hnew

end

/-- A write that leaves what a charge is for. -/
structure Changes (f : SubscriptionCharge → SubscriptionCharge) : Prop where
  id : ∀ c, (f c).id = c.id
  key : ∀ c, (f c).key = c.key
  close : ∀ c, (f c).periodEnd = c.periodEnd

theorem changes_apply (update : ChargeUpdate) : Changes (·.apply update) := ⟨fun _ => rfl, fun _ => rfl, fun _ => rfl⟩

theorem changes_attempt : Changes SubscriptionCharge.attempt := ⟨fun _ => rfl, fun _ => rfl, fun _ => rfl⟩

section
variable {k : String × Int} {close : Int} {w : World} {id : String} {existing : SubscriptionCharge}
  {f : SubscriptionCharge → SubscriptionCharge}

theorem replace_eq_update (hw : w.Indexed) (hfound : lookup SubscriptionCharge.id w.charges id = some existing)
    (hf : Changes f) : replace SubscriptionCharge.id w.charges (f existing) =
      update SubscriptionCharge.id w.charges existing.id f := by
  have hconst : replace SubscriptionCharge.id w.charges (f existing) =
      update SubscriptionCharge.id w.charges existing.id fun _ => f existing := by
    rw [← hf.id existing]
    rfl
  rw [hconst]
  exact hw.ids.update_congr (lookup_mem hfound) rfl

theorem charge_update (hf : Changes f) (k' : String × Int) :
    ({ w with charges := update SubscriptionCharge.id w.charges id f } : World).charge k' =
      (w.charge k').map fun c => if c.id = id then f c else c := by
  apply lookup_map
  intro c
  split
  · exact hf.key c
  · rfl

theorem evolves_update (hw : w.Indexed) (hopen : w.Open id k) (hf : Changes f) :
    Evolves k close w { w with charges := update SubscriptionCharge.id w.charges id f } := by
  obtain ⟨existing, hfound, -, hstat⟩ := hopen
  refine ⟨rfl, rfl, rfl, ⟨hw.ids.update hf.id, hw.keys.update hf.key⟩, ?_, ?_⟩
  · intro k' c hc
    rw [charge_update hf, hc, map_some]
    refine ⟨_, rfl, ?_, ?_⟩
    · split
      · exact hf.close c
      · rfl
    · intro hsucc
      rw [if_neg]
      · exact hsucc
      · rintro rfl
        have heq : some c = some existing := (hw.ids.found (lookup_mem hc)).symm.trans hfound
        cases heq
        exact hstat hsucc
  · intro k' c' hc'
    rw [charge_update hf] at hc'
    obtain ⟨c, hc, rfl⟩ := map_eq_some_iff.mp hc'
    refine .inl ⟨c, hc, ?_⟩
    split
    · exact (hf.close c).symm
    · rfl

theorem open_update (hopen : w.Open id k) (hf : Changes f)
    (hstat : ∀ c, c.status ≠ .succeeded → (f c).status ≠ .succeeded) :
    ({ w with charges := update SubscriptionCharge.id w.charges id f } : World).Open id k := by
  obtain ⟨c, hfound, hkey, hopen⟩ := hopen
  refine ⟨f c, ?_, (hf.key c).trans hkey, hstat c hopen⟩
  show lookup _ (update _ _ _ _) _ = _
  rw [lookup_update hf.id, if_pos rfl, hfound]
  rfl

end

/-! ### What a charge does -/

section
variable {k : String × Int} {close : Int} {w w' : World} {id : String}

/-- What a change of the charge with an identifier leaves. -/
structure Changed (k : String × Int) (close : Int) (w w' : World) (id : String)
    (f : SubscriptionCharge → SubscriptionCharge) (r : Except SubscriptionError SubscriptionCharge) : Prop where
  evolves : Evolves k close w w'
  stillOpen : (∀ c, c.status ≠ .succeeded → (f c).status ≠ .succeeded) → w'.Open id k
  returned : ∀ c, r = .ok c → w'.charge k = some c

variable {r : Except SubscriptionError SubscriptionCharge}

theorem changed_of_answer {f : SubscriptionCharge → SubscriptionCharge} (hw : w.Indexed) (hopen : w.Open id k)
    (hf : Changes f)
    (h : w' = w ∧ (∃ e, r = .error e) ∨ ∃ existing, lookup SubscriptionCharge.id w.charges id = some existing ∧
      w' = { w with charges := replace SubscriptionCharge.id w.charges (f existing) } ∧
      (r = .ok (f existing) ∨ ∃ e, r = .error e)) : Changed k close w w' id f r := by
  rcases h with ⟨rfl, e, rfl⟩ | ⟨existing, hfound, rfl, hr⟩
  · refine ⟨Evolves.refl hw, fun _ => hopen, ?_⟩
    rintro c ⟨⟩
  have hid : existing.id = id := lookup_key hfound
  rw [replace_eq_update hw hfound hf, hid]
  refine ⟨evolves_update hw hopen hf, open_update hopen hf, ?_⟩
  rintro c rfl
  rcases hr with hok | ⟨e, herror⟩
  · cases hok
    obtain ⟨x, hx, hkey, -⟩ := hopen
    rw [hfound] at hx
    cases hx
    have hcharge : w.charge k = some existing := hkey ▸ hw.keys.found (lookup_mem hfound)
    rw [charge_update hf, hcharge, map_some, if_pos hid]
  · cases herror

variable (close) in
theorem does_updateCharge {update : ChargeUpdate} (hw : w.Indexed) (hopen : w.Open id k)
    (h : does (.updateCharge id update) w r w') :
    Changed k close w w' id (·.apply update) r := by
  apply changed_of_answer hw hopen (changes_apply update)
  rcases does_cases h with hfail | ⟨tx, text, time, a, hans, hr⟩
  · exact .inl hfail
  simp only [answer] at hans
  split at hans
  · rename_i existing hfound
    cases hans
    refine .inr ⟨existing, hfound, rfl, ?_⟩
    rcases hr with hok | ⟨-, herror⟩
    · exact .inl hok
    · exact .inr herror
  · cases hans

variable (close) in
theorem does_incrementAttempt (hw : w.Indexed) (hopen : w.Open id k) (h : does (.incrementAttempt id) w r w') :
    Changed k close w w' id SubscriptionCharge.attempt r := by
  apply changed_of_answer hw hopen changes_attempt
  rcases does_cases h with hfail | ⟨tx, text, time, a, hans, hr⟩
  · exact .inl hfail
  simp only [answer] at hans
  split at hans
  · rename_i existing hfound
    cases hans
    refine .inr ⟨existing, hfound, rfl, ?_⟩
    rcases hr with hok | ⟨-, herror⟩
    · exact .inl hok
    · exact .inr herror
  · cases hans

theorem does_getOrCreate {input : UpsertChargeInput} (hw : w.Indexed) (h : does (.getOrCreateCharge id input) w r w') :
    Evolves (input.subscriptionId, input.periodStart) input.periodEnd w w' ∧
      ∀ c, r = .ok c → w'.charge (input.subscriptionId, input.periodStart) = some c := by
  rcases does_cases h with ⟨rfl, e, rfl⟩ | ⟨tx, text, time, a, hans, hr⟩
  · refine ⟨Evolves.refl hw, ?_⟩
    rintro c ⟨⟩
  simp only [answer] at hans
  split at hans
  · rename_i existing hfound
    cases hans
    refine ⟨Evolves.refl hw, ?_⟩
    rintro c rfl
    rcases hr with hok | ⟨-, e, herror⟩
    · cases hok
      exact hfound
    · cases herror
  · rename_i hnone
    split at hans
    · cases hans
    rename_i hfresh
    cases hans
    generalize hcharge : (⟨id, input.subscriptionId, input.periodStart, input.periodEnd, input.amount, .pending,
      none, none, none, none, 0⟩ : SubscriptionCharge) = charge at hr ⊢
    have hkey : charge.key = (input.subscriptionId, input.periodStart) := by
      rw [← hcharge]
      rfl
    have hnew : ∀ k', k' ≠ charge.key → ({ w with charges := w.charges ++ [charge] } : World).charge k' = w.charge k' :=
      fun k' hk' => lookup_append_ne hk'
    have hself : ({ w with charges := w.charges ++ [charge] } : World).charge charge.key = some charge :=
      lookup_append_self (hkey ▸ hnone)
    refine ⟨⟨rfl, rfl, rfl, ⟨hw.ids.append ?_, hw.keys.append (hkey ▸ hnone)⟩, ?_, ?_⟩, ?_⟩
    · rw [← hcharge]
      simpa using hfresh
    · intro k' c hc
      have hk' : k' ≠ charge.key := by
        rintro rfl
        simp [hkey, World.charge, hnone] at hc
      exact ⟨c, (hnew k' hk').trans hc, rfl, fun hs => hs⟩
    · intro k' c' hc'
      by_cases hk' : k' = charge.key
      · rw [hk', hself] at hc'
        cases hc'
        refine .inr ⟨hk'.trans hkey, ?_⟩
        rw [← hcharge]
      · rw [hnew k' hk'] at hc'
        exact .inl ⟨c', hc', rfl⟩
    · rintro c rfl
      rcases hr with hok | ⟨-, e, herror⟩
      · cases hok
        rw [← hkey]
        exact hself
      · cases herror

/-- Operations that write nothing that is stored. -/
def Op.quiet : Op → Bool
  | .createSubscription .. => false
  | .updateSubscription .. => false
  | .getOrCreateCharge .. => false
  | .updateCharge .. => false
  | .incrementAttempt _ => false
  | _ => true

theorem same_of_quiet {o : Op} {r : subscriptionSignature.Result o} (ho : o.quiet = true)
    (h : does o w r w') : w' = { w with deposits := w'.deposits } := by
  rcases does_cases h with ⟨rfl, -⟩ | ⟨tx, text, time, a, hans, -⟩
  · rfl
  cases o with
  | submitContractInvocation request =>
    simp only [answer] at hans
    split at hans
    · split at hans
      · cases hans
        rfl
      · cases hans
        rfl
    · cases hans
      rfl
  | createSubscription id input status periodStart periodEnd trialEnd => cases ho
  | updateSubscription id update => cases ho
  | getOrCreateCharge id input => cases ho
  | updateCharge id update => cases ho
  | incrementAttempt id => cases ho
  | _ =>
    cases hans
    rfl

end

section
variable {cfg : Settings} {subscription : Subscription} {plan : SubscriptionPlan} {k : String × Int}
  {close : Int} {w w' : World} {id : String}

def Charging (k : String × Int) (close : Int) (w : World) (id : String) (w' : World) : Prop :=
  Evolves k close w w' ∧ w'.Open id k

theorem open_of_deposits (hopen : w.Open id k) (h : w' = { w with deposits := w'.deposits }) : w'.Open id k := by
  rw [h]
  exact hopen

theorem follows_quiet {o : Op} (ho : o.quiet = true) (h : Charging k close w id w') :
    Follows (machine does) w' (perform o) fun _ w'' => Charging k close w id w'' := by
  apply follows_op
  intro r w'' hdoes
  have heq := same_of_quiet ho hdoes
  exact ⟨h.1.trans (Evolves.of_same h.1.indexed heq), open_of_deposits h.2 heq⟩

theorem follows_fundAndRelease_charging {periodStart : Int} {amount contractId : String} (h : Charging k close w id w') :
    Follows (machine does) w' (fundAndRelease cfg subscription plan periodStart amount contractId id)
      fun _ w'' => Charging k close w id w'' := by
  apply follows_andThen (follows_quiet rfl h)
  intro fundTx w₁ h₁
  split
  · exact h₁
  apply follows_andThen (follows_quiet rfl h₁)
  intro escrowId w₂ h₂
  apply follows_andThen
  · apply follows_op
    intro r w₃ hdoes
    have hchanged := does_updateCharge close h₂.1.indexed h₂.2 hdoes
    exact ⟨h₂.1.trans hchanged.evolves, hchanged.stillOpen fun c hc => hc⟩
  intro _ w₃ h₃
  apply follows_andThen
  · unfold parseEscrowId
    split
    · exact h₃
    · exact h₃
  intro number w₄ h₄
  apply follows_andThen (follows_quiet rfl h₄)
  intro releaseTx w₅ h₅
  split
  · exact h₅
  · exact h₅

def ChargeMade (k : String × Int) (close : Int) (w : World) (r : Except SubscriptionError SubscriptionCharge)
    (w' : World) : Prop :=
  Evolves k close w w' ∧ ∀ c, r = .ok c → w'.charge k = some c

/-- **What a charge changes.** -/
theorem follows_chargeSubscriptionPeriod_made {chargeId amount : String} {periodStart periodEnd : Int} (hw : w.Indexed) :
    Follows (machine does) w (chargeSubscriptionPeriod cfg chargeId subscription plan periodStart periodEnd amount)
      (ChargeMade (subscription.id, periodStart) periodEnd w) := by
  have herror : ∀ {e w'}, Evolves (subscription.id, periodStart) periodEnd w w' →
      ChargeMade (subscription.id, periodStart) periodEnd w (.error e) w' := by
    intro e w' h
    refine ⟨h, ?_⟩
    rintro c ⟨⟩
  apply follows_bind
  apply follows_op
  intro r w₁ hget
  obtain ⟨h₁, hret⟩ := does_getOrCreate hw hget
  cases r with
  | error e => exact herror h₁
  | ok charge =>
    have hcharge := hret charge rfl
    show Follows _ _ (if charge.status = .succeeded then _ else _) _
    split
    · refine ⟨h₁, ?_⟩
      rintro c ⟨⟩
      exact hcharge
    rename_i hstat
    have hopen : w₁.Open charge.id (subscription.id, periodStart) :=
      ⟨charge, h₁.indexed.ids.found (lookup_mem hcharge), lookup_key hcharge, hstat⟩
    split
    · exact herror h₁
    apply follows_bind
    apply follows_op
    intro r w₂ hattempt
    have hchanged := does_incrementAttempt periodEnd h₁.indexed hopen hattempt
    have h₂ : Charging (subscription.id, periodStart) periodEnd w charge.id w₂ :=
      ⟨h₁.trans hchanged.evolves, hchanged.stillOpen fun c hc => hc⟩
    cases r with
    | error e => exact herror h₂.1
    | ok attempted =>
      have hid : attempted.id = charge.id := by
        obtain ⟨c, hfound, hkey, -⟩ := h₂.2
        have hc : w₂.charge (subscription.id, periodStart) = some c := hkey ▸ h₂.1.indexed.keys.found (lookup_mem hfound)
        rw [hchanged.returned attempted rfl] at hc
        cases hc
        exact lookup_key hfound
      rw [← hid] at h₂
      refine follows_bind (follows_mono follows_contractIdOf ?_)
      rintro r _ rfl
      cases r with
      | error e => exact herror h₂.1
      | ok contractId =>
        refine follows_bind (follows_attempt (follows_mono (follows_fundAndRelease_charging h₂) ?_))
        intro r w₃ h₃
        have hupdate : ∀ update, Follows (machine does) w₃ (perform (.updateCharge attempted.id update))
            (ChargeMade (subscription.id, periodStart) periodEnd w) := by
          intro update
          apply follows_op
          intro r w₄ hdoes
          have hchanged := does_updateCharge periodEnd h₃.1.indexed h₃.2 hdoes
          exact ⟨h₃.1.trans hchanged.evolves, hchanged.returned⟩
        cases r with
        | ok update => exact hupdate _
        | error e => exact hupdate _

end

/-! ### A charge that nothing fails

Where every operation is answered, every invocation succeeds and the escrow's number is one
(`smooth`), a charge from an escrow whose contract is known succeeds. -/

/-- Every operation is answered, every invocation succeeds and the escrow's number is one. -/
def smooth (conv : Conversions) : Effect subscriptionSignature World := fun o w r w' =>
  ∃ tx text time, tx.success = true ∧ (conv.number text).isSome ∧ (r, w') = outcome o (.answered tx text time) w

theorem does_of_smooth {conv : Conversions} {o : Op} {w w' : World} {r : subscriptionSignature.Result o}
    (h : smooth conv o w r w') : does o w r w' := by
  obtain ⟨tx, text, time, -, -, hr⟩ := h
  exact ⟨_, hr⟩

theorem follows_of_does {α : Type} {conv : Conversions} {w : World} {p : SubscriptionM α}
    {Q : Except SubscriptionError α → World → Prop} (h : Follows (machine does) w p Q) :
    Follows (machine (smooth conv)) w p Q := by
  induction p generalizing w with
  | ret a => exact h
  | fail e => exact h
  | call o next ih => exact ⟨trivial, fun r w' hsmooth => ih r (h.2 r w' (does_of_smooth hsmooth))⟩

section
variable {cfg : Settings} {subscription : Subscription} {plan : SubscriptionPlan} {w w' : World}

def World.Stores (w : World) (id : String) : Prop := (lookup SubscriptionCharge.id w.charges id).isSome

variable {r : Except SubscriptionError SubscriptionCharge}
  {id : String}

theorem smooth_updateCharge {update : ChargeUpdate} (hstores : w.Stores id)
    (h : smooth cfg.conv (.updateCharge id update) w r w') :
    w'.Stores id ∧ ∃ c, r = .ok c ∧ ∀ status, update.status = some status → c.status = status := by
  obtain ⟨tx, text, time, -, -, hr⟩ := h
  obtain ⟨existing, hfound⟩ := isSome_iff_exists.mp hstores
  simp only [outcome, answer, hfound] at hr
  cases hr
  have hid : (existing.apply update).id = id := show existing.id = id from lookup_key hfound
  refine ⟨?_, _, rfl, ?_⟩
  · show (lookup _ (replace _ _ _) _).isSome
    rw [← hid, lookup_replace_self (by rw [hid]; exact hfound)]
    rfl
  · intro status hstat
    show update.status.getD existing.status = status
    rw [hstat]
    rfl

theorem smooth_incrementAttempt (hstores : w.Stores id)
    (h : smooth cfg.conv (.incrementAttempt id) w r w') :
    ∃ c, r = .ok c ∧ w'.Stores c.id := by
  obtain ⟨tx, text, time, -, -, hr⟩ := h
  obtain ⟨existing, hfound⟩ := isSome_iff_exists.mp hstores
  simp only [outcome, answer, hfound] at hr
  cases hr
  have hid : existing.id = id := lookup_key hfound
  have heq : lookup SubscriptionCharge.id w.charges existing.attempt.id = some existing := by
    show lookup SubscriptionCharge.id w.charges existing.id = some existing
    rw [hid]
    exact hfound
  refine ⟨_, rfl, ?_⟩
  show (lookup _ (replace _ _ existing.attempt) existing.attempt.id).isSome
  rw [lookup_replace_self heq]
  rfl

theorem smooth_getOrCreate {input : UpsertChargeInput} (hw : w.Indexed)
    (hfresh : lookup SubscriptionCharge.id w.charges id = none)
    (h : smooth cfg.conv (.getOrCreateCharge id input) w r w') : ∃ c, r = .ok c ∧ w'.Stores c.id := by
  obtain ⟨tx, text, time, -, -, hr⟩ := h
  simp only [outcome, answer] at hr
  cases hfound : lookup SubscriptionCharge.key w.charges (input.subscriptionId, input.periodStart) with
  | some existing =>
    rw [hfound] at hr
    cases hr
    refine ⟨existing, rfl, ?_⟩
    rw [World.Stores, hw.ids.found (lookup_mem hfound)]
    rfl
  | none =>
    rw [hfound] at hr
    simp only [hfresh, isSome_none, Bool.false_eq_true, if_false] at hr
    cases hr
    refine ⟨_, rfl, ?_⟩
    rw [World.Stores, lookup_append_self hfresh]
    rfl

theorem smooth_submit {request : TransactionRequest} {r : Except SubscriptionError TransactionResult}
    (h : smooth cfg.conv (.submitContractInvocation request) w r w') :
    w'.charges = w.charges ∧ ∃ tx, r = .ok tx ∧ tx.success = true := by
  obtain ⟨tx, text, time, hsucs, -, hr⟩ := h
  simp only [outcome, answer] at hr
  cases hr
  refine ⟨?_, tx, rfl, hsucs⟩
  split
  · split
    · rfl
    · rfl
  · rfl

theorem smooth_extract {txHash : String} {r : Except SubscriptionError String}
    (h : smooth cfg.conv (.extractEscrowIdFromTx txHash) w r w') :
    w' = w ∧ ∃ escrowId, r = .ok escrowId ∧ (cfg.conv.number escrowId).isSome := by
  obtain ⟨tx, text, time, -, hnumber, hr⟩ := h
  simp only [outcome, answer] at hr
  cases hr
  exact ⟨rfl, text, rfl, hnumber⟩

theorem smooth_emit {event : SubscriptionEvent} {r : Except SubscriptionError Unit}
    (h : smooth cfg.conv (.emitSubscriptionEvent event) w r w') : r = .ok () ∧ w' = w := by
  obtain ⟨tx, text, time, -, -, hr⟩ := h
  simp only [outcome, answer] at hr
  cases hr
  exact ⟨rfl, rfl⟩

theorem stores_of_charges (hstores : w.Stores id) (h : w'.charges = w.charges) : w'.Stores id := by
  rw [World.Stores, h]
  exact hstores

theorem smooth_fundAndRelease {periodStart : Int} {amount contractId id : String} (hstores : w.Stores id) :
    Follows (machine (smooth cfg.conv)) w (fundAndRelease cfg subscription plan periodStart amount contractId id)
      fun r w' => w'.Stores id ∧ ∃ update, r = .ok update ∧ update.status = some .succeeded := by
  apply follows_bind
  apply follows_op
  intro r w₁ hsubmit
  obtain ⟨hcharges, fundTx, rfl, hfunded⟩ := smooth_submit hsubmit
  have h₁ := stores_of_charges hstores hcharges
  show Follows _ _ (if !fundTx.success then _ else _) _
  rw [if_neg (by simp [hfunded])]
  apply follows_bind
  apply follows_op
  intro r w₂ hextract
  obtain ⟨rfl, escrowId, rfl, hnumber⟩ := smooth_extract hextract
  apply follows_bind
  apply follows_op
  intro r w₃ hupdate
  obtain ⟨h₃, c, rfl, -⟩ := smooth_updateCharge h₁ hupdate
  obtain ⟨number, hnumber⟩ := isSome_iff_exists.mp hnumber
  apply follows_bind
  unfold parseEscrowId
  rw [hnumber]
  apply follows_bind
  apply follows_op
  intro r w₄ hrels
  obtain ⟨hcharges', releaseTx, rfl, hrel⟩ := smooth_submit hrels
  have h₄ := stores_of_charges h₃ hcharges'
  show Follows _ _ (if !releaseTx.success then _ else _) _
  rw [if_neg (by simp [hrel])]
  exact ⟨h₄, _, rfl, rfl⟩

def Settings.Knows (cfg : Settings) (paymentMethod : SubscriptionPaymentMethod) : Prop :=
  paymentMethod.escrowContractId.isSome ∨ (cfg.escrowContractId.filter fun id => decide (id ≠ "")).isSome

theorem follows_knows {paymentMethod : SubscriptionPaymentMethod} (h : cfg.Knows paymentMethod) :
    ∃ contractId, cfg.contractIdOf paymentMethod = pure contractId := by
  unfold Settings.contractIdOf
  split
  · exact ⟨_, rfl⟩
  · rename_i hnone
    unfold Settings.getEscrowContractId
    split
    · exact ⟨_, rfl⟩
    · rename_i hmissing
      rcases h with h | h
      · simp [hnone] at h
      · rw [hmissing] at h
        cases h

theorem smooth_chargeSubscriptionPeriod {chargeId amount : String} {periodStart periodEnd : Int} (hw : w.Indexed)
    (hfresh : lookup SubscriptionCharge.id w.charges chargeId = none)
    (hesc : subscription.paymentMethod.type = .escrow) (hknows : cfg.Knows subscription.paymentMethod) :
    Follows (machine (smooth cfg.conv)) w
      (chargeSubscriptionPeriod cfg chargeId subscription plan periodStart periodEnd amount)
      fun r _ => ∃ c, r = .ok c ∧ c.status = .succeeded := by
  apply follows_bind
  apply follows_op
  intro r w₁ hget
  obtain ⟨charge, rfl, h₁⟩ := smooth_getOrCreate hw hfresh hget
  show Follows _ _ (if charge.status = .succeeded then _ else _) _
  split
  · rename_i hstat
    exact ⟨charge, rfl, hstat⟩
  rw [if_neg (not_not.mpr hesc)]
  apply follows_bind
  apply follows_op
  intro r w₂ hattempt
  obtain ⟨attempted, rfl, h₂⟩ := smooth_incrementAttempt h₁ hattempt
  obtain ⟨contractId, hcontr⟩ := follows_knows hknows
  apply follows_bind
  rw [hcontr]
  refine follows_bind (follows_attempt (follows_mono (smooth_fundAndRelease h₂) ?_))
  rintro r w₃ ⟨h₃, update, rfl, hsucc⟩
  apply follows_op
  intro r w₄ hupdate
  obtain ⟨-, c, rfl, hstat⟩ := smooth_updateCharge h₃ hupdate
  exact ⟨c, rfl, hstat _ hsucc⟩

end

end Delego.Subscriptions
