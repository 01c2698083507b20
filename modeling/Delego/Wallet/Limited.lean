import Delego.Wallet.Applied
import Delego.Wallet.Spender

/-! Spend limits under calls that interleave.

The counters are read when a request comes, and go up when its transaction is confirmed. Any number of requests come in
between, and each finds the room that the others have found (`overspent`).

A call is one of a user and a wallet if its job names them. -/
namespace Delego.Wallet
open Delego.Process Function

/-- What was spent from the wallet, with its times. -/
def QueueState.spentOf (world : QueueState) (userId walletId : String) : List (Int × Int) :=
  (world.confirmed.filter fun c => decide ((c.userId, c.walletId) = (userId, walletId))).map fun c => (c.time, c.amount)

def current (userId walletId : String) (i : Nat) : QueueTrace → Bool
  | [] => false
  | ⟨j, .inr (.spends userId' walletId'), .ok _⟩ :: tr =>
    decide (j = i ∧ (userId', walletId') = (userId, walletId)) || current userId walletId i tr
  | ⟨_, .inr (.recordSpend userId' walletId' _), _⟩ :: tr =>
    decide ((userId', walletId') ≠ (userId, walletId)) && current userId walletId i tr
  | _ :: tr => current userId walletId i tr

def takesEffect : Fate → Bool
  | .refused _ => false
  | _ => true

def countedAfresh (userId walletId : String) (p : QueuePool) (i : Nat) (o : queueSignature.Op) (ch : QueueChoice) :
    Bool :=
  match o with
  | .inr (.recordSpend userId' walletId' _) => decide ((userId', walletId') ≠ (userId, walletId)) ||
    (current userId walletId i p.trace && takesEffect ch.fate)
  | .inr (.unrecorded userId' walletId' _) => decide ((userId', walletId') ≠ (userId, walletId))
  | _ => true

section
variable {config : SpendLimit} {limits : List SpendLimit} {userId walletId : String} {world world' : QueueState}
  {ch : QueueChoice}

/-- The counters say what was spent, and it is within the limits. -/
structure Balanced (config : SpendLimit) (limits : List SpendLimit) (userId walletId : String) (world : QueueState) :
    Prop where
  limits : world.limits = limits
  tallies : Tallies userId walletId world.counters world.now (world.spentOf userId walletId)
  past : ∀ e ∈ world.spentOf userId walletId, e.1 ≤ world.now ∧ 0 ≤ e.2
  within : Within config (world.spentOf userId walletId)

/-- What is neither a spend of the user and the wallet nor one that is passed over. -/
def Elsewhere (userId walletId : String) : queueSignature.Op → Prop
  | .inr (.recordSpend userId' walletId' _) => (userId', walletId') ≠ (userId, walletId)
  | .inr (.unrecorded userId' walletId' _) => (userId', walletId') ≠ (userId, walletId)
  | _ => True

theorem spentOf_confirm (amount : Int) : (world.confirm userId walletId amount).spentOf userId walletId =
    (world.now, amount) :: world.spentOf userId walletId := by
  simp [QueueState.confirm, QueueState.spentOf]

theorem spentOf_confirm_ne {userId' walletId' : String} (amount : Int) (h : (userId', walletId') ≠ (userId, walletId)) :
    (world.confirm userId' walletId' amount).spentOf userId walletId = world.spentOf userId walletId := by
  rw [QueueState.spentOf, QueueState.confirm, List.filter_cons_of_neg (by simpa using h)]
  rfl

/-- Two states whose books agree, but for the counters of others. -/
structure SameBooks (userId walletId : String) (world world' : QueueState) : Prop where
  limits : world'.limits = world.limits
  now : world'.now = world.now
  spent : world'.spentOf userId walletId = world.spentOf userId walletId
  counters : world'.counters = world.counters ∨ ∃ userId' walletId' amount, (userId, walletId) ≠ (userId', walletId') ∧
    world'.counters = recordSpend world.counters world.now userId' walletId' amount

theorem sameBooks_confirms {o : QueueOp} (h : Elsewhere userId walletId (.inr o)) :
    SameBooks userId walletId world (o.confirms world) := by
  cases o with
  | recordSpend userId' walletId' amount => exact ⟨rfl, rfl, spentOf_confirm_ne amount h, .inl rfl⟩
  | unrecorded userId' walletId' amount => exact ⟨rfl, rfl, spentOf_confirm_ne amount h, .inl rfl⟩
  | _ => exact ⟨rfl, rfl, rfl, .inl rfl⟩

theorem sameBooks_answer {o : QueueOp} (h : Elsewhere userId walletId (.inr o)) :
    SameBooks userId walletId world (answerQueue o ch (o.confirms world)).2 := by
  cases o with
  | recordSpend userId' walletId' amount =>
    exact ⟨rfl, rfl, spentOf_confirm_ne amount h, .inr ⟨userId', walletId', amount, h.symm, rfl⟩⟩
  | unrecorded userId' walletId' amount => exact ⟨rfl, rfl, spentOf_confirm_ne amount h, .inl rfl⟩
  | sendTransaction envelope =>
    show SameBooks userId walletId world (world.receive envelope ch.response.status)
    unfold QueueState.receive
    split
    · exact ⟨rfl, rfl, rfl, .inl rfl⟩
    · exact ⟨rfl, rfl, rfl, .inl rfl⟩
  | _ => exact ⟨rfl, rfl, rfl, .inl rfl⟩

theorem sameBooks_performQueue {o : queueSignature.Op} (h : Elsewhere userId walletId o) :
    SameBooks userId walletId world (performQueue o ch world).2 := by
  cases o with
  | inl o => exact ⟨rfl, clock_performSeq o ⟨ch.fate, ch.status⟩ world.sequences, rfl, .inl rfl⟩
  | inr o =>
    rcases performQueue_world o ch world with hw | hw
    · rw [hw]
      exact sameBooks_confirms h
    · rw [hw]
      exact sameBooks_answer h

theorem Balanced.same (h : Balanced config limits userId walletId world)
    (heq : SameBooks userId walletId world world') : Balanced config limits userId walletId world' where
  limits := heq.limits.trans h.limits
  tallies := by
    rw [heq.spent, heq.now]
    rcases heq.counters with hcounters | ⟨userId', walletId', amount, hother, hcounters⟩
    · rw [hcounters]
      exact h.tallies
    · rw [hcounters]
      exact h.tallies.record_other hother
  past := by
    rw [heq.spent, heq.now]
    exact h.past
  within := by
    rw [heq.spent]
    exact h.within

theorem performQueue_recordSpend (amount : Int) (hfate : takesEffect ch.fate = true) :
    (performQueue (.inr (.recordSpend userId walletId amount)) ch world).2 =
      { world.confirm userId walletId amount with
        counters := recordSpend world.counters world.now userId walletId amount } := by
  obtain ⟨fate, status, fee, simulation, txHash, response, found⟩ := ch
  cases fate with
  | done => rfl
  | refused message => cases hfate
  | lost message => rfl

theorem Balanced.record {amount : Int} {spends : Spends} (h : Balanced config limits userId walletId world)
    (hpos : 0 < amount) (hfits : Affordable config spends amount)
    (hmost : (spendsAt (world.spentOf userId walletId) world.now).AtMost spends) :
    Balanced config limits userId walletId { world.confirm userId walletId amount with
      counters := recordSpend world.counters world.now userId walletId amount } := by
  have hspent : QueueState.spentOf { world.confirm userId walletId amount with
      counters := recordSpend world.counters world.now userId walletId amount } userId walletId =
        (world.now, amount) :: world.spentOf userId walletId := spentOf_confirm amount
  refine ⟨h.limits, ?_, ?_, ?_⟩
  · rw [hspent]
    exact h.tallies.record
  · rw [hspent]
    intro e he
    rcases List.mem_cons.mp he with rfl | he'
    · exact ⟨Int.le_refl _, Int.le_of_lt hpos⟩
    · exact h.past e he'
  · rw [hspent]
    exact h.within.cons hfits hmost

/-- Limits and counters stay, and time goes on. -/
structure Later (world world' : QueueState) : Prop where
  limits : world'.limits = world.limits
  counters : world'.counters = world.counters
  confirmed : world'.confirmed = world.confirmed
  now : world.now ≤ world'.now

theorem later_drift (e : QueueEvent) (world : QueueState) : Later world (driftQueue e world) := by
  have hclock : ∀ e' w, SequenceState.clock w ≤ (driftSeq e' w).clock := by
    intro e' w
    cases e' with
    | tick ms => exact Int.le_add_of_nonneg_right (Int.natCast_nonneg ms)
    | advance account => exact Int.le_refl _
  cases e with
  | sequence e' => exact ⟨rfl, rfl, rfl, hclock e' world.sequences⟩
  | apply envelope =>
    simp only [driftQueue]
    split
    · exact ⟨rfl, rfl, rfl, hclock (.advance envelope.account) world.sequences⟩
    · exact ⟨rfl, rfl, rfl, Int.le_refl _⟩

theorem Later.spent (h : Later world world') : world'.spentOf userId walletId = world.spentOf userId walletId := by
  rw [QueueState.spentOf, QueueState.spentOf, h.confirmed]

theorem Balanced.later (h : Balanced config limits userId walletId world) (hlater : Later world world') :
    Balanced config limits userId walletId world' where
  limits := hlater.limits.trans h.limits
  tallies := by
    rw [hlater.counters, hlater.spent]
    exact h.tallies.later hlater.now
  past := by
    rw [hlater.spent]
    exact fun e he => ⟨(h.past e he).1.trans hlater.now, (h.past e he).2⟩
  within := by
    rw [hlater.spent]
    exact h.within

end

/-! ### Runs -/

section
variable {config : SpendLimit} {limits : List SpendLimit} {userId walletId : String} {world world' : QueueState}
  {tr : QueueTrace} {φ : Nat → Spender} {i : Nat} {o : queueSignature.Op}

/-- The books are balanced, and who has read the counters with no spend since knows what was spent. -/
structure Limited (config : SpendLimit) (limits : List SpendLimit) (userId walletId : String) (world : QueueState)
    (tr : QueueTrace) (φ : Nat → Spender) : Prop where
  balanced : Balanced config limits userId walletId world
  room : ∀ i spends, φ i = .read spends → current userId walletId i tr = true →
    (spendsAt (world.spentOf userId walletId) world.now).AtMost spends
  unread : ∀ i, φ i = .unread → current userId walletId i tr = false

theorem Spends.AtMost.refl (s : Spends) : s.AtMost s := ⟨Int.le_refl _, Int.le_refl _, Int.le_refl _⟩

theorem Spends.AtMost.trans {s s' s'' : Spends} (h : s.AtMost s') (h' : s'.AtMost s'') : s.AtMost s'' :=
  ⟨h.daily.trans h'.daily, h.weekly.trans h'.weekly, h.lifetime.trans h'.lifetime⟩

theorem Limited.later (h : Limited config limits userId walletId world tr φ) (hlater : Later world world') :
    Limited config limits userId walletId world' tr φ where
  balanced := h.balanced.later hlater
  room := by
    intro i spends hread hcur
    rw [hlater.spent]
    exact (spendsAt_later hlater.now h.balanced.past).trans (h.room i spends hread hcur)
  unread := h.unread

/-- What neither reads the counters of the user and the wallet nor makes them go up. -/
def Unrelated (userId walletId : String) : queueSignature.Op → Prop
  | .inr (.spends userId' walletId') => (userId', walletId') ≠ (userId, walletId)
  | .inr (.recordSpend userId' walletId' _) => (userId', walletId') ≠ (userId, walletId)
  | _ => True

theorem next_unrelated {φ : Spender} (h : Unrelated userId walletId o) (r : queueSignature.Result o) :
    φ.next userId walletId o r = φ := by
  cases o with
  | inl o => rfl
  | inr o =>
    cases o with
    | spends userId' walletId' =>
      cases r with
      | ok spends => exact if_neg h
      | error e => rfl
    | recordSpend userId' walletId' amount => exact if_neg h
    | _ => rfl

theorem current_unrelated (h : Unrelated userId walletId o) (r : queueSignature.Result o) (j : Nat) :
    current userId walletId j (⟨i, o, r⟩ :: tr) = current userId walletId j tr := by
  cases o with
  | inl o => rfl
  | inr o =>
    cases o with
    | spends userId' walletId' =>
      cases r with
      | ok spends =>
        rw [current, decide_eq_false fun hand => h hand.2]
        rfl
      | error e => rfl
    | recordSpend userId' walletId' amount =>
      have hother : (userId', walletId') ≠ (userId, walletId) := h
      rw [current, decide_eq_true hother]
      rfl
    | _ => rfl

theorem Limited.same (h : Limited config limits userId walletId world tr φ)
    (heq : SameBooks userId walletId world world') : Limited config limits userId walletId world' tr φ where
  balanced := h.balanced.same heq
  room := by
    rw [heq.spent, heq.now]
    exact h.room
  unread := h.unread

theorem Limited.unrelated (h : Limited config limits userId walletId world tr φ) (ho : Unrelated userId walletId o)
    (r : queueSignature.Result o) : Limited config limits userId walletId world (⟨i, o, r⟩ :: tr)
      (update φ i ((φ i).next userId walletId o r)) := by
  rw [next_unrelated ho, update_eq_self]
  refine ⟨h.balanced, ?_, ?_⟩
  · intro j spends hread hcur
    rw [current_unrelated ho] at hcur
    exact h.room j spends hread hcur
  · intro j hunread
    rw [current_unrelated ho]
    exact h.unread j hunread

theorem Limited.read (h : Limited config limits userId walletId world tr φ)
    (r : queueSignature.Result (.inr (.spends userId walletId)))
    (hr : ∀ spends, r = .ok spends → spends = readSpends world.counters world.now userId walletId) :
    Limited config limits userId walletId world (⟨i, .inr (.spends userId walletId), r⟩ :: tr)
      (update φ i ((φ i).next userId walletId (.inr (.spends userId walletId)) r)) := by
  cases r with
  | error e =>
    have hnext : (φ i).next userId walletId (.inr (.spends userId walletId)) (.error e) = φ i := rfl
    rw [hnext, update_eq_self]
    exact ⟨h.balanced, h.room, h.unread⟩
  | ok spends =>
    have hnext : (φ i).next userId walletId (.inr (.spends userId walletId)) (.ok spends) = .read spends := if_pos rfl
    rw [hnext]
    refine ⟨h.balanced, ?_, ?_⟩
    · intro j spends' hread hcur
      by_cases hj : j = i
      · subst hj
        rw [update_self] at hread
        cases hread
        rw [hr spends rfl, h.balanced.tallies.read _ (Int.le_refl _)]
        exact Spends.AtMost.refl _
      · rw [update_of_ne hj] at hread
        rw [current, decide_eq_false fun hand => hj hand.1.symm] at hcur
        exact h.room j spends' hread hcur
    · intro j hunread
      by_cases hj : j = i
      · subst hj
        simp [update_self] at hunread
      · rw [update_of_ne hj] at hunread
        rw [current, decide_eq_false fun hand => hj hand.1.symm]
        exact h.unread j hunread

theorem Limited.record {amount : Int} (r : queueSignature.Result (.inr (.recordSpend userId walletId amount)))
    (h : Limited config limits userId walletId world tr φ) (hcur : current userId walletId i tr = true)
    (hpos : 0 < amount) (hcov : (φ i).Covers config amount) :
    Limited config limits userId walletId { world.confirm userId walletId amount with
        counters := recordSpend world.counters world.now userId walletId amount }
      (⟨i, .inr (.recordSpend userId walletId amount), r⟩ :: tr)
      (update φ i ((φ i).next userId walletId (.inr (.recordSpend userId walletId amount)) r)) := by
  have hnone : ∀ j, current userId walletId j (⟨i, .inr (.recordSpend userId walletId amount), r⟩ :: tr) = false := by
    intro j
    rw [current, decide_eq_false (by simp)]
    rfl
  refine ⟨?_, ?_, fun j _ => hnone j⟩
  · cases hphase : φ i with
    | unread =>
      simp [h.unread i hphase] at hcur
    | spent => exact absurd hphase hcov.unspent
    | read spends => exact h.balanced.record hpos (hcov.fits spends hphase) (h.room i spends hphase hcur)
  · intro j spends _ hj
    simp [hnone] at hj

/-- What the calls and their steps have to meet. -/
def spendsInTurn (cfg : Settings) (config : SpendLimit) (limits : List SpendLimit) (userId walletId : String)
    (p : QueuePool) (a : Action (transactions cfg)) : Prop :=
  onCall (limitedBy config limits userId walletId) a = true ∧ onStep (countedAfresh userId walletId) p a = true

theorem found_performQueue (hlimits : world.limits = limits) (o : queueSignature.Op) (ch : QueueChoice) :
    Found limits o (performQueue o ch world).1 := by
  cases o with
  | inl o => trivial
  | inr o =>
    cases o with
    | findSpendLimit filter =>
      cases hres : (performQueue (.inr (.findSpendLimit filter)) ch world).1 with
      | error e => trivial
      | ok found =>
        show found = limits.find? filter.selects
        rw [(performQueue_ok hres).1, ← hlimits]
        rfl
    | _ => trivial

theorem Limited.step {ch : QueueChoice} {p : QueuePool} (h : Limited config limits userId walletId world p.trace φ)
    (ha : (φ i).Allows config userId walletId o) (hafresh : countedAfresh userId walletId p i o ch = true) :
    Limited config limits userId walletId (performQueue o ch world).2
      (⟨i, o, (performQueue o ch world).1⟩ :: p.trace)
      (update φ i ((φ i).next userId walletId o (performQueue o ch world).1)) := by
  by_cases hspend : ∃ amount, o = .inr (.recordSpend userId walletId amount)
  · obtain ⟨amount, rfl⟩ := hspend
    obtain ⟨hpos, hcov⟩ := ha rfl
    simp only [countedAfresh, ne_eq, not_true_eq_false, decide_false, Bool.false_or, Bool.and_eq_true] at hafresh
    rw [performQueue_recordSpend amount hafresh.2]
    exact h.record _ hafresh.1 hpos hcov
  · have helsewhere : Elsewhere userId walletId o := by
      cases o with
      | inl o => trivial
      | inr o =>
        cases o with
        | recordSpend userId' walletId' amount =>
          intro heq
          cases heq
          exact hspend ⟨amount, rfl⟩
        | unrecorded userId' walletId' amount =>
          have hother : (userId', walletId') ≠ (userId, walletId) := of_decide_eq_true hafresh
          exact hother
        | _ => trivial
    have heq : SameBooks userId walletId world (performQueue o ch world).2 := sameBooks_performQueue helsewhere
    by_cases hread : o = .inr (.spends userId walletId)
    · subst hread
      refine (h.read _ ?_).same heq
      intro spends hok
      exact (performQueue_ok hok).1
    · refine (h.unrelated ?_ _).same heq
      cases o with
      | inl o => trivial
      | inr o =>
        cases o with
        | spends userId' walletId' =>
          intro heq
          cases heq
          exact hread rfl
        | recordSpend => exact helsewhere
        | _ => trivial

theorem limited_inductive (cfg : Settings) : Inductive (transactions cfg)
    (spending config limits userId walletId) .unread (spendsInTurn cfg config limits userId walletId)
    (Limited config limits userId walletId) where
  body := by
    rintro p c ⟨hlimited, -⟩
    exact follows_spending_body c hlimited
  arrive := by
    rintro p φ c w - ht ⟨⟩
    exact ht.holds
  drift := fun p φ e _ ht => ht.holds.later (later_drift e p.world)
  answers := by
    intro p φ i o ch _ _ ht _
    exact ⟨_, fun hlocal => performQueue_local hlocal ch p.world,
      found_performQueue ht.holds.balanced.limits o ch, rfl⟩
  step := by
    rintro p φ i o ch _ ⟨-, hafresh⟩ hp ht ha ⟨-, -, rfl⟩
    exact ht.holds.step ha (onStep_pending hafresh hp)

end

/-- Calls that confirm spends by counters that are up to date, and record them, keep what the user spends from the
wallet within the limits: on every day, in every week and over all. -/
theorem spent_within_limits {cfg : Settings} {config : SpendLimit} {userId walletId : String} (world : QueueState)
    {q : QueuePool} (hcounters : world.counters = ∅) (hconf : world.confirmed = [])
    (h : Run (transactions cfg) (spendsInTurn cfg config world.limits userId walletId) (Pool.start world) q) :
    Within config (q.world.spentOf userId walletId) := by
  have hnone : world.spentOf userId walletId = [] := by
    rw [QueueState.spentOf, hconf]
    rfl
  have hbalanced : Balanced config world.limits userId walletId world := by
    refine ⟨rfl, ?_, ?_, ?_⟩
    · rw [hcounters, hnone]
      exact tallies_empty
    · rw [hnone]
      exact fun _ he => absurd he List.not_mem_nil
    · rw [hnone]
      exact within_nil config
  have hstart : Limited config world.limits userId walletId world [] fun _ => .unread :=
    ⟨hbalanced, fun _ _ hread => Spender.noConfusion hread, fun _ _ => rfl⟩
  obtain ⟨φ, ht⟩ := (limited_inductive cfg).run h ⟨_, .start hstart⟩
  exact ht.holds.balanced.within

def tenEach : SpendLimit := ⟨"u", some "w", none, none, some 10, some 10, some 10⟩

def spend (amount : Int) : TransactionRequest := ⟨"GA", some "u", some "w", none, some amount⟩

def proceed (i n : Nat) : List (Action (transactions anySize)) := List.replicate n (.step i { found := .success 1 })

/-- One request after the other: the second finds what the first has spent. -/
theorem spent_within_limits_in_turn : ∃ q, Run (transactions anySize) (spendsInTurn anySize tenEach [tenEach] "u" "w")
        (Pool.start (.empty (fun _ => 100) [tenEach])) q ∧
      q.quiet = true ∧ q.world.spentOf "u" "w" = [(0, 4), (0, 6)] ∧ Within tenEach (q.world.spentOf "u" "w") := by
  obtain ⟨q, hrun, htest⟩ := Run.exists_of_any (Pool.start (QueueState.empty (fun _ => 100) [tenEach]))
    (fun p a => onCall (limitedBy tenEach [tenEach] "u" "w") a && onStep (countedAfresh "u" "w") p a)
    (.call (.submit (spend 6)) :: proceed 0 19 ++ .call (.submit (spend 4)) :: proceed 1 19 ++
      .call (.submit (spend 1)) :: proceed 2 3)
    (fun q : QueuePool => decide (q.quiet = true ∧ q.world.spentOf "u" "w" = [(0, 4), (0, 6)])) (by decide)
  have hrun' : Run (transactions anySize) (spendsInTurn anySize tenEach [tenEach] "u" "w")
      (Pool.start (.empty (fun _ => 100) [tenEach])) q := hrun.mono fun p a hand => (Bool.and_eq_true ..).mp hand
  obtain ⟨hquiet, hspent⟩ := of_decide_eq_true htest
  exact ⟨q, hrun', hquiet, hspent, spent_within_limits (.empty (fun _ => 100) [tenEach]) rfl rfl hrun'⟩

/-- **A limit is exceeded.** Both requests are checked before either is confirmed. -/
theorem overspent : ∃ q, Run (transactions anySize) (fun _ _ => True) (Pool.start (.empty (fun _ => 100) [tenEach])) q ∧
      q.quiet = true ∧ q.world.spentOf "u" "w" = [(0, 6), (0, 6)] ∧ ¬ Within tenEach (q.world.spentOf "u" "w") := by
  obtain ⟨q, hrun, htest⟩ := Run.exists_of_any (Pool.start (QueueState.empty (fun _ => 100) [tenEach])) (fun _ _ => true)
    (.call (.submit (spend 6)) :: .call (.submit (spend 6)) :: proceed 0 2 ++ proceed 1 2 ++ proceed 0 17 ++ proceed 1 17)
    (fun q : QueuePool => decide (q.quiet = true ∧ q.world.spentOf "u" "w" = [(0, 6), (0, 6)])) (by decide)
  obtain ⟨hquiet, hspent⟩ := of_decide_eq_true htest
  refine ⟨q, hrun.mono fun _ _ _ => trivial, hquiet, hspent, ?_⟩
  intro hwithin
  have htotal := hwithin.daily 10 rfl 0
  rw [hspent] at htotal
  exact absurd htotal (by decide)

end Delego.Wallet
