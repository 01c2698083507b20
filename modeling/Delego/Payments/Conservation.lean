import Delego.Payments.Books

/-! What is paid out of an escrow, against its amount.

A full release or refund is recorded in the status of the record only, so the balance that partial payouts are checked
against still counts what it paid. Calls that run side by side check the balance before they pay and record it after;
each payout must still fit when it is made (`partial_payouts_bounded`). -/
namespace Delego.Payments
open Delego.Process Delego.Data Option Function

variable {cfg : Settings} {t : Terms} {amount : Int} {w : World} {l : Ledger}

/-- What a call has read is what the account says, unless a later call has come. -/
def Fresh (l : Ledger) (tr : PaymentTrace) (φ : Nat → Phase) : Prop :=
  ∀ i record, (φ i).hand = .read record → record.account = l.account ∨ ∃ e ∈ tr, i < e.runner

def UpToDate (t : Terms) (amount : Int) (w : World) (tr : PaymentTrace) (φ : Nat → Phase) : Prop :=
  Balanced t amount w tr φ ∧ ∀ l, w.ledger t = some l → Fresh l tr φ

variable {tr : PaymentTrace} {φ : Nat → Phase}

theorem Fresh.cons (h : Fresh l tr φ) (e : Entry paymentSignature) : Fresh l (e :: tr) φ := by
  intro i record hhand
  rcases h i record hhand with heq | ⟨later, hmem, hlt⟩
  · exact .inl heq
  · exact .inr ⟨later, List.mem_cons_of_mem _ hmem, hlt⟩

variable {i : Nat}

theorem fresh_enter (hlater : ∀ j, i < j → φ j = {}) (e : Entry paymentSignature) (he : e.runner = i)
    (account : Account) (ψ : Phase) (hψ : ∀ record, ψ.hand ≠ .read record) :
    Fresh {l with account := account} (e :: tr) (update φ i ψ) := by
  intro j
  by_cases hj : j = i
  · rw [hj, update_self]
    intro record hhand
    exact absurd hhand (hψ record)
  · rw [update_of_ne hj]
    intro record hhand
    rcases Nat.lt_or_gt_of_ne hj with hlt | hgt
    · exact .inr ⟨e, List.mem_cons_self .., by omega⟩
    · simp [hlater j hgt] at hhand

variable {o : Op}

theorem Fresh.turn {l' : Ledger} {φ' : Phase} (h : Fresh l tr φ) (hlater : ∀ j, i < j → φ j = {})
    (hturn : Turn t l (φ i) o l' φ') (e : Entry paymentSignature) (he : e.runner = i) :
    Fresh l' (e :: tr) (update φ i φ') := by
  cases hturn with
  | idle =>
    rw [update_eq_self]
    exact h.cons e
  | read free same =>
    apply (forall_update_iff φ fun j ψ => ∀ record, ψ.hand = .read record →
      record.account = l.account ∨ ∃ e' ∈ e :: tr, j < e'.runner).mpr
    refine ⟨?_, fun j _ => h.cons e j⟩
    intro record hhand
    cases hhand
    exact .inl same
  | pay method may hand fits =>
    apply (forall_update_iff φ fun j ψ => ∀ record, ψ.hand = .read record →
      record.account = l.account ∨ ∃ e' ∈ e :: tr, j < e'.runner).mpr
    refine ⟨?_, fun j _ => h.cons e j⟩
    intro record hhand
    cases hhand
  | enter hand =>
    apply fresh_enter hlater e he
    intro record hhand
    rw [settle_hand (by simp [Phase.owes, hand])] at hhand
    cases hhand

/-- Calls in order, each after the earlier ones. -/
def inTurn (cfg : Settings) (t : Terms) (p : PaymentPool) (a : Action (system cfg)) : Prop :=
  orderly cfg t p a ∧ InTurn p

theorem upToDate_inductive (cfg : Settings) (t : Terms) (amount : Int) :
    Inductive (system cfg) (protocol t) {} (inTurn cfg t) (UpToDate t amount) := by
  apply ledger_inductive (balanced_inductive cfg t amount) (fun _ _ hg => hg.1) (fun _ _ _ h => h) (fun _ _ hg => hg.1)
  intro p φ i o ch l l' φ' result hg hp ht hl hbooks hallow hfresh hturn
  exact hfresh.turn (fun j hj => ht.later hg.2 hp hj) hturn _ rfl

theorem owed_at_rest {φ : Phase} (h : (protocol t).Ends φ ∨ φ = {}) (party : Party) : φ.owed party = 0 := by
  rcases h with hends | hinit
  · exact owed_of_not_owes hends party
  · rw [hinit]
    rfl

theorem Books.remaining_eq (h : Books amount l φ) (hahead : ∀ party, l.ahead party = 0) :
    l.account.remaining = amount - l.chain.paid := by
  have hbuyer := hahead .buyer
  have hseller := hahead .seller
  have hacct := h.account
  simp only [Ledger.ahead, Account.remaining, ChainEscrow.paid] at *
  omega

variable {p : PaymentPool} {record : PaymentRecord}

theorem remaining_on_chain (ht : Tracked (protocol t) {} (UpToDate t amount) p φ) (hturn : InTurn p)
    (hp : p.pending i = some o) (hl : p.world.ledger t = some l) (hhand : (φ i).hand = .read record) :
    computeRemaining record = amount - l.chain.paid := by
  obtain ⟨⟨_, l', hl', hbooks⟩, hfresh⟩ := ht.holds
  cases hl.symm.trans hl'
  have heq : record.account = l.account := by
    rcases hfresh l hl i record hhand with heq | ⟨e, he, hlt⟩
    · exact heq
    · have hle := hturn.latest hp e he
      omega
  rw [← remaining_account, heq]
  apply hbooks.remaining_eq
  intro party
  rw [(hbooks.ahead party).single i fun j hj => owed_at_rest (ht.others hturn hp j hj) party]
  simp [Phase.owed, hhand]

theorem remaining_when_quiet {J : World → PaymentTrace → (Nat → Phase) → Prop} (ht : Tracked (protocol t) {} J p φ)
    (hquiet : p.quiet = true) (hbooks : Books amount l φ) : l.account.remaining = amount - l.chain.paid := by
  apply hbooks.remaining_eq
  intro party
  have hzero : ∀ i, (φ i).owed party = 0 := fun i => owed_at_rest (ht.quiet hquiet i) party
  rw [(hbooks.ahead party).single 0 (fun j _ => hzero j), hzero]

/-! ### Calls of the coordinator, one after another -/

def written (o : Op) (ch : Choice) : Bool :=
  match o, ch with
  | .updatePaymentRecord _ _, .fault _ | .incrementPaymentRecordAmounts _ _, .fault _ => false
  | .updatePaymentRecord _ _, .unanswered _ | .incrementPaymentRecordAmounts _ _, .unanswered _ => false
  | _, _ => true

theorem entered_of_written {ch : Choice} (hwrit : written o ch = true)
    (hleft : nothingLeft w o ch = true) : entered w o ch = true := by
  cases o with
  | incrementPaymentRecordAmounts id delta =>
    cases ch with
    | fault message => cases hwrit
    | unanswered message => cases hwrit
    | _ => rfl
  | _ => exact hleft

/-- Calls on one escrow, each after the earlier ones have ended; the store can be written. -/
def sequentially (escrowId : String) (p : PaymentPool) : Action (system cfg) → Bool
  | .call call => p.quiet && decide (Call.escrowId call = some escrowId)
  | .step i ch => (p.pending i).all fun o => written o ch
  | .drift _ => true

def fullPayoutsEmpty (escrowId : String) (p : PaymentPool) (a : Action (system cfg)) : Prop :=
  sequentially escrowId p a = true ∧ onStep (fun p _ o ch => nothingLeft p.world o ch) p a = true

/-- The record of an escrow says what the chain holds. -/
structure Agrees (w : World) (escrowId : String) (chainId : Nat) (record : PaymentRecord) : Prop where
  found : findPaymentRecordByEscrowId escrowId w.records = some record
  amount : (w.chain chainId).amount = record.amountStroops
  toBuyer : (w.chain chainId).toBuyer = record.refundedAmountStroops
  toSeller : (w.chain chainId).toSeller = record.releasedAmountStroops
  within : 0 ≤ computeRemaining record

def anyTerms (escrowId : String) (chainId : Nat) : Terms := ⟨escrowId, chainId, fun _ _ => True, fun _ _ _ => True⟩

variable {escrowId : String} {chainId : Nat}

theorem Agrees.ledger (h : Agrees w escrowId chainId record) (hesc : t.escrowId = escrowId)
    (hchain : t.chainId = chainId) :
    w.ledger t = some ⟨record.account, w.chain chainId⟩ := by
  simp [World.ledger, hesc, hchain, h.found]

theorem Agrees.books (h : Agrees w escrowId chainId record) :
    Books record.amountStroops ⟨record.account, w.chain chainId⟩ (fun _ => {}) := by
  refine books_start rfl h.amount ?_
  intro party
  have hbuyer := h.toBuyer
  have hseller := h.toSeller
  cases party with
  | buyer =>
    simp only [Ledger.ahead, PaymentRecord.account]
    omega
  | seller =>
    simp only [Ledger.ahead, PaymentRecord.account]
    omega

theorem paid_pay (escrow : ChainEscrow) (party : Party) (paid : Int) :
    (escrow.pay party paid).paid = escrow.paid + paid := by
  cases party <;> simp only [ChainEscrow.pay, ChainEscrow.paid] <;> omega

theorem within_turn {φ φ' : Phase} {l' : Ledger} (hturn : Turn t l φ o l' φ') (h : l.chain.paid ≤ amount)
    (hfits : ∀ request record, o = .submitContractInvocation request → φ.hand = .read record →
      request.method.party ≠ none → Fits record request → request.amount ≤ amount - l.chain.paid) :
    l'.chain.paid ≤ amount := by
  cases hturn with
  | idle => exact h
  | read free same => exact h
  | enter hand => exact h
  | @pay request record party method may hand fits =>
    have hamount := hfits request record rfl hand (by rw [method]; simp) fits
    rw [paid_pay]
    omega

theorem Agrees.start (h : Agrees w escrowId chainId record) (hdisputed : w.Disputed t) (hesc : t.escrowId = escrowId)
    (hchain : t.chainId = chainId) :
    UpToDate t record.amountStroops w [] (fun _ => {}) ∧
      ∀ l, w.ledger t = some l → l.chain.paid ≤ record.amountStroops := by
  have hledg := h.ledger hesc hchain
  refine ⟨⟨⟨hdisputed, _, hledg, h.books⟩, ?_⟩, ?_⟩
  · intro l _ i record hhand
    cases hhand
  · intro l hl
    cases hledg.symm.trans hl
    have hwithin := h.within
    have hbuyer := h.toBuyer
    have hseller := h.toSeller
    simp only [computeRemaining, ChainEscrow.paid] at *
    omega

theorem within_inductive (cfg : Settings) (t : Terms) (amount : Int) :
    Inductive (system cfg) (protocol t) {} (inTurn cfg t) (fun w tr φ => UpToDate t amount w tr φ ∧
        ∀ l, w.ledger t = some l → l.chain.paid ≤ amount) := by
  apply ledger_inductive (upToDate_inductive cfg t amount) (fun _ _ hg => hg) (fun _ _ _ h => h.1) (fun _ _ hg => hg.1)
  intro p φ i o ch l l' φ' result hg hp ht hl hbooks hallow hwithin hturn
  apply within_turn hturn hwithin
  intro request record _ hhand hparty hfits
  rw [← remaining_on_chain ht hg.2 hp hl hhand]
  exact (hfits hparty).2

theorem inTurn_of_quiet {guard : PaymentPool → Action (system cfg) → Prop} {q : PaymentPool}
    (h : Run (system cfg) guard (Pool.start w) q)
    (hquiet : ∀ p call, guard p (.call call) → p.quiet = true)
    (hg : ∀ p a, guard p a → orderly cfg t p a) :
    Run (system cfg) (inTurn cfg t) (Pool.start w) q := by
  have hturns := h.strengthen (inTurn_start w) ?_
  · exact hturns.2.mono fun p a hp => ⟨hg p a hp.1, hp.2⟩
  · intro p a r hturn hguard hstep
    apply hturn.step ?_ hstep
    rintro call rfl
    exact hquiet p call hguard

/-- What `getRemainingBalance` returns when nothing else is going on. -/
def reportedBalance (w : World) (escrowId : String) : Except PaymentError RemainingBalance :=
  ((getRemainingBalance escrowId).alone (fun o => perform o .normal) w).1

theorem reportedBalance_found (h : findPaymentRecordByEscrowId escrowId w.records = some record) :
    reportedBalance w escrowId = .ok (remainingBalance escrowId record) := by
  have hread : (op (.findPaymentRecordByEscrowId escrowId)).alone (fun o => perform o .normal) w =
      (.ok (some record), w) := by
    apply (Program.alone_perform ..).trans
    simp only [perform, fallible, h]
  simp only [reportedBalance, getRemainingBalance, findRecord, Program.alone_bind, hread]
  rfl

theorem fullPayoutsEmpty_orderly (hnumber : cfg.conv.number escrowId = some chainId) {a : Action (system cfg)}
    (h : fullPayoutsEmpty escrowId p a) :
    orderly cfg (anyTerms escrowId chainId) p a := by
  cases a with
  | call call =>
    have hcall := h.1
    simp only [sequentially, Bool.and_eq_true, decide_eq_true_eq] at hcall
    exact body_follows hcall.2 hnumber fun _ _ _ => trivial
  | step i ch =>
    intro o _ hp _
    have hwrit := h.1
    simp only [sequentially, hp, all_some] at hwrit
    exact entered_of_written hwrit (onStep_pending h.2 hp)
  | drift e => exact e.elim

/-- **Full payouts of nothing, and answered partial ones, keep the escrow conserved**: between calls in
sequence the reported balance is what the chain has left. -/
theorem escrow_conserved {escrowId : String} {chainId : Nat} {record : PaymentRecord}
    (hnumber : cfg.conv.number escrowId = some chainId)
    (hagr : Agrees w escrowId chainId record) {q : PaymentPool}
    (hrun : Run (system cfg) (fullPayoutsEmpty escrowId) (Pool.start w) q) :
    (q.world.chain chainId).paid ≤ record.amountStroops ∧
      (q.quiet = true → ∃ balance, reportedBalance q.world escrowId = .ok balance ∧
        balance.remainingAmount = record.amountStroops - (q.world.chain chainId).paid) := by
  have hturns : Run (system cfg) (inTurn cfg (anyTerms escrowId chainId)) (Pool.start w) q := by
    apply inTurn_of_quiet hrun
    · intro p call hg
      exact (Bool.and_eq_true_iff.mp hg.1).1
    · exact fun p a hg => fullPayoutsEmpty_orderly hnumber hg
  have hstart : Tracked (protocol (anyTerms escrowId chainId)) {}
      (fun w tr φ => UpToDate (anyTerms escrowId chainId) record.amountStroops w tr φ ∧
        ∀ l, w.ledger (anyTerms escrowId chainId) = some l → l.chain.paid ≤ record.amountStroops)
      (Pool.start w) (fun _ => {}) :=
    Tracked.start (hagr.start (fun _ _ => trivial) rfl rfl)
  obtain ⟨φ, ht⟩ := (within_inductive cfg _ _).run hturns ⟨_, hstart⟩
  obtain ⟨⟨⟨_, l, hl, hbooks⟩, _⟩, hwithin⟩ := ht.holds
  obtain ⟨found, hfound, rfl⟩ := map_eq_some_iff.mp hl
  refine ⟨hwithin _ hl, ?_⟩
  intro hquiet
  exact ⟨_, reportedBalance_found hfound, remaining_when_quiet ht hquiet hbooks⟩

def sampleSettings : Settings := ⟨decimal, some "CESCROW"⟩

def sampleRecord : PaymentRecord where
  id := "pay-1"
  orderId := "order-1"
  escrowId := some "7"
  buyerAddress := "GBUYER"
  sellerAddress := "GSELLER"
  amountStroops := 100
  status := .funded
  releaseTxHash := none
  refundTxHash := none
  disputeTxHash := none
  releasedAmountStroops := 0
  refundedAmountStroops := 0
  failureReason := none

def sampleWorld : World where
  records := [sampleRecord]
  chain := fun _ => ⟨100, 0, 0⟩

theorem sample_agrees : Agrees sampleWorld "7" 7 sampleRecord where
  found := by decide
  amount := by decide
  toBuyer := by decide
  toSeller := by decide
  within := by decide

def sampleParams : EscrowParams := ⟨"7", "CESCROW", "GBUYER"⟩

/-- Runner `i` reads the record, clears its failure reason and has its contract call
applied. -/
def pays (i : Nat) : List (Action (system sampleSettings)) :=
  [.step i Choice.normal, .step i Choice.normal, .step i (Choice.applied "tx" 1)]

def records (i : Nat) : List (Action (system sampleSettings)) := [.step i Choice.normal, .step i Choice.normal]

/-- The buyer gets 40 and the seller 60; a release then finds nothing to pay. -/
theorem escrow_conserved_sample : ∃ q, Run (system sampleSettings) (fullPayoutsEmpty "7") (Pool.start sampleWorld) q ∧
      (q.world.chain 7).paid = 100 ∧
      ∃ balance, reportedBalance q.world "7" = .ok balance ∧ balance.remainingAmount = 100 - (q.world.chain 7).paid := by
  obtain ⟨q, hrun, htest⟩ := Run.exists_of_any (Pool.start sampleWorld)
    (fun p a => sequentially "7" p a && onStep (fun p _ o ch => nothingLeft p.world o ch) p a)
    (.call (Call.partialRefundEscrow sampleParams "40" "damaged") :: pays 0 ++ records 0 ++
      .call (Call.partialReleaseEscrow sampleParams "60" none) :: pays 1 ++ records 1 ++
      .call (Call.releaseEscrow sampleParams) :: pays 2 ++ records 2 :
      List (Action (system sampleSettings)))
    (fun q => q.quiet && decide ((q.world.chain 7).paid = 100)) (by decide)
  simp only [Bool.and_eq_true, decide_eq_true_eq] at htest
  have hrun : Run (system sampleSettings) (fullPayoutsEmpty "7") (Pool.start sampleWorld) q :=
    hrun.mono fun _ _ h => Bool.and_eq_true_iff.mp h
  exact ⟨q, hrun, htest.2, (escrow_conserved rfl sample_agrees hrun).2 htest.1⟩

def reports (w : World) (escrowId : String) (remaining : Int) : Bool :=
  match reportedBalance w escrowId with
  | .ok balance => decide (balance.remainingAmount = remaining)
  | .error _ => false

theorem reports_iff {remaining : Int} (h : reports w escrowId remaining = true) :
    ∃ balance, reportedBalance w escrowId = .ok balance ∧ balance.remainingAmount = remaining := by
  unfold reports at h
  split at h
  · rename_i balance hbal
    exact ⟨balance, hbal, of_decide_eq_true h⟩
  · cases h

/-- **A released escrow is paid out again.** The seller gets 100, which leaves the counters; then the buyer 40 more,
and 60 are reported to remain. The same 60 are reported when one refund of 40 is applied, its answer is lost, and the
retry is applied as well. -/
theorem released_escrow_refunded :
    (∃ q, Run (system sampleSettings) (fun p a => sequentially "7" p a = true) (Pool.start sampleWorld) q ∧
      q.quiet = true ∧ (q.world.chain 7).paid = 140 ∧ sampleRecord.amountStroops = 100 ∧
      ∃ balance, reportedBalance q.world "7" = .ok balance ∧ balance.remainingAmount = 60) ∧
    ∃ q, Run (system sampleSettings) (fun p a => sequentially "7" p a = true) (Pool.start sampleWorld) q ∧
      q.quiet = true ∧ (q.world.chain 7).paid = 80 ∧
      ∃ balance, reportedBalance q.world "7" = .ok balance ∧ balance.remainingAmount = 60 := by
  constructor
  · obtain ⟨q, hrun, htest⟩ := Run.exists_of_any (Pool.start sampleWorld) (sequentially "7")
      (.call (Call.releaseEscrow sampleParams) :: pays 0 ++ records 0 ++
        .call (Call.partialRefundEscrow sampleParams "40" "damaged") :: pays 1 ++ records 1 :
        List (Action (system sampleSettings)))
      (fun q => q.quiet && decide ((q.world.chain 7).paid = 140) && reports q.world "7" 60) (by decide)
    simp only [Bool.and_eq_true, decide_eq_true_eq] at htest
    exact ⟨q, hrun, htest.1.1, htest.1.2, rfl, reports_iff htest.2⟩
  · obtain ⟨q, hrun, htest⟩ := Run.exists_of_any (Pool.start sampleWorld) (sequentially "7")
      (.call (Call.partialRefundEscrow sampleParams "40" "damaged") :: .step 0 Choice.normal :: .step 0 Choice.normal :: .step 0 (Choice.unanswered "timeout") :: .step 0 Choice.normal :: .step 0 (Choice.applied "tx" 1) :: records 0 :
        List (Action (system sampleSettings)))
      (fun q => q.quiet && decide ((q.world.chain 7).paid = 80) && reports q.world "7" 60) (by decide)
    simp only [Bool.and_eq_true, decide_eq_true_eq] at htest
    exact ⟨q, hrun, htest.1.1, htest.1.2, reports_iff htest.2⟩

end Delego.Payments
