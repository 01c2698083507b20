import Delego.Payments.Conservation

/-! A mediated decision, executed again and again.

`executeDecision` refunds the buyer's share and then releases the seller's. When the second transfer fails the dispute
stays decided, and the next execution starts with the refund again: nothing says that it was made. -/
namespace Delego.Payments
open Delego.Process Delego.Data Function

def decisionTerms (escrowId : String) (chainId : Nat) (decision : MediationDecision) (b s : Int) : Terms where
  escrowId := escrowId
  chainId := chainId
  may := fun refunded request =>
    (request.method = .partialRefund ∧ request.amount = b) ∨
      (request.method = .partialRelease ∧ request.amount = s ∧ (b = 0 ∨ refunded = true))
  dispute := fun id disputed resolution => id = decision.disputeId →
    disputed = escrowId ∧ resolution = some decision.resolution

variable {cfg : Settings} {escrowId : String} {chainId : Nat} {decision : MediationDecision}
  {b s : Int} {φ : Phase} {dispute : Dispute} {contractId : String}

theorem decision_covers (hnumber : cfg.conv.number escrowId = some chainId) (hesc : dispute.escrowId = escrowId) :
    (decisionTerms escrowId chainId decision b s).Covers cfg.conv dispute.escrowId where
  escrow := hesc
  number := hesc ▸ hnumber

theorem follows_refundShare (hfree : φ.owes = false)
    (hnumber : cfg.conv.number escrowId = some chainId) (hesc : dispute.escrowId = escrowId)
    (hbuyer : cfg.conv.bigInt decision.buyerAmount = some b) :
    Follows (protocol (decisionTerms escrowId chainId decision b s)) φ
      (refundShare cfg.conv dispute decision.resolution contractId b)
      (fun outcome φ' => φ'.owes = false ∧ ∀ tx, outcome = .ok tx → 0 < b → φ'.refunded = true) := by
  unfold refundShare
  split
  · apply follows_bind
    refine follows_mono (follows_partialRefundEscrow hfree (decision_covers hnumber hesc) ?_) ?_
    · intro request hmethod hamount
      cases hamount.symm.trans hbuyer
      exact .inl ⟨hmethod, rfl⟩
    · intro outcome φ' hdone
      cases outcome with
      | error e => exact ⟨hdone.1, fun _ h => by cases h⟩
      | ok refund =>
        simp only [Then]
        split
        · exact ⟨hdone.1, fun _ h => by cases h⟩
        · rename_i hpaid
          refine ⟨hdone.1, fun _ _ _ => hdone.2 _ rfl ?_ rfl⟩
          exact not_not.mp hpaid
  · rename_i hnone
    exact ⟨hfree, fun _ _ hpos => absurd hpos hnone⟩

theorem follows_releaseShare (hfree : φ.owes = false)
    (hnumber : cfg.conv.number escrowId = some chainId) (hesc : dispute.escrowId = escrowId)
    (hseller : cfg.conv.bigInt decision.sellerAmount = some s) (hfirst : b = 0 ∨ φ.refunded = true) :
    Follows (protocol (decisionTerms escrowId chainId decision b s)) φ
      (releaseShare cfg.conv dispute decision.resolution contractId s) Free := by
  unfold releaseShare
  split
  · apply follows_bind
    refine follows_mono (follows_partialReleaseEscrow hfree (decision_covers hnumber hesc) ?_) ?_
    · intro request hmethod hamount
      cases hamount.symm.trans hseller
      exact .inr ⟨hmethod, rfl, hfirst⟩
    · intro outcome φ' hdone
      cases outcome with
      | error e => exact hdone.1
      | ok release =>
        simp only [Then]
        split
        · exact hdone.1
        · exact hdone.1
  · exact hfree

theorem follows_transferShares (hfree : φ.owes = false) (hpos : 0 ≤ b)
    (hnumber : cfg.conv.number escrowId = some chainId) (hesc : dispute.escrowId = escrowId)
    (hbuyer : cfg.conv.bigInt decision.buyerAmount = some b)
    (hseller : cfg.conv.bigInt decision.sellerAmount = some s) :
    Follows (protocol (decisionTerms escrowId chainId decision b s)) φ
      (transferShares cfg.conv dispute decision.resolution contractId b s) Free := by
  apply follows_bind
  apply follows_attempt
  apply follows_mono (follows_refundShare hfree hnumber hesc hbuyer)
  intro refunded φ₁ hrefunded
  cases refunded with
  | error e => exact hrefunded.1
  | ok buyerTx =>
    apply follows_bind
    apply follows_attempt
    have hfirst : b = 0 ∨ φ₁.refunded = true := by
      rcases eq_or_lt_of_le hpos with hzero | hlt
      · exact .inl hzero.symm
      · exact .inr (hrefunded.2 buyerTx rfl hlt)
    apply follows_mono (follows_releaseShare hrefunded.1 hnumber hesc hseller hfirst)
    intro released φ₂ hrel
    cases released with
    | error e => exact hrel
    | ok sellerTx => exact hrel

variable {t : Terms}

theorem follows_aside {o : Op} (ha : Allowed t φ o) (hfree : φ.owes = false) (hnext : ∀ result, φ.next o result = φ) :
    Follows (protocol t) φ (op o) Free := by
  apply follows_op ha
  intro result _
  rw [hnext]
  exact hfree

theorem follows_recordFailure {orderId : String} {transfers : Transfers} {err : PaymentError} (hfree : φ.owes = false) :
    Follows (protocol t) φ (recordFailure dispute orderId transfers err) Free := by
  refine follows_andThen (follows_aside trivial hfree fun _ => rfl) ?_
  intro _ φ₁ h₁
  refine follows_andThen (follows_aside trivial h₁ fun _ => rfl) ?_
  intro _ φ₂ h₂
  refine follows_andThen (follows_aside trivial h₂ fun _ => rfl) ?_
  exact fun _ _ h₃ => h₃

theorem follows_recordResolved {resolution : DisputeResolution} {balance : RemainingBalance} {transfers : Transfers}
    (hfree : φ.owes = false) :
    Follows (protocol t) φ (recordResolved dispute resolution balance transfers) Free := by
  refine follows_andThen (follows_aside trivial hfree fun _ => rfl) ?_
  intro resolved φ₁ h₁
  refine follows_andThen (follows_aside trivial h₁ fun _ => rfl) ?_
  intro _ φ₂ h₂
  refine follows_andThen (follows_aside trivial h₂ fun _ => rfl) ?_
  intro _ φ₃ h₃
  refine follows_andThen (follows_aside trivial h₃ fun _ => rfl) ?_
  exact fun _ _ h₄ => h₄

theorem follows_getEscrowContractId (hfree : φ.owes = false) :
    Follows (protocol t) φ (getEscrowContractId cfg) Free := by
  unfold getEscrowContractId
  split
  · exact hfree
  · exact hfree

theorem follows_parseBigInt {text : String} {value : Int} {Q : Except PaymentError Int → Phase → Prop}
    (h : cfg.conv.bigInt text = some value) (hok : Q (.ok value) φ) :
    Follows (protocol t) φ (parseBigInt cfg.conv text) Q := by
  simp only [parseBigInt, h]
  exact hok

theorem follows_executeDecision (hpos : 0 ≤ b) (hnumber : cfg.conv.number escrowId = some chainId)
    (hbuyer : cfg.conv.bigInt decision.buyerAmount = some b)
    (hseller : cfg.conv.bigInt decision.sellerAmount = some s) :
    Follows (protocol (decisionTerms escrowId chainId decision b s)) {}
      (executeDecision cfg decision.disputeId) Free := by
  refine follows_bind (follows_op trivial (forall_except (fun _ _ => rfl) fun found hans => ?_))
  cases found with
  | none => exact rfl
  | some dispute =>
    obtain ⟨hid, hterms⟩ := hans
    obtain ⟨hesc, hresolution⟩ := hterms hid
    simp only [Then]
    split
    · exact rfl
    split
    · exact rfl
    rename_i resolution hfilter
    cases (Option.eq_some_of_filter_eq_some hfilter).symm.trans hresolution
    refine follows_andThen (follows_getRemainingBalance rfl hesc) ?_
    intro balance φ₁ h₁
    refine follows_andThen (follows_getEscrowContractId h₁) ?_
    intro contractId φ₂ h₂
    apply follows_bind
    apply follows_parseBigInt hbuyer
    apply follows_bind
    apply follows_parseBigInt hseller
    refine follows_andThen (follows_transferShares h₂ hpos hnumber hesc hbuyer hseller) ?_
    intro transfers φ₃ h₃
    split
    · exact follows_recordFailure h₃
    · exact follows_recordResolved h₃

/-! ### The shares -/

/-- The call has paid the buyer, entered or not. -/
def Phase.refunds (φ : Phase) : Bool :=
  φ.refunded || match φ.hand with
    | .paid _ .buyer _ => true
    | _ => false

theorem settle_refunds (φ : Phase) : φ.settle.refunds = φ.refunds := by
  cases hhand : φ.hand with
  | paid record party amount => cases party <;> simp [Phase.refunds, Phase.settle, hhand]
  | empty => simp [Phase.refunds, Phase.settle, hhand]
  | read record => simp [Phase.refunds, Phase.settle, hhand]

/-- The buyer was paid nothing or all of the share, the seller at most the share, since
the chain stood at `start`. -/
structure Shares (b s : Int) (start : ChainEscrow) (l : Ledger) (φ : Nat → Phase) : Prop where
  buyer : l.chain.toBuyer = start.toBuyer ∨ l.chain.toBuyer = start.toBuyer + b
  seller : start.toSeller ≤ l.chain.toSeller ∧ l.chain.toSeller ≤ start.toSeller + s
  refunded : ∀ i, (φ i).refunds = true → l.chain.toBuyer = start.toBuyer + b

variable {start : ChainEscrow} {l : Ledger}
  {i : Nat}

variable {φ : Nat → Phase}

theorem Shares.keep {ψ : Phase} (h : Shares b s start l φ)
    (hψ : ψ.refunds = true → (φ i).refunds = true) (account : Account) :
    Shares b s start {l with account := account} (update φ i ψ) := by
  refine ⟨h.buyer, h.seller, ?_⟩
  apply (forall_update_iff φ fun _ ψ' => ψ'.refunds = true → l.chain.toBuyer = start.toBuyer + b).mpr
  exact ⟨fun hrefunds => h.refunded i (hψ hrefunds), fun j _ => h.refunded j⟩

theorem Shares.refund (h : Shares b s start l φ) (hpos : 0 < b) (hsplit : b = 0 ∨ s < b)
    (hfits : b ≤ start.paid + (b + s) - l.chain.paid) (i : Nat) (ψ : Phase) :
    Shares b s start {l with chain := l.chain.pay .buyer b} (update φ i ψ) := by
  obtain ⟨hfrom, hto⟩ := h.seller
  have hunpaid : l.chain.toBuyer = start.toBuyer := by
    rcases h.buyer with heq | hpaid
    · exact heq
    · simp only [ChainEscrow.paid] at hfits
      omega
  refine ⟨.inr ?_, h.seller, fun _ _ => ?_⟩
  · simp only [ChainEscrow.pay]
    omega
  · simp only [ChainEscrow.pay]
    omega

theorem Shares.release (h : Shares b s start l φ) (hfirst : b = 0 ∨ (φ i).refunded = true)
    (hfits : s ≤ start.paid + (b + s) - l.chain.paid) (ψ : Phase) :
    Shares b s start {l with chain := l.chain.pay .seller s} (update φ i ψ) := by
  obtain ⟨hfrom, hto⟩ := h.seller
  have hpaid : l.chain.toBuyer = start.toBuyer + b := by
    rcases hfirst with hzero | hrefunded
    · have hbuyer := h.buyer
      omega
    · exact h.refunded i (by simp [Phase.refunds, hrefunded])
  have hnone : l.chain.toSeller = start.toSeller := by
    simp only [ChainEscrow.paid] at hfits
    omega
  refine ⟨h.buyer, ?_, fun _ _ => hpaid⟩
  simp only [ChainEscrow.pay]
  omega

theorem Shares.turn {o : Op} {l' : Ledger} {φ' : Phase} (h : Shares b s start l φ)
    (hturn : Turn (decisionTerms escrowId chainId decision b s) l (φ i) o l' φ') (hsplit : b = 0 ∨ s < b)
    (hleft : ∀ record, (φ i).hand = .read record → computeRemaining record = start.paid + (b + s) - l.chain.paid) :
    Shares b s start l' (update φ i φ') := by
  cases hturn with
  | idle =>
    rw [update_eq_self]
    exact h
  | read free same =>
    apply h.keep _ l.account
    intro hrefunds
    simp only [Phase.refunds, Bool.or_false] at hrefunds
    simp [Phase.refunds, hrefunds]
  | enter hand =>
    apply h.keep
    rw [settle_refunds]
    exact id
  | @pay request record party method may hand fits =>
    obtain ⟨hpos, hfits⟩ := fits (by rw [method]; simp)
    rw [hleft record hand] at hfits
    rcases may with ⟨hmethod, hamount⟩ | ⟨hmethod, hamount, hfirst⟩
    · rw [hmethod] at method
      cases method
      rw [hamount] at hpos hfits ⊢
      exact h.refund hpos hsplit hfits i _
    · rw [hmethod] at method
      cases method
      rw [hamount] at hfits ⊢
      exact h.release hfirst hfits _

/-- A transfer is answered, and its record is made. -/
def recorded (o : Op) (ch : Choice) : Bool :=
  match o, ch with
  | .incrementPaymentRecordAmounts _ _, .fault _ | .incrementPaymentRecordAmounts _ _, .unanswered _ => false
  | o, ch => answered o ch

def executions (disputeId : String) (p : PaymentPool) : Action (system cfg) → Bool
  | .call (Call.executeDecision id) => p.quiet && decide (id = disputeId)
  | .call _ => false
  | .step i ch => (p.pending i).all fun o => recorded o ch
  | .drift _ => true

theorem executions_orderly (hpos : 0 ≤ b) (hnumber : cfg.conv.number escrowId = some chainId)
    (hbuyer : cfg.conv.bigInt decision.buyerAmount = some b)
    (hseller : cfg.conv.bigInt decision.sellerAmount = some s) {p : PaymentPool}
    {a : Action (system cfg)} (h : executions decision.disputeId p a = true) :
    orderly cfg (decisionTerms escrowId chainId decision b s) p a := by
  cases a with
  | call call => cases call with
    | executeDecision id =>
      simp only [executions, Bool.and_eq_true, decide_eq_true_eq] at h
      rw [h.2]
      refine follows_andThen (follows_executeDecision hpos hnumber hbuyer hseller) ?_
      exact fun _ _ hfree => hfree
    | _ => cases h
  | step i ch =>
    intro o φ hp hallow
    simp only [executions, hp, Option.all_some] at h
    cases o with
    | submitContractInvocation request =>
      refine nothingLeft_partial ?_ h
      rcases hallow.2.1 with ⟨hmethod, _⟩ | ⟨hmethod, _⟩
      · simp [hmethod, ContractMethod.party]
      · simp [hmethod, ContractMethod.party]
    | incrementPaymentRecordAmounts id delta =>
      cases ch with
      | fault message => cases h
      | unanswered message => cases h
      | _ => rfl
    | _ => rfl
  | drift e => exact e.elim

theorem shares_inductive (cfg : Settings) (amount : Int) (hsplit : b = 0 ∨ s < b)
    (htotal : start.paid + (b + s) = amount) :
    Inductive (system cfg) (protocol (decisionTerms escrowId chainId decision b s)) {}
      (inTurn cfg (decisionTerms escrowId chainId decision b s))
      (fun w tr φ => UpToDate (decisionTerms escrowId chainId decision b s) amount w tr φ ∧
        ∀ l, w.ledger (decisionTerms escrowId chainId decision b s) = some l → Shares b s start l φ) := by
  apply ledger_inductive (upToDate_inductive cfg _ amount) (fun _ _ hg => hg) (fun _ _ _ h => h.1) (fun _ _ hg => hg.1)
  intro p φ i o ch l l' φ' result hg hp ht hl hbooks hallow hshares hturn
  apply hshares.turn hturn hsplit
  intro record hhand
  rw [remaining_on_chain ht hg.2 hp hl hhand, htotal]

/-- **A decision that gives the buyer nothing, or more than the seller, is paid once**: in any
sequence of executions neither party gets more than its share. -/
theorem decision_paid_once {w : World} {record : PaymentRecord} (hnumber : cfg.conv.number escrowId = some chainId)
    (hagr : Agrees w escrowId chainId record)
    (hdecided : ∀ dispute ∈ w.disputes, dispute.id = decision.disputeId →
      dispute.escrowId = escrowId ∧ dispute.resolution = some decision.resolution)
    (hvalid : validateResolutionAmounts cfg.conv decision (computeRemaining record) = .ok ())
    (hbuyer : cfg.conv.bigInt decision.buyerAmount = some b)
    (hseller : cfg.conv.bigInt decision.sellerAmount = some s) (hsplit : b = 0 ∨ s < b)
    {q : PaymentPool}
    (hrun : Run (system cfg) (fun p a => executions decision.disputeId p a = true) (Pool.start w) q) :
    (q.world.chain chainId).toBuyer - (w.chain chainId).toBuyer ≤ b ∧
      (q.world.chain chainId).toSeller - (w.chain chainId).toSeller ≤ s := by
  obtain ⟨b', s', hb', hs', hbpos, hspos, hsum⟩ := validateResolutionAmounts_ok hvalid
  cases hb'.symm.trans hbuyer
  cases hs'.symm.trans hseller
  have hstart := hagr.start (t := decisionTerms escrowId chainId decision b s) hdecided rfl rfl
  have hledg := hagr.ledger (t := decisionTerms escrowId chainId decision b s) rfl rfl
  have htotal : (w.chain chainId).paid + (b + s) = record.amountStroops := by
    have htoBuyer := hagr.toBuyer
    have htoSeller := hagr.toSeller
    simp only [ChainEscrow.paid, computeRemaining] at *
    omega
  have hturns : Run (system cfg) (inTurn cfg (decisionTerms escrowId chainId decision b s))
      (Pool.start w) q := by
    apply inTurn_of_quiet hrun
    · intro p call hg
      cases call with
      | executeDecision id => exact (Bool.and_eq_true_iff.mp hg).1
      | _ => cases hg
    · intro p a hg
      exact executions_orderly hbpos hnumber hbuyer hseller hg
  have hshares : ∀ l, w.ledger (decisionTerms escrowId chainId decision b s) = some l →
      Shares b s (w.chain chainId) l (fun _ => {}) := by
    intro l hl
    cases hledg.symm.trans hl
    refine ⟨.inl rfl, ⟨le_refl _, ?_⟩, ?_⟩
    · show (w.chain chainId).toSeller ≤ (w.chain chainId).toSeller + s
      omega
    · intro i hrefunds
      cases hrefunds
  obtain ⟨φ, ht⟩ := (shares_inductive cfg _ hsplit htotal).run hturns ⟨_, Tracked.start ⟨hstart.1, hshares⟩⟩
  obtain ⟨⟨⟨_, l, hl, _⟩, _⟩, hfinal⟩ := ht.holds
  obtain ⟨hpaid, ⟨_, hto⟩, _⟩ := hfinal l hl
  have hchain : q.world.chain chainId = l.chain := ledger_chain hl
  rw [hchain]
  omega

def sampleDecision (buyerAmount sellerAmount : String) : MediationDecision where
  disputeId := "dispute-1"
  mediator := "GMEDIATOR"
  decision := .split
  buyerAmount := buyerAmount
  sellerAmount := sellerAmount

def sampleDisputed (buyerAmount sellerAmount : String) : World :=
  {sampleWorld with disputes := [
    { id := "dispute-1", escrowId := "7", mediator := some "GMEDIATOR", status := .decided
      resolution := some (sampleDecision buyerAmount sellerAmount).resolution }]}

/-- Runner `i` starts to execute the decision and its refund is applied and recorded. -/
def refunds (i : Nat) : List (Action (system sampleSettings)) :=
  .step i Choice.normal :: .step i Choice.normal :: pays i ++ records i

def releaseRejected (i : Nat) : List (Action (system sampleSettings)) :=
  .step i Choice.normal :: .step i Choice.normal :: .step i (Choice.rejected "tx" 2) ::
    List.replicate 5 (.step i Choice.normal)

theorem sampleDisputed_agrees (buyerAmount sellerAmount : String) :
    Agrees (sampleDisputed buyerAmount sellerAmount) "7" 7 sampleRecord where
  found := sample_agrees.found
  amount := sample_agrees.amount
  toBuyer := sample_agrees.toBuyer
  toSeller := sample_agrees.toSeller
  within := sample_agrees.within

/-- Of 100 the buyer gets 60. The release of 40 fails at first; the second execution finds that
60 do not remain. -/
theorem decision_paid_once_sample : ∃ q, Run (system sampleSettings) (fun p a => executions "dispute-1" p a = true)
        (Pool.start (sampleDisputed "60" "40")) q ∧
      (q.world.chain 7).toBuyer = 60 ∧
      (q.world.chain 7).toBuyer - 0 ≤ 60 ∧ (q.world.chain 7).toSeller - 0 ≤ 40 := by
  obtain ⟨q, hrun, htest⟩ := Run.exists_of_any (Pool.start (sampleDisputed "60" "40")) (executions "dispute-1")
    (.call (Call.executeDecision "dispute-1") :: refunds 0 ++ releaseRejected 0 ++
      .call (Call.executeDecision "dispute-1") :: List.replicate 3 (.step 1 Choice.normal) :
      List (Action (system sampleSettings)))
    (fun q => decide ((q.world.chain 7).toBuyer = 60)) (by decide)
  have hdecided : ∀ dispute ∈ (sampleDisputed "60" "40").disputes, dispute.id = (sampleDecision "60" "40").disputeId →
      dispute.escrowId = "7" ∧ dispute.resolution = some (sampleDecision "60" "40").resolution := by
    decide
  exact ⟨q, hrun, of_decide_eq_true htest, decision_paid_once rfl (sampleDisputed_agrees "60" "40") hdecided (by decide)
    rfl rfl (by decide) hrun⟩

/-- **The buyer is refunded twice.** Of 100 the buyer gets 40. The refund is made, the release
fails, and the next execution refunds another 40. -/
theorem decision_refunded_twice : ∃ q, Run (system sampleSettings) (fun p a => executions "dispute-1" p a = true)
        (Pool.start (sampleDisputed "40" "60")) q ∧
      validateResolutionAmounts decimal (sampleDecision "40" "60") (computeRemaining sampleRecord) = .ok () ∧
      (q.world.chain 7).toBuyer - ((sampleDisputed "40" "60").chain 7).toBuyer = 80 := by
  obtain ⟨q, hrun, htest⟩ := Run.exists_of_any (Pool.start (sampleDisputed "40" "60")) (executions "dispute-1")
    (.call (Call.executeDecision "dispute-1") :: refunds 0 ++ releaseRejected 0 ++
      .call (Call.executeDecision "dispute-1") :: refunds 1 : List (Action (system sampleSettings)))
    (fun q => decide ((q.world.chain 7).toBuyer - ((sampleDisputed "40" "60").chain 7).toBuyer = 80))
    (by decide)
  exact ⟨q, hrun, by decide, of_decide_eq_true htest⟩

end Delego.Payments
