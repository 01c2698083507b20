import Delego.Payments.Ledger
import Delego.Process.Balance

/-! The books of one escrow: what its record says was paid, and what the chain paid.

`World.ledger` reads the two off the world. So the chain is ahead of the account by what the calls under way owe it
(`Books`), as long as no entry is lost and no full payout, which makes no entry, pays anything (`entered`). -/
namespace Delego.Payments
open Delego.Process Delego.Data Option Function

/-- The part of a payment record that counts. -/
structure Account where
  id : String
  (amount released refunded : Int)
  deriving DecidableEq

def PaymentRecord.account (record : PaymentRecord) : Account :=
  ⟨record.id, record.amountStroops, record.releasedAmountStroops, record.refundedAmountStroops⟩

def Account.remaining (account : Account) : Int := account.amount - account.released - account.refunded

theorem remaining_account (record : PaymentRecord) : record.account.remaining = computeRemaining record := rfl

def Account.enter (account : Account) (party : Party) (amount : Int) : Account :=
  match party with
  | .buyer => {account with refunded := account.refunded + amount}
  | .seller => {account with released := account.released + amount}

def ChainEscrow.pay (escrow : ChainEscrow) (party : Party) (amount : Int) : ChainEscrow :=
  match party with
  | .buyer => {escrow with toBuyer := escrow.toBuyer + amount}
  | .seller => {escrow with toSeller := escrow.toSeller + amount}

/-- The account of an escrow and the escrow on chain. -/
structure Ledger where
  account : Account
  chain : ChainEscrow

def World.ledger (w : World) (t : Terms) : Option Ledger :=
  (findPaymentRecordByEscrowId t.escrowId w.records).map fun record => ⟨record.account, w.chain t.chainId⟩

def Hand.record : Hand → Option PaymentRecord
  | .empty => none
  | .read record | .paid record _ _ => some record

/-- What an operation does to the ledger and to the phase of its call. -/
inductive Turn (t : Terms) (l : Ledger) (φ : Phase) : Op → Ledger → Phase → Prop where
  | idle {o : Op} : Turn t l φ o l φ
  | read {o : Op} {record : PaymentRecord} (free : φ.owes = false) (same : record.account = l.account) :
      Turn t l φ o l {φ with hand := .read record}
  | pay {request : TransactionRequest} {record : PaymentRecord} {party : Party}
      (method : request.method.party = some party) (may : t.may φ.refunded request)
      (hand : φ.hand = .read record) (fits : Fits record request) :
      Turn t l φ (.submitContractInvocation request) {l with chain := l.chain.pay party request.amount}
        {φ with hand := .paid record party request.amount}
  | enter {o : Op} {record : PaymentRecord} {party : Party} {amount : Int} (hand : φ.hand = .paid record party amount) :
      Turn t l φ o {l with account := l.account.enter party amount} φ.settle

def answered (o : Op) (ch : Choice) : Bool :=
  match o, ch with
  | .submitContractInvocation _, .unanswered _ => false
  | _, _ => true

/-- A full payout that the chain applies finds nothing left to pay, and no partial one is applied
without an answer. -/
def nothingLeft (w : World) (o : Op) (ch : Choice) : Bool :=
  match o, ch with
  | .submitContractInvocation request, .applied _ _ | .submitContractInvocation request, .unanswered _ =>
    match request.method with
    | .release | .refund => decide ((w.chain request.escrowId).unpaid = 0)
    | .dispute => true
    | .partialRefund | .partialRelease => answered (.submitContractInvocation request) ch
  | _, _ => true

variable {request : TransactionRequest}

theorem nothingLeft_partial {w : World} {ch : Choice} (h : request.method.party ≠ none)
    (hans : answered (.submitContractInvocation request) ch = true) :
    nothingLeft w (.submitContractInvocation request) ch = true := by
  cases ch with
  | applied hash ledger =>
    cases hmethod : request.method with
    | release => simp [hmethod, ContractMethod.party] at h
    | refund => simp [hmethod, ContractMethod.party] at h
    | _ => simp [nothingLeft, hmethod, answered]
  | unanswered message => cases hans
  | _ => rfl

/-- No entry is lost, full payouts pay nothing, and partial ones are answered. -/
def entered (w : World) (o : Op) (ch : Choice) : Bool :=
  match o, ch with
  | .incrementPaymentRecordAmounts _ _, .fault _ | .incrementPaymentRecordAmounts _ _, .unanswered _ => false
  | o, ch => nothingLeft w o ch

variable {t : Terms} {w : World} {l : Ledger} {φ : Phase}

theorem ledger_update {id : String} {set : PaymentRecord → PaymentRecord} (hl : w.ledger t = some l)
    (hesc : ∀ record, (set record).escrowId = record.escrowId)
    (hset : ∀ record, (set record).account = record.account) :
    (w.setRecord id set).ledger t = some l := by
  obtain ⟨record, hrec, rfl⟩ := map_eq_some_iff.mp hl
  simp only [World.ledger, World.setRecord, findPaymentRecordByEscrowId] at hrec ⊢
  rw [lookup_updateWhere hesc, hrec, map_some, map_some]
  split
  · rw [hset]
  · rfl

variable {amount : Int}

theorem ledger_increment {party : Party} {status : Option PaymentRecordStatus} (hl : w.ledger t = some l) :
    (w.setRecord l.account.id (party.delta amount status).apply).ledger t =
      some {l with account := l.account.enter party amount} := by
  obtain ⟨record, hrec, rfl⟩ := map_eq_some_iff.mp hl
  simp only [World.ledger, World.setRecord, findPaymentRecordByEscrowId] at hrec ⊢
  have hesc : ∀ record, ((party.delta amount status).apply record).escrowId = record.escrowId := fun _ => rfl
  rw [lookup_updateWhere hesc, hrec, map_some, map_some]
  rw [if_pos (show record.id = record.account.id from rfl)]
  cases party with
  | buyer => simp [PaymentRecordAmountDelta.apply, Party.delta, PaymentRecord.account, Account.enter]
  | seller => simp [PaymentRecordAmountDelta.apply, Party.delta, PaymentRecord.account, Account.enter]

theorem ledger_findable (hl : w.ledger t = some l) :
    ∃ record, lookup PaymentRecord.id w.records l.account.id = some record := by
  obtain ⟨record, hrec, rfl⟩ := map_eq_some_iff.mp hl
  cases hfind : lookup PaymentRecord.id w.records record.id with
  | some found => exact ⟨found, hfind⟩
  | none => exact absurd rfl (lookup_eq_none.mp hfind record (lookup_mem hrec))

theorem ledger_invoke (hl : w.ledger t = some l) (hchain : request.escrowId = t.chainId) :
    (w.setEscrow request.escrowId ((w.chain request.escrowId).invoke request)).ledger t =
      some {l with chain := l.chain.invoke request} := by
  obtain ⟨record, hrec, rfl⟩ := map_eq_some_iff.mp hl
  simp only [World.ledger, World.setEscrow, hrec, map_some, hchain, update_self]

theorem ledger_chain (hl : w.ledger t = some l) : w.chain t.chainId = l.chain := by
  obtain ⟨record, _, rfl⟩ := map_eq_some_iff.mp hl
  rfl

theorem invoke_party {escrow : ChainEscrow} {party : Party} (h : request.method.party = some party) :
    escrow.invoke request = escrow.pay party request.amount := by
  cases hmethod : request.method <;> rw [hmethod] at h <;> cases h <;>
    simp only [ChainEscrow.invoke, hmethod, ChainEscrow.pay]

theorem invoke_full (h : request.method.party = none)
    (hleft : request.method ≠ .dispute → (w.chain request.escrowId).unpaid = 0) :
    (w.chain request.escrowId).invoke request = w.chain request.escrowId := by
  cases hmethod : request.method with
  | release =>
    have hunpaid := hleft (by simp [hmethod])
    simp only [ChainEscrow.invoke, hmethod, hunpaid, add_zero]
  | refund =>
    have hunpaid := hleft (by simp [hmethod])
    simp only [ChainEscrow.invoke, hmethod, hunpaid, add_zero]
  | dispute => simp only [ChainEscrow.invoke, hmethod]
  | partialRefund =>
    rw [hmethod] at h
    cases h
  | partialRelease =>
    rw [hmethod] at h
    cases h

theorem unpaid_of_applied {hash : String} {ledger : Nat} (h : request.method.party = none)
    (hentered : entered w (.submitContractInvocation request) (.applied hash ledger) = true)
    (hmethod : request.method ≠ .dispute) : (w.chain request.escrowId).unpaid = 0 := by
  cases hcase : request.method <;> simp_all [entered, nothingLeft, ContractMethod.party]

theorem full_of_unanswered {message : String}
    (hentered : entered w (.submitContractInvocation request) (.unanswered message) = true) :
    request.method.party = none ∧ (request.method ≠ .dispute → (w.chain request.escrowId).unpaid = 0) := by
  cases hcase : request.method <;> simp_all [entered, nothingLeft, answered, ContractMethod.party]

variable {ch : Choice}

theorem turn_submit (hl : w.ledger t = some l) (hallow : Allowed t φ (.submitContractInvocation request))
    (hentered : entered w (.submitContractInvocation request) ch = true) :
    ∃ l', (invokeChain request ch w).2.ledger t = some l' ∧
      Turn t l φ (.submitContractInvocation request) l'
        (φ.next (.submitContractInvocation request) (invokeChain request ch w).1) := by
  obtain ⟨hchain, hmay, record, hhand, hfits⟩ := hallow
  cases ch with
  | normal => exact ⟨l, hl, .idle⟩
  | fault message => exact ⟨l, hl, .idle⟩
  | rejected hash ledger => exact ⟨l, hl, .idle⟩
  | unanswered message =>
    obtain ⟨hparty, hleft⟩ := full_of_unanswered hentered
    have hsame := invoke_full hparty hleft
    rw [hchain, ledger_chain hl] at hsame
    refine ⟨_, ledger_invoke hl hchain, ?_⟩
    rw [hsame]
    exact .idle
  | applied hash ledger =>
    refine ⟨_, ledger_invoke hl hchain, ?_⟩
    cases hparty : request.method.party with
    | some party =>
      have hnext : φ.next (.submitContractInvocation request) (invokeChain request (.applied hash ledger) w).1 =
          {φ with hand := .paid record party request.amount} := by
        simp [Phase.next, invokeChain, Phase.pay, hparty, hhand]
      rw [hnext, invoke_party hparty]
      exact .pay hparty hmay hhand hfits
    | none =>
      have hnext : φ.next (.submitContractInvocation request)
          (invokeChain request (.applied hash ledger) w).1 = φ := by
        simp [Phase.next, invokeChain, Phase.pay, hparty]
      have hsame := invoke_full hparty (unpaid_of_applied hparty hentered)
      rw [hchain, ledger_chain hl] at hsame
      rw [hnext, hsame]
      exact .idle

variable {o : Op}

/-- **An operation in order turns the ledger.** -/
theorem turn (hl : w.ledger t = some l) (hallow : Allowed t φ o)
    (hmine : ∀ record, φ.hand.record = some record → record.id = l.account.id) (hentered : entered w o ch = true) :
    ∃ l', (perform o ch w).2.ledger t = some l' ∧ Turn t l φ o l' (φ.next o (perform o ch w).1) := by
  cases o with
  | submitContractInvocation request => exact turn_submit hl hallow hentered
  | findPaymentRecordByEscrowId escrowId =>
    obtain ⟨rfl, hfree⟩ := hallow
    obtain ⟨record, hrec, rfl⟩ := map_eq_some_iff.mp hl
    cases ch with
    | fault message => exact ⟨_, hl, .idle⟩
    | unanswered message => exact ⟨_, hl, .idle⟩
    | _ =>
      refine ⟨_, hl, ?_⟩
      simp only [perform, fallible, hrec]
      exact .read hfree rfl
  | updatePaymentRecord id update =>
    cases ch with
    | fault message => exact ⟨l, hl, .idle⟩
    | _ =>
      refine ⟨l, ?_, .idle⟩
      simp only [perform, fallible, updateReturning]
      split
      · exact ledger_update hl (fun _ => rfl) (fun _ => rfl)
      · exact hl
  | incrementPaymentRecordAmounts id delta =>
    obtain ⟨record, party, amount, status, hhand, rfl, rfl⟩ := hallow
    have hid : record.id = l.account.id := hmine record (by rw [hhand]; rfl)
    obtain ⟨found, hfound⟩ := ledger_findable hl
    rw [hid]
    cases ch with
    | fault message => cases hentered
    | unanswered message => cases hentered
    | _ =>
      refine ⟨{l with account := l.account.enter party amount}, ?_, ?_⟩
      · simp only [perform, fallible, updateReturning, hfound]
        exact ledger_increment hl
      · simp only [perform, fallible, updateReturning, hfound]
        exact .enter hhand
  | updateDispute id update =>
    refine ⟨l, ?_, .idle⟩
    cases ch with
    | fault message => exact hl
    | _ =>
      simp only [perform, fallible]
      split
      · exact hl
      · exact hl
  | sleep ms => exact ⟨l, hl, .idle⟩
  | recordAuditEvent entry => exact ⟨l, hl, .idle⟩
  | notifyDisputeParties orderId event => exact ⟨l, hl, .idle⟩
  | publishPaymentStatusEvent event =>
    refine ⟨l, ?_, .idle⟩
    cases ch <;> exact hl
  | findDispute id =>
    refine ⟨l, ?_, .idle⟩
    cases ch <;> exact hl
  | recordDisputeOutcome buyerAddress sellerAddress buyerAmount sellerAmount =>
    refine ⟨l, ?_, .idle⟩
    cases ch <;> exact hl

/-! ### The books -/

def Ledger.ahead (l : Ledger) : Party → Int
  | .buyer => l.chain.toBuyer - l.account.refunded
  | .seller => l.chain.toSeller - l.account.released

theorem ahead_pay (l : Ledger) (party payee : Party) (amount : Int) :
    Ledger.ahead {l with chain := l.chain.pay payee amount} party =
      l.ahead party + if payee = party then amount else 0 := by
  cases party <;> cases payee <;> simp [Ledger.ahead, ChainEscrow.pay] <;> omega

theorem ahead_enter (l : Ledger) (party payee : Party) (amount : Int) :
    Ledger.ahead {l with account := l.account.enter payee amount} party =
      l.ahead party - if payee = party then amount else 0 := by
  cases party <;> cases payee <;> simp [Ledger.ahead, Account.enter] <;> omega

theorem owed_of_not_owes (h : φ.owes = false) (party : Party) : φ.owed party = 0 := by
  cases hhand : φ.hand with
  | paid record payee amount => simp [Phase.owes, hhand] at h
  | empty => simp [Phase.owed, hhand]
  | read record => simp [Phase.owed, hhand]

theorem settle_hand (h : φ.owes = true) : φ.settle.hand = .empty := by
  cases hhand : φ.hand with
  | paid record payee amount => simp [Phase.settle, hhand]
  | empty => simp [Phase.owes, hhand] at h
  | read record => simp [Phase.owes, hhand] at h

/-- What a call owes is no debit, and the record it has in hand is the one of this account. -/
structure Phase.Sound (id : String) (φ : Phase) : Prop where
  owed : ∀ party, 0 ≤ φ.owed party
  mine : ∀ record, φ.hand.record = some record → record.id = id

/-- The chain is ahead of the account by what the calls owe it. -/
structure Books (amount : Int) (l : Ledger) (φ : Nat → Phase) : Prop where
  account : l.account.amount = amount
  chain : l.chain.amount = amount
  ahead : ∀ party, Balance (Phase.owed party) φ (l.ahead party)
  sound : ∀ i, (φ i).Sound l.account.id

theorem books_start (hacct : l.account.amount = amount) (hchain : l.chain.amount = amount)
    (hahead : ∀ party, l.ahead party = 0) : Books amount l (fun _ => {}) where
  account := hacct
  chain := hchain
  ahead := by
    intro party
    rw [hahead]
    exact balance_zero fun _ => rfl
  sound := by
    intro i
    refine ⟨fun _ => le_refl 0, ?_⟩
    intro record h
    cases h

variable {i : Nat}

theorem Books.sound_update {φ : Nat → Phase} {φ' : Phase} (h : Books amount l φ) (hφ : φ'.Sound l.account.id) (j : Nat) :
    (update φ i φ' j).Sound l.account.id :=
  (forall_update_iff φ fun _ ψ => ψ.Sound l.account.id).mpr ⟨hφ, fun j _ => h.sound j⟩ j

variable {record : PaymentRecord}

theorem Books.read {φ : Nat → Phase} (h : Books amount l φ) (hfree : (φ i).owes = false)
    (hsame : record.account = l.account) :
    Books amount l (update φ i {φ i with hand := .read record}) where
  account := h.account
  chain := h.chain
  ahead := fun party => (h.ahead party).keep (owed_of_not_owes hfree party).symm
  sound := by
    apply h.sound_update
    refine ⟨fun _ => le_refl 0, ?_⟩
    intro b hb
    cases hb
    rw [← hsame]
    rfl

theorem Books.pay {φ : Nat → Phase} {payee : Party} {paid : Int} (h : Books amount l φ)
    (hhand : (φ i).hand = .read record) (hpaid : 0 ≤ paid) :
    Books amount {l with chain := l.chain.pay payee paid}
      (update φ i {φ i with hand := .paid record payee paid}) where
  account := h.account
  chain := by
    rw [← h.chain]
    cases payee <;> rfl
  ahead := by
    intro party
    have hzero : (φ i).owed party = 0 := by simp [Phase.owed, hhand]
    have hupdate := (h.ahead party).update i {φ i with hand := .paid record payee paid}
    rw [hzero, sub_zero] at hupdate
    rw [ahead_pay]
    exact hupdate
  sound := by
    apply h.sound_update
    refine ⟨?_, ?_⟩
    · intro party
      simp only [Phase.owed]
      split <;> omega
    · intro b hb
      cases hb
      exact (h.sound i).mine record (by rw [hhand]; rfl)

theorem Books.enter {φ : Nat → Phase} {payee : Party} {paid : Int} (h : Books amount l φ)
    (hhand : (φ i).hand = .paid record payee paid) :
    Books amount {l with account := l.account.enter payee paid} (update φ i (φ i).settle) where
  account := by
    rw [← h.account]
    cases payee <;> rfl
  chain := h.chain
  ahead := by
    intro party
    have hupdate := (h.ahead party).update i (φ i).settle
    have hpre : (φ i).owed party = if payee = party then paid else 0 := by simp [Phase.owed, hhand]
    have hafter : (φ i).settle.owed party = 0 := by simp [Phase.owed, Phase.settle, hhand]
    rw [hpre, hafter, add_zero] at hupdate
    rw [ahead_enter]
    exact hupdate
  sound := by
    have hid : (l.account.enter payee paid).id = l.account.id := by cases payee <;> rfl
    rw [hid]
    apply h.sound_update
    refine ⟨?_, ?_⟩
    · intro party
      simp [Phase.owed, Phase.settle, hhand]
    · intro b hb
      simp [Phase.settle, hhand, Hand.record] at hb

theorem Books.turn {φ : Nat → Phase} {l' : Ledger} {φ' : Phase} (h : Books amount l φ) (hturn : Turn t l (φ i) o l' φ') :
    Books amount l' (update φ i φ') := by
  cases hturn with
  | idle =>
    rw [update_eq_self]
    exact h
  | read free same => exact h.read free same
  | pay method may hand fits =>
    have hpos := (fits (by rw [method]; simp)).1
    exact h.pay hand (by omega)
  | enter hand => exact h.enter hand

def World.Disputed (w : World) (t : Terms) : Prop :=
  ∀ dispute ∈ w.disputes, t.dispute dispute.id dispute.escrowId dispute.resolution

/-- Calls follow the protocol, and what they may pay is entered. -/
def orderly (cfg : Settings) (t : Terms) (p : PaymentPool) : Action (system cfg) → Prop
  | .call call => Follows (protocol t) {} (body cfg call) Free
  | .step i ch => ∀ o φ, p.pending i = some o → Allowed t φ o → entered p.world o ch = true
  | .drift _ => True

def Balanced (t : Terms) (amount : Int) (w : World) (_ : PaymentTrace) (φ : Nat → Phase) : Prop :=
  w.Disputed t ∧ ∃ l, w.ledger t = some l ∧ Books amount l φ

theorem disputed_perform (h : w.Disputed t) : (perform o ch w).2.Disputed t := by
  cases o with
  | updateDispute id update =>
    cases ch with
    | fault message => exact h
    | _ =>
      simp only [perform, fallible]
      split
      · rename_i dispute hdispute
        intro other hother
        obtain ⟨row, hrow, heq⟩ := List.mem_map.mp hother
        split at heq
        · rw [← heq]
          exact h dispute (lookup_mem hdispute)
        · rw [← heq]
          exact h row hrow
      · exact h
  | updatePaymentRecord id update =>
    cases ch with
    | fault message => exact h
    | _ =>
      simp only [perform, fallible, updateReturning]
      split
      · exact h
      · exact h
  | incrementPaymentRecordAmounts id delta =>
    cases ch with
    | fault message => exact h
    | _ =>
      simp only [perform, fallible, updateReturning]
      split
      · exact h
      · exact h
  | _ => cases ch <;> exact h

theorem answer_perform (hl : w.ledger t = some l) (h : w.Disputed t) (hallow : Allowed t φ o)
    (hmine : ∀ record, φ.hand.record = some record → record.id = l.account.id) (hentered : entered w o ch = true) :
    Answer t o (perform o ch w).1 := by
  cases o with
  | incrementPaymentRecordAmounts id delta =>
    obtain ⟨record, party, amount, status, hhand, rfl, rfl⟩ := hallow
    have hid : record.id = l.account.id := hmine record (by rw [hhand]; rfl)
    obtain ⟨found, hfound⟩ := ledger_findable hl
    cases ch with
    | fault message => cases hentered
    | unanswered message => cases hentered
    | _ =>
      simp only [perform, fallible, updateReturning, hid, hfound]
      trivial
  | findDispute id =>
    cases ch with
    | fault message => trivial
    | unanswered message => trivial
    | _ =>
      simp only [perform, fallible]
      cases hfind : lookup Dispute.id w.disputes id with
      | none => trivial
      | some dispute => exact ⟨lookup_key hfind, h dispute (lookup_mem hfind)⟩
  | _ => trivial

theorem balanced_inductive (cfg : Settings) (t : Terms) (amount : Int) :
    Inductive (system cfg) (protocol t) {} (orderly cfg t) (Balanced t amount) where
  body := fun _ _ h => h
  arrive := by
    intro p φ call w _ ht hw
    cases hw
    exact ht.holds
  drift := fun _ _ e => e.elim
  answers := by
    intro p φ i o ch hg hp ht hallow
    obtain ⟨hdisputed, l, hl, hbooks⟩ := ht.holds
    exact ⟨_, answer_perform hl hdisputed hallow (hbooks.sound i).mine (hg o _ hp hallow), rfl⟩
  step := by
    intro p φ i o ch φ' hg hp ht hallow hm
    obtain ⟨hdisputed, l, hl, hbooks⟩ := ht.holds
    obtain ⟨l', hl', hturn⟩ := turn hl hallow (hbooks.sound i).mine (hg o _ hp hallow)
    rw [hm.2]
    exact ⟨disputed_perform hdisputed, l', hl', hbooks.turn hturn⟩

theorem ledger_inductive {cfg : Settings} {t : Terms}
    {guard guard' : PaymentPool → Action (system cfg) → Prop} {J : World → PaymentTrace → (Nat → Phase) → Prop}
    {K : Ledger → PaymentTrace → (Nat → Phase) → Prop} (h : Inductive (system cfg) (protocol t) {} guard J)
    (hg : ∀ p a, guard' p a → guard p a) (hbalanced : ∀ w tr φ, J w tr φ → Balanced t amount w tr φ)
    (hord : ∀ p a, guard' p a → orderly cfg t p a)
    (hturn : ∀ p φ i o ch l l' φ' result, guard' p (.step i ch) → p.pending i = some o →
      Tracked (protocol t) {} J p φ → p.world.ledger t = some l → Books amount l φ →
      Allowed t (φ i) o → K l p.trace φ → Turn t l (φ i) o l' φ' →
      K l' (⟨i, o, result⟩ :: p.trace) (update φ i φ')) :
    Inductive (system cfg) (protocol t) {} guard' (fun w tr φ => J w tr φ ∧ ∀ l, w.ledger t = some l → K l tr φ) := by
  apply h.and hg
  · intro p φ call w _ _ hK hw
    cases hw
    exact hK
  · exact fun _ _ e => e.elim
  · intro p φ i o ch φ' hg' hp ht hK hallow hm l' hl'
    obtain ⟨_, l, hl, hbooks⟩ := hbalanced _ _ _ ht.holds
    obtain ⟨l'', hl'', hstep⟩ := turn hl hallow (hbooks.sound i).mine (hord p _ hg' o _ hp hallow)
    cases hl''.symm.trans hl'
    rw [hm.2]
    exact hturn p φ i o ch l _ _ _ hg' hp ht hl hbooks hallow (hK l hl) hstep

end Delego.Payments
