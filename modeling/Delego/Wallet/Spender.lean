import Delego.Wallet.Counted

/-! Phases of a call with respect to the spends from one wallet.

A call reads the counters once, if at all, and its job records what the request spends once. Of the job only what it
records is needed, and that is known from `Counted.lean`. -/
namespace Delego.Wallet
open Delego.Process Option

/-- The limits that a request is checked against. -/
def limitFor (limits : List SpendLimit) (userId walletId : String) (delegationId : Option String) : Option SpendLimit :=
  (limitFilters userId walletId delegationId).findSome? fun filter => limits.find? filter.selects

def TransactionRequest.mayConcern (request : TransactionRequest) (userId walletId : String) : Bool :=
  (present request.userId).all (fun u => decide (u = userId)) &&
    (present request.walletId).all fun w => decide (w = walletId)

def limitedBy (config : SpendLimit) (limits : List SpendLimit) (userId walletId : String) : QueueCall → Bool
  | .submit request => !request.mayConcern userId walletId ||
    (limitFor limits userId walletId request.delegationId).all fun config' => config'.atMost config
  | .sequence _ => true

/-! ### Phases of a call -/

/-- How far a call has come with the counters of one wallet. -/
inductive Spender where
  | unread
  | read (spends : Spends)
  | spent

namespace Spender

def next (userId walletId : String) (φ : Spender) : (o : queueSignature.Op) → queueSignature.Result o → Spender
  | .inr (.spends userId' walletId'), .ok spends => if (userId', walletId') = (userId, walletId) then .read spends else φ
  | .inr (.recordSpend userId' walletId' _), _ => if (userId', walletId') = (userId, walletId) then .spent else φ
  | _, _ => φ

/-- The limits that a call has read cover an amount. -/
structure Covers (config : SpendLimit) (φ : Spender) (amount : Int) : Prop where
  unspent : φ ≠ .spent
  fits : ∀ spends, φ = .read spends → Affordable config spends amount

/-- A call reads the counters once, and records a spend that fits once. -/
def Allows (config : SpendLimit) (userId walletId : String) (φ : Spender) : queueSignature.Op → Prop
  | .inr (.spends userId' walletId') => (userId', walletId') = (userId, walletId) → φ = .unread
  | .inr (.recordSpend userId' walletId' amount) => (userId', walletId') = (userId, walletId) →
    0 < amount ∧ φ.Covers config amount
  | _ => True

end Spender

def Found (limits : List SpendLimit) : (o : queueSignature.Op) → queueSignature.Result o → Prop
  | .inr (.findSpendLimit filter), .ok found => found = limits.find? filter.selects
  | _, _ => True

/-- A call in its phases with respect to one wallet. -/
def spending (config : SpendLimit) (limits : List SpendLimit) (userId walletId : String) :
    Protocol queueSignature Spender where
  Allowed := Spender.Allows config userId walletId
  Moves := fun φ o r φ' => (isLocal o = true → ∃ a, r = .ok a) ∧ Found limits o r ∧ φ' = φ.next userId walletId o r

section
variable {config : SpendLimit} {limits : List SpendLimit} {userId walletId : String} {φ : Spender}
  {request : TransactionRequest}

theorem follows_spending {o : QueueOp} {Q : Except WalletError o.Reply → Spender → Prop}
    (ha : φ.Allows config userId walletId (.inr o))
    (h : ∀ r, Found limits (.inr o) r → Q r (φ.next userId walletId (.inr o) r)) :
    Follows (spending config limits userId walletId) φ (queue o) Q := by
  refine follows_perform ha ?_
  rintro r _ ⟨-, hfound, rfl⟩
  exact h r hfound

theorem spend_eq_some {u w : String} {amount : Int} (h : request.spend = some (u, w, amount)) :
    present request.userId = some u ∧ present request.walletId = some w ∧ request.amountStroops = some amount ∧
      0 < amount := by
  unfold TransactionRequest.spend at h
  split at h
  · rename_i hu hw ha
    split at h
    · rename_i hpos
      cases h
      exact ⟨hu, hw, ha, hpos⟩
    · cases h
  · cases h

theorem eq_of_present {text text' : String} (h : present (some text) = some text') : text = text' :=
  some.inj (filter_eq_some_iff.mp h).1

theorem follows_spending_processJob (job : Nat)
    (hcov : ∀ amount, request.spend = some (userId, walletId, amount) → φ.Covers config amount) :
    Follows (spending config limits userId walletId) φ (processJob job request) fun _ _ => True := by
  have hjob : Follows (counting request.spend) [] (processJob job request) (Concluded request.spend) :=
    follows_processJob job ⟨rfl, rfl⟩
  refine follows_mono (follows_simulated (fun log φ' => recorded log = [] → φ' = φ) ?_ ?_ hjob fun _ => rfl)
    fun _ _ _ => trivial
  · intro log φ' o hrel hrecs
    cases o with
    | inl o => trivial
    | inr o =>
      cases o with
      | spends => exact absurd hrecs id
      | recordSpend userId' walletId' amount =>
        intro heq
        cases heq
        rw [hrel hrecs.1]
        exact ⟨(spend_eq_some hrecs.2).2.2.2, hcov amount hrecs.2⟩
      | _ => trivial
  · rintro log φ' o r _ hrel hrecs ⟨hlocal, -, rfl⟩
    refine ⟨⟨o, r⟩ :: log, ⟨hlocal, rfl⟩, ?_⟩
    intro hnone
    cases o with
    | inl o => exact hrel hnone
    | inr o =>
      cases o with
      | spends => exact absurd hrecs id
      | recordSpend => cases hnone
      | _ => exact hrel hnone

theorem follows_enqueue (hcov : ∀ amount, request.spend = some (userId, walletId, amount) → φ.Covers config amount) :
    Follows (spending config limits userId walletId) φ (enqueue request) fun _ _ => True := by
  exact follows_bind (follows_spending trivial
    (forall_except (fun _ _ => trivial) fun job _ => follows_spending_processJob job hcov))

theorem covers_unread (amount : Int) : Spender.unread.Covers config amount where
  unspent := Spender.noConfusion
  fits := fun _ => Spender.noConfusion

/-! ### The check -/

theorem follows_findFirst (filters : List LimitFilter) :
    Follows (spending config limits userId walletId) φ (findFirst filters) fun r φ' =>
      φ' = φ ∧ ∀ found, r = .ok found → found = filters.findSome? fun filter => limits.find? filter.selects := by
  induction filters with
  | nil =>
    refine ⟨rfl, ?_⟩
    rintro _ ⟨⟩
    rfl
  | cons filter rest ih =>
    refine follows_bind (follows_spending trivial
      (forall_except (fun _ _ => ⟨rfl, fun _ h => by cases h⟩) fun found hfound => ?_))
    have hfirst : found = limits.find? filter.selects := hfound
    cases found with
    | some config' =>
      refine ⟨rfl, ?_⟩
      rintro _ ⟨⟩
      rw [List.findSome?_cons, ← hfirst]
    | none =>
      refine follows_mono ih ?_
      rintro r φ' ⟨hφ, hrest⟩
      refine ⟨hφ, ?_⟩
      intro found hok
      rw [List.findSome?_cons, ← hfirst]
      exact hrest found hok

/-- A check that allows an amount covers it; one that fails has read nothing. -/
def Cleared (config : SpendLimit) (concerns : Prop) (amount : Int) : Except WalletError SpendCheckResult → Spender → Prop
  | .ok result, φ => result.allowed = true → concerns → φ.Covers config amount
  | .error _, φ => φ = .unread

theorem follows_checkSpendLimit {userId' walletId' : String} {delegationId : Option String} (amount : Int)
    (hlimit : (userId', walletId') = (userId, walletId) →
      (limitFor limits userId walletId delegationId).all (fun config' => config'.atMost config) = true) :
    Follows (spending config limits userId walletId) .unread (checkSpendLimit userId' walletId' delegationId amount)
      (Cleared config ((userId', walletId') = (userId, walletId)) amount) := by
  refine follows_bind (follows_mono (follows_findFirst _) ?_)
  rintro r _ ⟨rfl, hfound⟩
  cases r with
  | error e => rfl
  | ok found =>
    have hfirst := hfound found rfl
    cases found with
    | none => exact fun _ _ => covers_unread amount
    | some config' =>
      simp only [Then]
      cases checkPerTransaction config' amount with
      | some result => exact fun _ _ => covers_unread amount
      | none =>
        refine follows_bind (follows_spending (fun _ => rfl) (forall_except (fun _ _ => rfl) fun spends _ => ?_))
        intro hallow heq
        have hmost := hlimit heq
        cases heq
        rw [limitFor, ← hfirst] at hmost
        have hnext : Spender.unread.next userId walletId (.inr (.spends userId walletId)) (.ok spends) =
            .read spends := if_pos rfl
        rw [hnext]
        refine ⟨Spender.noConfusion, ?_⟩
        rintro _ ⟨⟩
        exact affordable_of_allowed hallow hmost

theorem follows_checkAndEnqueue {userId' walletId' : String} (hlimit : (userId', walletId') = (userId, walletId) →
      (limitFor limits userId walletId request.delegationId).all (fun config' => config'.atMost config) = true) :
    Follows (spending config limits userId walletId) .unread (checkAndEnqueue request userId' walletId')
      fun _ _ => True := by
  apply follows_bind
  refine follows_attempt (follows_mono (follows_checkSpendLimit (request.amountStroops.getD 0) hlimit) ?_)
  intro r φ' hcleared
  cases r with
  | error e =>
    have hunread : φ' = .unread := hcleared
    subst hunread
    simp only [Then]
    split
    · trivial
    · exact follows_enqueue fun amount _ => covers_unread amount
  | ok result =>
    simp only [Then]
    split
    · rename_i hallow
      refine follows_enqueue ?_
      intro amount hspend
      obtain ⟨huser, hwal, hamount, -⟩ := spend_eq_some hspend
      have hcov := hcleared hallow (by rw [eq_of_present huser, eq_of_present hwal])
      rwa [some.inj hamount] at hcov
    · trivial

theorem follows_identify :
    Follows (spending config limits userId walletId) φ (identify request) fun r φ' =>
      φ' = φ ∧ (r = .ok (some userId, some walletId) → request.mayConcern userId walletId = true) := by
  have hnamed : ∀ (named : Option String) (found : Option String) (text : String), named.or found = some text →
      (named.all fun t => decide (t = text)) = true := by
    intro named found text h
    cases named with
    | none => rfl
    | some t => exact decide_eq_true (some.inj h)
  have hpair : ∀ found found' : Option String, (present request.userId).or found = some userId →
      (present request.walletId).or found' = some walletId → request.mayConcern userId walletId = true := by
    intro found found' huser hwal
    rw [TransactionRequest.mayConcern, hnamed _ _ _ huser, hnamed _ _ _ hwal]
    rfl
  -- where nothing more is found, who is named is all there is
  have hself : (Except.ok (present request.userId, present request.walletId) :
      Except WalletError (Option String × Option String)) = .ok (some userId, some walletId) →
        request.mayConcern userId walletId = true := by
    intro h
    simp only [Except.ok.injEq, Prod.mk.injEq] at h
    exact hpair none none (by rw [or_none, h.1]) (by rw [or_none, h.2])
  unfold identify
  simp only
  split
  · exact ⟨rfl, hself⟩
  · apply follows_bind
    refine follows_attempt (follows_spending trivial ?_)
    intro r _
    rcases r with e | _ | wallet
    · exact ⟨rfl, hself⟩
    · exact ⟨rfl, hself⟩
    · refine ⟨rfl, ?_⟩
      intro h
      simp only [Except.ok.injEq, Prod.mk.injEq] at h
      exact hpair _ _ h.1 h.2

theorem follows_addTransactionToQueue {cfg : Settings} (hlimit : request.mayConcern userId walletId = true →
      (limitFor limits userId walletId request.delegationId).all (fun config' => config'.atMost config) = true) :
    Follows (spending config limits userId walletId) .unread (addTransactionToQueue cfg request) fun _ _ => True := by
  unfold addTransactionToQueue
  simp only
  split
  · trivial
  · refine follows_bind (follows_mono follows_identify ?_)
    rintro r _ ⟨rfl, hconcern⟩
    rcases r with e | ⟨_ | userId', _ | walletId'⟩
    · trivial
    · exact follows_enqueue fun amount _ => covers_unread amount
    · exact follows_enqueue fun amount _ => covers_unread amount
    · exact follows_enqueue fun amount _ => covers_unread amount
    · refine follows_checkAndEnqueue ?_
      intro heq
      cases heq
      exact hlimit (hconcern rfl)

theorem follows_spending_body {cfg : Settings} (call : QueueCall)
    (hlimit : limitedBy config limits userId walletId call = true) :
    Follows (spending config limits userId walletId) .unread (call.body cfg) fun _ _ => True := by
  cases call with
  | sequence call =>
    have hquiet := follows_of_only (T := spending config limits userId walletId) (φ := .unread)
      (only_lift (X := QueueOp) (R := QueueOp.Reply) call.body) ?_ ?_
    · exact follows_mono hquiet fun _ _ _ => trivial
    · rintro _ ⟨o, rfl⟩
      trivial
    · rintro _ r _ ⟨o, rfl⟩ ⟨-, -, rfl⟩
      rfl
  | submit request =>
    have hreq : request.mayConcern userId walletId = true →
        (limitFor limits userId walletId request.delegationId).all (fun config' => config'.atMost config) = true := by
      intro hconcern
      simpa only [limitedBy, hconcern, Bool.not_true, Bool.false_or] using hlimit
    refine follows_bind (follows_attempt (follows_mono (follows_addTransactionToQueue hreq) ?_))
    intro r φ' _
    exact follows_spending trivial fun _ _ => trivial

end

end Delego.Wallet
