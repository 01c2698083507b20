import Delego.Payouts.Service

/-! How often an escrow is paid out.

What a payout looks at is the status of the payment record, and a payout does not change it: a second payout of the
escrow finds the record as the first one did, and releases again (`escrow_paid_twice`). A call goes on to the release
only if it has read the record as funded, so the escrow is paid out once where no two calls read it so (`readsAlone`). -/
namespace Delego.Payouts
open Delego.Process Delego.Payments Delego.Data List Function

def releasedBy : (o : Op) → payoutSignature.Result o → Option String
  | .releaseResult escrowId, .ok result => if result.success then some escrowId else none
  | _, _ => none

def releases (escrowId : String) (tr : PayoutTrace) : Nat :=
  tr.countP fun e => decide (releasedBy e.op e.result = some escrowId)

def confirmed (escrowId : String) (payouts : List PayoutRecord) : Nat :=
  payouts.countP fun record => decide (record.status = .confirmed ∧ record.calculation.escrowId = escrowId)

/-- The escrow whose payment record an operation has read as funded. -/
def funded : (o : Op) → payoutSignature.Result o → Option String
  | .findPaymentRecordByEscrowId escrowId, .ok (some record) => if record.status = .funded then some escrowId else none
  | _, _ => none

/-- The escrow whose record a call last looked up, if it was funded. -/
def lastRead : PayoutTrace → Nat → Option String
  | [], _ => none
  | e :: tr, i => match e.op with
    | .findPaymentRecordByEscrowId _ => if e.runner = i then funded e.op e.result else lastRead tr i
    | _ => lastRead tr i

/-- A call that read the record as funded and has not ended or gone on to another escrow. -/
def underway (escrowId : String) (p : PayoutPool) (i : Nat) : Bool :=
  (p.pending i).isSome && decide (lastRead p.trace i = some escrowId)

/-- Funded is read before any release, by one call at a time. -/
def readsAlone (p : PayoutPool) (i : Nat) (o : Op) (ch : Choice) : Bool :=
  (funded o (perform o ch p.world).1).all fun escrowId =>
    decide (releases escrowId p.trace = 0) &&
      (range p.runners.length).all fun j => decide (j = i) || !underway escrowId p j

/-- How far a call has come. -/
inductive Phase where
  | ready
  /-- The record was funded. -/
  | reading (escrowId : String)
  | releasing (escrowId : String)
  /-- The release has succeeded; the record is still to be stored. -/
  | paid (escrowId : String)

namespace Phase

def next (φ : Phase) : (o : Op) → payoutSignature.Result o → Phase
  | .findPaymentRecordByEscrowId escrowId, r => (funded (.findPaymentRecordByEscrowId escrowId) r).elim .ready .reading
  | .release _ escrowId, _ => .releasing escrowId
  | .releaseResult escrowId, r => (releasedBy (.releaseResult escrowId) r).elim .ready .paid
  | .createPayoutRecord _ _ _ _ _, _ => .ready
  | _, _ => φ

def Allows : Phase → Op → Prop
  | .releasing escrowId, .releaseResult escrowId' => escrowId' = escrowId
  | .paid escrowId, .createPayoutRecord calculation _ _ status _ => status = .confirmed ∧ calculation.escrowId = escrowId
  | .releasing _, _ | .paid _, _ => False
  | .reading escrowId, .release _ escrowId' => escrowId' = escrowId
  | .ready, .release _ _ => False
  | _, .releaseResult _ => False
  | _, .createPayoutRecord _ _ _ status _ => status = .paused
  | _, _ => True

/-- The escrow that the call may still pay out, or has just paid out. -/
def escrow : Phase → Option String
  | .ready => none
  | .reading escrowId | .releasing escrowId | .paid escrowId => some escrowId

def Rests : Phase → Prop
  | .ready | .reading _ => True
  | _ => False

end Phase

def paying : Protocol payoutSignature Phase where
  Allowed := Phase.Allows
  Moves := fun φ o r φ' => (o.reliable = true → ∃ a, r = .ok a) ∧ φ' = φ.next o r
  Ends := Phase.Rests

theorem answered_perform (o : Op) (ch : Choice) (w : World) :
    o.reliable = true → ∃ a, (perform o ch w).1 = .ok a := by
  intro h
  rw [perform, if_pos h]
  exact ⟨_, rfl⟩

section
variable {cfg : Settings}

theorem follows_op {o : Op} {φ : Phase} {Q : Except String o.Reply → Phase → Prop} (ha : φ.Allows o)
    (hm : ∀ r, (o.reliable = true → ∃ a, r = .ok a) → Q r (φ.next o r)) : Follows paying φ (op o) Q := by
  apply follows_perform ha
  rintro r φ' ⟨hansd, rfl⟩
  exact hm r hansd

/-- A call may end here. -/
def Over {α : Type} : Except String α → Phase → Prop := fun _ φ => φ.Rests

variable {calculation : PayoutCalculation}

theorem follows_releaseAndRecord {request : InitiatePayoutRequest}
    (h : calculation.escrowId = request.escrowId) :
    Follows paying (.reading request.escrowId) (releaseAndRecord request calculation) Over := by
  apply follows_bind
  refine follows_op rfl ?_
  intro r hansd
  obtain ⟨a, rfl⟩ := hansd rfl
  refine follows_bind (follows_op rfl (forall_except (fun _ _ => trivial) fun result _ => ?_))
  simp only [Then, Phase.next, releasedBy]
  cases result.success with
  | false => exact trivial
  | true =>
    apply follows_bind
    refine follows_op ⟨rfl, h⟩ ?_
    intro r hansd
    obtain ⟨record, rfl⟩ := hansd rfl
    exact trivial

variable {escrowId : String}

theorem follows_pausePayout {checkResult : TrustlineCheckResult}
    {payload : MerchantNotificationPayload} :
    Follows paying (.reading escrowId) (pausePayout calculation checkResult payload) Over := by
  apply follows_bind
  refine follows_op rfl ?_
  intro r hansd
  obtain ⟨record, rfl⟩ := hansd rfl
  exact follows_bind (follows_op trivial (forall_except (fun _ _ => trivial) fun _ _ => trivial))

theorem rests_ready : Phase.ready.Rests := trivial

theorem ready_escrow (k : String) : Phase.ready.escrow ≠ some k := by
  intro h
  cases h

theorem allows_read {φ : Phase} (h : φ.Rests) (escrowId : String) : φ.Allows (.findPaymentRecordByEscrowId escrowId) := by
  cases φ with
  | ready => trivial
  | reading escrowId' => trivial
  | releasing escrowId' => cases h
  | paid escrowId' => cases h

/-- Only a call that has read the record as funded goes on to the release. -/
theorem follows_payOut {φ : Phase} (h : φ.Rests) (notification : Notification) (request : InitiatePayoutRequest) :
    Follows paying φ (payOut cfg notification request) Over := by
  refine follows_bind (follows_op (allows_read h _) (forall_except (fun _ _ => trivial) fun found _ => ?_))
  cases found with
  | none => exact trivial
  | some paymentRecord =>
    by_cases hstatus : paymentRecord.status = .funded
    · simp only [Then, Phase.next, funded, ne_eq, hstatus, not_true, if_false, if_true, Option.elim]
      split
      · exact trivial
      · split
        · exact follows_releaseAndRecord rfl
        · split
          · exact trivial
          · refine follows_bind (follows_op trivial (forall_except (fun _ _ => trivial) fun _ _ => ?_))
            simp only [Then]
            split
            · exact follows_releaseAndRecord rfl
            · exact follows_pausePayout
    · simp only [Then, Phase.next, funded, ne_eq, hstatus, not_false_eq_true, if_true, if_false, Option.elim]
      exact trivial

theorem follows_orchestrateBatchPayouts {φ : Phase} (h : φ.Rests) (requests : List InitiatePayoutRequest)
    (result : BatchPayoutOrchestrationResult) :
    Follows paying φ (orchestrateBatchPayouts cfg requests result) Over := by
  induction requests generalizing φ result with
  | nil => exact h
  | cons request rest ih =>
    refine follows_bind (follows_attempt (follows_mono (follows_payOut h _ request) ?_))
    intro r φ' hrests
    exact ih hrests _

theorem follows_body (call : Call) : Follows paying .ready (call.body cfg) Over := by
  cases call with
  | initiatePayout request => exact follows_andThen (follows_payOut rests_ready _ request) fun _ _ h => h
  | orchestratePayout request => exact follows_andThen (follows_payOut rests_ready _ request) fun _ _ h => h
  | orchestrateBatchPayouts requests => exact follows_andThen (follows_orchestrateBatchPayouts rests_ready requests _) fun _ _ h => h

end

/-- What a call reads, releases or has paid is the escrow whose record it last read as funded. -/
def Remembers (_ : World) (tr : PayoutTrace) (φ : Nat → Phase) : Prop :=
  ∀ i escrowId, (φ i).escrow = some escrowId → lastRead tr i = some escrowId

/-- At most one payout of escrow `k` is under way, and none beside one that has succeeded. -/
structure Single (k : String) (w : World) (tr : PayoutTrace) (φ : Nat → Phase) : Prop where
  alone : ∀ {i j}, (φ i).escrow = some k → (φ j).escrow = some k → i = j
  unpaid : ∀ {i}, (φ i).escrow = some k → φ i ≠ .paid k → releases k tr = 0
  paid : ∀ {i}, φ i = .paid k → releases k tr = 1 ∧ confirmed k w.payouts = 0
  once : releases k tr ≤ 1
  backed : confirmed k w.payouts ≤ releases k tr

theorem releases_cons (k : String) (i : Nat) (o : Op) (r : payoutSignature.Result o) (tr : PayoutTrace) :
    releases k (⟨i, o, r⟩ :: tr) = releases k tr + if releasedBy o r = some k then 1 else 0 := by
  simp [releases, countP_cons]

theorem confirmed_append (k : String) (payouts : List PayoutRecord) (record : PayoutRecord) :
    confirmed k (payouts ++ [record]) = confirmed k payouts +
      if record.status = .confirmed ∧ record.calculation.escrowId = k then 1 else 0 := by
  simp [confirmed, countP_append, countP_cons]

theorem payouts_perform {o : Op} (ch : Choice) (w : World)
    (h : ∀ calculation hash ledger status reason, o ≠ .createPayoutRecord calculation hash ledger status reason) :
    (perform o ch w).2.payouts = w.payouts := by
  refine Fate.carry_kept (P := fun w' : World => w'.payouts = w.payouts) rfl ?_
  cases o with
  | createPayoutRecord calculation hash ledger status reason => exact absurd rfl (h _ _ _ _ _)
  | _ => rfl

section
variable {k : String} {w : World} {tr : PayoutTrace} {φ : Nat → Phase} {i : Nat} {ch : Choice}
  {w' : World} {tr' : PayoutTrace}

theorem Single.carry (h : Single k w tr φ) (hreleases : releases k tr' = releases k tr)
    (hconf : confirmed k w'.payouts = confirmed k w.payouts) : Single k w' tr' φ := by
  refine ⟨h.alone, ?_, ?_, hreleases ▸ h.once, ?_⟩
  · intro i hi hne
    rw [hreleases]
    exact h.unpaid hi hne
  · intro i hi
    rw [hreleases, hconf]
    exact h.paid hi
  · rw [hreleases, hconf]
    exact h.backed

theorem Single.leave (h : Single k w tr φ) {φ' : Phase} (hphase : φ'.escrow ≠ some k) : Single k w tr (update φ i φ') := by
  have hpre : ∀ j, (update φ i φ' j).escrow = some k → update φ i φ' j = φ j := by
    intro j hj
    by_cases hji : j = i
    · subst hji
      rw [update_self] at hj
      exact absurd hj hphase
    · rw [update_of_ne hji]
  refine ⟨?_, ?_, ?_, h.once, h.backed⟩
  · intro j j' hj hj'
    exact h.alone (hpre j hj ▸ hj) (hpre j' hj' ▸ hj')
  · intro j hj
    have heq := hpre j hj
    rw [heq] at hj ⊢
    exact h.unpaid hj
  · intro j hj
    have heq := hpre j (congrArg Phase.escrow hj)
    exact h.paid (heq ▸ hj)

/-- A call goes on to a payout that no other one is about. -/
theorem Single.enter (h : Single k w tr φ) {φ' : Phase} (hφ' : φ' ≠ .paid k) (hnone : releases k tr = 0)
    (hfree : ∀ j, j ≠ i → (φ j).escrow ≠ some k) : Single k w tr (update φ i φ') := by
  have honly : ∀ j, (update φ i φ' j).escrow = some k → j = i := by
    intro j hj
    by_contra hji
    rw [update_of_ne hji] at hj
    exact hfree j hji hj
  refine ⟨?_, fun _ _ => hnone, ?_, h.once, h.backed⟩
  · intro j j' hj hj'
    rw [honly j hj, honly j' hj']
  · intro j hj
    obtain rfl := honly j (congrArg Phase.escrow hj)
    rw [update_self] at hj
    exact absurd hj hφ'

theorem Single.succeed (h : Single k w tr φ) (hi : φ i = .releasing k) (hreleases : releases k tr' = releases k tr + 1)
    (hconf : confirmed k w'.payouts = confirmed k w.payouts) :
    Single k w' tr' (update φ i (.paid k)) := by
  have hnone : releases k tr = 0 := h.unpaid (i := i) (by rw [hi]; rfl) (by simp [hi])
  have hbacked := h.backed
  have honly : ∀ j, (update φ i (.paid k) j).escrow = some k → j = i := by
    intro j hj
    by_contra hji
    rw [update_of_ne hji] at hj
    exact hji (h.alone hj (by rw [hi]; rfl))
  refine ⟨?_, ?_, ?_, ?_, ?_⟩
  · intro j j' hj hj'
    rw [honly j hj, honly j' hj']
  · intro j hj hne
    obtain rfl := honly j hj
    rw [update_self] at hne
    exact absurd rfl hne
  · intro j _
    omega
  · omega
  · omega

theorem Single.record (h : Single k w tr φ) (hi : φ i = .paid k) (hreleases : releases k tr' = releases k tr)
    (hconf : confirmed k w'.payouts = confirmed k w.payouts + 1) :
    Single k w' tr' (update φ i .ready) := by
  obtain ⟨hone, hnone⟩ := h.paid hi
  have hclear : ∀ j, (update φ i .ready j).escrow ≠ some k := by
    intro j hj
    by_cases hji : j = i
    · subst hji
      rw [update_self] at hj
      cases hj
    · rw [update_of_ne hji] at hj
      exact hji (h.alone hj (by rw [hi]; rfl))
  refine ⟨fun hj => absurd hj (hclear _), fun hj => absurd hj (hclear _),
    fun hj => absurd (congrArg Phase.escrow hj) (hclear _), ?_, ?_⟩
  · omega
  · omega

theorem releasedBy_escrow {r : payoutSignature.Result (.releaseResult escrowId)}
    (h : releasedBy (.releaseResult escrowId) r = some k) : escrowId = k := by
  cases r with
  | error message => cases h
  | ok result =>
    simp only [releasedBy] at h
    split at h
    · cases h
      rfl
    · cases h

theorem reading_of_allows {φ : Phase} {sourceAddress escrowId : String} (h : φ.Allows (.release sourceAddress escrowId)) :
    φ = .reading escrowId := by
  cases φ with
  | reading escrowId' =>
    cases h
    rfl
  | _ => cases h

theorem releasing_of_allows {φ : Phase} (h : φ.Allows (.releaseResult escrowId)) :
    φ = .releasing escrowId := by
  cases φ with
  | releasing escrowId' =>
    cases h
    rfl
  | _ => cases h

theorem paid_of_allows {φ : Phase} {hash : Option String} {ledger : Option Nat}
    {reason : Option PauseReason} (h : φ.Allows (.createPayoutRecord calculation hash ledger .confirmed reason)) :
    φ = .paid calculation.escrowId := by
  cases φ with
  | ready => cases h
  | reading escrowId => cases h
  | releasing escrowId => cases h
  | paid escrowId => rw [h.2]

theorem Single.step (h : Single k w tr φ) {o : Op} (ha : (φ i).Allows o)
    (hread : funded o (perform o ch w).1 = some k → releases k tr = 0 ∧ ∀ j, j ≠ i → (φ j).escrow ≠ some k) :
    Single k (perform o ch w).2 (⟨i, o, (perform o ch w).1⟩ :: tr)
      (update φ i ((φ i).next o (perform o ch w).1)) := by
  have hreleases := releases_cons k i o (perform o ch w).1 tr
  cases o with
  | findPaymentRecordByEscrowId escrowId =>
    have hconf := congrArg (confirmed k) (payouts_perform ch w (o := .findPaymentRecordByEscrowId escrowId)
      fun _ _ _ _ _ => Op.noConfusion)
    refine Single.carry ?_ hreleases hconf
    simp only [Phase.next]
    cases hr : funded (.findPaymentRecordByEscrowId escrowId) (perform (.findPaymentRecordByEscrowId escrowId) ch w).1 with
    | none => exact h.leave (ready_escrow k)
    | some read =>
      by_cases hk : read = k
      · subst hk
        obtain ⟨hnone, hfree⟩ := hread hr
        exact h.enter Phase.noConfusion hnone hfree
      · exact h.leave fun heq => hk (Option.some.inj heq)
  | release sourceAddress escrowId =>
    have hconf := congrArg (confirmed k) (payouts_perform ch w (o := .release sourceAddress escrowId)
      fun _ _ _ _ _ => Op.noConfusion)
    refine Single.carry ?_ hreleases hconf
    have hi := reading_of_allows ha
    by_cases hk : escrowId = k
    · subst hk
      have hescrow : (φ i).escrow = some escrowId := by rw [hi]; rfl
      exact h.enter Phase.noConfusion (h.unpaid hescrow (by simp [hi])) fun j hji hj => hji (h.alone hj hescrow)
    · exact h.leave fun heq => hk (Option.some.inj heq)
  | releaseResult escrowId =>
    have hconf := congrArg (confirmed k) (payouts_perform ch w (o := .releaseResult escrowId)
      fun _ _ _ _ _ => Op.noConfusion)
    have hi := releasing_of_allows ha
    by_cases hk : releasedBy (.releaseResult escrowId) (perform (.releaseResult escrowId) ch w).1 = some k
    · have hesc := releasedBy_escrow hk
      subst hesc
      rw [if_pos hk] at hreleases
      simp only [Phase.next, hk]
      exact h.succeed hi hreleases hconf
    · rw [if_neg hk] at hreleases
      refine Single.carry ?_ hreleases hconf
      simp only [Phase.next]
      cases hr : releasedBy (.releaseResult escrowId) (perform (.releaseResult escrowId) ch w).1 with
      | none => exact h.leave (ready_escrow k)
      | some released =>
        refine h.leave ?_
        intro heq
        exact hk (hr.trans heq)
  | createPayoutRecord calculation hash ledger status reason =>
    have hconf : confirmed k (perform (.createPayoutRecord calculation hash ledger status reason) ch
        w).2.payouts = confirmed k w.payouts + if status = .confirmed ∧ calculation.escrowId = k then 1 else 0 :=
      confirmed_append k w.payouts _
    by_cases hk : status = .confirmed ∧ calculation.escrowId = k
    · rw [if_pos hk] at hconf
      obtain ⟨rfl, rfl⟩ := hk
      exact h.record (paid_of_allows ha) hreleases hconf
    · rw [if_neg hk] at hconf
      exact (h.leave (ready_escrow k)).carry hreleases hconf
  | checkTrustline account assetCode assetIssuer =>
    rw [show (φ i).next (.checkTrustline account assetCode assetIssuer) _ = φ i from rfl, update_eq_self]
    exact h.carry hreleases (congrArg (confirmed k) (payouts_perform ch w fun _ _ _ _ _ => Op.noConfusion))
  | notifyMerchant payload =>
    rw [show (φ i).next (.notifyMerchant payload) _ = φ i from rfl, update_eq_self]
    exact h.carry hreleases (congrArg (confirmed k) (payouts_perform ch w fun _ _ _ _ _ => Op.noConfusion))

end

theorem Remembers.step {w w' : World} {tr : PayoutTrace} {φ : Nat → Phase} {i : Nat} {o : Op} {r : payoutSignature.Result o}
    (h : Remembers w tr φ) (ha : (φ i).Allows o) : Remembers w' (⟨i, o, r⟩ :: tr) (update φ i ((φ i).next o r)) := by
  have hothers : ∀ j, j ≠ i → lastRead (⟨i, o, r⟩ :: tr) j = lastRead tr j := by
    intro j hj
    cases o <;> simp [lastRead, Ne.symm hj]
  apply (forall_update_iff φ fun j ψ => ∀ escrowId, ψ.escrow = some escrowId →
    lastRead (⟨i, o, r⟩ :: tr) j = some escrowId).mpr
  refine ⟨?_, ?_⟩
  · intro escrowId hescrow
    cases o with
    | findPaymentRecordByEscrowId read =>
      simp only [lastRead, if_true]
      simp only [Phase.next] at hescrow
      cases hr : funded (.findPaymentRecordByEscrowId read) r with
      | none =>
        rw [hr] at hescrow
        cases hescrow
      | some found =>
        rw [hr] at hescrow
        exact hescrow
    | release sourceAddress released =>
      exact h i escrowId (by rw [reading_of_allows ha]; exact hescrow)
    | releaseResult released =>
      refine h i escrowId ?_
      rw [releasing_of_allows ha]
      simp only [Phase.next] at hescrow
      cases hr : releasedBy (.releaseResult released) r with
      | none =>
        rw [hr] at hescrow
        cases hescrow
      | some found =>
        rw [hr] at hescrow
        rw [releasedBy_escrow hr]
        exact hescrow
    | createPayoutRecord calculation hash ledger status reason => cases hescrow
    | checkTrustline account assetCode assetIssuer => exact h i escrowId hescrow
    | notifyMerchant payload => exact h i escrowId hescrow
  · intro j hj escrowId hescrow
    rw [hothers j hj]
    exact h j escrowId hescrow

theorem remembers_inductive (cfg : Settings) {guard : PayoutPool → Action (system cfg) → Prop} :
    Inductive (system cfg) paying .ready guard Remembers where
  body := fun _ call _ => follows_body call
  arrive := by
    rintro p φ call w - ht ⟨⟩
    exact ht.holds
  drift := fun _ _ _ _ ht => ht.holds
  answers := fun p _ _ o ch _ _ _ _ => ⟨_, answered_perform o ch p.world, rfl⟩
  step := by
    rintro p φ i o ch _ - - ht ha ⟨-, rfl⟩
    exact ht.holds.step ha

variable {p : PayoutPool} {φ : Nat → Phase} {k : String}

/-- A call that pays out an escrow, or may, is under way. -/
theorem underway_of_live (ht : Tracked paying .ready Remembers p φ) {i : Nat} (h : (p.live .ready φ i).escrow = some k) :
    i < p.runners.length ∧ underway k p i = true := by
  unfold Pool.live at h
  split at h
  · rename_i hpend
    refine ⟨?_, ?_⟩
    · by_contra hge
      rw [ht.fresh i (by omega)] at h
      cases h
    · rw [underway, hpend, ht.holds i k h]
      simp
  · cases h

theorem single_run {cfg : Settings} {w : World} {q : PayoutPool} (start : confirmed k w.payouts = 0)
    (run : Run (system cfg) (fun p a => onStep readsAlone p a = true) (Pool.start w) q) :
    ∃ φ, Tracked paying .ready Remembers q φ ∧ Single k q.world q.trace (q.live .ready φ) := by
  refine Inductive.run_live (remembers_inductive cfg) ?_ ?_ ?_ ?_ run ?_
  rotate_right
  · refine ⟨fun _ => .ready, Tracked.start (fun _ _ h => (ready_escrow _ h).elim), ?_⟩
    have hready : ∀ i, (Pool.start w : PayoutPool).live Phase.ready (fun _ => Phase.ready) i = Phase.ready := by
      intro i
      simp [Pool.live]
    refine ⟨?_, ?_, ?_, Nat.zero_le _, Nat.le_of_eq start⟩
    · intro i j hi
      rw [hready] at hi
      cases hi
    · exact fun _ _ => rfl
    · intro i hi
      rw [hready] at hi
      cases hi
  · rintro call w w' tr φ h ⟨⟩
    exact h
  · exact fun _ _ _ _ _ h => h.carry rfl rfl
  · exact fun _ _ _ _ h _ => h.leave (ready_escrow k)
  · rintro p φ i o ch _ hg hp ht h ha ⟨-, rfl⟩
    have hlive : p.live .ready φ i = φ i := Pool.live_pending hp
    rw [← hlive] at ha ⊢
    refine h.step ha ?_
    intro hfunded
    have hread := onStep_pending hg hp
    simp only [readsAlone, hfunded, Option.all_some, Bool.and_eq_true, decide_eq_true_eq, all_eq_true, mem_range,
      Bool.or_eq_true, Bool.not_eq_true'] at hread
    refine ⟨hread.1, ?_⟩
    intro j hj hescrow
    obtain ⟨hlt, hunder⟩ := underway_of_live ht hescrow
    rcases hread.2 j hlt with heq | hfree
    · exact hj heq
    · cases hfree.symm.trans hunder

/-- **An escrow is paid out at most once**, where the record is read as funded only while no release of the escrow has
succeeded and no other call that read it so is under way. -/
theorem paid_out_once {cfg : Settings} {k : String} {w : World} {q : PayoutPool} (start : confirmed k w.payouts = 0)
    (run : Run (system cfg) (fun p a => onStep readsAlone p a = true) (Pool.start w) q) :
    releases k q.trace ≤ 1 ∧ confirmed k q.world.payouts ≤ 1 := by
  obtain ⟨φ, -, h⟩ := single_run start run
  have hbacked := h.backed
  have honce := h.once
  omega

def sampleRecord : PaymentRecord where
  id := "payment-1"
  orderId := "order-1"
  escrowId := some "7"
  buyerAddress := "buyer"
  sellerAddress := "merchant"
  amountStroops := 500000000
  status := .funded
  releaseTxHash := none
  refundTxHash := none
  disputeTxHash := none
  releasedAmountStroops := 0
  refundedAmountStroops := 0
  failureReason := none

def sampleWorld : World := ⟨[sampleRecord], []⟩

def sampleSettings : Settings := ⟨.ok ⟨10000, 1000000⟩⟩

def sampleRequest : InitiatePayoutRequest := ⟨"7", "merchant", "operator", none, none⟩

def paysOut (i : Nat) (hash : String) : List (Action (system sampleSettings)) :=
  [.step i {}, .step i {}, .step i { released := ⟨true, hash, 100⟩ }, .step i {}]

/-- The first payout is rejected by the wallet service; the second goes through. When the record has
been set to released, a third call is refused. -/
theorem paid_out_once_retried :
    ∃ q, Run (system sampleSettings) (fun p a => onStep readsAlone p a = true) (Pool.start sampleWorld) q ∧
      confirmed "7" q.world.payouts = 1 ∧ releases "7" q.trace ≤ 1 := by
  obtain ⟨q, hrun, htest⟩ := Run.exists_of_any (Pool.start sampleWorld) (onStep readsAlone)
    (.call (.initiatePayout sampleRequest) :: .step 0 {} :: .step 0 {} ::
      .step 0 { fate := .refused "Wallet service unavailable" } ::
      .call (.orchestratePayout sampleRequest) :: paysOut 1 "tx-1" ++ [.drift ⟨"payment-1", { status := some .released }⟩,
        .call (.initiatePayout sampleRequest), .step 2 {}] : List (Action (system sampleSettings)))
    (fun q => q.quiet && decide (confirmed "7" q.world.payouts = 1)) (by decide)
  simp only [Bool.and_eq_true, decide_eq_true_eq] at htest
  exact ⟨q, hrun, htest.2, (paid_out_once rfl hrun).1⟩

/-- **An escrow is paid out twice.** One payout after the other, by either function: the record is
still in status `funded`, and both releases succeed. -/
theorem escrow_paid_twice : ∃ q, Run (system sampleSettings) (fun _ _ => True) (Pool.start sampleWorld) q ∧
      q.world.records = sampleWorld.records ∧ q.quiet = true ∧
      releases "7" q.trace = 2 ∧ confirmed "7" q.world.payouts = 2 := by
  obtain ⟨q, hrun, htest⟩ := Run.exists_of_any (Pool.start sampleWorld) (fun _ _ => true)
    (.call (.initiatePayout sampleRequest) :: paysOut 0 "tx-1" ++
      .call (.orchestratePayout sampleRequest) :: paysOut 1 "tx-2" : List (Action (system sampleSettings)))
    (fun q => decide (q.world.records = sampleWorld.records ∧ q.quiet = true ∧
      releases "7" q.trace = 2 ∧ confirmed "7" q.world.payouts = 2)) (by decide)
  exact ⟨q, hrun.mono fun _ _ _ => trivial, of_decide_eq_true htest⟩

end Delego.Payouts
