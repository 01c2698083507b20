import Delego.Multisig.Quorum
import Delego.Process.Balance

/-! Executions under calls that interleave.

A call checks the rows that it has loaded, and writes by their identifiers: what another call has written in between is
written over, a proposal is executed by every call that has loaded it as signed, and a call that finds an executed
proposal past its time marks it expired (`executed_twice`). -/
namespace Delego.Multisig
open Delego.Process Delego.Data List Function

def World.Executed (w : World) (id : String) : Prop :=
  ∃ proposal, w.proposal id = some proposal ∧ proposal.status = .executed

/-- How many proposals of a wallet are executed. -/
def World.executedOf (w : World) (walletId : String) : Int :=
  (w.proposals.map fun proposal => if proposal.walletId = walletId ∧ proposal.status = .executed then 1 else 0).sum

/-- The row is written as it was loaded; an executed proposal is not marked expired, and the caller learns that it has
executed one. The nonce is written. -/
def asLoaded (p : MultisigPool) (_ : Nat) (o : Op) (ch : Choice) : Bool :=
  match o with
  | .updateProposal proposal changes =>
    decide (p.world.proposal proposal.id = some proposal) &&
      decide (changes.status = some .expired → proposal.status ≠ .executed) &&
      match ch.fate with
      | .lost _ => decide (changes.status ≠ some .executed)
      | _ => true
  | .updateWallet wallet _ =>
    decide (p.world.wallet wallet.id = some wallet) &&
      match ch.fate with
      | .refused _ => false
      | _ => true
  | _ => true

/-- Signatures are submitted and proposals executed. -/
def signsOrExecutes : Call → Bool
  | .submitSignature .. => true
  | .executeProposal .. => true
  | _ => false

/-! ### Phases of a call -/

/-- What a call has written. -/
inductive Phase where
  | ready
  /-- A proposal of the wallet is executed, and the nonce still to be written. -/
  | executed (walletId : String)
  deriving DecidableEq

/-- What is written of a proposal that was loaded so. -/
structure Legal (proposal : MultiSigProposal) (changes : ProposalUpdate) : Prop where
  keeps : ∀ sig ∈ proposal.signatures, sig ∈ (proposal.apply changes).signatures
  executes : changes.status = some .executed → proposal.status = .signed
  others : changes.status ≠ some .executed → changes.status ≠ some .expired → proposal.status ≠ .executed

variable {proposal : MultiSigProposal} {changes : ProposalUpdate}

theorem Legal.open (h : Legal proposal changes)
    (hexpired : changes.status = some .expired → proposal.status ≠ .executed) : proposal.status ≠ .executed := by
  by_cases hexecutes : changes.status = some .executed
  · rw [h.executes hexecutes]
    exact nofun
  · by_cases hexp : changes.status = some .expired
    · exact hexpired hexp
    · exact h.others hexecutes hexp

theorem Legal.changed {values : ProposalUpdate} (h : Legal proposal values) :
    Legal proposal (values.changed proposal) where
  keeps := by
    rw [apply_changed]
    exact h.keeps
  executes := fun hexec => h.executes (status_changed.mp hexec).1
  others := by
    intro hexec hexp hopen
    by_cases hexecutes : values.status = some .executed
    · rw [h.executes hexecutes] at hopen
      cases hopen
    · by_cases hexpires : values.status = some .expired
      · exact hexp (status_changed.mpr ⟨hexpires, by rw [hopen]; exact nofun⟩)
      · exact h.others hexecutes hexpires hopen

namespace Phase

def next (φ : Phase) : (o : Op) → multisigSignature.Result o → Phase
  | .updateProposal proposal changes, .ok _ => if changes.status = some .executed then .executed proposal.walletId else φ
  | .updateWallet _ _, _ => .ready
  | _, _ => φ

def Allows : Phase → Op → Prop
  | .ready, .updateProposal proposal changes => Legal proposal changes
  | .ready, .createWallet .. => False
  | .ready, .createProposal .. => False
  | .ready, .updateWallet .. => False
  | .ready, _ => True
  | .executed walletId, .updateWallet wallet changes =>
    wallet.id = walletId ∧ changes = { nonce := some (wallet.nonce + 1) }
  | .executed _, _ => False

end Phase

/-- Rows are found by what they are looked up by. -/
def Found : (o : Op) → multisigSignature.Result o → Prop
  | .findWallet id, .ok found => ∀ wallet, found = some wallet → wallet.id = id
  | .findProposal _ walletId, .ok found => ∀ proposal, found = some proposal → proposal.walletId = walletId
  | _, _ => True

def executing : Protocol multisigSignature Phase where
  Allowed := Phase.Allows
  Moves := fun φ o r φ' => Found o r ∧ φ' = φ.next o r
  Ends := fun φ => φ = .ready

section
variable {cfg : Settings} {walletId proposalId : String}

theorem follows_perform_ready {o : Op} {φ : Phase} {Q : Except String o.Reply → Phase → Prop} (ha : φ.Allows o)
    (hm : ∀ r, Found o r → Q r (φ.next o r)) : Follows executing φ (op o) Q := by
  apply follows_perform ha
  rintro r φ' ⟨hfound, rfl⟩
  exact hm r hfound

def Quietly (o : Op) : Prop :=
  match o with
  | .updateProposal proposal changes => Legal proposal changes ∧ changes.status ≠ some .executed
  | .createWallet .. => False
  | .createProposal .. => False
  | .updateWallet .. => False
  | _ => True

variable {α : Type}

theorem follows_quietly {p : MultisigM α} (h : p.Only Quietly) : Follows executing .ready p fun _ φ => φ = .ready := by
  refine follows_of_only h ?_ ?_
  · intro o ho
    cases o with
    | updateProposal proposal changes => exact ho.1
    | createWallet | createProposal | updateWallet => exact absurd ho id
    | _ => trivial
  · rintro o r φ' ho ⟨-, rfl⟩
    cases o with
    | updateProposal proposal changes =>
      cases r with
      | ok _ => exact if_neg ho.2
      | error message => rfl
    | createWallet | createProposal | updateWallet => exact absurd ho id
    | _ => rfl

theorem follows_loadWallet {f : MultiSigWallet → MultisigM α}
    (hf : ∀ wallet, wallet.id = walletId → Follows executing .ready (f wallet) fun _ φ => φ = .ready) :
    Follows executing .ready (findWallet walletId >>= f) fun _ φ => φ = .ready := by
  have hfind : Follows executing .ready (findWallet walletId) fun r φ => φ = .ready ∧
      ∀ wallet, r = .ok wallet → wallet.id = walletId := by
    refine follows_bind (follows_perform_ready trivial (forall_except (fun _ _ => ⟨rfl, nofun⟩) fun found hfound => ?_))
    cases found with
    | none => exact ⟨rfl, nofun⟩
    | some wallet =>
      refine ⟨rfl, ?_⟩
      rintro _ ⟨⟩
      exact hfound wallet rfl
  refine follows_bind (follows_mono hfind ?_)
  rintro r _ ⟨rfl, hid⟩
  cases r with
  | error message => rfl
  | ok wallet => exact hf wallet (hid wallet rfl)

theorem follows_loadProposal {f : MultiSigProposal → MultisigM α}
    (hf : ∀ proposal, proposal.walletId = walletId → Follows executing .ready (f proposal) fun _ φ => φ = .ready) :
    Follows executing .ready (findProposal walletId proposalId >>= f) fun _ φ => φ = .ready := by
  have hfind : Follows executing .ready (findProposal walletId proposalId) fun r φ => φ = .ready ∧
      ∀ proposal, r = .ok proposal → proposal.walletId = walletId := by
    refine follows_bind (follows_perform_ready trivial (forall_except (fun _ _ => ⟨rfl, nofun⟩) fun found hfound => ?_))
    cases found with
    | none => exact ⟨rfl, nofun⟩
    | some proposal =>
      refine ⟨rfl, ?_⟩
      rintro _ ⟨⟩
      exact hfound proposal rfl
  refine follows_bind (follows_mono hfind ?_)
  rintro r _ ⟨rfl, hof⟩
  cases r with
  | error message => rfl
  | ok proposal => exact hf proposal (hof proposal rfl)

theorem follows_time {f : Int → MultisigM α} (hf : ∀ now, Follows executing .ready (f now) fun _ φ => φ = .ready) :
    Follows executing .ready (op .now >>= f) fun _ φ => φ = .ready := by
  exact follows_bind (follows_perform_ready trivial (forall_except (fun _ _ => rfl) fun now _ => hf now))

theorem legal_expired (proposal : MultiSigProposal) : Legal proposal { status := some .expired } where
  keeps := fun _ h => h
  executes := nofun
  others := fun _ h => absurd rfl h

theorem legal_accept (wallet : MultiSigWallet) (req : SubmitSignatureRequest) (now : Int)
    (hpend : proposal.status = .pending) :
    Legal proposal (accept wallet proposal req now) ∧ (accept wallet proposal req now).status ≠ some .executed := by
  have hstat : (accept wallet proposal req now).status ≠ some .executed := by
    simp only [accept]
    split <;> simp
  exact ⟨⟨fun sig hsig => mem_append_left _ hsig, fun hexec => absurd hexec hstat, by simp [hpend]⟩, hstat⟩

theorem only_update {values : ProposalUpdate}
    (h : Legal proposal values ∧ values.status ≠ some .executed) : (proposal.update values).Only Quietly := by
  unfold MultiSigProposal.update
  simp only
  split
  · trivial
  · exact only_perform (S := multisigSignature) ⟨h.1.changed, fun hexec => h.2 (status_changed.mp hexec).1⟩

/-- A signed proposal is executed by a query. -/
theorem update_execution (cfg : Settings) (now : Int) (hsigned : proposal.status = .signed) :
    ((execution cfg proposal now).changed proposal).status = some .executed ∧
      proposal.update (execution cfg proposal now) =
        op (.updateProposal proposal ((execution cfg proposal now).changed proposal)) := by
  have hstat : ((execution cfg proposal now).changed proposal).status = some .executed :=
    status_changed.mpr ⟨rfl, by rw [hsigned]; exact nofun⟩
  refine ⟨hstat, ?_⟩
  unfold MultiSigProposal.update
  simp only
  rw [if_neg]
  intro hnone
  rw [hnone] at hstat
  cases hstat

theorem update_nonce (wallet : MultiSigWallet) : wallet.update { nonce := some (wallet.nonce + 1) } =
    op (.updateWallet wallet { nonce := some (wallet.nonce + 1) }) := by
  have hchanged : WalletUpdate.changed wallet { nonce := some (wallet.nonce + 1) } = { nonce := some (wallet.nonce + 1) } := by
    simp [WalletUpdate.changed, Option.filter]
  unfold MultiSigWallet.update
  simp only
  rw [hchanged, if_neg (by simp)]

theorem follows_submit (req : SubmitSignatureRequest) :
    Follows executing .ready (submitSignature walletId proposalId req) fun _ φ => φ = .ready := by
  refine follows_loadWallet fun wallet _ => follows_loadProposal fun proposal _ => follows_time fun now => ?_
  have hlast : ∀ {o : Op}, Quietly o → (op o).Only Quietly := fun ho => only_perform ho
  split
  · refine follows_quietly (only_bind (only_update ⟨legal_expired proposal, by simp⟩) fun _ => ?_)
    exact only_bind (hlast trivial) fun _ => trivial
  · split
    · rfl
    · rename_i hpend
      split
      · rfl
      · split
        · rfl
        · refine follows_quietly (only_bind (only_update (legal_accept wallet req now (not_not.mp hpend))) fun _ => ?_)
          exact only_bind (hlast trivial) fun _ => hlast trivial

theorem follows_execute (executorAddress : String) :
    Follows executing .ready (executeProposal cfg walletId proposalId executorAddress) fun _ φ => φ = .ready := by
  refine follows_loadWallet fun wallet hid => ?_
  split
  · rfl
  · refine follows_loadProposal fun proposal hof => follows_time fun now => ?_
    have hlast : ∀ {o : Op}, Quietly o → (op o).Only Quietly := fun ho => only_perform ho
    split
    · exact follows_quietly (only_bind (only_update ⟨legal_expired proposal, by simp⟩) fun _ => trivial)
    · split
      · rfl
      · rename_i hsigned
        split
        · rfl
        · have hsigned := not_not.mp hsigned
          obtain ⟨hstat, hexec⟩ := update_execution cfg now hsigned
          have hlegal : Legal proposal (execution cfg proposal now) := ⟨fun _ h => h, fun _ => hsigned, by simp [hsigned]⟩
          rw [hexec, update_nonce]
          refine follows_bind (follows_perform_ready hlegal.changed (forall_except (fun _ _ => rfl) fun _ _ => ?_))
          simp only [Phase.next, hstat, if_true]
          -- the nonce comes next, and nothing else
          exact follows_bind (follows_perform_ready ⟨hid.trans hof.symm, rfl⟩
            (forall_except (fun _ _ => rfl) fun _ _ => follows_quietly (only_bind (hlast trivial) fun _ => hlast trivial)))

theorem follows_signsOrExecutes {call : Call} (h : signsOrExecutes call = true) :
    Follows executing .ready (call.body cfg) fun _ φ => φ = .ready := by
  cases call with
  | submitSignature walletId proposalId req => exact follows_andThen (follows_submit req) fun _ _ h => h
  | executeProposal walletId proposalId executorAddress =>
    exact follows_andThen (follows_execute executorAddress) fun _ _ h => h
  | _ => cases h

end

def World.Signed (w : World) (id : String) (sig : ProposalSignature) : Prop :=
  ∃ proposal, w.proposal id = some proposal ∧ sig ∈ proposal.signatures

/-- Executed proposals stay executed, and signatures stay. -/
structure Kept (w w' : World) : Prop where
  executed : ∀ {id}, w.Executed id → w'.Executed id
  signed : ∀ {id sig}, w.Signed id sig → w'.Signed id sig

theorem Kept.trans {w w' w'' : World} (h : Kept w w') (h' : Kept w' w'') : Kept w w'' where
  executed := fun hexec => h'.executed (h.executed hexec)
  signed := fun hsigned => h'.signed (h.signed hsigned)

section
variable {w : World} {proposal : MultiSigProposal} {changes : ProposalUpdate}

theorem Kept.of_proposals {w' : World} (h : w'.proposals = w.proposals) : Kept w w' := by
  constructor
  · rintro id ⟨row, hrow, hexec⟩
    exact ⟨row, by rw [World.proposal, h]; exact hrow, hexec⟩
  · rintro id sig ⟨row, hrow, hsig⟩
    exact ⟨row, by rw [World.proposal, h]; exact hrow, hsig⟩

theorem kept_updateProposal (h : w.proposal proposal.id = some proposal) (hopen : proposal.status ≠ .executed)
    (hkeeps : ∀ sig ∈ proposal.signatures, sig ∈ (proposal.apply changes).signatures) :
    Kept w (w.updateProposal proposal.id changes) := by
  constructor
  · rintro id ⟨row, hrow, hexec⟩
    by_cases hid : id = proposal.id
    · subst hid
      rw [h] at hrow
      cases hrow
      exact absurd hexec hopen
    · exact ⟨row, by rw [proposal_updateAt, if_neg hid, hrow], hexec⟩
  · rintro id sig ⟨row, hrow, hsig⟩
    by_cases hid : id = proposal.id
    · subst hid
      rw [h] at hrow
      cases hrow
      exact ⟨_, proposal_updated h, hkeeps sig hsig⟩
    · exact ⟨row, by rw [proposal_updateAt, if_neg hid, hrow], hsig⟩

theorem executions_updateProposal (h : w.proposal proposal.id = some proposal) :
    (w.updateProposal proposal.id changes).executions = w.executions ++
      if changes.status = some .executed then [⟨proposal, w.wallet proposal.walletId⟩] else [] := by
  rw [World.updateProposal, World.executes, h]
  rfl

theorem executedOf_updateProposal (hkeyed : Keyed MultiSigProposal.id w.proposals)
    (h : w.proposal proposal.id = some proposal) (hopen : proposal.status ≠ .executed) (walletId : String) :
    (w.updateProposal proposal.id changes).executedOf walletId = w.executedOf walletId +
      if changes.status = some .executed ∧ proposal.walletId = walletId then 1 else 0 := by
  have hsum := sum_update (G := Int) (f := (·.apply changes)) (fun row : MultiSigProposal =>
    if row.walletId = walletId ∧ row.status = .executed then 1 else 0) hkeyed h
  simp only [World.executedOf, World.updateProposal]
  rw [hsum, if_neg fun hnot => hopen hnot.2, sub_zero]
  congr 1
  refine if_congr ?_ rfl rfl
  have hstat : (proposal.apply changes).status = .executed ↔ changes.status = some .executed := by
    cases hchanged : changes.status with
    | none => simp [MultiSigProposal.apply, hchanged, hopen]
    | some status => simp [MultiSigProposal.apply, hchanged]
  rw [hstat]
  exact and_comm

end

def accepted : (o : Op) → multisigSignature.Result o → List (String × ProposalSignature)
  | .updateProposal proposal changes, .ok _ => (changes.signatures.getD []).map fun sig => (proposal.id, sig)
  | _, _ => []

def uncounted (walletId : String) (φ : Phase) : Int := if φ = .executed walletId then 1 else 0

theorem uncounted_ready (walletId : String) : uncounted walletId .ready = 0 := if_neg nofun

/-- What holds from a start in `w₀`. -/
structure Recorded (w₀ w : World) (tr : MultisigTrace) (φ : Nat → Phase) : Prop where
  keyed : Keyed MultiSigProposal.id w.proposals
  kept : Kept w₀ w
  once : (w.executions.map fun e => e.proposal.id).Nodup
  logged : ∀ e ∈ w.executions, w.Executed e.proposal.id ∧ ¬w₀.Executed e.proposal.id
  accepted : ∀ e ∈ tr, ∀ entry ∈ accepted e.op e.result, w.Signed entry.1 entry.2
  counted : ∀ {id wallet}, w.wallet id = some wallet → Balance (uncounted id) φ (w.executedOf id - wallet.nonce)

section
variable {w₀ w : World} {tr : MultisigTrace} {φ : Nat → Phase} {i : Nat}
  {o : Op} {φ' : Phase}

theorem Recorded.same (h : Recorded w₀ w tr φ) {r : multisigSignature.Result o}
    (hphase : ∀ id, uncounted id φ' = uncounted id (φ i)) (hacc : Multisig.accepted o r = []) :
    Recorded w₀ w (⟨i, o, r⟩ :: tr) (update φ i φ') where
  keyed := h.keyed
  kept := h.kept
  once := h.once
  logged := h.logged
  accepted := by
    intro e he entry hentry
    rcases mem_cons.mp he with rfl | he
    · simp only [hacc, not_mem_nil] at hentry
    · exact h.accepted e he entry hentry
  counted := fun hwal => (h.counted hwal).keep (hphase _)

theorem Recorded.updateProposal (h : Recorded w₀ w tr φ)
    (hfound : w.proposal proposal.id = some proposal) (hopen : proposal.status ≠ .executed)
    (hlegal : Legal proposal changes) {r : multisigSignature.Result (.updateProposal proposal changes)}
    (hphase : ∀ id, uncounted id φ' = uncounted id (φ i) +
      if changes.status = some .executed ∧ proposal.walletId = id then 1 else 0) :
    Recorded w₀ (w.updateProposal proposal.id changes) (⟨i, .updateProposal proposal changes, r⟩ :: tr)
      (update φ i φ') := by
  have hkept : Kept w (w.updateProposal proposal.id changes) := kept_updateProposal hfound hopen hlegal.keeps
  have hopen' : ¬w.Executed proposal.id := by
    rintro ⟨row, hrow, hexec⟩
    rw [hfound] at hrow
    cases hrow
    exact hopen hexec
  refine ⟨h.keyed.update fun _ => rfl, h.kept.trans hkept, ?_, ?_, ?_, ?_⟩
  · -- an execution of a proposal that is not yet executed is no earlier one
    rw [executions_updateProposal hfound]
    split
    · rw [map_append, map_singleton, nodup_append]
      refine ⟨h.once, nodup_singleton _, ?_⟩
      rintro id hid _ hid' rfl
      obtain ⟨e, he, rfl⟩ := mem_map.mp hid
      rw [mem_singleton] at hid'
      exact hopen' (hid' ▸ (h.logged e he).1)
    · rw [append_nil]
      exact h.once
  · rw [executions_updateProposal hfound]
    intro e he
    rcases mem_append.mp he with he | he
    · exact ⟨hkept.executed (h.logged e he).1, (h.logged e he).2⟩
    · split at he
      · rename_i hexecutes
        rw [mem_singleton.mp he]
        refine ⟨⟨_, proposal_updated hfound, ?_⟩, fun hpre => hopen' (h.kept.executed hpre)⟩
        simp only [MultiSigProposal.apply, hexecutes, Option.getD_some]
      · exact absurd he not_mem_nil
  · intro e he entry hentry
    rcases mem_cons.mp he with rfl | he
    · cases r with
      | error message => exact absurd hentry not_mem_nil
      | ok _ =>
        obtain ⟨sig, hsig, rfl⟩ := mem_map.mp hentry
        refine ⟨_, proposal_updated hfound, ?_⟩
        cases hsignatures : changes.signatures with
        | none => simp [hsignatures] at hsig
        | some signatures => simpa [MultiSigProposal.apply, hsignatures] using hsig
    · exact hkept.signed (h.accepted e he entry hentry)
  · intro id wallet hwal
    have hbal := (h.counted hwal).update i φ'
    rw [executedOf_updateProposal h.keyed hfound hopen]
    rw [hphase] at hbal
    convert hbal using 1
    omega

theorem Recorded.updateWallet (h : Recorded w₀ w tr φ) {wallet : MultiSigWallet}
    (hfound : w.wallet wallet.id = some wallet) (hphase : φ i = .executed wallet.id)
    {r : multisigSignature.Result (.updateWallet wallet { nonce := some (wallet.nonce + 1) })} :
    Recorded w₀ (w.updateWallet wallet.id { nonce := some (wallet.nonce + 1) })
      (⟨i, .updateWallet wallet { nonce := some (wallet.nonce + 1) }, r⟩ :: tr) (update φ i .ready) where
  keyed := h.keyed
  kept := h.kept.trans (.of_proposals rfl)
  once := h.once
  logged := h.logged
  accepted := by
    intro e he entry hentry
    rcases mem_cons.mp he with rfl | he
    · cases hentry
    · exact h.accepted e he entry hentry
  counted := by
    intro id row hrow
    have hlook : (w.updateWallet wallet.id { nonce := some (wallet.nonce + 1) }).wallet id =
        if id = wallet.id then (w.wallet id).map (·.apply { nonce := some (wallet.nonce + 1) }) else w.wallet id :=
      lookup_update (f := MultiSigWallet.apply _) fun _ => rfl
    rw [hlook] at hrow
    split at hrow
    · rename_i hid
      subst hid
      rw [hfound, Option.map_some] at hrow
      cases hrow
      have hbal := (h.counted hfound).update i .ready
      rw [hphase] at hbal
      convert hbal using 1
      simp only [World.executedOf, World.updateWallet, MultiSigWallet.apply, Option.getD_some, uncounted, if_true]
      simp
      omega
    · rename_i hid
      refine (h.counted hrow).keep ?_
      rw [hphase, uncounted_ready, uncounted, if_neg]
      intro heq
      cases heq
      exact hid rfl

theorem perform_looks (ho : o.looks = true) (ch : Choice) (w : World) : (perform o ch w).2 = w := by
  rcases (fateOf o ch).deliver_cases (answer o ch w) w with
    ⟨message, hd⟩ | ⟨a, w', hans, hd | ⟨message, hd⟩⟩
  · rw [perform, hd]
  · rw [perform, hd]
    exact answer_looks ho hans
  · rw [perform, hd]
    exact answer_looks ho hans

variable {ch : Choice}

theorem Recorded.looks (h : Recorded w₀ w tr φ) (ho : o.looks = true) (hphase : φ' = φ i) :
    Recorded w₀ (perform o ch w).2 (⟨i, o, (perform o ch w).1⟩ :: tr) (update φ i φ') := by
  rw [perform_looks ho]
  refine h.same (fun id => by rw [hphase]) ?_
  cases o with
  | updateProposal proposal changes => cases ho
  | _ => rfl

theorem Recorded.writes (h : Recorded w₀ w tr φ)
    (hready : φ i = .ready) (hlegal : Legal proposal changes) (hfound : w.proposal proposal.id = some proposal)
    (hopen : proposal.status ≠ .executed)
    (hlearns : ∀ message, ch.fate = .lost message → changes.status ≠ some .executed) :
    Recorded w₀ (perform (.updateProposal proposal changes) ch w).2
      (⟨i, .updateProposal proposal changes, (perform (.updateProposal proposal changes) ch w).1⟩ :: tr)
      (update φ i (Phase.next .ready (.updateProposal proposal changes)
        (perform (.updateProposal proposal changes) ch w).1)) := by
  have hzero : ∀ id, uncounted id (φ i) = 0 := fun id => by rw [hready, uncounted_ready]
  cases hfate : ch.fate with
  | done =>
    simp only [perform, fateOf, hfate, answer, Fate.deliver, Fate.carry, Phase.next]
    refine h.updateProposal hfound hopen hlegal ?_
    intro id
    rw [hzero, zero_add]
    by_cases hexecutes : changes.status = some .executed
    · simp [hexecutes, uncounted]
    · simp [hexecutes, uncounted]
  | refused message =>
    simp only [perform, fateOf, hfate, answer, Fate.deliver, Fate.carry, Phase.next]
    exact h.same (fun id => by rw [hready]) rfl
  | lost message =>
    simp only [perform, fateOf, hfate, answer, Fate.deliver, Fate.carry, Phase.next]
    refine h.updateProposal hfound hopen hlegal ?_
    intro id
    rw [hzero, if_neg fun hboth => hlearns message hfate hboth.1]
    rfl

def UpToDate (w : World) (ch : Choice) (o : Op) : Prop :=
  ∀ proposal changes, o = .updateProposal proposal changes →
    w.proposal proposal.id = some proposal ∧ (changes.status = some .expired → proposal.status ≠ .executed) ∧
      ∀ message, ch.fate = .lost message → changes.status ≠ some .executed

def Counts (w : World) (ch : Choice) (o : Op) : Prop :=
  ∀ wallet changes, o = .updateWallet wallet changes →
    w.wallet wallet.id = some wallet ∧ ∀ message, ch.fate ≠ .refused message

theorem kept_step (ha : (φ i).Allows o) (hfound : UpToDate w ch o) : Kept w (perform o ch w).2 := by
  cases o with
  | updateProposal proposal changes =>
    obtain ⟨hrow, hexpired, -⟩ := hfound proposal changes rfl
    have hkept : Kept w (w.updateProposal proposal.id changes) := by
      cases hφ : φ i with
      | ready =>
        rw [hφ] at ha
        exact kept_updateProposal hrow (ha.open hexpired) ha.keeps
      | executed walletId =>
        rw [hφ] at ha
        exact absurd ha id
    cases hfate : ch.fate with
    | refused message =>
      simp only [perform, fateOf, hfate, answer, Fate.deliver, Fate.carry]
      exact .of_proposals rfl
    | _ =>
      simp only [perform, fateOf, hfate, answer, Fate.deliver, Fate.carry]
      exact hkept
  | updateWallet wallet changes =>
    cases hfate : ch.fate with
    | _ =>
      simp only [perform, fateOf, hfate, answer, Fate.deliver, Fate.carry]
      exact .of_proposals rfl
  | createWallet | createProposal =>
    cases hφ : φ i with
    | _ =>
      rw [hφ] at ha
      exact absurd ha id
  | _ => exact .of_proposals (by rw [perform_looks rfl])

theorem Recorded.step (h : Recorded w₀ w tr φ) (ha : (φ i).Allows o) (hfound : UpToDate w ch o)
    (hnonce : Counts w ch o) :
    Recorded w₀ (perform o ch w).2 (⟨i, o, (perform o ch w).1⟩ :: tr)
      (update φ i ((φ i).next o (perform o ch w).1)) := by
  cases hφ : φ i with
  | ready =>
    rw [hφ] at ha
    cases o with
    | updateProposal proposal changes =>
      obtain ⟨hrow, hexpired, hlearns⟩ := hfound proposal changes rfl
      exact h.writes hφ ha hrow (ha.open hexpired) hlearns
    | createWallet | createProposal | updateWallet => exact absurd ha id
    | _ => exact h.looks rfl hφ.symm
  | executed walletId =>
    rw [hφ] at ha
    cases o with
    | updateWallet wallet changes =>
      obtain ⟨rfl, rfl⟩ := ha
      obtain ⟨hrow, hwrit⟩ := hnonce wallet _ rfl
      have hworld : (perform (.updateWallet wallet { nonce := some (wallet.nonce + 1) }) ch w).2 =
          w.updateWallet wallet.id { nonce := some (wallet.nonce + 1) } := by
        cases hfate : ch.fate with
        | refused message => exact absurd hfate (hwrit message)
        | _ => simp only [perform, fateOf, hfate, answer, Fate.deliver, Fate.carry]
      rw [hworld]
      exact h.updateWallet hrow hφ
    | _ => exact absurd ha id

end

/-- Signatures are submitted and proposals executed, rows being written as they were loaded. -/
def careful (cfg : Settings) (p : MultisigPool) (a : Action (system cfg)) : Bool :=
  onStep asLoaded p a && onCall signsOrExecutes a

section
variable {cfg : Settings} {w₀ : World}

theorem found_perform (o : Op) (ch : Choice) (w : World) : Found o (perform o ch w).1 := by
  cases o with
  | findWallet id =>
    cases hfate : ch.fate with
    | done =>
      simp only [perform, fateOf, hfate, answer, Fate.deliver, Fate.carry]
      exact fun wallet hwal => lookup_key hwal
    | refused | lost => simp only [perform, fateOf, hfate, answer, Fate.deliver, Fate.carry, Found]
  | findProposal id walletId =>
    cases hfate : ch.fate with
    | done =>
      simp only [perform, fateOf, hfate, answer, Fate.deliver, Fate.carry]
      exact fun proposal hprop => of_decide_eq_true (Option.filter_eq_some_iff.mp hprop).2
    | refused | lost => simp only [perform, fateOf, hfate, answer, Fate.deliver, Fate.carry, Found]
  | _ => trivial

theorem written {p : MultisigPool} {i : Nat} {o : Op} {ch : Choice}
    (hg : careful cfg p (.step i ch) = true) (hp : p.pending i = some o) :
    UpToDate p.world ch o ∧ Counts p.world ch o := by
  simp only [careful, Bool.and_eq_true] at hg
  have hloaded := onStep_pending hg.1 hp
  constructor
  · rintro proposal changes rfl
    simp only [asLoaded, Bool.and_eq_true, decide_eq_true_eq] at hloaded
    refine ⟨hloaded.1.1, hloaded.1.2, ?_⟩
    intro message hfate
    rw [hfate] at hloaded
    simpa using hloaded.2
  · rintro wallet changes rfl
    simp only [asLoaded, Bool.and_eq_true, decide_eq_true_eq] at hloaded
    refine ⟨hloaded.1, ?_⟩
    intro message hfate
    rw [hfate] at hloaded
    cases hloaded.2

theorem inductive_recorded : Inductive (system cfg) executing .ready (fun p a => careful cfg p a = true)
    (Recorded w₀) where
  body := by
    intro p call hg
    simp only [careful, Bool.and_eq_true, onCall] at hg
    exact follows_signsOrExecutes hg.2
  arrive := by
    intro p φ call w _ ht hw
    cases hw
    exact ht.holds
  drift := fun _ _ e => e.elim
  answers := fun p φ i o ch _ _ _ _ => ⟨_, found_perform o ch p.world, rfl⟩
  step := by
    rintro p φ i o ch _ hg hp ht ha ⟨-, rfl⟩
    exact ht.holds.step ha (written hg hp).1 (written hg hp).2

/-- Nothing that is kept in an earlier state is lost later. -/
theorem inductive_kept (v : World) : Inductive (system cfg) executing .ready (fun p a => careful cfg p a = true)
    fun w tr φ => Recorded w₀ w tr φ ∧ Kept v w := by
  refine inductive_recorded.and (fun _ _ h => h) ?_ (fun _ _ e => e.elim) ?_
  · intro p φ call w _ _ hkept hw
    cases hw
    exact hkept
  · rintro p φ i o ch φ' hg hp ht hkept ha -
    exact hkept.trans (kept_step ha (written hg hp).1)

/-- Before any call: proposals have their own identifiers, and a wallet's nonce is the number of
its executed proposals. -/
structure World.Settled (w : World) : Prop where
  keyed : Keyed MultiSigProposal.id w.proposals
  counted : ∀ wallet, w.wallet wallet.id = some wallet → wallet.nonce = w.executedOf wallet.id
  executions : w.executions = []

theorem World.Settled.recorded (h : w₀.Settled) : Recorded w₀ w₀ [] fun _ => .ready where
  keyed := h.keyed
  kept := .of_proposals rfl
  once := by
    rw [h.executions]
    exact nodup_nil
  logged := by
    rw [h.executions]
    exact fun e he => absurd he not_mem_nil
  accepted := fun e he => absurd he not_mem_nil
  counted := by
    intro id wallet hwal
    obtain rfl : wallet.id = id := lookup_key hwal
    rw [h.counted wallet hwal, sub_self]
    exact balance_zero fun _ => rfl

/-- **Where rows are written as they were loaded, each proposal is executed at most once, no signature is lost, and
the nonce counts the executions.** -/
theorem executed_once {p q : MultisigPool} (hsett : w₀.Settled)
    (hp : Run (system cfg) (fun p a => careful cfg p a = true) (Pool.start w₀) p)
    (hq : Run (system cfg) (fun p a => careful cfg p a = true) p q) :
    (q.world.executions.map fun e => e.proposal.id).Nodup ∧
      (∀ e ∈ q.world.executions, q.world.Executed e.proposal.id ∧ ¬w₀.Executed e.proposal.id) ∧
      (∀ id, p.world.Executed id → q.world.Executed id) ∧
      (∀ e ∈ q.trace, ∀ entry ∈ accepted e.op e.result, q.world.Signed entry.1 entry.2) ∧
      (∀ id sig, p.world.Signed id sig → q.world.Signed id sig) ∧
      (q.quiet = true → ∀ wallet, q.world.wallet wallet.id = some wallet →
        wallet.nonce = q.world.executedOf wallet.id) := by
  obtain ⟨φ, ht⟩ := inductive_recorded.run hp ⟨_, .start hsett.recorded⟩
  obtain ⟨φ', ht'⟩ := (inductive_kept p.world).run hq ⟨φ, ht.mono fun h => ⟨h, .of_proposals rfl⟩⟩
  obtain ⟨hrecd, hkept⟩ := ht'.holds
  refine ⟨hrecd.once, hrecd.logged, fun _ => hkept.executed, hrecd.accepted, fun _ _ => hkept.signed, ?_⟩
  intro hquiet wallet hwal
  -- no call is left that has executed a proposal and not counted it
  have hnone : ∀ j, uncounted wallet.id (φ' j) = 0 := by
    intro j
    rcases ht'.quiet hquiet j with hends | hfresh
    · rw [show φ' j = .ready from hends, uncounted_ready]
    · rw [hfresh, uncounted_ready]
  have hcnt := (hrecd.counted hwal).single 0 fun j _ => hnone j
  rw [hnone] at hcnt
  omega

end

def settled : World := { shared with executions := [] }

theorem settled_settled : settled.Settled where
  keyed := by decide +kernel
  counted := by
    intro wallet hwal
    have hwallets : settled.wallets = [sharedWallet] := by decide +kernel
    have hmem : wallet ∈ settled.wallets := lookup_mem hwal
    rw [hwallets, mem_singleton] at hmem
    subst hmem
    decide +kernel
  executions := rfl

def goes (i steps : Nat) : List (Action (system sampleSettings)) := replicate steps (.step i {})

def signing : List (Action (system sampleSettings)) :=
  .call (signs "proposal-2" "GA") :: goes 0 6 ++ .call (signs "proposal-2" "GB") :: goes 1 6

def executes : Action (system sampleSettings) := .call (.executeProposal "wallet-1" "proposal-2" "GA")

theorem executed_once_signed :
    ∃ p q, Run (system sampleSettings) (fun p a => careful sampleSettings p a = true) (Pool.start settled) p ∧
      Run (system sampleSettings) (fun p a => careful sampleSettings p a = true) p q ∧
      p.world.Signed "proposal-2" ⟨"GA", "signature", 0⟩ ∧ q.world.executions.length = 1 ∧ q.quiet = true ∧
      q.world.Signed "proposal-2" ⟨"GA", "signature", 0⟩ ∧
      (q.world.executions.map fun e => e.proposal.id).Nodup ∧
      ∀ wallet, q.world.wallet wallet.id = some wallet → wallet.nonce = q.world.executedOf wallet.id := by
  obtain ⟨p, hp, hsigned⟩ := Run.exists_of_any (Pool.start settled) (careful sampleSettings) signing
    (fun p : MultisigPool => (p.runWhile (system sampleSettings) (careful sampleSettings) (executes :: goes 2 7)).any
        (fun q : MultisigPool => decide (q.world.executions.length = 1) && q.quiet) &&
      (p.world.proposal "proposal-2").any fun proposal : MultiSigProposal =>
        decide ((⟨"GA", "signature", 0⟩ : ProposalSignature) ∈ proposal.signatures))
    (by decide +kernel)
  simp only [Bool.and_eq_true] at hsigned
  obtain ⟨q, hq, hexec⟩ := Run.exists_of_any p (careful sampleSettings) (executes :: goes 2 7) _ hsigned.1
  simp only [Bool.and_eq_true, decide_eq_true_eq] at hexec
  obtain ⟨proposal, hprop, hsig⟩ := (Option.any_eq_true ..).mp hsigned.2
  have hsig : p.world.Signed "proposal-2" ⟨"GA", "signature", 0⟩ := ⟨proposal, hprop, of_decide_eq_true hsig⟩
  obtain ⟨honce, -, -, -, hkept, hcnt⟩ := executed_once settled_settled hp hq
  exact ⟨p, q, hp, hq, hsig, hexec.1, hexec.2, hkept _ _ hsig, honce, hcnt hexec.2⟩

/-- **A proposal is executed twice.** Both calls load it as signed; each executes it. -/
theorem executed_twice : settled.Settled ∧
      ∃ q, Run (system sampleSettings) (fun _ a => onCall signsOrExecutes a = true) (Pool.start settled) q ∧
        (q.world.executions.map fun e => e.proposal.id) = ["proposal-2", "proposal-2"] ∧ q.quiet = true ∧
        ∃ wallet, q.world.wallet "wallet-1" = some wallet ∧ wallet.nonce = 2 := by
  refine ⟨settled_settled, ?_⟩
  obtain ⟨q, hq, htest⟩ := Run.exists_of_any (Pool.start settled) (fun _ (a : Action (system sampleSettings)) => onCall signsOrExecutes a)
    (signing ++ [executes, executes] ++ goes 2 3 ++ goes 3 3 ++ goes 2 4 ++ goes 3 4)
    (fun q : MultisigPool => decide ((q.world.executions.map fun e => e.proposal.id) = ["proposal-2", "proposal-2"]) && q.quiet &&
      ((q.world.wallet "wallet-1").any fun wallet : MultiSigWallet => decide (wallet.nonce = 2))) (by decide +kernel)
  simp only [Bool.and_eq_true, decide_eq_true_eq] at htest
  obtain ⟨⟨htwice, hquiet⟩, hwal⟩ := htest
  obtain ⟨wallet, hfound, hnonce⟩ := (Option.any_eq_true ..).mp hwal
  exact ⟨q, hq, htwice, hquiet, wallet, hfound, of_decide_eq_true hnonce⟩

end Delego.Multisig
