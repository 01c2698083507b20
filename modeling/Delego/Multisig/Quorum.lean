import Delego.Multisig.Service

/-! Who can operate a wallet, and with what weight.

The threshold is compared with the weights of the signers as they are listed, a signature counts for the first signer of
its address. A wallet that is created with an address listed twice counts it twice in the first sum and once in the
second; weights that are not whole may add up to less in the order of the signatures (`never_signed`). -/
namespace Delego.Multisig
open Delego.Process Delego.Data List

/-- A whole number from 1 on. -/
def Positive (weight : Number) : Prop := ∃ n : Nat, weight = .ofNat n ∧ 1 ≤ n

/-- Different signers, each of some weight, who reach the threshold together; their weights add up to a safe integer. -/
structure MultiSigWallet.WellFormed (wallet : MultiSigWallet) : Prop where
  distinct : (wallet.signers.map MultiSigSigner.address).Nodup
  weights : ∀ s ∈ wallet.signers, Positive s.weight
  safe : (wallet.signers.map fun s => s.weight.value).sum < 2 ^ 53
  positive : 1 ≤ wallet.threshold
  reachable : (wallet.threshold : Rat) ≤ (wallet.signers.map fun s => s.weight.value).sum

def MultiSigWallet.Quorum (wallet : MultiSigWallet) (signatures : List ProposalSignature) : Prop :=
  ∃ addresses : List String, addresses.Nodup ∧
    (∀ a ∈ addresses, a ∈ wallet.signers.map MultiSigSigner.address ∧ a ∈ signatures.map ProposalSignature.signer) ∧
    (wallet.threshold : Rat) ≤ (addresses.map fun a => (wallet.weight a).value).sum

section
variable {wallet : MultiSigWallet} {signatures : List ProposalSignature} {address : String}

theorem signer_mem {s : MultiSigSigner} (h : wallet.signer address = some s) :
    s ∈ wallet.signers ∧ s.address = address := by
  refine ⟨mem_of_find?_eq_some h, ?_⟩
  simpa using find?_some h

theorem signer_none (h : wallet.signer address = none) :
    address ∉ wallet.signers.map MultiSigSigner.address := by
  intro hmem
  obtain ⟨s, hs, rfl⟩ := mem_map.mp hmem
  simpa using find?_eq_none.mp h s hs

theorem MultiSigWallet.WellFormed.weight (h : wallet.WellFormed) (address : String) :
    ∃ n : Nat, wallet.weight address = .ofNat n := by
  unfold MultiSigWallet.weight
  cases hfound : wallet.signer address with
  | none => exact ⟨0, rfl⟩
  | some s =>
    obtain ⟨n, hn, -⟩ := h.weights s (signer_mem hfound).1
    exact ⟨n, hn⟩

theorem MultiSigWallet.WellFormed.signer (h : wallet.WellFormed) {s : MultiSigSigner} (hs : s ∈ wallet.signers) :
    wallet.signer s.address = some s := by
  cases hfound : wallet.signer s.address with
  | none => exact absurd (mem_map_of_mem hs) (signer_none hfound)
  | some s' =>
    obtain ⟨hs', haddress⟩ := signer_mem hfound
    rw [inj_on_of_nodup_map h.distinct hs' hs haddress]

theorem sum_weights_filter (wallet : MultiSigWallet) (addresses : List String) :
    ((addresses.filter fun a => (wallet.signer a).isSome).map fun a => (wallet.weight a).value).sum =
      (addresses.map fun a => (wallet.weight a).value).sum := by
  induction addresses with
  | nil => rfl
  | cons a rest ih =>
    cases hfound : wallet.signer a with
    | none =>
      have hzero : (wallet.weight a).value = 0 := by simp [MultiSigWallet.weight, hfound, Number.value]
      rw [filter_cons_of_neg (by simp [hfound]), ih, map_cons, sum_cons, hzero, zero_add]
    | some s => rw [filter_cons_of_pos (by simp [hfound]), map_cons, map_cons, sum_cons, sum_cons, ih]

theorem MultiSigWallet.WellFormed.sum_weights (h : wallet.WellFormed) :
    ((wallet.signers.map MultiSigSigner.address).map fun a => (wallet.weight a).value).sum =
      (wallet.signers.map fun s => s.weight.value).sum := by
  rw [map_map]
  congr 1
  apply map_congr_left
  intro s hs
  simp [MultiSigWallet.weight, h.signer hs]

/-- Different addresses weigh no more than all signers. -/
theorem MultiSigWallet.WellFormed.sum_le (h : wallet.WellFormed) {addresses : List String} (haddresses : addresses.Nodup) :
    (addresses.map fun a => (wallet.weight a).value).sum ≤ (wallet.signers.map fun s => s.weight.value).sum := by
  have hsubset : addresses.filter (fun a => (wallet.signer a).isSome) ⊆ wallet.signers.map MultiSigSigner.address := by
    intro a ha
    obtain ⟨s, hs⟩ := Option.isSome_iff_exists.mp (mem_filter.mp ha).2
    obtain ⟨hmem, rfl⟩ := signer_mem hs
    exact mem_map_of_mem hmem
  obtain ⟨l, hperm, hsublist⟩ := subperm_of_subset (haddresses.filter _) hsubset
  rw [← sum_weights_filter, ← h.sum_weights, ← (hperm.map _).sum_eq]
  refine (hsublist.map _).sum_le_sum fun q hq => ?_
  obtain ⟨a, -, rfl⟩ := mem_map.mp hq
  obtain ⟨n, hn⟩ := h.weight a
  rw [hn, Number.value_ofNat]
  exact Nat.cast_nonneg n

theorem MultiSigWallet.WellFormed.accumulated (h : wallet.WellFormed)
    (hsigs : (signatures.map ProposalSignature.signer).Nodup) :
    wallet.accumulated signatures = .finite (signatures.map fun sig => (wallet.weight sig.signer).value).sum := by
  refine Number.total_safe (fun sig _ => h.weight sig.signer) (lt_of_le_of_lt ?_ h.safe)
  have hle := h.sum_le hsigs
  rw [map_map] at hle
  exact hle

theorem MultiSigWallet.WellFormed.quorum (h : wallet.WellFormed)
    (hsigs : (signatures.map ProposalSignature.signer).Nodup)
    (henough : (wallet.accumulated signatures).lt (.finite wallet.threshold) = false) : wallet.Quorum signatures := by
  rw [h.accumulated hsigs, Number.lt, decide_eq_false_iff_not, not_lt] at henough
  refine ⟨(signatures.map ProposalSignature.signer).filter fun a => (wallet.signer a).isSome, hsigs.filter _, ?_, ?_⟩
  · intro a ha
    obtain ⟨hsigned, hknown⟩ := mem_filter.mp ha
    obtain ⟨s, hs⟩ := Option.isSome_iff_exists.mp hknown
    obtain ⟨hmem, rfl⟩ := signer_mem hs
    exact ⟨mem_map_of_mem hmem, hsigned⟩
  · rw [sum_weights_filter, map_map]
    exact henough

theorem MultiSigWallet.WellFormed.reaches (h : wallet.WellFormed)
    (hsigs : (signatures.map ProposalSignature.signer).Nodup)
    (hknown : ∀ a ∈ signatures.map ProposalSignature.signer, a ∈ wallet.signers.map MultiSigSigner.address)
    (hall : ∀ s ∈ wallet.signers, s.address ∈ signatures.map ProposalSignature.signer) :
    wallet.reaches (wallet.accumulated signatures) = true := by
  have hperm : (signatures.map ProposalSignature.signer).Perm (wallet.signers.map MultiSigSigner.address) := by
    rw [perm_ext_iff_of_nodup hsigs h.distinct]
    intro a
    refine ⟨hknown a, ?_⟩
    intro ha
    obtain ⟨s, hs, rfl⟩ := mem_map.mp ha
    exact hall s hs
  have hsum : (signatures.map fun sig => (wallet.weight sig.signer).value).sum =
      (wallet.signers.map fun s => s.weight.value).sum := by
    calc (signatures.map fun sig => (wallet.weight sig.signer).value).sum
        = ((signatures.map ProposalSignature.signer).map fun a => (wallet.weight a).value).sum := by
          rw [map_map]
          rfl
      _ = ((wallet.signers.map MultiSigSigner.address).map fun a => (wallet.weight a).value).sum := (hperm.map _).sum_eq
      _ = (wallet.signers.map fun s => s.weight.value).sum := h.sum_weights
  rw [h.accumulated hsigs, hsum]
  exact decide_eq_true h.reachable

end

section
variable {signers : List MultiSigSigner} {req : UpdateSignerRequest} {now : Int}

theorem stored_of_positive {s : MultiSigSigner} (h : Positive s.weight) : s.stored = s := by
  obtain ⟨n, hn, -⟩ := h
  simp only [MultiSigSigner.stored, hn, Number.ofNat, stored]
  rw [← Number.ofNat, ← hn]

theorem map_stored (h : ∀ s ∈ signers, Positive s.weight) : signers.map MultiSigSigner.stored = signers := by
  calc signers.map MultiSigSigner.stored = signers.map id :=
        map_congr_left fun s hs => stored_of_positive (h s hs)
    _ = signers := map_id signers

theorem total_positive {α : Type} {weight : α → Number} {rows : List α} (h : ∀ row ∈ rows, Positive (weight row))
    (hsafe : (rows.map fun row => (weight row).value).sum < 2 ^ 53) :
    Number.total weight rows = .finite (rows.map fun row => (weight row).value).sum := by
  refine Number.total_safe (fun row hrow => ?_) hsafe
  obtain ⟨n, hn, -⟩ := h row hrow
  exact ⟨n, hn⟩

theorem Positive.value_nonneg {weight : Number} (h : Positive weight) : 0 ≤ weight.value := by
  obtain ⟨n, rfl, -⟩ := h
  exact Nat.cast_nonneg n

/-- What adding or removing a signer makes of the list. -/
theorem changeSigners_sound {changed : List MultiSigSigner} (hdist : (signers.map MultiSigSigner.address).Nodup)
    (hweights : ∀ s ∈ signers, Positive s.weight) (hsafe : (signers.map fun s => s.weight.value).sum < 2 ^ 53)
    (hreq : req.action = .add →
      Positive req.weight ∧ (signers.map fun s => s.weight.value).sum + req.weight.value < 2 ^ 53)
    (haction : req.action ≠ .updateWeight) (h : changeSigners signers req now = .ok changed) :
    (changed.map MultiSigSigner.address).Nodup ∧ (∀ s ∈ changed, Positive s.weight) ∧
      (changed.map fun s => s.weight.value).sum < 2 ^ 53 := by
  unfold changeSigners at h
  cases hact : req.action with
  | add =>
    obtain ⟨hpos, hsum⟩ := hreq hact
    simp only [hact] at h
    split at h
    · cases h
    split at h
    · cases h
    rename_i hunknown
    cases h
    refine ⟨?_, ?_, ?_⟩
    · rw [map_append, map_singleton, nodup_append]
      refine ⟨hdist, nodup_singleton _, ?_⟩
      intro a ha b hb hab
      obtain ⟨s, hs, rfl⟩ := mem_map.mp ha
      rw [mem_singleton.mp hb] at hab
      exact hunknown (any_eq_true.mpr ⟨s, hs, decide_eq_true hab⟩)
    · intro s hs
      rcases mem_append.mp hs with hs | hs
      · exact hweights s hs
      · rw [mem_singleton.mp hs]
        exact hpos
    · rw [map_append, sum_append, map_singleton, sum_singleton]
      exact hsum
  | remove =>
    simp only [hact] at h
    split at h
    · cases h
    split at h
    · cases h
    cases h
    refine ⟨hdist.sublist (filter_sublist.map _), ?_, ?_⟩
    · intro s hs
      exact hweights s (mem_filter.mp hs).1
    · refine lt_of_le_of_lt ((filter_sublist.map _).sum_le_sum fun q hq => ?_) hsafe
      obtain ⟨s, hs, rfl⟩ := mem_map.mp hq
      exact (hweights s hs).value_nonneg
  | updateWeight => exact absurd hact haction

variable {changes : WalletUpdate}

theorem MultiSigWallet.WellFormed.change {wallet : MultiSigWallet} {changed : List MultiSigSigner} (h : wallet.WellFormed)
    (hdist : (changed.map MultiSigSigner.address).Nodup) (hweights : ∀ s ∈ changed, Positive s.weight)
    (hsafe : (changed.map fun s => s.weight.value).sum < 2 ^ 53)
    (henough : (Number.total MultiSigSigner.weight changed).lt (.finite wallet.threshold) = false)
    (hchanges : changes.signers = some changed) : (wallet.apply changes).WellFormed := by
  have hsigs : (wallet.apply changes).signers = changed := by
    rw [MultiSigWallet.apply, hchanges]
    exact map_stored hweights
  refine ⟨?_, ?_, ?_, h.positive, ?_⟩
  · rw [hsigs]
    exact hdist
  · rw [hsigs]
    exact hweights
  · rw [hsigs]
    exact hsafe
  · rw [hsigs]
    rw [total_positive hweights hsafe] at henough
    exact not_lt.mp (of_decide_eq_false henough)

theorem MultiSigWallet.WellFormed.keep {wallet : MultiSigWallet} (h : wallet.WellFormed)
    (hchanges : changes.signers = none) : (wallet.apply changes).WellFormed := by
  have hsigs : (wallet.apply changes).signers = wallet.signers := by
    rw [MultiSigWallet.apply, hchanges]
    rfl
  refine ⟨?_, ?_, ?_, h.positive, ?_⟩
  · rw [hsigs]
    exact h.distinct
  · rw [hsigs]
    exact h.weights
  · rw [hsigs]
    exact h.safe
  · rw [hsigs]
    exact h.reachable

end

/-! ### Histories -/

/-- The signers of a new wallet differ, weights are whole, that of a signer who is added not below 1, and the weights of
a wallet add up to a safe integer. -/
def Call.sound (w : World) : Call → Prop
  | .createMultiSigWallet _ req => (req.signers.map SignerRequest.address).Nodup ∧
    (∀ s ∈ req.signers, ∃ n : Int, s.weight = .finite n) ∧ (req.signers.map fun s => s.weight.value).sum < 2 ^ 53
  | .updateSigner walletId req => req.action = .add → Positive req.weight ∧
    ∀ wallet, w.wallet walletId = some wallet →
      (wallet.signers.map fun s => s.weight.value).sum + req.weight.value < 2 ^ 53
  | _ => True

/-- Any operation may fail, or its answer be lost. -/
abbrev does : Effect multisigSignature World := answering fateOf answer

/-- What one sound call can do, however queries end. -/
def Steps (cfg : Settings) (w w' : World) : Prop :=
  ∃ call outcome, Call.sound w call ∧ Ends does (call.body cfg) w outcome w'

/-- Wallets are well formed, and what is executed has its quorum. -/
structure Sound (w : World) : Prop where
  ids : Keyed MultiSigWallet.id w.wallets
  proposalIds : Keyed MultiSigProposal.id w.proposals
  wallets : ∀ wallet ∈ w.wallets, wallet.WellFormed
  signers : ∀ proposal ∈ w.proposals, (proposal.signatures.map ProposalSignature.signer).Nodup
  quorums : ∀ e ∈ w.executions, ∃ wallet, e.wallet = some wallet ∧ wallet.Quorum e.proposal.signatures

section
variable {cfg : Settings} {w w' : World} {α : Type}

def Soundly {α : Type} : Except String α → World → Prop := fun _ w => Sound w

def Op.looks : Op → Bool
  | .createWallet .. => false
  | .updateWallet .. => false
  | .createProposal .. => false
  | .updateProposal .. => false
  | _ => true

variable {o : Op}

theorem answer_looks (ho : o.looks = true) {ch : Choice} {a : o.Reply} (h : answer o ch w = .ok (a, w')) :
    w' = w := by
  cases o with
  | findWallet | findProposal | addAuditLog | now =>
    cases h
    rfl
  | reloadWallet id | reloadProposal id =>
    simp only [answer] at h
    split at h
    · cases h
    · cases h
      rfl
  | _ => cases ho

theorem follows_look {f : o.Reply → MultisigM α} {Q : Except String α → World → Prop} (ho : o.looks = true)
    (herror : ∀ message, Q (.error message) w)
    (hf : ∀ ch a, answer o ch w = .ok (a, w) → Follows (machine does) w (f a) Q) :
    Follows (machine does) w (op o >>= f) Q := by
  refine follows_answered herror ?_ ?_
  · intro message ch a w' hans
    rw [answer_looks ho hans]
    exact herror message
  · intro ch a w' hans
    obtain rfl := answer_looks ho hans
    exact hf ch a hans

theorem follows_finally {f : o.Reply → MultisigM α} (h : Sound w)
    (hsound : ∀ ch a w', answer o ch w = .ok (a, w') → Sound w')
    (hf : ∀ a, (f a).Only fun o : Op => o.looks = true) : Follows (machine does) w (op o >>= f) Soundly := by
  refine follows_answered (fun _ => h) (fun _ ch a w' hans => hsound ch a w' hans) ?_
  intro ch a w' hans
  refine follows_keeping (I := Sound) (hf a) (hsound ch a w' hans) ?_
  intro o ch w a w' ho hw hlook
  exact answer_looks ho hlook ▸ hw

theorem follows_now {f : Int → MultisigM α} (h : Sound w) (hf : ∀ now, Follows (machine does) w (f now) Soundly) :
    Follows (machine does) w (op .now >>= f) Soundly :=
  follows_look rfl (fun _ => h) fun _ now _ => hf now

variable {walletId : String}

theorem follows_findWallet {f : MultiSigWallet → MultisigM α} (h : Sound w)
    (hf : ∀ wallet, w.wallet walletId = some wallet → Follows (machine does) w (f wallet) Soundly) :
    Follows (machine does) w (findWallet walletId >>= f) Soundly := by
  apply follows_bind
  refine follows_look rfl (fun _ => h) ?_
  intro ch found hans
  cases hans
  cases hfound : w.wallet walletId with
  | none => exact h
  | some wallet => exact hf wallet hfound

theorem follows_findProposal {walletId proposalId : String} {f : MultiSigProposal → MultisigM α} (h : Sound w)
    (hf : ∀ proposal, w.proposal proposalId = some proposal → proposal.walletId = walletId →
      Follows (machine does) w (f proposal) Soundly) :
    Follows (machine does) w (findProposal walletId proposalId >>= f) Soundly := by
  apply follows_bind
  refine follows_look rfl (fun _ => h) ?_
  intro ch found hans
  cases hans
  cases hfound : (w.proposal proposalId).filter fun proposal => decide (proposal.walletId = walletId) with
  | none => exact h
  | some proposal =>
    obtain ⟨hprop, hwal⟩ := Option.filter_eq_some_iff.mp hfound
    exact hf proposal hprop (of_decide_eq_true hwal)

variable {wallet : MultiSigWallet}

theorem Sound.updateWallet (h : Sound w)
    (hfound : w.wallet wallet.id = some wallet) (hwf : (wallet.apply changes).WellFormed) :
    Sound (w.updateWallet wallet.id changes) where
  ids := h.ids.update fun _ => rfl
  proposalIds := h.proposalIds
  wallets := by
    intro row hrow
    obtain ⟨before, hpre, rfl⟩ := mem_map.mp hrow
    dsimp only
    split
    · rename_i hid
      rw [h.ids.eq hpre (lookup_mem hfound) hid]
      exact hwf
    · exact h.wallets before hpre
  signers := h.signers
  quorums := h.quorums

variable {proposal : MultiSigProposal} {changes : ProposalUpdate}

theorem Sound.updateProposal (h : Sound w)
    (hfound : w.proposal proposal.id = some proposal)
    (hsigs : ((proposal.apply changes).signatures.map ProposalSignature.signer).Nodup)
    (hquorum : changes.status = some .executed → ∃ wallet, w.wallet proposal.walletId = some wallet ∧
      wallet.Quorum proposal.signatures) : Sound (w.updateProposal proposal.id changes) where
  ids := h.ids
  proposalIds := h.proposalIds.update fun _ => rfl
  wallets := h.wallets
  signers := by
    intro row hrow
    obtain ⟨before, hpre, rfl⟩ := mem_map.mp hrow
    dsimp only
    split
    · rename_i hid
      rw [h.proposalIds.eq hpre (lookup_mem hfound) hid]
      exact hsigs
    · exact h.signers before hpre
  quorums := by
    intro e he
    rcases mem_append.mp he with he | he
    · exact h.quorums e he
    · rw [World.executes, hfound] at he
      split at he
      · rename_i hexec
        rw [Option.toList_some, map_singleton, mem_singleton] at he
        rw [he]
        exact hquorum hexec
      · cases he

theorem Sound.createWallet (h : Sound w) (hnew : w.wallet wallet.id = none)
    (hwf : wallet.WellFormed) : Sound { w with wallets := w.wallets ++ [wallet] } where
  ids := h.ids.append hnew
  proposalIds := h.proposalIds
  wallets := by
    intro row hrow
    rcases mem_append.mp hrow with hrow | hrow
    · exact h.wallets row hrow
    · rw [mem_singleton.mp hrow]
      exact hwf
  signers := h.signers
  quorums := h.quorums

theorem Sound.createProposal (h : Sound w) (hnew : w.proposal proposal.id = none)
    (hempty : proposal.signatures = []) : Sound { w with proposals := w.proposals ++ [proposal] } where
  ids := h.ids
  proposalIds := h.proposalIds.append hnew
  wallets := h.wallets
  signers := by
    intro row hrow
    rcases mem_append.mp hrow with hrow | hrow
    · exact h.signers row hrow
    · rw [mem_singleton.mp hrow, hempty]
      exact nodup_nil
  quorums := h.quorums

theorem only_looks (ho : o.looks = true) : (op o).Only fun o : Op => o.looks = true := only_perform ho

theorem only_logged {walletId eventType performedBy : String} (ho : o.looks = true) :
    (op (.addAuditLog walletId eventType performedBy) >>= fun _ => op o).Only fun o : Op => o.looks = true :=
  only_bind (only_looks rfl) fun _ => only_looks ho

variable {values : ProposalUpdate}

theorem apply_changed : proposal.apply (values.changed proposal) = proposal.apply values := by
  have hfilter : ∀ {α : Type} [DecidableEq α] (value : Option α) (before : α),
      (value.filter fun a => decide (a ≠ before)).getD before = value.getD before := by
    intro α _ value before
    cases value with
    | none => rfl
    | some a => by_cases ha : a = before <;> simp [Option.filter, ha]
  have hor : ∀ {α : Type} [DecidableEq α] (value before : Option α),
      (value.filter fun a => decide (some a ≠ before)).or before = value.or before := by
    intro α _ value before
    cases value with
    | none => rfl
    | some a => by_cases ha : some a = before <;> simp [Option.filter, ha]
  simp only [MultiSigProposal.apply, ProposalUpdate.changed, hfilter, hor]

theorem status_changed {status : ProposalStatus} :
    (values.changed proposal).status = some status ↔ values.status = some status ∧ status ≠ proposal.status := by
  simp [ProposalUpdate.changed, Option.filter_eq_some_iff]

theorem follows_looks {p : MultisigM α} (hp : p.Only fun o : Op => o.looks = true) (h : Sound w) :
    Follows (machine does) w p Soundly := by
  refine follows_keeping (I := Sound) hp h ?_
  intro o ch w a w' ho hw hlook
  exact answer_looks ho hlook ▸ hw

/-- An instance of a wallet is written: a step, or nothing where no field differs. -/
theorem follows_updateWallet {holder : MultiSigWallet} {values : WalletUpdate} {f : Unit → MultisigM α} (h : Sound w)
    (hfound : w.wallet wallet.id = some wallet) (hid : holder.id = wallet.id)
    (hwf : values.changed holder ≠ {} → (wallet.apply (values.changed holder)).WellFormed)
    (hf : ∀ a, (f a).Only fun o : Op => o.looks = true) :
    Follows (machine does) w (holder.update values >>= f) Soundly := by
  unfold MultiSigWallet.update
  simp only
  split
  · exact follows_looks (hf ()) h
  · rename_i hchanged
    refine follows_finally h ?_ hf
    intro ch _ w' hans
    cases hans
    rw [hid]
    exact h.updateWallet hfound (hwf hchanged)

theorem follows_updateProposal {f : Unit → MultisigM α} (h : Sound w)
    (hfound : w.proposal proposal.id = some proposal)
    (hsigs : ((proposal.apply values).signatures.map ProposalSignature.signer).Nodup)
    (hquorum : values.status = some .executed → ∃ wallet, w.wallet proposal.walletId = some wallet ∧
      wallet.Quorum proposal.signatures)
    (hf : ∀ w', Sound w' → w'.wallets = w.wallets → Follows (machine does) w' (f ()) Soundly) :
    Follows (machine does) w (proposal.update values >>= f) Soundly := by
  have hwritten : Sound (w.updateProposal proposal.id (values.changed proposal)) := by
    refine h.updateProposal hfound ?_ fun hexec => hquorum (status_changed.mp hexec).1
    rw [apply_changed]
    exact hsigs
  unfold MultiSigProposal.update
  simp only
  split
  · exact hf w h rfl
  · refine follows_answered (fun _ => h) ?_ ?_
    · intro message ch _ w' hans
      cases hans
      exact hwritten
    · intro ch _ w' hans
      cases hans
      exact hf _ hwritten rfl

variable {id : String}

theorem wellFormed_created {req : CreateMultiSigWalletRequest} {threshold now time : Int}
    (hdist : (req.signers.map SignerRequest.address).Nodup)
    (hwhole : ∀ s ∈ req.signers, ∃ n : Int, s.weight = .finite n)
    (hsafe : (req.signers.map fun s => s.weight.value).sum < 2 ^ 53)
    (hchk : req.signers.findSome? checkSigner = none) (hthr : req.threshold.integer = some threshold)
    (hrange : (req.threshold.lt (.finite 1) || (Number.total SignerRequest.weight req.signers).lt req.threshold) = false) :
    MultiSigWallet.WellFormed
      { id := id, address := address
        signers := (req.signers.map fun signer => ⟨signer.address, signer.weight, now⟩).map MultiSigSigner.stored
        threshold := threshold, nonce := 0, paused := false
        createdAt := time } := by
  have hpos : ∀ s ∈ req.signers, Positive s.weight := by
    intro s hs
    have hcheck := findSome?_eq_none_iff.mp hchk s hs
    obtain ⟨n, hn⟩ := hwhole s hs
    unfold checkSigner at hcheck
    have hone : 1 ≤ n := by
      by_contra hless
      have hlt : s.weight.lt (.finite 1) = true := by
        rw [hn]
        exact decide_eq_true (by exact_mod_cast not_le.mp hless)
      simp only [hlt, if_true] at hcheck
      split at hcheck <;> cases hcheck
    refine ⟨n.toNat, ?_, by omega⟩
    rw [hn, Number.ofNat]
    congr 1
    exact_mod_cast (Int.toNat_of_nonneg (by omega : 0 ≤ n)).symm
  have hstore : (req.signers.map fun signer => (⟨signer.address, signer.weight, now⟩ : MultiSigSigner)).map
      MultiSigSigner.stored = req.signers.map fun signer => ⟨signer.address, signer.weight, now⟩ := by
    apply map_stored
    intro s hs
    obtain ⟨signer, hsigner, rfl⟩ := mem_map.mp hs
    exact hpos signer hsigner
  obtain ⟨hlow, hhigh⟩ := Bool.or_eq_false_iff.mp hrange
  have htotal : Number.total SignerRequest.weight req.signers =
      .finite (req.signers.map fun s => s.weight.value).sum := total_positive hpos hsafe
  obtain ⟨q, hq, hint, rfl⟩ : ∃ q : Rat, req.threshold = .finite q ∧ q.isInt = true ∧ q.num = threshold := by
    cases hq : req.threshold with
    | finite q =>
      simp only [hq, Number.integer] at hthr
      split at hthr
      · rename_i hint
        exact ⟨q, rfl, hint.1, Option.some.inj hthr⟩
      · cases hthr
    | nan | infinity | negInfinity =>
      rw [hq] at hthr
      cases hthr
  rw [hq] at hlow hhigh
  rw [htotal] at hhigh
  refine ⟨?_, ?_, ?_, ?_, ?_⟩
  · rw [hstore, map_map]
    exact hdist
  · rw [hstore]
    intro s hs
    obtain ⟨signer, hsigner, rfl⟩ := mem_map.mp hs
    exact hpos signer hsigner
  · rw [hstore, map_map]
    exact hsafe
  · exact one_le_num hint (not_lt.mp (of_decide_eq_false hlow))
  · rw [hstore, map_map, num_eq hint]
    exact not_lt.mp (of_decide_eq_false hhigh)

theorem follows_createMultiSigWallet {req : CreateMultiSigWalletRequest} (h : Sound w)
    (hsound : Call.sound w (.createMultiSigWallet id req)) :
    Follows (machine does) w (createMultiSigWallet cfg id req) Soundly := by
  unfold createMultiSigWallet
  split
  · exact h
  · split
    · exact h
    · rename_i hchk
      simp only
      split
      · exact h
      · rename_i hrange
        refine follows_now h fun now => ?_
        refine follows_finally h ?_ fun _ => only_bind (only_looks rfl) fun _ => trivial
        intro ch wallet w' hans
        simp only [answer] at hans
        split at hans
        · cases hans
        · rename_i threshold hthr
          split at hans
          · cases hans
          · rename_i hnew
            cases hans
            refine h.createWallet ?_ (wellFormed_created hsound.1 hsound.2.1 hsound.2.2 hchk hthr (by simpa using hrange))
            rw [Bool.or_eq_true, not_or] at hnew
            simpa using hnew.1

theorem follows_createProposal {req : CreateProposalRequest} (h : Sound w) :
    Follows (machine does) w (createProposal id walletId req) Soundly := by
  refine follows_findWallet h fun wallet _ => ?_
  split
  · exact h
  · split
    · exact h
    · refine follows_now h fun now => ?_
      simp only
      split
      · exact h
      · refine follows_finally h ?_ fun _ => only_bind (only_looks rfl) fun _ => trivial
        intro ch proposal w' hans
        simp only [answer] at hans
        split at hans
        · cases hans
        · rename_i hnew
          cases hans
          exact h.createProposal (by simpa using hnew) rfl

theorem follows_submitSignature {walletId proposalId : String} {req : SubmitSignatureRequest} (h : Sound w) :
    Follows (machine does) w (submitSignature walletId proposalId req) Soundly := by
  refine follows_findWallet h fun wallet _ => follows_findProposal h fun proposal hprop _ => ?_
  have hfound : w.proposal proposal.id = some proposal := by
    rw [lookup_key hprop]
    exact hprop
  have hsigs := h.signers proposal (lookup_mem hprop)
  refine follows_now h fun now => ?_
  split
  · refine follows_updateProposal h hfound hsigs nofun fun w' hw _ => ?_
    exact follows_looks (only_bind (only_looks rfl) fun _ => trivial) hw
  · split
    · exact h
    · split
      · exact h
      · split
        · exact h
        · rename_i hnew
          refine follows_updateProposal h hfound ?_ ?_ fun w' hw _ => ?_
          · simp only [MultiSigProposal.apply, accept, Option.getD_some, map_append, map_singleton]
            rw [nodup_append]
            refine ⟨hsigs, nodup_singleton _, ?_⟩
            intro a ha b hb hab
            obtain ⟨sig, hsig, rfl⟩ := mem_map.mp ha
            rw [mem_singleton.mp hb] at hab
            exact hnew (any_eq_true.mpr ⟨sig, hsig, decide_eq_true hab⟩)
          · intro hexec
            simp only [accept, Option.some.injEq] at hexec
            split at hexec <;> cases hexec
          · exact follows_looks (only_logged rfl) hw

theorem follows_executeProposal {walletId proposalId executorAddress : String} (h : Sound w) :
    Follows (machine does) w (executeProposal cfg walletId proposalId executorAddress) Soundly := by
  refine follows_findWallet h fun wallet hwal => ?_
  have hwf := h.wallets wallet (lookup_mem hwal)
  split
  · exact h
  · refine follows_findProposal h fun proposal hprop hof => ?_
    have hfound : w.proposal proposal.id = some proposal := by
      rw [lookup_key hprop]
      exact hprop
    have hsigs := h.signers proposal (lookup_mem hprop)
    refine follows_now h fun now => ?_
    split
    · exact follows_updateProposal h hfound hsigs nofun fun w' hw _ => hw
    · split
      · exact h
      · split
        · exact h
        · rename_i henough
          have hquorum : wallet.Quorum proposal.signatures := hwf.quorum hsigs (by simpa using henough)
          refine follows_updateProposal h hfound hsigs (fun _ => ⟨wallet, by rw [hof, hwal], hquorum⟩) ?_
          intro w' hw hsame
          have hwal' : w'.wallet wallet.id = some wallet := by
            rw [World.wallet, hsame, lookup_key hwal]
            exact hwal
          exact follows_updateWallet hw hwal' rfl (fun _ => hwf.keep rfl) fun _ => only_logged rfl

theorem follows_updateSigner {req : UpdateSignerRequest} (h : Sound w)
    (hsound : Call.sound w (.updateSigner walletId req)) :
    Follows (machine does) w (updateSigner cfg walletId req) Soundly := by
  refine follows_findWallet h fun wallet hwal => follows_now h fun now => ?_
  have hwf := h.wallets wallet (lookup_mem hwal)
  split
  · exact h
  · rename_i signers hchanged
    simp only
    split
    · exact h
    · rename_i henough
      have hrow : w.wallet wallet.id = some wallet := by
        rw [lookup_key hwal]
        exact hwal
      have hlog : ∀ _ : Unit, (op (.addAuditLog walletId "SIGNER_UPDATED" req.proposedBy) >>= fun _ =>
          op (.reloadWallet walletId)).Only fun o : Op => o.looks = true := fun _ => only_logged rfl
      by_cases haction : req.action = .updateWeight
      · -- the instance has the weight already, and nothing is written
        have hholder : req.holder wallet signers = { wallet with signers := signers } := by
          rw [UpdateSignerRequest.holder, haction]
        rw [hholder]
        exact follows_updateWallet h hrow rfl (fun hchanged => absurd (by simp [WalletUpdate.changed]) hchanged) hlog
      · have hholder : req.holder wallet signers = wallet := by
          unfold UpdateSignerRequest.holder
          split
          · rename_i hweight
            exact absurd hweight haction
          · rfl
        rw [hholder]
        obtain ⟨hdist, hweights, hsafe⟩ := changeSigners_sound hwf.distinct hwf.weights hwf.safe
          (fun hadd => ⟨(hsound hadd).1, (hsound hadd).2 wallet hwal⟩) haction hchanged
        refine follows_updateWallet h hrow rfl (fun _ => ?_) hlog
        by_cases hsame : signers = wallet.signers
        · exact hwf.keep (by simp [WalletUpdate.changed, hsame])
        · exact hwf.change hdist hweights hsafe (by simpa using henough) (by simp [WalletUpdate.changed, hsame])

theorem follows_setPaused {walletId performedBy eventType : String} {paused : Bool} (h : Sound w)
    (hwal : w.wallet walletId = some wallet) :
    Follows (machine does) w (do
      wallet.update { paused := some paused }
      op (.addAuditLog walletId eventType performedBy)
      op (.reloadWallet walletId)) Soundly := by
  have hwf := h.wallets wallet (lookup_mem hwal)
  refine follows_updateWallet h ?_ rfl (fun _ => hwf.keep rfl) fun _ => only_logged rfl
  rw [lookup_key hwal]
  exact hwal

theorem follows_body {call : Call} (h : Sound w) (hsound : Call.sound w call) :
    Follows (machine does) w (call.body cfg) Soundly := by
  have hreturn : ∀ {β : Type} {p : MultisigM β}, Follows (machine does) w p Soundly →
      Follows (machine does) w (p >>= fun _ => (.ret () : MultisigM Unit)) Soundly :=
    fun hp => follows_andThen (I := Sound) hp fun _ _ hw => hw
  cases call with
  | createMultiSigWallet id req => exact hreturn (follows_createMultiSigWallet h hsound)
  | createProposal id walletId req => exact hreturn (follows_createProposal h)
  | submitSignature walletId proposalId req => exact hreturn (follows_submitSignature h)
  | executeProposal walletId proposalId executorAddress => exact hreturn (follows_executeProposal h)
  | updateSigner walletId req => exact hreturn (follows_updateSigner h hsound)
  | pauseWallet walletId performedBy =>
    refine hreturn (follows_findWallet h fun wallet hwal => ?_)
    split
    · exact h
    · exact follows_setPaused h hwal
  | unpauseWallet walletId performedBy =>
    refine hreturn (follows_findWallet h fun wallet hwal => ?_)
    split
    · exact h
    · exact follows_setPaused h hwal

theorem Sound.steps (h : Sound w) (hsteps : Relation.ReflTransGen (Steps cfg) w w') : Sound w' := by
  induction hsteps with
  | refl => exact h
  | tail _ hstep ih =>
    obtain ⟨call, outcome, hsound, hends⟩ := hstep
    exact (follows_body ih hsound).ends hends

end

/-! ### All signers sign -/

def runAt (time : Int) (o : Op) (w : World) : multisigSignature.Result o × World := perform o { time := time } w

/-- Signatures are submitted one after the other, each at its time; a call that throws is over. -/
def submitAll (walletId proposalId : String) : List (SubmitSignatureRequest × Int) → World → World
  | [], w => w
  | (req, time) :: rest, w =>
    submitAll walletId proposalId rest ((submitSignature walletId proposalId req).alone (runAt time) w).2

section
variable {w : World} {wallet : MultiSigWallet} {proposal : MultiSigProposal} {walletId proposalId : String}
  {req : SubmitSignatureRequest} {time : Int}

def accepts (wallet : MultiSigWallet) (proposal : MultiSigProposal) (req : SubmitSignatureRequest) : Bool :=
  decide (proposal.status = .pending) && (wallet.signer req.signer).isSome &&
    !proposal.signatures.any fun s => decide (s.signer = req.signer)

theorem alone_op {o : Op} {a : o.Reply} {w' : World} {α : Type} (h : perform o { time := time } w = (.ok a, w'))
    (f : o.Reply → MultisigM α) : (op o >>= f).alone (runAt time) w = (f a).alone (runAt time) w' := by
  have hperf : (op o).alone (runAt time) w = (.ok a, w') := (Program.alone_perform (S := multisigSignature) (runAt time) o w).trans h
  exact Program.alone_bind_ok hperf f

theorem alone_reloadProposal (id : String) : ((op (.reloadProposal id)).alone (runAt time) w).2 = w := by
  refine (congrArg Prod.snd (Program.alone_perform (S := multisigSignature) (runAt time) (.reloadProposal id) w)).trans ?_
  simp only [runAt, perform, answer]
  cases w.proposal id with
  | none => rfl
  | some proposal => rfl

/-- The signatures differ, so a query is made. -/
theorem update_accept (wallet : MultiSigWallet) (proposal : MultiSigProposal) (req : SubmitSignatureRequest) (now : Int) :
    proposal.update (accept wallet proposal req now) =
      op (.updateProposal proposal ((accept wallet proposal req now).changed proposal)) := by
  have hchanged : (accept wallet proposal req now).changed proposal ≠ {} := by
    simp [ProposalUpdate.changed, accept, Option.filter]
  unfold MultiSigProposal.update
  simp only
  rw [if_neg hchanged]

theorem alone_submitSignature (hwal : w.wallet walletId = some wallet)
    (hprop : w.proposal proposalId = some proposal) (hof : proposal.walletId = walletId)
    (htime : time < proposal.expiresAt) :
    ((submitSignature walletId proposalId req).alone (runAt time) w).2 =
      if accepts wallet proposal req then
        w.updateProposal proposal.id ((accept wallet proposal req time).changed proposal)
      else w := by
  have hfindWallet : (findWallet walletId).alone (runAt time) w = (.ok wallet, w) := by
    refine (alone_op (a := w.wallet walletId) rfl _).trans ?_
    rw [hwal]
    rfl
  have hfindProposal : (findProposal walletId proposalId).alone (runAt time) w = (.ok proposal, w) := by
    refine (alone_op (a := (w.proposal proposalId).filter fun p => decide (p.walletId = walletId)) rfl _).trans ?_
    rw [hprop, Option.filter_some, if_pos (decide_eq_true hof)]
    rfl
  unfold submitSignature accepts
  rw [Program.alone_bind_ok hfindWallet, Program.alone_bind_ok hfindProposal, alone_op (a := time) rfl,
    if_neg (not_le.mpr htime)]
  by_cases hpend : proposal.status = .pending
  · rw [if_neg (not_not.mpr hpend)]
    cases hsigner : wallet.signer req.signer with
    | none => simp [Program.alone]
    | some s =>
      cases hsigned : proposal.signatures.any fun s => decide (s.signer = req.signer) with
      | true => simp [Program.alone]
      | false =>
        rw [if_neg (by simp), if_neg (by simp), update_accept, alone_op (a := ()) rfl, alone_op (a := ()) rfl]
        simp only [hpend, decide_true, Option.isSome_some, Bool.not_false, Bool.and_self, if_true]
        exact alone_reloadProposal _
  · simp [hpend, Program.alone]

/-- A proposal on its way: signed, or signed by those of the wallet who have tried, and below the
threshold. -/
structure Collecting (wallet : MultiSigWallet) (tried : List String) (proposal : MultiSigProposal) : Prop where
  pending : proposal.status = .pending
  distinct : (proposal.signatures.map ProposalSignature.signer).Nodup
  known : ∀ a ∈ proposal.signatures.map ProposalSignature.signer, a ∈ wallet.signers.map MultiSigSigner.address
  tried : ∀ a ∈ tried, a ∈ wallet.signers.map MultiSigSigner.address → a ∈ proposal.signatures.map ProposalSignature.signer
  below : wallet.reaches (wallet.accumulated proposal.signatures) = false

variable {tried : List String}

theorem Collecting.attempt (req : SubmitSignatureRequest) (time : Int) (h : Collecting wallet tried proposal) :
    if accepts wallet proposal req then
      (proposal.apply (accept wallet proposal req time)).status = .signed ∨
        Collecting wallet (req.signer :: tried) (proposal.apply (accept wallet proposal req time))
    else Collecting wallet (req.signer :: tried) proposal := by
  have hsigs : ((proposal.apply (accept wallet proposal req time)).signatures.map ProposalSignature.signer) =
      proposal.signatures.map ProposalSignature.signer ++ [req.signer] := by
    simp [MultiSigProposal.apply, accept]
  split
  · rename_i haccepts
    simp only [accepts, Bool.and_eq_true, Bool.not_eq_true', decide_eq_true_eq] at haccepts
    obtain ⟨⟨-, hsigner⟩, hnew⟩ := haccepts
    obtain ⟨s, hs⟩ := Option.isSome_iff_exists.mp hsigner
    obtain ⟨hmem, haddress⟩ := signer_mem hs
    have hfresh : req.signer ∉ proposal.signatures.map ProposalSignature.signer := by
      intro hsigned
      obtain ⟨sig, hsig, heq⟩ := mem_map.mp hsigned
      have hany : proposal.signatures.any (fun s => decide (s.signer = req.signer)) = true :=
        any_eq_true.mpr ⟨sig, hsig, decide_eq_true heq⟩
      simp [hnew] at hany
    cases hreaches : wallet.reaches (wallet.accumulated (proposal.signatures ++ [⟨req.signer, req.signature, time⟩])) with
    | true =>
      left
      simp [MultiSigProposal.apply, accept, hreaches]
    | false =>
      right
      refine ⟨by simp [MultiSigProposal.apply, accept, hreaches], ?_, ?_, ?_, hreaches⟩
      · rw [hsigs, nodup_append]
        refine ⟨h.distinct, nodup_singleton _, ?_⟩
        intro a ha b hb hab
        rw [mem_singleton.mp hb] at hab
        exact hfresh (hab ▸ ha)
      · rw [hsigs]
        intro a ha
        rcases mem_append.mp ha with ha | ha
        · exact h.known a ha
        · rw [mem_singleton.mp ha, ← haddress]
          exact mem_map_of_mem hmem
      · rw [hsigs]
        intro a ha hknown
        rcases mem_cons.mp ha with rfl | ha
        · exact mem_append_right _ mem_cons_self
        · exact mem_append_left _ (h.tried a ha hknown)
  · rename_i hrejects
    refine ⟨h.pending, h.distinct, h.known, ?_, h.below⟩
    intro a ha hknown
    rcases mem_cons.mp ha with rfl | ha
    · by_contra hunsigned
      apply hrejects
      simp only [accepts, h.pending, decide_true, Bool.true_and, Bool.and_eq_true, Bool.not_eq_true']
      refine ⟨?_, ?_⟩
      · cases hsigner : wallet.signer req.signer with
        | none => exact absurd hknown (signer_none hsigner)
        | some s => rfl
      · rw [any_eq_false]
        intro sig hsig heq
        exact hunsigned (mem_map.mpr ⟨sig, hsig, of_decide_eq_true heq⟩)
    · exact h.tried a ha hknown

theorem proposal_updateAt (id id' : String) : (w.updateProposal id changes).proposal id' =
    if id' = id then (w.proposal id').map (·.apply changes) else w.proposal id' :=
  lookup_update (f := MultiSigProposal.apply changes) fun _ => rfl

theorem proposal_updated (h : w.proposal proposal.id = some proposal) :
    (w.updateProposal proposal.id changes).proposal proposal.id = some (proposal.apply changes) := by
  rw [proposal_updateAt, if_pos rfl, h, Option.map_some]

def Underway (wallet : MultiSigWallet) (walletId proposalId : String) (expiresAt : Int) (tried : List String) (w : World) :
    Prop :=
  w.wallet walletId = some wallet ∧ ∃ proposal, w.proposal proposalId = some proposal ∧ proposal.walletId = walletId ∧
    proposal.expiresAt = expiresAt ∧ (proposal.status = .signed ∨ Collecting wallet tried proposal)

theorem Underway.submit {expiresAt : Int} (h : Underway wallet walletId proposalId expiresAt tried w)
    (htime : time < expiresAt) :
    Underway wallet walletId proposalId expiresAt (req.signer :: tried)
      ((submitSignature walletId proposalId req).alone (runAt time) w).2 := by
  obtain ⟨hwal, proposal, hprop, hof, rfl, hprogress⟩ := h
  rw [alone_submitSignature hwal hprop hof htime]
  obtain rfl : proposal.id = proposalId := lookup_key hprop
  rcases hprogress with hsigned | hcoll
  · have hrejects : accepts wallet proposal req = false := by simp [accepts, hsigned]
    rw [hrejects]
    exact ⟨hwal, proposal, hprop, hof, rfl, .inl hsigned⟩
  · have hattempt := hcoll.attempt req time
    split at hattempt
    · rename_i haccepts
      rw [if_pos haccepts]
      exact ⟨hwal, proposal.apply (accept wallet proposal req time),
        (proposal_updated hprop).trans (congrArg some apply_changed), hof, rfl, hattempt⟩
    · rename_i hrejects
      rw [if_neg hrejects]
      exact ⟨hwal, proposal, hprop, hof, rfl, .inr hattempt⟩

theorem Underway.submitAll {expiresAt : Int} {submissions : List (SubmitSignatureRequest × Int)}
    (h : Underway wallet walletId proposalId expiresAt tried w) (htimes : ∀ e ∈ submissions, e.2 < expiresAt) :
    ∃ tried', Underway wallet walletId proposalId expiresAt tried' (submitAll walletId proposalId submissions w) ∧
      (∀ e ∈ submissions, e.1.signer ∈ tried') ∧ ∀ a ∈ tried, a ∈ tried' := by
  induction submissions generalizing tried w with
  | nil => exact ⟨tried, h, fun _ he => absurd he not_mem_nil, fun _ ha => ha⟩
  | cons e rest ih =>
    obtain ⟨req, time⟩ := e
    obtain ⟨tried', hafter, hrest, hkept⟩ := ih (h.submit (htimes _ mem_cons_self))
      fun e' he' => htimes e' (mem_cons_of_mem _ he')
    refine ⟨tried', hafter, ?_, fun a ha => hkept a (mem_cons_of_mem _ ha)⟩
    intro e' he'
    rcases mem_cons.mp he' with rfl | he'
    · exact hkept _ mem_cons_self
    · exact hrest e' he'

def MultiSigProposal.Fresh (proposal : MultiSigProposal) (walletId : String) : Prop :=
  proposal.walletId = walletId ∧ proposal.status = .pending ∧ proposal.signatures = []

theorem signed_by_all (hwf : wallet.WellFormed) (hwal : w.wallet walletId = some wallet)
    (hprop : w.proposal proposalId = some proposal) (hfresh : proposal.Fresh walletId)
    {submissions : List (SubmitSignatureRequest × Int)} (htimes : ∀ e ∈ submissions, e.2 < proposal.expiresAt)
    (hall : ∀ s ∈ wallet.signers, s.address ∈ submissions.map fun e => e.1.signer) :
    ((submitAll walletId proposalId submissions w).proposal proposalId).map MultiSigProposal.status = some .signed := by
  obtain ⟨hof, hpend, hempty⟩ := hfresh
  have hpos := hwf.positive
  have hbelow : wallet.reaches (wallet.accumulated []) = false := by
    rw [show wallet.accumulated [] = .finite 0 from rfl]
    have hzero : (0 : Rat) < wallet.threshold := by exact_mod_cast lt_of_lt_of_le zero_lt_one hpos
    exact decide_eq_false (not_le.mpr hzero)
  have hstart : Underway wallet walletId proposalId proposal.expiresAt [] w := by
    refine ⟨hwal, proposal, hprop, hof, rfl, .inr ⟨hpend, ?_, ?_, fun _ ha => absurd ha not_mem_nil, ?_⟩⟩
    · rw [hempty]
      exact nodup_nil
    · rw [hempty]
      exact fun _ ha => absurd ha not_mem_nil
    · rw [hempty]
      exact hbelow
  obtain ⟨tried, ⟨-, final, hfinal, -, -, hprogress⟩, htried, -⟩ := hstart.submitAll htimes
  rw [hfinal, Option.map_some]
  rcases hprogress with hsigned | hcoll
  · rw [hsigned]
  · -- all of them have signed, and yet the threshold is not reached
    have hreaches := hwf.reaches hcoll.distinct hcoll.known (by
      intro s hs
      obtain ⟨e, he, heq⟩ := mem_map.mp (hall s hs)
      exact hcoll.tried _ (heq ▸ htried e he) (mem_map_of_mem hs))
    simp [hcoll.below] at hreaches

end

def World.empty : World := ⟨[], [], []⟩

theorem sound_empty : Sound .empty where
  ids := nodup_nil
  proposalIds := nodup_nil
  wallets := fun _ h => absurd h not_mem_nil
  signers := fun _ h => absurd h not_mem_nil
  quorums := fun _ h => absurd h not_mem_nil

/-- **Every wallet can be operated, and nothing is executed below the threshold**, if the signers of each new wallet
differ and its weights are finite and at least 1. -/
theorem always_operable {cfg : Settings} {w : World} (history : Relation.ReflTransGen (Steps cfg) .empty w) :
    (∀ wallet ∈ w.wallets, (wallet.signers.map MultiSigSigner.address).Nodup ∧ ∀ s ∈ wallet.signers, Positive s.weight) ∧
    (∀ walletId proposalId wallet proposal submissions, w.wallet walletId = some wallet →
      w.proposal proposalId = some proposal → proposal.Fresh walletId →
      (∀ s ∈ wallet.signers, s.address ∈ submissions.map fun e : SubmitSignatureRequest × Int => e.1.signer) →
      (∀ e ∈ submissions, e.2 < proposal.expiresAt) →
      ((submitAll walletId proposalId submissions w).proposal proposalId).map MultiSigProposal.status = some .signed) ∧
    ∀ e ∈ w.executions, ∃ wallet, e.wallet = some wallet ∧ wallet.Quorum e.proposal.signatures := by
  have hsound := sound_empty.steps history
  refine ⟨?_, ?_, hsound.quorums⟩
  · intro wallet hwal
    exact ⟨(hsound.wallets wallet hwal).distinct, (hsound.wallets wallet hwal).weights⟩
  · intro walletId proposalId wallet proposal submissions hwal hprop hfresh hall htimes
    exact signed_by_all (hsound.wallets wallet (lookup_mem hwal)) hwal hprop hfresh htimes hall

def sampleSettings : Settings where
  address := fun signers _ => String.join (signers.map SignerRequest.address)
  executionHash := fun _ _ => "exec"
  text := fun _ => ""

def sampleTransaction : ProposalTransaction := ⟨"CESCROW", "release", "[]", ""⟩

def after (time : Int) (call : Call) (w : World) : World := ((call.body sampleSettings).alone (runAt time) w).2

theorem ends_after (time : Int) (call : Call) (w : World) :
    Ends does (call.body sampleSettings) w ((call.body sampleSettings).alone (runAt time) w).1 (after time call w) :=
  Ends.of_alone (S := multisigSignature) (fun _ _ => ⟨{ time := time }, rfl⟩) _ w

def creates (signers : List SignerRequest) (threshold : Number) : Call := .createMultiSigWallet "wallet-1" ⟨signers, threshold⟩

def proposes (id : String) : Call := .createProposal id "wallet-1" ⟨"GA", sampleTransaction, some 100⟩

def signs (id signer : String) : Call := .submitSignature "wallet-1" id ⟨signer, "signature"⟩

/-- A wallet of two, whose first proposal is executed and whose second is open. -/
def sharedCalls : List Call :=
  [creates [⟨"GA", .finite 1⟩, ⟨"GB", .finite 2⟩] (.finite 3), proposes "proposal-1", signs "proposal-1" "GA",
    signs "proposal-1" "GB", .executeProposal "wallet-1" "proposal-1" "GA", proposes "proposal-2"]

def shared : World := sharedCalls.foldl (fun w call => after 0 call w) .empty

def sharedWallet : MultiSigWallet where
  id := "wallet-1"
  address := "GAGB"
  signers := [⟨"GA", .finite 1, 0⟩, ⟨"GB", .finite 2, 0⟩]
  threshold := 3
  nonce := 1
  paused := false
  createdAt := 0

def openProposal : MultiSigProposal where
  id := "proposal-2"
  walletId := "wallet-1"
  proposer := "GA"
  transaction := sampleTransaction
  signatures := []
  status := .pending
  createdAt := 0
  expiresAt := 100
  executedAt := none
  executionHash := none

/-- Both sign the second proposal. -/
theorem always_operable_shared : Relation.ReflTransGen (Steps sampleSettings) .empty shared ∧ shared.executions.length = 1 ∧
      ((submitAll "wallet-1" "proposal-2" [(⟨"GB", "signature"⟩, 1), (⟨"GA", "signature"⟩, 2)] shared).proposal
        "proposal-2").map MultiSigProposal.status = some .signed := by
  have hsteps : ∀ (calls : List Call) (w : World), (∀ call ∈ calls, ∀ w, Call.sound w call) →
      Relation.ReflTransGen (Steps sampleSettings) w (calls.foldl (fun w call => after 0 call w) w) := by
    intro calls
    induction calls with
    | nil => exact fun w _ => .refl
    | cons call rest ih =>
      intro w hsound
      exact .head ⟨call, _, hsound call mem_cons_self w, ends_after 0 call w⟩
        (ih _ fun other hother => hsound other (mem_cons_of_mem call hother))
  have hhistory : Relation.ReflTransGen (Steps sampleSettings) .empty shared := by
    refine hsteps sharedCalls .empty ?_
    intro call hcall w
    simp only [sharedCalls, mem_cons, not_mem_nil, or_false] at hcall
    rcases hcall with rfl | rfl | rfl | rfl | rfl | rfl
    · refine ⟨by decide, ?_, by decide +kernel⟩
      intro s hs
      rcases mem_pair.mp hs with rfl | rfl
      · exact ⟨1, rfl⟩
      · exact ⟨2, rfl⟩
    · trivial
    · trivial
    · trivial
    · trivial
    · trivial
  have hwal : shared.wallet "wallet-1" = some sharedWallet := by decide +kernel
  have hprop : shared.proposal "proposal-2" = some openProposal := by decide +kernel
  refine ⟨hhistory, by decide +kernel, ?_⟩
  exact (always_operable hhistory).2.1 _ _ _ _ _ hwal hprop ⟨rfl, rfl, rfl⟩ (by decide) (by decide)

/-- A new wallet, with a proposal. -/
def opened (signers : List SignerRequest) (threshold : Number) : World :=
  after 0 (proposes "proposal-1") (after 0 (creates signers threshold) .empty)

/-- Every signer of the new wallet signs its proposal in time, and it stays pending. -/
def Stuck (signers : List SignerRequest) (threshold : Number) (order : List String) : Prop :=
  ∃ wallet proposal, (opened signers threshold).wallet "wallet-1" = some wallet ∧
    (opened signers threshold).proposal "proposal-1" = some proposal ∧
    proposal.Fresh "wallet-1" ∧ wallet.signers.map MultiSigSigner.address = signers.map SignerRequest.address ∧
    (∀ a ∈ wallet.signers.map MultiSigSigner.address, a ∈ order) ∧ 0 < proposal.expiresAt ∧
    ((submitAll "wallet-1" "proposal-1" (order.map fun a => (⟨a, "signature"⟩, 0)) (opened signers threshold)).proposal
      "proposal-1").map MultiSigProposal.status = some .pending

/-- 1.3, 1.1 and 4.6, which add up to 7 in this order and to less in the other. -/
def shares : List SignerRequest :=
  [⟨"GB", .finite (5854679515581645 / 4503599627370496)⟩, ⟨"GA", .finite (2476979795053773 / 2251799813685248)⟩,
    ⟨"GC", .finite (2589569785738035 / 562949953421312)⟩]

/-- **A wallet that cannot be operated.** One address is listed twice: the threshold is what both entries weigh together,
and a signature counts for one of them. And with weights that are not whole, the sum of the signatures is rounded below
the sum of the signers. -/
theorem never_signed :
    (∀ signers threshold, Relation.ReflTransGen (fun w w' => ∃ call outcome,
      Ends does (Call.body sampleSettings call) w outcome w') .empty (opened signers threshold)) ∧
    Stuck [⟨"GA", .finite 1⟩, ⟨"GA", .finite 1⟩] (.finite 2) ["GA"] ∧ Stuck shares (.finite 7) ["GC", "GA", "GB"] := by
  refine ⟨fun _ _ => .tail (.single ⟨_, _, ends_after 0 _ _⟩) ⟨_, _, ends_after 0 _ _⟩, ?_, ?_⟩
  · refine ⟨⟨"wallet-1", "GAGA", [⟨"GA", .finite 1, 0⟩, ⟨"GA", .finite 1, 0⟩], 2, 0, false, 0⟩,
      { openProposal with id := "proposal-1" }, by decide +kernel, by decide +kernel, ⟨rfl, rfl, rfl⟩, rfl, by decide,
      by decide, ?_⟩
    decide +kernel
  · refine ⟨⟨"wallet-1", "GBGAGC", shares.map fun signer => ⟨signer.address, signer.weight, 0⟩, 7, 0, false, 0⟩,
      { openProposal with id := "proposal-1" }, by decide +kernel, by decide +kernel, ⟨rfl, rfl, rfl⟩, rfl, by decide,
      by decide, ?_⟩
    decide +kernel

end Delego.Multisig
