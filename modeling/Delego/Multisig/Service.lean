import Delego.Data.Number
import Delego.Data.Table
import Delego.Process.Returned

/-! Multi-signature wallets (`wallet/src/multisig/service.ts`, `models.ts`).

Every function reads the rows it needs as instances, checks them, and writes fields of them back, each query being one
operation. An update carries the instance that it is called on; it writes those of the fields it is given that differ from
the instance, whatever the row holds by then, and makes no query where none does.

A weight is any number; where it is not finite, the column stores `null`, which counts as 0. The identifiers of new rows
come with the calls; identifiers are the values of their columns (spellings of one `UUID` are one). -/
namespace Delego.Multisig
open Delego.Process Delego.Data

/-! ### Rows -/

structure MultiSigSigner where
  address : String
  weight : Number
  addedAt : Int
  deriving DecidableEq

/-- A row of the wallets. -/
structure MultiSigWallet where
  (id address : String)
  signers : List MultiSigSigner
  (threshold nonce : Int)
  paused : Bool
  createdAt : Int
  deriving DecidableEq

structure ProposalTransaction where
  (contractId method args memo : String)
  deriving DecidableEq

structure ProposalSignature where
  (signer signature : String)
  signedAt : Int
  deriving DecidableEq

inductive ProposalStatus where
  | pending | signed | executed | expired | cancelled
  deriving DecidableEq

def ProposalStatus.text : ProposalStatus → String
  | .pending => "pending"
  | .signed => "signed"
  | .executed => "executed"
  | .expired => "expired"
  | .cancelled => "cancelled"

/-- A row of the proposals. -/
structure MultiSigProposal where
  (id walletId proposer : String)
  transaction : ProposalTransaction
  signatures : List ProposalSignature
  status : ProposalStatus
  (createdAt expiresAt : Int)
  executedAt : Option Int
  executionHash : Option String
  deriving DecidableEq

/-- The fields that an update of a wallet gives. -/
structure WalletUpdate where
  signers : Option (List MultiSigSigner) := none
  nonce : Option Int := none
  paused : Option Bool := none
  deriving DecidableEq

structure ProposalUpdate where
  signatures : Option (List ProposalSignature) := none
  status : Option ProposalStatus := none
  executedAt : Option Int := none
  executionHash : Option String := none
  deriving DecidableEq

/-- The fields that differ from the instance. -/
def WalletUpdate.changed (wallet : MultiSigWallet) (update : WalletUpdate) : WalletUpdate where
  signers := update.signers.filter fun signers => decide (signers ≠ wallet.signers)
  nonce := update.nonce.filter fun nonce => decide (nonce ≠ wallet.nonce)
  paused := update.paused.filter fun paused => decide (paused ≠ wallet.paused)

def ProposalUpdate.changed (proposal : MultiSigProposal) (update : ProposalUpdate) : ProposalUpdate where
  signatures := update.signatures.filter fun signatures => decide (signatures ≠ proposal.signatures)
  status := update.status.filter fun status => decide (status ≠ proposal.status)
  executedAt := update.executedAt.filter fun executedAt => decide (some executedAt ≠ proposal.executedAt)
  executionHash := update.executionHash.filter fun executionHash => decide (some executionHash ≠ proposal.executionHash)

def stored : Number → Number
  | .finite q => .finite q
  | _ => .finite 0

def MultiSigSigner.stored (signer : MultiSigSigner) : MultiSigSigner :=
  { signer with weight := Multisig.stored signer.weight }

def MultiSigWallet.apply (update : WalletUpdate) (wallet : MultiSigWallet) : MultiSigWallet :=
  { wallet with
    signers := (update.signers.map fun signers => signers.map MultiSigSigner.stored).getD wallet.signers
    nonce := update.nonce.getD wallet.nonce
    paused := update.paused.getD wallet.paused }

def MultiSigProposal.apply (update : ProposalUpdate) (proposal : MultiSigProposal) : MultiSigProposal :=
  { proposal with
    signatures := update.signatures.getD proposal.signatures
    status := update.status.getD proposal.status
    executedAt := update.executedAt.or proposal.executedAt
    executionHash := update.executionHash.or proposal.executionHash }

structure SignerRequest where
  address : String
  weight : Number

structure CreateMultiSigWalletRequest where
  signers : List SignerRequest
  threshold : Number

structure CreateProposalRequest where
  proposer : String
  transaction : ProposalTransaction
  expiresAt : Option Int := none

structure SubmitSignatureRequest where
  (signer signature : String)

inductive SignerUpdateAction where
  | add | remove | updateWeight

structure UpdateSignerRequest where
  action : SignerUpdateAction
  address : String
  weight : Number
  proposedBy : String

inductive Op where
  | createWallet (id address : String) (signers : List MultiSigSigner) (threshold : Number)
  | findWallet (id : String)
  | updateWallet (wallet : MultiSigWallet) (update : WalletUpdate)
  | reloadWallet (id : String)
  | createProposal (id walletId : String) (req : CreateProposalRequest) (expiresAt : Int)
  | findProposal (id walletId : String)
  | updateProposal (proposal : MultiSigProposal) (update : ProposalUpdate)
  | reloadProposal (id : String)
  /-- Rows of the log are never read here; what they say besides is left out. -/
  | addAuditLog (walletId eventType performedBy : String)
  | now

@[reducible] def Op.Reply : Op → Type
  | .createWallet .. => MultiSigWallet
  | .findWallet _ => Option MultiSigWallet
  | .reloadWallet _ => MultiSigWallet
  | .createProposal .. => MultiSigProposal
  | .findProposal .. => Option MultiSigProposal
  | .reloadProposal _ => MultiSigProposal
  | .now => Int
  | _ => Unit

@[reducible] def multisigSignature : Signature := ⟨Op, Op.Reply, String⟩

abbrev MultisigM := Program multisigSignature

def op (o : Op) : MultisigM o.Reply := Program.perform (S := multisigSignature) o

/-- A proposal as it is executed, with the wallet that it is of. -/
structure Execution where
  proposal : MultiSigProposal
  wallet : Option MultiSigWallet

structure World where
  wallets : List MultiSigWallet
  proposals : List MultiSigProposal
  /-- What has been executed, in order. -/
  executions : List Execution

/-- What the environment decides about an operation. -/
structure Choice where
  fate : Fate := .done
  time : Int := 0

def World.wallet (w : World) (id : String) : Option MultiSigWallet := lookup MultiSigWallet.id w.wallets id

def World.proposal (w : World) (id : String) : Option MultiSigProposal := lookup MultiSigProposal.id w.proposals id

def World.updateWallet (w : World) (id : String) (changes : WalletUpdate) : World :=
  { w with wallets := update MultiSigWallet.id w.wallets id (·.apply changes) }

def World.executes (w : World) (id : String) (changes : ProposalUpdate) : List Execution :=
  if changes.status = some .executed then (w.proposal id).toList.map fun proposal => ⟨proposal, w.wallet proposal.walletId⟩
  else []

def World.updateProposal (w : World) (id : String) (changes : ProposalUpdate) : World :=
  { w with
    proposals := update MultiSigProposal.id w.proposals id (·.apply changes)
    executions := w.executions ++ w.executes id changes }

def duplicateKey (id : String) : String := s!"duplicate key value violates unique constraint: {id}"

def answer (o : Op) (ch : Choice) (w : World) : Except String (o.Reply × World) :=
  match o with
  | .createWallet id address signers threshold => match threshold.integer with
    | none => .error "invalid input for type integer"
    | some threshold =>
      if (w.wallet id).isSome || w.wallets.any fun wallet => wallet.address == address then .error (duplicateKey id)
      else
        let wallet : MultiSigWallet :=
          { id := id, address := address, signers := signers.map MultiSigSigner.stored, threshold := threshold
            nonce := 0, paused := false
            createdAt := ch.time }
        .ok (wallet, { w with wallets := w.wallets ++ [wallet] })
  | .findWallet id => .ok (w.wallet id, w)
  | .updateWallet wallet changes => .ok ((), w.updateWallet wallet.id changes)
  | .reloadWallet id => match w.wallet id with
    | none => .error "Instance could not be reloaded because it does not exist anymore"
    | some wallet => .ok (wallet, w)
  | .createProposal id walletId req expiresAt =>
    if (w.proposal id).isSome then .error (duplicateKey id)
    else
      let proposal : MultiSigProposal :=
        { id := id, walletId := walletId, proposer := req.proposer, transaction := req.transaction
          signatures := [], status := .pending, createdAt := ch.time, expiresAt := expiresAt, executedAt := none
          executionHash := none }
      .ok (proposal, { w with proposals := w.proposals ++ [proposal] })
  | .findProposal id walletId => .ok ((w.proposal id).filter fun proposal => decide (proposal.walletId = walletId), w)
  | .updateProposal proposal changes => .ok ((), w.updateProposal proposal.id changes)
  | .reloadProposal id => match w.proposal id with
    | none => .error "Instance could not be reloaded because it does not exist anymore"
    | some proposal => .ok (proposal, w)
  | .addAuditLog .. => .ok ((), w)
  | .now => .ok (ch.time, w)

def fateOf (o : Op) (ch : Choice) : Fate :=
  match o with
  | .now => .done
  | _ => ch.fate

def perform (o : Op) (ch : Choice) (w : World) : Except String o.Reply × World :=
  (fateOf o ch).deliver (answer o ch w) w

/-- `wallet.update(values)` -/
def MultiSigWallet.update (wallet : MultiSigWallet) (values : WalletUpdate) : MultisigM Unit :=
  let changes := values.changed wallet
  if changes = {} then return () else op (.updateWallet wallet changes)

/-- `proposal.update(values)` -/
def MultiSigProposal.update (proposal : MultiSigProposal) (values : ProposalUpdate) : MultisigM Unit :=
  let changes := values.changed proposal
  if changes = {} then return () else op (.updateProposal proposal changes)

/-! ### The service -/

def DEFAULT_EXPIRY_DAYS : Int := 7

def MIN_SIGNERS : Nat := 2

def MAX_SIGNERS : Nat := 10

structure Settings where
  /-- The digest of the signers and the threshold. -/
  address : List SignerRequest → Number → String
  /-- The digest of a transaction and the time. -/
  executionHash : ProposalTransaction → Int → String
  text : Number → String

section
variable (cfg : Settings)

def checkSigner (signer : SignerRequest) : Option String :=
  if signer.address = "" then some "Each signer must have a valid address"
  else if signer.weight.lt (.finite 1) then some "Each signer weight must be a positive integer"
  else none

def createMultiSigWallet (id : String) (req : CreateMultiSigWalletRequest) : MultisigM MultiSigWallet :=
  if req.signers.length < MIN_SIGNERS ∨ MAX_SIGNERS < req.signers.length then
    .fail s!"MultiSig wallets require {MIN_SIGNERS}–{MAX_SIGNERS} signers, got {req.signers.length}"
  else match req.signers.findSome? checkSigner with
    | some message => .fail message
    | none =>
      let totalWeight := Number.total SignerRequest.weight req.signers
      if req.threshold.lt (.finite 1) || totalWeight.lt req.threshold then
        .fail s!"Threshold must be between 1 and total weight ({cfg.text totalWeight}), got {cfg.text req.threshold}"
      else do
        let now ← op .now
        let signerData := req.signers.map fun signer => ⟨signer.address, signer.weight, now⟩
        let wallet ← op (.createWallet id (cfg.address req.signers req.threshold) signerData req.threshold)
        op (.addAuditLog wallet.id "WALLET_CREATED" ((req.signers.head?.map SignerRequest.address).getD ""))
        return wallet

def findWallet (walletId : String) : MultisigM MultiSigWallet := do
  let found ← op (.findWallet walletId)
  match found with
  | none => .fail s!"MultiSig wallet not found: {walletId}"
  | some wallet => return wallet

def findProposal (walletId proposalId : String) : MultisigM MultiSigProposal := do
  let found ← op (.findProposal proposalId walletId)
  match found with
  | none => .fail s!"Proposal not found: {proposalId}"
  | some proposal => return proposal

def MultiSigWallet.signer (wallet : MultiSigWallet) (address : String) : Option MultiSigSigner :=
  wallet.signers.find? fun s => decide (s.address = address)

/-- `wallet.signers.find(..)?.weight ?? 0` -/
def MultiSigWallet.weight (wallet : MultiSigWallet) (address : String) : Number :=
  ((wallet.signer address).map MultiSigSigner.weight).getD (.finite 0)

def MultiSigWallet.accumulated (wallet : MultiSigWallet) (signatures : List ProposalSignature) : Number :=
  Number.total (fun sig => wallet.weight sig.signer) signatures

def MultiSigWallet.reaches (wallet : MultiSigWallet) (weight : Number) : Bool := Number.le (.finite wallet.threshold) weight

def createProposal (id walletId : String) (req : CreateProposalRequest) : MultisigM MultiSigProposal := do
  let wallet ← findWallet walletId
  if wallet.paused then .fail "Wallet is paused; no new proposals may be created"
  else if (wallet.signer req.proposer).isNone then .fail s!"Proposer {req.proposer} is not a signer of wallet {walletId}"
  else do
    let now ← op .now
    let expiresAt := req.expiresAt.getD (now + DEFAULT_EXPIRY_DAYS * 24 * 60 * 60 * 1000)
    if expiresAt ≤ now then .fail "expiresAt must be in the future"
    else do
      let proposal ← op (.createProposal id walletId req expiresAt)
      op (.addAuditLog walletId "PROPOSAL_CREATED" req.proposer)
      return proposal

def accept (wallet : MultiSigWallet) (proposal : MultiSigProposal) (req : SubmitSignatureRequest) (now : Int) :
    ProposalUpdate :=
  let updatedSignatures := proposal.signatures ++ [⟨req.signer, req.signature, now⟩]
  { signatures := some updatedSignatures
    status := some (if wallet.reaches (wallet.accumulated updatedSignatures) then .signed else .pending) }

def submitSignature (walletId proposalId : String) (req : SubmitSignatureRequest) : MultisigM MultiSigProposal := do
  let wallet ← findWallet walletId
  let proposal ← findProposal walletId proposalId
  let now ← op .now
  if proposal.expiresAt ≤ now then do
    proposal.update { status := some .expired }
    op (.addAuditLog walletId "PROPOSAL_EXPIRED" "system")
    .fail "Proposal has expired"
  else if proposal.status ≠ .pending then .fail s!"Proposal status is '{proposal.status.text}'; cannot add signatures"
  else if (wallet.signer req.signer).isNone then .fail s!"{req.signer} is not a signer of wallet {walletId}"
  else if proposal.signatures.any fun s => decide (s.signer = req.signer) then
    .fail s!"Signer {req.signer} has already signed proposal {proposalId}"
  else do
    proposal.update (accept wallet proposal req now)
    op (.addAuditLog walletId "SIGNATURE_SUBMITTED" req.signer)
    op (.reloadProposal proposal.id)

def execution (proposal : MultiSigProposal) (now : Int) : ProposalUpdate where
  status := some .executed
  executedAt := some now
  executionHash := some (cfg.executionHash proposal.transaction now)

def executeProposal (walletId proposalId executorAddress : String) : MultisigM MultiSigProposal := do
  let wallet ← findWallet walletId
  if wallet.paused then .fail "Wallet is paused; execution is blocked"
  else do
    let proposal ← findProposal walletId proposalId
    let now ← op .now
    if proposal.expiresAt ≤ now then do
      proposal.update { status := some .expired }
      .fail "Proposal has expired"
    else if proposal.status ≠ .signed then
      .fail s!"Proposal must be in 'signed' status to execute; current: '{proposal.status.text}'"
    else if (wallet.accumulated proposal.signatures).lt (.finite wallet.threshold) then
      .fail s!"Insufficient signature weight: {cfg.text (wallet.accumulated proposal.signatures)}/{wallet.threshold}"
    else do
      proposal.update (execution cfg proposal now)
      wallet.update { nonce := some (wallet.nonce + 1) }
      op (.addAuditLog walletId "PROPOSAL_EXECUTED" executorAddress)
      op (.reloadProposal proposal.id)

def changeSigners (signers : List MultiSigSigner) (req : UpdateSignerRequest) (now : Int) :
    Except String (List MultiSigSigner) :=
  let known := signers.any fun s => decide (s.address = req.address)
  match req.action with
  | .add =>
    if MAX_SIGNERS ≤ signers.length then .error s!"Cannot add more than {MAX_SIGNERS} signers"
    else if known then .error s!"Signer {req.address} already exists"
    else .ok (signers ++ [⟨req.address, req.weight, now⟩])
  | .remove =>
    if !known then .error s!"Signer {req.address} not found"
    else
      let remaining := signers.filter fun s => decide (s.address ≠ req.address)
      if remaining.length < MIN_SIGNERS then .error s!"MultiSig wallets require at least {MIN_SIGNERS} signers"
      else .ok remaining
  | .updateWeight =>
    if !known then .error s!"Signer {req.address} not found"
    else .ok (setWeight signers)
where
  /-- The first signer of the address is the one that is found. -/
  setWeight : List MultiSigSigner → List MultiSigSigner
    | [] => []
    | s :: rest => if s.address = req.address then { s with weight := req.weight } :: rest else s :: setWeight rest

/-- The wallet's instance when it is updated: a weight is set in a signer that the instance holds itself. -/
def UpdateSignerRequest.holder (req : UpdateSignerRequest) (wallet : MultiSigWallet) (signers : List MultiSigSigner) :
    MultiSigWallet :=
  match req.action with
  | .updateWeight => { wallet with signers := signers }
  | _ => wallet

def updateSigner (walletId : String) (req : UpdateSignerRequest) : MultisigM MultiSigWallet := do
  let wallet ← findWallet walletId
  let now ← op .now
  match changeSigners wallet.signers req now with
  | .error message => .fail message
  | .ok signers =>
    let totalWeight := Number.total MultiSigSigner.weight signers
    if totalWeight.lt (.finite wallet.threshold) then
      .fail s!"Updated signers cannot satisfy existing threshold ({wallet.threshold}); total weight is now {cfg.text totalWeight}"
    else do
      (req.holder wallet signers).update { signers := some signers }
      op (.addAuditLog walletId "SIGNER_UPDATED" req.proposedBy)
      op (.reloadWallet walletId)

def pauseWallet (walletId performedBy : String) : MultisigM MultiSigWallet := do
  let wallet ← findWallet walletId
  if wallet.paused then .fail "Wallet is already paused"
  else do
    wallet.update { paused := some true }
    op (.addAuditLog walletId "WALLET_PAUSED" performedBy)
    op (.reloadWallet walletId)

def unpauseWallet (walletId performedBy : String) : MultisigM MultiSigWallet := do
  let wallet ← findWallet walletId
  if !wallet.paused then .fail "Wallet is not paused"
  else do
    wallet.update { paused := some false }
    op (.addAuditLog walletId "WALLET_UNPAUSED" performedBy)
    op (.reloadWallet walletId)

end

inductive Call where
  | createMultiSigWallet (id : String) (req : CreateMultiSigWalletRequest)
  | createProposal (id walletId : String) (req : CreateProposalRequest)
  | submitSignature (walletId proposalId : String) (req : SubmitSignatureRequest)
  | executeProposal (walletId proposalId executorAddress : String)
  | updateSigner (walletId : String) (req : UpdateSignerRequest)
  | pauseWallet (walletId performedBy : String)
  | unpauseWallet (walletId performedBy : String)

/-- What a call returns is left aside; whether it throws is not. -/
def Call.body (cfg : Settings) : Call → MultisigM Unit
  | .createMultiSigWallet id req => do
    let _ ← Multisig.createMultiSigWallet cfg id req
  | .createProposal id walletId req => do
    let _ ← Multisig.createProposal id walletId req
  | .submitSignature walletId proposalId req => do
    let _ ← Multisig.submitSignature walletId proposalId req
  | .executeProposal walletId proposalId executorAddress => do
    let _ ← Multisig.executeProposal cfg walletId proposalId executorAddress
  | .updateSigner walletId req => do
    let _ ← Multisig.updateSigner cfg walletId req
  | .pauseWallet walletId performedBy => do
    let _ ← Multisig.pauseWallet walletId performedBy
  | .unpauseWallet walletId performedBy => do
    let _ ← Multisig.unpauseWallet walletId performedBy

def system (cfg : Settings) : System multisigSignature World where
  Choice := Choice
  Event := Empty
  Call := Call
  perform := perform
  drift := fun e _ => e.elim
  arrive := fun _ w => some w
  body := Call.body cfg

abbrev MultisigPool := Pool multisigSignature World

abbrev MultisigTrace := List (Entry multisigSignature)

end Delego.Multisig
