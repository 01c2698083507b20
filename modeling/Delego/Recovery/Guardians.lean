import Delego.Data.Column
import Delego.Data.Number
import Delego.Data.Table
import Delego.Process.Returned
import Mathlib.Data.List.Lex

/-! Recovery by guardians (`wallet/src/recovery/guardianRecovery.ts`, `models.ts`).

Calls come one after another, each at one time; what the process holds itself (the flag, the attempts) is read and
written without fail, and any query may fail or lose its answer.

The identifiers and codes that are drawn come with the calls, ciphertexts with the environment. Instants stand for their
texts. The identifiers of rows are `UUID` columns: a row is found by any spelling of its identifier. -/
namespace Delego.Recovery
open Delego.Process Delego.Data

inductive GuardianType where
  | email | phone | wallet

def GuardianType.ofText : String → Option GuardianType
  | "email" => some .email
  | "phone" => some .phone
  | "wallet" => some .wallet
  | _ => none

structure Guardian where
  (id walletAddress : String)
  type : GuardianType
  (identifier identifierEncrypted : String)
  verified : Bool
  verificationCode : Option String
  verificationExpiresAt : Option Int
  createdAt : Int

inductive RecoveryStatus where
  | pending | approved | rejected | expired | completed
  deriving DecidableEq

def RecoveryStatus.text : RecoveryStatus → String
  | .pending => "pending"
  | .approved => "approved"
  | .rejected => "rejected"
  | .expired => "expired"
  | .completed => "completed"

structure RecoveryApproval where
  guardianId : String
  approvedAt : Int
  signature : String
  deriving DecidableEq

structure RecoveryRequest where
  (id walletAddress initiatedBy : String)
  expiresAt : Int
  status : RecoveryStatus
  approvals : List RecoveryApproval
  (requiredApprovals createdAt : Int)
  deriving DecidableEq

/-- The fields that an update of a request gives. -/
structure RequestUpdate where
  status : Option RecoveryStatus := none
  approvals : Option (List RecoveryApproval) := none

def RecoveryRequest.apply (changes : RequestUpdate) (request : RecoveryRequest) : RecoveryRequest :=
  { request with
    status := changes.status.getD request.status
    approvals := changes.approvals.getD request.approvals }

def Guardian.verify (guardian : Guardian) : Guardian :=
  { guardian with
    verified := true
    verificationCode := none
    verificationExpiresAt := none }

structure RecoveryResult where
  (walletAddress newMasterKey recoveryKey : String)
  completedAt : Int

structure AddGuardianRequest where
  (walletAddress type identifier : String)

structure InitiateRecoveryRequest where
  (walletAddress initiatedBy : String)
  requiredApprovals : Option Number := none

structure ApproveRecoveryRequest where
  (guardianId signature : String)

/-! ### Operations -/

inductive Op where
  | findGuardian (id : String)
  | createGuardian (id walletAddress : String) (type : GuardianType)
      (identifier identifierEncrypted verificationCode : String) (verificationExpiresAt : Int)
  | verifyGuardian (guardian : Guardian)
  | destroyGuardian (guardian : Guardian)
  | reloadGuardian (id : String)
  | findVerified (walletAddress : String)
  | findRequest (id : String)
  | findPending (walletAddress : String)
  | createRequest (id walletAddress initiatedBy : String) (expiresAt : Int) (requiredApprovals : Number)
  | updateRequest (request : RecoveryRequest) (changes : RequestUpdate)
  | reloadRequest (id : String)
  /-- Rows of the log are never read here; what they say besides is left out. -/
  | audit (walletAddress eventType : String)
  /-- `encryptIdentifier` -/
  | encrypt (identifier : String)
  | now
  | isRecoveryEnabled
  | lastAttempt (walletAddress : String)
  | recordAttempt (walletAddress : String) (time : Int)

@[reducible] def Op.Reply : Op → Type
  | .findGuardian _ => Option Guardian
  | .createGuardian .. => Guardian
  | .reloadGuardian _ => Guardian
  | .findVerified _ => List Guardian
  | .findRequest _ => Option RecoveryRequest
  | .findPending _ => Option RecoveryRequest
  | .createRequest .. => RecoveryRequest
  | .reloadRequest _ => RecoveryRequest
  | .encrypt _ => String
  | .now => Int
  | .isRecoveryEnabled => Bool
  | .lastAttempt _ => Option Int
  | _ => Unit

@[reducible] def recoverySignature : Signature := ⟨Op, Op.Reply, String⟩

abbrev RecoveryM := Program recoverySignature

def op (o : Op) : RecoveryM o.Reply := Program.perform (S := recoverySignature) o

/-- An approval as it was stored, with the guardian's row at that time. -/
structure Grant where
  (requestId guardianId : String)
  guardian : Option Guardian

/-- A request as it was completed, when, and whether recovery was enabled. -/
structure Completion where
  request : RecoveryRequest
  time : Int
  enabled : Bool
  deriving DecidableEq

structure World where
  clock : Int
  recoveryGloballyEnabled : Bool
  recoveryAttemptTimestamps : List (String × Int)
  guardians : List Guardian
  requests : List RecoveryRequest
  /-- What has been approved, in order. -/
  grants : List Grant
  /-- What has been completed, in order. -/
  completions : List Completion

/-- What the environment decides about an operation. -/
structure Choice where
  fate : Fate := .done
  ciphertext : String := ""

def World.guardian (w : World) (id : String) : Option Guardian := lookup Guardian.id w.guardians id

def World.request (w : World) (id : String) : Option RecoveryRequest := lookup RecoveryRequest.id w.requests id

section
variable (uuid : Column)

/-- The guardian that a text is the identifier of. -/
def World.guardianOf (w : World) (text : String) : Option Guardian := (uuid.read text).bind w.guardian

def World.requestOf (w : World) (text : String) : Option RecoveryRequest := (uuid.read text).bind w.request

def World.granted (w : World) (id : String) (changes : RequestUpdate) : List Grant :=
  match w.request id, changes.approvals with
  | some request, some approvals => (approvals.drop request.approvals.length).map fun approval =>
    ⟨id, approval.guardianId, w.guardianOf uuid approval.guardianId⟩
  | _, _ => []

def World.completed (w : World) (id : String) (changes : RequestUpdate) : List Completion :=
  if changes.status = some .completed then
    (w.request id).toList.map fun request => ⟨request, w.clock, w.recoveryGloballyEnabled⟩
  else []

def World.updateRequest (w : World) (id : String) (changes : RequestUpdate) : World :=
  { w with
    requests := update RecoveryRequest.id w.requests id (·.apply changes)
    grants := w.grants ++ w.granted uuid id changes
    completions := w.completions ++ w.completed id changes }

def duplicateKey (id : String) : String := s!"duplicate key value violates unique constraint: {id}"

def missing : String := "Instance could not be reloaded because it does not exist anymore"

def invalidUuid (text : String) : String := s!"invalid input syntax for type uuid: {text}"

def answer (o : Op) (ch : Choice) (w : World) : Except String (o.Reply × World) :=
  match o with
  | .findGuardian id =>
    if uuid.read id = none then .error (invalidUuid id) else .ok (w.guardianOf uuid id, w)
  | .createGuardian text walletAddress type identifier identifierEncrypted verificationCode verificationExpiresAt =>
    match uuid.read text with
    | none => .error (invalidUuid text)
    | some id =>
      if (w.guardian id).isSome then .error (duplicateKey id)
      else
        let guardian : Guardian :=
          { id := id, walletAddress := walletAddress, type := type, identifier := identifier
            identifierEncrypted := identifierEncrypted, verified := false
            verificationCode := some verificationCode, verificationExpiresAt := some verificationExpiresAt
            createdAt := w.clock }
        .ok (guardian, { w with guardians := w.guardians ++ [guardian] })
  | .verifyGuardian guardian => .ok ((), { w with guardians := update Guardian.id w.guardians guardian.id Guardian.verify })
  | .destroyGuardian guardian =>
    .ok ((), { w with guardians := w.guardians.filter fun row => decide (row.id ≠ guardian.id) })
  | .reloadGuardian id => match w.guardian id with
    | none => .error missing
    | some guardian => .ok (guardian, w)
  | .findVerified walletAddress =>
    .ok (w.guardians.filter fun guardian => decide (guardian.walletAddress = walletAddress) && guardian.verified, w)
  | .findRequest id =>
    if uuid.read id = none then .error (invalidUuid id) else .ok (w.requestOf uuid id, w)
  | .findPending walletAddress =>
    .ok (w.requests.find? fun request =>
      decide (request.walletAddress = walletAddress) && decide (request.status = .pending), w)
  | .createRequest text walletAddress initiatedBy expiresAt requiredApprovals =>
    match uuid.read text, requiredApprovals.integer with
    | none, _ => .error (invalidUuid text)
    | some _, none => .error "invalid input for type integer"
    | some id, some requiredApprovals =>
      if (w.request id).isSome then .error (duplicateKey id)
      else
        let request : RecoveryRequest :=
          { id := id, walletAddress := walletAddress, initiatedBy := initiatedBy, expiresAt := expiresAt
            status := .pending, approvals := [], requiredApprovals := requiredApprovals
            createdAt := w.clock }
        .ok (request, { w with requests := w.requests ++ [request] })
  | .updateRequest request changes => .ok ((), w.updateRequest uuid request.id changes)
  | .reloadRequest id => match w.request id with
    | none => .error missing
    | some request => .ok (request, w)
  | .audit .. => .ok ((), w)
  | .encrypt _ => .ok (ch.ciphertext, w)
  | .now => .ok (w.clock, w)
  | .isRecoveryEnabled => .ok (w.recoveryGloballyEnabled, w)
  | .lastAttempt walletAddress => .ok (w.recoveryAttemptTimestamps.lookup walletAddress, w)
  | .recordAttempt walletAddress time =>
    .ok ((), { w with recoveryAttemptTimestamps := (walletAddress, time) :: w.recoveryAttemptTimestamps })

def Op.own : Op → Bool
  | .now => true
  | .isRecoveryEnabled => true
  | .lastAttempt _ => true
  | .recordAttempt .. => true
  | _ => false

def fateOf (o : Op) (ch : Choice) : Fate := if o.own then .done else ch.fate

def perform (o : Op) (ch : Choice) (w : World) : Except String o.Reply × World :=
  (fateOf o ch).deliver (answer uuid o ch w) w

end

/-! ### The service -/

def RATE_LIMIT_DAYS : Int := 30

def VERIFICATION_EXPIRY_MINUTES : Int := 30

def DEFAULT_REQUIRED_APPROVALS : Number := .finite 3

def RECOVERY_LOCK_DAYS : Int := 7

/-- `RECOVERY_LOCK_DAYS` in milliseconds. -/
def recoveryLock : Int := RECOVERY_LOCK_DAYS * 24 * 60 * 60 * 1000

structure Settings where
  /-- The HMAC under the master secret. -/
  hmac : String → String
  /-- `Uppercase_Mapping` -/
  uppercase : Char → List Char
  /-- A column of type `UUID`. -/
  uuid : Column

def codeUnits (s : String) : List Nat :=
  s.toList.flatMap fun c =>
    if c.toNat < 0x10000 then [c.toNat]
    else [0xD800 + (c.toNat - 0x10000) / 0x400, 0xDC00 + (c.toNat - 0x10000) % 0x400]

section
variable (cfg : Settings)

def toUpperCase (s : String) : String := String.ofList (s.toList.flatMap cfg.uppercase)

def deriveRecoveryKey (signatures : List String) : String :=
  cfg.hmac ("|".intercalate (signatures.mergeSort fun a b => decide (codeUnits a ≤ codeUnits b)))

def addGuardian (id verificationCode : String) (req : AddGuardianRequest) : RecoveryM Guardian :=
  if req.walletAddress = "" ∨ req.identifier = "" then .fail "walletAddress and identifier are required"
  else match GuardianType.ofText req.type with
    | none => .fail s!"Invalid guardian type: {req.type}"
    | some type => do
      let identifierEncrypted ← op (.encrypt req.identifier)
      let now ← op .now
      let guardian ← op (.createGuardian id req.walletAddress type req.identifier identifierEncrypted verificationCode
        (now + VERIFICATION_EXPIRY_MINUTES * 60 * 1000))
      op (.audit req.walletAddress "GUARDIAN_ADDED")
      return guardian

def findGuardian (guardianId : String) : RecoveryM Guardian := do
  let found ← op (.findGuardian guardianId)
  match found with
  | none => .fail s!"Guardian not found: {guardianId}"
  | some guardian => return guardian

def Guardian.accepts (guardian : Guardian) (code : String) : Bool :=
  match guardian.verificationCode with
  | none => false
  | some verificationCode => decide (verificationCode ≠ "") && decide (verificationCode = code)

def verifyGuardian (guardianId code : String) : RecoveryM Guardian := do
  let guardian ← findGuardian guardianId
  if guardian.verified then .fail "Guardian is already verified"
  else if !guardian.accepts (toUpperCase cfg code) then .fail "Invalid verification code"
  else do
    let now ← op .now
    if guardian.verificationExpiresAt.any fun expiresAt => decide (expiresAt < now) then
      .fail "Verification code has expired"
    else do
      op (.verifyGuardian guardian)
      op (.audit guardian.walletAddress "GUARDIAN_VERIFIED")
      op (.reloadGuardian guardian.id)

def removeGuardian (guardianId : String) : RecoveryM Unit := do
  let guardian ← findGuardian guardianId
  op (.destroyGuardian guardian)
  op (.audit guardian.walletAddress "GUARDIAN_REMOVED")

def isRateLimited (walletAddress : String) : RecoveryM Bool := do
  let last ← op (.lastAttempt walletAddress)
  match last with
  | none => return false
  | some last =>
    let now ← op .now
    return decide (now - last < RATE_LIMIT_DAYS * (1000 * 60 * 60 * 24))

def initiateRecovery (id : String) (req : InitiateRecoveryRequest) : RecoveryM RecoveryRequest := do
  let recoveryGloballyEnabled ← op .isRecoveryEnabled
  if !recoveryGloballyEnabled then .fail "Social recovery is currently disabled"
  else do
    let limited ← isRateLimited req.walletAddress
    if limited then .fail s!"Recovery rate limit exceeded: maximum 1 attempt per {RATE_LIMIT_DAYS} days"
    else do
      let existing ← op (.findPending req.walletAddress)
      match existing with
      | some existing => .fail s!"A pending recovery request already exists for {req.walletAddress} (id: {existing.id})"
      | none => do
        let requiredApprovals := req.requiredApprovals.getD DEFAULT_REQUIRED_APPROVALS
        let now ← op .now
        let recoveryRequest ← op (.createRequest id req.walletAddress req.initiatedBy
          (now + RECOVERY_LOCK_DAYS * 24 * 60 * 60 * 1000) requiredApprovals)
        let attempted ← op .now
        op (.recordAttempt req.walletAddress attempted)
        let _ ← op (.findVerified req.walletAddress)
        op (.audit req.walletAddress "RECOVERY_INITIATED")
        return recoveryRequest

def completeRecovery (newMasterKeyRaw : String) (recoveryRequest : RecoveryRequest) (signatures : List String) :
    RecoveryM RecoveryResult := do
  let recoveryKey := deriveRecoveryKey cfg signatures
  let newMasterKeyEncrypted ← op (.encrypt newMasterKeyRaw)
  op (.updateRequest recoveryRequest { status := some .completed })
  op (.audit recoveryRequest.walletAddress "RECOVERY_COMPLETED")
  let now ← op .now
  return ⟨recoveryRequest.walletAddress, newMasterKeyEncrypted, recoveryKey, now⟩

def RecoveryRequest.approvedBy (request : RecoveryRequest) (guardianId : String) : Bool :=
  request.approvals.any fun a => decide (a.guardianId = guardianId)

def storeApproval (newMasterKeyRaw : String) (recoveryRequest : RecoveryRequest) (req : ApproveRecoveryRequest) :
    RecoveryM (RecoveryRequest ⊕ RecoveryResult) := do
  let approvedAt ← op .now
  let updatedApprovals := recoveryRequest.approvals ++ [⟨req.guardianId, approvedAt, req.signature⟩]
  op (.updateRequest recoveryRequest { approvals := some updatedApprovals })
  op (.audit recoveryRequest.walletAddress "RECOVERY_APPROVED")
  if recoveryRequest.requiredApprovals ≤ updatedApprovals.length then do
    let result ← completeRecovery cfg newMasterKeyRaw { recoveryRequest with approvals := updatedApprovals }
      (updatedApprovals.map RecoveryApproval.signature)
    return .inr result
  else do
    let request ← op (.reloadRequest recoveryRequest.id)
    return .inl request

def approveRecovery (newMasterKeyRaw recoveryRequestId : String) (req : ApproveRecoveryRequest) :
    RecoveryM (RecoveryRequest ⊕ RecoveryResult) := do
  let found ← op (.findRequest recoveryRequestId)
  match found with
  | none => .fail s!"Recovery request not found: {recoveryRequestId}"
  | some recoveryRequest =>
    if recoveryRequest.status ≠ .pending then
      .fail s!"Recovery request is not pending (status: {recoveryRequest.status.text})"
    else do
      let now ← op .now
      if recoveryRequest.expiresAt ≤ now then do
        op (.updateRequest recoveryRequest { status := some .expired })
        op (.audit recoveryRequest.walletAddress "RECOVERY_EXPIRED")
        .fail "Recovery request has expired"
      else do
        let guardian ← findGuardian req.guardianId
        if !guardian.verified then .fail s!"Guardian {req.guardianId} is not verified"
        else if guardian.walletAddress ≠ recoveryRequest.walletAddress then .fail "Guardian does not belong to this wallet"
        else if recoveryRequest.approvedBy req.guardianId then .fail "Guardian has already approved this recovery request"
        else storeApproval cfg newMasterKeyRaw recoveryRequest req

end

inductive Call where
  | addGuardian (id verificationCode : String) (req : AddGuardianRequest)
  | verifyGuardian (guardianId code : String)
  | removeGuardian (guardianId : String)
  | initiateRecovery (id : String) (req : InitiateRecoveryRequest)
  | approveRecovery (newMasterKeyRaw recoveryRequestId : String) (req : ApproveRecoveryRequest)

/-- What a call returns is left aside; whether it throws is not. -/
def Call.body (cfg : Settings) : Call → RecoveryM Unit
  | .addGuardian id verificationCode req => do
    let _ ← Recovery.addGuardian id verificationCode req
  | .verifyGuardian guardianId code => do
    let _ ← Recovery.verifyGuardian cfg guardianId code
  | .removeGuardian guardianId => Recovery.removeGuardian guardianId
  | .initiateRecovery id req => do
    let _ ← Recovery.initiateRecovery id req
  | .approveRecovery newMasterKeyRaw recoveryRequestId req => do
    let _ ← Recovery.approveRecovery cfg newMasterKeyRaw recoveryRequestId req

/-- What the environment decides about each operation of a call; none is performed twice but those
that do not fail. -/
abbrev Choices := Op → Choice

inductive Event where
  | call (c : Call) (choices : Choices)
  | disableRecovery
  | enableRecovery
  | passes (ms : Nat)

def performed (uuid : Column) (choices : Choices) (o : Op) (w : World) : recoverySignature.Result o × World :=
  perform uuid o (choices o) w

def after (cfg : Settings) (e : Event) (w : World) : World :=
  match e with
  | .call c choices => ((c.body cfg).alone (performed cfg.uuid choices) w).2
  | .disableRecovery => { w with recoveryGloballyEnabled := false }
  | .enableRecovery => { w with recoveryGloballyEnabled := true }
  | .passes ms => { w with clock := w.clock + ms }

def history (cfg : Settings) (events : List Event) (w : World) : World :=
  events.foldl (fun w e => after cfg e w) w

end Delego.Recovery
