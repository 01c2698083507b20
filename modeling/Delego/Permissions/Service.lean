import Delego.Data.Number
import Delego.Data.Text
import Delego.Process.Serial

/-! Permission grants as they are read from the contract (`wallet/permissions/index.ts`).

The contract answers with a value, whose fields a grant is made of. A value may have none of them, or such as
no grant can be made of. -/
namespace Delego.Permissions
open Delego.Data

/-- What `scValToNative` makes of a value of the contract. -/
inductive Native where
  | null
  | bool (value : Bool)
  | number (value : Int)
  | bigint (value : Int)
  | string (value : String)
  | bytes (text : String)
  | array (items : List Native)
  | object (fields : List (String × Native))
  | map (entries : List (String × Native))

structure Conversions where
  /-- `BigInt(text)`, where that does not throw. -/
  bigInt : String → Option Int
  /-- `Number(value)` -/
  toNumber : Native → Number
  /-- The date so many milliseconds after 1970. -/
  toISOString : Rat → String

namespace Native

/-- `typeof value === "object" && Object.keys(value).length === 0`, of what is not null. -/
def keyless : Native → Bool
  | .bytes text => decide (text = "")
  | .array items => items.isEmpty
  | .object fields => fields.isEmpty
  | .map _ => true
  | _ => false

/-- `!value` -/
def falsy : Native → Bool
  | .null => true
  | .bool value => !value
  | .number value => decide (value = 0)
  | .bigint value => decide (value = 0)
  | .string value => decide (value = "")
  | _ => false

mutual

/-- `String(value)` -/
def text : Native → String
  | .null => "null"
  | .bool value => if value then "true" else "false"
  | .number value => s!"{value}"
  | .bigint value => s!"{value}"
  | .string value => value
  | .bytes text => text
  | .array items => ",".intercalate (itemTexts items)
  | .object _ => "[object Object]"
  | .map _ => "[object Map]"

def itemTexts : List Native → List String
  | [] => []
  | .null :: items => "" :: itemTexts items
  | item :: items => item.text :: itemTexts items

end

def field (data : Native) (name : String) : Option Native :=
  let present : Native → Option Native
    | .null => none
    | value => some value
  match data with
  | .object fields => (fields.lookup name).bind present
  | .map entries => (entries.lookup name).bind present
  | _ => none

/-- `BigInt(value)` -/
def toBigInt (conversions : Conversions) : Native → Except String Int
  | .bool value => .ok (if value then 1 else 0)
  | .number value => .ok value
  | .bigint value => .ok value
  | value => match conversions.bigInt value.text with
    | none => .error s!"Cannot convert {value.text} to a BigInt"
    | some value => .ok value

end Native

structure PermissionGrant where
  (contractId spender : String)
  limit : Int
  expiresAt : Option String

def MAX_DATE_MS : Rat := 8640000000000000

def formatExpiryToIso (conversions : Conversions) (expiry : Option Native) : Except String (Option String) :=
  match expiry.filter fun expiry => !expiry.falsy with
  | none => .ok none
  | some (.string "0") => .ok none
  | some expiry => match conversions.toNumber expiry with
    | .finite sec =>
      if sec ≤ 0 then .ok none
      else if MAX_DATE_MS < sec * 1000 then .error "Invalid time value"
      else .ok (some (conversions.toISOString (sec * 1000)))
    | _ => .ok none

def parsePermissionGrant (conversions : Conversions) (contractId : String) (raw : Native) (fallbackSpender : Option String) :
    Except String (Option PermissionGrant) :=
  if raw.falsy then .ok none
  else
    let spender := (((raw.field "spender").orElse fun _ => raw.field "delegate").map Native.text).getD
      (fallbackSpender.getD "")
    if spender = "" then .ok none
    else
      let rawLimit := (raw.field "limit").orElse fun _ => (raw.field "total_limit").orElse fun _ => raw.field "per_tx_limit"
      match rawLimit with
      | none => .ok none
      | some rawLimit => do
        let limit ← rawLimit.toBigInt conversions
        let rawExpiry := (raw.field "expiresAt").orElse fun _ => (raw.field "expires_at").orElse fun _ =>
          (raw.field "expiry").orElse fun _ => raw.field "expires_at_ledger"
        let expiresAt ← formatExpiryToIso conversions rawExpiry
        return some ⟨contractId, spender, limit, expiresAt⟩

/-! ### The permissions service (`wallet/permissions/index.ts`): the lookup of a grant, and its revocation

A grant is looked up by a simulation of the contract, and revoked by a transaction, which is sent to the
network and asked for until it has been executed. Nothing is known of the contract but that a revocation
that succeeds takes the grant away. -/
open Delego.Process Delego.Data

structure PermissionError where
  (name message code : String)
  statusCode : Nat
  deriving DecidableEq

/-- What is thrown: an error of the service, or any other. -/
inductive Thrown where
  | permission (error : PermissionError)
  | other (message : String)
  deriving DecidableEq

def Thrown.message : Thrown → String
  | .permission error => error.message
  | .other message => message

def permissionError (message : String) (code : String := "PERMISSION_ERROR") (statusCode : Nat := 400) : Thrown :=
  .permission ⟨"PermissionError", message, code, statusCode⟩

def simulationFailedError (message : String) : Thrown :=
  .permission ⟨"SimulationFailedError", message, "SIMULATION_FAILED", 400⟩

def invalidPermissionInputError (message : String) : Thrown :=
  .permission ⟨"InvalidPermissionInputError", message, "INVALID_PERMISSION_INPUT", 400⟩

/-- The configuration, and what the SDK says of addresses. -/
structure Settings extends Conversions where
  isValidStellarPublicKey : String → Bool
  /-- What `Operation.invokeContractFunction` throws for a contract, if it does. -/
  contractError : String → Option String
  /-- Of the service, else of the environment. -/
  (defaultOwner defaultContractId : Option String)
  /-- `process.env.NODE_ENV === "test"` -/
  isTest : Bool
  activeKeyVersion : String

section
variable (cfg : Settings)

def resolveOwner (explicitOwner : Option String) : Except Thrown String :=
  match explicitOwner.orElse fun _ => cfg.defaultOwner with
  | none => .error (invalidPermissionInputError "Owner address is required to execute permissions operations")
  | some candidate =>
    if trim candidate = "" then
      .error (invalidPermissionInputError "Owner address is required to execute permissions operations")
    else if cfg.isValidStellarPublicKey (trim candidate) then .ok (trim candidate)
    else .error (invalidPermissionInputError s!"Invalid Stellar public key for owner: {trim candidate}")

def resolveContractId (contractId : Option String) : Except Thrown String :=
  match contractId.orElse fun _ => cfg.defaultContractId with
  | none => .error (invalidPermissionInputError "Contract ID is required for permissions operation")
  | some resolved =>
    if trim resolved = "" then .error (invalidPermissionInputError "Contract ID is required for permissions operation")
    else .ok (trim resolved)

def validateSpender (spender : String) : Except Thrown String :=
  if trim spender = "" then .error (invalidPermissionInputError "Spender address is required")
  else if cfg.isValidStellarPublicKey (trim spender) then .ok (trim spender)
  else .error (invalidPermissionInputError s!"Invalid Stellar public key for spender: {trim spender}")

end

structure Invocation where
  (contract function owner spender sequence fee : String)

inductive Looked where
  | error (message : String)
  | success (retval : Option Native)

/-- What the simulation of a revocation says; a transaction may then not be assembled from it. -/
inductive Simulation where
  | rejected (reasons : List String) (error : Option String)
  | success (assembly : Option String)

inductive SendStatus where
  | pending | duplicate | tryAgainLater | error
  deriving DecidableEq

def SendStatus.takes : SendStatus → Bool
  | .pending => true
  | .duplicate => true
  | _ => false

structure SendResponse where
  status : SendStatus
  hash : Nat
  /-- `JSON.stringify` -/
  json : String

inductive TransactionStatus where
  | notFound
  | success
  | failed (resultXdr : Option String)

inductive Op where
  | getTransactionFee
  /-- `rpcServer.simulateTransaction` -/
  | lookUp (invocation : Invocation)
  | loadAccount (address : String)
  /-- `simulator.simulateTransaction` -/
  | simulateTransaction (invocation : Invocation)
  | recordSigningKeyVersion (walletId keyVersion : String)
  | sign (invocation : Invocation) (keyId : String)
  | sendTransaction (invocation : Invocation)
  | setTimeout (ms : Nat)
  | getTransaction (hash : Nat)

@[reducible] def Op.Reply : Op → Type
  | .getTransactionFee => String
  | .lookUp _ => Looked
  | .loadAccount _ => String
  | .simulateTransaction _ => Simulation
  | .sendTransaction _ => SendResponse
  | .getTransaction _ => TransactionStatus
  | _ => Unit

@[reducible] def permissionSignature : Signature := ⟨Op, Op.Reply, Thrown⟩

abbrev PermissionM := Program permissionSignature

def op (o : Op) : PermissionM o.Reply := Program.perform (S := permissionSignature) o

def orThrow {α : Type} : Except Thrown α → PermissionM α
  | .ok a => .ret a
  | .error e => .fail e

section
variable (cfg : Settings)

def loadSequenceNumber (address : String) : PermissionM String :=
  (op (.loadAccount address)).tryCatch fun err =>
    if cfg.isTest then return "1"
    else .fail (permissionError s!"Unable to load account sequence for {address}: {err.message}" "SEQUENCE_LOAD_FAILED" 502)

def invokeContractFunction (contract : String) : PermissionM Unit :=
  match cfg.contractError contract with
  | none => return ()
  | some message => .fail (.other message)

def intervalMs : Nat := if cfg.isTest then 10 else 5000

def maxAttempts : Nat := if cfg.isTest then 2 else 12

def unconfirmed (txHash : Nat) : Thrown :=
  permissionError s!"Transaction {txHash} was not confirmed within the polling window" "TRANSACTION_UNCONFIRMED" 504

def pollAttempts (txHash : Nat) : Nat → PermissionM Unit
  | 0 => .fail (unconfirmed txHash)
  | attempts + 1 => do
    op (.setTimeout (intervalMs cfg))
    let txStatus ← (op (.getTransaction txHash)).attempt
    match txStatus with
    | .ok .success => return ()
    | .ok (.failed resultXdr) =>
      let reason := resultXdr.getD "Unknown error"
      .fail (permissionError s!"Transaction execution failed on-chain: {reason}")
    | .ok .notFound => pollAttempts txHash attempts
    | .error (.permission err) => .fail (.permission err)
    | .error (.other _) => pollAttempts txHash attempts

def pollTransactionConfirmation (txHash : Nat) : PermissionM Unit := pollAttempts cfg txHash (maxAttempts cfg)

def readGrant (contractId spender : String) : Looked → Except String (Option PermissionGrant)
  | .error _ => .ok none
  | .success none => .ok none
  | .success (some nativeVal) =>
    if nativeVal.falsy || nativeVal.keyless then .ok none
    else parsePermissionGrant cfg.toConversions contractId nativeVal (some spender)

/-- The rest of `get`, for inputs that have been resolved. -/
def queryGrant (contractId owner spender : String) : PermissionM (Option PermissionGrant) := do
  let fee ← op .getTransactionFee
  invokeContractFunction cfg contractId
  (do
    let simRes ← op (.lookUp ⟨contractId, "get_permission", owner, spender, "0", fee⟩)
    orThrow ((readGrant cfg contractId spender simRes).mapError Thrown.other)).tryCatch fun _ => return none

def get (contractIdInput ownerInput spenderInput : String) : PermissionM (Option PermissionGrant) := do
  let owner ← orThrow (resolveOwner cfg (some ownerInput))
  let contractId ← orThrow (resolveContractId cfg (some contractIdInput))
  let spender ← orThrow (validateSpender cfg spenderInput)
  queryGrant cfg contractId owner spender

/-- The rest of `revoke`, for a grant that has been found. -/
def submitRevocation (contractId owner spender : String) : PermissionM Unit := do
  let sequence ← loadSequenceNumber cfg owner
  invokeContractFunction cfg contractId
  let fee ← op .getTransactionFee
  let tx : Invocation := ⟨contractId, "revoke_permission", owner, spender, sequence, fee⟩
  let simRes ← op (.simulateTransaction tx)
  match simRes with
  | .rejected reasons error =>
    let reported := ", ".intercalate reasons
    let errorMsg := if reported = "" then (error.filter fun error => decide (error ≠ "")).getD "Simulation rejected" else reported
    .fail (simulationFailedError s!"Permission revoke simulation failed: {errorMsg}")
  | .success assembly => do
    op (.recordSigningKeyVersion owner cfg.activeKeyVersion)
    match assembly with
    | some err => .fail (simulationFailedError s!"Failed to assemble transaction from simulation: {err}")
    | none => do
      op (.sign tx owner)
      let sendRes ← op (.sendTransaction tx)
      if sendRes.status = .error then .fail (permissionError s!"Failed to submit permission revoke: {sendRes.json}")
      else pollTransactionConfirmation cfg sendRes.hash

/-- The rest of `revoke`, for inputs that have been resolved. -/
def revokeGrant (contractId owner spender : String) : PermissionM Unit := do
  let existing ← get cfg contractId owner spender
  match existing with
  | none => return ()
  | some _ => submitRevocation cfg contractId owner spender

def revoke (contractIdInput spenderInput : String) (explicitOwner : Option String) : PermissionM Unit := do
  let owner ← orThrow (resolveOwner cfg explicitOwner)
  let contractId ← orThrow (resolveContractId cfg (some contractIdInput))
  let spender ← orThrow (validateSpender cfg spenderInput)
  revokeGrant cfg contractId owner spender

def revokeEach (contractId owner : String) : List String → PermissionM Unit
  | [] => return ()
  | spender :: spenders => do
    revoke cfg contractId spender (some owner)
    revokeEach contractId owner spenders

def revokeBatch (contractIdInput : String) (spenderInputs : List String) (explicitOwner : Option String) :
    PermissionM Unit :=
  if spenderInputs = [] then return ()
  else do
    let owner ← orThrow (resolveOwner cfg explicitOwner)
    let contractId ← orThrow (resolveContractId cfg (some contractIdInput))
    let spenders ← orThrow (spenderInputs.mapM (validateSpender cfg))
    revokeEach cfg contractId owner spenders.eraseDups

end

structure Sent where
  (contract owner spender : String)
  taken : Bool
  /-- Whether it has succeeded, once it has been executed. -/
  succeeded : Option Bool

abbrev Fields := List (String × Native)

structure World where
  /-- By contract, owner and spender. -/
  grants : String → String → String → Option Fields
  /-- A hash is a place in the list: every transaction has its own. -/
  sent : List Sent

inductive Event where
  | executed (hash : Nat) (succeeded : Bool)
  /-- It goes away on its own, or another takes it away. -/
  | removed (contract owner spender : String)

def World.remove (w : World) (contract owner spender : String) : World :=
  { w with
    grants := fun c o s => if c = contract ∧ o = owner ∧ s = spender then none else w.grants c o s }

def World.execute (w : World) (hash : Nat) (succeeded : Bool) : World :=
  match w.sent[hash]? with
  | none => w
  | some tx =>
    if !tx.taken || tx.succeeded.isSome then w
    else
      let w' : World := { w with sent := w.sent.set hash { tx with succeeded := some succeeded } }
      if succeeded then w'.remove tx.contract tx.owner tx.spender else w'

def World.after (w : World) : Event → World
  | .executed hash succeeded => w.execute hash succeeded
  | .removed contract owner spender => w.remove contract owner spender

inductive Lookup where
  | answered
  | simulationError (message : String)
  | empty
  | thrown (message : String)

/-- What the environment decides about an operation. -/
structure Choice where
  events : List Event := []
  fate : Fate := .done
  fee : String := "100"
  sequence : String := "1"
  simulation : Simulation := .success none
  status : SendStatus := .pending
  json : String := ""
  /-- The network does not know of an execution yet. -/
  late : Bool := false
  resultXdr : Option String := none

def World.status (w : World) (hash : Nat) (ch : Choice) : TransactionStatus :=
  match w.sent[hash]?.bind Sent.succeeded with
  | none => .notFound
  | some succeeded => if ch.late then .notFound else if succeeded then .success else .failed ch.resultXdr

def answer (o : Op) (ch : Choice) (w : World) : o.Reply × World :=
  match o with
  | .getTransactionFee => (ch.fee, w)
  | .lookUp tx => (.success (((w.grants tx.contract tx.owner tx.spender).map Native.object).getD .null), w)
  | .loadAccount _ => (ch.sequence, w)
  | .simulateTransaction _ => (ch.simulation, w)
  | .recordSigningKeyVersion _ _ => ((), w)
  | .sign _ _ => ((), w)
  | .sendTransaction tx => (⟨ch.status, w.sent.length, ch.json⟩, { w with
      sent := w.sent ++ [⟨tx.contract, tx.owner, tx.spender, ch.status.takes, none⟩] })
  | .setTimeout _ => ((), w)
  | .getTransaction hash => (w.status hash ch, w)

/-- A lookup comes out as it is said, of the spender; a fee and a pause do not throw. -/
def deliver (lookups : String → Lookup) (o : Op) (ch : Choice) (w : World) : permissionSignature.Result o × World :=
  match o with
  | .getTransactionFee => (.ok ch.fee, w)
  | .setTimeout _ => (.ok (), w)
  | .lookUp tx => match lookups tx.spender with
    | .answered => (.ok (answer (.lookUp tx) ch w).1, w)
    | .simulationError message => (.ok (.error message), w)
    | .empty => (.ok (.success none), w)
    | .thrown message => (.error (.other message), w)
  | o =>
    let carried := ch.fate.carry (answer o ch w) w
    (carried.1.mapError Thrown.other, carried.2)

def perform (lookups : String → Lookup) (o : Op) (ch : Choice) (w : World) : permissionSignature.Result o × World :=
  deliver lookups o ch (ch.events.foldl World.after w)

def does (lookups : String → Lookup) : Effect permissionSignature World := fun o w r w' =>
  ∃ ch, (r, w') = perform lookups o ch w

end Delego.Permissions
