import Delego.Data.Table

/-! Recovery of an account, as the gateway keeps it (`gateway/src/recovery/service.ts`).

Calls come one after another, each at one time; the configuration of an account does not change. Instants are in
milliseconds, and stand for their texts. -/
namespace Delego.AccountRecovery
open Delego.Data

section
variable {W : Type}

structure Guardian (W : Type) where
  id : String
  verified : Bool
  weight : W

/-- The hours are those of a `SMALLINT` column. -/
structure RecoveryConfig (W : Type) where
  guardians : List (Guardian W)
  threshold : W
  delayHours : Int

inductive RecoveryType where
  | social | emergency | hardware

inductive RecoveryStatus where
  | pending | verifying | delayed | approved | completed | cancelled
  deriving DecidableEq

structure NewCredentials where
  (publicKey newStellarAddress : String)

/-- A recovery, as it is stored. -/
structure RecoveryRequest where
  (id accountId initiatedBy : String)
  type : RecoveryType
  status : RecoveryStatus
  (guardiansApproved guardiansRejected : List String)
  delayEndsAt : Option Int
  (initiatedAt expiresAt : Int)
  (completedAt cancelledAt : Option Int)
  newCredentials : Option NewCredentials

/-- What a call finds: the configurations, and how the environment behaves. -/
structure Settings (W : Type) where
  config : String → Option (RecoveryConfig W)
  /-- Whether `save` writes an array that was changed in place, and not assigned. -/
  savesInPlace : Bool
  /-- `setMinutes(getMinutes() + 30)`, on the clock of the server. -/
  halfHourLater : Int → Int

/-- What becomes of a stored row when `row` is saved. -/
def written (s : Settings W) (stored row : RecoveryRequest) : RecoveryRequest :=
  if s.savesInPlace then row
  else { row with guardiansApproved := stored.guardiansApproved, guardiansRejected := stored.guardiansRejected }

def save (s : Settings W) (requests : List RecoveryRequest) (row : RecoveryRequest) : List RecoveryRequest :=
  match lookup RecoveryRequest.id requests row.id with
  | none => requests
  | some stored => replace RecoveryRequest.id requests (written s stored row)

def totalWeight [Zero W] [Add W] (guardians : List (Guardian W)) : W :=
  guardians.foldl (fun weight guardian => weight + guardian.weight) 0

def counted (config : RecoveryConfig W) (approvedGuardianIds : List String) : List (Guardian W) :=
  config.guardians.filter fun guardian => decide (guardian.id ∈ approvedGuardianIds) && guardian.verified

def calculateVerifiedWeight [Zero W] [Add W] (config : RecoveryConfig W) (approvedGuardianIds : List String) : W :=
  totalWeight (counted config approvedGuardianIds)

def isThresholdMet [Zero W] [Add W] [LE W] [DecidableLE W] (config : RecoveryConfig W)
    (approvedGuardianIds : List String) : Bool :=
  decide (config.threshold ≤ calculateVerifiedWeight config approvedGuardianIds)

def delayMs (config : RecoveryConfig W) : Int := config.delayHours * 60 * 60 * 1000

def calculateDelayEndTime (config : RecoveryConfig W) (now : Int) : Int := now + delayMs config

def calculateExpirationTime (s : Settings W) (config : RecoveryConfig W) (now : Int) : Int :=
  s.halfHourLater (now + delayMs config)

def RecoveryStatus.final (status : RecoveryStatus) : Bool := status = .completed || status = .cancelled

/-- `id` is drawn for the row. -/
def initiateRecovery (s : Settings W) (accountId initiatedBy : String) (type : RecoveryType) (id : String) (now : Int)
    (requests : List RecoveryRequest) : Except String RecoveryRequest × List RecoveryRequest :=
  match s.config accountId with
  | none => (.error "Recovery configuration not found", requests)
  | some config =>
    if requests.any fun r => r.accountId = accountId && !r.status.final then
      (.error "An active recovery is already in progress", requests)
    else if (lookup RecoveryRequest.id requests id).isSome then (.error "id must be unique", requests)
    else
      let row :=
        { id, accountId, initiatedBy, type, status := .pending, guardiansApproved := [], guardiansRejected := [],
          delayEndsAt := some (calculateDelayEndTime config now), initiatedAt := now,
          expiresAt := calculateExpirationTime s config now, completedAt := none, cancelledAt := none, newCredentials := none }
      (.ok row, requests ++ [row])

def authorized (s : Settings W) (recoveryId guardianId : String) (requests : List RecoveryRequest) :
    Except String (RecoveryRequest × RecoveryConfig W × Guardian W) :=
  match lookup RecoveryRequest.id requests recoveryId with
  | none => .error "Recovery request not found"
  | some recovery =>
    match s.config recovery.accountId with
    | none => .error "Recovery configuration not found"
    | some config =>
      match config.guardians.find? fun guardian => guardian.id = guardianId with
      | none => .error "Guardian not found in recovery configuration"
      | some guardian => .ok (recovery, config, guardian)

def processGuardianApproval [Zero W] [Add W] [LE W] [DecidableLE W] (s : Settings W) (recoveryId guardianId : String)
    (now : Int) (requests : List RecoveryRequest) : Except String RecoveryRequest × List RecoveryRequest :=
  match authorized s recoveryId guardianId requests with
  | .error message => (.error message, requests)
  | .ok (recovery, config, guardian) =>
    if !guardian.verified then (.error "Guardian must be verified before approving recovery", requests)
    else if guardianId ∈ recovery.guardiansApproved then (.error "Guardian has already approved this recovery", requests)
    else if guardianId ∈ recovery.guardiansRejected then (.error "Guardian has already rejected this recovery", requests)
    else
      let recovery := { recovery with guardiansApproved := recovery.guardiansApproved ++ [guardianId] }
      let requests := save s requests recovery
      if isThresholdMet config recovery.guardiansApproved then
        let recovery := { recovery with status := .delayed, delayEndsAt := some (calculateDelayEndTime config now) }
        (.ok recovery, save s requests recovery)
      else (.ok recovery, requests)

def rejectRecovery (s : Settings W) (recoveryId guardianId : String) (requests : List RecoveryRequest) :
    Except String RecoveryRequest × List RecoveryRequest :=
  match authorized s recoveryId guardianId requests with
  | .error message => (.error message, requests)
  | .ok (recovery, _, _) =>
    if guardianId ∈ recovery.guardiansRejected then (.error "Guardian has already rejected this recovery", requests)
    else
      let recovery := { recovery with guardiansRejected := recovery.guardiansRejected ++ [guardianId] }
      (.ok recovery, save s requests recovery)

def cancelRecovery (s : Settings W) (recoveryId accountId : String) (now : Int) (requests : List RecoveryRequest) :
    Except String Unit × List RecoveryRequest :=
  match lookup RecoveryRequest.id requests recoveryId with
  | none => (.error "Recovery request not found", requests)
  | some recovery =>
    if recovery.accountId ≠ accountId then (.error "Cannot cancel recovery for another account", requests)
    else if recovery.status.final then (.error "Recovery is already completed or cancelled", requests)
    else (.ok (), save s requests { recovery with status := .cancelled, cancelledAt := some now })

/-- `drawn` is the key that is made up if no address is given. -/
def completeRecovery (s : Settings W) (recoveryId accountId : String) (newStellarAddress : Option String) (drawn : String)
    (now : Int) (requests : List RecoveryRequest) : Except String RecoveryRequest × List RecoveryRequest :=
  match lookup RecoveryRequest.id requests recoveryId with
  | none => (.error "Recovery request not found", requests)
  | some recovery =>
    if recovery.accountId ≠ accountId then (.error "Cannot complete recovery for another account", requests)
    else if recovery.status ≠ .delayed then (.error "Recovery must be in delayed status before completion", requests)
    else if now < recovery.delayEndsAt.getD 0 then (.error "Recovery delay has not yet expired", requests)
    else
      let newPublicKey := match newStellarAddress with
        | none => drawn
        | some address => if address = "" then drawn else address
      let recovery :=
        { recovery with newCredentials := some ⟨newPublicKey, newPublicKey⟩, status := .completed, completedAt := some now }
      (.ok recovery, save s requests recovery)

end

end Delego.AccountRecovery
