import Delego.Data.Column
import Delego.Data.Table
import Delego.Process.Serial

/-! M-of-N sign-off of orders (`orchestrator/src/dualControl/service.ts`, tables of
migrations 042 and 046).

A signature is recorded in one transaction that locks the approval first, so calls on one
approval come one after another. The identifiers that the database draws for new rows are
given with the call; a drawn identifier that is taken fails the insert (primary key).
Identifiers are of type UUID: what a request has as a text is read by the column, and what
comes out of a row is in the form that the column gives back. References to users are not modelled: a statement may fail for any reason. -/
namespace Delego.DualControl
open Delego.Process Delego.Data

inductive DualControlStatus where
  | pending | approved
  deriving DecidableEq

/-- A row of the approvals. -/
structure DualControlApproval where
  (id orderId : String)
  requiredSignatures : Int
  createdByUserId : String
  status : DualControlStatus
  expiresAt : Option Int

structure DualControlSignature where
  (id approvalId signerUserId : String)
  signatureNote : Option String

/-- The column is free text; only one value of it is written here. -/
inductive OrderStatus where
  | approved
  | other (status : String)
  deriving DecidableEq

structure Order where
  id : String
  status : OrderStatus

/-- `dual_control_approvals`, `dual_control_signatures` and `orders`. -/
structure Tables where
  approvals : List DualControlApproval
  signatures : List DualControlSignature
  orders : List Order

inductive DualControlError where
  | approvalNotFound (message : String)
  | approvalNotPending (message : String)
  | selfSignature (message : String)
  | duplicateSignature (message : String)
  | invalidQuorum (requiredSignatures : Option Rat)
  | database (message : String)

inductive Statement where
  | insertApproval (id orderId : String) (requiredSignatures : Int) (createdByUserId : String) (expiresAt : Int)
  | selectApprovalForUpdate (id : String)
  /-- `ON CONFLICT (approval_id, signer_user_id) DO NOTHING`; whether a row was inserted. -/
  | insertSignature (id approvalId signerUserId : String) (note : Option String)
  | countSignatures (approvalId : String)
  | approveApproval (id : String)
  | approveOrder (orderId : String)

@[reducible] def Statement.Reply : Statement → Type
  | .insertApproval .. => DualControlApproval
  | .selectApprovalForUpdate _ => Option DualControlApproval
  | .insertSignature .. => Bool
  | .countSignatures _ => Nat
  | .approveApproval _ => DualControlApproval
  | .approveOrder _ => Unit

@[reducible] def dualControlSignature : Signature := ⟨Statement, Statement.Reply, DualControlError⟩

def Tables.signers (d : Tables) (approvalId : String) : List String :=
  (d.signatures.filter fun s => decide (s.approvalId = approvalId)).map DualControlSignature.signerUserId

def DualControlApproval.approve (id : String) (approval : DualControlApproval) : DualControlApproval :=
  if approval.id = id then { approval with status := .approved } else approval

def Order.approve (id : String) (order : Order) : Order :=
  if order.id = id then { order with status := .approved } else order

def taken (id : String) : DualControlError := .database s!"duplicate key value: {id}"

def noUuid : DualControlError := .database "invalid input syntax for type uuid"

def execute (uuid : Column) : Statements dualControlSignature Tables
  | .insertApproval id orderId requiredSignatures createdByUserId expiresAt, d =>
    match uuid.read orderId, uuid.read createdByUserId with
    | some orderId, some createdByUserId =>
      if (lookup Order.id d.orders orderId).isNone then .error (.database "orders(id) not present")
      else if (lookup DualControlApproval.id d.approvals id).isSome then .error (taken id)
      else
        let approval : DualControlApproval :=
          { id := id, orderId := orderId, requiredSignatures := requiredSignatures
            createdByUserId := createdByUserId, status := .pending
            expiresAt := some expiresAt }
        .ok (approval, { d with approvals := d.approvals ++ [approval] })
    | _, _ => .error noUuid
  | .selectApprovalForUpdate id, d =>
    match uuid.read id with
    | some id => .ok (lookup DualControlApproval.id d.approvals id, d)
    | none => .error noUuid
  | .insertSignature id approvalId signerUserId note, d =>
    match uuid.read signerUserId with
    | some signerUserId =>
      if signerUserId ∈ d.signers approvalId then .ok (false, d)
      else if (lookup DualControlSignature.id d.signatures id).isSome then .error (taken id)
      else .ok (true, { d with signatures := d.signatures ++ [⟨id, approvalId, signerUserId, note⟩] })
    | none => .error noUuid
  | .countSignatures approvalId, d => .ok ((d.signers approvalId).length, d)
  | .approveApproval id, d =>
    let approvals := d.approvals.map (DualControlApproval.approve id)
    match lookup DualControlApproval.id approvals id with
    | some approval => .ok (approval, { d with approvals := approvals })
    | none => .error (.database "no row returned")
  | .approveOrder orderId, d => .ok ((), { d with orders := d.orders.map (Order.approve orderId) })

abbrev DualControlM := SqlM dualControlSignature

def query (o : Statement) : DualControlM o.Reply := statement (S := dualControlSignature) o

def raise {α : Type} (e : DualControlError) : DualControlM α := .fail e

structure CreateApprovalRequest where
  (orderId createdByUserId : String)
  requiredSignatures : Option Rat := none
  expiresAt : Option Int := none

structure SignApprovalRequest where
  (approvalId signerUserId : String)
  note : Option String := none

structure SignApprovalResult where
  approval : DualControlApproval
  signatureCount : Nat
  /-- This signature completed the quorum and approved the order. -/
  quorumReached : Bool

def createApproval (id : String) (now : Int) (request : CreateApprovalRequest) :
    DualControlM DualControlApproval :=
  let required := request.requiredSignatures.getD 2
  if !required.isInt || required < 1 then raise (.invalidQuorum request.requiredSignatures)
  else
    let expiresAt := request.expiresAt.getD (now + 24 * 60 * 60 * 1000)
    query (.insertApproval id request.orderId required.num request.createdByUserId expiresAt)

def signInTransaction (signatureId : String) (request : SignApprovalRequest) :
    DualControlM SignApprovalResult := do
  let locked ← query (.selectApprovalForUpdate request.approvalId)
  match locked with
  | none => raise (.approvalNotFound s!"Approval {request.approvalId} not found")
  | some approval =>
    if approval.status ≠ .pending then
      raise (.approvalNotPending s!"Approval {approval.id} is approved and no longer accepts signatures")
    else if request.signerUserId = approval.createdByUserId then
      raise (.selfSignature s!"User {request.signerUserId} created approval {approval.id} and cannot sign it")
    else do
      let inserted ← query (.insertSignature signatureId approval.id request.signerUserId request.note)
      if !inserted then
        raise (.duplicateSignature s!"User {request.signerUserId} has already signed approval {approval.id}")
      else do
        let signatureCount ← query (.countSignatures approval.id)
        if (signatureCount : Int) < approval.requiredSignatures then
          return { approval := approval, signatureCount := signatureCount, quorumReached := false }
        else do
          let updated ← query (.approveApproval approval.id)
          let _ ← query (.approveOrder approval.orderId)
          return { approval := updated, signatureCount := signatureCount, quorumReached := true }

def sign (signatureId : String) (request : SignApprovalRequest) : DualControlM SignApprovalResult :=
  inTransaction do
    let result ← signInTransaction signatureId request
    commit
    return result

inductive Call where
  | createApproval (id : String) (now : Int) (request : CreateApprovalRequest)
  | sign (signatureId : String) (request : SignApprovalRequest)

def Call.body : Call → DualControlM Unit
  | .createApproval id now request => do
    let _ ← DualControl.createApproval id now request
    return ()
  | .sign signatureId request => do
    let _ ← DualControl.sign signatureId request
    return ()

/-- A call takes the tables `d` to `d'`, and returns or throws. Where the connection is `lossy`, a statement may be
carried out though its answer is lost. -/
def Performs (uuid : Column) (lossy : Prop) (call : Call) (d : Tables) (outcome : Except DualControlError Unit)
    (d' : Tables) : Prop :=
  Ends (sqlEffect (execute uuid) lossy) call.body (Session.rest d) outcome (Session.rest d')

end Delego.DualControl
