import Delego.Data.Table
import Delego.Data.Text
import Delego.Process.Returned

/-! Sessions that collect partial signatures (`wallet/stellar/multisigSession.ts`, and `signMultisigTx` of `account.ts`).

The store keeps the session object itself and hands it out, so what one call changes the others see; a call goes on
without interruption from one await to the next. What it does to the session in between is one operation here, as is
each await; what it decides then, it decides from what it was given.

A signature that is made is one of the key of its signer: `signMultisigTx` throws where the vault has no such key. -/
namespace Delego.SigningSession
open Delego.Process Delego.Data

/-- The life of a session. -/
inductive MultisigSessionStatus where
  | collecting | thresholdMet | submitted | expired | failed
  deriving DecidableEq

def MultisigSessionStatus.text : MultisigSessionStatus → String
  | .collecting => "collecting"
  | .thresholdMet => "threshold_met"
  | .submitted => "submitted"
  | .expired => "expired"
  | .failed => "failed"

/-- The signature of one signer. -/
structure PartialSignature where
  (signer signedXdr : String)
  (signedAt expiresAt : Int)
  deriving DecidableEq

/-- A session: a transaction, and the signatures collected for it. -/
structure MultisigSession where
  (id baseXdr : String)
  configuredSigners : List String
  threshold : Rat
  signatures : List PartialSignature
  status : MultisigSessionStatus
  createdAt : Int
  (submittedXdr submissionResult failureReason : Option String)

namespace MultisigSession

/-- `session.signatures.length >= session.threshold` -/
def reached (session : MultisigSession) : Bool := decide (session.threshold ≤ session.signatures.length)

/-- Signatures whose time is over are dropped. -/
def pruneExpiredSignatures (asOf : Int) (session : MultisigSession) : MultisigSession :=
  { session with signatures := session.signatures.filter fun sig => decide (asOf < sig.expiresAt) }

/-- With enough signatures the threshold is met. -/
def collect (signature : PartialSignature) (session : MultisigSession) : MultisigSession :=
  let collected := { session with signatures := session.signatures ++ [signature] }
  if collected.reached then { collected with status := .thresholdMet } else collected

/-- `session.submittedXdr = combined` -/
def attach (xdr : String) (session : MultisigSession) : MultisigSession := { session with submittedXdr := some xdr }

def finish (xdr result : Option String) (session : MultisigSession) : MultisigSession :=
  { session with
    submittedXdr := xdr.or session.submittedXdr
    submissionResult := result.or session.submissionResult
    status := .submitted }

def fail (reason : String) (session : MultisigSession) : MultisigSession :=
  { session with
    status := .failed
    failureReason := some reason }

end MultisigSession

/-- What the service asks of its surroundings. -/
inductive Op where
  | get (id : String)
  /-- Expired signatures are dropped; then a signature, or a submission, is decided about. -/
  | examineSignature (id : String) (now : Int)
  | examineSubmission (id : String) (now : Int)
  | sign (xdr : String) (signers : List String)
  | collect (id : String) (signature : PartialSignature)
  | save (id : String)
  | signersOf (id : String)
  /-- `submit(combined)` is called, and awaited. -/
  | submit (id xdr : String)
  | submitResult (id xdr : String)
  | finish (id : String) (xdr result : Option String)
  | fail (id reason : String)
  | now

@[reducible] def Op.Reply : Op → Type
  | .get _ => Bool
  | .examineSignature .. => MultisigSession
  | .examineSubmission .. => MultisigSession
  | .sign .. => String
  | .collect .. => MultisigSession
  | .signersOf _ => MultisigSession
  | .submitResult .. => String
  | .now => Int
  | _ => Unit

@[reducible] def sessionSignature : Signature := ⟨Op, Op.Reply, String⟩

abbrev SessionM := Program sessionSignature

def op (o : Op) : SessionM o.Reply := Program.perform (S := sessionSignature) o

/-- A submission, with the session as it was, and when. -/
structure Submission where
  session : MultisigSession
  time : Int

/-- The stored sessions, and what has been sent. -/
structure World where
  clock : Int
  sessions : List MultisigSession
  /-- What has been submitted, in order. -/
  submissions : List Submission
  /-- The sessions of which a submission has succeeded, in order. -/
  successes : List String

/-- What the environment decides about an operation. -/
structure Choice where
  fate : Fate := .done
  text : String := ""

def World.session (w : World) (id : String) : Option MultisigSession := lookup MultisigSession.id w.sessions id

def World.change (w : World) (id : String) (f : MultisigSession → MultisigSession) : World :=
  { w with sessions := update MultisigSession.id w.sessions id f }

/-- Sessions that have been found do not go away. -/
def missing (id : String) : String := s!"no session {id}"

/-- What an operation does when it is carried out. -/
def answer (o : Op) (ch : Choice) (w : World) : Except String (o.Reply × World) :=
  match o with
  | .get id => .ok ((w.session id).isSome, w)
  | .examineSignature id now => examine id now
  | .examineSubmission id now => examine id now
  | .sign .. => .ok (ch.text, w)
  | .collect id signature => match w.session id with
    | none => .error (missing id)
    | some session => .ok (session.collect signature, w.change id (·.collect signature))
  | .save _ => .ok ((), w)
  | .signersOf id => match w.session id with
    | none => .error (missing id)
    | some session => .ok (session, w)
  | .submit id xdr => match w.session id with
    | none => .error (missing id)
    | some session => .ok ((), { w.change id (·.attach xdr) with submissions := w.submissions ++ [⟨session, w.clock⟩] })
  | .submitResult id _ => .ok (ch.text, { w with successes := w.successes ++ [id] })
  | .finish id xdr result => .ok ((), w.change id (·.finish xdr result))
  | .fail id reason => .ok ((), w.change id (·.fail reason))
  | .now => .ok (w.clock, w)
where
  examine (id : String) (now : Int) : Except String (MultisigSession × World) :=
    match w.session id with
    | none => .error (missing id)
    | some session => .ok (session.pruneExpiredSignatures now, w.change id (·.pruneExpiredSignatures now))

/-- Only signing and the submission can fail. -/
def fateOf (o : Op) (ch : Choice) : Fate :=
  match o with
  | .sign .. => ch.fate
  | .submitResult .. => ch.fate
  | _ => .done

def perform (o : Op) (ch : Choice) (w : World) : Except String o.Reply × World :=
  (fateOf o ch).deliver (answer o ch w) w

def DEFAULT_SIGNATURE_TTL_MS : Int := 15 * 60 * 1000

/-- A signature that is handed in. -/
structure AddSignatureInput where
  (sessionId signer : String)
  ttlMs : Int := DEFAULT_SIGNATURE_TTL_MS
  now : Option Int := none

/-- `now = Date.now()` -/
def timeOf (now : Option Int) : SessionM Int :=
  match now with
  | some now => return now
  | none => op .now

def uniqueSigners (signers : List String) : List String := ((signers.map trim).filter fun s => decide (s ≠ "")).eraseDups

def signMultisigTx (xdr : String) (signers : List String) : SessionM String :=
  if xdr = "" ∨ trim xdr = "" then .fail "xdr is required"
  else if signers = [] then .fail "At least one signer is required"
  else if uniqueSigners signers = [] then .fail "At least one non-empty signer public key is required"
  else op (.sign xdr (uniqueSigners signers))

/-- All signers sign the envelope anew. -/
def buildCombinedSignedXdr (session : MultisigSession) : SessionM String :=
  signMultisigTx session.baseXdr (session.signatures.map PartialSignature.signer)

/-- What `submitSession` tries, with the session as `buildCombinedSignedXdr` finds it. -/
def submitCombined (sessionId : String) (submit : Bool) (session : SessionM MultisigSession) : SessionM Unit := do
  let session ← session
  let combined ← buildCombinedSignedXdr session
  if submit then do
    op (.submit sessionId combined)
    let submissionResult ← op (.submitResult sessionId combined)
    op (.finish sessionId none (some submissionResult))
    op (.save sessionId)
  else do
    op (.finish sessionId (some combined) none)
    op (.save sessionId)

def submitSession (sessionId : String) (submit : Bool) (session : SessionM MultisigSession) : SessionM Unit :=
  (submitCombined sessionId submit session).tryCatch fun message => do
    op (.fail sessionId message)
    op (.save sessionId)
    .fail message

/-- `submit` says whether there is a function that submits. -/
def collectPartialSignature (input : AddSignatureInput) (submit : Bool) : SessionM Unit := do
  let now ← timeOf input.now
  let found ← op (.get input.sessionId)
  if !found then .fail s!"Multi-sig session not found: {input.sessionId}"
  else do
    let session ← op (.examineSignature input.sessionId now)
    if session.status ≠ .collecting then .fail s!"Multi-sig session {input.sessionId} is already {session.status.text}"
    else if input.signer ∉ session.configuredSigners then .fail s!"Signer {input.signer} is not authorized for this session"
    else if session.signatures.any fun s => decide (s.signer = input.signer) then op (.save input.sessionId)
    else do
      let signedXdr ← signMultisigTx session.baseXdr [input.signer]
      let session ← op (.collect input.sessionId ⟨input.signer, signedXdr, now, now + input.ttlMs⟩)
      op (.save input.sessionId)
      if session.reached then submitSession input.sessionId submit (op (.signersOf input.sessionId))
      else return ()

def MultisigSession.short (session : MultisigSession) : Bool := decide (session.status ≠ .thresholdMet) && !session.reached

def submitMultisigSession (cfg : Rat → String) (sessionId : String) (submit : Bool) (now : Option Int) :
    SessionM Unit := do
  let now ← timeOf now
  let found ← op (.get sessionId)
  if !found then .fail s!"Multi-sig session not found: {sessionId}"
  else do
    let session ← op (.examineSubmission sessionId now)
    if session.status = .submitted then return ()
    else if session.short then
      .fail s!"Threshold not met: {session.signatures.length}/{cfg session.threshold} valid signatures"
    else submitSession sessionId submit (return session)

/-- A call of the service. -/
inductive Call where
  | collectPartialSignature (input : AddSignatureInput) (submit : Bool)
  | submitMultisigSession (sessionId : String) (submit : Bool) (now : Option Int)

def Call.body (cfg : Rat → String) : Call → SessionM Unit
  | .collectPartialSignature input submit => SigningSession.collectPartialSignature input submit
  | .submitMultisigSession sessionId submit now => SigningSession.submitMultisigSession cfg sessionId submit now

/-- What happens between calls. -/
inductive Event where
  | passes (ms : Nat)

def system (cfg : Rat → String) : System sessionSignature World where
  Choice := Choice
  Event := Event
  Call := Call
  perform := perform
  drift := fun e w => match e with
    | .passes ms => { w with clock := w.clock + ms }
  arrive := fun _ w => some w
  body := Call.body cfg

abbrev SessionPool := Pool sessionSignature World

abbrev SessionTrace := List (Entry sessionSignature)

end Delego.SigningSession
