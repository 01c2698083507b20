import Delego.Data.Table
import Delego.Data.Text
import Delego.Process.Returned

/-! Co-signing sessions (`wallet/src/multisig/coSigningService.ts`).

The store hands out the session object itself, and a call goes on without interruption from one await to the next: what
it does to the session in between is one operation here. What the SDK does is a parameter (`Stellar`). -/
namespace Delego.CoSigning
open Delego.Process Delego.Data

inductive CoSigningSessionStatus where
  | collecting | ready | submitted | expired
  deriving DecidableEq

def CoSigningSessionStatus.text : CoSigningSessionStatus → String
  | .collecting => "collecting"
  | .ready => "ready"
  | .submitted => "submitted"
  | .expired => "expired"

structure CollectedSignature where
  (signerAddress signatureBase64 : String)

structure StoredCoSigningSession where
  (sessionId orderId transactionXdr : String)
  requiredThreshold : Nat
  collectedSignatures : List CollectedSignature
  status : CoSigningSessionStatus
  authorizedSigners : List String
  (createdAt expiresAt : Int)
  (combinedXdr submissionResult failureReason : Option String)

structure DecoratedSignature where
  (hint signature : List UInt8)
  deriving DecidableEq

structure Transaction where
  hash : List UInt8
  signatures : List DecoratedSignature

inductive Parsed where
  | transaction (tx : Transaction)
  | feeBump

/-- The SDK, with the passphrase of the network; and how Base64 is decoded. -/
structure Stellar where
  Keypair : Type
  fromPublicKey : String → Except String Keypair
  signatureHint : Keypair → List UInt8
  verify : Keypair → (hash : List UInt8) → (signature : List UInt8) → Bool
  fromXDR : String → Except String Parsed
  toXDR : Transaction → String
  decode : String → List UInt8

section
variable (sdk : Stellar)

def parseBaseTransaction (transactionXdr : String) : Except String Transaction :=
  match sdk.fromXDR transactionXdr with
  | .error message => .error s!"Invalid transaction XDR: {message}"
  | .ok .feeBump => .error "Only classic transactions are supported; fee-bump envelopes are not supported"
  | .ok (.transaction tx) => .ok tx

def decodeSignature (signatureBase64 : String) : Except String (List UInt8) :=
  if signatureBase64 = "" ∨ trim signatureBase64 = "" then .error "signatureBase64 is required"
  else if (sdk.decode signatureBase64).length ≠ 64 then
    .error s!"signatureBase64 must decode to 64 bytes (Ed25519), got {(sdk.decode signatureBase64).length}"
  else .ok (sdk.decode signatureBase64)

def validatePartialSignature (transactionXdr signerAddress signatureBase64 : String) : Except String Unit :=
  match sdk.fromPublicKey signerAddress with
  | .error _ => .error s!"Invalid signer Stellar public key: {signerAddress}"
  | .ok keypair => do
    let signature ← decodeSignature sdk signatureBase64
    let tx ← parseBaseTransaction sdk transactionXdr
    if sdk.verify keypair tx.hash signature then .ok ()
    else .error s!"Signature verification failed for signer {signerAddress}"

def decorated (collected : CollectedSignature) : Except String DecoratedSignature := do
  let signature ← decodeSignature sdk collected.signatureBase64
  let keypair ← sdk.fromPublicKey collected.signerAddress
  return ⟨sdk.signatureHint keypair, signature⟩

def pushNew (seen : List DecoratedSignature) (collected : CollectedSignature) : Except String (List DecoratedSignature) := do
  let signature ← decorated sdk collected
  return if signature ∈ seen then seen else seen ++ [signature]

/-- The envelope of `combineSignaturesIntoEnvelope`, before it is written as XDR. -/
def combineSignatures (transactionXdr : String) (collectedSignatures : List CollectedSignature) :
    Except String Transaction := do
  let tx ← parseBaseTransaction sdk transactionXdr
  let pushed ← collectedSignatures.foldlM (pushNew sdk) []
  return { tx with signatures := tx.signatures ++ pushed }

end

namespace StoredCoSigningSession

def isExpired (stored : StoredCoSigningSession) (now : Int) : Bool := decide (stored.expiresAt ≤ now)

/-- `collecting` or `ready` -/
def isOpen (stored : StoredCoSigningSession) : Bool :=
  decide (stored.status = .collecting) || decide (stored.status = .ready)

def markExpired (stored : StoredCoSigningSession) : StoredCoSigningSession :=
  if stored.isOpen then { stored with status := .expired } else stored

/-- Whatever the time, an open session is expired. -/
def expire (now : Int) (stored : StoredCoSigningSession) : StoredCoSigningSession :=
  if stored.isOpen then if stored.isExpired now then stored.markExpired else { stored with status := .expired }
  else stored

/-- `collectedSignatures.length >= requiredThreshold` -/
def reached (stored : StoredCoSigningSession) : Bool :=
  decide (stored.requiredThreshold ≤ stored.collectedSignatures.length)

def push (signature : CollectedSignature) (stored : StoredCoSigningSession) : StoredCoSigningSession :=
  { stored with collectedSignatures := stored.collectedSignatures ++ [signature] }

def attach (xdr : String) (stored : StoredCoSigningSession) : StoredCoSigningSession :=
  { stored with combinedXdr := some xdr }

def finish (result : Option String) (stored : StoredCoSigningSession) : StoredCoSigningSession :=
  { stored with
    submissionResult := result.or stored.submissionResult
    status := .submitted }

def fail (reason : String) (stored : StoredCoSigningSession) : StoredCoSigningSession :=
  { stored with failureReason := some reason }

end StoredCoSigningSession

def closed (sessionId : String) (status : CoSigningSessionStatus) : String :=
  s!"Co-signing session {sessionId} is already {status.text}"

/-- How a signature is taken. `lapsed` says whether the session is marked as expired now, and saved. -/
inductive Added where
  | lapsed (marked : Bool)
  | refused (message : String)
  | collected
  | ready

def addSignature (sdk : Stellar) (signature : CollectedSignature) (now : Int) (stored : StoredCoSigningSession) :
    Added × StoredCoSigningSession :=
  if stored.isExpired now then (.lapsed stored.isOpen, stored.markExpired)
  else if stored.status ≠ .collecting then (.refused (closed stored.sessionId stored.status), stored)
  else if stored.authorizedSigners ≠ [] ∧ signature.signerAddress ∉ stored.authorizedSigners then
    (.refused s!"Signer {signature.signerAddress} is not authorized for this session", stored)
  else if signature.signerAddress ∈ stored.collectedSignatures.map CollectedSignature.signerAddress then
    (.refused s!"Signer {signature.signerAddress} has already submitted a signature for session {stored.sessionId}", stored)
  else match validatePartialSignature sdk stored.transactionXdr signature.signerAddress signature.signatureBase64 with
    | .error message => (.refused message, stored)
    | .ok () =>
      if (stored.push signature).reached then (.ready, { stored.push signature with status := .ready })
      else (.collected, stored.push signature)

/-- How a session is submitted by a call of its own. -/
inductive Entered where
  | lapsed (marked : Bool)
  | refused (message : String)
  | already
  | launched

/-- The envelope is combined. It goes to the network where there is a function that submits; the session
is submitted at once where there is none. -/
def launch (sdk : Stellar) (submit : Bool) (stored : StoredCoSigningSession) :
    Except String (Transaction × StoredCoSigningSession) := do
  let tx ← combineSignatures sdk stored.transactionXdr stored.collectedSignatures
  return (tx, if submit then stored.attach (sdk.toXDR tx) else (stored.attach (sdk.toXDR tx)).finish none)

/-- The session when its envelope has been combined; as it was if that throws. -/
def launched (sdk : Stellar) (submit : Bool) (stored : StoredCoSigningSession) : StoredCoSigningSession :=
  match launch sdk submit stored with
  | .error _ => stored
  | .ok (_, session) => session

/-- A call of its own submits a session that has enough signatures, or not (the envelope is none then). -/
def enter (sdk : Stellar) (submit : Bool) (now : Int) (stored : StoredCoSigningSession) :
    Entered × Option Transaction × StoredCoSigningSession :=
  if stored.isExpired now then (.lapsed stored.isOpen, none, stored.markExpired)
  else if stored.status = .submitted then (.already, none, stored)
  else if stored.status = .expired then (.refused (closed stored.sessionId .expired), none, stored)
  else if stored.reached = false then
    (.refused s!"Threshold not met: {stored.collectedSignatures.length}/{stored.requiredThreshold} signatures", none, stored)
  else match launch sdk submit { stored with status := .ready } with
    | .error message => (.refused message, none, { stored with status := .ready })
    | .ok (tx, launched) => (.launched, some tx, launched)

/-! ### Operations -/

inductive Op where
  | get (sessionId : String)
  | add (sessionId : String) (signature : CollectedSignature) (now : Int)
  | enter (sessionId : String) (submit : Bool) (now : Int)
  | launch (sessionId : String) (submit : Bool)
  | submitResult (sessionId : String)
  | finish (sessionId : String) (result : String)
  | fail (sessionId reason : String)
  /-- The reply says whether the session was open, and is to be saved. -/
  | expire (sessionId : String) (now : Int)
  | save (sessionId : String)
  | now

@[reducible] def Op.Reply : Op → Type
  | .get _ => Bool
  | .add .. => Added
  | .enter .. => Entered
  | .submitResult _ => String
  | .expire .. => Bool
  | .now => Int
  | _ => Unit

@[reducible] def coSigningSignature : Signature := ⟨Op, Op.Reply, String⟩

abbrev CoSigningM := Program coSigningSignature

def op (o : Op) : CoSigningM o.Reply := Program.perform (S := coSigningSignature) o

/-- An envelope that went to the network, with the session as it was. -/
structure Submission where
  session : StoredCoSigningSession
  envelope : Transaction

structure World where
  clock : Int
  sessions : List StoredCoSigningSession
  /-- What has gone to the network, in order. -/
  submissions : List Submission
  /-- The sessions of which a submission has succeeded, in order. -/
  successes : List String

/-- What the environment decides about an operation. -/
structure Choice where
  fate : Fate := .done
  text : String := ""

def World.session (w : World) (id : String) : Option StoredCoSigningSession :=
  lookup StoredCoSigningSession.sessionId w.sessions id

def World.change (w : World) (id : String) (f : StoredCoSigningSession → StoredCoSigningSession) : World :=
  { w with sessions := update StoredCoSigningSession.sessionId w.sessions id f }

def World.sent (w : World) (submit : Bool) (session : StoredCoSigningSession) (envelope : Option Transaction) : World :=
  match submit, envelope with
  | true, some tx => { w with submissions := w.submissions ++ [⟨session, tx⟩] }
  | _, _ => w

/-- Sessions that have been found do not go away. -/
def notFound (id : String) : String := s!"Co-signing session not found: {id}"

def answer (sdk : Stellar) (o : Op) (ch : Choice) (w : World) : Except String (o.Reply × World) :=
  match o with
  | .get id => .ok ((w.session id).isSome, w)
  | .add id signature now => match w.session id with
    | none => .error (notFound id)
    | some stored =>
      .ok ((addSignature sdk signature now stored).1, w.change id fun s => (addSignature sdk signature now s).2)
  | .enter id submit now => match w.session id with
    | none => .error (notFound id)
    | some stored =>
      .ok ((enter sdk submit now stored).1,
        (w.change id fun s => (enter sdk submit now s).2.2).sent submit { stored with status := .ready }
          (enter sdk submit now stored).2.1)
  | .launch id submit => match w.session id with
    | none => .error (notFound id)
    | some stored => match launch sdk submit stored with
      | .error message => .error message
      | .ok (tx, _) => .ok ((), (w.change id (launched sdk submit)).sent submit stored (some tx))
  | .submitResult id => .ok (ch.text, { w with successes := w.successes ++ [id] })
  | .finish id result => .ok ((), w.change id (·.finish (some result)))
  | .fail id reason => .ok ((), w.change id (·.fail reason))
  | .expire id now => match w.session id with
    | none => .error (notFound id)
    | some stored => .ok (stored.isOpen, w.change id (·.expire now))
  | .save _ => .ok ((), w)
  | .now => .ok (w.clock, w)

def fateOf (o : Op) (ch : Choice) : Fate :=
  match o with
  | .submitResult _ => ch.fate
  | _ => .done

def perform (sdk : Stellar) (o : Op) (ch : Choice) (w : World) : Except String o.Reply × World :=
  (fateOf o ch).deliver (answer sdk o ch w) w

/-- `now = Date.now()` -/
def timeOf (now : Option Int) : CoSigningM Int :=
  match now with
  | some now => return now
  | none => op .now

/-- `submitStoredSession`, from where it awaits the network. -/
def awaitSubmission (sessionId : String) (submit : Bool) : CoSigningM Unit :=
  (awaited.tryCatch fun message => do
    op (.fail sessionId message)
    op (.save sessionId)
    .fail message)
where
  awaited : CoSigningM Unit := do
    if submit then do
      let submissionResult ← op (.submitResult sessionId)
      op (.finish sessionId submissionResult)
      op (.save sessionId)
    else op (.save sessionId)

def refreshed (sessionId : String) : CoSigningM Unit := do
  let found ← op (.get sessionId)
  if !found then .fail (notFound sessionId) else return ()

/-- A session that has expired is marked and saved. -/
def throwExpired (sessionId : String) (marked : Bool) : CoSigningM Unit := do
  if marked then op (.save sessionId) else pure ()
  .fail (closed sessionId .expired)

def addCoSignature (sessionId : String) (signature : CollectedSignature) (submit : Bool) (now : Option Int) :
    CoSigningM Unit := do
  let now ← timeOf now
  let found ← op (.get sessionId)
  if !found then .fail (notFound sessionId)
  else do
    match ← op (.add sessionId signature now) with
    | .lapsed marked => throwExpired sessionId marked
    | .refused message => .fail message
    | .collected => op (.save sessionId)
    | .ready => do
      op (.save sessionId)
      op (.launch sessionId submit)
      awaitSubmission sessionId submit
      refreshed sessionId

def submitCoSigningSession (sessionId : String) (submit : Bool) (now : Option Int) : CoSigningM Unit := do
  let now ← timeOf now
  let found ← op (.get sessionId)
  if !found then .fail (notFound sessionId)
  else do
    match ← op (.enter sessionId submit now) with
    | .lapsed marked => throwExpired sessionId marked
    | .refused message => .fail message
    | .already => return ()
    | .launched => do
      awaitSubmission sessionId submit
      refreshed sessionId

def expireCoSigningSession (sessionId : String) (now : Option Int) : CoSigningM Unit := do
  let now ← timeOf now
  let found ← op (.get sessionId)
  if !found then .fail (notFound sessionId)
  else do
    let marked ← op (.expire sessionId now)
    if marked then op (.save sessionId) else pure ()
    refreshed sessionId

inductive Call where
  | addCoSignature (sessionId : String) (signature : CollectedSignature) (submit : Bool) (now : Option Int)
  | submitCoSigningSession (sessionId : String) (submit : Bool) (now : Option Int)
  | expireCoSigningSession (sessionId : String) (now : Option Int)

def Call.body : Call → CoSigningM Unit
  | .addCoSignature sessionId signature submit now => CoSigning.addCoSignature sessionId signature submit now
  | .submitCoSigningSession sessionId submit now => CoSigning.submitCoSigningSession sessionId submit now
  | .expireCoSigningSession sessionId now => CoSigning.expireCoSigningSession sessionId now

inductive Event where
  | passes (ms : Nat)

def system (sdk : Stellar) : System coSigningSignature World where
  Choice := Choice
  Event := Event
  Call := Call
  perform := perform sdk
  drift := fun e w => match e with
    | .passes ms => { w with clock := w.clock + ms }
  arrive := fun _ w => some w
  body := Call.body

abbrev CoSigningPool := Pool coSigningSignature World

abbrev CoSigningTrace := List (Entry coSigningSignature)

end Delego.CoSigning
