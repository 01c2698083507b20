import Delego.Data.Json
import Delego.Data.Table
import Delego.Process.Stepping

/-! Passkey authentication: a challenge that is consumed, and a counter that has to advance.

Each read of a table, each delete and each save is one step. What the WebAuthn library says of an assertion is
decided by the environment, as is the clock. An access may fail with nothing done. -/
namespace Delego.Passkeys
open Delego.Data Delego.Process

inductive PasskeyErrorCode where
  | config_error | user_not_found | credential_not_found | challenge_not_found | challenge_expired | verification_failed
  | replay_detected | conflict

inductive PasskeyError where
  | passkey (code : PasskeyErrorCode) (message : String)
  | database (message : String)

structure PasskeyConfig where
  userVerification : String
  enforceCounter : Bool

inductive CeremonyType where
  | registration | authentication
  deriving DecidableEq

/-- A row of `passkey_challenges`. -/
structure PasskeyChallenge where
  challenge : String
  type : CeremonyType
  userId : Option String
  expiresAt : Int

/-- A row of `passkey_credentials`. -/
structure PasskeyCredential where
  (id userId credentialId : String)
  publicKey : List UInt8
  counter : Int
  transports : Option (List String)
  userVerified : Bool
  lastUsedAt : Option Int

/-- What the browser sends; the client data is what `JSON.parse` reads in it, if it reads anything. -/
structure AuthenticationResponse where
  (id rawId : String)
  clientData : Option Json

structure WebAuthnCredential where
  id : String
  publicKey : List UInt8
  counter : Int
  transports : List String

/-- What the library answers; an authenticator's counter has 32 bits. -/
structure Verification where
  verified : Bool
  newCounter : UInt32
  userVerified : Bool

structure PasskeyAuthenticationResult where
  credential : WebAuthnCredential
  userId : String
  newCounter : Int
  userVerified : Bool

structure World where
  challenges : List PasskeyChallenge
  credentials : List PasskeyCredential

/-! ### Operations -/

inductive Op where
  | findChallenge (challenge : String) (type : CeremonyType)
  | destroyChallenge (challenge : String) (type : CeremonyType)
  | findCredential (credentialId : String)
  | now
  | verify (response : AuthenticationResponse) (expectedChallenge : String) (credential : WebAuthnCredential)
      (requireUserVerification : Bool)
  | save (before record : PasskeyCredential)
  /-- The caller is let in with the challenge. -/
  | given (challenge : String) (result : PasskeyAuthenticationResult)

@[reducible] def Op.Reply : Op → Type
  | .findChallenge _ _ => Option PasskeyChallenge
  | .destroyChallenge _ _ => Unit
  | .findCredential _ => Option PasskeyCredential
  | .now => Int
  | .verify _ _ _ _ => Verification
  | .save _ _ => Unit
  | .given _ _ => Unit

@[reducible] def passkeySignature : Signature := ⟨Op, Op.Reply, PasskeyError⟩

abbrev PasskeyM (α : Type) := Program passkeySignature α

def passkey (o : Op) : PasskeyM o.Reply := Program.perform (S := passkeySignature) o

def throwPasskey {α : Type} (code : PasskeyErrorCode) (message : String) : PasskeyM α := .fail (.passkey code message)

/-- What the environment decides: whether an access fails, and what it answers. -/
structure Choice where
  failure : Option String
  now : Int
  verification : Except String Verification

def isChallenge (challenge : String) (type : CeremonyType) (row : PasskeyChallenge) : Bool :=
  decide (row.challenge = challenge ∧ row.type = type)

/-- A column is written if it is not as it was read. -/
def changed {α : Type} [DecidableEq α] (before after stored : α) : α := if after = before then stored else after

/-- A row after a save of the record that was read as `before`. -/
def PasskeyCredential.saved (before record row : PasskeyCredential) : PasskeyCredential :=
  { row with
    counter := changed before.counter record.counter row.counter
    lastUsedAt := changed before.lastUsedAt record.lastUsedAt row.lastUsedAt
    userVerified := changed before.userVerified record.userVerified row.userVerified }

def PasskeyCredential.advanced (record : PasskeyCredential) (newCounter lastUsedAt : Int) (userVerified : Bool) :
    PasskeyCredential :=
  { record with counter := newCounter, lastUsedAt := some lastUsedAt, userVerified := userVerified }

def answer : (o : Op) → Choice → World → Except PasskeyError o.Reply × World
  | .findChallenge challenge type, _, w => (.ok (w.challenges.find? (isChallenge challenge type)), w)
  | .destroyChallenge challenge type, _, w =>
    (.ok (), { w with challenges := w.challenges.filter fun row => !isChallenge challenge type row })
  | .findCredential credentialId, _, w => (.ok (lookup PasskeyCredential.credentialId w.credentials credentialId), w)
  | .now, ch, w => (.ok ch.now, w)
  | .verify _ _ _ _, ch, w => (ch.verification.mapError .database, w)
  | .save before record, _, w =>
    (.ok (), { w with credentials := update PasskeyCredential.id w.credentials record.id (before.saved record) })
  | .given _ _, _, w => (.ok (), w)

def Op.isAccess : Op → Bool
  | .now => false
  | .verify _ _ _ _ => false
  | .given _ _ => false
  | _ => true

def perform (o : Op) (ch : Choice) (w : World) : Except PasskeyError o.Reply × World :=
  match ch.failure with
  | some message => if o.isAccess then (.error (.database message), w) else answer o ch w
  | none => answer o ch w

def consumeChallenge (challenge : String) (type : CeremonyType) : PasskeyM (Option String) := do
  match ← passkey (.findChallenge challenge type) with
  | none => throwPasskey .challenge_not_found "Unknown or already-used challenge. Restart the WebAuthn ceremony."
  | some row => do
    passkey (.destroyChallenge challenge type)
    let now ← passkey .now
    if row.expiresAt ≤ now then throwPasskey .challenge_expired "WebAuthn challenge has expired."
    else return row.userId

def challengeFromClientData (clientData : Option Json) : PasskeyM String :=
  match clientData with
  | some (.object members) =>
    match members.lookup "challenge" with
    | some (.string challenge) =>
      if challenge ≠ "" then pure challenge
      else throwPasskey .verification_failed "Malformed clientDataJSON in WebAuthn response."
    | _ => throwPasskey .verification_failed "Malformed clientDataJSON in WebAuthn response."
  | _ => throwPasskey .verification_failed "Malformed clientDataJSON in WebAuthn response."

/-- A counter that is not a safe integer counts as none. -/
def toCounter (value : Int) : Int := if 0 ≤ value ∧ value < 2 ^ 53 then value else 0

def assertCounterAdvanced (config : PasskeyConfig) (storedCounter newCounter : Int) : PasskeyM Unit :=
  if !config.enforceCounter then pure ()
  else if newCounter ≤ storedCounter then
    throwPasskey .replay_detected ("Passkey signature counter did not advance (stored " ++ toString storedCounter ++
      ", received " ++ toString newCounter ++
      "). This assertion was rejected as a potential replay or cloned authenticator.")
  else pure ()

def completePasskeyAuthentication (config : PasskeyConfig) (response : AuthenticationResponse) :
    PasskeyM (String × PasskeyAuthenticationResult) := do
  if response.id = "" || response.rawId = "" then
    throwPasskey .verification_failed "Malformed authentication response: missing credential id."
  else do
    let challenge ← challengeFromClientData response.clientData
    let challengeUserId ← consumeChallenge challenge .authentication
    match ← passkey (.findCredential response.id) with
    | none => throwPasskey .credential_not_found "No passkey is registered with this credential id."
    | some record => do
      if challengeUserId.any fun userId => userId ≠ "" && userId ≠ record.userId then
        throwPasskey .verification_failed "WebAuthn challenge does not belong to this user."
      else do
        let storedCounter := toCounter record.counter
        let transports := record.transports.getD []
        let verification ← Program.tryCatch
          (passkey (.verify response challenge ⟨record.credentialId, record.publicKey, storedCounter, transports⟩
            (config.userVerification = "required")))
          fun _ => throwPasskey .verification_failed "WebAuthn authentication response could not be verified."
        if !verification.verified then
          throwPasskey .verification_failed "WebAuthn authentication response failed verification."
        else do
          let newCounter : Int := verification.newCounter.toNat
          assertCounterAdvanced config storedCounter newCounter
          let lastUsedAt ← passkey .now
          passkey (.save record (record.advanced newCounter lastUsedAt verification.userVerified))
          return (challenge, ⟨⟨record.credentialId, record.publicKey, newCounter, transports⟩, record.userId, newCounter,
            verification.userVerified⟩)

def body (config : PasskeyConfig) (response : AuthenticationResponse) : PasskeyM Unit := do
  let (challenge, result) ← completePasskeyAuthentication config response
  passkey (.given challenge result)

def system (config : PasskeyConfig) : System passkeySignature World where
  Choice := Choice
  Event := Empty
  Call := AuthenticationResponse
  perform := perform
  drift := fun e => e.elim
  arrive := fun _ w => some w
  body := body config

/-! ### What a login does in turn: it finds its challenge, deletes it, reads the credential and saves it -/

/-- How far a login has come with a challenge. -/
inductive Phase where
  | idle
  | found (challenge : String)
  | consumed (challenge : String)
  | read (challenge : String) (before : PasskeyCredential)
  | saved (challenge : String) (before record : PasskeyCredential)

/-- A record that is saved: of the row that was read, with a counter that has advanced. -/
structure Advances (before record : PasskeyCredential) : Prop where
  id : record.id = before.id
  advanced : toCounter before.counter < record.counter
  valid : toCounter record.counter = record.counter

/-- A result of this credential, as it is stored. -/
structure Reports (record : PasskeyCredential) (result : PasskeyAuthenticationResult) : Prop where
  credential : result.credential.id = record.credentialId
  counter : result.newCounter = record.counter

def Phase.Allows : Phase → Op → Prop
  | φ, .findChallenge _ _ => φ = .idle
  | φ, .destroyChallenge challenge type => type = .authentication ∧ φ = .found challenge
  | φ, .findCredential _ => ∃ challenge, φ = .consumed challenge
  | φ, .save before record => ∃ challenge, φ = .read challenge before ∧ Advances before record
  | φ, .given challenge result => ∃ before record, φ = .saved challenge before record ∧ Reports record result
  | _, _ => True

def Phase.next : Phase → (o : Op) → passkeySignature.Result o → Phase
  | _, .findChallenge challenge _, .ok (some _) => .found challenge
  | _, .findChallenge _ _, _ => .idle
  | _, .destroyChallenge challenge _, .ok _ => .consumed challenge
  | _, .destroyChallenge _ _, _ => .idle
  | .consumed challenge, .findCredential _, .ok (some row) => .read challenge row
  | _, .findCredential _, _ => .idle
  | .read challenge _, .save before record, .ok _ => .saved challenge before record
  | _, .save _ _, _ => .idle
  | _, .given _ _, _ => .idle
  | φ, _, _ => φ

abbrev ceremony : Protocol passkeySignature Phase := stepping Phase.Allows Phase.next

/-- An operation that leaves a login where it is. -/
def Op.isFree : Op → Prop
  | .now => True
  | .verify _ _ _ _ => True
  | _ => False

theorem free_stays (φ : Phase) (o : Op) (h : o.isFree) : φ.Allows o ∧ ∀ r, φ.next o r = φ := by
  cases o with
  | now => exact ⟨trivial, fun _ => rfl⟩
  | verify response expectedChallenge credential requireUserVerification => exact ⟨trivial, fun _ => rfl⟩
  | _ => exact h.elim

section
variable {α β : Type} {φ : Phase} {p : PasskeyM α}

theorem follows_free {f : α → PasskeyM β} {Q : Except PasskeyError β → Phase → Prop} (h : p.Only Op.isFree)
    (hfail : ∀ e, Q (.error e) φ) (hf : ∀ a, Follows ceremony φ (f a) Q) : Follows ceremony φ (p >>= f) Q :=
  follows_stay h (free_stays φ) hfail hf

theorem free_passkey {o : Op} (h : o.isFree) : (passkey o).Only Op.isFree := only_perform h

theorem free_challengeFromClientData (clientData : Option Json) : (challengeFromClientData clientData).Only Op.isFree := by
  unfold challengeFromClientData
  split
  · split
    · split <;> trivial
    · trivial
  · trivial

theorem follows_consumeChallenge (challenge : String) {f : Option String → PasskeyM β}
    {Q : Except PasskeyError β → Phase → Prop} (hfail : ∀ e φ, Q (.error e) φ)
    (hf : ∀ userId, Follows ceremony (.consumed challenge) (f userId) Q) :
    Follows ceremony .idle (consumeChallenge challenge .authentication >>= f) Q := by
  refine follows_bind (follows_step rfl (fun e => hfail e _) fun found => ?_)
  cases found with
  | none => exact hfail _ _
  | some row =>
    refine follows_step ⟨rfl, rfl⟩ (fun e => hfail e _) fun _ => ?_
    refine follows_free (free_passkey trivial) (fun e => hfail e _) fun now => ?_
    split
    · exact hfail _ _
    · exact hf row.userId

theorem advances_of_lt {before : PasskeyCredential} {newCounter : UInt32} {lastUsedAt : Int} {userVerified : Bool}
    (h : toCounter before.counter < newCounter.toNat) :
    Advances before (before.advanced newCounter.toNat lastUsedAt userVerified) where
  id := rfl
  advanced := h
  valid := by
    have hlt := newCounter.toNat_lt
    exact if_pos ⟨Int.natCast_nonneg _, by simp only [PasskeyCredential.advanced]; omega⟩

theorem follows_body {config : PasskeyConfig} (h : config.enforceCounter = true) (response : AuthenticationResponse) :
    Follows ceremony .idle (body config response) fun _ _ => True := by
  unfold body
  refine follows_bind (follows_mono (Q := fun r φ' => ∀ a, r = .ok a → ∃ before record,
    φ' = .saved a.1 before record ∧ Reports record a.2) ?_ ?_)
  · have hfail : ∀ (e : PasskeyError) (φ : Phase) (a : String × PasskeyAuthenticationResult), Except.error e = .ok a →
        ∃ before record, φ = .saved a.1 before record ∧ Reports record a.2 := fun _ _ _ h => nomatch h
    unfold completePasskeyAuthentication
    split
    · exact hfail _ _
    refine follows_free (free_challengeFromClientData _) (fun e => hfail e _) fun challenge => ?_
    refine follows_consumeChallenge challenge hfail fun challengeUserId => ?_
    refine follows_step ⟨challenge, rfl⟩ (fun e => hfail e _) fun found => ?_
    cases found with
    | none => exact hfail _ _
    | some record =>
      show Follows ceremony (.read challenge record) (if _ then _ else _) _
      split
      · exact hfail _ _
      refine follows_free ?_ (fun e => hfail e _) fun verification => ?_
      · exact only_tryCatch (free_passkey trivial) fun _ => trivial
      split
      · exact hfail _ _
      simp only [assertCounterAdvanced, h, Bool.not_true, Bool.false_eq_true, if_false]
      split
      · exact hfail _ _
      · rename_i hadvanced
        show Follows ceremony (.read challenge record) (passkey .now >>= fun lastUsedAt => _) _
        refine follows_free (free_passkey trivial) (fun e => hfail e _) fun lastUsedAt => ?_
        refine follows_step ⟨challenge, rfl, advances_of_lt (by omega)⟩ (fun e => hfail e _) fun _ => ?_
        rintro a ha
        cases ha
        exact ⟨record, _, rfl, rfl, rfl⟩
  · intro r φ' hr
    cases r with
    | error e => trivial
    | ok a => exact follows_perform (hr a rfl) fun _ _ _ => trivial

end

end Delego.Passkeys
