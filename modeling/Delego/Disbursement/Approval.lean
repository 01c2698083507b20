import Delego.Data.Number
import Delego.Data.Table
import Delego.Data.Text

/-! Payouts that officers have to sign (`payments/src/disbursementApproval.ts`).

The states are objects: a call that waits for the wallet keeps the one that it found, also
when its identifier is created again. What a function does up to its first `await` is one
step, and so is what it does with the wallet's answer. A submission may be taken by the
wallet at any time, before or after the answer that the service sees. -/
namespace Delego.Disbursement
open Delego.Data List

inductive DisbursementStatus where
  | pending | collecting | quorumMet | broadcasting | broadcast | failed | expired
  deriving DecidableEq

def DisbursementStatus.name : DisbursementStatus → String
  | .pending => "pending"
  | .collecting => "collecting"
  | .quorumMet => "quorum_met"
  | .broadcasting => "broadcasting"
  | .broadcast => "broadcast"
  | .failed => "failed"
  | .expired => "expired"

structure OfficerSignature where
  (officer signature : String)
  signedAt : Int
  signedPayloadHash : String
  deriving DecidableEq

/-- An approval that collects signatures. -/
structure DisbursementState where
  (disbursementId transactionXdr : String)
  officers : List String
  requiredSignatures : Number
  collectedSignatures : List OfficerSignature
  status : DisbursementStatus
  (createdAt updatedAt : Int)
  (broadcastResult failureReason : Option String)
  deriving DecidableEq

structure CreateDisbursementApprovalInput where
  (disbursementId transactionXdr : String)
  officers : List String
  requiredSignatures : Option Number

structure SubmitOfficerSignatureInput where
  (disbursementId officer signature : String)

inductive DisbursementError where
  | plain (message : String)
  | disbursementNotFound (message : String)
  | officerNotAuthorized (message : String)
  | duplicateSignature (message : String)
  | invalidSignature (message : String)
  | disbursementClosed (message : String)

/-- What the module calls: keys and signatures of the ledger, a hash, numbers as text. -/
structure Settings where
  isValidStellarPublicKey : String → Bool
  verifySignature : (publicKey signature payload : String) → Bool
  sha256 : String → String
  format : Number → String

/-- An entry of the map `disbursements`. -/
structure Entry where
  disbursementId : String
  ref : Nat

/-- What the service has made of the wallet's answer. -/
inductive Outcome where
  | broadcast | failed
  deriving DecidableEq

/-- A request to the wallet: the state whose transaction and signatures it carries, whether
the wallet has carried it out, and what the service has made of the answer. -/
structure Submission where
  ref : Nat
  state : DisbursementState
  succeeded : Bool
  recorded : Option Outcome
  deriving DecidableEq

structure World where
  objects : List DisbursementState
  disbursements : List Entry
  submissions : List Submission

def World.empty : World := ⟨[], [], []⟩

/-- `disbursements.get`: the object and where it is. -/
def World.get (w : World) (disbursementId : String) : Option (Nat × DisbursementState) :=
  match lookup Entry.disbursementId w.disbursements disbursementId with
  | none => none
  | some entry => w.objects[entry.ref]?.map fun state => (entry.ref, state)

/-- `disbursements.set` -/
def setEntry (entries : List Entry) (entry : Entry) : List Entry :=
  match lookup Entry.disbursementId entries entry.disbursementId with
  | none => entries ++ [entry]
  | some _ => replace Entry.disbursementId entries entry

/-- `[...new Set(values)]` -/
def unique (values : List String) : List String :=
  values.foldl (fun seen value => if value ∈ seen then seen else seen ++ [value]) []

def DEFAULT_REQUIRED_SIGNATURES : Nat := 2

section
variable (cfg : Settings)

def createDisbursementApproval (now : Int) (input : CreateDisbursementApprovalInput) (w : World) :
    Except DisbursementError DisbursementState × World :=
  if input.disbursementId = "" || trim input.disbursementId = "" then (.error (.plain "disbursementId is required"), w)
  else if input.transactionXdr = "" || trim input.transactionXdr = "" then (.error (.plain "transactionXdr is required"), w)
  else if input.officers.length < 2 then (.error (.plain "At least 2 officers are required"), w)
  else if 10 < input.officers.length then (.error (.plain "Maximum 10 officers allowed"), w)
  else
    let uniqueOfficers := unique ((input.officers.map trim).filter fun officer => decide (officer ≠ ""))
    if uniqueOfficers.length ≠ input.officers.length then
      (.error (.plain "Duplicate officer public keys are not allowed"), w)
    else match uniqueOfficers.find? fun officer => !cfg.isValidStellarPublicKey officer with
      | some officer => (.error (.plain s!"Invalid Stellar public key for officer: {officer}"), w)
      | none =>
        let resolvedRequired := input.requiredSignatures.getD
          (.ofNat (min DEFAULT_REQUIRED_SIGNATURES uniqueOfficers.length))
        if resolvedRequired.lt (.ofNat 1) || Number.lt (.ofNat uniqueOfficers.length) resolvedRequired then
          (.error (.plain s!"requiredSignatures must be between 1 and {uniqueOfficers.length} (number of officers)"), w)
        else
          let state : DisbursementState :=
            { disbursementId := input.disbursementId, transactionXdr := input.transactionXdr
              officers := uniqueOfficers, requiredSignatures := resolvedRequired, collectedSignatures := []
              status := .collecting, createdAt := now, updatedAt := now, broadcastResult := none
              failureReason := none }
          (.ok state,
            { w with
              objects := w.objects ++ [state]
              disbursements := setEntry w.disbursements ⟨input.disbursementId, w.objects.length⟩ })

def computePayloadHash (disbursementId officer signature : String) : String :=
  cfg.sha256 s!"{disbursementId}:{officer}:{signature}"

def payload (disbursementId transactionXdr : String) : String := s!"{disbursementId}:{transactionXdr}"

def DisbursementState.broadcasting (state : DisbursementState) (now : Int) : DisbursementState :=
  { state with status := .broadcasting, updatedAt := now }

/-- `broadcastDisbursement` up to the answer of the wallet. -/
def broadcastDisbursement (now : Int) (ref : Nat) (state : DisbursementState) (w : World) : World :=
  { w with
    objects := w.objects.set ref (state.broadcasting now)
    submissions := w.submissions ++ [⟨ref, state.broadcasting now, false, none⟩] }

def SubmitOfficerSignatureInput.collected (input : SubmitOfficerSignatureInput) (now : Int) : OfficerSignature :=
  { officer := input.officer, signature := input.signature, signedAt := now
    signedPayloadHash := computePayloadHash cfg input.disbursementId input.officer input.signature }

/-- Answers at once with an error; otherwise the state is returned when the wallet has answered
or, below the quorum, right away. -/
def collectOfficerSignature (now : Int) (input : SubmitOfficerSignatureInput) (w : World) :
    Except DisbursementError Unit × World :=
  if input.disbursementId = "" || input.officer = "" || input.signature = "" then
    (.error (.plain "disbursementId, officer, and signature are required"), w)
  else match w.get input.disbursementId with
    | none => (.error (.disbursementNotFound s!"Disbursement approval not found: {input.disbursementId}"), w)
    | some (ref, state) =>
      if state.status ≠ .collecting && state.status ≠ .pending then
        (.error (.disbursementClosed s!"Disbursement {input.disbursementId} is already {state.status.name}"), w)
      else if input.officer ∉ state.officers then
        (.error (.officerNotAuthorized
          s!"Officer {input.officer} is not authorized for disbursement {input.disbursementId}"), w)
      else if input.officer ∈ state.collectedSignatures.map OfficerSignature.officer then
        (.error (.duplicateSignature s!"Officer {input.officer} has already signed disbursement {input.disbursementId}"), w)
      else if !cfg.verifySignature input.officer input.signature
          (payload input.disbursementId state.transactionXdr) then
        (.error (.invalidSignature s!"Invalid signature from officer {input.officer}: Signature verification failed"), w)
      else
        let state := { state with
          collectedSignatures := state.collectedSignatures ++ [input.collected cfg now]
          updatedAt := now }
        if state.requiredSignatures.le (.ofNat state.collectedSignatures.length) then
          (.ok (), broadcastDisbursement now ref { state with status := .quorumMet } w)
        else (.ok (), { w with objects := w.objects.set ref state })

def submitDisbursementApproval (now : Int) (disbursementId : String) (w : World) : Except DisbursementError Unit × World :=
  match w.get disbursementId with
  | none => (.error (.disbursementNotFound s!"Disbursement approval not found: {disbursementId}"), w)
  | some (ref, state) =>
    if state.status = .broadcast then (.ok (), w)
    else if Number.lt (.ofNat state.collectedSignatures.length) state.requiredSignatures then
      (.error (.plain
        s!"Quorum not met: {state.collectedSignatures.length}/{cfg.format state.requiredSignatures} signatures"), w)
    else (.ok (), broadcastDisbursement now ref state w)

end

/-- What the service sees of a submission: a result, an error status with its text, or an error
thrown on the way, on reading the text or on parsing the result. -/
inductive Answer where
  | ok (result : String)
  | refused (status : Nat) (body : String)
  | thrown (message : String)

def Answer.isOk : Answer → Bool
  | .ok _ => true
  | _ => false

/-- The rest of `broadcastDisbursement`. -/
def DisbursementState.answered (state : DisbursementState) (now : Int) : Answer → DisbursementState
  | .ok result => { state with broadcastResult := some result, status := .broadcast, updatedAt := now }
  | .refused status body =>
    { state with
      status := .failed, failureReason := some s!"Wallet service error: {status} {body}", updatedAt := now }
  | .thrown message => { state with status := .failed, failureReason := some message, updatedAt := now }

def SIGNATURE_TTL_MS : Int := 30 * 60 * 1000

def DisbursementState.expire (now : Int) (state : DisbursementState) : DisbursementState :=
  if (state.status = .collecting || state.status = .pending) && decide (SIGNATURE_TTL_MS < now - state.createdAt) then
    { state with status := .expired, updatedAt := now }
  else state

def expireStaleDisbursements (now : Int) (w : World) : World :=
  { w with
    objects := w.disbursements.foldl (fun objects entry => objects.modify entry.ref (·.expire now)) w.objects }

inductive Action where
  | create (now : Int) (input : CreateDisbursementApprovalInput)
  | collect (now : Int) (input : SubmitOfficerSignatureInput)
  | submit (now : Int) (disbursementId : String)
  | expireStale (now : Int)
  /-- The wallet carries a submission out. -/
  | succeed (submission : Nat)
  /-- The service takes the answer to a submission. -/
  | answer (now : Int) (submission : Nat) (answer : Answer)

def step (cfg : Settings) (w : World) : Action → World
  | .create now input => (createDisbursementApproval cfg now input w).2
  | .collect now input => (collectOfficerSignature cfg now input w).2
  | .submit now disbursementId => (submitDisbursementApproval cfg now disbursementId w).2
  | .expireStale now => expireStaleDisbursements now w
  | .succeed i =>
    match w.submissions[i]? with
    | none => w
    | some submission => { w with submissions := w.submissions.set i { submission with succeeded := true } }
  | .answer now i answer =>
    match w.submissions[i]? with
    | none => w
    | some submission =>
      -- A submission is answered once.
      if submission.recorded.isSome then w
      else
        { w with
          objects := w.objects.modify submission.ref (·.answered now answer)
          submissions := w.submissions.set i
            { submission with recorded := some (if answer.isOk then .broadcast else .failed) } }

theorem get_some {w : World} {disbursementId : String} {ref : Nat} {state : DisbursementState}
    (h : w.get disbursementId = some (ref, state)) :
    w.objects[ref]? = some state ∧
      lookup Entry.disbursementId w.disbursements disbursementId = some ⟨disbursementId, ref⟩ := by
  unfold World.get at h
  cases hentry : lookup Entry.disbursementId w.disbursements disbursementId with
  | none =>
    simp [hentry] at h
  | some entry =>
    rw [hentry] at h
    obtain ⟨found, hfound, hpair⟩ := Option.map_eq_some_iff.mp h
    cases hpair
    have hkey : entry.disbursementId = disbursementId := lookup_key hentry
    refine ⟨hfound, ?_⟩
    rw [← hkey]

section
variable (cfg : Settings) (w : World)

/-- What creating an approval leaves. -/
structure Created (w w' : World) (input : CreateDisbursementApprovalInput) (state : DisbursementState) : Prop where
  disbursementId : state.disbursementId = input.disbursementId
  unsigned : state.collectedSignatures = []
  collecting : state.status = .collecting
  given : ∀ required, input.requiredSignatures = some required → state.requiredSignatures = required
  default : input.requiredSignatures = none → ∃ n : Nat, state.requiredSignatures = .ofNat n
  checked : state.requiredSignatures.lt (.ofNat 1) = false
  finite : Number.lt (.ofNat state.officers.length) state.requiredSignatures = false
  objects : w'.objects = w.objects ++ [state]
  disbursements : w'.disbursements = setEntry w.disbursements ⟨input.disbursementId, w.objects.length⟩
  submissions : w'.submissions = w.submissions

theorem create_cases (now : Int) (input : CreateDisbursementApprovalInput) :
    (createDisbursementApproval cfg now input w).2 = w ∨
      ∃ state, Created w (createDisbursementApproval cfg now input w).2 input state := by
  unfold createDisbursementApproval
  by_cases hid : (input.disbursementId = "" || trim input.disbursementId = "") = true
  · exact .inl (by rw [if_pos hid])
  rw [if_neg hid]
  by_cases hxdr : (input.transactionXdr = "" || trim input.transactionXdr = "") = true
  · exact .inl (by rw [if_pos hxdr])
  rw [if_neg hxdr]
  by_cases hfew : input.officers.length < 2
  · exact .inl (by rw [if_pos hfew])
  rw [if_neg hfew]
  by_cases hmany : 10 < input.officers.length
  · exact .inl (by rw [if_pos hmany])
  rw [if_neg hmany]
  generalize unique ((input.officers.map trim).filter fun officer => decide (officer ≠ "")) = officers
  simp only
  by_cases hduplicate : officers.length ≠ input.officers.length
  · exact .inl (by rw [if_pos hduplicate])
  rw [if_neg hduplicate]
  cases officers.find? fun officer => !cfg.isValidStellarPublicKey officer with
  | some officer => exact .inl rfl
  | none =>
    simp only
    generalize hreq : input.requiredSignatures.getD
      (.ofNat (min DEFAULT_REQUIRED_SIGNATURES officers.length)) = required
    by_cases hrange : (required.lt (.ofNat 1) || Number.lt (.ofNat officers.length) required) = true
    · exact .inl (by rw [if_pos hrange])
    · rw [if_neg hrange]
      simp only [Bool.or_eq_true, not_or, Bool.not_eq_true] at hrange
      refine .inr ⟨_, rfl, rfl, rfl, ?_, ?_, hrange.1, hrange.2, rfl, rfl, rfl⟩
      · intro given hgiven
        rw [hgiven] at hreq
        exact hreq.symm
      · intro hnone
        rw [hnone] at hreq
        exact ⟨_, hreq.symm⟩

def DisbursementState.collect (state : DisbursementState) (now : Int) (input : SubmitOfficerSignatureInput) :
    DisbursementState :=
  { state with
    collectedSignatures := state.collectedSignatures ++ [input.collected cfg now]
    updatedAt := now }

/-- A signature that is accepted. -/
structure Collectable (state : DisbursementState) (input : SubmitOfficerSignatureInput) : Prop where
  collecting : state.status = .collecting ∨ state.status = .pending
  listed : input.officer ∈ state.officers
  fresh : input.officer ∉ state.collectedSignatures.map OfficerSignature.officer
  verified : cfg.verifySignature input.officer input.signature
    (payload input.disbursementId state.transactionXdr) = true

theorem collect_cases (now : Int) (input : SubmitOfficerSignatureInput) :
    (collectOfficerSignature cfg now input w).2 = w ∨
      ∃ ref state, w.get input.disbursementId = some (ref, state) ∧ Collectable cfg state input ∧
        ((state.requiredSignatures.le (.ofNat (state.collectedSignatures.length + 1)) = true ∧
            (collectOfficerSignature cfg now input w).2 =
              broadcastDisbursement now ref { state.collect cfg now input with status := .quorumMet } w) ∨
          (collectOfficerSignature cfg now input w).2 =
            { w with objects := w.objects.set ref (state.collect cfg now input) }) := by
  unfold collectOfficerSignature
  by_cases hgiven : (input.disbursementId = "" || input.officer = "" || input.signature = "") = true
  · exact .inl (by rw [if_pos hgiven])
  rw [if_neg hgiven]
  cases hget : w.get input.disbursementId with
  | none => exact .inl rfl
  | some found =>
    obtain ⟨ref, state⟩ := found
    simp only
    by_cases hclosed : (state.status ≠ .collecting && state.status ≠ .pending) = true
    · exact .inl (by rw [if_pos hclosed])
    rw [if_neg hclosed]
    by_cases hlisted : input.officer ∉ state.officers
    · exact .inl (by rw [if_pos hlisted])
    rw [if_neg hlisted]
    by_cases hsig : input.officer ∈ state.collectedSignatures.map OfficerSignature.officer
    · exact .inl (by rw [if_pos hsig])
    rw [if_neg hsig]
    cases hverified : cfg.verifySignature input.officer input.signature
      (payload input.disbursementId state.transactionXdr) with
    | false => exact .inl rfl
    | true =>
      right
      refine ⟨ref, state, rfl, ⟨?_, not_not.mp hlisted, hsig, hverified⟩, ?_⟩
      · simpa [or_iff_not_imp_left] using hclosed
      · simp only [Bool.not_true, Bool.false_eq_true, if_false, length_append, length_singleton]
        cases hreach : state.requiredSignatures.le (.ofNat (state.collectedSignatures.length + 1)) with
        | true =>
          left
          simp only [if_true]
          exact ⟨trivial, rfl⟩
        | false =>
          right
          simp only [Bool.false_eq_true, if_false]
          rfl

theorem submit_cases (now : Int) (disbursementId : String) :
    (submitDisbursementApproval cfg now disbursementId w).2 = w ∨
      ∃ ref state, w.get disbursementId = some (ref, state) ∧ state.status ≠ .broadcast ∧
        Number.lt (.ofNat state.collectedSignatures.length) state.requiredSignatures = false ∧
        (submitDisbursementApproval cfg now disbursementId w).2 = broadcastDisbursement now ref state w := by
  unfold submitDisbursementApproval
  cases hget : w.get disbursementId with
  | none => exact .inl rfl
  | some found =>
    obtain ⟨ref, state⟩ := found
    simp only
    by_cases hdone : state.status = .broadcast
    · exact .inl (by rw [if_pos hdone])
    rw [if_neg hdone]
    cases hquorum : Number.lt (.ofNat state.collectedSignatures.length) state.requiredSignatures with
    | true => exact .inl rfl
    | false => exact .inr ⟨ref, state, rfl, hdone, hquorum, rfl⟩

theorem succeed_cases (i : Nat) : step cfg w (.succeed i) = w ∨
      ∃ submission, w.submissions[i]? = some submission ∧ step cfg w (.succeed i) =
        { w with submissions := w.submissions.set i { submission with succeeded := true } } := by
  cases hsubm : w.submissions[i]? with
  | none => exact .inl (by simp only [step, hsubm])
  | some submission => exact .inr ⟨submission, rfl, by simp only [step, hsubm]⟩

theorem answer_cases (now : Int) (i : Nat) (answer : Answer) : step cfg w (.answer now i answer) = w ∨
      ∃ submission, w.submissions[i]? = some submission ∧ submission.recorded = none ∧
        step cfg w (.answer now i answer) =
          { w with
            objects := w.objects.modify submission.ref (·.answered now answer)
            submissions := w.submissions.set i
              { submission with recorded := some (if answer.isOk then .broadcast else .failed) } } := by
  cases hsubm : w.submissions[i]? with
  | none => exact .inl (by simp only [step, hsubm])
  | some submission =>
    cases hrecd : submission.recorded with
    | some outcome => exact .inl (by simp [step, hsubm, hrecd])
    | none => exact .inr ⟨submission, rfl, hrecd, by simp [step, hsubm, hrecd]⟩

end

theorem expire_expire (now : Int) (state : DisbursementState) : (state.expire now).expire now = state.expire now := by
  by_cases hstale : ((state.status = .collecting || state.status = .pending) &&
      decide (SIGNATURE_TTL_MS < now - state.createdAt)) = true
  · simp [DisbursementState.expire, hstale]
  · simp only [DisbursementState.expire, if_neg hstale]

theorem objects_expireStale (now : Int) (w : World) :
    (expireStaleDisbursements now w).objects = w.objects.mapIdx fun ref state =>
      if ref ∈ w.disbursements.map Entry.ref then state.expire now else state := by
  have hfold : ∀ (entries : List Entry) (objects : List DisbursementState),
      entries.foldl (fun objects entry => objects.modify entry.ref (·.expire now)) objects =
        objects.mapIdx fun ref state => if ref ∈ entries.map Entry.ref then state.expire now else state := by
    intro entries
    induction entries with
    | nil =>
      intro objects
      apply ext_getElem?
      simp
    | cons entry rest ih =>
      intro objects
      rw [foldl_cons, ih]
      apply ext_getElem?
      intro ref
      rw [getElem?_mapIdx, getElem?_mapIdx, getElem?_modify]
      cases objects[ref]? with
      | none => rfl
      | some state =>
        by_cases hentry : entry.ref = ref
        · simp [hentry, expire_expire]
        · simp [hentry, Ne.symm hentry]
  exact hfold w.disbursements w.objects

def run (cfg : Settings) (w : World) (actions : List Action) : World := actions.foldl (step cfg) w

/-- A stand-in for the ledger's signatures: an officer signs by name. -/
def sampleSettings : Settings where
  isValidStellarPublicKey _ := true
  verifySignature publicKey signature payload := decide (signature = publicKey ++ "/" ++ payload)
  sha256 := id
  format _ := "2"

def payout (requiredSignatures : Option Number) : Action :=
  .create 0 ⟨"payout", "xdr", ["anna", "ben", "carla"], requiredSignatures⟩

def signedBy (now : Int) (officer : String) : Action := .collect now ⟨"payout", officer, officer ++ "/payout:xdr"⟩

end Delego.Disbursement
