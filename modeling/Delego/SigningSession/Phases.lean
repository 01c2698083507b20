import Delego.SigningSession.Service

/-! The way of a call through a session: examined, signed, and on to the submission.

A call goes on to submit a session when it finds enough signatures in it, be it with its own (`goesOn`). -/
namespace Delego.SigningSession
open Delego.Process Delego.Data

def goesOn : (o : Op) → sessionSignature.Result o → Option MultisigSession
  | .examineSubmission _ _, .ok session =>
    if session.status ≠ .submitted ∧ session.short = false then some session else none
  | .collect _ _, .ok session => if session.reached then some session else none
  | _, _ => none

/-- The session about which an operation decides. -/
def Op.decides : Op → Option String
  | .examineSubmission id _ => some id
  | .collect id _ => some id
  | _ => none

/-- How far a call has come. -/
inductive Phase where
  | ready
  /-- The session is found so, and a signature asked for. -/
  | examined (id : String) (session : MultisigSession)
  /-- The envelope is signed so, for these signers. -/
  | signed (id : String) (session : MultisigSession) (signers : List String) (signedXdr : String)
  /-- The session is going to be submitted. -/
  | entered (id : String)
  | awaiting (id : String)
  /-- A submission has succeeded, and this still to be marked. -/
  | answered (id : String)

namespace Phase

/-- The call is between its decision to submit the session and its mark of how that ended. -/
def Submits (φ : Phase) (id : String) : Prop := φ = .entered id ∨ φ = .awaiting id ∨ φ = .answered id

@[simp] def next (φ : Phase) (o : Op) (r : sessionSignature.Result o) : Phase :=
  match φ, o, r with
  | .ready, .examineSignature id _, .ok session => .examined id session
  | .ready, .examineSubmission id now, r => if (goesOn (.examineSubmission id now) r).isSome then .entered id else .ready
  | .examined id session, .sign _ signers, .ok signedXdr => .signed id session signers signedXdr
  | .signed id session signers signedXdr, .collect id' signature, r =>
    if (goesOn (.collect id' signature) r).isSome then .entered id' else
      match r with
      | .ok _ => .ready
      | .error _ => .signed id session signers signedXdr
  | .entered id, .submit .., .ok _ => .awaiting id
  | .awaiting id, .submitResult .., .ok _ => .answered id
  | _, .finish .., _ => .ready
  | _, .fail .., _ => .ready
  | φ, _, _ => φ

def Allows : Phase → Op → Prop
  | .ready, .get _ => True
  | .ready, .now => True
  | .ready, .save _ => True
  | .ready, .examineSignature .. => True
  | .ready, .examineSubmission .. => True
  | .examined _ session, .sign xdr _ => xdr = session.baseXdr
  | .examined .., .save _ => True
  | .signed id session signers signedXdr, .collect id' signature => id' = id ∧
    signature.signer ∈ session.configuredSigners ∧ signers = uniqueSigners [signature.signer] ∧
    signature.signedXdr = signedXdr
  | .entered _, .save _ => True
  | .entered _, .sign .. => True
  | .entered id, .signersOf id' => id' = id
  | .entered id, .submit id' _ => id' = id
  | .entered id, .finish id' _ _ => id' = id
  | .entered id, .fail id' _ => id' = id
  | .awaiting id, .submitResult id' _ => id' = id
  | .awaiting id, .fail id' _ => id' = id
  | .answered id, .finish id' _ _ => id' = id
  | _, _ => False

end Phase

/-- A session as it is examined for a signature. -/
def examinedAs : (o : Op) → sessionSignature.Result o → Option (String × MultisigSession)
  | .examineSignature id _, .ok session => some (id, session)
  | _, _ => none

def signedBy : (o : Op) → sessionSignature.Result o → Option (String × List String × String)
  | .sign xdr signers, .ok signedXdr => some (xdr, signers, signedXdr)
  | _, _ => none

section
variable {φ : Phase} {o : Op} {r : sessionSignature.Result o} {id : String} {session : MultisigSession}

theorem next_examined (ha : φ.Allows o) (h : φ.next o r = .examined id session) :
    φ = .examined id session ∨ examinedAs o r = some (id, session) := by
  cases φ with
  | ready =>
    cases o with
    | examineSignature id' now =>
      cases r with
      | error message => cases h
      | ok found =>
        cases h
        exact .inr rfl
    | examineSubmission id' now =>
      simp only [Phase.next] at h
      split at h <;> cases h
    | get | now | save => cases h
    | _ => exact ha.elim
  | examined id' session' =>
    cases o with
    | sign xdr signers =>
      cases r with
      | error message => exact .inl h
      | ok signedXdr => cases h
    | save => exact .inl h
    | _ => exact ha.elim
  | signed id' session' signers signedXdr =>
    cases o with
    | collect id'' signature =>
      simp only [Phase.next] at h
      split at h
      · cases h
      · cases r <;> cases h
    | _ => exact ha.elim
  | entered id' =>
    cases o with
    | submit => cases r <;> cases h
    | save | sign | signersOf | finish | fail => cases h
    | _ => exact ha.elim
  | awaiting id' =>
    cases o with
    | submitResult => cases r <;> cases h
    | fail => cases h
    | _ => exact ha.elim
  | answered id' =>
    cases o with
    | finish => cases h
    | _ => exact ha.elim

theorem next_signed {signers : List String} {signedXdr : String} (ha : φ.Allows o)
    (h : φ.next o r = .signed id session signers signedXdr) :
    φ = .signed id session signers signedXdr ∨
      φ = .examined id session ∧ signedBy o r = some (session.baseXdr, signers, signedXdr) := by
  cases φ with
  | ready =>
    cases o with
    | examineSignature id' now => cases r <;> cases h
    | examineSubmission id' now =>
      simp only [Phase.next] at h
      split at h <;> cases h
    | get | now | save => cases h
    | _ => exact ha.elim
  | examined id' session' =>
    cases o with
    | sign xdr signers =>
      obtain rfl : xdr = session'.baseXdr := ha
      cases r with
      | error message => cases h
      | ok signedXdr =>
        cases h
        exact .inr ⟨rfl, rfl⟩
    | save => cases h
    | _ => exact ha.elim
  | signed id' session' signers signedXdr =>
    cases o with
    | collect id'' signature =>
      simp only [Phase.next] at h
      split at h
      · cases h
      · cases r with
        | error message => exact .inl h
        | ok _ => cases h
    | _ => exact ha.elim
  | entered id' =>
    cases o with
    | submit => cases r <;> cases h
    | save | sign | signersOf | finish | fail => cases h
    | _ => exact ha.elim
  | awaiting id' =>
    cases o with
    | submitResult => cases r <;> cases h
    | fail => cases h
    | _ => exact ha.elim
  | answered id' =>
    cases o with
    | finish => cases h
    | _ => exact ha.elim

theorem next_submits (ha : φ.Allows o) (h : (φ.next o r).Submits id) : φ.Submits id ∧ goesOn o r = none ∨
      o.decides = some id ∧ φ.next o r = .entered id ∧ ∃ session, goesOn o r = some session := by
  cases φ with
  | ready =>
    cases o with
    | examineSignature id' now => cases r <;> rcases h with h | h | h <;> cases h
    | examineSubmission id' now =>
      simp only [Phase.next] at h ⊢
      split at h
      · rename_i hgoes
        obtain ⟨session, hsess⟩ := Option.isSome_iff_exists.mp hgoes
        rcases h with h | h | h <;> cases h
        exact .inr ⟨rfl, by rw [if_pos hgoes], session, hsess⟩
      · rcases h with h | h | h <;> cases h
    | get | now | save => rcases h with h | h | h <;> cases h
    | _ => exact ha.elim
  | examined id' session' =>
    cases o with
    | sign xdr signers => cases r <;> rcases h with h | h | h <;> cases h
    | save => rcases h with h | h | h <;> cases h
    | _ => exact ha.elim
  | signed id' session' signers signedXdr =>
    cases o with
    | collect id'' signature =>
      simp only [Phase.next] at h ⊢
      split at h
      · rename_i hgoes
        obtain ⟨session, hsess⟩ := Option.isSome_iff_exists.mp hgoes
        rcases h with h | h | h <;> cases h
        exact .inr ⟨rfl, by rw [if_pos hgoes], session, hsess⟩
      · cases r <;> rcases h with h | h | h <;> cases h
    | _ => exact ha.elim
  | entered id' =>
    cases o with
    | submit =>
      cases r with
      | error message => exact .inl ⟨h, rfl⟩
      | ok _ =>
        rcases h with h | h | h <;> cases h
        exact .inl ⟨.inl rfl, rfl⟩
    | save | sign | signersOf => exact .inl ⟨h, rfl⟩
    | finish | fail => rcases h with h | h | h <;> cases h
    | _ => exact ha.elim
  | awaiting id' =>
    cases o with
    | submitResult =>
      cases r with
      | error message => exact .inl ⟨h, rfl⟩
      | ok _ =>
        rcases h with h | h | h <;> cases h
        exact .inl ⟨.inr (.inl rfl), rfl⟩
    | fail => rcases h with h | h | h <;> cases h
    | _ => exact ha.elim
  | answered id' =>
    cases o with
    | finish => rcases h with h | h | h <;> cases h
    | _ => exact ha.elim

end

def Op.certain : Op → Bool
  | .get _ => true
  | .now => true
  | .save _ => true
  | .finish .. => true
  | .fail .. => true
  | _ => false

theorem certain_perform (o : Op) (ch : Choice) (w : World) :
    o.certain = true → ∃ a, (perform o ch w).1 = .ok a := by
  intro h
  cases o with
  | get | now | save | finish | fail => exact ⟨_, rfl⟩
  | _ => cases h

def submitting : Protocol sessionSignature Phase where
  Allowed := Phase.Allows
  Moves := fun φ o r φ' => (o.certain = true → ∃ a, r = .ok a) ∧ φ' = φ.next o r
  Ends := fun φ => ∀ id, ¬φ.Submits id

theorem ends_ready : submitting.Ends .ready := by rintro id (h | h | h) <;> cases h

theorem ends_examined (id : String) (session : MultisigSession) : submitting.Ends (.examined id session) := by
  rintro id (h | h | h) <;> cases h

theorem ends_signed (id : String) (session : MultisigSession) (signers : List String) (signedXdr : String) :
    submitting.Ends (.signed id session signers signedXdr) := by
  rintro id (h | h | h) <;> cases h

section
variable {cfg : Rat → String} {id : String} {submit : Bool}
  {φ : Phase}

theorem follows_op {o : Op} {Q : Except String o.Reply → Phase → Prop} (ha : φ.Allows o)
    (hm : ∀ r, (o.certain = true → ∃ a, r = .ok a) → Q r (φ.next o r)) : Follows submitting φ (op o) Q := by
  apply follows_perform ha
  rintro r φ' ⟨hansd, rfl⟩
  exact hm r hansd

theorem follows_certain {o : Op} {α : Type} {f : o.Reply → SessionM α} {Q : Except String α → Phase → Prop}
    (ha : φ.Allows o) (hcert : o.certain = true)
    (hf : ∀ a, Follows submitting (φ.next o (.ok a)) (f a) Q) : Follows submitting φ (op o >>= f) Q := by
  apply follows_bind
  refine follows_op ha ?_
  intro r hansd
  obtain ⟨a, rfl⟩ := hansd hcert
  exact hf a

theorem follows_saved (ha : φ.Allows (.save id)) (hφ : submitting.Ends φ)
    (hnext : ∀ a, φ.next (.save id) (.ok a) = φ) :
    Follows submitting φ (op (.save id)) fun _ φ' => submitting.Ends φ' := by
  refine follows_op ha ?_
  intro r hansd
  obtain ⟨a, rfl⟩ := hansd rfl
  rw [hnext]
  exact hφ

theorem follows_signMultisigTx {xdr : String} {signers : List String} {Q : Except String String → Phase → Prop}
    (ha : φ.Allows (.sign xdr (uniqueSigners signers))) (herror : ∀ message, Q (.error message) φ)
    (hm : ∀ r, Q r (φ.next (.sign xdr (uniqueSigners signers)) r)) :
    Follows submitting φ (signMultisigTx xdr signers) Q := by
  unfold signMultisigTx
  split
  · exact herror _
  · split
    · exact herror _
    · split
      · exact herror _
      · exact follows_op ha fun r _ => hm r

/-- What `submitSession` leaves to the handler is still to be marked as failed. -/
def Unmarked (id : String) : Except String Unit → Phase → Prop
  | .ok _, φ => submitting.Ends φ
  | .error _, φ => φ = .entered id ∨ φ = .awaiting id

theorem follows_submitCombined {session : SessionM MultisigSession}
    (hsess : Follows submitting (.entered id) session fun _ φ => φ = .entered id) :
    Follows submitting (.entered id) (submitCombined id submit session) (Unmarked id) := by
  refine follows_bind (follows_mono hsess (forall_except (fun _ _ rfl => .inl rfl) ?_))
  rintro session _ rfl
  refine follows_bind (follows_signMultisigTx trivial (fun _ => .inl rfl)
    (forall_except (fun _ => .inl rfl) fun _ => ?_))
  simp only [Then, Phase.next]
  split
  · refine follows_bind (follows_op rfl (forall_except (fun _ _ => .inl rfl) fun _ _ => ?_))
    refine follows_bind (follows_op rfl (forall_except (fun _ _ => .inr rfl) fun _ _ => ?_))
    refine follows_certain rfl rfl fun _ => ?_
    refine follows_op trivial ?_
    intro r hansd
    obtain ⟨a, rfl⟩ := hansd rfl
    exact ends_ready
  · refine follows_certain rfl rfl fun _ => ?_
    refine follows_op trivial ?_
    intro r hansd
    obtain ⟨a, rfl⟩ := hansd rfl
    exact ends_ready

theorem follows_submitSession {session : SessionM MultisigSession}
    (hsess : Follows submitting (.entered id) session fun _ φ => φ = .entered id) :
    Follows submitting (.entered id) (submitSession id submit session) fun _ φ => submitting.Ends φ := by
  refine follows_tryCatch (follows_mono (follows_submitCombined hsess) ?_)
  intro r φ hr
  cases r with
  | ok a => exact hr
  | error message =>
    -- the session is marked as failed, from either phase
    rcases hr with rfl | rfl
    · exact follows_certain rfl rfl fun _ => follows_certain trivial rfl fun _ => ends_ready
    · exact follows_certain rfl rfl fun _ => follows_certain trivial rfl fun _ => ends_ready

theorem follows_timeOf {α : Type} (now : Option Int) {f : Int → SessionM α} {Q : Except String α → Phase → Prop}
    (hf : ∀ now, Follows submitting .ready (f now) Q) : Follows submitting .ready (timeOf now >>= f) Q := by
  cases now with
  | some now => exact hf now
  | none => exact follows_certain trivial rfl hf

theorem follows_collectPartialSignature (input : AddSignatureInput) :
    Follows submitting .ready (collectPartialSignature input submit) fun _ φ => submitting.Ends φ := by
  refine follows_timeOf input.now fun now => follows_certain trivial rfl fun found => ?_
  split
  · exact ends_ready
  · refine follows_bind (follows_op trivial (forall_except (fun _ _ => ends_ready) fun session _ => ?_))
    simp only [Then, Phase.next]
    split
    · exact ends_examined _ _
    · split
      · exact ends_examined _ _
      · rename_i hauthd
        have hauthd : input.signer ∈ session.configuredSigners := not_not.mp hauthd
        split
        · exact follows_saved trivial (ends_examined _ _) fun _ => rfl
        · refine follows_bind (follows_signMultisigTx rfl (fun _ => ends_examined _ _)
            (forall_except (fun _ => ends_examined _ _) fun _ => ?_))
          refine follows_bind (follows_op ⟨rfl, hauthd, rfl, rfl⟩
            (forall_except (fun _ _ => ends_signed _ _ _ _) fun collected _ => ?_))
          cases hreach : collected.reached with
          | false =>
            simp only [Then, Phase.next, goesOn, hreach]
            refine follows_certain trivial rfl fun _ => ?_
            rw [if_neg (by simp)]
            exact ends_ready
          | true =>
            simp only [Then, Phase.next, goesOn, hreach, if_true, Option.isSome_some]
            refine follows_certain trivial rfl fun _ => ?_
            refine follows_submitSession (follows_op rfl ?_)
            intro r _
            rfl

theorem follows_submitMultisigSession (now : Option Int) :
    Follows submitting .ready (submitMultisigSession cfg id submit now) fun _ φ => submitting.Ends φ := by
  refine follows_timeOf now fun now => follows_certain trivial rfl fun found => ?_
  split
  · exact ends_ready
  · refine follows_bind (follows_op trivial (forall_except (fun _ _ => ends_ready) fun session _ => ?_))
    by_cases hsub : session.status = .submitted
    · simp only [Then, Phase.next, goesOn, hsub]
      exact ends_ready
    · cases hshort : session.short with
      | true =>
        simp only [Then, Phase.next, goesOn, hsub, hshort, Bool.true_eq_false, and_false, if_false, if_true,
          Option.isSome_none, Bool.false_eq_true]
        exact ends_ready
      | false =>
        simp only [Then, Phase.next, goesOn, hsub, hshort, ne_eq, not_false_eq_true, and_self, if_true, if_false,
          Option.isSome_some, Bool.false_eq_true]
        exact follows_submitSession rfl

theorem follows_body (call : Call) : Follows submitting .ready (call.body cfg) fun _ φ => submitting.Ends φ := by
  cases call with
  | collectPartialSignature input submit => exact follows_collectPartialSignature input
  | submitMultisigSession sessionId submit now => exact follows_submitMultisigSession now

end

end Delego.SigningSession
