import Delego.CoSigning.Service

/-! The way of a call from the threshold to the end of the submission.

A call goes on to submit a session with its own signature or as a call of its own (`goesOn`). -/
namespace Delego.CoSigning
open Delego.Process Delego.Data

def goesOn : (o : Op) → coSigningSignature.Result o → Option String
  | .add id _ _, .ok .ready => some id
  | .enter id _ _, .ok .launched => some id
  | _, _ => none

def lapses : (o : Op) → coSigningSignature.Result o → Option String
  | .add id _ _, .ok (.lapsed true) => some id
  | .enter id _ _, .ok (.lapsed true) => some id
  | .expire id _, .ok true => some id
  | _, _ => none

/-- How far a call has come. -/
inductive Phase where
  | ready
  /-- The threshold is met, and the envelope still to be combined. -/
  | entered (id : String)
  | awaiting (id : String)
  | answered (id : String)

namespace Phase

def Submits (φ : Phase) (id : String) : Prop := φ = .entered id ∨ φ = .awaiting id ∨ φ = .answered id

def launched (submit : Bool) (id : String) : Phase := if submit then .awaiting id else .ready

def next (φ : Phase) (o : Op) (r : coSigningSignature.Result o) : Phase :=
  match φ, o, r with
  | .ready, .add id _ _, .ok .ready => .entered id
  | .ready, .enter id submit _, .ok .launched => launched submit id
  | .entered id, .launch _ submit, .ok _ => launched submit id
  | .entered _, .launch _ _, .error _ => .ready
  | .awaiting id, .submitResult _, .ok _ => .answered id
  | .awaiting _, .fail _ _, _ => .ready
  | .answered _, .finish _ _, _ => .ready
  | φ, _, _ => φ

def Allows : Phase → Op → Prop
  | .ready, .get _ => True
  | .ready, .add .. => True
  | .ready, .enter .. => True
  | .ready, .expire .. => True
  | .ready, .save _ => True
  | .ready, .now => True
  | .entered _, .save _ => True
  | .entered id, .launch id' _ => id' = id
  | .awaiting id, .submitResult id' => id' = id
  | .awaiting id, .fail id' _ => id' = id
  | .answered id, .finish id' _ => id' = id
  | _, _ => False

end Phase

theorem ready_idle (id : String) : ¬Phase.Submits .ready id := by rintro (h | h | h) <;> cases h

theorem launched_submits {submit : Bool} {id id' : String} (h : (Phase.launched submit id).Submits id') :
    id = id' ∧ Phase.launched submit id = .awaiting id := by
  cases submit with
  | true =>
    rcases h with h | h | h <;> cases h
    exact ⟨rfl, rfl⟩
  | false => exact absurd h (ready_idle id')

section
variable {φ : Phase} {o : Op} {r : coSigningSignature.Result o} {id : String}

theorem next_submits (ha : φ.Allows o) (h : (φ.next o r).Submits id) : φ.Submits id ∨ goesOn o r = some id := by
  cases φ with
  | ready =>
    cases o with
    | add id' signature now =>
      cases r with
      | error message => exact absurd h (ready_idle id)
      | ok added =>
        cases added with
        | ready =>
          rcases h with h | h | h <;> cases h
          exact .inr rfl
        | _ => exact absurd h (ready_idle id)
    | enter id' submit now =>
      cases r with
      | error message => exact absurd h (ready_idle id)
      | ok entered =>
        cases entered with
        | launched =>
          obtain ⟨rfl, -⟩ := launched_submits h
          exact .inr rfl
        | _ => exact absurd h (ready_idle id)
    | get | expire | save | now => exact absurd h (ready_idle id)
    | _ => exact ha.elim
  | entered id' =>
    cases o with
    | launch id'' submit =>
      cases r with
      | error message => exact absurd h (ready_idle id)
      | ok _ =>
        obtain ⟨rfl, -⟩ := launched_submits h
        exact .inl (.inl rfl)
    | save => exact .inl h
    | _ => exact ha.elim
  | awaiting id' =>
    cases o with
    | submitResult id'' =>
      cases r with
      | error message => exact .inl h
      | ok _ =>
        rcases h with h | h | h <;> cases h
        exact .inl (.inr (.inl rfl))
    | fail => exact absurd h (ready_idle id)
    | _ => exact ha.elim
  | answered id' =>
    cases o with
    | finish => exact absurd h (ready_idle id)
    | _ => exact ha.elim

theorem next_entered (ha : φ.Allows o) (h : φ.next o r = .entered id) : φ = .entered id ∧ (∃ id', o = .save id') ∨
      φ = .ready ∧ ∃ signature now, o = .add id signature now ∧ goesOn o r = some id := by
  cases φ with
  | ready =>
    cases o with
    | add id' signature now =>
      cases r with
      | error message => cases h
      | ok added =>
        cases added with
        | ready =>
          cases h
          exact .inr ⟨rfl, signature, now, rfl, rfl⟩
        | _ => cases h
    | enter id' submit now =>
      cases r with
      | error message => cases h
      | ok entered =>
        cases entered with
        | launched => cases submit <;> cases h
        | _ => cases h
    | get | expire | save | now => cases h
    | _ => exact ha.elim
  | entered id' =>
    cases o with
    | launch id'' submit =>
      cases r with
      | error message => cases h
      | ok _ => cases submit <;> cases h
    | save id'' => exact .inl ⟨h, id'', rfl⟩
    | _ => exact ha.elim
  | awaiting id' =>
    cases o with
    | submitResult => cases r <;> cases h
    | fail => cases h
    | _ => exact ha.elim
  | answered id' =>
    cases o with
    | finish => cases h
    | _ => exact ha.elim

end

def Op.certain : Op → Bool
  | .get _ => true
  | .now => true
  | .save _ => true
  | .finish .. => true
  | .fail .. => true
  | _ => false

theorem certain_perform (sdk : Stellar) (o : Op) (ch : Choice) (w : World) :
    o.certain = true → ∃ a, (perform sdk o ch w).1 = .ok a := by
  intro h
  cases o with
  | get | now | save | finish | fail => exact ⟨_, rfl⟩
  | _ => cases h

def coSigning : Protocol coSigningSignature Phase where
  Allowed := Phase.Allows
  Moves := fun φ o r φ' => (o.certain = true → ∃ a, r = .ok a) ∧ φ' = φ.next o r
  Ends := fun φ => φ = .ready

section
variable {id : String} {submit : Bool}

theorem follows_op {o : Op} {φ : Phase} {Q : Except String o.Reply → Phase → Prop} (ha : φ.Allows o)
    (hm : ∀ r, (o.certain = true → ∃ a, r = .ok a) → Q r (φ.next o r)) : Follows coSigning φ (op o) Q := by
  apply follows_perform ha
  rintro r φ' ⟨hansd, rfl⟩
  exact hm r hansd

theorem follows_certain {o : Op} {φ : Phase} {α : Type} {f : o.Reply → CoSigningM α} {Q : Except String α → Phase → Prop}
    (ha : φ.Allows o) (hcert : o.certain = true)
    (hf : ∀ a, Follows coSigning (φ.next o (.ok a)) (f a) Q) : Follows coSigning φ (op o >>= f) Q := by
  apply follows_bind
  refine follows_op ha ?_
  intro r hansd
  obtain ⟨a, rfl⟩ := hansd hcert
  exact hf a

theorem follows_saved : Follows coSigning .ready (op (.save id)) fun r φ => φ = .ready ∧ ∃ a, r = .ok a :=
  follows_op trivial fun _ hansd => ⟨rfl, hansd rfl⟩

theorem follows_timeOf {α : Type} (now : Option Int) {f : Int → CoSigningM α} {Q : Except String α → Phase → Prop}
    (hf : ∀ now, Follows coSigning .ready (f now) Q) : Follows coSigning .ready (timeOf now >>= f) Q := by
  cases now with
  | some now => exact hf now
  | none => exact follows_certain trivial rfl hf

theorem follows_awaitSubmission :
    Follows coSigning (.launched submit id) (awaitSubmission id submit) fun _ φ => φ = .ready := by
  cases submit with
  | false => exact follows_tryCatch (follows_mono follows_saved (by rintro _ _ ⟨rfl, a, rfl⟩; rfl))
  | true =>
    apply follows_tryCatch
    refine follows_bind (follows_op rfl
      (forall_except (fun _ _ => ?_) fun _ _ => follows_certain rfl rfl fun _ => follows_mono follows_saved (by rintro _ _ ⟨rfl, a, rfl⟩; rfl)))
    -- the failure is written down
    exact follows_certain rfl rfl fun _ => follows_certain trivial rfl fun _ => rfl

theorem follows_refreshed : Follows coSigning .ready (refreshed id) fun _ φ => φ = .ready := by
  refine follows_certain trivial rfl fun found => ?_
  split <;> rfl

theorem follows_throwExpired {marked : Bool} : Follows coSigning .ready (throwExpired id marked) fun _ φ => φ = .ready := by
  cases marked with
  | true => exact follows_certain trivial rfl fun _ => rfl
  | false => rfl

theorem follows_launched : Follows coSigning (.launched submit id)
    (awaitSubmission id submit >>= fun _ => refreshed id) fun _ φ => φ = .ready := by
  apply follows_bind
  refine follows_mono follows_awaitSubmission ?_
  rintro r _ rfl
  cases r with
  | error message => rfl
  | ok _ => exact follows_refreshed

theorem follows_addCoSignature (signature : CollectedSignature) (now : Option Int) :
    Follows coSigning .ready (addCoSignature id signature submit now) fun _ φ => φ = .ready := by
  refine follows_timeOf now fun now => follows_certain trivial rfl fun found => ?_
  split
  · rfl
  · refine follows_bind (follows_op trivial (forall_except (fun _ _ => rfl) fun added _ => ?_))
    cases added with
    | lapsed marked => exact follows_throwExpired
    | refused message => rfl
    | collected => exact follows_mono follows_saved (by rintro _ _ ⟨rfl, -⟩; rfl)
    | ready =>
      refine follows_certain trivial rfl fun _ => ?_
      exact follows_bind (follows_op rfl (forall_except (fun _ _ => rfl) fun _ _ => follows_launched))

theorem follows_submitCoSigningSession (now : Option Int) :
    Follows coSigning .ready (submitCoSigningSession id submit now) fun _ φ => φ = .ready := by
  refine follows_timeOf now fun now => follows_certain trivial rfl fun found => ?_
  split
  · rfl
  · refine follows_bind (follows_op trivial (forall_except (fun _ _ => rfl) fun entered _ => ?_))
    cases entered with
    | lapsed marked => exact follows_throwExpired
    | refused message => rfl
    | already => rfl
    | launched => exact follows_launched

theorem follows_expireCoSigningSession (now : Option Int) :
    Follows coSigning .ready (expireCoSigningSession id now) fun _ φ => φ = .ready := by
  refine follows_timeOf now fun now => follows_certain trivial rfl fun found => ?_
  split
  · rfl
  · refine follows_bind (follows_op trivial (forall_except (fun _ _ => rfl) fun marked _ => ?_))
    cases marked with
    | true => exact follows_certain trivial rfl fun _ => follows_refreshed
    | false => exact follows_refreshed

theorem follows_body (call : Call) : Follows coSigning .ready call.body fun _ φ => coSigning.Ends φ := by
  cases call with
  | addCoSignature sessionId signature submit now => exact follows_addCoSignature signature now
  | submitCoSigningSession sessionId submit now => exact follows_submitCoSigningSession now
  | expireCoSigningSession sessionId now => exact follows_expireCoSigningSession now

end

end Delego.CoSigning
