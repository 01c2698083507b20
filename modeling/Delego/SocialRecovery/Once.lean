import Delego.Data.Calendar
import Delego.Data.Table
import Delego.Process.Returned

/-! Recovery of an account by guardians (`wallet/src/recovery/socialRecovery.ts`).

Each function selects the row, checks it, and updates it by its identifier; a query, the submission and a look at the
clock are one operation each.

An update carries the row that the call has selected, of which it uses the identifier alone. -/
namespace Delego.SocialRecovery
open Delego.Process Delego.Data List

structure GuardianSignature where
  (guardianAddress signature : String)
  signedAt : Int
  deriving DecidableEq

inductive Status where
  | initiated | pendingConfirmations | thresholdMet | executed | cancelled
  deriving DecidableEq

def Status.text : Status → String
  | .initiated => "initiated"
  | .pendingConfirmations => "pending_confirmations"
  | .thresholdMet => "threshold_met"
  | .executed => "executed"
  | .cancelled => "cancelled"

structure RecoveryRequest where
  (id accountAddress newPublicKey : String)
  guardians : List String
  threshold : Int
  signatures : List GuardianSignature
  status : Status
  (initiatedAt expiresAt : Int)
  (cancelledAt executedAt : Option Int)
  deriving DecidableEq

structure RequestUpdate where
  signatures : Option (List GuardianSignature) := none
  status : Status
  cancelledAt : Option Int := none
  executedAt : Option Int := none

def RecoveryRequest.apply (changes : RequestUpdate) (request : RecoveryRequest) : RecoveryRequest :=
  { request with
    signatures := changes.signatures.getD request.signatures
    status := changes.status
    cancelledAt := changes.cancelledAt.or request.cancelledAt
    executedAt := changes.executedAt.or request.executedAt }

/-! ### Operations -/

/-- What `UPDATE … SET` says; the times are those of the database. -/
inductive Statement where
  | expire
  | sign (signatures : List GuardianSignature) (status : Status)
  | execute
  | cancel

inductive Op where
  | select (id : String)
  | update (request : RecoveryRequest) (statement : Statement)
  | submitRecoveryTransaction (request : RecoveryRequest)
  | now

@[reducible] def Op.Reply : Op → Type
  | .select _ => Option RecoveryRequest
  | .update .. => Option RecoveryRequest
  | .submitRecoveryTransaction _ => Unit
  | .now => Int

@[reducible] def socialSignature : Signature := ⟨Op, Op.Reply, String⟩

abbrev SocialM := Program socialSignature

def op (o : Op) : SocialM o.Reply := Program.perform (S := socialSignature) o

/-- A recovery transaction that has reached the wallet service, the row and the time then. -/
structure Submission where
  request : RecoveryRequest
  row : Option RecoveryRequest
  time : Int

structure World where
  clock : Int
  rows : List RecoveryRequest
  /-- What has been submitted, in order. -/
  submissions : List Submission

/-- What the environment decides about an operation. -/
structure Choice where
  fate : Fate := .done

def World.row (w : World) (id : String) : Option RecoveryRequest := lookup RecoveryRequest.id w.rows id

/-- `NOW()` -/
def Statement.changes (now : Int) : Statement → RequestUpdate
  | .expire => { status := .cancelled }
  | .sign signatures status => { signatures := some signatures, status := status }
  | .execute => { status := .executed, executedAt := some now }
  | .cancel => { status := .cancelled, cancelledAt := some now }

def World.update (w : World) (id : String) (statement : Statement) : World :=
  { w with rows := Data.update RecoveryRequest.id w.rows id (·.apply (statement.changes w.clock)) }

def answer (o : Op) (_ : Choice) (w : World) : Except String (o.Reply × World) :=
  match o with
  | .select id => .ok (w.row id, w)
  | .update request statement => .ok ((w.update request.id statement).row request.id, w.update request.id statement)
  | .submitRecoveryTransaction request =>
    .ok ((), { w with submissions := w.submissions ++ [⟨request, w.row request.id, w.clock⟩] })
  | .now => .ok (w.clock, w)

/-- What needs no other party does not throw. A submission that is answered with an error may have
been carried out or not. -/
def fateOf (o : Op) (ch : Choice) : Fate :=
  match o with
  | .now => .done
  | _ => ch.fate

def perform (o : Op) (ch : Choice) (w : World) : Except String o.Reply × World :=
  (fateOf o ch).deliver (answer o ch w) w

structure Settings where
  /-- `Number(process.env.RECOVERY_CANCELLATION_WINDOW_HOURS ?? 24)` -/
  cancellationWindowHours : Number

/-- What `mapRow` throws of a row that is not there. -/
def unreadable : String := "Cannot read properties of undefined (reading 'id')"

def returned (row : Option RecoveryRequest) : SocialM RecoveryRequest :=
  match row with
  | none => .fail unreadable
  | some row => return row

def addGuardianSignature (recoveryId guardianAddress signature : String) : SocialM RecoveryRequest :=
  if recoveryId = "" ∨ guardianAddress = "" ∨ signature = "" then
    .fail "recoveryId, guardianAddress, and signature are required"
  else do
    let found ← op (.select recoveryId)
    match found with
    | none => .fail s!"Recovery request not found: {recoveryId}"
    | some request =>
      if request.status = .cancelled ∨ request.status = .executed then
        .fail s!"Recovery request is already {request.status.text}"
      else if guardianAddress ∉ request.guardians then
        .fail s!"Guardian {guardianAddress} is not authorized for this recovery"
      else if request.signatures.any fun s => decide (s.guardianAddress = guardianAddress) then
        .fail s!"Guardian {guardianAddress} has already signed this recovery"
      else do
        let now ← op .now
        if request.expiresAt < now then do
          let _ ← op (.update request .expire)
          .fail "Recovery request has expired"
        else do
          let signedAt ← op .now
          let updatedSignatures := request.signatures ++ [⟨guardianAddress, signature, signedAt⟩]
          let newStatus := if request.threshold ≤ updatedSignatures.length then .thresholdMet else .pendingConfirmations
          let row ← op (.update request (.sign updatedSignatures newStatus))
          returned row

def executeRecovery (recoveryId : String) : SocialM RecoveryRequest := do
  let found ← op (.select recoveryId)
  match found with
  | none => .fail s!"Recovery request not found: {recoveryId}"
  | some request =>
    if request.signatures.length < request.threshold then
      .fail s!"Insufficient signatures: {request.signatures.length}/{request.threshold}"
    else if request.status = .executed then return request
    else if request.status ≠ .thresholdMet then .fail s!"Cannot execute recovery in {request.status.text} state"
    else do
      op (.submitRecoveryTransaction request)
      let row ← op (.update request .execute)
      returned row

def cancellationDeadline (cfg : Settings) (initiatedAt : Int) : Option Int :=
  match cfg.cancellationWindowHours with
  | .finite hours =>
    let time := initiatedAt + hours * 60 * 60 * 1000
    timeClip (if 0 ≤ time then time.floor else time.ceil)
  | _ => none

def cancelRecovery (cfg : Settings) (recoveryId : String) : SocialM RecoveryRequest := do
  let found ← op (.select recoveryId)
  match found with
  | none => .fail s!"Recovery request not found: {recoveryId}"
  | some request =>
    if request.status = .executed ∨ request.status = .cancelled then
      .fail s!"Recovery request is already {request.status.text}"
    else do
      let now ← op .now
      if (cancellationDeadline cfg request.initiatedAt).any fun deadline => decide (deadline < now) then
        .fail "Recovery cancellation window has passed"
      else do
        let row ← op (.update request .cancel)
        returned row

inductive Call where
  | addGuardianSignature (recoveryId guardianAddress signature : String)
  | executeRecovery (recoveryId : String)
  | cancelRecovery (recoveryId : String)

/-- What a call returns is left aside; whether it throws is not. -/
def Call.body (cfg : Settings) : Call → SocialM Unit
  | .addGuardianSignature recoveryId guardianAddress signature => do
    let _ ← SocialRecovery.addGuardianSignature recoveryId guardianAddress signature
  | .executeRecovery recoveryId => do
    let _ ← SocialRecovery.executeRecovery recoveryId
  | .cancelRecovery recoveryId => do
    let _ ← SocialRecovery.cancelRecovery cfg recoveryId

inductive Event where
  | passes (ms : Nat)

def system (cfg : Settings) : System socialSignature World where
  Choice := Choice
  Event := Event
  Call := Call
  perform := perform
  drift := fun e w => match e with
    | .passes ms => { w with clock := w.clock + ms }
  arrive := fun _ w => some w
  body := Call.body cfg

abbrev SocialPool := Pool socialSignature World

abbrev SocialTrace := List (Entry socialSignature)

/-! ### How often a recovery is executed

A call checks the row that it has selected, and updates the row whatever has become of it: two executions that have
selected a request with enough signatures both submit it, a cancellation is written over by a signature, and of two
signatures one is lost (`recovered_twice`). Nor does an execution look at the time. -/

def recording (id : String) (program : SocialM Unit) : Bool :=
  match program.pending with
  | some (.update request .execute) => decide (request.id = id)
  | _ => false

/-- A row is updated and submitted as it was selected, before it expires. An execution is recorded, and
before the next one is made. -/
def asSelected (p : SocialPool) (_ : Nat) (o : Op) (ch : Choice) : Bool :=
  match o with
  | .update request statement =>
    decide (p.world.row request.id = some request) &&
      match statement, ch.fate with
      | .execute, .refused _ => false
      | _, _ => true
  | .submitRecoveryTransaction request =>
    decide (p.world.row request.id = some request) && decide (p.world.clock ≤ request.expiresAt) &&
      (p.runners.all fun program => !recording request.id program) &&
      match ch.fate with
      | .lost _ => false
      | _ => true
  | _ => true

/-! ### Phases of a call -/

/-- What a call has submitted. -/
inductive Phase where
  | ready
  /-- The request is submitted, and this still to be recorded. -/
  | submitted (id : String)

def Status.Final (status : Status) : Prop := status = .cancelled ∨ status = .executed

/-- What is written of a row that was selected so. -/
structure Legal (request : RecoveryRequest) (statement : Statement) : Prop where
  opened : ¬request.status.Final
  keeps : ∀ sig ∈ request.signatures, ∀ now, sig ∈ (request.apply (statement.changes now)).signatures

namespace Phase

def next (φ : Phase) : (o : Op) → socialSignature.Result o → Phase
  | .submitRecoveryTransaction request, .ok _ => .submitted request.id
  | .update _ _, _ => .ready
  | _, _ => φ

def Allows : Phase → Op → Prop
  | .ready, .update request statement => Legal request statement ∧ statement ≠ .execute
  | .ready, .submitRecoveryTransaction request => request.status = .thresholdMet
  | .ready, _ => True
  | .submitted id, .update request statement => request.id = id ∧ statement = .execute ∧ Legal request statement
  | .submitted _, _ => False

end Phase

def recovering : Protocol socialSignature Phase where
  Allowed := Phase.Allows
  Moves := fun φ o r φ' => φ' = φ.next o r
  Ends := fun φ => φ = .ready

section
variable {cfg : Settings}

theorem follows_op {o : Op} {φ : Phase} {Q : Except String o.Reply → Phase → Prop} (ha : φ.Allows o)
    (hm : ∀ r, Q r (φ.next o r)) : Follows recovering φ (op o) Q := by
  apply follows_perform ha
  rintro r _ rfl
  exact hm r

theorem follows_returned (row : Option RecoveryRequest) :
    Follows recovering .ready (returned row) fun _ φ => φ = .ready := by
  cases row with
  | none => rfl
  | some row => rfl

theorem follows_update {request : RecoveryRequest} {statement : Statement} {φ : Phase} {α : Type}
    {f : Option RecoveryRequest → SocialM α} (ha : φ.Allows (.update request statement))
    (hf : ∀ row, Follows recovering .ready (f row) fun _ φ => φ = .ready) :
    Follows recovering φ (op (.update request statement) >>= f) fun _ φ => φ = .ready := by
  exact follows_bind (follows_op ha (forall_except (fun _ => rfl) fun row => hf row))

theorem follows_ready {o : Op} {α : Type} {f : o.Reply → SocialM α} (ha : Phase.ready.Allows o)
    (hnext : ∀ r, Phase.ready.next o r = .ready)
    (hf : ∀ a, Follows recovering .ready (f a) fun _ φ => φ = .ready) :
    Follows recovering .ready (op o >>= f) fun _ φ => φ = .ready := by
  apply follows_bind
  refine follows_op ha ?_
  intro r
  rw [hnext]
  cases r with
  | error message => rfl
  | ok a => exact hf a

theorem legal_of_status {request : RecoveryRequest} {statement : Statement} (hopen : ¬request.status.Final)
    (h : ∀ now, (statement.changes now).signatures = none) : Legal request statement where
  opened := hopen
  keeps := by
    intro sig hsig now
    simpa [RecoveryRequest.apply, h now] using hsig

theorem follows_addGuardianSignature (recoveryId guardianAddress signature : String) :
    Follows recovering .ready (addGuardianSignature recoveryId guardianAddress signature) fun _ φ => φ = .ready := by
  unfold addGuardianSignature
  split
  · rfl
  · refine follows_ready trivial (fun _ => rfl) ?_
    intro found
    cases found with
    | none => rfl
    | some request =>
      simp only
      split
      · rfl
      · rename_i hopen
        split
        · rfl
        · split
          · rfl
          · refine follows_ready trivial (fun _ => rfl) ?_
            intro now
            split
            · exact follows_update ⟨legal_of_status hopen fun _ => rfl, nofun⟩ fun _ => rfl
            · refine follows_ready trivial (fun _ => rfl) ?_
              intro signedAt
              refine follows_update ⟨⟨hopen, ?_⟩, nofun⟩ follows_returned
              exact fun sig hsig _ => mem_append_left _ hsig

theorem follows_executeRecovery (recoveryId : String) :
    Follows recovering .ready (executeRecovery recoveryId) fun _ φ => φ = .ready := by
  refine follows_ready trivial (fun _ => rfl) ?_
  intro found
  cases found with
  | none => rfl
  | some request =>
    simp only
    split
    · rfl
    · split
      · rfl
      · split
        · rfl
        · rename_i hmet
          have hmet : request.status = .thresholdMet := not_not.mp hmet
          have hopen : ¬request.status.Final := by
            rw [hmet]
            rintro (h | h) <;> cases h
          exact follows_bind (follows_op hmet
            (forall_except (fun _ => rfl) fun _ => follows_update ⟨rfl, rfl, legal_of_status hopen fun _ => rfl⟩ follows_returned))

theorem follows_cancelRecovery (recoveryId : String) :
    Follows recovering .ready (cancelRecovery cfg recoveryId) fun _ φ => φ = .ready := by
  refine follows_ready trivial (fun _ => rfl) ?_
  intro found
  cases found with
  | none => rfl
  | some request =>
    simp only
    split
    · rfl
    · rename_i hopen
      refine follows_ready trivial (fun _ => rfl) ?_
      intro now
      split
      · rfl
      · exact follows_update ⟨legal_of_status (fun h => hopen h.symm) fun _ => rfl, nofun⟩ follows_returned

theorem follows_body (call : Call) : Follows recovering .ready (call.body cfg) fun _ φ => φ = .ready := by
  cases call with
  | addGuardianSignature recoveryId guardianAddress signature =>
    exact follows_andThen (follows_addGuardianSignature recoveryId guardianAddress signature) fun _ _ h => h
  | executeRecovery recoveryId => exact follows_andThen (follows_executeRecovery recoveryId) fun _ _ h => h
  | cancelRecovery recoveryId => exact follows_andThen (follows_cancelRecovery recoveryId) fun _ _ h => h

end

def World.Signed (w : World) (id : String) (sig : GuardianSignature) : Prop :=
  ∃ row, w.row id = some row ∧ sig ∈ row.signatures

/-- What is cancelled or executed is as it was, signatures stay, and what is submitted since was open. -/
structure Kept (w w' : World) : Prop where
  final : ∀ {id row}, w.row id = some row → row.status.Final → w'.row id = some row
  signed : ∀ {id sig}, w.Signed id sig → w'.Signed id sig
  submitted : ∀ s ∈ w'.submissions, s ∈ w.submissions ∨ ∀ row, w.row s.request.id = some row → ¬row.status.Final

theorem Kept.refl (w : World) : Kept w w := ⟨fun h _ => h, fun h => h, fun _ h => .inl h⟩

theorem Kept.trans {w w' w'' : World} (h : Kept w w') (h' : Kept w' w'') : Kept w w'' where
  final := fun hrow hfinal => h'.final (h.final hrow hfinal) hfinal
  signed := fun hsigned => h'.signed (h.signed hsigned)
  submitted := by
    intro s hs
    rcases h'.submitted s hs with hs | hopen
    · exact h.submitted s hs
    · exact .inr fun row hrow hfinal => hopen row (h.final hrow hfinal) hfinal

section
variable {w : World} {request : RecoveryRequest} {statement : Statement}

theorem row_update (id id' : String) : (w.update id statement).row id' =
    if id' = id then (w.row id').map (·.apply (statement.changes w.clock)) else w.row id' :=
  lookup_update (f := RecoveryRequest.apply (statement.changes w.clock)) fun _ => rfl

theorem row_updated (h : w.row request.id = some request) :
    (w.update request.id statement).row request.id = some (request.apply (statement.changes w.clock)) := by
  rw [row_update, if_pos rfl, h, Option.map_some]

theorem kept_update (h : w.row request.id = some request) (hlegal : Legal request statement) :
    Kept w (w.update request.id statement) := by
  refine ⟨?_, ?_, fun s hs => .inl hs⟩
  · intro id row hrow hfinal
    by_cases hid : id = request.id
    · subst hid
      rw [h] at hrow
      cases hrow
      exact absurd hfinal hlegal.opened
    · rw [row_update, if_neg hid]
      exact hrow
  · rintro id sig ⟨row, hrow, hsig⟩
    by_cases hid : id = request.id
    · subst hid
      rw [h] at hrow
      cases hrow
      exact ⟨_, row_updated h, hlegal.keeps sig hsig w.clock⟩
    · exact ⟨row, by rw [row_update, if_neg hid, hrow], hsig⟩

theorem kept_submit (h : w.row request.id = some request) (hopen : ¬request.status.Final) :
    Kept w { w with submissions := w.submissions ++ [⟨request, w.row request.id, w.clock⟩] } := by
  refine ⟨fun hrow _ => hrow, fun hsigned => hsigned, ?_⟩
  intro s hs
  rcases mem_append.mp hs with hs | hs
  · exact .inl hs
  · right
    rw [mem_singleton.mp hs]
    intro row hrow
    rw [h] at hrow
    cases hrow
    exact hopen

end

/-! ### The invariant -/

def accepted : (o : Op) → socialSignature.Result o → List (String × GuardianSignature)
  | .update request (.sign signatures _), .ok _ => signatures.map fun sig => (request.id, sig)
  | _, _ => []

/-- The invariant: a request is submitted once, and recorded as executed. -/
structure Single (w : World) (tr : SocialTrace) (φ : Nat → Phase) : Prop where
  once : (w.submissions.map fun s => s.request.id).Nodup
  /-- What is submitted is executed, or is going to be. -/
  recorded : ∀ s ∈ w.submissions, (∃ row, w.row s.request.id = some row ∧ row.status = .executed) ∨
    ∃ i, φ i = .submitted s.request.id
  timely : ∀ s ∈ w.submissions, s.row = some s.request ∧ s.request.status = .thresholdMet ∧ s.time ≤ s.request.expiresAt
  accepted : ∀ e ∈ tr, ∀ entry ∈ accepted e.op e.result, w.Signed entry.1 entry.2

section
variable {w : World} {tr : SocialTrace} {φ : Nat → Phase} {i : Nat}
  {o : Op}

theorem Single.same (h : Single w tr φ) {r : socialSignature.Result o} (hacc : SocialRecovery.accepted o r = []) :
    Single w (⟨i, o, r⟩ :: tr) (Function.update φ i (φ i)) where
  once := h.once
  recorded := by
    rw [Function.update_eq_self]
    exact h.recorded
  timely := h.timely
  accepted := by
    intro e he entry hentry
    rcases mem_cons.mp he with rfl | he
    · simp only [hacc, not_mem_nil] at hentry
    · exact h.accepted e he entry hentry

variable {request : RecoveryRequest} {statement : Statement}

theorem Single.update (h : Single w tr φ)
    (hfound : w.row request.id = some request) (hlegal : Legal request statement)
    (hphase : ∀ id, φ i = .submitted id → request.id = id ∧ statement = .execute)
    {r : socialSignature.Result (.update request statement)} :
    Single (w.update request.id statement) (⟨i, .update request statement, r⟩ :: tr) (Function.update φ i .ready) := by
  have hkept := kept_update hfound hlegal
  refine ⟨h.once, ?_, h.timely, ?_⟩
  · intro s hs
    rcases h.recorded s hs with ⟨row, hrow, hexec⟩ | ⟨j, hj⟩
    · exact .inl ⟨row, hkept.final hrow (.inr hexec), hexec⟩
    · by_cases hji : j = i
      · subst hji
        obtain ⟨hid, rfl⟩ := hphase _ hj
        refine .inl ⟨request.apply (Statement.execute.changes w.clock), ?_, rfl⟩
        rw [← hid]
        exact row_updated hfound
      · exact .inr ⟨j, by rw [Function.update_of_ne hji, hj]⟩
  · intro e he entry hentry
    rcases mem_cons.mp he with rfl | he
    · cases statement with
      | sign signatures status =>
        cases r with
        | error message => cases hentry
        | ok row =>
          obtain ⟨sig, hsig, rfl⟩ := mem_map.mp hentry
          exact ⟨_, row_updated hfound, hsig⟩
      | expire | execute | cancel => cases hentry
    · exact hkept.signed (h.accepted e he entry hentry)

theorem Single.submit (h : Single w tr φ) (hfound : w.row request.id = some request)
    (hmet : request.status = .thresholdMet) (htime : w.clock ≤ request.expiresAt)
    (hfree : ∀ j, φ j ≠ .submitted request.id) {r : socialSignature.Result (.submitRecoveryTransaction request)}
    (hready : φ i = .ready) :
    Single { w with submissions := w.submissions ++ [⟨request, w.row request.id, w.clock⟩] }
      (⟨i, .submitRecoveryTransaction request, r⟩ :: tr) (Function.update φ i (.submitted request.id)) := by
  refine ⟨?_, ?_, ?_, ?_⟩
  · rw [map_append, map_singleton, nodup_append]
    refine ⟨h.once, nodup_singleton _, ?_⟩
    rintro id hid _ hid' rfl
    obtain ⟨s, hs, rfl⟩ := mem_map.mp hid
    rw [mem_singleton] at hid'
    -- an earlier submission would be recorded, and the request be executed
    rcases h.recorded s hs with ⟨row, hrow, hexec⟩ | ⟨j, hj⟩
    · rw [hid', hfound] at hrow
      cases hrow
      simp [hmet] at hexec
    · exact hfree j (hid' ▸ hj)
  · intro s hs
    rcases mem_append.mp hs with hs | hs
    · rcases h.recorded s hs with hrecd | ⟨j, hj⟩
      · exact .inl hrecd
      · refine .inr ⟨j, ?_⟩
        rw [Function.update_of_ne, hj]
        rintro rfl
        simp [hready] at hj
    · rw [mem_singleton.mp hs]
      exact .inr ⟨i, Function.update_self ..⟩
  · intro s hs
    rcases mem_append.mp hs with hs | hs
    · exact h.timely s hs
    · rw [mem_singleton.mp hs]
      exact ⟨hfound, hmet, htime⟩
  · intro e he entry hentry
    rcases mem_cons.mp he with rfl | he
    · cases hentry
    · exact h.accepted e he entry hentry

/-- What the guard says of a row that is updated. -/
def UpToDate (w : World) (ch : Choice) (o : Op) : Prop :=
  ∀ request statement, o = .update request statement →
    w.row request.id = some request ∧ (statement = .execute → ∀ message, ch.fate ≠ .refused message)

/-- What it says of a request that is submitted. -/
def InOrder (w : World) (φ : Nat → Phase) (ch : Choice) (o : Op) : Prop :=
  ∀ request, o = .submitRecoveryTransaction request → w.row request.id = some request ∧
    w.clock ≤ request.expiresAt ∧ (∀ j, φ j ≠ .submitted request.id) ∧ ∀ message, ch.fate ≠ .lost message

theorem legal_of_allows {ψ : Phase}
    (h : ψ.Allows (.update request statement)) : Legal request statement := by
  cases ψ with
  | ready => exact h.1
  | submitted id => exact h.2.2

theorem opened_of_allows {ψ : Phase} (h : ψ.Allows (.submitRecoveryTransaction request)) :
    ¬request.status.Final := by
  cases ψ with
  | ready =>
    rw [show request.status = .thresholdMet from h]
    rintro (hfinal | hfinal) <;> cases hfinal
  | submitted id => exact h.elim

theorem perform_select (id : String) (ch : Choice) (w : World) : (perform (.select id) ch w).2 = w := by
  refine Fate.deliver_kept (P := fun w' => w' = w) rfl ?_
  rintro a w' ⟨⟩
  rfl

variable {ch : Choice}

theorem kept_step (ha : (φ i).Allows o) (hup : UpToDate w ch o) (hin : InOrder w φ ch o) :
    Kept w (perform o ch w).2 := by
  refine Fate.deliver_kept (P := Kept w) (.refl w) ?_
  intro a w' hans
  cases o with
  | update request statement =>
    cases hans
    exact kept_update (hup request statement rfl).1 (legal_of_allows ha)
  | submitRecoveryTransaction request =>
    cases hans
    exact kept_submit (hin request rfl).1 (opened_of_allows ha)
  | select id | now =>
    cases hans
    exact .refl w

theorem Single.written (h : Single w tr φ)
    (ha : (φ i).Allows (.update request statement)) (hup : UpToDate w ch (.update request statement)) :
    Single (perform (.update request statement) ch w).2
      (⟨i, .update request statement, (perform (.update request statement) ch w).1⟩ :: tr)
      (Function.update φ i .ready) := by
  obtain ⟨hfound, hwrit⟩ := hup request statement rfl
  have hphase : ∀ id, φ i = .submitted id → request.id = id ∧ statement = .execute := by
    intro id hid
    rw [hid] at ha
    exact ⟨ha.1, ha.2.1⟩
  cases hfate : ch.fate with
  | refused message =>
    simp only [perform, fateOf, hfate, answer, Fate.deliver, Fate.carry]
    -- only an update that is no execution may be refused, and its call has submitted nothing
    have hready : φ i = .ready := by
      cases hφ : φ i with
      | ready => rfl
      | submitted id => exact absurd hfate (hwrit (hphase id hφ).2 message)
    rw [← hready]
    refine h.same ?_
    cases statement with
    | _ => rfl
  | _ =>
    simp only [perform, fateOf, hfate, answer, Fate.deliver, Fate.carry]
    exact h.update hfound (legal_of_allows ha) hphase

theorem Single.step (h : Single w tr φ) (ha : (φ i).Allows o) (hup : UpToDate w ch o) (hin : InOrder w φ ch o) :
    Single (perform o ch w).2 (⟨i, o, (perform o ch w).1⟩ :: tr)
      (Function.update φ i ((φ i).next o (perform o ch w).1)) := by
  cases o with
  | update request statement => exact h.written ha hup
  | submitRecoveryTransaction request =>
    obtain ⟨hfound, htime, hfree, hansd⟩ := hin request rfl
    have hready : φ i = .ready := by
      cases hφ : φ i with
      | ready => rfl
      | submitted id =>
        rw [hφ] at ha
        exact ha.elim
    have hmet : request.status = .thresholdMet := by
      rw [hready] at ha
      exact ha
    cases hfate : ch.fate with
    | done =>
      simp only [perform, fateOf, hfate, answer, Fate.deliver, Fate.carry]
      exact h.submit hfound hmet htime hfree hready
    | refused message =>
      simp only [perform, fateOf, hfate, answer, Fate.deliver, Fate.carry]
      exact h.same rfl
    | lost message => exact absurd hfate (hansd message)
  | select id =>
    rw [perform_select]
    exact h.same rfl
  | now => exact h.same rfl

end

section
variable {cfg : Settings}
  {p : SocialPool}

variable {φ : Nat → Phase}

theorem recording_of_submitted {J : World → SocialTrace → (Nat → Phase) → Prop}
    (ht : Tracked recovering .ready J p φ) {j : Nat} {id : String} (hj : φ j = .submitted id) :
    ∃ program ∈ p.runners, recording id program = true := by
  obtain ⟨program, o, hprog, hpend, ha⟩ := ht.active (i := j) (by rw [hj]; nofun) (by
    intro hends
    rw [show φ j = .ready from hends] at hj
    cases hj)
  refine ⟨program, mem_of_getElem? hprog, ?_⟩
  rw [hj] at ha
  cases o with
  | update request statement =>
    obtain ⟨hid, rfl, -⟩ := ha
    simp [recording, hpend, hid]
  | _ => exact ha.elim

theorem upToDate_of_asSelected {i : Nat} {o : Op} {ch : Choice} (h : asSelected p i o ch = true) :
    UpToDate p.world ch o := by
  rintro request statement rfl
  simp only [asSelected, Bool.and_eq_true, decide_eq_true_eq] at h
  refine ⟨h.1, ?_⟩
  rintro rfl message hfate
  rw [hfate] at h
  cases h.2

theorem inOrder_of_asSelected {J : World → SocialTrace → (Nat → Phase) → Prop}
    (ht : Tracked recovering .ready J p φ) {i : Nat} {o : Op} {ch : Choice} (h : asSelected p i o ch = true) :
    InOrder p.world φ ch o := by
  rintro request rfl
  simp only [asSelected, Bool.and_eq_true, decide_eq_true_eq, all_eq_true] at h
  refine ⟨h.1.1.1, h.1.1.2, ?_, ?_⟩
  · intro j hj
    obtain ⟨program, hmem, hrecording⟩ := recording_of_submitted ht hj
    have hnot := h.1.2 program hmem
    simp [hrecording] at hnot
  · intro message hfate
    rw [hfate] at h
    cases h.2

theorem Single.passes {w : World} {tr : SocialTrace} (h : Single w tr φ) (clock : Int) :
    Single { w with clock := clock } tr φ := ⟨h.once, h.recorded, h.timely, h.accepted⟩

theorem inductive_single : Inductive (system cfg) recovering .ready
    (fun p a => onStep asSelected p a = true) Single where
  body := fun _ call _ => follows_body call
  arrive := by
    intro p φ call w _ ht hw
    cases hw
    exact ht.holds
  drift := by
    intro p φ e _ ht
    cases e with
    | passes ms => exact ht.holds.passes _
  answers := fun _ _ _ _ _ _ _ _ _ => ⟨_, rfl⟩
  step := by
    rintro p φ i o ch _ hg hp ht ha rfl
    have hselected := onStep_pending hg hp
    exact ht.holds.step ha (upToDate_of_asSelected hselected) (inOrder_of_asSelected ht hselected)

/-- Nothing that is kept in an earlier state is lost later. -/
theorem inductive_kept (v : World) : Inductive (system cfg) recovering .ready
    (fun p a => onStep asSelected p a = true) fun w tr φ => Single w tr φ ∧ Kept v w := by
  refine inductive_single.and (fun _ _ h => h) ?_ ?_ ?_
  · intro p φ call w _ _ hkept hw
    cases hw
    exact hkept
  · intro p φ e _ _ hkept
    cases e with
    | passes ms => exact hkept.trans ⟨fun hrow _ => hrow, fun hsigned => hsigned, fun _ hs => .inl hs⟩
  · rintro p φ i o ch φ' hg hp ht hkept ha -
    have hselected := onStep_pending hg hp
    exact hkept.trans (kept_step ha (upToDate_of_asSelected hselected) (inOrder_of_asSelected ht hselected))

/-- **Where rows are updated as they were selected, a request is submitted at most once, open and complete; what is
cancelled or executed stays so, and no signature is lost.** -/
theorem recovered_once {w₀ : World} {p q : SocialPool} (hnone : w₀.submissions = [])
    (hp : Run (system cfg) (fun p a => onStep asSelected p a = true) (Pool.start w₀) p)
    (hq : Run (system cfg) (fun p a => onStep asSelected p a = true) p q) :
    (q.world.submissions.map fun s => s.request.id).Nodup ∧
      (∀ s ∈ q.world.submissions, s.row = some s.request ∧ s.request.status = .thresholdMet ∧
        s.time ≤ s.request.expiresAt) ∧
      (∀ id row, p.world.row id = some row → row.status.Final → q.world.row id = some row) ∧
      (∀ id row, p.world.row id = some row → row.status.Final →
        ∀ s ∈ q.world.submissions, s.request.id = id → s ∈ p.world.submissions) ∧
      ∀ e ∈ q.trace, ∀ entry ∈ accepted e.op e.result, q.world.Signed entry.1 entry.2 := by
  have hstart : Single w₀ [] fun _ => .ready :=
    ⟨by simp [hnone], by simp [hnone], by simp [hnone], fun _ he => absurd he not_mem_nil⟩
  obtain ⟨φ, ht⟩ := inductive_single.run hp ⟨_, .start hstart⟩
  obtain ⟨φ', ht'⟩ := (inductive_kept p.world).run hq ⟨φ, ht.mono fun h => ⟨h, .refl _⟩⟩
  obtain ⟨hsingle, hkept⟩ := ht'.holds
  refine ⟨hsingle.once, hsingle.timely, fun _ _ => hkept.final, ?_, hsingle.accepted⟩
  rintro id row hrow hfinal s hs rfl
  rcases hkept.submitted s hs with hs | hopen
  · exact hs
  · exact absurd hfinal (hopen row hrow)

end

def sampleSettings : Settings := ⟨.finite 24⟩

def initiated : World where
  clock := 0
  rows := [⟨"recovery-1", "GACCOUNT", "GNEW", ["G1", "G2"], 2, [], .initiated, 0, 100, none, none⟩]
  submissions := []

def goes (i steps : Nat) : List (Action (system sampleSettings)) := replicate steps (.step i {})

def signing : List (Action (system sampleSettings)) :=
  .call (.addGuardianSignature "recovery-1" "G1" "signature") :: goes 0 4 ++
    .call (.addGuardianSignature "recovery-1" "G2" "signature") :: goes 1 4

def executes : Action (system sampleSettings) := .call (.executeRecovery "recovery-1")

theorem recovered_once_signed :
    ∃ p q, Run (system sampleSettings) (fun p a => onStep asSelected p a = true) (Pool.start initiated) p ∧
      Run (system sampleSettings) (fun p a => onStep asSelected p a = true) p q ∧ q.quiet = true ∧
      q.world.submissions.length = 1 ∧ (q.world.submissions.map fun s => s.request.id).Nodup ∧
      ∀ s ∈ q.world.submissions, s.row = some s.request ∧ s.request.status = .thresholdMet ∧
        s.time ≤ s.request.expiresAt := by
  obtain ⟨p, hp, hsigned⟩ := Run.exists_of_any (Pool.start initiated) (onStep asSelected) signing
    (fun p : SocialPool => (p.runWhile (system sampleSettings) (onStep asSelected) (executes :: goes 2 3)).any
      fun q : SocialPool => q.quiet && decide (q.world.submissions.length = 1))
    (by decide)
  obtain ⟨q, hq, hexec⟩ := Run.exists_of_any p (onStep asSelected) (executes :: goes 2 3) _ hsigned
  simp only [Bool.and_eq_true, decide_eq_true_eq] at hexec
  obtain ⟨honce, htimely, -⟩ := recovered_once rfl hp hq
  exact ⟨p, q, hp, hq, hexec.1, hexec.2, honce, htimely⟩

/-- **A recovery is submitted twice.** Both executions have selected it with enough signatures. -/
theorem recovered_twice : ∃ q, Run (system sampleSettings) (fun _ _ => true = true) (Pool.start initiated) q ∧
      (q.world.submissions.map fun s => s.request.id) = ["recovery-1", "recovery-1"] ∧ q.quiet = true := by
  obtain ⟨q, hq, htest⟩ := Run.exists_of_any (Pool.start initiated)
    (fun (_ : SocialPool) (_ : Action (system sampleSettings)) => true)
    (signing ++ [executes, executes] ++ goes 2 1 ++ goes 3 1 ++ goes 2 2 ++ goes 3 2)
    (fun q : SocialPool => decide ((q.world.submissions.map fun s => s.request.id) = ["recovery-1", "recovery-1"]) &&
      q.quiet) (by decide)
  simp only [Bool.and_eq_true, decide_eq_true_eq] at htest
  exact ⟨q, hq, htest.1, htest.2⟩

end Delego.SocialRecovery
