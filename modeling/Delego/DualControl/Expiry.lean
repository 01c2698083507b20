import Delego.DualControl.Quorum

/-! Approvals past their expiry.

The time at which an approval expires is stored with it, and `sign` never reads it. So at or
after that time a signature is recorded as at any other: what is refused then is what would
be refused anyway (`Refused`). -/
namespace Delego.DualControl
open Delego.Process Delego.Data

/-- A call, the time at which it is made, how it ends and the tables that it leaves. -/
structure Step where
  now : Int
  call : Call
  outcome : Except DualControlError Unit
  after : Tables

def Valid (uuid : Column) : Tables → List Step → Prop
  | _, [] => True
  | d, step :: rest => Performs uuid True step.call d step.outcome step.after ∧ Valid uuid step.after rest

def Throughout (P : Tables → Step → Prop) : Tables → List Step → Prop
  | _, [] => True
  | d, step :: rest => P d step ∧ Throughout P step.after rest

/-- The approval that a text names. -/
def Tables.find (uuid : Column) (d : Tables) (approvalId : String) : Option DualControlApproval :=
  (uuid.read approvalId).bind (lookup DualControlApproval.id d.approvals)

def SignsLate (uuid : Column) (d : Tables) (step : Step) (signatureId : String) (request : SignApprovalRequest)
    (a : DualControlApproval) : Prop :=
  step.call = .sign signatureId request ∧ d.find uuid request.approvalId = some a ∧
    ∃ expiresAt, a.expiresAt = some expiresAt ∧ expiresAt ≤ step.now

/-- No signature on the approval is recorded, and neither it nor its order changes status. -/
structure Unmoved (d d' : Tables) (a : DualControlApproval) : Prop where
  signers : d'.signers a.id = d.signers a.id
  approval : d'.approvalStatus a.id = d.approvalStatus a.id
  order : d'.orderStatus a.orderId = d.orderStatus a.orderId

/-- What `sign` refuses: the approval is no longer pending, or the signer is given as the id of its creator, as no id,
or as one who has signed it. -/
def Refused (uuid : Column) (d : Tables) (request : SignApprovalRequest) (a : DualControlApproval) : Prop :=
  a.status ≠ .pending ∨ request.signerUserId = a.createdByUserId ∨
    ∀ signer, uuid.read request.signerUserId = some signer → signer ∈ d.signers a.id

def LateRefused (uuid : Column) (d : Tables) (step : Step) : Prop :=
  ∀ signatureId request a, SignsLate uuid d step signatureId request a → Refused uuid d request a

def LateUnmoved (uuid : Column) (d : Tables) (step : Step) : Prop :=
  ∀ signatureId request a, SignsLate uuid d step signatureId request a → Unmoved d step.after a

section
variable {uuid : Column} {d d' : Tables} {signatureId : String} {request : SignApprovalRequest} {a : DualControlApproval}

theorem Unmoved.refl (d : Tables) (a : DualControlApproval) : Unmoved d d a := ⟨rfl, rfl, rfl⟩

theorem find_eq_some : d.find uuid request.approvalId = some a ↔
    uuid.read request.approvalId = some a.id ∧ lookup DualControlApproval.id d.approvals a.id = some a := by
  unfold Tables.find
  rw [Option.bind_eq_some_iff]
  constructor
  · rintro ⟨approvalId, hread, hfound⟩
    obtain rfl := lookup_key hfound
    exact ⟨hread, hfound⟩
  · rintro ⟨hread, hfound⟩
    exact ⟨_, hread, hfound⟩

theorem unmoved_of_refused {outcome : Except DualControlError Unit} (hfound : d.find uuid request.approvalId = some a)
    (href : Refused uuid d request a) (h : Performs uuid True (.sign signatureId request) d outcome d') :
    Unmoved d d' a := by
  have hnone : ¬ Effects uuid d (.sign signatureId request) d' := by
    intro heffects
    obtain ⟨hread, hlook⟩ := find_eq_some.mp hfound
    cases heffects with
    | @signed _ _ approval signature _ accepted approvalId signer other after =>
      rw [hread, Option.some.injEq] at approvalId
      have heq : a = approval := Option.some.inj (hlook.symm.trans (approvalId ▸ accepted.found))
      subst heq
      obtain hstat | hcreator | hsig := href
      · exact hstat accepted.pending
      · exact other hcreator
      · exact accepted.fresh (approvalId ▸ hsig _ signer)
  obtain ⟨-, -, heffects⟩ | ⟨-, rfl | ⟨-, -, heffects⟩⟩ := performs_cases h
  · exact absurd heffects hnone
  · exact Unmoved.refl _ a
  · exact absurd heffects hnone

theorem yields_signInTransaction (hfound : d.find uuid request.approvalId = some a) (hpend : a.status = .pending)
    (hcreator : request.signerUserId ≠ a.createdByUserId) {signer : String}
    (hsigner : uuid.read request.signerUserId = some signer) (hunsigned : signer ∉ d.signers a.id)
    (hid : lookup DualControlSignature.id d.signatures signatureId = none) :
    ∃ result, Yields (execute uuid) d d (signInTransaction signatureId request) result
      (signed d a ⟨signatureId, a.id, signer, request.note⟩) := by
  obtain ⟨hread, hlook⟩ := find_eq_some.mp hfound
  generalize hsign : (⟨signatureId, a.id, signer, request.note⟩ : DualControlSignature) = signature
  have happr : signature.approvalId = a.id := by rw [← hsign]
  have hselect : execute uuid (.selectApprovalForUpdate request.approvalId) d = .ok (some a, d) := by
    simp only [execute, hread, hlook]
  have hinsert : execute uuid (.insertSignature signatureId a.id request.signerUserId request.note) d =
      .ok (true, d.record signature) := by
    simp only [execute, hsigner, if_neg hunsigned, hid, Option.isSome_none, Bool.false_eq_true, if_false, Tables.record,
      ← hsign]
  have hcount : (((d.record signature).signers a.id).length : Int) = (d.signers signature.approvalId).length + 1 := by
    simp [signers_record, happr]
  have happrove : ∃ updated, execute uuid (.approveApproval a.id) (d.record signature) = .ok (updated,
      { d.record signature with approvals := d.approvals.map (DualControlApproval.approve a.id) }) := by
    refine ⟨a.approve a.id, ?_⟩
    have hrow : lookup DualControlApproval.id (d.approvals.map (DualControlApproval.approve a.id)) a.id =
        some (a.approve a.id) := by
      rw [lookup_map (approve_id _), hlook]
      rfl
    simp only [execute, Tables.record, hrow]
  obtain ⟨updated, happrove⟩ := happrove
  -- The statements up to the count are the same whether the quorum is reached or not.
  have hstatements : ∀ {result after},
      Yields (execute uuid) d (d.record signature)
        (if (((d.record signature).signers a.id).length : Int) < a.requiredSignatures then
          pure ⟨a, ((d.record signature).signers a.id).length, false⟩
        else do
          let updated ← query (.approveApproval a.id)
          let _ ← query (.approveOrder a.orderId)
          pure ⟨updated, ((d.record signature).signers a.id).length, true⟩) result after →
      Yields (execute uuid) d d (signInTransaction signatureId request) result after := by
    intro result after hrest
    refine yields_bind (yields_statement hselect) ?_
    simp only [if_neg (not_not.mpr hpend), if_neg hcreator]
    refine yields_bind (yields_statement hinsert) ?_
    exact yields_bind (yields_statement rfl) hrest
  by_cases hless : ((d.signers signature.approvalId).length + 1 : Int) < a.requiredSignatures
  · refine ⟨⟨a, ((d.record signature).signers a.id).length, false⟩, hstatements ?_⟩
    rw [if_pos (by rw [hcount]; exact hless), signed, if_pos hless]
    exact yields_pure
  · refine ⟨⟨updated, ((d.record signature).signers a.id).length, true⟩, hstatements ?_⟩
    rw [if_neg (by rw [hcount]; exact hless), signed, if_neg hless]
    exact yields_bind (yields_statement happrove) (yields_bind (yields_statement rfl) yields_pure)

theorem signed_of_open (hfound : d.find uuid request.approvalId = some a) (hopen : ¬ Refused uuid d request a)
    (hid : lookup DualControlSignature.id d.signatures signatureId = none) :
    ∃ d', Performs uuid True (.sign signatureId request) d (.ok ()) d' ∧ ¬ Unmoved d d' a := by
  simp only [Refused, not_or, not_not, not_forall] at hopen
  obtain ⟨hpend, hcreator, signer, hsigner, hunsigned⟩ := hopen
  obtain ⟨result, hyields⟩ := yields_signInTransaction hfound hpend hcreator hsigner hunsigned hid
  refine ⟨signed d a ⟨signatureId, a.id, signer, request.note⟩, ends_of_sqlRun ?_, fun hunmoved => ?_⟩
  · refine (Program.alone_bind (sqlRun (execute uuid)) (sign signatureId request) _ _).trans ?_
    rw [sign, alone_inTransaction id hyields]
    rfl
  · have hsigs := hunmoved.signers
    rw [signers_signed, if_pos rfl] at hsigs
    simp at hsigs

end

theorem throughout_mono {uuid : Column} {P Q : Tables → Step → Prop} {d : Tables} {steps : List Step}
    (hvalid : Valid uuid d steps) (h : ∀ d step, Performs uuid True step.call d step.outcome step.after → P d step → Q d step)
    (hP : Throughout P d steps) : Throughout Q d steps := by
  induction steps generalizing d with
  | nil => trivial
  | cons step rest ih => exact ⟨h d step hvalid.1 hP.1, ih hvalid.2 hP.2⟩

/-- In every run in which each signature on an expired approval is refused anyway, none is recorded there and
nothing changes status. Any other signature can go through, at whatever time. -/
theorem expired_unmoved {uuid : Column} {d₀ : Tables} {steps : List Step} (valid : Valid uuid d₀ steps) :
    (Throughout (LateRefused uuid) d₀ steps → Throughout (LateUnmoved uuid) d₀ steps) ∧
      ∀ (d : Tables) (signatureId : String) (request : SignApprovalRequest) (a : DualControlApproval) (expiresAt now : Int),
        d.find uuid request.approvalId = some a →
        lookup DualControlSignature.id d.signatures signatureId = none →
        a.expiresAt = some expiresAt → expiresAt ≤ now → ¬ Refused uuid d request a →
          ∃ d', Valid uuid d [⟨now, .sign signatureId request, .ok (), d'⟩] ∧
            ¬ LateUnmoved uuid d ⟨now, .sign signatureId request, .ok (), d'⟩ := by
  constructor
  · apply throughout_mono valid
    rintro d ⟨now, call, outcome, d'⟩ hperforms href signatureId request a hlate
    obtain ⟨hcall, hfound, -⟩ := id hlate
    have hcall : call = .sign signatureId request := hcall
    subst hcall
    exact unmoved_of_refused hfound (href signatureId request a hlate) hperforms
  · intro d signatureId request a expiresAt now hfound hid hexpires hlate hopen
    obtain ⟨d', hperforms, hmoved⟩ := signed_of_open hfound hopen hid
    refine ⟨d', ⟨hperforms, trivial⟩, fun hunmoved => hmoved ?_⟩
    exact hunmoved signatureId request a ⟨rfl, hfound, expiresAt, hexpires, hlate⟩

def expiry : Int := 24 * 60 * 60 * 1000

/-- Bob signs in time, and once more when the approval has expired. -/
def repeated : List Step :=
  [⟨0, asks approval1 alice 2, .ok (), officeAsked⟩,
    ⟨1000, signs "signature-1" approval1 bob, .ok (), officeSigned⟩,
    ⟨expiry, signs "signature-2" approval1 bob,
      .error (.duplicateSignature s!"User {bob} has already signed approval {approval1}"), officeSigned⟩]

theorem valid_repeated : Valid officeUuid office repeated :=
  ⟨ends_of_sqlRun (by rfl), ends_of_sqlRun (by rfl), ends_of_sqlRun (by rfl), trivial⟩

theorem expired_unmoved_repeated :
    Valid officeUuid office repeated ∧ Throughout (LateRefused officeUuid) office repeated ∧
      Throughout (LateUnmoved officeUuid) office repeated := by
  have href : Throughout (LateRefused officeUuid) office repeated := by
    refine ⟨?_, ?_, ?_, trivial⟩
    · rintro signatureId request a ⟨hcall, -⟩
      cases hcall
    · rintro signatureId request a ⟨hcall, hfound, expiresAt, hexpires, hlate⟩
      cases hcall
      cases hfound
      cases hexpires
      exact absurd hlate (by decide)
    · rintro signatureId request a ⟨hcall, hfound, -⟩
      cases hcall
      cases hfound
      refine .inr (.inr fun signer hsigner => ?_)
      cases hsigner
      decide
  exact ⟨valid_repeated, href, (expired_unmoved valid_repeated).1 href⟩

/-- Bob and Carol sign when the approval has expired. -/
def overdue : List Step :=
  [⟨0, asks approval1 alice 2, .ok (), officeAsked⟩,
    ⟨expiry, signs "signature-1" approval1 bob, .ok (), officeSigned⟩,
    ⟨expiry + 1000, signs "signature-2" approval1 carol, .ok (), officeApproved⟩]

/-- Both signatures are recorded, and the order is approved. -/
theorem overdue_approves : Valid officeUuid office overdue ∧ ¬ Throughout (LateUnmoved officeUuid) office overdue ∧
      officeApproved.orderStatus order1 = some .approved := by
  refine ⟨⟨ends_of_sqlRun (by rfl), ends_of_sqlRun (by rfl), ends_of_sqlRun (by rfl), trivial⟩, ?_, by decide⟩
  rintro ⟨-, hfirst, -⟩
  have hunmoved := hfirst "signature-1" ⟨approval1, bob, none⟩ _ ⟨rfl, rfl, expiry, rfl, le_refl expiry⟩
  have hsigs := hunmoved.signers
  revert hsigs
  decide

end Delego.DualControl
