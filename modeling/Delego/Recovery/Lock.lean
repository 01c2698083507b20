import Delego.Recovery.Guardians

/-! The lock of a recovery.

The lock is stored as the time at which the request expires, and an approval is accepted only before it: a recovery is
completed while its lock runs, or not at all. The flag is looked at when a recovery is initiated, and the number of
approvals that it asks for is taken as it comes. -/
namespace Delego.Recovery
open Delego.Process Delego.Data List

section
variable (uuid : Column)

/-- Guardians have approved a request under different texts, each a verified guardian of the wallet when it did. -/
structure Approved (w : World) (request : RecoveryRequest) : Prop where
  distinct : (request.approvals.map RecoveryApproval.guardianId).Nodup
  granted : ∀ a ∈ request.approvals, ∃ guardian : Guardian, ⟨request.id, a.guardianId, some guardian⟩ ∈ w.grants ∧
    uuid.read a.guardianId = some guardian.id ∧ guardian.verified = true ∧
    guardian.walletAddress = request.walletAddress

/-- What a recovery is to be: in particular, the texts stand for different guardians. -/
structure Respects (w : World) (c : Completion) : Prop where
  enabled : c.enabled = true
  locked : c.request.createdAt + recoveryLock ≤ c.time
  required : 1 ≤ c.request.requiredApprovals
  reached : c.request.requiredApprovals ≤ c.request.approvals.length
  approved : Approved uuid w c.request
  distinct : (c.request.approvals.map fun a => uuid.read a.guardianId).Nodup

/-- What a recovery is. -/
structure Hasty (w : World) (c : Completion) : Prop where
  early : c.time < c.request.createdAt + recoveryLock
  reached : c.request.requiredApprovals ≤ c.request.approvals.length
  approved : Approved uuid w c.request

/-- Requests and completions are as calls leave them. -/
structure Lawful (w : World) : Prop where
  keyed : Keyed RecoveryRequest.id w.requests
  locks : ∀ r ∈ w.requests, r.expiresAt = r.createdAt + recoveryLock
  approved : ∀ r ∈ w.requests, Approved uuid w r
  hasty : ∀ c ∈ w.completions, Hasty uuid w c

end

section
variable {uuid : Column} {w w' : World} {r : RecoveryRequest}

theorem Approved.mono (h : Approved uuid w r) (hgrants : w.grants ⊆ w'.grants) : Approved uuid w' r where
  distinct := h.distinct
  granted := by
    intro a ha
    obtain ⟨guardian, hgrant, hguard⟩ := h.granted a ha
    exact ⟨guardian, hgrants hgrant, hguard⟩

theorem Hasty.mono {c : Completion} (h : Hasty uuid w c) (hgrants : w.grants ⊆ w'.grants) : Hasty uuid w' c :=
  ⟨h.early, h.reached, h.approved.mono hgrants⟩

theorem Lawful.same (h : Lawful uuid w) (hrequests : w'.requests = w.requests) (hgrants : w'.grants = w.grants)
    (hcompletions : w'.completions = w.completions) : Lawful uuid w' where
  keyed := hrequests ▸ h.keyed
  locks := hrequests ▸ h.locks
  approved := by
    rw [hrequests]
    exact fun r hr => (h.approved r hr).mono (by rw [hgrants]; exact List.Subset.refl _)
  hasty := by
    rw [hcompletions]
    exact fun c hc => (h.hasty c hc).mono (by rw [hgrants]; exact List.Subset.refl _)

theorem Lawful.createRequest (h : Lawful uuid w) (hnew : w.request r.id = none)
    (hlock : r.expiresAt = r.createdAt + recoveryLock) (hnone : r.approvals = []) :
    Lawful uuid { w with requests := w.requests ++ [r] } where
  keyed := h.keyed.append hnew
  locks := by
    intro r' hr'
    rcases mem_append.mp hr' with hr' | hr'
    · exact h.locks r' hr'
    · rw [mem_singleton.mp hr']
      exact hlock
  approved := by
    intro r' hr'
    rcases mem_append.mp hr' with hr' | hr'
    · exact (h.approved r' hr').mono (List.Subset.refl _)
    · rw [mem_singleton.mp hr']
      exact ⟨by simp [hnone], by simp [hnone]⟩
  hasty := fun c hc => (h.hasty c hc).mono (List.Subset.refl _)

theorem Lawful.updateRequest (h : Lawful uuid w) {changes : RequestUpdate} (hfound : w.request r.id = some r)
    (happr : Approved uuid (w.updateRequest uuid r.id changes) (r.apply changes))
    (hcompl : changes.status = some .completed → w.clock < r.expiresAt ∧ r.requiredApprovals ≤ r.approvals.length) :
    Lawful uuid (w.updateRequest uuid r.id changes) := by
  have hgrants : w.grants ⊆ (w.updateRequest uuid r.id changes).grants := subset_append_left _ _
  have hrows : ∀ r' ∈ (w.updateRequest uuid r.id changes).requests, r' ∈ w.requests ∨ r' = r.apply changes := by
    intro r' hr'
    obtain ⟨row, hrow, rfl⟩ := mem_map.mp hr'
    split
    · rename_i hid
      rw [h.keyed.eq hrow (lookup_mem hfound) hid]
      exact .inr rfl
    · exact .inl hrow
  refine ⟨h.keyed.update fun _ => rfl, ?_, ?_, ?_⟩
  · intro r' hr'
    rcases hrows r' hr' with hr' | rfl
    · exact h.locks r' hr'
    · exact h.locks r (lookup_mem hfound)
  · intro r' hr'
    rcases hrows r' hr' with hr' | rfl
    · exact (h.approved r' hr').mono hgrants
    · exact happr
  · intro c hc
    rcases mem_append.mp hc with hc | hc
    · exact (h.hasty c hc).mono hgrants
    · simp only [World.completed, hfound, Option.toList_some, map_cons, map_nil] at hc
      split at hc
      · rename_i hstat
        obtain ⟨hopen, hreach⟩ := hcompl hstat
        rw [mem_singleton.mp hc]
        have hlock := h.locks r (lookup_mem hfound)
        exact ⟨by rw [← hlock]; exact hopen, hreach, (h.approved r (lookup_mem hfound)).mono hgrants⟩
      · exact absurd hc not_mem_nil

theorem approved_by (h : Approved uuid w r) (hfound : w.request r.id = some r) {guardian : Guardian}
    {approval : RecoveryApproval} (hguard : w.guardianOf uuid approval.guardianId = some guardian)
    (hverified : guardian.verified = true) (hwal : guardian.walletAddress = r.walletAddress)
    (hfirst : r.approvedBy approval.guardianId = false) :
    Approved uuid (w.updateRequest uuid r.id { approvals := some (r.approvals ++ [approval]) })
      (r.apply { approvals := some (r.approvals ++ [approval]) }) := by
  have hgranted : w.granted uuid r.id { approvals := some (r.approvals ++ [approval]) } =
      [⟨r.id, approval.guardianId, some guardian⟩] := by
    simp [World.granted, hfound, hguard]
  have hkept : Approved uuid (w.updateRequest uuid r.id { approvals := some (r.approvals ++ [approval]) }) r :=
    h.mono (subset_append_left _ _)
  constructor
  · simp only [RecoveryRequest.apply, Option.getD_some, map_append, map_cons, map_nil]
    rw [nodup_append]
    refine ⟨h.distinct, nodup_singleton _, ?_⟩
    rintro id hid _ hid' rfl
    obtain ⟨a, ha, rfl⟩ := mem_map.mp hid
    rw [mem_singleton] at hid'
    simp only [RecoveryRequest.approvedBy, any_eq_false, decide_eq_true_eq] at hfirst
    exact hfirst a ha hid'
  · intro a ha
    rcases mem_append.mp ha with ha | ha
    · exact hkept.granted a ha
    · rw [mem_singleton.mp ha]
      obtain ⟨id, hread, hlook⟩ := Option.bind_eq_some_iff.mp hguard
      refine ⟨guardian, ?_, hread.trans (congrArg some (lookup_key hlook).symm), hverified, hwal⟩
      refine mem_append_right _ ?_
      rw [hgranted]
      exact mem_singleton_self _

end

/-! ### What calls do -/

/-- Requests, grants and completions are as they were. -/
structure Same (w w' : World) : Prop where
  requests : w'.requests = w.requests
  grants : w'.grants = w.grants
  completions : w'.completions = w.completions

theorem Same.refl (w : World) : Same w w := ⟨rfl, rfl, rfl⟩

theorem Same.trans {w w' w'' : World} (h : Same w w') (h' : Same w' w'') : Same w w'' :=
  ⟨h'.requests.trans h.requests, h'.grants.trans h.grants, h'.completions.trans h.completions⟩

def Op.aside : Op → Bool
  | .createRequest .. => false
  | .updateRequest .. => false
  | _ => true

section
variable {cfg : Settings} {w w' : World} {α : Type}
  {o : Op}

theorem answer_aside (ho : o.aside = true) {ch : Choice} {a : o.Reply} (h : answer cfg.uuid o ch w = .ok (a, w')) :
    Same w w' := by
  cases o with
  | createGuardian id walletAddress type identifier identifierEncrypted verificationCode verificationExpiresAt =>
    simp only [answer] at h
    split at h
    · cases h
    · split at h
      · cases h
      · cases h
        exact ⟨rfl, rfl, rfl⟩
  | findGuardian id | findRequest id | reloadGuardian id | reloadRequest id =>
    simp only [answer] at h
    split at h
    · cases h
    · cases h
      exact .refl _
  | createRequest | updateRequest => cases ho
  | _ =>
    cases h
    exact ⟨rfl, rfl, rfl⟩

def Op.looks : Op → Bool
  | .createGuardian .. => false
  | .verifyGuardian _ => false
  | .destroyGuardian _ => false
  | .createRequest .. => false
  | .updateRequest .. => false
  | .recordAttempt .. => false
  | _ => true

theorem answer_looks (ho : o.looks = true) {ch : Choice} {a : o.Reply} (h : answer cfg.uuid o ch w = .ok (a, w')) :
    w' = w := by
  cases o with
  | findGuardian id | findRequest id | reloadGuardian id | reloadRequest id =>
    simp only [answer] at h
    split at h
    · cases h
    · cases h
      rfl
  | createGuardian | verifyGuardian | destroyGuardian | createRequest | updateRequest | recordAttempt => cases ho
  | _ =>
    cases h
    rfl

/-- What operations do, whatever becomes of them. -/
abbrev does (uuid : Column) : Effect recoverySignature World := answering fateOf (answer uuid)

theorem ends_alone (p : RecoveryM α) (choices : Choices) (w : World) :
    Ends (does cfg.uuid) p w (p.alone (performed cfg.uuid choices) w).1 (p.alone (performed cfg.uuid choices) w).2 :=
  Ends.of_alone (S := recoverySignature) (fun o _ => ⟨choices o, rfl⟩) p w

theorem follows_aside {p : RecoveryM α} (hp : p.Only fun o : Op => o.aside = true) {w₀ : World} (h : Same w₀ w) :
    Follows (machine (does cfg.uuid)) w p fun _ w' => Same w₀ w' :=
  follows_keeping hp h fun _ _ _ _ _ ho hw hans => hw.trans (answer_aside ho hans)

theorem only_aside (ho : o.aside = true) : (op o).Only fun o : Op => o.aside = true := only_perform ho

theorem only_findGuardian (guardianId : String) : (findGuardian guardianId).Only fun o : Op => o.aside = true := by
  refine only_bind (only_aside rfl) ?_
  intro found
  cases found with
  | none => trivial
  | some guardian => trivial

theorem only_isRateLimited (walletAddress : String) : (isRateLimited walletAddress).Only fun o : Op => o.aside = true := by
  refine only_bind (only_aside rfl) ?_
  intro last
  cases last with
  | none => trivial
  | some last => exact only_bind (only_aside rfl) fun _ => trivial

theorem only_addGuardian (id verificationCode : String) (req : AddGuardianRequest) :
    (addGuardian id verificationCode req).Only fun o : Op => o.aside = true := by
  unfold addGuardian
  split
  · trivial
  · cases GuardianType.ofText req.type with
    | none => trivial
    | some type =>
      refine only_bind (only_aside rfl) fun _ => only_bind (only_aside rfl) fun _ => ?_
      exact only_bind (only_aside rfl) fun _ => only_bind (only_aside rfl) fun _ => trivial

theorem only_verifyGuardian (guardianId code : String) :
    (verifyGuardian cfg guardianId code).Only fun o : Op => o.aside = true := by
  refine only_bind (only_findGuardian guardianId) ?_
  intro guardian
  split
  · trivial
  · split
    · trivial
    · refine only_bind (only_aside rfl) ?_
      intro now
      split
      · trivial
      · exact only_bind (only_aside rfl) fun _ => only_bind (only_aside rfl) fun _ => only_aside rfl

theorem only_removeGuardian (guardianId : String) : (removeGuardian guardianId).Only fun o : Op => o.aside = true :=
  only_bind (only_findGuardian guardianId) fun _ => only_bind (only_aside rfl) fun _ => only_aside rfl

def Initiated (w w' : World) : Prop :=
  Same w w' ∨ ∃ r : RecoveryRequest, w.request r.id = none ∧ r.expiresAt = r.createdAt + recoveryLock ∧
    r.approvals = [] ∧ Same { w with requests := w.requests ++ [r] } w'

variable {r : RecoveryRequest}

theorem Initiated.of_create {w₁ : World} (h : Same w w₁) (hnew : w₁.request r.id = none)
    (hlock : r.expiresAt = r.createdAt + recoveryLock) (hnone : r.approvals = [])
    (h' : Same { w₁ with requests := w₁.requests ++ [r] } w') : Initiated w w' := by
  refine .inr ⟨r, ?_, hlock, hnone, ?_⟩
  · rw [World.request, ← h.requests]
    exact hnew
  · exact ⟨by rw [h'.requests, h.requests], h'.grants.trans h.grants, h'.completions.trans h.completions⟩

theorem follows_createRequest {w₁ : World} {id : String} {req : InitiateRecoveryRequest} {number : Number}
    {f : RecoveryRequest → RecoveryM α} (h : Same w w₁) (hf : ∀ r, (f r).Only fun o : Op => o.aside = true) :
    Follows (machine (does cfg.uuid)) w₁ (op (.createRequest id req.walletAddress req.initiatedBy
      (w₁.clock + RECOVERY_LOCK_DAYS * 24 * 60 * 60 * 1000) number) >>= f) fun _ w' => Initiated w w' := by
  have hcreated : ∀ ch r w', answer cfg.uuid (.createRequest id req.walletAddress req.initiatedBy
      (w₁.clock + RECOVERY_LOCK_DAYS * 24 * 60 * 60 * 1000) number) ch w₁ = .ok (r, w') →
      w₁.request r.id = none ∧ r.expiresAt = r.createdAt + recoveryLock ∧ r.approvals = [] ∧
        w' = { w₁ with requests := w₁.requests ++ [r] } := by
    intro ch r w' hans
    simp only [answer] at hans
    split at hans
    · cases hans
    · cases hans
    · split at hans
      · cases hans
      · rename_i hnew
        cases hans
        exact ⟨by simpa using hnew, rfl, rfl, rfl⟩
  refine follows_answered (fun _ => .inl h) ?_ ?_
  · intro message ch r w' hans
    obtain ⟨hnew, hlock, hnone, rfl⟩ := hcreated ch r w' hans
    exact .of_create h hnew hlock hnone (.refl _)
  · intro ch r w' hans
    obtain ⟨hnew, hlock, hnone, rfl⟩ := hcreated ch r w' hans
    refine follows_mono (follows_aside (hf r) (.refl _)) ?_
    exact fun _ w' heq => .of_create h hnew hlock hnone heq

theorem follows_initiateRecovery (cfg : Settings) (id : String) (req : InitiateRecoveryRequest) :
    Follows (machine (does cfg.uuid)) w (initiateRecovery id req) fun _ w' => Initiated w w' := by
  refine follows_bind (follows_mono (follows_aside (only_aside rfl) (.refl w))
    (forall_except (fun _ _ h₁ => .inl h₁) fun _ _ h₁ => ?_))
  simp only [Then]
  split
  · exact .inl h₁
  · refine follows_bind (follows_mono (follows_aside (only_isRateLimited _) h₁)
      (forall_except (fun _ _ h₂ => .inl h₂) fun _ _ h₂ => ?_))
    simp only [Then]
    split
    · exact .inl h₂
    · refine follows_bind (follows_mono (follows_aside (only_aside rfl) h₂)
        (forall_except (fun _ _ h₃ => .inl h₃) fun existing _ h₃ => ?_))
      cases existing with
      | some existing => exact .inl h₃
      | none =>
        -- the lock is counted from the time at which the row is created
        refine follows_answered (fun _ => .inl h₃) ?_ ?_
        · rintro message ch now w₄ ⟨⟩
          exact .inl h₃
        · rintro ch now w₄ ⟨⟩
          refine follows_createRequest h₃ fun r => ?_
          refine only_bind (only_aside rfl) fun _ => only_bind (only_aside rfl) fun _ => ?_
          exact only_bind (only_aside rfl) fun _ => only_bind (only_aside rfl) fun _ => trivial

/-! ### Approvals -/

/-- What is written of a request that is approved. -/
def approving (w : World) (r : RecoveryRequest) (req : ApproveRecoveryRequest) : RequestUpdate where
  approvals := some (r.approvals ++ [⟨req.guardianId, w.clock, req.signature⟩])

section
variable (uuid : Column)

/-- A verified guardian of the wallet approves a pending request for the first time, before it expires. -/
structure Accepted (w : World) (id : String) (req : ApproveRecoveryRequest) (r : RecoveryRequest)
    (guardian : Guardian) : Prop where
  found : w.requestOf uuid id = some r
  pending : r.status = .pending
  unexpired : w.clock < r.expiresAt
  known : w.guardianOf uuid req.guardianId = some guardian
  verified : guardian.verified = true
  wallet : guardian.walletAddress = r.walletAddress
  first : r.approvedBy req.guardianId = false

structure Written (newMasterKeyRaw : String) (choices : Choices) (r : RecoveryRequest) : Prop where
  encrypt : (choices (.encrypt newMasterKeyRaw)).fate = .done
  complete : ∀ message, (choices (.updateRequest r { status := some .completed })).fate ≠ .refused message

/-- The queries of an approval are carried out, up to the completion. -/
structure CarriedOut (w : World) (newMasterKeyRaw id : String) (req : ApproveRecoveryRequest) (choices : Choices)
    (r : RecoveryRequest) : Prop where
  request : (choices (.findRequest id)).fate = .done
  guardian : (choices (.findGuardian req.guardianId)).fate = .done
  approve : (choices (.updateRequest r (approving w r req))).fate = .done
  audit : (choices (.audit r.walletAddress "RECOVERY_APPROVED")).fate = .done
  written : Written newMasterKeyRaw choices (r.apply (approving w r req))

def Completes (w : World) (newMasterKeyRaw id : String) (req : ApproveRecoveryRequest) (choices : Choices) : Prop :=
  ∃ r guardian, Accepted uuid w id req r guardian ∧ r.requiredApprovals ≤ r.approvals.length + 1 ∧
    CarriedOut w newMasterKeyRaw id req choices r

def Continues (w : World) (id : String) (req : ApproveRecoveryRequest) (w' : World) : Prop :=
  w' = w ∨ (∃ r, w.requestOf uuid id = some r ∧ w' = w.updateRequest uuid r.id { status := some .expired }) ∨
    ∃ r guardian, Accepted uuid w id req r guardian ∧ w' = w.updateRequest uuid r.id (approving w r req)

def Completed (w : World) (id : String) (req : ApproveRecoveryRequest) (w' : World) : Prop :=
  ∃ r guardian, Accepted uuid w id req r guardian ∧ r.requiredApprovals ≤ r.approvals.length + 1 ∧
    w' = (w.updateRequest uuid r.id (approving w r req)).updateRequest uuid r.id { status := some .completed }

end

section
variable {newMasterKeyRaw id : String} {req : ApproveRecoveryRequest} {choices : Choices} {r : RecoveryRequest}
  {guardian : Guardian}

theorem alone_op {o : Op} {a : o.Reply} (w' : World) (h : answer cfg.uuid o (choices o) w = .ok (a, w')) (f : o.Reply → RecoveryM α) :
    ((op o >>= f).alone (performed cfg.uuid choices) w).2 = match fateOf o (choices o) with
      | .done => ((f a).alone (performed cfg.uuid choices) w').2
      | .refused _ => w
      | .lost _ => w' :=
  alone_answered h f

theorem alone_looks {p : RecoveryM α} (hp : p.Only fun o : Op => o.looks = true) :
    (p.alone (performed cfg.uuid choices) w).2 = w := by
  refine (follows_keeping (I := fun w' => w' = w) hp rfl ?_).ends (ends_alone p choices w)
  rintro o ch _ a w' ho rfl hans
  exact answer_looks ho hans

theorem alone_bind_looks {β : Type} (p : RecoveryM α) {f : α → RecoveryM β}
    (hf : ∀ a, (f a).Only fun o : Op => o.looks = true) :
    ((p >>= f).alone (performed cfg.uuid choices) w).2 = (p.alone (performed cfg.uuid choices) w).2 := by
  cases hp : p.alone (performed cfg.uuid choices) w with
  | mk outcome w' =>
    cases outcome with
    | ok a =>
      rw [Program.alone_bind_ok hp]
      exact alone_looks (hf a)
    | error message => rw [Program.alone_bind_error hp]

theorem only_looks {o : Op} (ho : o.looks = true) : (op o).Only fun o : Op => o.looks = true := only_perform ho

theorem alone_completeRecovery (signatures : List String) : Written newMasterKeyRaw choices r ∧
        ((completeRecovery cfg newMasterKeyRaw r signatures).alone (performed cfg.uuid choices) w).2 =
          w.updateRequest cfg.uuid r.id { status := some .completed } ∨
      ¬Written newMasterKeyRaw choices r ∧
        ((completeRecovery cfg newMasterKeyRaw r signatures).alone (performed cfg.uuid choices) w).2 = w := by
  unfold completeRecovery
  rw [alone_op (a := (choices (.encrypt newMasterKeyRaw)).ciphertext) w rfl]
  cases hencrypt : (choices (.encrypt newMasterKeyRaw)).fate with
  | refused | lost =>
    refine .inr ⟨fun h => ?_, by simp [fateOf, Op.own, hencrypt]⟩
    simp [h.encrypt] at hencrypt
  | done =>
    simp only [fateOf, Op.own, hencrypt]
    rw [alone_op (a := ()) (w.updateRequest cfg.uuid r.id { status := some .completed }) rfl]
    cases hcomplete : (choices (.updateRequest r { status := some .completed })).fate with
    | refused message => exact .inr ⟨fun h => h.complete message hcomplete, by simp [fateOf, Op.own, hcomplete]⟩
    | lost message => exact .inl ⟨⟨hencrypt, by simp [hcomplete]⟩, by simp [fateOf, Op.own, hcomplete]⟩
    | done =>
      refine .inl ⟨⟨hencrypt, by simp [hcomplete]⟩, ?_⟩
      simp only [fateOf, Op.own, hcomplete]
      refine alone_looks (only_bind (only_looks rfl) fun _ => only_bind (only_looks rfl) fun _ => trivial)

theorem completes_iff (h : Accepted cfg.uuid w id req r guardian) : Completes cfg.uuid w newMasterKeyRaw id req choices ↔
      r.requiredApprovals ≤ r.approvals.length + 1 ∧ CarriedOut w newMasterKeyRaw id req choices r := by
  constructor
  · rintro ⟨r', guardian', hacc, hreach, hcarried⟩
    obtain rfl : r' = r := Option.some.inj (hacc.found.symm.trans h.found)
    exact ⟨hreach, hcarried⟩
  · rintro ⟨hreach, hcarried⟩
    exact ⟨r, guardian, h, hreach, hcarried⟩

def Decided (uuid : Column) (w : World) (newMasterKeyRaw id : String) (req : ApproveRecoveryRequest) (choices : Choices)
    (w' : World) : Prop :=
  Completes uuid w newMasterKeyRaw id req choices ∧ Completed uuid w id req w' ∨
    ¬Completes uuid w newMasterKeyRaw id req choices ∧ Continues uuid w id req w'

theorem decided_storeApproval (h : Accepted cfg.uuid w id req r guardian) (hreq : (choices (.findRequest id)).fate = .done)
    (hguard : (choices (.findGuardian req.guardianId)).fate = .done) :
    Decided cfg.uuid w newMasterKeyRaw id req choices
      ((storeApproval cfg newMasterKeyRaw r req).alone (performed cfg.uuid choices) w).2 := by
  have hnot : ¬CarriedOut w newMasterKeyRaw id req choices r → ¬Completes cfg.uuid w newMasterKeyRaw id req choices :=
    fun hcarried hcompl => hcarried ((completes_iff h).mp hcompl).2
  have hstore : Continues cfg.uuid w id req (w.updateRequest cfg.uuid r.id (approving w r req)) := .inr (.inr ⟨r, guardian, h, rfl⟩)
  unfold storeApproval
  rw [alone_op (a := w.clock) w rfl]
  simp only [fateOf, Op.own, if_true]
  rw [alone_op (a := ()) (w.updateRequest cfg.uuid r.id (approving w r req)) rfl]
  change Decided cfg.uuid w newMasterKeyRaw id req choices
    (match fateOf (.updateRequest r (approving w r req)) (choices (.updateRequest r (approving w r req))) with
      | .done => _
      | .refused _ => _
      | .lost _ => _)
  cases happrove : (choices (.updateRequest r (approving w r req))).fate with
  | refused message =>
    simp only [fateOf, Op.own, happrove]
    exact .inr ⟨hnot fun hc => Fate.noConfusion (happrove.symm.trans hc.approve), .inl rfl⟩
  | lost message =>
    simp only [fateOf, Op.own, happrove]
    exact .inr ⟨hnot fun hc => Fate.noConfusion (happrove.symm.trans hc.approve), hstore⟩
  | done =>
    simp only [fateOf, Op.own, happrove]
    rw [alone_op (a := ()) (w.updateRequest cfg.uuid r.id (approving w r req)) rfl]
    cases haudit : (choices (.audit r.walletAddress "RECOVERY_APPROVED")).fate with
    | refused message | lost message =>
      simp only [fateOf, Op.own, haudit]
      exact .inr ⟨hnot fun hc => Fate.noConfusion (haudit.symm.trans hc.audit), hstore⟩
    | done =>
      simp only [fateOf, Op.own, haudit, Bool.false_eq_true, if_false]
      split
      · rename_i hreach
        have hreach : r.requiredApprovals ≤ r.approvals.length + 1 := by simpa using hreach
        rw [alone_bind_looks (f := fun result : RecoveryResult => pure (Sum.inr result)) _ fun _ => trivial]
        rcases alone_completeRecovery (r := r.apply (approving w r req)) _ with
          ⟨hwrit, hout⟩ | ⟨hwrit, hout⟩
        · have hcompl := (completes_iff h).mpr ⟨hreach, hreq, hguard, happrove, haudit, hwrit⟩
          exact .inl ⟨hcompl, r, guardian, h, hreach, hout⟩
        · refine .inr ⟨hnot fun hc => hwrit hc.written, ?_⟩
          exact (congrArg (Continues cfg.uuid w id req) hout).mpr hstore
      · rename_i hreach
        have hreach : ¬r.requiredApprovals ≤ r.approvals.length + 1 := by simpa using hreach
        rw [alone_bind_looks (f := fun request : RecoveryRequest => pure (Sum.inl request)) _ fun _ => trivial,
          alone_looks (only_looks rfl)]
        exact .inr ⟨fun hc => hreach ((completes_iff h).mp hc).1, hstore⟩

theorem Decided.of_continues {w' : World} (hnot : ∀ r guardian, Accepted cfg.uuid w id req r guardian →
    ¬CarriedOut w newMasterKeyRaw id req choices r) (h : Continues cfg.uuid w id req w') :
    Decided cfg.uuid w newMasterKeyRaw id req choices w' := by
  refine .inr ⟨?_, h⟩
  rintro ⟨r, guardian, hacc, -, hcarried⟩
  exact hnot r guardian hacc hcarried

theorem alone_refused {o : Op} {message : String} (h : answer cfg.uuid o (choices o) w = .error message)
    (f : o.Reply → RecoveryM α) : (op o >>= f).alone (performed cfg.uuid choices) w = (.error message, w) := by
  have hperf := Program.alone_perform (S := recoverySignature) (performed cfg.uuid choices) o w
  simp only [performed, perform, h, Fate.deliver] at hperf
  exact Program.alone_bind_error hperf f

theorem alone_findGuardian (guardianId : String) :
    (∃ guardian, w.guardianOf cfg.uuid guardianId = some guardian ∧ (choices (.findGuardian guardianId)).fate = .done ∧
        (findGuardian guardianId).alone (performed cfg.uuid choices) w = (.ok guardian, w)) ∨
      (w.guardianOf cfg.uuid guardianId = none ∨ (choices (.findGuardian guardianId)).fate ≠ .done) ∧
        ∃ message, (findGuardian guardianId).alone (performed cfg.uuid choices) w = (.error message, w) := by
  by_cases hread : cfg.uuid.read guardianId = none
  · refine .inr ⟨.inl ?_, invalidUuid guardianId, alone_refused (o := .findGuardian guardianId) (if_pos hread) _⟩
    rw [World.guardianOf, hread, Option.bind_none]
  · have hperf := Program.alone_perform (S := recoverySignature) (performed cfg.uuid choices) (.findGuardian guardianId) w
    cases hguard : (choices (.findGuardian guardianId)).fate with
    | refused message | lost message =>
      simp only [performed, perform, fateOf, Op.own, hguard, Bool.false_eq_true, if_false, answer, hread, Fate.deliver,
        Fate.carry] at hperf
      refine .inr ⟨.inr ?_, message, Program.alone_bind_error hperf _⟩
      intro hdone
      cases hdone
    | done =>
      simp only [performed, perform, fateOf, Op.own, hguard, Bool.false_eq_true, if_false, answer, hread, Fate.deliver,
        Fate.carry] at hperf
      cases hknown : w.guardianOf cfg.uuid guardianId with
      | none =>
        rw [hknown] at hperf
        exact .inr ⟨.inl rfl, _, Program.alone_bind_ok hperf _⟩
      | some guardian =>
        rw [hknown] at hperf
        exact .inl ⟨guardian, rfl, rfl, Program.alone_bind_ok hperf _⟩

theorem continues_expired {f : Unit → RecoveryM α} (hfound : w.requestOf cfg.uuid id = some r)
    (hf : ∀ a, (f a).Only fun o : Op => o.looks = true) :
    Continues cfg.uuid w id req
      ((op (.updateRequest r { status := some .expired }) >>= f).alone (performed cfg.uuid choices) w).2 := by
  have hwrit : Continues cfg.uuid w id req (w.updateRequest cfg.uuid r.id { status := some .expired }) :=
    .inr (.inl ⟨r, hfound, rfl⟩)
  rw [alone_op (a := ()) (w.updateRequest cfg.uuid r.id { status := some .expired }) rfl]
  cases hexpire : fateOf (.updateRequest r { status := some .expired }) (choices (.updateRequest r
      { status := some .expired })) with
  | done =>
    simp only [alone_looks (hf ())]
    exact hwrit
  | refused message => exact .inl rfl
  | lost message => exact hwrit

theorem decided_approveRecovery : Decided cfg.uuid w newMasterKeyRaw id req choices
    ((approveRecovery cfg newMasterKeyRaw id req).alone (performed cfg.uuid choices) w).2 := by
  unfold approveRecovery
  by_cases hread : cfg.uuid.read id = none
  · rw [alone_refused (o := .findRequest id) (if_pos hread)]
    refine .of_continues (fun r guardian hacc _ => ?_) (.inl rfl)
    have hfound := hacc.found
    simp [World.requestOf, hread] at hfound
  rw [alone_op (o := .findRequest id) (a := w.requestOf cfg.uuid id) w (if_neg hread)]
  cases hreq : (choices (.findRequest id)).fate with
  | refused message | lost message =>
    simp only [fateOf, Op.own, hreq, Bool.false_eq_true, if_false]
    exact .of_continues (fun r guardian _ hc => Fate.noConfusion (hreq.symm.trans hc.request)) (.inl rfl)
  | done =>
    simp only [fateOf, Op.own, hreq, Bool.false_eq_true, if_false]
    cases hfound : w.requestOf cfg.uuid id with
    | none =>
      refine .of_continues (fun r guardian hacc _ => ?_) (.inl rfl)
      simp [hacc.found] at hfound
    | some r =>
      have hrow : ∀ {r' guardian}, Accepted cfg.uuid w id req r' guardian → r' = r := fun hacc =>
        Option.some.inj (hacc.found.symm.trans hfound)
      simp only
      split
      · rename_i hpend
        refine .of_continues (fun r' guardian hacc _ => ?_) (.inl rfl)
        obtain rfl := hrow hacc
        exact hpend hacc.pending
      · rename_i hpend
        rw [alone_op (a := w.clock) w rfl]
        simp only [fateOf, Op.own, if_true]
        split
        · rename_i hexp
          refine .of_continues (fun r' guardian hacc _ => ?_) ?_
          · obtain rfl := hrow hacc
            exact absurd hacc.unexpired (not_lt.mpr hexp)
          · exact continues_expired hfound fun _ => only_bind (only_looks rfl) fun _ => trivial
        · rename_i hunexpired
          rcases alone_findGuardian (w := w) req.guardianId with
            ⟨guardian, hknown, hguard, hout⟩ | ⟨hnone, message, hout⟩
          · rw [Program.alone_bind_ok hout]
            have href : ¬Accepted cfg.uuid w id req r guardian → Decided cfg.uuid w newMasterKeyRaw id req choices w := by
              refine fun hnot => .of_continues (fun r' guardian' hacc _ => ?_) (.inl rfl)
              obtain rfl := hrow hacc
              obtain rfl : guardian' = guardian := Option.some.inj (hacc.known.symm.trans hknown)
              exact hnot hacc
            split
            · rename_i hverified
              exact href fun h => by simp [h.verified] at hverified
            · rename_i hverified
              split
              · rename_i hwal
                exact href fun h => hwal h.wallet
              · rename_i hwal
                split
                · rename_i hfirst
                  exact href fun h => by simp [h.first] at hfirst
                · rename_i hfirst
                  refine decided_storeApproval ⟨hfound, not_not.mp hpend, not_le.mp hunexpired, hknown, ?_,
                    not_not.mp hwal, by simpa using hfirst⟩ hreq hguard
                  simpa using hverified
          · rw [Program.alone_bind_error hout]
            refine .of_continues (fun r' guardian hacc hc => ?_) (.inl rfl)
            rcases hnone with hnone | hnone
            · simp [hacc.known] at hnone
            · exact hnone hc.guardian

end

/-! ### Histories -/

theorem Approved.apply {changes : RequestUpdate} (h : Approved cfg.uuid w r)
    (heq : changes.approvals = none) (hgrants : w.grants ⊆ w'.grants) : Approved cfg.uuid w' (r.apply changes) := by
  have happrovals : (r.apply changes).approvals = r.approvals := by simp [RecoveryRequest.apply, heq]
  have hkept := h.mono hgrants
  refine ⟨?_, ?_⟩
  · rw [happrovals]
    exact hkept.distinct
  · rw [happrovals]
    exact hkept.granted

theorem requestOf_some {uuid : Column} {text : String} (h : w.requestOf uuid text = some r) : w.request r.id = some r := by
  obtain ⟨id, -, hlook⟩ := Option.bind_eq_some_iff.mp h
  rw [show r.id = id from lookup_key hlook]
  exact hlook

theorem request_updated (uuid : Column) (changes : RequestUpdate) (hfound : w.request r.id = some r) :
    (w.updateRequest uuid r.id changes).request r.id = some (r.apply changes) := by
  have hlook : (w.updateRequest uuid r.id changes).request r.id =
      if r.id = r.id then (w.request r.id).map (·.apply changes) else w.request r.id :=
    lookup_update (f := RecoveryRequest.apply changes) fun _ => rfl
  rw [hlook, if_pos rfl, hfound, Option.map_some]

section
variable {id : String} {req : ApproveRecoveryRequest} {r : RecoveryRequest} {guardian : Guardian}

theorem Lawful.approving (h : Lawful cfg.uuid w) (hacc : Accepted cfg.uuid w id req r guardian) :
    Lawful cfg.uuid (w.updateRequest cfg.uuid r.id (approving w r req)) := by
  have hfound := requestOf_some hacc.found
  refine h.updateRequest hfound ?_ nofun
  exact approved_by (h.approved r (lookup_mem hfound)) hfound hacc.known hacc.verified hacc.wallet hacc.first

theorem Lawful.continues (h : Lawful cfg.uuid w) (hcontinues : Continues cfg.uuid w id req w') : Lawful cfg.uuid w' := by
  rcases hcontinues with rfl | ⟨r, hfound, rfl⟩ | ⟨r, guardian, hacc, rfl⟩
  · exact h
  · have hrow := requestOf_some hfound
    refine h.updateRequest hrow ?_ nofun
    exact (h.approved r (lookup_mem hrow)).apply rfl (subset_append_left _ _)
  · exact h.approving hacc

theorem Lawful.completed (h : Lawful cfg.uuid w) (hcomp : Completed cfg.uuid w id req w') : Lawful cfg.uuid w' := by
  obtain ⟨r, guardian, hacc, hreach, rfl⟩ := hcomp
  have happr := h.approving hacc
  have hfound := request_updated cfg.uuid (Recovery.approving w r req) (requestOf_some hacc.found)
  refine happr.updateRequest (r := r.apply (Recovery.approving w r req)) hfound ?_ ?_
  · exact (happr.approved _ (lookup_mem hfound)).apply rfl (subset_append_left _ _)
  · intro _
    refine ⟨hacc.unexpired, ?_⟩
    simpa [RecoveryRequest.apply, Recovery.approving] using hreach

theorem Continues.completions (h : Continues cfg.uuid w id req w') : w'.completions = w.completions := by
  rcases h with rfl | ⟨r, -, rfl⟩ | ⟨r, guardian, -, rfl⟩
  · rfl
  · exact append_nil _
  · exact append_nil _

theorem completions_complete {r : RecoveryRequest} (hfound : w.request r.id = some r) :
    (w.updateRequest cfg.uuid r.id { status := some .completed }).completions =
      w.completions ++ [⟨r, w.clock, w.recoveryGloballyEnabled⟩] := by
  simp [World.updateRequest, World.completed, hfound]

theorem Completed.completions (h : Completed cfg.uuid w id req w') : ∃ c, w'.completions = w.completions ++ [c] := by
  obtain ⟨r, guardian, hacc, -, rfl⟩ := h
  have hfound := request_updated cfg.uuid (approving w r req) (requestOf_some hacc.found)
  have heq : (w.updateRequest cfg.uuid r.id (approving w r req)).completions = w.completions := append_nil _
  refine ⟨⟨r.apply (approving w r req), w.clock, w.recoveryGloballyEnabled⟩, ?_⟩
  exact (completions_complete (r := r.apply (approving w r req)) hfound).trans (by rw [heq]; rfl)

end

def Event.Completes (uuid : Column) (w : World) : Event → Prop
  | .call (.approveRecovery newMasterKeyRaw id req) choices => Recovery.Completes uuid w newMasterKeyRaw id req choices
  | _ => False

/-- No event completes a recovery. -/
def NeverCompletes (cfg : Settings) : List Event → World → Prop
  | [], _ => True
  | e :: rest, w => ¬e.Completes cfg.uuid w ∧ NeverCompletes cfg rest (after cfg e w)

theorem after_cases (e : Event) (w : World) : e.Completes cfg.uuid w ∧ (∃ id req, Completed cfg.uuid w id req (after cfg e w)) ∨
      ¬e.Completes cfg.uuid w ∧ (Initiated w (after cfg e w) ∨ ∃ id req, Continues cfg.uuid w id req (after cfg e w)) := by
  cases e with
  | disableRecovery | enableRecovery | passes => exact .inr ⟨id, .inl (.inl ⟨rfl, rfl, rfl⟩)⟩
  | call c choices =>
    have haside : ∀ {p : RecoveryM Unit}, p.Only (fun o : Op => o.aside = true) →
        Initiated w (p.alone (performed cfg.uuid choices) w).2 := fun hp =>
      .inl ((follows_aside hp (.refl w)).ends (ends_alone _ choices w))
    cases c with
    | addGuardian newId verificationCode req =>
      exact .inr ⟨id, .inl (haside (only_bind (only_addGuardian _ _ _) fun _ => trivial))⟩
    | verifyGuardian guardianId code =>
      exact .inr ⟨id, .inl (haside (only_bind (only_verifyGuardian _ _) fun _ => trivial))⟩
    | removeGuardian guardianId => exact .inr ⟨id, .inl (haside (only_removeGuardian guardianId))⟩
    | initiateRecovery newId req =>
      refine .inr ⟨id, .inl ?_⟩
      have hfollows := follows_andThen (f := fun _ => (pure () : RecoveryM Unit)) (follows_initiateRecovery (w := w) cfg newId req)
        fun _ _ h => h
      exact hfollows.ends (ends_alone _ choices w)
    | approveRecovery newMasterKeyRaw id req =>
      have hout : (after cfg (.call (.approveRecovery newMasterKeyRaw id req) choices) w) =
          ((approveRecovery cfg newMasterKeyRaw id req).alone (performed cfg.uuid choices) w).2 :=
        alone_bind_looks _ fun _ => trivial
      rw [hout]
      rcases decided_approveRecovery (w := w) with ⟨hcompl, hcomp⟩ | ⟨hnot, hcontinues⟩
      · exact .inl ⟨hcompl, id, req, hcomp⟩
      · exact .inr ⟨hnot, .inr ⟨id, req, hcontinues⟩⟩

theorem Lawful.initiated (h : Lawful cfg.uuid w) (hinitiated : Initiated w w') : Lawful cfg.uuid w' := by
  rcases hinitiated with heq | ⟨r, hnew, hlock, hnone, heq⟩
  · exact h.same heq.requests heq.grants heq.completions
  · exact (h.createRequest hnew hlock hnone).same heq.requests heq.grants heq.completions

theorem Initiated.completions (h : Initiated w w') : w'.completions = w.completions := by
  rcases h with heq | ⟨r, -, -, -, heq⟩
  · exact heq.completions
  · exact heq.completions

theorem Lawful.after (h : Lawful cfg.uuid w) (e : Event) : Lawful cfg.uuid (after cfg e w) := by
  rcases after_cases e w with
    ⟨-, id, req, hcomp⟩ | ⟨-, hinitiated | ⟨id, req, hcontinues⟩⟩
  · exact h.completed hcomp
  · exact h.initiated hinitiated
  · exact h.continues hcontinues

theorem completions_after {e : Event} (h : ¬e.Completes cfg.uuid w) : (after cfg e w).completions = w.completions := by
  rcases after_cases e w with ⟨hcompl, -⟩ | ⟨-, hinitiated | ⟨id, req, hcontinues⟩⟩
  · exact absurd hcompl h
  · exact hinitiated.completions
  · exact hcontinues.completions

theorem completions_grow (e : Event) (w : World) : w.completions <+: (after cfg e w).completions := by
  rcases after_cases e w with
    ⟨-, id, req, hcomp⟩ | ⟨-, hinitiated | ⟨id, req, hcontinues⟩⟩
  · obtain ⟨c, hc⟩ := hcomp.completions
    rw [hc]
    exact prefix_append _ _
  · exact hinitiated.completions ▸ prefix_refl _
  · exact hcontinues.completions ▸ prefix_refl _

theorem Lawful.history (h : Lawful cfg.uuid w) (events : List Event) : Lawful cfg.uuid (history cfg events w) := by
  induction events generalizing w with
  | nil => exact h
  | cons e rest ih => exact ih (h.after e)

theorem completions_history_grow (cfg : Settings) (events : List Event) (w : World) :
    w.completions <+: (history cfg events w).completions := by
  induction events generalizing w with
  | nil => exact prefix_refl _
  | cons e rest ih => exact (completions_grow e w).trans (ih _)

theorem completions_history (events : List Event) (w : World) :
    (history cfg events w).completions = w.completions ↔ NeverCompletes cfg events w := by
  induction events generalizing w with
  | nil => exact ⟨fun _ => trivial, fun _ => rfl⟩
  | cons e rest ih =>
    by_cases hcompl : e.Completes cfg.uuid w
    · refine ⟨fun heq => ?_, fun hnever => absurd hcompl hnever.1⟩
      rcases after_cases e w with ⟨-, id, req, hcomp⟩ | ⟨hnot, -⟩
      · obtain ⟨c, hc⟩ := hcomp.completions
        have hlen := (completions_history_grow cfg rest (Recovery.after cfg e w)).length_le
        rw [hc, length_append, length_singleton] at hlen
        rw [show Recovery.history cfg rest (Recovery.after cfg e w) = Recovery.history cfg (e :: rest) w from rfl,
          heq] at hlen
        omega
      · exact absurd hcompl hnot
    · rw [show Recovery.history cfg (e :: rest) w = Recovery.history cfg rest (Recovery.after cfg e w) from rfl,
        ← completions_after hcompl, ih]
      exact ⟨fun hnever => ⟨hcompl, hnever⟩, And.right⟩

structure World.Fresh (w : World) : Prop where
  requests : w.requests = []
  completions : w.completions = []

theorem World.Fresh.lawful (h : w.Fresh) : Lawful cfg.uuid w where
  keyed := by simp [Keyed, h.requests]
  locks := by simp [h.requests]
  approved := by simp [h.requests]
  hasty := by simp [h.completions]

/-- **A history respects the lock exactly when nothing is completed in it.** What is completed has its approvals,
and is completed before the lock ends. -/
theorem lock_respected_iff (hfresh : w.Fresh) (events : List Event) :
    ((∀ c ∈ (history cfg events w).completions, Respects cfg.uuid (history cfg events w) c) ↔
      NeverCompletes cfg events w) ∧
    ∀ c ∈ (history cfg events w).completions, Hasty cfg.uuid (history cfg events w) c := by
  have hlawful : Lawful cfg.uuid (history cfg events w) := hfresh.lawful.history events
  refine ⟨?_, hlawful.hasty⟩
  rw [← completions_history, hfresh.completions]
  constructor
  · intro hrespects
    rw [eq_nil_iff_forall_not_mem]
    intro c hc
    exact absurd (hrespects c hc).locked (not_le.mpr (hlawful.hasty c hc).early)
  · intro hnone c hc
    rw [hnone] at hc
    exact absurd hc not_mem_nil

end

def sampleSettings : Settings where
  hmac := id
  uppercase := fun c => [c.toUpper]
  uuid := .of ["guardian-1", "request-1"] "GUARDIAN-1" "guardian-1"

def sampleGuardian : Guardian where
  id := "guardian-1"
  walletAddress := "GWALLET"
  type := .email
  identifier := "guardian@example.com"
  identifierEncrypted := ""
  verified := true
  verificationCode := none
  verificationExpiresAt := none
  createdAt := 0

def guarded : World where
  clock := 0
  recoveryGloballyEnabled := true
  recoveryAttemptTimestamps := []
  guardians := [sampleGuardian]
  requests := []
  grants := []
  completions := []

def initiates (requiredApprovals : Number) : Event :=
  .call (.initiateRecovery "request-1" ⟨"GWALLET", "GUSER", some requiredApprovals⟩) fun _ => {}

def approves (guardianId : String) : Event :=
  .call (.approveRecovery "" "request-1" ⟨guardianId, "signature"⟩) fun _ => {}

/-- One approval of the two that are asked for. -/
theorem lock_respected_iff_pending : (history sampleSettings [initiates (.finite 2), approves "guardian-1"] guarded).grants.length = 1 ∧
      NeverCompletes sampleSettings [initiates (.finite 2), approves "guardian-1"] guarded := by
  have hnone : (history sampleSettings [initiates (.finite 2), approves "guardian-1"] guarded).completions = [] := by decide
  refine ⟨by decide, (lock_respected_iff ⟨rfl, rfl⟩ _).1.mp ?_⟩
  intro c hc
  simp [hnone] at hc

def unlocked : Completion where
  request :=
    { id := "request-1", walletAddress := "GWALLET", initiatedBy := "GUSER", expiresAt := recoveryLock
      status := .pending, approvals := [⟨"guardian-1", 0, "signature"⟩], requiredApprovals := 0
      createdAt := 0 }
  time := 0
  enabled := false

/-- **A recovery is completed at once.** It asks for no approvals, recovery is disabled, and the first approval completes
it. One that asks for two is completed by one guardian, who gives her id in two spellings. -/
theorem recovered_at_once :
    guarded.Fresh ∧ unlocked ∈ (history sampleSettings [initiates (.finite 0), .disableRecovery, approves "guardian-1"]
        guarded).completions ∧
      unlocked.enabled = false ∧ unlocked.time < unlocked.request.createdAt + recoveryLock ∧
        unlocked.request.requiredApprovals < 1 ∧
      ∃ c ∈ (history sampleSettings [initiates (.finite 2), approves "guardian-1", approves "GUARDIAN-1"]
          guarded).completions,
        c.request.requiredApprovals = 2 ∧
          c.request.approvals.map (fun a => sampleSettings.uuid.read a.guardianId) = [some "guardian-1", some "guardian-1"] :=
  ⟨⟨rfl, rfl⟩, by decide, rfl, by decide, by decide, by decide⟩

end Delego.Recovery
