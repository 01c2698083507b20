import Delego.Data.Number
import Delego.DualControl.Service

/-! The quorum of an approval, over every order of calls.

A call creates an approval, or records a signature and, if that completes the quorum, approves the approval and its order
(`Effects`, `performs_cases`). So signers are distinct and none is the creator (`Sound`), and an approval is approved
exactly when it has as many signatures as it needs (`Counted`).

That the signer is not the creator is checked on the texts, before the column has read the signer's: the creator in
another spelling of her id passes. The order of an approval follows it only where the order has no other approval: nothing keeps a second one, with a
smaller quorum, from being created for it (`approved_by_another`). -/
namespace Delego.DualControl
open Delego.Process Delego.Data List

namespace Tables
variable (d : Tables)

def approvalStatus (id : String) : Option DualControlStatus :=
  (lookup DualControlApproval.id d.approvals id).map DualControlApproval.status

def orderStatus (id : String) : Option OrderStatus := (lookup Order.id d.orders id).map Order.status

def record (signature : DualControlSignature) : Tables := { d with signatures := d.signatures ++ [signature] }

def complete (approval : DualControlApproval) : Tables :=
  { d with
    approvals := d.approvals.map (DualControlApproval.approve approval.id)
    orders := d.orders.map (Order.approve approval.orderId) }

end Tables

/-- A signature that can be recorded. -/
structure Accepted (d : Tables) (approval : DualControlApproval) (signature : DualControlSignature) : Prop where
  found : lookup DualControlApproval.id d.approvals signature.approvalId = some approval
  pending : approval.status = .pending
  fresh : signature.signerUserId ∉ d.signers signature.approvalId

def signed (d : Tables) (approval : DualControlApproval) (signature : DualControlSignature) : Tables :=
  if ((d.signers signature.approvalId).length + 1 : Int) < approval.requiredSignatures then d.record signature
  else (d.record signature).complete approval

/-- An approval that can be inserted. -/
structure Created (d : Tables) (approval : DualControlApproval) : Prop where
  order : (lookup Order.id d.orders approval.orderId).isSome
  fresh : lookup DualControlApproval.id d.approvals approval.id = none
  pending : approval.status = .pending
  positive : 1 ≤ approval.requiredSignatures

/-- What a call that succeeds does. -/
inductive Effects (uuid : Column) (d : Tables) : Call → Tables → Prop where
  | created {id : String} {now : Int} {request : CreateApprovalRequest} {approval : DualControlApproval}
      {d' : Tables} (new : Created d approval) (order : uuid.read request.orderId = some approval.orderId)
      (after : d' = { d with approvals := d.approvals ++ [approval] }) :
      Effects uuid d (.createApproval id now request) d'
  | signed {signatureId : String} {request : SignApprovalRequest} {approval : DualControlApproval}
      {signature : DualControlSignature} {d' : Tables} (accepted : Accepted d approval signature)
      (approvalId : uuid.read request.approvalId = some signature.approvalId)
      (signer : uuid.read request.signerUserId = some signature.signerUserId)
      (other : request.signerUserId ≠ approval.createdByUserId)
      (after : d' = DualControl.signed d approval signature) : Effects uuid d (.sign signatureId request) d'

theorem signers_record (d : Tables) (signature : DualControlSignature) (approvalId : String) :
    (d.record signature).signers approvalId = d.signers approvalId ++
      if signature.approvalId = approvalId then [signature.signerUserId] else [] := by
  simp only [Tables.signers, Tables.record, filter_append, map_append]
  by_cases h : signature.approvalId = approvalId
  · simp [h]
  · simp [h]

variable {uuid : Column} {lossy : Prop} {t : Tables} {id : String}

theorem insertSignature_ok {t' : Tables} {approvalId signerUserId : String} {note : Option String} {inserted : Bool}
    (h : execute uuid (.insertSignature id approvalId signerUserId note) t = .ok (inserted, t')) :
    inserted = false ∨ ∃ signer, uuid.read signerUserId = some signer ∧ signer ∉ t.signers approvalId ∧
      t' = t.record ⟨id, approvalId, signer, note⟩ := by
  simp only [execute] at h
  split at h
  · rename_i signer hread
    split at h
    · cases h
      exact .inl rfl
    rename_i hfresh
    split at h
    · cases h
    · cases h
      exact .inr ⟨signer, hread, hfresh, rfl⟩
  · cases h

theorem approveApproval_ok {t' : Tables} {updated : DualControlApproval}
    (h : execute uuid (.approveApproval id) t = .ok (updated, t')) :
    t' = { t with approvals := t.approvals.map (DualControlApproval.approve id) } := by
  simp only [execute] at h
  split at h
  · cases h
    rfl
  · cases h

variable {d : Tables}

theorem selectApproval_ok {t' : Tables} {locked : Option DualControlApproval}
    (h : execute uuid (.selectApprovalForUpdate id) t = .ok (locked, t')) :
    t' = t ∧ ∃ approvalId, uuid.read id = some approvalId ∧ locked = lookup DualControlApproval.id t.approvals approvalId := by
  simp only [execute] at h
  split at h
  · rename_i approvalId hread
    cases h
    exact ⟨rfl, approvalId, hread, rfl⟩
  · cases h

theorem within_signInTransaction {signatureId : String} {request : SignApprovalRequest} :
    Within lossy (execute uuid) d t (signInTransaction signatureId request) fun _ t' =>
      Effects uuid t (.sign signatureId request) t' := by
  apply within_bind
  apply within_statement
  intro locked t₁ hselect
  obtain ⟨rfl, approvalId, hread, rfl⟩ := selectApproval_ok hselect
  cases hfound : lookup DualControlApproval.id t₁.approvals approvalId with
  | none => exact within_fail
  | some approval =>
    simp only
    split
    · exact within_fail
    rename_i hpend
    split
    · exact within_fail
    rename_i hcreator
    have hid : approval.id = approvalId := lookup_key hfound
    rw [hid]
    apply within_bind
    apply within_statement
    intro inserted t' hinsert
    rcases insertSignature_ok hinsert with rfl | ⟨signer, hsigner, hfresh, rfl⟩
    · exact within_fail
    generalize hsign : (⟨signatureId, approvalId, signer, request.note⟩ : DualControlSignature) = signature
    have hacc : Accepted t₁ approval signature := by
      rw [← hsign]
      exact ⟨hfound, not_not.mp hpend, hfresh⟩
    have hcount : ((t₁.record signature).signers approvalId).length = (t₁.signers signature.approvalId).length + 1 := by
      simp [signers_record, ← hsign]
    have heffects : Effects uuid t₁ (.sign signatureId request) (signed t₁ approval signature) := by
      refine .signed hacc ?_ ?_ hcreator rfl
      · rw [← hsign]
        exact hread
      · rw [← hsign]
        exact hsigner
    cases inserted with
    | false => exact within_fail
    | true =>
      apply within_bind
      apply within_statement
      rintro count _ ⟨⟩
      simp only [hcount, Int.natCast_add, Int.cast_ofNat_Int]
      split
      · rename_i hless
        apply within_pure
        rwa [signed, if_pos hless] at heffects
      rename_i hquorum
      apply within_bind
      apply within_statement
      intro updated t'' hupdate
      cases approveApproval_ok hupdate
      apply within_bind
      apply within_statement
      rintro _ _ ⟨⟩
      apply within_pure
      rwa [signed, if_neg hquorum, Tables.complete, hid] at heffects

theorem leaves_createApproval {now : Int} {request : CreateApprovalRequest} :
    Leaves lossy (execute uuid) d (createApproval id now request) fun _ d' =>
      Effects uuid d (.createApproval id now request) d' := by
  unfold createApproval
  dsimp only
  split
  · exact leaves_fail
  rename_i hreq
  apply leaves_statement
  intro approval d' hinsert
  simp only [execute] at hinsert
  split at hinsert
  · rename_i orderId createdByUserId hread _
    split at hinsert
    · cases hinsert
    rename_i horder
    split at hinsert
    · cases hinsert
    rename_i hfresh
    cases hinsert
    refine .created ⟨?_, ?_, rfl, ?_⟩ hread rfl
    · simpa [Option.isSome_iff_ne_none] using horder
    · simpa using hfresh
    · simp only [Bool.or_eq_true, Bool.not_eq_true', decide_eq_true_eq, not_or, Bool.not_eq_false] at hreq
      exact one_le_num hreq.1 (Rat.not_lt.mp hreq.2)
  · cases hinsert

variable {call : Call} {d' : Tables}

/-- **What a call can do.** It has one of the effects, or throws and leaves the tables, unless its answer was lost. -/
theorem performs_cases {outcome : Except DualControlError Unit} (h : Performs uuid lossy call d outcome d') :
    (∃ u, outcome = .ok u ∧ Effects uuid d call d') ∨
      (∃ e, outcome = .error e) ∧ (d' = d ∨ lossy ∧ ∃ _ : Unit, Effects uuid d call d') := by
  refine Leaves.ends ?_ h
  cases call with
  | createApproval id now request => exact leaves_map leaves_createApproval
  | sign signatureId request =>
    refine leaves_map (leaves_inTransaction ?_)
    apply settles_bind
    exact within_mono within_signInTransaction fun _ _ heffects => settles_commit heffects

/-! ### What is always true -/

/-- An approval and its order, against the signatures on it. -/
structure Counted (d : Tables) (a : DualControlApproval) : Prop where
  notCreator : a.createdByUserId ∉ d.signers a.id
  distinct : (d.signers a.id).Nodup
  positive : 1 ≤ a.requiredSignatures
  within : (d.signers a.id).length ≤ a.requiredSignatures
  approved : a.status = .approved ↔ (d.signers a.id).length = a.requiredSignatures
  order : d.orderStatus a.orderId ≠ none
  orderApproved : d.orderStatus a.orderId = some .approved ↔ a.status = .approved

/-- Signatures and statuses agree, and no order has two approvals. -/
structure Sound (d : Tables) : Prop where
  counted : ∀ {id a}, lookup DualControlApproval.id d.approvals id = some a → Counted d a
  unsigned : ∀ {id}, lookup DualControlApproval.id d.approvals id = none → d.signers id = []
  /-- No two approvals are of one order. -/
  orders : ∀ {id id' a a'}, lookup DualControlApproval.id d.approvals id = some a →
    lookup DualControlApproval.id d.approvals id' = some a' → a.orderId = a'.orderId → id = id'

/-- An approval is asked for an order that has none and is not approved, and no creator signs in another spelling of
her id. -/
def Orderly (uuid : Column) (d : Tables) : Call → Prop
  | .createApproval _ _ request => ∀ orderId, uuid.read request.orderId = some orderId →
    (∀ a ∈ d.approvals, a.orderId ≠ orderId) ∧ d.orderStatus orderId ≠ some .approved
  | .sign _ request => ∀ approvalId a, uuid.read request.approvalId = some approvalId →
    lookup DualControlApproval.id d.approvals approvalId = some a →
      uuid.read request.signerUserId = some a.createdByUserId → request.signerUserId = a.createdByUserId

section
variable {d : Tables} {approval : DualControlApproval} {signature : DualControlSignature}

theorem approve_id (id : String) (a : DualControlApproval) : (a.approve id).id = a.id := by
  unfold DualControlApproval.approve
  split
  · rfl
  · rfl

theorem order_approve_id (id : String) (o : Order) : (o.approve id).id = o.id := by
  unfold Order.approve
  split
  · rfl
  · rfl

theorem signers_signed (id : String) : (signed d approval signature).signers id =
    d.signers id ++ if signature.approvalId = id then [signature.signerUserId] else [] := by
  unfold signed
  split
  · exact signers_record d signature id
  · exact signers_record d signature id

def counted (d : Tables) (a : DualControlApproval) : DualControlApproval :=
  if ((d.signers a.id).length + 1 : Int) < a.requiredSignatures then a else { a with status := .approved }

theorem lookup_signed_self (h : Accepted d approval signature) :
    lookup DualControlApproval.id (signed d approval signature).approvals approval.id = some (counted d approval) := by
  have hid : approval.id = signature.approvalId := lookup_key h.found
  have hfound : lookup DualControlApproval.id d.approvals approval.id = some approval := hid ▸ h.found
  unfold signed counted
  rw [← hid]
  split
  · exact hfound
  · simp [Tables.complete, Tables.record, lookup_map (approve_id _), hfound, DualControlApproval.approve]

theorem lookup_signed_ne {id : String} (hne : id ≠ approval.id) :
    lookup DualControlApproval.id (signed d approval signature).approvals id =
      lookup DualControlApproval.id d.approvals id := by
  unfold signed
  split
  · rfl
  · simp only [Tables.complete, Tables.record, lookup_map (approve_id _)]
    cases hfound : lookup DualControlApproval.id d.approvals id with
    | none => rfl
    | some a =>
      have ha : a.id ≠ approval.id := lookup_key hfound ▸ hne
      simp [DualControlApproval.approve, ha]

theorem orderStatus_complete (o : String) : (d.complete approval).orderStatus o =
    if o = approval.orderId then (d.orderStatus o).map fun _ => .approved else d.orderStatus o := by
  simp only [Tables.orderStatus, Tables.complete, lookup_map (order_approve_id _), Option.map_map]
  cases hfound : lookup Order.id d.orders o with
  | none => simp
  | some order =>
    have ho : order.id = o := lookup_key hfound
    by_cases hsame : o = approval.orderId
    · simp [Order.approve, ho, hsame]
    · simp [Order.approve, ho, hsame]

variable (d approval signature) in
theorem orderStatus_signed (o : String) : (signed d approval signature).orderStatus o =
    if o = approval.orderId ∧
        approval.requiredSignatures ≤ ((d.signers signature.approvalId).length + 1 : Int) then
      (d.orderStatus o).map fun _ => .approved
    else d.orderStatus o := by
  unfold signed
  split
  · rename_i hless
    rw [if_neg (by omega)]
    rfl
  · rename_i hquorum
    rw [orderStatus_complete]
    exact if_congr (by simp [Int.not_lt.mp hquorum]) rfl rfl

theorem counted_signed (hd : Sound d) (h : Accepted d approval signature)
    (hcreator : signature.signerUserId ≠ approval.createdByUserId) :
    Counted (signed d approval signature) (counted d approval) := by
  have hid : approval.id = signature.approvalId := lookup_key h.found
  have hc := hd.counted h.found
  have hpend : ((d.signers approval.id).length : Int) < approval.requiredSignatures := by
    refine lt_of_le_of_ne hc.within ?_
    intro heq
    have happr := hc.approved.mpr heq
    simp [h.pending] at happr
  have hsigs : (signed d approval signature).signers approval.id =
      d.signers approval.id ++ [signature.signerUserId] := by
    rw [signers_signed, if_pos hid.symm]
  have hlen : (((signed d approval signature).signers approval.id).length : Int) =
      (d.signers approval.id).length + 1 := by
    simp [hsigs]
  have hcreator : approval.createdByUserId ∉ (signed d approval signature).signers approval.id := by
    simp [hsigs, hc.notCreator, Ne.symm hcreator]
  have hdist : ((signed d approval signature).signers approval.id).Nodup := by
    rw [hsigs]
    exact nodup_append_comm.mp (nodup_cons.mpr ⟨hid ▸ h.fresh, hc.distinct⟩)
  have horder := orderStatus_signed d approval signature approval.orderId
  rw [← hid] at horder
  unfold counted
  split
  · rename_i hless
    rw [if_neg (by omega)] at horder
    refine ⟨hcreator, hdist, hc.positive, by omega, ?_, horder ▸ hc.order, horder ▸ hc.orderApproved⟩
    simp only [h.pending, reduceCtorEq, false_iff]
    omega
  · rename_i hquorum
    rw [if_pos ⟨rfl, by omega⟩] at horder
    refine ⟨hcreator, hdist, hc.positive, ?_, ?_, ?_, ?_⟩
    · show (((signed d approval signature).signers approval.id).length : Int) ≤ approval.requiredSignatures
      omega
    · show _ ↔ (((signed d approval signature).signers approval.id).length : Int) = approval.requiredSignatures
      simp only [true_iff]
      omega
    · show (signed d approval signature).orderStatus approval.orderId ≠ none
      simp [horder, hc.order]
    · show (signed d approval signature).orderStatus approval.orderId = _ ↔ _
      simp [horder, Option.ne_none_iff_exists'.mp hc.order]

variable {a : DualControlApproval}

theorem counted_other (hd : Sound d) (h : Accepted d approval signature)
    (hfound : lookup DualControlApproval.id d.approvals a.id = some a) (hne : a.id ≠ approval.id) :
    Counted (signed d approval signature) a := by
  have hid : approval.id = signature.approvalId := lookup_key h.found
  have hc := hd.counted hfound
  have hsigs : (signed d approval signature).signers a.id = d.signers a.id := by
    rw [signers_signed, if_neg (by rw [← hid]; exact Ne.symm hne), append_nil]
  have horder : (signed d approval signature).orderStatus a.orderId = d.orderStatus a.orderId := by
    rw [orderStatus_signed, if_neg]
    rintro ⟨hsame, -⟩
    exact hne (hid ▸ hd.orders hfound h.found hsame)
  refine ⟨?_, ?_, hc.positive, ?_, ?_, ?_, ?_⟩
  · exact hsigs ▸ hc.notCreator
  · exact hsigs ▸ hc.distinct
  · exact hsigs ▸ hc.within
  · exact hsigs ▸ hc.approved
  · exact horder ▸ hc.order
  · exact horder ▸ hc.orderApproved

theorem counted_orderId (a : DualControlApproval) : (counted d a).orderId = a.orderId := by
  unfold counted
  split
  · rfl
  · rfl

theorem counted_requiredSignatures (a : DualControlApproval) : (counted d a).requiredSignatures = a.requiredSignatures := by
  unfold counted
  split
  · rfl
  · rfl

theorem lookup_of_signed (h : Accepted d approval signature) {id : String}
    (hfound : lookup DualControlApproval.id (signed d approval signature).approvals id = some a) :
    ∃ b, lookup DualControlApproval.id d.approvals id = some b ∧ b.orderId = a.orderId ∧
      b.requiredSignatures = a.requiredSignatures := by
  by_cases hid : id = approval.id
  · have hkey : approval.id = signature.approvalId := lookup_key h.found
    rw [hid, lookup_signed_self h] at hfound
    cases hfound
    refine ⟨approval, ?_, (counted_orderId approval).symm, (counted_requiredSignatures approval).symm⟩
    rw [hid, hkey]
    exact h.found
  · rw [lookup_signed_ne hid] at hfound
    exact ⟨a, hfound, rfl, rfl⟩

theorem sound_signed (hd : Sound d) (h : Accepted d approval signature)
    (hcreator : signature.signerUserId ≠ approval.createdByUserId) : Sound (signed d approval signature) where
  counted := by
    intro id a hfound
    by_cases hid : id = approval.id
    · rw [hid, lookup_signed_self h] at hfound
      cases hfound
      exact counted_signed hd h hcreator
    · rw [lookup_signed_ne hid] at hfound
      have ha : a.id = id := lookup_key hfound
      exact counted_other hd h (ha ▸ hfound) (ha ▸ hid)
  unsigned := by
    intro id hnone
    have hkey : approval.id = signature.approvalId := lookup_key h.found
    have hid : id ≠ approval.id := by
      rintro rfl
      simp [lookup_signed_self h] at hnone
    rw [lookup_signed_ne hid] at hnone
    rw [signers_signed, hd.unsigned hnone, if_neg (by rw [← hkey]; exact Ne.symm hid)]
    rfl
  orders := by
    intro id id' a a' hfound hfound' hsame
    obtain ⟨b, hb, horder, -⟩ := lookup_of_signed h hfound
    obtain ⟨b', hb', horder', -⟩ := lookup_of_signed h hfound'
    exact hd.orders hb hb' (by rw [horder, horder', hsame])

end

section
variable {d : Tables} {approval : DualControlApproval}

theorem sound_created (hd : Sound d) (h : Created d approval) (hone : ∀ a ∈ d.approvals, a.orderId ≠ approval.orderId)
    (hopen : d.orderStatus approval.orderId ≠ some .approved) :
    Sound { d with approvals := d.approvals ++ [approval] } where
  counted := by
    intro id a hfound
    by_cases hid : id = approval.id
    · rw [hid, lookup_append_self h.fresh] at hfound
      cases hfound
      have hsigs : d.signers approval.id = [] := hd.unsigned h.fresh
      have hpos := h.positive
      refine ⟨?_, ?_, h.positive, ?_, ?_, ?_, ?_⟩
      · show approval.createdByUserId ∉ d.signers approval.id
        simp [hsigs]
      · show (d.signers approval.id).Nodup
        simp [hsigs]
      · show ((d.signers approval.id).length : Int) ≤ approval.requiredSignatures
        simp only [hsigs, length_nil]
        omega
      · show _ ↔ ((d.signers approval.id).length : Int) = approval.requiredSignatures
        simp only [hsigs, length_nil, h.pending, reduceCtorEq, false_iff]
        omega
      · show d.orderStatus approval.orderId ≠ none
        simpa [Tables.orderStatus, Option.isSome_iff_ne_none] using h.order
      · show d.orderStatus approval.orderId = some .approved ↔ _
        simp [hopen, h.pending]
    · rw [lookup_append_ne hid] at hfound
      have hc := hd.counted hfound
      exact ⟨hc.notCreator, hc.distinct, hc.positive, hc.within, hc.approved, hc.order, hc.orderApproved⟩
  unsigned := by
    intro id hnone
    apply hd.unsigned
    rw [lookup_eq_none] at hnone ⊢
    intro a ha
    exact hnone a (mem_append_left _ ha)
  orders := by
    intro id id' a a' hfound hfound' hsame
    by_cases hid : id = approval.id
    · by_cases hid' : id' = approval.id
      · rw [hid, hid']
      · rw [hid, lookup_append_self h.fresh] at hfound
        rw [lookup_append_ne hid'] at hfound'
        cases hfound
        exact absurd hsame.symm (hone a' (lookup_mem hfound'))
    · rw [lookup_append_ne hid] at hfound
      by_cases hid' : id' = approval.id
      · rw [hid', lookup_append_self h.fresh] at hfound'
        cases hfound'
        exact absurd hsame (hone a (lookup_mem hfound))
      · rw [lookup_append_ne hid'] at hfound'
        exact hd.orders hfound hfound' hsame

end

theorem sound_effects (hd : Sound d) (hord : Orderly uuid d call) (h : Effects uuid d call d') : Sound d' := by
  cases h with
  | created new order after =>
    subst after
    obtain ⟨hone, hopen⟩ := hord _ order
    exact sound_created hd new hone hopen
  | signed accepted approvalId signer other after =>
    subst after
    refine sound_signed hd accepted fun hcreator => other ?_
    exact hord _ _ approvalId accepted.found (hcreator ▸ signer)

def Completes (d d' : Tables) (a : DualControlApproval) : Prop :=
  (∃ signer, d'.signers a.id = d.signers a.id ++ [signer]) ∧ (d'.signers a.id).length = a.requiredSignatures

/-- What a call means for an approval and its order. -/
structure ExactQuorum (d d' : Tables) (a : DualControlApproval) : Prop where
  distinct : (d'.signers a.id).Nodup
  notCreator : a.createdByUserId ∉ d'.signers a.id
  approval : d.approvalStatus a.id ≠ some .approved ∧ d'.approvalStatus a.id = some .approved ↔ Completes d d' a
  order : d.orderStatus a.orderId ≠ some .approved ∧ d'.orderStatus a.orderId = some .approved ↔ Completes d d' a
  final : d.approvalStatus a.id = some .approved → d'.signers a.id = d.signers a.id

/-- A call leaves the signatures on an approval or adds one; an approval that it creates
has none. -/
structure Extends (d d' : Tables) : Prop where
  grows : ∀ id, d'.signers id = d.signers id ∨ ∃ signer, d'.signers id = d.signers id ++ [signer]
  known : ∀ {id a}, lookup DualControlApproval.id d'.approvals id = some a →
    (∃ b, lookup DualControlApproval.id d.approvals id = some b ∧ b.orderId = a.orderId ∧
      b.requiredSignatures = a.requiredSignatures) ∨
    lookup DualControlApproval.id d.approvals id = none ∧ d'.signers id = []

theorem extends_effects (hd : Sound d) (h : Effects uuid d call d') :
    Extends d d' := by
  cases h with
  | created new order after =>
    subst after
    refine ⟨fun id => .inl rfl, ?_⟩
    intro id a hfound
    rename_i approval
    by_cases hid : id = approval.id
    · exact .inr ⟨hid ▸ new.fresh, hd.unsigned (hid ▸ new.fresh)⟩
    · rw [lookup_append_ne hid] at hfound
      exact .inl ⟨a, hfound, rfl, rfl⟩
  | signed accepted approvalId signer other after =>
    subst after
    refine ⟨?_, fun hfound => .inl (lookup_of_signed accepted hfound)⟩
    intro id
    rw [signers_signed]
    split
    · exact .inr ⟨_, rfl⟩
    · exact .inl (append_nil _)

theorem exactQuorum_of_extends (hd : Sound d) (hd' : Sound d') (h : Extends d d')
    (hfound : lookup DualControlApproval.id d'.approvals a.id = some a) :
    ExactQuorum d d' a := by
  have hc' := hd'.counted hfound
  have hstat' : d'.approvalStatus a.id = some a.status := by simp [Tables.approvalStatus, hfound]
  rcases h.known hfound with ⟨b, hb, horder, hreq⟩ | ⟨hnone, hempty⟩
  · have hc := hd.counted hb
    have hkey : b.id = a.id := lookup_key hb
    have hstat : d.approvalStatus a.id = some b.status := by simp [Tables.approvalStatus, hb]
    have hcount := hc.approved
    have hcount' := hc'.approved
    have hwithin' := hc'.within
    rw [hkey, hreq] at hcount
    have hiff : b.status ≠ .approved ∧ a.status = .approved ↔ Completes d d' a := by
      rw [Ne, hcount, hcount', Completes]
      rcases h.grows a.id with heq | ⟨signer, heq⟩
      · simp [heq]
      · simp only [heq, append_cancel_left_eq, cons.injEq, and_true, exists_eq', true_and,
          length_append, length_singleton, and_iff_right_iff_imp]
        omega
    refine ⟨hc'.distinct, hc'.notCreator, ?_, ?_, ?_⟩
    · simpa [hstat, hstat'] using hiff
    · rw [Ne, hc'.orderApproved, ← horder, hc.orderApproved]
      exact hiff
    · intro happr
      rw [hstat, Option.some.injEq, hcount] at happr
      rcases h.grows a.id with heq | ⟨signer, heq⟩
      · exact heq
      · rw [heq, length_append, length_singleton] at hwithin'
        omega
  · have hpos := hc'.positive
    have hpend : a.status ≠ .approved := by
      rw [Ne, hc'.approved, hempty, length_nil]
      omega
    have hincomplete : ¬Completes d d' a := by
      rintro ⟨⟨signer, heq⟩, -⟩
      simp [hempty] at heq
    refine ⟨hc'.distinct, hc'.notCreator, ?_, ?_, ?_⟩
    · simp [hstat', hpend, hincomplete]
    · simp [hc'.orderApproved, hpend, hincomplete]
    · simp [Tables.approvalStatus, hnone]

def Reaches (uuid : Column) : Tables → Tables → Prop :=
  Relation.ReflTransGen fun d d' => ∃ call outcome, Orderly uuid d call ∧ Performs uuid True call d outcome d'

def Fresh (d : Tables) : Prop := d.approvals = [] ∧ d.signatures = []

theorem sound_fresh (h : Fresh d) : Sound d := by
  have hnone : ∀ id, lookup DualControlApproval.id d.approvals id = none := by simp [lookup_eq_none, h.1]
  refine ⟨?_, ?_, ?_⟩
  · intro id a hfound
    simp [hnone] at hfound
  · intro id _
    simp [Tables.signers, h.2]
  · intro id id' a a' hfound
    simp [hnone] at hfound

theorem sound_performs {outcome : Except DualControlError Unit} (hd : Sound d) (hord : Orderly uuid d call)
    (h : Performs uuid lossy call d outcome d') :
    Sound d' ∧ Extends d d' := by
  have hcases : Effects uuid d call d' ∨ d' = d := by
    rcases performs_cases h with ⟨_, _, heffects⟩ | ⟨_, heq | ⟨_, _, heffects⟩⟩
    · exact .inl heffects
    · exact .inr heq
    · exact .inl heffects
  obtain heffects | rfl := hcases
  · exact ⟨sound_effects hd hord heffects, extends_effects hd heffects⟩
  · exact ⟨hd, fun id => .inl rfl, fun hfound => .inl ⟨_, hfound, rfl, rfl⟩⟩

theorem sound_reaches {d₀ d : Tables} (hd : Sound d₀) (h : Reaches uuid d₀ d) : Sound d := by
  induction h with
  | refl => exact hd
  | tail _ hstep ih =>
    obtain ⟨call, outcome, hord, hperforms⟩ := hstep
    exact (sound_performs ih hord hperforms).1

/-- **Exact quorum.** Over every order of calls in which no order is given two approvals and no creator signs in another
spelling, an approval is approved by the last signature it needs and by no other; and a call that throws leaves the tables,
unless it was carried out and its answer lost. -/
theorem quorum_exact {uuid : Column} {d₀ d d' : Tables} {call : Call} {outcome : Except DualControlError Unit}
    (start : Fresh d₀) (run : Reaches uuid d₀ d) (hord : Orderly uuid d call)
    (step : Performs uuid True call d outcome d') :
    (∀ id a, lookup DualControlApproval.id d'.approvals id = some a → ExactQuorum d d' a) ∧
      (∀ e, outcome = .error e → Performs uuid False call d outcome d' → d' = d) := by
  have hd : Sound d := sound_reaches (sound_fresh start) run
  obtain ⟨hd', hextends⟩ := sound_performs hd hord step
  refine ⟨?_, ?_⟩
  · intro id a hfound
    have hid : a.id = id := lookup_key hfound
    exact exactQuorum_of_extends hd hd' hextends (hid ▸ hfound)
  · rintro e rfl hanswered
    rcases performs_cases hanswered with ⟨_, hok, _⟩ | ⟨_, hsame | ⟨hlossy, -⟩⟩
    · cases hok
    · exact hsame
    · exact hlossy.elim

def alice : String := "a0eebc99-9c0b-4ef8-bb6d-6bb9bd380a11"

def bob : String := "b0eebc99-9c0b-4ef8-bb6d-6bb9bd380a11"

def carol : String := "c0eebc99-9c0b-4ef8-bb6d-6bb9bd380a11"

def order1 : String := "10eebc99-9c0b-4ef8-bb6d-6bb9bd380a11"

def approval1 : String := "20eebc99-9c0b-4ef8-bb6d-6bb9bd380a11"

def approval2 : String := "30eebc99-9c0b-4ef8-bb6d-6bb9bd380a11"

def aliceInCapitals : String := "A0EEBC99-9C0B-4EF8-BB6D-6BB9BD380A11"

def officeUuid : Column := .of [alice, bob, carol, order1, approval1, approval2] aliceInCapitals alice

def after (d : Tables) (call : Call) : Tables :=
  (call.body.alone (sqlRun (execute officeUuid)) (Session.rest d)).2.committed

def asks (id user : String) (required : Rat) : Call := .createApproval id 0 ⟨order1, user, some required, none⟩

def signs (id approvalId user : String) : Call := .sign id ⟨approvalId, user, none⟩

def office : Tables := ⟨[], [], [⟨order1, .other "pending"⟩]⟩

def officeAsked : Tables := after office (asks approval1 alice 2)

def officeSigned : Tables := after officeAsked (signs "signature-1" approval1 bob)

def officeApproved : Tables := after officeSigned (signs "signature-2" approval1 carol)

theorem orderly_signs {d : Tables} {id approvalId user : String}
    (h : ∀ a ∈ d.approvals, officeUuid.read user ≠ some a.createdByUserId) :
    Orderly officeUuid d (signs id approvalId user) :=
  fun _ a _ hfound hcreator => absurd hcreator (h a (lookup_mem hfound))

theorem quorum_exact_at_office : officeSigned.orderStatus order1 = some (.other "pending") ∧
      officeApproved.orderStatus order1 = some .approved ∧
      (∀ id a, lookup DualControlApproval.id officeApproved.approvals id = some a →
        ExactQuorum officeSigned officeApproved a) := by
  refine ⟨by decide, by decide, ?_⟩
  have hasked : Reaches officeUuid office officeAsked := by
    refine .single ⟨asks approval1 alice 2, _, ?_, ends_of_sqlRun (by rfl)⟩
    intro orderId horder
    cases horder
    exact ⟨by decide, by decide⟩
  have hsig : Reaches officeUuid office officeSigned :=
    .tail hasked ⟨signs "signature-1" approval1 bob, _, orderly_signs (by decide), ends_of_sqlRun (by rfl)⟩
  have hlast : Performs officeUuid True (signs "signature-2" approval1 carol) officeSigned _ officeApproved :=
    ends_of_sqlRun (by rfl)
  exact (quorum_exact ⟨rfl, rfl⟩ hsig (orderly_signs (by decide)) hlast).1

def officeAskedTwice : Tables := after officeAsked (asks approval2 carol 1)

def officeAround : Tables := after officeAskedTwice (signs "signature-1" approval2 bob)

def officeAlone : Tables := after office (asks approval1 alice 1)

def officeSelf : Tables := after officeAlone (signs "signature-1" approval1 aliceInCapitals)

/-- The order is approved though the approval that was asked for first, of two signatures, has none. And an approval is
approved by its creator, who signs with the capitals of her id. -/
theorem approved_by_another : Fresh office ∧
      Relation.ReflTransGen (fun d d' => ∃ call outcome, Performs officeUuid False call d outcome d') office officeAskedTwice ∧
      Performs officeUuid False (signs "signature-1" approval2 bob) officeAskedTwice (.ok ()) officeAround ∧
      (∃ a, lookup DualControlApproval.id officeAround.approvals approval1 = some a ∧
        a.requiredSignatures = 2 ∧ officeAround.signers approval1 = [] ∧
        ¬ExactQuorum officeAskedTwice officeAround a) ∧
      Performs officeUuid False (asks approval1 alice 1) office (.ok ()) officeAlone ∧
      Performs officeUuid False (signs "signature-1" approval1 aliceInCapitals) officeAlone (.ok ()) officeSelf ∧
      ∃ a, lookup DualControlApproval.id officeSelf.approvals approval1 = some a ∧ a.status = .approved ∧
        ¬ExactQuorum officeAlone officeSelf a := by
  refine ⟨⟨rfl, rfl⟩, ?_, ends_of_sqlRun (by rfl), ⟨_, rfl, rfl, rfl, ?_⟩, ends_of_sqlRun (by rfl),
    ends_of_sqlRun (by rfl), _, rfl, rfl, fun h => ?_⟩
  · have hasked : Performs officeUuid False (asks approval1 alice 2) office (.ok ()) officeAsked := ends_of_sqlRun (by rfl)
    exact .tail (.single ⟨_, _, hasked⟩) ⟨asks approval2 carol 1, _, ends_of_sqlRun (by rfl)⟩
  · intro h
    obtain ⟨⟨signer, hsigs⟩, -⟩ := h.order.mp ⟨by decide, by decide⟩
    cases hsigs
  · exact h.notCreator (by decide)

end Delego.DualControl
