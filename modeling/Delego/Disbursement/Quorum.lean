import Delego.Disbursement.Approval

/-! No broadcast without a quorum.

What the quorum rests on never changes but by a signature that is collected (`core`): the officers, the number of
signatures that is required, the transaction and the signatures. -/
namespace Delego.Disbursement
open Delego.Data List Option

variable {cfg : Settings}

/-- The signatures are of distinct listed officers and verify. -/
structure Signed (cfg : Settings) (state : DisbursementState) : Prop where
  distinct : (state.collectedSignatures.map OfficerSignature.officer).Nodup
  listed : ∀ s ∈ state.collectedSignatures, s.officer ∈ state.officers
  verified : ∀ s ∈ state.collectedSignatures,
    cfg.verifySignature s.officer s.signature (payload state.disbursementId state.transactionXdr) = true

def Required (state : DisbursementState) : Prop :=
  ∃ required : Rat, state.requiredSignatures = .finite required ∧ 1 ≤ required

/-- As many officers have signed as are required, and at least one is. -/
structure Quorate (cfg : Settings) (state : DisbursementState) : Prop where
  signed : Signed cfg state
  reached : ∃ required : Rat, state.requiredSignatures = .finite required ∧ 1 ≤ required ∧
    required ≤ state.collectedSignatures.length

/-- The number that is given at creation is not `NaN`. -/
def Numeric : Action → Prop
  | .create _ input => input.requiredSignatures ≠ some .nan
  | _ => True

def core (state : DisbursementState) : String × String × List String × Number × List OfficerSignature :=
  (state.disbursementId, state.transactionXdr, state.officers, state.requiredSignatures, state.collectedSignatures)

/-- Signatures are of different officers, and verify. -/
structure Kept (cfg : Settings) (w : World) : Prop where
  sound : ∀ state ∈ w.objects, Signed cfg state ∧ Required state
  named : ∀ entry ∈ w.disbursements, ∃ state, w.objects[entry.ref]? = some state ∧
    state.disbursementId = entry.disbursementId

theorem kept_empty : Kept cfg World.empty :=
  ⟨fun _ h => absurd h not_mem_nil, fun _ h => absurd h not_mem_nil⟩

section
variable {state state' : DisbursementState}

theorem Signed.of_core (h : Signed cfg state) (hcore : core state' = core state) :
    Signed cfg state' := by
  simp only [core, Prod.mk.injEq] at hcore
  obtain ⟨hid, hxdr, hofficers, -, hsignatures⟩ := hcore
  refine ⟨?_, ?_, ?_⟩
  · rw [hsignatures]
    exact h.distinct
  · rw [hsignatures, hofficers]
    exact h.listed
  · rw [hsignatures, hid, hxdr]
    exact h.verified

theorem Required.of_core (h : Required state) (hcore : core state' = core state) : Required state' := by
  simp only [core, Prod.mk.injEq] at hcore
  obtain ⟨required, hreq, hone⟩ := h
  exact ⟨required, hcore.2.2.2.1.trans hreq, hone⟩

theorem core_expire (now : Int) (state : DisbursementState) : core (state.expire now) = core state := by
  unfold DisbursementState.expire
  split
  · rfl
  · rfl

theorem core_answered (now : Int) (answer : Answer) (state : DisbursementState) :
    core (state.answered now answer) = core state := by
  cases answer with
  | ok result => rfl
  | refused status body => rfl
  | thrown message => rfl

theorem map_core_modify (objects : List DisbursementState) (i : Nat) {f : DisbursementState → DisbursementState}
    (hf : ∀ state, core (f state) = core state) : (objects.modify i f).map core = objects.map core := by
  apply ext_getElem?
  intro j
  rw [getElem?_map, getElem?_map, getElem?_modify]
  cases objects[j]? with
  | none => rfl
  | some state =>
    by_cases hij : i = j
    · simp [hij, hf state]
    · simp [hij]

theorem map_core_expireStale (now : Int) (w : World) :
    (expireStaleDisbursements now w).objects.map core = w.objects.map core := by
  rw [objects_expireStale]
  apply ext_getElem?
  intro ref
  rw [getElem?_map, getElem?_map, getElem?_mapIdx]
  cases w.objects[ref]? with
  | none => rfl
  | some state =>
    by_cases hentry : ref ∈ w.disbursements.map Entry.ref
    · simp only [map_some, if_pos hentry, core_expire]
    · simp only [map_some, if_neg hentry]

end

section
variable {w w' : World}

theorem Kept.of_core (h : Kept cfg w) (hobjects : w'.objects.map core = w.objects.map core)
    (hentries : w'.disbursements = w.disbursements) : Kept cfg w' where
  sound state hmem := by
    have hcore : core state ∈ w.objects.map core := hobjects ▸ mem_map_of_mem hmem
    obtain ⟨before, hpre, hsame⟩ := mem_map.mp hcore
    obtain ⟨hsig, hreq⟩ := h.sound before hpre
    exact ⟨hsig.of_core hsame.symm, hreq.of_core hsame.symm⟩
  named entry hentry := by
    rw [hentries] at hentry
    obtain ⟨before, hpre, hid⟩ := h.named entry hentry
    have hcore : (w'.objects.map core)[entry.ref]? = some (core before) := by
      rw [hobjects, getElem?_map, hpre]
      rfl
    rw [getElem?_map, map_eq_some_iff] at hcore
    obtain ⟨state, hstate, hsame⟩ := hcore
    refine ⟨state, hstate, ?_⟩
    rw [← hid]
    exact congrArg Prod.fst hsame

variable {ref : Nat}

theorem Kept.set (h : Kept cfg w) {before state : DisbursementState} (hpre : w.objects[ref]? = some before)
    (hid : state.disbursementId = before.disbursementId) (hsig : Signed cfg state) (hreq : Required state)
    (hobjects : w'.objects = w.objects.set ref state) (hentries : w'.disbursements = w.disbursements) :
    Kept cfg w' where
  sound other hmem := by
    rw [hobjects] at hmem
    obtain hmem | rfl := mem_or_eq_of_mem_set hmem
    · exact h.sound other hmem
    · exact ⟨hsig, hreq⟩
  named entry hentry := by
    rw [hentries] at hentry
    obtain ⟨found, hfound, hname⟩ := h.named entry hentry
    rw [hobjects]
    by_cases href : ref = entry.ref
    · obtain rfl : before = found := some.inj (hpre.symm.trans (href ▸ hfound))
      refine ⟨state, ?_, hid.trans hname⟩
      rw [href]
      exact List.getElem?_set_self (List.getElem?_eq_some_iff.mp hfound).1
    · exact ⟨found, by rw [List.getElem?_set_ne href]; exact hfound, hname⟩

variable {state : DisbursementState}

theorem Kept.get (h : Kept cfg w) {disbursementId : String}
    (hget : w.get disbursementId = some (ref, state)) :
    state.disbursementId = disbursementId ∧ Signed cfg state ∧ Required state := by
  obtain ⟨hfound, hentry⟩ := get_some hget
  obtain ⟨named, hnamed, hname⟩ := h.named _ (lookup_mem hentry)
  obtain rfl : state = named := some.inj (hfound.symm.trans hnamed)
  exact ⟨hname, h.sound state (mem_of_getElem? hfound)⟩

theorem mem_setEntry {entries : List Entry} {entry other : Entry} (h : other ∈ setEntry entries entry) :
    other = entry ∨ other ∈ entries := by
  unfold setEntry at h
  split at h
  · obtain hmem | hmem := mem_append.mp h
    · exact .inr hmem
    · exact .inl (mem_singleton.mp hmem)
  · obtain ⟨before, hpre, heq⟩ := mem_map.mp h
    split at heq
    · exact .inl heq.symm
    · exact .inr (heq ▸ hpre)

theorem required_of_lt {n : Nat} (hlow : state.requiredSignatures.lt (.ofNat 1) = false)
    (hhigh : Number.lt (.ofNat n) state.requiredSignatures = false)
    (hnan : state.requiredSignatures ≠ .nan) : Required state := by
  unfold Required
  cases hreq : state.requiredSignatures with
  | nan => exact absurd hreq hnan
  | infinity =>
    rw [hreq] at hhigh
    cases hhigh
  | negInfinity =>
    rw [hreq] at hlow
    cases hlow
  | finite required =>
    rw [hreq] at hlow
    refine ⟨required, rfl, ?_⟩
    have hnot : ¬ required < 1 := by simpa [Number.lt, Number.ofNat] using hlow
    exact Rat.not_lt.mp hnot

theorem Kept.create (h : Kept cfg w) {input : CreateDisbursementApprovalInput}
    (hnumeric : input.requiredSignatures ≠ some .nan) (hcreated : Created w w' input state) :
    Kept cfg w' where
  sound other hmem := by
    rw [hcreated.objects, mem_append, mem_singleton] at hmem
    obtain hmem | rfl := hmem
    · exact h.sound other hmem
    · refine ⟨⟨?_, ?_, ?_⟩, required_of_lt hcreated.checked hcreated.finite ?_⟩
      · simp [hcreated.unsigned]
      · simp [hcreated.unsigned]
      · simp [hcreated.unsigned]
      · intro hnan
        cases hgiven : input.requiredSignatures with
        | none =>
          obtain ⟨n, hn⟩ := hcreated.default hgiven
          rw [hn] at hnan
          cases hnan
        | some required =>
          rw [hcreated.given required hgiven] at hnan
          exact hnumeric (hgiven.trans (congrArg some hnan))
  named entry hentry := by
    rw [hcreated.disbursements] at hentry
    rw [hcreated.objects]
    obtain rfl | hentry := mem_setEntry hentry
    · exact ⟨state, by simp, hcreated.disbursementId⟩
    · obtain ⟨found, hfound, hname⟩ := h.named entry hentry
      refine ⟨found, ?_, hname⟩
      rw [List.getElem?_append_left (List.getElem?_eq_some_iff.mp hfound).1]
      exact hfound

def Sent (cfg : Settings) (w : World) (submission : Submission) : Prop :=
  w.get submission.state.disbursementId = some (submission.ref, submission.state) ∧ Quorate cfg submission.state

theorem Kept.broadcast (h : Kept cfg w) {disbursementId : String} {before state : DisbursementState}
    (hget : w.get disbursementId = some (ref, before)) (hid : state.disbursementId = before.disbursementId)
    (hquorate : Quorate cfg state) (now : Int) :
    Kept cfg (broadcastDisbursement now ref state w) ∧
      ∀ submission, (broadcastDisbursement now ref state w).submissions = w.submissions ++ [submission] →
        Sent cfg (broadcastDisbursement now ref state w) submission := by
  obtain ⟨hpre, hlook⟩ := get_some hget
  have hname := (h.get hget).1
  have hcore : core (state.broadcasting now) = core state := rfl
  have hid' : (state.broadcasting now).disbursementId = before.disbursementId := hid
  obtain ⟨required, hreq, hone, hreach⟩ := hquorate.reached
  constructor
  · exact h.set hpre hid' (hquorate.signed.of_core hcore) ⟨required, hreq, hone⟩ rfl rfl
  · intro submission hsubm
    have hsame := append_cancel_left hsubm
    obtain rfl := singleton_inj.mp hsame
    refine ⟨?_, hquorate.signed.of_core hcore, required, hreq, hone, hreach⟩
    have hself : (w.objects.set ref (state.broadcasting now))[ref]? = some (state.broadcasting now) :=
      List.getElem?_set_self (List.getElem?_eq_some_iff.mp hpre).1
    show (broadcastDisbursement now ref state w).get (state.broadcasting now).disbursementId =
      some (ref, state.broadcasting now)
    rw [hid', hname]
    simp only [World.get, broadcastDisbursement, hlook, hself]
    rfl

theorem signed_collect {input : SubmitOfficerSignatureInput}
    (hsig : Signed cfg state) (hinput : Collectable cfg state input)
    (hid : state.disbursementId = input.disbursementId) (now : Int) :
    Signed cfg (state.collect cfg now input) where
  distinct := by
    show ((state.collectedSignatures ++ [input.collected cfg now]).map OfficerSignature.officer).Nodup
    rw [map_append]
    exact nodup_append_comm.mp (nodup_cons.mpr ⟨hinput.fresh, hsig.distinct⟩)
  listed s hs := by
    obtain hs | hs := mem_append.mp hs
    · exact hsig.listed s hs
    · obtain rfl := mem_singleton.mp hs
      exact hinput.listed
  verified s hs := by
    obtain hs | hs := mem_append.mp hs
    · exact hsig.verified s hs
    · obtain rfl := mem_singleton.mp hs
      show cfg.verifySignature input.officer input.signature (payload state.disbursementId state.transactionXdr) = true
      rw [hid]
      exact hinput.verified

theorem unsent {w' : World} (hlen : w'.submissions.length = w.submissions.length) (submission : Submission)
    (h : w'.submissions = w.submissions ++ [submission]) : Sent cfg w' submission := by
  rw [h, length_append] at hlen
  simp at hlen

theorem Kept.step (h : Kept cfg w) {action : Action} (hnumeric : Numeric action) :
    Kept cfg (step cfg w action) ∧
      ∀ submission, (Disbursement.step cfg w action).submissions = w.submissions ++ [submission] →
        Sent cfg (Disbursement.step cfg w action) submission := by
  cases action with
  | create now input =>
    obtain hsame | ⟨state, hcreated⟩ := create_cases cfg w now input
    · rw [Disbursement.step, hsame]
      exact ⟨h, unsent rfl⟩
    · exact ⟨h.create hnumeric hcreated, unsent (congrArg length hcreated.submissions)⟩
  | collect now input =>
    obtain hsame | ⟨ref, state, hget, hinput, hafter⟩ := collect_cases cfg w now input
    · rw [Disbursement.step, hsame]
      exact ⟨h, unsent rfl⟩
    · obtain ⟨hid, hsig, hreq⟩ := h.get hget
      have hsig' := signed_collect hsig hinput hid now
      obtain ⟨hreach, hafter⟩ | hafter := hafter
      · rw [Disbursement.step, hafter]
        obtain ⟨required, hreq, hone⟩ := hreq
        have hname : ({ state.collect cfg now input with status := .quorumMet } :
            DisbursementState).disbursementId = state.disbursementId := rfl
        refine h.broadcast hget hname ⟨hsig'.of_core rfl, required, hreq, hone, ?_⟩ now
        rw [hreq] at hreach
        have hle : required ≤ ((state.collectedSignatures.length + 1 : Nat) : Rat) := by
          simpa [Number.le, Number.ofNat] using hreach
        simpa [DisbursementState.collect] using hle
      · rw [Disbursement.step, hafter]
        have hname : (state.collect cfg now input).disbursementId = state.disbursementId := rfl
        exact ⟨h.set (get_some hget).1 hname hsig' hreq rfl rfl, unsent rfl⟩
  | submit now disbursementId =>
    obtain hsame | ⟨ref, state, hget, -, hquorum, hafter⟩ := submit_cases cfg w now disbursementId
    · rw [Disbursement.step, hsame]
      exact ⟨h, unsent rfl⟩
    · obtain ⟨-, hsig, required, hreq, hone⟩ := h.get hget
      rw [Disbursement.step, hafter]
      refine h.broadcast hget rfl ⟨hsig, required, hreq, hone, ?_⟩ now
      rw [hreq] at hquorum
      have hnot : ¬ (state.collectedSignatures.length : Rat) < required := by simpa [Number.lt, Number.ofNat] using hquorum
      exact Rat.not_lt.mp hnot
  | expireStale now => exact ⟨h.of_core (map_core_expireStale now w) rfl, unsent rfl⟩
  | succeed i =>
    obtain hsame | ⟨submission, -, hafter⟩ := succeed_cases cfg w i
    · rw [hsame]
      exact ⟨h, unsent rfl⟩
    · rw [hafter]
      exact ⟨h.of_core rfl rfl, unsent length_set⟩
  | answer now i answer =>
    obtain hsame | ⟨submission, -, -, hafter⟩ := answer_cases cfg w now i answer
    · rw [hsame]
      exact ⟨h, unsent rfl⟩
    · rw [hafter]
      have hcore := map_core_modify w.objects submission.ref (core_answered now answer)
      exact ⟨h.of_core hcore rfl, unsent length_set⟩

theorem Kept.run (h : Kept cfg w) {actions : List Action} (hnumeric : ∀ action ∈ actions, Numeric action) :
    Kept cfg (run cfg w actions) := by
  induction actions generalizing w with
  | nil => exact h
  | cons action rest ih =>
    have hstep := (h.step (hnumeric action mem_cons_self)).1
    exact ih hstep fun other hother => hnumeric other (mem_cons_of_mem _ hother)

end

/-- In every run in which no approval asks for `NaN` signatures, a submission carries the state of its disbursement,
signed by as many listed officers as that requires, and one or more. -/
theorem sent_with_quorum (cfg : Settings) {actions : List Action}
    (hnumeric : ∀ action ∈ actions, Numeric action) {action : Action} (hlast : Numeric action)
    (submission : Submission)
    (hsent : (step cfg (run cfg World.empty actions) action).submissions =
      (run cfg World.empty actions).submissions ++ [submission]) :
    Sent cfg (step cfg (run cfg World.empty actions) action) submission :=
  ((kept_empty.run hnumeric).step hlast).2 submission hsent

/-- The state that is sent when Ben's signature has made the second. -/
def payoutSigned : DisbursementState where
  disbursementId := "payout"
  transactionXdr := "xdr"
  officers := ["anna", "ben", "carla"]
  requiredSignatures := .finite 2
  collectedSignatures :=
    [⟨"anna", "anna/payout:xdr", 1, "payout:anna:anna/payout:xdr"⟩,
      ⟨"ben", "ben/payout:xdr", 2, "payout:ben:ben/payout:xdr"⟩]
  status := .broadcasting
  createdAt := 0
  updatedAt := 2
  broadcastResult := none
  failureReason := none

theorem sent_with_quorum_payout : (step sampleSettings (run sampleSettings World.empty [payout none, signedBy 1 "anna"])
        (signedBy 2 "ben")).submissions = [⟨0, payoutSigned, false, none⟩] ∧
      Quorate sampleSettings payoutSigned := by
  have hsent : (step sampleSettings (run sampleSettings World.empty [payout none, signedBy 1 "anna"])
      (signedBy 2 "ben")).submissions = [⟨0, payoutSigned, false, none⟩] := by
    decide
  have hnumeric : ∀ action ∈ [payout none, signedBy 1 "anna"], Numeric action := by
    intro action hmem
    simp only [mem_cons, not_mem_nil, or_false] at hmem
    obtain rfl | rfl := hmem
    · simp [payout, Numeric]
    · trivial
  have hnone : (run sampleSettings World.empty [payout none, signedBy 1 "anna"]).submissions = [] := by decide
  have hlast : Numeric (signedBy 2 "ben") := trivial
  refine ⟨hsent, (sent_with_quorum sampleSettings hnumeric hlast ⟨0, payoutSigned, false, none⟩ ?_).2⟩
  rw [hsent, hnone]
  rfl

/-- Created with `NaN`, the payout is sent without a signature. -/
theorem sent_unsigned : ∃ submission, (step sampleSettings (run sampleSettings World.empty [payout (some .nan)])
        (.submit 1 "payout")).submissions = [submission] ∧
      submission.state.collectedSignatures = [] ∧ ¬ Quorate sampleSettings submission.state := by
  refine ⟨⟨0,
    { disbursementId := "payout", transactionXdr := "xdr", officers := ["anna", "ben", "carla"]
      requiredSignatures := .nan, collectedSignatures := [], status := .broadcasting, createdAt := 0
      updatedAt := 1, broadcastResult := none
      failureReason := none }, false, none⟩, by decide, rfl, ?_⟩
  rintro ⟨-, required, hreq, -⟩
  cases hreq

end Delego.Disbursement
