import Delego.Permissions.Lookups

/-! Revocation, and what it says of the grants.

A lookup that fails, and one that no grant can be made of, say the same as one that finds nothing: that there is no
grant. `revoke` then has nothing to do, and returns. -/
namespace Delego.Permissions
open Delego.Process Delego.Data List

-- whether an input is blank is not to be computed of one that is not known
attribute [local irreducible] trim

section
variable {cfg : Settings} {lookups : String → Lookup} {w : World} {contractId owner spender : String}

theorem Ends.quietly {α : Type} {o : Op} {a : o.Reply} {v w' : World} {f : o.Reply → PermissionM α}
    {outcome : Except Thrown α} (ch : Choice) (hquiet : ch.events = [])
    (hdeliver : deliver lookups o ch w = (.ok a, v)) (hrest : Ends (does lookups) (f a) v outcome w') :
    Ends (does lookups) (op o >>= f) w outcome w' := by
  refine Ends.bind (Ends.perform ⟨ch, ?_⟩) hrest
  rw [perform, hquiet]
  exact hdeliver.symm

theorem readGrant_some {fields : Option Fields} {grant : PermissionGrant}
    (h : readGrant cfg contractId spender (.success (some ((fields.map Native.object).getD .null))) = .ok (some grant)) :
    ∃ fields', fields = some fields' ∧
      readGrant cfg contractId spender (.success (some (.object fields'))) = .ok (some grant) := by
  cases fields with
  | none => cases h
  | some fields' => exact ⟨fields', rfl, h⟩

theorem ends_queryGrant (hinvoked : cfg.contractError contractId = none) :
    ∃ existing, Ends (does lookups) (queryGrant cfg contractId owner spender) w (.ok existing) w ∧
      ∀ grant, existing = some grant → ∃ fields, w.grants contractId owner spender = some fields ∧
        Reported cfg contractId spender (lookups spender) fields := by
  let tx : Invocation := ⟨contractId, "get_permission", owner, spender, "0", "100"⟩
  -- the lookup, with what is made of it
  have hlookup : ∃ existing, Ends (does lookups) ((do
      let simRes ← op (.lookUp tx)
      orThrow ((readGrant cfg contractId spender simRes).mapError Thrown.other)).tryCatch fun _ => return none)
      w (.ok existing) w ∧ ∀ grant, existing = some grant → ∃ fields, w.grants contractId owner spender = some fields ∧
          Reported cfg contractId spender (lookups spender) fields := by
    have hnothing : ∀ grant : PermissionGrant, none = some grant →
        ∃ fields, w.grants contractId owner spender = some fields ∧
          Reported cfg contractId spender (lookups spender) fields := by
      intro grant hgrant
      cases hgrant
    cases hlook : lookups spender with
    | thrown message =>
      have hthrown : does lookups (.lookUp tx) w (.error (.other message)) w := by
        refine ⟨{}, ?_⟩
        simp only [perform, deliver, tx, hlook]
        rfl
      have hfails : Ends (does lookups) (op (.lookUp tx)) w (.error (Thrown.other message)) w :=
        Ends.call hthrown (.fail _ w)
      exact ⟨none, Ends.tryCatch hfails.bind_error (.ret none w), hlook ▸ hnothing⟩
    | simulationError message =>
      refine ⟨none, Ends.tryCatch_ok (Ends.quietly {} rfl (a := Looked.error message) (v := w) ?_ (.ret none w)), hlook ▸ hnothing⟩
      simp only [deliver, tx, hlook]
    | empty =>
      refine ⟨none, Ends.tryCatch_ok (Ends.quietly {} rfl (a := Looked.success none) (v := w) ?_ (.ret none w)), hlook ▸ hnothing⟩
      simp only [deliver, tx, hlook]
    | answered =>
      let looked : Looked := .success (some (((w.grants contractId owner spender).map Native.object).getD .null))
      have hdeliver : deliver lookups (.lookUp tx) {} w = (.ok looked, w) := by
        simp only [deliver, tx, hlook]
        rfl
      cases hread : readGrant cfg contractId spender looked with
      | error message =>
        have hfails : Ends (does lookups) (orThrow ((readGrant cfg contractId spender looked).mapError Thrown.other)) w
            (.error (Thrown.other message)) w := by
          rw [hread]
          exact .fail _ w
        exact ⟨none, Ends.tryCatch (Ends.quietly {} rfl hdeliver hfails) (.ret none w), hlook ▸ hnothing⟩
      | ok existing =>
        refine ⟨existing, Ends.tryCatch_ok (Ends.quietly {} rfl hdeliver ?_), ?_⟩
        · rw [hread]
          exact .ret existing w
        · rintro grant rfl
          obtain ⟨fields, hflds, hgrant⟩ := readGrant_some hread
          exact ⟨fields, hflds, rfl, grant, hgrant⟩
  obtain ⟨existing, hends, hfound⟩ := hlookup
  refine ⟨existing, ?_, hfound⟩
  refine Ends.quietly {} rfl (a := "100") (v := w) rfl ?_
  rw [invokeContractFunction, hinvoked]
  exact hends

theorem ends_submitRevocation (hinvoked : cfg.contractError contractId = none) :
    ∃ w', Ends (does lookups) (submitRevocation cfg contractId owner spender) w (.ok ()) w' ∧
      ∀ spender', spender' ≠ spender → w'.grants contractId owner spender' = w.grants contractId owner spender' := by
  let tx : Invocation := ⟨contractId, "revoke_permission", owner, spender, "1", "100"⟩
  let taken : World := { w with sent := w.sent ++ [⟨contractId, owner, spender, true, none⟩] }
  let executed : World := taken.execute w.sent.length true
  have hsent : taken.sent[w.sent.length]? = some ⟨contractId, owner, spender, true, none⟩ := getElem?_concat_length
  have hexec : executed = World.remove
      { taken with sent := taken.sent.set w.sent.length ⟨contractId, owner, spender, true, some true⟩ }
      contractId owner spender := by
    simp only [executed, World.execute, hsent]
    rfl
  have hstat : executed.status w.sent.length {} = .success := by
    have hlt : w.sent.length < taken.sent.length := by simp [taken]
    have hset : executed.sent[w.sent.length]? = some ⟨contractId, owner, spender, true, some true⟩ := by
      rw [hexec]
      exact getElem?_set_self hlt
    simp only [World.status, hset, Option.bind_some, Bool.false_eq_true, if_false, if_true]
  have hpoll : Ends (does lookups) (pollTransactionConfirmation cfg w.sent.length) taken (.ok ()) executed := by
    obtain ⟨attempts, hattempts⟩ : ∃ attempts, maxAttempts cfg = attempts + 1 := by
      unfold maxAttempts
      split
      · exact ⟨1, rfl⟩
      · exact ⟨11, rfl⟩
    rw [pollTransactionConfirmation, hattempts]
    refine Ends.quietly {} rfl (a := ()) (v := taken) rfl ?_
    have hasked : Ends (does lookups) (op (.getTransaction w.sent.length)) taken (.ok TransactionStatus.success) executed := by
      refine Ends.perform ⟨{ events := [.executed w.sent.length true] }, ?_⟩
      rw [← hstat]
      rfl
    exact Ends.bind hasked.attempt (.ret () executed)
  refine ⟨executed, ?_, ?_⟩
  · have hloaded : Ends (does lookups) (op (.loadAccount owner)) w (.ok "1") w := Ends.perform ⟨{}, rfl⟩
    refine Ends.bind hloaded.tryCatch_ok ?_
    rw [invokeContractFunction, hinvoked]
    refine Ends.quietly {} rfl (a := "100") (v := w) rfl ?_
    refine Ends.quietly {} rfl (a := Simulation.success none) (v := w) rfl ?_
    refine Ends.quietly {} rfl (a := ()) (v := w) rfl ?_
    refine Ends.quietly {} rfl (a := ()) (v := w) rfl ?_
    refine Ends.quietly {} rfl (a := (⟨.pending, w.sent.length, ""⟩ : SendResponse)) (v := taken) rfl ?_
    rw [if_neg fun herror => by cases herror]
    exact hpoll
  · intro spender' hne
    rw [hexec]
    exact if_neg fun h => hne h.2.2

def Stays (cfg : Settings) (lookups : String → Lookup) (contractId owner : String) (w w' : World) : Prop :=
  ∀ spender fields, w.grants contractId owner spender = some fields →
    ¬Reported cfg contractId spender (lookups spender) fields → w'.grants contractId owner spender = some fields

theorem ends_revokeGrant (h : Resolved cfg contractId owner spender)
    (hinvoked : cfg.contractError contractId = none) :
    ∃ w', Ends (does lookups) (revokeGrant cfg contractId owner spender) w (.ok ()) w' ∧
      Stays cfg lookups contractId owner w w' := by
  rw [revokeGrant, get_resolved h]
  obtain ⟨existing, hqueried, hfound⟩ := ends_queryGrant (w := w) hinvoked
  cases existing with
  | none => exact ⟨w, hqueried.bind (.ret () w), fun _ _ hgrant _ => hgrant⟩
  | some grant =>
    obtain ⟨w', hsub, hothers⟩ := ends_submitRevocation (w := w) hinvoked
    refine ⟨w', hqueried.bind hsub, ?_⟩
    intro spender' fields' hgrant hunreported
    rw [hothers spender' ?_]
    · exact hgrant
    · rintro rfl
      obtain ⟨fields, hflds, hrep⟩ := hfound grant rfl
      obtain rfl := Option.some.inj (hflds.symm.trans hgrant)
      exact hunreported hrep

theorem ends_revokeEach {spenders : List String} (h : ∀ spender ∈ spenders, Resolved cfg contractId owner spender)
    (hinvoked : cfg.contractError contractId = none) :
    ∃ w', Ends (does lookups) (revokeEach cfg contractId owner spenders) w (.ok ()) w' ∧
      Stays cfg lookups contractId owner w w' := by
  induction spenders generalizing w with
  | nil => exact ⟨w, .ret () w, fun _ _ hgrant _ => hgrant⟩
  | cons first rest ih =>
    have hresolved := h first mem_cons_self
    obtain ⟨w', hfirst, hstays⟩ := ends_revokeGrant (w := w) hresolved hinvoked
    obtain ⟨w'', hrest, hstays'⟩ := ih (w := w') fun spender hmem => h spender (mem_cons_of_mem _ hmem)
    refine ⟨w'', ?_, fun spender fields hgrant hunreported =>
      hstays' spender fields (hstays spender fields hgrant hunreported) hunreported⟩
    rw [revokeEach, revoke_resolved hresolved.owner hresolved.contract hresolved.spender]
    exact hfirst.bind hrest

end

section
variable (cfg : Settings) (contractIdInput : String) (explicitOwner : Option String) (listed : String → Prop)

/-- Inputs that a revocation does not throw for. -/
structure Accepted (contractId owner : String) : Prop where
  owner : resolveOwner cfg explicitOwner = .ok owner
  contract : resolveContractId cfg (some contractIdInput) = .ok contractId
  invoked : cfg.contractError contractId = none
  spenders : ∀ spender, listed spender → validateSpender cfg spender = .ok (trim spender)

def NoneGranted (w : World) : Prop :=
  ∀ contractId owner, resolveOwner cfg explicitOwner = .ok owner →
    resolveContractId cfg (some contractIdInput) = .ok contractId →
    ∀ spender, listed spender → w.grants contractId owner (trim spender) = none

/-- Every grant of a listed spender is reported. -/
def AllReported (lookups : String → Lookup) (w : World) : Prop :=
  ∀ contractId owner, Accepted cfg contractIdInput explicitOwner listed contractId owner →
    ∀ spender, listed spender → Looks cfg lookups contractId owner (trim spender) w

end

section
variable {cfg : Settings} {lookups : String → Lookup} {w : World} {contractIdInput contractId owner : String}
  {explicitOwner : Option String} {spenderInputs : List String}

theorem mapM_validateSpender {spenders : List String}
    (h : spenderInputs.mapM (validateSpender cfg) = .ok spenders) : spenders = spenderInputs.map trim ∧
      ∀ spender ∈ spenderInputs, validateSpender cfg spender = .ok (trim spender) := by
  induction spenderInputs generalizing spenders with
  | nil =>
    cases h
    exact ⟨rfl, fun _ hmem => absurd hmem not_mem_nil⟩
  | cons first rest ih =>
    rw [mapM_cons] at h
    cases hfirst : validateSpender cfg first with
    | error e =>
      rw [hfirst] at h
      cases h
    | ok spender =>
      rw [hfirst] at h
      cases hrest : rest.mapM (validateSpender cfg) with
      | error e =>
        rw [hrest] at h
        cases h
      | ok others =>
        rw [hrest] at h
        cases h
        obtain ⟨rfl, hothers⟩ := ih hrest
        obtain rfl := (validateSpender_ok hfirst).1
        refine ⟨rfl, ?_⟩
        intro spender hmem
        rcases mem_cons.mp hmem with rfl | hmem
        · exact hfirst
        · exact hothers spender hmem

theorem mapM_of_validateSpender (h : ∀ spender ∈ spenderInputs, validateSpender cfg spender = .ok (trim spender)) :
    spenderInputs.mapM (validateSpender cfg) = .ok (spenderInputs.map trim) := by
  induction spenderInputs with
  | nil => rfl
  | cons first rest ih =>
    rw [mapM_cons, h first mem_cons_self, ih fun spender hmem => h spender (mem_cons_of_mem _ hmem)]
    rfl

theorem resolved_of_validated (howner : resolveOwner cfg explicitOwner = .ok owner)
    (hcontr : resolveContractId cfg (some contractIdInput) = .ok contractId)
    {spender : String} (hspender : validateSpender cfg spender = .ok (trim spender)) :
    Resolved cfg contractId owner (trim spender) :=
  ⟨resolveOwner_resolved howner, resolveContractId_resolved hcontr, (validateSpender_ok hspender).2⟩

theorem resolved_listed (howner : resolveOwner cfg explicitOwner = .ok owner)
    (hcontr : resolveContractId cfg (some contractIdInput) = .ok contractId)
    (hspenders : ∀ spender ∈ spenderInputs, validateSpender cfg spender = .ok (trim spender)) :
    ∀ spender ∈ (spenderInputs.map trim).eraseDups, Resolved cfg contractId owner spender := by
  intro spender hmem
  obtain ⟨input, hinput, rfl⟩ := mem_map.mp (mem_eraseDups.mp hmem)
  exact resolved_of_validated howner hcontr (hspenders input hinput)

end

section
variable {cfg : Settings} {lookups : String → Lookup} {w : World} {contractIdInput : String}
  {explicitOwner : Option String}

theorem ends_revokeBatch {contractId owner : String} {spenderInputs : List String}
    (h : Accepted cfg contractIdInput explicitOwner (· ∈ spenderInputs) contractId owner) :
    ∃ w', Ends (does lookups) (revokeBatch cfg contractIdInput spenderInputs explicitOwner) w (.ok ()) w' ∧
      Stays cfg lookups contractId owner w w' := by
  rw [revokeBatch]
  split
  · exact ⟨w, .ret () w, fun _ _ hgrant _ => hgrant⟩
  · rw [h.owner, h.contract, mapM_of_validateSpender h.spenders]
    exact ends_revokeEach (resolved_listed h.owner h.contract h.spenders) h.invoked

/-- **A revocation that returns leaves no grant, however its operations go, exactly where the grant that is there is
reported.** -/
theorem revoke_iff (spenderInput : String) :
    (∀ w', Ends (does lookups) (revoke cfg contractIdInput spenderInput explicitOwner) w (.ok ()) w' →
        NoneGranted cfg contractIdInput explicitOwner (· = spenderInput) w') ↔
      AllReported cfg contractIdInput explicitOwner (· = spenderInput) lookups w := by
  constructor
  · rintro hgone contractId owner hacc spender rfl fields hgrant
    by_contra hunreported
    have hspender := hacc.spenders spender rfl
    have hresolved := resolved_of_validated hacc.owner hacc.contract hspender
    obtain ⟨w', hends, hstays⟩ := ends_revokeGrant (w := w) hresolved hacc.invoked
    rw [← revoke_resolved hacc.owner hacc.contract hspender] at hends
    have hnone := hgone w' hends contractId owner hacc.owner hacc.contract spender rfl
    simp [hstays _ fields hgrant hunreported] at hnone
  · rintro hrep w' hends contractId owner howner hcontr spender rfl
    cases hspender : validateSpender cfg spender with
    | error e =>
      rw [revoke, howner, hcontr, hspender] at hends
      cases hends
    | ok validated =>
      obtain rfl := (validateSpender_ok hspender).1
      rw [revoke_resolved howner hcontr hspender] at hends
      refine ((follows_revokeGrant (resolved_of_validated howner hcontr hspender) ?_).ends hends).1 rfl
      intro hinvoked
      refine hrep contractId owner ⟨howner, hcontr, hinvoked, ?_⟩ spender rfl
      rintro input rfl
      exact hspender

/-- **So it is of a batch.** -/
theorem revokeBatch_iff (spenderInputs : List String) :
    (∀ w', Ends (does lookups) (revokeBatch cfg contractIdInput spenderInputs explicitOwner) w (.ok ()) w' →
        NoneGranted cfg contractIdInput explicitOwner (· ∈ spenderInputs) w') ↔
      AllReported cfg contractIdInput explicitOwner (· ∈ spenderInputs) lookups w := by
  constructor
  · intro hgone contractId owner hacc spender hmem fields hgrant
    by_contra hunreported
    obtain ⟨w', hends, hstays⟩ := ends_revokeBatch (w := w) hacc
    have hnone := hgone w' hends contractId owner hacc.owner hacc.contract spender hmem
    simp [hstays _ fields hgrant hunreported] at hnone
  · intro hrep w' hends contractId owner howner hcontr spender hmem
    rw [revokeBatch, if_neg (ne_nil_of_mem hmem), howner, hcontr] at hends
    cases hval : spenderInputs.mapM (validateSpender cfg) with
    | error e =>
      rw [hval] at hends
      cases hends
    | ok spenders =>
      rw [hval] at hends
      obtain ⟨rfl, hspenders⟩ := mapM_validateSpender hval
      have hfollows := follows_revokeEach (w := w) (resolved_listed howner hcontr hspenders)
        (by
          intro listed hlisted hinvoked
          obtain ⟨input, hinput, rfl⟩ := mem_map.mp (mem_eraseDups.mp hlisted)
          exact hrep contractId owner ⟨howner, hcontr, hinvoked, hspenders⟩ input hinput)
      exact hfollows.ends hends rfl (trim spender) (mem_eraseDups.mpr (mem_map_of_mem hmem))

end

end Delego.Permissions
