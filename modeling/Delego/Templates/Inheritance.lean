import Mathlib.Data.List.Perm.Subperm

/-! Ancestry of workflow templates (`orchestrator/src/templates/inheritance.ts`: `getAncestry`).

The registry is given. A new version of a template may close a circle of parents. -/
namespace Delego.Templates
open List

structure WorkflowTemplate where
  id : String
  parentTemplateId : Option String

variable (getById : String → Option WorkflowTemplate) (templateId : String)

/-- The loop, with the chain latest first. -/
def climb : Nat → List String → List WorkflowTemplate → String → Option (Except String (List WorkflowTemplate))
  | 0, _, _, _ => none
  | fuel + 1, visited, chain, currentId =>
    -- no parent, as an empty identifier, ends the loop
    if currentId = "" then some (.ok chain)
    else if currentId ∈ visited then some (.error s!"Circular template inheritance detected involving \"{currentId}\"")
    else match getById currentId with
      | none => some (.error s!"Parent template \"{currentId}\" not found for template \"{(chain.head?.map (·.id)).getD templateId}\"")
      | some current => climb fuel (currentId :: visited) (current :: chain) (current.parentTemplateId.getD "")

def getAncestry (fuel : Nat) : Option (Except String (List WorkflowTemplate)) := climb getById templateId fuel [] [] templateId

/-- A template, its parent, and so on up to one without a parent. -/
inductive Ascends : String → List WorkflowTemplate → Prop where
  | root : Ascends "" []
  | child {id : String} {current : WorkflowTemplate} {above : List WorkflowTemplate} (named : id ≠ "")
      (found : getById id = some current) (parent : Ascends (current.parentTemplateId.getD "") above) :
      Ascends id (current :: above)

variable {getById templateId} {ids visited : List String} {currentId : String} {above above' : List WorkflowTemplate}

theorem Ascends.unique (h : Ascends getById currentId above) (h' : Ascends getById currentId above') : above = above' := by
  induction h generalizing above' with
  | root =>
    cases h' with
    | root => rfl
    | child named => exact absurd rfl named
  | child named found parent ih =>
    cases h' with
    | root => exact absurd rfl named
    | child _ found' parent' =>
      obtain rfl := Option.some.inj (found.symm.trans found')
      rw [ih parent']

/-- Who is visited has more above it than who is to come, so that no one on a way up is met twice. -/
theorem climb_spec (hids : ∀ id, getById id ≠ none → id ∈ ids) {fuel : Nat} (chain : List WorkflowTemplate)
    (hfuel : ids.length < fuel + visited.length) (hnodup : visited.Nodup) (hsub : visited ⊆ ids)
    (hlonger : ∀ id ∈ visited, ∀ above above', Ascends getById currentId above → Ascends getById id above' →
      above.length < above'.length) :
    ∃ result, climb getById templateId fuel visited chain currentId = some result ∧
      ∀ found, result = .ok found ↔ ∃ above, Ascends getById currentId above ∧ found = above.reverse ++ chain := by
  induction fuel generalizing visited chain currentId with
  | zero =>
    have hle := (hnodup.subperm hsub).length_le
    omega
  | succ fuel ih =>
    rw [climb]
    by_cases hroot : currentId = ""
    · subst hroot
      refine ⟨_, if_pos rfl, fun found => ⟨fun h => ⟨[], .root, (Except.ok.inj h).symm⟩, ?_⟩⟩
      rintro ⟨above, habove, rfl⟩
      rw [habove.unique .root]
      rfl
    rw [if_neg hroot]
    by_cases hmem : currentId ∈ visited
    · refine ⟨_, if_pos hmem, fun found => iff_of_false nofun ?_⟩
      rintro ⟨above, habove, -⟩
      exact Nat.lt_irrefl _ (hlonger currentId hmem above above habove habove)
    rw [if_neg hmem]
    cases hget : getById currentId with
    | none =>
      refine ⟨_, rfl, fun found => iff_of_false nofun ?_⟩
      rintro ⟨above, habove, -⟩
      cases habove with
      | root => exact hroot rfl
      | child _ hfound => exact nomatch hget.symm.trans hfound
    | some current =>
      obtain ⟨result, hresult, hiff⟩ := ih (current :: chain) (by rw [length_cons]; omega) (nodup_cons.mpr ⟨hmem, hnodup⟩)
        (cons_subset.mpr ⟨hids currentId (by simp [hget]), hsub⟩) (by
          intro id hid above above' habove habove'
          have hcurrent := Ascends.child hroot hget habove
          rcases mem_cons.mp hid with rfl | hid
          · rw [habove'.unique hcurrent]
            exact Nat.lt_succ_self _
          · exact Nat.lt_of_succ_lt (hlonger id hid _ above' hcurrent habove'))
      refine ⟨result, hresult, fun found => (hiff found).trans ⟨?_, ?_⟩⟩
      · rintro ⟨above, habove, rfl⟩
        exact ⟨_, .child hroot hget habove, by simp⟩
      · rintro ⟨above, habove, rfl⟩
        cases habove with
        | root => exact absurd rfl hroot
        | child _ hfound hparent =>
          obtain rfl := Option.some.inj (hget.symm.trans hfound)
          exact ⟨_, hparent, by simp⟩

/-- **In a registry of finitely many templates the loop ends, and gives a chain exactly if the parents end.** -/
theorem getAncestry_iff (hids : ∀ id, getById id ≠ none → id ∈ ids) {fuel : Nat} (hfuel : ids.length < fuel) :
    ∃ result, getAncestry getById templateId fuel = some result ∧
      ∀ chain, result = .ok chain ↔ Ascends getById templateId chain.reverse := by
  obtain ⟨result, hresult, hiff⟩ := climb_spec hids [] hfuel nodup_nil (nil_subset _) nofun
  refine ⟨result, hresult, fun chain => (hiff chain).trans ⟨?_, fun h => ⟨_, h, by simp⟩⟩⟩
  rintro ⟨above, habove, rfl⟩
  simpa using habove

def circle (id : String) : Option WorkflowTemplate :=
  if id = "escrow" then some ⟨id, some "purchase"⟩ else if id = "purchase" then some ⟨id, some "escrow"⟩ else none

theorem circle_refused :
    getAncestry circle "escrow" 3 = some (.error "Circular template inheritance detected involving \"escrow\"") ∧
      ∀ chain, ¬Ascends circle "escrow" chain := by
  have hcircle : getAncestry circle "escrow" 3 =
      some (.error "Circular template inheritance detected involving \"escrow\"") := rfl
  have hids : ∀ id, circle id ≠ none → id ∈ ["escrow", "purchase"] := by grind [circle]
  obtain ⟨result, hresult, hiff⟩ := @getAncestry_iff circle "escrow" ["escrow", "purchase"] hids 3 (by decide)
  obtain rfl := Option.some.inj (hcircle.symm.trans hresult)
  refine ⟨hcircle, fun chain h => ?_⟩
  cases (hiff chain.reverse).mpr (by simpa using h)

end Delego.Templates
