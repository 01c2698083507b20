import Delego.Disbursement.Approval

/-! How often a payout is broadcast.

The status of a state tells what became of its submissions as long as there is one at a time (`Tracked`): while one is
under way the state is broadcasting, and once one is recorded as broadcast it stays so. -/
namespace Delego.Disbursement
open Delego.Data List

variable {cfg : Settings}

def Submission.of (ref : Nat) (recorded : Option Outcome) (submission : Submission) : Bool :=
  decide (submission.ref = ref) && decide (submission.recorded = recorded)

def World.underWay (w : World) (ref : Nat) : Nat := w.submissions.countP (Submission.of ref none)

def World.broadcasts (w : World) (ref : Nat) : Nat := w.submissions.countP (Submission.of ref (some .broadcast))

def World.successes (w : World) (ref : Nat) : Nat := w.submissions.countP fun s => decide (s.ref = ref) && s.succeeded

/-- A state is not submitted again while a broadcast is under way, and what is recorded as failed was and will not
be carried out. -/
def Safe (w : World) : Action → Prop
  | .submit _ disbursementId => ∀ found ∈ w.get disbursementId, found.2.status ≠ .broadcasting
  | .succeed i => ∀ s ∈ w.submissions[i]?, s.recorded ≠ some .failed
  | .answer _ i answer => ∀ s ∈ w.submissions[i]?, s.succeeded = true → answer.isOk = true
  | _ => True

instance (w : World) : (action : Action) → Decidable (Safe w action)
  | .submit _ disbursementId => inferInstanceAs (Decidable (∀ found ∈ w.get disbursementId, found.2.status ≠ .broadcasting))
  | .succeed i => inferInstanceAs (Decidable (∀ s ∈ w.submissions[i]?, s.recorded ≠ some .failed))
  | .answer _ i answer => inferInstanceAs (Decidable (∀ s ∈ w.submissions[i]?, s.succeeded = true → answer.isOk = true))
  | .create .. => inferInstanceAs (Decidable True)
  | .collect .. => inferInstanceAs (Decidable True)
  | .expireStale .. => inferInstanceAs (Decidable True)

def SafeRun (cfg : Settings) (w : World) : List Action → Prop
  | [] => True
  | action :: rest => Safe w action ∧ SafeRun cfg (step cfg w action) rest

def SafeRun.decide (cfg : Settings) : (w : World) → (actions : List Action) → Decidable (SafeRun cfg w actions)
  | _, [] => isTrue trivial
  | w, action :: rest =>
    have := SafeRun.decide cfg (step cfg w action) rest
    inferInstanceAs (Decidable (Safe w action ∧ SafeRun cfg (step cfg w action) rest))

instance (w : World) (actions : List Action) : Decidable (SafeRun cfg w actions) :=
  SafeRun.decide cfg w actions

def Tracked (status : DisbursementStatus) (underWay broadcasts : Nat) : Prop :=
  (status = .broadcasting ∧ underWay = 1 ∧ broadcasts = 0) ∨ (status = .broadcast ∧ underWay = 0 ∧ broadcasts = 1) ∨
    (status ≠ .broadcasting ∧ status ≠ .broadcast ∧ underWay = 0 ∧ broadcasts = 0)

/-- Statuses follow what is broadcast. -/
structure Single (w : World) : Prop where
  tracked : ∀ ref state, w.objects[ref]? = some state → Tracked state.status (w.underWay ref) (w.broadcasts ref)
  refs : ∀ s ∈ w.submissions, s.ref < w.objects.length
  recorded : ∀ s ∈ w.submissions, s.succeeded = true → s.recorded ≠ some .failed

theorem single_empty : Single World.empty := by
  refine ⟨?_, ?_, ?_⟩
  · intro ref state h
    simp [World.empty] at h
  · intro s h
    exact absurd h not_mem_nil
  · intro s h
    exact absurd h not_mem_nil

section
variable {w w' : World}

theorem Single.successes_le (h : Single w) (ref : Nat) : w.successes ref ≤ 1 := by
  have hsum : w.successes ref ≤ w.underWay ref + w.broadcasts ref := by
    apply countP_le_add
    intro s hs hcounts
    simp only [Bool.and_eq_true, decide_eq_true_eq] at hcounts
    have hrecd := h.recorded s hs hcounts.2
    cases hoption : s.recorded with
    | none => simp [Submission.of, hcounts.1, hoption]
    | some outcome =>
      cases outcome with
      | broadcast => simp [Submission.of, hcounts.1, hoption]
      | failed => exact absurd hoption hrecd
  cases hobject : w.objects[ref]? with
  | none =>
    -- No submission belongs to a state that there is not.
    have hbeyond : w.objects.length ≤ ref := getElem?_eq_none_iff.mp hobject
    have hzero : w.successes ref = 0 := by
      refine countP_eq_zero.mpr fun s hs => ?_
      have href := h.refs s hs
      simp only [Bool.and_eq_true, decide_eq_true_eq, not_and]
      omega
    omega
  | some state =>
    obtain ⟨-, hway, hdone⟩ | ⟨-, hway, hdone⟩ | ⟨-, -, hway, hdone⟩ := h.tracked ref state hobject
    · omega
    · omega
    · omega

def Apart (state state' : DisbursementState) : Prop :=
  state'.status = state.status ∨ state.status ≠ .broadcasting ∧ state.status ≠ .broadcast ∧
    state'.status ≠ .broadcasting ∧ state'.status ≠ .broadcast

theorem Single.of_objects (h : Single w) (hsubmissions : w'.submissions = w.submissions)
    (hlen : w.objects.length ≤ w'.objects.length)
    (hobjects : ∀ (ref : Nat) (state' : DisbursementState), w'.objects[ref]? = some state' →
      (∃ state, w.objects[ref]? = some state ∧ Apart state state') ∨
      (w.objects.length ≤ ref ∧ state'.status = .collecting)) : Single w' where
  tracked ref state' hstate' := by
    have hway : w'.underWay ref = w.underWay ref := by rw [World.underWay, hsubmissions, World.underWay]
    have hdone : w'.broadcasts ref = w.broadcasts ref := by rw [World.broadcasts, hsubmissions, World.broadcasts]
    rw [hway, hdone]
    obtain ⟨state, hstate, hstat⟩ | ⟨hbeyond, hstat⟩ := hobjects ref state' hstate'
    · have htracked := h.tracked ref state hstate
      obtain hstat | ⟨hway, hdone, hway', hdone'⟩ := hstat
      · rw [hstat]
        exact htracked
      · obtain ⟨hstat, -⟩ | ⟨hstat, -⟩ | ⟨-, -, hcounts⟩ := htracked
        · exact absurd hstat hway
        · exact absurd hstat hdone
        · exact .inr (.inr ⟨hway', hdone', hcounts⟩)
    · have hnone : ∀ recorded, w.submissions.countP (Submission.of ref recorded) = 0 := by
        intro recorded
        refine countP_eq_zero.mpr fun s hs => ?_
        have href := h.refs s hs
        simp only [Submission.of, Bool.and_eq_true, decide_eq_true_eq, not_and]
        omega
      rw [hstat]
      exact .inr (.inr ⟨by decide, by decide, hnone none, hnone (some .broadcast)⟩)
  refs s hs := by
    rw [hsubmissions] at hs
    exact lt_of_lt_of_le (h.refs s hs) hlen
  recorded s hs := by
    rw [hsubmissions] at hs
    exact h.recorded s hs

theorem Single.broadcast (h : Single w) {ref : Nat} {before : DisbursementState}
    (hpre : w.objects[ref]? = some before) (hway : before.status ≠ .broadcasting)
    (hdone : before.status ≠ .broadcast) (state : DisbursementState) (now : Int) :
    Single (broadcastDisbursement now ref state w) where
  tracked other found hfound := by
    have hfound' : (w.objects.set ref (state.broadcasting now))[other]? = some found := hfound
    have hcount : ∀ recorded, (broadcastDisbursement now ref state w).submissions.countP
        (Submission.of other recorded) = w.submissions.countP (Submission.of other recorded) +
          if ref = other ∧ recorded = none then 1 else 0 := by
      intro recorded
      show (w.submissions ++ [_]).countP _ = _
      rw [countP_append, countP_singleton]
      simp [Submission.of, @eq_comm _ none recorded]
    unfold World.underWay World.broadcasts
    rw [hcount, hcount]
    by_cases href : ref = other
    · subst href
      rw [List.getElem?_set_self (List.getElem?_eq_some_iff.mp hpre).1] at hfound'
      cases hfound'
      obtain ⟨hstat, -⟩ | ⟨hstat, -⟩ | ⟨-, -, hzero, hzero'⟩ := h.tracked ref before hpre
      · exact absurd hstat hway
      · exact absurd hstat hdone
      · refine .inl ⟨rfl, ?_, ?_⟩
        · have hzero : w.submissions.countP (Submission.of ref none) = 0 := hzero
          simp [hzero]
        · have hzero' : w.submissions.countP (Submission.of ref (some .broadcast)) = 0 := hzero'
          simp [hzero']
    · rw [getElem?_set_ne href] at hfound'
      simp only [href, false_and, if_false]
      exact h.tracked other found hfound'
  refs s hs := by
    show s.ref < (w.objects.set ref (state.broadcasting now)).length
    rw [length_set]
    obtain hs | hs := mem_append.mp hs
    · exact h.refs s hs
    · obtain rfl := mem_singleton.mp hs
      exact (List.getElem?_eq_some_iff.mp hpre).1
  recorded s hs hsucc := by
    obtain hs | hs := mem_append.mp hs
    · exact h.recorded s hs hsucc
    · obtain rfl := mem_singleton.mp hs
      simp

variable {i : Nat}

theorem Single.succeed (h : Single w) (hsafe : Safe w (.succeed i)) : Single (step cfg w (.succeed i)) := by
  obtain heq | ⟨submission, hsubm, hafter⟩ := succeed_cases cfg w i
  · rw [heq]
    exact h
  · rw [hafter]
    refine ⟨?_, ?_, ?_⟩
    · intro ref state hstate
      have hcount : ∀ recorded, (w.submissions.set i { submission with succeeded := true }).countP
          (Submission.of ref recorded) = w.submissions.countP (Submission.of ref recorded) := by
        intro recorded
        have hset := countP_set_add (p := Submission.of ref recorded) hsubm { submission with succeeded := true }
        have heq : Submission.of ref recorded { submission with succeeded := true } =
            Submission.of ref recorded submission := rfl
        rw [heq] at hset
        omega
      unfold World.underWay World.broadcasts
      rw [hcount, hcount]
      exact h.tracked ref state hstate
    · intro s hs
      obtain hs | rfl := mem_or_eq_of_mem_set hs
      · exact h.refs s hs
      · exact h.refs submission (mem_of_getElem? hsubm)
    · intro s hs hsucc
      obtain hs | rfl := mem_or_eq_of_mem_set hs
      · exact h.recorded s hs hsucc
      · exact hsafe submission hsubm

theorem status_answered (state : DisbursementState) (now : Int) (answer : Answer) :
    (state.answered now answer).status = if answer.isOk then .broadcast else .failed := by
  cases answer with
  | ok result => rfl
  | refused status body => rfl
  | thrown message => rfl

theorem countP_recorded {submissions : List Submission} {submission : Submission}
    (hsubm : submissions[i]? = some submission) (hopen : submission.recorded = none) (outcome : Outcome)
    (ref : Nat) (recorded : Option Outcome) :
    (submissions.set i { submission with recorded := some outcome }).countP (Submission.of ref recorded) +
        (if submission.ref = ref ∧ recorded = none then 1 else 0) =
      submissions.countP (Submission.of ref recorded) +
        if submission.ref = ref ∧ recorded = some outcome then 1 else 0 := by
  have hset := countP_set_add (p := Submission.of ref recorded) hsubm { submission with recorded := some outcome }
  simpa [Submission.of, hopen, @eq_comm _ _ recorded] using hset

theorem tracked_answered {state : DisbursementState} {underWay broadcasts underWay' broadcasts' : Nat}
    (htracked : Tracked state.status underWay broadcasts) (hpos : 0 < underWay) (now : Int) {answer : Answer}
    (hway : underWay' + 1 = underWay) (hdone : broadcasts' = broadcasts + if answer.isOk then 1 else 0) :
    Tracked (state.answered now answer).status underWay' broadcasts' := by
  obtain ⟨-, hone, hnone⟩ | ⟨-, hzero, -⟩ | ⟨-, -, hzero, -⟩ := htracked
  · unfold Tracked
    rw [status_answered]
    cases hok : answer.isOk with
    | true =>
      simp only [hok, if_true] at hdone ⊢
      exact .inr (.inl ⟨trivial, by omega, by omega⟩)
    | false =>
      simp only [hok, Bool.false_eq_true, if_false] at hdone ⊢
      exact .inr (.inr ⟨by decide, by decide, by omega, by omega⟩)
  · omega
  · omega

theorem Single.answer (h : Single w) {now : Int} {answer : Answer} (hsafe : Safe w (.answer now i answer)) :
    Single (step cfg w (.answer now i answer)) := by
  obtain heq | ⟨submission, hsubm, hopen, hafter⟩ := answer_cases cfg w now i answer
  · rw [heq]
    exact h
  · have hmem := mem_of_getElem? hsubm
    have hcount := countP_recorded hsubm hopen (if answer.isOk then .broadcast else .failed)
    rw [hafter]
    refine ⟨?_, ?_, ?_⟩
    · intro ref found hfound
      have hfound' : (w.objects.modify submission.ref (·.answered now answer))[ref]? = some found := hfound
      rw [getElem?_modify] at hfound'
      obtain ⟨before, hpre, rfl⟩ := Option.map_eq_some_iff.mp hfound'
      have htracked := h.tracked ref before hpre
      have hway := hcount ref none
      have hdone := hcount ref (some .broadcast)
      unfold World.underWay World.broadcasts at htracked ⊢
      by_cases href : submission.ref = ref
      · subst href
        have hpos : 0 < w.submissions.countP (Submission.of submission.ref none) :=
          countP_pos_iff.mpr ⟨submission, hmem, by simp [Submission.of, hopen]⟩
        simp only [if_true]
        apply tracked_answered htracked hpos now
        · simpa using hway
        · cases hok : answer.isOk with
          | true => simpa [hok] using hdone
          | false => simpa [hok] using hdone
      · simp only [href, false_and, if_false, Nat.add_zero] at hway hdone ⊢
        rw [hway, hdone]
        exact htracked
    · intro s hs
      show s.ref < (w.objects.modify _ _).length
      rw [length_modify]
      obtain hs | rfl := mem_or_eq_of_mem_set hs
      · exact h.refs s hs
      · exact h.refs submission hmem
    · intro s hs hsucc
      obtain hs | rfl := mem_or_eq_of_mem_set hs
      · exact h.recorded s hs hsucc
      · simp [hsafe submission hsubm hsucc]

theorem apart_expire (now : Int) (state : DisbursementState) : Apart state (state.expire now) := by
  unfold DisbursementState.expire
  split
  · rename_i hstale
    simp only [Bool.and_eq_true, Bool.or_eq_true, decide_eq_true_eq] at hstale
    obtain ⟨hstat | hstat, -⟩ := hstale
    · exact .inr (by simp [hstat])
    · exact .inr (by simp [hstat])
  · exact .inl rfl

theorem Single.expireStale (h : Single w) (now : Int) : Single (expireStaleDisbursements now w) := by
  refine h.of_objects rfl ?_ ?_
  · rw [objects_expireStale, length_mapIdx]
  · intro ref state' hstate'
    rw [objects_expireStale, getElem?_mapIdx] at hstate'
    obtain ⟨state, hstate, rfl⟩ := Option.map_eq_some_iff.mp hstate'
    refine .inl ⟨state, hstate, ?_⟩
    split
    · exact apart_expire now state
    · exact .inl rfl

theorem Single.step (h : Single w) {action : Action} (hsafe : Safe w action) : Single (step cfg w action) := by
  cases action with
  | create now input =>
    obtain heq | ⟨state, hcreated⟩ := create_cases cfg w now input
    · rw [Disbursement.step, heq]
      exact h
    · refine h.of_objects hcreated.submissions ?_ ?_
      · simp [Disbursement.step, hcreated.objects]
      · intro ref found hfound
        have hfound' : (w.objects ++ [state])[ref]? = some found := hcreated.objects ▸ hfound
        obtain hold | ⟨hlast, rfl⟩ := getElem?_concat_cases hfound'
        · exact .inl ⟨found, hold, .inl rfl⟩
        · exact .inr ⟨le_of_eq hlast.symm, hcreated.collecting⟩
  | collect now input =>
    obtain heq | ⟨ref, state, hget, hinput, hafter⟩ := collect_cases cfg w now input
    · rw [Disbursement.step, heq]
      exact h
    · have hobject := (get_some hget).1
      obtain ⟨-, hafter⟩ | hafter := hafter
      · rw [Disbursement.step, hafter]
        obtain hstat | hstat := hinput.collecting
        · exact h.broadcast hobject (by simp [hstat]) (by simp [hstat]) _ now
        · exact h.broadcast hobject (by simp [hstat]) (by simp [hstat]) _ now
      · rw [Disbursement.step, hafter]
        refine h.of_objects rfl (by simp) ?_
        intro other found hfound
        have hfound' : (w.objects.set ref (state.collect cfg now input))[other]? = some found := hfound
        rw [getElem?_set] at hfound'
        split at hfound'
        · rename_i href
          split at hfound'
          · cases hfound'
            exact .inl ⟨state, href ▸ hobject, .inl rfl⟩
          · cases hfound'
        · exact .inl ⟨found, hfound', .inl rfl⟩
  | submit now disbursementId =>
    obtain heq | ⟨ref, state, hget, hdone, -, hafter⟩ := submit_cases cfg w now disbursementId
    · rw [Disbursement.step, heq]
      exact h
    · rw [Disbursement.step, hafter]
      exact h.broadcast (get_some hget).1 (hsafe (ref, state) hget) hdone state now
  | expireStale now => exact h.expireStale now
  | succeed i => exact h.succeed hsafe
  | answer now i answer => exact h.answer hsafe

theorem Single.run (h : Single w) {actions : List Action} (hsafe : SafeRun cfg w actions) :
    Single (run cfg w actions) := by
  induction actions generalizing w with
  | nil => exact h
  | cons action rest ih => exact ih (h.step hsafe.1) hsafe.2

end

/-- In every run in which no disbursement is submitted while it is broadcasting and nothing that
the wallet carries out is recorded as failed, at most one submission of each disbursement is
carried out. -/
theorem sent_once_of_safe (cfg : Settings) {actions : List Action}
    (hsafe : SafeRun cfg World.empty actions) (ref : Nat) :
    (run cfg World.empty actions).successes ref ≤ 1 :=
  (single_empty.run hsafe).successes_le ref

def retried : List Action :=
  [payout none, signedBy 1 "anna", signedBy 2 "ben", .answer 3 0 (.refused 503 "busy"),
    .submit 4 "payout", .succeed 1, .answer 5 1 (.ok "hash")]

theorem sent_once_of_safe_retried : SafeRun sampleSettings World.empty retried ∧
      (run sampleSettings World.empty retried).submissions.length = 2 ∧
      (run sampleSettings World.empty retried).successes 0 ≤ 1 := by
  have hsafe : SafeRun sampleSettings World.empty retried := by decide
  exact ⟨hsafe, by decide, sent_once_of_safe sampleSettings hsafe 0⟩

/-- The payout is submitted by hand while the broadcast that the quorum has started is under way. -/
def submittedTwice : List Action :=
  [payout none, signedBy 1 "anna", signedBy 2 "ben", .submit 3 "payout", .succeed 0,
    .answer 4 0 (.ok "hash"), .succeed 1, .answer 5 1 (.ok "hash")]

theorem sent_twice : (run sampleSettings World.empty submittedTwice).successes 0 = 2 ∧
      ¬ (run sampleSettings World.empty submittedTwice).successes 0 ≤ 1 := by
  refine ⟨by decide, by decide⟩

end Delego.Disbursement
