import Delego.Process.OneAtATime
import Delego.SigningSession.Quorum
import Mathlib.Algebra.Order.Ring.Rat
import Mathlib.Data.List.Dedup
import Mathlib.Data.List.Perm.Subperm

/-! How often the submission of a session succeeds.

A session that is no longer collecting stays so, and one that collects has not met its threshold: so no call is under
way to submit it. -/
namespace Delego.SigningSession
open Delego.Process Delego.Data List Function

/-- The session is marked as submitted. -/
def Marked (w : World) (id : String) : Prop := ∃ session, w.session id = some session ∧ session.status = .submitted

/-- The invariant: one submission is under way, or one has succeeded and is marked. -/
structure Single (w : World) (tr : SessionTrace) (φ : Nat → Phase) : Prop where
  single : OneAtATime Phase.Submits (fun φ id => φ = .answered id) (Marked w) w.successes φ
  fresh : ∀ {id session}, w.session id = some session → session.status = .collecting →
    session.reached = false ∧ ∀ i, ¬(φ i).Submits id
  came : ∀ {i id}, (φ i).Submits id →
    ∃ e ∈ tr, e.runner = i ∧ ∃ session, goesOn e.op e.result = some session ∧ session.id = id

section
variable {w w' : World} {o : Op} {ch : Choice} {id : String} {session' : MultisigSession} {session : MultisigSession}

theorem reached_prune (now : Int) (h : session.reached = false) :
    (session.pruneExpiredSignatures now).reached = false := by
  simp only [MultisigSession.reached, decide_eq_false_iff_not] at h ⊢
  intro hreach
  refine h (hreach.trans ?_)
  exact_mod_cast length_filter_le _ _

/-- What becomes of a session in one operation. -/
inductive Becomes (id : String) (session : MultisigSession) : Op → MultisigSession → Prop where
  | same {o : Op} {session' : MultisigSession} (status : session'.status = session.status)
      (reached : session.reached = false → session'.reached = false) : Becomes id session o session'
  | collect (signature : PartialSignature) : Becomes id session (.collect id signature) (session.collect signature)
  | finish (xdr result : Option String) : Becomes id session (.finish id xdr result) (session.finish xdr result)
  | fail (reason : String) : Becomes id session (.fail id reason) (session.fail reason)

theorem Becomes.refl (session : MultisigSession) : Becomes id session o session := .same rfl fun h => h

theorem becomes_change {f : MultisigSession → MultisigSession} {id' : String} (hf : ∀ s, SameTerms s (f s))
    (hbecomes : ∀ s, Becomes id' s o (f s)) (h : (w.change id' f).session id = some session') :
    ∃ session, w.session id = some session ∧ Becomes id session o session' := by
  rw [session_change hf] at h
  split at h
  · rename_i hid
    subst hid
    obtain ⟨session, hsess, rfl⟩ := Option.map_eq_some_iff.mp h
    exact ⟨session, hsess, hbecomes session⟩
  · exact ⟨session', h, .refl session'⟩

theorem becomes_answer {a : o.Reply} (h : answer o ch w = .ok (a, w')) (hsess : w'.session id = some session') :
    ∃ session, w.session id = some session ∧ Becomes id session o session' := by
  cases o with
  | get | sign | save | submitResult | now =>
    cases h
    exact ⟨session', hsess, .refl session'⟩
  | examineSignature id' now | examineSubmission id' now =>
    simp only [answer, answer.examine] at h
    split at h
    · cases h
    · cases h
      exact becomes_change (sameTerms_prune now) (fun _ => .same rfl (reached_prune now)) hsess
  | collect id' signature =>
    simp only [answer] at h
    split at h
    · cases h
    · cases h
      exact becomes_change (sameTerms_collect signature) (fun _ => .collect signature) hsess
  | signersOf id' =>
    simp only [answer] at h
    split at h
    · cases h
    · cases h
      exact ⟨session', hsess, .refl session'⟩
  | submit id' xdr =>
    simp only [answer] at h
    split at h
    · cases h
    · cases h
      exact becomes_change (w := w) (sameTerms_attach xdr) (fun _ => .same rfl fun h => h) hsess
  | finish id' xdr result =>
    cases h
    exact becomes_change (sameTerms_finish xdr result) (fun _ => .finish xdr result) hsess
  | fail id' reason =>
    cases h
    exact becomes_change (sameTerms_fail reason) (fun _ => .fail reason) hsess

theorem becomes_perform (hsess : (perform o ch w).2.session id = some session') :
    ∃ session, w.session id = some session ∧ Becomes id session o session' := by
  have hkept : ∀ session', (perform o ch w).2.session id = some session' →
      ∃ session, w.session id = some session ∧ Becomes id session o session' :=
    Fate.deliver_kept (P := fun w' : World => ∀ session', w'.session id = some session' →
      ∃ session, w.session id = some session ∧ Becomes id session o session')
      (fun session' hs => ⟨session', hs, .refl session'⟩) fun _ _ hans _ hs => becomes_answer hans hs
  exact hkept session' hsess

theorem successes_perform (h : ∀ id xdr, o ≠ .submitResult id xdr) : (perform o ch w).2.successes = w.successes := by
  refine Fate.deliver_kept (P := fun w' : World => w'.successes = w.successes) rfl ?_
  intro a w' hans
  cases o with
  | submitResult id xdr => exact absurd rfl (h _ _)
  | get | sign | save | now | finish | fail =>
    cases hans
    rfl
  | examineSignature | examineSubmission =>
    simp only [answer, answer.examine] at hans
    split at hans
    · cases hans
    · cases hans
      rfl
  | collect | signersOf | submit =>
    simp only [answer] at hans
    split at hans
    · cases hans
    · cases hans
      rfl

theorem collecting_collect {signature : PartialSignature}
    (h : (session.collect signature).status = .collecting) : (session.collect signature).reached = false := by
  simp only [MultisigSession.collect] at h ⊢
  split at h
  · cases h
  · rename_i hreach
    rw [if_neg hreach]
    simpa using hreach

end

section
variable {w : World} {tr : SessionTrace} {φ : Nat → Phase} {i : Nat} {o : Op} {ch : Choice}

def Alone (φ : Nat → Phase) (r : sessionSignature.Result o) : Prop :=
  ∀ session, goesOn o r = some session → ∀ j, ¬(φ j).Submits session.id

theorem Single.goes (h : Single w tr φ) (hunsigned : Unsigned w o)
    (hgoes : goesOn o (perform o ch w).1 = some session) :
    session.status ≠ .collecting ∧ ∀ before, w.session session.id = some before → before.status ≠ .submitted := by
  obtain ⟨hdecides, hfound⟩ := goesOn_session hgoes
  obtain ⟨before, hpre, hbecomes⟩ := becomes_perform hfound
  cases o with
  | examineSubmission id now =>
    obtain rfl : id = session.id := Option.some.inj hdecides
    cases hbecomes with
    | same hstat hreach =>
      have hpasses : session.status ≠ .submitted ∧ session.short = false := by
        simp only [perform, fateOf, answer, answer.examine, hpre, Fate.deliver, Fate.carry, goesOn] at hgoes
        split at hgoes
        · rename_i hpasses
          cases hgoes
          exact hpasses
        · cases hgoes
      constructor
      · intro hcoll
        obtain ⟨hbelow, -⟩ := h.fresh hpre (hstat ▸ hcoll)
        have hshort := hpasses.2
        simp [MultisigSession.short, hcoll, hreach hbelow] at hshort
      · intro other hother
        obtain rfl : before = other := Option.some.inj (hpre.symm.trans hother)
        exact hstat ▸ hpasses.1
  | collect id signature =>
    obtain rfl : id = session.id := Option.some.inj hdecides
    have hcoll := (hunsigned _ signature rfl before hpre).1
    constructor
    · intro hstat
      simp only [perform, fateOf, answer, hpre, Fate.deliver, Fate.carry, goesOn] at hgoes
      split at hgoes
      · rename_i hreach
        cases hgoes
        simp [collecting_collect hstat] at hreach
      · cases hgoes
    · intro other hother
      obtain rfl : before = other := Option.some.inj (hpre.symm.trans hother)
      rw [hcoll]
      intro hsubmitted
      cases hsubmitted
  | _ => cases hdecides

variable {id : String}

theorem next_answered {r : sessionSignature.Result o} (ha : (Phase.answered id).Allows o) :
    (Phase.answered id).next o r = .ready ∧ ∃ xdr result, o = .finish id xdr result := by
  cases o with
  | finish id' xdr result =>
    cases ha
    exact ⟨rfl, xdr, result, rfl⟩
  | _ => exact ha.elim

theorem opened_of_fail {ψ : Phase} {id reason : String} (ha : ψ.Allows (.fail id reason)) :
    ψ = .entered id ∨ ψ = .awaiting id := by
  cases ψ with
  | entered id' =>
    cases ha
    exact .inl rfl
  | awaiting id' =>
    cases ha
    exact .inr rfl
  | _ => exact ha.elim

variable {j : Nat}

theorem Single.submits_cases (ha : (φ i).Allows o)
    (hj : (update φ i ((φ i).next o (perform o ch w).1) j).Submits id) :
    (φ j).Submits id ∨ j = i ∧ ∃ session, goesOn o (perform o ch w).1 = some session ∧ session.id = id := by
  by_cases hji : j = i
  · subst hji
    rw [update_self] at hj
    rcases next_submits ha hj with ⟨hpre, -⟩ | ⟨hdecides, -, session, hgoes⟩
    · exact .inl hpre
    · exact .inr ⟨rfl, session, hgoes, Option.some.inj ((goesOn_session hgoes).1.symm.trans hdecides)⟩
  · rw [update_of_ne hji] at hj
    exact .inl hj

theorem Single.came_step (h : Single w tr φ) (ha : (φ i).Allows o)
    (hj : (update φ i ((φ i).next o (perform o ch w).1) j).Submits id) :
    ∃ e ∈ (⟨i, o, (perform o ch w).1⟩ :: tr : SessionTrace), e.runner = j ∧
      ∃ session, goesOn e.op e.result = some session ∧ session.id = id := by
  rcases submits_cases ha hj with hj | ⟨rfl, hgoes⟩
  · obtain ⟨e, he, hrest⟩ := h.came hj
    exact ⟨e, mem_cons_of_mem _ he, hrest⟩
  · exact ⟨_, mem_cons_self, rfl, hgoes⟩

theorem Single.fresh_step (h : Single w tr φ) (ha : (φ i).Allows o) (hunsigned : Unsigned w o)
    {session' : MultisigSession} (hsess : (perform o ch w).2.session id = some session')
    (hcoll : session'.status = .collecting) :
    session'.reached = false ∧ ∀ j, ¬(update φ i ((φ i).next o (perform o ch w).1) j).Submits id := by
  obtain ⟨session, hpre, hbecomes⟩ := becomes_perform hsess
  have hwas : session.status = .collecting ∧ session'.reached = false := by
    cases hbecomes with
    | same hstat hreach =>
      have hwas : session.status = .collecting := hstat ▸ hcoll
      exact ⟨hwas, hreach (h.fresh hpre hwas).1⟩
    | collect signature => exact ⟨(hunsigned id signature rfl session hpre).1, collecting_collect hcoll⟩
    | finish xdr result => cases hcoll
    | fail reason => cases hcoll
  refine ⟨hwas.2, fun j hj => ?_⟩
  rcases submits_cases ha hj with hj | ⟨rfl, found, hgoes, rfl⟩
  · exact (h.fresh hpre hwas.1).2 j hj
  · -- what a call goes on to submit no longer collects
    have hfound := (goesOn_session hgoes).2
    obtain rfl : found = session' := Option.some.inj (hfound.symm.trans hsess)
    exact (h.goes hunsigned hgoes).1 hcoll

theorem awaiting_of_submitResult {ψ : Phase} {id xdr : String} (ha : ψ.Allows (.submitResult id xdr)) :
    ψ = .awaiting id := by
  cases ψ with
  | awaiting id' =>
    cases ha
    rfl
  | _ => exact ha.elim

/-- Either nothing has succeeded, or the call has been told that it has. -/
theorem successes_step (ha : (φ i).Allows o)
    (hlearns : ∀ id xdr, o = .submitResult id xdr → ∀ message, ch.fate ≠ .lost message) :
    (perform o ch w).2.successes = w.successes ∨ ∃ id, (perform o ch w).2.successes = w.successes ++ [id] ∧
      φ i = .awaiting id ∧ (φ i).next o (perform o ch w).1 = .answered id := by
  by_cases hans : ∃ id xdr, o = .submitResult id xdr
  · obtain ⟨id, xdr, rfl⟩ := hans
    have hawaiting := awaiting_of_submitResult ha
    cases hfate : ch.fate with
    | done =>
      refine .inr ⟨id, ?_, hawaiting, ?_⟩
      · simp [perform, fateOf, answer, hfate, Fate.deliver, Fate.carry]
      · simp [hawaiting, perform, fateOf, answer, hfate, Fate.deliver, Fate.carry, Phase.next]
    | refused message => exact .inl (by simp [perform, fateOf, answer, hfate, Fate.deliver, Fate.carry])
    | lost message => exact absurd hfate (hlearns id xdr rfl message)
  · exact .inl (successes_perform fun id xdr ho => hans ⟨id, xdr, ho⟩)

/-- A session that is marked as submitted stays so. -/
theorem Single.marked_step (h : Single w tr φ) (ha : (φ i).Allows o) (hunsigned : Unsigned w o)
    (hid : id ∈ w.successes) (hmarked : Marked w id) : Marked (perform o ch w).2 id := by
  obtain ⟨session, hsess, hsubmitted⟩ := hmarked
  obtain ⟨session', hsess', -⟩ := (onTerms_perform o ch w).kept hsess
  obtain ⟨before, hpre, hbecomes⟩ := becomes_perform hsess'
  obtain rfl : before = session := Option.some.inj (hpre.symm.trans hsess)
  refine ⟨session', hsess', ?_⟩
  cases hbecomes with
  | same hstat hreach => exact hstat.trans hsubmitted
  | collect signature =>
    rw [(hunsigned id signature rfl before hsess).1] at hsubmitted
    cases hsubmitted
  | finish xdr result => rfl
  | fail reason =>
    rcases opened_of_fail ha with hφ | hφ
    · exact absurd hid (h.single.opened (i := i) (.inl hφ) (by rw [hφ]; nofun))
    · exact absurd hid (h.single.opened (i := i) (.inr (.inl hφ)) (by rw [hφ]; nofun))

theorem Single.single_step (h : Single w tr φ) (hq : Quorate w tr φ) (ha : (φ i).Allows o) (hunsigned : Unsigned w o)
    (halone : Alone φ (perform o ch w).1)
    (hlearns : ∀ id xdr, o = .submitResult id xdr → ∀ message, ch.fate ≠ .lost message) :
    OneAtATime Phase.Submits (fun φ id => φ = .answered id) (Marked (perform o ch w).2)
      (perform o ch w).2.successes (update φ i ((φ i).next o (perform o ch w).1)) := by
  refine h.single.step (fun id hid => ?_) (fun id => h.marked_step ha hunsigned) (fun id hid hansd => .inl ?_) ?_
  · rcases next_submits ha hid with ⟨hpre, -⟩ | ⟨hdecides, -, session, hgoes⟩
    · refine .inl ⟨hpre, fun hansd => ?_⟩
      rw [hansd] at ha hid
      rw [(next_answered ha).1] at hid
      exact absurd hid (ends_ready id)
    · obtain rfl : session.id = id := Option.some.inj ((goesOn_session hgoes).1.symm.trans hdecides)
      refine .inr ⟨?_, halone session hgoes⟩
      rintro ⟨before, hpre, hsubmitted⟩
      exact (h.goes hunsigned hgoes).2 before hpre hsubmitted
  · -- the call that has been answered marks the session
    obtain ⟨-, current, -, hcur, -⟩ := hq.counted hid
    rw [hansd] at ha
    obtain ⟨-, xdr, result, rfl⟩ := next_answered (r := (perform o ch w).1) ha
    refine ⟨current.finish xdr result, ?_, rfl⟩
    change (w.change id _).session id = _
    rw [session_change (sameTerms_finish xdr result), if_pos rfl, hcur, Option.map_some]
  · rcases successes_step ha hlearns with heq | ⟨id, hsuccesses, hawaiting, hnext⟩
    · exact .inl heq
    · rw [hnext, hawaiting]
      exact .inr ⟨id, hsuccesses, .inr (.inl rfl), nofun, .inr (.inr rfl), rfl⟩

theorem Single.step (h : Single w tr φ) (hq : Quorate w tr φ) (ha : (φ i).Allows o) (hunsigned : Unsigned w o)
    (halone : Alone φ (perform o ch w).1)
    (hlearns : ∀ id xdr, o = .submitResult id xdr → ∀ message, ch.fate ≠ .lost message) :
    Single (perform o ch w).2 (⟨i, o, (perform o ch w).1⟩ :: tr)
      (update φ i ((φ i).next o (perform o ch w).1)) :=
  ⟨h.single_step hq ha hunsigned halone hlearns, h.fresh_step ha hunsigned, h.came_step ha⟩

theorem Quorate.passes (h : Quorate w tr φ) (clock : Int) : Quorate { w with clock := clock } tr φ :=
  ⟨h.good, h.snapshots, h.examined, h.signed, h.counted, h.submissions⟩

theorem Single.passes (h : Single w tr φ) (clock : Int) : Single { w with clock := clock } tr φ :=
  ⟨h.single, h.fresh, h.came⟩

end

section
variable {cfg : Rat → String} {p : SessionPool} {φ : Nat → Phase} {i : Nat} {o : Op} {ch : Choice}

theorem unsigned_of_inOrder (h : inOrder p i o ch = true) : Unsigned p.world o := by
  rintro id signature rfl session hsess
  simp only [inOrder, Bool.and_eq_true, hsess, Option.all_some, decide_eq_true_eq, all_eq_true] at h
  exact h.2

theorem stillCounted_of_inOrder (h : inOrder p i o ch = true) : StillCounted p.world p.trace i o := by
  rintro id xdr rfl session hcnt
  simp only [inOrder, Bool.and_eq_true, hcnt, Option.all_some, decide_eq_true_eq, all_eq_true] at h
  refine ⟨h.2.1, fun sig hsig => ?_⟩
  obtain ⟨hmem, htime⟩ := h.2.2 sig hsig
  refine ⟨?_, htime⟩
  intro current hcur
  rw [hcur, Option.all_some, decide_eq_true_eq] at hmem
  exact hmem

theorem learns_of_inOrder (h : inOrder p i o ch = true) :
    ∀ id xdr, o = .submitResult id xdr → ∀ message, ch.fate ≠ .lost message := by
  rintro id xdr rfl message hfate
  simp only [inOrder, Bool.and_eq_true, hfate] at h
  cases h.2

theorem alone_of_inOrder (ht : Tracked submitting .ready (fun w tr φ => Quorate w tr φ ∧ Single w tr φ) p φ)
    (h : inOrder p i o ch = true) : Alone φ (perform o ch p.world).1 := by
  intro session hgoes j hj
  obtain ⟨e, he, rfl, other, hother, hid⟩ := ht.holds.2.came hj
  simp only [inOrder, alone, Bool.and_eq_true, hgoes, all_eq_true] at h
  have hover := h.1 e he
  simp only [hother, hid, ne_eq, not_true_eq_false, decide_false, Bool.false_or] at hover
  cases hrun : p.runners[e.runner]? with
  | none =>
    have hready := ht.fresh e.runner (getElem?_eq_none_iff.mp hrun)
    rw [hready] at hj
    exact ends_ready _ hj
  | some program =>
    rw [hrun, Option.all_some] at hover
    exact ht.ends hrun hover _ hj

theorem inductive_quorate : Inductive (system cfg) submitting .ready
    (fun p a => onStep inOrder p a = true) Quorate where
  body := fun _ call _ => follows_body call
  arrive := by
    intro p φ call w _ ht hw
    cases hw
    exact ht.holds
  drift := by
    intro p φ e _ ht
    cases e with
    | passes ms => exact ht.holds.passes _
  answers := fun p _ _ o ch _ _ _ _ => ⟨_, certain_perform o ch p.world, rfl⟩
  step := by
    rintro p φ i o ch _ hg hp ht ha ⟨-, rfl⟩
    have horder := onStep_pending hg hp
    exact ht.holds.step ha (unsigned_of_inOrder horder) (stillCounted_of_inOrder horder)

theorem inductive_single : Inductive (system cfg) submitting .ready
    (fun p a => onStep inOrder p a = true) fun w tr φ => Quorate w tr φ ∧ Single w tr φ where
  body := inductive_quorate.body
  arrive := by
    intro p φ call w _ ht hw
    cases hw
    exact ht.holds
  drift := by
    intro p φ e _ ht
    cases e with
    | passes ms => exact ⟨ht.holds.1.passes _, ht.holds.2.passes _⟩
  answers := fun p _ _ o ch _ _ _ _ => ⟨_, certain_perform o ch p.world, rfl⟩
  step := by
    rintro p φ i o ch _ hg hp ht ha ⟨-, rfl⟩
    have horder := onStep_pending hg hp
    obtain ⟨hquorate, hsingle⟩ := ht.holds
    exact ⟨hquorate.step ha (unsigned_of_inOrder horder) (stillCounted_of_inOrder horder),
      hsingle.step hquorate ha (unsigned_of_inOrder horder) (alone_of_inOrder ht horder) (learns_of_inOrder horder)⟩

/-- Sessions as they are created. -/
structure Created (w : World) : Prop where
  sessions : ∀ session ∈ w.sessions, session.signatures = [] ∧ session.status = .collecting ∧ 1 ≤ session.threshold
  submissions : w.submissions = []
  successes : w.successes = []

theorem Created.single {w : World} (h : Created w) : Single w [] fun _ => .ready := by
  refine ⟨h.successes ▸ .start ends_ready, fun {id session} hsess _ => ?_, fun hi => absurd hi (ends_ready _)⟩
  obtain ⟨hnone, -, hthr⟩ := h.sessions session (lookup_mem hsess)
  refine ⟨?_, fun _ => ends_ready id⟩
  simp only [MultisigSession.reached, hnone, decide_eq_false_iff_not, length_nil, Nat.cast_zero, not_le]
  exact lt_of_lt_of_le one_pos hthr

end

def opened : World where
  clock := 0
  sessions := [⟨"mss-1", "base", ["G1", "G2"], 2, [], .collecting, 0, none, none, none⟩]
  submissions := []
  successes := []

theorem created_opened : Created opened where
  sessions := by
    intro session hsess
    rw [mem_singleton.mp hsess]
    exact ⟨rfl, rfl, by decide⟩
  submissions := rfl
  successes := rfl

def signature (signer : String) : AddSignatureInput where
  sessionId := "mss-1"
  signer := signer

def number (_ : Rat) : String := "2"

def goes (i steps : Nat) : List (Action (system number)) := replicate steps (.step i { text := "signed" })

def signs (signer : String) : Action (system number) := .call (.collectPartialSignature (signature signer) true)

end Delego.SigningSession
