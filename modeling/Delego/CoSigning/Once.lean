import Delego.CoSigning.Envelopes
import Delego.Process.OneAtATime

/-! How often the submission of a session succeeds, and what an expired one becomes.

Both entry points submit a session that is ready, and nothing says that a call is about to; while it waits for the
network the session can be expired, and is marked as submitted all the same (`submitted_twice`). -/
namespace Delego.CoSigning
open Delego.Process Delego.Data List Function

def allOver (p : CoSigningPool) (id : String) : Bool :=
  p.trace.all fun e => decide (goesOn e.op e.result ≠ some id) || (p.runners[e.runner]?).all Program.done

/-- One call at a time goes on to submit a session, and none is under way when it is expired. No answer to a
submission that is carried out is lost. -/
def inOrder (sdk : Stellar) (p : CoSigningPool) (_ : Nat) (o : Op) (ch : Choice) : Bool :=
  (goesOn o (perform sdk o ch p.world).1).all (allOver p) &&
    (lapses o (perform sdk o ch p.world).1).all (allOver p) &&
    match o with
    | .submitResult _ => match ch.fate with
      | .lost _ => false
      | _ => true
    | _ => true

section
variable {sdk : Stellar} {id : String} {session session' : StoredCoSigningSession} {o : Op}
  {r : coSigningSignature.Result o}

theorem markExpired_closed (h : session.isOpen = false) : session.markExpired = session := by
  rw [StoredCoSigningSession.markExpired, if_neg (by simp [h])]

theorem expire_closed {now : Int} (h : session.isOpen = false) : session.expire now = session := by
  rw [StoredCoSigningSession.expire, if_neg (by simp [h])]

theorem submitted_closed (h : session.status = .submitted) : session.isOpen = false := by
  simp [StoredCoSigningSession.isOpen, h]

theorem expired_closed (h : session.status = .expired) : session.isOpen = false := by
  simp [StoredCoSigningSession.isOpen, h]

theorem Becomes.expired (h : Becomes sdk id session o r session') (hexp : session'.status = .expired) :
    session.status = .expired ∨ lapses o r = some id := by
  cases h with
  | same same status aside => exact .inl (status ▸ hexp)
  | takes takes =>
    cases takes with
    | lapsed =>
      cases hopen : session.isOpen with
      | true => exact .inr rfl
      | false => exact .inl (markExpired_closed hopen ▸ hexp)
    | refused message => exact .inl hexp
    | taken collecting authorised new valid outcome =>
      rcases outcome with ⟨-, -, rfl⟩ | ⟨-, rfl⟩
      · cases hexp
      · exact .inl hexp
  | enters enters =>
    cases enters with
    | lapsed =>
      cases hopen : session.isOpen with
      | true => exact .inr rfl
      | false => exact .inl (markExpired_closed hopen ▸ hexp)
    | already => exact .inl hexp
    | refused message => exact .inl hexp
    | thrown message unsubmitted unexpired => cases hexp
    | launched unsubmitted unexpired reached combined =>
      obtain ⟨-, -, hstat⟩ := launch_session combined
      rw [hexp] at hstat
      split at hstat <;> cases hstat
  | launches launches =>
    obtain ⟨-, -, hstat⟩ := launch_session launches
    rw [hexp] at hstat
    split at hstat
    · exact .inl hstat.symm
    · cases hstat
  | finishes result => cases hexp
  | expires now =>
    cases hopen : session.isOpen with
    | true => exact .inr rfl
    | false => exact .inl (expire_closed hopen ▸ hexp)

theorem Becomes.submitted (h : Becomes sdk id session o r session') (hsub : session.status = .submitted) :
    session'.status = .submitted := by
  have hclosed := submitted_closed hsub
  cases h with
  | same same status aside => exact status.trans hsub
  | takes takes =>
    cases takes with
    | lapsed => rw [markExpired_closed hclosed, hsub]
    | refused message => exact hsub
    | taken collecting authorised new valid outcome =>
      rw [hsub] at collecting
      cases collecting
  | enters enters =>
    cases enters with
    | lapsed => rw [markExpired_closed hclosed, hsub]
    | already => exact hsub
    | refused message => exact hsub
    | thrown message unsubmitted unexpired => exact absurd hsub unsubmitted
    | launched unsubmitted unexpired reached combined => exact absurd hsub unsubmitted
  | launches launches =>
    obtain ⟨-, -, hstat⟩ := launch_session launches
    rw [hstat, hsub, ite_self]
  | finishes result => rfl
  | expires now => rw [expire_closed hclosed, hsub]

theorem Becomes.stays_expired (h : Becomes sdk id session o r session') (hexp : session.status = .expired)
    (hlaunch : ∀ submit, o ≠ .launch id submit) (hfinish : ∀ result, o ≠ .finish id result) :
    session'.status = .expired := by
  have hclosed := expired_closed hexp
  cases h with
  | same same status aside => exact status.trans hexp
  | takes takes =>
    cases takes with
    | lapsed => rw [markExpired_closed hclosed, hexp]
    | refused message => exact hexp
    | taken collecting authorised new valid outcome =>
      rw [hexp] at collecting
      cases collecting
  | enters enters =>
    cases enters with
    | lapsed => rw [markExpired_closed hclosed, hexp]
    | already => exact hexp
    | refused message => exact hexp
    | thrown message unsubmitted unexpired => exact absurd hexp unexpired
    | launched unsubmitted unexpired reached combined => exact absurd hexp unexpired
  | launches launches => exact absurd rfl (hlaunch _)
  | finishes result => exact absurd rfl (hfinish _)
  | expires now => rw [expire_closed hclosed, hexp]

theorem Becomes.goes (h : Becomes sdk id session o r session') (hgoes : goesOn o r = some id) :
    session.status ≠ .submitted ∧ session'.status ≠ .expired := by
  cases h with
  | same same status aside => exact absurd hgoes aside
  | takes takes =>
    cases takes with
    | lapsed => cases hgoes
    | refused message => cases hgoes
    | taken collecting authorised new valid outcome =>
      rcases outcome with ⟨-, -, rfl⟩ | ⟨rfl, rfl⟩
      · exact ⟨by rw [collecting]; nofun, nofun⟩
      · cases hgoes
  | enters enters =>
    cases enters with
    | launched unsubmitted unexpired reached combined =>
      obtain ⟨-, -, hstat⟩ := launch_session combined
      refine ⟨unsubmitted, fun hexp => ?_⟩
      rw [hexp] at hstat
      split at hstat <;> cases hstat
    | _ => cases hgoes
  | launches launches => cases hgoes
  | finishes result => cases hgoes
  | expires now => cases hgoes

theorem Becomes.ready (h : Becomes sdk id session o r session') (hready : session.status = .ready)
    (hgoes : goesOn o r ≠ some id) (hlapses : lapses o r ≠ some id) (hlaunch : ∀ submit, o ≠ .launch id submit)
    (hfinish : ∀ result, o ≠ .finish id result) : session'.status = .ready := by
  have hopen : session.isOpen = true := by simp [StoredCoSigningSession.isOpen, hready]
  cases h with
  | same same status aside => exact status.trans hready
  | takes takes =>
    cases takes with
    | lapsed =>
      rw [hopen] at hlapses
      exact absurd rfl hlapses
    | refused message => exact hready
    | taken collecting authorised new valid outcome =>
      rw [hready] at collecting
      cases collecting
  | enters enters =>
    cases enters with
    | lapsed =>
      rw [hopen] at hlapses
      exact absurd rfl hlapses
    | already => exact hready
    | refused message => exact hready
    | thrown message unsubmitted unexpired => rfl
    | launched unsubmitted unexpired reached combined => exact absurd rfl hgoes
  | launches launches => exact absurd rfl (hlaunch _)
  | finishes result => exact absurd rfl (hfinish _)
  | expires now =>
    rw [hopen] at hlapses
    exact absurd rfl hlapses

end

/-! ### One call at a time -/

/-- The session is marked as submitted. -/
def Marked (w : World) (id : String) : Prop := ∃ session, w.session id = some session ∧ session.status = .submitted

/-- The invariant: one submission is under way, or one has succeeded and is marked. -/
structure Single (w : World) (tr : CoSigningTrace) (φ : Nat → Phase) : Prop where
  single : OneAtATime Phase.Submits (fun φ id => φ = .answered id) (Marked w) w.successes φ
  came : ∀ {i id}, (φ i).Submits id → ∃ e ∈ tr, e.runner = i ∧ goesOn e.op e.result = some id
  found : ∀ {i id}, (φ i).Submits id → ∃ session, w.session id = some session ∧ session.status ≠ .expired
  entered : ∀ {i id}, φ i = .entered id → ∃ session, w.session id = some session ∧ session.status = .ready
  timely : ∀ submission ∈ w.submissions, submission.session.status = .ready

section
variable {sdk : Stellar} {w : World} {tr : CoSigningTrace} {φ : Nat → Phase} {i : Nat} {o : Op} {ch : Choice}

/-- What the guard says of a call that goes on to submit a session, or expires it. -/
structure Clear (φ : Nat → Phase) (o : Op) (r : coSigningSignature.Result o) : Prop where
  goes : ∀ {id}, goesOn o r = some id → ∀ j, ¬(φ j).Submits id
  lapses : ∀ {id}, lapses o r = some id → ∀ j, ¬(φ j).Submits id

variable {j : Nat}
  {id : String} {r : coSigningSignature.Result o}

theorem submits_cases (ha : (φ i).Allows o)
    (hj : (update φ i ((φ i).next o r) j).Submits id) : (φ j).Submits id ∨ j = i ∧ goesOn o r = some id := by
  by_cases hji : j = i
  · subst hji
    rw [update_self] at hj
    exact (next_submits ha hj).imp_right fun hgoes => ⟨rfl, hgoes⟩
  · rw [update_of_ne hji] at hj
    exact .inl hj

theorem Single.came_step (h : Single w tr φ) (ha : (φ i).Allows o)
    (hj : (update φ i ((φ i).next o r) j).Submits id) :
    ∃ e ∈ (⟨i, o, r⟩ :: tr : CoSigningTrace), e.runner = j ∧ goesOn e.op e.result = some id := by
  rcases submits_cases ha hj with hj | ⟨rfl, hgoes⟩
  · obtain ⟨e, he, hrest⟩ := h.came hj
    exact ⟨e, mem_cons_of_mem _ he, hrest⟩
  · exact ⟨_, mem_cons_self, rfl, hgoes⟩

theorem found_of_goesOn (hgoes : goesOn o (perform sdk o ch w).1 = some id) :
    ∃ session, w.session id = some session := by
  cases o with
  | add id' signature now =>
    obtain ⟨rfl, hr⟩ := goesOn_add hgoes
    obtain ⟨stored, -, hstore, -⟩ := takes_perform hr
    exact ⟨stored, hstore⟩
  | enter id' submit now =>
    obtain ⟨rfl, hr⟩ := goesOn_enter hgoes
    cases hstore : w.session id with
    | none =>
      simp only [perform, answer, hstore, Fate.deliver] at hr
      cases hr
    | some stored => exact ⟨stored, rfl⟩
  | _ => cases hgoes

theorem Single.found_step (h : Single w tr φ) (ha : (φ i).Allows o) (hclear : Clear φ o (perform sdk o ch w).1) (hj : (update φ i ((φ i).next o (perform sdk o ch w).1) j).Submits id) :
    ∃ session, (perform sdk o ch w).2.session id = some session ∧ session.status ≠ .expired := by
  rcases submits_cases ha hj with hj | ⟨rfl, hgoes⟩
  · obtain ⟨session, hsess, hunexpired⟩ := h.found hj
    obtain ⟨session', hsess', hbecomes⟩ := becomes_of_session o ch hsess
    refine ⟨session', hsess', fun hexp => ?_⟩
    rcases hbecomes.expired hexp with hexp | hlapses
    · exact hunexpired hexp
    · exact hclear.lapses hlapses j hj
  · obtain ⟨session, hsess⟩ := found_of_goesOn hgoes
    obtain ⟨session', hsess', hbecomes⟩ := becomes_of_session o ch hsess
    exact ⟨session', hsess', (hbecomes.goes hgoes).2⟩

theorem Single.untouched (h : Single w tr φ) (ha : (φ i).Allows o) (hj : (φ j).Submits id) (hji : j ≠ i) :
    (∀ submit, o ≠ .launch id submit) ∧ ∀ result, o ≠ .finish id result := by
  constructor
  · rintro submit rfl
    exact hji (h.single.alone hj (.inl (launches_entered ha)))
  · rintro result rfl
    refine hji (h.single.alone hj (.inr (.inr ?_)))
    cases hφ : φ i with
    | answered id' =>
      rw [hφ] at ha
      cases ha
      rfl
    | _ =>
      rw [hφ] at ha
      exact ha.elim

theorem Single.entered_step (h : Single w tr φ) (ha : (φ i).Allows o) (hclear : Clear φ o (perform sdk o ch w).1) (hj : update φ i ((φ i).next o (perform sdk o ch w).1) j = .entered id) :
    ∃ session, (perform sdk o ch w).2.session id = some session ∧ session.status = .ready := by
  by_cases hji : j = i
  · subst hji
    rw [update_self] at hj
    rcases next_entered ha hj with ⟨hpre, id', rfl⟩ | ⟨-, signature, now, rfl, hgoes⟩
    · exact h.entered hpre
    · obtain ⟨session, hsess, -, hready⟩ := reached_perform hgoes
      exact ⟨session, hsess, hready⟩
  · rw [update_of_ne hji] at hj
    have hsubmits : (φ j).Submits id := .inl hj
    obtain ⟨session, hsess, hready⟩ := h.entered hj
    obtain ⟨session', hsess', hbecomes⟩ := becomes_of_session o ch hsess
    obtain ⟨hlaunch, hfinish⟩ := h.untouched ha hsubmits hji
    exact ⟨session', hsess', hbecomes.ready hready (fun hgoes => hclear.goes hgoes j hsubmits)
      (fun hlapses => hclear.lapses hlapses j hsubmits) hlaunch hfinish⟩

theorem Single.timely_step (h : Single w tr φ) (ha : (φ i).Allows o) {submission : Submission}
    (hs : submission ∈ (perform sdk o ch w).2.submissions) : submission.session.status = .ready := by
  rcases submissions_perform ha hs with hs | ⟨id, session, hsess, -, -, ⟨hready, -, -⟩ | ⟨hentered, heq⟩⟩
  · exact h.timely submission hs
  · exact hready
  · obtain ⟨current, hcur, hready⟩ := h.entered hentered
    obtain rfl : current = session := Option.some.inj (hcur.symm.trans hsess)
    rw [heq]
    exact hready

theorem successes_perform (h : ∀ id, o ≠ .submitResult id) : (perform sdk o ch w).2.successes = w.successes := by
  refine Fate.deliver_kept (P := fun w' : World => w'.successes = w.successes) rfl ?_
  intro a w' hans
  cases o with
  | submitResult id => exact absurd rfl (h _)
  | get | save | now | finish | fail =>
    cases hans
    rfl
  | add | expire =>
    simp only [answer] at hans
    split at hans
    · cases hans
    · cases hans
      rfl
  | enter =>
    simp only [answer] at hans
    split at hans
    · cases hans
    · cases hans
      simp only [World.sent]
      split <;> rfl
  | launch =>
    simp only [answer] at hans
    split at hans
    · cases hans
    · split at hans
      · cases hans
      · cases hans
        simp only [World.sent]
        split <;> rfl

theorem next_answered (ha : (Phase.answered id).Allows o) :
    (Phase.answered id).next o r = .ready ∧ ∃ result, o = .finish id result := by
  cases o with
  | finish id' result =>
    cases ha
    exact ⟨rfl, result, rfl⟩
  | _ => exact ha.elim

theorem awaiting_of_submitResult {ψ : Phase} (ha : ψ.Allows (.submitResult id)) : ψ = .awaiting id := by
  cases ψ with
  | awaiting id' =>
    cases ha
    rfl
  | _ => exact ha.elim

/-- Either nothing has succeeded, or the call has been told that it has. -/
theorem successes_step (ha : (φ i).Allows o)
    (hlearns : ∀ id, o = .submitResult id → ∀ message, ch.fate ≠ .lost message) :
    (perform sdk o ch w).2.successes = w.successes ∨ ∃ id, (perform sdk o ch w).2.successes = w.successes ++ [id] ∧
      φ i = .awaiting id ∧ (φ i).next o (perform sdk o ch w).1 = .answered id := by
  by_cases hans : ∃ id, o = .submitResult id
  · obtain ⟨id, rfl⟩ := hans
    have hawaiting := awaiting_of_submitResult ha
    cases hfate : ch.fate with
    | done =>
      refine .inr ⟨id, ?_, hawaiting, ?_⟩
      · simp [perform, fateOf, answer, hfate, Fate.deliver, Fate.carry]
      · simp [hawaiting, perform, fateOf, answer, hfate, Fate.deliver, Fate.carry, Phase.next]
    | refused message => exact .inl (by simp [perform, fateOf, answer, hfate, Fate.deliver, Fate.carry])
    | lost message => exact absurd hfate (hlearns id rfl message)
  · exact .inl (successes_perform fun id ho => hans ⟨id, ho⟩)

theorem Single.single_step (h : Single w tr φ) (ha : (φ i).Allows o) (hclear : Clear φ o (perform sdk o ch w).1)
    (hlearns : ∀ id, o = .submitResult id → ∀ message, ch.fate ≠ .lost message) :
    OneAtATime Phase.Submits (fun φ id => φ = .answered id) (Marked (perform sdk o ch w).2)
      (perform sdk o ch w).2.successes (update φ i ((φ i).next o (perform sdk o ch w).1)) := by
  refine h.single.step (fun id hid => ?_) (fun id _ hmarked => ?_) (fun id hid hansd => .inl ?_) ?_
  · rcases next_submits ha hid with hpre | hgoes
    · refine .inl ⟨hpre, fun hansd => ?_⟩
      rw [hansd] at ha hid
      rw [(next_answered ha).1] at hid
      exact absurd hid (ready_idle id)
    · refine .inr ⟨?_, hclear.goes hgoes⟩
      rintro ⟨session, hsess, hsub⟩
      obtain ⟨session', -, hbecomes⟩ := becomes_of_session o ch hsess
      exact (hbecomes.goes hgoes).1 hsub
  · obtain ⟨session, hsess, hsub⟩ := hmarked
    obtain ⟨session', hsess', hbecomes⟩ := becomes_of_session o ch hsess
    exact ⟨session', hsess', hbecomes.submitted hsub⟩
  · -- the call that has been answered marks the session
    obtain ⟨current, hcur, -⟩ := h.found hid
    rw [hansd] at ha
    obtain ⟨-, result, rfl⟩ := next_answered (r := (perform sdk o ch w).1) ha
    refine ⟨current.finish (some result), ?_, rfl⟩
    change (w.change id _).session id = _
    rw [session_change fun s => (sameSignatures_finish _ s).1, if_pos rfl, hcur, Option.map_some]
  · rcases successes_step ha hlearns with heq | ⟨id, hsuccesses, hawaiting, hnext⟩
    · exact .inl heq
    · rw [hnext, hawaiting]
      exact .inr ⟨id, hsuccesses, .inr (.inl rfl), nofun, .inr (.inr rfl), rfl⟩

theorem Single.step (h : Single w tr φ) (ha : (φ i).Allows o) (hclear : Clear φ o (perform sdk o ch w).1)
    (hlearns : ∀ id, o = .submitResult id → ∀ message, ch.fate ≠ .lost message) :
    Single (perform sdk o ch w).2 (⟨i, o, (perform sdk o ch w).1⟩ :: tr)
      (update φ i ((φ i).next o (perform sdk o ch w).1)) :=
  ⟨h.single_step ha hclear hlearns, h.came_step ha, h.found_step ha hclear, h.entered_step ha hclear,
    fun _ hs => h.timely_step ha hs⟩

theorem Single.passes (h : Single w tr φ) (clock : Int) : Single { w with clock := clock } tr φ :=
  ⟨h.single, h.came, h.found, h.entered, h.timely⟩

def Expired (v w : World) : Prop :=
  ∀ id session, v.session id = some session → session.status = .expired →
    ∃ session', w.session id = some session' ∧ session'.status = .expired

theorem Single.expired_step (h : Single w tr φ) (ha : (φ i).Allows o) {v : World} (hv : Expired v w) :
    Expired v (perform sdk o ch w).2 := by
  intro id session hsess hexp
  obtain ⟨current, hcur, hexp⟩ := hv id session hsess hexp
  obtain ⟨session', hsess', hbecomes⟩ := becomes_of_session o ch hcur
  have hidle : ∀ j, ¬(φ j).Submits id := by
    intro j hj
    obtain ⟨other, hother, hunexpired⟩ := h.found hj
    obtain rfl : other = current := Option.some.inj (hother.symm.trans hcur)
    exact hunexpired hexp
  refine ⟨session', hsess', hbecomes.stays_expired hexp ?_ ?_⟩
  · rintro submit rfl
    exact hidle i (.inl (launches_entered ha))
  · rintro result rfl
    refine hidle i (.inr (.inr ?_))
    cases hφ : φ i with
    | answered id' =>
      rw [hφ] at ha
      cases ha
      rfl
    | _ =>
      rw [hφ] at ha
      exact ha.elim

end

section
variable {sdk : Stellar} {p : CoSigningPool} {φ : Nat → Phase} {i : Nat} {o : Op} {ch : Choice}

theorem idle_of_allOver (ht : Tracked coSigning .ready Single p φ) {id : String} (hover : allOver p id = true) (j : Nat) :
    ¬(φ j).Submits id := by
  intro hj
  obtain ⟨e, he, rfl, hgoes⟩ := ht.holds.came hj
  simp only [allOver, all_eq_true] at hover
  have hdone := hover e he
  simp only [hgoes, ne_eq, not_true_eq_false, decide_false, Bool.false_or] at hdone
  cases hrun : p.runners[e.runner]? with
  | none =>
    rw [ht.fresh e.runner (getElem?_eq_none_iff.mp hrun)] at hj
    exact ready_idle id hj
  | some program =>
    rw [hrun, Option.all_some] at hdone
    rw [show φ e.runner = .ready from ht.ends hrun hdone] at hj
    exact ready_idle id hj

theorem clear_of_inOrder (ht : Tracked coSigning .ready Single p φ) (h : inOrder sdk p i o ch = true) :
    Clear φ o (perform sdk o ch p.world).1 := by
  simp only [inOrder, Bool.and_eq_true] at h
  obtain ⟨⟨hgoes, hlapses⟩, -⟩ := h
  constructor
  · intro id hid
    rw [hid, Option.all_some] at hgoes
    exact idle_of_allOver ht hgoes
  · intro id hid
    rw [hid, Option.all_some] at hlapses
    exact idle_of_allOver ht hlapses

theorem learns_of_inOrder (h : inOrder sdk p i o ch = true) :
    ∀ id, o = .submitResult id → ∀ message, ch.fate ≠ .lost message := by
  rintro id rfl message hfate
  simp only [inOrder, Bool.and_eq_true, hfate] at h
  cases h.2

theorem inductive_single : Inductive (system sdk) coSigning .ready (fun p a => onStep (inOrder sdk) p a = true) Single where
  body := fun _ call _ => follows_body call
  arrive := by
    intro p φ call w _ ht hw
    cases hw
    exact ht.holds
  drift := by
    intro p φ e _ ht
    cases e with
    | passes ms => exact ht.holds.passes _
  answers := fun p _ _ o ch _ _ _ _ => ⟨_, certain_perform sdk o ch p.world, rfl⟩
  step := by
    rintro p φ i o ch _ hg hp ht ha ⟨-, rfl⟩
    have horder := onStep_pending hg hp
    exact ht.holds.step ha (clear_of_inOrder ht horder) (learns_of_inOrder horder)

/-- Nothing that has expired in an earlier state is submitted later. -/
theorem inductive_expired (v : World) : Inductive (system sdk) coSigning .ready
    (fun p a => onStep (inOrder sdk) p a = true) fun w tr φ => Single w tr φ ∧ Expired v w := by
  refine inductive_single.and (fun _ _ h => h) ?_ ?_ ?_
  · intro p φ call w _ _ hexp hw
    cases hw
    exact hexp
  · intro p φ e _ _ hexp
    cases e with
    | passes ms => exact hexp
  · rintro p φ i o ch φ' hg hp ht hexp ha -
    exact ht.holds.expired_step ha hexp

/-- Sessions as they are created. -/
structure Created (w : World) : Prop where
  sessions : ∀ session ∈ w.sessions, session.collectedSignatures = [] ∧ session.status = .collecting
  submissions : w.submissions = []
  successes : w.successes = []

theorem Created.authentic {w : World} (h : Created w) : Authentic sdk w [] fun _ => .ready := by
  refine ⟨?_, by simp, by simp [h.submissions], by simp⟩
  intro id session hsess
  obtain ⟨hnone, -⟩ := h.sessions session (lookup_mem hsess)
  exact ⟨by simp [hnone], by simp [hnone], by simp [hnone]⟩

theorem Created.single {w : World} (h : Created w) : Single w [] fun _ => .ready where
  single := h.successes ▸ .start ready_idle
  came := fun hi => absurd hi (ready_idle _)
  found := fun hi => absurd hi (ready_idle _)
  entered := nofun
  timely := by simp [h.submissions]

/-- **Where one call at a time goes on to submit a session, at most one submission of it succeeds, each with a
quorum, no signature is lost, and what has expired stays so.** -/
theorem submitted_once {w₀ : World} {p q : CoSigningPool} (hcreated : Created w₀)
    (hp : Run (system sdk) (fun p a => onStep (inOrder sdk) p a = true) (Pool.start w₀) p)
    (hq : Run (system sdk) (fun p a => onStep (inOrder sdk) p a = true) p q) :
    q.world.successes.Nodup ∧
      (∀ submission ∈ q.world.submissions, submission.session.status = .ready ∧ Quorum sdk submission) ∧
      (∀ e ∈ q.trace, ∀ id signature, accepted e.op e.result = some (id, signature) →
        ∃ session, q.world.session id = some session ∧ signature ∈ session.collectedSignatures) ∧
      ∀ id session, p.world.session id = some session → session.status = .expired →
        ∃ session', q.world.session id = some session' ∧ session'.status = .expired := by
  obtain ⟨φ, ht⟩ := inductive_single.run hp ⟨_, .start hcreated.single⟩
  obtain ⟨φ', ht'⟩ := (inductive_expired p.world).run hq
    ⟨φ, ht.mono fun h => ⟨h, fun id session hsess hexp => ⟨session, hsess, hexp⟩⟩⟩
  obtain ⟨ψ, hu⟩ := inductive_authentic.run ((hp.trans hq).mono fun _ _ _ => trivial) ⟨_, .start hcreated.authentic⟩
  obtain ⟨hsingle, hexp⟩ := ht'.holds
  exact ⟨hsingle.single.once, fun submission hs => ⟨hsingle.timely submission hs, hu.holds.submissions submission hs⟩,
    hu.holds.accepted, hexp⟩

/-- **In whatever order calls are made, every envelope that is sent carries a quorum, and no signature is lost.** -/
theorem signatures_kept {w₀ : World} {p : CoSigningPool} (hcreated : Created w₀)
    (hp : Run (system sdk) (fun _ _ => True) (Pool.start w₀) p) :
    (∀ submission ∈ p.world.submissions, Quorum sdk submission) ∧
      ∀ e ∈ p.trace, ∀ id signature, accepted e.op e.result = some (id, signature) →
        ∃ session, p.world.session id = some session ∧ signature ∈ session.collectedSignatures := by
  obtain ⟨φ, ht⟩ := inductive_authentic.run hp ⟨_, .start hcreated.authentic⟩
  exact ⟨ht.holds.submissions, ht.holds.accepted⟩

end

def sampleStellar : Stellar where
  Keypair := String
  fromPublicKey := fun signer => if signer ∈ ["G1", "G2"] then .ok signer else .error "invalid encoded string"
  signatureHint := fun keypair => if keypair = "G1" then [1] else [2]
  verify := fun keypair _ signature => decide (signature = replicate 64 (if keypair = "G1" then 1 else 2))
  fromXDR := fun xdr => if xdr = "AAAA" then .ok (.transaction ⟨[0], []⟩) else .error "XDR Read Error"
  toXDR := fun tx => if tx.signatures = [] then "AAAA" else "AAAB"
  decode := fun text => if text = "first" then replicate 64 1 else if text = "second" then replicate 64 2 else []

def opened : World where
  clock := 0
  sessions := [⟨"session-1", "order-1", "AAAA", 2, [], .collecting, ["G1", "G2"], 0, 900000, none, none, none⟩]
  submissions := []
  successes := []

theorem created_opened : Created opened where
  sessions := by
    intro session hsess
    rw [mem_singleton.mp hsess]
    exact ⟨rfl, rfl⟩
  submissions := rfl
  successes := rfl

def goes (i steps : Nat) : List (Action (system sampleStellar)) := replicate steps (.step i {})

def submitting : List (Action (system sampleStellar)) :=
  .call (.addCoSignature "session-1" ⟨"G1", "first"⟩ true none) :: goes 0 4 ++
    .call (.addCoSignature "session-1" ⟨"G2", "second"⟩ true none) :: goes 1 5

theorem submitted_once_signed :
    ∃ p q, Run (system sampleStellar) (fun p a => onStep (inOrder sampleStellar) p a = true) (Pool.start opened) p ∧
      Run (system sampleStellar) (fun p a => onStep (inOrder sampleStellar) p a = true) p q ∧ q.quiet = true ∧
      q.world.successes = ["session-1"] ∧ q.world.successes.Nodup ∧
      ∀ submission ∈ q.world.submissions, submission.session.status = .ready ∧ Quorum sampleStellar submission := by
  obtain ⟨p, hp, hsubmitting⟩ := Run.exists_of_any (Pool.start opened) (onStep (inOrder sampleStellar)) submitting
    (fun p : CoSigningPool => (p.runWhile (system sampleStellar) (onStep (inOrder sampleStellar)) (goes 1 4)).any
      fun q : CoSigningPool => q.quiet && decide (q.world.successes = ["session-1"])) (by decide)
  obtain ⟨q, hq, htest⟩ := Run.exists_of_any p (onStep (inOrder sampleStellar)) (goes 1 4) _ hsubmitting
  simp only [Bool.and_eq_true, decide_eq_true_eq] at htest
  obtain ⟨honce, hquorum, -⟩ := submitted_once created_opened hp hq
  exact ⟨p, q, hp, hq, htest.1, htest.2, honce, hquorum⟩

/-- **A session is submitted twice, with success; and one that has expired is submitted**, while the call that has
brought the last signature waits for the network. -/
theorem submitted_twice : (∃ q, Run (system sampleStellar) (fun _ _ => true = true) (Pool.start opened) q ∧
      q.world.successes = ["session-1", "session-1"]) ∧
    ∃ p q, Run (system sampleStellar) (fun _ _ => true = true) (Pool.start opened) p ∧
      Run (system sampleStellar) (fun _ _ => true = true) p q ∧
      (p.world.session "session-1").map StoredCoSigningSession.status = some .expired ∧
      (q.world.session "session-1").map StoredCoSigningSession.status = some .submitted := by
  constructor
  · obtain ⟨q, hq, htest⟩ := Run.exists_of_any (Pool.start opened)
      (fun (_ : CoSigningPool) (_ : Action (system sampleStellar)) => true)
      (submitting ++ .call (.submitCoSigningSession "session-1" true none) :: goes 2 3 ++ goes 1 4 ++ goes 2 4)
      (fun q : CoSigningPool => decide (q.world.successes = ["session-1", "session-1"])) (by decide)
    exact ⟨q, hq, of_decide_eq_true htest⟩
  · obtain ⟨p, hp, hexp⟩ := Run.exists_of_any (Pool.start opened)
      (fun (_ : CoSigningPool) (_ : Action (system sampleStellar)) => true)
      (submitting ++ .call (.expireCoSigningSession "session-1" none) :: goes 2 5)
      (fun p : CoSigningPool =>
        decide ((p.world.session "session-1").map StoredCoSigningSession.status = some .expired) &&
          (p.runWhile (system sampleStellar) (fun _ _ => true) (goes 1 4)).any fun q : CoSigningPool =>
            decide ((q.world.session "session-1").map StoredCoSigningSession.status = some .submitted))
      (by decide)
    simp only [Bool.and_eq_true, decide_eq_true_eq] at hexp
    obtain ⟨q, hq, hsub⟩ := Run.exists_of_any p
      (fun (_ : CoSigningPool) (_ : Action (system sampleStellar)) => true) (goes 1 4) _ hexp.2
    exact ⟨p, q, hp, hq, hexp.1, of_decide_eq_true hsub⟩

theorem signatures_kept_twice : ∃ p, Run (system sampleStellar) (fun _ _ => True) (Pool.start opened) p ∧
    p.world.submissions.length = 2 ∧ ∀ submission ∈ p.world.submissions, Quorum sampleStellar submission := by
  obtain ⟨p, hp, htest⟩ := Run.exists_of_any (Pool.start opened)
    (fun (_ : CoSigningPool) (_ : Action (system sampleStellar)) => true)
    (submitting ++ .call (.submitCoSigningSession "session-1" true none) :: goes 2 3 ++ goes 1 4 ++ goes 2 4)
    (fun p : CoSigningPool => decide (p.world.submissions.length = 2)) (by decide)
  have hrun := hp.mono fun _ _ _ => trivial
  exact ⟨p, hrun, of_decide_eq_true htest, (signatures_kept created_opened hrun).1⟩

end Delego.CoSigning
