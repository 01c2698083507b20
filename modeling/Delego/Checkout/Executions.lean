import Delego.Checkout.StaleHolder

/-! What the executions for one id have come to.

While no key expires, the lock admits one holder at a time (`Alone`). A holder that goes on
to execute has found no completed record, and then no execution has succeeded: a record is
completed with the response of the one that has (`History`). -/
namespace Delego.Checkout
open Delego.Process Delego.Data List Function

def outputOf (k : String) (e : Entry checkoutSignature) : Option Output :=
  match e with
  | ⟨_, .finish id, .ok output⟩ => if id = k then some output else none
  | _ => none

/-- What the executions gave that ended with a status below 500. -/
def executions (k : String) (tr : CheckoutTrace) : List Output :=
  (tr.filterMap (outputOf k)).filter fun output => decide (output.statusCode < 500)

/-- The response of an execution, as it was captured. -/
def ending (k : String) (e : Entry checkoutSignature) : Option Response := (outputOf k e).map Output.captured

def successes (k : String) (tr : CheckoutTrace) : List Response := (executions k tr).map Output.captured

def Started (k : String) (tr : CheckoutTrace) (i : Nat) : Prop := ∃ e ∈ tr, e.runner = i ∧ e.op = .start k

def Failed (k : String) (tr : CheckoutTrace) (i : Nat) : Prop :=
  ∃ e ∈ tr, e.runner = i ∧ ∃ response, ending k e = some response ∧ 500 ≤ response.statusCode

/-- An execution starts only when all before have failed. -/
def ExecutedInTurn (k : String) : CheckoutTrace → Prop
  | [] => True
  | e :: tr => (e.op = .start k → ∀ i, Started k tr i → Failed k tr i) ∧ ExecutedInTurn k tr

def Op.spared : Op → Bool
  | .discard _ => true
  | .releaseLease _ _ => true
  | _ => false

def answered (_ : CheckoutPool) (_ : Nat) (o : Op) (ch : Choice) : Bool := o.spared || decide (ch.fate = .done)

/-- No key expires, and what is to be answered is. -/
def steady (cfg : Settings) (p : CheckoutPool) : Action (system cfg) → Bool
  | .call _ => true
  | .step i ch => (p.pending i).all fun o => answered p i o ch
  | .drift _ => false

variable {i : Nat} {p : CheckoutPool}

theorem done_of_answered {o : Op} {ch : Choice}
    (h : answered p i o ch = true) (hspared : o.spared = false) :
    perform o ch p.world = (.ok (answer o ch p.world).1, (answer o ch p.world).2) := by
  have hfate : ch.fate = .done := by simpa [answered, hspared] using h
  simp [perform, Fate.carry, hfate]

theorem answered_of_steady {cfg : Settings} {o : Op} {ch : Choice}
    (h : steady cfg p (.step i ch) = true) (hp : p.pending i = some o) : answered p i o ch = true := by
  simpa only [steady, hp, Option.all_some] using h

/-- The holder of a lease has its token in the lock, and no request has failed open. -/
structure Alone (k : String) (w : World) (φ : Nat → Phase) : Prop where
  locked : ∀ {i token stage}, φ i = .holding k token stage → w.locks k = some token
  own : ∀ {i j token token' stage stage'}, φ i = .holding k token stage → φ j = .holding k token' stage' → i = j
  closed : ∀ i, φ i ≠ .failedOpen

section
variable {k : String} {w : World} {φ : Nat → Phase} {i : Nat} {o : Op} {ch : Choice}

theorem next_closed {φ : Phase} {a : o.Reply} (h : φ ≠ .failedOpen) : φ.next o (.ok a) ≠ .failedOpen := by
  intro hnext
  have hleads : φ.Leads o (.ok a) .failedOpen := hnext ▸ leads_next
  cases hleads with
  | same => exact h rfl
  | fails hr => cases hr

variable {r : checkoutSignature.Result o}

theorem next_spared {φ : Phase} (hspared : o.spared = true) (h : φ ≠ .failedOpen) :
    φ.next o r ≠ .failedOpen := by
  cases o with
  | discard id =>
    cases φ with
    | failedOpen => exact absurd rfl h
    | _ =>
      intro hreach
      cases hreach
  | releaseLease id token =>
    simp only [Phase.next, Phase.release]
    split
    · intro hrels
      cases hrels
    · intro hrels
      cases hrels
  | _ => cases hspared

theorem Alone.step (h : Alone k p.world φ) (ha : (φ i).Allows o)
    (hansd : answered p i o ch = true) :
    Alone k (perform o ch p.world).2 (update φ i ((φ i).next o (perform o ch p.world).1)) := by
  refine ⟨?_, ?_, ?_⟩
  · intro j token stage hj
    rcases holding_step hj with ⟨stage', hpre⟩ | ⟨-, htaken, -⟩
    · apply lock_kept (h.locked hpre)
      -- whoever releases the lock is its holder, and holds it no more
      rintro rfl
      obtain ⟨stage'', hholder⟩ := holder_of_release ha
      obtain rfl := h.own hpre hholder
      rw [update_self] at hj
      exact release_ne_holding hj
    · exact (taken_perform htaken).2.2.2
  · intro j j' token token' stage stage' hj hj'
    rcases holding_step hj with ⟨_, hpre⟩ | ⟨rfl, htaken, -⟩
    · rcases holding_step hj' with ⟨_, hpre'⟩ | ⟨-, htaken', -⟩
      · exact h.own hpre hpre'
      · have hfree := (taken_perform htaken').2.2.1
        simp [h.locked hpre] at hfree
    · rcases holding_step hj' with ⟨_, hpre'⟩ | ⟨rfl, -, -⟩
      · have hfree := (taken_perform htaken).2.2.1
        simp [h.locked hpre'] at hfree
      · rfl
  · intro j
    by_cases hji : j = i
    · subst hji
      rw [update_self]
      cases hspared : o.spared with
      | true => exact next_spared hspared (h.closed j)
      | false =>
        rw [done_of_answered hansd hspared]
        exact next_closed (h.closed j)
    · rw [update_of_ne hji]
      exact h.closed j

end

theorem alone_inductive (cfg : Settings) (k : String) :
    Inductive (system cfg) requesting .free (fun p a => steady cfg p a = true) fun w _ φ => Alone k w φ where
  body := fun _ call _ => follows_checkout call.request call.rounds
  arrive := by
    rintro p φ call w - ht ⟨⟩
    exact ht.holds
  drift := by rintro p φ e ⟨⟩
  answers := fun p _ _ _ ch _ _ _ _ => ⟨_, answered_perform ch p.world, rfl⟩
  step := by
    rintro p φ i o ch _ hg hp ht ha ⟨-, rfl⟩
    exact ht.holds.step ha (answered_of_steady hg hp)

/-! ### What the executions have come to -/

variable {tr : CheckoutTrace} {e : Entry checkoutSignature} {k : String}

theorem successes_cons (h : ending k e = none) :
    successes k (e :: tr) = successes k tr := by
  rw [successes, executions, filterMap_cons_none (Option.map_eq_none_iff.mp h), successes, executions]

theorem successes_finish {output : Output} :
    successes k (⟨i, .finish k, .ok output⟩ :: tr) =
      if output.statusCode < 500 then output.captured :: successes k tr else successes k tr := by
  have hout : outputOf k ⟨i, .finish k, .ok output⟩ = some output := if_pos rfl
  rw [successes, executions, filterMap_cons_some hout, filter_cons]
  split
  · rename_i hstat
    rw [if_pos (of_decide_eq_true hstat)]
    rfl
  · rename_i hstat
    rw [if_neg fun hlt => hstat (decide_eq_true hlt)]
    rfl

theorem executions_sublist : (executions k tr).Sublist (executions k (e :: tr)) :=
  ((sublist_cons_self e tr).filterMap (outputOf k)).filter _

theorem successes_subset : successes k tr ⊆ successes k (e :: tr) := map_subset _ executions_sublist.subset

theorem Failed.cons (h : Failed k tr i) :
    Failed k (e :: tr) i := by
  obtain ⟨e', he', hfail⟩ := h
  exact ⟨e', mem_cons_of_mem e he', hfail⟩

theorem started_cons :
    Started k (e :: tr) i ↔ e.runner = i ∧ e.op = .start k ∨ Started k tr i := by
  simp [Started]

def Stage.successes : Stage → List Response
  | .ended response => if response.statusCode < 500 then [response] else []
  | _ => []

/-- A holder that may write has found no record, and no execution but its own has succeeded; a
recorded response is the one that has. -/
structure History (k : String) (w : World) (tr : CheckoutTrace) (φ : Nat → Phase) : Prop where
  working : ∀ {i token stage}, φ i = .holding k token stage → stage.writing = true →
    completed (w.records k) = none ∧ successes k tr = stage.successes
  recorded : ∀ {record}, completed (w.records k) = some record → successes k tr = [record.response]
  succeeded : successes k tr = [] ∨ (∃ record, completed (w.records k) = some record) ∨
    ∃ i token response, φ i = .holding k token (.ended response)
  executed : ∀ i, Started k tr i → Failed k tr i ∨ successes k tr ≠ [] ∨ ∃ token, φ i = .holding k token .running

def Stage.executing : Stage → Bool
  | .running => true
  | .ended _ => true
  | _ => false

section
variable {k : String} {w w' : World} {tr : CheckoutTrace} {φ : Nat → Phase} {i : Nat} {φ' : Phase}
  {e : Entry checkoutSignature}

theorem History.keep (h : History k w tr φ) (hrecs : w'.records k = w.records k) (hending : ending k e = none)
    (hstart : e.op ≠ .start k)
    (hwriting : ∀ token stage, φ' = .holding k token stage → stage.writing = true → φ i = .holding k token stage)
    (hexecuting : ∀ token stage, φ i = .holding k token stage → stage.executing = true →
      φ' = .holding k token stage) : History k w' (e :: tr) (update φ i φ') := by
  have hafter : ∀ {j token stage}, φ j = .holding k token stage → stage.executing = true →
      update φ i φ' j = .holding k token stage := by
    intro j token stage hj hstage
    by_cases hji : j = i
    · subst hji
      rw [update_self]
      exact hexecuting token stage hj hstage
    · rw [update_of_ne hji]
      exact hj
  refine ⟨?_, ?_, ?_, ?_⟩
  · intro j token stage hj hstage
    rw [hrecs, successes_cons hending]
    by_cases hji : j = i
    · subst hji
      rw [update_self] at hj
      exact h.working (hwriting token stage hj hstage) hstage
    · rw [update_of_ne hji] at hj
      exact h.working hj hstage
  · intro record hrec
    rw [hrecs] at hrec
    rw [successes_cons hending]
    exact h.recorded hrec
  · rw [hrecs, successes_cons hending]
    rcases h.succeeded with hnone | hrec | ⟨j, token, response, hj⟩
    · exact .inl hnone
    · exact .inr (.inl hrec)
    · exact .inr (.inr ⟨j, token, response, hafter hj rfl⟩)
  · intro j hstarted
    rw [successes_cons hending]
    rcases started_cons.mp hstarted with ⟨-, hop⟩ | hpre
    · exact absurd hop hstart
    · rcases h.executed j hpre with hfail | hsome | ⟨token, hj⟩
      · exact .inl hfail.cons
      · exact .inr (.inl hsome)
      · exact .inr (.inr ⟨token, hafter hj rfl⟩)

theorem History.advance {token : Nat} {stage stage' : Stage} (h : History k w tr φ)
    (own : ∀ {j token stage}, φ j = .holding k token stage → j = i) (hi : φ i = .holding k token stage)
    (hworking : stage'.writing = true → completed (w'.records k) = none ∧ successes k (e :: tr) = stage'.successes)
    (hrecd : ∀ record, completed (w'.records k) = some record → successes k (e :: tr) = [record.response])
    (hsucc : successes k (e :: tr) = [] ∨ (∃ record, completed (w'.records k) = some record) ∨
      ∃ response, stage' = .ended response)
    (hexec : e.op = .start k ∨ stage = .running → Failed k (e :: tr) i ∨ successes k (e :: tr) ≠ [] ∨ stage' = .running)
    (hkept : successes k tr ≠ [] → successes k (e :: tr) ≠ []) (hrun : e.runner = i) :
    History k w' (e :: tr) (update φ i (.holding k token stage')) := by
  refine ⟨?_, ?_, ?_, ?_⟩
  · intro j token' stage'' hj hstage
    by_cases hji : j = i
    · subst hji
      rw [update_self] at hj
      cases hj
      exact hworking hstage
    · rw [update_of_ne hji] at hj
      exact absurd (own hj) hji
  · intro record hrec
    exact hrecd record hrec
  · rcases hsucc with hnone | hrec | ⟨response, rfl⟩
    · exact .inl hnone
    · exact .inr (.inl hrec)
    · exact .inr (.inr ⟨i, token, response, update_self _ _ _⟩)
  · intro j hstarted
    have hself : Failed k (e :: tr) i ∨ successes k (e :: tr) ≠ [] ∨ stage' = .running →
        Failed k (e :: tr) i ∨ successes k (e :: tr) ≠ [] ∨
          ∃ token', update φ i (.holding k token stage') i = .holding k token' .running := by
      rintro (hfail | hsome | rfl)
      · exact .inl hfail
      · exact .inr (.inl hsome)
      · exact .inr (.inr ⟨token, update_self _ _ _⟩)
    rcases started_cons.mp hstarted with ⟨hj, hop⟩ | hpre
    · rw [← hj, hrun]
      exact hself (hexec (.inl hop))
    · rcases h.executed j hpre with hfail | hsome | ⟨token', hj⟩
      · exact .inl hfail.cons
      · exact .inr (.inl (hkept hsome))
      · obtain rfl := own hj
        rw [hi] at hj
        cases hj
        exact hself (hexec (.inr rfl))

end

section
variable {k : String} {φ : Nat → Phase} {i : Nat} {o : Op} {ch : Choice} {p : CheckoutPool}

theorem holder_of_start {φ : Phase} (ha : φ.Allows (.start k)) (hclosed : φ ≠ .failedOpen) :
    ∃ token, φ = .holding k token .leased := by
  cases φ with
  | holding id token stage =>
    cases stage with
    | leased =>
      cases ha
      exact ⟨token, rfl⟩
    | _ => cases ha
  | failedOpen => exact absurd rfl hclosed
  | _ => cases ha

theorem holder_of_finish {φ : Phase} (ha : φ.Allows (.finish k)) (hclosed : φ ≠ .failedOpen) :
    ∃ token, φ = .holding k token .running := by
  cases φ with
  | holding id token stage =>
    cases stage with
    | running =>
      cases ha
      exact ⟨token, rfl⟩
    | _ => cases ha
  | failedOpen => exact absurd rfl hclosed
  | _ => cases ha

theorem ending_eq_none (h : o ≠ .finish k) : ending k ⟨i, o, r⟩ = none := by
  unfold ending
  rw [Option.map_eq_none_iff]
  cases o with
  | finish id =>
    cases r with
    | error message => rfl
    | ok output => exact if_neg fun hid => h (congrArg Op.finish hid)
  | _ => rfl

theorem History.aside (h : History k p.world p.trace φ) (halone : Alone k p.world φ) (ha : (φ i).Allows o)
    (hfree : ∀ token stage, φ i ≠ .holding k token stage) :
    History k (perform o ch p.world).2 (⟨i, o, (perform o ch p.world).1⟩ :: p.trace)
      (update φ i ((φ i).next o (perform o ch p.world).1)) := by
  apply h.keep
  · apply records_perform
    intro hwr
    obtain ⟨token, stage, hi, -⟩ := holder_of_writes ha hwr
    exact hfree token stage hi
  · apply ending_eq_none
    rintro rfl
    obtain ⟨token, hi⟩ := holder_of_finish ha (halone.closed i)
    exact hfree token .running hi
  · rintro rfl
    obtain ⟨token, hi⟩ := holder_of_start ha (halone.closed i)
    exact hfree token .leased hi
  · intro token stage hnext hwriting
    have hi : update φ i ((φ i).next o (perform o ch p.world).1) i = .holding k token stage := by
      rw [update_self]
      exact hnext
    rcases holding_step hi with ⟨stage', hpre⟩ | ⟨-, -, rfl⟩
    · exact absurd hpre (hfree token stage')
    · cases hwriting
  · intro token stage hi
    exact absurd hi (hfree token stage)

variable {token : Nat}

theorem History.lookAgain (h : History k p.world p.trace φ) (halone : Alone k p.world φ)
    (hi : φ i = .holding k token .acquired) (hansd : answered p i (.getRecord k) ch = true) :
    History k (perform (.getRecord k) ch p.world).2
      (⟨i, .getRecord k, (perform (.getRecord k) ch p.world).1⟩ :: p.trace)
      (update φ i ((φ i).next (.getRecord k) (perform (.getRecord k) ch p.world).1)) := by
  rw [done_of_answered hansd rfl, hi]
  simp only [answer, Phase.next, Phase.look]
  cases hrec : completed (p.world.records k) with
  | some record =>
    apply h.keep rfl rfl
    · rintro ⟨⟩
    · rintro token' stage ⟨⟩ ⟨⟩
    · intro token' stage hholding hexecuting
      rw [hi] at hholding
      cases hholding
      cases hexecuting
  | none =>
    have hnone : successes k p.trace = [] := by
      rcases h.succeeded with hnone | ⟨record, hsome⟩ | ⟨j, token', response, hj⟩
      · exact hnone
      · simp [hrec] at hsome
      · obtain rfl := halone.own hj hi
        simp [hi] at hj
    have heq : successes k (⟨i, .getRecord k, .ok (p.world.records k)⟩ :: p.trace) = [] :=
      (successes_cons rfl).trans hnone
    apply h.advance (fun hj => halone.own hj hi) hi
    · exact fun _ => ⟨hrec, heq⟩
    · intro record hsome
      simp [hrec] at hsome
    · exact .inl heq
    · rintro (⟨⟨⟩⟩ | ⟨⟨⟩⟩)
    · exact fun hsome => absurd hnone hsome
    · rfl

theorem History.mark {fingerprint requestHash : String} (h : History k p.world p.trace φ) (halone : Alone k p.world φ)
    (hi : φ i = .holding k token .cleared)
    (hansd : answered p i (.markInProgress k fingerprint requestHash) ch = true) :
    History k (perform (.markInProgress k fingerprint requestHash) ch p.world).2
      (⟨i, .markInProgress k fingerprint requestHash,
        (perform (.markInProgress k fingerprint requestHash) ch p.world).1⟩ :: p.trace)
      (update φ i ((φ i).next (.markInProgress k fingerprint requestHash)
        (perform (.markInProgress k fingerprint requestHash) ch p.world).1)) := by
  obtain ⟨-, hnone⟩ := h.working hi rfl
  rw [done_of_answered hansd rfl, hi]
  have hrec : completed ((answer (.markInProgress k fingerprint requestHash) ch p.world).2.records k) = none := by
    simp [answer, completed]
  have heq : successes k (⟨i, .markInProgress k fingerprint requestHash, .ok ()⟩ :: p.trace) = [] :=
    (successes_cons rfl).trans hnone
  apply h.advance (fun hj => halone.own hj hi) hi
  · exact fun _ => ⟨hrec, heq⟩
  · intro record hsome
    simp [hrec] at hsome
  · exact .inl heq
  · rintro (⟨⟨⟩⟩ | ⟨⟨⟩⟩)
  · exact fun hsome => absurd hnone hsome
  · rfl

theorem History.started (h : History k p.world p.trace φ) (halone : Alone k p.world φ)
    (hi : φ i = .holding k token .leased) :
    History k p.world (⟨i, .start k, .ok ()⟩ :: p.trace) (update φ i (.holding k token .running)) := by
  obtain ⟨hrec, hnone⟩ := h.working hi rfl
  have heq : successes k (⟨i, .start k, .ok ()⟩ :: p.trace) = [] := (successes_cons rfl).trans hnone
  apply h.advance (fun hj => halone.own hj hi) hi
  · exact fun _ => ⟨hrec, heq⟩
  · intro record hsome
    simp [hrec] at hsome
  · exact .inl heq
  · exact fun _ => .inr (.inr rfl)
  · exact fun hsome => absurd hnone hsome
  · rfl

theorem History.finished (output : Output) (h : History k p.world p.trace φ) (halone : Alone k p.world φ)
    (hi : φ i = .holding k token .running) :
    History k p.world (⟨i, .finish k, .ok output⟩ :: p.trace)
      (update φ i (.holding k token (.ended output.captured))) := by
  obtain ⟨hrec, hnone⟩ := h.working hi rfl
  have hafter : successes k (⟨i, .finish k, .ok output⟩ :: p.trace) =
      if output.statusCode < 500 then [output.captured] else [] := by
    rw [successes_finish, hnone]
    rfl
  apply h.advance (fun hj => halone.own hj hi) hi
  · exact fun _ => ⟨hrec, hafter⟩
  · intro record hsome
    simp [hrec] at hsome
  · exact .inr (.inr ⟨output.captured, rfl⟩)
  · intro _
    by_cases hstat : output.statusCode < 500
    · rw [hafter, if_pos hstat]
      exact .inr (.inl (cons_ne_nil _ _))
    · have hout : outputOf k ⟨i, .finish k, .ok output⟩ = some output := if_pos rfl
      exact .inl ⟨_, mem_cons_self, rfl, output.captured, congrArg (Option.map Output.captured) hout,
        Nat.le_of_not_lt hstat⟩
  · exact fun hsome => absurd hnone hsome
  · rfl

theorem History.complete {response : Response} {fingerprint requestHash : String} (h : History k p.world p.trace φ)
    (halone : Alone k p.world φ) (hi : φ i = .holding k token (.ended response)) (hstat : response.statusCode < 500)
    (hansd : answered p i (.complete k fingerprint requestHash response) ch = true) :
    History k (perform (.complete k fingerprint requestHash response) ch p.world).2
      (⟨i, .complete k fingerprint requestHash response,
        (perform (.complete k fingerprint requestHash response) ch p.world).1⟩ :: p.trace)
      (update φ i (.holding k token .stored)) := by
  obtain ⟨-, hone⟩ := h.working hi rfl
  rw [Stage.successes, if_pos hstat] at hone
  rw [done_of_answered hansd rfl]
  have heq : successes k (⟨i, .complete k fingerprint requestHash response, .ok ()⟩ :: p.trace) = [response] :=
    (successes_cons rfl).trans hone
  have hrec : ∃ record,
      completed ((answer (.complete k fingerprint requestHash response) ch p.world).2.records k) = some record ∧
        record.response = response := by
    simp [answer, completed, IdempotencyRecord.response]
  obtain ⟨record, hrec, hresp⟩ := hrec
  apply h.advance (fun hj => halone.own hj hi) hi
  · rintro ⟨⟩
  · intro record' hsome
    rw [hrec] at hsome
    cases hsome
    rw [hresp]
    exact heq
  · exact .inr (.inl ⟨record, hrec⟩)
  · rintro (⟨⟨⟩⟩ | ⟨⟨⟩⟩)
  · intro _
    rw [heq]
    exact cons_ne_nil _ _
  · rfl

theorem History.discard {response : Response} (h : History k p.world p.trace φ) (halone : Alone k p.world φ)
    (hi : φ i = .holding k token (.ended response)) (hstat : 500 ≤ response.statusCode) :
    History k (perform (.discard k) ch p.world).2 (⟨i, .discard k, (perform (.discard k) ch p.world).1⟩ :: p.trace)
      (update φ i (.holding k token .stored)) := by
  obtain ⟨hnorecord, hnone⟩ := h.working hi rfl
  rw [Stage.successes, if_neg (Nat.not_lt.mpr hstat)] at hnone
  have heq : ∀ r, successes k (⟨i, .discard k, r⟩ :: p.trace) = [] := fun r => (successes_cons rfl).trans hnone
  have hrec : completed ((perform (.discard k) ch p.world).2.records k) = none :=
    Fate.carry_kept (P := fun w' : World => completed (w'.records k) = none) hnorecord (by simp [answer, completed])
  apply h.advance (fun hj => halone.own hj hi) hi
  · rintro ⟨⟩
  · intro record hsome
    simp [hrec] at hsome
  · exact .inl (heq _)
  · rintro (⟨⟨⟩⟩ | ⟨⟨⟩⟩)
  · exact fun hsome => absurd hnone hsome
  · rfl

theorem History.rest {stage : Stage} {φ' : Phase} (h : History k p.world p.trace φ)
    (hi : φ i = .holding k token stage) (hexecuting : stage.executing = false)
    (hwriting : ∀ token stage, φ' = .holding k token stage → stage.writing = false) (hwr : o.writes = none)
    (hfinish : o ≠ .finish k) (hstart : o ≠ .start k) :
    History k (perform o ch p.world).2 (⟨i, o, r⟩ :: p.trace) (update φ i φ') := by
  apply h.keep
  · apply records_perform
    rw [hwr]
    rintro ⟨⟩
  · exact ending_eq_none hfinish
  · exact hstart
  · intro token' stage' hφ' hstage'
    simp [hwriting token' stage' hφ'] at hstage'
  · intro token' stage' hj hstage'
    rw [hi] at hj
    cases hj
    simp [hexecuting] at hstage'

theorem History.step (h : History k p.world p.trace φ) (halone : Alone k p.world φ) (ha : (φ i).Allows o)
    (hansd : answered p i o ch = true) :
    History k (perform o ch p.world).2 (⟨i, o, (perform o ch p.world).1⟩ :: p.trace)
      (update φ i ((φ i).next o (perform o ch p.world).1)) := by
  by_cases hholds : ∃ token stage, φ i = .holding k token stage
  · obtain ⟨token, stage, hi⟩ := hholds
    rw [hi] at ha
    cases stage with
    | acquired =>
      cases o with
      | getRecord id =>
        cases ha
        exact h.lookAgain halone hi hansd
      | _ => cases ha
    | cleared =>
      cases o with
      | markInProgress id fingerprint requestHash =>
        cases ha
        exact h.mark halone hi hansd
      | _ => cases ha
    | leased =>
      cases o with
      | start id =>
        cases ha
        rw [hi]
        exact h.started halone hi
      | _ => cases ha
    | running =>
      cases o with
      | finish id =>
        cases ha
        rw [hi]
        exact h.finished ch.output halone hi
      | _ => cases ha
    | ended response =>
      cases o with
      | complete id fingerprint requestHash response' =>
        obtain ⟨rfl, rfl, hstat⟩ := ha
        rw [hi]
        exact h.complete halone hi hstat hansd
      | discard id =>
        obtain ⟨rfl, hstat⟩ := ha
        rw [hi]
        exact h.discard halone hi hstat
      | _ => cases ha
    | yielding record =>
      cases o with
      | releaseLease id token' =>
        rw [hi]
        refine h.rest hi rfl ?_ rfl (by rintro ⟨⟩) (by rintro ⟨⟩)
        rintro token'' stage ⟨⟩
      | _ => cases ha
    | stored =>
      cases o with
      | flush id response =>
        rw [hi]
        refine h.rest hi rfl ?_ rfl (by rintro ⟨⟩) (by rintro ⟨⟩)
        rintro token'' stage ⟨⟩
        rfl
      | releaseLease id token' =>
        rw [hi]
        refine h.rest hi rfl ?_ rfl (by rintro ⟨⟩) (by rintro ⟨⟩)
        rintro token'' stage ⟨⟩
      | _ => cases ha
  · exact h.aside halone ha fun token stage hi => hholds ⟨token, stage, hi⟩

end

theorem history_inductive (cfg : Settings) (k : String) :
    Inductive (system cfg) requesting .free (fun p a => steady cfg p a = true)
      fun w tr φ => Alone k w φ ∧ History k w tr φ := by
  apply (alone_inductive cfg k).and
  · exact fun _ _ h => h
  · rintro p φ call w - - hhistory ⟨⟩
    exact hhistory
  · rintro p φ e ⟨⟩
  · rintro p φ i o ch _ hg hp ht hhistory ha ⟨-, rfl⟩
    exact hhistory.step ht.holds ha (answered_of_steady hg hp)

theorem alone_start {w : World} : Alone k w fun _ => .free where
  locked := fun h => by cases h
  own := fun h => by cases h
  closed := fun _ h => by cases h

theorem history_start {w : World} (h : completed (w.records k) = none) : History k w [] fun _ => .free where
  working := fun h => by cases h
  recorded := by
    intro record hrec
    simp [h] at hrec
  succeeded := .inl rfl
  executed := by
    rintro i ⟨e, he, -⟩
    cases he

theorem History.once {w : World} {φ : Nat → Phase} (h : History k w tr φ) :
    (successes k tr).length ≤ 1 := by
  rcases h.succeeded with hnone | ⟨record, hrec⟩ | ⟨i, token, response, hi⟩
  · simp [hnone]
  · simp [h.recorded hrec]
  · rw [(h.working hi rfl).2, Stage.successes]
    split
    · exact Nat.le_refl 1
    · exact Nat.zero_le 1

end Delego.Checkout
