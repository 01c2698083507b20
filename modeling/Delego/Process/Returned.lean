import Delego.Process.Extend
import Delego.Process.Serial
import Delego.Process.Pool

/-! Operations that are answered or throw.

The party that is asked may refuse by itself (a key that is taken), or answer; the answer may still not come, or the
operation not be made at all (`Fate`). A call is read by one rule: what holds if an operation throws, and what holds of
the rest of the call for each answer (`follows_answered`). -/
namespace Delego.Process

section
def Fate.deliver {α W : Type} (fate : Fate) (answered : Except String (α × W)) (w : W) : Except String α × W :=
  match answered with
  | .error message => (.error message, w)
  | .ok answer => fate.carry answer w

theorem Fate.deliver_cases {α W : Type} (fate : Fate) (answered : Except String (α × W)) (w : W) :
    (∃ message, fate.deliver answered w = (.error message, w)) ∨ ∃ a w', answered = .ok (a, w') ∧
        (fate.deliver answered w = (.ok a, w') ∨ ∃ message, fate.deliver answered w = (.error message, w')) := by
  cases answered with
  | error message => exact .inl ⟨message, rfl⟩
  | ok answer =>
    cases fate with
    | done => exact .inr ⟨_, _, rfl, .inl rfl⟩
    | refused message => exact .inl ⟨message, rfl⟩
    | lost message => exact .inr ⟨_, _, rfl, .inr ⟨message, rfl⟩⟩

theorem Fate.deliver_kept {α W : Type} {P : W → Prop} {fate : Fate} {answered : Except String (α × W)} {w : W}
    (before : P w) (after : ∀ a w', answered = .ok (a, w') → P w') : P (fate.deliver answered w).2 := by
  rcases fate.deliver_cases answered w with ⟨message, h⟩ | ⟨a, w', hansd, h | ⟨message, h⟩⟩
  · rw [h]
    exact before
  · rw [h]
    exact after a w' hansd
  · rw [h]
    exact after a w' hansd

variable {Op : Type} {Reply : Op → Type} {C W α : Type}

def answering (fate : Op → C → Fate) (answer : (o : Op) → C → W → Except String (Reply o × W)) :
    Effect ⟨Op, Reply, String⟩ W :=
  fun o w r w' => ∃ ch, (r, w') = (fate o ch).deliver (answer o ch w) w

variable {fate : Op → C → Fate} {answer : (o : Op) → C → W → Except String (Reply o × W)} {o : Op} {w w' : W}

theorem answering_cases {r : Except String (Reply o)} (h : answering fate answer o w r w') :
    w' = w ∧ (∃ message, r = .error message) ∨
      ∃ ch a, answer o ch w = .ok (a, w') ∧ (r = .ok a ∨ ∃ message, r = .error message) := by
  obtain ⟨ch, hr⟩ := h
  rcases (fate o ch).deliver_cases (answer o ch w) w with
    ⟨message, hd⟩ | ⟨a, w'', hans, hd | ⟨message, hd⟩⟩
  · rw [hd] at hr
    cases hr
    exact .inl ⟨rfl, message, rfl⟩
  · rw [hd] at hr
    cases hr
    exact .inr ⟨ch, a, hans, .inl rfl⟩
  · rw [hd] at hr
    cases hr
    exact .inr ⟨ch, a, hans, .inr ⟨message, rfl⟩⟩

theorem follows_answered {f : Reply o → Program ⟨Op, Reply, String⟩ α} {Q : Except String α → W → Prop}
    (href : ∀ message, Q (.error message) w)
    (hlost : ∀ message ch a w', answer o ch w = .ok (a, w') → Q (.error message) w')
    (hf : ∀ ch a w', answer o ch w = .ok (a, w') → Follows (machine (answering fate answer)) w' (f a) Q) :
    Follows (machine (answering fate answer)) w (Program.perform (S := ⟨Op, Reply, String⟩) o >>= f) Q := by
  apply follows_bind
  refine follows_op ?_
  intro r w' h
  rcases answering_cases h with ⟨rfl, message, rfl⟩ | ⟨ch, a, hans, rfl | ⟨message, rfl⟩⟩
  · exact href message
  · exact hf ch a w' hans
  · exact hlost message ch a w' hans

/-- What a call leaves that nothing runs beside, its operations being decided beforehand. -/
theorem alone_answered {choices : Op → C} {a : Reply o} (h : answer o (choices o) w = .ok (a, w'))
    (f : Reply o → Program ⟨Op, Reply, String⟩ α) :
    let run := fun o w => (fate o (choices o)).deliver (answer o (choices o) w) w
    ((Program.perform (S := ⟨Op, Reply, String⟩) o >>= f).alone run w).2 =
      match fate o (choices o) with
      | .done => ((f a).alone run w').2
      | .refused _ => w
      | .lost _ => w' := by
  intro run
  rw [Program.alone_bind, Program.alone_perform]
  simp only [run, h, Fate.deliver]
  cases fate o (choices o) with
  | done => rfl
  | refused message => rfl
  | lost message => rfl

theorem follows_keeping {P : Op → Prop} {I : W → Prop} {p : Program ⟨Op, Reply, String⟩ α} (hp : p.Only P)
    (hw : I w) (hkeeps : ∀ o ch w a w', P o → I w → answer o ch w = .ok (a, w') → I w') :
    Follows (machine (answering fate answer)) w p fun _ w' => I w' := by
  refine follows_within (I := I) hp hw (fun _ _ _ _ => trivial) ?_
  intro w o r w' hw ho h
  rcases answering_cases h with ⟨rfl, -, -⟩ | ⟨ch, a, hans, -⟩
  · exact hw
  · exact hkeeps o ch w a w' ho hw hans

end

/-! ### What a call has done when it returns

What a program is certain to have performed before it returns (`Program.Certain`) has been performed at a step between
its call and its return, whatever else went on (`Run.performs`). -/

variable {S : Signature} {W α β : Type} {sys : System S W} {guard : Pool S W → Action sys → Prop}

def Program.Certain (goal : (o : S.Op) → S.Result o → Prop) : Program S α → Prop
  | .ret _ => False
  | .fail _ => True
  | .call o next => ∀ r, goal o r ∨ (next r).Certain goal

section
variable {goal : (o : S.Op) → S.Result o → Prop} {p : Program S α}

theorem certain_perform {o : S.Op} (h : ∀ a, goal o (.ok a)) : (Program.perform o).Certain goal := by
  intro r
  cases r with
  | ok a => exact .inl (h a)
  | error e => exact .inr trivial

end

/-- The runner has taken no operation from `p` on. -/
structure Untouched (i : Nat) (p q : Pool S W) : Prop where
  program : q.runners[i]? = p.runners[i]?
  performed : ∀ e ∈ q.trace, e.runner = i → e ∈ p.trace

theorem Untouched.refl (i : Nat) (p : Pool S W) : Untouched i p p := ⟨rfl, fun _ he _ => he⟩

variable {q : Pool S W} {i : Nat}

theorem Untouched.step {p r : Pool S W} {a : Action sys} (h : Untouched i p q) (hi : i < p.runners.length)
    (hother : ∀ ch, a ≠ .step i ch) (hstep : q.step sys a = some r) : Untouched i p r := by
  have hlt : i < q.runners.length := by
    have hprog := h.program
    rw [List.getElem?_eq_getElem hi] at hprog
    exact (List.getElem?_eq_some_iff.mp hprog).1
  cases a with
  | call c =>
    obtain ⟨w, -, rfl⟩ := Option.map_eq_some_iff.mp hstep
    exact ⟨(List.getElem?_append_left hlt).trans h.program, h.performed⟩
  | drift e =>
    cases hstep
    exact ⟨h.program, h.performed⟩
  | step j ch =>
    have hij : j ≠ i := by
      rintro rfl
      exact hother ch rfl
    simp only [Pool.step] at hstep
    split at hstep
    · cases hstep
      refine ⟨(List.getElem?_set_ne hij).trans h.program, fun e he hrun => ?_⟩
      rcases List.mem_cons.mp he with rfl | he
      · exact absurd hrun hij
      · exact h.performed e he hrun
    · cases hstep

variable {p : Pool S W}

/-- A call that waits on an operation waits still, or there was the step at which it took it. -/
theorem Run.taken {o : S.Op} {next : S.Result o → Program S Unit} (h : Run sys guard p q)
    (hp : p.runners[i]? = some (.call o next)) : Untouched i p q ∨ ∃ m ch, Run sys guard p m ∧ Untouched i p m ∧
      guard m (.step i ch) ∧ Run sys guard (m.after sys i o next ch) q := by
  have hlt : i < p.runners.length := (List.getElem?_eq_some_iff.mp hp).1
  induction h with
  | refl => exact .inl (.refl i p)
  | @step q r a before meets hstep ih =>
    rcases ih with huntouched | ⟨m, ch, hm, huntouched, hmeets, hrest⟩
    · by_cases hown : ∃ ch, a = .step i ch
      · obtain ⟨ch, rfl⟩ := hown
        have hprog := huntouched.program.trans hp
        simp only [Pool.step, hprog, Option.some.injEq] at hstep
        refine .inr ⟨q, ch, before, huntouched, meets, ?_⟩
        rw [hstep]
        exact .refl r
      · exact .inl (huntouched.step hlt (fun ch ha => hown ⟨ch, ha⟩) hstep)
    · exact .inr ⟨m, ch, hm, huntouched, hmeets, .step hrest meets hstep⟩

variable {program : Program S Unit}

theorem Run.ended (h : Run sys guard p q) (hp : p.runners[i]? = some program)
    (hdone : program.done = true) : Untouched i p q := by
  have hlt : i < p.runners.length := (List.getElem?_eq_some_iff.mp hp).1
  induction h with
  | refl => exact .refl i p
  | @step q r a before meets hstep ih =>
    refine ih.step hlt (fun ch ha => ?_) hstep
    subst ha
    simp only [Pool.step, ih.program.trans hp] at hstep
    cases program with
    | call o next => cases hdone
    | ret a => cases hstep
    | fail e => cases hstep

theorem Pool.after_runner {o : S.Op} {next : S.Result o → Program S Unit}
    (hp : p.runners[i]? = some (.call o next)) (ch : sys.Choice) :
    (p.after sys i o next ch).runners[i]? = some (next (sys.perform o ch p.world).1) :=
  List.getElem?_set_self (List.getElem?_eq_some_iff.mp hp).1

/-- What a call performs from `p` on is among the operations its program may perform. -/
theorem Run.only {P : S.Op → Prop} (h : Run sys guard p q) (hp : p.runners[i]? = some program)
    (honly : program.Only P) :
    ∀ e ∈ q.trace, e.runner = i → e ∈ p.trace ∨ P e.op := by
  have hkept : (∃ program', q.runners[i]? = some program' ∧ program'.Only P) ∧
      ∀ e ∈ q.trace, e.runner = i → e ∈ p.trace ∨ P e.op := by
    induction h with
    | refl => exact ⟨⟨program, hp, honly⟩, fun e he _ => .inl he⟩
    | @step q r a _ _ hstep ih =>
      obtain ⟨⟨program', hq, honly'⟩, hperformed⟩ := ih
      have hlt : i < q.runners.length := (List.getElem?_eq_some_iff.mp hq).1
      by_cases hown : ∃ ch, a = .step i ch
      · obtain ⟨ch, rfl⟩ := hown
        simp only [Pool.step, hq] at hstep
        cases program' with
        | ret b => cases hstep
        | fail e => cases hstep
        | call o next =>
          cases hstep
          refine ⟨⟨_, Pool.after_runner hq ch, honly'.2 _⟩, fun e he hrun => ?_⟩
          rcases List.mem_cons.mp he with rfl | he
          · exact .inr honly'.1
          · exact hperformed e he hrun
      · have huntouched := (Untouched.refl i q).step hlt (fun ch ha => hown ⟨ch, ha⟩) hstep
        refine ⟨⟨program', huntouched.program.trans hq, honly'⟩, fun e he hrun => ?_⟩
        exact hperformed e (huntouched.performed e he hrun) hrun
  exact hkept.2

end Delego.Process
