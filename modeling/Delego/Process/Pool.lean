import Delego.Process.Program
import Mathlib.Logic.Function.Basic

/-! Runners that interleave at every operation.

A `System` gives operations their meaning on a shared world, up to a choice of the environment, and says which calls may
arrive and which program each one runs. A `Pool` is a world with any number of runners in it. One `Action` admits a call,
lets one runner take its operation, or lets the world drift on its own (time passing); every order of actions is a run.

An invariant over all runs is an `Inductive` one: a relation between the world, the trace and a phase for each runner,
in which the programs follow a protocol. -/
namespace Delego.Process
open List Function

/-- What operations do, which calls arrive, and what they run. -/
structure System (S : Signature) (W : Type) where
  /-- What the environment decides about one operation: an outcome, a failure. -/
  Choice : Type
  /-- What the world does on its own. -/
  (Event Call : Type)
  perform : (o : S.Op) → Choice → W → S.Result o × W
  drift : Event → W → W
  /-- The world in which an arriving call starts, if it may arrive. -/
  arrive : Call → W → Option W
  body : Call → Program S Unit

/-- An operation that a runner has taken, and its reply. -/
structure Entry (S : Signature) where
  runner : Nat
  op : S.Op
  result : S.Result op

/-- A world, and the programs that are under way in it. -/
structure Pool (S : Signature) (W : Type) where
  world : W
  trace : List (Entry S)
  runners : List (Program S Unit)

/-- What can come next. -/
inductive Action {S : Signature} {W : Type} (sys : System S W) where
  | call (c : sys.Call)
  | step (runner : Nat) (ch : sys.Choice)
  | drift (e : sys.Event)

variable {S : Signature} {W Φ : Type} {sys : System S W}

namespace Pool

def start (w : W) : Pool S W := ⟨w, [], []⟩

def pending (p : Pool S W) (i : Nat) : Option S.Op := p.runners[i]?.bind Program.pending

def quiet (p : Pool S W) : Bool := p.runners.all Program.done

/-- The pool after runner `i`, waiting on `o`, is given its result. -/
def after (sys : System S W) (p : Pool S W) (i : Nat) (o : S.Op)
    (next : S.Result o → Program S Unit) (ch : sys.Choice) : Pool S W :=
  let answer := sys.perform o ch p.world
  ⟨answer.2, ⟨i, o, answer.1⟩ :: p.trace, p.runners.set i (next answer.1)⟩

def step (sys : System S W) (p : Pool S W) : Action sys → Option (Pool S W)
  | .call c => (sys.arrive c p.world).map fun w => ⟨w, p.trace, p.runners ++ [sys.body c]⟩
  | .step i ch => match p.runners[i]? with
    | some (.call o next) => some (p.after sys i o next ch)
    | _ => none
  | .drift e => some {p with world := sys.drift e p.world}

def runWhile (sys : System S W) (allow : Pool S W → Action sys → Bool) (p : Pool S W) :
    List (Action sys) → Option (Pool S W)
  | [] => some p
  | a :: rest => if allow p a then (p.step sys a).bind fun q => q.runWhile sys allow rest else none

end Pool

/-- `q` is reached from `p` by steps that all meet the guard. -/
inductive Run (sys : System S W) (guard : Pool S W → Action sys → Prop) :
    Pool S W → Pool S W → Prop where
  | refl (p : Pool S W) : Run sys guard p p
  | step {p q r : Pool S W} {a : Action sys} (before : Run sys guard p q) (meets : guard q a)
      (next : q.step sys a = some r) : Run sys guard p r

variable {guard : Pool S W → Action sys → Prop}
  {p q : Pool S W} {a : Action sys}

theorem Run.head {r : Pool S W} (meets : guard p a) (next : p.step sys a = some q) (h : Run sys guard q r) :
    Run sys guard p r := by
  induction h with
  | refl => exact .step (.refl p) meets next
  | step _ meets' next' ih => exact .step ih meets' next'

theorem Run.trans {r : Pool S W} (h : Run sys guard p q) (h' : Run sys guard q r) :
    Run sys guard p r := by
  induction h' with
  | refl => exact h
  | step _ meets next ih => exact .step ih meets next

theorem Run.mono {guard' : Pool S W → Action sys → Prop} (h : Run sys guard p q) (hg : ∀ p a, guard p a → guard' p a) :
    Run sys guard' p q := by
  induction h with
  | refl => exact .refl _
  | step _ meets next ih => exact .step ih (hg _ _ meets) next

theorem Run.of_runWhile {allow : Pool S W → Action sys → Bool} {actions : List (Action sys)}
    (h : p.runWhile sys allow actions = some q) :
    Run sys (fun p a => allow p a = true) p q := by
  induction actions generalizing p with
  | nil =>
    cases h
    exact .refl _
  | cons a rest ih =>
    simp only [Pool.runWhile] at h
    split at h
    · rename_i ha
      obtain ⟨p', hp', hrest⟩ := Option.bind_eq_some_iff.mp h
      exact .head ha hp' (ih hrest)
    · cases h

def Pool.reached (sys : System S W) (allow : Pool S W → Action sys → Bool) (p : Pool S W)
    (actions : List (Action sys)) : Pool S W :=
  (p.runWhile sys allow actions).getD p

theorem Run.of_reached {allow : Pool S W → Action sys → Bool} {actions : List (Action sys)}
    (h : (p.runWhile sys allow actions).isSome = true) :
    Run sys (fun p a => allow p a = true) p (p.reached sys allow actions) := by
  obtain ⟨q, hq⟩ := Option.isSome_iff_exists.mp h
  rw [Pool.reached, hq]
  exact .of_runWhile hq

theorem Run.exists_of_any (p : Pool S W) (allow : Pool S W → Action sys → Bool)
    (actions : List (Action sys)) (test : Pool S W → Bool)
    (h : (p.runWhile sys allow actions).any test = true) :
    ∃ q, Run sys (fun p a => allow p a = true) p q ∧ test q = true := by
  obtain ⟨q, hq, htest⟩ := (Option.any_eq_true ..).mp h
  exact ⟨q, .of_runWhile hq, htest⟩

/-- One list of actions leads to a state, and another on to a second, that pass a test. -/
theorem Run.exists_then_of_any (p : Pool S W) (allow : Pool S W → Action sys → Bool) (first rest : List (Action sys))
    (test : Pool S W → Pool S W → Bool)
    (h : (p.runWhile sys allow first).any (fun q => (q.runWhile sys allow rest).any (test q)) = true) :
    ∃ q r, Run sys (fun p a => allow p a = true) p q ∧ Run sys (fun p a => allow p a = true) q r ∧ test q r = true := by
  obtain ⟨q, hq, h⟩ := (Option.any_eq_true ..).mp h
  obtain ⟨r, hr, htest⟩ := (Option.any_eq_true ..).mp h
  exact ⟨q, r, .of_runWhile hq, .of_runWhile hr, htest⟩

/-- A condition on the operation that a runner is about to take; calls and drifts are
free. -/
def onStep (cond : Pool S W → Nat → S.Op → sys.Choice → Bool) (p : Pool S W) : Action sys → Bool
  | .step i ch => (p.pending i).all fun o => cond p i o ch
  | _ => true

variable {i : Nat} {ch : sys.Choice} {o : S.Op}

theorem onStep_pending {cond : Pool S W → Nat → S.Op → sys.Choice → Bool} (h : onStep cond p (.step i ch) = true)
    (hp : p.pending i = some o) : cond p i o ch = true := by
  simp only [onStep, hp, Option.all_some] at h
  exact h

def onCall (cond : sys.Call → Bool) : Action sys → Bool
  | .call c => cond c
  | _ => true

def onDrift (cond : W → sys.Event → Bool) (p : Pool S W) : Action sys → Bool
  | .drift e => cond p.world e
  | _ => true

theorem Run.strengthen {Inv : Pool S W → Prop} (h : Run sys guard p q) (hp : Inv p)
    (hstep : ∀ p a q, Inv p → guard p a → p.step sys a = some q → Inv q) :
    Inv q ∧ Run sys (fun p a => guard p a ∧ Inv p) p q := by
  induction h with
  | refl => exact ⟨hp, .refl _⟩
  | step _ meets next ih => exact ⟨hstep _ _ _ ih.1 meets next, .step ih.2 ⟨meets, ih.1⟩ next⟩

variable {w : W}

theorem performed_step (h : ∀ e ∈ p.trace, e.runner < p.runners.length) (hstep : p.step sys a = some q) :
    ∀ e ∈ q.trace, e.runner < q.runners.length := by
  cases a with
  | call c =>
    obtain ⟨w, _, rfl⟩ := Option.map_eq_some_iff.mp hstep
    intro e he
    have hlt := h e he
    simp only [length_append, length_singleton]
    omega
  | drift e =>
    cases hstep
    exact h
  | step i ch =>
    simp only [Pool.step] at hstep
    split at hstep
    · rename_i o next hi
      cases hstep
      intro e he
      simp only [Pool.after, length_set]
      rcases mem_cons.mp he with rfl | he
      · exact (List.getElem?_eq_some_iff.mp hi).1
      · exact h e he
    · cases hstep

theorem Run.performed (h : Run sys guard (Pool.start w) q) : ∀ e ∈ q.trace, e.runner < q.runners.length := by
  induction h with
  | refl => exact fun _ hmem => absurd hmem not_mem_nil
  | step _ _ next ih => exact performed_step ih next

/-- Every runner but the last has ended. -/
structure InTurn (p : Pool S W) : Prop where
  ended : ∀ i program, i + 1 < p.runners.length → p.runners[i]? = some program → program.done = true
  performed : ∀ e ∈ p.trace, e.runner < p.runners.length

theorem InTurn.last (h : InTurn p) (hp : p.pending i = some o) : p.runners.length ≤ i + 1 := by
  obtain ⟨program, hi, hpend⟩ := Option.bind_eq_some_iff.mp hp
  by_contra hlater
  have hdone := h.ended i program (by omega) hi
  cases program with
  | call o' next => cases hdone
  | ret a => cases hpend
  | fail e => cases hpend

theorem InTurn.latest (h : InTurn p) (hp : p.pending i = some o) : ∀ e ∈ p.trace, e.runner ≤ i := by
  intro e he
  have hlt := h.performed e he
  have hlast := h.last hp
  omega

theorem inTurn_start (w : W) : InTurn (Pool.start w : Pool S W) where
  ended := fun _ _ h => absurd h (Nat.not_lt_zero _)
  performed := fun _ h => by cases h

theorem InTurn.step (h : InTurn p) (hcall : ∀ c, a = .call c → p.quiet = true) (hstep : p.step sys a = some q) :
    InTurn q := by
  refine ⟨?_, performed_step h.performed hstep⟩
  cases a with
  | call c =>
    obtain ⟨w, _, rfl⟩ := Option.map_eq_some_iff.mp hstep
    have hquiet := all_eq_true.mp (hcall c rfl)
    intro i program hlt hi
    simp only [length_append, length_singleton] at hlt
    rw [getElem?_append_left (by omega)] at hi
    exact hquiet program (mem_of_getElem? hi)
  | drift e =>
    cases hstep
    exact h.ended
  | step i ch =>
    simp only [Pool.step] at hstep
    split at hstep
    · rename_i o next hi
      cases hstep
      intro j program hj hprog
      simp only [Pool.after, length_set] at hj hprog
      have hij : i ≠ j := by
        intro heq
        subst heq
        have hdone := h.ended i _ hj hi
        cases hdone
      rw [getElem?_set_ne hij] at hprog
      exact h.ended j program hj hprog
    · cases hstep

section
variable {enters : S.Op → Bool}

/-- The runner that was the last to enter. -/
def latest (enters : S.Op → Bool) (tr : List (Entry S)) : Option Nat := (tr.find? fun e => enters e.op).map Entry.runner

def entersInTurn (enters : S.Op → Bool) (p : Pool S W) (_ : Nat) (o : S.Op) (_ : sys.Choice) : Bool :=
  !enters o || p.trace.all fun e => !enters e.op || (p.runners[e.runner]?).all Program.done

def TakesTurns (enters : S.Op → Bool) (p : Pool S W) : Prop :=
  ∀ e ∈ p.trace, enters e.op = true → ∀ program, p.runners[e.runner]? = some program →
    latest enters p.trace = some e.runner ∨ program.done = true

theorem latest_cons (i : Nat) (o : S.Op) (r : S.Result o) (tr : List (Entry S)) :
    latest enters (⟨i, o, r⟩ :: tr) = if enters o then some i else latest enters tr := by
  unfold latest
  by_cases h : enters o = true
  · simp [h]
  · simp [h]

theorem TakesTurns.latest {p : Pool S W} (h : TakesTurns enters p) {e : Entry S} (he : e ∈ p.trace)
    (henters : enters e.op = true) {o : S.Op} (hp : p.pending e.runner = some o) :
    latest enters p.trace = some e.runner := by
  obtain ⟨program, hi, hpend⟩ := Option.bind_eq_some_iff.mp hp
  rcases h e he henters program hi with hlat | hdone
  · exact hlat
  · cases program with
    | call o' next => cases hdone
    | ret a => cases hpend
    | fail e => cases hpend

theorem TakesTurns.step {p q : Pool S W} {a : Action sys} (h : TakesTurns enters p)
    (hperformed : ∀ e ∈ p.trace, e.runner < p.runners.length) (hturn : onStep (entersInTurn enters) p a = true)
    (hstep : p.step sys a = some q) : TakesTurns enters q := by
  cases a with
  | call c =>
    obtain ⟨w, _, rfl⟩ := Option.map_eq_some_iff.mp hstep
    intro e he henters program hi
    rw [getElem?_append_left (hperformed e he)] at hi
    exact h e he henters program hi
  | drift e =>
    cases hstep
    exact h
  | step i ch =>
    simp only [Pool.step] at hstep
    split at hstep
    · rename_i o next hi
      cases hstep
      have hp : p.pending i = some o := by simp [Pool.pending, hi, Program.pending]
      have hfree := onStep_pending hturn hp
      intro e he henters program hprog
      simp only [Pool.after] at he hprog ⊢
      rw [latest_cons]
      by_cases hei : e.runner = i
      · by_cases ho : enters o = true
        · exact .inl (by rw [if_pos ho, hei])
        · rw [if_neg ho]
          rcases mem_cons.mp he with rfl | he
          · exact absurd henters ho
          · exact .inl (h.latest he henters (hei ▸ hp))
      · rw [getElem?_set_ne (Ne.symm hei)] at hprog
        have he' : e ∈ p.trace := by
          rcases mem_cons.mp he with rfl | he'
          · exact absurd rfl hei
          · exact he'
        by_cases ho : enters o = true
        · right
          simp only [entersInTurn, ho, Bool.not_true, Bool.false_or, all_eq_true] at hfree
          have hdone := hfree e he'
          rw [henters, hprog] at hdone
          simpa using hdone
        · rw [if_neg ho]
          exact h e he' henters program hprog
    · cases hstep

end

/-- A phase for every runner: each program follows the protocol from its runner's
phase, runners still to come are in the initial one, and `J` relates the phases to
the world and the trace. -/
structure Tracked (P : Protocol S Φ) (φ₀ : Φ) (J : W → List (Entry S) → (Nat → Φ) → Prop)
    (p : Pool S W) (φ : Nat → Φ) : Prop where
  follows : ∀ i program, p.runners[i]? = some program → Follows P (φ i) program (fun _ φ' => P.Ends φ')
  fresh : ∀ i, p.runners.length ≤ i → φ i = φ₀
  holds : J p.world p.trace φ

/-- An invariant that arrivals, drifts and operations keep. -/
structure Inductive (sys : System S W) (P : Protocol S Φ) (φ₀ : Φ)
    (guard : Pool S W → Action sys → Prop) (J : W → List (Entry S) → (Nat → Φ) → Prop) :
    Prop where
  body : ∀ p c, guard p (.call c) → Follows P φ₀ (sys.body c) (fun _ φ' => P.Ends φ')
  arrive : ∀ p φ c w, guard p (.call c) → Tracked P φ₀ J p φ → sys.arrive c p.world = some w → J w p.trace φ
  drift : ∀ p φ e, guard p (.drift e) → Tracked P φ₀ J p φ → J (sys.drift e p.world) p.trace φ
  /-- The reply to a permitted operation is one the protocol expects. -/
  answers : ∀ p φ i o ch, guard p (.step i ch) → p.pending i = some o → Tracked P φ₀ J p φ → P.Allowed (φ i) o →
    ∃ φ', P.Moves (φ i) o (sys.perform o ch p.world).1 φ'
  step : ∀ p φ i o ch φ', guard p (.step i ch) → p.pending i = some o → Tracked P φ₀ J p φ → P.Allowed (φ i) o →
    P.Moves (φ i) o (sys.perform o ch p.world).1 φ' →
    J (sys.perform o ch p.world).2 (⟨i, o, (sys.perform o ch p.world).1⟩ :: p.trace) (update φ i φ')

variable {P : Protocol S Φ} {φ₀ : Φ} {J : W → List (Entry S) → (Nat → Φ) → Prop}

theorem Tracked.start (h : J w [] (fun _ => φ₀)) : Tracked P φ₀ J (Pool.start w) (fun _ => φ₀) where
  follows := by
    intro i program hi
    cases hi
  fresh := fun _ _ => rfl
  holds := h

variable {φ : Nat → Φ}

theorem Tracked.ends (h : Tracked P φ₀ J p φ) {program : Program S Unit} (hi : p.runners[i]? = some program)
    (hdone : program.done = true) :
    P.Ends (φ i) := by
  cases program with
  | call o next => cases hdone
  | ret a => exact h.follows i _ hi
  | fail e => exact h.follows i _ hi

theorem Tracked.quiet (h : Tracked P φ₀ J p φ) (hquiet : p.quiet = true) (i : Nat) : P.Ends (φ i) ∨ φ i = φ₀ := by
  by_cases hi : i < p.runners.length
  · have hprog := getElem?_eq_getElem hi
    exact .inl (h.ends hprog (all_eq_true.mp hquiet _ (mem_of_getElem? hprog)))
  · exact .inr (h.fresh i (by omega))

theorem Tracked.active (h : Tracked P φ₀ J p φ) (hbegun : φ i ≠ φ₀) (hends : ¬P.Ends (φ i)) :
    ∃ program o, p.runners[i]? = some program ∧ program.pending = some o ∧ P.Allowed (φ i) o := by
  have hlt : i < p.runners.length := by
    by_contra hge
    exact hbegun (h.fresh i (by omega))
  have hprog := getElem?_eq_getElem hlt
  have hfollows := h.follows i _ hprog
  cases hshape : p.runners[i] with
  | ret a =>
    rw [hshape] at hfollows
    exact absurd hfollows hends
  | fail e =>
    rw [hshape] at hfollows
    exact absurd hfollows hends
  | call o next =>
    rw [hshape] at hfollows hprog
    exact ⟨_, o, hprog, rfl, hfollows.1⟩

theorem Tracked.allowed (h : Tracked P φ₀ J p φ) (hp : p.pending i = some o) : P.Allowed (φ i) o := by
  obtain ⟨program, hi, hpend⟩ := Option.bind_eq_some_iff.mp hp
  cases program with
  | call o' next =>
    cases hpend
    exact (h.follows i _ hi).1
  | ret a => cases hpend
  | fail e => cases hpend

theorem Tracked.mono {J' : W → List (Entry S) → (Nat → Φ) → Prop} (h : Tracked P φ₀ J p φ)
    (hJ : J p.world p.trace φ → J' p.world p.trace φ) :
    Tracked P φ₀ J' p φ := ⟨h.follows, h.fresh, hJ h.holds⟩

theorem Tracked.others (h : Tracked P φ₀ J p φ) (hturn : InTurn p) (hp : p.pending i = some o) (j : Nat) (hj : j ≠ i) :
    P.Ends (φ j) ∨ φ j = φ₀ := by
  have hlast := hturn.last hp
  by_cases hjlt : j < p.runners.length
  · have hprog := getElem?_eq_getElem hjlt
    obtain ⟨program, hi, _⟩ := Option.bind_eq_some_iff.mp hp
    have hlt : i < p.runners.length := (List.getElem?_eq_some_iff.mp hi).1
    exact .inl (h.ends hprog (hturn.ended j _ (by omega) hprog))
  · exact .inr (h.fresh j (by omega))

theorem Tracked.later (h : Tracked P φ₀ J p φ) (hturn : InTurn p) {j : Nat} (hp : p.pending i = some o) (hj : i < j) :
    φ j = φ₀ := by
  have hlast := hturn.last hp
  exact h.fresh j (by omega)

theorem Inductive.tracked_call (h : Inductive sys P φ₀ guard J) (ht : Tracked P φ₀ J p φ) {c : sys.Call}
    (hg : guard p (.call c)) (hw : sys.arrive c p.world = some w) :
    Tracked P φ₀ J ⟨w, p.trace, p.runners ++ [sys.body c]⟩ φ where
  follows := by
    intro i program hi
    rcases Nat.lt_or_ge i p.runners.length with hlt | hge
    · rw [getElem?_append_left hlt] at hi
      exact ht.follows i program hi
    · rw [getElem?_append_right hge] at hi
      obtain ⟨hlt, rfl⟩ := List.getElem?_eq_some_iff.mp hi
      simp only [List.getElem_singleton]
      rw [ht.fresh i hge]
      exact h.body p c hg
  fresh := by
    intro i hi
    simp only [length_append] at hi
    exact ht.fresh i (by omega)
  holds := h.arrive p φ c w hg ht hw

variable {next : S.Result o → Program S Unit}

theorem Inductive.tracked_moves (h : Inductive sys P φ₀ guard J) (ht : Tracked P φ₀ J p φ)
    (hg : guard p (.step i ch)) (hi : p.runners[i]? = some (.call o next))
    {φ' : Φ} (hmoves : P.Moves (φ i) o (sys.perform o ch p.world).1 φ') :
    Tracked P φ₀ J (p.after sys i o next ch) (update φ i φ') := by
  obtain ⟨hallow, hnext⟩ := ht.follows i _ hi
  have hpend : p.pending i = some o := by simp [Pool.pending, hi, Program.pending]
  have hlt : i < p.runners.length := (List.getElem?_eq_some_iff.mp hi).1
  refine ⟨?_, ?_, h.step p φ i o ch φ' hg hpend ht hallow hmoves⟩
  · intro j program hj
    by_cases hij : i = j
    · subst hij
      simp only [Pool.after, getElem?_set_self hlt, Option.some.injEq] at hj
      subst hj
      rw [update_self]
      exact hnext _ _ hmoves
    · simp only [Pool.after, getElem?_set_ne hij] at hj
      rw [update_of_ne (Ne.symm hij)]
      exact ht.follows j program hj
  · intro j hj
    simp only [Pool.after, length_set] at hj
    rw [update_of_ne (by omega)]
    exact ht.fresh j hj

theorem Inductive.tracked_step (h : Inductive sys P φ₀ guard J) (ht : Tracked P φ₀ J p φ)
    (hg : guard p (.step i ch)) (hi : p.runners[i]? = some (.call o next)) :
    ∃ φ', Tracked P φ₀ J (p.after sys i o next ch) (update φ i φ') := by
  have hpend : p.pending i = some o := by simp [Pool.pending, hi, Program.pending]
  obtain ⟨φ', hmoves⟩ := h.answers p φ i o ch hg hpend ht (ht.allowed hpend)
  exact ⟨φ', h.tracked_moves ht hg hi hmoves⟩

/-- **An inductive relation survives every run.** -/
theorem Inductive.run (h : Inductive sys P φ₀ guard J) (hr : Run sys guard p q) (hp : ∃ φ, Tracked P φ₀ J p φ) :
    ∃ φ, Tracked P φ₀ J q φ := by
  induction hr with
  | refl => exact hp
  | @step q r a _ meets next ih =>
    obtain ⟨φ, ht⟩ := ih
    cases a with
    | call c =>
      obtain ⟨w, hw, rfl⟩ := Option.map_eq_some_iff.mp next
      exact ⟨φ, h.tracked_call ht meets hw⟩
    | drift e =>
      cases next
      exact ⟨φ, ⟨ht.follows, ht.fresh, h.drift q φ e meets ht⟩⟩
    | step i ch =>
      simp only [Pool.step] at next
      split at next
      · rename_i o rest hi
        cases next
        obtain ⟨φ', ht'⟩ := h.tracked_step ht meets hi
        exact ⟨_, ht'⟩
      · cases next

/-- A second relation on top of an inductive one: its obligations may use the
first, and the replies are already accounted for. -/
theorem Inductive.and {guard' : Pool S W → Action sys → Prop}
    {K : W → List (Entry S) → (Nat → Φ) → Prop} (h : Inductive sys P φ₀ guard J)
    (hg : ∀ p a, guard' p a → guard p a)
    (arrive : ∀ p φ c w, guard' p (.call c) → Tracked P φ₀ J p φ → K p.world p.trace φ →
      sys.arrive c p.world = some w → K w p.trace φ)
    (drift : ∀ p φ e, guard' p (.drift e) → Tracked P φ₀ J p φ → K p.world p.trace φ → K (sys.drift e p.world) p.trace φ)
    (step : ∀ p φ i o ch φ', guard' p (.step i ch) → p.pending i = some o →
      Tracked P φ₀ J p φ → K p.world p.trace φ → P.Allowed (φ i) o →
      P.Moves (φ i) o (sys.perform o ch p.world).1 φ' →
      K (sys.perform o ch p.world).2 (⟨i, o, (sys.perform o ch p.world).1⟩ :: p.trace) (update φ i φ')) :
    Inductive sys P φ₀ guard' (fun w tr φ => J w tr φ ∧ K w tr φ) where
  body := fun p c hg' => h.body p c (hg _ _ hg')
  arrive := by
    intro p φ c w hg' ht hw
    have hj := ht.mono And.left
    exact ⟨h.arrive p φ c w (hg _ _ hg') hj hw, arrive p φ c w hg' hj ht.holds.2 hw⟩
  drift := by
    intro p φ e hg' ht
    have hj := ht.mono And.left
    exact ⟨h.drift p φ e (hg _ _ hg') hj, drift p φ e hg' hj ht.holds.2⟩
  answers := fun p φ i o ch hg' hp ht ha => h.answers p φ i o ch (hg _ _ hg') hp (ht.mono And.left) ha
  step := by
    intro p φ i o ch φ' hg' hp ht ha hm
    have hj := ht.mono And.left
    exact ⟨h.step p φ i o ch φ' (hg _ _ hg') hp hj ha hm, step p φ i o ch φ' hg' hp hj ht.holds.2 ha hm⟩

/-! ### Runners that have not ended -/

/-- The phase of each runner that has not ended. -/
def Pool.live (p : Pool S W) (φ₀ : Φ) (φ : Nat → Φ) (i : Nat) : Φ := if (p.pending i).isSome then φ i else φ₀

theorem Pool.live_pending (hp : p.pending i = some o) : p.live φ₀ φ i = φ i := by simp [Pool.live, hp]

theorem Pool.live_call (hfresh : ∀ i, p.runners.length ≤ i → φ i = φ₀) (w : W) (program : Program S Unit) :
    (⟨w, p.trace, p.runners ++ [program]⟩ : Pool S W).live φ₀ φ = p.live φ₀ φ := by
  funext j
  rcases Nat.lt_or_ge j p.runners.length with hlt | hge
  · simp only [Pool.live, Pool.pending, getElem?_append_left hlt]
    rfl
  · simp [Pool.live, hfresh j hge]

theorem Pool.live_after (hi : p.runners[i]? = some (.call o next)) (φ' : Φ) :
    (p.after sys i o next ch).live φ₀ (update φ i φ') = update (p.live φ₀ φ) i
      (if (next (sys.perform o ch p.world).1).pending.isSome then φ' else φ₀) := by
  have hlt : i < p.runners.length := (List.getElem?_eq_some_iff.mp hi).1
  funext j
  by_cases hj : j = i
  · subst hj
    simp [Pool.live, Pool.pending, Pool.after, getElem?_set_self hlt]
  · rw [update_of_ne hj, Pool.live, Pool.live, update_of_ne hj]
    simp only [Pool.pending, Pool.after, getElem?_set_ne (Ne.symm hj)]
    rfl

/-- **A relation on the phases of the runners that have not ended survives every run**, if it may forget a
runner in a phase in which a program can end. -/
theorem Inductive.run_live {K : W → List (Entry S) → (Nat → Φ) → Prop} (h : Inductive sys P φ₀ guard J)
    (arrive : ∀ c w w' tr φ, K w tr φ → sys.arrive c w = some w' → K w' tr φ)
    (drift : ∀ p φ e, guard p (.drift e) → Tracked P φ₀ J p φ → K p.world p.trace (p.live φ₀ φ) →
      K (sys.drift e p.world) p.trace (p.live φ₀ φ))
    (rest : ∀ w tr φ i, K w tr φ → P.Ends (φ i) → K w tr (update φ i φ₀))
    (step : ∀ p φ i o ch φ', guard p (.step i ch) → p.pending i = some o → Tracked P φ₀ J p φ →
      K p.world p.trace (p.live φ₀ φ) → P.Allowed (φ i) o → P.Moves (φ i) o (sys.perform o ch p.world).1 φ' →
      K (sys.perform o ch p.world).2 (⟨i, o, (sys.perform o ch p.world).1⟩ :: p.trace) (update (p.live φ₀ φ) i φ'))
    (hr : Run sys guard p q) (hp : ∃ φ, Tracked P φ₀ J p φ ∧ K p.world p.trace (p.live φ₀ φ)) :
    ∃ φ, Tracked P φ₀ J q φ ∧ K q.world q.trace (q.live φ₀ φ) := by
  induction hr with
  | refl => exact hp
  | @step q r a _ meets next ih =>
    obtain ⟨φ, ht, hK⟩ := ih
    cases a with
    | call c =>
      obtain ⟨w, hw, rfl⟩ := Option.map_eq_some_iff.mp next
      refine ⟨φ, h.tracked_call ht meets hw, ?_⟩
      rw [Pool.live_call ht.fresh]
      exact arrive c _ w _ _ hK hw
    | drift e =>
      cases next
      exact ⟨φ, ⟨ht.follows, ht.fresh, h.drift q φ e meets ht⟩, drift q φ e meets ht hK⟩
    | step i ch =>
      simp only [Pool.step] at next
      split at next
      · rename_i o rest' hi
        cases next
        have hpend : q.pending i = some o := by simp [Pool.pending, hi, Program.pending]
        have hallow := ht.allowed hpend
        obtain ⟨φ', hmoves⟩ := h.answers q φ i o ch meets hpend ht hallow
        have hstep := step q φ i o ch φ' meets hpend ht hK hallow hmoves
        have ht' := h.tracked_moves ht meets hi hmoves
        refine ⟨_, ht', ?_⟩
        rw [Pool.live_after hi]
        split
        · exact hstep
        · rename_i hended
          have hends : P.Ends φ' := by
            have hdone : (rest' (sys.perform o ch q.world).1).done = true := by
              revert hended
              cases rest' (sys.perform o ch q.world).1 with
              | call o' next' => exact fun hended => absurd rfl hended
              | ret a => exact fun _ => rfl
              | fail e => exact fun _ => rfl
            have hself := ht'.ends (getElem?_set_self (List.getElem?_eq_some_iff.mp hi).1) hdone
            rwa [update_self] at hself
          have hrest := rest _ _ _ i hstep (by rwa [update_self])
          rwa [update_idem] at hrest
      · cases next

end Delego.Process
