/-! Programs over atomic operations.

An asynchronous function, a sequence of awaited operations with ordinary code between them, as data: a `Program` returns,
throws, or performs one operation and goes on with its result.

A `Protocol` says which operations are in order at each phase of a caller and to which phase a result leads. `Follows`
is a program read against a protocol, with a postcondition; its rules are those for sequencing (`follows_bind`,
`follows_andThen`), for catching (`follows_attempt`) and for one operation (`follows_perform`). -/
namespace Delego.Process

/-- Operations, the values they return and the errors they may throw. -/
structure Signature where
  Op : Type
  Reply : Op → Type
  Err : Type

abbrev Signature.Result (S : Signature) (o : S.Op) : Type := Except S.Err (S.Reply o)

/-- What holds of every error and of every value holds of every result. -/
theorem forall_except {ε α : Type} {P : Except ε α → Prop} (herror : ∀ e, P (.error e)) (hok : ∀ a, P (.ok a)) :
    ∀ r, P r
  | .error e => herror e
  | .ok a => hok a

/-- An asynchronous function: every `call` is one await. -/
inductive Program (S : Signature) (α : Type) : Type where
  | ret (value : α)
  | fail (error : S.Err)
  | call (o : S.Op) (next : S.Result o → Program S α)

namespace Program
variable {S : Signature} {α β : Type}

def bind : Program S α → (α → Program S β) → Program S β
  | .ret a, f => f a
  | .fail e, _ => .fail e
  | .call o next, f => .call o (fun r => (next r).bind f)

instance : Monad (Program S) where
  pure := .ret
  bind := bind

/-- The outcome of a program as a value: what `try` sees. -/
def attempt : Program S α → Program S (Except S.Err α)
  | .ret a => .ret (.ok a)
  | .fail e => .ret (.error e)
  | .call o next => .call o (fun r => (next r).attempt)

def done : Program S α → Bool
  | .call _ _ => false
  | _ => true

/-- `try p catch handler`. -/
def tryCatch (p : Program S α) (handler : S.Err → Program S α) : Program S α :=
  p.attempt.bind fun
    | .ok a => .ret a
    | .error e => handler e

/-- One operation; an error it throws is the program's. -/
def perform (o : S.Op) : Program S (S.Reply o) :=
  .call o fun
    | .ok a => .ret a
    | .error e => .fail e

def pending : Program S α → Option S.Op
  | .call o _ => some o
  | _ => none

def alone {W : Type} (run : (o : S.Op) → W → S.Result o × W) : Program S α → W → Except S.Err α × W
  | .ret a, w => (.ok a, w)
  | .fail e, w => (.error e, w)
  | .call o next, w => (next (run o w).1).alone run (run o w).2

variable {W : Type}

theorem alone_bind (run : (o : S.Op) → W → S.Result o × W) (p : Program S α) (f : α → Program S β) (w : W) :
    (p >>= f).alone run w =
      match p.alone run w with
      | (.ok a, w') => (f a).alone run w'
      | (.error e, w') => (.error e, w') := by
  induction p generalizing w with
  | ret a => rfl
  | fail e => rfl
  | call o next ih => exact ih (run o w).1 (run o w).2

variable {p : Program S α} {a : α}
  {run : (o : S.Op) → W → S.Result o × W} {w w' : W}

theorem alone_bind_ok (h : p.alone run w = (.ok a, w'))
    (f : α → Program S β) :
    (p >>= f).alone run w = (f a).alone run w' := by
  rw [alone_bind, h]

theorem alone_bind_error {e : S.Err}
    (h : p.alone run w = (.error e, w')) (f : α → Program S β) :
    (p >>= f).alone run w = (.error e, w') := by
  rw [alone_bind, h]

theorem alone_perform (run : (o : S.Op) → W → S.Result o × W) (o : S.Op) (w : W) :
    (Program.perform o).alone run w = run o w := by
  simp only [Program.perform, alone]
  rcases run o w with ⟨result, w'⟩
  cases result with
  | ok a => rfl
  | error e => rfl

theorem alone_attempt (run : (o : S.Op) → W → S.Result o × W) (p : Program S α) (w : W) :
    p.attempt.alone run w = (.ok (p.alone run w).1, (p.alone run w).2) := by
  induction p generalizing w with
  | ret a => rfl
  | fail e => rfl
  | call o next ih => exact ih (run o w).1 (run o w).2

theorem alone_tryCatch_ok (h : p.alone run w = (.ok a, w'))
    (handler : S.Err → Program S α) :
    (p.tryCatch handler).alone run w = (.ok a, w') := by
  refine (alone_bind run p.attempt _ w).trans ?_
  rw [alone_attempt, h]
  rfl

def ops {W : Type} (run : (o : S.Op) → W → S.Result o × W) : Program S α → W → List S.Op
  | .ret _, _ => []
  | .fail _, _ => []
  | .call o next, w => o :: (next (run o w).1).ops run (run o w).2

theorem ops_bind (h : p.alone run w = (.ok a, w'))
    (f : α → Program S β) :
    (p >>= f).ops run w = p.ops run w ++ (f a).ops run w' := by
  induction p generalizing w with
  | ret b =>
    cases h
    rfl
  | fail e => cases h
  | call o next ih => exact congrArg (o :: ·) (ih (run o w).1 h)

theorem ops_attempt (run : (o : S.Op) → W → S.Result o × W) (p : Program S α) (w : W) :
    p.attempt.ops run w = p.ops run w := by
  induction p generalizing w with
  | ret a => rfl
  | fail e => rfl
  | call o next ih => exact congrArg (o :: ·) (ih (run o w).1 (run o w).2)

theorem ops_perform (run : (o : S.Op) → W → S.Result o × W) (o : S.Op) (w : W) : (Program.perform o).ops run w = [o] := by
  rw [Program.perform, ops]
  rcases run o w with ⟨result, w'⟩
  cases result <;> rfl

end Program

/-- An operation is carried out, or throws: with nothing done, or with its answer lost. -/
inductive Fate where
  | done
  | refused (message : String)
  | lost (message : String)
  deriving DecidableEq

/-- The result of an operation in world `w`, with what it answers and does when it is carried
out. -/
def Fate.carry {α W : Type} (fate : Fate) (answer : α × W) (w : W) : Except String α × W :=
  match fate with
  | .done => (.ok answer.1, answer.2)
  | .refused message => (.error message, w)
  | .lost message => (.error message, answer.2)

theorem Fate.carry_world {α : Type} (fate : Fate) (answer : α × W) (w : W) :
    (fate.carry answer w).2 = w ∨ (fate.carry answer w).2 = answer.2 := by
  cases fate with
  | done => exact .inr rfl
  | refused message => exact .inl rfl
  | lost message => exact .inr rfl

/-- What was so, and is so once the operation is carried out, is so after it. -/
theorem Fate.carry_kept {α : Type} {P : W → Prop} {fate : Fate} {answer : α × W} {w : W} (before : P w)
    (after : P answer.2) : P (fate.carry answer w).2 := by
  rcases fate.carry_world answer w with h | h
  · rw [h]
    exact before
  · rw [h]
    exact after

/-- Which operations a phase permits, where an operation's result leads, and in which
phases a caller may end. -/
structure Protocol (S : Signature) (Φ : Type) where
  Allowed : Φ → S.Op → Prop
  Moves : Φ → (o : S.Op) → S.Result o → Φ → Prop
  Ends : Φ → Prop := fun _ => True

variable {S : Signature} {Φ α β : Type}

/-- From phase `φ` the program performs only permitted operations, whatever they
reply, and ends in an outcome and a phase that satisfy `Q`. -/
def Follows (P : Protocol S Φ) : Φ → Program S α → (Except S.Err α → Φ → Prop) → Prop
  | φ, .ret a, Q => Q (.ok a) φ
  | φ, .fail e, Q => Q (.error e) φ
  | φ, .call o next, Q => P.Allowed φ o ∧ ∀ r φ', P.Moves φ o r φ' → Follows P φ' (next r) Q

variable {P : Protocol S Φ}
  {φ : Φ} {Q : Except S.Err α → Φ → Prop}

theorem follows_mono {R : Except S.Err α → Φ → Prop} (h : Follows P φ p Q) (hQR : ∀ r φ', Q r φ' → R r φ') :
    Follows P φ p R := by
  induction p generalizing φ with
  | ret a => exact hQR _ _ h
  | fail e => exact hQR _ _ h
  | call o next ih => exact ⟨h.1, fun r φ' hm => ih r (h.2 r φ' hm)⟩

theorem follows_and {R : Except S.Err α → Φ → Prop} (h : Follows P φ p Q) (h' : Follows P φ p R) :
    Follows P φ p fun r φ' => Q r φ' ∧ R r φ' := by
  induction p generalizing φ with
  | ret a => exact ⟨h, h'⟩
  | fail e => exact ⟨h, h'⟩
  | call o next ih => exact ⟨h.1, fun r φ' hm => ih r (h.2 r φ' hm) (h'.2 r φ' hm)⟩

/-- What follows a program's outcome: the continuation, or the thrown error. -/
def Then (P : Protocol S Φ) (f : α → Program S β) (Q : Except S.Err β → Φ → Prop) : Except S.Err α → Φ → Prop
  | .ok a, φ => Follows P φ (f a) Q
  | .error e, φ => Q (.error e) φ

theorem follows_bind {f : α → Program S β} {Q : Except S.Err β → Φ → Prop} (h : Follows P φ p (Then P f Q)) :
    Follows P φ (p >>= f) Q := by
  induction p generalizing φ with
  | ret a => exact h
  | fail e => exact h
  | call o next ih => exact ⟨h.1, fun r φ' hm => ih r (h.2 r φ' hm)⟩

/-- What each part of a sequence leaves true of the phase, whatever its outcome, the sequence
does. -/
theorem follows_andThen {I : Φ → Prop} {f : α → Program S β} (h : Follows P φ p (fun _ φ' => I φ'))
    (hf : ∀ a φ', I φ' → Follows P φ' (f a) (fun _ φ'' => I φ'')) :
    Follows P φ (p >>= f) (fun _ φ' => I φ') := by
  refine follows_bind (follows_mono h ?_)
  intro outcome φ' hφ
  cases outcome with
  | ok a => exact hf a φ' hφ
  | error e => exact hφ

theorem follows_attempt {Q : Except S.Err (Except S.Err α) → Φ → Prop} (h : Follows P φ p (fun r φ' => Q (.ok r) φ')) :
    Follows P φ p.attempt Q := by
  induction p generalizing φ with
  | ret a => exact h
  | fail e => exact h
  | call o next ih => exact ⟨h.1, fun r φ' hm => ih r (h.2 r φ' hm)⟩

theorem follows_tryCatch {handler : S.Err → Program S α}
    (h : Follows P φ p (fun r φ' => match r with | .ok a => Q (.ok a) φ' | .error e => Follows P φ' (handler e) Q)) :
    Follows P φ (p.tryCatch handler) Q := by
  refine follows_bind (follows_attempt (follows_mono h ?_))
  intro r φ' hr
  cases r with
  | ok a => exact hr
  | error e => exact hr

theorem follows_perform {o : S.Op} {Q : Except S.Err (S.Reply o) → Φ → Prop} (ha : P.Allowed φ o)
    (hm : ∀ r φ', P.Moves φ o r φ' → Q r φ') :
    Follows P φ (Program.perform o) Q := by
  refine ⟨ha, fun r φ' h => ?_⟩
  cases r with
  | ok a => exact hm _ _ h
  | error e => exact hm _ _ h

/-! ### Operations that are certain to come

Programs are finite, so "eventually" is: before it ends, whatever the replies. -/

/-- Only whether `goal` was performed, under replies of the given kind. -/
def awaiting (replies : (o : S.Op) → S.Result o → Prop) (goal : S.Op) : Protocol S Prop where
  Allowed := fun _ _ => True
  Moves := fun performed o r performed' => replies o r ∧ performed' = (performed ∨ o = goal)

theorem awaiting_kept {replies : (o : S.Op) → S.Result o → Prop} {goal : S.Op} (performed : Prop) (p : Program S α) :
    Follows (awaiting replies goal) performed p (fun _ performed' => performed → performed') := by
  induction p generalizing performed with
  | ret a => exact id
  | fail e => exact id
  | call o next ih =>
    refine ⟨trivial, ?_⟩
    rintro r _ ⟨_, rfl⟩
    exact follows_mono (ih r _) fun _ _ h hp => h (.inl hp)

end Delego.Process
