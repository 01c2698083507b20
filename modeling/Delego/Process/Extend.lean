import Delego.Process.Program

/-! Programs of a service inside those of another.

A protocol for all of them is one for those of `S` (`restrict`), and a lifted program follows it if the program follows
that (`follows_lift`).

`Only` says which operations a program may perform at all. What is shown of a program in one protocol is used in another
that it simulates (`follows_simulated`). -/
namespace Delego.Process

variable {S : Signature} {X : Type} {R : X → Type} {Φ α β : Type}

/-- The operations of `S`, and more of them. -/
@[reducible] def Signature.extend (S : Signature) (X : Type) (R : X → Type) : Signature :=
  ⟨S.Op ⊕ X, Sum.elim S.Reply R, S.Err⟩

def Program.lift : Program S α → Program (S.extend X R) α
  | .ret a => .ret a
  | .fail e => .fail e
  | .call o next => .call (.inl o) fun r => (next r).lift

/-- What a protocol says of the operations of `S`. -/
def Protocol.restrict (P : Protocol (S.extend X R) Φ) : Protocol S Φ where
  Allowed := fun φ o => P.Allowed φ (.inl o)
  Moves := fun φ o r φ' => P.Moves φ (.inl o) r φ'
  Ends := P.Ends

variable {φ : Φ} {p : Program S α}

theorem follows_lift {P : Protocol (S.extend X R) Φ} {Q : Except S.Err α → Φ → Prop} (h : Follows P.restrict φ p Q) :
    Follows P φ p.lift Q := by
  induction p generalizing φ with
  | ret a => exact h
  | fail e => exact h
  | call o next ih => exact ⟨h.1, fun r φ' hm => ih r (h.2 r φ' hm)⟩

def Program.Only (P : S.Op → Prop) : Program S α → Prop
  | .ret _ => True
  | .fail _ => True
  | .call o next => P o ∧ ∀ r, (next r).Only P

variable {P : S.Op → Prop}

theorem only_bind {f : α → Program S β} (h : p.Only P) (hf : ∀ a, (f a).Only P) : (p >>= f).Only P := by
  induction p with
  | ret a => exact hf a
  | fail e => trivial
  | call o next ih => exact ⟨h.1, fun r => ih r (h.2 r)⟩

theorem only_assoc {γ : Type} {f : α → Program S β} {g : β → Program S γ} (h : (p >>= fun a => f a >>= g).Only P) :
    ((p >>= f) >>= g).Only P := by
  induction p with
  | ret a => exact h
  | fail e => trivial
  | call o next ih => exact ⟨h.1, fun r => ih r (h.2 r)⟩

theorem only_all (p : Program S α) (h : ∀ o, P o) : p.Only P := by
  induction p with
  | ret a => trivial
  | fail e => trivial
  | call o next ih => exact ⟨h o, ih⟩

theorem only_attempt (h : p.Only P) : p.attempt.Only P := by
  induction p with
  | ret a => trivial
  | fail e => trivial
  | call o next ih => exact ⟨h.1, fun r => ih r (h.2 r)⟩

theorem only_tryCatch {handler : S.Err → Program S α} (h : p.Only P) (hhandler : ∀ e, (handler e).Only P) :
    (p.tryCatch handler).Only P := by
  refine only_bind (only_attempt h) ?_
  intro outcome
  cases outcome with
  | ok a => trivial
  | error e => exact hhandler e

theorem only_perform {o : S.Op} (h : P o) : (Program.perform o).Only P := by
  refine ⟨h, ?_⟩
  intro r
  cases r with
  | ok a => trivial
  | error e => trivial

theorem only_lift (p : Program S α) : (p.lift (X := X) (R := R)).Only fun o : S.Op ⊕ X => ∃ o' : S.Op, o = .inl o' := by
  induction p with
  | ret a => trivial
  | fail e => trivial
  | call o next ih => exact ⟨⟨o, rfl⟩, ih⟩

variable {T : Protocol S Φ}

theorem follows_within {I : Φ → Prop} (h : p.Only P) (hφ : I φ) (hallow : ∀ φ o, I φ → P o → T.Allowed φ o)
    (hmoves : ∀ φ o r φ', I φ → P o → T.Moves φ o r φ' → I φ') :
    Follows T φ p fun _ φ' => I φ' := by
  induction p generalizing φ with
  | ret a => exact hφ
  | fail e => exact hφ
  | call o next ih =>
    refine ⟨hallow φ o hφ h.1, ?_⟩
    intro r φ' hm
    exact ih r (h.2 r) (hmoves φ o r φ' hφ h.1 hm)

theorem follows_of_only (h : p.Only P) (hallow : ∀ o, P o → T.Allowed φ o)
    (hmoves : ∀ o r φ', P o → T.Moves φ o r φ' → φ' = φ) :
    Follows T φ p fun _ φ' => φ' = φ := by
  refine follows_within (I := fun φ' => φ' = φ) h rfl ?_ ?_
  · rintro _ o rfl ho
    exact hallow o ho
  · rintro _ o r φ' rfl ho hm
    exact hmoves o r φ' ho hm

/-- A program that follows a protocol follows one that allows as much, where each of its moves is one of the
other. -/
theorem follows_simulated {Ψ : Type} {T' : Protocol S Ψ} (Rel : Φ → Ψ → Prop) {Q : Except S.Err α → Φ → Prop}
    (hallow : ∀ φ ψ o, Rel φ ψ → T.Allowed φ o → T'.Allowed ψ o)
    (hmoves : ∀ φ ψ o r ψ', Rel φ ψ → T.Allowed φ o → T'.Moves ψ o r ψ' → ∃ φ', T.Moves φ o r φ' ∧ Rel φ' ψ') {ψ : Ψ}
    (h : Follows T φ p Q) (hrel : Rel φ ψ) :
    Follows T' ψ p fun r ψ' => ∃ φ', Rel φ' ψ' ∧ Q r φ' := by
  induction p generalizing φ ψ with
  | ret a => exact ⟨φ, hrel, h⟩
  | fail e => exact ⟨φ, hrel, h⟩
  | call o next ih =>
    refine ⟨hallow φ ψ o hrel h.1, ?_⟩
    intro r ψ' hm
    obtain ⟨φ', hm', hrel'⟩ := hmoves φ ψ o r ψ' hrel h.1 hm
    exact ih r (h.2 r φ' hm') hrel'

end Delego.Process
