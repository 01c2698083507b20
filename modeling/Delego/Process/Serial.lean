import Delego.Process.Program

/-! Calls that run one after another.

Where locks or the caller see to it that a call runs to its end before the next one
starts, a program is read against the states it runs on: a `Protocol` whose phases are
those states (`machine`), so that the rules for `Follows` are rules of pre- and
postconditions. `Ends` says how a call may end; what a program is shown to follow holds
of every such end (`Follows.ends`).

`transaction` is a call whose statements are committed together or not at all. -/
namespace Delego.Process

section
variable {S : Signature} {D α β : Type}

abbrev Effect (S : Signature) (D : Type) : Type := (o : S.Op) → D → S.Result o → D → Prop

def machine (does : Effect S D) : Protocol S D where
  Allowed := fun _ _ => True
  Moves := fun d o r d' => does o d r d'

/-- From state `d` the program may end in an outcome and a state. -/
inductive Ends (does : Effect S D) : Program S α → D → Except S.Err α → D → Prop where
  | ret (a : α) (d : D) : Ends does (.ret a) d (.ok a) d
  | fail (e : S.Err) (d : D) : Ends does (.fail e) d (.error e) d
  | call {o : S.Op} {next : S.Result o → Program S α} {d d' d'' : D} {r : S.Result o}
      {outcome : Except S.Err α} (first : does o d r d') (rest : Ends does (next r) d' outcome d'') :
      Ends does (.call o next) d outcome d''

variable {does : Effect S D} {p : Program S α} {d d' : D}
  {outcome : Except S.Err α}

theorem Follows.ends {Q : Except S.Err α → D → Prop} (h : Follows (machine does) d p Q) (he : Ends does p d outcome d') :
    Q outcome d' := by
  induction he with
  | ret a d => exact h
  | fail e d => exact h
  | call first _ ih => exact ih (h.2 _ _ first)

theorem follows_of_ends {Q : Except S.Err α → D → Prop} (h : ∀ outcome d', Ends does p d outcome d' → Q outcome d') :
    Follows (machine does) d p Q := by
  induction p generalizing d with
  | ret a => exact h _ _ (.ret a d)
  | fail e => exact h _ _ (.fail e d)
  | call o next ih =>
    refine ⟨trivial, ?_⟩
    intro r d' hmoves
    exact ih r fun outcome d'' hends => h outcome d'' (.call hmoves hends)

theorem Ends.of_alone {run : (o : S.Op) → D → S.Result o × D}
    (h : ∀ o d, does o d (run o d).1 (run o d).2) (p : Program S α) (d : D) :
    Ends does p d (p.alone run d).1 (p.alone run d).2 := by
  induction p generalizing d with
  | ret a => exact .ret a d
  | fail e => exact .fail e d
  | call o next ih => exact .call (h o d) (ih _ _)

variable {a : α}

theorem Ends.bind {f : α → Program S β} {outcome : Except S.Err β} {d'' : D} (h : Ends does p d (.ok a) d')
    (hf : Ends does (f a) d' outcome d'') : Ends does (p >>= f) d outcome d'' := by
  induction p generalizing d with
  | ret b =>
    cases h
    exact hf
  | fail e => cases h
  | call o next ih =>
    cases h with
    | call first rest => exact .call first (ih _ rest)

variable {o : S.Op}

theorem Ends.perform {a : S.Reply o} (h : does o d (.ok a) d') :
    Ends does (Program.perform o) d (.ok a) d' := .call h (.ret a d')

theorem Ends.attempt (h : Ends does p d outcome d') : Ends does p.attempt d (.ok outcome) d' := by
  induction h with
  | ret a d => exact .ret _ d
  | fail e d => exact .ret _ d
  | call first _ ih => exact .call first ih

variable {e : S.Err}

theorem Ends.tryCatch {handler : S.Err → Program S α} {d'' : D} (h : Ends does p d (.error e) d')
    (hhandler : Ends does (handler e) d' outcome d'') :
    Ends does (p.tryCatch handler) d outcome d'' := h.attempt.bind hhandler

theorem Ends.tryCatch_ok {handler : S.Err → Program S α} (h : Ends does p d (.ok a) d') :
    Ends does (p.tryCatch handler) d (.ok a) d' := h.attempt.bind (.ret a d')

theorem Ends.bind_error {f : α → Program S β} (h : Ends does p d (.error e) d') : Ends does (p >>= f) d (.error e) d' := by
  induction p generalizing d with
  | ret b => cases h
  | fail e =>
    cases h
    exact .fail _ _
  | call o next ih =>
    cases h with
    | call first rest => exact .call first (ih _ rest)

/-! ### Postconditions -/

theorem follows_op {Q : Except S.Err (S.Reply o) → D → Prop}
    (h : ∀ r d', does o d r d' → Q r d') : Follows (machine does) d (Program.perform o) Q :=
  follows_perform trivial h

end

/-! ### Operations that are programs themselves

What one service awaits as a single operation another carries out in many: `interpret` reads a program with each
of its operations carried out by a program. Where these keep to what the operations may do, and the phases stay
related, what is shown of the program is so of its interpretation (`follows_interpret`), and an end that it may
come to its interpretation may come to (`Ends.interpret`). -/

section
variable {S T : Signature} {Φ Ψ D E α : Type}

def Program.interpret (handle : (o : S.Op) → Program T (S.Result o)) : Program S α → Program T (Except S.Err α)
  | .ret a => .ret (.ok a)
  | .fail e => .ret (.error e)
  | .call o next => handle o >>= fun r => (next r).interpret handle

variable {handle : (o : S.Op) → Program T (S.Result o)} {p : Program S α}

/-- What an operation carried out by a program leaves: a result that it may have, and related phases. -/
def Carried (P : Protocol S Φ) (Rel : Φ → Ψ → Prop) (φ : Φ) (o : S.Op) : Except T.Err (S.Result o) → Ψ → Prop
  | .ok r, ψ' => ∃ φ', P.Moves φ o r φ' ∧ Rel φ' ψ'
  | .error _, _ => False

/-- The outcome of a program, as a value. -/
def Outcome (Rel : Φ → Ψ → Prop) (Q : Except S.Err α → Φ → Prop) : Except T.Err (Except S.Err α) → Ψ → Prop
  | .ok outcome, ψ' => ∃ φ', Rel φ' ψ' ∧ Q outcome φ'
  | .error _, _ => False

theorem follows_interpret {P : Protocol S Φ} {R : Protocol T Ψ} (Rel : Φ → Ψ → Prop) {φ : Φ} {ψ : Ψ}
    {Q : Except S.Err α → Φ → Prop}
    (hcarried : ∀ o φ ψ, Rel φ ψ → P.Allowed φ o → Follows R ψ (handle o) (Carried P Rel φ o)) (hrel : Rel φ ψ)
    (h : Follows P φ p Q) : Follows R ψ (p.interpret handle) (Outcome Rel Q) := by
  induction p generalizing φ ψ with
  | ret a => exact ⟨φ, hrel, h⟩
  | fail e => exact ⟨φ, hrel, h⟩
  | call o next ih =>
    refine follows_bind (follows_mono (hcarried o φ ψ hrel h.1) ?_)
    intro r ψ' hr
    cases r with
    | error e => exact hr.elim
    | ok r =>
      obtain ⟨φ', hm, hrel'⟩ := hr
      exact ih r hrel' (h.2 r φ' hm)

theorem Ends.interpret {does : Effect S D} {does' : Effect T E} (Rel : D → E → Prop) {d d' : D} {e : E}
    (h : Ends does p d outcome d') (hrel : Rel d e)
    (hcarried : ∀ o d r d' e, does o d r d' → Rel d e → ∃ e', Ends does' (handle o) e (.ok r) e' ∧ Rel d' e') :
    ∃ e', Ends does' (p.interpret handle) e (.ok outcome) e' ∧ Rel d' e' := by
  induction h generalizing e with
  | ret a d => exact ⟨e, .ret _ e, hrel⟩
  | fail error d => exact ⟨e, .ret _ e, hrel⟩
  | call first _ ih =>
    obtain ⟨e', hfirst, hrel'⟩ := hcarried _ _ _ _ e first hrel
    obtain ⟨e'', hrest, hrel''⟩ := ih hrel'
    exact ⟨e'', hfirst.bind hrest, hrel''⟩

end

/-! ### Transactions of a database

Any statement may fail, also the three that frame the others; so may `ROLLBACK`, which drops the copy nevertheless. Where
an answer can be lost (`lossy`), a statement that fails may have been carried out: a `COMMIT`, above all.

A transaction is written as the services write theirs (`inTransaction`): `BEGIN` and the statements in a `try`,
`ROLLBACK` in its `catch`. It is reasoned about on the copy alone: `Within` is a part of it before it is settled,
`Settles` the part that settles it, and `leaves_inTransaction` says what follows for the database (`Leaves`): it is the
committed copy, or, if the call throws, what it was, unless only the answer was lost. -/

/-- A statement, or one that frames a transaction. -/
inductive Sql (T : Type) where
  | begin
  | commit
  | rollback
  | statement (o : T)

variable {S : Signature} {D α β : Type}

@[reducible] def Sql.Reply (S : Signature) : Sql S.Op → Type
  | .begin => Unit
  | .commit => Unit
  | .rollback => Unit
  | .statement o => S.Reply o

/-- The statements of `S` and those that frame a transaction. -/
@[reducible] def sql (S : Signature) : Signature := ⟨Sql S.Op, Sql.Reply S, S.Err⟩

/-- A database, and the copy a transaction works on. -/
structure Session (D : Type) where
  committed : D
  working : Option D

/-- A database that no transaction works on. -/
def Session.rest (d : D) : Session D := ⟨d, none⟩

def Session.write (s : Session D) (t : D) : Session D :=
  match s.working with
  | some _ => { s with working := some t }
  | none => Session.rest t

abbrev Statements (S : Signature) (D : Type) : Type := (o : S.Op) → D → Except S.Err (S.Reply o × D)

section
variable (execute : Statements S D)

/-- One statement that the connection does not fail. -/
def sqlRun : (o : Sql S.Op) → Session D → (sql S).Result o × Session D
  | .begin, s => (.ok (), { s with working := some s.committed })
  | .commit, s => (.ok (), Session.rest (s.working.getD s.committed))
  | .rollback, s => (.ok (), Session.rest s.committed)
  | .statement o, s => match execute o (s.working.getD s.committed) with
    | .ok (a, t) => (.ok a, s.write t)
    | .error e => (.error e, s)

/-- A statement that the connection fails before it is carried out. -/
def sqlFailed : Sql S.Op → Session D → Session D
  | .rollback, s => Session.rest s.committed
  | _, s => s

def sqlEffect (lossy : Prop) : Effect (sql S) (Session D) := fun o s r s' =>
  (r, s') = sqlRun execute o s ∨
    ∃ e, r = .error e ∧ (s' = sqlFailed o s ∨ lossy ∧ s' = (sqlRun execute o s).2)

end

abbrev SqlM (S : Signature) := Program (sql S)

def statement (o : S.Op) : SqlM S (S.Reply o) := Program.perform (S := sql S) (.statement o)

def commit : SqlM S Unit := Program.perform (S := sql S) .commit

def rollback : SqlM S Unit := Program.perform (S := sql S) .rollback

/-- `try { BEGIN; body } catch (e) { ROLLBACK; throw rethrown(e) }` -/
def inTransaction (body : SqlM S α) (rethrown : S.Err → S.Err := id) : SqlM S α :=
  Program.tryCatch
    (do
      Program.perform (S := sql S) .begin
      body)
    fun e => do
      rollback
      .fail (rethrown e)

/-! ### Rules -/

section
variable (lossy : Prop) (execute : Statements S D) (d t : D)

/-- Statements of a transaction: from the copy `t` they leave one that satisfies `Q`. -/
def Within (body : SqlM S α) (Q : α → D → Prop) : Prop :=
  Follows (machine (sqlEffect execute lossy)) ⟨d, some t⟩ body fun outcome s => match outcome with
    | .ok a => ∃ t', s = ⟨d, some t'⟩ ∧ Q a t'
    | .error _ => s.committed = d

/-- The rest of a transaction: it commits, or rolls back, and leaves a database that
satisfies `Q`. -/
def Settles (body : SqlM S α) (Q : α → D → Prop) : Prop :=
  Follows (machine (sqlEffect execute lossy)) ⟨d, some t⟩ body fun outcome s => match outcome with
    | .ok a => ∃ d', s = Session.rest d' ∧ Q a d'
    | .error _ => s.committed = d ∨ lossy ∧ ∃ a, Q a s.committed

/-- A call: it returns and leaves a database that satisfies `Q`, or it throws and leaves
the one it found, or else one that it could have returned with. -/
def Leaves (body : SqlM S α) (Q : α → D → Prop) : Prop :=
  Follows (machine (sqlEffect execute lossy)) (Session.rest d) body fun outcome s =>
    ∃ d', s = Session.rest d' ∧ match outcome with
      | .ok a => Q a d'
      | .error _ => d' = d ∨ lossy ∧ ∃ a, Q a d'

end

variable {lossy : Prop} {execute : Statements S D} {d t : D}
  {body : SqlM S α} {Q : α → D → Prop}

theorem within_mono {R : α → D → Prop} (h : Within lossy execute d t body Q) (hQR : ∀ a t', Q a t' → R a t') :
    Within lossy execute d t body R := by
  refine follows_mono h ?_
  intro outcome s hs
  cases outcome with
  | ok a =>
    obtain ⟨t', hs, hQ⟩ := hs
    exact ⟨t', hs, hQR a t' hQ⟩
  | error e => exact hs

theorem within_pure (h : Q a t) : Within lossy execute d t (pure a) Q := ⟨t, rfl, h⟩

theorem within_fail : Within lossy execute d t (.fail e : SqlM S α) Q := by
  show d = d
  rfl

variable {f : α → SqlM S β}
  {p : SqlM S α}

theorem within_bind {Q : β → D → Prop} (h : Within lossy execute d t p fun a t' => Within lossy execute d t' (f a) Q) :
    Within lossy execute d t (p >>= f) Q := by
  refine follows_bind (follows_mono h ?_)
  intro outcome s hs
  cases outcome with
  | ok a =>
    obtain ⟨t', rfl, hrest⟩ := hs
    exact hrest
  | error e => exact hs

theorem committed_statement (o : S.Op) : (sqlRun execute (.statement o) ⟨d, some t⟩).2.committed = d := by
  simp only [sqlRun]
  split
  · rfl
  · rfl

theorem within_statement {Q : S.Reply o → D → Prop}
    (h : ∀ a t', execute o t = .ok (a, t') → Q a t') : Within lossy execute d t (statement o) Q := by
  apply follows_op
  rintro r s (hrun | ⟨e, rfl, rfl | ⟨-, rfl⟩⟩)
  · simp only [sqlRun, Option.getD_some] at hrun
    split at hrun
    · rename_i a t' hexecute
      cases hrun
      exact ⟨t', rfl, h a t' hexecute⟩
    · cases hrun
      exact rfl
  · exact rfl
  · exact committed_statement o

theorem settles_bind {Q : β → D → Prop} (h : Within lossy execute d t p fun a t' => Settles lossy execute d t' (f a) Q) :
    Settles lossy execute d t (p >>= f) Q := by
  refine follows_bind (follows_mono h ?_)
  intro outcome s hs
  cases outcome with
  | ok a =>
    obtain ⟨t', rfl, hrest⟩ := hs
    exact hrest
  | error e => exact .inl hs

theorem settles_fail : Settles lossy execute d t (.fail e : SqlM S α) Q := .inl rfl

theorem settles_commit (h : Q a t) : Settles lossy execute d t (do commit; return a) Q := by
  apply follows_bind
  apply follows_op
  rintro r s (hrun | ⟨e, rfl, rfl | ⟨hlossy, rfl⟩⟩)
  · cases hrun
    exact ⟨t, rfl, h⟩
  · exact .inl rfl
  · exact .inr ⟨hlossy, a, h⟩

theorem settles_rollback (h : Q a d) : Settles lossy execute d t (do rollback; return a) Q := by
  apply follows_bind
  apply follows_op
  rintro r s (hrun | ⟨e, rfl, rfl | ⟨-, rfl⟩⟩)
  · cases hrun
    exact ⟨d, rfl, h⟩
  · exact .inl rfl
  · exact .inl rfl

/-- **All or nothing.** A transaction leaves the database that it settles on, or it throws
and leaves the one it found, unless it was committed and the answer was lost. -/
theorem leaves_inTransaction {rethrown : S.Err → S.Err} (h : Settles lossy execute d d body Q) :
    Leaves lossy execute d (inTransaction body rethrown) Q := by
  have hroll : ∀ e (s : Session D), s.committed = d ∨ lossy ∧ (∃ a, Q a s.committed) →
      Follows (machine (sqlEffect execute lossy)) s
        (do rollback; .fail (rethrown e) : SqlM S α) fun outcome s => ∃ d', s = Session.rest d' ∧ match outcome with
          | .ok a => Q a d'
          | .error _ => d' = d ∨ lossy ∧ ∃ a, Q a d' := by
    intro e s hs
    apply follows_bind
    apply follows_op
    rintro r s' (hrun | ⟨e', rfl, rfl | ⟨-, rfl⟩⟩)
    · cases hrun
      exact ⟨_, rfl, hs⟩
    · exact ⟨_, rfl, hs⟩
    · exact ⟨_, rfl, hs⟩
  apply follows_tryCatch
  apply follows_bind
  apply follows_op
  rintro r s (hrun | ⟨e, rfl, rfl | ⟨-, rfl⟩⟩)
  · cases hrun
    refine follows_mono h ?_
    intro outcome s hs
    cases outcome with
    | ok a => exact hs
    | error e => exact hroll e s hs
  · exact hroll e _ (.inl rfl)
  · exact hroll e _ (.inl rfl)

theorem leaves_statement {Q : S.Reply o → D → Prop}
    (h : ∀ a d', execute o d = .ok (a, d') → Q a d') : Leaves lossy execute d (statement o) Q := by
  have hrun : ∀ r s, (r, s) = sqlRun execute (.statement o) (Session.rest d) →
      (∃ a d', r = .ok a ∧ s = Session.rest d' ∧ Q a d') ∨ (∃ e, r = .error e) ∧ s = Session.rest d := by
    intro r s hrun
    simp only [sqlRun, Session.rest, Option.getD_none] at hrun
    split at hrun
    · rename_i a d' hexecute
      cases hrun
      exact .inl ⟨a, d', rfl, rfl, h a d' hexecute⟩
    · cases hrun
      exact .inr ⟨⟨_, rfl⟩, rfl⟩
  apply follows_op
  rintro r s (hran | ⟨e, rfl, rfl | ⟨hlossy, rfl⟩⟩)
  · obtain ⟨a, d', rfl, rfl, hQ⟩ | ⟨⟨e, rfl⟩, rfl⟩ := hrun r s hran
    · exact ⟨d', rfl, hQ⟩
    · exact ⟨d, rfl, .inl rfl⟩
  · exact ⟨d, rfl, .inl rfl⟩
  · obtain ⟨a, d', -, hrest, hQ⟩ | ⟨-, hrest⟩ := hrun _ _ rfl
    · exact ⟨d', hrest, .inr ⟨hlossy, a, hQ⟩⟩
    · exact ⟨d, hrest, .inl rfl⟩

theorem leaves_fail : Leaves lossy execute d (.fail e : SqlM S α) Q := ⟨d, rfl, .inl rfl⟩

theorem leaves_map {f : α → β} {Q : β → D → Prop}
    (h : Leaves lossy execute d p fun a => Q (f a)) : Leaves lossy execute d (do return f (← p)) Q := by
  refine follows_bind (follows_mono h ?_)
  rintro outcome s ⟨d', rfl, hs⟩
  cases outcome with
  | ok a => exact ⟨d', rfl, hs⟩
  | error e => exact ⟨d', rfl, hs.imp_right fun ⟨hlossy, a, hQ⟩ => ⟨hlossy, f a, hQ⟩⟩

/-- Statements of a transaction that nothing fails return `a` and leave the copy `t'`. -/
def Yields (execute : Statements S D) (d t : D) (body : SqlM S α) (a : α) (t' : D) : Prop :=
  body.alone (sqlRun execute) ⟨d, some t⟩ = (.ok a, ⟨d, some t'⟩)

theorem yields_pure : Yields execute d t (pure a) a t := rfl

variable {t' : D}

theorem yields_statement {a : S.Reply o} (h : execute o t = .ok (a, t')) :
    Yields execute d t (statement o) a t' := by
  have hrun : sqlRun execute (.statement o) ⟨d, some t⟩ = (.ok a, ⟨d, some t'⟩) := by
    simp only [sqlRun, Option.getD_some, h]
    rfl
  exact (Program.alone_perform (S := sql S) (sqlRun execute) (.statement o) _).trans hrun

theorem yields_bind {b : β} {t'' : D} (h : Yields execute d t p a t')
    (hnext : Yields execute d t' (f a) b t'') :
    Yields execute d t (p >>= f) b t'' := by
  refine (Program.alone_bind (sqlRun execute) p f _).trans ?_
  rw [h]
  exact hnext

/-- A transaction that nothing fails is committed as its statements leave it. -/
theorem alone_inTransaction (rethrown : S.Err → S.Err) (h : Yields execute d d body a t') : (inTransaction (do
        let result ← body
        commit
        return result) rethrown).alone (sqlRun execute) (Session.rest d) = (.ok a, Session.rest t') := by
  refine Program.alone_tryCatch_ok ?_ _
  have hbody : (body >>= fun result => commit >>= fun _ => pure result).alone (sqlRun execute) ⟨d, some d⟩ =
      (.ok a, Session.rest t') := by
    refine (Program.alone_bind (sqlRun execute) body _ _).trans ?_
    rw [h]
    rfl
  exact hbody

theorem ends_of_sqlRun {d' : D}
    (h : p.alone (sqlRun execute) (Session.rest d) = (outcome, Session.rest d')) :
    Ends (sqlEffect execute lossy) p (Session.rest d) outcome (Session.rest d') := by
  have hruns : ∀ o s, sqlEffect execute lossy o s (sqlRun execute o s).1 (sqlRun execute o s).2 := fun _ _ => .inl rfl
  have hends := Ends.of_alone hruns p (Session.rest d)
  rw [h] at hends
  exact hends

/-- Statements that are answered, but for `COMMIT`. -/
def sqlUnanswered (execute : Statements S D) (e : S.Err) : (o : Sql S.Op) → Session D → (sql S).Result o × Session D
  | .commit, s => (.error e, (sqlRun execute .commit s).2)
  | o, s => sqlRun execute o s

theorem ends_of_unanswered {d' : D} (hlossy : lossy) (e : S.Err)
    (h : p.alone (sqlUnanswered execute e) (Session.rest d) = (outcome, Session.rest d')) :
    Ends (sqlEffect execute lossy) p (Session.rest d) outcome (Session.rest d') := by
  have hruns : ∀ o s, sqlEffect execute lossy o s (sqlUnanswered execute e o s).1 (sqlUnanswered execute e o s).2 := by
    intro o s
    cases o with
    | commit => exact .inr ⟨e, rfl, .inr ⟨hlossy, rfl⟩⟩
    | _ => exact .inl rfl
  have hends := Ends.of_alone hruns p (Session.rest d)
  rw [h] at hends
  exact hends

theorem Leaves.ends (h : Leaves lossy execute d p Q) {d' : D}
    (he : Ends (sqlEffect execute lossy) p (Session.rest d) outcome (Session.rest d')) :
    (∃ a, outcome = .ok a ∧ Q a d') ∨ (∃ e, outcome = .error e) ∧ (d' = d ∨ lossy ∧ ∃ a, Q a d') := by
  obtain ⟨_, hrest, hends⟩ := Follows.ends h he
  cases hrest
  cases outcome with
  | ok a => exact .inl ⟨a, rfl, hends⟩
  | error e => exact .inr ⟨⟨e, rfl⟩, hends⟩

end Delego.Process
