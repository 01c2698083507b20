import Mathlib.Order.Defs.PartialOrder
import Delego.Process.Extend
import Delego.Process.Pool

/-! Protocols whose phases are computed.

Where the phase after an operation is a function of the phase before it, the operation and its result, a program is
followed operation by operation: by one that takes the caller on (`follows_step`), or by several that leave it where it
is (`follows_stay`). `since` is what was done since a runner last did something of a kind. -/
namespace Delego.Process
open Function

section
variable {S : Signature} {Φ α β : Type} {allows : Φ → S.Op → Prop} {next : Φ → (o : S.Op) → S.Result o → Φ}

/-- Each result of an operation leads to one phase. -/
def stepping (allows : Φ → S.Op → Prop) (next : Φ → (o : S.Op) → S.Result o → Φ) : Protocol S Φ where
  Allowed := allows
  Moves := fun φ o r φ' => φ' = next φ o r

variable {φ : Φ} {Q : Except S.Err β → Φ → Prop}

theorem follows_step {o : S.Op} {f : S.Reply o → Program S β} (ha : allows φ o)
    (hfail : ∀ e, Q (.error e) (next φ o (.error e)))
    (hf : ∀ a, Follows (stepping allows next) (next φ o (.ok a)) (f a) Q) :
    Follows (stepping allows next) φ (Program.perform o >>= f) Q := by
  refine follows_bind (follows_perform ha ?_)
  rintro r φ' rfl
  cases r with
  | ok a => exact hf a
  | error e => exact hfail e

theorem follows_tried {o : S.Op} {f : S.Result o → Program S β} (ha : allows φ o)
    (hf : ∀ r, Follows (stepping allows next) (next φ o r) (f r) Q) :
    Follows (stepping allows next) φ ((Program.perform o).attempt >>= f) Q := by
  refine follows_bind (follows_attempt (follows_perform ha ?_))
  rintro r φ' rfl
  exact hf r

variable {p : Program S α}

theorem follows_still {free : S.Op → Prop} (hp : p.Only free) (hfree : ∀ o, free o → allows φ o ∧ ∀ r, next φ o r = φ) :
    Follows (stepping allows next) φ p fun _ φ' => φ' = φ := by
  refine follows_of_only hp (fun o ho => (hfree o ho).1) ?_
  rintro o r φ' ho rfl
  exact (hfree o ho).2 r

/-- Operations that leave their caller where it is, and what comes after them. -/
theorem follows_stay {free : S.Op → Prop} {f : α → Program S β} (hp : p.Only free)
    (hfree : ∀ o, free o → allows φ o ∧ ∀ r, next φ o r = φ) (hfail : ∀ e, Q (.error e) φ)
    (hf : ∀ a, Follows (stepping allows next) φ (f a) Q) :
    Follows (stepping allows next) φ (p >>= f) Q := by
  refine follows_bind (follows_mono (follows_still hp hfree) ?_)
  rintro r φ' rfl
  cases r with
  | ok a => exact hf a
  | error e => exact hfail e

variable {W : Type} {sys : System S W} {φ₀ : Φ} {guard : Pool S W → Action sys → Prop}
  {J : W → List (Entry S) → (Nat → Φ) → Prop}

/-- What an invariant owes where the phases are computed. -/
theorem inductive_stepping (body : ∀ c, Follows (stepping allows next) φ₀ (sys.body c) fun _ _ => True)
    (arrive : ∀ p φ c w, guard p (.call c) → J p.world p.trace φ → sys.arrive c p.world = some w → J w p.trace φ)
    (drift : ∀ p φ e, guard p (.drift e) → J p.world p.trace φ → J (sys.drift e p.world) p.trace φ)
    (step : ∀ p φ i o ch, guard p (.step i ch) → p.pending i = some o → J p.world p.trace φ → allows (φ i) o →
      J (sys.perform o ch p.world).2 (⟨i, o, (sys.perform o ch p.world).1⟩ :: p.trace)
        (update φ i (next (φ i) o (sys.perform o ch p.world).1))) :
    Inductive sys (stepping allows next) φ₀ guard J where
  body := fun _ c _ => body c
  arrive := fun p φ c w hg ht hw => arrive p φ c w hg ht.holds hw
  drift := fun p φ e hg ht => drift p φ e hg ht.holds
  answers := fun _ _ _ _ _ _ _ _ _ => ⟨_, rfl⟩
  step := by
    intro p φ i o ch φ' hg hp ht ha hm
    cases hm
    exact step p φ i o ch hg hp ht.holds ha

/-- What is shown of a sequence holds of its first part, and of what comes after that. -/
theorem then_of_follows {P : Protocol S Φ} {f : α → Program S β} (h : Follows P φ (p >>= f) Q) :
    Follows P φ p (Then P f Q) := by
  induction p generalizing φ with
  | ret a => exact h
  | fail e => exact h
  | call o next ih => exact ⟨h.1, fun r φ' hm => ih r (h.2 r φ' hm)⟩

theorem follows_of_attempt {P : Protocol S Φ} {Q : Except S.Err (Except S.Err α) → Φ → Prop}
    (h : Follows P φ p.attempt Q) : Follows P φ p fun r φ' => Q (.ok r) φ' := by
  induction p generalizing φ with
  | ret a => exact h
  | fail e => exact h
  | call o next ih => exact ⟨h.1, fun r φ' hm => ih r (h.2 r φ' hm)⟩

theorem follows_of_lift {X : Type} {R : X → Type} {P : Protocol (S.extend X R) Φ} {Q : Except S.Err α → Φ → Prop}
    (h : Follows P φ p.lift Q) : Follows P.restrict φ p Q := by
  induction p generalizing φ with
  | ret a => exact h
  | fail e => exact h
  | call o next ih => exact ⟨h.1, fun r φ' hm => ih r (h.2 r φ' hm)⟩

end

section
variable {S : Signature} {Φ α β : Type} {expects : (o : S.Op) → S.Result o → Prop} {allows : Φ → S.Op → Prop}
  {next : Φ → (o : S.Op) → S.Result o → Φ}

def expecting (expects : (o : S.Op) → S.Result o → Prop) (allows : Φ → S.Op → Prop)
    (next : Φ → (o : S.Op) → S.Result o → Φ) : Protocol S Φ where
  Allowed := allows
  Moves := fun φ o r φ' => expects o r ∧ φ' = next φ o r

theorem follows_expected {φ : Φ} {o : S.Op} {f : S.Reply o → Program S β} {Q : Except S.Err β → Φ → Prop}
    (ha : allows φ o) (hfail : ∀ e, expects o (.error e) → Q (.error e) (next φ o (.error e)))
    (hf : ∀ a, expects o (.ok a) → Follows (expecting expects allows next) (next φ o (.ok a)) (f a) Q) :
    Follows (expecting expects allows next) φ (Program.perform o >>= f) Q := by
  refine follows_bind (follows_perform ha ?_)
  rintro r φ' ⟨hr, rfl⟩
  cases r with
  | ok a => exact hf a hr
  | error e => exact hfail e hr

variable {W : Type} {sys : System S W} {φ₀ : Φ} {guard : Pool S W → Action sys → Prop}
  {J : W → List (Entry S) → (Nat → Φ) → Prop}

/-- What an invariant owes where the phases are computed from results that are expected. -/
theorem inductive_expecting (body : ∀ c, Follows (expecting expects allows next) φ₀ (sys.body c) fun _ _ => True)
    (arrive : ∀ p φ c w, guard p (.call c) → J p.world p.trace φ → sys.arrive c p.world = some w → J w p.trace φ)
    (drift : ∀ p φ e, guard p (.drift e) → J p.world p.trace φ → J (sys.drift e p.world) p.trace φ)
    (answers : ∀ p φ i o ch, guard p (.step i ch) → p.pending i = some o → J p.world p.trace φ →
      allows (φ i) o → expects o (sys.perform o ch p.world).1)
    (step : ∀ p φ i o ch, guard p (.step i ch) → p.pending i = some o → J p.world p.trace φ → allows (φ i) o →
      J (sys.perform o ch p.world).2 (⟨i, o, (sys.perform o ch p.world).1⟩ :: p.trace)
        (update φ i (next (φ i) o (sys.perform o ch p.world).1))) :
    Inductive sys (expecting expects allows next) φ₀ guard J where
  body := fun _ c _ => body c
  arrive := fun p φ c w hg ht hw => arrive p φ c w hg ht.holds hw
  drift := fun p φ e hg ht => drift p φ e hg ht.holds
  answers := fun p φ i o ch hg hp ht ha => ⟨_, answers p φ i o ch hg hp ht.holds ha, rfl⟩
  step := by
    intro p φ i o ch φ' hg hp ht ha hm
    cases hm.2
    exact step p φ i o ch hg hp ht.holds ha

end

section
variable {S : Signature} {marks : S.Op → Bool} {tr : List (Entry S)} {e : Entry S} {i : Nat}

/-- What was done since the runner last did an operation of the kind, or from the start. -/
def since (marks : S.Op → Bool) (tr : List (Entry S)) (i : Nat) : List (Entry S) :=
  tr.takeWhile fun e => !(decide (e.runner = i) && marks e.op)

theorem since_cons (h : e.runner = i → marks e.op = false) : since marks (e :: tr) i = e :: since marks tr i := by
  rw [since, List.takeWhile_cons]
  by_cases hi : e.runner = i
  · rw [h hi, Bool.and_false]
    rfl
  · rw [decide_eq_false hi]
    rfl

end

/-! ### What a runner knows of what only grows

The phase of a runner is what it knows: a property of a part of the world that every runner shares and that only grows.
What was known once stays so whatever other runners do, so an invariant is inductive if each operation, where what it
requires is so, keeps it and teaches what is so from then on (`inductive_knowing`). -/

section
variable {S : Signature} {A α β : Type} {expects : (o : S.Op) → S.Result o → Prop} {requires : S.Op → A → Prop}
  {teaches : (o : S.Op) → S.Result o → A → Prop}

abbrev knowing (expects : (o : S.Op) → S.Result o → Prop) (requires : S.Op → A → Prop)
    (teaches : (o : S.Op) → S.Result o → A → Prop) : Protocol S (A → Prop) :=
  expecting expects (fun known o => ∀ a, known a → requires o a) fun known o r a => known a ∧ teaches o r a

/-- One operation, of which what it requires is known, and what comes after it. -/
theorem follows_knowing {known : A → Prop} {o : S.Op} {f : S.Reply o → Program S β}
    {Q : Except S.Err β → (A → Prop) → Prop} (ha : ∀ a, known a → requires o a)
    (hfail : ∀ e, expects o (.error e) → Q (.error e) fun a => known a ∧ teaches o (.error e) a)
    (hf : ∀ r, expects o (.ok r) →
      Follows (knowing expects requires teaches) (fun a => known a ∧ teaches o (.ok r) a) (f r) Q) :
    Follows (knowing expects requires teaches) known (Program.perform o >>= f) Q :=
  follows_expected ha hfail hf

theorem follows_remembers {known : A → Prop} {p : Program S α} {Q : Except S.Err α → (A → Prop) → Prop}
    (h : Follows (knowing expects requires teaches) known p Q) :
    Follows (knowing expects requires teaches) known p fun r known' => Q r known' ∧ ∀ a, known' a → known a := by
  induction p generalizing known with
  | ret a => exact ⟨h, fun _ ha => ha⟩
  | fail e => exact ⟨h, fun _ ha => ha⟩
  | call o next ih =>
    refine ⟨h.1, fun r known' hm => follows_mono (ih r (h.2 r known' hm)) ?_⟩
    rintro r' known'' ⟨hQ, hremembers⟩
    rw [hm.2] at hremembers
    exact ⟨hQ, fun a ha => (hremembers a ha).1⟩

variable [Preorder A] {W : Type} {sys : System S W} {guard : Pool S W → Action sys → Prop}

/-- The invariant, and all that runners know, which is so of all that there may be from now on. -/
structure KnownAll (view : W → A) (Inv : W → Prop) (w : W) (known : Nat → A → Prop) : Prop where
  holds : Inv w
  known : ∀ i a, view w ≤ a → known i a

theorem knownAll_start {view : W → A} {Inv : W → Prop} {w : W} (h : Inv w) : KnownAll view Inv w fun _ _ => True :=
  ⟨h, fun _ _ _ => trivial⟩

/-- What an invariant owes where the phases are what is known. -/
theorem inductive_knowing (view : W → A) (Inv : W → Prop)
    (body : ∀ c, Follows (knowing expects requires teaches) (fun _ => True) (sys.body c) fun _ _ => True)
    (arrive : ∀ c w w', Inv w → sys.arrive c w = some w' → Inv w' ∧ view w ≤ view w')
    (drift : ∀ p e, guard p (.drift e) → Inv p.world → Inv (sys.drift e p.world) ∧ view p.world ≤ view (sys.drift e p.world))
    (step : ∀ p i o ch, guard p (.step i ch) → p.pending i = some o → Inv p.world → requires o (view p.world) →
      expects o (sys.perform o ch p.world).1 ∧ Inv (sys.perform o ch p.world).2 ∧
        view p.world ≤ view (sys.perform o ch p.world).2 ∧
        ∀ a, view (sys.perform o ch p.world).2 ≤ a → teaches o (sys.perform o ch p.world).1 a) :
    Inductive sys (knowing expects requires teaches) (fun _ => True) guard fun w _ known => KnownAll view Inv w known := by
  refine inductive_expecting body ?_ ?_ ?_ ?_
  · rintro p known c w - h hw
    obtain ⟨hinv, hgrows⟩ := arrive c p.world w h.holds hw
    exact ⟨hinv, fun i a ha => h.known i a (le_trans hgrows ha)⟩
  · rintro p known e hg h
    obtain ⟨hinv, hgrows⟩ := drift p e hg h.holds
    exact ⟨hinv, fun i a ha => h.known i a (le_trans hgrows ha)⟩
  · rintro p known i o ch hg hp h ha
    exact (step p i o ch hg hp h.holds (ha _ (h.known i _ le_rfl))).1
  · rintro p known i o ch hg hp h ha
    obtain ⟨-, hinv, hgrows, hteaches⟩ := step p i o ch hg hp h.holds (ha _ (h.known i _ le_rfl))
    refine ⟨hinv, fun j a hle => ?_⟩
    by_cases hj : j = i
    · rw [hj, update_self]
      exact ⟨h.known i a (le_trans hgrows hle), hteaches a hle⟩
    · rw [update_of_ne hj]
      exact h.known j a (le_trans hgrows hle)

end

end Delego.Process
