import Mathlib.Init

/-! Histories: one step taken after another, each where it meets a condition.

What every step preserves, every history preserves: an invariant (`Orderly.invariant`), an order between the states
before and after (`Orderly.advances`), or the status of an item that has reached a last one (`Orderly.final`). -/
namespace Delego.Data.History

variable {σ τ : Type} (apply : σ → τ → σ) (Meets : σ → τ → Prop)

def run (s : σ) (history : List τ) : σ := history.foldl apply s

/-- Every step meets the condition where it is taken. -/
def Orderly (s : σ) : List τ → Prop
  | [] => True
  | step :: steps => Meets s step ∧ Orderly (apply s step) steps

variable {apply Meets} {s : σ} {before after history : List τ}

theorem run_append (s : σ) (before after : List τ) :
    run apply s (before ++ after) = run apply (run apply s before) after := List.foldl_append

theorem run_concat (s : σ) (history : List τ) (step : τ) :
    run apply s (history ++ [step]) = apply (run apply s history) step := run_append s history [step]

theorem Orderly.split (h : Orderly apply Meets s (before ++ after)) :
    Orderly apply Meets s before ∧ Orderly apply Meets (run apply s before) after := by
  induction before generalizing s with
  | nil => exact ⟨trivial, h⟩
  | cons step before ih =>
    obtain ⟨hstep, hrest⟩ := h
    obtain ⟨hpre, hafter⟩ := ih hrest
    exact ⟨⟨hstep, hpre⟩, hafter⟩

theorem Orderly.invariant {Inv : σ → Prop} (hstep : ∀ s step, Inv s → Meets s step → Inv (apply s step))
    (h : Orderly apply Meets s history) (hinv : Inv s) : Inv (run apply s history) := by
  induction history generalizing s with
  | nil => exact hinv
  | cons step history ih => exact ih h.2 (hstep s step hinv h.1)

theorem Orderly.advances {Inv : σ → Prop} {Before : σ → σ → Prop}
    (hrefl : ∀ s, Before s s) (htrans : ∀ s s' s'', Before s s' → Before s' s'' → Before s s'')
    (hstep : ∀ s step, Inv s → Meets s step → Inv (apply s step) ∧ Before s (apply s step))
    (h : Orderly apply Meets s history) (hinv : Inv s) : Before s (run apply s history) := by
  induction history generalizing s with
  | nil => exact hrefl s
  | cons step history ih =>
    obtain ⟨hnext, hpre⟩ := hstep s step hinv h.1
    exact htrans _ _ _ hpre (ih h.2 hnext)

theorem Orderly.final {α β : Type} {find : σ → Option α} {status : α → β} {last : β → Bool} {row : α}
    (hstep : ∀ s step row, Meets s step → find s = some row → last (status row) = true →
      ∃ row', find (apply s step) = some row' ∧ status row' = status row)
    (h : Orderly apply Meets s history) (hrow : find s = some row) (hlast : last (status row) = true) :
    ∃ row', find (run apply s history) = some row' ∧ status row' = status row := by
  induction history generalizing s row with
  | nil => exact ⟨row, hrow, rfl⟩
  | cons step history ih =>
    obtain ⟨middle, hmiddle, hstat⟩ := hstep s step row h.1 hrow hlast
    obtain ⟨row', hrow', hstat'⟩ := ih h.2 hmiddle (hstat ▸ hlast)
    exact ⟨row', hrow', hstat'.trans hstat⟩

end Delego.Data.History
