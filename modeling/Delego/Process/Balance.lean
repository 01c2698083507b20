import Mathlib.Algebra.BigOperators.Ring.Finset
import Mathlib.Algebra.Order.BigOperators.Group.Finset

/-! What runners hold between them.

Each runner's phase is worth an amount, and all but finitely many are worth nothing;
`Balance` says what they add up to. When one runner moves to another phase the total
moves by the difference (`Balance.update`). -/
namespace Delego.Process

variable {Φ : Type} {worth : Φ → Int} {φ : Nat → Φ} {total : Int}

/-- The phases are worth `total` together. -/
def Balance (worth : Φ → Int) (φ : Nat → Φ) (total : Int) : Prop :=
  ∃ n, (∀ i, n ≤ i → worth (φ i) = 0) ∧ ∑ i ∈ Finset.range n, worth (φ i) = total

theorem balance_zero (h : ∀ i, worth (φ i) = 0) : Balance worth φ 0 := ⟨0, fun i _ => h i, Finset.sum_range_zero _⟩

theorem Balance.extend (h : Balance worth φ total) (m : Nat) :
    ∃ n, m ≤ n ∧ (∀ i, n ≤ i → worth (φ i) = 0) ∧ ∑ i ∈ Finset.range n, worth (φ i) = total := by
  obtain ⟨n, hzero, hsum⟩ := h
  refine ⟨max n m, le_max_right n m, fun i hi => hzero i (le_trans (le_max_left n m) hi), ?_⟩
  rw [← hsum]
  symm
  apply Finset.sum_subset
  · intro i hi
    simp only [Finset.mem_range] at hi ⊢
    omega
  · intro i _ hi
    simp only [Finset.mem_range] at hi
    exact hzero i (by omega)

theorem Balance.update (h : Balance worth φ total) (i : Nat) (x : Φ) :
    Balance worth (Function.update φ i x) (total - worth (φ i) + worth x) := by
  obtain ⟨n, hin, hzero, hsum⟩ := h.extend (i + 1)
  have hi : i ∈ Finset.range n := Finset.mem_range.mpr hin
  refine ⟨n, ?_, ?_⟩
  · intro j hj
    rw [Function.update_of_ne (by omega)]
    exact hzero j hj
  · have hcomp : (fun j => worth (Function.update φ i x j)) =
        Function.update (fun j => worth (φ j)) i (worth x) := by
      funext j
      exact Function.apply_update (fun _ => worth) φ i x j
    have hsplit := Finset.add_sum_erase (Finset.range n) (fun j => worth (φ j)) hi
    rw [hcomp, Finset.sum_update_of_mem hi, Finset.sdiff_singleton_eq_erase]
    omega

theorem Balance.keep (h : Balance worth φ total) {i : Nat} {x : Φ} (hx : worth x = worth (φ i)) :
    Balance worth (Function.update φ i x) total := by
  have hupdate := h.update i x
  rw [hx, sub_add_cancel] at hupdate
  exact hupdate

theorem Balance.nonneg (h : Balance worth φ total) (hworth : ∀ i, 0 ≤ worth (φ i)) : 0 ≤ total := by
  obtain ⟨n, _, hsum⟩ := h
  rw [← hsum]
  exact Finset.sum_nonneg fun i _ => hworth i

theorem Balance.single (h : Balance worth φ total) (i : Nat)
    (hothers : ∀ j, j ≠ i → worth (φ j) = 0) : total = worth (φ i) := by
  obtain ⟨n, hin, _, hsum⟩ := h.extend (i + 1)
  rw [← hsum]
  apply Finset.sum_eq_single i
  · intro j _ hj
    exact hothers j hj
  · intro hi
    exact absurd (Finset.mem_range.mpr hin) hi

def Conserved (worth : Φ → Int) (φ : Nat → Φ) (spent : Nat) (unspent most : Int) : Prop :=
  ∃ held, Balance worth φ held ∧ held + spent + unspent ≤ most

variable {unspent most : Int}

theorem conserved_start (h : ∀ i, worth (φ i) = 0) (hle : unspent ≤ most) :
    Conserved worth φ 0 unspent most := ⟨0, balance_zero h, by omega⟩

theorem Conserved.step {spent spent' : Nat} {unspent' most' : Int} (h : Conserved worth φ spent unspent most) (i : Nat)
    (x : Φ) (hle : worth x + spent' + unspent' + most ≤ worth (φ i) + spent + unspent + most') :
    Conserved worth (Function.update φ i x) spent' unspent' most' := by
  obtain ⟨held, hbal, hheld⟩ := h
  exact ⟨_, hbal.update i x, by omega⟩

theorem Conserved.spent_le {spent : Nat} (h : Conserved worth φ spent unspent most) (hworth : ∀ x, 0 ≤ worth x)
    (hunspent : 0 ≤ unspent) : (spent : Int) ≤ most := by
  obtain ⟨held, hbal, hle⟩ := h
  have hheld := hbal.nonneg fun i => hworth (φ i)
  omega

end Delego.Process
