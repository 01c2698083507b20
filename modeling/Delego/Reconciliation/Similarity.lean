import Mathlib.Algebra.Order.Field.Basic
import Mathlib.Tactic.Linarith
import Delego.Data.EditDistance

/-! Fuzzy comparison of references (`payments/src/reconciliation/realTimeMatcher.ts`).

The distance of two strings is that of their code units, found row by row from the fronts of both. The similarity takes
the distance after the case is folded, and the length before. -/
namespace Delego.Reconciliation
open Delego.Data List

/-- A string, as its code units. -/
abbrev Units := List UInt16

/-- The cells of a row after its first, from those of the row above and the cell to the left. -/
def cells (c : UInt16) : Units → List Nat → Nat → List Nat
  | d :: b, diagonal :: above :: row, left =>
    let cell := if c = d then diagonal else 1 + min above (min left diagonal)
    cell :: cells c b (above :: row) cell
  | _, _, _ => []

/-- The last row, when row `i` is there. -/
def lastRow (b : Units) : List Nat → Nat → Units → List Nat
  | row, _, [] => row
  | row, i, c :: a => lastRow b ((i + 1) :: cells c b row (i + 1)) (i + 1) a

def levenshteinDistance (a b : Units) : Nat := (lastRow b (range (b.length + 1)) 0 a).getLastD 0

def stringSimilarity (toLowerCase : Units → Units) (a b : Units) : Rat :=
  if a = b then 1
  else if a.length = 0 ∨ b.length = 0 then 0
  else
    let maxLen := max a.length b.length
    let distance := levenshteinDistance (toLowerCase a) (toLowerCase b)
    1 - distance / maxLen

/-- The distances of a string to others that begin alike, all of them turned around. -/
def distances (s : Units) : Units → Units → List Nat
  | t, [] => [distance s t]
  | t, d :: b => distance s t :: distances s (d :: t) b

theorem distances_eq (s t b : Units) : distances s t b = distance s t :: (distances s t b).tail := by
  cases b <;> rfl

theorem cells_distances (c : UInt16) (s t b : Units) :
    cells c b (distances s t b) (distance (c :: s) t) = (distances (c :: s) t b).tail := by
  induction b generalizing t with
  | nil => rfl
  | cons d b ih =>
    rw [distances, distances_eq s (d :: t) b, cells, ← distance_cons, ← distances_eq s (d :: t) b, ih]
    exact (distances_eq (c :: s) (d :: t) b).symm

theorem lastRow_distances (a b s : Units) :
    lastRow b (distances s [] b) s.length a = distances (a.reverse ++ s) [] b := by
  induction a generalizing s with
  | nil => rfl
  | cons c a ih =>
    have hrow := cells_distances c s [] b
    rw [distance_nil_right, length_cons] at hrow
    have hfirst := distances_eq (c :: s) [] b
    rw [distance_nil_right, length_cons] at hfirst
    rw [lastRow, hrow, ← hfirst, ← length_cons (a := c), ih, reverse_cons, append_assoc, singleton_append]

theorem distances_nil (t b : Units) : distances [] t b = range' t.length (b.length + 1) := by
  induction b generalizing t with
  | nil => simp [distances]
  | cons d b ih => rw [distances, ih, distance_nil_left]; rfl

theorem distances_last (s t b : Units) : (distances s t b).getLastD 0 = distance s (b.reverse ++ t) := by
  induction b generalizing t with
  | nil => rfl
  | cons d b ih =>
    rw [reverse_cons, append_assoc, singleton_append, ← ih, distances, distances_eq s (d :: t) b]
    rfl

theorem levenshteinDistance_eq (a b : Units) : levenshteinDistance a b = distance a.reverse b.reverse := by
  have hfirst : range (b.length + 1) = distances [] [] b := by rw [distances_nil, length_nil, range_eq_range']
  have hrows := lastRow_distances a b []
  rw [length_nil, append_nil] at hrows
  rw [levenshteinDistance, hfirst, hrows, distances_last, append_nil]

theorem levenshteinDistance_isLeast (a b : Units) : IsLeast {n | Edits n a b} (levenshteinDistance a b) := by
  have hleast := distance_isLeast a.reverse b.reverse
  simp only [edits_reverse_iff] at hleast
  rwa [levenshteinDistance_eq]

/-- **The distance is a metric, and the similarity is symmetric.** -/
theorem levenshteinDistance_metric (toLowerCase : Units → Units) (a b c : Units) :
    (levenshteinDistance a b = 0 ↔ a = b) ∧ levenshteinDistance a b = levenshteinDistance b a ∧
      levenshteinDistance a c ≤ levenshteinDistance a b + levenshteinDistance b c ∧
      stringSimilarity toLowerCase a b = stringSimilarity toLowerCase b a := by
  have hsymm : ∀ a b, levenshteinDistance a b = levenshteinDistance b a := by
    intro a b
    have hab := levenshteinDistance_isLeast a b
    have hba := levenshteinDistance_isLeast b a
    exact le_antisymm (hab.2 hba.1.symm) (hba.2 hab.1.symm)
  refine ⟨⟨fun hzero => ?_, fun heq => ?_⟩, hsymm a b, ?_, ?_⟩
  · have hnone : Edits _ a b := (levenshteinDistance_isLeast a b).1
    rw [hzero] at hnone
    cases hnone
    rfl
  · rw [heq, levenshteinDistance_eq, distance_self]
  · have hab := (levenshteinDistance_isLeast a b).1
    exact (levenshteinDistance_isLeast a c).2 (hab.trans (levenshteinDistance_isLeast b c).1)
  · simp only [stringSimilarity, eq_comm (a := a), or_comm (a := a.length = 0), max_comm a.length, hsymm (toLowerCase a)]

theorem stringSimilarity_iff (toLowerCase : Units → Units) (a b : Units) :
    0 ≤ stringSimilarity toLowerCase a b ∧ stringSimilarity toLowerCase a b ≤ 1 ↔
      a = b ∨ a = [] ∨ b = [] ∨ ∃ n ≤ max a.length b.length, Edits n (toLowerCase a) (toLowerCase b) := by
  unfold stringSimilarity
  split
  · simp [*]
  split
  · rename_i hne hempty
    simp only [length_eq_zero_iff] at hempty
    simp only [le_refl, zero_le_one, and_self, true_iff]
    tauto
  · rename_i hne hsome
    simp only [length_eq_zero_iff, not_or] at hsome
    have hpos : (0 : Rat) < (max a.length b.length : Nat) := by
      have ha := length_pos_iff.mpr hsome.1
      exact_mod_cast ha.trans_le (le_max_left ..)
    have hleast := levenshteinDistance_isLeast (toLowerCase a) (toLowerCase b)
    simp only [hne, hsome.1, hsome.2, false_or]
    constructor
    · rintro ⟨hnonneg, -⟩
      refine ⟨_, ?_, hleast.1⟩
      have hle := (div_le_one hpos).mp (by linarith : (levenshteinDistance (toLowerCase a) (toLowerCase b) : Rat) /
        (max a.length b.length : Nat) ≤ 1)
      exact_mod_cast hle
    · rintro ⟨n, hn, hedits⟩
      have hle : (levenshteinDistance (toLowerCase a) (toLowerCase b) : Rat) ≤ (max a.length b.length : Nat) := by
        exact_mod_cast (hleast.2 hedits).trans hn
      have hratio := (div_le_one hpos).mpr hle
      have hnonneg : 0 ≤ (levenshteinDistance (toLowerCase a) (toLowerCase b) : Rat) / (max a.length b.length : Nat) := by
        positivity
      constructor <;> linarith

/-- **The distance is the least number of edits, and the similarity in its range exactly if that of the folded
strings is no more than the units of the longer string.** -/
theorem similarity_exact_iff (toLowerCase : Units → Units) (a b : Units) :
    IsLeast {n | Edits n a b} (levenshteinDistance a b) ∧
      (0 ≤ stringSimilarity toLowerCase a b ∧ stringSimilarity toLowerCase a b ≤ 1 ↔
        a = b ∨ a = [] ∨ b = [] ∨ ∃ n ≤ max a.length b.length, Edits n (toLowerCase a) (toLowerCase b)) :=
  ⟨levenshteinDistance_isLeast a b, stringSimilarity_iff toLowerCase a b⟩

/-- The dotted capital i becomes two units, and every other unit stays. -/
def dotted (units : Units) : Units := units.flatMap fun c => if c = 0x130 then [0x69, 0x307] else [c]

theorem similarity_below_zero : ¬ 0 ≤ stringSimilarity dotted [0x130] [0x78] := by
  have hdistance : levenshteinDistance (dotted [0x130]) (dotted [0x78]) = 2 := by decide
  rw [stringSimilarity, if_neg (by decide), if_neg (by decide), hdistance]
  norm_num

end Delego.Reconciliation
