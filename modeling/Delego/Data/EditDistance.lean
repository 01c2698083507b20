import Mathlib.Order.Bounds.Basic
import Mathlib.Order.MinMax

/-! Edits of lists, one element at a time.

`distance` is the least number of insertions, deletions and substitutions that turn one list into the other
(`distance_isLeast`). It is found from the front, where equal elements need no edit. -/
namespace Delego.Data
open List

variable {α : Type}

inductive Edit : List α → List α → Prop where
  | insert (before after : List α) (c : α) : Edit (before ++ after) (before ++ c :: after)
  | delete (before after : List α) (c : α) : Edit (before ++ c :: after) (before ++ after)
  | substitute (before after : List α) (c d : α) : Edit (before ++ c :: after) (before ++ d :: after)

inductive Edits : Nat → List α → List α → Prop where
  | none (s : List α) : Edits 0 s s
  | next {n : Nat} {s t u : List α} (first : Edit s t) (rest : Edits n t u) : Edits (n + 1) s u

variable {s t : List α}

theorem Edit.cons (h : Edit s t) (e : α) : Edit (e :: s) (e :: t) := by
  cases h with
  | insert before after c => exact .insert (e :: before) after c
  | delete before after c => exact .delete (e :: before) after c
  | substitute before after c d => exact .substitute (e :: before) after c d

theorem Edit.reverse (h : Edit s t) : Edit s.reverse t.reverse := by
  cases h with
  | insert before after c =>
    simpa only [reverse_append, reverse_cons, append_assoc, singleton_append] using .insert after.reverse before.reverse c
  | delete before after c =>
    simpa only [reverse_append, reverse_cons, append_assoc, singleton_append] using .delete after.reverse before.reverse c
  | substitute before after c d =>
    simpa only [reverse_append, reverse_cons, append_assoc, singleton_append] using .substitute after.reverse before.reverse c d

theorem Edit.symm (h : Edit s t) : Edit t s := by
  cases h with
  | insert before after c => exact .delete before after c
  | delete before after c => exact .insert before after c
  | substitute before after c d => exact .substitute before after d c

theorem Edits.trans {m n : Nat} {s t u : List α} (h : Edits m s t) (h' : Edits n t u) : Edits (m + n) s u := by
  induction h with
  | none s => rwa [Nat.zero_add]
  | next first rest ih =>
    rw [Nat.add_right_comm]
    exact .next first (ih h')

theorem Edits.symm {n : Nat} (h : Edits n s t) : Edits n t s := by
  induction h with
  | none s => exact .none s
  | next first rest ih => exact ih.trans (.next first.symm (.none _))

theorem Edits.cons {n : Nat} (h : Edits n s t) (e : α) : Edits n (e :: s) (e :: t) := by
  induction h with
  | none s => exact .none _
  | next first rest ih => exact .next (first.cons e) ih

theorem Edits.reverse {n : Nat} (h : Edits n s t) : Edits n s.reverse t.reverse := by
  induction h with
  | none s => exact .none _
  | next first rest ih => exact .next first.reverse ih

theorem edits_reverse_iff {n : Nat} : Edits n s.reverse t.reverse ↔ Edits n s t :=
  ⟨fun h => by simpa using h.reverse, .reverse⟩

section
variable [DecidableEq α]

def distance : List α → List α → Nat
  | [], t => t.length
  | s, [] => s.length
  | c :: s, d :: t =>
    if c = d then distance s t else 1 + min (distance s (d :: t)) (min (distance (c :: s) t) (distance s t))

@[simp] theorem distance_nil_left (t : List α) : distance [] t = t.length := by rw [distance]

@[simp] theorem distance_nil_right (s : List α) : distance s [] = s.length := by
  cases s with
  | nil => simp
  | cons c s => rw [distance]; simp

theorem distance_cons (c d : α) (s t : List α) : distance (c :: s) (d :: t) =
    if c = d then distance s t else 1 + min (distance s (d :: t)) (min (distance (c :: s) t) (distance s t)) := by
  rw [distance]

/-- The distance is that of some edits. -/
theorem edits_distance (s t : List α) : Edits (distance s t) s t := by
  induction s, t using distance.induct with
  | case1 t =>
    induction t with
    | nil => simpa using Edits.none ([] : List α)
    | cons d t ih =>
      rw [distance_nil_left] at ih ⊢
      exact .next (.insert [] [] d) (ih.cons d)
  | case2 s hs =>
    clear hs
    induction s with
    | nil => simpa using Edits.none ([] : List α)
    | cons c s ih =>
      rw [distance_nil_right] at ih ⊢
      exact .next (.delete [] s c) ih
  | case3 s d t ih =>
    rw [distance_cons, if_pos rfl]
    exact ih.cons d
  | case4 c s d t hne ihdelete ihinsert ihsubstitute =>
    rw [distance_cons, if_neg hne, Nat.add_comm]
    rcases min_choice (distance s (d :: t)) (min (distance (c :: s) t) (distance s t)) with hmin | hmin
    · rw [hmin]
      exact .next (.delete [] s c) ihdelete
    rw [hmin]
    rcases min_choice (distance (c :: s) t) (distance s t) with hmin | hmin
    · rw [hmin]
      exact .next (.insert [] (c :: s) d) (ihinsert.cons d)
    · rw [hmin]
      exact .next (.substitute [] s c d) (ihsubstitute.cons d)

/-- An element more, on either side, makes a difference of one at most. -/
theorem distance_near (s : List α) : ∀ t : List α,
    (∀ d, distance s (d :: t) ≤ distance s t + 1 ∧ distance s t ≤ distance s (d :: t) + 1) ∧
      ∀ c, distance (c :: s) t ≤ distance s t + 1 ∧ distance s t ≤ distance (c :: s) t + 1 := by
  induction s with
  | nil =>
    intro t
    refine ⟨fun d => by simp only [distance_nil_left, length_cons]; omega, fun c => ?_⟩
    induction t with
    | nil => simp
    | cons d t ih =>
      simp only [distance_cons, distance_nil_left, length_cons] at ih ⊢
      split <;> omega
  | cons e s ihs =>
    have hright : ∀ t d, distance (e :: s) (d :: t) ≤ distance (e :: s) t + 1 ∧
        distance (e :: s) t ≤ distance (e :: s) (d :: t) + 1 := by
      intro t d
      have hs := (ihs t).1 d
      have hd := (ihs t).2 e
      rw [distance_cons]
      split <;> omega
    intro t
    refine ⟨hright t, fun c => ?_⟩
    induction t with
    | nil => simp
    | cons d t iht =>
      have hshort := hright t d
      rw [distance_cons c]
      split <;> omega

theorem distance_substitute (c d : α) (s t : List α) : distance (c :: s) t ≤ distance (d :: s) t + 1 := by
  induction t with
  | nil => simp
  | cons e t ih =>
    have hs := (distance_near s t).1 e
    have hd := (distance_near s t).2 d
    have hc := (distance_near s t).2 c
    rw [distance_cons c, distance_cons d]
    split <;> split <;> omega

theorem distance_cons_le {s s' : List α} (h : ∀ t, distance s t ≤ distance s' t + 1) (e : α) (t : List α) :
    distance (e :: s) t ≤ distance (e :: s') t + 1 := by
  induction t with
  | nil =>
    have hnil := h []
    simp only [distance_nil_right, length_cons] at hnil ⊢
    omega
  | cons d t ih =>
    have ht := h t
    have hd := h (d :: t)
    rw [distance_cons, distance_cons]
    split <;> omega

theorem distance_edit {s s' : List α} (h : Edit s s') (t : List α) : distance s t ≤ distance s' t + 1 := by
  have hfront : ∀ (before after after' : List α), (∀ t, distance after t ≤ distance after' t + 1) →
      ∀ t, distance (before ++ after) t ≤ distance (before ++ after') t + 1 := by
    intro before after after' hafter
    induction before with
    | nil => exact hafter
    | cons e before ih => exact distance_cons_le ih e
  cases h with
  | insert before after c => exact hfront before _ _ (fun t => ((distance_near after t).2 c).2) t
  | delete before after c => exact hfront before _ _ (fun t => ((distance_near after t).2 c).1) t
  | substitute before after c d => exact hfront before _ _ (distance_substitute c d after) t

theorem distance_self (s : List α) : distance s s = 0 := by
  induction s with
  | nil => simp
  | cons c s ih => rw [distance_cons, if_pos rfl, ih]

theorem distance_isLeast (s t : List α) : IsLeast {n | Edits n s t} (distance s t) := by
  refine ⟨edits_distance s t, fun n hn => ?_⟩
  have hle : distance s t ≤ n := by
    induction hn with
    | none s => rw [distance_self]
    | next first rest ih => exact (distance_edit first _).trans (Nat.add_le_add_right ih 1)
  exact hle

end
end Delego.Data
