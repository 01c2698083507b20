import Mathlib.Data.List.Lex
import Mathlib.Data.List.Sort

/-! The order of strings.

Strings are compared by their code units of UTF-16, in which a character above U+FFFF is a pair. The
units say which string it is (`codeUnits_injective`), so a list of entries whose keys differ is
sorted to one list, in whatever order it comes (`sortByKey_perm`). -/
namespace Delego.Data
open List

def units (c : Char) : List Nat :=
  if c.toNat < 0x10000 then [c.toNat]
  else [0xD800 + (c.toNat - 0x10000) / 0x400, 0xDC00 + (c.toNat - 0x10000) % 0x400]

def codeUnits (s : String) : List Nat := s.toList.flatMap units

theorem toNat_valid (c : Char) : c.toNat < 0xD800 ∨ 0xDFFF < c.toNat ∧ c.toNat < 0x110000 := by
  have hvalid := c.valid
  simp only [UInt32.isValidChar, Nat.isValidChar] at hvalid
  exact hvalid

theorem units_append_inj {c d : Char} {rest rest' : List Nat} (h : units c ++ rest = units d ++ rest') :
    c = d ∧ rest = rest' := by
  have heq : c.toNat = d.toNat ∧ rest = rest' := by
    have hc := toNat_valid c
    have hd := toNat_valid d
    unfold units at h
    by_cases hlow : c.toNat < 0x10000
    · by_cases hlow' : d.toNat < 0x10000
      · simp only [hlow, hlow', if_true, singleton_append, cons.injEq] at h
        exact h
      · simp only [hlow, hlow', if_true, if_false, cons_append, nil_append, cons.injEq] at h
        omega
    · by_cases hlow' : d.toNat < 0x10000
      · simp only [hlow, hlow', if_true, if_false, cons_append, nil_append, cons.injEq] at h
        omega
      · simp only [hlow, hlow', if_false, cons_append, nil_append, cons.injEq] at h
        exact ⟨by omega, h.2.2⟩
  exact ⟨Char.toNat_inj.mp heq.1, heq.2⟩

theorem codeUnits_injective {s s' : String} (h : codeUnits s = codeUnits s') : s = s' := by
  have hchars : ∀ l l' : List Char, l.flatMap units = l'.flatMap units → l = l' := by
    have hsome : ∀ c : Char, units c ≠ [] := by
      intro c
      unfold units
      split <;> simp
    intro l
    induction l with
    | nil =>
      intro l' hl
      cases l' with
      | nil => rfl
      | cons d l' => simp [hsome d] at hl
    | cons c l ih =>
      intro l' hl
      cases l' with
      | nil => simp [hsome c] at hl
      | cons d l' =>
        rw [flatMap_cons, flatMap_cons] at hl
        obtain ⟨rfl, hrest⟩ := units_append_inj hl
        rw [ih l' hrest]
  exact String.toList_inj.mp (hchars _ _ h)

section
variable {β : Type} {entries entries' : List (String × β)}

def codeUnitLe (a b : String) : Prop := codeUnits a ≤ codeUnits b

instance : DecidableRel codeUnitLe := fun a b => inferInstanceAs (Decidable (codeUnits a ≤ codeUnits b))

/-- `strings.sort()` -/
def sortStrings (strings : List String) : List String := strings.insertionSort codeUnitLe

theorem sortStrings_perm {strings strings' : List String} (h : strings.Perm strings') :
    sortStrings strings = sortStrings strings' := by
  have : Std.Total codeUnitLe := ⟨fun a b => le_total (codeUnits a) (codeUnits b)⟩
  have : IsTrans String codeUnitLe := ⟨fun a b c hab hbc => le_trans (α := List Nat) hab hbc⟩
  have hperm := ((perm_insertionSort codeUnitLe strings).trans h).trans (perm_insertionSort codeUnitLe strings').symm
  refine List.Perm.eq_of_pairwise ?_ (pairwise_insertionSort _ _) (pairwise_insertionSort _ _) hperm
  intro a b _ _ hab hba
  exact codeUnits_injective (le_antisymm (α := List Nat) hab hba)

def keyLe (a b : String × β) : Prop := codeUnitLe a.1 b.1

instance : DecidableRel (keyLe (β := β)) := fun _ _ => inferInstanceAs (Decidable (codeUnitLe _ _))

/-- Entries by their keys, as `Object.keys(value).sort()` has them. -/
def sortByKey (entries : List (String × β)) : List (String × β) := entries.insertionSort keyLe

theorem sortByKey_perm (h : entries.Perm entries') (hkeys : (entries.map (·.1)).Nodup) :
    sortByKey entries = sortByKey entries' := by
  have hsorted : ∀ l : List (String × β), (sortByKey l).Pairwise keyLe := by
    intro l
    have : Std.Total (keyLe (β := β)) := ⟨fun a b => le_total (codeUnits a.1) (codeUnits b.1)⟩
    have : IsTrans (String × β) keyLe := ⟨fun a b c hab hbc => le_trans (α := List Nat) hab hbc⟩
    exact pairwise_insertionSort _ l
  have hperm := ((perm_insertionSort keyLe entries).trans h).trans (perm_insertionSort keyLe entries').symm
  refine List.Perm.eq_of_pairwise ?_ (hsorted _) (hsorted _) hperm
  intro a b ha hb hab hba
  have hkey := codeUnits_injective (le_antisymm (α := List Nat) hab hba)
  exact inj_on_of_nodup_map hkeys ((perm_insertionSort _ _).subset ha)
    (h.symm.subset ((perm_insertionSort _ _).subset hb)) hkey

end

end Delego.Data
