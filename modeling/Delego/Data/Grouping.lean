import Delego.Data.Table
import Mathlib.Data.List.Sort

/-! Items grouped by a key, in a map from keys to lists.

The group of a key holds the items of that key, in their order (`lookup_groupedBy`), and the groups together hold every
item once (`groupedBy_perm`). -/
namespace Delego.Data
open List

variable {κ α : Type} [DecidableEq κ] (key : α → κ)

/-- `map.get(key) ?? []`, with the item pushed, and set. -/
def addToGroup (groups : List (κ × List α)) (a : α) : List (κ × List α) :=
  put Prod.fst groups (key a, ((lookup Prod.fst groups (key a)).map Prod.snd).getD [] ++ [a])

def groupedBy (items : List α) : List (κ × List α) := items.foldl (addToGroup key) []

def groupOf (k : κ) (items : List α) : List α := items.filter fun a => decide (key a = k)

variable {key} {items : List α} {k : κ} {group : List α}

theorem groupedBy_concat (items : List α) (a : α) :
    groupedBy key (items ++ [a]) = addToGroup key (groupedBy key items) a := foldl_concat ..

theorem mem_groupOf {a : α} : a ∈ groupOf key k items ↔ a ∈ items ∧ key a = k := by
  rw [groupOf, mem_filter, decide_eq_true_iff]

theorem groupOf_concat (items : List α) (a : α) :
    groupOf key k (items ++ [a]) = groupOf key k items ++ if key a = k then [a] else [] := by
  rw [groupOf, filter_append, groupOf]
  by_cases h : key a = k
  · simp [h]
  · simp [h]

theorem groupOf_perm {items' : List α} (h : items'.Perm items) : (groupOf key k items').Perm (groupOf key k items) :=
  h.filter _

theorem keyed_groupedBy (items : List α) : Keyed Prod.fst (groupedBy key items) := by
  induction items using reverseRecOn with
  | nil => exact nodup_nil
  | append_singleton items a ih =>
    rw [groupedBy_concat]
    exact ih.put _

theorem lookup_groupedBy (items : List α) (k : κ) : lookup Prod.fst (groupedBy key items) k =
      if groupOf key k items = [] then none else some (k, groupOf key k items) := by
  induction items using reverseRecOn generalizing k with
  | nil => rfl
  | append_singleton items a ih =>
    rw [groupedBy_concat, addToGroup, lookup_put, groupOf_concat, ih, ih]
    by_cases h : key a = k
    · subst h
      rw [if_pos rfl, if_pos rfl, if_neg (append_ne_nil_of_right_ne_nil _ (cons_ne_nil _ _))]
      by_cases hnil : groupOf key (key a) items = []
      · rw [if_pos hnil, hnil]
        rfl
      · rw [if_neg hnil]
        rfl
    · rw [if_neg (Ne.symm h), if_neg h, append_nil]

theorem mem_groupedBy : (k, group) ∈ groupedBy key items ↔ group = groupOf key k items ∧ group ≠ [] := by
  have hlook : lookup Prod.fst (groupedBy key items) k = _ := lookup_groupedBy items k
  constructor
  · intro h
    rw [Keyed.found (keyed_groupedBy items) h] at hlook
    split at hlook
    · cases hlook
    · rename_i hgroup
      obtain ⟨-, rfl⟩ := Prod.mk.inj (Option.some.inj hlook)
      exact ⟨rfl, hgroup⟩
  · rintro ⟨rfl, hgroup⟩
    rw [if_neg hgroup] at hlook
    exact lookup_mem hlook

theorem mem_keys_groupedBy : k ∈ (groupedBy key items).map Prod.fst ↔ ∃ a ∈ items, key a = k := by
  constructor
  · intro h
    obtain ⟨⟨_, group⟩, hmem, rfl⟩ := mem_map.mp h
    obtain ⟨rfl, hgroup⟩ := mem_groupedBy.mp hmem
    obtain ⟨a, ha⟩ := exists_mem_of_ne_nil _ hgroup
    exact ⟨a, mem_groupOf.mp ha⟩
  · rintro ⟨a, ha, hkey⟩
    exact mem_map.mpr ⟨(k, groupOf key k items),
      mem_groupedBy.mpr ⟨rfl, ne_nil_of_mem (mem_groupOf.mpr ⟨ha, hkey⟩)⟩, rfl⟩

theorem groupedBy_eq (items : List α) :
    groupedBy key items = ((groupedBy key items).map Prod.fst).map fun k => (k, groupOf key k items) := by
  rw [map_map]
  refine (map_id _).symm.trans (map_congr_left fun entry hentry => ?_)
  obtain ⟨k, group⟩ := entry
  obtain ⟨rfl, -⟩ := mem_groupedBy.mp hentry
  rfl

theorem flatMap_put {groups : List (κ × List α)} (h : Keyed Prod.fst groups) (a : α) :
    ((addToGroup key groups a).flatMap Prod.snd).Perm (groups.flatMap Prod.snd ++ [a]) := by
  unfold addToGroup put
  cases hfound : lookup Prod.fst groups (key a) with
  | none =>
    rw [if_neg (by simp), flatMap_append]
    exact .refl _
  | some entry =>
    rw [if_pos Option.isSome_some]
    simp only [Option.map_some, Option.getD_some]
    induction groups with
    | nil => cases hfound
    | cons first rest ih =>
      obtain ⟨hfirst, hrest⟩ := nodup_cons.mp h
      rw [lookup_cons] at hfound
      rw [replace, map_cons, flatMap_cons, flatMap_cons]
      split at hfound
      · rename_i hkey
        cases hfound
        have hothers : (rest.map fun other => if other.1 = key a then (key a, entry.2 ++ [a]) else other) = rest := by
          refine (map_congr_left fun other hother => if_neg fun hsame => ?_).trans (map_id rest)
          exact hfirst (mem_map.mpr ⟨other, hother, hsame.trans hkey.symm⟩)
        rw [if_pos hkey, hothers]
        simp only [append_assoc]
        exact perm_append_comm.append_left entry.2
      · rename_i hkey
        rw [if_neg hkey, append_assoc]
        exact (ih hrest hfound).append_left first.2

theorem groupedBy_perm (items : List α) : ((groupedBy key items).flatMap Prod.snd).Perm items := by
  induction items using reverseRecOn with
  | nil => exact .refl _
  | append_singleton items a ih =>
    rw [groupedBy_concat]
    exact (flatMap_put (keyed_groupedBy items) a).trans (ih.append_right _)

theorem filter_groupedBy [DecidableEq α] (key : α → κ) {a : α} (ha : a ∈ items) :
    ((groupedBy key items).filter fun entry => decide (a ∈ entry.2)) = [(key a, groupOf key (key a) items)] := by
  have hown : a ∈ groupOf key (key a) items := mem_groupOf.mpr ⟨ha, rfl⟩
  have hentry : (key a, groupOf key (key a) items) ∈ groupedBy key items := mem_groupedBy.mpr ⟨rfl, ne_nil_of_mem hown⟩
  have hone : ∀ entry ∈ groupedBy key items,
      decide (a ∈ entry.2) = (entry == (key a, groupOf key (key a) items)) := by
    rintro ⟨k, group⟩ hmem
    obtain ⟨rfl, -⟩ := mem_groupedBy.mp hmem
    rw [Bool.eq_iff_iff, decide_eq_true_iff, beq_iff_eq, mem_groupOf]
    constructor
    · rintro ⟨-, rfl⟩
      rfl
    · intro heq
      exact ⟨ha, (congrArg Prod.fst heq).symm⟩
  have hnodup : (groupedBy key items).Nodup := List.Nodup.of_map _ (keyed_groupedBy items)
  rw [filter_congr hone, filter_beq, count_eq_one_of_mem hnodup hentry, replicate_one]

omit [DecidableEq κ] in
theorem sorted_eq_of_perm {r : κ → κ → Prop} [DecidableRel r] [Std.Total r] [IsTrans κ r] {keys keys' : List κ}
    (h : keys'.Perm keys) (hanti : ∀ a ∈ keys, ∀ b ∈ keys, r a b → r b a → a = b) :
    keys'.insertionSort r = keys.insertionSort r := by
  have hperm := (perm_insertionSort r keys').trans (h.trans (perm_insertionSort r keys).symm)
  refine hperm.eq_of_pairwise (fun a b ha hb hab hba => ?_) (pairwise_insertionSort r keys')
    (pairwise_insertionSort r keys)
  exact hanti a (h.mem_iff.mp ((mem_insertionSort r).mp ha)) b ((mem_insertionSort r).mp hb) hab hba

end Delego.Data
