import Mathlib.Algebra.Order.Ring.Int
import Mathlib.Data.List.Induction
import Mathlib.Data.List.Nodup
import Mathlib.Tactic.Abel

/-! Tables: rows listed in the order of insertion, found by a key.

Reading after a write is reading the written row at its key (`lookup_replace_self`, `lookup_append_self`) and what was
there before at every other key (`lookup_replace_ne`, `lookup_append_ne`). -/
namespace Delego.Data
open List

variable {κ α : Type} [DecidableEq κ] (key : α → κ)

def lookup (rows : List α) (k : κ) : Option α := rows.find? fun r => decide (key r = k)

/-- The row replaced where its key stands. -/
def replace (rows : List α) (row : α) : List α := rows.map fun r => if key r = key row then row else r

def Keyed (rows : List α) : Prop := (rows.map key).Nodup

instance (rows : List α) : Decidable (Keyed key rows) := inferInstanceAs (Decidable (rows.map key).Nodup)

variable {key} {rows : List α} {row r : α} {k : κ}

theorem lookup_key (h : lookup key rows k = some r) : key r = k := by simpa using find?_some h

theorem lookup_mem (h : lookup key rows k = some r) : r ∈ rows := mem_of_find?_eq_some h

theorem lookup_eq_none : lookup key rows k = none ↔ ∀ r ∈ rows, key r ≠ k := by simp [lookup]

theorem lookup_cons : lookup key (r :: rows) k = if key r = k then some r else lookup key rows k := by
  by_cases h : key r = k
  · simp [lookup, h]
  · simp [lookup, h]

theorem lookup_replace_ne (h : k ≠ key row) : lookup key (replace key rows row) k = lookup key rows k := by
  induction rows with
  | nil => rfl
  | cons a rest ih =>
    have hcons : replace key (a :: rest) row = (if key a = key row then row else a) :: replace key rest row := rfl
    rw [hcons, lookup_cons, lookup_cons, ih]
    by_cases ha : key a = key row
    · rw [if_pos ha, ha, if_neg (Ne.symm h), if_neg (Ne.symm h)]
    · rw [if_neg ha]

theorem lookup_replace_self (h : lookup key rows (key row) = some r) :
    lookup key (replace key rows row) (key row) = some row := by
  induction rows with
  | nil => cases h
  | cons a rest ih =>
    have hcons : replace key (a :: rest) row = (if key a = key row then row else a) :: replace key rest row := rfl
    rw [hcons, lookup_cons]
    by_cases ha : key a = key row
    · rw [if_pos ha, if_pos rfl]
    · rw [lookup_cons, if_neg ha] at h
      rw [if_neg ha, if_neg ha]
      exact ih h

theorem lookup_append_ne (h : k ≠ key row) : lookup key (rows ++ [row]) k = lookup key rows k := by
  induction rows with
  | nil => rw [nil_append, lookup_cons, if_neg (Ne.symm h)]
  | cons a rest ih => rw [cons_append, lookup_cons, lookup_cons, ih]

theorem lookup_append_self (h : lookup key rows (key row) = none) : lookup key (rows ++ [row]) (key row) = some row := by
  induction rows with
  | nil => rw [nil_append, lookup_cons, if_pos rfl]
  | cons a rest ih =>
    rw [lookup_cons] at h
    split at h
    · cases h
    · rename_i ha
      rw [cons_append, lookup_cons, if_neg ha]
      exact ih h

theorem lookup_append (rows rows' : List α) (k : κ) :
    lookup key (rows ++ rows') k = (lookup key rows k).or (lookup key rows' k) := find?_append

theorem lookup_map {β : Type} {key' : β → κ} {f : α → β} (hf : ∀ r, key' (f r) = key r) :
    lookup key' (rows.map f) k = (lookup key rows k).map f := by
  induction rows with
  | nil => rfl
  | cons a rest ih =>
    rw [map_cons, lookup_cons, lookup_cons, ih, hf]
    by_cases ha : key a = k
    · rw [if_pos ha, if_pos ha, Option.map_some]
    · rw [if_neg ha, if_neg ha]

theorem replace_keys : (replace key rows row).map key = rows.map key := by
  induction rows with
  | nil => rfl
  | cons a rest ih =>
    simp only [replace, map_cons, map_map] at ih ⊢
    rw [ih]
    by_cases ha : key a = key row
    · rw [if_pos ha, ha]
    · rw [if_neg ha]

variable (key) in
/-- `UPDATE … WHERE key = k`. -/
def update (rows : List α) (k : κ) (f : α → α) : List α := rows.map fun r => if key r = k then f r else r

variable {f : α → α}

theorem lookup_update (hf : ∀ r, key (f r) = key r) {k' : κ} : lookup key (update key rows k f) k' =
      if k' = k then (lookup key rows k').map f else lookup key rows k' := by
  have hkey : ∀ r, key (if key r = k then f r else r) = key r := by
    intro r
    split
    · exact hf r
    · rfl
  rw [update, lookup_map hkey]
  cases hfound : lookup key rows k' with
  | none => simp
  | some r => simp [lookup_key hfound, apply_ite some]

variable {κ' : Type}
  {key' : α → κ'}

theorem update_keys (hf : ∀ r, key' (f r) = key' r) : (update key rows k f).map key' = rows.map key' := by
  rw [update, map_map]
  apply map_congr_left
  intro r _
  simp only [Function.comp_apply]
  split
  · exact hf r
  · rfl

theorem Keyed.update (h : Keyed key' rows) (hf : ∀ r, key' (f r) = key' r) :
    Keyed key' (update key rows k f) := by
  unfold Keyed
  rw [update_keys hf]
  exact h

omit [DecidableEq κ] in
theorem Keyed.eq (h : Keyed key rows) {r' : α} (hr : r ∈ rows) (hr' : r' ∈ rows) (hkey : key r = key r') :
    r = r' := inj_on_of_nodup_map h hr hr' hkey

theorem Keyed.found (h : Keyed key rows) (hr : r ∈ rows) : lookup key rows (key r) = some r := by
  cases hfound : lookup key rows (key r) with
  | none => exact absurd rfl (lookup_eq_none.mp hfound r hr)
  | some r' => rw [h.eq (lookup_mem hfound) hr (lookup_key hfound)]

theorem update_eq_update [DecidableEq κ'] (h : Keyed key rows) (h' : Keyed key' rows) (hr : r ∈ rows) :
    update key rows (key r) f = update key' rows (key' r) f := by
  apply map_congr_left
  intro x hx
  refine if_congr ⟨?_, ?_⟩ rfl rfl
  · intro hkey
    rw [h.eq hx hr hkey]
  · intro hkey
    rw [h'.eq hx hr hkey]

theorem Keyed.update_congr {g : α → α} (h : Keyed key rows) (hr : r ∈ rows) (hfg : f r = g r) :
    Data.update key rows (key r) f = Data.update key rows (key r) g := by
  apply map_congr_left
  intro x hx
  split
  · rename_i hkey
    rw [h.eq hx hr hkey, hfg]
  · rfl

theorem update_of_none (h : lookup key rows k = none) : update key rows k f = rows := by
  rw [update]
  calc rows.map _ = rows.map id := by
        apply map_congr_left
        intro r hr
        rw [if_neg (lookup_eq_none.mp h r hr), id]
    _ = rows := map_id rows

theorem sum_update {G : Type} [AddCommGroup G] (weight : α → G) (h : Keyed key rows) (hfound : lookup key rows k = some r) :
    ((update key rows k f).map weight).sum = (rows.map weight).sum - weight r + weight (f r) := by
  induction rows with
  | nil => cases hfound
  | cons a rest ih =>
    have hcons : update key (a :: rest) k f = (if key a = k then f a else a) :: update key rest k f := rfl
    obtain ⟨ha, hrest⟩ := nodup_cons.mp h
    rw [lookup_cons] at hfound
    rw [hcons, map_cons, map_cons, sum_cons, sum_cons]
    split at hfound
    · rename_i hk
      cases hfound
      have hnone : lookup key rest k = none := by
        rw [lookup_eq_none]
        rintro x hx hkey
        exact ha (mem_map.mpr ⟨x, hx, by rw [hkey, hk]⟩)
      rw [if_pos hk, update_of_none hnone]
      abel
    · rename_i hk
      rw [if_neg hk, ih hrest hfound]
      abel

omit [DecidableEq κ] in
theorem Keyed.filter (h : Keyed key rows) (p : α → Bool) : Keyed key (rows.filter p) :=
  h.sublist (filter_sublist.map key)

theorem Keyed.lookup_filter (h : Keyed key rows) (p : α → Bool) (k : κ) :
    lookup key (rows.filter p) k = (lookup key rows k).filter p := by
  cases hfound : lookup key rows k with
  | none =>
    rw [Option.filter_none, lookup_eq_none]
    exact fun r hr => lookup_eq_none.mp hfound r (mem_of_mem_filter hr)
  | some r =>
    obtain rfl := lookup_key hfound
    rw [Option.filter_some]
    by_cases hp : p r = true
    · rw [if_pos hp]
      exact (h.filter p).found (mem_filter.mpr ⟨lookup_mem hfound, hp⟩)
    · rw [if_neg hp, lookup_eq_none]
      intro x hx hkey
      obtain ⟨hmem, hpx⟩ := mem_filter.mp hx
      rw [h.eq hmem (lookup_mem hfound) hkey] at hpx
      exact hp hpx

theorem Keyed.lookup_perm {rows' : List α} (h : Keyed key rows) (hperm : rows'.Perm rows) (k : κ) :
    lookup key rows' k = lookup key rows k := by
  have h' : Keyed key rows' := (hperm.map key).nodup_iff.mpr h
  cases hfound : lookup key rows k with
  | none =>
    rw [lookup_eq_none]
    exact fun r hr => lookup_eq_none.mp hfound r (hperm.mem_iff.mp hr)
  | some r =>
    obtain rfl := lookup_key hfound
    exact h'.found (hperm.mem_iff.mpr (lookup_mem hfound))

theorem Keyed.replace (h : Keyed key rows) : Keyed key (replace key rows row) := by
  unfold Keyed
  rw [replace_keys]
  exact h

theorem Keyed.append (h : Keyed key rows) (hnone : lookup key rows (key row) = none) : Keyed key (rows ++ [row]) := by
  unfold Keyed
  rw [map_append, nodup_append]
  refine ⟨h, nodup_singleton _, ?_⟩
  intro a ha b hb
  obtain ⟨r, hr, rfl⟩ := mem_map.mp ha
  rw [map_singleton, mem_singleton] at hb
  rw [hb]
  exact lookup_eq_none.mp hnone r hr

variable (key) in
/-- `map.set(key, row)`: an entry keeps its place. -/
def put (rows : List α) (row : α) : List α :=
  if (lookup key rows (key row)).isSome then replace key rows row else rows ++ [row]

variable (key) in
/-- The map that has each of the rows set in turn. -/
def collect (rows : List α) : List α := rows.foldl (put key) []

theorem lookup_put (rows : List α) (row : α) (k : κ) :
    lookup key (put key rows row) k = if k = key row then some row else lookup key rows k := by
  unfold put
  cases hfound : lookup key rows (key row) with
  | none =>
    rw [if_neg (by simp)]
    split
    · rename_i hk
      rw [hk, lookup_append_self hfound]
    · rename_i hk
      exact lookup_append_ne hk
  | some r =>
    rw [if_pos Option.isSome_some]
    split
    · rename_i hk
      rw [hk, lookup_replace_self hfound]
    · rename_i hk
      exact lookup_replace_ne hk

theorem Keyed.put (h : Keyed key rows) (row : α) : Keyed key (put key rows row) := by
  unfold Data.put
  cases hfound : lookup key rows (key row) with
  | none => exact h.append hfound
  | some r => exact h.replace

theorem mem_put (h : r ∈ put key rows row) : r = row ∨ r ∈ rows := by
  unfold put at h
  split at h
  · obtain ⟨r', hr', rfl⟩ := mem_map.mp h
    split
    · exact .inl rfl
    · exact .inr hr'
  · exact (mem_append.mp h).elim .inr fun h => .inl (mem_singleton.mp h)

theorem collect_concat (rows : List α) (row : α) : collect key (rows ++ [row]) = put key (collect key rows) row :=
  foldl_concat ..

theorem keyed_collect (rows : List α) : Keyed key (collect key rows) := by
  induction rows using reverseRecOn with
  | nil => exact nodup_nil
  | append_singleton rows row ih =>
    rw [collect_concat]
    exact ih.put row

theorem mem_of_lookup_collect (h : lookup key (collect key rows) k = some r) : r ∈ rows := by
  induction rows using reverseRecOn with
  | nil => cases h
  | append_singleton rows row ih =>
    rw [collect_concat, lookup_put] at h
    split at h
    · cases h
      exact mem_append_right rows mem_cons_self
    · exact mem_append_left _ (ih h)

theorem lookup_collect_eq_none : lookup key (collect key rows) k = none ↔ ∀ r ∈ rows, key r ≠ k := by
  induction rows using reverseRecOn with
  | nil => exact iff_of_true rfl fun r hr => absurd hr not_mem_nil
  | append_singleton rows row ih =>
    rw [collect_concat, lookup_put]
    constructor
    · intro hnone r hr hkey
      split at hnone
      · cases hnone
      · rename_i hk
        obtain hr | hr := mem_append.mp hr
        · exact ih.mp hnone r hr hkey
        · rw [mem_singleton.mp hr] at hkey
          exact hk hkey.symm
    · intro hnone
      have hrow := hnone row (mem_append_right rows mem_cons_self)
      rw [if_neg (Ne.symm hrow)]
      exact ih.mpr fun r hr => hnone r (mem_append_left _ hr)

theorem Keyed.lookup_collect (h : Keyed key rows) (k : κ) : lookup key (collect key rows) k = lookup key rows k := by
  cases hcollected : lookup key (collect key rows) k with
  | none => exact (lookup_eq_none.mpr (lookup_collect_eq_none.mp hcollected)).symm
  | some r =>
    obtain rfl := lookup_key hcollected
    exact (h.found (mem_of_lookup_collect hcollected)).symm

variable (key) in
def insertNew (rows batch : List α) : List α :=
  batch.foldl (fun rows row => if key row ∈ rows.map key then rows else rows ++ [row]) rows

theorem mem_insertNew {batch : List α} (h : r ∈ insertNew key rows batch) : r ∈ rows ∨ r ∈ batch := by
  induction batch generalizing rows with
  | nil => exact .inl h
  | cons first rest ih =>
    rcases ih h with hrows | hrest
    · dsimp only at hrows
      split at hrows
      · exact .inl hrows
      · exact (mem_append.mp hrows).imp_right fun h => mem_cons.mpr (.inl (mem_singleton.mp h))
    · exact .inr (mem_cons_of_mem first hrest)

theorem insertNew_of_keyed {batch : List α} (h : Keyed key batch) :
    insertNew key rows batch = rows ++ batch.filter fun row => decide (key row ∉ rows.map key) := by
  induction batch generalizing rows with
  | nil => exact (append_nil rows).symm
  | cons first rest ih =>
    obtain ⟨hfirst, hrest⟩ := nodup_cons.mp h
    by_cases hthere : key first ∈ rows.map key
    · have hskip : insertNew key rows (first :: rest) = insertNew key rows rest :=
        congrArg (fun rows => insertNew key rows rest) (if_pos hthere)
      rw [hskip, ih hrest, filter_cons_of_neg (by simpa using hthere)]
    · have hinsert : insertNew key rows (first :: rest) = insertNew key (rows ++ [first]) rest :=
        congrArg (fun rows => insertNew key rows rest) (if_neg hthere)
      have hothers : (rest.filter fun row => decide (key row ∉ (rows ++ [first]).map key)) =
          rest.filter fun row => decide (key row ∉ rows.map key) := by
        refine filter_congr fun row hrow => ?_
        have hne : key row ≠ key first := fun heq => hfirst (heq ▸ mem_map_of_mem hrow)
        rw [decide_eq_decide, map_append, map_singleton, mem_append, mem_singleton, or_iff_left hne]
      rw [hinsert, ih hrest, hothers, filter_cons_of_pos (by simpa using hthere), append_assoc,
        singleton_append]

theorem getElem?_concat_cases {i : Nat} (h : (rows ++ [row])[i]? = some r) :
    rows[i]? = some r ∨ i = rows.length ∧ r = row := by
  rcases Nat.lt_or_ge i rows.length with hlt | hge
  · rw [getElem?_append_left hlt] at h
    exact .inl h
  · rw [getElem?_append_right hge, getElem?_singleton] at h
    split at h
    · cases h
      exact .inr ⟨by omega, rfl⟩
    · cases h

/-- How many rows there are of a kind, when one is put in the place of another. -/
theorem countP_set_add {p : α → Bool} {i : Nat} (h : rows[i]? = some r) (row : α) :
    (rows.set i row).countP p + (if p r then 1 else 0) = rows.countP p + if p row then 1 else 0 := by
  obtain ⟨hlt, rfl⟩ := List.getElem?_eq_some_iff.mp h
  have hcnt : (if p rows[i] then 1 else 0) ≤ rows.countP p := by
    split
    · rename_i hp
      exact countP_pos_iff.mpr ⟨rows[i], getElem_mem hlt, hp⟩
    · exact Nat.zero_le _
  rw [countP_set hlt]
  omega

theorem countP_le_add {p q s : α → Bool} (h : ∀ r ∈ rows, p r = true → q r = true ∨ s r = true) :
    rows.countP p ≤ rows.countP q + rows.countP s := by
  induction rows with
  | nil => exact Nat.zero_le _
  | cons first rest ih =>
    have hrest := ih fun other hother => h other (mem_cons_of_mem first hother)
    have hfirst := h first mem_cons_self
    rw [countP_cons, countP_cons, countP_cons]
    cases hp : p first with
    | false =>
      simp only [Bool.false_eq_true, if_false]
      omega
    | true =>
      obtain hq | hs := hfirst hp
      · simp only [hq, if_true]
        omega
      · simp only [hs, if_true]
        omega

end Delego.Data
