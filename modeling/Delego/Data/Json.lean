import Delego.Data.Number
import Delego.Data.Text
import Mathlib.Data.List.Sort

/-! Values of JSON, and how the language writes them.

A number is given by its numeral. An object is the list of its properties in their order: those
whose keys are array indices come first, by number, and the others in the order in which they were
made (`ownOrder`). A store may give the other properties back in any order (`Json.Same`); a value
that has no two of them in one object then comes back as it was (`eq_of_same`). -/
namespace Delego.Data
open List

inductive Json where
  | null
  | bool (value : Bool)
  | number (numeral : String)
  | string (value : String)
  | array (items : List Json)
  | object (members : List (String × Json))

/-- The number that an array index is a key for. -/
def arrayIndex (key : String) : Option Nat :=
  (readDigits 0 key.toList).filter fun n => decide (n < 2 ^ 32 - 1 ∧ toString n = key)

def isIndex (key : String) : Bool := (arrayIndex key).isSome

theorem arrayIndex_injective {key key' : String} {n : Nat} (h : arrayIndex key = some n) (h' : arrayIndex key' = some n) :
    key = key' := by
  have htext : ∀ key, arrayIndex key = some n → toString n = key := by
    intro key hkey
    have hfilter := (Option.filter_eq_some_iff.mp hkey).2
    exact (of_decide_eq_true hfilter).2
  rw [← htext key h, ← htext key' h']

section
variable {β : Type} {entries entries' : List (String × β)}

def indexLe (a b : String × β) : Prop := (arrayIndex a.1).getD 0 ≤ (arrayIndex b.1).getD 0

instance : DecidableRel (indexLe (β := β)) := fun _ _ => inferInstanceAs (Decidable (_ ≤ _))

def ownOrder (entries : List (String × β)) : List (String × β) :=
  (entries.filter fun e => isIndex e.1).insertionSort indexLe ++ entries.filter fun e => !isIndex e.1

theorem pairwise_indexLe (entries : List (String × β)) : (entries.insertionSort indexLe).Pairwise indexLe := by
  have : Std.Total (indexLe (β := β)) := ⟨fun _ _ => Nat.le_total _ _⟩
  have : IsTrans (String × β) indexLe := ⟨fun _ _ _ => Nat.le_trans⟩
  exact pairwise_insertionSort _ entries

theorem ownOrder_indices (h : entries.Perm entries') (hkeys : (entries.map (·.1)).Nodup) :
    (entries.filter fun e => isIndex e.1).insertionSort indexLe =
      (entries'.filter fun e => isIndex e.1).insertionSort indexLe := by
  have hfilter := h.filter fun e : String × β => isIndex e.1
  have hperm := ((perm_insertionSort indexLe _).trans hfilter).trans (perm_insertionSort indexLe _).symm
  refine List.Perm.eq_of_pairwise ?_ (pairwise_indexLe _) (pairwise_indexLe _) hperm
  intro a b ha hb hab hba
  have ha := mem_filter.mp ((perm_insertionSort _ _).subset ha)
  have hb := mem_filter.mp ((perm_insertionSort _ _).subset hb)
  obtain ⟨n, hn⟩ := Option.isSome_iff_exists.mp ha.2
  obtain ⟨m, hm⟩ := Option.isSome_iff_exists.mp hb.2
  simp only [indexLe, hn, hm, Option.getD_some] at hab hba
  obtain rfl : n = m := Nat.le_antisymm hab hba
  exact inj_on_of_nodup_map hkeys ha.1 (h.symm.subset hb.1) (arrayIndex_injective hn hm)

theorem eq_of_perm_of_few (h : entries.Perm entries') (hkeys : (entries.map (·.1)).Nodup)
    (hfew : (entries.filter fun e => !isIndex e.1).length ≤ 1) (horder : ownOrder entries = entries)
    (horder' : ownOrder entries' = entries') : entries' = entries := by
  have hnames := h.filter fun e : String × β => !isIndex e.1
  have hone : (entries'.filter fun e => !isIndex e.1) = entries.filter fun e => !isIndex e.1 := by
    cases hlist : entries.filter fun e => !isIndex e.1 with
    | nil =>
      rw [hlist] at hnames
      exact nil_perm.mp hnames
    | cons e rest =>
      rw [hlist, length_cons] at hfew
      obtain rfl := eq_nil_of_length_eq_zero (by omega : rest.length = 0)
      rw [hlist] at hnames
      exact perm_singleton.mp hnames.symm
  rw [← horder', ← horder, ownOrder, ownOrder, ownOrder_indices h hkeys, hone]

end

/-- How a character is written in a string. -/
def escape (c : Char) : List Char :=
  if c = '"' then ['\\', '"']
  else if c = '\\' then ['\\', '\\']
  else if c.toNat = 8 then ['\\', 'b']
  else if c.toNat = 9 then ['\\', 't']
  else if c.toNat = 10 then ['\\', 'n']
  else if c.toNat = 12 then ['\\', 'f']
  else if c.toNat = 13 then ['\\', 'r']
  else if c.toNat < 32 then ['\\', 'u', '0', '0', hexDigit (c.toNat / 16), hexDigit (c.toNat % 16)]
  else [c]

def quote (s : String) : List Char := '"' :: (s.toList.flatMap escape ++ ['"'])

def joined : List (List Char) → List Char
  | [] => []
  | [text] => text
  | text :: rest => text ++ ',' :: joined rest

mutual

/-- `JSON.stringify(value)` -/
def Json.chars : Json → List Char
  | .null => ['n', 'u', 'l', 'l']
  | .bool true => ['t', 'r', 'u', 'e']
  | .bool false => ['f', 'a', 'l', 's', 'e']
  | .number numeral => numeral.toList
  | .string value => quote value
  | .array items => '[' :: (joined (Json.itemTexts items) ++ [']'])
  | .object members => '{' :: (joined (Json.memberTexts members) ++ ['}'])

def Json.itemTexts : List Json → List (List Char)
  | [] => []
  | item :: rest => item.chars :: Json.itemTexts rest

def Json.memberTexts : List (String × Json) → List (List Char)
  | [] => []
  | (key, value) :: rest => (quote key ++ ':' :: value.chars) :: Json.memberTexts rest

end

def Json.stringify (value : Json) : String := String.ofList value.chars

mutual

def Json.Proper : Json → Prop
  | .array items => Json.ProperItems items
  | .object members => (members.map (·.1)).Nodup ∧ ownOrder members = members ∧ Json.ProperMembers members
  | _ => True

def Json.ProperItems : List Json → Prop
  | [] => True
  | item :: rest => item.Proper ∧ Json.ProperItems rest

def Json.ProperMembers : List (String × Json) → Prop
  | [] => True
  | (_, value) :: rest => value.Proper ∧ Json.ProperMembers rest

end

variable {members : List (String × Json)}

theorem properMembers_iff : Json.ProperMembers members ↔ ∀ e ∈ members, e.2.Proper := by
  induction members with
  | nil => simp [Json.ProperMembers]
  | cons e rest ih =>
    obtain ⟨key, value⟩ := e
    simp [Json.ProperMembers, ih]

mutual

def Json.Same : Json → Json → Prop
  | .array items, other => ∃ items', other = .array items' ∧ Json.SameItems items items'
  | .object members, other => ∃ members' reordered, other = .object members' ∧
      reordered.Perm members' ∧ Json.SameMembers members reordered
  | value, other => other = value

def Json.SameItems : List Json → List Json → Prop
  | [], others => others = []
  | item :: rest, others => ∃ other others', others = other :: others' ∧ item.Same other ∧ Json.SameItems rest others'

def Json.SameMembers : List (String × Json) → List (String × Json) → Prop
  | [], others => others = []
  | (key, value) :: rest, others => ∃ other others', others = (key, other) :: others' ∧ value.Same other ∧
      Json.SameMembers rest others'

end

theorem sameItems_iff {items others : List Json} : Json.SameItems items others ↔ List.Forall₂ Json.Same items others := by
  induction items generalizing others with
  | nil => rw [Json.SameItems, forall₂_nil_left_iff]
  | cons item rest ih =>
    constructor
    · rintro ⟨other, others', rfl, heq, hrest⟩
      exact .cons heq (ih.mp hrest)
    · intro h
      cases h with
      | cons heq hrest => exact ⟨_, _, rfl, heq, ih.mpr hrest⟩

theorem sameMembers_iff {others : List (String × Json)} :
    Json.SameMembers members others ↔ List.Forall₂ (fun e d => e.1 = d.1 ∧ e.2.Same d.2) members others := by
  induction members generalizing others with
  | nil => rw [Json.SameMembers, forall₂_nil_left_iff]
  | cons member rest ih =>
    obtain ⟨key, value⟩ := member
    constructor
    · rintro ⟨other, others', rfl, heq, hrest⟩
      exact .cons ⟨rfl, heq⟩ (ih.mp hrest)
    · intro h
      cases h with
      | @cons _ d _ _ heq hrest =>
        obtain ⟨key', other⟩ := d
        obtain ⟨rfl, hvalue⟩ := heq
        exact ⟨other, _, rfl, hvalue, ih.mpr hrest⟩

mutual

def Json.Steady : Json → Prop
  | .array items => Json.SteadyItems items
  | .object members => (members.filter fun e => !isIndex e.1).length ≤ 1 ∧ Json.SteadyMembers members
  | _ => True

def Json.SteadyItems : List Json → Prop
  | [] => True
  | item :: rest => item.Steady ∧ Json.SteadyItems rest

def Json.SteadyMembers : List (String × Json) → Prop
  | [] => True
  | (_, value) :: rest => value.Steady ∧ Json.SteadyMembers rest

end

/-- Every value, from what holds of the items of an array and the values of an object. -/
@[elab_as_elim]
theorem Json.nested {P : Json → Prop} (null : P .null) (bool : ∀ value, P (.bool value)) (number : ∀ numeral, P (.number numeral))
    (string : ∀ value, P (.string value)) (array : ∀ items, (∀ item ∈ items, P item) → P (.array items))
    (object : ∀ members, (∀ e ∈ members, P e.2) → P (.object members)) (value : Json) : P value :=
  @Json.rec P (fun items => ∀ item ∈ items, P item) (fun members => ∀ e ∈ members, P e.2) (fun e => P e.2)
    null bool number string array object
    (fun _ hmem => absurd hmem not_mem_nil) (fun _ _ hfirst hrest => forall_mem_cons.mpr ⟨hfirst, hrest⟩)
    (fun _ hmem => absurd hmem not_mem_nil) (fun _ _ hfirst hrest => forall_mem_cons.mpr ⟨hfirst, hrest⟩)
    (fun _ _ h => h) value

def Json.Fixed (value : Json) : Prop :=
  ∀ other, value.Same other → value.Steady → value.Proper → other.Proper → other = value

theorem items_fixed {items : List Json} (hfixed : ∀ item ∈ items, item.Fixed) {others : List Json}
    (h : Json.SameItems items others) (hsteady : Json.SteadyItems items) (hproper : Json.ProperItems items)
    (hothers : Json.ProperItems others) : others = items := by
  induction items generalizing others with
  | nil => exact h
  | cons item rest ih =>
    obtain ⟨other, others', rfl, heq, hrest⟩ := h
    rw [hfixed item mem_cons_self other heq hsteady.1 hproper.1 hothers.1,
      ih (fun item hitem => hfixed item (mem_cons_of_mem _ hitem)) hrest hsteady.2 hproper.2 hothers.2]

theorem members_fixed (hfixed : ∀ e ∈ members, e.2.Fixed) {others : List (String × Json)}
    (h : Json.SameMembers members others) (hsteady : Json.SteadyMembers members) (hproper : Json.ProperMembers members)
    (hothers : Json.ProperMembers others) : others = members := by
  induction members generalizing others with
  | nil => exact h
  | cons member rest ih =>
    obtain ⟨key, value⟩ := member
    obtain ⟨other, others', rfl, heq, hrest⟩ := h
    rw [hfixed _ mem_cons_self other heq hsteady.1 hproper.1 hothers.1,
      ih (fun e he => hfixed e (mem_cons_of_mem _ he)) hrest hsteady.2 hproper.2 hothers.2]

/-- **A value of which no object has two properties that are not indices comes back as it was.** -/
theorem eq_of_same (value : Json) : value.Fixed := by
  induction value using Json.nested with
  | null => exact fun other h _ _ _ => h
  | bool value => exact fun other h _ _ _ => h
  | number numeral => exact fun other h _ _ _ => h
  | string value => exact fun other h _ _ _ => h
  | array items ih =>
    intro other h hsteady hproper hother
    obtain ⟨items', rfl, heq⟩ := h
    rw [items_fixed ih heq hsteady hproper hother]
  | object members ih =>
    intro other h hsteady hproper hother
    obtain ⟨members', reordered, rfl, hperm, heq⟩ := h
    have hvalues : Json.ProperMembers reordered :=
      properMembers_iff.mpr fun e he => properMembers_iff.mp hother.2.2 e (hperm.subset he)
    obtain rfl := members_fixed ih heq hsteady.2 hproper.2.2 hvalues
    rw [eq_of_perm_of_few hperm hproper.1 hsteady.1 hproper.2.1 hother.2.1]

end Delego.Data
