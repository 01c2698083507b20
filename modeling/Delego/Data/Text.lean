import Mathlib.Data.List.Infix

/-! Strings as the language of the services treats them. -/
namespace Delego.Data
open List

/-- `message.includes(pattern)` -/
def includes (message pattern : String) : Bool := decide (pattern.toList <:+: message.toList)

/-- `message.toLowerCase()`, of the ASCII letters. -/
def toLowerCase (message : String) : String := String.ofList (message.toList.map Char.toLower)

/-- The conversions of strings that the services rely on. Nothing is proved from what
they do, so they are parameters. -/
structure Conversions where
  /-- `Number(s)`, where that is a non-negative integer. -/
  number : String → Option Nat
  /-- `BigInt(s)`, where that does not throw. -/
  bigInt : String → Option Int
  /-- `s.trim()` -/
  trim : String → String

def readDigits (value : Nat) : List Char → Option Nat
  | [] => some value
  | c :: rest => if c.isDigit then readDigits (10 * value + (c.toNat - '0'.toNat)) rest else none

def readInteger : List Char → Option Int
  | '-' :: c :: rest => (readDigits 0 (c :: rest)).map fun value => -(value : Int)
  | digits => (readDigits 0 digits).map fun value => (value : Int)

def decimal : Conversions := ⟨fun s => readDigits 0 s.toList, fun s => readInteger s.toList, id⟩

/-! ### Trimming and lower case, as the language defines them for all of Unicode

`toLowerCase` is the default case conversion of Unicode: each character by its mapping, but the capital sigma by what
stands around it. The mapping itself is data (`CaseTable`), with the two facts about it that matter here: what it yields
is lower case, and no letter becomes white space. So a trimmed name in lower case is left alone by both
(`normalize_normalize`). -/

def isWhiteSpace (c : Char) : Bool :=
  let n := c.toNat
  (9 ≤ n && n ≤ 13) || n == 0x20 || n == 0xA0 || n == 0x1680 || (0x2000 ≤ n && n ≤ 0x200A) ||
    n == 0x2028 || n == 0x2029 || n == 0x202F || n == 0x205F || n == 0x3000 || n == 0xFEFF

def trimStart (chars : List Char) : List Char := chars.dropWhile isWhiteSpace

def trimEnd (chars : List Char) : List Char := (trimStart chars.reverse).reverse

/-- `s.trim()` -/
def trim (s : String) : String := String.ofList (trimEnd (trimStart s.toList))

/-- The properties of characters that lower case rests on. -/
structure CaseTable where
  /-- `Lowercase_Mapping` -/
  lowercase : Char → List Char
  cased : Char → Bool
  caseIgnorable : Char → Bool
  settled : ∀ c, c ≠ 'Σ' → ∀ x ∈ lowercase c, x ≠ 'Σ' ∧ lowercase x = [x]
  sigma : lowercase 'σ' = ['σ'] ∧ lowercase 'ς' = ['ς']
  visible : ∀ c, isWhiteSpace c = false → lowercase c ≠ [] ∧ ∀ x ∈ lowercase c, isWhiteSpace x = false

namespace CaseTable
variable (table : CaseTable)

def meetsCased (chars : List Char) : Bool :=
  (chars.takeWhile table.caseIgnorable).any table.cased || (chars.dropWhile table.caseIgnorable).head?.any table.cased

def lowerAt (before : List Char) (c : Char) (after : List Char) : List Char :=
  if c = 'Σ' then if table.meetsCased before && !table.meetsCased after then ['ς'] else ['σ']
  else table.lowercase c

def lowerFrom : List Char → List Char → List Char
  | _, [] => []
  | before, c :: after => table.lowerAt before c after ++ lowerFrom (c :: before) after

/-- `s.toLowerCase()` -/
def toLowerCase (s : String) : String := String.ofList (table.lowerFrom [] s.toList)

variable {table}

def Settled (table : CaseTable) (c : Char) : Prop := c ≠ 'Σ' ∧ table.lowercase c = [c]

theorem lowerAt_settled (before : List Char) (c : Char) (after : List Char) :
    ∀ x ∈ table.lowerAt before c after, table.Settled x := by
  have hsigma : table.Settled 'σ' := ⟨by decide, table.sigma.1⟩
  have hfinal : table.Settled 'ς' := ⟨by decide, table.sigma.2⟩
  intro x hx
  unfold lowerAt at hx
  split at hx
  · split at hx
    · rw [mem_singleton.mp hx]
      exact hfinal
    · rw [mem_singleton.mp hx]
      exact hsigma
  · rename_i hc
    exact table.settled c hc x hx

variable (table) in
theorem lowerFrom_settled (before chars : List Char) : ∀ x ∈ table.lowerFrom before chars, table.Settled x := by
  induction chars generalizing before with
  | nil =>
    intro x hx
    cases hx
  | cons c after ih =>
    intro x hx
    rcases mem_append.mp hx with hx | hx
    · exact lowerAt_settled before c after x hx
    · exact ih (c :: before) x hx

variable {chars : List Char}

theorem lowerFrom_of_settled (before : List Char) (h : ∀ c ∈ chars, table.Settled c) :
    table.lowerFrom before chars = chars := by
  induction chars generalizing before with
  | nil => rfl
  | cons c after ih =>
    obtain ⟨hsigma, heq⟩ := h c mem_cons_self
    rw [lowerFrom, lowerAt, if_neg hsigma, heq, ih (c :: before) fun x hx => h x (mem_cons_of_mem c hx)]
    rfl

variable (table) in
theorem lowerAt_visible (before : List Char) {c : Char} (after : List Char) (h : isWhiteSpace c = false) :
    table.lowerAt before c after ≠ [] ∧ ∀ x ∈ table.lowerAt before c after, isWhiteSpace x = false := by
  unfold lowerAt
  split
  · split
    · exact ⟨cons_ne_nil _ _, forall_mem_singleton.mpr rfl⟩
    · exact ⟨cons_ne_nil _ _, forall_mem_singleton.mpr rfl⟩
  · exact table.visible c h

end CaseTable

def Trimmed (chars : List Char) : Prop :=
  (∀ c ∈ chars.head?, isWhiteSpace c = false) ∧ ∀ c ∈ chars.getLast?, isWhiteSpace c = false

theorem trimStart_of_head (h : ∀ c ∈ chars.head?, isWhiteSpace c = false) : trimStart chars = chars := by
  cases chars with
  | nil => rfl
  | cons c rest =>
    have hc : isWhiteSpace c = false := h c rfl
    simp [trimStart, hc]

theorem head_trimStart (chars : List Char) : ∀ c ∈ (trimStart chars).head?, isWhiteSpace c = false := by
  induction chars with
  | nil =>
    intro c hc
    cases hc
  | cons a rest ih =>
    intro c hc
    unfold trimStart at hc
    rw [dropWhile_cons] at hc
    split at hc
    · exact ih c hc
    · rename_i ha
      cases hc
      simpa using ha

theorem trim_of_trimmed (h : Trimmed chars) : trimEnd (trimStart chars) = chars := by
  rw [trimStart_of_head h.1, trimEnd, trimStart_of_head, reverse_reverse]
  rw [head?_reverse]
  exact h.2

theorem head_trimEnd (chars : List Char) (h : ∀ c ∈ chars.head?, isWhiteSpace c = false) :
    ∀ c ∈ (trimEnd chars).head?, isWhiteSpace c = false := by
  cases chars with
  | nil => exact h
  | cons a rest =>
    have ha : isWhiteSpace a = false := h a rfl
    have hsplit : trimStart (a :: rest).reverse = trimStart rest.reverse ++ [a] := by
      unfold trimStart
      rw [reverse_cons, dropWhile_append]
      split
      · rename_i hempty
        rw [isEmpty_iff.mp hempty]
        simp [ha]
      · rfl
    rw [trimEnd, hsplit, reverse_append]
    intro c hc
    cases hc
    exact ha

theorem trimmed_trim (chars : List Char) : Trimmed (trimEnd (trimStart chars)) := by
  refine ⟨head_trimEnd _ (head_trimStart chars), ?_⟩
  rw [trimEnd, getLast?_reverse]
  exact head_trimStart _

theorem trim_trim (s : String) : trim (trim s) = trim s := by
  simp only [trim, String.toList_ofList]
  rw [trim_of_trimmed (trimmed_trim s.toList)]

theorem visible_of_getLast (table : CaseTable) (before : List Char) {c : Char} (hlast : chars.getLast? = some c)
    (h : isWhiteSpace c = false) :
    ∃ x, (table.lowerFrom before chars).getLast? = some x ∧ isWhiteSpace x = false := by
  induction chars generalizing before with
  | nil => cases hlast
  | cons a after ih =>
    rw [CaseTable.lowerFrom, getLast?_append]
    cases after with
    | nil =>
      obtain rfl : a = c := by simpa using hlast
      obtain ⟨hne, hvisible⟩ := table.lowerAt_visible before [] h
      refine ⟨(table.lowerAt before a []).getLast hne, ?_, hvisible _ (getLast_mem hne)⟩
      simp [CaseTable.lowerFrom, getLast?_eq_some_getLast hne]
    | cons b rest =>
      rw [getLast?_cons_cons] at hlast
      obtain ⟨x, hx, hvisible⟩ := ih (a :: before) hlast
      exact ⟨x, by simp [hx], hvisible⟩

theorem trimmed_lowerFrom (table : CaseTable) (h : Trimmed chars) : Trimmed (table.lowerFrom [] chars) := by
  cases chars with
  | nil => exact h
  | cons c after =>
    have hc : isWhiteSpace c = false := h.1 c rfl
    obtain ⟨hne, hvisible⟩ := table.lowerAt_visible [] after hc
    refine ⟨?_, ?_⟩
    · rw [CaseTable.lowerFrom, head?_append_of_ne_nil _ hne]
      intro x hx
      exact hvisible x (mem_of_mem_head? hx)
    · obtain ⟨last, hlast⟩ := Option.isSome_iff_exists.mp (getLast?_isSome.mpr (cons_ne_nil c after))
      obtain ⟨x, hx, hx'⟩ := visible_of_getLast table [] hlast (h.2 last hlast)
      rw [hx]
      rintro _ ⟨⟩
      exact hx'

/-- `s.trim().toLowerCase()` -/
def CaseTable.normalize (table : CaseTable) (s : String) : String := table.toLowerCase (trim s)

theorem normalize_normalize (table : CaseTable) (s : String) : table.normalize (table.normalize s) = table.normalize s := by
  have hsett := table.lowerFrom_settled [] (trimEnd (trimStart s.toList))
  have htrimmed := trimmed_lowerFrom table (trimmed_trim s.toList)
  simp only [CaseTable.normalize, CaseTable.toLowerCase, trim, String.toList_ofList, trim_of_trimmed htrimmed,
    CaseTable.lowerFrom_of_settled [] hsett]

theorem toNat_toLower (c : Char) : c.toLower.toNat = if 65 ≤ c.toNat ∧ c.toNat ≤ 90 then c.toNat + 32 else c.toNat := by
  have hA : 'A'.val.toNat = 65 := rfl
  have hZ : 'Z'.val.toNat = 90 := rfl
  have hstep : ('a'.val - 'A'.val).toNat = 32 := rfl
  have hval : c.val.toNat = c.toNat := rfl
  unfold Char.toLower
  split
  · rename_i h
    simp only [ge_iff_le, UInt32.le_iff_toNat_le, hA, hZ, hval] at h
    rw [if_pos h]
    show (c.val + ('a'.val - 'A'.val)).toNat = _
    rw [UInt32.toNat_add, hstep, hval]
    omega
  · rename_i h
    simp only [ge_iff_le, UInt32.le_iff_toNat_le, hA, hZ, hval] at h
    rw [if_neg h]

/-- The mapping of the ASCII letters alone. -/
def ascii : CaseTable where
  lowercase := fun c => [c.toLower]
  cased := Char.isAlpha
  caseIgnorable := fun _ => false
  settled := by
    intro c hc x hx
    rw [mem_singleton.mp hx]
    have hlower := toNat_toLower c
    have htwice := toNat_toLower c.toLower
    refine ⟨?_, ?_⟩
    · intro hsigma
      have hnat : c.toLower.toNat = 931 := by
        rw [hsigma]
        rfl
      apply hc
      apply Char.toNat_inj.mp
      show c.toNat = 931
      split at hlower
      · omega
      · omega
    · apply congrArg (fun y => [y])
      apply Char.toNat_inj.mp
      split at hlower
      · rw [htwice, if_neg (by omega)]
      · rw [htwice, if_neg (by omega)]
  sigma := by decide
  visible := by
    intro c hc
    refine ⟨by simp, ?_⟩
    intro x hx
    rw [mem_singleton.mp hx]
    have hlower := toNat_toLower c
    unfold isWhiteSpace at hc ⊢
    rw [hlower]
    split
    · rename_i hupper
      simp only [Bool.or_eq_false_iff, Bool.and_eq_false_iff, decide_eq_false_iff_not, beq_eq_false_iff_ne]
      omega
    · exact hc

theorem count_intercalate {α : Type} [BEq α] [LawfulBEq α] (mark : α) (pieces : List (List α)) :
    count mark ([mark].intercalate pieces) = count mark pieces.flatten + (pieces.length - 1) := by
  induction pieces with
  | nil => rfl
  | cons piece rest ih =>
    cases rest with
    | nil => simp
    | cons second rest =>
      rw [intercalate_cons_cons, count_append, count_append, ih, flatten_cons (l := piece), count_append, count_singleton_self]
      simp only [length_cons]
      omega

/-- As many pieces that make the same text are the same pieces, where one side has no mark within a piece. -/
theorem pieces_of_joined {separator : String} {mark : Char} {pieces pieces' : List String} (hmark : separator.toList = [mark])
    (hlen : pieces.length = pieces'.length) (hfree : ∀ piece ∈ pieces, mark ∉ piece.toList)
    (h : separator.intercalate pieces = separator.intercalate pieces') : pieces = pieces' := by
  have hjoined := congrArg String.toList h
  rw [String.toList_intercalate, String.toList_intercalate, hmark] at hjoined
  have hcount := congrArg (count mark) hjoined
  rw [count_intercalate, count_intercalate, length_map, length_map, hlen, Nat.add_right_cancel_iff,
    count_eq_zero.mpr (by simpa using hfree), eq_comm, count_eq_zero] at hcount
  cases pieces with
  | nil => exact (eq_nil_of_length_eq_zero hlen.symm).symm
  | cons piece rest =>
    have hsplit := congrArg (splitOn mark) hjoined
    have hsome' : pieces' ≠ [] := ne_nil_of_length_pos (hlen ▸ Nat.succ_pos _)
    rw [splitOn_intercalate _ (by simpa using hfree) (by simp), splitOn_intercalate _ (by simpa using hcount) (by simpa)] at hsplit
    exact map_injective_iff.mpr (fun _ _ => String.toList_injective) hsplit

end Delego.Data
