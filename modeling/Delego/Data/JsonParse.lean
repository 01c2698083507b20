import Delego.Data.CodeUnits
import Delego.Data.Json
import Mathlib.Data.List.TakeWhile

/-! `JSON.parse`.

A value is read from the front of a text, and what is left is read on. What `JSON.stringify` writes is read
back as the value it was (`parse_stringify`). -/
namespace Delego.Data
open List

def isBlank (c : Char) : Bool := c.toNat = 9 || c.toNat = 10 || c.toNat = 13 || c.toNat = 32

def skipBlanks (text : List Char) : List Char := text.dropWhile isBlank

def hexValue (c : Char) : Option Nat :=
  if c.isDigit then some (c.toNat - 48)
  else if 'a' ≤ c ∧ c ≤ 'f' then some (c.toNat - 87)
  else if 'A' ≤ c ∧ c ≤ 'F' then some (c.toNat - 55)
  else none

def unescape (c : Char) : Option Nat :=
  if c = '"' ∨ c = '\\' ∨ c = '/' then some c.toNat
  else if c = 'b' then some 8
  else if c = 't' then some 9
  else if c = 'n' then some 10
  else if c = 'f' then some 12
  else if c = 'r' then some 13
  else none

def readUnits : List Char → Option (List Nat × List Char)
  | [] => none
  | c :: rest =>
    if c = '"' then some ([], rest)
    else if c = '\\' then
      match rest with
      | [] => none
      | e :: rest =>
        if e = 'u' then
          match rest with
          | a :: b :: c :: d :: rest => do
            let unit := 4096 * (← hexValue a) + 256 * (← hexValue b) + 16 * (← hexValue c) + (← hexValue d)
            (readUnits rest).map fun (units, rest) => (unit :: units, rest)
          | _ => none
        else do
          let unit ← unescape e
          (readUnits rest).map fun (units, rest) => (unit :: units, rest)
    else if c.toNat < 32 then none
    else (readUnits rest).map fun (read, rest) => (units c ++ read, rest)

def ofUnits : List Nat → List Char
  | [] => []
  | [unit] => [if 0xD800 ≤ unit ∧ unit ≤ 0xDFFF then Char.ofNat 0xFFFD else Char.ofNat unit]
  | high :: low :: rest =>
    if 0xD800 ≤ high ∧ high ≤ 0xDBFF ∧ 0xDC00 ≤ low ∧ low ≤ 0xDFFF then
      Char.ofNat (0x10000 + (high - 0xD800) * 0x400 + (low - 0xDC00)) :: ofUnits rest
    else (if 0xD800 ≤ high ∧ high ≤ 0xDFFF then Char.ofNat 0xFFFD else Char.ofNat high) :: ofUnits (low :: rest)

def readString (text : List Char) : Option (String × List Char) :=
  (readUnits text).map fun (units, rest) => (String.ofList (ofUnits units), rest)

def isNumeralChar (c : Char) : Bool := c.isDigit || c = '-' || c = '+' || c = '.' || c = 'e' || c = 'E'

def isExponent : List Char → Bool
  | [] => true
  | c :: rest =>
    let digits := match rest with
      | sign :: digits => if sign = '+' ∨ sign = '-' then digits else rest
      | [] => []
    (c = 'e' || c = 'E') && !digits.isEmpty && digits.all Char.isDigit

def isFraction : List Char → Bool
  | '.' :: rest => !(rest.takeWhile Char.isDigit).isEmpty && isExponent (rest.dropWhile Char.isDigit)
  | rest => isExponent rest

def isNumeral (text : List Char) : Bool :=
  let digits := match text with
    | '-' :: rest => rest
    | rest => rest
  let whole := digits.takeWhile Char.isDigit
  !whole.isEmpty && (whole.length = 1 || whole.head? ≠ some '0') && isFraction (digits.dropWhile Char.isDigit)

def readNumeral (text : List Char) : Option String :=
  if isNumeral text then some <| match readInteger text with
    | some n => if n.natAbs < 10 ^ 21 then toString (shown (toNumber n)) else String.ofList text
    | none => String.ofList text
  else none

/-- Properties as they are made one after the other: of those with one key the last is kept, in the first's place. -/
def assign (members : List (String × Json)) (key : String) (value : Json) : List (String × Json) :=
  if key ∈ members.map (·.1) then members.map fun e => if e.1 = key then (key, value) else e
  else members ++ [(key, value)]

def ofEntries (entries : List (String × Json)) : Json :=
  .object (ownOrder (entries.foldl (fun members e => assign members e.1 e.2) []))

def readLiteral (text : List Char) : Option (Json × List Char) :=
  if ['n', 'u', 'l', 'l'].isPrefixOf text then some (.null, text.drop 4)
  else if ['t', 'r', 'u', 'e'].isPrefixOf text then some (.bool true, text.drop 4)
  else if ['f', 'a', 'l', 's', 'e'].isPrefixOf text then some (.bool false, text.drop 5)
  else none

mutual

def readValue : Nat → List Char → Option (Json × List Char)
  | 0, _ => none
  | fuel + 1, text =>
    match skipBlanks text with
    | [] => none
    | c :: rest =>
      if c = '"' then (readString rest).map fun (value, rest) => (.string value, rest)
      else if c = '[' then
        match skipBlanks rest with
        | ']' :: rest => some (.array [], rest)
        | rest => (readItems fuel rest).map fun (items, rest) => (.array items, rest)
      else if c = '{' then
        match skipBlanks rest with
        | '}' :: rest => some (.object [], rest)
        | rest => (readMembers fuel rest).map fun (entries, rest) => (ofEntries entries, rest)
      else if isNumeralChar c then
        (readNumeral ((c :: rest).takeWhile isNumeralChar)).map fun numeral =>
          (.number numeral, (c :: rest).dropWhile isNumeralChar)
      else readLiteral (c :: rest)

def readItems : Nat → List Char → Option (List Json × List Char)
  | 0, _ => none
  | fuel + 1, text => do
    let (item, rest) ← readValue fuel text
    match skipBlanks rest with
    | ']' :: rest => some ([item], rest)
    | ',' :: rest => (readItems fuel rest).map fun (items, rest) => (item :: items, rest)
    | _ => none

def readMembers : Nat → List Char → Option (List (String × Json) × List Char)
  | 0, _ => none
  | fuel + 1, text =>
    match skipBlanks text with
    | '"' :: rest => do
      let (key, rest) ← readString rest
      match skipBlanks rest with
      | ':' :: rest => do
        let (value, rest) ← readValue fuel rest
        match skipBlanks rest with
        | '}' :: rest => some ([(key, value)], rest)
        | ',' :: rest => (readMembers fuel rest).map fun (entries, rest) => ((key, value) :: entries, rest)
        | _ => none
      | _ => none
    | _ => none

end

/-- `JSON.parse(text)`, or nothing where it throws. -/
def Json.parse (text : String) : Option Json :=
  match readValue (2 * text.toList.length + 1) text.toList with
  | some (value, rest) => if skipBlanks rest = [] then some value else none
  | none => none

theorem ofUnits_units (c : Char) (rest : List Nat) : ofUnits (units c ++ rest) = c :: ofUnits rest := by
  have hvalid := toNat_valid c
  unfold units
  by_cases hlow : c.toNat < 0x10000
  · have hsingle : ¬(0xD800 ≤ c.toNat ∧ c.toNat ≤ 0xDFFF) := by omega
    have hchar : ¬(0xD800 ≤ c.toNat ∧ c.toNat ≤ 0xDBFF) := by omega
    rw [if_pos hlow, singleton_append]
    cases rest with
    | nil => simp only [ofUnits, if_neg hsingle, Char.ofNat_toNat]
    | cons low rest =>
      have hpair : ¬(0xD800 ≤ c.toNat ∧ c.toNat ≤ 0xDBFF ∧ 0xDC00 ≤ low ∧ low ≤ 0xDFFF) := by omega
      simp only [ofUnits, if_neg hpair, if_neg hsingle, Char.ofNat_toNat]
  · have hpair : 0xD800 ≤ 0xD800 + (c.toNat - 0x10000) / 0x400 ∧ 0xD800 + (c.toNat - 0x10000) / 0x400 ≤ 0xDBFF ∧
        0xDC00 ≤ 0xDC00 + (c.toNat - 0x10000) % 0x400 ∧ 0xDC00 + (c.toNat - 0x10000) % 0x400 ≤ 0xDFFF := by omega
    have hvalue : 0x10000 + (0xD800 + (c.toNat - 0x10000) / 0x400 - 0xD800) * 0x400 +
        (0xDC00 + (c.toNat - 0x10000) % 0x400 - 0xDC00) = c.toNat := by omega
    rw [if_neg hlow]
    simp only [cons_append, nil_append, ofUnits, if_pos hpair, hvalue, Char.ofNat_toNat]

theorem ofUnits_flatMap (text : List Char) : ofUnits (text.flatMap units) = text := by
  induction text with
  | nil => rfl
  | cons c text ih => rw [flatMap_cons, ofUnits_units, ih]

variable {c : Char}

theorem units_small (h : c.toNat < 0x10000) : units c = [c.toNat] := if_pos h

theorem readUnits_letter {e : Char} {unit : Nat} (h : unescape e = some unit) (he : e ≠ 'u') (text : List Char) :
    readUnits ('\\' :: e :: text) = (readUnits text).map fun (read, rest) => (unit :: read, rest) := by
  rw [readUnits.eq_def]
  simp [he, h]

theorem hexValue_hexDigit : ∀ n < 16, hexValue (hexDigit n) = some n := by decide

theorem readUnits_escape (c : Char) (text : List Char) :
    readUnits (escape c ++ text) = (readUnits text).map fun (read, rest) => (units c ++ read, rest) := by
  unfold escape
  by_cases hquote : c = '"'
  · subst hquote
    exact readUnits_letter rfl (by decide) text
  rw [if_neg hquote]
  by_cases hback : c = '\\'
  · subst hback
    exact readUnits_letter rfl (by decide) text
  rw [if_neg hback]
  by_cases h8 : c.toNat = 8
  · rw [if_pos h8, units_small (by omega), h8]
    exact readUnits_letter rfl (by decide) text
  rw [if_neg h8]
  by_cases h9 : c.toNat = 9
  · rw [if_pos h9, units_small (by omega), h9]
    exact readUnits_letter rfl (by decide) text
  rw [if_neg h9]
  by_cases h10 : c.toNat = 10
  · rw [if_pos h10, units_small (by omega), h10]
    exact readUnits_letter rfl (by decide) text
  rw [if_neg h10]
  by_cases h12 : c.toNat = 12
  · rw [if_pos h12, units_small (by omega), h12]
    exact readUnits_letter rfl (by decide) text
  rw [if_neg h12]
  by_cases h13 : c.toNat = 13
  · rw [if_pos h13, units_small (by omega), h13]
    exact readUnits_letter rfl (by decide) text
  rw [if_neg h13]
  by_cases hcontrol : c.toNat < 32
  · have hhigh := hexValue_hexDigit (c.toNat / 16) (by omega)
    have hlow := hexValue_hexDigit (c.toNat % 16) (by omega)
    have hzero : hexValue '0' = some 0 := rfl
    have hvalue : 16 * (c.toNat / 16) + c.toNat % 16 = c.toNat := Nat.div_add_mod ..
    rw [if_pos hcontrol, units_small (by omega), readUnits.eq_def]
    simp [hzero, hhigh, hlow, hvalue]
  · rw [if_neg hcontrol, List.singleton_append, readUnits.eq_def]
    simp [hquote, hback, hcontrol]

/-- **A string that was written is read.** -/
theorem readString_quote (s : String) (rest : List Char) :
    readString (s.toList.flatMap escape ++ '"' :: rest) = some (s, rest) := by
  have hunits : ∀ text : List Char, readUnits (text.flatMap escape ++ '"' :: rest) = some (text.flatMap units, rest) := by
    intro text
    induction text with
    | nil =>
      rw [List.flatMap_nil, List.nil_append, readUnits.eq_def]
      exact if_pos rfl
    | cons c text ih =>
      rw [List.flatMap_cons, List.append_assoc, readUnits_escape, ih, List.flatMap_cons]
      rfl
  rw [readString, hunits, Option.map_some]
  simp only [ofUnits_flatMap, String.ofList_toList]

theorem isNumeralChar_digit (h : c.isDigit = true) : isNumeralChar c = true := by simp [isNumeralChar, h]

variable {text : List Char}

theorem numeralChars_of_rest (h : ∀ c ∈ text.dropWhile Char.isDigit, isNumeralChar c = true) :
    ∀ c ∈ text, isNumeralChar c = true := by
  intro c hc
  rw [← List.takeWhile_append_dropWhile (p := Char.isDigit) (l := text)] at hc
  rcases List.mem_append.mp hc with hdigit | hrest
  · exact isNumeralChar_digit (List.mem_takeWhile_imp hdigit)
  · exact h c hrest

theorem isExponent_chars (h : isExponent text = true) : ∀ c ∈ text, isNumeralChar c = true := by
  cases text with
  | nil => exact fun c hc => absurd hc List.not_mem_nil
  | cons e rest =>
    simp only [isExponent, Bool.and_eq_true, Bool.or_eq_true, decide_eq_true_eq, List.all_eq_true] at h
    obtain ⟨⟨he, -⟩, hdigits⟩ := h
    have hfirst : isNumeralChar e = true := by rcases he with rfl | rfl <;> rfl
    refine List.forall_mem_cons.mpr ⟨hfirst, fun c hc => ?_⟩
    cases rest with
    | nil => exact absurd hc List.not_mem_nil
    | cons sign digits =>
      by_cases hsign : sign = '+' ∨ sign = '-'
      · simp only [if_pos hsign] at hdigits
        rcases List.mem_cons.mp hc with rfl | hc
        · rcases hsign with rfl | rfl <;> rfl
        · exact isNumeralChar_digit (hdigits c hc)
      · simp only [if_neg hsign] at hdigits
        exact isNumeralChar_digit (hdigits c hc)

theorem isFraction_chars (h : isFraction text = true) : ∀ c ∈ text, isNumeralChar c = true := by
  unfold isFraction at h
  split at h
  · rename_i rest
    refine List.forall_mem_cons.mpr ⟨rfl, numeralChars_of_rest (isExponent_chars ?_)⟩
    exact (Bool.and_eq_true_iff.mp h).2
  · exact isExponent_chars h

theorem isNumeral_chars (h : isNumeral text = true) : text ≠ [] ∧ ∀ c ∈ text, isNumeralChar c = true := by
  unfold isNumeral at h
  simp only [Bool.and_eq_true] at h
  obtain ⟨⟨hwhole, -⟩, hfraction⟩ := h
  have hdigits := numeralChars_of_rest (isFraction_chars hfraction)
  split at hdigits
  · exact ⟨List.cons_ne_nil _ _, List.forall_mem_cons.mpr ⟨rfl, hdigits⟩⟩
  · refine ⟨?_, hdigits⟩
    rintro rfl
    simp at hwhole

/-- A text that does not go on as a numeral. -/
def Stops (rest : List Char) : Prop := ∀ c ∈ rest.head?, isNumeralChar c = false

theorem takeWhile_numeral {rest : List Char} (h : ∀ c ∈ text, isNumeralChar c = true) (hrest : Stops rest) :
    (text ++ rest).takeWhile isNumeralChar = text ∧ (text ++ rest).dropWhile isNumeralChar = rest := by
  have hnone : rest.takeWhile isNumeralChar = [] ∧ rest.dropWhile isNumeralChar = rest := by
    cases rest with
    | nil => exact ⟨rfl, rfl⟩
    | cons c rest =>
      have hstop := hrest c rfl
      exact ⟨List.takeWhile_cons_of_neg (by simp [hstop]), List.dropWhile_cons_of_neg (by simp [hstop])⟩
  rw [List.takeWhile_append_of_pos h, List.dropWhile_append_of_pos h, hnone.1, hnone.2, List.append_nil]
  exact ⟨rfl, rfl⟩

theorem readDigits_eq (h : ∀ c ∈ text, c.isDigit = true) (value : Nat) :
    readDigits value text = some (Nat.ofDigitChars 10 text value) := by
  induction text generalizing value with
  | nil => simp [readDigits]
  | cons c text ih =>
    obtain ⟨hc, hrest⟩ := List.forall_mem_cons.mp h
    rw [readDigits, if_pos hc, ih hrest, Nat.ofDigitChars_cons]

variable {n : Nat}

theorem isDigit_toDigits : ∀ c ∈ Nat.toDigits 10 n, c.isDigit = true := fun _ hc =>
  Nat.isDigit_of_mem_toDigits (by decide) (by decide) hc

theorem readDigits_toDigits (n : Nat) : readDigits 0 (Nat.toDigits 10 n) = some n := by
  rw [readDigits_eq isDigit_toDigits, Nat.ofDigitChars_ten_toDigits]

theorem readInteger_toDigits (n : Nat) : readInteger (Nat.toDigits 10 n) = some (n : Int) := by
  unfold readInteger
  split
  · rename_i c rest heq
    have hdigit := isDigit_toDigits '-' (heq ▸ List.mem_cons_self ..)
    exact absurd hdigit (by decide)
  · rw [readDigits_toDigits]
    rfl

theorem readInteger_toString (n : Int) : readInteger (toString n).toList = some n := by
  rw [Int.toString_eq_repr, Int.repr_eq_if]
  split
  · rename_i h
    have hchars : n.toNat.repr.toList = Nat.toDigits 10 n.toNat := Nat.toList_repr
    rw [hchars, readInteger_toDigits, Int.toNat_of_nonneg h]
  · rename_i h
    have hchars : ("-" ++ (-n).toNat.repr).toList = '-' :: Nat.toDigits 10 (-n).toNat := by
      rw [String.toList_append, Nat.toList_repr]
      rfl
    obtain ⟨c, rest, hdigits⟩ := List.exists_cons_of_ne_nil (Nat.toDigits_ne_nil (n := (-n).toNat) (b := 10))
    rw [hchars, hdigits, readInteger, ← hdigits, readDigits_toDigits]
    have hvalue : -(((-n).toNat : Nat) : Int) = n := by omega
    exact congrArg some hvalue

theorem head_toDigits (h : 0 < n) : (Nat.toDigits 10 n).head? ≠ some '0' := by
  induction n using Nat.strongRecOn with
  | ind n ih =>
    by_cases hsmall : n < 10
    · rw [Nat.toDigits_of_lt_base hsmall]
      have hdigit : ∀ m < 10, 0 < m → m.digitChar ≠ '0' := by decide
      simpa using hdigit n hsmall h
    · rw [Nat.toDigits_of_base_le (by decide) (by omega), List.head?_append_of_ne_nil _ Nat.toDigits_ne_nil]
      exact ih (n / 10) (by omega) (by omega)

theorem readNumeral_nat (h : n < 2 ^ 53) : readNumeral (toString n).toList = some (toString n) := by
  have htext : (toString n).toList = Nat.toDigits 10 n := Nat.toList_repr
  have htake : (Nat.toDigits 10 n).takeWhile Char.isDigit = Nat.toDigits 10 n :=
    List.takeWhile_eq_self_iff.mpr isDigit_toDigits
  have hdrop : (Nat.toDigits 10 n).dropWhile Char.isDigit = [] := List.dropWhile_eq_nil_iff.mpr isDigit_toDigits
  have hminus : ∀ rest, Nat.toDigits 10 n ≠ '-' :: rest := by
    intro rest heq
    have hdigit := isDigit_toDigits (n := n) '-' (by rw [heq]; exact List.mem_cons_self)
    cases hdigit
  have hlen : (Nat.toDigits 10 n).length = 1 ∨ (Nat.toDigits 10 n).head? ≠ some '0' := by
    by_cases hzero : n = 0
    · subst hzero
      exact .inl rfl
    · exact .inr (head_toDigits (by omega))
  have hnumeral : isNumeral (Nat.toDigits 10 n) = true := by
    unfold isNumeral
    split
    · rename_i rest heq
      exact absurd heq (hminus rest)
    · simp only [htake, hdrop, isFraction, isExponent, Bool.and_true, Bool.and_eq_true, Bool.not_eq_true',
        List.isEmpty_eq_false_iff, Bool.or_eq_true, decide_eq_true_eq]
      exact ⟨Nat.toDigits_ne_nil, by simpa using hlen⟩
  have hbelow : (n : Int).natAbs < 2 ^ 53 := by simpa using h
  rw [readNumeral, htext, if_pos hnumeral, readInteger_toDigits]
  simp only [toNumber_safe hbelow, shown_safe hbelow]
  rw [if_pos (by omega)]
  rfl

mutual

/-- A value that the language has: its numerals are written as it writes them, and the properties of each object have keys of
their own and stand in their order. -/
def Json.Readable : Json → Prop
  | .number numeral => readNumeral numeral.toList = some numeral
  | .array items => Json.ReadableItems items
  | .object members => (members.map (·.1)).Nodup ∧ ownOrder members = members ∧ Json.ReadableMembers members
  | _ => True

def Json.ReadableItems : List Json → Prop
  | [] => True
  | item :: rest => item.Readable ∧ Json.ReadableItems rest

def Json.ReadableMembers : List (String × Json) → Prop
  | [] => True
  | (_, value) :: rest => value.Readable ∧ Json.ReadableMembers rest

end

theorem readableItems_iff {items : List Json} : Json.ReadableItems items ↔ ∀ item ∈ items, item.Readable := by
  induction items with
  | nil => simp [Json.ReadableItems]
  | cons item rest ih => simp [Json.ReadableItems, ih]

variable {members : List (String × Json)}

theorem readableMembers_iff : Json.ReadableMembers members ↔ ∀ e ∈ members, e.2.Readable := by
  induction members with
  | nil => simp [Json.ReadableMembers]
  | cons e rest ih =>
    obtain ⟨key, value⟩ := e
    simp [Json.ReadableMembers, ih]

theorem skipBlanks_cons (h : isBlank c = false) (rest : List Char) : skipBlanks (c :: rest) = c :: rest :=
  List.dropWhile_cons_of_neg (by simp [h])

theorem isBlank_numeral (h : isNumeralChar c = true) : isBlank c = false := by
  rw [Bool.eq_false_iff]
  intro hblank
  simp only [isBlank, Bool.or_eq_true, decide_eq_true_eq] at hblank
  simp only [isNumeralChar, Bool.or_eq_true, decide_eq_true_eq] at h
  rcases h with ((((hdigit | rfl) | rfl) | rfl) | rfl) | rfl
  · have hrange := Char.isDigit_iff_toNat.mp hdigit
    simp only [Char.reduceToNat] at hrange
    omega
  all_goals simp at hblank

def Begins (text : List Char) : Prop := ∃ c rest, text = c :: rest ∧ isBlank c = false ∧ c ≠ ']' ∧ c ≠ '}'

theorem chars_begins {value : Json} (h : value.Readable) : Begins value.chars := by
  cases value with
  | null => exact ⟨_, _, rfl, rfl, by decide, by decide⟩
  | bool value => cases value <;> exact ⟨_, _, rfl, rfl, by decide, by decide⟩
  | string value => exact ⟨_, _, rfl, rfl, by decide, by decide⟩
  | array items => exact ⟨_, _, by rw [Json.chars], rfl, by decide, by decide⟩
  | object members => exact ⟨_, _, by rw [Json.chars], rfl, by decide, by decide⟩
  | number numeral =>
    have hread : readNumeral numeral.toList = some numeral := h
    unfold readNumeral at hread
    split at hread
    · rename_i hnumeral
      obtain ⟨hsome, hchars⟩ := isNumeral_chars hnumeral
      obtain ⟨c, rest, htext⟩ := List.exists_cons_of_ne_nil hsome
      have hc := hchars c (by rw [htext]; exact List.mem_cons_self)
      refine ⟨c, rest, by rw [Json.chars, htext], isBlank_numeral hc, ?_, ?_⟩
      · rintro rfl
        cases hc
      · rintro rfl
        cases hc
    · cases hread

theorem stops_cons (h : isNumeralChar c = false) (rest : List Char) : Stops (c :: rest) := by
  intro d hd
  cases hd
  exact h

/-- It is read from the front of any text that does not go on as a numeral, with two calls for each character. -/
def Json.Read (value : Json) : Prop :=
  value.Readable → ∀ fuel rest, Stops rest → 2 * value.chars.length < fuel →
    readValue fuel (value.chars ++ rest) = some (value, rest)

theorem readItems_written {items : List Json} (hread : ∀ item ∈ items, item.Read) (hsome : items ≠ [])
    (h : Json.ReadableItems items) (fuel : Nat) (rest : List Char)
    (hfuel : 2 * (joined (Json.itemTexts items)).length + 1 < fuel) :
    readItems fuel (joined (Json.itemTexts items) ++ ']' :: rest) = some (items, rest) := by
  induction items generalizing fuel with
  | nil => exact absurd rfl hsome
  | cons item items ih =>
    obtain ⟨fuel, rfl⟩ := Nat.exists_eq_add_of_lt (Nat.zero_lt_of_lt hfuel)
    rw [Nat.zero_add] at hfuel ⊢
    cases items with
    | nil =>
      have hitem := hread item List.mem_cons_self h.1 fuel (']' :: rest) (stops_cons rfl rest)
      simp only [Json.itemTexts, joined] at hfuel ⊢
      rw [readItems, hitem (by omega)]
      rfl
    | cons next items =>
      have htexts : joined (Json.itemTexts (item :: next :: items)) =
          item.chars ++ ',' :: joined (Json.itemTexts (next :: items)) := rfl
      rw [htexts] at hfuel ⊢
      rw [List.length_append, List.length_cons] at hfuel
      rw [List.append_assoc, List.cons_append, readItems,
        hread item List.mem_cons_self h.1 fuel _ (stops_cons rfl _) (by omega)]
      have hrest := ih (fun item hitem => hread item (List.mem_cons_of_mem _ hitem)) (List.cons_ne_nil _ _) h.2 fuel (by omega)
      show Option.map _ (readItems fuel (joined (Json.itemTexts (next :: items)) ++ ']' :: rest)) = _
      rw [hrest]
      rfl

theorem readMembers_written (hread : ∀ e ∈ members, e.2.Read) (hsome : members ≠ []) (h : Json.ReadableMembers members)
    (fuel : Nat) (rest : List Char) (hfuel : 2 * (joined (Json.memberTexts members)).length + 1 < fuel) :
    readMembers fuel (joined (Json.memberTexts members) ++ '}' :: rest) = some (members, rest) := by
  induction members generalizing fuel with
  | nil => exact absurd rfl hsome
  | cons member members ih =>
    obtain ⟨key, value⟩ := member
    obtain ⟨fuel, rfl⟩ := Nat.exists_eq_add_of_lt (Nat.zero_lt_of_lt hfuel)
    rw [Nat.zero_add] at hfuel ⊢
    have hvalue := hread (key, value) List.mem_cons_self h.1
    -- the key, a colon and the value, before whatever comes next
    have hmember : ∀ next, Stops next → 2 * value.chars.length < fuel →
        readMembers (fuel + 1) (quote key ++ ':' :: value.chars ++ next) = match skipBlanks next with
          | '}' :: rest => some ([(key, value)], rest)
          | ',' :: rest => (readMembers fuel rest).map fun (entries, rest) => ((key, value) :: entries, rest)
          | _ => none := by
      intro next hstops hlt
      have htext : quote key ++ ':' :: value.chars ++ next =
          '"' :: (key.toList.flatMap escape ++ '"' :: ':' :: (value.chars ++ next)) := by
        simp [quote]
      rw [htext, readMembers]
      simp only [skipBlanks_cons (c := '"') rfl, readString_quote, Option.bind_eq_bind, Option.bind_some,
        skipBlanks_cons (c := ':') rfl, hvalue fuel next hstops hlt]
    cases members with
    | nil =>
      simp only [Json.memberTexts, joined] at hfuel ⊢
      rw [length_append, length_cons] at hfuel
      rw [hmember _ (stops_cons rfl rest) (by omega)]
      rfl
    | cons next members =>
      have htexts : joined (Json.memberTexts ((key, value) :: next :: members)) =
          (quote key ++ ':' :: value.chars) ++ ',' :: joined (Json.memberTexts (next :: members)) := rfl
      rw [htexts] at hfuel ⊢
      rw [length_append, length_append, length_cons, length_cons] at hfuel
      rw [append_assoc, cons_append, hmember _ (stops_cons rfl _) (by omega)]
      have hrest := ih (fun e he => hread e (mem_cons_of_mem _ he)) (cons_ne_nil _ _) h.2 fuel (by omega)
      show Option.map _ (readMembers fuel (joined (Json.memberTexts (next :: members)) ++ '}' :: rest)) = _
      rw [hrest]
      rfl

theorem ofEntries_own (hkeys : (members.map (·.1)).Nodup) (horder : ownOrder members = members) :
    ofEntries members = .object members := by
  have hassigned : ∀ members acc : List (String × Json), ((acc ++ members).map (·.1)).Nodup →
      members.foldl (fun members e => assign members e.1 e.2) acc = acc ++ members := by
    intro members
    induction members with
    | nil => exact fun acc _ => (append_nil acc).symm
    | cons e members ih =>
      intro acc hnodup
      have hnew : e.1 ∉ acc.map (·.1) := by
        rw [map_append, map_cons] at hnodup
        intro hmem
        exact (nodup_append.mp hnodup).2.2 e.1 hmem e.1 mem_cons_self rfl
      have happend : acc ++ e :: members = (acc ++ [e]) ++ members := by simp
      rw [foldl_cons, assign, if_neg hnew, happend]
      refine ih (acc ++ [e]) ?_
      rw [← happend]
      exact hnodup
  rw [ofEntries, hassigned members [] hkeys, nil_append, horder]

theorem joined_begins (h : Begins text) (texts : List (List Char)) : Begins (joined (text :: texts)) := by
  obtain ⟨c, rest, rfl, hc⟩ := h
  cases texts with
  | nil => exact ⟨c, rest, rfl, hc⟩
  | cons next texts => exact ⟨c, rest ++ ',' :: joined (next :: texts), rfl, hc⟩

/-- **What was written is read.** -/
theorem read_chars (value : Json) : value.Read := by
  intro hreadable fuel rest hstops hfuel
  obtain ⟨fuel, rfl⟩ := Nat.exists_eq_add_of_lt (Nat.zero_lt_of_lt hfuel)
  rw [Nat.zero_add] at hfuel ⊢
  induction value using Json.nested generalizing fuel rest with
  | null => rfl
  | bool value => cases value <;> rfl
  | string value =>
    have htext : Json.chars (.string value) ++ rest = '"' :: (value.toList.flatMap escape ++ '"' :: rest) := by
      simp [Json.chars, quote]
    rw [htext, readValue]
    simp only [skipBlanks_cons (c := '"') rfl, if_true, readString_quote]
    rfl
  | number numeral =>
    have hread : readNumeral numeral.toList = some numeral := hreadable
    have hnumeral : isNumeral numeral.toList = true := by
      unfold readNumeral at hread
      split at hread
      · assumption
      · cases hread
    obtain ⟨hsome, hchars⟩ := isNumeral_chars hnumeral
    obtain ⟨htake, hdrop⟩ := takeWhile_numeral hchars hstops
    obtain ⟨c, text, htext⟩ := List.exists_cons_of_ne_nil hsome
    have hc : isNumeralChar c = true := hchars c (by rw [htext]; exact List.mem_cons_self)
    have hquote : c ≠ '"' := by
      rintro rfl
      cases hc
    have hbracket : c ≠ '[' := by
      rintro rfl
      cases hc
    have hbrace : c ≠ '{' := by
      rintro rfl
      cases hc
    rw [Json.chars, htext, cons_append, readValue, skipBlanks_cons (isBlank_numeral hc)]
    rw [htext, cons_append] at htake hdrop
    simp only [if_neg hquote, if_neg hbracket, if_neg hbrace, if_pos hc, htake, hdrop, ← htext, hread]
    rfl
  | array items ih =>
    have hread : ∀ item ∈ items, item.Read := by
      intro item hitem hitemReadable fuel rest hstops hfuel
      obtain ⟨fuel, rfl⟩ := Nat.exists_eq_add_of_lt (Nat.zero_lt_of_lt hfuel)
      rw [Nat.zero_add] at hfuel ⊢
      exact ih item hitem hitemReadable rest hstops fuel hfuel
    cases items with
    | nil => rfl
    | cons item items =>
      have hitems : Json.ReadableItems (item :: items) := hreadable
      rw [Json.chars, length_cons, length_append] at hfuel
      obtain ⟨c, text, htext, hblank, hbracket, -⟩ := joined_begins (chars_begins hitems.1) (Json.itemTexts items)
      have hwrit := readItems_written hread (cons_ne_nil _ _) hitems fuel rest (by omega)
      have hshape : joined (Json.itemTexts (item :: items)) = c :: text := htext
      rw [Json.chars, cons_append, append_assoc, singleton_append, readValue]
      rw [hshape, cons_append] at hwrit ⊢
      simp only [skipBlanks_cons (c := '[') rfl, skipBlanks_cons hblank]
      rw [if_neg (by decide), if_pos trivial]
      split
      · rename_i heq
        exact absurd (cons.inj heq).1 hbracket
      · rw [hwrit]
        rfl
  | object members ih =>
    rw [Json.Readable] at hreadable
    obtain ⟨hkeys, horder, hvalues⟩ := hreadable
    have hread : ∀ e ∈ members, e.2.Read := by
      intro e he hvalueReadable fuel rest hstops hfuel
      obtain ⟨fuel, rfl⟩ := Nat.exists_eq_add_of_lt (Nat.zero_lt_of_lt hfuel)
      rw [Nat.zero_add] at hfuel ⊢
      exact ih e he hvalueReadable rest hstops fuel hfuel
    cases members with
    | nil => rfl
    | cons member members =>
      rw [Json.chars, length_cons, length_append] at hfuel
      have hbegins : Begins (quote member.1 ++ ':' :: member.2.chars) := ⟨_, _, rfl, rfl, by decide, by decide⟩
      obtain ⟨c, text, htext, hblank, -, hbrace⟩ := joined_begins hbegins (Json.memberTexts members)
      have hwrit := readMembers_written hread (cons_ne_nil _ _) hvalues fuel rest (by omega)
      have hshape : joined (Json.memberTexts (member :: members)) = c :: text := htext
      rw [Json.chars, cons_append, append_assoc, singleton_append, readValue]
      rw [hshape, cons_append] at hwrit ⊢
      simp only [skipBlanks_cons (c := '{') rfl, skipBlanks_cons hblank]
      rw [if_neg (by decide), if_neg (by decide), if_pos trivial]
      split
      · rename_i heq
        exact absurd (cons.inj heq).1 hbrace
      · rw [hwrit, Option.map_some]
        simp only [ofEntries_own hkeys horder]

/-- **`JSON.parse(JSON.stringify(value))` is the value.** -/
theorem parse_stringify {value : Json} (h : value.Readable) : Json.parse value.stringify = some value := by
  have hread := read_chars value h (2 * value.chars.length + 1) [] (fun c hc => by cases hc) (by omega)
  rw [append_nil] at hread
  rw [Json.parse, Json.stringify, String.toList_ofList, hread]
  rfl

end Delego.Data
