import Mathlib.Algebra.Order.BigOperators.Group.List
import Mathlib.Tactic.NormNum

/-! Numerals of a given width.

The last digits of a number, as many as the width, say which number it is among those that need no
more of them. -/
namespace Delego.Data
open List

def padWith (base : Nat) (digit : Nat → Char) : Nat → Nat → List Char
  | 0, _ => []
  | width + 1, n => padWith base digit width (n / base) ++ [digit (n % base)]

section
variable {base : Nat} {digit : Nat → Char}

@[simp] theorem length_padWith (width n : Nat) : (padWith base digit width n).length = width := by
  induction width generalizing n with
  | zero => rfl
  | succ width ih => simp [padWith, ih]

theorem padWith_injective (hdigit : ∀ a < base, ∀ b < base, digit a = digit b → a = b) {width n m : Nat}
    (hn : n < base ^ width) (hm : m < base ^ width) (h : padWith base digit width n = padWith base digit width m) :
    n = m := by
  induction width generalizing n m with
  | zero =>
    rw [Nat.pow_zero] at hn hm
    omega
  | succ width ih =>
    obtain ⟨hrest, hlast⟩ := append_inj' h rfl
    have hpos : 0 < base := Nat.pos_of_ne_zero fun hzero => by simp [hzero] at hn
    have hlow := hdigit _ (Nat.mod_lt n hpos) _ (Nat.mod_lt m hpos) (singleton_inj.mp hlast)
    rw [Nat.pow_succ] at hn hm
    have hhigh := ih (Nat.div_lt_of_lt_mul (Nat.mul_comm .. ▸ hn)) (Nat.div_lt_of_lt_mul (Nat.mul_comm .. ▸ hm)) hrest
    rw [← Nat.div_add_mod n base, ← Nat.div_add_mod m base, hlow, hhigh]

end

def digit (n : Nat) : Char := Char.ofNat (48 + n)

def pad (width n : Nat) : List Char := padWith 10 digit width n

variable {n : Nat}

@[simp] theorem length_pad (width n : Nat) : (pad width n).length = width := length_padWith width n

theorem pad_injective {width m : Nat} (hn : n < 10 ^ width) (hm : m < 10 ^ width) (h : pad width n = pad width m) : n = m :=
  padWith_injective (by decide) hn hm h

theorem mem_pad {width : Nat} {c : Char} (h : c ∈ pad width n) : ∃ m < 10, c = digit m := by
  induction width generalizing n with
  | zero => cases h
  | succ width ih =>
    rcases mem_append.mp h with hrest | hlast
    · exact ih hrest
    · exact ⟨n % 10, Nat.mod_lt n (by decide), mem_singleton.mp hlast⟩

def hexDigit (n : Nat) : Char := if n < 10 then digit n else Char.ofNat (87 + n)

/-- `digest("hex")`, of the digest of SHA-256. -/
def hex (digest : BitVec 256) : String := String.ofList (padWith 16 hexDigit 64 digest.toNat)

theorem length_hex (digest : BitVec 256) : (hex digest).toList.length = 64 := by simp [hex]

theorem hex_injective {digest digest' : BitVec 256} (h : hex digest = hex digest') : digest = digest' := by
  have hbound : ∀ digest : BitVec 256, digest.toNat < 16 ^ 64 := fun digest => digest.isLt
  exact BitVec.eq_of_toNat_eq (padWith_injective (by decide) (hbound digest) (hbound digest') (String.ofList_injective h))

/-! ### Integers as numbers of the language

A number has 53 binary digits, so an integer that needs more becomes the nearest one that does not, the even one of two
(`toNumber`). Its text is the one with the fewest digits that are read back as the same number (`shown`), which need not
be the digits of its value. -/

def roundNat (n : Nat) : Nat :=
  let unit := 2 ^ (n.log2 + 1 - 53)
  let low := n / unit * unit
  if 2 * (n % unit) < unit ∨ 2 * (n % unit) = unit ∧ n / unit % 2 = 0 then low else low + unit

/-- `Number(text)`, for the numeral of an integer. -/
def toNumber (n : Int) : Int := n.sign * roundNat n.natAbs

/-- The number with the fewest digits, so many zeros after them, that is read back as the same. -/
def shownFrom (d : Nat) : Nat → Nat
  | 0 => d
  | zeros + 1 =>
    let unit := 10 ^ (zeros + 1)
    let low := d / unit * unit
    let high := low + unit
    let nearer := d - low < high - d ∨ d - low = high - d ∧ d / unit % 2 = 0
    if roundNat low = d ∧ (roundNat high ≠ d ∨ nearer) then low
    else if roundNat high = d then high
    else shownFrom d zeros

/-- The integer that `String(n)` denotes, for a number that is an integer below 10^21. -/
def shown (n : Int) : Int := n.sign * shownFrom n.natAbs 20

theorem log2_lt (h : n < 2 ^ 53) : n.log2 + 1 - 53 = 0 := by
  by_cases hzero : n = 0
  · simp [hzero]
  · have hlog := (Nat.log2_lt hzero).mpr h
    omega

theorem roundNat_safe (h : n < 2 ^ 53) : roundNat n = n := by simp [roundNat, log2_lt h, Nat.mod_one]

/-- Zeros at the end are no digits that count. -/
theorem roundNat_shift (h : n < 2 ^ 53) (zeros : Nat) : roundNat (n * 2 ^ zeros) = n * 2 ^ zeros := by
  by_cases hzero : n = 0
  · simp [hzero, roundNat]
  · have hlog : (n * 2 ^ zeros).log2 = n.log2 + zeros := by
      have hpos : 0 < 2 ^ zeros := Nat.two_pow_pos zeros
      rw [Nat.log2_eq_iff (Nat.mul_ne_zero hzero hpos.ne'), Nat.pow_add, Nat.add_right_comm, Nat.pow_add]
      exact ⟨Nat.mul_le_mul_right _ (Nat.log2_self_le hzero), Nat.mul_lt_mul_of_pos_right Nat.lt_log2_self hpos⟩
    have hlow : n.log2 < 53 := (Nat.log2_lt hzero).mpr h
    have hunit : (n * 2 ^ zeros) % 2 ^ (n.log2 + zeros + 1 - 53) = 0 := by
      refine Nat.mod_eq_zero_of_dvd (Dvd.dvd.mul_left (Nat.pow_dvd_pow 2 ?_) n)
      omega
    have hpos : 0 < 2 ^ (n.log2 + zeros + 1 - 53) := Nat.pow_pos (by decide)
    simp only [roundNat, hlog, hunit]
    rw [if_pos (.inl hpos), Nat.div_mul_cancel (Nat.dvd_of_mod_eq_zero hunit)]

theorem le_roundNat (h : 2 ^ 53 ≤ n) : 2 ^ 53 ≤ roundNat n := by
  have hpos : n ≠ 0 := by omega
  have hlog : 53 ≤ n.log2 := (Nat.le_log2 hpos).mpr h
  obtain ⟨more, hmore⟩ : ∃ more, n.log2 + 1 - 53 = more + 1 := ⟨n.log2 - 53, by omega⟩
  have hself : 2 ^ n.log2 ≤ n := (Nat.le_log2 hpos).mp le_rfl
  -- 52 of the digits are those that stand before the unit
  have hlow : 2 ^ 53 ≤ n / 2 ^ (more + 1) * 2 ^ (more + 1) := by
    have hsplit : 2 ^ n.log2 = 2 ^ 52 * 2 ^ (more + 1) := by
      rw [← Nat.pow_add]
      congr 1
      omega
    have hquotient : 2 ^ 52 ≤ n / 2 ^ (more + 1) := by
      rw [Nat.le_div_iff_mul_le (Nat.pow_pos (by decide)), ← hsplit]
      exact hself
    calc 2 ^ 53 = 2 ^ 52 * 2 ^ 1 := by norm_num
      _ ≤ n / 2 ^ (more + 1) * 2 ^ (more + 1) := Nat.mul_le_mul hquotient (Nat.pow_le_pow_right (by decide) (by omega))
  simp only [roundNat, hmore]
  split <;> omega

theorem toNumber_safe {n : Int} (h : n.natAbs < 2 ^ 53) : toNumber n = n := by
  rw [toNumber, roundNat_safe h, Int.sign_mul_natAbs]

theorem shownFrom_safe {d : Nat} (h : d < 2 ^ 53) (zeros : Nat) : shownFrom d zeros = d := by
  induction zeros with
  | zero => rfl
  | succ zeros ih =>
    have hlow : roundNat (d / 10 ^ (zeros + 1) * 10 ^ (zeros + 1)) = d / 10 ^ (zeros + 1) * 10 ^ (zeros + 1) :=
      roundNat_safe (Nat.lt_of_le_of_lt (Nat.div_mul_le_self ..) h)
    have hhigh : roundNat (d / 10 ^ (zeros + 1) * 10 ^ (zeros + 1) + 10 ^ (zeros + 1)) ≠ d := by
      have hgt : d < d / 10 ^ (zeros + 1) * 10 ^ (zeros + 1) + 10 ^ (zeros + 1) := by
        have hmod := Nat.mod_lt d (Nat.pow_pos (by decide) : 0 < 10 ^ (zeros + 1))
        have hdivided := Nat.div_add_mod d (10 ^ (zeros + 1))
        rw [Nat.mul_comm] at hdivided
        omega
      intro heq
      by_cases hbelow : d / 10 ^ (zeros + 1) * 10 ^ (zeros + 1) + 10 ^ (zeros + 1) < 2 ^ 53
      · rw [roundNat_safe hbelow] at heq
        omega
      · have hle := le_roundNat (not_lt.mp hbelow)
        omega
    simp only [shownFrom, hlow, hhigh, if_false]
    split
    · rename_i hsame
      exact hsame.1
    · exact ih

theorem shown_safe {n : Int} (h : n.natAbs < 2 ^ 53) : shown n = n := by rw [shown, shownFrom_safe h, Int.sign_mul_natAbs]

-- The first integer that is no number, and a number whose text is another integer.
example : toNumber 9007199254740993 = 9007199254740992 := by decide
example : shown 1152921504606846976 = 1152921504606847000 := by decide

/-! ### Numbers of the language: those that are checked to be integers, and those that need not be numbers at all -/

theorem num_eq {q : Rat} (h : q.isInt) : (q.num : Rat) = q := by
  have hden : q.den = 1 := by simpa [Rat.isInt] using h
  exact (Rat.den_eq_one_iff q).mp hden

theorem one_le_num {q : Rat} (h : q.isInt) (hone : 1 ≤ q) : 1 ≤ q.num := by
  rw [← num_eq h] at hone
  exact_mod_cast hone

/-- A value of the type `number`. -/
inductive Number where
  | nan | infinity | negInfinity
  | finite (value : Rat)
  deriving DecidableEq

/-- `a < b`; nothing is less than, or more than, `NaN`. -/
def Number.lt : Number → Number → Bool
  | .finite a, .finite b => decide (a < b)
  | .finite _, .infinity => true
  | .negInfinity, .finite _ => true
  | .negInfinity, .infinity => true
  | _, _ => false

/-- `a <= b`. -/
def Number.le : Number → Number → Bool
  | .finite a, .finite b => decide (a ≤ b)
  | .nan, _ => false
  | _, .nan => false
  | .infinity, b => decide (b = .infinity)
  | .negInfinity, _ => true
  | .finite _, b => decide (b = .infinity)

def Number.ofNat (n : Nat) : Number := .finite n

def minExponent : Nat := 1074

def maxExponent : Nat := 1024

/-- Every finite number is a whole number of parts, so many to the unit. -/
def parts : Nat := 2 ^ minExponent

/-- The finite numbers are below this. -/
def limit : Nat := 2 ^ maxExponent

/-- The number that is nearest to a sum of finite numbers; beyond the greatest of them, an infinity. -/
def Number.nearest (sum : Rat) : Number :=
  let rounded := toNumber (sum * parts).floor
  if limit * parts ≤ rounded.natAbs then if 0 ≤ rounded then .infinity else .negInfinity
  else .finite (rounded / parts)

/-- `a + b` -/
def Number.add : Number → Number → Number
  | .finite a, .finite b => .nearest (a + b)
  | .nan, _ => .nan
  | _, .nan => .nan
  | .infinity, .negInfinity => .nan
  | .negInfinity, .infinity => .nan
  | .infinity, _ => .infinity
  | _, .infinity => .infinity
  | .negInfinity, _ => .negInfinity
  | _, .negInfinity => .negInfinity

/-- The rational that a finite number is. -/
def Number.value : Number → Rat
  | .finite q => q
  | _ => 0

/-- The value that a column of 32-bit integers takes. -/
def Number.integer : Number → Option Int
  | .finite q => if q.isInt ∧ -2 ^ 31 ≤ q.num ∧ q.num < 2 ^ 31 then some q.num else none
  | _ => none

/-- The sum of what rows weigh, as `reduce` adds it up from 0. -/
def Number.total {α : Type} (weight : α → Number) (rows : List α) : Number :=
  rows.foldl (fun sum row => sum.add (weight row)) (.finite 0)

theorem Number.nearest_safe (h : n < 2 ^ 53) : Number.nearest n = .ofNat n := by
  have hfloor : ((n : Rat) * parts).floor = (n * parts : Nat) := by
    rw [← Nat.cast_mul, ← Int.cast_natCast, Rat.floor_intCast]
  have hrounded : toNumber (n * parts : Nat) = (n * parts : Nat) := by
    have hkept : roundNat (n * parts) = n * parts := roundNat_shift h minExponent
    rw [toNumber, Int.natAbs_natCast, hkept]
    exact Int.sign_mul_natAbs _
  have hpos : 0 < parts := Nat.two_pow_pos minExponent
  have hlimit : 2 ^ 53 ≤ limit := Nat.pow_le_pow_right (by decide) (by decide : 53 ≤ maxExponent)
  have hrange : ¬limit * parts ≤ n * parts := not_le.mpr (Nat.mul_lt_mul_of_pos_right (lt_of_lt_of_le h hlimit) hpos)
  have hvalue : (((n * parts : Nat) : Int) : Rat) / parts = n := by
    have hne : (parts : Rat) ≠ 0 := by exact_mod_cast hpos.ne'
    rw [Int.cast_natCast, Nat.cast_mul, mul_div_assoc, div_self hne, mul_one]
  rw [Number.nearest, hfloor, hrounded, Int.natAbs_natCast, if_neg hrange, hvalue, Number.ofNat]

theorem Number.add_safe {m : Nat} (h : n + m < 2 ^ 53) : (Number.ofNat n).add (.ofNat m) = .ofNat (n + m) := by
  rw [← Number.nearest_safe h, Nat.cast_add]
  rfl

theorem Number.value_ofNat (n : Nat) : (Number.ofNat n).value = n := rfl

/-- Whole numbers are added up exactly as long as the sum is a safe integer. -/
theorem Number.total_safe {α : Type} {weight : α → Number} {rows : List α}
    (h : ∀ row ∈ rows, ∃ n : Nat, weight row = .ofNat n)
    (hsafe : (rows.map fun row => (weight row).value).sum < 2 ^ 53) :
    Number.total weight rows = .finite (rows.map fun row => (weight row).value).sum := by
  have hfold : ∀ start : Nat, (start : Rat) + (rows.map fun row => (weight row).value).sum < 2 ^ 53 →
      ∃ n : Nat, (n : Rat) = start + (rows.map fun row => (weight row).value).sum ∧
        rows.foldl (fun sum row => Number.add sum (weight row)) (.ofNat start) = .ofNat n := by
    clear hsafe
    induction rows with
    | nil => exact fun start _ => ⟨start, by simp, rfl⟩
    | cons row rows ih =>
      intro start hsum
      obtain ⟨m, hm⟩ := h row mem_cons_self
      have hnonneg : 0 ≤ (rows.map fun row => (weight row).value).sum := by
        refine sum_nonneg fun q hq => ?_
        obtain ⟨r, hr, rfl⟩ := mem_map.mp hq
        obtain ⟨k, hk⟩ := h r (mem_cons_of_mem row hr)
        rw [hk, Number.value_ofNat]
        exact Nat.cast_nonneg k
      rw [map_cons, sum_cons, hm, Number.value_ofNat, ← add_assoc] at hsum ⊢
      have hsmall : start + m < 2 ^ 53 := by exact_mod_cast lt_of_le_of_lt (le_add_of_nonneg_right hnonneg) hsum
      obtain ⟨n, hn, htotal⟩ := ih (fun r hr => h r (mem_cons_of_mem row hr)) (start + m) (by exact_mod_cast hsum)
      refine ⟨n, by rw [hn, Nat.cast_add], ?_⟩
      rw [foldl_cons, hm, Number.add_safe hsmall, htotal]
  obtain ⟨n, hn, htotal⟩ := hfold 0 (by simpa using hsafe)
  rw [Nat.cast_zero, zero_add] at hn
  rw [← hn]
  exact htotal

-- The first sum of integers that is no number.
example : (Number.ofNat 9007199254740992).add (.ofNat 1) = .ofNat 9007199254740992 := by decide +kernel

/-! ### Texts with a place to fill

`replaceFirst` is the language's `replace` with a string for a pattern, and `luaFormat` Lua's `string.format` with one
integer. -/

/-- `text.replace(pattern, replacement)`, for a pattern that is not empty and a replacement without `$`. -/
def replaceFirst (pattern replacement : List Char) : List Char → List Char
  | [] => []
  | c :: rest =>
    if pattern.isPrefixOf (c :: rest) then replacement ++ (c :: rest).drop pattern.length
    else c :: replaceFirst pattern replacement rest

/-- `string.format(template, value)`, of a template with a `%d`. Its directives are that and `%%`. -/
def luaFormat : List Char → Option Nat → Except String (List Char)
  | [], _ => .ok []
  | c :: rest, value =>
    if c = '%' then
      match rest with
      | [] => .error "invalid option to 'format'"
      | directive :: rest =>
        if directive = '%' then (luaFormat rest value).map fun text => '%' :: text
        else if directive = 'd' then
          match value with
          | some n => (luaFormat rest none).map fun text => Nat.toDigits 10 n ++ text
          | none => .error "bad argument #3 to 'format' (no value)"
        else .error "invalid option to 'format'"
    else (luaFormat rest value).map fun text => c :: text

section
variable {text rest : List Char}

theorem luaFormat_plain (h : '%' ∉ text) (rest : List Char) (value : Option Nat) :
    luaFormat (text ++ rest) value = (luaFormat rest value).map fun formatted => text ++ formatted := by
  induction text with
  | nil =>
    rw [nil_append]
    cases luaFormat rest value <;> rfl
  | cons c text ih =>
    obtain ⟨hc, htext⟩ := not_or.mp (mem_cons.not.mp h)
    rw [cons_append, luaFormat.eq_def]
    simp only [if_neg (Ne.symm hc), ih htext]
    cases luaFormat rest value <;> rfl

theorem luaFormat_value (n : Nat) (rest : List Char) :
    luaFormat ('%' :: 'd' :: rest) (some n) = (luaFormat rest none).map fun text => Nat.toDigits 10 n ++ text := by
  rw [luaFormat.eq_def]
  rfl

theorem replaceFirst_skip {pattern : List Char} (replacement : List Char) {c : Char}
    (h : ¬pattern <+: c :: rest) : replaceFirst pattern replacement (c :: rest) =
      c :: replaceFirst pattern replacement rest := by
  rw [replaceFirst, if_neg]
  rwa [ isPrefixOf_iff_prefix]

theorem replaceFirst_here {pattern : List Char} (replacement : List Char) (hpattern : pattern ≠ []) :
    replaceFirst pattern replacement (pattern ++ rest) = replacement ++ rest := by
  obtain ⟨c, pattern, rfl⟩ := exists_cons_of_ne_nil hpattern
  rw [cons_append, replaceFirst, if_pos]
  · rw [← cons_append, drop_left]
  · rw [ isPrefixOf_iff_prefix, ← cons_append]
    exact prefix_append _ _

theorem replaceFirst_plain {first : Char} (pattern replacement : List Char) (h : first ∉ text) (rest : List Char) :
    replaceFirst (first :: pattern) replacement (text ++ rest) =
      text ++ replaceFirst (first :: pattern) replacement rest := by
  induction text with
  | nil => rfl
  | cons c text ih =>
    obtain ⟨hc, htext⟩ := not_or.mp (mem_cons.not.mp h)
    rw [cons_append, replaceFirst_skip, ih htext, cons_append]
    intro hbegins
    exact hc (cons_prefix_cons.mp hbegins).1

theorem append_cons_inj {text' rest' : List Char} {c : Char} (h : c ∉ text) (h' : c ∉ text')
    (heq : text ++ c :: rest = text' ++ c :: rest') : text = text' ∧ rest = rest' := by
  induction text generalizing text' with
  | nil =>
    cases text' with
    | nil => exact ⟨rfl, (cons.inj heq).2⟩
    | cons d text' => exact absurd (mem_cons_self) (by rw [← (cons.inj heq).1] at h'; exact h')
  | cons d text ih =>
    cases text' with
    | nil => exact absurd (mem_cons_self) (by rw [(cons.inj heq).1] at h; exact h)
    | cons d' text' =>
      obtain ⟨rfl, hrest⟩ := cons.inj heq
      obtain ⟨rfl, hsame⟩ := ih (fun hmem => h (mem_cons_of_mem _ hmem)) (fun hmem => h' (mem_cons_of_mem _ hmem)) hrest
      exact ⟨rfl, hsame⟩

end

end Delego.Data
