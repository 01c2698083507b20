import Mathlib.Tactic.Linarith
import Mathlib.Tactic.Ring
import Delego.Wallet.Assets

/-! Stroops and their display (`utils/src/currency.ts`).

The two halves of an amount are written, padded and read on their own, so the sign of a negative one is written twice
and read for the whole part only. -/
namespace Delego.Wallet
open Delego.Data List

def STROOPS_PER_XLM : Int := 10000000

def stroopsToDisplay (stroops : Int) (decimals : Nat := 7) : String :=
  let whole := stroops.tdiv STROOPS_PER_XLM
  let fraction := stroops.tmod STROOPS_PER_XLM
  let fractionStr := (padStart 7 (toString fraction).toList).take decimals
  String.ofList ((toString whole).toList ++ '.' :: fractionStr)

/-- Nothing, where a part is no integer in digits. Of the other texts `BigInt` takes some too: with a plus sign, with
blanks around it, in hexadecimal digits. -/
def displayToStroops (amount : String) : Option Int := do
  let (whole, fraction) := parts amount.toList
  let paddedFraction := (fraction ++ replicate 7 '0').take 7
  return (← readInteger whole) * STROOPS_PER_XLM + (← readInteger paddedFraction)

theorem readDigits_mark {text : List Char} {c : Char} (h : c ∈ text) (hc : c.isDigit = false) (value : Nat) :
    readDigits value text = none := by
  induction text generalizing value with
  | nil => cases h
  | cons d text ih =>
    rw [readDigits]
    rcases mem_cons.mp h with rfl | h
    · simp [hc]
    · split
      · exact ih h _
      · rfl

theorem toList_toString (n : Nat) : (toString (n : Int)).toList = Nat.toDigits 10 n := by
  rw [Int.toString_eq_repr, Int.repr_eq_if, if_pos (Int.natCast_nonneg n), Int.toNat_natCast, Nat.toList_repr]

theorem toList_toString_neg {n : Nat} (h : 0 < n) : (toString (-(n : Int))).toList = '-' :: Nat.toDigits 10 n := by
  rw [Int.toString_eq_repr, Int.repr_eq_if, if_neg (by omega), Int.neg_neg, Int.toNat_natCast, String.toList_append,
    Nat.toList_repr]
  rfl

theorem readInteger_padStart {text : List Char} (width : Nat) (h : ∀ c ∈ text, c.isDigit = true) :
    readInteger (padStart width text) = some (Nat.ofDigitChars 10 text 0 : Int) := by
  rw [padStart, readInteger_digits, Nat.ofDigitChars_append, Nat.ofDigitChars_replicate_zero, Nat.mul_zero]
  intro c hc
  rcases mem_append.mp hc with hc | hc
  · rw [eq_of_mem_replicate hc]
    decide
  · exact h c hc

/-- How the remainder of an amount is read back: its sign takes one of the seven places. -/
theorem readInteger_fraction {fraction : Int} (h : fraction.natAbs < 10 ^ 7) :
    readInteger ((padStart 7 (toString fraction).toList).take 7) = some fraction ↔
      0 ≤ fraction ∨ 10 ^ 5 ≤ fraction.natAbs ∧ fraction.natAbs < 10 ^ 6 := by
  have hlen : ∀ n k, 0 < k → ((Nat.toDigits 10 n).length ≤ k ↔ n < 10 ^ k) := fun n k hk =>
    Nat.length_toDigits_le_iff (by decide) hk
  obtain ⟨n, rfl | rfl⟩ := Int.eq_nat_or_neg fraction
  · have hseven := (hlen n 7 (by decide)).mpr (by simpa using h)
    rw [toList_toString, take_of_length_le (by simp [padStart]; omega), readInteger_padStart 7 isDigit_toDigits,
      Nat.ofDigitChars_ten_toDigits]
    simp
  · rcases Nat.eq_zero_or_pos n with rfl | hn
    · decide
    have hseven := (hlen n 7 (by decide)).mpr (by simpa using h)
    have hsix := hlen n 6 (by decide)
    have hfive := hlen n 5 (by decide)
    rw [toList_toString_neg hn, Int.natAbs_neg, Int.natAbs_natCast]
    have hsome : 0 < (Nat.toDigits 10 n).length := length_pos_of_ne_nil Nat.toDigits_ne_nil
    by_cases hfew : n < 10 ^ 5
    · -- zeros stand before the sign
      have hread : readInteger ((padStart 7 ('-' :: Nat.toDigits 10 n)).take 7) = none := by
        obtain ⟨zeros, hzeros⟩ : ∃ zeros, 7 - ('-' :: Nat.toDigits 10 n).length = zeros + 1 :=
          ⟨5 - (Nat.toDigits 10 n).length, by have := hfive.mpr hfew; simp only [length_cons]; omega⟩
        rw [take_of_length_le (by simp [padStart]; omega), padStart, hzeros, replicate_succ, cons_append, readInteger]
        · rw [readDigits_mark (c := '-') (by simp) (by decide)]
          rfl
        · intro c rest hmark
          cases hmark
      rw [hread]
      simp
      omega
    · have hpad : padStart 7 ('-' :: Nat.toDigits 10 n) = '-' :: Nat.toDigits 10 n := by
        have hlong : ¬ (Nat.toDigits 10 n).length ≤ 5 := fun hle => hfew (hfive.mp hle)
        rw [padStart, show 7 - ('-' :: Nat.toDigits 10 n).length = 0 by simp only [length_cons]; omega]
        rfl
      obtain ⟨c, rest, hdigits⟩ := exists_cons_of_ne_nil (Nat.toDigits_ne_nil (b := 10) (n := n))
      have hread : readInteger (('-' :: Nat.toDigits 10 n).take 7) =
          some (-(Nat.ofDigitChars 10 ((Nat.toDigits 10 n).take 6) 0 : Int)) := by
        have hall : ∀ d ∈ c :: rest.take 5, d.isDigit = true := fun d hd =>
          isDigit_toDigits (n := n) d (mem_of_mem_take (i := 6) (by rw [hdigits]; exact hd))
        rw [hdigits, take_succ_cons, take_succ_cons, readInteger, readDigits_eq hall]
        rfl
      rw [hpad, hread]
      by_cases hten : n < 10 ^ 6
      · rw [take_of_length_le (hsix.mpr hten), Nat.ofDigitChars_ten_toDigits]
        simp
        omega
      · have hcut := ofDigitChars_lt fun d hd => isDigit_toDigits (n := n) d (mem_of_mem_take (i := 6) hd)
        have htaken : ((Nat.toDigits 10 n).take 6).length ≤ 6 := by simp
        have hbound := hcut.trans_le (Nat.pow_le_pow_right (by decide) htaken)
        simp
        omega

theorem parts_point {whole fraction : List Char} (hwhole : '.' ∉ whole) (hfraction : '.' ∉ fraction) :
    parts (whole ++ '.' :: fraction) = (whole, fraction) := by
  have hpoint : ∀ {text : List Char}, '.' ∉ text → ∀ c ∈ text, decide (c ≠ '.') = true := fun h c hc =>
    decide_eq_true fun heq => h (heq ▸ hc)
  rw [parts, takeWhile_append_of_pos (hpoint hwhole), dropWhile_append_of_pos (hpoint hwhole)]
  simpa using fun c hc => of_decide_eq_true (hpoint hfraction c hc)

theorem notMem_toString {c : Char} (hdigit : c.isDigit = false) (hsign : c ≠ '-') (s : Int) : c ∉ (toString s).toList := by
  intro h
  have hnone : ∀ n : Nat, c ∉ Nat.toDigits 10 n := fun n hc => by simp [isDigit_toDigits _ hc] at hdigit
  obtain ⟨n, rfl | rfl⟩ := Int.eq_nat_or_neg s
  · rw [toList_toString] at h
    exact hnone n h
  · rcases Nat.eq_zero_or_pos n with rfl | hn
    · exact hnone 0 h
    · rw [toList_toString_neg hn] at h
      rcases mem_cons.mp h with h | h
      · exact hsign h
      · exact hnone n h

def Decimal.fractionDigits (v : Decimal) : List Char := v.fraction.getD []

theorem displayToStroops_stroopsToDisplay (s : Int) : displayToStroops (stroopsToDisplay s) = some s ↔
    readInteger ((padStart 7 (toString (s.tmod STROOPS_PER_XLM)).toList).take 7) = some (s.tmod STROOPS_PER_XLM) := by
  have hpadded : ((padStart 7 (toString (s.tmod STROOPS_PER_XLM)).toList).take 7).length = 7 := by
    simp only [padStart, length_take, length_append, length_replicate]
    omega
  have hpoint : '.' ∉ (padStart 7 (toString (s.tmod STROOPS_PER_XLM)).toList).take 7 := by
    intro h
    rcases mem_append.mp (mem_of_mem_take h) with h | h
    · exact absurd (eq_of_mem_replicate h) (by decide)
    · exact notMem_toString (by decide) (by decide) _ h
  simp only [displayToStroops, stroopsToDisplay, String.toList_ofList]
  rw [parts_point (notMem_toString (by decide) (by decide) _) hpoint, take_append_of_le_length hpadded.ge, take_of_length_le hpadded.le]
  simp only [readInteger_toString]
  cases readInteger ((padStart 7 (toString (s.tmod STROOPS_PER_XLM)).toList).take 7) with
  | none => simp
  | some fraction =>
    have hparts := Int.tdiv_mul_add_tmod s STROOPS_PER_XLM
    simp only [STROOPS_PER_XLM, Option.bind_eq_bind, Option.bind_some, Option.pure_def, Option.some.injEq] at hparts ⊢
    omega

theorem displayToStroops_text {v : Decimal} (h : v.fractionDigits.length ≤ 7) : displayToStroops v.text =
    some (signed v.negative (Nat.ofDigitChars 10 v.digits 0) * STROOPS_PER_XLM +
      (10 ^ (7 - v.fractionDigits.length) * Nat.ofDigitChars 10 v.fractionDigits 0 : Nat)) := by
  have hwhole : readInteger ((if v.negative then ['-'] else []) ++ v.digits) =
      some (signed v.negative (Nat.ofDigitChars 10 v.digits 0)) := by
    have hdigits : ∀ c ∈ v.digits, c.isDigit = true := fun c hc => v.isDigit c (mem_append_left _ hc)
    cases v.negative with
    | false => exact readInteger_digits hdigits
    | true =>
      obtain ⟨c, rest, hsome⟩ := exists_cons_of_ne_nil v.digits_ne_nil
      rw [hsome] at hdigits ⊢
      rw [if_pos rfl, singleton_append, readInteger, readDigits_eq hdigits]
      rfl
  have hpadded : (v.fractionDigits ++ replicate 7 '0').take 7 =
      v.fractionDigits ++ replicate (7 - v.fractionDigits.length) '0' := by
    rw [take_append, take_of_length_le h, take_replicate, Nat.min_eq_left (Nat.sub_le ..)]
  have hdigits : ∀ c ∈ v.fractionDigits ++ replicate (7 - v.fractionDigits.length) '0', c.isDigit = true := by
    intro c hc
    rcases mem_append.mp hc with hc | hc
    · exact v.isDigit c (mem_append_right _ hc)
    · rw [eq_of_mem_replicate hc]
      decide
  simp only [displayToStroops, v.parts_text, hwhole]
  rw [← Decimal.fractionDigits, hpadded, readInteger_digits hdigits, Nat.ofDigitChars_append, Nat.ofDigitChars_replicate_zero]
  rfl

/-- **When an amount is read back from its display, and a decimal as its value.** -/
theorem display_exact_iff (s : Int) (v : {v : Decimal // v.fractionDigits.length ≤ 7}) :
    (displayToStroops (stroopsToDisplay s) = some s ↔ 0 ≤ s ∨ s.natAbs % 10 ^ 7 = 0 ∨
      10 ^ 5 ≤ s.natAbs % 10 ^ 7 ∧ s.natAbs % 10 ^ 7 < 10 ^ 6) ∧
    (displayToStroops v.1.text = some (v.1.units * 10 ^ (7 - v.1.fractionDigits.length)) ↔
      v.1.negative = false ∨ Nat.ofDigitChars 10 v.1.fractionDigits 0 = 0) := by
  constructor
  · have hremainder : (s.tmod STROOPS_PER_XLM).natAbs = s.natAbs % 10 ^ 7 := by simp [STROOPS_PER_XLM, Int.natAbs_tmod]
    have hsign : 0 ≤ s.tmod STROOPS_PER_XLM ↔ 0 ≤ s ∨ s.natAbs % 10 ^ 7 = 0 := by
      obtain ⟨n, rfl | rfl⟩ := Int.eq_nat_or_neg s
      · exact ⟨fun _ => Or.inl (Int.natCast_nonneg n), fun _ => Int.tmod_nonneg _ (Int.natCast_nonneg n)⟩
      · rw [STROOPS_PER_XLM, Int.neg_tmod, Int.tmod_eq_emod_of_nonneg (Int.natCast_nonneg n), Int.natAbs_neg]
        omega
    rw [displayToStroops_stroopsToDisplay, readInteger_fraction (by rw [hremainder]; omega), hremainder, hsign, or_assoc]
  · obtain ⟨v, hv⟩ := v
    have hpow : (10 : Int) ^ v.fractionDigits.length * 10 ^ (7 - v.fractionDigits.length) = STROOPS_PER_XLM := by
      rw [← Int.pow_add, Nat.add_sub_of_le hv]
      rfl
    have hunits : v.units = signed v.negative (Nat.ofDigitChars 10 v.digits 0 * 10 ^ v.fractionDigits.length +
        Nat.ofDigitChars 10 v.fractionDigits 0) := by
      rw [Decimal.units, Nat.ofDigitChars_append, Nat.ofDigitChars_eq_ofDigitChars_zero, Nat.mul_comm]
      rfl
    rw [displayToStroops_text hv, hunits, ← hpow]
    have hpos : (0 : Int) < 10 ^ (7 - v.fractionDigits.length) := by positivity
    cases v.negative with
    | false =>
      simp only [signed, Bool.false_eq_true, if_false, true_or, iff_true, Option.some.injEq]
      push_cast
      ring
    | true =>
      simp only [signed, if_true, Bool.true_eq_false, false_or, Option.some.injEq]
      push_cast
      constructor
      · intro heq
        have hzero : (10 : Int) ^ (7 - v.fractionDigits.length) * Nat.ofDigitChars 10 v.fractionDigits 0 = 0 := by linarith
        rcases mul_eq_zero.mp hzero with hpow' | hnone
        · exact absurd hpow' hpos.ne'
        · exact_mod_cast hnone
      · intro hnone
        rw [hnone]
        push_cast
        ring

/-- Half a lumen less than one less: the fraction is added instead of taken away. -/
theorem negative_display : ¬ (displayToStroops (stroopsToDisplay (-15000000)) = some (-15000000)) ∧
    displayToStroops (stroopsToDisplay (-15000000)) = some (-10500000) ∧ displayToStroops "-1.5" = some (-5000000) ∧
    displayToStroops (stroopsToDisplay (-1)) = none := by
  decide

end Delego.Wallet
