import Mathlib.Data.Int.ConditionallyCompleteOrder
import Mathlib.Tactic.IntervalCases
import Delego.Data.Calendar

/-! Months of the calendar.

A month has a length, and a date that is in one is what its day is read back as (`civilFromDays_daysFromCivil`). -/
namespace Delego.Data

def leapYear (year : Int) : Bool := year % 4 = 0 && (year % 100 ≠ 0 || year % 400 = 0)

/-- The days of a month, which is counted from 0. -/
def monthLength (year month : Int) : Int :=
  if month = 1 then if leapYear year then 29 else 28
  else if month = 3 ∨ month = 5 ∨ month = 8 ∨ month = 10 then 30
  else 31

def commonDays (dayOfEra : Int) : Int := dayOfEra - dayOfEra / 1460 + dayOfEra / 36524 - dayOfEra / 146096

theorem commonDays_mono : Monotone commonDays := by
  refine monotone_int_of_le_succ fun dayOfEra => ?_
  unfold commonDays
  omega

def yearStart (year : Int) : Int := 365 * year + year / 4 - year / 100

def yearFits (year : Nat) : Bool :=
  let last := yearStart year + if leapYear (year + 1) then 365 else 364
  365 * year ≤ commonDays (yearStart year) && commonDays last < 365 * (year + 1) && last < 146097

theorem yearFits_all : (List.range 400).all yearFits = true := by decide +kernel

theorem yearOfEra_eq {year day : Int} (hyear : 0 ≤ year) (hyear' : year < 400) (hday : 0 ≤ day)
    (hday' : day ≤ if leapYear (year + 1) then 365 else 364) :
    (0 ≤ yearStart year + day ∧ yearStart year + day < 146097) ∧ commonDays (yearStart year + day) / 365 = year := by
  obtain ⟨n, rfl⟩ := Int.eq_ofNat_of_zero_le hyear
  have hfits := List.all_eq_true.mp yearFits_all n (List.mem_range.mpr (by omega))
  simp only [yearFits, Bool.and_eq_true, decide_eq_true_eq] at hfits
  obtain ⟨⟨hlow, hhigh⟩, hera⟩ := hfits
  have hfirst := hlow.trans (commonDays_mono (le_add_of_nonneg_right hday))
  have hlast := lt_of_le_of_lt (commonDays_mono (add_le_add_right hday' (yearStart n))) hhigh
  refine ⟨⟨?_, by omega⟩, by omega⟩
  unfold yearStart
  omega

def daysBefore (fromMarch : Int) : Int := (153 * fromMarch + 2) / 5

theorem monthOfYear_eq {year month day : Int} (hmonth : 0 ≤ month ∧ month < 12) (hday : 1 ≤ day)
    (hday' : day ≤ monthLength year month) :
    let dayOfYear := daysBefore ((month + 10) % 12) + day - 1
    (0 ≤ dayOfYear ∧ dayOfYear ≤ if leapYear ((if month < 2 then year - 1 else year) + 1) then 365 else 364) ∧
      (5 * dayOfYear + 2) / 153 = (month + 10) % 12 := by
  have hcases : month = 0 ∨ month = 1 ∨ month = 2 ∨ month = 3 ∨ month = 4 ∨ month = 5 ∨ month = 6 ∨ month = 7 ∨
      month = 8 ∨ month = 9 ∨ month = 10 ∨ month = 11 := by omega
  rcases hcases with rfl | rfl | rfl | rfl | rfl | rfl | rfl | rfl | rfl | rfl | rfl | rfl <;>
    simp only [monthLength, daysBefore] at hday' ⊢ <;> grind

theorem civilFromDays_daysFromCivil {date : Civil} (hmonth : 0 ≤ date.month ∧ date.month < 12)
    (hday : 1 ≤ date.day) (hday' : date.day ≤ monthLength date.year date.month) :
    civilFromDays (daysFromCivil date) = date := by
  obtain ⟨year, month, day⟩ := date
  simp only at hmonth hday hday'
  obtain ⟨⟨hfirst, hlast⟩, hmarch⟩ := monthOfYear_eq hmonth hday hday'
  let y := if month < 2 then year - 1 else year
  let dayOfYear := daysBefore ((month + 10) % 12) + day - 1
  have hera : 0 ≤ y - y / 400 * 400 ∧ y - y / 400 * 400 < 400 := by omega
  have hleap : leapYear (y - y / 400 * 400 + 1) = leapYear (y + 1) := by
    simp only [leapYear]
    congr 2 <;> grind
  obtain ⟨⟨hlow, hhigh⟩, hyear⟩ := yearOfEra_eq hera.1 hera.2 hfirst (hleap ▸ hlast)
  have hdays : daysFromCivil ⟨year, month, day⟩ + 719468 = y / 400 * 146097 + (yearStart (y - y / 400 * 400) + dayOfYear) := by
    simp only [daysFromCivil, yearStart, dayOfYear, daysBefore, y]
    omega
  have hdiv : (y / 400 * 146097 + (yearStart (y - y / 400 * 400) + dayOfYear)) / 146097 = y / 400 := by omega
  have hmod : y / 400 * 146097 + (yearStart (y - y / 400 * 400) + dayOfYear) - y / 400 * 146097 =
      yearStart (y - y / 400 * 400) + dayOfYear := by omega
  have hyears : (yearStart (y - y / 400 * 400) + dayOfYear - (yearStart (y - y / 400 * 400) + dayOfYear) / 1460 +
      (yearStart (y - y / 400 * 400) + dayOfYear) / 36524 - (yearStart (y - y / 400 * 400) + dayOfYear) / 146096) / 365 =
      y - y / 400 * 400 := hyear
  have hrest : yearStart (y - y / 400 * 400) + dayOfYear -
      (365 * (y - y / 400 * 400) + (y - y / 400 * 400) / 4 - (y - y / 400 * 400) / 100) = dayOfYear :=
    add_sub_cancel_left _ _
  rw [civilFromDays, hdays]
  have hfromMarch : (5 * dayOfYear + 2) / 153 = (month + 10) % 12 := hmarch
  simp only [hdiv, hmod, hyears, hrest, hfromMarch]
  have hback : ((month + 10) % 12 + 2) % 12 = month := by omega
  rw [hback]
  congr 1
  · simp only [y]
    split <;> omega
  · simp only [dayOfYear, daysBefore]
    omega

theorem day_le_monthLength (days : Int) :
    (civilFromDays days).day ≤ monthLength (civilFromDays days).year (civilFromDays days).month := by
  obtain ⟨era, year, dayOfYear, fromMarch, hcivil, hdays, -, hyear, hday, hmarch⟩ := civilFromDays_spec days
  have hlast : dayOfYear = 365 → leapYear (year + 1) := by
    intro h
    by_contra hleap
    -- the day would be the first of March
    have hfirst : days = daysFromCivil ⟨year + 1 + era * 400, 2, 1⟩ := by
      simp only [leapYear, Bool.and_eq_true, Bool.or_eq_true, decide_eq_true_eq] at hleap
      simp only [daysFromCivil]
      omega
    have hread : civilFromDays (daysFromCivil ⟨year + 1 + era * 400, 2, 1⟩) = ⟨year + 1 + era * 400, 2, 1⟩ :=
      civilFromDays_daysFromCivil (by simp) (by simp) (by simp [monthLength])
    rw [← hfirst, hcivil] at hread
    have hmonth : (fromMarch + 2) % 12 = 2 := congrArg Civil.month hread
    omega
  rw [hcivil]
  simp only [monthLength]
  have hcases : fromMarch = 0 ∨ fromMarch = 1 ∨ fromMarch = 2 ∨ fromMarch = 3 ∨ fromMarch = 4 ∨ fromMarch = 5 ∨
      fromMarch = 6 ∨ fromMarch = 7 ∨ fromMarch = 8 ∨ fromMarch = 9 ∨ fromMarch = 10 ∨ fromMarch = 11 := by omega
  have hera : leapYear (year + era * 400 + 1) = leapYear (year + 1) := by
    simp only [leapYear]
    congr 2 <;> grind
  rcases hcases with rfl | rfl | rfl | rfl | rfl | rfl | rfl | rfl | rfl | rfl | rfl | rfl <;> grind

def inMonth (month day : Int) : Civil := ⟨month / 12, month % 12, day⟩

def Civil.months (date : Civil) : Int := 12 * date.year + date.month

theorem inMonth_months {date : Civil} (hmonth : 0 ≤ date.month ∧ date.month < 12) (day : Int) :
    inMonth date.months day = ⟨date.year, date.month, day⟩ := by
  simp only [inMonth, Civil.months]
  congr 1 <;> omega

def lengthOf (month : Int) : Int := monthLength (month / 12) (month % 12)

theorem lengthOf_range (month : Int) : 28 ≤ lengthOf month ∧ lengthOf month ≤ 31 := by
  unfold lengthOf monthLength
  grind

theorem days_inMonth (month day : Int) : daysFromCivil (inMonth month day) = daysFromCivil (inMonth month 1) + day - 1 := by
  simp only [inMonth, daysFromCivil]
  omega

theorem makeDay_eq (year month day : Int) : makeDay year month day = daysFromCivil (inMonth (12 * year + month) day) := by
  have hyear : (12 * year + month) / 12 = year + month / 12 := by omega
  have hmonth : (12 * year + month) % 12 = month % 12 := by omega
  rw [days_inMonth, makeDay, inMonth, hyear, hmonth]

theorem makeDay_civil (t : Int) : makeDay (getUTCFullYear t) (getUTCMonth t) (getUTCDate t) = t / msPerDay := by
  have hmonth : 0 ≤ (civil t).month ∧ (civil t).month < 12 := (civilFromDays_bounds _).1
  rw [getUTCFullYear, getUTCMonth, getUTCDate, makeDay_eq]
  exact (congrArg daysFromCivil (inMonth_months hmonth _)).trans (daysFromCivil_civilFromDays _)

theorem civil_inMonth {month day : Int} (hday : 1 ≤ day) (hday' : day ≤ lengthOf month) :
    civilFromDays (daysFromCivil (inMonth month day)) = inMonth month day :=
  civilFromDays_daysFromCivil ⟨Int.emod_nonneg _ (by decide), Int.emod_lt_of_pos _ (by decide)⟩ hday hday'

theorem next_month (month : Int) :
    daysFromCivil (inMonth (month + 1) 1) = daysFromCivil (inMonth month 1) + lengthOf month := by
  have hcases : month % 12 = 0 ∨ month % 12 = 1 ∨ month % 12 = 2 ∨ month % 12 = 3 ∨ month % 12 = 4 ∨ month % 12 = 5 ∨
      month % 12 = 6 ∨ month % 12 = 7 ∨ month % 12 = 8 ∨ month % 12 = 9 ∨ month % 12 = 10 ∨ month % 12 = 11 := by omega
  have hyear : (month + 1) / 12 = if month % 12 = 11 then month / 12 + 1 else month / 12 := by split <;> omega
  have hmonth : (month + 1) % 12 = if month % 12 = 11 then 0 else month % 12 + 1 := by split <;> omega
  simp only [inMonth, hyear, hmonth, lengthOf]
  generalize month / 12 = year
  rcases hcases with h | h | h | h | h | h | h | h | h | h | h | h <;>
    simp [h, daysFromCivil, monthLength, leapYear] <;> grind

theorem later_month (month : Int) (n : Nat) :
    daysFromCivil (inMonth (month + 1) 1) ≤ daysFromCivil (inMonth (month + 1 + n) 1) := by
  induction n with
  | zero => simp
  | succ n ih =>
    have hnext := next_month (month + 1 + n)
    have hlen := (lengthOf_range (month + 1 + n)).1
    have hsucc : month + 1 + (n + 1 : Nat) = month + 1 + n + 1 := by omega
    rw [hsucc]
    omega

end Delego.Data
