import Mathlib.Tactic.Ring
import Delego.Data.Number

/-! Dates of the language, in UTC.

A date is a number of milliseconds since 1970, or invalid (`none`) when it is out of range. Days are those of the
Gregorian calendar, extended to all years: `daysFromCivil` and `civilFromDays` count them in eras of 400 years from the
first of March of year 0. -/
namespace Delego.Data
open List

def msPerDay : Int := 24 * 60 * 60 * 1000

/-- `TimeClip` -/
def timeClip (t : Int) : Option Int :=
  if -8640000000000000 ≤ t ∧ t ≤ 8640000000000000 then some t else none

/-- Year, month from 0 and day of the month from 1. -/
structure Civil where
  (year month day : Int)
  deriving DecidableEq

def daysFromCivil (date : Civil) : Int :=
  let y := if date.month < 2 then date.year - 1 else date.year
  let era := y / 400
  let yearOfEra := y - era * 400
  let dayOfYear := (153 * ((date.month + 10) % 12) + 2) / 5 + date.day - 1
  era * 146097 + (yearOfEra * 365 + yearOfEra / 4 - yearOfEra / 100 + dayOfYear) - 719468

def civilFromDays (days : Int) : Civil :=
  let z := days + 719468
  let era := z / 146097
  let dayOfEra := z - era * 146097
  let yearOfEra := (dayOfEra - dayOfEra / 1460 + dayOfEra / 36524 - dayOfEra / 146096) / 365
  let dayOfYear := dayOfEra - (365 * yearOfEra + yearOfEra / 4 - yearOfEra / 100)
  let fromMarch := (5 * dayOfYear + 2) / 153
  let month := (fromMarch + 2) % 12
  { year := yearOfEra + era * 400 + if month < 2 then 1 else 0
    month := month
    day := dayOfYear - (153 * fromMarch + 2) / 5 + 1 }

def civil (t : Int) : Civil := civilFromDays (t / msPerDay)

/-- `MakeDay`: months and days out of range carry over. -/
def makeDay (year month day : Int) : Int := daysFromCivil ⟨year + month / 12, month % 12, 1⟩ + day - 1

def onDay (t days : Int) : Option Int := timeClip (days * msPerDay + t % msPerDay)

def getUTCDate (t : Int) : Int := (civil t).day

def getUTCMonth (t : Int) : Int := (civil t).month

def getUTCFullYear (t : Int) : Int := (civil t).year

def setUTCMonth (t month : Int) : Option Int := onDay t (makeDay (civil t).year month (civil t).day)

def setUTCFullYear (t year : Int) : Option Int := onDay t (makeDay year (civil t).month (civil t).day)

def setUTCDate (t day : Int) : Option Int := onDay t (makeDay (civil t).year (civil t).month day)

-- The thirty-first of January 2024, and two months after it without a day of that number.
example : civil 1706659200000 = ⟨2024, 0, 31⟩ := by decide
example : (setUTCMonth 1706659200000 1).map civil = some ⟨2024, 2, 2⟩ := by decide
example : (setUTCDate 1709337600000 0).map civil = some ⟨2024, 1, 29⟩ := by decide

/-! ### Dates as texts

`toISOString` writes a date that is valid in a form of its own: two that are written alike are the
same date (`toISOString_injective`). -/

theorem yearOfEra_range {dayOfEra : Int} (hlow : 0 ≤ dayOfEra) (hhigh : dayOfEra < 146097) :
    let yearOfEra := (dayOfEra - dayOfEra / 1460 + dayOfEra / 36524 - dayOfEra / 146096) / 365
    let dayOfYear := dayOfEra - (365 * yearOfEra + yearOfEra / 4 - yearOfEra / 100)
    (0 ≤ yearOfEra ∧ yearOfEra ≤ 399) ∧ 0 ≤ dayOfYear ∧ dayOfYear ≤ 365 := by
  intro yearOfEra dayOfYear
  -- the century, and whether it is the last day of the era
  have hcentury : dayOfEra / 36524 = 0 ∨ dayOfEra / 36524 = 1 ∨ dayOfEra / 36524 = 2 ∨ dayOfEra / 36524 = 3 ∨
      dayOfEra = 146096 := by omega
  rcases hcentury with h | h | h | h | rfl
  · have hyears : yearOfEra / 100 = 0 := by omega
    omega
  · have hyears : yearOfEra / 100 = 1 := by omega
    omega
  · have hyears : yearOfEra / 100 = 2 := by omega
    omega
  · have hyears : yearOfEra / 100 = 3 := by omega
    omega
  · decide

/-- A day by its era, the year of that, the day of the year from March and the month of it. -/
theorem civilFromDays_spec (days : Int) : ∃ era yearOfEra dayOfYear fromMarch : Int,
    civilFromDays days = ⟨yearOfEra + era * 400 + if (fromMarch + 2) % 12 < 2 then 1 else 0, (fromMarch + 2) % 12,
      dayOfYear - (153 * fromMarch + 2) / 5 + 1⟩ ∧
    days + 719468 = era * 146097 + (365 * yearOfEra + yearOfEra / 4 - yearOfEra / 100) + dayOfYear ∧
    era = (days + 719468) / 146097 ∧ (0 ≤ yearOfEra ∧ yearOfEra ≤ 399) ∧ (0 ≤ dayOfYear ∧ dayOfYear ≤ 365) ∧
    fromMarch = (5 * dayOfYear + 2) / 153 := by
  have hlow : 0 ≤ days + 719468 - (days + 719468) / 146097 * 146097 := by omega
  have hhigh : days + 719468 - (days + 719468) / 146097 * 146097 < 146097 := by omega
  obtain ⟨hyear, hday⟩ := yearOfEra_range hlow hhigh
  exact ⟨_, _, _, _, rfl, by ring, rfl, hyear, hday, rfl⟩

theorem daysFromCivil_civilFromDays (days : Int) : daysFromCivil (civilFromDays days) = days := by
  obtain ⟨era, yearOfEra, dayOfYear, fromMarch, hcivil, hdays, -, hyear, hday, hmarch⟩ := civilFromDays_spec days
  simp only [hcivil, daysFromCivil]
  have hmonth : ((fromMarch + 2) % 12 + 10) % 12 = fromMarch := by omega
  have hmarchYear : (if (fromMarch + 2) % 12 < 2 then
      yearOfEra + era * 400 + (if (fromMarch + 2) % 12 < 2 then 1 else 0) - 1
      else yearOfEra + era * 400 + if (fromMarch + 2) % 12 < 2 then 1 else 0) = yearOfEra + era * 400 := by
    split <;> omega
  have hera : (yearOfEra + era * 400) / 400 = era := by omega
  have hrest : yearOfEra + era * 400 - era * 400 = yearOfEra := by omega
  rw [hmonth, hmarchYear, hera, hrest]
  omega

theorem civilFromDays_bounds (days : Int) : (0 ≤ (civilFromDays days).month ∧ (civilFromDays days).month < 12) ∧
      (1 ≤ (civilFromDays days).day ∧ (civilFromDays days).day ≤ 31) ∧
      ((days + 719468) / 146097 * 400 ≤ (civilFromDays days).year ∧
        (civilFromDays days).year ≤ (days + 719468) / 146097 * 400 + 400) := by
  obtain ⟨era, yearOfEra, dayOfYear, fromMarch, hcivil, -, hera, hyear, hday, hmarch⟩ := civilFromDays_spec days
  rw [hcivil, ← hera]
  simp only
  refine ⟨⟨by omega, by omega⟩, ⟨by omega, by omega⟩, ?_, ?_⟩ <;> split <;> omega

/-- A time in the range of a date. -/
abbrev Instant := { t : Int // timeClip t = some t }

theorem Instant.bounds (t : Instant) : -8640000000000000 ≤ t.val ∧ t.val ≤ 8640000000000000 := by
  obtain ⟨t, ht⟩ := t
  unfold timeClip at ht
  split at ht
  · assumption
  · cases ht

/-- A date, which may be an invalid one. -/
abbrev Date := Option Instant

/-- Four digits, or a sign and six of them. -/
def yearChars (year : Int) : List Char :=
  if 0 ≤ year ∧ year ≤ 9999 then pad 4 year.toNat
  else (if year < 0 then '-' else '+') :: pad 6 year.natAbs

def isoChars (t : Int) : List Char :=
  let date := civil t
  let ms := (t % msPerDay).toNat
  yearChars date.year ++ '-' :: pad 2 (date.month + 1).toNat ++ '-' :: pad 2 date.day.toNat ++
    'T' :: pad 2 (ms / 3600000) ++ ':' :: pad 2 (ms / 60000 % 60) ++ ':' :: pad 2 (ms / 1000 % 60) ++
    '.' :: pad 3 (ms % 1000) ++ ['Z']

/-- `new Date(t)` -/
def newDate (t : Int) : Date := if h : timeClip t = some t then some ⟨t, h⟩ else none

/-- `date.toISOString()` -/
def toISOString : Date → Except String String
  | none => .error "Invalid time value"
  | some t => .ok (String.ofList (isoChars t.val))

theorem mem_isoChars {t : Int} {c : Char} (h : c ∈ isoChars t) :
    (∃ m < 10, c = digit m) ∨ c ∈ ['-', '+', 'T', ':', '.', 'Z'] := by
  have hyear : ∀ year, c ∈ yearChars year → (∃ m < 10, c = digit m) ∨ c ∈ ['-', '+', 'T', ':', '.', 'Z'] := by
    intro year hc
    unfold yearChars at hc
    split at hc
    · exact .inl (mem_pad hc)
    · rcases mem_cons.mp hc with rfl | hc
      · split <;> simp
      · exact .inl (mem_pad hc)
  simp only [isoChars, append_assoc, cons_append, mem_append, mem_cons, not_mem_nil, or_false] at h
  rcases h with h | rfl | h | rfl | h | rfl | h | rfl | h | rfl | h | rfl | h | rfl
  · exact hyear _ h
  all_goals first
    | exact .inl (mem_pad h)
    | exact .inr (by simp)

theorem yearChars_injective {year year' : Int} (hyear : year.natAbs < 10 ^ 6) (hyear' : year'.natAbs < 10 ^ 6)
    (h : yearChars year = yearChars year') : year = year' := by
  unfold yearChars at h
  by_cases hfour : 0 ≤ year ∧ year ≤ 9999
  · by_cases hfour' : 0 ≤ year' ∧ year' ≤ 9999
    · rw [if_pos hfour, if_pos hfour'] at h
      have heq := pad_injective (by omega) (by omega) h
      omega
    · rw [if_pos hfour, if_neg hfour'] at h
      simpa using congrArg length h
  · by_cases hfour' : 0 ≤ year' ∧ year' ≤ 9999
    · rw [if_neg hfour, if_pos hfour'] at h
      simpa using congrArg length h
    · rw [if_neg hfour, if_neg hfour'] at h
      obtain ⟨hsign, hdigits⟩ := cons.inj h
      have heq := pad_injective hyear hyear' hdigits
      by_cases hnegative : year < 0 <;> by_cases hnegative' : year' < 0 <;> simp [hnegative, hnegative'] at hsign <;> omega

theorem isoChars_injective {t t' : Instant} (h : isoChars t.val = isoChars t'.val) : t = t' := by
  have hbounds : ∀ t : Instant, (civil t.val).year.natAbs < 10 ^ 6 := by
    intro t
    obtain ⟨-, -, hlow, hhigh⟩ := civilFromDays_bounds (t.val / msPerDay)
    have htime := t.bounds
    simp only [civil, msPerDay] at *
    omega
  have hms : ∀ t : Instant, 0 ≤ t.val % msPerDay ∧ t.val % msPerDay < 86400000 := by
    intro t
    simp only [msPerDay]
    omega
  simp only [isoChars, append_assoc, cons_append] at h
  -- what follows the year is of one length
  obtain ⟨hyear, h⟩ := append_inj' h (by simp)
  obtain ⟨-, h⟩ := cons.inj h
  obtain ⟨hmonth, h⟩ := append_inj h (by simp)
  obtain ⟨-, h⟩ := cons.inj h
  obtain ⟨hday, h⟩ := append_inj h (by simp)
  obtain ⟨-, h⟩ := cons.inj h
  obtain ⟨hhour, h⟩ := append_inj h (by simp)
  obtain ⟨-, h⟩ := cons.inj h
  obtain ⟨hminute, h⟩ := append_inj h (by simp)
  obtain ⟨-, h⟩ := cons.inj h
  obtain ⟨hsecond, h⟩ := append_inj h (by simp)
  obtain ⟨-, h⟩ := cons.inj h
  obtain ⟨hmilli, -⟩ := append_inj h (by simp)
  have hyear := yearChars_injective (hbounds t) (hbounds t') hyear
  have hrange := civilFromDays_bounds (t.val / msPerDay)
  have hrange' := civilFromDays_bounds (t'.val / msPerDay)
  have hm := hms t
  have hm' := hms t'
  have hmonth := pad_injective (by simp only [civil]; omega) (by simp only [civil]; omega) hmonth
  have hday := pad_injective (by simp only [civil]; omega) (by simp only [civil]; omega) hday
  have hhour := pad_injective (by omega) (by omega) hhour
  have hminute := pad_injective (by omega) (by omega) hminute
  have hsecond := pad_injective (by omega) (by omega) hsecond
  have hmilli := pad_injective (by omega) (by omega) hmilli
  -- the date says which day it is, and the rest when on it
  have hcivil : civil t.val = civil t'.val := by
    have hmonths : (civil t.val).month = (civil t'.val).month := by
      simp only [civil] at hmonth ⊢
      omega
    have hdays : (civil t.val).day = (civil t'.val).day := by
      simp only [civil] at hday ⊢
      omega
    cases hleft : civil t.val
    cases hright : civil t'.val
    simp_all
  have hdays : t.val / msPerDay = t'.val / msPerDay := by
    have hboth := congrArg daysFromCivil hcivil
    simpa [civil, daysFromCivil_civilFromDays] using hboth
  apply Subtype.ext
  have hdivided := Int.mul_ediv_add_emod t.val msPerDay
  have hdivided' := Int.mul_ediv_add_emod t'.val msPerDay
  have hrest : t.val % msPerDay = t'.val % msPerDay := by omega
  rw [← hdivided, ← hdivided', hdays, hrest]

/-- **Dates that are written alike are the same.** -/
theorem toISOString_injective {date date' : Date} {text : String} (h : toISOString date = .ok text)
    (h' : toISOString date' = .ok text) : date = date' := by
  cases date with
  | none => cases h
  | some t =>
    cases date' with
    | none => cases h'
    | some t' =>
      have hchars := String.ofList_injective ((Except.ok.inj h).trans (Except.ok.inj h').symm)
      rw [isoChars_injective hchars]

def newYear : Instant := ⟨1767225600000, rfl⟩

example : toISOString (some newYear) = .ok "2026-01-01T00:00:00.000Z" := by decide
example : toISOString (some ⟨8640000000000000, rfl⟩) = .ok "+275760-09-13T00:00:00.000Z" := by decide

end Delego.Data
