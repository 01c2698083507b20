import Delego.Data.Months
import Delego.Subscriptions.Service

/-! Billing periods (`payments/src/subscriptions/billingCycle.ts`).

A day or a week is added as milliseconds, a month or a year with the setters of a date, which carry the days that a
month does not have over to the next one; that is where the date is set back. -/
namespace Delego.Subscriptions
open Delego.Data Option

def dateLater (date : Civil) (months : Int) : Civil :=
  inMonth (date.months + months) (min date.day (lengthOf (date.months + months)))

def monthsLater (t months : Int) : Int := daysFromCivil (dateLater (civil t) months) * msPerDay + t % msPerDay

theorem civil_months (t : Int) : daysFromCivil (inMonth (civil t).months (civil t).day) = t / msPerDay := by
  have hmonth : 0 ≤ (civil t).month ∧ (civil t).month < 12 := (civilFromDays_bounds _).1
  rw [inMonth_months hmonth]
  exact daysFromCivil_civilFromDays _

theorem civil_day (t : Int) : 1 ≤ (civil t).day ∧ (civil t).day ≤ 31 := (civilFromDays_bounds _).2.1

theorem onDate_days (days t : Int) : (days * msPerDay + t % msPerDay) / msPerDay = days := by
  unfold msPerDay
  omega

theorem onDate_time (days t : Int) : (days * msPerDay + t % msPerDay) % msPerDay = t % msPerDay := by
  unfold msPerDay
  omega

theorem civil_dateLater (date : Civil) (hday : 1 ≤ date.day) (months : Int) :
    civilFromDays (daysFromCivil (dateLater date months)) = dateLater date months :=
  civil_inMonth (le_min hday (by have := lengthOf_range (date.months + months); omega)) (min_le_right _ _)

/-- It is in the month so many months later, on the day of the start or the last of the month, at the time of day of
the start. -/
theorem civil_monthsLater (t months : Int) :
    civil (monthsLater t months) = dateLater (civil t) months ∧ monthsLater t months % msPerDay = t % msPerDay := by
  refine ⟨?_, onDate_time _ _⟩
  rw [civil, monthsLater, onDate_days]
  exact civil_dateLater _ (civil_day t).1 months

theorem timeClip_some {t u : Int} (h : timeClip t = some u) : u = t ∧ -8640000000000000 ≤ t ∧ t ≤ 8640000000000000 := by
  unfold timeClip at h
  split at h
  · rename_i hrange
    exact ⟨(some.inj h).symm, hrange⟩
  · cases h

theorem range_end {month : Int} (hshort : lengthOf month < 31)
    (h : daysFromCivil (inMonth month (lengthOf month)) ≤ 100000000) :
    daysFromCivil (inMonth month (lengthOf month)) + 4 ≤ 100000000 := by
  by_contra hlate
  have hlen := lengthOf_range month
  have hread : civilFromDays (daysFromCivil (inMonth month (lengthOf month))) = inMonth month (lengthOf month) :=
    civil_inMonth (by omega) (le_refl _)
  have hdays : daysFromCivil (inMonth month (lengthOf month)) = 99999997 ∨
      daysFromCivil (inMonth month (lengthOf month)) = 99999998 ∨
      daysFromCivil (inMonth month (lengthOf month)) = 99999999 ∨
      daysFromCivil (inMonth month (lengthOf month)) = 100000000 := by omega
  have hday : ∀ n : Int, n = 99999997 ∨ n = 99999998 ∨ n = 99999999 ∨ n = 100000000 → (civilFromDays n).day ≤ 13 := by
    rintro n (rfl | rfl | rfl | rfl) <;> decide
  have hsmall := hday _ hdays
  rw [hread] at hsmall
  simp only [inMonth] at hsmall
  omega

theorem clampDay_onDay (t month : Int) : clampDay (civil t).day (onDay t (daysFromCivil (inMonth month (civil t).day))) =
      timeClip (daysFromCivil (inMonth month (min (civil t).day (lengthOf month))) * msPerDay + t % msPerDay) := by
  obtain ⟨hday, hday'⟩ := civil_day t
  obtain ⟨hlen, hlen'⟩ := lengthOf_range month
  rcases le_or_gt (civil t).day (lengthOf month) with hfits | hover
  · rw [min_eq_left hfits, onDay]
    cases hclip : timeClip (daysFromCivil (inMonth month (civil t).day) * msPerDay + t % msPerDay) with
    | none => rfl
    | some u =>
      obtain ⟨rfl, -⟩ := timeClip_some hclip
      have heq : getUTCDate (daysFromCivil (inMonth month (civil t).day) * msPerDay + t % msPerDay) = (civil t).day := by
        rw [getUTCDate, civil, onDate_days, civil_inMonth hday hfits]
        rfl
      rw [clampDay, bind_some, heq, if_neg (not_not.mpr rfl)]
  · have hdays : daysFromCivil (inMonth month (civil t).day) =
        daysFromCivil (inMonth (month + 1) ((civil t).day - lengthOf month)) := by
      rw [days_inMonth, days_inMonth (month + 1), next_month]
      omega
    have hend : daysFromCivil (inMonth (month + 1) 0) = daysFromCivil (inMonth month (lengthOf month)) := by
      rw [days_inMonth, next_month, days_inMonth month (lengthOf month)]
      omega
    have hnext := lengthOf_range (month + 1)
    rw [min_eq_right hover.le, onDay]
    cases hclip : timeClip (daysFromCivil (inMonth month (civil t).day) * msPerDay + t % msPerDay) with
    | none =>
      cases hlast : timeClip (daysFromCivil (inMonth month (lengthOf month)) * msPerDay + t % msPerDay) with
      | none => rfl
      | some u =>
        exfalso
        obtain ⟨-, hlow, hhigh⟩ := timeClip_some hlast
        have hroom : daysFromCivil (inMonth month (lengthOf month)) + 4 ≤ 100000000 :=
          range_end (by omega) (by unfold msPerDay at hhigh; omega)
        have hcarried := days_inMonth month (civil t).day
        have hshort := days_inMonth month (lengthOf month)
        unfold timeClip msPerDay at hclip
        unfold msPerDay at hlow
        split at hclip
        · cases hclip
        · omega
    | some u =>
      obtain ⟨rfl, -⟩ := timeClip_some hclip
      have hcivil : civil (daysFromCivil (inMonth month (civil t).day) * msPerDay + t % msPerDay) =
          inMonth (month + 1) ((civil t).day - lengthOf month) := by
        rw [civil, onDate_days, hdays, civil_inMonth (by omega) (by omega)]
      have hmoved : getUTCDate (daysFromCivil (inMonth month (civil t).day) * msPerDay + t % msPerDay) ≠
          (civil t).day := by
        rw [getUTCDate, hcivil]
        simp only [inMonth]
        omega
      have hback : makeDay (inMonth (month + 1) ((civil t).day - lengthOf month)).year
          (inMonth (month + 1) ((civil t).day - lengthOf month)).month 0 =
            daysFromCivil (inMonth month (lengthOf month)) := by
        rw [makeDay_eq, ← hend]
        congr 2
        simp only [inMonth]
        omega
      rw [clampDay, bind_some, if_pos hmoved, setUTCDate, hcivil, hback, onDay, onDate_time]

def meantEnd (start intervalCount : Int) : BillingInterval → Int
  | .day => start + intervalCount * msPerDay
  | .week => start + intervalCount * (7 * msPerDay)
  | .month => monthsLater start intervalCount
  | .year => monthsLater start (12 * intervalCount)

variable {intervalCount : Int}

theorem addBillingInterval_eq (start : Int) (interval : BillingInterval) (hcount : 0 < intervalCount) :
    addBillingInterval start interval intervalCount = .ok (timeClip (meantEnd start intervalCount interval)) := by
  unfold addBillingInterval
  rw [if_neg (not_le.mpr hcount)]
  cases interval with
  | day => rfl
  | week => rfl
  | month =>
    have hmonth : 12 * (civil start).year + ((civil start).month + intervalCount) =
        (civil start).months + intervalCount := by
      simp only [Civil.months]
      omega
    simp only [setUTCMonth, getUTCMonth, getUTCDate, makeDay_eq, hmonth, clampDay_onDay]
    rfl
  | year =>
    have hmonth : 12 * ((civil start).year + intervalCount) + (civil start).month =
        (civil start).months + 12 * intervalCount := by
      simp only [Civil.months]
      omega
    simp only [setUTCFullYear, getUTCFullYear, getUTCDate, makeDay_eq, hmonth, clampDay_onDay]
    rfl

theorem monthsLater_later (t : Int) {months : Int} (h : 0 < months) : t < monthsLater t months := by
  obtain ⟨n, hn⟩ := Int.eq_ofNat_of_zero_le (show 0 ≤ months - 1 by omega)
  obtain rfl : months = 1 + n := by omega
  have hstart := civil_months t
  have hlater := later_month (civil t).months n
  have hlen : (civil t).day ≤ lengthOf (civil t).months := by
    have hvalid := day_le_monthLength (t / msPerDay)
    have hmonth : 0 ≤ (civil t).month ∧ (civil t).month < 12 := (civilFromDays_bounds _).1
    have hyear : (civil t).months / 12 = (civil t).year ∧ (civil t).months % 12 = (civil t).month := by
      simp only [Civil.months]
      omega
    rw [lengthOf, hyear.1, hyear.2]
    exact hvalid
  have hlast : 1 ≤ min (civil t).day (lengthOf ((civil t).months + (1 + n))) :=
    le_min (civil_day t).1 (by have := lengthOf_range ((civil t).months + (1 + n)); omega)
  rw [next_month, show (civil t).months + 1 + n = (civil t).months + (1 + n) by omega] at hlater
  rw [days_inMonth] at hstart
  have hday : t / msPerDay < daysFromCivil (dateLater (civil t) (1 + n)) := by
    rw [dateLater, days_inMonth]
    omega
  unfold monthsLater msPerDay at *
  omega

theorem meantEnd_later (start : Int) (interval : BillingInterval) (hcount : 0 < intervalCount) :
    start < meantEnd start intervalCount interval := by
  cases interval with
  | day =>
    show start < start + intervalCount * msPerDay
    unfold msPerDay
    omega
  | week =>
    show start < start + intervalCount * (7 * msPerDay)
    unfold msPerDay
    omega
  | month => exact monthsLater_later start hcount
  | year => exact monthsLater_later start (by omega)

def periodBoundary (start : Int) (interval : BillingInterval) (intervalCount : Int) : Nat → Option Int
  | 0 => some start
  | n + 1 => (periodBoundary start interval intervalCount n).bind fun t =>
    (addBillingInterval t interval intervalCount).toOption.join

theorem addBillingInterval_later {start next : Int} {interval : BillingInterval} (hcount : 0 < intervalCount)
    (h : addBillingInterval start interval intervalCount = .ok (some next)) :
    start < next := by
  rw [addBillingInterval_eq start interval hcount] at h
  obtain ⟨rfl, -⟩ := timeClip_some (Except.ok.inj h)
  exact meantEnd_later start interval hcount

theorem periodBoundary_later {start : Int} {interval : BillingInterval} (hcount : 0 < intervalCount) {i j : Nat}
    (hij : i < j) {t u : Int} (ht : periodBoundary start interval intervalCount i = some t)
    (hu : periodBoundary start interval intervalCount j = some u) : t < u := by
  induction j generalizing u with
  | zero => exact absurd hij (Nat.not_lt_zero i)
  | succ j ih =>
    obtain ⟨s, hs, hnext⟩ := bind_eq_some_iff.mp hu
    have hsu : s < u := by
      cases hadd : addBillingInterval s interval intervalCount with
      | error e =>
        rw [hadd] at hnext
        cases hnext
      | ok next =>
        rw [hadd] at hnext
        obtain rfl : next = some u := hnext
        exact addBillingInterval_later hcount hadd
    rcases Nat.lt_succ_iff_lt_or_eq.mp hij with hlt | rfl
    · exact (ih hlt hs).trans hsu
    · obtain rfl := some.inj (ht.symm.trans hs)
      exact hsu

/-- **Billing periods by the calendar**: for months and years on the anchor day or the last of the target month, at
the same time of day, unless that is out of the range of a date. -/
theorem billing_periods_advance (start : Instant) (interval : BillingInterval) {intervalCount : Int}
    (hcount : 0 < intervalCount) :
    (∀ i, addBillingInterval start.val i intervalCount = .ok (timeClip (meantEnd start.val intervalCount i))) ∧
      (∀ months, civil (monthsLater start.val months) = dateLater (civil start.val) months ∧
        monthsLater start.val months % msPerDay = start.val % msPerDay) ∧
      (∀ next, addBillingInterval start.val interval intervalCount = .ok (some next) → start.val < next) ∧
      ∀ i j t u, i < j → periodBoundary start.val interval intervalCount i = some t →
        periodBoundary start.val interval intervalCount j = some u → t < u :=
  ⟨fun i => addBillingInterval_eq start.val i hcount, fun months => civil_monthsLater start.val months,
    fun _ h => addBillingInterval_later hcount h, fun _ _ _ _ hij ht hu => periodBoundary_later hcount hij ht hu⟩

/-- 31 January 2024 -/
def endOfJanuary : Instant := ⟨1706659200000, rfl⟩

/-- The last day of January 2024, and that of February after it. -/
theorem billing_periods_advance_from_january :
    addBillingInterval endOfJanuary.val .month 1 = .ok (some (endOfJanuary.val + 29 * msPerDay)) ∧
      endOfJanuary.val < endOfJanuary.val + 29 * msPerDay := by
  have hmonth : addBillingInterval endOfJanuary.val .month 1 = .ok (some (endOfJanuary.val + 29 * msPerDay)) := by
    rw [(billing_periods_advance endOfJanuary .month (show (0 : Int) < 1 by decide)).1 .month]
    decide
  exact ⟨hmonth, (billing_periods_advance endOfJanuary .month (show (0 : Int) < 1 by decide)).2.2.1 _ hmonth⟩

/-- There is no later instant than the last of the range. -/
theorem last_instant_has_no_next :
    ¬ ∀ (start : Instant) (interval : BillingInterval) (intervalCount : Int), 0 < intervalCount →
      ∃ next, addBillingInterval start.val interval intervalCount = .ok (some next) ∧ start.val < next := by
  intro h
  obtain ⟨next, hnext, -⟩ := h ⟨8640000000000000, rfl⟩ .day 1 (by decide)
  have hnone : addBillingInterval 8640000000000000 .day 1 = .ok none := by rfl
  simp [hnone] at hnext

end Delego.Subscriptions
