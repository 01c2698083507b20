import Delego.Data.Months
import Delego.Wallet.Currency
import Delego.Wallet.Spending

/-! The windows of a wallet's spend limits (`wallet/src/spendLimits.ts`): the texts of the keys, and how long the counters
of a day and of a week last. -/
namespace Delego.Wallet
open Delego.Data List

def twoDigits (n : Int) : List Char := padStart 2 (toString n).toList

/-- The key as it is sent to Redis. -/
def SpendKey.text : SpendKey → String
  | .daily userId walletId day =>
    let date := civilFromDays day
    let yyyy := (toString date.year).toList
    let mm := twoDigits (date.month + 1)
    let dd := twoDigits date.day
    s!"spend:daily:{userId}:{walletId}:" ++ String.ofList (yyyy ++ '-' :: mm ++ '-' :: dd)
  | .weekly userId walletId year week =>
    let ww := twoDigits week
    s!"spend:weekly:{userId}:{walletId}:" ++ String.ofList ((toString year).toList ++ '-' :: 'W' :: ww)
  | .lifetime userId walletId => s!"spend:lifetime:{userId}:{walletId}"

theorem twoDigits_inj {m n : Int} (hm : 0 ≤ m) (hn : 0 ≤ n) (h : twoDigits m = twoDigits n) : m = n := by
  have hread : ∀ {k : Int}, 0 ≤ k → readInteger (twoDigits k) = some k := by
    intro k hk
    obtain ⟨k, rfl⟩ := Int.eq_ofNat_of_zero_le hk
    rw [twoDigits, toList_toString, readInteger_padStart 2 isDigit_toDigits, Nat.ofDigitChars_ten_toDigits]
  exact Option.some.inj ((hread hm).symm.trans ((congrArg readInteger h).trans (hread hn)))

theorem length_twoDigits {n : Int} (hn : 0 ≤ n) (hn' : n < 100) : (twoDigits n).length = 2 := by
  obtain ⟨n, rfl⟩ := Int.eq_ofNat_of_zero_le hn
  have hle := (Nat.length_toDigits_le_iff (b := 10) (k := 2) (n := n) (by decide) (by decide)).mpr (by omega)
  rw [twoDigits, toList_toString, padStart, length_append, length_replicate]
  omega

theorem toString_inj {m n : Int} (h : (toString m).toList = (toString n).toList) : m = n :=
  Option.some.inj ((readInteger_toString m).symm.trans ((congrArg readInteger h).trans (readInteger_toString n)))

theorem civil_ext {date date' : Civil} (hyear : date.year = date'.year) (hmonth : date.month = date'.month)
    (hday : date.day = date'.day) : date = date' := by
  cases date
  cases date'
  simp_all

theorem text_daily_iff (userId walletId : String) (day day' : Int) :
    (SpendKey.daily userId walletId day).text = (SpendKey.daily userId walletId day').text ↔ day = day' := by
  refine ⟨fun h => ?_, fun h => h ▸ rfl⟩
  have htwo : ∀ d : Int, ((twoDigits ((civilFromDays d).month + 1)).length = 2 ∧ (twoDigits (civilFromDays d).day).length = 2) := by
    intro d
    have hbounds := civilFromDays_bounds d
    exact ⟨length_twoDigits (by omega) (by omega), length_twoDigits (by omega) (by omega)⟩
  have hlists := String.ofList_injective (String.append_right_inj _ |>.mp h)
  rw [append_assoc, append_assoc] at hlists
  obtain ⟨hyear, hrest⟩ := append_inj' hlists (by simp [htwo])
  obtain ⟨hmonth, hday⟩ := append_inj (cons.inj hrest).2 (by simp [htwo])
  have hbounds := civilFromDays_bounds day
  have hbounds' := civilFromDays_bounds day'
  have hmonths := twoDigits_inj (by omega) (by omega) hmonth
  have hsame : civilFromDays day = civilFromDays day' :=
    civil_ext (toString_inj hyear) (by omega) (twoDigits_inj (by omega) (by omega) (cons.inj hday).2)
  rw [← daysFromCivil_civilFromDays day, hsame, daysFromCivil_civilFromDays]

theorem yearStart_le (days : Int) : daysFromCivil ⟨(civilFromDays days).year, 0, 1⟩ ≤ days := by
  obtain ⟨⟨hmonth, hmonth'⟩, ⟨hday, -⟩, -⟩ := civilFromDays_bounds days
  have hfirst : daysFromCivil (inMonth (12 * (civilFromDays days).year - 1 + 1) 1) =
      daysFromCivil ⟨(civilFromDays days).year, 0, 1⟩ := by
    congr 1
    simp only [inMonth, Civil.mk.injEq, and_true]
    omega
  have hlater := later_month (12 * (civilFromDays days).year - 1) (civilFromDays days).month.toNat
  have hmonths : 12 * (civilFromDays days).year - 1 + 1 + ((civilFromDays days).month.toNat : Int) =
      (civilFromDays days).months := by
    rw [Civil.months]
    omega
  have hdays := days_inMonth (civilFromDays days).months (civilFromDays days).day
  rw [inMonth_months ⟨hmonth, hmonth'⟩, daysFromCivil_civilFromDays] at hdays
  rw [hfirst, hmonths] at hlater
  omega

theorem week_notMem_year (year : Int) : 'W' ∉ (toString year).toList ++ ['-'] := by
  intro h
  rcases mem_append.mp h with h | h
  · exact notMem_toString (by decide) (by decide) _ h
  · exact absurd (mem_singleton.mp h) (by decide)

theorem text_weekly_iff (userId walletId : String) (t t' : Int) :
    (getWeeklyKey userId walletId t).text = (getWeeklyKey userId walletId t').text ↔ isoWeek t = isoWeek t' := by
  refine ⟨fun h => getWeeklyKey_eq_iff.mp (?_ : getWeeklyKey userId walletId t = getWeeklyKey _ _ t'),
    fun h => congrArg SpendKey.text (getWeeklyKey_eq_iff.mpr h)⟩
  have hlists := String.ofList_injective (String.append_right_inj _ |>.mp h)
  obtain ⟨hyear, hweek⟩ := append_cons_inj (week_notMem_year _) (week_notMem_year _)
    ((append_cons ..).symm.trans (hlists.trans (append_cons ..)))
  have hstart := yearStart_le (thursday (t / msPerDay))
  have hstart' := yearStart_le (thursday (t' / msPerDay))
  simp only [getWeeklyKey, SpendKey.weekly.injEq, true_and]
  exact ⟨toString_inj (append_cancel_right hyear), twoDigits_inj (by omega) (by omega) hweek⟩

/-- A counter of a day or a week is there throughout it. -/
def Lasts (counters : Counters) : Prop :=
  ∀ key value ends, counters.lookup key = some (value, some ends) →
    ∀ userId walletId t, key = getDailyKey userId walletId t ∨ key = getWeeklyKey userId walletId t → t < ends

variable {counters : Counters} {now amount ttl : Int} {key : SpendKey}

theorem Lasts.incrBy (h : Lasts counters) : Lasts (counters.incrBy now key amount) := by
  intro key' value ends hlook userId walletId t hkey
  by_cases hsame : key' = key
  · subst hsame
    rw [Counters.incrBy, AList.lookup_insert, Option.some.injEq, Prod.mk.injEq] at hlook
    obtain ⟨entry, hlive, hends⟩ := Option.bind_eq_some_iff.mp hlook.2
    exact h key' entry.1 ends (by rw [← hends, ← Counters.live_eq_some hlive]) userId walletId t hkey
  · rw [Counters.lookup_incrBy_ne hsame] at hlook
    exact h key' value ends hlook userId walletId t hkey

theorem Lasts.incrByWithTtl (h : Lasts counters)
    (httl : ∀ userId walletId t, key = getDailyKey userId walletId t ∨ key = getWeeklyKey userId walletId t → t < now + ttl) :
    Lasts (counters.incrByWithTtl now key amount ttl) := by
  unfold Counters.incrByWithTtl
  split
  · intro key' value ends hlook userId walletId t hkey
    by_cases hsame : key' = key
    · subst hsame
      rw [AList.lookup_insert, Option.some.injEq, Prod.mk.injEq, Option.some.injEq] at hlook
      exact hlook.2 ▸ httl userId walletId t hkey
    · rw [AList.lookup_insert_ne hsame] at hlook
      exact h key' value ends hlook userId walletId t hkey
  · exact h.incrBy

theorem Lasts.recordSpend (h : Lasts counters) (userId walletId : String) :
    Lasts (recordSpend counters now userId walletId amount) := by
  refine ((h.incrByWithTtl ?_).incrByWithTtl ?_).incrBy
  · rintro userId' walletId' t (hkey | hkey)
    · simp only [getDailyKey, SpendKey.daily.injEq] at hkey
      have hday := hkey.2.2
      simp only [msPerDay, DAILY_TTL] at hday ⊢
      omega
    · cases hkey
  · rintro userId' walletId' t (hkey | hkey)
    · cases hkey
    · have howner : userId = userId' ∧ walletId = walletId' := by
        simp only [getWeeklyKey, SpendKey.weekly.injEq] at hkey
        exact ⟨hkey.1, hkey.2.1⟩
      obtain ⟨rfl, rfl⟩ := howner
      have hweek := getWeeklyKey_eq_iff.mp hkey
      simp only [msPerDay, WEEKLY_TTL] at hweek ⊢
      omega

/-- A call of `recordSpend`: when, for whom, and how much. -/
structure SpendCall where
  now : Int
  (userId walletId : String)
  amount : Int

def recordSpends (calls : List SpendCall) : Counters :=
  calls.foldl (fun counters call => recordSpend counters call.now call.userId call.walletId call.amount) ∅

/-- **Keys are those of UTC days and of weeks from Monday to Sunday, and no counter is gone before its day or week is
over.** -/
theorem windows_exact : (∀ userId walletId t t',
      ((getDailyKey userId walletId t).text = (getDailyKey userId walletId t').text ↔ t / msPerDay = t' / msPerDay) ∧
      ((getWeeklyKey userId walletId t).text = (getWeeklyKey userId walletId t').text ↔
        (t / msPerDay + 3) / 7 = (t' / msPerDay + 3) / 7)) ∧
    ∀ calls, Lasts (recordSpends calls) := by
  refine ⟨fun userId walletId t t' => ⟨text_daily_iff .., text_weekly_iff ..⟩, fun calls => ?_⟩
  have hall : ∀ counters : Counters, Lasts counters → Lasts (calls.foldl
      (fun counters call => recordSpend counters call.now call.userId call.walletId call.amount) counters) := by
    induction calls with
    | nil => exact fun counters h => h
    | cons call calls ih => exact fun counters h => ih _ (h.recordSpend call.userId call.walletId)
  refine hall ∅ fun key value ends hlook => ?_
  simp at hlook

end Delego.Wallet
