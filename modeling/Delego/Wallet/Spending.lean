import Mathlib.Data.List.AList
import Delego.Data.Calendar
import Delego.Data.Ranges

/-! Spend limits of a wallet (`wallet/src/spendLimits.ts`, `models/SpendLimit.ts`).

What a user spends from a wallet is counted in Redis: by the UTC day, by the ISO week and over
all. A counter of a day lives for two days and that of a week for eight days, so each outlives what
it counts. Amounts are in stroops. -/
namespace Delego.Wallet
open Data (msPerDay civilFromDays daysFromCivil)

section
structure SpendLimit where
  userId : String
  (walletId delegationId : Option String)
  (limitPerTransaction limitDaily limitWeekly limitLifetime : Option Int)

/-- `where`: a field that is not named is free. -/
structure LimitFilter where
  userId : Option String := none
  walletId : Option (Option String) := none
  delegationId : Option (Option String) := none

def LimitFilter.selects (filter : LimitFilter) (limit : SpendLimit) : Bool :=
  (filter.userId.all fun userId => decide (limit.userId = userId)) &&
    (filter.walletId.all fun walletId => decide (limit.walletId = walletId)) &&
    filter.delegationId.all fun delegationId => decide (limit.delegationId = delegationId)

/-- A counter in Redis: a date of the source is the number of its day since 1970. -/
inductive SpendKey where
  | daily (userId walletId : String) (day : Int)
  | weekly (userId walletId : String) (year week : Int)
  | lifetime (userId walletId : String)
  deriving DecidableEq

def getDailyKey (userId walletId : String) (t : Int) : SpendKey := .daily userId walletId (t / msPerDay)

/-- `getUTCDay()`, 0 on a Sunday. -/
def getUTCDay (days : Int) : Int := (days + 4) % 7

def thursday (days : Int) : Int :=
  let dayNum := if getUTCDay days = 0 then 7 else getUTCDay days
  days + 4 - dayNum

/-- From the year 100 on: an earlier one would be taken for a year of the twentieth century. -/
def getWeeklyKey (userId walletId : String) (t : Int) : SpendKey :=
  let d := thursday (t / msPerDay)
  let year := (civilFromDays d).year
  let yearStart := daysFromCivil ⟨year, 0, 1⟩
  -- the number of sevenths, rounded up
  let weekNo := (d - yearStart + 1 + 6) / 7
  .weekly userId walletId year weekNo

def getLifetimeKey (userId walletId : String) : SpendKey := .lifetime userId walletId

abbrev Counters := AList fun _ : SpendKey => Int × Option Int

namespace Counters
variable (counters : Counters) (now : Int) (key : SpendKey)

def live : Option (Int × Option Int) := (counters.lookup key).filter fun entry => entry.2.all fun t => decide (now < t)

/-- `MGET` of one key; what is not there is 0. -/
def read : Int := ((counters.live now key).map Prod.fst).getD 0

/-- `INCRBY` -/
def incrBy (amount : Int) : Counters :=
  counters.insert key (counters.read now key + amount, (counters.live now key).bind Prod.snd)

/-- `INCRBY`, and `EXPIRE` where the counter is new. -/
def incrByWithTtl (amount ttl : Int) : Counters :=
  if counters.read now key + amount = amount then counters.insert key (amount, some (now + ttl))
  else counters.incrBy now key amount

end Counters

def DAILY_TTL : Int := 172800 * 1000

def WEEKLY_TTL : Int := 691200 * 1000

/-- The script of `recordSpend`, at time `now`. -/
def recordSpend (counters : Counters) (now : Int) (userId walletId : String) (amount : Int) : Counters :=
  let counters := counters.incrByWithTtl now (getDailyKey userId walletId now) amount DAILY_TTL
  let counters := counters.incrByWithTtl now (getWeeklyKey userId walletId now) amount WEEKLY_TTL
  counters.incrBy now (getLifetimeKey userId walletId) amount

/-- What has been spent on the day, in the week and over all. -/
structure Spends where
  (daily weekly lifetime : Int)

def readSpends (counters : Counters) (now : Int) (userId walletId : String) : Spends where
  daily := counters.read now (getDailyKey userId walletId now)
  weekly := counters.read now (getWeeklyKey userId walletId now)
  lifetime := counters.read now (getLifetimeKey userId walletId)

/-! ### The check -/

structure SpendCheckResult where
  allowed : Bool
  reason : Option String := none
  limit : Option Int := none
  currentSpend : Option Int := none
  requestedAmount : Option Int := none

def exceeded (limit : Option Int) (spend amount : Int) : Option Int := limit.filter fun l => decide (l < spend + amount)

def checkPerTransaction (config : SpendLimit) (amount : Int) : Option SpendCheckResult :=
  (exceeded config.limitPerTransaction 0 amount).map fun limit =>
    { allowed := false, reason := some "Per-transaction limit exceeded", limit := some limit
      requestedAmount := some amount }

def checkCumulative (limit : Option Int) (spend amount : Int) (reason : String) : Option SpendCheckResult :=
  (exceeded limit spend amount).map fun limit =>
    { allowed := false, reason := some reason, limit := some limit, currentSpend := some spend
      requestedAmount := some amount }

def checkDaily (config : SpendLimit) (spends : Spends) (amount : Int) : Option SpendCheckResult :=
  checkCumulative config.limitDaily spends.daily amount "Daily limit exceeded"

def checkWeekly (config : SpendLimit) (spends : Spends) (amount : Int) : Option SpendCheckResult :=
  checkCumulative config.limitWeekly spends.weekly amount "Weekly limit exceeded"

def checkLifetime (config : SpendLimit) (spends : Spends) (amount : Int) : Option SpendCheckResult :=
  checkCumulative config.limitLifetime spends.lifetime amount "Lifetime limit exceeded"

def checkSpends (config : SpendLimit) (spends : Spends) (amount : Int) : SpendCheckResult :=
  (((checkDaily config spends amount).or (checkWeekly config spends amount)).or
    (checkLifetime config spends amount)).getD { allowed := true }

variable {limit : Option Int}

theorem exceeded_eq_none {spend amount : Int} :
    exceeded limit spend amount = none ↔ ∀ l, limit = some l → spend + amount ≤ l := by
  cases limit with
  | none => simp [exceeded]
  | some l => simp [exceeded, Option.filter_eq_none_iff]

theorem checkCumulative_eq_none {spend amount : Int} {reason : String} :
    checkCumulative limit spend amount reason = none ↔ ∀ l, limit = some l → spend + amount ≤ l := by
  rw [checkCumulative, Option.map_eq_none_iff, exceeded_eq_none]

variable {config : SpendLimit}

theorem allowed_checkSpends {spends : Spends} {amount : Int} (h : (checkSpends config spends amount).allowed = true) :
    (∀ l, config.limitDaily = some l → spends.daily + amount ≤ l) ∧
    (∀ l, config.limitWeekly = some l → spends.weekly + amount ≤ l) ∧
    ∀ l, config.limitLifetime = some l → spends.lifetime + amount ≤ l := by
  have hall : checkDaily config spends amount = none ∧ checkWeekly config spends amount = none ∧
      checkLifetime config spends amount = none := by
    have href : ∀ reason limit spend result, checkCumulative limit spend amount reason = some result →
        result.allowed = false := by
      intro reason limit spend result hres
      obtain ⟨l, -, rfl⟩ := Option.map_eq_some_iff.mp hres
      rfl
    unfold checkSpends at h
    cases hdaily : checkDaily config spends amount with
    | some result => simp [hdaily, href _ _ _ result hdaily] at h
    | none =>
      cases hweekly : checkWeekly config spends amount with
      | some result => simp [hdaily, hweekly, href _ _ _ result hweekly] at h
      | none =>
        cases hlifetime : checkLifetime config spends amount with
        | some result => simp [hdaily, hweekly, hlifetime, href _ _ _ result hlifetime] at h
        | none => exact ⟨rfl, rfl, rfl⟩
  exact ⟨checkCumulative_eq_none.mp hall.1, checkCumulative_eq_none.mp hall.2.1, checkCumulative_eq_none.mp hall.2.2⟩

theorem thursday_eq (days : Int) : thursday days = 7 * ((days + 3) / 7) := by
  have hday : getUTCDay days = (days + 4) % 7 := rfl
  unfold thursday
  by_cases hsunday : getUTCDay days = 0
  · simp only [hsunday, if_true]
    omega
  · simp only [hsunday, if_false]
    omega

theorem getWeeklyKey_eq_iff {userId walletId : String} {t t' : Int} :
    getWeeklyKey userId walletId t = getWeeklyKey userId walletId t' ↔
      (t / msPerDay + 3) / 7 = (t' / msPerDay + 3) / 7 := by
  simp only [getWeeklyKey, thursday_eq, SpendKey.weekly.injEq, true_and]
  constructor
  · rintro ⟨hyear, hweek⟩
    rw [hyear] at hweek
    omega
  · intro h
    rw [h]
    exact ⟨rfl, rfl⟩

end

/-! ### What the counters of a wallet say of what was spent

Every spend is counted where it is recorded, so at any time from then on the counters of the day, of the week and
of all say what was spent in them (`Tallies`): those of an earlier period have another name, and those of the
present one do not go before it is over. -/

open Data (msPerDay total total_later Bounded bounded_cons)

def day (t : Int) : Int := t / msPerDay

def isoWeek (t : Int) : Int := (t / msPerDay + 3) / 7

theorem day_mono (s t : Int) (h : s ≤ t) : day s ≤ day t := Int.ediv_le_ediv (by decide) h

theorem isoWeek_mono (s t : Int) (h : s ≤ t) : isoWeek s ≤ isoWeek t :=
  Int.ediv_le_ediv (by decide) (Int.add_le_add_right (day_mono s t h) 3)

def spendsAt (spends : List (Int × Int)) (t : Int) : Spends where
  daily := total day (day t) spends
  weekly := total isoWeek (isoWeek t) spends
  lifetime := total (fun _ => ()) () spends

/-- No more is spent, day by day, week by week and in all. -/
structure Spends.AtMost (s s' : Spends) : Prop where
  daily : s.daily ≤ s'.daily
  weekly : s.weekly ≤ s'.weekly
  lifetime : s.lifetime ≤ s'.lifetime

theorem spendsAt_later {spends : List (Int × Int)} {s t : Int} (hst : s ≤ t) (h : ∀ e ∈ spends, e.1 ≤ s ∧ 0 ≤ e.2) :
    (spendsAt spends t).AtMost (spendsAt spends s) where
  daily := total_later day_mono hst h
  weekly := total_later isoWeek_mono hst h
  lifetime := Int.le_refl _

namespace Counters
variable {counters : Counters} {now t amount ttl : Int} {key key' : SpendKey}

theorem read_insert (value : Int) (ends : Option Int) : (Counters.read (counters.insert key (value, ends)) t key) =
      if (ends.all fun e => decide (t < e)) = true then value else 0 := by
  simp only [read, live, AList.lookup_insert, Option.filter_some]
  split
  · rfl
  · rfl

theorem read_congr {counters' : Counters} (h : counters'.lookup key = counters.lookup key) :
    counters'.read t key = counters.read t key := by
  simp only [read, live, h]

theorem lookup_incrBy_ne (h : key' ≠ key) : (counters.incrBy now key amount).lookup key' = counters.lookup key' :=
  AList.lookup_insert_ne h

theorem lookup_incrByWithTtl_ne (h : key' ≠ key) :
    (counters.incrByWithTtl now key amount ttl).lookup key' = counters.lookup key' := by
  unfold incrByWithTtl
  split
  · exact AList.lookup_insert_ne h
  · exact lookup_incrBy_ne h

theorem live_of_read (h : counters.read t key ≠ 0) : ∃ entry, counters.lookup key = some entry ∧
    (entry.2.all fun e => decide (t < e)) = true := by
  cases hlive : counters.live t key with
  | none =>
    rw [read, hlive] at h
    exact absurd rfl h
  | some entry => exact ⟨entry, Option.filter_eq_some_iff.mp hlive⟩

theorem live_eq_some {entry : Int × Option Int} (h : counters.live t key = some entry) :
    counters.lookup key = some entry := (Option.filter_eq_some_iff.mp h).1

theorem read_incrBy (h : ∀ entry, counters.live now key = some entry → (entry.2.all fun e => decide (t < e)) = true) :
    (counters.incrBy now key amount).read t key = counters.read now key + amount := by
  rw [incrBy, read_insert, if_pos]
  cases hlive : counters.live now key with
  | none => rfl
  | some entry => exact h entry hlive

theorem read_incrByWithTtl (hkept : counters.read t key = counters.read now key) (httl : t < now + ttl) :
    (counters.incrByWithTtl now key amount ttl).read t key = counters.read now key + amount := by
  unfold incrByWithTtl
  split
  · rename_i hnew
    rw [read_insert, if_pos (by simpa using httl)]
    exact hnew.symm
  · rename_i hold
    refine read_incrBy ?_
    intro entry hlive
    have hne : counters.read t key ≠ 0 := by
      rw [hkept]
      intro h0
      exact hold (by omega)
    obtain ⟨entry', hlook', hends⟩ := live_of_read hne
    cases (live_eq_some hlive).symm.trans hlook'
    exact hends

end Counters

/-- From now on the counters say what was spent. -/
structure Tallies (userId walletId : String) (counters : Counters) (now : Int) (spends : List (Int × Int)) : Prop where
  read : ∀ t, now ≤ t → readSpends counters t userId walletId = spendsAt spends t
  lasting : ∀ entry, counters.lookup (getLifetimeKey userId walletId) = some entry → entry.2 = none

variable {userId walletId userId' walletId' : String} {counters : Counters} {now amount : Int} {spends : List (Int × Int)}

theorem Tallies.later {now' : Int} (h : Tallies userId walletId counters now spends) (hnow : now ≤ now') :
    Tallies userId walletId counters now' spends where
  read := fun t ht => h.read t (Int.le_trans hnow ht)
  lasting := h.lasting

theorem tallies_empty : Tallies userId walletId ∅ now [] where
  read := fun _ _ => rfl
  lasting := fun _ h => by cases h

def SpendKey.owner : SpendKey → String × String
  | .daily userId walletId _ => (userId, walletId)
  | .weekly userId walletId _ _ => (userId, walletId)
  | .lifetime userId walletId => (userId, walletId)

theorem lookup_recordSpend_ne (key : SpendKey) (h : key.owner ≠ (userId, walletId)) :
    (recordSpend counters now userId walletId amount).lookup key = counters.lookup key := by
  have hne : ∀ key', SpendKey.owner key' = (userId, walletId) → key ≠ key' := by
    rintro key' howner rfl
    exact h howner
  rw [recordSpend, Counters.lookup_incrBy_ne (hne (getLifetimeKey userId walletId) rfl),
    Counters.lookup_incrByWithTtl_ne (hne (getWeeklyKey userId walletId now) rfl),
    Counters.lookup_incrByWithTtl_ne (hne (getDailyKey userId walletId now) rfl)]

theorem Tallies.record_other {s : Int} (h : Tallies userId walletId counters now spends)
    (hother : (userId, walletId) ≠ (userId', walletId')) :
    Tallies userId walletId (recordSpend counters s userId' walletId' amount) now spends where
  read := by
    intro t ht
    rw [← h.read t ht]
    unfold readSpends
    rw [Counters.read_congr (lookup_recordSpend_ne (getDailyKey userId walletId t) hother),
      Counters.read_congr (lookup_recordSpend_ne (getWeeklyKey userId walletId t) hother),
      Counters.read_congr (lookup_recordSpend_ne (getLifetimeKey userId walletId) hother)]
  lasting := by
    rw [lookup_recordSpend_ne (getLifetimeKey userId walletId) hother]
    exact h.lasting

theorem read_period {key : Int → SpendKey} {period : Int → Int} {t ttl : Int}
    (hkey : ∀ t, key now = key t ↔ period now = period t)
    (hread : counters.read t (key t) = total period (period t) spends)
    (hnow : counters.read now (key now) = total period (period now) spends)
    (httl : period now = period t → t < now + ttl) :
    (counters.incrByWithTtl now (key now) amount ttl).read t (key t) =
      total period (period t) ((now, amount) :: spends) := by
  by_cases hper : period now = period t
  · have heq := (hkey t).mpr hper
    rw [heq, hper] at hnow
    rw [heq, Counters.read_incrByWithTtl (hread.trans hnow.symm) (httl hper), hnow, total, if_pos hper, add_comm]
  · have hother : key t ≠ key now := fun h => hper ((hkey t).mp h.symm)
    rw [Counters.read_congr (Counters.lookup_incrByWithTtl_ne hother), hread, total, if_neg hper, zero_add]

theorem getDailyKey_eq_iff {t t' : Int} :
    getDailyKey userId walletId t = getDailyKey userId walletId t' ↔ day t = day t' := by
  simp [getDailyKey, day]

theorem lasting_incrBy {key : SpendKey} (h : ∀ entry, counters.lookup key = some entry → entry.2 = none) :
    ∀ entry, (counters.incrBy now key amount).lookup key = some entry → entry.2 = none := by
  intro entry hentry
  rw [Counters.incrBy, AList.lookup_insert] at hentry
  cases hentry
  cases hlive : counters.live now key with
  | none => rfl
  | some entry => exact h entry (Counters.live_eq_some hlive)

theorem read_incrBy_lasting {key : SpendKey} (h : ∀ entry, counters.lookup key = some entry → entry.2 = none) (t : Int) :
    (counters.incrBy now key amount).read t key = counters.read now key + amount := by
  refine Counters.read_incrBy ?_
  intro entry hlive
  rw [h entry (Counters.live_eq_some hlive)]
  rfl

theorem Tallies.record (h : Tallies userId walletId counters now spends) :
    Tallies userId walletId (recordSpend counters now userId walletId amount) now ((now, amount) :: spends) := by
  -- each key is written once, by its own part of the script
  have hweekly : ∀ t, (counters.incrByWithTtl now (getDailyKey userId walletId now) amount DAILY_TTL).read t
      (getWeeklyKey userId walletId t) = counters.read t (getWeeklyKey userId walletId t) := fun t =>
    Counters.read_congr (Counters.lookup_incrByWithTtl_ne SpendKey.noConfusion)
  have hlifetime : ((counters.incrByWithTtl now (getDailyKey userId walletId now) amount DAILY_TTL).incrByWithTtl now
      (getWeeklyKey userId walletId now) amount WEEKLY_TTL).lookup (getLifetimeKey userId walletId) =
        counters.lookup (getLifetimeKey userId walletId) :=
    (Counters.lookup_incrByWithTtl_ne SpendKey.noConfusion).trans (Counters.lookup_incrByWithTtl_ne SpendKey.noConfusion)
  have hlasting := h.lasting
  rw [← hlifetime] at hlasting
  refine ⟨?_, lasting_incrBy hlasting⟩
  intro t ht
  have hread := h.read t ht
  have hnow := h.read now (Int.le_refl _)
  simp only [readSpends, spendsAt, Spends.mk.injEq] at hread hnow ⊢
  refine ⟨?_, ?_, ?_⟩
  · rw [recordSpend, Counters.read_congr (Counters.lookup_incrBy_ne SpendKey.noConfusion),
      Counters.read_congr (Counters.lookup_incrByWithTtl_ne SpendKey.noConfusion)]
    refine read_period (fun _ => getDailyKey_eq_iff) hread.1 hnow.1 ?_
    simp only [day, msPerDay, DAILY_TTL]
    omega
  · rw [recordSpend, Counters.read_congr (Counters.lookup_incrBy_ne SpendKey.noConfusion)]
    refine read_period (fun _ => getWeeklyKey_eq_iff) ((hweekly t).trans hread.2.1) ((hweekly now).trans hnow.2.1) ?_
    simp only [isoWeek, msPerDay, WEEKLY_TTL]
    omega
  · rw [recordSpend, read_incrBy_lasting hlasting, Counters.read_congr hlifetime, hnow.2.2, total, if_pos rfl, add_comm]

/-- No more was spent than the limits allow; a negative limit allows nothing. -/
structure Within (config : SpendLimit) (spends : List (Int × Int)) : Prop where
  daily : ∀ limit, config.limitDaily = some limit → Bounded day (max limit 0) spends
  weekly : ∀ limit, config.limitWeekly = some limit → Bounded isoWeek (max limit 0) spends
  lifetime : ∀ limit, config.limitLifetime = some limit → Bounded (fun _ => ()) (max limit 0) spends

/-- An amount within what is left of each limit. -/
structure Affordable (config : SpendLimit) (spends : Spends) (amount : Int) : Prop where
  daily : ∀ limit, config.limitDaily = some limit → spends.daily + amount ≤ limit
  weekly : ∀ limit, config.limitWeekly = some limit → spends.weekly + amount ≤ limit
  lifetime : ∀ limit, config.limitLifetime = some limit → spends.lifetime + amount ≤ limit

theorem within_nil (config : SpendLimit) : Within config [] where
  daily := fun _ _ _ => le_max_right _ _
  weekly := fun _ _ _ => le_max_right _ _
  lifetime := fun _ _ _ => le_max_right _ _

theorem bounded_room {P : Type} [DecidableEq P] {period : Int → P} {limit spent : Int}
    (h : Bounded period (max limit 0) spends) (hroom : spent + amount ≤ limit)
    (hspent : total period (period now) spends ≤ spent) : Bounded period (max limit 0) ((now, amount) :: spends) := by
  refine bounded_cons h (le_max_of_le_left ?_)
  omega

theorem Within.cons {s : Spends} (h : Within config spends) (hfits : Affordable config s amount)
    (hmost : (spendsAt spends now).AtMost s) : Within config ((now, amount) :: spends) where
  daily := fun limit hlimit => bounded_room (h.daily limit hlimit) (hfits.daily limit hlimit) hmost.daily
  weekly := fun limit hlimit => bounded_room (h.weekly limit hlimit) (hfits.weekly limit hlimit) hmost.weekly
  lifetime := fun limit hlimit => bounded_room (h.lifetime limit hlimit) (hfits.lifetime limit hlimit) hmost.lifetime

def limitAtMost (limit' limit : Option Int) : Bool := limit.all fun l => limit'.any fun l' => decide (l' ≤ l)

def SpendLimit.atMost (config' config : SpendLimit) : Bool :=
  limitAtMost config'.limitDaily config.limitDaily && limitAtMost config'.limitWeekly config.limitWeekly &&
    limitAtMost config'.limitLifetime config.limitLifetime

theorem room_atMost {limit' : Option Int} {n : Int} (h : limitAtMost limit' limit = true)
    (hroom : ∀ l, limit' = some l → n ≤ l) : ∀ l, limit = some l → n ≤ l := by
  rintro l rfl
  obtain ⟨l', rfl, hl⟩ := (Option.any_eq_true ..).mp h
  have hn := hroom l' rfl
  have hle := of_decide_eq_true hl
  omega

theorem affordable_of_allowed {config' : SpendLimit} {s : Spends}
    (hallow : (checkSpends config' s amount).allowed = true) (hmost : config'.atMost config = true) :
    Affordable config s amount := by
  obtain ⟨hdaily, hweekly, hlifetime⟩ := allowed_checkSpends hallow
  simp only [SpendLimit.atMost, Bool.and_eq_true] at hmost
  exact ⟨room_atMost hmost.1.1 hdaily, room_atMost hmost.1.2 hweekly, room_atMost hmost.2 hlifetime⟩

end Delego.Wallet
