import Delego.Data.Table
import Delego.Data.Text
import Delego.Data.Ranges

/-! The spending policy of a user (`orchestrator/src/policies/evaluator.ts`).

Every rule is evaluated against one snapshot of the user's limits and rolling spend, and
every violated rule is reported. Amounts are integers of any size, times milliseconds; a
record of caps is listed in the order of its keys. -/
namespace Delego.Policies
open Delego.Data List

structure PolicyEvaluationContext where
  (userId merchantAddress category : String)
  (orderAmountStroops timestamp : Int)

structure PolicyEvaluationResult where
  allowed : Bool
  violatedRules : List String
  requiresDualApproval : Bool
  applicableDailyAllowanceRemainingStroops : Int

/-- Daily / weekly caps for one level (global or a single category). -/
structure SpendCaps where
  dailyStroops : Option Int := none
  weeklyStroops : Option Int := none
  deriving DecidableEq

/-- A user's spending policy. Any cap left undefined is not enforced. -/
structure SpendingPolicyLimits extends SpendCaps where
  perTransactionStroops : Option Int := none
  categoryCaps : Option (List (String × SpendCaps)) := none
  allowedMerchants : Option (List String) := none
  restrictedMerchants : Option (List String) := none
  allowedCategories : Option (List String) := none
  restrictedCategories : Option (List String) := none
  dualApprovalThresholdStroops : Option Int := none
  deriving DecidableEq

structure SpendTotals where
  (dailyStroops weeklyStroops categoryDailyStroops categoryWeeklyStroops : Int)

structure PolicyDataSource where
  getPolicy : String → Option SpendingPolicyLimits
  getSpendTotals : (userId category : String) → (asOf : Int) → SpendTotals

namespace PolicyRule

def NoPolicy : String := "no_policy"
def InvalidAmount : String := "invalid_amount"
def MerchantRestricted : String := "merchant_restricted"
def MerchantNotAllowed : String := "merchant_not_allowed"
def CategoryRestricted : String := "category_restricted"
def CategoryNotAllowed : String := "category_not_allowed"
def PerTransactionLimit : String := "per_transaction_limit"
def DailyLimit : String := "daily_limit"
def WeeklyLimit : String := "weekly_limit"
def CategoryDailyLimit : String := "category_daily_limit"
def CategoryWeeklyLimit : String := "category_weekly_limit"

end PolicyRule

def UNLIMITED_ALLOWANCE_STROOPS : Int := 9223372036854775807

def DAY_MS : Int := 24 * 60 * 60 * 1000
def WEEK_MS : Int := 7 * DAY_MS

def violation (rule explanation : String) : String := s!"{rule}: {explanation}"

def remaining (cap spent : Int) : Int :=
  let left := cap - spent
  if left > 0 then left else 0

section
variable (table : CaseTable)

def normalizeCategory (category : String) : String := table.toLowerCase (trim category)

def includesCategory (list : Option (List String)) (category : String) : Bool :=
  (list.getD []).any fun c => decide (normalizeCategory table c = category)

def findCategoryCaps (caps : Option (List (String × SpendCaps))) (category : String) : Option SpendCaps :=
  match caps with
  | none => none
  | some caps => (caps.find? fun entry => decide (normalizeCategory table entry.1 = category)).map Prod.snd

end

def merchantRules (policy : SpendingPolicyLimits) (merchantAddress : String) : List String :=
  if (policy.restrictedMerchants.getD []).contains merchantAddress then
    [violation PolicyRule.MerchantRestricted s!"merchant {merchantAddress} is blocked"]
  else if (policy.allowedMerchants.getD []).length > 0 &&
      !(policy.allowedMerchants.getD []).contains merchantAddress then
    [violation PolicyRule.MerchantNotAllowed s!"merchant {merchantAddress} is not on the allowed merchant list"]
  else []

def categoryRules (table : CaseTable) (policy : SpendingPolicyLimits) (category : String) : List String :=
  if includesCategory table policy.restrictedCategories category then
    [violation PolicyRule.CategoryRestricted s!"category \"{category}\" is blocked"]
  else if (policy.allowedCategories.getD []).length > 0 &&
      !includesCategory table policy.allowedCategories category then
    [violation PolicyRule.CategoryNotAllowed s!"category \"{category}\" is not on the allowed category list"]
  else []

def perTransactionRule (policy : SpendingPolicyLimits) (amount : Int) : List String :=
  match policy.perTransactionStroops with
  | some cap =>
    if amount > cap then
      [violation PolicyRule.PerTransactionLimit
        s!"order of {amount} stroops exceeds the per-transaction limit of {cap} stroops"]
    else []
  | none => []

def checkCap (amount : Int) (rule label : String) (cap : Option Int) (alreadySpent : Int) : List String :=
  match cap with
  | some cap =>
    if alreadySpent + amount ≤ cap then []
    else
      let left := remaining cap alreadySpent
      [violation rule
        (s!"order of {amount} stroops would bring {label} spend to {alreadySpent + amount} stroops, " ++
          s!"over the limit of {cap} stroops ({left} stroops left)")]
  | none => []

def violatedRules (table : CaseTable) (policy : SpendingPolicyLimits) (context : PolicyEvaluationContext)
    (category : String) (spent : SpendTotals) : List String :=
  let amount := context.orderAmountStroops
  let categoryCaps := findCategoryCaps table policy.categoryCaps category
  merchantRules policy context.merchantAddress ++ categoryRules table policy category ++ perTransactionRule policy amount ++
    checkCap amount PolicyRule.DailyLimit "24-hour" policy.dailyStroops spent.dailyStroops ++
    checkCap amount PolicyRule.WeeklyLimit "7-day" policy.weeklyStroops spent.weeklyStroops ++
    checkCap amount PolicyRule.CategoryDailyLimit s!"24-hour \"{category}\""
      (categoryCaps.bind SpendCaps.dailyStroops) spent.categoryDailyStroops ++
    checkCap amount PolicyRule.CategoryWeeklyLimit s!"7-day \"{category}\""
      (categoryCaps.bind SpendCaps.weeklyStroops) spent.categoryWeeklyStroops

def applicableDailyAllowance (policy : SpendingPolicyLimits) (categoryCaps : Option SpendCaps)
    (spent : SpendTotals) : Int :=
  let allowances :=
    (policy.dailyStroops.map fun cap => remaining cap spent.dailyStroops).toList ++
      ((categoryCaps.bind SpendCaps.dailyStroops).map fun cap => remaining cap spent.categoryDailyStroops).toList
  match allowances with
  | [] => UNLIMITED_ALLOWANCE_STROOPS
  | first :: rest => rest.foldl (fun least v => if v < least then v else least) first

def rejected (reason : String) : PolicyEvaluationResult where
  allowed := false
  violatedRules := [reason]
  requiresDualApproval := false
  applicableDailyAllowanceRemainingStroops := 0

def evaluateSpendingPolicy (table : CaseTable) (context : PolicyEvaluationContext) (source : PolicyDataSource) :
    PolicyEvaluationResult :=
  let amount := context.orderAmountStroops
  let category := normalizeCategory table context.category
  if amount ≤ 0 then rejected (violation PolicyRule.InvalidAmount s!"order amount must be positive, got {amount} stroops")
  else
    match source.getPolicy context.userId with
    | none =>
      let userId := context.userId
      rejected (violation PolicyRule.NoPolicy s!"user {userId} has no spending policy")
    | some policy =>
      let spent := source.getSpendTotals context.userId category context.timestamp
      let violated := violatedRules table policy context category spent
      { allowed := violated.isEmpty, violatedRules := violated
        requiresDualApproval := policy.dualApprovalThresholdStroops.any fun threshold => decide (amount ≥ threshold)
        applicableDailyAllowanceRemainingStroops :=
          applicableDailyAllowance policy (findCategoryCaps table policy.categoryCaps category) spent }

structure RecordedSpend where
  (userId category : String)
  (amountStroops time : Int)

structure InMemoryPolicyDataSource where
  policies : List (String × SpendingPolicyLimits)
  spends : List RecordedSpend

namespace InMemoryPolicyDataSource
variable (table : CaseTable) (source : InMemoryPolicyDataSource)

def setPolicy (userId : String) (policy : SpendingPolicyLimits) : InMemoryPolicyDataSource :=
  { source with policies := match lookup Prod.fst source.policies userId with
      | some _ => replace Prod.fst source.policies (userId, policy)
      | none => source.policies ++ [(userId, policy)] }

def recordSpend (spend : RecordedSpend) : InMemoryPolicyDataSource :=
  { source with spends := source.spends ++ [{ spend with category := normalizeCategory table spend.category }] }

def getPolicy (userId : String) : Option SpendingPolicyLimits := (lookup Prod.fst source.policies userId).map Prod.snd

/-- One spend added to the totals of a user's windows that end at `close`. -/
def addSpend (userId wanted : String) (close : Int) (totals : SpendTotals) (spend : RecordedSpend) : SpendTotals :=
  if spend.userId ≠ userId then totals
  else if spend.time > close then totals
  else
    let inDay := decide (spend.time > close - DAY_MS)
    let inWeek := decide (spend.time > close - WEEK_MS)
    let sameCategory := decide (spend.category = wanted)
    { dailyStroops := totals.dailyStroops + if inDay then spend.amountStroops else 0
      weeklyStroops := totals.weeklyStroops + if inWeek then spend.amountStroops else 0
      categoryDailyStroops := totals.categoryDailyStroops +
        if inDay && sameCategory then spend.amountStroops else 0
      categoryWeeklyStroops := totals.categoryWeeklyStroops +
        if inWeek && sameCategory then spend.amountStroops else 0 }

def getSpendTotals (userId category : String) (asOf : Int) : SpendTotals :=
  source.spends.foldl (addSpend userId (normalizeCategory table category) asOf) ⟨0, 0, 0, 0⟩

def toPolicyDataSource : PolicyDataSource := ⟨source.getPolicy, source.getSpendTotals table⟩

end InMemoryPolicyDataSource

/-! ### Spending limits over whole histories

An order is recorded exactly when the policy allows it. The evaluator looks at the windows that end at the order's own
time only; as orders come in the order of their times, that bounds every window (`Data/Ranges.lean`). -/

variable {table : CaseTable}

def PolicyEvaluationContext.spend (context : PolicyEvaluationContext) : RecordedSpend :=
  ⟨context.userId, context.category, context.orderAmountStroops, context.timestamp⟩

def submit (table : CaseTable) (source : InMemoryPolicyDataSource) (context : PolicyEvaluationContext) :
    InMemoryPolicyDataSource :=
  if (evaluateSpendingPolicy table context (source.toPolicyDataSource table)).allowed then
    source.recordSpend table context.spend
  else source

def history (table : CaseTable) (policies : List (String × SpendingPolicyLimits))
    (orders : List PolicyEvaluationContext) : InMemoryPolicyDataSource :=
  orders.foldl (submit table) ⟨policies, []⟩

/-- What was spent after `t - width`, up to and at `t`, of the spends of a kind. -/
def spent (kind : RecordedSpend → Bool) (width : Int) (spends : List RecordedSpend) (t : Int) : Int :=
  windowSum RecordedSpend.time RecordedSpend.amountStroops width (spends.filter kind) t

def ofUser (userId : String) (spend : RecordedSpend) : Bool := decide (spend.userId = userId)

def ofCategory (userId category : String) (spend : RecordedSpend) : Bool :=
  decide (spend.userId = userId ∧ spend.category = category)

theorem spent_cons (kind : RecordedSpend → Bool) (width t : Int) (spend : RecordedSpend)
    (spends : List RecordedSpend) : spent kind width (spend :: spends) t =
      (if kind spend ∧ t - width < spend.time ∧ spend.time ≤ t then spend.amountStroops else 0) +
        spent kind width spends t := by
  unfold spent
  by_cases h : kind spend = true
  · rw [filter_cons_of_pos h, windowSum_cons]
    simp [h]
  · rw [filter_cons_of_neg h]
    simp [h]

theorem foldl_addSpend (userId wanted : String) (close : Int) (spends : List RecordedSpend) (totals : SpendTotals) :
    spends.foldl (InMemoryPolicyDataSource.addSpend userId wanted close) totals =
      { dailyStroops := totals.dailyStroops + spent (ofUser userId) DAY_MS spends close
        weeklyStroops := totals.weeklyStroops + spent (ofUser userId) WEEK_MS spends close
        categoryDailyStroops := totals.categoryDailyStroops + spent (ofCategory userId wanted) DAY_MS spends close
        categoryWeeklyStroops := totals.categoryWeeklyStroops +
          spent (ofCategory userId wanted) WEEK_MS spends close } := by
  induction spends generalizing totals with
  | nil => simp [spent, windowSum_nil]
  | cons spend rest ih =>
    rw [foldl_cons, ih]
    simp only [spent_cons, ofUser, ofCategory, InMemoryPolicyDataSource.addSpend, decide_eq_true_eq]
    by_cases huser : spend.userId = userId
    · by_cases hlate : spend.time > close
      · simp [huser, Int.not_le.mpr hlate, hlate]
      · have htime : spend.time ≤ close := Int.not_lt.mp hlate
        simp [huser, hlate, htime, Int.add_assoc, and_comm]
    · simp [huser]

theorem getSpendTotals_eq (source : InMemoryPolicyDataSource) (userId category : String) (asOf : Int) :
    source.getSpendTotals table userId category asOf =
      { dailyStroops := spent (ofUser userId) DAY_MS source.spends asOf
        weeklyStroops := spent (ofUser userId) WEEK_MS source.spends asOf
        categoryDailyStroops := spent (ofCategory userId (normalizeCategory table category)) DAY_MS source.spends asOf
        categoryWeeklyStroops :=
          spent (ofCategory userId (normalizeCategory table category)) WEEK_MS source.spends asOf } := by
  rw [InMemoryPolicyDataSource.getSpendTotals, foldl_addSpend]
  simp only [Int.zero_add]

theorem checkCap_nil {amount alreadySpent cap : Int} {rule label : String}
    (h : checkCap amount rule label (some cap) alreadySpent = []) : alreadySpent + amount ≤ cap := by
  simp only [checkCap] at h
  split at h
  · assumption
  · cases h

def Room (spends : List RecordedSpend) (context : PolicyEvaluationContext) (kind : RecordedSpend → Bool)
    (width : Int) (cap : Option Int) : Prop :=
  ∀ limit, cap = some limit → spent kind width spends context.timestamp + context.orderAmountStroops ≤ limit

/-- An order within each limit of its policy. -/
structure Allowed (table : CaseTable) (source : InMemoryPolicyDataSource) (context : PolicyEvaluationContext)
    (policy : SpendingPolicyLimits) : Prop where
  positive : 0 < context.orderAmountStroops
  daily : Room source.spends context (ofUser context.userId) DAY_MS policy.dailyStroops
  weekly : Room source.spends context (ofUser context.userId) WEEK_MS policy.weeklyStroops
  category : ∀ {caps}, findCategoryCaps table policy.categoryCaps (normalizeCategory table context.category) = some caps →
    Room source.spends context (ofCategory context.userId (normalizeCategory table context.category)) DAY_MS
        caps.dailyStroops ∧
      Room source.spends context (ofCategory context.userId (normalizeCategory table context.category)) WEEK_MS
        caps.weeklyStroops

theorem allowed_of_evaluate {source : InMemoryPolicyDataSource} {context : PolicyEvaluationContext}
    (h : (evaluateSpendingPolicy table context (source.toPolicyDataSource table)).allowed = true) :
    ∃ policy, source.getPolicy context.userId = some policy ∧ Allowed table source context policy := by
  unfold evaluateSpendingPolicy at h
  dsimp only [InMemoryPolicyDataSource.toPolicyDataSource] at h
  split at h
  · cases h
  rename_i hamount
  split at h
  · cases h
  rename_i policy hpolicy
  have htwice : normalizeCategory table (normalizeCategory table context.category) =
      normalizeCategory table context.category := normalize_normalize table context.category
  simp only [List.isEmpty_iff, violatedRules, List.append_eq_nil_iff, getSpendTotals_eq, htwice] at h
  obtain ⟨⟨⟨⟨_, hdaily⟩, hweekly⟩, hcategoryDaily⟩, hcategoryWeekly⟩ := h
  refine ⟨policy, hpolicy, Int.not_le.mp hamount, ?_, ?_, ?_⟩
  · intro limit hlimit
    rw [hlimit] at hdaily
    exact checkCap_nil hdaily
  · intro limit hlimit
    rw [hlimit] at hweekly
    exact checkCap_nil hweekly
  · intro caps hcaps
    rw [hcaps] at hcategoryDaily hcategoryWeekly
    refine ⟨?_, ?_⟩
    · intro limit hlimit
      rw [Option.bind_some, hlimit] at hcategoryDaily
      exact checkCap_nil hcategoryDaily
    · intro limit hlimit
      rw [Option.bind_some, hlimit] at hcategoryWeekly
      exact checkCap_nil hcategoryWeekly

def Limited (spends : List RecordedSpend) (kind : RecordedSpend → Bool) (width : Int) (cap : Option Int) : Prop :=
  ∀ limit, cap = some limit → Capped RecordedSpend.time RecordedSpend.amountStroops width limit (spends.filter kind)

/-- The spends of a user keep to the user's policy. -/
structure KeepsTo (table : CaseTable) (spends : List RecordedSpend) (userId : String)
    (policy : SpendingPolicyLimits) : Prop where
  daily : Limited spends (ofUser userId) DAY_MS policy.dailyStroops
  weekly : Limited spends (ofUser userId) WEEK_MS policy.weeklyStroops
  categoryDaily : ∀ {category caps}, findCategoryCaps table policy.categoryCaps category = some caps →
    Limited spends (ofCategory userId category) DAY_MS caps.dailyStroops
  categoryWeekly : ∀ {category caps}, findCategoryCaps table policy.categoryCaps category = some caps →
    Limited spends (ofCategory userId category) WEEK_MS caps.weeklyStroops

/-- What is spent keeps to the policies. -/
structure Sound (table : CaseTable) (source : InMemoryPolicyDataSource) : Prop where
  positive : ∀ spend ∈ source.spends, 0 ≤ spend.amountStroops
  keeps : ∀ {userId policy}, source.getPolicy userId = some policy → KeepsTo table source.spends userId policy

section
variable {source : InMemoryPolicyDataSource} {context : PolicyEvaluationContext}

theorem limited_append {spends : List RecordedSpend} {x : RecordedSpend} {kind : RecordedSpend → Bool}
    {width : Int} {cap : Option Int} (h : Limited spends kind width cap)
    (hpos : ∀ spend ∈ spends, 0 ≤ spend.amountStroops) (hlast : ∀ spend ∈ spends, spend.time ≤ x.time)
    (hroom : kind x = true → ∀ limit, cap = some limit → spent kind width spends x.time + x.amountStroops ≤ limit) :
    Limited (spends ++ [x]) kind width cap := by
  intro limit hlimit
  rw [filter_append]
  by_cases hkind : kind x = true
  · rw [filter_cons_of_pos hkind, filter_nil]
    apply (h limit hlimit).append
    · intro spend hspend
      exact hpos spend (mem_of_mem_filter hspend)
    · intro spend hspend
      exact hlast spend (mem_of_mem_filter hspend)
    · exact hroom hkind limit hlimit
  · rw [filter_cons_of_neg hkind, filter_nil, append_nil]
    exact h limit hlimit

theorem sound_submit (h : Sound table source) (hlast : ∀ spend ∈ source.spends, spend.time ≤ context.timestamp) :
    Sound table (submit table source context) := by
  unfold submit
  split
  · rename_i hallow
    obtain ⟨policy, hpolicy, hroom⟩ := allowed_of_evaluate hallow
    refine ⟨?_, ?_⟩
    · intro spend hspend
      rcases mem_append.mp hspend with hspend | hspend
      · exact h.positive spend hspend
      · rw [mem_singleton.mp hspend]
        exact le_of_lt hroom.positive
    · intro userId policy' hpolicy'
      have hkeeps := h.keeps hpolicy'
      -- The order counts against the caps of its own user and category only.
      have heq : context.userId = userId → policy = policy' := by
        rintro rfl
        exact Option.some.inj (hpolicy.symm.trans hpolicy')
      refine ⟨?_, ?_, ?_, ?_⟩
      · refine limited_append hkeeps.daily h.positive hlast ?_
        intro huser
        obtain rfl : context.userId = userId := of_decide_eq_true huser
        exact heq rfl ▸ hroom.daily
      · refine limited_append hkeeps.weekly h.positive hlast ?_
        intro huser
        obtain rfl : context.userId = userId := of_decide_eq_true huser
        exact heq rfl ▸ hroom.weekly
      · intro category caps hcaps
        refine limited_append (hkeeps.categoryDaily hcaps) h.positive hlast ?_
        intro hkind
        obtain ⟨rfl, rfl⟩ : context.userId = userId ∧ normalizeCategory table context.category = category :=
          of_decide_eq_true hkind
        rw [← heq rfl] at hcaps
        exact (hroom.category hcaps).1
      · intro category caps hcaps
        refine limited_append (hkeeps.categoryWeekly hcaps) h.positive hlast ?_
        intro hkind
        obtain ⟨rfl, rfl⟩ : context.userId = userId ∧ normalizeCategory table context.category = category :=
          of_decide_eq_true hkind
        rw [← heq rfl] at hcaps
        exact (hroom.category hcaps).2
  · exact h

theorem submit_policies : (submit table source context).policies = source.policies := by
  unfold submit
  split
  · rfl
  · rfl

theorem time_submit {close : Int} (hearlier : ∀ spend ∈ source.spends, spend.time ≤ close)
    (horder : context.timestamp ≤ close) :
    ∀ spend ∈ (submit table source context).spends, spend.time ≤ close := by
  intro spend hspend
  unfold submit at hspend
  split at hspend
  · rcases mem_append.mp hspend with hspend | hspend
    · exact hearlier spend hspend
    · rw [mem_singleton.mp hspend]
      exact horder
  · exact hearlier spend hspend

end

theorem sound_foldl {source : InMemoryPolicyDataSource} {orders : List PolicyEvaluationContext}
    (h : Sound table source) (hearlier : ∀ spend ∈ source.spends, ∀ order ∈ orders, spend.time ≤ order.timestamp)
    (hsorted : orders.Pairwise fun first later => first.timestamp ≤ later.timestamp) :
    Sound table (orders.foldl (submit table) source) ∧ (orders.foldl (submit table) source).policies = source.policies := by
  induction orders generalizing source with
  | nil => exact ⟨h, rfl⟩
  | cons order rest ih =>
    obtain ⟨hfirst, hrest⟩ := pairwise_cons.mp hsorted
    have hsubmit : Sound table (submit table source order) :=
      sound_submit h fun spend hspend => hearlier spend hspend order mem_cons_self
    have hlater : ∀ spend ∈ (submit table source order).spends, ∀ later ∈ rest,
        spend.time ≤ later.timestamp := by
      intro spend hspend later hlater
      refine time_submit ?_ (hfirst later hlater) spend hspend
      intro earlier hearlier'
      exact hearlier earlier hearlier' later (mem_cons_of_mem order hlater)
    obtain ⟨hsound, hpolicies⟩ := ih hsubmit hlater hrest
    exact ⟨hsound, hpolicies.trans submit_policies⟩

variable (table) in
theorem sound_history (policies : List (String × SpendingPolicyLimits)) {orders : List PolicyEvaluationContext}
    (hsorted : orders.Pairwise fun first later => first.timestamp ≤ later.timestamp) :
    Sound table (history table policies orders) ∧ (history table policies orders).policies = policies := by
  apply sound_foldl
  · refine ⟨?_, ?_⟩
    · intro spend hspend
      cases hspend
    · intro userId policy _
      refine ⟨?_, ?_, ?_, ?_⟩
      · exact fun _ _ => Capped.nil
      · exact fun _ _ => Capped.nil
      · exact fun _ _ _ => Capped.nil
      · exact fun _ _ _ => Capped.nil
  · intro spend hspend
    cases hspend
  · exact hsorted

/-- **Rolling limits.** At every instant a user's spend of the last day and week is within the caps of the user's
policy, and that of each category within its caps. -/
theorem rolling_limits {policies : List (String × SpendingPolicyLimits)} {orders : List PolicyEvaluationContext}
    (hsorted : orders.Pairwise fun first later => first.timestamp ≤ later.timestamp)
    {userId : String} {policy : SpendingPolicyLimits}
    (hpolicy : (⟨policies, []⟩ : InMemoryPolicyDataSource).getPolicy userId = some policy) (t : Int) :
    (∀ cap, policy.dailyStroops = some cap →
      spent (ofUser userId) DAY_MS (history table policies orders).spends t ≤ max cap 0) ∧
    (∀ cap, policy.weeklyStroops = some cap →
      spent (ofUser userId) WEEK_MS (history table policies orders).spends t ≤ max cap 0) ∧
    ∀ category caps, findCategoryCaps table policy.categoryCaps (normalizeCategory table category) = some caps →
      (∀ cap, caps.dailyStroops = some cap →
        spent (ofCategory userId (normalizeCategory table category)) DAY_MS
          (history table policies orders).spends t ≤ max cap 0) ∧
      (∀ cap, caps.weeklyStroops = some cap →
        spent (ofCategory userId (normalizeCategory table category)) WEEK_MS
          (history table policies orders).spends t ≤ max cap 0) := by
  obtain ⟨hsound, hpolicies⟩ := sound_history table policies hsorted
  have hkeeps : KeepsTo table (history table policies orders).spends userId policy := by
    apply hsound.keeps
    rw [InMemoryPolicyDataSource.getPolicy, hpolicies]
    exact hpolicy
  refine ⟨?_, ?_, ?_⟩
  · intro cap hcap
    exact hkeeps.daily cap hcap t
  · intro cap hcap
    exact hkeeps.weekly cap hcap t
  · intro category caps hcaps
    refine ⟨?_, ?_⟩
    · intro cap hcap
      exact hkeeps.categoryDaily hcaps cap hcap t
    · intro cap hcap
      exact hkeeps.categoryWeekly hcaps cap hcap t

/-- A hundred stroops a day, sixty of them for food. -/
def frugal : SpendingPolicyLimits where
  dailyStroops := some 100
  categoryCaps := some [("Food", { dailyStroops := some 60 })]

def order (category : String) (amount timestamp : Int) : PolicyEvaluationContext :=
  ⟨"user-1", "merchant-1", category, amount, timestamp⟩

/-- The third order would exceed the cap of its category, the fourth comes a day later. -/
def orders : List PolicyEvaluationContext :=
  [order "food" 50 0, order "books" 40 1000, order " FOOD " 20 2000, order "Food" 60 86400000]

theorem rolling_limits_at_frugal : (history ascii [("user-1", frugal)] orders).spends.length = 3 ∧
      ∀ t, spent (ofUser "user-1") DAY_MS (history ascii [("user-1", frugal)] orders).spends t ≤ 100 := by
  refine ⟨by decide, ?_⟩
  intro t
  have hsorted : orders.Pairwise fun first later => first.timestamp ≤ later.timestamp := by decide
  have hpolicy : (⟨[("user-1", frugal)], []⟩ : InMemoryPolicyDataSource).getPolicy "user-1" = some frugal := by decide
  exact (rolling_limits hsorted hpolicy t).1 100 rfl

/-- A cap below zero is exceeded by spending nothing. -/
theorem negative_cap_exceeded :
    (⟨[("user-1", { dailyStroops := some (-1) })], []⟩ : InMemoryPolicyDataSource).getPolicy "user-1" =
        some { dailyStroops := some (-1) } ∧
      ¬spent (ofUser "user-1") DAY_MS (history ascii [("user-1", { dailyStroops := some (-1) })] []).spends 0 ≤ -1 := by
  decide

end Delego.Policies
