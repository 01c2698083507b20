import Delego.Data.CodeUnits
import Delego.Data.Grouping
import Delego.Data.Months
import Mathlib.Algebra.Order.BigOperators.Group.List

/-! Merchants' orders settled in batches (`payments/settlement/batch.ts`).

The completed orders of a period are grouped by a key made of the merchant and the payout address, and each group is
settled under the merchant and the address of its first order. -/
namespace Delego.MerchantSettlement
open Delego.Data List

/-- An order of one merchant, to be settled. -/
structure CompletedMerchantOrder where
  (orderId merchantId payoutAddress : String)
  grossAmount : Int
  completedAt : Date
  status : String
  deriving DecidableEq

/-- What a merchant is paid for a period. -/
structure MerchantBatchSettlement where
  (settlementId merchantId payoutAddress : String)
  (periodStart periodEnd : Date)
  (totalGrossAmount platformFees netDisbursement : Int)
  orderCount : Nat
  orderIds : List String
  deriving DecidableEq

/-- `a < b` -/
def earlier : Date → Date → Bool
  | some a, some b => decide (a.val < b.val)
  | _, _ => false

/-- `a >= b` -/
def notEarlier : Date → Date → Bool
  | some a, some b => decide (b.val ≤ a.val)
  | _, _ => false

/-- `Date.UTC(year, month, day)`: a year of one or two digits is one of the twentieth century. -/
def dateUTC (year month day : Int) : Date :=
  newDate (makeDay (if 0 ≤ year ∧ year ≤ 99 then 1900 + year else year) month day * msPerDay)

/-- The UTC day of a date. -/
def getUtcDailySettlementWindow (referenceDate : Date) : Date × Date :=
  let startUtc := referenceDate.bind fun t => dateUTC (getUTCFullYear t.val) (getUTCMonth t.val) (getUTCDate t.val)
  (startUtc, startUtc.bind fun start => newDate (start.val + msPerDay))

namespace CompletedMerchantOrder

/-- A completed order of the period. -/
def taken (periodStart periodEnd : Date) (order : CompletedMerchantOrder) : Bool :=
  !(decide (order.status ≠ "completed") || earlier order.completedAt periodStart || notEarlier order.completedAt periodEnd)

def key (order : CompletedMerchantOrder) : String := s!"{order.merchantId}\u0000{order.payoutAddress}"

end CompletedMerchantOrder

/-- `group[0]!.merchantId` -/
def leader : List CompletedMerchantOrder → String
  | [] => ""
  | first :: _ => first.merchantId

/-- The orders of the period, grouped by their keys. -/
def groupsOf (localeCompare : String → String → Int) (orders : List CompletedMerchantOrder)
    (periodStart periodEnd : Date) : List (List CompletedMerchantOrder) :=
  ((groupedBy CompletedMerchantOrder.key
    (orders.filter (CompletedMerchantOrder.taken periodStart periodEnd))).map Prod.snd).insertionSort
    fun a b => localeCompare (leader a) (leader b) ≤ 0

def grossOf (group : List CompletedMerchantOrder) : Int := (group.map CompletedMerchantOrder.grossAmount).sum

/-- What a group is paid; the fee is truncated. -/
def settlementOf (periodStart periodEnd : Date) (platformFeeBps : Int) (iso : String) (first : CompletedMerchantOrder)
    (group : List CompletedMerchantOrder) : MerchantBatchSettlement :=
  let totalGrossAmount := grossOf group
  let platformFees := (totalGrossAmount * platformFeeBps).tdiv 10000
  { settlementId := s!"settlement-{first.merchantId}-{String.ofList (iso.toList.take 10)}"
    merchantId := first.merchantId
    payoutAddress := first.payoutAddress
    periodStart := periodStart
    periodEnd := periodEnd
    totalGrossAmount := totalGrossAmount
    platformFees := platformFees
    netDisbursement := totalGrossAmount - platformFees
    orderCount := group.length
    orderIds := sortStrings (group.map CompletedMerchantOrder.orderId) }

def settle (periodStart periodEnd : Date) (platformFeeBps : Int) :
    List CompletedMerchantOrder → Except String MerchantBatchSettlement
  | [] => .error "Cannot read properties of undefined (reading 'merchantId')"
  | first :: rest => do
    let iso ← toISOString periodStart
    return settlementOf periodStart periodEnd platformFeeBps iso first (first :: rest)

def settleAll (periodStart periodEnd : Date) (platformFeeBps : Int) :
    List (List CompletedMerchantOrder) → Except String (List MerchantBatchSettlement)
  | [] => .ok []
  | group :: rest => do
    let settlement ← settle periodStart periodEnd platformFeeBps group
    let settlements ← settleAll periodStart periodEnd platformFeeBps rest
    return settlement :: settlements

def calculateMerchantSettlements (localeCompare : String → String → Int) (orders : List CompletedMerchantOrder)
    (periodStart periodEnd : Date) (platformFeeBps : Int) : Except String (List MerchantBatchSettlement) :=
  if notEarlier periodStart periodEnd then .error "periodStart must be before periodEnd"
  else if platformFeeBps < 0 ∨ 10000 < platformFeeBps then .error "platformFeeBps must be between 0 and 10000"
  else
    match (orders.filter (CompletedMerchantOrder.taken periodStart periodEnd)).find? fun order =>
        decide (order.grossAmount < 0) with
    | some order => .error s!"negative gross amount for {order.orderId}"
    | none => settleAll periodStart periodEnd platformFeeBps (groupsOf localeCompare orders periodStart periodEnd)

variable {localeCompare : String → String → Int} {orders : List CompletedMerchantOrder} {periodStart periodEnd : Date}
  {platformFeeBps : Int} {order : CompletedMerchantOrder} {groups : List (List CompletedMerchantOrder)}
  {settlements : List MerchantBatchSettlement}

def Settles (periodStart periodEnd : Date) (platformFeeBps : Int) (group : List CompletedMerchantOrder)
    (settlement : MerchantBatchSettlement) : Prop :=
  ∃ first iso, group.head? = some first ∧ toISOString periodStart = .ok iso ∧
    settlement = settlementOf periodStart periodEnd platformFeeBps iso first group

variable {group : List CompletedMerchantOrder}

theorem settle_ok {settlement : MerchantBatchSettlement}
    (h : settle periodStart periodEnd platformFeeBps group = .ok settlement) :
    Settles periodStart periodEnd platformFeeBps group settlement := by
  cases group with
  | nil => cases h
  | cons first rest =>
    unfold settle at h
    cases hiso : toISOString periodStart with
    | error message =>
      simp [hiso] at h
    | ok iso =>
      rw [hiso] at h
      exact ⟨first, iso, rfl, hiso, (Except.ok.inj h).symm⟩

theorem settleAll_ok (h : settleAll periodStart periodEnd platformFeeBps groups = .ok settlements) :
    List.Forall₂ (Settles periodStart periodEnd platformFeeBps) groups settlements := by
  induction groups generalizing settlements with
  | nil =>
    cases h
    exact .nil
  | cons group rest ih =>
    unfold settleAll at h
    cases hfirst : settle periodStart periodEnd platformFeeBps group with
    | error message =>
      rw [hfirst] at h
      cases h
    | ok settlement =>
      cases hrest : settleAll periodStart periodEnd platformFeeBps rest with
      | error message =>
        rw [hfirst, hrest] at h
        cases h
      | ok others =>
        rw [hfirst, hrest] at h
        obtain rfl := Except.ok.inj h
        exact .cons (settle_ok hfirst) (ih hrest)

theorem settleAll_of_valid {t : Instant} (hgroups : [] ∉ groups) :
    ∃ settlements, settleAll (some t) periodEnd platformFeeBps groups = .ok settlements := by
  induction groups with
  | nil => exact ⟨[], rfl⟩
  | cons group rest ih =>
    obtain ⟨settlements, hsettlements⟩ := ih fun hnil => hgroups (mem_cons_of_mem _ hnil)
    cases group with
    | nil => exact absurd (mem_cons_self ..) hgroups
    | cons first others =>
      unfold settleAll
      rw [hsettlements]
      exact ⟨_, rfl⟩

theorem mem_groupsOf : group ∈ groupsOf localeCompare orders periodStart periodEnd ↔
      ∃ key, group = groupOf CompletedMerchantOrder.key key
        (orders.filter (CompletedMerchantOrder.taken periodStart periodEnd)) ∧ group ≠ [] := by
  rw [groupsOf, mem_insertionSort, mem_map]
  constructor
  · rintro ⟨⟨key, _⟩, hentry, rfl⟩
    exact ⟨key, mem_groupedBy.mp hentry⟩
  · rintro ⟨key, hgroup⟩
    exact ⟨(key, group), mem_groupedBy.mpr hgroup, rfl⟩

theorem calculate_ok (h : calculateMerchantSettlements localeCompare orders periodStart periodEnd platformFeeBps =
      .ok settlements) :
    List.Forall₂ (Settles periodStart periodEnd platformFeeBps)
      (groupsOf localeCompare orders periodStart periodEnd) settlements := by
  unfold calculateMerchantSettlements at h
  split at h
  · cases h
  · split at h
    · cases h
    · split at h
      · cases h
      · exact settleAll_ok h

variable {start stop : Instant}

theorem calculate_of_valid (hper : start.val < stop.val) (hfee : 0 ≤ platformFeeBps ∧ platformFeeBps ≤ 10000)
    (hgross : ∀ order ∈ orders, 0 ≤ order.grossAmount) :
    ∃ settlements, calculateMerchantSettlements localeCompare orders (some start) (some stop) platformFeeBps =
      .ok settlements := by
  have hgroups : [] ∉ groupsOf localeCompare orders (some start) (some stop) := by
    intro hnil
    obtain ⟨_, -, hne⟩ := mem_groupsOf.mp hnil
    exact hne rfl
  have hnone : (orders.filter (CompletedMerchantOrder.taken (some start) (some stop))).find?
      (fun order => decide (order.grossAmount < 0)) = none := by
    refine find?_eq_none.mpr fun order horder => ?_
    have hamount := hgross order (mem_of_mem_filter horder)
    simpa using hamount
  have hsett : ∃ settlements, settleAll (some start) (some stop) platformFeeBps
      (groupsOf localeCompare orders (some start) (some stop)) = .ok settlements := settleAll_of_valid hgroups
  obtain ⟨settlements, hsettlements⟩ := hsett
  refine ⟨settlements, ?_⟩
  rw [calculateMerchantSettlements, if_neg (by simpa [notEarlier] using hper), if_neg (by omega), hnone]
  exact hsettlements

theorem groups_with (order : CompletedMerchantOrder) :
    (groupsOf localeCompare orders periodStart periodEnd).filter (fun group => decide (order ∈ group)) =
      if order ∈ orders ∧ order.taken periodStart periodEnd = true then
        [groupOf CompletedMerchantOrder.key order.key (orders.filter (CompletedMerchantOrder.taken periodStart periodEnd))]
      else [] := by
  split
  · rename_i htaken
    refine perm_singleton.mp (((perm_insertionSort _ _).filter _).trans ?_)
    have hone := filter_groupedBy CompletedMerchantOrder.key (mem_filter.mpr htaken)
    rw [filter_map]
    exact (congrArg (map Prod.snd) hone) ▸ .refl _
  · rename_i htaken
    refine filter_eq_nil_iff.mpr fun group hgroup hmem => htaken ?_
    obtain ⟨key, rfl, -⟩ := mem_groupsOf.mp hgroup
    exact mem_filter.mp (mem_groupOf.mp (of_decide_eq_true hmem)).1

/-! ### Consecutive periods -/

/-- The settlements of one period after the other. -/
def settledOver (localeCompare : String → String → Int) (orders : List CompletedMerchantOrder) (platformFeeBps : Int) :
    List Instant → Except String (List (List CompletedMerchantOrder × MerchantBatchSettlement))
  | start :: stop :: rest => do
    let settlements ← calculateMerchantSettlements localeCompare orders (some start) (some stop) platformFeeBps
    let later ← settledOver localeCompare orders platformFeeBps (stop :: rest)
    return (groupsOf localeCompare orders (some start) (some stop)).zip settlements ++ later
  | _ => .ok []

/-- The period that a time is in. -/
def periodOf (t : Instant) : List Instant → Option (Instant × Instant)
  | start :: stop :: rest => if start.val ≤ t.val ∧ t.val < stop.val then some (start, stop) else periodOf t (stop :: rest)
  | _ => none

variable {boundaries : List Instant} {t : Instant} {settled : List (List CompletedMerchantOrder × MerchantBatchSettlement)}

theorem periodOf_contains {period : Instant × Instant} (h : periodOf t boundaries = some period) :
    period.1.val ≤ t.val ∧ t.val < period.2.val := by
  induction boundaries with
  | nil => cases h
  | cons start rest ih =>
    cases rest with
    | nil => cases h
    | cons stop rest =>
      rw [periodOf] at h
      split at h
      · rename_i hin
        cases h
        exact hin
      · exact ih h

/-- Some boundary comes before, and one after. -/
def Covered (boundaries : List Instant) (t : Instant) : Prop :=
  (∃ boundary ∈ boundaries, boundary.val ≤ t.val) ∧ ∃ boundary ∈ boundaries, t.val < boundary.val

def Increasing (boundaries : List Instant) : Prop := boundaries.Pairwise fun a b => a.val < b.val

theorem covered_iff (h : Increasing boundaries) : Covered boundaries t ↔ ∃ period, periodOf t boundaries = some period := by
  induction boundaries with
  | nil => exact iff_of_false (fun ⟨⟨_, hmem, _⟩, _⟩ => nomatch hmem) fun ⟨_, hper⟩ => nomatch hper
  | cons start rest ih =>
    obtain ⟨hstart, hrest⟩ := pairwise_cons.mp h
    cases rest with
    | nil =>
      refine iff_of_false ?_ fun ⟨_, hper⟩ => nomatch hper
      rintro ⟨⟨first, hfirst, hle⟩, last, hlast, hlt⟩
      rw [mem_singleton.mp hfirst] at hle
      rw [mem_singleton.mp hlast] at hlt
      omega
    | cons stop rest =>
      rw [periodOf]
      split
      · rename_i hin
        exact iff_of_true ⟨⟨start, mem_cons_self .., hin.1⟩,
          stop, mem_cons_of_mem _ (mem_cons_self ..), hin.2⟩ ⟨_, rfl⟩
      · rename_i hout
        rw [← ih hrest]
        constructor
        · rintro ⟨⟨first, hfirst, hle⟩, last, hlast, hlt⟩
          have hafter : start.val ≤ t.val := by
            obtain rfl | hlater := mem_cons.mp hfirst
            · exact hle
            · exact (hstart first hlater).le.trans hle
          refine ⟨⟨stop, mem_cons_self .., by omega⟩, last, ?_, hlt⟩
          obtain rfl | hlater := mem_cons.mp hlast
          · omega
          · exact hlater
        · rintro ⟨⟨first, hfirst, hle⟩, last, hlast, hlt⟩
          exact ⟨⟨first, mem_cons_of_mem _ hfirst, hle⟩, last, mem_cons_of_mem _ hlast, hlt⟩

theorem taken_iff (hcomp : order.status = "completed") (hat : order.completedAt = some t) :
    order.taken (some start) (some stop) = true ↔ start.val ≤ t.val ∧ t.val < stop.val := by
  simp [CompletedMerchantOrder.taken, hcomp, hat, earlier, notEarlier]

theorem mem_period (h : calculateMerchantSettlements localeCompare orders periodStart periodEnd platformFeeBps =
      .ok settlements) {entry : List CompletedMerchantOrder × MerchantBatchSettlement}
    (hentry : entry ∈ (groupsOf localeCompare orders periodStart periodEnd).zip settlements) :
    Settles periodStart periodEnd platformFeeBps entry.1 entry.2 :=
  (forall₂_iff_zip.mp (calculate_ok h)).2 hentry

theorem filter_period (h : calculateMerchantSettlements localeCompare orders periodStart periodEnd platformFeeBps =
      .ok settlements) (order : CompletedMerchantOrder) :
    (((groupsOf localeCompare orders periodStart periodEnd).zip settlements).filter fun entry =>
        decide (order ∈ entry.1)).map Prod.fst =
      (groupsOf localeCompare orders periodStart periodEnd).filter fun group => decide (order ∈ group) := by
  have hlen := (calculate_ok h).length_eq
  conv_rhs => rw [← map_fst_zip hlen.le]
  rw [filter_map]
  rfl

theorem settledOver_cons {rest : List Instant}
    (h : settledOver localeCompare orders platformFeeBps (start :: stop :: rest) = .ok settled) :
    ∃ settlements later,
      calculateMerchantSettlements localeCompare orders (some start) (some stop) platformFeeBps = .ok settlements ∧
      settledOver localeCompare orders platformFeeBps (stop :: rest) = .ok later ∧
      settled = (groupsOf localeCompare orders (some start) (some stop)).zip settlements ++ later := by
  rw [settledOver] at h
  cases hfirst : calculateMerchantSettlements localeCompare orders (some start) (some stop) platformFeeBps with
  | error message =>
    rw [hfirst] at h
    cases h
  | ok settlements =>
    cases hrest : settledOver localeCompare orders platformFeeBps (stop :: rest) with
    | error message =>
      rw [hfirst, hrest] at h
      cases h
    | ok later =>
      rw [hfirst, hrest] at h
      exact ⟨settlements, later, rfl, rfl, (Except.ok.inj h).symm⟩

theorem settledOver_ok (hfee : 0 ≤ platformFeeBps ∧ platformFeeBps ≤ 10000)
    (hgross : ∀ order ∈ orders, 0 ≤ order.grossAmount) (hboundaries : Increasing boundaries) :
    ∃ settled, settledOver localeCompare orders platformFeeBps boundaries = .ok settled := by
  induction boundaries with
  | nil => exact ⟨[], rfl⟩
  | cons start rest ih =>
    cases rest with
    | nil => exact ⟨[], rfl⟩
    | cons stop rest =>
      obtain ⟨hstart, hrest⟩ := pairwise_cons.mp hboundaries
      have hper : ∃ settlements, calculateMerchantSettlements localeCompare orders (some start) (some stop)
          platformFeeBps = .ok settlements := calculate_of_valid (hstart stop (mem_cons_self ..)) hfee hgross
      obtain ⟨settlements, hsettlements⟩ := hper
      obtain ⟨later, hlater⟩ := ih hrest
      rw [settledOver, hsettlements, hlater]
      exact ⟨_, rfl⟩

theorem mem_settledOver (h : settledOver localeCompare orders platformFeeBps boundaries = .ok settled)
    {entry : List CompletedMerchantOrder × MerchantBatchSettlement} (hentry : entry ∈ settled) :
    ∃ start stop : Instant, Settles (some start) (some stop) platformFeeBps entry.1 entry.2 ∧
      entry.1 ∈ groupsOf localeCompare orders (some start) (some stop) := by
  induction boundaries generalizing settled with
  | nil =>
    cases h
    cases hentry
  | cons start rest ih =>
    cases rest with
    | nil =>
      cases h
      cases hentry
    | cons stop rest =>
      obtain ⟨settlements, later, hfirst, hrest, rfl⟩ := settledOver_cons h
      obtain hhere | hlater := mem_append.mp hentry
      · exact ⟨start, stop, mem_period hfirst hhere, (of_mem_zip hhere).1⟩
      · exact ih hrest hlater

theorem filter_settledOver (hboundaries : Increasing boundaries) (horder : order ∈ orders)
    (hcomp : order.status = "completed") (hat : order.completedAt = some t)
    (h : settledOver localeCompare orders platformFeeBps boundaries = .ok settled) :
    (settled.filter fun entry => decide (order ∈ entry.1)).map Prod.fst =
      ((periodOf t boundaries).map fun period => groupOf CompletedMerchantOrder.key order.key
        (orders.filter (CompletedMerchantOrder.taken (some period.1) (some period.2)))).toList := by
  induction boundaries generalizing settled with
  | nil =>
    cases h
    rfl
  | cons start rest ih =>
    cases rest with
    | nil =>
      cases h
      rfl
    | cons stop rest =>
      obtain ⟨hstart, hrest⟩ := pairwise_cons.mp hboundaries
      obtain ⟨settlements, later, hfirst, hlater, rfl⟩ := settledOver_cons h
      have htaken : order.taken (some start) (some stop) = true ↔ start.val ≤ t.val ∧ t.val < stop.val :=
        taken_iff hcomp hat
      rw [filter_append, map_append, filter_period hfirst, groups_with, ih hrest hlater, periodOf]
      by_cases hin : start.val ≤ t.val ∧ t.val < stop.val
      · rw [if_pos ⟨horder, htaken.mpr hin⟩, if_pos hin]
        -- A later period would start after the order was completed.
        have hnone : periodOf t (stop :: rest) = none := by
          cases hper : periodOf t (stop :: rest) with
          | none => rfl
          | some period =>
            obtain ⟨⟨boundary, hmem, hle⟩, -⟩ := (covered_iff hrest).mpr ⟨period, hper⟩
            obtain rfl | hafter := mem_cons.mp hmem
            · omega
            · have := (pairwise_cons.mp hrest).1 boundary hafter
              omega
        rw [hnone]
        rfl
      · rw [if_neg fun h => hin (htaken.mp h.2), if_neg hin, nil_append]

/-- The order is in one group, as often as it is listed, and is settled as its own merchant's, at its own address. -/
def CountedOnce (orders : List CompletedMerchantOrder)
    (settled : List (List CompletedMerchantOrder × MerchantBatchSettlement)) (order : CompletedMerchantOrder) : Prop :=
  ∃ entry, (settled.filter fun entry => decide (order ∈ entry.1)) = [entry] ∧ entry.1.count order = orders.count order ∧
    entry.2.merchantId = order.merchantId ∧ entry.2.payoutAddress = order.payoutAddress

def Divides (group : List CompletedMerchantOrder) (settlement : MerchantBatchSettlement) : Prop :=
  settlement.orderIds.Perm (group.map CompletedMerchantOrder.orderId) ∧
    settlement.platformFees + settlement.netDisbursement = grossOf group ∧
    0 ≤ settlement.platformFees ∧ settlement.platformFees ≤ grossOf group

theorem Settles.divides {settlement : MerchantBatchSettlement}
    (h : Settles periodStart periodEnd platformFeeBps group settlement)
    (hfee : 0 ≤ platformFeeBps ∧ platformFeeBps ≤ 10000) (hgross : ∀ order ∈ group, 0 ≤ order.grossAmount) :
    Divides group settlement := by
  obtain ⟨first, iso, -, -, rfl⟩ := h
  have hnonneg : 0 ≤ grossOf group := by
    refine sum_nonneg fun x hx => ?_
    obtain ⟨order, horder, rfl⟩ := mem_map.mp hx
    exact hgross order horder
  have hprod : 0 ≤ grossOf group * platformFeeBps := mul_nonneg hnonneg hfee.1
  have hbound : grossOf group * platformFeeBps ≤ grossOf group * 10000 := mul_le_mul_of_nonneg_left hfee.2 hnonneg
  have hfees : (settlementOf periodStart periodEnd platformFeeBps iso first group).platformFees =
      grossOf group * platformFeeBps / 10000 := Int.tdiv_eq_ediv_of_nonneg hprod
  refine ⟨perm_insertionSort _ _, ?_, ?_, ?_⟩
  · simp only [settlementOf]
    omega
  · rw [hfees]
    omega
  · rw [hfees]
    omega

def firstOf (orders : List CompletedMerchantOrder) (period : Instant × Instant) (key : String) :
    Option CompletedMerchantOrder :=
  orders.find? fun order => order.taken (some period.1) (some period.2) && decide (order.key = key)

theorem head_groupOf (orders : List CompletedMerchantOrder) (period : Instant × Instant) (key : String) :
    (groupOf CompletedMerchantOrder.key key
      (orders.filter (CompletedMerchantOrder.taken (some period.1) (some period.2)))).head? =
      firstOf orders period key := by
  rw [groupOf, filter_filter, head?_filter, firstOf]
  congr 1
  funext order
  exact Bool.and_comm _ _

theorem countedOnce_iff (hboundaries : Increasing boundaries) (horder : order ∈ orders)
    (hcomp : order.status = "completed") (hat : order.completedAt = some t) {period : Instant × Instant}
    (hper : periodOf t boundaries = some period)
    (h : settledOver localeCompare orders platformFeeBps boundaries = .ok settled) :
    CountedOnce orders settled order ↔ ∀ first, firstOf orders period order.key = some first →
      first.merchantId = order.merchantId ∧ first.payoutAddress = order.payoutAddress := by
  have hfilter := filter_settledOver hboundaries horder hcomp hat h
  rw [hper, Option.map_some, Option.toList_some] at hfilter
  obtain ⟨entry, hone, hgroup⟩ := map_eq_singleton_iff.mp hfilter
  have hmem : entry ∈ settled := mem_of_mem_filter (hone ▸ mem_singleton_self entry)
  obtain ⟨start, stop, ⟨first, iso, hhead, -, hsettl⟩, -⟩ := mem_settledOver h hmem
  rw [hgroup, head_groupOf] at hhead
  have hcount : entry.1.count order = orders.count order := by
    have hin : order.taken (some period.1) (some period.2) = true :=
      (taken_iff hcomp hat).mpr (periodOf_contains hper)
    rw [hgroup, groupOf, count_filter (by simp), count_filter hin]
  constructor
  · rintro ⟨entry', hone', -, hmerchant, haddress⟩ other hother
    rw [hone] at hone'
    obtain rfl := (singleton_inj.mp hone')
    rw [hhead] at hother
    obtain rfl := Option.some.inj hother
    rw [hsettl] at hmerchant haddress
    exact ⟨hmerchant, haddress⟩
  · intro hfirst
    obtain ⟨hmerchant, haddress⟩ := hfirst first hhead
    refine ⟨entry, hone, hcount, ?_, ?_⟩
    · rw [hsettl]
      exact hmerchant
    · rw [hsettl]
      exact haddress

def Tiles (t : Instant) : Prop :=
  ∃ start stop : Instant, getUtcDailySettlementWindow (some t) = (some start, some stop) ∧
    start.val ≤ t.val ∧ t.val < stop.val ∧
    start.val = t.val / msPerDay * msPerDay ∧ stop.val = start.val + msPerDay

theorem newDate_some {x : Int} {date : Instant} (h : newDate x = some date) : date.val = x := by
  unfold newDate at h
  split at h
  · exact (congrArg Subtype.val (Option.some.inj h)).symm
  · cases h

theorem newDate_of_range {x : Int} (h : -8640000000000000 ≤ x ∧ x ≤ 8640000000000000) :
    ∃ date : Instant, newDate x = some date := by
  have hclip : timeClip x = some x := if_pos h
  exact ⟨⟨x, hclip⟩, dif_pos hclip⟩

theorem makeDay_century (year month day : Int) : makeDay year month day < makeDay (1900 + year) month day := by
  rw [makeDay_eq, makeDay_eq, days_inMonth, days_inMonth (12 * (1900 + year) + month)]
  have hnext := next_month (12 * year + month)
  have hlen := lengthOf_range (12 * year + month)
  have hlater := later_month (12 * year + month) 22799
  have hmonth : 12 * (1900 + year) + month = 12 * year + month + 1 + (22799 : Nat) := by
    push_cast
    ring
  rw [hmonth]
  omega

/-- The window of an instant is its day, but in the first century and at the end of the range of a date. -/
theorem tiles_iff (t : Instant) :
    Tiles t ↔ ¬ (0 ≤ getUTCFullYear t.val ∧ getUTCFullYear t.val ≤ 99) ∧ t.val < 8640000000000000 := by
  have hbounds := t.bounds
  constructor
  · rintro ⟨start, stop, hwindow, -, hpre, hstart, hstop⟩
    have hfirst : dateUTC (getUTCFullYear t.val) (getUTCMonth t.val) (getUTCDate t.val) = some start :=
      congrArg Prod.fst hwindow
    refine ⟨fun hyear => ?_, ?_⟩
    · rw [dateUTC, if_pos hyear] at hfirst
      have hday := newDate_some hfirst
      have hcentury := makeDay_century (getUTCFullYear t.val) (getUTCMonth t.val) (getUTCDate t.val)
      rw [makeDay_civil] at hcentury
      rw [hstart] at hday
      unfold msPerDay at hday hcentury
      omega
    · have := stop.bounds
      omega
  · rintro ⟨hyear, hlast⟩
    have hstart : ∃ start : Instant, newDate (t.val / msPerDay * msPerDay) = some start := by
      apply newDate_of_range
      unfold msPerDay
      omega
    obtain ⟨start, hstart⟩ := hstart
    have hvalue := newDate_some hstart
    have hstop : ∃ stop : Instant, newDate (start.val + msPerDay) = some stop := by
      apply newDate_of_range
      unfold msPerDay at hvalue ⊢
      omega
    obtain ⟨stop, hstop⟩ := hstop
    have hvalue' := newDate_some hstop
    refine ⟨start, stop, ?_, ?_, ?_, hvalue, hvalue'⟩
    · rw [getUtcDailySettlementWindow, Option.bind_some, dateUTC, if_neg hyear, makeDay_civil, hstart, Option.bind_some,
        hstop]
    · unfold msPerDay at hvalue
      omega
    · unfold msPerDay at hvalue hvalue'
      omega

/-- **Orders are settled once**, in settlements of their own merchants, and windows are days, exactly if the orders
of a key agree in merchant and address, and no year of the first century comes in. -/
theorem batches_count_once (localeCompare : String → String → Int) {orders : List CompletedMerchantOrder}
    (hgross : ∀ order ∈ orders, 0 ≤ order.grossAmount) {boundaries : List Instant} (hboundaries : Increasing boundaries)
    {platformFeeBps : Int} (hfee : 0 ≤ platformFeeBps ∧ platformFeeBps ≤ 10000) (referenceDate : Instant) :
    ((∃ settled, settledOver localeCompare orders platformFeeBps boundaries = .ok settled ∧
        (∀ order ∈ orders, order.status = "completed" → ∀ t, order.completedAt = some t → Covered boundaries t →
          CountedOnce orders settled order) ∧
        ∀ entry ∈ settled, Divides entry.1 entry.2) ∧
      Tiles referenceDate) ↔
      (∀ order ∈ orders, order.status = "completed" → ∀ t, order.completedAt = some t →
        ∀ period, periodOf t boundaries = some period → ∀ first, firstOf orders period order.key = some first →
          first.merchantId = order.merchantId ∧ first.payoutAddress = order.payoutAddress) ∧
        ¬ (0 ≤ getUTCFullYear referenceDate.val ∧ getUTCFullYear referenceDate.val ≤ 99) ∧
        referenceDate.val < 8640000000000000 := by
  rw [tiles_iff]
  refine and_congr_left fun _ => ?_
  have hcalculated : ∃ settled, settledOver localeCompare orders platformFeeBps boundaries = .ok settled :=
    settledOver_ok hfee hgross hboundaries
  obtain ⟨settled, hsett⟩ := hcalculated
  have hdivides : ∀ entry ∈ settled, Divides entry.1 entry.2 := by
    intro entry hentry
    obtain ⟨start, stop, hsetts, hgroup⟩ := mem_settledOver hsett hentry
    obtain ⟨key, hmems, -⟩ := mem_groupsOf.mp hgroup
    refine hsetts.divides hfee fun order horder => hgross order ?_
    rw [hmems] at horder
    exact mem_of_mem_filter (mem_groupOf.mp horder).1
  constructor
  · rintro ⟨_, heq, hcnt, -⟩ order horder hcomp t hat period hper
    rw [hsett] at heq
    obtain rfl := Except.ok.inj heq
    have hcovered := (covered_iff hboundaries).mpr ⟨period, hper⟩
    exact (countedOnce_iff hboundaries horder hcomp hat hper hsett).mp
      (hcnt order horder hcomp t hat hcovered)
  · intro hfirst
    refine ⟨settled, hsett, fun order horder hcomp t hat hcovered => ?_, hdivides⟩
    obtain ⟨period, hper⟩ := (covered_iff hboundaries).mp hcovered
    exact (countedOnce_iff hboundaries horder hcomp hat hper hsett).mpr
      (hfirst order horder hcomp t hat period hper)

def nextDay : Instant := ⟨1767312000000, rfl⟩

def orderOf (orderId merchantId payoutAddress : String) : CompletedMerchantOrder :=
  ⟨orderId, merchantId, payoutAddress, 100, some newYear, "completed"⟩

def confused : List CompletedMerchantOrder := [orderOf "first" "a" "b\u0000c", orderOf "second" "a\u0000b" "c"]

theorem increasing_nextDay : Increasing [newYear, nextDay] := by
  unfold Increasing
  decide

def dayAfterNext : Instant := ⟨1767398400000, rfl⟩

/-- Two merchants' orders on one day, and one of them has an order on the next day too. -/
def ordersOfTwoDays : List CompletedMerchantOrder :=
  [orderOf "first" "a" "b", orderOf "second" "c" "d", orderOf "third" "a" "b",
    { orderOf "fourth" "a" "b" with completedAt := some nextDay }]

theorem batches_count_once_two_days :
    (∃ settled, settledOver (fun _ _ => 0) ordersOfTwoDays 250 [newYear, nextDay, dayAfterNext] = .ok settled ∧
        (∀ order ∈ ordersOfTwoDays, order.status = "completed" → ∀ t, order.completedAt = some t →
          Covered [newYear, nextDay, dayAfterNext] t → CountedOnce ordersOfTwoDays settled order) ∧
        ∀ entry ∈ settled, Divides entry.1 entry.2) ∧
      Tiles newYear := by
  have hkeys : ∀ order ∈ ordersOfTwoDays, ∀ first ∈ ordersOfTwoDays,
    first.merchantId = order.merchantId ∧ first.payoutAddress = order.payoutAddress ∨ first.key ≠ order.key := by decide
  refine (batches_count_once (fun _ _ => 0) (by decide) (by unfold Increasing; decide) (by decide) newYear).mpr
    ⟨?_, by decide, by decide⟩
  intro order horder _ _ _ _ _ first hfirst
  have htaken := find?_some hfirst
  rw [Bool.and_eq_true, decide_eq_true_iff] at htaken
  exact (hkeys order horder first (mem_of_find?_eq_some hfirst)).resolve_right fun hne => hne htaken.2

/-- The second order is settled as the first one's merchant's. -/
theorem settled_as_another :
    calculateMerchantSettlements (fun _ _ => 0) confused (some newYear) (some nextDay) 250 =
      .ok [⟨"settlement-a-2026-01-01", "a", "b\u0000c", some newYear, some nextDay, 200, 5, 195, 2, ["first", "second"]⟩] ∧
    ¬ ∃ settled, settledOver (fun _ _ => 0) confused 250 [newYear, nextDay] = .ok settled ∧
      ∀ order ∈ confused, CountedOnce confused settled order := by
  refine ⟨by decide, ?_⟩
  rintro ⟨settled, hsett, hcnt⟩
  have horder : orderOf "second" "a\u0000b" "c" ∈ confused := by decide
  have hper : periodOf newYear [newYear, nextDay] = some (newYear, nextDay) := by decide
  have hfirst : firstOf confused (newYear, nextDay) (orderOf "second" "a\u0000b" "c").key =
      some (orderOf "first" "a" "b\u0000c") := by decide
  have heq := ((countedOnce_iff increasing_nextDay horder rfl rfl hper hsett).mp (hcnt _ horder) _ hfirst).1
  exact absurd heq (by decide)

end Delego.MerchantSettlement
