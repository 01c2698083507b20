import Delego.MerchantSettlement.Batch

/-! The identifiers of settlements.

An identifier names the merchant and the first ten characters of the start of the period. The groups of a period are
told apart by their addresses too, which the identifier leaves out; and ten characters hold the day of a year of four
digits, but only the month of a year that is written with six. -/
namespace Delego.MerchantSettlement
open Delego.Data List

/-- `periodStart.toISOString().slice(0, 10)` -/
def dayChars (t : Int) : List Char := (isoChars t).take 10

def FourDigits (t : Instant) : Prop := 0 ≤ getUTCFullYear t.val ∧ getUTCFullYear t.val ≤ 9999

def SameDay (t u : Instant) : Prop := t.val / msPerDay = u.val / msPerDay

def SameMonth (t u : Instant) : Prop := getUTCFullYear t.val = getUTCFullYear u.val ∧ getUTCMonth t.val = getUTCMonth u.val

variable {t u : Instant}

theorem year_bound (t : Instant) : (civil t.val).year.natAbs < 10 ^ 6 := by
  obtain ⟨-, -, hlow, hhigh⟩ := civilFromDays_bounds (t.val / msPerDay)
  have htime := t.bounds
  simp only [civil, msPerDay] at *
  omega

theorem civil_bounds (t : Instant) :
    (0 ≤ (civil t.val).month ∧ (civil t.val).month < 12) ∧ 1 ≤ (civil t.val).day ∧ (civil t.val).day ≤ 31 := by
  obtain ⟨hmonth, hday, -⟩ := civilFromDays_bounds (t.val / msPerDay)
  exact ⟨hmonth, hday⟩

theorem dayChars_four (h : FourDigits t) :
    dayChars t.val = pad 4 (civil t.val).year.toNat ++ '-' :: pad 2 ((civil t.val).month + 1).toNat ++
      '-' :: pad 2 (civil t.val).day.toNat := by
  have hyear : yearChars (civil t.val).year = pad 4 (civil t.val).year.toNat := if_pos h
  rw [dayChars, isoChars, hyear]
  simp [take_append, take_of_length_le]

theorem dayChars_six (h : ¬ FourDigits t) : ∃ sign, (sign = '+' ∨ sign = '-') ∧
    dayChars t.val = sign :: pad 6 (civil t.val).year.natAbs ++ '-' :: pad 2 ((civil t.val).month + 1).toNat ∧
    yearChars (civil t.val).year = sign :: pad 6 (civil t.val).year.natAbs := by
  have hyear : yearChars (civil t.val).year =
      (if (civil t.val).year < 0 then '-' else '+') :: pad 6 (civil t.val).year.natAbs := if_neg h
  refine ⟨_, ?_, ?_, hyear⟩
  · split
    · exact .inr rfl
    · exact .inl rfl
  · rw [dayChars, isoChars, hyear]
    simp [take_append, take_of_length_le]

theorem length_dayChars (t : Instant) : (dayChars t.val).length = 10 := by
  by_cases h : FourDigits t
  · simp [dayChars_four h]
  · obtain ⟨sign, -, hchars, -⟩ := dayChars_six h
    simp [hchars]

theorem sameDay_iff : SameDay t u ↔ civil t.val = civil u.val := by
  refine ⟨congrArg civilFromDays, fun h => ?_⟩
  rw [SameDay, ← daysFromCivil_civilFromDays (t.val / msPerDay), ← daysFromCivil_civilFromDays (u.val / msPerDay)]
  exact congrArg daysFromCivil h

theorem dayChars_four_ne_six (ht : FourDigits t) (hu : ¬ FourDigits u) : dayChars t.val ≠ dayChars u.val := by
  intro heq
  obtain ⟨sign, hsign, hchars, -⟩ := dayChars_six hu
  rw [dayChars_four ht, hchars, append_assoc, cons_append] at heq
  have hfirst := congrArg (take 4) heq
  rw [take_append_of_le_length (by simp), take_of_length_le (by simp), cons_append,
    take_succ_cons] at hfirst
  have hmem : sign ∈ pad 4 (civil t.val).year.toNat := by
    rw [hfirst]
    exact mem_cons_self ..
  obtain ⟨m, hm, rfl⟩ := mem_pad hmem
  have hdigit : ∀ m < 10, digit m ≠ '+' ∧ digit m ≠ '-' := by decide
  exact hsign.elim (hdigit m hm).1 (hdigit m hm).2

theorem dayChars_eq_iff :
    dayChars t.val = dayChars u.val ↔ SameDay t u ∨ ¬ FourDigits t ∧ ¬ FourDigits u ∧ SameMonth t u := by
  constructor
  · intro heq
    obtain ⟨hmonth, hday⟩ := civil_bounds t
    obtain ⟨hmonth', hday'⟩ := civil_bounds u
    by_cases ht : FourDigits t
    · by_cases hu : FourDigits u
      · left
        rw [dayChars_four ht, dayChars_four hu, append_assoc, append_assoc] at heq
        obtain ⟨hyears, hrest⟩ := append_inj heq (by simp)
        rw [cons_append, cons_append] at hrest
        obtain ⟨hmonths, hdays⟩ := append_inj (cons.inj hrest).2 (by simp)
        have hyear := pad_injective (by have := ht.2; simp only [getUTCFullYear] at this; omega)
          (by have := hu.2; simp only [getUTCFullYear] at this; omega) hyears
        have hmonth'' := pad_injective (by omega) (by omega) hmonths
        have hday'' := pad_injective (by omega) (by omega) (cons.inj hdays).2
        have hlow := ht.1
        have hlow' := hu.1
        simp only [getUTCFullYear] at hlow hlow'
        have hsameYear : (civil t.val).year = (civil u.val).year := by omega
        have hsameMonth : (civil t.val).month = (civil u.val).month := by omega
        have hsameDay : (civil t.val).day = (civil u.val).day := by omega
        rw [sameDay_iff]
        calc civil t.val = ⟨(civil t.val).year, (civil t.val).month, (civil t.val).day⟩ := rfl
          _ = ⟨(civil u.val).year, (civil u.val).month, (civil u.val).day⟩ := by rw [hsameYear, hsameMonth, hsameDay]
      · exact absurd heq (dayChars_four_ne_six ht hu)
    · by_cases hu : FourDigits u
      · exact absurd heq.symm (dayChars_four_ne_six hu ht)
      · right
        refine ⟨ht, hu, ?_⟩
        obtain ⟨sign, -, hchars, hyears⟩ := dayChars_six ht
        obtain ⟨sign', -, hchars', hyears'⟩ := dayChars_six hu
        rw [hchars, hchars'] at heq
        obtain ⟨hyear, hrest⟩ := append_inj heq (by simp)
        rw [← hyears, ← hyears'] at hyear
        have hmonths := pad_injective (by omega) (by omega) (cons.inj hrest).2
        refine ⟨yearChars_injective (year_bound t) (year_bound u) hyear, ?_⟩
        simp only [getUTCMonth]
        omega
  · rintro (hsame | ⟨ht, hu, hyear, hmonth⟩)
    · by_cases ht : FourDigits t
      · have hu : FourDigits u := by
          unfold FourDigits getUTCFullYear at *
          rwa [← sameDay_iff.mp hsame]
        rw [dayChars_four ht, dayChars_four hu, sameDay_iff.mp hsame]
      · have hu : ¬ FourDigits u := by
          unfold FourDigits getUTCFullYear at *
          rwa [← sameDay_iff.mp hsame]
        obtain ⟨sign, -, hchars, hyears⟩ := dayChars_six ht
        obtain ⟨sign', -, hchars', hyears'⟩ := dayChars_six hu
        rw [hchars, hchars', ← hyears, ← hyears', sameDay_iff.mp hsame]
    · obtain ⟨sign, -, hchars, hyears⟩ := dayChars_six ht
      obtain ⟨sign', -, hchars', hyears'⟩ := dayChars_six hu
      simp only [getUTCFullYear, getUTCMonth] at hyear hmonth
      rw [hchars, hchars', ← hyears, ← hyears', hyear, hmonth]

/-- `settlementId` -/
def identifier (merchantId : String) (day : List Char) : String := s!"settlement-{merchantId}-{String.ofList day}"

theorem identifier_eq_iff {merchantId merchantId' : String} {day day' : List Char} (hlen : day.length = day'.length) :
    identifier merchantId day = identifier merchantId' day' ↔ merchantId = merchantId' ∧ day = day' := by
  constructor
  · intro heq
    have hchars : "settlement-".toList ++ merchantId.toList ++ '-' :: day =
        "settlement-".toList ++ merchantId'.toList ++ '-' :: day' := by
      have htexts := congrArg String.toList heq
      simpa [identifier, toString] using htexts
    obtain ⟨hmerchants, hdays⟩ := append_inj' hchars (by simp [hlen])
    exact ⟨String.toList_inj.mp (append_cancel_left hmerchants), (cons.inj hdays).2⟩
  · rintro ⟨rfl, rfl⟩
    rfl

variable {localeCompare : String → String → Int} {orders : List CompletedMerchantOrder} {start start' : Instant}
  {stop stop' : Date} {platformFeeBps : Int} {settlements settlements' : List MerchantBatchSettlement}

theorem Settles.identifier {group : List CompletedMerchantOrder} {settlement : MerchantBatchSettlement}
    (h : Settles (some start) stop platformFeeBps group settlement) :
    settlement.merchantId = leader group ∧
      settlement.settlementId = MerchantSettlement.identifier settlement.merchantId (dayChars start.val) := by
  obtain ⟨first, iso, hfirst, hiso, rfl⟩ := h
  cases group with
  | nil => cases hfirst
  | cons other rest =>
    obtain rfl := Option.some.inj hfirst
    obtain rfl := Except.ok.inj hiso
    refine ⟨rfl, ?_⟩
    simp only [settlementOf, MerchantSettlement.identifier, dayChars, String.toList_ofList]

/-- The settlements are under the merchants of the leading orders, and their identifiers are those of the merchants. -/
theorem calculate_identifiers
    (h : calculateMerchantSettlements localeCompare orders (some start) stop platformFeeBps = .ok settlements) :
    settlements.map MerchantBatchSettlement.merchantId = (groupsOf localeCompare orders (some start) stop).map leader ∧
      ∀ settlement ∈ settlements, settlement.settlementId = identifier settlement.merchantId (dayChars start.val) := by
  have hsett := calculate_ok h
  clear h
  generalize groupsOf localeCompare orders (some start) stop = groups at hsett ⊢
  induction hsett with
  | nil => exact ⟨rfl, fun _ hnone => nomatch hnone⟩
  | cons hfirst _ ih =>
    obtain ⟨hmerchant, hid⟩ := hfirst.identifier
    refine ⟨?_, fun settlement hsettl => ?_⟩
    · rw [map_cons, map_cons, hmerchant, ih.1]
    · obtain rfl | hrest := mem_cons.mp hsettl
      · exact hid
      · exact ih.2 settlement hrest

theorem nodup_identifiers
    (h : calculateMerchantSettlements localeCompare orders (some start) stop platformFeeBps = .ok settlements) :
    (settlements.map MerchantBatchSettlement.settlementId).Nodup ↔
      ((groupsOf localeCompare orders (some start) stop).map leader).Nodup := by
  obtain ⟨hmerchants, hids⟩ := calculate_identifiers h
  have hmap : settlements.map MerchantBatchSettlement.settlementId =
      (settlements.map MerchantBatchSettlement.merchantId).map fun merchantId =>
        identifier merchantId (dayChars start.val) := by
    rw [map_map]
    exact map_congr_left hids
  have hinjective : Function.Injective fun merchantId => identifier merchantId (dayChars start.val) :=
    fun _ _ heq => ((identifier_eq_iff rfl).mp heq).1
  rw [hmap, nodup_map_iff hinjective, hmerchants]

/-- An order that is taken, and the first with its key. -/
def Leads (orders : List CompletedMerchantOrder) (periodStart periodEnd : Date) (order : CompletedMerchantOrder) : Prop :=
  orders.find? (fun other => other.taken periodStart periodEnd && decide (other.key = order.key)) = some order

section
variable {periodStart periodEnd : Date} {key : String} {group : List CompletedMerchantOrder} {order : CompletedMerchantOrder}

/-- Each group begins with an order that leads it, and an order that leads begins its group. -/
theorem leads_groupOf (hgroup : group = groupOf CompletedMerchantOrder.key key
    (orders.filter (CompletedMerchantOrder.taken periodStart periodEnd))) :
    group.head? = some order ↔ order.key = key ∧ Leads orders periodStart periodEnd order := by
  have hhead : group.head? = orders.find? fun other => other.taken periodStart periodEnd && decide (other.key = key) := by
    rw [hgroup, groupOf, filter_filter, head?_filter]
    congr 1
    funext other
    exact Bool.and_comm _ _
  rw [hhead]
  constructor
  · intro hfound
    have htaken := find?_some hfound
    rw [Bool.and_eq_true, decide_eq_true_iff] at htaken
    obtain ⟨-, rfl⟩ := htaken
    exact ⟨rfl, hfound⟩
  · rintro ⟨rfl, hleads⟩
    exact hleads

theorem leads_leader (hgroup : group = groupOf CompletedMerchantOrder.key key
    (orders.filter (CompletedMerchantOrder.taken periodStart periodEnd))) (hne : group ≠ []) :
    ∃ order, Leads orders periodStart periodEnd order ∧ order.key = key ∧ order.merchantId = leader group := by
  obtain ⟨order, rest, rfl⟩ := exists_cons_of_ne_nil hne
  obtain ⟨hkey, hleads⟩ := (leads_groupOf hgroup).mp rfl
  exact ⟨order, hleads, hkey, rfl⟩

theorem leader_of_leads (h : Leads orders periodStart periodEnd order) :
    ∃ group, (order.key, group) ∈ groupedBy CompletedMerchantOrder.key
      (orders.filter (CompletedMerchantOrder.taken periodStart periodEnd)) ∧ leader group = order.merchantId := by
  have hhead : (groupOf CompletedMerchantOrder.key order.key
      (orders.filter (CompletedMerchantOrder.taken periodStart periodEnd))).head? = some order :=
    (leads_groupOf rfl).mpr ⟨rfl, h⟩
  refine ⟨_, mem_groupedBy.mpr ⟨rfl, fun hnil => ?_⟩, ?_⟩
  · rw [hnil] at hhead
    cases hhead
  · obtain ⟨rest, hgroup⟩ := head?_eq_some_iff.mp hhead
    rw [hgroup]
    rfl

theorem mem_leaders {merchantId : String} : merchantId ∈ (groupsOf localeCompare orders periodStart periodEnd).map leader ↔
    ∃ order, Leads orders periodStart periodEnd order ∧ order.merchantId = merchantId := by
  constructor
  · intro hmem
    obtain ⟨group, hgroup, rfl⟩ := mem_map.mp hmem
    obtain ⟨key, hkey, hne⟩ := mem_groupsOf.mp hgroup
    obtain ⟨order, hleads, -, hmerchant⟩ := leads_leader hkey hne
    exact ⟨order, hleads, hmerchant⟩
  · rintro ⟨order, hleads, rfl⟩
    obtain ⟨group, hgroup, hleader⟩ := leader_of_leads hleads
    exact mem_map.mpr ⟨group, mem_groupsOf.mpr ⟨order.key, mem_groupedBy.mp hgroup⟩, hleader⟩

theorem nodup_leaders : ((groupsOf localeCompare orders periodStart periodEnd).map leader).Nodup ↔
    ∀ order order', Leads orders periodStart periodEnd order → Leads orders periodStart periodEnd order' →
      order.merchantId = order'.merchantId → order.key = order'.key := by
  have hkeys : Keyed Prod.fst (groupedBy CompletedMerchantOrder.key
    (orders.filter (CompletedMerchantOrder.taken periodStart periodEnd))) := keyed_groupedBy _
  rw [groupsOf, ((perm_insertionSort _ _).map leader).nodup_iff, map_map, nodup_map_iff_inj_on (Nodup.of_map _ hkeys)]
  constructor
  · intro hinj order order' hleads hleads' hmerchant
    obtain ⟨group, hgroup, hleader⟩ := leader_of_leads hleads
    obtain ⟨group', hgroup', hleader'⟩ := leader_of_leads hleads'
    exact congrArg Prod.fst (hinj _ hgroup _ hgroup' (hleader.trans (hmerchant.trans hleader'.symm)))
  · rintro hsame ⟨key, group⟩ hmem ⟨key', group'⟩ hmem' hleader
    obtain ⟨hgroup, hne⟩ := mem_groupedBy.mp hmem
    obtain ⟨hgroup', hne'⟩ := mem_groupedBy.mp hmem'
    obtain ⟨order, hleads, rfl, hmerchant⟩ := leads_leader hgroup hne
    obtain ⟨order', hleads', rfl, hmerchant'⟩ := leads_leader hgroup' hne'
    have hkey := hsame order order' hleads hleads' (hmerchant.trans (Eq.trans hleader hmerchant'.symm))
    rw [hgroup, hgroup', hkey]

end

/-- **Identifiers are unique** within a period exactly if two orders of one merchant that each come first with
their keys have one key; and between two periods exactly if no merchant has such orders in both, or the months of the
periods differ, or a year has four digits. -/
theorem identifiers_unique
    (h : calculateMerchantSettlements localeCompare orders (some start) stop platformFeeBps = .ok settlements)
    (h' : calculateMerchantSettlements localeCompare orders (some start') stop' platformFeeBps = .ok settlements') :
    ((settlements.map MerchantBatchSettlement.settlementId).Nodup ∧
      ∀ settlement ∈ settlements, ∀ settlement' ∈ settlements', settlement.merchantId = settlement'.merchantId →
        ¬ SameDay start start' → settlement.settlementId ≠ settlement'.settlementId) ↔
      (∀ order order', Leads orders (some start) stop order → Leads orders (some start) stop order' →
          order.merchantId = order'.merchantId → order.key = order'.key) ∧
        ∀ order order', Leads orders (some start) stop order → Leads orders (some start') stop' order' →
          order.merchantId = order'.merchantId → ¬ SameDay start start' →
            FourDigits start ∨ FourDigits start' ∨ ¬ SameMonth start start' := by
  obtain ⟨hmerchants, hids⟩ := calculate_identifiers h
  obtain ⟨hmerchants', hids'⟩ := calculate_identifiers h'
  have hlen : (dayChars start.val).length = (dayChars start'.val).length := by rw [length_dayChars, length_dayChars]
  rw [nodup_identifiers h, nodup_leaders]
  refine and_congr_right fun _ => ⟨fun hdist => ?_, fun hdays => ?_⟩
  · intro order order' hleads hleads' hmerchant hdiffer
    obtain ⟨settlement, hsettl, hown⟩ := mem_map.mp (hmerchants ▸ mem_leaders.mpr ⟨order, hleads, rfl⟩)
    obtain ⟨settlement', hsettl', hown'⟩ := mem_map.mp (hmerchants' ▸ mem_leaders.mpr ⟨order', hleads', rfl⟩)
    have hsame := hown.trans (hmerchant.trans hown'.symm)
    have hne := hdist settlement hsettl settlement' hsettl' hsame hdiffer
    rw [hids settlement hsettl, hids' settlement' hsettl', hsame, Ne, identifier_eq_iff hlen] at hne
    have hchars : dayChars start.val ≠ dayChars start'.val := fun heq => hne ⟨rfl, heq⟩
    rw [Ne, dayChars_eq_iff] at hchars
    by_contra hnone
    simp only [not_or, not_not] at hnone
    exact hchars (.inr hnone)
  · intro settlement hsettl settlement' hsettl' hsame hdiffer
    obtain ⟨order, hleads, hown⟩ := mem_leaders.mp (hmerchants ▸ mem_map_of_mem hsettl)
    obtain ⟨order', hleads', hown'⟩ := mem_leaders.mp (hmerchants' ▸ mem_map_of_mem hsettl')
    have hstamps := hdays order order' hleads hleads' (hown.trans (hsame.trans hown'.symm)) hdiffer
    rw [hids settlement hsettl, hids' settlement' hsettl', Ne, identifier_eq_iff hlen, dayChars_eq_iff]
    rintro ⟨-, hsameDay | ⟨hsix, hsix', hmonth⟩⟩
    · exact hdiffer hsameDay
    · exact hstamps.elim hsix fun hrest => hrest.elim hsix' fun hother => hother hmonth

theorem identifiers_unique_two_days :
    ∃ settlements settlements',
      calculateMerchantSettlements (fun _ _ => 0) ordersOfTwoDays (some newYear) (some nextDay) 250 = .ok settlements ∧
      calculateMerchantSettlements (fun _ _ => 0) ordersOfTwoDays (some nextDay) (some dayAfterNext) 250 =
        .ok settlements' ∧
      settlements.length = 2 ∧ settlements'.length = 1 ∧ (settlements.map MerchantBatchSettlement.settlementId).Nodup ∧
      ∀ settlement ∈ settlements, ∀ settlement' ∈ settlements', settlement.merchantId = settlement'.merchantId →
        ¬ SameDay newYear nextDay → settlement.settlementId ≠ settlement'.settlementId := by
  have hgross : ∀ order ∈ ordersOfTwoDays, 0 ≤ order.grossAmount := by decide
  have hkeys : ∀ order ∈ ordersOfTwoDays, ∀ order' ∈ ordersOfTwoDays,
    order.merchantId = order'.merchantId → order.key = order'.key := by decide
  obtain ⟨settlements, hrun⟩ : ∃ settlements, calculateMerchantSettlements (fun _ _ => 0) ordersOfTwoDays (some newYear)
    (some nextDay) 250 = .ok settlements := calculate_of_valid (by decide) (by decide) hgross
  obtain ⟨settlements', hrun'⟩ : ∃ settlements, calculateMerchantSettlements (fun _ _ => 0) ordersOfTwoDays (some nextDay)
    (some dayAfterNext) 250 = .ok settlements := calculate_of_valid (by decide) (by decide) hgross
  refine ⟨settlements, settlements', hrun, hrun', ?_, ?_, (identifiers_unique hrun hrun').mpr ⟨?_, ?_⟩⟩
  · rw [← (calculate_ok hrun).length_eq]
    decide
  · rw [← (calculate_ok hrun').length_eq]
    decide
  · exact fun order order' hleads hleads' =>
      hkeys order (mem_of_find?_eq_some hleads) order' (mem_of_find?_eq_some hleads')
  · refine fun _ _ _ _ _ _ => .inl ?_
    unfold FourDigits
    decide

/-- Two settlements of one day have one identifier. -/
theorem two_addresses_one_identifier :
    (calculateMerchantSettlements (fun _ _ => 0) [orderOf "first" "a" "b", orderOf "second" "a" "c"] (some newYear)
      (some nextDay) 250).map (fun settlements => settlements.map MerchantBatchSettlement.settlementId) =
        .ok ["settlement-a-2026-01-01", "settlement-a-2026-01-01"] ∧
      ¬ ["settlement-a-2026-01-01", "settlement-a-2026-01-01"].Nodup :=
  ⟨by decide, by decide⟩

end Delego.MerchantSettlement
