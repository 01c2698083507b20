import Delego.Inventory.Stock

/-! The stock engine of the payments service (`payments/src/inventory/index.ts`).

The identifier that the database draws for a reservation and the time are given with the call.

Both operations move stock together with a reservation (`Effects`), so counters and reservations stay in step over every
history of calls (`stock_sound`). -/
namespace Delego.Inventory
open Delego.Process Delego.Data

def DEFAULT_RESERVATION_TTL_MS : Int := 15 * 60 * 1000

structure StockReservation where
  (reservationId productId : String)
  quantity : Int
  orderId : String
  expiresAt : Int

structure ReleaseReservationResult where
  (reservationId productId : String)
  /-- Units returned to available stock; `0` when the reservation was already released. -/
  (quantityRestored releasedAt : Int)

def reserveStock (id : String) (now : Int) (productId : String) (quantity : Int) (orderId : String)
    (ttlMs : Int := DEFAULT_RESERVATION_TTL_MS) : InventoryM StockReservation :=
  inTransaction do
    let product ← query (.selectProduct productId)
    let merchantId := (product.map Product.merchantId).getD ""
    if merchantId = "" then raise (.error s!"Unknown product {productId}")
    else do
      let inventory ← query (.selectInventoryForUpdate merchantId productId)
      match inventory with
      | none => raise (.insufficientStock productId)
      | some row =>
        if row.availableStock < quantity then raise (.insufficientStock productId)
        else do
          let _ ← query (.reserveStock row.id quantity)
          let inserted ← query (.insertReservation id merchantId orderId productId quantity)
          commit
          return {
            reservationId := inserted
            productId := productId
            quantity := quantity
            orderId := orderId
            expiresAt := now + ttlMs }

def releaseReservation (now : Int) (reservationId : String) (strict : Bool := false) :
    InventoryM ReleaseReservationResult :=
  inTransaction do
    let found ← query (.selectReservationForUpdate reservationId)
    match found.filter fun row => decide (row.status = .reserved) with
    | none =>
      if strict then raise (.reservationNotFound reservationId)
      else do
        rollback
        return {
          reservationId := reservationId
          productId := (found.map MerchantInventoryReservation.productId).getD ""
          quantityRestored := 0
          releasedAt := now }
    | some row => do
      let _ ← query (.releaseStock row.merchantId row.productId row.quantity)
      let _ ← query (.releaseReservation reservationId)
      commit
      return {
        reservationId := reservationId
        productId := row.productId
        quantityRestored := row.quantity
        releasedAt := now }

inductive Call where
  | reserve (id : String) (now : Int) (productId : String) (quantity : Int) (orderId : String) (ttlMs : Int)
  | release (now : Int) (reservationId : String) (strict : Bool)

inductive Returned where
  | reserved (reservation : StockReservation)
  | released (result : ReleaseReservationResult)

def Call.body : Call → InventoryM Returned
  | .reserve id now productId quantity orderId ttlMs => do
    let reservation ← reserveStock id now productId quantity orderId ttlMs
    return .reserved reservation
  | .release now reservationId strict => do
    let result ← releaseReservation now reservationId strict
    return .released result

/-- Quantities are positive integers (`validateReserveStockRequest`). -/
def Call.Positive : Call → Prop
  | .reserve _ _ _ quantity _ _ => 0 < quantity
  | .release .. => True

/-- A call takes the tables `d` to `d'`, and returns or throws; the answer to a statement may be lost. -/
def Performs (call : Call) (d : Tables) (outcome : Except InventoryError Returned) (d' : Tables) : Prop :=
  Ends (sqlEffect execute True) call.body (Session.rest d) outcome (Session.rest d')

/-- What a call that succeeds does. -/
inductive Effects (d : Tables) : Call → Returned → Tables → Prop where
  | reserved {id productId orderId : String} {now quantity ttlMs : Int} {returned : StockReservation}
      {row : MerchantInventory} {r : MerchantInventoryReservation} {d' : Tables}
      (able : Reservable d row r) (after : d' = d.reserve r) :
      Effects d (.reserve id now productId quantity orderId ttlMs) (.reserved returned) d'
  | released {now : Int} {reservationId : String} {strict : Bool} {result : ReleaseReservationResult}
      {r : MerchantInventoryReservation} {d' : Tables} (able : Releasable d r) (id : r.id = reservationId)
      (after : d' = d.release r) :
      Effects d (.release now reservationId strict) (.released result) d'
  | nothing {now : Int} {reservationId : String} {strict : Bool} {result : ReleaseReservationResult}
      {d' : Tables} (unable : ∀ r, Releasable d r → r.id ≠ reservationId)
      (restored : result.quantityRestored = 0) (after : d' = d) :
      Effects d (.release now reservationId strict) (.released result) d'

theorem leaves_reserveStock {d : Tables} (hd : Sound d) {id productId orderId : String}
    {now quantity ttlMs : Int} (hpos : 0 < quantity) :
    Leaves True execute d (reserveStock id now productId quantity orderId ttlMs) fun returned d' =>
      Effects d (.reserve id now productId quantity orderId ttlMs) (.reserved returned) d' := by
  apply leaves_inTransaction
  apply settles_bind
  apply within_statement
  rintro product _ ⟨⟩
  generalize (Option.map Product.merchantId (lookup Product.id d.products productId)).getD "" = merchantId
  dsimp only
  split
  · exact settles_fail
  apply settles_bind
  apply within_statement
  rintro inventory _ ⟨⟩
  split
  · exact settles_fail
  rename_i row hrow
  split
  · exact settles_fail
  rename_i henough
  apply settles_bind
  apply within_statement
  rintro _ _ ⟨⟩
  apply settles_bind
  apply within_statement
  intro inserted t hins
  obtain ⟨hfresh, honly, rfl⟩ := insertReservation_ok hins
  apply settles_commit
  have hable : Reservable d row ⟨id, merchantId, orderId, productId, quantity, .reserved⟩ :=
    ⟨hrow, Int.not_lt.mp henough, hfresh, honly, rfl, hpos⟩
  have hkey : row.key = (merchantId, productId) := lookup_key hrow
  refine .reserved hable ?_
  rw [Tables.reserve, ← hkey, ← update_eq_update hd.ids hd.keys (lookup_mem hrow)]

theorem leaves_releaseReservation {d : Tables} {now : Int} {reservationId : String} {strict : Bool} :
    Leaves True execute d (releaseReservation now reservationId strict) fun result d' =>
      Effects d (.release now reservationId strict) (.released result) d' := by
  apply leaves_inTransaction
  apply settles_bind
  apply within_statement
  rintro found _ ⟨⟩
  split
  · rename_i hnone
    split
    · exact settles_fail
    apply settles_rollback
    refine .nothing ?_ rfl rfl
    rintro r ⟨hfound, hresd⟩ rfl
    simp [hfound, hresd] at hnone
  · rename_i row hrow
    obtain ⟨hfound, hresd⟩ := Option.filter_eq_some_iff.mp hrow
    have hid : row.id = reservationId := lookup_key hfound
    apply settles_bind
    apply within_statement
    rintro _ _ ⟨⟩
    apply settles_bind
    apply within_statement
    rintro _ _ ⟨⟩
    apply settles_commit
    refine .released ⟨hid ▸ hfound, by simpa using hresd⟩ hid ?_
    rw [Tables.release, hid]

/-- **What a call can do.** It has one of the effects, and returns unless the answer to `COMMIT` is lost, or it throws
and leaves the tables. -/
theorem performs_cases {call : Call} {d d' : Tables} {outcome : Except InventoryError Returned}
    (hd : Sound d) (hpos : call.Positive) (h : Performs call d outcome d') :
    (∃ returned, outcome = .ok returned ∧ Effects d call returned d') ∨
      (∃ e, outcome = .error e) ∧ (d' = d ∨ ∃ returned, Effects d call returned d') := by
  have hleaves : Leaves True execute d call.body fun returned d' => Effects d call returned d' := by
    cases call with
    | reserve id now productId quantity orderId ttlMs => exact leaves_map (leaves_reserveStock hd hpos)
    | release now reservationId strict => exact leaves_map leaves_releaseReservation
  obtain hok | ⟨herror, heq | ⟨-, heffects⟩⟩ := hleaves.ends h
  · exact .inl hok
  · exact .inr ⟨herror, .inl heq⟩
  · exact .inr ⟨herror, .inr heffects⟩

/-! ### Histories -/

def Reaches : Tables → Tables → Prop :=
  Relation.ReflTransGen fun d d' => ∃ call outcome, Call.Positive call ∧ Performs call d outcome d'

def Released (d : Tables) (reservationId : String) : Prop :=
  ∃ r, lookup MerchantInventoryReservation.id d.reservations reservationId = some r ∧ r.status = .released

section
variable {d d' : Tables} {call : Call}
  {returned : Returned}

theorem sound_effects (hd : Sound d) (h : Effects d call returned d') : Sound d' ∧ ∀ k, d'.stock k = d.stock k := by
  cases h with
  | reserved able after =>
    subst after
    exact ⟨sound_reserve hd able, stock_reserve⟩
  | released able id after =>
    subst after
    exact ⟨sound_release hd able, stock_release⟩
  | nothing unable restored after =>
    subst after
    exact ⟨hd, fun k => rfl⟩

variable {reservationId : String}

theorem released_reserve {r : MerchantInventoryReservation}
    (hfresh : lookup MerchantInventoryReservation.id d.reservations r.id = none) (h : Released d reservationId) :
    Released (d.reserve r) reservationId := by
  obtain ⟨x, hfound, hrel⟩ := h
  have hne : reservationId ≠ r.id := by
    rintro rfl
    simp [hfresh] at hfound
  refine ⟨x, ?_, hrel⟩
  show lookup _ (d.reservations ++ [r]) reservationId = some x
  rw [lookup_append_ne hne]
  exact hfound

theorem lookup_released (r : MerchantInventoryReservation) (reservationId : String) :
    lookup MerchantInventoryReservation.id (d.release r).reservations reservationId =
      if reservationId = r.id then (lookup MerchantInventoryReservation.id d.reservations reservationId).map (·.release)
      else lookup MerchantInventoryReservation.id d.reservations reservationId := by
  apply lookup_update
  intro row
  rfl

theorem released_release {r : MerchantInventoryReservation} (h : Released d reservationId) :
    Released (d.release r) reservationId := by
  obtain ⟨x, hfound, hrel⟩ := h
  unfold Released
  rw [lookup_released, hfound]
  split
  · exact ⟨_, rfl, rfl⟩
  · exact ⟨x, rfl, hrel⟩

theorem released_effects (hrel : Released d reservationId) (h : Effects d call returned d') :
    Released d' reservationId := by
  cases h with
  | reserved able after =>
    subst after
    exact released_reserve able.fresh hrel
  | released able id after =>
    subst after
    exact released_release hrel
  | nothing unable restored after =>
    subst after
    exact hrel

theorem sound_performs {outcome : Except InventoryError Returned} (hd : Sound d) (hpos : call.Positive)
    (h : Performs call d outcome d') : Sound d' ∧ ∀ k, d'.stock k = d.stock k := by
  rcases performs_cases hd hpos h with ⟨returned, -, heffects⟩ | ⟨-, rfl | ⟨returned, heffects⟩⟩
  · exact sound_effects hd heffects
  · exact ⟨hd, fun k => rfl⟩
  · exact sound_effects hd heffects

theorem sound_reaches (hd : Sound d) (h : Reaches d d') : Sound d' ∧ ∀ k, d'.stock k = d.stock k := by
  induction h with
  | refl => exact ⟨hd, fun k => rfl⟩
  | tail _ hstep ih =>
    obtain ⟨call, outcome, hpos, hperforms⟩ := hstep
    obtain ⟨hsound, hstock⟩ := sound_performs ih.1 hpos hperforms
    exact ⟨hsound, fun k => (hstock k).trans (ih.2 k)⟩

theorem released_reaches (hd : Sound d) (hrel : Released d reservationId) (h : Reaches d d') :
    Released d' reservationId := by
  induction h with
  | refl => exact hrel
  | tail hrun hstep ih =>
    obtain ⟨call, outcome, hpos, hperforms⟩ := hstep
    rcases performs_cases (sound_reaches hd hrun).1 hpos hperforms with ⟨_, -, heffects⟩ | ⟨-, rfl | ⟨_, heffects⟩⟩
    · exact released_effects ih heffects
    · exact ih
    · exact released_effects ih heffects

theorem released_of_release {now : Int} {strict : Bool}
    (hknown : (lookup MerchantInventoryReservation.id d.reservations reservationId).isSome)
    (h : Effects d (.release now reservationId strict) returned d') : Released d' reservationId := by
  obtain ⟨r, hfound⟩ := Option.isSome_iff_exists.mp hknown
  cases h with
  | released able id after =>
    subst after id
    rename_i r
    refine ⟨r.release, ?_, rfl⟩
    rw [lookup_released, if_pos rfl, able.found]
    rfl
  | nothing unable restored after =>
    subst after
    have hid : r.id = reservationId := lookup_key hfound
    refine ⟨r, hfound, ?_⟩
    cases hstat : r.status with
    | reserved => exact absurd hid (unable r ⟨hid ▸ hfound, hstat⟩)
    | released => rfl

theorem release_of_released {now : Int} {strict : Bool} {result : ReleaseReservationResult}
    (hrel : Released d reservationId) (h : Effects d (.release now reservationId strict) (.released result) d') :
    result.quantityRestored = 0 ∧ d' = d := by
  obtain ⟨x, hfound, hstat⟩ := hrel
  cases h with
  | released able id after =>
    subst id
    rw [able.found] at hfound
    cases hfound
    simp [able.reserved] at hstat
  | nothing unable restored after => exact ⟨restored, after⟩

end

/-- **The stock engine.** Over every history the stock of a product stays what it was, what is reserved is what the
reservations hold, and no reservation is released twice. A call that throws leaves the tables, unless all that failed
is the answer to its `COMMIT`. -/
theorem stock_sound {d₀ d d' : Tables} {call : Call} {outcome : Except InventoryError Returned}
    (start : Sound d₀) (run : Reaches d₀ d) (hpos : call.Positive)
    (step : Performs call d outcome d') :
    (∀ k row, lookup MerchantInventory.key d'.inventory k = some row →
      0 ≤ row.availableStock ∧ row.reservedStock = d'.held k) ∧
    (∀ k, d'.stock k = d₀.stock k) ∧
    (∀ e, outcome = .error e → d' = d ∨ ∃ returned, Effects d call returned d') ∧
    (∀ {reservationId now strict returned}, call = .release now reservationId strict →
      (lookup MerchantInventoryReservation.id d.reservations reservationId).isSome →
      outcome = .ok returned →
      ∀ {d₁ d₂ now' strict' result}, Reaches d' d₁ →
        Performs (.release now' reservationId strict') d₁ (.ok (.released result)) d₂ →
        result.quantityRestored = 0 ∧ d₂ = d₁) := by
  obtain ⟨hd, hstock⟩ := sound_reaches start run
  obtain ⟨hd', hstock'⟩ := sound_performs hd hpos step
  refine ⟨?_, fun k => (hstock' k).trans (hstock k), ?_, ?_⟩
  · intro k row hfound
    have hbalanced := hd'.balanced hfound
    exact ⟨hbalanced.available, hbalanced.agrees⟩
  · rintro e rfl
    rcases performs_cases hd hpos step with ⟨_, hok, -⟩ | ⟨-, heq⟩
    · cases hok
    · exact heq
  · rintro reservationId now strict returned rfl hknown rfl d₁ d₂ now' strict' result hlater hsecond
    rcases performs_cases hd hpos step with ⟨_, -, hfirst⟩ | ⟨⟨_, herror⟩, -⟩
    · have hrel := released_reaches hd' (released_of_release hknown hfirst) hlater
      have hpos' : (Call.release now' reservationId strict').Positive := trivial
      rcases performs_cases (sound_reaches hd' hlater).1 hpos' hsecond with ⟨_, hok, heffects⟩ | ⟨⟨_, herror⟩, -⟩
      · cases hok
        exact release_of_released hrel heffects
      · cases herror
    · cases herror

def after (d : Tables) (call : Call) : Tables := (call.body.alone (sqlRun execute) (Session.rest d)).2.committed

def shop : Tables where
  inventory := [⟨"inventory-1", "merchant-1", "product-1", 5, 0, none⟩]
  reservations := []
  products := [⟨"product-1", "merchant-1"⟩]

theorem sound_shop : Sound shop := sound_unreserved (by decide) (by decide) (by decide)

def shopReserved : Tables := after shop (.reserve "reservation-1" 0 "product-1" 3 "order-1" 900000)

def shopReleased : Tables := after shopReserved (.release 10 "reservation-1" false)

theorem stock_sound_at_shop : shopReserved.held ("merchant-1", "product-1") = 3 ∧
      shopReleased.held ("merchant-1", "product-1") = 0 ∧
      (∀ k, shopReleased.stock k = shop.stock k) ∧
      (∀ d₁ d₂ now strict result, Reaches shopReleased d₁ →
        Performs (.release now "reservation-1" strict) d₁ (.ok (.released result)) d₂ →
        result.quantityRestored = 0 ∧ d₂ = d₁) := by
  have hresd : Reaches shop shopReserved :=
    .single ⟨.reserve "reservation-1" 0 "product-1" 3 "order-1" 900000, _, by simp [Call.Positive], ends_of_sqlRun rfl⟩
  have hrel : Performs (.release 10 "reservation-1" false) shopReserved _ shopReleased := ends_of_sqlRun rfl
  have hpos : (Call.release 10 "reservation-1" false).Positive := trivial
  have hlaw := stock_sound sound_shop hresd hpos hrel
  refine ⟨by decide, by decide, hlaw.2.1, ?_⟩
  intro d₁ d₂ now strict result hlater hsecond
  exact hlaw.2.2.2 rfl rfl rfl hlater hsecond

/-- The reservation is committed, and the call throws as the answer is lost. -/
theorem reserved_though_thrown : Sound shop ∧
      Performs (.reserve "reservation-1" 0 "product-1" 3 "order-1" 900000) shop
        (.error (.failure "Connection terminated unexpectedly")) shopReserved ∧
      shopReserved.held ("merchant-1", "product-1") ≠ shop.held ("merchant-1", "product-1") :=
  ⟨sound_shop, ends_of_unanswered trivial (.failure "Connection terminated unexpectedly") rfl, by decide⟩

end Delego.Inventory
