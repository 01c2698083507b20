import Delego.Inventory.Stock
import Mathlib.Algebra.Order.Ring.Unbundled.Rat

/-! Batches of reservations and releases (`orchestrator/src/inventory/reservation.ts`).

What a release takes from the reserved stock is the item's quantity, whatever the order's reservation holds or whether
there is one: the counters and the reservations agree only if every release gives back what was reserved (`ReturnsHeld`,
`ledger_agrees`), and part after one that does not (`released_without_reservation`).

The identifiers that the database draws for the reservations of a batch and the order of strings (`localeCompare`) are
given with the call. -/
namespace Delego.Inventory.Reservation
open Delego.Process Delego.Data List

structure InventoryReservationItem where
  (merchantId productId : String)
  quantity : Rat
  orderId : Option String

/-- The order that an item names: `if (item.orderId)`. -/
def InventoryReservationItem.order (item : InventoryReservationItem) : Option String :=
  item.orderId.filter fun orderId => decide (orderId ≠ "")

def InventoryReservationItem.levelKey (item : InventoryReservationItem) : String := s!"{item.merchantId}:{item.productId}"

/-- `Map<string, InventoryLevel>` -/
abbrev Levels := List (String × InventoryLevel)

def Levels.set (levels : Levels) (key : String) (level : InventoryLevel) : Levels :=
  match lookup Prod.fst levels key with
  | some _ => replace Prod.fst levels (key, level)
  | none => levels ++ [(key, level)]

/-- The level after an item; the same product can appear more than once in a batch. -/
def Levels.track (levels : Levels) (operation : Operation) (item : InventoryReservationItem)
    (inventory : MerchantInventory) : Levels :=
  let before := ((lookup Prod.fst levels item.levelKey).map fun entry => entry.2.availableStock).getD
    inventory.availableStock
  levels.set item.levelKey {
    merchantId := item.merchantId
    productId := item.productId
    availableStock := match operation with
      | .reserve => before - item.quantity.num
      | .release => before + item.quantity.num
    lowStockThreshold := inventory.lowStockThreshold }

def recordItem (operation : Operation) (id orderId : String) (item : InventoryReservationItem) : InventoryM Unit :=
  match operation with
  | .reserve => do
    let _ ← query (.insertReservation id item.merchantId orderId item.productId item.quantity.num)
    return ()
  | .release => query (.releaseOrderReservation item.merchantId orderId item.productId)

def updateItem (operation : Operation) (id : String) (levels : Levels) (item : InventoryReservationItem) :
    InventoryM Levels := do
  let rows ← query (.selectInventoryForUpdate item.merchantId item.productId)
  match rows with
  | none => raise (.insufficientStock item.productId)
  | some inventory =>
    if operation = .reserve ∧ inventory.availableStock < item.quantity.num then raise (.insufficientStock item.productId)
    else if operation = .release ∧ inventory.reservedStock < item.quantity.num then
      raise (.error s!"Cannot release more than the reserved stock for product {item.productId}")
    else do
      let _ ← query (.updateStock operation inventory.id item.quantity.num)
      match item.order with
      | some orderId => recordItem operation id orderId item
      | none => pure ()
      return levels.track operation item inventory

/-- The items one after another; `draw` gives the identifiers of their reservations. -/
def updateItems (operation : Operation) (draw : Nat → String) :
    Nat → Levels → List InventoryReservationItem → InventoryM Levels
  | _, levels, [] => return levels
  | n, levels, item :: rest => do
    let levels ← updateItem operation (draw n) levels item
    updateItems operation draw (n + 1) levels rest

/-- A unique violation is reported as a duplicate, of the first item that names an order. -/
def reported (orderedItems : List InventoryReservationItem) : InventoryError → InventoryError
  | .uniqueViolation =>
    let item := orderedItems.find? fun candidate => candidate.order.isSome
    .duplicateReservation ((item.bind InventoryReservationItem.orderId).getD "unknown")
      ((item.map InventoryReservationItem.productId).getD "unknown")
  | e => e

structure Service where
  localeCompare : String → String → Int
  /-- Someone is notified of stock levels. -/
  stockObserver : Bool

def Service.sort (service : Service) (items : List InventoryReservationItem) : List InventoryReservationItem :=
  items.mergeSort fun left right => decide (service.localeCompare left.levelKey right.levelKey ≤ 0)

/-- `Number.isInteger(item.quantity) && item.quantity > 0` -/
def InventoryReservationItem.countable (item : InventoryReservationItem) : Bool :=
  item.quantity.isInt && decide (0 < item.quantity)

def batch (operation : Operation) (draw : Nat → String) (orderedItems : List InventoryReservationItem) :
    InventoryM Levels := do
  let connected ← (query .connect).attempt
  match connected with
  | .error e => raise (reported orderedItems e)
  | .ok _ =>
    inTransaction
      (do
        let levels ← updateItems operation draw 0 [] orderedItems
        commit
        return levels)
      (reported orderedItems)

def Service.updateReservation (service : Service) (draw : Nat → String) (items : List InventoryReservationItem)
    (operation : Operation) : InventoryM Unit :=
  if items.isEmpty then return ()
  else if items.any fun item => !item.countable then
    raise (.error "Inventory reservation quantities must be positive integers")
  else do
    let orderedItems := service.sort items
    let resources := (orderedItems.map fun item => s!"inventory:{item.merchantId}:{item.productId}").eraseDups
    let _ ← query (.acquireLock resources 10000)
    let outcome ← (batch operation draw orderedItems).attempt
    let _ ← query .releaseLock
    match outcome with
    | .error e => raise e
    | .ok levels =>
      if service.stockObserver && !levels.isEmpty then do
        let _ ← (query (.onStockLevelsChanged (levels.map Prod.snd))).attempt
        return ()
      else return ()

/-- `reserve(items)` and `release(items)`. -/
structure Call where
  draw : Nat → String
  items : List InventoryReservationItem
  operation : Operation

def Performs (service : Service) (call : Call) (d : Tables) (outcome : Except InventoryError Unit) (d' : Tables) : Prop :=
  Ends (sqlEffect execute True) (service.updateReservation call.draw call.items call.operation) (Session.rest d)
    outcome (Session.rest d')

def releaseFor (d : Tables) (orderId : String) (item : InventoryReservationItem) : Tables :=
  { d with
    inventory := update MerchantInventory.key d.inventory (item.merchantId, item.productId) (·.release item.quantity.num)
    reservations := update MerchantInventoryReservation.key d.reservations (item.merchantId, orderId, item.productId)
      fun row => if row.status = .reserved then row.release else row }

inductive Changes (d : Tables) (item : InventoryReservationItem) (orderId : String) : Operation → Tables → Prop where
  | reserved {row : MerchantInventory} {r : MerchantInventoryReservation} {d' : Tables}
      (able : Reservable d row r) (after : d' = d.reserve r) : Changes d item orderId .reserve d'
  | released {row : MerchantInventory} {d' : Tables}
      (found : lookup MerchantInventory.key d.inventory (item.merchantId, item.productId) = some row)
      (enough : item.quantity.num ≤ row.reservedStock) (after : d' = releaseFor d orderId item) :
      Changes d item orderId .release d'

section
variable {d t : Tables} {item : InventoryReservationItem} {orderId : String} {operation : Operation}

theorem update_guarded {rows : List MerchantInventory} {inventory : MerchantInventory}
    (hids : Keyed MerchantInventory.id rows) (hkeys : Keyed MerchantInventory.key rows)
    (hmem : inventory ∈ rows) {quantity : Int} (hguard : operation.Guard quantity inventory) :
    (update MerchantInventory.id rows inventory.id fun row =>
        if operation.Guard quantity row then operation.change quantity row else row) =
      update MerchantInventory.key rows inventory.key (operation.change quantity) := by
  rw [← update_eq_update hids hkeys hmem]
  apply hids.update_congr hmem
  rw [if_pos hguard]

theorem quantity_pos (h : item.countable = true) : 0 < item.quantity.num := by
  simp only [InventoryReservationItem.countable, Bool.and_eq_true, decide_eq_true_eq] at h
  exact Rat.num_pos.mpr h.2

theorem within_updateItem (ht : Sound t) (hitem : item.countable = true) (horder : item.order = some orderId)
    {id : String} {levels : Levels} :
    Within True execute d t (updateItem operation id levels item) fun _ t' =>
      Changes t item orderId operation t' := by
  apply within_bind
  apply within_statement
  rintro rows _ ⟨⟩
  split
  · exact within_fail
  rename_i inventory hfound
  have hkey : inventory.key = (item.merchantId, item.productId) := lookup_key hfound
  split
  · exact within_fail
  rename_i havail
  split
  · exact within_fail
  rename_i hresd
  have hguard : operation.Guard item.quantity.num inventory := by
    cases operation with
    | reserve => exact Int.not_lt.mp fun h => havail ⟨rfl, h⟩
    | release => exact Int.not_lt.mp fun h => hresd ⟨rfl, h⟩
  apply within_bind
  apply within_statement
  rintro _ _ ⟨⟩
  rw [update_guarded ht.ids ht.keys (lookup_mem hfound) hguard, hkey, horder]
  dsimp only
  cases operation with
  | reserve =>
    apply within_bind
    apply within_bind
    apply within_statement
    intro inserted t' hins
    obtain ⟨hfresh, honly, rfl⟩ := insertReservation_ok hins
    apply within_pure
    apply within_pure
    have hnew : Reservable t inventory ⟨id, item.merchantId, orderId, item.productId, item.quantity.num, .reserved⟩ :=
      ⟨hfound, hguard, hfresh, honly, rfl, quantity_pos hitem⟩
    exact .reserved hnew rfl
  | release =>
    apply within_bind
    apply within_statement
    rintro _ _ ⟨⟩
    apply within_pure
    exact .released hfound hguard rfl

theorem releaseFor_eq (ht : Sound t) {r : MerchantInventoryReservation}
    (hfound : lookup MerchantInventoryReservation.key t.reservations (item.merchantId, orderId, item.productId) = some r)
    (hresd : r.status = .reserved) (hqty : r.quantity = item.quantity.num) :
    releaseFor t orderId item = t.release r := by
  have hkey : r.key = (item.merchantId, orderId, item.productId) := lookup_key hfound
  have hmerchant : r.merchantId = item.merchantId := congrArg Prod.fst hkey
  have hprod : r.productId = item.productId := congrArg (fun k => k.2.2) hkey
  have hresvs : (update MerchantInventoryReservation.key t.reservations r.key fun row =>
      if row.status = .reserved then row.release else row) =
        update MerchantInventoryReservation.id t.reservations r.id (·.release) := by
    rw [update_eq_update ht.reservationIds ht.reservationKeys (lookup_mem hfound)]
    apply ht.reservationKeys.update_congr (lookup_mem hfound)
    rw [if_pos hresd]
  rw [releaseFor, Tables.release, hmerchant, hprod, hqty, ← hkey, hresvs]

end

/-- Every item that is released finds a reservation of its order that holds its quantity. An item that the reserved
stock does not cover ends the batch. -/
def ReturnsHeld : Tables → List InventoryReservationItem → Prop
  | _, [] => True
  | d, item :: rest =>
    ∀ row, lookup MerchantInventory.key d.inventory (item.merchantId, item.productId) = some row →
      item.quantity.num ≤ row.reservedStock →
      ∃ r, lookup MerchantInventoryReservation.key d.reservations
          (item.merchantId, item.orderId.getD "", item.productId) = some r ∧
        r.status = .reserved ∧ r.quantity = item.quantity.num ∧ ReturnsHeld (d.release r) rest

theorem orderId_of_order {item : InventoryReservationItem} {orderId : String}
    (h : item.order = some orderId) : item.orderId.getD "" = orderId := by
  obtain ⟨hsome, -⟩ := Option.filter_eq_some_iff.mp h
  rw [hsome, Option.getD_some]

theorem within_updateItems {operation : Operation} {draw : Nat → String} {d t : Tables}
    (items : List InventoryReservationItem) {n : Nat} {levels : Levels} (ht : Sound t)
    (hcountable : ∀ item ∈ items, item.countable = true) (hnamed : ∀ item ∈ items, item.order.isSome)
    (hreturns : operation = .release → ReturnsHeld t items) :
    Within True execute d t (updateItems operation draw n levels items) fun _ t' =>
      Sound t' ∧ ∀ k, t'.stock k = t.stock k := by
  induction items generalizing t n levels with
  | nil => exact within_pure ⟨ht, fun k => rfl⟩
  | cons item rest ih =>
    obtain ⟨orderId, horder⟩ := Option.isSome_iff_exists.mp (hnamed item mem_cons_self)
    apply within_bind
    apply within_mono (within_updateItem ht (hcountable item mem_cons_self) horder)
    intro levels' t' hchanges
    have hcountable' : ∀ x ∈ rest, x.countable = true := fun x hx => hcountable x (mem_cons_of_mem _ hx)
    have hnamed' : ∀ x ∈ rest, x.order.isSome := fun x hx => hnamed x (mem_cons_of_mem _ hx)
    cases hchanges with
    | reserved able after =>
      subst after
      refine within_mono (ih (sound_reserve ht able) hcountable' hnamed' ?_) ?_
      · intro h
        cases h
      · rintro _ t'' ⟨hsound, hstock⟩
        exact ⟨hsound, fun k => (hstock k).trans (stock_reserve k)⟩
    | released found enough after =>
      obtain ⟨r, hfound, hresd, hqty, hrest⟩ := hreturns rfl _ found enough
      rw [orderId_of_order horder] at hfound
      rw [releaseFor_eq ht hfound hresd hqty] at after
      subst after
      have hkey := ht.reservationIds.found (lookup_mem hfound)
      refine within_mono (ih (sound_release ht ⟨hkey, hresd⟩) hcountable' hnamed' fun _ => hrest) ?_
      rintro _ t'' ⟨hsound, hstock⟩
      exact ⟨hsound, fun k => (hstock k).trans (stock_release k)⟩

/-- A batch that the reservations agree with. -/
structure Agrees (service : Service) (d : Tables) (call : Call) : Prop where
  named : ∀ item ∈ call.items, item.order.isSome
  returns : call.operation = .release → ReturnsHeld d (service.sort call.items)

/-- Counters and reservations agree, and no stock is lost since `d₀`. -/
def Kept (d₀ d : Tables) : Prop := Sound d ∧ ∀ k, d.stock k = d₀.stock k

section
variable {service : Service} {d : Tables} {call : Call}

theorem leaves_batch (hd : Sound d) {operation : Operation} {draw : Nat → String}
    {items : List InventoryReservationItem} (hcountable : ∀ item ∈ items, item.countable = true)
    (hnamed : ∀ item ∈ items, item.order.isSome) (hreturns : operation = .release → ReturnsHeld d items) :
    Leaves True execute d (batch operation draw items) fun _ d' => Kept d d' := by
  have htx : Leaves True execute d
      (inTransaction
        (do
          let levels ← updateItems operation draw 0 [] items
          commit
          return levels)
        (reported items)) fun _ d' => Kept d d' := by
    apply leaves_inTransaction
    apply settles_bind
    apply within_mono (within_updateItems items hd hcountable hnamed hreturns)
    intro levels t hkept
    exact settles_commit hkept
  have hconnect : Leaves True execute d (query .connect) fun _ d' => d' = d := by
    apply leaves_statement
    rintro _ _ ⟨⟩
    rfl
  refine follows_bind (follows_attempt (follows_mono hconnect (forall_except (fun _ _ hs => ?_) fun _ _ hs => ?_)))
  · obtain ⟨_, rfl, rfl | ⟨-, -, rfl⟩⟩ := hs
    · exact leaves_fail
    · exact leaves_fail
  · obtain ⟨_, rfl, rfl⟩ := hs
    exact htx

theorem kept_statement {d₀ : Tables} {s : Session Tables} {o : Statement}
    (hs : ∃ d, s = Session.rest d ∧ Kept d₀ d) (ho : ∀ a (d d' : Tables), execute o d = .ok (a, d') → d' = d) :
    Follows (machine (sqlEffect execute True)) s (query o) fun _ s' => ∃ d, s' = Session.rest d ∧ Kept d₀ d := by
  obtain ⟨d, rfl, hkept⟩ := hs
  refine follows_mono (leaves_statement (d := d) (Q := fun _ d' => d' = d) fun a d' h => ho a d d' h) ?_
  rintro outcome s' ⟨d', rfl, hs'⟩
  cases outcome with
  | ok a => exact ⟨d', rfl, hs' ▸ hkept⟩
  | error e =>
    obtain rfl | ⟨-, -, rfl⟩ := hs'
    · exact ⟨d', rfl, hkept⟩
    · exact ⟨d', rfl, hkept⟩

/-- **What a batch can do.** Whatever it returns or throws, the tables are kept. -/
theorem follows_updateReservation (hd : Sound d) (hagr : Agrees service d call) :
    Follows (machine (sqlEffect execute True)) (Session.rest d) (service.updateReservation call.draw call.items call.operation)
      fun _ s => ∃ d', s = Session.rest d' ∧ Kept d d' := by
  have hrefl : ∃ d', Session.rest d = Session.rest d' ∧ Kept d d' := ⟨d, rfl, hd, fun k => rfl⟩
  unfold Service.updateReservation
  split
  · exact hrefl
  split
  · exact hrefl
  rename_i hcountable
  have hmem : ∀ item, item ∈ service.sort call.items ↔ item ∈ call.items := by
    intro item
    exact (mergeSort_perm _ _).mem_iff
  have hcountable' : ∀ item ∈ service.sort call.items, item.countable = true := by
    intro item hitem
    by_contra hnot
    exact hcountable (any_eq_true.mpr ⟨item, (hmem item).mp hitem, by simpa using hnot⟩)
  have hnamed : ∀ item ∈ service.sort call.items, item.order.isSome :=
    fun item hitem => hagr.named item ((hmem item).mp hitem)
  have hlock : ∀ resources duration,
      Leaves True execute d (query (.acquireLock resources duration)) fun _ d' => d' = d := by
    intro resources duration
    apply leaves_statement
    rintro _ _ ⟨⟩
    rfl
  refine follows_bind (follows_mono (hlock _ _) (forall_except (fun _ _ hs => ?_) fun _ s hs => ?_))
  · obtain ⟨d', rfl, rfl | ⟨-, -, rfl⟩⟩ := hs
    · exact hrefl
    · exact hrefl
  obtain ⟨d', rfl, heq⟩ := hs
  rw [heq]
  refine follows_bind (follows_attempt (follows_mono (leaves_batch hd hcountable' hnamed hagr.returns) ?_))
  intro outcome s hs
  have hkept : ∃ d', s = Session.rest d' ∧ Kept d d' := by
    obtain ⟨d', rfl, hs⟩ := hs
    cases outcome with
    | ok levels => exact ⟨d', rfl, hs⟩
    | error e =>
      obtain rfl | ⟨-, -, hkept⟩ := hs
      · exact hrefl
      · exact ⟨d', rfl, hkept⟩
  apply follows_andThen (kept_statement hkept (by rintro _ _ _ ⟨⟩; rfl))
  intro _ s' hkept'
  split
  · exact hkept'
  split
  · apply follows_andThen
    · exact follows_attempt (kept_statement hkept' (by rintro _ _ _ ⟨⟩; rfl))
    · intro _ s'' hkept''
      exact hkept''
  · exact hkept'

theorem kept_performs {d' : Tables} {outcome : Except InventoryError Unit} (hd : Sound d)
    (hagr : Agrees service d call) (h : Performs service call d outcome d') : Kept d d' := by
  obtain ⟨_, hrest, hkept⟩ := (follows_updateReservation hd hagr).ends h
  cases hrest
  exact hkept

end

def Reaches (service : Service) : Tables → Tables → Prop :=
  Relation.ReflTransGen fun d d' => ∃ call outcome, Agrees service d call ∧ Performs service call d outcome d'

/-- **The reservations account for the stock.** Over every history of batches in which each
release gives back what its order reserved, no counter is negative, a product's stock is
what it was, and what is reserved is what the reservations hold. -/
theorem ledger_agrees {service : Service} {d₀ d : Tables} (start : Sound d₀) (run : Reaches service d₀ d) :
    (∀ k row, lookup MerchantInventory.key d.inventory k = some row →
      0 ≤ row.availableStock ∧ 0 ≤ row.reservedStock ∧ row.reservedStock = d.held k) ∧
    ∀ k, d.stock k = d₀.stock k := by
  have hkept : Kept d₀ d := by
    induction run with
    | refl => exact ⟨start, fun k => rfl⟩
    | tail _ hstep ih =>
      obtain ⟨call, outcome, hagr, hperforms⟩ := hstep
      obtain ⟨hsound, hstock⟩ := kept_performs ih.1 hagr hperforms
      exact ⟨hsound, fun k => (hstock k).trans (ih.2 k)⟩
  refine ⟨?_, hkept.2⟩
  intro k row hfound
  have hbalanced := hkept.1.balanced hfound
  exact ⟨hbalanced.available, hbalanced.reserved, hbalanced.agrees⟩

/-- Strings in the order of their characters, which for these samples is the locale's. -/
def plain : Service where
  localeCompare := fun left right => if left < right then -1 else if left = right then 0 else 1
  stockObserver := false

def item (orderId : String) (quantity : Rat) : InventoryReservationItem :=
  ⟨"merchant-1", "product-1", quantity, some orderId⟩

def reserves (orderId : String) (quantity : Rat) : Call := ⟨fun _ => "reservation-1", [item orderId quantity], .reserve⟩

def releases (orderId : String) (quantity : Rat) : Call := { reserves orderId quantity with operation := .release }

def shop (available reserved : Int) (reservations : List MerchantInventoryReservation) : Tables where
  inventory := [⟨"inventory-1", "merchant-1", "product-1", available, reserved, none⟩]
  reservations := reservations
  products := [⟨"product-1", "merchant-1"⟩]

def reservation (status : ReservationStatus) : MerchantInventoryReservation :=
  ⟨"reservation-1", "merchant-1", "order-1", "product-1", 3, status⟩

theorem sound_shop : Sound (shop 5 0 []) := sound_unreserved (by decide) (by decide) (by decide)

theorem shop_reserves :
    Performs plain (reserves "order-1" 3) (shop 5 0 []) (.ok ()) (shop 2 3 [reservation .reserved]) := by
  apply ends_of_sqlRun
  simp only [Service.updateReservation, Service.sort, reserves, mergeSort_singleton]
  rfl

theorem shop_releases : Performs plain (releases "order-1" 3) (shop 2 3 [reservation .reserved]) (.ok ())
      (shop 5 0 [reservation .released]) := by
  apply ends_of_sqlRun
  simp only [Service.updateReservation, Service.sort, releases, reserves, mergeSort_singleton]
  rfl

theorem agrees_reserves (d : Tables) : Agrees plain d (reserves "order-1" 3) := by
  refine ⟨?_, ?_⟩
  · simp [reserves, item, InventoryReservationItem.order]
  · intro h
    cases h

theorem agrees_releases : Agrees plain (shop 2 3 [reservation .reserved]) (releases "order-1" 3) := by
  refine ⟨?_, ?_⟩
  · simp [releases, reserves, item, InventoryReservationItem.order]
  · intro _
    simp only [Service.sort, releases, reserves, mergeSort_singleton]
    intro row _ _
    exact ⟨reservation .reserved, rfl, rfl, rfl, trivial⟩

theorem ledger_agrees_at_shop : (shop 5 0 [reservation .released]).held ("merchant-1", "product-1") = 0 ∧
      ∀ k, (shop 5 0 [reservation .released]).stock k = (shop 5 0 []).stock k := by
  have run : Reaches plain (shop 5 0 []) (shop 5 0 [reservation .released]) :=
    .tail (.single ⟨_, _, agrees_reserves _, shop_reserves⟩) ⟨_, _, agrees_releases, shop_releases⟩
  exact ⟨rfl, (ledger_agrees sound_shop run).2⟩

/-- Another order releases three units: the counter is zero, the reservation still holds
them. -/
theorem released_without_reservation : Sound (shop 5 0 []) ∧ Relation.ReflTransGen (fun d d' => ∃ call outcome,
        (∀ item ∈ call.items, item.order.isSome) ∧ Performs plain call d outcome d')
        (shop 5 0 []) (shop 5 0 [reservation .reserved]) ∧
      ∃ row, lookup MerchantInventory.key (shop 5 0 [reservation .reserved]).inventory
          ("merchant-1", "product-1") = some row ∧
        row.reservedStock = 0 ∧ (shop 5 0 [reservation .reserved]).held ("merchant-1", "product-1") = 3 := by
  refine ⟨sound_shop, ?_, _, rfl, rfl, rfl⟩
  have hreleases : Performs plain (releases "order-2" 3) (shop 2 3 [reservation .reserved]) (.ok ())
      (shop 5 0 [reservation .reserved]) := by
    apply ends_of_sqlRun
    simp only [Service.updateReservation, Service.sort, releases, reserves, mergeSort_singleton]
    rfl
  refine .tail (.single ⟨_, _, (agrees_reserves (shop 5 0 [])).named, shop_reserves⟩) ⟨_, _, ?_, hreleases⟩
  simp [releases, reserves, item, InventoryReservationItem.order]

end Delego.Inventory.Reservation
