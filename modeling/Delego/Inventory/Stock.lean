import Delego.Data.Table
import Delego.Process.Serial
import Mathlib.Algebra.Order.BigOperators.Group.List

/-! Stock and its reservations (migrations 045, 047 and 057).

`merchant_inventory` counts the units of a product that are available and reserved; `merchant_inventory_reservations`
has one row for each reservation. Two services write both: the payments engine (`Engine.lean`) and the orchestrator
(`Reservation.lean`).

The `CHECK` constraints are not among the statements' conditions (a statement may fail for any reason); the unique
indexes are: they reject a second reservation. -/
namespace Delego.Inventory
open Delego.Process Delego.Data List Option

structure MerchantInventory where
  (id merchantId productId : String)
  (availableStock reservedStock : Int)
  lowStockThreshold : Option Int
  deriving DecidableEq

inductive ReservationStatus where
  | reserved | released
  deriving DecidableEq

structure MerchantInventoryReservation where
  (id merchantId orderId productId : String)
  quantity : Int
  status : ReservationStatus

structure Product where
  (id merchantId : String)

/-- `UNIQUE (merchant_id, product_id)` -/
def MerchantInventory.key (row : MerchantInventory) : String × String := (row.merchantId, row.productId)

/-- `uq_merchant_order_reservation` -/
def MerchantInventoryReservation.key (row : MerchantInventoryReservation) : String × String × String :=
  (row.merchantId, row.orderId, row.productId)

/-- The tables of the engine. -/
structure Tables where
  inventory : List MerchantInventory
  reservations : List MerchantInventoryReservation
  products : List Product

def MerchantInventory.reserve (quantity : Int) (row : MerchantInventory) : MerchantInventory :=
  { row with availableStock := row.availableStock - quantity, reservedStock := row.reservedStock + quantity }

def MerchantInventory.release (quantity : Int) (row : MerchantInventory) : MerchantInventory :=
  { row with availableStock := row.availableStock + quantity, reservedStock := row.reservedStock - quantity }

def MerchantInventoryReservation.release (row : MerchantInventoryReservation) : MerchantInventoryReservation :=
  { row with status := .released }

/-! ### Statements -/

inductive Operation where
  | reserve | release
  deriving DecidableEq

/-- The stock of a product after a batch, for those who watch it. -/
structure InventoryLevel where
  (merchantId productId : String)
  availableStock : Int
  lowStockThreshold : Option Int

inductive Statement where
  | selectProduct (productId : String)
  | selectInventoryForUpdate (merchantId productId : String)
  /-- `WHERE id = …` -/
  | reserveStock (id : String) (quantity : Int)
  /-- `WHERE merchant_id = … AND product_id = …` -/
  | releaseStock (merchantId productId : String) (quantity : Int)
  /-- `WHERE id = … AND available_stock >= …`, or `reserved_stock >= …` for a release. -/
  | updateStock (operation : Operation) (id : String) (quantity : Int)
  /-- The identifier is drawn by the database. -/
  | insertReservation (id merchantId orderId productId : String) (quantity : Int)
  | selectReservationForUpdate (id : String)
  | releaseReservation (id : String)
  /-- `WHERE merchant_id = … AND order_id = … AND product_id = … AND status = 'reserved'` -/
  | releaseOrderReservation (merchantId orderId productId : String)
  | connect
  | acquireLock (resources : List String) (duration : Nat)
  | releaseLock
  | onStockLevelsChanged (levels : List InventoryLevel)

@[reducible] def Statement.Reply : Statement → Type
  | .selectProduct _ => Option Product
  | .selectInventoryForUpdate .. => Option MerchantInventory
  | .insertReservation .. => String
  | .selectReservationForUpdate _ => Option MerchantInventoryReservation
  | _ => Unit

inductive InventoryError where
  | insufficientStock (productId : String)
  | reservationNotFound (reservationId : String)
  | duplicateReservation (orderId productId : String)
  | error (message : String)
  | uniqueViolation
  /-- Any other error of the database, the lock or the connection. -/
  | failure (message : String)

@[reducible] def inventorySignature : Signature := ⟨Statement, Statement.Reply, InventoryError⟩

/-- What an update of the stock requires of the row. -/
def Operation.Guard (quantity : Int) (row : MerchantInventory) : Operation → Prop
  | .reserve => quantity ≤ row.availableStock
  | .release => quantity ≤ row.reservedStock

instance (quantity : Int) (row : MerchantInventory) (operation : Operation) :
    Decidable (operation.Guard quantity row) :=
  match operation with
  | .reserve => inferInstanceAs (Decidable (quantity ≤ row.availableStock))
  | .release => inferInstanceAs (Decidable (quantity ≤ row.reservedStock))

def Operation.change (quantity : Int) (row : MerchantInventory) : Operation → MerchantInventory
  | .reserve => row.reserve quantity
  | .release => row.release quantity

def execute : Statements inventorySignature Tables
  | .selectProduct productId, d => .ok (lookup Product.id d.products productId, d)
  | .selectInventoryForUpdate merchantId productId, d =>
    .ok (lookup MerchantInventory.key d.inventory (merchantId, productId), d)
  | .reserveStock id quantity, d =>
    .ok ((), { d with inventory := update MerchantInventory.id d.inventory id (·.reserve quantity) })
  | .releaseStock merchantId productId quantity, d =>
    .ok ((), { d with
      inventory := update MerchantInventory.key d.inventory (merchantId, productId) (·.release quantity) })
  | .updateStock operation id quantity, d =>
    .ok ((), { d with
      inventory := update MerchantInventory.id d.inventory id fun row =>
        if operation.Guard quantity row then operation.change quantity row else row })
  | .insertReservation id merchantId orderId productId quantity, d =>
    let row : MerchantInventoryReservation := ⟨id, merchantId, orderId, productId, quantity, .reserved⟩
    if (lookup MerchantInventoryReservation.id d.reservations id).isSome ||
        (lookup MerchantInventoryReservation.key d.reservations row.key).isSome then
      .error .uniqueViolation
    else .ok (id, { d with reservations := d.reservations ++ [row] })
  | .selectReservationForUpdate id, d => .ok (lookup MerchantInventoryReservation.id d.reservations id, d)
  | .releaseReservation id, d =>
    .ok ((), { d with reservations := update MerchantInventoryReservation.id d.reservations id (·.release) })
  | .releaseOrderReservation merchantId orderId productId, d =>
    .ok ((), { d with
      reservations := update MerchantInventoryReservation.key d.reservations (merchantId, orderId, productId)
        fun row => if row.status = .reserved then row.release else row })
  | .connect, d => .ok ((), d)
  | .acquireLock .., d => .ok ((), d)
  | .releaseLock, d => .ok ((), d)
  | .onStockLevelsChanged _, d => .ok ((), d)

abbrev InventoryM := SqlM inventorySignature

def query (o : Statement) : InventoryM o.Reply := statement (S := inventorySignature) o

def raise {α : Type} (e : InventoryError) : InventoryM α := .fail e

theorem insertReservation_ok {t t' : Tables} {id merchantId orderId productId inserted : String} {quantity : Int}
    (h : execute (.insertReservation id merchantId orderId productId quantity) t = .ok (inserted, t')) :
    lookup MerchantInventoryReservation.id t.reservations id = none ∧
      lookup MerchantInventoryReservation.key t.reservations (merchantId, orderId, productId) = none ∧
      t' = { t with
        reservations := t.reservations ++ [⟨id, merchantId, orderId, productId, quantity, .reserved⟩] } := by
  simp only [execute] at h
  split at h
  · cases h
  · rename_i hfresh
    cases h
    simp only [Bool.or_eq_true, not_or, Bool.not_eq_true, isSome_eq_false_iff, isNone_iff_eq_none] at hfresh
    exact ⟨hfresh.1, hfresh.2, rfl⟩

/-- The units that a reservation holds of a product. -/
def MerchantInventoryReservation.holds (k : String × String) (row : MerchantInventoryReservation) : Int :=
  if (row.merchantId, row.productId) = k ∧ row.status = .reserved then row.quantity else 0

/-- The sum of the quantities of the reservations of a merchant's product that are in
status `reserved`. -/
def Tables.held (d : Tables) (k : String × String) : Int := (d.reservations.map (·.holds k)).sum

def Tables.stock (d : Tables) (k : String × String) : Option Int :=
  (lookup MerchantInventory.key d.inventory k).map fun row => row.availableStock + row.reservedStock

/-- The counters of a product, against its reservations. -/
structure Balanced (d : Tables) (k : String × String) (row : MerchantInventory) : Prop where
  available : 0 ≤ row.availableStock
  reserved : 0 ≤ row.reservedStock
  agrees : row.reservedStock = d.held k

/-- What the keys of the tables promise, and counters that agree with the reservations. -/
structure Sound (d : Tables) : Prop where
  ids : Keyed MerchantInventory.id d.inventory
  keys : Keyed MerchantInventory.key d.inventory
  reservationIds : Keyed MerchantInventoryReservation.id d.reservations
  reservationKeys : Keyed MerchantInventoryReservation.key d.reservations
  positive : ∀ r ∈ d.reservations, 0 < r.quantity
  balanced : ∀ {k row}, lookup MerchantInventory.key d.inventory k = some row → Balanced d k row

theorem sound_unreserved {inventory : List MerchantInventory} {products : List Product}
    (ids : Keyed MerchantInventory.id inventory) (keys : Keyed MerchantInventory.key inventory)
    (rows : ∀ row ∈ inventory, 0 ≤ row.availableStock ∧ row.reservedStock = 0) : Sound ⟨inventory, [], products⟩ where
  ids := ids
  keys := keys
  reservationIds := nodup_nil
  reservationKeys := nodup_nil
  positive := fun _ h => by cases h
  balanced := by
    intro k row hfound
    obtain ⟨havail, hresd⟩ := rows row (lookup_mem hfound)
    exact ⟨havail, hresd.ge, hresd⟩

def Tables.reserve (d : Tables) (r : MerchantInventoryReservation) : Tables :=
  { d with
    inventory := update MerchantInventory.key d.inventory (r.merchantId, r.productId) (·.reserve r.quantity)
    reservations := d.reservations ++ [r] }

def Tables.release (d : Tables) (r : MerchantInventoryReservation) : Tables :=
  { d with
    inventory := update MerchantInventory.key d.inventory (r.merchantId, r.productId) (·.release r.quantity)
    reservations := update MerchantInventoryReservation.id d.reservations r.id (·.release) }

/-- A reservation that the stock allows. -/
structure Reservable (d : Tables) (row : MerchantInventory) (r : MerchantInventoryReservation) : Prop where
  found : lookup MerchantInventory.key d.inventory (r.merchantId, r.productId) = some row
  enough : r.quantity ≤ row.availableStock
  fresh : lookup MerchantInventoryReservation.id d.reservations r.id = none
  only : lookup MerchantInventoryReservation.key d.reservations r.key = none
  reserved : r.status = .reserved
  positive : 0 < r.quantity

/-- A reservation that is still held. -/
structure Releasable (d : Tables) (r : MerchantInventoryReservation) : Prop where
  found : lookup MerchantInventoryReservation.id d.reservations r.id = some r
  reserved : r.status = .reserved

section
variable {d : Tables} {row : MerchantInventory} {r : MerchantInventoryReservation}

theorem held_reserve (h : r.status = .reserved) (k : String × String) : (d.reserve r).held k =
    d.held k + if k = (r.merchantId, r.productId) then r.quantity else 0 := by
  simp [Tables.held, Tables.reserve, MerchantInventoryReservation.holds, h, eq_comm]

theorem held_release (hd : Sound d) (h : Releasable d r) (k : String × String) : (d.release r).held k =
    d.held k - if k = (r.merchantId, r.productId) then r.quantity else 0 := by
  simp only [Tables.held, Tables.release]
  rw [sum_update _ hd.reservationIds h.found]
  simp [MerchantInventoryReservation.holds, MerchantInventoryReservation.release, h.reserved, eq_comm]

theorem lookup_reserve (k : String × String) : lookup MerchantInventory.key (d.reserve r).inventory k =
      if k = (r.merchantId, r.productId) then (lookup MerchantInventory.key d.inventory k).map (·.reserve r.quantity)
      else lookup MerchantInventory.key d.inventory k := by
  apply lookup_update
  intro row
  rfl

theorem lookup_release (k : String × String) : lookup MerchantInventory.key (d.release r).inventory k =
      if k = (r.merchantId, r.productId) then (lookup MerchantInventory.key d.inventory k).map (·.release r.quantity)
      else lookup MerchantInventory.key d.inventory k := by
  apply lookup_update
  intro row
  rfl

theorem stock_reserve (k : String × String) : (d.reserve r).stock k = d.stock k := by
  simp only [Tables.stock, lookup_reserve]
  split
  · cases lookup MerchantInventory.key d.inventory k with
    | none => rfl
    | some row =>
      simp only [map_some, MerchantInventory.reserve, some.injEq]
      omega
  · rfl

theorem stock_release (k : String × String) : (d.release r).stock k = d.stock k := by
  simp only [Tables.stock, lookup_release]
  split
  · cases lookup MerchantInventory.key d.inventory k with
    | none => rfl
    | some row =>
      simp only [map_some, MerchantInventory.release, some.injEq]
      omega
  · rfl

theorem sound_reserve (hd : Sound d) (h : Reservable d row r) : Sound (d.reserve r) where
  ids := by
    apply hd.ids.update
    intro row
    rfl
  keys := by
    apply hd.keys.update
    intro row
    rfl
  reservationIds := hd.reservationIds.append h.fresh
  reservationKeys := hd.reservationKeys.append h.only
  positive := by
    intro x hx
    rcases mem_append.mp hx with hx | hx
    · exact hd.positive x hx
    · rw [mem_singleton.mp hx]
      exact h.positive
  balanced := by
    intro k row' hfound
    have hpos := h.positive
    have henough := h.enough
    rw [lookup_reserve] at hfound
    split at hfound
    · rename_i hk
      rw [hk, h.found] at hfound
      cases hfound
      obtain ⟨havail, hresd, hagr⟩ := hd.balanced h.found
      refine ⟨?_, ?_, ?_⟩
      · show 0 ≤ row.availableStock - r.quantity
        omega
      · show 0 ≤ row.reservedStock + r.quantity
        omega
      · rw [held_reserve h.reserved, if_pos hk, hk, ← hagr]
        rfl
    · rename_i hk
      obtain ⟨havail, hresd, hagr⟩ := hd.balanced hfound
      refine ⟨havail, hresd, ?_⟩
      rw [held_reserve h.reserved, if_neg hk]
      omega

theorem quantity_le_held (hd : Sound d) (h : Releasable d r) : r.quantity ≤ d.held (r.merchantId, r.productId) := by
  have hweights : ∀ x ∈ d.reservations.map (·.holds (r.merchantId, r.productId)), 0 ≤ x := by
    intro x hx
    obtain ⟨y, hy, rfl⟩ := mem_map.mp hx
    have hpos := hd.positive y hy
    unfold MerchantInventoryReservation.holds
    split
    · omega
    · omega
  have hmem : r.holds (r.merchantId, r.productId) ∈ d.reservations.map (·.holds (r.merchantId, r.productId)) :=
    mem_map_of_mem (lookup_mem h.found)
  calc r.quantity = r.holds (r.merchantId, r.productId) := by
        simp [MerchantInventoryReservation.holds, h.reserved]
    _ ≤ d.held (r.merchantId, r.productId) := single_le_sum hweights _ hmem

theorem sound_release (hd : Sound d) (h : Releasable d r) : Sound (d.release r) where
  ids := by
    apply hd.ids.update
    intro row
    rfl
  keys := by
    apply hd.keys.update
    intro row
    rfl
  reservationIds := by
    apply hd.reservationIds.update
    intro row
    rfl
  reservationKeys := by
    apply hd.reservationKeys.update
    intro row
    rfl
  positive := by
    intro x hx
    obtain ⟨y, hy, rfl⟩ := mem_map.mp hx
    have hpos := hd.positive y hy
    dsimp only
    split
    · exact hpos
    · exact hpos
  balanced := by
    intro k row' hfound
    have hpos := hd.positive r (lookup_mem h.found)
    rw [lookup_release] at hfound
    split at hfound
    · rename_i hk
      obtain ⟨row, hrow, rfl⟩ := map_eq_some_iff.mp hfound
      have hheld := quantity_le_held hd h
      obtain ⟨havail, hresd, hagr⟩ := hd.balanced hrow
      rw [← hk] at hheld
      refine ⟨?_, ?_, ?_⟩
      · show 0 ≤ row.availableStock + r.quantity
        omega
      · show 0 ≤ row.reservedStock - r.quantity
        omega
      · rw [held_release hd h, if_pos hk, ← hagr]
        rfl
    · rename_i hk
      obtain ⟨havail, hresd, hagr⟩ := hd.balanced hfound
      refine ⟨havail, hresd, ?_⟩
      rw [held_release hd h, if_neg hk]
      omega

end

end Delego.Inventory
