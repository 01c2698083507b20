import Delego.Data.Number
import Delego.Inventory.Stock
import Mathlib.Data.List.Sort

/-! Stock taken for the items of an order in one transaction (`orchestrator/src/inventory/allocateInventory.ts`).

Each item is checked against the rows as they were read, and what is written is the row as it was read less the item:
two items of one product are both checked against the same stock, and the later of them writes over the earlier. -/
namespace Delego.Inventory.Allocation
open Delego.Process Delego.Data List

structure InventoryDeductionItem where
  productId : String
  requestedQuantity : Number

structure AllocatedItem where
  productId : String
  remainingStock : Int
  deriving DecidableEq

structure InventoryDeductionResult where
  success : Bool
  allocatedItems : List AllocatedItem
  failedProductIds : Option (List String)
  deriving DecidableEq

/-- `Number.isInteger(item.requestedQuantity) && item.requestedQuantity > 0` -/
def InventoryDeductionItem.countable (item : InventoryDeductionItem) : Bool :=
  match item.requestedQuantity with
  | .finite q => q.isInt && decide (0 < q)
  | _ => false

def InventoryDeductionItem.units (item : InventoryDeductionItem) : Int :=
  match item.requestedQuantity with
  | .finite q => q.num
  | _ => 0

inductive Statement where
  | connect | begin | select
  | update (n : Nat)
  | rollback

/-- What the call does not decide: the order of strings, how a text is read as a UUID, in which order the rows of one
product are returned, and which statements fail. -/
structure Database where
  localeCompare : String → String → Int
  castUuid : String → Option String
  ordered : List MerchantInventory → List MerchantInventory
  ordered_perm : ∀ rows, (ordered rows).Perm rows
  refuses : Statement → Option String
  commit : Fate

def Database.perform (database : Database) (statement : Statement) : Except String Unit :=
  match database.refuses statement with
  | some message => .error message
  | none => .ok ()

/-- `WHERE product_id = ANY($1::uuid[])` -/
def Database.selectInventory (database : Database) (productIds : List String) (rows : List MerchantInventory) :
    Except String (List MerchantInventory) := do
  database.perform .select
  match productIds.mapM database.castUuid with
  | none => .error "invalid input syntax for type uuid"
  | some ids => return database.ordered (rows.filter fun row => decide (row.productId ∈ ids))

/-- `new Map(rows.map((r) => [r.product_id, r]))`: of several rows of a product, the last. -/
def rowByProductId (rows : List MerchantInventory) (productId : String) : Option MerchantInventory :=
  lookup MerchantInventory.productId rows.reverse productId

def failedProductIds (levels : String → Option MerchantInventory) (items : List InventoryDeductionItem) : List String :=
  (items.filter fun item =>
    match levels item.productId with
    | none => true
    | some row => decide (row.availableStock < item.units)).map InventoryDeductionItem.productId

/-- `SET available_stock = $1, reserved_stock = reserved_stock + $2 WHERE id = $3 AND available_stock >= $2` -/
def take (newStock units : Int) (id : String) (row : MerchantInventory) : MerchantInventory :=
  if row.id = id ∧ units ≤ row.availableStock then
    { row with availableStock := newStock, reservedStock := row.reservedStock + units }
  else row

def updateInventory (newStock units : Int) (id : String) (rows : List MerchantInventory) :
    Except String (List MerchantInventory) :=
  if rows.any fun row => decide (2 ^ 31 ≤ (take newStock units id row).reservedStock) then .error "integer out of range"
  else .ok (rows.map (take newStock units id))

def Database.updateRows (database : Database) (levels : String → Option MerchantInventory) :
    Nat → List MerchantInventory → List InventoryDeductionItem → Except String (List AllocatedItem × List MerchantInventory)
  | _, rows, [] => .ok ([], rows)
  | n, rows, item :: rest =>
    match levels item.productId with
    | none => .error "Cannot read properties of undefined (reading 'available_stock')"
    | some row => do
      let newStock := row.availableStock - item.units
      database.perform (.update n)
      let rows ← updateInventory newStock item.units row.id rows
      let (allocatedItems, rows) ← database.updateRows levels (n + 1) rows rest
      return (⟨item.productId, newStock⟩ :: allocatedItems, rows)

/-- What a transaction comes to before it is committed. -/
inductive Attempt where
  | failed (productIds : List String)
  | allocated (items : List AllocatedItem) (rows : List MerchantInventory)

def Database.attempt (database : Database) (orderedItems : List InventoryDeductionItem)
    (rows : List MerchantInventory) : Except String Attempt := do
  database.perform .connect
  database.perform .begin
  let selected ← database.selectInventory (orderedItems.map InventoryDeductionItem.productId) rows
  let levels := rowByProductId selected
  match failedProductIds levels orderedItems with
  | [] => do
    let (allocatedItems, rows) ← database.updateRows levels 0 rows orderedItems
    return .allocated allocatedItems rows
  | productIds => do
    database.perform .rollback
    return .failed productIds

def Database.sort (database : Database) (items : List InventoryDeductionItem) : List InventoryDeductionItem :=
  items.insertionSort fun a b => database.localeCompare a.productId b.productId ≤ 0

def Database.allocateInventoryWithLock (database : Database) (items : List InventoryDeductionItem)
    (rows : List MerchantInventory) : Except String InventoryDeductionResult × List MerchantInventory :=
  if items = [] then (.ok ⟨true, [], none⟩, rows)
  else
    match items.find? fun item => !item.countable with
    | some item => (.error s!"Invalid requestedQuantity for product {item.productId}: must be a positive integer", rows)
    | none =>
      match database.attempt (database.sort items) rows with
      | .error message => (.error message, rows)
      | .ok (.failed productIds) => (.ok ⟨false, [], some productIds⟩, rows)
      | .ok (.allocated allocatedItems updated) => database.commit.carry (⟨true, allocatedItems, none⟩, updated) rows

/-- `merchant_inventory`: its primary key and its check. -/
structure Table where
  rows : List MerchantInventory
  ids : Keyed MerchantInventory.id rows
  stocked : ∀ row ∈ rows, 0 ≤ row.availableStock

def inStock (count : MerchantInventory → Int) (productId : String) (rows : List MerchantInventory) : Int :=
  (rows.map fun row => if row.productId = productId then count row else 0).sum

def asked (productId : String) (items : List InventoryDeductionItem) : Int :=
  (items.map fun item => if item.productId = productId then item.units else 0).sum

/-- All that is asked for is taken, or nothing is. -/
def Exact (items : List InventoryDeductionItem) (rows : List MerchantInventory)
    (outcome : Except String InventoryDeductionResult × List MerchantInventory) : Prop :=
  match outcome with
  | (.error _, left) => left = rows
  | (.ok result, left) =>
    if result.success then
      (∀ productId, inStock MerchantInventory.availableStock productId left =
          inStock MerchantInventory.availableStock productId rows - asked productId items ∧
        inStock MerchantInventory.reservedStock productId left =
          inStock MerchantInventory.reservedStock productId rows + asked productId items) ∧
      (∀ row ∈ left, 0 ≤ row.availableStock) ∧
      ∀ allocated ∈ result.allocatedItems, ∃ row ∈ left,
        row.productId = allocated.productId ∧ row.availableStock = allocated.remainingStock
    else left = rows

def Database.Commits (database : Database) (items : List InventoryDeductionItem) (rows : List MerchantInventory) :
    Prop :=
  items ≠ [] ∧ (∀ item ∈ items, item.countable = true) ∧
    (∃ allocatedItems updated, database.attempt (database.sort items) rows = .ok (.allocated allocatedItems updated)) ∧
    ∀ message, database.commit ≠ .refused message

variable {database : Database} {levels : String → Option MerchantInventory} {item : InventoryDeductionItem}
  {items : List InventoryDeductionItem} {rows : List MerchantInventory} {row level : MerchantInventory}

theorem units_pos (h : item.countable = true) : 0 < item.units := by
  obtain ⟨productId, quantity⟩ := item
  cases quantity with
  | finite q =>
    obtain ⟨-, hpos⟩ := Bool.and_eq_true_iff.mp h
    exact Rat.num_pos.mpr (of_decide_eq_true hpos)
  | nan => cases h
  | infinity => cases h
  | negInfinity => cases h

/-! ### What the updates make of a row -/

/-- A row after an item whose product has a level. -/
def settle (levels : String → Option MerchantInventory) (row : MerchantInventory) (item : InventoryDeductionItem) :
    MerchantInventory :=
  match levels item.productId with
  | some level => take (level.availableStock - item.units) item.units level.id row
  | none => row

def settled (levels : String → Option MerchantInventory) (items : List InventoryDeductionItem)
    (row : MerchantInventory) : MerchantInventory := items.foldl (settle levels) row

/-- The levels are rows of their products, and each item is within its level. -/
structure Covered (levels : String → Option MerchantInventory) (rows : List MerchantInventory)
    (items : List InventoryDeductionItem) : Prop where
  ids : Keyed MerchantInventory.id rows
  level_mem : ∀ productId level, levels productId = some level → level ∈ rows ∧ level.productId = productId
  within : ∀ item ∈ items, ∃ level, levels item.productId = some level ∧ item.units ≤ level.availableStock

theorem take_id (newStock units : Int) (id : String) (row : MerchantInventory) :
    (take newStock units id row).id = row.id := by
  unfold take
  split
  · rfl
  · rfl

theorem take_productId (newStock units : Int) (id : String) (row : MerchantInventory) :
    (take newStock units id row).productId = row.productId := by
  unfold take
  split
  · rfl
  · rfl

theorem settle_id (levels : String → Option MerchantInventory) (row : MerchantInventory)
    (item : InventoryDeductionItem) : (settle levels row item).id = row.id := by
  unfold settle
  split
  · exact take_id _ _ _ _
  · rfl

theorem settled_productId (levels : String → Option MerchantInventory) (items : List InventoryDeductionItem)
    (row : MerchantInventory) : (settled levels items row).productId = row.productId := by
  induction items generalizing row with
  | nil => rfl
  | cons item rest ih =>
    refine (ih (settle levels row item)).trans ?_
    unfold settle
    split
    · exact take_productId _ _ _ _
    · rfl

theorem settled_other (h : ∀ item ∈ items, ∀ level, levels item.productId = some level → row.id ≠ level.id) :
    settled levels items row = row := by
  induction items with
  | nil => rfl
  | cons item rest ih =>
    have hsame : settle levels row item = row := by
      unfold settle
      split
      · rename_i level hlevel
        exact if_neg fun hguard => h item (mem_cons_self ..) level hlevel hguard.1
      · rfl
    rw [settled, foldl_cons, hsame]
    exact ih fun other hother => h other (mem_cons_of_mem _ hother)

variable {productId : String}

theorem Covered.apart (h : Covered levels rows items) (hlevel : levels productId = some level)
    {other : MerchantInventory} {product : String} (hother : levels product = some other) (hne : product ≠ productId) :
    level.id ≠ other.id := by
  intro hid
  obtain ⟨hmem, hprod⟩ := h.level_mem _ _ hlevel
  obtain ⟨hmem', hprod'⟩ := h.level_mem _ _ hother
  have hsame : level = other := Keyed.eq h.ids hmem hmem' hid
  exact hne (by rw [← hprod', ← hprod, hsame])

theorem Covered.unread (h : Covered levels rows items) (hrow : row ∈ rows) (hlevel : levels row.productId ≠ some row) :
    settled levels items row = row := by
  refine settled_other fun item _ level hfound hid => ?_
  obtain ⟨hmem, hprod⟩ := h.level_mem _ _ hfound
  obtain rfl : row = level := Keyed.eq h.ids hrow hmem hid
  exact hlevel (by rw [hprod, hfound])

theorem Covered.unasked (h : Covered levels rows items) (hlevel : levels productId = some level)
    (hunasked : productId ∉ items.map InventoryDeductionItem.productId) : settled levels items level = level :=
  settled_other fun item hitem _ hfound => h.apart hlevel hfound fun heq => hunasked (mem_map.mpr ⟨item, hitem, heq⟩)

theorem Covered.available (h : Covered levels rows items) (hlevel : levels productId = some level)
    (hid : row.id = level.id) :
    (settled levels items row).availableStock = row.availableStock ∨ ∃ item ∈ items, item.productId = productId ∧
        (settled levels items row).availableStock = level.availableStock - item.units := by
  induction items generalizing row with
  | nil => exact .inl rfl
  | cons item rest ih =>
    have hrest : Covered levels rows rest :=
      ⟨h.ids, h.level_mem, fun other hother => h.within other (mem_cons_of_mem _ hother)⟩
    have hstep := ih hrest ((settle_id levels row item).trans hid)
    obtain hsame | ⟨other, hother, hlast⟩ := hstep
    · have hfirst : (settle levels row item).availableStock = row.availableStock ∨
          item.productId = productId ∧ (settle levels row item).availableStock = level.availableStock - item.units := by
        unfold settle
        split
        · rename_i found hfound
          unfold take
          split
          · rename_i hguard
            by_cases hprod : item.productId = productId
            · rw [hprod, hlevel] at hfound
              obtain rfl := Option.some.inj hfound
              exact .inr ⟨hprod, rfl⟩
            · exact absurd (hid.symm.trans hguard.1) (h.apart hlevel hfound hprod)
          · exact .inl rfl
        · exact .inl rfl
      obtain hunch | ⟨hprod, hwrit⟩ := hfirst
      · exact .inl (hsame.trans hunch)
      · exact .inr ⟨item, mem_cons_self .., hprod, hsame.trans hwrit⟩
    · exact .inr ⟨other, mem_cons_of_mem _ hother, hlast⟩

theorem Covered.rest (h : Covered levels rows (item :: items)) : Covered levels rows items :=
  ⟨h.ids, h.level_mem, fun other hother => h.within other (mem_cons_of_mem _ hother)⟩

theorem Covered.settle_level (h : Covered levels rows (item :: items)) (hlevel : levels item.productId = some level) :
    settle levels level item = { level with
      availableStock := level.availableStock - item.units
      reservedStock := level.reservedStock + item.units } := by
  obtain ⟨found, hfound, hwithin⟩ := h.within item (mem_cons_self ..)
  rw [hlevel] at hfound
  obtain rfl := Option.some.inj hfound
  rw [settle, hlevel]
  exact if_pos ⟨rfl, hwithin⟩

theorem Covered.settle_ne (h : Covered levels rows (item :: items)) (hlevel : levels productId = some level)
    (hne : item.productId ≠ productId) : settle levels level item = level := by
  have hone : settled levels [item] level = level := by
    refine settled_other fun other hother _ hfound => ?_
    rw [mem_singleton.mp hother] at hfound
    exact h.apart hlevel hfound hne
  exact hone

theorem Covered.taken (h : Covered levels rows items) (hlevel : levels productId = some level)
    (hasked : productId ∈ items.map InventoryDeductionItem.productId) :
    ∃ item ∈ items, item.productId = productId ∧
      (settled levels items level).availableStock = level.availableStock - item.units := by
  induction items with
  | nil => cases hasked
  | cons item rest ih =>
    by_cases hprod : item.productId = productId
    · subst hprod
      have hwrit := h.settle_level hlevel
      obtain hsame | ⟨other, hother, hprod, hlast⟩ := h.rest.available hlevel (settle_id levels level item)
      · exact ⟨item, mem_cons_self .., rfl, hsame.trans (by rw [hwrit])⟩
      · exact ⟨other, mem_cons_of_mem _ hother, hprod, hlast⟩
    · obtain ⟨other, hother, hfound⟩ := ih h.rest (mem_of_ne_of_mem (Ne.symm hprod) hasked)
      refine ⟨other, mem_cons_of_mem _ hother, hfound.1, ?_⟩
      rw [settled, foldl_cons, h.settle_ne hlevel hprod]
      exact hfound.2

theorem Covered.taken_once (h : Covered levels rows items)
    (hnodup : (items.map InventoryDeductionItem.productId).Nodup) (hitem : item ∈ items)
    (hlevel : levels item.productId = some level) :
    settled levels items level = { level with
      availableStock := level.availableStock - item.units
      reservedStock := level.reservedStock + item.units } := by
  induction items with
  | nil => cases hitem
  | cons first rest ih =>
    obtain ⟨hfirst, hrest⟩ := nodup_cons.mp hnodup
    rw [settled, foldl_cons]
    obtain rfl | hlater := mem_cons.mp hitem
    · rw [h.settle_level hlevel]
      refine settled_other fun other hother _ hfound => h.apart hlevel hfound fun heq => ?_
      exact hfirst (mem_map.mpr ⟨other, hother, heq⟩)
    · have hne : first.productId ≠ item.productId := fun heq => hfirst (mem_map.mpr ⟨item, hlater, heq.symm⟩)
      rw [h.settle_ne hlevel hne]
      exact ih h.rest hrest hlater

theorem Covered.inStock_settled (h : Covered levels rows items) (count : MerchantInventory → Int)
    (hlevel : levels productId = some level) :
    inStock count productId (rows.map (settled levels items)) =
      inStock count productId rows - count level + count (settled levels items level) := by
  obtain ⟨hmem, hprod⟩ := h.level_mem _ _ hlevel
  have hfound : lookup MerchantInventory.id rows level.id = some level := Keyed.found h.ids hmem
  have hsum := sum_update (f := settled levels items)
    (fun row => if row.productId = productId then count row else 0) h.ids hfound
  rw [settled_productId, if_pos hprod, if_pos hprod] at hsum
  rw [inStock, inStock, ← hsum, map_map, update, map_map]
  congr 1
  refine map_congr_left fun row hrow => ?_
  simp only [Function.comp_apply]
  split
  · rename_i hasked
    split
    · rfl
    · rename_i hid
      rw [settled_productId] at hasked
      have hunread : settled levels items row = row := by
        refine h.unread hrow fun hfound => hid ?_
        rw [hasked, hlevel] at hfound
        rw [Option.some.inj hfound]
      rw [hunread, if_pos hasked]
  · rename_i hasked
    rw [settled_productId] at hasked
    split
    · rw [settled_productId, if_neg hasked]
    · rfl

theorem inStock_congr {count : MerchantInventory → Int} {f : MerchantInventory → MerchantInventory}
    (hprod : ∀ row, (f row).productId = row.productId) (h : ∀ row ∈ rows, row.productId = productId → f row = row) :
    inStock count productId (rows.map f) = inStock count productId rows := by
  rw [inStock, inStock, map_map]
  congr 1
  refine map_congr_left fun row hrow => ?_
  simp only [Function.comp_apply, hprod]
  split
  · rename_i hasked
    rw [h row hrow hasked]
  · rfl

theorem asked_of_not_mem (h : productId ∉ items.map InventoryDeductionItem.productId) : asked productId items = 0 := by
  refine sum_eq_zero fun x hx => ?_
  obtain ⟨item, hitem, rfl⟩ := mem_map.mp hx
  exact if_neg fun heq => h (mem_map.mpr ⟨item, hitem, heq⟩)

theorem asked_of_nodup (hnodup : (items.map InventoryDeductionItem.productId).Nodup) (hitem : item ∈ items) :
    asked item.productId items = item.units := by
  induction items with
  | nil => cases hitem
  | cons first rest ih =>
    obtain ⟨hfirst, hrest⟩ := nodup_cons.mp hnodup
    rw [asked, map_cons, sum_cons]
    obtain rfl | hlater := mem_cons.mp hitem
    · rw [if_pos rfl]
      exact (congrArg (item.units + ·) (asked_of_not_mem hfirst)).trans (add_zero _)
    · have hne : first.productId ≠ item.productId := fun heq => hfirst (mem_map.mpr ⟨item, hlater, heq.symm⟩)
      rw [if_neg hne, zero_add]
      exact ih hrest hlater

theorem count_le_one (hcountable : ∀ item ∈ items, item.countable = true) (hitem : item ∈ items)
    (hprod : item.productId = productId) (h : asked productId items = item.units) :
    (items.map InventoryDeductionItem.productId).count productId ≤ 1 := by
  obtain ⟨before, after, rfl⟩ := append_of_mem hitem
  have hnonneg : ∀ part : List InventoryDeductionItem, (∀ item ∈ part, item.countable = true) →
      0 ≤ asked productId part ∧ (asked productId part = 0 → productId ∉ part.map InventoryDeductionItem.productId) := by
    intro part hpart
    have hterm : ∀ x ∈ part.map fun item => if item.productId = productId then item.units else 0, 0 ≤ x := by
      intro x hx
      obtain ⟨other, hother, rfl⟩ := mem_map.mp hx
      split
      · exact (units_pos (hpart other hother)).le
      · exact le_refl 0
    refine ⟨sum_nonneg hterm, fun hzero hmem => ?_⟩
    obtain ⟨other, hother, hsame⟩ := mem_map.mp hmem
    have hle := single_le_sum hterm _ (mem_map.mpr ⟨other, hother, rfl⟩)
    rw [if_pos hsame] at hle
    exact absurd (hle.trans hzero.le) (not_le.mpr (units_pos (hpart other hother)))
  obtain ⟨hpre, hnone⟩ := hnonneg before fun other hother => hcountable other (mem_append_left _ hother)
  obtain ⟨hafter, hnone'⟩ := hnonneg after fun other hother =>
    hcountable other (mem_append_right _ (mem_cons_of_mem _ hother))
  have hsplit : asked productId (before ++ item :: after) =
      asked productId before + (item.units + asked productId after) := by
    simp only [asked, map_append, map_cons, sum_append, sum_cons, if_pos hprod]
  rw [hsplit] at h
  rw [map_append, map_cons, count_append, count_cons, hprod,
    count_eq_zero_of_not_mem (hnone (by omega)), count_eq_zero_of_not_mem (hnone' (by omega))]
  simp

theorem selectInventory_ok {productIds : List String} {selected : List MerchantInventory}
    (h : database.selectInventory productIds rows = .ok selected) : ∀ row ∈ selected, row ∈ rows := by
  unfold Database.selectInventory at h
  cases hperf : database.perform .select with
  | error message =>
    rw [hperf] at h
    cases h
  | ok u =>
    rw [hperf] at h
    cases hcast : productIds.mapM database.castUuid with
    | none =>
      rw [hcast] at h
      cases h
    | some ids =>
      rw [hcast] at h
      obtain rfl := Except.ok.inj h
      intro row hrow
      exact mem_of_mem_filter ((database.ordered_perm _).mem_iff.mp hrow)

theorem rowByProductId_some {selected : List MerchantInventory} (h : rowByProductId selected productId = some level) :
    level ∈ selected ∧ level.productId = productId :=
  ⟨mem_reverse.mp (lookup_mem h), lookup_key h⟩

theorem failedProductIds_nil (h : failedProductIds levels items = []) :
    ∀ item ∈ items, ∃ level, levels item.productId = some level ∧ item.units ≤ level.availableStock := by
  intro item hitem
  have hcovered := filter_eq_nil_iff.mp (map_eq_nil_iff.mp h) item hitem
  cases hlevel : levels item.productId with
  | none => simp [hlevel] at hcovered
  | some level => exact ⟨level, rfl, by simpa [hlevel] using hcovered⟩

variable {updated : List MerchantInventory}

theorem updateInventory_ok {newStock units : Int} {id : String}
    (h : updateInventory newStock units id rows = .ok updated) : updated = rows.map (take newStock units id) := by
  unfold updateInventory at h
  split at h
  · cases h
  · exact (Except.ok.inj h).symm

variable {allocatedItems : List AllocatedItem}

theorem updateRows_ok {n : Nat} (h : database.updateRows levels n rows items = .ok (allocatedItems, updated)) :
    updated = rows.map (settled levels items) ∧
      ∀ allocated ∈ allocatedItems, ∃ item ∈ items, ∃ level, levels item.productId = some level ∧
        allocated = ⟨item.productId, level.availableStock - item.units⟩ := by
  induction items generalizing n rows allocatedItems with
  | nil =>
    obtain ⟨rfl, rfl⟩ := Prod.mk.inj (Except.ok.inj h)
    exact ⟨(map_id rows).symm, fun _ hnone => by cases hnone⟩
  | cons item rest ih =>
    unfold Database.updateRows at h
    cases hlevel : levels item.productId with
    | none =>
      simp only [hlevel] at h
      cases h
    | some level =>
      simp only [hlevel] at h
      cases hperf : database.perform (.update n) with
      | error message =>
        rw [hperf] at h
        cases h
      | ok u =>
        rw [hperf] at h
        cases hwrit : updateInventory (level.availableStock - item.units) item.units level.id rows with
        | error message =>
          simp only [hwrit] at h
          cases h
        | ok written =>
          cases hrest : database.updateRows levels (n + 1) written rest with
          | error message =>
            simp only [hwrit] at h
            exact absurd h (by simp [hrest, bind, Except.bind])
          | ok outcome =>
            obtain ⟨restItems, restRows⟩ := outcome
            simp only [hwrit] at h
            simp only [bind, Except.bind, hrest, pure, Except.pure, Except.ok.injEq, Prod.mk.injEq] at h
            obtain ⟨rfl, rfl⟩ := h
            obtain ⟨hupdated, hallocated⟩ := ih hrest
            refine ⟨?_, ?_⟩
            · rw [hupdated, updateInventory_ok hwrit, map_map]
              refine map_congr_left fun row _ => ?_
              simp only [Function.comp_apply, settled, foldl_cons, settle, hlevel]
            · intro allocated hmem
              obtain rfl | hlater := mem_cons.mp hmem
              · exact ⟨item, mem_cons_self .., level, hlevel, rfl⟩
              · obtain ⟨other, hother, hfound⟩ := hallocated allocated hlater
                exact ⟨other, mem_cons_of_mem _ hother, hfound⟩

theorem attempt_allocated (ids : Keyed MerchantInventory.id rows)
    (h : database.attempt items rows = .ok (.allocated allocatedItems updated)) :
    ∃ levels, Covered levels rows items ∧ updated = rows.map (settled levels items) ∧
      ∀ allocated ∈ allocatedItems, ∃ item ∈ items, ∃ level, levels item.productId = some level ∧
        allocated = ⟨item.productId, level.availableStock - item.units⟩ := by
  unfold Database.attempt at h
  cases hconnect : database.perform .connect with
  | error message =>
    rw [hconnect] at h
    cases h
  | ok u =>
    cases hbegin : database.perform .begin with
    | error message =>
      rw [hconnect, hbegin] at h
      cases h
    | ok u =>
      rw [hconnect, hbegin] at h
      cases hselected : database.selectInventory (items.map InventoryDeductionItem.productId) rows with
      | error message =>
        rw [hselected] at h
        cases h
      | ok selected =>
        rw [hselected] at h
        simp only [bind, Except.bind] at h
        split at h
        · rename_i hcovered
          cases hupdates : database.updateRows (rowByProductId selected) 0 rows items with
          | error message =>
            simp [hupdates] at h
          | ok outcome =>
            obtain ⟨items', rows'⟩ := outcome
            rw [hupdates] at h
            simp only [pure, Except.pure, Except.ok.injEq, Attempt.allocated.injEq] at h
            obtain ⟨rfl, rfl⟩ := h
            refine ⟨rowByProductId selected, ⟨ids, ?_, failedProductIds_nil hcovered⟩, updateRows_ok hupdates⟩
            intro productId level hlevel
            obtain ⟨hmem, hprod⟩ := rowByProductId_some hlevel
            exact ⟨selectInventory_ok hselected level hmem, hprod⟩
        · cases hroll : database.perform .rollback with
          | error message =>
            simp [hroll] at h
          | ok u =>
            rw [hroll] at h
            cases h

theorem asked_perm {items' : List InventoryDeductionItem} (h : items'.Perm items) (productId : String) :
    asked productId items' = asked productId items := (h.map _).sum_eq

/-- **Items of different products.** -/
theorem Covered.exact (h : Covered levels rows items) (hstocked : ∀ row ∈ rows, 0 ≤ row.availableStock)
    (hnodup : (items.map InventoryDeductionItem.productId).Nodup)
    (hallocated : ∀ allocated ∈ allocatedItems, ∃ item ∈ items, ∃ level, levels item.productId = some level ∧
      allocated = ⟨item.productId, level.availableStock - item.units⟩) :
    Exact items rows (.ok ⟨true, allocatedItems, none⟩, rows.map (settled levels items)) := by
  refine ⟨fun productId => ?_, ?_, ?_⟩
  · by_cases hasked : productId ∈ items.map InventoryDeductionItem.productId
    · obtain ⟨item, hitem, rfl⟩ := mem_map.mp hasked
      obtain ⟨level, hlevel, -⟩ := h.within item hitem
      rw [h.inStock_settled _ hlevel, h.inStock_settled _ hlevel, h.taken_once hnodup hitem hlevel,
        asked_of_nodup hnodup hitem]
      simp only
      omega
    · have hsame : ∀ row ∈ rows, row.productId = productId → settled levels items row = row := by
        rintro row hrow rfl
        by_cases hlevel : levels row.productId = some row
        · exact h.unasked hlevel hasked
        · exact h.unread hrow hlevel
      rw [inStock_congr (settled_productId levels items) hsame, inStock_congr (settled_productId levels items) hsame,
        asked_of_not_mem hasked, sub_zero, add_zero]
      exact ⟨rfl, rfl⟩
  · intro row hrow
    obtain ⟨before, hpre, rfl⟩ := mem_map.mp hrow
    by_cases hlevel : levels before.productId = some before
    · obtain hsame | ⟨item, hitem, hprod, hlast⟩ := h.available hlevel rfl
      · rw [hsame]
        exact hstocked before hpre
      · obtain ⟨level, hfound, hwithin⟩ := h.within item hitem
        rw [hprod, hlevel] at hfound
        rw [hlast, Option.some.inj hfound]
        omega
    · rw [h.unread hpre hlevel]
      exact hstocked before hpre
  · intro allocated hmem
    obtain ⟨item, hitem, level, hlevel, rfl⟩ := hallocated allocated hmem
    refine ⟨settled levels items level, mem_map.mpr ⟨level, (h.level_mem _ _ hlevel).1, rfl⟩, ?_, ?_⟩
    · rw [settled_productId]
      exact (h.level_mem _ _ hlevel).2
    · rw [h.taken_once hnodup hitem hlevel]

theorem Covered.nodup (h : Covered levels rows items) (hcountable : ∀ item ∈ items, item.countable = true)
    (htaken : ∀ productId, inStock MerchantInventory.availableStock productId (rows.map (settled levels items)) =
      inStock MerchantInventory.availableStock productId rows - asked productId items) :
    (items.map InventoryDeductionItem.productId).Nodup := by
  rw [nodup_iff_count_le_one]
  intro productId
  by_cases hasked : productId ∈ items.map InventoryDeductionItem.productId
  · obtain ⟨item, hitem, hprod⟩ := mem_map.mp hasked
    obtain ⟨level, hlevel, -⟩ := h.within item hitem
    rw [hprod] at hlevel
    obtain ⟨last, hlast, hsame, hsett⟩ := h.taken hlevel hasked
    have hexact := htaken productId
    rw [h.inStock_settled _ hlevel, hsett] at hexact
    exact count_le_one hcountable hlast hsame (by omega)
  · rw [count_eq_zero_of_not_mem hasked]
    exact zero_le_one

theorem Covered.changed (h : Covered levels rows items) (hcountable : ∀ item ∈ items, item.countable = true)
    (hitems : items ≠ []) : rows.map (settled levels items) ≠ rows := by
  intro hsame
  obtain ⟨item, rest, rfl⟩ := exists_cons_of_ne_nil hitems
  obtain ⟨level, hlevel, -⟩ := h.within item (mem_cons_self ..)
  obtain ⟨last, hlast, -, hsett⟩ := h.taken hlevel (mem_map.mpr ⟨item, mem_cons_self .., rfl⟩)
  have hstock := h.inStock_settled MerchantInventory.availableStock hlevel
  rw [hsame, hsett] at hstock
  have hpos := units_pos (hcountable last hlast)
  omega

/-- **Stock is taken exactly**, if no product is listed twice and the answer to `COMMIT` arrives, or the call fails
before. -/
theorem allocation_exact (database : Database) (table : Table) (items : List InventoryDeductionItem) :
    Exact items table.rows (database.allocateInventoryWithLock items table.rows) ↔ (database.Commits items table.rows →
        (items.map InventoryDeductionItem.productId).Nodup ∧ database.commit = .done) := by
  unfold Database.allocateInventoryWithLock
  split
  · rename_i hempty
    refine ⟨fun _ hcommits => absurd hempty hcommits.1, fun _ => ?_⟩
    subst hempty
    refine ⟨fun productId => ?_, table.stocked, fun _ hnone => by cases hnone⟩
    simp [asked]
  · rename_i hitems
    split
    · rename_i item hinvalid
      refine ⟨fun _ hcommits => ?_, fun _ => rfl⟩
      have hcountable := hcommits.2.1 item (mem_of_find?_eq_some hinvalid)
      have hnot := find?_some hinvalid
      simp [hcountable] at hnot
    · rename_i hvalid
      have hcountable : ∀ item ∈ items, item.countable = true := by
        intro item hitem
        simpa using find?_eq_none.mp hvalid item hitem
      split
      · rename_i message hattempt
        refine ⟨fun _ hcommits => ?_, fun _ => rfl⟩
        obtain ⟨_, _, hallocated⟩ := hcommits.2.2.1
        simp [hattempt] at hallocated
      · rename_i productIds hattempt
        refine ⟨fun _ hcommits => ?_, fun _ => rfl⟩
        obtain ⟨_, _, hallocated⟩ := hcommits.2.2.1
        simp [hattempt] at hallocated
      · rename_i allocatedItems updated hattempt
        have hperm : (database.sort items).Perm items := perm_insertionSort _ _
        have hsorted : ∀ item ∈ database.sort items, item.countable = true :=
          fun item hitem => hcountable item (hperm.mem_iff.mp hitem)
        obtain ⟨levels, hcovered, rfl, hallocated⟩ := attempt_allocated table.ids hattempt
        cases hcommit : database.commit with
        | done =>
          constructor
          · intro hexact _
            refine ⟨(hperm.map _).nodup_iff.mp (hcovered.nodup hsorted fun productId => ?_), rfl⟩
            rw [asked_perm hperm]
            exact (hexact.1 productId).1
          · intro h
            have hnodup := (h ⟨hitems, hcountable, ⟨_, _, hattempt⟩, fun message => by simp [hcommit]⟩).1
            obtain ⟨htaken, hrest⟩ := hcovered.exact table.stocked ((hperm.map _).nodup_iff.mpr hnodup) hallocated
            refine ⟨fun productId => ?_, hrest⟩
            rw [← asked_perm hperm]
            exact htaken productId
        | refused message => exact ⟨fun _ hcommits => absurd hcommit (hcommits.2.2.2 message), fun _ => rfl⟩
        | lost message =>
          constructor
          · intro hsame
            exact absurd hsame (hcovered.changed hsorted fun hnil => hitems (perm_nil.mp (hnil ▸ hperm.symm)))
          · intro h
            have hdone := (h ⟨hitems, hcountable, ⟨_, _, hattempt⟩, fun other => by simp [hcommit]⟩).2
            cases hdone

def plain : Database where
  localeCompare _ _ := 0
  castUuid := some
  ordered rows := rows
  ordered_perm _ := .refl _
  refuses _ := none
  commit := .done

def tenUnits : Table where
  rows := [⟨"row-1", "merchant-1", "product-1", 10, 0, none⟩]
  ids := by decide
  stocked := by decide

def listedTwice : List InventoryDeductionItem := [⟨"product-1", .finite 3⟩, ⟨"product-1", .finite 4⟩]

/-- Of ten units seven are asked for, and six are left. -/
theorem listed_twice_taken_once : plain.allocateInventoryWithLock listedTwice tenUnits.rows =
        (.ok ⟨true, [⟨"product-1", 7⟩, ⟨"product-1", 6⟩], none⟩, [⟨"row-1", "merchant-1", "product-1", 6, 7, none⟩]) ∧
      ¬ Exact listedTwice tenUnits.rows (plain.allocateInventoryWithLock listedTwice tenUnits.rows) := by
  have hrun : plain.allocateInventoryWithLock listedTwice tenUnits.rows =
      (.ok ⟨true, [⟨"product-1", 7⟩, ⟨"product-1", 6⟩], none⟩, [⟨"row-1", "merchant-1", "product-1", 6, 7, none⟩]) := by
    decide
  refine ⟨hrun, ?_⟩
  rw [hrun]
  intro h
  exact absurd (h.1 "product-1").1 (by decide)

end Delego.Inventory.Allocation
