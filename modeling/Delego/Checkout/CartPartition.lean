import Delego.Data.Grouping
import Delego.Data.Number
import Delego.Data.Text
import Mathlib.Algebra.Order.BigOperators.Group.List
import Mathlib.Data.String.Basic

/-! A cart divided among its merchants (`orchestrator/src/checkout/cartPartition.ts`).

The batches hold the cart: its items, and its sum; the taxes are rounded down merchant by merchant, and together fall
short of the tax of the whole cart by less than one stroop a merchant. -/
namespace Delego.Checkout.CartPartition
open Delego.Data List

structure CheckoutCartItem where
  (productId merchantId : String)
  quantity : Number
  unitPriceStroops : String
  deriving DecidableEq

/-- Amounts, which the payload writes in decimal, are the numbers themselves. -/
structure PartitionedCheckoutBatch where
  (merchantId merchantPayoutAddress : String)
  items : List CheckoutCartItem
  (subtotalStroops taxStroops shippingStroops totalEscrowAmountStroops : Int)
  escrowSalt : String
  deriving DecidableEq

/-- How a `uuid` is written: 32 hexadecimal digits in lower case, in five groups. -/
def isUuidText (text : String) : Bool :=
  decide (text.toList.length = 36) && text.toList.zipIdx.all fun (c, i) =>
    if i ∈ [8, 13, 18, 23] then c = '-' else c.isDigit || (decide ('a' ≤ c) && decide (c ≤ 'f'))

structure Uuid where
  text : String
  written : isUuidText text = true
  deriving DecidableEq

structure MerchantRecord where
  id : Uuid
  stellarAddress : Option String
  isVerified : Bool

inductive CheckoutError where
  | cartValidation (message : String)
  | merchantContractBinding (merchantId reason : String)
  | database (message : String)
  deriving DecidableEq

def DEFAULT_TAX_RATE_BASIS_POINTS : Int := 875

def DEFAULT_SHIPPING_STROOPS : Int := 10000000

/-- `(subtotalStroops * BigInt(taxRateBasisPoints)) / 10_000n` -/
def computeTax (subtotalStroops taxRateBasisPoints : Int) : Int := (subtotalStroops * taxRateBasisPoints).tdiv 10000

/-- An order of strings, as `localeCompare` has it: it need not tell all strings apart, but it does tell apart two that
are written in lower case hexadecimal digits. -/
structure Collation where
  localeCompare : String → String → Int
  total : ∀ a b, localeCompare a b ≤ 0 ∨ localeCompare b a ≤ 0
  trans : ∀ a b c, localeCompare a b ≤ 0 → localeCompare b c ≤ 0 → localeCompare a c ≤ 0
  uuids : ∀ a b : Uuid, localeCompare a.text b.text ≤ 0 → localeCompare b.text a.text ≤ 0 → a = b

/-- The table of merchants, and what the language and the database provide. -/
structure CartPartitionService where
  merchants : List MerchantRecord
  refuses : Option String
  castUuid : String → Option Uuid
  conv : Conversions
  numberText : Number → String
  sha256 : String → String
  collation : Collation

namespace CartPartitionService

def deriveEscrowSalt (service : CartPartitionService) (orderId merchantId : String) : String :=
  service.sha256 s!"{orderId}:{merchantId}"

def invalid (service : CartPartitionService) (item : CheckoutCartItem) : Option String :=
  if !(match item.quantity with
    | .finite q => q.isInt && decide (0 < q)
    | _ => false) then
    some s!"Item for product {item.productId} has an invalid quantity: {service.numberText item.quantity}"
  else
    match service.conv.bigInt item.unitPriceStroops with
    | none => some s!"Item for product {item.productId} has a non-integer unitPriceStroops: \"{item.unitPriceStroops}\""
    | some price =>
      if price ≤ 0 then some s!"Item for product {item.productId} has a non-positive unitPriceStroops: {price}" else none

def validateCartItems (service : CartPartitionService) (items : List CheckoutCartItem) : Except CheckoutError Unit :=
  match items.findSome? service.invalid with
  | some message => .error (.cartValidation message)
  | none => .ok ()

/-- `byId.get(merchantId)` -/
def byId (rows : List MerchantRecord) (merchantId : String) : Option MerchantRecord :=
  lookup (fun row => row.id.text) rows.reverse merchantId

def unbound (service : CartPartitionService) (rows : List MerchantRecord) (merchantId : String) :
    Option CheckoutError :=
  match byId rows merchantId with
  | none => some (.merchantContractBinding merchantId "merchant not found")
  | some merchant =>
    if !merchant.isVerified then some (.merchantContractBinding merchantId "merchant account is not verified")
    else if service.conv.trim (merchant.stellarAddress.getD "") = "" ∨ merchant.stellarAddress.getD "" = "" then
      some (.merchantContractBinding merchantId "merchant has no Soroban payout address (stellar_address is empty)")
    else none

def loadAndValidateMerchants (service : CartPartitionService) (merchantIds : List String) :
    Except CheckoutError (List MerchantRecord) :=
  match service.refuses with
  | some message => .error (.database message)
  | none =>
    match merchantIds.find? fun merchantId => (service.castUuid merchantId).isNone with
    | some merchantId => .error (.database s!"invalid input syntax for type uuid: \"{merchantId}\"")
    | none =>
      let rows := service.merchants.filter fun row =>
        merchantIds.any fun merchantId => decide (service.castUuid merchantId = some row.id)
      match merchantIds.findSome? (service.unbound rows) with
      | some error => .error error
      | none => .ok rows

/-- `BigInt(item.unitPriceStroops) * BigInt(item.quantity)`, of an item that was checked. -/
def price (service : CartPartitionService) (item : CheckoutCartItem) : Int :=
  (service.conv.bigInt item.unitPriceStroops).getD 0 * match item.quantity with
    | .finite q => q.num
    | _ => 0

def subtotal (service : CartPartitionService) (items : List CheckoutCartItem) : Int := (items.map service.price).sum

def batch (service : CartPartitionService) (orderId : String) (rows : List MerchantRecord)
    (group : String × List CheckoutCartItem) : PartitionedCheckoutBatch :=
  let subtotalStroops := service.subtotal group.2
  let taxStroops := computeTax subtotalStroops DEFAULT_TAX_RATE_BASIS_POINTS
  { merchantId := group.1, merchantPayoutAddress := ((byId rows group.1).bind MerchantRecord.stellarAddress).getD ""
    items := group.2, subtotalStroops := subtotalStroops, taxStroops := taxStroops
    shippingStroops := DEFAULT_SHIPPING_STROOPS
    totalEscrowAmountStroops := subtotalStroops + taxStroops + DEFAULT_SHIPPING_STROOPS
    escrowSalt := service.deriveEscrowSalt orderId group.1 }

def partitionByMerchant (service : CartPartitionService) (orderId : String) (cartItems : List CheckoutCartItem) :
    Except CheckoutError (List PartitionedCheckoutBatch) := do
  if cartItems = [] then .error (.cartValidation "Cart must contain at least one item")
  service.validateCartItems cartItems
  let byMerchant := groupedBy CheckoutCartItem.merchantId cartItems
  let merchants ← service.loadAndValidateMerchants (byMerchant.map Prod.fst)
  return (byMerchant.map (service.batch orderId merchants)).insertionSort fun a b =>
    service.collation.localeCompare a.merchantId b.merchantId ≤ 0

variable {service : CartPartitionService} {orderId : String} {cart cart' : List CheckoutCartItem}
  {batches : List PartitionedCheckoutBatch} {rows : List MerchantRecord} {merchantId : String}

def before (service : CartPartitionService) (a b : String) : Prop := service.collation.localeCompare a b ≤ 0

instance (service : CartPartitionService) : DecidableRel service.before :=
  fun a b => inferInstanceAs (Decidable (service.collation.localeCompare a b ≤ 0))

instance (service : CartPartitionService) : Std.Total service.before := ⟨service.collation.total⟩

instance (service : CartPartitionService) : IsTrans String service.before := ⟨service.collation.trans⟩

def merchantIds (cart : List CheckoutCartItem) : List String := (groupedBy CheckoutCartItem.merchantId cart).map Prod.fst

def batchesOf (service : CartPartitionService) (orderId : String) (rows : List MerchantRecord)
    (cart : List CheckoutCartItem) (merchantIds : List String) : List PartitionedCheckoutBatch :=
  merchantIds.map fun merchantId =>
    service.batch orderId rows (merchantId, groupOf CheckoutCartItem.merchantId merchantId cart)

theorem validateCartItems_ok : service.validateCartItems cart = .ok () ↔ ∀ item ∈ cart, service.invalid item = none := by
  unfold validateCartItems
  cases hinvalid : cart.findSome? service.invalid with
  | some message =>
    refine ⟨fun h => (nomatch h), fun hvalid => ?_⟩
    simp [findSome?_eq_none_iff.mpr hvalid] at hinvalid
  | none => exact ⟨fun _ => findSome?_eq_none_iff.mp hinvalid, fun _ => rfl⟩

theorem batchesOf_merchantIds : service.batchesOf orderId rows cart (merchantIds cart) =
      (groupedBy CheckoutCartItem.merchantId cart).map (service.batch orderId rows) := by
  conv_rhs => rw [groupedBy_eq]
  rw [map_map]
  rfl

/-- A cart is accepted if its items and its merchants pass; the batches are those of the merchants in their order. -/
theorem partitionByMerchant_ok : service.partitionByMerchant orderId cart = .ok batches ↔
      cart ≠ [] ∧ (∀ item ∈ cart, service.invalid item = none) ∧
        ∃ rows, service.loadAndValidateMerchants (merchantIds cart) = .ok rows ∧
          batches = service.batchesOf orderId rows cart ((merchantIds cart).insertionSort service.before) := by
  have hsorted (rows : List MerchantRecord) :
      ((groupedBy CheckoutCartItem.merchantId cart).map (service.batch orderId rows)).insertionSort
          (fun a b => service.before a.merchantId b.merchantId) =
        service.batchesOf orderId rows cart ((merchantIds cart).insertionSort service.before) := by
    rw [← batchesOf_merchantIds, batchesOf, batchesOf]
    exact (map_insertionSort service.before (fun a b : PartitionedCheckoutBatch => service.before a.merchantId b.merchantId) _
      (merchantIds cart) fun _ _ _ _ => Iff.rfl).symm
  unfold partitionByMerchant
  by_cases hempty : cart = []
  · rw [if_pos hempty]
    exact ⟨fun h => (nomatch h), fun h => absurd hempty h.1⟩
  · rw [if_neg hempty]
    cases hvalid : service.validateCartItems cart with
    | error error =>
      refine ⟨fun h => (nomatch h), fun h => ?_⟩
      simp [validateCartItems_ok.mpr h.2.1] at hvalid
    | ok u =>
      cases hloaded : service.loadAndValidateMerchants (merchantIds cart) with
      | error error =>
        simp only [merchantIds] at hloaded
        constructor
        · intro h
          simp only [bind, Except.bind, hloaded] at h
          cases h
        · rintro ⟨-, -, rows, hrows, -⟩
          cases hrows
      | ok rows =>
        have hloaded' := hloaded
        simp only [merchantIds] at hloaded'
        simp only [pure, Except.pure, bind, Except.bind, hloaded', Except.ok.injEq, exists_eq_left']
        refine ⟨fun h => ⟨hempty, fun item hitem => validateCartItems_ok.mp hvalid item hitem, ?_⟩, fun h => ?_⟩
        · rw [← h]
          exact hsorted rows
        · rw [h.2.2]
          exact hsorted rows

theorem unbound_eq_none (h : service.unbound rows merchantId = none) :
    ∃ merchant ∈ rows, merchant.id.text = merchantId := by
  unfold unbound at h
  split at h
  · cases h
  · rename_i merchant hfound
    have hkey := lookup_key hfound
    exact ⟨merchant, mem_reverse.mp (lookup_mem hfound), hkey⟩

theorem loadAndValidateMerchants_perm {ids ids' : List String} (hperm : ids'.Perm ids)
    (h : service.loadAndValidateMerchants ids = .ok rows) :
    service.loadAndValidateMerchants ids' = .ok rows ∧ ∀ id ∈ ids, ∃ merchant ∈ rows, merchant.id.text = id := by
  unfold loadAndValidateMerchants at h ⊢
  cases hrefuses : service.refuses with
  | some message =>
    simp [hrefuses] at h
  | none =>
    simp only [hrefuses] at h ⊢
    cases hcast : ids.find? fun merchantId => (service.castUuid merchantId).isNone with
    | some merchantId =>
      simp [hcast] at h
    | none =>
      simp only [hcast] at h
      have hcast' : (ids'.find? fun merchantId => (service.castUuid merchantId).isNone) = none :=
        find?_eq_none.mpr fun id hid => find?_eq_none.mp hcast id (hperm.mem_iff.mp hid)
      have hrows : (service.merchants.filter fun row =>
            ids'.any fun merchantId => decide (service.castUuid merchantId = some row.id)) =
          service.merchants.filter fun row =>
            ids.any fun merchantId => decide (service.castUuid merchantId = some row.id) :=
        filter_congr fun row _ => hperm.any_eq
      simp only [hcast', hrows]
      split at h
      · cases h
      · rename_i hbound
        obtain rfl := Except.ok.inj h
        have hpass := findSome?_eq_none_iff.mp hbound
        rw [findSome?_eq_none_iff.mpr fun id hid => hpass id (hperm.mem_iff.mp hid)]
        exact ⟨rfl, fun id hid => unbound_eq_none (hpass id hid)⟩

theorem price_pos {item : CheckoutCartItem} (h : service.invalid item = none) : 0 < service.price item := by
  obtain ⟨productId, merchantId, quantity, unitPriceStroops⟩ := item
  cases quantity with
  | finite q =>
    simp only [invalid] at h
    split at h
    · cases h
    · rename_i hqty
      split at h
      · cases h
      · rename_i price hprice
        split at h
        · cases h
        · rename_i hpos
          simp only [Bool.not_eq_true', Bool.not_eq_false, Bool.and_eq_true, decide_eq_true_eq] at hqty
          have hunits : 0 < q.num := Rat.num_pos.mpr hqty.2
          simp only [CartPartitionService.price, hprice, Option.getD_some]
          exact mul_pos (not_le.mp hpos) hunits
  | nan => cases h
  | infinity => cases h
  | negInfinity => cases h

theorem subtotal_nonneg (h : ∀ item ∈ cart, service.invalid item = none) : 0 ≤ service.subtotal cart := by
  refine sum_nonneg fun x hx => ?_
  obtain ⟨item, hitem, rfl⟩ := mem_map.mp hx
  exact (price_pos (h item hitem)).le

theorem computeTax_bounds {amount : Int} (h : 0 ≤ amount) :
    10000 * computeTax amount DEFAULT_TAX_RATE_BASIS_POINTS ≤ 875 * amount ∧
      875 * amount ≤ 10000 * computeTax amount DEFAULT_TAX_RATE_BASIS_POINTS + 9999 := by
  unfold computeTax DEFAULT_TAX_RATE_BASIS_POINTS
  rw [Int.tdiv_eq_ediv_of_nonneg (by omega)]
  omega

theorem computeTax_sum (amounts : List Int) (h : ∀ amount ∈ amounts, 0 ≤ amount) :
    10000 * (amounts.map fun amount => computeTax amount DEFAULT_TAX_RATE_BASIS_POINTS).sum ≤ 875 * amounts.sum ∧
      875 * amounts.sum ≤
        10000 * (amounts.map fun amount => computeTax amount DEFAULT_TAX_RATE_BASIS_POINTS).sum +
          9999 * amounts.length := by
  induction amounts with
  | nil => exact ⟨le_refl 0, le_refl 0⟩
  | cons amount rest ih =>
    have hfirst := computeTax_bounds (h amount (mem_cons_self ..))
    have hrest := ih fun other hother => h other (mem_cons_of_mem _ hother)
    simp only [map_cons, sum_cons, length_cons]
    push_cast
    omega

theorem subtotal_flatMap (groups : List (String × List CheckoutCartItem)) :
    (groups.map fun group => service.subtotal group.2).sum = service.subtotal (groups.flatMap Prod.snd) := by
  induction groups with
  | nil => rfl
  | cons group rest ih =>
    rw [map_cons, sum_cons, ih, flatMap_cons, subtotal, subtotal, subtotal, map_append, sum_append]

/-- Batches that differ in the order of their items. -/
def SameBatch (batch batch' : PartitionedCheckoutBatch) : Prop :=
  batch'.items.Perm batch.items ∧ { batch' with items := batch.items } = batch

theorem batch_perm {items items' : List CheckoutCartItem} (h : items'.Perm items) :
    SameBatch (service.batch orderId rows (merchantId, items)) (service.batch orderId rows (merchantId, items')) := by
  have hsubtotal : service.subtotal items' = service.subtotal items := (h.map _).sum_eq
  refine ⟨h, ?_⟩
  simp only [batch, hsubtotal]

theorem merchantIds_perm (h : cart'.Perm cart) : (merchantIds cart').Perm (merchantIds cart) := by
  refine (perm_ext_iff_of_nodup (keyed_groupedBy cart') (keyed_groupedBy cart)).mpr fun merchantId => ?_
  rw [mem_keys_groupedBy, mem_keys_groupedBy]
  exact exists_congr fun item => and_congr_left' h.mem_iff

theorem partitionByMerchant_perm (hperm : cart'.Perm cart) (h : service.partitionByMerchant orderId cart = .ok batches) :
    ∃ batches', service.partitionByMerchant orderId cart' = .ok batches' ∧ List.Forall₂ SameBatch batches batches' := by
  obtain ⟨hcart, hvalid, rows, hloaded, rfl⟩ := partitionByMerchant_ok.mp h
  obtain ⟨hloaded', hbound⟩ := loadAndValidateMerchants_perm (merchantIds_perm hperm) hloaded
  have hids : (merchantIds cart').insertionSort service.before = (merchantIds cart).insertionSort service.before := by
    refine sorted_eq_of_perm (merchantIds_perm hperm) fun a ha b hb hab hba => ?_
    obtain ⟨first, -, rfl⟩ := hbound a ha
    obtain ⟨second, -, rfl⟩ := hbound b hb
    exact congrArg Uuid.text (service.collation.uuids _ _ hab hba)
  refine ⟨_, partitionByMerchant_ok.mpr ⟨fun hnil => hcart (perm_nil.mp (hnil ▸ hperm.symm)),
    fun item hitem => hvalid item (hperm.mem_iff.mp hitem), rows, hloaded', rfl⟩, ?_⟩
  rw [hids, batchesOf, batchesOf, forall₂_map_left_iff, forall₂_map_right_iff, forall₂_same]
  exact fun merchantId _ => batch_perm (groupOf_perm hperm)

/-- **A cart is conserved.** -/
theorem partition_conserves (h : service.partitionByMerchant orderId cart = .ok batches) :
    (batches.map PartitionedCheckoutBatch.merchantId).Nodup ∧
      (∀ merchantId, merchantId ∈ batches.map PartitionedCheckoutBatch.merchantId ↔
        merchantId ∈ cart.map CheckoutCartItem.merchantId) ∧
      (batches.flatMap PartitionedCheckoutBatch.items).Perm cart ∧
      (∀ batch ∈ batches, ∀ item ∈ batch.items, item.merchantId = batch.merchantId) ∧
      (∀ batch ∈ batches, batch.subtotalStroops = service.subtotal batch.items ∧
        batch.totalEscrowAmountStroops = batch.subtotalStroops + batch.taxStroops + batch.shippingStroops) ∧
      (batches.map PartitionedCheckoutBatch.subtotalStroops).sum = service.subtotal cart ∧
      (batches.map PartitionedCheckoutBatch.taxStroops).sum ≤
        computeTax (service.subtotal cart) DEFAULT_TAX_RATE_BASIS_POINTS ∧
      computeTax (service.subtotal cart) DEFAULT_TAX_RATE_BASIS_POINTS -
        (batches.map PartitionedCheckoutBatch.taxStroops).sum < batches.length ∧
      ∀ cart', cart'.Perm cart → ∃ batches',
        service.partitionByMerchant orderId cart' = .ok batches' ∧ List.Forall₂ SameBatch batches batches' := by
  obtain ⟨hcart, hvalid, rows, -, hbatches⟩ := partitionByMerchant_ok.mp h
  have hperm : batches.Perm ((groupedBy CheckoutCartItem.merchantId cart).map (service.batch orderId rows)) := by
    rw [hbatches, ← batchesOf_merchantIds]
    exact (perm_insertionSort _ _).map _
  have hids : (batches.map PartitionedCheckoutBatch.merchantId).Perm (merchantIds cart) := by
    refine (hperm.map _).trans ?_
    rw [map_map]
    exact .refl _
  have hgroup : ∀ batch ∈ batches, ∃ merchantId,
      batch = service.batch orderId rows (merchantId, groupOf CheckoutCartItem.merchantId merchantId cart) := by
    intro batch hbatch
    rw [hbatches] at hbatch
    obtain ⟨merchantId, -, rfl⟩ := mem_map.mp hbatch
    exact ⟨merchantId, rfl⟩
  have hitems : (batches.flatMap PartitionedCheckoutBatch.items).Perm cart := by
    refine (hperm.flatMap_right _).trans ?_
    rw [flatMap_map]
    exact groupedBy_perm cart
  have hsubtotals : (batches.map PartitionedCheckoutBatch.subtotalStroops).sum = service.subtotal cart := by
    rw [(hperm.map _).sum_eq, map_map]
    exact (subtotal_flatMap _).trans ((groupedBy_perm cart).map _).sum_eq
  have htaxes : batches.map PartitionedCheckoutBatch.taxStroops =
      (batches.map PartitionedCheckoutBatch.subtotalStroops).map fun amount =>
        computeTax amount DEFAULT_TAX_RATE_BASIS_POINTS := by
    rw [map_map]
    refine map_congr_left fun batch hbatch => ?_
    obtain ⟨merchantId, rfl⟩ := hgroup batch hbatch
    rfl
  have hnonneg : ∀ amount ∈ batches.map PartitionedCheckoutBatch.subtotalStroops, 0 ≤ amount := by
    intro amount hamount
    obtain ⟨batch, hbatch, rfl⟩ := mem_map.mp hamount
    obtain ⟨merchantId, rfl⟩ := hgroup batch hbatch
    exact subtotal_nonneg fun item hitem => hvalid item (mem_groupOf.mp hitem).1
  have hwhole := computeTax_bounds (subtotal_nonneg hvalid)
  have hparts := computeTax_sum _ hnonneg
  rw [← htaxes, hsubtotals, length_map] at hparts
  have hsome : 0 < batches.length := by
    rw [length_pos_iff]
    rintro rfl
    exact hcart (perm_nil.mp hitems.symm)
  refine ⟨hids.nodup_iff.mpr (keyed_groupedBy cart), fun merchantId => ?_, hitems, ?_, ?_, hsubtotals, by omega,
    by omega, fun cart' hcart' => partitionByMerchant_perm hcart' h⟩
  · rw [hids.mem_iff, mem_map]
    exact mem_keys_groupedBy
  · intro batch hbatch item hitem
    obtain ⟨merchantId, rfl⟩ := hgroup batch hbatch
    exact (mem_groupOf.mp hitem).2
  · intro batch hbatch
    obtain ⟨merchantId, rfl⟩ := hgroup batch hbatch
    exact ⟨rfl, rfl⟩

def byCharacters (a b : String) : Int := if a = b then 0 else if a ≤ b then -1 else 1

theorem byCharacters_le {a b : String} : byCharacters a b ≤ 0 ↔ a ≤ b := by
  unfold byCharacters
  split
  · rename_i h
    exact iff_of_true (le_refl 0) h.le
  · split
    · rename_i h
      exact iff_of_true (by decide) h
    · rename_i h
      exact iff_of_false (by decide) h

def firstMerchant : Uuid := ⟨"00000000-0000-0000-0000-000000000001", by decide⟩

def secondMerchant : Uuid := ⟨"00000000-0000-0000-0000-000000000002", by decide⟩

def twoMerchants : CartPartitionService where
  merchants := [⟨firstMerchant, some "GA", true⟩, ⟨secondMerchant, some "GB", true⟩]
  refuses := none
  castUuid text := [firstMerchant, secondMerchant].find? fun id => decide (id.text = text)
  conv := decimal
  numberText _ := ""
  sha256 := id
  collation := {
    localeCompare a b := byCharacters a b
    total a b := by
      rw [byCharacters_le, byCharacters_le]
      exact le_total a b
    trans a b c := by
      rw [byCharacters_le, byCharacters_le, byCharacters_le]
      exact le_trans
    uuids a b := by
      obtain ⟨a, -⟩ := a
      obtain ⟨b, -⟩ := b
      rw [byCharacters_le, byCharacters_le, Uuid.mk.injEq]
      exact le_antisymm }

def cartOfTwo : List CheckoutCartItem :=
  [⟨"P", secondMerchant.text, .finite 3, "15"⟩, ⟨"Q", firstMerchant.text, .finite 1, "7"⟩]

def batchesOfTwo : List PartitionedCheckoutBatch :=
  [⟨firstMerchant.text, "GA", [⟨"Q", firstMerchant.text, .finite 1, "7"⟩], 7, 0, 10000000, 10000007,
      "order:00000000-0000-0000-0000-000000000001"⟩,
    ⟨secondMerchant.text, "GB", [⟨"P", secondMerchant.text, .finite 3, "15"⟩], 45, 3, 10000000, 10000048,
      "order:00000000-0000-0000-0000-000000000002"⟩]

theorem partition_cartOfTwo : twoMerchants.partitionByMerchant "order" cartOfTwo = .ok batchesOfTwo := by decide

theorem cartOfTwo_conserved : twoMerchants.partitionByMerchant "order" cartOfTwo = .ok batchesOfTwo ∧
      (batchesOfTwo.flatMap PartitionedCheckoutBatch.items).Perm cartOfTwo ∧
      (batchesOfTwo.map PartitionedCheckoutBatch.subtotalStroops).sum = twoMerchants.subtotal cartOfTwo :=
  ⟨partition_cartOfTwo, (partition_conserves partition_cartOfTwo).2.2.1,
    (partition_conserves partition_cartOfTwo).2.2.2.2.2.1⟩

end CartPartitionService

end Delego.Checkout.CartPartition
