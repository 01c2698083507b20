import Delego.Data.CodeUnits
import Delego.Data.Table

/-! The merge of a cart that is kept on several devices.

Lines are stored with the time of their last change and the cart's version at it; a removed line stays, with
quantity zero. A sync runs in a transaction that has the cart's row locked, so a call is one step. -/
namespace Delego.CartSync
open Delego.Data

/-- A time is what `new Date` makes of the text that was sent: none if it makes nothing of it. -/
structure CartLineItemDTO where
  (merchantId productId : String)
  skuId : Option String
  quantity : Int
  updatedAt : Option Int

/-- A cart line as it is stored by the gateway. -/
structure StoredCartLine where
  (merchantId productId : String)
  skuId : Option String
  (quantity updatedAt : Int)
  revision : Nat
deriving DecidableEq

def cartLineKey (merchantId productId : String) (skuId : Option String) : String :=
  merchantId ++ "\x00" ++ productId ++ "\x00" ++ skuId.getD ""

def CartLineItemDTO.key (line : CartLineItemDTO) : String := cartLineKey line.merchantId line.productId line.skuId

def StoredCartLine.key (line : StoredCartLine) : String := cartLineKey line.merchantId line.productId line.skuId

def parseTimestamp (value : Option Int) : Int := value.getD 0

def sameLineValue (a b : StoredCartLine) : Bool := a.quantity = b.quantity && a.updatedAt = b.updatedAt

structure ResolveContext where
  clientIsCurrent : Bool
  (clientVersion nextVersion : Nat)

def resolveLine (serverLine : StoredCartLine) (clientLine : CartLineItemDTO) (ctx : ResolveContext) : StoredCartLine :=
  let clientUpdatedAt := parseTimestamp clientLine.updatedAt
  let serverIsLive := decide (0 < serverLine.quantity)
  let clientIsLive := decide (0 < clientLine.quantity)
  if !clientIsLive then
    if !serverIsLive then
      -- only a newer removal moves the tombstone's time
      if serverLine.updatedAt < clientUpdatedAt then
        { serverLine with updatedAt := clientUpdatedAt, revision := ctx.nextVersion }
      else serverLine
    else
      let removalAccepted := ctx.clientIsCurrent || decide (serverLine.updatedAt < clientUpdatedAt) ||
        decide (serverLine.revision ≤ ctx.clientVersion)
      if !removalAccepted then serverLine
      else { serverLine with quantity := 0, updatedAt := clientUpdatedAt, revision := ctx.nextVersion }
  else if serverIsLive then
    let clientWins := ctx.clientIsCurrent || decide (serverLine.updatedAt < clientUpdatedAt)
    if !clientWins then serverLine
    else
      let candidate := { serverLine with quantity := clientLine.quantity, updatedAt := clientUpdatedAt }
      if sameLineValue serverLine candidate then serverLine else { candidate with revision := ctx.nextVersion }
  else
    let restoreAccepted := ctx.clientIsCurrent || decide (serverLine.updatedAt < clientUpdatedAt)
    if !restoreAccepted then serverLine
    else { serverLine with quantity := clientLine.quantity, updatedAt := clientUpdatedAt, revision := ctx.nextVersion }

/-- The lines of both sides, and their versions. -/
structure MergeInput where
  serverLines : List StoredCartLine
  clientLines : List CartLineItemDTO
  (clientVersion serverVersion : Nat)
  now : Int

structure MergeResult where
  (lines changedLines : List StoredCartLine)
  serverVersion : Nat
  conflictsResolved : Bool

section
variable (input : MergeInput)

def MergeInput.ctx : ResolveContext where
  clientIsCurrent := decide (input.serverVersion ≤ input.clientVersion)
  clientVersion := input.clientVersion
  nextVersion := input.serverVersion + 1

def MergeInput.clientByKey : List CartLineItemDTO := collect CartLineItemDTO.key input.clientLines

def mergeServerLine (serverLine : StoredCartLine) : StoredCartLine :=
  match lookup CartLineItemDTO.key input.clientByKey serverLine.key with
  | none =>
    if 0 < serverLine.quantity ∧ serverLine.revision ≤ input.clientVersion then
      { serverLine with quantity := 0, updatedAt := input.now, revision := input.ctx.nextVersion }
    else serverLine
  | some clientLine => resolveLine serverLine clientLine input.ctx

def newLine (clientLine : CartLineItemDTO) : StoredCartLine where
  merchantId := clientLine.merchantId
  productId := clientLine.productId
  skuId := clientLine.skuId
  quantity := clientLine.quantity
  updatedAt := parseTimestamp clientLine.updatedAt
  revision := input.ctx.nextVersion

def recorded : List (StoredCartLine × Option StoredCartLine) :=
  let serverByKey := collect StoredCartLine.key input.serverLines
  serverByKey.map (fun serverLine => (mergeServerLine input serverLine, some serverLine)) ++
    (input.clientByKey.filter fun clientLine => (lookup StoredCartLine.key serverByKey clientLine.key).isNone).map
      fun clientLine => (newLine input clientLine, none)

def isChanged : StoredCartLine × Option StoredCartLine → Bool
  | (_, none) => true
  | (line, some previous) => !sameLineValue previous line || previous.revision != line.revision

def mergeCartLines : MergeResult where
  lines := (recorded input).map (·.1)
  changedLines := ((recorded input).filter isChanged).map (·.1)
  serverVersion := input.ctx.nextVersion
  conflictsResolved := decide (input.clientVersion ≠ input.serverVersion)

end

def toCartLineItemDTO (line : StoredCartLine) : CartLineItemDTO :=
  ⟨line.merchantId, line.productId, line.skuId.filter fun skuId => skuId ≠ "", line.quantity, some line.updatedAt⟩

def toCartLineItemDTOs (lines : List StoredCartLine) : List CartLineItemDTO :=
  ((lines.filter fun line => decide (0 < line.quantity)).map toCartLineItemDTO).insertionSort
    fun a b => codeUnitLe a.key b.key

structure CartItem where
  (merchantId productId skuId : String)
  (quantity clientUpdatedAt : Int)
  revision : Nat

def CartItem.key (row : CartItem) : String :=
  cartLineKey row.merchantId row.productId (if row.skuId = "" then none else some row.skuId)

def toStoredLine (row : CartItem) : StoredCartLine :=
  ⟨row.merchantId, row.productId, if row.skuId = "" then none else some row.skuId, row.quantity, row.clientUpdatedAt,
    row.revision⟩

structure Cart where
  userId : String
  version : Nat
  items : List CartItem

def Cart.lines (cart : Cart) : List StoredCartLine := cart.items.map toStoredLine

def CartItem.write (line : StoredCartLine) (row : CartItem) : CartItem :=
  { row with quantity := line.quantity, clientUpdatedAt := line.updatedAt, revision := line.revision }

def CartItem.create (line : StoredCartLine) : CartItem :=
  ⟨line.merchantId, line.productId, line.skuId.getD "", line.quantity, line.updatedAt, line.revision⟩

def saveLine (existing rows : List CartItem) (line : StoredCartLine) : List CartItem :=
  if (lookup CartItem.key existing line.key).isSome then update CartItem.key rows line.key (CartItem.write line)
  else rows ++ [CartItem.create line]

def saveLines (existing : List CartItem) (lines : List StoredCartLine) : List CartItem :=
  lines.foldl (saveLine existing) existing

structure CartSyncRequest where
  cartId : String
  clientVersion : Nat
  items : List CartLineItemDTO

structure CartSyncResponse where
  cartId : String
  serverVersion : Nat
  items : List CartLineItemDTO
  conflictsResolved : Bool

structure CartOwnershipError where
  cartId : String

def CartOwnershipError.message (_ : CartOwnershipError) : String := "Cart does not belong to the authenticated user"

def loadOrCreateCart (cart : Option Cart) (userId : String) : Cart := cart.getD ⟨userId, 0, []⟩

def mergeInput (cart : Cart) (request : CartSyncRequest) (now : Int) : MergeInput :=
  ⟨cart.lines, request.items, request.clientVersion, cart.version, now⟩

def syncCart (cart : Option Cart) (request : CartSyncRequest) (userId : String) (now : Int) :
    Except CartOwnershipError CartSyncResponse × Option Cart :=
  let loaded := loadOrCreateCart cart userId
  if loaded.userId ≠ userId then (.error ⟨request.cartId⟩, cart)
  else
    let merge := mergeCartLines (mergeInput loaded request now)
    (.ok ⟨request.cartId, merge.serverVersion, toCartLineItemDTOs merge.lines, merge.conflictsResolved⟩,
      some ⟨loaded.userId, merge.serverVersion, saveLines loaded.items merge.changedLines⟩)

end Delego.CartSync
