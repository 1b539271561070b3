import TradingEcosystem.Common.MemPool
import TradingEcosystem.Common.Messages
import TradingEcosystem.Lib.Ring

/-!
# The client's order book

`trading_system/strategy/market_order_book.cpp`, function by function.  The book has the orders of
one ticker three times: by order id, by price in a table of levels, and in a ladder of levels a
side.

Of the three only the price table is ever filled.  `ADD` does not enter the order in the table of
ids, so a `MODIFY` follows null; the call that would take a cancelled order out is a comment; and
`addOrdersAtPriceLevel` assigns a ladder head that is null to a copy, as in the book of the
exchange, so there is nothing `CLEAR` could clear.
-/

set_option autoImplicit false

namespace TradingEcosystem
namespace Trading

open Ring

/-- What a `MarketOrder` says about the order: every field but the two links. -/
structure MarketOrderData where
  orderId : OrderId := orderIdInvalid
  side : Side := .invalid
  price : Price := priceInvalid
  qty : Qty := qtyInvalid
  priority : Priority := priorityInvalid
  deriving DecidableEq

/-- `MarketOrder`. -/
structure MarketOrder extends MarketOrderData where
  nextOrder : Option Ptr := none
  prevOrder : Option Ptr := none

/-- `MarketOrderPriceLevel`. -/
structure MarketOrderPriceLevel where
  totalQty : Qty := qtyInvalid
  ordersCount : UInt64 := 0
  side : Side := .invalid
  price : Price := priceInvalid
  firstOrder : Option Ptr := none
  prevLevel : Option Ptr := none
  nextLevel : Option Ptr := none

/-- `BestBidOffer`. -/
structure BestBidOffer where
  bestBid : Option Ptr := none
  bestAsk : Option Ptr := none

/-- `MarketOrderBook`.  The price table is read below its bound only. -/
structure MarketOrderBook where
  orderIdToOrder : OrderId → Option Ptr
  priceLevelPool : MemPool MarketOrderPriceLevel
  bidPriceLevels : Option Ptr
  askPriceLevels : Option Ptr
  ordersAtPriceLevels : Nat → Option Ptr
  orderPool : MemPool MarketOrder
  bestOffer : BestBidOffer

namespace MarketOrderBook

/-- The book the constructor leaves when the two tables, which it does not initialise, hold
null. -/
def init : MarketOrderBook where
  orderIdToOrder := fun _ => none
  priceLevelPool := .init {} meMaxPriceLevels
  bidPriceLevels := none
  askPriceLevels := none
  ordersAtPriceLevels := fun _ => none
  orderPool := .init {} meMaxOrderIds
  bestOffer := {}

/-- The order at an address. -/
def order (b : MarketOrderBook) (p : Ptr) : MarketOrder := b.orderPool.get p

/-- The level at an address. -/
def level (b : MarketOrderBook) (p : Ptr) : MarketOrderPriceLevel := b.priceLevelPool.get p

/-- Writing to the order at an address. -/
def setOrder (b : MarketOrderBook) (p : Ptr) (f : MarketOrder → MarketOrder) : MarketOrderBook :=
  { b with orderPool := b.orderPool.modify p f }

/-- `p->next_order_ = v`. -/
def setNextOrder (b : MarketOrderBook) (p : Ptr) (v : Option Ptr) : MarketOrderBook :=
  b.setOrder p fun o => { o with nextOrder := v }

/-- `p->prev_order_ = v`. -/
def setPrevOrder (b : MarketOrderBook) (p : Ptr) (v : Option Ptr) : MarketOrderBook :=
  b.setOrder p fun o => { o with prevOrder := v }

/-- Writing to the level at an address. -/
def setLevel (b : MarketOrderBook) (p : Ptr)
    (f : MarketOrderPriceLevel → MarketOrderPriceLevel) : MarketOrderBook :=
  { b with priceLevelPool := b.priceLevelPool.modify p f }

/-- `p->next_level_ = v`. -/
def setNextLevel (b : MarketOrderBook) (p : Ptr) (v : Option Ptr) : MarketOrderBook :=
  b.setLevel p fun l => { l with nextLevel := v }

/-- `p->prev_level_ = v`. -/
def setPrevLevel (b : MarketOrderBook) (p : Ptr) (v : Option Ptr) : MarketOrderBook :=
  b.setLevel p fun l => { l with prevLevel := v }

/-- `priceToIndex`. -/
def priceToIndex (price : Price) : Nat := price.toNat % meMaxPriceLevels

/-- `getPriceLevel`.  The index is always below the size of the table. -/
def getPriceLevel (b : MarketOrderBook) (price : Price) : Option Ptr :=
  b.ordersAtPriceLevels (priceToIndex price)

/-- `orders_at_price_levels_.at(priceToIndex(price)) = v`. -/
def setPriceLevel (b : MarketOrderBook) (price : Price) (v : Option Ptr) : MarketOrderBook :=
  { b with ordersAtPriceLevels := Function.update b.ordersAtPriceLevels (priceToIndex price) v }

/-- `orderId_to_order_.at(orderId)`. -/
def orderAt (b : MarketOrderBook) (orderId : OrderId) : Except Fault (Option Ptr) :=
  if orderId.toNat < meMaxOrderIds then .ok (b.orderIdToOrder orderId) else .error .outOfRange

/-! ## Levels -/

/-- The `while` loop of `addOrdersAtPriceLevel`: from `current`, while the new level is ahead of the
current one and the ring does not close. -/
def seekLevel (b : MarketOrderBook) (ahead : Price → Bool) (head : Ptr) :
    Nat → Ptr → Except Fault Ptr
  | 0, _ => .error .diverges
  | fuel + 1, current =>
    if ahead (b.level current).price ∧ (b.level current).nextLevel ≠ some head then do
      let next ← nonNull (b.level current).nextLevel
      seekLevel b ahead head fuel next
    else .ok current

/-- The four assignments that put `priceLevel` in front of `current`. -/
def linkLevelBefore (b : MarketOrderBook) (priceLevel current : Ptr) :
    Except Fault MarketOrderBook := do
  let b := b.setNextLevel priceLevel (some current)
  let b := b.setPrevLevel priceLevel (b.level current).prevLevel
  let prev ← nonNull (b.level current).prevLevel
  let b := b.setNextLevel prev (some priceLevel)
  return b.setPrevLevel current (some priceLevel)

/-- `addOrdersAtPriceLevel`. -/
def addOrdersAtPriceLevel (b : MarketOrderBook) (priceLevel : Ptr) :
    Except Fault MarketOrderBook := do
  let side := (b.level priceLevel).side
  let price := (b.level priceLevel).price
  let b := b.setPriceLevel price (some priceLevel)
  match if side = .buy then b.bidPriceLevels else b.askPriceLevels with
  | none =>
    -- `side_orders_by_price_head = price_level` assigns the local copy of the head
    let b := b.setPrevLevel priceLevel (some priceLevel)
    return b.setNextLevel priceLevel (some priceLevel)
  | some head =>
    if side = .buy then
      let current ← b.seekLevel (fun p => price > p) head b.priceLevelPool.size head
      let b ← b.linkLevelBefore priceLevel current
      let b := if price > (b.level head).price then
          { b with bidPriceLevels := some priceLevel } else b
      if b.bestOffer.bestBid.all fun best => price > (b.level best).price then
        return { b with bestOffer := { b.bestOffer with bestBid := some priceLevel } }
      else return b
    else
      let current ← b.seekLevel (fun p => price < p) head b.priceLevelPool.size head
      let b ← b.linkLevelBefore priceLevel current
      let b := if price < (b.level head).price then
          { b with askPriceLevels := some priceLevel } else b
      if b.bestOffer.bestAsk.all fun best => price < (b.level best).price then
        return { b with bestOffer := { b.bestOffer with bestAsk := some priceLevel } }
      else return b

/-- `removePriceLevel`; the head is a local copy again. -/
def removePriceLevel (b : MarketOrderBook) (priceLevel : Ptr) : Except Fault MarketOrderBook := do
  let l := b.level priceLevel
  let b ←
    if l.nextLevel = some priceLevel then pure b
    else do
      let prev ← nonNull l.prevLevel
      let b := b.setNextLevel prev l.nextLevel
      let next ← nonNull (b.level priceLevel).nextLevel
      pure (b.setPrevLevel next (b.level priceLevel).prevLevel)
  let b := b.setPriceLevel l.price none
  let pool ← b.priceLevelPool.deallocate priceLevel
  return { b with priceLevelPool := pool }

/-! ## Orders -/

/-- The last two lines of `addOrder`. -/
def countOrder (b : MarketOrderBook) (priceLevel : Ptr) (qty : Qty) : MarketOrderBook :=
  b.setLevel priceLevel fun l =>
    { l with totalQty := l.totalQty + qty, ordersCount := l.ordersCount + 1 }

/-- `addOrder`. -/
def addOrder (b : MarketOrderBook) (order : Ptr) : Except Fault MarketOrderBook := do
  let o := b.order order
  match b.getPriceLevel o.price with
  | some priceLevel =>
    let first ← nonNull (b.level priceLevel).firstOrder
    let last ← nonNull (b.order first).prevOrder
    let b := b.setNextOrder last (some order)
    let b := b.setPrevOrder order (b.order first).prevOrder
    let b := b.setNextOrder order (some first)
    let b := b.setPrevOrder first (some order)
    return b.countOrder priceLevel o.qty
  | none =>
    let b := b.setPrevOrder order (some order)
    let b := b.setNextOrder order (b.order order).prevOrder
    let (pool, priceLevel) ← b.priceLevelPool.allocate
      { side := o.side, price := o.price, firstOrder := some order }
    let b ← addOrdersAtPriceLevel { b with priceLevelPool := pool } priceLevel
    return b.countOrder priceLevel o.qty

/-- `removeOrder`, which nothing calls. -/
def removeOrder (b : MarketOrderBook) (order : Ptr) : Except Fault MarketOrderBook := do
  let o := b.order order
  let priceLevel := b.getPriceLevel o.price
  if o.prevOrder = some order then
    let priceLevel ← nonNull priceLevel
    b.removePriceLevel priceLevel
  else
    let prev ← nonNull o.prevOrder
    let b := b.setNextOrder prev o.nextOrder
    let next ← nonNull o.nextOrder
    let b := b.setPrevOrder next o.prevOrder
    let priceLevel ← nonNull priceLevel
    if (b.level priceLevel).firstOrder = some order then
      return b.setLevel priceLevel fun l => { l with firstOrder := o.nextOrder }
    else return b

/-! ## Updates -/

/-- The first loop of `CLEAR`. -/
def clearOrders (b : MarketOrderBook) (orderIds : List OrderId) : Except Fault MarketOrderBook :=
  orderIds.foldlM (fun (b : MarketOrderBook) orderId =>
    match b.orderIdToOrder orderId with
    | none => pure b
    | some order => do
      let pool ← b.orderPool.deallocate order
      let table := Function.update b.orderIdToOrder orderId none
      return { b with orderPool := pool, orderIdToOrder := table }) b

/-- The two other loops of `CLEAR`: the level behind the head, as long as it is another one.  The
head's link does not change, so the level that was given back is given back again. -/
def clearBehind (head : Ptr) : Nat → MarketOrderBook → Except Fault MarketOrderBook
  | 0, _ => .error .diverges
  | fuel + 1, b =>
    if (b.level head).nextLevel = some head then .ok b
    else
      match (b.level head).nextLevel with
      | none => .error (.assertFailed
          "Element being deallocated does not belong to this Memory pool.")
      | some next => do
        let pool ← b.priceLevelPool.deallocate next
        clearBehind head fuel { b with priceLevelPool := pool }

/-- A ladder of `CLEAR`. -/
def clearLadder (b : MarketOrderBook) : Option Ptr → Except Fault MarketOrderBook
  | none => .ok b
  | some head => do
    let b ← clearBehind head (b.priceLevelPool.size + 1) b
    let pool ← b.priceLevelPool.deallocate head
    return { b with priceLevelPool := pool }

/-- The `CLEAR` case. -/
def clear (b : MarketOrderBook) : Except Fault MarketOrderBook := do
  let b ← b.clearOrders ((List.range meMaxOrderIds).map .ofNat)
  let b ← b.clearLadder b.bidPriceLevels
  let b ← b.clearLadder b.askPriceLevels
  return { b with bidPriceLevels := none, askPriceLevels := none }

/-- `best_ask_updated`: the value is not used, but the best bid is followed for it. -/
def bestAskUpdated (b : MarketOrderBook) (u : MEMarketUpdate) : Except Fault Bool :=
  if b.askPriceLevels ≠ none ∧ u.side = .sell then do
    let bid ← nonNull b.bidPriceLevels
    return u.price ≤ (b.level bid).price
  else .ok false

/-- `onMarketUpdate`. -/
def onMarketUpdate (b : MarketOrderBook) (marketUpdate : MEMarketUpdate) :
    Except Fault MarketOrderBook := do
  let _ ← b.bestAskUpdated marketUpdate
  match marketUpdate.type with
  | .add =>
    let (pool, order) ← b.orderPool.allocate
      { orderId := marketUpdate.orderId, side := marketUpdate.side, price := marketUpdate.price,
        qty := marketUpdate.qty, priority := marketUpdate.priority }
    addOrder { b with orderPool := pool } order
  | .modify =>
    let order ← b.orderAt marketUpdate.orderId
    let order ← nonNull order
    return b.setOrder order fun o => { o with qty := marketUpdate.qty }
  | .cancel =>
    -- the removal is a comment, and the case runs into `TRADE`
    let _ ← b.orderAt marketUpdate.orderId
    return b
  | .clear => b.clear
  | _ => return b

/-- A list of updates. -/
def onMarketUpdates (b : MarketOrderBook) (updates : List MEMarketUpdate) :
    Except Fault MarketOrderBook :=
  updates.foldlM onMarketUpdate b

/-- `getBBO`. -/
def getBBO (b : MarketOrderBook) : BestBidOffer := b.bestOffer

end MarketOrderBook
end Trading
end TradingEcosystem
