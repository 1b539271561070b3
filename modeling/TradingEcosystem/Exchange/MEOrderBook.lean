import TradingEcosystem.Common.MemPool
import TradingEcosystem.Common.Messages

/-!
# The order book of the matching engine

`exchange/matcher/me_order_book.cpp`, function by function.  The book is a price table of 256
slots, one ring of levels a side and one ring of orders a level, all of it made of pointers into
two memory pools; every read and write below is the one of the source, in its order.

Two habits of the source decide what the book does.  `addOrdersAtPrice` and `removePriceLevel`
copy a ladder head into a local variable and assign to the copy, so a head that is null stays null
and a head that is removed stays where it was.  And the price table has one slot for all prices
with the same residue, so a level may hold orders of several prices.

A third one decides whether a `CANCEL` returns at all.  `cancel` takes the client's row of
`client_orders_` by value, and these 8 MiB are as much as a thread has for its whole stack unless
somebody raised the limit.  What the calling thread has left is a field of the book; `init` has
room for the copy, and `onStack` gives a book any other room.

Everything `sendClientResponse` and `sendMarketUpdate` are handed is returned, in the order of the
calls, as a list of `Sent`.
-/

set_option autoImplicit false

namespace TradingEcosystem
namespace Exchange

/-! ## The data -/

/-- What an `MEOrder` says about the order: every field but the two links. -/
structure OrderData where
  tickerId : TickerId := tickerIdInvalid
  clientId : ClientId := clientIdInvalid
  clientOrderId : OrderId := orderIdInvalid
  marketOrderId : OrderId := orderIdInvalid
  side : Side := .invalid
  price : Price := priceInvalid
  qty : Qty := qtyInvalid
  priority : Priority := priorityInvalid
  deriving DecidableEq

/-- `MEOrder`. -/
structure MEOrder extends OrderData where
  prevOrder : Option Ptr := none
  nextOrder : Option Ptr := none

/-- `MEOrderAtPriceLevel`. -/
structure MEOrderAtPriceLevel where
  side : Side := .invalid
  price : Price := priceInvalid
  firstOrder : Option Ptr := none
  prevPriceLevel : Option Ptr := none
  nextPriceLevel : Option Ptr := none

/-- A call the book makes on the matching engine. -/
inductive Sent where
  | clientResponse (r : MEClientResponse)
  | marketUpdate (u : MEMarketUpdate)
  deriving DecidableEq

/-- `sizeof(OrderHashMap)`: a pointer for each client order id. -/
def orderHashMapSize : Nat := 8 * meMaxOrderIds

/-- The stack a thread gets where nobody asks for another: `ulimit -s`. -/
def defaultStackSize : Nat := 8 * 1024 * 1024

/-- `MEOrderBook`.  The tables are read below their bounds only; the response and update the
source keeps as members are written before each use and are not part of the state. -/
structure MEOrderBook where
  tickerId : TickerId
  clientOrders : ClientId → OrderId → Option Ptr
  bidLevelsHead : Option Ptr
  askLevelsHead : Option Ptr
  priceLevels : Nat → Option Ptr
  priceLevelsPool : MemPool MEOrderAtPriceLevel
  orderPool : MemPool MEOrder
  nextMarketOrderId : OrderId
  /-- The bytes the stack of the calling thread has left for the locals of `cancel`. -/
  stackRoom : Nat

namespace MEOrderBook

/-- The book the constructor leaves when the two pointer tables, which it does not initialise,
hold null, on a stack with room. -/
def init (tickerId : TickerId) : MEOrderBook where
  tickerId := tickerId
  clientOrders := fun _ _ => none
  bidLevelsHead := none
  askLevelsHead := none
  priceLevels := fun _ => none
  priceLevelsPool := .init {} meMaxPriceLevels
  orderPool := .init {} meMaxOrderIds
  nextMarketOrderId := 1
  stackRoom := orderHashMapSize

/-- The book as a thread with this much room on its stack calls it. -/
def onStack (b : MEOrderBook) (stackRoom : Nat) : MEOrderBook := { b with stackRoom }

/-- The order at an address. -/
def order (b : MEOrderBook) (p : Ptr) : MEOrder := b.orderPool.get p

/-- The level at an address. -/
def level (b : MEOrderBook) (p : Ptr) : MEOrderAtPriceLevel := b.priceLevelsPool.get p

/-- Writing to the order at an address. -/
def setOrder (b : MEOrderBook) (p : Ptr) (f : MEOrder → MEOrder) : MEOrderBook :=
  { b with orderPool := b.orderPool.modify p f }

/-- `p->next_order_ = v`. -/
def setNextOrder (b : MEOrderBook) (p : Ptr) (v : Option Ptr) : MEOrderBook :=
  b.setOrder p fun o => { o with nextOrder := v }

/-- `p->prev_order_ = v`. -/
def setPrevOrder (b : MEOrderBook) (p : Ptr) (v : Option Ptr) : MEOrderBook :=
  b.setOrder p fun o => { o with prevOrder := v }

/-- Writing to the level at an address. -/
def setLevel (b : MEOrderBook) (p : Ptr) (f : MEOrderAtPriceLevel → MEOrderAtPriceLevel) :
    MEOrderBook :=
  { b with priceLevelsPool := b.priceLevelsPool.modify p f }

/-- `p->first_order_ = v`. -/
def setFirstOrder (b : MEOrderBook) (p : Ptr) (v : Option Ptr) : MEOrderBook :=
  b.setLevel p fun l => { l with firstOrder := v }

/-- `p->next_price_level_ = v`. -/
def setNextPriceLevel (b : MEOrderBook) (p : Ptr) (v : Option Ptr) : MEOrderBook :=
  b.setLevel p fun l => { l with nextPriceLevel := v }

/-- `p->prev_price_level_ = v`. -/
def setPrevPriceLevel (b : MEOrderBook) (p : Ptr) (v : Option Ptr) : MEOrderBook :=
  b.setLevel p fun l => { l with prevPriceLevel := v }

/-- `priceToIndex`. -/
def priceToIndex (price : Price) : Nat := price.toNat % meMaxPriceLevels

/-- `getPriceLevel`.  The index is always below the size of the table. -/
def getPriceLevel (b : MEOrderBook) (price : Price) : Option Ptr :=
  b.priceLevels (priceToIndex price)

/-- `price_levels_.at(priceToIndex(price)) = v`. -/
def setPriceLevel (b : MEOrderBook) (price : Price) (v : Option Ptr) : MEOrderBook :=
  { b with priceLevels := Function.update b.priceLevels (priceToIndex price) v }

/-- The level pool after a call of one of its functions. -/
def withLevelsPool (b : MEOrderBook) (pool : MemPool MEOrderAtPriceLevel) : MEOrderBook :=
  { b with priceLevelsPool := pool }

/-- The order pool after a call of one of its functions. -/
def withOrderPool (b : MEOrderBook) (pool : MemPool MEOrder) : MEOrderBook :=
  { b with orderPool := pool }

/-- `client_orders_.at(clientId).at(clientOrderId)`. -/
def clientOrderAt (b : MEOrderBook) (clientId : ClientId) (clientOrderId : OrderId) :
    Except Fault (Option Ptr) :=
  if clientId.toNat < meMaxNumClients ∧ clientOrderId.toNat < meMaxOrderIds then
    .ok (b.clientOrders clientId clientOrderId)
  else .error .outOfRange

/-- `client_orders_.at(clientId).at(clientOrderId) = p`. -/
def setClientOrder (b : MEOrderBook) (clientId : ClientId) (clientOrderId : OrderId)
    (p : Option Ptr) : Except Fault MEOrderBook :=
  if clientId.toNat < meMaxNumClients ∧ clientOrderId.toNat < meMaxOrderIds then
    let row := Function.update (b.clientOrders clientId) clientOrderId p
    .ok { b with clientOrders := Function.update b.clientOrders clientId row }
  else .error .outOfRange

/-- `generateNewMarketOrderId`: the id handed out is the counter before the call. -/
def generateNewMarketOrderId (b : MEOrderBook) : MEOrderBook :=
  { b with nextMarketOrderId := b.nextMarketOrderId + 1 }

/-! ## Levels -/

/-- The `while` loop of `addOrdersAtPrice`: from `current`, while the new level is ahead of the
current one and the ring does not close. -/
def seekLevel (b : MEOrderBook) (ahead : Price → Bool) (head : Ptr) :
    Nat → Ptr → Except Fault Ptr
  | 0, _ => .error .diverges
  | fuel + 1, current =>
    if ahead (b.level current).price ∧ (b.level current).nextPriceLevel ≠ some head then do
      let next ← nonNull (b.level current).nextPriceLevel
      seekLevel b ahead head fuel next
    else .ok current

/-- The four assignments that put `newLevel` in front of `current`. -/
def linkLevelBefore (b : MEOrderBook) (newLevel current : Ptr) : Except Fault MEOrderBook := do
  let b := b.setNextPriceLevel newLevel (some current)
  let b := b.setPrevPriceLevel newLevel (b.level current).prevPriceLevel
  let prev ← nonNull (b.level current).prevPriceLevel
  let b := b.setNextPriceLevel prev (some newLevel)
  return b.setPrevPriceLevel current (some newLevel)

/-- `addOrdersAtPrice`. -/
def addOrdersAtPrice (b : MEOrderBook) (newLevel : Ptr) : Except Fault MEOrderBook := do
  let side := (b.level newLevel).side
  let price := (b.level newLevel).price
  let b := b.setPriceLevel price (some newLevel)
  match if side = .buy then b.bidLevelsHead else b.askLevelsHead with
  | none =>
    -- `side_orders_by_price_head = new_price_level` assigns the local copy of the head
    let b := b.setPrevPriceLevel newLevel (some newLevel)
    return b.setNextPriceLevel newLevel (some newLevel)
  | some head =>
    if side = .buy then
      let current ← b.seekLevel (fun p => price > p) head b.priceLevelsPool.size head
      let b ← b.linkLevelBefore newLevel current
      if price > (b.level head).price then
        return { b with bidLevelsHead := some newLevel }
      else return b
    else
      let current ← b.seekLevel (fun p => price < p) head b.priceLevelsPool.size head
      let b ← b.linkLevelBefore newLevel current
      if price < (b.level head).price then
        return { b with askLevelsHead := some newLevel }
      else return b

/-- `removePriceLevel`.  `orders_head` is a local copy, so neither assignment to it is seen
outside; `side` only chooses which head is copied. -/
def removePriceLevel (b : MEOrderBook) (_side : Side) (price : Price) :
    Except Fault MEOrderBook := do
  let priceLevel ← nonNull (b.getPriceLevel price)
  let b ←
    if (b.level priceLevel).nextPriceLevel = some priceLevel then pure b
    else do
      let prev ← nonNull (b.level priceLevel).prevPriceLevel
      let b := b.setNextPriceLevel prev (b.level priceLevel).nextPriceLevel
      let next ← nonNull (b.level priceLevel).nextPriceLevel
      pure (b.setPrevPriceLevel next (b.level priceLevel).prevPriceLevel)
  let b := b.setPriceLevel price none
  let pool ← b.priceLevelsPool.deallocate priceLevel
  return b.withLevelsPool pool

/-! ## Orders -/

/-- `getNextPriority`. -/
def getNextPriority (b : MEOrderBook) (price : Price) : Except Fault Priority := do
  match b.getPriceLevel price with
  | none => return 1
  | some ordersAtPrice =>
    let first ← nonNull (b.level ordersAtPrice).firstOrder
    let last ← nonNull (b.order first).prevOrder
    return (b.order last).priority + 1

/-- `addOrder`. -/
def addOrder (b : MEOrderBook) (order : Ptr) : Except Fault MEOrderBook := do
  let o := b.order order
  let b ←
    match b.getPriceLevel o.price with
    | none => do
      let b := b.setPrevOrder order (some order)
      let b := b.setNextOrder order (b.order order).prevOrder
      let (pool, newPriceLevel) ← b.priceLevelsPool.allocate
        { side := o.side, price := o.price, firstOrder := some order }
      (b.withLevelsPool pool).addOrdersAtPrice newPriceLevel
    | some priceLevel => do
      let first ← nonNull (b.level priceLevel).firstOrder
      let last ← nonNull (b.order first).prevOrder
      let b := b.setNextOrder last (some order)
      let b := b.setPrevOrder order (b.order first).prevOrder
      let b := b.setNextOrder order (some first)
      pure (b.setPrevOrder first (some order))
  b.setClientOrder o.clientId o.clientOrderId (some order)

/-- `removeOrder`. -/
def removeOrder (b : MEOrderBook) (order : Ptr) : Except Fault MEOrderBook := do
  let o := b.order order
  let b ←
    if o.prevOrder = some order then removePriceLevel b o.side o.price
    else do
      let prev ← nonNull o.prevOrder
      let next ← nonNull o.nextOrder
      let b := b.setNextOrder prev (some next)
      let b := b.setPrevOrder next (some prev)
      let priceLevel ← nonNull (b.getPriceLevel o.price)
      if (b.level priceLevel).firstOrder = some order then
        pure (b.setFirstOrder priceLevel (some next))
      else pure b
  let b ← b.setClientOrder o.clientId o.clientOrderId none
  let pool ← b.orderPool.deallocate order
  return b.withOrderPool pool

/-- There is room for the copy `cancel` makes. -/
def CopyFits (b : MEOrderBook) : Prop := orderHashMapSize ≤ b.stackRoom

instance (b : MEOrderBook) : Decidable b.CopyFits := inferInstanceAs (Decidable (_ ≤ _))

/-- `auto client_orders_itr = client_orders_.at(clientId)`: the row is copied onto the stack. -/
def copyClientOrders (b : MEOrderBook) : Except Fault Unit :=
  if b.CopyFits then .ok () else .error .stackOverflow

theorem copyClientOrders_of {b : MEOrderBook} (h : b.CopyFits) : b.copyClientOrders = .ok () :=
  if_pos h

theorem copyClientOrders_not {b : MEOrderBook} (h : ¬ b.CopyFits) :
    b.copyClientOrders = .error .stackOverflow := if_neg h

/-- `cancel`.  A client id past the table is dropped without an answer. -/
def cancel (b : MEOrderBook) (clientId : ClientId) (clientOrderId : OrderId)
    (tickerId : TickerId) : Except Fault (MEOrderBook × List Sent) := do
  if clientId.toNat < meMaxNumClients then
    b.copyClientOrders
    match ← b.clientOrderAt clientId clientOrderId with
    | none =>
      return (b, [.clientResponse { type := .cancelRejected, clientId, tickerId, clientOrderId }])
    | some p =>
      let o := b.order p
      let b' ← b.removeOrder p
      return (b',
        [ -- the order id is the client's, where `match` and `add` send the market order id
          .marketUpdate
            { type := .cancel, orderId := clientOrderId, tickerId, side := o.side,
              price := o.price, qty := o.qty, priority := o.priority },
          .clientResponse
            { type := .canceled, clientId, tickerId, clientOrderId,
              markerOrderId := o.marketOrderId, side := o.side, price := o.price,
              execQty := qtyInvalid, leftQty := o.qty } ])
  else return (b, [])

/-- The incoming order of `match` and `checkForMatch`: the arguments they pass along. -/
structure Incoming where
  clientId : ClientId
  clientOrderId : OrderId
  tickerId : TickerId
  side : Side
  marketOrderId : OrderId

/-- The three messages every call of `match` sends: the fill of the incoming order, the fill of
the resting order `o` and the trade. -/
def fillMessages (i : Incoming) (o : OrderData) (fillQty leftQty : Qty) : List Sent :=
  [ .clientResponse
      { type := .filled, clientId := i.clientId, tickerId := i.tickerId,
        clientOrderId := i.clientOrderId, markerOrderId := i.marketOrderId, side := i.side,
        price := o.price, execQty := fillQty, leftQty },
    .clientResponse
      { type := .filled, clientId := o.clientId, tickerId := o.tickerId,
        clientOrderId := o.clientOrderId, markerOrderId := o.marketOrderId, side := o.side,
        price := o.price, execQty := fillQty, leftQty := o.qty - fillQty },
    .marketUpdate
      { type := .trade, orderId := orderIdInvalid, tickerId := i.tickerId, side := i.side,
        price := o.price, qty := fillQty, priority := priorityInvalid } ]

/-- `match`: the book, the quantity left of the incoming order and what was sent. -/
def matchOrder (b : MEOrderBook) (i : Incoming) (itr : Ptr) (leftQty : Qty) :
    Except Fault (MEOrderBook × Qty × List Sent) := do
  let o := b.order itr
  let fillQty := min leftQty o.qty
  let leftQty := leftQty - fillQty
  let b := b.setOrder itr fun o => { o with qty := o.qty - fillQty }
  let sent := fillMessages i o.toOrderData fillQty leftQty
  if (b.order itr).qty = 0 then
    let b ← b.removeOrder itr
    return (b, leftQty, sent ++
      [.marketUpdate
        { type := .cancel, orderId := o.marketOrderId, tickerId := i.tickerId, side := o.side,
          price := o.price, qty := o.qty, priority := priorityInvalid }])
  else
    return (b, leftQty, sent ++
      [.marketUpdate
        { type := .modify, orderId := o.marketOrderId, tickerId := i.tickerId, side := o.side,
          price := o.price, qty := o.qty - fillQty, priority := o.priority }])

/-- The `while` loops of `checkForMatch`: `head` reads the opposite ladder's head, and `past` says
that the incoming order stops before a resting price. -/
def matchWhile (i : Incoming) (head : MEOrderBook → Option Ptr) (past : Price → Bool) :
    Nat → MEOrderBook → Qty → Except Fault (MEOrderBook × Qty × List Sent)
  | 0, _, _ => .error .diverges
  | fuel + 1, b, leftQty =>
    if leftQty = 0 then .ok (b, leftQty, [])
    else
      match head b with
      | none => .ok (b, leftQty, [])
      | some level => do
        let itr ← nonNull (b.level level).firstOrder
        if past (b.order itr).price then .ok (b, leftQty, [])
        else do
          let (b, leftQty, sent) ← matchOrder b i itr leftQty
          let (b, leftQty, rest) ← matchWhile i head past fuel b leftQty
          return (b, leftQty, sent ++ rest)

/-- `checkForMatch`. -/
def checkForMatch (b : MEOrderBook) (i : Incoming) (price : Price) (qty : Qty) :
    Except Fault (MEOrderBook × Qty × List Sent) :=
  match i.side with
  | .buy => matchWhile i askLevelsHead (fun p => price < p) (b.orderPool.size + 1) b qty
  | .sell => matchWhile i bidLevelsHead (fun p => price > p) (b.orderPool.size + 1) b qty
  | _ => .ok (b, qty, [])

/-- `add`. -/
def add (b : MEOrderBook) (clientId : ClientId) (clientOrderId : OrderId) (tickerId : TickerId)
    (side : Side) (price : Price) (qty : Qty) : Except Fault (MEOrderBook × List Sent) := do
  let newMarketOrderId := b.nextMarketOrderId
  let b := b.generateNewMarketOrderId
  let accepted : Sent := .clientResponse
    { type := .accepted, clientId, tickerId, clientOrderId, markerOrderId := newMarketOrderId,
      side, price, execQty := 0, leftQty := qty }
  let (b, leftQty, fills) ← b.checkForMatch
    { clientId, clientOrderId, tickerId, side, marketOrderId := newMarketOrderId } price qty
  if leftQty = 0 then return (b, accepted :: fills)
  else
    let priority ← b.getNextPriority price
    let (pool, order) ← b.orderPool.allocate
      { tickerId, clientId, clientOrderId, marketOrderId := newMarketOrderId, side, price,
        qty := leftQty, priority }
    let b ← (b.withOrderPool pool).addOrder order
    return (b, accepted :: fills ++
      [.marketUpdate
        { type := .add, orderId := newMarketOrderId, tickerId, side, price, qty := leftQty,
          priority }])

end MEOrderBook
end Exchange
end TradingEcosystem
