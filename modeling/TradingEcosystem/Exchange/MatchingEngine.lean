import TradingEcosystem.Exchange.Insert
import TradingEcosystem.Exchange.Remove

/-!
# The matching engine

`MatchingEngine::processClientRequest` of `exchange/matcher/matching_engine.cpp`: a request picks
the book of its ticker and is handed to `add` or to `cancel`.  What the book sends through the
engine is returned in the order of the calls.

The second half says what a request does to a book of rings: `process_new_zero`, `process_new`,
`process_new_full` and `process_new_levels_full` for a `NEW`, `process_cancel_miss` and
`process_cancel_hit` for a `CANCEL`.  `Processed` collects the outcomes of a request that returns.
-/

set_option autoImplicit false

namespace TradingEcosystem
namespace Exchange

/-- The `switch` of `processClientRequest`, once the book is chosen. -/
def MEOrderBook.process (b : MEOrderBook) (req : MEClientRequest) :
    Except Fault (MEOrderBook × List Sent) :=
  match req.requestType with
  | .new => b.add req.clientId req.orderId req.tickerId req.side req.price req.qty
  | .cancel => b.cancel req.clientId req.orderId req.tickerId
  | t => .error (.fatal ("Recieved invalid requestType_: " ++ clientRequestTypeToString t))

/-- The responses among what the engine sends. -/
def clientResponses (sent : List Sent) : List MEClientResponse :=
  sent.filterMap fun
    | .clientResponse r => some r
    | .marketUpdate _ => none

/-- The updates. -/
def marketUpdates (sent : List Sent) : List MEMarketUpdate :=
  sent.filterMap fun
    | .clientResponse _ => none
    | .marketUpdate u => some u

@[simp] theorem clientResponses_nil : clientResponses [] = [] := rfl
@[simp] theorem marketUpdates_nil : marketUpdates [] = [] := rfl

@[simp] theorem clientResponses_append (l₁ l₂ : List Sent) :
    clientResponses (l₁ ++ l₂) = clientResponses l₁ ++ clientResponses l₂ :=
  List.filterMap_append

@[simp] theorem marketUpdates_append (l₁ l₂ : List Sent) :
    marketUpdates (l₁ ++ l₂) = marketUpdates l₁ ++ marketUpdates l₂ :=
  List.filterMap_append

/-- `MatchingEngine`: the books, read below `ME_MAX_TICKERS` only. -/
structure MatchingEngine where
  tickerOrderBook : TickerId → MEOrderBook

namespace MatchingEngine

/-- The constructor makes one book for each ticker. -/
def init : MatchingEngine := { tickerOrderBook := MEOrderBook.init }

/-- The engine on a thread with this much room on its stack. -/
def onStack (e : MatchingEngine) (stackRoom : Nat) : MatchingEngine where
  tickerOrderBook := fun t => (e.tickerOrderBook t).onStack stackRoom

/-- `processClientRequest`. -/
def processClientRequest (e : MatchingEngine) (req : MEClientRequest) :
    Except Fault (MatchingEngine × List Sent) := do
  if req.tickerId.toNat < meMaxTickers then
    let (b, sent) ← (e.tickerOrderBook req.tickerId).process req
    return ({ tickerOrderBook := Function.update e.tickerOrderBook req.tickerId b }, sent)
  else .error .badIndex

theorem processClientRequest_eq_ok {e e' : MatchingEngine} {req : MEClientRequest}
    {sent : List Sent} : e.processClientRequest req = .ok (e', sent) ↔
      req.tickerId.toNat < meMaxTickers ∧
        ∃ b, (e.tickerOrderBook req.tickerId).process req = .ok (b, sent) ∧
          e' = { tickerOrderBook := Function.update e.tickerOrderBook req.tickerId b } := by
  rw [processClientRequest]
  split
  · next ht =>
    rw [bind_eq_ok]
    constructor
    · rintro ⟨⟨b, s⟩, hb, he⟩
      obtain ⟨rfl, rfl⟩ := Prod.mk.inj (Except.ok.inj he)
      exact ⟨ht, b, hb, rfl⟩
    · rintro ⟨-, b, hb, rfl⟩
      exact ⟨(b, sent), hb, rfl⟩
  · next ht => simp [ht]

end MatchingEngine

namespace MEOrderBook

/-! ## What a request does to a book of rings -/

variable {b : MEOrderBook} {ring : Nat → List Ptr}

/-- The order a `NEW` request rests in a book of rings: all of it, behind the slot's last order. -/
def newOrder (b : MEOrderBook) (ring : Nat → List Ptr) (req : MEClientRequest) : OrderData where
  tickerId := req.tickerId
  clientId := req.clientId
  clientOrderId := req.orderId
  marketOrderId := b.nextMarketOrderId
  side := req.side
  price := req.price
  qty := req.qty
  priority := nextPriority (b.ordersIn ring (priceToIndex req.price))

/-- The response `add` starts with. -/
def acceptedResponse (marketOrderId : OrderId) (req : MEClientRequest) : MEClientResponse where
  type := .accepted
  clientId := req.clientId
  tickerId := req.tickerId
  clientOrderId := req.orderId
  markerOrderId := marketOrderId
  side := req.side
  price := req.price
  execQty := 0
  leftQty := req.qty

/-- The update `add` ends with when the order `d` rests. -/
def addUpdate (d : OrderData) : MEMarketUpdate where
  type := .add
  orderId := d.marketOrderId
  tickerId := d.tickerId
  side := d.side
  price := d.price
  qty := d.qty
  priority := d.priority

theorem Slots.generateNewMarketOrderId (h : Slots b ring) :
    Slots b.generateNewMarketOrderId ring :=
  { h with pools := { h.pools with } }

/-- What `add` computes once nothing has matched. -/
theorem process_new_eq (h : Slots b ring) {req : MEClientRequest} (hn : req.requestType = .new) :
    b.process req =
      if req.qty = 0 then .ok (b.generateNewMarketOrderId,
        [.clientResponse (acceptedResponse b.nextMarketOrderId req)])
      else do
        let (pool, order) ← b.orderPool.allocate { toOrderData := b.newOrder ring req }
        let b' ← (b.generateNewMarketOrderId.withOrderPool pool).addOrder order
        return (b', [.clientResponse (acceptedResponse b.nextMarketOrderId req),
          .marketUpdate (addUpdate (b.newOrder ring req))]) := by
  have hg := h.generateNewMarketOrderId
  rw [process, hn]
  simp only [add, checkForMatch_eq hg, ok_bind, getNextPriority_eq hg]
  rfl

theorem process_new_zero (h : Slots b ring) {req : MEClientRequest} (hn : req.requestType = .new)
    (hq : req.qty = 0) : b.process req = .ok (b.generateNewMarketOrderId,
      [.clientResponse (acceptedResponse b.nextMarketOrderId req)]) := by
  rw [process_new_eq h hn, if_pos hq]

/-- The order pool hands out each of its blocks once, the last one excepted. -/
theorem process_new_full (h : Slots b ring) {req : MEClientRequest} (hn : req.requestType = .new)
    (hq : req.qty ≠ 0) (hroom : ¬ b.orderPool.Room) : b.process req = .error .badIndex := by
  rw [process_new_eq h hn, if_neg hq, MemPool.allocate_full h.pools.orderFrontier hroom, error_bind]

/-- So does the level pool, and it is asked when the slot is null. -/
theorem process_new_levels_full (h : Slots b ring) {req : MEClientRequest}
    (hn : req.requestType = .new) (hq : req.qty ≠ 0) (hroom : b.orderPool.Room)
    (hslot : b.getPriceLevel req.price = none) (hlev : ¬ b.priceLevelsPool.Room) :
    b.process req = .error .badIndex := by
  rw [process_new_eq h hn, if_neg hq, MemPool.allocate_eq h.pools.orderFrontier hroom, ok_bind]
  have hg := h.generateNewMarketOrderId
  have hfull := addOrder_full hg (b.newOrder ring req) hslot hlev
  simp only
  rw [show (b.generateNewMarketOrderId.withOrderPool
      (b.orderPool.push { toOrderData := b.newOrder ring req })).addOrder b.orderPool.nextFreeIndex
        = .error .badIndex from hfull, error_bind]

/-- A `NEW` that returns found its blocks. -/
theorem process_new_room (h : Slots b ring) {req : MEClientRequest} (hn : req.requestType = .new)
    (hq : req.qty ≠ 0) {x : MEOrderBook × List Sent} (hx : b.process req = .ok x) :
    b.orderPool.Room ∧ (b.getPriceLevel req.price = none → b.priceLevelsPool.Room) := by
  have hroom : b.orderPool.Room := by
    by_contra hfull
    exact absurd (hx.symm.trans (process_new_full h hn hq hfull)) (by simp)
  refine ⟨hroom, fun hslot => ?_⟩
  by_contra hfull
  exact absurd (hx.symm.trans (process_new_levels_full h hn hq hroom hslot hfull)) (by simp)

/-- A `NEW` that returns has ids inside the table of client orders. -/
theorem process_new_ids (h : Slots b ring) {req : MEClientRequest} (hn : req.requestType = .new)
    (hq : req.qty ≠ 0) {x : MEOrderBook × List Sent} (hx : b.process req = .ok x) :
    req.clientId.toNat < meMaxNumClients ∧ req.orderId.toNat < meMaxOrderIds := by
  obtain ⟨hroom, hlev⟩ := process_new_room h hn hq hx
  by_contra hids
  have hadd := addOrder_outOfRange h.generateNewMarketOrderId (b.newOrder ring req) hids hlev
  rw [process_new_eq h hn, if_neg hq, MemPool.allocate_eq h.pools.orderFrontier hroom,
    ok_bind] at hx
  simp only at hx
  rw [show (b.generateNewMarketOrderId.withOrderPool
      (b.orderPool.push { toOrderData := b.newOrder ring req })).addOrder b.orderPool.nextFreeIndex
        = .error .outOfRange from hadd, error_bind] at hx
  exact absurd hx (by simp)

/-- **A `NEW` request** is accepted and rests in full, whatever rests on the other side. -/
theorem process_new (h : Slots b ring) {req : MEClientRequest} (hn : req.requestType = .new)
    (hq : req.qty ≠ 0) (hc : req.clientId.toNat < meMaxNumClients)
    (ho : req.orderId.toNat < meMaxOrderIds) (hroom : b.orderPool.Room)
    (hlev : b.getPriceLevel req.price = none → b.priceLevelsPool.Room) :
    ∃ b', b.process req = .ok (b',
        [.clientResponse (acceptedResponse b.nextMarketOrderId req),
          .marketUpdate (addUpdate (b.newOrder ring req))]) ∧
      Inserted b.generateNewMarketOrderId b' (b.newOrder ring req) ∧
      Slots b' (Function.update ring (priceToIndex req.price)
        (ring (priceToIndex req.price) ++ [b.nextOrderPtr])) := by
  have hg := h.generateNewMarketOrderId
  obtain ⟨b', hb', hi, hs⟩ := addOrder_slots hg (b.newOrder ring req) ⟨hc, ho⟩ hroom hlev
  refine ⟨b', ?_, hi, hs⟩
  rw [process_new_eq h hn, if_neg hq, MemPool.allocate_eq h.pools.orderFrontier hroom, ok_bind]
  simp only
  rw [show (b.generateNewMarketOrderId.withOrderPool
      (b.orderPool.push { toOrderData := b.newOrder ring req })).addOrder b.orderPool.nextFreeIndex
        = .ok b' from hb', ok_bind, pure_eq_ok]

/-- The response to a `CANCEL` that finds nothing. -/
def cancelRejectedResponse (req : MEClientRequest) : MEClientResponse where
  type := .cancelRejected
  clientId := req.clientId
  tickerId := req.tickerId
  clientOrderId := req.orderId

/-- The response to a `CANCEL` that removes the order `d`. -/
def canceledResponse (req : MEClientRequest) (d : OrderData) : MEClientResponse where
  type := .canceled
  clientId := req.clientId
  tickerId := req.tickerId
  clientOrderId := req.orderId
  markerOrderId := d.marketOrderId
  side := d.side
  price := d.price
  execQty := qtyInvalid
  leftQty := d.qty

/-- The update of a `CANCEL` that removes the order `d`, with `orderId` to name the order. -/
def cancelUpdate (orderId : OrderId) (req : MEClientRequest) (d : OrderData) : MEMarketUpdate where
  type := .cancel
  orderId := orderId
  tickerId := req.tickerId
  side := d.side
  price := d.price
  qty := d.qty
  priority := d.priority

theorem process_cancel_miss (hfits : b.CopyFits) {req : MEClientRequest}
    (hn : req.requestType = .cancel) (hc : req.clientId.toNat < meMaxNumClients)
    (ho : req.orderId.toNat < meMaxOrderIds)
    (hp : b.clientOrders req.clientId req.orderId = none) :
    b.process req = .ok (b, [.clientResponse (cancelRejectedResponse req)]) := by
  rw [process, hn]
  simp only [cancel, copyClientOrders_of hfits, clientOrderAt, hc, ho, and_self, if_true, ok_bind,
    hp]
  rfl

/-- Without the room it does not get to the table. -/
theorem process_cancel_overflow (hfits : ¬ b.CopyFits) {req : MEClientRequest}
    (hn : req.requestType = .cancel) (hc : req.clientId.toNat < meMaxNumClients) :
    b.process req = .error .stackOverflow := by
  rw [process, hn]
  simp only [cancel, copyClientOrders_not hfits, hc, if_true, error_bind]

/-- A `CANCEL` that returns had the room. -/
theorem process_cancel_fits {req : MEClientRequest} (hn : req.requestType = .cancel)
    (hc : req.clientId.toNat < meMaxNumClients) {x : MEOrderBook × List Sent}
    (hx : b.process req = .ok x) : b.CopyFits := by
  by_contra hfits
  exact absurd (hx.symm.trans (process_cancel_overflow hfits hn hc)) (by simp)

/-- A client id past the table is dropped. -/
theorem process_cancel_dropped {req : MEClientRequest} (hn : req.requestType = .cancel)
    (hc : ¬ req.clientId.toNat < meMaxNumClients) : b.process req = .ok (b, []) := by
  rw [process, hn]
  simp only [cancel, if_neg hc, pure_eq_ok]

/-- An order id past the table is not checked for; the exception leaves a `noexcept` function. -/
theorem process_cancel_ids {req : MEClientRequest} (hn : req.requestType = .cancel)
    (hc : req.clientId.toNat < meMaxNumClients) {x : MEOrderBook × List Sent}
    (hx : b.process req = .ok x) : req.orderId.toNat < meMaxOrderIds := by
  have hfits := process_cancel_fits hn hc hx
  by_contra ho
  rw [process, hn] at hx
  simp [cancel, copyClientOrders_of hfits, clientOrderAt, hc, ho] at hx

/-- **A `CANCEL` request** that finds its order removes that order.  The update it sends names the
order by the client's id. -/
theorem process_cancel_hit (h : Slots b ring) (hfits : b.CopyFits) {req : MEClientRequest}
    (hn : req.requestType = .cancel) {p : Ptr}
    (hp : b.clientOrders req.clientId req.orderId = some p) :
    ∃ i b', p ∈ ring i ∧ b.process req = .ok (b',
        [.marketUpdate (cancelUpdate req.orderId req (b.data p)),
          .clientResponse (canceledResponse req (b.data p))]) ∧
      Removed b b' p ∧ Slots b' (Function.update ring i ((ring i).erase p)) := by
  obtain ⟨hlive, hcl, hor⟩ := h.table _ _ _ hp
  obtain ⟨i, hi⟩ := (h.live p).1 hlive
  obtain ⟨hc, ho⟩ := h.idsLt i p hi
  rw [hcl] at hc
  rw [hor] at ho
  obtain ⟨b', hb', hr, hs⟩ := removeOrder_slots h hi
  refine ⟨i, b', hi, ?_, hr, hs⟩
  rw [process, hn]
  simp only [cancel, copyClientOrders_of hfits, clientOrderAt, hc, ho, and_self, if_true, ok_bind,
    hp, hb']
  rfl

/-- **What a request can do** to a book of rings. -/
inductive Processed (b : MEOrderBook) (ring : Nat → List Ptr) (req : MEClientRequest) :
    MEOrderBook → List Sent → Prop
  /-- A `NEW` without a quantity is accepted, and nothing rests. -/
  | empty (hn : req.requestType = .new) (hq : req.qty = 0) : Processed b ring req
      b.generateNewMarketOrderId [.clientResponse (acceptedResponse b.nextMarketOrderId req)]
  /-- A `NEW` rests. -/
  | rested {b' : MEOrderBook} (hn : req.requestType = .new) (hq : req.qty ≠ 0)
      (hi : Inserted b.generateNewMarketOrderId b' (b.newOrder ring req))
      (hs : Slots b' (Function.update ring (priceToIndex req.price)
        (ring (priceToIndex req.price) ++ [b.nextOrderPtr]))) : Processed b ring req b'
      [.clientResponse (acceptedResponse b.nextMarketOrderId req),
        .marketUpdate (addUpdate (b.newOrder ring req))]
  /-- A `CANCEL` with a client id past the table is dropped. -/
  | dropped (hn : req.requestType = .cancel) (hc : ¬ req.clientId.toNat < meMaxNumClients) :
      Processed b ring req b []
  /-- A `CANCEL` finds nothing. -/
  | missed (hn : req.requestType = .cancel)
      (hp : b.clientOrders req.clientId req.orderId = none) :
      Processed b ring req b [.clientResponse (cancelRejectedResponse req)]
  /-- A `CANCEL` takes its order out. -/
  | removed {b' : MEOrderBook} {p : Ptr} {i : Nat} (hn : req.requestType = .cancel)
      (hp : b.clientOrders req.clientId req.orderId = some p) (hi : p ∈ ring i)
      (hr : Removed b b' p) (hs : Slots b' (Function.update ring i ((ring i).erase p))) :
      Processed b ring req b' [.marketUpdate (cancelUpdate req.orderId req (b.data p)),
        .clientResponse (canceledResponse req (b.data p))]

theorem processed_of_eq_ok (h : Slots b ring) {req : MEClientRequest} {b' : MEOrderBook}
    {sent : List Sent} (hb : b.process req = .ok (b', sent)) : Processed b ring req b' sent := by
  cases hn : req.requestType with
  | new =>
    by_cases hq : req.qty = 0
    · obtain ⟨rfl, rfl⟩ := Prod.mk.inj (Except.ok.inj (hb.symm.trans (process_new_zero h hn hq)))
      exact .empty hn hq
    · obtain ⟨hroom, hlev⟩ := process_new_room h hn hq hb
      obtain ⟨hc, ho⟩ := process_new_ids h hn hq hb
      obtain ⟨b'', hb'', hi, hs⟩ := process_new h hn hq hc ho hroom hlev
      obtain ⟨rfl, rfl⟩ := Prod.mk.inj (Except.ok.inj (hb.symm.trans hb''))
      exact .rested hn hq hi hs
  | cancel =>
    by_cases hc : req.clientId.toNat < meMaxNumClients
    · have hfits := process_cancel_fits hn hc hb
      cases hp : b.clientOrders req.clientId req.orderId with
      | none =>
        have ho := process_cancel_ids hn hc hb
        obtain ⟨rfl, rfl⟩ :=
          Prod.mk.inj (Except.ok.inj (hb.symm.trans (process_cancel_miss hfits hn hc ho hp)))
        exact .missed hn hp
      | some p =>
        obtain ⟨i, b'', hi, hb'', hr, hs⟩ := process_cancel_hit h hfits hn hp
        obtain ⟨rfl, rfl⟩ := Prod.mk.inj (Except.ok.inj (hb.symm.trans hb''))
        exact .removed hn hp hi hr hs
    · obtain ⟨rfl, rfl⟩ :=
        Prod.mk.inj (Except.ok.inj (hb.symm.trans (process_cancel_dropped hn hc)))
      exact .dropped hn hc
  | invalid =>
    rw [process, hn] at hb
    exact absurd hb (by simp)
  | unnamed code hcode =>
    rw [process, hn] at hb
    exact absurd hb (by simp)

/-- A request leaves the stack as it found it. -/
theorem stackRoom_of_process (h : Slots b ring) {req : MEClientRequest} {b' : MEOrderBook}
    {sent : List Sent} (hb : b.process req = .ok (b', sent)) : b'.stackRoom = b.stackRoom := by
  cases processed_of_eq_ok h hb with
  | empty => rfl
  | rested _ _ hi => exact hi.stackRoom
  | dropped => rfl
  | missed => rfl
  | removed _ _ _ hr => exact hr.stackRoom

end MEOrderBook
end Exchange
end TradingEcosystem
