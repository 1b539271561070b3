import TradingEcosystem.Exchange.BookRun
import TradingEcosystem.Lib.TwoRuns

/-!
# The book is a table of orders

What the book of the source does on every run, without a pointer in it.  No order ever trades, so a
book is the list of the orders that rest, oldest first, with the one order each client id and client
order id leads to.  `OrderTable.process` is that machine, with the two counts that decide when a
pool has run out; it stops where the source stops.

`Tabulates` is how a book of rings stands for a table and `Tabulates.process` is the simulation of
one request.  `refines_orderTable` is the whole run: same messages, same orders in every slot, and
the same fault at the same request.
-/

set_option autoImplicit false

namespace TradingEcosystem
namespace Exchange

open TwoRuns

/-- An order that rests, with its number among all orders that ever rested. -/
structure Entry where
  number : Nat
  order : OrderData
  deriving DecidableEq

/-- The order has a price in slot `i`. -/
def Entry.inSlot (i : Nat) (e : Entry) : Bool := MEOrderBook.priceToIndex e.order.price = i

/-- **The orders of a book.** -/
structure OrderTable where
  /-- The orders that rest, oldest first. -/
  entries : List Entry := []
  /-- The order a `CANCEL` with these ids takes out. -/
  owned : ClientId → OrderId → Option Entry := fun _ _ => none
  nextMarketOrderId : OrderId := 1
  /-- The orders that ever rested. -/
  ordersTaken : Nat := 0
  /-- How often an order came to a slot without orders. -/
  levelsTaken : Nat := 0
  /-- What the stack of the calling thread has left. -/
  stackRoom : Nat := orderHashMapSize

namespace OrderTable

/-- The orders that share a slot with this price. -/
def sharing (t : OrderTable) (price : Price) : List Entry :=
  t.entries.filter (Entry.inSlot (MEOrderBook.priceToIndex price))

/-- The order a `NEW` request rests. -/
def newOrder (t : OrderTable) (req : MEClientRequest) : OrderData where
  tickerId := req.tickerId
  clientId := req.clientId
  clientOrderId := req.orderId
  marketOrderId := t.nextMarketOrderId
  side := req.side
  price := req.price
  qty := req.qty
  priority := MEOrderBook.nextPriority ((t.sharing req.price).map Entry.order)

/-- The pools have a block for an order at this price, and one to spare. -/
def HasRoom (t : OrderTable) (price : Price) : Prop :=
  t.ordersTaken + 1 < meMaxOrderIds ∧
    (t.sharing price = [] → t.levelsTaken + 1 < meMaxPriceLevels)

instance (t : OrderTable) (price : Price) : Decidable (t.HasRoom price) :=
  inferInstanceAs (Decidable (_ ∧ _))

/-- The stack has room for the copy a `CANCEL` makes first. -/
def CopyFits (t : OrderTable) : Prop := orderHashMapSize ≤ t.stackRoom

instance (t : OrderTable) : Decidable t.CopyFits := inferInstanceAs (Decidable (_ ≤ _))

/-- The market order id is used up. -/
def count (t : OrderTable) : OrderTable := { t with nextMarketOrderId := t.nextMarketOrderId + 1 }

/-- `owned` with another order for these ids. -/
def own (t : OrderTable) (c : ClientId) (o : OrderId) (e : Option Entry) :
    ClientId → OrderId → Option Entry :=
  Function.update t.owned c (Function.update (t.owned c) o e)

/-- The order joins the table as the last one. -/
def insert (t : OrderTable) (d : OrderData) : OrderTable :=
  let e : Entry := ⟨t.ordersTaken, d⟩
  { t with
    entries := t.entries ++ [e]
    owned := t.own d.clientId d.clientOrderId (some e)
    ordersTaken := t.ordersTaken + 1
    levelsTaken := t.levelsTaken + if t.sharing d.price = [] then 1 else 0 }

/-- The order leaves the table. -/
def remove (t : OrderTable) (e : Entry) : OrderTable :=
  { t with
    entries := t.entries.filter fun f => f.number ≠ e.number
    owned := t.own e.order.clientId e.order.clientOrderId none }

/-- A `NEW` request. -/
def add (t : OrderTable) (req : MEClientRequest) : Except Fault (OrderTable × List Sent) :=
  let accepted := Sent.clientResponse (MEOrderBook.acceptedResponse t.nextMarketOrderId req)
  if req.qty = 0 then .ok (t.count, [accepted])
  else if t.HasRoom req.price then
    if req.clientId.toNat < meMaxNumClients ∧ req.orderId.toNat < meMaxOrderIds then
      .ok (t.count.insert (t.newOrder req),
        [accepted, .marketUpdate (MEOrderBook.addUpdate (t.newOrder req))])
    else .error .outOfRange
  else .error .badIndex

/-- A `CANCEL` request. -/
def cancel (t : OrderTable) (req : MEClientRequest) : Except Fault (OrderTable × List Sent) :=
  if req.clientId.toNat < meMaxNumClients then
    if t.CopyFits then
      if req.orderId.toNat < meMaxOrderIds then
        match t.owned req.clientId req.orderId with
        | none => .ok (t, [.clientResponse (MEOrderBook.cancelRejectedResponse req)])
        | some e => .ok (t.remove e,
            [.marketUpdate (MEOrderBook.cancelUpdate req.orderId req e.order),
              .clientResponse (MEOrderBook.canceledResponse req e.order)])
      else .error .outOfRange
    else .error .stackOverflow
  else .ok (t, [])

/-- One request. -/
def process (t : OrderTable) (req : MEClientRequest) : Except Fault (OrderTable × List Sent) :=
  match req.requestType with
  | .new => t.add req
  | .cancel => t.cancel req
  | type => .error (.fatal ("Recieved invalid requestType_: " ++ clientRequestTypeToString type))

/-- One request, with what was sent so far. -/
def processAfter (x : OrderTable × List Sent) (req : MEClientRequest) :
    Except Fault (OrderTable × List Sent) := do
  let (t, sent) ← x.1.process req
  return (t, x.2 ++ sent)

/-- All requests, and what they make the table send. -/
def processAll (t : OrderTable) (reqs : List MEClientRequest) :
    Except Fault (OrderTable × List Sent) :=
  reqs.foldlM processAfter (t, [])

end OrderTable

namespace MEOrderBook

/-- The order at an address as an entry: blocks are handed out once each, in order, so the address
is the number. -/
def entry (b : MEOrderBook) (p : Ptr) : Entry := ⟨p, b.data p⟩

/-- **The book holds the orders of the table**: in slot `i` the ring of orders is that of the
entries with a price in the slot, in the same order. -/
structure Tabulates (b : MEOrderBook) (ring : Nat → List Ptr) (t : OrderTable) : Prop where
  slots : Slots b ring
  entries : ∀ i, (ring i).map b.entry = t.entries.filter (Entry.inSlot i)
  owned : ∀ c o, (b.clientOrders c o).map b.entry = t.owned c o
  marketOrderId : b.nextMarketOrderId = t.nextMarketOrderId
  ordersTaken : b.orderPool.nextFreeIndex = t.ordersTaken
  levelsTaken : b.priceLevelsPool.nextFreeIndex = t.levelsTaken
  stackRoom : b.stackRoom = t.stackRoom

theorem tabulates_init (t : TickerId) (stackRoom : Nat) :
    Tabulates ((init t).onStack stackRoom) (fun _ => []) { stackRoom } where
  slots := (slots_init t).onStack stackRoom
  entries := fun _ => rfl
  owned := fun _ _ => rfl
  marketOrderId := rfl
  ordersTaken := rfl
  levelsTaken := rfl
  stackRoom := rfl

variable {b b' : MEOrderBook} {ring : Nat → List Ptr} {t : OrderTable} {req : MEClientRequest}

theorem Tabulates.count (h : Tabulates b ring t) :
    Tabulates b.generateNewMarketOrderId ring t.count where
  slots := h.slots.generateNewMarketOrderId
  entries := h.entries
  owned := h.owned
  marketOrderId := congrArg (· + 1) h.marketOrderId
  ordersTaken := h.ordersTaken
  levelsTaken := h.levelsTaken
  stackRoom := h.stackRoom

theorem Tabulates.copyFits_iff (h : Tabulates b ring t) : b.CopyFits ↔ t.CopyFits := by
  rw [CopyFits, OrderTable.CopyFits, h.stackRoom]

/-- The orders of a slot. -/
theorem Tabulates.ordersIn_eq (h : Tabulates b ring t) (price : Price) :
    b.ordersIn ring (priceToIndex price) = (t.sharing price).map Entry.order := by
  rw [OrderTable.sharing, ← h.entries, List.map_map]
  rfl

theorem Tabulates.newOrder_eq (h : Tabulates b ring t) (req : MEClientRequest) :
    b.newOrder ring req = t.newOrder req := by
  rw [newOrder, OrderTable.newOrder, h.ordersIn_eq, h.marketOrderId]

/-- The orders that rest are those of the table. -/
theorem Tabulates.rests_iff (h : Tabulates b ring t) (d : OrderData) :
    b.Rests d ↔ d ∈ t.entries.map Entry.order := by
  have hslot : ∀ i, b.ordersIn ring i =
      (t.entries.filter (Entry.inSlot i)).map Entry.order := fun i => by
    rw [← h.entries, List.map_map]
    rfl
  rw [h.slots.rests_iff]
  simp only [hslot]
  constructor
  · rintro ⟨i, hd⟩
    obtain ⟨e, he, hd⟩ := List.mem_map.1 hd
    exact List.mem_map.2 ⟨e, List.mem_of_mem_filter he, hd⟩
  · intro hd
    obtain ⟨e, he, rfl⟩ := List.mem_map.1 hd
    exact ⟨priceToIndex e.order.price,
      List.mem_map_of_mem (List.mem_filter.2 ⟨he, by simp [Entry.inSlot]⟩)⟩

/-- A slot is null where no order of the table has its price. -/
theorem Tabulates.getPriceLevel_none (h : Tabulates b ring t) (price : Price) :
    b.getPriceLevel price = none ↔ t.sharing price = [] := by
  rw [h.slots.getPriceLevel_none, OrderTable.sharing, ← h.entries, List.map_eq_nil_iff]

theorem Tabulates.orderRoom_iff (h : Tabulates b ring t) :
    b.orderPool.Room ↔ t.ordersTaken + 1 < meMaxOrderIds := by
  rw [MemPool.Room, h.slots.pools.orderSize, h.ordersTaken]

theorem Tabulates.levelRoom_iff (h : Tabulates b ring t) :
    b.priceLevelsPool.Room ↔ t.levelsTaken + 1 < meMaxPriceLevels := by
  rw [MemPool.Room, h.slots.pools.levelSize, h.levelsTaken]

theorem Tabulates.hasRoom_iff (h : Tabulates b ring t) (price : Price) :
    t.HasRoom price ↔
      b.orderPool.Room ∧ (b.getPriceLevel price = none → b.priceLevelsPool.Room) := by
  rw [OrderTable.HasRoom, h.orderRoom_iff, h.levelRoom_iff, h.getPriceLevel_none]

/-! ## A `NEW` request -/

/-- **An order rests** in the book and in the table. -/
theorem Tabulates.insert (h : Tabulates b ring t) {d : OrderData} (hi : Inserted b b' d)
    (hs : Slots b' (Function.update ring (priceToIndex d.price)
      (ring (priceToIndex d.price) ++ [b.nextOrderPtr]))) :
    Tabulates b' (Function.update ring (priceToIndex d.price)
      (ring (priceToIndex d.price) ++ [b.nextOrderPtr])) (t.insert d) := by
  have hentry : ∀ p, p ≠ b.nextOrderPtr → b'.entry p = b.entry p := fun p hp => by
    rw [entry, entry, hi.other p hp]
  have hself : b'.entry b.nextOrderPtr = ⟨t.ordersTaken, d⟩ := by
    rw [entry, hi.self, nextOrderPtr, h.ordersTaken]
  have hold : ∀ i, (ring i).map b'.entry = t.entries.filter (Entry.inSlot i) := fun i => by
    rw [← h.entries]
    exact List.map_congr_left fun p hp => hentry p (h.slots.ne_fresh hp)
  refine ⟨hs, fun i => ?_, fun c o => ?_, ?_, ?_, ?_, ?_⟩
  · rw [OrderTable.insert]
    dsimp only
    rw [List.filter_append]
    by_cases hid : i = priceToIndex d.price
    · subst hid
      have hin : Entry.inSlot (priceToIndex d.price) ⟨t.ordersTaken, d⟩ = true := by
        simp [Entry.inSlot]
      rw [Function.update_self, List.map_append, hold, List.map_singleton, hself,
        List.filter_cons_of_pos hin, List.filter_nil]
    · have hout : ¬ Entry.inSlot i ⟨t.ordersTaken, d⟩ = true := by
        simpa [Entry.inSlot] using Ne.symm hid
      rw [Function.update_of_ne hid, hold, List.filter_cons_of_neg hout, List.filter_nil,
        List.append_nil]
  · rw [OrderTable.insert, OrderTable.own, hi.table]
    dsimp only
    by_cases hc : c = d.clientId
    · subst hc
      by_cases ho : o = d.clientOrderId
      · subst ho
        rw [Function.update_self, Function.update_self, Function.update_self,
          Function.update_self, Option.map_some, hself]
      · rw [Function.update_self, Function.update_self, Function.update_of_ne ho,
          Function.update_of_ne ho, ← h.owned]
        refine Option.map_congr fun p hp => hentry p ?_
        exact (h.slots.pools.orderFrontier.lt_of_live (h.slots.table _ _ _ hp).1).ne
    · rw [Function.update_of_ne hc, Function.update_of_ne hc, ← h.owned]
      refine Option.map_congr fun p hp => hentry p ?_
      exact (h.slots.pools.orderFrontier.lt_of_live (h.slots.table _ _ _ hp).1).ne
  · exact hi.marketOrderId.trans h.marketOrderId
  · exact hi.orderNext.trans (congrArg (· + 1) h.ordersTaken)
  · rw [hi.levelNext, h.levelsTaken, OrderTable.insert]
    simp only [h.getPriceLevel_none]
  · exact hi.stackRoom.trans h.stackRoom

/-- A `NEW` with ids past the table of client orders, when the pools have their blocks. -/
theorem process_new_outOfRange (h : Slots b ring) (hn : req.requestType = .new)
    (hq : req.qty ≠ 0)
    (hids : ¬ (req.clientId.toNat < meMaxNumClients ∧ req.orderId.toNat < meMaxOrderIds))
    (hroom : b.orderPool.Room) (hlev : b.getPriceLevel req.price = none → b.priceLevelsPool.Room) :
    b.process req = .error .outOfRange := by
  have hadd := addOrder_outOfRange h.generateNewMarketOrderId (b.newOrder ring req) hids hlev
  rw [process_new_eq h hn, if_neg hq, MemPool.allocate_eq h.pools.orderFrontier hroom, ok_bind]
  simp only
  rw [show (b.generateNewMarketOrderId.withOrderPool
      (b.orderPool.push { toOrderData := b.newOrder ring req })).addOrder b.orderPool.nextFreeIndex
        = .error .outOfRange from hadd, error_bind]

/-- What the two runs are after a request: the same was sent, and the book holds the table. -/
def SameOrders (x : MEOrderBook × List Sent) (y : OrderTable × List Sent) : Prop :=
  x.2 = y.2 ∧ ∃ ring, Tabulates x.1 ring y.1

theorem Tabulates.add (h : Tabulates b ring t) (hn : req.requestType = .new) :
    Agree SameOrders (b.process req) (t.add req) := by
  rw [OrderTable.add]
  by_cases hq : req.qty = 0
  · rw [if_pos hq, process_new_zero h.slots hn hq]
    exact ⟨by rw [h.marketOrderId], ring, h.count⟩
  rw [if_neg hq]
  by_cases hroom : t.HasRoom req.price
  · rw [if_pos hroom]
    obtain ⟨horder, hlevel⟩ := (h.hasRoom_iff req.price).1 hroom
    by_cases hids : req.clientId.toNat < meMaxNumClients ∧ req.orderId.toNat < meMaxOrderIds
    · obtain ⟨b', hb', hi, hs⟩ := process_new h.slots hn hq hids.1 hids.2 horder hlevel
      rw [if_pos hids, hb']
      rw [h.newOrder_eq] at hi ⊢
      exact ⟨by rw [h.marketOrderId], _, h.count.insert hi hs⟩
    · rw [if_neg hids, process_new_outOfRange h.slots hn hq hids horder hlevel]
      exact rfl
  · rw [if_neg hroom]
    rw [h.hasRoom_iff] at hroom
    by_cases horder : b.orderPool.Room
    · obtain ⟨hslot, hlevel⟩ : b.getPriceLevel req.price = none ∧ ¬ b.priceLevelsPool.Room := by
        by_contra hno
        exact hroom ⟨horder, fun hslot => by_contra fun hlevel => hno ⟨hslot, hlevel⟩⟩
      rw [process_new_levels_full h.slots hn hq horder hslot hlevel]
      exact rfl
    · rw [process_new_full h.slots hn hq horder]
      exact rfl

/-! ## A `CANCEL` request -/

/-- **An order leaves** the book and the table. -/
theorem Tabulates.remove (h : Tabulates b ring t) {i : Nat} {p : Ptr} (hp : p ∈ ring i)
    (hr : Removed b b' p) (hs : Slots b' (Function.update ring i ((ring i).erase p))) :
    Tabulates b' (Function.update ring i ((ring i).erase p)) (t.remove (b.entry p)) := by
  have hentry : b'.entry = b.entry := funext fun q => by rw [entry, entry, hr.data]
  refine ⟨hs, fun j => ?_, fun c o => ?_, ?_, ?_, ?_, ?_⟩
  · have hring : (ring j).filter (fun q => q != p) =
        (ring j).filter ((fun f : Entry => decide (f.number ≠ p)) ∘ b.entry) :=
      List.filter_congr fun q _ => by by_cases hq : q = p <;> simp [entry, hq]
    rw [h.slots.update_erase hp, (h.slots.isRing j).nodup.erase_eq_filter, hentry, hring,
      ← List.filter_map, h.entries, List.filter_comm]
    rfl
  · rw [hr.table, hentry, OrderTable.remove, OrderTable.own]
    change Option.map b.entry (Function.update b.clientOrders (b.data p).clientId _ c o) =
      Function.update t.owned (b.data p).clientId
        (Function.update (t.owned (b.data p).clientId) (b.data p).clientOrderId none) c o
    by_cases hc : c = (b.data p).clientId
    · subst hc
      by_cases ho : o = (b.data p).clientOrderId
      · subst ho
        rw [Function.update_self, Function.update_self, Function.update_self,
          Function.update_self, Option.map_none]
      · rw [Function.update_self, Function.update_self, Function.update_of_ne ho,
          Function.update_of_ne ho, h.owned]
    · rw [Function.update_of_ne hc, Function.update_of_ne hc, h.owned]
  · exact hr.marketOrderId.trans h.marketOrderId
  · exact hr.orderNext.trans h.ordersTaken
  · exact hr.levelNext.trans h.levelsTaken
  · exact hr.stackRoom.trans h.stackRoom

theorem Tabulates.cancel (h : Tabulates b ring t) (hn : req.requestType = .cancel) :
    Agree SameOrders (b.process req) (t.cancel req) := by
  rw [OrderTable.cancel]
  by_cases hc : req.clientId.toNat < meMaxNumClients
  swap
  · rw [if_neg hc, process_cancel_dropped hn hc]
    exact ⟨rfl, ring, h⟩
  rw [if_pos hc]
  by_cases hfits : b.CopyFits
  · rw [if_pos (h.copyFits_iff.1 hfits)]
    by_cases ho : req.orderId.toNat < meMaxOrderIds
    · rw [if_pos ho]
      have howned := h.owned req.clientId req.orderId
      cases hp : b.clientOrders req.clientId req.orderId with
      | none =>
        rw [hp, Option.map_none] at howned
        rw [← howned, process_cancel_miss hfits hn hc ho hp]
        exact ⟨rfl, ring, h⟩
      | some p =>
        obtain ⟨i, b', hi, hb', hr, hs⟩ := process_cancel_hit h.slots hfits hn hp
        rw [hp, Option.map_some] at howned
        rw [← howned, hb']
        exact ⟨rfl, _, h.remove hi hr hs⟩
    · rw [if_neg ho, MEOrderBook.process, hn]
      simp [MEOrderBook.cancel, copyClientOrders_of hfits, clientOrderAt, hc, ho, Agree]
  · rw [if_neg (mt h.copyFits_iff.2 hfits), process_cancel_overflow hfits hn hc]
    exact rfl

/-- **One request.** -/
theorem Tabulates.process (h : Tabulates b ring t) (req : MEClientRequest) :
    Agree SameOrders (b.process req) (t.process req) := by
  rw [OrderTable.process]
  cases hn : req.requestType with
  | new => exact h.add hn
  | cancel => exact h.cancel hn
  | invalid =>
    rw [MEOrderBook.process, hn]
    exact rfl
  | unnamed code hcode =>
    rw [MEOrderBook.process, hn]
    exact rfl

/-- Where the table is known, so is the one after the request. -/
theorem Tabulates.next (h : Tabulates b ring t) {t' : OrderTable} {sent : List Sent}
    (ht : t.process req = .ok (t', sent)) (hn : Next b req b') : ∃ ring', Tabulates b' ring' t' := by
  obtain ⟨sent', hb⟩ := hn
  obtain ⟨y, hy, -, hbook⟩ := (h.process req).of_ok hb
  obtain rfl : (t', sent) = y := Except.ok.inj (ht.symm.trans hy)
  exact hbook

/-- **A run** of a book and of the table it holds. -/
theorem Tabulates.processAll (h : Tabulates b ring t) (reqs : List MEClientRequest) :
    Agree SameOrders (b.processAll reqs) (t.processAll reqs) := by
  refine Agree.foldlM (fun x y req hxy => ?_) ⟨rfl, ring, h⟩ reqs
  obtain ⟨b, sent⟩ := x
  obtain ⟨t, sent'⟩ := y
  obtain ⟨hsent, ring, h⟩ := hxy
  obtain rfl : sent = sent' := hsent
  rw [processAfter, OrderTable.processAfter]
  refine (h.process req).bind fun x y hxy => ⟨?_, hxy.2⟩
  exact congrArg (sent ++ ·) hxy.1

/-- **The book refines the table of orders.**  On a stack of any size every run of requests,
whatever they are, has the same outcome for both: the same messages in the same order and the same
orders in every slot, or the same fault. -/
theorem refines_orderTable (ticker : TickerId) (stackRoom : Nat) (reqs : List MEClientRequest) :
    Agree SameOrders (((init ticker).onStack stackRoom).processAll reqs)
      (OrderTable.processAll { stackRoom } reqs) :=
  (tabulates_init ticker stackRoom).processAll reqs

end MEOrderBook
end Exchange
end TradingEcosystem
