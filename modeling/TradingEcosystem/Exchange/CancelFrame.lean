import TradingEcosystem.Exchange.ClientOrders
import TradingEcosystem.Exchange.PriceLevels

/-!
# A cancel takes out one order

`cancel` looks its order up in the table of client orders and hands it to `removeOrder`, which links
the neighbours of the order to each other, moves the entry of the level when it was entered at this
order, and drops the level when nothing is left in it.  `OneLess` says what of this can be seen
afterwards: one order fewer, and every other order where it was.

Before any of it the client's row of the table is copied onto the stack, where a reference was
meant.  `cancelsOne_iff` says that this is all that can go wrong, and it goes wrong on every thread
with the stack that threads get by default.

The queues are read off the pointers of the book (`Holds`); that these are the rings of the
invariant is `Slots.holds_iff`.
-/

set_option autoImplicit false

namespace TradingEcosystem
namespace Exchange
namespace MEOrderBook

open Ring

/-- Slot `i` leads to the level at `l`, and that level queues the orders, from its `first_order_`
on. -/
structure Holds (b : MEOrderBook) (i : Nat) (l : Ptr) (orders : List Ptr) : Prop where
  slot : b.priceLevels i = some l
  ne_nil : orders ≠ []
  first : (b.level l).firstOrder = orders.head?
  isRing : IsRing b.nextOrder b.prevOrder orders

/-- **`b'` is `b` without the order at `p`**, which has the ids of the entry. -/
structure OneLess (b b' : MEOrderBook) (clientId : ClientId) (clientOrderId : OrderId) (p : Ptr) :
    Prop where
  /-- The order was live, and no longer is; the others are. -/
  live : b.orderPool.Live p ∧ ∀ q, b'.orderPool.Live q ↔ q ≠ p ∧ b.orderPool.Live q
  /-- Every live order is in the queue of a level. -/
  held : ∀ q, b.orderPool.Live q → ∃ i l orders, Holds b i l orders ∧ q ∈ orders
  /-- A level leaves its slot and is given back if and only if the order was alone in it. -/
  level : ∀ i l orders, Holds b i l orders →
    (b'.priceLevels i = none ↔ orders = [p]) ∧ (¬ b'.priceLevelsPool.Live l ↔ orders = [p])
  /-- The other levels stay in their slots, with the same orders in the same sequence, this one
  excepted. -/
  queue : ∀ i l orders, Holds b i l orders → orders ≠ [p] → Holds b' i l (orders.erase p)
  /-- No slot gets a level. -/
  slot : ∀ i, b.priceLevels i = none → b'.priceLevels i = none
  /-- Levels keep their price and side. -/
  fields : ∀ l, ((b'.level l).price, (b'.level l).side) = ((b.level l).price, (b.level l).side)
  /-- Orders keep every field but their links: quantity and priority among them. -/
  data : ∀ q, b'.data q = b.data q
  /-- The entry of the table is null, and every other one is what it was. -/
  table : b'.clientOrders clientId clientOrderId = none ∧ ∀ c o,
    ¬ (c = clientId ∧ o = clientOrderId) → b'.clientOrders c o = b.clientOrders c o
  /-- The fields of the book itself. -/
  book : b'.tickerId = b.tickerId ∧ b'.bidLevelsHead = b.bidLevelsHead ∧
    b'.askLevelsHead = b.askLevelsHead ∧ b'.nextMarketOrderId = b.nextMarketOrderId

/-- What `cancel` sends when it takes out the order `d`. -/
def canceledMessages (clientId : ClientId) (clientOrderId : OrderId) (tickerId : TickerId)
    (d : OrderData) : List Sent :=
  [ .marketUpdate
      { type := .cancel, orderId := clientOrderId, tickerId, side := d.side, price := d.price,
        qty := d.qty, priority := d.priority },
    .clientResponse
      { type := .canceled, clientId, tickerId, clientOrderId, markerOrderId := d.marketOrderId,
        side := d.side, price := d.price, execQty := qtyInvalid, leftQty := d.qty } ]

/-- What it sends when it finds none. -/
def cancelRejectedMessages (clientId : ClientId) (clientOrderId : OrderId) (tickerId : TickerId) :
    List Sent :=
  [.clientResponse { type := .cancelRejected, clientId, tickerId, clientOrderId }]

variable {b b' : MEOrderBook} {ring : Nat → List Ptr} {i : Nat} {l p : Ptr} {orders : List Ptr}
  {clientId : ClientId} {clientOrderId : OrderId} {tickerId : TickerId}

/-- The queues of a book of rings are its rings. -/
theorem Slots.holds_iff (h : Slots b ring) :
    Holds b i l orders ↔ b.priceLevels i = some l ∧ ring i = orders := by
  constructor
  · rintro ⟨hl, hne, hfirst, hring⟩
    refine ⟨hl, ?_⟩
    obtain ⟨a, t, hr, -, ha, -⟩ := h.level_of_slot hl
    obtain ⟨c, s, rfl⟩ := List.exists_cons_of_ne_nil hne
    obtain rfl : a = c := Option.some_inj.1 (ha.symm.trans hfirst)
    have hri := h.isRing i
    rw [hr] at hri
    rw [hr, hri.unique hring]
  · rintro ⟨hl, rfl⟩
    obtain ⟨a, t, hr, -, ha, -⟩ := h.level_of_slot hl
    refine ⟨hl, ?_, by rw [ha, hr, List.head?_cons], h.isRing i⟩
    rw [hr]
    exact List.cons_ne_nil a t

theorem Slots.holds_of_mem (h : Slots b ring) (hp : p ∈ ring i) : ∃ l, Holds b i l (ring i) := by
  obtain ⟨l, hl⟩ := (h.inSlot i).exists_level hp
  exact ⟨l, h.holds_iff.2 ⟨hl, rfl⟩⟩

/-! ## What `removeOrder` leaves of levels and of the book -/

/-- The level of an order that was alone is given back. -/
theorem removeOrder_level_freed (h : Slots b ring) (hr : ring i = [p])
    (hl : b.priceLevels i = some l) (hb : b.removeOrder p = .ok b') :
    ¬ b'.priceLevelsPool.Live l := by
  have hp : p ∈ ring i := hr ▸ List.mem_singleton_self p
  obtain ⟨m, hm, ⟨-, hb'⟩ | ⟨q, hq, n, -, hqp, -⟩⟩ := removeOrder_cases h hp
  · obtain rfl : m = l := Option.some_inj.1 (hm.symm.trans hl)
    obtain rfl := Except.ok.inj (hb.symm.trans hb')
    exact fun hlive => ((MemPool.live_release b.priceLevelsPool m m).1 hlive).1 rfl
  · rw [hr] at hq
    exact absurd (List.mem_singleton.1 hq) hqp

theorem removeOrder_tickerId (h : Slots b ring) (hp : p ∈ ring i)
    (hb : b.removeOrder p = .ok b') : b'.tickerId = b.tickerId := by
  obtain ⟨l, -, ⟨-, hb'⟩ | ⟨q, -, n, -, -, -, -, hb'⟩⟩ := removeOrder_cases h hp
  · obtain rfl := Except.ok.inj (hb.symm.trans hb')
    rfl
  · obtain rfl := Except.ok.inj (hb.symm.trans hb')
    show (b.withoutOrder p q n l).tickerId = b.tickerId
    rw [withoutOrder]
    split <;> rfl

/-! ## One order fewer -/

/-- A queue that is not left empty stays at its level. -/
theorem Slots.holds_removed (h : Slots b ring) (hp : p ∈ ring i) (hk : LevelsKept b b')
    (hs : Slots b' (Function.update ring i ((ring i).erase p))) {j : Nat}
    (hh : Holds b j l orders) (hne : orders ≠ [p]) : Holds b' j l (orders.erase p) := by
  obtain ⟨hl, rfl⟩ := h.holds_iff.1 hh
  have hne' : (ring j).erase p ≠ [] := fun he => (List.erase_eq_nil_iff.1 he).elim hh.ne_nil hne
  have hring := h.update_erase hp j
  obtain ⟨a, t, hr⟩ := List.exists_cons_of_ne_nil hne'
  obtain ⟨m, hm, -⟩ := hs.slotCons j a t (hring.trans hr)
  obtain rfl : m = l := Option.some_inj.1 ((hk.slot j m hm).symm.trans hl)
  exact hs.holds_iff.2 ⟨hm, hring⟩

/-- **Removing takes out one order.** -/
theorem Slots.oneLess (h : Slots b ring) (hp : p ∈ ring i)
    (hids : (b.data p).clientId = clientId ∧ (b.data p).clientOrderId = clientOrderId)
    (hb : b.removeOrder p = .ok b') : OneLess b b' clientId clientOrderId p := by
  obtain ⟨c, hc, hr, hs⟩ := removeOrder_slots h hp
  obtain rfl : c = b' := Except.ok.inj (hc.symm.trans hb)
  have hk := removeOrder_levels h hp hb
  have hqueue : ∀ j m orders, Holds b j m orders → orders ≠ [p] → Holds c j m (orders.erase p) :=
    fun j m orders hh hne => h.holds_removed hp hk hs hh hne
  refine { live := ⟨h.live_of_mem hp, hr.live⟩, held := ?_, level := ?_, queue := hqueue,
           slot := ?_, fields := hk.fields, data := hr.data, table := ⟨?_, ?_⟩, book := ?_ }
  · intro q hq
    obtain ⟨j, hj⟩ := (h.live q).1 hq
    obtain ⟨m, hm⟩ := h.holds_of_mem hj
    exact ⟨j, m, _, hm, hj⟩
  · intro j m orders hh
    by_cases hone : orders = [p]
    · subst hone
      obtain ⟨hm, hrj⟩ := h.holds_iff.1 hh
      refine ⟨iff_of_true (hs.slotNil j ?_) rfl, iff_of_true ?_ rfl⟩
      · rw [h.update_erase hp, hrj, List.erase_cons_head]
      · exact removeOrder_level_freed h hrj hm hb
    · have hh' := hqueue j m orders hh hone
      obtain ⟨-, -, -, hlive, -⟩ := hs.level_of_slot hh'.slot
      refine ⟨iff_of_false ?_ hone, iff_of_false (not_not.2 hlive) hone⟩
      rw [hh'.slot]
      exact Option.some_ne_none m
  · intro j hj
    cases hm : c.priceLevels j with
    | none => rfl
    | some m => rw [hk.slot j m hm] at hj; exact absurd hj (by simp)
  · rw [hr.clientOrders, if_pos ⟨hids.1.symm, hids.2.symm⟩]
  · intro k o hne
    rw [hr.clientOrders, hids.1, hids.2, if_neg hne]
  · exact ⟨removeOrder_tickerId h hp hb, hs.bidHead.trans h.bidHead.symm,
      hs.askHead.trans h.askHead.symm, hr.marketOrderId⟩

/-! ## Cancelling -/

theorem cancel_miss (hfits : b.CopyFits) (hc : clientId.toNat < meMaxNumClients)
    (ho : clientOrderId.toNat < meMaxOrderIds) (hp : b.clientOrders clientId clientOrderId = none)
    (tickerId : TickerId) : b.cancel clientId clientOrderId tickerId =
      .ok (b, cancelRejectedMessages clientId clientOrderId tickerId) := by
  have hn : ({ requestType := .cancel, clientId, orderId := clientOrderId, tickerId } :
    MEClientRequest).requestType = .cancel := rfl
  exact process_cancel_miss hfits hn hc ho hp

theorem Slots.cancel_hit (h : Slots b ring) (hfits : b.CopyFits)
    (hp : b.clientOrders clientId clientOrderId = some p) (tickerId : TickerId) :
    ∃ b', b.cancel clientId clientOrderId tickerId =
        .ok (b', canceledMessages clientId clientOrderId tickerId (b.data p)) ∧
      b'.CopyFits ∧ OneLess b b' clientId clientOrderId p := by
  have hn : ({ requestType := .cancel, clientId, orderId := clientOrderId, tickerId } :
    MEClientRequest).requestType = .cancel := rfl
  obtain ⟨i, b', hi, hb, -⟩ := process_cancel_hit h hfits hn hp
  obtain ⟨-, hids⟩ := h.table _ _ _ hp
  have hlt := h.idsLt i p hi
  rw [hids.1, hids.2] at hlt
  have hroom : b'.stackRoom = b.stackRoom := stackRoom_of_process h hb
  have hfits' : b'.CopyFits := by rwa [CopyFits, hroom]
  exact ⟨b', hb, hfits', h.oneLess hi hids (removeOrder_of_process hn hlt hp hb)⟩

/-- **Cancel takes out one order and nothing else**: the order of the entry if there is one, and
otherwise the request is rejected and the book is as it was.  Either way a second cancel is
rejected. -/
def CancelsOne (b : MEOrderBook) (clientId : ClientId) (clientOrderId : OrderId)
    (tickerId : TickerId) : Prop :=
  (∀ p, b.clientOrders clientId clientOrderId = some p →
    ∃ b', b.cancel clientId clientOrderId tickerId =
        .ok (b', canceledMessages clientId clientOrderId tickerId (b.data p)) ∧
      OneLess b b' clientId clientOrderId p) ∧
  (b.clientOrders clientId clientOrderId = none →
    b.cancel clientId clientOrderId tickerId =
      .ok (b, cancelRejectedMessages clientId clientOrderId tickerId)) ∧
  ∃ b' first, b.cancel clientId clientOrderId tickerId = .ok (b', first) ∧
    ∀ again, b'.cancel clientId clientOrderId again =
      .ok (b', cancelRejectedMessages clientId clientOrderId again)

/-- A book of rings does so where the copy fits. -/
theorem Slots.cancelsOne (h : Slots b ring) (hfits : b.CopyFits)
    (hc : clientId.toNat < meMaxNumClients) (ho : clientOrderId.toNat < meMaxOrderIds)
    (tickerId : TickerId) : b.CancelsOne clientId clientOrderId tickerId := by
  refine ⟨fun p hp => ?_, fun hp => cancel_miss hfits hc ho hp tickerId, ?_⟩
  · obtain ⟨b', hb', -, hone⟩ := h.cancel_hit hfits hp tickerId
    exact ⟨b', hb', hone⟩
  cases hp : b.clientOrders clientId clientOrderId with
  | none => exact ⟨b, _, cancel_miss hfits hc ho hp tickerId, cancel_miss hfits hc ho hp⟩
  | some p =>
    obtain ⟨b', hb', hfits', hone⟩ := h.cancel_hit hfits hp tickerId
    exact ⟨b', _, hb', cancel_miss hfits' hc ho hone.table.1⟩

/-- A cancel that returns had room for the copy. -/
theorem CancelsOne.copyFits (h : b.CancelsOne clientId clientOrderId tickerId)
    (hc : clientId.toNat < meMaxNumClients) : b.CopyFits := by
  obtain ⟨-, -, b', first, hb', -⟩ := h
  have hn : ({ requestType := .cancel, clientId, orderId := clientOrderId, tickerId } :
    MEClientRequest).requestType = .cancel := rfl
  exact process_cancel_fits hn hc hb'

theorem copyFits_of_processAll {t : TickerId} {stackRoom : Nat} {reqs : List MEClientRequest}
    {sent : List Sent} (hrun : ((init t).onStack stackRoom).processAll reqs = .ok (b, sent)) :
    b.CopyFits ↔ orderHashMapSize ≤ stackRoom := by
  rw [CopyFits, (((slots_init t).onStack stackRoom).of_processAll hrun).2]
  rfl

/-- Every book that requests build cancels so on a stack with room. -/
theorem cancel_oneLess (t : TickerId) (stackRoom : Nat) (reqs : List MEClientRequest)
    {sent : List Sent} (hrun : ((init t).onStack stackRoom).processAll reqs = .ok (b, sent))
    (hfits : orderHashMapSize ≤ stackRoom) (hc : clientId.toNat < meMaxNumClients)
    (ho : clientOrderId.toNat < meMaxOrderIds) (tickerId : TickerId) :
    b.CancelsOne clientId clientOrderId tickerId := by
  obtain ⟨⟨ring, h⟩, -⟩ := ((slots_init t).onStack stackRoom).of_processAll hrun
  exact h.cancelsOne ((copyFits_of_processAll hrun).2 hfits) hc ho tickerId

/-- **Cancel takes out one order and nothing else**, in every book that requests build, exactly when
the stack of the calling thread has room for the client's row of `client_orders_`. -/
theorem cancelsOne_iff (t : TickerId) (stackRoom : Nat) (reqs : List MEClientRequest)
    {sent : List Sent} (hrun : ((init t).onStack stackRoom).processAll reqs = .ok (b, sent))
    (hc : clientId.toNat < meMaxNumClients) (ho : clientOrderId.toNat < meMaxOrderIds)
    (tickerId : TickerId) :
    b.CancelsOne clientId clientOrderId tickerId ↔ orderHashMapSize ≤ stackRoom :=
  ⟨fun hone => (copyFits_of_processAll hrun).1 (hone.copyFits hc),
    fun hfits => cancel_oneLess t stackRoom reqs hrun hfits hc ho tickerId⟩

/-- Two orders of one level, and one of another client. -/
def threeBids : List MEClientRequest :=
  [buyFive, { buyFive with orderId := 6 }, { buyFive with clientId := 2, price := 101 }]

theorem cancelsOne_threeBids : ∃ b sent,
    ((init 0).onStack orderHashMapSize).processAll threeBids = .ok (b, sent) ∧
    ∃ b', b.cancel 1 5 0 = .ok (b', canceledMessages 1 5 0 (b.data 0)) ∧ OneLess b b' 1 5 0 := by
  have hrun : ∃ b sent, ((init 0).onStack orderHashMapSize).processAll threeBids = .ok (b, sent) ∧
    b.clientOrders 1 5 = some 0 := ⟨_, _, rfl, rfl⟩
  obtain ⟨b, sent, hrun, hp⟩ := hrun
  have hone : b.CancelsOne 1 5 0 :=
    (cancelsOne_iff 0 orderHashMapSize threeBids hrun (by decide) (by decide) 0).2 le_rfl
  exact ⟨b, sent, hrun, hone.1 0 hp⟩

/-- On a thread that has used a byte of the stack it got by default, the order rests and its cancel
does not return. -/
theorem not_cancelsOne_default : ¬ ∀ (reqs : List MEClientRequest) (b : MEOrderBook)
    (sent : List Sent), ((init 0).onStack (defaultStackSize - 1)).processAll reqs = .ok (b, sent) →
    ∀ (clientId : ClientId) (clientOrderId : OrderId), clientId.toNat < meMaxNumClients →
      clientOrderId.toNat < meMaxOrderIds → b.CancelsOne clientId clientOrderId 0 := by
  intro h
  let buySeven : MEClientRequest := { buyFive with orderId := 7, qty := 5 }
  have hrun : ∃ b sent, ((init 0).onStack (defaultStackSize - 1)).processAll [buySeven] =
    .ok (b, sent) := ⟨_, _, rfl⟩
  obtain ⟨b, sent, hrun⟩ := hrun
  have hone := h [buySeven] b sent hrun 1 7 (by decide) (by decide)
  exact absurd ((cancelsOne_iff 0 _ [buySeven] hrun (by decide) (by decide) 0).1 hone) (by decide)

end MEOrderBook
end Exchange
end TradingEcosystem
