import TradingEcosystem.Exchange.EngineQueues
import TradingEcosystem.Exchange.OrderBalance
import TradingEcosystem.Trading.OrderLog

/-!
# From the exchange's book to the client's

The updates of a book of the exchange, one after the other, at a client's book that is there from
the start.  On either side the rings of the source are already a list: the table of orders here, the
log of orders there.  `Follows` is what the two lists have in common after every request.

A client's pools last as long as those of the exchange do.  What it holds goes out of date with the
first cancellation: `client_shows` says that the client's book has the exchange's orders, in their
order, and exactly these as long as nothing was cancelled.
-/

set_option autoImplicit false

namespace TradingEcosystem
namespace FeedToClient

open Exchange Trading

/-- An order of the exchange as a client's book has it. -/
def shown (d : OrderData) : MarketOrderData := ⟨d.marketOrderId, d.side, d.price, d.qty, d.priority⟩

/-- **The table and the log** of its updates. -/
structure Follows (t : OrderTable) (sent : List Sent) (l : OrderLog) : Prop where
  run : OrderLog.onMarketUpdates [] (marketUpdates sent) = .ok l
  orders : (t.entries.map fun e => shown e.order).Sublist l
  ordersTaken : l.length = t.ordersTaken
  levelsTaken : l.slotsUsed.card ≤ t.levelsTaken

theorem follows_empty : Follows {} [] [] where
  run := rfl
  orders := .slnil
  ordersTaken := rfl
  levelsTaken := Nat.le_refl 0

variable {t t' : OrderTable} {sent sent' : List Sent} {l l' : OrderLog}

theorem Follows.onMarketUpdates (h : Follows t sent l)
    (hl : l.onMarketUpdates (marketUpdates sent') = .ok l') :
    OrderLog.onMarketUpdates [] (marketUpdates (sent ++ sent')) = .ok l' := by
  have hrun := h.run
  rw [OrderLog.onMarketUpdates] at hrun ⊢
  rw [marketUpdates_append, List.foldlM_append, hrun]
  exact hl

/-- No order of the exchange is in a slot the client has not used. -/
theorem Follows.sharing_nil (h : Follows t sent l) {price : Price}
    (hp : MarketOrderBook.priceToIndex price ∉ l.slotsUsed) : t.sharing price = [] := by
  rw [OrderTable.sharing, List.filter_eq_nil_iff]
  intro e he hin
  refine hp (OrderLog.mem_slotsUsed.2 ⟨shown e.order, h.orders.subset ?_, ?_⟩)
  · exact List.mem_map_of_mem he
  · rw [Entry.inSlot, decide_eq_true_iff] at hin
    exact hin

/-- **The client has room** where the exchange has. -/
theorem Follows.hasRoom (h : Follows t sent l) {price : Price} (hroom : t.HasRoom price) :
    l.HasRoom price := by
  refine ⟨h.ordersTaken ▸ hroom.1, fun hp => ?_⟩
  have hlevel := hroom.2 (h.sharing_nil hp)
  have hle := h.levelsTaken
  omega

/-- An order rests at the exchange and joins the log. -/
theorem Follows.insert (h : Follows t sent l) {d : OrderData} (hroom : t.HasRoom d.price)
    (hupdates : marketUpdates sent' = [MEOrderBook.addUpdate d]) :
    Follows (t.insert d) (sent ++ sent') (l ++ [shown d]) where
  run := by
    refine h.onMarketUpdates ?_
    have hstep : l.onMarketUpdate (MEOrderBook.addUpdate d) = .ok (l ++ [shown d]) := by
      rw [OrderLog.onMarketUpdate]
      exact if_pos (h.hasRoom hroom)
    rw [hupdates, OrderLog.onMarketUpdates, List.foldlM_cons, hstep]
    rfl
  orders := by
    rw [OrderTable.insert]
    dsimp only
    rw [List.map_append, List.map_singleton]
    exact h.orders.append (List.Sublist.refl _)
  ordersTaken := by
    rw [List.length_append, h.ordersTaken]
    rfl
  levelsTaken := by
    have hle := h.levelsTaken
    rw [OrderLog.card_slotsUsed_concat, OrderTable.insert]
    dsimp only
    by_cases hp : MarketOrderBook.priceToIndex (shown d).price ∈ l.slotsUsed
    · rw [if_neg (not_not.2 hp)]
      omega
    · have hnil : t.sharing d.price = [] := h.sharing_nil hp
      rw [if_pos hp, if_pos hnil]
      omega

/-- An order leaves the exchange, and the client is told with an id it may look up. -/
theorem Follows.remove (h : Follows t sent l) (e : Entry) {u : MEMarketUpdate}
    (hupdates : marketUpdates sent' = [u]) (hu : u.type = .cancel)
    (hid : u.orderId.toNat < meMaxOrderIds) : Follows (t.remove e) (sent ++ sent') l where
  run := by
    refine h.onMarketUpdates ?_
    have hstep : l.onMarketUpdate u = .ok l := by
      rw [OrderLog.onMarketUpdate, hu]
      exact if_pos hid
    rw [hupdates, OrderLog.onMarketUpdates, List.foldlM_cons, hstep]
    rfl
  orders := (List.filter_sublist.map _).trans h.orders
  ordersTaken := h.ordersTaken
  levelsTaken := h.levelsTaken

/-- Messages without an update, at a table with the same orders. -/
theorem Follows.quiet (h : Follows t sent l) (hupdates : marketUpdates sent' = [])
    (horders : t'.entries = t.entries) (htaken : t'.ordersTaken = t.ordersTaken)
    (hlevels : t'.levelsTaken = t.levelsTaken) : Follows t' (sent ++ sent') l where
  run := h.onMarketUpdates (by rw [hupdates]; rfl)
  orders := horders ▸ h.orders
  ordersTaken := htaken ▸ h.ordersTaken
  levelsTaken := hlevels ▸ h.levelsTaken

/-- **One request.** -/
theorem Follows.process (h : Follows t sent l) {req : MEClientRequest}
    (hp : t.process req = .ok (t', sent')) : ∃ l', Follows t' (sent ++ sent') l' := by
  cases OrderTable.took_of_eq_ok hp with
  | empty => exact ⟨l, h.quiet rfl rfl rfl rfl⟩
  | rested hroom =>
    have hcount : Follows t.count sent l := ⟨h.run, h.orders, h.ordersTaken, h.levelsTaken⟩
    exact ⟨_, hcount.insert (d := t.newOrder req) hroom rfl⟩
  | dropped => exact ⟨l, h.quiet rfl rfl rfl rfl⟩
  | missed => exact ⟨l, h.quiet rfl rfl rfl rfl⟩
  | removed hid he => exact ⟨l, h.remove _ rfl rfl hid⟩

theorem follows_of_processAll {reqs : List MEClientRequest}
    (h : OrderTable.processAll {} reqs = .ok (t, sent)) : ∃ l, Follows t sent l := by
  refine Run.inv_of_foldlM (fun x : OrderTable × List Sent => ∃ l, Follows x.1 x.2 l) ?_
    ⟨[], follows_empty⟩ h
  rintro x req y ⟨l, hx⟩ hy
  obtain ⟨more, hmore, hsent⟩ := OrderTable.processAfter_eq_ok.1 hy
  rw [hsent]
  exact hx.process hmore

/-! ## The two books -/

/-- **What a client's book shows** of a book of the exchange, from the rings of both: in every slot
the orders that rest are among those that are shown, in the same order, and nothing else is shown
exactly when no order was cancelled. -/
structure Shows (b : MEOrderBook) (ring : Nat → List Ptr) (sent : List Sent) (c : MarketOrderBook)
    (shownRing : Nat → List Ptr) : Prop where
  exchange : MEOrderBook.Slots b ring
  client : MarketOrderBook.Filled c shownRing
  orders : ∀ i, ((b.ordersIn ring i).map shown).Sublist ((shownRing i).map c.data)
  current : (∀ i, (b.ordersIn ring i).map shown = (shownRing i).map c.data) ↔
    canceledTerms sent = []

/-- The orders of a slot, as the client has them. -/
theorem map_shown_ordersIn {b : MEOrderBook} {ring : Nat → List Ptr}
    (h : MEOrderBook.Tabulates b ring t) (i : Nat) : (b.ordersIn ring i).map shown =
      (t.entries.map fun e => shown e.order).filter (MarketOrderData.inSlot i) := by
  have hslot : b.ordersIn ring i = (t.entries.filter (Entry.inSlot i)).map Entry.order := by
    rw [← h.entries, List.map_map]
    rfl
  rw [hslot, List.map_map, List.filter_map]
  rfl

/-- Logs with the same orders in every slot are of the same length. -/
theorem length_eq_of_slots {l l' : OrderLog}
    (h : ∀ i, l.filter (MarketOrderData.inSlot i) = l'.filter (MarketOrderData.inSlot i)) :
    l.length = l'.length := by
  refine (List.perm_iff_count.2 fun d => ?_).length_eq
  have hd : MarketOrderData.inSlot (MarketOrderBook.priceToIndex d.price) d = true := by
    rw [MarketOrderData.inSlot, decide_eq_true_iff]
  rw [← List.count_filter hd, h, List.count_filter hd]

/-- **The client's book shows the exchange's.**  Whatever requests the exchange takes, as long as
its book does not stop on them, the client's book takes all its updates. -/
theorem client_shows {ticker : TickerId} {reqs : List MEClientRequest} {b : MEOrderBook}
    (h : (MEOrderBook.init ticker).processAll reqs = .ok (b, sent)) :
    ∃ ring c shownRing, MarketOrderBook.init.onMarketUpdates (marketUpdates sent) = .ok c ∧
      Shows b ring sent c shownRing := by
  obtain ⟨⟨t, sent'⟩, ht, hsent, ring, htab⟩ :=
    ((MEOrderBook.tabulates_init ticker orderHashMapSize).processAll reqs).of_ok h
  obtain rfl : sent = sent' := hsent
  obtain ⟨l, hl⟩ := follows_of_processAll ht
  obtain ⟨hbal, -⟩ := OrderTable.balanced_of_processAll ht
  obtain ⟨c, hc, shownRing, hlogs⟩ :=
    (MarketOrderBook.logs_init.onMarketUpdates (marketUpdates sent)).to_ok hl.run
  refine ⟨ring, c, shownRing, hc, htab.slots, hlogs.filled, fun i => ?_, ?_⟩
  · rw [map_shown_ordersIn htab, hlogs.orders]
    exact hl.orders.filter _
  · simp only [map_shown_ordersIn htab, hlogs.orders]
    -- an order was added for each in the log, and is gone for each cancellation
    have haccount := hbal.account.length_eq
    rw [hbal.taken, ← hl.ordersTaken, List.length_append, List.length_map] at haccount
    constructor
    · intro hslots
      have hlength := length_eq_of_slots hslots
      rw [List.length_map] at hlength
      exact List.eq_nil_of_length_eq_zero (by omega)
    · intro hnone i
      rw [hnone, List.length_nil] at haccount
      rw [hl.orders.eq_of_length (by rw [List.length_map]; omega)]

end FeedToClient
end TradingEcosystem
