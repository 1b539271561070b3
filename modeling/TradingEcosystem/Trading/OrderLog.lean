import TradingEcosystem.Trading.AddedOrders
import TradingEcosystem.Lib.TwoRuns

/-!
# The client's book is a log

What the client's book does on every feed, without a pointer in it.  An `ADD` puts its order last in
its slot and no other update ever touches an order again, so a book is the list of all orders that
were added, seen slot by slot.  `OrderLog.onMarketUpdate` is that machine: it stops where the source
stops, at an id past the table, at the null entry a `MODIFY` follows and where a pool runs out.

`Logs` is how a book of rings stands for a log; `refines_orderLog` is the whole feed.
-/

set_option autoImplicit false

namespace TradingEcosystem
namespace Trading

open TwoRuns MarketOrderBook

/-- The order has a price in slot `i`. -/
def MarketOrderData.inSlot (i : Nat) (d : MarketOrderData) : Bool := priceToIndex d.price = i

/-- **All orders that were added**, oldest first. -/
abbrev OrderLog := List MarketOrderData

namespace OrderLog

/-- The slots that have a level. -/
def slotsUsed (l : OrderLog) : Finset Nat := (l.map fun d => priceToIndex d.price).toFinset

/-- The pools have a block for an order at this price, and one to spare. -/
def HasRoom (l : OrderLog) (price : Price) : Prop :=
  l.length + 1 < meMaxOrderIds ∧
    (priceToIndex price ∉ l.slotsUsed → l.slotsUsed.card + 1 < meMaxPriceLevels)

instance (l : OrderLog) (price : Price) : Decidable (l.HasRoom price) :=
  inferInstanceAs (Decidable (_ ∧ _))

/-- One update. -/
def onMarketUpdate (l : OrderLog) (u : MEMarketUpdate) : Except Fault OrderLog :=
  match u.type with
  | .add => if l.HasRoom u.price then .ok (l ++ [dataOf u]) else .error .badIndex
  | .modify => if u.orderId.toNat < meMaxOrderIds then .error .nullDeref else .error .outOfRange
  | .cancel => if u.orderId.toNat < meMaxOrderIds then .ok l else .error .outOfRange
  | _ => .ok l

/-- A list of updates. -/
def onMarketUpdates (l : OrderLog) (updates : List MEMarketUpdate) : Except Fault OrderLog :=
  updates.foldlM onMarketUpdate l

theorem mem_slotsUsed {l : OrderLog} {i : Nat} :
    i ∈ l.slotsUsed ↔ ∃ d ∈ l, priceToIndex d.price = i := by
  rw [slotsUsed, List.mem_toFinset, List.mem_map]

theorem filter_inSlot_eq_nil {l : OrderLog} {i : Nat} :
    l.filter (MarketOrderData.inSlot i) = [] ↔ i ∉ l.slotsUsed := by
  rw [List.filter_eq_nil_iff, mem_slotsUsed]
  simp [MarketOrderData.inSlot]

theorem slotsUsed_concat (l : OrderLog) (d : MarketOrderData) :
    slotsUsed (l ++ [d]) = insert (priceToIndex d.price) l.slotsUsed := by
  rw [slotsUsed, List.map_append, List.toFinset_append, List.map_singleton, List.toFinset_cons,
    List.toFinset_nil, Finset.union_insert, Finset.union_empty]
  rfl

/-- A level is made for a slot that has none. -/
theorem card_slotsUsed_concat (l : OrderLog) (d : MarketOrderData) :
    (slotsUsed (l ++ [d])).card =
      l.slotsUsed.card + if priceToIndex d.price ∉ l.slotsUsed then 1 else 0 := by
  rw [slotsUsed_concat]
  by_cases hd : priceToIndex d.price ∈ l.slotsUsed
  · rw [Finset.insert_eq_of_mem hd, if_neg (not_not.2 hd), Nat.add_zero]
  · rw [Finset.card_insert_of_notMem hd, if_pos hd]

end OrderLog

namespace MarketOrderBook

/-- **The book holds the log**: the ring of slot `i` is the orders with a price in the slot. -/
structure Logs (b : MarketOrderBook) (ring : Nat → List Ptr) (l : OrderLog) : Prop where
  filled : Filled b ring
  orders : ∀ i, (ring i).map b.data = l.filter (MarketOrderData.inSlot i)
  orderNext : b.orderPool.nextFreeIndex = l.length
  levelNext : b.priceLevelPool.nextFreeIndex = l.slotsUsed.card
  orderSize : b.orderPool.size = meMaxOrderIds
  levelSize : b.priceLevelPool.size = meMaxPriceLevels

theorem logs_init : Logs init (fun _ => []) [] where
  filled := filled_init
  orders := fun _ => rfl
  orderNext := rfl
  levelNext := rfl
  orderSize := rfl
  levelSize := rfl

variable {b b' : MarketOrderBook} {ring : Nat → List Ptr} {l : OrderLog} {u : MEMarketUpdate}

/-- A slot is null as long as nothing was added to it. -/
theorem Logs.getPriceLevel_none (h : Logs b ring l) (price : Price) :
    b.getPriceLevel price = none ↔ priceToIndex price ∉ l.slotsUsed := by
  rw [getPriceLevel, h.filled.slot_none_iff, ← OrderLog.filter_inSlot_eq_nil, ← h.orders,
    List.map_eq_nil_iff]

theorem Logs.hasRoom_iff (h : Logs b ring l) (price : Price) :
    b.HasRoom price ↔ l.HasRoom price := by
  rw [HasRoom, OrderLog.HasRoom, h.getPriceLevel_none, MemPool.Room, MemPool.Room, h.orderSize,
    h.levelSize, h.orderNext, h.levelNext]

/-- **An `ADD`** goes to the end of the log. -/
theorem Logs.add (h : Logs b ring l) (hadd : Added b b' (dataOf u))
    (hfilled : Filled b' (Function.update ring (priceToIndex u.price)
      (ring (priceToIndex u.price) ++ [b.nextOrderPtr]))) :
    Logs b' (Function.update ring (priceToIndex u.price)
      (ring (priceToIndex u.price) ++ [b.nextOrderPtr])) (l ++ [dataOf u]) where
  filled := hfilled
  orders := by
    intro i
    rw [List.filter_append]
    by_cases hi : i = priceToIndex u.price
    · subst hi
      have hin : MarketOrderData.inSlot (priceToIndex u.price) (dataOf u) = true := by
        simp [MarketOrderData.inSlot, dataOf]
      rw [Function.update_self, List.map_append, hadd.map_data h.filled, h.orders,
        List.map_singleton, hadd.data_next, List.filter_cons_of_pos hin, List.filter_nil]
    · have hout : ¬ MarketOrderData.inSlot i (dataOf u) = true := by
        rw [MarketOrderData.inSlot, decide_eq_true_iff]
        exact fun he => hi he.symm
      rw [Function.update_of_ne hi, hadd.map_data h.filled, h.orders,
        List.filter_cons_of_neg hout, List.filter_nil, List.append_nil]
  orderNext := by
    rw [hadd.orderNext, h.orderNext, List.length_append]
    rfl
  levelNext := by
    rw [hadd.levelNext, h.levelNext, OrderLog.card_slotsUsed_concat]
    simp only [h.getPriceLevel_none]
  orderSize := hadd.sizes.1.trans h.orderSize
  levelSize := hadd.sizes.2.trans h.levelSize

/-- **One update.** -/
theorem Logs.onMarketUpdate (h : Logs b ring l) (u : MEMarketUpdate) :
    Agree (fun b l => ∃ ring, Logs b ring l) (b.onMarketUpdate u) (l.onMarketUpdate u) := by
  rw [OrderLog.onMarketUpdate]
  by_cases hu : u.type = .add
  · simp only [hu]
    by_cases hroom : l.HasRoom u.price
    · obtain ⟨b', hb', hadd, hfilled⟩ := h.filled.add hu ((h.hasRoom_iff _).2 hroom)
      rw [if_pos hroom, hb']
      exact ⟨_, h.add hadd hfilled⟩
    · rw [if_neg hroom, h.filled.add_full hu fun hr => hroom ((h.hasRoom_iff _).1 hr)]
      exact rfl
  · rw [h.filled.other hu, orderIdCheck]
    cases htype : u.type with
    | add => exact absurd htype hu
    | modify => by_cases hid : u.orderId.toNat < meMaxOrderIds <;> simp [hid, Agree]
    | cancel =>
      by_cases hid : u.orderId.toNat < meMaxOrderIds
      · simpa [hid, Agree] using ⟨ring, h⟩
      · simp [hid, Agree]
    | _ => simpa [Agree] using ⟨ring, h⟩

/-- **A feed** at a book and at the log it holds. -/
theorem Logs.onMarketUpdates (h : Logs b ring l) (updates : List MEMarketUpdate) :
    Agree (fun b l => ∃ ring, Logs b ring l) (b.onMarketUpdates updates)
      (l.onMarketUpdates updates) :=
  Agree.foldlM (fun _ _ u ⟨_, h⟩ => h.onMarketUpdate u) ⟨ring, h⟩ updates

/-- **The client's book refines the log of orders.**  Every feed, valid or not, has the same outcome
for both: the same orders in every slot, oldest first, or the same fault. -/
theorem refines_orderLog (updates : List MEMarketUpdate) :
    Agree (fun b l => ∃ ring, Logs b ring l) (init.onMarketUpdates updates)
      (OrderLog.onMarketUpdates [] updates) :=
  logs_init.onMarketUpdates updates

end MarketOrderBook
end Trading
end TradingEcosystem
