import TradingEcosystem.Trading.AddedOrders

/-!
# Well-formed books

`WellFormed` is what the book is meant to be between two updates, whoever built it: the levels of a
side in a ladder from its head, the price table leading to exactly these levels and each of them to
the orders of its price, the table of ids to exactly these orders, and no block in use beside them.
How many levels and orders there are is left open, and so is the order of a ladder: what is said
about such books does not depend on it.
-/

set_option autoImplicit false

namespace TradingEcosystem
namespace Trading
namespace MarketOrderBook

open Ring

/-- **A well-formed book**: `bids` and `asks` are the two ladders, and slot `i` of the price table
holds the orders `ring i`. -/
structure WellFormed (b : MarketOrderBook) (bids asks : List Ptr) (ring : Nat → List Ptr) :
    Prop where
  bidLadder : b.LadderHolds b.bidPriceLevels bids
  askLadder : b.LadderHolds b.askPriceLevels asks
  bidSide : ∀ l ∈ bids, (b.level l).side = .buy
  askSide : ∀ l ∈ asks, (b.level l).side ≠ .buy
  /-- The price table leads to the levels of the ladders, each in the slot of its price. -/
  table : ∀ i l, b.ordersAtPriceLevels i = some l ↔
    (l ∈ bids ∨ l ∈ asks) ∧ priceToIndex (b.level l).price = i
  slots : ∀ i, b.SlotHolds i (ring i)
  /-- A level has orders of its side and price. -/
  ofLevel : ∀ i l, b.ordersAtPriceLevels i = some l → ∀ p ∈ ring i,
    (b.data p).side = (b.level l).side ∧ (b.data p).price = (b.level l).price
  /-- The table of ids leads to the orders of the slots, each under its id. -/
  ids : ∀ k p, b.orderIdToOrder k = some p ↔ (∃ i, p ∈ ring i) ∧ (b.data p).orderId = k
  idBound : ∀ k p, b.orderIdToOrder k = some p → k.toNat < meMaxOrderIds
  liveLevels : ∀ l, b.priceLevelPool.Live l ↔ l ∈ bids ∨ l ∈ asks
  liveOrders : ∀ p, b.orderPool.Live p ↔ ∃ i, p ∈ ring i
  levelFrontier : b.priceLevelPool.Frontier
  orderFrontier : b.orderPool.Frontier
  sizes : b.priceLevelPool.size = meMaxPriceLevels ∧ b.orderPool.size = meMaxOrderIds
  bounds : b.priceLevelPool.nextFreeIndex ≤ meMaxPriceLevels ∧
    b.orderPool.nextFreeIndex ≤ meMaxOrderIds

/-- An update makes sense for the book: what is added has a new id below the size of the table, what
is changed or taken out is there. -/
def Accepts (b : MarketOrderBook) (u : MEMarketUpdate) : Prop :=
  (u.type = .add ∧ b.orderIdToOrder u.orderId = none ∧ u.orderId.toNat < meMaxOrderIds) ∨
    ((u.type = .modify ∨ u.type = .cancel) ∧ b.orderIdToOrder u.orderId ≠ none) ∨
      u.type = .trade ∨ u.type = .clear

variable {b c : MarketOrderBook} {bids asks levels : List Ptr} {ring : Nat → List Ptr}
  {head : Option Ptr}

/-- A ladder depends only on its own levels. -/
theorem LadderHolds.congr (h : b.LadderHolds head levels)
    (hc : ∀ l ∈ levels, c.level l = b.level l) : c.LadderHolds head levels :=
  ⟨h.1, h.2.congr (fun l hl => by rw [hc l hl]) fun l hl => by rw [hc l hl]⟩

/-- The links of a level lead to levels. -/
theorem LadderHolds.links (h : b.LadderHolds head levels) {l : Ptr} (hl : l ∈ levels) :
    ∃ n ∈ levels, ∃ p ∈ levels, (b.level l).nextLevel = some n ∧ (b.level l).prevLevel = some p := by
  obtain ⟨p, hp, n, hn, hprev, hnext⟩ := h.2.links_mem hl
  exact ⟨n, hn, p, hp, hnext, hprev⟩

namespace WellFormed

variable (h : WellFormed b bids asks ring)
include h

theorem level_lt {l : Ptr} (hl : l ∈ bids ∨ l ∈ asks) : l < b.priceLevelPool.size :=
  Nat.lt_of_lt_of_le (h.levelFrontier.lt_of_live ((h.liveLevels l).2 hl))
    (h.sizes.1 ▸ h.bounds.1)

theorem order_lt {p : Ptr} (hp : b.orderPool.Live p) : p < b.orderPool.size :=
  Nat.lt_of_lt_of_le (h.orderFrontier.lt_of_live hp) (h.sizes.2 ▸ h.bounds.2)

/-- A ladder is empty when its head is null. -/
theorem bids_eq_nil_iff : bids = [] ↔ b.bidPriceLevels = none := by
  rw [← h.bidLadder.1, List.head?_eq_none_iff]

theorem asks_eq_nil_iff : asks = [] ↔ b.askPriceLevels = none := by
  rw [← h.askLadder.1, List.head?_eq_none_iff]

/-- Every order is in the table of ids. -/
theorem id_of_mem {i : Nat} {p : Ptr} (hp : p ∈ ring i) :
    b.orderIdToOrder (b.data p).orderId = some p :=
  (h.ids _ p).2 ⟨⟨i, hp⟩, rfl⟩

/-- The level of a slot that is not null enters its orders. -/
theorem exists_first {i : Nat} {l : Ptr} (hl : b.ordersAtPriceLevels i = some l) :
    ∃ a ∈ ring i, (b.level l).firstOrder = some a ∧ ∃ z, b.prevOrder a = some z := by
  have hslot := h.slots i
  rw [SlotHolds, hl] at hslot
  obtain ⟨hne, hhead, hring⟩ := hslot
  cases hr : ring i with
  | nil => exact absurd hr hne
  | cons a t =>
    rw [hr] at hhead hring
    exact ⟨a, List.mem_cons_self, hhead.symm, _, hring.prev_head⟩

end WellFormed

/-! ## The smallest ones -/

theorem wellFormed_init : WellFormed init [] [] fun _ => [] where
  bidLadder := ⟨rfl, List.nodup_nil, Cycle.Chain.nil _⟩
  askLadder := ⟨rfl, List.nodup_nil, Cycle.Chain.nil _⟩
  bidSide := by simp
  askSide := by simp
  table := by simp [init]
  slots := fun _ => rfl
  ofLevel := by simp
  ids := by simp [init]
  idBound := by simp [init]
  liveLevels := by simp [init, MemPool.not_live_init]
  liveOrders := by simp [init, MemPool.not_live_init]
  levelFrontier := MemPool.frontier_init _ _
  orderFrontier := MemPool.frontier_init _ _
  sizes := ⟨rfl, rfl⟩
  bounds := ⟨Nat.zero_le _, Nat.zero_le _⟩

/-- One `SELL` order, which is the whole book. -/
def oneAsk (order : MarketOrderData) : MarketOrderBook :=
  { init with
    orderIdToOrder := Function.update (fun _ => none) order.orderId (some 0)
    priceLevelPool := init.priceLevelPool.push
      { totalQty := order.qty, ordersCount := 1, side := order.side, price := order.price,
        firstOrder := some 0, prevLevel := some 0, nextLevel := some 0 }
    askPriceLevels := some 0
    ordersAtPriceLevels := Function.update (fun _ => none) (priceToIndex order.price) (some 0)
    orderPool := init.orderPool.push
      { toMarketOrderData := order, nextOrder := some 0, prevOrder := some 0 } }

/-- The orders of its slots. -/
def oneRing (price : Price) (i : Nat) : List Ptr := if i = priceToIndex price then [0] else []

theorem mem_oneRing {price : Price} {i : Nat} {p : Ptr} :
    p ∈ oneRing price i ↔ i = priceToIndex price ∧ p = 0 := by
  by_cases hi : i = priceToIndex price <;> simp [oneRing, hi]

section OneAsk

variable (order : MarketOrderData)

@[simp] theorem level_oneAsk : (oneAsk order).level 0 =
    { totalQty := order.qty, ordersCount := 1, side := order.side, price := order.price,
      firstOrder := some 0, prevLevel := some 0, nextLevel := some 0 } := rfl

@[simp] theorem order_oneAsk : (oneAsk order).order 0 =
    { toMarketOrderData := order, nextOrder := some 0, prevOrder := some 0 } := rfl

theorem slot_oneAsk (i : Nat) : (oneAsk order).ordersAtPriceLevels i =
    if i = priceToIndex order.price then some 0 else none := by
  simp only [oneAsk, Function.update_apply]

theorem entry_oneAsk (k : OrderId) : (oneAsk order).orderIdToOrder k =
    if k = order.orderId then some 0 else none := by
  simp only [oneAsk, Function.update_apply]

theorem wellFormed_oneAsk (hside : order.side ≠ .buy) (hid : order.orderId.toNat < meMaxOrderIds) :
    WellFormed (oneAsk order) [] [0] (oneRing order.price) where
  bidLadder := ⟨rfl, List.nodup_nil, Cycle.Chain.nil _⟩
  askLadder := ⟨rfl, isRing_singleton.2 ⟨rfl, rfl⟩⟩
  bidSide := by simp
  askSide := by simpa using hside
  table := fun i l => by
    rw [slot_oneAsk, Option.ite_none_right_eq_some, Option.some_inj]
    constructor
    · rintro ⟨rfl, rfl⟩
      simp
    · rintro ⟨hl, rfl⟩
      obtain rfl : l = 0 := by simpa using hl
      simp
  slots := fun i => by
    rw [SlotHolds, slot_oneAsk]
    by_cases hi : i = priceToIndex order.price
    · rw [if_pos hi, oneRing, if_pos hi]
      exact ⟨by simp, by simp, isRing_singleton.2 ⟨rfl, rfl⟩⟩
    · rw [if_neg hi, oneRing, if_neg hi]
  ofLevel := fun i l hl p hp => by
    rw [slot_oneAsk, Option.ite_none_right_eq_some, Option.some_inj] at hl
    obtain ⟨rfl, rfl⟩ := hl
    obtain ⟨-, rfl⟩ := mem_oneRing.1 hp
    exact ⟨rfl, rfl⟩
  ids := fun k p => by
    rw [entry_oneAsk, Option.ite_none_right_eq_some, Option.some_inj]
    constructor
    · rintro ⟨rfl, rfl⟩
      exact ⟨⟨_, mem_oneRing.2 ⟨rfl, rfl⟩⟩, rfl⟩
    · rintro ⟨⟨i, hp⟩, rfl⟩
      obtain ⟨-, rfl⟩ := mem_oneRing.1 hp
      exact ⟨rfl, rfl⟩
  idBound := fun k p hp => by
    rw [entry_oneAsk, Option.ite_none_right_eq_some] at hp
    exact hp.1 ▸ hid
  liveLevels := by simp [oneAsk, init, MemPool.not_live_init]
  liveOrders := by simp [oneAsk, mem_oneRing, init, MemPool.not_live_init]
  levelFrontier := (MemPool.frontier_init _ _).push _
  orderFrontier := (MemPool.frontier_init _ _).push _
  sizes := ⟨rfl, rfl⟩
  bounds := ⟨(by decide : 1 ≤ meMaxPriceLevels), (by decide : 1 ≤ meMaxOrderIds)⟩

end OneAsk

end MarketOrderBook
end Trading
end TradingEcosystem
