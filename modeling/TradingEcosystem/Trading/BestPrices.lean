import TradingEcosystem.Trading.AddedOrders

/-!
# The best bid and offer

Strategies read the best prices through `best_offer_`.  Only the two branches of
`addOrdersAtPriceLevel` for a ladder that has a head write it, and no ladder ever has one: whatever a
feed adds, both pointers stay null (`noBest_of_onMarketUpdates`).  That is right as long as neither
side has an order, and no longer (`along_keepsBest_iff`).
-/

set_option autoImplicit false

namespace TradingEcosystem
namespace Trading

open Run Ring

namespace MarketOrderBook

/-- A pointer is to the best level of a side: the level is in use, in the price table and on the
side, some order has its price and no order a better one.  It is null where the side has no
orders. -/
def PointsToBest (b : MarketOrderBook) (side : Side) (better : Price → Price → Prop)
    (orders : FeedBook) : Option Ptr → Prop
  | none => ∀ d ∈ orders, d.side ≠ side
  | some p => b.priceLevelPool.Live p ∧ (∃ i, b.ordersAtPriceLevels i = some p) ∧
      (b.level p).side = side ∧ (∃ d ∈ orders, d.side = side ∧ d.price = (b.level p).price) ∧
      ∀ d ∈ orders, d.side = side → ¬ better d.price (b.level p).price

/-- **The best bid and offer are the best** of the orders. -/
structure BestPrices (b : MarketOrderBook) (orders : FeedBook) : Prop where
  bid : b.PointsToBest .buy (· > ·) orders b.getBBO.bestBid
  ask : b.PointsToBest .sell (· < ·) orders b.getBBO.bestAsk

variable {b : MarketOrderBook} {ring : Nat → List Ptr} {orders : FeedBook} {u : MEMarketUpdate}
  {us : List MEMarketUpdate}

/-- Without best prices they are right when there is nothing to buy or to sell. -/
theorem bestPrices_iff_of_noBest (h : b.bestOffer = {}) :
    BestPrices b orders ↔ ∀ d ∈ orders, d.side ≠ .buy ∧ d.side ≠ .sell := by
  have hbest : b.getBBO = {} := h
  constructor
  · intro hbest'
    have hbid := hbest'.bid
    have hask := hbest'.ask
    simp only [hbest, PointsToBest] at hbid hask
    exact fun d hd => ⟨hbid d hd, hask d hd⟩
  · intro hnone
    constructor
    · simpa only [hbest, PointsToBest] using fun d hd => (hnone d hd).1
    · simpa only [hbest, PointsToBest] using fun d hd => (hnone d hd).2

/-- **No book a feed builds** has a best price. -/
theorem noBest_of_onMarketUpdates (hb : init.onMarketUpdates us = .ok b) : b.getBBO = {} := by
  obtain ⟨⟨ring, h⟩, -⟩ := filled_of_onMarketUpdates hb
  exact h.noBest

end MarketOrderBook

/-! ## Whole feeds -/

/-- A book beside the orders its feed described. -/
structure FedBook where
  book : MarketOrderBook
  orders : FeedBook

namespace FedBook

open MarketOrderBook

/-- Nothing was fed. -/
def start : FedBook := ⟨.init, []⟩

/-- An update takes the book on, and the orders with it. -/
def Next (x : FedBook) (u : MEMarketUpdate) (x' : FedBook) : Prop :=
  x.book.onMarketUpdate u = .ok x'.book ∧ x'.orders = x.orders.apply u

/-- The best prices are right after the update. -/
def KeepsBest (x : FedBook) (u : MEMarketUpdate) : Prop :=
  ∀ x', Next x u x' → BestPrices x'.book x'.orders

/-- The update adds nothing to buy or to sell, or there are no blocks left for it. -/
def AddsNoQuote (x : FedBook) (u : MEMarketUpdate) : Prop :=
  u.type = .add → x.book.HasRoom u.price → u.side ≠ .buy ∧ u.side ≠ .sell

/-- As long as no quote was added: the book is one that updates build, and no order is on a side. -/
structure Unquoted (x : FedBook) : Prop where
  filled : ∃ ring, Filled x.book ring
  noQuote : ∀ d ∈ x.orders, d.side ≠ .buy ∧ d.side ≠ .sell

theorem unquoted_start : Unquoted start := ⟨⟨_, filled_init⟩, by simp [start]⟩

variable {x x' : FedBook} {u : MEMarketUpdate}

theorem Unquoted.next (h : Unquoted x) (hu : AddsNoQuote x u) (hx : Next x u x') :
    Unquoted x' := by
  obtain ⟨ring, hfilled⟩ := h.filled
  refine ⟨hfilled.next hx.1, fun d hd => ?_⟩
  rw [hx.2] at hd
  rcases FeedBook.of_mem_apply hd with ⟨hadd, rfl⟩ | ⟨e, he, hde⟩
  · refine hu hadd ?_
    by_contra hroom
    exact absurd (hx.1.symm.trans (hfilled.add_full hadd hroom)) (by simp)
  · rw [hde]
    exact h.noQuote e he

theorem Unquoted.keepsBest_iff (h : Unquoted x) (u : MEMarketUpdate) :
    KeepsBest x u ↔ AddsNoQuote x u := by
  constructor
  · intro hkeeps hadd hroom
    obtain ⟨ring, hfilled⟩ := h.filled
    obtain ⟨b', hb', -, hfilled'⟩ := hfilled.add hadd hroom
    have hbest := hkeeps ⟨b', x.orders.apply u⟩ ⟨hb', rfl⟩
    refine (bestPrices_iff_of_noBest hfilled'.noBest).1 hbest (dataOf u) ?_
    simp [FeedBook.apply, hadd, dataOf]
  · intro hu x' hx
    obtain ⟨⟨ring, hfilled⟩, hnone⟩ := h.next hu hx
    exact (bestPrices_iff_of_noBest hfilled.noBest).2 hnone

/-- **The best prices of a feed** are right after every update exactly when no update adds an order
on a side. -/
theorem along_keepsBest_iff (us : List MEMarketUpdate) :
    Along Next KeepsBest start us ↔ Along Next AddsNoQuote start us :=
  along_congr Unquoted (fun _ _ => True) (fun _ u h _ => h.keepsBest_iff u)
    (fun _ _ _ h _ hu hx => h.next hu hx) unquoted_start
    (along_of_forall (fun _ _ => trivial) _ _)

/-- A first `BUY` order, and the best bid is null. -/
theorem not_along_keepsBest : ¬ ∀ us : List MEMarketUpdate, FeedBook.AcceptsAll [] us →
    Along Next KeepsBest start us := by
  intro h
  have hadds := (along_keepsBest_iff [addFirst]).1 (h [addFirst] ⟨Or.inl ⟨rfl, by decide⟩, trivial⟩)
  exact (hadds.1 rfl (hasRoom_init addFirst.price)).1 rfl

end FedBook

end Trading
end TradingEcosystem
