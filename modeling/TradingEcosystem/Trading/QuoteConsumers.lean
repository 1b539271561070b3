import TradingEcosystem.Trading.BestPrices
import TradingEcosystem.Trading.FeatureEngine
import TradingEcosystem.Trading.PositionKeeper

/-!
# Who reads the best prices

`onOrderBookUpdate` and `onTradeUpdate` of the feature engine, and `updateBBO` of a position, are
given what `getBBO` returns.  A missing side is a null level there, and all three ask the level for
its price instead.  In the books a feed builds both sides are missing, so that only a position that
is flat, which asks for nothing, comes through (`survivesBook_iff`).  It has stored the quote then,
and the log line of its next fill asks for both levels (`not_addFillAndLog`).
-/

set_option autoImplicit false

namespace TradingEcosystem
namespace Trading

open MarketOrderBook

variable {F : Type} [Add F] [Sub F] [Mul F] [Div F] [IntCast F]

/-- A reader of the best prices, with what it is called on and with. -/
inductive QuoteConsumer (F : Type) [IntCast F]
  | onOrderBookUpdate (engine : FeatureEngine F)
  | onTradeUpdate (engine : FeatureEngine F) (marketUpdate : MEMarketUpdate)
  | updateBBO (position : PositionInfo F)

namespace QuoteConsumer

/-- **The call survives the book**: it returns, and what it divides by is not zero. -/
def Survives (b : MarketOrderBook) : QuoteConsumer F → Prop
  | .onOrderBookUpdate e => (∃ e', e.onOrderBookUpdate b = .ok e') ∧
      ∀ bid ask, FeatureEngine.quotes b = .ok (some (bid, ask)) →
        FeatureEngine.weight bid ask ≠ 0
  | .onTradeUpdate e marketUpdate => (∃ e', e.onTradeUpdate marketUpdate b = .ok e') ∧
      ∀ bid ask, FeatureEngine.quotes b = .ok (some (bid, ask)) →
        FeatureEngine.tradedTotal marketUpdate bid ask ≠ 0
  | .updateBBO p => (∃ p', p.updateBBO b.priceLevelPool b.getBBO = .ok p') ∧
      (p.position ≠ 0 → p.position.abs ≠ 0)

variable {b : MarketOrderBook} {us : List MEMarketUpdate}

/-- The test of the feature engine follows the best ask. -/
theorem quotes_eq_error (h : b.getBBO = {}) : FeatureEngine.quotes b = .error .nullDeref := by
  simp [FeatureEngine.quotes, h]

/-- So does a position, unless it is flat. -/
theorem updateBBO_returns_iff (h : b.getBBO = {}) (p : PositionInfo F) :
    (∃ p', p.updateBBO b.priceLevelPool b.getBBO = .ok p') ↔ p.position = 0 := by
  by_cases hflat : p.position = 0
  · simp [PositionInfo.updateBBO, hflat]
  · simp [PositionInfo.updateBBO, hflat, h]

/-- The log line of a fill follows both sides, and of a flat position as well. -/
theorem readQuotes_some (bbo : BestBidOffer) :
    PositionInfo.readQuotes (some bbo) = .ok () ↔ bbo.bestBid ≠ none ∧ bbo.bestAsk ≠ none := by
  rw [PositionInfo.readQuotes]
  cases bbo.bestBid with
  | none => simp
  | some bid =>
    cases bbo.bestAsk with
    | none => simp
    | some ask => simp

theorem addFillAndLog_returns_iff (bbo : BestBidOffer) (p : PositionInfo F)
    (r : MEClientResponse) : (∃ p', p.addFillAndLog (some bbo) r = .ok p') ↔
      (∃ p', p.addFill r = .ok p') ∧ bbo.bestBid ≠ none ∧ bbo.bestAsk ≠ none := by
  rw [← readQuotes_some, PositionInfo.addFillAndLog]
  constructor
  · rintro ⟨p', h⟩
    obtain ⟨q, hq, h⟩ := bind_eq_ok.1 h
    obtain ⟨_, hread, -⟩ := bind_eq_ok.1 h
    exact ⟨⟨q, hq⟩, hread⟩
  · rintro ⟨⟨q, hq⟩, hread⟩
    exact ⟨q, by rw [hq, ok_bind, hread]; rfl⟩

/-- **A fill behind a quote**: once a position has been shown the best prices of a book a feed
builds, its next fill follows a null level. -/
theorem not_addFillAndLog (hb : MarketOrderBook.init.onMarketUpdates us = .ok b)
    (p : PositionInfo F) (r : MEClientResponse) :
    ¬ ∃ p', p.addFillAndLog (some b.getBBO) r = .ok p' := by
  rw [addFillAndLog_returns_iff, noBest_of_onMarketUpdates hb]
  exact fun h => h.2.1 rfl

/-- **Who survives a book a feed builds**: a position that is flat. -/
theorem survivesBook_iff (hb : MarketOrderBook.init.onMarketUpdates us = .ok b)
    (c : QuoteConsumer F) : c.Survives b ↔ ∃ p, c = .updateBBO p ∧ p.position = 0 := by
  have hbest := noBest_of_onMarketUpdates hb
  cases c with
  | onOrderBookUpdate e =>
    simp [Survives, FeatureEngine.onOrderBookUpdate, quotes_eq_error hbest]
  | onTradeUpdate e marketUpdate =>
    simp [Survives, FeatureEngine.onTradeUpdate, quotes_eq_error hbest]
  | updateBBO p =>
    have hreturns := updateBBO_returns_iff hbest p
    constructor
    · exact fun h => ⟨p, rfl, hreturns.1 h.1⟩
    · rintro ⟨q, hq, hflat⟩
      obtain rfl := QuoteConsumer.updateBBO.inj hq
      exact ⟨hreturns.2 hflat, fun hne => absurd hflat hne⟩

/-- A first order is added. -/
theorem onMarketUpdates_addFirst :
    ∃ b, MarketOrderBook.init.onMarketUpdates [addFirst] = .ok b := by
  obtain ⟨b, hb, -⟩ := filled_init.add rfl (hasRoom_init addFirst.price)
  refine ⟨b, ?_⟩
  rw [onMarketUpdates, List.foldlM_cons, hb]
  rfl

theorem survivesBook_iff_addFirst : ∃ b, MarketOrderBook.init.onMarketUpdates [addFirst] = .ok b ∧
    ∀ c : QuoteConsumer ℚ, c.Survives b ↔ ∃ p, c = .updateBBO p ∧ p.position = 0 :=
  onMarketUpdates_addFirst.imp fun _ hb => ⟨hb, survivesBook_iff hb⟩

/-- The feature engine after a first `BUY` order. -/
theorem not_survivesBook : ¬ ∀ (us : List MEMarketUpdate) (b : MarketOrderBook),
    FeedBook.AcceptsAll [] us → MarketOrderBook.init.onMarketUpdates us = .ok b →
      ∀ c : QuoteConsumer ℚ, c.Survives b := by
  intro h
  obtain ⟨b, hb⟩ := onMarketUpdates_addFirst
  have hc := h [addFirst] b ⟨Or.inl ⟨rfl, by decide⟩, trivial⟩ hb
    (.onOrderBookUpdate (FeatureEngine.init 0))
  obtain ⟨p, hp, -⟩ := (survivesBook_iff hb _).1 hc
  cases hp

end QuoteConsumer
end Trading
end TradingEcosystem
