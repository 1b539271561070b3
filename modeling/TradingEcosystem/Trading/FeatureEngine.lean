import TradingEcosystem.Trading.MarketOrderBook
import Mathlib.Algebra.Order.Field.Rat
import Mathlib.Algebra.Order.Field.Basic
import Mathlib.Tactic.NormNum
import Mathlib.Tactic.Ring

/-!
# The feature engine

`trading_system/strategy/feature_engine.cpp`: two numbers a strategy looks at, computed from the best
prices of the client's book.  `double` is a type `F` with the operations the source uses.

The market price weighs each of the two best prices by the quantity of the other side.  Its numerator
has 64 bits and its denominator 32, so it is a weighted mean only while neither wraps;
`insideSpread_iff` says, over the rationals, exactly when it lies between the two prices.
-/

set_option autoImplicit false

namespace TradingEcosystem
namespace Trading

variable {F : Type} [Div F] [IntCast F]

/-- `FeatureEngine`. -/
structure FeatureEngine (F : Type) where
  marketPrice : F
  aggregatedTradeQtyRatio : F

namespace FeatureEngine

/-- The constructor leaves both numbers at `Feature_INVALID`, a NaN. -/
def init (featureInvalid : F) : FeatureEngine F := ⟨featureInvalid, featureInvalid⟩

/-- The test both functions begin with.  It follows the best ask first, and the best bid only if the
ask has a price; it is passed with the two levels, bid first. -/
def quotes (b : MarketOrderBook) :
    Except Fault (Option (MarketOrderPriceLevel × MarketOrderPriceLevel)) := do
  let ask ← nonNull b.getBBO.bestAsk
  if (b.level ask).price = priceInvalid then return none
  else
    let bid ← nonNull b.getBBO.bestBid
    if (b.level bid).price = priceInvalid then return none
    else return some (b.level bid, b.level ask)

/-- The numerator of the market price, in 64 bits. -/
def weighted (bid ask : MarketOrderPriceLevel) : UInt64 :=
  bid.price * ask.totalQty.toUInt64 + ask.price * bid.totalQty.toUInt64

/-- What it is divided by, in 32 bits. -/
def weight (bid ask : MarketOrderPriceLevel) : Qty := bid.totalQty + ask.totalQty

/-- What the quantity of a trade is divided by: the level the trade was against. -/
def tradedTotal (marketUpdate : MEMarketUpdate) (bid ask : MarketOrderPriceLevel) : Qty :=
  if marketUpdate.side = .buy then ask.totalQty else bid.totalQty

/-- `onOrderBookUpdate`; the ticker, the price and the side are for the log. -/
def onOrderBookUpdate (e : FeatureEngine F) (orderBook : MarketOrderBook) :
    Except Fault (FeatureEngine F) := do
  match ← quotes orderBook with
  | some (bid, ask) =>
    return { e with marketPrice :=
      (((weighted bid ask).toNat : Int) : F) / (((weight bid ask).toNat : Int) : F) }
  | none => return e

/-- `onTradeUpdate`. -/
def onTradeUpdate (e : FeatureEngine F) (marketUpdate : MEMarketUpdate)
    (orderBook : MarketOrderBook) : Except Fault (FeatureEngine F) := do
  match ← quotes orderBook with
  | some (bid, ask) =>
    return { e with aggregatedTradeQtyRatio :=
      ((marketUpdate.qty.toNat : Int) : F) / (((tradedTotal marketUpdate bid ask).toNat : Int) : F) }
  | none => return e

/-! ## The spread -/

/-- The best bid and the best ask are two levels with a price. -/
structure Quotes (b : MarketOrderBook) (bid ask : MarketOrderPriceLevel) : Prop where
  bestBid : ∃ p, b.getBBO.bestBid = some p ∧ b.level p = bid
  bestAsk : ∃ p, b.getBBO.bestAsk = some p ∧ b.level p = ask
  bidPrice : bid.price ≠ priceInvalid
  askPrice : ask.price ≠ priceInvalid

/-- **The market price lies inside the spread**: it is computed, not by zero, and is between the two
prices. -/
def InsideSpread (e : FeatureEngine ℚ) (b : MarketOrderBook) (bid ask : MarketOrderPriceLevel) :
    Prop :=
  weight bid ask ≠ 0 ∧ ∃ e', e.onOrderBookUpdate b = .ok e' ∧
    (bid.price.toNat : ℚ) ≤ e'.marketPrice ∧ e'.marketPrice ≤ (ask.price.toNat : ℚ)

/-- What the numerator loses when it wraps: the largest multiple of `2 ^ 64` in it. -/
def lost (bid ask : MarketOrderPriceLevel) : Nat :=
  (bid.price.toNat * ask.totalQty.toNat + ask.price.toNat * bid.totalQty.toNat) / 2 ^ 64 * 2 ^ 64

/-- Neither wrap moves the price out of the spread.  While the quantities do not wrap, the loss may
be as much as the price is above the bid.  If they do, the divisor is `2 ^ 32` too small, and the
loss has to make up for that. -/
def Fits (bid ask : MarketOrderPriceLevel) : Prop :=
  let spread := ask.price.toNat - bid.price.toNat
  let total := bid.totalQty.toNat + ask.totalQty.toNat
  (total < 2 ^ 32 ∧ lost bid ask ≤ spread * bid.totalQty.toNat) ∨
    (2 ^ 32 < total ∧ lost bid ask ≤ spread * bid.totalQty.toNat + bid.price.toNat * 2 ^ 32 ∧
      ask.price.toNat * 2 ^ 32 ≤ spread * ask.totalQty.toNat + lost bid ask)

instance (bid ask : MarketOrderPriceLevel) : Decidable (Fits bid ask) :=
  inferInstanceAs (Decidable (_ ∨ _))

variable {b : MarketOrderBook} {bid ask : MarketOrderPriceLevel}

theorem Quotes.quotes_eq (h : Quotes b bid ask) : quotes b = .ok (some (bid, ask)) := by
  obtain ⟨p, hp, rfl⟩ := h.bestBid
  obtain ⟨q, hq, rfl⟩ := h.bestAsk
  simp [quotes, hp, hq, h.bidPrice, h.askPrice]

/-- The numerator is what is left of the weighted sum. -/
theorem toNat_weighted_add_lost (bid ask : MarketOrderPriceLevel) :
    (weighted bid ask).toNat + lost bid ask =
      bid.price.toNat * ask.totalQty.toNat + ask.price.toNat * bid.totalQty.toNat := by
  rw [weighted, lost, UInt64.toNat_add, UInt64.toNat_mul, UInt64.toNat_mul,
    UInt32.toNat_toUInt64, UInt32.toNat_toUInt64, ← Nat.add_mod, Nat.mod_add_div']

/-- A quotient of numbers lies between two numbers. -/
theorem div_mem_iff {x w lo hi : Nat} (hw : 0 < w) :
    ((lo : ℚ) ≤ ((x : Int) : ℚ) / ((w : Int) : ℚ) ∧ ((x : Int) : ℚ) / ((w : Int) : ℚ) ≤ (hi : ℚ)) ↔
      lo * w ≤ x ∧ x ≤ hi * w := by
  have hw' : (0 : ℚ) < ((w : Int) : ℚ) := by exact_mod_cast hw
  rw [le_div_iff₀ hw', div_le_iff₀ hw']
  norm_cast

/-- The two wraps in numbers: `x` is what is left of the weighted sum of the prices `p` and `p + s`,
and `w` of the sum of the quantities. -/
theorem between_iff {x w l p s B A : Nat} (hpos : 0 < B + A)
    (hx : x + l = p * A + (p + s) * B) (hw : w = (B + A) % 2 ^ 32)
    (hlt : B + A < 2 ^ 32 + 2 ^ 32) : (0 < w ∧ p * w ≤ x ∧ x ≤ (p + s) * w) ↔
      (B + A < 2 ^ 32 ∧ l ≤ s * B) ∨
        (2 ^ 32 < B + A ∧ l ≤ s * B + p * 2 ^ 32 ∧ (p + s) * 2 ^ 32 ≤ s * A + l) := by
  have hlow : x + l = p * (B + A) + s * B := by rw [hx]; ring
  have hhigh : x + l + s * A = (p + s) * (B + A) := by rw [hx]; ring
  rcases lt_trichotomy (B + A) (2 ^ 32) with h | h | h
  · rw [Nat.mod_eq_of_lt h] at hw
    subst hw
    omega
  · rw [h, Nat.mod_self] at hw
    omega
  · -- the divisor is `2 ^ 32` too small
    have hsum : B + A = w + 2 ^ 32 := by omega
    rw [hsum, Nat.mul_add] at hlow hhigh
    omega

/-- **The spread.**  Between two levels with a price, the bid not above the ask and not empty, the
market price is inside the spread exactly when the wraps cancel. -/
theorem insideSpread_iff (e : FeatureEngine ℚ) (h : Quotes b bid ask) (hle : bid.price ≤ ask.price)
    (hqty : 1 ≤ bid.totalQty) : InsideSpread e b bid ask ↔ Fits bid ask := by
  have hspread : bid.price.toNat + (ask.price.toNat - bid.price.toNat) = ask.price.toNat :=
    Nat.add_sub_of_le (UInt64.le_iff_toNat_le.1 hle)
  have hpos : 0 < bid.totalQty.toNat := UInt32.le_iff_toNat_le.1 hqty
  have hsum := toNat_weighted_add_lost bid ask
  rw [← hspread] at hsum
  have hbetween := between_iff (Nat.add_pos_left hpos ask.totalQty.toNat) hsum
    (UInt32.toNat_add bid.totalQty ask.totalQty)
    (Nat.add_lt_add bid.totalQty.toNat_lt ask.totalQty.toNat_lt)
  rw [hspread, ← weight] at hbetween
  rw [Fits, ← hbetween, InsideSpread, onOrderBookUpdate, h.quotes_eq, ok_bind]
  have hne : weight bid ask ≠ 0 ↔ 0 < (weight bid ask).toNat := by
    rw [Nat.pos_iff_ne_zero, ne_eq, ne_eq, ← UInt32.toNat_inj]
    rfl
  rw [hne]
  refine and_congr_right fun hw => ?_
  rw [← div_mem_iff hw]
  simp

/-- In particular when there are none. -/
theorem fits_of_lt (hqty : bid.totalQty.toNat + ask.totalQty.toNat < 2 ^ 32)
    (hprice : bid.price.toNat * ask.totalQty.toNat + ask.price.toNat * bid.totalQty.toNat < 2 ^ 64) :
    Fits bid ask := by
  have hlost : lost bid ask = 0 := by rw [lost, Nat.div_eq_of_lt hprice, Nat.zero_mul]
  exact Or.inl ⟨hqty, hlost ▸ Nat.zero_le _⟩

/-- A book with two best prices. -/
def quotedBook (bid ask : MarketOrderPriceLevel) : MarketOrderBook :=
  { MarketOrderBook.init with
    bestOffer := ⟨some 0, some 1⟩
    priceLevelPool := ((MemPool.init {} meMaxPriceLevels).push bid).push ask }

theorem quotes_quotedBook (hbid : bid.price ≠ priceInvalid) (hask : ask.price ≠ priceInvalid) :
    Quotes (quotedBook bid ask) bid ask where
  bestBid := ⟨0, rfl, rfl⟩
  bestAsk := ⟨1, rfl, rfl⟩
  bidPrice := hbid
  askPrice := hask

/-- A level as the weighted price sees it. -/
def quote (side : Side) (price : Price) (totalQty : Qty) : MarketOrderPriceLevel :=
  { side, price, totalQty }

theorem insideSpread_iff_quoted :
    InsideSpread (init 0) (quotedBook (quote .buy 100 30) (quote .sell 102 10)) (quote .buy 100 30)
      (quote .sell 102 10) ↔ Fits (quote .buy 100 30) (quote .sell 102 10) :=
  insideSpread_iff (init 0) (quotes_quotedBook (by decide) (by decide)) (by decide) (by decide)

/-- Quantities that sum to `2 ^ 32` make the divisor zero. -/
theorem not_insideSpread : ¬ ∀ (e : FeatureEngine ℚ) (b : MarketOrderBook)
    (bid ask : MarketOrderPriceLevel), Quotes b bid ask → bid.price ≤ ask.price →
      1 ≤ bid.totalQty → 1 ≤ ask.totalQty → InsideSpread e b bid ask := by
  intro h
  have hinside := h (init 0) (quotedBook (quote .buy 100 2147483648) (quote .sell 101 2147483648))
    _ _ (quotes_quotedBook (by decide) (by decide)) (by decide) (by decide) (by decide)
  exact hinside.1 (by decide)

end FeatureEngine
end Trading
end TradingEcosystem
