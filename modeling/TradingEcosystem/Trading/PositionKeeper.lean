import TradingEcosystem.Trading.MarketOrderBook
import Mathlib.Algebra.Order.Group.Unbundled.Int
import Mathlib.Algebra.Group.Nat.Defs
import Mathlib.Algebra.Order.Group.Unbundled.Abs

/-!
# The position keeper

`trading_system/strategy/position_info.h` and `position_keeper.h`.  A fill moves the position of its
ticker and reprices it; a change of the best prices reprices it, too.  `double` is a type `F` with
the operations the source uses; positions are 32-bit integers, and their arithmetic wraps.
-/

set_option autoImplicit false

namespace TradingEcosystem

/-- `sideToValue`. -/
def sideToValue (side : Side) : Int32 := side.toByte.toInt8.toInt32

theorem toInt_sideToValue_buy : (sideToValue .buy).toInt = 1 := by decide
theorem toInt_sideToValue_sell : (sideToValue .sell).toInt = -1 := by decide

/-! ## 32-bit arithmetic -/

theorem toInt_toInt32 (q : Qty) : q.toInt32.toInt = (q.toNat : Int).bmod (2 ^ 32) :=
  BitVec.toInt_eq_toNat_bmod q.toBitVec

/-- A signed quantity added to a position, which wraps. -/
theorem toInt_add_mul (x v : Int32) (q : Qty) :
    (x + v * q.toInt32).toInt = (x.toInt + v.toInt * q.toNat).bmod (2 ^ 32) := by
  rw [Int32.toInt_add, Int32.toInt_mul, toInt_toInt32, Int.mul_bmod_bmod, Int.add_bmod_bmod]

/-- Nothing wraps as long as the sum has an absolute value below `2 ^ 31`. -/
theorem toInt_add_mul_of_lt {x v : Int32} {q : Qty}
    (h : |x.toInt + v.toInt * q.toNat| < 2 ^ 31) :
    (x + v * q.toInt32).toInt = x.toInt + v.toInt * q.toNat := by
  obtain ⟨hlow, hhigh⟩ := abs_lt.1 h
  rw [toInt_add_mul]
  exact Int.bmod_eq_of_le (by omega) (by omega)

theorem toInt_abs {x : Int32} (h : |x.toInt| < 2 ^ 31) : x.abs.toInt = |x.toInt| := by
  have hne : x.toBitVec ≠ BitVec.intMin 32 := by
    intro hx
    have hmin : x.toInt = -2 ^ 31 := congrArg BitVec.toInt hx
    rw [hmin] at h
    exact absurd h (by decide)
  rw [← Int.natCast_natAbs]
  exact BitVec.toInt_abs_eq_natAbs_of_ne_intMin hne

theorem toInt_abs_ne_zero {x : Int32} (h : x ≠ 0) : x.abs.toInt ≠ 0 := by
  by_cases hx : |x.toInt| < 2 ^ 31
  · rw [toInt_abs hx, ne_eq, abs_eq_zero]
    exact fun h0 => h (Int32.toInt_inj.1 h0)
  · have hlow := x.le_toInt
    have hhigh := x.toInt_lt
    have hmin : x = Int32.minValue := by
      rw [abs_lt, not_and_or] at hx
      exact Int32.toInt_inj.1 (by rw [Int32.toInt_minValue]; omega)
    rw [hmin]
    decide

/-- The absolute value of a sum that wrapped, which is at most one turn away. -/
theorem abs_toInt_of_bmod {x : Int32} {S : Int} (hx : x.toInt = S.bmod (2 ^ 32))
    (hS : |S| < 3 * 2 ^ 31) :
    |S| < 2 ^ 31 ∧ x.abs.toInt = |S| ∨ |S| = 2 ^ 31 ∧ x.abs.toInt = -2 ^ 31 ∨
      2 ^ 31 < |S| ∧ x.abs.toInt = |(|S| - 2 ^ 32)| := by
  rw [Int.bmod_def] at hx
  obtain ⟨hlow, hhigh⟩ := abs_lt.1 hS
  rcases lt_trichotomy |S| (2 ^ 31) with h | h | h
  · obtain ⟨h1, h2⟩ := abs_lt.1 h
    have hxS : x.toInt = S := by rw [hx]; split <;> omega
    exact Or.inl ⟨h, hxS ▸ toInt_abs (hxS ▸ h)⟩
  · have hxS : x = Int32.minValue := by
      refine Int32.toInt_inj.1 (hx.trans ?_)
      rw [Int32.toInt_minValue]
      rcases abs_choice S with hs | hs <;> rw [hs] at h <;> split <;> omega
    refine Or.inr (Or.inl ⟨h, ?_⟩)
    rw [hxS]
    decide
  · have hxS : |x.toInt| = |(|S| - 2 ^ 32)| ∧ |x.toInt| < 2 ^ 31 := by
      rcases abs_choice S with hs | hs
      · rw [hs] at h ⊢
        have hw : x.toInt = S - 2 ^ 32 := by rw [hx]; split <;> omega
        rw [hw]
        exact ⟨rfl, abs_lt.2 ⟨by omega, by omega⟩⟩
      · rw [hs] at h ⊢
        have hw : x.toInt = -(-S - 2 ^ 32) := by rw [hx]; split <;> omega
        rw [hw, abs_neg]
        exact ⟨rfl, abs_lt.2 ⟨by omega, by omega⟩⟩
    exact Or.inr (Or.inr ⟨h, (toInt_abs hxS.2).trans hxS.1⟩)

/-- A limit as a signed integer. -/
theorem toInt_toInt32_cases (q : Qty) : q.toNat < 2 ^ 31 ∧ q.toInt32.toInt = q.toNat ∨
    2 ^ 31 ≤ q.toNat ∧ q.toInt32.toInt = q.toNat - 2 ^ 32 := by
  have hq := q.toNat_lt
  rw [toInt_toInt32, Int.bmod_def]
  split <;> omega

namespace Trading

variable {F : Type} [Add F] [Sub F] [Mul F] [Div F] [IntCast F]

/-- `PositionInfo`, apart from `bbo_`, which only its log lines read (`readQuotes`).  `open_vwap_`
and `volume_` have no initialiser. -/
structure PositionInfo (F : Type) [IntCast F] where
  position : Int32 := 0
  realPnL : F := ((0 : Int) : F)
  unrealPnL : F := ((0 : Int) : F)
  totalPnL : F := ((0 : Int) : F)
  openVwap : UInt64 → F
  volume : Qty

namespace PositionInfo

/-- A signed integer as a `double`. -/
def ofInt32 (x : Int32) : F := ((x.toInt : Int) : F)

/-- An unsigned integer as a `double`. -/
def ofUInt64 (x : UInt64) : F := ((x.toNat : Int) : F)

/-- `open_vwap_[i] = v`. -/
def setOpenVwap (p : PositionInfo F) (i : UInt64) (v : F) : Except Fault (PositionInfo F) :=
  if i ≤ sideToIndex .max then .ok { p with openVwap := Function.update p.openVwap i v }
  else .error .badIndex

/-- The branch of `addFill` for a fill that opens a position or adds to it. -/
def increase (p : PositionInfo F) (sideIndex : UInt64) (execQty : Qty) (price : Price) :
    Except Fault (PositionInfo F) :=
  p.setOpenVwap sideIndex (p.openVwap sideIndex + ofUInt64 (execQty.toUInt64 * price))

/-- The branch for a fill against the position, which was `oldPosition`. -/
def decrease (p : PositionInfo F) (oldPosition sideValue : Int32)
    (sideIndex oppositeSideIndex : UInt64) (execQty : Qty) (price : Price) :
    Except Fault (PositionInfo F) := do
  let oppSideVwap := p.openVwap oppositeSideIndex / ofInt32 oldPosition.abs
  let p ← p.setOpenVwap oppositeSideIndex (oppSideVwap * ofInt32 p.position.abs)
  let closed : Int32 := min execQty.toInt32 oldPosition.abs
  let p := { p with realPnL :=
    p.realPnL + ofInt32 closed * (oppSideVwap - ofUInt64 price) * ofInt32 sideValue }
  if p.position * oldPosition < 0 then
    -- the position has changed sign
    let p ← p.setOpenVwap sideIndex (ofUInt64 (price * p.position.abs.toInt64.toUInt64))
    p.setOpenVwap oppositeSideIndex ((0 : Int) : F)
  else return p

/-- The last `if` of `addFill`: what the open position is worth at the price of the fill. -/
def markAtFill (p : PositionInfo F) (price : Price) : Except Fault (PositionInfo F) :=
  if p.position = 0 then do
    let p ← p.setOpenVwap (sideToIndex .sell) ((0 : Int) : F)
    let p ← p.setOpenVwap (sideToIndex .buy) ((0 : Int) : F)
    return { p with unrealPnL := ((0 : Int) : F) }
  else
    let size : F := ofInt32 p.position.abs
    if p.position > 0 then
      .ok { p with unrealPnL := (ofUInt64 price - p.openVwap (sideToIndex .buy) / size) * size }
    else
      .ok { p with unrealPnL := (p.openVwap (sideToIndex .sell) / size - ofUInt64 price) * size }

/-- `addFill`, up to its log line (`addFillAndLog`). -/
def addFill (p : PositionInfo F) (response : MEClientResponse) : Except Fault (PositionInfo F) := do
  let oldPosition := p.position
  let sideIndex := sideToIndex response.side
  let oppositeSideIndex := sideToIndex (if response.side = .buy then .sell else .buy)
  let sideValue := sideToValue response.side
  -- the product is unsigned, and so is the sum before it is stored
  let position := (oldPosition.toUInt32 + response.execQty * sideValue.toUInt32).toInt32
  let p := { p with position, volume := p.volume + response.execQty }
  let p ←
    if oldPosition * sideValue ≥ 0 then p.increase sideIndex response.execQty response.price
    else
      p.decrease oldPosition sideValue sideIndex oppositeSideIndex response.execQty response.price
  let p ← p.markAtFill response.price
  return { p with totalPnL := p.unrealPnL + p.unrealPnL }

/-- What `toString` follows for the log line of a fill: both levels of `bbo_`, which `updateBBO`
has stored. -/
def readQuotes : Option BestBidOffer → Except Fault Unit
  | none => .ok ()
  | some bbo => do
    let _ ← nonNull bbo.bestBid
    let _ ← nonNull bbo.bestAsk
    return ()

/-- `addFill` to its end, where `bbo_` points at `bbo`. -/
def addFillAndLog (p : PositionInfo F) (bbo : Option BestBidOffer) (response : MEClientResponse) :
    Except Fault (PositionInfo F) := do
  let p ← p.addFill response
  readQuotes bbo
  return p

/-- The body of the `if` of `updateBBO`: what the open position is worth between the best prices.
Their sum is unsigned and may wrap; `0.5` is a half. -/
def markAtQuote (p : PositionInfo F) (bid ask : Price) : PositionInfo F :=
  let midPrice : F := ofUInt64 (bid + ask) * (((1 : Int) : F) / ((2 : Int) : F))
  let size : F := ofInt32 p.position.abs
  let unrealPnL :=
    if p.position > 0 then (midPrice - p.openVwap (sideToIndex .buy) / size) * size
    else (p.openVwap (sideToIndex .sell) / size - midPrice) * size
  { p with unrealPnL, totalPnL := unrealPnL + p.realPnL }

/-- `updateBBO`; the two levels are in the pool of the client's book.  A flat position looks at no
quote. -/
def updateBBO (p : PositionInfo F) (levels : MemPool MarketOrderPriceLevel) (bbo : BestBidOffer) :
    Except Fault (PositionInfo F) := do
  if p.position = 0 then return p
  else
    let bid ← nonNull bbo.bestBid
    if (levels.get bid).price = priceInvalid then return p
    else
      let ask ← nonNull bbo.bestAsk
      if (levels.get ask).price = priceInvalid then return p
      else return p.markAtQuote (levels.get bid).price (levels.get ask).price

/-! ## What a fill does to the position -/

section Position

/-- The position after a fill. -/
def newPosition (p : PositionInfo F) (r : MEClientResponse) : Int32 :=
  p.position + sideToValue r.side * r.execQty.toInt32

omit [Add F] [Sub F] [Mul F] [Div F] in
theorem newPosition_eq (p : PositionInfo F) (r : MEClientResponse) :
    (p.position.toUInt32 + r.execQty * (sideToValue r.side).toUInt32).toInt32 =
      p.newPosition r := by
  rw [newPosition, UInt32.toInt32_add, UInt32.toInt32_mul, Int32.toInt32_toUInt32,
    Int32.toInt32_toUInt32, Int32.mul_comm]

variable {p p' : PositionInfo F}

omit [Add F] [Sub F] [Mul F] [Div F] in
theorem position_setOpenVwap {i : UInt64} {v : F} (h : p.setOpenVwap i v = .ok p') :
    p'.position = p.position := by
  rw [setOpenVwap] at h
  split at h
  · obtain rfl := Except.ok.inj h
    rfl
  · exact absurd h (by simp)

theorem position_decrease {oldPosition sideValue : Int32} {sideIndex oppositeSideIndex : UInt64}
    {execQty : Qty} {price : Price}
    (h : p.decrease oldPosition sideValue sideIndex oppositeSideIndex execQty price = .ok p') :
    p'.position = p.position := by
  obtain ⟨q, hq, h⟩ := bind_eq_ok.1 h
  rw [← position_setOpenVwap hq]
  dsimp only at h
  split at h
  · obtain ⟨q', hq', h⟩ := bind_eq_ok.1 h
    rw [position_setOpenVwap h, position_setOpenVwap hq']
  · obtain rfl := Except.ok.inj h
    rfl

omit [Add F] in
theorem position_markAtFill {price : Price} (h : p.markAtFill price = .ok p') :
    p'.position = p.position := by
  rw [markAtFill] at h
  split at h
  · obtain ⟨q, hq, h⟩ := bind_eq_ok.1 h
    obtain ⟨q', hq', h⟩ := bind_eq_ok.1 h
    obtain rfl := Except.ok.inj h
    exact (position_setOpenVwap hq').trans (position_setOpenVwap hq)
  · dsimp only at h
    split at h
    all_goals
      obtain rfl := Except.ok.inj h
      rfl

theorem position_addFill {r : MEClientResponse} (h : p.addFill r = .ok p') :
    p'.position = p.position + sideToValue r.side * r.execQty.toInt32 := by
  have hsum := newPosition_eq p r
  rw [newPosition] at hsum
  rw [← hsum]
  rw [addFill] at h
  dsimp only at h
  split at h
  all_goals
    obtain ⟨q, hq, h⟩ := bind_eq_ok.1 h
    obtain ⟨q', hq', h⟩ := bind_eq_ok.1 h
    obtain rfl := Except.ok.inj h
  · exact (position_markAtFill hq').trans (position_setOpenVwap hq)
  · exact (position_markAtFill hq').trans (position_decrease hq)

end Position

end PositionInfo

/-- `PositionKeeper`.  The positions are read below `ME_MAX_TICKERS` only. -/
structure PositionKeeper (F : Type) [IntCast F] where
  tickerPosition : TickerId → PositionInfo F

namespace PositionKeeper

/-- `addFill`. -/
def addFill (k : PositionKeeper F) (response : MEClientResponse) :
    Except Fault (PositionKeeper F) := do
  if response.tickerId.toNat < meMaxTickers then
    let p ← (k.tickerPosition response.tickerId).addFill response
    return { tickerPosition := Function.update k.tickerPosition response.tickerId p }
  else .error .outOfRange

/-- `updateBBO`. -/
def updateBBO (k : PositionKeeper F) (tickerId : TickerId)
    (levels : MemPool MarketOrderPriceLevel) (bbo : BestBidOffer) :
    Except Fault (PositionKeeper F) := do
  if tickerId.toNat < meMaxTickers then
    let p ← (k.tickerPosition tickerId).updateBBO levels bbo
    return { tickerPosition := Function.update k.tickerPosition tickerId p }
  else .error .outOfRange

end PositionKeeper

end Trading
end TradingEcosystem
