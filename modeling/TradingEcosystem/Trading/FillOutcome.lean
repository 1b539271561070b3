import TradingEcosystem.Trading.PositionKeeper

/-!
# What fills and quotes do

`addFill` in closed form, for a type of numbers with the operations the source uses: `filled` gives
every field of a position after a fill in terms of the position before it.  The branches are those
of the source: a fill against the position or not (`Against`), and a position that is taken to have
changed sign or not (`Flips`).  Of `updateBBO` it says what complete quotes do, and other ones.
-/

set_option autoImplicit false

namespace TradingEcosystem
namespace Trading
namespace PositionInfo

variable {F : Type} [Add F] [Sub F] [Mul F] [Div F] [IntCast F]

/-- The index of the other side. -/
def oppositeIndex (side : Side) : UInt64 := sideToIndex (if side = .buy then .sell else .buy)

/-- The fill is against the position. -/
def Against (p : PositionInfo F) (r : MEClientResponse) : Prop :=
  ¬ p.position * sideToValue r.side ≥ 0

instance (p : PositionInfo F) (r : MEClientResponse) : Decidable (p.Against r) :=
  inferInstanceAs (Decidable (¬ _))

/-- `addFill` takes the position to have changed sign. -/
def Flips (p : PositionInfo F) (r : MEClientResponse) : Prop := p.newPosition r * p.position < 0

instance (p : PositionInfo F) (r : MEClientResponse) : Decidable (p.Flips r) :=
  inferInstanceAs (Decidable (_ < _))

/-- `addFill` writes to `open_vwap_` inside the array only.  The side of a fill that takes off the
position without changing its sign is not an index of a write. -/
def InBounds (p : PositionInfo F) (r : MEClientResponse) : Prop :=
  sideToIndex r.side ≤ sideToIndex .max ∨ p.Against r ∧ ¬ p.Flips r

instance (p : PositionInfo F) (r : MEClientResponse) : Decidable (p.InBounds r) :=
  inferInstanceAs (Decidable (_ ∨ _))

/-- The price the position was entered at, if the fill is against it. -/
def entryPrice (p : PositionInfo F) (r : MEClientResponse) : F :=
  p.openVwap (oppositeIndex r.side) / ofInt32 p.position.abs

/-- What a fill against the position takes off it. -/
def closedQty (p : PositionInfo F) (r : MEClientResponse) : Int32 :=
  min r.execQty.toInt32 p.position.abs

/-- `real_PnL_` after the fill. -/
def realAfter (p : PositionInfo F) (r : MEClientResponse) : F :=
  if p.Against r then
    p.realPnL + ofInt32 (p.closedQty r) * (p.entryPrice r - ofUInt64 r.price) *
      ofInt32 (sideToValue r.side)
  else p.realPnL

/-- `open_vwap_` after the fill, before a flat position clears it. -/
def vwapAfter (p : PositionInfo F) (r : MEClientResponse) : UInt64 → F :=
  if p.Against r then
    let reduced := Function.update p.openVwap (oppositeIndex r.side)
      (p.entryPrice r * ofInt32 (p.newPosition r).abs)
    if p.Flips r then
      Function.update (Function.update reduced (sideToIndex r.side)
        (ofUInt64 (r.price * (p.newPosition r).abs.toInt64.toUInt64)))
        (oppositeIndex r.side) ((0 : Int) : F)
    else reduced
  else
    Function.update p.openVwap (sideToIndex r.side)
      (p.openVwap (sideToIndex r.side) + ofUInt64 (r.execQty.toUInt64 * r.price))

/-- What a position is worth over its cost at a price. -/
def worthAt (position : Int32) (openVwap : UInt64 → F) (price : F) : F :=
  if position = 0 then ((0 : Int) : F)
  else if position > 0 then
    (price - openVwap (sideToIndex .buy) / ofInt32 position.abs) * ofInt32 position.abs
  else (openVwap (sideToIndex .sell) / ofInt32 position.abs - price) * ofInt32 position.abs

/-- `open_vwap_` with the cost of a flat position cleared. -/
def cleared (position : Int32) (openVwap : UInt64 → F) : UInt64 → F :=
  if position = 0 then
    Function.update (Function.update openVwap (sideToIndex .sell) ((0 : Int) : F))
      (sideToIndex .buy) ((0 : Int) : F)
  else openVwap

/-! ## Closed forms of fills -/

omit [Add F] [Sub F] [Mul F] [Div F] in
theorem setOpenVwap_eq (p : PositionInfo F) {i : UInt64} (hi : i ≤ sideToIndex .max) (v : F) :
    p.setOpenVwap i v = .ok { p with openVwap := Function.update p.openVwap i v } := if_pos hi

theorem sideToIndex_buy_le : sideToIndex .buy ≤ sideToIndex .max := by decide
theorem sideToIndex_sell_le : sideToIndex .sell ≤ sideToIndex .max := by decide

theorem oppositeIndex_le (side : Side) : oppositeIndex side ≤ sideToIndex .max := by
  rw [oppositeIndex]
  split
  · exact sideToIndex_sell_le
  · exact sideToIndex_buy_le

omit [Add F] in
theorem markAtFill_eq (p : PositionInfo F) (price : Price) : p.markAtFill price = .ok { p with
    openVwap := cleared p.position p.openVwap
    unrealPnL := worthAt p.position p.openVwap (ofUInt64 price) } := by
  rw [markAtFill, worthAt, cleared]
  by_cases hflat : p.position = 0
  · rw [if_pos hflat, if_pos hflat, if_pos hflat, setOpenVwap_eq p sideToIndex_sell_le, ok_bind,
      setOpenVwap_eq _ sideToIndex_buy_le, ok_bind, pure_eq_ok]
  · rw [if_neg hflat, if_neg hflat, if_neg hflat]
    by_cases hlong : p.position > 0
    · rw [if_pos hlong, if_pos hlong]
    · rw [if_neg hlong, if_neg hlong]

omit [Add F] [Sub F] [Mul F] [Div F] in
theorem setOpenVwap_error (p : PositionInfo F) {i : UInt64} (hi : ¬ i ≤ sideToIndex .max) (v : F) :
    p.setOpenVwap i v = .error .badIndex := if_neg hi

/-- The part of `addFill` between the two updates of the position's own fields. -/
theorem reprice_eq (p : PositionInfo F) (r : MEClientResponse) :
    let q := { p with position := p.newPosition r, volume := p.volume + r.execQty }
    (if p.position * sideToValue r.side ≥ 0 then
      q.increase (sideToIndex r.side) r.execQty r.price
    else q.decrease p.position (sideToValue r.side) (sideToIndex r.side)
      (oppositeIndex r.side) r.execQty r.price) =
      if p.InBounds r then .ok { q with realPnL := p.realAfter r, openVwap := p.vwapAfter r }
      else .error .badIndex := by
  intro q
  rw [realAfter, vwapAfter]
  by_cases hagainst : p.Against r
  · rw [if_neg hagainst, if_pos hagainst, if_pos hagainst, decrease,
      setOpenVwap_eq _ (oppositeIndex_le r.side), ok_bind]
    by_cases hflips : p.Flips r
    · have hflips' : q.position * p.position < 0 := hflips
      dsimp only
      rw [if_pos hflips', if_pos hflips]
      by_cases hside : sideToIndex r.side ≤ sideToIndex .max
      · have hin : p.InBounds r := Or.inl hside
        rw [setOpenVwap_eq _ hside, ok_bind, setOpenVwap_eq _ (oppositeIndex_le r.side), if_pos hin]
        rfl
      · have hout : ¬ p.InBounds r := fun h => h.elim hside fun h => h.2 hflips
        rw [setOpenVwap_error _ hside, if_neg hout]
        rfl
    · have hflips' : ¬ q.position * p.position < 0 := hflips
      have hin : p.InBounds r := Or.inr ⟨hagainst, hflips⟩
      dsimp only
      rw [if_neg hflips', if_neg hflips, pure_eq_ok, if_pos hin]
      rfl
  · rw [if_pos (not_not.1 hagainst), if_neg hagainst, if_neg hagainst, increase]
    by_cases hside : sideToIndex r.side ≤ sideToIndex .max
    · have hin : p.InBounds r := Or.inl hside
      rw [setOpenVwap_eq _ hside, if_pos hin]
    · have hout : ¬ p.InBounds r := fun h => h.elim hside fun h => hagainst h.1
      rw [setOpenVwap_error _ hside, if_neg hout]

/-- The position after a fill. -/
def filled (p : PositionInfo F) (r : MEClientResponse) : PositionInfo F where
  position := p.newPosition r
  volume := p.volume + r.execQty
  realPnL := p.realAfter r
  openVwap := cleared (p.newPosition r) (p.vwapAfter r)
  unrealPnL := worthAt (p.newPosition r) (p.vwapAfter r) (ofUInt64 r.price)
  totalPnL := worthAt (p.newPosition r) (p.vwapAfter r) (ofUInt64 r.price) +
    worthAt (p.newPosition r) (p.vwapAfter r) (ofUInt64 r.price)

/-- **What a fill does.** -/
theorem addFill_cases (p : PositionInfo F) (r : MEClientResponse) :
    p.addFill r = if p.InBounds r then .ok (p.filled r) else .error .badIndex := by
  have hreprice := p.reprice_eq r
  rw [oppositeIndex] at hreprice
  rw [addFill]
  dsimp only at hreprice ⊢
  rw [newPosition_eq]
  split at hreprice
  · next hwith =>
    rw [if_pos hwith, hreprice]
    by_cases hin : p.InBounds r
    · rw [if_pos hin, if_pos hin, ok_bind, markAtFill_eq, ok_bind, pure_eq_ok]
      rfl
    · rw [if_neg hin, if_neg hin]
      rfl
  · next hagainst =>
    rw [if_neg hagainst, hreprice]
    by_cases hin : p.InBounds r
    · rw [if_pos hin, if_pos hin, ok_bind, markAtFill_eq, ok_bind, pure_eq_ok]
      rfl
    · rw [if_neg hin, if_neg hin]
      rfl

theorem addFill_eq (p : PositionInfo F) {r : MEClientResponse}
    (hside : sideToIndex r.side ≤ sideToIndex .max) : p.addFill r = .ok (p.filled r) :=
  (p.addFill_cases r).trans (if_pos (Or.inl hside))

/-- `updateBBO` sets the unrealized profit as `addFill` does, at the middle of the best prices. -/
theorem unrealPnL_markAtQuote (p : PositionInfo F) (hopen : p.position ≠ 0)
    (bid ask : Price) : (p.markAtQuote bid ask).unrealPnL =
      worthAt p.position p.openVwap
        (ofUInt64 (bid + ask) * (((1 : Int) : F) / ((2 : Int) : F))) := by
  rw [worthAt, if_neg hopen]
  rfl

/-! ## Calls -/

/-- A call that moves a position or reprices it. -/
inductive Call where
  | addFill (response : MEClientResponse)
  | updateBBO (levels : MemPool MarketOrderPriceLevel) (bbo : BestBidOffer)

/-- One call. -/
def call (p : PositionInfo F) : Call → Except Fault (PositionInfo F)
  | .addFill response => p.addFill response
  | .updateBBO levels bbo => p.updateBBO levels bbo

/-- Both best levels are there and have prices. -/
def Quoted (levels : MemPool MarketOrderPriceLevel) (bbo : BestBidOffer) : Prop :=
  ∃ bid ask, bbo.bestBid = some bid ∧ bbo.bestAsk = some ask ∧
    (levels.get bid).price ≠ priceInvalid ∧ (levels.get ask).price ≠ priceInvalid

/-- The quotes of the call, if it shows any, are complete. -/
def Call.Complete : Call → Prop
  | .addFill _ => True
  | .updateBBO levels bbo => Quoted levels bbo

/-- A quote changes the unrealized profit and the total, and nothing else. -/
theorem updateBBO_frame {p p' : PositionInfo F} {levels : MemPool MarketOrderPriceLevel}
    {bbo : BestBidOffer} (h : p.updateBBO levels bbo = .ok p') :
    ∃ unreal total, p' = { p with unrealPnL := unreal, totalPnL := total } := by
  rw [PositionInfo.updateBBO] at h
  split at h
  · obtain rfl := Except.ok.inj h
    exact ⟨_, _, rfl⟩
  · obtain ⟨bid, -, h⟩ := bind_eq_ok.1 h
    split at h
    · obtain rfl := Except.ok.inj h
      exact ⟨_, _, rfl⟩
    · obtain ⟨ask, -, h⟩ := bind_eq_ok.1 h
      split at h
      all_goals
        obtain rfl := Except.ok.inj h
        exact ⟨_, _, rfl⟩

/-- What complete quotes do. -/
theorem updateBBO_of_quoted {levels : MemPool MarketOrderPriceLevel} {bbo : BestBidOffer}
    (h : Quoted levels bbo) : ∃ bid ask, ∀ p : PositionInfo F,
      p.updateBBO levels bbo = .ok (if p.position = 0 then p else p.markAtQuote bid ask) := by
  obtain ⟨bid, ask, hbid, hask, hbidPrice, haskPrice⟩ := h
  refine ⟨(levels.get bid).price, (levels.get ask).price, fun p => ?_⟩
  rw [PositionInfo.updateBBO]
  by_cases hflat : p.position = 0
  · rw [if_pos hflat, if_pos hflat, pure_eq_ok]
  · rw [if_neg hflat, if_neg hflat, hbid, nonNull_some, ok_bind, if_neg hbidPrice, hask,
      nonNull_some, ok_bind, if_neg haskPrice, pure_eq_ok]

/-- What other quotes do: nothing, or they stop an open position. -/
theorem updateBBO_of_not_quoted {levels : MemPool MarketOrderPriceLevel} {bbo : BestBidOffer}
    (h : ¬ Quoted levels bbo) : ∃ stop : Except Fault Unit, ∀ p : PositionInfo F,
      p.updateBBO levels bbo = if p.position = 0 then .ok p else stop.map fun _ => p := by
  cases hbid : bbo.bestBid with
  | none =>
    refine ⟨.error .nullDeref, fun p => ?_⟩
    rw [PositionInfo.updateBBO, hbid]
    rfl
  | some bid =>
    by_cases hbidPrice : (levels.get bid).price = priceInvalid
    · refine ⟨.ok (), fun p => ?_⟩
      rw [PositionInfo.updateBBO, hbid, nonNull_some, ok_bind, if_pos hbidPrice]
      rfl
    cases hask : bbo.bestAsk with
    | none =>
      refine ⟨.error .nullDeref, fun p => ?_⟩
      rw [PositionInfo.updateBBO, hbid, nonNull_some, ok_bind, if_neg hbidPrice, hask]
      rfl
    | some ask =>
      have haskPrice : (levels.get ask).price = priceInvalid := by
        by_contra hne
        exact h ⟨bid, ask, hbid, hask, hbidPrice, hne⟩
      refine ⟨.ok (), fun p => ?_⟩
      rw [PositionInfo.updateBBO, hbid, nonNull_some, ok_bind, if_neg hbidPrice, hask,
        nonNull_some, ok_bind, if_pos haskPrice]
      rfl

end PositionInfo
end Trading
end TradingEcosystem
