import TradingEcosystem.Trading.PositionKeeper
import Mathlib.Algebra.Order.Ring.Rat

/-!
# The risk manager

`trading_system/strategy/risk_manager.{h,cpp}`, and `RiskCfg` of `common/common_types.h`.  The check
reads the position of the ticker where the position keeper holds it.

Its casts and sums are those of 32 bits.  `Fits` is what the limits say, over the integers; an order
that fits is allowed when the limits are below `2 ^ 31` (`checkPreTradeRisk_of_fits`).  Beyond that
the check and the limits part: a large quantity is a negative one, and a large limit lets nothing
through.  `allowed_iff_fits_iff` says where they agree.
-/

set_option autoImplicit false

namespace TradingEcosystem
namespace Trading

variable {F : Type} [IntCast F] [LT F] [DecidableLT F]

/-- `RiskCheckResult`. -/
inductive RiskCheckResult where
  | invalid
  | orderTooLarge
  | positionTooLarge
  | lossTooLarge
  | allowed
  deriving DecidableEq

/-- `RiskCfg`. -/
structure RiskCfg (F : Type) [IntCast F] where
  maxOrderSize : Qty := 0
  maxPosition : Qty := 0
  maxLoss : F := ((0 : Int) : F)

/-- `RiskInfo`, with what its pointer leads to. -/
structure RiskInfo (F : Type) [IntCast F] where
  positionInfo : PositionInfo F
  riskCfg : RiskCfg F

/-- `RiskInfo::checkPreTradeRisk`. -/
def RiskInfo.checkPreTradeRisk (i : RiskInfo F) (side : Side) (qty : Qty) : RiskCheckResult :=
  if qty > i.riskCfg.maxOrderSize then .orderTooLarge
  else if (i.positionInfo.position + sideToValue side * qty.toInt32).abs >
      i.riskCfg.maxPosition.toInt32 then .positionTooLarge
  else if i.positionInfo.totalPnL < i.riskCfg.maxLoss then .lossTooLarge
  else .allowed

/-- `RiskManager`: the limits of each ticker, read below `ME_MAX_TICKERS` only. -/
structure RiskManager (F : Type) [IntCast F] where
  riskCfg : TickerId → RiskCfg F

/-- `RiskManager::checkPreTradeRisk`. -/
def RiskManager.checkPreTradeRisk (m : RiskManager F) (k : PositionKeeper F) (tickerId : TickerId)
    (side : Side) (qty : Qty) : Except Fault RiskCheckResult :=
  if tickerId.toNat < meMaxTickers then
    .ok (RiskInfo.checkPreTradeRisk ⟨k.tickerPosition tickerId, m.riskCfg tickerId⟩ side qty)
  else .error .outOfRange

/-- **What the limits say** of an order: its quantity, the position if all of it is filled, and the
losses made so far.  The last is the negation of the source's `<`, and not `≥`, which says another
thing where `total_PnL_` or `max_loss_` is not a number: the check lets that through. -/
structure RiskInfo.Fits (i : RiskInfo F) (side : Side) (qty : Qty) : Prop where
  size : qty ≤ i.riskCfg.maxOrderSize
  position : |i.positionInfo.position.toInt + (sideToValue side).toInt * qty.toNat| ≤
    i.riskCfg.maxPosition.toNat
  loss : ¬ i.positionInfo.totalPnL < i.riskCfg.maxLoss

/-- An order that fits is allowed. -/
theorem RiskInfo.checkPreTradeRisk_of_fits {i : RiskInfo F} {side : Side} {qty : Qty}
    (h : i.Fits side qty) (hmax : i.riskCfg.maxPosition.toNat < 2 ^ 31) :
    i.checkPreTradeRisk side qty = .allowed := by
  have hmax' : (i.riskCfg.maxPosition.toNat : Int) < 2 ^ 31 := by exact_mod_cast hmax
  have hlt := h.position.trans_lt hmax'
  have hsum := toInt_add_mul_of_lt hlt
  have habs := toInt_abs (hsum ▸ hlt)
  have hlimit : i.riskCfg.maxPosition.toInt32.toInt = i.riskCfg.maxPosition.toNat := by
    rw [toInt_toInt32]
    exact Int.bmod_eq_of_le (by omega) (by omega)
  have hposition : ¬ (i.positionInfo.position + sideToValue side * qty.toInt32).abs >
      i.riskCfg.maxPosition.toInt32 := by
    rw [gt_iff_lt, Int32.lt_iff_toInt_lt, habs, hsum, hlimit]
    exact not_lt.2 h.position
  rw [checkPreTradeRisk, if_neg (UInt32.not_lt.2 h.size), if_neg hposition, if_neg h.loss]

/-! ## What the check means -/

/-- The position if all of the order is filled, over the integers. -/
def RiskInfo.positionAfter (i : RiskInfo F) (side : Side) (qty : Qty) : Int :=
  i.positionInfo.position.toInt + (sideToValue side).toInt * qty.toNat

/-- The condition: 32 bits compare the position with its limit as the integers do. -/
def RiskInfo.Faithful (i : RiskInfo F) (side : Side) (qty : Qty) : Prop :=
  (i.riskCfg.maxPosition.toNat < 2 ^ 31 ∧ (|i.positionAfter side qty| < 2 ^ 31 ∨
      2 ^ 31 < |i.positionAfter side qty| ∧
        (i.riskCfg.maxPosition.toNat : Int) < |(|i.positionAfter side qty| - 2 ^ 32)|)) ∨
    2 ^ 31 ≤ i.riskCfg.maxPosition.toNat ∧ (|i.positionAfter side qty| = 2 ^ 31 ∨
      (i.riskCfg.maxPosition.toNat : Int) < |i.positionAfter side qty|)

/-- The order is refused for its size or for the losses made so far. -/
def RiskInfo.Refused (i : RiskInfo F) (qty : Qty) : Prop :=
  i.riskCfg.maxOrderSize < qty ∨ i.positionInfo.totalPnL < i.riskCfg.maxLoss

omit [LT F] [DecidableLT F] in
theorem RiskInfo.abs_positionAfter_lt (i : RiskInfo F) {side : Side}
    (hs : side = .buy ∨ side = .sell) (qty : Qty) : |i.positionAfter side qty| < 3 * 2 ^ 31 := by
  have hq := qty.toNat_lt
  have hlow := Int32.le_toInt i.positionInfo.position
  have hhigh := Int32.toInt_lt i.positionInfo.position
  rw [positionAfter]
  rcases hs with rfl | rfl
  · rw [toInt_sideToValue_buy]
    exact abs_lt.2 ⟨by omega, by omega⟩
  · rw [toInt_sideToValue_sell]
    exact abs_lt.2 ⟨by omega, by omega⟩

omit [LT F] [DecidableLT F] in
/-- **The position check** in 32 bits. -/
theorem RiskInfo.abs_le_iff (i : RiskInfo F) {side : Side} (hs : side = .buy ∨ side = .sell)
    (qty : Qty) :
    ((i.positionInfo.position + sideToValue side * qty.toInt32).abs ≤
        i.riskCfg.maxPosition.toInt32 ↔
      |i.positionAfter side qty| ≤ i.riskCfg.maxPosition.toNat) ↔ i.Faithful side qty := by
  have hlimit := toInt_toInt32_cases i.riskCfg.maxPosition
  have hlimit' := i.riskCfg.maxPosition.toNat_lt
  have habs := abs_toInt_of_bmod (toInt_add_mul i.positionInfo.position (sideToValue side) qty)
    (i.abs_positionAfter_lt hs qty)
  rw [← positionAfter] at habs
  rw [Int32.le_iff_toInt_le, Faithful]
  have hafter := abs_nonneg (i.positionAfter side qty)
  have hdiff := abs_nonneg (|i.positionAfter side qty| - 2 ^ 32)
  rcases hlimit with ⟨hM, hm⟩ | ⟨hM, hm⟩ <;> rw [hm]
  all_goals
    rcases habs with ⟨hN, hA⟩ | ⟨hN, hA⟩ | ⟨hN, hA⟩ <;> rw [hA] <;> omega

/-- **The check means what its limits say** exactly if the order is refused anyway, or 32 bits
compare the position with its limit as the integers do. -/
theorem RiskInfo.allowed_iff_fits_iff (i : RiskInfo F) {side : Side}
    (hs : side = .buy ∨ side = .sell) (qty : Qty) :
    (i.checkPreTradeRisk side qty = .allowed ↔ i.Fits side qty) ↔
      i.Refused qty ∨ i.Faithful side qty := by
  rw [← i.abs_le_iff hs qty, checkPreTradeRisk]
  by_cases hsize : qty > i.riskCfg.maxOrderSize
  · rw [if_pos hsize]
    exact iff_of_true (iff_of_false (by simp) fun h => UInt32.not_lt.2 h.size hsize)
      (Or.inl (Or.inl hsize))
  rw [if_neg hsize]
  by_cases hloss : i.positionInfo.totalPnL < i.riskCfg.maxLoss
  · rw [if_pos hloss]
    refine iff_of_true (iff_of_false ?_ fun h => h.loss hloss) (Or.inl (Or.inr hloss))
    split <;> simp
  rw [if_neg hloss]
  have hrefused : ¬ i.Refused qty := fun h => h.elim hsize hloss
  rw [or_iff_right hrefused]
  have hfits : i.Fits side qty ↔ |i.positionAfter side qty| ≤ i.riskCfg.maxPosition.toNat :=
    ⟨fun h => h.position, fun h => ⟨UInt32.not_lt.1 hsize, h, hloss⟩⟩
  rw [hfits, ← Int32.not_lt]
  refine iff_congr ?_ Iff.rfl
  split
  · next h => exact iff_of_false (by simp) (not_not_intro h)
  · next h => exact iff_of_true rfl h

/-- No position, and a limit of 10. -/
def flatInfo : RiskInfo ℚ where
  positionInfo := { openVwap := fun _ => 0, volume := 0 }
  riskCfg := { maxOrderSize := qtyInvalid, maxPosition := 10, maxLoss := -100 }

theorem allowed_iff_fits_flatInfo :
    flatInfo.checkPreTradeRisk .buy 5 = .allowed ↔ flatInfo.Fits .buy 5 :=
  (flatInfo.allowed_iff_fits_iff (Or.inl rfl) 5).2
    (Or.inr (Or.inl ⟨by decide, Or.inl (by decide)⟩))

/-- A quantity that is negative as a signed integer slips through. -/
theorem not_allowed_iff_fits : ¬ ∀ (i : RiskInfo ℚ) (side : Side), side = .buy ∨ side = .sell →
    ∀ qty, i.checkPreTradeRisk side qty = .allowed ↔ i.Fits side qty := by
  intro h
  have hfits := (h flatInfo .buy (Or.inl rfl) 4294967295).1 rfl
  exact absurd hfits.position (by decide)

end Trading
end TradingEcosystem
