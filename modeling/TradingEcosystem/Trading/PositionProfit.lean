import TradingEcosystem.Lib.Along
import TradingEcosystem.Trading.FillOutcome
import Mathlib.Algebra.Order.Field.Rat
import Mathlib.Tactic.FieldSimp
import Mathlib.Tactic.Ring
import Mathlib.Tactic.LinearCombination
import Mathlib.Tactic.Linarith

/-!
# Profit and cash

What fills do to the profit of a position, with rational numbers for `double`.  A position has cost
what its open side shows (`PositionInfo.cost`), and an account balances when the realized profit
less that cost is the money received less the money paid (`Account.Balanced`).

A fill keeps the balance exactly when `addFill` sees whether it changes the sign of the position
(`SeesSign`): it looks at the sign of the product of the new and the old position, and the product
is a 32-bit integer.
-/

set_option autoImplicit false

namespace TradingEcosystem
namespace Trading
namespace PositionInfo

/-! ## Fills in range -/

/-- The side of a fill as a sign. -/
def direction (r : MEClientResponse) : Int := (sideToValue r.side).toInt

/-- The position after a fill, over the integers. -/
def netAfter (p : PositionInfo ℚ) (r : MEClientResponse) : Int :=
  p.position.toInt + direction r * r.execQty.toNat

/-- A fill that leaves the quantities in range: it is a `BUY` or a `SELL`, it and the position after
it are below `2 ^ 31`, and its price times quantity fits in 64 bits. -/
structure InRange (p : PositionInfo ℚ) (r : MEClientResponse) : Prop where
  side : r.side = .buy ∨ r.side = .sell
  qty : r.execQty.toNat < 2 ^ 31
  position : |p.netAfter r| < 2 ^ 31
  product : r.execQty.toNat * r.price.toNat < 2 ^ 64

variable {p : PositionInfo ℚ} {r : MEClientResponse}

theorem InRange.direction_eq (h : InRange p r) :
    direction r = 1 ∨ direction r = -1 := by
  rcases h.side with hs | hs
  · exact Or.inl (by rw [direction, hs, toInt_sideToValue_buy])
  · exact Or.inr (by rw [direction, hs, toInt_sideToValue_sell])

theorem InRange.toInt_newPosition (h : InRange p r) : (p.newPosition r).toInt = p.netAfter r :=
  toInt_add_mul_of_lt h.position

theorem toInt_mul_direction (ho : |p.position.toInt| < 2 ^ 31) (h : InRange p r) :
    (p.position * sideToValue r.side).toInt = p.position.toInt * direction r := by
  obtain ⟨hlow, hhigh⟩ := abs_lt.1 ho
  rw [Int32.toInt_mul, ← direction]
  rcases h.direction_eq with hd | hd <;> rw [hd] <;> exact Int.bmod_eq_of_le (by omega) (by omega)

theorem InRange.against_iff (h : InRange p r) (ho : |p.position.toInt| < 2 ^ 31) :
    p.Against r ↔ p.position.toInt * direction r < 0 := by
  rw [Against, ge_iff_le, Int32.le_iff_toInt_le, toInt_mul_direction ho h, Int32.toInt_zero,
    not_le]

theorem InRange.flips_iff (h : InRange p r) :
    p.Flips r ↔ (p.netAfter r * p.position.toInt).bmod (2 ^ 32) < 0 := by
  rw [Flips, Int32.lt_iff_toInt_lt, Int32.toInt_mul, h.toInt_newPosition, Int32.toInt_zero]

theorem ofInt32_abs {x : Int32} (h : |x.toInt| < 2 ^ 31) :
    (ofInt32 x.abs : ℚ) = |(x.toInt : ℚ)| := by
  rw [ofInt32, toInt_abs h, Int.cast_abs]

theorem InRange.toInt_closedQty (h : InRange p r) (ho : |p.position.toInt| < 2 ^ 31) :
    (p.closedQty r).toInt = min (r.execQty.toNat : Int) |p.position.toInt| := by
  have hqty := h.qty
  have hmin : p.closedQty r = if r.execQty.toInt32 ≤ p.position.abs then r.execQty.toInt32
    else p.position.abs := rfl
  have hq : r.execQty.toInt32.toInt = r.execQty.toNat := by
    rw [toInt_toInt32]
    exact Int.bmod_eq_of_le (by omega) (by omega)
  rw [hmin, ← hq, ← toInt_abs ho]
  split
  · next hle => exact (min_eq_left (Int32.le_iff_toInt_le.1 hle)).symm
  · next hle =>
    have hge := (Int32.le_total _ _).resolve_left hle
    exact (min_eq_right (Int32.le_iff_toInt_le.1 hge)).symm

theorem InRange.ofUInt64_product (h : InRange p r) :
    (ofUInt64 (r.execQty.toUInt64 * r.price) : ℚ) = r.execQty.toNat * r.price.toNat := by
  rw [ofUInt64, UInt64.toNat_mul, UInt32.toNat_toUInt64, Nat.mod_eq_of_lt h.product]
  push_cast
  rfl

/-- `price_ * std::abs(position_)` is unsigned and may wrap. -/
theorem ofUInt64_mul_abs (price : Price) {x : Int32} (h : |x.toInt| < 2 ^ 31) :
    (ofUInt64 (price * x.abs.toInt64.toUInt64) : ℚ) =
      ((price.toNat * x.toInt.natAbs % 2 ^ 64 : Nat) : ℚ) := by
  have habs := toInt_abs h
  have hsize : x.abs.toInt64.toUInt64.toNat = x.toInt.natAbs := by
    have hnonneg : (0 : Int64) ≤ x.abs.toInt64 := by
      rw [Int64.le_iff_toInt_le, Int32.toInt_toInt64, habs]
      exact abs_nonneg _
    rw [Int64.toNat_toUInt64_of_le hnonneg, Int64.toNatClampNeg, Int32.toInt_toInt64, habs,
      ← Int.natCast_natAbs, Int.toNat_natCast]
  rw [ofUInt64, UInt64.toNat_mul, hsize]
  exact Int.cast_natCast _

/-! ## The cost of the open position -/

/-- What the open position has cost; for a short one it is what was received, and negative. -/
def cost (p : PositionInfo ℚ) : ℚ := p.openVwap (sideToIndex .buy) - p.openVwap (sideToIndex .sell)

/-- Only the side of the position has a cost, and neither when it is flat. -/
structure OneSided (p : PositionInfo ℚ) : Prop where
  sell : 0 ≤ p.position.toInt → p.openVwap (sideToIndex .sell) = 0
  buy : p.position.toInt ≤ 0 → p.openVwap (sideToIndex .buy) = 0

/-- `p'` is `p` settled for the fill: realized profit less cost changes by what was paid or
received. -/
structure Settles (p : PositionInfo ℚ) (r : MEClientResponse) (p' : PositionInfo ℚ) : Prop where
  oneSided : OneSided p'
  cash : p'.realPnL - p'.cost = p.realPnL - p.cost - direction r * (r.execQty.toNat * r.price.toNat)

theorem InRange.index_ne (h : InRange p r) : sideToIndex r.side ≠ oppositeIndex r.side := by
  rcases h.side with hs | hs <;> rw [hs] <;> decide

theorem InRange.index_le (h : InRange p r) : sideToIndex r.side ≤ sideToIndex .max := by
  rcases h.side with hs | hs <;> rw [hs] <;> decide

/-- The cost by the side of a fill. -/
theorem InRange.cost_eq (h : InRange p r) (q : PositionInfo ℚ) :
    q.cost = direction r *
      (q.openVwap (sideToIndex r.side) - q.openVwap (oppositeIndex r.side)) := by
  rw [cost, direction, oppositeIndex]
  rcases h.side with hs | hs
  · rw [hs, if_pos rfl, toInt_sideToValue_buy]
    push_cast
    ring
  · rw [hs, if_neg (by decide), toInt_sideToValue_sell]
    push_cast
    ring

theorem InRange.oneSided_iff (h : InRange p r) (q : PositionInfo ℚ) : OneSided q ↔
    (0 ≤ q.position.toInt * direction r → q.openVwap (oppositeIndex r.side) = 0) ∧
      (q.position.toInt * direction r ≤ 0 → q.openVwap (sideToIndex r.side) = 0) := by
  rw [direction, oppositeIndex]
  rcases h.side with hs | hs
  · rw [hs, if_pos rfl, toInt_sideToValue_buy, mul_one]
    exact ⟨fun h => ⟨h.sell, h.buy⟩, fun h => ⟨h.1, h.2⟩⟩
  · rw [hs, if_neg (by decide), toInt_sideToValue_sell, mul_neg_one, Left.nonneg_neg_iff,
      Left.neg_nonpos_iff]
    exact ⟨fun h => ⟨h.buy, h.sell⟩, fun h => ⟨h.2, h.1⟩⟩

/-- What a position is worth over its cost. -/
theorem OneSided.worthAt_eq {q : PositionInfo ℚ} {v : UInt64 → ℚ} (h : OneSided q)
    (hv : q.openVwap = cleared q.position v) (ho : |q.position.toInt| < 2 ^ 31) (price : ℚ) :
    worthAt q.position v price = q.position.toInt * price - q.cost := by
  have hsize := ofInt32_abs ho
  rw [worthAt, cost, hv, cleared]
  by_cases hflat : q.position = 0
  · rw [if_pos hflat, if_pos hflat, hflat, Function.update_self,
      Function.update_of_ne (by decide), Function.update_self]
    simp
  have hne : q.position.toInt ≠ 0 := fun h0 => hflat (Int32.toInt_inj.1 h0)
  have hne' : (q.position.toInt : ℚ) ≠ 0 := Int.cast_ne_zero.2 hne
  rw [cleared, if_neg hflat] at hv
  rw [if_neg hflat, if_neg hflat, hsize]
  by_cases hlong : q.position > 0
  · have hpos : 0 < q.position.toInt := Int32.lt_iff_toInt_lt.1 hlong
    have hpos' : (0 : ℚ) < q.position.toInt := Int.cast_pos.2 hpos
    have hsell := h.sell hpos.le
    rw [hv] at hsell
    rw [if_pos hlong, hsell, abs_of_pos hpos', sub_mul, div_mul_cancel₀ _ hne']
    ring
  · have hneg : q.position.toInt < 0 :=
      lt_of_le_of_ne (Int32.le_iff_toInt_le.1 (Int32.not_lt.1 hlong)) hne
    have hneg' : (q.position.toInt : ℚ) < 0 := Int.cast_lt_zero.2 hneg
    have hbuy := h.buy hneg.le
    rw [hv] at hbuy
    rw [if_neg hlong, hbuy, abs_of_neg hneg', sub_mul, div_mul_cancel₀ _ (neg_ne_zero.2 hne')]
    ring

/-! ## The arithmetic of settling

`a` is the size of the old position and `c` what it has cost, `q` the quantity of the fill, `P` its
price and `e` its direction; `R` is the profit so far. -/

section Arithmetic

variable {e a q P c R W : ℚ}

theorem settle_reduced (ha : a ≠ 0) :
    R + q * (c / a - P) * e - e * (0 - c / a * (a - q)) = R - e * (0 - c) - e * (q * P) := by
  field_simp
  ring

theorem settle_flipped (ha : a ≠ 0) :
    R + a * (c / a - P) * e - e * (P * (q - a) - 0) = R - e * (0 - c) - e * (q * P) := by
  field_simp
  ring

theorem settle_flipped_wrong (ha : a ≠ 0) (he : e ≠ 0) (hq : q ≠ a) :
    (W = 0 ∧ R + q * (c / a - P) * e - e * (W - 0) = R - e * (0 - c) - e * (q * P)) ↔
      c = 0 ∧ W = 0 := by
  rw [and_comm]
  refine and_congr_left fun hW => ?_
  rw [hW]
  constructor
  · intro h
    have hprod : e * (a - q) * c = 0 := by
      field_simp at h
      linear_combination -h
    have hne : e * (a - q) ≠ 0 := mul_ne_zero he (sub_ne_zero.2 hq.symm)
    exact (mul_eq_zero.1 hprod).resolve_left hne
  · rintro rfl
    ring

theorem settle_reduced_wrong (ha : a ≠ 0) (he : e ≠ 0) (hq : q ≠ a) :
    (c / a * (q - a) = 0 ∧
      R + a * (c / a - P) * e - e * (0 - c / a * (q - a)) = R - e * (0 - c) - e * (q * P)) ↔
      c = 0 ∧ P = 0 := by
  have hqa : q - a ≠ 0 := sub_ne_zero.2 hq
  rw [mul_eq_zero, or_iff_left hqa, div_eq_zero_iff, or_iff_left ha]
  refine and_congr_right fun hc => ?_
  rw [hc]
  constructor
  · intro h
    have hprod : e * (q - a) * P = 0 := by linear_combination h
    exact (mul_eq_zero.1 hprod).resolve_left (mul_ne_zero he hqa)
  · rintro rfl
    ring

end Arithmetic

/-! ## How a fill settles -/

section Settling

variable {p' : PositionInfo ℚ} {v : UInt64 → ℚ}

theorem InRange.settles_iff (hr : InRange p r) (hposition : p'.position.toInt = p.netAfter r) :
    Settles p r p' ↔
      (0 ≤ p.netAfter r * direction r → p'.openVwap (oppositeIndex r.side) = 0) ∧
      (p.netAfter r * direction r ≤ 0 → p'.openVwap (sideToIndex r.side) = 0) ∧
      p'.realPnL - direction r *
          (p'.openVwap (sideToIndex r.side) - p'.openVwap (oppositeIndex r.side)) =
        p.realPnL - p.cost - direction r * (r.execQty.toNat * r.price.toNat) := by
  rw [← hr.cost_eq, ← hposition, ← and_assoc, ← hr.oneSided_iff]
  exact ⟨fun h => ⟨h.oneSided, h.cash⟩, fun h => ⟨h.1, h.2⟩⟩

/-- Clearing sets both sides of a flat position. -/
theorem InRange.cleared_eq (hr : InRange p r) (position : Int32) (v : UInt64 → ℚ) :
    cleared position v (sideToIndex r.side) = (if position = 0 then 0 else v (sideToIndex r.side)) ∧
      cleared position v (oppositeIndex r.side) =
        if position = 0 then 0 else v (oppositeIndex r.side) := by
  rw [cleared, oppositeIndex]
  by_cases hflat : position = 0
  · rw [if_pos hflat, if_pos hflat, if_pos hflat]
    rcases hr.side with hs | hs <;> rw [hs] <;> simp
  · rw [if_neg hflat, if_neg hflat, if_neg hflat]
    exact ⟨rfl, rfl⟩

/-- A fill that closes the position settles by its profit alone. -/
theorem InRange.settles_iff_of_flat (hr : InRange p r)
    (hposition : p'.position.toInt = p.netAfter r) (hv : p'.openVwap = cleared p'.position v)
    (hflat : p.netAfter r = 0) :
    Settles p r p' ↔ p'.realPnL =
      p.realPnL - p.cost - direction r * (r.execQty.toNat * r.price.toNat) := by
  have h0 : p'.position = 0 := Int32.toInt_inj.1 (hposition.trans hflat)
  obtain ⟨hown, hopp⟩ := hr.cleared_eq p'.position v
  rw [if_pos h0] at hown hopp
  rw [hr.settles_iff hposition, hv, hown, hopp]
  simp

theorem InRange.settles_iff_of_open (hr : InRange p r)
    (hposition : p'.position.toInt = p.netAfter r) (hv : p'.openVwap = cleared p'.position v)
    (hopen : p.netAfter r ≠ 0) :
    Settles p r p' ↔
      (0 < p.netAfter r * direction r → v (oppositeIndex r.side) = 0) ∧
      (p.netAfter r * direction r < 0 → v (sideToIndex r.side) = 0) ∧
      p'.realPnL - direction r *
          (v (sideToIndex r.side) - v (oppositeIndex r.side)) =
        p.realPnL - p.cost - direction r * (r.execQty.toNat * r.price.toNat) := by
  have h0 : p'.position ≠ 0 := fun h => hopen (by rw [← hposition, h, Int32.toInt_zero])
  have hne : p.netAfter r * direction r ≠ 0 := by
    rcases hr.direction_eq with hd | hd <;> rw [hd] <;> omega
  obtain ⟨hown, hopp⟩ := hr.cleared_eq p'.position v
  rw [if_neg h0] at hown hopp
  rw [hr.settles_iff hposition, hv, hown, hopp, le_iff_lt_or_eq, le_iff_lt_or_eq,
    or_iff_left hne, or_iff_left hne.symm]

/-- A fill that opens a position or adds to it settles. -/
theorem OneSided.settles_with (h : OneSided p) (hr : InRange p r)
    (hwith : 0 ≤ p.position.toInt * direction r) (hposition : p'.position.toInt = p.netAfter r)
    (hreal : p'.realPnL = p.realPnL)
    (hv : p'.openVwap = cleared p'.position (Function.update p.openVwap (sideToIndex r.side)
      (p.openVwap (sideToIndex r.side) + r.execQty.toNat * r.price.toNat))) : Settles p r p' := by
  have hside := (hr.oneSided_iff p).1 h
  have hcost := hr.cost_eq p
  have hnet : p.netAfter r * direction r = p.position.toInt * direction r + r.execQty.toNat := by
    rw [netAfter]
    rcases hr.direction_eq with hd | hd <;> rw [hd] <;> ring
  rw [hside.1 hwith] at hcost
  by_cases hflat : p.netAfter r = 0
  · have hq : r.execQty.toNat = 0 := by
      rw [hflat, zero_mul] at hnet
      omega
    have ho : p.position.toInt * direction r ≤ 0 := by
      rw [hflat, zero_mul] at hnet
      omega
    rw [hr.settles_iff_of_flat hposition hv hflat, hreal, hcost, hside.2 ho, hq]
    simp
  · rw [hr.settles_iff_of_open hposition hv hflat, Function.update_self,
      Function.update_of_ne hr.index_ne.symm, hside.1 hwith, hreal, hcost]
    refine ⟨fun _ => rfl, fun hneg => ?_, by ring⟩
    omega

/-- The profit a fill against the position realizes. -/
def gain (p : PositionInfo ℚ) (r : MEClientResponse) (closed : ℤ) : ℚ :=
  closed * (p.openVwap (oppositeIndex r.side) / |(p.position.toInt : ℚ)| - r.price.toNat) *
    direction r

theorem InRange.netAfter_mul (hr : InRange p r)
    (hagainst : p.position.toInt * direction r < 0) :
    |p.position.toInt| = -(p.position.toInt * direction r) ∧
      p.netAfter r * direction r = r.execQty.toNat - |p.position.toInt| := by
  have habs : |p.position.toInt| = -(p.position.toInt * direction r) := by
    rcases hr.direction_eq with hd | hd <;> rw [hd] at hagainst ⊢
    · rw [abs_of_neg (by omega)]; ring
    · rw [abs_of_pos (by omega)]; ring
  refine ⟨habs, ?_⟩
  rw [habs, netAfter]
  rcases hr.direction_eq with hd | hd <;> rw [hd] <;> ring

theorem InRange.direction_ne (hr : InRange p r) : (direction r : ℚ) ≠ 0 := by
  rcases hr.direction_eq with hd | hd <;> rw [hd] <;> simp

theorem abs_position_ne (hagainst : p.position.toInt * direction r < 0) :
    |(p.position.toInt : ℚ)| ≠ 0 := by
  refine abs_ne_zero.2 (Int.cast_ne_zero.2 fun h => ?_)
  rw [h, zero_mul] at hagainst
  exact lt_irrefl _ hagainst

/-- The new position by its size. -/
theorem InRange.netAfter_size (hr : InRange p r)
    (hagainst : p.position.toInt * direction r < 0) :
    ((p.netAfter r).natAbs : ℤ) = |(r.execQty.toNat : ℤ) - (|p.position.toInt|)| ∧
      (p.netAfter r * p.position.toInt < 0 ↔ |p.position.toInt| < r.execQty.toNat) ∧
      (p.netAfter r = 0 ↔ (r.execQty.toNat : ℤ) = |p.position.toInt|) := by
  obtain ⟨habs, hnet⟩ := hr.netAfter_mul hagainst
  have hpos : 0 < |p.position.toInt| := by omega
  rcases hr.direction_eq with hd | hd <;> rw [hd] at hnet hagainst habs
  · have ho : p.position.toInt = -|p.position.toInt| := by omega
    have hn : p.netAfter r = r.execQty.toNat - |p.position.toInt| := by omega
    refine ⟨by rw [Int.natCast_natAbs, hn], ?_, by omega⟩
    rw [mul_neg_iff]
    omega
  · have hn : p.netAfter r = -(r.execQty.toNat - |p.position.toInt|) := by omega
    refine ⟨by rw [Int.natCast_natAbs, hn, abs_neg], ?_, by omega⟩
    rw [mul_neg_iff]
    omega

/-- What the products of a fill that changes the sign come to. -/
theorem InRange.paid_eq (hr : InRange p r) (hagainst : p.position.toInt * direction r < 0)
    (hflip : |p.position.toInt| < r.execQty.toNat) :
    ((r.price.toNat * (p.netAfter r).natAbs % 2 ^ 64 : ℕ) : ℚ) =
      r.price.toNat * (r.execQty.toNat - |(p.position.toInt : ℚ)|) := by
  obtain ⟨hsize, -⟩ := hr.netAfter_size hagainst
  rw [abs_of_pos (sub_pos.2 hflip)] at hsize
  have hle : (p.netAfter r).natAbs ≤ r.execQty.toNat := by
    have := abs_nonneg p.position.toInt
    omega
  have hlt : r.price.toNat * (p.netAfter r).natAbs < 2 ^ 64 :=
    (Nat.mul_le_mul_left _ hle).trans_lt (by rw [mul_comm]; exact hr.product)
  have hcast : ((p.netAfter r).natAbs : ℚ) = r.execQty.toNat - |(p.position.toInt : ℚ)| := by
    rw [← Int.cast_natCast, hsize]
    push_cast
    rfl
  rw [Nat.mod_eq_of_lt hlt, Nat.cast_mul, hcast]

/-- A fill against the position that is taken to change its sign. -/
theorem OneSided.settles_flipped_iff (h : OneSided p) (hr : InRange p r)
    (hagainst : p.position.toInt * direction r < 0) (hopen : p.netAfter r ≠ 0)
    (hposition : p'.position.toInt = p.netAfter r)
    (hreal : p'.realPnL = p.realPnL + p.gain r (min (r.execQty.toNat : ℤ) |p.position.toInt|))
    (hv : p'.openVwap = cleared p'.position v)
    (hown : v (sideToIndex r.side) = (r.price.toNat * (p.netAfter r).natAbs % 2 ^ 64 : ℕ))
    (hopp : v (oppositeIndex r.side) = 0) :
    Settles p r p' ↔ p.netAfter r * p.position.toInt < 0 ∨
      p.openVwap (oppositeIndex r.side) = 0 ∧
        r.price.toNat * (p.netAfter r).natAbs % 2 ^ 64 = 0 := by
  have hside := (hr.oneSided_iff p).1 h
  have hcost := hr.cost_eq p
  rw [hside.2 hagainst.le] at hcost
  obtain ⟨habs, hnet⟩ := hr.netAfter_mul hagainst
  obtain ⟨-, hsign, hzero⟩ := hr.netAfter_size hagainst
  have hsize : 0 < |p.position.toInt| := by omega
  have ha := abs_position_ne hagainst
  have he := hr.direction_ne
  rw [hr.settles_iff_of_open hposition hv hopen, hown, hopp, hreal, hcost, gain, hsign, hnet]
  by_cases hflip : |p.position.toInt| < r.execQty.toNat
  · rw [min_eq_right hflip.le, hr.paid_eq hagainst hflip, Int.cast_abs]
    refine iff_of_true ⟨fun _ => rfl, fun hneg => ?_, settle_flipped ha⟩ (Or.inl hflip)
    omega
  · have hlt : (r.execQty.toNat : ℤ) < |p.position.toInt| :=
      lt_of_le_of_ne (not_lt.1 hflip) (mt hzero.2 hopen)
    have hq : (r.execQty.toNat : ℚ) ≠ |(p.position.toInt : ℚ)| := by
      rw [← Int.cast_abs]
      exact_mod_cast hlt.ne
    rw [min_eq_left hlt.le, or_iff_right hflip, ← Nat.cast_eq_zero (R := ℚ), Int.cast_natCast,
      ← settle_flipped_wrong ha he hq]
    exact ⟨fun hs => ⟨hs.2.1 (by omega), hs.2.2⟩, fun hs => ⟨fun _ => rfl, fun _ => hs.1, hs.2⟩⟩

/-- A fill against the position that is taken to keep its sign. -/
theorem OneSided.settles_reduced_iff (h : OneSided p) (hr : InRange p r)
    (hagainst : p.position.toInt * direction r < 0)
    (hposition : p'.position.toInt = p.netAfter r)
    (hreal : p'.realPnL = p.realPnL + p.gain r (min (r.execQty.toNat : ℤ) |p.position.toInt|))
    (hv : p'.openVwap = cleared p'.position v)
    (hown : v (sideToIndex r.side) = p.openVwap (sideToIndex r.side))
    (hopp : v (oppositeIndex r.side) =
      p.openVwap (oppositeIndex r.side) / |(p.position.toInt : ℚ)| * |(p.netAfter r : ℚ)|) :
    Settles p r p' ↔ ¬ p.netAfter r * p.position.toInt < 0 ∨
      p.openVwap (oppositeIndex r.side) = 0 ∧
        r.price.toNat * (p.netAfter r).natAbs % 2 ^ 64 = 0 := by
  have hside := (hr.oneSided_iff p).1 h
  have hcost := hr.cost_eq p
  rw [hside.2 hagainst.le] at hcost hown
  obtain ⟨habs, hnet⟩ := hr.netAfter_mul hagainst
  obtain ⟨hnatAbs, hsign, hzero⟩ := hr.netAfter_size hagainst
  rw [Int.natCast_natAbs] at hnatAbs
  have hsize : 0 < |p.position.toInt| := by omega
  have ha := abs_position_ne hagainst
  have he := hr.direction_ne
  have hkept : |(p.netAfter r : ℚ)| = |(r.execQty.toNat : ℚ) - (|(p.position.toInt : ℚ)|)| := by
    rw [← Int.cast_abs, hnatAbs]
    push_cast
    rfl
  rcases lt_trichotomy (r.execQty.toNat : ℤ) |p.position.toInt| with hlt | heq | hgt
  · have hlt' : (r.execQty.toNat : ℚ) - |(p.position.toInt : ℚ)| < 0 := by
      rw [← Int.cast_abs]
      exact_mod_cast sub_neg.2 hlt
    rw [hr.settles_iff_of_open hposition hv (mt hzero.1 hlt.ne), hown, hopp, hreal, hcost, gain,
      hsign, hnet, hkept, abs_of_neg hlt', neg_sub, min_eq_left hlt.le, Int.cast_natCast]
    exact iff_of_true ⟨fun hpos => absurd hpos (by omega), fun _ => rfl, settle_reduced ha⟩
      (Or.inl (by omega))
  · have hclosed := settle_reduced (q := |(p.position.toInt : ℚ)|) (P := r.price.toNat)
      (c := p.openVwap (oppositeIndex r.side)) (e := direction r) (R := p.realPnL) ha
    rw [sub_self, mul_zero, sub_zero, mul_zero, sub_zero] at hclosed
    have hqty : (r.execQty.toNat : ℚ) = |(p.position.toInt : ℚ)| := by
      rw [← Int.cast_abs, ← heq, Int.cast_natCast]
    rw [hr.settles_iff_of_flat hposition hv (hzero.2 heq), hreal, hcost, gain, hsign,
      min_eq_right heq.ge, Int.cast_abs, hqty]
    exact iff_of_true hclosed (Or.inl (by omega))
  · have hgt' : 0 < (r.execQty.toNat : ℚ) - |(p.position.toInt : ℚ)| := by
      rw [← Int.cast_abs]
      exact_mod_cast sub_pos.2 hgt
    have hq : (r.execQty.toNat : ℚ) ≠ |(p.position.toInt : ℚ)| := (sub_pos.1 hgt').ne'
    have hpaid : r.price.toNat * (p.netAfter r).natAbs % 2 ^ 64 = 0 ↔ (r.price.toNat : ℚ) = 0 := by
      rw [← Nat.cast_eq_zero (R := ℚ), hr.paid_eq hagainst hgt, mul_eq_zero,
        or_iff_left hgt'.ne']
    rw [hr.settles_iff_of_open hposition hv (mt hzero.1 hgt.ne'), hown, hopp, hreal, hcost, gain,
      hsign, hnet, hkept, abs_of_pos hgt', min_eq_right hgt.le, Int.cast_abs,
      or_iff_right (not_not.2 hgt), hpaid, ← settle_reduced_wrong ha he hq]
    exact ⟨fun hs => ⟨hs.1 (by omega), hs.2.2⟩, fun hs => ⟨fun _ => hs.1, fun _ => rfl, hs.2⟩⟩

end Settling

/-- **The condition.**  If the fill is against the position, the product of the new and the old
position has its sign also as a 32-bit integer; or else the position was free and what the new one
has cost wraps to nothing. -/
def SeesSign (p : PositionInfo ℚ) (r : MEClientResponse) : Prop :=
  p.position.toInt * direction r < 0 →
    ((p.netAfter r * p.position.toInt).bmod (2 ^ 32) < 0 ↔ p.netAfter r * p.position.toInt < 0) ∨
      p.openVwap (oppositeIndex r.side) = 0 ∧
        r.price.toNat * (p.netAfter r).natAbs % 2 ^ 64 = 0

theorem InRange.toInt_position (hr : InRange p r) {p' : PositionInfo ℚ}
    (hfill : p.addFill r = .ok p') : p'.position.toInt = p.netAfter r := by
  rw [position_addFill hfill]
  exact hr.toInt_newPosition

/-- After a fill that settles, the unrealized profit is what the position is worth at the price of
the fill over its cost. -/
theorem Settles.unrealPnL_eq {p' : PositionInfo ℚ} (hs : Settles p r p') (hr : InRange p r)
    (hfill : p.addFill r = .ok p') :
    p'.unrealPnL = p'.position.toInt * r.price.toNat - p'.cost := by
  have hposition := hr.toInt_position hfill
  rw [p.addFill_eq hr.index_le] at hfill
  obtain rfl := Except.ok.inj hfill
  exact hs.oneSided.worthAt_eq rfl (hposition ▸ hr.position) _

/-- **What a fill settles.** -/
theorem OneSided.settles_iff_seesSign (h : OneSided p) (hr : InRange p r)
    (ho : |p.position.toInt| < 2 ^ 31) {p' : PositionInfo ℚ} (hfill : p.addFill r = .ok p') :
    Settles p r p' ↔ SeesSign p r := by
  rw [p.addFill_eq hr.index_le] at hfill
  obtain rfl := Except.ok.inj hfill
  have hnet := hr.toInt_newPosition
  by_cases hagainst : p.Against r
  · have hneg := (hr.against_iff ho).1 hagainst
    have hreal : p.realAfter r =
        p.realPnL + p.gain r (min (r.execQty.toNat : ℤ) |p.position.toInt|) := by
      rw [realAfter, if_pos hagainst, gain, ofInt32, hr.toInt_closedQty ho, entryPrice,
        ofInt32_abs ho]
      rfl
    have hsigned : SeesSign p r ↔
        (p.Flips r ↔ p.netAfter r * p.position.toInt < 0) ∨
          p.openVwap (oppositeIndex r.side) = 0 ∧
            r.price.toNat * (p.netAfter r).natAbs % 2 ^ 64 = 0 := by
      rw [SeesSign, hr.flips_iff]
      exact forall_prop_of_true hneg
    by_cases hflips : p.Flips r
    · have hopen : p.netAfter r ≠ 0 := by
        intro hflat
        have hwrap := hr.flips_iff.1 hflips
        rw [hflat, zero_mul] at hwrap
        exact absurd hwrap (by decide)
      rw [hsigned, iff_true_left hflips]
      refine h.settles_flipped_iff hr hneg hopen hnet hreal rfl ?_ ?_
      · rw [vwapAfter, if_pos hagainst]
        rw [if_pos hflips, Function.update_of_ne hr.index_ne, Function.update_self,
          ofUInt64_mul_abs _ (hnet ▸ hr.position), hnet]
      · rw [vwapAfter, if_pos hagainst]
        rw [if_pos hflips, Function.update_self, Int.cast_zero]
    · rw [hsigned, iff_false_left hflips]
      refine h.settles_reduced_iff hr hneg hnet hreal rfl ?_ ?_
      · rw [vwapAfter, if_pos hagainst]
        rw [if_neg hflips, Function.update_of_ne hr.index_ne]
      · rw [vwapAfter, if_pos hagainst]
        rw [if_neg hflips, Function.update_self, entryPrice, ofInt32_abs ho,
          ofInt32_abs (hnet ▸ hr.position), hnet]
  · have hwith : ¬ p.position.toInt * direction r < 0 := mt (hr.against_iff ho).2 hagainst
    refine iff_of_true (h.settles_with hr (not_lt.1 hwith) hnet (if_neg hagainst) ?_)
      fun hneg => absurd hneg hwith
    rw [filled, vwapAfter, if_neg hagainst, hr.ofUInt64_product]

end PositionInfo

/-! ## Balanced accounts -/

/-- A position and the fills it has taken. -/
structure Account where
  info : PositionInfo ℚ
  fills : List MEClientResponse := []

namespace Account

open PositionInfo

/-- `addFill`, with the fill kept. -/
def fill (x : Account) (r : MEClientResponse) : Except Fault Account := do
  let info ← x.info.addFill r
  return { info, fills := x.fills ++ [r] }

/-- The executed quantity of a fill, negative for a `SELL`. -/
def signedQty (r : MEClientResponse) : Int := direction r * r.execQty.toNat

/-- What a fill pays in: a `SELL` is paid for, a `BUY` pays. -/
def cashFlow (r : MEClientResponse) : ℚ := -(direction r * (r.execQty.toNat * r.price.toNat))

/-- The signed sum of the executed quantities. -/
def netQty (x : Account) : Int := (x.fills.map signedQty).sum

/-- The net cash flow of the fills. -/
def cash (x : Account) : ℚ := (x.fills.map cashFlow).sum

/-- **What a balanced account is.** -/
structure Balanced (x : Account) : Prop where
  position : x.info.position.toInt = x.netQty
  cash : x.info.realPnL + x.info.openVwap (sideToIndex .sell) -
    x.info.openVwap (sideToIndex .buy) = x.cash
  oneSided : x.info.OneSided
  worth : ∀ r ∈ x.fills.getLast?, x.info.realPnL + x.info.unrealPnL =
    x.cash + x.info.position.toInt * r.price.toNat

/-- A fill takes the account to another one. -/
def Next (x : Account) (r : MEClientResponse) (x' : Account) : Prop := x.fill r = .ok x'

/-- The account takes the fill and is balanced after it. -/
def KeepsBalance (x : Account) (r : MEClientResponse) : Prop :=
  ∃ x', x.fill r = .ok x' ∧ Balanced x'

/-- A position nothing has been filled for; its volume is whatever was in memory. -/
def start (volume : Qty) : Account := { info := { openVwap := fun _ => 0, volume } }

/-- The response to a fill. -/
def fillOf (side : Side) (execQty : Qty) (price : Price) : MEClientResponse :=
  { type := .filled, side, execQty, price }

variable {x x' : Account} {r : MEClientResponse}

theorem fill_eq_ok {p' : PositionInfo ℚ} (h : x.info.addFill r = .ok p') :
    x.fill r = .ok { info := p', fills := x.fills ++ [r] } := by
  rw [fill, h, ok_bind, pure_eq_ok]

theorem Next.addFill (h : Next x r x') : x.info.addFill r = .ok x'.info := by
  obtain ⟨p', hfill, h⟩ := bind_eq_ok.1 h
  obtain rfl := Except.ok.inj h
  exact hfill

theorem balanced_start (volume : Qty) : Balanced (start volume) where
  position := rfl
  cash := by simp [start, Account.cash]
  oneSided := ⟨fun _ => rfl, fun _ => rfl⟩
  worth := by simp [start]

theorem start_position_lt (volume : Qty) : |(start volume).info.position.toInt| < 2 ^ 31 := by
  rw [show (start volume).info.position = 0 from rfl]
  decide

/-- A balanced account stays balanced when the fill settles. -/
theorem Balanced.fill_iff (h : Balanced x) (hr : InRange x.info r) {p' : PositionInfo ℚ}
    (hfill : x.info.addFill r = .ok p') :
    Balanced { info := p', fills := x.fills ++ [r] } ↔ Settles x.info r p' := by
  have hcash : Account.cash { info := p', fills := x.fills ++ [r] } = x.cash + cashFlow r := by
    rw [Account.cash, List.map_append, List.sum_append, List.map_singleton, List.sum_singleton,
      Account.cash]
  have hbefore := h.cash
  constructor
  · intro h'
    have hafter := h'.cash
    refine ⟨h'.oneSided, ?_⟩
    rw [hcash, cashFlow] at hafter
    rw [cost, cost]
    dsimp only at hafter
    linear_combination hafter - hbefore
  · intro hs
    have hposition := hr.toInt_position hfill
    have hafter : p'.realPnL - p'.cost = x.cash + cashFlow r := by
      rw [hs.cash, cashFlow, cost]
      linear_combination hbefore
    have hunreal := hs.unrealPnL_eq hr hfill
    refine ⟨?_, ?_, hs.oneSided, ?_⟩
    · rw [hposition, netQty, List.map_append, List.sum_append, List.map_singleton,
        List.sum_singleton, netAfter, h.position, netQty, signedQty]
    · rw [hcash, ← hafter, cost]
      ring
    · intro last hlast
      rw [List.getLast?_concat] at hlast
      obtain rfl := Option.some.inj hlast
      dsimp only
      rw [hunreal, hcash, ← hafter]
      ring

/-- **What keeps the balance.** -/
theorem Balanced.keepsBalance_iff (h : Balanced x) (ho : |x.info.position.toInt| < 2 ^ 31)
    (hr : InRange x.info r) : KeepsBalance x r ↔ SeesSign x.info r := by
  have hfill := x.info.addFill_eq hr.index_le
  rw [← h.oneSided.settles_iff_seesSign hr ho hfill, ← h.fill_iff hr hfill, KeepsBalance,
    fill_eq_ok hfill]
  constructor
  · rintro ⟨x', hx', hbalanced⟩
    rwa [Except.ok.inj hx']
  · exact fun hbalanced => ⟨_, rfl, hbalanced⟩

/-- Along fills in range, the profit balances exactly as long as `addFill` sees the sign of every
change of position. -/
theorem keepsBalance_along_iff (volume : Qty) (fills : List MEClientResponse)
    (hr : Run.Along Next (fun x r => InRange x.info r) (start volume) fills) :
    Run.Along Next KeepsBalance (start volume) fills ↔
      Run.Along Next (fun x r => SeesSign x.info r) (start volume) fills := by
  refine Run.along_congr (fun x => Balanced x ∧ |x.info.position.toInt| < 2 ^ 31)
    (fun x r => InRange x.info r) (fun x r hx hv => hx.1.keepsBalance_iff hx.2 hv) ?_
    ⟨balanced_start volume, start_position_lt volume⟩ hr
  intro x r x' ⟨hbalanced, ho⟩ hv hsees hnext
  obtain ⟨x'', hx'', hbalanced'⟩ := (hbalanced.keepsBalance_iff ho hv).2 hsees
  obtain rfl : x' = x'' := Except.ok.inj (hnext.symm.trans hx'')
  refine ⟨hbalanced', ?_⟩
  rw [hv.toInt_position hnext.addFill]
  exact hv.position

/-- Ten bought, four sold at a loss. -/
theorem keepsBalance_along_bought_sold :
    Run.Along Next KeepsBalance (start 7) [fillOf .buy 10 100, fillOf .sell 4 90] := by
  have hr : Run.Along Next (fun x r => InRange x.info r) (start 7)
      [fillOf .buy 10 100, fillOf .sell 4 90] := by
    refine ⟨⟨Or.inl rfl, by decide, by decide, by decide⟩, fun x hx => ⟨?_, fun _ _ => trivial⟩⟩
    have hposition : x.info.position = 10 := position_addFill hx.addFill
    refine ⟨Or.inr rfl, by decide, ?_, by decide⟩
    rw [netAfter, hposition]
    decide
  refine (keepsBalance_along_iff 7 _ hr).2 ⟨fun hneg => absurd hneg (by decide), fun x hx =>
    ⟨fun _ => Or.inl ?_, fun _ _ => trivial⟩⟩
  have hposition : x.info.position = 10 := position_addFill hx.addFill
  rw [netAfter, hposition]
  decide

/-- With 50000 bought, one sold is taken to change the sign of the position: 49999 times 50000 is
negative as a 32-bit integer. -/
theorem not_keepsBalance_along : ¬ ∀ (volume : Qty) (fills : List MEClientResponse),
    Run.Along Next (fun x r => InRange x.info r) (start volume) fills →
      Run.Along Next KeepsBalance (start volume) fills := by
  intro h
  have hbuy : InRange (start 0).info (fillOf .buy 50000 10) :=
    ⟨Or.inl rfl, by decide, by decide, by decide⟩
  have hsell : ∀ x, Next (start 0) (fillOf .buy 50000 10) x →
      InRange x.info (fillOf .sell 1 10) := by
    intro x hx
    have hposition : x.info.position = 50000 := position_addFill hx.addFill
    refine ⟨Or.inr rfl, by decide, ?_, by decide⟩
    rw [netAfter, hposition]
    decide
  obtain ⟨⟨x, hx, hbalanced⟩, hkeeps⟩ := h 0 [fillOf .buy 50000 10, fillOf .sell 1 10]
    ⟨hbuy, fun x hx => ⟨hsell x hx, fun _ _ => trivial⟩⟩
  have hposition : x.info.position = 50000 := position_addFill (Next.addFill hx)
  have hsees := (hbalanced.keepsBalance_iff (by rw [hposition]; decide) (hsell x hx)).1
    (hkeeps x hx).1
  rw [SeesSign, netAfter, hposition] at hsees
  rcases hsees (by decide) with hsign | ⟨-, hwrap⟩
  · exact absurd hsign (by decide)
  · exact absurd hwrap (by decide)

end Account

end Trading
end TradingEcosystem
