import TradingEcosystem.Trading.PositionProfit

/-!
# Total profit

`total_PnL_` is set in two places.  `updateBBO` adds the realized to the unrealized profit, and only
while a position is open; `addFill` adds the unrealized profit to itself.  So the total is right
after a fill only where the fill leaves both profits equal: `HalfRealized` says so of the position
before the fill, and `agrees_along` of whole runs.
-/

set_option autoImplicit false

namespace TradingEcosystem
namespace Trading
namespace PositionInfo

/-- The total is the realized and the unrealized profit together. -/
def Agrees (p : PositionInfo ℚ) : Prop := p.totalPnL = p.realPnL + p.unrealPnL

/-- What the position is worth at a price over what it has cost. -/
def gainAt (p : PositionInfo ℚ) (price : ℚ) : ℚ := p.position.toInt * price - p.cost

/-- The share of the position that a fill closes. -/
def closedShare (p : PositionInfo ℚ) (r : MEClientResponse) : ℚ :=
  if p.position.toInt * direction r < 0 then
    (min (r.execQty.toNat : ℤ) |p.position.toInt| : ℤ) / |(p.position.toInt : ℚ)|
  else 0

/-- **The condition on a fill.**  The profit realized so far is what the position would gain at the
price of the fill, less twice what the fill closes of it: then the profit realized and not realized
after the fill are the same. -/
def HalfRealized (p : PositionInfo ℚ) (r : MEClientResponse) : Prop :=
  p.realPnL = p.gainAt r.price.toNat * (1 - 2 * p.closedShare r)

/-! ## One fill -/

section Fill

variable {p p' : PositionInfo ℚ} {r : MEClientResponse}

/-- A fill realizes the share it closes of what the position gained. -/
theorem OneSided.realAfter_eq (h : OneSided p) (hr : InRange p r)
    (ho : |p.position.toInt| < 2 ^ 31) :
    p.realAfter r = p.realPnL + p.closedShare r * p.gainAt r.price.toNat := by
  rw [realAfter, closedShare]
  by_cases hagainst : p.Against r
  · have hneg := (hr.against_iff ho).1 hagainst
    have ha := abs_position_ne hneg
    obtain ⟨habs, -⟩ := hr.netAfter_mul hneg
    have hcost := hr.cost_eq p
    rw [((hr.oneSided_iff p).1 h).2 hneg.le] at hcost
    have hsize : (p.position.toInt : ℚ) = -(direction r * |(p.position.toInt : ℚ)|) := by
      rw [← Int.cast_abs, habs]
      rcases hr.direction_eq with hd | hd <;> rw [hd] <;> push_cast <;> ring
    rw [if_pos hagainst, if_pos hneg, entryPrice, ofInt32, hr.toInt_closedQty ho, ofInt32_abs ho,
      gainAt, hcost]
    have hprice : (ofUInt64 r.price : ℚ) = r.price.toNat := rfl
    have hdirection : (ofInt32 (sideToValue r.side) : ℚ) = direction r := rfl
    rw [hprice, hdirection]
    generalize ((min (r.execQty.toNat : ℤ) |p.position.toInt| : ℤ) : ℚ) = closed
    have hgain : (p.position.toInt : ℚ) * r.price.toNat =
        -(direction r * |(p.position.toInt : ℚ)|) * r.price.toNat := congrArg (· * _) hsize
    rw [hgain]
    field_simp
    ring
  · have hwith := mt (hr.against_iff ho).2 hagainst
    rw [if_neg hagainst, if_neg hwith, zero_mul, add_zero]

/-- **When the total is right after a fill.** -/
theorem OneSided.agrees_iff (h : OneSided p) (hr : InRange p r) (ho : |p.position.toInt| < 2 ^ 31)
    (hsees : SeesSign p r) (hfill : p.addFill r = .ok p') : Agrees p' ↔ HalfRealized p r := by
  have hs := (h.settles_iff_seesSign hr ho hfill).2 hsees
  have hunreal := hs.unrealPnL_eq hr hfill
  have hcash := hs.cash
  have htotal : p'.totalPnL = p'.unrealPnL + p'.unrealPnL ∧ p'.realPnL = p.realAfter r := by
    rw [p.addFill_eq hr.index_le] at hfill
    obtain rfl := Except.ok.inj hfill
    exact ⟨rfl, rfl⟩
  have hposition : (p'.position.toInt : ℚ) = p.position.toInt + direction r * r.execQty.toNat := by
    rw [hr.toInt_position hfill, netAfter]
    push_cast
    rfl
  rw [hposition] at hunreal
  rw [Agrees, HalfRealized, htotal.1, add_left_inj, hunreal]
  rw [htotal.2, h.realAfter_eq hr ho, gainAt] at hcash ⊢
  constructor
  · intro heq
    linear_combination -heq + hcash
  · intro hhalf
    linear_combination -hhalf + hcash

end Fill

/-! ## Runs of fills and quotes -/

/-- A call takes the position on. -/
def Next (p : PositionInfo ℚ) (c : Call) (p' : PositionInfo ℚ) : Prop := p.call c = .ok p'

/-- The call returns, and the total is right after it. -/
def KeepsTotal (p : PositionInfo ℚ) (c : Call) : Prop := ∃ p', p.call c = .ok p' ∧ Agrees p'

/-- A fill in range whose effect on the sign of the position is seen. -/
def InOrder (p : PositionInfo ℚ) : Call → Prop
  | .addFill r => InRange p r ∧ SeesSign p r
  | .updateBBO _ _ => True

/-- The condition on a call; quotes are under none. -/
def LeavesEqual (p : PositionInfo ℚ) : Call → Prop
  | .addFill r => HalfRealized p r
  | .updateBBO _ _ => True

/-- A position nothing has been filled for. -/
def zeroed (volume : Qty) : PositionInfo ℚ := { openVwap := fun _ => 0, volume }

/-- What holds between two calls. -/
structure Sound (p : PositionInfo ℚ) : Prop where
  oneSided : OneSided p
  position : |p.position.toInt| < 2 ^ 31
  agrees : Agrees p

theorem sound_zeroed (volume : Qty) : Sound (zeroed volume) where
  oneSided := ⟨fun _ => rfl, fun _ => rfl⟩
  position := Account.start_position_lt volume
  agrees := (add_zero (0 : ℚ)).symm

/-- A quote keeps the total right. -/
theorem Sound.updateBBO {p : PositionInfo ℚ} (h : Sound p)
    {levels : MemPool MarketOrderPriceLevel} {bbo : BestBidOffer} (hq : Quoted levels bbo) :
    ∃ p', p.updateBBO levels bbo = .ok p' ∧ Sound p' := by
  obtain ⟨bid, ask, hquote⟩ := updateBBO_of_quoted (F := ℚ) hq
  refine ⟨_, hquote p, ?_⟩
  split
  · exact h
  · exact ⟨⟨h.oneSided.sell, h.oneSided.buy⟩, h.position, add_comm _ _⟩

/-- **One call.** -/
theorem Sound.keepsTotal_iff {p : PositionInfo ℚ} (h : Sound p) {c : Call} (hc : c.Complete)
    (ho : InOrder p c) : KeepsTotal p c ↔ LeavesEqual p c := by
  cases c with
  | addFill r =>
    have hfill := p.addFill_eq ho.1.index_le
    rw [LeavesEqual, ← h.oneSided.agrees_iff ho.1 h.position ho.2 hfill, KeepsTotal, call, hfill]
    constructor
    · rintro ⟨p', hp', hagrees⟩
      rwa [Except.ok.inj hp']
    · exact fun hagrees => ⟨_, rfl, hagrees⟩
  | updateBBO levels bbo =>
    obtain ⟨p', hp', hsound⟩ := h.updateBBO hc
    exact iff_of_true ⟨p', hp', hsound.agrees⟩ trivial

theorem Sound.next {p p' : PositionInfo ℚ} (h : Sound p) {c : Call} (hc : c.Complete)
    (ho : InOrder p c) (he : LeavesEqual p c) (hnext : Next p c p') : Sound p' := by
  obtain ⟨p'', hp'', hagrees⟩ := (h.keepsTotal_iff hc ho).2 he
  obtain rfl : p' = p'' := Except.ok.inj (hnext.symm.trans hp'')
  cases c with
  | addFill r =>
    have hs := (h.oneSided.settles_iff_seesSign ho.1 h.position hnext).2 ho.2
    refine ⟨hs.oneSided, ?_, hagrees⟩
    rw [ho.1.toInt_position hnext]
    exact ho.1.position
  | updateBBO levels bbo =>
    obtain ⟨q, hq, hsound⟩ := h.updateBBO hc
    rwa [Except.ok.inj (hnext.symm.trans hq)]

/-- The total is right after every call of a run in which each fill is in order and leaves both
profits equal; and of a run of fills in order there is no other in which it is. -/
theorem keepsTotal_along (volume : Qty) (calls : List Call) (hc : ∀ c ∈ calls, c.Complete) :
    (Run.Along Next (fun p c => InOrder p c ∧ LeavesEqual p c) (zeroed volume) calls →
      Run.Along Next KeepsTotal (zeroed volume) calls) ∧
    (Run.Along Next InOrder (zeroed volume) calls →
      Run.Along Next KeepsTotal (zeroed volume) calls →
      Run.Along Next LeavesEqual (zeroed volume) calls) := by
  have hiff : Run.Along Next InOrder (zeroed volume) calls →
      (Run.Along Next KeepsTotal (zeroed volume) calls ↔
        Run.Along Next LeavesEqual (zeroed volume) calls) := by
    intro ho
    have hboth : Run.Along Next (fun p c => c.Complete ∧ InOrder p c) (zeroed volume) calls :=
      Run.along_and.2 ⟨Run.along_of_forall_mem hc _, ho⟩
    exact Run.along_congr Sound (fun p c => c.Complete ∧ InOrder p c)
      (fun _ _ h hv => h.keepsTotal_iff hv.1 hv.2)
      (fun _ _ _ h hv he hnext => h.next hv.1 hv.2 he hnext) (sound_zeroed volume) hboth
  refine ⟨fun h => ?_, fun ho => (hiff ho).1⟩
  obtain ⟨ho, he⟩ := Run.along_and.1 h
  exact (hiff ho).2 he

/-- Levels at 99 and 101, and the best prices that point to them. -/
def bestLevels : MemPool MarketOrderPriceLevel :=
  { store := fun i => { object := { price := if i = 0 then 99 else 101 } }, size := 2 }

def bestPrices : BestBidOffer := { bestBid := some 0, bestAsk := some 1 }

/-- Ten bought, a quote, and half of them sold. -/
def boughtAndHalved : List Call :=
  [.addFill (Account.fillOf .buy 10 100), .updateBBO bestLevels bestPrices,
    .addFill (Account.fillOf .sell 5 120)]

theorem bought {p : PositionInfo ℚ}
    (h : Next (zeroed 0) (.addFill (Account.fillOf .buy 10 100)) p) :
    p.position = 10 ∧ p.realPnL = 0 ∧ p.cost = 1000 := by
  have hfill := (zeroed 0).addFill_eq (r := Account.fillOf .buy 10 100) (by decide)
  obtain rfl := Except.ok.inj (hfill.symm.trans h)
  exact ⟨by decide, by decide +kernel, by decide +kernel⟩

/-- The first fill is in order and leaves both profits zero. -/
theorem first_bought : InOrder (zeroed 0) (.addFill (Account.fillOf .buy 10 100)) ∧
    LeavesEqual (zeroed 0) (.addFill (Account.fillOf .buy 10 100)) := by
  refine ⟨⟨⟨Or.inl rfl, by decide, by decide, by decide⟩, fun h => absurd h (by decide)⟩, ?_⟩
  rw [LeavesEqual, HalfRealized]
  decide +kernel

theorem keepsTotal_along_boughtAndHalved :
    Run.Along Next KeepsTotal (zeroed 0) boughtAndHalved := by
  have hc : ∀ c ∈ boughtAndHalved, c.Complete := by
    simp only [boughtAndHalved, List.forall_mem_cons]
    exact ⟨trivial, ⟨0, 1, rfl, rfl, by decide, by decide⟩, trivial, by simp⟩
  refine (keepsTotal_along 0 boughtAndHalved hc).1
    ⟨first_bought, fun p hp => ⟨⟨trivial, trivial⟩, fun q hq => ⟨?_, fun _ _ => trivial⟩⟩⟩
  obtain ⟨hposition, hreal, hcost⟩ := bought hp
  obtain ⟨unreal, total, rfl⟩ := updateBBO_frame hq
  refine ⟨⟨⟨Or.inr rfl, by decide, ?_, by decide⟩, fun _ => Or.inl ?_⟩, ?_⟩
  · rw [netAfter, hposition]
    decide
  · rw [netAfter, hposition]
    decide
  · rw [cost] at hcost
    rw [LeavesEqual, HalfRealized, closedShare, gainAt, cost]
    dsimp only
    rw [hreal, hcost, hposition, if_pos (by decide)]
    decide +kernel

/-- Adding to a position at another price leaves a profit that is not realized, and the total is
twice that. -/
theorem not_keepsTotal_along : ¬ ∀ (volume : Qty) (calls : List Call),
    (∀ c ∈ calls, c.Complete) → Run.Along Next KeepsTotal (zeroed volume) calls := by
  intro h
  obtain ⟨⟨p, hp, -⟩, hkeeps⟩ := h 0
    [.addFill (Account.fillOf .buy 10 100), .addFill (Account.fillOf .buy 10 110)]
    (by simp [Call.Complete])
  obtain ⟨hposition, hreal, hcost⟩ := bought hp
  have hsound := (sound_zeroed 0).next (c := .addFill _) trivial first_bought.1 first_bought.2 hp
  have horder : InOrder p (.addFill (Account.fillOf .buy 10 110)) := by
    refine ⟨⟨Or.inl rfl, by decide, ?_, by decide⟩, fun hneg => absurd hneg ?_⟩
    · rw [netAfter, hposition]
      decide
    · rw [hposition]
      decide
  have hhalf := (hsound.keepsTotal_iff (c := .addFill _) trivial horder).1 (hkeeps p hp).1
  rw [LeavesEqual, HalfRealized, closedShare, gainAt, hreal, hcost, hposition,
    if_neg (by decide)] at hhalf
  exact absurd hhalf (by decide +kernel)

end PositionInfo
end Trading
end TradingEcosystem
