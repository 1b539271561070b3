import TradingEcosystem.OrderFlowAtRest
import TradingEcosystem.Trading.RiskManager
import Mathlib.Algebra.Order.Group.Abs
import Mathlib.Algebra.Order.Group.Int
import Mathlib.Data.Rat.Defs

/-!
# Position limits

The order flow with a position keeper that is shown every fill, and a risk manager whose limits the
position is meant to keep.  The manager does not ask it: the check of `moveOrder` is a comment, and
every order goes out.  So the limits hold in the runs whose moves fit them, whether anybody checks
or not (`limits_hold`), and in no others that go on for long enough.

A fill may arrive long after its order was let out, with an order of the other side out as well.
What carries the bound is `Covered`: the position stays within the limit even when all that is left
of either order is filled.  How much is left is what the manager knows less the fills on their way,
which is the account of `CountsDown`.
-/

set_option autoImplicit false

namespace TradingEcosystem
namespace OrderFlow

open Exchange Exchange.MEOrderBook Trading

variable {F : Type} [IntCast F]

/-! ## The fills on their way -/

/-- The responses on their way count the quantity `q` the manager knows down to what is open. -/
def CountsDown : Qty → List MEClientResponse → List OrderData → Prop
  | q, [], O => ∀ o ∈ O, o.qty = q
  | q, r :: R, O =>
    if r.type = .filled then
      r.execQty.toNat + r.leftQty.toNat = q.toNat ∧ CountsDown r.leftQty R O
    else CountsDown q R O

theorem CountsDown.nil (q : Qty) : CountsDown q [] [] := fun _ h => absurd h List.not_mem_nil

theorem CountsDown.respond {q : Qty} {R : List MEClientResponse} {d : OrderData}
    {r : MEClientResponse} {O : List OrderData} (h : CountsDown q R [d])
    (hr : CountsDown d.qty [r] O) : CountsDown q (R ++ [r]) O := by
  induction R generalizing q with
  | nil =>
    obtain rfl : d.qty = q := h d List.mem_cons_self
    exact hr
  | cons a R ih =>
    rw [List.cons_append, CountsDown]
    rw [CountsDown] at h
    split
    · next ha =>
      rw [if_pos ha] at h
      exact ⟨h.1, ih h.2⟩
    · next ha =>
      rw [if_neg ha] at h
      exact ih h

theorem qty_followed (o : OMOrder) (r : MEClientResponse) :
    (OrderManager.followed o r).qty = if r.type = .filled then r.leftQty else o.qty := by
  rw [OrderManager.followed]
  split
  · next hr => rw [hr, if_neg (by simp)]
  · next hr => rw [hr, if_neg (by simp)]
  · next hr =>
    rw [if_pos hr]
    split <;> rfl
  · next hr => rw [if_neg hr]

/-- What a slot's order has left is counted down by every step. -/
theorem CountsDown.step {v v' : SlotView} (hok : SlotOk v.order v.news v.opens v.responses)
    (h : CountsDown v.order.qty v.responses v.opens) (hstep : SlotStep v v') :
    CountsDown v'.order.qty v'.responses v'.opens := by
  cases hstep with
  | stay => exact h
  | withdraw => exact h
  | submit hfree =>
    obtain ⟨-, hO, hR⟩ := hok.of_free hfree
    simp only [hO, hR]
    exact CountsDown.nil _
  | @accept r N id priority hN =>
    rw [hN] at hok
    obtain ⟨-, -, -, -, hqty, hO, hR⟩ := hok.of_sent
    simp only [hO, hR, List.nil_append]
    show CountsDown v.order.qty [] (kept (orderOf r id priority))
    intro o ho
    obtain rfl := eq_of_mem_kept ho
    exact hqty
  | @cancel r d A B hO =>
    rw [hO] at h hok
    obtain ⟨rfl, rfl⟩ := hok.alone
    exact h.respond (CountsDown.nil _)
  | @fill d A B price execQty hO hle =>
    rw [hO] at h hok
    obtain ⟨rfl, rfl⟩ := hok.alone
    show CountsDown v.order.qty (v.responses ++ [filledResponse d price execQty])
      ([] ++ kept (filled d execQty) ++ [])
    rw [List.append_nil]
    refine h.respond ⟨?_, fun o ho => ?_⟩
    · show execQty.toNat + (d.qty - execQty).toNat = d.qty.toNat
      have hle' := UInt32.le_iff_toNat_le.1 hle
      rw [UInt32.toNat_sub_of_le _ _ hle]
      omega
    · obtain rfl := eq_of_mem_kept ho
      rfl
  | @deliver r R hR =>
    rw [hR] at h
    rw [CountsDown] at h
    show CountsDown (OrderManager.followed v.order r).qty R v.opens
    rw [qty_followed]
    split
    · next hr =>
      rw [if_pos hr] at h
      exact h.2
    · next hr =>
      rw [if_neg hr] at h
      exact h

/-! ## What a slot may still take -/

/-- What is left of the order in a slot, as far as the manager knows. -/
def exposure (o : OMOrder) : Nat :=
  match o.orderState with
  | .invalid | .dead => 0
  | _ => o.qty.toNat

theorem exposure_of_active {o : OMOrder} (h : Active o) : exposure o = o.qty.toNat := by
  rw [exposure]
  split
  · next hs => exact absurd hs h.1
  · next hs => exact absurd hs h.2
  · rfl

/-- **The position is covered**: it stays within the limit even when all that is left of the order
of a side is filled and nothing of the other. -/
def Covered (risk : RiskManager F) (m : OrderManager) (k : PositionKeeper F) : Prop :=
  ∀ t : TickerId, t.toNat < meMaxTickers → ∀ s, Traded s →
    (sideToValue s).toInt * (k.tickerPosition t).position.toInt + exposure (m.order t s) ≤
      (risk.riskCfg t).maxPosition.toNat

/-- The position keeps its limit. -/
def WithinLimits (risk : RiskManager F) (k : PositionKeeper F) : Prop :=
  ∀ t : TickerId, t.toNat < meMaxTickers →
    |(k.tickerPosition t).position.toInt| ≤ (risk.riskCfg t).maxPosition.toNat

section Covered

variable {risk : RiskManager F} {m m' : OrderManager} {k k' : PositionKeeper F} {t : TickerId}
  {s : Side}

theorem Covered.withinLimits (h : Covered risk m k) : WithinLimits risk k := by
  intro t ht
  have hbuy := h t ht .buy (Or.inl rfl)
  have hsell := h t ht .sell (Or.inr rfl)
  rw [toInt_sideToValue_buy] at hbuy
  rw [toInt_sideToValue_sell] at hsell
  exact abs_le.2 ⟨by omega, by omega⟩

/-- What is left in a slot after a move. -/
theorem exposure_moveOrder (m : OrderManager) (t : TickerId) (p : Price) (s : Side) (qty : Qty) :
    exposure ((m.moveOrder t p s qty).1.order t s) = exposure (m.order t s) ∨
      ¬ Active (m.order t s) ∧ exposure ((m.moveOrder t p s qty).1.order t s) = qty.toNat := by
  rcases m.moveOrder_cases t p s qty with ⟨hlive, -, hm⟩ | ⟨hidle, hm⟩ | hm <;> rw [hm]
  · rw [OrderManager.cancelOrder, OrderManager.order_setOrder_self, exposure, exposure, hlive]
    exact Or.inl rfl
  · have horder : (m.newOrder t p s qty).1.order t s = _ := OrderManager.order_setOrder_self _
    refine Or.inr ⟨fun h => ?_, by rw [horder]; rfl⟩
    rcases hidle with hs | hs
    · exact h.1 hs
    · exact h.2 hs
  · exact Or.inl rfl

/-- A `NEW` is built for a free slot. -/
theorem free_of_mem_moveOrder {p : Price} {qty : Qty} {r : MEClientRequest}
    (hr : r ∈ (m.moveOrder t p s qty).2) (hnew : r.requestType = .new) :
    ¬ Active (m.order t s) ∧ r.tickerId = t ∧ r.side = s ∧ r.qty = qty := by
  rcases m.moveOrder_cases t p s qty with ⟨-, -, hm⟩ | ⟨hidle, hm⟩ | hm <;> rw [hm] at hr
  · obtain rfl := List.mem_singleton.1 hr
    exact absurd hnew (by simp [OrderManager.cancelOrder])
  · obtain rfl := List.mem_singleton.1 hr
    refine ⟨fun h => ?_, rfl, rfl, rfl⟩
    rcases hidle with hs | hs
    · exact h.1 hs
    · exact h.2 hs
  · exact absurd hr List.not_mem_nil

/-- A move of an order that fits keeps the position covered. -/
theorem Covered.moveOrder [LT F] (h : Covered risk m k) (hs : Traded s) (p : Price) (qty : Qty)
    (hfits : ¬ Active (m.order t s) →
      RiskInfo.Fits ⟨k.tickerPosition t, risk.riskCfg t⟩ s qty) :
    Covered risk (m.moveOrder t p s qty).1 k := by
  intro t' ht' s' hs'
  by_cases hslot : t' = t ∧ s' = s
  · obtain ⟨rfl, rfl⟩ := hslot
    rcases exposure_moveOrder m t' p s' qty with hsame | ⟨hfree, hqty⟩
    · rw [hsame]
      exact h t' ht' s' hs'
    · have hfit := abs_le.1 (hfits hfree).position
      dsimp only at hfit
      rw [hqty]
      rcases hs' with rfl | rfl
      · rw [toInt_sideToValue_buy] at hfit ⊢
        omega
      · rw [toInt_sideToValue_sell] at hfit ⊢
        omega
  · rw [OrderManager.order_moveOrder_of_ne p qty fun ht =>
      hs.index_ne hs' fun hside => hslot ⟨ht, hside⟩]
    exact h t' ht' s' hs'

/-- What is left of an order after a response about it. -/
theorem exposure_followed {o : OMOrder} (h : Active o) (r : MEClientResponse) :
    if r.type = .filled then exposure (OrderManager.followed o r) = r.leftQty.toNat
    else exposure (OrderManager.followed o r) ≤ exposure o := by
  rw [OrderManager.followed, exposure_of_active h]
  split
  · next hfilled =>
    rw [hfilled]
    dsimp only
    split
    · next hzero =>
      rw [hzero]
      rfl
    · exact exposure_of_active h
  · next hne =>
    split
    · exact Nat.le_refl _
    · exact Nat.zero_le _
    · next hfilled => exact absurd hfilled hne
    · exact (exposure_of_active h).le

end Covered

/-! ## The two sides -/

theorem Traded.toInt_sideToValue {s : Side} (hs : Traded s) :
    (sideToValue s).toInt = 1 ∨ (sideToValue s).toInt = -1 := by
  rcases hs with rfl | rfl
  · exact Or.inl toInt_sideToValue_buy
  · exact Or.inr toInt_sideToValue_sell

theorem Traded.opposite {s s' : Side} (hs : Traded s) (hs' : Traded s') (h : s' ≠ s) :
    (sideToValue s').toInt = 1 ∧ (sideToValue s).toInt = -1 ∨
      (sideToValue s').toInt = -1 ∧ (sideToValue s).toInt = 1 := by
  rcases hs with rfl | rfl <;> rcases hs' with rfl | rfl
  · exact absurd rfl h
  · exact Or.inr ⟨toInt_sideToValue_sell, toInt_sideToValue_buy⟩
  · exact Or.inl ⟨toInt_sideToValue_buy, toInt_sideToValue_sell⟩
  · exact absurd rfl h

/-- A fill of no more than is left of its order stays within the limit, so it does not wrap. -/
theorem Covered.toInt_fill {risk : RiskManager F} {m : OrderManager} {k : PositionKeeper F}
    (h : Covered risk m k) {t : TickerId} (ht : t.toNat < meMaxTickers) {s : Side} (hs : Traded s)
    (hmax : (risk.riskCfg t).maxPosition.toNat < 2 ^ 31) {execQty : Qty}
    (hle : execQty.toNat ≤ exposure (m.order t s)) :
    ((k.tickerPosition t).position + sideToValue s * execQty.toInt32).toInt =
      (k.tickerPosition t).position.toInt + (sideToValue s).toInt * execQty.toNat := by
  have hmine := h t ht s hs
  have hwithin := abs_le.1 (h.withinLimits t ht)
  refine toInt_add_mul_of_lt (abs_lt.2 ?_)
  rcases hs.toInt_sideToValue with hv | hv
  · rw [hv] at hmine ⊢
    omega
  · rw [hv] at hmine ⊢
    omega

/-! ## The desk -/

/-- The order flow and the positions. -/
structure Desk (F : Type) [IntCast F] where
  flow : System
  keeper : PositionKeeper F

section Limits

variable [LT F] {risk : RiskManager F} {x : Desk F}

/-- The condition: an order that a call of `moveOrders` sends fits the limits. -/
def MovesFit (risk : RiskManager F) (x : Desk F) : Event → Prop
  | .move t _ _ clip => ∀ s, Traded s → ¬ Active (x.flow.manager.order t s) →
      RiskInfo.Fits ⟨x.keeper.tickerPosition t, risk.riskCfg t⟩ s clip
  | _ => True

/-- Every `NEW` request that a call of `moveOrders` builds is allowed by the risk manager when it is
built. -/
def BuildsAllowed [DecidableLT F] (risk : RiskManager F) (x : Desk F) : Event → Prop
  | .move t bid ask clip => ∀ m rs, x.flow.manager.moveOrders t bid ask clip = .ok (m, rs) →
      ∀ r ∈ rs, r.requestType = .new →
        risk.checkPreTradeRisk x.keeper r.tickerId r.side r.qty = .ok .allowed
  | _ => True

/-- **The invariant**: the slots are accounted for, what is left of their orders is counted, and the
position is covered. -/
structure DeskInv (risk : RiskManager F) (x : Desk F) : Prop extends Inv x.flow where
  counts : ∀ t s, Traded s → CountsDown (x.flow.manager.order t s).qty
    (responsesOf t s x.flow.responses) (openOf t s x.flow.openOrders)
  covered : Covered risk x.flow.manager x.keeper

/-- The positions are all flat. -/
def Flat (k : PositionKeeper F) : Prop :=
  ∀ t : TickerId, t.toNat < meMaxTickers → (k.tickerPosition t).position = 0

/-- Both limits of every ticker are below `2 ^ 31`. -/
def LimitsBelow (risk : RiskManager F) : Prop :=
  ∀ t : TickerId, t.toNat < meMaxTickers →
    (risk.riskCfg t).maxOrderSize.toNat < 2 ^ 31 ∧ (risk.riskCfg t).maxPosition.toNat < 2 ^ 31

omit [LT F] in
theorem deskInv_init (clientId : ClientId) {k : PositionKeeper F} (hk : Flat k) :
    DeskInv risk ⟨{ manager := { clientId } }, k⟩ where
  toInv := inv_init clientId
  counts := fun _ _ _ => CountsDown.nil _
  covered := by
    intro t ht s hs
    dsimp only
    rw [hk t ht]
    have hzero : exposure (({ clientId := clientId } : OrderManager).order t s) = 0 := rfl
    rw [hzero, Int32.toInt_zero, Int.mul_zero]
    exact Int.natCast_nonneg _

theorem Inv.counts_step {y y' : System} (h : Inv y) {e : Event} (hstep : Step y e y')
    (hcounts : ∀ t s, Traded s → CountsDown (y.manager.order t s).qty
      (responsesOf t s y.responses) (openOf t s y.openOrders)) (t : TickerId) (s : Side)
    (hs : Traded s) : CountsDown (y'.manager.order t s).qty (responsesOf t s y'.responses)
      (openOf t s y'.openOrders) := by
  have hrun := slotStep_of_step hstep h.side_of_answer (t := t) hs
  suffices hok : ∀ v, Relation.ReflTransGen SlotStep (y.slot t s) v →
      SlotOk v.order v.news v.opens v.responses ∧ CountsDown v.order.qty v.responses v.opens from
    (hok _ hrun).2
  intro v hv
  induction hv with
  | refl => exact ⟨h.slots t s hs, hcounts t s hs⟩
  | tail _ hstep ih => exact ⟨ih.1.step hstep, ih.2.step ih.1 hstep⟩

theorem DeskInv.moves (h : DeskInv risk x) {t : TickerId} {bid ask : Price} {clip : Qty}
    {m : OrderManager} {rs : List MEClientRequest}
    (hm : x.flow.manager.moveOrders t bid ask clip = .ok (m, rs))
    (hfit : MovesFit risk x (.move t bid ask clip)) : Covered risk m x.keeper := by
  obtain ⟨m₁, rfl, rfl, rfl⟩ := OrderManager.moveOrders_eq_ok hm
  have hbid := h.covered.moveOrder (Or.inl rfl) bid clip (hfit .buy (Or.inl rfl))
  refine hbid.moveOrder (Or.inr rfl) ask clip fun hfree => hfit .sell (Or.inr rfl) ?_
  rwa [OrderManager.order_moveOrder_of_ne bid clip fun _ => by decide] at hfree

/-- An order that fits is allowed when it is built. -/
theorem buildsAllowed_of_movesFit [DecidableLT F] (hrisk : LimitsBelow risk) {e : Event}
    (hfit : MovesFit risk x e) : BuildsAllowed risk x e := by
  cases e with
  | exchange => trivial
  | deliver => trivial
  | move t bid ask clip =>
    intro m rs hm r hr hnew
    have ht := OrderManager.tickerId_lt_of_moveOrders hm
    have hallowed : ∀ s, Traded s → ¬ Active (x.flow.manager.order t s) →
        risk.checkPreTradeRisk x.keeper t s clip = .ok .allowed := by
      intro s hs hfree
      rw [RiskManager.checkPreTradeRisk, if_pos ht]
      exact congrArg _ (RiskInfo.checkPreTradeRisk_of_fits (hfit s hs hfree) (hrisk t ht).2)
    obtain ⟨m₁, rfl, rfl, rfl⟩ := OrderManager.moveOrders_eq_ok hm
    rcases List.mem_append.1 hr with hr | hr
    · obtain ⟨hfree, htick, hside, hqty⟩ := free_of_mem_moveOrder hr hnew
      rw [htick, hside, hqty]
      exact hallowed _ (Or.inl rfl) hfree
    · obtain ⟨hfree, htick, hside, hqty⟩ := free_of_mem_moveOrder hr hnew
      rw [OrderManager.order_moveOrder_of_ne bid _ fun _ => by decide] at hfree
      rw [htick, hside, hqty]
      exact hallowed _ (Or.inr rfl) hfree

end Limits

/-! ## Steps -/

variable [Add F] [Sub F] [Mul F] [Div F]

/-- The keeper is shown the fills. -/
def hear (k : PositionKeeper F) (r : MEClientResponse) : Except Fault (PositionKeeper F) :=
  if r.type = .filled then k.addFill r else .ok k

/-- What the keeper hears moves the position of its ticker, and no other. -/
theorem position_hear {k k' : PositionKeeper F} {r : MEClientResponse} (h : hear k r = .ok k')
    (t : TickerId) : (k'.tickerPosition t).position =
      if r.type = .filled ∧ t = r.tickerId then
        (k.tickerPosition t).position + sideToValue r.side * r.execQty.toInt32
      else (k.tickerPosition t).position := by
  rw [hear] at h
  split at h
  · next hfilled =>
    rw [PositionKeeper.addFill] at h
    split at h
    · obtain ⟨p, hp, h⟩ := bind_eq_ok.1 h
      obtain rfl := Except.ok.inj h
      by_cases ht : t = r.tickerId
      · subst ht
        rw [if_pos ⟨hfilled, rfl⟩, ← PositionInfo.position_addFill hp]
        simp
      · rw [if_neg fun h => ht h.2]
        simp [ht]
    · exact absurd h (by simp)
  · next hne =>
    obtain rfl := Except.ok.inj h
    rw [if_neg fun h => hne h.1]

/-- A response keeps the position covered: a fill takes from what is left of its order what it adds
to the position. -/
theorem Covered.deliver {risk : RiskManager F} {m m' : OrderManager} {k k' : PositionKeeper F}
    {r : MEClientResponse} (h : Covered risk m k)
    (hrisk : ∀ t : TickerId, t.toNat < meMaxTickers → (risk.riskCfg t).maxPosition.toNat < 2 ^ 31)
    (hm : m.onOrderUpdate r = .ok m') (hk : hear k r = .ok k')
    (hside : Traded r.side ∨ r.side = .invalid ∧ r.type = .cancelRejected)
    (hactive : Traded r.side → Active (m.order r.tickerId r.side))
    (hcount : Traded r.side → r.type = .filled →
      r.execQty.toNat + r.leftQty.toNat = (m.order r.tickerId r.side).qty.toNat) :
    Covered risk m' k' := by
  obtain ⟨hself, hothers, -, -⟩ := OrderManager.onOrderUpdate_eq_ok hm
  have hother : ∀ t s, Traded s → ¬ (t = r.tickerId ∧ s = r.side) →
      m'.order t s = m.order t s := by
    intro t s hs hne
    refine hothers t s fun ht => ?_
    rcases hside with hside | ⟨hside, -⟩
    · exact hside.index_ne hs fun heq => hne ⟨ht, heq⟩
    · rw [hside]
      exact hs.index_ne_invalid
  intro t ht s hs
  have hold := h t ht s hs
  rw [position_hear hk]
  by_cases hfill : r.type = .filled ∧ t = r.tickerId
  · obtain ⟨hfilled, rfl⟩ := hfill
    have hside : Traded r.side := by
      refine hside.resolve_right fun h => ?_
      exact absurd (hfilled.symm.trans h.2) (by decide)
    have hexposure := exposure_of_active (hactive hside)
    have hcount := hcount hside hfilled
    have hleft := exposure_followed (hactive hside) r
    rw [if_pos hfilled] at hleft
    rw [if_pos ⟨hfilled, rfl⟩, h.toInt_fill ht hside (hrisk _ ht) (by omega)]
    by_cases hsr : s = r.side
    · subst hsr
      rw [hself, hleft]
      rcases hs.toInt_sideToValue with hv | hv
      · rw [hv] at hold ⊢
        omega
      · rw [hv] at hold ⊢
        omega
    · rw [hother _ s hs fun h => hsr h.2]
      rcases hside.opposite hs hsr with ⟨hv, hv'⟩ | ⟨hv, hv'⟩
      · rw [hv] at hold ⊢
        rw [hv']
        omega
      · rw [hv] at hold ⊢
        rw [hv']
        omega
  · rw [if_neg hfill]
    by_cases hslot : t = r.tickerId ∧ s = r.side
    · obtain ⟨rfl, rfl⟩ := hslot
      have hle := exposure_followed (hactive hs) r
      rw [if_neg fun h => hfill ⟨h, rfl⟩] at hle
      rw [hself]
      omega
    · rw [hother t s hs hslot]
      exact hold

/-- A step of the desk: one of the order flow, where the keeper hears what is delivered. -/
inductive DeskStep (x : Desk F) : Event → Desk F → Prop
  | flow {e : Event} {y : System} (he : e ≠ .deliver) (hstep : Step x.flow e y) :
      DeskStep x e { x with flow := y }
  | deliver {r : MEClientResponse} {rest : List MEClientResponse} {m : OrderManager}
      {k : PositionKeeper F} (hr : x.flow.responses = r :: rest)
      (hm : x.flow.manager.onOrderUpdate r = .ok m) (hk : hear x.keeper r = .ok k) :
      DeskStep x .deliver { flow := { x.flow with manager := m, responses := rest }, keeper := k }

/-- The states of runs all of whose steps meet a condition. -/
def DeskReachable (cond : Desk F → Event → Prop) : Desk F → Desk F → Prop :=
  Relation.ReflTransGen fun x x' => ∃ e, cond x e ∧ DeskStep x e x'

/-! ## Runs -/

section Runs

variable [LT F] {risk : RiskManager F} {x x' : Desk F}

theorem DeskInv.step (h : DeskInv risk x) (hrisk : LimitsBelow risk) {e : Event}
    (hfit : MovesFit risk x e) (hstep : DeskStep x e x') : DeskInv risk x' := by
  cases hstep with
  | flow he hstep =>
    refine ⟨h.toInv.step hstep, h.toInv.counts_step hstep h.counts, ?_⟩
    cases hstep with
    | move hm => exact h.moves hm hfit
    | accept => exact h.covered
    | cancel => exact h.covered
    | reject => exact h.covered
    | fill => exact h.covered
    | deliver => exact absurd rfl he
  | @deliver r rest m k hr hm hk =>
    have hstep : Step x.flow .deliver _ := .deliver hr hm
    refine ⟨h.toInv.step hstep, h.toInv.counts_step hstep h.counts, ?_⟩
    have hslot : responsesOf r.tickerId r.side x.flow.responses =
        r :: responsesOf r.tickerId r.side rest := by
      rw [hr]
      exact List.filter_cons_of_pos (decide_eq_true ⟨rfl, rfl⟩)
    refine h.covered.deliver (fun t ht => (hrisk t ht).2) hm hk
      (h.answers r (hr ▸ List.mem_cons_self)) (fun hs => ?_) fun hs hfilled => ?_
    · have hok := h.slots r.tickerId r.side hs
      rw [hslot] at hok
      exact hok.active_of_cons
    · have hcount := h.counts r.tickerId r.side hs
      rw [hslot, CountsDown, if_pos hfilled] at hcount
      exact hcount.1

theorem deskInv_of_reachable (hrisk : LimitsBelow risk) {clientId : ClientId}
    {k : PositionKeeper F} (hk : Flat k)
    (h : DeskReachable (MovesFit risk) ⟨{ manager := { clientId } }, k⟩ x) : DeskInv risk x := by
  induction h with
  | refl => exact deskInv_init clientId hk
  | tail _ hstep ih =>
    obtain ⟨e, hfit, hstep⟩ := hstep
    exact ih.step hrisk hfit hstep

end Runs

/-- **Position limits hold when the orders fit**: in a run in which every order that is sent fits
the limits when it is built, every order is one the risk manager allows, and no position ever
exceeds its limit. -/
theorem limits_hold [LT F] [DecidableLT F] {risk : RiskManager F} (hrisk : LimitsBelow risk)
    {clientId : ClientId} {k : PositionKeeper F} (hk : Flat k) {x : Desk F}
    (h : DeskReachable (MovesFit risk) ⟨{ manager := { clientId } }, k⟩ x) :
    WithinLimits risk x.keeper ∧ ∀ e, MovesFit risk x e → BuildsAllowed risk x e :=
  ⟨(deskInv_of_reachable hrisk hk h).covered.withinLimits,
    fun _ hfit => buildsAllowed_of_movesFit hrisk hfit⟩

/-! ### A buy order of 5 -/

/-- No orders and no positions. -/
def flatDesk : Desk ℚ where
  flow := { manager := { clientId := 1 } }
  keeper := { tickerPosition := fun _ => { openVwap := fun _ => 0, volume := 0 } }

/-- The limits of every ticker, in orders and in position. -/
def limitsOf (maxOrderSize maxPosition : Qty) : RiskManager ℚ where
  riskCfg := fun _ => { maxOrderSize, maxPosition, maxLoss := -100 }

/-- The buy order is accepted and filled. -/
theorem reachable_bought {cond : Desk ℚ → Event → Prop} (hmove : cond flatDesk (.move 0 100 101 5))
    (hexchange : ∀ x, cond x .exchange) (hdeliver : ∀ x, cond x .deliver) :
    ∃ x, DeskReachable cond flatDesk x ∧ (x.keeper.tickerPosition 0).position = 5 ∧
      ∃ m rs r, x.flow.manager.moveOrders 0 100 101 5 = .ok (m, rs) ∧ r ∈ rs ∧
        r.requestType = .new ∧ r.tickerId = 0 ∧ r.qty = 5 := by
  refine ⟨_, ((((Relation.ReflTransGen.single
    ⟨.move 0 100 101 5, hmove, .flow (by simp) (.move rfl)⟩).tail
    ⟨.exchange, hexchange _, .flow (by simp) (@Step.accept _ _ _ 1 1 rfl rfl)⟩).tail
    ⟨.exchange, hexchange _, .flow (by simp)
      (@Step.fill _ _ [] [] 100 5 rfl (by decide) (by decide))⟩).tail
    ⟨.deliver, hdeliver _, .deliver rfl rfl rfl⟩).tail
    ⟨.deliver, hdeliver _, .deliver rfl rfl rfl⟩, ?_, ?_⟩
  · rfl
  · exact ⟨_, _, _, rfl, List.mem_cons_self, rfl, rfl, rfl⟩

theorem flat_flatDesk : Flat flatDesk.keeper := fun _ _ => rfl

theorem limitsBelow_limitsOf {maxOrderSize maxPosition : Qty} (hsize : maxOrderSize.toNat < 2 ^ 31)
    (hposition : maxPosition.toNat < 2 ^ 31) : LimitsBelow (limitsOf maxOrderSize maxPosition) :=
  fun _ _ => ⟨hsize, hposition⟩

/-- With limits of 10 the order fits. -/
theorem movesFit_flatDesk : MovesFit (limitsOf 10 10) flatDesk (.move 0 100 101 5) := by
  intro s hs _
  refine ⟨show (5 : Qty) ≤ 10 by decide, ?_, ?_⟩
  · show |(0 : Int32).toInt + (sideToValue s).toInt * (5 : Qty).toNat| ≤ ((10 : Qty).toNat : Int)
    rcases hs with rfl | rfl
    · rw [toInt_sideToValue_buy]
      decide
    · rw [toInt_sideToValue_sell]
      decide
  · show ¬ ((0 : Int) : ℚ) < -100
    decide

/-- With limits of 10 the position of 5 is within them. -/
theorem limits_hold_bought : ∃ x : Desk ℚ, (x.keeper.tickerPosition 0).position = 5 ∧
    WithinLimits (limitsOf 10 10) x.keeper ∧
    ∀ e, MovesFit (limitsOf 10 10) x e → BuildsAllowed (limitsOf 10 10) x e := by
  obtain ⟨x, hx, hposition, -⟩ := reachable_bought movesFit_flatDesk (fun _ => trivial)
    fun _ => trivial
  exact ⟨x, hposition, limits_hold (limitsBelow_limitsOf (by decide) (by decide)) flat_flatDesk hx⟩

/-- With limits of 1 the order goes out all the same, and the next one too. -/
theorem not_limits_hold : ∃ (risk : RiskManager ℚ) (x : Desk ℚ), LimitsBelow risk ∧
    Flat flatDesk.keeper ∧ DeskReachable (fun _ _ => True) flatDesk x ∧
    ¬ WithinLimits risk x.keeper ∧ ∃ e, ¬ BuildsAllowed risk x e := by
  obtain ⟨x, hx, hposition, m, rs, r, hm, hr, hnew, ht, hqty⟩ :=
    @reachable_bought (fun _ _ => True) trivial (fun _ => trivial) fun _ => trivial
  refine ⟨limitsOf 1 1, x, limitsBelow_limitsOf (by decide) (by decide), flat_flatDesk, hx,
    fun h => ?_, .move 0 100 101 5, fun h => ?_⟩
  · have hwithin := h 0 (by decide)
    rw [hposition] at hwithin
    exact absurd hwithin (by decide)
  · have hallowed := h m rs hm r hr hnew
    rw [ht, hqty] at hallowed
    have hrefused : (limitsOf 1 1).checkPreTradeRisk x.keeper 0 r.side 5 = .ok .orderTooLarge := rfl
    exact absurd (hrefused.symm.trans hallowed) (by simp)

end OrderFlow
end TradingEcosystem
