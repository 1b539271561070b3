import TradingEcosystem.Exchange.MatchingEngine
import TradingEcosystem.Lib.PriceTime

/-!
# The reference order book

What an order book is for, with no pointers in it: two queues in price-time order, and an incoming
order that trades with the best of the other side while the prices cross and rests with what is
left.  It says the same messages as the book of the source, except that an explicit cancel names
the order by its market order id, as every other update does.

The second half is about the reference alone.  `Sound.process` says that it is a book at all: over
any run its queues stay ranked and its best bid stays below its best ask.
-/

set_option autoImplicit false

namespace TradingEcosystem
namespace Exchange

open PriceTime

/-- The queues hold their best order in front. -/
structure ReferenceBook where
  bids : List OrderData := []
  asks : List OrderData := []
  nextMarketOrderId : OrderId := 1

namespace ReferenceBook

/-- Bids are served from the highest price down. -/
def bidRank (d : OrderData) : ℕᵒᵈ := OrderDual.toDual d.price.toNat

/-- Asks are served from the lowest price up. -/
def askRank (d : OrderData) : ℕ := d.price.toNat

/-- All resting orders. -/
def orders (r : ReferenceBook) : List OrderData := r.bids ++ r.asks

/-- The queue an order of this side joins. -/
def own (r : ReferenceBook) : Side → List OrderData
  | .buy => r.bids
  | _ => r.asks

/-- The queue an order of this side trades with. -/
def opposite (r : ReferenceBook) : Side → List OrderData
  | .buy => r.asks
  | _ => r.bids

/-- An incoming order of this side and price trades at the resting price. -/
def Crosses (side : Side) (price resting : Price) : Prop :=
  if side = .buy then resting ≤ price else price ≤ resting

instance (side : Side) (price resting : Price) : Decidable (Crosses side price resting) :=
  inferInstanceAs (Decidable (if side = .buy then resting ≤ price else price ≤ resting))

/-- What a fill of `fillQty` says about the resting order `o` after the trade. -/
def afterFill (i : MEOrderBook.Incoming) (o : OrderData) (fillQty : Qty) : Sent :=
  if o.qty - fillQty = 0 then
    .marketUpdate
      { type := .cancel, orderId := o.marketOrderId, tickerId := i.tickerId, side := o.side,
        price := o.price, qty := o.qty, priority := priorityInvalid }
  else
    .marketUpdate
      { type := .modify, orderId := o.marketOrderId, tickerId := i.tickerId, side := o.side,
        price := o.price, qty := o.qty - fillQty, priority := o.priority }

/-- The incoming order trades down the other side: the quantity left, what remains of the queue and
what was said. -/
def trade (i : MEOrderBook.Incoming) (price : Price) :
    Qty → List OrderData → Qty × List OrderData × List Sent
  | leftQty, [] => (leftQty, [], [])
  | leftQty, o :: rest =>
    if leftQty ≠ 0 ∧ Crosses i.side price o.price then
      let fillQty := min leftQty o.qty
      let sent :=
        MEOrderBook.fillMessages i o fillQty (leftQty - fillQty) ++ [afterFill i o fillQty]
      if o.qty - fillQty = 0 then
        let (left, queue, more) := trade i price (leftQty - fillQty) rest
        (left, queue, sent ++ more)
      else (leftQty - fillQty, { o with qty := o.qty - fillQty } :: rest, sent)
    else (leftQty, o :: rest, [])

/-- The book with the other side's queue after trading. -/
def withOpposite (r : ReferenceBook) (side : Side) (queue : List OrderData) : ReferenceBook :=
  if side = .buy then { r with asks := queue } else { r with bids := queue }

/-- The order joins its side behind everything at its price or better. -/
def enter (r : ReferenceBook) (d : OrderData) : ReferenceBook :=
  if d.side = .buy then { r with bids := enqueue bidRank d r.bids }
  else { r with asks := enqueue askRank d r.asks }

/-- The order of a client by its own id. -/
def HasIds (clientId : ClientId) (orderId : OrderId) (d : OrderData) : Prop :=
  d.clientId = clientId ∧ d.clientOrderId = orderId

instance (clientId : ClientId) (orderId : OrderId) (d : OrderData) :
    Decidable (HasIds clientId orderId d) := inferInstanceAs (Decidable (_ ∧ _))

/-- The order of a `NEW` request with what is left of it, last in time at its price. -/
def restingOrder (r : ReferenceBook) (req : MEClientRequest) (leftQty : Qty) : OrderData where
  tickerId := req.tickerId
  clientId := req.clientId
  clientOrderId := req.orderId
  marketOrderId := r.nextMarketOrderId
  side := req.side
  price := req.price
  qty := leftQty
  priority := MEOrderBook.nextPriority ((r.own req.side).filter fun d => d.price = req.price)

/-- The incoming order of a `NEW` request. -/
def incoming (r : ReferenceBook) (req : MEClientRequest) : MEOrderBook.Incoming where
  clientId := req.clientId
  clientOrderId := req.orderId
  tickerId := req.tickerId
  side := req.side
  marketOrderId := r.nextMarketOrderId

/-- A `NEW` request. -/
def add (r : ReferenceBook) (req : MEClientRequest) : ReferenceBook × List Sent :=
  let accepted : Sent := .clientResponse (MEOrderBook.acceptedResponse r.nextMarketOrderId req)
  let (leftQty, queue, fills) :=
    trade (r.incoming req) req.price req.qty (r.opposite req.side)
  let r' := { r.withOpposite req.side queue with nextMarketOrderId := r.nextMarketOrderId + 1 }
  if leftQty = 0 then (r', accepted :: fills)
  else
    let d := r.restingOrder req leftQty
    (r'.enter d, accepted :: fills ++ [.marketUpdate (MEOrderBook.addUpdate d)])

/-- The book without the orders of these ids. -/
def remove (r : ReferenceBook) (clientId : ClientId) (orderId : OrderId) : ReferenceBook :=
  { r with
    bids := r.bids.filter fun d => ¬ HasIds clientId orderId d
    asks := r.asks.filter fun d => ¬ HasIds clientId orderId d }

/-- A `CANCEL` request. -/
def cancel (r : ReferenceBook) (req : MEClientRequest) : ReferenceBook × List Sent :=
  match r.orders.find? fun d => HasIds req.clientId req.orderId d with
  | none => (r, [.clientResponse (MEOrderBook.cancelRejectedResponse req)])
  | some d =>
    (r.remove req.clientId req.orderId,
      [.marketUpdate (MEOrderBook.cancelUpdate d.marketOrderId req d),
        .clientResponse (MEOrderBook.canceledResponse req d)])

/-- One request. -/
def process (r : ReferenceBook) (req : MEClientRequest) : ReferenceBook × List Sent :=
  match req.requestType with
  | .new => r.add req
  | .cancel => r.cancel req
  | _ => (r, [])

theorem process_of_new {r : ReferenceBook} {req : MEClientRequest} (h : req.requestType = .new) :
    r.process req = r.add req := by
  rw [process, h]

theorem process_of_cancel {r : ReferenceBook} {req : MEClientRequest}
    (h : req.requestType = .cancel) : r.process req = r.cancel req := by
  rw [process, h]

/-- The requests a book is asked to deal with: ids inside the tables, a side, a quantity, and no
client order id that is still in use. -/
def Accepts (r : ReferenceBook) (req : MEClientRequest) : Prop :=
  req.clientId.toNat < meMaxNumClients ∧ req.orderId.toNat < meMaxOrderIds ∧
    (req.requestType = .new ∧ (req.side = .buy ∨ req.side = .sell) ∧ 0 < req.qty ∧
        (∀ d ∈ r.orders, ¬ HasIds req.clientId req.orderId d) ∨
      req.requestType = .cancel)

instance (r : ReferenceBook) (req : MEClientRequest) : Decidable (r.Accepts req) :=
  inferInstanceAs (Decidable (_ ∧ _))

/-! ## The reference is a book -/

/-- The queues are in order, on their sides, and do not cross. -/
structure Sound (r : ReferenceBook) : Prop where
  bidsRanked : Ranked bidRank r.bids
  asksRanked : Ranked askRank r.asks
  bidSide : ∀ d ∈ r.bids, d.side = .buy
  askSide : ∀ d ∈ r.asks, d.side = .sell
  uncrossed : ∀ d ∈ r.bids, ∀ e ∈ r.asks, d.price < e.price

theorem sound_empty : Sound {} where
  bidsRanked := ranked_nil
  asksRanked := ranked_nil
  bidSide := by simp
  askSide := by simp
  uncrossed := by simp

/-- What decides an order's place in its queue. -/
abbrev place (d : OrderData) : Price × Side := (d.price, d.side)

/-- Trading takes orders off the front of a queue and changes no order's place. -/
theorem trade_suffix (i : MEOrderBook.Incoming) (price : Price) (leftQty : Qty)
    (l : List OrderData) : (trade i price leftQty l).2.1.map place <:+ l.map place := by
  induction l generalizing leftQty with
  | nil => exact List.suffix_refl _
  | cons o rest ih =>
    rw [trade]
    split
    · dsimp only
      split
      · exact (ih _).trans (List.suffix_cons _ _)
      · exact List.suffix_refl _
    · exact List.suffix_refl _

theorem exists_of_mem_trade {i : MEOrderBook.Incoming} {price : Price} {leftQty : Qty}
    {l : List OrderData} {e : OrderData} (he : e ∈ (trade i price leftQty l).2.1) :
    ∃ o ∈ l, o.price = e.price ∧ o.side = e.side := by
  have hm := (trade_suffix i price leftQty l).subset (List.mem_map_of_mem he)
  obtain ⟨o, ho, hoe⟩ := List.mem_map.1 hm
  exact ⟨o, ho, (Prod.mk.inj hoe).1, (Prod.mk.inj hoe).2⟩

theorem ranked_trade {P : Type} [LinearOrder P] (key : Price → P) (i : MEOrderBook.Incoming)
    (price : Price) (leftQty : Qty) {l : List OrderData}
    (h : Ranked (fun d : OrderData => key d.price) l) :
    Ranked (fun d : OrderData => key d.price) (trade i price leftQty l).2.1 := by
  have hmap : ∀ l : List OrderData, Ranked (fun d : OrderData => key d.price) l ↔
      (l.map place).Pairwise fun a b => key a.1 ≤ key b.1 := fun l => by
    rw [List.pairwise_map]; rfl
  rw [hmap] at h ⊢
  exact h.sublist (trade_suffix i price leftQty l).sublist

/-- Trading stops short of an order only because the prices do not cross any more. -/
theorem trade_stops {P : Type} [LinearOrder P] {rank : OrderData → P} (i : MEOrderBook.Incoming)
    (price : Price) (leftQty : Qty) {l : List OrderData} (h : Ranked rank l)
    (hrank : ∀ d e : OrderData, rank d ≤ rank e → Crosses i.side price e.price →
      Crosses i.side price d.price)
    (hleft : (trade i price leftQty l).1 ≠ 0) :
    ∀ e ∈ (trade i price leftQty l).2.1, ¬ Crosses i.side price e.price := by
  induction l generalizing leftQty with
  | nil => simp [trade]
  | cons o rest ih =>
    rw [trade] at hleft ⊢
    split at hleft
    · next hcross =>
      rw [if_pos hcross]
      dsimp only at hleft ⊢
      split at hleft
      · next hfull =>
        rw [if_pos hfull]
        exact ih _ (List.pairwise_cons.1 h).2 hleft
      · next hfull =>
        -- the resting order outlasts the incoming one, so nothing is left of the latter
        exfalso
        rcases Std.MinEqOr.min_eq_or leftQty o.qty with hmin | hmin
        · exact hleft (by rw [hmin, UInt32.sub_self])
        · exact hfull (by rw [hmin, UInt32.sub_self])
    · next hcross =>
      rw [if_neg hcross]
      dsimp only at hleft ⊢
      intro e he hce
      exact hcross ⟨hleft, hrank o e (h.head_le he) hce⟩

/-- A better resting price crosses whenever a worse one does. -/
theorem crosses_of_askRank_le {price : Price} {d e : OrderData} (h : askRank d ≤ askRank e)
    (he : Crosses .buy price e.price) : Crosses .buy price d.price :=
  UInt64.le_trans (UInt64.le_iff_toNat_le.2 h) he

theorem crosses_of_bidRank_le {price : Price} {d e : OrderData} (h : bidRank d ≤ bidRank e)
    (he : Crosses .sell price e.price) : Crosses .sell price d.price :=
  UInt64.le_trans he (UInt64.le_iff_toNat_le.2 (OrderDual.toDual_le_toDual.1 h))

theorem Sound.withBid {r : ReferenceBook} (h : r.Sound) {d : OrderData} (hd : d.side = .buy)
    (hlt : ∀ e ∈ r.asks, d.price < e.price) : (r.enter d).Sound := by
  rw [enter, if_pos hd]
  refine { h with bidsRanked := ranked_enqueue h.bidsRanked, bidSide := ?_, uncrossed := ?_ }
  · intro e he
    rcases mem_enqueue.1 he with rfl | he
    · exact hd
    · exact h.bidSide e he
  · intro e he
    rcases mem_enqueue.1 he with rfl | he
    · exact hlt
    · exact h.uncrossed e he

theorem Sound.withAsk {r : ReferenceBook} (h : r.Sound) {d : OrderData} (hd : d.side = .sell)
    (hlt : ∀ e ∈ r.bids, e.price < d.price) : (r.enter d).Sound := by
  rw [enter, if_neg (by simp [hd])]
  refine { h with asksRanked := ranked_enqueue h.asksRanked, askSide := ?_, uncrossed := ?_ }
  · intro e he
    rcases mem_enqueue.1 he with rfl | he
    · exact hd
    · exact h.askSide e he
  · intro e he f hf
    rcases mem_enqueue.1 hf with rfl | hf
    · exact hlt e he
    · exact h.uncrossed e he f hf

/-- Trading keeps the book in order, whatever it leaves of the other side. -/
theorem Sound.trade {r : ReferenceBook} (h : r.Sound) (i : MEOrderBook.Incoming) (price : Price)
    (qty : Qty) (side : Side) (n : OrderId) : Sound
      { r.withOpposite side (trade i price qty (r.opposite side)).2.1 with
        nextMarketOrderId := n } := by
  by_cases hside : side = .buy
  · subst hside
    have hask := ranked_trade (fun p => p.toNat) i price qty h.asksRanked
    refine { h with asksRanked := hask, askSide := ?_, uncrossed := ?_ }
    · intro e he
      obtain ⟨o, ho, -, hs⟩ := exists_of_mem_trade he
      exact hs.symm.trans (h.askSide o ho)
    · intro d hd e he
      obtain ⟨o, ho, hp, -⟩ := exists_of_mem_trade he
      exact hp ▸ h.uncrossed d hd o ho
  · have hopp : r.opposite side = r.bids := by
      cases side <;> first | rfl | exact absurd rfl hside
    have hbid := ranked_trade (fun p => OrderDual.toDual p.toNat) i price qty h.bidsRanked
    rw [withOpposite, if_neg hside, hopp]
    refine { h with bidsRanked := hbid, bidSide := ?_, uncrossed := ?_ }
    · intro e he
      obtain ⟨o, ho, -, hs⟩ := exists_of_mem_trade he
      exact hs.symm.trans (h.bidSide o ho)
    · intro d hd e he
      obtain ⟨o, ho, hp, -⟩ := exists_of_mem_trade hd
      exact hp ▸ h.uncrossed o ho e he

theorem Sound.remove {r : ReferenceBook} (h : r.Sound) (c : ClientId) (o : OrderId) :
    (r.remove c o).Sound where
  bidsRanked := h.bidsRanked.filter _
  asksRanked := h.asksRanked.filter _
  bidSide := fun d hd => h.bidSide d (List.mem_of_mem_filter hd)
  askSide := fun d hd => h.askSide d (List.mem_of_mem_filter hd)
  uncrossed := fun d hd e he =>
    h.uncrossed d (List.mem_of_mem_filter hd) e (List.mem_of_mem_filter he)

theorem Sound.add {r : ReferenceBook} (h : r.Sound) {req : MEClientRequest}
    (hside : req.side = .buy ∨ req.side = .sell) : (r.add req).1.Sound := by
  have htrade := h.trade (r.incoming req) req.price req.qty req.side (r.nextMarketOrderId + 1)
  rw [ReferenceBook.add]
  dsimp only
  split
  · exact htrade
  · next hleft =>
    rcases hside with hs | hs
    · refine htrade.withBid hs fun e he => ?_
      rw [hs] at he hleft
      have hstop := trade_stops (r.incoming req) req.price req.qty h.asksRanked
        (fun d e hde hce => by
          rw [show (r.incoming req).side = .buy from hs] at hce ⊢
          exact crosses_of_askRank_le hde hce) hleft e he
      rw [show (r.incoming req).side = .buy from hs] at hstop
      exact UInt64.not_le.1 hstop
    · refine htrade.withAsk hs fun e he => ?_
      rw [hs] at he hleft
      have hstop := trade_stops (r.incoming req) req.price req.qty h.bidsRanked
        (fun d e hde hce => by
          rw [show (r.incoming req).side = .sell from hs] at hce ⊢
          exact crosses_of_bidRank_le hde hce) hleft e he
      rw [show (r.incoming req).side = .sell from hs] at hstop
      exact UInt64.not_le.1 hstop

/-- **The reference never crosses**: a request it accepts leaves both queues ranked and the best bid
below the best ask. -/
theorem Sound.process {r : ReferenceBook} (h : r.Sound) {req : MEClientRequest}
    (hv : r.Accepts req) : (r.process req).1.Sound := by
  obtain ⟨-, -, ⟨hn, hs, -⟩ | hn⟩ := hv
  · rw [process_of_new hn]
    exact h.add hs
  · rw [process_of_cancel hn, cancel]
    split
    · exact h
    · exact h.remove _ _

/-! ## Requests that trade with nothing -/

theorem crosses_self (side : Side) (price : Price) : Crosses side price price := by
  rw [Crosses]
  split <;> exact UInt64.le_refl price

/-- When the best of a queue does not cross, nothing is traded. -/
theorem trade_eq_self (i : MEOrderBook.Incoming) (price : Price) (leftQty : Qty)
    {l : List OrderData} (h : ∀ e ∈ l, ¬ Crosses i.side price e.price) :
    trade i price leftQty l = (leftQty, l, []) := by
  cases l with
  | nil => rfl
  | cons o rest => rw [trade, if_neg fun hc => h o List.mem_cons_self hc.2]

/-- When the best of a queue crosses, the incoming order is told so first. -/
theorem exists_trade_sent {i : MEOrderBook.Incoming} {price : Price} {leftQty : Qty} {o : OrderData}
    (rest : List OrderData) (hq : leftQty ≠ 0) (h : Crosses i.side price o.price) :
    ∃ m more, (trade i price leftQty (o :: rest)).2.2 = .clientResponse m :: more := by
  rw [trade, if_pos ⟨hq, h⟩]
  dsimp only
  split <;> exact ⟨_, _, rfl⟩

theorem withOpposite_opposite (r : ReferenceBook) (side : Side) :
    r.withOpposite side (r.opposite side) = r := by
  cases side <;> rfl

/-- An order that crosses nothing rests in full. -/
theorem add_eq_enter {r : ReferenceBook} {req : MEClientRequest} (hq : req.qty ≠ 0)
    (h : ∀ e ∈ r.opposite req.side, ¬ Crosses req.side req.price e.price) : r.add req =
      (({ r with nextMarketOrderId := r.nextMarketOrderId + 1 } : ReferenceBook).enter
          (r.restingOrder req req.qty),
        [.clientResponse (MEOrderBook.acceptedResponse r.nextMarketOrderId req),
          .marketUpdate (MEOrderBook.addUpdate (r.restingOrder req req.qty))]) := by
  have htrade := trade_eq_self (r.incoming req) req.price req.qty h
  rw [add, htrade]
  simp only [if_neg hq, withOpposite_opposite]
  rfl

/-- The messages of `add`: the acceptance, the fills, and the update of what rests. -/
theorem exists_add_sent (r : ReferenceBook) (req : MEClientRequest) : ∃ more, (r.add req).2 =
    .clientResponse (MEOrderBook.acceptedResponse r.nextMarketOrderId req) ::
      ((trade (r.incoming req) req.price req.qty (r.opposite req.side)).2.2 ++ more) := by
  rw [add]
  dsimp only
  split
  · exact ⟨[], by simp⟩
  · exact ⟨_, rfl⟩

/-- Whatever crosses, the best of the queue does. -/
theorem Sound.head_crosses {r : ReferenceBook} (h : r.Sound) {side : Side} {price : Price}
    (hside : side = .buy ∨ side = .sell) {o e : OrderData} {rest : List OrderData}
    (hl : r.opposite side = o :: rest) (he : e ∈ o :: rest) (hc : Crosses side price e.price) :
    Crosses side price o.price := by
  rcases hside with rfl | rfl
  · have hrank : Ranked askRank (o :: rest) := hl ▸ h.asksRanked
    exact crosses_of_askRank_le (hrank.head_le he) hc
  · have hrank : Ranked bidRank (o :: rest) := hl ▸ h.bidsRanked
    exact crosses_of_bidRank_le (hrank.head_le he) hc

/-- A part of the book without orders of the other side is a part of the own queue. -/
theorem filter_orders {r : ReferenceBook} (side : Side) {p : OrderData → Bool}
    (h : ∀ e ∈ r.opposite side, ¬ p e) : r.orders.filter p = (r.own side).filter p := by
  have hnil : (r.opposite side).filter p = [] := List.filter_eq_nil_iff.2 h
  rw [orders, List.filter_append]
  by_cases hs : side = .buy
  · subst hs
    rw [show r.asks.filter p = [] from hnil, List.append_nil]
    rfl
  · have hown : r.own side = r.asks ∧ r.opposite side = r.bids := by
      cases side <;> first | exact ⟨rfl, rfl⟩ | exact absurd rfl hs
    rw [hown.2] at hnil
    rw [hnil, hown.1, List.nil_append]

theorem mem_orders_enter {r : ReferenceBook} {d e : OrderData} :
    e ∈ (r.enter d).orders ↔ e = d ∨ e ∈ r.orders := by
  rw [enter]
  split
  · simp only [orders, List.mem_append, mem_enqueue, or_assoc]
  · simp only [orders, List.mem_append, mem_enqueue]
    tauto

end ReferenceBook
end Exchange
end TradingEcosystem
