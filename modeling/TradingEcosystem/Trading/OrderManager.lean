import TradingEcosystem.Common.Messages

/-!
# The order manager

`trading_system/strategy/order_manager.{h,cpp}`.  The manager has a slot for each ticker and side;
`moveOrders` moves the two orders of a ticker to new prices and `onOrderUpdate` follows what the
exchange says about them.

The calls that send a request are comments in the source; here each function returns the requests it
builds, in the order it builds them.  The risk check is a comment as well and always passes.
-/

set_option autoImplicit false

namespace TradingEcosystem
namespace Trading

/-- `OMOrderState`. -/
inductive OMOrderState where
  | invalid
  | pendingNew
  | live
  | pendingCancel
  | dead
  deriving DecidableEq

/-- `OMOrder`. -/
structure OMOrder where
  tickerId : TickerId := tickerIdInvalid
  orderId : OrderId := orderIdInvalid
  side : Side := .invalid
  price : Price := priceInvalid
  qty : Qty := qtyInvalid
  orderState : OMOrderState := .invalid
  deriving DecidableEq

/-- `OrderManager`, with the client id of its trade engine.  The slots are read below their two
bounds only. -/
structure OrderManager where
  clientId : ClientId
  tickerOrders : TickerId → UInt64 → OMOrder := fun _ _ => {}
  nextOrderId : OrderId := 1

namespace OrderManager

/-- The slot of a ticker and a side. -/
def order (m : OrderManager) (tickerId : TickerId) (side : Side) : OMOrder :=
  m.tickerOrders tickerId (sideToIndex side)

/-- Writing to the slot of a ticker and a side. -/
def setOrder (m : OrderManager) (tickerId : TickerId) (side : Side) (order : OMOrder) :
    OrderManager :=
  let row := Function.update (m.tickerOrders tickerId) (sideToIndex side) order
  { m with tickerOrders := Function.update m.tickerOrders tickerId row }

/-- `ticker_orders_.at(tickerId).at(sideToIndex(side))`. -/
def orderAt (m : OrderManager) (tickerId : TickerId) (side : Side) : Except Fault OMOrder :=
  if tickerId.toNat < meMaxTickers ∧ sideToIndex side ≤ sideToIndex .max then
    .ok (m.order tickerId side)
  else .error .outOfRange

/-- `newOrder` on the slot of the ticker and the side. -/
def newOrder (m : OrderManager) (tickerId : TickerId) (price : Price) (side : Side) (qty : Qty) :
    OrderManager × MEClientRequest :=
  let newRequest : MEClientRequest :=
    { requestType := .new, clientId := m.clientId, tickerId, orderId := m.nextOrderId, price, qty,
      side }
  let m := m.setOrder tickerId side
    { tickerId, orderId := m.nextOrderId, side, price, qty, orderState := .pendingNew }
  ({ m with nextOrderId := m.nextOrderId + 1 }, newRequest)

/-- `cancelOrder` on the slot of the ticker and the side. -/
def cancelOrder (m : OrderManager) (tickerId : TickerId) (side : Side) :
    OrderManager × MEClientRequest :=
  let order := m.order tickerId side
  (m.setOrder tickerId side { order with orderState := .pendingCancel },
    { requestType := .cancel, clientId := m.clientId, tickerId := order.tickerId,
      orderId := order.orderId, price := order.price, qty := order.qty, side := order.side })

/-- `moveOrder` on the slot of the ticker and the side. -/
def moveOrder (m : OrderManager) (tickerId : TickerId) (price : Price) (side : Side) (qty : Qty) :
    OrderManager × List MEClientRequest :=
  let order := m.order tickerId side
  match order.orderState with
  | .live =>
    if order.price ≠ price ∨ order.qty ≠ qty then
      let (m, request) := m.cancelOrder tickerId side
      (m, [request])
    else (m, [])
  | .invalid | .dead =>
    let (m, request) := m.newOrder tickerId price side qty
    (m, [request])
  | .pendingNew | .pendingCancel => (m, [])

/-- `moveOrders`. -/
def moveOrders (m : OrderManager) (tickerId : TickerId) (bidPrice askPrice : Price) (clip : Qty) :
    Except Fault (OrderManager × List MEClientRequest) := do
  let _ ← m.orderAt tickerId .buy
  let (m, bidRequests) := m.moveOrder tickerId bidPrice .buy clip
  let _ ← m.orderAt tickerId .sell
  let (m, askRequests) := m.moveOrder tickerId askPrice .sell clip
  return (m, bidRequests ++ askRequests)

/-- `onOrderUpdate`. -/
def onOrderUpdate (m : OrderManager) (response : MEClientResponse) : Except Fault OrderManager := do
  let order ← m.orderAt response.tickerId response.side
  match response.type with
  | .accepted =>
    return m.setOrder response.tickerId response.side { order with orderState := .live }
  | .canceled =>
    return m.setOrder response.tickerId response.side { order with orderState := .dead }
  | .filled =>
    let order := { order with qty := response.leftQty }
    return m.setOrder response.tickerId response.side
      (if order.qty = 0 then { order with orderState := .dead } else order)
  | _ => return m

/-! ## Slots -/

variable {m m' : OrderManager} {t t' : TickerId} {s s' : Side}

@[simp] theorem order_setOrder_self (o : OMOrder) : (m.setOrder t s o).order t s = o := by
  simp [setOrder, order]

/-- Writing to one slot leaves the others. -/
theorem order_setOrder_of_ne (o : OMOrder) (h : t' = t → sideToIndex s' ≠ sideToIndex s) :
    (m.setOrder t s o).order t' s' = m.order t' s' := by
  rw [setOrder, order, order]
  by_cases ht : t' = t
  · subst ht
    dsimp only
    rw [Function.update_self, Function.update_of_ne (h rfl)]
  · dsimp only
    rw [Function.update_of_ne ht]

theorem orderAt_eq_ok {o : OMOrder} (h : m.orderAt t s = .ok o) : m.order t s = o := by
  rw [orderAt] at h
  split at h
  · exact Except.ok.inj h
  · exact absurd h (by simp)

/-- **What a move can do**: cancel a live order, send a new one into a free slot, or wait. -/
theorem moveOrder_cases (m : OrderManager) (t : TickerId) (price : Price) (s : Side) (qty : Qty) :
    ((m.order t s).orderState = .live ∧
      ((m.order t s).price ≠ price ∨ (m.order t s).qty ≠ qty) ∧
      m.moveOrder t price s qty = ((m.cancelOrder t s).1, [(m.cancelOrder t s).2])) ∨
    (((m.order t s).orderState = .invalid ∨ (m.order t s).orderState = .dead) ∧
      m.moveOrder t price s qty =
        ((m.newOrder t price s qty).1, [(m.newOrder t price s qty).2])) ∨
    m.moveOrder t price s qty = (m, []) := by
  rw [moveOrder]
  cases hstate : (m.order t s).orderState with
  | live =>
    by_cases hdiff : (m.order t s).price ≠ price ∨ (m.order t s).qty ≠ qty
    · exact Or.inl ⟨rfl, hdiff, by simp only [if_pos hdiff]⟩
    · exact Or.inr (Or.inr (by simp only [if_neg hdiff]))
  | invalid => exact Or.inr (Or.inl ⟨Or.inl rfl, rfl⟩)
  | dead => exact Or.inr (Or.inl ⟨Or.inr rfl, rfl⟩)
  | pendingNew => exact Or.inr (Or.inr rfl)
  | pendingCancel => exact Or.inr (Or.inr rfl)

/-- A move leaves the other slots. -/
theorem order_moveOrder_of_ne (price : Price) (qty : Qty)
    (h : t' = t → sideToIndex s' ≠ sideToIndex s) :
    (m.moveOrder t price s qty).1.order t' s' = m.order t' s' := by
  rcases moveOrder_cases m t price s qty with ⟨-, -, hm⟩ | ⟨-, hm⟩ | hm <;> rw [hm]
  · exact order_setOrder_of_ne _ h
  · exact order_setOrder_of_ne _ h

theorem clientId_moveOrder (m : OrderManager) (t : TickerId) (price : Price) (s : Side)
    (qty : Qty) : (m.moveOrder t price s qty).1.clientId = m.clientId := by
  rcases moveOrder_cases m t price s qty with ⟨-, -, hm⟩ | ⟨-, hm⟩ | hm <;> rw [hm]
  · rfl
  · rfl

/-- The `NEW` requests of a move are for its slot. -/
theorem mem_moveOrder {price : Price} {qty : Qty} {r : MEClientRequest}
    (hr : r ∈ (m.moveOrder t price s qty).2) (hn : r.requestType = .new) :
    r.tickerId = t ∧ r.side = s := by
  rcases moveOrder_cases m t price s qty with ⟨-, -, hm⟩ | ⟨-, hm⟩ | hm <;> rw [hm] at hr
  · obtain rfl := List.mem_singleton.1 hr
    exact absurd hn (by simp [cancelOrder])
  · obtain rfl := List.mem_singleton.1 hr
    exact ⟨rfl, rfl⟩
  · exact absurd hr List.not_mem_nil

/-- `moveOrders` is a move of the bid and then a move of the ask. -/
theorem moveOrders_eq_ok {bid ask : Price} {clip : Qty} {rs : List MEClientRequest}
    (h : m.moveOrders t bid ask clip = .ok (m', rs)) : ∃ m₁,
      m₁ = (m.moveOrder t bid .buy clip).1 ∧ m' = (m₁.moveOrder t ask .sell clip).1 ∧
      rs = (m.moveOrder t bid .buy clip).2 ++ (m₁.moveOrder t ask .sell clip).2 := by
  obtain ⟨_, -, h⟩ := bind_eq_ok.1 h
  obtain ⟨_, -, h⟩ := bind_eq_ok.1 h
  obtain ⟨rfl, rfl⟩ := Prod.mk.inj (Except.ok.inj h)
  exact ⟨_, rfl, rfl, rfl⟩

theorem tickerId_lt_of_moveOrders {bid ask : Price} {clip : Qty} {rs : List MEClientRequest}
    (h : m.moveOrders t bid ask clip = .ok (m', rs)) : t.toNat < meMaxTickers := by
  obtain ⟨o, ho, -⟩ := bind_eq_ok.1 h
  rw [orderAt] at ho
  split at ho
  · next hlt => exact hlt.1
  · exact absurd ho (by simp)

/-- What a response makes of the order in its slot. -/
def followed (o : OMOrder) (r : MEClientResponse) : OMOrder :=
  match r.type with
  | .accepted => { o with orderState := .live }
  | .canceled => { o with orderState := .dead }
  | .filled =>
    if r.leftQty = 0 then { o with qty := r.leftQty, orderState := .dead }
    else { o with qty := r.leftQty }
  | _ => o

/-- A response moves the order in its slot, and no other. -/
theorem onOrderUpdate_eq_ok {r : MEClientResponse} (h : m.onOrderUpdate r = .ok m') :
    m'.order r.tickerId r.side = followed (m.order r.tickerId r.side) r ∧
      (∀ t' s', (t' = r.tickerId → sideToIndex s' ≠ sideToIndex r.side) →
        m'.order t' s' = m.order t' s') ∧
      m'.clientId = m.clientId ∧ m'.nextOrderId = m.nextOrderId := by
  obtain ⟨o, ho, h⟩ := bind_eq_ok.1 h
  obtain rfl := orderAt_eq_ok ho
  rw [followed]
  split at h
  all_goals
    obtain rfl := Except.ok.inj h
    refine ⟨?_, fun t' s' hne => ?_, rfl, rfl⟩
  any_goals exact order_setOrder_of_ne _ hne
  · exact order_setOrder_self _
  · exact order_setOrder_self _
  · rw [order_setOrder_self]
  · rfl
  · rfl

end OrderManager
end Trading
end TradingEcosystem
