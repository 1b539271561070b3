import TradingEcosystem.Trading.OrderManager
import TradingEcosystem.Lib.Along

/-!
# Stale and repeated responses

A slot is used by one order after the other, and `onOrderUpdate` picks the slot of a response by its
ticker and side alone: it never looks at `client_order_id_`.  So a response that is late or comes
twice is applied to whatever order the slot has by then.  `along_unharmed_iff` says which of them
do nothing all the same.

The runs are those of the manager alone, with any responses in any order: whatever is delayed or
duplicated on the way is among them.
-/

set_option autoImplicit false

namespace TradingEcosystem
namespace Trading

open Run

/-- A call of the manager. -/
inductive ManagerCall where
  | moveOrders (tickerId : TickerId) (bidPrice askPrice : Price) (clip : Qty)
  | onOrderUpdate (response : MEClientResponse)

/-- The manager, and the responses that were applied, each with the order it was applied to. -/
structure ManagerRun where
  manager : OrderManager
  applied : List (OMOrder × MEClientResponse) := []

namespace ManagerRun

/-- One call. -/
def step (x : ManagerRun) : ManagerCall → Except Fault ManagerRun
  | .moveOrders tickerId bidPrice askPrice clip => do
    let (manager, _) ← x.manager.moveOrders tickerId bidPrice askPrice clip
    return { x with manager }
  | .onOrderUpdate response => do
    let order ← x.manager.orderAt response.tickerId response.side
    let manager ← x.manager.onOrderUpdate response
    return { manager, applied := x.applied ++ [(order, response)] }

/-- A call takes the run on. -/
def Next (x : ManagerRun) (call : ManagerCall) (x' : ManagerRun) : Prop := x.step call = .ok x'

/-- The response is not about the order `o` in its slot, or repeats one that was applied to it. -/
def Late (x : ManagerRun) (o : OMOrder) (r : MEClientResponse) : Prop :=
  r.clientOrderId ≠ o.orderId ∨ ∃ o₀, (o₀, r) ∈ x.applied ∧ o₀.orderId = o.orderId

/-- **A late response does no harm**: if the call is one, it leaves every slot unchanged. -/
def Unharmed (x : ManagerRun) (call : ManagerCall) : Prop :=
  ∀ r o, call = .onOrderUpdate r → x.manager.orderAt r.tickerId r.side = .ok o → x.Late o r →
    ∃ m', x.manager.onOrderUpdate r = .ok m' ∧ m'.tickerOrders = x.manager.tickerOrders

/-- A response that says of an order what the slot says already. -/
def SaysNothingNew (o : OMOrder) (r : MEClientResponse) : Prop :=
  match r.type with
  | .accepted => o.orderState = .live
  | .canceled => o.orderState = .dead
  | .filled => r.leftQty = o.qty ∧ (o.qty = 0 → o.orderState = .dead)
  | _ => True

/-- The condition: a late response says nothing new about the order in its slot. -/
def LateSaysNothingNew (x : ManagerRun) (call : ManagerCall) : Prop :=
  ∀ r o, call = .onOrderUpdate r → x.manager.orderAt r.tickerId r.side = .ok o → x.Late o r →
    SaysNothingNew o r

end ManagerRun

/-! ## One response -/

namespace OrderManager

variable {m : OrderManager} {o : OMOrder} {r : MEClientResponse}

theorem followed_eq_iff : followed o r = o ↔ ManagerRun.SaysNothingNew o r := by
  obtain ⟨tickerId, orderId, side, price, qty, orderState⟩ := o
  rw [followed, ManagerRun.SaysNothingNew]
  cases r.type with
  | accepted => exact ⟨fun h => (OMOrder.mk.inj h).2.2.2.2.2.symm, fun h => congrArg _ h.symm⟩
  | canceled => exact ⟨fun h => (OMOrder.mk.inj h).2.2.2.2.2.symm, fun h => congrArg _ h.symm⟩
  | filled =>
    dsimp only
    split
    · next hleft =>
      rw [hleft]
      constructor
      · intro h
        obtain ⟨-, -, -, -, hqty, hstate⟩ := OMOrder.mk.inj h
        exact ⟨hqty, fun _ => hstate.symm⟩
      · rintro ⟨rfl, hdead⟩
        rw [hdead rfl]
    · next hleft =>
      constructor
      · intro h
        obtain ⟨-, -, -, -, hqty, -⟩ := OMOrder.mk.inj h
        exact ⟨hqty, fun hzero => absurd (hqty.trans hzero) hleft⟩
      · rintro ⟨rfl, -⟩
        rfl
  | invalid => exact iff_of_true rfl trivial
  | partialFill => exact iff_of_true rfl trivial
  | cancelRejected => exact iff_of_true rfl trivial
  | unnamed => exact iff_of_true rfl trivial

/-- Writing to a slot what is there. -/
theorem setOrder_order (m : OrderManager) (t : TickerId) (s : Side) :
    m.setOrder t s (m.order t s) = m := by
  rw [setOrder, order, Function.update_eq_self, Function.update_eq_self]

theorem onOrderUpdate_of_orderAt (h : m.orderAt r.tickerId r.side = .ok o) :
    m.onOrderUpdate r = .ok (m.setOrder r.tickerId r.side (followed o r)) := by
  have hkept : m.setOrder r.tickerId r.side o = m := orderAt_eq_ok h ▸ setOrder_order m _ _
  rw [onOrderUpdate, h, ok_bind, followed]
  split
  · rfl
  · rfl
  · rfl
  · rw [hkept]
    rfl

/-- **One response** leaves every slot unchanged exactly when it says nothing new. -/
theorem unchanged_iff (h : m.orderAt r.tickerId r.side = .ok o) :
    (∃ m', m.onOrderUpdate r = .ok m' ∧ m'.tickerOrders = m.tickerOrders) ↔
      ManagerRun.SaysNothingNew o r := by
  have ho : m.order r.tickerId r.side = o := orderAt_eq_ok h
  rw [onOrderUpdate_of_orderAt h, ← followed_eq_iff]
  constructor
  · rintro ⟨m', hm', hslots⟩
    obtain rfl := Except.ok.inj hm'
    have hslot : (m.setOrder r.tickerId r.side (followed o r)).order r.tickerId r.side =
        m.order r.tickerId r.side := by
      rw [order, order, hslots]
    rw [order_setOrder_self, ho] at hslot
    exact hslot
  · intro hsame
    refine ⟨_, rfl, ?_⟩
    rw [hsame, ← ho, setOrder_order]

end OrderManager

namespace ManagerRun

theorem unharmed_iff (x : ManagerRun) (call : ManagerCall) :
    x.Unharmed call ↔ x.LateSaysNothingNew call := by
  refine forall_congr' fun r => forall_congr' fun o => ?_
  refine imp_congr_right fun _ => imp_congr_right fun ho => imp_congr_right fun _ => ?_
  exact OrderManager.unchanged_iff ho

theorem along_iff (x : ManagerRun) (calls : List ManagerCall) :
    Along Next Unharmed x calls ↔ Along Next LateSaysNothingNew x calls :=
  along_congr (fun _ => True) (fun _ _ => True) (fun x call _ _ => x.unharmed_iff call)
    (fun _ _ _ _ _ _ _ => trivial) trivial (along_of_forall (fun _ _ => trivial) _ _)

/-- **Stale and repeated responses do no harm** in a run of the manager exactly when each of them
says nothing new about the order it finds in its slot. -/
theorem along_unharmed_iff (clientId : ClientId) (calls : List ManagerCall) :
    Along Next Unharmed { manager := { clientId } } calls ↔
      Along Next LateSaysNothingNew { manager := { clientId } } calls :=
  along_iff _ calls

/-- What the exchange says of the buy order of ticker 0. -/
def buyResponse (type : ClientResponseType) (clientOrderId : OrderId) : MEClientResponse where
  type := type
  clientId := 1
  tickerId := 0
  clientOrderId := clientOrderId
  markerOrderId := clientOrderId
  side := .buy
  price := 100
  execQty := 0
  leftQty := 5

/-- Order 1 is accepted, cancelled for a new price, and followed by order 3. -/
def replaced : List ManagerCall :=
  [.moveOrders 0 100 101 5, .onOrderUpdate (buyResponse .accepted 1), .moveOrders 0 99 101 5,
    .onOrderUpdate (buyResponse .canceled 1), .moveOrders 0 99 101 5]

/-- The acceptance of order 1 comes once more, and order 3, which is on its way, is live. -/
theorem not_along_unharmed : ¬ ∀ clientId calls,
    Along Next Unharmed { manager := { clientId } } calls := by
  intro h
  have hrun : ∃ x : ManagerRun, replaced.foldlM step { manager := { clientId := 1 } } = .ok x ∧
      ∃ o, x.manager.orderAt 0 .buy = .ok o ∧ o.orderId = 3 ∧ o.orderState = .pendingNew :=
    ⟨_, rfl, _, rfl, rfl, rfl⟩
  obtain ⟨x, hx, o, ho, hid, hstate⟩ := hrun
  have hcond := ((along_iff _ _).1 (h 1 (replaced ++ [.onOrderUpdate (buyResponse .accepted 1)]))
    ).of_foldlM (fun _ _ _ hn => hn) hx
  have hlive : o.orderState = .live :=
    hcond (buyResponse .accepted 1) o rfl ho (Or.inl (by rw [hid]; decide))
  rw [hstate] at hlive
  exact absurd hlive (by decide)

end ManagerRun
end Trading
end TradingEcosystem
