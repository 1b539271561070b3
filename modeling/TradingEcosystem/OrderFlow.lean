import TradingEcosystem.Exchange.MatchingEngine
import TradingEcosystem.Trading.OrderManager
import Mathlib.Logic.Relation

/-!
# The order manager and the exchange

An order manager on one side, the exchange on the other, and a queue of messages each way.  The
exchange is what its clients may count on, with the responses of the order book: a `NEW` is accepted
and stays open with what is left of it, an open order is filled bit by bit, a `CANCEL` takes its
order out if it is still open and is rejected otherwise.  Everything happens in any order.

`at_most_one` says that the manager never has two orders out for one ticker and side.  What carries
it is an account of each slot, `SlotOk`: the state of the slot fixes what can be on its way to the
exchange, what can be open there, and which responses can be on their way back (`Trace`).

`OrderFlowEngine` puts the matching engine of the source in the exchange's place.
-/

set_option autoImplicit false

namespace TradingEcosystem
namespace OrderFlow

open Exchange Exchange.MEOrderBook Trading

/-! ## The system -/

/-- The manager, its open orders at the exchange, and the messages in flight, oldest first. -/
structure System where
  manager : OrderManager
  requests : List MEClientRequest := []
  openOrders : List OrderData := []
  responses : List MEClientResponse := []

/-- The order a `NEW` request leaves at the exchange. -/
def orderOf (r : MEClientRequest) (marketOrderId : OrderId) (priority : Priority) : OrderData where
  tickerId := r.tickerId
  clientId := r.clientId
  clientOrderId := r.orderId
  marketOrderId := marketOrderId
  side := r.side
  price := r.price
  qty := r.qty
  priority := priority

/-- An order without quantity is not kept. -/
def kept (o : OrderData) : List OrderData := if o.qty = 0 then [] else [o]

theorem eq_of_mem_kept {o o' : OrderData} (h : o' ∈ kept o) : o' = o := by
  rw [kept] at h
  split at h
  · exact absurd h List.not_mem_nil
  · exact List.mem_singleton.1 h

/-- The order after a fill. -/
def filled (o : OrderData) (execQty : Qty) : OrderData := { o with qty := o.qty - execQty }

/-- The response to a fill. -/
def filledResponse (o : OrderData) (price : Price) (execQty : Qty) : MEClientResponse where
  type := .filled
  clientId := o.clientId
  tickerId := o.tickerId
  clientOrderId := o.clientOrderId
  markerOrderId := o.marketOrderId
  side := o.side
  price := price
  execQty := execQty
  leftQty := o.qty - execQty

/-- The order a `CANCEL` request names. -/
def Names (r : MEClientRequest) (o : OrderData) : Prop :=
  o.tickerId = r.tickerId ∧ o.clientId = r.clientId ∧ o.clientOrderId = r.orderId

inductive Event where
  /-- The strategy calls `moveOrders`. -/
  | move (tickerId : TickerId) (bidPrice askPrice : Price) (clip : Qty)
  /-- The exchange does something. -/
  | exchange
  /-- A response is delivered to `onOrderUpdate`. -/
  | deliver

/-- A step of the system. -/
inductive Step (x : System) : Event → System → Prop where
  | move {t : TickerId} {bid ask : Price} {clip : Qty} {m : OrderManager}
      {rs : List MEClientRequest} (hm : x.manager.moveOrders t bid ask clip = .ok (m, rs)) :
      Step x (.move t bid ask clip) { x with manager := m, requests := x.requests ++ rs }
  | accept {r : MEClientRequest} {rest : List MEClientRequest} {id : OrderId}
      {priority : Priority} (hr : x.requests = r :: rest) (hn : r.requestType = .new) :
      Step x .exchange { x with
        requests := rest
        openOrders := x.openOrders ++ kept (orderOf r id priority)
        responses := x.responses ++ [acceptedResponse id r] }
  | cancel {r : MEClientRequest} {rest : List MEClientRequest} {o : OrderData}
      {before behind : List OrderData} (hr : x.requests = r :: rest)
      (hn : r.requestType = .cancel) (ho : x.openOrders = before ++ o :: behind)
      (hnames : Names r o) :
      Step x .exchange { x with
        requests := rest
        openOrders := before ++ behind
        responses := x.responses ++ [canceledResponse r o] }
  | reject {r : MEClientRequest} {rest : List MEClientRequest} (hr : x.requests = r :: rest)
      (hn : r.requestType = .cancel) (hnone : ∀ o ∈ x.openOrders, ¬ Names r o) :
      Step x .exchange { x with
        requests := rest
        responses := x.responses ++ [cancelRejectedResponse r] }
  | fill {o : OrderData} {before behind : List OrderData} {price : Price} {execQty : Qty}
      (ho : x.openOrders = before ++ o :: behind) (hpos : execQty ≠ 0) (hle : execQty ≤ o.qty) :
      Step x .exchange { x with
        openOrders := before ++ kept (filled o execQty) ++ behind
        responses := x.responses ++ [filledResponse o price execQty] }
  | deliver {r : MEClientResponse} {rest : List MEClientResponse} {m : OrderManager}
      (hr : x.responses = r :: rest) (hm : x.manager.onOrderUpdate r = .ok m) :
      Step x .deliver { x with manager := m, responses := rest }

/-- The states of runs all of whose steps meet a condition. -/
def Reachable (cond : System → Event → Prop) (clientId : ClientId) : System → Prop :=
  Relation.ReflTransGen (fun x x' => ∃ e, cond x e ∧ Step x e x') { manager := { clientId } }

/-! ## One slot's share -/

section Share

variable (t : TickerId) (s : Side)

/-- The `NEW` requests of a slot. -/
def newsOf (l : List MEClientRequest) : List MEClientRequest :=
  l.filter fun r => r.requestType = .new ∧ r.tickerId = t ∧ r.side = s

/-- The open orders of a slot. -/
def openOf (l : List OrderData) : List OrderData := l.filter fun o => o.tickerId = t ∧ o.side = s

/-- The responses for a slot. -/
def responsesOf (l : List MEClientResponse) : List MEClientResponse :=
  l.filter fun r => r.tickerId = t ∧ r.side = s

variable {t s}

theorem openOf_append (l l' : List OrderData) :
    openOf t s (l ++ l') = openOf t s l ++ openOf t s l' := List.filter_append _ _

theorem openOf_kept (o : OrderData) :
    openOf t s (kept o) = if o.tickerId = t ∧ o.side = s then kept o else [] := by
  rw [kept]
  split
  · simp [openOf]
  · by_cases h : o.tickerId = t ∧ o.side = s <;> simp [openOf, h]

theorem openOf_split {o : OrderData} {before behind : List OrderData} :
    openOf t s (before ++ o :: behind) = if o.tickerId = t ∧ o.side = s
      then openOf t s before ++ o :: openOf t s behind
      else openOf t s before ++ openOf t s behind := by
  rw [openOf, List.filter_append, List.filter_cons]
  by_cases h : o.tickerId = t ∧ o.side = s <;> simp [h, openOf]

theorem newsOf_cons_of_not {r : MEClientRequest} {l : List MEClientRequest}
    (h : ¬ (r.requestType = .new ∧ r.tickerId = t ∧ r.side = s)) :
    newsOf t s (r :: l) = newsOf t s l := by
  rw [newsOf, List.filter_cons_of_neg (by simpa using h)]
  rfl

theorem responsesOf_concat (l : List MEClientResponse) (r : MEClientResponse) :
    responsesOf t s (l ++ [r]) =
      if r.tickerId = t ∧ r.side = s then responsesOf t s l ++ [r] else responsesOf t s l := by
  rw [responsesOf, List.filter_append, List.filter_singleton]
  by_cases h : r.tickerId = t ∧ r.side = s <;> simp [h, responsesOf]

end Share

/-! ## What a step does to a slot -/

/-- The sides the manager trades on. -/
def Traded (s : Side) : Prop := s = .buy ∨ s = .sell

theorem Traded.index_ne {s s' : Side} (hs : Traded s) (hs' : Traded s') (h : s' ≠ s) :
    sideToIndex s' ≠ sideToIndex s := by
  rcases hs with rfl | rfl <;> rcases hs' with rfl | rfl <;> first | exact absurd rfl h | decide

theorem Traded.index_ne_invalid {s : Side} (hs : Traded s) :
    sideToIndex s ≠ sideToIndex .invalid := by
  rcases hs with rfl | rfl <;> decide

/-- What concerns a slot: its order, the `NEW` requests, the open orders and the responses. -/
structure SlotView where
  order : OMOrder
  news : List MEClientRequest
  opens : List OrderData
  responses : List MEClientResponse

/-- The slot of a ticker and a side. -/
def System.slot (x : System) (t : TickerId) (s : Side) : SlotView where
  order := x.manager.order t s
  news := newsOf t s x.requests
  opens := openOf t s x.openOrders
  responses := responsesOf t s x.responses

/-- **What a step can do to a slot.** -/
inductive SlotStep (v : SlotView) : SlotView → Prop
  | stay : SlotStep v v
  /-- A live order is to be cancelled. -/
  | withdraw (hlive : v.order.orderState = .live) :
      SlotStep v { v with order := { v.order with orderState := .pendingCancel } }
  /-- A new order is put into the slot. -/
  | submit {o : OMOrder} {r : MEClientRequest}
      (hfree : v.order.orderState = .invalid ∨ v.order.orderState = .dead)
      (hs : o.orderState = .pendingNew) (hid : r.orderId = o.orderId) (hprice : r.price = o.price)
      (hqty : r.qty = o.qty) : SlotStep v { v with order := o, news := v.news ++ [r] }
  | accept {r : MEClientRequest} {N : List MEClientRequest} {id : OrderId} {priority : Priority}
      (hN : v.news = r :: N) : SlotStep v { v with
        news := N
        opens := v.opens ++ kept (orderOf r id priority)
        responses := v.responses ++ [acceptedResponse id r] }
  | cancel {r : MEClientRequest} {d : OrderData} {A B : List OrderData}
      (hO : v.opens = A ++ d :: B) : SlotStep v { v with
        opens := A ++ B
        responses := v.responses ++ [canceledResponse r d] }
  | fill {d : OrderData} {A B : List OrderData} {price : Price} {execQty : Qty}
      (hO : v.opens = A ++ d :: B) (hle : execQty ≤ d.qty) : SlotStep v { v with
        opens := A ++ kept (filled d execQty) ++ B
        responses := v.responses ++ [filledResponse d price execQty] }
  | deliver {r : MEClientResponse} {R : List MEClientResponse} (hR : v.responses = r :: R) :
      SlotStep v { v with order := OrderManager.followed v.order r, responses := R }

section Slots

variable {x : System} {t : TickerId} {s : Side}

/-- What a move does to the slot it is for. -/
theorem slotStep_move (m : OrderManager) (p : Price) (qty : Qty) (O : List OrderData)
    (N : List MEClientRequest) (R : List MEClientResponse) :
    SlotStep ⟨m.order t s, N, O, R⟩ ⟨(m.moveOrder t p s qty).1.order t s,
      N ++ newsOf t s (m.moveOrder t p s qty).2, O, R⟩ := by
  rcases m.moveOrder_cases t p s qty with ⟨hlive, -, hm⟩ | ⟨hidle, hm⟩ | hm <;> rw [hm]
  · -- a request that is not a `NEW`
    have hcancel : newsOf t s [(m.cancelOrder t s).2] = [] := by
      simp [newsOf, OrderManager.cancelOrder]
    rw [hcancel, List.append_nil, OrderManager.cancelOrder, OrderManager.order_setOrder_self]
    exact .withdraw hlive
  · have hnew : newsOf t s [(m.newOrder t p s qty).2] = [(m.newOrder t p s qty).2] := by
      simp [newsOf, OrderManager.newOrder]
    have horder : (m.newOrder t p s qty).1.order t s = _ := OrderManager.order_setOrder_self _
    rw [hnew, horder]
    exact .submit hidle rfl rfl rfl rfl
  · rw [newsOf, List.filter_nil, List.append_nil]
    exact .stay

/-- One of the two moves of `moveOrders`. -/
theorem slotStep_moveOrder (t : TickerId) (p : Price) (qty : Qty) {s : Side} (hs : Traded s)
    (t' : TickerId) {s' : Side} (hs' : Traded s') : SlotStep (x.slot t' s') (System.slot { x with
      manager := (x.manager.moveOrder t p s qty).1
      requests := x.requests ++ (x.manager.moveOrder t p s qty).2 } t' s') := by
  have happend : newsOf t' s' (x.requests ++ (x.manager.moveOrder t p s qty).2) =
      newsOf t' s' x.requests ++ newsOf t' s' (x.manager.moveOrder t p s qty).2 :=
    List.filter_append _ _
  rw [System.slot, System.slot]
  dsimp only
  rw [happend]
  by_cases hslot : t' = t ∧ s' = s
  · obtain ⟨rfl, rfl⟩ := hslot
    exact slotStep_move x.manager p qty _ _ _
  · have hnone : newsOf t' s' (x.manager.moveOrder t p s qty).2 = [] := by
      rw [newsOf, List.filter_eq_nil_iff]
      intro r hr hmine
      obtain ⟨hn, rfl, rfl⟩ := of_decide_eq_true hmine
      obtain ⟨ht, hside⟩ := OrderManager.mem_moveOrder hr hn
      exact hslot ⟨ht, hside⟩
    rw [hnone, List.append_nil, OrderManager.order_moveOrder_of_ne p qty
      fun ht => hs.index_ne hs' fun hside => hslot ⟨ht, hside⟩]
    exact .stay

/-- The exchange accepts a request. -/
theorem slotStep_accept {r : MEClientRequest} {rest : List MEClientRequest} {mid : OrderId}
    {priority : Priority} (hr : x.requests = r :: rest) (hn : r.requestType = .new) :
    SlotStep (x.slot t s) (System.slot { x with
      requests := rest
      openOrders := x.openOrders ++ kept (orderOf r mid priority)
      responses := x.responses ++ [acceptedResponse mid r] } t s) := by
  have hresponses : responsesOf t s (x.responses ++ [acceptedResponse mid r]) =
      if r.tickerId = t ∧ r.side = s then responsesOf t s x.responses ++ [acceptedResponse mid r]
      else responsesOf t s x.responses := responsesOf_concat _ _
  rw [System.slot, System.slot]
  dsimp only
  rw [openOf_append, hresponses]
  by_cases hmine : r.tickerId = t ∧ r.side = s
  · have hnews : newsOf t s x.requests = r :: newsOf t s rest := by
      rw [hr, newsOf, List.filter_cons_of_pos (by simp [hn, hmine])]
      rfl
    have hkept : openOf t s (kept (orderOf r mid priority)) = kept (orderOf r mid priority) :=
      (openOf_kept _).trans (if_pos hmine)
    rw [hkept, if_pos hmine]
    exact .accept hnews
  · have hkept : openOf t s (kept (orderOf r mid priority)) = [] :=
      (openOf_kept _).trans (if_neg hmine)
    rw [hr, newsOf_cons_of_not fun h => hmine h.2, hkept, List.append_nil, if_neg hmine]
    exact .stay

/-- A response about an open order leaves the slots of the others. -/
theorem slot_respond {o : OrderData} {before behind : List OrderData} (O' : List OrderData)
    (r : MEClientResponse) (ho : x.openOrders = before ++ o :: behind)
    (ht : r.tickerId = o.tickerId) (hside : r.side = o.side)
    (hO' : ∀ o' ∈ O', o'.tickerId = o.tickerId ∧ o'.side = o.side) :
    System.slot { x with
      openOrders := before ++ O' ++ behind
      responses := x.responses ++ [r] } t s =
    if o.tickerId = t ∧ o.side = s then { x.slot t s with
      opens := openOf t s before ++ O' ++ openOf t s behind
      responses := responsesOf t s x.responses ++ [r] }
    else x.slot t s := by
  rw [System.slot, System.slot]
  dsimp only
  rw [responsesOf_concat, ht, hside, openOf_append, openOf_append]
  by_cases hmine : o.tickerId = t ∧ o.side = s
  · have hall : openOf t s O' = O' := by
      refine List.filter_eq_self.2 fun o' ho' => ?_
      rw [(hO' o' ho').1, (hO' o' ho').2]
      exact decide_eq_true hmine
    rw [if_pos hmine, if_pos hmine, hall]
  · have hnone : openOf t s O' = [] := by
      refine List.filter_eq_nil_iff.2 fun o' ho' => ?_
      rw [(hO' o' ho').1, (hO' o' ho').2]
      simpa using hmine
    rw [if_neg hmine, if_neg hmine, hnone, List.append_nil, ho, openOf_split, if_neg hmine]

/-- A request that is not a `NEW` is in no slot. -/
theorem slot_dropRequest {r : MEClientRequest} {rest : List MEClientRequest}
    (hr : x.requests = r :: rest) (hn : r.requestType ≠ .new) :
    System.slot { x with requests := rest } t s = x.slot t s := by
  rw [System.slot, System.slot, hr, newsOf_cons_of_not fun hnew => hn hnew.1]

/-- A rejection has no side, so it is in no slot. -/
theorem slot_reject (hs : Traded s) (r : MEClientRequest) :
    System.slot { x with responses := x.responses ++ [cancelRejectedResponse r] } t s =
      x.slot t s := by
  have hside : (cancelRejectedResponse r).side ≠ s := by
    rintro rfl
    exact hs.index_ne_invalid rfl
  rw [System.slot, System.slot]
  dsimp only
  rw [responsesOf_concat, if_neg fun hmine => hside hmine.2]

/-- A response is delivered. -/
theorem slotStep_deliver {r : MEClientResponse} {rest : List MEClientResponse} {m : OrderManager}
    (hr : x.responses = r :: rest) (hm : x.manager.onOrderUpdate r = .ok m)
    (hr' : Traded r.side ∨ r.side = .invalid) (hs : Traded s) :
    SlotStep (x.slot t s) (System.slot { x with manager := m, responses := rest } t s) := by
  obtain ⟨hself, hothers, -, -⟩ := OrderManager.onOrderUpdate_eq_ok hm
  rw [System.slot, System.slot, hr]
  dsimp only
  by_cases hmine : r.tickerId = t ∧ r.side = s
  · have hcons : responsesOf t s (r :: rest) = r :: responsesOf t s rest :=
      List.filter_cons_of_pos (decide_eq_true hmine)
    obtain ⟨rfl, rfl⟩ := hmine
    rw [hcons, hself]
    exact .deliver rfl
  · have hcons : responsesOf t s (r :: rest) = responsesOf t s rest :=
      List.filter_cons_of_neg (by simpa using hmine)
    rw [hcons, hothers t s fun ht => ?_]
    · exact .stay
    · rcases hr' with hside | hside
      · exact hside.index_ne hs fun heq => hmine ⟨ht.symm, heq.symm⟩
      · rw [hside]
        exact hs.index_ne_invalid

/-- **A step of the system does to a slot what a step can do to one**, or nothing. -/
theorem slotStep_of_step {x' : System} {e : Event} (hstep : Step x e x')
    (hr' : ∀ r ∈ x.responses, Traded r.side ∨ r.side = .invalid) (hs : Traded s) :
    Relation.ReflTransGen SlotStep (x.slot t s) (x'.slot t s) := by
  cases hstep with
  | @move t' bid ask clip m rs hm =>
    obtain ⟨m₁, rfl, rfl, rfl⟩ := OrderManager.moveOrders_eq_ok hm
    have hbid := slotStep_moveOrder (x := x) t' bid clip (Or.inl rfl) t hs
    refine (Relation.ReflTransGen.single hbid).tail ?_
    rw [← List.append_assoc]
    exact slotStep_moveOrder (x := { x with
      manager := (x.manager.moveOrder t' bid .buy clip).1
      requests := x.requests ++ (x.manager.moveOrder t' bid .buy clip).2 }) t' ask clip
        (Or.inr rfl) t hs
  | accept hr hn => exact .single (slotStep_accept hr hn)
  | @cancel r rest o before behind hr hn ho hnames =>
    have hne : r.requestType ≠ .new := by rw [hn]; decide
    have hdrop := slot_dropRequest (t := t) (s := s) hr hne
    have hresponded := slot_respond (x := { x with requests := rest }) (t := t) (s := s) []
      (canceledResponse r o) ho hnames.1.symm rfl fun _ ho' => absurd ho' List.not_mem_nil
    rw [hdrop, List.append_nil] at hresponded
    refine .single ?_
    show SlotStep (x.slot t s) (System.slot { x with
      requests := rest
      openOrders := before ++ behind
      responses := x.responses ++ [canceledResponse r o] } t s)
    rw [hresponded]
    split
    · next hmine =>
      rw [List.append_nil]
      exact .cancel ((congrArg (openOf t s) ho).trans (openOf_split.trans (if_pos hmine)))
    · exact .stay
  | @reject r rest hr hn hnone =>
    have hne : r.requestType ≠ .new := by rw [hn]; decide
    have hreject := slot_reject (x := { x with requests := rest }) (t := t) hs r
    rw [slot_dropRequest hr hne] at hreject
    rw [hreject]
  | @fill o before behind price execQty ho hpos hle =>
    have hresponded := slot_respond (t := t) (s := s) (kept (filled o execQty))
      (filledResponse o price execQty) ho rfl rfl fun o' ho' => by
        rw [eq_of_mem_kept ho']
        exact ⟨rfl, rfl⟩
    rw [hresponded]
    split
    · next hmine =>
      exact .single (.fill ((congrArg (openOf t s) ho).trans (openOf_split.trans (if_pos hmine)))
        hle)
    · exact .refl
  | deliver hr hm => exact .single (slotStep_deliver hr hm (hr' _ (hr ▸ List.mem_cons_self)) hs)

end Slots

/-! ## The account of a slot -/

/-- The last response for an order. -/
def Terminal (r : MEClientResponse) : Prop :=
  r.type = .canceled ∨ r.type = .filled ∧ r.leftQty = 0

/-- The responses on their way for an accepted order, which the manager knows with `qty` left, and
what is open of it.  Fills count its quantity down to what is open; after a terminal response
nothing is, and nothing follows. -/
inductive Trace (id : OrderId) (price : Price) : Qty → List MEClientResponse → List OrderData → Prop
  | resting (o : OrderData) (hid : o.clientOrderId = id) (hprice : o.price = price)
      (hqty : o.qty ≠ 0) : Trace id price o.qty [] [o]
  | empty : Trace id price 0 [] []
  | last (q : Qty) {r : MEClientResponse} (hr : Terminal r) : Trace id price q [r] []
  | fill (q : Qty) {r : MEClientResponse} {R : List MEClientResponse} {O : List OrderData}
      (hr : r.type = .filled) (hleft : r.leftQty ≠ 0) (h : Trace id price r.leftQty R O) :
      Trace id price q (r :: R) O

/-- The account of a slot: its order, the `NEW` requests, the open orders and the responses. -/
inductive SlotOk (o : OMOrder) (N : List MEClientRequest) (O : List OrderData)
    (R : List MEClientResponse) : Prop
  /-- Nothing is out. -/
  | idle (hs : o.orderState = .invalid ∨ o.orderState = .dead) (hN : N = []) (hO : O = [])
      (hR : R = [])
  /-- The request is on its way. -/
  | sent {r : MEClientRequest} (hs : o.orderState = .pendingNew) (hN : N = [r])
      (hid : r.orderId = o.orderId) (hprice : r.price = o.price) (hqty : r.qty = o.qty)
      (hO : O = []) (hR : R = [])
  /-- The answer to it is. -/
  | answered {a : MEClientResponse} {R' : List MEClientResponse} (hs : o.orderState = .pendingNew)
      (hN : N = []) (ha : a.type = .accepted) (hR : R = a :: R')
      (ht : Trace o.orderId o.price o.qty R' O)
  /-- The answer has arrived. -/
  | working (hs : o.orderState = .live ∨ o.orderState = .pendingCancel) (hN : N = [])
      (ht : Trace o.orderId o.price o.qty R O)

section Slot

variable {id : OrderId} {price : Price} {q : Qty} {R : List MEClientResponse} {O : List OrderData}

theorem Trace.length_le (h : Trace id price q R O) : O.length ≤ 1 := by
  induction h with
  | resting => exact Nat.le_refl 1
  | empty => exact Nat.zero_le 1
  | last => exact Nat.zero_le 1
  | fill _ _ _ _ ih => exact ih

/-- A last response takes the open order away. -/
theorem Trace.concat_last {o : OrderData} {r : MEClientResponse} (h : Trace id price q R [o])
    (hr : Terminal r) : Trace id price q (R ++ [r]) [] := by
  generalize hO : [o] = O at h
  induction h with
  | resting => exact .last _ hr
  | empty => exact absurd hO (by simp)
  | last => exact absurd hO (by simp)
  | fill q htype hleft _ ih => exact .fill q htype hleft (ih hO)

/-- Another fill leaves the open order with less. -/
theorem Trace.concat_fill {o : OrderData} {fillPrice : Price} {execQty : Qty}
    (h : Trace id price q R [o]) (hleft : o.qty - execQty ≠ 0) :
    Trace id price q (R ++ [filledResponse o fillPrice execQty]) [filled o execQty] := by
  generalize hO : [o] = O at h
  induction h with
  | resting o' hid hprice _ =>
    obtain rfl := (List.cons.inj hO).1
    exact .fill o.qty rfl hleft (.resting (filled o execQty) hid hprice hleft)
  | empty => exact absurd hO (by simp)
  | last => exact absurd hO (by simp)
  | fill q htype hleft _ ih => exact .fill q htype hleft (ih hO)

variable {o : OMOrder} {N : List MEClientRequest}

theorem SlotOk.length_le (h : SlotOk o N O R) : O.length + N.length ≤ 1 := by
  cases h with
  | idle _ hN hO _ => simp [hN, hO]
  | sent _ hN _ _ _ hO _ => simp [hN, hO]
  | answered _ hN _ _ ht => simpa [hN] using ht.length_le
  | working _ hN ht => simpa [hN] using ht.length_le

/-- An open order of a slot is the only one. -/
theorem SlotOk.alone {d : OrderData} {A B : List OrderData} (h : SlotOk o N (A ++ d :: B) R) :
    A = [] ∧ B = [] := by
  have hlen := h.length_le
  rw [List.length_append, List.length_cons] at hlen
  exact ⟨List.length_eq_zero_iff.1 (by omega), List.length_eq_zero_iff.1 (by omega)⟩

/-- Nothing is out for a free slot. -/
theorem SlotOk.of_free (h : SlotOk o N O R) (ho : o.orderState = .invalid ∨ o.orderState = .dead) :
    N = [] ∧ O = [] ∧ R = [] := by
  cases h with
  | idle _ hN hO hR => exact ⟨hN, hO, hR⟩
  | sent hs => exact absurd hs (by rcases ho with h | h <;> simp [h])
  | answered hs => exact absurd hs (by rcases ho with h | h <;> simp [h])
  | working hs => exact absurd hs (by rcases ho with h | h <;> simp [h])

/-- While its `NEW` request is on its way, nothing else is out for a slot. -/
theorem SlotOk.of_sent {r : MEClientRequest} (h : SlotOk o (r :: N) O R) :
    o.orderState = .pendingNew ∧ N = [] ∧ r.price = o.price ∧ r.orderId = o.orderId ∧
      r.qty = o.qty ∧ O = [] ∧ R = [] := by
  cases h with
  | idle _ hN _ _ => exact absurd hN (by simp)
  | answered _ hN _ _ _ => exact absurd hN (by simp)
  | working _ hN _ => exact absurd hN (by simp)
  | sent hs hN hid hprice hqty hO hR =>
    obtain ⟨rfl, rfl⟩ := List.cons.inj hN
    exact ⟨hs, rfl, hprice, hid, hqty, hO, hR⟩

/-- A response about the open order of a slot, which is the only one, with what it leaves open. -/
theorem SlotOk.respond {d : OrderData} {A B O' : List OrderData} {r : MEClientResponse}
    (h : SlotOk o N (A ++ d :: B) R)
    (hr : ∀ q R, Trace o.orderId o.price q R [d] → Trace o.orderId o.price q (R ++ [r]) O') :
    SlotOk o N (A ++ O' ++ B) (R ++ [r]) := by
  obtain ⟨rfl, rfl⟩ := h.alone
  cases h with
  | idle _ _ hO _ => exact absurd hO (by simp)
  | sent _ _ _ _ _ hO _ => exact absurd hO (by simp)
  | answered hs hN ha hR ht =>
    refine .answered hs hN ha (by rw [hR, List.cons_append]) ?_
    simpa using hr _ _ ht
  | working hs hN ht =>
    refine .working hs hN ?_
    simpa using hr _ _ ht

/-- The exchange accepts the request of a slot. -/
theorem SlotOk.accept {r : MEClientRequest} {mid : OrderId} {priority : Priority}
    (h : SlotOk o (r :: N) O R) : SlotOk o N (O ++ kept (orderOf r mid priority))
      (R ++ [acceptedResponse mid r]) := by
  obtain ⟨hs, rfl, hprice, hid, hqty, rfl, rfl⟩ := h.of_sent
  refine .answered hs rfl rfl rfl ?_
  rw [List.nil_append, kept, ← hqty]
  split
  · next hzero =>
    rw [show r.qty = 0 from hzero]
    exact .empty
  · next hne => exact .resting (orderOf r mid priority) hid hprice hne

/-- The oldest response of a slot is delivered. -/
theorem SlotOk.deliver {r : MEClientResponse} (h : SlotOk o N O (r :: R)) :
    SlotOk (OrderManager.followed o r) N O R := by
  cases h with
  | idle _ _ _ hR => exact absurd hR (by simp)
  | sent _ _ _ _ _ _ hR => exact absurd hR (by simp)
  | answered hs hN ha hR ht =>
    obtain ⟨rfl, rfl⟩ := List.cons.inj hR
    rw [OrderManager.followed, ha]
    exact .working (Or.inl rfl) hN ht
  | working hs hN ht =>
    generalize o.qty = q at ht
    cases ht with
    | last _ hr =>
      rcases hr with hcanceled | ⟨hfilled, hleft⟩
      · rw [OrderManager.followed, hcanceled]
        exact .idle (Or.inr rfl) hN rfl rfl
      · rw [OrderManager.followed, hfilled]
        simp only [hleft, if_true]
        exact .idle (Or.inr rfl) hN rfl rfl
    | fill _ hfilled hleft ht =>
      rw [OrderManager.followed, hfilled]
      simp only [if_neg hleft]
      exact .working hs hN ht

/-- **Every step keeps the account of a slot.** -/
theorem SlotOk.step {v v' : SlotView} (h : SlotOk v.order v.news v.opens v.responses)
    (hstep : SlotStep v v') : SlotOk v'.order v'.news v'.opens v'.responses := by
  cases hstep with
  | stay => exact h
  | withdraw hlive =>
    cases h with
    | idle hs => exact absurd hs (by simp [hlive])
    | sent hs => exact absurd hs (by simp [hlive])
    | answered hs => exact absurd hs (by simp [hlive])
    | working _ hN ht => exact .working (Or.inr rfl) hN ht
  | @submit o r hfree hs hid hprice hqty =>
    obtain ⟨hN, hO, hR⟩ := h.of_free hfree
    refine .sent hs ?_ hid hprice hqty hO hR
    show v.news ++ [r] = [r]
    rw [hN, List.nil_append]
  | accept hN =>
    rw [hN] at h
    exact h.accept
  | @cancel r d A B hO =>
    rw [hO] at h
    have hresponded :
        SlotOk v.order v.news (A ++ [] ++ B) (v.responses ++ [canceledResponse r d]) :=
      h.respond fun _ _ ht => ht.concat_last (Or.inl rfl)
    rwa [List.append_nil] at hresponded
  | @fill d A B price execQty hO hle =>
    rw [hO] at h
    refine h.respond fun _ _ ht => ?_
    rw [kept]
    split
    · next hzero => exact ht.concat_last (Or.inr ⟨rfl, hzero⟩)
    · next hleft => exact ht.concat_fill hleft
  | deliver hR =>
    rw [hR] at h
    exact h.deliver

end Slot

/-! ## The invariant -/

/-- **The invariant**: every slot is accounted for, and everything belongs to a slot. -/
structure Inv (x : System) : Prop where
  slots : ∀ t s, Traded s → SlotOk (x.manager.order t s) (newsOf t s x.requests)
    (openOf t s x.openOrders) (responsesOf t s x.responses)
  news : ∀ r ∈ x.requests, r.requestType = .new → Traded r.side
  orders : ∀ o ∈ x.openOrders, Traded o.side
  answers : ∀ r ∈ x.responses, Traded r.side ∨ r.side = .invalid ∧ r.type = .cancelRejected

theorem inv_init (clientId : ClientId) : Inv { manager := { clientId } } where
  slots := fun _ _ _ => .idle (Or.inl rfl) rfl rfl rfl
  news := fun _ h => absurd h List.not_mem_nil
  orders := fun _ h => absurd h List.not_mem_nil
  answers := fun _ h => absurd h List.not_mem_nil

section Step

variable {x x' : System}

/-- One of the two moves of `moveOrders`. -/
theorem Inv.moveOrder (h : Inv x) (t : TickerId) (p : Price) (qty : Qty) {s : Side}
    (hs : Traded s) : Inv { x with
      manager := (x.manager.moveOrder t p s qty).1
      requests := x.requests ++ (x.manager.moveOrder t p s qty).2 } where
  slots := fun t' s' hs' => SlotOk.step (v := x.slot t' s') (h.slots t' s' hs')
    (slotStep_moveOrder t p qty hs t' hs')
  news := by
    intro r hr hn
    rcases List.mem_append.1 hr with hr | hr
    · exact h.news r hr hn
    · rw [(OrderManager.mem_moveOrder hr hn).2]
      exact hs
  orders := h.orders
  answers := h.answers

theorem Inv.side_of_answer (h : Inv x) : ∀ r ∈ x.responses, Traded r.side ∨ r.side = .invalid :=
  fun r hr => (h.answers r hr).imp_right And.left

/-- Every slot stays accounted for. -/
theorem Inv.slots_step (h : Inv x) {e : Event} (hstep : Step x e x') (t : TickerId) (s : Side)
    (hs : Traded s) : SlotOk (x'.manager.order t s) (newsOf t s x'.requests)
      (openOf t s x'.openOrders) (responsesOf t s x'.responses) := by
  have hrun := slotStep_of_step hstep h.side_of_answer (t := t) hs
  suffices hok : ∀ v, Relation.ReflTransGen SlotStep (x.slot t s) v →
      SlotOk v.order v.news v.opens v.responses from hok _ hrun
  intro v hv
  induction hv with
  | refl => exact h.slots t s hs
  | tail _ hstep ih => exact ih.step hstep

/-- **Every step keeps the account.** -/
theorem Inv.step (h : Inv x) {e : Event} (hstep : Step x e x') : Inv x' := by
  have hslots := h.slots_step hstep
  cases hstep with
  | @move t bid ask clip m rs hm =>
    obtain ⟨m₁, rfl, rfl, rfl⟩ := OrderManager.moveOrders_eq_ok hm
    have hbid := h.moveOrder t bid clip (Or.inl rfl)
    have hask := hbid.moveOrder t ask clip (Or.inr rfl)
    simpa only [List.append_assoc] using hask
  | @accept r rest id priority hr hn =>
    have hside := h.news r (hr ▸ List.mem_cons_self) hn
    refine ⟨hslots, fun r' hr' => h.news r' (hr ▸ List.mem_cons_of_mem r hr'), ?_, ?_⟩
    · intro o ho
      rcases List.mem_append.1 ho with ho | ho
      · exact h.orders o ho
      · obtain rfl := eq_of_mem_kept ho
        exact hside
    · exact List.forall_mem_append.2 ⟨h.answers, List.forall_mem_singleton.2 (Or.inl hside)⟩
  | @cancel r rest o before behind hr hn ho hnames =>
    have hmem : o ∈ x.openOrders := ho ▸ List.mem_append_right before List.mem_cons_self
    refine ⟨hslots, fun r' hr' => h.news r' (hr ▸ List.mem_cons_of_mem r hr'), ?_, ?_⟩
    · intro o' ho'
      refine h.orders o' (ho ▸ ?_)
      rcases List.mem_append.1 ho' with ho' | ho'
      · exact List.mem_append_left _ ho'
      · exact List.mem_append_right _ (List.mem_cons_of_mem o ho')
    · exact List.forall_mem_append.2 ⟨h.answers,
        List.forall_mem_singleton.2 (Or.inl (h.orders o hmem))⟩
  | @reject r rest hr hn hnone =>
    exact ⟨hslots, fun r' hr' => h.news r' (hr ▸ List.mem_cons_of_mem r hr'), h.orders,
      List.forall_mem_append.2 ⟨h.answers, List.forall_mem_singleton.2 (Or.inr ⟨rfl, rfl⟩)⟩⟩
  | @fill o before behind price execQty ho hpos hle =>
    have hmem : o ∈ x.openOrders := ho ▸ List.mem_append_right before List.mem_cons_self
    refine ⟨hslots, h.news, ?_, ?_⟩
    · intro o' ho'
      rcases List.mem_append.1 ho' with ho' | ho'
      · rcases List.mem_append.1 ho' with ho' | ho'
        · exact h.orders o' (ho ▸ List.mem_append_left _ ho')
        · rw [eq_of_mem_kept ho']
          exact h.orders o hmem
      · exact h.orders o' (ho ▸ List.mem_append_right before (List.mem_cons_of_mem o ho'))
    · exact List.forall_mem_append.2 ⟨h.answers,
        List.forall_mem_singleton.2 (Or.inl (h.orders o hmem))⟩
  | @deliver r rest m hr hm =>
    exact ⟨hslots, h.news, h.orders, fun a ha => h.answers a (hr ▸ List.mem_cons_of_mem r ha)⟩

end Step

theorem inv_of_reachable {cond : System → Event → Prop} {clientId : ClientId} {x : System}
    (h : Reachable cond clientId x) : Inv x := by
  induction h with
  | refl => exact inv_init clientId
  | tail _ hstep ih =>
    obtain ⟨e, -, hstep⟩ := hstep
    exact ih.step hstep

/-- **No second exposure**: in every state of every run, at most one order of a ticker and side is
open at the exchange or on its way there. -/
theorem at_most_one {clientId : ClientId} {x : System}
    (h : Reachable (fun _ _ => True) clientId x) (t : TickerId) (s : Side) :
    (openOf t s x.openOrders).length + (newsOf t s x.requests).length ≤ 1 := by
  have hinv := inv_of_reachable h
  by_cases hs : Traded s
  · exact (hinv.slots t s hs).length_le
  · -- the manager trades on no other side
    have hopen : openOf t s x.openOrders = [] := by
      refine List.filter_eq_nil_iff.2 fun o ho hmine => hs ?_
      rw [← (of_decide_eq_true hmine).2]
      exact hinv.orders o ho
    have hnews : newsOf t s x.requests = [] := by
      refine List.filter_eq_nil_iff.2 fun r hr hmine => hs ?_
      obtain ⟨hn, -, hside⟩ := of_decide_eq_true hmine
      rw [← hside]
      exact hinv.news r hr hn
    rw [hopen, hnews]
    exact Nat.zero_le 1

/-- The fill of the first order crosses its `CANCEL`, and the next move sends a new one. -/
theorem at_most_one_crossing : ∃ x : System,
    x.requests.map (fun r => (r.requestType, r.orderId)) =
      [(.cancel, 1), (.cancel, 2), (.new, 3)] ∧
    (openOf 0 .buy x.openOrders).length + (newsOf 0 .buy x.requests).length ≤ 1 := by
  have hmove : ∃ x, Reachable (fun _ _ => True) 1 x ∧
      x.requests.map (fun r => (r.requestType, r.orderId)) =
        [(.cancel, 1), (.cancel, 2), (.new, 3)] :=
    ⟨_, ((((((((Relation.ReflTransGen.single ⟨.move 0 100 101 5, trivial, .move rfl⟩).tail
      ⟨.exchange, trivial, @Step.accept _ _ _ 1 1 rfl rfl⟩).tail
      ⟨.exchange, trivial, @Step.accept _ _ _ 2 1 rfl rfl⟩).tail
      ⟨.deliver, trivial, .deliver rfl rfl⟩).tail
      ⟨.deliver, trivial, .deliver rfl rfl⟩).tail
      ⟨.move 0 102 103 5, trivial, .move rfl⟩).tail
      ⟨.exchange, trivial, @Step.fill _ _ [] _ 100 5 rfl (by decide) (by decide)⟩).tail
      ⟨.deliver, trivial, .deliver rfl rfl⟩).tail
      ⟨.move 0 102 103 5, trivial, .move rfl⟩, rfl⟩
  exact hmove.imp fun _ hx => ⟨hx.2, at_most_one hx.1 0 .buy⟩

end OrderFlow
end TradingEcosystem
