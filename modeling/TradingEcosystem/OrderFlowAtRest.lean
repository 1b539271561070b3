import TradingEcosystem.OrderFlow

/-!
# The order manager and the exchange at rest

When nothing is in flight the manager's slots are meant to say what the exchange has: a slot is live
when its order is open, with the price and the quantity the slot shows, and nothing is pending.

That holds as long as no order is sent without quantity (`agreesAtRest`).  The exchange accepts such
an order and keeps nothing of it, so its slot is live with nothing behind it
(`not_agreesAtRest_zero`), and `onOrderUpdate` passes over the rejection of its `CANCEL`.
-/

set_option autoImplicit false

namespace TradingEcosystem
namespace OrderFlow

open Exchange Exchange.MEOrderBook Trading

/-- **The promise at rest**: no slot is pending, and the live ones are those with an open order of
their id, price and quantity. -/
def AgreesAtRest (x : System) : Prop :=
  x.requests = [] → x.responses = [] → ∀ t s, Traded s →
    (x.manager.order t s).orderState ≠ .pendingNew ∧
    (x.manager.order t s).orderState ≠ .pendingCancel ∧
    ((x.manager.order t s).orderState = .live ↔ ∃ o ∈ x.openOrders, o.tickerId = t ∧ o.side = s ∧
      o.clientOrderId = (x.manager.order t s).orderId ∧ o.price = (x.manager.order t s).price ∧
      o.qty = (x.manager.order t s).qty)

/-- The slot has an order that is not over. -/
def Active (o : OMOrder) : Prop := o.orderState ≠ .invalid ∧ o.orderState ≠ .dead

/-- The condition: a call of `moveOrders` that sends an order sends one with a quantity, and its id
is not that of the other side's order (which takes a counter that has wrapped). -/
def Meets (x : System) : Event → Prop
  | .move t _ _ clip => ∀ s, Traded s → ¬ Active (x.manager.order t s) → clip ≠ 0 ∧
      ∀ s', Traded s' → Active (x.manager.order t s') →
        (x.manager.order t s').orderId ≠ x.manager.nextOrderId
  | _ => True

/-- A `CANCEL` of the order of a slot. -/
def Cancels (o : OMOrder) (t : TickerId) (clientId : ClientId) (r : MEClientRequest) : Prop :=
  r.requestType = .cancel ∧ r.tickerId = t ∧ r.clientId = clientId ∧ r.orderId = o.orderId

/-- What else is true of an active slot: its order has a quantity and its ticker, and while it waits
for a cancel the request or the last response for the order is on its way. -/
structure SlotWorks (o : OMOrder) (t : TickerId) (clientId : ClientId)
    (requests : List MEClientRequest) (R : List MEClientResponse) : Prop where
  qty : Active o → o.qty ≠ 0
  tickerId : Active o → o.tickerId = t
  cancel : o.orderState = .pendingCancel →
    (∃ r ∈ requests, Cancels o t clientId r) ∨ ∃ r ∈ R, Terminal r

/-- **The invariant** of runs that meet the condition. -/
structure InSync (x : System) : Prop extends Inv x where
  works : ∀ t s, Traded s → SlotWorks (x.manager.order t s) t x.manager.clientId x.requests
    (responsesOf t s x.responses)
  /-- The two orders of a ticker have different ids. -/
  ids : ∀ t s s', Traded s → Traded s' → s ≠ s' → Active (x.manager.order t s) →
    Active (x.manager.order t s') → (x.manager.order t s).orderId ≠ (x.manager.order t s').orderId
  /-- Requests and orders are the manager's. -/
  requestIds : ∀ r ∈ x.requests, r.clientId = x.manager.clientId
  orderIds : ∀ o ∈ x.openOrders, o.clientId = x.manager.clientId

theorem not_active_empty : ¬ Active {} := fun h => h.1 rfl

theorem inSync_init (clientId : ClientId) : InSync { manager := { clientId } } where
  toInv := inv_init clientId
  works := fun _ _ _ => ⟨fun h => absurd h not_active_empty, fun h => absurd h not_active_empty,
    fun h => OMOrderState.noConfusion (h : OMOrderState.invalid = .pendingCancel)⟩
  ids := fun _ _ _ _ _ _ h => absurd h not_active_empty
  requestIds := fun _ h => absurd h List.not_mem_nil
  orderIds := fun _ h => absurd h List.not_mem_nil

/-! ## What an account tells -/

section Slot

variable {id : OrderId} {price : Price} {q : Qty} {R : List MEClientResponse} {O : List OrderData}
  {o : OMOrder} {N : List MEClientRequest}

theorem Trace.orderId_eq (h : Trace id price q R O) {d : OrderData} (hd : d ∈ O) :
    d.clientOrderId = id := by
  induction h with
  | resting o hid => rw [List.mem_singleton.1 hd, hid]
  | empty => exact absurd hd List.not_mem_nil
  | last => exact absurd hd List.not_mem_nil
  | fill _ _ _ _ ih => exact ih hd

/-- An order with a quantity is open until its last response. -/
theorem Trace.open_or_terminal (h : Trace id price q R O) (hq : q ≠ 0) :
    O ≠ [] ∨ ∃ r ∈ R, Terminal r := by
  induction h with
  | resting => exact Or.inl (by simp)
  | empty => exact absurd rfl hq
  | last q hr => exact Or.inr ⟨_, List.mem_cons_self, hr⟩
  | fill q _ hleft _ ih =>
    exact (ih hleft).imp_right fun ⟨r, hr, hterm⟩ => ⟨r, List.mem_cons_of_mem _ hr, hterm⟩

/-- An open order is the order of its slot, which is active. -/
theorem SlotOk.of_mem (h : SlotOk o N O R) {d : OrderData} (hd : d ∈ O) :
    Active o ∧ d.clientOrderId = o.orderId := by
  cases h with
  | idle _ _ hO _ => exact absurd hd (hO ▸ List.not_mem_nil)
  | sent _ _ _ _ _ hO _ => exact absurd hd (hO ▸ List.not_mem_nil)
  | answered hs _ _ _ ht => exact ⟨by simp [Active, hs], ht.orderId_eq hd⟩
  | working hs _ ht =>
    refine ⟨?_, ht.orderId_eq hd⟩
    rcases hs with hs | hs <;> simp [Active, hs]

/-- A slot with a response on its way is active. -/
theorem SlotOk.active_of_cons {r : MEClientResponse} (h : SlotOk o N O (r :: R)) : Active o := by
  cases h with
  | idle _ _ _ hR => exact absurd hR (by simp)
  | sent _ _ _ _ _ _ hR => exact absurd hR (by simp)
  | answered hs _ _ _ _ => simp [Active, hs]
  | working hs _ _ => rcases hs with hs | hs <;> simp [Active, hs]

variable {t : TickerId} {c : ClientId} {Q Q' : List MEClientRequest} {R' : List MEClientResponse}
  {r : MEClientResponse}

theorem SlotWorks.mono (h : SlotWorks o t c Q R) (hQ : ∀ r ∈ Q, Cancels o t c r → r ∈ Q')
    (hR : ∀ r ∈ R, Terminal r → r ∈ R') : SlotWorks o t c Q' R' where
  qty := h.qty
  tickerId := h.tickerId
  cancel := fun hs => (h.cancel hs).imp (fun ⟨r, hr, hc⟩ => ⟨r, hQ r hr hc, hc⟩)
    fun ⟨r, hr, hterm⟩ => ⟨r, hR r hr hterm, hterm⟩

theorem followed_ids (o : OMOrder) (r : MEClientResponse) :
    (OrderManager.followed o r).orderId = o.orderId ∧
      (OrderManager.followed o r).tickerId = o.tickerId := by
  rw [OrderManager.followed]
  split
  · exact ⟨rfl, rfl⟩
  · exact ⟨rfl, rfl⟩
  · split <;> exact ⟨rfl, rfl⟩
  · exact ⟨rfl, rfl⟩

theorem followed_of_terminal (o : OMOrder) (hr : Terminal r) :
    (OrderManager.followed o r).orderState = .dead := by
  rw [OrderManager.followed]
  rcases hr with hr | ⟨hr, hleft⟩ <;> rw [hr]
  simp only [if_pos hleft]

/-- A response makes no slot wait for a cancel. -/
theorem followed_pendingCancel (h : (OrderManager.followed o r).orderState = .pendingCancel) :
    o.orderState = .pendingCancel := by
  rw [OrderManager.followed] at h
  split at h
  · exact absurd h (by simp)
  · exact absurd h (by simp)
  · split at h
    · exact absurd h (by simp)
    · exact h
  · exact h

theorem followed_qty (hq : o.qty ≠ 0) (ha : Active (OrderManager.followed o r)) :
    (OrderManager.followed o r).qty ≠ 0 := by
  rw [OrderManager.followed] at ha ⊢
  split
  · exact hq
  · exact hq
  · next hr =>
    rw [hr] at ha
    dsimp only at ha
    split
    · next hleft =>
      rw [if_pos hleft] at ha
      exact absurd rfl ha.2
    · next hleft => exact hleft
  · exact hq

/-- The oldest response of a slot is delivered. -/
theorem SlotWorks.deliver (h : SlotWorks o t c Q (r :: R)) (hslot : SlotOk o N O (r :: R)) :
    SlotWorks (OrderManager.followed o r) t c Q R where
  qty := fun ha => followed_qty (h.qty hslot.active_of_cons) ha
  tickerId := fun _ => (followed_ids o r).2.trans (h.tickerId hslot.active_of_cons)
  cancel := by
    intro hs
    have hid := (followed_ids o r).1.symm
    refine (h.cancel (followed_pendingCancel hs)).imp (fun ⟨r', hr', hc⟩ => ⟨r', hr', hc.1, hc.2.1,
      hc.2.2.1, hc.2.2.2.trans hid⟩) fun ⟨r', hr', hterm⟩ => ?_
    rcases List.mem_cons.1 hr' with rfl | hr'
    · exact absurd ((followed_of_terminal o hterm).symm.trans hs) (by decide)
    · exact ⟨r', hr', hterm⟩

end Slot

/-! ## Every step -/

section Step

variable {x x' : System}

/-- Two active slots of a ticker with one order id are one slot. -/
theorem InSync.side_eq (h : InSync x) {t : TickerId} {s s' : Side} (hs : Traded s)
    (hs' : Traded s') (ha : Active (x.manager.order t s)) (ha' : Active (x.manager.order t s'))
    (hid : (x.manager.order t s).orderId = (x.manager.order t s').orderId) : s = s' := by
  by_contra hne
  exact h.ids t s s' hs hs' hne ha ha' hid

theorem InSync.deliver (h : InSync x) {r : MEClientResponse} {rest : List MEClientResponse}
    {m : OrderManager} (hr : x.responses = r :: rest) (hm : x.manager.onOrderUpdate r = .ok m) :
    InSync { x with manager := m, responses := rest } := by
  obtain ⟨hself, hothers, hclient, -⟩ := OrderManager.onOrderUpdate_eq_ok hm
  -- each slot is as it was, or has followed the response
  have hslots : ∀ t s, Traded s →
      (r.tickerId = t ∧ r.side = s ∧ m.order t s = OrderManager.followed (x.manager.order t s) r ∧
        responsesOf t s x.responses = r :: responsesOf t s rest) ∨
      (m.order t s = x.manager.order t s ∧
        responsesOf t s x.responses = responsesOf t s rest) := by
    intro t s hs
    by_cases hmine : r.tickerId = t ∧ r.side = s
    · obtain ⟨rfl, rfl⟩ := hmine
      refine Or.inl ⟨rfl, rfl, hself, ?_⟩
      rw [hr]
      exact List.filter_cons_of_pos (decide_eq_true ⟨rfl, rfl⟩)
    · refine Or.inr ⟨hothers t s fun ht => ?_, ?_⟩
      · rcases h.answers r (hr ▸ List.mem_cons_self) with hside | ⟨hside, -⟩
        · exact hside.index_ne hs fun heq => hmine ⟨ht.symm, heq.symm⟩
        · rw [hside]
          exact hs.index_ne_invalid
      · rw [hr]
        exact List.filter_cons_of_neg (by simpa using hmine)
  have hkeeps : ∀ t s, Traded s → Active (m.order t s) →
      Active (x.manager.order t s) ∧ (m.order t s).orderId = (x.manager.order t s).orderId := by
    intro t s hs ha
    rcases hslots t s hs with ⟨-, -, ho, hR⟩ | ⟨ho, -⟩
    · have hslot := h.slots t s hs
      rw [hR] at hslot
      exact ⟨hslot.active_of_cons, by rw [ho, (followed_ids _ r).1]⟩
    · rw [ho] at ha ⊢
      exact ⟨ha, rfl⟩
  refine ⟨h.toInv.step (.deliver hr hm), fun t s hs => ?_, ?_, ?_, ?_⟩
  · dsimp only
    rw [hclient]
    have hworks := h.works t s hs
    rcases hslots t s hs with ⟨-, -, ho, hR⟩ | ⟨ho, hR⟩
    · have hslot := h.slots t s hs
      rw [hR] at hslot hworks
      rw [ho]
      exact hworks.deliver hslot
    · rw [hR] at hworks
      rw [ho]
      exact hworks
  · intro t s s' hs hs' hne ha ha'
    obtain ⟨hactive, hid⟩ := hkeeps t s hs ha
    obtain ⟨hactive', hid'⟩ := hkeeps t s' hs' ha'
    dsimp only
    rw [hid, hid']
    exact h.ids t s s' hs hs' hne hactive hactive'
  · rw [show m.clientId = _ from hclient]
    exact h.requestIds
  · rw [show m.clientId = _ from hclient]
    exact h.orderIds

/-- Responses may only be added. -/
theorem InSync.works_concat (h : InSync x) {t : TickerId} {s : Side} (hs : Traded s)
    (a : MEClientResponse) : SlotWorks (x.manager.order t s) t x.manager.clientId x.requests
      (responsesOf t s (x.responses ++ [a])) := by
  refine (h.works t s hs).mono (fun _ hr _ => hr) fun r hr _ => ?_
  rw [responsesOf_concat]
  split
  · exact List.mem_append_left _ hr
  · exact hr

theorem InSync.accept (h : InSync x) {r : MEClientRequest} {rest : List MEClientRequest}
    {mid : OrderId} {priority : Priority} (hr : x.requests = r :: rest)
    (hn : r.requestType = .new) : InSync { x with
      requests := rest
      openOrders := x.openOrders ++ kept (orderOf r mid priority)
      responses := x.responses ++ [acceptedResponse mid r] } where
  toInv := h.toInv.step (.accept hr hn)
  works := by
    intro t s hs
    refine (h.works_concat hs _).mono (fun r' hr' hc => ?_) fun _ hr' _ => hr'
    rw [hr] at hr'
    rcases List.mem_cons.1 hr' with rfl | hr'
    · exact absurd (hn.symm.trans hc.1) (by decide)
    · exact hr'
  ids := h.ids
  requestIds := fun r' hr' => h.requestIds r' (hr ▸ List.mem_cons_of_mem r hr')
  orderIds := by
    intro o ho
    rcases List.mem_append.1 ho with ho | ho
    · exact h.orderIds o ho
    · rw [eq_of_mem_kept ho]
      exact h.requestIds r (hr ▸ List.mem_cons_self)

/-- A `CANCEL` that finds an order finds the order it was sent for. -/
theorem InSync.cancel (h : InSync x) {r : MEClientRequest} {rest : List MEClientRequest}
    {o : OrderData} {before behind : List OrderData} (hr : x.requests = r :: rest)
    (hn : r.requestType = .cancel) (ho : x.openOrders = before ++ o :: behind)
    (hnames : Names r o) : InSync { x with
      requests := rest
      openOrders := before ++ behind
      responses := x.responses ++ [canceledResponse r o] } where
  toInv := h.toInv.step (.cancel hr hn ho hnames)
  works := by
    intro t s hs
    obtain ⟨hqty, htick, hcancel⟩ := h.works_concat (t := t) hs (canceledResponse r o)
    refine ⟨hqty, htick, fun hstate => ?_⟩
    rcases hcancel hstate with ⟨r', hr', hc⟩ | hterm
    · rw [hr] at hr'
      rcases List.mem_cons.1 hr' with rfl | hr'
      · -- the order it finds is in a slot of the ticker, and the ids say in which
        have hmem : o ∈ openOf t o.side x.openOrders := by
          rw [ho, openOf_split, if_pos ⟨hnames.1.trans hc.2.1, rfl⟩]
          exact List.mem_append_right _ List.mem_cons_self
        have hside : Traded o.side := h.orders o (List.mem_filter.1 hmem).1
        obtain ⟨hactive, hid⟩ := (h.slots t o.side hside).of_mem hmem
        have hsame : o.side = s := by
          refine h.side_eq hside hs hactive (by simp [Active, hstate]) ?_
          rw [← hid, hnames.2.2, hc.2.2.2]
        refine Or.inr ⟨canceledResponse r' o, ?_, Or.inl rfl⟩
        rw [responsesOf_concat]
        have hmine : (canceledResponse r' o).tickerId = t ∧ (canceledResponse r' o).side = s :=
          ⟨hc.2.1, hsame⟩
        rw [if_pos hmine]
        exact List.mem_append_right _ List.mem_cons_self
      · exact Or.inl ⟨r', hr', hc⟩
    · exact Or.inr hterm
  ids := h.ids
  requestIds := fun r' hr' => h.requestIds r' (hr ▸ List.mem_cons_of_mem r hr')
  orderIds := by
    intro o' ho'
    refine h.orderIds o' ?_
    rw [ho]
    rcases List.mem_append.1 ho' with ho' | ho'
    · exact List.mem_append_left _ ho'
    · exact List.mem_append_right _ (List.mem_cons_of_mem o ho')

/-- A `CANCEL` is rejected when the last response for its order is already on its way. -/
theorem InSync.reject (h : InSync x) {r : MEClientRequest} {rest : List MEClientRequest}
    (hr : x.requests = r :: rest) (hn : r.requestType = .cancel)
    (hnone : ∀ o ∈ x.openOrders, ¬ Names r o) : InSync { x with
      requests := rest
      responses := x.responses ++ [cancelRejectedResponse r] } where
  toInv := h.toInv.step (.reject hr hn hnone)
  works := by
    intro t s hs
    obtain ⟨hqty, htick, hcancel⟩ := h.works_concat (t := t) hs (cancelRejectedResponse r)
    refine ⟨hqty, htick, fun hstate => ?_⟩
    rcases hcancel hstate with ⟨r', hr', hc⟩ | hterm
    · rw [hr] at hr'
      rcases List.mem_cons.1 hr' with rfl | hr'
      · have hslot := h.slots t s hs
        have hactive : Active (x.manager.order t s) := by simp [Active, hstate]
        cases hslot with
        | idle hs => exact absurd hs (by simp [hstate])
        | sent hs => exact absurd hs (by simp [hstate])
        | answered hs => exact absurd hs (by simp [hstate])
        | working _ _ ht =>
          rcases ht.open_or_terminal (hqty hactive) with hopen | ⟨a, ha, hterm⟩
          · -- the order would be open, and the request names it
            obtain ⟨o, ho⟩ := List.exists_mem_of_ne_nil _ hopen
            obtain ⟨hmem, hslot⟩ := List.mem_filter.1 ho
            obtain ⟨htick', -⟩ := of_decide_eq_true hslot
            refine absurd ⟨htick'.trans hc.2.1.symm, ?_, ?_⟩ (hnone o hmem)
            · rw [h.orderIds o hmem, hc.2.2.1]
            · rw [ht.orderId_eq ho, hc.2.2.2]
          · refine Or.inr ⟨a, ?_, hterm⟩
            rw [responsesOf_concat]
            split
            · exact List.mem_append_left _ ha
            · exact ha
      · exact Or.inl ⟨r', hr', hc⟩
    · exact Or.inr hterm
  ids := h.ids
  requestIds := fun r' hr' => h.requestIds r' (hr ▸ List.mem_cons_of_mem r hr')
  orderIds := h.orderIds

theorem InSync.fill (h : InSync x) {o : OrderData} {before behind : List OrderData} {price : Price}
    {execQty : Qty} (ho : x.openOrders = before ++ o :: behind) (hpos : execQty ≠ 0)
    (hle : execQty ≤ o.qty) : InSync { x with
      openOrders := before ++ kept (filled o execQty) ++ behind
      responses := x.responses ++ [filledResponse o price execQty] } where
  toInv := h.toInv.step (.fill ho hpos hle)
  works := fun t s hs => h.works_concat hs _
  ids := h.ids
  requestIds := h.requestIds
  orderIds := by
    intro o' ho'
    have hmem : o ∈ x.openOrders := ho ▸ List.mem_append_right before List.mem_cons_self
    rcases List.mem_append.1 ho' with ho' | ho'
    · rcases List.mem_append.1 ho' with ho' | ho'
      · exact h.orderIds o' (ho ▸ List.mem_append_left _ ho')
      · rw [eq_of_mem_kept ho']
        exact h.orderIds o hmem
    · exact h.orderIds o' (ho ▸ List.mem_append_right before (List.mem_cons_of_mem o ho'))

/-- The manager writes one slot and sends some requests. -/
theorem InSync.setSlot (h : InSync x) {t : TickerId} {s : Side} {m : OrderManager}
    {rs : List MEClientRequest} (hs : Traded s)
    (hinv : Inv { x with manager := m, requests := x.requests ++ rs })
    (hothers : ∀ t' s', Traded s' → ¬ (t' = t ∧ s' = s) →
      m.order t' s' = x.manager.order t' s')
    (hclient : m.clientId = x.manager.clientId) (hrs : ∀ r ∈ rs, r.clientId = x.manager.clientId)
    (hworks : SlotWorks (m.order t s) t x.manager.clientId (x.requests ++ rs)
      (responsesOf t s x.responses))
    (hids : ∀ s', Traded s' → s' ≠ s → Active (x.manager.order t s') →
      (m.order t s).orderId ≠ (x.manager.order t s').orderId) :
    InSync { x with manager := m, requests := x.requests ++ rs } where
  toInv := hinv
  works := by
    intro t' s' hs'
    dsimp only
    rw [hclient]
    by_cases hslot : t' = t ∧ s' = s
    · obtain ⟨rfl, rfl⟩ := hslot
      exact hworks
    · rw [hothers t' s' hs' hslot]
      exact (h.works t' s' hs').mono (fun r hr _ => List.mem_append_left _ hr) fun _ hr _ => hr
  ids := by
    intro t' s₁ s₂ hs₁ hs₂ hne ha₁ ha₂
    dsimp only at ha₁ ha₂ ⊢
    by_cases h₁ : t' = t ∧ s₁ = s
    · obtain ⟨rfl, rfl⟩ := h₁
      have ho := hothers t' s₂ hs₂ fun hslot => hne hslot.2.symm
      rw [ho] at ha₂ ⊢
      exact hids s₂ hs₂ (Ne.symm hne) ha₂
    · have ho := hothers t' s₁ hs₁ h₁
      rw [ho] at ha₁ ⊢
      by_cases h₂ : t' = t ∧ s₂ = s
      · obtain ⟨rfl, rfl⟩ := h₂
        exact (hids s₁ hs₁ hne ha₁).symm
      · have ho₂ := hothers t' s₂ hs₂ h₂
        rw [ho₂] at ha₂ ⊢
        exact h.ids t' s₁ s₂ hs₁ hs₂ hne ha₁ ha₂
  requestIds := by
    intro r hr
    dsimp only
    rw [hclient]
    exact (List.mem_append.1 hr).elim (h.requestIds r) (hrs r)
  orderIds := by
    dsimp only
    rw [hclient]
    exact h.orderIds

/-- One of the two moves of `moveOrders`. -/
theorem InSync.moveOrder (h : InSync x) (t : TickerId) (p : Price) (qty : Qty) {s : Side}
    (hs : Traded s) (hm : ¬ Active (x.manager.order t s) → qty ≠ 0 ∧
      ∀ s', Traded s' → Active (x.manager.order t s') →
        (x.manager.order t s').orderId ≠ x.manager.nextOrderId) : InSync { x with
      manager := (x.manager.moveOrder t p s qty).1
      requests := x.requests ++ (x.manager.moveOrder t p s qty).2 } := by
  have hinv := h.toInv.moveOrder t p qty hs
  have hothers : ∀ t' s', Traded s' → ¬ (t' = t ∧ s' = s) →
      (x.manager.moveOrder t p s qty).1.order t' s' = x.manager.order t' s' :=
    fun t' s' hs' hne => OrderManager.order_moveOrder_of_ne p qty
      fun ht => hs.index_ne hs' fun hside => hne ⟨ht, hside⟩
  rcases x.manager.moveOrder_cases t p s qty with ⟨hlive, -, hmove⟩ | ⟨hidle, hmove⟩ | hmove <;>
    rw [hmove] at hinv hothers ⊢
  · have hactive : Active (x.manager.order t s) := by simp [Active, hlive]
    have hslot : (x.manager.cancelOrder t s).1.order t s =
        { x.manager.order t s with orderState := .pendingCancel } :=
      OrderManager.order_setOrder_self _
    refine h.setSlot hs hinv hothers rfl (fun r hr => ?_) ?_ fun s' hs' hne ha => ?_
    · rw [List.mem_singleton.1 hr]
      rfl
    · rw [hslot]
      refine ⟨fun _ => (h.works t s hs).qty hactive, fun _ => (h.works t s hs).tickerId hactive,
        fun _ => Or.inl ⟨_, List.mem_append_right _ List.mem_cons_self, rfl, ?_, rfl, rfl⟩⟩
      exact (h.works t s hs).tickerId hactive
    · rw [hslot]
      exact h.ids t s s' hs hs' (Ne.symm hne) hactive ha
  · have hnot : ¬ Active (x.manager.order t s) := fun ha => hidle.elim ha.1 ha.2
    obtain ⟨hqty, hfresh⟩ := hm hnot
    have hslot : (x.manager.newOrder t p s qty).1.order t s =
        ⟨t, x.manager.nextOrderId, s, p, qty, .pendingNew⟩ := OrderManager.order_setOrder_self _
    refine h.setSlot hs hinv hothers rfl (fun r hr => ?_) ?_ fun s' hs' _ ha => ?_
    · rw [List.mem_singleton.1 hr]
      rfl
    · rw [hslot]
      exact ⟨fun _ => hqty, fun _ => rfl, fun hstate => OMOrderState.noConfusion hstate⟩
    · rw [hslot]
      exact (hfresh s' hs' ha).symm
  · simpa only [List.append_nil] using h

/-- A move keeps the id of a slot that is active, and gives the next id to one that is not. -/
theorem orderId_moveOrder (m : OrderManager) (t : TickerId) (p : Price) (s : Side) (qty : Qty) :
    (Active (m.order t s) → ((m.moveOrder t p s qty).1.order t s).orderId = (m.order t s).orderId ∧
      (m.moveOrder t p s qty).1.nextOrderId = m.nextOrderId) ∧
    (¬ Active (m.order t s) → ((m.moveOrder t p s qty).1.order t s).orderId = m.nextOrderId ∧
      (m.moveOrder t p s qty).1.nextOrderId = m.nextOrderId + 1) := by
  rcases m.moveOrder_cases t p s qty with ⟨hlive, -, hmove⟩ | ⟨hidle, hmove⟩ | hmove
  · rw [hmove]
    have hslot : (m.cancelOrder t s).1.order t s =
        { m.order t s with orderState := .pendingCancel } := OrderManager.order_setOrder_self _
    exact ⟨fun _ => ⟨by rw [hslot], rfl⟩, fun hnot => absurd (by simp [Active, hlive]) hnot⟩
  · rw [hmove]
    have hslot : (m.newOrder t p s qty).1.order t s = ⟨t, m.nextOrderId, s, p, qty, .pendingNew⟩ :=
      OrderManager.order_setOrder_self _
    exact ⟨fun ha => absurd hidle (not_or.2 ha), fun _ => ⟨by rw [hslot], rfl⟩⟩
  · refine ⟨fun _ => by rw [hmove]; exact ⟨rfl, rfl⟩, fun hnot => ?_⟩
    -- a slot that is not active is not left alone
    have hidle : (m.order t s).orderState = .invalid ∨ (m.order t s).orderState = .dead := by
      by_contra hne
      exact hnot (not_or.1 hne)
    rw [OrderManager.moveOrder] at hmove
    rcases hidle with hidle | hidle <;> simp only [hidle] at hmove <;>
      exact absurd (Prod.mk.inj hmove).2 (by simp)

/-- **Every step that meets the condition keeps the invariant.** -/
theorem InSync.step (h : InSync x) {e : Event} (hcond : Meets x e) (hstep : Step x e x') :
    InSync x' := by
  cases hstep with
  | @move t bid ask clip m rs hmove =>
    obtain ⟨m₁, hm₁, rfl, rfl⟩ := OrderManager.moveOrders_eq_ok hmove
    have hbid := h.moveOrder t bid clip (Or.inl rfl) (hcond .buy (Or.inl rfl))
    rw [← hm₁] at hbid
    have hsell : m₁.order t .sell = x.manager.order t .sell := by
      rw [hm₁]
      exact OrderManager.order_moveOrder_of_ne bid clip fun _ => by decide
    have hask := hbid.moveOrder t ask clip (Or.inr rfl) ?_
    · simpa only [List.append_assoc] using hask
    · intro hnot
      dsimp only at hnot ⊢
      rw [hsell] at hnot
      obtain ⟨hclip, hfresh⟩ := hcond .sell (Or.inr rfl) hnot
      refine ⟨hclip, fun s' hs' ha => ?_⟩
      rcases hs' with rfl | rfl
      · obtain ⟨hkept, hnext⟩ := orderId_moveOrder x.manager t bid .buy clip
        rw [← hm₁] at hkept hnext
        by_cases hbuy : Active (x.manager.order t .buy)
        · rw [(hkept hbuy).1, (hkept hbuy).2]
          exact hfresh .buy (Or.inl rfl) hbuy
        · rw [(hnext hbuy).1, (hnext hbuy).2]
          intro hwrap
          have hone : (1 : UInt64) = 0 := (UInt64.add_right_inj x.manager.nextOrderId).1
            ((UInt64.add_zero _).symm ▸ hwrap.symm)
          exact absurd hone (by decide)
      · rw [hsell] at ha
        exact absurd ha hnot
  | accept hr hn => exact h.accept hr hn
  | cancel hr hn ho hnames => exact h.cancel hr hn ho hnames
  | reject hr hn hnone => exact h.reject hr hn hnone
  | fill ho hpos hle => exact h.fill ho hpos hle
  | deliver hr hm => exact h.deliver hr hm

end Step

/-! ## At rest -/

theorem inSync_of_reachable {clientId : ClientId} {x : System} (h : Reachable Meets clientId x) :
    InSync x := by
  induction h with
  | refl => exact inSync_init clientId
  | tail _ hstep ih =>
    obtain ⟨e, hcond, hstep⟩ := hstep
    exact ih.step hcond hstep

theorem Trace.resting_of_empty {id : OrderId} {price : Price} {q : Qty} {O : List OrderData}
    (h : Trace id price q [] O) (hq : q ≠ 0) :
    ∃ o, O = [o] ∧ o.clientOrderId = id ∧ o.price = price ∧ o.qty = q := by
  cases h with
  | resting o hid hprice _ => exact ⟨o, rfl, hid, hprice, rfl⟩
  | empty => exact absurd rfl hq

theorem InSync.agrees {x : System} (h : InSync x) : AgreesAtRest x := by
  intro hrequests hresponses t s hs
  have hslot := h.slots t s hs
  have hworks := h.works t s hs
  rw [hrequests, hresponses] at hslot hworks
  have hN : newsOf t s [] = [] := rfl
  have hR : responsesOf t s [] = [] := rfl
  rw [hN, hR] at hslot
  rw [hR] at hworks
  cases hslot with
  | idle hstate _ hO _ =>
    have hne : ∀ st, st ≠ .invalid → st ≠ .dead → (x.manager.order t s).orderState ≠ st := by
      rintro st hinv hdead rfl
      exact hstate.elim hinv hdead
    refine ⟨hne _ (by decide) (by decide), hne _ (by decide) (by decide), ?_⟩
    refine iff_of_false (hne _ (by decide) (by decide)) ?_
    rintro ⟨o, ho, htick, hside, -⟩
    have hmem : o ∈ openOf t s x.openOrders :=
      List.mem_filter.2 ⟨ho, decide_eq_true ⟨htick, hside⟩⟩
    rw [hO] at hmem
    exact absurd hmem List.not_mem_nil
  | sent _ hN => exact absurd hN (by simp)
  | answered _ _ _ hR => exact absurd hR (by simp)
  | working hstate _ ht =>
    have hnot : (x.manager.order t s).orderState ≠ .pendingCancel := by
      intro hpending
      rcases hworks.cancel hpending with ⟨r, hr, -⟩ | ⟨r, hr, -⟩
      · exact absurd hr List.not_mem_nil
      · exact absurd hr List.not_mem_nil
    have hlive := hstate.resolve_right hnot
    refine ⟨by rw [hlive]; decide, hnot, iff_of_true hlive ?_⟩
    obtain ⟨o, hO, hid, hprice, hqty⟩ :=
      ht.resting_of_empty (hworks.qty (by simp [Active, hlive]))
    have hopen : o ∈ openOf t s x.openOrders := hO ▸ List.mem_cons_self
    obtain ⟨hmem, hmine⟩ := List.mem_filter.1 hopen
    obtain ⟨htick, hside⟩ := of_decide_eq_true hmine
    exact ⟨o, hmem, htick, hside, hid, hprice, hqty⟩

/-- **Agreement at rest**: in every run whose calls of `moveOrders` meet the condition, whenever
nothing is in flight the slots and the exchange agree.  The exchange here accepts every `NEW`; the
matching engine does as long as order ids are below `2 ^ 20` and its pools have room. -/
theorem agreesAtRest {clientId : ClientId} {x : System} (h : Reachable Meets clientId x) :
    AgreesAtRest x :=
  (inSync_of_reachable h).agrees

/-- Both orders of a first move are accepted, and that is known. -/
theorem agreesAtRest_accepted : ∃ x : System, x.requests = [] ∧ x.responses = [] ∧
    x.openOrders.length = 2 ∧ AgreesAtRest x := by
  have hmeets : Meets { manager := { clientId := 1 } } (.move 0 100 101 5) :=
    fun _ _ _ => ⟨by decide, fun _ _ ha => absurd ha not_active_empty⟩
  refine ⟨_, ?_, ?_, ?_, agreesAtRest (((((Relation.ReflTransGen.single
    ⟨_, hmeets, .move rfl⟩).tail ⟨.exchange, trivial, @Step.accept _ _ _ 1 1 rfl rfl⟩).tail
    ⟨.exchange, trivial, @Step.accept _ _ _ 2 1 rfl rfl⟩).tail
    ⟨.deliver, trivial, .deliver rfl rfl⟩).tail ⟨.deliver, trivial, .deliver rfl rfl⟩)⟩ <;> rfl

/-- Orders without quantity are accepted and not kept: their slots are live with nothing open. -/
theorem not_agreesAtRest_zero : ¬ ∀ (clientId : ClientId) (x : System),
    Reachable (fun _ _ => True) clientId x → AgreesAtRest x := by
  intro h
  obtain ⟨x, hx, hrequests, hresponses, hlive, hopen⟩ : ∃ x, Reachable (fun _ _ => True) 1 x ∧
      x.requests = [] ∧ x.responses = [] ∧ (x.manager.order 0 .buy).orderState = .live ∧
      x.openOrders = [] :=
    ⟨_, ((((Relation.ReflTransGen.single
      ⟨.move 0 100 101 0, trivial, .move rfl⟩).tail
      ⟨.exchange, trivial, @Step.accept _ _ _ 1 1 rfl rfl⟩).tail
      ⟨.exchange, trivial, @Step.accept _ _ _ 2 1 rfl rfl⟩).tail
      ⟨.deliver, trivial, .deliver rfl rfl⟩).tail ⟨.deliver, trivial, .deliver rfl rfl⟩,
      rfl, rfl, rfl, rfl⟩
  obtain ⟨o, ho, -⟩ := ((h 1 x hx hrequests hresponses 0 .buy (Or.inl rfl)).2.2).1 hlive
  rw [hopen] at ho
  exact absurd ho List.not_mem_nil

end OrderFlow
end TradingEcosystem
