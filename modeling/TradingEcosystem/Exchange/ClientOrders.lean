import TradingEcosystem.Exchange.OrderTable

/-!
# The table of client orders

`client_orders_` is how a client gets back to its orders: `cancel` looks nowhere else.  `add` writes
the entry of the new order without looking at what is there, so a `NEW` with the ids of an order
that rests leaves that order without an entry, and it can never be cancelled again.
`along_ownersReach_iff` says that nothing else goes wrong.
-/

set_option autoImplicit false

namespace TradingEcosystem
namespace Exchange
namespace MEOrderBook

open Run

/-- **The table is a bijection onto the resting orders**: the entry of a client and a client order
id leads to the resting order with these ids, and is null if there is none. -/
def OwnersReach (b : MEOrderBook) : Prop :=
  ∀ c o p, b.clientOrders c o = some p ↔
    b.Reaches p ∧ (b.data p).clientId = c ∧ (b.data p).clientOrderId = o

/-- It is one after the request. -/
def KeepsOwners (b : MEOrderBook) (req : MEClientRequest) : Prop :=
  ∀ b', Next b req b' → OwnersReach b'

/-- The condition: no resting order has the ids of a `NEW` with a quantity. -/
def FreshIds (b : MEOrderBook) (req : MEClientRequest) : Prop :=
  req.requestType = .new → req.qty ≠ 0 →
    ∀ d, b.Rests d → ¬ (d.clientId = req.clientId ∧ d.clientOrderId = req.orderId)

variable {b b' : MEOrderBook} {ring : Nat → List Ptr} {req : MEClientRequest}

/-- In a book of rings only the resting orders can be at fault. -/
theorem Slots.ownersReach_iff (h : Slots b ring) : OwnersReach b ↔
    ∀ i, ∀ p ∈ ring i,
      b.clientOrders (b.data p).clientId (b.data p).clientOrderId = some p := by
  constructor
  · exact fun hown i p hp => (hown _ _ p).2 ⟨h.reaches_iff.2 ⟨i, hp⟩, rfl, rfl⟩
  · refine fun hown c o p => ⟨fun hp => ?_, ?_⟩
    · obtain ⟨hlive, hids⟩ := h.table c o p hp
      exact ⟨h.reaches_iff.2 ((h.live p).1 hlive), hids⟩
    · rintro ⟨hp, rfl, rfl⟩
      obtain ⟨i, hi⟩ := h.reaches_iff.1 hp
      exact hown i p hi

/-- An entry of the table after an order is inserted. -/
theorem Inserted.clientOrders {d : OrderData} (hi : Inserted b b' d) (c : ClientId) (o : OrderId) :
    b'.clientOrders c o =
      if c = d.clientId ∧ o = d.clientOrderId then some b.nextOrderPtr else b.clientOrders c o := by
  rw [hi.table]
  by_cases hc : c = d.clientId
  · subst hc
    by_cases ho : o = d.clientOrderId <;> simp [ho]
  · simp [hc]

/-- An entry of the table after an order is removed. -/
theorem Removed.clientOrders {p : Ptr} (hr : Removed b b' p) (c : ClientId) (o : OrderId) :
    b'.clientOrders c o =
      if c = (b.data p).clientId ∧ o = (b.data p).clientOrderId then none
        else b.clientOrders c o := by
  rw [hr.table]
  by_cases hc : c = (b.data p).clientId
  · subst hc
    by_cases ho : o = (b.data p).clientOrderId <;> simp [ho]
  · simp [hc]

/-- **Inserting** keeps the table if and only if the ids are not in use. -/
theorem Slots.ownersReach_inserted (h : Slots b ring) (hown : OwnersReach b) {d : OrderData}
    (hi : Inserted b b' d) {j : Nat}
    (hs : Slots b' (Function.update ring j (ring j ++ [b.nextOrderPtr]))) :
    OwnersReach b' ↔
      ∀ e, b.Rests e → ¬ (e.clientId = d.clientId ∧ e.clientOrderId = d.clientOrderId) := by
  have hold : ∀ i, ∀ p ∈ ring i, b'.data p = b.data p := fun i p hp =>
    hi.other p (h.ne_fresh hp)
  rw [h.ownersReach_iff] at hown
  rw [hs.ownersReach_iff]
  constructor
  · intro hown' e he hids
    obtain ⟨i, hi'⟩ := h.rests_iff.1 he
    obtain ⟨p, hp, rfl⟩ := mem_ordersIn.1 hi'
    -- the entry of the old order leads to the new one
    have hentry := hown' i p ((mem_inserted j i).2 (Or.inr hp))
    rw [hold i p hp, hi.clientOrders, if_pos hids, Option.some_inj] at hentry
    exact h.ne_fresh hp hentry.symm
  · intro hfresh i p hp
    rcases (mem_inserted j i).1 hp with ⟨-, rfl⟩ | hp
    · rw [hi.self, hi.clientOrders, if_pos ⟨rfl, rfl⟩]
    · have he : b.Rests (b.data p) := h.rests_iff.2 ⟨i, mem_ordersIn.2 ⟨p, hp, rfl⟩⟩
      rw [hold i p hp, hi.clientOrders, if_neg (hfresh _ he)]
      exact hown i p hp

/-- **Removing** keeps the table. -/
theorem Slots.ownersReach_removed (h : Slots b ring) (hown : OwnersReach b) {i : Nat} {p : Ptr}
    (hi : p ∈ ring i) (hr : Removed b b' p)
    (hs : Slots b' (Function.update ring i ((ring i).erase p))) : OwnersReach b' := by
  rw [h.ownersReach_iff] at hown
  rw [hs.ownersReach_iff]
  intro j q hq
  obtain ⟨hq, hqp⟩ := (h.mem_removed hi j q).1 hq
  have hne : ¬ ((b.data q).clientId = (b.data p).clientId ∧
      (b.data q).clientOrderId = (b.data p).clientOrderId) := by
    rintro ⟨hc, ho⟩
    have hentry := hown j q hq
    rw [hc, ho, hown i p hi, Option.some_inj] at hentry
    exact hqp hentry.symm
  rw [hr.data, hr.clientOrders, if_neg hne]
  exact hown j q hq

/-- What holds between two requests. -/
def Owned (b : MEOrderBook) : Prop := (∃ ring, Slots b ring) ∧ OwnersReach b

theorem owned_init (t : TickerId) : Owned (init t) :=
  ⟨⟨_, slots_init t⟩, (slots_init t).ownersReach_iff.2 fun _ _ hp => absurd hp (by simp)⟩

/-- **One request.** -/
theorem Owned.keepsOwners_iff (h : Owned b) (hret : Returns b req) :
    KeepsOwners b req ↔ FreshIds b req := by
  obtain ⟨⟨ring, h⟩, hown⟩ := h
  obtain ⟨⟨c, sent⟩, hc⟩ := hret
  rw [KeepsOwners, forall_next_iff hc]
  cases processed_of_eq_ok h hc with
  | empty hn hq => exact iff_of_true hown fun _ hq' => absurd hq hq'
  | rested hn hq hi hs =>
    rw [h.generateNewMarketOrderId.ownersReach_inserted hown hi hs]
    exact ⟨fun hf _ _ => hf, fun hf => hf hn hq⟩
  | dropped hn => exact iff_of_true hown fun hn' => absurd (hn.symm.trans hn') (by decide)
  | missed hn => exact iff_of_true hown fun hn' => absurd (hn.symm.trans hn') (by decide)
  | removed hn _ hi hr hs =>
    exact iff_of_true (h.ownersReach_removed hown hi hr hs)
      fun hn' => absurd (hn.symm.trans hn') (by decide)

theorem Owned.along_iff (h : Owned b) {reqs : List MEClientRequest}
    (hret : Along Next Returns b reqs) :
    Along Next KeepsOwners b reqs ↔ Along Next FreshIds b reqs :=
  along_keeps_iff (fun _ _ h hret => Owned.keepsOwners_iff h hret) h hret

/-- **Every resting order stays cancellable by its owner**, in every state of a run, exactly when no
`NEW` of the run has the ids of an order that rests. -/
theorem along_ownersReach_iff (t : TickerId) (reqs : List MEClientRequest)
    {y : MEOrderBook × List Sent} (hrun : (init t).processAll reqs = .ok y) :
    Along Next KeepsOwners (init t) reqs ↔ Along Next FreshIds (init t) reqs :=
  (owned_init t).along_iff (along_returns reqs hrun)

/-- A buy order of client 1. -/
def buyFive : MEClientRequest where
  requestType := .new
  clientId := 1
  tickerId := 0
  orderId := 5
  price := 100
  qty := 10
  side := .buy

/-- Two orders of a client, and the cancel of the first. -/
theorem along_ownersReach_twoBuys : Along Next KeepsOwners (init 0)
    [buyFive, { buyFive with orderId := 6 }, { buyFive with requestType := .cancel }] := by
  have hrun : ∃ y, (init 0).processAll
    [buyFive, { buyFive with orderId := 6 }, { buyFive with requestType := .cancel }] =
      .ok y := ⟨_, rfl⟩
  obtain ⟨y, hrun⟩ := hrun
  refine (along_ownersReach_iff 0 _ hrun).2 ⟨fun _ _ d hd => absurd hd (not_rests_init 0 d), ?_⟩
  intro b hb
  refine ⟨fun _ _ d hd => ?_, fun _ _ => ⟨fun hn => absurd hn (by decide), fun _ _ => trivial⟩⟩
  obtain ⟨ring, htab⟩ := (tabulates_init 0 orderHashMapSize).next rfl hb
  have hfive : ∀ e ∈ ({} : OrderTable).entries ++ [⟨0, ({} : OrderTable).newOrder buyFive⟩],
      ¬ (e.order.clientId = 1 ∧ e.order.clientOrderId = 6) := by decide
  obtain ⟨e, he, rfl⟩ := List.mem_map.1 ((htab.rests_iff d).1 hd)
  exact hfive e he

/-- The same order once more: the first one rests and has no entry. -/
theorem not_along_ownersReach : ¬ ∀ reqs y, (init 0).processAll reqs = .ok y →
    Along Next KeepsOwners (init 0) reqs := by
  intro h
  have hrun : ∃ y, (init 0).processAll [buyFive, buyFive] = .ok y := ⟨_, rfl⟩
  have hfirst : ∃ b, Next (init 0) buyFive b ∧
      ∃ d, b.Rests d ∧ d.clientId = buyFive.clientId ∧ d.clientOrderId = buyFive.orderId :=
    ⟨_, ⟨_, rfl⟩, _, ⟨0, ⟨100, by decide, 0, 0, rfl, rfl, .refl⟩, rfl⟩, rfl, rfl⟩
  obtain ⟨y, hrun⟩ := hrun
  obtain ⟨b, hb, d, hd, hids⟩ := hfirst
  have hfresh := (((owned_init 0).along_iff (along_returns _ hrun)).1 (h _ y hrun)).2 b hb
  exact hfresh.1 rfl (by decide) d hd hids

end MEOrderBook
end Exchange
end TradingEcosystem
