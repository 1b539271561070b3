import TradingEcosystem.Exchange.OrderLives

/-!
# Time priority

Among the orders of one level the older ones go first.  The book never sorts: `add` links an order
behind the last one of its level and gives it the priority of that order plus one, so the ring of a
level is in the order of arrival as long as its last order has the largest priority in it.  A cancel
takes an order out anywhere and may make another one the last, and what is left is still in order.

`KeepsTime` says this of the pointers and fields of a book alone.  What carries it through a run is
`Timed`: a priority and a market order id are at most the number of orders so far, which is what
keeps both from wrapping around.
-/

set_option autoImplicit false

namespace TradingEcosystem
namespace Exchange
namespace MEOrderBook

open Ring

/-- `d` goes first: its priority and its market order id are the smaller ones. -/
structure GoesBefore (d e : OrderData) : Prop where
  priority : d.priority < e.priority
  marketOrderId : d.marketOrderId < e.marketOrderId

/-- Slot `i` of the price table leads to the order at `p`, through `first_order_` and along
`next_order_`. -/
def VisitedFrom (b : MEOrderBook) (i : Nat) (p : Ptr) : Prop :=
  ∃ l a, b.priceLevels i = some l ∧ (b.level l).firstOrder = some a ∧
    Relation.ReflTransGen (fun q r => b.nextOrder q = some r) a p

/-- The orders that a visit of slot `i` meets, in this order. -/
structure VisitOf (b : MEOrderBook) (i : Nat) (orders : List Ptr) : Prop where
  /-- They are distinct, `next_order_` leads from each to the next and from the last to the first,
  and `prev_order_` leads back. -/
  isRing : IsRing b.nextOrder b.prevOrder orders
  live : ∀ p ∈ orders, b.orderPool.Live p
  slotOf : ∀ p ∈ orders, priceToIndex (b.data p).price = i
  sorted : orders.Pairwise fun p q => GoesBefore (b.data p) (b.data q)

/-- **Time priority is kept**: a slot that is not null is visited in the order of arrival, and each
live order from one slot. -/
structure KeepsTime (b : MEOrderBook) : Prop where
  visit : ∀ i l, b.priceLevels i = some l →
    ∃ a t, (b.level l).firstOrder = some a ∧ VisitOf b i (a :: t)
  once : ∀ p, b.orderPool.Live p → ∃! i, b.VisitedFrom i p

variable {b b' : MEOrderBook} {ring : Nat → List Ptr} {k : Nat} {req : MEClientRequest}
  {sent : List Sent}

/-- What a visit of a slot meets. -/
theorem Slots.visitedFrom_iff (h : Slots b ring) {i : Nat} {p : Ptr} :
    b.VisitedFrom i p ↔ p ∈ ring i := by
  constructor
  · rintro ⟨l, a, hl, ha, hp⟩
    exact ((h.inSlot i).reaches_iff hl).1 ⟨a, ha, hp⟩
  · intro hp
    obtain ⟨l, hl⟩ := (h.inSlot i).exists_level hp
    obtain ⟨a, ha, hap⟩ := ((h.inSlot i).reaches_iff hl).2 hp
    exact ⟨l, a, hl, ha, hap⟩

/-! ## The next priority -/

theorem nextPriority_concat (s : List OrderData) (e : OrderData) :
    nextPriority (s ++ [e]) = e.priority + 1 := by
  rw [nextPriority, List.getLast?_concat]

theorem toNat_add_one {n : Priority} (hk : k + 1 < UInt64.size) (hn : n.toNat ≤ k) :
    (n + 1).toNat = n.toNat + 1 := by
  rw [UInt64.toNat_add, UInt64.toNat_one]
  exact Nat.mod_eq_of_lt (by have : UInt64.size = 2 ^ 64 := rfl; omega)

theorem toNat_nextPriority_le {l : List OrderData} (hk : k + 1 < UInt64.size)
    (hl : ∀ d ∈ l, d.priority.toNat ≤ k) : (nextPriority l).toNat ≤ k + 1 := by
  rcases List.eq_nil_or_concat l with rfl | ⟨s, e, rfl⟩
  · exact Nat.le_add_left 1 k
  · have he := hl e (by simp)
    rw [List.concat_eq_append, nextPriority_concat, toNat_add_one hk he]
    omega

/-- The last order of a level has the largest priority in it, and the next one has more. -/
theorem lt_nextPriority {l : List OrderData} (hk : k + 1 < UInt64.size)
    (hl : ∀ d ∈ l, d.priority.toNat ≤ k) (hsorted : l.Pairwise GoesBefore) {d : OrderData}
    (hd : d ∈ l) : d.priority < nextPriority l := by
  rcases List.eq_nil_or_concat l with rfl | ⟨s, e, rfl⟩
  · exact absurd hd (by simp)
  · rw [List.concat_eq_append] at hd hsorted hl ⊢
    have he := hl e (by simp)
    rw [nextPriority_concat, UInt64.lt_iff_toNat_lt, toNat_add_one hk he]
    rcases List.mem_append.1 hd with hd | hd
    · have hde := (List.pairwise_append.1 hsorted).2.2 d hd e (by simp)
      exact Nat.lt_succ_of_lt (UInt64.lt_iff_toNat_lt.1 hde.priority)
    · obtain rfl := List.mem_singleton.1 hd
      exact Nat.lt_succ_self _

/-! ## The invariant -/

/-- `k` ids were handed out, and every slot holds its orders by priority and by id. -/
structure Timed (b : MEOrderBook) (ring : Nat → List Ptr) (k : Nat) : Prop where
  slots : Slots b ring
  counter : b.nextMarketOrderId = .ofNat (k + 1)
  stamped : ∀ i, ∀ d ∈ b.ordersIn ring i, d.priority.toNat ≤ k ∧ d.marketOrderId.toNat ≤ k
  sorted : ∀ i, (b.ordersIn ring i).Pairwise GoesBefore

theorem timed_init (t : TickerId) : Timed (init t) (fun _ => []) 0 where
  slots := slots_init t
  counter := rfl
  stamped := by simp [ordersIn]
  sorted := by simp [ordersIn]

theorem Timed.toNat_next (h : Timed b ring k) (hk : k + 1 < UInt64.size) :
    b.nextMarketOrderId.toNat = k + 1 := by
  rw [h.counter, UInt64.toNat_ofNat_of_lt' hk]

/-- A `NEW` that leaves nothing in the book. -/
theorem Timed.empty (h : Timed b ring k) : Timed b.generateNewMarketOrderId ring (k + 1) where
  slots := h.slots.generateNewMarketOrderId
  counter := (congrArg (· + 1) h.counter).trans (UInt64.ofNat_add (k + 1) 1).symm
  stamped := fun i d hd =>
    ⟨Nat.le_succ_of_le (h.stamped i d hd).1, Nat.le_succ_of_le (h.stamped i d hd).2⟩
  sorted := h.sorted

/-- A `NEW` that rests goes after all orders of its slot. -/
theorem Timed.goesBefore_newOrder (h : Timed b ring k) (hk : k + 1 < UInt64.size)
    {d : OrderData} (hd : d ∈ b.ordersIn ring (priceToIndex req.price)) :
    GoesBefore d (b.newOrder ring req) where
  priority := lt_nextPriority hk (fun e he => (h.stamped _ e he).1) (h.sorted _) hd
  marketOrderId := by
    have hid : (b.newOrder ring req).marketOrderId.toNat = k + 1 := h.toNat_next hk
    rw [UInt64.lt_iff_toNat_lt, hid]
    exact Nat.lt_succ_of_le (h.stamped _ d hd).2

theorem Timed.rested (h : Timed b ring k) (hk : k + 1 < UInt64.size)
    (hi : Inserted b.generateNewMarketOrderId b' (b.newOrder ring req))
    (hs : Slots b' (Function.update ring (priceToIndex req.price)
      (ring (priceToIndex req.price) ++ [b.nextOrderPtr]))) :
    Timed b' (Function.update ring (priceToIndex req.price)
      (ring (priceToIndex req.price) ++ [b.nextOrderPtr])) (k + 1) := by
  have he := h.empty
  have horders : ∀ i, b'.ordersIn (Function.update ring (priceToIndex req.price)
      (ring (priceToIndex req.price) ++ [b.nextOrderPtr])) i =
        if i = priceToIndex req.price then
          b.ordersIn ring (priceToIndex req.price) ++ [b.newOrder ring req]
        else b.ordersIn ring i := he.slots.ordersIn_inserted hi _
  refine ⟨hs, hi.marketOrderId.trans he.counter, fun i d hd => ?_, fun i => ?_⟩
  · rw [horders] at hd
    split at hd
    · rcases List.mem_append.1 hd with hd | hd
      · exact he.stamped _ d hd
      · rw [List.mem_singleton.1 hd]
        exact ⟨toNat_nextPriority_le hk fun e hold => (h.stamped _ e hold).1, (h.toNat_next hk).le⟩
    · exact he.stamped i d hd
  · rw [horders]
    split
    · refine List.pairwise_append.2 ⟨h.sorted _, List.pairwise_singleton _ _, fun d hd e he => ?_⟩
      rw [List.mem_singleton.1 he]
      exact h.goesBefore_newOrder hk hd
    · exact h.sorted i

/-- What stays of a slot when an order leaves the book. -/
theorem Slots.ordersIn_removed_sublist (h : Slots b ring) {i : Nat} {p : Ptr} (hp : p ∈ ring i)
    (hr : Removed b b' p) (j : Nat) :
    (b'.ordersIn (Function.update ring i ((ring i).erase p)) j).Sublist (b.ordersIn ring j) := by
  rw [ordersIn, ordersIn, funext hr.data, h.update_erase hp]
  exact List.erase_sublist.map _

/-- A `CANCEL` that takes its order out leaves the others in order. -/
theorem Timed.removed (h : Timed b ring k) {i : Nat} {p : Ptr} (hp : p ∈ ring i)
    (hr : Removed b b' p) (hs : Slots b' (Function.update ring i ((ring i).erase p))) :
    Timed b' (Function.update ring i ((ring i).erase p)) k where
  slots := hs
  counter := hr.marketOrderId.trans h.counter
  stamped := fun j d hd => h.stamped j d ((h.slots.ordersIn_removed_sublist hp hr j).subset hd)
  sorted := fun j => (h.sorted j).sublist (h.slots.ordersIn_removed_sublist hp hr j)

/-- **One request.** -/
theorem Timed.step (h : Timed b ring k) (hk : k + 1 < UInt64.size)
    (hb : b.process req = .ok (b', sent)) : ∃ ring' k', k' ≤ k + 1 ∧ Timed b' ring' k' := by
  cases processed_of_eq_ok h.slots hb with
  | empty => exact ⟨ring, k + 1, Nat.le_refl _, h.empty⟩
  | rested _ _ hi hs => exact ⟨_, k + 1, Nat.le_refl _, h.rested hk hi hs⟩
  | dropped => exact ⟨ring, k, Nat.le_succ k, h⟩
  | missed => exact ⟨ring, k, Nat.le_succ k, h⟩
  | removed _ _ hi hr hs => exact ⟨_, k, Nat.le_succ k, h.removed hi hr hs⟩

/-- The rings a book is made of are what its pointers say, so the invariant is about the book. -/
theorem Timed.keepsTime (h : Timed b ring k) : KeepsTime b where
  visit := by
    intro i l hl
    obtain ⟨a, t, hr, -, ha, -⟩ := h.slots.level_of_slot hl
    refine ⟨a, t, ha, ?_⟩
    rw [← hr]
    exact ⟨h.slots.isRing i, fun p hp => h.slots.live_of_mem hp, h.slots.slotOf i,
      List.pairwise_map.1 (h.sorted i)⟩
  once := by
    intro p hp
    obtain ⟨i, hi⟩ := (h.slots.live p).1 hp
    refine ⟨i, h.slots.visitedFrom_iff.2 hi, fun j hj => ?_⟩
    rw [← h.slots.slotOf j p (h.slots.visitedFrom_iff.1 hj), h.slots.slotOf i p hi]

/-- **Time priority is kept** by fewer than 2^64 requests, whatever they are: prices that share a
slot, and orders cancelled at the head, inside or at the end of their level. -/
theorem keepsTime_of_processAll (t : TickerId) (reqs : List MEClientRequest)
    (hlen : reqs.length < UInt64.size) (hrun : (init t).processAll reqs = .ok (b, sent)) :
    KeepsTime b := by
  have hstep : ∀ n (x : MEOrderBook × List Sent) req y, n + 1 < UInt64.size →
      (∃ ring k, k ≤ n ∧ Timed x.1 ring k) → processAfter x req = .ok y →
        ∃ ring k, k ≤ n + 1 ∧ Timed y.1 ring k := by
    rintro n x req y hn ⟨ring, k, hk, h⟩ hy
    obtain ⟨more, hmore, -⟩ := processAfter_eq_ok.1 hy
    obtain ⟨ring', k', hk', h'⟩ := h.step (by omega) hmore
    exact ⟨ring', k', by omega, h'⟩
  obtain ⟨ring, k, -, h⟩ := Run.inv_of_foldlM_lt _ hstep
    ⟨_, 0, Nat.le_refl 0, timed_init t⟩ (by omega) hrun
  exact h.keepsTime

/-- Two orders of one level, with different prices, the older of which is cancelled before a third
one arrives. -/
def crowdedLevel : List MEClientRequest :=
  [firstBuy, { firstBuy with orderId := 7, price := 356 },
    { firstBuy with requestType := .cancel }, { firstBuy with orderId := 8 }]

theorem keepsTime_crowdedLevel : ∃ b sent, (init 0).processAll crowdedLevel = .ok (b, sent) ∧
    b.priceLevels 100 = some 0 ∧ KeepsTime b := by
  have hrun : ∃ b sent, (init 0).processAll crowdedLevel = .ok (b, sent) ∧
    b.priceLevels 100 = some 0 := ⟨_, _, rfl, rfl⟩
  obtain ⟨b, sent, hrun, hlevel⟩ := hrun
  exact ⟨b, sent, hrun, hlevel, keepsTime_of_processAll 0 crowdedLevel (by decide) hrun⟩

end MEOrderBook
end Exchange
end TradingEcosystem
