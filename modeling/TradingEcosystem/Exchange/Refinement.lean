import TradingEcosystem.Exchange.ReferenceBook
import TradingEcosystem.Lib.Along

/-!
# When the book refines the reference

The book of the source and the reference book take the same requests side by side.  They differ in
five ways, and `stepAgrees_iff` says that these five are all: the source never trades, it counts
priorities over all prices that share a slot, it names an explicitly cancelled order by the
client's id, its pools hand out each block once, and a `CANCEL` takes 8 MiB of stack.

`Tracks` relates the two books: slot by slot, the orders of the source are those of the reference in
the same order.  It holds as long as every request met the condition, which is how a fact about one
request becomes the fact about runs at the end.
-/

set_option autoImplicit false

namespace TradingEcosystem
namespace Exchange

open ReferenceBook PriceTime Run

namespace MEOrderBook

/-- Every resting bid is below every resting ask. -/
def Uncrossed (b : MEOrderBook) : Prop :=
  ∀ d e, b.Rests d → b.Rests e → d.side = .buy → e.side = .sell → d.price < e.price

end MEOrderBook

namespace Refinement

/-- The two books side by side. -/
abbrev Pair := MEOrderBook × ReferenceBook

/-- Both books take the request. -/
def Next (x : Pair) (req : MEClientRequest) (x' : Pair) : Prop :=
  ∃ sent, x.1.process req = .ok (x'.1, sent) ∧ x'.2 = (x.2.process req).1

/-- The request has the same effect on both books: the same messages in the same order, the same
resting orders with the same quantities, and a book that does not cross. -/
def StepAgrees (x : Pair) (req : MEClientRequest) : Prop :=
  ∃ b', x.1.process req = .ok (b', (x.2.process req).2) ∧
    (∀ d, b'.Rests d ↔ d ∈ (x.2.process req).1.orders) ∧ b'.Uncrossed

/-- The condition on a request and on the books before it.  A `NEW` meets no resting order at a
price it crosses and no order of another price in the slot of its own, and the pools have a block
for it and one to spare; a `CANCEL` has room on the stack for its copy, and names its order by an id
that is also its market order id. -/
def StepMeets (x : Pair) (req : MEClientRequest) : Prop :=
  (req.requestType = .new →
    (∀ e ∈ x.2.opposite req.side, ¬ Crosses req.side req.price e.price) ∧
    (∀ e ∈ x.2.orders, MEOrderBook.priceToIndex e.price = MEOrderBook.priceToIndex req.price →
      e.price = req.price) ∧
    x.1.orderPool.Room ∧
    (x.1.getPriceLevel req.price = none → x.1.priceLevelsPool.Room)) ∧
  (req.requestType = .cancel → x.1.CopyFits ∧
    ∀ d ∈ x.2.orders, HasIds req.clientId req.orderId d → d.marketOrderId = req.orderId)

/-- Every request of a list is one the reference accepts when its turn comes. -/
def AcceptsAll (r : ReferenceBook) (reqs : List MEClientRequest) : Prop :=
  Along (fun r req r' => r' = (r.process req).1) Accepts r reqs

/-! ## The relation -/

/-- The order has a price in slot `i`. -/
def inSlot (i : Nat) (d : OrderData) : Bool := MEOrderBook.priceToIndex d.price = i

/-- `b` holds the orders of `r`, slot by slot. -/
structure Tracks (b : MEOrderBook) (ring : Nat → List Ptr) (r : ReferenceBook) : Prop where
  slots : b.Slots ring
  sound : r.Sound
  /-- A slot holds the reference's orders with a price in it, in the same order. -/
  orders : ∀ i, b.ordersIn ring i = r.orders.filter (inSlot i)
  /-- Orders in one slot have one price. -/
  onePrice : ∀ d ∈ r.orders, ∀ e ∈ r.orders,
    MEOrderBook.priceToIndex d.price = MEOrderBook.priceToIndex e.price → d.price = e.price
  /-- A priority counts orders from one, and there are not more of them than blocks. -/
  priority : ∀ d ∈ r.orders, 0 < d.priority.toNat ∧
    d.priority.toNat ≤ b.orderPool.nextFreeIndex
  /-- The client's table knows every resting order. -/
  table : ∀ i, ∀ p ∈ ring i,
    b.clientOrders (b.data p).clientId (b.data p).clientOrderId = some p
  marketOrderId : r.nextMarketOrderId = b.nextMarketOrderId

theorem tracks_init (t : TickerId) (stackRoom : Nat) :
    Tracks ((MEOrderBook.init t).onStack stackRoom) (fun _ => []) {} where
  slots := (MEOrderBook.slots_init t).onStack stackRoom
  sound := sound_empty
  orders := fun _ => rfl
  onePrice := by simp [ReferenceBook.orders]
  priority := by simp [ReferenceBook.orders]
  table := by simp
  marketOrderId := rfl

section Step

variable {b : MEOrderBook} {ring : Nat → List Ptr} {r : ReferenceBook} {req : MEClientRequest}

theorem Tracks.mem_orders (h : Tracks b ring r) {d : OrderData} :
    d ∈ r.orders ↔ ∃ i, d ∈ b.ordersIn ring i := by
  constructor
  · intro hd
    refine ⟨MEOrderBook.priceToIndex d.price, ?_⟩
    rw [h.orders]
    exact List.mem_filter.2 ⟨hd, by simp [inSlot]⟩
  · rintro ⟨i, hd⟩
    rw [h.orders] at hd
    exact List.mem_of_mem_filter hd

theorem Tracks.rests_iff (h : Tracks b ring r) (d : OrderData) : b.Rests d ↔ d ∈ r.orders := by
  rw [h.slots.rests_iff, h.mem_orders]

theorem Tracks.uncrossed (h : Tracks b ring r) : b.Uncrossed := by
  intro d e hd he hbuy hsell
  have hside : ∀ f ∈ r.orders, f.side = .buy ∧ f ∈ r.bids ∨ f.side = .sell ∧ f ∈ r.asks := by
    intro f hf
    rcases List.mem_append.1 hf with hf | hf
    · exact Or.inl ⟨h.sound.bidSide f hf, hf⟩
    · exact Or.inr ⟨h.sound.askSide f hf, hf⟩
  rcases hside d ((h.rests_iff d).1 hd) with ⟨-, hd⟩ | ⟨hs, -⟩
  · rcases hside e ((h.rests_iff e).1 he) with ⟨hs, -⟩ | ⟨-, he⟩
    · rw [hs] at hsell; exact absurd hsell (by simp)
    · exact h.sound.uncrossed d hd e he
  · rw [hs] at hbuy; exact absurd hbuy (by simp)

/-- **From the relation to agreement**: the state half of `StepAgrees`. -/
theorem Tracks.agrees {b' : MEOrderBook} {ring' : Nat → List Ptr}
    (h : Tracks b' ring' (r.process req).1)
    (hb : b.process req = .ok (b', (r.process req).2)) : StepAgrees (b, r) req :=
  ⟨b', hb, h.rests_iff, h.uncrossed⟩

/-! ## A `NEW` request -/

/-- With nothing to trade with, the slot of a price holds orders of the own side only. -/
theorem Tracks.ordersIn_eq (h : Tracks b ring r)
    (hfree : ∀ e ∈ r.opposite req.side, ¬ Crosses req.side req.price e.price)
    (hone : ∀ e ∈ r.orders, MEOrderBook.priceToIndex e.price =
      MEOrderBook.priceToIndex req.price → e.price = req.price) :
    b.ordersIn ring (MEOrderBook.priceToIndex req.price) =
      (r.own req.side).filter fun d => d.price = req.price := by
  have hsame : ∀ e ∈ r.orders,
      inSlot (MEOrderBook.priceToIndex req.price) e = decide (e.price = req.price) := by
    intro e he
    rw [inSlot, decide_eq_decide]
    exact ⟨hone e he, fun hp => by rw [hp]⟩
  rw [h.orders, List.filter_congr hsame]
  refine filter_orders req.side fun e he hp => hfree e he ?_
  rw [of_decide_eq_true hp]
  exact crosses_self _ _

/-- The two books give the new order the same priority exactly when its slot holds no other
price. -/
theorem Tracks.nextPriority_eq_iff (h : Tracks b ring r)
    (hfree : ∀ e ∈ r.opposite req.side, ¬ Crosses req.side req.price e.price) :
    MEOrderBook.nextPriority (b.ordersIn ring (MEOrderBook.priceToIndex req.price)) =
        MEOrderBook.nextPriority ((r.own req.side).filter fun d => d.price = req.price) ↔
      ∀ e ∈ r.orders, MEOrderBook.priceToIndex e.price = MEOrderBook.priceToIndex req.price →
        e.price = req.price := by
  refine ⟨fun heq => ?_, fun hone => by rw [h.ordersIn_eq hfree hone]⟩
  intro e he hslot
  by_contra hne
  -- the slot holds another price only, so the reference starts to count at one
  have hnone : (r.own req.side).filter (fun d => d.price = req.price) = [] := by
    refine List.filter_eq_nil_iff.2 fun d hd hp => hne ?_
    have hd' : d ∈ r.orders := by
      rw [ReferenceBook.orders, List.mem_append]
      cases hs : req.side <;> rw [hs] at hd <;> first | exact Or.inl hd | exact Or.inr hd
    have hdp : d.price = req.price := of_decide_eq_true hp
    rw [← hdp] at hslot ⊢
    exact h.onePrice e he d hd' hslot
  have hmem : e ∈ b.ordersIn ring (MEOrderBook.priceToIndex req.price) := by
    rw [h.orders]
    exact List.mem_filter.2 ⟨he, by simp [inSlot, hslot]⟩
  have hcons := List.ne_nil_of_mem hmem
  have hlast := List.getLast_mem hcons
  rw [hnone, MEOrderBook.nextPriority, MEOrderBook.nextPriority,
    List.getLast?_eq_some_getLast hcons] at heq
  -- and the source goes on from a priority that is not zero
  have hzero :
      ((b.ordersIn ring (MEOrderBook.priceToIndex req.price)).getLast hcons).priority = 0 := by
    simpa using heq
  have hpos := (h.priority _ (h.mem_orders.2 ⟨_, hlast⟩)).1
  rw [hzero] at hpos
  exact absurd hpos (by decide)

/-- Under the condition the order both books rest is the same one. -/
theorem Tracks.newOrder_eq (h : Tracks b ring r)
    (hfree : ∀ e ∈ r.opposite req.side, ¬ Crosses req.side req.price e.price)
    (hone : ∀ e ∈ r.orders, MEOrderBook.priceToIndex e.price =
      MEOrderBook.priceToIndex req.price → e.price = req.price) :
    b.newOrder ring req = r.restingOrder req req.qty := by
  rw [MEOrderBook.newOrder, ReferenceBook.restingOrder, h.marketOrderId,
    h.ordersIn_eq hfree hone]

/-- A queue with the new order, seen slot by slot. -/
theorem Tracks.filter_enter (h : Tracks b ring r) {d : OrderData}
    (hside : d.side = .buy ∨ d.side = .sell)
    (hfree : ∀ e ∈ r.opposite d.side, ¬ Crosses d.side d.price e.price)
    (hone : ∀ e ∈ r.orders, MEOrderBook.priceToIndex e.price =
      MEOrderBook.priceToIndex d.price → e.price = d.price) (n : OrderId) (i : Nat) :
    (({ r with nextMarketOrderId := n } : ReferenceBook).enter d).orders.filter (inSlot i) =
      if i = MEOrderBook.priceToIndex d.price then
        r.orders.filter (inSlot (MEOrderBook.priceToIndex d.price)) ++ [d]
      else r.orders.filter (inSlot i) := by
  have hne : ∀ e ∈ r.opposite d.side, ¬ inSlot (MEOrderBook.priceToIndex d.price) e := by
    intro e he hp
    have hmem : e ∈ r.orders := by
      rw [ReferenceBook.orders, List.mem_append]
      rcases hside with hs | hs <;> rw [hs] at he
      · exact Or.inr he
      · exact Or.inl he
    exact hfree e he (hone e hmem (of_decide_eq_true hp) ▸ crosses_self _ _)
  have hself : inSlot (MEOrderBook.priceToIndex d.price) d := by simp [inSlot]
  split
  · next hi =>
    subst hi
    rw [filter_orders d.side hne]
    rcases hside with hs | hs
    · have hbid : ∀ e ∈ r.bids, inSlot (MEOrderBook.priceToIndex d.price) e →
          bidRank e ≤ bidRank d := by
        intro e he hp
        rw [bidRank, bidRank, hone e (List.mem_append_left _ he) (of_decide_eq_true hp)]
      rw [enter, if_pos hs, filter_orders .buy (by rw [hs] at hne; exact hne), hs]
      exact filter_enqueue h.sound.bidsRanked hself hbid
    · have hask : ∀ e ∈ r.asks, inSlot (MEOrderBook.priceToIndex d.price) e →
          askRank e ≤ askRank d := by
        intro e he hp
        rw [askRank, askRank, hone e (List.mem_append_right _ he) (of_decide_eq_true hp)]
      rw [enter, if_neg (by simp [hs]), filter_orders .sell (by rw [hs] at hne; exact hne), hs]
      exact filter_enqueue h.sound.asksRanked hself hask
  · next hi =>
    have hout : ¬ inSlot i d := by simpa [inSlot] using Ne.symm hi
    rw [enter]
    split
    · rw [ReferenceBook.orders, ReferenceBook.orders, List.filter_append, List.filter_append,
        filter_enqueue_of_not hout]
    · rw [ReferenceBook.orders, ReferenceBook.orders, List.filter_append, List.filter_append,
        filter_enqueue_of_not hout]

/-- The priority of an order that joins a slot counts on from the last one. -/
theorem Tracks.priority_newOrder (h : Tracks b ring r) (req : MEClientRequest)
    (hroom : b.orderPool.Room) :
    0 < (b.newOrder ring req).priority.toNat ∧
      (b.newOrder ring req).priority.toNat ≤ b.orderPool.nextFreeIndex + 1 := by
  rw [MEOrderBook.newOrder]
  dsimp only
  rw [MEOrderBook.nextPriority]
  split
  · exact ⟨by decide, by simp⟩
  · next d hd =>
    have hmem := h.mem_orders.2 ⟨_, List.mem_of_getLast? hd⟩
    obtain ⟨hpos, hle⟩ := h.priority d hmem
    have hlt : b.orderPool.nextFreeIndex + 1 < 1024 * 1024 := by
      rw [MemPool.Room, h.slots.pools.orderSize] at hroom
      exact hroom
    have hadd : (d.priority + 1).toNat = d.priority.toNat + 1 := by
      rw [UInt64.toNat_add, UInt64.toNat_one, Nat.mod_eq_of_lt]
      omega
    omega

/-- The table finds the new order, and the ones it found before. -/
theorem Tracks.table_new (h : Tracks b ring r) {b' : MEOrderBook}
    (hfresh : ∀ d ∈ r.orders, ¬ HasIds req.clientId req.orderId d)
    (hi : MEOrderBook.Inserted b.generateNewMarketOrderId b' (r.restingOrder req req.qty)) (i : Nat)
    {p : Ptr} (hp : p ∈ Function.update ring (MEOrderBook.priceToIndex req.price)
      (ring (MEOrderBook.priceToIndex req.price) ++ [b.nextOrderPtr]) i) :
    b'.clientOrders (b'.data p).clientId (b'.data p).clientOrderId = some p := by
  rw [hi.table]
  by_cases hpn : p = b.nextOrderPtr
  · subst hpn
    rw [show b'.data b.nextOrderPtr = _ from hi.self]
    simp only [Function.update_self]
    rfl
  · have hold : p ∈ ring i :=
      ((MEOrderBook.mem_inserted _ i).1 hp).resolve_left fun hnew => hpn hnew.2
    -- the ids of an order that rests already are not the new ones
    have hmem : b.data p ∈ r.orders :=
      h.mem_orders.2 ⟨i, MEOrderBook.mem_ordersIn.2 ⟨p, hold, rfl⟩⟩
    rw [show b'.data p = b.data p from hi.other p hpn]
    refine Eq.trans ?_ (h.table i p hold)
    by_cases hc : (b.data p).clientId = req.clientId
    · have ho : (b.data p).clientOrderId ≠ req.orderId := fun ho => hfresh _ hmem ⟨hc, ho⟩
      simp [ReferenceBook.restingOrder, hc, ho]
      rfl
    · simp [ReferenceBook.restingOrder, hc]
      rfl

/-- **A `NEW` that meets the condition keeps the relation.** -/
theorem Tracks.new (h : Tracks b ring r) {b' : MEOrderBook} {ring' : Nat → List Ptr}
    (hside : req.side = .buy ∨ req.side = .sell) (hq : req.qty ≠ 0)
    (hfresh : ∀ d ∈ r.orders, ¬ HasIds req.clientId req.orderId d)
    (hfree : ∀ e ∈ r.opposite req.side, ¬ Crosses req.side req.price e.price)
    (hone : ∀ e ∈ r.orders, MEOrderBook.priceToIndex e.price =
      MEOrderBook.priceToIndex req.price → e.price = req.price)
    (hroom : b.orderPool.Room)
    (hi : MEOrderBook.Inserted b.generateNewMarketOrderId b' (b.newOrder ring req))
    (hring : ring' = Function.update ring (MEOrderBook.priceToIndex req.price)
      (ring (MEOrderBook.priceToIndex req.price) ++ [b.nextOrderPtr]))
    (hs : b'.Slots ring') : Tracks b' ring' (r.add req).1 := by
  subst hring
  have hd := h.newOrder_eq hfree hone
  have hpri := h.priority_newOrder req hroom
  have hnext : b'.orderPool.nextFreeIndex = b.orderPool.nextFreeIndex + 1 := hi.orderNext
  have horders := h.slots.generateNewMarketOrderId.ordersIn_inserted hi
    (MEOrderBook.priceToIndex req.price)
  have hsound := h.sound.add hside
  rw [add_eq_enter hq hfree] at hsound ⊢
  rw [hd] at hi hpri horders
  constructor
  case slots => exact hs
  case sound => exact hsound
  case orders =>
    intro i
    have henter := h.filter_enter (d := r.restingOrder req req.qty) hside hfree hone
      (r.nextMarketOrderId + 1) i
    rw [henter, ← h.orders, ← h.orders]
    exact horders i
  case onePrice =>
    have hnew : ∀ e ∈ r.orders, MEOrderBook.priceToIndex e.price =
        MEOrderBook.priceToIndex (r.restingOrder req req.qty).price →
        e.price = (r.restingOrder req req.qty).price := hone
    intro d hd e he hde
    rcases mem_orders_enter.1 hd with rfl | hd <;> rcases mem_orders_enter.1 he with rfl | he
    · rfl
    · exact (hnew e he hde.symm).symm
    · exact hnew d hd hde
    · exact h.onePrice d hd e he hde
  case priority =>
    intro d hd
    rw [hnext]
    rcases mem_orders_enter.1 hd with rfl | hd
    · exact hpri
    · obtain ⟨hpos, hle⟩ := h.priority d hd
      omega
  case table => exact fun i p hp => h.table_new hfresh hi i hp
  case marketOrderId =>
    rw [hi.marketOrderId, enter]
    have hid : r.nextMarketOrderId + 1 = b.generateNewMarketOrderId.nextMarketOrderId := by
      rw [h.marketOrderId]; rfl
    split <;> exact hid

/-! ## A `CANCEL` request -/

/-- The order the client's table names is the order the reference finds. -/
theorem Tracks.find?_eq (h : Tracks b ring r) {c : ClientId} {o : OrderId} :
    (r.orders.find? fun d => HasIds c o d) = (b.clientOrders c o).map b.data := by
  cases hp : b.clientOrders c o with
  | none =>
    rw [Option.map_none, List.find?_eq_none]
    intro d hd hids
    obtain ⟨i, hi⟩ := h.mem_orders.1 hd
    obtain ⟨p, hpi, rfl⟩ := MEOrderBook.mem_ordersIn.1 hi
    obtain ⟨hc, ho⟩ := of_decide_eq_true hids
    have htable := h.table i p hpi
    rw [hc, ho, hp] at htable
    exact absurd htable (by simp)
  | some p =>
    obtain ⟨hlive, hc, ho⟩ := h.slots.table c o p hp
    obtain ⟨i, hi⟩ := (h.slots.live p).1 hlive
    have hmem : b.data p ∈ r.orders := h.mem_orders.2 ⟨i, MEOrderBook.mem_ordersIn.2 ⟨p, hi, rfl⟩⟩
    obtain ⟨d, hd⟩ : ∃ d, (r.orders.find? fun d => HasIds c o d) = some d := by
      rw [← Option.isSome_iff_exists, List.find?_isSome]
      exact ⟨b.data p, hmem, by simp [HasIds, hc, ho]⟩
    rw [hd, Option.map_some, Option.some_inj]
    -- whatever is found has the ids, and the table leads from the ids to one block
    obtain ⟨j, hj⟩ := h.mem_orders.1 (List.mem_of_find?_eq_some hd)
    obtain ⟨q, hq, rfl⟩ := MEOrderBook.mem_ordersIn.1 hj
    obtain ⟨hqc, hqo⟩ : HasIds c o (b.data q) := by simpa using List.find?_some hd
    have htable := h.table j q hq
    rw [hqc, hqo, hp, Option.some_inj] at htable
    rw [htable]

/-- A `CANCEL` that finds its order keeps the relation. -/
theorem Tracks.cancel (h : Tracks b ring r) {b' : MEOrderBook} {i : Nat} {p : Ptr}
    (hp : p ∈ ring i) (hr : MEOrderBook.Removed b b' p)
    (hs : b'.Slots (Function.update ring i ((ring i).erase p))) :
    Tracks b' (Function.update ring i ((ring i).erase p))
      (r.remove (b.data p).clientId (b.data p).clientOrderId) := by
  have hkey : ∀ j, ∀ q ∈ ring j, ((b.data q).clientId, (b.data q).clientOrderId) =
      ((b.data p).clientId, (b.data p).clientOrderId) → q = p := by
    intro j q hq heq
    obtain ⟨hc, ho⟩ := Prod.mk.inj heq
    have htable := h.table j q hq
    rw [hc, ho, h.table i p hp, Option.some_inj] at htable
    exact htable.symm
  have horders := h.slots.ordersIn_removed (fun d => (d.clientId, d.clientOrderId)) hp hr hkey
  have hsub : ∀ d ∈ (r.remove (b.data p).clientId (b.data p).clientOrderId).orders,
      d ∈ r.orders := by
    intro d hd
    rcases List.mem_append.1 hd with hd | hd
    · exact List.mem_append_left _ (List.mem_of_mem_filter hd)
    · exact List.mem_append_right _ (List.mem_of_mem_filter hd)
  constructor
  case slots => exact hs
  case sound => exact h.sound.remove _ _
  case orders =>
    intro j
    rw [horders, h.orders, ReferenceBook.orders, ReferenceBook.orders, ReferenceBook.remove]
    simp only [← List.filter_append, List.filter_filter]
    refine List.filter_congr fun d _ => ?_
    rw [Bool.and_comm]
    simp [HasIds]
  case onePrice => exact fun d hd e he => h.onePrice d (hsub d hd) e (hsub e he)
  case priority =>
    intro d hd
    rw [hr.orderNext]
    exact h.priority d (hsub d hd)
  case table =>
    intro j q hq
    have hold : q ∈ ring j ∧ q ≠ p := (h.slots.mem_removed hp j q).1 hq
    rw [hr.data, hr.table]
    refine Eq.trans ?_ (h.table j q hold.1)
    by_cases hc : (b.data q).clientId = (b.data p).clientId
    · have ho : (b.data q).clientOrderId ≠ (b.data p).clientOrderId := fun ho =>
        hold.2 (hkey j q hold.1 (by rw [hc, ho]))
      simp [hc, ho]
    · simp [hc]
  case marketOrderId => exact h.marketOrderId.trans hr.marketOrderId.symm

/-! ## One request -/

/-- An accepted request that meets the condition agrees, and the books stay related. -/
theorem Tracks.step (h : Tracks b ring r) (hv : r.Accepts req) (hm : StepMeets (b, r) req) :
    ∃ b' ring', b.process req = .ok (b', (r.process req).2) ∧
      Tracks b' ring' (r.process req).1 := by
  obtain ⟨hc, ho, ⟨hn, hside, hq, hfresh⟩ | hn⟩ := hv
  · obtain ⟨hfree, hone, hroom, hlev⟩ := hm.1 hn
    have hq' : req.qty ≠ 0 := UInt32.pos_iff_ne_zero.1 hq
    obtain ⟨b', hb', hi, hs⟩ := MEOrderBook.process_new h.slots hn hq' hc ho hroom hlev
    refine ⟨b', Function.update ring (MEOrderBook.priceToIndex req.price)
      (ring (MEOrderBook.priceToIndex req.price) ++ [b.nextOrderPtr]), ?_, ?_⟩
    · rw [process_of_new hn, hb', add_eq_enter hq' hfree, ← h.newOrder_eq hfree hone,
        h.marketOrderId]
    · rw [process_of_new hn]
      exact h.new hside hq' hfresh hfree hone hroom hi rfl hs
  · obtain ⟨hfits, hids⟩ := hm.2 hn
    rw [process_of_cancel hn, ReferenceBook.cancel, h.find?_eq]
    cases hp : b.clientOrders req.clientId req.orderId with
    | none => exact ⟨b, ring, MEOrderBook.process_cancel_miss hfits hn hc ho hp, h⟩
    | some p =>
      obtain ⟨-, hcl, hor⟩ := h.slots.table _ _ _ hp
      obtain ⟨i, b', hi, hb', hr, hs⟩ := MEOrderBook.process_cancel_hit h.slots hfits hn hp
      have hmem : b.data p ∈ r.orders :=
        h.mem_orders.2 ⟨i, MEOrderBook.mem_ordersIn.2 ⟨p, hi, rfl⟩⟩
      have hid : (b.data p).marketOrderId = req.orderId := hids _ hmem ⟨hcl, hor⟩
      have htracks := h.cancel hi hr hs
      rw [hcl, hor] at htracks
      refine ⟨b', _, ?_, htracks⟩
      rw [hb', Option.map_some]
      simp only [hid]

/-- **The condition is exact**: an accepted request agrees if and only if it meets it. -/
theorem stepAgrees_iff (h : Tracks b ring r) (hv : r.Accepts req) :
    StepAgrees (b, r) req ↔ StepMeets (b, r) req := by
  refine ⟨fun hagree => ?_, fun hm => ?_⟩
  · obtain ⟨b', hb', -⟩ := hagree
    obtain ⟨hc, ho, ⟨hn, hside, hq, -⟩ | hn⟩ := hv
    · have hq' : req.qty ≠ 0 := UInt32.pos_iff_ne_zero.1 hq
      refine ⟨fun _ => ?_, fun hcancel => absurd (hn.symm.trans hcancel) (by simp)⟩
      obtain ⟨hroom, hlev⟩ := MEOrderBook.process_new_room h.slots hn hq' hb'
      obtain ⟨b'', hb'', -⟩ := MEOrderBook.process_new h.slots hn hq' hc ho hroom hlev
      have hsent : (r.add req).2 =
          [.clientResponse (MEOrderBook.acceptedResponse b.nextMarketOrderId req),
            .marketUpdate (MEOrderBook.addUpdate (b.newOrder ring req))] := by
        rw [← process_of_new hn]
        exact (Prod.mk.inj (Except.ok.inj (hb'.symm.trans hb''))).2
      -- the second message is an update, where a trade would have sent a fill
      have hfree : ∀ e ∈ r.opposite req.side, ¬ Crosses req.side req.price e.price := by
        intro e he hcross
        obtain ⟨o, rest, hl⟩ := List.exists_cons_of_ne_nil (List.ne_nil_of_mem he)
        have hbest := h.sound.head_crosses hside hl (hl ▸ he) hcross
        obtain ⟨m, more, hfill⟩ := exists_trade_sent (i := r.incoming req) rest hq' hbest
        obtain ⟨last, hadd⟩ := exists_add_sent r req
        rw [hl, hfill, hsent] at hadd
        exact absurd (List.cons.inj (List.cons.inj hadd).2).1 (by simp)
      rw [add_eq_enter hq' hfree] at hsent
      have hupdate := (List.cons.inj (List.cons.inj hsent).2).1
      have hpriority : (r.restingOrder req req.qty).priority = (b.newOrder ring req).priority := by
        simpa [MEOrderBook.addUpdate] using (MEMarketUpdate.mk.inj
          (Sent.marketUpdate.inj hupdate)).2.2.2.2.2.2
      exact ⟨hfree, (h.nextPriority_eq_iff hfree).1 hpriority.symm, hroom, hlev⟩
    · have hfits := MEOrderBook.process_cancel_fits hn hc hb'
      refine ⟨fun hnew => absurd (hn.symm.trans hnew) (by simp), fun _ => ⟨hfits, ?_⟩⟩
      intro d hd hids
      have hfind := h.find?_eq (c := req.clientId) (o := req.orderId)
      cases hp : b.clientOrders req.clientId req.orderId with
      | none =>
        rw [hp, Option.map_none, List.find?_eq_none] at hfind
        exact absurd (decide_eq_true hids) (hfind d hd)
      | some p =>
        obtain ⟨i, b'', hi, hb'', -⟩ := MEOrderBook.process_cancel_hit h.slots hfits hn hp
        rw [hp, Option.map_some] at hfind
        have hsent := (Prod.mk.inj (Except.ok.inj (hb'.symm.trans hb''))).2
        rw [process_of_cancel hn, ReferenceBook.cancel, hfind] at hsent
        have hupdate := (List.cons.inj hsent).1
        have hid : (b.data p).marketOrderId = req.orderId :=
          (MEMarketUpdate.mk.inj (Sent.marketUpdate.inj hupdate)).2.1
        -- the ids belong to one order
        obtain ⟨j, hj⟩ := h.mem_orders.1 hd
        obtain ⟨q, hq, rfl⟩ := MEOrderBook.mem_ordersIn.1 hj
        have htable := h.table j q hq
        rw [hids.1, hids.2, hp, Option.some_inj] at htable
        rw [← htable]
        exact hid
  · obtain ⟨b', ring', hb', ht⟩ := h.step hv hm
    exact ht.agrees hb'

end Step

/-! ## Whole runs -/

theorem Tracks.next {x x' : Pair} {req : MEClientRequest} (h : ∃ ring, Tracks x.1 ring x.2)
    (hv : x.2.Accepts req) (hm : StepMeets x req) (hn : Next x req x') :
    ∃ ring, Tracks x'.1 ring x'.2 := by
  obtain ⟨ring, h⟩ := h
  obtain ⟨sent, hsent, hr⟩ := hn
  obtain ⟨b', ring', hb', ht⟩ := h.step hv hm
  rw [hr, (Prod.mk.inj (Except.ok.inj (hsent.symm.trans hb'))).1]
  exact ⟨ring', ht⟩

/-- **The book refines the reference** over a list of requests, on a stack of any size, exactly when
every one of them meets the condition. -/
theorem refines_iff (t : TickerId) (stackRoom : Nat) (reqs : List MEClientRequest)
    (hv : AcceptsAll {} reqs) :
    Along Next StepAgrees ((MEOrderBook.init t).onStack stackRoom, {}) reqs ↔
      Along Next StepMeets ((MEOrderBook.init t).onStack stackRoom, {}) reqs := by
  refine along_congr (fun x => ∃ ring, Tracks x.1 ring x.2) (fun x req => x.2.Accepts req) ?_ ?_
    ⟨_, tracks_init t stackRoom⟩ ?_
  · rintro ⟨b, r⟩ req ⟨ring, h⟩ hacc
    exact stepAgrees_iff h hacc
  · exact fun x req x' h hacc hm hn => Tracks.next h hacc hm hn
  · exact Along.comap Prod.snd (fun x req x' ⟨_, _, h⟩ => h) hv

/-- A first buy order at 100. -/
def buyAt100 : MEClientRequest where
  requestType := .new
  clientId := 1
  tickerId := 0
  orderId := 1
  price := 100
  qty := 5
  side := .buy

/-- Another client's sell order at the same price. -/
def sellAt100 : MEClientRequest := { buyAt100 with clientId := 2, side := .sell }

/-- The cancel of the first order. -/
def cancelFirst : MEClientRequest := { buyAt100 with requestType := .cancel }

/-- An order that is alone, and its cancel by the id 1, which is its market order id as well. -/
theorem refines_new_cancel :
    Along Next StepAgrees (MEOrderBook.init 0, {}) [buyAt100, cancelFirst] := by
  have hacc : AcceptsAll {} [buyAt100, cancelFirst] :=
    ⟨by decide, fun _ hr => hr ▸ ⟨by decide, fun _ _ => trivial⟩⟩
  refine (refines_iff 0 orderHashMapSize _ hacc).2
    ⟨⟨fun _ => ?_, fun h => absurd h (by decide)⟩, ?_⟩
  · exact ⟨by decide, by decide, by decide, fun _ => by decide⟩
  · rintro ⟨b, r⟩ ⟨_, hb, hr⟩
    dsimp only at hb hr
    subst hr
    have hfits : b.CopyFits :=
      (MEOrderBook.stackRoom_of_process ((MEOrderBook.slots_init 0).onStack _) hb).ge
    have hid : ∀ d ∈ (({} : ReferenceBook).process buyAt100).1.orders,
        HasIds cancelFirst.clientId cancelFirst.orderId d →
        d.marketOrderId = cancelFirst.orderId := by decide
    exact ⟨⟨fun h => absurd h (by decide), fun _ => ⟨hfits, hid⟩⟩, fun _ _ => trivial⟩

/-- A sell order at the price of a resting bid trades in the reference and rests in the source. -/
theorem not_refines_crossing :
    ¬ ∀ (t : TickerId) (reqs : List MEClientRequest), AcceptsAll {} reqs →
      Along Next StepAgrees (MEOrderBook.init t, {}) reqs := by
  intro h
  have hlength : ((MEOrderBook.init 0).process buyAt100 >>= fun x =>
      x.1.process sellAt100 >>= fun y => pure y.2.length) = .ok 2 := by rfl
  obtain ⟨⟨b, hb, -⟩, hnext⟩ := h 0 [buyAt100, sellAt100]
    ⟨by decide, fun _ hr => hr ▸ ⟨by decide, fun _ _ => trivial⟩⟩
  obtain ⟨⟨b', hb', -⟩, -⟩ := hnext (b, _) ⟨_, hb, rfl⟩
  rw [hb, ok_bind, hb', ok_bind] at hlength
  have hfive : (((({} : ReferenceBook).process buyAt100).1.process sellAt100).2).length = 5 := by
    decide
  rw [pure_eq_ok, Except.ok.injEq] at hlength
  exact absurd (hlength.symm.trans hfive) (by decide)

end Refinement
end Exchange
end TradingEcosystem
