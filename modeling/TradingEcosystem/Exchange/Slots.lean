import TradingEcosystem.Exchange.MEOrderBook
import TradingEcosystem.Lib.Ring

/-!
# The shape of a reachable book

`Slots b ring` describes every book that requests can build from an empty one: both ladder heads
are null, because nothing ever assigns a head that is null, and the price table alone holds the
book.  Slot `i` leads to a level linked to itself whose orders form the ring `ring i`, in the order
they arrived.

The four operations on such a book are settled once: `getNextPriority_eq` and `checkForMatch_eq`
here, `addOrder_slots` and `removeOrder_slots` in the two modules that follow.  Later modules reason
with `ring` and `data`, the order at an address without its links, and never with a pointer field
again.
-/

set_option autoImplicit false

namespace TradingEcosystem
namespace Exchange
namespace MEOrderBook

open Ring

/-! ## Reading fields after writing them -/

/-- The order at an address without its links. -/
def data (b : MEOrderBook) (p : Ptr) : OrderData := (b.order p).toOrderData

/-- `p->next_order_`. -/
def nextOrder (b : MEOrderBook) (p : Ptr) : Option Ptr := (b.order p).nextOrder

/-- `p->prev_order_`. -/
def prevOrder (b : MEOrderBook) (p : Ptr) : Option Ptr := (b.order p).prevOrder

section Fields

variable (b : MEOrderBook) (p q : Ptr) (v : Option Ptr)

@[simp] theorem nextOrder_setNextOrder :
    (b.setNextOrder p v).nextOrder q = if q = p then v else b.nextOrder q := by
  simp only [nextOrder, setNextOrder, setOrder, order, MemPool.get_modify]
  split <;> rfl

@[simp] theorem prevOrder_setNextOrder : (b.setNextOrder p v).prevOrder q = b.prevOrder q := by
  simp only [prevOrder, setNextOrder, setOrder, order, MemPool.get_modify]
  split
  · next h => rw [h]
  · rfl

@[simp] theorem data_setNextOrder : (b.setNextOrder p v).data q = b.data q := by
  simp only [data, setNextOrder, setOrder, order, MemPool.get_modify]
  split
  · next h => rw [h]
  · rfl

@[simp] theorem prevOrder_setPrevOrder :
    (b.setPrevOrder p v).prevOrder q = if q = p then v else b.prevOrder q := by
  simp only [prevOrder, setPrevOrder, setOrder, order, MemPool.get_modify]
  split <;> rfl

@[simp] theorem nextOrder_setPrevOrder : (b.setPrevOrder p v).nextOrder q = b.nextOrder q := by
  simp only [nextOrder, setPrevOrder, setOrder, order, MemPool.get_modify]
  split
  · next h => rw [h]
  · rfl

@[simp] theorem data_setPrevOrder : (b.setPrevOrder p v).data q = b.data q := by
  simp only [data, setPrevOrder, setOrder, order, MemPool.get_modify]
  split
  · next h => rw [h]
  · rfl

end Fields

/-! ## The invariant -/

/-- The pools of a book: both run forward only, and neither has handed out its last block. -/
structure Pools (b : MEOrderBook) : Prop where
  orderFrontier : b.orderPool.Frontier
  levelFrontier : b.priceLevelsPool.Frontier
  orderSize : b.orderPool.size = meMaxOrderIds
  levelSize : b.priceLevelsPool.size = meMaxPriceLevels
  orderNext : b.orderPool.nextFreeIndex < meMaxOrderIds
  levelNext : b.priceLevelsPool.nextFreeIndex < meMaxPriceLevels

/-- `b` is a table of rings: slot `i` of the price table holds the orders `ring i`, oldest first,
and both ladder heads are null. -/
structure Slots (b : MEOrderBook) (ring : Nat → List Ptr) : Prop where
  /-- The bid ladder has no entry. -/
  bidHead : b.bidLevelsHead = none
  /-- The ask ladder has no entry. -/
  askHead : b.askLevelsHead = none
  /-- An empty slot is null. -/
  slotNil : ∀ i, ring i = [] → b.priceLevels i = none
  /-- A used slot leads to a live level, a ring of its own, that enters the orders at the oldest. -/
  slotCons : ∀ i a t, ring i = a :: t → ∃ l, b.priceLevels i = some l ∧ b.priceLevelsPool.Live l ∧
    (b.level l).firstOrder = some a ∧ (b.level l).nextPriceLevel = some l
  /-- Slots do not share a level. -/
  slotInj : ∀ i j l, b.priceLevels i = some l → b.priceLevels j = some l → i = j
  /-- The orders of a slot are linked in a ring. -/
  isRing : ∀ i, IsRing b.nextOrder b.prevOrder (ring i)
  /-- An order is in the slot of its price. -/
  slotOf : ∀ i, ∀ p ∈ ring i, priceToIndex (b.data p).price = i
  /-- The live orders are those in the slots. -/
  live : ∀ p, b.orderPool.Live p ↔ ∃ i, p ∈ ring i
  /-- The ids of a live order are inside the table of client orders. -/
  idsLt : ∀ i, ∀ p ∈ ring i, (b.data p).clientId.toNat < meMaxNumClients ∧
    (b.data p).clientOrderId.toNat < meMaxOrderIds
  /-- The table of client orders points to live orders, by their own ids. -/
  table : ∀ c o p, b.clientOrders c o = some p → b.orderPool.Live p ∧
    (b.data p).clientId = c ∧ (b.data p).clientOrderId = o
  /-- The pools run forward. -/
  pools : Pools b

theorem slots_init (t : TickerId) : Slots (init t) fun _ => [] where
  bidHead := rfl
  askHead := rfl
  slotNil := fun _ _ => rfl
  slotCons := fun _ _ _ h => absurd h (by simp)
  slotInj := fun _ _ _ h => absurd h (by simp [init])
  isRing := fun _ => ⟨List.nodup_nil, Cycle.Chain.nil _⟩
  slotOf := fun _ _ h => absurd h (by simp)
  live := fun p =>
    ⟨fun h => absurd h (MemPool.not_live_init _ _ p), fun ⟨_, h⟩ => absurd h (by simp)⟩
  idsLt := fun _ _ h => absurd h (by simp)
  table := fun _ _ _ h => absurd h (by simp [init])
  pools := ⟨MemPool.frontier_init _ _, MemPool.frontier_init _ _, rfl, rfl,
    show 0 < meMaxOrderIds by decide, show 0 < meMaxPriceLevels by decide⟩

section Shape

variable {b : MEOrderBook} {ring : Nat → List Ptr}

/-- The stack of the calling thread is no part of the shape. -/
theorem Slots.onStack (h : Slots b ring) (stackRoom : Nat) : Slots (b.onStack stackRoom) ring :=
  { h with pools := { h.pools with } }

theorem Slots.live_of_mem (h : Slots b ring) {i : Nat} {p : Ptr} (hp : p ∈ ring i) :
    b.orderPool.Live p :=
  (h.live p).2 ⟨i, hp⟩

/-- The block the next order will get is in no ring. -/
theorem Slots.fresh (h : Slots b ring) (i : Nat) : b.orderPool.nextFreeIndex ∉ ring i :=
  fun hm => absurd (h.pools.orderFrontier.lt_of_live (h.live_of_mem hm)) (Nat.lt_irrefl _)

theorem Slots.ne_fresh (h : Slots b ring) {i : Nat} {q : Ptr} (hq : q ∈ ring i) :
    q ≠ b.orderPool.nextFreeIndex := by
  rintro rfl
  exact h.fresh i hq

/-- What a slot that is not null leads to. -/
theorem Slots.level_of_slot (h : Slots b ring) {i : Nat} {l : Ptr}
    (hl : b.priceLevels i = some l) : ∃ a t, ring i = a :: t ∧ b.priceLevelsPool.Live l ∧
      (b.level l).firstOrder = some a ∧ (b.level l).nextPriceLevel = some l := by
  cases hr : ring i with
  | nil =>
    rw [h.slotNil i hr] at hl
    exact absurd hl (by simp)
  | cons a t =>
    obtain ⟨m, hm, hlevel⟩ := h.slotCons i a t hr
    obtain rfl : m = l := Option.some_inj.1 (hm.symm.trans hl)
    exact ⟨a, t, rfl, hlevel⟩

/-- A slot is null exactly when no order rests in it. -/
theorem Slots.getPriceLevel_none (h : Slots b ring) {price : Price} :
    b.getPriceLevel price = none ↔ ring (priceToIndex price) = [] := by
  refine ⟨fun hn => ?_, h.slotNil _⟩
  cases hr : ring (priceToIndex price) with
  | nil => rfl
  | cons a t =>
    obtain ⟨l, hl, -⟩ := h.slotCons _ a t hr
    rw [getPriceLevel, hl] at hn
    exact absurd hn (by simp)

/-- The priority a new order gets at a slot holding the orders `l`. -/
def nextPriority (l : List OrderData) : Priority :=
  match l.getLast? with
  | none => 1
  | some d => d.priority + 1

theorem getNextPriority_eq (h : Slots b ring) (price : Price) :
    b.getNextPriority price = .ok (nextPriority ((ring (priceToIndex price)).map b.data)) := by
  rw [getNextPriority, getPriceLevel, nextPriority, List.getLast?_map]
  cases hr : ring (priceToIndex price) with
  | nil => rw [h.slotNil _ hr]; rfl
  | cons a t =>
    obtain ⟨l, hl, -, hf, -⟩ := h.slotCons _ a t hr
    have hring := h.isRing (priceToIndex price)
    rw [hr] at hring
    have hlast : (b.order a).prevOrder = some ((a :: t).getLast (List.cons_ne_nil a t)) :=
      hring.prev_head
    simp only [hl, hf, nonNull_some, ok_bind, hlast, pure_eq_ok,
      List.getLast?_eq_some_getLast (List.cons_ne_nil a t), Option.map_some]
    rfl

/-- **Nothing ever matches.**  Both loops of `checkForMatch` start at a head that is null. -/
theorem checkForMatch_eq (h : Slots b ring) (i : Incoming) (price : Price) (qty : Qty) :
    b.checkForMatch i price qty = .ok (b, qty, []) := by
  have hw : ∀ head : MEOrderBook → Option Ptr, head b = none → ∀ past : Price → Bool,
      matchWhile i head past (b.orderPool.size + 1) b qty = .ok (b, qty, []) := by
    intro head hh past
    rw [matchWhile, hh]
    split <;> rfl
  rw [checkForMatch]
  split
  · exact hw _ h.askHead _
  · exact hw _ h.bidHead _
  · rfl

/-! ## The orders of a book -/

/-- The order at `p` is found by going through the price table and along the orders of a level. -/
def Reaches (b : MEOrderBook) (p : Ptr) : Prop :=
  ∃ i < meMaxPriceLevels, ∃ l a, b.priceLevels i = some l ∧ (b.level l).firstOrder = some a ∧
    Relation.ReflTransGen (fun q r => b.nextOrder q = some r) a p

/-- An order with these fields rests in the book. -/
def Rests (b : MEOrderBook) (d : OrderData) : Prop := ∃ p, b.Reaches p ∧ b.data p = d

/-- The orders in slot `i`, oldest first. -/
def ordersIn (b : MEOrderBook) (ring : Nat → List Ptr) (i : Nat) : List OrderData :=
  (ring i).map b.data

theorem mem_ordersIn {i : Nat} {d : OrderData} :
    d ∈ b.ordersIn ring i ↔ ∃ p ∈ ring i, b.data p = d := List.mem_map

/-- Slot `i` of the price table leads to a level that enters the ring of its orders `l`. -/
structure InSlot (b : MEOrderBook) (i : Nat) (l : List Ptr) : Prop where
  /-- Without orders the slot is null. -/
  nil : l = [] → b.priceLevels i = none
  /-- The level is entered at the oldest order. -/
  cons : ∀ a t, l = a :: t → ∃ m, b.priceLevels i = some m ∧ (b.level m).firstOrder = some a
  /-- The orders are linked in a ring. -/
  isRing : IsRing b.nextOrder b.prevOrder l
  /-- The orders find their level by their price. -/
  slotOf : ∀ p ∈ l, priceToIndex (b.data p).price = i

theorem Slots.inSlot (h : Slots b ring) (i : Nat) : InSlot b i (ring i) where
  nil := h.slotNil i
  cons := fun a t hr => by
    obtain ⟨l, hl, -, hfirst, -⟩ := h.slotCons i a t hr
    exact ⟨l, hl, hfirst⟩
  isRing := h.isRing i
  slotOf := h.slotOf i

/-- A slot with an order in it has a level. -/
theorem InSlot.exists_level {i : Nat} {p : Ptr} {orders : List Ptr} (h : InSlot b i orders)
    (hp : p ∈ orders) : ∃ l, b.priceLevels i = some l := by
  obtain ⟨a, t, rfl⟩ := List.exists_cons_of_ne_nil (List.ne_nil_of_mem hp)
  obtain ⟨l, hl, -⟩ := h.cons a t rfl
  exact ⟨l, hl⟩

/-- It is one of the table. -/
theorem InSlot.index_lt {i : Nat} {p : Ptr} {orders : List Ptr} (h : InSlot b i orders)
    (hp : p ∈ orders) : i < meMaxPriceLevels := by
  rw [← h.slotOf p hp]
  exact Nat.mod_lt _ (by decide)

/-- The orders found along the level of a slot are its orders. -/
theorem InSlot.reaches_iff {i : Nat} {l p : Ptr} {orders : List Ptr} (h : InSlot b i orders)
    (hl : b.priceLevels i = some l) : (∃ a, (b.level l).firstOrder = some a ∧
      Relation.ReflTransGen (fun q r => b.nextOrder q = some r) a p) ↔ p ∈ orders := by
  cases orders with
  | nil =>
    rw [h.nil rfl] at hl
    exact absurd hl (by simp)
  | cons c t =>
    obtain ⟨m, hm, hc⟩ := h.cons c t rfl
    obtain rfl : m = l := Option.some_inj.1 (hm.symm.trans hl)
    rw [← h.isRing.reaches_iff]
    constructor
    · rintro ⟨a, ha, hp⟩
      exact Option.some_inj.1 (hc.symm.trans ha) ▸ hp
    · exact fun hp => ⟨c, hc, hp⟩

theorem reaches_iff_of_inSlot (h : ∀ i, InSlot b i (ring i)) {p : Ptr} :
    b.Reaches p ↔ ∃ i, p ∈ ring i := by
  constructor
  · rintro ⟨i, -, l, a, hl, ha, hp⟩
    exact ⟨i, ((h i).reaches_iff hl).1 ⟨a, ha, hp⟩⟩
  · rintro ⟨i, hp⟩
    obtain ⟨l, hl⟩ := (h i).exists_level hp
    obtain ⟨a, ha, hap⟩ := ((h i).reaches_iff hl).2 hp
    exact ⟨i, (h i).index_lt hp, l, a, hl, ha, hap⟩

theorem Slots.reaches_iff (h : Slots b ring) {p : Ptr} : b.Reaches p ↔ ∃ i, p ∈ ring i :=
  reaches_iff_of_inSlot h.inSlot

theorem Slots.rests_iff (h : Slots b ring) {d : OrderData} :
    b.Rests d ↔ ∃ i, d ∈ b.ordersIn ring i := by
  constructor
  · rintro ⟨p, hp, hd⟩
    obtain ⟨i, hi⟩ := h.reaches_iff.1 hp
    exact ⟨i, mem_ordersIn.2 ⟨p, hi, hd⟩⟩
  · rintro ⟨i, hd⟩
    obtain ⟨p, hp, hd⟩ := mem_ordersIn.1 hd
    exact ⟨p, h.reaches_iff.2 ⟨i, hp⟩, hd⟩

/-! ## Changing one slot

Every operation on a book writes to one slot only.  `Frame` says so; `Slots.update` rebuilds the
invariant from it and from what the operation did to its own slot. -/

/-- `b'` differs from `b` in slot `j` and its orders at most. -/
structure Frame (b b' : MEOrderBook) (ring : Nat → List Ptr) (j : Nat) : Prop where
  bidHead : b'.bidLevelsHead = b.bidLevelsHead
  askHead : b'.askLevelsHead = b.askLevelsHead
  data : ∀ i, i ≠ j → ∀ q ∈ ring i, b'.data q = b.data q
  next : ∀ i, i ≠ j → ∀ q ∈ ring i, b'.nextOrder q = b.nextOrder q
  prev : ∀ i, i ≠ j → ∀ q ∈ ring i, b'.prevOrder q = b.prevOrder q
  slot : ∀ i, i ≠ j → b'.priceLevels i = b.priceLevels i
  level : ∀ i, i ≠ j → ∀ l, b.priceLevels i = some l → b.priceLevelsPool.Live l →
    b'.priceLevelsPool.Live l ∧ b'.level l = b.level l

theorem Slots.update {b' : MEOrderBook} (h : Slots b ring) {j : Nat} {l' : List Ptr}
    (hf : Frame b b' ring j) (hnil : l' = [] → b'.priceLevels j = none)
    (hcons : ∀ a t, l' = a :: t → ∃ l, b'.priceLevels j = some l ∧ b'.priceLevelsPool.Live l ∧
      (b'.level l).firstOrder = some a ∧ (b'.level l).nextPriceLevel = some l)
    (hown : ∀ i, i ≠ j → ∀ l, b'.priceLevels j = some l → b.priceLevels i ≠ some l)
    (hring : IsRing b'.nextOrder b'.prevOrder l')
    (hprice : ∀ q ∈ l', priceToIndex (b'.data q).price = j)
    (hlive : ∀ q, b'.orderPool.Live q ↔ q ∈ l' ∨ ∃ i, i ≠ j ∧ q ∈ ring i)
    (hids : ∀ q ∈ l', (b'.data q).clientId.toNat < meMaxNumClients ∧
      (b'.data q).clientOrderId.toNat < meMaxOrderIds)
    (htable : ∀ c o q, b'.clientOrders c o = some q → b'.orderPool.Live q ∧
      (b'.data q).clientId = c ∧ (b'.data q).clientOrderId = o)
    (hpools : Pools b') : Slots b' (Function.update ring j l') where
  bidHead := hf.bidHead.trans h.bidHead
  askHead := hf.askHead.trans h.askHead
  slotNil := by
    intro i hi
    by_cases hij : i = j
    · subst hij; exact hnil (by simpa using hi)
    · rw [hf.slot i hij]; exact h.slotNil i (by simpa [hij] using hi)
  slotCons := by
    intro i a t hi
    by_cases hij : i = j
    · subst hij; exact hcons a t (by simpa using hi)
    · obtain ⟨l, hl, hlive, hfirst, hnext⟩ := h.slotCons i a t (by simpa [hij] using hi)
      obtain ⟨hlive', hlev⟩ := hf.level i hij l hl hlive
      exact ⟨l, (hf.slot i hij).trans hl, hlive', hlev ▸ hfirst, hlev ▸ hnext⟩
  slotInj := by
    intro i k l hi hk
    by_cases hij : i = j <;> by_cases hkj : k = j
    · rw [hij, hkj]
    · subst hij; exact absurd (hf.slot k hkj ▸ hk) (hown k hkj l hi)
    · subst hkj; exact absurd (hf.slot i hij ▸ hi) (hown i hij l hk)
    · exact h.slotInj i k l (hf.slot i hij ▸ hi) (hf.slot k hkj ▸ hk)
  isRing := by
    intro i
    by_cases hij : i = j
    · subst hij; simpa using hring
    · simpa [hij] using (h.isRing i).congr (hf.next i hij) (hf.prev i hij)
  slotOf := by
    intro i q hq
    by_cases hij : i = j
    · subst hij; exact hprice q (by simpa using hq)
    · have hq : q ∈ ring i := by simpa [hij] using hq
      rw [hf.data i hij q hq]; exact h.slotOf i q hq
  live := by
    intro q
    rw [hlive]
    constructor
    · rintro (hq | ⟨i, hij, hq⟩)
      · exact ⟨j, by simpa using hq⟩
      · exact ⟨i, by simpa [hij] using hq⟩
    · rintro ⟨i, hq⟩
      by_cases hij : i = j
      · subst hij; exact Or.inl (by simpa using hq)
      · exact Or.inr ⟨i, hij, by simpa [hij] using hq⟩
  idsLt := by
    intro i q hq
    by_cases hij : i = j
    · subst hij; exact hids q (by simpa using hq)
    · have hq : q ∈ ring i := by simpa [hij] using hq
      rw [hf.data i hij q hq]; exact h.idsLt i q hq
  table := htable
  pools := hpools

end Shape

/-! ## What writing to links and levels leaves alone -/

theorem live_setOrder (b : MEOrderBook) (p q : Ptr) (f : MEOrder → MEOrder) :
    (b.setOrder p f).orderPool.Live q ↔ b.orderPool.Live q :=
  MemPool.live_modify b.orderPool p q f

/-- `c` is `b` with other links and levels: the orders, the table of client orders, the heads and
the counters are the same. -/
structure Relinked (b c : MEOrderBook) : Prop where
  data : ∀ q, c.data q = b.data q
  live : ∀ q, c.orderPool.Live q ↔ b.orderPool.Live q
  orderNext : c.orderPool.nextFreeIndex = b.orderPool.nextFreeIndex
  clientOrders : c.clientOrders = b.clientOrders
  marketOrderId : c.nextMarketOrderId = b.nextMarketOrderId
  stackRoom : c.stackRoom = b.stackRoom
  bidHead : c.bidLevelsHead = b.bidLevelsHead
  askHead : c.askLevelsHead = b.askLevelsHead

theorem Relinked.trans {a b c : MEOrderBook} (h : Relinked a b) (h' : Relinked b c) :
    Relinked a c where
  data := fun q => (h'.data q).trans (h.data q)
  live := fun q => (h'.live q).trans (h.live q)
  orderNext := h'.orderNext.trans h.orderNext
  clientOrders := h'.clientOrders.trans h.clientOrders
  marketOrderId := h'.marketOrderId.trans h.marketOrderId
  stackRoom := h'.stackRoom.trans h.stackRoom
  bidHead := h'.bidHead.trans h.bidHead
  askHead := h'.askHead.trans h.askHead

theorem relinked_setNextOrder (b : MEOrderBook) (p : Ptr) (v : Option Ptr) :
    Relinked b (b.setNextOrder p v) :=
  ⟨fun q => data_setNextOrder b p q v, fun q => live_setOrder b p q _, rfl, rfl, rfl, rfl, rfl, rfl⟩

theorem relinked_setPrevOrder (b : MEOrderBook) (p : Ptr) (v : Option Ptr) :
    Relinked b (b.setPrevOrder p v) :=
  ⟨fun q => data_setPrevOrder b p q v, fun q => live_setOrder b p q _, rfl, rfl, rfl, rfl, rfl, rfl⟩

theorem relinked_withLevelsPool (b : MEOrderBook) (pool : MemPool MEOrderAtPriceLevel) :
    Relinked b (b.withLevelsPool pool) :=
  ⟨fun _ => rfl, fun _ => Iff.rfl, rfl, rfl, rfl, rfl, rfl, rfl⟩

theorem relinked_setPriceLevel (b : MEOrderBook) (price : Price) (v : Option Ptr) :
    Relinked b (b.setPriceLevel price v) :=
  ⟨fun _ => rfl, fun _ => Iff.rfl, rfl, rfl, rfl, rfl, rfl, rfl⟩

theorem relinked_setLevel (b : MEOrderBook) (p : Ptr)
    (f : MEOrderAtPriceLevel → MEOrderAtPriceLevel) : Relinked b (b.setLevel p f) :=
  ⟨fun _ => rfl, fun _ => Iff.rfl, rfl, rfl, rfl, rfl, rfl, rfl⟩

theorem Pools.setOrder {c : MEOrderBook} (h : Pools c) (p : Ptr) (f : MEOrder → MEOrder) :
    Pools (c.setOrder p f) :=
  { h with orderFrontier := h.orderFrontier.modify p f }

theorem Pools.setLevel {c : MEOrderBook} (h : Pools c) (p : Ptr)
    (f : MEOrderAtPriceLevel → MEOrderAtPriceLevel) : Pools (c.setLevel p f) :=
  { h with levelFrontier := h.levelFrontier.modify p f }

theorem Pools.setPriceLevel {c : MEOrderBook} (h : Pools c) (price : Price) (v : Option Ptr) :
    Pools (c.setPriceLevel price v) := { h with }

/-- `client_orders_` with the entry of `d`'s ids set to `v`. -/
def putClientOrder (c : MEOrderBook) (d : OrderData) (v : Option Ptr) : MEOrderBook :=
  let row := Function.update (c.clientOrders d.clientId) d.clientOrderId v
  { c with clientOrders := Function.update c.clientOrders d.clientId row }

theorem setClientOrder_eq (c : MEOrderBook) {d : OrderData} (v : Option Ptr)
    (hids : d.clientId.toNat < meMaxNumClients ∧ d.clientOrderId.toNat < meMaxOrderIds) :
    c.setClientOrder d.clientId d.clientOrderId v = .ok (c.putClientOrder d v) := by
  rw [setClientOrder, if_pos hids, putClientOrder]

theorem Pools.putClientOrder {c : MEOrderBook} (h : Pools c) (d : OrderData) (v : Option Ptr) :
    Pools (c.putClientOrder d v) := { h with }

end MEOrderBook
end Exchange
end TradingEcosystem
