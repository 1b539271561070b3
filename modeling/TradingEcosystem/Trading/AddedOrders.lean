import TradingEcosystem.Trading.FeedBook
import TradingEcosystem.Lib.Along
import Mathlib.Data.UInt

/-!
# What updates build

`Filled b ring` describes every book that updates build from the empty one.  Nothing is in the table
of ids and in the two ladders (`Unlinked`), and no best price was ever noted; the price table alone
holds orders.  Slot `i` leads to a level whose orders form the ring `ring i`, in the order they were
added, and `Describes` says what the level makes of them.

`Filled.add` and `Filled.add_full` are what an `ADD` does to such a book; `Filled.step_ok` collects
the updates that return and `Filled.nullDeref_iff` names the ones that follow null.
-/

set_option autoImplicit false

namespace TradingEcosystem
namespace Trading

open Ring

/-- The order an `ADD` brings. -/
def dataOf (u : MEMarketUpdate) : MarketOrderData := ⟨u.orderId, u.side, u.price, u.qty, u.priority⟩

/-- **What a level says of its orders**, oldest first: it has the side and the price of the first,
it counts them, and its total starts from `Qty_INVALID`. -/
structure Describes (l : MarketOrderPriceLevel) (orders : List MarketOrderData) : Prop where
  first : ∀ d ∈ orders.head?, l.side = d.side ∧ l.price = d.price
  totalQty : l.totalQty = qtyInvalid + (orders.map MarketOrderData.qty).sum
  ordersCount : l.ordersCount = .ofNat orders.length

/-- A level with one order. -/
theorem describes_singleton {l : MarketOrderPriceLevel} {d : MarketOrderData}
    (hfirst : l.side = d.side ∧ l.price = d.price) (htotal : l.totalQty = qtyInvalid + d.qty)
    (hcount : l.ordersCount = 1) : Describes l [d] where
  first := by simpa using hfirst
  totalQty := by simpa using htotal
  ordersCount := by simpa using hcount

/-- One order more. -/
theorem Describes.concat {l l' : MarketOrderPriceLevel} {orders : List MarketOrderData}
    (h : Describes l orders) (hne : orders ≠ []) (d : MarketOrderData)
    (hfirst : l'.side = l.side ∧ l'.price = l.price) (htotal : l'.totalQty = l.totalQty + d.qty)
    (hcount : l'.ordersCount = l.ordersCount + 1) : Describes l' (orders ++ [d]) where
  first := by
    rw [hfirst.1, hfirst.2, List.head?_append_of_ne_nil _ hne]
    exact h.first
  totalQty := by
    rw [htotal, h.totalQty, List.map_append, List.sum_append, UInt32.add_assoc]
    simp
  ordersCount := by
    rw [hcount, h.ordersCount, List.length_append, UInt64.ofNat_add]
    rfl

namespace MarketOrderBook

/-! ## Reading fields after writing them -/

/-- `p->next_order_`. -/
def nextOrder (b : MarketOrderBook) (p : Ptr) : Option Ptr := (b.order p).nextOrder

/-- `p->prev_order_`. -/
def prevOrder (b : MarketOrderBook) (p : Ptr) : Option Ptr := (b.order p).prevOrder

section Fields

variable (b : MarketOrderBook) (p q : Ptr) (v : Option Ptr)

@[simp] theorem nextOrder_setNextOrder :
    (b.setNextOrder p v).nextOrder q = if q = p then v else b.nextOrder q := by
  simp only [nextOrder, setNextOrder, setOrder, order, MemPool.get_modify]
  split <;> rfl

@[simp] theorem prevOrder_setNextOrder : (b.setNextOrder p v).prevOrder q = b.prevOrder q := by
  simp only [prevOrder, setNextOrder, setOrder, order, MemPool.get_modify]
  split
  · next h => rw [h]
  · rfl

@[simp] theorem data_setNextOrder : (b.setNextOrder p v).data q = b.data q := by
  simp only [data, setNextOrder, setOrder, order, MemPool.get_modify]
  split
  · next h => rw [h]
  · rfl

@[simp] theorem prevOrder_setPrevOrder :
    (b.setPrevOrder p v).prevOrder q = if q = p then v else b.prevOrder q := by
  simp only [prevOrder, setPrevOrder, setOrder, order, MemPool.get_modify]
  split <;> rfl

@[simp] theorem nextOrder_setPrevOrder : (b.setPrevOrder p v).nextOrder q = b.nextOrder q := by
  simp only [nextOrder, setPrevOrder, setOrder, order, MemPool.get_modify]
  split
  · next h => rw [h]
  · rfl

@[simp] theorem data_setPrevOrder : (b.setPrevOrder p v).data q = b.data q := by
  simp only [data, setPrevOrder, setOrder, order, MemPool.get_modify]
  split
  · next h => rw [h]
  · rfl

theorem level_setLevel (f : MarketOrderPriceLevel → MarketOrderPriceLevel) :
    (b.setLevel p f).level q = if q = p then f (b.level p) else b.level q :=
  MemPool.get_modify b.priceLevelPool p q f

@[simp] theorem level_setNextOrder : (b.setNextOrder p v).level q = b.level q := rfl

@[simp] theorem level_setPrevOrder : (b.setPrevOrder p v).level q = b.level q := rfl

end Fields

/-! ## The invariant -/

/-- The block the next order gets. -/
abbrev nextOrderPtr (b : MarketOrderBook) : Ptr := b.orderPool.nextFreeIndex

/-- The block the next level gets. -/
abbrev nextLevelPtr (b : MarketOrderBook) : Ptr := b.priceLevelPool.nextFreeIndex

/-- **The books updates build**: slot `i` of the price table holds the orders `ring i`, oldest
first, and there is nothing else. -/
structure Filled (b : MarketOrderBook) (ring : Nat → List Ptr) : Prop where
  unlinked : Unlinked b
  noBest : b.bestOffer = {}
  slotNil : ∀ i, ring i = [] → b.ordersAtPriceLevels i = none
  slotCons : ∀ i a t, ring i = a :: t → ∃ l, b.ordersAtPriceLevels i = some l ∧
    b.priceLevelPool.Live l ∧ (b.level l).firstOrder = some a ∧
    Describes (b.level l) ((ring i).map b.data)
  /-- Slots do not share a level. -/
  slotInj : ∀ i j l, b.ordersAtPriceLevels i = some l → b.ordersAtPriceLevels j = some l → i = j
  isRing : ∀ i, IsRing b.nextOrder b.prevOrder (ring i)
  slotOf : ∀ i, ∀ p ∈ ring i, priceToIndex (b.data p).price = i
  live : ∀ i, ∀ p ∈ ring i, b.orderPool.Live p
  orderFrontier : b.orderPool.Frontier
  levelFrontier : b.priceLevelPool.Frontier

theorem filled_init : Filled init fun _ => [] where
  unlinked := unlinked_init
  noBest := rfl
  slotNil := fun _ _ => rfl
  slotCons := fun _ _ _ h => absurd h (by simp)
  slotInj := fun _ _ _ h => absurd h (by simp [init])
  isRing := fun _ => ⟨List.nodup_nil, Cycle.Chain.nil _⟩
  slotOf := by simp
  live := by simp
  orderFrontier := MemPool.frontier_init _ _
  levelFrontier := MemPool.frontier_init _ _

variable {b b' : MarketOrderBook} {ring : Nat → List Ptr} {d : MarketOrderData}
  {u : MEMarketUpdate} {a z l : Ptr} {t : List Ptr}

theorem Filled.ne_next (h : Filled b ring) {i : Nat} {p : Ptr} (hp : p ∈ ring i) :
    p ≠ b.nextOrderPtr := (h.orderFrontier.lt_of_live (h.live i p hp)).ne

/-- A null slot has no orders. -/
theorem Filled.slot_none_iff (h : Filled b ring) (i : Nat) :
    b.ordersAtPriceLevels i = none ↔ ring i = [] := by
  refine ⟨fun hslot => ?_, h.slotNil i⟩
  cases hr : ring i with
  | nil => rfl
  | cons a t =>
    obtain ⟨l, hl, -⟩ := h.slotCons i a t hr
    exact absurd (hslot.symm.trans hl) (by simp)

/-- A used slot leads to a live level that enters its orders. -/
theorem Filled.level_of_slot (h : Filled b ring) {i : Nat} (hl : b.ordersAtPriceLevels i = some l) :
    ∃ a t, ring i = a :: t ∧ b.priceLevelPool.Live l ∧ (b.level l).firstOrder = some a ∧
      Describes (b.level l) ((ring i).map b.data) := by
  cases hr : ring i with
  | nil =>
    rw [h.slotNil i hr] at hl
    exact absurd hl (by simp)
  | cons a t =>
    obtain ⟨m, hm, hlevel⟩ := h.slotCons i a t hr
    obtain rfl := Option.some_inj.1 (hm.symm.trans hl)
    rw [hr] at hlevel
    exact ⟨a, t, rfl, hlevel⟩

/-- A slot holds its ring. -/
theorem Filled.slotHolds (h : Filled b ring) (i : Nat) : b.SlotHolds i (ring i) := by
  rw [SlotHolds]
  cases hslot : b.ordersAtPriceLevels i with
  | none => exact (h.slot_none_iff i).1 hslot
  | some l =>
    obtain ⟨a, t, hr, -, hfirst, -⟩ := h.level_of_slot hslot
    refine ⟨by simp [hr], by rw [hr, hfirst, List.head?_cons], h.isRing i⟩

/-! ## The two books an `ADD` builds -/

/-- The book between `order_pool_.allocate` and `addOrder`: the order exists and is not linked. -/
def withOrder (b : MarketOrderBook) (d : MarketOrderData) : MarketOrderBook :=
  { b with orderPool := b.orderPool.push { toMarketOrderData := d } }

theorem order_withOrder_self (b : MarketOrderBook) (d : MarketOrderData) :
    (b.withOrder d).order b.nextOrderPtr = { toMarketOrderData := d } :=
  MemPool.get_push_self _ _

theorem order_withOrder_ne (b : MarketOrderBook) (d : MarketOrderData) {q : Ptr}
    (hq : q ≠ b.nextOrderPtr) : (b.withOrder d).order q = b.order q :=
  MemPool.get_push_ne _ _ hq

/-- The level of a first order, as the four functions leave it. -/
def newLevel (b : MarketOrderBook) (d : MarketOrderData) : MarketOrderPriceLevel where
  totalQty := qtyInvalid + d.qty
  ordersCount := 1
  side := d.side
  price := d.price
  firstOrder := some b.nextOrderPtr
  prevLevel := some b.nextLevelPtr
  nextLevel := some b.nextLevelPtr

/-- The book from a null slot. -/
def withNewLevel (b : MarketOrderBook) (d : MarketOrderData) : MarketOrderBook :=
  let p := b.nextOrderPtr
  { ((b.withOrder d).setPrevOrder p (some p)).setNextOrder p (some p) with
    ordersAtPriceLevels :=
      Function.update b.ordersAtPriceLevels (priceToIndex d.price) (some b.nextLevelPtr)
    priceLevelPool := b.priceLevelPool.push (b.newLevel d) }

/-- The book from a used slot, with the level at `l` and the orders `first … last`. -/
def withLastOrder (b : MarketOrderBook) (d : MarketOrderData) (l first last : Ptr) :
    MarketOrderBook :=
  let p := b.nextOrderPtr
  (((((b.withOrder d).setNextOrder last (some p)).setPrevOrder p (some last)).setNextOrder p
    (some first)).setPrevOrder first (some p)).countOrder l d.qty

/-- Writing to the block that was just handed out. -/
theorem modify_push (p : MemPool MarketOrderPriceLevel) (x : MarketOrderPriceLevel)
    (f : MarketOrderPriceLevel → MarketOrderPriceLevel) :
    (p.push x).modify p.nextFreeIndex f = p.push (f x) := by
  simp [MemPool.modify, MemPool.push]

/-- A level goes into the price table only, as long as there is no head. -/
theorem addOrdersAtPriceLevel_eq (hu : Unlinked b) (l : Ptr) : b.addOrdersAtPriceLevel l = .ok
    (((b.setPriceLevel (b.level l).price (some l)).setPrevLevel l (some l)).setNextLevel l
      (some l)) := by
  have hhead : ∀ price v, (if (b.level l).side = .buy then (b.setPriceLevel price v).bidPriceLevels
      else (b.setPriceLevel price v).askPriceLevels) = none := by
    intro price v
    split
    · exact hu.bids
    · exact hu.asks
  rw [addOrdersAtPriceLevel]
  simp only [hhead, pure_eq_ok]

theorem addOrder_nil (h : Filled b ring) (hslot : b.getPriceLevel d.price = none)
    (hlev : b.priceLevelPool.Room) :
    (b.withOrder d).addOrder b.nextOrderPtr = .ok (b.withNewLevel d) := by
  have hslot' : (b.withOrder d).getPriceLevel d.price = none := hslot
  have hprev : (((b.withOrder d).setPrevOrder b.nextOrderPtr (some b.nextOrderPtr)).order
      b.nextOrderPtr).prevOrder = some b.nextOrderPtr :=
    (prevOrder_setPrevOrder _ _ _ _).trans (if_pos rfl)
  rw [addOrder]
  simp only [order_withOrder_self, hslot', hprev]
  set c := ((b.withOrder d).setPrevOrder b.nextOrderPtr (some b.nextOrderPtr)).setNextOrder
    b.nextOrderPtr (some b.nextOrderPtr) with hc
  have hpool : c.priceLevelPool = b.priceLevelPool := rfl
  have hunlinked : ∀ pool, Unlinked { c with priceLevelPool := pool } := fun _ =>
    ⟨h.unlinked.ids, h.unlinked.bids, h.unlinked.asks⟩
  rw [hpool, MemPool.allocate_eq h.levelFrontier hlev, ok_bind]
  simp only [addOrdersAtPriceLevel_eq (hunlinked _), ok_bind, pure_eq_ok, level,
    MemPool.get_push_self, countOrder, setNextLevel, setPrevLevel, setLevel, setPriceLevel,
    modify_push]
  rfl

/-- A null slot asks the level pool for a block it does not have. -/
theorem addOrder_full (h : Filled b ring) (hslot : b.getPriceLevel d.price = none)
    (hlev : ¬ b.priceLevelPool.Room) :
    (b.withOrder d).addOrder b.nextOrderPtr = .error .badIndex := by
  have hslot' : (b.withOrder d).getPriceLevel d.price = none := hslot
  rw [addOrder]
  simp only [order_withOrder_self, hslot']
  set c := ((b.withOrder d).setPrevOrder b.nextOrderPtr (some b.nextOrderPtr)).setNextOrder
    b.nextOrderPtr _ with hc
  have hpool : c.priceLevelPool = b.priceLevelPool := rfl
  rw [hpool, MemPool.allocate_full h.levelFrontier hlev, error_bind]

theorem addOrder_cons (h : Filled b ring) (hslot : b.getPriceLevel d.price = some l)
    (hring : ring (priceToIndex d.price) = a :: t) (hz : b.prevOrder a = some z) :
    (b.withOrder d).addOrder b.nextOrderPtr = .ok (b.withLastOrder d l a z) := by
  have ha : a ∈ ring (priceToIndex d.price) := by simp [hring]
  have hslot' : (b.withOrder d).getPriceLevel d.price = some l := hslot
  have hfirst : ((b.withOrder d).level l).firstOrder = some a := by
    obtain ⟨a', t', hr, -, hfirst, -⟩ := h.level_of_slot hslot
    obtain ⟨rfl, rfl⟩ := List.cons.inj (hr.symm.trans hring)
    exact hfirst
  have hprev : ((b.withOrder d).order a).prevOrder = some z := by
    rw [order_withOrder_ne b d (h.ne_next ha)]
    exact hz
  have hprev' : (((b.withOrder d).setNextOrder z (some b.nextOrderPtr)).order a).prevOrder =
      some z := by
    rw [← hprev]
    exact prevOrder_setNextOrder (b.withOrder d) z a (some b.nextOrderPtr)
  rw [addOrder]
  simp only [order_withOrder_self, hslot', hfirst, hprev, hprev', nonNull_some, ok_bind,
    pure_eq_ok]
  rfl

/-! ### Their fields -/

section Fields

variable (b : MarketOrderBook) (d : MarketOrderData) (q m : Ptr)

theorem data_withOrder : (b.withOrder d).data q = if q = b.nextOrderPtr then d else b.data q := by
  split
  · next h => rw [h, data, order_withOrder_self]
  · next h => rw [data, order_withOrder_ne b d h, data]

theorem level_withOrder : (b.withOrder d).level m = b.level m := rfl

theorem data_withNewLevel :
    (b.withNewLevel d).data q = if q = b.nextOrderPtr then d else b.data q := by
  have hlinks : (b.withNewLevel d).data q = (((b.withOrder d).setPrevOrder b.nextOrderPtr
      (some b.nextOrderPtr)).setNextOrder b.nextOrderPtr (some b.nextOrderPtr)).data q := rfl
  rw [hlinks, data_setNextOrder, data_setPrevOrder, data_withOrder]

theorem nextOrder_withNewLevel : (b.withNewLevel d).nextOrder q =
    if q = b.nextOrderPtr then some b.nextOrderPtr else b.nextOrder q := by
  have hlinks : (b.withNewLevel d).nextOrder q = (((b.withOrder d).setPrevOrder b.nextOrderPtr
      (some b.nextOrderPtr)).setNextOrder b.nextOrderPtr (some b.nextOrderPtr)).nextOrder q := rfl
  rw [hlinks, nextOrder_setNextOrder, nextOrder_setPrevOrder]
  split
  · rfl
  · next h => rw [nextOrder, order_withOrder_ne b d h, nextOrder]

theorem prevOrder_withNewLevel : (b.withNewLevel d).prevOrder q =
    if q = b.nextOrderPtr then some b.nextOrderPtr else b.prevOrder q := by
  have hlinks : (b.withNewLevel d).prevOrder q = (((b.withOrder d).setPrevOrder b.nextOrderPtr
      (some b.nextOrderPtr)).setNextOrder b.nextOrderPtr (some b.nextOrderPtr)).prevOrder q := rfl
  rw [hlinks, prevOrder_setNextOrder, prevOrder_setPrevOrder]
  split
  · rfl
  · next h => rw [prevOrder, order_withOrder_ne b d h, prevOrder]

theorem level_withNewLevel_self : (b.withNewLevel d).level b.nextLevelPtr = b.newLevel d :=
  MemPool.get_push_self _ _

theorem level_withNewLevel_ne (hm : m ≠ b.nextLevelPtr) :
    (b.withNewLevel d).level m = b.level m :=
  MemPool.get_push_ne _ _ hm

variable (l a z : Ptr)

theorem data_withLastOrder :
    (b.withLastOrder d l a z).data q = if q = b.nextOrderPtr then d else b.data q := by
  have hcount : ∀ c : MarketOrderBook, (c.countOrder l d.qty).data q = c.data q := fun _ => rfl
  rw [withLastOrder, hcount, data_setPrevOrder, data_setNextOrder, data_setPrevOrder,
    data_setNextOrder, data_withOrder]

theorem nextOrder_withLastOrder : (b.withLastOrder d l a z).nextOrder q =
    if q = b.nextOrderPtr then some a else if q = z then some b.nextOrderPtr
      else b.nextOrder q := by
  have hcount : ∀ c : MarketOrderBook, (c.countOrder l d.qty).nextOrder q = c.nextOrder q :=
    fun _ => rfl
  rw [withLastOrder, hcount, nextOrder_setPrevOrder, nextOrder_setNextOrder,
    nextOrder_setPrevOrder, nextOrder_setNextOrder]
  split
  · rfl
  · next h => rw [nextOrder, order_withOrder_ne b d h, nextOrder]

theorem prevOrder_withLastOrder (ha : a ≠ b.nextOrderPtr) : (b.withLastOrder d l a z).prevOrder q =
    if q = b.nextOrderPtr then some z else if q = a then some b.nextOrderPtr
      else b.prevOrder q := by
  have hcount : ∀ c : MarketOrderBook, (c.countOrder l d.qty).prevOrder q = c.prevOrder q :=
    fun _ => rfl
  rw [withLastOrder, hcount, prevOrder_setPrevOrder, prevOrder_setNextOrder,
    prevOrder_setPrevOrder, prevOrder_setNextOrder]
  by_cases hq : q = b.nextOrderPtr
  · rw [if_neg (hq ▸ ha.symm), if_pos hq, if_pos hq]
  · rw [if_neg hq, if_neg hq, prevOrder, order_withOrder_ne b d hq, prevOrder]

theorem level_withLastOrder : (b.withLastOrder d l a z).level m = if m = l then
    { b.level l with
      totalQty := (b.level l).totalQty + d.qty, ordersCount := (b.level l).ordersCount + 1 }
    else b.level m := by
  rw [withLastOrder, countOrder, level_setLevel]
  simp only [level_setPrevOrder, level_setNextOrder, level_withOrder]

/-- Of the book itself only the pools change. -/
theorem withLastOrder_eq : b.withLastOrder d l a z =
    { b with
      orderPool := (b.withLastOrder d l a z).orderPool
      priceLevelPool := b.priceLevelPool.modify l fun m =>
        { m with totalQty := m.totalQty + d.qty, ordersCount := m.ordersCount + 1 } } := by
  simp only [withLastOrder, countOrder, setLevel, setPrevOrder, setNextOrder, setOrder, withOrder]

end Fields

/-! ## What an `ADD` does -/

/-- What an `ADD` leaves outside the shape: `b'` is `b` with the order `d` in a new block. -/
structure Added (b b' : MarketOrderBook) (d : MarketOrderData) : Prop where
  data : ∀ q, b'.data q = if q = b.nextOrderPtr then d else b.data q
  live : ∀ q, b.orderPool.Live q ∨ q = b.nextOrderPtr → b'.orderPool.Live q
  unlinked : Unlinked b'
  bestOffer : b'.bestOffer = b.bestOffer
  orderFrontier : b'.orderPool.Frontier
  levelFrontier : b'.priceLevelPool.Frontier
  orderNext : b'.orderPool.nextFreeIndex = b.orderPool.nextFreeIndex + 1
  levelNext : b'.priceLevelPool.nextFreeIndex =
    b.priceLevelPool.nextFreeIndex + if b.getPriceLevel d.price = none then 1 else 0
  sizes : b'.orderPool.size = b.orderPool.size ∧ b'.priceLevelPool.size = b.priceLevelPool.size

/-- The order pool takes one block and writes to some. -/
theorem orderPool_withNewLevel (b : MarketOrderBook) (d : MarketOrderData) :
    ∃ f g, (b.withNewLevel d).orderPool = ((b.orderPool.push { toMarketOrderData := d }).modify
      b.nextOrderPtr f).modify b.nextOrderPtr g :=
  ⟨fun o => { o with prevOrder := some b.nextOrderPtr },
    fun o => { o with nextOrder := some b.nextOrderPtr }, rfl⟩

theorem orderPool_withLastOrder (b : MarketOrderBook) (d : MarketOrderData) (l a z : Ptr) :
    ∃ f g f' g', (b.withLastOrder d l a z).orderPool =
      ((((b.orderPool.push { toMarketOrderData := d }).modify z f).modify b.nextOrderPtr g).modify
        b.nextOrderPtr f').modify a g' :=
  ⟨fun o => { o with nextOrder := some b.nextOrderPtr }, fun o => { o with prevOrder := some z },
    fun o => { o with nextOrder := some a }, fun o => { o with prevOrder := some b.nextOrderPtr },
    rfl⟩

theorem Filled.added_withNewLevel (h : Filled b ring) (hslot : b.getPriceLevel d.price = none) :
    Added b (b.withNewLevel d) d where
  data := data_withNewLevel b d
  live := fun q hq => by
    obtain ⟨f, g, hpool⟩ := orderPool_withNewLevel b d
    simpa [hpool, or_comm] using hq
  unlinked := ⟨h.unlinked.ids, h.unlinked.bids, h.unlinked.asks⟩
  bestOffer := rfl
  orderFrontier := by
    obtain ⟨f, g, hpool⟩ := orderPool_withNewLevel b d
    rw [hpool]
    exact ((h.orderFrontier.push _).modify _ _).modify _ _
  levelFrontier := h.levelFrontier.push _
  orderNext := rfl
  levelNext := by
    rw [if_pos hslot]
    rfl
  sizes := ⟨rfl, rfl⟩

theorem Filled.added_withLastOrder (h : Filled b ring) (hslot : b.getPriceLevel d.price = some l)
    (a z : Ptr) : Added b (b.withLastOrder d l a z) d := by
  have heq := withLastOrder_eq b d l a z
  obtain ⟨f, g, f', g', hpool⟩ := orderPool_withLastOrder b d l a z
  refine ⟨fun q => data_withLastOrder b d q l a z, fun q hq => ?_, ?_, ?_, ?_, ?_, ?_, ?_, ?_⟩
  · simpa [hpool, or_comm] using hq
  · rw [heq]
    exact ⟨h.unlinked.ids, h.unlinked.bids, h.unlinked.asks⟩
  · rw [heq]
  · rw [hpool]
    exact ((((h.orderFrontier.push _).modify _ _).modify _ _).modify _ _).modify _ _
  · rw [heq]
    exact h.levelFrontier.modify _ _
  · rw [hpool]
    rfl
  · rw [heq, hslot, if_neg (by simp)]
    rfl
  · rw [hpool, heq]
    exact ⟨rfl, rfl⟩

theorem Added.data_next (hadd : Added b b' d) : b'.data b.nextOrderPtr = d := by
  rw [hadd.data, if_pos rfl]

/-- The orders that were there stay as they were. -/
theorem Added.map_data (hadd : Added b b' d) (h : Filled b ring) (i : Nat) :
    (ring i).map b'.data = (ring i).map b.data := by
  refine List.map_congr_left fun q hq => ?_
  rw [hadd.data, if_neg (h.ne_next hq)]

/-- The new order joins its slot, whatever the slot was. -/
theorem Filled.insert (h : Filled b ring) (hadd : Added b b' d)
    (hslots : b'.ordersAtPriceLevels =
      Function.update b.ordersAtPriceLevels (priceToIndex d.price) (some l))
    (hlive : b'.priceLevelPool.Live l) (hfirst : (b'.level l).firstOrder = some a)
    (hhead : (ring (priceToIndex d.price) ++ [b.nextOrderPtr]).head? = some a)
    (hdesc : Describes (b'.level l) ((ring (priceToIndex d.price)).map b.data ++ [d]))
    (hown : ∀ i, i ≠ priceToIndex d.price → b.ordersAtPriceLevels i ≠ some l)
    (hlevels : ∀ m, m ≠ l → b.priceLevelPool.Live m →
      b'.priceLevelPool.Live m ∧ b'.level m = b.level m)
    (hring : IsRing b'.nextOrder b'.prevOrder (ring (priceToIndex d.price) ++ [b.nextOrderPtr]))
    (hothers : ∀ i, i ≠ priceToIndex d.price → ∀ q ∈ ring i,
      b'.nextOrder q = b.nextOrder q ∧ b'.prevOrder q = b.prevOrder q) :
    Filled b' (Function.update ring (priceToIndex d.price)
      (ring (priceToIndex d.price) ++ [b.nextOrderPtr])) := by
  have hold : ∀ i, ∀ q ∈ ring i, b'.data q = b.data q := fun i q hq => by
    rw [hadd.data, if_neg (h.ne_next hq)]
  have hmap := hadd.map_data h
  have hself := hadd.data_next
  have hslot : ∀ i, i ≠ priceToIndex d.price →
      b'.ordersAtPriceLevels i = b.ordersAtPriceLevels i := fun i hi => by
    rw [hslots, Function.update_of_ne hi]
  have hslotSelf : b'.ordersAtPriceLevels (priceToIndex d.price) = some l := by
    rw [hslots, Function.update_self]
  refine ⟨hadd.unlinked, hadd.bestOffer.trans h.noBest, ?_, ?_, ?_, ?_, ?_, ?_,
    hadd.orderFrontier, hadd.levelFrontier⟩
  · intro i hi
    by_cases hij : i = priceToIndex d.price
    · subst hij
      rw [Function.update_self] at hi
      exact absurd hi (by simp)
    · rw [Function.update_of_ne hij] at hi
      rw [hslot i hij, h.slotNil i hi]
  · intro i a' t hi
    by_cases hij : i = priceToIndex d.price
    · subst hij
      rw [Function.update_self] at hi ⊢
      rw [hi, List.head?_cons, Option.some_inj] at hhead
      refine ⟨l, hslotSelf, hlive, hhead ▸ hfirst, ?_⟩
      rwa [List.map_append, hmap, List.map_singleton, hself]
    · rw [Function.update_of_ne hij] at hi ⊢
      obtain ⟨m, hm, hmlive, hmfirst, hmdesc⟩ := h.slotCons i a' t hi
      have hml : m ≠ l := fun he => hown i hij (he ▸ hm)
      obtain ⟨hmlive', hmlevel⟩ := hlevels m hml hmlive
      refine ⟨m, (hslot i hij).trans hm, hmlive', hmlevel ▸ hmfirst, ?_⟩
      rw [hmlevel, hmap]
      exact hmdesc
  · intro i j m hi hj
    by_cases hik : i = priceToIndex d.price <;> by_cases hjk : j = priceToIndex d.price
    · rw [hik, hjk]
    · rw [hik, hslotSelf, Option.some_inj] at hi
      rw [hslot j hjk, ← hi] at hj
      exact absurd hj (hown j hjk)
    · rw [hjk, hslotSelf, Option.some_inj] at hj
      rw [hslot i hik, ← hj] at hi
      exact absurd hi (hown i hik)
    · rw [hslot i hik] at hi
      rw [hslot j hjk] at hj
      exact h.slotInj i j m hi hj
  · intro i
    by_cases hij : i = priceToIndex d.price
    · subst hij
      rwa [Function.update_self]
    · rw [Function.update_of_ne hij]
      exact (h.isRing i).congr (fun q hq => (hothers i hij q hq).1)
        fun q hq => (hothers i hij q hq).2
  · intro i q hq
    by_cases hij : i = priceToIndex d.price
    · subst hij
      rw [Function.update_self, List.mem_append, List.mem_singleton] at hq
      rcases hq with hq | rfl
      · rw [hold _ q hq]
        exact h.slotOf _ q hq
      · rw [hself]
    · rw [Function.update_of_ne hij] at hq
      rw [hold i q hq]
      exact h.slotOf i q hq
  · intro i q hq
    by_cases hij : i = priceToIndex d.price
    · subst hij
      rw [Function.update_self, List.mem_append, List.mem_singleton] at hq
      exact hadd.live q (hq.imp_left (h.live _ q))
    · rw [Function.update_of_ne hij] at hq
      exact hadd.live q (Or.inl (h.live i q hq))

/-- A null slot gets a level with the order alone in it. -/
theorem Filled.withNewLevel (h : Filled b ring) (hslot : b.getPriceLevel d.price = none) :
    Filled (b.withNewLevel d) (Function.update ring (priceToIndex d.price)
      (ring (priceToIndex d.price) ++ [b.nextOrderPtr])) := by
  have hempty : ring (priceToIndex d.price) = [] := (h.slot_none_iff _).1 hslot
  have hold : ∀ m, b.priceLevelPool.Live m → m ≠ b.nextLevelPtr := fun m hm =>
    (h.levelFrontier.lt_of_live hm).ne
  refine h.insert (l := b.nextLevelPtr) (a := b.nextOrderPtr) (h.added_withNewLevel hslot) rfl
    ?_ ?_ ?_ ?_ ?_ ?_ ?_ ?_
  · exact (MemPool.live_push _ _ _).2 (Or.inl rfl)
  · rw [level_withNewLevel_self]
    rfl
  · rw [hempty]
    rfl
  · rw [hempty, level_withNewLevel_self]
    exact describes_singleton ⟨rfl, rfl⟩ rfl rfl
  · intro i _ hi
    obtain ⟨-, -, -, hlive, -⟩ := h.level_of_slot hi
    exact hold _ hlive rfl
  · exact fun m hm hlive => ⟨(MemPool.live_push _ _ _).2 (Or.inr hlive),
      level_withNewLevel_ne b d m hm⟩
  · rw [hempty, List.nil_append, isRing_singleton]
    exact ⟨(nextOrder_withNewLevel b d _).trans (if_pos rfl),
      (prevOrder_withNewLevel b d _).trans (if_pos rfl)⟩
  · exact fun i _ q hq => ⟨(nextOrder_withNewLevel b d q).trans (if_neg (h.ne_next hq)),
      (prevOrder_withNewLevel b d q).trans (if_neg (h.ne_next hq))⟩

/-- A used slot gets the order behind its last one. -/
theorem Filled.withLastOrder (h : Filled b ring) (hslot : b.getPriceLevel d.price = some l)
    (hr : ring (priceToIndex d.price) = a :: t) (hz : b.prevOrder a = some z) :
    Filled (b.withLastOrder d l a z) (Function.update ring (priceToIndex d.price)
      (ring (priceToIndex d.price) ++ [b.nextOrderPtr])) := by
  obtain ⟨a', t', hr', hlive, hfirst, hdesc⟩ := h.level_of_slot hslot
  obtain ⟨rfl, rfl⟩ := List.cons.inj (hr'.symm.trans hr)
  have ha : a' ∈ ring (priceToIndex d.price) := by simp [hr]
  have hz' : z ∈ ring (priceToIndex d.price) := (h.isRing _).mem_of_prev ha hz
  have hother : ∀ i, i ≠ priceToIndex d.price → ∀ q ∈ ring i,
      ∀ r ∈ ring (priceToIndex d.price), q ≠ r := by
    rintro i hi q hq r hr' rfl
    exact hi ((h.slotOf i q hq).symm.trans (h.slotOf _ q hr'))
  have hnext : ∀ q, (b.withLastOrder d l a' z).nextOrder q = if q = b.nextOrderPtr then some a'
      else if q = z then some b.nextOrderPtr else b.nextOrder q :=
    fun q => nextOrder_withLastOrder b d q l a' z
  have hprev : ∀ q, (b.withLastOrder d l a' z).prevOrder q = if q = b.nextOrderPtr then some z
      else if q = a' then some b.nextOrderPtr else b.prevOrder q :=
    fun q => prevOrder_withLastOrder b d q l a' z (h.ne_next ha)
  have heq := withLastOrder_eq b d l a' z
  have hslots : (b.withLastOrder d l a' z).ordersAtPriceLevels =
      Function.update b.ordersAtPriceLevels (priceToIndex d.price) (some l) := by
    rw [heq]
    exact (Function.update_eq_self_iff.2 hslot.symm).symm
  have hkept : ∀ m, (b.withLastOrder d l a' z).priceLevelPool.Live m ↔ b.priceLevelPool.Live m := by
    intro m
    rw [heq]
    simp [MemPool.live_modify]
  refine h.insert (l := l) (a := a') (h.added_withLastOrder hslot a' z) hslots ((hkept l).2 hlive)
    ?_ (by simp [hr]) ?_ (fun i hi hi' => hi (h.slotInj _ _ l hi' hslot)) ?_ ?_
    fun i hi q hq => ⟨?_, ?_⟩
  · rw [level_withLastOrder, if_pos rfl]
    exact hfirst
  · rw [level_withLastOrder, if_pos rfl]
    exact hdesc.concat (by simp [hr]) d ⟨rfl, rfl⟩ rfl rfl
  · exact fun m hm hmlive => ⟨(hkept m).2 hmlive,
      (level_withLastOrder b d m l a' z).trans (if_neg hm)⟩
  · have hring := h.isRing (priceToIndex d.price)
    have hnew : b.nextOrderPtr ∉ ring (priceToIndex d.price) := fun hm => h.ne_next hm rfl
    rw [hr] at hring hnew
    rw [hr, List.cons_append]
    refine hring.concat hnew hz ?_ ?_ ?_ ?_ (fun y hy hyz => ?_) fun y hy hya => ?_
    · rw [hnext, if_neg (h.ne_next hz'), if_pos rfl]
    · rw [hprev, if_pos rfl]
    · rw [hnext, if_pos rfl]
    · rw [hprev, if_neg (h.ne_next ha), if_pos rfl]
    · rw [hnext, if_neg (h.ne_next (hr ▸ hy)), if_neg hyz]
    · rw [hprev, if_neg (h.ne_next (hr ▸ hy)), if_neg hya]
  · rw [hnext, if_neg (h.ne_next hq), if_neg (hother i hi q hq z hz')]
  · rw [hprev, if_neg (h.ne_next hq), if_neg (hother i hi q hq a' ha)]

/-- There are blocks for an order at the price. -/
def HasRoom (b : MarketOrderBook) (price : Price) : Prop :=
  b.orderPool.Room ∧ (b.getPriceLevel price = none → b.priceLevelPool.Room)

/-- The empty book has room for a first order. -/
theorem hasRoom_init (price : Price) : init.HasRoom price :=
  ⟨(by decide : (MemPool.init ({} : MarketOrder) meMaxOrderIds).Room),
    fun _ => (by decide : (MemPool.init ({} : MarketOrderPriceLevel) meMaxPriceLevels).Room)⟩

theorem Filled.bestAskUpdated_eq (h : Filled b ring) (u : MEMarketUpdate) :
    b.bestAskUpdated u = .ok false := by
  rw [bestAskUpdated, if_neg fun hne => hne.1 h.unlinked.asks]

/-- **An `ADD`** with room puts its order last in its slot. -/
theorem Filled.add (h : Filled b ring) (hu : u.type = .add) (hroom : b.HasRoom u.price) :
    ∃ b', b.onMarketUpdate u = .ok b' ∧ Added b b' (dataOf u) ∧
      Filled b' (Function.update ring (priceToIndex u.price)
        (ring (priceToIndex u.price) ++ [b.nextOrderPtr])) := by
  have hadd : b.onMarketUpdate u = (b.withOrder (dataOf u)).addOrder b.nextOrderPtr := by
    rw [onMarketUpdate, h.bestAskUpdated_eq, ok_bind]
    simp only [hu, MemPool.allocate_eq h.orderFrontier hroom.1, ok_bind]
    rfl
  cases hslot : b.getPriceLevel u.price with
  | none =>
    exact ⟨_, hadd.trans (addOrder_nil h hslot (hroom.2 hslot)), h.added_withNewLevel hslot,
      Filled.withNewLevel (d := dataOf u) h hslot⟩
  | some l =>
    obtain ⟨a, t, hr, -⟩ := h.level_of_slot hslot
    have hring := h.isRing (priceToIndex u.price)
    rw [hr] at hring
    exact ⟨_, hadd.trans (addOrder_cons h hslot hr hring.prev_head),
      h.added_withLastOrder hslot _ _, Filled.withLastOrder (d := dataOf u) h hslot hr hring.prev_head⟩

/-- Without room it runs past the end of a pool. -/
theorem Filled.add_full (h : Filled b ring) (hu : u.type = .add) (hroom : ¬ b.HasRoom u.price) :
    b.onMarketUpdate u = .error .badIndex := by
  rw [onMarketUpdate, h.bestAskUpdated_eq, ok_bind]
  simp only [hu]
  by_cases hr : b.orderPool.Room
  · rw [MemPool.allocate_eq h.orderFrontier hr, ok_bind]
    obtain ⟨hslot, hlev⟩ : b.getPriceLevel u.price = none ∧ ¬ b.priceLevelPool.Room := by
      by_contra hno
      exact hroom ⟨hr, fun hslot => by_contra fun hlev => hno ⟨hslot, hlev⟩⟩
    exact addOrder_full (d := dataOf u) h hslot hlev
  · rw [MemPool.allocate_full h.orderFrontier hr, error_bind]

/-! ## What the other updates do -/

/-- Every other update leaves a book as it is, or stops at the table of ids. -/
def orderIdCheck (b : MarketOrderBook) (u : MEMarketUpdate) : Except Fault MarketOrderBook :=
  if u.type = .modify ∨ u.type = .cancel then
    if u.orderId.toNat < meMaxOrderIds then
      -- the entry a `MODIFY` follows is null, and a `CANCEL` does not follow it
      if u.type = .modify then .error .nullDeref else .ok b
    else .error .outOfRange
  else .ok b

theorem Filled.other (h : Filled b ring) (hu : u.type ≠ .add) :
    b.onMarketUpdate u = b.orderIdCheck u := by
  have horder : b.orderAt u.orderId =
      if u.orderId.toNat < meMaxOrderIds then .ok none else .error .outOfRange := by
    rw [orderAt, h.unlinked.ids]
  rw [onMarketUpdate, h.bestAskUpdated_eq, ok_bind, orderIdCheck, horder]
  cases htype : u.type with
  | add => exact absurd htype hu
  | modify => by_cases hid : u.orderId.toNat < meMaxOrderIds <;> simp [hid]
  | cancel => by_cases hid : u.orderId.toNat < meMaxOrderIds <;> simp [hid]
  | clear => simpa using h.unlinked.clear_eq
  | _ => simp

theorem orderIdCheck_eq_ok (h : b.orderIdCheck u = .ok b') : b' = b := by
  rw [orderIdCheck] at h
  split at h
  · split at h
    · split at h
      · exact absurd h (by simp)
      · exact (Except.ok.inj h).symm
    · exact absurd h (by simp)
  · exact (Except.ok.inj h).symm

/-- **The updates that return.** -/
theorem Filled.step_ok (h : Filled b ring) (hb : b.onMarketUpdate u = .ok b') :
    (u.type = .add ∧ Added b b' (dataOf u) ∧ Filled b' (Function.update ring (priceToIndex u.price)
      (ring (priceToIndex u.price) ++ [b.nextOrderPtr]))) ∨ u.type ≠ .add ∧ b' = b := by
  by_cases hu : u.type = .add
  · by_cases hroom : b.HasRoom u.price
    · obtain ⟨c, hc, hadd⟩ := h.add hu hroom
      obtain rfl := Except.ok.inj (hb.symm.trans hc)
      exact Or.inl ⟨hu, hadd⟩
    · exact absurd (hb.symm.trans (h.add_full hu hroom)) (by simp)
  · exact Or.inr ⟨hu, orderIdCheck_eq_ok ((h.other hu).symm.trans hb)⟩

/-- An update that returns keeps the shape. -/
theorem Filled.next (h : Filled b ring) (hb : b.onMarketUpdate u = .ok b') :
    ∃ ring', Filled b' ring' := by
  obtain ⟨-, -, h'⟩ | ⟨-, rfl⟩ := h.step_ok hb
  · exact ⟨_, h'⟩
  · exact ⟨ring, h⟩

/-- **A `MODIFY` follows null**, and no other update does. -/
theorem Filled.nullDeref_iff (h : Filled b ring) : b.onMarketUpdate u = .error .nullDeref ↔
    u.type = .modify ∧ u.orderId.toNat < meMaxOrderIds := by
  by_cases hu : u.type = .add
  · refine iff_of_false (fun hnull => ?_) fun hm => absurd (hu.symm.trans hm.1) (by decide)
    by_cases hroom : b.HasRoom u.price
    · obtain ⟨c, hc, -⟩ := h.add hu hroom
      exact absurd (hc.symm.trans hnull) (by simp)
    · exact absurd ((h.add_full hu hroom).symm.trans hnull) (by simp)
  · rw [h.other hu, orderIdCheck]
    by_cases hm : u.type = .modify
    · by_cases hid : u.orderId.toNat < meMaxOrderIds <;> simp [hm, hid]
    · by_cases hc : u.type = .cancel
      · by_cases hid : u.orderId.toNat < meMaxOrderIds <;> simp [hc, hid]
      · simp [hm, hc]

/-! ## Runs -/

/-- An update takes the book on. -/
def Next (b : MarketOrderBook) (u : MEMarketUpdate) (b' : MarketOrderBook) : Prop :=
  b.onMarketUpdate u = .ok b'

/-- **Every book a feed builds** has the shape, and its order pool has not run out. -/
theorem filled_of_onMarketUpdates {us : List MEMarketUpdate}
    (hb : init.onMarketUpdates us = .ok b) :
    (∃ ring, Filled b ring) ∧ b.orderPool.nextFreeIndex < meMaxOrderIds := by
  have hinv : (∃ ring, Filled b ring) ∧ b.orderPool.size = meMaxOrderIds ∧
      b.orderPool.nextFreeIndex < meMaxOrderIds := by
    refine Run.inv_of_foldlM (fun b : MarketOrderBook => (∃ ring, Filled b ring) ∧
      b.orderPool.size = meMaxOrderIds ∧ b.orderPool.nextFreeIndex < meMaxOrderIds) ?_
      ⟨⟨_, filled_init⟩, rfl, by decide⟩ hb
    rintro b u c ⟨⟨ring, h⟩, hsize, hnext⟩ hc
    refine ⟨h.next hc, ?_⟩
    obtain ⟨hu, hadd, -⟩ | ⟨-, rfl⟩ := h.step_ok hc
    · have hroom : b.HasRoom u.price := by
        by_contra hno
        exact absurd (hc.symm.trans (h.add_full hu hno)) (by simp)
      refine ⟨hadd.sizes.1.trans hsize, ?_⟩
      rw [hadd.orderNext, ← hsize]
      exact hroom.1
    · exact ⟨hsize, hnext⟩
  exact ⟨hinv.1, hinv.2.2⟩

end MarketOrderBook
end Trading
end TradingEcosystem
