import TradingEcosystem.Exchange.Slots

/-!
# Inserting an order

`addOrder` on a book of rings.  It has two outcomes, a new level with the order alone in it
(`withNewLevel`) and the old level with the order behind its last one (`withLastOrder`); both are
books in closed form, and both put the order at the end of the ring of its slot.
-/

set_option autoImplicit false

namespace TradingEcosystem
namespace Exchange
namespace MEOrderBook

open Ring

variable {b : MEOrderBook} {ring : Nat → List Ptr}

/-- The block the next order gets. -/
abbrev nextOrderPtr (b : MEOrderBook) : Ptr := b.orderPool.nextFreeIndex

/-- What `addOrder` leaves outside the shape: `b'` is `b` with the order `d` in a new block. -/
structure Inserted (b b' : MEOrderBook) (d : OrderData) : Prop where
  self : b'.data b.nextOrderPtr = d
  other : ∀ q, q ≠ b.nextOrderPtr → b'.data q = b.data q
  live : ∀ q, b'.orderPool.Live q ↔ q = b.nextOrderPtr ∨ b.orderPool.Live q
  table : b'.clientOrders = Function.update b.clientOrders d.clientId
    (Function.update (b.clientOrders d.clientId) d.clientOrderId (some b.nextOrderPtr))
  orderNext : b'.orderPool.nextFreeIndex = b.orderPool.nextFreeIndex + 1
  levelNext : b'.priceLevelsPool.nextFreeIndex =
    b.priceLevelsPool.nextFreeIndex + if b.getPriceLevel d.price = none then 1 else 0
  marketOrderId : b'.nextMarketOrderId = b.nextMarketOrderId
  stackRoom : b'.stackRoom = b.stackRoom

/-- The book between `order_pool_.allocate` and `addOrder`: the order exists and is not linked. -/
def withOrder (b : MEOrderBook) (d : OrderData) : MEOrderBook :=
  b.withOrderPool (b.orderPool.push { toOrderData := d })

theorem order_withOrder_self (b : MEOrderBook) (d : OrderData) :
    (b.withOrder d).order b.nextOrderPtr = { toOrderData := d } :=
  MemPool.get_push_self _ _

theorem order_withOrder_ne (b : MEOrderBook) (d : OrderData) {q : Ptr} (hq : q ≠ b.nextOrderPtr) :
    (b.withOrder d).order q = b.order q :=
  MemPool.get_push_ne _ _ hq

/-- Pointing a client's entry at the order that was inserted keeps the table sound. -/
theorem table_insert (h : Slots b ring) {b' : MEOrderBook} {d : OrderData} (hi : Inserted b b' d)
    (c : ClientId) (o : OrderId) (q : Ptr) (hq : b'.clientOrders c o = some q) :
    b'.orderPool.Live q ∧ (b'.data q).clientId = c ∧ (b'.data q).clientOrderId = o := by
  rw [hi.live]
  by_cases hco : d.clientId = c ∧ d.clientOrderId = o
  · obtain ⟨rfl, rfl⟩ := hco
    have hqp : q = b.nextOrderPtr := by
      rw [hi.table] at hq; simpa [eq_comm] using hq
    subst hqp
    rw [hi.self]
    exact ⟨Or.inl rfl, rfl, rfl⟩
  · have hold : b.clientOrders c o = some q := by
      rw [hi.table] at hq
      by_cases hc : c = d.clientId
      · subst hc
        have ho : o ≠ d.clientOrderId := fun ho => hco ⟨rfl, ho.symm⟩
        simpa [ho] using hq
      · simpa [hc] using hq
    obtain ⟨hl, hdata⟩ := h.table c o q hold
    have hne : q ≠ b.nextOrderPtr := (h.pools.orderFrontier.lt_of_live hl).ne
    rw [hi.other q hne]
    exact ⟨Or.inr hl, hdata⟩

theorem addOrdersAtPrice_eq (b : MEOrderBook) (hb : b.bidLevelsHead = none)
    (ha : b.askLevelsHead = none) (l : Ptr) :
    b.addOrdersAtPrice l = .ok
      (((b.setPriceLevel (b.level l).price (some l)).setPrevPriceLevel l (some l)).setNextPriceLevel
        l (some l)) := by
  have hhead : ∀ price v, (if (b.level l).side = .buy then (b.setPriceLevel price v).bidLevelsHead
      else (b.setPriceLevel price v).askLevelsHead) = none := by
    intro price v
    split
    · exact hb
    · exact ha
  rw [addOrdersAtPrice]
  simp only [hhead, pure_eq_ok]

/-- The book `addOrder` builds from a null slot, before the client's entry. -/
def withNewLevel (b : MEOrderBook) (d : OrderData) : MEOrderBook :=
  let p := b.nextOrderPtr
  let l := b.priceLevelsPool.nextFreeIndex
  let b := ((b.withOrder d).setPrevOrder p (some p)).setNextOrder p (some p)
  let b := b.withLevelsPool
    (b.priceLevelsPool.push { side := d.side, price := d.price, firstOrder := some p })
  ((b.setPriceLevel d.price (some l)).setPrevPriceLevel l (some l)).setNextPriceLevel l (some l)

theorem addOrder_nil (h : Slots b ring) (d : OrderData) (hslot : b.getPriceLevel d.price = none)
    (hlev : b.priceLevelsPool.Room) :
    (b.withOrder d).addOrder b.nextOrderPtr =
      (b.withNewLevel d).setClientOrder d.clientId d.clientOrderId (some b.nextOrderPtr) := by
  have hslot' : (b.withOrder d).getPriceLevel d.price = none := hslot
  have hprev : (((b.withOrder d).setPrevOrder b.nextOrderPtr (some b.nextOrderPtr)).order
      b.nextOrderPtr).prevOrder = some b.nextOrderPtr := by
    simpa [prevOrder] using
      prevOrder_setPrevOrder (b.withOrder d) b.nextOrderPtr b.nextOrderPtr (some b.nextOrderPtr)
  rw [addOrder]
  simp only [order_withOrder_self, hslot', hprev]
  set c := ((b.withOrder d).setPrevOrder b.nextOrderPtr (some b.nextOrderPtr)).setNextOrder
    b.nextOrderPtr (some b.nextOrderPtr) with hc
  have hpool : c.priceLevelsPool = b.priceLevelsPool := rfl
  rw [hpool, MemPool.allocate_eq h.pools.levelFrontier hlev, ok_bind,
    addOrdersAtPrice_eq (c.withLevelsPool _) h.bidHead h.askHead]
  simp only [level, withLevelsPool, MemPool.get_push_self, ok_bind]
  rfl

/-- A null slot asks the level pool for a block it does not have. -/
theorem addOrder_full (h : Slots b ring) (d : OrderData) (hslot : b.getPriceLevel d.price = none)
    (hlev : ¬ b.priceLevelsPool.Room) :
    (b.withOrder d).addOrder b.nextOrderPtr = .error .badIndex := by
  have hslot' : (b.withOrder d).getPriceLevel d.price = none := hslot
  rw [addOrder]
  simp only [order_withOrder_self, hslot']
  set c := ((b.withOrder d).setPrevOrder b.nextOrderPtr (some b.nextOrderPtr)).setNextOrder
    b.nextOrderPtr _ with hc
  have hpool : c.priceLevelsPool = b.priceLevelsPool := rfl
  rw [hpool, MemPool.allocate_full h.pools.levelFrontier hlev, error_bind]

/-- The book `addOrder` builds from a used slot with the orders `first … last`, before the client's
entry. -/
def withLastOrder (b : MEOrderBook) (d : OrderData) (first last : Ptr) : MEOrderBook :=
  let p := b.nextOrderPtr
  ((((b.withOrder d).setNextOrder last (some p)).setPrevOrder p (some last)).setNextOrder p
    (some first)).setPrevOrder first (some p)

theorem addOrder_cons (h : Slots b ring) (d : OrderData) {a : Ptr} {t : List Ptr}
    (hring : ring (priceToIndex d.price) = a :: t) {z : Ptr} (hz : b.prevOrder a = some z) :
    (b.withOrder d).addOrder b.nextOrderPtr =
      (b.withLastOrder d a z).setClientOrder d.clientId d.clientOrderId
        (some b.nextOrderPtr) := by
  obtain ⟨l, hl, -, hfirst, -⟩ := h.slotCons _ a t hring
  have hslot : (b.withOrder d).getPriceLevel d.price = some l := hl
  have hfirst' : ((b.withOrder d).level l).firstOrder = some a := hfirst
  have hne : a ≠ b.nextOrderPtr := by
    have ha : a ∈ ring (priceToIndex d.price) := by simp [hring]
    rintro rfl
    exact h.fresh _ ha
  have hprev : ((b.withOrder d).order a).prevOrder = some z := by
    rw [order_withOrder_ne b d hne]; exact hz
  have hprev' : (((b.withOrder d).setNextOrder z (some b.nextOrderPtr)).order a).prevOrder
      = some z := by
    rw [← hprev]
    exact prevOrder_setNextOrder (b.withOrder d) z a (some b.nextOrderPtr)
  rw [addOrder]
  simp only [order_withOrder_self, hslot, hfirst', hprev, hprev', nonNull_some, ok_bind,
    pure_eq_ok]
  rfl

/-! ## The two books `addOrder` builds -/

section NewLevel

variable (b : MEOrderBook) (d : OrderData) (q : Ptr)

theorem orderPool_withNewLevel : (b.withNewLevel d).orderPool =
    (((b.withOrder d).setPrevOrder b.nextOrderPtr (some b.nextOrderPtr)).setNextOrder
      b.nextOrderPtr (some b.nextOrderPtr)).orderPool := rfl

theorem nextOrder_withNewLevel : (b.withNewLevel d).nextOrder q =
    if q = b.nextOrderPtr then some b.nextOrderPtr else b.nextOrder q := by
  rw [nextOrder, order, orderPool_withNewLevel, ← order, ← nextOrder, nextOrder_setNextOrder,
    nextOrder_setPrevOrder]
  split
  · rfl
  · next hq => rw [nextOrder, order_withOrder_ne b d hq, nextOrder]

theorem prevOrder_withNewLevel : (b.withNewLevel d).prevOrder q =
    if q = b.nextOrderPtr then some b.nextOrderPtr else b.prevOrder q := by
  rw [prevOrder, order, orderPool_withNewLevel, ← order, ← prevOrder, prevOrder_setNextOrder,
    prevOrder_setPrevOrder]
  split
  · rfl
  · next hq => rw [prevOrder, order_withOrder_ne b d hq, prevOrder]

end NewLevel

section LastOrder

variable (b : MEOrderBook) (d : OrderData) (a z q : Ptr)

theorem priceLevels_setOrder (p : Ptr) (f : MEOrder → MEOrder) :
    (b.setOrder p f).priceLevels = b.priceLevels := rfl

theorem priceLevelsPool_setOrder (p : Ptr) (f : MEOrder → MEOrder) :
    (b.setOrder p f).priceLevelsPool = b.priceLevelsPool := rfl

theorem priceLevels_withLastOrder : (b.withLastOrder d a z).priceLevels = b.priceLevels := by
  simp only [withLastOrder, setNextOrder, setPrevOrder, priceLevels_setOrder]
  rfl

theorem priceLevelsPool_withLastOrder :
    (b.withLastOrder d a z).priceLevelsPool = b.priceLevelsPool := by
  simp only [withLastOrder, setNextOrder, setPrevOrder, priceLevelsPool_setOrder]
  rfl

theorem nextOrder_withLastOrder : (b.withLastOrder d a z).nextOrder q =
    if q = b.nextOrderPtr then some a else if q = z then some b.nextOrderPtr
      else b.nextOrder q := by
  simp only [withLastOrder, nextOrder_setPrevOrder, nextOrder_setNextOrder]
  split
  · rfl
  · next hq => rw [nextOrder, order_withOrder_ne b d hq, nextOrder]

theorem prevOrder_withLastOrder (hne : a ≠ b.nextOrderPtr) :
    (b.withLastOrder d a z).prevOrder q =
      if q = b.nextOrderPtr then some z else if q = a then some b.nextOrderPtr
        else b.prevOrder q := by
  simp only [withLastOrder, prevOrder_setPrevOrder, prevOrder_setNextOrder]
  by_cases hq : q = b.nextOrderPtr
  · subst hq; simp [hne.symm]
  · simp only [hq, if_false]
    split
    · rfl
    · rw [prevOrder, order_withOrder_ne b d hq, prevOrder]

end LastOrder

theorem Pools.withOrder (h : Pools b) (d : OrderData) (hroom : b.orderPool.Room) :
    Pools (b.withOrder d) :=
  { h with orderFrontier := h.orderFrontier.push _, orderNext := h.orderSize ▸ hroom }

theorem Pools.pushLevel {c : MEOrderBook} (h : Pools c) (l : MEOrderAtPriceLevel)
    (hlev : c.priceLevelsPool.Room) : Pools (c.withLevelsPool (c.priceLevelsPool.push l)) :=
  { h with levelFrontier := h.levelFrontier.push l, levelNext := h.levelSize ▸ hlev }

theorem live_withOrder (d : OrderData) (q : Ptr) :
    (b.withOrder d).orderPool.Live q ↔ q = b.nextOrderPtr ∨ b.orderPool.Live q :=
  MemPool.live_push _ _ _

theorem relinked_withNewLevel (b : MEOrderBook) (d : OrderData) :
    Relinked (b.withOrder d) (b.withNewLevel d) :=
  (relinked_setPrevOrder _ _ _).trans <| (relinked_setNextOrder _ _ _).trans <|
    (relinked_withLevelsPool _ _).trans <| (relinked_setPriceLevel _ _ _).trans <|
    (relinked_setLevel _ _ _).trans (relinked_setLevel _ _ _)

theorem relinked_withLastOrder (b : MEOrderBook) (d : OrderData) (a z : Ptr) :
    Relinked (b.withOrder d) (b.withLastOrder d a z) :=
  (relinked_setNextOrder _ _ _).trans <| (relinked_setPrevOrder _ _ _).trans <|
    (relinked_setNextOrder _ _ _).trans (relinked_setPrevOrder _ _ _)

theorem Pools.withNewLevel (h : Pools b) (d : OrderData) (hroom : b.orderPool.Room)
    (hlev : b.priceLevelsPool.Room) : Pools (b.withNewLevel d) :=
  Pools.setLevel (Pools.setLevel (Pools.setPriceLevel (Pools.pushLevel (Pools.setOrder
    (Pools.setOrder (h.withOrder d hroom) _ _) _ _) _ hlev) _ _) _ _) _ _

theorem Pools.withLastOrder (h : Pools b) (d : OrderData) (a z : Ptr) (hroom : b.orderPool.Room) :
    Pools (b.withLastOrder d a z) :=
  Pools.setOrder (Pools.setOrder (Pools.setOrder (Pools.setOrder (h.withOrder d hroom) _ _) _ _)
    _ _) _ _

theorem Relinked.inserted {c : MEOrderBook} {d : OrderData} (h : Relinked (b.withOrder d) c)
    (hlev : c.priceLevelsPool.nextFreeIndex =
      b.priceLevelsPool.nextFreeIndex + if b.getPriceLevel d.price = none then 1 else 0) :
    Inserted b (c.putClientOrder d (some b.nextOrderPtr)) d where
  self := (h.data _).trans (congrArg MEOrder.toOrderData (order_withOrder_self b d))
  other := fun q hq => (h.data q).trans (congrArg MEOrder.toOrderData (order_withOrder_ne b d hq))
  live := fun q => (h.live q).trans (live_withOrder d q)
  table := by rw [putClientOrder, h.clientOrders]; rfl
  orderNext := h.orderNext
  levelNext := hlev
  marketOrderId := h.marketOrderId
  stackRoom := h.stackRoom

/-- The new order joins its slot, whatever the slot was: the frame and the links are left to the
two cases. -/
theorem Slots.insert (h : Slots b ring) {d : OrderData} {b' : MEOrderBook}
    (hids : d.clientId.toNat < meMaxNumClients ∧ d.clientOrderId.toNat < meMaxOrderIds)
    (hi : Inserted b b' d) (hpools : Pools b') (hf : Frame b b' ring (priceToIndex d.price))
    {l a : Ptr} (hl : b'.priceLevels (priceToIndex d.price) = some l)
    (hlive : b'.priceLevelsPool.Live l) (hfirst : (b'.level l).firstOrder = some a)
    (hnext : (b'.level l).nextPriceLevel = some l)
    (hhead : (ring (priceToIndex d.price) ++ [b.nextOrderPtr]).head? = some a)
    (hown : ∀ i, i ≠ priceToIndex d.price → b.priceLevels i ≠ some l)
    (hring : IsRing b'.nextOrder b'.prevOrder (ring (priceToIndex d.price) ++ [b.nextOrderPtr])) :
    Slots b' (Function.update ring (priceToIndex d.price)
      (ring (priceToIndex d.price) ++ [b.nextOrderPtr])) := by
  have hmem : ∀ q ∈ ring (priceToIndex d.price) ++ [b.nextOrderPtr],
      b'.data q = d ∨ q ∈ ring (priceToIndex d.price) ∧ b'.data q = b.data q := by
    intro q hq
    by_cases hqp : q = b.nextOrderPtr
    · exact Or.inl (hqp ▸ hi.self)
    · exact Or.inr ⟨by simpa [hqp] using hq, hi.other q hqp⟩
  refine h.update hf ?_ ?_ ?_ hring ?_ ?_ ?_ (table_insert h hi) hpools
  · exact fun hnil => absurd hnil (by simp)
  · intro a' t hat
    rw [hat, List.head?_cons, Option.some_inj] at hhead
    exact ⟨l, hl, hlive, hhead ▸ hfirst, hnext⟩
  · intro i hi l' hl'
    rw [hl, Option.some_inj] at hl'
    exact hl' ▸ hown i hi
  · intro q hq
    rcases hmem q hq with hd | ⟨hq, hd⟩
    · rw [hd]
    · rw [hd]; exact h.slotOf _ q hq
  · intro q
    rw [hi.live, h.live]
    constructor
    · rintro (rfl | ⟨i, hq⟩)
      · exact Or.inl (by simp)
      · by_cases hij : i = priceToIndex d.price
        · exact Or.inl (List.mem_append_left _ (hij ▸ hq))
        · exact Or.inr ⟨i, hij, hq⟩
    · rintro (hq | ⟨i, -, hq⟩)
      · rcases List.mem_append.1 hq with hq | hq
        · exact Or.inr ⟨_, hq⟩
        · exact Or.inl (List.mem_singleton.1 hq)
      · exact Or.inr ⟨i, hq⟩
  · intro q hq
    rcases hmem q hq with hd | ⟨hq, hd⟩
    · rw [hd]; exact hids
    · rw [hd]; exact h.idsLt _ q hq

/-- A null slot becomes a level with the new order alone. -/
theorem insert_nil (h : Slots b ring) (d : OrderData)
    (hids : d.clientId.toNat < meMaxNumClients ∧ d.clientOrderId.toNat < meMaxOrderIds)
    (hroom : b.orderPool.Room) (hslot : b.getPriceLevel d.price = none)
    (hlev : b.priceLevelsPool.Room) :
    let b' := (b.withNewLevel d).putClientOrder d (some b.nextOrderPtr)
    Inserted b b' d ∧ Slots b' (Function.update ring (priceToIndex d.price)
      (ring (priceToIndex d.price) ++ [b.nextOrderPtr])) := by
  intro b'
  have hempty : ring (priceToIndex d.price) = [] := h.getPriceLevel_none.1 hslot
  have hpool : b'.priceLevelsPool = ((b.priceLevelsPool.push
      { side := d.side, price := d.price, firstOrder := some b.nextOrderPtr }).modify
        b.priceLevelsPool.nextFreeIndex fun l =>
          { l with prevPriceLevel := some b.priceLevelsPool.nextFreeIndex }).modify
        b.priceLevelsPool.nextFreeIndex fun l =>
          { l with nextPriceLevel := some b.priceLevelsPool.nextFreeIndex } := rfl
  have htable : b'.priceLevels = Function.update b.priceLevels (priceToIndex d.price)
      (some b.priceLevelsPool.nextFreeIndex) := rfl
  have hinserted : Inserted b b' d :=
    (relinked_withNewLevel b d).inserted (by rw [if_pos hslot]; rfl)
  have hne : ∀ i, ∀ q ∈ ring i, q ≠ b.nextOrderPtr := fun i q hq => h.ne_fresh hq
  have hold : ∀ l, b.priceLevelsPool.Live l → l ≠ b.priceLevelsPool.nextFreeIndex :=
    fun l hl => (h.pools.levelFrontier.lt_of_live hl).ne
  have hframe : Frame b b' ring (priceToIndex d.price) :=
    { bidHead := (relinked_withNewLevel b d).bidHead
      askHead := (relinked_withNewLevel b d).askHead
      data := fun i _ q hq => hinserted.other q (hne i q hq)
      next := fun i _ q hq => (nextOrder_withNewLevel b d q).trans (if_neg (hne i q hq))
      prev := fun i _ q hq => (prevOrder_withNewLevel b d q).trans (if_neg (hne i q hq))
      slot := fun i hi => by rw [htable, Function.update_of_ne hi]
      level := fun i _ l _ hl => by
        rw [level, hpool]
        simp [hold l hl, hl, level] }
  refine ⟨hinserted, h.insert hids hinserted
    ((h.pools.withNewLevel d hroom hlev).putClientOrder _ _) hframe
    (l := b.priceLevelsPool.nextFreeIndex) (a := b.nextOrderPtr) ?_ ?_ ?_ ?_ ?_ ?_ ?_⟩
  · rw [htable, Function.update_self]
  · rw [hpool]; simp
  · rw [level, hpool]; simp
  · rw [level, hpool]; simp
  · simp [hempty]
  · intro i _ hi
    obtain ⟨-, -, -, hlive, -⟩ := h.level_of_slot hi
    exact hold _ hlive rfl
  · rw [hempty, List.nil_append, isRing_singleton]
    exact ⟨(nextOrder_withNewLevel b d _).trans (if_pos rfl),
      (prevOrder_withNewLevel b d _).trans (if_pos rfl)⟩

/-- A used slot gets the new order behind its last one. -/
theorem insert_cons (h : Slots b ring) (d : OrderData)
    (hids : d.clientId.toNat < meMaxNumClients ∧ d.clientOrderId.toNat < meMaxOrderIds)
    (hroom : b.orderPool.Room) {a z : Ptr} {t : List Ptr}
    (hr : ring (priceToIndex d.price) = a :: t) (hz : b.prevOrder a = some z) :
    let b' := (b.withLastOrder d a z).putClientOrder d (some b.nextOrderPtr)
    Inserted b b' d ∧ Slots b' (Function.update ring (priceToIndex d.price)
      (ring (priceToIndex d.price) ++ [b.nextOrderPtr])) := by
  intro b'
  obtain ⟨l, hl, hlive, hfirst, hnext⟩ := h.slotCons _ a t hr
  have hslot : b.getPriceLevel d.price ≠ none := by rw [getPriceLevel, hl]; simp
  have htable : b'.priceLevels = b.priceLevels := priceLevels_withLastOrder b d a z
  have hpool : b'.priceLevelsPool = b.priceLevelsPool := priceLevelsPool_withLastOrder b d a z
  have hinserted : Inserted b b' d :=
    (relinked_withLastOrder b d a z).inserted (by rw [if_neg hslot, ← hpool]; rfl)
  have hne : ∀ i, ∀ q ∈ ring i, q ≠ b.nextOrderPtr := fun i q hq => h.ne_fresh hq
  have hring := h.isRing (priceToIndex d.price)
  rw [hr] at hring
  have ha : a ∈ ring (priceToIndex d.price) := by simp [hr]
  have hz' : z ∈ ring (priceToIndex d.price) := (h.isRing _).mem_of_prev ha hz
  have hnext' : ∀ q, b'.nextOrder q = if q = b.nextOrderPtr then some a
      else if q = z then some b.nextOrderPtr else b.nextOrder q :=
    fun q => nextOrder_withLastOrder b d a z q
  have hprev' : ∀ q, b'.prevOrder q = if q = b.nextOrderPtr then some z
      else if q = a then some b.nextOrderPtr else b.prevOrder q :=
    fun q => prevOrder_withLastOrder b d a z q (hne _ a ha)
  -- an order of another slot is neither the first nor the last of this one
  have hother : ∀ i, i ≠ priceToIndex d.price → ∀ q ∈ ring i,
      ∀ r ∈ ring (priceToIndex d.price), q ≠ r := by
    rintro i hi q hq r hr' rfl
    exact hi ((h.slotOf i q hq).symm.trans (h.slotOf _ q hr'))
  have hframe : Frame b b' ring (priceToIndex d.price) :=
    { bidHead := (relinked_withLastOrder b d a z).bidHead
      askHead := (relinked_withLastOrder b d a z).askHead
      data := fun i _ q hq => hinserted.other q (hne i q hq)
      next := fun i hi q hq => by
        rw [hnext', if_neg (hne i q hq), if_neg (hother i hi q hq z hz')]
      prev := fun i hi q hq => by
        rw [hprev', if_neg (hne i q hq), if_neg (hother i hi q hq a ha)]
      slot := fun i _ => congrFun htable i
      level := fun _ _ l _ hl => by rw [level, hpool]; exact ⟨hl, rfl⟩ }
  refine ⟨hinserted, h.insert hids hinserted
    ((h.pools.withLastOrder d a z hroom).putClientOrder _ _) hframe
    (l := l) (a := a) ?_ ?_ ?_ ?_ (by simp [hr]) (fun i hi hi' => hi (h.slotInj _ _ l hi' hl)) ?_⟩
  · rw [htable]; exact hl
  · rw [hpool]; exact hlive
  · rw [level, hpool]; exact hfirst
  · rw [level, hpool]; exact hnext
  have hnew : b.nextOrderPtr ∉ a :: t := fun hm => h.fresh _ (hr ▸ hm)
  rw [hr, List.cons_append]
  refine hring.concat hnew hz ?_ ?_ ?_ ?_ ?_ ?_
  · rw [hnext', if_neg (hne _ z hz'), if_pos rfl]
  · rw [hprev', if_pos rfl]
  · rw [hnext', if_pos rfl]
  · rw [hprev', if_neg (hne _ a ha), if_pos rfl]
  · intro y hy hyz
    rw [hnext', if_neg (hne _ y (hr ▸ hy)), if_neg hyz]
  · intro y hy hya
    rw [hprev', if_neg (hne _ y (hr ▸ hy)), if_neg hya]

/-- **Inserting.**  `addOrder` puts the new order last in the ring of its slot. -/
theorem addOrder_slots (h : Slots b ring) (d : OrderData)
    (hids : d.clientId.toNat < meMaxNumClients ∧ d.clientOrderId.toNat < meMaxOrderIds)
    (hroom : b.orderPool.Room) (hlev : b.getPriceLevel d.price = none → b.priceLevelsPool.Room) :
    ∃ b', (b.withOrder d).addOrder b.nextOrderPtr = .ok b' ∧ Inserted b b' d ∧
      Slots b' (Function.update ring (priceToIndex d.price)
        (ring (priceToIndex d.price) ++ [b.nextOrderPtr])) := by
  obtain hr | ⟨a, t, hr⟩ : ring (priceToIndex d.price) = [] ∨
      ∃ a t, ring (priceToIndex d.price) = a :: t := by
    cases ring (priceToIndex d.price) <;> simp
  · have hslot := h.getPriceLevel_none.2 hr
    exact ⟨_, (addOrder_nil h d hslot (hlev hslot)).trans (setClientOrder_eq _ _ hids),
      insert_nil h d hids hroom hslot (hlev hslot)⟩
  · have hring := h.isRing (priceToIndex d.price)
    rw [hr] at hring
    have hz := hring.prev_head
    exact ⟨_, (addOrder_cons h d hr hz).trans (setClientOrder_eq _ _ hids),
      insert_cons h d hids hroom hr hz⟩

/-- Ids outside the table of client orders are noticed last. -/
theorem addOrder_outOfRange (h : Slots b ring) (d : OrderData)
    (hids : ¬ (d.clientId.toNat < meMaxNumClients ∧ d.clientOrderId.toNat < meMaxOrderIds))
    (hlev : b.getPriceLevel d.price = none → b.priceLevelsPool.Room) :
    (b.withOrder d).addOrder b.nextOrderPtr = .error .outOfRange := by
  cases hr : ring (priceToIndex d.price) with
  | nil =>
    have hslot := h.getPriceLevel_none.2 hr
    rw [addOrder_nil h d hslot (hlev hslot), setClientOrder, if_neg hids]
  | cons a t =>
    have hring := h.isRing (priceToIndex d.price)
    rw [hr] at hring
    rw [addOrder_cons h d hr hring.prev_head, setClientOrder, if_neg hids]

/-- The orders of the rings after inserting. -/
theorem mem_inserted (j i : Nat) {p q : Ptr} : q ∈ Function.update ring j (ring j ++ [p]) i ↔
    (i = j ∧ q = p) ∨ q ∈ ring i := by
  by_cases hij : i = j
  · subst hij
    rw [Function.update_self, List.mem_append, List.mem_singleton]
    tauto
  · rw [Function.update_of_ne hij]
    tauto

/-- The orders of the slots after inserting. -/
theorem Slots.ordersIn_inserted (h : Slots b ring) {b' : MEOrderBook} {d : OrderData}
    (hi : Inserted b b' d) (j i : Nat) :
    b'.ordersIn (Function.update ring j (ring j ++ [b.nextOrderPtr])) i =
      if i = j then b.ordersIn ring j ++ [d] else b.ordersIn ring i := by
  have hold : ∀ k, (ring k).map b'.data = (ring k).map b.data := fun k =>
    List.map_congr_left fun q hq => hi.other q (h.ne_fresh hq)
  rw [ordersIn]
  split
  · next hij =>
    subst hij
    rw [Function.update_self, List.map_append, hold, List.map_singleton, hi.self, ordersIn]
  · next hij =>
    rw [Function.update_of_ne hij, hold, ordersIn]

/-- The book's orders after inserting are the old ones and the new one. -/
theorem Slots.exists_mem_inserted (h : Slots b ring) {b' : MEOrderBook} {d e : OrderData}
    (hi : Inserted b b' d) (j : Nat) :
    (∃ i, e ∈ b'.ordersIn (Function.update ring j (ring j ++ [b.nextOrderPtr])) i) ↔
      e = d ∨ ∃ i, e ∈ b.ordersIn ring i := by
  refine ⟨fun ⟨i, he⟩ => ?_, fun he => ?_⟩
  · rw [h.ordersIn_inserted hi] at he
    split at he
    · rcases List.mem_append.1 he with he | he
      · exact Or.inr ⟨j, he⟩
      · exact Or.inl (List.mem_singleton.1 he)
    · exact Or.inr ⟨i, he⟩
  · rcases he with rfl | ⟨i, he⟩
    · refine ⟨j, ?_⟩
      rw [h.ordersIn_inserted hi, if_pos rfl]
      exact List.mem_append_right _ (List.mem_singleton.2 rfl)
    · refine ⟨i, ?_⟩
      rw [h.ordersIn_inserted hi]
      split
      · next hij => exact List.mem_append_left _ (hij ▸ he)
      · exact he

end MEOrderBook
end Exchange
end TradingEcosystem
