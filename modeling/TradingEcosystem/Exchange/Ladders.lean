import TradingEcosystem.Exchange.Fills

/-!
# Ladders

The book as its comments mean it to be: the heads lead to two rings of levels, bids from the highest
price down and asks from the lowest price up, and each level holds the orders at its price.
`Ladders b bids asks ring` is that shape.  No sequence of requests builds it, as a head that is null
stays null, but it is the shape the matching loop is written for.

A fill that leaves some of an order, or takes an order that is not the last of its level, keeps the
shape: `Ladders.fillOrder` and `Ladders.removeFilled`.  The last order of a level takes the level
with it, and there the head is left behind (`removeOrder_last`).
-/

set_option autoImplicit false

namespace TradingEcosystem
namespace Exchange
namespace MEOrderBook

open Ring

/-! ## The shape -/

/-- The level at `l` holds the orders `ring l`, oldest first. -/
structure HoldsOrders (b : MEOrderBook) (ring : Ptr → List Ptr) (l : Ptr) : Prop where
  inUse : b.priceLevelsPool.InUse l
  /-- The price table leads to the level. -/
  inTable : b.getPriceLevel (b.level l).price = some l
  /-- There is an order, and the level is entered at the oldest. -/
  entry : ∃ a t, ring l = a :: t ∧ (b.level l).firstOrder = some a
  /-- The orders are linked in a ring. -/
  isRing : IsRing b.nextOrder b.prevOrder (ring l)
  orderInUse : ∀ p ∈ ring l, b.orderPool.InUse p
  /-- The orders are at the level's price. -/
  price : ∀ p ∈ ring l, (b.data p).price = (b.level l).price
  qty : ∀ p ∈ ring l, (b.data p).qty ≠ 0
  /-- The ids of an order are inside the table of client orders. -/
  idsLt : ∀ p ∈ ring l, (b.data p).clientId.toNat < meMaxNumClients ∧
    (b.data p).clientOrderId.toNat < meMaxOrderIds

/-- The levels of one side, the best first, as they are found from `head`. -/
structure Ladder (b : MEOrderBook) (better : Price → Price → Prop) (head : Option Ptr)
    (ring : Ptr → List Ptr) (levels : List Ptr) : Prop where
  head : head = levels.head?
  isRing : IsRing b.nextLevel b.prevLevel levels
  sorted : levels.Pairwise fun l m => better (b.level l).price (b.level m).price
  level : ∀ l ∈ levels, HoldsOrders b ring l

/-- **A well-formed book**: the bids go strictly down and the asks strictly up from their heads. -/
structure Ladders (b : MEOrderBook) (bids asks : List Ptr) (ring : Ptr → List Ptr) : Prop where
  bids : Ladder b (· > ·) b.bidLevelsHead ring bids
  asks : Ladder b (· < ·) b.askLevelsHead ring asks

variable {b b' : MEOrderBook} {bids asks : List Ptr} {ring ring' : Ptr → List Ptr} {l m p q n : Ptr}

theorem Ladders.level (h : Ladders b bids asks ring) (hl : l ∈ bids ++ asks) :
    HoldsOrders b ring l :=
  (List.mem_append.1 hl).elim (h.bids.level l) (h.asks.level l)

/-- An order finds its level. -/
theorem HoldsOrders.getPriceLevel (h : HoldsOrders b ring l) (hp : p ∈ ring l) :
    b.getPriceLevel (b.data p).price = some l := by
  rw [h.price p hp, h.inTable]

/-- An order is in one level. -/
theorem HoldsOrders.unique (h : HoldsOrders b ring l) (h' : HoldsOrders b ring m)
    (hp : p ∈ ring l) (hp' : p ∈ ring m) : l = m :=
  Option.some_inj.1 ((h.getPriceLevel hp).symm.trans (h'.getPriceLevel hp'))

/-- A level of which nothing changed. -/
theorem HoldsOrders.congr (h : HoldsOrders b ring l)
    (hpool : b'.priceLevelsPool.InUse l ↔ b.priceLevelsPool.InUse l)
    (hlevel : b'.level l = b.level l) (htable : b'.priceLevels = b.priceLevels)
    (hring : ring' l = ring l)
    (hnext : ∀ p ∈ ring l, b'.nextOrder p = b.nextOrder p)
    (hprev : ∀ p ∈ ring l, b'.prevOrder p = b.prevOrder p)
    (hdata : ∀ p ∈ ring l, b'.data p = b.data p)
    (huse : ∀ p ∈ ring l, b'.orderPool.InUse p ↔ b.orderPool.InUse p) :
    HoldsOrders b' ring' l where
  inUse := hpool.2 h.inUse
  inTable := by rw [MEOrderBook.getPriceLevel, htable, hlevel]; exact h.inTable
  entry := by rw [hring, hlevel]; exact h.entry
  isRing := by rw [hring]; exact h.isRing.congr hnext hprev
  orderInUse := fun p hp => (huse p (hring ▸ hp)).2 (h.orderInUse p (hring ▸ hp))
  price := fun p hp => by rw [hdata p (hring ▸ hp), hlevel]; exact h.price p (hring ▸ hp)
  qty := fun p hp => by rw [hdata p (hring ▸ hp)]; exact h.qty p (hring ▸ hp)
  idsLt := fun p hp => by rw [hdata p (hring ▸ hp)]; exact h.idsLt p (hring ▸ hp)

/-- Ladders whose levels keep their places. -/
theorem Ladders.congr (h : Ladders b bids asks ring)
    (hbid : b'.bidLevelsHead = b.bidLevelsHead) (hask : b'.askLevelsHead = b.askLevelsHead)
    (hnext : ∀ l, b'.nextLevel l = b.nextLevel l) (hprev : ∀ l, b'.prevLevel l = b.prevLevel l)
    (hprice : ∀ l, (b'.level l).price = (b.level l).price)
    (hlevel : ∀ l ∈ bids ++ asks, HoldsOrders b' ring' l) : Ladders b' bids asks ring' where
  bids :=
    { head := hbid.trans h.bids.head
      isRing := h.bids.isRing.congr (fun l _ => hnext l) fun l _ => hprev l
      sorted := by simpa only [hprice] using h.bids.sorted
      level := fun l hl => hlevel l (List.mem_append_left _ hl) }
  asks :=
    { head := hask.trans h.asks.head
      isRing := h.asks.isRing.congr (fun l _ => hnext l) fun l _ => hprev l
      sorted := by simpa only [hprice] using h.asks.sorted
      level := fun l hl => hlevel l (List.mem_append_right _ hl) }

/-! ## Filling an order -/

/-- A fill that leaves some of the order. -/
theorem Ladders.fillOrder (h : Ladders b bids asks ring) {fillQty : Qty}
    (hqty : (b.data p).qty - fillQty ≠ 0) : Ladders (b.fillOrder p fillQty) bids asks ring := by
  refine h.congr rfl rfl (fun _ => rfl) (fun _ => rfl) (fun _ => rfl) fun l hl => ?_
  have hold := h.level hl
  have hdata : ∀ q, (b.fillOrder p fillQty).data q = _ := fun q => data_fillOrder b p q fillQty
  exact
    { inUse := hold.inUse
      inTable := hold.inTable
      entry := hold.entry
      isRing := hold.isRing.congr (fun q _ => nextOrder_fillOrder b p q fillQty)
        fun q _ => prevOrder_fillOrder b p q fillQty
      orderInUse := fun q hq =>
        ⟨(hold.orderInUse q hq).1, (live_setOrder b p q _).2 (hold.orderInUse q hq).2⟩
      price := fun q hq => by
        rw [hdata]
        split
        · next hqp => exact hold.price p (hqp ▸ hq)
        · exact hold.price q hq
      qty := fun q hq => by
        rw [hdata]
        split
        · exact hqty
        · exact hold.qty q hq
      idsLt := fun q hq => by
        rw [hdata]
        split
        · next hqp => exact hold.idsLt p (hqp ▸ hq)
        · exact hold.idsLt q hq }

/-- `b'` is `b` without the oldest order `a` of the level at `l`; `z` is its last order and `n` the
one after `a`. -/
structure TakenOut (b b' : MEOrderBook) (l z a n : Ptr) : Prop where
  bidHead : b'.bidLevelsHead = b.bidLevelsHead
  askHead : b'.askLevelsHead = b.askLevelsHead
  data : ∀ q, q ≠ a → b'.data q = b.data q
  size : b'.orderPool.size = b.orderPool.size
  orderInUse : ∀ q, q ≠ a → (b'.orderPool.InUse q ↔ b.orderPool.InUse q)
  slots : b'.priceLevels = b.priceLevels
  level : ∀ m, b'.level m = if m = l then { b.level l with firstOrder := some n } else b.level m
  levelInUse : ∀ m, b'.priceLevelsPool.InUse m ↔ b.priceLevelsPool.InUse m
  next : ∀ q, b'.nextOrder q = if q = z then some n else b.nextOrder q
  prev : ∀ q, b'.prevOrder q = if q = n then some z else b.prevOrder q

theorem takenOut_fillOrder {a z : Ptr} (hfirst : (b.level l).firstOrder = some a)
    (fillQty : Qty) (d : OrderData) :
    TakenOut b (((b.fillOrder a fillQty).withoutOrder a z n l).forget d a) l z a n where
  bidHead := (relinked_withoutOrder (b.fillOrder a fillQty) a z n l).bidHead
  askHead := (relinked_withoutOrder (b.fillOrder a fillQty) a z n l).askHead
  data := fun q hq => by
    rw [data_forget, (relinked_withoutOrder _ a z n l).data, data_fillOrder, if_neg hq]
  size := orderPool_size_withoutOrder (b.fillOrder a fillQty) a z n l
  orderInUse := fun q hq => by
    have hlive := (relinked_withoutOrder (b.fillOrder a fillQty) a z n l).live q
    have hrelease := MemPool.live_release
      ((b.fillOrder a fillQty).withoutOrder a z n l).orderPool a q
    have hfill : (b.fillOrder a fillQty).orderPool.Live q ↔ b.orderPool.Live q :=
      live_setOrder b a q _
    refine and_congr ?_ ?_
    · exact Iff.of_eq (congrArg _ (orderPool_size_withoutOrder (b.fillOrder a fillQty) a z n l))
    · exact hrelease.trans ((and_iff_right hq).trans (hlive.trans hfill))
  slots := priceLevels_withoutOrder (b.fillOrder a fillQty) a z n l
  level := fun m => by
    have hm : (((b.fillOrder a fillQty).withoutOrder a z n l).forget d a).level m =
        if m = l ∧ (b.level l).firstOrder = some a then
          { b.level l with firstOrder := some n } else b.level m :=
      level_withoutOrder (b.fillOrder a fillQty) a z n l m
    simpa [hfirst] using hm
  levelInUse := fun m => by
    have hsize : ((b.fillOrder a fillQty).withoutOrder a z n l).priceLevelsPool.size =
        b.priceLevelsPool.size := by
      rw [withoutOrder]
      split <;> rfl
    refine and_congr (Iff.of_eq (congrArg _ hsize)) ?_
    exact live_level_withoutOrder (b.fillOrder a fillQty) a z n l m
  next := fun q => by rw [nextOrder_forget, nextOrder_withoutOrder, nextOrder_fillOrder]
  prev := fun q => by rw [prevOrder_forget, prevOrder_withoutOrder, prevOrder_fillOrder]

/-- The links around the oldest of several orders. -/
theorem HoldsOrders.links {a : Ptr} {t : List Ptr} (h : HoldsOrders b ring l)
    (hring : ring l = a :: n :: t) :
    ∃ z ∈ n :: t, z ≠ a ∧ b.prevOrder a = some z ∧ b.nextOrder a = some n ∧
      (b.level l).firstOrder = some a := by
  have hir := h.isRing
  rw [hring] at hir
  have hlast : (a :: n :: t).getLast (List.cons_ne_nil a (n :: t)) ∈ n :: t := by
    rw [List.getLast_cons (List.cons_ne_nil n t)]
    exact List.getLast_mem _
  obtain ⟨a', t', hat, hfirst⟩ := h.entry
  refine ⟨_, hlast, fun hza => ?_, hir.prev_head, ?_, ?_⟩
  · exact (List.nodup_cons.1 hir.nodup).1 (hza ▸ hlast)
  · exact (List.isChain_cons_cons.1 (isRing_cons_iff.1 hir).2.1).1.1
  · rw [hfirst, (List.cons.inj (hat.symm.trans hring)).1]

/-- Ladders keep their shape when the oldest of several orders is taken out. -/
theorem Ladders.takenOut (h : Ladders b bids asks ring) (hl : l ∈ bids ++ asks) {a z : Ptr}
    {t : List Ptr} (hring : ring l = a :: n :: t) (hz : z ∈ n :: t)
    (hprev : b.prevOrder a = some z) (ht : TakenOut b b' l z a n) :
    Ladders b' bids asks (Function.update ring l (n :: t)) := by
  have hold := h.level hl
  have hir := hold.isRing
  rw [hring] at hir
  have hna : ∀ q ∈ n :: t, q ≠ a := by
    rintro q hq rfl
    exact (List.nodup_cons.1 hir.nodup).1 hq
  have hmem : ∀ q ∈ n :: t, q ∈ ring l := fun q hq => hring ▸ List.mem_cons_of_mem a hq
  have hlinks : ∀ m, b'.nextLevel m = b.nextLevel m ∧ b'.prevLevel m = b.prevLevel m ∧
      (b'.level m).price = (b.level m).price := fun m => by
    rw [nextLevel, prevLevel, ht.level]
    split
    · next hml => rw [hml]; exact ⟨rfl, rfl, rfl⟩
    · exact ⟨rfl, rfl, rfl⟩
  refine h.congr ht.bidHead ht.askHead (fun m => (hlinks m).1) (fun m => (hlinks m).2.1)
    (fun m => (hlinks m).2.2) fun m hm => ?_
  by_cases hml : m = l
  · subst hml
    have hring' : Function.update ring m (n :: t) m = n :: t := Function.update_self _ _ _
    exact
      { inUse := (ht.levelInUse m).2 hold.inUse
        inTable := by
          rw [MEOrderBook.getPriceLevel, ht.slots, (hlinks m).2.2]
          exact hold.inTable
        entry := ⟨n, t, hring', by rw [ht.level, if_pos rfl]⟩
        isRing := by
          rw [hring']
          exact hir.tail hprev ((ht.next z).trans (if_pos rfl)) ((ht.prev n).trans (if_pos rfl))
            (fun y _ hy => (ht.next y).trans (if_neg hy))
            fun y _ hy => (ht.prev y).trans (if_neg hy)
        orderInUse := fun q hq => by
          rw [hring'] at hq
          exact (ht.orderInUse q (hna q hq)).2 (hold.orderInUse q (hmem q hq))
        price := fun q hq => by
          rw [hring'] at hq
          rw [ht.data q (hna q hq), (hlinks m).2.2]
          exact hold.price q (hmem q hq)
        qty := fun q hq => by
          rw [hring'] at hq
          rw [ht.data q (hna q hq)]
          exact hold.qty q (hmem q hq)
        idsLt := fun q hq => by
          rw [hring'] at hq
          rw [ht.data q (hna q hq)]
          exact hold.idsLt q (hmem q hq) }
  · -- an order of another level is neither the one taken out nor one of its neighbours
    have hne : ∀ q ∈ ring m, ∀ r ∈ ring l, q ≠ r := by
      rintro q hq r hr rfl
      exact hml ((h.level hm).unique hold hq hr)
    have ha : a ∈ ring l := by simp [hring]
    refine (h.level hm).congr (ht.levelInUse m) (by rw [ht.level, if_neg hml]) ht.slots
      (Function.update_of_ne hml _ _) (fun q hq => ?_) (fun q hq => ?_)
      (fun q hq => ht.data q (hne q hq a ha)) fun q hq => ht.orderInUse q (hne q hq a ha)
    · rw [ht.next, if_neg (hne q hq z (hmem z hz))]
    · rw [ht.prev, if_neg (hne q hq n (hmem n List.mem_cons_self))]

/-- A fill that takes the oldest of several orders of a level. -/
theorem Ladders.removeFilled (h : Ladders b bids asks ring) (hl : l ∈ bids ++ asks) {a : Ptr}
    {t : List Ptr} (hring : ring l = a :: n :: t) (fillQty : Qty) :
    ∃ b' z, (b.fillOrder a fillQty).removeOrder a = .ok b' ∧ TakenOut b b' l z a n ∧
      Ladders b' bids asks (Function.update ring l (n :: t)) := by
  have hold := h.level hl
  have ha : a ∈ ring l := by simp [hring]
  obtain ⟨z, hz, hza, hprev, hnext, hfirst⟩ := hold.links hring
  have hself : (b.fillOrder a fillQty).data a =
      { b.data a with qty := (b.data a).qty - fillQty } := by
    rw [data_fillOrder, if_pos rfl]
  have hslot : (b.fillOrder a fillQty).getPriceLevel ((b.fillOrder a fillQty).data a).price =
      some l := by
    rw [hself]
    exact hold.getPriceLevel ha
  have hlive : (b.fillOrder a fillQty).orderPool.Live a :=
    (live_setOrder b a a _).2 (hold.orderInUse a ha).2
  have hids : ((b.fillOrder a fillQty).data a).clientId.toNat < meMaxNumClients ∧
      ((b.fillOrder a fillQty).data a).clientOrderId.toNat < meMaxOrderIds := by
    rw [hself]
    exact hold.idsLt a ha
  have hremove := removeOrder_linked hlive (hold.orderInUse a ha).1 hids hza
    ((prevOrder_fillOrder b a a fillQty).trans hprev)
    ((nextOrder_fillOrder b a a fillQty).trans hnext) hslot
  have ht := takenOut_fillOrder (z := z) (n := n) hfirst fillQty
    ((b.fillOrder a fillQty).data a)
  exact ⟨_, z, hremove, ht, h.takenOut hl hring hz hprev ht⟩

/-! ## The last order of a level -/

/-- A level that is removed is deallocated, and no head moves. -/
theorem removePriceLevel_gone {side : Side} {price : Price} (hl : b.getPriceLevel price = some l)
    (h : b.removePriceLevel side price = .ok b') :
    ¬ b'.priceLevelsPool.Live l ∧ b'.bidLevelsHead = b.bidLevelsHead ∧
      b'.askLevelsHead = b.askLevelsHead := by
  obtain ⟨c, hbid, hask, hc⟩ : ∃ c : MEOrderBook, c.bidLevelsHead = b.bidLevelsHead ∧
      c.askLevelsHead = b.askLevelsHead ∧ c.dropLevel price l = .ok b' := by
    rw [removePriceLevel, hl, nonNull_some, ok_bind] at h
    split at h
    · exact ⟨b, rfl, rfl, h⟩
    · obtain ⟨q, -, h⟩ := bind_eq_ok.1 h
      obtain ⟨n, -, h⟩ := bind_eq_ok.1 h
      exact ⟨(b.setNextPriceLevel q (b.level l).nextPriceLevel).setPrevPriceLevel n
        ((b.setNextPriceLevel q (b.level l).nextPriceLevel).level l).prevPriceLevel, rfl, rfl, h⟩
  obtain ⟨-, -, rfl⟩ := dropLevel_eq_ok.1 hc
  exact ⟨fun hlive => ((MemPool.live_release _ l l).1 hlive).1 rfl, hbid, hask⟩

/-- **The head is left behind.**  The last order of a level takes the level with it, and a head
that led to the level still does. -/
theorem HoldsOrders.removeOrder_last (h : HoldsOrders b ring l) {a : Ptr} (hring : ring l = [a])
    {fillQty : Qty} (hb : (b.fillOrder a fillQty).removeOrder a = .ok b') :
    ¬ b'.priceLevelsPool.Live l ∧ b'.bidLevelsHead = b.bidLevelsHead ∧
      b'.askLevelsHead = b.askLevelsHead := by
  obtain ⟨c, hc, rfl⟩ := removeOrder_eq_ok hb
  have hir := h.isRing
  rw [hring, isRing_singleton] at hir
  rw [unlinkOrder_alone ((prevOrder_fillOrder b a a fillQty).trans hir.2)] at hc
  have hslot : (b.fillOrder a fillQty).getPriceLevel ((b.fillOrder a fillQty).data a).price =
      some l := by
    rw [data_fillOrder, if_pos rfl]
    exact h.getPriceLevel (by simp [hring])
  obtain ⟨hgone, hbid, hask⟩ := removePriceLevel_gone hslot hc
  exact ⟨hgone, hbid, hask⟩

end MEOrderBook
end Exchange
end TradingEcosystem
