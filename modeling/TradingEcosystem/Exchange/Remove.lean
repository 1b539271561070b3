import TradingEcosystem.Exchange.Slots

/-!
# Removing an order

`removeOrder` on a book of rings.  The order is alone and its level goes with it (`withoutLevel`),
or it has neighbours, which are linked to each other (`withoutOrder`); both take the order out of
the ring of its slot and leave every other slot alone.
-/

set_option autoImplicit false

namespace TradingEcosystem
namespace Exchange
namespace MEOrderBook

open Ring

variable {b : MEOrderBook} {ring : Nat → List Ptr}

/-- What `removeOrder` leaves outside the shape: `b'` is `b` without the order at `p`. -/
structure Removed (b b' : MEOrderBook) (p : Ptr) : Prop where
  data : ∀ q, b'.data q = b.data q
  live : ∀ q, b'.orderPool.Live q ↔ q ≠ p ∧ b.orderPool.Live q
  table : b'.clientOrders = Function.update b.clientOrders (b.data p).clientId
    (Function.update (b.clientOrders (b.data p).clientId) (b.data p).clientOrderId none)
  orderNext : b'.orderPool.nextFreeIndex = b.orderPool.nextFreeIndex
  levelNext : b'.priceLevelsPool.nextFreeIndex = b.priceLevelsPool.nextFreeIndex
  marketOrderId : b'.nextMarketOrderId = b.nextMarketOrderId
  stackRoom : b'.stackRoom = b.stackRoom

/-- The last three statements of `removeOrder`: the client's entry and the block are given up. -/
def forgetting (c : MEOrderBook) (d : OrderData) (p : Ptr) : Except Fault MEOrderBook := do
  let b ← c.setClientOrder d.clientId d.clientOrderId none
  let pool ← b.orderPool.deallocate p
  return b.withOrderPool pool

/-- The book they leave when the ids and the block are good. -/
def forget (c : MEOrderBook) (d : OrderData) (p : Ptr) : MEOrderBook :=
  (c.putClientOrder d none).withOrderPool (c.orderPool.release p)

theorem Relinked.removed {c : MEOrderBook} {p : Ptr} (h : Relinked b c)
    (hlev : c.priceLevelsPool.nextFreeIndex = b.priceLevelsPool.nextFreeIndex) :
    Removed b (c.forget (b.data p) p) p where
  data := fun q => by
    rw [← h.data q]
    exact congrArg MEOrder.toOrderData (MemPool.get_release c.orderPool p q)
  live := fun q => by
    rw [← h.live q]
    exact MemPool.live_release c.orderPool p q
  table := by rw [← h.clientOrders]; rfl
  orderNext := h.orderNext
  levelNext := hlev
  marketOrderId := h.marketOrderId
  stackRoom := h.stackRoom

theorem Pools.forget {c : MEOrderBook} (h : Pools c) (d : OrderData) (p : Ptr) :
    Pools (c.forget d p) :=
  { h with orderFrontier := h.orderFrontier.release p }

theorem Pools.lt_size {c : MEOrderBook} (h : Pools c) {p : Ptr} (hlive : c.orderPool.Live p) :
    p < c.orderPool.size := by
  rw [h.orderSize]
  exact (h.orderFrontier.lt_of_live hlive).trans h.orderNext

theorem forget_eq {c : MEOrderBook} {d : OrderData} {p : Ptr}
    (hids : d.clientId.toNat < meMaxNumClients ∧ d.clientOrderId.toNat < meMaxOrderIds)
    (hlive : c.orderPool.Live p) (hlt : p < c.orderPool.size) :
    c.forgetting d p = .ok (c.forget d p) := by
  have hpool : (c.putClientOrder d none).orderPool = c.orderPool := rfl
  rw [forgetting, setClientOrder_eq c none hids, ok_bind, hpool, MemPool.deallocate_eq hlive hlt,
    ok_bind, pure_eq_ok, forget]

/-- Clearing the entry of the order that was removed keeps the table sound. -/
theorem table_remove (h : Slots b ring) {b' : MEOrderBook} {p : Ptr} (hr : Removed b b' p)
    (c : ClientId) (o : OrderId) (q : Ptr) (hq : b'.clientOrders c o = some q) :
    b'.orderPool.Live q ∧ (b'.data q).clientId = c ∧ (b'.data q).clientOrderId = o := by
  rw [hr.live, hr.data]
  rw [hr.table] at hq
  by_cases hco : c = (b.data p).clientId ∧ o = (b.data p).clientOrderId
  · obtain ⟨rfl, rfl⟩ := hco
    simp at hq
  · have hold : b.clientOrders c o = some q := by
      by_cases hc : c = (b.data p).clientId
      · subst hc
        have ho : o ≠ (b.data p).clientOrderId := fun ho => hco ⟨rfl, ho⟩
        simpa [ho] using hq
      · simpa [hc] using hq
    obtain ⟨hl, hc, ho⟩ := h.table c o q hold
    refine ⟨⟨?_, hl⟩, hc, ho⟩
    rintro rfl
    exact hco ⟨hc.symm, ho.symm⟩

/-- The order leaves its slot, whether others stay or not. -/
theorem Slots.remove (h : Slots b ring) {i : Nat} {p : Ptr} {b' : MEOrderBook} (hp : p ∈ ring i)
    (hr : Removed b b' p) (hpools : Pools b') (hf : Frame b b' ring i)
    (hnil : (ring i).erase p = [] → b'.priceLevels i = none)
    (hcons : ∀ a t, (ring i).erase p = a :: t → ∃ l, b.priceLevels i = some l ∧
      b'.priceLevels i = some l ∧ b'.priceLevelsPool.Live l ∧ (b'.level l).firstOrder = some a ∧
      (b'.level l).nextPriceLevel = some l)
    (hring : IsRing b'.nextOrder b'.prevOrder ((ring i).erase p)) :
    Slots b' (Function.update ring i ((ring i).erase p)) := by
  have hmem : ∀ q ∈ (ring i).erase p, q ∈ ring i := fun q hq => List.mem_of_mem_erase hq
  refine h.update hf hnil ?_ ?_ hring ?_ ?_ ?_ (table_remove h hr) hpools
  · intro a t hat
    obtain ⟨l, -, hl⟩ := hcons a t hat
    exact ⟨l, hl⟩
  · intro k hk l hl hkl
    cases he : (ring i).erase p with
    | nil => rw [hnil he] at hl; exact absurd hl (by simp)
    | cons a t =>
      obtain ⟨m, hm, hm', -⟩ := hcons a t he
      rw [hl, Option.some_inj] at hm'
      exact hk (h.slotInj k i l hkl (hm' ▸ hm))
  · intro q hq
    rw [hr.data]; exact h.slotOf i q (hmem q hq)
  · intro q
    rw [hr.live, h.live, (h.isRing i).nodup.mem_erase_iff]
    constructor
    · rintro ⟨hqp, k, hq⟩
      by_cases hki : k = i
      · exact Or.inl ⟨hqp, hki ▸ hq⟩
      · exact Or.inr ⟨k, hki, hq⟩
    · rintro (⟨hqp, hq⟩ | ⟨k, hki, hq⟩)
      · exact ⟨hqp, i, hq⟩
      · refine ⟨?_, k, hq⟩
        rintro rfl
        exact hki ((h.slotOf k q hq).symm.trans (h.slotOf i q hp))
  · intro q hq
    rw [hr.data]; exact h.idsLt i q (hmem q hq)

/-- The book `removeOrder` builds when the order was alone, before it is forgotten. -/
def withoutLevel (b : MEOrderBook) (price : Price) (l : Ptr) : MEOrderBook :=
  (b.setPriceLevel price none).withLevelsPool (b.priceLevelsPool.release l)

/-- The book `removeOrder` builds when the neighbours `q` and `n` of the order `p` stay, before it
is forgotten. -/
def withoutOrder (b : MEOrderBook) (p q n l : Ptr) : MEOrderBook :=
  let c := (b.setNextOrder q (some n)).setPrevOrder n (some q)
  if (b.level l).firstOrder = some p then c.setFirstOrder l (some n) else c

theorem relinked_withoutLevel (b : MEOrderBook) (price : Price) (l : Ptr) :
    Relinked b (b.withoutLevel price l) :=
  (relinked_setPriceLevel _ _ _).trans (relinked_withLevelsPool _ _)

theorem relinked_withoutOrder (b : MEOrderBook) (p q n l : Ptr) :
    Relinked b (b.withoutOrder p q n l) := by
  have hc := (relinked_setNextOrder b q (some n)).trans (relinked_setPrevOrder _ n (some q))
  rw [withoutOrder]
  split
  · exact hc.trans (relinked_setLevel _ _ _)
  · exact hc

theorem Pools.withoutLevel (h : Pools b) (price : Price) (l : Ptr) :
    Pools (b.withoutLevel price l) :=
  { h with levelFrontier := h.levelFrontier.release l }

theorem Pools.withoutOrder (h : Pools b) (p q n l : Ptr) : Pools (b.withoutOrder p q n l) := by
  have hc := Pools.setOrder (Pools.setOrder h q fun o => { o with nextOrder := some n }) n
    fun o => { o with prevOrder := some q }
  rw [MEOrderBook.withoutOrder]
  split
  · exact hc.setLevel _ _
  · exact hc

/-- The first part of `removeOrder`: the order, or its level with it, is unlinked. -/
def unlinkOrder (b : MEOrderBook) (p : Ptr) : Except Fault MEOrderBook :=
  let o := b.order p
  if o.prevOrder = some p then removePriceLevel b o.side o.price
  else do
    let prev ← nonNull o.prevOrder
    let next ← nonNull o.nextOrder
    let b := b.setNextOrder prev (some next)
    let b := b.setPrevOrder next (some prev)
    let priceLevel ← nonNull (b.getPriceLevel o.price)
    if (b.level priceLevel).firstOrder = some p then
      pure (b.setFirstOrder priceLevel (some next))
    else pure b

theorem removeOrder_eq (b : MEOrderBook) (p : Ptr) :
    b.removeOrder p = b.unlinkOrder p >>= fun c => c.forgetting (b.data p) p := by
  rw [removeOrder, unlinkOrder]
  simp only
  split
  · rfl
  · simp only [bind_assoc]
    refine bind_congr fun prev => bind_congr fun next => bind_congr fun l => ?_
    split <;> rfl

/-- An order that is alone takes its level with it. -/
theorem unlinkOrder_alone {p : Ptr} (hprev : b.prevOrder p = some p) :
    b.unlinkOrder p = b.removePriceLevel (b.data p).side (b.data p).price := if_pos hprev

theorem removeOrder_alone (h : Slots b ring) {p l : Ptr} (hlive : b.orderPool.Live p)
    (hids : (b.data p).clientId.toNat < meMaxNumClients ∧
      (b.data p).clientOrderId.toNat < meMaxOrderIds)
    (hprev : b.prevOrder p = some p) (hl : b.getPriceLevel (b.data p).price = some l)
    (hlevel : b.priceLevelsPool.Live l) (hnext : (b.level l).nextPriceLevel = some l) :
    b.removeOrder p =
      .ok ((b.withoutLevel (b.data p).price l).forget (b.data p) p) := by
  have hlt : l < b.priceLevelsPool.size := by
    rw [h.pools.levelSize]
    exact (h.pools.levelFrontier.lt_of_live hlevel).trans h.pools.levelNext
  have hremove : b.removePriceLevel (b.data p).side (b.data p).price =
      .ok (b.withoutLevel (b.data p).price l) := by
    have hpool : (b.setPriceLevel (b.data p).price none).priceLevelsPool = b.priceLevelsPool := rfl
    rw [removePriceLevel, hl, nonNull_some, ok_bind, if_pos hnext, pure_eq_ok, ok_bind]
    simp only [hpool, MemPool.deallocate_eq hlevel hlt, ok_bind, pure_eq_ok, withoutLevel]
  rw [removeOrder_eq, unlinkOrder_alone hprev, hremove, ok_bind]
  exact forget_eq hids (((relinked_withoutLevel b (b.data p).price l).live p).2 hlive)
    (h.pools.lt_size hlive)

/-- The neighbours of an order that is not alone are linked to each other. -/
theorem unlinkOrder_linked {p q n l : Ptr} (hne : q ≠ p) (hprev : b.prevOrder p = some q)
    (hnext : b.nextOrder p = some n) (hl : b.getPriceLevel (b.data p).price = some l) :
    b.unlinkOrder p = .ok (b.withoutOrder p q n l) := by
  have hprev' : (b.order p).prevOrder = some q := hprev
  have hnext' : (b.order p).nextOrder = some n := hnext
  have hne' : (some q : Option Ptr) ≠ some p := fun he => hne (Option.some_inj.1 he)
  set c := (b.setNextOrder q (some n)).setPrevOrder n (some q) with hc
  have hl' : c.getPriceLevel (b.order p).price = some l := hl
  have hwithout : b.withoutOrder p q n l =
      if (c.level l).firstOrder = some p then c.setFirstOrder l (some n) else c := rfl
  rw [unlinkOrder, hwithout]
  simp only [hprev', hnext', if_neg hne', nonNull_some, ok_bind, ← hc, hl']
  split <;> rfl

theorem orderPool_size_withoutOrder (b : MEOrderBook) (p q n l : Ptr) :
    (b.withoutOrder p q n l).orderPool.size = b.orderPool.size := by
  rw [withoutOrder]
  split <;> rfl

theorem removeOrder_linked {p q n l : Ptr} (hlive : b.orderPool.Live p)
    (hlt : p < b.orderPool.size)
    (hids : (b.data p).clientId.toNat < meMaxNumClients ∧
      (b.data p).clientOrderId.toNat < meMaxOrderIds)
    (hne : q ≠ p) (hprev : b.prevOrder p = some q) (hnext : b.nextOrder p = some n)
    (hl : b.getPriceLevel (b.data p).price = some l) :
    b.removeOrder p = .ok ((b.withoutOrder p q n l).forget (b.data p) p) := by
  rw [removeOrder_eq, unlinkOrder_linked hne hprev hnext hl, ok_bind]
  exact forget_eq hids (((relinked_withoutOrder b p q n l).live p).2 hlive)
    (orderPool_size_withoutOrder b p q n l ▸ hlt)

/-! ## The two books `removeOrder` builds -/

section Without

variable (b : MEOrderBook) (d : OrderData) (p q n l m y : Ptr)

@[simp] theorem nextOrder_forget : (b.forget d p).nextOrder y = b.nextOrder y :=
  congrArg MEOrder.nextOrder (MemPool.get_release b.orderPool p y)

@[simp] theorem prevOrder_forget : (b.forget d p).prevOrder y = b.prevOrder y :=
  congrArg MEOrder.prevOrder (MemPool.get_release b.orderPool p y)

theorem orderPool_withoutOrder : (b.withoutOrder p q n l).orderPool =
    ((b.setNextOrder q (some n)).setPrevOrder n (some q)).orderPool := by
  rw [withoutOrder]
  split <;> rfl

@[simp] theorem nextOrder_withoutOrder :
    (b.withoutOrder p q n l).nextOrder y = if y = q then some n else b.nextOrder y := by
  rw [nextOrder, order, orderPool_withoutOrder, ← order, ← nextOrder, nextOrder_setPrevOrder,
    nextOrder_setNextOrder]

@[simp] theorem prevOrder_withoutOrder :
    (b.withoutOrder p q n l).prevOrder y = if y = n then some q else b.prevOrder y := by
  rw [prevOrder, order, orderPool_withoutOrder, ← order, ← prevOrder, prevOrder_setPrevOrder,
    prevOrder_setNextOrder]

theorem priceLevels_withoutOrder : (b.withoutOrder p q n l).priceLevels = b.priceLevels := by
  rw [withoutOrder]
  split <;> rfl

theorem live_level_withoutOrder :
    (b.withoutOrder p q n l).priceLevelsPool.Live m ↔ b.priceLevelsPool.Live m := by
  rw [withoutOrder]
  split
  · exact MemPool.live_modify b.priceLevelsPool l m fun l => { l with firstOrder := some n }
  · exact Iff.rfl

theorem level_withoutOrder : (b.withoutOrder p q n l).level m =
    if m = l ∧ (b.level l).firstOrder = some p then { b.level l with firstOrder := some n }
      else b.level m := by
  rw [withoutOrder]
  split
  · next h =>
    have hget := MemPool.get_modify b.priceLevelsPool l m fun l => { l with firstOrder := some n }
    simp only [h, and_true]
    exact hget
  · next h =>
    simp only [h, and_false, if_false]
    rfl

end Without

/-- The last order of a slot takes the level with it. -/
theorem remove_alone (h : Slots b ring) {i : Nat} {p l : Ptr} (hring : ring i = [p])
    (hl : b.priceLevels i = some l) :
    let b' := (b.withoutLevel (b.data p).price l).forget (b.data p) p
    Removed b b' p ∧ Slots b' (Function.update ring i ((ring i).erase p)) := by
  intro b'
  have hp : p ∈ ring i := by simp [hring]
  have hremoved : Removed b b' p := (relinked_withoutLevel b (b.data p).price l).removed rfl
  have htable : b'.priceLevels = Function.update b.priceLevels i none := by
    rw [← h.slotOf i p hp]; rfl
  have hpool : b'.priceLevelsPool = b.priceLevelsPool.release l := rfl
  have hempty : (ring i).erase p = [] := by simp [hring]
  have hframe : Frame b b' ring i :=
    { bidHead := rfl
      askHead := rfl
      data := fun _ _ q _ => hremoved.data q
      next := fun _ _ q _ => nextOrder_forget _ _ _ _
      prev := fun _ _ q _ => prevOrder_forget _ _ _ _
      slot := fun k hk => by rw [htable, Function.update_of_ne hk]
      level := fun k hk m hm hlive => by
        have hml : m ≠ l := by
          rintro rfl
          exact hk (h.slotInj k i m hm hl)
        rw [level, hpool]
        exact ⟨(MemPool.live_release _ _ _).2 ⟨hml, hlive⟩, MemPool.get_release _ _ _⟩ }
  refine ⟨hremoved, h.remove hp hremoved ((h.pools.withoutLevel _ l).forget _ p) hframe ?_ ?_ ?_⟩
  · intro _
    rw [htable, Function.update_self]
  · intro a t hat
    rw [hempty] at hat
    exact absurd hat (by simp)
  · rw [hempty]
    exact ⟨List.nodup_nil, Cycle.Chain.nil _⟩

/-- The level is entered at the oldest of the orders that stay. -/
theorem firstOrder_withoutOrder {p q n l a c : Ptr} {s t : List Ptr}
    (h : IsRing b.nextOrder b.prevOrder (a :: t)) (hnext : b.nextOrder p = some n)
    (hfirst : (b.level l).firstOrder = some a) (he : (a :: t).erase p = c :: s) :
    ((b.withoutOrder p q n l).level l).firstOrder = some c := by
  rw [level_withoutOrder, h.head_erase hnext he]
  by_cases hap : a = p
  · rw [if_pos ⟨rfl, hap ▸ hfirst⟩, if_pos hap]
  · have hne : ¬ (l = l ∧ (b.level l).firstOrder = some p) := by simp [hfirst, hap]
    rw [if_neg hne, if_neg hap, hfirst]

/-- The neighbours of the order are linked to each other, and the level is entered at the next
order when it was entered at this one. -/
theorem remove_linked (h : Slots b ring) {i : Nat} {p q n l : Ptr} (hp : p ∈ ring i)
    (hq : q ∈ ring i) (hn : n ∈ ring i) (hne : q ≠ p) (hprev : b.prevOrder p = some q)
    (hnext : b.nextOrder p = some n) (hl : b.priceLevels i = some l) :
    let b' := (b.withoutOrder p q n l).forget (b.data p) p
    Removed b b' p ∧ Slots b' (Function.update ring i ((ring i).erase p)) := by
  intro b'
  have htable : b'.priceLevels = b.priceLevels := priceLevels_withoutOrder b p q n l
  have hlevel : ∀ m, b'.level m = _ := fun m => level_withoutOrder b p q n l m
  have hlive' : ∀ m, b'.priceLevelsPool.Live m ↔ _ := fun m => live_level_withoutOrder b p q n l m
  have hremoved : Removed b b' p := by
    refine (relinked_withoutOrder b p q n l).removed ?_
    rw [withoutOrder]
    split <;> rfl
  have hnext' : ∀ y, b'.nextOrder y = if y = q then some n else b.nextOrder y := fun y =>
    (nextOrder_forget _ _ _ _).trans (nextOrder_withoutOrder b p q n l y)
  have hprev' : ∀ y, b'.prevOrder y = if y = n then some q else b.prevOrder y := fun y =>
    (prevOrder_forget _ _ _ _).trans (prevOrder_withoutOrder b p q n l y)
  -- an order of another slot is not a neighbour of `p`
  have hother : ∀ k, k ≠ i → ∀ y ∈ ring k, ∀ r ∈ ring i, y ≠ r := by
    rintro k hk y hy r hr rfl
    exact hk ((h.slotOf k y hy).symm.trans (h.slotOf i y hr))
  have hframe : Frame b b' ring i :=
    { bidHead := (relinked_withoutOrder b p q n l).bidHead
      askHead := (relinked_withoutOrder b p q n l).askHead
      data := fun _ _ y _ => hremoved.data y
      next := fun k hk y hy => (hnext' y).trans (if_neg (hother k hk y hy q hq))
      prev := fun k hk y hy => (hprev' y).trans (if_neg (hother k hk y hy n hn))
      slot := fun k _ => congrFun htable k
      level := fun k hk m hm hlive => by
        have hml : m ≠ l := by
          rintro rfl
          exact hk (h.slotInj k i m hm hl)
        rw [hlive', hlevel]
        simp [hml, hlive] }
  obtain ⟨a, t, hr, hlive, hfirst, hself⟩ := h.level_of_slot hl
  refine ⟨hremoved, h.remove hp hremoved ((h.pools.withoutOrder p q n l).forget _ p) hframe
    ?_ ?_ ?_⟩
  · intro hnil
    have hqe : q ∈ (ring i).erase p := ((h.isRing i).nodup.mem_erase_iff).2 ⟨hne, hq⟩
    rw [hnil] at hqe
    exact absurd hqe (by simp)
  · intro a' t' hat
    refine ⟨l, hl, htable ▸ hl, (hlive' l).2 hlive, ?_, ?_⟩
    · exact firstOrder_withoutOrder (hr ▸ h.isRing i) hnext hfirst (hr ▸ hat)
    · rw [hlevel]
      split
      · exact hself
      · exact hself
  · refine (h.isRing i).erase hp hprev hnext hne ?_ ?_ ?_ ?_
    · rw [hnext', if_pos rfl]
    · rw [hprev', if_pos rfl]
    · exact fun y _ hy => (hnext' y).trans (if_neg hy)
    · exact fun y _ hy => (hprev' y).trans (if_neg hy)

/-- The two ways a call of `removeOrder` goes: the order was alone in its slot, or it had
neighbours. -/
theorem removeOrder_cases (h : Slots b ring) {i : Nat} {p : Ptr} (hp : p ∈ ring i) :
    ∃ l, b.priceLevels i = some l ∧ (ring i = [p] ∧
        b.removeOrder p = .ok ((b.withoutLevel (b.data p).price l).forget (b.data p) p) ∨
      ∃ q ∈ ring i, ∃ n ∈ ring i, q ≠ p ∧ b.prevOrder p = some q ∧ b.nextOrder p = some n ∧
        b.removeOrder p = .ok ((b.withoutOrder p q n l).forget (b.data p) p)) := by
  obtain ⟨a, t, hr⟩ : ∃ a t, ring i = a :: t := List.exists_cons_of_ne_nil (List.ne_nil_of_mem hp)
  obtain ⟨l, hl, hlive, -, hself⟩ := h.slotCons i a t hr
  have hl' : b.getPriceLevel (b.data p).price = some l := by
    rw [getPriceLevel, h.slotOf i p hp]; exact hl
  obtain ⟨q, hq, n, hn, hprev, hnext⟩ := (h.isRing i).links_mem hp
  refine ⟨l, hl, ?_⟩
  by_cases hqp : q = p
  · subst hqp
    exact Or.inl ⟨(h.isRing i).eq_singleton hp hprev,
      removeOrder_alone h (h.live_of_mem hp) (h.idsLt i q hp) hprev hl' hlive hself⟩
  · exact Or.inr ⟨q, hq, n, hn, hqp, hprev, hnext,
      removeOrder_linked (h.live_of_mem hp) (h.pools.lt_size (h.live_of_mem hp)) (h.idsLt i p hp)
        hqp hprev hnext hl'⟩

/-- **Removing.**  `removeOrder` takes the order out of the ring of its slot. -/
theorem removeOrder_slots (h : Slots b ring) {i : Nat} {p : Ptr} (hp : p ∈ ring i) :
    ∃ b', b.removeOrder p = .ok b' ∧ Removed b b' p ∧
      Slots b' (Function.update ring i ((ring i).erase p)) := by
  obtain ⟨l, hl, ⟨hring, hb⟩ | ⟨q, hq, n, hn, hqp, hprev, hnext, hb⟩⟩ := removeOrder_cases h hp
  · exact ⟨_, hb, remove_alone h hring hl⟩
  · exact ⟨_, hb, remove_linked h hp hq hn hqp hprev hnext hl⟩

/-- The rings after an order is taken out: each without it. -/
theorem Slots.update_erase (h : Slots b ring) {i : Nat} {p : Ptr} (hp : p ∈ ring i) (j : Nat) :
    Function.update ring i ((ring i).erase p) j = (ring j).erase p := by
  by_cases hji : j = i
  · rw [hji, Function.update_self]
  · have hpj : p ∉ ring j := fun hpj => hji ((h.slotOf j p hpj).symm.trans (h.slotOf i p hp))
    rw [Function.update_of_ne hji, List.erase_of_not_mem hpj]

/-- The orders of the rings after removing. -/
theorem Slots.mem_removed (h : Slots b ring) {i : Nat} {p : Ptr} (hp : p ∈ ring i) (j : Nat)
    (q : Ptr) : q ∈ Function.update ring i ((ring i).erase p) j ↔ q ∈ ring j ∧ q ≠ p := by
  rw [h.update_erase hp, (h.isRing j).nodup.mem_erase_iff, and_comm]

/-- The orders of the slots after removing, by any key that tells the order from the others. -/
theorem Slots.ordersIn_removed {κ : Type} [DecidableEq κ] (key : OrderData → κ) (h : Slots b ring)
    {b' : MEOrderBook} {j : Nat} {p : Ptr} (hp : p ∈ ring j) (hr : Removed b b' p)
    (hkey : ∀ i, ∀ q ∈ ring i, key (b.data q) = key (b.data p) → q = p) (i : Nat) :
    b'.ordersIn (Function.update ring j ((ring j).erase p)) i =
      (b.ordersIn ring i).filter fun d => key d ≠ key (b.data p) := by
  have hdata : b'.data = b.data := funext hr.data
  have hfilter : (ring i).filter (fun q => key (b.data q) ≠ key (b.data p)) =
      (ring i).filter fun q => q != p := by
    refine List.filter_congr fun q hq => ?_
    rw [Bool.eq_iff_iff, decide_eq_true_iff, bne_iff_ne]
    exact not_congr ⟨hkey i q hq, fun hqp => hqp ▸ rfl⟩
  rw [ordersIn, ordersIn, hdata, List.filter_map, h.update_erase hp,
    (h.isRing i).nodup.erase_eq_filter]
  exact congrArg (List.map b.data) hfilter.symm

end MEOrderBook
end Exchange
end TradingEcosystem
