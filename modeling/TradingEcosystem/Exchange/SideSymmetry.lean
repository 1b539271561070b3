import TradingEcosystem.Exchange.Fills
import TradingEcosystem.Exchange.Reflect

/-!
# The two sides are mirror images

Every function of the book that treats buy and sell apart is gone through twice, on a book and on
its mirror image: the runs agree, and the results are mirror images again.  `Images` is the
relation the runs keep; the rules of `TwoRuns` are the steps.
-/

set_option autoImplicit false

namespace TradingEcosystem
namespace Exchange
namespace MEOrderBook

open TwoRuns

variable {K price : Price} {b b' : MEOrderBook} {O L : Set Ptr} {l m p q : Ptr} {v : Option Ptr}

/-- The second book is the mirror image of the first, which has one. -/
def Images (K : Price) (O L : Set Ptr) (b b' : MEOrderBook) : Prop :=
  b' = b.reflect K ∧ Quotes K b O L

theorem Quotes.images (h : Quotes K b O L) : Images K O L b (b.reflect K) := ⟨rfl, h⟩

/-- Both runs follow the same pointer. -/
theorem agree_nonNull {α β : Type} {S : α → β → Prop} {x : Option Ptr} {f : Ptr → Except Fault α}
    {g : Ptr → Except Fault β} (h : ∀ p, x = some p → Agree S (f p) (g p)) :
    Agree S (nonNull x >>= f) (nonNull x >>= g) := by
  cases x with
  | none => exact rfl
  | some p => exact h p rfl

theorem mem_of_some {M : Set Ptr} (hp : p ∈ M) : ∀ q, some p = some q → q ∈ M :=
  fun _ hq => Option.some_inj.1 hq ▸ hp

/-! ## Levels -/

section Insertion

variable {past past' : Price → Prop} [DecidablePred past] [DecidablePred past']

/-- The loop over the levels stops at the same one. -/
theorem Quotes.seekLevel (h : Quotes K b O L)
    (ha : ∀ r, PriceIn K r → (past r ↔ past' (reflectPrice K r))) (head : Ptr) (fuel : Nat)
    (hp : p ∈ L) : Agree (fun l l' => l' = l ∧ l ∈ L) (b.seekLevel (fun r => past r) head fuel p)
      ((b.reflect K).seekLevel (fun r => past' r) head fuel p) := by
  induction fuel generalizing p with
  | zero => exact rfl
  | succ fuel ih =>
    have hlevel := h.level p hp
    rw [MEOrderBook.seekLevel, MEOrderBook.seekLevel]
    simp only [level_reflect, MEOrderAtPriceLevel.reflect_price, decide_eq_true_eq,
      MEOrderAtPriceLevel.reflect_nextPriceLevel]
    refine Agree.ite (and_congr_left fun _ => (ha _ hlevel.price).trans decide_eq_true_iff.symm)
      (fun _ => ?_) fun _ => ?_
    · exact agree_nonNull fun n hn => ih (hlevel.next n hn)
    · exact ⟨rfl, hp⟩

theorem Quotes.linkLevelBefore (h : Quotes K b O L) (hl : l ∈ L) (hp : p ∈ L) :
    Agree (Images K O L) (b.linkLevelBefore l p) ((b.reflect K).linkLevelBefore l p) := by
  have h₁ := h.setNextPriceLevel l (mem_of_some hp)
  have h₂ := h₁.setPrevPriceLevel l (h₁.level p hp).prev
  rw [MEOrderBook.linkLevelBefore, MEOrderBook.linkLevelBefore]
  simp only [setNextPriceLevel_reflect, setPrevPriceLevel_reflect, level_reflect,
    MEOrderAtPriceLevel.reflect_prevPriceLevel]
  refine agree_nonNull fun n hn => ?_
  exact ((h₂.setNextPriceLevel n (mem_of_some hl)).setPrevPriceLevel p (mem_of_some hl)).images

/-- The branch of `addOrdersAtPrice` for a ladder that is not empty: its side brings the comparison
and says which head is moved. -/
theorem Quotes.insertLevel (h : Quotes K b O L)
    (ha : ∀ r, PriceIn K r → (past r ↔ past' (reflectPrice K r))) {head : Ptr} (fuel : Nat)
    (hl : l ∈ L) (hhead : head ∈ L) {put put' : MEOrderBook → MEOrderBook}
    (hput : ∀ c, Quotes K c O L → Images K O L (put c) (put' (c.reflect K))) :
    Agree (Images K O L)
      (do
        let current ← b.seekLevel (fun r => past r) head fuel head
        let b ← b.linkLevelBefore l current
        if past (b.level head).price then return put b else return b)
      (do
        let current ← (b.reflect K).seekLevel (fun r => past' r) head fuel head
        let b ← (b.reflect K).linkLevelBefore l current
        if past' (b.level head).price then return put' b else return b) := by
  refine (h.seekLevel ha head fuel hhead).bind fun c c' hc => ?_
  obtain ⟨rfl, hc⟩ := hc
  refine (h.linkLevelBefore hl hc).bind fun d d' hd => ?_
  obtain ⟨rfl, hd⟩ := hd
  refine Agree.ite (ha _ (hd.level head hhead).price) (fun _ => ?_) fun _ => hd.images
  exact hput d hd

end Insertion

/-- A level goes into the ladder of the other side at the same place. -/
theorem Quotes.addOrdersAtPrice (h : Quotes K b O L) (hl : l ∈ L) :
    Agree (Images K O L) (b.addOrdersAtPrice l) ((b.reflect K).addOrdersAtPrice l) := by
  have hlevel := h.level l hl
  -- a comparison of prices turns round, so each side's test is the other's
  have hgt : ∀ r, PriceIn K r →
      ((b.level l).price > r ↔ reflectPrice K (b.level l).price < reflectPrice K r) :=
    fun r hr => (hlevel.price.reflect_lt hr).symm
  have hlt : ∀ r, PriceIn K r →
      ((b.level l).price < r ↔ reflectPrice K (b.level l).price > reflectPrice K r) :=
    fun r hr => (hr.reflect_lt hlevel.price).symm
  have hc := h.setPriceLevel (b.level l).price (mem_of_some hl)
  have hfirst := (hc.setPrevPriceLevel l (mem_of_some hl)).setNextPriceLevel l (mem_of_some hl)
  rw [MEOrderBook.addOrdersAtPrice, MEOrderBook.addOrdersAtPrice]
  simp only [level_reflect, MEOrderAtPriceLevel.reflect_side, MEOrderAtPriceLevel.reflect_price,
    setPriceLevel_reflect hlevel.price]
  generalize b.setPriceLevel (b.level l).price (some l) = c at hc hfirst
  rcases hlevel.side with hs | hs
  · simp only [hs, Side.reflect, if_true, reduceCtorEq, if_false, askLevelsHead_reflect]
    cases hhead : c.bidLevelsHead with
    | none =>
      simp only [setPrevPriceLevel_reflect, setNextPriceLevel_reflect]
      exact hfirst.images
    | some head =>
      refine hc.insertLevel hgt _ hl (hc.bidHead head hhead) fun d hd => ⟨rfl, ?_⟩
      exact { hd with bidHead := mem_of_some hl }
  · simp only [hs, Side.reflect, if_true, reduceCtorEq, if_false, bidLevelsHead_reflect]
    cases hhead : c.askLevelsHead with
    | none =>
      simp only [setPrevPriceLevel_reflect, setNextPriceLevel_reflect]
      exact hfirst.images
    | some head =>
      refine hc.insertLevel hlt _ hl (hc.askHead head hhead) fun d hd => ⟨rfl, ?_⟩
      exact { hd with askHead := mem_of_some hl }

/-- The block of a level is given back. -/
theorem Quotes.deallocateLevel (h : Quotes K b O L) (l : Ptr) :
    Agree (Images K O L)
      (do let pool ← b.priceLevelsPool.deallocate l; return b.withLevelsPool pool)
      (do
        let pool ← (b.reflect K).priceLevelsPool.deallocate l
        return (b.reflect K).withLevelsPool pool) := by
  have hpool : Agree (fun q q' => q' = q.map (fun l => l.reflect K) ∧ q = b.priceLevelsPool.release l)
      (b.priceLevelsPool.deallocate l) ((b.reflect K).priceLevelsPool.deallocate l) :=
    Agree.of_map (MemPool.deallocate_map (MEOrderAtPriceLevel.reflect K) b.priceLevelsPool l)
      fun q hq => (MemPool.deallocate_eq_ok.1 hq).2.2
  refine hpool.bind fun q q' hq => ?_
  obtain ⟨rfl, rfl⟩ := hq
  refine ⟨rfl, { h with level := fun m hm => ?_ }⟩
  show QuotedLevel K O L ((b.priceLevelsPool.release l).get m)
  rw [MemPool.get_release]
  exact h.level m hm

theorem Quotes.removePriceLevel (h : Quotes K b O L) {side : Side} (hp : PriceIn K price) :
    Agree (Images K O L) (b.removePriceLevel side price)
      ((b.reflect K).removePriceLevel side.reflect (reflectPrice K price)) := by
  rw [MEOrderBook.removePriceLevel, MEOrderBook.removePriceLevel, getPriceLevel_reflect hp]
  refine agree_nonNull fun l hl => ?_
  have htail : ∀ c, Quotes K c O L → Agree (Images K O L)
      (do
        let pool ← (c.setPriceLevel price none).priceLevelsPool.deallocate l
        return (c.setPriceLevel price none).withLevelsPool pool)
      (do
        let pool ← ((c.reflect K).setPriceLevel (reflectPrice K price)
          none).priceLevelsPool.deallocate l
        return ((c.reflect K).setPriceLevel (reflectPrice K price) none).withLevelsPool pool) := by
    intro c hc
    rw [setPriceLevel_reflect hp]
    exact (hc.setPriceLevel price fun _ hv => absurd hv (by simp)).deallocateLevel l
  have hlevel := h.level l (h.slots _ l hl)
  simp only [level_reflect, MEOrderAtPriceLevel.reflect_nextPriceLevel,
    MEOrderAtPriceLevel.reflect_prevPriceLevel]
  refine Agree.ite Iff.rfl (fun _ => ?_) fun _ => ?_
  · exact htail b h
  · refine agree_nonNull fun m hm => ?_
    simp only [setNextPriceLevel_reflect, level_reflect, pure_eq_ok, ok_bind,
      MEOrderAtPriceLevel.reflect_nextPriceLevel, MEOrderAtPriceLevel.reflect_prevPriceLevel]
    have hc := h.setNextPriceLevel m hlevel.next
    refine agree_nonNull fun n hn => ?_
    rw [setPrevPriceLevel_reflect]
    exact htail _ (hc.setPrevPriceLevel n (hc.level l (h.slots _ l hl)).prev)

/-! ## Orders -/

theorem getNextPriority_reflect (hp : PriceIn K price) :
    (b.reflect K).getNextPriority (reflectPrice K price) = b.getNextPriority price := by
  rw [getNextPriority, getNextPriority, getPriceLevel_reflect hp]
  cases b.getPriceLevel price <;> rfl

theorem Quotes.setClientOrder (h : Quotes K b O L) (c : ClientId) (o : OrderId)
    (hv : ∀ q, v = some q → q ∈ O) :
    Agree (Images K O L) (b.setClientOrder c o v) ((b.reflect K).setClientOrder c o v) := by
  rw [MEOrderBook.setClientOrder, MEOrderBook.setClientOrder]
  refine Agree.ite Iff.rfl (fun _ => ⟨rfl, ?_⟩) fun _ => rfl
  refine { h with clients := fun c' o' q hq => ?_ }
  by_cases hc : c' = c
  · subst hc
    by_cases ho : o' = o
    · subst ho
      exact hv q (by simpa using hq)
    · exact h.clients c' o' q (by simpa [ho] using hq)
  · exact h.clients c' o' q (by simpa [hc] using hq)

/-- A level is allocated for an order. -/
theorem Quotes.allocateLevel (h : Quotes K b O L) {lev : MEOrderAtPriceLevel}
    (hlev : QuotedLevel K O L lev) :
    Agree (fun x x' => x' = (x.1.map fun l => l.reflect K, x.2) ∧
        Quotes K (b.withLevelsPool x.1) O (insert x.2 L))
      (b.priceLevelsPool.allocate lev)
      ((b.reflect K).priceLevelsPool.allocate (lev.reflect K)) := by
  have hmap := MemPool.allocate_map (fun l => l.reflect K) b.priceLevelsPool lev
  refine Agree.of_map hmap fun x hx => ?_
  have hmono : ∀ m, QuotedLevel K O L m → QuotedLevel K O (insert x.2 L) m := fun m hm =>
    { hm with next := fun n hn => Or.inr (hm.next n hn), prev := fun n hn => Or.inr (hm.prev n hn) }
  refine
    { order := h.order
      level := fun m hm => ?_
      bidHead := fun m hm => Or.inr (h.bidHead m hm)
      askHead := fun m hm => Or.inr (h.askHead m hm)
      slots := fun i m hm => Or.inr (h.slots i m hm)
      clients := h.clients }
  show QuotedLevel K O _ (x.1.get m)
  rw [MemPool.get_of_allocate hx]
  split
  · exact hmono _ hlev
  · next hne => exact hmono _ (h.level m (hm.resolve_left hne))

/-- An order is allocated. -/
theorem Quotes.allocateOrder (h : Quotes K b O L) {o : MEOrder} (ho : QuotedOrder K O o) :
    Agree (fun x x' => x' = (x.1.map fun o => o.reflect K, x.2) ∧
        Quotes K (b.withOrderPool x.1) (insert x.2 O) L)
      (b.orderPool.allocate o) ((b.reflect K).orderPool.allocate (o.reflect K)) := by
  have hmap := MemPool.allocate_map (fun o => o.reflect K) b.orderPool o
  refine Agree.of_map hmap fun x hx => ?_
  have hmono : ∀ o, QuotedOrder K O o → QuotedOrder K (insert x.2 O) o := fun o ho =>
    { ho with next := fun n hn => Or.inr (ho.next n hn), prev := fun n hn => Or.inr (ho.prev n hn) }
  refine
    { order := fun q hq => ?_
      level := fun l hl => ?_
      bidHead := h.bidHead
      askHead := h.askHead
      slots := h.slots
      clients := fun c o q hq => Or.inr (h.clients c o q hq) }
  · show QuotedOrder K _ (x.1.get q)
    rw [MemPool.get_of_allocate hx]
    split
    · exact hmono _ ho
    · next hne => exact hmono _ (h.order q (hq.resolve_left hne))
  · have hlevel := h.level l hl
    exact { hlevel with first := fun p hp => Or.inr (hlevel.first p hp) }

/-- An order takes its place in the slot of its price. -/
theorem Quotes.addOrder (h : Quotes K b O L) (hp : p ∈ O) :
    Agree (fun c c' => ∃ L', Images K O L' c c') (b.addOrder p) ((b.reflect K).addOrder p) := by
  have hq := h.order p hp
  have htail : ∀ L' c c', Images K O L' c c' → Agree (fun c c' => ∃ L', Images K O L' c c')
      (c.setClientOrder (b.order p).clientId (b.order p).clientOrderId (some p))
      (c'.setClientOrder (b.order p).clientId (b.order p).clientOrderId (some p)) := by
    rintro L' c c' ⟨rfl, hc⟩
    exact (hc.setClientOrder _ _ (mem_of_some hp)).mono fun _ _ hd => ⟨L', hd⟩
  rw [MEOrderBook.addOrder, MEOrderBook.addOrder]
  simp only [order_reflect, MEOrder.reflect_price, getPriceLevel_reflect hq.price]
  cases hl : b.getPriceLevel (b.order p).price with
  | none =>
    have hprev := h.setPrevOrder p (mem_of_some hp)
    have hc := hprev.setNextOrder p (hprev.order p hp).prev
    have hlev : QuotedLevel K O L
        { side := (b.order p).side, price := (b.order p).price, firstOrder := some p } :=
      { side := hq.side, price := hq.price, first := mem_of_some hp
        next := fun _ hm => absurd hm (by simp), prev := fun _ hm => absurd hm (by simp) }
    simp only [setPrevOrder_reflect, setNextOrder_reflect, order_reflect, MEOrder.reflect_prevOrder]
    refine (hc.allocateLevel hlev).bind fun x x' hx => ?_
    obtain ⟨rfl, hd⟩ := hx
    exact (hd.addOrdersAtPrice (Set.mem_insert _ _)).bind (htail _)
  | some l =>
    simp only [level_reflect, MEOrderAtPriceLevel.reflect_firstOrder, MEOrder.reflect_prevOrder]
    refine agree_nonNull fun a ha => agree_nonNull fun z hz => ?_
    have haO := (h.level l (h.slots _ l hl)).first a ha
    have hlast := h.setNextOrder z (mem_of_some hp)
    have hc := ((hlast.setPrevOrder p (hlast.order a haO).prev).setNextOrder p
      (mem_of_some haO)).setPrevOrder a (mem_of_some hp)
    simp only [setPrevOrder_reflect, setNextOrder_reflect, order_reflect, MEOrder.reflect_prevOrder]
    exact htail L _ _ hc.images

theorem Quotes.forgetting (h : Quotes K b O L) (d : OrderData) (p : Ptr) :
    Agree (Images K O L) (b.forgetting d p) ((b.reflect K).forgetting (d.reflect K) p) := by
  rw [MEOrderBook.forgetting, MEOrderBook.forgetting]
  refine (h.setClientOrder d.clientId d.clientOrderId fun _ hv => absurd hv (by simp)).bind
    fun c c' hc => ?_
  obtain ⟨rfl, hc⟩ := hc
  have hmap := MemPool.deallocate_map (fun o => o.reflect K) c.orderPool p
  refine (Agree.of_map hmap (P := fun q => q = c.orderPool.release p)
    fun q hq => (MemPool.deallocate_eq_ok.1 hq).2.2).bind fun q q' hq => ?_
  obtain ⟨rfl, rfl⟩ := hq
  refine ⟨rfl, { hc with order := fun m hm => ?_ }⟩
  show QuotedOrder K O ((c.orderPool.release p).get m)
  rw [MemPool.get_release]
  exact hc.order m hm

theorem Quotes.unlinkOrder (h : Quotes K b O L) (hp : p ∈ O) :
    Agree (Images K O L) (b.unlinkOrder p) ((b.reflect K).unlinkOrder p) := by
  have ho := h.order p hp
  rw [MEOrderBook.unlinkOrder, MEOrderBook.unlinkOrder]
  simp only [order_reflect, MEOrder.reflect_prevOrder, MEOrder.reflect_nextOrder,
    MEOrder.reflect_side, MEOrder.reflect_price]
  refine Agree.ite Iff.rfl (fun _ => ?_) fun _ => ?_
  · exact h.removePriceLevel ho.price
  · refine agree_nonNull fun q hq => agree_nonNull fun n hn => ?_
    have hc := (h.setNextOrder q (mem_of_some (ho.next n hn))).setPrevOrder n
      (mem_of_some (ho.prev q hq))
    simp only [setNextOrder_reflect, setPrevOrder_reflect, getPriceLevel_reflect ho.price]
    refine agree_nonNull fun l hl => Agree.ite Iff.rfl (fun _ => ?_) fun _ => hc.images
    rw [setFirstOrder_reflect]
    exact (hc.setFirstOrder l (mem_of_some (ho.next n hn))).images

theorem Quotes.removeOrder (h : Quotes K b O L) (hp : p ∈ O) :
    Agree (Images K O L) (b.removeOrder p) ((b.reflect K).removeOrder p) := by
  rw [removeOrder_eq, removeOrder_eq]
  refine (h.unlinkOrder hp).bind fun c c' hc => ?_
  obtain ⟨rfl, hc⟩ := hc
  exact hc.forgetting (b.data p) p

/-! ## Requests -/

/-- The mirror image of what a call returns: the book, and what was sent. -/
def reflectResult (K : Price) (x : MEOrderBook × List Sent) : MEOrderBook × List Sent :=
  (x.1.reflect K, x.2.map (Sent.reflect K))

/-- The second run has returned the mirror image of what the first did. -/
def Mirrored (K : Price) (x x' : MEOrderBook × List Sent) : Prop :=
  x' = reflectResult K x ∧ ∃ O L, Quotes K x.1 O L

theorem Quotes.cancel (h : Quotes K b O L) (c : ClientId) (o : OrderId) (t : TickerId) :
    Agree (Mirrored K) (b.cancel c o t) ((b.reflect K).cancel c o t) := by
  rw [MEOrderBook.cancel, MEOrderBook.cancel]
  refine Agree.ite Iff.rfl (fun _ => ?_) fun _ => ⟨rfl, O, L, h⟩
  have hcopy : (b.reflect K).copyClientOrders = b.copyClientOrders := rfl
  rw [hcopy, copyClientOrders]
  refine Agree.bind (R := fun _ _ => True) (Agree.ite Iff.rfl (fun _ => trivial) fun _ => rfl)
    fun _ _ _ => ?_
  have hread : (b.reflect K).clientOrderAt c o = b.clientOrderAt c o := rfl
  rw [hread, clientOrderAt]
  split
  · rw [ok_bind, ok_bind]
    cases hp : b.clientOrders c o with
    | none => exact ⟨rfl, O, L, h⟩
    | some p =>
      refine (h.removeOrder (h.clients c o p hp)).bind fun d d' hd => ?_
      obtain ⟨rfl, hd⟩ := hd
      exact ⟨rfl, O, L, hd⟩
  · exact rfl

/-- The incoming order of the mirrored book. -/
def Incoming.reflect (i : Incoming) : Incoming := { i with side := i.side.reflect }

theorem fillMessages_reflect (i : Incoming) (o : OrderData) (fillQty leftQty : Qty) :
    fillMessages i.reflect (o.reflect K) fillQty leftQty =
      (fillMessages i o fillQty leftQty).map (Sent.reflect K) := rfl

theorem afterFill_reflect (i : Incoming) (o : OrderData) (fillQty : Qty) :
    ReferenceBook.afterFill i.reflect (o.reflect K) fillQty =
      (ReferenceBook.afterFill i o fillQty).reflect K := by
  by_cases hzero : o.qty - fillQty = 0
  · have hafter : ReferenceBook.afterFill i o fillQty = _ := if_pos hzero
    rw [hafter]
    exact if_pos hzero
  · have hafter : ReferenceBook.afterFill i o fillQty = _ := if_neg hzero
    rw [hafter]
    exact if_neg hzero

theorem fillOrder_reflect (p : Ptr) (fillQty : Qty) :
    (b.reflect K).fillOrder p fillQty = (b.fillOrder p fillQty).reflect K := by
  refine setOrder_reflect ?_ p
  exact fun _ => rfl

theorem Quotes.fillOrder (h : Quotes K b O L) (p : Ptr) (fillQty : Qty) :
    Quotes K (b.fillOrder p fillQty) O L :=
  h.setOrder (f := fun o => { o with qty := o.qty - fillQty }) (fun _ ho => { ho with }) p

/-- One call of `match`, or a loop of them. -/
def MirroredFill (K : Price) (O L : Set Ptr) (x x' : MEOrderBook × Qty × List Sent) : Prop :=
  x' = (x.1.reflect K, x.2.1, x.2.2.map (Sent.reflect K)) ∧ Quotes K x.1 O L

theorem Quotes.matchOrder (h : Quotes K b O L) (i : Incoming) (hp : p ∈ O) (leftQty : Qty) :
    Agree (MirroredFill K O L) (b.matchOrder i p leftQty)
      ((b.reflect K).matchOrder i.reflect p leftQty) := by
  have hdata : (b.reflect K).data p = (b.data p).reflect K := rfl
  have hqty : ((b.data p).reflect K).qty = (b.data p).qty := rfl
  have hc := h.fillOrder p (min leftQty (b.data p).qty)
  rw [matchOrder_eq, matchOrder_eq]
  simp only [hdata, hqty, fillOrder_reflect, fillMessages_reflect, afterFill_reflect]
  refine Agree.ite Iff.rfl (fun _ => ?_) fun _ => ⟨?_, hc⟩
  · refine (hc.removeOrder hp).bind fun d d' hd => ?_
    obtain ⟨rfl, hd⟩ := hd
    refine ⟨?_, hd⟩
    rw [List.map_append]
    rfl
  · rw [List.map_append]
    rfl

section Loop

variable {head head' : MEOrderBook → Option Ptr} {past past' : Price → Prop} [DecidablePred past]
  [DecidablePred past']

/-- The loop over the best resting orders goes through the same orders. -/
theorem Quotes.matchWhile (h : Quotes K b O L) (i : Incoming)
    (hhead : ∀ c : MEOrderBook, head' (c.reflect K) = head c)
    (hmem : ∀ c, Quotes K c O L → ∀ l, head c = some l → l ∈ L)
    (ha : ∀ r, PriceIn K r → (past r ↔ past' (reflectPrice K r))) (fuel : Nat) (leftQty : Qty) :
    Agree (MirroredFill K O L) (b.matchWhile i head (fun r => past r) fuel leftQty)
      ((b.reflect K).matchWhile i.reflect head' (fun r => past' r) fuel leftQty) := by
  induction fuel generalizing b leftQty with
  | zero => exact rfl
  | succ fuel ih =>
    rw [MEOrderBook.matchWhile, MEOrderBook.matchWhile, hhead]
    refine Agree.ite Iff.rfl (fun _ => ⟨rfl, h⟩) fun _ => ?_
    cases hl : head b with
    | none => exact ⟨rfl, h⟩
    | some l =>
      refine agree_nonNull fun p hp => ?_
      have hpO := (h.level l (hmem b h l hl)).first p hp
      have hprice := (ha _ (h.order p hpO).price).trans decide_eq_true_iff.symm
      refine Agree.ite (decide_eq_true_iff.trans hprice) (fun _ => ⟨rfl, h⟩) fun _ => ?_
      refine (h.matchOrder i hpO leftQty).bind fun x x' hx => ?_
      obtain ⟨rfl, hc⟩ := hx
      refine (ih hc x.2.1).bind fun y y' hy => ?_
      obtain ⟨rfl, hd⟩ := hy
      refine ⟨?_, hd⟩
      rw [List.map_append]

end Loop

/-- An incoming order meets the same resting orders on the other side. -/
theorem Quotes.checkForMatch (h : Quotes K b O L) (i : Incoming) (hi : i.side.IsQuoted)
    (hp : PriceIn K price) (qty : Qty) :
    Agree (MirroredFill K O L) (b.checkForMatch i price qty)
      ((b.reflect K).checkForMatch i.reflect (reflectPrice K price) qty) := by
  have hside : i.reflect.side = i.side.reflect := rfl
  rw [MEOrderBook.checkForMatch, MEOrderBook.checkForMatch, hside]
  rcases hi with hi | hi
  · rw [hi]
    show Agree (MirroredFill K O L)
      (b.matchWhile i askLevelsHead (fun r => price < r) (b.orderPool.size + 1) qty)
      ((b.reflect K).matchWhile i.reflect bidLevelsHead (fun r => reflectPrice K price > r)
        (b.orderPool.size + 1) qty)
    refine h.matchWhile i ?_ ?_ ?_ _ qty
    · exact fun _ => rfl
    · exact fun _ hc => hc.askHead
    · exact fun r hr => (hr.reflect_lt hp).symm
  · rw [hi]
    show Agree (MirroredFill K O L)
      (b.matchWhile i bidLevelsHead (fun r => price > r) (b.orderPool.size + 1) qty)
      ((b.reflect K).matchWhile i.reflect askLevelsHead (fun r => reflectPrice K price < r)
        (b.orderPool.size + 1) qty)
    refine h.matchWhile i ?_ ?_ ?_ _ qty
    · exact fun _ => rfl
    · exact fun _ hc => hc.bidHead
    · exact fun r hr => (hp.reflect_lt hr).symm

theorem Quotes.add (h : Quotes K b O L) (c : ClientId) (o : OrderId) (t : TickerId) {side : Side}
    (hside : side.IsQuoted) (hp : PriceIn K price) (qty : Qty) :
    Agree (Mirrored K) (b.add c o t side price qty)
      ((b.reflect K).add c o t side.reflect (reflectPrice K price) qty) := by
  have hb : Quotes K b.generateNewMarketOrderId O L := { h with }
  rw [MEOrderBook.add, MEOrderBook.add]
  refine (hb.checkForMatch
    { clientId := c, clientOrderId := o, tickerId := t, side,
      marketOrderId := b.nextMarketOrderId } hside hp qty).bind fun x x' hx => ?_
  obtain ⟨rfl, hc⟩ := hx
  refine Agree.ite Iff.rfl (fun _ => ⟨rfl, O, L, hc⟩) fun _ => ?_
  show Agree (Mirrored K) (x.1.getNextPriority price >>= _)
    ((x.1.reflect K).getNextPriority (reflectPrice K price) >>= _)
  rw [getNextPriority_reflect hp]
  cases x.1.getNextPriority price with
  | error e => exact rfl
  | ok priority =>
    rw [ok_bind, ok_bind]
    have ho : QuotedOrder K O
        { tickerId := t, clientId := c, clientOrderId := o, marketOrderId := b.nextMarketOrderId,
          side, price, qty := x.2.1, priority } :=
      { side := hside, price := hp, next := fun _ hq => absurd hq (by simp)
        prev := fun _ hq => absurd hq (by simp) }
    refine (hc.allocateOrder ho).bind fun y y' hy => ?_
    obtain ⟨rfl, hd⟩ := hy
    refine (hd.addOrder (Set.mem_insert _ _)).bind fun d d' hd => ?_
    obtain ⟨L', rfl, hd⟩ := hd
    refine ⟨?_, _, L', hd⟩
    simp only [reflectResult, List.map_append, List.map_cons]
    rfl

/-- A `NEW` has a side and a price of at most `K`. -/
def QuotedRequest (K : Price) (req : MEClientRequest) : Prop :=
  req.requestType = .new → req.side.IsQuoted ∧ PriceIn K req.price

theorem Quotes.process (h : Quotes K b O L) {req : MEClientRequest} (hreq : QuotedRequest K req) :
    Agree (Mirrored K) (b.process req) ((b.reflect K).process (reflectRequest K req)) := by
  have htype : (reflectRequest K req).requestType = req.requestType := rfl
  rw [MEOrderBook.process, MEOrderBook.process, htype]
  cases hnew : req.requestType with
  | new =>
    obtain ⟨hside, hp⟩ := hreq hnew
    exact h.add req.clientId req.orderId req.tickerId hside hp req.qty
  | cancel => exact h.cancel req.clientId req.orderId req.tickerId
  | invalid => exact rfl
  | unnamed code hcode => exact rfl

/-- A request is taken on the mirrored book as it is on the book. -/
theorem Mirrored.processAfter {x x' : MEOrderBook × List Sent} (h : Mirrored K x x')
    {req : MEClientRequest} (hreq : QuotedRequest K req) :
    Agree (Mirrored K) (processAfter x req)
      (MEOrderBook.processAfter x' (reflectRequest K req)) := by
  obtain ⟨rfl, O, L, hq⟩ := h
  rw [MEOrderBook.processAfter, MEOrderBook.processAfter]
  refine (hq.process hreq).bind fun y y' hy => ?_
  obtain ⟨rfl, hy⟩ := hy
  exact ⟨congrArg (Prod.mk _) List.map_append.symm, hy⟩

theorem Mirrored.foldlM {x x' : MEOrderBook × List Sent} (h : Mirrored K x x')
    (reqs : List MEClientRequest)
    (hreqs : ∀ req ∈ reqs, QuotedRequest K req) :
    Agree (Mirrored K) (reqs.foldlM MEOrderBook.processAfter x)
      ((reqs.map (reflectRequest K)).foldlM MEOrderBook.processAfter x') := by
  induction reqs generalizing x x' with
  | nil => exact h
  | cons req reqs ih =>
    rw [List.map_cons, List.foldlM_cons, List.foldlM_cons]
    refine (h.processAfter (hreqs req List.mem_cons_self)).bind fun y y' hy => ?_
    exact ih hy fun r hr => hreqs r (List.mem_cons_of_mem _ hr)

end MEOrderBook
end Exchange
end TradingEcosystem
