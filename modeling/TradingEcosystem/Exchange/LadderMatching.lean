import TradingEcosystem.Exchange.Ladders

/-!
# Matching on ladders

What `checkForMatch` is for, on the books it is written for: the incoming order trades down the
other side, best price first and oldest first, stops when nothing is left of it or nothing crosses,
and leaves two ladders.  `MatchesWell` says this, and that no pointer the loop follows is null or
leads to a block that was given back.

It holds exactly as long as the incoming order leaves some of the best opposite level.  A level that
is used up is deallocated, and `removePriceLevel` moves a copy of the head: the head itself leads to
the deallocated level from then on.
-/

set_option autoImplicit false

namespace TradingEcosystem
namespace Exchange
namespace MEOrderBook

open Ring ReferenceBook

/-! ## What matching is for -/

/-- Every block a call of `match` for the order at `p` may follow a pointer to is in use. -/
structure SafeMatch (b : MEOrderBook) (p : Ptr) : Prop where
  order : b.orderPool.InUse p
  prev : ∀ q, b.prevOrder p = some q → b.orderPool.InUse q
  next : ∀ q, b.nextOrder p = some q → b.orderPool.InUse q
  level : ∀ l, b.getPriceLevel (b.data p).price = some l → b.priceLevelsPool.InUse l ∧
    (∀ m, b.prevLevel l = some m → b.priceLevelsPool.InUse m) ∧
      ∀ m, b.nextLevel l = some m → b.priceLevelsPool.InUse m

/-- A loop of `checkForMatch` comes to an end, and every block it follows a pointer to is in use. -/
inductive SafeLoop (i : Incoming) (head : MEOrderBook → Option Ptr) (past : Price → Bool) :
    MEOrderBook → Qty → Prop
  /-- Nothing is left of the incoming order. -/
  | filled {b : MEOrderBook} : SafeLoop i head past b 0
  /-- There is no level. -/
  | noLevel {b : MEOrderBook} {leftQty : Qty} (hhead : head b = none) :
    SafeLoop i head past b leftQty
  /-- The best price does not cross. -/
  | stops {b : MEOrderBook} {leftQty : Qty} {l p : Ptr} (hhead : head b = some l)
    (hl : b.priceLevelsPool.InUse l) (hfirst : (b.level l).firstOrder = some p)
    (hp : b.orderPool.InUse p) (hpast : past (b.data p).price = true) :
    SafeLoop i head past b leftQty
  /-- One order is filled, and the loop goes on. -/
  | fills {b b' : MEOrderBook} {leftQty left : Qty} {l p : Ptr} {sent : List Sent}
    (hhead : head b = some l) (hl : b.priceLevelsPool.InUse l)
    (hfirst : (b.level l).firstOrder = some p) (hp : SafeMatch b p)
    (hpast : past (b.data p).price = false)
    (hm : b.matchOrder i p leftQty = .ok (b', left, sent)) (hs : SafeLoop i head past b' left) :
    SafeLoop i head past b leftQty

/-- The loop `checkForMatch` runs for the side, if it runs one. -/
def SafeCheck (b : MEOrderBook) (i : Incoming) (price : Price) (qty : Qty) : Prop :=
  match i.side with
  | .buy => SafeLoop i askLevelsHead (fun p => price < p) b qty
  | .sell => SafeLoop i bidLevelsHead (fun p => price > p) b qty
  | _ => True

/-- The ladder an order of the side trades with. -/
def oppositeLevels (side : Side) (bids asks : List Ptr) : List Ptr :=
  match side with
  | .buy => asks
  | .sell => bids
  | _ => []

/-- The orders of some levels, in the order they are to be served. -/
def queue (b : MEOrderBook) (ring : Ptr → List Ptr) (levels : List Ptr) : List OrderData :=
  (levels.flatMap ring).map b.data

/-- The outcome of a good match: the book `b'` with the ladders `bids'` and `asks'`, of which the
other side is what `trade` leaves of it. -/
structure MatchedTo (b : MEOrderBook) (bids asks : List Ptr) (ring : Ptr → List Ptr)
    (i : Incoming) (price : Price) (qty : Qty) (b' : MEOrderBook) (left : Qty) (sent : List Sent)
    (bids' asks' : List Ptr) (ring' : Ptr → List Ptr) : Prop where
  /-- The call returns. -/
  returns : b.checkForMatch i price qty = .ok (b', left, sent)
  /-- It is served best price first and oldest first. -/
  served : trade i price qty (queue b ring (oppositeLevels i.side bids asks)) =
    (left, queue b' ring' (oppositeLevels i.side bids' asks'), sent)
  /-- What is left crosses no level that remains. -/
  complete : left ≠ 0 → ∀ l ∈ oppositeLevels i.side bids' asks',
    ¬ Crosses i.side price (b'.level l).price
  /-- Both ladders are well-formed again. -/
  ladders : Ladders b' bids' asks' ring'

/-- **Matching one order is complete, safe and comes to an end.** -/
def MatchesWell (b : MEOrderBook) (bids asks : List Ptr) (ring : Ptr → List Ptr) (i : Incoming)
    (price : Price) (qty : Qty) : Prop :=
  SafeCheck b i price qty ∧ ∃ b' left sent bids' asks' ring',
    MatchedTo b bids asks ring i price qty b' left sent bids' asks' ring'

theorem queue_cons (b : MEOrderBook) (ring : Ptr → List Ptr) (l : Ptr) (levels : List Ptr) :
    queue b ring (l :: levels) = (ring l).map b.data ++ queue b ring levels := by
  rw [queue, List.flatMap_cons, List.map_append, queue]

/-- What the orders at these addresses have to give. -/
def total (b : MEOrderBook) (orders : List Ptr) : Nat :=
  (orders.map fun p => (b.data p).qty.toNat).sum

theorem total_cons (b : MEOrderBook) (p : Ptr) (orders : List Ptr) :
    total b (p :: orders) = (b.data p).qty.toNat + total b orders := by
  rw [total, List.map_cons, List.sum_cons, total]

theorem total_congr {b c : MEOrderBook} {orders : List Ptr}
    (h : ∀ q ∈ orders, c.data q = b.data q) : total c orders = total b orders := by
  rw [total, total, List.map_congr_left fun q hq => by rw [h q hq]]

/-- The incoming order crosses the best opposite level and is not smaller than all of it. -/
def ExhaustsBest (b : MEOrderBook) (bids asks : List Ptr) (ring : Ptr → List Ptr) (i : Incoming)
    (price : Price) (qty : Qty) : Prop :=
  ∃ l, (oppositeLevels i.side bids asks).head? = some l ∧
    Crosses i.side price (b.level l).price ∧ total b (ring l) ≤ qty.toNat

/-! ## The loops -/

/-- One of the two loops of `checkForMatch`: the head it starts from each time, and when it stops
before a price. -/
structure LoopOf (i : Incoming) (price : Price) (head : MEOrderBook → Option Ptr)
    (past : Price → Bool) : Prop where
  check : ∀ (b : MEOrderBook) (qty : Qty),
    b.checkForMatch i price qty = matchWhile i head past (b.orderPool.size + 1) b qty
  safe : ∀ (b : MEOrderBook) (qty : Qty),
    SafeCheck b i price qty ↔ SafeLoop i head past b qty
  head_congr : ∀ b c : MEOrderBook, c.bidLevelsHead = b.bidLevelsHead →
    c.askLevelsHead = b.askLevelsHead → head c = head b
  past_iff : ∀ r, past r = false ↔ Crosses i.side price r
  /-- The head is that of the other side's ladder. -/
  head_eq : ∀ {b : MEOrderBook} {bids asks : List Ptr} {ring : Ptr → List Ptr},
    Ladders b bids asks ring → head b = (oppositeLevels i.side bids asks).head?
  mem : ∀ (bids asks : List Ptr), ∀ l ∈ oppositeLevels i.side bids asks, l ∈ bids ++ asks
  nodup : ∀ {b : MEOrderBook} {bids asks : List Ptr} {ring : Ptr → List Ptr},
    Ladders b bids asks ring → (oppositeLevels i.side bids asks).Nodup
  /-- Where a level crosses, the levels before it do. -/
  sorted : ∀ {b : MEOrderBook} {bids asks : List Ptr} {ring : Ptr → List Ptr},
    Ladders b bids asks ring → (oppositeLevels i.side bids asks).Pairwise fun l m =>
      Crosses i.side price (b.level m).price → Crosses i.side price (b.level l).price

theorem loopOf_buy {i : Incoming} (hs : i.side = .buy) (price : Price) :
    LoopOf i price askLevelsHead fun p => price < p where
  check := fun b qty => by rw [checkForMatch, hs]
  safe := fun b qty => by rw [SafeCheck, hs]
  head_congr := fun _ _ _ h => h
  past_iff := fun r => by simp [Crosses, hs]
  head_eq := fun h => by rw [hs]; exact h.asks.head
  mem := fun bids asks l hl => by rw [hs] at hl; exact List.mem_append_right _ hl
  nodup := fun h => by rw [hs]; exact h.asks.isRing.nodup
  sorted := fun h => by
    simp only [hs, Crosses, if_true]
    exact h.asks.sorted.imp fun hlt hle => UInt64.le_trans (UInt64.le_of_lt hlt) hle

theorem loopOf_sell {i : Incoming} (hs : i.side = .sell) (price : Price) :
    LoopOf i price bidLevelsHead fun p => price > p where
  check := fun b qty => by rw [checkForMatch, hs]
  safe := fun b qty => by rw [SafeCheck, hs]
  head_congr := fun _ _ h _ => h
  past_iff := fun r => by simp [Crosses, hs]
  head_eq := fun h => by rw [hs]; exact h.bids.head
  mem := fun bids asks l hl => by rw [hs] at hl; exact List.mem_append_left _ hl
  nodup := fun h => by rw [hs]; exact h.bids.isRing.nodup
  sorted := fun h => by
    have hne : ¬ Side.sell = Side.buy := by decide
    simp only [hs, Crosses, if_neg hne]
    exact h.bids.sorted.imp fun hlt hle => UInt64.le_trans hle (UInt64.le_of_lt hlt)

variable {b b' : MEOrderBook} {bids asks : List Ptr} {ring : Ptr → List Ptr} {i : Incoming}
  {price : Price} {qty left : Qty} {head : MEOrderBook → Option Ptr} {past : Price → Bool}
  {l a : Ptr} {sent : List Sent} {fuel : Nat}

theorem matchWhile_zero : matchWhile i head past (fuel + 1) b 0 = .ok (b, 0, []) := by
  rw [matchWhile, if_pos rfl]

/-- A turn of the loop that fills the order at `a`. -/
theorem matchWhile_fills (hq : qty ≠ 0) (hhead : head b = some l)
    (hfirst : (b.level l).firstOrder = some a) (hpast : past (b.data a).price = false) :
    matchWhile i head past (fuel + 1) b qty = do
      let (b, leftQty, sent) ← b.matchOrder i a qty
      let (b, leftQty, rest) ← matchWhile i head past fuel b leftQty
      return (b, leftQty, sent ++ rest) := by
  have hpast' : ¬ past (b.order a).price = true := by
    rw [show past (b.order a).price = false from hpast]
    exact Bool.false_ne_true
  rw [matchWhile, if_neg hq, hhead]
  simp only [hfirst, nonNull_some, ok_bind, if_neg hpast']

/-- A turn that stops because the best order does not cross. -/
theorem matchWhile_stops (hhead : head b = some l) (hfirst : (b.level l).firstOrder = some a)
    (hpast : past (b.data a).price = true) :
    matchWhile i head past (fuel + 1) b qty = .ok (b, qty, []) := by
  have hpast' : past (b.order a).price = true := hpast
  rw [matchWhile, hhead]
  split
  · rfl
  · simp only [hfirst, nonNull_some, ok_bind, if_pos hpast']

theorem matchWhile_noLevel (hhead : head b = none) :
    matchWhile i head past (fuel + 1) b qty = .ok (b, qty, []) := by
  rw [matchWhile, hhead]
  split <;> rfl

/-- On a well-formed level `match` follows pointers to blocks in use only. -/
theorem Ladders.safeMatch (h : Ladders b bids asks ring) (hl : l ∈ bids ++ asks)
    (ha : a ∈ ring l) : SafeMatch b a := by
  have hold := h.level hl
  refine ⟨hold.orderInUse a ha, fun p hp => ?_, fun p hp => ?_, fun m hm => ?_⟩
  · exact hold.orderInUse p (hold.isRing.mem_of_prev ha hp)
  · exact hold.orderInUse p (hold.isRing.mem_of_next ha hp)
  · obtain rfl : l = m := Option.some_inj.1 ((hold.getPriceLevel ha).symm.trans hm)
    obtain ⟨levels, hmem, hring, hsub⟩ : ∃ levels, l ∈ levels ∧
        IsRing b.nextLevel b.prevLevel levels ∧ ∀ x ∈ levels, x ∈ bids ++ asks :=
      (List.mem_append.1 hl).elim
        (fun hb => ⟨bids, hb, h.bids.isRing, fun x hx => List.mem_append_left _ hx⟩)
        fun ha => ⟨asks, ha, h.asks.isRing, fun x hx => List.mem_append_right _ hx⟩
    refine ⟨hold.inUse, fun x hx => ?_, fun x hx => ?_⟩
    · exact (h.level (hsub x (hring.mem_of_prev hmem hx))).inUse
    · exact (h.level (hsub x (hring.mem_of_next hmem hx))).inUse

/-! ## One turn -/

theorem min_eq_left_of_le {a c : Qty} (h : a.toNat ≤ c.toNat) : min a c = a :=
  UInt32.toNat_inj.1 (by rw [toNat_min]; omega)

theorem min_eq_right_of_le {a c : Qty} (h : c.toNat ≤ a.toNat) : min a c = c :=
  UInt32.toNat_inj.1 (by rw [toNat_min]; omega)

theorem sub_ne_zero_of_lt {a c : Qty} (h : a.toNat < c.toNat) : c - a ≠ 0 := by
  intro hzero
  have hsub : (c - a).toNat + a.toNat = c.toNat := toNat_sub_add (by omega)
  rw [hzero, UInt32.toNat_zero] at hsub
  omega

/-- What is said about a fill of `fillQty` of the order `o`. -/
def fillSent (i : Incoming) (o : OrderData) (qty fillQty : Qty) : List Sent :=
  fillMessages i o fillQty (qty - fillQty) ++ [afterFill i o fillQty]

/-- The resting order is larger: it keeps the rest. -/
theorem matchOrder_part (hlt : qty.toNat < (b.data a).qty.toNat) :
    b.matchOrder i a qty = .ok (b.fillOrder a qty, 0, fillSent i (b.data a) qty qty) := by
  have hmin : min qty (b.data a).qty = qty := min_eq_left_of_le (by omega)
  rw [matchOrder_eq]
  simp only [hmin, if_neg (sub_ne_zero_of_lt hlt), UInt32.sub_self, fillSent]

/-- The resting order is used up. -/
theorem matchOrder_whole (hle : (b.data a).qty.toNat ≤ qty.toNat) :
    b.matchOrder i a qty = do
      let b' ← (b.fillOrder a (b.data a).qty).removeOrder a
      return (b', qty - (b.data a).qty, fillSent i (b.data a) qty (b.data a).qty) := by
  have hmin : min qty (b.data a).qty = (b.data a).qty := min_eq_right_of_le hle
  rw [matchOrder_eq]
  simp only [hmin, UInt32.sub_self, if_true, fillSent]

theorem trade_zero (l : List OrderData) : trade i price 0 l = (0, l, []) := by
  cases l with
  | nil => rfl
  | cons o rest => rw [trade, if_neg fun h => h.1 rfl]

theorem trade_part {o : OrderData} (rest : List OrderData) (hq : qty ≠ 0)
    (hc : Crosses i.side price o.price) (hlt : qty.toNat < o.qty.toNat) :
    trade i price qty (o :: rest) =
      (0, { o with qty := o.qty - qty } :: rest, fillSent i o qty qty) := by
  have hmin : min qty o.qty = qty := min_eq_left_of_le (by omega)
  rw [trade, if_pos ⟨hq, hc⟩]
  simp only [hmin, if_neg (sub_ne_zero_of_lt hlt), UInt32.sub_self, fillSent]

theorem trade_whole {o : OrderData} {rest queue : List OrderData} {more : List Sent} (hq : qty ≠ 0)
    (hc : Crosses i.side price o.price) (hle : o.qty.toNat ≤ qty.toNat)
    (hrest : trade i price (qty - o.qty) rest = (left, queue, more)) :
    trade i price qty (o :: rest) = (left, queue, fillSent i o qty o.qty ++ more) := by
  have hmin : min qty o.qty = o.qty := min_eq_right_of_le hle
  rw [trade, if_pos ⟨hq, hc⟩]
  simp only [hmin, UInt32.sub_self, if_true, hrest, fillSent]

/-- Once nothing is left, what waits behind does not matter. -/
theorem trade_append {l rest queue : List OrderData} {more : List Sent}
    (h : trade i price qty l = (0, queue, more)) :
    trade i price qty (l ++ rest) = (0, queue ++ rest, more) := by
  induction l generalizing qty queue more with
  | nil =>
    obtain ⟨rfl, hpair⟩ := Prod.mk.inj h
    obtain ⟨rfl, rfl⟩ := Prod.mk.inj hpair
    exact trade_zero rest
  | cons o l ih =>
    rw [List.cons_append]
    rw [trade] at h ⊢
    split at h
    · next hc =>
      rw [if_pos hc]
      dsimp only at h ⊢
      split at h
      · next hzero =>
        obtain ⟨hleft, hpair⟩ := Prod.mk.inj h
        obtain ⟨hqueue, hmore⟩ := Prod.mk.inj hpair
        rw [if_pos hzero, ih (Prod.ext hleft rfl), ← hqueue, ← hmore]
      · next hzero =>
        obtain ⟨hleft, hpair⟩ := Prod.mk.inj h
        obtain ⟨hqueue, hmore⟩ := Prod.mk.inj hpair
        rw [if_neg hzero, ← hqueue, ← hmore]
        exact Prod.ext hleft rfl
    · next hc =>
      obtain ⟨hleft, hpair⟩ := Prod.mk.inj h
      obtain ⟨rfl, rfl⟩ := Prod.mk.inj hpair
      rw [if_neg hc, hleft, List.cons_append]

/-- The oldest order of a level. -/
theorem HoldsOrders.oldest (h : HoldsOrders b ring l) {t : List Ptr} (hring : ring l = a :: t) :
    (b.level l).firstOrder = some a ∧ a ∈ ring l ∧ (b.data a).price = (b.level l).price ∧
      a ∉ t := by
  obtain ⟨a', t', hring', hfirst⟩ := h.entry
  obtain ⟨rfl, rfl⟩ := List.cons.inj (hring.symm.trans hring')
  have ha : a ∈ ring l := by simp [hring]
  have hnodup := h.isRing.nodup
  rw [hring] at hnodup
  exact ⟨hfirst, ha, h.price a ha, (List.nodup_cons.1 hnodup).1⟩

/-! ## An order smaller than the best level -/

/-- The loop uses up the incoming order on the level at `l`, of which `orders` stay. -/
structure FilledWithin (b : MEOrderBook) (bids asks : List Ptr) (ring : Ptr → List Ptr)
    (i : Incoming) (price : Price) (head : MEOrderBook → Option Ptr) (past : Price → Bool)
    (l : Ptr) (fuel : Nat) (qty : Qty) (b' : MEOrderBook) (sent : List Sent)
    (orders : List Ptr) : Prop where
  returns : matchWhile i head past fuel b qty = .ok (b', 0, sent)
  safe : SafeLoop i head past b qty
  ladders : Ladders b' bids asks (Function.update ring l orders)
  others : ∀ q, q ∉ ring l → b'.data q = b.data q
  served : trade i price qty ((ring l).map b.data) = (0, orders.map b'.data, sent)

/-- Nothing is left to fill. -/
theorem Ladders.filledWithin_zero (h : Ladders b bids asks ring) :
    FilledWithin b bids asks ring i price head past l (fuel + 1) 0 b [] (ring l) where
  returns := matchWhile_zero
  safe := .filled
  ladders := by rwa [Function.update_eq_self]
  others := fun _ _ => rfl
  served := trade_zero _

/-- The oldest order is larger than what is left. -/
theorem Ladders.filledWithin_part (h : Ladders b bids asks ring) (hl : l ∈ bids ++ asks)
    (hhead : head b = some l) {t : List Ptr} (hring : ring l = a :: t)
    (hcross : Crosses i.side price (b.level l).price) (hpast : past (b.data a).price = false)
    (hq : qty ≠ 0) (hpart : qty.toNat < (b.data a).qty.toNat) :
    FilledWithin b bids asks ring i price head past l (fuel + 2) qty (b.fillOrder a qty)
      (fillSent i (b.data a) qty qty) (ring l) := by
  obtain ⟨hfirst, ha, hprice, hat⟩ := (h.level hl).oldest hring
  have hother : ∀ q, q ≠ a → (b.fillOrder a qty).data q = b.data q := fun q hqa => by
    rw [data_fillOrder, if_neg hqa]
  have hrest : t.map (b.fillOrder a qty).data = t.map b.data :=
    List.map_congr_left fun q hqt => hother q (ne_of_mem_of_not_mem hqt hat)
  have hm := matchOrder_part (i := i) hpart
  refine ⟨?_, .fills hhead (h.level hl).inUse hfirst (h.safeMatch hl ha) hpast hm .filled, ?_,
    fun q hqt => hother q ?_, ?_⟩
  · rw [matchWhile_fills hq hhead hfirst hpast, hm]
    simp only [ok_bind, matchWhile_zero, pure_eq_ok, List.append_nil]
  · rw [Function.update_eq_self]
    exact h.fillOrder (sub_ne_zero_of_lt hpart)
  · rintro rfl
    exact hqt ha
  · rw [hring, List.map_cons, trade_part _ hq (hprice ▸ hcross) hpart, List.map_cons, hrest,
      data_fillOrder, if_pos rfl]

/-- The oldest order is used up, and the rest of the order is filled by the orders behind it. -/
theorem Ladders.filledWithin_whole (h : Ladders b bids asks ring) (hl : l ∈ bids ++ asks)
    (hhead : head b = some l) {t : List Ptr} (hring : ring l = a :: t)
    (hcross : Crosses i.side price (b.level l).price) (hpast : past (b.data a).price = false)
    (hq : qty ≠ 0) (hwhole : (b.data a).qty.toNat ≤ qty.toNat) {c : MEOrderBook}
    (hremove : (b.fillOrder a (b.data a).qty).removeOrder a = .ok c)
    (hother : ∀ q, q ≠ a → c.data q = b.data q) {orders : List Ptr}
    (hc : FilledWithin c bids asks (Function.update ring l t) i price head past l fuel
      (qty - (b.data a).qty) b' sent orders) :
    FilledWithin b bids asks ring i price head past l (fuel + 1) qty b'
      (fillSent i (b.data a) qty (b.data a).qty ++ sent) orders := by
  obtain ⟨hfirst, ha, hprice, hat⟩ := (h.level hl).oldest hring
  have hrest : t.map c.data = t.map b.data :=
    List.map_congr_left fun q hqt => hother q (ne_of_mem_of_not_mem hqt hat)
  have hm : b.matchOrder i a qty =
      .ok (c, qty - (b.data a).qty, fillSent i (b.data a) qty (b.data a).qty) := by
    rw [matchOrder_whole hwhole, hremove, ok_bind, pure_eq_ok]
  refine ⟨?_, .fills hhead (h.level hl).inUse hfirst (h.safeMatch hl ha) hpast hm hc.safe, ?_,
    fun q hqt => ?_, ?_⟩
  · rw [matchWhile_fills hq hhead hfirst hpast, hm]
    simp only [ok_bind, hc.returns, pure_eq_ok]
  · rw [← Function.update_idem]
    exact hc.ladders
  · rw [hring, List.mem_cons, not_or] at hqt
    rw [hc.others q (by rw [Function.update_self]; exact hqt.2), hother q hqt.1]
  · have hserved := hc.served
    rw [Function.update_self, hrest] at hserved
    rw [hring, List.map_cons]
    exact trade_whole hq (hprice ▸ hcross) hwhole hserved

/-- **The good case.**  The loop fills orders of the best level until nothing is left of the
incoming one, and the level stays. -/
theorem Ladders.matchWhile_within (h : Ladders b bids asks ring)
    (hloop : LoopOf i price head past) (hl : l ∈ bids ++ asks) (hhead : head b = some l)
    (hcross : Crosses i.side price (b.level l).price) (hlt : qty.toNat < total b (ring l))
    (hfuel : (ring l).length < fuel) :
    ∃ b' sent orders,
      FilledWithin b bids asks ring i price head past l fuel qty b' sent orders := by
  -- the orders of the level are used up one by one from the front
  generalize horders : ring l = orders at hlt hfuel
  induction orders generalizing b ring qty fuel with
  | nil =>
    obtain ⟨a, t, hring, -⟩ := (h.level hl).entry
    exact absurd (horders.symm.trans hring) (by simp)
  | cons a t ih =>
    obtain ⟨fuel, rfl⟩ : ∃ k, fuel = k + 2 :=
      ⟨fuel - 2, by rw [List.length_cons] at hfuel; omega⟩
    obtain ⟨-, ha, hprice, hat⟩ := (h.level hl).oldest horders
    by_cases hq : qty = 0
    · subst hq
      exact ⟨b, [], ring l, h.filledWithin_zero⟩
    have hpast : past (b.data a).price = false := by
      rw [hloop.past_iff, hprice]
      exact hcross
    rcases Nat.lt_or_ge qty.toNat (b.data a).qty.toNat with hpart | hwhole
    · exact ⟨_, _, _, h.filledWithin_part hl hhead horders hcross hpast hq hpart⟩
    · -- the oldest order is not the last of its level
      obtain ⟨n, t', rfl⟩ : ∃ n t', t = n :: t' := by
        refine List.exists_cons_of_ne_nil fun ht => ?_
        rw [ht, total_cons] at hlt
        simp [total] at hlt
        omega
      obtain ⟨c, z, hremove, ht, hc⟩ := h.removeFilled hl horders (b.data a).qty
      have hsub := toNat_sub_add hwhole
      have hclt : (qty - (b.data a).qty).toNat < total c (n :: t') := by
        rw [total_congr fun q hqt => ht.data q (ne_of_mem_of_not_mem hqt hat)]
        rw [total_cons b a] at hlt
        omega
      have hclevel : (c.level l).price = (b.level l).price := by rw [ht.level, if_pos rfl]
      obtain ⟨b', sent, orders, hfilled⟩ := ih hc
        ((hloop.head_congr b c ht.bidHead ht.askHead).trans hhead) (hclevel ▸ hcross)
        (Function.update_self _ _ _) hclt (Nat.lt_of_succ_lt_succ hfuel)
      exact ⟨b', _, orders,
        h.filledWithin_whole hl hhead horders hcross hpast hq hwhole hremove ht.data hfilled⟩

/-! ## An order that uses up the best level -/

/-- A turn of a safe loop that uses up the order at `a`. -/
theorem SafeLoop.takes (hsafe : SafeLoop i head past b qty) (hq : qty ≠ 0) (hhead : head b = some l)
    (hfirst : (b.level l).firstOrder = some a) (hpast : past (b.data a).price = false)
    (hwhole : (b.data a).qty.toNat ≤ qty.toNat)
    (hrun : matchWhile i head past fuel b qty = .ok (b', left, sent)) :
    ∃ c k rest, (b.fillOrder a (b.data a).qty).removeOrder a = .ok c ∧
      SafeLoop i head past c (qty - (b.data a).qty) ∧
      matchWhile i head past k c (qty - (b.data a).qty) = .ok (b', left, rest) := by
  cases hsafe with
  | filled => exact absurd rfl hq
  | noLevel hnone => exact absurd (hnone.symm.trans hhead) (by simp)
  | stops hhead' _ hfirst' _ hpast' =>
    obtain rfl := Option.some_inj.1 (hhead'.symm.trans hhead)
    obtain rfl := Option.some_inj.1 (hfirst'.symm.trans hfirst)
    exact absurd (hpast'.symm.trans hpast) (by simp)
  | fills hhead' _ hfirst' _ _ hm hs =>
    obtain rfl := Option.some_inj.1 (hhead'.symm.trans hhead)
    obtain rfl := Option.some_inj.1 (hfirst'.symm.trans hfirst)
    cases fuel with
    | zero => exact absurd hrun (by simp [matchWhile])
    | succ fuel =>
      rw [matchWhile_fills hq hhead hfirst hpast, hm, ok_bind] at hrun
      obtain ⟨⟨d, l', rest⟩, hrest, heq⟩ := bind_eq_ok.1 hrun
      obtain ⟨rfl, hpair⟩ := Prod.mk.inj (Except.ok.inj heq)
      obtain ⟨rfl, -⟩ := Prod.mk.inj hpair
      rw [matchOrder_whole hwhole] at hm
      obtain ⟨c, hremove, heq'⟩ := bind_eq_ok.1 hm
      obtain ⟨rfl, hpair'⟩ := Prod.mk.inj (Except.ok.inj heq')
      obtain ⟨rfl, -⟩ := Prod.mk.inj hpair'
      exact ⟨c, fuel, rest, hremove, hs, hrest⟩

/-- A safe loop does not go on from a head that leads to a deallocated level. -/
theorem SafeLoop.eq_zero_of_gone (hsafe : SafeLoop i head past b qty) (hhead : head b = some l)
    (hgone : ¬ b.priceLevelsPool.Live l) : qty = 0 := by
  cases hsafe with
  | filled => rfl
  | noLevel hnone => exact absurd (hnone.symm.trans hhead) (by simp)
  | stops hhead' hl =>
    obtain rfl := Option.some_inj.1 (hhead'.symm.trans hhead)
    exact absurd hl.2 hgone
  | fills hhead' hl =>
    obtain rfl := Option.some_inj.1 (hhead'.symm.trans hhead)
    exact absurd hl.2 hgone

/-- **The bad case.**  The order that is not smaller than the best level takes its last order, and
the level with it; the head leads to the level all the same, and the loop must not go on. -/
theorem Ladders.matchWhile_exhausts (h : Ladders b bids asks ring)
    (hloop : LoopOf i price head past) (hl : l ∈ bids ++ asks) (hhead : head b = some l)
    (hcross : Crosses i.side price (b.level l).price) (hle : total b (ring l) ≤ qty.toNat)
    (hsafe : SafeLoop i head past b qty)
    (hrun : matchWhile i head past fuel b qty = .ok (b', left, sent)) :
    head b' = some l ∧ ¬ b'.priceLevelsPool.Live l := by
  generalize horders : ring l = orders at hle
  induction orders generalizing b ring qty fuel sent with
  | nil =>
    obtain ⟨a, t, hring, -⟩ := (h.level hl).entry
    exact absurd (horders.symm.trans hring) (by simp)
  | cons a t ih =>
    obtain ⟨hfirst, ha, hprice, hat⟩ := (h.level hl).oldest horders
    have hpast : past (b.data a).price = false := by
      rw [hloop.past_iff, hprice]
      exact hcross
    have hwhole : (b.data a).qty.toNat ≤ qty.toNat := by
      rw [total_cons] at hle
      omega
    have hq : qty ≠ 0 := by
      rintro rfl
      have hzero : (b.data a).qty.toNat = 0 := by simpa using hwhole
      exact (h.level hl).qty a ha (UInt32.toNat_inj.1 hzero)
    obtain ⟨c, k, rest, hremove, hcsafe, hcrun⟩ :=
      hsafe.takes hq hhead hfirst hpast hwhole hrun
    cases t with
    | nil =>
      -- the last order of the level
      obtain ⟨hgone, hbid, hask⟩ := (h.level hl).removeOrder_last horders hremove
      have hchead : head c = some l := (hloop.head_congr b c hbid hask).trans hhead
      have hzero := hcsafe.eq_zero_of_gone hchead hgone
      rw [hzero] at hcrun
      cases k with
      | zero => exact absurd hcrun (by simp [matchWhile])
      | succ k =>
        rw [matchWhile_zero] at hcrun
        obtain ⟨rfl, -⟩ := Prod.mk.inj (Except.ok.inj hcrun)
        exact ⟨hchead, hgone⟩
    | cons n t' =>
      obtain ⟨c', z, hremove', ht, hc⟩ := h.removeFilled hl horders (b.data a).qty
      obtain rfl : c = c' := Except.ok.inj (hremove.symm.trans hremove')
      have hclevel : (c.level l).price = (b.level l).price := by rw [ht.level, if_pos rfl]
      have htotal : total c (n :: t') = total b (n :: t') := total_congr fun q hqt =>
        ht.data q (ne_of_mem_of_not_mem hqt hat)
      have hsub := toNat_sub_add hwhole
      rw [total_cons b a] at hle
      exact ih hc ((hloop.head_congr b c ht.bidHead ht.askHead).trans hhead) (hclevel ▸ hcross)
        hcsafe hcrun (Function.update_self _ _ _) (by omega)

/-! ## Every order -/

/-- The loop has fuel for the orders of a level. -/
theorem HoldsOrders.length_le (h : HoldsOrders b ring l) :
    (ring l).length ≤ b.orderPool.size := by
  have hsub : ring l ⊆ List.range b.orderPool.size := fun p hp =>
    List.mem_range.2 (h.orderInUse p hp).1
  simpa using (h.isRing.nodup.subperm hsub).length_le

/-- What crosses no level crosses no order. -/
theorem not_crosses_of_mem_queue {levels : List Ptr}
    (hlevel : ∀ l ∈ levels, HoldsOrders b ring l)
    (hnot : ∀ l ∈ levels, ¬ Crosses i.side price (b.level l).price) :
    ∀ d ∈ queue b ring levels, ¬ Crosses i.side price d.price := by
  intro d hd
  obtain ⟨p, hp, rfl⟩ := List.mem_map.1 hd
  obtain ⟨l, hl, hpl⟩ := List.mem_flatMap.1 hp
  rw [(hlevel l hl).price p hpl]
  exact hnot l hl

/-- An order smaller than the best level is matched well: the other levels are as they were. -/
theorem LoopOf.matchesWell_of_filledWithin (hloop : LoopOf i price head past)
    (h : Ladders b bids asks ring) {rest : List Ptr}
    (hopp : oppositeLevels i.side bids asks = l :: rest) {orders : List Ptr}
    (hw : FilledWithin b bids asks ring i price head past l (b.orderPool.size + 1) qty b' sent
      orders) : MatchesWell b bids asks ring i price qty := by
  have hmem := hloop.mem bids asks
  have hnodup := hloop.nodup h
  rw [hopp] at hmem hnodup
  have hl : l ∈ bids ++ asks := hmem l List.mem_cons_self
  have hrest : ∀ m ∈ rest, m ≠ l ∧ (ring m).map b'.data = (ring m).map b.data := fun m hm => by
    have hml : m ≠ l := ne_of_mem_of_not_mem hm (List.nodup_cons.1 hnodup).1
    refine ⟨hml, List.map_congr_left fun q hq => hw.others q fun hql => hml ?_⟩
    exact (h.level (hmem m (List.mem_cons_of_mem l hm))).unique (h.level hl) hq hql
  have hqueue : queue b' (Function.update ring l orders) rest = queue b ring rest := by
    rw [queue, queue, List.map_flatMap, List.map_flatMap]
    refine List.flatMap_congr fun m hm => ?_
    rw [Function.update_of_ne (hrest m hm).1, (hrest m hm).2]
  rw [MatchesWell, hloop.safe]
  refine ⟨hw.safe, b', 0, sent, bids, asks, _, ?_, ?_, fun hzero => absurd rfl hzero, hw.ladders⟩
  · rw [hloop.check, hw.returns]
  · rw [hopp, queue_cons, queue_cons, hqueue, Function.update_self]
    exact trade_append hw.served

/-- An order that does not cross the best level crosses none, and nothing happens. -/
theorem LoopOf.matchesWell_of_not_crosses (hloop : LoopOf i price head past)
    (h : Ladders b bids asks ring) {rest : List Ptr}
    (hopp : oppositeLevels i.side bids asks = l :: rest)
    (hcross : ¬ Crosses i.side price (b.level l).price) :
    MatchesWell b bids asks ring i price qty := by
  have hmem := hloop.mem bids asks
  have hhead := hloop.head_eq h
  have hsorted := hloop.sorted h
  rw [hopp] at hmem hhead hsorted
  have hl : l ∈ bids ++ asks := hmem l List.mem_cons_self
  obtain ⟨a, t, hring, -⟩ := (h.level hl).entry
  obtain ⟨hfirst, ha, hprice, -⟩ := (h.level hl).oldest hring
  have hpast : past (b.data a).price = true := by
    rw [← Bool.not_eq_false, hloop.past_iff, hprice]
    exact hcross
  have hnot : ∀ m ∈ l :: rest, ¬ Crosses i.side price (b.level m).price := by
    intro m hm
    rcases List.mem_cons.1 hm with rfl | hm
    · exact hcross
    · exact fun hc => hcross ((List.pairwise_cons.1 hsorted).1 m hm hc)
  rw [MatchesWell, hloop.safe]
  refine ⟨.stops hhead (h.level hl).inUse hfirst ((h.level hl).orderInUse a ha) hpast, b, qty,
    [], bids, asks, ring, ?_, ?_, fun _ => ?_, h⟩
  · rw [hloop.check, matchWhile_stops hhead hfirst hpast]
  · rw [hopp]
    exact trade_eq_self i price qty
      (not_crosses_of_mem_queue (fun m hm => h.level (hmem m hm)) hnot)
  · rw [hopp]
    exact hnot

/-- An order that does not use up the best opposite level is matched well. -/
theorem LoopOf.matchesWell (hloop : LoopOf i price head past) (h : Ladders b bids asks ring)
    (hne : ¬ ExhaustsBest b bids asks ring i price qty) :
    MatchesWell b bids asks ring i price qty := by
  have hmem := hloop.mem bids asks
  have hhead := hloop.head_eq h
  cases hopp : oppositeLevels i.side bids asks with
  | nil =>
    rw [hopp] at hhead
    rw [MatchesWell, hloop.safe]
    refine ⟨.noLevel hhead, b, qty, [], bids, asks, ring, ?_, ?_, fun _ => ?_, h⟩
    · rw [hloop.check, matchWhile_noLevel hhead]
    · rw [hopp]
      rfl
    · simp [hopp]
  | cons l rest =>
    rw [hopp] at hhead hmem
    have hl : l ∈ bids ++ asks := hmem l List.mem_cons_self
    by_cases hcross : Crosses i.side price (b.level l).price
    · have hlt : qty.toNat < total b (ring l) := by
        by_contra hge
        exact hne ⟨l, by rw [hopp, List.head?_cons], hcross, Nat.le_of_not_lt hge⟩
      obtain ⟨b', sent, orders, hw⟩ := h.matchWhile_within hloop hl hhead hcross hlt
        (Nat.lt_succ_of_le (h.level hl).length_le)
      exact hloop.matchesWell_of_filledWithin h hopp hw
    · exact hloop.matchesWell_of_not_crosses h hopp hcross

/-- An order that uses up the best opposite level is not: the head is left at a level that was
deallocated. -/
theorem LoopOf.not_matchesWell (hloop : LoopOf i price head past) (h : Ladders b bids asks ring)
    (hex : ExhaustsBest b bids asks ring i price qty) :
    ¬ MatchesWell b bids asks ring i price qty := by
  rintro ⟨hsafe, b', left, sent, bids', asks', ring', hmatched⟩
  obtain ⟨l, hbest, hcross, hle⟩ := hex
  have hhead := hloop.head_eq h
  rw [hbest] at hhead
  have hl := hloop.mem bids asks l (List.mem_of_mem_head? hbest)
  have hrun := hmatched.returns
  rw [hloop.check] at hrun
  obtain ⟨hhead', hgone⟩ := h.matchWhile_exhausts hloop hl hhead hcross hle
    ((hloop.safe b qty).1 hsafe) hrun
  rw [hloop.head_eq hmatched.ladders] at hhead'
  have hl' := hloop.mem bids' asks' l (List.mem_of_mem_head? hhead')
  exact hgone (hmatched.ladders.level hl').inUse.2

/-- **When matching one order goes well.**  On every well-formed book it does exactly if the order
does not cross the best opposite level or is smaller than that level. -/
theorem checkForMatch_matchesWell_iff (h : Ladders b bids asks ring) (i : Incoming) (price : Price)
    (qty : Qty) :
    MatchesWell b bids asks ring i price qty ↔ ¬ ExhaustsBest b bids asks ring i price qty := by
  have hboth : ∀ {head : MEOrderBook → Option Ptr} {past : Price → Bool},
      LoopOf i price head past → (MatchesWell b bids asks ring i price qty ↔
        ¬ ExhaustsBest b bids asks ring i price qty) := fun hloop =>
    ⟨fun hw hex => hloop.not_matchesWell h hex hw, hloop.matchesWell h⟩
  cases hs : i.side with
  | buy => exact hboth (loopOf_buy hs price)
  | sell => exact hboth (loopOf_sell hs price)
  | invalid | max | unnamed =>
    -- a side that is neither trades with nobody
    have hcheck : b.checkForMatch i price qty = .ok (b, qty, []) := by rw [checkForMatch, hs]
    have hsafe : SafeCheck b i price qty := by simp [SafeCheck, hs]
    have hopp : ∀ bids asks, oppositeLevels i.side bids asks = [] := by simp [oppositeLevels, hs]
    refine ⟨fun _ hex => ?_, fun _ => ?_⟩
    · obtain ⟨l, hbest, -⟩ := hex
      simp [hopp] at hbest
    · refine ⟨hsafe, b, qty, [], bids, asks, ring, hcheck, ?_, fun _ => ?_, h⟩
      · rw [hopp]
        rfl
      · simp [hopp]

/-! ### One sell order -/

/-- A sell order of 5 at 100, alone in its level, and the ask head at the level. -/
def oneAsk : MEOrderBook where
  tickerId := 0
  clientOrders := Function.update (fun _ _ => none) 0 (Function.update (fun _ => none) 1 (some 0))
  bidLevelsHead := none
  askLevelsHead := some 0
  priceLevels := Function.update (fun _ => none) 100 (some 0)
  priceLevelsPool := (MemPool.init {} meMaxPriceLevels).push
    { side := .sell, price := 100, firstOrder := some 0, prevPriceLevel := some 0,
      nextPriceLevel := some 0 }
  orderPool := (MemPool.init {} meMaxOrderIds).push
    { tickerId := 0, clientId := 0, clientOrderId := 1, marketOrderId := 1, side := .sell,
      price := 100, qty := 5, priority := 1, prevOrder := some 0, nextOrder := some 0 }
  nextMarketOrderId := 2
  stackRoom := orderHashMapSize

theorem ladders_oneAsk : Ladders oneAsk [] [0] fun _ => [0] where
  bids := ⟨rfl, ⟨List.nodup_nil, Cycle.Chain.nil _⟩, List.Pairwise.nil, by simp⟩
  asks :=
    { head := rfl
      isRing := isRing_singleton.2 ⟨rfl, rfl⟩
      sorted := List.pairwise_singleton _ _
      level := fun l hl => by
        obtain rfl := List.mem_singleton.1 hl
        refine ⟨⟨by decide, rfl⟩, rfl, ⟨0, [], rfl, rfl⟩, isRing_singleton.2 ⟨rfl, rfl⟩, ?_, ?_,
          ?_, ?_⟩
        all_goals
          intro p hp
          obtain rfl := List.mem_singleton.1 hp
        · exact ⟨by decide, rfl⟩
        · rfl
        · decide
        · decide }

/-- 2 of the 5 are matched well. -/
theorem checkForMatch_matchesWell_oneAsk :
    MatchesWell oneAsk [] [0] (fun _ => [0]) taker 100 2 := by
  refine (checkForMatch_matchesWell_iff ladders_oneAsk taker 100 2).2 ?_
  rintro ⟨l, -, -, hle⟩
  have htotal : total oneAsk [0] = 5 := by decide
  exact absurd (htotal.symm.trans_le hle) (by decide)

/-- All 5 are not. -/
theorem not_matchesWell_oneAsk : ¬ ∀ b bids asks ring, Ladders b bids asks ring → ∀ i price qty,
    MatchesWell b bids asks ring i price qty := by
  intro h
  exact (loopOf_buy rfl 100).not_matchesWell ladders_oneAsk
    ⟨0, rfl, by decide, by decide⟩ (h _ _ _ _ ladders_oneAsk taker 100 5)

end MEOrderBook
end Exchange
end TradingEcosystem
