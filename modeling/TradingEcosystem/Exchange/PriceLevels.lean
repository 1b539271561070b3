import TradingEcosystem.Exchange.OrderTable

/-!
# Prices and levels

The header calls it an important invariant that a price has one level and a level one side.  The
price table finds a level by the residue of the price and never looks at the price it finds, so an
order joins whatever level its slot has.  `along_oneLevel_iff` says when the invariant holds: as
long as no `NEW` finds an order of another price or of the other side in its slot.
-/

set_option autoImplicit false

namespace TradingEcosystem
namespace Exchange
namespace MEOrderBook

open Run

/-- The order at `p` is in the ring of the level at `l`, which is in the price table. -/
def InLevel (b : MEOrderBook) (l p : Ptr) : Prop :=
  ∃ i < meMaxPriceLevels, b.priceLevels i = some l ∧ ∃ a, (b.level l).firstOrder = some a ∧
    Relation.ReflTransGen (fun q r => b.nextOrder q = some r) a p

/-- **One level, one price, one side.** -/
structure OneLevel (b : MEOrderBook) : Prop where
  /-- An order has the price and the side of its level. -/
  fields : ∀ l p, b.InLevel l p →
    (b.data p).price = (b.level l).price ∧ (b.data p).side = (b.level l).side
  /-- Orders share a level exactly when they share price and side. -/
  shared : ∀ l m p q, b.InLevel l p → b.InLevel m q →
    (l = m ↔ (b.data p).price = (b.data q).price ∧ (b.data p).side = (b.data q).side)
  /-- A price is not on both sides. -/
  oneSide : ∀ p q, b.Reaches p → b.Reaches q → (b.data p).price = (b.data q).price →
    ¬ ((b.data p).side = .buy ∧ (b.data q).side = .sell)

/-- It holds after the request. -/
def KeepsLevels (b : MEOrderBook) (req : MEClientRequest) : Prop :=
  ∀ b', Next b req b' → OneLevel b'

/-- The condition: the orders in the slot of a `NEW` with a quantity have its price and its side. -/
def FindsOwnLevel (b : MEOrderBook) (req : MEClientRequest) : Prop :=
  req.requestType = .new → req.qty ≠ 0 → ∀ d, b.Rests d →
    priceToIndex d.price = priceToIndex req.price → d.price = req.price ∧ d.side = req.side

variable {b b' : MEOrderBook} {ring : Nat → List Ptr} {req : MEClientRequest} {sent : List Sent}

/-! ## Levels of a book of rings -/

theorem Slots.inLevel_iff (h : Slots b ring) {l p : Ptr} :
    b.InLevel l p ↔ ∃ i, b.priceLevels i = some l ∧ p ∈ ring i := by
  constructor
  · rintro ⟨i, -, hl, hp⟩
    exact ⟨i, hl, ((h.inSlot i).reaches_iff hl).1 hp⟩
  · rintro ⟨i, hl, hp⟩
    exact ⟨i, (h.inSlot i).index_lt hp, hl, ((h.inSlot i).reaches_iff hl).2 hp⟩

/-- What a slot's level says of its orders is all there is to say. -/
theorem Slots.oneLevel_iff (h : Slots b ring) : OneLevel b ↔
    ∀ i l, b.priceLevels i = some l → ∀ p ∈ ring i,
      (b.data p).price = (b.level l).price ∧ (b.data p).side = (b.level l).side := by
  refine ⟨fun hone i l hl p hp => hone.fields l p (h.inLevel_iff.2 ⟨i, hl, hp⟩), fun hall => ?_⟩
  refine ⟨?_, ?_, ?_⟩
  · intro l p hlp
    obtain ⟨i, hl, hp⟩ := h.inLevel_iff.1 hlp
    exact hall i l hl p hp
  · intro l m p q hlp hmq
    obtain ⟨i, hl, hp⟩ := h.inLevel_iff.1 hlp
    obtain ⟨j, hm, hq⟩ := h.inLevel_iff.1 hmq
    obtain ⟨hpp, hps⟩ := hall i l hl p hp
    obtain ⟨hqp, hqs⟩ := hall j m hm q hq
    constructor
    · rintro rfl
      exact ⟨hpp.trans hqp.symm, hps.trans hqs.symm⟩
    · rintro ⟨hprice, -⟩
      have hij : i = j := by rw [← h.slotOf i p hp, hprice, h.slotOf j q hq]
      rw [hij, hm, Option.some_inj] at hl
      exact hl.symm
  · rintro p q hp hq hprice ⟨hbuy, hsell⟩
    obtain ⟨i, hi⟩ := h.reaches_iff.1 hp
    obtain ⟨j, hj⟩ := h.reaches_iff.1 hq
    have hij : i = j := by rw [← h.slotOf i p hi, hprice, h.slotOf j q hj]
    subst hij
    obtain ⟨a, t, hr⟩ : ∃ a t, ring i = a :: t :=
      List.exists_cons_of_ne_nil (List.ne_nil_of_mem hi)
    obtain ⟨l, hl, -⟩ := h.slotCons i a t hr
    have hsides := (hall i l hl p hi).2.trans (hall i l hl q hj).2.symm
    rw [hbuy, hsell] at hsides
    exact absurd hsides (by decide)

/-! ## What requests do to levels -/

/-- What `addOrder` does to the levels: an empty slot gets a new one, with the price and the side of
the order. -/
structure LevelAdded (b b' : MEOrderBook) (d : OrderData) : Prop where
  slot : ∀ i, b'.priceLevels i =
    if b.getPriceLevel d.price = none ∧ i = priceToIndex d.price then
      some b.priceLevelsPool.nextFreeIndex
    else b.priceLevels i
  fields : ∀ l, ((b'.level l).price, (b'.level l).side) =
    if b.getPriceLevel d.price = none ∧ l = b.priceLevelsPool.nextFreeIndex then (d.price, d.side)
    else ((b.level l).price, (b.level l).side)

/-- What `removeOrder` does to them: none is new, and none changes. -/
structure LevelsKept (b b' : MEOrderBook) : Prop where
  slot : ∀ i l, b'.priceLevels i = some l → b.priceLevels i = some l
  fields : ∀ l, ((b'.level l).price, (b'.level l).side) = ((b.level l).price, (b.level l).side)

theorem setClientOrder_levels {c : MEOrderBook} {clientId : ClientId} {clientOrderId : OrderId}
    {v : Option Ptr} (h : b.setClientOrder clientId clientOrderId v = .ok c) :
    c.priceLevels = b.priceLevels ∧ c.priceLevelsPool = b.priceLevelsPool := by
  rw [setClientOrder] at h
  split at h
  · obtain rfl := Except.ok.inj h
    exact ⟨rfl, rfl⟩
  · exact absurd h (by simp)

theorem level_withNewLevel (b : MEOrderBook) (d : OrderData) (l : Ptr) :
    (((b.withNewLevel d).level l).price, ((b.withNewLevel d).level l).side) =
      if l = b.priceLevelsPool.nextFreeIndex then (d.price, d.side)
      else ((b.level l).price, (b.level l).side) := by
  have hpool : (b.withNewLevel d).priceLevelsPool = ((b.priceLevelsPool.push
      { side := d.side, price := d.price, firstOrder := some b.nextOrderPtr }).modify
        b.priceLevelsPool.nextFreeIndex fun l =>
          { l with prevPriceLevel := some b.priceLevelsPool.nextFreeIndex }).modify
        b.priceLevelsPool.nextFreeIndex fun l =>
          { l with nextPriceLevel := some b.priceLevelsPool.nextFreeIndex } := rfl
  rw [level, hpool]
  split
  · next hl => rw [hl, MemPool.get_modify_self, MemPool.get_modify_self, MemPool.get_push_self]
  · next hl =>
    rw [MemPool.get_modify_ne _ _ hl, MemPool.get_modify_ne _ _ hl, MemPool.get_push_ne _ _ hl,
      level]

theorem addOrder_levels (h : Slots b ring) (d : OrderData)
    (hb : (b.withOrder d).addOrder b.nextOrderPtr = .ok b') : LevelAdded b b' d := by
  cases hr : ring (priceToIndex d.price) with
  | nil =>
    have hslot := h.getPriceLevel_none.2 hr
    have hlev : b.priceLevelsPool.Room := by
      by_contra hfull
      exact absurd (hb.symm.trans (addOrder_full h d hslot hfull)) (by simp)
    rw [addOrder_nil h d hslot hlev] at hb
    obtain ⟨htable, hpool⟩ := setClientOrder_levels hb
    refine ⟨fun i => ?_, fun l => ?_⟩
    · rw [htable]
      by_cases hi : i = priceToIndex d.price
      · rw [if_pos ⟨hslot, hi⟩, hi]
        exact Function.update_self _ _ _
      · rw [if_neg fun hif => hi hif.2]
        exact Function.update_of_ne hi _ _
    · rw [level, hpool, ← level, level_withNewLevel]
      by_cases hl : l = b.priceLevelsPool.nextFreeIndex
      · rw [if_pos hl, if_pos ⟨hslot, hl⟩]
      · rw [if_neg hl, if_neg fun hif => hl hif.2]
  | cons a t =>
    have hslot : b.getPriceLevel d.price ≠ none := fun hn => by
      rw [h.getPriceLevel_none.1 hn] at hr
      exact absurd hr (by simp)
    rw [addOrder_cons h d hr (hr ▸ h.isRing (priceToIndex d.price)).prev_head] at hb
    obtain ⟨htable, hpool⟩ := setClientOrder_levels hb
    refine ⟨fun i => ?_, fun l => ?_⟩
    · rw [if_neg fun hif => hslot hif.1, htable, priceLevels_withLastOrder]
    · rw [if_neg fun hif => hslot hif.1, level, hpool, priceLevelsPool_withLastOrder]
      rfl

theorem removeOrder_levels (h : Slots b ring) {i : Nat} {p : Ptr} (hp : p ∈ ring i)
    (hb : b.removeOrder p = .ok b') : LevelsKept b b' := by
  obtain ⟨l, hl, ⟨-, hb'⟩ | ⟨q, -, n, -, -, -, -, hb'⟩⟩ := removeOrder_cases h hp
  · obtain rfl := Except.ok.inj (hb.symm.trans hb')
    refine ⟨fun k m hm => ?_, fun m => ?_⟩
    · rw [← hm]
      have htable : ((b.withoutLevel (b.data p).price l).forget (b.data p) p).priceLevels =
          Function.update b.priceLevels (priceToIndex (b.data p).price) none := rfl
      rw [htable] at hm ⊢
      by_cases hk : k = priceToIndex (b.data p).price
      · rw [hk, Function.update_self] at hm
        exact absurd hm (by simp)
      · exact (Function.update_of_ne hk none b.priceLevels).symm
    · have hget : (b.priceLevelsPool.release l).get m = b.priceLevelsPool.get m :=
        MemPool.get_release _ _ _
      exact congrArg (fun x : MEOrderAtPriceLevel => (x.price, x.side)) hget
  · obtain rfl := Except.ok.inj (hb.symm.trans hb')
    refine ⟨fun k m hm => ?_, fun m => ?_⟩
    · exact (congrFun (priceLevels_withoutOrder b p q n l) k).symm.trans hm
    · have hlevel : ((b.withoutOrder p q n l).forget (b.data p) p).level m = _ :=
        level_withoutOrder b p q n l m
      rw [hlevel]
      split
      · next hm => rw [hm.1]
      · rfl

/-- The call of `addOrder` in a `NEW` that rests. -/
theorem addOrder_of_process (h : Slots b ring) (hn : req.requestType = .new) (hq : req.qty ≠ 0)
    (hb : b.process req = .ok (b', sent)) :
    (b.generateNewMarketOrderId.withOrder (b.newOrder ring req)).addOrder b.nextOrderPtr =
      .ok b' := by
  obtain ⟨hroom, -⟩ := process_new_room h hn hq hb
  rw [process_new_eq h hn, if_neg hq, MemPool.allocate_eq h.pools.orderFrontier hroom,
    ok_bind] at hb
  obtain ⟨c, hc, heq⟩ := bind_eq_ok.1 hb
  rw [← (Prod.mk.inj (Except.ok.inj heq)).1]
  exact hc

/-- The call of `removeOrder` in a `CANCEL` that finds its order. -/
theorem removeOrder_of_process (hn : req.requestType = .cancel) {p : Ptr}
    (hc : req.clientId.toNat < meMaxNumClients ∧ req.orderId.toNat < meMaxOrderIds)
    (hp : b.clientOrders req.clientId req.orderId = some p)
    (hb : b.process req = .ok (b', sent)) : b.removeOrder p = .ok b' := by
  have hfits := process_cancel_fits hn hc.1 hb
  rw [process, hn] at hb
  simp only [cancel, copyClientOrders_of hfits, clientOrderAt, if_pos hc.1, if_pos hc, ok_bind,
    hp] at hb
  obtain ⟨c, hc, heq⟩ := bind_eq_ok.1 hb
  rw [← (Prod.mk.inj (Except.ok.inj heq)).1]
  exact hc

/-! ## The exact condition -/

/-- The level of a slot that was empty is the order's own. -/
theorem LevelAdded.of_empty {d : OrderData} (ha : LevelAdded b b' d) {l : Ptr}
    (hslot : b.getPriceLevel d.price = none)
    (hl : b'.priceLevels (priceToIndex d.price) = some l) :
    (b'.level l).price = d.price ∧ (b'.level l).side = d.side := by
  rw [ha.slot, if_pos ⟨hslot, rfl⟩, Option.some_inj] at hl
  have hfields := ha.fields l
  rw [if_pos ⟨hslot, hl.symm⟩] at hfields
  exact Prod.mk.inj hfields

/-- The level of a slot in use stays, and says what it said. -/
theorem LevelAdded.of_used {d : OrderData} (ha : LevelAdded b b' d) (h : Slots b ring) {i : Nat}
    {l : Ptr} (hused : ring i ≠ []) (hl : b'.priceLevels i = some l) :
    b.priceLevels i = some l ∧
      (b'.level l).price = (b.level l).price ∧ (b'.level l).side = (b.level l).side := by
  have hslot : ¬ (b.getPriceLevel d.price = none ∧ i = priceToIndex d.price) := by
    rintro ⟨hnone, rfl⟩
    exact hused (h.getPriceLevel_none.1 hnone)
  rw [ha.slot, if_neg hslot] at hl
  obtain ⟨-, -, -, hlive, -⟩ := h.level_of_slot hl
  have hfields := ha.fields l
  rw [if_neg fun hif => (h.pools.levelFrontier.lt_of_live hlive).ne hif.2] at hfields
  exact ⟨hl, Prod.mk.inj hfields⟩

/-- **Inserting** keeps the invariant if and only if the orders in the slot are alike. -/
theorem Slots.oneLevel_inserted (h : Slots b ring) (hone : OneLevel b) {d : OrderData}
    (hi : Inserted b b' d) (ha : LevelAdded b b' d)
    (hs : Slots b' (Function.update ring (priceToIndex d.price)
      (ring (priceToIndex d.price) ++ [b.nextOrderPtr]))) :
    OneLevel b' ↔ ∀ e, b.Rests e → priceToIndex e.price = priceToIndex d.price →
      e.price = d.price ∧ e.side = d.side := by
  have hold : ∀ i, ∀ p ∈ ring i, b'.data p = b.data p := fun i p hp =>
    hi.other p (h.ne_fresh hp)
  rw [h.oneLevel_iff] at hone
  rw [hs.oneLevel_iff]
  constructor
  · intro hall e he hslot
    obtain ⟨i, hi'⟩ := h.rests_iff.1 he
    obtain ⟨p, hp, rfl⟩ := mem_ordersIn.1 hi'
    rw [h.slotOf i p hp] at hslot
    subst hslot
    have hnew : b.nextOrderPtr ∈ Function.update ring (priceToIndex d.price)
        (ring (priceToIndex d.price) ++ [b.nextOrderPtr]) (priceToIndex d.price) :=
      (mem_inserted _ _).2 (Or.inl ⟨rfl, rfl⟩)
    have hpin : p ∈ Function.update ring (priceToIndex d.price)
        (ring (priceToIndex d.price) ++ [b.nextOrderPtr]) (priceToIndex d.price) :=
      (mem_inserted _ _).2 (Or.inr hp)
    obtain ⟨a, t, hr⟩ := List.exists_cons_of_ne_nil (List.ne_nil_of_mem hnew)
    obtain ⟨l, hl, -⟩ := hs.slotCons _ a t hr
    have h1 := hall _ l hl _ hnew
    have h2 := hall _ l hl _ hpin
    rw [hi.self] at h1
    rw [hold _ p hp] at h2
    exact ⟨h2.1.trans h1.1.symm, h2.2.trans h1.2.symm⟩
  · intro hcond i l hl p hp
    by_cases hnil : ring i = []
    · -- the order is alone in a new level
      rcases (mem_inserted _ _).1 hp with ⟨rfl, rfl⟩ | hp
      · obtain ⟨hprice, hside⟩ := ha.of_empty (h.getPriceLevel_none.2 hnil) hl
        rw [hi.self]
        exact ⟨hprice.symm, hside.symm⟩
      · rw [hnil] at hp
        exact absurd hp (by simp)
    · obtain ⟨hl, hprice, hside⟩ := ha.of_used h hnil hl
      rw [hprice, hside]
      rcases (mem_inserted _ _).1 hp with ⟨hi', rfl⟩ | hp
      · -- it joins a level, whose oldest order is like it
        obtain ⟨a, t, hr⟩ := List.exists_cons_of_ne_nil hnil
        have ha' : a ∈ ring i := by simp [hr]
        have halike := hcond _ (h.rests_iff.2 ⟨i, mem_ordersIn.2 ⟨a, ha', rfl⟩⟩)
          ((h.slotOf i a ha').trans hi')
        have hlevel := hone i l hl a ha'
        rw [hi.self]
        exact ⟨halike.1.symm.trans hlevel.1, halike.2.symm.trans hlevel.2⟩
      · rw [hold i p hp]
        exact hone i l hl p hp

/-- **Removing** keeps it. -/
theorem Slots.oneLevel_removed (h : Slots b ring) (hone : OneLevel b) {i : Nat} {p : Ptr}
    (hi : p ∈ ring i) (hr : Removed b b' p) (hk : LevelsKept b b')
    (hs : Slots b' (Function.update ring i ((ring i).erase p))) : OneLevel b' := by
  rw [h.oneLevel_iff] at hone
  rw [hs.oneLevel_iff]
  intro j l hl q hq
  obtain ⟨hprice, hside⟩ := Prod.mk.inj (hk.fields l)
  rw [hr.data, hprice, hside]
  exact hone j l (hk.slot j l hl) q ((h.mem_removed hi j q).1 hq).1

/-- What holds between two requests. -/
def Levelled (b : MEOrderBook) : Prop := (∃ ring, Slots b ring) ∧ OneLevel b

theorem levelled_init (t : TickerId) : Levelled (init t) :=
  ⟨⟨_, slots_init t⟩, (slots_init t).oneLevel_iff.2 fun _ _ _ _ hp => absurd hp (by simp)⟩

/-- **One request.** -/
theorem Levelled.keepsLevels_iff (h : Levelled b) (hret : Returns b req) :
    KeepsLevels b req ↔ FindsOwnLevel b req := by
  obtain ⟨⟨ring, h⟩, hone⟩ := h
  obtain ⟨⟨c, sent⟩, hc⟩ := hret
  rw [KeepsLevels, forall_next_iff hc]
  cases processed_of_eq_ok h hc with
  | empty hn hq =>
    exact iff_of_true ⟨hone.fields, hone.shared, hone.oneSide⟩ fun _ hq' => absurd hq hq'
  | rested hn hq hi hs =>
    have hg := h.generateNewMarketOrderId
    have hone' : OneLevel b.generateNewMarketOrderId := ⟨hone.fields, hone.shared, hone.oneSide⟩
    rw [hg.oneLevel_inserted hone' hi (addOrder_levels hg _ (addOrder_of_process h hn hq hc)) hs]
    exact ⟨fun hf _ _ => hf, fun hf => hf hn hq⟩
  | dropped hn => exact iff_of_true hone fun hn' => absurd (hn.symm.trans hn') (by decide)
  | missed hn => exact iff_of_true hone fun hn' => absurd (hn.symm.trans hn') (by decide)
  | removed hn hp hi hr hs =>
    obtain ⟨-, hcl, hor⟩ := h.table _ _ _ hp
    have hids := h.idsLt _ _ hi
    rw [hcl, hor] at hids
    have hk := removeOrder_levels h hi (removeOrder_of_process hn hids hp hc)
    exact iff_of_true (h.oneLevel_removed hone hi hr hk hs)
      fun hn' => absurd (hn.symm.trans hn') (by decide)

theorem Levelled.along_iff (h : Levelled b) {reqs : List MEClientRequest}
    (hret : Along Next Returns b reqs) :
    Along Next KeepsLevels b reqs ↔ Along Next FindsOwnLevel b reqs :=
  along_keeps_iff (fun _ _ h hret => Levelled.keepsLevels_iff h hret) h hret

/-- **One level, one price, one side**, in every state of a run, exactly when no `NEW` of the run
finds an order of another price or of the other side in its slot. -/
theorem along_oneLevel_iff (t : TickerId) (reqs : List MEClientRequest)
    {y : MEOrderBook × List Sent} (hrun : (init t).processAll reqs = .ok y) :
    Along Next KeepsLevels (init t) reqs ↔ Along Next FindsOwnLevel (init t) reqs :=
  (levelled_init t).along_iff (along_returns reqs hrun)

/-- A buy order at 100. -/
def bidAt100 : MEClientRequest where
  requestType := .new
  clientId := 1
  tickerId := 0
  orderId := 5
  price := 100
  qty := 10
  side := .buy

/-- Another client's sell order, 256 above. -/
def askAt356 : MEClientRequest := { bidAt100 with clientId := 2, price := 356, side := .sell }

/-- Two orders of one price and side, and the cancel of the first. -/
theorem along_oneLevel_twoBids : Along Next KeepsLevels (init 0)
    [bidAt100, { bidAt100 with clientId := 2 }, { bidAt100 with requestType := .cancel }] := by
  have hrun : ∃ y, (init 0).processAll
    [bidAt100, { bidAt100 with clientId := 2 }, { bidAt100 with requestType := .cancel }] =
      .ok y := ⟨_, rfl⟩
  obtain ⟨y, hrun⟩ := hrun
  refine (along_oneLevel_iff 0 _ hrun).2 ⟨fun _ _ d hd => absurd hd (not_rests_init 0 d), ?_⟩
  intro b hb
  refine ⟨fun _ _ d hd _ => ?_, fun _ _ => ⟨fun hn => absurd hn (by decide), fun _ _ => trivial⟩⟩
  obtain ⟨ring, htab⟩ := (tabulates_init 0 orderHashMapSize).next rfl hb
  have hone : ∀ d ∈ ({} : OrderTable).entries ++ [⟨0, ({} : OrderTable).newOrder bidAt100⟩],
      d.order.price = bidAt100.price ∧ d.order.side = bidAt100.side := by decide
  obtain ⟨e, he, rfl⟩ := List.mem_map.1 ((htab.rests_iff d).1 hd)
  exact hone e he

/-- The two orders end up in one level, which says it is a buy level at 100. -/
theorem not_along_oneLevel : ¬ ∀ reqs y, (init 0).processAll reqs = .ok y →
    Along Next KeepsLevels (init 0) reqs := by
  intro h
  have hrun : ∃ y, (init 0).processAll [bidAt100, askAt356] = .ok y := ⟨_, rfl⟩
  have hfirst : ∃ b, Next (init 0) bidAt100 b ∧ ∃ d, b.Rests d ∧ d.price = bidAt100.price :=
    ⟨_, ⟨_, rfl⟩, _, ⟨0, ⟨100, by decide, 0, 0, rfl, rfl, .refl⟩, rfl⟩, rfl⟩
  obtain ⟨y, hrun⟩ := hrun
  obtain ⟨b, hb, d, hd, hprice⟩ := hfirst
  have hown := (((levelled_init 0).along_iff (along_returns _ hrun)).1 (h _ y hrun)).2 b hb
  have hsame := (hown.1 rfl (by decide) d hd (by rw [hprice]; decide)).1
  exact absurd (hprice.symm.trans hsame) (by decide)

end MEOrderBook
end Exchange
end TradingEcosystem
