import TradingEcosystem.Exchange.BookRun
import TradingEcosystem.Exchange.ReferenceBook
import TradingEcosystem.Exchange.Rings
import TradingEcosystem.Lib.Along
import Mathlib.Algebra.BigOperators.Group.List.Basic
import Mathlib.Algebra.GroupWithZero.Nat

/-!
# Quantity is conserved by fills

A call of `match` moves quantity from the incoming order and from a resting one into a trade, and
says so four times.  `FillReport` is what one call says; `Accounted` compares it with the book
before and after the call; `matchEach_conserves` adds up the calls of an incoming order, on resting
orders in any order.
-/

set_option autoImplicit false

namespace TradingEcosystem
namespace Exchange
namespace MEOrderBook

open Run

variable {b b' : MEOrderBook} {ring ring' : Nat → List Ptr} {i : Incoming} {p : Ptr}
  {leftQty left : Qty} {out : List Sent} {j : Nat}

/-! ## One call -/

/-- The resting order gives `fillQty`. -/
def fillOrder (b : MEOrderBook) (p : Ptr) (fillQty : Qty) : MEOrderBook :=
  b.setOrder p fun o => { o with qty := o.qty - fillQty }

theorem data_fillOrder (b : MEOrderBook) (p q : Ptr) (fillQty : Qty) :
    (b.fillOrder p fillQty).data q =
      if q = p then { b.data p with qty := (b.data p).qty - fillQty } else b.data q := by
  simp only [data, fillOrder, setOrder, order, MemPool.get_modify]
  split <;> rfl

theorem nextOrder_fillOrder (b : MEOrderBook) (p q : Ptr) (fillQty : Qty) :
    (b.fillOrder p fillQty).nextOrder q = b.nextOrder q := by
  simp only [nextOrder, fillOrder, setOrder, order, MemPool.get_modify]
  split
  · next h => rw [h]
  · rfl

theorem prevOrder_fillOrder (b : MEOrderBook) (p q : Ptr) (fillQty : Qty) :
    (b.fillOrder p fillQty).prevOrder q = b.prevOrder q := by
  simp only [prevOrder, fillOrder, setOrder, order, MemPool.get_modify]
  split
  · next h => rw [h]
  · rfl

theorem Rings.fillOrder (h : Rings b ring) (p : Ptr) (fillQty : Qty) :
    Rings (b.fillOrder p fillQty) ring where
  inSlot := fun j => (h.inSlot j).congr rfl (fun _ _ => rfl)
    (fun q _ => nextOrder_fillOrder b p q fillQty) (fun q _ => prevOrder_fillOrder b p q fillQty)
    fun q _ => by
      rw [data_fillOrder]
      split
      · next hq => rw [hq]
      · rfl
  slotInj := h.slotInj
  levelRing := fun j l hl => (h.levelRing j l hl).congr (fun _ => rfl) (fun _ => rfl) rfl

/-- What a call of `match` does: it fills the lesser quantity, says so, and removes the resting
order when nothing is left of it. -/
theorem matchOrder_eq (b : MEOrderBook) (i : Incoming) (p : Ptr) (leftQty : Qty) :
    let o := b.data p
    let fillQty := min leftQty o.qty
    let c := b.fillOrder p fillQty
    let sent := fillMessages i o fillQty (leftQty - fillQty) ++
      [ReferenceBook.afterFill i o fillQty]
    b.matchOrder i p leftQty =
      if o.qty - fillQty = 0 then do
        let b' ← c.removeOrder p
        return (b', leftQty - fillQty, sent)
      else .ok (c, leftQty - fillQty, sent) := by
  intro o fillQty c sent
  have hqty : (c.order p).qty = o.qty - fillQty := by
    have hdata := data_fillOrder b p p fillQty
    rw [if_pos rfl] at hdata
    exact congrArg OrderData.qty hdata
  by_cases hzero : o.qty - fillQty = 0
  · have hafter : ReferenceBook.afterFill i o fillQty = _ := if_pos hzero
    rw [if_pos hzero]
    simp only [sent, hafter]
    exact if_pos (hqty.trans hzero)
  · have hafter : ReferenceBook.afterFill i o fillQty = _ := if_neg hzero
    rw [if_neg hzero]
    simp only [sent, hafter]
    exact if_neg fun h => hzero (hqty.symm.trans h)

theorem matchOrder_eq_ok (h : b.matchOrder i p leftQty = .ok (b', left, out)) :
    let o := b.data p
    let fillQty := min leftQty o.qty
    let c := b.fillOrder p fillQty
    left = leftQty - fillQty ∧
      out = fillMessages i o fillQty (leftQty - fillQty) ++ [ReferenceBook.afterFill i o fillQty] ∧
      (o.qty - fillQty = 0 ∧ c.removeOrder p = .ok b' ∨ o.qty - fillQty ≠ 0 ∧ b' = c) := by
  intro o fillQty c
  rw [matchOrder_eq] at h
  split at h
  · next hzero =>
    obtain ⟨d, hd, heq⟩ := bind_eq_ok.1 h
    obtain ⟨rfl, hrest⟩ := Prod.mk.inj (Except.ok.inj heq)
    obtain ⟨rfl, rfl⟩ := Prod.mk.inj hrest
    exact ⟨rfl, rfl, Or.inl ⟨hzero, hd⟩⟩
  · next hne =>
    obtain ⟨rfl, hrest⟩ := Prod.mk.inj (Except.ok.inj h)
    obtain ⟨rfl, rfl⟩ := Prod.mk.inj hrest
    exact ⟨rfl, rfl, Or.inr ⟨hne, rfl⟩⟩

/-! ## What one call says -/

/-- The messages of a call: the two fills, the trade, and what became of the resting order. -/
structure FillReport where
  incoming : MEClientResponse
  resting : MEClientResponse
  trade : MEMarketUpdate
  after : MEMarketUpdate

/-- The messages in the order they are sent. -/
def FillReport.sent (r : FillReport) : List Sent :=
  [.clientResponse r.incoming, .clientResponse r.resting, .marketUpdate r.trade,
    .marketUpdate r.after]

/-- The messages on a fill of the resting order `o` that leaves `leftQty` of the incoming one. -/
def fillReport (i : Incoming) (o : OrderData) (fillQty leftQty : Qty) : FillReport where
  incoming :=
    { type := .filled, clientId := i.clientId, tickerId := i.tickerId,
      clientOrderId := i.clientOrderId, markerOrderId := i.marketOrderId, side := i.side,
      price := o.price, execQty := fillQty, leftQty }
  resting :=
    { type := .filled, clientId := o.clientId, tickerId := o.tickerId,
      clientOrderId := o.clientOrderId, markerOrderId := o.marketOrderId, side := o.side,
      price := o.price, execQty := fillQty, leftQty := o.qty - fillQty }
  trade :=
    { type := .trade, orderId := orderIdInvalid, tickerId := i.tickerId, side := i.side,
      price := o.price, qty := fillQty, priority := priorityInvalid }
  after :=
    if o.qty - fillQty = 0 then
      { type := .cancel, orderId := o.marketOrderId, tickerId := i.tickerId, side := o.side,
        price := o.price, qty := o.qty, priority := priorityInvalid }
    else
      { type := .modify, orderId := o.marketOrderId, tickerId := i.tickerId, side := o.side,
        price := o.price, qty := o.qty - fillQty, priority := o.priority }

theorem sent_fillReport (i : Incoming) (o : OrderData) (fillQty leftQty : Qty) :
    (fillReport i o fillQty leftQty).sent =
      fillMessages i o fillQty leftQty ++ [ReferenceBook.afterFill i o fillQty] := by
  rw [FillReport.sent, fillReport, ReferenceBook.afterFill]
  by_cases hzero : o.qty - fillQty = 0
  · rw [if_pos hzero, if_pos hzero]
    rfl
  · rw [if_neg hzero, if_neg hzero]
    rfl

/-- **One call is accounted for**: `r` tells what the call for `p` did to the book and to the
quantity left. -/
structure Accounted (i : Incoming) (b : MEOrderBook) (ring : Nat → List Ptr) (leftQty : Qty)
    (p : Ptr) (r : FillReport) (b' : MEOrderBook) (ring' : Nat → List Ptr) (left : Qty) : Prop where
  resting : ∃ j, p ∈ ring j
  types : r.incoming.type = .filled ∧ r.resting.type = .filled ∧ r.trade.type = .trade
  /-- One fill names the incoming order. -/
  incomingIds : r.incoming.clientId = i.clientId ∧ r.incoming.clientOrderId = i.clientOrderId ∧
    r.incoming.markerOrderId = i.marketOrderId
  /-- The other fill names the resting order. -/
  restingIds : r.resting.clientId = (b.data p).clientId ∧
    r.resting.clientOrderId = (b.data p).clientOrderId ∧
    r.resting.markerOrderId = (b.data p).marketOrderId
  /-- All three speak of one quantity. -/
  execQty : r.resting.execQty = r.incoming.execQty ∧ r.trade.qty = r.incoming.execQty
  /-- All three speak of the resting order's price. -/
  prices : r.incoming.price = (b.data p).price ∧ r.resting.price = (b.data p).price ∧
    r.trade.price = (b.data p).price
  /-- The incoming order's remainder, which is no smaller than it says. -/
  incomingLeft : r.incoming.leftQty = left ∧
    left.toNat + r.incoming.execQty.toNat = leftQty.toNat
  /-- The resting order's remainder, likewise. -/
  restingLeft : r.resting.leftQty = (b'.data p).qty ∧
    (b'.data p).qty.toNat + r.incoming.execQty.toNat = (b.data p).qty.toNat
  afterId : r.after.orderId = (b.data p).marketOrderId
  /-- A resting order that reaches `0` is cancelled and removed. -/
  removed : (b'.data p).qty = 0 → r.after.type = .cancel ∧ ∀ j, ring' j = (ring j).erase p
  /-- Any other is modified and stays. -/
  kept : (b'.data p).qty ≠ 0 → r.after.type = .modify ∧ r.after.qty = (b'.data p).qty ∧
    ring' = ring
  /-- The resting order changes its quantity only. -/
  self : b'.data p = { b.data p with qty := (b'.data p).qty }
  /-- The other orders do not change. -/
  others : ∀ q, q ≠ p → b'.data q = b.data q
  rings : Rings b' ring'

theorem toNat_min (a c : Qty) : (min a c).toNat = min a.toNat c.toNat := by
  have hmin : min a c = if a ≤ c then a else c := rfl
  rw [hmin]
  split
  · next h => rw [Nat.min_eq_left (UInt32.le_iff_toNat_le.1 h)]
  · next h => rw [Nat.min_eq_right (by rw [UInt32.le_iff_toNat_le] at h; omega)]

/-- Taking away what is there does not wrap. -/
theorem toNat_sub_add {a c : Qty} (h : c.toNat ≤ a.toNat) : (a - c).toNat + c.toNat = a.toNat := by
  rw [UInt32.toNat_sub_of_le _ _ (UInt32.le_iff_toNat_le.2 h)]
  exact Nat.sub_add_cancel h

/-- The book after a call: the order has given what was filled, and is gone when nothing is left of
it. -/
theorem Rings.matchOrder (h : Rings b ring) (hj : p ∈ ring j)
    (hm : b.matchOrder i p leftQty = .ok (b', left, out)) :
    let fillQty := min leftQty (b.data p).qty
    ∃ ring', Rings b' ring' ∧ (∀ q, b'.data q = (b.fillOrder p fillQty).data q) ∧
      ((b.data p).qty - fillQty = 0 ∧ (∀ k, ring' k = (ring k).erase p) ∨
        (b.data p).qty - fillQty ≠ 0 ∧ ring' = ring) := by
  intro fillQty
  have hc := h.fillOrder p fillQty
  obtain ⟨-, -, ⟨hzero, hremove⟩ | ⟨hne, rfl⟩⟩ := matchOrder_eq_ok hm
  · obtain ⟨hrings, hdata⟩ := hc.removeOrder hj hremove
    refine ⟨_, hrings, hdata, Or.inl ⟨hzero, fun k => ?_⟩⟩
    by_cases hkj : k = j
    · rw [hkj, Function.update_self]
    · have hpk : p ∉ ring k := fun hpk => hkj (h.slot_unique hpk hj)
      rw [Function.update_of_ne hkj, List.erase_of_not_mem hpk]
  · exact ⟨ring, hc, fun _ => rfl, Or.inr ⟨hne, rfl⟩⟩

/-- **Every call that returns is accounted for.** -/
theorem accounted_of_matchOrder (h : Rings b ring) (hp : b.Reaches p)
    (hm : b.matchOrder i p leftQty = .ok (b', left, out)) :
    ∃ r ring', out = FillReport.sent r ∧ Accounted i b ring leftQty p r b' ring' left := by
  obtain ⟨j, hj⟩ := (reaches_iff_of_inSlot h.inSlot).1 hp
  obtain ⟨ring', hrings, hdata, hring⟩ := h.matchOrder hj hm
  obtain ⟨rfl, rfl, -⟩ := matchOrder_eq_ok hm
  set o := b.data p with ho
  set fillQty := min leftQty o.qty with hfill
  have hself : (b.fillOrder p fillQty).data p = { o with qty := o.qty - fillQty } := by
    rw [data_fillOrder, if_pos rfl]
  have hother : ∀ q, q ≠ p → (b.fillOrder p fillQty).data q = b.data q := fun q hq => by
    rw [data_fillOrder, if_neg hq]
  have hqty : (b'.data p).qty = o.qty - fillQty := by rw [hdata, hself]
  refine ⟨fillReport i o fillQty (leftQty - fillQty), ring', (sent_fillReport _ _ _ _).symm, ?_⟩
  exact
    { resting := ⟨j, hj⟩
      types := ⟨rfl, rfl, rfl⟩
      incomingIds := ⟨rfl, rfl, rfl⟩
      restingIds := ⟨rfl, rfl, rfl⟩
      execQty := ⟨rfl, rfl⟩
      prices := ⟨rfl, rfl, rfl⟩
      incomingLeft := ⟨rfl, toNat_sub_add (by rw [toNat_min]; omega)⟩
      restingLeft := ⟨hqty.symm, by rw [hqty]; exact toNat_sub_add (by rw [toNat_min]; omega)⟩
      afterId := by
        rw [fillReport]
        split <;> rfl
      removed := fun hzero => by
        rw [hqty] at hzero
        rw [fillReport, if_pos hzero]
        exact ⟨rfl, (hring.resolve_right fun hne => hne.1 hzero).2⟩
      kept := fun hne => by
        rw [hqty] at hne ⊢
        rw [fillReport, if_neg hne]
        exact ⟨rfl, rfl, (hring.resolve_left fun hzero => hne hzero.1).2⟩
      self := by rw [hqty, hdata, hself]
      others := fun q hq => (hdata q).trans (hother q hq)
      rings := hrings }

/-! ## The calls of one incoming order -/

/-- A call of `match` on each of the orders in turn: the book and the quantity left, and all that
was sent. -/
def matchEach (i : Incoming) : List Ptr → MEOrderBook → Qty →
    Except Fault (MEOrderBook × Qty × List Sent)
  | [], b, leftQty => .ok (b, leftQty, [])
  | p :: ps, b, leftQty => do
    let (b, leftQty, sent) ← b.matchOrder i p leftQty
    let (b, leftQty, rest) ← matchEach i ps b leftQty
    return (b, leftQty, sent ++ rest)

/-- What a call leaves for the next. -/
def MatchStep (i : Incoming) (x : MEOrderBook × Qty) (p : Ptr) (x' : MEOrderBook × Qty) : Prop :=
  ∃ sent, x.1.matchOrder i p x.2 = .ok (x'.1, x'.2, sent)

/-- The calls from the first book to the last, each of them accounted for. -/
inductive Ledger (i : Incoming) : MEOrderBook → (Nat → List Ptr) → Qty → List Ptr →
    List FillReport → MEOrderBook → (Nat → List Ptr) → Qty → Prop
  | nil {b : MEOrderBook} {ring : Nat → List Ptr} {leftQty : Qty} (h : Rings b ring) :
    Ledger i b ring leftQty [] [] b ring leftQty
  | cons {b c b' : MEOrderBook} {ring ring₁ ring' : Nat → List Ptr} {qty leftQty left : Qty}
    {p : Ptr} {ps : List Ptr} {r : FillReport} {rs : List FillReport}
    (h : Accounted i b ring qty p r c ring₁ leftQty)
    (hs : Ledger i c ring₁ leftQty ps rs b' ring' left) :
    Ledger i b ring qty (p :: ps) (r :: rs) b' ring' left

variable {qty : Qty} {ps : List Ptr} {rs : List FillReport}

theorem ledger_of_matchEach (h : Rings b ring)
    (hps : Along (MatchStep i) (fun x p => x.1.Reaches p) (b, qty) ps)
    (hrun : matchEach i ps b qty = .ok (b', left, out)) :
    ∃ rs ring', out = rs.flatMap FillReport.sent ∧ Ledger i b ring qty ps rs b' ring' left := by
  induction ps generalizing b ring qty out with
  | nil =>
    obtain ⟨rfl, hrest⟩ := Prod.mk.inj (Except.ok.inj hrun)
    obtain ⟨rfl, rfl⟩ := Prod.mk.inj hrest
    exact ⟨[], ring, rfl, .nil h⟩
  | cons p ps ih =>
    obtain ⟨⟨c, leftQty, sent⟩, hm, hrun⟩ := bind_eq_ok.1 hrun
    obtain ⟨⟨d, l, rest⟩, hrest, heq⟩ := bind_eq_ok.1 hrun
    obtain ⟨rfl, hpair⟩ := Prod.mk.inj (Except.ok.inj heq)
    obtain ⟨rfl, rfl⟩ := Prod.mk.inj hpair
    obtain ⟨r, ring₁, rfl, hr⟩ := accounted_of_matchOrder h hps.1 hm
    obtain ⟨rs, ring', rfl, hrs⟩ := ih hr.rings (hps.2 (c, leftQty) ⟨_, hm⟩) hrest
    exact ⟨r :: rs, ring', rfl, .cons hr hrs⟩

/-! ### Adding up -/

theorem Ledger.rings (h : Ledger i b ring qty ps rs b' ring' left) : Rings b' ring' := by
  induction h with
  | nil h => exact h
  | cons _ _ ih => exact ih

/-- The fills of the incoming order use up what is no longer left of it. -/
theorem Ledger.incoming (h : Ledger i b ring qty ps rs b' ring' left) :
    qty.toNat = left.toNat + (rs.map fun r => r.incoming.execQty.toNat).sum := by
  induction h with
  | nil h => simp
  | cons hr _ ih =>
    have hleft := hr.incomingLeft.2
    rw [List.map_cons, List.sum_cons]
    omega

theorem Ledger.trades (h : Ledger i b ring qty ps rs b' ring' left) :
    (rs.map fun r => r.trade.qty.toNat) = rs.map fun r => r.incoming.execQty.toNat := by
  induction h with
  | nil h => rfl
  | cons hr _ ih => rw [List.map_cons, List.map_cons, hr.execQty.2, ih]

/-- Orders only lose quantity. -/
theorem Ledger.le (h : Ledger i b ring qty ps rs b' ring' left) (q : Ptr) :
    (b'.data q).qty.toNat ≤ (b.data q).qty.toNat := by
  induction h with
  | nil h => exact Nat.le_refl _
  | @cons b c _ _ _ _ _ _ _ p _ _ _ hr _ ih =>
    refine ih.trans ?_
    by_cases hqp : q = p
    · have hleft := hr.restingLeft.2
      rw [hqp]
      omega
    · rw [hr.others q hqp]

/-- A call takes from its own order only. -/
theorem Accounted.sum_decrease {c : MEOrderBook} {r : FillReport}
    (h : Accounted i b ring qty p r c ring' left) {orders : List Ptr} (hnd : orders.Nodup)
    (hp : p ∈ orders) :
    (orders.map fun q => (b.data q).qty.toNat - (c.data q).qty.toNat).sum =
      r.incoming.execQty.toNat := by
  have hself : (b.data p).qty.toNat - (c.data p).qty.toNat = r.incoming.execQty.toNat := by
    have hleft := h.restingLeft.2
    omega
  rw [List.sum_map_eq_nsmul_single p, List.count_eq_one_of_mem hnd hp, one_nsmul, hself]
  intro q hqp _
  rw [h.others q hqp, Nat.sub_self]

/-- The resting orders lose what the fills say. -/
theorem Ledger.decreases (h : Ledger i b ring qty ps rs b' ring' left) {orders : List Ptr}
    (hnd : orders.Nodup) (hsub : ∀ j, ∀ p ∈ ring j, p ∈ orders) :
    (orders.map fun q => (b.data q).qty.toNat - (b'.data q).qty.toNat).sum =
      (rs.map fun r => r.incoming.execQty.toNat).sum := by
  induction h with
  | nil h => simp
  | @cons b c b' ring ring₁ _ _ _ _ p _ r rs hr hrs ih =>
    obtain ⟨j, hj⟩ := hr.resting
    have hsub₁ : ∀ j, ∀ q ∈ ring₁ j, q ∈ orders := fun k q hq => by
      by_cases hzero : (c.data p).qty = 0
      · rw [(hr.removed hzero).2 k] at hq
        exact hsub k q (List.mem_of_mem_erase hq)
      · rw [(hr.kept hzero).2.2] at hq
        exact hsub k q hq
    have hsplit : ∀ q, (b.data q).qty.toNat - (b'.data q).qty.toNat =
        ((b.data q).qty.toNat - (c.data q).qty.toNat) +
          ((c.data q).qty.toNat - (b'.data q).qty.toNat) := fun q => by
      have h₁ := (Ledger.cons hr (.nil hr.rings)).le q
      have h₂ := hrs.le q
      omega
    rw [List.map_congr_left fun q _ => hsplit q, List.sum_map_add,
      hr.sum_decrease hnd (hsub j p hj), ih hsub₁, List.map_cons, List.sum_cons]

/-! ### What stays -/

/-- What the calls leave alone: `b'` holds the orders of `b` that did not reach `0`, in the order
they rested in, and the orders no call was for as they were. -/
structure Undisturbed (b : MEOrderBook) (ring : Nat → List Ptr) (ps : List Ptr) (b' : MEOrderBook)
    (ring' : Nat → List Ptr) : Prop where
  /-- Nothing enters a slot, and nothing changes places in it. -/
  order : ∀ j, (ring' j).Sublist (ring j)
  /-- An order leaves when nothing is left of it. -/
  left : ∀ j, ∀ q ∈ ring j, q ∉ ring' j → (b'.data q).qty = 0
  /-- Prices, priorities and everything else but the quantity are kept. -/
  fields : ∀ q, b'.data q = { b.data q with qty := (b'.data q).qty }
  /-- The other orders stay, with their quantity. -/
  others : ∀ j, ∀ q ∈ ring j, q ∉ ps → q ∈ ring' j ∧ b'.data q = b.data q

theorem Accounted.undisturbed {r : FillReport} (h : Accounted i b ring qty p r b' ring' left) :
    Undisturbed b ring [p] b' ring' := by
  have hself : ∀ q, b'.data q = { b.data q with qty := (b'.data q).qty } := fun q => by
    by_cases hqp : q = p
    · rw [hqp]
      exact h.self
    · rw [h.others q hqp]
  by_cases hzero : (b'.data p).qty = 0
  · have hring := (h.removed hzero).2
    have hmem : ∀ j, ∀ q ∈ ring j, q ≠ p → q ∈ ring' j := fun j q hq hqp => by
      rw [hring j]
      exact (List.mem_erase_of_ne hqp).2 hq
    refine ⟨fun j => hring j ▸ List.erase_sublist, fun j q hq hq' => ?_, hself,
      fun j q hq hqp => ?_⟩
    · by_contra hne
      exact hq' (hmem j q hq fun hqp => hne (hqp ▸ hzero))
    · have hqp : q ≠ p := fun hqp' => hqp (List.mem_singleton.2 hqp')
      exact ⟨hmem j q hq hqp, h.others q hqp⟩
  · have hring := (h.kept hzero).2.2
    refine ⟨fun j => hring ▸ List.Sublist.refl _, fun j q hq hq' => absurd (hring ▸ hq) hq', hself,
      fun j q hq hqp => ⟨hring ▸ hq, h.others q fun hqp' => hqp (List.mem_singleton.2 hqp')⟩⟩

theorem Undisturbed.trans {c : MEOrderBook} {ring₁ : Nat → List Ptr} {qs : List Ptr}
    (h : Undisturbed b ring qs c ring₁) (h' : Undisturbed c ring₁ ps b' ring')
    (hle : ∀ q, (b'.data q).qty.toNat ≤ (c.data q).qty.toNat) :
    Undisturbed b ring (qs ++ ps) b' ring' where
  order := fun j => (h'.order j).trans (h.order j)
  left := fun j q hq hq' => by
    by_cases hmid : q ∈ ring₁ j
    · exact h'.left j q hmid hq'
    · have hzero := hle q
      rw [h.left j q hq hmid] at hzero
      exact UInt32.toNat_inj.1 (Nat.le_zero.1 hzero)
  fields := fun q => by
    rw [h'.fields q, h.fields q]
  others := fun j q hq hqp => by
    obtain ⟨hmid, hdata⟩ := h.others j q hq fun hqs => hqp (List.mem_append_left _ hqs)
    obtain ⟨hq', hdata'⟩ := h'.others j q hmid fun hps => hqp (List.mem_append_right _ hps)
    exact ⟨hq', hdata'.trans hdata⟩

theorem Ledger.undisturbed (h : Ledger i b ring qty ps rs b' ring' left) :
    Undisturbed b ring ps b' ring' := by
  induction h with
  | nil h =>
    exact ⟨fun _ => List.Sublist.refl _, fun _ _ hq hq' => absurd hq hq', fun _ => rfl,
      fun _ _ hq _ => ⟨hq, rfl⟩⟩
  | cons hr hrs ih => exact hr.undisturbed.trans ih fun q => hrs.le q

/-! ### The whole run -/

/-- The resting orders, slot by slot. -/
def resting (ring : Nat → List Ptr) : List Ptr := (List.range meMaxPriceLevels).flatMap ring

theorem Rings.mem_resting (h : Rings b ring) {j : Nat} (hp : p ∈ ring j) : p ∈ resting ring := by
  refine List.mem_flatMap.2 ⟨j, List.mem_range.2 ?_, hp⟩
  rw [← (h.inSlot j).slotOf p hp]
  exact Nat.mod_lt _ (by decide)

theorem Rings.nodup_resting (h : Rings b ring) : (resting ring).Nodup := by
  refine List.nodup_flatMap.2 ⟨fun j _ => (h.inSlot j).isRing.nodup, ?_⟩
  refine (List.nodup_range (n := meMaxPriceLevels)).imp fun hjk => ?_
  exact List.disjoint_left.2 fun p hj hk => hjk (h.slot_unique hj hk)

/-- **Quantity is conserved by fills.**  Any calls of `match` for an incoming order, each on an
order that rests when it is made, account for the incoming quantity three times over: by the fills
of the incoming order, by what the resting orders lost, and by the trades.  `Ledger` holds the calls
one by one, and `Undisturbed` says what they leave alone. -/
theorem matchEach_conserves (h : Rings b ring)
    (hps : Along (MatchStep i) (fun x p => x.1.Reaches p) (b, qty) ps)
    (hrun : matchEach i ps b qty = .ok (b', left, out)) :
    ∃ rs ring', out = rs.flatMap FillReport.sent ∧ Ledger i b ring qty ps rs b' ring' left ∧
      qty.toNat = left.toNat + (rs.map fun r => r.incoming.execQty.toNat).sum ∧
      qty.toNat = left.toNat +
        ((resting ring).map fun p => (b.data p).qty.toNat - (b'.data p).qty.toNat).sum ∧
      qty.toNat = left.toNat + (rs.map fun r => r.trade.qty.toNat).sum ∧
      Undisturbed b ring ps b' ring' := by
  obtain ⟨rs, ring', hout, hledger⟩ := ledger_of_matchEach h hps hrun
  have hsum := hledger.incoming
  refine ⟨rs, ring', hout, hledger, hsum, ?_, ?_, hledger.undisturbed⟩
  · rw [hledger.decreases h.nodup_resting fun j p hp => h.mem_resting hp]
    exact hsum
  · rw [hledger.trades]
    exact hsum

/-- Two sell orders of 5 and 3 at 100. -/
def twoAsks : List MEClientRequest :=
  [{ requestType := .new, clientId := 0, tickerId := 0, orderId := 1, side := .sell, price := 100,
     qty := 5 },
   { requestType := .new, clientId := 1, tickerId := 0, orderId := 1, side := .sell, price := 100,
     qty := 3 }]

/-- An incoming buy order. -/
def taker : Incoming where
  clientId := 2
  clientOrderId := 1
  tickerId := 0
  side := .buy
  marketOrderId := 3

/-- 6 take the first order and 1 of the second. -/
theorem matchEach_conserves_twoAsks : ∃ b ring b' out, Rings b ring ∧
    matchEach taker [0, 1] b 6 = .ok (b', 0, out) ∧
    ∃ rs ring', out = rs.flatMap FillReport.sent ∧ Ledger taker b ring 6 [0, 1] rs b' ring' 0 ∧
      6 = 0 + (rs.map fun r => r.incoming.execQty.toNat).sum := by
  have hbook : ∃ b sent, (init 0).processAll twoAsks = .ok (b, sent) ∧ b.Reaches 0 ∧
      (∃ c l sent, b.matchOrder taker 0 6 = .ok (c, l, sent) ∧ c.Reaches 1) ∧
      ∃ b' out, matchEach taker [0, 1] b 6 = .ok (b', 0, out) :=
    ⟨_, _, rfl, ⟨100, by decide, 0, 0, rfl, rfl, .refl⟩,
      ⟨_, _, _, rfl, ⟨100, by decide, 0, 1, rfl, rfl, .refl⟩⟩, _, _, rfl⟩
  obtain ⟨b, sent, hb, hfirst, ⟨c, l, s, hc, hsecond⟩, b', out, hrun⟩ := hbook
  obtain ⟨ring, hring⟩ := slots_of_processAll hb
  have hps : Along (MatchStep taker) (fun x p => x.1.Reaches p) (b, 6) [0, 1] := by
    refine ⟨hfirst, fun x' ⟨s', hs'⟩ => ⟨?_, fun _ _ => trivial⟩⟩
    have hx : x'.1 = c := (Prod.mk.inj (Except.ok.inj (hs'.symm.trans hc))).1
    show x'.1.Reaches 1
    rwa [hx]
  obtain ⟨rs, ring', hout, hledger, hsum, -⟩ := matchEach_conserves hring.rings hps hrun
  exact ⟨b, ring, b', out, hring.rings, hrun, rs, ring', hout, hledger, hsum⟩

end MEOrderBook
end Exchange
end TradingEcosystem
