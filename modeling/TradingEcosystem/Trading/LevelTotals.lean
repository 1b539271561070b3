import TradingEcosystem.Trading.AddedOrders

/-!
# The totals of the levels

A level keeps the sum of the quantities of its orders and their number, for the prices that are
weighed by it.  The number starts at zero and is right.  The sum starts at `Qty_INVALID`, the
initialiser of its field, which no constructor replaces: it is one too small in every level there
ever is (`offByOne_of_onMarketUpdates`), and a feed leaves exact totals as long as it adds nothing.
-/

set_option autoImplicit false

namespace TradingEcosystem
namespace Trading
namespace MarketOrderBook

open Run Ring

/-- **Every level of the price table** totals the orders of its ring. -/
def ExactTotals (b : MarketOrderBook) : Prop :=
  ∀ i l, b.ordersAtPriceLevels i = some l → ∃ orders, b.SlotHolds i orders ∧
    (b.level l).totalQty.toNat = (orders.map fun p => (b.data p).qty.toNat).sum ∧
    (b.level l).ordersCount.toNat = orders.length

/-- The totals are exact after the update. -/
def KeepsTotals (b : MarketOrderBook) (u : MEMarketUpdate) : Prop :=
  ∀ b', Next b u b' → ExactTotals b'

/-- What the totals are instead: the sum is one too small, modulo `2 ^ 32`. -/
def OffByOne (b : MarketOrderBook) : Prop :=
  ∀ i l, b.ordersAtPriceLevels i = some l → ∃ orders, b.SlotHolds i orders ∧
    (b.level l).totalQty + 1 = (orders.map fun p => (b.data p).qty).sum ∧
    (b.level l).ordersCount.toNat = orders.length

variable {b b' : MarketOrderBook} {ring : Nat → List Ptr} {u : MEMarketUpdate}
  {us : List MEMarketUpdate}

/-! ## The level of a slot -/

/-- A slot holds one list of orders. -/
theorem SlotHolds.unique {i : Nat} {orders orders' : List Ptr} (h : b.SlotHolds i orders)
    (h' : b.SlotHolds i orders') : orders = orders' := by
  rw [SlotHolds] at h h'
  cases hslot : b.ordersAtPriceLevels i with
  | none =>
    rw [hslot] at h h'
    exact h.trans h'.symm
  | some l =>
    rw [hslot] at h h'
    obtain ⟨hne, hhead, hring⟩ := h
    obtain ⟨hne', hhead', hring'⟩ := h'
    cases orders with
    | nil => exact absurd rfl hne
    | cons a s =>
      cases orders' with
      | nil => exact absurd rfl hne'
      | cons a' t =>
        obtain rfl := Option.some_inj.1 (hhead.trans hhead'.symm)
        rw [hring.unique hring']

/-- The sum of quantities as numbers, modulo `2 ^ 32`. -/
theorem toNat_sum_qty (qs : List Qty) : qs.sum.toNat = (qs.map UInt32.toNat).sum % 2 ^ 32 := by
  induction qs with
  | nil => rfl
  | cons q qs ih =>
    rw [List.sum_cons, List.map_cons, List.sum_cons, UInt32.toNat_add, ih, Nat.add_mod_mod]

/-- A total that starts from `Qty_INVALID` is never the sum. -/
theorem qtyInvalid_add_ne (qs : List Qty) :
    (qtyInvalid + qs.sum).toNat ≠ (qs.map UInt32.toNat).sum := by
  rw [UInt32.toNat_add, toNat_sum_qty, show qtyInvalid.toNat = 2 ^ 32 - 1 from rfl]
  omega

/-- **No level has an exact total.** -/
theorem Filled.not_exactTotals (h : Filled b ring) (ho : Occupied b) : ¬ ExactTotals b := by
  intro hexact
  obtain ⟨i, l, hl⟩ := ho
  obtain ⟨orders, hholds, htotal, -⟩ := hexact i l hl
  obtain ⟨-, -, -, -, -, hdesc⟩ := h.level_of_slot hl
  rw [hholds.unique (h.slotHolds i), hdesc.totalQty, List.map_map] at htotal
  refine qtyInvalid_add_ne ((ring i).map (MarketOrderData.qty ∘ b.data)) (htotal.trans ?_)
  rw [List.map_map]
  rfl

/-- Every level has the right number, and a total that is one too small. -/
theorem Filled.offByOne (h : Filled b ring)
    (hnext : b.orderPool.nextFreeIndex < meMaxOrderIds) : OffByOne b := by
  intro i l hl
  obtain ⟨-, -, -, -, -, hdesc⟩ := h.level_of_slot hl
  refine ⟨ring i, h.slotHolds i, ?_, ?_⟩
  · rw [hdesc.totalQty, UInt32.add_comm, ← UInt32.add_assoc, List.map_map,
      show (1 : Qty) + qtyInvalid = 0 from rfl, UInt32.zero_add]
    rfl
  · have hlen : (ring i).length ≤ b.orderPool.nextFreeIndex := by
      have hsub : ring i ⊆ List.range b.orderPool.nextFreeIndex := fun p hp =>
        List.mem_range.2 (h.orderFrontier.lt_of_live (h.live i p hp))
      simpa using ((h.isRing i).nodup.subperm hsub).length_le
    rw [hdesc.ordersCount, List.length_map, UInt64.toNat_ofNat_of_lt']
    exact Nat.lt_of_le_of_lt hlen (Nat.lt_trans hnext (by decide))

/-- What the totals are in every book a feed builds. -/
theorem offByOne_of_onMarketUpdates (hb : init.onMarketUpdates us = .ok b) : OffByOne b := by
  obtain ⟨⟨ring, h⟩, hnext⟩ := filled_of_onMarketUpdates hb
  exact h.offByOne hnext

/-! ## Whole feeds -/

/-- A first order gets a level, and its total is wrong at once. -/
theorem keepsTotals_init_iff (u : MEMarketUpdate) : KeepsTotals init u ↔ u.type ≠ .add := by
  constructor
  · intro hkeeps hu
    obtain ⟨b', hb', -, hfilled⟩ := filled_init.add hu (hasRoom_init u.price)
    refine hfilled.not_exactTotals ?_ (hkeeps b' hb')
    refine ⟨priceToIndex u.price, Option.ne_none_iff_exists'.1 fun hnone => ?_⟩
    have hempty := (hfilled.slot_none_iff _).1 hnone
    rw [Function.update_self] at hempty
    exact absurd hempty (by simp)
  · intro hu b' hb'
    obtain ⟨hadd, -⟩ | ⟨-, rfl⟩ := filled_init.step_ok hb'
    · exact absurd hadd hu
    · exact fun i l hl => absurd hl (by simp [init])

/-- **The totals of a feed** are exact after every update exactly when no update adds an order. -/
theorem along_keepsTotals_iff (us : List MEMarketUpdate) :
    Along Next KeepsTotals init us ↔ Along Next (fun _ u => u.type ≠ .add) init us := by
  refine along_congr (fun b => b = init) (fun _ _ => True) ?_ ?_ rfl
    (along_of_forall (fun _ _ => trivial) _ _)
  · rintro _ u rfl -
    exact keepsTotals_init_iff u
  · rintro _ u b' rfl - hu hb'
    obtain ⟨hadd, -⟩ | ⟨-, h⟩ := filled_init.step_ok hb'
    · exact absurd hadd hu
    · exact h

/-- An order of quantity 5 has a level with the total 4. -/
theorem not_along_keepsTotals : ¬ ∀ us : List MEMarketUpdate, FeedBook.AcceptsAll [] us →
    (us.map fun u => u.qty.toNat).sum < 2 ^ 32 → Along Next KeepsTotals init us := by
  intro h
  have hadds := (along_keepsTotals_iff [addFirst]).1
    (h [addFirst] ⟨Or.inl ⟨rfl, by decide⟩, trivial⟩ (by decide))
  exact hadds.1 rfl

end MarketOrderBook
end Trading
end TradingEcosystem
