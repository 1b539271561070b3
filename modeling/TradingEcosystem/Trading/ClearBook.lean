import TradingEcosystem.Trading.WellFormedBook
import TradingEcosystem.Lib.TwoRuns

/-!
# What `CLEAR` leaves

`CLEAR` gives the orders back by the table of ids, and the levels by the two ladders.  The loop over
a ladder frees the level behind the head without unlinking it, so with two levels or more it frees
that level again and stops at the `ASSERT` of the pool (`frees_iff`).  The price table and the best
prices are not reset at all.  A book comes out of it as new only if it had no level
(`clears_iff`).
-/

set_option autoImplicit false

namespace TradingEcosystem
namespace Trading
namespace MarketOrderBook

open Run Ring TwoRuns

/-! ## As on a fresh book -/

/-- What a level says of its orders. -/
def levelData (b : MarketOrderBook) (l : Ptr) : Side × Price × Qty × UInt64 :=
  ((b.level l).side, (b.level l).price, (b.level l).totalQty, (b.level l).ordersCount)

/-- Two books show the same, wherever their blocks are. -/
structure Alike (b c : MarketOrderBook) : Prop where
  ids : ∀ k, (b.orderIdToOrder k).map b.data = (c.orderIdToOrder k).map c.data
  slots : ∀ i, ∃ orders orders', b.SlotHolds i orders ∧ c.SlotHolds i orders' ∧
    orders.map b.data = orders'.map c.data
  levels : ∀ i, (b.ordersAtPriceLevels i).map b.levelData = (c.ordersAtPriceLevels i).map c.levelData
  bids : b.bidPriceLevels.map b.levelData = c.bidPriceLevels.map c.levelData
  asks : b.askPriceLevels.map b.levelData = c.askPriceLevels.map c.levelData
  bestBid : b.getBBO.bestBid.map b.levelData = c.getBBO.bestBid.map c.levelData
  bestAsk : b.getBBO.bestAsk.map b.levelData = c.getBBO.bestAsk.map c.levelData

/-- **A book works like a fresh one**: every update does to it what it does to the empty book, until
the blocks of a pool are used up, which do not come back. -/
def LikeFresh (b : MarketOrderBook) : Prop := ∀ us : List MEMarketUpdate,
  b.onMarketUpdates us = .error .badIndex ∨
    Agree Alike (b.onMarketUpdates us) (init.onMarketUpdates us)

/-- **What `CLEAR` is for**: it returns, every block has been given back, every pointer of the book
is null, and the book works like a fresh one. -/
structure Cleared (b : MarketOrderBook) : Prop where
  orders : ∀ p, ¬ b.orderPool.Live p
  levels : ∀ l, ¬ b.priceLevelPool.Live l
  ids : ∀ k, b.orderIdToOrder k = none
  table : ∀ i, b.ordersAtPriceLevels i = none
  bids : b.bidPriceLevels = none
  asks : b.askPriceLevels = none
  best : b.getBBO = {}
  likeFresh : LikeFresh b

/-- The update clears the book. -/
def Clears (b : MarketOrderBook) (u : MEMarketUpdate) : Prop :=
  ∃ b', b.onMarketUpdate u = .ok b' ∧ Cleared b'

/-! ## Two runs of updates -/

variable {b b' c c' x y : MarketOrderBook} {rx ry : Nat → List Ptr} {us : List MEMarketUpdate}
  {u : MEMarketUpdate}

/-- Two books that updates built, with the same orders in every slot; the first has used no fewer
blocks than the second. -/
structure Ahead (x y : MarketOrderBook) (rx ry : Nat → List Ptr) : Prop where
  left : Filled x rx
  right : Filled y ry
  same : ∀ i, (rx i).map x.data = (ry i).map y.data
  orderNext : y.orderPool.nextFreeIndex ≤ x.orderPool.nextFreeIndex
  levelNext : y.priceLevelPool.nextFreeIndex ≤ x.priceLevelPool.nextFreeIndex
  sizes : y.orderPool.size = x.orderPool.size ∧ y.priceLevelPool.size = x.priceLevelPool.size

namespace Ahead

variable (h : Ahead x y rx ry)
include h

theorem ring_nil_iff (i : Nat) : rx i = [] ↔ ry i = [] := by
  rw [← List.map_eq_nil_iff (f := x.data), h.same i, List.map_eq_nil_iff]

theorem getPriceLevel_none_iff (price : Price) :
    x.getPriceLevel price = none ↔ y.getPriceLevel price = none :=
  (h.left.slot_none_iff _).trans ((h.ring_nil_iff _).trans (h.right.slot_none_iff _).symm)

theorem hasRoom {price : Price} (hroom : x.HasRoom price) : y.HasRoom price := by
  obtain ⟨horder, hlevel⟩ := hroom
  have hle := h.orderNext
  have hle' := h.levelNext
  obtain ⟨hsize, hsize'⟩ := h.sizes
  simp only [HasRoom, MemPool.Room] at horder hlevel ⊢
  refine ⟨by omega, fun hslot => ?_⟩
  have := hlevel ((h.getPriceLevel_none_iff price).2 hslot)
  omega

/-- The level of a slot says the same on both sides. -/
theorem levels (i : Nat) : (x.ordersAtPriceLevels i).map x.levelData =
    (y.ordersAtPriceLevels i).map y.levelData := by
  cases hx : x.ordersAtPriceLevels i with
  | none =>
    have hy : y.ordersAtPriceLevels i = none :=
      (h.right.slot_none_iff i).2 ((h.ring_nil_iff i).1 ((h.left.slot_none_iff i).1 hx))
    rw [hy]
    rfl
  | some l =>
    obtain ⟨a, t, hr, -, -, hdesc⟩ := h.left.level_of_slot hx
    cases hy : y.ordersAtPriceLevels i with
    | none =>
      have hnil := (h.ring_nil_iff i).2 ((h.right.slot_none_iff i).1 hy)
      exact absurd (hr.symm.trans hnil) (by simp)
    | some m =>
      obtain ⟨-, -, -, -, -, hdesc'⟩ := h.right.level_of_slot hy
      rw [← h.same i] at hdesc'
      have hhead : ((rx i).map x.data).head? = some (x.data a) := by rw [hr]; rfl
      obtain ⟨hside, hprice⟩ := hdesc.first (x.data a) hhead
      obtain ⟨hside', hprice'⟩ := hdesc'.first (x.data a) hhead
      simp only [Option.map_some, levelData, hside, hprice, hside', hprice', hdesc.totalQty,
        hdesc'.totalQty, hdesc.ordersCount, hdesc'.ordersCount]

theorem alike : Alike x y where
  ids := fun k => by rw [h.left.unlinked.ids, h.right.unlinked.ids]; rfl
  slots := fun i => ⟨rx i, ry i, h.left.slotHolds i, h.right.slotHolds i, h.same i⟩
  levels := h.levels
  bids := by rw [h.left.unlinked.bids, h.right.unlinked.bids]; rfl
  asks := by rw [h.left.unlinked.asks, h.right.unlinked.asks]; rfl
  bestBid := by rw [getBBO, h.left.noBest, getBBO, h.right.noBest]; rfl
  bestAsk := by rw [getBBO, h.left.noBest, getBBO, h.right.noBest]; rfl

theorem add (hu : u.type = .add) (hroom : x.HasRoom u.price) :
    ∃ x' y' rx' ry', x.onMarketUpdate u = .ok x' ∧ y.onMarketUpdate u = .ok y' ∧
      Ahead x' y' rx' ry' := by
  obtain ⟨x', hx', hadded, hfilled⟩ := h.left.add hu hroom
  obtain ⟨y', hy', hadded', hfilled'⟩ := h.right.add hu (h.hasRoom hroom)
  have hle := h.orderNext
  have hle' := h.levelNext
  have hslot := h.getPriceLevel_none_iff u.price
  refine ⟨x', y', _, _, hx', hy', hfilled, hfilled', fun i => ?_, ?_, ?_, ?_⟩
  · by_cases hi : i = priceToIndex u.price
    · subst hi
      rw [Function.update_self, Function.update_self, List.map_append, List.map_append,
        hadded.map_data h.left, hadded'.map_data h.right, h.same]
      simp [hadded.data_next, hadded'.data_next]
    · rw [Function.update_of_ne hi, Function.update_of_ne hi, hadded.map_data h.left,
        hadded'.map_data h.right, h.same]
  · rw [hadded.orderNext, hadded'.orderNext]
    omega
  · have hprice : (dataOf u).price = u.price := rfl
    rw [hadded.levelNext, hadded'.levelNext, hprice]
    simp only [hslot]
    omega
  · rw [hadded.sizes.1, hadded.sizes.2, hadded'.sizes.1, hadded'.sizes.2]
    exact h.sizes

/-- **One update** keeps the two books together, or the first has no block left for it. -/
theorem step (u : MEMarketUpdate) : x.onMarketUpdate u = .error .badIndex ∨
    Agree (fun x' y' => ∃ rx' ry', Ahead x' y' rx' ry') (x.onMarketUpdate u)
      (y.onMarketUpdate u) := by
  by_cases hu : u.type = .add
  · by_cases hroom : x.HasRoom u.price
    · obtain ⟨x', y', rx', ry', hx', hy', h'⟩ := h.add hu hroom
      rw [hx', hy']
      exact Or.inr ⟨rx', ry', h'⟩
    · exact Or.inl (h.left.add_full hu hroom)
  · right
    rw [h.left.other hu, h.right.other hu, orderIdCheck, orderIdCheck]
    have hkept : ∃ rx' ry', Ahead x y rx' ry' := ⟨rx, ry, h⟩
    refine Agree.ite Iff.rfl (fun _ => Agree.ite Iff.rfl (fun _ => Agree.ite Iff.rfl ?_ ?_) ?_) ?_
    · exact fun _ => rfl
    · exact fun _ => hkept
    · exact fun _ => rfl
    · exact fun _ => hkept

end Ahead

/-- **A whole run** of updates. -/
theorem Ahead.run (h : Ahead x y rx ry) (us : List MEMarketUpdate) :
    x.onMarketUpdates us = .error .badIndex ∨
      Agree Alike (x.onMarketUpdates us) (y.onMarketUpdates us) := by
  have hrun : x.onMarketUpdates us = .error .badIndex ∨
      Agree (fun x y => ∃ rx ry, Ahead x y rx ry) (x.onMarketUpdates us) (y.onMarketUpdates us) :=
    Agree.foldlM_or (fun _ _ u ⟨_, _, h⟩ => h.step u) ⟨rx, ry, h⟩ us
  exact hrun.imp_right fun hagree => hagree.mono fun _ _ ⟨_, _, h'⟩ => h'.alike

/-! ## The loop over the ids -/

/-- The entries of the table of ids lead to orders in use, each to one of its own. -/
structure Entered (b : MarketOrderBook) : Prop where
  live : ∀ k p, b.orderIdToOrder k = some p → b.orderPool.Live p ∧ p < b.orderPool.size
  inj : ∀ k k' p, b.orderIdToOrder k = some p → b.orderIdToOrder k' = some p → k = k'

/-- The orders of some ids were given back. -/
structure OrdersFreed (b b' : MarketOrderBook) (ks : List OrderId) : Prop where
  rest : b' = { b with orderPool := b'.orderPool, orderIdToOrder := b'.orderIdToOrder }
  ids : ∀ k, b'.orderIdToOrder k = if k ∈ ks then none else b.orderIdToOrder k
  live : ∀ p, b'.orderPool.Live p ↔ b.orderPool.Live p ∧ ∀ k ∈ ks, b.orderIdToOrder k ≠ some p

/-- The book without the order of an id. -/
def withoutId (b : MarketOrderBook) (k : OrderId) (p : Ptr) : MarketOrderBook :=
  { b with
    orderPool := b.orderPool.release p
    orderIdToOrder := Function.update b.orderIdToOrder k none }

@[simp] theorem orderIdToOrder_withoutId (b : MarketOrderBook) (k k' : OrderId) (p : Ptr) :
    (b.withoutId k p).orderIdToOrder k' = if k' = k then none else b.orderIdToOrder k' := by
  simp only [withoutId, Function.update_apply]

@[simp] theorem live_withoutId (b : MarketOrderBook) (k : OrderId) (p q : Ptr) :
    (b.withoutId k p).orderPool.Live q ↔ q ≠ p ∧ b.orderPool.Live q := by
  simp only [withoutId, MemPool.live_release]

theorem Entered.withoutId (h : Entered b) {k : OrderId} {p : Ptr} (hp : b.orderIdToOrder k = some p) :
    Entered (b.withoutId k p) := by
  have hentry : ∀ k' q, (b.withoutId k p).orderIdToOrder k' = some q →
      k' ≠ k ∧ b.orderIdToOrder k' = some q := by simp
  constructor
  · intro k' q hq
    obtain ⟨hne, hq⟩ := hentry k' q hq
    have hqp : q ≠ p := fun he => hne (h.inj k' k p (he ▸ hq) hp)
    exact ⟨(live_withoutId _ _ _ _).2 ⟨hqp, (h.live k' q hq).1⟩, (h.live k' q hq).2⟩
  · intro k' k'' q hq hq'
    exact h.inj k' k'' q (hentry k' q hq).2 (hentry k'' q hq').2

theorem Entered.clearOrders (h : Entered b) (ks : List OrderId) :
    ∃ b', b.clearOrders ks = .ok b' ∧ OrdersFreed b b' ks := by
  induction ks generalizing b with
  | nil => exact ⟨b, rfl, rfl, by simp, by simp⟩
  | cons k ks ih =>
    cases hk : b.orderIdToOrder k with
    | none =>
      obtain ⟨b', hb', hrest, hids, hlive⟩ := ih h
      refine ⟨b', ?_, hrest, fun k' => ?_, fun p => ?_⟩
      · rw [MarketOrderBook.clearOrders, List.foldlM_cons, hk]
        exact hb'
      · rw [hids]
        by_cases hkk : k' = k
        · simp [hkk, hk]
        · simp [hkk]
      · rw [hlive]
        simp [hk]
    | some p =>
      obtain ⟨hplive, hplt⟩ := h.live k p hk
      obtain ⟨b', hb', hrest, hids, hlive⟩ := ih (h.withoutId hk)
      refine ⟨b', ?_, hrest, fun k' => ?_, fun q => ?_⟩
      · rw [MarketOrderBook.clearOrders, List.foldlM_cons, hk]
        simp only [MemPool.deallocate_eq hplive hplt, ok_bind, pure_eq_ok]
        exact hb'
      · rw [hids, orderIdToOrder_withoutId]
        by_cases hkk : k' = k
        · simp [hkk]
        · simp [hkk]
      · simp only [hlive, live_withoutId, List.forall_mem_cons, hk, ne_eq, Option.some_inj]
        by_cases hqp : q = p
        · simp [hqp]
        · -- the entry that was cleared led to another order
          have hentry : ∀ k', (b.withoutId k p).orderIdToOrder k' = some q ↔
              b.orderIdToOrder k' = some q := by
            intro k'
            rw [orderIdToOrder_withoutId]
            split
            · next hkk => simp [hkk, hk, Ne.symm hqp]
            · exact Iff.rfl
          simp only [hqp, Ne.symm hqp, hentry, not_false_eq_true, true_and]

/-! ## The loops over the ladders -/

/-- The levels of a ladder were given back. -/
structure LevelsFreed (b b' : MarketOrderBook) (levels : List Ptr) : Prop where
  rest : b' = { b with priceLevelPool := b'.priceLevelPool }
  level : ∀ l, b'.level l = b.level l
  live : ∀ l, b'.priceLevelPool.Live l ↔ b.priceLevelPool.Live l ∧ l ∉ levels
  size : b'.priceLevelPool.size = b.priceLevelPool.size

/-- The blocks of the levels are in use. -/
def LevelsLive (b : MarketOrderBook) (levels : List Ptr) : Prop :=
  ∀ l ∈ levels, b.priceLevelPool.Live l ∧ l < b.priceLevelPool.size

section ClearLadder

variable {head : Option Ptr} {levels : List Ptr}

/-- A ladder of one level at most is given back. -/
theorem LadderHolds.clearLadder_freed (h : b.LadderHolds head levels) (hlive : LevelsLive b levels)
    (hlen : levels.length ≤ 1) : ∃ b', b.clearLadder head = .ok b' ∧ LevelsFreed b b' levels := by
  obtain ⟨hhead, hring⟩ := h
  match levels with
  | [] =>
    obtain rfl : head = none := hhead.symm
    exact ⟨b, rfl, rfl, fun _ => rfl, by simp, rfl⟩
  | [l] =>
    obtain rfl : head = some l := hhead.symm
    obtain ⟨hl, hlt⟩ := hlive l List.mem_cons_self
    have hnext : (b.level l).nextLevel = some l := (isRing_singleton.1 hring).1
    refine ⟨{ b with priceLevelPool := b.priceLevelPool.release l }, ?_, rfl, ?_, ?_, rfl⟩
    · rw [clearLadder, clearBehind, if_pos hnext, ok_bind]
      simp only [MemPool.deallocate_eq hl hlt, ok_bind, pure_eq_ok]
    · exact fun m => MemPool.get_release _ _ _
    · intro m
      simp [and_comm]
  | _ :: _ :: _ => exact absurd hlen (by simp)

/-- **With two levels or more** the second is given back twice. -/
theorem LadderHolds.clearLadder_stops (h : b.LadderHolds head levels) (hlive : LevelsLive b levels)
    (hlen : 2 ≤ levels.length) : ∃ l ∈ levels, b.clearLadder head =
      .error (.assertFailed ("Expected in-use ObjectBlock at index:" ++ toString l)) := by
  obtain ⟨hhead, hring⟩ := h
  match levels with
  | [] => exact absurd hlen (by simp)
  | [_] => exact absurd hlen (by simp)
  | l :: n :: t =>
    obtain rfl : head = some l := hhead.symm
    obtain ⟨hn, hlt⟩ := hlive n (by simp)
    obtain ⟨hnodup, hchain, -⟩ := isRing_cons_iff.1 hring
    have hne : n ≠ l := fun he => (List.nodup_cons.1 hnodup).1 (he ▸ List.mem_cons_self)
    have hnext : (b.level l).nextLevel = some n := (List.isChain_cons_cons.1 hchain).1.1
    obtain ⟨k, hk⟩ := Nat.exists_eq_add_one_of_ne_zero (Nat.ne_zero_of_lt hlt)
    set c : MarketOrderBook := { b with priceLevelPool := b.priceLevelPool.release n } with hc
    have hnext' : (c.level l).nextLevel = some n := by
      rw [level, hc, MemPool.get_release]
      exact hnext
    have hfreed : ¬ c.priceLevelPool.Live n := by simp [hc]
    have hmoved : ¬ (some n = some l) := by simpa using hne
    refine ⟨n, by simp, ?_⟩
    rw [clearLadder, hk, clearBehind, hnext, if_neg hmoved]
    simp only [MemPool.deallocate_eq hn hlt, ok_bind]
    rw [← hc, clearBehind, hnext', if_neg hmoved]
    simp only [MemPool.deallocate_free hfreed hlt, error_bind]

end ClearLadder

/-! ## All three loops -/

/-- What `CLEAR` gives back and sets to null, and what it does not touch. -/
structure Freed (b b' : MarketOrderBook) : Prop where
  orders : ∀ p, ¬ b'.orderPool.Live p
  levels : ∀ l, ¬ b'.priceLevelPool.Live l
  ids : ∀ k, b'.orderIdToOrder k = none
  bids : b'.bidPriceLevels = none
  asks : b'.askPriceLevels = none
  table : b'.ordersAtPriceLevels = b.ordersAtPriceLevels
  best : b'.getBBO = b.getBBO

namespace WellFormed

variable {bids asks : List Ptr} {ring : Nat → List Ptr} (h : WellFormed b bids asks ring)
include h

theorem entered : Entered b where
  live := fun k p hp =>
    have hlive := (h.liveOrders p).2 ((h.ids k p).1 hp).1
    ⟨hlive, h.order_lt hlive⟩
  inj := fun k k' p hk hk' => ((h.ids k p).1 hk).2.symm.trans ((h.ids k' p).1 hk').2

/-- The first loop takes every order out of the table of ids and gives it back. -/
theorem clearOrders : ∃ b₁, b.clearOrders ((List.range meMaxOrderIds).map .ofNat) = .ok b₁ ∧
    b₁ = { b with orderPool := b₁.orderPool, orderIdToOrder := b₁.orderIdToOrder } ∧
    (∀ k, b₁.orderIdToOrder k = none) ∧ ∀ p, ¬ b₁.orderPool.Live p := by
  have hmem : ∀ k p, b.orderIdToOrder k = some p →
      k ∈ (List.range meMaxOrderIds).map UInt64.ofNat := fun k p hp =>
    mem_map_ofNat_order (h.idBound k p hp)
  obtain ⟨b₁, hb₁, hrest, hids, hlive⟩ :=
    h.entered.clearOrders ((List.range meMaxOrderIds).map .ofNat)
  refine ⟨b₁, hb₁, hrest, fun k => ?_, fun p hp => ?_⟩
  · rw [hids]
    split
    · rfl
    · next hk =>
      by_contra hne
      obtain ⟨p, hp⟩ := Option.ne_none_iff_exists'.1 hne
      exact hk (hmem k p hp)
  · obtain ⟨hp, hno⟩ := (hlive p).1 hp
    obtain ⟨i, hi⟩ := (h.liveOrders p).1 hp
    have hentry := h.id_of_mem hi
    exact hno _ (hmem _ _ hentry) hentry

theorem levelsLive : LevelsLive b bids ∧ LevelsLive b asks :=
  ⟨fun l hl => ⟨(h.liveLevels l).2 (Or.inl hl), h.level_lt (Or.inl hl)⟩,
    fun l hl => ⟨(h.liveLevels l).2 (Or.inr hl), h.level_lt (Or.inr hl)⟩⟩

/-- The sides share no level. -/
theorem not_mem_bids {l : Ptr} (hl : l ∈ asks) : l ∉ bids := fun hl' =>
  h.askSide l hl (h.bidSide l hl')

/-- **`CLEAR` on a well-formed book** gives everything back when neither ladder has more than one
level, and stops at an `ASSERT` when one has. -/
theorem clear_cases :
    (bids.length ≤ 1 ∧ asks.length ≤ 1 ∧ ∃ b', b.clear = .ok b' ∧ Freed b b') ∨
      ((2 ≤ bids.length ∨ 2 ≤ asks.length) ∧ ∃ msg, b.clear = .error (.assertFailed msg)) := by
  obtain ⟨b₁, hb₁, hrest₁, hids, horders⟩ := h.clearOrders
  have hbid₁ : b₁.bidPriceLevels = b.bidPriceLevels := by rw [hrest₁]
  have hask₁ : b₁.askPriceLevels = b.askPriceLevels := by rw [hrest₁]
  have hpool₁ : b₁.priceLevelPool = b.priceLevelPool := by rw [hrest₁]
  have hlevel₁ : ∀ l, b₁.level l = b.level l := fun l => by rw [level, hpool₁, level]
  have hbids : b₁.LadderHolds b.bidPriceLevels bids := h.bidLadder.congr fun l _ => hlevel₁ l
  have hlive₁ : LevelsLive b₁ bids := by
    rw [LevelsLive, hpool₁]
    exact h.levelsLive.1
  rw [clear, hb₁, ok_bind, hbid₁]
  by_cases hlen : bids.length ≤ 1
  · obtain ⟨b₂, hb₂, hrest₂, hlevel₂, hfreed₂, hsize₂⟩ := hbids.clearLadder_freed hlive₁ hlen
    have hask₂ : b₂.askPriceLevels = b.askPriceLevels := by rw [hrest₂, hask₁]
    have hasks : b₂.LadderHolds b.askPriceLevels asks :=
      h.askLadder.congr fun l _ => (hlevel₂ l).trans (hlevel₁ l)
    have hlive₂ : LevelsLive b₂ asks := fun l hl => by
      obtain ⟨hllive, hlt⟩ := h.levelsLive.2 l hl
      rw [hfreed₂, hsize₂, hpool₁]
      exact ⟨⟨hllive, h.not_mem_bids hl⟩, hlt⟩
    rw [hb₂, ok_bind, hask₂]
    by_cases hlen' : asks.length ≤ 1
    · obtain ⟨b₃, hb₃, hrest₃, -, hfreed₃, -⟩ := hasks.clearLadder_freed hlive₂ hlen'
      have hpool₃ : b₃.orderPool = b₁.orderPool := by rw [hrest₃, hrest₂]
      have hids₃ : b₃.orderIdToOrder = b₁.orderIdToOrder := by rw [hrest₃, hrest₂]
      have htable : b₃.ordersAtPriceLevels = b.ordersAtPriceLevels := by rw [hrest₃, hrest₂, hrest₁]
      have hbest : b₃.bestOffer = b.bestOffer := by rw [hrest₃, hrest₂, hrest₁]
      rw [hb₃, ok_bind, pure_eq_ok]
      refine Or.inl ⟨hlen, hlen', _, rfl, hpool₃ ▸ horders, fun l => ?_, hids₃ ▸ hids, rfl, rfl,
        htable, hbest⟩
      rw [hfreed₃, hfreed₂, hpool₁, h.liveLevels]
      rintro ⟨⟨hl, hbid⟩, hask⟩
      exact hl.elim hbid hask
    · obtain ⟨l, -, hstop⟩ := hasks.clearLadder_stops hlive₂ (by omega)
      rw [hstop, error_bind]
      exact Or.inr ⟨Or.inr (by omega), _, rfl⟩
  · obtain ⟨l, -, hstop⟩ := hbids.clearLadder_stops hlive₁ (by omega)
    rw [hstop, error_bind]
    exact Or.inr ⟨Or.inl (by omega), _, rfl⟩

/-- Everything is given back exactly when neither ladder has more than one level. -/
theorem frees_iff : (∃ b', b.clear = .ok b' ∧ Freed b b') ↔ bids.length ≤ 1 ∧ asks.length ≤ 1 := by
  rcases h.clear_cases with ⟨hbids, hasks, hfreed⟩ | ⟨hlen, msg, hstop⟩
  · exact iff_of_true hfreed ⟨hbids, hasks⟩
  · refine iff_of_false ?_ (by omega)
    rintro ⟨b', hb', -⟩
    exact absurd (hb'.symm.trans hstop) (by simp)

/-- A book without levels has no orders. -/
theorem ring_eq_nil (hbids : bids = []) (hasks : asks = []) (i : Nat) :
    b.ordersAtPriceLevels i = none ∧ ring i = [] := by
  have hslot : b.ordersAtPriceLevels i = none := by
    refine Option.eq_none_iff_forall_ne_some.2 fun l hl => ?_
    have hmem := ((h.table i l).1 hl).1
    simp [hbids, hasks] at hmem
  have hring := h.slots i
  rw [SlotHolds, hslot] at hring
  exact ⟨hslot, hring⟩

/-- It is one that updates built. -/
theorem filled (hbids : bids = []) (hasks : asks = []) (hbest : b.getBBO = {}) :
    Filled b fun _ => [] where
  unlinked :=
    { ids := fun k => by
        refine Option.eq_none_iff_forall_ne_some.2 fun p hp => ?_
        obtain ⟨⟨i, hi⟩, -⟩ := (h.ids k p).1 hp
        rw [(h.ring_eq_nil hbids hasks i).2] at hi
        exact absurd hi List.not_mem_nil
      bids := h.bids_eq_nil_iff.1 hbids
      asks := h.asks_eq_nil_iff.1 hasks }
  noBest := hbest
  slotNil := fun i _ => (h.ring_eq_nil hbids hasks i).1
  slotCons := by simp
  slotInj := fun i _ l hl => by
    rw [(h.ring_eq_nil hbids hasks i).1] at hl
    exact absurd hl (by simp)
  isRing := fun _ => ⟨List.nodup_nil, Cycle.Chain.nil _⟩
  slotOf := by simp
  live := by simp
  orderFrontier := h.orderFrontier
  levelFrontier := h.levelFrontier

theorem cleared (hbids : bids = []) (hasks : asks = []) (hbest : b.getBBO = {}) : Cleared b where
  orders := fun p hp => by
    obtain ⟨i, hi⟩ := (h.liveOrders p).1 hp
    rw [(h.ring_eq_nil hbids hasks i).2] at hi
    exact absurd hi List.not_mem_nil
  levels := fun l hl => by
    have hmem := (h.liveLevels l).1 hl
    simp [hbids, hasks] at hmem
  ids := (h.filled hbids hasks hbest).unlinked.ids
  table := fun i => (h.ring_eq_nil hbids hasks i).1
  bids := h.bids_eq_nil_iff.1 hbids
  asks := h.asks_eq_nil_iff.1 hasks
  best := hbest
  likeFresh := Ahead.run ⟨h.filled hbids hasks hbest, filled_init, fun _ => rfl, Nat.zero_le _,
    Nat.zero_le _, h.sizes.2.symm, h.sizes.1.symm⟩

/-- **A `CLEAR` leaves a new book** exactly where there was no level, and no best price. -/
theorem clears_iff (hu : u.type = .clear) :
    Clears b u ↔ bids = [] ∧ asks = [] ∧ b.getBBO = {} := by
  have hclear : ∀ b', b.onMarketUpdate u = .ok b' → b.clear = .ok b' := by
    intro b' hb'
    rw [onMarketUpdate] at hb'
    obtain ⟨_, -, hb'⟩ := bind_eq_ok.1 hb'
    simpa only [hu] using hb'
  constructor
  · rintro ⟨b', hb', hcleared⟩
    rcases h.clear_cases with ⟨-, -, c, hc, hfreed⟩ | ⟨-, msg, hstop⟩
    · obtain rfl := Except.ok.inj ((hclear b' hb').symm.trans hc)
      have hno : ∀ l, ¬ (l ∈ bids ∨ l ∈ asks) := fun l hl => by
        have hslot := (h.table _ l).2 ⟨hl, rfl⟩
        rw [← hfreed.table, hcleared.table] at hslot
        exact absurd hslot (by simp)
      refine ⟨List.eq_nil_iff_forall_not_mem.2 fun l hl => hno l (Or.inl hl),
        List.eq_nil_iff_forall_not_mem.2 fun l hl => hno l (Or.inr hl), ?_⟩
      rw [← hfreed.best]
      exact hcleared.best
    · exact absurd ((hclear b' hb').symm.trans hstop) (by simp)
  · rintro ⟨hbids, hasks, hbest⟩
    have hstep : b.onMarketUpdate u = b.orderIdCheck u :=
      (h.filled hbids hasks hbest).other (by simp [hu])
    exact ⟨b, hstep.trans (by simp [orderIdCheck, hu]), h.cleared hbids hasks hbest⟩

end WellFormed

/-- Clears the book. -/
def clearAll : MEMarketUpdate := { addFirst with type := .clear, side := .invalid }

/-- A sell order of 5 at 100. -/
def askOfFive : MarketOrderData := ⟨1, .sell, 100, 5, 1⟩

/-- The empty book is cleared, and the order is in the way. -/
theorem clears_iff_oneAsk :
    (Clears init clearAll ↔
      ([] : List Ptr) = [] ∧ ([] : List Ptr) = [] ∧ init.getBBO = {}) ∧
    (Clears (oneAsk askOfFive) clearAll ↔
      ([] : List Ptr) = [] ∧ [(0 : Ptr)] = [] ∧ (oneAsk askOfFive).getBBO = {}) :=
  ⟨wellFormed_init.clears_iff rfl,
    (wellFormed_oneAsk askOfFive (by decide) (by decide)).clears_iff rfl⟩

/-- One order is enough: its slot of the price table is left. -/
theorem not_clears : ¬ ∀ b bids asks ring u, WellFormed b bids asks ring → u.type = .clear →
    Clears b u := by
  intro h
  have hwf := wellFormed_oneAsk askOfFive (by decide) (by decide)
  have hempty := (hwf.clears_iff (u := clearAll) rfl).1 (h _ _ _ _ clearAll hwf rfl)
  exact absurd hempty.2.1 (by simp)

end MarketOrderBook
end Trading
end TradingEcosystem
