import TradingEcosystem.Trading.MarketOrderBook

/-!
# The book a feed describes

`FeedBook` is what a client's book stands for: the orders that were added and not taken out, oldest
first, and `apply` is what each update means for it.  `Agrees` says that the three structures of a
`MarketOrderBook` all hold such a list.

`foldsFeed_iff` is how far the source goes: after a valid feed the three agree exactly when nothing
was ever added.  `Unlinked` is what stays true on the way, whatever is added: no order in the table
of ids, no level in a ladder.
-/

set_option autoImplicit false

namespace TradingEcosystem
namespace Trading

open Ring

/-- The orders of a feed that are there, oldest first. -/
abbrev FeedBook := List MarketOrderData

namespace FeedBook

/-- What an update does to them. -/
def apply (l : FeedBook) (u : MEMarketUpdate) : FeedBook :=
  match u.type with
  | .add => l ++ [⟨u.orderId, u.side, u.price, u.qty, u.priority⟩]
  | .modify => l.map fun d => if d.orderId = u.orderId then { d with qty := u.qty } else d
  | .cancel => l.filter fun d => d.orderId ≠ u.orderId
  | .clear => []
  | _ => l

/-- An update makes sense: what is added is new and has a price slot to itself or shares it with
orders of its own price, what is changed is there. -/
def Accepts (l : FeedBook) (u : MEMarketUpdate) : Prop :=
  (u.type = .add ∧ ∀ d ∈ l, d.orderId ≠ u.orderId ∧
    (MarketOrderBook.priceToIndex d.price = MarketOrderBook.priceToIndex u.price →
      d.price = u.price)) ∨
  ((u.type = .modify ∨ u.type = .cancel) ∧ ∃ d ∈ l, d.orderId = u.orderId) ∨
  u.type = .trade ∨ u.type = .clear

/-- A valid feed. -/
def AcceptsAll : FeedBook → List MEMarketUpdate → Prop
  | _, [] => True
  | l, u :: us => l.Accepts u ∧ AcceptsAll (l.apply u) us

/-- Where the orders after an update come from: the update, or an order that was there and has at
most another quantity. -/
theorem of_mem_apply {l : FeedBook} {u : MEMarketUpdate} {d : MarketOrderData}
    (hd : d ∈ l.apply u) :
    (u.type = .add ∧ d = ⟨u.orderId, u.side, u.price, u.qty, u.priority⟩) ∨
      ∃ e ∈ l, d = { e with qty := d.qty } := by
  rw [apply] at hd
  split at hd
  · next hadd =>
    rcases List.mem_append.1 hd with hd | hd
    · exact Or.inr ⟨d, hd, rfl⟩
    · exact Or.inl ⟨hadd, List.mem_singleton.1 hd⟩
  · obtain ⟨e, he, rfl⟩ := List.mem_map.1 hd
    refine Or.inr ⟨e, he, ?_⟩
    split <;> rfl
  · exact Or.inr ⟨d, List.mem_of_mem_filter hd, rfl⟩
  · exact absurd hd List.not_mem_nil
  · exact Or.inr ⟨d, hd, rfl⟩

end FeedBook

namespace MarketOrderBook

/-- The order at an address without its links. -/
def data (b : MarketOrderBook) (p : Ptr) : MarketOrderData := (b.order p).toMarketOrderData

/-- The orders a slot of the price table leads to, in the order of their ring. -/
def SlotHolds (b : MarketOrderBook) (i : Nat) (ring : List Ptr) : Prop :=
  match b.ordersAtPriceLevels i with
  | none => ring = []
  | some p => ring ≠ [] ∧ ring.head? = (b.level p).firstOrder ∧
      IsRing (fun q => (b.order q).nextOrder) (fun q => (b.order q).prevOrder) ring

/-- The levels a ladder leads to, from its head. -/
def LadderHolds (b : MarketOrderBook) (head : Option Ptr) (levels : List Ptr) : Prop :=
  levels.head? = head ∧
    IsRing (fun q => (b.level q).nextLevel) (fun q => (b.level q).prevLevel) levels

/-- **The three structures hold the orders of the feed**: the table of ids has each order under its
id; the slot of a price has the orders of that price, oldest first; and the two ladders have the
levels of the slots, by side. -/
structure Agrees (b : MarketOrderBook) (l : FeedBook) : Prop where
  ids : ∀ (k : OrderId) (d : MarketOrderData),
    (∃ p, b.orderIdToOrder k = some p ∧ b.data p = d) ↔ d ∈ l ∧ d.orderId = k
  slots : ∀ i, ∃ ring, b.SlotHolds i ring ∧
    ring.map b.data = l.filter fun d => priceToIndex d.price = i
  bids : ∃ levels, b.LadderHolds b.bidPriceLevels levels ∧ ∀ p, p ∈ levels ↔
    (∃ i, b.ordersAtPriceLevels i = some p) ∧ (b.level p).side = .buy
  asks : ∃ levels, b.LadderHolds b.askPriceLevels levels ∧ ∀ p, p ∈ levels ↔
    (∃ i, b.ordersAtPriceLevels i = some p) ∧ (b.level p).side ≠ .buy

theorem agrees_init : Agrees init [] where
  ids := fun _ _ => by simp [init]
  slots := fun _ => ⟨[], rfl, rfl⟩
  bids := ⟨[], ⟨rfl, List.nodup_nil, Cycle.Chain.nil _⟩, by simp [init]⟩
  asks := ⟨[], ⟨rfl, List.nodup_nil, Cycle.Chain.nil _⟩, by simp [init]⟩

/-! ## What is never linked -/

/-- No order in the table of ids, no level in a ladder. -/
structure Unlinked (b : MarketOrderBook) : Prop where
  ids : ∀ k, b.orderIdToOrder k = none
  bids : b.bidPriceLevels = none
  asks : b.askPriceLevels = none

/-- A price slot is in use. -/
def Occupied (b : MarketOrderBook) : Prop := ∃ i p, b.ordersAtPriceLevels i = some p

variable {b b' : MarketOrderBook}

theorem unlinked_init : Unlinked init := ⟨fun _ => rfl, rfl, rfl⟩

/-- A book that is occupied, and unlinked, agrees with no feed. -/
theorem Unlinked.not_agrees (h : Unlinked b) (ho : Occupied b) (l : FeedBook) : ¬ Agrees b l := by
  intro hl
  obtain ⟨i, p, hp⟩ := ho
  have hempty : l = [] := by
    refine List.eq_nil_iff_forall_not_mem.2 fun d hd => ?_
    obtain ⟨q, hq, -⟩ := (hl.ids d.orderId d).2 ⟨hd, rfl⟩
    rw [h.ids] at hq
    exact absurd hq (by simp)
  obtain ⟨ring, hring, hmap⟩ := hl.slots i
  rw [SlotHolds, hp] at hring
  subst hempty
  exact hring.1 (List.map_eq_nil_iff.1 hmap)

/-- A new level goes into the price table and into no ladder. -/
theorem Unlinked.addOrdersAtPriceLevel (h : Unlinked b) {l : Ptr}
    (hb : b.addOrdersAtPriceLevel l = .ok b') : Unlinked b' ∧ Occupied b' := by
  rw [MarketOrderBook.addOrdersAtPriceLevel] at hb
  have hhead : (if (b.level l).side = .buy then (b.setPriceLevel (b.level l).price
      (some l)).bidPriceLevels else (b.setPriceLevel (b.level l).price (some l)).askPriceLevels) =
      none := by
    split
    · exact h.bids
    · exact h.asks
  simp only [hhead] at hb
  obtain rfl := Except.ok.inj hb
  exact ⟨⟨h.ids, h.bids, h.asks⟩, _, l, Function.update_self _ _ _⟩

theorem Unlinked.addOrder (h : Unlinked b) {p : Ptr} (hb : b.addOrder p = .ok b') :
    Unlinked b' ∧ Occupied b' := by
  rw [MarketOrderBook.addOrder] at hb
  dsimp only at hb
  split at hb
  · next l hl =>
    obtain ⟨first, -, hb⟩ := bind_eq_ok.1 hb
    obtain ⟨last, -, hb⟩ := bind_eq_ok.1 hb
    obtain rfl := Except.ok.inj hb
    exact ⟨⟨h.ids, h.bids, h.asks⟩, _, l, hl⟩
  · obtain ⟨⟨pool, l⟩, -, hb⟩ := bind_eq_ok.1 hb
    obtain ⟨b'', hadd, hb⟩ := bind_eq_ok.1 hb
    obtain rfl := Except.ok.inj hb
    obtain ⟨hun, hoc⟩ := Unlinked.addOrdersAtPriceLevel (b := { b.setPrevOrder p (some p)
      |>.setNextOrder p _ with priceLevelPool := pool }) ⟨h.ids, h.bids, h.asks⟩ hadd
    exact ⟨⟨hun.ids, hun.bids, hun.asks⟩, hoc⟩

/-- There is nothing to clear. -/
theorem Unlinked.clear_eq (h : Unlinked b) : b.clear = .ok b := by
  have horders : ∀ ks, b.clearOrders ks = .ok b := by
    intro ks
    induction ks with
    | nil => rfl
    | cons k ks ih =>
      rw [clearOrders, List.foldlM_cons, h.ids]
      exact ih
  rw [clear, horders, ok_bind, h.bids, clearLadder, ok_bind, h.asks, clearLadder, ok_bind]
  cases b
  obtain ⟨-, rfl, rfl⟩ := h
  rfl

/-- Adding occupies a slot, and nothing frees one. -/
theorem Unlinked.step (h : Unlinked b) {u : MEMarketUpdate} (hb : b.onMarketUpdate u = .ok b') :
    Unlinked b' ∧ (u.type = .add ∨ Occupied b → Occupied b') := by
  have hask : b.bestAskUpdated u = .ok false := by
    rw [bestAskUpdated, if_neg fun hne => hne.1 h.asks]
  rw [onMarketUpdate, hask, ok_bind] at hb
  split at hb
  · next hadd =>
    obtain ⟨⟨pool, p⟩, -, hb⟩ := bind_eq_ok.1 hb
    obtain ⟨hun, hoc⟩ := Unlinked.addOrder (b := { b with orderPool := pool })
      ⟨h.ids, h.bids, h.asks⟩ hb
    exact ⟨hun, fun _ => hoc⟩
  · -- the entry a `MODIFY` looks for is null
    obtain ⟨order, horder, hb⟩ := bind_eq_ok.1 hb
    rw [orderAt] at horder
    split at horder
    · obtain rfl := Except.ok.inj horder
      rw [h.ids, nonNull_none, error_bind] at hb
      exact absurd hb (by simp)
    · exact absurd horder (by simp)
  · next hcancel =>
    obtain ⟨order, -, hb⟩ := bind_eq_ok.1 hb
    obtain rfl := Except.ok.inj hb
    exact ⟨h, fun ho => ho.resolve_left (by rw [hcancel]; decide)⟩
  · next hclear =>
    rw [h.clear_eq] at hb
    obtain rfl := Except.ok.inj hb
    exact ⟨h, fun ho => ho.resolve_left (by rw [hclear]; decide)⟩
  · next hadd _ _ _ =>
    obtain rfl := Except.ok.inj hb
    exact ⟨h, fun ho => ho.resolve_left hadd⟩

/-! ## Whole feeds -/

/-- After an order was added the book agrees with no feed, if it got that far. -/
theorem Unlinked.run (h : Unlinked b) {us : List MEMarketUpdate}
    (hb : b.onMarketUpdates us = .ok b') (ho : (∃ u ∈ us, u.type = .add) ∨ Occupied b) :
    Unlinked b' ∧ Occupied b' := by
  induction us generalizing b with
  | nil =>
    obtain rfl := Except.ok.inj hb
    exact ⟨h, ho.resolve_left fun ⟨u, hu, _⟩ => absurd hu List.not_mem_nil⟩
  | cons u us ih =>
    rw [onMarketUpdates, List.foldlM_cons] at hb
    obtain ⟨c, hc, hb⟩ := bind_eq_ok.1 hb
    obtain ⟨hun, hoc⟩ := h.step hc
    refine ih hun hb ?_
    rcases ho with ⟨v, hv, hadd⟩ | ho
    · rcases List.mem_cons.1 hv with rfl | hv
      · exact Or.inr (hoc (Or.inl hadd))
      · exact Or.inl ⟨v, hv, hadd⟩
    · exact Or.inr (hoc (Or.inr ho))

/-- Without orders a valid feed leaves the empty book alone. -/
theorem onMarketUpdates_of_no_add {us : List MEMarketUpdate} (hv : FeedBook.AcceptsAll [] us)
    (hno : ∀ u ∈ us, u.type ≠ .add) :
    init.onMarketUpdates us = .ok init ∧ us.foldl FeedBook.apply [] = [] := by
  induction us with
  | nil => exact ⟨rfl, rfl⟩
  | cons u us ih =>
    obtain ⟨hu, hv⟩ := hv
    have hask : init.bestAskUpdated u = .ok false := if_neg fun hne => hne.1 rfl
    obtain ⟨hstep, happly⟩ :
        init.onMarketUpdate u = .ok init ∧ FeedBook.apply [] u = [] := by
      rw [onMarketUpdate, hask, ok_bind, FeedBook.apply]
      rcases hu with ⟨hadd, -⟩ | ⟨-, d, hd, -⟩ | htrade | hclear
      · exact absurd hadd (hno u List.mem_cons_self)
      · exact absurd hd List.not_mem_nil
      · rw [htrade]
        exact ⟨rfl, rfl⟩
      · rw [hclear]
        exact ⟨unlinked_init.clear_eq, rfl⟩
    rw [happly] at hv
    rw [onMarketUpdates, List.foldlM_cons, hstep, ok_bind, List.foldl_cons, happly]
    exact ih hv fun v hmem => hno v (List.mem_cons_of_mem u hmem)

/-- The feed is processed, and the book agrees with it. -/
def FoldsFeed (us : List MEMarketUpdate) : Prop :=
  ∃ b, init.onMarketUpdates us = .ok b ∧ Agrees b (us.foldl FeedBook.apply [])

theorem not_foldsFeed_of_add {us : List MEMarketUpdate} {u : MEMarketUpdate} (hu : u ∈ us)
    (hadd : u.type = .add) : ¬ FoldsFeed us := by
  rintro ⟨b, hb, hagrees⟩
  obtain ⟨hun, hoc⟩ := unlinked_init.run hb (Or.inl ⟨u, hu, hadd⟩)
  exact hun.not_agrees hoc _ hagrees

/-- **The book is the fold of its feed** exactly for the valid feeds that add nothing. -/
theorem foldsFeed_iff (us : List MEMarketUpdate) (hv : FeedBook.AcceptsAll [] us) :
    FoldsFeed us ↔ ∀ u ∈ us, u.type ≠ .add := by
  constructor
  · exact fun h u hu hadd => not_foldsFeed_of_add hu hadd h
  · intro hno
    obtain ⟨hrun, hfold⟩ := onMarketUpdates_of_no_add hv hno
    refine ⟨init, hrun, ?_⟩
    rw [hfold]
    exact agrees_init

/-- A first order. -/
def addFirst : MEMarketUpdate where
  type := .add
  orderId := 1
  tickerId := 0
  side := .buy
  price := 100
  qty := 5
  priority := 1

/-- The order is added, traded against and cancelled: that is not the empty book again. -/
theorem not_foldsFeed_add_cancel :
    ¬ FoldsFeed
      [addFirst, { addFirst with type := .trade }, { addFirst with type := .cancel }] := by
  intro h
  have hno := (foldsFeed_iff [addFirst, { addFirst with type := .trade },
    { addFirst with type := .cancel }] ⟨Or.inl ⟨rfl, by decide⟩, Or.inr (Or.inr (Or.inl rfl)),
      Or.inr (Or.inl ⟨Or.inr rfl, ⟨1, .buy, 100, 5, 1⟩, by decide, rfl⟩), trivial⟩).1 h
  exact hno addFirst List.mem_cons_self rfl

theorem not_foldsFeed_add : ¬ ∀ us : List MEMarketUpdate, FeedBook.AcceptsAll [] us →
    FoldsFeed us :=
  fun h => not_foldsFeed_of_add List.mem_cons_self rfl
    (h [addFirst] ⟨Or.inl ⟨rfl, by decide⟩, trivial⟩)

end MarketOrderBook
end Trading
end TradingEcosystem
