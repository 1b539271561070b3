import TradingEcosystem.Exchange.LadderMatching
import TradingEcosystem.Exchange.SideSymmetry

/-!
# Mirrored runs

The run of a book on the mirrored requests is the mirror image of its run on the requests.
`Quoted` says that a book has a mirror image; the book the constructor leaves has one, the requests
keep it, and a well-formed book has one when its sides and prices are in range and its tables lead
to its own orders (`Ladders.quoted`).  That image is well-formed again, with bids and asks exchanged
(`Ladders.reflect`).
-/

set_option autoImplicit false

namespace TradingEcosystem
namespace Exchange
namespace MEOrderBook

open TwoRuns Ring

variable {K : Price} {b : MEOrderBook}

/-- The book has a mirror image at `K`: wherever its pointers lead there are sides and prices of at
most `K`. -/
def Quoted (K : Price) (b : MEOrderBook) : Prop := ∃ O L, Quotes K b O L

/-! ## Well-formed books -/

section WellFormed

variable {bids asks : List Ptr} {ring : Ptr → List Ptr}

theorem Ladder.mem_of_link {better : Price → Price → Prop} {head : Option Ptr} {levels : List Ptr}
    {l m : Ptr} (h : Ladder b better head ring levels) (hl : l ∈ levels)
    (hm : b.nextLevel l = some m ∨ b.prevLevel l = some m) : m ∈ levels :=
  hm.elim (h.isRing.mem_of_next hl) (h.isRing.mem_of_prev hl)

/-- The orders of the two ladders. -/
def ladderOrders (bids asks : List Ptr) (ring : Ptr → List Ptr) : Set Ptr :=
  {p | ∃ l ∈ bids ++ asks, p ∈ ring l}

/-- The tables lead to the orders and levels of the ladders. -/
structure TablesInside (b : MEOrderBook) (bids asks : List Ptr) (ring : Ptr → List Ptr) : Prop where
  slots : ∀ i l, b.priceLevels i = some l → l ∈ bids ++ asks
  clients : ∀ c o p, b.clientOrders c o = some p → p ∈ ladderOrders bids asks ring

/-- The orders and levels of the ladders have sides and prices of at most `K`. -/
structure SidesAndPrices (K : Price) (b : MEOrderBook) (bids asks : List Ptr)
    (ring : Ptr → List Ptr) : Prop where
  order : ∀ p ∈ ladderOrders bids asks ring, (b.data p).side.IsQuoted
  level : ∀ l ∈ bids ++ asks, (b.level l).side.IsQuoted ∧ PriceIn K (b.level l).price

theorem Ladders.quotes (h : Ladders b bids asks ring) (ht : TablesInside b bids asks ring)
    (hs : SidesAndPrices K b bids asks ring) :
    Quotes K b (ladderOrders bids asks ring) {l | l ∈ bids ++ asks} where
  order := fun p hpl => by
    obtain ⟨l, hl, hp⟩ := hpl
    have hlevel := h.level hl
    refine ⟨hs.order p ⟨l, hl, hp⟩, ?_, fun r hr => ?_, fun r hr => ?_⟩
    · show PriceIn K (b.data p).price
      rw [hlevel.price p hp]
      exact (hs.level l hl).2
    · exact ⟨l, hl, hlevel.isRing.mem_of_next hp hr⟩
    · exact ⟨l, hl, hlevel.isRing.mem_of_prev hp hr⟩
  level := fun l hl => by
    obtain ⟨hside, hprice⟩ := hs.level l hl
    obtain ⟨a, t, hat, hfirst⟩ := (h.level hl).entry
    have hlinks : ∀ m, b.nextLevel l = some m ∨ b.prevLevel l = some m → m ∈ bids ++ asks := by
      intro m hm
      rcases List.mem_append.1 hl with hl | hl
      · exact List.mem_append_left _ (h.bids.mem_of_link hl hm)
      · exact List.mem_append_right _ (h.asks.mem_of_link hl hm)
    refine ⟨hside, hprice, fun p hp => ?_, fun m hm => hlinks m (Or.inl hm),
      fun m hm => hlinks m (Or.inr hm)⟩
    obtain rfl := Option.some_inj.1 (hfirst.symm.trans hp)
    exact ⟨l, hl, hat ▸ List.mem_cons_self⟩
  bidHead := fun l hl => List.mem_append_left _ (List.mem_of_mem_head? (h.bids.head ▸ hl))
  askHead := fun l hl => List.mem_append_right _ (List.mem_of_mem_head? (h.asks.head ▸ hl))
  slots := ht.slots
  clients := ht.clients

theorem Ladders.quoted (h : Ladders b bids asks ring) (ht : TablesInside b bids asks ring)
    (hs : SidesAndPrices K b bids asks ring) : Quoted K b := ⟨_, _, h.quotes ht hs⟩

/-- A level of orders is one in the mirror image. -/
theorem HoldsOrders.reflect {l : Ptr} (h : HoldsOrders b ring l)
    (hp : PriceIn K (b.level l).price) : HoldsOrders (b.reflect K) ring l where
  inUse := h.inUse
  inTable := (getPriceLevel_reflect hp).trans h.inTable
  entry := h.entry
  isRing := h.isRing
  orderInUse := h.orderInUse
  price := fun p hpl => congrArg (reflectPrice K) (h.price p hpl)
  qty := h.qty
  idsLt := h.idsLt

theorem Ladder.reflect {better better' : Price → Price → Prop} {head : Option Ptr}
    {levels : List Ptr} (h : Ladder b better head ring levels)
    (hbetter : ∀ p q, PriceIn K p → PriceIn K q → better p q →
      better' (reflectPrice K p) (reflectPrice K q))
    (hp : ∀ l ∈ levels, PriceIn K (b.level l).price) :
    Ladder (b.reflect K) better' head ring levels where
  head := h.head
  isRing := h.isRing
  sorted := h.sorted.imp_of_mem fun {l m} hl hm hlm => hbetter _ _ (hp l hl) (hp m hm) hlm
  level := fun l hl => (h.level l hl).reflect (hp l hl)

/-- **The mirror image of a well-formed book is well-formed**, the bids and the asks exchanged. -/
theorem Ladders.reflect (h : Ladders b bids asks ring) (hs : SidesAndPrices K b bids asks ring) :
    Ladders (b.reflect K) asks bids ring where
  bids := h.asks.reflect (fun _ _ hp hq hlt => (hq.reflect_lt hp).2 hlt)
    fun l hl => (hs.level l (List.mem_append_right _ hl)).2
  asks := h.bids.reflect (fun _ _ hp hq hlt => (hp.reflect_lt hq).2 hlt)
    fun l hl => (hs.level l (List.mem_append_left _ hl)).2

end WellFormed

/-! ## Runs -/

/-- **The two sides are mirror images.**  The run on the mirrored requests returns the mirrored book
and says the mirrored messages, and so does every call of `add` and `cancel` on a book that has a
mirror image; where the one stops with an error the other stops with the same. -/
theorem sides_mirror (K : Price) :
    (∀ t reqs, (∀ req ∈ reqs, QuotedRequest K req) →
      (init t).processAll (reqs.map (reflectRequest K)) =
        ((init t).processAll reqs).map (reflectResult K)) ∧
    ∀ b, Quoted K b →
      (∀ c o t side price qty, side.IsQuoted → PriceIn K price →
        (b.reflect K).add c o t side.reflect (reflectPrice K price) qty =
          (b.add c o t side price qty).map (reflectResult K)) ∧
      ∀ c o t, (b.reflect K).cancel c o t = (b.cancel c o t).map (reflectResult K) := by
  refine ⟨fun t reqs hreqs => ?_, fun b hb => ?_⟩
  · have hinit : Mirrored K (init t, []) (init t, []) :=
      ⟨congrArg (·, []) (reflect_init K t).symm, ∅, ∅, quotes_init K t⟩
    exact ((hinit.foldlM reqs hreqs).mono fun _ _ h => h.1).eq_map
  · obtain ⟨O, L, hq⟩ := hb
    refine ⟨fun c o t side price qty hside hp => ?_, fun c o t => ?_⟩
    · exact ((hq.add c o t hside hp qty).mono fun _ _ h => h.1).eq_map
    · exact ((hq.cancel c o t).mono fun _ _ h => h.1).eq_map

/-- A sell and a buy whose levels share a slot of the price table, and the cancel of the first. -/
def sharedSlot : List MEClientRequest :=
  [{ requestType := .new, clientId := 0, tickerId := 0, orderId := 1, side := .sell, price := 100,
     qty := 5 },
   { requestType := .new, clientId := 1, tickerId := 0, orderId := 1, side := .buy, price := 356,
     qty := 3 },
   { requestType := .cancel, clientId := 0, tickerId := 0, orderId := 1 }]

theorem quotedRequest_sharedSlot : ∀ req ∈ sharedSlot, QuotedRequest 400 req := by
  have hlow : PriceIn 400 100 := ⟨by decide, by decide⟩
  have hhigh : PriceIn 400 356 := ⟨by decide, by decide⟩
  intro req hreq
  simp only [sharedSlot, List.mem_cons, List.not_mem_nil, or_false] at hreq
  rcases hreq with rfl | rfl | rfl
  · exact fun _ => ⟨Or.inr rfl, hlow⟩
  · exact fun _ => ⟨Or.inl rfl, hhigh⟩
  · exact fun h => absurd h (by decide)

theorem quoted_oneAsk : Quoted 400 oneAsk := by
  have hp : PriceIn 400 100 := ⟨by decide, by decide⟩
  refine ladders_oneAsk.quoted ⟨fun i l hl => ?_, fun c o p hco => ?_⟩
    ⟨fun p hpl => ?_, fun l hl => ?_⟩
  · by_cases hi : i = 100
    · subst hi
      simpa [oneAsk] using hl.symm
    · simp [oneAsk, hi] at hl
  · have hmem : (0 : Ptr) ∈ ladderOrders [] [0] fun _ => [0] := ⟨0, by simp, by simp⟩
    by_cases hc : c = 0
    · subst hc
      by_cases ho : o = 1
      · subst ho
        obtain rfl : 0 = p := by simpa [oneAsk] using hco
        exact hmem
      · simp [oneAsk, ho] at hco
    · simp [oneAsk, hc] at hco
  · obtain ⟨l, -, hpl⟩ := hpl
    obtain rfl := List.mem_singleton.1 hpl
    exact Or.inr rfl
  · obtain rfl := List.mem_singleton.1 hl
    exact ⟨Or.inr rfl, hp⟩

/-- The requests that share a slot, and a buy order for 3 of the 5 that `oneAsk` offers. -/
theorem sides_mirror_sharedSlot :
    (∃ x, (init 0).processAll sharedSlot = .ok x ∧
      (init 0).processAll (sharedSlot.map (reflectRequest 400)) = .ok (reflectResult 400 x)) ∧
    ∃ x, oneAsk.add 1 1 0 .buy 100 3 = .ok x ∧
      (oneAsk.reflect 400).add 1 1 0 .sell (reflectPrice 400 100) 3 =
        .ok (reflectResult 400 x) := by
  obtain ⟨x, hx⟩ : ∃ x, (init 0).processAll sharedSlot = .ok x := ⟨_, rfl⟩
  obtain ⟨y, hy⟩ : ∃ y, oneAsk.add 1 1 0 .buy 100 3 = .ok y := ⟨_, rfl⟩
  have hrun := (sides_mirror 400).1 0 sharedSlot quotedRequest_sharedSlot
  have hadd := ((sides_mirror 400).2 oneAsk quoted_oneAsk).1 1 1 0 .buy 100 3 (Or.inl rfl)
    ⟨by decide, by decide⟩
  rw [hx] at hrun
  rw [hy] at hadd
  exact ⟨⟨x, hx, hrun⟩, y, hy, hadd⟩

end MEOrderBook
end Exchange
end TradingEcosystem
