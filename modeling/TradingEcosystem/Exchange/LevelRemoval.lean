import TradingEcosystem.Exchange.LevelInsertion

/-!
# Removing a level

`removePriceLevel` on a ladder as its comments mean it.  The neighbours of the level are linked to
each other, the slot is cleared and the block is given back; that much comes out right for every
level of every ladder (`SortedLadder.takesLevel`).  The head of the side is a local copy, which is
moved on or set to null and then forgotten.  So `removesLevel_iff`: the ladder stays anchored
exactly when its head was not the level that went.
-/

set_option autoImplicit false

namespace TradingEcosystem
namespace Exchange
namespace MEOrderBook

open Ring

/-- The level is live, and the price table has it under its price and nowhere else. -/
structure InTable (b : MEOrderBook) (l : Ptr) : Prop where
  live : b.priceLevelsPool.Live l
  slot : b.getPriceLevel (b.level l).price = some l
  unique : ∀ i, b.priceLevels i = some l → i = priceToIndex (b.level l).price

/-- What holds of the book whatever the heads are: the ring, the slot and the block of the level at
`l` are gone, and nothing else is. -/
structure TakesLevel (b b' : MEOrderBook) (levels : List Ptr) (l : Ptr) : Prop where
  isRing : IsRing b'.nextLevel b'.prevLevel (levels.erase l)
  /-- The links are all that changes in a level. -/
  fields : ∀ m, (b'.level m).price = (b.level m).price ∧ (b'.level m).side = (b.level m).side ∧
    (b'.level m).firstOrder = (b.level m).firstOrder
  others : ∀ m, m ∉ levels → b'.level m = b.level m
  slots : b'.priceLevels =
    Function.update b.priceLevels (priceToIndex (b.level l).price) none
  /-- One block is freed. -/
  live : ∀ m, b'.priceLevelsPool.Live m ↔ m ≠ l ∧ b.priceLevelsPool.Live m
  size : b'.priceLevelsPool.size = b.priceLevelsPool.size
  heads : b'.bidLevelsHead = b.bidLevelsHead ∧ b'.askLevelsHead = b.askLevelsHead
  orders : b'.orderPool = b.orderPool ∧ b'.clientOrders = b.clientOrders

/-- **The level is removed**: the ladder of its side is the ladder without it, entered at the best
that is left, and nothing leads to it any more; the ladder of the other side stays as it is. -/
structure RemovedLevel (b b' : MEOrderBook) (side : Side) (levels others : List Ptr) (l : Ptr) :
    Prop where
  ladder : SortedLadder b' side (levels.erase l)
  /-- Levels keep everything but their links. -/
  fields : ∀ m, (b'.level m).price = (b.level m).price ∧ (b'.level m).side = (b.level m).side ∧
    (b'.level m).firstOrder = (b.level m).firstOrder
  /-- The slot is null, and the others are what they were. -/
  slot : b'.priceLevels = Function.update b.priceLevels (priceToIndex (b.level l).price) none
  /-- One block is freed. -/
  live : ∀ m, b'.priceLevelsPool.Live m ↔ m ≠ l ∧ b.priceLevelsPool.Live m
  heads : b'.bidLevelsHead ≠ some l ∧ b'.askLevelsHead ≠ some l
  table : ∀ i, b'.priceLevels i ≠ some l
  links : ∀ m, m ∈ levels.erase l ∨ m ∈ others →
    b'.nextLevel m ≠ some l ∧ b'.prevLevel m ≠ some l
  otherHead : b'.headOf (otherSide side) = b.headOf (otherSide side)
  otherLadder : SortedLadder b' (otherSide side) others
  otherLevels : ∀ m ∈ others, b'.level m = b.level m

/-- `removePriceLevel` returns and has removed the level. -/
def RemovesLevel (b : MEOrderBook) (side : Side) (levels others : List Ptr) (l : Ptr) : Prop :=
  ∃ b', b.removePriceLevel side (b.level l).price = .ok b' ∧
    RemovedLevel b b' side levels others l

variable {b b' : MEOrderBook} {side : Side} {levels others : List Ptr} {l q n : Ptr}

/-! ## What comes out right for every level -/

theorem fields_joinLevels (b : MEOrderBook) (q n m : Ptr) :
    ((b.joinLevels q n).level m).price = (b.level m).price ∧
      ((b.joinLevels q n).level m).side = (b.level m).side ∧
      ((b.joinLevels q n).level m).firstOrder = (b.level m).firstOrder := by
  obtain ⟨hprice, hside⟩ := price_side_setPrevPriceLevel (b.setNextPriceLevel q (some n)) n m (some q)
  obtain ⟨hprice', hside'⟩ := price_side_setNextPriceLevel b q m (some n)
  exact ⟨hprice.trans hprice', hside.trans hside', firstOrder_joinLevels b q n m⟩

theorem level_joinLevels_of_ne {m : Ptr} (hq : m ≠ q) (hn : m ≠ n) :
    (b.joinLevels q n).level m = b.level m := by
  rw [joinLevels, level_setPrevPriceLevel, if_neg hn, level_setNextPriceLevel, if_neg hq]

/-- **The ring, the slot and the block** are right for every level of a ladder. -/
theorem SortedLadder.takesLevel (h : SortedLadder b side levels) (hl : l ∈ levels)
    (ht : InTable b l) :
    ∃ b', b.removePriceLevel side (b.level l).price = .ok b' ∧ TakesLevel b b' levels l := by
  have hlt := h.inPool l hl
  obtain ⟨q, hq, n, hn, hprev, hnext⟩ := h.isRing.links_mem hl
  by_cases hself : n = l
  · -- the only level leads to itself, and no link is written
    subst hself
    refine ⟨b.withoutLevel (b.level n).price n, ?_, ?_⟩
    · rw [removePriceLevel_self ht.slot hnext]
      exact dropLevel_eq_ok.2 ⟨ht.live, hlt, rfl⟩
    · have hempty : levels.erase n = [] := by
        rw [h.isRing.eq_singleton_of_next hl hnext, List.erase_cons_head]
      have hlevel : ∀ m, (b.withoutLevel (b.level n).price n).level m = b.level m := fun m =>
        MemPool.get_release b.priceLevelsPool n m
      exact
        { isRing := hempty ▸ ⟨List.nodup_nil, Cycle.Chain.nil _⟩
          fields := fun m => by rw [hlevel]; exact ⟨rfl, rfl, rfl⟩
          others := fun m _ => hlevel m
          slots := rfl
          live := MemPool.live_release b.priceLevelsPool n
          size := rfl
          heads := ⟨rfl, rfl⟩
          orders := ⟨rfl, rfl⟩ }
  · have hql : q ≠ l := by
      rintro rfl
      have hback := h.isRing.next_of_prev hl hprev
      exact hself (Option.some_inj.1 (hnext.symm.trans hback))
    have hlevel : ∀ m, ((b.joinLevels q n).withoutLevel (b.level l).price l).level m =
        (b.joinLevels q n).level m := fun m => MemPool.get_release _ l m
    have hlive : ∀ m, (b.joinLevels q n).priceLevelsPool.Live m ↔ b.priceLevelsPool.Live m :=
      fun m => by simp [joinLevels, setPrevPriceLevel, setNextPriceLevel, setLevel]
    refine ⟨(b.joinLevels q n).withoutLevel (b.level l).price l, ?_, ?_⟩
    · rw [removePriceLevel_linked ht.slot hprev hnext hself hql]
      exact dropLevel_eq_ok.2 ⟨(hlive l).2 ht.live, hlt, rfl⟩
    · have hnexts : ∀ m, ((b.joinLevels q n).withoutLevel (b.level l).price l).nextLevel m =
          if m = q then some n else b.nextLevel m := fun m => by
        rw [nextLevel, hlevel]
        exact nextLevel_joinLevels b q n m
      have hprevs : ∀ m, ((b.joinLevels q n).withoutLevel (b.level l).price l).prevLevel m =
          if m = n then some q else b.prevLevel m := fun m => by
        rw [prevLevel, hlevel]
        exact prevLevel_joinLevels b q n m
      exact
        { isRing := h.isRing.erase hl hprev hnext hql ((hnexts q).trans (if_pos rfl))
            ((hprevs n).trans (if_pos rfl)) (fun m _ hm => (hnexts m).trans (if_neg hm))
            fun m _ hm => (hprevs m).trans (if_neg hm)
          fields := fun m => by rw [hlevel]; exact fields_joinLevels b q n m
          others := fun m hm => by
            rw [hlevel]
            exact level_joinLevels_of_ne (fun he => hm (he ▸ hq)) fun he => hm (he ▸ hn)
          slots := rfl
          live := fun m =>
            (MemPool.live_release _ l m).trans (and_congr_right fun _ => hlive m)
          size := rfl
          heads := ⟨rfl, rfl⟩
          orders := ⟨rfl, rfl⟩ }

/-! ## Where the head leads -/

theorem TakesLevel.headOf (h : TakesLevel b b' levels l) (side : Side) :
    b'.headOf side = b.headOf side := by
  rw [MEOrderBook.headOf, MEOrderBook.headOf, h.heads.1, h.heads.2]

/-- The levels that are left are still sorted, and of their side. -/
theorem TakesLevel.ladder (h : TakesLevel b b' levels l) (hs : SortedLadder b side levels)
    (hhead : levels.head? ≠ some l) : SortedLadder b' side (levels.erase l) where
  head := by
    rw [h.headOf, hs.head]
    cases levels with
    | nil => rfl
    | cons a t =>
      have hne : a ≠ l := fun he => hhead (congrArg some he)
      rw [List.erase_cons_tail (by simpa using hne), List.head?_cons, List.head?_cons]
  isRing := h.isRing
  sorted := by
    refine (hs.sorted.sublist List.erase_sublist).imp fun hlm => ?_
    rwa [(h.fields _).1, (h.fields _).1]
  side_eq := fun m hm => by
    rw [(h.fields m).2.1]
    exact hs.side_eq m (List.mem_of_mem_erase hm)
  inPool := fun m hm => by
    rw [h.size]
    exact hs.inPool m (List.mem_of_mem_erase hm)

/-- The other ladder is as it was: it has none of these levels. -/
theorem TakesLevel.otherLadder (h : TakesLevel b b' levels l)
    (ho : SortedLadder b (otherSide side) others) (hout : ∀ m ∈ others, m ∉ levels) :
    SortedLadder b' (otherSide side) others where
  head := (h.headOf _).trans ho.head
  isRing := ho.isRing.congr
    (fun m hm => congrArg MEOrderAtPriceLevel.nextPriceLevel (h.others m (hout m hm)))
    fun m hm => congrArg MEOrderAtPriceLevel.prevPriceLevel (h.others m (hout m hm))
  sorted := ho.sorted.imp fun hlm => by rwa [(h.fields _).1, (h.fields _).1]
  side_eq := fun m hm => by
    rw [h.others m (hout m hm)]
    exact ho.side_eq m hm
  inPool := fun m hm => by
    rw [h.size]
    exact ho.inPool m hm

/-- The ladder stays anchored after the removal of a level exactly when the level is not the head,
which a level that is the only one is, too. -/
theorem removesLevel_iff (hside : side = .buy ∨ side = .sell) (h : SortedLadder b side levels)
    (ho : SortedLadder b (otherSide side) others) (hl : l ∈ levels) (ht : InTable b l) :
    RemovesLevel b side levels others l ↔ levels.head? ≠ some l := by
  obtain ⟨b', hb', htakes⟩ := h.takesLevel hl ht
  have hnot : l ∉ levels.erase l := h.isRing.nodup.not_mem_erase
  constructor
  · rintro ⟨c, hc, hremoved⟩ hhead
    obtain rfl := Except.ok.inj (hb'.symm.trans hc)
    have hstale : (levels.erase l).head? = some l := by
      rw [← hremoved.ladder.head, htakes.headOf, h.head, hhead]
    exact hnot (List.mem_of_head? hstale)
  · intro hhead
    have hout : ∀ m ∈ others, m ∉ levels := fun m hm hmem =>
      ne_otherSide hside ((h.side_eq m hmem).symm.trans (ho.side_eq m hm))
    have hlothers : l ∉ others := fun hmem => hout l hmem hl
    have hladder := htakes.ladder h hhead
    have hother := htakes.otherLadder ho hout
    have hheads : ∀ s, s = side ∨ s = otherSide side → b'.headOf s ≠ some l := by
      rintro s (rfl | rfl) hs
      · exact hnot (List.mem_of_head? (hladder.head.symm.trans hs))
      · exact hlothers (List.mem_of_head? (hother.head.symm.trans hs))
    refine ⟨b', hb', hladder, htakes.fields, htakes.slots, htakes.live, ?_, fun i hi => ?_, ?_,
      htakes.headOf _, hother, fun m hm => htakes.others m (hout m hm)⟩
    · have hbuy := hheads .buy (by rcases hside with rfl | rfl <;> simp [otherSide])
      have hsell := hheads .sell (by rcases hside with rfl | rfl <;> simp [otherSide])
      exact ⟨hbuy, hsell⟩
    · rw [htakes.slots] at hi
      by_cases hidx : i = priceToIndex (b.level l).price
      · rw [hidx, Function.update_self] at hi
        exact absurd hi (by simp)
      · rw [Function.update_of_ne hidx] at hi
        exact hidx (ht.unique i hi)
    · rintro m (hm | hm)
      · exact ⟨fun hlink => hnot (hladder.isRing.mem_of_next hm hlink),
          fun hlink => hnot (hladder.isRing.mem_of_prev hm hlink)⟩
      · exact ⟨fun hlink => hlothers (hother.isRing.mem_of_next hm hlink),
          fun hlink => hlothers (hother.isRing.mem_of_prev hm hlink)⟩

/-- The two bids of `twoBids` with their slots in the price table. -/
def tabledBids : MEOrderBook :=
  { twoBids with
    priceLevels := fun i => if i = 100 then some 0 else if i = 90 then some 1 else none
    priceLevelsPool := { twoBids.priceLevelsPool with
      store := fun i => { twoBids.priceLevelsPool.store i with isFree := 2 ≤ i } } }

theorem sortedLadder_tabledBids : SortedLadder tabledBids .buy [0, 1] where
  head := rfl
  isRing := sortedLadder_twoBids.isRing
  sorted := by decide
  side_eq := by decide
  inPool := by decide

theorem sortedLadder_tabledAsks : SortedLadder tabledBids (otherSide .buy) [] where
  head := rfl
  isRing := ⟨List.nodup_nil, Cycle.Chain.nil _⟩
  sorted := List.Pairwise.nil
  side_eq := by simp
  inPool := by simp

theorem inTable_tabledBids {l : Ptr} (hl : l = 0 ∨ l = 1) : InTable tabledBids l := by
  have hslots : ∀ i m, tabledBids.priceLevels i = some m → i = 100 ∧ m = 0 ∨ i = 90 ∧ m = 1 := by
    intro i m hi
    simp only [tabledBids] at hi
    split at hi
    · next h => exact Or.inl ⟨h, (Option.some_inj.1 hi).symm⟩
    · split at hi
      · next h => exact Or.inr ⟨h, (Option.some_inj.1 hi).symm⟩
      · exact absurd hi (by simp)
  rcases hl with rfl | rfl
  · refine ⟨rfl, rfl, fun i hi => ?_⟩
    obtain ⟨rfl, -⟩ | ⟨-, hne⟩ := hslots i 0 hi
    · rfl
    · exact absurd hne (by decide)
  · refine ⟨rfl, rfl, fun i hi => ?_⟩
    obtain ⟨-, hne⟩ | ⟨rfl, -⟩ := hslots i 1 hi
    · exact absurd hne (by decide)
    · rfl

/-- The lower bid of the two. -/
theorem removesLevel_iff_tabledBids :
    RemovesLevel tabledBids .buy [0, 1] [] 1 ↔ [0, 1].head? ≠ some 1 :=
  removesLevel_iff (Or.inl rfl) sortedLadder_tabledBids sortedLadder_tabledAsks (by decide)
    (inTable_tabledBids (Or.inr rfl))

/-- The best bid leaves the head at the block that was freed. -/
theorem not_removesLevel : ¬ ∀ b side levels others l, (side = .buy ∨ side = .sell) →
    SortedLadder b side levels → SortedLadder b (otherSide side) others → l ∈ levels →
    InTable b l → RemovesLevel b side levels others l := by
  intro h
  obtain ⟨b', hb', hremoved⟩ := h tabledBids .buy [0, 1] [] 0 (Or.inl rfl) sortedLadder_tabledBids
    sortedLadder_tabledAsks (by decide) (inTable_tabledBids (Or.inl rfl))
  obtain ⟨c, hc, htakes⟩ := sortedLadder_tabledBids.takesLevel (l := 0) (by decide)
    (inTable_tabledBids (Or.inl rfl))
  obtain rfl := Except.ok.inj (hb'.symm.trans hc)
  exact hremoved.heads.1 htakes.heads.1

end MEOrderBook
end Exchange
end TradingEcosystem
