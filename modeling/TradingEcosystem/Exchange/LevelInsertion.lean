import TradingEcosystem.Exchange.Rings

/-!
# Inserting a level

`addOrdersAtPrice` on a ladder as its comments mean it: a ring of levels, the best first, that is
entered at the head of its side (`SortedLadder`).  The loop goes on while the new level is ahead of
the current one, which is the wrong way round: a new level that is ahead of the head is ahead of
every level, so the loop stops at the head or at the last level, and never between two.  And the
first level of a side is assigned to a copy of the head.

`inserts_iff` says which insertions come out right all the same.
-/

set_option autoImplicit false

namespace TradingEcosystem
namespace Exchange
namespace MEOrderBook

open Ring

/-! ## The ladders of the two sides -/

/-- The head of a side. -/
def headOf (b : MEOrderBook) (side : Side) : Option Ptr :=
  if side = .buy then b.bidLevelsHead else b.askLevelsHead

/-- Assigning the head of a side. -/
def setHead (b : MEOrderBook) (side : Side) (l : Ptr) : MEOrderBook :=
  if side = .buy then { b with bidLevelsHead := some l } else { b with askLevelsHead := some l }

/-- The other side. -/
def otherSide (side : Side) : Side := if side = .buy then .sell else .buy

/-- Bids go from the largest price to the smallest, asks from the smallest to the largest. -/
def Better (side : Side) (p q : Price) : Prop := if side = .buy then p > q else p < q

instance (side : Side) (p q : Price) : Decidable (Better side p q) :=
  inferInstanceAs (Decidable (if side = .buy then p > q else p < q))

theorem Better.trans {side : Side} {p q r : Price} (h : Better side p q) (h' : Better side q r) :
    Better side p r := by
  rw [Better] at *
  split at h
  · next hbuy =>
    rw [if_pos hbuy] at h' ⊢
    exact UInt64.lt_trans h' h
  · next hsell =>
    rw [if_neg hsell] at h' ⊢
    exact UInt64.lt_trans h h'

theorem Better.asymm {side : Side} {p q : Price} (h : Better side p q) : ¬ Better side q p := by
  rw [Better] at *
  split at h
  · next hbuy =>
    rw [if_pos hbuy]
    exact UInt64.lt_asymm h
  · next hsell =>
    rw [if_neg hsell]
    exact UInt64.lt_asymm h

theorem better_of_not {side : Side} {p q : Price} (hne : p ≠ q) (h : ¬ Better side p q) :
    Better side q p := by
  rw [Better] at *
  split at h
  · next hbuy =>
    rw [if_pos hbuy]
    exact UInt64.lt_of_le_of_ne (UInt64.not_lt.1 h) hne
  · next hsell =>
    rw [if_neg hsell]
    exact UInt64.lt_of_le_of_ne (UInt64.not_lt.1 h) hne.symm

/-- **A ladder**: the levels of a side, in a ring that is entered at the best. -/
structure SortedLadder (b : MEOrderBook) (side : Side) (levels : List Ptr) : Prop where
  head : b.headOf side = levels.head?
  isRing : IsRing b.nextLevel b.prevLevel levels
  sorted : levels.Pairwise fun l m => Better side (b.level l).price (b.level m).price
  side_eq : ∀ l ∈ levels, (b.level l).side = side
  inPool : ∀ l ∈ levels, l < b.priceLevelsPool.size

/-- **The insertion comes out right.** -/
def Inserts (b : MEOrderBook) (side : Side) (levels others : List Ptr) (new : Ptr) : Prop :=
  ∃ b' levels', b.addOrdersAtPrice new = .ok b' ∧ levels'.Perm (new :: levels) ∧
    SortedLadder b' side levels' ∧ (∀ l, (b'.level l).price = (b.level l).price) ∧
    SortedLadder b' (otherSide side) others ∧ ∀ l ∈ others, b'.level l = b.level l

variable {b : MEOrderBook} {side : Side} {levels others t : List Ptr} {new head l z : Ptr}

/-! ## The fields of the levels -/

section Fields

variable (b) (p m : Ptr) (v : Option Ptr)

theorem nextLevel_setNextPriceLevel :
    (b.setNextPriceLevel p v).nextLevel m = if m = p then v else b.nextLevel m := by
  rw [nextLevel, level_setNextPriceLevel]
  split <;> rfl

theorem nextLevel_setPrevPriceLevel :
    (b.setPrevPriceLevel p v).nextLevel m = b.nextLevel m := by
  rw [nextLevel, level_setPrevPriceLevel]
  split
  · next h => rw [h, nextLevel]
  · rfl

theorem prevLevel_setPrevPriceLevel :
    (b.setPrevPriceLevel p v).prevLevel m = if m = p then v else b.prevLevel m := by
  rw [prevLevel, level_setPrevPriceLevel]
  split <;> rfl

theorem prevLevel_setNextPriceLevel :
    (b.setNextPriceLevel p v).prevLevel m = b.prevLevel m := by
  rw [prevLevel, level_setNextPriceLevel]
  split
  · next h => rw [h, prevLevel]
  · rfl

/-- A link says nothing of the price and the side of a level. -/
theorem price_side_setNextPriceLevel :
    ((b.setNextPriceLevel p v).level m).price = (b.level m).price ∧
      ((b.setNextPriceLevel p v).level m).side = (b.level m).side := by
  rw [level_setNextPriceLevel]
  split
  · next h => rw [h]; exact ⟨rfl, rfl⟩
  · exact ⟨rfl, rfl⟩

theorem price_side_setPrevPriceLevel :
    ((b.setPrevPriceLevel p v).level m).price = (b.level m).price ∧
      ((b.setPrevPriceLevel p v).level m).side = (b.level m).side := by
  rw [level_setPrevPriceLevel]
  split
  · next h => rw [h]; exact ⟨rfl, rfl⟩
  · exact ⟨rfl, rfl⟩

end Fields

/-! ## Linking the new level -/

/-- The new level in front of `current`, which had `prev` before it. -/
def linkedBefore (b : MEOrderBook) (new current prev : Ptr) : MEOrderBook :=
  (((b.setNextPriceLevel new (some current)).setPrevPriceLevel new (some prev)).setNextPriceLevel
    prev (some new)).setPrevPriceLevel current (some new)

section Link

variable {current prev m : Ptr}

theorem linkLevelBefore_eq (hne : current ≠ new) (hp : b.prevLevel current = some prev) :
    b.linkLevelBefore new current = .ok (b.linkedBefore new current prev) := by
  have hkeep : ∀ v, ((b.setNextPriceLevel new v).level current).prevPriceLevel = some prev := by
    intro v
    rw [← prevLevel, prevLevel_setNextPriceLevel, hp]
  have hkeep' : ∀ v w, (((b.setNextPriceLevel new v).setPrevPriceLevel new w).level
      current).prevPriceLevel = some prev := by
    intro v w
    rw [← prevLevel, prevLevel_setPrevPriceLevel, if_neg hne, prevLevel_setNextPriceLevel, hp]
  rw [linkLevelBefore]
  dsimp only
  rw [hkeep, hkeep', nonNull_some, ok_bind, pure_eq_ok, linkedBefore]

theorem nextLevel_linkedBefore : (b.linkedBefore new current prev).nextLevel m =
    if m = prev then some new else if m = new then some current else b.nextLevel m := by
  rw [linkedBefore, nextLevel_setPrevPriceLevel, nextLevel_setNextPriceLevel,
    nextLevel_setPrevPriceLevel, nextLevel_setNextPriceLevel]

theorem prevLevel_linkedBefore : (b.linkedBefore new current prev).prevLevel m =
    if m = current then some new else if m = new then some prev else b.prevLevel m := by
  rw [linkedBefore, prevLevel_setPrevPriceLevel, prevLevel_setNextPriceLevel,
    prevLevel_setPrevPriceLevel, prevLevel_setNextPriceLevel]

theorem price_side_linkedBefore :
    ((b.linkedBefore new current prev).level m).price = (b.level m).price ∧
      ((b.linkedBefore new current prev).level m).side = (b.level m).side := by
  rw [linkedBefore, (price_side_setPrevPriceLevel _ _ _ _).1,
    (price_side_setPrevPriceLevel _ _ _ _).2, (price_side_setNextPriceLevel _ _ _ _).1,
    (price_side_setNextPriceLevel _ _ _ _).2, (price_side_setPrevPriceLevel _ _ _ _).1,
    (price_side_setPrevPriceLevel _ _ _ _).2]
  exact price_side_setNextPriceLevel _ _ _ _

theorem level_linkedBefore_of_ne (hnew : m ≠ new) (hcurrent : m ≠ current) (hprev : m ≠ prev) :
    (b.linkedBefore new current prev).level m = b.level m := by
  rw [linkedBefore, level_setPrevPriceLevel, if_neg hcurrent, level_setNextPriceLevel,
    if_neg hprev, level_setPrevPriceLevel, if_neg hnew, level_setNextPriceLevel, if_neg hnew]

/-- The new level goes to the end of the ring that is entered at `head`. -/
theorem isRing_linkedBefore (h : IsRing b.nextLevel b.prevLevel (head :: t))
    (hnew : new ∉ head :: t) (hz : b.prevLevel head = some z) :
    IsRing (b.linkedBefore new head z).nextLevel (b.linkedBefore new head z).prevLevel
      (head :: (t ++ [new])) := by
  have hzmem : z ∈ head :: t := h.mem_of_prev List.mem_cons_self hz
  have hne : ∀ y ∈ head :: t, y ≠ new := fun y hy he => hnew (he ▸ hy)
  refine h.concat hnew hz ?_ ?_ ?_ ?_ (fun y hy hyz => ?_) fun y hy hyh => ?_
  · rw [nextLevel_linkedBefore, if_pos rfl]
  · rw [prevLevel_linkedBefore, if_neg (hne head List.mem_cons_self).symm, if_pos rfl]
  · rw [nextLevel_linkedBefore, if_neg (hne z hzmem).symm, if_pos rfl]
  · rw [prevLevel_linkedBefore, if_pos rfl]
  · rw [nextLevel_linkedBefore, if_neg hyz, if_neg (hne y hy)]
  · rw [prevLevel_linkedBefore, if_neg hyh, if_neg (hne y hy)]

end Link

/-! ## Where the loop stops -/

/-- The loop does not move on from a head that the new level is not ahead of. -/
theorem seekLevel_head {ahead : Price → Bool} (hnot : ahead (b.level head).price = false)
    (fuel : Nat) : b.seekLevel ahead head (fuel + 1) head = .ok head := by
  rw [seekLevel, hnot, if_neg (by simp)]

/-- Past levels that it is ahead of, the loop gets to the last one. -/
theorem seekLevel_last {ahead : Price → Bool} {s u : List Ptr} {c : Ptr}
    (h : IsRing b.nextLevel b.prevLevel (head :: t)) (hsplit : head :: t = s ++ c :: u)
    (hahead : ∀ l ∈ c :: u, ahead (b.level l).price = true) {fuel : Nat} (hfuel : u.length < fuel) :
    b.seekLevel ahead head fuel c = .ok ((c :: u).getLast (List.cons_ne_nil c u)) := by
  induction u generalizing s c fuel with
  | nil =>
    obtain ⟨fuel, rfl⟩ : ∃ n, fuel = n + 1 := ⟨fuel - 1, by omega⟩
    have hlast : b.nextLevel c = some head := by
      have hclose := (isRing_cons_iff.1 h).2.2.1
      simp only [hsplit, List.getLast_append_of_ne_nil, List.getLast_singleton, ne_eq,
        List.cons_ne_self, not_false_eq_true] at hclose
      exact hclose
    have hstop : ¬ (ahead (b.level c).price = true ∧ (b.level c).nextPriceLevel ≠ some head) :=
      fun hc => hc.2 hlast
    rw [seekLevel, if_neg hstop, List.getLast_singleton]
  | cons d u ih =>
    obtain ⟨fuel, rfl⟩ : ∃ n, fuel = n + 1 := ⟨fuel - 1, by rw [List.length_cons] at hfuel; omega⟩
    have hlink : b.nextLevel c = some d := by
      have hchain := (isRing_cons_iff.1 h).2.1
      rw [hsplit] at hchain
      exact (List.isChain_iff_forall_rel_of_append_cons_cons.1 hchain rfl).1
    have hne : d ≠ head := by
      rintro rfl
      have hnd := h.nodup
      cases s with
      | nil =>
        obtain ⟨rfl, rfl⟩ := List.cons.inj hsplit
        exact (List.nodup_cons.1 hnd).1 List.mem_cons_self
      | cons e s =>
        obtain ⟨rfl, rfl⟩ := List.cons.inj hsplit
        exact (List.nodup_cons.1 hnd).1 (by simp)
    have hgo : ahead (b.level c).price = true ∧ (b.level c).nextPriceLevel ≠ some head := by
      refine ⟨hahead c List.mem_cons_self, fun hc => hne ?_⟩
      exact Option.some_inj.1 (hlink.symm.trans hc)
    have hnext : (b.level c).nextPriceLevel = some d := hlink
    rw [seekLevel, if_pos hgo, hnext, nonNull_some, ok_bind,
      List.getLast_cons (List.cons_ne_nil d u)]
    refine ih (s := s ++ [c]) (by simp [hsplit])
      (fun l hl => hahead l (List.mem_cons_of_mem c hl)) ?_
    rw [List.length_cons] at hfuel
    omega

/-! ## What the insertion does -/

/-- The first level of a side is in no ladder. -/
theorem addOrdersAtPrice_noHead (hhead : b.headOf (b.level new).side = none) :
    b.addOrdersAtPrice new = .ok
      (((b.setPriceLevel (b.level new).price (some new)).setPrevPriceLevel new
        (some new)).setNextPriceLevel new (some new)) := by
  rw [addOrdersAtPrice]
  dsimp only
  rw [show (if (b.level new).side = .buy then
      (b.setPriceLevel (b.level new).price (some new)).bidLevelsHead
    else (b.setPriceLevel (b.level new).price (some new)).askLevelsHead) = none from hhead]
  rfl

/-- With a head, both branches do the same on their sides. -/
theorem addOrdersAtPrice_head (hhead : b.headOf (b.level new).side = some head) :
    b.addOrdersAtPrice new =
      (let side := (b.level new).side
       let price := (b.level new).price
       let c := b.setPriceLevel price (some new)
       do
        let current ← c.seekLevel (fun p => decide (Better side price p)) head
          b.priceLevelsPool.size head
        let c ← c.linkLevelBefore new current
        if Better side price (c.level head).price then return c.setHead side new
        else return c) := by
  rw [addOrdersAtPrice]
  dsimp only
  rw [show (if (b.level new).side = .buy then
      (b.setPriceLevel (b.level new).price (some new)).bidLevelsHead
    else (b.setPriceLevel (b.level new).price (some new)).askLevelsHead) = some head from hhead]
  dsimp only
  by_cases hbuy : (b.level new).side = .buy
  · have hbetter : ∀ p q, Better (b.level new).side p q ↔ p > q := fun p q => by
      rw [Better, if_pos hbuy]
    simp only [if_pos hbuy, hbetter, setHead]
    rfl
  · have hbetter : ∀ p q, Better (b.level new).side p q ↔ p < q := fun p q => by
      rw [Better, if_neg hbuy]
    simp only [if_neg hbuy, hbetter, setHead]
    rfl

/-- **What an insertion leaves**: the levels of `levels` in a ring, and every other level as it
was. -/
structure LinkedIn (b d : MEOrderBook) (levels : List Ptr) : Prop where
  isRing : IsRing d.nextLevel d.prevLevel levels
  price_side : ∀ m, (d.level m).price = (b.level m).price ∧ (d.level m).side = (b.level m).side
  size : d.priceLevelsPool.size = b.priceLevelsPool.size
  others : ∀ m, m ∉ levels → d.level m = b.level m

theorem setHead_fields (d : MEOrderBook) (side : Side) (new : Ptr) :
    (d.setHead side new).headOf side = some new ∧
      (d.setHead side new).headOf (otherSide side) = d.headOf (otherSide side) ∧
      (d.setHead side new).priceLevelsPool = d.priceLevelsPool := by
  rw [setHead, headOf, headOf, headOf, otherSide]
  by_cases hbuy : side = .buy
  · rw [if_pos hbuy, if_pos hbuy, if_pos hbuy, if_neg (by decide), if_neg (by decide)]
    exact ⟨rfl, rfl, rfl⟩
  · rw [if_neg hbuy, if_neg hbuy, if_neg hbuy, if_pos rfl, if_pos rfl]
    exact ⟨rfl, rfl, rfl⟩

theorem LinkedIn.setHead {d : MEOrderBook} (h : LinkedIn b d levels) (side : Side) (new : Ptr) :
    LinkedIn b (d.setHead side new) levels := by
  have hpool := (setHead_fields d side new).2.2
  have hlevel : ∀ m, (d.setHead side new).level m = d.level m := fun m =>
    congrArg (fun pool => pool.get m) hpool
  refine ⟨h.isRing.congr (fun m _ => ?_) fun m _ => ?_, fun m => ?_, ?_, fun m hm => ?_⟩
  · exact congrArg MEOrderAtPriceLevel.nextPriceLevel (hlevel m)
  · exact congrArg MEOrderAtPriceLevel.prevPriceLevel (hlevel m)
  · rw [hlevel]
    exact h.price_side m
  · rw [hpool]
    exact h.size
  · rw [hlevel]
    exact h.others m hm

/-- The new level linked in at the end of a ring. -/
theorem linkedIn_linkedBefore {price : Price} {v : Option Ptr}
    (h : IsRing b.nextLevel b.prevLevel (head :: t)) (hnew : new ∉ head :: t)
    (hz : b.prevLevel head = some z) :
    LinkedIn b ((b.setPriceLevel price v).linkedBefore new head z) (head :: (t ++ [new])) where
  isRing := isRing_linkedBefore (b := b.setPriceLevel price v) h hnew hz
  price_side := fun m => price_side_linkedBefore (b := b.setPriceLevel price v)
  size := rfl
  others := by
    have hzmem : z ∈ head :: t := h.mem_of_prev List.mem_cons_self hz
    intro m hm
    have hout : m ∉ head :: t ∧ m ≠ new := by
      rw [← List.cons_append, List.mem_append, not_or, List.mem_singleton] at hm
      exact hm
    exact level_linkedBefore_of_ne hout.2 (fun he => hout.1 (he ▸ List.mem_cons_self))
      fun he => hout.1 (he ▸ hzmem)

/-- An insertion comes out right when the ring it leaves is sorted from the head on. -/
theorem LinkedIn.inserts_iff_sorted {d : MEOrderBook} {ring : List Ptr} (h : LinkedIn b d ring)
    (hd : b.addOrdersAtPrice new = .ok d) (hhead : d.headOf side = ring.head?)
    (hother : d.headOf (otherSide side) = b.headOf (otherSide side))
    (hperm : ring.Perm (new :: levels)) (hlevels : SortedLadder b side levels)
    (hothers : SortedLadder b (otherSide side) others) (hnew : (b.level new).side = side)
    (hlt : new < b.priceLevelsPool.size) (hside : side ≠ otherSide side) :
    Inserts b side levels others new ↔
      ring.Pairwise fun l m => Better side (b.level l).price (b.level m).price := by
  have hsides : ∀ l ∈ new :: levels, (b.level l).side = side := by
    intro l hl
    rcases List.mem_cons.1 hl with rfl | hl
    · exact hnew
    · exact hlevels.side_eq l hl
  have hout : ∀ l ∈ others, d.level l = b.level l := by
    refine fun l hl => h.others l fun hmem => hside ?_
    exact (hsides l (hperm.mem_iff.1 hmem)).symm.trans (hothers.side_eq l hl)
  constructor
  · rintro ⟨b', levels', hb', hperm', hsorted, -, -, -⟩
    obtain rfl := Except.ok.inj (hd.symm.trans hb')
    have hentry : ring.head? = levels'.head? := hhead.symm.trans hsorted.head
    have hsame : ring = levels' := by
      cases ring with
      | nil => exact absurd hperm (by simp)
      | cons a s =>
        cases levels' with
        | nil => exact absurd hperm' (by simp)
        | cons a' s' =>
          obtain rfl := Option.some_inj.1 hentry
          rw [h.isRing.unique hsorted.isRing]
    have hpairwise := hsorted.sorted
    rw [← hsame] at hpairwise
    exact hpairwise.imp fun hlm => by rwa [(h.price_side _).1, (h.price_side _).1] at hlm
  · intro hsorted
    refine ⟨d, ring, hd, hperm, ?_, fun l => (h.price_side l).1, ?_, hout⟩
    · refine ⟨hhead, h.isRing, hsorted.imp fun hlm => ?_, fun l hl => ?_, fun l hl => ?_⟩
      · rwa [(h.price_side _).1, (h.price_side _).1]
      · rw [(h.price_side l).2]
        exact hsides l (hperm.mem_iff.1 hl)
      · rw [h.size]
        rcases List.mem_cons.1 (hperm.mem_iff.1 hl) with rfl | hl
        · exact hlt
        · exact hlevels.inPool l hl
    · refine ⟨hother.trans hothers.head, hothers.isRing.congr (fun l hl => ?_) fun l hl => ?_, ?_,
        fun l hl => ?_, fun l hl => ?_⟩
      · exact congrArg MEOrderAtPriceLevel.nextPriceLevel (hout l hl)
      · exact congrArg MEOrderAtPriceLevel.prevPriceLevel (hout l hl)
      · exact hothers.sorted.imp fun hlm => by rwa [(h.price_side _).1, (h.price_side _).1]
      · rw [(h.price_side l).2]
        exact hothers.side_eq l hl
      · rw [h.size]
        exact hothers.inPool l hl

/-! ## When the insertion comes out right -/

theorem SortedLadder.length_le (h : SortedLadder b side levels) :
    levels.length ≤ b.priceLevelsPool.size := by
  have hsub : levels ⊆ List.range b.priceLevelsPool.size := fun l hl =>
    List.mem_range.2 (h.inPool l hl)
  simpa using (h.isRing.nodup.subperm hsub).length_le

/-- A level that is not ahead of the head goes to the end. -/
theorem SortedLadder.addOrdersAtPrice_behind (h : SortedLadder b side (head :: t))
    (hnew : (b.level new).side = side) (hmem : new ∉ head :: t)
    (hnot : ¬ Better side (b.level new).price (b.level head).price) :
    ∃ d, b.addOrdersAtPrice new = .ok d ∧ LinkedIn b d (head :: (t ++ [new])) ∧
      d.headOf side = some head ∧ d.headOf (otherSide side) = b.headOf (otherSide side) := by
  subst hnew
  obtain ⟨z, -, -, -, hz, -⟩ := h.isRing.links_mem List.mem_cons_self
  obtain ⟨fuel, hfuel⟩ := Nat.exists_eq_succ_of_ne_zero
    (Nat.ne_of_gt (Nat.zero_lt_of_lt (h.inPool head List.mem_cons_self)))
  let c := b.setPriceLevel (b.level new).price (some new)
  have hseek : c.seekLevel (fun p => decide (Better (b.level new).side (b.level new).price p)) head
      b.priceLevelsPool.size head = .ok head := by
    rw [hfuel]
    exact seekLevel_head (decide_eq_false hnot) fuel
  have hlink : c.linkLevelBefore new head = .ok (c.linkedBefore new head z) :=
    linkLevelBefore_eq (fun he => hmem (he ▸ List.mem_cons_self)) hz
  have hprice : ¬ Better (b.level new).side (b.level new).price
      ((c.linkedBefore new head z).level head).price := by
    rw [(price_side_linkedBefore (b := c)).1]
    exact hnot
  refine ⟨c.linkedBefore new head z, ?_, linkedIn_linkedBefore h.isRing hmem hz, h.head, rfl⟩
  rw [addOrdersAtPrice_head h.head]
  dsimp only
  rw [hseek, ok_bind, hlink, ok_bind, if_neg hprice, pure_eq_ok]

/-- A level that is ahead of the head is ahead of all, and goes in front of the last one. -/
theorem SortedLadder.addOrdersAtPrice_ahead {s : List Ptr} {last : Ptr}
    (h : SortedLadder b side (head :: t)) (hsplit : head :: t = s ++ [last])
    (hnew : (b.level new).side = side) (hmem : new ∉ head :: t)
    (hahead : Better side (b.level new).price (b.level head).price) :
    ∃ d, b.addOrdersAtPrice new = .ok d ∧ LinkedIn b d (new :: last :: s) ∧
      d.headOf side = some new ∧ d.headOf (otherSide side) = b.headOf (otherSide side) := by
  subst hnew
  have hrot : IsRing b.nextLevel b.prevLevel (last :: s) :=
    IsRing.rotate (s := s) (t := [last]) (hsplit ▸ h.isRing)
  have hmem' : new ∉ last :: s := by
    rw [hsplit, List.mem_append, List.mem_singleton] at hmem
    rwa [List.mem_cons, or_comm]
  obtain ⟨z, -, -, -, hz, -⟩ := hrot.links_mem List.mem_cons_self
  let c := b.setPriceLevel (b.level new).price (some new)
  have hall : ∀ l ∈ head :: t,
      decide (Better (b.level new).side (b.level new).price (b.level l).price) = true := by
    intro l hl
    refine decide_eq_true ?_
    rcases List.mem_cons.1 hl with rfl | hl
    · exact hahead
    · exact hahead.trans ((List.pairwise_cons.1 h.sorted).1 l hl)
  have hseek : c.seekLevel (fun p => decide (Better (b.level new).side (b.level new).price p)) head
      b.priceLevelsPool.size head = .ok last := by
    have hfuel : t.length < b.priceLevelsPool.size := h.length_le
    have hlast : (head :: t).getLast (List.cons_ne_nil head t) = last := by
      simp only [hsplit, List.getLast_append_of_ne_nil, List.getLast_singleton, ne_eq,
        List.cons_ne_self, not_false_eq_true]
    rw [← hlast]
    exact seekLevel_last (s := []) (b := c) h.isRing rfl hall hfuel
  have hlink : c.linkLevelBefore new last = .ok (c.linkedBefore new last z) :=
    linkLevelBefore_eq (fun he => hmem' (he ▸ List.mem_cons_self)) hz
  have hprice : Better (b.level new).side (b.level new).price
      ((c.linkedBefore new last z).level head).price := by
    rw [(price_side_linkedBefore (b := c)).1]
    exact hahead
  have hlinked : LinkedIn b (c.linkedBefore new last z) (new :: last :: s) := by
    have hend : LinkedIn b (c.linkedBefore new last z) (last :: (s ++ [new])) :=
      linkedIn_linkedBefore hrot hmem' hz
    refine ⟨IsRing.rotate (s := last :: s) (t := [new]) hend.isRing, hend.price_side, hend.size,
      fun m hm => hend.others m fun hmem => hm ?_⟩
    rw [← List.cons_append, List.mem_append, List.mem_singleton] at hmem
    exact List.mem_cons.2 hmem.symm
  have hfields := setHead_fields (c.linkedBefore new last z) (b.level new).side new
  refine ⟨(c.linkedBefore new last z).setHead (b.level new).side new, ?_, hlinked.setHead _ _,
    hfields.1, hfields.2.1⟩
  rw [addOrdersAtPrice_head h.head]
  dsimp only
  rw [hseek, ok_bind, hlink, ok_bind, if_pos hprice, pure_eq_ok]

theorem ne_otherSide (hside : side = .buy ∨ side = .sell) : side ≠ otherSide side := by
  rcases hside with rfl | rfl <;> decide

/-- A new level is inserted as it should be exactly when the side has a level already, and the new
one is behind all of them or there is only one. -/
theorem inserts_iff (hside : side = .buy ∨ side = .sell) (h : SortedLadder b side levels)
    (ho : SortedLadder b (otherSide side) others) (hnew : (b.level new).side = side)
    (hlt : new < b.priceLevelsPool.size)
    (hfresh : ∀ l ∈ levels, (b.level l).price ≠ (b.level new).price) :
    Inserts b side levels others new ↔ levels ≠ [] ∧
      ((∀ l ∈ levels, Better side (b.level l).price (b.level new).price) ∨ levels.length = 1) := by
  have hmem : new ∉ levels := fun hn => hfresh new hn rfl
  have hne := ne_otherSide hside
  cases levels with
  | nil =>
    refine iff_of_false ?_ fun hcond => hcond.1 rfl
    rintro ⟨b', levels', hb', hperm, hsorted, -⟩
    rw [addOrdersAtPrice_noHead (hnew ▸ h.head)] at hb'
    obtain rfl := Except.ok.inj hb'
    have hnone : levels'.head? = none := hsorted.head.symm.trans h.head
    rw [List.head?_eq_none_iff.1 hnone] at hperm
    exact absurd hperm (by simp)
  | cons head t =>
    by_cases hahead : Better side (b.level new).price (b.level head).price
    · obtain ⟨s, last, hsplit⟩ : ∃ s last, head :: t = s ++ [last] :=
        ⟨_, _, (List.dropLast_append_getLast (List.cons_ne_nil head t)).symm⟩
      obtain ⟨d, hd, hlinked, hhead, hother⟩ := h.addOrdersAtPrice_ahead hsplit hnew hmem hahead
      have hperm : (new :: last :: s).Perm (new :: head :: t) := by
        have hcomm : ([last] ++ s).Perm (s ++ [last]) := List.perm_append_comm
        rw [hsplit]
        exact hcomm.cons new
      rw [hlinked.inserts_iff_sorted hd hhead hother hperm h ho hnew hlt hne]
      cases s with
      | nil =>
        obtain ⟨rfl, rfl⟩ := List.cons.inj hsplit
        refine iff_of_true ?_ ⟨List.cons_ne_nil head [], Or.inr rfl⟩
        simpa using hahead
      | cons first s =>
        obtain ⟨rfl, rfl⟩ := List.cons.inj hsplit
        refine iff_of_false (fun hsorted => ?_) fun hcond => hcond.2.elim (fun hall => ?_) ?_
        · have hback := List.rel_of_pairwise_cons (List.pairwise_cons.1 hsorted).2
            (List.mem_cons_self (a := head) (l := s))
          have hforth := (List.pairwise_cons.1 h.sorted).1 last (by simp)
          exact hforth.asymm hback
        · exact hahead.asymm (hall head List.mem_cons_self)
        · simp
    · obtain ⟨d, hd, hlinked, hhead, hother⟩ := h.addOrdersAtPrice_behind hnew hmem hahead
      have hbehind := better_of_not (hfresh head List.mem_cons_self).symm hahead
      have hperm : (head :: (t ++ [new])).Perm (new :: head :: t) :=
        (List.perm_append_comm : ((head :: t) ++ [new]).Perm ([new] ++ (head :: t)))
      rw [hlinked.inserts_iff_sorted hd hhead hother hperm h ho hnew hlt hne, ← List.cons_append,
        List.pairwise_append]
      constructor
      · exact fun hsorted => ⟨List.cons_ne_nil head t, Or.inl fun l hl =>
          hsorted.2.2 l hl new (List.mem_singleton_self new)⟩
      · rintro ⟨-, hall | hone⟩
        · refine ⟨h.sorted, List.pairwise_singleton _ _, fun l hl m hm => ?_⟩
          rw [List.mem_singleton.1 hm]
          exact hall l hl
        · obtain rfl : t = [] := by simpa using hone
          refine ⟨h.sorted, List.pairwise_singleton _ _, fun l hl m hm => ?_⟩
          rw [List.mem_singleton.1 hm, List.mem_singleton.1 hl]
          exact hbehind

/-- Two bids at 100 and 90 in a ladder, and two levels that are in none yet, at 95 and 80. -/
def twoBids : MEOrderBook :=
  { init 0 with
    bidLevelsHead := some 0
    priceLevelsPool :=
      { store := fun i => { object :=
          if i = 0 then
            { side := .buy, price := 100, prevPriceLevel := some 1, nextPriceLevel := some 1 }
          else if i = 1 then
            { side := .buy, price := 90, prevPriceLevel := some 0, nextPriceLevel := some 0 }
          else if i = 2 then { side := .buy, price := 95 }
          else { side := .buy, price := 80 } }
        size := 4 } }

theorem sortedLadder_twoBids : SortedLadder twoBids .buy [0, 1] where
  head := rfl
  isRing := isRing_cons_iff.2 ⟨by decide,
    List.isChain_cons_cons.2 ⟨⟨rfl, rfl⟩, List.isChain_singleton 1⟩, ⟨rfl, rfl⟩⟩
  sorted := by decide
  side_eq := by decide
  inPool := by decide

theorem sortedLadder_noAsks : SortedLadder twoBids (otherSide .buy) [] where
  head := rfl
  isRing := ⟨List.nodup_nil, Cycle.Chain.nil _⟩
  sorted := List.Pairwise.nil
  side_eq := by simp
  inPool := by simp

theorem inserts_iff_twoBids : Inserts twoBids .buy [0, 1] [] 3 ↔ [0, 1] ≠ [] ∧
    ((∀ l ∈ [0, 1], Better .buy (twoBids.level l).price (twoBids.level 3).price) ∨
      [0, 1].length = 1) :=
  inserts_iff (Or.inl rfl) sortedLadder_twoBids sortedLadder_noAsks rfl (by decide) (by decide)

/-- A bid between the two goes to the end. -/
theorem not_inserts : ¬ ∀ b side levels others new, (side = .buy ∨ side = .sell) →
    SortedLadder b side levels → SortedLadder b (otherSide side) others →
    (b.level new).side = side → new < b.priceLevelsPool.size →
    (∀ l ∈ levels, (b.level l).price ≠ (b.level new).price) → Inserts b side levels others new := by
  intro h
  have hinserts : Inserts twoBids .buy [0, 1] [] 2 := h _ _ _ _ _ (Or.inl rfl)
    sortedLadder_twoBids sortedLadder_noAsks rfl (by decide) (by decide)
  obtain ⟨d, hd, hlinked, hhead, hother⟩ : ∃ d, twoBids.addOrdersAtPrice 2 = .ok d ∧
      LinkedIn twoBids d [0, 1, 2] ∧ d.headOf .buy = some 0 ∧
      d.headOf (otherSide .buy) = twoBids.headOf (otherSide .buy) :=
    sortedLadder_twoBids.addOrdersAtPrice_behind rfl (by decide) (by decide)
  have hsorted := (hlinked.inserts_iff_sorted hd hhead hother (by decide) sortedLadder_twoBids
    sortedLadder_noAsks rfl (by decide) (by decide)).1 hinserts
  exact absurd hsorted (by decide)

end MEOrderBook
end Exchange
end TradingEcosystem
