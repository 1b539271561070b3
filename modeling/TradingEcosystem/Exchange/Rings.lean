import TradingEcosystem.Exchange.Remove

/-!
# Rings of orders and of levels

The functions of the book are written for more than the books that requests build: a level may be
one of several in a ring.  `Rings b ring` is what they rely on there.  A slot of the price table
leads to a level that enters the ring of its orders, and a level leads to itself or is in a ring of
levels that are all in the table; nothing is asked of the ladder heads.

`Rings.removeOrder` is the one operation `match` needs: a call of `removeOrder` that returns takes
the order out of the ring of its slot, and a level that is left without orders out of the table and
out of its ring.
-/

set_option autoImplicit false

namespace TradingEcosystem
namespace Exchange
namespace MEOrderBook

open Ring

/-! ## Links between levels -/

/-- `l->next_price_level_`. -/
def nextLevel (b : MEOrderBook) (l : Ptr) : Option Ptr := (b.level l).nextPriceLevel

/-- `l->prev_price_level_`. -/
def prevLevel (b : MEOrderBook) (l : Ptr) : Option Ptr := (b.level l).prevPriceLevel

/-- The two assignments of `removePriceLevel` that link the neighbours of a level. -/
def joinLevels (b : MEOrderBook) (q n : Ptr) : MEOrderBook :=
  (b.setNextPriceLevel q (some n)).setPrevPriceLevel n (some q)

section Fields

variable (b : MEOrderBook) (p q n m : Ptr) (v : Option Ptr)

theorem level_setNextPriceLevel : (b.setNextPriceLevel p v).level m =
    if m = p then { b.level p with nextPriceLevel := v } else b.level m :=
  MemPool.get_modify b.priceLevelsPool p m fun l => { l with nextPriceLevel := v }

theorem level_setPrevPriceLevel : (b.setPrevPriceLevel p v).level m =
    if m = p then { b.level p with prevPriceLevel := v } else b.level m :=
  MemPool.get_modify b.priceLevelsPool p m fun l => { l with prevPriceLevel := v }

theorem nextLevel_joinLevels :
    (b.joinLevels q n).nextLevel m = if m = q then some n else b.nextLevel m := by
  rw [nextLevel, joinLevels, level_setPrevPriceLevel]
  by_cases hmn : m = n
  · subst hmn
    rw [if_pos rfl, level_setNextPriceLevel]
    split <;> rfl
  · rw [if_neg hmn, level_setNextPriceLevel]
    split <;> rfl

theorem prevLevel_joinLevels :
    (b.joinLevels q n).prevLevel m = if m = n then some q else b.prevLevel m := by
  rw [prevLevel, joinLevels, level_setPrevPriceLevel]
  by_cases hmn : m = n
  · rw [if_pos hmn, if_pos hmn]
  · rw [if_neg hmn, if_neg hmn, level_setNextPriceLevel]
    split
    · next h => rw [h, prevLevel]
    · rfl

theorem firstOrder_joinLevels :
    ((b.joinLevels q n).level m).firstOrder = (b.level m).firstOrder := by
  have hset : ∀ m, ((b.setNextPriceLevel q (some n)).level m).firstOrder =
      (b.level m).firstOrder := by
    intro m
    rw [level_setNextPriceLevel]
    split
    · next h => rw [h]
    · rfl
  rw [joinLevels, level_setPrevPriceLevel]
  split
  · next h => rw [h, ← hset n]
  · exact hset m

end Fields

/-! ## What `removeOrder` does -/

variable {b b' : MEOrderBook} {ring : Nat → List Ptr} {i : Nat} {p q n l : Ptr} {price : Price}
  {side : Side}

/-- The last two statements of `removePriceLevel`. -/
def dropLevel (b : MEOrderBook) (price : Price) (l : Ptr) : Except Fault MEOrderBook := do
  let b := b.setPriceLevel price none
  let pool ← b.priceLevelsPool.deallocate l
  return b.withLevelsPool pool

theorem dropLevel_eq_ok : b.dropLevel price l = .ok b' ↔
    b.priceLevelsPool.Live l ∧ l < b.priceLevelsPool.size ∧ b' = b.withoutLevel price l := by
  rw [dropLevel]
  constructor
  · intro h
    obtain ⟨pool, hd, hb⟩ := bind_eq_ok.1 h
    obtain ⟨hlive, hlt, rfl⟩ := MemPool.deallocate_eq_ok.1 hd
    exact ⟨hlive, hlt, (Except.ok.inj hb).symm⟩
  · rintro ⟨hlive, hlt, rfl⟩
    exact bind_eq_ok.2 ⟨_, MemPool.deallocate_eq hlive hlt, rfl⟩

/-- A level that leads to itself is dropped as it is. -/
theorem removePriceLevel_self (hl : b.getPriceLevel price = some l)
    (hn : b.nextLevel l = some l) : b.removePriceLevel side price = b.dropLevel price l := by
  have hn' : (b.level l).nextPriceLevel = some l := hn
  rw [removePriceLevel, hl, nonNull_some, ok_bind, if_pos hn', pure_eq_ok, ok_bind]
  rfl

/-- Any other level is taken out of its ring first. -/
theorem removePriceLevel_linked (hl : b.getPriceLevel price = some l)
    (hp : b.prevLevel l = some q) (hn : b.nextLevel l = some n) (hnl : n ≠ l) (hql : q ≠ l) :
    b.removePriceLevel side price = (b.joinLevels q n).dropLevel price l := by
  have hp' : (b.level l).prevPriceLevel = some q := hp
  have hn' : (b.level l).nextPriceLevel = some n := hn
  have hne : ¬ (some n : Option Ptr) = some l := fun h => hnl (Option.some_inj.1 h)
  have hkeep : (b.setNextPriceLevel q (some n)).level l = b.level l := by
    rw [level_setNextPriceLevel, if_neg fun h => hql h.symm]
  rw [removePriceLevel, hl, nonNull_some, ok_bind, hn', if_neg hne, hp']
  simp only [nonNull_some, ok_bind, hkeep, hn', hp', pure_eq_ok]
  rfl

/-- A call of `removeOrder` that returns. -/
theorem removeOrder_eq_ok (h : b.removeOrder p = .ok b') :
    ∃ c, b.unlinkOrder p = .ok c ∧ b' = c.forget (b.data p) p := by
  rw [removeOrder_eq] at h
  obtain ⟨c, hc, hforget⟩ := bind_eq_ok.1 h
  obtain ⟨d, hd, hfree⟩ := bind_eq_ok.1 hforget
  obtain ⟨pool, hpool, hb⟩ := bind_eq_ok.1 hfree
  have hput : d = c.putClientOrder (b.data p) none := by
    rw [setClientOrder] at hd
    split at hd
    · exact (Except.ok.inj hd).symm
    · exact absurd hd (by simp)
  subst hput
  obtain ⟨-, -, rfl⟩ := MemPool.deallocate_eq_ok.1 hpool
  exact ⟨c, hc, (Except.ok.inj hb).symm⟩

/-! ## The shape -/

/-- A level leads to itself, or is in a ring of levels of the table. -/
def InLevelRing (b : MEOrderBook) (l : Ptr) : Prop :=
  b.nextLevel l = some l ∨ ∃ ladder, l ∈ ladder ∧ IsRing b.nextLevel b.prevLevel ladder ∧
    ∀ m ∈ ladder, ∃ j, b.priceLevels j = some m

/-- **Well-formed rings**: slot `i` holds the orders `ring i`, oldest first, and the levels of the
table are linked among themselves. -/
structure Rings (b : MEOrderBook) (ring : Nat → List Ptr) : Prop where
  inSlot : ∀ i, InSlot b i (ring i)
  /-- Slots do not share a level. -/
  slotInj : ∀ i j l, b.priceLevels i = some l → b.priceLevels j = some l → i = j
  levelRing : ∀ i l, b.priceLevels i = some l → InLevelRing b l

/-- The books requests build are of this shape, each level leading to itself. -/
theorem Slots.rings (h : Slots b ring) : Rings b ring where
  inSlot := h.inSlot
  slotInj := h.slotInj
  levelRing := fun i l hl => by
    obtain ⟨-, -, -, -, -, hself⟩ := h.level_of_slot hl
    exact Or.inl hself

theorem InSlot.congr {l : List Ptr} (h : InSlot b i l) (hslot : b'.priceLevels i = b.priceLevels i)
    (hfirst : ∀ m, b.priceLevels i = some m → (b'.level m).firstOrder = (b.level m).firstOrder)
    (hnext : ∀ p ∈ l, b'.nextOrder p = b.nextOrder p)
    (hprev : ∀ p ∈ l, b'.prevOrder p = b.prevOrder p)
    (hprice : ∀ p ∈ l, (b'.data p).price = (b.data p).price) : InSlot b' i l where
  nil := fun hl => hslot.trans (h.nil hl)
  cons := fun a t hl => by
    obtain ⟨m, hm, hma⟩ := h.cons a t hl
    exact ⟨m, hslot.trans hm, (hfirst m hm).trans hma⟩
  isRing := h.isRing.congr hnext hprev
  slotOf := fun p hp => by rw [hprice p hp]; exact h.slotOf p hp

/-- The level of a slot with an order in it. -/
theorem Rings.exists_level (h : Rings b ring) (hp : p ∈ ring i) :
    ∃ l, b.priceLevels i = some l :=
  (h.inSlot i).exists_level hp

/-- An order is in one slot. -/
theorem Rings.slot_unique (h : Rings b ring) {j : Nat} (hi : p ∈ ring i) (hj : p ∈ ring j) :
    i = j :=
  ((h.inSlot i).slotOf p hi).symm.trans ((h.inSlot j).slotOf p hj)

/-- Changing the orders of one slot. -/
theorem Rings.update (h : Rings b ring) {l' : List Ptr} (hi : InSlot b' i l')
    (hother : ∀ k, k ≠ i → InSlot b' k (ring k))
    (hslot : ∀ k, k ≠ i → b'.priceLevels k = b.priceLevels k)
    (hown : ∀ l, b'.priceLevels i = some l → b.priceLevels i = some l)
    (hlevels : ∀ k l, b'.priceLevels k = some l → InLevelRing b' l) :
    Rings b' (Function.update ring i l') where
  inSlot := fun k => by
    by_cases hki : k = i
    · subst hki
      simpa using hi
    · simpa [hki] using hother k hki
  slotInj := fun j k l hj hk => by
    have hold : ∀ m, b'.priceLevels m = some l → b.priceLevels m = some l := fun m hm => by
      by_cases hmi : m = i
      · exact hmi ▸ hown l (hmi ▸ hm)
      · exact hslot m hmi ▸ hm
    exact h.slotInj j k l (hold j hj) (hold k hk)
  levelRing := hlevels

/-- Levels keep their rings where no link of a level and no slot changed. -/
theorem InLevelRing.congr (h : InLevelRing b l) (hnext : ∀ m, b'.nextLevel m = b.nextLevel m)
    (hprev : ∀ m, b'.prevLevel m = b.prevLevel m) (hslots : b'.priceLevels = b.priceLevels) :
    InLevelRing b' l := by
  rcases h with hself | ⟨ladder, hl, hring, htable⟩
  · exact Or.inl ((hnext l).trans hself)
  · exact Or.inr ⟨ladder, hl, hring.congr (fun m _ => hnext m) fun m _ => hprev m,
      fun m hm => hslots ▸ htable m hm⟩

/-! ## Removing an order -/

/-- A level that leads to itself leaves the others' rings alone. -/
theorem InLevelRing.drop_self {m : Ptr} (h : InLevelRing b m) (hml : m ≠ l)
    (hself : b.nextLevel l = some l) (hnext : ∀ x, b'.nextLevel x = b.nextLevel x)
    (hprev : ∀ x, b'.prevLevel x = b.prevLevel x)
    (htable : ∀ x, x ≠ l → (∃ j, b.priceLevels j = some x) → ∃ j, b'.priceLevels j = some x) :
    InLevelRing b' m := by
  rcases h with hm | ⟨ladder, hm, hring, hin⟩
  · exact Or.inl ((hnext m).trans hm)
  · have hl : l ∉ ladder := fun hl => by
      rw [hring.eq_singleton_of_next hl hself] at hm
      exact hml (List.mem_singleton.1 hm)
    refine Or.inr ⟨ladder, hm, hring.congr (fun x _ => hnext x) fun x _ => hprev x, fun x hx => ?_⟩
    exact htable x (fun hxl => hl (hxl ▸ hx)) (hin x hx)

/-- A level whose neighbours are joined leaves its ring, and the others' rings alone. -/
theorem InLevelRing.drop_linked {m : Ptr} (h : InLevelRing b m) (hml : m ≠ l) (hql : q ≠ l)
    (hp : b.prevLevel l = some q) (hn : b.nextLevel l = some n) (hback : b.nextLevel q = some l)
    (hforth : b.prevLevel n = some l)
    (hnext : ∀ x, b'.nextLevel x = if x = q then some n else b.nextLevel x)
    (hprev : ∀ x, b'.prevLevel x = if x = n then some q else b.prevLevel x)
    (htable : ∀ x, x ≠ l → (∃ j, b.priceLevels j = some x) → ∃ j, b'.priceLevels j = some x) :
    InLevelRing b' m := by
  rcases h with hm | ⟨ladder, hm, hring, hin⟩
  · have hmq : m ≠ q := by
      rintro rfl
      exact hml (Option.some_inj.1 (hm.symm.trans hback))
    exact Or.inl ((hnext m).trans ((if_neg hmq).trans hm))
  · by_cases hl : l ∈ ladder
    · refine Or.inr ⟨ladder.erase l, (hring.nodup.mem_erase_iff).2 ⟨hml, hm⟩, ?_, fun x hx => ?_⟩
      · exact hring.erase hl hp hn hql ((hnext q).trans (if_pos rfl)) ((hprev n).trans (if_pos rfl))
          (fun x _ hx => (hnext x).trans (if_neg hx)) fun x _ hx => (hprev x).trans (if_neg hx)
      · obtain ⟨hxl, hx⟩ := (hring.nodup.mem_erase_iff).1 hx
        exact htable x hxl (hin x hx)
    · -- the neighbours of a level outside the ring are outside it as well
      have hq : q ∉ ladder := fun hq => hl (hring.mem_of_next hq hback)
      have hn' : n ∉ ladder := fun hn' => hl (hring.mem_of_prev hn' hforth)
      refine Or.inr ⟨ladder, hm, hring.congr (fun x hx => ?_) fun x hx => ?_, fun x hx => ?_⟩
      · exact (hnext x).trans (if_neg fun hxq : x = q => hq (hxq ▸ hx))
      · exact (hprev x).trans (if_neg fun hxn : x = n => hn' (hxn ▸ hx))
      · exact htable x (fun hxl => hl (hxl ▸ hx)) (hin x hx)

theorem data_forget (c : MEOrderBook) (d : OrderData) (p q : Ptr) :
    (c.forget d p).data q = c.data q :=
  congrArg MEOrder.toOrderData (MemPool.get_release c.orderPool p q)

theorem level_withoutLevel (c : MEOrderBook) (price : Price) (l m : Ptr) :
    (c.withoutLevel price l).level m = c.level m :=
  MemPool.get_release c.priceLevelsPool l m

/-- The last order of a slot leaves, and its level with it. -/
theorem Rings.remove_alone (h : Rings b ring) (hring : ring i = [p])
    (hl : b.priceLevels i = some l) (hslots : b'.priceLevels = Function.update b.priceLevels i none)
    (hfirst : ∀ m, (b'.level m).firstOrder = (b.level m).firstOrder)
    (hnext : ∀ q, b'.nextOrder q = b.nextOrder q) (hprev : ∀ q, b'.prevOrder q = b.prevOrder q)
    (hdata : ∀ q, b'.data q = b.data q)
    (hlevels : ∀ m, m ≠ l → InLevelRing b m →
      (∀ x, x ≠ l → (∃ j, b.priceLevels j = some x) → ∃ j, b'.priceLevels j = some x) →
        InLevelRing b' m) :
    Rings b' (Function.update ring i ((ring i).erase p)) := by
  have hnone : b'.priceLevels i = none := by rw [hslots, Function.update_self]
  have hkeep : ∀ k, k ≠ i → b'.priceLevels k = b.priceLevels k := fun k hk => by
    rw [hslots, Function.update_of_ne hk]
  have htable : ∀ x, x ≠ l → (∃ j, b.priceLevels j = some x) → ∃ j, b'.priceLevels j = some x := by
    rintro x hxl ⟨j, hj⟩
    refine ⟨j, (hkeep j ?_).trans hj⟩
    rintro rfl
    exact hxl (Option.some_inj.1 (hj.symm.trans hl))
  have hempty : (ring i).erase p = [] := by rw [hring, List.erase_cons_head]
  refine h.update ?_ (fun k hk => ?_) hkeep (fun m hm => ?_) fun k m hm => ?_
  · rw [hempty]
    exact ⟨fun _ => hnone, fun a t ht => absurd ht (by simp), ⟨List.nodup_nil, Cycle.Chain.nil _⟩,
      fun q hq => absurd hq (by simp)⟩
  · exact (h.inSlot k).congr (hkeep k hk) (fun m _ => hfirst m) (fun q _ => hnext q)
      (fun q _ => hprev q) fun q _ => by rw [hdata q]
  · rw [hnone] at hm
    exact absurd hm (by simp)
  · have hki : k ≠ i := by
      rintro rfl
      rw [hnone] at hm
      exact absurd hm (by simp)
    have hm' : b.priceLevels k = some m := hkeep k hki ▸ hm
    refine hlevels m ?_ (h.levelRing k m hm') htable
    rintro rfl
    exact hki (h.slotInj k i m hm' hl)

/-- An order leaves the others of its slot. -/
theorem Rings.remove_linked (h : Rings b ring) (hp : p ∈ ring i) (hqp : q ≠ p)
    (hprev : b.prevOrder p = some q) (hnext : b.nextOrder p = some n)
    (hl : b.priceLevels i = some l) :
    Rings ((b.withoutOrder p q n l).forget (b.data p) p)
      (Function.update ring i ((ring i).erase p)) := by
  set b' := (b.withoutOrder p q n l).forget (b.data p) p with hb'
  have hq : q ∈ ring i := (h.inSlot i).isRing.mem_of_prev hp hprev
  have hn : n ∈ ring i := (h.inSlot i).isRing.mem_of_next hp hnext
  have hslots : b'.priceLevels = b.priceLevels := priceLevels_withoutOrder b p q n l
  have hlevel : ∀ m, b'.level m = if m = l ∧ (b.level l).firstOrder = some p then
      { b.level l with firstOrder := some n } else b.level m := level_withoutOrder b p q n l
  have hnextOrder : ∀ y, b'.nextOrder y = if y = q then some n else b.nextOrder y := fun y =>
    (nextOrder_forget _ _ _ _).trans (nextOrder_withoutOrder b p q n l y)
  have hprevOrder : ∀ y, b'.prevOrder y = if y = n then some q else b.prevOrder y := fun y =>
    (prevOrder_forget _ _ _ _).trans (prevOrder_withoutOrder b p q n l y)
  have hdata : ∀ y, b'.data y = b.data y := fun y =>
    (data_forget _ _ _ _).trans ((relinked_withoutOrder b p q n l).data y)
  have hlinks : ∀ m, b'.nextLevel m = b.nextLevel m ∧ b'.prevLevel m = b.prevLevel m := by
    intro m
    rw [nextLevel, prevLevel, hlevel]
    split
    · next hm => rw [hm.1]; exact ⟨rfl, rfl⟩
    · exact ⟨rfl, rfl⟩
  refine h.update ?_ (fun k hk => ?_) (fun k _ => congrFun hslots k) (fun m hm => hslots ▸ hm)
    fun k m hm => (h.levelRing k m (hslots ▸ hm)).congr (fun m => (hlinks m).1)
      (fun m => (hlinks m).2) hslots
  · refine ⟨fun hnil => ?_, fun a t hat => ?_, ?_, fun y hy => ?_⟩
    · have hqe : q ∈ (ring i).erase p := ((h.inSlot i).isRing.nodup.mem_erase_iff).2 ⟨hqp, hq⟩
      rw [hnil] at hqe
      exact absurd hqe (by simp)
    · obtain ⟨c, s, hr⟩ : ∃ c s, ring i = c :: s :=
        List.exists_cons_of_ne_nil (List.ne_nil_of_mem hp)
      obtain ⟨l', hl', hfirst⟩ := (h.inSlot i).cons c s hr
      obtain rfl : l' = l := Option.some_inj.1 (hl'.symm.trans hl)
      exact ⟨l', (congrFun hslots i).trans hl,
        firstOrder_withoutOrder (hr ▸ (h.inSlot i).isRing) hnext hfirst (hr ▸ hat)⟩
    · exact (h.inSlot i).isRing.erase hp hprev hnext hqp ((hnextOrder q).trans (if_pos rfl))
        ((hprevOrder n).trans (if_pos rfl)) (fun y _ hy => (hnextOrder y).trans (if_neg hy))
        fun y _ hy => (hprevOrder y).trans (if_neg hy)
    · rw [hdata y]
      exact (h.inSlot i).slotOf y (List.mem_of_mem_erase hy)
  · refine (h.inSlot k).congr (congrFun hslots k) (fun m hm => ?_) (fun y hy => ?_) (fun y hy => ?_)
      fun y _ => by rw [hdata y]
    · have hml : ¬ (m = l ∧ (b.level l).firstOrder = some p) := fun hml =>
        hk (h.slotInj k i m hm (hml.1 ▸ hl))
      rw [hlevel, if_neg hml]
    · refine (hnextOrder y).trans (if_neg ?_)
      rintro rfl
      exact hk (h.slot_unique hy hq)
    · refine (hprevOrder y).trans (if_neg ?_)
      rintro rfl
      exact hk (h.slot_unique hy hn)

/-- **Removing.**  A call of `removeOrder` that returns takes the order out of its ring and changes
no order. -/
theorem Rings.removeOrder (h : Rings b ring) (hp : p ∈ ring i) (hb : b.removeOrder p = .ok b') :
    Rings b' (Function.update ring i ((ring i).erase p)) ∧ ∀ q, b'.data q = b.data q := by
  obtain ⟨c, hc, rfl⟩ := removeOrder_eq_ok hb
  obtain ⟨l, hl⟩ := h.exists_level hp
  have hl' : b.getPriceLevel (b.data p).price = some l := by
    rw [getPriceLevel, (h.inSlot i).slotOf p hp, hl]
  obtain ⟨q, -, n, -, hprev, hnext⟩ := (h.inSlot i).isRing.links_mem hp
  by_cases hqp : q = p
  · subst hqp
    have hring : ring i = [q] := (h.inSlot i).isRing.eq_singleton hp hprev
    rw [unlinkOrder_alone hprev] at hc
    have hslot : priceToIndex (b.data q).price = i := (h.inSlot i).slotOf q hp
    by_cases hself : b.nextLevel l = some l
    · rw [removePriceLevel_self hl' hself] at hc
      obtain ⟨-, -, rfl⟩ := dropLevel_eq_ok.1 hc
      refine ⟨h.remove_alone hring hl ?_ ?_ ?_ ?_ ?_ ?_, fun y => data_forget _ _ _ y⟩
      · rw [← hslot]; rfl
      · exact fun m => congrArg _ (level_withoutLevel b (b.data q).price l m)
      · exact fun y => nextOrder_forget _ _ _ _
      · exact fun y => prevOrder_forget _ _ _ _
      · exact fun y => data_forget _ _ _ _
      · intro m hml hm htable
        have hlevel := level_withoutLevel b (b.data q).price l
        exact hm.drop_self hml hself (fun x => congrArg _ (hlevel x))
          (fun x => congrArg _ (hlevel x)) htable
    · obtain hself' | ⟨ladder, hmem, hladder, -⟩ := h.levelRing i l hl
      · exact absurd hself' hself
      obtain ⟨r, -, m, -, hlp, hln⟩ := hladder.links_mem hmem
      have hml : m ≠ l := fun hml => hself (hml ▸ hln)
      have hback : b.nextLevel r = some l := hladder.next_of_prev hmem hlp
      have hrl : r ≠ l := by
        rintro rfl
        exact hself hback
      rw [removePriceLevel_linked hl' hlp hln hml hrl] at hc
      obtain ⟨-, -, rfl⟩ := dropLevel_eq_ok.1 hc
      have hlevel := level_withoutLevel (b.joinLevels r m) (b.data q).price l
      refine ⟨h.remove_alone hring hl ?_ ?_ ?_ ?_ ?_ ?_, fun y => data_forget _ _ _ y⟩
      · rw [← hslot]; rfl
      · exact fun x => (congrArg _ (hlevel x)).trans (firstOrder_joinLevels b r m x)
      · exact fun y => nextOrder_forget _ _ _ _
      · exact fun y => prevOrder_forget _ _ _ _
      · exact fun y => data_forget _ _ _ _
      · intro x hxl hx htable
        refine hx.drop_linked hxl hrl hlp hln hback (hladder.prev_of_next hmem hln)
          (fun y => ?_) (fun y => ?_) htable
        · exact (congrArg _ (hlevel y)).trans (nextLevel_joinLevels b r m y)
        · exact (congrArg _ (hlevel y)).trans (prevLevel_joinLevels b r m y)
  · rw [unlinkOrder_linked hqp hprev hnext hl', Except.ok.injEq] at hc
    subst hc
    refine ⟨h.remove_linked hp hqp hprev hnext hl, fun y => ?_⟩
    exact (data_forget _ _ _ _).trans ((relinked_withoutOrder b p q n l).data y)

end MEOrderBook
end Exchange
end TradingEcosystem
