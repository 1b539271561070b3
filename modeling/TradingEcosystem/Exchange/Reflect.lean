import TradingEcosystem.Exchange.BookRun
import TradingEcosystem.Lib.TwoRuns

/-!
# The mirror image of a book

A book and its mirror image at `K`: buy and sell exchanged and every price `p` replaced by `K - p`.
The slots of the price table are permuted along, as `K - p` has the residue that the residues of `K`
and `p` give; addresses, links and quantities stay.

`Quotes` is what a book has to be for its image to mean anything: every order and level that a
pointer leads to has a side and a price of at most `K`.  Here is what reflecting does to the fields
of a book and to the writes; the functions are in the module that follows.
-/

set_option autoImplicit false

namespace TradingEcosystem

/-! ## Reflecting values -/

/-- Buy and sell exchanged. -/
def Side.reflect : Side → Side
  | .buy => .sell
  | .sell => .buy
  | s => s

/-- `Price_INVALID` is no price and stays. -/
def reflectPrice (K price : Price) : Price := if price = priceInvalid then price else K - price

/-- A side of the book. -/
def Side.IsQuoted (s : Side) : Prop := s = .buy ∨ s = .sell

/-- A price of at most `K`. -/
structure PriceIn (K price : Price) : Prop where
  le : price ≤ K
  valid : price ≠ priceInvalid

theorem PriceIn.reflect {K price : Price} (h : PriceIn K price) :
    reflectPrice K price = K - price := if_neg h.valid

theorem PriceIn.toNat {K price : Price} (h : PriceIn K price) :
    (reflectPrice K price).toNat = K.toNat - price.toNat := by
  rw [h.reflect, UInt64.toNat_sub_of_le _ _ h.le]

/-- Reflecting turns the order of prices round. -/
theorem PriceIn.reflect_lt {K p q : Price} (hp : PriceIn K p) (hq : PriceIn K q) :
    reflectPrice K p < reflectPrice K q ↔ q < p := by
  have h₁ := UInt64.le_iff_toNat_le.1 hp.le
  have h₂ := UInt64.le_iff_toNat_le.1 hq.le
  rw [UInt64.lt_iff_toNat_lt, UInt64.lt_iff_toNat_lt, hp.toNat, hq.toNat]
  omega

namespace Exchange

/-- A response of the mirrored book. -/
def reflectResponse (K : Price) (r : MEClientResponse) : MEClientResponse :=
  { r with side := r.side.reflect, price := reflectPrice K r.price }

/-- An update of the mirrored book. -/
def reflectUpdate (K : Price) (u : MEMarketUpdate) : MEMarketUpdate :=
  { u with side := u.side.reflect, price := reflectPrice K u.price }

/-- A request to the mirrored book. -/
def reflectRequest (K : Price) (r : MEClientRequest) : MEClientRequest :=
  { r with side := r.side.reflect, price := reflectPrice K r.price }

/-- A message of the mirrored book. -/
def Sent.reflect (K : Price) : Sent → Sent
  | .clientResponse r => .clientResponse (reflectResponse K r)
  | .marketUpdate u => .marketUpdate (reflectUpdate K u)

/-- An order of the mirrored book, its links apart. -/
def OrderData.reflect (K : Price) (d : OrderData) : OrderData :=
  { d with side := d.side.reflect, price := reflectPrice K d.price }

/-- An order of the mirrored book. -/
def MEOrder.reflect (K : Price) (o : MEOrder) : MEOrder :=
  { o with toOrderData := o.toOrderData.reflect K }

/-- A level of the mirrored book. -/
def MEOrderAtPriceLevel.reflect (K : Price) (l : MEOrderAtPriceLevel) : MEOrderAtPriceLevel :=
  { l with side := l.side.reflect, price := reflectPrice K l.price }

section Fields

variable (K : Price) (o : MEOrder) (l : MEOrderAtPriceLevel)

@[simp] theorem MEOrder.reflect_side : (o.reflect K).side = o.side.reflect := rfl
@[simp] theorem MEOrder.reflect_price : (o.reflect K).price = reflectPrice K o.price := rfl
@[simp] theorem MEOrder.reflect_prevOrder : (o.reflect K).prevOrder = o.prevOrder := rfl
@[simp] theorem MEOrder.reflect_nextOrder : (o.reflect K).nextOrder = o.nextOrder := rfl

@[simp] theorem MEOrderAtPriceLevel.reflect_side : (l.reflect K).side = l.side.reflect := rfl
@[simp] theorem MEOrderAtPriceLevel.reflect_price :
    (l.reflect K).price = reflectPrice K l.price := rfl
@[simp] theorem MEOrderAtPriceLevel.reflect_firstOrder :
    (l.reflect K).firstOrder = l.firstOrder := rfl
@[simp] theorem MEOrderAtPriceLevel.reflect_prevPriceLevel :
    (l.reflect K).prevPriceLevel = l.prevPriceLevel := rfl
@[simp] theorem MEOrderAtPriceLevel.reflect_nextPriceLevel :
    (l.reflect K).nextPriceLevel = l.nextPriceLevel := rfl

end Fields

end Exchange

/-! ## Pools -/

namespace MemPool

variable {S T : Type}

/-- The block with its object replaced by its image. -/
def mapBlock (f : S → T) (c : ObjectBlock S) : ObjectBlock T where
  object := f c.object
  isFree := c.isFree

/-- The pool with every object replaced by its image. -/
def map (f : S → T) (p : MemPool S) : MemPool T where
  store := fun a => mapBlock f (p.store a)
  size := p.size
  nextFreeIndex := p.nextFreeIndex

@[simp] theorem get_map (f : S → T) (p : MemPool S) (a : Ptr) : (p.map f).get a = f (p.get a) := rfl

@[simp] theorem size_map (f : S → T) (p : MemPool S) : (p.map f).size = p.size := rfl

theorem map_put (f : S → T) (p : MemPool S) (a : Ptr) (c : ObjectBlock S) (size next : Nat) :
    (MemPool.mk (Function.update p.store a c) size next).map f =
      MemPool.mk (Function.update (p.map f).store a (mapBlock f c)) size next := by
  rw [map, MemPool.mk.injEq]
  refine ⟨funext fun i => ?_, rfl, rfl⟩
  by_cases hi : i = a
  · subst hi
    simp
  · simp [hi, map]

theorem map_modify {f : S → T} {g : S → S} {g' : T → T} (h : ∀ x, f (g x) = g' (f x))
    (p : MemPool S) (a : Ptr) : (p.modify a g).map f = (p.map f).modify a g' := by
  rw [modify, map_put, modify, mapBlock, h]
  rfl

theorem scanFree_map (f : S → T) (p : MemPool S) (start fuel i : Nat) :
    (p.map f).scanFree start fuel i = p.scanFree start fuel i := by
  induction fuel generalizing i with
  | zero => rfl
  | succ fuel ih =>
    rw [scanFree, scanFree, size_map]
    simp only [ih]
    rfl

theorem updateNextFreeIndex_map (f : S → T) (p : MemPool S) :
    (p.map f).updateNextFreeIndex = p.updateNextFreeIndex.map fun q => q.map f := by
  rw [updateNextFreeIndex, updateNextFreeIndex, scanFree_map, size_map]
  have hnext : (p.map f).nextFreeIndex = p.nextFreeIndex := rfl
  rw [hnext]
  cases p.scanFree p.nextFreeIndex (p.size + 1) p.nextFreeIndex <;> rfl

theorem allocate_map (f : S → T) (p : MemPool S) (obj : S) :
    (p.map f).allocate (f obj) = (p.allocate obj).map fun x => (x.1.map f, x.2) := by
  have hput := map_put f p p.nextFreeIndex { object := obj, isFree := false } p.size
    p.nextFreeIndex
  have hnext : (p.map f).nextFreeIndex = p.nextFreeIndex := rfl
  have hfree : ((p.map f).store p.nextFreeIndex).isFree = (p.store p.nextFreeIndex).isFree := rfl
  rw [allocate, allocate, size_map, hnext]
  split
  · rw [hfree]
    by_cases hf : (p.store p.nextFreeIndex).isFree = true
    · rw [assert_of hf, ok_bind, ok_bind]
      have hupdate := updateNextFreeIndex_map f
        (MemPool.mk (Function.update p.store p.nextFreeIndex { object := obj, isFree := false })
          p.size p.nextFreeIndex)
      rw [hput] at hupdate
      refine (congrArg (fun x => x >>= fun q => pure (q, p.nextFreeIndex)) hupdate).trans ?_
      cases updateNextFreeIndex (MemPool.mk (Function.update p.store p.nextFreeIndex
        { object := obj, isFree := false }) p.size p.nextFreeIndex) <;> rfl
    · simp [assert, hf, Except.map]
  · rfl

theorem deallocate_map (f : S → T) (p : MemPool S) (a : Ptr) :
    (p.map f).deallocate a = (p.deallocate a).map fun q => q.map f := by
  have hput := map_put f p a { p.store a with isFree := true } p.size p.nextFreeIndex
  have hfree : ((p.map f).store a).isFree = (p.store a).isFree := rfl
  rw [deallocate, deallocate, size_map, hfree]
  by_cases hlt : a < p.size
  · rw [assert_of hlt, ok_bind, ok_bind]
    by_cases hf : (p.store a).isFree = false
    · rw [assert_of hf, ok_bind, ok_bind]
      exact congrArg Except.ok hput.symm
    · simp [assert, hf, Except.map]
  · simp [assert, hlt, Except.map]

end MemPool

/-! ## Books -/

namespace Exchange
namespace MEOrderBook

/-- The slot of the mirrored table that slot `i` goes to. -/
def reflectIndex (K : Price) (i : Nat) : Nat :=
  if i < meMaxPriceLevels then
    (K.toNat % meMaxPriceLevels + meMaxPriceLevels - i) % meMaxPriceLevels
  else i

/-- **The mirror image.**  The heads are exchanged, and everything in the pools is reflected where
it lies. -/
def reflect (K : Price) (b : MEOrderBook) : MEOrderBook where
  tickerId := b.tickerId
  clientOrders := b.clientOrders
  bidLevelsHead := b.askLevelsHead
  askLevelsHead := b.bidLevelsHead
  priceLevels := fun i => b.priceLevels (reflectIndex K i)
  priceLevelsPool := b.priceLevelsPool.map fun l => l.reflect K
  orderPool := b.orderPool.map fun o => o.reflect K
  nextMarketOrderId := b.nextMarketOrderId
  stackRoom := b.stackRoom

theorem reflectIndex_eq_iff {K price : Price} (h : PriceIn K price) (i : Nat) :
    reflectIndex K i = priceToIndex price ↔ i = priceToIndex (reflectPrice K price) := by
  have hle := UInt64.le_iff_toNat_le.1 h.le
  rw [priceToIndex, priceToIndex, h.toNat, reflectIndex]
  by_cases hi : i < meMaxPriceLevels
  · rw [if_pos hi]
    simp only [meMaxPriceLevels] at hi ⊢
    omega
  · rw [if_neg hi]
    simp only [meMaxPriceLevels] at hi ⊢
    omega

/-- The image of the empty book is empty. -/
theorem reflect_init (K : Price) (t : TickerId) : (init t).reflect K = init t := rfl

variable {K price : Price} {b : MEOrderBook}

/-! ### Reading and writing -/

@[simp] theorem order_reflect (p : Ptr) : (b.reflect K).order p = (b.order p).reflect K := rfl

@[simp] theorem level_reflect (p : Ptr) : (b.reflect K).level p = (b.level p).reflect K := rfl

@[simp] theorem bidLevelsHead_reflect : (b.reflect K).bidLevelsHead = b.askLevelsHead := rfl

@[simp] theorem askLevelsHead_reflect : (b.reflect K).askLevelsHead = b.bidLevelsHead := rfl

@[simp] theorem priceLevelsPool_reflect :
    (b.reflect K).priceLevelsPool = b.priceLevelsPool.map fun l => l.reflect K := rfl

@[simp] theorem orderPool_reflect :
    (b.reflect K).orderPool = b.orderPool.map fun o => o.reflect K := rfl

theorem getPriceLevel_reflect (h : PriceIn K price) :
    (b.reflect K).getPriceLevel (reflectPrice K price) = b.getPriceLevel price := by
  show b.priceLevels (reflectIndex K (priceToIndex (reflectPrice K price))) = _
  rw [(reflectIndex_eq_iff h _).2 rfl, getPriceLevel]

theorem setPriceLevel_reflect (h : PriceIn K price) (v : Option Ptr) :
    (b.reflect K).setPriceLevel (reflectPrice K price) v = (b.setPriceLevel price v).reflect K := by
  have htable : Function.update (b.reflect K).priceLevels (priceToIndex (reflectPrice K price)) v =
      fun i => Function.update b.priceLevels (priceToIndex price) v (reflectIndex K i) := by
    funext i
    by_cases hi : i = priceToIndex (reflectPrice K price)
    · rw [(reflectIndex_eq_iff h i).2 hi, hi, Function.update_self, Function.update_self]
    · rw [Function.update_of_ne hi,
        Function.update_of_ne fun hr => hi ((reflectIndex_eq_iff h i).1 hr)]
      rfl
  rw [setPriceLevel, htable]
  rfl

theorem setOrder_reflect {f f' : MEOrder → MEOrder} (hf : ∀ o, (f o).reflect K = f' (o.reflect K))
    (p : Ptr) : (b.reflect K).setOrder p f' = (b.setOrder p f).reflect K := by
  have hpool := MemPool.map_modify (f := fun o : MEOrder => o.reflect K) hf b.orderPool p
  rw [setOrder, setOrder, reflect, reflect, hpool]

theorem setLevel_reflect {f f' : MEOrderAtPriceLevel → MEOrderAtPriceLevel}
    (hf : ∀ l, (f l).reflect K = f' (l.reflect K)) (p : Ptr) :
    (b.reflect K).setLevel p f' = (b.setLevel p f).reflect K := by
  have hpool := MemPool.map_modify (f := fun l : MEOrderAtPriceLevel => l.reflect K) hf
    b.priceLevelsPool p
  rw [setLevel, setLevel, reflect, reflect, hpool]

@[simp] theorem setNextOrder_reflect (p : Ptr) (v : Option Ptr) :
    (b.reflect K).setNextOrder p v = (b.setNextOrder p v).reflect K := by
  rw [setNextOrder, setNextOrder]
  refine setOrder_reflect ?_ p
  exact fun _ => rfl

@[simp] theorem setPrevOrder_reflect (p : Ptr) (v : Option Ptr) :
    (b.reflect K).setPrevOrder p v = (b.setPrevOrder p v).reflect K := by
  rw [setPrevOrder, setPrevOrder]
  refine setOrder_reflect ?_ p
  exact fun _ => rfl

@[simp] theorem setFirstOrder_reflect (p : Ptr) (v : Option Ptr) :
    (b.reflect K).setFirstOrder p v = (b.setFirstOrder p v).reflect K := by
  rw [setFirstOrder, setFirstOrder]
  refine setLevel_reflect ?_ p
  exact fun _ => rfl

@[simp] theorem setNextPriceLevel_reflect (p : Ptr) (v : Option Ptr) :
    (b.reflect K).setNextPriceLevel p v = (b.setNextPriceLevel p v).reflect K := by
  rw [setNextPriceLevel, setNextPriceLevel]
  refine setLevel_reflect ?_ p
  exact fun _ => rfl

@[simp] theorem setPrevPriceLevel_reflect (p : Ptr) (v : Option Ptr) :
    (b.reflect K).setPrevPriceLevel p v = (b.setPrevPriceLevel p v).reflect K := by
  rw [setPrevPriceLevel, setPrevPriceLevel]
  refine setLevel_reflect ?_ p
  exact fun _ => rfl

/-! ### What can be reflected -/

/-- The order has a side and a price, and its links lead into `O`. -/
structure QuotedOrder (K : Price) (O : Set Ptr) (o : MEOrder) : Prop where
  side : o.side.IsQuoted
  price : PriceIn K o.price
  next : ∀ q, o.nextOrder = some q → q ∈ O
  prev : ∀ q, o.prevOrder = some q → q ∈ O

/-- The level has a side and a price, and its links lead into `O` and `L`. -/
structure QuotedLevel (K : Price) (O L : Set Ptr) (l : MEOrderAtPriceLevel) : Prop where
  side : l.side.IsQuoted
  price : PriceIn K l.price
  first : ∀ p, l.firstOrder = some p → p ∈ O
  next : ∀ m, l.nextPriceLevel = some m → m ∈ L
  prev : ∀ m, l.prevPriceLevel = some m → m ∈ L

/-- **What a book needs to have a mirror image at `K`**: every order that pointers lead to is in
`O`, every level in `L`, and all of these have a side and a price of at most `K`. -/
structure Quotes (K : Price) (b : MEOrderBook) (O L : Set Ptr) : Prop where
  order : ∀ p ∈ O, QuotedOrder K O (b.order p)
  level : ∀ l ∈ L, QuotedLevel K O L (b.level l)
  bidHead : ∀ l, b.bidLevelsHead = some l → l ∈ L
  askHead : ∀ l, b.askLevelsHead = some l → l ∈ L
  slots : ∀ i l, b.priceLevels i = some l → l ∈ L
  clients : ∀ c o p, b.clientOrders c o = some p → p ∈ O

theorem quotes_init (K : Price) (t : TickerId) : Quotes K (init t) ∅ ∅ where
  order := fun p hp => absurd hp (Set.notMem_empty p)
  level := fun l hl => absurd hl (Set.notMem_empty l)
  bidHead := fun l hl => absurd hl (by simp [init])
  askHead := fun l hl => absurd hl (by simp [init])
  slots := fun i l hl => absurd hl (by simp [init])
  clients := fun c o p hp => absurd hp (by simp [init])

variable {O L : Set Ptr} {l p q : Ptr} {v : Option Ptr}

theorem Quotes.setOrder (h : Quotes K b O L) {f : MEOrder → MEOrder}
    (hf : ∀ o, QuotedOrder K O o → QuotedOrder K O (f o)) (p : Ptr) :
    Quotes K (b.setOrder p f) O L where
  order := fun q hq => by
    show QuotedOrder K O ((b.orderPool.modify p f).get q)
    rw [MemPool.get_modify]
    split
    · next hqp => exact hf _ (hqp ▸ h.order q hq)
    · exact h.order q hq
  level := h.level
  bidHead := h.bidHead
  askHead := h.askHead
  slots := h.slots
  clients := h.clients

theorem Quotes.setLevel (h : Quotes K b O L) {f : MEOrderAtPriceLevel → MEOrderAtPriceLevel}
    (hf : ∀ l, QuotedLevel K O L l → QuotedLevel K O L (f l)) (p : Ptr) :
    Quotes K (b.setLevel p f) O L where
  order := h.order
  level := fun q hq => by
    show QuotedLevel K O L ((b.priceLevelsPool.modify p f).get q)
    rw [MemPool.get_modify]
    split
    · next hqp => exact hf _ (hqp ▸ h.level q hq)
    · exact h.level q hq
  bidHead := h.bidHead
  askHead := h.askHead
  slots := h.slots
  clients := h.clients

theorem Quotes.setNextOrder (h : Quotes K b O L) (p : Ptr) (hv : ∀ q, v = some q → q ∈ O) :
    Quotes K (b.setNextOrder p v) O L :=
  h.setOrder (f := fun o => { o with nextOrder := v }) (fun _ ho => { ho with next := hv }) p

theorem Quotes.setPrevOrder (h : Quotes K b O L) (p : Ptr) (hv : ∀ q, v = some q → q ∈ O) :
    Quotes K (b.setPrevOrder p v) O L :=
  h.setOrder (f := fun o => { o with prevOrder := v }) (fun _ ho => { ho with prev := hv }) p

theorem Quotes.setFirstOrder (h : Quotes K b O L) (p : Ptr) (hv : ∀ q, v = some q → q ∈ O) :
    Quotes K (b.setFirstOrder p v) O L :=
  h.setLevel (f := fun l => { l with firstOrder := v }) (fun _ hl => { hl with first := hv }) p

theorem Quotes.setNextPriceLevel (h : Quotes K b O L) (p : Ptr) (hv : ∀ m, v = some m → m ∈ L) :
    Quotes K (b.setNextPriceLevel p v) O L :=
  h.setLevel (f := fun l => { l with nextPriceLevel := v }) (fun _ hl => { hl with next := hv })
    p

theorem Quotes.setPrevPriceLevel (h : Quotes K b O L) (p : Ptr) (hv : ∀ m, v = some m → m ∈ L) :
    Quotes K (b.setPrevPriceLevel p v) O L :=
  h.setLevel (f := fun l => { l with prevPriceLevel := v }) (fun _ hl => { hl with prev := hv })
    p

theorem Quotes.setPriceLevel (h : Quotes K b O L) (price : Price) (hv : ∀ m, v = some m → m ∈ L) :
    Quotes K (b.setPriceLevel price v) O L where
  order := h.order
  level := h.level
  bidHead := h.bidHead
  askHead := h.askHead
  slots := fun i l hl => by
    by_cases hi : i = priceToIndex price
    · subst hi
      exact hv l (by simpa [MEOrderBook.setPriceLevel] using hl)
    · exact h.slots i l (by simpa [MEOrderBook.setPriceLevel, hi] using hl)
  clients := h.clients

end MEOrderBook
end Exchange
end TradingEcosystem
