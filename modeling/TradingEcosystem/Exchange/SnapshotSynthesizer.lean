import TradingEcosystem.Common.MemPool
import TradingEcosystem.Common.Messages

/-!
# The snapshot synthesizer

`SnapshotSynthesizer::addToSnapshot` of `exchange/market_data/snapshot_synthesizer.cpp`: the orders
the feed has announced, by ticker and order id, kept in a pool of their own.

`applyUpdate_add`, `applyUpdate_cancel` and `applyUpdate_modify` say what the updates of an entry
do, as equivalences: what the call needs to return, and what it returns then.
-/

set_option autoImplicit false

namespace TradingEcosystem
namespace Exchange

/-- `SnapshotSynthesizer`.  The table is read below its two bounds only. -/
structure SnapshotSynthesizer where
  ordersPerTicker : TickerId → OrderId → Option Ptr
  lastIncSeqNum : UInt64
  orderPool : MemPool MEMarketUpdate

namespace SnapshotSynthesizer

/-- The constructor, when the table it does not initialise holds null. -/
def init : SnapshotSynthesizer where
  ordersPerTicker := fun _ _ => none
  lastIncSeqNum := 0
  orderPool := .init {} meMaxOrderIds

/-- `orders_per_ticker_.at(tickerId).at(orderId)`. -/
def orderAt (s : SnapshotSynthesizer) (tickerId : TickerId) (orderId : OrderId) :
    Except Fault (Option Ptr) :=
  if tickerId.toNat < meMaxTickers ∧ orderId.toNat < meMaxOrderIds then
    .ok (s.ordersPerTicker tickerId orderId)
  else .error .outOfRange

/-- `orders_per_ticker_.at(tickerId).at(orderId) = p`, once the same entry has been read. -/
def setOrder (s : SnapshotSynthesizer) (tickerId : TickerId) (orderId : OrderId)
    (p : Option Ptr) : SnapshotSynthesizer :=
  let row := Function.update (s.ordersPerTicker tickerId) orderId p
  { s with ordersPerTicker := Function.update s.ordersPerTicker tickerId row }

/-- The three assertions `MODIFY` and `CANCEL` start with. -/
def checkedOrder (s : SnapshotSynthesizer) (u : MEMarketUpdate) : Except Fault Ptr := do
  let order ← s.orderAt u.tickerId u.orderId
  assert (order ≠ none) ("Recieved: + " ++ u.toString ++ " but order does not exist.")
  let p ← nonNull order
  assert ((s.orderPool.get p).orderId = u.orderId)
    "Market update order_id does not match exisitng one"
  assert ((s.orderPool.get p).side = u.side) "Market update side does not match order side"
  return p

/-- The `switch` of `addToSnapshot`. -/
def applyUpdate (s : SnapshotSynthesizer) (u : MEMarketUpdate) :
    Except Fault SnapshotSynthesizer := do
  match u.type with
  | .add =>
    let order ← s.orderAt u.tickerId u.orderId
    assert (order = none) ("Recieved: + " ++ u.toString ++ " but order already exists:" ++
      order.elim "" fun p => (s.orderPool.get p).toString)
    let (pool, p) ← s.orderPool.allocate u
    return { s.setOrder u.tickerId u.orderId (some p) with orderPool := pool }
  | .modify =>
    let p ← s.checkedOrder u
    return { s with
      orderPool := s.orderPool.modify p fun o => { o with qty := u.qty, price := u.price } }
  | .cancel =>
    let p ← s.checkedOrder u
    let pool ← s.orderPool.deallocate p
    return { s.setOrder u.tickerId u.orderId none with orderPool := pool }
  | _ =>
    -- the ticker is looked up before the `switch`
    if u.tickerId.toNat < meMaxTickers then return s else .error .outOfRange

/-- `addToSnapshot`. -/
def addToSnapshot (s : SnapshotSynthesizer) (marketUpdate : MDPMarketUpdate) :
    Except Fault SnapshotSynthesizer := do
  let s' ← s.applyUpdate marketUpdate.meMarketUpdate
  assert (marketUpdate.seqNum = s.lastIncSeqNum + 1) "Expected incremental seq number to increase."
  return { s' with lastIncSeqNum := marketUpdate.seqNum }

/-! ## What adding and cancelling take -/

variable {s s' : SnapshotSynthesizer} {u : MEMarketUpdate}

theorem orderAt_eq_ok {t : TickerId} {k : OrderId} {p : Option Ptr} : s.orderAt t k = .ok p ↔
    (t.toNat < meMaxTickers ∧ k.toNat < meMaxOrderIds) ∧ s.ordersPerTicker t k = p := by
  rw [orderAt]
  split
  · next h => simp only [h, true_and, Except.ok.injEq, and_self]
  · next h => exact ⟨fun he => absurd he (by simp), fun hb => absurd hb.1 h⟩

/-- An `ADD` wants a free entry and a block, and one block to spare. -/
theorem applyUpdate_add (hf : s.orderPool.Frontier) (ht : u.type = .add) :
    s.applyUpdate u = .ok s' ↔
      (u.tickerId.toNat < meMaxTickers ∧ u.orderId.toNat < meMaxOrderIds) ∧
      s.ordersPerTicker u.tickerId u.orderId = none ∧ s.orderPool.Room ∧
      s' = { s.setOrder u.tickerId u.orderId (some s.orderPool.nextFreeIndex) with
        orderPool := s.orderPool.push u } := by
  simp only [applyUpdate, ht, bind_eq_ok, orderAt_eq_ok, assert_eq_ok, pure_eq_ok]
  constructor
  · rintro ⟨_, ⟨hb, rfl⟩, _, hn, ⟨pool, p⟩, hp, hs⟩
    by_cases hr : s.orderPool.Room
    · rw [MemPool.allocate_eq hf hr] at hp
      obtain ⟨rfl, rfl⟩ := Prod.mk.inj (Except.ok.inj hp)
      exact ⟨hb, hn, hr, (Except.ok.inj hs).symm⟩
    · rw [MemPool.allocate_full hf hr] at hp
      exact absurd hp (by simp)
  · rintro ⟨hb, hn, hr, rfl⟩
    exact ⟨_, ⟨hb, rfl⟩, (), hn, _, MemPool.allocate_eq hf hr u, rfl⟩

/-- What `MODIFY` and `CANCEL` ask of the entry they name. -/
theorem checkedOrder_eq_ok {p : Ptr} : s.checkedOrder u = .ok p ↔
    (u.tickerId.toNat < meMaxTickers ∧ u.orderId.toNat < meMaxOrderIds) ∧
      s.ordersPerTicker u.tickerId u.orderId = some p ∧
      (s.orderPool.get p).orderId = u.orderId ∧ (s.orderPool.get p).side = u.side := by
  simp only [checkedOrder, bind_eq_ok, orderAt_eq_ok, assert_eq_ok, pure_eq_ok]
  constructor
  · rintro ⟨o, ⟨hb, ho⟩, -, hne, q, hq, -, hid, -, hside, hp⟩
    cases o with
    | none => exact absurd rfl hne
    | some o =>
      obtain rfl : o = q := Except.ok.inj hq
      obtain rfl : o = p := Except.ok.inj hp
      exact ⟨hb, ho, hid, hside⟩
  · rintro ⟨hb, ho, hid, hside⟩
    exact ⟨some p, ⟨hb, ho⟩, (), by simp, p, rfl, (), hid, (), hside, rfl⟩

/-- A `CANCEL` wants an entry with its id and side. -/
theorem applyUpdate_cancel (ht : u.type = .cancel)
    (hlive : ∀ p, s.ordersPerTicker u.tickerId u.orderId = some p →
      s.orderPool.Live p ∧ p < s.orderPool.size) :
    s.applyUpdate u = .ok s' ↔ ∃ p,
      (u.tickerId.toNat < meMaxTickers ∧ u.orderId.toNat < meMaxOrderIds) ∧
      s.ordersPerTicker u.tickerId u.orderId = some p ∧
      (s.orderPool.get p).orderId = u.orderId ∧ (s.orderPool.get p).side = u.side ∧
      s' = { s.setOrder u.tickerId u.orderId none with orderPool := s.orderPool.release p } := by
  simp only [applyUpdate, ht, bind_eq_ok, checkedOrder_eq_ok, pure_eq_ok]
  constructor
  · rintro ⟨p, ⟨hb, hp, hid, hside⟩, pool, hpool, hs⟩
    obtain ⟨hl, hlt⟩ := hlive p hp
    rw [MemPool.deallocate_eq hl hlt] at hpool
    obtain rfl := Except.ok.inj hpool
    exact ⟨p, hb, hp, hid, hside, (Except.ok.inj hs).symm⟩
  · rintro ⟨p, hb, hp, hid, hside, rfl⟩
    obtain ⟨hl, hlt⟩ := hlive p hp
    exact ⟨p, ⟨hb, hp, hid, hside⟩, _, MemPool.deallocate_eq hl hlt, rfl⟩

/-- A `MODIFY` wants the same, and changes the quantity and the price. -/
theorem applyUpdate_modify (ht : u.type = .modify) : s.applyUpdate u = .ok s' ↔ ∃ p,
    (u.tickerId.toNat < meMaxTickers ∧ u.orderId.toNat < meMaxOrderIds) ∧
    s.ordersPerTicker u.tickerId u.orderId = some p ∧
    (s.orderPool.get p).orderId = u.orderId ∧ (s.orderPool.get p).side = u.side ∧
    s' = { s with
      orderPool := s.orderPool.modify p fun o => { o with qty := u.qty, price := u.price } } := by
  simp only [applyUpdate, ht, bind_eq_ok, checkedOrder_eq_ok, pure_eq_ok]
  constructor
  · rintro ⟨p, ⟨hb, hp, hid, hside⟩, hs⟩
    exact ⟨p, hb, hp, hid, hside, (Except.ok.inj hs).symm⟩
  · rintro ⟨p, hb, hp, hid, hside, rfl⟩
    exact ⟨p, ⟨hb, hp, hid, hside⟩, rfl⟩

/-- The other types change nothing. -/
theorem applyUpdate_other (hadd : u.type ≠ .add) (hmodify : u.type ≠ .modify)
    (hcancel : u.type ≠ .cancel) (h : s.applyUpdate u = .ok s') : s' = s := by
  rw [applyUpdate] at h
  split at h
  · next ht => exact absurd ht hadd
  · next ht => exact absurd ht hmodify
  · next ht => exact absurd ht hcancel
  · split at h
    · exact (Except.ok.inj h).symm
    · exact absurd h (by simp)

/-- A call that numbers on from the last one does what the `switch` does. -/
theorem addToSnapshot_eq_ok {n : UInt64} : s.addToSnapshot ⟨n, u⟩ = .ok s' ↔
    n = s.lastIncSeqNum + 1 ∧
      ∃ c, s.applyUpdate u = .ok c ∧ s' = { c with lastIncSeqNum := n } := by
  simp only [addToSnapshot, bind_eq_ok, assert_eq_ok, pure_eq_ok]
  constructor
  · rintro ⟨c, hc, -, hn, hs⟩
    exact ⟨hn, c, hc, (Except.ok.inj hs).symm⟩
  · rintro ⟨hn, c, hc, rfl⟩
    exact ⟨c, hc, (), hn, rfl⟩

end SnapshotSynthesizer
end Exchange
end TradingEcosystem
