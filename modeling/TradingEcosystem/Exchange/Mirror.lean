import TradingEcosystem.Exchange.MatchingEngine
import TradingEcosystem.Exchange.SnapshotSynthesizer
import TradingEcosystem.Lib.Along

/-!
# The synthesizer mirrors the books

The engine takes a request, and the updates it sends are numbered on and handed to the synthesizer
before the next request.  The synthesizer keeps its orders by the order id of the updates, the books
keep theirs by the client's ids, and the two agree as long as an update names an order by its market
order id.  An explicit cancel does not, so it keeps the mirror only where the two ids happen to be
equal; `stepMirrors_iff` says that, apart from the pools, nothing else can go wrong.
-/

set_option autoImplicit false

namespace TradingEcosystem
namespace Exchange

open Run

/-- What the mirror repeats of an order. -/
abbrev View := Side × Price × Qty

/-- The order with this market order id rests in the book and looks like this. -/
def MEOrderBook.RestsAs (b : MEOrderBook) (k : OrderId) (v : View) : Prop :=
  ∃ d, b.Rests d ∧ d.marketOrderId = k ∧ (d.side, d.price, d.qty) = v

/-- The entry for an order id. -/
def SnapshotSynthesizer.entry (s : SnapshotSynthesizer) (t : TickerId) (k : OrderId) :
    Option View :=
  (s.ordersPerTicker t k).map fun p =>
    let u := s.orderPool.get p
    (u.side, u.price, u.qty)

/-- The updates among the messages go to the synthesizer one by one, numbered from `n`. -/
def feed : SnapshotSynthesizer → UInt64 → List Sent →
    Except Fault (SnapshotSynthesizer × UInt64)
  | s, n, [] => .ok (s, n)
  | s, n, .clientResponse _ :: rest => feed s n rest
  | s, n, .marketUpdate u :: rest => do
    let s ← s.addToSnapshot { seqNum := n, meMarketUpdate := u }
    feed s (n + 1) rest

namespace Mirror

/-- The engine, the synthesizer and the number the next update gets. -/
structure System where
  engine : MatchingEngine
  synthesizer : SnapshotSynthesizer
  nextIncSeqNum : UInt64

/-- The publisher numbers from one. -/
def System.init : System where
  engine := .init
  synthesizer := .init
  nextIncSeqNum := 1

/-- The system with the engine on a thread with this much room on its stack. -/
def System.onStack (x : System) (stackRoom : Nat) : System :=
  { x with engine := x.engine.onStack stackRoom }

/-- The book of a ticker. -/
abbrev System.book (x : System) (t : TickerId) : MEOrderBook := x.engine.tickerOrderBook t

/-- A complete request: the engine processes it and the synthesizer takes all updates. -/
def Next (x : System) (req : MEClientRequest) (x' : System) : Prop :=
  ∃ sent, x.engine.processClientRequest req = .ok (x'.engine, sent) ∧
    feed x.synthesizer x.nextIncSeqNum sent = .ok (x'.synthesizer, x'.nextIncSeqNum)

/-- The same, computed. -/
def System.process (x : System) (req : MEClientRequest) : Except Fault System := do
  let (engine, sent) ← x.engine.processClientRequest req
  let (synthesizer, nextIncSeqNum) ← feed x.synthesizer x.nextIncSeqNum sent
  return { engine, synthesizer, nextIncSeqNum }

theorem next_iff_process (x : System) (req : MEClientRequest) (x' : System) :
    Next x req x' ↔ x.process req = .ok x' := by
  rw [System.process, bind_eq_ok]
  constructor
  · rintro ⟨sent, he, hf⟩
    refine ⟨_, he, ?_⟩
    dsimp only
    rw [hf]
    rfl
  · rintro ⟨⟨engine, sent⟩, he, hrest⟩
    obtain ⟨⟨synthesizer, n⟩, hf, hx⟩ := bind_eq_ok.1 hrest
    obtain rfl := Except.ok.inj hx
    exact ⟨sent, he, hf⟩

/-- The mirror has exactly the resting orders. -/
def Mirrors (x : System) : Prop :=
  ∀ t : TickerId, t.toNat < meMaxTickers → ∀ k v,
    x.synthesizer.entry t k = some v ↔ (x.book t).RestsAs k v

/-- The request is processed, no assertion trips, and the mirror is right afterwards. -/
def StepMirrors (x : System) (req : MEClientRequest) : Prop := ∃ x', Next x req x' ∧ Mirrors x'

/-- The requests in question: a `NEW` or a `CANCEL` with ids inside the tables, and a market order
id for the `NEW` that is inside the synthesizer's table. -/
def Valid (x : System) (req : MEClientRequest) : Prop :=
  req.tickerId.toNat < meMaxTickers ∧ req.clientId.toNat < meMaxNumClients ∧
    req.orderId.toNat < meMaxOrderIds ∧
    (req.requestType = .new ∧ (x.book req.tickerId).nextMarketOrderId.toNat < meMaxOrderIds ∨
      req.requestType = .cancel)

instance (x : System) (req : MEClientRequest) : Decidable (Valid x req) :=
  inferInstanceAs (Decidable (_ ∧ _))

/-- The condition on a request and the state before it.  A `NEW` with a quantity finds a block and
one to spare in each pool it needs; a `CANCEL` has room on the stack for its copy, and names its
order by an id that is also its market order id. -/
def StepMeets (x : System) (req : MEClientRequest) : Prop :=
  (req.requestType = .new → req.qty ≠ 0 →
    (x.book req.tickerId).orderPool.Room ∧
    ((x.book req.tickerId).getPriceLevel req.price = none →
      (x.book req.tickerId).priceLevelsPool.Room) ∧
    x.synthesizer.orderPool.Room) ∧
  (req.requestType = .cancel → (x.book req.tickerId).CopyFits ∧
    ∀ p, (x.book req.tickerId).clientOrders req.clientId req.orderId = some p →
      ((x.book req.tickerId).data p).marketOrderId = req.orderId)

instance (x : System) (req : MEClientRequest) : Decidable (StepMeets x req) :=
  have (b : MEOrderBook) : Decidable (∀ p, b.clientOrders req.clientId req.orderId = some p →
      (b.data p).marketOrderId = req.orderId) :=
    inferInstanceAs (Decidable (∀ p ∈ b.clientOrders req.clientId req.orderId, _))
  inferInstanceAs (Decidable (_ ∧ _))

instance (x : System) (reqs : List MEClientRequest) : Decidable (Along Next Valid x reqs) :=
  decidableAlong System.process next_iff_process x reqs

instance (x : System) (reqs : List MEClientRequest) : Decidable (Along Next StepMeets x reqs) :=
  decidableAlong System.process next_iff_process x reqs

end Mirror

/-! ## Market order ids -/

namespace MEOrderBook

/-- A book of rings whose orders have market order ids of their own, all handed out. -/
structure Numbered (b : MEOrderBook) (ring : Nat → List Ptr) : Prop where
  slots : b.Slots ring
  idsLt : ∀ i, ∀ p ∈ ring i, (b.data p).marketOrderId.toNat < b.nextMarketOrderId.toNat
  idsInj : ∀ i, ∀ p ∈ ring i, ∀ j, ∀ q ∈ ring j,
    (b.data p).marketOrderId = (b.data q).marketOrderId → p = q

variable {b b' : MEOrderBook} {ring : Nat → List Ptr} {req : MEClientRequest}

theorem numbered_init (t : TickerId) (stackRoom : Nat) :
    Numbered ((init t).onStack stackRoom) fun _ => [] where
  slots := (slots_init t).onStack stackRoom
  idsLt := by simp
  idsInj := by simp

theorem Numbered.restsAs_iff (h : Numbered b ring) {k : OrderId} {v : View} :
    b.RestsAs k v ↔ ∃ i, ∃ p ∈ ring i, (b.data p).marketOrderId = k ∧
      ((b.data p).side, (b.data p).price, (b.data p).qty) = v := by
  constructor
  · rintro ⟨d, hd, hk, hv⟩
    obtain ⟨i, hi⟩ := h.slots.rests_iff.1 hd
    obtain ⟨p, hp, rfl⟩ := mem_ordersIn.1 hi
    exact ⟨i, p, hp, hk, hv⟩
  · rintro ⟨i, p, hp, hk, hv⟩
    exact ⟨b.data p, h.slots.rests_iff.2 ⟨i, mem_ordersIn.2 ⟨p, hp, rfl⟩⟩, hk, hv⟩

/-- The next market order id does not wrap. -/
theorem toNat_nextMarketOrderId (h : b.nextMarketOrderId.toNat < meMaxOrderIds) :
    (b.nextMarketOrderId + 1).toNat = b.nextMarketOrderId.toNat + 1 := by
  have hlt : b.nextMarketOrderId.toNat < 1024 * 1024 := h
  rw [UInt64.toNat_add, UInt64.toNat_one, Nat.mod_eq_of_lt]
  omega

/-- A `NEW` without a quantity uses up a market order id. -/
theorem Numbered.generate (h : Numbered b ring)
    (hid : b.nextMarketOrderId.toNat < meMaxOrderIds) :
    Numbered b.generateNewMarketOrderId ring where
  slots := h.slots.generateNewMarketOrderId
  idsLt := fun i p hp => by
    refine lt_trans (h.idsLt i p hp) ?_
    rw [show b.generateNewMarketOrderId.nextMarketOrderId = b.nextMarketOrderId + 1 from rfl,
      toNat_nextMarketOrderId hid]
    exact Nat.lt_succ_self _
  idsInj := h.idsInj

/-- A `NEW` adds the order with the next market order id. -/
theorem Numbered.new (h : Numbered b ring) (hid : b.nextMarketOrderId.toNat < meMaxOrderIds)
    {d : OrderData} (hd : d.marketOrderId = b.nextMarketOrderId)
    (hi : Inserted b.generateNewMarketOrderId b' d) {j : Nat}
    (hs : b'.Slots (Function.update ring j (ring j ++ [b.nextOrderPtr]))) :
    Numbered b' (Function.update ring j (ring j ++ [b.nextOrderPtr])) ∧
      ∀ k v, b'.RestsAs k v ↔
        b.RestsAs k v ∨ k = d.marketOrderId ∧ (d.side, d.price, d.qty) = v := by
  have hnext : b'.nextMarketOrderId.toNat = b.nextMarketOrderId.toNat + 1 := by
    rw [hi.marketOrderId]
    exact toNat_nextMarketOrderId hid
  -- an order of the new rings is the new one or an old one with its old fields
  have hmem : ∀ i p, p ∈ Function.update ring j (ring j ++ [b.nextOrderPtr]) i ↔
      (i = j ∧ p = b.nextOrderPtr) ∨ p ∈ ring i := fun i p => mem_inserted j i
  have hold : ∀ i, ∀ p ∈ ring i, b'.data p = b.data p := fun i p hp =>
    hi.other p (h.slots.ne_fresh hp)
  have hself : b'.data b.nextOrderPtr = d := hi.self
  have hne : ∀ i, ∀ p ∈ ring i, (b.data p).marketOrderId ≠ d.marketOrderId := by
    intro i p hp heq
    have hlt := h.idsLt i p hp
    rw [heq, hd] at hlt
    exact Nat.lt_irrefl _ hlt
  have hnumbered : Numbered b' (Function.update ring j (ring j ++ [b.nextOrderPtr])) := by
    refine ⟨hs, ?_, ?_⟩
    · intro i p hp
      rw [hnext]
      rcases (hmem i p).1 hp with ⟨-, rfl⟩ | hp
      · rw [hself, hd]
        exact Nat.lt_succ_self _
      · rw [hold i p hp]
        exact Nat.lt_succ_of_lt (h.idsLt i p hp)
    · intro i p hp k q hq heq
      rcases (hmem i p).1 hp with ⟨-, rfl⟩ | hp <;> rcases (hmem k q).1 hq with ⟨-, rfl⟩ | hq
      · rfl
      · rw [hself, hold k q hq] at heq
        exact absurd heq.symm (hne k q hq)
      · rw [hself, hold i p hp] at heq
        exact absurd heq (hne i p hp)
      · rw [hold i p hp, hold k q hq] at heq
        exact h.idsInj i p hp k q hq heq
  refine ⟨hnumbered, fun k v => ?_⟩
  rw [hnumbered.restsAs_iff, h.restsAs_iff]
  constructor
  · rintro ⟨i, p, hp, hk, hv⟩
    rcases (hmem i p).1 hp with ⟨-, rfl⟩ | hp
    · rw [hself] at hk hv
      exact Or.inr ⟨hk.symm, hv⟩
    · rw [hold i p hp] at hk hv
      exact Or.inl ⟨i, p, hp, hk, hv⟩
  · rintro (⟨i, p, hp, hk, hv⟩ | ⟨hk, hv⟩)
    · refine ⟨i, p, (hmem i p).2 (Or.inr hp), ?_⟩
      rw [hold i p hp]
      exact ⟨hk, hv⟩
    · refine ⟨j, b.nextOrderPtr, (hmem j _).2 (Or.inl ⟨rfl, rfl⟩), ?_⟩
      rw [hself]
      exact ⟨hk.symm, hv⟩

/-- A `CANCEL` removes the order with its market order id. -/
theorem Numbered.cancel (h : Numbered b ring) {i : Nat} {p : Ptr} (hp : p ∈ ring i)
    (hr : Removed b b' p) (hs : b'.Slots (Function.update ring i ((ring i).erase p))) :
    Numbered b' (Function.update ring i ((ring i).erase p)) ∧
      ∀ k v, b'.RestsAs k v ↔ b.RestsAs k v ∧ k ≠ (b.data p).marketOrderId := by
  have hmem := h.slots.mem_removed hp
  have hnumbered : Numbered b' (Function.update ring i ((ring i).erase p)) := by
    refine ⟨hs, ?_, ?_⟩
    · intro j q hq
      rw [hr.data, hr.marketOrderId]
      exact h.idsLt j q ((hmem j q).1 hq).1
    · intro j q hq k r hrk heq
      rw [hr.data, hr.data] at heq
      exact h.idsInj j q ((hmem j q).1 hq).1 k r ((hmem k r).1 hrk).1 heq
  refine ⟨hnumbered, fun k v => ?_⟩
  rw [hnumbered.restsAs_iff, h.restsAs_iff]
  constructor
  · rintro ⟨j, q, hq, hk, hv⟩
    obtain ⟨hq, hqp⟩ := (hmem j q).1 hq
    rw [hr.data] at hk hv
    refine ⟨⟨j, q, hq, hk, hv⟩, ?_⟩
    rintro rfl
    exact hqp (h.idsInj j q hq i p hp hk)
  · rintro ⟨⟨j, q, hq, hk, hv⟩, hne⟩
    refine ⟨j, q, (hmem j q).2 ⟨hq, ?_⟩, ?_⟩
    · rintro rfl
      exact hne hk.symm
    · rw [hr.data]
      exact ⟨hk, hv⟩

end MEOrderBook

/-! ## Entries -/

namespace SnapshotSynthesizer

/-- Every entry is a live block that says where it belongs. -/
structure Sound (s : SnapshotSynthesizer) : Prop where
  entries : ∀ t k p, s.ordersPerTicker t k = some p →
    s.orderPool.Live p ∧ (s.orderPool.get p).tickerId = t ∧ (s.orderPool.get p).orderId = k
  frontier : s.orderPool.Frontier
  size : s.orderPool.size = meMaxOrderIds
  next : s.orderPool.nextFreeIndex < meMaxOrderIds

variable {s s' : SnapshotSynthesizer} {u : MEMarketUpdate} {n : UInt64}

theorem sound_init : init.Sound where
  entries := by simp [init]
  frontier := MemPool.frontier_init _ _
  size := rfl
  next := show 0 < meMaxOrderIds by decide

theorem Sound.lt_size (h : s.Sound) {p : Ptr} (hp : s.orderPool.Live p) : p < s.orderPool.size := by
  rw [h.size]
  exact (h.frontier.lt_of_live hp).trans h.next

/-- Different entries have different blocks. -/
theorem Sound.entry_unique (h : s.Sound) {t t' : TickerId} {k k' : OrderId} {p : Ptr}
    (hp : s.ordersPerTicker t k = some p) (hp' : s.ordersPerTicker t' k' = some p) :
    t = t' ∧ k = k' := by
  obtain ⟨-, ht, hk⟩ := h.entries t k p hp
  obtain ⟨-, ht', hk'⟩ := h.entries t' k' p hp'
  exact ⟨ht.symm.trans ht', hk.symm.trans hk'⟩

theorem ordersPerTicker_setOrder (p : Option Ptr) (t t' : TickerId) (k k' : OrderId) :
    (s.setOrder t k p).ordersPerTicker t' k' =
      if t' = t ∧ k' = k then p else s.ordersPerTicker t' k' := by
  by_cases ht : t' = t
  · subst ht
    by_cases hk : k' = k <;> simp [setOrder, hk]
  · simp [setOrder, ht]

/-- An `ADD` makes the entry of its own id. -/
theorem Sound.add (h : s.Sound) (hroom : s.orderPool.Room) (hs : s' =
    { s.setOrder u.tickerId u.orderId (some s.orderPool.nextFreeIndex) with
      orderPool := s.orderPool.push u
      lastIncSeqNum := n }) :
    s'.Sound ∧ ∀ t k, s'.entry t k =
      if t = u.tickerId ∧ k = u.orderId then some (u.side, u.price, u.qty) else s.entry t k := by
  have htable : ∀ t k, s'.ordersPerTicker t k = if t = u.tickerId ∧ k = u.orderId then
      some s.orderPool.nextFreeIndex else s.ordersPerTicker t k := by
    intro t k
    rw [hs]
    exact ordersPerTicker_setOrder _ _ _ _ _
  have hpool : s'.orderPool = s.orderPool.push u := by rw [hs]
  have hold : ∀ p, s.orderPool.Live p → p ≠ s.orderPool.nextFreeIndex := fun p hp =>
    (h.frontier.lt_of_live hp).ne
  refine ⟨⟨?_, hpool ▸ h.frontier.push u, by rw [hpool, MemPool.size_push, h.size], ?_⟩, ?_⟩
  · intro t k p hp
    rw [hpool]
    rw [htable] at hp
    split at hp
    · next htk =>
      obtain rfl := Option.some_inj.1 hp
      rw [MemPool.get_push_self, MemPool.live_push]
      exact ⟨Or.inl rfl, htk.1.symm, htk.2.symm⟩
    · obtain ⟨hlive, hids⟩ := h.entries t k p hp
      rw [MemPool.get_push_ne _ _ (hold p hlive), MemPool.live_push]
      exact ⟨Or.inr hlive, hids⟩
  · rw [hpool, MemPool.nextFreeIndex_push, ← h.size]
    exact hroom
  · intro t k
    rw [entry, htable, hpool]
    split
    · simp
    · rw [entry]
      cases hp : s.ordersPerTicker t k with
      | none => rfl
      | some p => simp [MemPool.get_push_ne _ _ (hold p (h.entries t k p hp).1)]

/-- A `CANCEL` clears the entry of its own id. -/
theorem Sound.cancel (h : s.Sound) {p : Ptr} (hp : s.ordersPerTicker u.tickerId u.orderId = some p)
    (hs : s' = { s.setOrder u.tickerId u.orderId none with
      orderPool := s.orderPool.release p
      lastIncSeqNum := n }) :
    s'.Sound ∧ ∀ t k, s'.entry t k =
      if t = u.tickerId ∧ k = u.orderId then none else s.entry t k := by
  have htable : ∀ t k, s'.ordersPerTicker t k = if t = u.tickerId ∧ k = u.orderId then
      none else s.ordersPerTicker t k := by
    intro t k
    rw [hs]
    exact ordersPerTicker_setOrder _ _ _ _ _
  have hpool : s'.orderPool = s.orderPool.release p := by rw [hs]
  refine ⟨⟨?_, hpool ▸ h.frontier.release p, by rw [hpool, MemPool.size_release, h.size], ?_⟩, ?_⟩
  · intro t k q hq
    rw [htable] at hq
    split at hq
    · exact absurd hq (by simp)
    · next htk =>
      obtain ⟨hlive, ht, hk⟩ := h.entries t k q hq
      rw [hpool, MemPool.get_release, MemPool.live_release]
      exact ⟨⟨fun hqp => htk (h.entry_unique (hqp ▸ hq) hp), hlive⟩, ht, hk⟩
  · rw [hpool]
    exact h.next
  · intro t k
    rw [entry, htable, hpool]
    split
    · rfl
    · simp [entry]

end SnapshotSynthesizer

/-! ## One request -/

namespace Mirror

open MEOrderBook SnapshotSynthesizer

/-- What holds between complete requests. -/
structure Shadows (x : System) : Prop where
  books : ∀ t : TickerId, t.toNat < meMaxTickers → ∃ ring, (x.book t).Numbered ring
  synthesizer : x.synthesizer.Sound
  mirrors : Mirrors x
  seqNum : x.nextIncSeqNum = x.synthesizer.lastIncSeqNum + 1

theorem shadows_init (stackRoom : Nat) : Shadows (System.init.onStack stackRoom) where
  books := fun t _ => ⟨_, numbered_init t stackRoom⟩
  synthesizer := sound_init
  mirrors := by
    intro t _ k v
    rw [show (System.init.onStack stackRoom).book t = (MEOrderBook.init t).onStack stackRoom from
      rfl, (numbered_init t stackRoom).restsAs_iff]
    simp [entry, System.onStack, System.init, SnapshotSynthesizer.init]
  seqNum := rfl

variable {x x' : System} {req : MEClientRequest}

/-- A complete request in terms of the book it goes to. -/
theorem next_iff (ht : req.tickerId.toNat < meMaxTickers) : Next x req x' ↔
    ∃ b sent, (x.book req.tickerId).process req = .ok (b, sent) ∧
      x'.engine = { tickerOrderBook := Function.update x.engine.tickerOrderBook req.tickerId b } ∧
      feed x.synthesizer x.nextIncSeqNum sent = .ok (x'.synthesizer, x'.nextIncSeqNum) := by
  constructor
  · rintro ⟨sent, he, hf⟩
    obtain ⟨-, b, hb, he'⟩ := MatchingEngine.processClientRequest_eq_ok.1 he
    exact ⟨b, sent, hb, he', hf⟩
  · rintro ⟨b, sent, hb, he', hf⟩
    exact ⟨sent, MatchingEngine.processClientRequest_eq_ok.2 ⟨ht, b, hb, he'⟩, hf⟩

theorem Next.unique {x₁ x₂ : System} (h₁ : Next x req x₁) (h₂ : Next x req x₂) : x₁ = x₂ := by
  rw [next_iff_process] at h₁ h₂
  exact Except.ok.inj (h₁.symm.trans h₂)

/-- A request whose messages contain no update. -/
theorem feed_response (s : SnapshotSynthesizer) (n : UInt64) (r : MEClientResponse) :
    feed s n [.clientResponse r] = .ok (s, n) := rfl

/-- A request that sends one update, with a response on either side of it. -/
theorem feed_update_eq_ok {s s' : SnapshotSynthesizer} {n n' : UInt64} {u : MEMarketUpdate}
    {sent : List Sent} (r : MEClientResponse)
    (hsent : sent = [.clientResponse r, .marketUpdate u] ∨
      sent = [.marketUpdate u, .clientResponse r]) :
    feed s n sent = .ok (s', n') ↔ n = s.lastIncSeqNum + 1 ∧ n' = n + 1 ∧
      ∃ c, s.applyUpdate u = .ok c ∧ s' = { c with lastIncSeqNum := n } := by
  have hfeed : feed s n sent = (s.addToSnapshot ⟨n, u⟩ >>= fun s => .ok (s, n + 1)) := by
    rcases hsent with rfl | rfl <;> rfl
  rw [hfeed, bind_eq_ok]
  constructor
  · rintro ⟨c, hc, he⟩
    obtain ⟨rfl, rfl⟩ := Prod.mk.inj (Except.ok.inj he)
    obtain ⟨hn, hc⟩ := addToSnapshot_eq_ok.1 hc
    exact ⟨hn, rfl, hc⟩
  · rintro ⟨hn, rfl, hc⟩
    exact ⟨s', addToSnapshot_eq_ok.2 ⟨hn, hc⟩, rfl⟩

/-- The invariant after a request, from what it did to its book and to the entries. -/
theorem Shadows.update (h : Shadows x) {b : MEOrderBook} {ring : Nat → List Ptr} {t : TickerId}
    {s : SnapshotSynthesizer} {n : UInt64} (hb : b.Numbered ring) (hs : s.Sound)
    (hn : n = s.lastIncSeqNum + 1)
    (hentry : ∀ t', t' ≠ t → ∀ k, s.entry t' k = x.synthesizer.entry t' k)
    (hown : ∀ k v, s.entry t k = some v ↔ b.RestsAs k v) :
    Shadows ⟨{ tickerOrderBook := Function.update x.engine.tickerOrderBook t b }, s, n⟩ where
  books := by
    intro t' ht'
    by_cases htt : t' = t
    · subst htt
      exact ⟨ring, by simpa [System.book] using hb⟩
    · simpa [System.book, htt] using h.books t' ht'
  synthesizer := hs
  mirrors := by
    intro t' ht' k v
    by_cases htt : t' = t
    · subst htt
      simpa [System.book] using hown k v
    · simpa [System.book, htt, hentry t' htt] using h.mirrors t' ht' k v
  seqNum := hn

/-- No order has the market order id that comes next, so the entry for it is free. -/
theorem Shadows.next_free (h : Shadows x) {t : TickerId} (ht : t.toNat < meMaxTickers) :
    x.synthesizer.ordersPerTicker t (x.book t).nextMarketOrderId = none := by
  obtain ⟨ring, hb⟩ := h.books t ht
  cases hp : x.synthesizer.ordersPerTicker t (x.book t).nextMarketOrderId with
  | none => rfl
  | some p =>
    have hentry : x.synthesizer.entry t (x.book t).nextMarketOrderId =
        some ((x.synthesizer.orderPool.get p).side, (x.synthesizer.orderPool.get p).price,
          (x.synthesizer.orderPool.get p).qty) := by
      rw [entry, hp, Option.map_some]
    obtain ⟨i, q, hq, hk, -⟩ := hb.restsAs_iff.1 ((h.mirrors t ht _ _).1 hentry)
    have hlt := hb.idsLt i q hq
    rw [hk] at hlt
    exact absurd hlt (Nat.lt_irrefl _)

/-- A `NEW` that finds its blocks is mirrored. -/
theorem Shadows.new (h : Shadows x) (hv : Valid x req) (hn : req.requestType = .new)
    (hid : (x.book req.tickerId).nextMarketOrderId.toNat < meMaxOrderIds)
    (hm : StepMeets x req) : ∃ x', Next x req x' ∧ Shadows x' := by
  obtain ⟨ht, hc, ho, -⟩ := hv
  obtain ⟨ring, hb⟩ := h.books req.tickerId ht
  by_cases hq : req.qty = 0
  · refine ⟨⟨_, _, _⟩, (next_iff ht).2
      ⟨_, _, process_new_zero hb.slots hn hq, rfl, feed_response _ _ _⟩, ?_⟩
    exact h.update (hb.generate hid) h.synthesizer h.seqNum (fun _ _ _ => rfl) (h.mirrors _ ht)
  · obtain ⟨hroom, hlev, hspare⟩ := hm.1 hn hq
    obtain ⟨b', hb', hi, hs⟩ := process_new hb.slots hn hq hc ho hroom hlev
    obtain ⟨hnum, hrests⟩ := hb.new hid rfl hi hs
    set d := (x.book req.tickerId).newOrder ring req with hd
    obtain ⟨hsound, hentry⟩ :=
      h.synthesizer.add (n := x.nextIncSeqNum) (u := addUpdate d) hspare rfl
    have happly := (applyUpdate_add (u := addUpdate d) h.synthesizer.frontier rfl).2
      ⟨⟨ht, hid⟩, h.next_free ht, hspare, rfl⟩
    have hfeed := (feed_update_eq_ok
      (acceptedResponse (x.book req.tickerId).nextMarketOrderId req) (Or.inl rfl)).2
      ⟨h.seqNum, rfl, _, happly, rfl⟩
    refine ⟨⟨_, _, _⟩, (next_iff ht).2 ⟨_, _, hb', rfl, hfeed⟩, ?_⟩
    refine h.update hnum hsound rfl (fun t' ht' k => ?_) (fun k v => ?_)
    · rw [hentry, if_neg fun hk => ht' hk.1]
    · rw [hentry, hrests, ← h.mirrors _ ht]
      have hfree := h.next_free ht
      by_cases hk : k = (x.book req.tickerId).nextMarketOrderId
      · subst hk
        simp [addUpdate, hd, newOrder, entry, hfree]
      · have hk' : ¬ (req.tickerId = (addUpdate d).tickerId ∧ k = (addUpdate d).orderId) :=
          fun h => hk h.2
        have hk'' : ¬ k = d.marketOrderId := hk
        simp [hk', hk'']

/-- The update of a cancel goes through exactly when there is an entry for the id it carries. -/
theorem Shadows.applyUpdate_cancel (h : Shadows x) {u : MEMarketUpdate} (hu : u.type = .cancel)
    {s : SnapshotSynthesizer} : x.synthesizer.applyUpdate u = .ok s ↔ ∃ p,
      (u.tickerId.toNat < meMaxTickers ∧ u.orderId.toNat < meMaxOrderIds) ∧
      x.synthesizer.ordersPerTicker u.tickerId u.orderId = some p ∧
      (x.synthesizer.orderPool.get p).orderId = u.orderId ∧
      (x.synthesizer.orderPool.get p).side = u.side ∧
      s = { x.synthesizer.setOrder u.tickerId u.orderId none with
        orderPool := x.synthesizer.orderPool.release p } :=
  SnapshotSynthesizer.applyUpdate_cancel hu fun p hp =>
    have hlive := (h.synthesizer.entries _ _ p hp).1
    ⟨hlive, h.synthesizer.lt_size hlive⟩

/-- A resting order has an entry with its side. -/
theorem Shadows.exists_entry (h : Shadows x) {t : TickerId} (ht : t.toNat < meMaxTickers)
    {k : OrderId} {v : View} (hr : (x.book t).RestsAs k v) :
    ∃ p, x.synthesizer.ordersPerTicker t k = some p ∧ (x.synthesizer.orderPool.get p).orderId = k ∧
      (x.synthesizer.orderPool.get p).side = v.1 := by
  have hentry := (h.mirrors t ht k v).2 hr
  rw [entry, Option.map_eq_some_iff] at hentry
  obtain ⟨p, hp, hv⟩ := hentry
  exact ⟨p, hp, (h.synthesizer.entries t k p hp).2.2, by rw [← hv]⟩

/-- A `CANCEL` that misses, or names its order by the market order id, is mirrored. -/
theorem Shadows.cancel (h : Shadows x) (hv : Valid x req) (hn : req.requestType = .cancel)
    (hm : StepMeets x req) : ∃ x', Next x req x' ∧ Shadows x' := by
  obtain ⟨ht, hc, ho, -⟩ := hv
  obtain ⟨hfits, hids⟩ := hm.2 hn
  obtain ⟨ring, hb⟩ := h.books req.tickerId ht
  cases hp : (x.book req.tickerId).clientOrders req.clientId req.orderId with
  | none =>
    refine ⟨⟨_, _, _⟩, (next_iff ht).2
      ⟨_, _, process_cancel_miss hfits hn hc ho hp, rfl, feed_response _ _ _⟩, ?_⟩
    exact h.update hb h.synthesizer h.seqNum (fun _ _ _ => rfl) (h.mirrors _ ht)
  | some p =>
    obtain ⟨i, b', hi, hb', hr, hs⟩ := process_cancel_hit hb.slots hfits hn hp
    obtain ⟨hnum, hrests⟩ := hb.cancel hi hr hs
    have hid : ((x.book req.tickerId).data p).marketOrderId = req.orderId := hids p hp
    set d := (x.book req.tickerId).data p with hd
    obtain ⟨q, hq, hqid, hqside⟩ := h.exists_entry ht
      (hb.restsAs_iff.2 ⟨i, p, hi, hid, rfl⟩)
    obtain ⟨hsound, hentry⟩ :=
      h.synthesizer.cancel (n := x.nextIncSeqNum) (u := cancelUpdate req.orderId req d) hq rfl
    have happly := (h.applyUpdate_cancel (u := cancelUpdate req.orderId req d) rfl).2
      ⟨q, ⟨ht, ho⟩, hq, hqid, hqside, rfl⟩
    have hfeed := (feed_update_eq_ok (canceledResponse req d) (Or.inr rfl)).2
      ⟨h.seqNum, rfl, _, happly, rfl⟩
    refine ⟨⟨_, _, _⟩, (next_iff ht).2 ⟨_, _, hb', rfl, hfeed⟩, ?_⟩
    refine h.update hnum hsound rfl (fun t' ht' k => ?_) (fun k v => ?_)
    · rw [hentry, if_neg fun hk => ht' hk.1]
    · rw [hentry, hrests, ← h.mirrors _ ht, hid]
      by_cases hk : k = req.orderId
      · simp [cancelUpdate, hk]
      · simp [cancelUpdate, hk]

/-- **Mirroring goes on**: a valid request that meets the condition. -/
theorem Shadows.step (h : Shadows x) (hv : Valid x req) (hm : StepMeets x req) :
    ∃ x', Next x req x' ∧ Shadows x' := by
  obtain ⟨-, -, -, ⟨hn, hid⟩ | hn⟩ := id hv
  · exact h.new hv hn hid hm
  · exact h.cancel hv hn hm

/-- **The condition is exact**: a valid request is mirrored if and only if it meets it. -/
theorem stepMirrors_iff (h : Shadows x) (hv : Valid x req) :
    StepMirrors x req ↔ StepMeets x req := by
  refine ⟨fun hmirror => ?_, fun hm => ?_⟩
  · obtain ⟨x', hnext, hmirrors⟩ := hmirror
    obtain ⟨ht, hc, ho, -⟩ := hv
    obtain ⟨ring, hb⟩ := h.books req.tickerId ht
    obtain ⟨b', sent, hb', he, hfeed⟩ := (next_iff ht).1 hnext
    refine ⟨fun hn hq => ?_, fun hn => ?_⟩
    · obtain ⟨hroom, hlev⟩ := process_new_room hb.slots hn hq hb'
      obtain ⟨b'', hb'', -⟩ := process_new hb.slots hn hq hc ho hroom hlev
      obtain ⟨-, rfl⟩ := Prod.mk.inj (Except.ok.inj (hb'.symm.trans hb''))
      obtain ⟨-, -, c, happly, -⟩ := (feed_update_eq_ok _ (Or.inl rfl)).1 hfeed
      exact ⟨hroom, hlev, ((applyUpdate_add h.synthesizer.frontier rfl).1 happly).2.2.1⟩
    · have hfits := process_cancel_fits hn hc hb'
      refine ⟨hfits, fun p hp => ?_⟩
      obtain ⟨i, b'', hi, hb'', hr, hs⟩ := process_cancel_hit hb.slots hfits hn hp
      obtain ⟨rfl, rfl⟩ := Prod.mk.inj (Except.ok.inj (hb'.symm.trans hb''))
      obtain ⟨-, -, c, happly, hc'⟩ := (feed_update_eq_ok _ (Or.inr rfl)).1 hfeed
      obtain ⟨q, -, hq, -, -, rfl⟩ := (h.applyUpdate_cancel rfl).1 happly
      by_contra hid
      -- the entry the update removes is the entry of another order, which still rests
      obtain ⟨-, hentry⟩ := h.synthesizer.cancel hq hc'
      obtain ⟨v, hv⟩ : ∃ v, x.synthesizer.entry req.tickerId req.orderId = some v :=
        ⟨_, by rw [entry, show x.synthesizer.ordersPerTicker req.tickerId req.orderId = some q
          from hq, Option.map_some]⟩
      have hrest := (hb.cancel hi hr hs).2 req.orderId v
      have hstays : b'.RestsAs req.orderId v :=
        hrest.2 ⟨(h.mirrors _ ht _ _).1 hv, fun hk => hid hk.symm⟩
      have hbook : x'.book req.tickerId = b' := by
        rw [System.book, he]
        exact Function.update_self _ _ _
      have hgone := (hmirrors _ ht req.orderId v).2 (hbook ▸ hstays)
      rw [hentry, if_pos ⟨rfl, rfl⟩] at hgone
      exact absurd hgone (by simp)
  · obtain ⟨x', hnext, hx'⟩ := h.step hv hm
    exact ⟨x', hnext, hx'.mirrors⟩

/-! ## Whole runs -/

/-- **The market data mirrors the books** over a list of requests, on a stack of any size, exactly
when every one of them meets the condition. -/
theorem mirrors_iff (stackRoom : Nat) (reqs : List MEClientRequest)
    (hv : Along Next Valid (System.init.onStack stackRoom) reqs) :
    Along Next StepMirrors (System.init.onStack stackRoom) reqs ↔
      Along Next StepMeets (System.init.onStack stackRoom) reqs := by
  refine along_congr Shadows Valid ?_ ?_ (shadows_init stackRoom) hv
  · exact fun x req h hreq => stepMirrors_iff h hreq
  · intro x req x' h hreq hm hn
    obtain ⟨x'', hn', hx''⟩ := h.step hreq hm
    exact hn.unique hn' ▸ hx''

/-- A first order, and its cancel by the client's id 7. -/
def buySeven : MEClientRequest where
  requestType := .new
  clientId := 1
  tickerId := 0
  orderId := 7
  price := 100
  qty := 5
  side := .buy

def cancelSeven : MEClientRequest := { buySeven with requestType := .cancel }

/-- A second order, of another client, with the id it gets in the market as well. -/
def sellTwo : MEClientRequest :=
  { buySeven with clientId := 2, orderId := 2, price := 110, side := .sell }

/-- Two orders and the cancel of the second: its client's id is its market order id as well. -/
theorem mirrors_newNewCancel :
    Along Next StepMirrors (System.init.onStack orderHashMapSize)
      [buySeven, sellTwo, { sellTwo with requestType := .cancel }] :=
  (mirrors_iff orderHashMapSize _ (by decide +kernel)).2 (by decide +kernel)

/-- The cancel of the order with market order id 1 is published as the cancel of order 7, which the
synthesizer does not know. -/
theorem not_mirrors_cancel :
    ¬ ∀ reqs : List MEClientRequest, Along Next Valid .init reqs →
      Along Next StepMirrors .init reqs := by
  intro h
  have hrun : (do
      let (e, sent) ← System.init.engine.processClientRequest buySeven
      let (s, n) ← feed System.init.synthesizer System.init.nextIncSeqNum sent
      let (_, sent) ← e.processClientRequest cancelSeven
      feed s n sent).isOk = false := by rfl
  obtain ⟨⟨x, hx, -⟩, hnext⟩ := h [buySeven, cancelSeven]
    ⟨by decide, fun _ _ => ⟨⟨by decide, by decide, by decide, Or.inr rfl⟩, fun _ _ => trivial⟩⟩
  obtain ⟨⟨y, ⟨sent', he', hf'⟩, -⟩, -⟩ := hnext x hx
  obtain ⟨sent, he, hf⟩ := hx
  simp only [he, hf, he', hf', ok_bind] at hrun
  exact absurd hrun (by simp [Except.isOk, Except.toBool])

end Mirror

end Exchange
end TradingEcosystem
