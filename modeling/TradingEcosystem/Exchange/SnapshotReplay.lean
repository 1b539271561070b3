import TradingEcosystem.Exchange.Snapshot
import Mathlib.Data.List.Nodup
import Mathlib.Data.List.Perm.Subperm

/-!
# Replaying a snapshot

A snapshot is a list of messages for the function that wrote it: each order that is there is sent
as the `ADD` that would put it there.  `publishSnapshot_replays` takes the messages of a snapshot
off the wire and applies them, one after the other, to an empty synthesizer; the orders of the one
that published are back, with every field.

What an update does is the `switch` of `addToSnapshot`, by the type of the update.  In the source a
lookup of the update's ticker stands before it (`applyUpdate_eq`); the messages at the two ends of a
snapshot carry no ticker, so it is the `switch` that is asked about them, and it passes over them.
-/

set_option autoImplicit false

namespace TradingEcosystem
namespace Exchange
namespace SnapshotSynthesizer

/-- The `switch` of `addToSnapshot` by itself. -/
def applyByType (s : SnapshotSynthesizer) (u : MEMarketUpdate) : Except Fault SnapshotSynthesizer :=
  match u.type with
  | .add | .modify | .cancel => s.applyUpdate u
  | _ => .ok s

/-- **A snapshot that can be replayed.** -/
structure Replays (s : SnapshotSynthesizer) (messages : List MDPMarketUpdate) : Prop where
  /-- The messages are numbered from 0 without a gap. -/
  numbered : messages.map (·.seqNum) = (List.range messages.length).map UInt64.ofNat
  /-- Between the ends, which carry the number of the last incremental, every ticker is cleared and
  followed by its orders, each of them once, and by nothing else. -/
  layout : ∃ live : TickerId → List MEMarketUpdate,
    messages.map (·.meMarketUpdate) = snapshotOf s.lastIncSeqNum live ∧
    ∀ t, (live t).Nodup ∧ ∀ u, u ∈ live t ↔ ∃ k, s.orders t k = some u
  /-- The tickers between the ends can be looked up. -/
  tickers : ∀ m ∈ messages, m.meMarketUpdate = startUpdate s.lastIncSeqNum ∨
    m.meMarketUpdate = endUpdate s.lastIncSeqNum ∨ m.meMarketUpdate.tickerId.toNat < meMaxTickers
  /-- Applied to the empty state, the updates return and leave the orders there were. -/
  replayed : ∃ s', (messages.map (·.meMarketUpdate)).foldlM applyByType init = .ok s' ∧
    s'.orders = s.orders

/-! ## What an update does -/

variable {s s' : SnapshotSynthesizer} {u : MEMarketUpdate}

theorem orderAt_of_ticker {t : TickerId} (k : OrderId) (ht : ¬ t.toNat < meMaxTickers) :
    s.orderAt t k = .error .outOfRange := by
  rw [orderAt, if_neg fun h => ht h.1]

/-- **The source** looks the ticker up, and then goes by the type. -/
theorem applyUpdate_eq (s : SnapshotSynthesizer) (u : MEMarketUpdate) : s.applyUpdate u =
    if u.tickerId.toNat < meMaxTickers then s.applyByType u else .error .outOfRange := by
  by_cases ht : u.tickerId.toNat < meMaxTickers
  · rw [if_pos ht, applyByType]
    split
    · rfl
    · rfl
    · rfl
    · next hadd hmodify hcancel =>
      rw [applyUpdate]
      split
      · next h => exact absurd h hadd
      · next h => exact absurd h hmodify
      · next h => exact absurd h hcancel
      · rw [if_pos ht]
        rfl
  · rw [if_neg ht, applyUpdate]
    split
    · rw [orderAt_of_ticker _ ht, error_bind]
    · rw [checkedOrder, orderAt_of_ticker _ ht, error_bind, error_bind]
    · rw [checkedOrder, orderAt_of_ticker _ ht, error_bind, error_bind]
    · rw [if_neg ht]

theorem applyByType_add (ht : u.type = .add) : s.applyByType u = s.applyUpdate u := by
  rw [applyByType, ht]

/-- The updates that say nothing about an order. -/
def IsMarker (u : MEMarketUpdate) : Prop :=
  u.type = .clear ∨ u.type = .snapshotStart ∨ u.type = .snapshotEnd

theorem applyByType_marker (h : IsMarker u) : s.applyByType u = .ok s := by
  rw [applyByType]
  rcases h with h | h | h <;> rw [h]

/-- Only the `ADD`s of a snapshot do anything. -/
theorem foldlM_filter {l : List MEMarketUpdate} (h : ∀ u ∈ l, u.type = .add ∨ IsMarker u) :
    l.foldlM applyByType s = (l.filter (·.type = .add)).foldlM applyByType s := by
  induction l generalizing s with
  | nil => rfl
  | cons u l ih =>
    obtain ⟨hu, hl⟩ := List.forall_mem_cons.1 h
    rcases hu with hadd | hmarker
    · rw [List.filter_cons_of_pos (by simpa using hadd), List.foldlM_cons, List.foldlM_cons]
      exact congrArg _ (funext fun c => ih hl)
    · have hne : ¬ u.type = .add := by
        rcases hmarker with h | h | h <;> rw [h] <;> decide
      rw [List.filter_cons_of_neg (by simpa using hne), List.foldlM_cons,
        applyByType_marker hmarker, ok_bind, ih hl]

/-! ## Adding orders -/

/-- The place of an update. -/
abbrev placeOf (u : MEMarketUpdate) : TickerId × OrderId := (u.tickerId, u.orderId)

theorem orders_eq_none {t : TickerId} {k : OrderId} :
    s.orders t k = none ↔ s.ordersPerTicker t k = none := Option.map_eq_none_iff

/-- **Orders of different places** can be added as long as there are blocks. -/
theorem Kept.foldlM_adds {l : List MEMarketUpdate} (h : s.Kept)
    (hadd : ∀ u ∈ l, u.type = .add ∧ u.tickerId.toNat < meMaxTickers ∧
      u.orderId.toNat < meMaxOrderIds)
    (hplaces : (l.map placeOf).Nodup) (hfree : ∀ u ∈ l, s.orders u.tickerId u.orderId = none)
    (hroom : s.orderPool.nextFreeIndex + l.length < meMaxOrderIds) :
    ∃ s', l.foldlM applyByType s = .ok s' ∧
      (∀ u ∈ l, s'.orders u.tickerId u.orderId = some u) ∧
      ∀ t k, (t, k) ∉ l.map placeOf → s'.orders t k = s.orders t k := by
  induction l generalizing s with
  | nil => exact ⟨s, rfl, by simp, fun _ _ _ => rfl⟩
  | cons u l ih =>
    obtain ⟨⟨htype, ht, hk⟩, hadd⟩ := List.forall_mem_cons.1 hadd
    obtain ⟨hu, hfree⟩ := List.forall_mem_cons.1 hfree
    rw [List.map_cons, List.nodup_cons] at hplaces
    rw [List.length_cons] at hroom
    have hblock : s.orderPool.Room := by
      rw [MemPool.Room, h.sound.size]
      omega
    obtain ⟨c, hc, hpool⟩ : ∃ c, s.applyUpdate u = .ok c ∧ c.orderPool = s.orderPool.push u :=
      ⟨_, (applyUpdate_add h.sound.frontier htype).2
        ⟨⟨ht, hk⟩, orders_eq_none.1 hu, hblock, rfl⟩, rfl⟩
    obtain ⟨hkept, horders⟩ :=
      h.add htype hc (rfl : c = { c with lastIncSeqNum := c.lastIncSeqNum })
    have hc' : ∀ t k, c.orders t k =
        if t = u.tickerId ∧ k = u.orderId then some u else s.orders t k := fun t k => by
      rw [horders, FeedOrders.applyIncremental, htype]
      exact FeedOrders.set_apply _ _ _ _ _ _
    have hother : ∀ v ∈ l, placeOf v ≠ placeOf u := fun v hv heq =>
      hplaces.1 (heq ▸ List.mem_map_of_mem hv)
    obtain ⟨s', hs', hall, hrest⟩ := ih hkept hadd hplaces.2
      (fun v hv => by
        rw [hc', if_neg fun he => hother v hv (Prod.ext he.1 he.2)]
        exact hfree v hv)
      (by rw [hpool, MemPool.nextFreeIndex_push]; omega)
    refine ⟨s', ?_, List.forall_mem_cons.2 ⟨?_, hall⟩, ?_⟩
    · rw [List.foldlM_cons, applyByType_add htype, hc, ok_bind, hs']
    · rw [hrest _ _ hplaces.1, hc', if_pos ⟨rfl, rfl⟩]
    · intro t k htk
      rw [List.map_cons, List.mem_cons, not_or] at htk
      rw [hrest t k htk.2, hc', if_neg fun he => htk.1 (Prod.ext he.1 he.2)]

/-! ## The blocks behind the orders

The orders of a snapshot lie in different blocks, all of them handed out, so there are fewer of them
than blocks. -/

/-- The blocks of a ticker's orders, in the order of the table. -/
def blocksOf (s : SnapshotSynthesizer) (t : TickerId) : List Ptr :=
  ((List.range meMaxOrderIds).map UInt64.ofNat).filterMap (s.ordersPerTicker t)

/-- The blocks of all orders. -/
def blocks (s : SnapshotSynthesizer) : List Ptr :=
  ((List.range meMaxTickers).map UInt32.ofNat).flatMap s.blocksOf

theorem map_blocksOf (s : SnapshotSynthesizer) (t : TickerId) :
    (s.blocksOf t).map s.orderPool.get = s.ordersOf t := by
  rw [blocksOf, List.filterMap_map, List.map_filterMap, ordersOf]
  rfl

theorem map_blocks (s : SnapshotSynthesizer) : s.blocks.map s.orderPool.get =
    (List.range meMaxTickers).flatMap fun t => s.ordersOf (.ofNat t) := by
  rw [blocks, List.map_flatMap, List.flatMap_map]
  exact congrArg (fun f => (List.range meMaxTickers).flatMap f)
    (funext fun t => s.map_blocksOf (.ofNat t))

theorem mem_blocksOf {t : TickerId} {p : Ptr} (h : p ∈ s.blocksOf t) :
    ∃ k, s.ordersPerTicker t k = some p := by
  obtain ⟨k, -, hk⟩ := List.mem_filterMap.1 h
  exact ⟨k, hk⟩

theorem mem_blocks {p : Ptr} (h : p ∈ s.blocks) : ∃ t k, s.ordersPerTicker t k = some p := by
  obtain ⟨t, -, ht⟩ := List.mem_flatMap.1 h
  exact ⟨t, mem_blocksOf ht⟩

theorem nodup_orderIds : ((List.range meMaxOrderIds).map UInt64.ofNat).Nodup := by
  refine List.Nodup.map_on (fun i hi j hj hij => ?_) List.nodup_range
  have hsize : meMaxOrderIds < UInt64.size := by decide
  have hi' := List.mem_range.1 hi
  have hj' := List.mem_range.1 hj
  rw [← UInt64.toNat_ofNat_of_lt' (hi'.trans hsize), hij,
    UInt64.toNat_ofNat_of_lt' (hj'.trans hsize)]

theorem nodup_tickerIds : ((List.range meMaxTickers).map UInt32.ofNat).Nodup := by decide

theorem Sound.nodup_blocksOf (h : s.Sound) (t : TickerId) : (s.blocksOf t).Nodup :=
  nodup_orderIds.filterMap fun _ _ _ hp hq => (h.entry_unique hp hq).2

theorem Sound.nodup_blocks (h : s.Sound) : s.blocks.Nodup := by
  refine List.nodup_flatMap.2 ⟨fun t _ => h.nodup_blocksOf t, ?_⟩
  refine nodup_tickerIds.imp fun hne p hp hq => ?_
  obtain ⟨k, hk⟩ := mem_blocksOf hp
  obtain ⟨k', hk'⟩ := mem_blocksOf hq
  exact hne (h.entry_unique hk hk').1

theorem Sound.length_blocks (h : s.Sound) : s.blocks.length < meMaxOrderIds := by
  have hsub : s.blocks ⊆ List.range s.orderPool.nextFreeIndex := fun p hp => by
    obtain ⟨t, k, hk⟩ := mem_blocks hp
    exact List.mem_range.2 (h.frontier.lt_of_live (h.entries t k p hk).1)
  have hle := (h.nodup_blocks.subperm hsub).length_le
  rw [List.length_range] at hle
  exact hle.trans_lt h.next

/-! ## The messages of a snapshot -/

theorem mem_ordersOf (hk : Keyed s.orders) {t : TickerId} :
    u ∈ s.ordersOf t ↔ ∃ k, s.orders t k = some u := by
  rw [ordersOf]
  constructor
  · intro hu
    obtain ⟨i, -, hi⟩ := List.mem_filterMap.1 hu
    exact ⟨.ofNat i, hi⟩
  · rintro ⟨k, hu⟩
    refine List.mem_filterMap.2 ⟨k.toNat, List.mem_range.2 (hk t k u hu).1.2, ?_⟩
    rw [UInt64.ofNat_toNat]
    exact hu

theorem Kept.nodup_ordersOf (h : s.Kept) (t : TickerId) : (s.ordersOf t).Nodup := by
  rw [← map_blocksOf]
  refine (h.sound.nodup_blocksOf t).map_on fun p hp q hq hpq => ?_
  obtain ⟨k, hk⟩ := mem_blocksOf hp
  obtain ⟨k', hk'⟩ := mem_blocksOf hq
  have hkk : k = k' := by
    rw [← (h.sound.entries t k p hk).2.2, hpq, (h.sound.entries t k' q hk').2.2]
  rw [hkk, hk'] at hk
  exact (Option.some_inj.1 hk).symm

/-- The orders of all tickers. -/
def liveOrders (s : SnapshotSynthesizer) : List MEMarketUpdate :=
  (List.range meMaxTickers).flatMap fun t => s.ordersOf (.ofNat t)

theorem mem_liveOrders (hk : Keyed s.orders) :
    u ∈ s.liveOrders ↔ ∃ t k, s.orders t k = some u := by
  rw [liveOrders, List.mem_flatMap]
  constructor
  · rintro ⟨t, -, hu⟩
    exact ⟨.ofNat t, (mem_ordersOf hk).1 hu⟩
  · rintro ⟨t, k, hu⟩
    refine ⟨t.toNat, List.mem_range.2 (hk t k u hu).1.1, (mem_ordersOf hk).2 ⟨k, ?_⟩⟩
    rw [UInt32.ofNat_toNat]
    exact hu

theorem Kept.nodup_places (h : s.Kept) : (s.liveOrders.map placeOf).Nodup := by
  rw [liveOrders, ← map_blocks, List.map_map]
  refine h.sound.nodup_blocks.map_on fun p hp q hq hpq => ?_
  obtain ⟨t, k, hk⟩ := mem_blocks hp
  obtain ⟨t', k', hk'⟩ := mem_blocks hq
  obtain ⟨-, ht, hid⟩ := h.sound.entries t k p hk
  obtain ⟨-, ht', hid'⟩ := h.sound.entries t' k' q hk'
  obtain ⟨htt, hkk⟩ := Prod.mk.inj hpq
  rw [← ht, ← hid, htt, hkk, ht', hid', hk'] at hk
  exact (Option.some_inj.1 hk).symm

theorem length_liveOrders (s : SnapshotSynthesizer) : s.liveOrders.length = s.blocks.length := by
  rw [liveOrders, ← map_blocks, List.length_map]

theorem filter_snapshotUpdates (hk : Keyed s.orders) :
    s.snapshotUpdates.filter (·.type = .add) = s.liveOrders := by
  have hticker : ∀ t, (clearUpdate t :: s.ordersOf t).filter (·.type = .add) = s.ordersOf t := by
    intro t
    rw [List.filter_cons_of_neg (by simp [clearUpdate])]
    refine List.filter_eq_self.2 fun u hu => ?_
    obtain ⟨k, hu⟩ := (mem_ordersOf hk).1 hu
    simpa using (hk t k u hu).2.1
  rw [snapshotUpdates, snapshotOf, List.filter_append, List.filter_cons_of_neg (by simp [startUpdate]),
    List.filter_flatMap, liveOrders, funext fun t : Nat => hticker (.ofNat t),
    List.filter_eq_nil_iff.2 (by simp [endUpdate]), List.append_nil]

theorem mem_snapshotUpdates (hu : u ∈ s.snapshotUpdates) :
    u = startUpdate s.lastIncSeqNum ∨ u = endUpdate s.lastIncSeqNum ∨ (∃ t < meMaxTickers, u = clearUpdate (.ofNat t)) ∨
      ∃ t < meMaxTickers, u ∈ s.ordersOf (.ofNat t) := by
  rw [snapshotUpdates, snapshotOf, List.mem_append, List.mem_cons, List.mem_singleton] at hu
  rcases hu with (hu | hu) | hu
  · exact Or.inl hu
  · obtain ⟨t, ht, hu⟩ := List.mem_flatMap.1 hu
    rcases List.mem_cons.1 hu with hu | hu
    · exact Or.inr (Or.inr (Or.inl ⟨t, List.mem_range.1 ht, hu⟩))
    · exact Or.inr (Or.inr (Or.inr ⟨t, List.mem_range.1 ht, hu⟩))
  · exact Or.inr (Or.inl hu)

/-- **The updates of a snapshot** applied to the empty state. -/
theorem Kept.replayed (h : s.Kept) : ∃ s', s.snapshotUpdates.foldlM applyByType init = .ok s' ∧
    s'.orders = s.orders := by
  have hmarkers : ∀ u ∈ s.snapshotUpdates, u.type = .add ∨ IsMarker u := by
    intro u hu
    rcases mem_snapshotUpdates hu with rfl | rfl | ⟨t, -, rfl⟩ | ⟨t, -, hu⟩
    · exact Or.inr (Or.inr (Or.inl rfl))
    · exact Or.inr (Or.inr (Or.inr rfl))
    · exact Or.inr (Or.inl rfl)
    · obtain ⟨k, hu⟩ := (mem_ordersOf h.keyed).1 hu
      exact Or.inl (h.keyed _ k u hu).2.1
  have hadd : ∀ u ∈ s.liveOrders, u.type = .add ∧ u.tickerId.toNat < meMaxTickers ∧
      u.orderId.toNat < meMaxOrderIds := by
    intro u hu
    obtain ⟨t, k, hu⟩ := (mem_liveOrders h.keyed).1 hu
    obtain ⟨⟨ht, hk⟩, htype, rfl, rfl⟩ := h.keyed t k u hu
    exact ⟨htype, ht, hk⟩
  have hroom : init.orderPool.nextFreeIndex + s.liveOrders.length < meMaxOrderIds := by
    rw [length_liveOrders, show init.orderPool.nextFreeIndex = 0 from rfl, Nat.zero_add]
    exact h.sound.length_blocks
  obtain ⟨s', hs', hall, hrest⟩ := kept_init.foldlM_adds hadd h.nodup_places
    (fun u _ => orders_eq_none.2 rfl) hroom
  refine ⟨s', by rw [foldlM_filter hmarkers, filter_snapshotUpdates h.keyed, hs'], ?_⟩
  funext t k
  cases hu : s.orders t k with
  | some u =>
    obtain ⟨-, -, rfl, rfl⟩ := h.keyed t k u hu
    exact hall u ((mem_liveOrders h.keyed).2 ⟨_, _, hu⟩)
  | none =>
    refine (hrest t k fun hmem => ?_).trans (orders_eq_none.2 rfl)
    obtain ⟨u, hlive, hplace⟩ := List.mem_map.1 hmem
    obtain ⟨t', k', hu'⟩ := (mem_liveOrders h.keyed).1 hlive
    obtain ⟨-, -, rfl, rfl⟩ := h.keyed t' k' u hu'
    obtain ⟨rfl, rfl⟩ := Prod.mk.inj hplace
    exact absurd (hu.symm.trans hu') (by simp)

theorem map_seqNum_numbered (n : Nat) (updates : List MEMarketUpdate) :
    (MarketDataPublisher.numbered (.ofNat n) updates).map (·.seqNum) =
      (List.range' n updates.length).map UInt64.ofNat := by
  induction updates generalizing n with
  | nil => rfl
  | cons u rest ih =>
    have hnext : UInt64.ofNat n + 1 = .ofNat (n + 1) := (UInt64.ofNat_add n 1).symm
    have hnumbered : MarketDataPublisher.numbered (.ofNat n) (u :: rest) =
        ⟨.ofNat n, u⟩ :: MarketDataPublisher.numbered (.ofNat n + 1) rest := rfl
    rw [hnumbered, hnext, List.map_cons, ih, List.length_cons, List.range'_succ, List.map_cons]

theorem Kept.replays (h : s.Kept) : s.Replays s.snapshotMessages := by
  have hupdates : s.snapshotMessages.map (·.meMarketUpdate) = s.snapshotUpdates := by
    rw [snapshotMessages, MarketDataPublisher.map_meMarketUpdate_numbered]
  have hlength : s.snapshotMessages.length = s.snapshotUpdates.length := by
    rw [← hupdates, List.length_map]
  refine ⟨?_, ⟨s.ordersOf, hupdates, fun t => ⟨h.nodup_ordersOf t, fun u => mem_ordersOf h.keyed⟩⟩,
    ?_, hupdates ▸ h.replayed⟩
  · have hseq := map_seqNum_numbered 0 s.snapshotUpdates
    rw [← List.range_eq_range'] at hseq
    rw [hlength, snapshotMessages]
    exact hseq
  · intro m hm
    have hu : m.meMarketUpdate ∈ s.snapshotUpdates := hupdates ▸ List.mem_map_of_mem hm
    rcases mem_snapshotUpdates hu with hstart | hend | ⟨t, ht, hclear⟩ | ⟨t, ht, horder⟩
    · exact Or.inl hstart
    · exact Or.inr (Or.inl hend)
    · refine Or.inr (Or.inr ?_)
      have hsize : meMaxTickers < UInt32.size := by decide
      rw [hclear, clearUpdate, UInt32.toNat_ofNat_of_lt' (ht.trans hsize)]
      exact ht
    · obtain ⟨k, hk⟩ := (mem_ordersOf h.keyed).1 horder
      obtain ⟨⟨htick, -⟩, -, hid, -⟩ := h.keyed _ k _ hk
      exact Or.inr (Or.inr (hid ▸ htick))

/-- **A published snapshot replays**: whatever updates brought the synthesizer where it is, the
messages `publishSnapshot` sends have the layout of a snapshot, and applied to the empty state they
bring back its orders. -/
theorem publishSnapshot_replays (updates : List MDPMarketUpdate) {s : SnapshotSynthesizer}
    (hs : updates.foldlM addToSnapshot init = .ok s) (socket : MulticastSocket)
    (hsocket : socket.outboundData = []) :
    ∃ socket' datagrams messages, s.publishSnapshot socket = .ok (socket', datagrams) ∧
      mdpMarketUpdateCodec.chunks datagrams.flatten = (messages, []) ∧ s.Replays messages ∧
      socket'.outboundData = [] := by
  have hkept : s.Kept := Run.inv_of_foldlM Kept
    (fun c m c' hc hm => (hc.addToSnapshot (show c.addToSnapshot ⟨m.seqNum, m.meMarketUpdate⟩ = _
      from hm)).1) kept_init hs
  obtain ⟨socket', datagrams, hpublish⟩ := s.publishSnapshot_returns hsocket
  obtain ⟨hchunks, hout⟩ := publishSnapshot_eq_ok hsocket hpublish
  exact ⟨socket', datagrams, _, hpublish, hchunks, hkept.replays, hout⟩

/-- An order of ticker 0. -/
def addOne : MEMarketUpdate where
  type := .add
  orderId := 1
  tickerId := 0
  side := .buy
  price := 100
  qty := 10
  priority := 1

/-- An order of ticker 3. -/
def addTwo : MEMarketUpdate := { addOne with orderId := 2, tickerId := 3, side := .sell }

/-- The two orders are added, one of them is changed and the other one cancelled. -/
def changedAndCancelled : List MDPMarketUpdate :=
  [⟨1, addOne⟩, ⟨2, addTwo⟩, ⟨3, { addOne with type := .modify, qty := 6 }⟩,
    ⟨4, { addTwo with type := .cancel }⟩]

theorem publishSnapshot_replays_changed : ∃ s,
    changedAndCancelled.foldlM addToSnapshot init = .ok s ∧
      (s.orders 0 1).map (·.qty) = some 6 ∧ ∃ messages, s.Replays messages := by
  have hrun : ∃ s, changedAndCancelled.foldlM addToSnapshot init = .ok s ∧
    (s.orders 0 1).map (·.qty) = some 6 := ⟨_, rfl, rfl⟩
  obtain ⟨s, hs, hqty⟩ := hrun
  obtain ⟨-, -, messages, -, -, hreplays, -⟩ :=
    publishSnapshot_replays changedAndCancelled hs {} rfl
  exact ⟨s, hs, hqty, messages, hreplays⟩

end SnapshotSynthesizer
end Exchange
end TradingEcosystem
