import TradingEcosystem.Exchange.MarketDataPublisher
import TradingEcosystem.Exchange.Mirror

/-!
# Snapshots

`FeedOrders` is what a feed says of the orders: by ticker and order id, the update that added an
order with the quantity and the price it has now.  `applyIncremental` is what an incremental update
means for them and `applySnapshot` what a message of a snapshot means.

The table of the synthesizer is such a thing (`addToSnapshot_orders`), and `publishSnapshot` writes
it out in a form from which it can be read back (`foldl_snapshotUpdates`).  So whoever takes a
snapshot and then the updates behind its number has the orders of the whole feed, once the
synthesizer has seen what was published up to then (`joined_eq`).
-/

set_option autoImplicit false

namespace TradingEcosystem
namespace Exchange

open Codec

/-! ## The orders of a feed -/

/-- The orders there are, by ticker and order id. -/
abbrev FeedOrders := TickerId → OrderId → Option MEMarketUpdate

namespace FeedOrders

def none : FeedOrders := fun _ _ => .none

/-- The entry of an order. -/
def set (o : FeedOrders) (t : TickerId) (k : OrderId) (v : Option MEMarketUpdate) : FeedOrders :=
  Function.update o t (Function.update (o t) k v)

/-- An incremental update adds, changes or removes an order, or says nothing about one. -/
def applyIncremental (o : FeedOrders) (u : MEMarketUpdate) : FeedOrders :=
  match u.type with
  | .add => o.set u.tickerId u.orderId (some u)
  | .modify => o.set u.tickerId u.orderId
      ((o u.tickerId u.orderId).map fun x => { x with qty := u.qty, price := u.price })
  | .cancel => o.set u.tickerId u.orderId .none
  | _ => o

/-- A message of a snapshot clears a ticker or adds one of its orders. -/
def applySnapshot (o : FeedOrders) (u : MEMarketUpdate) : FeedOrders :=
  match u.type with
  | .clear => Function.update o u.tickerId fun _ => .none
  | .add => o.set u.tickerId u.orderId (some u)
  | _ => o

/-- The orders after a feed. -/
def ofFeed (updates : List MEMarketUpdate) : FeedOrders := updates.foldl applyIncremental .none

theorem set_apply (o : FeedOrders) (t t' : TickerId) (k k' : OrderId) (v : Option MEMarketUpdate) :
    o.set t k v t' k' = if t' = t ∧ k' = k then v else o t' k' := by
  by_cases ht : t' = t
  · subst ht
    by_cases hk : k' = k <;> simp [set, hk]
  · simp [set, ht]

/-- The orders of a ticker, by their ids. -/
def ofTicker (o : FeedOrders) (t : TickerId) : List MEMarketUpdate :=
  (List.range meMaxOrderIds).filterMap fun k => o t (.ofNat k)

/-- Nothing is said of tickers there are no books for. -/
def InTickers (o : FeedOrders) : Prop := ∀ t : TickerId, meMaxTickers ≤ t.toNat → ∀ k, o t k = .none

end FeedOrders

/-! ## What a snapshot says -/

/-- The first update of a snapshot, with the number of the last incremental. -/
def startUpdate (lastIncSeqNum : UInt64) : MEMarketUpdate where
  type := .snapshotStart
  orderId := lastIncSeqNum

/-- The last one. -/
def endUpdate (lastIncSeqNum : UInt64) : MEMarketUpdate where
  type := .snapshotEnd
  orderId := lastIncSeqNum

/-- The update that clears a ticker. -/
def clearUpdate (t : TickerId) : MEMarketUpdate where
  type := .clear
  tickerId := t

/-- **The updates of a snapshot**: between the two ends every ticker is cleared, with its orders
behind it. -/
def snapshotOf (lastIncSeqNum : UInt64) (ordersOf : TickerId → List MEMarketUpdate) :
    List MEMarketUpdate :=
  startUpdate lastIncSeqNum ::
    ((List.range meMaxTickers).flatMap fun t => clearUpdate (.ofNat t) :: ordersOf (.ofNat t)) ++
      [endUpdate lastIncSeqNum]

/-! ## Publishing a snapshot -/

namespace SnapshotSynthesizer

/-- The orders of a ticker that are there, in the order of the table. -/
def ordersOf (s : SnapshotSynthesizer) (t : TickerId) : List MEMarketUpdate :=
  (List.range meMaxOrderIds).filterMap fun k =>
    (s.ordersPerTicker t (.ofNat k)).map s.orderPool.get

/-- The messages of a snapshot, and whether `sendAndRecv` is called behind each. -/
def snapshotBodies (s : SnapshotSynthesizer) : List (MEMarketUpdate × Bool) :=
  (startUpdate s.lastIncSeqNum, false) ::
    ((List.range meMaxTickers).flatMap fun t =>
      (clearUpdate (.ofNat t), false) :: (s.ordersOf (.ofNat t)).map fun u => (u, true)) ++
    [(endUpdate s.lastIncSeqNum, true)]

/-- The messages by themselves. -/
def snapshotUpdates (s : SnapshotSynthesizer) : List MEMarketUpdate :=
  snapshotOf s.lastIncSeqNum s.ordersOf

theorem map_snapshotBodies (s : SnapshotSynthesizer) :
    s.snapshotBodies.map Prod.fst = s.snapshotUpdates := by
  have hticker : ∀ t, ((clearUpdate t, false) :: (s.ordersOf t).map fun u => (u, true)).map
      Prod.fst = clearUpdate t :: s.ordersOf t := fun t => by
    rw [List.map_cons, List.map_map, Function.comp_def, List.map_id']
  rw [snapshotBodies, List.map_append, List.map_cons, List.map_flatMap]
  simp only [hticker, List.map_cons, List.map_nil]
  rfl

/-- The calls of `send` and `sendAndRecv`, with `snapshot_size` as the number of the next message:
the datagrams that go out. -/
def sendSnapshot : UInt64 → MulticastSocket → List (MEMarketUpdate × Bool) →
    Except Fault (MulticastSocket × List (List UInt8))
  | _, socket, [] => .ok (socket, [])
  | snapshotSize, socket, (u, flushes) :: rest => do
    let socket ← socket.send (mdpMarketUpdateCodec.encode ⟨snapshotSize, u⟩)
    if flushes then
      let (socket, datagram) := socket.flush
      let (socket, more) ← sendSnapshot (snapshotSize + 1) socket rest
      return (socket, datagram :: more)
    else sendSnapshot (snapshotSize + 1) socket rest

/-- `publishSnapshot`. -/
def publishSnapshot (s : SnapshotSynthesizer) (snapshotSocket : MulticastSocket) :
    Except Fault (MulticastSocket × List (List UInt8)) :=
  sendSnapshot 0 snapshotSocket s.snapshotBodies

/-- The messages with their numbers. -/
def snapshotMessages (s : SnapshotSynthesizer) : List MDPMarketUpdate :=
  MarketDataPublisher.numbered 0 s.snapshotUpdates

/-- The orders the synthesizer keeps. -/
def orders (s : SnapshotSynthesizer) : FeedOrders := fun t k =>
  (s.ordersPerTicker t k).map s.orderPool.get

theorem sendSnapshot_eq_ok {n : UInt64} {socket socket' : MulticastSocket}
    {bodies : List (MEMarketUpdate × Bool)} {datagrams : List (List UInt8)}
    (h : sendSnapshot n socket bodies = .ok (socket', datagrams)) :
    datagrams.flatten ++ socket'.outboundData = socket.outboundData ++
      mdpMarketUpdateCodec.encodeAll
        (MarketDataPublisher.numbered n (bodies.map Prod.fst)) := by
  induction bodies generalizing n socket datagrams with
  | nil =>
    obtain ⟨rfl, rfl⟩ := Prod.mk.inj (Except.ok.inj h)
    exact (List.append_nil _).symm
  | cons body rest ih =>
    obtain ⟨u, flushes⟩ := body
    obtain ⟨sent, hsend, h⟩ := bind_eq_ok.1 h
    obtain ⟨-, rfl⟩ := MulticastSocket.send_eq_ok.1 hsend
    have hnumbered : MarketDataPublisher.numbered n (((u, flushes) :: rest).map Prod.fst) =
        ⟨n, u⟩ :: MarketDataPublisher.numbered (n + 1) (rest.map Prod.fst) := rfl
    rw [hnumbered, encodeAll_cons, ← List.append_assoc]
    cases flushes with
    | false => exact ih h
    | true =>
      obtain ⟨⟨last, more⟩, hrest, h⟩ := bind_eq_ok.1 h
      obtain ⟨rfl, rfl⟩ := Prod.mk.inj (Except.ok.inj h)
      rw [List.flatten_cons, List.append_assoc, ih hrest]
      rfl

/-- A snapshot ends with a datagram. -/
theorem sendSnapshot_outbound {n : UInt64} {socket socket' : MulticastSocket}
    {bodies : List (MEMarketUpdate × Bool)} {datagrams : List (List UInt8)} {u : MEMarketUpdate}
    (h : sendSnapshot n socket (bodies ++ [(u, true)]) = .ok (socket', datagrams)) :
    socket'.outboundData = [] := by
  induction bodies generalizing n socket datagrams with
  | nil =>
    obtain ⟨sent, -, h⟩ := bind_eq_ok.1 h
    obtain ⟨rfl, -⟩ := Prod.mk.inj (Except.ok.inj h)
    rfl
  | cons body rest ih =>
    obtain ⟨v, flushes⟩ := body
    obtain ⟨sent, -, h⟩ := bind_eq_ok.1 h
    cases flushes with
    | false => exact ih h
    | true =>
      obtain ⟨⟨last, more⟩, hrest, h⟩ := bind_eq_ok.1 h
      obtain ⟨rfl, -⟩ := Prod.mk.inj (Except.ok.inj h)
      exact ih hrest

/-- **The datagrams of a snapshot** carry its messages, and nothing is left in the socket. -/
theorem publishSnapshot_eq_ok {s : SnapshotSynthesizer} {socket socket' : MulticastSocket}
    {datagrams : List (List UInt8)} (hs : socket.outboundData = [])
    (h : s.publishSnapshot socket = .ok (socket', datagrams)) :
    mdpMarketUpdateCodec.chunks datagrams.flatten = (s.snapshotMessages, []) ∧
      socket'.outboundData = [] := by
  have hout : socket'.outboundData = [] := sendSnapshot_outbound h
  have hbytes := sendSnapshot_eq_ok h
  rw [hout, hs, List.append_nil, List.nil_append, map_snapshotBodies] at hbytes
  rw [hbytes]
  exact ⟨chunks_encodeAll_nil _ (by decide) _, hout⟩

/-- Messages are sent as long as those between two flushes fit into the buffer. -/
theorem sendSnapshot_of_unflushed (bodies : List (MEMarketUpdate × Bool)) (n : UInt64)
    (socket : MulticastSocket) (h : socket.outboundData.length +
      (bodies.countP (fun body => !body.2) + 1) * mdpMarketUpdateCodec.size <
        multicastBufferSize) : ∃ x, sendSnapshot n socket bodies = .ok x := by
  induction bodies generalizing n socket with
  | nil => exact ⟨_, rfl⟩
  | cons body rest ih =>
    obtain ⟨u, flushes⟩ := body
    have hlen := mdpMarketUpdateCodec.length_encode ⟨n, u⟩
    rw [List.countP_cons, Nat.succ_mul] at h
    have hfits : (socket.outboundData ++ mdpMarketUpdateCodec.encode ⟨n, u⟩).length <
        multicastBufferSize := by
      rw [List.length_append, hlen]
      omega
    rw [sendSnapshot, MulticastSocket.send_eq_ok.2 ⟨hfits, rfl⟩, ok_bind]
    cases flushes with
    | false =>
      refine ih (n + 1) _ ?_
      rw [List.length_append, hlen]
      simp only [Bool.not_false, if_true] at h
      omega
    | true =>
      simp only [Bool.not_true, Bool.false_eq_true, if_false, Nat.add_zero] at h
      obtain ⟨⟨last, more⟩, hrest⟩ := ih (n + 1) { socket with outboundData := [] } (by
        rw [List.length_nil, Nat.succ_mul]
        omega)
      simp only [MulticastSocket.flush, if_true, hrest, ok_bind]
      exact ⟨_, rfl⟩

/-- Only the `SNAPSHOT_START` and the `CLEAR`s wait for another message. -/
theorem countP_snapshotBodies (s : SnapshotSynthesizer) :
    s.snapshotBodies.countP (fun body => !body.2) = 1 + meMaxTickers := by
  have hticker : ∀ t, ((clearUpdate t, false) :: (s.ordersOf t).map fun u => (u, true)).countP
      (fun body => !body.2) = 1 := fun t => by
    rw [List.countP_cons, List.countP_map]
    simp
  rw [snapshotBodies, List.countP_append, List.countP_cons, List.countP_flatMap]
  simp only [Function.comp_def, hticker, List.countP_singleton]
  rfl

/-- **A snapshot goes out**, whatever the table has in it. -/
theorem publishSnapshot_returns (s : SnapshotSynthesizer) {socket : MulticastSocket}
    (hsocket : socket.outboundData = []) :
    ∃ socket' datagrams, s.publishSnapshot socket = .ok (socket', datagrams) := by
  obtain ⟨⟨socket', datagrams⟩, hx⟩ := sendSnapshot_of_unflushed s.snapshotBodies 0 socket (by
    rw [hsocket, countP_snapshotBodies]
    decide)
  exact ⟨socket', datagrams, hx⟩

/-! ## Reading a snapshot -/

/-- Every entry is inside the tables, and is an `ADD` that names its own place. -/
def Keyed (o : FeedOrders) : Prop := ∀ t k u, o t k = some u →
  (t.toNat < meMaxTickers ∧ k.toNat < meMaxOrderIds) ∧ u.type = .add ∧ u.tickerId = t ∧
    u.orderId = k

variable {s s' : SnapshotSynthesizer} {u : MEMarketUpdate}

/-- The orders of a ticker, as far as they have been read. -/
theorem foldl_ordersOf (hk : Keyed s.orders) (t : TickerId) (ks : List Nat) (o : FeedOrders) :
    (ks.filterMap fun k => s.orders t (.ofNat k)).foldl FeedOrders.applySnapshot o =
      fun t' k' => if t' = t ∧ k' ∈ ks.map UInt64.ofNat then (s.orders t k').or (o t k')
        else o t' k' := by
  induction ks generalizing o with
  | nil => simp
  | cons k ks ih =>
    funext t' k'
    rw [List.filterMap_cons]
    cases hu : s.orders t (.ofNat k) with
    | none =>
      dsimp only
      rw [ih]
      by_cases hkk : k' = .ofNat k
      · subst hkk
        by_cases ht : t' = t <;> simp [ht, hu]
      · simp [hkk]
    | some u =>
      obtain ⟨-, htype, rfl, hid⟩ := hk _ _ _ hu
      have hset : FeedOrders.applySnapshot o u = o.set u.tickerId (.ofNat k) (some u) := by
        rw [FeedOrders.applySnapshot, htype, hid]
      dsimp only
      rw [List.foldl_cons, hset, ih]
      simp only [FeedOrders.set_apply, List.map_cons, List.mem_cons]
      by_cases ht : t' = u.tickerId
      · subst ht
        by_cases hkk : k' = .ofNat k
        · subst hkk
          simp [hu]
        · simp [hkk]
      · simp [ht]

/-- A ticker is cleared, and its orders are what the synthesizer has. -/
theorem foldl_ticker (hk : Keyed s.orders) (t : TickerId) (o : FeedOrders) :
    (clearUpdate t :: s.ordersOf t).foldl FeedOrders.applySnapshot o =
      Function.update o t (s.orders t) := by
  have hclear : FeedOrders.applySnapshot o (clearUpdate t) =
      Function.update o t fun _ => none := rfl
  rw [List.foldl_cons, hclear, ordersOf]
  refine (foldl_ordersOf hk t (List.range meMaxOrderIds) _).trans ?_
  funext t' k'
  by_cases ht : t' = t
  · subst ht
    rw [Function.update_self, Function.update_self]
    split
    · exact Option.or_none
    · next hout =>
      cases hu : s.orders t' k' with
      | none => rfl
      | some u => exact absurd ⟨rfl, mem_map_ofNat_order (hk _ _ _ hu).1.2⟩ hout
  · rw [if_neg fun h => ht h.1, Function.update_of_ne ht, Function.update_of_ne ht]

theorem foldl_tickers (hk : Keyed s.orders) (ts : List Nat) (o : FeedOrders) :
    ((ts.flatMap fun t => clearUpdate (.ofNat t) :: s.ordersOf (.ofNat t)).foldl
      FeedOrders.applySnapshot o) =
      fun t' => if t' ∈ ts.map UInt32.ofNat then s.orders t' else o t' := by
  induction ts generalizing o with
  | nil => simp
  | cons t ts ih =>
    rw [List.flatMap_cons, List.foldl_append, foldl_ticker hk, ih]
    funext t'
    by_cases hmem : t' ∈ ts.map UInt32.ofNat
    · simp only [List.map_cons, List.mem_cons, hmem, or_true, if_true]
    · by_cases ht : t' = .ofNat t
      · subst ht
        simp only [List.map_cons, List.mem_cons, true_or, if_true, if_neg hmem,
          Function.update_self]
      · simp only [List.map_cons, List.mem_cons, ht, hmem, or_self, if_false,
          Function.update_of_ne ht]

/-- **A snapshot is read as it was written**, whatever the reader had of these tickers before. -/
theorem foldl_snapshotUpdates (hk : Keyed s.orders) {o : FeedOrders} (ho : o.InTickers) :
    s.snapshotUpdates.foldl FeedOrders.applySnapshot o = s.orders := by
  have hend : ∀ o : FeedOrders, o.applySnapshot (endUpdate s.lastIncSeqNum) = o := fun _ => rfl
  have hstart : ∀ o : FeedOrders, o.applySnapshot (startUpdate s.lastIncSeqNum) = o := fun _ => rfl
  rw [snapshotUpdates, snapshotOf, List.foldl_append, List.foldl_cons, List.foldl_nil, hend,
    List.foldl_cons, hstart, foldl_tickers hk]
  funext t'
  split
  · rfl
  · next hout =>
    have hlarge : meMaxTickers ≤ t'.toNat :=
      Nat.le_of_not_lt fun hlt => hout (mem_map_ofNat_ticker hlt)
    funext k
    rw [ho t' hlarge k]
    cases hu : s.orders t' k with
    | none => rfl
    | some u => exact absurd (hk _ _ _ hu).1.1 (Nat.not_lt.2 hlarge)

/-! ## The table is the fold of what was added to it -/

/-- The table and the pool belong together, and the entries are what a feed can leave. -/
structure Kept (s : SnapshotSynthesizer) : Prop where
  sound : s.Sound
  keyed : Keyed s.orders

theorem kept_init : init.Kept := ⟨sound_init, fun _ _ _ h => absurd h (by simp [orders, init])⟩

/-- An entry that is set, where its key is its place. -/
theorem Keyed.set {o : FeedOrders} (h : Keyed o) {t : TickerId} {k : OrderId}
    (hb : t.toNat < meMaxTickers ∧ k.toNat < meMaxOrderIds) {v : Option MEMarketUpdate}
    (hv : ∀ x, v = some x → x.type = .add ∧ x.tickerId = t ∧ x.orderId = k) :
    Keyed (o.set t k v) := by
  intro t' k' x hx
  rw [FeedOrders.set_apply] at hx
  split at hx
  · next htk =>
    obtain ⟨rfl, rfl⟩ := htk
    exact ⟨hb, hv x hx⟩
  · exact h t' k' x hx

theorem Kept.add (h : s.Kept) (hu : u.type = .add) {n : UInt64} {c : SnapshotSynthesizer}
    (hc : s.applyUpdate u = .ok c) (hs : s' = { c with lastIncSeqNum := n }) :
    s'.Kept ∧ s'.orders = s.orders.applyIncremental u := by
  obtain ⟨hb, -, hroom, rfl⟩ := (applyUpdate_add h.sound.frontier hu).1 hc
  have horders : s'.orders = s.orders.set u.tickerId u.orderId (some u) := by
    subst hs
    funext t k
    rw [FeedOrders.set_apply]
    change ((s.setOrder u.tickerId u.orderId (some s.orderPool.nextFreeIndex)).ordersPerTicker
      t k).map (s.orderPool.push u).get = _
    rw [ordersPerTicker_setOrder]
    split
    · exact congrArg some (MemPool.get_push_self _ _)
    · rw [orders]
      cases hp : s.ordersPerTicker t k with
      | none => rfl
      | some p =>
        have hlt := h.sound.frontier.lt_of_live (h.sound.entries t k p hp).1
        exact congrArg some (MemPool.get_push_ne _ _ (Nat.ne_of_lt hlt))
  refine ⟨⟨(h.sound.add hroom hs).1, ?_⟩, ?_⟩
  · rw [horders]
    exact h.keyed.set hb fun x hx => Option.some_inj.1 hx ▸ ⟨hu, rfl, rfl⟩
  · rw [horders, FeedOrders.applyIncremental, hu]

theorem Kept.cancel (h : s.Kept) (hu : u.type = .cancel) {n : UInt64} {c : SnapshotSynthesizer}
    (hc : s.applyUpdate u = .ok c) (hs : s' = { c with lastIncSeqNum := n }) :
    s'.Kept ∧ s'.orders = s.orders.applyIncremental u := by
  obtain ⟨p, hb, hp, -, -, rfl⟩ := (applyUpdate_cancel hu fun q hq =>
    ⟨(h.sound.entries _ _ q hq).1, h.sound.lt_size (h.sound.entries _ _ q hq).1⟩).1 hc
  have horders : s'.orders = s.orders.set u.tickerId u.orderId none := by
    subst hs
    funext t k
    rw [FeedOrders.set_apply]
    change ((s.setOrder u.tickerId u.orderId none).ordersPerTicker t k).map
      (s.orderPool.release p).get = _
    rw [ordersPerTicker_setOrder, funext fun q => MemPool.get_release s.orderPool p q]
    split <;> rfl
  refine ⟨⟨(h.sound.cancel hp hs).1, ?_⟩, ?_⟩
  · rw [horders]
    exact h.keyed.set hb fun x hx => nomatch hx
  · rw [horders, FeedOrders.applyIncremental, hu]

/-- Changing what is in a block, and not whose it is. -/
theorem Sound.modify (h : s.Sound) (p : Ptr) {f : MEMarketUpdate → MEMarketUpdate}
    (htable : s'.ordersPerTicker = s.ordersPerTicker)
    (hpool : s'.orderPool = s.orderPool.modify p f)
    (hf : ∀ o, (f o).tickerId = o.tickerId ∧ (f o).orderId = o.orderId) : s'.Sound := by
  refine ⟨fun t k q hq => ?_, hpool ▸ h.frontier.modify _ _, hpool ▸ h.size, hpool ▸ h.next⟩
  rw [htable] at hq
  obtain ⟨hlive, ht, hk⟩ := h.entries t k q hq
  rw [hpool, MemPool.get_modify]
  refine ⟨(MemPool.live_modify _ _ _ _).2 hlive, ?_⟩
  split
  · next hqp =>
    rw [hqp] at ht hk
    exact ⟨(hf _).1.trans ht, (hf _).2.trans hk⟩
  · exact ⟨ht, hk⟩

theorem Kept.modify (h : s.Kept) (hu : u.type = .modify) {n : UInt64} {c : SnapshotSynthesizer}
    (hc : s.applyUpdate u = .ok c) (hs : s' = { c with lastIncSeqNum := n }) :
    s'.Kept ∧ s'.orders = s.orders.applyIncremental u := by
  obtain ⟨p, hb, hp, -, -, rfl⟩ := (applyUpdate_modify hu).1 hc
  have hentry : s.orders u.tickerId u.orderId = some (s.orderPool.get p) := by
    rw [orders, hp]
    rfl
  have htable : s'.ordersPerTicker = s.ordersPerTicker := by rw [hs]
  have hpool : s'.orderPool =
      s.orderPool.modify p fun o => { o with qty := u.qty, price := u.price } := by
    rw [hs]
  have horders : s'.orders = s.orders.set u.tickerId u.orderId
      (some { s.orderPool.get p with qty := u.qty, price := u.price }) := by
    funext t k
    rw [FeedOrders.set_apply, orders, htable, hpool]
    split
    · next htk =>
      rw [htk.1, htk.2, hp]
      exact congrArg some (MemPool.get_modify_self _ _ _)
    · next htk =>
      rw [orders]
      cases hq : s.ordersPerTicker t k with
      | none => rfl
      | some q =>
        have hne : q ≠ p := fun heq => htk (h.sound.entry_unique (heq ▸ hq) hp)
        exact congrArg some (MemPool.get_modify_ne _ _ hne)
  refine ⟨⟨h.sound.modify p htable hpool fun _ => ⟨rfl, rfl⟩, ?_⟩, ?_⟩
  · rw [horders]
    obtain ⟨-, htype, ht, hk⟩ := h.keyed _ _ _ hentry
    exact h.keyed.set hb fun x hx => Option.some_inj.1 hx ▸ ⟨htype, ht, hk⟩
  · rw [horders, FeedOrders.applyIncremental, hu]
    dsimp only
    rw [hentry]
    rfl

/-- **The table is the fold of the updates**: a call that returns numbers on and does to the orders
what the update says. -/
theorem Kept.addToSnapshot (h : s.Kept) {n : UInt64} (hs : s.addToSnapshot ⟨n, u⟩ = .ok s') :
    s'.Kept ∧ s'.orders = s.orders.applyIncremental u ∧ n = s.lastIncSeqNum + 1 ∧
      s'.lastIncSeqNum = n := by
  obtain ⟨hn, c, hc, hs'⟩ := addToSnapshot_eq_ok.1 hs
  have hlast : s'.lastIncSeqNum = n := by rw [hs']
  have horders : s'.Kept ∧ s'.orders = s.orders.applyIncremental u := by
    by_cases hadd : u.type = .add
    · exact h.add hadd hc hs'
    · by_cases hcancel : u.type = .cancel
      · exact h.cancel hcancel hc hs'
      · by_cases hmodify : u.type = .modify
        · exact h.modify hmodify hc hs'
        · obtain rfl := applyUpdate_other hadd hmodify hcancel hc
          have hsame : c.orders.applyIncremental u = c.orders := by
            rw [FeedOrders.applyIncremental]
            split <;> first | rfl | contradiction
          rw [hsame, hs']
          exact ⟨⟨⟨h.sound.entries, h.sound.frontier, h.sound.size, h.sound.next⟩, h.keyed⟩, rfl⟩
  exact ⟨horders.1, horders.2, hn, hlast⟩

/-! ## Late joiners -/

/-- A snapshot, and then the updates numbered above the order id of its last message. -/
def joined (messages incrementals : List MDPMarketUpdate) (o : FeedOrders) : FeedOrders :=
  let o := messages.foldl (fun o m => o.applySnapshot m.meMarketUpdate) o
  match messages.getLast? with
  | none => o
  | some last =>
    (incrementals.filter fun m => last.meMarketUpdate.orderId < m.seqNum).foldl
      (fun o m => o.applyIncremental m.meMarketUpdate) o

theorem getLast?_snapshotMessages (s : SnapshotSynthesizer) : ∃ n,
    s.snapshotMessages.getLast? = some ⟨n, endUpdate s.lastIncSeqNum⟩ := by
  rw [snapshotMessages, snapshotUpdates, snapshotOf, MarketDataPublisher.numbered_append]
  exact ⟨_, List.getLast?_concat⟩

/-- The updates that are numbered behind the first `n`. -/
theorem filter_numbered (published later : List MEMarketUpdate)
    (h : published.length + later.length < UInt64.size) :
    (MarketDataPublisher.numbered 1 (published ++ later)).filter
      (fun m => UInt64.ofNat published.length < m.seqNum) =
        MarketDataPublisher.numbered (1 + .ofNat published.length) later := by
  have hlast : (UInt64.ofNat published.length).toNat = published.length := by
    rw [UInt64.toNat_ofNat']
    exact Nat.mod_eq_of_lt (show published.length < UInt64.size by omega)
  have hone : (1 : UInt64).toNat = 1 := rfl
  rw [MarketDataPublisher.numbered_append, List.filter_append, List.filter_eq_nil_iff.2,
    List.nil_append]
  · rcases later with _ | ⟨u, later⟩
    · rfl
    · rw [List.length_cons] at h
      have hnext : (1 + UInt64.ofNat published.length).toNat = 1 + published.length := by
        rw [UInt64.toNat_add, hlast, hone]
        exact Nat.mod_eq_of_lt (show 1 + published.length < UInt64.size by omega)
      refine List.filter_eq_self.2 fun m hm => ?_
      have hbounds := MarketDataPublisher.seqNum_of_mem_numbered
        (by rw [hnext, List.length_cons]; omega) hm
      rw [hnext] at hbounds
      rw [decide_eq_true_eq, UInt64.lt_iff_toNat_lt, hlast]
      omega
  · intro m hm
    have hbounds := MarketDataPublisher.seqNum_of_mem_numbered (by rw [hone]; omega) hm
    rw [hone] at hbounds
    rw [decide_eq_true_eq, UInt64.lt_iff_toNat_lt, hlast]
    omega

/-- **Late joiners**: once the synthesizer has the orders of what was published, a snapshot of it
and the updates numbered behind it are the whole feed. -/
theorem joined_eq {s : SnapshotSynthesizer} (hk : Keyed s.orders)
    {published later : List MEMarketUpdate} (horders : s.orders = FeedOrders.ofFeed published)
    (hlast : s.lastIncSeqNum = .ofNat published.length)
    (hlen : published.length + later.length < UInt64.size) {o : FeedOrders} (ho : o.InTickers) :
    joined s.snapshotMessages (MarketDataPublisher.numbered 1 (published ++ later)) o =
      FeedOrders.ofFeed (published ++ later) := by
  obtain ⟨n, hend⟩ := s.getLast?_snapshotMessages
  have hsnapshot : s.snapshotMessages.foldl (fun o m => o.applySnapshot m.meMarketUpdate) o =
      s.orders := by
    rw [← foldl_snapshotUpdates hk ho, ← MarketDataPublisher.map_meMarketUpdate_numbered 0
      s.snapshotUpdates, List.foldl_map]
    rfl
  have hlater : (MarketDataPublisher.numbered (1 + .ofNat published.length) later).foldl
      (fun o m => o.applyIncremental m.meMarketUpdate) s.orders =
        later.foldl FeedOrders.applyIncremental s.orders := by
    conv_rhs => rw [← MarketDataPublisher.map_meMarketUpdate_numbered
      (1 + .ofNat published.length) later, List.foldl_map]
  rw [joined, hend, hsnapshot]
  dsimp only [endUpdate]
  rw [hlast, filter_numbered published later hlen, hlater, horders, FeedOrders.ofFeed,
    FeedOrders.ofFeed, List.foldl_append]

/-- What was published, numbered from one, has been added. -/
theorem kept_of_foldlM (published : List MEMarketUpdate) {s : SnapshotSynthesizer}
    (h : (MarketDataPublisher.numbered 1 published).foldlM SnapshotSynthesizer.addToSnapshot init =
      .ok s) : s.Kept ∧ s.orders = FeedOrders.ofFeed published ∧
        s.lastIncSeqNum = .ofNat published.length := by
  induction published using List.reverseRecOn generalizing s with
  | nil =>
    obtain rfl := Except.ok.inj h
    exact ⟨kept_init, rfl, rfl⟩
  | append_singleton published u ih =>
    rw [MarketDataPublisher.numbered_append, List.foldlM_append] at h
    obtain ⟨s', hs', h⟩ := bind_eq_ok.1 h
    obtain ⟨hkept, horders, hlast⟩ := ih hs'
    obtain ⟨s'', hadd, h⟩ := bind_eq_ok.1 h
    obtain rfl := Except.ok.inj h
    obtain ⟨hkept', horders', hn, hlast'⟩ := hkept.addToSnapshot hadd
    refine ⟨hkept', ?_, ?_⟩
    · rw [horders', horders, FeedOrders.ofFeed, FeedOrders.ofFeed, List.foldl_append]
      rfl
    · rw [hlast', hn, hlast, List.length_append, UInt64.ofNat_add]
      rfl

/-- **What the hand-over is for**: if what was published had been added under its numbers, a
snapshot would serve every late joiner. -/
theorem joined_of_foldlM {published later : List MEMarketUpdate} {s : SnapshotSynthesizer}
    (h : (MarketDataPublisher.numbered 1 published).foldlM SnapshotSynthesizer.addToSnapshot init =
      .ok s) (hlen : published.length + later.length < UInt64.size) {o : FeedOrders}
    (ho : o.InTickers) : joined s.snapshotMessages
      (MarketDataPublisher.numbered 1 (published ++ later)) o =
        FeedOrders.ofFeed (published ++ later) := by
  obtain ⟨hkept, horders, hlast⟩ := kept_of_foldlM published h
  exact joined_eq hkept.keyed horders hlast hlen ho

end SnapshotSynthesizer
end Exchange
end TradingEcosystem
