import TradingEcosystem.Exchange.Snapshot
import TradingEcosystem.Lib.TwoRuns

/-!
# The synthesizer is a table of orders

What `SnapshotSynthesizer` does with any calls, without its pool and its pointers.  `FeedTable` is
the orders of the feed, by ticker and order id, with the two numbers that decide when a call fails:
the adds that were taken, since the pool never gives a block out twice, and the last sequence
number.  `FeedTable.publish` is what a snapshot says of it, and it cannot fail.

`Tables` is how a synthesizer stands for a table, and `refines_feedTable` the whole run: the same
snapshots with the same messages, and the same fault at the same call.
-/

set_option autoImplicit false

namespace TradingEcosystem
namespace Exchange

open TwoRuns Codec

/-- What the thread of the synthesizer does next. -/
inductive SynthesizerCall where
  | addToSnapshot (marketUpdate : MDPMarketUpdate)
  | publishSnapshot

/-- The synthesizer with its socket, and the datagrams it has sent. -/
structure SynthesizerRun where
  synthesizer : SnapshotSynthesizer := .init
  snapshotSocket : MulticastSocket := {}
  datagrams : List (List UInt8) := []

namespace SynthesizerRun

/-- One call. -/
def step (x : SynthesizerRun) : SynthesizerCall → Except Fault SynthesizerRun
  | .addToSnapshot m => do
    let synthesizer ← x.synthesizer.addToSnapshot m
    return { x with synthesizer := synthesizer }
  | .publishSnapshot => do
    let (snapshotSocket, datagrams) ← x.synthesizer.publishSnapshot x.snapshotSocket
    return { x with snapshotSocket := snapshotSocket, datagrams := x.datagrams ++ datagrams }

def run (x : SynthesizerRun) (calls : List SynthesizerCall) : Except Fault SynthesizerRun :=
  calls.foldlM step x

end SynthesizerRun

/-- **The orders of a feed**, as the synthesizer has them. -/
structure FeedTable where
  orders : FeedOrders := .none
  /-- The adds that were taken, whether their orders are still there or not. -/
  added : Nat := 0
  lastIncSeqNum : UInt64 := 0

namespace FeedTable

/-- The order a `MODIFY` or a `CANCEL` is about, if there is one on its side. -/
def checkedOrder (t : FeedTable) (u : MEMarketUpdate) : Except Fault MEMarketUpdate :=
  match t.orders u.tickerId u.orderId with
  | none => .error (.assertFailed ("Recieved: + " ++ u.toString ++ " but order does not exist."))
  | some o =>
    if o.side = u.side then .ok o
    else .error (.assertFailed "Market update side does not match order side")

/-- The place of an update is in the table. -/
def HasPlace (u : MEMarketUpdate) : Prop :=
  u.tickerId.toNat < meMaxTickers ∧ u.orderId.toNat < meMaxOrderIds

instance (u : MEMarketUpdate) : Decidable (HasPlace u) := inferInstanceAs (Decidable (_ ∧ _))

/-- An `ADD` wants a free place, and that fewer adds were taken than there are blocks to spare. -/
def add (t : FeedTable) (u : MEMarketUpdate) : Except Fault FeedTable :=
  match t.orders u.tickerId u.orderId with
  | some o => .error (.assertFailed ("Recieved: + " ++ u.toString ++ " but order already exists:" ++
      o.toString))
  | none =>
    if t.added + 1 < meMaxOrderIds then
      .ok { t with orders := t.orders.set u.tickerId u.orderId (some u), added := t.added + 1 }
    else .error .badIndex

/-- What an update does to the orders. -/
def applyUpdate (t : FeedTable) (u : MEMarketUpdate) : Except Fault FeedTable :=
  match u.type with
  | .add => if HasPlace u then t.add u else .error .outOfRange
  | .modify =>
    if HasPlace u then do
      let o ← t.checkedOrder u
      let o' := { o with qty := u.qty, price := u.price }
      return { t with orders := t.orders.set u.tickerId u.orderId (some o') }
    else .error .outOfRange
  | .cancel =>
    if HasPlace u then do
      let _ ← t.checkedOrder u
      return { t with orders := t.orders.set u.tickerId u.orderId none }
    else .error .outOfRange
  | _ => if u.tickerId.toNat < meMaxTickers then .ok t else .error .outOfRange

/-- An update that came with a number. -/
def addToSnapshot (t : FeedTable) (m : MDPMarketUpdate) : Except Fault FeedTable := do
  let t' ← t.applyUpdate m.meMarketUpdate
  if m.seqNum = t.lastIncSeqNum + 1 then return { t' with lastIncSeqNum := m.seqNum }
  else .error (.assertFailed "Expected incremental seq number to increase.")

/-- What a snapshot says: every ticker cleared, with its orders by their ids behind it. -/
def snapshot (t : FeedTable) : List MEMarketUpdate := snapshotOf t.lastIncSeqNum t.orders.ofTicker

end FeedTable

/-- A table, and the messages of the snapshots there were of it. -/
structure FeedTableRun where
  table : FeedTable := {}
  published : List MDPMarketUpdate := []

namespace FeedTableRun

/-- One call.  The messages of a snapshot are numbered from 0. -/
def step (x : FeedTableRun) : SynthesizerCall → Except Fault FeedTableRun
  | .addToSnapshot m => do
    let table ← x.table.addToSnapshot m
    return { x with table := table }
  | .publishSnapshot => .ok { x with
      published := x.published ++ MarketDataPublisher.numbered 0 x.table.snapshot }

def run (x : FeedTableRun) (calls : List SynthesizerCall) : Except Fault FeedTableRun :=
  calls.foldlM step x

end FeedTableRun

/-! ## The table of a synthesizer -/

namespace SnapshotSynthesizer

/-- **The synthesizer has the orders of the table**, and the numbers that go with them. -/
structure Tables (s : SnapshotSynthesizer) (t : FeedTable) : Prop where
  kept : s.Kept
  orders : s.orders = t.orders
  added : s.orderPool.nextFreeIndex = t.added
  lastIncSeqNum : s.lastIncSeqNum = t.lastIncSeqNum

theorem tables_init : Tables init {} := ⟨kept_init, rfl, rfl, rfl⟩

variable {s s' : SnapshotSynthesizer} {t : FeedTable} {u : MEMarketUpdate}

/-- The entry of a place, as the two have it. -/
theorem Tables.entry (h : s.Tables t) (ticker : TickerId) (k : OrderId) :
    t.orders ticker k = (s.ordersPerTicker ticker k).map s.orderPool.get := by
  rw [← h.orders]
  rfl

theorem Tables.room_iff (h : s.Tables t) : s.orderPool.Room ↔ t.added + 1 < meMaxOrderIds := by
  rw [MemPool.Room, h.kept.sound.size, h.added]

theorem orderAt_of_hasPlace (hb : FeedTable.HasPlace u) :
    s.orderAt u.tickerId u.orderId = .ok (s.ordersPerTicker u.tickerId u.orderId) := if_pos hb

theorem orderAt_of_not_hasPlace (hb : ¬ FeedTable.HasPlace u) :
    s.orderAt u.tickerId u.orderId = .error .outOfRange := if_neg hb

/-- **The three assertions** come out as the two of the table: the order in a place always has the
id of the place. -/
theorem Tables.checkedOrder (h : s.Tables t) (hb : FeedTable.HasPlace u) :
    Agree (fun p o => s.checkedOrder u = .ok p ∧ o = s.orderPool.get p)
      (s.checkedOrder u) (t.checkedOrder u) := by
  have hentry := h.entry u.tickerId u.orderId
  rw [FeedTable.checkedOrder, hentry]
  cases hp : s.ordersPerTicker u.tickerId u.orderId with
  | none =>
    rw [SnapshotSynthesizer.checkedOrder, orderAt_of_hasPlace hb, ok_bind, hp]
    exact rfl
  | some p =>
    have hid := (h.kept.sound.entries _ _ p hp).2.2
    by_cases hside : (s.orderPool.get p).side = u.side
    · have hok : s.checkedOrder u = .ok p := checkedOrder_eq_ok.2 ⟨hb, hp, hid, hside⟩
      rw [hok]
      simp only [Option.map_some, if_pos hside]
      exact ⟨rfl, rfl⟩
    · rw [SnapshotSynthesizer.checkedOrder, orderAt_of_hasPlace hb, ok_bind, hp,
        assert_of (Option.some_ne_none p), ok_bind, nonNull_some, ok_bind, assert_of hid, ok_bind,
        assert, if_neg hside, error_bind]
      simp only [Option.map_some, if_neg hside]
      exact rfl

/-! ## One update -/

theorem Tables.add (h : s.Tables t) (hu : u.type = .add) :
    Agree Tables (s.applyUpdate u) (t.applyUpdate u) := by
  have htable : t.applyUpdate u = if FeedTable.HasPlace u then t.add u else .error .outOfRange := by
    rw [FeedTable.applyUpdate, hu]
  rw [htable]
  by_cases hb : FeedTable.HasPlace u
  · rw [if_pos hb, FeedTable.add, h.entry]
    cases hp : s.ordersPerTicker u.tickerId u.orderId with
    | some p =>
      rw [SnapshotSynthesizer.applyUpdate, hu]
      dsimp only
      rw [orderAt_of_hasPlace hb, ok_bind, hp, assert, if_neg (Option.some_ne_none p), error_bind]
      exact rfl
    | none =>
      by_cases hroom : s.orderPool.Room
      · have hok : s.applyUpdate u = .ok
            { s.setOrder u.tickerId u.orderId (some s.orderPool.nextFreeIndex) with
              orderPool := s.orderPool.push u } :=
          (applyUpdate_add h.kept.sound.frontier hu).2 ⟨hb, hp, hroom, rfl⟩
        obtain ⟨hkept, horders⟩ := h.kept.add hu hok rfl
        rw [hok]
        simp only [Option.map_none, if_pos (h.room_iff.1 hroom)]
        refine ⟨hkept, ?_, congrArg (· + 1) h.added, h.lastIncSeqNum⟩
        rw [horders, h.orders, FeedOrders.applyIncremental, hu]
      · rw [SnapshotSynthesizer.applyUpdate, hu]
        dsimp only
        rw [orderAt_of_hasPlace hb, ok_bind, hp, assert_of rfl, ok_bind,
          MemPool.allocate_full h.kept.sound.frontier hroom, error_bind]
        simp only [Option.map_none, if_neg fun hr => hroom (h.room_iff.2 hr)]
        exact rfl
  · rw [if_neg hb, SnapshotSynthesizer.applyUpdate, hu]
    dsimp only
    rw [orderAt_of_not_hasPlace hb, error_bind]
    exact rfl

theorem checkedOrder_of_not_hasPlace (hb : ¬ FeedTable.HasPlace u) :
    s.checkedOrder u = .error .outOfRange := by
  rw [SnapshotSynthesizer.checkedOrder, orderAt_of_not_hasPlace hb, error_bind]

theorem Tables.modify (h : s.Tables t) (hu : u.type = .modify) :
    Agree Tables (s.applyUpdate u) (t.applyUpdate u) := by
  rw [SnapshotSynthesizer.applyUpdate, FeedTable.applyUpdate, hu]
  dsimp only
  by_cases hb : FeedTable.HasPlace u
  · rw [if_pos hb]
    refine (h.checkedOrder hb).bind fun p o hpo => ?_
    obtain ⟨hchecked, rfl⟩ := hpo
    obtain ⟨-, hp, hid, hside⟩ := checkedOrder_eq_ok.1 hchecked
    obtain ⟨hkept, horders⟩ := h.kept.modify hu
      ((applyUpdate_modify hu).2 ⟨p, hb, hp, hid, hside, rfl⟩) rfl
    refine ⟨hkept, ?_, h.added, h.lastIncSeqNum⟩
    rw [horders, FeedOrders.applyIncremental, hu]
    dsimp only
    rw [h.orders, h.entry, hp]
    rfl
  · rw [if_neg hb, checkedOrder_of_not_hasPlace hb, error_bind]
    exact rfl

theorem Tables.cancel (h : s.Tables t) (hu : u.type = .cancel) :
    Agree Tables (s.applyUpdate u) (t.applyUpdate u) := by
  have hlive : ∀ p, s.ordersPerTicker u.tickerId u.orderId = some p →
      s.orderPool.Live p ∧ p < s.orderPool.size := fun p hp =>
    have hentry := (h.kept.sound.entries _ _ p hp).1
    ⟨hentry, h.kept.sound.lt_size hentry⟩
  rw [SnapshotSynthesizer.applyUpdate, FeedTable.applyUpdate, hu]
  dsimp only
  by_cases hb : FeedTable.HasPlace u
  · rw [if_pos hb]
    refine (h.checkedOrder hb).bind fun p o hpo => ?_
    obtain ⟨-, hp, hid, hside⟩ := checkedOrder_eq_ok.1 hpo.1
    obtain ⟨hkept, horders⟩ := h.kept.cancel hu
      ((applyUpdate_cancel hu hlive).2 ⟨p, hb, hp, hid, hside, rfl⟩) rfl
    obtain ⟨hl, hlt⟩ := hlive p hp
    rw [MemPool.deallocate_eq hl hlt, ok_bind]
    refine ⟨hkept, ?_, h.added, h.lastIncSeqNum⟩
    rw [horders, FeedOrders.applyIncremental, hu, h.orders]
  · rw [if_neg hb, checkedOrder_of_not_hasPlace hb, error_bind]
    exact rfl

theorem Tables.applyUpdate (h : s.Tables t) (u : MEMarketUpdate) :
    Agree Tables (s.applyUpdate u) (t.applyUpdate u) := by
  by_cases hadd : u.type = .add
  · exact h.add hadd
  by_cases hmodify : u.type = .modify
  · exact h.modify hmodify
  by_cases hcancel : u.type = .cancel
  · exact h.cancel hcancel
  have hcode : s.applyUpdate u =
      if u.tickerId.toNat < meMaxTickers then .ok s else .error .outOfRange := by
    rw [SnapshotSynthesizer.applyUpdate]
    split
    · contradiction
    · contradiction
    · contradiction
    · rfl
  have htable : t.applyUpdate u =
      if u.tickerId.toNat < meMaxTickers then .ok t else .error .outOfRange := by
    rw [FeedTable.applyUpdate]
    split
    · contradiction
    · contradiction
    · contradiction
    · rfl
  rw [hcode, htable]
  exact Agree.ite Iff.rfl (fun _ => h) fun _ => rfl

theorem Tables.addToSnapshot (h : s.Tables t) (m : MDPMarketUpdate) :
    Agree Tables (s.addToSnapshot m) (t.addToSnapshot m) := by
  rw [SnapshotSynthesizer.addToSnapshot, FeedTable.addToSnapshot, h.lastIncSeqNum]
  refine (h.applyUpdate m.meMarketUpdate).bind fun c d hcd => ?_
  rw [assert]
  split
  · exact ⟨⟨⟨hcd.kept.sound.entries, hcd.kept.sound.frontier, hcd.kept.sound.size,
      hcd.kept.sound.next⟩, hcd.kept.keyed⟩, hcd.orders, hcd.added, rfl⟩
  · exact rfl

/-! ## A snapshot -/

/-- The synthesizer says what the table says. -/
theorem Tables.snapshotMessages (h : s.Tables t) :
    s.snapshotMessages = MarketDataPublisher.numbered 0 t.snapshot := by
  have hordersOf : s.ordersOf = s.orders.ofTicker := rfl
  rw [SnapshotSynthesizer.snapshotMessages, snapshotUpdates, hordersOf, h.orders, h.lastIncSeqNum,
    FeedTable.snapshot]

end SnapshotSynthesizer

/-! ## Whole runs -/

namespace SynthesizerRun

/-- The two runs are at the same place: the synthesizer has the table, nothing is left in its socket
and its datagrams are the messages that were published. -/
structure Follows (x : SynthesizerRun) (y : FeedTableRun) : Prop where
  tables : x.synthesizer.Tables y.table
  socket : x.snapshotSocket.outboundData = []
  messages : mdpMarketUpdateCodec.chunks x.datagrams.flatten = (y.published, [])

theorem follows_start : Follows {} {} := ⟨SnapshotSynthesizer.tables_init, rfl, rfl⟩

variable {x : SynthesizerRun} {y : FeedTableRun}

/-- One call of the two. -/
theorem Follows.next (h : x.Follows y) (call : SynthesizerCall) :
    Agree Follows (x.step call) (y.step call) := by
  cases call with
  | addToSnapshot m =>
    exact (h.tables.addToSnapshot m).bind fun s t hst => ⟨hst, h.socket, h.messages⟩
  | publishSnapshot =>
    obtain ⟨socket, datagrams, hsent⟩ := x.synthesizer.publishSnapshot_returns h.socket
    obtain ⟨hchunks, hsocket⟩ := SnapshotSynthesizer.publishSnapshot_eq_ok h.socket hsent
    rw [step, hsent, ok_bind]
    refine ⟨h.tables, hsocket, ?_⟩
    dsimp only
    rw [List.flatten_append, chunks_append_bytes _ (by decide), h.messages, List.nil_append, hchunks,
      h.tables.snapshotMessages]

/-- **The synthesizer refines a table of the orders of the feed**, whatever it is told and whenever
it publishes: the same fault at the same call, or the same orders and the same snapshots. -/
theorem refines_feedTable (calls : List SynthesizerCall) :
    Agree Follows (({} : SynthesizerRun).run calls) (({} : FeedTableRun).run calls) :=
  Agree.foldlM (fun _ _ call h => h.next call) follows_start calls

end SynthesizerRun
end Exchange
end TradingEcosystem
