import TradingEcosystem.Common.LFQueue
import TradingEcosystem.Exchange.FIFOSequencer
import TradingEcosystem.Exchange.Snapshot

/-!
# From the publisher to the synthesizer

`MarketDataPublisher::run` and `SnapshotSynthesizer::run` with the queue between them.  The
publisher numbers the updates it drains and sends them; the lines behind the sending, which are to
put each update with its number into the queue of the synthesizer, are commented out in the
source.  The synthesizer's own loop ends before its first round, too: `SnapshotSynthesizer::start`
never sets `is_running`.  Its steps here are those of the body, as if the loop went on.

`UpToDate` is what the queue is for: when it is empty, the synthesizer has the number and the orders
of what was published and a snapshot serves late joiners.  `joined_of_foldlM` says that the
synthesizer would do its part; `along_keepsUp_iff` that without the hand-over the stream keeps up
only while there is nothing to publish.
-/

set_option autoImplicit false

namespace TradingEcosystem
namespace Exchange

open Run Codec

/-- `NANOS_TO_SECS`. -/
def nanosToSecs : Nanos := 1000 * 1000 * 1000

/-- The two threads, and what has been published. -/
structure SnapshotStream where
  publisher : MarketDataPublisher := {}
  snapshotUpdates : LFQueue MDPMarketUpdate := .init meMaxMarketUpdates { meMarketUpdate := {} }
  synthesizer : SnapshotSynthesizer := .init
  snapshotSocket : MulticastSocket := {}
  lastSnapshotTime : Nanos := 0
  published : List MEMarketUpdate := []

/-- What one of the threads does next. -/
inductive StreamEvent where
  /-- The publisher drains this update. -/
  | drained (marketUpdate : MEMarketUpdate)
  /-- The publisher sends what it has drained. -/
  | sendAndRecv
  /-- The synthesizer looks into its queue. -/
  | processed
  /-- The synthesizer looks at the clock, and again if a snapshot is due. -/
  | elapsed (now now' : Nanos)

namespace SnapshotStream

/-- The body of the loop of `MarketDataPublisher::run`. -/
def drainUpdate (x : SnapshotStream) (marketUpdate : MEMarketUpdate) :
    Except Fault SnapshotStream := do
  let publisher ← x.publisher.sendUpdate marketUpdate
  -- the lines that write to `snapshot_updates_` are commented out
  return { x with publisher := publisher, published := x.published ++ [marketUpdate] }

/-- The body of the loop of `SnapshotSynthesizer::run` over its queue. -/
def processUpdate (x : SnapshotStream) : Except Fault SnapshotStream :=
  match x.snapshotUpdates.getNextToRead with
  | none => .ok x
  | some i =>
    if x.snapshotUpdates.storeSize = 0 then .ok x
    else do
      let synthesizer ← x.synthesizer.addToSnapshot (x.snapshotUpdates.store i)
      let snapshotUpdates ← x.snapshotUpdates.updateReadIndex
      return { x with synthesizer := synthesizer, snapshotUpdates := snapshotUpdates }

/-- One event. -/
def step (x : SnapshotStream) : StreamEvent → Except Fault SnapshotStream
  | .drained u => x.drainUpdate u
  | .sendAndRecv => .ok { x with
      publisher := { x.publisher with incrementalSocket := x.publisher.incrementalSocket.flush.1 } }
  | .processed => x.processUpdate
  | .elapsed now now' =>
    if now - x.lastSnapshotTime > 60 * nanosToSecs then do
      let sent ← x.synthesizer.publishSnapshot x.snapshotSocket
      return { x with snapshotSocket := sent.1, lastSnapshotTime := now' }
    else .ok x

def Next (x : SnapshotStream) (e : StreamEvent) (x' : SnapshotStream) : Prop := x.step e = .ok x'

/-- The update that was drained is in the queue, under the number it was sent with. -/
def HandsOver (x : SnapshotStream) (e : StreamEvent) (x' : SnapshotStream) : Prop :=
  match e with
  | .drained u => x'.snapshotUpdates = x.snapshotUpdates.push ⟨x.publisher.nextIncSeqNum, u⟩
  | _ => True

/-- **What the queue is for**: the synthesizer is where the publisher is, and a reader that has
anything of these tickers, takes a snapshot and then the updates numbered behind it has the orders
of the whole feed, as long as the numbers do not wrap. -/
structure UpToDate (x : SnapshotStream) : Prop where
  lastIncSeqNum : x.synthesizer.lastIncSeqNum = x.publisher.nextIncSeqNum - 1
  orders : x.synthesizer.orders = FeedOrders.ofFeed x.published
  joins : ∃ socket datagrams,
    x.synthesizer.publishSnapshot x.snapshotSocket = .ok (socket, datagrams) ∧
    ∀ later : List MEMarketUpdate, x.published.length + later.length < UInt64.size →
      ∀ o : FeedOrders, o.InTickers →
        SnapshotSynthesizer.joined (mdpMarketUpdateCodec.chunks datagrams.flatten).1
          (MarketDataPublisher.numbered 1 (x.published ++ later)) o =
            FeedOrders.ofFeed (x.published ++ later)

/-- The event happens, what is drained is handed over, and with an empty queue the synthesizer is up
to date. -/
def KeepsUp (x : SnapshotStream) (e : StreamEvent) : Prop :=
  ∃ x', x.Next e x' ∧ x.HandsOver e x' ∧
    (x'.snapshotUpdates.getNextToRead = none → x'.UpToDate)

variable {x x' : SnapshotStream}

/-- With everything that was published added under its number, the synthesizer is up to date. -/
theorem upToDate_of_foldlM (h : (MarketDataPublisher.numbered 1 x.published).foldlM
      SnapshotSynthesizer.addToSnapshot .init = .ok x.synthesizer)
    (hnext : x.publisher.nextIncSeqNum = .ofNat x.published.length + 1)
    (hsocket : x.snapshotSocket.outboundData = []) {sent : MulticastSocket × List (List UInt8)}
    (hsent : x.synthesizer.publishSnapshot x.snapshotSocket = .ok sent) : x.UpToDate := by
  obtain ⟨-, horders, hlast⟩ := SnapshotSynthesizer.kept_of_foldlM x.published h
  refine ⟨?_, horders, sent.1, sent.2, hsent, fun later hlen o ho => ?_⟩
  · rw [hlast, hnext, UInt64.add_sub_cancel]
  · rw [(SnapshotSynthesizer.publishSnapshot_eq_ok hsocket hsent).1]
    exact SnapshotSynthesizer.joined_of_foldlM h hlen ho

/-! ## Without the hand-over -/

/-- Nothing has been drained. -/
structure Fresh (x : SnapshotStream) : Prop where
  nextIncSeqNum : x.publisher.nextIncSeqNum = 1
  snapshotUpdates : x.snapshotUpdates = .init meMaxMarketUpdates { meMarketUpdate := {} }
  synthesizer : x.synthesizer = .init
  snapshotSocket : x.snapshotSocket.outboundData = []
  published : x.published = []

theorem fresh_start : ({} : SnapshotStream).Fresh := ⟨rfl, rfl, rfl, rfl, rfl⟩

/-- A snapshot of nothing is sent. -/
theorem Fresh.publishSnapshot (h : x.Fresh) :
    ∃ sent, x.synthesizer.publishSnapshot x.snapshotSocket = .ok sent := by
  obtain ⟨socket, datagrams, hsent⟩ := x.synthesizer.publishSnapshot_returns h.snapshotSocket
  exact ⟨(socket, datagrams), hsent⟩

theorem Fresh.upToDate (h : x.Fresh) : x.UpToDate := by
  obtain ⟨sent, hsent⟩ := h.publishSnapshot
  refine upToDate_of_foldlM ?_ ?_ h.snapshotSocket hsent
  · rw [h.published, h.synthesizer]
    rfl
  · rw [h.published, h.nextIncSeqNum]
    rfl

/-- Whatever else happens, nothing changes that matters. -/
theorem Fresh.step (h : x.Fresh) {e : StreamEvent} (he : ∀ u, e ≠ .drained u) :
    ∃ x', x.Next e x' ∧ x'.Fresh := by
  cases e with
  | drained u => exact absurd rfl (he u)
  | sendAndRecv => exact ⟨_, rfl, { h with }⟩
  | processed =>
    refine ⟨x, ?_, h⟩
    rw [Next, SnapshotStream.step, processUpdate, h.snapshotUpdates]
    rfl
  | elapsed now now' =>
    by_cases hdue : now - x.lastSnapshotTime > 60 * nanosToSecs
    · obtain ⟨sent, hsent⟩ := h.publishSnapshot
      refine ⟨{ x with snapshotSocket := sent.1, lastSnapshotTime := now' }, ?_, { h with
        snapshotSocket := (SnapshotSynthesizer.publishSnapshot_eq_ok h.snapshotSocket hsent).2 }⟩
      rw [Next, SnapshotStream.step, if_pos hdue, hsent]
      rfl
    · exact ⟨x, if_neg hdue, h⟩

theorem Fresh.keepsUp (h : x.Fresh) {e : StreamEvent} (he : ∀ u, e ≠ .drained u) :
    x.KeepsUp e := by
  obtain ⟨x', hnext, hfresh⟩ := h.step he
  refine ⟨x', hnext, ?_, fun _ => hfresh.upToDate⟩
  cases e with
  | drained u => exact absurd rfl (he u)
  | sendAndRecv => trivial
  | processed => trivial
  | elapsed now now' => trivial

/-- What is drained is not handed over. -/
theorem Fresh.not_keepsUp (h : x.Fresh) (u : MEMarketUpdate) : ¬ x.KeepsUp (.drained u) := by
  rintro ⟨x', hnext, hhands, -⟩
  obtain ⟨publisher, -, hnext⟩ := bind_eq_ok.1 hnext
  obtain rfl := Except.ok.inj hnext
  have hwrite := congrArg LFQueue.nextWriteIndex hhands
  dsimp only at hwrite
  rw [h.snapshotUpdates] at hwrite
  have hne : 0 ≠ (0 + 1) % meMaxMarketUpdates.toNat := by decide
  exact hne hwrite

theorem Fresh.along_iff (h : x.Fresh) (events : List StreamEvent) :
    Along Next KeepsUp x events ↔ ∀ u, StreamEvent.drained u ∉ events := by
  induction events generalizing x with
  | nil => exact iff_of_true trivial fun _ => List.not_mem_nil
  | cons e events ih =>
    rw [along_cons]
    by_cases he : ∃ u, e = .drained u
    · obtain ⟨u, rfl⟩ := he
      exact iff_of_false (fun hk => h.not_keepsUp u hk.1) fun hn => hn u List.mem_cons_self
    · have hother : ∀ u, e ≠ .drained u := fun u hu => he ⟨u, hu⟩
      obtain ⟨x', hnext, hfresh⟩ := h.step hother
      have hrest : (∀ x'', x.Next e x'' → Along Next KeepsUp x'' events) ↔
          Along Next KeepsUp x' events :=
        ⟨fun hall => hall x' hnext, fun hx x'' hx'' => Except.ok.inj (hnext.symm.trans hx'') ▸ hx⟩
      rw [hrest, ih hfresh]
      refine ⟨fun hk u hmem => ?_, fun hn => ⟨h.keepsUp hother, fun u hmem => ?_⟩⟩
      · exact (List.mem_cons.1 hmem).elim (fun hu => hother u hu.symm) (hk.2 u)
      · exact hn u (List.mem_cons_of_mem _ hmem)

/-- **The snapshot stream keeps up** exactly as long as nothing is published. -/
theorem along_keepsUp_iff (events : List StreamEvent) :
    Along Next KeepsUp {} events ↔ ∀ u, StreamEvent.drained u ∉ events :=
  fresh_start.along_iff events

/-- The first order of a day is sent, and the synthesizer never sees it. -/
theorem not_along_keepsUp : ¬ ∀ events, Along Next KeepsUp {} events :=
  fun h => fresh_start.not_keepsUp { type := .add, orderId := 1, tickerId := 0 }
    (h [.drained { type := .add, orderId := 1, tickerId := 0 }]).1

end SnapshotStream
end Exchange
end TradingEcosystem
