import TradingEcosystem.Trading.RecoveryMode

/-!
# What reaches the trading queue

The consumer writes to the queue of the trade engine at two places: outside of recovery, the
incremental it just received, and at the end of `checkSnapshotSync`, what it recovered.
`handleRequestWriting` is `handleRequest` with a record of what is written at which place, and
`GapFree` is what the reader of the queue may rely on: the incrementals count up one by one, and a
batch is a whole snapshot with the incrementals that follow it.

The batch clause is kept although no batch is ever written (`checkSnapshotSync_stays`): it is what
the rest of the statement would have to rest on if recovery ended.
-/

set_option autoImplicit false

namespace TradingEcosystem
namespace Trading

open Run Codec

/-- What a piece of code puts into the trading queue. -/
inductive Written where
  /-- By the loop of `recvCallback`, outside of recovery. -/
  | incremental (isSnapshot : Bool) (nextUpdateSeqNum : UInt64) (request : MDPMarketUpdate)
  /-- By `checkSnapshotSync`, when these are the two queues. -/
  | batch (snapshot incremental : QueuedMarketUpdates) (updates : List MEMarketUpdate)

/-- The updates themselves. -/
def Written.updates : Written → List MEMarketUpdate
  | .incremental _ _ request => [request.meMarketUpdate]
  | .batch _ _ updates => updates

/-- **No gap** in what is written from number `n` on: an incremental carries the number
`next_update_seq_num_` has when it is written, which is one more than that of the one before; a
batch is empty or makes up for a whole recovery. -/
def GapFree : UInt64 → List Written → Prop
  | _, [] => True
  | n, .incremental isSnapshot nextUpdateSeqNum request :: rest =>
    isSnapshot = false ∧ nextUpdateSeqNum = n ∧ request.seqNum = n ∧ GapFree (n + 1) rest
  | n, .batch snapshot incremental updates :: rest =>
    (updates = [] ∨ ∃ first last inner later,
      MarketDataConsumer.Completes snapshot incremental first last inner later ∧
        updates = inner ++ later) ∧
    GapFree n rest

namespace MarketDataConsumer

/-! ## The functions with what they write -/

/-- `queueMessage`, before it calls `checkSnapshotSync`. -/
def queued (c : MarketDataConsumer) (isSnapshot : Bool) (request : MDPMarketUpdate) :
    MarketDataConsumer :=
  if isSnapshot then
    let queued :=
      if c.snapshotQueuedMarketUpdates.contains request.seqNum then ∅
      else c.snapshotQueuedMarketUpdates
    { c with snapshotQueuedMarketUpdates := queued.insert request.seqNum request.meMarketUpdate }
  else
    { c with incrementalQueuedMarketUpdates :=
        c.incrementalQueuedMarketUpdates.insert request.seqNum request.meMarketUpdate }

/-- The body of the loop of `recvCallback`, with what it writes. -/
def handleRequestWriting (c : MarketDataConsumer) (isSnapshot : Bool)
    (request : MDPMarketUpdate) : MarketDataConsumer × List Written :=
  let alreadyInRecoveryMode := c.inRecoveryMode
  let c := { c with
    inRecoveryMode := c.inRecoveryMode || request.seqNum ≠ c.nextUpdateSeqNum }
  if c.inRecoveryMode then
    let c := if alreadyInRecoveryMode then c.startSnapshotSync else c
    let c := c.queued isSnapshot request
    (c.checkSnapshotSync.1, [.batch c.snapshotQueuedMarketUpdates c.incrementalQueuedMarketUpdates
      c.checkSnapshotSync.2])
  else if !isSnapshot then
    ({ c with nextUpdateSeqNum := c.nextUpdateSeqNum + 1 },
      [.incremental isSnapshot c.nextUpdateSeqNum request])
  else (c, [])

/-- The messages of a callback one after the other, with what they write. -/
def handleAllWriting (c : MarketDataConsumer) (isSnapshot : Bool) :
    List MDPMarketUpdate → MarketDataConsumer × List Written
  | [] => (c, [])
  | request :: rest =>
    let (c, written) := c.handleRequestWriting isSnapshot request
    let (c, more) := c.handleAllWriting isSnapshot rest
    (c, written ++ more)

/-- Datagrams on the two feeds in the order of their arrival, and what all of them write. -/
def receiveAll (c : MarketDataConsumer) :
    List Datagram → Except Fault (MarketDataConsumer × List MEMarketUpdate)
  | [] => .ok (c, [])
  | d :: rest => do
    let (c, written) ← c.receive d
    let (c, more) ← c.receiveAll rest
    return (c, written ++ more)

/-- The same with the place of every write. -/
def receiveAllWriting (c : MarketDataConsumer) :
    List Datagram → Except Fault (MarketDataConsumer × List Written)
  | [] => .ok (c, [])
  | d :: rest => do
    let written := (c.handleAllWriting d.isSnapshot (c.requestsOf d)).2
    let (c, _) ← c.receive d
    let (c, more) ← c.receiveAllWriting rest
    return (c, written ++ more)

theorem queueMessage_eq (c : MarketDataConsumer) (isSnapshot : Bool) (request : MDPMarketUpdate) :
    c.queueMessage isSnapshot request = (c.queued isSnapshot request).checkSnapshotSync := rfl

theorem queued_inRecoveryMode (c : MarketDataConsumer) (isSnapshot : Bool)
    (request : MDPMarketUpdate) :
    (c.queued isSnapshot request).inRecoveryMode = c.inRecoveryMode := by
  cases isSnapshot <;> rfl

/-- **The record changes nothing**, and leaves nothing out. -/
theorem handleRequest_eq (c : MarketDataConsumer) (isSnapshot : Bool)
    (request : MDPMarketUpdate) : c.handleRequest isSnapshot request =
      ((c.handleRequestWriting isSnapshot request).1,
        (c.handleRequestWriting isSnapshot request).2.flatMap Written.updates) := by
  rw [handleRequest, handleRequestWriting]
  dsimp only
  split
  · simp [queueMessage_eq, Written.updates]
  · split
    · rfl
    · rfl

theorem handleAll_eq (c : MarketDataConsumer) (isSnapshot : Bool)
    (requests : List MDPMarketUpdate) : c.handleAll isSnapshot requests =
      ((c.handleAllWriting isSnapshot requests).1,
        (c.handleAllWriting isSnapshot requests).2.flatMap Written.updates) := by
  induction requests generalizing c with
  | nil => rfl
  | cons request rest ih =>
    rw [handleAll, handleAllWriting, handleRequest_eq]
    dsimp only
    rw [ih, List.flatMap_append]

/-! ## No gap -/

variable {c : MarketDataConsumer} {n : UInt64}

/-- What holds between two messages: outside of recovery the next number to be written is the one
the consumer waits for. -/
def Awaits (c : MarketDataConsumer) (n : UInt64) : Prop :=
  c.inRecoveryMode = false → c.nextUpdateSeqNum = n

/-- The number that comes next after what is written. -/
def following (n : UInt64) : List Written → UInt64
  | [] => n
  | .incremental _ _ _ :: rest => following (n + 1) rest
  | .batch _ _ _ :: rest => following n rest

theorem following_append (n : UInt64) (l l' : List Written) :
    following n (l ++ l') = following (following n l) l' := by
  induction l generalizing n with
  | nil => rfl
  | cons w l ih => cases w <;> exact ih _

theorem gapFree_append {l l' : List Written} (h : GapFree n l) (h' : GapFree (following n l) l') :
    GapFree n (l ++ l') := by
  induction l generalizing n with
  | nil => exact h'
  | cons w l ih =>
    cases w with
    | incremental isSnapshot nextUpdateSeqNum request =>
      obtain ⟨hfeed, hnext, hseq, hrest⟩ := h
      exact ⟨hfeed, hnext, hseq, ih hrest h'⟩
    | batch snapshot incremental updates => exact ⟨h.1, ih h.2 h'⟩

/-- **One message**: what it writes goes on where the consumer was. -/
theorem handleRequestWriting_gapFree (isSnapshot : Bool) (request : MDPMarketUpdate)
    (hc : c.Awaits n) :
    GapFree n (c.handleRequestWriting isSnapshot request).2 ∧
      (c.handleRequestWriting isSnapshot request).1.Awaits
        (following n (c.handleRequestWriting isSnapshot request).2) := by
  rw [handleRequestWriting]
  dsimp only
  by_cases hmode : (c.inRecoveryMode || decide (request.seqNum ≠ c.nextUpdateSeqNum)) = true
  · -- in recovery nothing is written, and recovery does not end
    rw [if_pos hmode]
    generalize hsync : (if c.inRecoveryMode = true then _ else _ : MarketDataConsumer) = d
    have hd : d.inRecoveryMode = true := by
      rw [← hsync]
      split <;> exact hmode
    obtain ⟨hnone, hstays⟩ := checkSnapshotSync_stays (d.queued isSnapshot request)
    refine ⟨⟨Or.inl hnone, trivial⟩, fun hout => ?_⟩
    rw [queued_inRecoveryMode, hd] at hstays
    exact absurd (hstays.symm.trans hout) (by decide)
  · rw [if_neg hmode]
    rw [Bool.not_eq_true, Bool.or_eq_false_iff, decide_eq_false_iff_not, not_not] at hmode
    obtain ⟨hout, hseq⟩ := hmode
    have hn : c.nextUpdateSeqNum = n := hc hout
    cases isSnapshot with
    | false => exact ⟨⟨rfl, hn, hseq.trans hn, trivial⟩, fun _ => congrArg (· + 1) hn⟩
    | true => exact ⟨trivial, fun _ => hn⟩

theorem handleAllWriting_gapFree (isSnapshot : Bool) (requests : List MDPMarketUpdate)
    (hc : c.Awaits n) :
    GapFree n (c.handleAllWriting isSnapshot requests).2 ∧
      (c.handleAllWriting isSnapshot requests).1.Awaits
        (following n (c.handleAllWriting isSnapshot requests).2) := by
  induction requests generalizing c n with
  | nil => exact ⟨trivial, hc⟩
  | cons request rest ih =>
    obtain ⟨hgap, hc'⟩ := handleRequestWriting_gapFree isSnapshot request hc
    obtain ⟨hrest, hlast⟩ := ih hc'
    rw [handleAllWriting]
    dsimp only
    rw [following_append]
    exact ⟨gapFree_append hgap hrest, hlast⟩

theorem receiveAllWriting_gapFree (datagrams : List Datagram) (hc : c.Awaits n) :
    ∃ c' written, c.receiveAllWriting datagrams = .ok (c', written) ∧
      c.receiveAll datagrams = .ok (c', written.flatMap Written.updates) ∧
      GapFree n written := by
  induction datagrams generalizing c n with
  | nil => exact ⟨c, [], rfl, rfl, trivial⟩
  | cons d rest ih =>
    obtain ⟨hgap, hlast⟩ := handleAllWriting_gapFree d.isSnapshot (c.requestsOf d) hc
    obtain ⟨c', hreceive, hmode, hnext, -, -⟩ := c.receive_eq d
    rw [handleAll_eq] at hreceive hmode hnext
    have hc' : c'.Awaits (following n (c.handleAllWriting d.isSnapshot (c.requestsOf d)).2) :=
      fun hout => hnext.trans (hlast (hmode.symm.trans hout))
    obtain ⟨c'', more, hmore, hwritten, hrest⟩ := ih hc'
    refine ⟨c'', _ ++ more, ?_, ?_, gapFree_append hgap hrest⟩
    · rw [receiveAllWriting, hreceive, ok_bind]
      dsimp only
      rw [hmore]
      rfl
    · rw [receiveAll, hreceive, ok_bind]
      dsimp only
      rw [hwritten, List.flatMap_append]
      rfl

/-- **The trading queue never sees a gap.**  Whatever datagrams arrive on the two feeds, in whatever
order, every update in the queue comes from one of the two places that write, and what they write
from number 0 on has no gap. -/
theorem tradingQueue_gapFree (datagrams : List Datagram) :
    ∃ c written, receiveAllWriting {} datagrams = .ok (c, written) ∧
      receiveAll {} datagrams = .ok (c, written.flatMap Written.updates) ∧
      GapFree 0 written :=
  receiveAllWriting_gapFree datagrams fun _ => rfl

end MarketDataConsumer
end Trading
end TradingEcosystem
