import TradingEcosystem.Common.MulticastSocket
import TradingEcosystem.Lib.OrderedMap

/-!
# The market data consumer

`trading_system/market_data/market_data_consumer.cpp`.  Incremental updates that carry the expected
number are passed to the trade engine; at the first one that does not, the consumer goes into
recovery, where it collects incremental and snapshot messages by number until they make a whole
(`checkSnapshotSync`).

Two slips of the source decide what happens.  The scan of the snapshot compares every number with
`next_update_seq_num_`, which does not move in the loop, so a snapshot of two messages always has a
gap and recovery never ends (`checkSnapshotSync_stays`).  And `recvCallback` casts an index to a
pointer where it means an address in the buffer (`requestOfIndex`); since what the rest of the code
does with the intended message is of interest as well, how a message is fetched is a parameter.
-/

set_option autoImplicit false

namespace TradingEcosystem
namespace Trading

instance isStrictTotalOrder_size : IsStrictTotalOrder UInt64 (· < ·) where
  trichotomous a b hab hba := by
    by_contra hne
    exact (UInt64.lt_or_lt_of_ne hne).elim hab hba
  irrefl := UInt64.lt_irrefl
  trans _ _ _ := UInt64.lt_trans

/-- `std::map<size_t, MEMarketUpdate>`. -/
abbrev QueuedMarketUpdates := OrderedMap UInt64 MEMarketUpdate

/-- `MarketDataConsumer`. -/
structure MarketDataConsumer where
  nextUpdateSeqNum : UInt64 := 0
  incrementalMcastSocket : MulticastSocket := {}
  incrementalQueuedMarketUpdates : QueuedMarketUpdates := ∅
  inRecoveryMode : Bool := false
  snapshotMcastSocket : MulticastSocket := {}
  snapshotQueuedMarketUpdates : QueuedMarketUpdates := ∅

/-- Neither end of a snapshot. -/
def isBookUpdate (u : MEMarketUpdate) : Bool :=
  u.type ≠ .snapshotStart && u.type ≠ .snapshotEnd

/-- How `recvCallback` gets at the message `i` bytes into the received ones. -/
abbrev Fetch := List UInt8 → Nat → Except Fault MDPMarketUpdate

/-- `reinterpret_cast<const MDPMarketUpdate*>(socket->next_rcv_valid_index_ + i)`. -/
def requestOfIndex : Fetch := fun _ _ => .error .wildDeref

/-- The message that starts at byte `i` of the buffer. -/
def requestAtOffset : Fetch := fun inbound i =>
  .ok (mdpMarketUpdateCodec.decode ((inbound.drop i).take mdpMarketUpdateCodec.size))

namespace MarketDataConsumer

/-- The first loop of `checkSnapshotSync`: the updates between the ends, if there is no gap. -/
def scanSnapshot (nextUpdateSeqNum : UInt64) :
    List (UInt64 × MEMarketUpdate) → Option (List MEMarketUpdate)
  | [] => some []
  | (seq, u) :: rest =>
    if seq ≠ nextUpdateSeqNum then none
    else (scanSnapshot nextUpdateSeqNum rest).map fun events =>
      if isBookUpdate u then u :: events else events

/-- The second loop: what follows the snapshot, if there is no gap. -/
def scanIncremental (nextIncrementalMsgSeq : UInt64) :
    List (UInt64 × MEMarketUpdate) → Option (List MEMarketUpdate)
  | [] => some []
  | (seq, u) :: rest =>
    if seq < nextIncrementalMsgSeq then scanIncremental nextIncrementalMsgSeq rest
    else if seq ≠ nextIncrementalMsgSeq then none
    else if isBookUpdate u then
      (scanIncremental (nextIncrementalMsgSeq + 1) rest).map fun events => u :: events
    else scanIncremental nextIncrementalMsgSeq rest

/-- `checkSnapshotSync`, and what it writes for the trade engine. -/
def checkSnapshotSync (c : MarketDataConsumer) : MarketDataConsumer × List MEMarketUpdate :=
  match c.snapshotQueuedMarketUpdates.entries with
  | [] => (c, [])
  | (seq, first) :: rest =>
    if first.type ≠ .snapshotStart then (c, [])
    else match scanSnapshot c.nextUpdateSeqNum ((seq, first) :: rest) with
      | none => ({ c with snapshotQueuedMarketUpdates := ∅ }, [])
      | some events =>
        let (_, last) := rest.getLastD (seq, first)
        if last.type ≠ .snapshotEnd then (c, [])
        else match scanIncremental (last.orderId + 1) c.incrementalQueuedMarketUpdates.entries with
          | none => ({ c with snapshotQueuedMarketUpdates := ∅ }, [])
          | some later =>
            ({ c with
              snapshotQueuedMarketUpdates := ∅
              incrementalQueuedMarketUpdates := ∅
              inRecoveryMode := false }, events ++ later)

/-- `queueMessage`. -/
def queueMessage (c : MarketDataConsumer) (isSnapshot : Bool) (request : MDPMarketUpdate) :
    MarketDataConsumer × List MEMarketUpdate :=
  let c :=
    if isSnapshot then
      let queued :=
        if c.snapshotQueuedMarketUpdates.contains request.seqNum then ∅
        else c.snapshotQueuedMarketUpdates
      { c with snapshotQueuedMarketUpdates := queued.insert request.seqNum request.meMarketUpdate }
    else
      { c with incrementalQueuedMarketUpdates :=
          c.incrementalQueuedMarketUpdates.insert request.seqNum request.meMarketUpdate }
  c.checkSnapshotSync

/-- `startSnapshotSync`, when the snapshot socket can be opened. -/
def startSnapshotSync (c : MarketDataConsumer) : MarketDataConsumer :=
  { c with incrementalQueuedMarketUpdates := ∅, snapshotQueuedMarketUpdates := ∅ }

/-- The body of the loop of `recvCallback`, once it has its message. -/
def handleRequest (c : MarketDataConsumer) (isSnapshot : Bool) (request : MDPMarketUpdate) :
    MarketDataConsumer × List MEMarketUpdate :=
  let alreadyInRecoveryMode := c.inRecoveryMode
  let c := { c with
    inRecoveryMode := c.inRecoveryMode || request.seqNum ≠ c.nextUpdateSeqNum }
  if c.inRecoveryMode then
    -- the comment in the source says: not in recovery mode yet
    let c := if alreadyInRecoveryMode then c.startSnapshotSync else c
    c.queueMessage isSnapshot request
  else if !isSnapshot then
    ({ c with nextUpdateSeqNum := c.nextUpdateSeqNum + 1 }, [request.meMarketUpdate])
  else (c, [])

/-- The loop of `recvCallback` from byte `i` on; the offset it ends at is returned. -/
def recvLoop (fetch : Fetch) (isSnapshot : Bool) (inbound : List UInt8) :
    Nat → Nat → MarketDataConsumer → Except Fault (Nat × MarketDataConsumer × List MEMarketUpdate)
  | 0, i, c => .ok (i, c, [])
  | fuel + 1, i, c =>
    if i + mdpMarketUpdateCodec.size ≤ inbound.length then do
      let request ← fetch inbound i
      let (c, written) := c.handleRequest isSnapshot request
      let (i, c, more) ← recvLoop fetch isSnapshot inbound fuel (i + mdpMarketUpdateCodec.size) c
      return (i, c, written ++ more)
    else .ok (i, c, [])

/-- `recvCallback` on the bytes received so far: the bytes that stay are returned. -/
def recvCallback (fetch : Fetch) (c : MarketDataConsumer) (isSnapshot : Bool)
    (inbound : List UInt8) :
    Except Fault (MarketDataConsumer × List UInt8 × List MEMarketUpdate) :=
  if isSnapshot && !c.inRecoveryMode then .ok (c, inbound, [])
  else if mdpMarketUpdateCodec.size ≤ inbound.length then do
    let (i, c, written) ← recvLoop fetch isSnapshot inbound inbound.length 0 c
    return (c, inbound.drop i, written)
  else .ok (c, inbound, [])

/-- `sendAndRecv` of the incremental socket, for a datagram of at least one byte or none. -/
def receiveIncremental (fetch : Fetch) (c : MarketDataConsumer) (datagram : List UInt8) :
    Except Fault (MarketDataConsumer × List MEMarketUpdate) :=
  if datagram = [] then .ok (c, [])
  else do
    let socket := c.incrementalMcastSocket.received datagram
    let (c, rest, written) ← recvCallback fetch c false socket.inboundData
    return ({ c with incrementalMcastSocket := { socket with inboundData := rest } }, written)

/-- `sendAndRecv` of the snapshot socket. -/
def receiveSnapshot (fetch : Fetch) (c : MarketDataConsumer) (datagram : List UInt8) :
    Except Fault (MarketDataConsumer × List MEMarketUpdate) :=
  if datagram = [] then .ok (c, [])
  else do
    let socket := c.snapshotMcastSocket.received datagram
    let (c, rest, written) ← recvCallback fetch c true socket.inboundData
    return ({ c with snapshotMcastSocket := { socket with inboundData := rest } }, written)

/-! ## Recovery -/

variable {c : MarketDataConsumer}

theorem scanSnapshot_keys {n : UInt64} {l : List (UInt64 × MEMarketUpdate)}
    {events : List MEMarketUpdate} (h : scanSnapshot n l = some events) : ∀ e ∈ l, e.1 = n := by
  induction l generalizing events with
  | nil => exact fun e he => absurd he List.not_mem_nil
  | cons a l ih =>
    obtain ⟨seq, u⟩ := a
    rw [scanSnapshot] at h
    split at h
    · exact absurd h (by simp)
    · next hseq =>
      obtain ⟨events', hl, -⟩ := Option.map_eq_some_iff.1 h
      exact List.forall_mem_cons.2 ⟨not_not.1 hseq, ih hl⟩

/-- **Recovery does not end**: whatever is queued, nothing is delivered and the mode stays. -/
theorem checkSnapshotSync_stays (c : MarketDataConsumer) :
    c.checkSnapshotSync.2 = [] ∧ c.checkSnapshotSync.1.inRecoveryMode = c.inRecoveryMode := by
  rw [checkSnapshotSync]
  split
  · exact ⟨rfl, rfl⟩
  · next seq first rest hentries =>
    split
    · exact ⟨rfl, rfl⟩
    · next hstart =>
      split
      · exact ⟨rfl, rfl⟩
      · next events hscan =>
        -- one number for all: the message that starts the snapshot is the one that should end it
        have hkeys := scanSnapshot_keys hscan
        rw [← hentries] at hkeys
        obtain rfl := c.snapshotQueuedMarketUpdates.eq_singleton_of_keys hentries hkeys
        rw [not_not] at hstart
        have hend : first.type ≠ .snapshotEnd := by rw [hstart]; decide
        rw [List.getLastD_nil]
        dsimp only
        rw [if_pos hend]
        exact ⟨rfl, rfl⟩

theorem queueMessage_stays (c : MarketDataConsumer) (isSnapshot : Bool)
    (request : MDPMarketUpdate) : (c.queueMessage isSnapshot request).2 = [] ∧
      (c.queueMessage isSnapshot request).1.inRecoveryMode = c.inRecoveryMode := by
  rw [queueMessage]
  cases isSnapshot <;> exact checkSnapshotSync_stays _

/-- A message that is not the expected one, or finds the consumer in recovery, is not passed on. -/
theorem handleRequest_recovery (isSnapshot : Bool) (request : MDPMarketUpdate)
    (h : c.inRecoveryMode = true ∨ request.seqNum ≠ c.nextUpdateSeqNum) :
    (c.handleRequest isSnapshot request).2 = [] ∧
      (c.handleRequest isSnapshot request).1.inRecoveryMode = true := by
  have hmode : (c.inRecoveryMode || decide (request.seqNum ≠ c.nextUpdateSeqNum)) = true := by
    simpa using h
  rw [handleRequest]
  simp only [hmode, if_true]
  obtain ⟨hnone, hstays⟩ := queueMessage_stays
    (if c.inRecoveryMode then startSnapshotSync { c with inRecoveryMode := true }
      else { c with inRecoveryMode := true }) isSnapshot request
  refine ⟨hnone, hstays.trans ?_⟩
  split <;> rfl

theorem recvLoop_recovery {fetch : Fetch} {isSnapshot : Bool} {inbound : List UInt8} (fuel : Nat)
    {i j : Nat} {c' : MarketDataConsumer} {written : List MEMarketUpdate}
    (hc : c.inRecoveryMode = true)
    (h : recvLoop fetch isSnapshot inbound fuel i c = .ok (j, c', written)) :
    written = [] ∧ c'.inRecoveryMode = true := by
  induction fuel generalizing i c written with
  | zero =>
    obtain ⟨-, rfl, rfl⟩ : i = j ∧ c = c' ∧ [] = written := by simpa [recvLoop] using h
    exact ⟨rfl, hc⟩
  | succ fuel ih =>
    rw [recvLoop] at h
    split at h
    · obtain ⟨request, -, h⟩ := bind_eq_ok.1 h
      have hrequest := handleRequest_recovery (c := c) isSnapshot request (Or.inl hc)
      generalize c.handleRequest isSnapshot request = next at h hrequest
      obtain ⟨d, none⟩ := next
      obtain ⟨rfl, hstays⟩ := hrequest
      obtain ⟨⟨j', c'', more⟩, hloop, h⟩ := bind_eq_ok.1 h
      obtain ⟨rfl, rfl, rfl⟩ : j' = j ∧ c'' = c' ∧ more = written := by simpa using h
      exact ih hstays hloop
    · obtain ⟨-, rfl, rfl⟩ : i = j ∧ c = c' ∧ [] = written := by simpa using h
      exact ⟨rfl, hc⟩

/-! ## What recovery should be -/

/-- **A complete recovery**: the snapshot messages are numbered from 0 on, the ends are where they
belong, and the incremental messages above the number the last one carries follow without a gap. -/
structure Completes (snapshot incremental : QueuedMarketUpdates) (first last : MEMarketUpdate)
    (inner later : List MEMarketUpdate) : Prop where
  snapshot_eq : snapshot.entries = numberedFrom 0 (first :: (inner ++ [last]))
  first_type : first.type = .snapshotStart
  last_type : last.type = .snapshotEnd
  inner_type : ∀ u ∈ inner, isBookUpdate u = true
  incremental_eq : incremental.entries.filter (fun e => last.orderId < e.1) =
    numberedFrom (last.orderId + 1) later

/-- The queues hold a complete recovery. -/
def Complete (snapshot incremental : QueuedMarketUpdates) : Prop :=
  ∃ first last inner later, Completes snapshot incremental first last inner later

/-- If the queues hold a complete recovery, `checkSnapshotSync` delivers what lies between the ends
and what follows, empties them and goes on from there; if not, it delivers nothing and waits. -/
def RecoversExactly (c : MarketDataConsumer) : Prop :=
  (∀ first last inner later,
    Completes c.snapshotQueuedMarketUpdates c.incrementalQueuedMarketUpdates
        first last inner later →
      c.checkSnapshotSync = ({ c with
        snapshotQueuedMarketUpdates := ∅
        incrementalQueuedMarketUpdates := ∅
        inRecoveryMode := false
        nextUpdateSeqNum := last.orderId + .ofNat later.length + 1 }, inner ++ later)) ∧
  (¬ Complete c.snapshotQueuedMarketUpdates c.incrementalQueuedMarketUpdates →
    c.checkSnapshotSync.2 = [] ∧ c.checkSnapshotSync.1.inRecoveryMode = true)

theorem not_recoversExactly {c : MarketDataConsumer} (hc : c.inRecoveryMode = true)
    (hcomplete : Complete c.snapshotQueuedMarketUpdates c.incrementalQueuedMarketUpdates) :
    ¬ RecoversExactly c := by
  rintro ⟨hrecovers, -⟩
  obtain ⟨first, last, inner, later, h⟩ := hcomplete
  have hmode := (checkSnapshotSync_stays c).2
  rw [hrecovers _ _ _ _ h, hc] at hmode
  exact Bool.false_ne_true hmode

/-- **Recovery is exact** exactly when it cannot be complete: a consumer in recovery treats the
content of its queues as it should if and only if they do not hold a complete recovery. -/
theorem recoversExactly_iff (c : MarketDataConsumer) (hc : c.inRecoveryMode = true) :
    RecoversExactly c ↔
      ¬ Complete c.snapshotQueuedMarketUpdates c.incrementalQueuedMarketUpdates := by
  obtain ⟨hnone, hmode⟩ := checkSnapshotSync_stays c
  constructor
  · exact fun h hcomplete => not_recoversExactly hc hcomplete h
  · refine fun hnot => ⟨fun _ _ _ _ h => ?_, fun _ => ⟨hnone, hmode.trans hc⟩⟩
    exact absurd ⟨_, _, _, _, h⟩ hnot

/-- A consumer in recovery that has the first message of a snapshot. -/
def started : MarketDataConsumer where
  inRecoveryMode := true
  snapshotQueuedMarketUpdates := OrderedMap.insert ∅ 0 { type := .snapshotStart, orderId := 0 }

/-- The snapshot of an empty book, with both of its messages. -/
def ended : MarketDataConsumer :=
  { started with snapshotQueuedMarketUpdates :=
      started.snapshotQueuedMarketUpdates.insert 1 { type := .snapshotEnd, orderId := 0 } }

/-- Without the message that ends it, a snapshot is waited for. -/
theorem recoversExactly_started : RecoversExactly started := by
  refine (recoversExactly_iff started rfl).2 ?_
  rintro ⟨first, last, inner, later, h⟩
  have hlen := congrArg List.length h.snapshot_eq
  rw [length_numberedFrom, List.length_cons, List.length_append] at hlen
  have hone : 1 = inner.length + 1 + 1 := hlen
  omega

theorem not_recoversExactly_ended :
    ¬ ∀ c : MarketDataConsumer, c.inRecoveryMode = true → RecoversExactly c := by
  have hcomplete :
      Complete ended.snapshotQueuedMarketUpdates ended.incrementalQueuedMarketUpdates :=
    ⟨{ type := .snapshotStart, orderId := 0 }, { type := .snapshotEnd, orderId := 0 }, [], [], rfl,
      rfl, rfl, fun _ h => absurd h List.not_mem_nil, rfl⟩
  exact fun h => not_recoversExactly rfl hcomplete (h ended rfl)

end MarketDataConsumer
end Trading
end TradingEcosystem
