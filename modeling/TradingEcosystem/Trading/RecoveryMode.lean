import TradingEcosystem.Trading.MarketDataConsumer
import TradingEcosystem.Lib.Along

/-!
# Entering recovery

`recvCallback` message by message, with a log of what recovery does: `handleRequestLogged` is
`handleRequest` with a record of the calls of `startSnapshotSync` and of the reasons for which a
queue is cleared.

The test in front of `startSnapshotSync` asks for a consumer that was in recovery already, where the
comment and the log line beside it speak of one that was not.  So the message that enters recovery
does not start it, and every later one starts it again, which throws away what was collected.
`along_collects_iff` says that this is what happens as soon as there is anything to recover.
-/

set_option autoImplicit false

namespace TradingEcosystem
namespace Trading

open Run Codec

/-- What recovery does. -/
inductive RecoveryEvent where
  | startSnapshotSync
  /-- A snapshot number came twice, and the snapshot queue is cleared. -/
  | duplicateNumber
  /-- There is a gap in the snapshot, and the snapshot queue is cleared. -/
  | snapshotGap
  /-- There is a gap behind the snapshot, and the snapshot queue is cleared. -/
  | incrementalGap
  | recovered

namespace MarketDataConsumer

/-! ## The functions with their log -/

/-- `checkSnapshotSync`, logged. -/
def checkSnapshotSyncLogged (c : MarketDataConsumer) :
    (MarketDataConsumer × List MEMarketUpdate) × List RecoveryEvent :=
  match c.snapshotQueuedMarketUpdates.entries with
  | [] => ((c, []), [])
  | (seq, first) :: rest =>
    if first.type ≠ .snapshotStart then ((c, []), [])
    else match scanSnapshot c.nextUpdateSeqNum ((seq, first) :: rest) with
      | none => (({ c with snapshotQueuedMarketUpdates := ∅ }, []), [.snapshotGap])
      | some events =>
        let (_, last) := rest.getLastD (seq, first)
        if last.type ≠ .snapshotEnd then ((c, []), [])
        else match scanIncremental (last.orderId + 1) c.incrementalQueuedMarketUpdates.entries with
          | none => (({ c with snapshotQueuedMarketUpdates := ∅ }, []), [.incrementalGap])
          | some later =>
            (({ c with
              snapshotQueuedMarketUpdates := ∅
              incrementalQueuedMarketUpdates := ∅
              inRecoveryMode := false }, events ++ later), [.recovered])

/-- `queueMessage`, logged. -/
def queueMessageLogged (c : MarketDataConsumer) (isSnapshot : Bool) (request : MDPMarketUpdate) :
    (MarketDataConsumer × List MEMarketUpdate) × List RecoveryEvent :=
  let (c, log) :=
    if isSnapshot then
      let (queued, log) :=
        if c.snapshotQueuedMarketUpdates.contains request.seqNum then
          (∅, [RecoveryEvent.duplicateNumber])
        else (c.snapshotQueuedMarketUpdates, [])
      ({ c with snapshotQueuedMarketUpdates :=
          queued.insert request.seqNum request.meMarketUpdate }, log)
    else
      ({ c with incrementalQueuedMarketUpdates :=
          c.incrementalQueuedMarketUpdates.insert request.seqNum request.meMarketUpdate }, [])
  let (out, more) := c.checkSnapshotSyncLogged
  (out, log ++ more)

/-- The body of the loop of `recvCallback`, logged. -/
def handleRequestLogged (c : MarketDataConsumer) (isSnapshot : Bool) (request : MDPMarketUpdate) :
    (MarketDataConsumer × List MEMarketUpdate) × List RecoveryEvent :=
  let alreadyInRecoveryMode := c.inRecoveryMode
  let c := { c with
    inRecoveryMode := c.inRecoveryMode || request.seqNum ≠ c.nextUpdateSeqNum }
  if c.inRecoveryMode then
    let (c, log) :=
      if alreadyInRecoveryMode then (c.startSnapshotSync, [RecoveryEvent.startSnapshotSync])
      else (c, [])
    let (out, more) := c.queueMessageLogged isSnapshot request
    (out, log ++ more)
  else if !isSnapshot then
    (({ c with nextUpdateSeqNum := c.nextUpdateSeqNum + 1 }, [request.meMarketUpdate]), [])
  else ((c, []), [])

theorem checkSnapshotSyncLogged_fst (c : MarketDataConsumer) :
    c.checkSnapshotSyncLogged.1 = c.checkSnapshotSync := by
  rw [checkSnapshotSyncLogged, checkSnapshotSync]
  cases c.snapshotQueuedMarketUpdates.entries with
  | nil => rfl
  | cons e rest =>
    obtain ⟨seq, first⟩ := e
    dsimp only
    by_cases hstart : first.type ≠ .snapshotStart
    · rw [if_pos hstart, if_pos hstart]
    · rw [if_neg hstart, if_neg hstart]
      cases scanSnapshot c.nextUpdateSeqNum ((seq, first) :: rest) with
      | none => rfl
      | some events =>
        dsimp only
        rcases rest.getLastD (seq, first) with ⟨_, last⟩
        by_cases hend : last.type ≠ .snapshotEnd
        · rw [if_pos hend, if_pos hend]
        · rw [if_neg hend, if_neg hend]
          cases scanIncremental (last.orderId + 1) c.incrementalQueuedMarketUpdates.entries <;> rfl

theorem queueMessageLogged_fst (c : MarketDataConsumer) (isSnapshot : Bool)
    (request : MDPMarketUpdate) :
    (c.queueMessageLogged isSnapshot request).1 = c.queueMessage isSnapshot request := by
  rw [queueMessageLogged, queueMessage]
  cases isSnapshot with
  | false => exact checkSnapshotSyncLogged_fst _
  | true =>
    cases hdup : c.snapshotQueuedMarketUpdates.contains request.seqNum
    · exact checkSnapshotSyncLogged_fst _
    · exact checkSnapshotSyncLogged_fst _

/-- **The log changes nothing.** -/
theorem handleRequestLogged_fst (c : MarketDataConsumer) (isSnapshot : Bool)
    (request : MDPMarketUpdate) :
    (c.handleRequestLogged isSnapshot request).1 = c.handleRequest isSnapshot request := by
  rw [handleRequestLogged, handleRequest]
  dsimp only
  split
  · cases c.inRecoveryMode <;> exact queueMessageLogged_fst _ _ _
  · split <;> rfl

/-! ## Message by message -/

/-- The messages one after the other. -/
def handleAll (c : MarketDataConsumer) (isSnapshot : Bool) :
    List MDPMarketUpdate → MarketDataConsumer × List MEMarketUpdate
  | [] => (c, [])
  | request :: rest =>
    let (c, written) := c.handleRequest isSnapshot request
    let (c, more) := c.handleAll isSnapshot rest
    (c, written ++ more)

/-- The messages a callback goes over: a snapshot outside of recovery stays where it is. -/
def requestsIn (c : MarketDataConsumer) (isSnapshot : Bool) (inbound : List UInt8) :
    List MDPMarketUpdate :=
  if isSnapshot && !c.inRecoveryMode then [] else (mdpMarketUpdateCodec.chunks inbound).1

theorem recvLoop_atOffset (isSnapshot : Bool) (inbound : List UInt8) (fuel : Nat) {i : Nat}
    (hi : i ≤ inbound.length) (hfuel : inbound.length - i ≤ fuel) (c : MarketDataConsumer) :
    recvLoop requestAtOffset isSnapshot inbound fuel i c =
      .ok (inbound.length - (mdpMarketUpdateCodec.chunks (inbound.drop i)).2.length,
        c.handleAll isSnapshot (mdpMarketUpdateCodec.chunks (inbound.drop i)).1) := by
  have hpos : 0 < mdpMarketUpdateCodec.size := by decide
  have hdrop : (inbound.drop i).length = inbound.length - i := List.length_drop
  induction fuel generalizing i c with
  | zero =>
    have hshort : (inbound.drop i).length < mdpMarketUpdateCodec.size := by omega
    rw [recvLoop, chunks_of_lt _ hshort, handleAll, hdrop]
    exact congrArg (fun n => Except.ok (n, c, [])) (by omega)
  | succ fuel ih =>
    rw [recvLoop]
    split
    · next hle =>
      rw [requestAtOffset, ok_bind, chunks_of_le _ hpos (by omega), handleAll, List.drop_drop]
      dsimp only
      rw [ih (by omega) (by omega) _ List.length_drop, ok_bind]
      rfl
    · next hlt =>
      have hshort : (inbound.drop i).length < mdpMarketUpdateCodec.size := by omega
      rw [chunks_of_lt _ hshort, handleAll, hdrop]
      exact congrArg (fun n => Except.ok (n, c, [])) (by omega)

/-- **A callback** handles the messages that are complete, one after the other. -/
theorem recvCallback_atOffset (c : MarketDataConsumer) (isSnapshot : Bool)
    (inbound : List UInt8) : ∃ rest, recvCallback requestAtOffset c isSnapshot inbound =
      .ok ((c.handleAll isSnapshot (c.requestsIn isSnapshot inbound)).1, rest,
        (c.handleAll isSnapshot (c.requestsIn isSnapshot inbound)).2) := by
  rw [recvCallback, requestsIn]
  split
  · exact ⟨inbound, rfl⟩
  · split
    · rw [recvLoop_atOffset isSnapshot inbound _ (Nat.zero_le _) (Nat.sub_le _ _), List.drop_zero]
      exact ⟨_, rfl⟩
    · next hlt =>
      rw [chunks_of_lt _ (Nat.lt_of_not_le hlt)]
      exact ⟨inbound, rfl⟩

/-! ## What is asked of recovery -/

/-- What a message does to recovery: it starts the synchronisation exactly when it is the one that
enters recovery, and what was collected in recovery stays until it may be given up. -/
structure KeepsCollected (isSnapshot : Bool) (c : MarketDataConsumer) (request : MDPMarketUpdate) :
    Prop where
  starts : .startSnapshotSync ∈ (c.handleRequestLogged isSnapshot request).2 ↔
    c.inRecoveryMode = false ∧ (c.handleRequest isSnapshot request).1.inRecoveryMode = true
  incremental : c.inRecoveryMode = true → ∀ e ∈ c.incrementalQueuedMarketUpdates.entries,
    e ∈ (c.handleRequest isSnapshot request).1.incrementalQueuedMarketUpdates.entries ∨
      .recovered ∈ (c.handleRequestLogged isSnapshot request).2
  snapshot : c.inRecoveryMode = true → ∀ e ∈ c.snapshotQueuedMarketUpdates.entries,
    e ∈ (c.handleRequest isSnapshot request).1.snapshotQueuedMarketUpdates.entries ∨
      .snapshotGap ∈ (c.handleRequestLogged isSnapshot request).2 ∨
      .duplicateNumber ∈ (c.handleRequestLogged isSnapshot request).2 ∨
      .recovered ∈ (c.handleRequestLogged isSnapshot request).2

/-- The condition: the consumer is not in recovery, and the message is the one it waits for. -/
def Expected (c : MarketDataConsumer) (request : MDPMarketUpdate) : Prop :=
  c.inRecoveryMode = false ∧ request.seqNum = c.nextUpdateSeqNum

variable {c : MarketDataConsumer} {isSnapshot : Bool} {request : MDPMarketUpdate}

/-- The synchronisation starts with every message that finds the consumer in recovery. -/
theorem startSnapshotSync_mem (hc : c.inRecoveryMode = true) :
    .startSnapshotSync ∈ (c.handleRequestLogged isSnapshot request).2 := by
  rw [handleRequestLogged]
  simp [hc]

theorem checkSnapshotSyncLogged_starts (c : MarketDataConsumer) :
    .startSnapshotSync ∉ c.checkSnapshotSyncLogged.2 := by
  rw [checkSnapshotSyncLogged]
  split
  · simp
  · split
    · simp
    · split
      · simp
      · dsimp only
        split
        · simp
        · split <;> simp

theorem queueMessageLogged_starts (c : MarketDataConsumer) (isSnapshot : Bool)
    (request : MDPMarketUpdate) :
    .startSnapshotSync ∉ (c.queueMessageLogged isSnapshot request).2 := by
  rw [queueMessageLogged]
  cases isSnapshot with
  | false => simpa using checkSnapshotSyncLogged_starts _
  | true =>
    cases hdup : c.snapshotQueuedMarketUpdates.contains request.seqNum <;>
      simpa using checkSnapshotSyncLogged_starts _

/-- It does not start with the message that enters recovery. -/
theorem startSnapshotSync_not_mem (hc : c.inRecoveryMode = false) :
    .startSnapshotSync ∉ (c.handleRequestLogged isSnapshot request).2 := by
  rw [handleRequestLogged]
  dsimp only
  split
  · rw [hc]
    exact queueMessageLogged_starts _ _ _
  · split <;> simp

/-- A message that is expected leaves recovery alone. -/
theorem inRecoveryMode_of_expected (h : c.Expected request) (isSnapshot : Bool) :
    (c.handleRequest isSnapshot request).1.inRecoveryMode = false := by
  obtain ⟨hc, hseq⟩ := h
  rw [handleRequest]
  simp only [hc, hseq, ne_eq, not_true_eq_false, decide_false, Bool.or_false, Bool.false_eq_true,
    if_false]
  split <;> rfl

/-- **One message.** -/
theorem keepsCollected_iff : KeepsCollected isSnapshot c request ↔ c.Expected request := by
  refine ⟨fun h => ?_, fun h => ⟨?_, ?_, ?_⟩⟩
  · have hc : c.inRecoveryMode = false := by
      by_contra hc
      rw [Bool.not_eq_false] at hc
      exact absurd ((h.starts.1 (startSnapshotSync_mem hc)).1.symm.trans hc) (by decide)
    refine ⟨hc, ?_⟩
    by_contra hseq
    have henters := (handleRequest_recovery (c := c) isSnapshot request (.inr hseq)).2
    exact startSnapshotSync_not_mem hc (h.starts.2 ⟨hc, henters⟩)
  · refine iff_of_false (startSnapshotSync_not_mem h.1) fun hin => ?_
    exact absurd (hin.2.symm.trans (inRecoveryMode_of_expected h isSnapshot)) (by decide)
  · exact fun hc => absurd (hc.symm.trans h.1) (by decide)
  · exact fun hc => absurd (hc.symm.trans h.1) (by decide)

/-! ## Datagram by datagram -/

/-- A datagram on one of the two feeds. -/
structure Datagram where
  isSnapshot : Bool
  bytes : List UInt8

/-- `sendAndRecv` of the feed's socket. -/
def receive (c : MarketDataConsumer) (d : Datagram) :
    Except Fault (MarketDataConsumer × List MEMarketUpdate) :=
  if d.isSnapshot then c.receiveSnapshot requestAtOffset d.bytes
  else c.receiveIncremental requestAtOffset d.bytes

/-- The bytes its socket then has. -/
def inbound (c : MarketDataConsumer) (d : Datagram) : List UInt8 :=
  if d.isSnapshot then (c.snapshotMcastSocket.received d.bytes).inboundData
  else (c.incrementalMcastSocket.received d.bytes).inboundData

/-- The messages that are handled: without bytes there is no callback. -/
def requestsOf (c : MarketDataConsumer) (d : Datagram) : List MDPMarketUpdate :=
  if d.bytes = [] then [] else c.requestsIn d.isSnapshot (c.inbound d)

/-- The queues and the mode after a datagram are those after its messages. -/
theorem receive_eq (c : MarketDataConsumer) (d : Datagram) : ∃ c',
    c.receive d = .ok (c', (c.handleAll d.isSnapshot (c.requestsOf d)).2) ∧
      c'.inRecoveryMode =
        (c.handleAll d.isSnapshot (c.requestsOf d)).1.inRecoveryMode ∧
      c'.nextUpdateSeqNum =
        (c.handleAll d.isSnapshot (c.requestsOf d)).1.nextUpdateSeqNum ∧
      c'.incrementalQueuedMarketUpdates =
        (c.handleAll d.isSnapshot (c.requestsOf d)).1.incrementalQueuedMarketUpdates ∧
      c'.snapshotQueuedMarketUpdates =
        (c.handleAll d.isSnapshot (c.requestsOf d)).1.snapshotQueuedMarketUpdates := by
  obtain ⟨isSnapshot, bytes⟩ := d
  rw [receive, requestsOf, inbound]
  by_cases hb : bytes = []
  · cases isSnapshot <;> simp [receiveSnapshot, receiveIncremental, hb, handleAll]
  · cases isSnapshot with
    | false =>
      obtain ⟨rest, hrecv⟩ := recvCallback_atOffset c false
        (c.incrementalMcastSocket.received bytes).inboundData
      simp [receiveIncremental, hb, hrecv]
    | true =>
      obtain ⟨rest, hrecv⟩ := recvCallback_atOffset c true
        (c.snapshotMcastSocket.received bytes).inboundData
      simp [receiveSnapshot, hb, hrecv]

/-- A message takes the consumer on. -/
def Handles (isSnapshot : Bool) (c : MarketDataConsumer) (request : MDPMarketUpdate)
    (c' : MarketDataConsumer) : Prop := c' = (c.handleRequest isSnapshot request).1

/-- A datagram takes it on. -/
def Next (c : MarketDataConsumer) (d : Datagram) (c' : MarketDataConsumer) : Prop :=
  ∃ written, c.receive d = .ok (c', written)

/-- Every message of the datagram does to recovery what is asked of it. -/
def Collects (c : MarketDataConsumer) (d : Datagram) : Prop :=
  Along (Handles d.isSnapshot) (KeepsCollected d.isSnapshot) c (c.requestsOf d)

/-- Every message of the datagram is expected. -/
def InSequence (c : MarketDataConsumer) (d : Datagram) : Prop :=
  Along (Handles d.isSnapshot) Expected c (c.requestsOf d)

theorem collects_iff (c : MarketDataConsumer) (d : Datagram) : c.Collects d ↔ c.InSequence d :=
  along_congr (fun _ => True) (fun _ _ => True) (fun _ _ _ _ => keepsCollected_iff)
    (fun _ _ _ _ _ _ _ => trivial) trivial (along_of_forall (fun _ _ => trivial) _ _)

/-- **Recovery keeps what it collects** exactly as long as it is not entered: in every run of both
feeds all messages that are handled have to be those the consumer waits for. -/
theorem along_collects_iff (datagrams : List Datagram) :
    Along Next Collects {} datagrams ↔ Along Next InSequence {} datagrams :=
  along_congr (fun _ => True) (fun _ _ => True) (fun c d _ _ => c.collects_iff d)
    (fun _ _ _ _ _ _ _ => trivial) trivial (along_of_forall (fun _ _ => trivial) _ _)

/-- The first message a consumer that was there from the start receives has number 1. -/
def firstDatagram : Datagram := ⟨false, mdpMarketUpdateCodec.encode ⟨1, { type := .add }⟩⟩

/-- It enters recovery, and `startSnapshotSync` is not called. -/
theorem not_along_collects : ¬ ∀ datagrams, Along Next Collects {} datagrams := by
  intro h
  have hsequence := ((along_collects_iff [firstDatagram]).1 (h [firstDatagram])).1
  have hrequests :
      ({} : MarketDataConsumer).requestsOf firstDatagram = [⟨1, { type := .add }⟩] := by
    decide +kernel
  rw [InSequence, hrequests] at hsequence
  exact absurd hsequence.1.2 (by decide)

end MarketDataConsumer
end Trading
end TradingEcosystem
