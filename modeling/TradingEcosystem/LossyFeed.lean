import TradingEcosystem.MarketDataFeed
import TradingEcosystem.Trading.TradingQueue
import TradingEcosystem.Lib.UntilGap

/-!
# The incremental feed on an unreliable network

What a consumer passes on to the trade engine is settled by the bytes of the incremental feed alone:
the updates of the messages in them, however the datagrams cut them, up to the first message that
does not have the number after the one before (`passedOn_of_run`).  Whatever the snapshot feed
carries, there the consumer goes into recovery and stays.

With the publisher at the other end and a network that loses, repeats and reorders datagrams as it
likes, the updates passed on are the next ones of those that were drained, up to some point
(`passedOn_of_network`).  The consumer of the source waits for number 0, which is never sent.

As in `RecoveryMode`, the message the consumer handles is the one at its place in the buffer.
-/

set_option autoImplicit false

namespace TradingEcosystem
namespace Trading

open Run Codec UntilGap

/-- The messages that count on from `n`. -/
abbrev inSequence (n : UInt64) (requests : List MDPMarketUpdate) : List MDPMarketUpdate :=
  untilGap (·.seqNum) (· + 1) n requests

namespace MarketDataConsumer

/-- What has come in on the incremental feed. -/
def incrementalBytes (datagrams : List Datagram) : List UInt8 :=
  (datagrams.filter (!·.isSnapshot)).flatMap (·.bytes)

/-- The complete messages in it. -/
def incrementals (datagrams : List Datagram) : List MDPMarketUpdate :=
  (mdpMarketUpdateCodec.chunks (incrementalBytes datagrams)).1

variable {c : MarketDataConsumer}

theorem incrementalBytes_snapshot (bytes : List UInt8) (datagrams : List Datagram) :
    incrementalBytes (⟨true, bytes⟩ :: datagrams) = incrementalBytes datagrams := rfl

theorem incrementalBytes_incremental (bytes : List UInt8) (datagrams : List Datagram) :
    incrementalBytes (⟨false, bytes⟩ :: datagrams) = bytes ++ incrementalBytes datagrams := rfl

/-! ## The messages of one datagram -/

/-- In recovery nothing is passed on, and recovery does not end. -/
theorem handleAll_recovery (isSnapshot : Bool) (requests : List MDPMarketUpdate)
    (hc : c.inRecoveryMode = true) : (c.handleAll isSnapshot requests).2 = [] ∧
      (c.handleAll isSnapshot requests).1.inRecoveryMode = true := by
  induction requests generalizing c with
  | nil => exact ⟨rfl, hc⟩
  | cons request rest ih =>
    obtain ⟨hnone, hstays⟩ := handleRequest_recovery isSnapshot request (.inl hc)
    obtain ⟨hmore, hlast⟩ := ih hstays
    rw [handleAll]
    dsimp only
    rw [hnone, hmore]
    exact ⟨rfl, hlast⟩

/-- The message the consumer waits for is passed on. -/
theorem handleRequest_expected {request : MDPMarketUpdate} (h : c.Expected request) :
    c.handleRequest false request =
      ({ c with nextUpdateSeqNum := c.nextUpdateSeqNum + 1 }, [request.meMarketUpdate]) := by
  obtain ⟨hc, hseq⟩ := h
  rw [handleRequest]
  simp [hc, hseq]

/-- **The messages of a datagram** are passed on up to the first gap; there recovery begins. -/
theorem handleAll_incremental (requests : List MDPMarketUpdate) (hc : c.inRecoveryMode = false) :
    (c.handleAll false requests).2 =
        (inSequence c.nextUpdateSeqNum requests).map (·.meMarketUpdate) ∧
      (inSequence c.nextUpdateSeqNum requests = requests →
        (c.handleAll false requests).1 = { c with
          nextUpdateSeqNum := numberAfter (· + 1) c.nextUpdateSeqNum requests }) ∧
      (inSequence c.nextUpdateSeqNum requests ≠ requests →
        (c.handleAll false requests).1.inRecoveryMode = true) := by
  induction requests generalizing c with
  | nil => exact ⟨rfl, fun _ => rfl, fun h => absurd rfl h⟩
  | cons request rest ih =>
    rw [handleAll]
    dsimp only
    by_cases hseq : request.seqNum = c.nextUpdateSeqNum
    · rw [handleRequest_expected ⟨hc, hseq⟩]
      obtain ⟨hwritten, hon, hgap⟩ :=
        ih (c := { c with nextUpdateSeqNum := c.nextUpdateSeqNum + 1 }) hc
      refine ⟨?_, fun h => ?_, fun h => hgap fun hrest => h ?_⟩
      · rw [inSequence, untilGap_cons_of_eq hseq, hwritten]
        rfl
      · exact hon (untilGap_cons_eq_self.1 h).2
      · exact untilGap_cons_eq_self.2 ⟨hseq, hrest⟩
    · obtain ⟨hnone, hentered⟩ := handleRequest_recovery (c := c) false request (.inr hseq)
      obtain ⟨hmore, hstays⟩ := handleAll_recovery false rest hentered
      rw [inSequence, untilGap_cons_of_ne hseq, hnone, hmore]
      exact ⟨rfl, fun h => absurd h (by simp), fun _ => hstays⟩

/-! ## Datagram by datagram -/

/-- `sendAndRecv` of the incremental socket: the complete messages are handled, and the rest waits
in the buffer. -/
theorem receive_incremental (bytes : List UInt8)
    (hshort : c.incrementalMcastSocket.inboundData.length < mdpMarketUpdateCodec.size)
    {requests : List MDPMarketUpdate} {left : List UInt8}
    (hchunks : mdpMarketUpdateCodec.chunks (c.incrementalMcastSocket.inboundData ++ bytes) =
      (requests, left)) : ∃ socket : MulticastSocket, socket.inboundData = left ∧
    c.receive ⟨false, bytes⟩ =
      .ok ({ (c.handleAll false requests).1 with incrementalMcastSocket := socket },
        (c.handleAll false requests).2) := by
  rw [receive]
  dsimp only
  rw [if_neg (by decide), receiveIncremental]
  by_cases hb : bytes = []
  · rw [hb, List.append_nil, chunks_of_lt _ hshort] at hchunks
    obtain ⟨rfl, rfl⟩ := Prod.mk.inj hchunks
    rw [if_pos hb]
    exact ⟨c.incrementalMcastSocket, rfl, rfl⟩
  · rw [if_neg hb]
    dsimp only [MulticastSocket.received]
    generalize c.incrementalMcastSocket.inboundData ++ bytes = inbound at hchunks
    rw [recvCallback, if_neg (by simp)]
    refine ⟨{ c.incrementalMcastSocket with inboundData := left }, rfl, ?_⟩
    split
    · rw [recvLoop_atOffset false inbound _ (Nat.zero_le _) (Nat.sub_le _ _), List.drop_zero,
        hchunks]
      have hleft : left <:+ inbound := by
        have h := mdpMarketUpdateCodec.chunks_suffix inbound
        rwa [hchunks] at h
      dsimp only [ok_bind]
      rw [← List.suffix_iff_eq_drop.1 hleft]
      rfl
    · next hlt =>
      rw [chunks_of_lt _ (Nat.lt_of_not_le hlt)] at hchunks
      obtain ⟨rfl, rfl⟩ := Prod.mk.inj hchunks
      rfl

/-- Outside of recovery a snapshot stays where it is. -/
theorem receive_snapshot (bytes : List UInt8) (hc : c.inRecoveryMode = false) :
    ∃ socket, c.receive ⟨true, bytes⟩ = .ok ({ c with snapshotMcastSocket := socket }, []) := by
  rw [receive]
  dsimp only
  rw [if_pos rfl, receiveSnapshot]
  by_cases hb : bytes = []
  · rw [if_pos hb]
    exact ⟨c.snapshotMcastSocket, rfl⟩
  · rw [if_neg hb]
    dsimp only [MulticastSocket.received]
    rw [recvCallback, if_pos (by simp [hc])]
    exact ⟨_, rfl⟩

theorem receiveAll_cons {d : Datagram} {rest : List Datagram} {c₁ c₂ : MarketDataConsumer}
    {written more : List MEMarketUpdate} (h : c.receive d = .ok (c₁, written))
    (hrest : c₁.receiveAll rest = .ok (c₂, more)) :
    c.receiveAll (d :: rest) = .ok (c₂, written ++ more) := by
  rw [receiveAll, h, ok_bind]
  dsimp only
  rw [hrest]
  rfl

theorem receiveAll_recovery (datagrams : List Datagram) (hc : c.inRecoveryMode = true) :
    ∃ c', c.receiveAll datagrams = .ok (c', []) ∧ c'.inRecoveryMode = true := by
  induction datagrams generalizing c with
  | nil => exact ⟨c, rfl, hc⟩
  | cons d rest ih =>
    obtain ⟨hnone, hstays⟩ := handleAll_recovery d.isSnapshot (c.requestsOf d) hc
    obtain ⟨c₁, hreceive, hmode, -⟩ := c.receive_eq d
    obtain ⟨c', hrest, hlast⟩ := ih (hmode.trans hstays)
    rw [hnone] at hreceive
    exact ⟨c', receiveAll_cons hreceive hrest, hlast⟩

/-- The run, with what waits in the buffer before it. -/
theorem receiveAll_eq (datagrams : List Datagram) (hc : c.inRecoveryMode = false)
    (hshort : c.incrementalMcastSocket.inboundData.length < mdpMarketUpdateCodec.size)
    {requests : List MDPMarketUpdate}
    (hrequests : (mdpMarketUpdateCodec.chunks
      (c.incrementalMcastSocket.inboundData ++ incrementalBytes datagrams)).1 = requests) :
    ∃ c', c.receiveAll datagrams =
        .ok (c', (inSequence c.nextUpdateSeqNum requests).map (·.meMarketUpdate)) ∧
      (c'.inRecoveryMode = true ↔ inSequence c.nextUpdateSeqNum requests ≠ requests) := by
  have hpos : 0 < mdpMarketUpdateCodec.size := by decide
  induction datagrams generalizing c requests with
  | nil =>
    have hnil : incrementalBytes [] = [] := rfl
    rw [hnil, List.append_nil, chunks_of_lt _ hshort] at hrequests
    subst hrequests
    exact ⟨c, rfl, by simp [hc, inSequence, untilGap]⟩
  | cons d rest ih =>
    obtain ⟨isSnapshot, bytes⟩ := d
    cases isSnapshot with
    | true =>
      obtain ⟨socket, hreceive⟩ := receive_snapshot bytes hc
      obtain ⟨c', hrest, hmode⟩ := ih (c := { c with snapshotMcastSocket := socket }) hc hshort
        hrequests
      exact ⟨c', receiveAll_cons hreceive hrest, hmode⟩
    | false =>
      rw [incrementalBytes_incremental, ← List.append_assoc, chunks_append_bytes _ hpos] at hrequests
      have hleft := mdpMarketUpdateCodec.length_chunks_lt hpos
        (c.incrementalMcastSocket.inboundData ++ bytes)
      generalize hchunks : mdpMarketUpdateCodec.chunks
        (c.incrementalMcastSocket.inboundData ++ bytes) = chunks at hrequests hleft
      obtain ⟨front, left⟩ := chunks
      obtain ⟨socket, rfl, hreceive⟩ := receive_incremental bytes hshort hchunks
      obtain ⟨hwritten, hon, hgap⟩ := handleAll_incremental front hc
      subst hrequests
      by_cases hfront : inSequence c.nextUpdateSeqNum front = front
      · rw [hon hfront, hwritten, hfront] at hreceive
        obtain ⟨c', hrest, hmode⟩ := ih (c := { c with
          nextUpdateSeqNum := numberAfter (· + 1) c.nextUpdateSeqNum front
          incrementalMcastSocket := socket }) hc hleft rfl
        refine ⟨c', ?_, ?_⟩
        · rw [inSequence, untilGap_append_of_eq hfront, List.map_append]
          exact receiveAll_cons hreceive hrest
        · rw [hmode, Ne, Ne, inSequence, inSequence, untilGap_append_eq_self]
          exact not_congr ⟨fun h => ⟨hfront, h⟩, And.right⟩
      · -- the rest of the run finds the consumer in recovery
        obtain ⟨c', hrest, hmode⟩ := receiveAll_recovery
          (c := { (c.handleAll false front).1 with incrementalMcastSocket := socket }) rest
          (hgap hfront)
        refine ⟨c', ?_, iff_of_true hmode fun h => hfront (untilGap_append_eq_self.1 h).1⟩
        rw [inSequence, untilGap_append_of_ne hfront, receiveAll_cons hreceive hrest, hwritten,
          List.append_nil]

/-- **What a consumer passes on**, whatever datagrams come on the two feeds: the updates of the
messages on the incremental feed, up to the first that does not count on.  If there is one, the
consumer is in recovery for good. -/
theorem passedOn_of_run (n : UInt64) (datagrams : List Datagram) :
    ∃ c, receiveAll { nextUpdateSeqNum := n } datagrams =
        .ok (c, (inSequence n (incrementals datagrams)).map (·.meMarketUpdate)) ∧
      (c.inRecoveryMode = true ↔
        inSequence n (incrementals datagrams) ≠ incrementals datagrams) := by
  have hpos : ([] : List UInt8).length < mdpMarketUpdateCodec.size := by decide
  exact receiveAll_eq (c := { nextUpdateSeqNum := n }) datagrams rfl hpos rfl

end MarketDataConsumer
end Trading

/-! ## The publisher at the other end -/

namespace Exchange
namespace MarketDataPublisher

open Codec UntilGap Trading

/-- Round after round of `run`, and the datagrams that went out. -/
def publishAll (p : MarketDataPublisher) :
    List (List MEMarketUpdate) → Except Fault (MarketDataPublisher × List (List UInt8))
  | [] => .ok (p, [])
  | updates :: rest => do
    let (p, datagram) ← p.publish updates
    let (p, more) ← p.publishAll rest
    return (p, datagram :: more)

theorem drain_nextIncSeqNum {p p' : MarketDataPublisher} {updates : List MEMarketUpdate}
    (h : p.drain updates = .ok p') :
    p'.nextIncSeqNum = p.nextIncSeqNum + .ofNat updates.length := by
  induction updates generalizing p with
  | nil =>
    obtain rfl := Except.ok.inj h
    exact (UInt64.add_zero _).symm
  | cons u rest ih =>
    obtain ⟨q, hq, h⟩ := bind_eq_ok.1 h
    rw [ih h, sendUpdate_eq_ok hq, List.length_cons, Nat.add_comm, UInt64.ofNat_add,
      ← UInt64.add_assoc]
    rfl

/-- **What goes out** is the encoding of the numbered updates, in datagrams of whole messages. -/
theorem publishAll_eq_ok {batches : List (List MEMarketUpdate)} {p p' : MarketDataPublisher}
    {sent : List (List UInt8)} (hp : p.incrementalSocket.outboundData = [])
    (h : p.publishAll batches = .ok (p', sent)) : ∃ parts : List (List MDPMarketUpdate),
      sent = parts.map mdpMarketUpdateCodec.encodeAll ∧
        parts.flatten = numbered p.nextIncSeqNum batches.flatten := by
  induction batches generalizing p sent with
  | nil =>
    obtain ⟨-, rfl⟩ := Prod.mk.inj (Except.ok.inj h)
    exact ⟨[], rfl, rfl⟩
  | cons updates rest ih =>
    obtain ⟨⟨q, datagram⟩, hq, h⟩ := bind_eq_ok.1 h
    obtain ⟨⟨p₂, more⟩, hmore, h⟩ := bind_eq_ok.1 h
    obtain ⟨rfl, rfl⟩ := Prod.mk.inj (Except.ok.inj h)
    have hdatagram := publish_eq_ok hp hq
    obtain ⟨d, hd, hq⟩ := bind_eq_ok.1 hq
    obtain ⟨rfl, -⟩ := Prod.mk.inj (Except.ok.inj hq)
    obtain ⟨parts, hparts, hflatten⟩ := ih rfl hmore
    refine ⟨numbered p.nextIncSeqNum updates :: parts, ?_, ?_⟩
    · rw [List.map_cons, hdatagram, hparts]
    · rw [List.flatten_cons, hflatten, List.flatten_cons, numbered_append]
      dsimp only
      rw [drain_nextIncSeqNum hd]

theorem inSequence_numbered (n : UInt64) (updates : List MEMarketUpdate) :
    inSequence n (numbered n updates) = numbered n updates := by
  induction updates generalizing n with
  | nil => rfl
  | cons u rest ih => exact untilGap_cons_eq_self.2 ⟨rfl, ih (n + 1)⟩

theorem length_numbered (n : UInt64) (updates : List MEMarketUpdate) :
    (numbered n updates).length = updates.length := by
  rw [numbered, List.length_map, length_numberedFrom]

/-- No number is sent twice before the counter wraps. -/
theorem eq_of_mem_numbered {n : UInt64} {updates : List MEMarketUpdate}
    (h : n.toNat + updates.length ≤ UInt64.size) {a b : MDPMarketUpdate}
    (ha : a ∈ numbered n updates) (hb : b ∈ numbered n updates) (hab : a.seqNum = b.seqNum) :
    a = b := by
  induction updates generalizing n with
  | nil => exact absurd ha List.not_mem_nil
  | cons u rest ih =>
    rw [List.length_cons] at h
    -- behind the first message the numbers are greater
    have hnext (hrest : rest ≠ []) : (n + 1).toNat = n.toNat + 1 := by
      have hlen := List.length_pos_iff.2 hrest
      rw [UInt64.toNat_add]
      exact Nat.mod_eq_of_lt (show n.toNat + 1 < UInt64.size by omega)
    have hlater {m : MDPMarketUpdate} (hm : m ∈ numbered (n + 1) rest) : n ≠ m.seqNum := by
      have hrest : rest ≠ [] := by
        rintro rfl
        exact absurd hm List.not_mem_nil
      have hbounds := seqNum_of_mem_numbered (by rw [hnext hrest]; omega) hm
      rw [hnext hrest] at hbounds
      intro heq
      rw [← heq] at hbounds
      omega
    rcases List.mem_cons.1 ha with rfl | ha' <;> rcases List.mem_cons.1 hb with rfl | hb'
    · rfl
    · exact absurd hab (hlater hb')
    · exact absurd hab.symm (hlater ha')
    · have hrest : rest ≠ [] := by
        rintro rfl
        exact absurd ha' List.not_mem_nil
      exact ih (by rw [hnext hrest]; omega) ha' hb'

theorem toNat_numberAfter {α : Type} (n : UInt64) (l : List α) :
    (numberAfter (· + 1) n l).toNat = (n.toNat + l.length) % UInt64.size := by
  induction l generalizing n with
  | nil => exact (Nat.mod_eq_of_lt n.toNat_lt).symm
  | cons a l ih =>
    have hone : (1 : UInt64).toNat = 1 := rfl
    rw [numberAfter_cons, ih, UInt64.toNat_add, List.length_cons, Nat.mod_add_mod, hone,
      Nat.add_assoc, Nat.add_comm 1]

variable {updates : List MEMarketUpdate} {requests : List MDPMarketUpdate} {n : UInt64}

/-- The messages from number `n` on. -/
theorem numbered_one_eq_append (hn : n ≠ 0) (hle : n.toNat - 1 ≤ updates.length) :
    numbered 1 updates = numbered 1 (updates.take (n.toNat - 1)) ++
      numbered n (updates.drop (n.toNat - 1)) := by
  have hpos : n.toNat ≠ 0 := fun h => hn (UInt64.toNat_inj.1 h)
  have hone : (1 : UInt64).toNat = 1 := rfl
  have hnumber : 1 + UInt64.ofNat (updates.take (n.toNat - 1)).length = n := by
    have hlt := n.toNat_lt
    apply UInt64.toNat_inj.1
    rw [UInt64.toNat_add, UInt64.toNat_ofNat', List.length_take, Nat.min_eq_left hle, hone]
    omega
  have happend := numbered_append 1 (updates.take (n.toNat - 1)) (updates.drop (n.toNat - 1))
  rwa [hnumber, List.take_append_drop] at happend

/-- The number after the last was not sent. -/
theorem seqNum_ne_numberAfter (hfew : updates.length < UInt64.size) (hn : n ≠ 0)
    (hle : n.toNat - 1 ≤ updates.length) {m : MDPMarketUpdate} (hm : m ∈ numbered 1 updates) :
    m.seqNum ≠ numberAfter (· + 1) n (numbered n (updates.drop (n.toNat - 1))) := by
  have hpos : n.toNat ≠ 0 := fun h => hn (UInt64.toNat_inj.1 h)
  have hone : (1 : UInt64).toNat = 1 := rfl
  have hsum : n.toNat + (updates.length - (n.toNat - 1)) = updates.length + 1 := by omega
  intro hlast
  have hnumbers := seqNum_of_mem_numbered (by omega) hm
  rw [hlast, toNat_numberAfter, length_numbered, List.length_drop, hsum, hone] at hnumbers
  rcases Nat.lt_or_eq_of_le (Nat.succ_le_of_lt hfew) with hfits | hwraps
  · rw [Nat.mod_eq_of_lt hfits] at hnumbers
    omega
  · rw [← Nat.succ_eq_add_one, hwraps, Nat.mod_self] at hnumbers
    omega

/-- What counts on from `n` in messages that were sent is the beginning of what was sent from `n`
on. -/
theorem inSequence_of_sent (hfew : updates.length < UInt64.size)
    (hsent : requests ⊆ numbered 1 updates) (hn : n ≠ 0) :
    inSequence n requests <+: numbered n (updates.drop (n.toNat - 1)) := by
  have hone : (1 : UInt64).toNat = 1 := rfl
  have hbound : (1 : UInt64).toNat + updates.length ≤ UInt64.size := by omega
  rcases Nat.lt_or_ge updates.length (n.toNat - 1) with hlt | hle
  · -- the consumer waits for a number that was not sent yet
    have hnone : inSequence n requests = [] := untilGap_eq_nil fun a ha hseq => by
      have hlast := (seqNum_of_mem_numbered hbound (hsent ha)).2
      rw [hseq] at hlast
      omega
    rw [hnone]
    exact List.nil_prefix
  · have hrest : numbered n (updates.drop (n.toNat - 1)) ⊆ numbered 1 updates := by
      rw [numbered_one_eq_append hn hle]
      exact List.subset_append_right _ _
    refine untilGap_prefix_of_subset ?_ hsent hrest (inSequence_numbered _ _) ?_
    · exact fun a ha b hb hab => eq_of_mem_numbered hbound ha hb hab
    · exact fun a ha => seqNum_ne_numberAfter hfew hn hle ha

/-- Number 0 is not sent. -/
theorem inSequence_zero_of_sent (hfew : updates.length < UInt64.size)
    (hsent : requests ⊆ numbered 1 updates) : inSequence 0 requests = [] :=
  untilGap_eq_nil fun a ha hseq => by
    have hone : (1 : UInt64).toNat = 1 := rfl
    have hfirst := (seqNum_of_mem_numbered (by omega) (hsent ha)).1
    rw [hseq] at hfirst
    exact absurd hfirst (by decide)

end MarketDataPublisher
end Exchange

namespace MarketDataFeed

open Codec UntilGap Exchange Trading MarketDataConsumer MarketDataPublisher

/-- Datagrams that were sent hold whole messages that were sent. -/
theorem incrementals_of_sent {parts : List (List MDPMarketUpdate)} {datagrams : List Datagram}
    (h : ∀ d ∈ datagrams, d.isSnapshot = false →
      d.bytes ∈ parts.map mdpMarketUpdateCodec.encodeAll) :
    incrementals datagrams ⊆ parts.flatten := by
  have hbytes : ∃ requests, incrementalBytes datagrams =
      mdpMarketUpdateCodec.encodeAll requests ∧ requests ⊆ parts.flatten := by
    induction datagrams with
    | nil => exact ⟨[], rfl, List.nil_subset _⟩
    | cons d rest ih =>
      obtain ⟨requests, hrest, hsub⟩ := ih fun d hd => h d (List.mem_cons_of_mem _ hd)
      have hd := h d List.mem_cons_self
      obtain ⟨isSnapshot, bytes⟩ := d
      cases isSnapshot with
      | true => exact ⟨requests, hrest, hsub⟩
      | false =>
        obtain ⟨part, hpart, hencode⟩ := List.mem_map.1 (hd rfl)
        refine ⟨part ++ requests, ?_, List.append_subset.2 ⟨?_, hsub⟩⟩
        · rw [incrementalBytes_incremental, hrest, encodeAll_append, hencode]
        · exact fun a ha => List.mem_flatten.2 ⟨part, hpart, ha⟩
  obtain ⟨requests, hbytes, hsub⟩ := hbytes
  rw [incrementals, hbytes, chunks_encodeAll_nil _ (by decide)]
  exact hsub

/-- Without losses all of them are there. -/
theorem incrementals_of_all {parts : List (List MDPMarketUpdate)} {datagrams : List Datagram}
    (h : (datagrams.filter (!·.isSnapshot)).map (·.bytes) =
      parts.map mdpMarketUpdateCodec.encodeAll) : incrementals datagrams = parts.flatten := by
  have hbytes : incrementalBytes datagrams = mdpMarketUpdateCodec.encodeAll parts.flatten := by
    rw [incrementalBytes, List.flatMap_def, h, encodeAll, List.flatMap_def, List.map_flatten,
      List.flatten_flatten, List.map_map]
    rfl
  rw [incrementals, hbytes, chunks_encodeAll_nil _ (by decide)]

/-- **The feed on an unreliable network.**  Whatever datagrams of the publisher reach a consumer
that waits for number `n`, in whatever order and however often, it passes on the next updates that
were drained, from the `n`-th on and up to some point, all of them if nothing is lost; and none at
all as long as it waits for number 0, which is where the consumer of the source starts. -/
theorem passedOn_of_network {batches : List (List MEMarketUpdate)} {p : MarketDataPublisher}
    {sent : List (List UInt8)} (hpublish : publishAll {} batches = .ok (p, sent))
    (hfew : batches.flatten.length < UInt64.size) {datagrams : List Datagram}
    (hnetwork : ∀ d ∈ datagrams, d.isSnapshot = false → d.bytes ∈ sent) (n : UInt64) :
    ∃ c written, receiveAll { nextUpdateSeqNum := n } datagrams = .ok (c, written) ∧
      (n = 0 → written = []) ∧
      (n ≠ 0 → written <+: batches.flatten.drop (n.toNat - 1)) ∧
      (n = 1 → (datagrams.filter (!·.isSnapshot)).map (·.bytes) = sent →
        written = batches.flatten ∧ c.inRecoveryMode = false) := by
  obtain ⟨parts, rfl, hparts⟩ := publishAll_eq_ok rfl hpublish
  have hsent : incrementals datagrams ⊆ numbered 1 batches.flatten := by
    have h := incrementals_of_sent hnetwork
    rwa [hparts] at h
  obtain ⟨c, hrun, hmode⟩ := receiveAll_eq (c := { nextUpdateSeqNum := n }) datagrams rfl
    (show ([] : List UInt8).length < mdpMarketUpdateCodec.size by decide) rfl
  have hfetched : (mdpMarketUpdateCodec.chunks
      (([] : List UInt8) ++ incrementalBytes datagrams)).1 = incrementals datagrams := rfl
  rw [hfetched] at hrun hmode
  refine ⟨c, _, hrun, ?_, fun hn => ?_, ?_⟩
  · rintro rfl
    exact congrArg (List.map (·.meMarketUpdate)) (inSequence_zero_of_sent hfew hsent)
  · have hnext := (inSequence_of_sent hfew hsent hn).map (·.meMarketUpdate)
    rwa [map_meMarketUpdate_numbered] at hnext
  · rintro rfl hall
    have hevery : incrementals datagrams = numbered 1 batches.flatten :=
      (incrementals_of_all hall).trans hparts
    have hself := inSequence_numbered 1 batches.flatten
    rw [hevery] at hmode ⊢
    dsimp only at hmode ⊢
    rw [hself, map_meMarketUpdate_numbered]
    exact ⟨rfl, Bool.eq_false_iff.2 fun h => hmode.1 h hself⟩

/-- The datagrams of two rounds. -/
def twoRounds : List (List UInt8) :=
  [[⟨1, firstAdded⟩, ⟨2, { firstAdded with orderId := 2 }⟩], [⟨3, { firstAdded with qty := 1 }⟩]].map
    mdpMarketUpdateCodec.encodeAll

/-- The second round, which came twice, before the first, and a snapshot in between. -/
def mixedUp : List Datagram :=
  (twoRounds.drop 1).map (⟨false, ·⟩) ++ [⟨true, mdpMarketUpdateCodec.encode ⟨0, firstAdded⟩⟩] ++
    twoRounds.reverse.map (⟨false, ·⟩)

/-- A consumer that waits for the third update passes on no other. -/
theorem passedOn_of_network_mixedUp : ∃ c written,
    receiveAll { nextUpdateSeqNum := 3 } mixedUp = .ok (c, written) ∧
      written <+: [{ firstAdded with qty := 1 }] := by
  have hrun : (publishAll {} [[firstAdded, { firstAdded with orderId := 2 }],
      [{ firstAdded with qty := 1 }]]).map (·.2) = .ok twoRounds := by decide +kernel
  obtain ⟨p, hpublish⟩ : ∃ p, publishAll {} [[firstAdded, { firstAdded with orderId := 2 }],
      [{ firstAdded with qty := 1 }]] = .ok (p, twoRounds) := by
    obtain ⟨⟨p, sent⟩, hpublish, rfl⟩ := map_eq_ok.1 hrun
    exact ⟨p, hpublish⟩
  have hnetwork : ∀ d ∈ mixedUp, d.isSnapshot = false → d.bytes ∈ twoRounds := by decide +kernel
  obtain ⟨c, written, hreceive, -, hnext, -⟩ :=
    passedOn_of_network hpublish (by decide) hnetwork 3
  exact ⟨c, written, hreceive, hnext (by decide)⟩

end MarketDataFeed
end TradingEcosystem
