import TradingEcosystem.Exchange.MarketDataPublisher
import TradingEcosystem.Trading.MarketDataConsumer
import TradingEcosystem.Lib.Along

/-!
# The incremental feed from end to end

The publisher on one machine and a consumer that has been there from the start on another, with a
network in between that neither loses, repeats nor reorders a datagram.  Whatever updates are
drained, and however they are split into datagrams, the consumer is meant to pass on exactly these
and never to recover.

`lossless_iff` says that it does only while there is nothing to pass on.  That is so for the
message the source fetches, and for the one it means to fetch as well: the publisher counts from 1
and the consumer from 0.
-/

set_option autoImplicit false

namespace TradingEcosystem
namespace MarketDataFeed

open Exchange Trading Run

/-- Both ends, what has been drained and what has been passed on. -/
structure System where
  publisher : MarketDataPublisher := {}
  consumer : MarketDataConsumer := {}
  drained : List MEMarketUpdate := []
  written : List MEMarketUpdate := []

variable (fetch : Fetch)

/-- One round of the publisher, and the datagram at the consumer. -/
def System.step (x : System) (updates : List MEMarketUpdate) : Except Fault System := do
  let (publisher, datagram) ← x.publisher.publish updates
  let (consumer, written) ← x.consumer.receiveIncremental fetch datagram
  return { publisher, consumer, drained := x.drained ++ updates, written := x.written ++ written }

def Next (x : System) (updates : List MEMarketUpdate) (x' : System) : Prop :=
  x.step fetch updates = .ok x'

/-- **What the feed promises**, round by round: what was drained has been passed on, in order and
each update once, and the consumer is not in recovery. -/
def StepLossless (x : System) (updates : List MEMarketUpdate) : Prop :=
  ∃ x', Next fetch x updates x' ∧ x'.written = x'.drained ∧ x'.consumer.inRecoveryMode = false

/-- A round without updates sends nothing. -/
theorem step_nil : ({} : System).step fetch [] = .ok {} := rfl

variable {fetch}

/-- What is fetched at the front of the buffer is nothing, or the message that is there. -/
def FetchesFront (fetch : Fetch) : Prop :=
  ∀ (inbound : List UInt8) (request : MDPMarketUpdate), fetch inbound 0 = .ok request →
    request = mdpMarketUpdateCodec.decode (inbound.take mdpMarketUpdateCodec.size)

theorem fetchesFront_requestOfIndex : FetchesFront requestOfIndex :=
  fun _ _ h => absurd h (by simp [requestOfIndex])

theorem fetchesFront_requestAtOffset : FetchesFront requestAtOffset :=
  fun _ _ h => (Except.ok.inj h).symm

/-- The first update of all sends the consumer into recovery, if it is fetched. -/
theorem receiveIncremental_first (hf : FetchesFront fetch) {u : MEMarketUpdate}
    {rest : List MEMarketUpdate} {c : MarketDataConsumer} {written : List MEMarketUpdate}
    (h : ({} : MarketDataConsumer).receiveIncremental fetch (mdpMarketUpdateCodec.encodeAll
      (MarketDataPublisher.numbered 1 (u :: rest))) = .ok (c, written)) :
    c.inRecoveryMode = true := by
  have hfront : MarketDataPublisher.numbered 1 (u :: rest) =
      ⟨1, u⟩ :: MarketDataPublisher.numbered 2 rest := rfl
  rw [hfront, Codec.encodeAll_cons] at h
  generalize mdpMarketUpdateCodec.encodeAll _ = behind at h
  have hsize : (mdpMarketUpdateCodec.encode ⟨1, u⟩).length = 42 :=
    mdpMarketUpdateCodec.length_encode _
  generalize hinbound : mdpMarketUpdateCodec.encode ⟨1, u⟩ ++ behind = inbound at h
  have hlen : mdpMarketUpdateCodec.size ≤ inbound.length := by
    rw [← hinbound, List.length_append, hsize]
    exact Nat.le_add_right _ _
  have hne : inbound ≠ [] := List.ne_nil_of_length_pos (Nat.lt_of_lt_of_le (by decide) hlen)
  rw [MarketDataConsumer.receiveIncremental, if_neg hne] at h
  obtain ⟨⟨c', left, w⟩, hrecv, h⟩ := bind_eq_ok.1 h
  obtain ⟨rfl, -⟩ := Prod.mk.inj (Except.ok.inj h)
  have hreceived : (({} : MulticastSocket).received inbound).inboundData = inbound := rfl
  rw [hreceived, MarketDataConsumer.recvCallback, if_neg (by decide), if_pos hlen] at hrecv
  obtain ⟨⟨i, c'', w'⟩, hloop, hrecv⟩ := bind_eq_ok.1 hrecv
  obtain ⟨rfl, -⟩ := Prod.mk.inj (Except.ok.inj hrecv)
  obtain ⟨fuel, hfuel⟩ : ∃ fuel, inbound.length = fuel + 1 :=
    ⟨inbound.length - 1, by have := List.length_pos_of_ne_nil hne; omega⟩
  rw [hfuel, MarketDataConsumer.recvLoop, if_pos (by rw [Nat.zero_add]; exact hlen)] at hloop
  obtain ⟨request, hfetch, hloop⟩ := bind_eq_ok.1 hloop
  -- the message in front has number 1, and the consumer waits for 0
  have hrequest : request = ⟨1, u⟩ := by
    rw [hf inbound request hfetch, ← hinbound,
      List.take_left' (mdpMarketUpdateCodec.length_encode _), mdpMarketUpdateCodec.decode_encode]
  have hnumbers : (1 : UInt64) ≠ 0 := by decide
  have hentered := MarketDataConsumer.handleRequest_recovery (c := {}) false request
    (Or.inr (by rw [hrequest]; exact hnumbers))
  generalize MarketDataConsumer.handleRequest {} false request = next at hloop hentered
  obtain ⟨d, none⟩ := next
  obtain ⟨⟨j, d', more⟩, hrest, hloop⟩ := bind_eq_ok.1 hloop
  obtain ⟨-, rfl, -⟩ : j = i ∧ d' = c'' ∧ none ++ more = w' := by simpa using hloop
  exact (MarketDataConsumer.recvLoop_recovery fuel hentered.2 hrest).2

theorem not_stepLossless_cons (hf : FetchesFront fetch) (u : MEMarketUpdate)
    (rest : List MEMarketUpdate) : ¬ StepLossless fetch {} (u :: rest) := by
  rintro ⟨x', hnext, -, hmode⟩
  obtain ⟨⟨publisher, datagram⟩, hpublish, hnext⟩ := bind_eq_ok.1 hnext
  obtain ⟨⟨consumer, written⟩, hreceive, hnext⟩ := bind_eq_ok.1 hnext
  obtain rfl := Except.ok.inj hnext
  obtain rfl := MarketDataPublisher.publish_eq_ok rfl hpublish
  exact absurd ((receiveIncremental_first hf hreceive).symm.trans hmode) (by decide)

theorem lossless_iff_of_fetchesFront (hf : FetchesFront fetch)
    (batches : List (List MEMarketUpdate)) :
    Along (Next fetch) (StepLossless fetch) {} batches ↔ batches.flatten = [] := by
  induction batches with
  | nil => exact iff_of_true trivial rfl
  | cons updates rest ih =>
    rw [along_cons, List.flatten_cons, List.append_eq_nil_iff]
    rcases updates with _ | ⟨u, updates⟩
    · rw [← ih]
      refine and_congr (iff_of_true ⟨_, step_nil fetch, rfl, rfl⟩ rfl) ⟨fun h => ?_, ?_⟩
      · exact h _ (step_nil fetch)
      · intro h x' hx'
        rwa [← Except.ok.inj ((step_nil fetch).symm.trans hx')]
    · exact iff_of_false (fun h => not_stepLossless_cons hf u updates h.1) (by simp)

/-- **The feed is lossless** exactly while there are no updates. -/
theorem lossless_iff (batches : List (List MEMarketUpdate)) :
    Along (Next requestOfIndex) (StepLossless requestOfIndex) {} batches ↔ batches.flatten = [] :=
  lossless_iff_of_fetchesFront fetchesFront_requestOfIndex batches

/-- With the message at its place in the buffer the two ends still do not count alike. -/
theorem lossless_atOffset_iff (batches : List (List MEMarketUpdate)) :
    Along (Next requestAtOffset) (StepLossless requestAtOffset) {} batches ↔ batches.flatten = [] :=
  lossless_iff_of_fetchesFront fetchesFront_requestAtOffset batches

/-- The first order of a day. -/
def firstAdded : MEMarketUpdate where
  type := .add
  orderId := 1
  tickerId := 0
  side := .buy
  price := 100
  qty := 5
  priority := 1

theorem not_lossless_firstAdded : ¬ ∀ batches : List (List MEMarketUpdate),
    Along (Next requestOfIndex) (StepLossless requestOfIndex) {} batches :=
  fun h => not_stepLossless_cons fetchesFront_requestOfIndex firstAdded [] (h [[firstAdded]]).1

end MarketDataFeed
end TradingEcosystem
