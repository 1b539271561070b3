import TradingEcosystem.Common.MulticastSocket

/-!
# The market data publisher

`exchange/market_data/market_data_publisher.cpp`: updates are numbered from 1 on and each is sent in
two parts; what was drained in one round goes out as one datagram.  (The copy for the snapshot
synthesizer is commented out in the source.)
-/

set_option autoImplicit false

namespace TradingEcosystem
namespace Exchange

/-- `MarketDataPublisher`. -/
structure MarketDataPublisher where
  nextIncSeqNum : UInt64 := 1
  incrementalSocket : MulticastSocket := {}

namespace MarketDataPublisher

/-- The body of the loop of `run`. -/
def sendUpdate (p : MarketDataPublisher) (marketUpdate : MEMarketUpdate) :
    Except Fault MarketDataPublisher := do
  let socket ← p.incrementalSocket.send (Codec.u64.encode p.nextIncSeqNum)
  let socket ← socket.send (meMarketUpdateCodec.encode marketUpdate)
  return { nextIncSeqNum := p.nextIncSeqNum + 1, incrementalSocket := socket }

/-- Draining the updates that wait. -/
def drain : MarketDataPublisher → List MEMarketUpdate → Except Fault MarketDataPublisher
  | p, [] => .ok p
  | p, u :: rest => do
    let p ← p.sendUpdate u
    p.drain rest

/-- A round of `run`: the updates that wait, and then `sendAndRecv`. -/
def publish (p : MarketDataPublisher) (updates : List MEMarketUpdate) :
    Except Fault (MarketDataPublisher × List UInt8) := do
  let p ← p.drain updates
  let (socket, datagram) := p.incrementalSocket.flush
  return ({ p with incrementalSocket := socket }, datagram)

/-- Updates as they go over the wire. -/
def numbered (n : UInt64) (updates : List MEMarketUpdate) : List MDPMarketUpdate :=
  (numberedFrom n updates).map fun x => ⟨x.1, x.2⟩

theorem map_meMarketUpdate_numbered (n : UInt64) (updates : List MEMarketUpdate) :
    (numbered n updates).map (·.meMarketUpdate) = updates := by
  induction updates generalizing n with
  | nil => rfl
  | cons u rest ih => exact congrArg (u :: ·) (ih (n + 1))

theorem numbered_append (n : UInt64) (l₁ l₂ : List MEMarketUpdate) :
    numbered n (l₁ ++ l₂) = numbered n l₁ ++ numbered (n + .ofNat l₁.length) l₂ := by
  rw [numbered, numberedFrom_append, List.map_append]
  rfl

/-- The numbers count on from the first, as long as they do not wrap. -/
theorem seqNum_of_mem_numbered {n : UInt64} {updates : List MEMarketUpdate}
    (h : n.toNat + updates.length ≤ UInt64.size) {m : MDPMarketUpdate}
    (hm : m ∈ numbered n updates) :
    n.toNat ≤ m.seqNum.toNat ∧ m.seqNum.toNat < n.toNat + updates.length := by
  obtain ⟨e, he, rfl⟩ := List.mem_map.1 hm
  exact toNat_of_mem_numberedFrom h he

/-- The number and the update are one packed `MDPMarketUpdate`. -/
theorem sendUpdate_eq_ok {p p' : MarketDataPublisher} {u : MEMarketUpdate}
    (h : p.sendUpdate u = .ok p') : p' = { p with
      nextIncSeqNum := p.nextIncSeqNum + 1
      incrementalSocket.outboundData := p.incrementalSocket.outboundData ++
        mdpMarketUpdateCodec.encode ⟨p.nextIncSeqNum, u⟩ } := by
  simp only [sendUpdate, bind_eq_ok, MulticastSocket.send_eq_ok, pure_eq_ok,
    Except.ok.injEq] at h
  obtain ⟨_, ⟨-, rfl⟩, _, ⟨-, rfl⟩, rfl⟩ := h
  dsimp only
  rw [List.append_assoc]
  rfl

theorem drain_eq_ok {p p' : MarketDataPublisher} {updates : List MEMarketUpdate}
    (h : p.drain updates = .ok p') :
    p'.incrementalSocket.outboundData = p.incrementalSocket.outboundData ++
      mdpMarketUpdateCodec.encodeAll (numbered p.nextIncSeqNum updates) := by
  induction updates generalizing p with
  | nil =>
    obtain rfl := Except.ok.inj h
    rw [numbered, numberedFrom, List.map_nil, Codec.encodeAll, List.flatMap_nil, List.append_nil]
  | cons u rest ih =>
    obtain ⟨q, hq, h⟩ := bind_eq_ok.1 h
    rw [ih h, sendUpdate_eq_ok hq]
    dsimp only
    rw [List.append_assoc, ← Codec.encodeAll_cons]
    rfl

/-- **The datagram of a round** is the packed encoding of its numbered updates. -/
theorem publish_eq_ok {p p' : MarketDataPublisher} {updates : List MEMarketUpdate}
    {datagram : List UInt8} (hp : p.incrementalSocket.outboundData = [])
    (h : p.publish updates = .ok (p', datagram)) :
    datagram = mdpMarketUpdateCodec.encodeAll (numbered p.nextIncSeqNum updates) := by
  obtain ⟨q, hq, h⟩ := bind_eq_ok.1 h
  obtain ⟨-, rfl⟩ := Prod.mk.inj (Except.ok.inj h)
  rw [drain_eq_ok hq, hp, List.nil_append]

end MarketDataPublisher
end Exchange
end TradingEcosystem
